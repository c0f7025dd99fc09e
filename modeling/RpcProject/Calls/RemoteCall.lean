/-
# A call, from the client's arguments to the callee's words

`CoreClient.call` turns each argument into a member of the union that the message type
has for arguments: it resolves a lazy symbol, takes an integer or the value of an
enumeration modulo `2 ^ 64`, and passes a path as its text. The test of the classes is
in this order, so an enumeration of integers travels as an integer. The server unpacks
the request and lays the arguments out for the callee, and the client picks from the
registers of the reply what it was asked for.

Arguments that fit the buffers of the server arrive each where the convention wants it, and
the call returns what the callee left in its registers, as far as a reply carries them. The
copy of the stack words also overwrites a part of the server's own frame on ARM64; what
that may do to the call is not modelled here.
-/

import RpcProject.Calls.Bounds
import RpcProject.Client.EnterPtyMode
import RpcProject.Protocol.Lossless
import RpcProject.Transport.RemoteCalls

namespace RpcProject.Calls

open Foundations Foundations.Wire Protocol Server Client Transport

/-! ## The client's arguments -/

/-- An argument, by the first class of the chain that it belongs to. -/
inductive RemoteCallArg
  | lazySymbol (name : Bytes)
  | float (bits : UInt64)
  | str (codePoints : List ℕ)
  | int (value : ℤ)
  | bytes (data : Bytes)
  /-- an enumeration, whose value need not be an integer -/
  | enum (value : Option ℤ)
  | path (codePoints : List ℕ)
  deriving DecidableEq, Repr

/-- What `call` raises before it sends anything. -/
inductive CallFailure
  | nullPointer
  | symbolAbsent (name : Bytes)
  | typeError
  | valueError
  | rpc (error : CallError)
  deriving DecidableEq, Repr

/-- The text of an argument, whose code points may hold a lone surrogate. -/
def marshalText (codePoints : List ℕ) : Except CallFailure Api.ArgumentType :=
  match encode codePoints with
  | none => .error .valueError
  | some text => .ok (.vStr text)

/-- `Argument(...)` for one argument. -/
def marshal (resolve : Bytes → Option UInt64) : RemoteCallArg → Except CallFailure Api.ArgumentType
  | .lazySymbol name =>
      match resolve name with
      | none => .error (.symbolAbsent name)
      | some address => .ok (.vInt address)
  | .float bits => .ok (.vDouble bits)
  | .str codePoints => marshalText codePoints
  | .int value => .ok (.vInt (UInt64.ofInt value))
  | .bytes data => .ok (.vBytes data)
  | .enum none => .error .typeError
  | .enum (some value) => .ok (.vInt (UInt64.ofInt value))
  | .path codePoints => marshalText codePoints

/-- What the caller asks for. -/
structure CallOptions where
  returnFloat64 : Bool
  returnFloat32 : Bool
  returnRaw : Bool
  vaListIndex : Option ℤ
  deriving DecidableEq

/-- What a call returns: a symbol, a floating-point number, or the registers. -/
inductive Returned
  | symbol (value : UInt64)
  | float (bits : UInt64)
  | raw (registers : Api.ReturnRegistersArm)
  deriving DecidableEq

/-- What `call` makes of a reply. `c_float` rounds a number to single precision. -/
def returned (cFloat : UInt64 → UInt64) (options : CallOptions) (reply : Api.ReplyCall) :
    Returned :=
  match reply.returnValues with
  | some (.armRegisters registers) =>
      if options.returnFloat32 then .float (cFloat registers.d0)
      else if options.returnFloat64 then .float registers.d0
      else if options.returnRaw then .raw registers
      else .symbol registers.x0
  | some (.returnValue value) => .symbol value
  | none => .symbol 0

/-- A number for an unsigned field, which is a `ValueError` when it does not fit. -/
def unsigned (value : ℤ) : Except CallFailure UInt64 :=
  if 0 ≤ value ∧ value < 2 ^ 64 then .ok (UInt64.ofInt value) else .error .valueError

/-- The request of a call. -/
def callRequest (resolve : Bytes → Option UInt64) (options : CallOptions) (address : ℤ)
    (argv : List RemoteCallArg) : Except CallFailure Api.RequestCall := do
  if address = 0 then throw .nullPointer
  let args ← argv.mapM (marshal resolve)
  return ⟨← unsigned address, ← unsigned (options.vaListIndex.getD 0xFFFF), args.map some⟩

/-- An argument in the server's memory, its text or bytes at `pointer`. -/
def placed (pointer : UInt64) : Api.Argument → Argument
  | none => .notSet
  | some (.vInt value) => .vInt value
  | some (.vDouble bits) => .vDouble bits
  | some (.vStr _) => .vStr pointer
  | some (.vBytes data) => .vBytes (UInt64.ofNat data.length) pointer

/-- The arguments of a request in the server's memory. -/
def placedAll (pointers : ℕ → UInt64) (argv : List Api.Argument) : List Argument :=
  argv.mapIdx fun i arg => placed (pointers i) arg

/-- What a call of a function does with its arguments: on ARM64 it gets the words of the
frame and leaves its registers, elsewhere it gets seventeen words and returns one. -/
structure Callee where
  arm : (Slot → UInt64) → Api.ReturnRegistersArm
  generic : (ℕ → UInt64) → UInt64
  /-- the conversion of a double to an integer -/
  toInteger : UInt64 → UInt64

/-- `call_function`: what it puts into the reply. -/
def callFunction (callee : Callee) (request : RequestCall) : Build → Api.ReturnValues
  | .arm64 =>
    .armRegisters (callee.arm (callFunctionArm request.vaListIndex.toNat request.argv).args)
  | .generic =>
    .returnValue (callee.generic (callFunctionGeneric callee.toInteger request.argv).args)

/-- `routine_call`, with a callee at every address. -/
def routineCall (callees : UInt64 → Callee) (pointers : ℕ → UInt64) (build : Build)
    (request : Api.RequestCall) : Outcome .reqCall :=
  .success (⟨some (callFunction (callees request.address)
    ⟨request.address, request.vaListIndex, placedAll pointers request.argv⟩ build)⟩ : Api.ReplyCall)

variable {pointers : ℕ → UInt64} {request : Api.RequestCall}

/-- Arguments whose texts and bytes a message can carry. -/
def Carried : Api.ArgumentType → Prop
  | .vInt _ => True
  | .vDouble _ => True
  | .vStr text => 20 + text.length ≤ maxDelimited
  | .vBytes data => 20 + data.length ≤ maxDelimited

/-- An argument that can be carried fits. -/
theorem Carried.fits {arg : Api.ArgumentType} (h : Carried arg) :
    (Scalar.message true Api.Argument.codec).Fits (some arg) := by
  constructor
  · apply Union.optional_fits_some
    cases arg with
    | vInt value => trivial
    | vDouble bits => trivial
    | vStr text => exact ⟨le_trans (Nat.le_add_left _ _) h, rfl⟩
    | vBytes data => exact ⟨le_trans (Nat.le_add_left _ _) h, rfl⟩
  · refine le_trans (Api.ArgumentType.union.pack_optional_length_le arg) ?_
    cases arg with
    | vInt value => exact (by decide : 20 + 0 ≤ maxDelimited)
    | vDouble bits =>
      exact le_trans (Nat.add_le_add_left (Nat.le_of_eq (toLE_length 8 _)) 20) (by decide)
    | vStr text => exact h
    | vBytes data => exact h

end RpcProject.Calls
