/-
# The requests and replies of the API

Every request id has a message type for its request and one for its reply. A codec of
a request tells what the server reads off the fields of the request, and a codec of a
reply what the server packs. Its `norm` is what is left of a message on the other side.
The client's library, which serialises requests and parses replies, is a parameter of
the modules that need it.

Two things are lost on the way. The server reads the texts of a request as C strings,
up to their first zero. And it leaves a register out of a reply when the register is
equal to zero, which the negative zero of a floating-point register is as well.
-/

import RpcProject.Foundations.Codec
import RpcProject.Protocol.Registry

namespace RpcProject.Protocol.Api

open Foundations Foundations.Wire

/-! ## Kinds of fields

The server is a strict receiver, the client is not. -/

/-- A `uint64` field, left out when it is zero. -/
def uint64 (strict : Bool) (n : ℕ) (hn : 0 < n ∧ n < 2 ^ 29 := by decide) : Codec UInt64 :=
  (Union.member n (.uint64 strict) hn).implicit (· == 0) 0

/-- A `uint32` field, left out when it is zero. -/
def uint32 (strict : Bool) (n : ℕ) (hn : 0 < n ∧ n < 2 ^ 29 := by decide) : Codec UInt32 :=
  (Union.member n (.uint32 strict) hn).implicit (· == 0) 0

/-- An `int32` field, left out when it is zero. -/
def int32 (strict : Bool) (n : ℕ) (hn : 0 < n ∧ n < 2 ^ 29 := by decide) : Codec Int32 :=
  (Union.member n (.int32 strict) hn).implicit (· == 0) 0

/-- A `bool` field, left out when it is false. -/
def bool (n : ℕ) (hn : 0 < n ∧ n < 2 ^ 29 := by decide) : Codec Bool :=
  (Union.member n .boolean hn).implicit (! ·) false

/-- A `bytes` field, left out when it is empty. -/
def bytes (strict : Bool) (n : ℕ) (hn : 0 < n ∧ n < 2 ^ 29 := by decide) : Codec Bytes :=
  (Union.member n (.bytes strict) hn).implicit (· == []) []

/-- A text of a request, as the server sees it. -/
def cString : Scalar Bytes := .delimited true (fun _ => true) Scalar.cString

/-- Whether bytes are the code of some text. -/
def isText (bytes : Bytes) : Bool := bytes.toByteArray.utf8Decode?.isSome

/-- A text of a reply, which the client decodes. -/
def text : Scalar Bytes := .delimited false isText id

/-- A `string` field of a request, left out when it is empty. -/
def requestText (n : ℕ) (hn : 0 < n ∧ n < 2 ^ 29 := by decide) : Codec Bytes :=
  (Union.member n cString hn).implicit (· == []) []

/-- A `string` field of a reply, left out when it is empty. -/
def replyText (n : ℕ) (hn : 0 < n ∧ n < 2 ^ 29 := by decide) : Codec Bytes :=
  (Union.member n text hn).implicit (· == []) []

/-- The bits of the negative zero. -/
def negativeZero : UInt64 := 0x8000000000000000

/-- A floating-point register of a reply, left out when it compares equal to zero. -/
def register (n : ℕ) (hn : 0 < n ∧ n < 2 ^ 29 := by decide) : Codec UInt64 :=
  (Union.member n (.double false) hn).implicit (fun d => d == 0 || d == negativeZero) 0

/-! ## Requests -/

/-- The library to load, and the flags of `dlopen`. -/
structure RequestDlopen where
  filename : Bytes
  mode : Int32
  deriving DecidableEq

/-- A request to load a library. -/
def RequestDlopen.codec : Codec RequestDlopen :=
  ((requestText 1).prod (int32 true 2)).rename
    ⟨fun m => (m.filename, m.mode), fun m => ⟨m.1, m.2⟩, fun _ => rfl, fun _ => rfl⟩

/-- The handle of the library to close. -/
structure RequestDlclose where
  handle : UInt64
  deriving DecidableEq

/-- A request to close a library. -/
def RequestDlclose.codec : Codec RequestDlclose :=
  (uint64 true 1).rename ⟨handle, mk, fun _ => rfl, fun _ => rfl⟩

/-- The symbol to look up, and the handle of the library it is looked up in. -/
structure RequestDlsym where
  handle : UInt64
  symbolName : Bytes
  deriving DecidableEq

/-- A request for the address of a symbol. -/
def RequestDlsym.codec : Codec RequestDlsym :=
  ((uint64 true 1).prod (requestText 2)).rename
    ⟨fun m => (m.handle, m.symbolName), fun m => ⟨m.1, m.2⟩, fun _ => rfl, fun _ => rfl⟩

/-- The command line and the environment of a child, and whether it runs without a terminal.
-/
structure RequestExec where
  background : Bool
  argv : List Bytes
  envp : List Bytes
  deriving DecidableEq

/-- A request to start a child. -/
def RequestExec.codec : Codec RequestExec :=
  ((bool 1).prod ((Union.member 2 cString).repeated.prod (Union.member 3 cString).repeated)).rename
    ⟨fun m => (m.background, m.argv, m.envp), fun m => ⟨m.1, m.2.1, m.2.2⟩,
      fun _ => rfl, fun _ => rfl⟩

/-- The member of an argument that is set. The server hands the data of texts and
bytes on by their addresses, zeros included. -/
inductive ArgumentType
  | vInt (value : UInt64)
  | vDouble (bits : UInt64)
  | vStr (text : Bytes)
  | vBytes (data : Bytes)
  deriving DecidableEq, Repr

/-- The members of an argument are alternatives. -/
def ArgumentType.equiv : ArgumentType ≃ UInt64 ⊕ UInt64 ⊕ Bytes ⊕ Bytes where
  toFun
    | vInt value => .inl value
    | vDouble bits => .inr (.inl bits)
    | vStr text => .inr (.inr (.inl text))
    | vBytes data => .inr (.inr (.inr data))
  invFun
    | .inl value => vInt value
    | .inr (.inl bits) => vDouble bits
    | .inr (.inr (.inl text)) => vStr text
    | .inr (.inr (.inr data)) => vBytes data
  left_inv argument := by cases argument <;> rfl
  right_inv value := by
    rcases value with value | bits | text | data <;> rfl

/-- The `oneof` of an argument. -/
def ArgumentType.union : Wire.Union ArgumentType :=
  ((Union.member 1 (.uint64 true)).or <| (Union.member 2 (.double true)).or <|
    (Union.member 3 (.bytes true)).or (Union.member 4 (.bytes true))).rename equiv

/-- An argument of a call. None of its members need be set. -/
abbrev Argument := Option ArgumentType

/-- The message of an argument. -/
def Argument.codec : Codec Argument := ArgumentType.union.optional

/-- The function to call, its arguments, and the number of the first one that is variadic.
-/
structure RequestCall where
  address : UInt64
  vaListIndex : UInt64
  argv : List Argument
  deriving DecidableEq

/-- A request to call a function. -/
def RequestCall.codec : Codec RequestCall :=
  ((uint64 true 1).prod ((uint64 true 2).prod
    (Union.member 3 (.message true Argument.codec)).repeated)).rename
      ⟨fun m => (m.address, m.vaListIndex, m.argv), fun m => ⟨m.1, m.2.1, m.2.2⟩, fun _ => rfl,
        fun _ => rfl⟩

/-- The memory to read. -/
structure RequestPeek where
  address : UInt64
  size : UInt64
  deriving DecidableEq

/-- A request to read memory. -/
def RequestPeek.codec : Codec RequestPeek :=
  ((uint64 true 1).prod (uint64 true 2)).rename
    ⟨fun m => (m.address, m.size), fun m => ⟨m.1, m.2⟩, fun _ => rfl, fun _ => rfl⟩

/-- The memory to write, and what is written to it. -/
structure RequestPoke where
  address : UInt64
  data : Bytes
  deriving DecidableEq

/-- A request to write memory. -/
def RequestPoke.codec : Codec RequestPoke :=
  ((uint64 true 1).prod (bytes true 2)).rename
    ⟨fun m => (m.address, m.data), fun m => ⟨m.1, m.2⟩, fun _ => rfl, fun _ => rfl⟩

/-- The directory to list. -/
structure RequestListDir where
  path : Bytes
  deriving DecidableEq

/-- A request to list a directory. -/
def RequestListDir.codec : Codec RequestListDir :=
  (requestText 1).rename ⟨path, mk, fun _ => rfl, fun _ => rfl⟩

/-- `RequestShowObject` and `RequestShowClass`. -/
structure RequestShow where
  address : UInt64
  deriving DecidableEq

/-- A request to describe an object or a class. -/
def RequestShow.codec : Codec RequestShow :=
  (uint64 true 1).rename ⟨address, mk, fun _ => rfl, fun _ => rfl⟩

/-! ## Replies -/

/-- The handle of the library, zero when it could not be loaded. -/
structure ReplyDlopen where
  handle : UInt64
  deriving DecidableEq

/-- The reply with a library. -/
def ReplyDlopen.codec : Codec ReplyDlopen :=
  (uint64 false 1).rename ⟨handle, mk, fun _ => rfl, fun _ => rfl⟩

/-- What `dlclose` returned. -/
structure ReplyDlclose where
  res : UInt32
  deriving DecidableEq

/-- The reply that a library is closed. -/
def ReplyDlclose.codec : Codec ReplyDlclose :=
  (uint32 false 1).rename ⟨res, mk, fun _ => rfl, fun _ => rfl⟩

/-- The address of the symbol, zero when there is none. -/
structure ReplyDlsym where
  ptr : UInt64
  deriving DecidableEq

/-- The reply with a symbol. -/
def ReplyDlsym.codec : Codec ReplyDlsym :=
  (uint64 false 1).rename ⟨ptr, mk, fun _ => rfl, fun _ => rfl⟩

/-- The child, and the descriptor of its terminal. -/
structure ReplyExec where
  pid : UInt32
  fd : Int32
  deriving DecidableEq

/-- The reply with a child. -/
def ReplyExec.codec : Codec ReplyExec :=
  ((uint32 false 1).prod (int32 false 2)).rename
    ⟨fun m => (m.pid, m.fd), fun m => ⟨m.1, m.2⟩, fun _ => rfl, fun _ => rfl⟩

/-- The registers after a call on ARM64: eight of integers and eight of floating-point
numbers. -/
structure ReturnRegistersArm where
  x0 : UInt64
  x1 : UInt64
  x2 : UInt64
  x3 : UInt64
  x4 : UInt64
  x5 : UInt64
  x6 : UInt64
  x7 : UInt64
  d0 : UInt64
  d1 : UInt64
  d2 : UInt64
  d3 : UInt64
  d4 : UInt64
  d5 : UInt64
  d6 : UInt64
  d7 : UInt64
  deriving DecidableEq

/-- The message with the registers of ARM64. -/
def ReturnRegistersArm.codec : Codec ReturnRegistersArm :=
  ((uint64 false 1).prod <| (uint64 false 2).prod <|
    (uint64 false 3).prod <| (uint64 false 4).prod <|
    (uint64 false 5).prod <| (uint64 false 6).prod <|
    (uint64 false 7).prod <| (uint64 false 8).prod <|
    (register 9).prod <| (register 10).prod <| (register 11).prod <| (register 12).prod <|
    (register 13).prod <| (register 14).prod <| (register 15).prod (register 16)).rename
      ⟨fun m => (m.x0, m.x1, m.x2, m.x3, m.x4, m.x5, m.x6, m.x7, m.d0, m.d1, m.d2, m.d3, m.d4, m.d5,
          m.d6, m.d7),
        fun (x0, x1, x2, x3, x4, x5, x6, x7, d0, d1, d2, d3, d4, d5, d6, d7) =>
          ⟨x0, x1, x2, x3, x4, x5, x6, x7, d0, d1, d2, d3, d4, d5, d6, d7⟩,
        fun _ => rfl, fun _ => rfl⟩

/-- What a call returns: the registers on ARM64, a word elsewhere. -/
inductive ReturnValues
  | armRegisters (registers : ReturnRegistersArm)
  | returnValue (value : UInt64)
  deriving DecidableEq

/-- The two kinds of return values are alternatives. -/
def ReturnValues.equiv : ReturnValues ≃ ReturnRegistersArm ⊕ UInt64 where
  toFun
    | armRegisters registers => .inl registers
    | returnValue value => .inr value
  invFun
    | .inl registers => armRegisters registers
    | .inr value => returnValue value
  left_inv value := by cases value <;> rfl
  right_inv value := by cases value <;> rfl

/-- What the function returned, if the server has set it. -/
structure ReplyCall where
  returnValues : Option ReturnValues
  deriving DecidableEq

/-- The reply to a call. -/
def ReplyCall.codec : Codec ReplyCall :=
  (((Union.member 1 (.message false ReturnRegistersArm.codec)).or
    (Union.member 2 (.uint64 false))).rename ReturnValues.equiv).optional.rename
      ⟨returnValues, mk, fun _ => rfl, fun _ => rfl⟩

/-- The memory that was read. -/
structure ReplyPeek where
  data : Bytes
  deriving DecidableEq

/-- The reply with memory. -/
def ReplyPeek.codec : Codec ReplyPeek :=
  (bytes false 1).rename ⟨data, mk, fun _ => rfl, fun _ => rfl⟩

/-- A file's status as `stat` and `lstat` tell it, or the error they failed with. -/
structure DirEntryStat where
  errno1 : UInt64
  stDev : UInt64
  stMode : UInt64
  stNlink : UInt64
  stIno : UInt64
  stUid : UInt64
  stGid : UInt64
  stRdev : UInt64
  stSize : UInt64
  stBlocks : UInt64
  stBlksize : UInt64
  stAtime1 : UInt64
  stMtime1 : UInt64
  stCtime1 : UInt64
  deriving DecidableEq

/-- The message with the status of a file. -/
def DirEntryStat.codec : Codec DirEntryStat :=
  ((uint64 false 1).prod <| (uint64 false 2).prod <|
    (uint64 false 3).prod <| (uint64 false 4).prod <|
    (uint64 false 5).prod <| (uint64 false 6).prod <|
    (uint64 false 7).prod <| (uint64 false 8).prod <|
    (uint64 false 9).prod <| (uint64 false 10).prod <| (uint64 false 11).prod <|
    (uint64 false 12).prod <| (uint64 false 13).prod (uint64 false 14)).rename
      ⟨fun m => (m.errno1, m.stDev, m.stMode, m.stNlink, m.stIno, m.stUid, m.stGid, m.stRdev,
          m.stSize, m.stBlocks, m.stBlksize, m.stAtime1, m.stMtime1, m.stCtime1),
        fun (errno1, dev, mode, nlink, ino, uid, gid, rdev, size, blocks, blksize, atime, mtime,
            ctime) =>
          ⟨errno1, dev, mode, nlink, ino, uid, gid, rdev, size, blocks, blksize, atime, mtime,
            ctime⟩,
        fun _ => rfl, fun _ => rfl⟩

/-- An entry of a directory, with the status of the entry and of what it leads to. -/
structure DirEntry where
  dType : UInt64
  dName : Bytes
  lstat : Option DirEntryStat
  stat : Option DirEntryStat
  deriving DecidableEq

/-- The message of an entry. -/
def DirEntry.codec : Codec DirEntry :=
  ((uint64 false 1).prod <| (replyText 2).prod <|
    (Union.member 3 (.message false DirEntryStat.codec)).optional.prod
      (Union.member 4 (.message false DirEntryStat.codec)).optional).rename
        ⟨fun m => (m.dType, m.dName, m.lstat, m.stat), fun (type, name, lstat, stat) =>
          ⟨type, name, lstat, stat⟩, fun _ => rfl, fun _ => rfl⟩

/-- The entries of a directory. -/
structure ReplyListDir where
  dirEntries : List DirEntry
  deriving DecidableEq

/-- The reply with a listing. Its field has the number 3. -/
def ReplyListDir.codec : Codec ReplyListDir :=
  (Union.member 3 (.message false DirEntry.codec)).repeated.rename
    ⟨dirEntries, mk, fun _ => rfl, fun _ => rfl⟩

/-- The address and the size of the empty block. -/
structure ReplyDummyBlock where
  address : UInt64
  size : UInt64
  deriving DecidableEq

/-- The reply with the block. -/
def ReplyDummyBlock.codec : Codec ReplyDummyBlock :=
  ((uint64 false 1).prod (uint64 false 2)).rename
    ⟨fun m => (m.address, m.size), fun m => ⟨m.1, m.2⟩, fun _ => rfl, fun _ => rfl⟩

/-- A class of the runtime. -/
structure ObjcClass where
  address : UInt64
  name : Bytes
  deriving DecidableEq

/-- The message of a class. -/
def ObjcClass.codec : Codec ObjcClass :=
  ((uint64 false 1).prod (replyText 2)).rename
    ⟨fun m => (m.address, m.name), fun m => ⟨m.1, m.2⟩, fun _ => rfl, fun _ => rfl⟩

/-- The classes of the runtime. -/
structure ReplyGetClassList where
  classes : List ObjcClass
  deriving DecidableEq

/-- The reply with the classes. -/
def ReplyGetClassList.codec : Codec ReplyGetClassList :=
  (Union.member 1 (.message false ObjcClass.codec)).repeated.rename
    ⟨classes, mk, fun _ => rfl, fun _ => rfl⟩

/-- `ReplyShowObject` and `ReplyShowClass`. -/
structure ReplyShow where
  description : Bytes
  deriving DecidableEq

/-- The reply with a description. -/
def ReplyShow.codec : Codec ReplyShow :=
  (replyText 1).rename ⟨description, mk, fun _ => rfl, fun _ => rfl⟩

/-- The error reply, as the client parses it. -/
def replyErrorCodec : Codec ReplyError :=
  (replyText 1).rename ⟨ReplyError.message, ReplyError.mk, fun _ => rfl, fun _ => rfl⟩

/-! ## All requests and all replies -/

/-- The type of the request under each id. -/
def RequestType : MsgId → Type
  | .reqDlopen => RequestDlopen
  | .reqDlclose => RequestDlclose
  | .reqDlsym => RequestDlsym
  | .reqPeek => RequestPeek
  | .reqPoke => RequestPoke
  | .reqExec => RequestExec
  | .reqCall => RequestCall
  | .reqCloseClient => Unit
  | .reqListDir => RequestListDir
  | .reqDummyBlock => Unit
  | .reqGetClassList => Unit
  | .reqShowObject => RequestShow
  | .reqShowClass => RequestShow

/-- The type of the reply to each request. -/
def ReplyType : MsgId → Type
  | .reqDlopen => ReplyDlopen
  | .reqDlclose => ReplyDlclose
  | .reqDlsym => ReplyDlsym
  | .reqPeek => ReplyPeek
  | .reqPoke => Unit
  | .reqExec => ReplyExec
  | .reqCall => ReplyCall
  | .reqCloseClient => Unit
  | .reqListDir => ReplyListDir
  | .reqDummyBlock => ReplyDummyBlock
  | .reqGetClassList => ReplyGetClassList
  | .reqShowObject => ReplyShow
  | .reqShowClass => ReplyShow

/-- The message of the request under each id. A close, a dummy block and a class list ask
nothing. -/
def requestCodec : (id : MsgId) → Codec (RequestType id)
  | .reqDlopen => RequestDlopen.codec
  | .reqDlclose => RequestDlclose.codec
  | .reqDlsym => RequestDlsym.codec
  | .reqPeek => RequestPeek.codec
  | .reqPoke => RequestPoke.codec
  | .reqExec => RequestExec.codec
  | .reqCall => RequestCall.codec
  | .reqCloseClient => Codec.unit
  | .reqListDir => RequestListDir.codec
  | .reqDummyBlock => Codec.unit
  | .reqGetClassList => Codec.unit
  | .reqShowObject => RequestShow.codec
  | .reqShowClass => RequestShow.codec

/-- The message of the reply to each request. -/
def replyCodec : (id : MsgId) → Codec (ReplyType id)
  | .reqDlopen => ReplyDlopen.codec
  | .reqDlclose => ReplyDlclose.codec
  | .reqDlsym => ReplyDlsym.codec
  | .reqPeek => ReplyPeek.codec
  | .reqPoke => Codec.unit
  | .reqExec => ReplyExec.codec
  | .reqCall => ReplyCall.codec
  | .reqCloseClient => Codec.unit
  | .reqListDir => ReplyListDir.codec
  | .reqDummyBlock => ReplyDummyBlock.codec
  | .reqGetClassList => ReplyGetClassList.codec
  | .reqShowObject => ReplyShow.codec
  | .reqShowClass => ReplyShow.codec

/-! ## The registers of a call -/

/-- An integer field takes at most twenty bytes, the number of the field and its value ten
each. -/
theorem packedWithin_uint64 {strict : Bool} {n : ℕ} {hn : 0 < n ∧ n < 2 ^ 29} :
    (uint64 strict n hn).PackedWithin 20 := by
  have hcontent : ∀ a, ((Union.member n (.uint64 strict) hn).write a).value.content.length ≤ 0 :=
    fun _ => Nat.le_refl 0
  exact Union.packedWithin_implicit hcontent _ _

/-- A register takes at most twenty-eight bytes. -/
theorem packedWithin_register {n : ℕ} {hn : 0 < n ∧ n < 2 ^ 29} :
    (register n hn).PackedWithin 28 := by
  have hcontent : ∀ a, ((Union.member n (.double false) hn).write a).value.content.length ≤ 8 :=
    fun a => Nat.le_of_eq (toLE_length 8 a.toNat)
  exact Union.packedWithin_implicit hcontent _ _

/-- The registers of a reply take less than one half of a kilobyte. -/
theorem packedWithin_returnRegistersArm : ReturnRegistersArm.codec.PackedWithin 384 := by
  have hx := fun n hn => @packedWithin_uint64 false n hn
  have hd := fun n hn => @packedWithin_register n hn
  apply Codec.PackedWithin.rename
  exact (hx 1 _).prod <| (hx 2 _).prod <| (hx 3 _).prod <| (hx 4 _).prod <| (hx 5 _).prod <|
    (hx 6 _).prod <| (hx 7 _).prod <| (hx 8 _).prod <| (hd 9 _).prod <| (hd 10 _).prod <|
    (hd 11 _).prod <| (hd 12 _).prod <| (hd 13 _).prod <| (hd 14 _).prod <| (hd 15 _).prod (hd 16 _)

end RpcProject.Protocol.Api
