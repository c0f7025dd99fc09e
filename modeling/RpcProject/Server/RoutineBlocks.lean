/-
# The blocks that routines allocate

A routine allocates its reply, and what the reply points to. If it succeeds, a function of
the table `rpc_routines` frees what the reply points to, except for the registers of a
call; the routine that lists classes forgets the array that it read them from. Checks that
fail leave the reply, and what was under way.

At a few places a routine frees what it must not, or accesses what it must not: when a
stream cannot be closed, when there is no memory for some replies or no text to show, and
when classes are registered while they are listed.

What `dlopen` and the functions that clients call allocate is theirs, and not counted.
-/

import Mathlib.Tactic.Abel
import RpcProject.Foundations.Blocks
import RpcProject.Server.HandleClient
import RpcProject.Server.Spawn

namespace RpcProject.Server.Leaks

open Foundations Foundations.Effect Protocol
open Protocol.Api (RequestType requestCodec)

/-! ## Blocks -/

/-- What the blocks of the server are for. -/
inductive Block
  | buffer
  | request
  | payload
  | reply
  | data
  | registers
  | stream
  | dirEntries
  | dirEntry
  | stat
  | lstat
  | dName
  | argv
  | envp
  | spawnAttr
  | spawnActions
  | classes
  | objcClass
  | className
  | classList
  | description
  deriving DecidableEq, Repr

/-- Parts of the server, which work on its heap. -/
abbrev Part := Effect (Blocks Block) Undefined

/-- What differs between the builds of the server. -/
structure Build where
  platform : Platform
  /-- `__ARM_ARCH_ISA_A64` -/
  arm : Bool
  /-- `SAFE_READ_WRITES`, on Darwin -/
  safeReadWrites : Bool
  deriving DecidableEq, Repr

/-- What the calls of one request return. -/
structure Calls where
  /-- whether there is memory for the record of its reply -/
  reply : Bool
  vmRead : Bool
  vmWrite : Bool
  spawn : SpawnHost
  /-- how many entries the first pass reads, if the directory opens -/
  first : Option ℕ
  firstClosed : Bool
  /-- for the entries of the second pass, whether their paths fit -/
  second : Option (List Bool)
  secondClosed : Bool
  /-- the two results of `objc_getClassList`, none where it fails -/
  classCount : Option ℕ
  classCountAgain : Option ℕ
  /-- whether there is a text to show -/
  utf8String : Bool

/-! ## Replies -/

/-- An entry of a listing. -/
structure EntryPointers where
  entry : Pointer
  dName : Pointer
  stat : Pointer
  lstat : Pointer
  deriving DecidableEq, Repr

/-- What a reply points to. -/
inductive ReplyFields
  | none
  | peek (data : Pointer)
  | call (armRegisters : Pointer)
  | listDir (dirEntries : Pointer) (entries : List EntryPointers)
  | getClassList (classes : Pointer) (list : List (Pointer × Pointer))
  | described (description : Pointer)
  deriving DecidableEq, Repr

/-- The record of a reply, and what its fields point to. -/
structure Reply where
  reply : Pointer
  fields : ReplyFields
  deriving DecidableEq, Repr

/-- The status of a routine, with the reply that comes with success. -/
inductive Outcome
  | success (reply : Reply)
  | protocolError
  | serverError
  deriving DecidableEq, Repr

/-- `cleanup_listdir`, behind its checks -/
def cleanupListdir (dirEntries : Pointer) (entries : List EntryPointers) : Part Unit :=
  if dirEntries = .null then pure ()
  else do
    forEach (fun e => do
      Blocks.free e.dName
      Blocks.free e.stat
      Blocks.free e.lstat
      Blocks.free e.entry) entries
    Blocks.free dirEntries

/-- `cleanup_get_class_list`, behind its checks -/
def cleanupGetClassList (classes : Pointer) (list : List (Pointer × Pointer)) : Part Unit :=
  if classes = .null then pure ()
  else do
    forEach (fun c => do
      Blocks.free c.2
      Blocks.free c.1) list
    Blocks.free classes

/-- The functions `cleanup` of the table `rpc_routines`. -/
def cleanup : ReplyFields → Part Unit
  | .peek data => Blocks.free data
  | .listDir dirEntries entries => cleanupListdir dirEntries entries
  | .getClassList classes list => cleanupGetClassList classes list
  | .described description => Blocks.free description
  -- the other entries have none
  | .none => pure ()
  | .call _ => pure ()

/-! ## Routines -/

section Routines

variable (build : Build) (grants : ℕ → Bool) (calls : Calls)

/-- The record of a reply, with which every routine begins. -/
def newReply : Part Pointer := Blocks.malloc (fun _ => calls.reply) .reply

/-- A routine that only fills a reply. -/
def fillReply : Part Outcome := do
  let reply ← newReply calls
  if reply = .null then return .serverError
  else return .success ⟨reply, .none⟩

/-- `routine_dlopen` -/
def routineDlopen : Part Outcome := fillReply calls

/-- `routine_dlclose` -/
def routineDlclose : Part Outcome := fillReply calls

/-- `routine_dlsym` -/
def routineDlsym : Part Outcome := fillReply calls

/-- `routine_close_client` -/
def routineCloseClient : Part Outcome := fillReply calls

/-- `routine_get_dummy_block` -/
def routineGetDummyBlock : Part Outcome := fillReply calls

/-- `routine_peek` -/
def routinePeek : Part Outcome := do
  let reply ← newReply calls
  if reply = .null then return .serverError
  else if build.safeReadWrites = true then
    if calls.vmRead = false then return .protocolError
    else
      -- `vm_read` makes the buffer
      let buffer ← Blocks.take .data
      return .success ⟨reply, .peek buffer⟩
  else
    let buffer ← Blocks.malloc grants .data
    if buffer = .null then
      Blocks.free reply
      return .serverError
    else return .success ⟨reply, .peek buffer⟩

/-- `routine_poke` -/
def routinePoke : Part Outcome := do
  let reply ← newReply calls
  if reply = .null then return .serverError
  else if build.safeReadWrites = true ∧ calls.vmWrite = false then return .protocolError
  else return .success ⟨reply, .none⟩

/-- `routine_call` -/
def routineCall : Part Outcome := do
  let reply ← newReply calls
  if reply = .null then return .serverError
  else if build.arm = true then
    let regs ← Blocks.malloc grants .registers
    if regs = .null then
      Blocks.free reply
      return .serverError
    else return .success ⟨reply, .call regs⟩
  else return .success ⟨reply, .none⟩

/-- A round of the second pass: the entry, unless a check fails. -/
def addEntry (fits : Bool) : Part (Option EntryPointers) :=
  if fits = false then return none
  else do
    let dEntry ← Blocks.malloc grants .dirEntry
    let sStat ← Blocks.malloc grants .stat
    let lStat ← Blocks.malloc grants .lstat
    -- what has been allocated is in no list yet
    if dEntry = .null ∨ sStat = .null ∨ lStat = .null then return none
    else
      let dName ← Blocks.malloc grants .dName
      if dName = .null then return none
      else return some ⟨dEntry, dName, sStat, lStat⟩

/-- The loop of the second pass, with the entries so far, and whether all checks pass. -/
def addEntries : ℕ → List Bool → List EntryPointers → Part (Bool × List EntryPointers)
  | 0, _, entries => return (true, entries)
  | _ + 1, [], entries => return (true, entries)
  | entryCount + 1, fits :: rest, entries => do
      match ← addEntry grants fits with
      | none => return (false, entries)
      | some e => addEntries entryCount rest (entries ++ [e])

/-- The label of `routine_listdir`. -/
def listdirError (dirp dirEntries : Pointer) (entries : List EntryPointers) : Part Outcome := do
  Blocks.free dirp
  cleanupListdir dirEntries entries
  return .serverError

/-- The second pass. -/
def populate (reply : Pointer) (entryCount : ℕ) : Part Outcome := do
  let dirEntries ← Blocks.malloc grants .dirEntries
  if dirEntries = .null then listdirError .null .null []
  else
    match calls.second with
    | none => listdirError .null dirEntries []
    | some fit => do
        let dirp ← Blocks.take .stream
        let added ← addEntries grants entryCount fit []
        if added.1 = false then listdirError dirp dirEntries added.2
        else
          -- `closedir` frees the stream also when it fails
          Blocks.free dirp
          if calls.secondClosed = false then listdirError dirp dirEntries added.2
          else return .success ⟨reply, .listDir dirEntries added.2⟩

/-- `routine_listdir` -/
def routineListdir (path : Bytes) : Part Outcome := do
  let reply ← newReply calls
  if reply = .null then return .serverError
  else if path = [] then listdirError .null .null []
  else
    match calls.first with
    | none => return .protocolError
    | some entryCount => do
        let dirp ← Blocks.take .stream
        Blocks.free dirp
        if calls.firstClosed = false then listdirError dirp .null []
        else if entryCount = 0 then return .success ⟨reply, .listDir .null []⟩
        else populate grants calls reply entryCount

/-- `internal_spawn`: whether there is a child. What it set up for the spawn is only
destroyed if there is. -/
def internalSpawn (background : Bool) : Part Bool :=
  if calls.spawn.succeeds .attrInit = false then return false
  else do
    let attr ← Blocks.take .spawnAttr
    if calls.spawn.succeeds .attrSetflags = false ∨ calls.spawn.succeeds .actionsInit = false then
      return false
    else
      let actions ← Blocks.take .spawnActions
      if Spawns calls.spawn background then
        Blocks.free attr
        Blocks.free actions
        return true
      else return false

/-- `copy_arr_with_null`: whether it succeeds, and the copy. -/
def copyArrWithNull (b : Block) (src : List Bytes) : Part (Bool × Pointer) :=
  if src = [] then return (true, .null)
  else do
    let dest ← Blocks.malloc grants b
    if dest = .null then return (false, .null)
    else return (true, dest)

/-- `routine_exec` -/
def routineExec (request : Api.RequestExec) : Part Outcome := do
  let reply ← newReply calls
  if reply = .null then
    -- the label frees `argv`, `envp` and `thread_params`, which are not set yet
    forEach Blocks.free [.wild, .wild, .wild]
    return .protocolError
  else if request.argv = [] then return .protocolError
  else
    let argv ← copyArrWithNull grants .argv request.argv
    if argv.1 = false then return .protocolError
    else
      let envp ← copyArrWithNull grants .envp request.envp
      if envp.1 = false then
        Blocks.free argv.2
        return .protocolError
      else
        let spawned ← internalSpawn calls request.background
        Blocks.free argv.2
        Blocks.free envp.2
        if spawned = true then return .success ⟨reply, .none⟩
        else return .protocolError

/-- The loop of `routine_get_class_list`, over an array of `room` classes, with the classes
so far, and whether all checks pass. -/
def addClasses : ℕ → ℕ → List (Pointer × Pointer) → Part (Bool × List (Pointer × Pointer))
  | _, 0, list => return (true, list)
  | 0, _ + 1, _ => raise .beyond
  | room + 1, count + 1, list => do
      let cls ← Blocks.malloc grants .objcClass
      if cls = .null then return (false, list)
      else
        let name ← Blocks.malloc grants .className
        if name = .null then return (false, list)
        else addClasses room count (list ++ [(cls, name)])

/-- The label of `routine_get_class_list`. -/
def getClassListError (classes : Pointer) (list : List (Pointer × Pointer)) (classList : Pointer) :
    Part Outcome := do
  cleanupGetClassList classes list
  Blocks.free classList
  return .serverError

/-- `routine_get_class_list` -/
def routineGetClassList : Part Outcome := do
  let reply ← newReply calls
  if reply = .null then return .serverError
  else
    match calls.classCount with
    | none => getClassListError .null [] .null
    | some 0 => return .success ⟨reply, .getClassList .null []⟩
    | some (count + 1) => do
        let classes ← Blocks.malloc grants .classes
        if classes = .null then getClassListError .null [] .null
        else
          let classList ← Blocks.malloc grants .classList
          if classList = .null then getClassListError classes [] .null
          else
            match calls.classCountAgain with
            | none => getClassListError classes [] classList
            | some countAgain => do
                let added ← addClasses grants (count + 1) countAgain []
                if added.1 = false then getClassListError classes added.2 classList
                else return .success ⟨reply, .getClassList classes added.2⟩

/-- A routine that describes an object. -/
def describe : Part Outcome := do
  let reply ← newReply calls
  -- the label reads the description of the reply
  if reply = .null then raise .null
  else if calls.utf8String = false then
    -- which is a constant text up to here
    Blocks.free .wild
    Blocks.free reply
    return .serverError
  else
    let description ← Blocks.malloc grants .description
    if description = .null then
      Blocks.free reply
      return .serverError
    else return .success ⟨reply, .described description⟩

/-- `routine_show_class` -/
def routineShowClass : Part Outcome := describe grants calls

/-- `routine_show_object` -/
def routineShowObject : Part Outcome := describe grants calls

/-- The routines of the table `rpc_routines`. -/
def routine : (id : MsgId) → RequestType id → Part Outcome
  | .reqDlopen, _ => routineDlopen calls
  | .reqDlclose, _ => routineDlclose calls
  | .reqDlsym, _ => routineDlsym calls
  | .reqPeek, _ => routinePeek build grants calls
  | .reqPoke, _ => routinePoke build calls
  | .reqCall, _ => routineCall build grants calls
  | .reqListDir, request => routineListdir grants calls (Api.RequestListDir.path request)
  | .reqCloseClient, _ => routineCloseClient calls
  | .reqExec, request => routineExec grants calls request
  | .reqDummyBlock, _ => routineGetDummyBlock calls
  | .reqShowClass, _ => routineShowClass grants calls
  | .reqShowObject, _ => routineShowObject grants calls
  | .reqGetClassList, _ => routineGetClassList grants calls

end Routines

/-! ## What replies own -/

/-- The blocks of an entry. -/
def EntryPointers.owns (e : EntryPointers) : Multiset (ℕ × Block) :=
  e.dName.owns .dName + (e.stat.owns .stat + (e.lstat.owns .lstat + e.entry.owns .dirEntry))

/-- Each of its pointers can be freed. -/
def EntryPointers.Valid (e : EntryPointers) : Prop :=
  e.dName.Valid ∧ e.stat.Valid ∧ e.lstat.Valid ∧ e.entry.Valid

/-- An entry of a list of classes: the record and the name. -/
def classOwns (c : Pointer × Pointer) : Multiset (ℕ × Block) :=
  c.2.owns .className + c.1.owns .objcClass

/-- The blocks of a listing. -/
def listDirOwns (dirEntries : Pointer) (entries : List EntryPointers) : Multiset (ℕ × Block) :=
  (entries.map EntryPointers.owns).sum + dirEntries.owns .dirEntries

/-- The blocks of a class list. -/
def classListOwns (classes : Pointer) (list : List (Pointer × Pointer)) : Multiset (ℕ × Block) :=
  (list.map classOwns).sum + classes.owns .classes

/-- The blocks of a reply that its clean-up frees. -/
def ReplyFields.freed : ReplyFields → Multiset (ℕ × Block)
  | .peek data => data.owns .data
  | .listDir dirEntries entries => listDirOwns dirEntries entries
  | .getClassList classes list => classListOwns classes list
  | .described description => description.owns .description
  | .none => 0
  | .call _ => 0

/-- The blocks of a reply that nobody frees. -/
def ReplyFields.kept : ReplyFields → Multiset (ℕ × Block)
  | .call armRegisters => armRegisters.owns .registers
  | _ => 0

/-- A listing is empty or its pointers can be freed. -/
def ListDirValid (dirEntries : Pointer) (entries : List EntryPointers) : Prop :=
  dirEntries = .null ∧ entries = [] ∨ dirEntries.Valid ∧ ∀ e ∈ entries, e.Valid

/-- So is a class list. -/
def ClassListValid (classes : Pointer) (list : List (Pointer × Pointer)) : Prop :=
  classes = .null ∧ list = [] ∨ classes.Valid ∧ ∀ c ∈ list, c.1.Valid ∧ c.2.Valid

/-- All pointers of a reply can be freed. -/
def ReplyFields.Valid : ReplyFields → Prop
  | .none => True
  | .peek data => data.Valid
  | .call armRegisters => armRegisters.Valid
  | .listDir dirEntries entries => ListDirValid dirEntries entries
  | .getClassList classes list => ClassListValid classes list
  | .described description => description.Valid

variable {build : Build} {grants : ℕ → Bool} {calls : Calls} {id : MsgId} {p dirp : Pointer}
  {dirEntries classes : Pointer} {entries : List EntryPointers} {list : List (Pointer × Pointer)}
  {fields : ReplyFields} {E : Undefined → Prop}

/-- What a routine that succeeds leaves beside its reply. -/
def beside (calls : Calls) : MsgId → Multiset Block
  | .reqGetClassList => if calls.classCount = some 0 then 0 else {.classList}
  | _ => 0

/-- What is left of the replies to each request when they are cleaned up. -/
def keptKinds (build : Build) : MsgId → Multiset Block
  | .reqCall => if build.arm = true then {.registers} else 0
  | _ => 0

/-- What the replies to each request may have to be cleaned up. -/
def Pointed : MsgId → Multiset Block → Prop
  | .reqPeek, pointed => pointed = {.data}
  | .reqListDir, pointed =>
      pointed = 0 ∨ ∃ n : ℕ, pointed = n • {.dName, .stat, .lstat, .dirEntry} + {.dirEntries}
  | .reqGetClassList, pointed =>
      pointed = 0 ∨ ∃ n : ℕ, pointed = n • {.className, .objcClass} + {.classes}
  | .reqShowClass, pointed => pointed = {.description}
  | .reqShowObject, pointed => pointed = {.description}
  | _, pointed => pointed = 0

/-- The most that a routine that fails leaves. -/
def strays : MsgId → Multiset Block
  | .reqPeek => {.reply}
  | .reqPoke => {.reply}
  | .reqExec => {.reply, .spawnAttr, .spawnActions}
  | .reqListDir => {.reply, .dirEntry, .stat, .lstat}
  | .reqGetClassList => {.reply, .objcClass}
  | _ => 0

end RpcProject.Server.Leaks
