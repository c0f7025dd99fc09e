/-
# Spawning a child

`internal_spawn` opens a pseudoterminal for a foreground child, and hands its other side
to the child. Every call is checked, and a check that fails goes to one label, which
closes what is open by then. `routine_exec` copies the texts of its request, spawns the
child and, if the child is in the foreground, records the master for `handle_client`.

A spawn closes all descriptors that it opened but the master of a child that runs. The
routine replies exactly if there is a child; that nobody waits for a background child,
because the thread could not be created, is not reported.
-/

import RpcProject.Foundations.Descriptors
import RpcProject.Foundations.Effects
import RpcProject.Protocol.Api

namespace RpcProject.Server

open Foundations Foundations.Effect Protocol

/-! ## The host -/

/-- The three standard streams. -/
inductive StandardStream
  | stdin
  | stdout
  | stderr
  deriving DecidableEq, Repr

/-- The calls of a spawn. -/
inductive SpawnCall
  | attrInit
  | attrSetflags
  | actionsInit
  | openpt
  | grantpt
  | unlockpt
  | ptsname
  | openSlave
  | addDup2 (stream : StandardStream)
  | addCloseSlave
  | addCloseMaster
  | addOpenNull (stream : StandardStream)
  | spawnp
  deriving DecidableEq, Repr

/-- `INVALID_PID` -/
def invalidPid : UInt32 := 0xffffffff

/-- Which calls succeed, and the process that `posix_spawnp` makes. -/
structure SpawnHost where
  succeeds : SpawnCall → Bool
  pid : UInt32

/-! ## `internal_spawn` -/

/-- The descriptors of the process and the locals. No descriptor stands for −1. -/
structure SpawnState where
  table : Descriptors
  slaveFd : Option ℕ := none
  masterFd : Option ℕ := none
  pid : UInt32 := invalidPid
  deriving DecidableEq

section InternalSpawn

variable (host : SpawnHost)

/-- `CHECK` of a call that opens nothing -/
def checkCall (call : SpawnCall) : Effect SpawnState Unit Unit :=
  raiseIf (host.succeeds call = false) ()

/-- `CHECK` of a call that opens a descriptor, which `record` keeps -/
def checkOpen (call : SpawnCall) (record : ℕ → SpawnState → SpawnState) :
    Effect SpawnState Unit Unit := do
  checkCall host call
  modify fun s => { record s.table.lowest s with table := s.table.new }

/-- The calls for a child with a terminal. -/
def foreground : Effect SpawnState Unit Unit := do
  checkOpen host .openpt fun fd s => { s with masterFd := some fd }
  forEach (checkCall host) [.grantpt, .unlockpt, .ptsname]
  checkOpen host .openSlave fun fd s => { s with slaveFd := some fd }
  forEach (checkCall host)
    [.addDup2 .stdin, .addDup2 .stdout, .addDup2 .stderr, .addCloseSlave, .addCloseMaster]

/-- The calls up to the label. -/
def spawnCalls (background : Bool) : Effect SpawnState Unit Unit := do
  forEach (checkCall host) [.attrInit, .attrSetflags, .actionsInit]
  if background = true then
    forEach (checkCall host) [.addOpenNull .stdin, .addOpenNull .stdout, .addOpenNull .stderr]
  else foreground host
  checkCall host .spawnp
  modify fun s => { s with pid := host.pid }
  raiseIf (host.pid = invalidPid) ()

/-- `if (fd != -1) close(fd);` -/
def closeIf (fd : Option ℕ) (t : Descriptors) : Descriptors :=
  match fd with
  | none => t
  | some fd => t.close fd

/-- What the label does behind a call that failed or, last, behind the spawn. -/
def SpawnState.error (spawned : Bool) (s : SpawnState) : SpawnState :=
  let s := { s with table := closeIf s.slaveFd s.table }
  if spawned = true then s
  else { s with table := closeIf s.masterFd s.table, pid := invalidPid }

/-- `internal_spawn` -/
def internalSpawn (background : Bool) (t : Descriptors) : Bool × SpawnState :=
  match spawnCalls host background { table := t } with
  | (.ok (), s) => (true, s.error true)
  | (.error (), s) => (false, s.error false)

/-- The calls of a spawn that all have to succeed. -/
def callsOf (background : Bool) : List SpawnCall :=
  [.attrInit, .attrSetflags, .actionsInit] ++
    (if background = true then [.addOpenNull .stdin, .addOpenNull .stdout, .addOpenNull .stderr]
    else [.openpt, .grantpt, .unlockpt, .ptsname, .openSlave, .addDup2 .stdin, .addDup2 .stdout,
      .addDup2 .stderr, .addCloseSlave, .addCloseMaster]) ++ [.spawnp]

/-- Whether there is a child in the end. -/
def Spawns (background : Bool) : Prop :=
  (∀ call ∈ callsOf background, host.succeeds call = true) ∧ host.pid ≠ invalidPid

instance (background : Bool) : Decidable (Spawns host background) :=
  inferInstanceAs (Decidable (_ ∧ _))

end InternalSpawn

variable {host : SpawnHost} {s : SpawnState} {t : Descriptors}

/-- The locals behind the calls that open the two sides of the terminal. -/
def SpawnState.opened (t : Descriptors) : SpawnState where
  table := t.new.new
  slaveFd := some t.new.lowest
  masterFd := some t.lowest

/-- The label `error` closes what was opened. -/
theorem error_opened (t : Descriptors) : ((SpawnState.opened t).error false).table = t := by
  simp [SpawnState.opened, SpawnState.error, closeIf]

/-- Either all calls of a list succeed, or a check fails and leaves the state. -/
theorem meets_checkCalls {calls : List SpawnCall} {Q E : Unit → SpawnState → Prop}
    (hfails : (∃ call ∈ calls, host.succeeds call = false) → E () s)
    (hpasses : (∀ call ∈ calls, host.succeeds call = true) → Q () s) :
    Meets (forEach (checkCall host) calls) s Q E :=
  meets_forEach_raiseIf (fun call hcall hfail => hfails ⟨call, hcall, hfail⟩)
    fun hall => hpasses fun call hcall => Bool.not_eq_false _ ▸ hall call hcall

theorem meets_checkOpen {call : SpawnCall} {record : ℕ → SpawnState → SpawnState}
    {Q E : Unit → SpawnState → Prop} (hfails : host.succeeds call = false → E () s)
    (hpasses : host.succeeds call = true →
      Q () { record s.table.lowest s with table := s.table.new }) :
    Meets (checkOpen host call record) s Q E :=
  .bind (meets_raiseIf hfails fun hcall => meets_modify (hpasses (Bool.not_eq_false _ ▸ hcall)))

/-- A call that fails says that there is no child. -/
theorem not_spawns {background : Bool} {calls : List SpawnCall} (hsub : calls ⊆ callsOf background)
    (h : ∃ call ∈ calls, host.succeeds call = false) : ¬ Spawns host background := by
  obtain ⟨call, hcall, hfail⟩ := h
  intro hspawns
  rw [hspawns.1 call (hsub hcall)] at hfail
  cases hfail

theorem meets_foreground (t : Descriptors) :
    Meets (foreground host) { table := t }
      (fun _ s => s = .opened t ∧ host.succeeds .openpt = true ∧
        (∀ call ∈ [SpawnCall.grantpt, .unlockpt, .ptsname], host.succeeds call = true) ∧
        host.succeeds .openSlave = true ∧
        ∀ call ∈ [SpawnCall.addDup2 .stdin, .addDup2 .stdout, .addDup2 .stderr, .addCloseSlave,
          .addCloseMaster], host.succeeds call = true)
      (fun _ s => (s.error false).table = t ∧ ¬ Spawns host false) := by
  refine .bind (meets_checkOpen (fun h => ⟨rfl, ?_⟩) fun hopenpt => ?_)
  · exact not_spawns (by decide) ⟨_, List.mem_singleton_self _, h⟩
  refine .bind (meets_checkCalls (fun h => ⟨Descriptors.close_new t, ?_⟩) fun hmaster => ?_)
  · exact not_spawns (by decide) h
  refine .bind (meets_checkOpen (fun h => ⟨Descriptors.close_new t, ?_⟩) fun hslave => ?_)
  · exact not_spawns (by decide) ⟨_, List.mem_singleton_self _, h⟩
  refine meets_checkCalls (fun h => ⟨error_opened t, not_spawns (by decide) h⟩) fun hactions => ?_
  exact ⟨rfl, hopenpt, hmaster, hslave, hactions⟩

/-- The locals behind all calls. -/
def SpawnState.running (host : SpawnHost) (background : Bool) (t : Descriptors) : SpawnState :=
  { if background = true then ({ table := t } : SpawnState) else .opened t with pid := host.pid }

/-- The last call makes the child, unless it reports a process that cannot be. -/
theorem meets_spawnp {background : Bool} {E : Unit → SpawnState → Prop}
    (hcalls : host.succeeds .spawnp = true → host.pid ≠ invalidPid → Spawns host background)
    (hfails : ∀ pid, ¬ Spawns host background → E () { s with pid := pid }) :
    Meets (do
        checkCall host .spawnp
        Effect.modify fun s => { s with pid := host.pid }
        raiseIf (host.pid = invalidPid) ()) s
      (fun _ u => u = { s with pid := host.pid } ∧ Spawns host background) E := by
  refine .bind (meets_raiseIf (fun h => hfails s.pid fun hspawns => ?_) fun hspawnp => ?_)
  · rw [hspawns.1 .spawnp (by simp [callsOf])] at h
    cases h
  refine .bind (meets_modify
    (meets_raiseIf (fun h => hfails host.pid fun hspawns => hspawns.2 h) ?_))
  exact fun hpid => ⟨rfl, hcalls (Bool.not_eq_false _ ▸ hspawnp) hpid⟩

/-- The calls before the label either all succeed, or leave nothing that the label does
not close. -/
theorem meets_spawnCalls (background : Bool) (t : Descriptors) :
    Meets (spawnCalls host background) { table := t }
      (fun _ s => s = .running host background t ∧ Spawns host background)
      (fun _ s => (s.error false).table = t ∧ ¬ Spawns host background) := by
  refine .bind (meets_checkCalls (fun h => ⟨rfl, ?_⟩) fun hattr => ?_)
  · exact not_spawns (by cases background <;> decide) h
  cases background with
  | true =>
    refine .bind (meets_checkCalls (fun h => ⟨rfl, not_spawns (by decide) h⟩) fun hnull => ?_)
    refine meets_spawnp (fun hspawnp hpid => ⟨?_, hpid⟩) fun pid hnot => ⟨rfl, hnot⟩
    simp_all [callsOf]
  | false =>
    refine .bind ((meets_foreground t).mono ?_ fun _ _ h => h)
    rintro _ _ ⟨rfl, hopenpt, hmaster, hslave, hactions⟩
    refine meets_spawnp (fun hspawnp hpid => ⟨?_, hpid⟩) fun pid hnot => ⟨error_opened t, hnot⟩
    simp_all [callsOf]

/-- A spawn leaves the master of a foreground child open, and nothing else; one that fails
leaves the descriptors as they were. -/
theorem internalSpawn_cases (host : SpawnHost) (background : Bool) (t : Descriptors) :
    (Spawns host background ∧ ∃ s, internalSpawn host background t = (true, s) ∧ s.pid = host.pid ∧
      s.masterFd = (if background = true then none else some t.lowest) ∧
      s.table = if background = true then t else t.new) ∨
    (¬ Spawns host background ∧
      ∃ s, internalSpawn host background t = (false, s) ∧ s.pid = invalidPid ∧ s.table = t) := by
  rcases (meets_spawnCalls background t).cases with ⟨_, s, hrun, rfl, hspawns⟩ |
    ⟨_, s, hrun, htable, hnot⟩
  · refine Or.inl ⟨hspawns, _, by rw [internalSpawn, hrun], ?_⟩
    cases background <;> simp [SpawnState.running, SpawnState.opened, SpawnState.error, closeIf]
  · exact Or.inr ⟨hnot, _, by rw [internalSpawn, hrun], rfl, htable⟩

/-! ## `routine_exec` -/

/-- `pending_pty_t`: the terminal that `handle_client` has to enter. -/
structure PendingPty where
  pid : UInt32 := 0
  master : Option ℕ := none
  valid : Bool := false
  deriving DecidableEq

/-- The calls of a spawn, and whether the two arrays can be allocated. -/
structure ExecHost extends SpawnHost where
  argvAlloc : Bool
  envpAlloc : Bool

/-- The descriptors and the record of a pending terminal. -/
structure ExecState where
  table : Descriptors
  pending : PendingPty := {}
  deriving DecidableEq

/-- `routine_exec`: a reply, or `ROUTINE_PROTOCOL_ERROR`. -/
def routineExec (host : ExecHost) (request : Api.RequestExec) (s : ExecState) :
    Option Api.ReplyExec × ExecState :=
  if request.argv = [] then (none, s)
  else if host.argvAlloc = false then (none, s)
  else if request.envp ≠ [] ∧ host.envpAlloc = false then (none, s)
  else
    match internalSpawn host.toSpawnHost request.background s.table with
    | (false, spawn) => (none, { s with table := spawn.table })
    | (true, spawn) =>
        let reply : Api.ReplyExec := ⟨spawn.pid, 0⟩
        -- a thread that cannot be created ends the routine with the same reply
        if request.background = true then
          (some reply, { s with table := closeIf spawn.masterFd spawn.table })
        else
          (some reply,
            { table := spawn.table
              pending := ⟨spawn.pid, spawn.masterFd, true⟩ })

/-- Whether the request makes a child. -/
def Executes (host : ExecHost) (request : Api.RequestExec) : Prop :=
  request.argv ≠ [] ∧ host.argvAlloc = true ∧ (request.envp ≠ [] → host.envpAlloc = true) ∧
    Spawns host.toSpawnHost request.background

instance (host : ExecHost) (request : Api.RequestExec) : Decidable (Executes host request) :=
  inferInstanceAs (Decidable (_ ∧ _))

/-- The routine replies exactly if there is a child. Then the master of a foreground child
is open and recorded; in all other cases nothing has changed. -/
theorem routineExec_eq (host : ExecHost) (request : Api.RequestExec) (s : ExecState) :
    routineExec host request s =
      if Executes host request then
        (some ⟨host.pid, 0⟩,
          if request.background = true then s
          else ⟨s.table.new, ⟨host.pid, some s.table.lowest, true⟩⟩)
      else (none, s) := by
  unfold routineExec
  by_cases hargv : request.argv = []
  · simp [hargv, Executes]
  by_cases hargvAlloc : host.argvAlloc = false
  · simp [hargv, hargvAlloc, Executes]
  by_cases henvpAlloc : request.envp ≠ [] ∧ host.envpAlloc = false
  · simp [hargv, hargvAlloc, henvpAlloc, Executes]
  rcases internalSpawn_cases host.toSpawnHost request.background s.table with
    ⟨hspawns, spawn, hrun, hpid, hmaster, htable⟩ | ⟨hnot, spawn, hrun, -, htable⟩
  · have hexecutes : Executes host request := ⟨hargv, by simpa using hargvAlloc,
      fun henvp => by simpa [henvp] using henvpAlloc, hspawns⟩
    simp only [hrun, if_neg hargv, if_neg hargvAlloc, if_neg henvpAlloc, if_pos hexecutes, hpid,
      hmaster, htable]
    cases request.background <;> rfl
  · have hidle : ¬ Executes host request := fun h => hnot h.2.2.2
    simp only [hrun, if_neg hargv, if_neg hargvAlloc, if_neg henvpAlloc, if_neg hidle, htable]

end RpcProject.Server
