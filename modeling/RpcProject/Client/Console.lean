/-
# The console and its contexts

The console keeps a context for each client it has seen: the client and the variables
of its user. The variables of the current client are in the shell's namespace, with the
client as `p` and next to the names that were there before, the baseline. To switch,
the console saves the variables that are not in the baseline, takes them out of the
namespace, and puts those of the other context there. The client manager tells it which
clients are registered and unregistered, and when it is cleared.

What a client's user has set is recorded from the registration of the client on, so
that the law can be stated: under a client the namespace holds just that. It holds in
every run in which the user leaves `p` alone.
-/

import RpcProject.Foundations.DictWrites
import RpcProject.Foundations.Machine

namespace RpcProject.Client

open Foundations

/-! ## The machine -/

/-- What a variable of the console holds. -/
inductive Value
  | none
  | client (client : ℕ)
  | data (n : ℕ)
  deriving DecidableEq, Repr

/-- The variables by their names. -/
abbrev Namespace := String → Option Value

/-- The context of a client: the client, and its variables while another is current. -/
structure ConsoleContext where
  p : ℕ
  userNs : Namespace

/-- The console, with the registry of the manager and what was assigned to the variables of
each context. -/
structure Console where
  /-- the registry of the manager -/
  clients : Dict ℕ ℕ
  contexts : Dict ℕ ConsoleContext
  current : Option ℕ
  previous : Option ℕ
  userNs : Namespace
  baselineKeys : List String
  autoSwitchOnCreate : Bool
  /-- what has been set under the client of an id since it was registered -/
  set : ℕ → Namespace

/-- What happens to the console: the notices of the registry, and what is typed. -/
inductive ConsoleEvent
  | register (cid client : ℕ) (internal : Bool)
  | unregister (cid : ℕ)
  | clear
  | switch (cid : ℕ)
  | previousContext
  | toggleAutoSwitch
  | assign (name : String) (value : Value)
  deriving DecidableEq, Repr

namespace Console

/-- The names of the user's variables, which belong to a client. -/
def IsVariable (s : Console) (name : String) : Prop :=
  name ∉ s.baselineKeys ∧ name ≠ "p" ∧ name ≠ "symbols"

instance (s : Console) (name : String) : Decidable (s.IsVariable name) :=
  inferInstanceAs (Decidable (_ ∧ _ ∧ _))

/-- The variables that a context keeps. -/
def userVariables (s : Console) : Namespace :=
  fun name => if s.IsVariable name then s.userNs name else none

/-- The first part of `_switch`: the context of the current client gets its variables. -/
def saveCurrent (s : Console) : Console :=
  match s.current with
  | some cid =>
      match s.contexts.lookup cid with
      | some cur => { s with contexts := s.contexts.insert cid ⟨cur.p, s.userVariables⟩ }
      | none => s
  | none => s

/-- `_switch`, to a context that is registered. -/
def _switch (s : Console) (cid : ℕ) : Console :=
  let s := s.saveCurrent
  match s.contexts.lookup cid with
  | some ctx =>
      { s with
        -- what is not in the baseline is taken out, and what the context has is put in
        userNs := fun name =>
          if name = "p" then some (.client ctx.p)
          else (ctx.userNs name).or (if name ∈ s.baselineKeys then s.userNs name else none)
        previous := s.current
        current := some cid }
  | none => s

/-- A context without variables. -/
def registerContext (s : Console) (cid client : ℕ) : Console :=
  { s with contexts := s.contexts.insert cid ⟨client, fun _ => none⟩ }

/-- Without any contexts there is no switching. -/
def switch (s : Console) (cid : ℕ) : Console :=
  if s.contexts.keys = [] then s
  else if cid ∈ s.contexts then s._switch cid
  else
    match s.clients.lookup cid with
    | none => s
    | some client => (s.registerContext cid client)._switch cid

/-- `previous_context` -/
def previousContext (s : Console) : Console :=
  match s.previous with
  | some cid => if cid ∈ s.contexts then s.switch cid else s
  | none => s

/-- `_reset_current` -/
def _resetCurrent (s : Console) : Console :=
  { s with
    current := none
    userNs := fun name => if name = "p" then some .none else s.userNs name }

/-- A context that exists makes the registration of another one fail. -/
def _onRegistered (s : Console) (cid client : ℕ) (internal : Bool) : Console :=
  -- the listener raises for a context that exists, before it could switch
  if s.autoSwitchOnCreate ∧ cid ∉ s.contexts then
    if internal then s.registerContext cid client
    else (s.registerContext cid client)._switch cid
  else s

/-- `_on_unregistered` -/
def _onUnregistered (s : Console) (cid : ℕ) : Console :=
  if cid ∈ s.contexts then
    let s := { s with contexts := s.contexts.erase cid }
    -- the other variables stay in the namespace until the next switch
    if s.current = some cid then s._resetCurrent else s
  else s

/-- `_on_clear` -/
def _onClear (s : Console) : Console := { s with contexts := ∅ }._resetCurrent

/-- Contexts for all clients of a registry. -/
def initContexts (clients : Dict ℕ ℕ) : Dict ℕ ConsoleContext :=
  clients.entries.foldr (fun entry contexts => contexts.insert entry.1 ⟨entry.2, fun _ => none⟩) ∅

/-- `setup_shell`, with what is in the namespace of the shell. -/
def setupShell (clients : Dict ℕ ℕ) (names : Dict String Value) (autoSwitch : Bool)
    (switchCid : Option ℕ) : Console :=
  let s : Console := ⟨clients, initContexts clients, none, none, fun name => names.lookup name,
    names.keys, autoSwitch, fun _ _ => none⟩
  match switchCid with
  | some cid => s.switch cid
  | none => s

/-- The record of what is set: a client that goes takes its record along. -/
def forget (s : Console) (cid : ℕ) : Console :=
  { s with set := fun other => if other = cid then fun _ => none else s.set other }

/-- What the assignments of each context have come to. -/
def record (s : Console) (name : String) (value : Value) : Console :=
  { s with set := fun cid => if s.current = some cid ∧ s.IsVariable name then
      fun other => if other = name then some value else s.set cid other
    else s.set cid }

end Console

/-- What each event does. What happens to the registry is told to the console at once. -/
def consoleStep (s : Console) : ConsoleEvent → Option Console
  | .register cid client internal =>
      if cid ∈ s.clients then none
      else some ({ s with clients := s.clients.insert cid client }._onRegistered cid client
        internal)
  | .unregister cid =>
    some (({ s with clients := s.clients.erase cid }._onUnregistered cid).forget cid)
  | .clear => some { { s with clients := ∅ }._onClear with set := fun _ _ => none }
  | .switch cid => some (s.switch cid)
  | .previousContext => some s.previousContext
  | .toggleAutoSwitch => some { s with autoSwitchOnCreate := !s.autoSwitchOnCreate }
  | .assign name value =>
      some { s.record name value with
        userNs := fun other => if other = name then some value else s.userNs other }

/-- The console after `setup_shell`. -/
def console : Machine Console ConsoleEvent where
  start s := ∃ clients names autoSwitch switchCid,
    s = .setupShell clients names autoSwitch switchCid
  step := consoleStep

variable {s t : Console} {event : ConsoleEvent} {cid cid' client : ℕ} {ctx : ConsoleContext}
  {name : String} {value : Value} {internal : Bool}

/-! ## Isolation -/

/-- A current client has a context and is `p`, contexts belong to clients of the manager,
and the variables are those that have been set under the current client. -/
structure Isolated (s : Console) : Prop where
  current : ∀ cid, s.current = some cid →
    ∃ ctx, s.contexts.lookup cid = some ctx ∧ s.userNs "p" = some (.client ctx.p)
  held : ∀ cid ctx, s.contexts.lookup cid = some ctx → s.clients.lookup cid = some ctx.p
  visible : ∀ cid, s.current = some cid → ∀ name, s.IsVariable name → s.userNs name = s.set cid name

/-- The discipline: the user leaves `p` alone. -/
def LeavesP : ConsoleEvent → Prop
  | .assign name _ => name ≠ "p"
  | _ => True

instance : DecidablePred LeavesP
  | .assign _ _ => inferInstanceAs (Decidable (_ ≠ _))
  | .register _ _ _ | .unregister _ | .clear | .switch _ | .previousContext | .toggleAutoSwitch =>
      inferInstanceAs (Decidable True)

/-- The contexts hold what has been set under the other clients, and nothing has been
set under a client without a context. -/
structure Kept (s : Console) : Prop extends Isolated s where
  saved : ∀ cid ctx, s.contexts.lookup cid = some ctx → s.current ≠ some cid →
    ∀ name, s.IsVariable name → ctx.userNs name = s.set cid name
  unset : ∀ cid, cid ∉ s.contexts → ∀ name, s.set cid name = none

/-- The current context is one of the contexts. -/
theorem Kept.current_mem (h : Kept s) (hcurrent : s.current = some cid) : cid ∈ s.contexts := by
  obtain ⟨ctx, hctx, -⟩ := h.current cid hcurrent
  exact Dict.mem_of_lookup hctx

/-! ## Switching -/

/-- Saving the variables changes contexts only. -/
theorem saveCurrent_eq (s : Console) :
    s.saveCurrent = { s with contexts := s.saveCurrent.contexts } := by
  rw [Console.saveCurrent]
  split
  · split <;> rfl
  · rfl

theorem mem_saveCurrent : cid ∈ s.saveCurrent.contexts ↔ cid ∈ s.contexts := by
  rw [Console.saveCurrent]
  split
  · split
    · next cur _ _ hcur =>
      rw [AList.mem_insert]
      apply or_iff_right_of_imp
      intro heq
      -- saving replaces a context that is there
      exact heq ▸ Dict.mem_of_lookup hcur
    · rfl
  · rfl

/-- Once the current client's variables are saved, each context holds what has been set
under its client. -/
theorem Kept.saveCurrent (h : Kept s) (hctx : s.saveCurrent.contexts.lookup cid = some ctx) :
    s.clients.lookup cid = some ctx.p ∧
      ∀ name, s.IsVariable name → ctx.userNs name = s.set cid name := by
  rw [Console.saveCurrent] at hctx
  split at hctx
  · next cur hcurrent =>
    obtain ⟨old, hold, -⟩ := h.current cur hcurrent
    simp only [hold] at hctx
    by_cases hcid : cid = cur
    · -- the current client: its variables are the ones in the namespace
      subst hcid
      rw [AList.lookup_insert] at hctx
      obtain rfl := Option.some.inj hctx
      refine ⟨h.held cid old hold, fun name hname => ?_⟩
      rw [← h.visible cid hcurrent name hname]
      exact if_pos hname
    · -- any other client: its context has not been touched
      rw [AList.lookup_insert_ne hcid] at hctx
      have hother : s.current ≠ some cid := by
        rw [hcurrent]
        exact fun heq => hcid (Option.some.inj heq).symm
      exact ⟨h.held cid ctx hctx, h.saved cid ctx hctx hother⟩
  · next hcurrent =>
    exact ⟨h.held cid ctx hctx, h.saved cid ctx hctx (by simp [hcurrent])⟩

theorem Kept._switch (h : Kept s) (hcid : cid ∈ s.contexts) : Kept (s._switch cid) := by
  obtain ⟨ctx, hctx⟩ := Dict.exists_lookup (mem_saveCurrent.mpr hcid)
  have hswitch : s._switch cid = { s with
      contexts := s.saveCurrent.contexts
      userNs := fun name =>
        if name = "p" then some (.client ctx.p)
        else (ctx.userNs name).or (if name ∈ s.baselineKeys then s.userNs name else none)
      previous := s.current
      current := some cid } := by
    rw [Console._switch]
    simp only [hctx]
    rw [saveCurrent_eq]
  rw [hswitch]
  refine ⟨⟨fun cid' hcurrent => ?_, fun cid' ctx' hctx' => (h.saveCurrent hctx').1, ?_⟩, ?_, ?_⟩
  · cases hcurrent
    exact ⟨ctx, hctx, rfl⟩
  · -- a variable is neither `p` nor in the baseline
    intro cid' hcurrent name hname
    cases hcurrent
    change (if name = "p" then _ else _) = _
    rw [if_neg hname.2.1, if_neg hname.1, Option.or_none]
    exact (h.saveCurrent hctx).2 name hname
  · exact fun cid' ctx' hctx' _ => (h.saveCurrent hctx').2
  · exact fun cid' hnot => h.unset cid' fun hmem => hnot (mem_saveCurrent.mpr hmem)

theorem Kept.registerContext (h : Kept s) (hcid : cid ∉ s.contexts)
    (hclient : s.clients.lookup cid = some client) : Kept (s.registerContext cid client) := by
  refine ⟨⟨fun cid' hcurrent => ?_, fun cid' ctx hctx => ?_, h.visible⟩,
    fun cid' ctx hctx hother => ?_, fun cid' hnot => ?_⟩
  · obtain ⟨ctx, hctx, hp⟩ := h.current cid' hcurrent
    -- the current client has a context, so the new one is not its
    have hne : cid' ≠ cid := fun heq => hcid (heq ▸ h.current_mem hcurrent)
    exact ⟨ctx, (AList.lookup_insert_ne hne).trans hctx, hp⟩
  · by_cases heq : cid' = cid
    · subst heq
      rw [Console.registerContext, AList.lookup_insert] at hctx
      obtain rfl := Option.some.inj hctx
      exact hclient
    · rw [Console.registerContext, AList.lookup_insert_ne heq] at hctx
      exact h.held cid' ctx hctx
  · by_cases heq : cid' = cid
    · subst heq
      rw [Console.registerContext, AList.lookup_insert] at hctx
      obtain rfl := Option.some.inj hctx
      exact fun name _ => (h.unset cid' hcid name).symm
    · rw [Console.registerContext, AList.lookup_insert_ne heq] at hctx
      exact h.saved cid' ctx hctx hother
  · rw [Console.registerContext, AList.mem_insert, not_or] at hnot
    exact h.unset cid' hnot.2

theorem mem_registerContext : cid ∈ (s.registerContext cid client).contexts :=
  (AList.mem_insert _).mpr (.inl rfl)

theorem Kept.switch (h : Kept s) (cid : ℕ) : Kept (s.switch cid) := by
  rw [Console.switch]
  split
  · exact h
  · split
    · next hcid => exact h._switch hcid
    · next hcid =>
      split
      · exact h
      · next hclient => exact (h.registerContext hcid hclient)._switch mem_registerContext

theorem Kept.previousContext (h : Kept s) : Kept s.previousContext := by
  rw [Console.previousContext]
  split
  · split
    · exact h.switch _
    · exact h
  · exact h

/-! ## Clients that come and go -/

theorem Kept.register (h : Kept s) (hcid : cid ∉ s.clients) :
    Kept ({ s with clients := s.clients.insert cid client }._onRegistered cid client internal) := by
  have hclients : Kept { s with clients := s.clients.insert cid client } := by
    refine ⟨⟨h.current, fun cid' ctx hctx => ?_, h.visible⟩, h.saved, h.unset⟩
    have hheld := h.held cid' ctx hctx
    have hne : cid' ≠ cid := fun heq => hcid (heq ▸ Dict.mem_of_lookup hheld)
    exact (AList.lookup_insert_ne hne).trans hheld
  rw [Console._onRegistered]
  split
  · next hauto =>
    have hcontext := hclients.registerContext hauto.2 (AList.lookup_insert s.clients)
    split
    · exact hcontext
    · exact hcontext._switch mem_registerContext
  · exact hclients

/-- A client without a context leaves the manager. -/
theorem Kept.eraseClient (h : Kept s) (hcid : cid ∉ s.contexts) :
    Kept { s with clients := s.clients.erase cid } := by
  refine ⟨⟨h.current, fun cid' ctx hctx => ?_, h.visible⟩, h.saved, h.unset⟩
  have hne : cid' ≠ cid := fun heq => hcid (heq ▸ Dict.mem_of_lookup hctx)
  exact (AList.lookup_erase_ne hne).trans (h.held cid' ctx hctx)

/-- There is nothing to forget of an id without a context. -/
theorem Kept.forget_eq (h : Kept s) (hcid : cid ∉ s.contexts) : s.forget cid = s := by
  have hset : (s.forget cid).set = s.set := by
    funext cid'
    by_cases heq : cid' = cid
    · rw [heq]
      exact (if_pos rfl).trans (funext fun name => (h.unset cid hcid name).symm)
    · exact if_neg heq
  calc s.forget cid = { s with set := (s.forget cid).set } := rfl
    _ = s := by rw [hset]

theorem forget_set (hne : cid' ≠ cid) : (s.forget cid).set cid' = s.set cid' := if_neg hne

/-- What has been set under a client is forgotten with its context. -/
theorem Kept.unset_erase (h : Kept s) (hcid' : cid' ∉ s.contexts.erase cid) (name : String) :
    (s.forget cid).set cid' name = none := by
  by_cases heq : cid' = cid
  · exact congrFun (if_pos heq) name
  · rw [AList.mem_erase, not_and] at hcid'
    exact (congrFun (forget_set heq) name).trans (h.unset cid' (hcid' heq) name)

/-- A context that is not current is removed. -/
theorem Kept.eraseContext (h : Kept s) (hcurrent : s.current ≠ some cid) :
    Kept ({ s with contexts := s.contexts.erase cid }.forget cid) := by
  have hne : ∀ cid', s.current = some cid' → cid' ≠ cid := fun _ heq hcid' => hcurrent (hcid' ▸ heq)
  refine ⟨⟨fun cid' heq => ?_, fun cid' ctx hctx => ?_, fun cid' heq name hname => ?_⟩,
    fun cid' ctx hctx hother name hname => ?_, fun _ hnot => h.unset_erase hnot⟩
  · obtain ⟨ctx, hctx, hp⟩ := h.current cid' heq
    exact ⟨ctx, (AList.lookup_erase_ne (hne cid' heq)).trans hctx, hp⟩
  · exact h.held cid' ctx (Dict.lookup_of_erase hctx).2
  · exact (h.visible cid' heq name hname).trans (congrFun (forget_set (hne cid' heq)) name).symm
  · obtain ⟨hcid', hctx⟩ := Dict.lookup_of_erase hctx
    exact (h.saved cid' ctx hctx hother name hname).trans (congrFun (forget_set hcid') name).symm

/-- No client is current any more, so the others have their variables saved. -/
theorem Kept.eraseCurrent (h : Kept s) (hcurrent : s.current = some cid) :
    Kept ({ s with contexts := s.contexts.erase cid }._resetCurrent.forget cid) := by
  refine ⟨⟨fun _ hnone => (by cases hnone), fun cid' ctx hctx => ?_, fun _ hnone =>
    (by cases hnone)⟩, fun cid' ctx hctx _ name hname => ?_, fun _ hnot => h.unset_erase hnot⟩
  · exact h.held cid' ctx (Dict.lookup_of_erase hctx).2
  · obtain ⟨hcid', hctx⟩ := Dict.lookup_of_erase hctx
    have hother : s.current ≠ some cid' := by
      rw [hcurrent]
      exact fun heq => hcid' (Option.some.inj heq).symm
    exact (h.saved cid' ctx hctx hother name hname).trans (congrFun (forget_set hcid') name).symm

/-- A client leaves, and its context with it. -/
theorem Kept.unregister (h : Kept s) (cid : ℕ) :
    Kept (({ s with clients := s.clients.erase cid }._onUnregistered cid).forget cid) := by
  have herased : cid ∉ s.contexts.erase cid := fun hmem => (AList.mem_erase.mp hmem).1 rfl
  rw [Console._onUnregistered]
  by_cases hcid : cid ∈ s.contexts
  · rw [if_pos hcid]
    by_cases hcurrent : s.current = some cid
    · dsimp only
      rw [if_pos hcurrent]
      exact (h.eraseCurrent hcurrent).eraseClient herased
    · dsimp only
      rw [if_neg hcurrent]
      exact (h.eraseContext hcurrent).eraseClient herased
  · rw [if_neg hcid]
    have hkept := h.eraseClient hcid
    rw [hkept.forget_eq hcid]
    exact hkept

theorem kept_clear (s : Console) :
    Kept { { s with clients := ∅ }._onClear with set := fun _ _ => none } where
  current _ hnone := by cases hnone
  held cid ctx hctx := by
    change (∅ : Dict ℕ ConsoleContext).lookup cid = some ctx at hctx
    rw [AList.lookup_empty] at hctx
    cases hctx
  visible _ hnone := by cases hnone
  saved cid ctx hctx := by
    change (∅ : Dict ℕ ConsoleContext).lookup cid = some ctx at hctx
    rw [AList.lookup_empty] at hctx
    cases hctx
  unset _ _ _ := rfl

/-! ## Runs -/

/-- An assignment to a variable is recorded under the current client. -/
theorem Kept.assign (h : Kept s) (hname : name ≠ "p") (value : Value) :
    Kept { s.record name value with
      userNs := fun other => if other = name then some value else s.userNs other } := by
  have hset : ∀ cid, s.current ≠ some cid → (s.record name value).set cid = s.set cid :=
    fun cid hother => if_neg fun hand => hother hand.1
  refine ⟨⟨fun cid hcurrent => ?_, h.held, fun cid hcurrent other hother => ?_⟩,
    fun cid ctx hctx hother => ?_, fun cid hcid => ?_⟩
  · obtain ⟨ctx, hctx, hp⟩ := h.current cid hcurrent
    exact ⟨ctx, hctx, (if_neg hname.symm).trans hp⟩
  · have hcurrent : s.current = some cid := hcurrent
    change (if other = name then some value else s.userNs other) =
      (if s.current = some cid ∧ s.IsVariable name then _ else _ : Namespace) other
    by_cases hsame : other = name
    · -- the variable that is set, under the client that is current
      subst hsame
      rw [if_pos rfl, if_pos ⟨hcurrent, hother⟩, if_pos rfl]
    · -- any other variable is neither set nor recorded
      rw [if_neg hsame, h.visible cid hcurrent other hother]
      split
      · exact (if_neg hsame).symm
      · rfl
  · exact (hset cid hother).symm ▸ h.saved cid ctx hctx hother
  · exact (hset cid fun hcurrent => hcid (h.current_mem hcurrent)).symm ▸ h.unset cid hcid

/-- Every event that leaves `p` alone keeps the invariant. -/
theorem Kept.step (h : Kept s) (hleaves : LeavesP event) (hstep : consoleStep s event = some t) :
    Kept t := by
  cases event with
  | register cid client internal =>
    rw [consoleStep] at hstep
    split at hstep
    · cases hstep
    · next hcid =>
      obtain rfl := Option.some.inj hstep
      exact h.register hcid
  | unregister cid =>
    obtain rfl := Option.some.inj hstep
    exact h.unregister cid
  | clear =>
    obtain rfl := Option.some.inj hstep
    exact kept_clear s
  | switch cid =>
    obtain rfl := Option.some.inj hstep
    exact h.switch cid
  | previousContext =>
    obtain rfl := Option.some.inj hstep
    exact h.previousContext
  | toggleAutoSwitch =>
    obtain rfl := Option.some.inj hstep
    exact ⟨⟨h.current, h.held, h.visible⟩, h.saved, h.unset⟩
  | assign name value =>
    obtain rfl := Option.some.inj hstep
    exact h.assign hleaves value

/-- At the start each client has a context without variables. -/
theorem lookup_initContexts (clients : Dict ℕ ℕ) (cid : ℕ) :
    (Console.initContexts clients).lookup cid =
      (clients.lookup cid).map fun client => ⟨client, fun _ => none⟩ := by
  have hentries : ∀ entries : List (Sigma fun _ : ℕ => ℕ),
      (entries.foldr (fun entry contexts => contexts.insert entry.1 ⟨entry.2, fun _ => none⟩)
        (∅ : Dict ℕ ConsoleContext)).lookup cid =
      (entries.dlookup cid).map fun client => (⟨client, fun _ => none⟩ : ConsoleContext) := by
    intro entries
    induction entries with
    | nil => rfl
    | cons entry entries ih =>
      obtain ⟨key, client⟩ := entry
      rw [List.foldr_cons]
      by_cases heq : cid = key
      · rw [heq, AList.lookup_insert, List.dlookup_cons_eq]
        rfl
      · -- the entry of another client
        rw [AList.lookup_insert_ne heq, List.dlookup_cons_ne _ _ heq, ih]
  exact hentries clients.entries

/-- The invariant holds after `setup_shell`. -/
theorem kept_setupShell (clients : Dict ℕ ℕ) (names : Dict String Value) (autoSwitch : Bool)
    (switchCid : Option ℕ) : Kept (.setupShell clients names autoSwitch switchCid) := by
  have hinit : Kept ⟨clients, Console.initContexts clients, none, none, fun name =>
      names.lookup name,
      names.keys, autoSwitch, fun _ _ => none⟩ := by
    have hcontext : ∀ cid ctx, (Console.initContexts clients).lookup cid = some ctx →
        clients.lookup cid = some ctx.p ∧ ∀ name, ctx.userNs name = none := by
      intro cid ctx hctx
      rw [lookup_initContexts] at hctx
      obtain ⟨client, hclient, rfl⟩ := Option.map_eq_some_iff.mp hctx
      exact ⟨hclient, fun _ => rfl⟩
    exact ⟨⟨fun _ hnone => (by cases hnone), fun cid ctx hctx => (hcontext cid ctx hctx).1,
      fun _ hnone => (by cases hnone)⟩, fun cid ctx hctx _ name _ => (hcontext cid ctx hctx).2 name,
      fun _ _ _ => rfl⟩
  cases switchCid with
  | none => exact hinit
  | some cid => exact hinit.switch cid

/-- **Namespace isolation.** In every run after `setup_shell` in which the user leaves `p`
alone, a current client has a context and is `p`, contexts belong to clients of the
manager, and the variables in the namespace are those set under the current client. -/
theorem isolated_of_leavesP (h : console.Reaches (fun _ => LeavesP) s) : Isolated s := by
  have hstart : ∀ s, console.start s → Kept s := by
    rintro s ⟨clients, names, autoSwitch, switchCid, rfl⟩
    exact kept_setupShell clients names autoSwitch switchCid
  have hkept : Kept s := h.invariant hstart fun _ _ _ hs hleaves hstep => hs.step hleaves hstep
  exact hkept.toIsolated

/-- The console with one client, which is current, and a baseline of two names. -/
def oneClient : Console :=
  .setupShell (AList.singleton 5 0)
      ((AList.singleton "mgr" (.data 1)).insert "console" (.data 0)) true
    (some 5)

/-- A variable is set under one client, another client is registered and removed, and
the first one finds its variable. -/
theorem isolated_of_leavesP_two :
    ∃ s, console.run oneClient [.assign "x" (.data 7), .register 6 1 false, .assign "x" (.data 8),
        .unregister 6, .switch 5] = some s ∧
      s.userNs "x" = some (.data 7) ∧ Isolated s := by
  obtain ⟨s, hs, hx⟩ : ∃ s, console.run oneClient [.assign "x" (.data 7), .register 6 1 false,
      .assign "x" (.data 8), .unregister 6, .switch 5] = some s ∧ s.userNs "x" = some (.data 7) :=
    ⟨_, rfl, by decide⟩
  have hstart : console.Reaches (fun _ => LeavesP) oneClient := .start ⟨_, _, _, _, rfl⟩
  have hpasses : console.passes (fun _ event => decide (LeavesP event)) oneClient
      [.assign "x" (.data 7), .register 6 1 false, .assign "x" (.data 8), .unregister 6,
        .switch 5] = true := by decide
  exact ⟨s, hs, hx, isolated_of_leavesP
    (hstart.of_passes (fun _ _ => of_decide_eq_true) hpasses hs)⟩

/-- The user sets `p` under the current client. And what is set under a client is gone when
the client is registered again under its id. -/
theorem not_isolated_p_assigned :
    (∃ s, console.run oneClient [.assign "p" (.data 7)] = some s ∧ s.current = some 5 ∧
      ¬Isolated s) ∧
    ∃ s t, console.run oneClient [.assign "x" (.data 7)] = some s ∧
      console.run s [.unregister 5, .register 5 0 false] = some t ∧
      s.current = some 5 ∧ s.userNs "p" = some (.client 0) ∧ s.userNs "x" = some (.data 7) ∧
      t.current = some 5 ∧ t.userNs "p" = some (.client 0) ∧ t.userNs "x" = none := by
  refine ⟨⟨_, rfl, by decide, fun h => ?_⟩, _, _, rfl, rfl, ?_⟩
  · obtain ⟨ctx, -, hp⟩ := h.current 5 (by decide)
    exact absurd (Option.some.inj hp) (Value.noConfusion ·)
  · decide

end RpcProject.Client
