/-
# The hooks of calls

`rpc_call` takes all hooks that have been appended, runs them one after the other
and then sends its request. It takes them in reverse order and runs them from the
end. When a hook raises, the hooks left are put back in front of those appended
meanwhile, in the order in which they were held.

A request and its reply are exchanged under the lock of the connection, so the
request of one task waits while another exchange goes on. The hooks of a call run
outside of the lock, but the calls that a hook makes take it for each exchange.

A hook may make calls itself, so the calls of a task form a stack, and only the
hook of the innermost call goes on. A step of the machine is what one task does up
to its next wait.

Two laws are asked for. A request is sent only when the hooks appended before its
call have ended, which holds as long as no call starts while another one still has
hooks. And hooks run in the order in which they were appended, which holds as long
as a hook that raises leaves at most one hook, and hooks are taken only when no
other call has any left.
-/

import Mathlib.Data.List.Range
import Mathlib.Logic.Function.Basic
import RpcProject.Foundations.Machine

namespace RpcProject.Client

open Foundations

/-! ## The machine -/

/-- A call of `rpc_call`. Hooks are numbered as they are appended. -/
structure HookCall where
  /-- the hooks that are left, the next one at the end -/
  hooks : List ℕ
  running : Option ℕ
  sent : Bool
  /-- how many hooks had been appended when the call started -/
  appendedBefore : ℕ
  deriving DecidableEq, Repr

/-- The hooks and the calls of all tasks. -/
structure HookState where
  /-- `pre_rpc_call_hooks` -/
  queue : List ℕ
  appended : ℕ
  /-- the calls of each task, the innermost first -/
  calls : ℕ → List HookCall
  /-- the hooks that have been run, in this order -/
  ran : List ℕ
  /-- those that have completed or raised -/
  ended : List ℕ
  /-- the task that holds `_protocol_lock`, from its request to the reply -/
  lock : Option ℕ

/-- What the tasks do. -/
inductive HookEvent
  | append
  /-- a task starts a call, on its own or in a hook -/
  | start (task : ℕ)
  | runHook (task : ℕ)
  | completed (task : ℕ)
  | raised (task : ℕ)
  | send (task : ℕ)
  /-- the call on the bridge ends, with a reply or not -/
  | finished (task : ℕ)
  deriving DecidableEq, Repr

namespace HookState

/-- No hooks and no calls. -/
def init : HookState := ⟨[], 0, fun _ => [], [], [], none⟩

/-- The calls of one task are replaced. -/
def setCalls (s : HookState) (task : ℕ) (calls : List HookCall) : HookState :=
  { s with calls := Function.update s.calls task calls }

end HookState

/-- What each event does. -/
def hookStep (s : HookState) : HookEvent → Option HookState
  | .append => some { s with queue := s.queue ++ [s.appended], appended := s.appended + 1 }
  | .start task =>
      if s.calls task = [] ∨ ∃ c ∈ (s.calls task).head?, c.running.isSome then
        -- the queue is taken as a whole and emptied, before the first hook runs
        some { s.setCalls task (⟨s.queue.reverse, none, false, s.appended⟩ :: s.calls task) with
          queue := [] }
      else none
  | .runHook task =>
      match s.calls task with
      | [] => none
      | c :: outer =>
          if c.running = none ∧ c.sent = false then
            -- `pop()` takes from the end, where `reverse` has put the first hook
            c.hooks.getLast?.map fun hook =>
              { s.setCalls task
                  ({ c with hooks := c.hooks.dropLast, running := some hook } :: outer) with
                ran := s.ran ++ [hook] }
          else none
  | .completed task =>
      match s.calls task with
      | [] => none
      | c :: outer => c.running.map fun hook =>
          { s.setCalls task ({ c with running := none } :: outer) with ended := s.ended ++ [hook] }
  | .raised task =>
      match s.calls task with
      | [] => none
      | c :: outer => c.running.map fun hook =>
          -- `pre_rpc_call_hooks[:0] = hooks`: the hooks left are not turned round again
          { s.setCalls task outer with queue := c.hooks ++ s.queue, ended := s.ended ++ [hook] }
  | .send task =>
      match s.calls task with
      | [] => none
      | c :: outer =>
          -- whichever of the waiting tasks gets the lock when it is free
          if c.hooks = [] ∧ c.running = none ∧ c.sent = false ∧ s.lock = none then
            some { s.setCalls task ({ c with sent := true } :: outer) with lock := some task }
          else none
  | .finished task =>
      match s.calls task with
      | [] => none
      | c :: outer =>
          -- also before the request is sent, when getting the lock or sending fails
          if c.hooks = [] ∧ c.running = none then
            some { s.setCalls task outer with lock := if c.sent then none else s.lock }
          else none

/-- The runs of the calls of a bridge. -/
def rpcCalls : Machine HookState HookEvent where
  start s := s = .init
  step := hookStep

variable {s t : HookState} {event : HookEvent} {task : ℕ} {c : HookCall} {outer : List HookCall}
  {hook : ℕ}

/-! ## What a step does -/

@[simp] theorem HookState.setCalls_self (s : HookState) (task : ℕ) (calls : List HookCall) :
    (s.setCalls task calls).calls task = calls := Function.update_self _ _ _

@[simp] theorem HookState.setCalls_queue (calls : List HookCall) :
    (s.setCalls task calls).queue = s.queue := rfl

@[simp] theorem HookState.setCalls_appended (calls : List HookCall) :
    (s.setCalls task calls).appended = s.appended := rfl

@[simp] theorem HookState.setCalls_ran (calls : List HookCall) :
    (s.setCalls task calls).ran = s.ran := rfl

theorem HookState.setCalls_of_ne {other : ℕ} (hne : other ≠ task) (calls : List HookCall) :
    (s.setCalls task calls).calls other = s.calls other := Function.update_of_ne hne _ _

theorem start_cases (hstep : hookStep s (.start task) = some t) :
    (s.calls task = [] ∨ ∃ c outer, s.calls task = c :: outer ∧ c.running.isSome) ∧
      t = { s.setCalls task (⟨s.queue.reverse, none, false, s.appended⟩ :: s.calls task) with
        queue := [] } := by
  rw [hookStep] at hstep
  split at hstep
  · next hcall =>
    refine ⟨hcall.imp_right ?_, (Option.some.inj hstep).symm⟩
    rintro ⟨c, hc, hrunning⟩
    cases hcalls : s.calls task with
    | nil => simp [hcalls] at hc
    | cons first outer =>
      obtain rfl : first = c := by simpa [hcalls] using hc
      exact ⟨first, outer, rfl, hrunning⟩
  · cases hstep

theorem runHook_cases (hstep : hookStep s (.runHook task) = some t) :
    ∃ c outer hooks hook, s.calls task = c :: outer ∧ c.running = none ∧ c.sent = false ∧
      c.hooks = hooks ++ [hook] ∧
      t = { s.setCalls task ({ c with hooks := hooks, running := some hook } :: outer) with
        ran := s.ran ++ [hook] } := by
  rw [hookStep] at hstep
  split at hstep
  · cases hstep
  · next c outer hcalls =>
    split at hstep
    · next hidle =>
      obtain ⟨hook, hlast, rfl⟩ := Option.map_eq_some_iff.mp hstep
      obtain ⟨hooks, hhooks⟩ := List.getLast?_eq_some_iff.mp hlast
      refine ⟨c, outer, hooks, hook, hcalls, hidle.1, hidle.2, hhooks, ?_⟩
      rw [hhooks, List.dropLast_concat]
    · cases hstep

theorem completed_cases (hstep : hookStep s (.completed task) = some t) :
    ∃ c outer hook, s.calls task = c :: outer ∧ c.running = some hook ∧
      t = { s.setCalls task ({ c with running := none } :: outer) with
        ended := s.ended ++ [hook] } := by
  rw [hookStep] at hstep
  split at hstep
  · cases hstep
  · next c outer hcalls =>
    obtain ⟨hook, hrunning, rfl⟩ := Option.map_eq_some_iff.mp hstep
    exact ⟨c, outer, hook, hcalls, hrunning, rfl⟩

theorem raised_cases (hstep : hookStep s (.raised task) = some t) :
    ∃ c outer hook, s.calls task = c :: outer ∧ c.running = some hook ∧
      t = { s.setCalls task outer with
        queue := c.hooks ++ s.queue, ended := s.ended ++ [hook] } := by
  rw [hookStep] at hstep
  split at hstep
  · cases hstep
  · next c outer hcalls =>
    obtain ⟨hook, hrunning, rfl⟩ := Option.map_eq_some_iff.mp hstep
    exact ⟨c, outer, hook, hcalls, hrunning, rfl⟩

/-- A call without hooks sends when the lock is free. -/
theorem send_cases (hstep : hookStep s (.send task) = some t) :
    ∃ c outer, s.calls task = c :: outer ∧ c.hooks = [] ∧ c.running = none ∧ s.lock = none ∧
      t = { s.setCalls task ({ c with sent := true } :: outer) with lock := some task } := by
  rw [hookStep] at hstep
  split at hstep
  · cases hstep
  · next c outer hcalls =>
    split at hstep
    · next hidle =>
      obtain ⟨hhooks, hrunning, -, hlock⟩ := hidle
      exact ⟨c, outer, hcalls, hhooks, hrunning, hlock, (Option.some.inj hstep).symm⟩
    · cases hstep

theorem finished_cases (hstep : hookStep s (.finished task) = some t) :
    ∃ c outer lock, s.calls task = c :: outer ∧ c.hooks = [] ∧ c.running = none ∧
      t = { s.setCalls task outer with lock := lock } := by
  rw [hookStep] at hstep
  split at hstep
  · cases hstep
  · next c outer hcalls =>
    split at hstep
    · next hidle => exact ⟨c, outer, _, hcalls, hidle.1, hidle.2, (Option.some.inj hstep).symm⟩
    · cases hstep

/-! ## Requests wait for the hooks before them -/

/-- The hook is left to the call, or running in it. -/
def HookCall.Waits (c : HookCall) (hook : ℕ) : Prop :=
  hook ∈ c.hooks ∨ c.running = some hook

/-- The call has nothing to do but to send its request. -/
def HookCall.Idle (c : HookCall) : Prop := c.hooks = [] ∧ c.running = none

/-- No hook waits in a call that has run its own. -/
theorem HookCall.Idle.not_waits (h : c.Idle) : ¬c.Waits hook := by
  rintro (hleft | hrunning)
  · rw [h.1] at hleft
    cases hleft
  · rw [h.2] at hrunning
    cases hrunning

/-- The request of a call that is not made in a hook has been sent after the hooks
appended before that call. -/
def SentAfterHooks (s : HookState) : Prop :=
  ∀ task c, s.calls task = [c] → c.sent = true → ∀ hook < c.appendedBefore, hook ∈ s.ended

/-- The discipline: a call outside of hooks starts while no call has hooks to run. -/
def StartsAlone (s : HookState) : HookEvent → Prop
  | .start task => s.calls task = [] → ∀ other, ∀ c ∈ s.calls other, c.Idle
  | _ => True

/-- Where the hooks are. The call that matters to `SentAfterHooks` is the last one of
a task, below those made in its hooks. -/
structure HooksKept (s : HookState) : Prop where
  held : ∀ hook < s.appended, hook ∈ s.ended ∨ hook ∈ s.queue ∨
    ∃ task, ∃ c ∈ s.calls task, c.Waits hook
  before : ∀ task c, (s.calls task).getLast? = some c → ∀ hook < c.appendedBefore,
    hook ∈ s.ended ∨ c.Waits hook
  idle : ∀ task, ∀ c ∈ s.calls task, c.sent = true → c.Idle

/-- The invariant says what is sent after which hooks. -/
theorem HooksKept.sentAfterHooks (h : HooksKept s) : SentAfterHooks s := by
  intro task c hcalls hsent hook hbefore
  have hidle : c.Idle := h.idle task c (by simp [hcalls]) hsent
  exact (h.before task c (by simp [hcalls]) hook hbefore).resolve_right hidle.not_waits

theorem hooksKept_init : HooksKept .init where
  held hook hlt := absurd hlt (Nat.not_lt_zero hook)
  before task c hlast := by simp [HookState.init] at hlast
  idle task c hc := by simp [HookState.init] at hc

theorem HooksKept.append (h : HooksKept s) :
    HooksKept { s with queue := s.queue ++ [s.appended], appended := s.appended + 1 } where
  held hook hlt := by
    rcases Nat.lt_succ_iff_lt_or_eq.mp hlt with hold | rfl
    · rcases h.held hook hold with hended | hqueue | hcall
      · exact .inl hended
      · exact .inr (.inl (List.mem_append_left _ hqueue))
      · exact .inr (.inr hcall)
    · exact .inr (.inl (by simp))
  before := h.before
  idle := h.idle

/-- What a task does to its innermost call, or by ending it, keeps the hooks when those
that waited in the call end, go back to the queue or wait in what replaces it. -/
theorem HooksKept.replace (h : HooksKept s) (hcalls : s.calls task = c :: outer)
    (top : List HookCall) {queue ran ended : List ℕ} {lock : Option ℕ}
    (hended : ∀ hook ∈ s.ended, hook ∈ ended)
    (hqueue : ∀ hook ∈ s.queue, hook ∈ queue)
    (hwaits : ∀ hook, c.Waits hook → hook ∈ ended ∨ hook ∈ queue ∨ ∃ d ∈ top, d.Waits hook)
    (hbefore : ∀ d ∈ top, d.appendedBefore = c.appendedBefore ∧
      ∀ hook, c.Waits hook → hook ∈ ended ∨ d.Waits hook)
    (hidle : ∀ d ∈ top, d.sent = true → d.Idle) :
    HooksKept { s.setCalls task (top ++ outer) with
      queue := queue, ran := ran, ended := ended, lock := lock } where
  held hook hlt := by
    -- where the hook was before: it has ended, is queued, or waits in a call of some task
    rcases h.held hook hlt with hdone | hqueued | ⟨other, d, hd, hwait⟩
    · exact .inl (hended hook hdone)
    · exact .inr (.inl (hqueue hook hqueued))
    by_cases hsame : other = task
    · subst hsame
      rcases List.mem_cons.mp (hcalls ▸ hd) with rfl | hout
      · rcases hwaits hook hwait with hdone | hqueued | ⟨e, he, hwait⟩
        · exact .inl hdone
        · exact .inr (.inl hqueued)
        · exact .inr (.inr ⟨other, e, by simp [he], hwait⟩)
      · exact .inr (.inr ⟨other, d, by simp [hout], hwait⟩)
    · exact .inr (.inr ⟨other, d, by simpa [HookState.setCalls_of_ne hsame] using hd, hwait⟩)
  before other d hlast hook hlt := by
    by_cases hsame : other = task
    · subst hsame
      have hlast : (top ++ outer).getLast? = some d := by simpa using hlast
      cases outer with
      | nil =>
        -- the call that is replaced is the one the law speaks of
        rw [List.append_nil] at hlast
        have hd := List.mem_of_getLast? hlast
        rcases h.before other c (by simp [hcalls]) hook ((hbefore d hd).1 ▸ hlt) with hdone | hwait
        · exact .inl (hended hook hdone)
        · exact (hbefore d hd).2 hook hwait
      | cons e rest =>
        have hcall : (s.calls other).getLast? = some d := by
          rw [hcalls, List.getLast?_cons_cons]
          simpa [List.getLast?_append] using hlast
        exact (h.before other d hcall hook hlt).imp_left (hended hook)
    · have hcall : (s.calls other).getLast? = some d := by
        simpa [HookState.setCalls_of_ne hsame] using hlast
      exact (h.before other d hcall hook hlt).imp_left (hended hook)
  idle other d hd := by
    by_cases hsame : other = task
    · subst hsame
      have hd : d ∈ top ∨ d ∈ outer := by simpa using hd
      rcases hd with htop | hout
      · exact hidle d htop
      · exact h.idle other d (by simp [hcalls, hout])
    · exact h.idle other d (by simpa [HookState.setCalls_of_ne hsame] using hd)

/-- A call that goes on keeps it, if its hooks go on with it. -/
theorem HooksKept.goesOn (h : HooksKept s) (hcalls : s.calls task = c :: outer) {d : HookCall}
    {ran ended : List ℕ} {lock : Option ℕ} (hended : ∀ hook ∈ s.ended, hook ∈ ended)
    (hbefore : d.appendedBefore = c.appendedBefore)
    (hwaits : ∀ hook, c.Waits hook → hook ∈ ended ∨ d.Waits hook)
    (hidle : d.sent = true → d.Idle) :
    HooksKept { s.setCalls task (d :: outer) with ran := ran, ended := ended, lock := lock } := by
  refine h.replace hcalls [d] hended (fun _ => id) ?_ ?_ ?_
  · exact fun hook hwait => (hwaits hook hwait).imp_right fun hd => .inr ⟨d, by simp, hd⟩
  · intro e he
    obtain rfl := List.mem_singleton.mp he
    exact ⟨hbefore, hwaits⟩
  · intro e he
    obtain rfl := List.mem_singleton.mp he
    exact hidle

theorem HooksKept.ends (h : HooksKept s) (hcalls : s.calls task = c :: outer)
    {queue ended : List ℕ} {lock : Option ℕ} (hended : ∀ hook ∈ s.ended, hook ∈ ended)
    (hqueue : ∀ hook ∈ s.queue, hook ∈ queue)
    (hwaits : ∀ hook, c.Waits hook → hook ∈ ended ∨ hook ∈ queue) :
    HooksKept { s.setCalls task outer with queue := queue, ended := ended, lock := lock } :=
  h.replace hcalls [] hended hqueue (fun hook hwait => (hwaits hook hwait).imp_right .inl)
    (fun _ hd => absurd hd List.not_mem_nil) fun _ hd => absurd hd List.not_mem_nil

/-- A call takes all hooks of the queue. Outside of hooks these are the ones that have
not ended. -/
theorem HooksKept.start (h : HooksKept s)
    (halone : s.calls task = [] → ∀ other, ∀ c ∈ s.calls other, c.Idle) :
    HooksKept { s.setCalls task (⟨s.queue.reverse, none, false, s.appended⟩ :: s.calls task) with
      queue := [] } where
  held hook hlt := by
    rcases h.held hook hlt with hdone | hqueued | ⟨other, d, hd, hwait⟩
    · exact .inl hdone
    · refine .inr (.inr ⟨task, ⟨s.queue.reverse, none, false, s.appended⟩, by simp, ?_⟩)
      exact .inl (List.mem_reverse.mpr hqueued)
    by_cases hsame : other = task
    · subst hsame
      exact .inr (.inr ⟨other, d, by simp [hd], hwait⟩)
    · exact .inr (.inr ⟨other, d, by simpa [HookState.setCalls_of_ne hsame] using hd, hwait⟩)
  before other d hlast hook hlt := by
    by_cases hsame : other = task
    · subst hsame
      cases hcalls : s.calls other with
      | nil =>
        obtain rfl : (⟨s.queue.reverse, none, false, s.appended⟩ : HookCall) = d := by
          simpa [hcalls] using hlast
        -- nobody holds the hook, so it has ended or was queued and is now in the call
        rcases h.held hook hlt with hdone | hqueued | ⟨third, e, he, hwait⟩
        · exact .inl hdone
        · exact .inr (.inl (List.mem_reverse.mpr hqueued))
        · exact absurd hwait (halone hcalls third e he).not_waits
      | cons e rest =>
        have hcall : (s.calls other).getLast? = some d := by
          simpa [hcalls, List.getLast?_cons_cons] using hlast
        exact h.before other d hcall hook hlt
    · exact h.before other d (by simpa [HookState.setCalls_of_ne hsame] using hlast) hook hlt
  idle other d hd := by
    by_cases hsame : other = task
    · subst hsame
      have hd : d = ⟨s.queue.reverse, none, false, s.appended⟩ ∨ d ∈ s.calls other := by
        simpa using hd
      rcases hd with rfl | hold
      · exact fun hsent => Bool.noConfusion hsent
      · exact h.idle other d hold
    · exact h.idle other d (by simpa [HookState.setCalls_of_ne hsame] using hd)

theorem HooksKept.step (h : HooksKept s) (halone : StartsAlone s event)
    (hstep : hookStep s event = some t) : HooksKept t := by
  cases event with
  | append =>
    obtain rfl := Option.some.inj hstep
    exact h.append
  | start task =>
    obtain ⟨-, rfl⟩ := start_cases hstep
    exact h.start halone
  | runHook task =>
    obtain ⟨c, outer, hooks, hook, hcalls, hrunning, hsent, hhooks, rfl⟩ := runHook_cases hstep
    -- the hook that is popped goes on waiting, as the one that runs
    refine h.goesOn hcalls (fun _ => id) rfl ?_ fun hyes => absurd (hsent ▸ hyes) Bool.false_ne_true
    rintro other (hleft | hcurrent)
    · rw [hhooks, List.mem_append, List.mem_singleton] at hleft
      rcases hleft with hleft | rfl
      · exact .inr (.inl hleft)
      · exact .inr (.inr rfl)
    · rw [hrunning] at hcurrent
      cases hcurrent
  | completed task =>
    obtain ⟨c, outer, hook, hcalls, hrunning, rfl⟩ := completed_cases hstep
    refine h.goesOn hcalls (fun _ => List.mem_append_left _) rfl ?_ fun hsent => ?_
    · rintro other (hleft | hcurrent)
      · exact .inr (.inl hleft)
      · obtain rfl : hook = other := Option.some.inj (hrunning ▸ hcurrent)
        exact .inl (by simp)
    · have hidle : c.Idle := h.idle task c (by simp [hcalls]) hsent
      rw [hidle.2] at hrunning
      cases hrunning
  | raised task =>
    obtain ⟨c, outer, hook, hcalls, hrunning, rfl⟩ := raised_cases hstep
    -- the hook has ended by raising, those left go back to the queue
    apply h.ends hcalls (fun _ => List.mem_append_left _) (fun _ => List.mem_append_right _)
    rintro other (hleft | hcurrent)
    · exact .inr (List.mem_append_left _ hleft)
    · obtain rfl : hook = other := Option.some.inj (hrunning ▸ hcurrent)
      exact .inl (by simp)
  | send task =>
    obtain ⟨c, outer, hcalls, hhooks, hrunning, -, rfl⟩ := send_cases hstep
    have hidle : c.Idle := ⟨hhooks, hrunning⟩
    exact h.goesOn hcalls (fun _ => id) rfl (fun _ hwait => absurd hwait hidle.not_waits)
      fun _ => hidle
  | finished task =>
    obtain ⟨c, outer, lock, hcalls, hhooks, hrunning, rfl⟩ := finished_cases hstep
    have hidle : c.Idle := ⟨hhooks, hrunning⟩
    exact h.ends hcalls (fun _ => id) (fun _ => id) fun _ hwait => absurd hwait hidle.not_waits

/-- **Hooks before calls.** In every run in which calls outside of hooks start while no
call has hooks to run, each of them sends its request after all hooks appended before
it have completed or raised. -/
theorem sentAfterHooks_of_startsAlone (h : rpcCalls.Reaches StartsAlone s) :
    SentAfterHooks s := by
  have hkept : HooksKept s :=
    h.invariant (fun s hs => by cases hs; exact hooksKept_init)
      fun s event t hs halone hstep => hs.step halone hstep
  exact hkept.sentAfterHooks

/-- Whether a call is started. -/
def HookEvent.isStart : HookEvent → Bool
  | .start _ => true
  | _ => false

/-- Only a start can break the condition. -/
theorem startsAlone_of_not_start (h : (!event.isStart) = true) : StartsAlone s event := by
  cases event with
  | start => cases h
  | _ => trivial

/-- A hook is appended, and the call that runs it sends its request after it. -/
theorem sentAfterHooks_of_startsAlone_one :
    ∃ s, rpcCalls.run .init [.append, .start 0, .runHook 0, .completed 0, .send 0, .finished 0] =
        some s ∧ SentAfterHooks s := by
  obtain ⟨s, hs⟩ : ∃ s, rpcCalls.run .init
      [.append, .start 0, .runHook 0, .completed 0, .send 0, .finished 0] = some s := ⟨_, rfl⟩
  have happend : StartsAlone .init .append := trivial
  have hfirst : rpcCalls.Reaches StartsAlone { HookState.init with queue := [0], appended := 1 } :=
    .step (.start rfl) happend rfl
  have halone : StartsAlone { HookState.init with queue := [0], appended := 1 } (.start 0) :=
    fun _ other c hc => absurd hc List.not_mem_nil
  have hreaches := hfirst.of_step_passes (fun _ _ => startsAlone_of_not_start) halone rfl hs
  exact ⟨s, hs, sentAfterHooks_of_startsAlone hreaches⟩

/-- The hook of the first task loads a framework and makes two exchanges, as the first
one does not find it. Between them the second task, whose call has found no hooks, gets
the lock and sends its request. -/
theorem not_sentAfterHooks_two_tasks :
    ∃ s, rpcCalls.run .init [.append, .start 0, .runHook 0, .start 0, .send 0, .start 1,
        .finished 0, .start 0, .send 1] = some s ∧ ¬SentAfterHooks s :=
  ⟨_, rfl, fun h => absurd (h 1 ⟨[], none, true, 1⟩ rfl rfl 0 Nat.one_pos) List.not_mem_nil⟩

/-- During the first exchange of the hook the second task has to wait. -/
example : rpcCalls.run .init [.append, .start 0, .runHook 0, .start 0, .send 0, .start 1,
    .send 1] = none := rfl

/-! ## Hooks run in order -/

/-- The hooks that the calls of a task hold, in the order in which they are run. -/
def heldBy (calls : List HookCall) : List ℕ := calls.flatMap fun c => c.hooks.reverse

/-- Hooks run in the order in which they were appended, each once, and are queued in
this order. Unless some call holds hooks, those that have not run are all queued. -/
structure HooksInOrder (s : HookState) : Prop where
  ran : s.ran = List.range s.ran.length
  sorted : s.queue.Pairwise (· < ·)
  queued : (∀ task, heldBy (s.calls task) = []) → s.ran ++ s.queue = List.range s.appended

/-- The discipline: a hook that raises leaves at most one hook, and a call finds hooks
in the queue only when no other call has any left. -/
def KeepsOrder (s : HookState) : HookEvent → Prop
  | .start _ => s.queue = [] ∨ ∀ other, heldBy (s.calls other) = []
  | .raised task => ∀ c ∈ (s.calls task).head?, c.hooks.length ≤ 1
  | _ => True

/-- A test for the discipline, on the steps that take no hooks from the queue. -/
def fewLeft (s : HookState) : HookEvent → Bool
  | .start _ => s.queue.isEmpty
  | .raised task => (s.calls task).head?.all fun c => c.hooks.length ≤ 1
  | _ => true

/-- Fewer than two hooks have no order to lose. -/
theorem keepsOrder_of_fewLeft (h : fewLeft s event = true) : KeepsOrder s event := by
  cases event with
  | start task => exact .inl (List.isEmpty_iff.mp h)
  | raised task => exact fun c hc => by simpa [fewLeft, Option.mem_def.mp hc] using h
  | _ => trivial

/-- One task holds hooks, and only one of its calls does. -/
structure HeldInOrder (s : HookState) (holder : ℕ) : Prop where
  others : ∀ task ≠ holder, heldBy (s.calls task) = []
  inOrder : s.ran ++ heldBy (s.calls holder) ++ s.queue = List.range s.appended
  single : ∀ task, (s.calls task).Pairwise fun c d => c.hooks = [] ∨ d.hooks = []

@[simp] theorem heldBy_nil : heldBy [] = [] := rfl

@[simp] theorem heldBy_cons : heldBy (c :: outer) = c.hooks.reverse ++ heldBy outer := rfl

/-- Nothing is held by calls that have run their hooks. -/
theorem heldBy_eq_nil {calls : List HookCall} : heldBy calls = [] ↔ ∀ c ∈ calls, c.hooks = [] := by
  simp [heldBy, List.flatMap_eq_nil_iff]

variable {holder : ℕ}

theorem heldInOrder_init : HeldInOrder .init 0 where
  others _ _ := rfl
  inOrder := rfl
  single _ := List.Pairwise.nil

/-- Hooks whose order is kept run in the order in which they were appended. -/
theorem HeldInOrder.hooksInOrder (h : HeldInOrder s holder) : HooksInOrder s where
  ran := by
    -- what has run is a beginning of all hooks, and what is queued an end
    have hprefix : s.ran <+: List.range s.appended :=
      ⟨heldBy (s.calls holder) ++ s.queue, by rw [← List.append_assoc, h.inOrder]⟩
    rw [List.prefix_iff_eq_take.mp hprefix, List.take_range, List.length_range]
  sorted := by
    have hsuffix : s.queue <:+ List.range s.appended := ⟨_, h.inOrder⟩
    exact List.pairwise_lt_range.sublist hsuffix.sublist
  queued hnone := by
    have hall := h.inOrder
    rwa [hnone holder, List.append_nil] at hall

/-- A task without hooks can stand in for the holder when the holder has none either. -/
theorem HeldInOrder.of_empty (h : HeldInOrder s holder)
    (hnone : ∀ other, heldBy (s.calls other) = []) (task : ℕ) : HeldInOrder s task where
  others other _ := hnone other
  inOrder := by rw [hnone task, ← hnone holder, h.inOrder]
  single := h.single

/-- A hook that is appended is the last one. -/
theorem HeldInOrder.append (h : HeldInOrder s holder) :
    HeldInOrder { s with queue := s.queue ++ [s.appended], appended := s.appended + 1 } holder where
  others := h.others
  inOrder := by
    calc s.ran ++ heldBy (s.calls holder) ++ (s.queue ++ [s.appended])
        = s.ran ++ heldBy (s.calls holder) ++ s.queue ++ [s.appended] := by simp
      _ = List.range (s.appended + 1) := by rw [h.inOrder, List.range_succ]
  single := h.single

/-- A task changes its calls. Hooks are only moved, and those of a task that is not the
holder stay none. -/
theorem HeldInOrder.replace (h : HeldInOrder s holder) {calls : List HookCall}
    {queue ran ended : List ℕ} {lock : Option ℕ}
    (hother : task ≠ holder → heldBy calls = [] ∧ ran = s.ran ∧ queue = s.queue)
    (horder : task = holder →
      ran ++ heldBy calls ++ queue = s.ran ++ heldBy (s.calls task) ++ s.queue)
    (hsingle : calls.Pairwise fun c d => c.hooks = [] ∨ d.hooks = []) :
    HeldInOrder { s.setCalls task calls with
      queue := queue, ran := ran, ended := ended, lock := lock } holder where
  others other hne := by
    by_cases hsame : other = task
    · subst hsame
      simpa using (hother hne).1
    · simpa [HookState.setCalls_of_ne hsame] using h.others other hne
  inOrder := by
    by_cases hsame : holder = task
    · subst hsame
      simpa [HookState.setCalls] using (horder rfl).trans h.inOrder
    · obtain ⟨-, rfl, rfl⟩ := hother (Ne.symm hsame)
      simpa [HookState.setCalls_of_ne hsame] using h.inOrder
  single other := by
    by_cases hsame : other = task
    · subst hsame
      simpa using hsingle
    · simpa [HookState.setCalls_of_ne hsame] using h.single other

/-- The calls of a task change and hold the same hooks. -/
theorem HeldInOrder.keep (h : HeldInOrder s holder) {calls : List HookCall} {ended : List ℕ}
    {lock : Option ℕ}
    (hheld : heldBy calls = heldBy (s.calls task))
    (hsingle : calls.Pairwise fun c d => c.hooks = [] ∨ d.hooks = []) :
    HeldInOrder { s.setCalls task calls with ended := ended, lock := lock } holder :=
  h.replace (fun hne => ⟨hheld.trans (h.others task hne), rfl, rfl⟩)
    (fun _ => by simp [hheld]) hsingle

/-- Hooks that are left to some call are left to a call of the holder. -/
theorem HeldInOrder.eq_holder (h : HeldInOrder s holder) (hcalls : s.calls task = c :: outer)
    (hleft : c.hooks ≠ []) : task = holder := by
  by_contra hne
  have hnone := heldBy_eq_nil.mp (h.others task hne)
  exact hleft (hnone c (by simp [hcalls]))

/-- The order is kept by every event that meets the condition. -/
theorem HeldInOrder.step (h : HeldInOrder s holder) (hkeeps : KeepsOrder s event)
    (hstep : hookStep s event = some t) : ∃ holder, HeldInOrder t holder := by
  cases event with
  | append =>
    obtain rfl := Option.some.inj hstep
    exact ⟨holder, h.append⟩
  | start task =>
    obtain ⟨-, rfl⟩ := start_cases hstep
    rcases hkeeps with hempty | hnone
    · -- the new call gets no hooks
      refine ⟨holder, h.replace (fun hne => ?_) (fun _ => by simp [hempty]) ?_⟩
      · exact ⟨by simp [hempty, h.others task hne], rfl, hempty.symm⟩
      · exact List.pairwise_cons.mpr ⟨fun _ _ => .inl (by simp [hempty]), h.single task⟩
    · -- the new call is the only one with hooks
      refine ⟨task, (h.of_empty hnone task).replace (fun hne => absurd rfl hne) (fun _ => ?_) ?_⟩
      · simp [hnone task]
      · refine List.pairwise_cons.mpr ⟨fun d hd => .inr ?_, h.single task⟩
        exact heldBy_eq_nil.mp (hnone task) d hd
  | runHook task =>
    obtain ⟨c, outer, hooks, hook, hcalls, -, -, hhooks, rfl⟩ := runHook_cases hstep
    obtain rfl : task = holder := h.eq_holder hcalls (by simp [hhooks])
    -- only this call of the task holds hooks, so the popped one is the next of all
    have hsingle := hcalls ▸ h.single task
    refine ⟨task, h.replace (fun hne => absurd rfl hne) (fun _ => ?_) ?_⟩
    · simp [hcalls, hhooks]
    · rw [List.pairwise_cons] at hsingle ⊢
      exact ⟨fun d hd => .inr ((hsingle.1 d hd).resolve_left (by simp [hhooks])), hsingle.2⟩
  | completed task =>
    obtain ⟨c, outer, hook, hcalls, -, rfl⟩ := completed_cases hstep
    have hsingle := hcalls ▸ h.single task
    exact ⟨holder, h.keep (by simp [hcalls]) (by simpa using hsingle)⟩
  | raised task =>
    obtain ⟨c, outer, hook, hcalls, -, rfl⟩ := raised_cases hstep
    have hsingle := List.pairwise_cons.mp (hcalls ▸ h.single task)
    have hfew : c.hooks.length ≤ 1 := hkeeps c (by simp [hcalls])
    refine ⟨holder, ?_⟩
    rcases hhooks : c.hooks with _ | ⟨last, rest⟩
    · exact h.keep (by simp [hcalls, hhooks]) hsingle.2
    · -- one hook is left, and it was the only one that was held
      obtain rfl : rest = [] := by simpa [hhooks] using hfew
      obtain rfl : task = holder := h.eq_holder hcalls (by simp [hhooks])
      have houter : heldBy outer = [] :=
        heldBy_eq_nil.mpr fun d hd => (hsingle.1 d hd).resolve_left (by simp [hhooks])
      refine h.replace (fun hne => absurd rfl hne) (fun _ => ?_) hsingle.2
      simp [hcalls, hhooks, houter]
  | send task =>
    obtain ⟨c, outer, hcalls, -, -, -, rfl⟩ := send_cases hstep
    have hsingle := hcalls ▸ h.single task
    exact ⟨holder, h.keep (by simp [hcalls]) (by simpa using hsingle)⟩
  | finished task =>
    obtain ⟨c, outer, lock, hcalls, hhooks, -, rfl⟩ := finished_cases hstep
    have hsingle := List.pairwise_cons.mp (hcalls ▸ h.single task)
    exact ⟨holder, h.keep (by simp [hcalls, hhooks]) hsingle.2⟩

/-- **Hook order.** In every run in which a hook that raises leaves at most one hook, and
calls find hooks in the queue only when no other call has any left, the hooks run in
the order in which they were appended, and those that have not run stay in it. -/
theorem hooksInOrder_of_keepsOrder (h : rpcCalls.Reaches KeepsOrder s) : HooksInOrder s := by
  have hstart : ∀ s, rpcCalls.start s → ∃ holder, HeldInOrder s holder := by
    rintro s rfl
    exact ⟨0, heldInOrder_init⟩
  obtain ⟨holder, hheld⟩ := h.invariant hstart
    fun s event t ⟨_, hs⟩ hkeeps hstep => hs.step hkeeps hstep
  exact hheld.hooksInOrder

/-- The first of two hooks raises, and a third one is queued behind the second. -/
theorem hooksInOrder_of_keepsOrder_raised :
    ∃ s, rpcCalls.run .init [.append, .append, .start 0, .runHook 0, .raised 0, .append] = some s ∧
      HooksInOrder s := by
  obtain ⟨s, hs⟩ : ∃ s, rpcCalls.run .init
      [.append, .append, .start 0, .runHook 0, .raised 0, .append] = some s := ⟨_, rfl⟩
  have happend : ∀ s, KeepsOrder s .append := fun _ => trivial
  have hqueued : rpcCalls.Reaches KeepsOrder
      { HookState.init with queue := [0, 1], appended := 2 } :=
    .step (.step (.start rfl) (happend _) rfl) (happend _) rfl
  have hstart : KeepsOrder { HookState.init with queue := [0, 1], appended := 2 } (.start 0) :=
    .inr fun _ => rfl
  have hreaches := hqueued.of_step_passes (fun _ _ => keepsOrder_of_fewLeft) hstart rfl hs
  exact ⟨s, hs, hooksInOrder_of_keepsOrder hreaches⟩

/-- The first of three hooks raises. The two that are left are put back in the order
in which the call held them, and the next call runs the last one first. -/
theorem not_hooksInOrder_two_left :
    ∃ s, rpcCalls.run .init [.append, .append, .append, .start 0, .runHook 0, .raised 0, .start 0,
        .runHook 0] = some s ∧ s.ran = [0, 2] ∧ ¬HooksInOrder s :=
  ⟨_, rfl, rfl, fun h => absurd h.ran (by decide)⟩

end RpcProject.Client
