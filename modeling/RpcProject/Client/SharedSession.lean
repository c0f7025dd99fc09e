/-
# Clients that share a session

Clients may be built over one bridge and over clones of it. All of them use one socket,
under its lock, and so one session of the server; only the bridge that was connected
owns the socket. `CoreClient.close` sends a close to the server, whose reply or failure
does not matter, and then closes the bridge, which refuses unless it owns the socket.

The server leaves its loop after a request whose id reads as that of a close. The id is
read back from memory that has been given back, and may be any other.

Closing a client that does not own the socket ought to harm nobody. In fact it always
fails, and unless the id of a request is misread the session of the owner is over.
-/

import Mathlib.Data.List.Basic
import RpcProject.Foundations.Machine

namespace RpcProject.Client

open Foundations

/-! ## The machine -/

/-- The requests that matter: a close, and any other. -/
inductive SharedRequest
  | call
  | close
  deriving DecidableEq, Repr

/-- A request under the lock of the socket. -/
structure SharedExchange where
  client : ℕ
  request : SharedRequest
  replied : Bool
  deriving DecidableEq, Repr

/-- How `CoreClient.close` ends: it returns, or raises `ConnectionError` or the
`RuntimeError` of a bridge that does not own the socket. -/
inductive CloseResult
  | returned
  | connectionError
  | socketOwned
  deriving DecidableEq, Repr

/-- A close that has ended, and whether the bridge of the client owns the socket. -/
structure Closed where
  client : ℕ
  owns : Bool
  result : CloseResult
  deriving DecidableEq, Repr

/-- The socket that clones share, its server and what became of every request. -/
structure SharedState where
  /-- the clients built so far: whether their bridge owns the socket -/
  owns : List Bool
  /-- the server is in its loop -/
  serving : Bool
  socketOpen : Bool
  exchange : Option SharedExchange
  /-- all calls that have ended: the client, and whether it has got a reply -/
  calls : List (ℕ × Bool)
  closes : List Closed
  /-- some id that was read back has been another than the one received -/
  misread : Bool
  deriving DecidableEq, Repr

/-- What happens on the socket. -/
inductive SharedEvent
  | build (owns : Bool)
  /-- a client has the lock and sends a request -/
  | send (client : ℕ) (request : SharedRequest)
  /-- the server replies; the id of the request is read back, as that of a close or not -/
  | serve (readsClose : Bool)
  /-- the reply is received -/
  | receive
  /-- the connection is found lost -/
  | lost
  /-- the server finds the socket closed -/
  | hangup
  deriving DecidableEq, Repr

namespace SharedState

/-- The connection with the client that owns it. -/
def init : SharedState := ⟨[true], true, true, none, [], [], false⟩

/-- `RpcBridge.close` at the end of `CoreClient.close`. -/
def closeBridge (s : SharedState) (client : ℕ) (owns replied : Bool) : SharedState :=
  if owns then
    { s with
      socketOpen := false
      closes := s.closes ++ [⟨client, owns, if replied then .returned else .connectionError⟩] }
  else { s with closes := s.closes ++ [⟨client, owns, .socketOwned⟩] }

/-- A request is over. -/
def finish (s : SharedState) (client : ℕ) (owns : Bool) (request : SharedRequest) (replied : Bool) :
    SharedState :=
  match request with
  | .call => { s with exchange := none, calls := s.calls ++ [(client, replied)] }
  | .close => { s with exchange := none }.closeBridge client owns replied

end SharedState

/-- What each event does. -/
def sharedStep (s : SharedState) : SharedEvent → Option SharedState
  | .build owns => some { s with owns := s.owns ++ [owns] }
  | .send client request =>
      if s.exchange = none then
        s.owns[client]?.map fun owns =>
          -- sending on a closed socket raises at once
          if s.socketOpen then { s with exchange := some ⟨client, request, false⟩ }
          else s.finish client owns request false
      else none
  | .serve readsClose =>
      match s.exchange with
      | some ⟨client, request, false⟩ =>
          if s.serving then
            some { s with
              exchange := some ⟨client, request, true⟩
              serving := !readsClose
              misread := s.misread || readsClose != (request = .close) }
          else none
      | _ => none
  | .receive =>
      match s.exchange with
      | some ⟨client, request, true⟩ =>
          s.owns[client]?.map fun owns => s.finish client owns request true
      | _ => none
  | .lost =>
      match s.exchange with
      | some ⟨client, request, false⟩ =>
          -- as long as the server is in its loop it replies
          if s.serving then none
          else s.owns[client]?.map fun owns => s.finish client owns request false
      | _ => none
  -- the session of a closed socket ends without a request
  | .hangup => if s.socketOpen then none else some { s with serving := false }

/-- The runs of a shared socket. -/
def sharedSession : Machine SharedState SharedEvent where
  start s := s = .init
  step := sharedStep

variable {s t : SharedState} {event : SharedEvent} {events : List SharedEvent} {client : ℕ}
  {request : SharedRequest} {owns replied readsClose : Bool}

/-! ## What a step does -/

/-- A request is sent, or raises on a closed socket. -/
theorem sharedSend_cases (hstep : sharedStep s (.send client request) = some t) :
    s.exchange = none ∧ ∃ owns, s.owns[client]? = some owns ∧
      (s.socketOpen = true ∧ t = { s with exchange := some ⟨client, request, false⟩ } ∨
        s.socketOpen = false ∧ t = s.finish client owns request false) := by
  rw [sharedStep] at hstep
  split at hstep
  · next hfree =>
    obtain ⟨owns, howns, rfl⟩ := Option.map_eq_some_iff.mp hstep
    refine ⟨hfree, owns, howns, ?_⟩
    cases hsocket : s.socketOpen
    · exact .inr ⟨rfl, by simp⟩
    · exact .inl ⟨rfl, by simp⟩
  · cases hstep

theorem sharedServe_cases (hstep : sharedStep s (.serve readsClose) = some t) :
    ∃ client request, s.exchange = some ⟨client, request, false⟩ ∧ s.serving = true ∧
      t = { s with
        exchange := some ⟨client, request, true⟩
        serving := !readsClose
        misread := s.misread || readsClose != (request = .close) } := by
  rw [sharedStep] at hstep
  split at hstep
  · next client request hexchange =>
    split at hstep
    · next hserving => exact ⟨client, request, hexchange, hserving, (Option.some.inj hstep).symm⟩
    · cases hstep
  · cases hstep

/-- A request ends with the reply, or when the server is gone. -/
theorem sharedReceive_cases (hstep : sharedStep s .receive = some t) :
    ∃ client request owns, s.exchange = some ⟨client, request, true⟩ ∧
      s.owns[client]? = some owns ∧ t = s.finish client owns request true := by
  rw [sharedStep] at hstep
  split at hstep
  · next client request hexchange =>
    obtain ⟨owns, howns, rfl⟩ := Option.map_eq_some_iff.mp hstep
    exact ⟨client, request, owns, hexchange, howns, rfl⟩
  · cases hstep

/-- A request is lost when the server has left. -/
theorem sharedLost_cases (hstep : sharedStep s .lost = some t) :
    ∃ client request owns, s.exchange = some ⟨client, request, false⟩ ∧
      s.owns[client]? = some owns ∧ s.serving = false ∧ t = s.finish client owns request false := by
  rw [sharedStep] at hstep
  split at hstep
  · next client request hexchange =>
    split at hstep
    · cases hstep
    · next hserving =>
      obtain ⟨owns, howns, rfl⟩ := Option.map_eq_some_iff.mp hstep
      exact ⟨client, request, owns, hexchange, howns, Bool.not_eq_true _ ▸ hserving, rfl⟩
  · cases hstep

/-! ## Sessions that are over -/

/-- The server has left its loop, and no reply is on its way. -/
def Over (s : SharedState) : Prop :=
  s.serving = false ∧ ∀ e, s.exchange = some e → e.replied = false

/-- The calls that have got a reply. -/
def SharedState.answered (s : SharedState) : List (ℕ × Bool) := s.calls.filter Prod.snd

theorem finish_serving : (s.finish client owns request replied).serving = s.serving := by
  cases request <;> cases owns <;> rfl

theorem finish_exchange : (s.finish client owns request replied).exchange = none := by
  cases request <;> cases owns <;> rfl

theorem finish_answered : (s.finish client owns request false).answered = s.answered := by
  cases request with
  | call => simp [SharedState.finish, SharedState.answered]
  | close => cases owns <;> rfl

theorem Over.finish (h : s.serving = false) : Over (s.finish client owns request replied) :=
  ⟨finish_serving.trans h, fun e he => by rw [finish_exchange] at he; cases he⟩

/-- Nothing revives a session that is over. -/
theorem Over.step (h : Over s) (hstep : sharedStep s event = some t) :
    Over t ∧ t.answered = s.answered := by
  cases event with
  | build owns =>
    obtain rfl := Option.some.inj hstep
    exact ⟨h, rfl⟩
  | send client request =>
    obtain ⟨-, owns, -, ⟨-, rfl⟩ | ⟨-, rfl⟩⟩ := sharedSend_cases hstep
    · -- the request is sent, and nobody will reply
      exact ⟨⟨h.1, fun e he => by cases he; rfl⟩, rfl⟩
    · exact ⟨Over.finish h.1, finish_answered⟩
  | serve readsClose =>
    -- a server that has left its loop replies to nothing
    obtain ⟨_, _, -, hserving, -⟩ := sharedServe_cases hstep
    exact absurd (h.1.symm.trans hserving) Bool.false_ne_true
  | receive =>
    -- and there is no reply to be received
    obtain ⟨client, request, owns, hexchange, -⟩ := sharedReceive_cases hstep
    exact absurd (h.2 _ hexchange) (Bool.noConfusion ·)
  | lost =>
    obtain ⟨client, request, owns, -, -, -, rfl⟩ := sharedLost_cases hstep
    exact ⟨Over.finish h.1, finish_answered⟩
  | hangup =>
    rw [sharedStep] at hstep
    split at hstep
    · cases hstep
    · obtain rfl := Option.some.inj hstep
      exact ⟨⟨rfl, h.2⟩, rfl⟩

/-- No later call gets a reply. -/
theorem Over.run (h : Over s) (hrun : sharedSession.run s events = some t) :
    t.answered = s.answered := by
  have hover : Over t ∧ t.answered = s.answered :=
    Machine.run_invariant (P := fun _ t => Over t ∧ t.answered = s.answered) ⟨h, rfl⟩
      (fun _ _ _ _ ht hstep => ⟨(ht.1.step hstep).1, (ht.1.step hstep).2.trans ht.2⟩) hrun
  exact hover.2

/-! ## Closing without owning -/

/-- What the closes that have ended mean for the session, as long as ids are not misread. -/
structure ClosesEnd (s : SharedState) : Prop where
  replied : ∀ client, s.exchange = some ⟨client, .close, true⟩ → s.misread = false →
    s.serving = false
  socket : s.socketOpen = false → s.misread = false → s.serving = false
  refused : ∀ closed ∈ s.closes, closed.owns = false → closed.result = .socketOwned
  ended : ∀ closed ∈ s.closes, closed.owns = false → s.misread = false → Over s

/-- The invariant of closes holds at the start. -/
theorem closesEnd_init : ClosesEnd .init where
  replied _ h := by cases h
  socket h := by cases h
  refused _ h := absurd h List.not_mem_nil
  ended _ h := absurd h List.not_mem_nil

theorem ClosesEnd.finish (h : ClosesEnd s)
    (hclose : request = .close → s.misread = false → s.serving = false) :
    ClosesEnd (s.finish client owns request replied) := by
  have hnone : ∀ e, (s.finish client owns request replied).exchange ≠ some e :=
    fun e he => by rw [finish_exchange] at he; cases he
  cases request with
  | call =>
    refine ⟨fun c hc => absurd hc (hnone _), h.socket, h.refused, fun closed hmem howns hread => ?_⟩
    exact Over.finish (h.ended closed hmem howns hread).1
  | close =>
    -- the close has been served, or found the server gone
    have hserving := hclose rfl
    cases owns with
    | true =>
      refine ⟨fun c hc => absurd hc (hnone _), fun _ => hserving, ?_, ?_⟩
      · intro closed hmem howns
        rcases List.mem_append.mp hmem with hmem | hmem
        · exact h.refused closed hmem howns
        · rw [List.mem_singleton.mp hmem] at howns
          cases howns
      · exact fun _ _ _ hread => Over.finish (hserving hread)
    | false =>
      refine ⟨fun c hc => absurd hc (hnone _), h.socket, ?_, ?_⟩
      · -- a bridge that does not own the socket refuses, whatever the server did
        intro closed hmem howns
        rcases List.mem_append.mp hmem with hmem | hmem
        · exact h.refused closed hmem howns
        · rw [List.mem_singleton.mp hmem]
      · exact fun _ _ _ hread => Over.finish (hserving hread)

theorem ClosesEnd.step (h : ClosesEnd s) (hstep : sharedStep s event = some t) : ClosesEnd t := by
  have hover : Over s → Over t := fun hs => (hs.step hstep).1
  cases event with
  | build owns =>
    obtain rfl := Option.some.inj hstep
    exact ⟨h.replied, h.socket, h.refused, h.ended⟩
  | send client request =>
    obtain ⟨-, owns, -, ⟨-, rfl⟩ | ⟨hsocket, rfl⟩⟩ := sharedSend_cases hstep
    · exact ⟨fun c hc => (by cases hc), h.socket, h.refused, fun closed hmem howns hread =>
        hover (h.ended closed hmem howns hread)⟩
    · exact h.finish fun _ => h.socket hsocket
  | serve readsClose =>
    obtain ⟨client, request, -, hserving, rfl⟩ := sharedServe_cases hstep
    -- without misread ids the server leaves its loop after a close, and after nothing else
    have hreads : (s.misread || readsClose != (request = .close)) = false →
        s.misread = false ∧ readsClose = decide (request = .close) := by
      simp
    refine ⟨fun c hc hread => ?_, fun hsocket hread => ?_, h.refused,
      fun closed hmem howns hread => ?_⟩
    · obtain ⟨rfl, rfl⟩ : client = c ∧ request = .close := by simpa using hc
      change (!readsClose) = false
      rw [(hreads hread).2]
      rfl
    · exact absurd ((h.socket hsocket (hreads hread).1).symm.trans hserving) Bool.false_ne_true
    · have hended := (h.ended closed hmem howns (hreads hread).1).1
      exact absurd (hended.symm.trans hserving) Bool.false_ne_true
  | receive =>
    obtain ⟨client, request, owns, hexchange, -, rfl⟩ := sharedReceive_cases hstep
    exact h.finish fun hrequest hread => h.replied client (hrequest ▸ hexchange) hread
  | lost =>
    obtain ⟨client, request, owns, -, -, hserving, rfl⟩ := sharedLost_cases hstep
    exact h.finish fun _ _ => hserving
  | hangup =>
    rw [sharedStep] at hstep
    split at hstep
    · cases hstep
    · obtain rfl := Option.some.inj hstep
      exact ⟨fun _ _ _ => rfl, fun _ _ => rfl, h.refused, fun closed hmem howns hread =>
        hover (h.ended closed hmem howns hread)⟩

theorem closesEnd_of_reachable (h : sharedSession.Reachable s) : ClosesEnd s :=
  h.invariant (fun s hs => by cases hs; exact closesEnd_init) fun _ _ _ hs _ hstep => hs.step hstep

/-- The owner has not closed the socket and is not about to. -/
def OwnerStays (s : SharedState) : Prop :=
  s.socketOpen = true ∧
    ∀ e, s.exchange = some e → e.request = .close → s.owns[e.client]? ≠ some true

/-- Clients that do not own the socket close without failing. As long as the owner does
not close it, the server is in its loop and has answered all calls of the owner. -/
structure ClosesHarmless (s : SharedState) : Prop where
  returned : ∀ closed ∈ s.closes, closed.owns = false → closed.result = .returned
  serving : OwnerStays s → s.serving = true
  answered : OwnerStays s → ∀ client, s.owns[client]? = some true → (client, false) ∉ s.calls

/-- **Socket ownership.** In no run does a client close harmlessly whose bridge does not
own the socket: the close always fails. And unless the server has misread an id, it has
then left its loop, and no call gets a reply in any later run. -/
theorem not_closesHarmless_of_closed {closed : Closed} (h : sharedSession.Reachable s)
    (hmem : closed ∈ s.closes) (howns : closed.owns = false) :
    ¬ClosesHarmless s ∧ closed.result = .socketOwned ∧
      (s.misread = false → s.serving = false ∧
        ∀ events t, sharedSession.run s events = some t → t.answered = s.answered) := by
  have hends := closesEnd_of_reachable h
  have hrefused := hends.refused closed hmem howns
  refine ⟨fun hharmless => ?_, hrefused, fun hread => ?_⟩
  · have hreturned := hharmless.returned closed hmem howns
    rw [hrefused] at hreturned
    cases hreturned
  · have hover := hends.ended closed hmem howns hread
    exact ⟨hover.1, fun _ _ hrun => hover.run hrun⟩

/-- The owner is answered, a client over a clone is built and closed, and the owner's
next call finds the connection lost. -/
theorem not_closesHarmless_of_closed_clone :
    ∃ s, sharedSession.run .init [.send 0 .call, .serve false, .receive, .build false,
        .send 1 .close, .serve true, .receive, .send 0 .call, .lost] = some s ∧
      s.calls = [(0, true), (0, false)] ∧ ¬ClosesHarmless s := by
  obtain ⟨s, hs, hcalls, hclosed⟩ : ∃ s, sharedSession.run .init [.send 0 .call, .serve false,
      .receive, .build false, .send 1 .close, .serve true, .receive, .send 0 .call, .lost] =
        some s ∧
      s.calls = [(0, true), (0, false)] ∧ s.closes = [⟨1, false, .socketOwned⟩] :=
        ⟨_, rfl, rfl, rfl⟩
  have hmem : ⟨1, false, .socketOwned⟩ ∈ s.closes := by
    rw [hclosed]; exact List.mem_singleton_self _
  exact ⟨s, hs, hcalls, (not_closesHarmless_of_closed (Machine.reachable_of_run rfl hs) hmem rfl).1⟩

/-- As soon as the close of a client over a clone has been served, the owner still has
the socket and the server is gone. -/
theorem not_closesHarmless_served :
    ∃ s, sharedSession.run .init [.build false, .send 1 .close, .serve true] = some s ∧
      OwnerStays s ∧ ¬ClosesHarmless s := by
  have hstays : OwnerStays ⟨[true, false], false, true, some ⟨1, .close, true⟩, [], [], false⟩ :=
    ⟨rfl, fun e he _ howner => by cases he; cases howner⟩
  exact ⟨_, rfl, hstays, fun h => absurd (h.serving hstays) Bool.false_ne_true⟩

/-! ## Closing by the owner only -/

/-- The discipline: only clients that own the socket are closed, and ids are not misread. -/
def OwnersClose (s : SharedState) : SharedEvent → Prop
  | .send client request => request = .close → s.owns[client]? = some true
  | .serve readsClose => ∀ e, s.exchange = some e → readsClose = decide (e.request = .close)
  | _ => True

/-- Every close is one of the owner, and while the socket is open the server only leaves
its loop after one. -/
structure ServesOwner (s : SharedState) : Prop where
  owner : ∀ e, s.exchange = some e → e.request = .close → s.owns[e.client]? = some true
  closes : ∀ closed ∈ s.closes, closed.owns = true
  serving : s.socketOpen = true →
    (∀ e, s.exchange = some e → e.request = .close → e.replied = false) → s.serving = true
  answered : s.socketOpen = true → ∀ client, (client, false) ∉ s.calls

/-- Where the owner alone closes, no close does harm. -/
theorem ServesOwner.closesHarmless (h : ServesOwner s) : ClosesHarmless s where
  returned closed hmem howns := absurd (howns.symm.trans (h.closes closed hmem)) Bool.false_ne_true
  serving hstays := h.serving hstays.1 fun e he hclose =>
    absurd (h.owner e he hclose) (hstays.2 e he hclose)
  answered hstays client _ := h.answered hstays.1 client

/-- The invariant for that holds at the start. -/
theorem servesOwner_init : ServesOwner .init where
  owner _ he := by cases he
  closes _ h := absurd h List.not_mem_nil
  serving _ _ := rfl
  answered _ _ := List.not_mem_nil

/-- A call ends with a reply, or finds the server gone once the socket is closed. -/
theorem ServesOwner.finish_call (h : ServesOwner s)
    (hserving : s.socketOpen = true → s.serving = true ∧ replied = true) :
    ServesOwner (s.finish client owns .call replied) where
  owner _ he := by cases he
  closes := h.closes
  serving hsocket _ := (hserving hsocket).1
  answered hsocket c hmem := by
    rcases List.mem_append.mp hmem with hmem | hmem
    · exact h.answered hsocket c hmem
    · -- the call that ends now has got its reply
      rw [(hserving hsocket).2, List.mem_singleton] at hmem
      cases hmem

/-- The owner has closed the socket. -/
theorem ServesOwner.finish_close (h : ServesOwner s) :
    ServesOwner (s.finish client true .close replied) where
  owner _ he := by cases he
  closes closed hmem := by
    rcases List.mem_append.mp hmem with hmem | hmem
    · exact h.closes closed hmem
    · rw [List.mem_singleton.mp hmem]
  serving hsocket := by cases hsocket
  answered hsocket := by cases hsocket

/-- Every event in which the owner alone closes keeps it. -/
theorem ServesOwner.step (h : ServesOwner s) (hclose : OwnersClose s event)
    (hstep : sharedStep s event = some t) : ServesOwner t := by
  cases event with
  | build owns =>
    obtain rfl := Option.some.inj hstep
    refine ⟨fun e he hrequest => ?_, h.closes, h.serving, h.answered⟩
    have howner := h.owner e he hrequest
    -- the new client comes last, so the others keep their numbers
    obtain ⟨hlt, -⟩ := List.getElem?_eq_some_iff.mp howner
    exact (List.getElem?_append_left hlt).trans howner
  | send client request =>
    obtain ⟨hfree, owns, howns, ⟨-, rfl⟩ | ⟨hsocket, rfl⟩⟩ := sharedSend_cases hstep
    · refine ⟨fun e he hrequest => ?_, h.closes, fun hsocket _ => ?_, h.answered⟩
      · cases he
        exact hclose hrequest
      · exact h.serving hsocket fun e he => by rw [hfree] at he; cases he
    · cases request with
      | call =>
        exact h.finish_call fun hopen => absurd (hsocket.symm.trans hopen) Bool.false_ne_true
      | close =>
        obtain rfl : owns = true := Option.some.inj (howns.symm.trans (hclose rfl))
        exact h.finish_close
  | serve readsClose =>
    obtain ⟨client, request, hexchange, hserving, rfl⟩ := sharedServe_cases hstep
    have hreads := hclose _ hexchange
    refine ⟨fun e he hrequest => ?_, h.closes, fun _ hreplied => ?_, h.answered⟩
    · cases he
      exact h.owner ⟨client, request, false⟩ hexchange hrequest
    · cases request with
      | call => rw [hreads]; rfl
      | close => exact absurd (hreplied _ rfl rfl) (Bool.noConfusion ·)
  | receive =>
    obtain ⟨client, request, owns, hexchange, howns, rfl⟩ := sharedReceive_cases hstep
    cases request with
    | call =>
      refine h.finish_call fun hsocket => ⟨h.serving hsocket fun e he hrequest => ?_, rfl⟩
      rw [hexchange] at he
      cases he
      cases hrequest
    | close =>
      obtain rfl : owns = true := Option.some.inj (howns.symm.trans (h.owner _ hexchange rfl))
      exact h.finish_close
  | lost =>
    obtain ⟨client, request, owns, hexchange, howns, hserving, rfl⟩ := sharedLost_cases hstep
    cases request with
    | call =>
      refine h.finish_call fun hsocket => absurd (h.serving hsocket fun e he hrequest => ?_)
        (by rw [hserving]; exact Bool.false_ne_true)
      rw [hexchange] at he
      cases he
      cases hrequest
    | close =>
      obtain rfl : owns = true := Option.some.inj (howns.symm.trans (h.owner _ hexchange rfl))
      exact h.finish_close
  | hangup =>
    rw [sharedStep] at hstep
    split at hstep
    · cases hstep
    · next hsocket =>
      obtain rfl := Option.some.inj hstep
      exact ⟨h.owner, h.closes, fun hopen => absurd hopen hsocket, h.answered⟩

/-- In every run in which only the owner is closed and no id is misread, closing is harmless. -/
theorem closesHarmless_of_ownersClose (h : sharedSession.Reaches OwnersClose s) :
    ClosesHarmless s := by
  have hserves : ServesOwner s :=
    h.invariant (fun s hs => by cases hs; exact servesOwner_init)
      fun s event t hs hclose hstep => hs.step hclose hstep
  exact hserves.closesHarmless

end RpcProject.Client
