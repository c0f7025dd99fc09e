/-
# Programs that ask

A program asks questions, one after the other, and what it asks next depends on the
answers. A device answers from a state, which a question may change. Programs that
share a device take turns, with one question at a turn, in any order.

A device *realises* another one on some questions when states that are related give the
same answers and are left related. Programs that ask no other questions cannot tell the
two apart, in whatever order they take their turns.
-/

import Mathlib.Logic.Function.Basic

namespace RpcProject.Foundations

/-- A program with a value at its end. Each question has a type of answers. -/
inductive Program (Q : Type) (A : Q → Type) (α : Type)
  | done (a : α)
  | ask (q : Q) (next : A q → Program Q A α)

/-- What answers the questions, from states `σ`. -/
def Device (σ Q : Type) (A : Q → Type) := (q : Q) → σ → A q × σ

variable {σ τ Q ι α : Type} {A : Q → Type}

namespace Program

/-- A turn: the next question, if the program has one. -/
def turn (device : Device σ Q A) : Program Q A α → σ → Program Q A α × σ
  | done a, s => (done a, s)
  | ask q next, s => (next (device q s).1, (device q s).2)

/-- Programs take turns as the schedule says. -/
def turns [DecidableEq ι] (device : Device σ Q A) :
    List ι → (ι → Program Q A α) → σ → (ι → Program Q A α) × σ
  | [], programs, s => (programs, s)
  | i :: schedule, programs, s =>
      turns device schedule (Function.update programs i ((programs i).turn device s).1)
        ((programs i).turn device s).2

/-- Whatever the program is answered, each question it asks is one of `P`. -/
inductive Asks (P : Q → Prop) : Program Q A α → Prop
  | done (a : α) : Asks P (done a)
  | ask {q : Q} {next : A q → Program Q A α} (hq : P q) (hnext : ∀ a, Asks P (next a)) :
      Asks P (ask q next)

variable {P : Q → Prop} {program : Program Q A α} {programs : ι → Program Q A α} {s : σ} {t : τ}

/-- A program that asks for what is promised goes on doing so. -/
theorem Asks.turn {device : Device σ Q A} (h : program.Asks P) (s : σ) :
    (program.turn device s).1.Asks P := by
  cases h with
  | done a => exact .done a
  | ask _ hnext => exact hnext _

end Program

/-- States that are related answer the questions of `P` alike, and are left related. -/
structure Device.Realises (P : Q → Prop) (R : σ → τ → Prop) (device : Device σ Q A)
    (spec : Device τ Q A) : Prop where
  answer : ∀ q s t, P q → R s t → (device q s).1 = (spec q t).1
  next : ∀ q s t, P q → R s t → R (device q s).2 (spec q t).2

namespace Device.Realises

open Program

variable {P : Q → Prop} {R : σ → τ → Prop} {device : Device σ Q A} {spec : Device τ Q A}
  {program : Program Q A α} {programs : ι → Program Q A α} {s : σ} {t : τ}

/-- The program gets the same answer from both devices. -/
theorem turn (h : Realises P R device spec) (hasks : program.Asks P) (hR : R s t) :
    (program.turn device s).1 = (program.turn spec t).1 ∧
      R (program.turn device s).2 (program.turn spec t).2 := by
  cases hasks with
  | done a => exact ⟨rfl, hR⟩
  | @ask q next hq _ => exact ⟨congrArg next (h.answer q s t hq hR), h.next q s t hq hR⟩

/-- **No order of turns tells the devices apart.** -/
theorem turns [DecidableEq ι] (h : Realises P R device spec) (schedule : List ι)
    (hasks : ∀ i, (programs i).Asks P) (hR : R s t) :
    (turns device schedule programs s).1 = (turns spec schedule programs t).1 ∧
      R (turns device schedule programs s).2 (turns spec schedule programs t).2 := by
  induction schedule generalizing programs s t with
  | nil => exact ⟨rfl, hR⟩
  | cons i schedule ih =>
    obtain ⟨hprogram, hstate⟩ := h.turn (hasks i) hR
    rw [Program.turns, Program.turns, ← hprogram]
    refine ih (fun j => ?_) hstate
    rcases eq_or_ne j i with rfl | hne
    · rw [Function.update_self]
      exact (hasks j).turn s
    · rw [Function.update_of_ne hne]
      exact hasks j

end Device.Realises

end RpcProject.Foundations
