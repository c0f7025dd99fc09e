/-
# Codes that can be read from the front

A prefix code writes each symbol as a word such that no word is the beginning of
another one. A text is then known from its code, and what follows the code of a
beginning is the code of the rest.

A coded text may arrive in pieces. Every piece is the code of some text exactly when
no piece ends inside a word.
-/

import Mathlib.Data.List.Flatten
import RpcProject.Foundations.Chunks

namespace RpcProject.Foundations

/-- A code for the symbols of `α` over the letters of `β`. -/
structure PrefixCode (α β : Type*) where
  word : α → List β
  word_ne_nil : ∀ a, word a ≠ []
  prefixFree : ∀ a b, word a <+: word b → a = b

namespace PrefixCode

variable {α β : Type*} (code : PrefixCode α β) {text : List α} {chunk rest : List β}
  {chunks : List (List β)}

/-- The code of a text. -/
def encode (text : List α) : List β := text.flatMap code.word

/-- Between two words of the text, or at one of its ends. -/
def Boundary (text : List α) (position : ℕ) : Prop :=
  ∃ n, position = (code.encode (text.take n)).length

@[simp] theorem encode_nil : code.encode [] = [] := rfl

@[simp] theorem encode_cons (a : α) : code.encode (a :: text) = code.word a ++ code.encode text :=
  rfl

@[simp] theorem encode_append (first second : List α) :
    code.encode (first ++ second) = code.encode first ++ code.encode second :=
  List.flatMap_append

variable {code}

/-- **Cancellation.** A text whose code begins with the code of another one begins
with that text. -/
theorem exists_of_encode_append {first : List α}
    (h : code.encode first ++ rest = code.encode text) :
    ∃ second, text = first ++ second ∧ rest = code.encode second := by
  induction first generalizing text with
  | nil => exact ⟨text, rfl, h⟩
  | cons a first ih =>
    rw [encode_cons, List.append_assoc] at h
    cases text with
    | nil =>
      have hempty : code.word a = [] := (List.append_eq_nil_iff.mp h).1
      exact absurd hempty (code.word_ne_nil a)
    | cons b text =>
      -- both words begin the same list
      rw [encode_cons] at h
      have hab : code.word a <+: code.word a ++ (code.encode first ++ rest) :=
        List.prefix_append _ _
      have hba : code.word b <+: code.word a ++ (code.encode first ++ rest) :=
        h ▸ List.prefix_append _ _
      obtain rfl : a = b := by
        rcases List.prefix_or_prefix_of_prefix hab hba with hword | hword
        · exact code.prefixFree a b hword
        · exact (code.prefixFree b a hword).symm
      obtain ⟨second, rfl, hrest⟩ := ih (List.append_cancel_left h)
      exact ⟨second, rfl, hrest⟩

/-- Different texts have different codes. -/
theorem encode_injective : Function.Injective code.encode := by
  intro first text h
  obtain ⟨second, rfl, hsecond⟩ := exists_of_encode_append ((List.append_nil _).trans h)
  cases second with
  | nil => exact (List.append_nil first).symm
  | cons a second =>
    have hempty : code.word a = [] := (List.append_eq_nil_iff.mp hsecond.symm).1
    exact absurd hempty (code.word_ne_nil a)

/-- A chunk is the code of a text exactly when it ends between two words of the text
it begins. -/
theorem exists_encode_iff {before : List α} (h : chunk ++ rest = code.encode text) :
    (∃ piece, chunk = code.encode piece) ↔
      code.Boundary (before ++ text) ((code.encode before).length + chunk.length) := by
  constructor
  · rintro ⟨piece, rfl⟩
    obtain ⟨second, rfl, -⟩ := exists_of_encode_append h
    refine ⟨before.length + piece.length, ?_⟩
    rw [List.take_length_add_append, List.take_left, encode_append, List.length_append]
  · rintro ⟨n, hn⟩
    rcases le_total n before.length with hshort | hlong
    · -- the chunk adds nothing
      have htake : (code.encode (before.take n)).length ≤ (code.encode before).length := by
        conv_rhs => rw [← List.take_append_drop n before, encode_append, List.length_append]
        exact Nat.le_add_right _ _
      rw [List.take_append_of_le_length hshort] at hn
      exact ⟨[], List.eq_nil_of_length_eq_zero (by omega)⟩
    · obtain ⟨k, rfl⟩ := Nat.exists_eq_add_of_le hlong
      rw [List.take_length_add_append, encode_append, List.length_append] at hn
      have hlength : chunk.length = (code.encode (text.take k)).length := by omega
      refine ⟨text.take k, ?_⟩
      calc chunk = (chunk ++ rest).take chunk.length := (List.take_left).symm
        _ = (code.encode (text.take k ++ text.drop k)).take chunk.length := by
            rw [h, List.take_append_drop]
        _ = code.encode (text.take k) := by rw [encode_append, hlength, List.take_left]

/-- The pieces in which a text arrives, after what has arrived before it. -/
theorem forall_exists_encode_iff_after (before : List α)
    (h : chunks.flatten ++ rest = code.encode text) :
    (∀ chunk ∈ chunks, ∃ piece, chunk = code.encode piece) ↔
      ∀ position ∈ cuts (code.encode before).length chunks,
        code.Boundary (before ++ text) position := by
  induction chunks generalizing before text with
  | nil => simp [cuts]
  | cons chunk chunks ih =>
    rw [List.flatten_cons, List.append_assoc] at h
    rw [cuts, List.forall_mem_cons, List.forall_mem_cons, ← exists_encode_iff h]
    apply and_congr_right
    rintro ⟨piece, rfl⟩
    obtain ⟨second, rfl, hsecond⟩ := exists_of_encode_append h
    have hrest := ih (before ++ piece) hsecond
    rwa [encode_append, List.length_append, List.append_assoc] at hrest

/-- **Pieces.** Every piece in which a text arrives is the code of some text exactly
when no piece ends inside a word. -/
theorem forall_exists_encode_iff (h : chunks.flatten ++ rest = code.encode text) :
    (∀ chunk ∈ chunks, ∃ piece, chunk = code.encode piece) ↔
      ∀ position ∈ cuts 0 chunks, code.Boundary text position :=
  forall_exists_encode_iff_after [] h

end PrefixCode

end RpcProject.Foundations
