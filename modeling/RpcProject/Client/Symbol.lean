/-
# Symbols

The result of a remote call is a symbol: the integer that the bits of the result register
stand for without a sign. A program that wants a signed number casts it. The casts give
back what the remote function has returned within the range of their type, and a test for
a negative symbol never succeeds.
-/

import Mathlib.Algebra.Ring.Int.Defs
import Mathlib.Algebra.Ring.Nat
import Mathlib.Tactic.Common

namespace RpcProject.Client

/-- A word of the process, which may be an address. -/
structure Symbol where
  bits : BitVec 64
  deriving DecidableEq, Repr

namespace Symbol

/-- The symbol of an integer, of which `& 0xFFFFFFFFFFFFFFFF` is kept. -/
def new (value : ℤ) : Symbol := ⟨BitVec.ofInt 64 value⟩

/-- The integer that a symbol is. -/
def int (s : Symbol) : ℤ := s.bits.toNat

/-- cast to c_int64 -/
def cInt64 (s : Symbol) : ℤ := s.bits.toInt

/-- cast to c_int32 -/
def cInt32 (s : Symbol) : ℤ := (s.bits.setWidth 32).toInt

variable {s : Symbol} {value : ℤ}

theorem int_nonneg (s : Symbol) : 0 ≤ s.int := Int.natCast_nonneg _

theorem not_int_neg (s : Symbol) : ¬ s.int < 0 := Int.not_lt.mpr s.int_nonneg

/-- A number of 64 bits is read back as it is. -/
theorem cInt64_new (hle : -2 ^ 63 ≤ value) (hlt : value < 2 ^ 63) : (new value).cInt64 = value :=
  BitVec.toInt_ofInt_eq_self (by decide) hle hlt

theorem cInt64_new_natCast {n : ℕ} (h : n < 2 ^ 63) : (new (n : ℤ)).cInt64 = n :=
  cInt64_new (by omega) (by omega)

theorem cInt64_lt (s : Symbol) : s.cInt64 < 2 ^ 63 := BitVec.toInt_lt

/-- A number of 64 bits comes out of the cast as it is or negative. -/
theorem cInt64_new_of_nonneg (hnonneg : 0 ≤ value) (hlt : value < 2 ^ 64)
    (h : 0 ≤ (new value).cInt64) : (new value).cInt64 = value := by
  rw [cInt64, new, BitVec.toInt_ofInt, Int.bmod_def] at h ⊢
  split at h <;> omega

/-- Of a longer number 32 bits are read. -/
theorem cInt32_new : (new value).cInt32 = value.bmod (2 ^ 32) := by
  rw [cInt32, new, BitVec.toInt_setWidth, BitVec.toNat_ofInt,
    Int.toNat_of_nonneg (Int.emod_nonneg _ (by decide)), ← Int.emod_bmod,
    Int.emod_emod_of_dvd _ (by decide), Int.emod_bmod]

/-- A cast to 32 bits gives the number back just if it has no more. -/
theorem cInt32_new_eq_iff : (new value).cInt32 = value ↔ -2 ^ 31 ≤ value ∧ value < 2 ^ 31 := by
  rw [cInt32_new, Int.bmod_eq_iff (by decide)]
  constructor
  · rintro ⟨hle, hlt, -⟩
    omega
  · rintro ⟨hle, hlt⟩
    exact ⟨by omega, by omega, by simp⟩

end Symbol

end RpcProject.Client
