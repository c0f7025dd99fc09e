/-
# Length-prefixed frames over a byte stream

A frame is a little-endian size of fixed width followed by that many bytes.
Frames are self-delimiting: a receiver that holds part of a frame can compute
how many bytes it may still ask for without touching the next one, and knows
when it holds all of it.

The width is a parameter; a body fits a width when its length can be written in
it.
-/

import Mathlib.Algebra.Order.Ring.Nat
import Mathlib.Tactic.Ring

namespace RpcProject.Foundations

/-- A byte string. -/
abbrev Bytes := List UInt8

/-! ## Little-endian naturals -/

/-- The `w` low bytes of `n`, least significant first. -/
def toLE : ℕ → ℕ → Bytes
  | 0, _ => []
  | w + 1, n => UInt8.ofNat (n % 256) :: toLE w (n / 256)

/-- The natural written by little-endian bytes. -/
def ofLE : Bytes → ℕ
  | [] => 0
  | b :: bs => b.toNat + 256 * ofLE bs

@[simp] theorem toLE_length (w n : ℕ) : (toLE w n).length = w := by
  induction w generalizing n with
  | zero => rfl
  | succ w ih => simp [toLE, ih]

theorem ofLE_toLE {w n : ℕ} (fits : n < 256 ^ w) : ofLE (toLE w n) = n := by
  induction w generalizing n with
  | zero =>
    rw [pow_zero, Nat.lt_one_iff] at fits
    simp [toLE, ofLE, fits]
  | succ w ih =>
    have hquot : n / 256 < 256 ^ w := Nat.div_lt_of_lt_mul (by rwa [pow_succ'] at fits)
    have hbyte : (UInt8.ofNat (n % 256)).toNat = n % 256 := by simp
    -- low byte and quotient make up the number again
    rw [toLE, ofLE, ih hquot, hbyte]
    exact Nat.mod_add_div n 256

/-- The bytes that come later count more. -/
theorem ofLE_append (xs ys : Bytes) :
    ofLE (xs ++ ys) = ofLE xs + 256 ^ xs.length * ofLE ys := by
  induction xs with
  | nil => simp [ofLE]
  | cons b xs ih =>
    rw [List.cons_append, ofLE, ofLE, ih, List.length_cons, pow_succ]
    ring

/-! ## Frames -/

/-- The frame of a body: its size, then the body. -/
def frame (w : ℕ) (body : Bytes) : Bytes := toLE w body.length ++ body

/-- The body left when the size is removed. -/
def frameBody (w : ℕ) (bytes : Bytes) : Bytes := bytes.drop w

/-- How many bytes a receiver that holds `got` may still ask for: the rest of
the size while it is incomplete, and the rest of the announced body after. -/
def frameNeed (w : ℕ) (got : Bytes) : ℕ :=
  if got.length < w then w - got.length else w + ofLE (got.take w) - got.length

variable {w : ℕ} {body got more : Bytes}

@[simp] theorem frame_length : (frame w body).length = w + body.length := by
  simp [frame]

@[simp] theorem frameBody_frame : frameBody w (frame w body) = body := by
  simp [frameBody, frame]

/-- A frame starts with the length of its body. -/
theorem take_frame (more : Bytes) : (frame w body ++ more).take w = toLE w body.length := by
  rw [frame, List.append_assoc, List.take_left' (toLE_length _ _)]

/-- The size of a held frame start, once complete, is the size of the body. -/
theorem ofLE_take_of_append_eq_frame (fits : body.length < 256 ^ w)
    (hframe : got ++ more = frame w body) (hsize : w ≤ got.length) :
    ofLE (got.take w) = body.length := by
  -- the size lies within what is held, so it is the size of the whole frame
  have htake : got.take w = toLE w body.length := by
    have hall : (frame w body ++ []).take w = toLE w body.length := take_frame []
    rwa [List.append_nil, ← hframe, List.take_append_of_le_length hsize] at hall
  rw [htake, ofLE_toLE fits]

/-- A receiver inside a frame asks for at least one byte and for none beyond
the frame's end. -/
theorem frameNeed_pos_le (fits : body.length < 256 ^ w) (hframe : got ++ more = frame w body)
    (hmore : more ≠ []) : 0 < frameNeed w got ∧ frameNeed w got ≤ more.length := by
  have hlength : got.length + more.length = w + body.length := by
    rw [← List.length_append, hframe, frame_length]
  have hpos : 0 < more.length := List.length_pos_iff.mpr hmore
  unfold frameNeed
  split
  · omega
  · next hsize =>
    rw [ofLE_take_of_append_eq_frame fits hframe (Nat.le_of_not_lt hsize)]
    omega

/-- A receiver that holds the whole frame asks for nothing. -/
theorem frameNeed_frame (fits : body.length < 256 ^ w) : frameNeed w (frame w body) = 0 := by
  have hsize : ¬ (frame w body).length < w := by simp
  have hannounced : ofLE ((frame w body).take w) = body.length :=
    ofLE_take_of_append_eq_frame fits (List.append_nil _) (Nat.le_of_not_lt hsize)
  rw [frameNeed, if_neg hsize, hannounced, frame_length]
  omega

/-- Inside a frame, asking for nothing more means holding all of it. -/
theorem frameNeed_eq_zero_iff (fits : body.length < 256 ^ w)
    (hframe : got ++ more = frame w body) : frameNeed w got = 0 ↔ more = [] := by
  constructor
  · intro hzero
    by_contra hmore
    exact absurd hzero (frameNeed_pos_le fits hframe hmore).1.ne'
  · rintro rfl
    rw [List.append_nil] at hframe
    rw [hframe, frameNeed_frame fits]

/-- A receiver that has the whole size needs as much less as it gets. -/
theorem frameNeed_append (hsize : w ≤ got.length) :
    frameNeed w (got ++ more) = frameNeed w got - more.length := by
  have hlong : ¬ (got ++ more).length < w := by
    rw [List.length_append]
    omega
  rw [frameNeed, frameNeed, if_neg hlong, if_neg (Nat.not_lt.mpr hsize),
    List.take_append_of_le_length hsize, List.length_append, Nat.sub_add_eq]

end RpcProject.Foundations
