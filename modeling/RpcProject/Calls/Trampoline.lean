/-
# The ARM64 trampoline

The inline assembly of `call_function` saves registers, loads the argument
registers, copies `args.stack` to the stack and branches to the callee. Register
`x21` holds `MAX_STACK_ARGS`. It is subtracted from the stack pointer, where it
counts bytes, and compared with the counter of the copy, where it counts words.
So the copy writes sixteen words behind a reservation of sixteen bytes.

A step of the machine is one instruction, and the run stops where the callee is
entered. An operand of the assembly stands for its value: the compiler keeps
operands in registers that the assembly does not overwrite.
-/

import Mathlib.Logic.Function.Basic
import Mathlib.Tactic.IntervalCases
import RpcProject.Calls.Placement
import RpcProject.Foundations.ByteMemory

namespace RpcProject.Calls

open Foundations Foundations.Memory

/-! ## Instructions -/

/-- The part of a processor that the trampoline uses. -/
structure Cpu where
  x : ℕ → BitVec 64
  d : ℕ → BitVec 64
  sp : Address
  /-- the zero flag -/
  zero : Bool
  pc : ℕ
  mem : Memory
  /-- the addresses of the words stored relative to the stack pointer, in order -/
  copied : List Address

/-- The instructions of the assembly. Registers are given by number, and branch
targets by position. -/
inductive Instruction
  | mov (dst : ℕ) (operand : BitVec 64)
  | stp (src src' base : ℕ) (offset : BitVec 64)
  | ldp (dst dst' base : ℕ) (offset : BitVec 64)
  | ldpD (dst dst' base : ℕ) (offset : BitVec 64)
  | subSp (src : ℕ)
  | ldrIndexed (dst base index : ℕ)
  | strSpIndexed (src index : ℕ)
  | addImm (dst src : ℕ) (imm : BitVec 64)
  | cmp (a b : ℕ)
  | bne (target : ℕ)
  | blr (target : ℕ)

/-- On to the next instruction. -/
def Cpu.next (c : Cpu) : Cpu := { c with pc := c.pc + 1 }

/-- What an instruction does. A call leaves the code of the trampoline. -/
def Instruction.exec (c : Cpu) : Instruction → Option Cpu
  | mov dst operand => some { c.next with x := Function.update c.x dst operand }
  | stp src src' base offset =>
      let a := c.x base + offset
      some { c.next with mem := store64 (store64 c.mem a (c.x src)) (a + 8) (c.x src') }
  | ldp dst dst' base offset =>
      let a := c.x base + offset
      some { c.next with
        x := Function.update (Function.update c.x dst (load64 c.mem a)) dst'
          (load64 c.mem (a + 8)) }
  | ldpD dst dst' base offset =>
      let a := c.x base + offset
      some { c.next with
        d := Function.update (Function.update c.d dst (load64 c.mem a)) dst'
          (load64 c.mem (a + 8)) }
  | subSp src => some { c.next with sp := c.sp - c.x src }
  | ldrIndexed dst base index =>
      some { c.next with x := Function.update c.x dst (load64 c.mem (c.x base + c.x index <<< 3)) }
  | strSpIndexed src index =>
      let a := c.sp + c.x index <<< 3
      some { c.next with mem := store64 c.mem a (c.x src), copied := c.copied ++ [a] }
  | addImm dst src imm => some { c.next with x := Function.update c.x dst (c.x src + imm) }
  | cmp a b => some { c.next with zero := c.x a = c.x b }
  | bne target => some (if c.zero then c.next else { c with pc := target })
  | blr _ => none

/-- The operands of the assembly. -/
structure Operands where
  address : Address
  /-- the address of `args`; the fields `d` and `stack` follow the field `x` -/
  args : Address
  regsBackup : Address
  resultRegisters : Address

/-- The words for the stack come behind the registers. -/
def Operands.argsStack (ops : Operands) : Address := ops.args + 128

/-- The assembly, up to the call. -/
def trampoline (ops : Operands) : List Instruction :=
  [.mov 19 ops.address, .mov 20 ops.args, .mov 21 (BitVec.ofNat 64 maxStackArgs),
    .mov 22 ops.argsStack, .mov 23 ops.regsBackup, .mov 24 ops.resultRegisters,
    .mov 25 0, .mov 26 0,
    -- backup registers
    .stp 8 9 23 0, .stp 10 11 23 16, .stp 12 13 23 32, .stp 14 15 23 48, .stp 16 17 23 64,
    .stp 18 19 23 80, .stp 20 21 23 96, .stp 22 23 23 112, .stp 24 25 23 128, .stp 26 27 23 144,
    -- prepare register arguments
    .ldp 0 1 20 0, .ldp 2 3 20 16, .ldp 4 5 20 32, .ldp 6 7 20 48,
    .ldpD 0 1 20 64, .ldpD 2 3 20 80, .ldpD 4 5 20 96, .ldpD 6 7 20 112,
    -- prepare stack arguments
    .subSp 21,
    .ldrIndexed 26 22 25, .strSpIndexed 26 25, .addImm 25 25 1, .cmp 25 21, .bne 27,
    -- call function
    .blr 19]

/-- The positions of the reservation, of the copy and of the call. -/
def reservation : ℕ := 26

/-- Where the loop starts that copies them. -/
def copyLoop : ℕ := 27

/-- Where the function is called. -/
def call : ℕ := 32

/-- One instruction. -/
def Cpu.step (ops : Operands) (c : Cpu) : Option Cpu :=
  (trampoline ops)[c.pc]?.bind (Instruction.exec c)

/-- Execute `n` instructions. -/
def Cpu.run (ops : Operands) : ℕ → Cpu → Option Cpu
  | 0, c => some c
  | n + 1, c => (c.step ops).bind (run ops n)

variable {ops : Operands} {c c' before : Cpu}

theorem Cpu.run_add (m n : ℕ) (c : Cpu) :
    c.run ops (m + n) = (c.run ops m).bind (Cpu.run ops n) := by
  induction m generalizing c with
  | zero => rw [Nat.zero_add, Cpu.run, Option.bind_some]
  | succ m ih =>
    rw [Nat.succ_add, Cpu.run, Cpu.run, Option.bind_assoc]
    congr 1
    funext c'
    exact ih c'

/-! ## Up to the reservation -/

/-- Instructions that leave the stack pointer and the registers from `x19` on. -/
def Instruction.quiet : Instruction → Bool
  | stp _ _ _ _ => true
  | ldp dst dst' _ _ => dst < 19 && dst' < 19
  | ldpD _ _ _ _ => true
  | _ => false

/-- What quiet instructions keep. -/
structure Kept (c c' : Cpu) : Prop where
  sp : c'.sp = c.sp
  copied : c'.copied = c.copied
  x : ∀ r, 19 ≤ r → c'.x r = c.x r

/-- A quiet instruction keeps what it should. -/
theorem exec_quiet {i : Instruction} (h : i.quiet = true) (c : Cpu) :
    ∃ c', i.exec c = some c' ∧ c'.pc = c.pc + 1 ∧ Kept c c' := by
  cases i with
  | stp src src' base offset => exact ⟨_, rfl, rfl, rfl, rfl, fun _ _ => rfl⟩
  | ldp dst dst' base offset =>
    simp only [Instruction.quiet, Bool.and_eq_true, decide_eq_true_eq] at h
    refine ⟨_, rfl, rfl, rfl, rfl, fun r hr => ?_⟩
    exact (Function.update_of_ne (by omega) _ _).trans (Function.update_of_ne (by omega) _ _)
  | ldpD dst dst' base offset => exact ⟨_, rfl, rfl, rfl, rfl, fun _ _ => rfl⟩
  | _ => cases h

theorem run_quiet {n : ℕ}
    (h : ∀ k < n, ((trampoline ops)[c.pc + k]?.map Instruction.quiet) = some true) :
    ∃ c', c.run ops n = some c' ∧ c'.pc = c.pc + n ∧ Kept c c' := by
  induction n generalizing c with
  | zero => exact ⟨c, rfl, rfl, rfl, rfl, fun _ _ => rfl⟩
  | succ n ih =>
    obtain ⟨i, hi, hquiet⟩ := Option.map_eq_some_iff.mp (h 0 (Nat.succ_pos n))
    obtain ⟨c₁, hexec, hpc₁, hkept₁⟩ := exec_quiet hquiet c
    obtain ⟨c', hrun, hpc, hkept⟩ := ih (c := c₁) fun k hk => by
      rw [hpc₁, Nat.add_assoc, Nat.add_comm 1 k]
      exact h (k + 1) (Nat.succ_lt_succ hk)
    refine ⟨c', ?_, by omega, hkept.sp.trans hkept₁.sp, hkept.copied.trans hkept₁.copied,
      fun r hr => (hkept.x r hr).trans (hkept₁.x r hr)⟩
    rw [Cpu.run, Cpu.step, show (trampoline ops)[c.pc]? = some i from hi, Option.bind_some, hexec,
      Option.bind_some, hrun]

/-- The state in which the assembly starts. -/
def Cpu.start (x d : ℕ → BitVec 64) (sp : Address) (zero : Bool) (mem : Memory) : Cpu :=
  ⟨x, d, sp, zero, 0, mem, []⟩

/-- The state in which `sub sp, sp, x21` is executed. -/
structure Reserves (ops : Operands) (c : Cpu) : Prop where
  pc : c.pc = reservation
  copied : c.copied = []
  count : c.x 21 = 16
  source : c.x 22 = ops.argsStack
  counter : c.x 25 = 0

/-- The trampoline reserves room on the stack. -/
theorem run_start (ops : Operands) (x d : ℕ → BitVec 64) (sp : Address) (zero : Bool)
    (mem : Memory) : ∃ before, (Cpu.start x d sp zero mem).run ops 26 = some before ∧
      before.sp = sp ∧ Reserves ops before := by
  obtain ⟨c, hmoves, hpc, hsp, hcopied, h21, h22, h25⟩ :
      ∃ c, (Cpu.start x d sp zero mem).run ops 8 = some c ∧ c.pc = 8 ∧ c.sp = sp ∧ c.copied = [] ∧
        c.x 21 = 16 ∧ c.x 22 = ops.argsStack ∧ c.x 25 = 0 :=
    ⟨_, rfl, rfl, rfl, rfl, rfl, rfl, rfl⟩
  have hquiet : ∀ k < 18, ((trampoline ops)[c.pc + k]?.map Instruction.quiet) = some true := by
    intro k hk
    rw [hpc]
    interval_cases k <;> rfl
  obtain ⟨before, hrun, hpc', hkept⟩ := run_quiet hquiet
  refine ⟨before, ?_, hkept.sp.trans hsp, ?_, hkept.copied.trans hcopied, ?_, ?_, ?_⟩
  · rw [Cpu.run_add 8 18, hmoves, Option.bind_some, hrun]
  · rw [hpc', hpc]
    rfl
  · rw [hkept.x 21 (by decide), h21]
  · rw [hkept.x 22 (by decide), h22]
  · rw [hkept.x 25 (by decide), h25]

/-! ## The copy -/

/-- The state in front of turn `k` of the copy, or behind its last turn. -/
structure Copies (ops : Operands) (before : Cpu) (k : ℕ) (c : Cpu) : Prop where
  pc : c.pc = if k < maxStackArgs then copyLoop else call
  sp : c.sp = before.sp - 16
  count : c.x 21 = 16
  source : c.x 22 = ops.argsStack
  counter : c.x 25 = BitVec.ofNat 64 k
  mem : c.mem = copyWords before.mem ops.argsStack (before.sp - 16) k
  copied : c.copied = (List.range k).map (wordAddress (before.sp - 16))

theorem Reserves.copies (h : Reserves ops before) :
    ∃ c, before.run ops 1 = some c ∧ Copies ops before 0 c := by
  have hstep : before.step ops = some { before.next with sp := before.sp - before.x 21 } := by
    rw [Cpu.step, h.pc]
    rfl
  refine ⟨{ before.next with sp := before.sp - before.x 21 }, by rw [Cpu.run, hstep]; rfl,
    ?_, ?_, h.count, h.source, h.counter, rfl, h.copied⟩
  · show before.pc + 1 = _
    rw [h.pc]
    rfl
  · show before.sp - before.x 21 = _
    rw [h.count]

theorem shiftLeft_three (k : ℕ) : BitVec.ofNat 64 k <<< 3 = BitVec.ofNat 64 (8 * k) := by
  apply BitVec.eq_of_toNat_eq
  rw [BitVec.toNat_shiftLeft, BitVec.toNat_ofNat, BitVec.toNat_ofNat, Nat.shiftLeft_eq]
  omega

/-- One turn of the copy: load, store, count, compare and branch. -/
theorem Copies.turn {k : ℕ} (h : Copies ops before k c) (hk : k < maxStackArgs) :
    ∃ c', c.run ops 5 = some c' ∧ Copies ops before (k + 1) c' := by
  have hpc : c.pc = copyLoop := by rw [h.pc, if_pos hk]
  have hload : c.x 22 + c.x 25 <<< 3 = wordAddress ops.argsStack k := by
    rw [h.source, h.counter, shiftLeft_three, wordAddress]
  have hstore : c.sp + c.x 25 <<< 3 = wordAddress (before.sp - 16) k := by
    rw [h.sp, h.counter, shiftLeft_three, wordAddress]
  have hcounter : c.x 25 + 1 = BitVec.ofNat 64 (k + 1) := by
    rw [h.counter, BitVec.ofNat_add]
    rfl
  -- the counter has the bound's value exactly behind the last turn
  have hlast : c.x 25 + 1 = c.x 21 ↔ ¬ k + 1 < maxStackArgs := by
    rw [hcounter, h.count]
    unfold maxStackArgs at *
    bv_omega
  obtain ⟨c₄, hfour, hpc₄, hzero, hsp, hx₂₁, hx₂₂, hx₂₅, hmem, hcopied⟩ :
      ∃ c₄, c.run ops 4 = some c₄ ∧ c₄.pc = 31 ∧ c₄.zero = decide (c.x 25 + 1 = c.x 21) ∧
        c₄.sp = c.sp ∧ c₄.x 21 = c.x 21 ∧ c₄.x 22 = c.x 22 ∧ c₄.x 25 = c.x 25 + 1 ∧
        c₄.mem = store64 c.mem (c.sp + c.x 25 <<< 3) (load64 c.mem (c.x 22 + c.x 25 <<< 3)) ∧
        c₄.copied = c.copied ++ [c.sp + c.x 25 <<< 3] := by
    obtain ⟨x, d, sp, zero, pc, mem, copied⟩ := c
    obtain rfl : pc = copyLoop := hpc
    exact ⟨_, rfl, rfl, rfl, rfl, rfl, rfl, rfl, rfl, rfl⟩
  have hbranch : c₄.run ops 1 = some (if c₄.zero then c₄.next else { c₄ with pc := copyLoop }) := by
    rw [Cpu.run, Cpu.step, hpc₄]
    rfl
  refine ⟨_, by rw [Cpu.run_add 4 1, hfour, Option.bind_some, hbranch], ?_⟩
  have hpc' : (if c₄.zero then c₄.next else { c₄ with pc := copyLoop } : Cpu) =
      { c₄ with pc := if k + 1 < maxStackArgs then copyLoop else call } := by
    have hflag : c₄.zero = true ↔ ¬ k + 1 < maxStackArgs := by
      rw [hzero, decide_eq_true_eq, hlast]
    by_cases hmore : k + 1 < maxStackArgs
    · rw [if_neg fun hset => hflag.mp hset hmore, if_pos hmore]
    · rw [if_pos (hflag.mpr hmore), if_neg hmore, Cpu.next, hpc₄]
      rfl
  rw [hpc']
  refine ⟨rfl, hsp.trans h.sp, hx₂₁.trans h.count, hx₂₂.trans h.source, hx₂₅.trans hcounter, ?_, ?_⟩
  · rw [hmem, hload, hstore, h.mem, copyWords]
  · rw [hcopied, hstore, h.copied, List.range_succ, List.map_append, List.map_singleton]

theorem Reserves.copied_words (h : Reserves ops before) {k : ℕ} (hk : k ≤ maxStackArgs) :
    ∃ c, before.run ops (1 + 5 * k) = some c ∧ Copies ops before k c := by
  induction k with
  | zero => exact h.copies
  | succ k ih =>
    obtain ⟨c, hrun, hc⟩ := ih (Nat.le_of_succ_le hk)
    obtain ⟨c', hturn, hc'⟩ := hc.turn hk
    refine ⟨c', ?_, hc'⟩
    rw [show 1 + 5 * (k + 1) = 1 + 5 * k + 5 by omega, Cpu.run_add, hrun, Option.bind_some, hturn]

/-! ## The frame of the callee -/

/-- What the copy is to do between the reservation and the entry of the callee. -/
structure FrameLaw (ops : Operands) (before entered : Cpu) : Prop where
  /-- the copy stores to the reserved area only -/
  inside : ∀ a ∈ entered.copied, ∀ i < 8,
    InRange entered.sp (before.sp - entered.sp).toNat (a + BitVec.ofNat 64 i)
  /-- memory at and above the stack pointer keeps its contents -/
  unchanged : ∀ b, before.sp.toNat ≤ b.toNat → entered.mem b = before.mem b
  /-- the callee finds the stack arguments at its stack pointer -/
  slots : ∀ i < maxStackArgs, load64 entered.mem (wordAddress entered.sp i) =
    load64 before.mem (wordAddress ops.argsStack i)

/-- From any start the assembly reserves sixteen bytes, copies sixteen words to
them and beyond, and enters the callee. -/
theorem trampoline_enters (ops : Operands) (x d : ℕ → BitVec 64) (sp : Address) (zero : Bool)
    (mem : Memory) : ∃ before entered, (Cpu.start x d sp zero mem).run ops 26 = some before ∧
      before.pc = reservation ∧ before.sp = sp ∧ before.run ops 81 = some entered ∧
      entered.pc = call ∧ Copies ops before maxStackArgs entered := by
  obtain ⟨before, hstart, hsp, hreserves⟩ := run_start ops x d sp zero mem
  obtain ⟨entered, hcopy, hcopies⟩ := hreserves.copied_words le_rfl
  exact ⟨before, entered, hstart, hreserves.pc, hsp, hcopy, hcopies.pc, hcopies⟩

/-- The copy changes memory from the new stack pointer on for sixteen words, and
the callee finds its arguments there unless they lie in that area. -/
theorem Copies.frame {entered : Cpu} (h : Copies ops before maxStackArgs entered) :
    (∀ b, ¬ InRange entered.sp (8 * maxStackArgs) b → entered.mem b = before.mem b) ∧
      ((∀ b, InRange ops.argsStack (8 * maxStackArgs) b →
          ¬ InRange entered.sp (8 * maxStackArgs) b) →
        ∀ i < maxStackArgs, load64 entered.mem (wordAddress entered.sp i) =
          load64 before.mem (wordAddress ops.argsStack i)) := by
  rw [h.mem, h.sp]
  exact ⟨fun b hb => copyWords_of_not_inRange hb,
    fun apart i hi => load64_copyWords (by decide) apart le_rfl hi⟩

/-- The third word lies at the stack pointer from before the reservation. -/
theorem Copies.not_inside {entered : Cpu} (h : Copies ops before maxStackArgs entered) :
    ¬ ∀ a ∈ entered.copied, ∀ i < 8,
      InRange entered.sp (before.sp - entered.sp).toNat (a + BitVec.ofNat 64 i) := by
  intro inside
  have hmem : wordAddress (before.sp - 16) 2 ∈ entered.copied := by
    rw [h.copied]
    exact List.mem_map.mpr ⟨2, by decide, rfl⟩
  have hin := inside _ hmem 0 (by decide)
  rw [h.sp] at hin
  unfold InRange wordAddress at hin
  bv_omega

/-- **The copy leaves its reservation** whatever `args.stack` and the stack pointer are. -/
theorem trampoline_not_frameLaw (ops : Operands) (x d : ℕ → BitVec 64) (sp : Address) (zero : Bool)
    (mem : Memory) : ∃ before entered, (Cpu.start x d sp zero mem).run ops 26 = some before ∧
      before.pc = reservation ∧ before.sp = sp ∧ before.run ops 81 = some entered ∧
      entered.pc = call ∧ ¬ FrameLaw ops before entered := by
  obtain ⟨before, entered, hstart, hpc, hsp, hcopy, hcall, hcopies⟩ :=
    trampoline_enters ops x d sp zero mem
  exact ⟨before, entered, hstart, hpc, hsp, hcopy, hcall, fun law => hcopies.not_inside law.inside⟩

/-- Memory that is zero but for the low byte of the third stack argument. -/
def oneStackArgument : Memory := fun b => if b = 0x2090 then 1 else 0

/-- The third stack argument overwrites the byte at the caller's stack pointer. -/
theorem trampoline_overwrites : ∃ before entered,
    (Cpu.start (fun _ => 0) (fun _ => 0) 0x1000 false oneStackArgument).run
      ⟨0x4000, 0x2000, 0x3000, 0x5000⟩ 26 = some before ∧
    before.run ⟨0x4000, 0x2000, 0x3000, 0x5000⟩ 81 = some entered ∧ before.sp = 0x1000 ∧
    before.mem 0x1000 = 0 ∧ entered.mem 0x1000 = 1 ∧
    ¬ FrameLaw ⟨0x4000, 0x2000, 0x3000, 0x5000⟩ before entered := by
  obtain ⟨before, entered, hstart, -, hsp, hcopy, -, -⟩ :=
    trampoline_enters ⟨0x4000, 0x2000, 0x3000, 0x5000⟩ (fun _ => 0) (fun _ => 0) 0x1000 false
      oneStackArgument
  have hbefore : ((Cpu.start (fun _ => 0) (fun _ => 0) 0x1000 false oneStackArgument).run
      ⟨0x4000, 0x2000, 0x3000, 0x5000⟩ 26).map (fun c => c.mem 0x1000) = some 0 := by decide
  have hentered : ((Cpu.start (fun _ => 0) (fun _ => 0) 0x1000 false oneStackArgument).run
      ⟨0x4000, 0x2000, 0x3000, 0x5000⟩ (26 + 81)).map (fun c => c.mem 0x1000) = some 1 := by decide
  rw [hstart, Option.map_some, Option.some.injEq] at hbefore
  rw [Cpu.run_add, hstart, Option.bind_some, hcopy, Option.map_some, Option.some.injEq] at hentered
  refine ⟨before, entered, hstart, hcopy, hsp, hbefore, hentered, fun law => ?_⟩
  -- the byte lies at the stack pointer, and the law keeps it
  have hkept := law.unchanged 0x1000 (by rw [hsp])
  rw [hbefore, hentered] at hkept
  exact absurd hkept (by decide)

end RpcProject.Calls
