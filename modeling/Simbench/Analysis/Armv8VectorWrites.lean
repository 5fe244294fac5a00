import Simbench.Analysis.Armv8VectorFrames

/-!
# What the ARMv8 exception vectors write

Behind the handler the vectors only load. What a synchronous vector has stored by then is the
256 bytes below the stack pointer and the eight bytes of X30 at `armv8_backup_lr`, where the
`.word` reserves four; the bytes behind the `.word` change unless they hold the upper half of X30
already or belong to the stack.
-/

set_option autoImplicit false

namespace Simbench.Analysis.Armv8VectorWrites

open Simbench.Library.ByteCopies (InRange)
open Simbench.Library.ByteWords Simbench.Program.Armv8Vectors
open Simbench.Analysis.Armv8VectorFrames

/-! ## Loads -/

/-- INTERNAL: instructions that only read memory. -/
def Instruction.Loads : Instruction → Prop
  | .ldp _ _ | .ldrSymbol _ _ | .ldr _ _ => True
  | .stp _ _ | .str _ _ => False

/-- INTERNAL: steps that only read memory: no store, and no call of a handler. -/
def Step.Loads : Step → Prop
  | .plain i => Instruction.Loads i
  | .bl _ body => ∀ i ∈ body, Instruction.Loads i
  | .blr _ _ => False
  | .cmpBne => True

/-- INTERNAL: an instruction that only reads leaves memory alone. -/
theorem exec_mem {i : Instruction} (h : Instruction.Loads i) (s : Machine) :
    (exec s i).mem = s.mem := by
  cases i with
  | stp a b => exact h.elim
  | str a base => exact h.elim
  | ldp a b => rfl
  | ldrSymbol a symbol => rfl
  | ldr a base => rfl

/-- INTERNAL: a routine of instructions that only read leaves memory alone. -/
theorem runBody_mem {body : List Instruction} (h : ∀ i ∈ body, Instruction.Loads i) (s : Machine) :
    (runBody s body).mem = s.mem := by
  induction body generalizing s with
  | nil => rfl
  | cons i body ih =>
    rw [List.forall_mem_cons] at h
    have hnext : runBody s (i :: body) = runBody (exec s i) body := rfl
    rw [hnext, ih h.2, exec_mem h.1]

/-- INTERNAL: a step that only reads leaves memory alone. -/
theorem execStep_mem {step : Step} (h : Step.Loads step) {s s' : Machine}
    (hstep : execStep s step = .ok s') : s'.mem = s.mem := by
  cases step with
  | plain i =>
    obtain rfl := Except.ok.inj hstep
    exact exec_mem h s
  | bl behind body =>
    have hbody := runBody_mem h { s with x := Function.update s.x 30 behind }
    unfold execStep at hstep
    dsimp only at hstep
    split at hstep
    · rw [← Except.ok.inj hstep]
      exact hbody
    · cases hstep
  | blr behind fn => exact h.elim
  | cmpBne =>
    have htest : (if s.x 0 = 0 then Except.ok s else .error Halt.abort) = .ok s' := hstep
    split at htest
    · rw [← Except.ok.inj htest]
    · cases htest

/-- INTERNAL: **steps that only load** leave the memory alone. Induction on the steps. -/
theorem run_mem {code : List Step} (h : ∀ step ∈ code, Step.Loads step) {s r : Machine}
    (hrun : run code s = .ok r) : r.mem = s.mem := by
  induction code generalizing s with
  | nil => rw [← Except.ok.inj hrun]
  | cons step code ih =>
    rw [List.forall_mem_cons] at h
    rw [run_cons] at hrun
    cases hstep : execStep s step with
    | error halt =>
      rw [hstep] at hrun
      cases hrun
    | ok s' =>
      rw [hstep] at hrun
      rw [ih h.2 hrun, execStep_mem h.1 hstep]

/-! ## A synchronous vector -/

section Synchronous

variable {text : Text} {v : Vector} {fn : Handler} {s r : Machine}

/-- INTERNAL: behind its handler a synchronous vector writes nothing more. -/
theorem mem_of_run (hv : v ≠ .el1LowerIrq) (hrun : run (vector text fn v) s = .ok r) :
    r.mem = (fn (entered text v s)).mem := by
  have hvector : run (vector text fn v) s =
      run ([.cmpBne, .bl (text.behindRestore v) restoreState] ++
        [.plain (.ldrSymbol 0 text.armv8BackupLr), .plain (.ldr 30 0), .plain (.ldp 0 1)])
        (fn (entered text v s)) := by
    rw [run_append]
    cases v with
    | el1LowerIrq => exact absurd rfl hv
    | el1CurrentSp0Synchronous =>
      exact (run_synchronousVector text _ fn s).trans (by rw [run_to_handler]; rfl)
    | el1LowerSynchronous =>
      exact (run_synchronousVector text _ fn s).trans (by rw [run_to_handler]; rfl)
  have hrestore : ∀ i ∈ restoreState, Instruction.Loads i := by
    intro i hi
    have hpairs : restoreState = savePairs.reverse.map fun p => .ldp p.1 p.2 := rfl
    rw [hpairs] at hi
    obtain ⟨p, -, rfl⟩ := List.mem_map.mp hi
    trivial
  refine run_mem ?_ (hvector ▸ hrun)
  simp only [List.cons_append, List.nil_append, List.forall_mem_cons, List.not_mem_nil]
  exact ⟨trivial, hrestore, trivial, trivial, trivial, fun _ h => h.elim⟩

/-- INTERNAL: outside of its stack, memory at the handler's entry is that before the exception, but
for the link register in `armv8_backup_lr`. -/
theorem entered_mem (hv : v ≠ .el1LowerIrq) {y : BitVec 64} (hy : ¬ InRange (s.sp - 256) 256 y) :
    (entered text v s).mem y = store 8 text.armv8BackupLr (s.x 30) s.mem y := by
  obtain ⟨m, hentered, hsp, hmem⟩ := entered_synchronous text s hv
  have harea : s.sp - 256 = below 8 s.sp 32 := rfl
  rw [harea, show (256 : ℕ) = 8 * 32 from rfl, inRange_stack (by omega) (by omega)] at hy
  have hsaved : ¬ InRange (below 8 m.sp 30) (8 * 30) y := by
    rw [hsp, below_below, inRange_stack (by omega) (by omega)]
    omega
  have hpair : pushAll 8 [s.x 1, s.x 0] s.sp s.mem y = s.mem y := by
    have htwo : [s.x 1, s.x 0].length = 2 := rfl
    apply pushAll_of_notMem _ (by rw [htwo]; decide)
    rw [htwo, inRange_stack (by omega) (by omega)]
    omega
  rw [hentered]
  show pushAll 8 _ m.sp m.mem y = _
  rw [pushAll_of_notMem _ (by rw [length_saved]; decide) (by rwa [length_saved]), hmem, store, store,
    hpair]

/-- INTERNAL: the bytes that differ behind the vector are the stack's, or among the four that are
reserved for `armv8_backup_lr`. SRC: arch/armv8/vectors.S:466-468 -/
def WritesOwned (text : Text) (s r : Machine) : Prop :=
  ∀ y, r.mem y ≠ s.mem y → InRange (s.sp - 256) 256 y ∨ InRange text.armv8BackupLr 4 y

/-- INTERNAL: each of the four bytes behind the reserved ones is the stack's, or holds its byte of
X30 already. -/
def NextHoldsLink (text : Text) (s : Machine) : Prop :=
  ∀ k, 4 ≤ k → k < 8 → InRange (s.sp - 256) 256 (text.armv8BackupLr + BitVec.ofNat 64 k) ∨
    s.mem (text.armv8BackupLr + BitVec.ofNat 64 k) = (s.x 30).extractLsb' (8 * k) 8

/-- INTERNAL: the memory behind the vector, outside of the stack. -/
theorem mem_outside (hv : v ≠ .el1LowerIrq)
    (hfn : (fn (entered text v s)).mem = (entered text v s).mem)
    (hrun : run (vector text fn v) s = .ok r) {y : BitVec 64} (hy : ¬ InRange (s.sp - 256) 256 y) :
    r.mem y = store 8 text.armv8BackupLr (s.x 30) s.mem y := by
  rw [mem_of_run hv hrun, hfn, entered_mem hv hy]

/-- INTERNAL: a synchronous vector that writes owned bytes only finds the upper half of the link
register behind the `.word` already. -/
theorem WritesOwned.nextHoldsLink (hv : v ≠ .el1LowerIrq)
    (hfn : (fn (entered text v s)).mem = (entered text v s).mem)
    (hrun : run (vector text fn v) s = .ok r) (h : WritesOwned text s r) :
    NextHoldsLink text s := by
  intro k hlow hhigh
  by_cases harea : InRange (s.sp - 256) 256 (text.armv8BackupLr + BitVec.ofNat 64 k)
  · exact .inl harea
  refine .inr ?_
  have hbyte := mem_outside hv hfn hrun harea
  rw [store_add hhigh (by decide)] at hbyte
  rw [← hbyte]
  by_contra hchanged
  obtain harea' | hreserved := h _ (Ne.symm hchanged)
  · exact harea harea'
  · rw [InRange, toNat_add_ofNat_sub _ (by omega)] at hreserved
    omega

/-- INTERNAL: where these bytes hold it already, the store of eight bytes changes the owned four
only. -/
theorem NextHoldsLink.writesOwned (hv : v ≠ .el1LowerIrq)
    (hfn : (fn (entered text v s)).mem = (entered text v s).mem)
    (hrun : run (vector text fn v) s = .ok r) (h : NextHoldsLink text s) :
    WritesOwned text s r := by
  intro y hchanged
  by_contra hout
  rw [not_or] at hout
  obtain ⟨harea, hreserved⟩ := hout
  apply hchanged
  rw [mem_outside hv hfn hrun harea]
  by_cases hword : InRange text.armv8BackupLr 8 y
  · have hplace : y = text.armv8BackupLr + BitVec.ofNat 64 (y - text.armv8BackupLr).toNat := by
      rw [BitVec.ofNat_toNat, BitVec.setWidth_eq, BitVec.add_comm, BitVec.sub_add_cancel]
    unfold InRange at hword hreserved
    generalize (y - text.armv8BackupLr).toNat = k at hplace hword hreserved
    subst hplace
    rw [store_add hword (by decide)]
    exact ((h k (by omega) hword).resolve_left harea).symm
  · exact store_of_notMem hword _ _

end Synchronous

/-- SOURCE: arch/armv8/vectors.S:11-26,288-303,427-469 — **what a synchronous exception writes**:
a vector whose handler writes nothing changes only bytes of the stack and of `armv8_backup_lr`
exactly when the four bytes behind the `.word` are bytes of the stack, or hold the upper half of
X30 before it. -/
theorem synchronous_writesOwned_iff (text : Text) (v : Vector) (fn : Handler) (s r : Machine)
    (hv : v ≠ .el1LowerIrq) (hfn : (fn (entered text v s)).mem = (entered text v s).mem)
    (hrun : run (vector text fn v) s = .ok r) : WritesOwned text s r ↔ NextHoldsLink text s :=
  ⟨fun h => h.nextHoldsLink hv hfn hrun, fun h => h.writesOwned hv hfn hrun⟩

/-- INTERNAL: a system call of a kernel whose handler writes nothing comes back. -/
theorem exists_run (backup : Word) (s : Machine) :
    ∃ r, run (vector (textAt backup) (clobbering 0 fun mem => mem) .el1LowerSynchronous) s =
      .ok r := by
  have hhandles : Handles (clobbering 0 fun mem => mem)
      (entered (textAt backup) .el1LowerSynchronous s) :=
    handles_clobbering rfl fun _ _ => rfl
  obtain ⟨r, hrun, -⟩ :=
    run_vector_synchronous (v := .el1LowerSynchronous) (by decide) rfl hhandles.sp fun _ _ => rfl
  exact ⟨r, hrun⟩

/-- SOURCE: arch/armv8/vectors.S:288-303 — X30 is 30, in memory full of zeros. -/
theorem synchronous_writesOwned_zeros :
    ∃ r, run (vector (textAt 0x40201004) (clobbering 0 fun mem => mem) .el1LowerSynchronous)
        { interrupted with mem := fun _ => 0 } = .ok r ∧
      WritesOwned (textAt 0x40201004) { interrupted with mem := fun _ => 0 } r := by
  obtain ⟨r, hrun⟩ := exists_run 0x40201004 { interrupted with mem := fun _ => 0 }
  refine ⟨r, hrun, (synchronous_writesOwned_iff _ _ _ _ _ (by decide) rfl hrun).mpr ?_⟩
  intro k hlow hhigh
  obtain rfl | rfl | rfl | rfl : k = 4 ∨ k = 5 ∨ k = 6 ∨ k = 7 := by omega
  all_goals exact .inr (by decide)

/-- SOURCE: arch/armv8/vectors.S:288-303,466-468 — in memory full of 0xff, the byte behind the
`.word` is overwritten. -/
theorem synchronous_not_writesOwned :
    ∃ r, run (vector (textAt 0x40201004) (clobbering 0 fun mem => mem) .el1LowerSynchronous)
        interrupted = .ok r ∧ ¬ WritesOwned (textAt 0x40201004) interrupted r := by
  obtain ⟨r, hrun⟩ := exists_run 0x40201004 interrupted
  refine ⟨r, hrun, fun h => ?_⟩
  have hnext := h.nextHoldsLink (by decide) rfl hrun 4 (Nat.le_refl 4) (by decide)
  revert hnext
  decide

end Simbench.Analysis.Armv8VectorWrites
