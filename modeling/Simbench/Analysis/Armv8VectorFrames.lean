import Simbench.Program.Armv8Vectors

/-!
# What the ARMv8 exception vectors keep

The helpers save and restore the registers in mirrored order, with the ones the vector itself
has changed already: X0, and X30, which `bl` changes. The interrupted values of these lie in
the two words above, and X30 of a synchronous exception in `armv8_backup_lr`.
-/

set_option autoImplicit false

namespace Simbench.Analysis.Armv8VectorFrames

open Simbench.Library.ByteCopies (InRange)
open Simbench.Library.ByteWords Simbench.Program.Armv8Vectors

/-! ## Pairs -/

/-- INTERNAL: two words below the stack pointer is sixteen bytes below it. -/
theorem below_two (sp : Word) : below 8 sp 2 = sp - 16 := rfl

/-- INTERNAL: a pair is two words, the second one pushed first. -/
theorem exec_stp (s : Machine) (a b : Reg) :
    exec s (.stp a b) =
      { s with sp := below 8 s.sp 2, mem := pushAll 8 [s.x b, s.x a] s.sp s.mem } := by
  unfold exec
  simp only [pushAll, ← below_two, ← below_eight, below_below]

/-- INTERNAL: a load of a pair pops two words. -/
theorem exec_ldp (s : Machine) (a b : Reg) :
    exec s (.ldp a b) = { s with x := popAll 8 [a, b] s.sp s.mem s.x, sp := s.sp + 16 } := rfl

/-- INTERNAL: the words of pairs in the order they are pushed in. -/
def pairWords (x : Reg → Word) (pairs : List (Reg × Reg)) : List Word :=
  pairs.flatMap fun p => [x p.2, x p.1]

/-- INTERNAL: stores of pairs, one after the other, push their registers in order. -/
theorem runBody_stp (pairs : List (Reg × Reg)) (s : Machine) :
    runBody s (pairs.map fun p => .stp p.1 p.2) =
      { s with
        sp := below 8 s.sp (2 * pairs.length)
        mem := pushAll 8 (pairWords s.x pairs) s.sp s.mem } := by
  induction pairs generalizing s with
  | nil => rw [List.length_nil, Nat.mul_zero, below_zero]; rfl
  | cons p pairs ih =>
    have hnext : runBody s ((p :: pairs).map fun p => .stp p.1 p.2) =
        runBody (exec s (.stp p.1 p.2)) (pairs.map fun p => .stp p.1 p.2) := rfl
    have hwords : pairWords s.x (p :: pairs) = [s.x p.2, s.x p.1] ++ pairWords s.x pairs := rfl
    rw [hnext, ih, exec_stp, hwords, pushAll_append]
    simp only [below_below, List.length_cons, List.length_nil]
    congr 2
    omega

/-- INTERNAL: the registers of pairs in the order they are popped in. -/
def pairRegs (pairs : List (Reg × Reg)) : List Reg := pairs.flatMap fun p => [p.1, p.2]

/-- INTERNAL: loads of pairs pop as many registers as they name. -/
theorem runBody_ldp (pairs : List (Reg × Reg)) (s : Machine) :
    runBody s (pairs.map fun p => .ldp p.1 p.2) =
      { s with
        x := popAll 8 (pairRegs pairs) s.sp s.mem s.x
        sp := s.sp + BitVec.ofNat 64 (8 * (2 * pairs.length)) } := by
  induction pairs generalizing s with
  | nil => simp [runBody, pairRegs, popAll]
  | cons p pairs ih =>
    have hnext : runBody s ((p :: pairs).map fun p => .ldp p.1 p.2) =
        runBody (exec s (.ldp p.1 p.2)) (pairs.map fun p => .ldp p.1 p.2) := rfl
    have hregs : pairRegs (p :: pairs) = p.1 :: p.2 :: pairRegs pairs := rfl
    have hsp : s.sp + 16 = s.sp + 8 + 8 := by rw [BitVec.add_assoc]; rfl
    rw [hnext, ih, exec_ldp, hregs]
    simp only [popAll, hsp, List.length_cons]
    congr 1
    rw [show 2 * (pairs.length + 1) = 2 * pairs.length + 1 + 1 by omega, ← above_eight,
      ← above_eight]

/-! ## The helpers -/

/-- INTERNAL: the pairs of `save_state`, in the order they are stored.
SRC: arch/armv8/vectors.S:428-444 -/
def savePairs : List (Reg × Reg) :=
  [(0, 1), (2, 3), (4, 5), (6, 7), (8, 9), (10, 11), (12, 13), (14, 15), (16, 17), (18, 19),
    (20, 21),
    (22, 23), (24, 25), (26, 27), (28, 29)]

/-- INTERNAL: the registers in the order `restore_state` loads them. -/
def savedRegs : List Reg := pairRegs savePairs.reverse

/-- INTERNAL: `save_state`. SRC: arch/armv8/vectors.S:428-444 -/
theorem runBody_saveState (s : Machine) :
    runBody s saveState =
      { s with
        sp := below 8 s.sp 30
        mem := pushAll 8 (savedRegs.reverse.map s.x) s.sp s.mem } := by
  have hpairs : saveState = savePairs.map fun p => .stp p.1 p.2 := rfl
  rw [hpairs, runBody_stp]
  rfl

/-- INTERNAL: `restore_state`. SRC: arch/armv8/vectors.S:446-462 -/
theorem runBody_restoreState (s : Machine) :
    runBody s restoreState =
      { s with
        x := popAll 8 savedRegs s.sp s.mem s.x
        sp := s.sp + BitVec.ofNat 64 (8 * 30) } := by
  have hpairs : restoreState = savePairs.reverse.map fun p => .ldp p.1 p.2 := rfl
  rw [hpairs, runBody_ldp, savedRegs, List.length_reverse]
  rfl

/-- INTERNAL: all registers but X30 are saved. -/
theorem mem_savedRegs : ∀ r : Reg, r ∈ savedRegs ↔ r ≠ 30 := by decide

/-- INTERNAL: no register is saved twice. -/
theorem nodup_savedRegs : savedRegs.Nodup := by decide

/-- INTERNAL: thirty words are saved, X0 to X29. -/
theorem length_saved (f : Reg → Word) : (savedRegs.reverse.map f).length = 30 := rfl

/-! ## Around the handler -/

/-- INTERNAL: a run makes its first step and goes on from there. -/
theorem run_cons (step : Step) (code : List Step) (s : Machine) :
    run (step :: code) s = execStep s step >>= run code := rfl

/-- INTERNAL: code behind code runs from where the first ends. -/
theorem run_append (code code' : List Step) (s : Machine) :
    run (code ++ code') s = run code s >>= run code' := by
  unfold run
  rw [List.foldlM_append]

/-- INTERNAL: the state the handler is entered in when a vector calls it in state `m`. -/
def called (text : Text) (v : Vector) (handler : Word) (m : Machine) : Machine where
  x := Function.update (Function.update (Function.update m.x 30 (text.behindSave v)) 0 handler) 30
    (text.behindHandler v)
  sp := below 8 m.sp 30
  mem := pushAll 8 (savedRegs.reverse.map (Function.update m.x 30 (text.behindSave v))) m.sp m.mem

section Calls

variable {text : Text} {v : Vector} {handler : Word} {fn : Handler} {m : Machine}

/-- INTERNAL: the call of a helper that keeps X30 comes back. -/
theorem execStep_bl {body : List Instruction} (behind : Word) {s s' : Machine}
    (hbody : runBody { s with x := Function.update s.x 30 behind } body = s')
    (hx : s'.x 30 = behind) : execStep s (.bl behind body) = .ok s' := by
  unfold execStep
  dsimp only
  rw [hbody, if_pos hx]

/-- INTERNAL: from the call of `save_state` up to the handler: the registers saved, X30 behind the
call. -/
theorem run_to_handler :
    run (callHandler text v handler fn) m =
      run [.cmpBne, .bl (text.behindRestore v) restoreState] (fn (called text v handler m)) := by
  have hsave := execStep_bl (text.behindSave v) (s := m)
    (runBody_saveState { m with x := Function.update m.x 30 (text.behindSave v) })
    (by simp only [Function.update_self])
  unfold callHandler
  rw [run_cons, hsave]
  rfl

/-- INTERNAL: a handler that returns anything but zero ends in the abort. -/
theorem run_callHandler_abort (hresult : (fn (called text v handler m)).x 0 ≠ 0) :
    run (callHandler text v handler fn) m = .error .abort := by
  rw [run_to_handler, run_cons]
  unfold execStep
  rw [if_neg hresult]
  rfl

/-- INTERNAL: **the call**: with the saved words in place, all registers but X30 come back. -/
theorem run_callHandler (hresult : (fn (called text v handler m)).x 0 = 0)
    (hsp : (fn (called text v handler m)).sp = (called text v handler m).sp)
    (hsaved : ∀ y, InRange (called text v handler m).sp 240 y →
      (fn (called text v handler m)).mem y = (called text v handler m).mem y) :
    ∃ r, run (callHandler text v handler fn) m = .ok r ∧ r.sp = m.sp ∧
      r.mem = (fn (called text v handler m)).mem ∧ ∀ i : Reg, i ≠ 30 → r.x i = m.x i := by
  generalize hreturned : fn (called text v handler m) = returned at hresult hsp hsaved
  have htest : execStep returned .cmpBne = .ok returned := by
    unfold execStep
    rw [if_pos hresult]
  have hnot : (30 : Reg) ∉ savedRegs := fun h => (mem_savedRegs 30).mp h rfl
  have hrestore := execStep_bl (text.behindRestore v) (s := returned)
    (runBody_restoreState { returned with x := Function.update returned.x 30 (text.behindRestore v) })
    (by simp only [popAll_of_notMem hnot, Function.update_self])
  have hrun : run (callHandler text v handler fn) m =
      execStep returned (.bl (text.behindRestore v) restoreState) >>= run [] := by
    rw [run_to_handler, hreturned, run_cons, htest]
    rfl
  rw [hrestore] at hrun
  refine ⟨_, hrun, ?_, rfl, fun i hi => ?_⟩
  · show returned.sp + _ = _
    rw [hsp]
    exact BitVec.sub_add_cancel _ _
  · show popAll 8 savedRegs returned.sp returned.mem _ i = m.x i
    have hwords : ∀ j < savedRegs.length,
        load returned.mem 8 (returned.sp + BitVec.ofNat 64 (8 * j)) =
          load (called text v handler m).mem 8 (returned.sp + BitVec.ofNat 64 (8 * j)) := by
      intro j hj
      refine load_congr (by decide) fun y hy => hsaved y ?_
      rw [show savedRegs.length = 30 from rfl] at hj
      rw [inRange_offset (by omega)] at hy
      rw [← hsp, InRange]
      omega
    rw [popAll_congr savedRegs _ _ hwords, hsp]
    have hregs := popAll_pushAll nodup_savedRegs ((mem_savedRegs i).mpr hi) m.sp m.mem
      (Function.update m.x 30 (text.behindSave v))
      (Function.update returned.x 30 (text.behindRestore v)) (n := 8) (by decide)
    rw [Function.update_of_ne hi] at hregs
    exact hregs

end Calls

/-! ## The vectors -/

/-- INTERNAL: the state a vector calls `save_state` in. -/
def beforeSave (text : Text) (v : Vector) (s : Machine) : Machine :=
  match v with
  | .el1LowerIrq => { s with sp := below 8 s.sp 2, mem := pushAll 8 [s.x 30, s.x 0] s.sp s.mem }
  | _ =>
    { x := Function.update s.x 0 text.armv8BackupLr
      sp := below 8 s.sp 2
      mem := store 8 text.armv8BackupLr (s.x 30) (pushAll 8 [s.x 1, s.x 0] s.sp s.mem) }

/-- INTERNAL: the state its C handler is entered in. -/
def entered (text : Text) (v : Vector) (s : Machine) : Machine :=
  match v with
  | .el1LowerIrq => called text v text.el1LowerIrqHandler (beforeSave text v s)
  | _ => called text v text.el1LowerSyncHandler (beforeSave text v s)

section Vectors

variable {text : Text} {v : Vector} {fn : Handler} {s : Machine}

/-- INTERNAL: a synchronous vector saves X0, X1 and the link register in `armv8_backup_lr`, calls
the handler and loads them back. -/
theorem run_synchronousVector (text : Text) (v : Vector) (fn : Handler) (s : Machine) :
    run (synchronousVector text v fn) s =
      run (callHandler text v text.el1LowerSyncHandler fn)
        { x := Function.update s.x 0 text.armv8BackupLr
          sp := below 8 s.sp 2
          mem := store 8 text.armv8BackupLr (s.x 30) (pushAll 8 [s.x 1, s.x 0] s.sp s.mem) } >>=
        run [.plain (.ldrSymbol 0 text.armv8BackupLr), .plain (.ldr 30 0), .plain (.ldp 0 1)] := by
  have hbefore : run [.plain (.stp 0 1), .plain (.ldrSymbol 0 text.armv8BackupLr),
      .plain (.str 30 0)] s = .ok
        { x := Function.update s.x 0 text.armv8BackupLr
          sp := below 8 s.sp 2
          mem := store 8 text.armv8BackupLr (s.x 30) (pushAll 8 [s.x 1, s.x 0] s.sp s.mem) } := by
    show Except.ok (exec (exec (exec s (.stp 0 1)) _) _) = _
    rw [exec_stp]
    simp [exec]
  unfold synchronousVector
  rw [run_append, run_append, hbefore]
  rfl

/-- INTERNAL: **a synchronous vector** ends with the words it finds where it has left them. -/
theorem run_vector_synchronous (hv : v ≠ .el1LowerIrq) (hresult : (fn (entered text v s)).x 0 = 0)
    (hsp : (fn (entered text v s)).sp = (entered text v s).sp)
    (hsaved : ∀ y, InRange (entered text v s).sp 240 y →
      (fn (entered text v s)).mem y = (entered text v s).mem y) :
    ∃ r, run (vector text fn v) s = .ok r ∧ r.sp = s.sp ∧
      r.x 0 = load (fn (entered text v s)).mem 8 (below 8 s.sp 2) ∧
      r.x 1 = load (fn (entered text v s)).mem 8 (below 8 s.sp 1) ∧
      r.x 30 = load (fn (entered text v s)).mem 8 text.armv8BackupLr ∧
      ∀ i : Reg, i ≠ 0 → i ≠ 1 → i ≠ 30 → r.x i = s.x i := by
  have hentered : entered text v s =
      called text v text.el1LowerSyncHandler (beforeSave text v s) := by
    cases v with
    | el1LowerIrq => exact absurd rfl hv
    | _ => rfl
  rw [hentered] at hresult hsp hsaved ⊢
  obtain ⟨r, hrun, hrsp, hrmem, hrx⟩ := run_callHandler hresult hsp hsaved
  have hvector : run (vector text fn v) s =
      run (callHandler text v text.el1LowerSyncHandler fn) (beforeSave text v s) >>=
        run [.plain (.ldrSymbol 0 text.armv8BackupLr), .plain (.ldr 30 0), .plain (.ldp 0 1)] := by
    cases v with
    | el1LowerIrq => exact absurd rfl hv
    | el1CurrentSp0Synchronous => exact run_synchronousVector text _ fn s
    | el1LowerSynchronous => exact run_synchronousVector text _ fn s
  have hbefore : (beforeSave text v s).sp = below 8 s.sp 2 ∧
      ∀ i : Reg, i ≠ 0 → (beforeSave text v s).x i = s.x i := by
    cases v with
    | el1LowerIrq => exact absurd rfl hv
    | el1CurrentSp0Synchronous => exact ⟨rfl, fun i hi => Function.update_of_ne hi _ _⟩
    | el1LowerSynchronous => exact ⟨rfl, fun i hi => Function.update_of_ne hi _ _⟩
  rw [hrun] at hvector
  rw [hbefore.1] at hrsp
  have hend : run [.plain (.ldrSymbol 0 text.armv8BackupLr), .plain (.ldr 30 0), .plain (.ldp 0 1)] r =
      .ok (exec { r with
        x := Function.update (Function.update r.x 0 text.armv8BackupLr) 30
          (load r.mem 8 text.armv8BackupLr) } (.ldp 0 1)) := by
    show Except.ok (exec (exec (exec r _) _) _) = _
    simp [exec]
  have hfirst : r.sp + 8 = below 8 s.sp 1 := by
    rw [hrsp]
    exact below_eight_add s.sp 1
  rw [← hrmem, ← hrsp, ← hfirst]
  refine ⟨_, hvector.trans hend, ?_, ?_, ?_, ?_, ?_⟩
  · show r.sp + 16 = s.sp
    rw [hrsp]
    exact BitVec.sub_add_cancel _ _
  · simp [exec]
  · simp [exec]
  · simp [exec]
  · intro i hzero hone hlink
    simp [exec, Function.update_of_ne hzero, Function.update_of_ne hone,
      Function.update_of_ne hlink,
      hrx i hlink, hbefore.2 i hzero]

/-- INTERNAL: **the interrupt vector**: a handler that returns 0 and keeps the saved words comes
back to every register, with the words on its stack. -/
theorem run_vector_irq (hresult : (fn (entered text .el1LowerIrq s)).x 0 = 0)
    (hsp : (fn (entered text .el1LowerIrq s)).sp = (entered text .el1LowerIrq s).sp)
    (hsaved : ∀ y, InRange (entered text .el1LowerIrq s).sp 240 y →
      (fn (entered text .el1LowerIrq s)).mem y = (entered text .el1LowerIrq s).mem y) :
    ∃ r, run (vector text fn .el1LowerIrq) s = .ok r ∧ r.sp = s.sp ∧
      r.x 0 = load (fn (entered text .el1LowerIrq s)).mem 8 (below 8 s.sp 2) ∧
      r.x 30 = load (fn (entered text .el1LowerIrq s)).mem 8 (below 8 s.sp 1) ∧
      ∀ i : Reg, i ≠ 0 → i ≠ 30 → r.x i = s.x i := by
  obtain ⟨r, hrun, hrsp, hrmem, hrx⟩ := run_callHandler hresult hsp hsaved
  have hvector : run (vector text fn .el1LowerIrq) s =
      run (callHandler text .el1LowerIrq text.el1LowerIrqHandler fn)
        (beforeSave text .el1LowerIrq s) >>= run [.plain (.ldp 0 30)] := by
    have hbefore : run [.plain (.stp 0 30)] s = .ok (beforeSave text .el1LowerIrq s) := by
      show Except.ok (exec s (.stp 0 30)) = _
      rw [exec_stp]
      rfl
    unfold vector el1LowerIrqVector
    rw [run_append, run_append, hbefore]
    rfl
  have hrsp' : r.sp = below 8 s.sp 2 := hrsp
  have hfirst : r.sp + 8 = below 8 s.sp 1 := by
    rw [hrsp']
    exact below_eight_add s.sp 1
  rw [hrun] at hvector
  have hend : run [.plain (.ldp 0 30)] r = .ok (exec r (.ldp 0 30)) := rfl
  have hmem : (fn (entered text .el1LowerIrq s)).mem = r.mem := hrmem.symm
  rw [hmem, ← hrsp', ← hfirst]
  refine ⟨_, hvector.trans hend, ?_, ?_, ?_, ?_⟩
  · show r.sp + 16 = s.sp
    rw [hrsp']
    exact BitVec.sub_add_cancel _ _
  · simp [exec]
  · simp [exec]
  · intro i hzero hlink
    simp [exec, Function.update_of_ne hzero, Function.update_of_ne hlink, hrx i hlink]
    rfl

/-! ## What is kept -/

/-- INTERNAL: the saved area and the variable of the synchronous vectors lie apart. -/
def Apart (text : Text) (v : Vector) (s : Machine) : Prop :=
  v ≠ .el1LowerIrq → ∀ y, InRange (s.sp - 256) 256 y → ¬ InRange text.armv8BackupLr 8 y

/-- INTERNAL: a C function that returns the `int` 0, restores the stack pointer, and leaves the
saved area and X19 to X29 alone. SRC: arch/armv8/exception.c:94-123 -/
structure Handles (fn : Handler) (e : Machine) : Prop where
  result : ((fn e).x 0).setWidth 32 = 0#32
  sp : (fn e).sp = e.sp
  saved : ∀ y, InRange e.sp 256 y → (fn e).mem y = e.mem y
  calleeSaved : ∀ i : Reg, 19 ≤ i.val → i.val ≤ 29 → (fn e).x i = e.x i

/-- INTERNAL: it leaves `armv8_backup_lr` alone too, as it is declared: the four bytes of a `.word`.
SRC: arch/armv8/vectors.S:466-468 -/
structure HandlesDeclared (text : Text) (fn : Handler) (e : Machine) : Prop
    extends Handles fn e where
  backup : ∀ y, InRange text.armv8BackupLr 4 y → (fn e).mem y = e.mem y

/-- INTERNAL: the area of `save_state` is the lower part of what a handler keeps. -/
theorem Handles.savedRegs {fn : Handler} {e : Machine} (h : Handles fn e) :
    ∀ y, InRange e.sp 240 y → (fn e).mem y = e.mem y := by
  intro y hy
  apply h.saved
  unfold InRange at hy ⊢
  omega

/-- INTERNAL: the vector gets to its `eret` with all registers and the stack pointer as they
were. -/
def Preserves (text : Text) (v : Vector) (fn : Handler) (s : Machine) : Prop :=
  ∃ r, run (vector text fn v) s = .ok r ∧ r.x = s.x ∧ r.sp = s.sp

/-- INTERNAL: a handler is entered 256 bytes below the interrupted stack pointer, by every
vector. -/
theorem entered_sp (text : Text) (v : Vector) (s : Machine) :
    (entered text v s).sp = s.sp - 256 := by
  cases v with
  | el1LowerIrq => exact below_below 8 s.sp 2 30
  | el1CurrentSp0Synchronous => exact below_below 8 s.sp 2 30
  | el1LowerSynchronous => exact below_below 8 s.sp 2 30

/-- INTERNAL: each saved word lies in these 256 bytes. -/
theorem mem_area {n : ℕ} (hn : n < 32) {y : BitVec 64} (hy : InRange (below 8 s.sp (n + 1)) 8 y) :
    InRange (s.sp - 256) 256 y := by
  have harea : s.sp - 256 = below 8 s.sp 32 := rfl
  rw [inRange_word (by omega) (by omega)] at hy
  rw [harea, show (256 : ℕ) = 8 * 32 from rfl, inRange_stack (by omega) (by omega)]
  omega

/-- INTERNAL: words the handler has left alone. -/
theorem load_kept (hfn : ∀ y, InRange (s.sp - 256) 256 y →
      (fn (entered text v s)).mem y = (entered text v s).mem y) {n : ℕ} (hn : n < 32) :
    load (fn (entered text v s)).mem 8 (below 8 s.sp (n + 1)) =
      load (entered text v s).mem 8 (below 8 s.sp (n + 1)) := by
  exact load_congr (by decide) fun y hy => hfn y (mem_area hn hy)

/-- INTERNAL: the two words above the area of `save_state`. -/
theorem load_entered_pair (text : Text) (v : Vector) (handler w₀ w₁ : Word) {m : Machine}
    (hsp : m.sp = below 8 s.sp 2)
    (hmem : ∀ n < 2, load m.mem 8 (below 8 s.sp (n + 1)) = load (pushAll 8 [w₀, w₁] s.sp s.mem) 8
      (below 8 s.sp (n + 1))) :
    load (called text v handler m).mem 8 (below 8 s.sp 1) = w₀ ∧
      load (called text v handler m).mem 8 (below 8 s.sp 2) = w₁ := by
  have habove : ∀ n < 2, load (called text v handler m).mem 8 (below 8 s.sp (n + 1)) =
      load (pushAll 8 [w₀, w₁] s.sp s.mem) 8 (below 8 s.sp (n + 1)) := by
    intro n hn
    rw [← hmem n hn]
    apply load_pushAll_of_apart (by decide) _ (by rw [length_saved]; decide)
    intro y hy
    rw [inRange_word (by omega) (by omega)] at hy
    rw [length_saved, hsp, below_below, inRange_stack (by omega) (by omega)]
    omega
  have hpushed : ∀ i (hi : i < 2), load (pushAll 8 [w₀, w₁] s.sp s.mem) 8 (below 8 s.sp (i + 1)) =
      [w₀, w₁][i] := fun i hi => load_pushAll (n := 8) _ _ _ (show 8 * 2 ≤ _ by decide) hi
  exact ⟨(habove 0 (by decide)).trans (hpushed 0 (by decide)),
    (habove 1 (by decide)).trans (hpushed 1 (by decide))⟩

/-- INTERNAL: what a synchronous vector does before it saves the registers. -/
theorem entered_synchronous (text : Text) (s : Machine) {v : Vector} (hv : v ≠ .el1LowerIrq) : ∃ m,
    entered text v s = called text v text.el1LowerSyncHandler m ∧ m.sp = below 8 s.sp 2 ∧
      m.mem = store 8 text.armv8BackupLr (s.x 30) (pushAll 8 [s.x 1, s.x 0] s.sp s.mem) := by
  cases v with
  | el1LowerIrq => exact absurd rfl hv
  | el1CurrentSp0Synchronous => exact ⟨_, rfl, rfl, rfl⟩
  | el1LowerSynchronous => exact ⟨_, rfl, rfl, rfl⟩

/-- INTERNAL: what a synchronous vector has stored when the handler is entered. -/
theorem load_entered_synchronous (hv : v ≠ .el1LowerIrq) (hapart : Apart text v s) :
    load (entered text v s).mem 8 (below 8 s.sp 1) = s.x 1 ∧
      load (entered text v s).mem 8 (below 8 s.sp 2) = s.x 0 ∧
      load (entered text v s).mem 8 text.armv8BackupLr = s.x 30 := by
  have hapart := hapart hv
  obtain ⟨m, hentered, hsp, hmem⟩ := entered_synchronous text s hv
  rw [hentered]
  have hpair := load_entered_pair text v text.el1LowerSyncHandler (s.x 1) (s.x 0) hsp fun n hn => by
    rw [hmem]
    exact load_store_of_apart (by decide) (fun y hy => hapart y (mem_area (by omega) hy)) _ _
  refine ⟨hpair.1, hpair.2, ?_⟩
  have hoff : ∀ y, InRange text.armv8BackupLr 8 y → ¬ InRange (below 8 m.sp 30) (8 * 30) y := by
    intro y hy harea
    refine hapart y ?_ hy
    rw [hsp, below_below, inRange_stack (by omega) (by omega)] at harea
    rw [show s.sp - 256 = below 8 s.sp 32 from rfl, show (256 : ℕ) = 8 * 32 from rfl,
      inRange_stack (by omega) (by omega)]
    omega
  show load (pushAll 8 _ m.sp m.mem) 8 _ = _
  rw [load_pushAll_of_apart (by decide) _ (by rw [length_saved]; decide) (by rwa [length_saved]),
    hmem, load_store (by decide)]

/-- INTERNAL: the IRQ vector keeps the link register and X0 in the first two words of its area. -/
theorem load_entered_irq :
    load (entered text .el1LowerIrq s).mem 8 (below 8 s.sp 1) = s.x 30 ∧
      load (entered text .el1LowerIrq s).mem 8 (below 8 s.sp 2) = s.x 0 :=
  load_entered_pair text .el1LowerIrq text.el1LowerIrqHandler (s.x 30) (s.x 0) rfl fun _ _ => rfl

/-- SOURCE: arch/armv8/vectors.S:11-28,288-335,426-468 — **exception vectors**: a handler that
leaves 0 in the whole of X0, restores the stack pointer and keeps the 256 bytes below the
interrupted one returns to the interrupted registers and stack pointer. The synchronous vectors
need two more things: the eight bytes they use at `armv8_backup_lr` lie outside these 256, and
the handler keeps them too. -/
theorem vector_preserves (text : Text) (v : Vector) (fn : Handler) (s : Machine)
    (hapart : Apart text v s) (hfn : Handles fn (entered text v s))
    (hresult : (fn (entered text v s)).x 0 = 0)
    (hbackup : v ≠ .el1LowerIrq → ∀ y, InRange text.armv8BackupLr 8 y →
      (fn (entered text v s)).mem y = (entered text v s).mem y) : Preserves text v fn s := by
  have hkept : ∀ y, InRange (s.sp - 256) 256 y →
      (fn (entered text v s)).mem y = (entered text v s).mem y := by
    intro y hy
    apply hfn.saved
    rwa [entered_sp]
  have hsaved := hfn.savedRegs
  have hfirst := load_kept hkept (n := 0) (by decide)
  have hsecond := load_kept hkept (n := 1) (by decide)
  by_cases hv : v = .el1LowerIrq
  · subst hv
    obtain ⟨r, hrun, hsp, hzero, hlink, hrest⟩ := run_vector_irq hresult hfn.sp hsaved
    refine ⟨r, hrun, ?_, hsp⟩
    funext i
    by_cases hi : i = 0
    · rw [hi, hzero, hsecond, load_entered_irq.2]
    · by_cases hi' : i = 30
      · rw [hi', hlink, hfirst, load_entered_irq.1]
      · exact hrest i hi hi'
  · obtain ⟨r, hrun, hsp, hzero, hone, hlink, hrest⟩ :=
      run_vector_synchronous hv hresult hfn.sp hsaved
    obtain ⟨hword₁, hword₀, hword⟩ := load_entered_synchronous hv hapart
    refine ⟨r, hrun, ?_, hsp⟩
    funext i
    by_cases hi : i = 0
    · rw [hi, hzero, hsecond, hword₀]
    · by_cases hi' : i = 1
      · rw [hi', hone, hfirst, hword₁]
      · by_cases hi'' : i = 30
        · rw [hi'', hlink, load_congr (by decide) (hbackup hv), hword]
        · exact hrest i hi hi' hi''

end Vectors

/-- INTERNAL: a build with `armv8_backup_lr` at an address. -/
def textAt (backup : Word) : Text where
  armv8BackupLr := backup
  el1LowerSyncHandler := 0x40080000
  el1LowerIrqHandler := 0x40080100
  behindSave _ := 0x40000410
  behindHandler _ := 0x40000418
  behindRestore _ := 0x40000424

/-- INTERNAL: X`i` holds `i`, and the stack is empty. -/
def interrupted : Machine where
  x i := BitVec.ofNat 64 i.val
  sp := 0x40320000
  mem _ := 0xff

/-- INTERNAL: a handler that leaves `result` in X0, nothing in X1 to X18 and X30, and changes the
memory by `f`. -/
def clobbering (result : Word) (f : Bytes 64 → Bytes 64) : Handler := fun e =>
  { e with
    x := fun i => if i = 0 then result else if 19 ≤ i.val ∧ i.val ≤ 29 then e.x i else 0xdead
    mem := f e.mem }

/-- INTERNAL: a handler that returns zero and keeps the saved area does what the vectors ask of
it. -/
theorem handles_clobbering {result : Word} {f : Bytes 64 → Bytes 64} {e : Machine}
    (hresult : result.setWidth 32 = 0#32) (hsaved : ∀ y, InRange e.sp 256 y → f e.mem y = e.mem y) :
    Handles (clobbering result f) e := by
  refine ⟨hresult, rfl, hsaved, fun i hlow hhigh => ?_⟩
  have hzero : i ≠ 0 := by
    rintro rfl
    exact absurd hlow (by decide)
  show (if i = 0 then result else if 19 ≤ i.val ∧ i.val ≤ 29 then e.x i else 0xdead) = e.x i
  rw [if_neg hzero, if_pos ⟨hlow, hhigh⟩]

/-- INTERNAL: the example's stack lies apart from its `.word`. -/
theorem apart_textAt (v : Vector) : Apart (textAt 0x40201004) v interrupted := by
  intro _ y hy hbackup
  have hsp : (interrupted.sp - 256).toNat = 0x4031ff00 := by decide
  have hlr : (textAt 0x40201004).armv8BackupLr.toNat = 0x40201004 := by decide
  rw [InRange, BitVec.toNat_sub] at hy hbackup
  omega

/-- INTERNAL: a synchronous exception with the stack apart from the variable. -/
theorem vector_preserves_clobbered :
    Preserves (textAt 0x40201004) .el1LowerSynchronous (clobbering 0 fun mem => mem) interrupted :=
  vector_preserves _ _ _ _ (apart_textAt _)
    (handles_clobbering rfl fun _ _ => rfl) rfl fun _ _ _ => rfl

/-- INTERNAL: what a synchronous vector that keeps the context has found. -/
theorem Preserves.loads {text : Text} {v : Vector} {fn : Handler} {s : Machine}
    (h : Preserves text v fn s) (hv : v ≠ .el1LowerIrq) (hfn : Handles fn (entered text v s))
    (hresult : (fn (entered text v s)).x 0 = 0) :
    load (fn (entered text v s)).mem 8 (below 8 s.sp 2) = s.x 0 ∧
      load (fn (entered text v s)).mem 8 text.armv8BackupLr = s.x 30 := by
  obtain ⟨r, hrun, -, hzero, -, hlink, -⟩ :=
    run_vector_synchronous hv hresult hfn.sp hfn.savedRegs
  obtain ⟨r', hrun', hx, -⟩ := h
  rw [hrun, Except.ok.injEq] at hrun'
  rw [← hzero, ← hlink, hrun', hx]
  exact ⟨rfl, rfl⟩

/-- INTERNAL: with `armv8_backup_lr` in the handler's stack the interrupted registers are not
restored. -/
theorem overlap_loses : ¬ Preserves (textAt 0x4031fff0) .el1LowerSynchronous
    (clobbering 0 fun mem => mem) interrupted := by
  intro h
  have hfn : Handles (clobbering 0 fun mem => mem)
      (entered (textAt 0x4031fff0) .el1LowerSynchronous interrupted) :=
    handles_clobbering rfl fun _ _ => rfl
  obtain ⟨hzero, hlink⟩ := h.loads (by decide) hfn rfl
  have hsame : below 8 interrupted.sp 2 = (textAt 0x4031fff0).armv8BackupLr := by decide
  rw [hsame, hlink] at hzero
  exact absurd hzero (by decide)

/-- INTERNAL: an `int` result with other bits above it. -/
theorem result_loses : ¬ Preserves (textAt 0x40201004) .el1LowerSynchronous
    (clobbering 0x100000000 fun mem => mem) interrupted := by
  rintro ⟨r, hrun, -⟩
  have habort : run (vector (textAt 0x40201004) (clobbering 0x100000000 fun mem => mem)
      .el1LowerSynchronous) interrupted = .error .abort := by
    show run (synchronousVector _ _ _) _ = _
    rw [run_synchronousVector, run_callHandler_abort]
    · rfl
    · exact show (0x100000000 : Word) ≠ 0 by decide
  rw [habort] at hrun
  cases hrun

/-- INTERNAL: a handler that owns the four bytes behind the `.word`. -/
def ownsNext (mem : Bytes 64) : Bytes 64 := fun y =>
  if y = 0x40201004 + BitVec.ofNat 64 4 then mem y + 1 else mem y

/-- INTERNAL: a handler that writes the four bytes behind the `.word` keeps all it is asked to
keep. -/
theorem handles_ownsNext : HandlesDeclared (textAt 0x40201004) (clobbering 0 ownsNext)
    (entered (textAt 0x40201004) .el1LowerSynchronous interrupted) := by
  refine ⟨handles_clobbering rfl ?_, ?_⟩
  · intro y hy
    apply if_neg
    rintro rfl
    rw [entered_sp] at hy
    exact apart_textAt .el1LowerSynchronous (by decide) _ hy (by decide)
  · intro y hy
    apply if_neg
    rintro rfl
    exact absurd hy (by decide)

/-- INTERNAL: with such a handler the interrupted code gets another link register back: the vector
loads eight bytes, these four among them. -/
theorem next_loses : ¬ Preserves (textAt 0x40201004) .el1LowerSynchronous
    (clobbering 0 ownsNext) interrupted := by
  intro h
  obtain ⟨-, hlink⟩ := h.loads (by decide) handles_ownsNext.toHandles rfl
  obtain ⟨-, -, hword⟩ := load_entered_synchronous (v := .el1LowerSynchronous) (by decide)
    (apart_textAt .el1LowerSynchronous)
  have hbyte := byte_eq_of_load_eq (hlink.trans hword.symm) (k := 4) (by decide)
  have hchanged : ownsNext (entered (textAt 0x40201004) .el1LowerSynchronous interrupted).mem
      (0x40201004 + BitVec.ofNat 64 4) =
        (entered (textAt 0x40201004) .el1LowerSynchronous interrupted).mem
          (0x40201004 + BitVec.ofNat 64 4) + 1 := if_pos rfl
  have hnext : ∀ b : BitVec 8, b + 1 ≠ b := by decide
  exact hnext _ (hchanged.symm.trans hbyte)

/-- INTERNAL: the handler's contract alone is not enough: not on a stack over the variable, not
without the upper half of X0, and not without the other four bytes. -/
theorem vector_loses :
    (¬ ∀ (text : Text) (v : Vector) (fn : Handler) (s : Machine),
      HandlesDeclared text fn (entered text v s) → Preserves text v fn s) ∧
    (¬ ∀ (text : Text) (v : Vector) (fn : Handler) (s : Machine), Apart text v s →
      HandlesDeclared text fn (entered text v s) → (∀ y, InRange text.armv8BackupLr 8 y →
        (fn (entered text v s)).mem y = (entered text v s).mem y) → Preserves text v fn s) ∧
    ¬ ∀ (text : Text) (v : Vector) (fn : Handler) (s : Machine), Apart text v s →
      HandlesDeclared text fn (entered text v s) → (fn (entered text v s)).x 0 = 0 →
        Preserves text v fn s := by
  refine ⟨fun hclaim => ?_, fun hclaim => ?_, fun hclaim => ?_⟩
  · exact overlap_loses (hclaim _ _ _ _ ⟨handles_clobbering rfl fun _ _ => rfl, fun _ _ => rfl⟩)
  · exact result_loses (hclaim _ _ _ _ (apart_textAt _)
      ⟨handles_clobbering (by decide) fun _ _ => rfl, fun _ _ => rfl⟩ fun _ _ => rfl)
  · exact next_loses (hclaim _ _ _ _ (apart_textAt _) handles_ownsNext rfl)

end Simbench.Analysis.Armv8VectorFrames
