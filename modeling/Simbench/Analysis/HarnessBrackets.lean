import Simbench.Program.Harness

/-!
# The privileged calls of the harness

The harness brackets each privileged kernel with `arch_priv_enter` and `arch_priv_leave`, and
leaves once more behind the cleanup of a privileged benchmark. A bracketed sequence enters as
often as it leaves, so that one privileged benchmark in the list is enough to lose the brackets.
-/

set_option autoImplicit false

namespace Simbench.Analysis.HarnessBrackets

open Simbench.Program.Harness

variable {port : Port} {bm : Benchmark} {calls calls' : List Call} {m : Machine}

/-! ## The calls are the ones the harness makes -/

/-- INTERNAL: performing two lists of calls is performing the second where the first ends. -/
theorem performAll_append : performAll port (calls ++ calls') m =
    (performAll port calls m).bind (performAll port calls') := by
  unfold performAll
  rw [List.foldlM_append]
  rfl

/-- INTERNAL: performing a list of calls is performing its first call, then the others. -/
theorem performAll_cons (call : Call) : performAll port (call :: calls) m =
    (perform port m call).bind (performAll port calls) := rfl

/-- INTERNAL: the call of an optional kernel runs it where it is set. -/
theorem performAll_callIfSet {call : Kernel → Call}
    (hcall : ∀ kernel m, perform port m (call kernel) = some (m.run kernel))
    (kernel : Option Kernel) :
    performAll port (callIfSet call kernel) m = some (m.runIfSet kernel) := by
  cases kernel with
  | none => rfl
  | some kernel => exact congrArg (·.bind some) (hcall kernel m)

/-- INTERNAL: the call of a privileged benchmark is made where `kernel_priv` is set. -/
theorem performAll_callIfPriv {call : Call} {event : Event}
    (hcall : ∀ m, perform port m call = some (m.emit [event])) :
    performAll port (callIfPriv bm call) m = some (m.priv bm event) := by
  unfold callIfPriv Machine.priv
  split
  · exact congrArg (·.bind some) (hcall m)
  · rfl

/-- INTERNAL: a list of one call. -/
theorem performAll_one (call : Call) : performAll port [call] m = perform port m call :=
  Option.bind_fun_some (perform port m call)

/-- INTERNAL: a kernel between its privileged calls. -/
theorem performAll_bracket (bm : Benchmark) {call : Call} {kernel : Kernel}
    (hcall : ∀ m, perform port m call = some (m.run kernel)) :
    performAll port (callIfPriv bm .archPrivEnter ++ [call] ++ callIfPriv bm .archPrivLeave) m =
      some (((m.priv bm .privEnter).run kernel).priv bm .privLeave) := by
  rw [performAll_append, performAll_append, performAll_callIfPriv fun _ => rfl, Option.bind_some,
    performAll_one, hcall, Option.bind_some, performAll_callIfPriv fun _ => rfl]

/-- INTERNAL: the calls for the control kernel do what `harness_execute` does with it. -/
theorem performAll_controlCalls :
    performAll port (controlCalls bm) m = executeControl port bm m := by
  unfold controlCalls executeControl
  cases bm.kernelControl with
  | none => rfl
  | some control =>
    dsimp only
    rw [List.append_assoc, List.append_assoc, List.append_assoc, performAll_append, performAll_one,
      ← List.append_assoc, ← List.append_assoc]
    refine Option.bind_congr fun m' _ => ?_
    rw [performAll_append, performAll_bracket bm fun _ => rfl, Option.bind_some, performAll_one]
    rfl

/-- INTERNAL: performing the calls of a benchmark is what `harness_execute` does.
SRC: harness/harness.c:11-47 -/
theorem performAll_executeCalls :
    performAll port (executeCalls bm) m = harnessExecute port bm m := by
  have hone (call : Call) : performAll port [call] = fun m => perform port m call :=
    funext fun _ => performAll_one call
  have hinit : performAll port (callIfSet .kernelInit bm.kernelInit) =
      fun m => some (m.runIfSet bm.kernelInit) :=
    funext fun _ => performAll_callIfSet (fun _ _ => rfl) _
  have hcleanup : performAll port (callIfSet .kernelCleanup bm.kernelCleanup) =
      fun m => some (m.runIfSet bm.kernelCleanup) :=
    funext fun _ => performAll_callIfSet (fun _ _ => rfl) _
  have hcontrol : performAll port (controlCalls bm) = executeControl port bm :=
    funext fun _ => performAll_controlCalls
  have henter : performAll port (callIfPriv bm .archPrivEnter) =
      fun m => some (m.priv bm .privEnter) :=
    funext fun _ => performAll_callIfPriv fun _ => rfl
  have hleave : performAll port (callIfPriv bm .archPrivLeave) =
      fun m => some (m.priv bm .privLeave) :=
    funext fun _ => performAll_callIfPriv fun _ => rfl
  simp only [executeCalls, performAll_append, hone, hinit, hcleanup, hcontrol, henter, hleave,
    perform, Option.bind_assoc, Option.bind_some]
  rfl

/-- INTERNAL: **the harness performs its calls**. SRC: harness/harness.c:49-62 -/
theorem performAll_mainCalls (benchmarks : List Benchmark) :
    performAll port (mainCalls benchmarks) m = harnessMain port benchmarks m := by
  have hall : ∀ m, performAll port (benchmarks.flatMap executeCalls) m =
      executeAll port benchmarks m := by
    induction benchmarks with
    | nil => exact fun _ => rfl
    | cons bm benchmarks ih =>
      intro m
      rw [List.flatMap_cons, performAll_append, performAll_executeCalls, executeAll]
      exact Option.bind_congr fun m' _ => ih m'
  rw [mainCalls, performAll_append, performAll_append, performAll_cons, Option.bind_assoc,
    Option.bind_assoc]
  refine Option.bind_congr fun m₁ _ => ?_
  rw [performAll_one]
  refine Option.bind_congr fun m₂ _ => ?_
  rw [hall]
  exact Option.bind_congr fun m₃ _ => performAll_one _

/-! ## Brackets -/

/-- INTERNAL: the calls that may stand between `arch_priv_enter` and `arch_priv_leave`. -/
def Call.IsKernel : Call → Prop
  | .kernel _ | .kernelControl _ => True
  | _ => False

/-- INTERNAL: the calls that are not privileged ones. -/
def Call.IsPlain : Call → Prop
  | .archPrivEnter | .archPrivLeave => False
  | _ => True

/-- INTERNAL: each `arch_priv_enter` has one kernel or control kernel behind it and then its
`arch_priv_leave`; there is no other `arch_priv_leave`, and all other calls are made outside. -/
inductive Bracketed : List Call → Prop
  | done : Bracketed []
  | plain {call : Call} {calls : List Call} : Call.IsPlain call → Bracketed calls →
    Bracketed (call :: calls)
  | bracket {call : Call} {calls : List Call} : Call.IsKernel call → Bracketed calls →
    Bracketed (.archPrivEnter :: call :: .archPrivLeave :: calls)

/-- INTERNAL: bracketed calls behind bracketed calls. -/
theorem Bracketed.append (h : Bracketed calls) (h' : Bracketed calls') :
    Bracketed (calls ++ calls') := by
  induction h with
  | done => exact h'
  | plain hcall _ ih => exact .plain hcall ih
  | bracket hcall _ ih => exact .bracket hcall ih

/-- INTERNAL: a plain call is bracketed by itself. -/
theorem Bracketed.one (call : Call) (h : Call.IsPlain call) : Bracketed [call] := .plain h .done

/-- INTERNAL: an optional plain call is. -/
theorem bracketed_callIfSet (call : Kernel → Call) (h : ∀ kernel, Call.IsPlain (call kernel))
    (kernel : Option Kernel) : Bracketed (callIfSet call kernel) := by
  cases kernel with
  | none => exact .done
  | some kernel => exact .one _ (h kernel)

/-- INTERNAL: a kernel, privileged or not. -/
theorem bracketed_kernel (bm : Benchmark) {call : Call} (hkernel : Call.IsKernel call) :
    Bracketed (callIfPriv bm .archPrivEnter ++ [call] ++ callIfPriv bm .archPrivLeave) := by
  unfold callIfPriv
  split
  · exact .bracket hkernel .done
  · refine .one _ ?_
    cases call with
    | kernel kernel => trivial
    | kernelControl kernel => trivial
    | fprintf fmt args => exact hkernel.elim
    | kernelInit kernel => exact hkernel.elim
    | kernelCleanup kernel => exact hkernel.elim
    | archPrivEnter => exact hkernel.elim
    | archPrivLeave => exact hkernel.elim

/-- INTERNAL: the calls for the control kernel are. -/
theorem bracketed_controlCalls (bm : Benchmark) : Bracketed (controlCalls bm) := by
  unfold controlCalls
  cases bm.kernelControl with
  | none => exact .done
  | some control =>
    have hkernel : Bracketed (callIfPriv bm .archPrivEnter ++ [.kernelControl control] ++
        callIfPriv bm .archPrivLeave) := bracketed_kernel bm trivial
    have hall := ((Bracketed.one (.fprintf " \x7b" []) trivial).append hkernel).append
      (Bracketed.one (.fprintf "\x7d" []) trivial)
    simpa only [List.append_assoc] using hall

/-- INTERNAL: **a benchmark** is bracketed up to its last call, the `arch_priv_leave` of a
privileged one. SRC: harness/harness.c:43-45 -/
theorem executeCalls_eq (bm : Benchmark) :
    ∃ front, Bracketed front ∧ executeCalls bm = front ++ callIfPriv bm .archPrivLeave := by
  refine ⟨_, ?_, rfl⟩
  have hkernel : Bracketed (callIfPriv bm .archPrivEnter ++ [.kernel bm.kernel] ++
      callIfPriv bm .archPrivLeave) := bracketed_kernel bm trivial
  have hinit : Bracketed (callIfSet .kernelInit bm.kernelInit) :=
    bracketed_callIfSet .kernelInit (fun _ => trivial) _
  have hcleanup : Bracketed (callIfSet .kernelCleanup bm.kernelCleanup) :=
    bracketed_callIfSet .kernelCleanup (fun _ => trivial) _
  have hprint (fmt : String) (args : List Program.Printf.Arg) : Bracketed [.fprintf fmt args] :=
    .one _ trivial
  have hall := ((hprint "%s - %s" [.str (bm.category ++ [0]), .str (bm.name ++ [0])]).append <|
    hinit.append <| (hprint " %x" [.int (bm.iterationCount.setWidth 32)]).append <|
    (bracketed_controlCalls bm).append <| (hprint " [" []).append <|
    hkernel.append <| (hprint "]\r\n" []).append hcleanup)
  simpa only [List.append_assoc] using hall

/-! ## Counting -/

/-- INTERNAL: the call is `arch_priv_enter`. -/
def Call.isEnter : Call → Bool
  | .archPrivEnter => true
  | _ => false

/-- INTERNAL: the call is `arch_priv_leave`. -/
def Call.isLeave : Call → Bool
  | .archPrivLeave => true
  | _ => false

/-- INTERNAL: plain calls are neither of these. -/
theorem isEnter_of_isPlain {call : Call} (h : Call.IsPlain call) :
    Call.isEnter call = false ∧ Call.isLeave call = false := by
  cases call with
  | archPrivEnter => exact h.elim
  | archPrivLeave => exact h.elim
  | _ => exact ⟨rfl, rfl⟩

/-- INTERNAL: a kernel call is plain but for where it stands. -/
theorem isPlain_of_isKernel {call : Call} (h : Call.IsKernel call) : Call.IsPlain call := by
  cases call with
  | archPrivEnter => exact h.elim
  | archPrivLeave => exact h.elim
  | _ => trivial

/-- INTERNAL: brackets open as often as they close. -/
theorem Bracketed.count (h : Bracketed calls) :
    calls.countP Call.isLeave = calls.countP Call.isEnter := by
  induction h with
  | done => rfl
  | plain hcall _ ih =>
    obtain ⟨henter, hleave⟩ := isEnter_of_isPlain hcall
    rw [List.countP_cons, List.countP_cons, henter, hleave, ih]
  | bracket hcall _ ih =>
    obtain ⟨henter, hleave⟩ := isEnter_of_isPlain (isPlain_of_isKernel hcall)
    have hopens : Call.isEnter .archPrivEnter = true ∧ Call.isLeave .archPrivEnter = false :=
      ⟨rfl, rfl⟩
    have hcloses : Call.isEnter .archPrivLeave = false ∧ Call.isLeave .archPrivLeave = true :=
      ⟨rfl, rfl⟩
    simp only [List.countP_cons, henter, hleave, hopens, hcloses, ih]
    rfl

/-- INTERNAL: the privileged benchmarks of a list. -/
def privileged (benchmarks : List Benchmark) : ℕ := benchmarks.countP fun bm => bm.kernelPriv ≠ 0

/-- INTERNAL: **each privileged benchmark leaves once too often**. -/
theorem count_mainCalls (benchmarks : List Benchmark) :
    (mainCalls benchmarks).countP Call.isLeave =
      (mainCalls benchmarks).countP Call.isEnter + privileged benchmarks := by
  have hone (bm : Benchmark) : (executeCalls bm).countP Call.isLeave =
      (executeCalls bm).countP Call.isEnter + if bm.kernelPriv ≠ 0 then 1 else 0 := by
    obtain ⟨front, hfront, hcalls⟩ := executeCalls_eq bm
    rw [hcalls, List.countP_append, List.countP_append, hfront.count, callIfPriv]
    split
    · rfl
    · rfl
  have hall : (benchmarks.flatMap executeCalls).countP Call.isLeave =
      (benchmarks.flatMap executeCalls).countP Call.isEnter + privileged benchmarks := by
    induction benchmarks with
    | nil => rfl
    | cons bm benchmarks ih =>
      have hprivileged : privileged (bm :: benchmarks) =
          privileged benchmarks + if bm.kernelPriv ≠ 0 then 1 else 0 := by
        simp only [privileged, List.countP_cons, decide_eq_true_eq]
      rw [List.flatMap_cons, List.countP_append, List.countP_append, hone, ih, hprivileged]
      omega
  simp only [mainCalls, List.countP_append, hall, List.countP_cons, List.countP_nil, Call.isLeave,
    Call.isEnter, Bool.false_eq_true, if_false]
  omega

/-- INTERNAL: in bracketed calls no benchmark sets `kernel_priv`: the leave behind its cleanup would
have no enter. -/
theorem Bracketed.not_privileged {benchmarks : List Benchmark}
    (h : Bracketed (mainCalls benchmarks)) : ∀ bm ∈ benchmarks, bm.kernelPriv = 0 := by
  have hsurplus : privileged benchmarks = 0 := by
    have hcount := count_mainCalls benchmarks
    rw [h.count] at hcount
    omega
  intro bm hbm
  by_contra hpriv
  exact List.countP_eq_zero.mp hsurplus bm hbm (decide_eq_true hpriv)

/-- INTERNAL: where none does, the calls of the main function are bracketed. -/
theorem bracketed_mainCalls {benchmarks : List Benchmark}
    (h : ∀ bm ∈ benchmarks, bm.kernelPriv = 0) : Bracketed (mainCalls benchmarks) := by
  have hall : Bracketed (benchmarks.flatMap executeCalls) := by
    induction benchmarks with
    | nil => exact .done
    | cons bm benchmarks ih =>
      rw [List.forall_mem_cons] at h
      obtain ⟨front, hfront, hcalls⟩ := executeCalls_eq bm
      rw [callIfPriv, if_neg (not_not.mpr h.1), List.append_nil] at hcalls
      rw [List.flatMap_cons, hcalls]
      exact hfront.append (ih h.2)
  have hbegin : Bracketed [.fprintf "\r\n\r\n" [], .fprintf "\\\\BENCHMARKS BEGIN\r\n" []] :=
    .plain trivial (.one _ trivial)
  exact (hbegin.append hall).append (.one _ trivial)

/-- SOURCE: harness/harness.c:11-62 — **bracketed privilege changes**: the calls of the harness
are bracketed exactly when no benchmark of the list is privileged. -/
theorem bracketed_mainCalls_iff (benchmarks : List Benchmark) :
    Bracketed (mainCalls benchmarks) ↔ ∀ bm ∈ benchmarks, bm.kernelPriv = 0 :=
  ⟨fun h => h.not_privileged, bracketed_mainCalls⟩

/-- SOURCE: harness/harness.c:43-45 — one privileged benchmark. -/
theorem not_bracketed_privileged :
    ¬ Bracketed (mainCalls [⟨[], [], none, [], none, none, 1, 1⟩]) := by
  intro h
  have hpriv := h.not_privileged _ (List.mem_singleton_self _)
  revert hpriv
  decide

end Simbench.Analysis.HarnessBrackets
