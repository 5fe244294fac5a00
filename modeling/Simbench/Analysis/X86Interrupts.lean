import Simbench.Analysis.X86InterruptTable
import Simbench.Analysis.X86TrapFrames

/-!
# Interrupts in the benchmarks

A gate leads to the trap entry whose frame has the shape the processor pushes for its vector,
except for the two vectors with an error code that `irq_init` leaves to the unknown trap, and
that one aborts. So whatever vector comes up in a benchmark, the handler that is installed gets
the interrupted context, and the program goes on where the handler says, with its registers, or
the kernel aborts.
-/

set_option autoImplicit false

namespace Simbench.Analysis.X86Interrupts

open Simbench.Library.ByteCopies (InRange)
open Simbench.Library.PagedMemory Simbench.Library.ByteWords
open Simbench.Program Simbench.Program.X86Boot
open Simbench.Program.X86Kernel hiding Machine
open Simbench.Program.X86Traps Simbench.Program.X86Interrupts
open Simbench.Program.Benchmarks (Op Site Name executeAll)
open Simbench.Analysis.X86HeapStack Simbench.Analysis.X86TrapFrames
open Simbench.Analysis.X86InterruptTable

/-! ## What a handler asks for -/

/-- INTERNAL: where the program goes on behind a handler, and with which stack pointer; `none`
where it does not. -/
def target (decoding : Decoding) (cpu : Machine) : CHandler → Option (Word × Word)
  | .handleTrapTimer | .syscallSkipHandler | .archIrqHandler => some (cpu.rip, cpu.gpr .rsp)
  | .returnHandler => some (load cpu.mem 8 (cpu.gpr .rsp), cpu.gpr .rsp + 8)
  | .undefSkipHandler => some (cpu.rip + 2, cpu.gpr .rsp)
  | .memSkipHandler => (skipped decoding cpu.mem cpu.rip).map fun rip => (rip, cpu.gpr .rsp)
  | .handleTrapUnknown | .handleTrapUnknownArg | .handleTrapGpf | .defaultSyscallHandler
  | .defaultPageFaultHandler | .defaultIrqHandler | .defaultUndefHandler => none

/-- INTERNAL: the fields of the interrupted context, with another place to go on at. -/
def resumeValue (errorCode : Option Word) (cpu : Machine) (goOn : Word × Word) (f : Field) : Word :=
  if f = .rip then goOn.1 else if f = .tempSP then goOn.2 else frameValue errorCode cpu f

/-- INTERNAL: the interrupted code is not on the stack the frame goes to. -/
def CodeApart (available : ℕ) (cpu : Machine) : Prop :=
  ∀ i < available, ¬ InRange (below 8 (top cpu) 24) 192 (cpu.rip + BitVec.ofNat 64 i)

section Handlers

variable {text : Text} {t : Trap} {errorCode : Option Word} {cpu : Machine}

/-- INTERNAL: where the handler moves neither the return address nor the stack pointer, the frame
holds what was interrupted. -/
theorem resumeValue_same (f : Field) :
    resumeValue errorCode cpu (cpu.rip, cpu.gpr .rsp) f = frameValue errorCode cpu f := by
  unfold resumeValue
  split
  · rename_i h
    rw [h]
    rfl
  · split
    · rename_i h
      rw [h]
      rfl
    · rfl

/-- INTERNAL: a handler that sets the field of `rip`. -/
theorem get_store_rip {ctx rip : Word} {mem : Bytes 64}
    (hmem : ∀ f : Field, f.get ctx mem = frameValue errorCode cpu f) (f : Field) :
    f.get ctx (store 8 (Field.rip.address ctx) rip mem) =
      resumeValue errorCode cpu (rip, cpu.gpr .rsp) f := by
  unfold resumeValue
  by_cases hrip : f = .rip
  · rw [if_pos hrip, hrip, get_store_self]
  · rw [if_neg hrip, get_store _ hrip, hmem]
    split
    · rename_i hsp
      rw [hsp]
      rfl
    · rfl

/-- INTERNAL: the frame does not reach the code that was interrupted. -/
theorem codeAt_entered (hmatch : errorCode.isSome = hasArg t) {available : ℕ}
    (hcode : CodeApart available cpu) :
    codeAt available (entered text t errorCode cpu).mem cpu.rip =
      codeAt available cpu.mem cpu.rip := by
  unfold codeAt
  apply List.map_congr_left
  intro i hi
  exact mem_entered hmatch (hcode i (List.mem_range.mp hi))

/-- INTERNAL: **a handler and its target**: it aborts, or the structure asks for the target. -/
theorem effect_entered (text : Text) (hmatch : errorCode.isSome = hasArg t) (decoding : Decoding)
    (hcode : CodeApart decoding.available cpu) (h : CHandler) :
    let called := entered text t errorCode cpu
    (effect decoding (called.gpr .rdi) called.mem h = none ∧ target decoding cpu h = none) ∨
      ∃ mem goOn, effect decoding (called.gpr .rdi) called.mem h = some mem ∧
        target decoding cpu h = some goOn ∧
        ∀ f : Field, f.get (called.gpr .rdi) mem = resumeValue errorCode cpu goOn f := by
  intro called
  have hfields : ∀ f : Field, f.get (called.gpr .rdi) called.mem = frameValue errorCode cpu f := by
    intro f
    show f.get ((entered text t errorCode cpu).gpr .rdi) _ = _
    rw [(entered_spec hmatch).1]
    exact get_entered hmatch f
  have hrip : Field.rip.get (called.gpr .rdi) called.mem = cpu.rip := hfields .rip
  cases h with
  | handleTrapTimer | syscallSkipHandler | archIrqHandler =>
    exact Or.inr ⟨_, _, rfl, rfl, fun f => (hfields f).trans (resumeValue_same f).symm⟩
  | undefSkipHandler =>
    refine Or.inr ⟨_, _, rfl, rfl, fun f => ?_⟩
    rw [hrip]
    exact get_store_rip hfields f
  | returnHandler =>
    refine Or.inr ⟨_, _, rfl, rfl, fun f => ?_⟩
    have hword : load called.mem 8 (Field.tempSP.get (called.gpr .rdi) called.mem) =
        load cpu.mem 8 (cpu.gpr .rsp) := by
      rw [hfields]
      exact load_entered hmatch
    rw [get_returnHandler, hword, hfields, hfields]
    rfl
  | memSkipHandler =>
    have hskipped : skipped decoding called.mem cpu.rip = skipped decoding cpu.mem cpu.rip := by
      unfold skipped
      rw [show codeAt decoding.available called.mem cpu.rip = _ from codeAt_entered hmatch hcode]
    unfold effect target
    simp only [hrip, hskipped]
    cases skipped decoding cpu.mem cpu.rip with
    | none => exact Or.inl ⟨rfl, rfl⟩
    | some rip => exact Or.inr ⟨_, _, rfl, rfl, get_store_rip hfields⟩
  | handleTrapUnknown | handleTrapUnknownArg | handleTrapGpf | defaultSyscallHandler
  | defaultPageFaultHandler | defaultIrqHandler | defaultUndefHandler => exact Or.inl ⟨rfl, rfl⟩

end Handlers

/-! ## Behind the handler -/

/-- INTERNAL: the program goes on, with the memory the handler leaves. -/
def resumed (returned cpu : Machine) (goOn : Word × Word) : Machine :=
  { cpu.set .rsp goOn.2 with rip := goOn.1, mem := returned.mem, cr2 := returned.cr2 }

/-- INTERNAL: popping the frame gives the machine its registers back. -/
theorem restored_resumed {ctx : Word} {returned cpu : Machine} {errorCode : Option Word}
    {goOn : Word × Word}
    (h : ∀ f : Field, f.get ctx returned.mem = resumeValue errorCode cpu goOn f) :
    restored ctx returned = resumed returned cpu goOn := by
  refine restored_eq (s := { cpu.set .rsp goOn.2 with rip := goOn.1 }) h (fun r hr => ?_) ?_ rfl rfl
    rfl rfl
  · have hvalue : resumeValue errorCode cpu goOn r.field = frameValue errorCode cpu r.field := by
      cases r with
      | rsp => exact absurd rfl hr
      | _ => rfl
    rw [hvalue, frameValue_field errorCode cpu hr]
    simp only [Machine.set, Function.update_of_ne hr]
  · simp only [Machine.set, Function.update_self]
    rfl

/-- INTERNAL: the trap entry puts everything back. -/
theorem run_trap_resumed {linked : Linked} (hcompiled : Compiled linked) {t : Trap}
    {errorCode : Option Word} (hmatch : errorCode.isSome = hasArg t) {cpu : Machine} {h : CHandler}
    {mem : Bytes 64} {goOn : Word × Word}
    (heffect : effect linked.decoding ((entered linked.text t errorCode cpu).gpr .rdi)
      (entered linked.text t errorCode cpu).mem h = some mem)
    (hfields : ∀ f : Field, f.get ((entered linked.text t errorCode cpu).gpr .rdi) mem =
      resumeValue errorCode cpu goOn f) :
    run (deliver (linked.text.entry t) errorCode cpu) (trap linked.text (linked.code h) t) =
      resumed (linked.code h (entered linked.text t errorCode cpu)) cpu goOn := by
  obtain ⟨hrdi, hrsp, -⟩ := @entered_spec linked.text t errorCode cpu hmatch
  have hctx : (entered linked.text t errorCode cpu).gpr .rdi =
      (entered linked.text t errorCode cpu).gpr .rsp + 8 := by
    rw [hrdi, hrsp]
    exact (below_eight_add (top cpu) 23).symm
  obtain ⟨hreturn, hkept⟩ := hcompiled h _ mem hctx heffect
  rw [run_trap, run_exitIntr, hreturn, ← hctx]
  exact restored_resumed fun f => (hkept f).trans (hfields f)

/-! ## An interrupt -/

/-- INTERNAL: the entries are in the text of the kernel, each at an address of its own. -/
structure EntriesInText (image : Image) (text : Text) : Prop where
  low : ∀ t, textStart.toNat ≤ (text.entry t).toNat
  high : ∀ t, (text.entry t).toNat < image.textEnd.toNat
  distinct : Function.Injective text.entry

/-- INTERNAL: the frame and the return address fit between the heap's start and the stack's top. -/
def StackInHeap (image : Image) (cpu : Machine) : Prop :=
  image.heapStart.toNat + 192 ≤ (top cpu).toNat ∧
    (top cpu).toNat ≤ image.heapStart.toNat + heapSize.toNat

section Interrupts

variable {image : Image} {gigabytePages : Bool} {linked : Linked} {idt : Page}
  {s : X86Kernel.Machine}

/-- INTERNAL: the traps that get their frame from vectors that push it like that. -/
theorem pushesErrorCode_eq (vector : BitVec 8) :
    trapOf vector = .unknown ∨ pushesErrorCode vector = hasArg (trapOf vector) := by
  have hall : ∀ vector : BitVec 8,
      trapOf vector = .unknown ∨ pushesErrorCode vector = hasArg (trapOf vector) := by
    decide +kernel
  exact hall vector

/-- INTERNAL: the gate of each vector leads to its own entry. -/
theorem find_traps (htext : EntriesInText image linked.text) (t : Trap) :
    traps.find? (fun t' => linked.text.entry t' = linked.text.entry t) = some t := by
  have hdecide : (fun t' => decide (linked.text.entry t' = linked.text.entry t)) =
      fun t' => decide (t' = t) := by
    funext t'
    exact decide_eq_decide.mpr htext.distinct.eq_iff
  rw [hdecide]
  cases t <;> rfl

/-- INTERNAL: the layout covers the whole heap. -/
theorem covers_heap {va : BitVec 64} (hlow : image.heapStart.toNat ≤ va.toNat)
    (hhigh : va.toNat < image.heapStart.toNat + heapSize.toNat) :
    (ofImage image).Covers va := by
  refine ⟨(image.heapStart.toNat, image.heapStart.toNat + heapSize.toNat), ?_, hlow, hhigh⟩
  simp [Layout.regions, ofImage]

/-- INTERNAL: the processor gets to the trap entry. -/
theorem dispatch_eq (htext : EntriesInText image linked.text)
    (hidt : idt.toNat * 4096 = image.heapStart.toNat + 2 * 4096)
    (h : Serving image gigabytePages linked.text.entry idt s) (vector : BitVec 8) :
    dispatch gigabytePages ⟨0x1000, base idt⟩ s vector =
      some (linked.text.entry (trapOf vector)) := by
  have hlow := htext.low (trapOf vector)
  have hhigh := htext.high (trapOf vector)
  have hbounds := image.bounds
  have hcovers : (ofImage image).Covers (linked.text.entry (trapOf vector)) := by
    refine ⟨(textStart.toNat, image.textEnd.toNat), ?_, hlow, hhigh⟩
    simp [Layout.regions, ofImage]
  obtain ⟨hsame, hmapped⟩ := h.identity (linked.text.entry (trapOf vector)) (by omega)
  obtain ⟨access, haccess⟩ := hmapped hcovers
  rw [dispatch, h.readGate_eq hidt]
  simp only [gateFor, Option.bind_eq_bind, Option.bind_some, and_self, if_true, haccess,
    (hsame access haccess).1]

/-- INTERNAL: there is a stack for the frame. -/
theorem storable_frame (h : Serving image gigabytePages linked.text.entry idt s)
    {cpu : Machine} (hstack : StackInHeap image cpu) :
    storable gigabytePages s (below 8 (top cpu) 24) 192 = true := by
  have hlow := hstack.1
  have hbounds := image.bounds
  have hhigh := hstack.2
  have hbottom : (below 8 (top cpu) 24).toNat = (top cpu).toNat - 192 := by
    rw [below, BitVec.toNat_sub, BitVec.toNat_ofNat]
    omega
  unfold storable
  rw [List.all_eq_true]
  intro i hi
  have hi' := List.mem_range.mp hi
  have haddr : (below 8 (top cpu) 24 + BitVec.ofNat 64 i).toNat = (top cpu).toNat - 192 + i := by
    rw [BitVec.toNat_add, hbottom, BitVec.toNat_ofNat]
    omega
  obtain ⟨hsame, hmapped⟩ := h.identity (below 8 (top cpu) 24 + BitVec.ofNat 64 i)
    (by omega)
  obtain ⟨access, haccess⟩ := hmapped (covers_heap (by omega) (by omega))
  obtain ⟨hself, hwritable⟩ := hsame access haccess
  rw [haccess]
  simp only [hself, hwritable, decide_true, Bool.and_self]

/-- INTERNAL: **an interrupt** in a state of the benchmarks. -/
theorem interrupt_eq (htext : EntriesInText image linked.text) (hcompiled : Compiled linked)
    (hidt : idt.toNat * 4096 = image.heapStart.toNat + 2 * 4096)
    (h : Serving image gigabytePages linked.text.entry idt s) {vector : BitVec 8}
    {errorCode : Option Word} (herror : errorCode.isSome = pushesErrorCode vector) {cpu : Machine}
    (hstack : StackInHeap image cpu) (hcode : CodeApart linked.decoding.available cpu) :
    interrupt gigabytePages ⟨0x1000, base idt⟩ linked s vector errorCode cpu =
      (target linked.decoding cpu (handler s (trapOf vector))).map
        (resumed (linked.code (handler s (trapOf vector))
          (entered linked.text (trapOf vector) errorCode cpu)) cpu) := by
  rw [interrupt, dispatch_eq htext hidt h]
  simp only [Option.bind_eq_bind, Option.bind_some, find_traps htext]
  rcases pushesErrorCode_eq vector with hunknown | hmatch
  · rw [hunknown]
    show (if _ then none else none) = none
    rw [ite_self]
  · rw [← herror] at hmatch
    have hframe := storable_frame h hstack
    rw [← (@entered_spec linked.text (trapOf vector) errorCode cpu hmatch).2.1] at hframe
    have hcalled : called linked.text (trapOf vector) (linked.text.entry (trapOf vector)) errorCode cpu =
        entered linked.text (trapOf vector) errorCode cpu := rfl
    rw [hcalled, if_pos hframe]
    rcases effect_entered linked.text hmatch linked.decoding hcode
      (handler s (trapOf vector)) with ⟨heffect, htarget⟩ | ⟨mem, goOn, heffect, htarget, hfields⟩
    · rw [heffect, htarget]
      rfl
    · rw [heffect, htarget]
      exact congrArg some (run_trap_resumed hcompiled hmatch heffect hfields)

end Interrupts

/-- SOURCE: arch/x86_64/irq.c:8-76,139-259, arch/x86_64/trap.S:2-110, arch/x86_64/exception.c:7-57,
arch/x86_64/arch.c:85-101, arch/x86_64/x86.h:6-12 — **interrupts in the benchmarks**: whatever
vector comes up in whatever state, if the frame fits in the heap and lies apart from the code that
`decode_instruction` reads, the program goes on behind the handler of the kernel with its registers:
where it was for the timer, a system call and an interrupt; two bytes on for an instruction that is
undefined, whatever its length; as far on for an access that faults as `decode_instruction` says its
instruction is long, which need not be true; and behind the call for a fault of the code called. Or
the handler aborts, as it does for every vector `irq_init` has no entry for, with or without an
error code on the stack. -/
theorem runOps_interrupt (platform : Platform) (image : Image) (site : Site) (linked : Linked)
    (hsite : OnPlatform platform image site) (htext : EntriesInText image linked.text)
    (hcompiled : Compiled linked) (gigabytePages : Bool) (mem : Memory) :
    ∃ s₀ idtr, archInit image linked.text.entry (booted gigabytePages mem) = .ok s₀ ∧
      archInitIdtr image (booted gigabytePages mem) = .ok idtr ∧ ∀ env names ops s,
        ops <+: executeAll site names → runOps image site env ops s₀ = .ok s →
          ∀ (vector : BitVec 8) (errorCode : Option Word) (cpu : Machine),
            errorCode.isSome = pushesErrorCode vector → StackInHeap image cpu →
            CodeApart linked.decoding.available cpu →
            interrupt gigabytePages idtr linked s vector errorCode cpu =
              (target linked.decoding cpu (handler s (trapOf vector))).map
                (resumed (linked.code (handler s (trapOf vector))
                  (entered linked.text (trapOf vector) errorCode cpu)) cpu) := by
  obtain ⟨s₀, idt, hinit, hidtr, hserved⟩ :=
    archInit_served image linked.text.entry gigabytePages mem
  refine ⟨s₀, _, hinit, hidtr, fun env names ops s hops hrun vector errorCode cpu herror hstack
    hcode => ?_⟩
  exact interrupt_eq htext hcompiled hserved.idt_eq (hserved.runOps hsite hops hrun) herror
    hstack hcode

/-! ## A system call -/

/-- INTERNAL: handlers that do nothing but what they have to, in the small image. -/
def smallLinked : Linked where
  text :=
    { entry := fun t => 0x100200 + BitVec.ofNat 64 (16 * traps.idxOf t)
      syscallHandlerFn := 0x101000
      pageFaultHandlerFn := 0x101008
      irqHandlerFn := 0x101010
      undefHandlerFn := 0x101018
      behindCall := fun _ => 0x100300 }
  code := fun h s =>
    match effect ⟨fun _ _ => false, 0,
      ⟨.int, 0, ⟨.register, 0, .reg .al⟩, ⟨.register, 0, .reg .al⟩⟩⟩
      (s.gpr .rdi) s.mem h with
    | some mem => { s.set .rsp (s.gpr .rsp + 8) with mem := mem }
    | none => s
  decoding := ⟨fun _ _ => false, 0, ⟨.int, 0, ⟨.register, 0, .reg .al⟩, ⟨.register, 0, .reg .al⟩⟩⟩

/-- INTERNAL: the example's handlers return with the frame as they leave it. -/
theorem compiled_smallLinked : Compiled smallLinked := by
  intro h s mem hctx heffect
  have hcode : smallLinked.code h s = { s.set .rsp (s.gpr .rsp + 8) with mem := mem } := by
    show (match effect smallLinked.decoding (s.gpr .rdi) s.mem h with
      | some mem => { s.set .rsp (s.gpr .rsp + 8) with mem := mem }
      | none => s) = _
    rw [heffect]
  rw [hcode]
  refine ⟨?_, fun f => rfl⟩
  simp only [Machine.set, Function.update_self]

/-- INTERNAL: its entries lie in its text. -/
theorem entriesInText_smallLinked : EntriesInText smallImage smallLinked.text := by
  refine ⟨fun t => ?_, fun t => ?_, fun t t' h => ?_⟩
  · cases t <;> decide
  · cases t <;> decide
  · revert h
    cases t <;> cases t' <;> decide

/-- INTERNAL: a program in the small image, on its stack. -/
def smallCpu : Machine :=
  ⟨fun r => if r = .rsp then 0x140000 else 7, 0x100123, 0x202, 8, 0x10, 0, fun _ => 0xcc⟩

/-- INTERNAL: behind `mem_init` and the installation of the skip handler a system call comes back
where it was made, with RAX as it was; an exception without a gate does not. -/
theorem runOps_interrupt_syscall : ∃ s₀ idtr s cpu, archInit smallImage smallLinked.text.entry
    (booted true fun _ => 0xff) = .ok s₀ ∧
    runOps smallImage (X86HeapUse.smallSite .native) (fun _ => ⟨fun _ => false, false⟩)
      [.memInit, .memMmuEnable, .memTlbFlush, .archSyscallInstallSkip] s₀ = .ok s ∧
    interrupt true idtr smallLinked s 0x80 none smallCpu = some cpu ∧ cpu.rip = 0x100123 ∧
    cpu.gpr .rax = 7 ∧ interrupt true idtr smallLinked s 0x15 (some 0) smallCpu = none := by
  have hstack : StackInHeap smallImage smallCpu := by
    unfold StackInHeap
    decide
  have hcode : CodeApart smallLinked.decoding.available smallCpu :=
    fun i hi => absurd hi (Nat.not_lt_zero i)
  obtain ⟨s₀, idtr, hinit, -, hall⟩ := runOps_interrupt .native smallImage
    (X86HeapUse.smallSite .native) smallLinked (X86HeapUse.onPlatform_smallSite .native)
    entriesInText_smallLinked compiled_smallLinked true fun _ => 0xff
  obtain ⟨s, hrun, hcr3⟩ := (memInit_enabled smallLinked.text.entry true fun _ => 0xff).2 s₀ hinit
    fun _ => ⟨fun _ => false, false⟩
  have hops : [Op.memInit, .memMmuEnable, .memTlbFlush, .archSyscallInstallSkip] <+:
      executeAll (X86HeapUse.smallSite .native) [.syscall] := ⟨_, rfl⟩
  have hrun' : runOps smallImage (X86HeapUse.smallSite .native) (fun _ => ⟨fun _ => false, false⟩)
      [.memInit, .memMmuEnable, .memTlbFlush, .archSyscallInstallSkip] s₀ =
        .ok { s with syscallHandlerFn := .syscallSkipHandler } := by
    refine (Library.Outcomes.run_append 0 [Op.memInit, .memMmuEnable]
      [.memTlbFlush, .archSyscallInstallSkip] s₀).trans ?_
    show (runOps smallImage (X86HeapUse.smallSite .native) _ [.memInit, .memMmuEnable] s₀ >>= _) = _
    rw [hrun]
    rfl
  have hsyscall := hall _ _ _ _ hops hrun' 0x80 none smallCpu rfl hstack hcode
  have hunknown := hall _ _ _ _ hops hrun' 0x15 (some 0) smallCpu rfl hstack hcode
  exact ⟨s₀, idtr, _, _, hinit, hrun', hsyscall, rfl, rfl, hunknown⟩

end Simbench.Analysis.X86Interrupts
