import Simbench.Analysis.PrintfNumerals
import Simbench.Program.Harness

/-!
# What the harness writes

The bytes `harness_main` puts on its stream, kernels included, whatever the buffers of its
`fprintf` calls held and on either build.
-/

set_option autoImplicit false

namespace Simbench.Analysis.HarnessOutput

open Simbench.Program.Printf Simbench.Program.Harness Simbench.Analysis.PrintfText
open Simbench.Analysis.PrintfNumerals

/-! ## Steps that write -/

/-- INTERNAL: the step succeeds on every machine and appends `text` to the stream. -/
def Emits (step : Machine → Option Machine) (text : List Byte) : Prop :=
  ∀ m, ∃ m', step m = some m' ∧ m'.stream = m.stream ++ text

/-- INTERNAL: steps one after the other append their texts one after the other. -/
theorem Emits.bind {f g : Machine → Option Machine} {text text' : List Byte} (hf : Emits f text)
    (hg : Emits g text') : Emits (fun m => f m >>= g) (text ++ text') := by
  intro m
  obtain ⟨m₁, hm₁, hstream₁⟩ := hf m
  obtain ⟨m₂, hm₂, hstream₂⟩ := hg m₁
  refine ⟨m₂, ?_, ?_⟩
  · simp only [hm₁, Option.bind_eq_bind, Option.bind_some, hm₂]
  · rw [hstream₂, hstream₁, List.append_assoc]

/-- INTERNAL: a step that cannot fail. -/
theorem Emits.pure {f : Machine → Machine} {text : List Byte}
    (hf : ∀ m, (f m).stream = m.stream ++ text) : Emits (fun m => some (f m)) text :=
  fun m => ⟨f m, rfl, hf m⟩

/-- INTERNAL: such a step before one that can. -/
theorem Emits.after {f : Machine → Machine} {g : Machine → Option Machine} {text text' : List Byte}
    (hg : Emits g text') (hf : ∀ m, (f m).stream = m.stream ++ text) :
    Emits (fun m => g (f m)) (text ++ text') :=
  (Emits.pure hf).bind hg

/-- INTERNAL: characters put one by one are the text on the stream. -/
theorem filterMap_put (text : List Byte) : (text.map Event.put).filterMap Event.byte = text := by
  rw [List.filterMap_map]
  exact List.filterMap_some

/-- INTERNAL: a kernel appends what it prints. -/
theorem stream_run (kernel : Kernel) (m : Machine) :
    (m.run kernel).stream = m.stream ++ kernel := by
  rw [Machine.run, Machine.emit, Machine.stream, List.filterMap_append, filterMap_put]
  rfl

/-- INTERNAL: entering or leaving privileged mode prints nothing. -/
theorem stream_priv (bm : Benchmark) {event : Event} (hevent : ∀ c, event ≠ .put c) (m : Machine) :
    (m.priv bm event).stream = m.stream := by
  rw [Machine.priv]
  split
  · cases event with
    | put c => exact absurd rfl (hevent c)
    | privEnter | privLeave =>
      rw [Machine.emit, Machine.stream, List.filterMap_append]
      exact List.append_nil _
  · rfl

/-- INTERNAL: a kernel between entering and leaving privileged mode appends its own text only. -/
theorem stream_priv_run (bm : Benchmark) (kernel : Kernel) (m : Machine) :
    (((m.priv bm .privEnter).run kernel).priv bm .privLeave).stream = m.stream ++ kernel := by
  rw [stream_priv bm (by simp), stream_run, stream_priv bm (by simp)]

/-- INTERNAL: optional setup that prints nothing appends nothing. -/
theorem stream_runIfSet {kernel : Option Kernel} (hsilent : ∀ k, kernel = some k → k = [])
    (m : Machine) : (m.runIfSet kernel).stream = m.stream ++ [] := by
  cases kernel with
  | none => exact (List.append_nil _).symm
  | some k =>
    rw [Machine.runIfSet, stream_run, hsilent k rfl]

variable {port : Port}

/-- INTERNAL: a call of the port's `printf` appends what its format and arguments make. -/
theorem emits_print (hport : port.output = some ⟨true⟩) {fmt : String} {args : List Arg}
    {text : List Byte} (hnul : 0 ∉ text)
    (h : ∀ b, Appends port.build 0x1000 0 0 b (str fmt) args text) :
    Emits (print port fmt args) text := by
  intro m
  have hprint := fprintf_text hnul h (port.frame m.calls)
  refine ⟨⟨m.events ++ text.map .put, m.calls + 1⟩, ?_, ?_⟩
  · rw [print, hport, hprint]
    rfl
  · rw [Machine.stream, List.filterMap_append, filterMap_put]
    rfl

/-- INTERNAL: a format without conversions that fits the buffer is printed as it stands. -/
theorem emits_literal (hport : port.output = some ⟨true⟩) {fmt : String} (hnul : 0 ∉ str fmt)
    (hpercent : ch '%' ∉ str fmt) (hfit : (str fmt).length ≤ 0xfff) :
    Emits (print port fmt []) (str fmt) :=
  emits_print hport hnul fun _ => Appends.literal hnul hpercent (by omega)

/-! ## Records -/

/-- INTERNAL: a category or a name that is one token of at most 127 bytes. -/
structure IsName (text : List Byte) : Prop where
  ne_nil : text ≠ []
  length_le : text.length ≤ 127
  nul : 0 ∉ text

/-- INTERNAL: the count that is printed. -/
def iterations (bm : Benchmark) : BitVec 64 := (bm.iterationCount.setWidth 32).setWidth 64

/-- INTERNAL: category, name and iteration count of a record. SRC: harness/harness.c:13-17 -/
def headerText (bm : Benchmark) : List Byte :=
  bm.category ++ str " - " ++ bm.name ++ (str " " ++ numeral 16 (iterations bm).toNat)

/-- INTERNAL: the control interval of a record, where there is one. SRC: harness/harness.c:19-31 -/
def controlText (bm : Benchmark) : List Byte :=
  match bm.kernelControl with
  | none => []
  | some control => str " \x7b" ++ (control ++ str "\x7d")

/-- INTERNAL: a whole record: header, control interval, benchmark interval.
SRC: harness/harness.c:11-41 -/
def recordText (bm : Benchmark) : List Byte :=
  headerText bm ++ (controlText bm ++ (str " [" ++ (bm.kernel ++ str "]\r\n")))

/-- INTERNAL: category and name. SRC: harness/harness.c:13 -/
theorem appends_names {build : Build} {category name : List Byte} (hcategory : IsName category)
    (hname : IsName name) (b : TextBuffer) :
    Appends build 0x1000 0 0 b (str "%s - %s") [.str (category ++ [0]), .str (name ++ [0])]
      (category ++ str " - " ++ name) := by
  have hc := hcategory.length_le
  have hn := hname.length_le
  have hlength : (str " - ").length = 3 := by decide
  have hfmt : str "%s - %s" = Appends.conversionFormat false (ch 's') ++ str " - " ++
      Appends.conversionFormat false (ch 's') := by decide
  have hargs : [Arg.str (category ++ [0]), .str (name ++ [0])] =
      [.str (category ++ [0])] ++ [] ++ [.str (name ++ [0])] := rfl
  rw [hfmt, hargs]
  refine ((Appends.string hcategory.nul (by omega) (by omega)).append fun b' => ?_).append
    fun b' => ?_
  · exact Appends.literal (by decide) (by decide) (by omega)
  · rw [List.length_append, hlength]
    exact Appends.string hname.nul (by omega) (by omega)

/-- INTERNAL: the iteration count, on either build. SRC: harness/harness.c:17 -/
theorem appends_iterations {build : Build} (bm : Benchmark) (b : TextBuffer) :
    Appends build 0x1000 0 0 b (str " %x") [.int (bm.iterationCount.setWidth 32)]
      (str " " ++ numeral 16 (iterations bm).toNat) := by
  have hlength : (str " ").length = 1 := by decide
  have hfmt : str " %x" = str " " ++ Appends.conversionFormat false (ch 'x') := by decide
  have hlt : (iterations bm).toNat < 2 ^ 32 := by
    rw [iterations, BitVec.toNat_setWidth_of_le (by decide)]
    exact (bm.iterationCount.setWidth 32).isLt
  have hnumeral : numText 16 (0x1000 - 1 - 1) (iterations bm) = numeral 16 (iterations bm).toNat :=
    numText_eq_numeral (Or.inr (Or.inr rfl)) (by decide) (by omega)
  have hargs : [Arg.int (bm.iterationCount.setWidth 32)] =
      [] ++ [.int (bm.iterationCount.setWidth 32)] := rfl
  rw [hfmt, ← hnumeral, hargs]
  refine (Appends.literal (by decide) (by decide) (by omega)).append fun b' => ?_
  rw [hlength]
  exact Appends.unsigned (fun _ => rfl) (by decide) (by decide) false (by decide) fun _ _ _ => rfl

/-- INTERNAL: a benchmark whose names fit the line and whose setup prints nothing. -/
structure Printable (bm : Benchmark) : Prop where
  category : IsName bm.category
  name : IsName bm.name
  init : ∀ k, bm.kernelInit = some k → k = []
  cleanup : ∀ k, bm.kernelCleanup = some k → k = []

/-- INTERNAL: `execute_control` prints the control interval. -/
theorem emits_executeControl (hport : port.output = some ⟨true⟩) (bm : Benchmark) :
    Emits (executeControl port bm) (controlText bm) := by
  intro m
  rw [executeControl, controlText]
  cases bm.kernelControl with
  | none => exact ⟨m, rfl, (List.append_nil _).symm⟩
  | some control =>
    have hopen : Emits (print port " \x7b" []) (str " \x7b") :=
      emits_literal hport (by decide) (by decide) (by decide)
    have hclose : Emits (print port "\x7d" []) (str "\x7d") :=
      emits_literal hport (by decide) (by decide) (by decide)
    exact hopen.bind (hclose.after (stream_priv_run bm control)) m

/-- INTERNAL: a whole record. SRC: harness/harness.c:11-47 -/
theorem emits_harnessExecute (hport : port.output = some ⟨true⟩) {bm : Benchmark}
    (h : Printable bm) : Emits (harnessExecute port bm) (recordText bm) := by
  have hnames : Emits (print port "%s - %s" [.str (bm.category ++ [0]), .str (bm.name ++ [0])])
      (bm.category ++ str " - " ++ bm.name) := by
    refine emits_print hport ?_ (appends_names h.category h.name)
    simp only [List.mem_append, not_or]
    exact ⟨⟨h.category.nul, by decide⟩, h.name.nul⟩
  have hcount : Emits (print port " %x" [.int (bm.iterationCount.setWidth 32)])
      (str " " ++ numeral 16 (iterations bm).toNat) := by
    refine emits_print hport ?_ (appends_iterations bm)
    simp only [List.mem_append, not_or]
    exact ⟨by decide, zero_not_mem_numeral (by decide) (by decide) _⟩
  have hopen : Emits (print port " [" []) (str " [") :=
    emits_literal hport (by decide) (by decide) (by decide)
  have hclose : Emits (print port "]\r\n" []) (str "]\r\n") :=
    emits_literal hport (by decide) (by decide) (by decide)
  have hend : Emits (fun m => some ((m.runIfSet bm.kernelCleanup).priv bm .privLeave)) [] := by
    refine Emits.pure fun m => ?_
    rw [stream_priv bm (by simp), stream_runIfSet h.cleanup]
  have hall := hnames.bind ((hcount.after (stream_runIfSet h.init)).bind
    ((emits_executeControl hport bm).bind
      (hopen.bind ((hclose.after (stream_priv_run bm bm.kernel)).bind hend))))
  rw [List.append_nil, List.nil_append, ← List.append_assoc] at hall
  exact hall

/-- INTERNAL: the records in order, by induction on the benchmark section. -/
theorem emits_executeAll (hport : port.output = some ⟨true⟩) {benchmarks : List Benchmark}
    (h : ∀ bm ∈ benchmarks, Printable bm) :
    Emits (executeAll port benchmarks) (benchmarks.flatMap recordText) := by
  induction benchmarks with
  | nil => exact Emits.pure fun m => (List.append_nil _).symm
  | cons bm benchmarks ih =>
    obtain ⟨hbm, hrest⟩ := List.forall_mem_cons.mp h
    exact (emits_harnessExecute hport hbm).bind (ih hrest)

/-- INTERNAL: all that `harness_main` writes behind the blank line that ends the boot output.
SRC: harness/harness.c:49-62 -/
def harnessText (benchmarks : List Benchmark) : List Byte :=
  str "\r\n" ++ (str "\\\\BENCHMARKS BEGIN\r\n" ++
    (benchmarks.flatMap recordText ++ str "\\\\BENCHMARKS END\r\n"))

/-- INTERNAL: the harness prints a blank line, the line that begins the output, and the records in
order. -/
theorem emits_harnessMain (hport : port.output = some ⟨true⟩) {benchmarks : List Benchmark}
    (h : ∀ bm ∈ benchmarks, Printable bm) :
    Emits (harnessMain port benchmarks) (str "\r\n" ++ harnessText benchmarks) := by
  have hlines : Emits (print port "\r\n\r\n" []) (str "\r\n" ++ str "\r\n") :=
    emits_literal hport (by decide) (by decide) (by decide)
  have hbegin : Emits (print port "\\\\BENCHMARKS BEGIN\r\n" []) (str "\\\\BENCHMARKS BEGIN\r\n") :=
    emits_literal hport (by decide) (by decide) (by decide)
  have hend : Emits (print port "\\\\BENCHMARKS END\r\n" []) (str "\\\\BENCHMARKS END\r\n") :=
    emits_literal hport (by decide) (by decide) (by decide)
  have hall := hlines.bind (hbegin.bind ((emits_executeAll hport h).bind hend))
  rw [List.append_assoc] at hall
  exact hall

end Simbench.Analysis.HarnessOutput
