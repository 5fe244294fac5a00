import Simbench.Analysis.HarnessFraming

/-!
# The iteration count on the wire

`harness_execute` prints the 64-bit iteration count with `%x`, which takes an `unsigned int`,
and `read_benchmark` scans it with `%lx`. The host stores the low half of the count: the count
itself exactly when it fits 32 bits.
-/

set_option autoImplicit false

namespace Simbench.Analysis.HarnessIterations

open Simbench.Library.ByteParser Simbench.Program.Printf Simbench.Program.Host
open Simbench.Program.Harness Simbench.Analysis.PrintfText Simbench.Analysis.PrintfNumerals
open Simbench.Analysis.HostTiming Simbench.Analysis.HarnessOutput Simbench.Analysis.HarnessFraming

/-- INTERNAL: a blank is white space. -/
theorem spaces_blank : Spaces (str " ") := by
  rw [Spaces]
  decide

/-- INTERNAL: the count that is printed is the count when it fits an `unsigned int`. -/
theorem iterations_eq_iff (bm : Benchmark) :
    iterations bm = bm.iterationCount ↔ bm.iterationCount.toNat < 2 ^ 32 := by
  have hlow : (iterations bm).toNat = bm.iterationCount.toNat % 2 ^ 32 := by
    rw [iterations, BitVec.toNat_setWidth_of_le (by decide), BitVec.toNat_setWidth]
  constructor
  · intro h
    rw [← h, hlow]
    exact Nat.mod_lt _ (by decide)
  · intro h
    apply BitVec.eq_of_toNat_eq
    rw [hlow, Nat.mod_eq_of_lt h]

variable {port : Port}

/-- INTERNAL: the token of the count. SRC: harness/harness.c:17 -/
theorem emits_iterations (hport : port.output = some ⟨true⟩) (bm : Benchmark) :
    Emits (print port " %x" [.int (bm.iterationCount.setWidth 32)])
      (str " " ++ numeral 16 (iterations bm).toNat) := by
  refine emits_print hport ?_ (appends_iterations bm)
  rw [List.mem_append, not_or]
  exact ⟨by decide, zero_not_mem_numeral (by decide) (by decide) _⟩

/-- INTERNAL: the token scans back, whatever stands behind the blank after it.
SRC: host/main.c:123 -/
theorem scanHex_iterations (bm : Benchmark) (rest : List Byte) :
    scanHex (str " " ++ numeral 16 (iterations bm).toNat ++ ch ' ' :: rest) =
      .ok (iterations bm, ch ' ' :: rest) := by
  rw [List.append_assoc]
  exact scanHex_numeral spaces_blank (iterations bm) rest

/-- INTERNAL: what stands behind the count: a blank and an opening brace or bracket.
SRC: harness/harness.c:18-35 -/
theorem behind_iterations (bm : Benchmark) (rest : List Byte) : ∃ c tail,
    controlText bm ++ (str " [" ++ (bm.kernel ++ str "]\r\n")) ++ rest = ch ' ' :: c :: tail ∧
      isSpace c = false := by
  have hopen : str " [" = [ch ' ', ch '['] := by decide
  have hbrace : str " \x7b" = [ch ' ', ch '{'] := by decide
  rw [controlText]
  cases bm.kernelControl with
  | none => exact ⟨ch '[', _, by rw [hopen]; rfl, by decide⟩
  | some control => exact ⟨ch '{', _, by rw [hbrace]; rfl, by decide⟩

/-- INTERNAL: the header of a record, whatever its kernels print.
SRC: harness/harness.c:11-47; host/main.c:115-137 -/
theorem readBenchmark_header (env : Environment) {bm : Benchmark} (hcategory : IsToken bm.category)
    (hname : IsToken bm.name) (rest : List Byte) (p : Process)
    (hp : p.stdin = recordText bm ++ rest) :
    ∃ r p', readBenchmark env p = .ok (r, p') ∧
      r.header = ⟨bm.category, bm.name, iterations bm⟩ := by
  obtain ⟨c, tail, htail, hc⟩ := behind_iterations bm rest
  have hnone : Spaces [] := fun c hc => absurd hc List.not_mem_nil
  have hheader := scanHeader_text hnone hcategory hname (iterations bm) hc tail
  rw [List.nil_append, ← headerText, ← htail, ← List.append_assoc, ← recordText, ← hp] at hheader
  exact ⟨_, _, readBenchmark_ok env p hheader rfl, rfl⟩

/-- SOURCE: harness/harness.c:11-47; util/printf.c:169-193; host/main.c:115-137 — **the iteration
count on the wire**: the token that is printed for a count scans back to it exactly when the
count fits 32 bits, and so does the record of a benchmark with names that are tokens, whatever
its kernels print. -/
theorem iterationCount_survives_iff (port : Port) (hport : port.output = some ⟨true⟩)
    (bm : Benchmark) :
    (∃ token, Emits (print port " %x" [.int (bm.iterationCount.setWidth 32)]) token ∧
      ∀ rest, ∃ v, scanHex (token ++ ch ' ' :: rest) = .ok (v, ch ' ' :: rest) ∧
        (v = bm.iterationCount ↔ bm.iterationCount.toNat < 2 ^ 32)) ∧
    (IsToken bm.category → IsToken bm.name → (∀ k, bm.kernelInit = some k → k = []) →
      (∀ k, bm.kernelCleanup = some k → k = []) →
      ∃ text, Emits (harnessExecute port bm) text ∧
        ∀ env rest p, p.stdin = text ++ rest → ∃ r p', readBenchmark env p = .ok (r, p') ∧
          (r.header.iterations = bm.iterationCount ↔ bm.iterationCount.toNat < 2 ^ 32)) := by
  refine ⟨⟨_, emits_iterations hport bm, fun rest => ?_⟩, fun hcategory hname hinit hcleanup => ?_⟩
  · exact ⟨iterations bm, scanHex_iterations bm rest, iterations_eq_iff bm⟩
  · have hprintable : Printable bm := ⟨hcategory.toIsName, hname.toIsName, hinit, hcleanup⟩
    refine ⟨recordText bm, emits_harnessExecute hport hprintable, fun env rest p hp => ?_⟩
    obtain ⟨r, p', hread, hheader⟩ := readBenchmark_header env hcategory hname rest p hp
    refine ⟨r, p', hread, ?_⟩
    rw [hheader]
    exact iterations_eq_iff bm

/-- INTERNAL: a benchmark of `IO` with a given count. -/
def benchmarkOf (count : BitVec 64) : Benchmark :=
  ⟨str "Device", str "IO", none, [], none, none, count, 0⟩

/-- INTERNAL: a 64-bit target with its output registered. -/
def targetPort : Port := ⟨⟨true, false⟩, some ⟨true⟩, fun _ _ => 0⟩

/-- INTERNAL: the condition is met by the largest of the benchmarks' own counts. -/
theorem iterationCount_survives_iff_io :
    ∃ text, Emits (harnessExecute targetPort (benchmarkOf 100000000)) text ∧
      ∀ env rest p, p.stdin = text ++ rest → ∃ r p', readBenchmark env p = .ok (r, p') ∧
        r.header.iterations = 100000000 := by
  have htoken : ∀ c ∈ [str "Device", str "IO"], IsToken c := by
    intro c hc
    rw [List.mem_cons, List.mem_singleton] at hc
    rcases hc with rfl | rfl
    · exact ⟨⟨by decide, by decide, by decide⟩, by decide⟩
    · exact ⟨⟨by decide, by decide, by decide⟩, by decide⟩
  obtain ⟨-, hrecord⟩ := iterationCount_survives_iff targetPort rfl (benchmarkOf 100000000)
  obtain ⟨text, hemits, hread⟩ := hrecord (htoken _ (by simp [benchmarkOf]))
    (htoken _ (by simp [benchmarkOf])) (by simp [benchmarkOf]) (by simp [benchmarkOf])
  refine ⟨text, hemits, fun env rest p hp => ?_⟩
  obtain ⟨r, p', hok, hcount⟩ := hread env rest p hp
  exact ⟨r, p', hok, hcount.mpr (by decide)⟩

/-- INTERNAL: 2^32 iterations are printed as none. SRC: harness/harness.c:17 -/
theorem iterationCount_lost :
    Emits (print targetPort " %x" [.int ((benchmarkOf 0x100000000).iterationCount.setWidth 32)])
        (str " 0") ∧
      ∀ rest, ∃ v, scanHex (str " 0" ++ ch ' ' :: rest) = .ok (v, ch ' ' :: rest) ∧
        v ≠ (benchmarkOf 0x100000000).iterationCount := by
  have htext : str " " ++ numeral 16 (iterations (benchmarkOf 0x100000000)).toNat = str " 0" := by
    decide
  have hemits := @emits_iterations targetPort rfl (benchmarkOf 0x100000000)
  have hscan := scanHex_iterations (benchmarkOf 0x100000000)
  rw [htext] at hemits hscan
  exact ⟨hemits, fun rest => ⟨_, hscan rest, by decide⟩⟩

end Simbench.Analysis.HarnessIterations
