import Simbench.Analysis.BenchmarkShapes

/-!
# The order of the operations

Whatever benchmarks run one after the other, `mem_init` comes before the operations that need its
tables, and every mapping is one of a page to itself. What holds of the operations of a run holds
of those up to any of its states.
-/

set_option autoImplicit false

namespace Simbench.Analysis.BenchmarkOrder

open Simbench.Program.Benchmarks Simbench.Analysis.BenchmarkShapes

/-- INTERNAL: the pages the benchmarks map: those of the region, and the word of Memory-NonPriv. -/
def Maps (site : Site) (ptr : BitVec 64) : Prop :=
  ptr ∈ physPages site ∨ ptr = site.symbol .memoryNonprivValue

/-- INTERNAL: an operation behind the ones before it. -/
def InOrder (site : Site) (before : List Op) : Op → Prop
  | .memMmuEnable => .memInit ∈ before
  | .memCreatePageMappingData pa va => .memInit ∈ before ∧ pa = va ∧ Maps site va
  | _ => True

/-- INTERNAL: every operation of the list is in order behind the ones before it. -/
def Ordered (site : Site) (ops : List Op) : Prop :=
  ∀ before op after, ops = before ++ op :: after → InOrder site before op

section Order

variable {site : Site}

/-- INTERNAL: an operation in order stays so behind more operations. -/
theorem InOrder.mono {before before' : List Op} (hbefore : .memInit ∈ before → .memInit ∈ before')
    {op : Op} (h : InOrder site before op) : InOrder site before' op := by
  cases op with
  | memMmuEnable => exact hbefore h
  | memCreatePageMappingData pa va => exact ⟨hbefore h.1, h.2⟩
  | _ => trivial

/-- INTERNAL: two ordered lists, one behind the other, are ordered. -/
theorem Ordered.append {ops ops' : List Op} (h : Ordered site ops) (h' : Ordered site ops') :
    Ordered site (ops ++ ops') := by
  intro before op after hsplit
  rcases List.append_eq_append_iff.mp hsplit with ⟨between, rfl, hrest⟩ | ⟨between, rfl, hrest⟩
  · exact (h' between op after hrest).mono fun hinit => List.mem_append_right _ hinit
  · cases between with
    | nil => exact (h' [] op after hrest.symm).mono fun hinit => absurd hinit List.not_mem_nil
    | cons op' between =>
      obtain ⟨rfl, -⟩ := List.cons.inj hrest
      exact h before op between rfl

/-- INTERNAL: the beginning of an ordered list is ordered. -/
theorem Ordered.of_initial {ops ops' : List Op} (h : Ordered site ops') (hinitial : ops <+: ops') :
    Ordered site ops := by
  obtain ⟨rest, rfl⟩ := hinitial
  rintro before op after rfl
  exact h before op (after ++ rest) (by rw [List.append_assoc, List.cons_append])

/-- INTERNAL: operations in order from the start. -/
theorem ordered_of_forall {ops : List Op} (h : ∀ op ∈ ops, InOrder site [] op) :
    Ordered site ops := by
  rintro before op after rfl
  exact (h op (by simp)).mono fun hinit => absurd hinit List.not_mem_nil

/-- INTERNAL: operations that are in order behind `mem_init` alone are in order in a list that
begins with it. -/
theorem ordered_memInit {ops : List Op} (h : ∀ op ∈ ops, InOrder site [.memInit] op) :
    Ordered site (.memInit :: ops) := by
  intro before op after hsplit
  cases before with
  | nil =>
    obtain ⟨rfl, -⟩ := List.cons.inj hsplit
    trivial
  | cons first before =>
    obtain ⟨rfl, rfl⟩ := List.cons.inj hsplit
    exact (h op (by simp)).mono fun _ => List.mem_cons_self

/-- INTERNAL: a plain operation is in order anywhere. -/
theorem inOrder_of_plain {before : List Op} {op : Op} (h : plain op = true) :
    InOrder site before op := by
  cases op with
  | memMmuEnable | memCreatePageMappingData => cases h
  | _ => trivial

/-- INTERNAL: the pages a benchmark maps are pages of the region, or of the cold region. -/
theorem maps_of_mem {name : Name} {ptr : BitVec 64} (h : ptr ∈ maps site name) : Maps site ptr := by
  cases name with
  | tlbFlush | tlbEvict | memoryColdMmu => exact Or.inl h
  | memoryNonpriv => exact Or.inr (List.mem_singleton.mp h)
  | _ => cases h

/-- INTERNAL: **the benchmarks are in order**, one after the other. Induction on the names. -/
theorem executeAll_ordered (site : Site) (names : List Name) :
    Ordered site (executeAll site names) := by
  induction names with
  | nil => exact ordered_of_forall fun op hop => absurd hop List.not_mem_nil
  | cons name names ih =>
    refine Ordered.append ?_ ih
    cases hname : usesMmu name with
    | false => exact ordered_of_forall fun op hop =>
      inOrder_of_plain (execute_plain site hname op hop)
    | true =>
      obtain ⟨middle, tail, hexecute, hmiddle, htail⟩ := execute_mmu site hname
      show Ordered site (name.benchmark site).execute
      rw [hexecute, mmuPrologue, List.cons_append, List.cons_append, List.cons_append,
        List.cons_append, List.cons_append]
      apply ordered_memInit
      intro op hop
      simp only [List.mem_append, List.mem_cons, List.not_mem_nil, or_false, or_assoc,
        mmuOff] at hop
      rcases hop with hop | rfl | rfl | hop | hop | rfl | rfl | rfl | hop
      · obtain ⟨ptr, hptr, rfl⟩ := List.mem_map.mp hop
        exact ⟨List.mem_cons_self, rfl, maps_of_mem hptr⟩
      · exact List.mem_cons_self
      · trivial
      · cases name with
        | dfault | ifault =>
          obtain rfl := List.mem_singleton.mp hop
          trivial
        | _ => cases hop
      · exact inOrder_of_plain (hmiddle op hop)
      · trivial
      · trivial
      · trivial
      · exact inOrder_of_plain (htail op hop)

end Order

end Simbench.Analysis.BenchmarkOrder
