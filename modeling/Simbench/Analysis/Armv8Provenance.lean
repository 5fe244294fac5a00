import Simbench.Analysis.Armv8Refinement

/-!
# Where the ARMv8 table pages come from

`armv8_heap_get_page` hands out pages without clearing them and the `clear_lN_table`
routines clear two bits of each word, so the address bits of a table word that was never
written are whatever the heap held. A word whose address bits are not zero is taken for a
remembered table. Every next-level table is a page of the allocator exactly because, and as
long as, the pages taken for L0, L1 and L2 tables hold no address bits when they are taken.
-/

set_option autoImplicit false

namespace Simbench.Analysis.Armv8Provenance

open Simbench.Library.RadixTree Simbench.Library.PagedMemory Simbench.Library.TableWalk
open Simbench.Program.Armv8Tables Simbench.Analysis.Armv8Descriptors Simbench.Analysis.Armv8TableInvariant
open Simbench.Analysis.Armv8TableCalls Simbench.Analysis.Armv8Refinement

/-! ## The property -/

/-- INTERNAL: the page at `a` has been handed out by `armv8_heap_get_page`. -/
structure HandedOut (L : HeapLayout) (s : Machine) (a : BitVec 64) : Prop where
  aligned : a.toNat % 4096 = 0
  start_le : L.heapStart.toNat ≤ a.toNat
  lt_heapPtr : a.toNat < s.heapPtr.toNat

/-- INTERNAL: nothing outside the pages handed out was written between `s` and `s'`. -/
def WritesInside (L : HeapLayout) (s s' : Machine) : Prop :=
  ∀ a : BitVec 64, a.toNat < L.heapStart.toNat ∨ s'.heapPtr.toNat ≤ a.toNat → s'.mem a = s.mem a

/-- INTERNAL: a next-level table is a page handed out before it is used, and nothing else was
written until then. -/
def TableOwned (L : HeapLayout) (s : Machine) (r : BitVec 64 × Machine) : Prop :=
  HandedOut L r.2 r.1 ∧ WritesInside L s r.2

/-- INTERNAL: every next-level table of one call is a page handed out, and the call writes to
such pages only. -/
structure StepProvenance (L : HeapLayout) (s : Machine) (c : Call) : Prop where
  tables : ∀ kind pa va, c = .createPageMapping kind pa va →
    ∀ r ∈ tablesUsed L va s, TableOwned L s r
  writes : ∀ s', step L s c = some s' → WritesInside L s s'

/-- INTERNAL: the same of every call of a run. -/
def Provenance (L : HeapLayout) : Machine → List Call → Prop
  | _, [] => True
  | s, c :: calls => StepProvenance L s c ∧ ∀ s', step L s c = some s' → Provenance L s' calls

/-! ## The condition -/

/-- INTERNAL: the pages one call takes for interior tables hold no address bits yet, and an
L0 word without address bits is not marked valid. -/
structure CleanStep (L : HeapLayout) (s : Machine) (c : Call) : Prop where
  rootPage : s.l0Table = 0 → BlankPage L s.mem s.heapPtr
  path : ∀ kind pa va, c = .createPageMapping kind pa va →
    ∀ a s₁, getL0Table L s = some (a, s₁) → PathReady L s₁ (pageOf a) va

/-- INTERNAL: the same of every call of a run. -/
def CleanRun (L : HeapLayout) : Machine → List Call → Prop
  | _, [] => True
  | s, c :: calls => CleanStep L s c ∧ ∀ s', step L s c = some s' → CleanRun L s' calls

/-! ## One call -/

variable {L : HeapLayout} {s s' s'' : Machine} {root : Page} {lvl lvl' : Page → Option ℕ}

/-- INTERNAL: every page that serves as a table was handed out by the heap. -/
theorem handedOut_of_inv {p : Page} {n : ℕ} (h : Inv False L s root lvl) (hp : lvl p = some n) :
    HandedOut L s (base p) := by
  have ho := h.owned hp
  refine ⟨?_, ?_, ?_⟩ <;> rw [toNat_base]
  · exact Nat.mul_mod_left _ _
  · exact ho.1
  · exact ho.2

/-- INTERNAL: a step that changes no byte outside its tables writes inside the heap. -/
theorem writesInside_of_frame (h : Inv False L s' root lvl)
    (hframe : ∀ a, lvl (pageOf a) = none → s'.mem a = s.mem a) : WritesInside L s s' := by
  intro a ha
  apply hframe
  cases hl : lvl (pageOf a) with
  | none => rfl
  | some n =>
    have ho := h.owned hl
    have halign := h.heapAligned
    rw [toNat_pageOf] at ho
    omega

/-- INTERNAL: the tables of a mapping call, level by level.
SRC: arch/armv8/txln_table.c:119-176 -/
theorem tablesUsed_owned {va : BitVec 64} (h : Inv False L s root lvl)
    (hready : PathReady L s root va) : ∀ r ∈ tablesUsed L va s, TableOwned L s r := by
  have howned : ∀ {s' lvl' t n}, Inv False L s' root lvl' →
      Extends armFormat root s.mem lvl s'.mem lvl' →
      lvl' t = some n → TableOwned L s (base t, s') := fun hinv hext ht =>
    ⟨handedOut_of_inv hinv ht, writesInside_of_frame hinv hext.frame⟩
  unfold tablesUsed
  rw [getL0Table_of_inv h]
  dsimp only
  cases h₁ : getL1Table L (base root) va s with
  | none => exact fun r hr => absurd hr List.not_mem_nil
  | some r₁ =>
    obtain ⟨lvl₁, t₁, ha₁, hlvl₁, D₁, hblank⟩ := getL1Table_spec h hready h₁
    dsimp only
    rw [ha₁]
    refine List.forall_mem_cons.mpr ⟨howned D₁.inv D₁.ext hlvl₁, ?_⟩
    cases h₂ : getL2Table L (base t₁) va r₁.2 with
    | none => exact fun r hr => absurd hr List.not_mem_nil
    | some r₂ =>
      obtain ⟨lvl₂, t₂, ha₂, hlvl₂, D₂⟩ := tableOf_spec D₁.inv D₁.reached (by simp)
        (D₁.inv.empty_of_level hlvl₁ (by decide)) (fun hz _ => hblank hz) h₂
      dsimp only
      rw [ha₂]
      refine List.forall_mem_cons.mpr ⟨howned D₂.inv (D₁.ext.trans D₂.ext) hlvl₂, ?_⟩
      intro r₃ h₃
      rw [Option.mem_toList] at h₃
      obtain ⟨lvl₃, t₃, ha₃, hlvl₃, D₃⟩ := tableOf_spec D₂.inv D₂.reached (by simp)
        (D₂.inv.empty_of_level hlvl₂ (by simp)) (fun _ hl => absurd hl (by simp)) h₃
      have ho := howned D₃.inv (D₁.ext.trans (D₂.ext.trans D₃.ext)) hlvl₃
      rwa [← ha₃] at ho

/-- INTERNAL: one call on tables in order: its table is its own, its writes stay inside, and the
tables are in order behind it. -/
theorem stepProvenance_of_inv {c : Call} (h : Inv False L s root lvl)
    (hready : ∀ kind pa va, c = .createPageMapping kind pa va → PathReady L s root va) :
    StepProvenance L s c ∧
      ∀ s', step L s c = some s' → ∃ lvl', Inv False L s' root lvl' := by
  cases c with
  | getTxlnTable =>
    have hsame : ∀ s', step L s .getTxlnTable = some s' → s = s' := by
      intro s' hs
      simpa only [step, getTxlnTable, getL0Table_of_inv h, Option.map_some,
        Option.some.injEq] using hs
    refine ⟨⟨fun _ _ _ he => Call.noConfusion he, fun s' hs a _ => ?_⟩, fun s' hs => ?_⟩
    · rw [hsame s' hs]
    · exact ⟨lvl, hsame s' hs ▸ h⟩
  | clearTxlnTable =>
    refine ⟨⟨fun _ _ _ he => Call.noConfusion he, fun s' hs => ?_⟩, fun s' hs => ?_⟩
    · obtain ⟨hinv, -, hframe, -⟩ := clearTxlnTable_spec h hs False
      refine writesInside_of_frame hinv fun a ha => hframe a ?_
      intro hr
      rw [hr, h.layered.root_level] at ha
      cases ha
    · exact ⟨lvl, (clearTxlnTable_spec h hs False).1⟩
  | createPageMapping kind pa va =>
    have hpath := hready kind pa va rfl
    have hmapped : ∀ s', step L s (.createPageMapping kind pa va) = some s' →
        ∃ lvl', Mapped False L root s lvl kind pa va s' lvl' := by
      intro s' hs
      simp only [step, Option.map_eq_some_iff, Prod.exists, exists_eq_right] at hs
      obtain ⟨rc, hcall⟩ := hs
      exact (mapping_spec h hpath hcall).2
    refine ⟨⟨fun _ _ _ he => ?_, fun s' hs => ?_⟩, fun s' hs => ?_⟩
    · obtain ⟨rfl, rfl, rfl⟩ := Call.createPageMapping.inj he
      exact tablesUsed_owned h hpath
    · obtain ⟨lvl', M⟩ := hmapped s' hs
      exact writesInside_of_frame M.inv M.frame
    · obtain ⟨lvl', M⟩ := hmapped s' hs
      exact ⟨lvl', M.inv⟩

/-- INTERNAL: a mapping call starts by taking the root, so it uses the same tables on the
machine with its root. SRC: arch/armv8/txln_table.c:67-70,210-213 -/
theorem tablesUsed_of_root {a : BitVec 64} (va : BitVec 64)
    (h : getL0Table L s = some (a, s')) (h' : getL0Table L s' = some (a, s')) :
    tablesUsed L va s = tablesUsed L va s' := by
  simp only [tablesUsed, h, h']

/-- INTERNAL: the first call takes the root and then is a call on a machine with tables. -/
theorem stepProvenance_of_fresh {c : Call} (h : Fresh L s) (hclean : CleanStep L s c) :
    StepProvenance L s c ∧
      ∀ s', step L s c = some s' → ∃ root lvl', Inv False L s' root lvl' := by
  cases hroot : getL0Table L s with
  | none =>
    have habort : step L s c = none := by
      cases hs : step L s c with
      | none => rfl
      | some s' =>
        obtain ⟨a, s₁, hsome⟩ := root_of_step hs
        rw [hroot] at hsome
        cases hsome
    refine ⟨⟨fun kind pa va _ => ?_, fun s' hs => ?_⟩, fun s' hs => ?_⟩
    · simp only [tablesUsed, hroot]
      exact fun r hr => absurd hr List.not_mem_nil
    · rw [habort] at hs
      cases hs
    · rw [habort] at hs
      cases hs
  | some r =>
    obtain ⟨a, s₁⟩ := r
    have hnever : False → s.heapPtr.toNat + 4096 ≤ L.heapEnd.toNat →
        ∀ i, view s.mem (pageOf s.heapPtr) i &&& 3 = 0 := False.elim
    obtain ⟨rfl, hs₁, hinv⟩ := getL0Table_of_fresh h (hclean.rootPage h.noTable) hnever hroot
    have hmem : s₁.mem = s.mem := by rw [hs₁]
    have hroot₁ := getL0Table_of_inv hinv
    have hpath : ∀ kind pa va, c = .createPageMapping kind pa va →
        PathReady L s₁ (pageOf s.heapPtr) va := by
      intro kind pa va hc
      have hready := hclean.path kind pa va hc _ _ hroot
      rwa [pageOf_base] at hready
    obtain ⟨hstep, hnext⟩ := stepProvenance_of_inv hinv hpath
    refine ⟨⟨fun kind pa va hc r hr => ?_, fun s' hs b hb => ?_⟩, fun s' hs => ?_⟩
    · rw [tablesUsed_of_root va hroot hroot₁] at hr
      obtain ⟨hout, hwrites⟩ := hstep.tables kind pa va hc r hr
      exact ⟨hout, fun b hb => by rw [hwrites b hb, hmem]⟩
    · rw [step_of_root c hroot hroot₁] at hs
      rw [hstep.writes s' hs b hb, hmem]
    · rw [step_of_root c hroot hroot₁] at hs
      exact ⟨_, hnext s' hs⟩

/-! ## Runs -/

/-- INTERNAL: every call of a clean run uses tables of its own and writes inside the heap. Induction
on the calls. -/
theorem provenance_of_inv (calls : List Call) (h : Inv False L s root lvl)
    (hclean : CleanRun L s calls) : Provenance L s calls := by
  induction calls generalizing s lvl with
  | nil => trivial
  | cons c calls ih =>
    obtain ⟨hstep, hrest⟩ := hclean
    have hready : ∀ kind pa va, c = .createPageMapping kind pa va → PathReady L s root va := by
      intro kind pa va hc
      have hpath := hstep.path kind pa va hc _ _ (getL0Table_of_inv h)
      rwa [pageOf_base] at hpath
    obtain ⟨hprov, hnext⟩ := stepProvenance_of_inv h hready
    refine ⟨hprov, fun s' hs => ?_⟩
    obtain ⟨lvl', hinv⟩ := hnext s' hs
    exact ih hinv (hrest s' hs)

/-- INTERNAL: calls with addresses of 48 bits on zeroed pages make a clean run. -/
theorem cleanRun_of_represents {calls : List Call} (done : List Call)
    (hc : ∀ c ∈ calls, InRange c) (h : Represents L s done) : CleanRun L s calls := by
  induction calls generalizing s done with
  | nil => trivial
  | cons c calls ih =>
    refine ⟨?_, fun s' hs => ih (done ++ [c]) (fun c' hc' => hc c' (List.mem_cons_of_mem _ hc'))
      (h.step (hc c List.mem_cons_self) hs)⟩
    cases h with
    | fresh hfresh hz _ =>
      refine ⟨fun _ hroom i => ?_, fun kind pa va _ a s₁ hroot => ?_⟩
      · rw [hz.blank (by rw [hfresh.heap]; exact L.aligned) (Nat.le_refl _) hroom i]
        rfl
      · obtain ⟨root, rfl, hinv, hz₁, -⟩ := root_of_fresh hfresh hz hroot
        rw [pageOf_base]
        exact pathReady_of_zero hinv hz₁ va
    | tables root lvl hinv hz _ =>
      refine ⟨fun htable => absurd htable hinv.hasTable, fun kind pa va _ a s₁ hroot => ?_⟩
      rw [getL0Table_of_inv hinv, Option.some.injEq, Prod.mk.injEq] at hroot
      obtain ⟨rfl, rfl⟩ := hroot
      rw [pageOf_base]
      exact pathReady_of_zero hinv hz va

/-- SOURCE: arch/armv8/txln_table.c:60-246, arch/armv8/heap.c:11-25 — **table-page
provenance.** Whatever the heap holds, in a run whose calls take only clean pages for
interior tables, every next-level table is a page handed out by the allocator and no call
writes outside such pages. -/
theorem provenance_of_cleanRun (L : HeapLayout) (mem : Memory) (calls : List Call)
    (hclean : CleanRun L (armv8HeapInit L mem) calls) :
    Provenance L (armv8HeapInit L mem) calls := by
  cases calls with
  | nil => trivial
  | cons c calls =>
    obtain ⟨hprov, hnext⟩ := stepProvenance_of_fresh ⟨rfl, rfl⟩ hclean.1
    refine ⟨hprov, fun s' hs => ?_⟩
    obtain ⟨root, lvl, hinv⟩ := hnext s' hs
    exact provenance_of_inv calls hinv (hclean.2 s' hs)

/-- INTERNAL: two mappings and a clear on a heap that reads as zero. -/
theorem provenance_of_cleanRun_zero :
    Provenance smallHeap (armv8HeapInit smallHeap fun _ => 0)
      [.createPageMapping .data 0x5000 0x7000, .clearTxlnTable,
        .createPageMapping .code 0x5000 0x40007000] := by
  refine provenance_of_cleanRun smallHeap (fun _ => 0)
    [.createPageMapping .data 0x5000 0x7000, .clearTxlnTable,
      .createPageMapping .code 0x5000 0x40007000]
    (cleanRun_of_represents [] ?_ (.fresh ⟨rfl, rfl⟩ (fun _ _ _ => rfl) fun _ => rfl))
  simp only [List.mem_cons, List.not_mem_nil, or_false, forall_eq_or_imp, forall_eq]
  exact ⟨⟨by decide, by decide⟩, trivial, by decide, by decide⟩

/-- INTERNAL: a heap that holds `0x40000000` in every word: the first mapping call takes that
address, which the allocator never handed out, for an L1 table. -/
theorem provenance_fails_on_garbage :
    ¬Provenance smallHeap (armv8HeapInit smallHeap fun _ => 0x40000000)
      [.createPageMapping .data 0x5000 0x7000] := by
  rintro ⟨hstep, -⟩
  have hused : (tablesUsed smallHeap 0x7000 (armv8HeapInit smallHeap fun _ => 0x40000000)).head?.map
      (fun r => (r.1, r.2.heapPtr)) = some (0x40000000, 0x2000) := by decide +kernel
  obtain ⟨r, hr, hval⟩ := Option.map_eq_some_iff.mp hused
  have hout := (hstep.tables .data 0x5000 0x7000 rfl r (List.mem_of_head? hr)).1.lt_heapPtr
  rw [Prod.mk.injEq] at hval
  rw [hval.1, hval.2] at hout
  exact absurd hout (by decide)

end Simbench.Analysis.Armv8Provenance
