import Simbench.Analysis.X86PageTableInvariant
import Simbench.Library.LastWrite

/-!
# The x86-64 page tables refine a partial map

The abstract component is a partial map from page indices to frames that every mapping
call writes. From a freshly allocated root the hardware walk is that map after every
sequence of calls, and a call touches the tables it owns and nothing else.
-/

set_option autoImplicit false

namespace Simbench.Analysis.X86Refinement

open Simbench.Library.RadixTree Simbench.Library.PagedMemory Simbench.Library.TableWalk
open Simbench.Library.LastWrite Simbench.Program.X86PageTables
open Simbench.Analysis.X86PageTableInvariant

/-! ## The abstract map -/

/-- INTERNAL: the two addresses have the same four indices. -/
def SameIndices (va va' : BitVec 64) : Prop := vaPath va = vaPath va' ∧ vaSlot 12 va = vaSlot 12 va'

/-- INTERNAL: whether two addresses have the same indices is decided level by level. -/
instance (va va' : BitVec 64) : Decidable (SameIndices va va') :=
  inferInstanceAs (Decidable (_ ∧ _))

/-- INTERNAL: what a mapping to `pa` makes its page translate to: the 4 KiB page of `pa`,
present, writable and user. -/
def installed (pa : BitVec 64) : Translation :=
  ⟨base (pageOf pa), pfPresent ||| pfWritable ||| pfUser⟩

/-- INTERNAL: one call on the partial map, seen at `va`. -/
def effectAt (va : BitVec 64) (c : Call) : Option (Option Translation) :=
  if SameIndices c.virtAddr va then some (some (installed c.physAddr)) else none

/-! ## One call -/

variable {s s' : Machine} {root : Page} {lvl : Page → Option ℕ}

/-- INTERNAL: the hardware's walk is a lookup in the tree of tables. -/
theorem walk_eq_lookup (h : Inv s root lvl) (va : BitVec 64) :
    walk s va = lookup x86Format (view s.mem) root (vaPath va) (vaSlot 12 va) := by
  rw [walk, h.table]
  exact fourLevelWalk_eq_lookup h.layered (Inv.followTable_eq h) va

/-- INTERNAL: both mapping routines are `__create_page_mapping` of `runtime_pagetables`.
SRC: arch/x86_64/mem.c:193-201 -/
theorem step_eq (s : Machine) (c : Call) :
    step s c = createPageMapping s.runtimePagetables c.physAddr c.virtAddr s := by
  cases c <;> rfl

/-- INTERNAL: the entry of a page is read back as what the call installs. -/
theorem leaf_entryWord {pa : BitVec 64} (h : pa.toNat < 2 ^ 52) :
    x86Format.leaf (entryWord pa) = some (installed pa) := by
  obtain ⟨hframe, hflags⟩ := entryWord_fields h
  simp only [x86Format, leafTranslation, if_pos (entryWord_present pa), hframe, hflags]
  rfl

/-- INTERNAL: the three interior levels of a mapping call.
SRC: arch/x86_64/mem.c:161-186 -/
theorem interior_spec {pa va : BitVec 64} (h : Inv s root lvl)
    (hcall : createPageMapping (base root) pa va s = some s') :
    ∃ s₃ lvl₃ t, Inv s₃ root lvl₃ ∧ Extends x86Format root s.mem lvl s₃.mem lvl₃ ∧
      descend x86Format (view s₃.mem) root (vaPath va) = some t ∧
      s' =
        { s₃ with mem := Function.update s₃.mem (slotAddr t (vaSlot 12 va)) (entryWord pa) } := by
  simp only [createPageMapping, calculateIndicies, wordAddr_tableIndex, Option.bind_eq_bind,
    Option.bind_eq_some_iff, setFlags_setBaseAddress, Option.some.injEq] at hcall
  obtain ⟨s₁, h₁, s₂, h₂, s₃, h₃, hs'⟩ := hcall
  have hd₀ : descend x86Format (view s.mem) root [] = some root := rfl
  obtain ⟨lvl₁, t₁, hbase₁, I₁, E₁, hd₁⟩ := populate_spec h hd₀ (by decide) h₁
  rw [hbase₁, wordAddr_tableIndex] at h₂ h₃ hs'
  obtain ⟨lvl₂, t₂, hbase₂, I₂, E₂, hd₂⟩ := populate_spec I₁ hd₁ (by simp) h₂
  rw [hbase₂, wordAddr_tableIndex] at h₃ hs'
  obtain ⟨lvl₃, t₃, hbase₃, I₃, E₃, hd₃⟩ := populate_spec I₂ hd₂ (by simp) h₃
  rw [hbase₃, wordAddr_tableIndex] at hs'
  exact ⟨s₃, lvl₃, t₃, I₃, E₁.trans (E₂.trans E₃), hd₃, hs'.symm⟩

/-- INTERNAL: the effect of a mapping call on the tables. -/
structure Mapped (root : Page) (s : Machine) (pa va : BitVec 64) (s' : Machine)
    (lvl' : Page → Option ℕ) : Prop where
  inv : Inv s' root lvl'
  frame : ∀ a, lvl' (pageOf a) = none → s'.mem a = s.mem a
  lookup_eq : ∀ path last, path.length = 3 →
    lookup x86Format (view s'.mem) root path last =
      if path = vaPath va ∧ last = vaSlot 12 va then x86Format.leaf (entryWord pa)
      else lookup x86Format (view s.mem) root path last

/-- INTERNAL: **a mapping call** changes the lookup of its page and nothing else.
SRC: arch/x86_64/mem.c:155-191 -/
theorem createPageMapping_spec {pa va : BitVec 64} (h : Inv s root lvl)
    (hcall : createPageMapping (base root) pa va s = some s') :
    ∃ lvl', Mapped root s pa va s' lvl' := by
  obtain ⟨s₃, lvl₃, t, I, E, hd, rfl⟩ := interior_spec h hcall
  have hlvl : lvl₃ t = some 3 := I.layered.descend_level (vaPath va) t (Nat.le_refl _) hd
  have hview : view (Function.update s₃.mem (slotAddr t (vaSlot 12 va)) (entryWord pa)) =
      setEntry (view s₃.mem) t (vaSlot 12 va) (entryWord pa) := view_update _ _ _ _
  refine ⟨lvl₃, ⟨I.table, ?_, ?_, I.owned, I.rootNonzero, I.heapAligned, I.heapEnd_le⟩,
    fun a ha => ?_, fun path last hlen => ?_⟩
  · rw [hview]
    exact I.layered.setLeaf hlvl _ _
  · intro p n i hp hn
    have hpt : ¬(p = t ∧ i = vaSlot 12 va) := by
      rintro ⟨rfl, -⟩
      rw [hlvl, Option.some.injEq] at hp
      omega
    rw [hview, setEntry_of_ne _ _ _ _ hpt]
    exact I.entry i hp hn
  · have hat : pageOf a ≠ t := by
      rintro rfl
      rw [hlvl] at ha
      cases ha
    rw [← E.frame a ha]
    exact update_slotAddr_of_ne _ _ _ _ hat
  · rw [hview, I.layered.lookup_setLeaf (vaPath va) rfl hd _ _ path hlen last,
      E.lookup_eq path last hlen]

/-! ## Room -/

/-- INTERNAL: the routine returns, having taken at most `n` pages. -/
def Returns (s : Machine) (n : ℕ) (r : Option Machine) : Prop :=
  ∃ s', r = some s' ∧ s'.heapEnd = s.heapEnd ∧
    s'.heapCur.toNat ≤ s.heapCur.toNat + n * 4096

/-- INTERNAL: filling an entry takes one page at most. -/
theorem populate_returns (pte : BitVec 64) (hroom : s.heapCur.toNat + 4096 ≤ s.heapEnd.toNat) :
    Returns s 1 (populate pte s) := by
  have hend := s.heapEnd.isLt
  have hadd : (s.heapCur + 0x1000).toNat = s.heapCur.toNat + 4096 := by
    rw [BitVec.toNat_add, show (0x1000 : BitVec 64).toNat = 4096 from rfl]
    omega
  have hlt : ¬s.heapEnd ≤ s.heapCur := by
    rw [BitVec.not_le, BitVec.lt_def]
    omega
  simp only [populate, heapAllocPage, if_neg hlt, Option.bind_eq_bind, Option.bind_some]
  split
  · exact ⟨s, rfl, rfl, by omega⟩
  · split
    · exact ⟨_, rfl, rfl, Nat.le_of_eq hadd⟩
    · exact ⟨_, rfl, rfl, Nat.le_add_right _ _⟩

/-- INTERNAL: steps one after the other take their pages together. -/
theorem Returns.bind {n m : ℕ} {r : Option Machine} {f : Machine → Option Machine}
    (h : Returns s n r) (hf : ∀ s₁ : Machine, s₁.heapEnd = s.heapEnd →
      s₁.heapCur.toNat ≤ s.heapCur.toNat + n * 4096 → Returns s₁ m (f s₁)) :
    Returns s (n + m) (r.bind f) := by
  obtain ⟨s₁, rfl, hend₁, hle₁⟩ := h
  obtain ⟨s₂, h₂, hend₂, hle₂⟩ := hf s₁ hend₁ hle₁
  exact ⟨s₂, h₂, hend₂.trans hend₁, by omega⟩

/-- INTERNAL: a call takes three pages at most, and returns with these left. -/
theorem step_returns (c : Call) (hroom : s.heapCur.toNat + 12288 ≤ s.heapEnd.toNat) :
    Returns s 3 (step s c) := by
  rw [step_eq]
  refine Returns.bind (n := 1) (m := 2) (populate_returns _ (by omega)) fun s₁ hend₁ hle₁ => ?_
  refine Returns.bind (n := 1) (m := 1) (populate_returns _ (by rw [hend₁]; omega))
    fun s₂ hend₂ hle₂ => ?_
  refine Returns.bind (n := 1) (m := 0) (populate_returns _ (by rw [hend₂, hend₁]; omega))
    fun s₃ hend₃ hle₃ => ?_
  exact ⟨_, rfl, rfl, Nat.le_refl _⟩

/-- INTERNAL: a run with three pages for each of its calls returns. -/
theorem run_returns (calls : List Call)
    (hroom : s.heapCur.toNat + 3 * calls.length * 4096 ≤ s.heapEnd.toNat) :
    ∃ s', run s calls = some s' := by
  induction calls generalizing s with
  | nil => exact ⟨s, rfl⟩
  | cons c calls ih =>
    rw [List.length_cons] at hroom
    obtain ⟨s₁, h₁, hend, hle⟩ := step_returns (s := s) c (by omega)
    obtain ⟨s', h'⟩ := ih (s := s₁) (by rw [hend]; omega)
    refine ⟨s', ?_⟩
    simp only [run, List.foldlM_cons, h₁, Option.bind_eq_bind, Option.bind_some]
    exact h'

/-! ## Runs -/

/-- INTERNAL: the relation between the machine and the calls made so far. -/
def Represents (s : Machine) (root : Page) (calls : List Call) : Prop :=
  ∃ lvl, Inv s root lvl ∧ ∀ va,
    lookup x86Format (view s.mem) root (vaPath va) (vaSlot 12 va) = lastWrite (effectAt va) calls

/-- INTERNAL: a heap `heap_alloc_page` can serve from: a page-aligned, non-zero address in the
52-bit physical address space. -/
structure HeapReady (s : Machine) : Prop where
  aligned : s.heapCur.toNat % 4096 = 0
  nonzero : 0 < s.heapCur.toNat
  bounded : s.heapEnd.toNat ≤ 2 ^ 52

/-- INTERNAL: the freshly allocated root is an empty tree.
SRC: arch/x86_64/mem.c:58 -/
theorem represents_of_alloc (h : HeapReady s) (hcall : allocRuntimePagetables s = some s') :
    Represents s' (pageOf s.heapCur) [] ∧ s'.runtimePagetables = s.heapCur := by
  simp only [allocRuntimePagetables, Option.bind_eq_bind, Option.bind_eq_some_iff,
    Option.some.injEq, Prod.exists] at hcall
  obtain ⟨page, s₁, halloc, hs'⟩ := hcall
  obtain ⟨hpage, hs₁, hadd, hend⟩ := heapAllocPage_spec h.aligned h.bounded halloc
  have hbase := base_pageOf h.aligned
  have hmem : s'.mem = fastZeroPage (base (pageOf s.heapCur)) s.mem := by
    rw [← hs', hs₁, ← hpage]
  have hcur : s'.heapCur.toNat = s.heapCur.toNat + 4096 := by
    rw [← hs', hs₁]
    exact hadd
  have htable : s'.runtimePagetables = base (pageOf s.heapCur) := by
    rw [← hs', ← hpage]
  have hbound : s'.heapEnd = s.heapEnd := by rw [← hs', hs₁]
  have hzero : ∀ i, view s'.mem (pageOf s.heapCur) i = 0 := by
    intro i
    rw [hmem, fastZeroPage, view_updateWords, rewrite_self]
  set root := pageOf s.heapCur
  have hnum : root.toNat * 4096 = s.heapCur.toNat := by rw [← toNat_base, hbase]
  have hnonzero := h.nonzero
  have halign := h.aligned
  have honly : ∀ {p n}, (if p = root then some 0 else none) = some n → p = root ∧ n = 0 := by
    intro p n hp
    split at hp
    · exact ⟨by assumption, (Option.some.inj hp).symm⟩
    · cases hp
  refine ⟨⟨fun p => if p = root then some 0 else none, ⟨htable, ⟨if_pos rfl, ?_, ?_⟩, ?_, ?_,
    by omega, by omega, hbound ▸ h.bounded⟩, fun va => ?_⟩, htable.trans hbase⟩
  · intro p n i q hp _ hq
    obtain ⟨rfl, -⟩ := honly hp
    rw [hzero] at hq
    cases hq
  · intro p n i p' n' i' q hp _ hq
    obtain ⟨rfl, -⟩ := honly hp
    rw [hzero] at hq
    cases hq
  · intro p n i hp _
    obtain ⟨rfl, -⟩ := honly hp
    exact Or.inl (hzero i)
  · intro p n hp
    obtain ⟨rfl, -⟩ := honly hp
    omega
  · refine lookup_of_dead (fun i => ?_) _ _
    rw [hzero]
    exact x86Format_zero

/-- INTERNAL: **one call** on the tables is one call on the partial map. -/
theorem Represents.step {calls : List Call} {c : Call} (h : Represents s root calls)
    (hc : c.physAddr.toNat < 2 ^ 52) (hstep : Program.X86PageTables.step s c = some s') :
    Represents s' root (calls ++ [c]) := by
  obtain ⟨lvl, hinv, hmap⟩ := h
  rw [step_eq, hinv.table] at hstep
  obtain ⟨lvl', M⟩ := createPageMapping_spec hinv hstep
  refine ⟨lvl', M.inv, fun va => ?_⟩
  rw [M.lookup_eq _ _ rfl, lastWrite_concat, hmap va, leaf_entryWord hc]
  by_cases hsame : SameIndices c.virtAddr va
  · rw [effectAt, if_pos hsame, if_pos ⟨hsame.1.symm, hsame.2.symm⟩, Option.getD_some]
  · rw [effectAt, if_neg hsame, if_neg fun he => hsame ⟨he.1.symm, he.2.symm⟩, Option.getD_none]

/-- INTERNAL: a run takes tables that stand for some calls to tables that stand for these and its
own. -/
theorem Represents.run {calls : List Call} (done : List Call)
    (hc : ∀ c ∈ calls, c.physAddr.toNat < 2 ^ 52) (h : Represents s root done)
    (hrun : Program.X86PageTables.run s calls = some s') :
    Represents s' root (done ++ calls) := by
  induction calls generalizing s done with
  | nil =>
    simp only [Program.X86PageTables.run, List.foldlM_nil, Option.pure_def,
      Option.some.injEq] at hrun
    subst hrun
    rwa [List.append_nil]
  | cons c calls ih =>
    simp only [Program.X86PageTables.run, List.foldlM_cons, Option.bind_eq_bind,
      Option.bind_eq_some_iff] at hrun
    obtain ⟨s₁, hstep, hrest⟩ := hrun
    have h₁ := h.step (hc c List.mem_cons_self) hstep
    have h₂ := ih (done ++ [c]) (fun c' hc' => hc c' (List.mem_cons_of_mem _ hc')) h₁ hrest
    rwa [List.append_assoc, List.singleton_append] at h₂

/-- INTERNAL: what one call leaves alone: the translation of every other page, and the memory
outside the pages allocated for tables since the root. -/
structure Frame (root : BitVec 64) (s : Machine) (c : Call) (s' : Machine) : Prop where
  translations : ∀ va, ¬SameIndices c.virtAddr va → walk s' va = walk s va
  memory : ∀ a : BitVec 64, a.toNat < root.toNat ∨ s'.heapCur.toNat ≤ a.toNat →
    s'.mem a = s.mem a

/-- INTERNAL: what a call changes lies in its tables. -/
theorem Represents.frame {calls : List Call} {c : Call} (h : Represents s root calls)
    (hstep : Program.X86PageTables.step s c = some s') : Frame (base root) s c s' := by
  obtain ⟨lvl, hinv, -⟩ := h
  rw [step_eq, hinv.table] at hstep
  obtain ⟨lvl', M⟩ := createPageMapping_spec hinv hstep
  refine ⟨fun va hva => ?_, fun a ha => M.frame a ?_⟩
  · rw [walk_eq_lookup hinv, walk_eq_lookup M.inv, M.lookup_eq _ _ rfl, if_neg]
    exact fun he => hva ⟨he.1.symm, he.2.symm⟩
  · cases hl : lvl' (pageOf a) with
    | none => rfl
    | some n =>
      have ho := M.inv.owned hl
      have halign := M.inv.heapAligned
      rw [toNat_pageOf] at ho
      rw [toNat_base] at ha
      omega

/-- SOURCE: arch/x86_64/mem.c:117-201, arch/x86_64/heap.c:19-32 — **the x86-64 page tables
refine a partial map.** From a freshly allocated root, the mapping calls return as long as
the heap lasts; after any sequence of them a walk finds all four entries present exactly
when some call mapped the same four indices, and then the page of the last such call with
the flags present, writable and user; one more call leaves every other page and all memory
outside its tables alone. -/
theorem walk_refines_lastCall (s₀ s₁ : Machine) (calls : List Call) (hheap : HeapReady s₀)
    (hroot : allocRuntimePagetables s₀ = some s₁)
    (hcalls : ∀ c ∈ calls, c.physAddr.toNat < 2 ^ 52) :
    (s₁.heapCur.toNat + 3 * calls.length * 4096 ≤ s₁.heapEnd.toNat → ∃ s, run s₁ calls = some s) ∧
    ∀ s, run s₁ calls = some s →
      (∀ va t, walk s va = some t ↔ WrittenLast (effectAt va) calls t) ∧
      ∀ c s', step s c = some s' → Frame s₁.runtimePagetables s c s' := by
  obtain ⟨hempty, htable⟩ := represents_of_alloc hheap hroot
  refine ⟨run_returns calls, fun s hrun => ?_⟩
  have hrep := Represents.run [] hcalls hempty hrun
  rw [List.nil_append] at hrep
  refine ⟨fun va t => ?_, fun c s' hstep => ?_⟩
  · obtain ⟨lvl, hinv, hmap⟩ := hrep
    rw [walk_eq_lookup hinv, hmap va, lastWrite_eq_some_iff]
  · rw [htable, ← base_pageOf hheap.aligned]
    exact hrep.frame hstep

/-- INTERNAL: two mappings of one page: the later frame is found, a neighbour is not mapped. -/
theorem walk_refines_lastCall_twice :
    ∃ s₁, allocRuntimePagetables (heapInit 0x100000 0x40000 fun _ => 0xffff) = some s₁ ∧
      ∃ s, run s₁ [.data 0x5000 0x7123, .code 0x9fff 0x7000] = some s ∧
        walk s 0x7abc = some ⟨0x9000, 7⟩ ∧ walk s 0x8000 = none := by
  refine ⟨_, rfl, ?_⟩
  obtain ⟨hruns, hwalk⟩ := walk_refines_lastCall (heapInit 0x100000 0x40000 fun _ => 0xffff) _
    [.data 0x5000 0x7123, .code 0x9fff 0x7000] ⟨by decide, by decide, by decide⟩ rfl
    (by simp only [List.mem_cons, List.not_mem_nil, or_false, forall_eq_or_imp, forall_eq]; decide)
  obtain ⟨s, hs⟩ := hruns (by decide)
  obtain ⟨hmap, -⟩ := hwalk s hs
  refine ⟨s, hs, (hmap _ _).mpr ?_, Option.eq_none_iff_forall_ne_some.mpr fun t ht => ?_⟩
  · rw [← lastWrite_eq_some_iff]
    decide
  · rw [hmap, ← lastWrite_eq_some_iff, show lastWrite _ _ = none by decide] at ht
    cases ht

end Simbench.Analysis.X86Refinement
