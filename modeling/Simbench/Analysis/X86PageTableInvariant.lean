import Simbench.Program.X86PageTables

/-!
# The tree of x86-64 page tables

Every word of an interior table is zero or a present entry written by the code, the pages
allocated since the root form a layered radix tree, and a page is zeroed before it is
linked. So each of the three blocks of `__create_page_mapping` either follows an entry or
grafts an empty table, and the last store changes one leaf.
-/

set_option autoImplicit false

namespace Simbench.Analysis.X86PageTableInvariant

open Simbench.Library.RadixTree Simbench.Library.PagedMemory Simbench.Library.TableWalk
open Simbench.Program.X86PageTables

/-! ## Entries -/

/-- INTERNAL: the entry that maps the page of an address with the flags of the code. -/
def entryWord (a : BitVec 64) : BitVec 64 := 7#64 ||| base (pageOf a)

/-- INTERNAL: setting the base address and then the flags determines the whole entry.
SRC: arch/x86_64/mem.c:117-130 -/
theorem setFlags_setBaseAddress (pte a : BitVec 64) (m : Memory) :
    setFlags pte (pfPresent ||| pfWritable ||| pfUser) (setBaseAddress pte a m) =
      Function.update m pte (entryWord a) := by
  have hflags : (pfPresent ||| pfWritable ||| pfUser) &&& 0xfff#64 = 7#64 := by decide
  have hword : ((a &&& ~~~0xfff#64) ||| (m pte &&& 0xfff#64)) &&& ~~~0xfff#64 =
      base (pageOf a) := by
    rw [BitVec.and_or_distrib_right, BitVec.and_assoc, BitVec.and_self, BitVec.and_assoc,
      show 0xfff#64 &&& ~~~0xfff#64 = 0#64 by decide, and_not_offset, BitVec.and_zero,
      BitVec.or_zero]
  unfold setFlags setBaseAddress
  rw [Function.update_idem, Function.update_self, hflags, hword, entryWord]

/-- INTERNAL: an entry made by the kernel is present. -/
theorem entryWord_present (a : BitVec 64) : entryWord a &&& 1 = 1 := by
  apply BitVec.eq_of_getLsbD_eq
  intro i hi
  have h : ∀ j : Fin 64, (1#64).getLsbD j = true → (7#64).getLsbD j = true := by decide
  have hi := h ⟨i, hi⟩
  rw [entryWord, BitVec.getLsbD_and, BitVec.getLsbD_or]
  cases hone : (1#64).getLsbD i <;> simp_all

/-- INTERNAL: its address field is the page it refers to. -/
theorem entryWord_base (a : BitVec 64) : entryWord a &&& ~~~0xfff#64 = base (pageOf a) := by
  have hseven : 7#64 &&& ~~~0xfff#64 = 0 := by decide
  rw [entryWord, BitVec.and_or_distrib_right, hseven, and_not_offset, pageOf_base]
  exact BitVec.zero_or

/-- INTERNAL: with all address bits of the hardware it still is, and its flags are 7. -/
theorem entryWord_fields {a : BitVec 64} (h : a.toNat < 2 ^ 52) :
    entryWord a &&& frameMask = base (pageOf a) ∧ entryWord a &&& ~~~frameMask = 7 := by
  have hseven : 7#64 &&& frameMask = 0 ∧ 7#64 &&& ~~~frameMask = 7 := by decide
  have hbase : base (pageOf a) &&& frameMask = base (pageOf a) :=
    base_and_mask (n := 52) (by decide) (by rw [toNat_pageOf]; omega)
  have hrest : base (pageOf a) &&& ~~~frameMask = 0 := by
    rw [← hbase, BitVec.and_assoc]
    exact BitVec.and_zero
  rw [entryWord, BitVec.and_or_distrib_right, BitVec.and_or_distrib_right, hseven.1, hseven.2,
    hbase, hrest]
  exact ⟨BitVec.zero_or, BitVec.or_zero⟩

/-- INTERNAL: the index the code computes is the slot of the table.
SRC: arch/x86_64/mem.c:142-152 -/
theorem wordAddr_tableIndex (p : Page) (shift : ℕ) (va : BitVec 64) :
    wordAddr (base p) (tableIndex shift va) = slotAddr p (vaSlot shift va) := by
  have hn : (tableIndex shift va).toNat = va.toNat / 2 ^ shift % 512 := by
    have h := Nat.and_two_pow_sub_one_eq_mod (va.toNat / 2 ^ shift) 9
    unfold tableIndex
    rw [BitVec.toNat_setWidth, BitVec.toNat_and, BitVec.toNat_ushiftRight,
      Nat.shiftRight_eq_div_pow, show (0x1ff : BitVec 64).toNat = 2 ^ 9 - 1 from rfl, h]
    omega
  rw [wordAddr_base p _ (by omega)]
  congr 1
  apply BitVec.eq_of_toNat_eq
  rw [BitVec.toNat_setWidth, toNat_vaSlot, hn]
  omega

/-- INTERNAL: x86-64 page-table entries as radix-tree words. -/
def x86Format : Format Page (BitVec 64) Translation where
  child w := (followTable w).map pageOf
  next w := (followTable w).map pageOf
  leaf := leafTranslation
  next_child _ _ h := h

/-- INTERNAL: an empty entry leads nowhere. -/
theorem x86Format_zero : x86Format.next 0 = none ∧ x86Format.leaf 0 = none := by decide

/-- INTERNAL: an entry made for a table leads to that table. -/
theorem next_entryWord {c : Page} (h : c.toNat * 4096 < 2 ^ 52) :
    x86Format.next (entryWord (base c)) = some c := by
  have hf := (entryWord_fields (a := base c) (by rw [toNat_base]; exact h)).1
  simp only [x86Format, followTable, if_pos (entryWord_present _), hf, Option.map_some,
    pageOf_base]

/-! ## The invariant -/

/-- INTERNAL: the page tables below `runtime_pagetables`. -/
structure Inv (s : Machine) (root : Page) (lvl : Page → Option ℕ) : Prop where
  table : s.runtimePagetables = base root
  layered : Layered x86Format 3 (view s.mem) root lvl
  entry : ∀ {p n} i, lvl p = some n → n < 3 → view s.mem p i = 0 ∨
    ∃ c : Page, view s.mem p i = entryWord (base c) ∧ c.toNat * 4096 < 2 ^ 52
  owned : ∀ {p n}, lvl p = some n →
    root.toNat ≤ p.toNat ∧ p.toNat * 4096 < s.heapCur.toNat
  rootNonzero : 0 < root.toNat
  heapAligned : s.heapCur.toNat % 4096 = 0
  heapEnd_le : s.heapEnd.toNat ≤ 2 ^ 52

/-- INTERNAL: what `heap_alloc_page` does when it returns. SRC: arch/x86_64/heap.c:19-32 -/
theorem heapAllocPage_spec {s s' : Machine} {page : BitVec 64}
    (halign : s.heapCur.toNat % 4096 = 0) (hend : s.heapEnd.toNat ≤ 2 ^ 52)
    (h : heapAllocPage s = some (page, s')) :
    page = base (pageOf s.heapCur) ∧
      s' = { s with heapCur := s.heapCur + 0x1000, mem := fastZeroPage page s.mem } ∧
      (s.heapCur + 0x1000).toNat = s.heapCur.toNat + 4096 ∧
      s.heapCur.toNat + 4096 ≤ 2 ^ 52 := by
  simp only [heapAllocPage] at h
  split at h
  · cases h
  · rename_i hlt
    simp only [Option.some.injEq, Prod.mk.injEq] at h
    obtain ⟨rfl, rfl⟩ := h
    rw [BitVec.not_le, BitVec.lt_def] at hlt
    have hadd : (s.heapCur + 0x1000).toNat = s.heapCur.toNat + 4096 := by
      rw [BitVec.toNat_add, show (0x1000 : BitVec 64).toNat = 4096 from rfl]
      omega
    exact ⟨(base_pageOf halign).symm, rfl, hadd, by omega⟩

namespace Inv

variable {s s' : Machine} {root : Page} {lvl : Page → Option ℕ}

/-- INTERNAL: no page behind the heap cursor is a table. -/
theorem unowned (h : Inv s root lvl) {p : Page} (hp : s.heapCur.toNat ≤ p.toNat * 4096) :
    lvl p = none := by
  cases hl : lvl p with
  | none => rfl
  | some n =>
    have ho := h.owned hl
    omega

/-- INTERNAL: the interior entries the code and the hardware follow are the same. -/
theorem followTable_eq (h : Inv s root lvl) {p : Page} {n : ℕ} (i : Slot) (hp : lvl p = some n)
    (hn : n < 3) :
    followTable (view s.mem p i) = (x86Format.next (view s.mem p i)).map base := by
  rcases h.entry i hp hn with he | ⟨c, he, hc⟩
  · rw [he]
    rfl
  · rw [he, next_entryWord hc, followTable, if_pos (entryWord_present _),
      (entryWord_fields (by rw [toNat_base]; exact hc)).1, pageOf_base]
    rfl

end Inv

/-- INTERNAL: the present bit is what `is_present` tests. -/
theorem isPresent_of_bit {pte : BitVec 64} {m : Memory} (h : m pte &&& 1 = 1) :
    isPresent pte m = true := by
  rw [isPresent, getFlags, BitVec.and_assoc, pfPresent, show 0xfff#64 &&& 1 = 1 by decide, h]
  rfl

/-- INTERNAL: an empty entry has neither a page nor the bit that says so. -/
theorem empty_entry {pte : BitVec 64} {m : Memory} (hzero : m pte = 0) :
    isPresent pte m = false ∧ getBaseAddress pte m = 0 := by
  rw [isPresent, getFlags, getBaseAddress, hzero]
  decide

/-- INTERNAL: an empty entry gets the allocated page, with its flags.
SRC: arch/x86_64/mem.c:162-168 -/
theorem populate_alloc {pte page : BitVec 64} {s s₁ : Machine} (hzero : s.mem pte = 0)
    (halloc : heapAllocPage s = some (page, s₁)) :
    populate pte s = some { s₁ with mem := Function.update s₁.mem pte (entryWord page) } := by
  obtain ⟨hpresent, hbase⟩ := empty_entry hzero
  simp only [populate, hpresent, hbase, halloc, Bool.false_eq_true, if_true, if_false,
    Option.bind_eq_bind, Option.bind_some, setFlags_setBaseAddress]

/-- INTERNAL: an empty entry gets a new zeroed page, with its flags.
SRC: arch/x86_64/mem.c:162-168 -/
theorem populate_of_zero {pte : BitVec 64} {s s' : Machine} {root : Page}
    {lvl : Page → Option ℕ} (h : Inv s root lvl) (hzero : s.mem pte = 0)
    (hcall : populate pte s = some s') :
    s'.mem = Function.update (fastZeroPage (base (pageOf s.heapCur)) s.mem) pte
        (entryWord (base (pageOf s.heapCur))) ∧
      s'.heapCur.toNat = s.heapCur.toNat + 4096 ∧ s'.heapEnd = s.heapEnd ∧
      s'.runtimePagetables = s.runtimePagetables ∧ s'.heapCur.toNat ≤ 2 ^ 52 := by
  cases halloc : heapAllocPage s with
  | none =>
    obtain ⟨hpresent, hbase⟩ := empty_entry hzero
    simp [populate, hpresent, hbase, halloc] at hcall
  | some r =>
    obtain ⟨page, s₁⟩ := r
    obtain ⟨hpage, hs₁, hadd, hend⟩ := heapAllocPage_spec h.heapAligned h.heapEnd_le halloc
    rw [populate_alloc hzero halloc, hs₁, hpage, Option.some.injEq] at hcall
    subst hcall
    exact ⟨rfl, hadd, rfl, rfl, Nat.le_trans (Nat.le_of_eq hadd) hend⟩

/-- INTERNAL: a zeroed page from outside the tree is linked below an empty entry. -/
structure Grafts (s s' : Machine) (root : Page) (lvl : Page → Option ℕ) (path : List Slot)
    (t : Page) (i : Slot) (c : Page) : Prop where
  canGraft : CanGraft x86Format 3 (view s.mem) root lvl path t i c (entryWord (base c)) fun _ => 0
  page : c.toNat * 4096 = s.heapCur.toNat
  mem : s'.mem = Function.update (fastZeroPage (base c) s.mem) (slotAddr t i) (entryWord (base c))
  heapCur : s'.heapCur.toNat = s.heapCur.toNat + 4096
  heapEnd : s'.heapEnd = s.heapEnd
  table : s'.runtimePagetables = s.runtimePagetables
  bounded : s'.heapCur.toNat ≤ 2 ^ 52

/-- INTERNAL: what one level does: it follows a present entry, or links a new table.
SRC: arch/x86_64/mem.c:162-186 -/
theorem populate_cases {s s' : Machine} {root t : Page} {lvl : Page → Option ℕ}
    {path : List Slot} {i : Slot} (h : Inv s root lvl)
    (hd : descend x86Format (view s.mem) root path = some t) (hlen : path.length < 3)
    (hcall : populate (slotAddr t i) s = some s') :
    (s' = s ∧ ∃ c : Page, view s.mem t i = entryWord (base c) ∧ c.toNat * 4096 < 2 ^ 52) ∨
      (view s.mem t i = 0 ∧ ∃ c, Grafts s s' root lvl path t i c) := by
  have ht := h.layered.descend_level path t (by omega) hd
  have hread : s.mem (slotAddr t i) = view s.mem t i := rfl
  rcases h.entry i ht hlen with he | ⟨c, he, hc⟩
  · obtain ⟨hmem, hcur, hend, htable, hbound⟩ := populate_of_zero h (hread.trans he) hcall
    have hc : (pageOf s.heapCur).toNat * 4096 = s.heapCur.toNat := by
      rw [← toNat_base, base_pageOf h.heapAligned]
    refine Or.inr ⟨he, pageOf s.heapCur, ?_, hc, hmem, hcur, hend, htable, hbound⟩
    exact
      { layered := h.layered
        parent := hd
        interior := hlen
        notFollowed := by rw [he]; exact x86Format_zero.1
        followed := next_entryWord (by omega)
        dead := fun _ => x86Format_zero
        origin := Or.inr ⟨by rw [he]; exact x86Format_zero.1, h.unowned (Nat.le_of_eq hc.symm),
          fun _ _ => x86Format_zero.1⟩ }
  · have hpresent : isPresent (slotAddr t i) s.mem = true :=
      isPresent_of_bit (by rw [hread, he, entryWord_present])
    rw [populate, if_pos hpresent, Option.some.injEq] at hcall
    exact Or.inl ⟨hcall.symm, c, he, hc⟩

namespace Grafts

variable {s s' : Machine} {root t c : Page} {lvl : Page → Option ℕ} {path : List Slot} {i : Slot}

/-- INTERNAL: a new table is grafted into the tree at its entry. -/
theorem view_eq (G : Grafts s s' root lvl path t i c) :
    view s'.mem = graft (view s.mem) t i c (entryWord (base c)) fun _ => 0 := by
  rw [G.mem, view_update, fastZeroPage, view_updateWords]
  rfl

/-- INTERNAL: the tree with its new table. -/
theorem inv (G : Grafts s s' root lvl path t i c) (h : Inv s root lvl) :
    Inv s' root (Function.update lvl c (some (path.length + 1))) := by
  have hpage := G.page
  have hcur := G.heapCur
  have hbound := G.bounded
  have hroot := h.owned h.layered.root_level
  refine ⟨G.table.trans h.table, ?_, ?_, ?_, h.rootNonzero, ?_, G.heapEnd ▸ h.heapEnd_le⟩
  · rw [G.view_eq]
    exact G.canGraft.layered_graft
  · intro p n j hp hn
    rw [G.view_eq]
    rcases G.canGraft.graft_cases p j with ⟨-, -, hw⟩ | ⟨-, hw⟩ | ⟨-, hpc, hw⟩ <;> rw [hw]
    · exact Or.inr ⟨c, rfl, by omega⟩
    · exact Or.inl rfl
    · rw [Function.update_of_ne hpc] at hp
      exact h.entry j hp hn
  · intro p n hp
    by_cases hpc : p = c
    · subst hpc
      omega
    · rw [Function.update_of_ne hpc] at hp
      have ho := h.owned hp
      omega
  · have halign := h.heapAligned
    omega

/-- INTERNAL: the grafted tree extends the one before. -/
theorem extension (G : Grafts s s' root lvl path t i c) :
    Extends x86Format root s.mem lvl s'.mem (Function.update lvl c (some (path.length + 1))) := by
  refine extends_of_graft G.canGraft G.view_eq fun a hac hat => ?_
  rw [G.mem, update_slotAddr_of_ne _ _ _ _ hat, fastZeroPage, updateWords_of_ne _ _ _ hac]

/-- INTERNAL: the new table is reached along its path. -/
theorem reached (G : Grafts s s' root lvl path t i c) :
    descend x86Format (view s'.mem) root (path ++ [i]) = some c := by
  rw [G.view_eq]
  exact G.canGraft.reached_graft

/-- INTERNAL: the source finds it in its entry. -/
theorem getBaseAddress_eq (G : Grafts s s' root lvl path t i c) :
    getBaseAddress (slotAddr t i) s'.mem = base c := by
  rw [getBaseAddress, G.mem, Function.update_self, entryWord_base, pageOf_base]

end Grafts

/-- INTERNAL: **one level of a mapping call.** The entry ends up leading to a table of the
tree, one level down, and no translation changes.
SRC: arch/x86_64/mem.c:162-186 -/
theorem populate_spec {s s' : Machine} {root t : Page} {lvl : Page → Option ℕ}
    {path : List Slot} {i : Slot} (h : Inv s root lvl)
    (hd : descend x86Format (view s.mem) root path = some t) (hlen : path.length < 3)
    (hcall : populate (slotAddr t i) s = some s') :
    ∃ lvl' c, getBaseAddress (slotAddr t i) s'.mem = base c ∧ Inv s' root lvl' ∧
      Extends x86Format root s.mem lvl s'.mem lvl' ∧
      descend x86Format (view s'.mem) root (path ++ [i]) = some c := by
  rcases populate_cases h hd hlen hcall with ⟨rfl, c, he, hc⟩ | ⟨-, c, G⟩
  · refine ⟨lvl, c, ?_, h, Extends.refl, ?_⟩
    · have hread : s'.mem (slotAddr t i) = view s'.mem t i := rfl
      rw [getBaseAddress, hread, he, entryWord_base, pageOf_base]
    · rw [descend_concat, hd, Option.bind_some, he, next_entryWord hc]
  · exact ⟨_, c, G.getBaseAddress_eq, G.inv h, G.extension, G.reached⟩

end Simbench.Analysis.X86PageTableInvariant
