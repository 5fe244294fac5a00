import Simbench.Library.PagedMemory

/-!
# The four-level walk

Table-walk hardware over a paged word memory: four 9-bit indices of a virtual address, a
word format that says which words are followed and what a last-level word yields. The walk
is the radix-tree lookup along the indices of the address. `Extends` is what a routine that
only adds tables to the tree keeps; grafting a table is one.
-/

set_option autoImplicit false

namespace Simbench.Library.TableWalk

open Simbench.Library.RadixTree Simbench.Library.PagedMemory

/-! ## Indices -/

/-- INTERNAL: the 9-bit index at the level with this shift. -/
def walkIndex (shift : ℕ) (va : BitVec 64) : BitVec 32 := (va.extractLsb' shift 9).setWidth 32

/-- INTERNAL: the slot of a virtual address at the level with this shift. -/
def vaSlot (shift : ℕ) (va : BitVec 64) : Slot := va.extractLsb' shift 9

/-- INTERNAL: the three interior indices of a virtual address. -/
def vaPath (va : BitVec 64) : List Slot := [vaSlot 39 va, vaSlot 30 va, vaSlot 21 va]

/-- INTERNAL: the index into a level is nine bits of the address. -/
theorem toNat_vaSlot (shift : ℕ) (va : BitVec 64) :
    (vaSlot shift va).toNat = va.toNat / 2 ^ shift % 512 := by
  unfold vaSlot
  rw [BitVec.extractLsb'_toNat, Nat.shiftRight_eq_div_pow]

/-- INTERNAL: the hardware reads the entry at that index. -/
theorem wordAddr_walkIndex (p : Page) (shift : ℕ) (va : BitVec 64) :
    wordAddr (base p) (walkIndex shift va) = slotAddr p (vaSlot shift va) := by
  have hlt : (walkIndex shift va).toNat = (vaSlot shift va).toNat := by
    unfold walkIndex vaSlot
    have h := (va.extractLsb' shift 9).isLt
    rw [BitVec.toNat_setWidth]
    omega
  have hs := (vaSlot shift va).isLt
  rw [wordAddr_base p _ (by omega)]
  congr 1
  apply BitVec.eq_of_toNat_eq
  rw [BitVec.toNat_setWidth, hlt]
  omega

/-- INTERNAL: the word a walk reads in a table. -/
theorem read_walkIndex (m : Memory) (p : Page) (shift : ℕ) (va : BitVec 64) :
    m (wordAddr (base p) (walkIndex shift va)) = view m p (vaSlot shift va) := by
  rw [wordAddr_walkIndex]
  rfl

/-- INTERNAL: two 48-bit addresses have the same four indices iff they lie in one page. -/
theorem vaPath_eq_iff {va va' : BitVec 64} (h : va.toNat < 2 ^ 48) (h' : va'.toNat < 2 ^ 48) :
    (vaPath va = vaPath va' ∧ vaSlot 12 va = vaSlot 12 va') ↔
      va.toNat / 4096 = va'.toNat / 4096 := by
  simp only [vaPath, List.cons.injEq, and_true, ← BitVec.toNat_inj, toNat_vaSlot]
  omega

/-! ## The walk -/

variable {α : Type}

/-- INTERNAL: the walk of the tables below `root`: `follow` gives the address of the table an
interior word names, `leaf` what a last-level word yields. -/
def fourLevelWalk (follow : BitVec 64 → Option (BitVec 64)) (leaf : BitVec 64 → Option α)
    (m : Memory) (root va : BitVec 64) : Option α := do
  let l1 ← follow (m (wordAddr root (walkIndex 39 va)))
  let l2 ← follow (m (wordAddr l1 (walkIndex 30 va)))
  let l3 ← follow (m (wordAddr l2 (walkIndex 21 va)))
  leaf (m (wordAddr l3 (walkIndex 12 va)))

/-- INTERNAL: the walk is the lookup in the tree when, at the interior tables of the tree, it
follows exactly the words the tree follows. -/
theorem fourLevelWalk_eq_lookup {F : Format Page (BitVec 64) α} {m : Memory} {root : Page}
    {lvl : Page → Option ℕ} {follow : BitVec 64 → Option (BitVec 64)}
    (h : Layered F 3 (view m) root lvl)
    (hfollow : ∀ {p n} i, lvl p = some n → n < 3 →
      follow (view m p i) = (F.next (view m p i)).map base) (va : BitVec 64) :
    fourLevelWalk follow F.leaf m (base root) va =
      lookup F (view m) root (vaPath va) (vaSlot 12 va) := by
  simp only [fourLevelWalk, lookup, vaPath, descend, List.foldlM_cons, List.foldlM_nil,
    Option.bind_eq_bind, Option.pure_def]
  rw [read_walkIndex m, hfollow _ h.root_level (by decide)]
  cases h₁ : F.next (view m root (vaSlot 39 va)) with
  | none => rfl
  | some t₁ =>
    have hl₁ := h.child_level h.root_level (by decide) (F.next_child _ _ h₁)
    simp only [Option.map_some, Option.bind_some]
    rw [read_walkIndex m, hfollow _ hl₁ (by decide)]
    cases h₂ : F.next (view m t₁ (vaSlot 30 va)) with
    | none => rfl
    | some t₂ =>
      have hl₂ := h.child_level hl₁ (by decide) (F.next_child _ _ h₂)
      simp only [Option.map_some, Option.bind_some]
      rw [read_walkIndex m, hfollow _ hl₂ (by decide)]
      cases h₃ : F.next (view m t₂ (vaSlot 21 va)) with
      | none => rfl
      | some t₃ => simp only [Option.map_some, Option.bind_some, read_walkIndex m]

/-! ## Extensions -/

/-- INTERNAL: what a routine that only adds tables keeps. -/
structure Extends (F : Format Page (BitVec 64) α) (root : Page) (m : Memory)
    (lvl : Page → Option ℕ) (m' : Memory) (lvl' : Page → Option ℕ) : Prop where
  keeps : ∀ {p n}, lvl p = some n → lvl' p = some n
  lookup_eq : ∀ path last, path.length = 3 →
    lookup F (view m') root path last = lookup F (view m) root path last
  descend_keep : ∀ path q, path.length ≤ 3 → descend F (view m) root path = some q →
    descend F (view m') root path = some q
  frame : ∀ a, lvl' (pageOf a) = none → m' a = m a

variable {F : Format Page (BitVec 64) α} {root : Page} {m m' m'' : Memory}
variable {lvl lvl' lvl'' : Page → Option ℕ}

/-- INTERNAL: tables that do not change extend themselves. -/
theorem Extends.refl : Extends F root m lvl m lvl :=
  ⟨id, fun _ _ _ => rfl, fun _ _ _ h => h, fun _ _ => rfl⟩

/-- INTERNAL: an extension of an extension is one of the first tables. -/
theorem Extends.trans (h : Extends F root m lvl m' lvl') (h' : Extends F root m' lvl' m'' lvl'') :
    Extends F root m lvl m'' lvl'' := by
  refine ⟨fun hp => h'.keeps (h.keeps hp), ?_, ?_, ?_⟩
  · intro path last hlen
    rw [h'.lookup_eq path last hlen, h.lookup_eq path last hlen]
  · intro path q hlen hq
    exact h'.descend_keep path q hlen (h.descend_keep path q hlen hq)
  · intro a ha
    have hold : lvl' (pageOf a) = none := by
      cases hl : lvl' (pageOf a) with
      | none => rfl
      | some n =>
        rw [h'.keeps hl] at ha
        cases ha
    rw [h'.frame a ha, h.frame a hold]

/-- INTERNAL: a graft that writes to its two tables only is an extension. -/
theorem extends_of_graft {path : List Slot} {t c : Page} {i : Slot} {w : BitVec 64}
    {f : BitVec 64 → BitVec 64} (G : CanGraft F 3 (view m) root lvl path t i c w f)
    (hview : view m' = graft (view m) t i c w f)
    (hframe : ∀ a, pageOf a ≠ c → pageOf a ≠ t → m' a = m a) :
    Extends F root m lvl m' (Function.update lvl c (some (path.length + 1))) := by
  refine ⟨G.keeps, fun path' last hl => ?_, fun path' q hl hq => ?_, fun a ha => ?_⟩
  · rw [hview]
    exact G.lookup_graft path' hl last
  · rw [hview]
    exact G.descend_graft path' q hl hq
  · refine hframe a (fun he => ?_) fun he => ?_
    · rw [he, Function.update_self] at ha
      cases ha
    · rw [he, G.keeps G.parent_level] at ha
      cases ha

end Simbench.Library.TableWalk
