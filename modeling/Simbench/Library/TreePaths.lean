import Mathlib.Data.Finset.Card
import Mathlib.Data.Finset.Image
import Mathlib.Data.Finset.Range
import Simbench.Library.TableWalk

/-!
# Paths of a table tree

Every table below the root of a layered tree is at the end of one path of indices, so tables
are counted by counting paths. Grafting a new table adds one path. The three tables that each
of some addresses needs lie on as many paths as the addresses have different leading indices.
-/

set_option autoImplicit false

namespace Simbench.Library.TreePaths

open Simbench.Library.RadixTree Simbench.Library.PagedMemory Simbench.Library.TableWalk

variable {P I W α : Type}

/-! ## Paths -/

/-- INTERNAL: `A` holds the paths, without the empty one, of all walks above the leaves. -/
def Paths (F : Format P W α) (depth : ℕ) (T : P → I → W) (root : P) (A : Finset (List I)) : Prop :=
  ∀ path, path ∈ A ↔ path ≠ [] ∧ path.length ≤ depth ∧ ∃ q, descend F T root path = some q

section Paths

variable {F : Format P W α} {depth : ℕ} {T : P → I → W} {root t : P} {lvl : P → Option ℕ}
variable {A : Finset (List I)} {path : List I} {i : I}

/-- INTERNAL: a root that follows no word has no paths. -/
theorem paths_empty (h : ∀ i, F.next (T root i) = none) : Paths F depth T root ∅ := by
  intro path
  simp only [Finset.notMem_empty, false_iff]
  rintro ⟨hne, -, q, hq⟩
  cases path with
  | nil => exact hne rfl
  | cons i path =>
    rw [descend, List.foldlM_cons, h] at hq
    cases hq

/-- INTERNAL: a path that leads to a table is one of the tree's paths. -/
theorem Paths.mem_step (h : Paths F depth T root A) (hlen : path.length < depth) {c : P}
    (hc : descend F T root (path ++ [i]) = some c) : path ++ [i] ∈ A := by
  refine (h _).mpr ⟨by simp, ?_, c, hc⟩
  simp only [List.length_append, List.length_singleton]
  omega

/-- INTERNAL: an entry that is not followed leads to no path. -/
theorem Paths.notMem_step (h : Paths F depth T root A) (hd : descend F T root path = some t)
    (hempty : F.next (T t i) = none) : path ++ [i] ∉ A := by
  intro hmem
  obtain ⟨-, -, q, hq⟩ := (h _).mp hmem
  rw [descend_concat, hd, Option.bind_some, hempty] at hq
  cases hq

variable [DecidableEq P] [DecidableEq I]

/-- INTERNAL: **grafting** a table adds its path. -/
theorem Paths.graft {c : P} {w : W} {f : W → W} (h : Paths F depth T root A)
    (G : CanGraft F depth T root lvl path t i c w f) :
    Paths F depth (graft T t i c w f) root (insert (path ++ [i]) A) := by
  intro path'
  rw [Finset.mem_insert, h path']
  constructor
  · rintro (rfl | ⟨hne, hle, q, hq⟩)
    · have hinterior := G.interior
      refine ⟨by simp, ?_, c, G.reached_graft⟩
      simp only [List.length_append, List.length_singleton]
      omega
    · exact ⟨hne, hle, q, G.descend_graft path' q hle hq⟩
  · rintro ⟨hne, hle, q, hq⟩
    rcases G.descend_of_graft path' q hle hq with hold | hpath
    · exact Or.inr ⟨hne, hle, q, hold⟩
    · exact Or.inl hpath

/-- INTERNAL: writing a leaf keeps the paths. -/
theorem Paths.setLeaf {q : P} (h : Paths F depth T root A) (hlayered : Layered F depth T root lvl)
    (hq : lvl q = some depth) (last : I) (w : W) : Paths F depth (setEntry T q last w) root A := by
  intro path
  rw [h path]
  constructor
  · rintro ⟨hne, hle, p, hp⟩
    exact ⟨hne, hle, p, by rwa [hlayered.descend_setLeaf hq last w path hle]⟩
  · rintro ⟨hne, hle, p, hp⟩
    exact ⟨hne, hle, p, by rwa [hlayered.descend_setLeaf hq last w path hle] at hp⟩

end Paths

/-! ## Remembered tables -/

/-- INTERNAL: the table each word remembers, followed or not. -/
def edges (F : Format P W α) (T : P → I → W) : P → I → Option P := fun p i => F.child (T p i)

/-- INTERNAL: these as words of their own, which are followed. -/
def edgeFormat : Format P (Option P) Unit where
  child edge := edge
  next edge := edge
  leaf _ := none
  next_child _ _ h := h

section Edges

variable {F : Format P W α} {depth : ℕ} {T : P → I → W} {root : P} {lvl : P → Option ℕ}

/-- INTERNAL: a layered tree has layered edges. -/
theorem layered_edges (h : Layered F depth T root lvl) :
    Layered edgeFormat depth (edges F T) root lvl :=
  ⟨h.root_level, h.child_level, h.child_unique⟩

/-- INTERNAL: every walk is a walk along remembered tables. -/
theorem descend_edges {path : List I} {q : P} (h : descend F T root path = some q) :
    descend edgeFormat (edges F T) root path = some q := by
  induction path using List.reverseRecOn generalizing q with
  | nil => exact h
  | append_singleton path i ih =>
    rw [descend_concat, Option.bind_eq_some_iff] at h ⊢
    obtain ⟨p, hp, hnext⟩ := h
    exact ⟨p, ih hp, F.next_child _ _ hnext⟩

end Edges

/-! ## The paths of addresses -/

/-- INTERNAL: the paths to the tables that walks for the addresses meet below the root. -/
def tablePaths (vas : Finset (BitVec 64)) : Finset (List Slot) :=
  vas.image (fun va => [vaSlot 39 va]) ∪
    (vas.image (fun va => [vaSlot 39 va, vaSlot 30 va]) ∪ vas.image vaPath)

/-- INTERNAL: the different values of bits 47:39, of bits 47:30 and of bits 47:21. -/
def tableCount (vas : Finset (BitVec 64)) : ℕ :=
  (vas.image fun va => va.extractLsb' 39 9).card + (vas.image fun va => va.extractLsb' 30 18).card +
    (vas.image fun va => va.extractLsb' 21 27).card

/-- INTERNAL: no address needs no table. -/
@[simp] theorem tablePaths_empty : tablePaths ∅ = ∅ := rfl

/-- INTERNAL: one more address adds its three paths. -/
theorem tablePaths_insert (va : BitVec 64) (vas : Finset (BitVec 64)) :
    tablePaths (insert va vas) = insert (vaPath va) (insert [vaSlot 39 va, vaSlot 30 va]
      (insert [vaSlot 39 va] (tablePaths vas))) := by
  ext path
  simp only [tablePaths, Finset.image_insert, Finset.mem_union, Finset.mem_insert]
  tauto

/-- INTERNAL: an index of a level is a part of the indices down to that level. -/
theorem extractLsb'_vaSlot (va : BitVec 64) {shift low width : ℕ} (hlow : low + 9 ≤ width) :
    (va.extractLsb' shift width).extractLsb' low 9 = vaSlot (shift + low) va := by
  apply BitVec.eq_of_getLsbD_eq
  intro i hi
  simp only [vaSlot, BitVec.getLsbD_extractLsb', hi, decide_true, Bool.true_and,
    show low + i < width by omega, Nat.add_assoc]

/-- INTERNAL: tables told apart by some bits of an address are as many as these bits take values. -/
theorem card_image_tables {n : ℕ} (vas : Finset (BitVec 64)) (shift : ℕ)
    (tables : BitVec n → List Slot) (hinjective : Function.Injective tables) :
    (vas.image fun va => tables (va.extractLsb' shift n)).card =
      (vas.image fun va => va.extractLsb' shift n).card := by
  rw [← Finset.card_image_of_injective _ hinjective, Finset.image_image]
  rfl

/-- INTERNAL: tables of different levels lie on different paths. -/
theorem disjoint_of_length (vas : Finset (BitVec 64)) {f g : BitVec 64 → List Slot} {n m : ℕ}
    (hne : n ≠ m) (hf : ∀ va, (f va).length = n) (hg : ∀ va, (g va).length = m) :
    Disjoint (vas.image f) (vas.image g) := by
  rw [Finset.disjoint_left]
  intro path hpath hpath'
  obtain ⟨va, -, rfl⟩ := Finset.mem_image.mp hpath
  obtain ⟨va', -, heq⟩ := Finset.mem_image.mp hpath'
  apply hne
  rw [← hf va, ← heq, hg va']

/-- INTERNAL: nine bits of a field, as a number. -/
theorem toNat_index {n : ℕ} (x : BitVec n) (low : ℕ) :
    (x.extractLsb' low 9).toNat = x.toNat / 2 ^ low % 512 := by
  rw [BitVec.extractLsb'_toNat, Nat.shiftRight_eq_div_pow]

/-- INTERNAL: **the paths of addresses** are as many as their different leading indices, one
level after the other. -/
theorem card_tablePaths (vas : Finset (BitVec 64)) : (tablePaths vas).card = tableCount vas := by
  have h₁ := card_image_tables (n := 9) vas 39 (fun x => [x.extractLsb' 0 9]) (by
    intro x y h
    simp only [List.cons.injEq, and_true, ← BitVec.toNat_inj, toNat_index] at h
    apply BitVec.eq_of_toNat_eq
    omega)
  have h₂ := card_image_tables (n := 18) vas 30 (fun x => [x.extractLsb' 9 9, x.extractLsb' 0 9]) (by
    intro x y h
    simp only [List.cons.injEq, and_true, ← BitVec.toNat_inj, toNat_index] at h
    apply BitVec.eq_of_toNat_eq
    omega)
  have h₃ := card_image_tables (n := 27) vas 21
    (fun x => [x.extractLsb' 18 9, x.extractLsb' 9 9, x.extractLsb' 0 9]) (by
      intro x y h
      simp only [List.cons.injEq, and_true, ← BitVec.toNat_inj, toNat_index] at h
      apply BitVec.eq_of_toNat_eq
      omega)
  simp only [extractLsb'_vaSlot, Nat.reduceAdd, Nat.reduceLeDiff] at h₁ h₂ h₃
  have hdisjoint : Disjoint (vas.image fun va => [vaSlot 39 va])
      (vas.image (fun va => [vaSlot 39 va, vaSlot 30 va]) ∪ vas.image vaPath) := by
    rw [Finset.disjoint_union_right]
    exact ⟨disjoint_of_length vas (n := 1) (m := 2) (by decide) (fun _ => rfl) fun _ => rfl,
      disjoint_of_length vas (n := 1) (m := 3) (by decide) (fun _ => rfl) fun _ => rfl⟩
  have hdisjoint' : Disjoint (vas.image fun va => [vaSlot 39 va, vaSlot 30 va]) (vas.image vaPath) :=
    disjoint_of_length vas (n := 2) (m := 3) (by decide) (fun _ => rfl) fun _ => rfl
  unfold vaPath at hdisjoint hdisjoint'
  unfold tablePaths vaPath
  rw [Finset.card_union_of_disjoint hdisjoint, Finset.card_union_of_disjoint hdisjoint', h₁, h₂, h₃,
    tableCount, Nat.add_assoc]

/-- INTERNAL: a field of `n` bits takes `2 ^ n` values at most. -/
theorem card_image_le {n : ℕ} (vas : Finset (BitVec 64)) (f : BitVec 64 → BitVec n) :
    (vas.image f).card ≤ 2 ^ n := by
  have hinjective : Function.Injective (BitVec.toNat (w := n)) := fun _ _ => BitVec.eq_of_toNat_eq
  rw [← Finset.card_image_of_injective _ hinjective, ← Finset.card_range (2 ^ n)]
  apply Finset.card_le_card
  intro x hx
  obtain ⟨index, -, rfl⟩ := Finset.mem_image.mp hx
  exact Finset.mem_range.mpr index.isLt

/-- INTERNAL: there are no more tables than paths of up to three indices. -/
theorem card_tablePaths_le (vas : Finset (BitVec 64)) :
    (tablePaths vas).card ≤ 2 ^ 9 + 2 ^ 18 + 2 ^ 27 := by
  rw [card_tablePaths]
  exact Nat.add_le_add (Nat.add_le_add (card_image_le vas _) (card_image_le vas _))
    (card_image_le vas _)

end Simbench.Library.TreePaths
