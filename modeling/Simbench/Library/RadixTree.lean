import Mathlib.Algebra.Group.Nat.Defs
import Mathlib.Data.List.Induction
import Mathlib.Data.Option.Basic
import Mathlib.Logic.Function.Basic
import Mathlib.Tactic.Common

/-!
# Radix trees of tables

A multi-level translation structure stored in pages: every page is a table of
words indexed by `I`, a word may name a child table, and a lookup follows one word per
level from the root to a leaf table. The word format separates the child a word
*remembers* from the child a walk *follows*, so a structure whose entries are
invalidated in place and revived later is covered as well as one that only grows.

`Layered` is the tree invariant: a ghost level for every table, children one level
below their parent, and no page remembered by two entries. Under it the two ways a
mapping routine changes an interior table (rewriting a table no walk reaches, linking
a dead table below an invalid entry) change no lookup, and a write to a leaf table
changes exactly one.
-/

set_option autoImplicit false

namespace Simbench.Library.RadixTree

/-- INTERNAL: how one table word is read. `child` is the table the word remembers,
`next` the table a walk follows, `leaf` what the word yields at the last level. -/
structure Format (P W α : Type) where
  child : W → Option P
  next : W → Option P
  leaf : W → Option α
  next_child : ∀ w q, next w = some q → child w = some q

variable {P I W α : Type}

/-- INTERNAL: the table reached from `p` along a path of indices. -/
def descend (F : Format P W α) (T : P → I → W) (p : P) (path : List I) : Option P :=
  path.foldlM (fun p i => F.next (T p i)) p

/-- INTERNAL: the leaf value found along a path and a last index. -/
def lookup (F : Format P W α) (T : P → I → W) (root : P) (path : List I) (last : I) :
    Option α :=
  (descend F T root path).bind fun q => F.leaf (T q last)

/-- INTERNAL: the tables with one entry replaced. -/
def setEntry [DecidableEq P] [DecidableEq I] (T : P → I → W) (p : P) (i : I) (w : W) : P → I → W :=
  Function.update T p (Function.update (T p) i w)

/-- INTERNAL: rewrite every word of one table. -/
def rewrite [DecidableEq P] (T : P → I → W) (c : P) (f : W → W) : P → I → W :=
  Function.update T c fun i => f (T c i)

/-- INTERNAL: the tree invariant of tables with `depth` interior levels. -/
structure Layered (F : Format P W α) (depth : ℕ) (T : P → I → W) (root : P)
    (lvl : P → Option ℕ) : Prop where
  root_level : lvl root = some 0
  child_level : ∀ {p n i q}, lvl p = some n → n < depth → F.child (T p i) = some q →
    lvl q = some (n + 1)
  child_unique : ∀ {p n i p' n' i' q}, lvl p = some n → n < depth →
    F.child (T p i) = some q → lvl p' = some n' → n' < depth →
    F.child (T p' i') = some q → p = p' ∧ i = i'

/-- INTERNAL: no walk of at most `depth` steps ends in `c`. -/
def Unreached (F : Format P W α) (depth : ℕ) (T : P → I → W) (root c : P) : Prop :=
  ∀ path : List I, path.length ≤ depth → descend F T root path ≠ some c

/-- INTERNAL: no word of the table is followed or yields a leaf. -/
def Dead (F : Format P W α) (T : P → I → W) (c : P) : Prop :=
  ∀ i, F.next (T c i) = none ∧ F.leaf (T c i) = none

section Entries

variable [DecidableEq P] (T : P → I → W) (p c : P) (i : I) (w : W) (f : W → W)

/-- INTERNAL: an entry set is read back. -/
@[simp] theorem setEntry_self [DecidableEq I] : setEntry T p i w p i = w := by
  simp [setEntry]

/-- INTERNAL: every other entry is left alone. -/
theorem setEntry_of_ne [DecidableEq I] {p' : P} {i' : I} (h : ¬(p' = p ∧ i' = i)) :
    setEntry T p i w p' i' = T p' i' := by
  unfold setEntry
  by_cases hp : p' = p
  · subst hp
    have hi : i' ≠ i := fun hi => h ⟨rfl, hi⟩
    simp [Function.update_of_ne hi]
  · simp [Function.update_of_ne hp]

/-- INTERNAL: rewriting a table rewrites its entries. -/
@[simp] theorem rewrite_self : rewrite T c f c i = f (T c i) := by
  simp [rewrite]

/-- INTERNAL: rewriting a table leaves every other table alone. -/
theorem rewrite_of_ne {p' : P} (h : p' ≠ c) : rewrite T c f p' = T p' := by
  simp [rewrite, Function.update_of_ne h]

end Entries

section Walks

variable (F : Format P W α) (T : P → I → W)

/-- INTERNAL: the empty path ends where it begins. -/
@[simp] theorem descend_nil (p : P) : descend F T p [] = some p := rfl

/-- INTERNAL: the last step of a walk follows one word of the table reached before it. -/
theorem descend_concat (p : P) (path : List I) (i : I) :
    descend F T p (path ++ [i]) = (descend F T p path).bind fun q => F.next (T q i) := by
  simp [descend, List.foldlM_append, Option.bind_eq_bind]

end Walks

namespace Layered

variable {F : Format P W α} {depth : ℕ} {T : P → I → W} {root : P} {lvl : P → Option ℕ}

/-- INTERNAL: a path leads to the level of its length. -/
theorem descend_level (h : Layered F depth T root lvl) (path : List I) (q : P)
    (hlen : path.length ≤ depth) (hd : descend F T root path = some q) :
    lvl q = some path.length := by
  induction path using List.reverseRecOn generalizing q with
  | nil =>
    simp only [descend_nil, Option.some.injEq] at hd
    subst hd
    exact h.root_level
  | append_singleton path i ih =>
    rw [descend_concat, Option.bind_eq_some_iff] at hd
    obtain ⟨p, hp, hnext⟩ := hd
    simp only [List.length_append, List.length_singleton] at hlen ⊢
    exact h.child_level (ih p (by omega) hp) (by omega) (F.next_child _ _ hnext)

/-- INTERNAL: the invariant only speaks of the tables of the tree. -/
theorem congr (h : Layered F depth T root lvl) {T' : P → I → W}
    (hsame : ∀ p n, lvl p = some n → T' p = T p) : Layered F depth T' root lvl := by
  refine ⟨h.root_level, ?_, ?_⟩
  · intro p n i q hp hn hq
    rw [hsame p n hp] at hq
    exact h.child_level hp hn hq
  · intro p n i p' n' i' q hp hn hq hp' hn' hq'
    rw [hsame p n hp] at hq
    rw [hsame p' n' hp'] at hq'
    exact h.child_unique hp hn hq hp' hn' hq'

/-- INTERNAL: descents depend on the owned tables only. -/
theorem descend_congr (h : Layered F depth T root lvl) {T' : P → I → W}
    (hsame : ∀ p n, lvl p = some n → T' p = T p) (path : List I) (hlen : path.length ≤ depth) :
    descend F T' root path = descend F T root path := by
  induction path using List.reverseRecOn with
  | nil => rfl
  | append_singleton path i ih =>
    simp only [List.length_append, List.length_singleton] at hlen
    rw [descend_concat, descend_concat, ih (by omega)]
    cases hd : descend F T root path with
    | none => rfl
    | some q =>
      have hq := h.descend_level path q (by omega) hd
      simp only [Option.bind_some, hsame q _ hq]

/-- INTERNAL: lookups depend on the owned tables only. -/
theorem lookup_congr (h : Layered F depth T root lvl) {T' : P → I → W}
    (hsame : ∀ p n, lvl p = some n → T' p = T p) (path : List I) (last : I)
    (hlen : path.length ≤ depth) : lookup F T' root path last = lookup F T root path last := by
  rw [lookup, lookup, h.descend_congr hsame path hlen]
  cases hd : descend F T root path with
  | none => rfl
  | some q =>
    have hq := h.descend_level path q hlen hd
    simp only [Option.bind_some, hsame q _ hq]

/-- INTERNAL: two walks of the same length that end in the same table are the same walk. -/
theorem descend_injective (h : Layered F depth T root lvl) (path path' : List I) (q : P)
    (hlen : path.length ≤ depth) (heq : path'.length = path.length)
    (hd : descend F T root path = some q) (hd' : descend F T root path' = some q) :
    path' = path := by
  induction path using List.reverseRecOn generalizing path' q with
  | nil => exact List.eq_nil_of_length_eq_zero heq
  | append_singleton path i ih =>
    rcases List.eq_nil_or_concat path' with rfl | ⟨path', i', rfl⟩
    · simp at heq
    · simp only [List.concat_eq_append, List.length_append, List.length_singleton] at hlen heq hd' ⊢
      rw [descend_concat, Option.bind_eq_some_iff] at hd hd'
      obtain ⟨p, hp, hnext⟩ := hd
      obtain ⟨p', hp', hnext'⟩ := hd'
      have hl := h.descend_level path p (by omega) hp
      have hl' := h.descend_level path' p' (by omega) hp'
      obtain ⟨rfl, rfl⟩ := h.child_unique hl' (by omega) (F.next_child _ _ hnext') hl (by omega)
        (F.next_child _ _ hnext)
      rw [ih path' p' (by omega) (by omega) hp hp']

/-- INTERNAL: no path leads to a table that is not owned. -/
theorem unreached_of_unowned (h : Layered F depth T root lvl) {c : P} (hc : lvl c = none) :
    Unreached F depth T root c := by
  intro path hlen hd
  rw [h.descend_level path c hlen hd] at hc
  cases hc

/-- INTERNAL: a table remembered by an invalid entry is reached by no walk, since no
other entry remembers it. -/
theorem unreached_of_invalid (h : Layered F depth T root lvl) {t c : P} {n : ℕ} {i : I}
    (ht : lvl t = some n) (hn : n < depth) (hchild : F.child (T t i) = some c)
    (hinv : F.next (T t i) = none) : Unreached F depth T root c := by
  intro path hlen hd
  have hlvl := h.descend_level path c hlen hd
  rw [h.child_level ht hn hchild] at hlvl
  rcases List.eq_nil_or_concat path with rfl | ⟨path, i', rfl⟩
  · simp at hlvl
  · simp only [List.concat_eq_append, List.length_append, List.length_singleton] at hlen hd
    rw [descend_concat, Option.bind_eq_some_iff] at hd
    obtain ⟨p, hp, hnext⟩ := hd
    have hl := h.descend_level path p (by omega) hp
    obtain ⟨rfl, rfl⟩ := h.child_unique hl (by omega) (F.next_child _ _ hnext) ht hn hchild
    rw [hinv] at hnext
    cases hnext

/-- INTERNAL: rewriting the words of a table so that each still remembers its child keeps
the tree. -/
theorem rewrite [DecidableEq P] (h : Layered F depth T root lvl) (c : P) (f : W → W)
    (hf : ∀ i, F.child (f (T c i)) = F.child (T c i)) :
    Layered F depth (rewrite T c f) root lvl := by
  have hchild : ∀ p i, F.child (RadixTree.rewrite T c f p i) = F.child (T p i) := by
    intro p i
    by_cases hp : p = c
    · subst hp
      rw [rewrite_self, hf]
    · rw [rewrite_of_ne T c f hp]
  refine ⟨h.root_level, ?_, ?_⟩
  · intro p n i q hp hn hq
    rw [hchild] at hq
    exact h.child_level hp hn hq
  · intro p n i p' n' i' q hp hn hq hp' hn' hq'
    rw [hchild] at hq hq'
    exact h.child_unique hp hn hq hp' hn' hq'

/-- INTERNAL: rewriting such a table keeps the tree layered. -/
theorem rewrite_of_unowned [DecidableEq P] (h : Layered F depth T root lvl) {c : P}
    (hc : lvl c = none)
    (f : W → W) : Layered F depth (RadixTree.rewrite T c f) root lvl := by
  have hne : ∀ {p n}, lvl p = some n → RadixTree.rewrite T c f p = T p := by
    intro p n hp
    refine rewrite_of_ne T c f fun hpc => ?_
    rw [hpc, hc] at hp
    cases hp
  refine ⟨h.root_level, ?_, ?_⟩
  · intro p n i q hp hn hq
    rw [hne hp] at hq
    exact h.child_level hp hn hq
  · intro p n i p' n' i' q hp hn hq hp' hn' hq'
    rw [hne hp] at hq
    rw [hne hp'] at hq'
    exact h.child_unique hp hn hq hp' hn' hq'

end Layered

section Unreached

variable {F : Format P W α} {depth : ℕ} {T : P → I → W} {root c : P} [DecidableEq P]

/-- INTERNAL: rewriting a table that is not reached changes no descent. -/
theorem descend_rewrite (hc : Unreached F depth T root c) (f : W → W) (path : List I)
    (hlen : path.length ≤ depth) :
    descend F (rewrite T c f) root path = descend F T root path := by
  induction path using List.reverseRecOn with
  | nil => rfl
  | append_singleton path i ih =>
    simp only [List.length_append, List.length_singleton] at hlen
    rw [descend_concat, descend_concat, ih (by omega)]
    cases hd : descend F T root path with
    | none => rfl
    | some p =>
      have hp : p ≠ c := fun hpc => hc path (by omega) (hpc ▸ hd)
      simp only [Option.bind_some, rewrite_of_ne T c f hp]

/-- INTERNAL: rewriting a table that is not reached changes no lookup. -/
theorem lookup_rewrite (hc : Unreached F depth T root c) (f : W → W) (path : List I)
    (hlen : path.length ≤ depth) (last : I) :
    lookup F (rewrite T c f) root path last = lookup F T root path last := by
  unfold lookup
  rw [descend_rewrite hc f path hlen]
  cases hd : descend F T root path with
  | none => rfl
  | some p =>
    have hp : p ≠ c := fun hpc => hc path hlen (hpc ▸ hd)
    simp only [Option.bind_some, rewrite_of_ne T c f hp]

/-- INTERNAL: a table no walk reaches is still reached by none after a rewrite of it. -/
theorem unreached_rewrite (hc : Unreached F depth T root c) (f : W → W) :
    Unreached F depth (rewrite T c f) root c := by
  intro path hlen
  rw [descend_rewrite hc f path hlen]
  exact hc path hlen

omit [DecidableEq P] in
/-- INTERNAL: a root with no entries finds nothing. -/
theorem lookup_of_dead (h : Dead F T root) (path : List I) (last : I) :
    lookup F T root path last = none := by
  cases path with
  | nil => simp [lookup, (h last).2]
  | cons i path => simp [lookup, descend, List.foldlM_cons, (h i).1]

end Unreached

section Link

variable {F : Format P W α} {depth : ℕ} {T : P → I → W} {root t c : P} {lvl : P → Option ℕ}
variable {n : ℕ} {i : I} {w : W} [DecidableEq P] [DecidableEq I]

/-- INTERNAL: storing a child below an entry that remembered it, or below an empty entry
when the child is a fresh page, keeps the tree; the child gets the next level. -/
theorem Layered.link (h : Layered F depth T root lvl) (ht : lvl t = some n) (hn : n < depth)
    (hw : F.child w = some c)
    (hnew : F.child (T t i) = some c ∨ (F.child (T t i) = none ∧ lvl c = none ∧
      (n + 1 < depth → ∀ j, F.child (T c j) = none))) :
    Layered F depth (setEntry T t i w) root (Function.update lvl c (some (n + 1))) := by
  rcases hnew with hold | ⟨hnone, hc, hblank⟩
  · -- the entry remembered the child already, so no edge of the tree changes
    have hlvl : Function.update lvl c (some (n + 1)) = lvl := by
      rw [← h.child_level ht hn hold]
      exact Function.update_eq_self c lvl
    have hchild : ∀ p j, F.child (setEntry T t i w p j) = F.child (T p j) := by
      intro p j
      by_cases hp : p = t ∧ j = i
      · obtain ⟨rfl, rfl⟩ := hp
        rw [setEntry_self, hw, hold]
      · rw [setEntry_of_ne T t i w hp]
    rw [hlvl]
    refine ⟨h.root_level, ?_, ?_⟩
    · intro p m j q hp hm hq
      rw [hchild] at hq
      exact h.child_level hp hm hq
    · intro p m j p' m' j' q hp hm hq hp' hm' hq'
      rw [hchild] at hq hq'
      exact h.child_unique hp hm hq hp' hm' hq'
  · -- the new edge is the only one into the fresh page
    have hct : c ≠ t := fun he => by rw [he, ht] at hc; cases hc
    have hedge : ∀ {p m j q}, Function.update lvl c (some (n + 1)) p = some m → m < depth →
        F.child (setEntry T t i w p j) = some q →
        (p = t ∧ j = i ∧ q = c ∧ m = n) ∨
          (lvl p = some m ∧ F.child (T p j) = some q ∧ q ≠ c) := by
      intro p m j q hp hm hq
      by_cases hpc : p = c
      · subst hpc
        rw [Function.update_self, Option.some.injEq] at hp
        rw [setEntry_of_ne T t i w (fun he => hct he.1), hblank (by omega)] at hq
        cases hq
      · rw [Function.update_of_ne hpc] at hp
        by_cases hpi : p = t ∧ j = i
        · obtain ⟨rfl, rfl⟩ := hpi
          rw [setEntry_self, hw, Option.some.injEq] at hq
          rw [ht, Option.some.injEq] at hp
          exact Or.inl ⟨rfl, rfl, hq.symm, hp.symm⟩
        · rw [setEntry_of_ne T t i w hpi] at hq
          refine Or.inr ⟨hp, hq, fun hqc => ?_⟩
          rw [hqc] at hq
          rw [h.child_level hp hm hq] at hc
          cases hc
    refine ⟨?_, ?_, ?_⟩
    · have hr : root ≠ c := fun he => by rw [← he, h.root_level] at hc; cases hc
      rw [Function.update_of_ne hr, h.root_level]
    · intro p m j q hp hm hq
      rcases hedge hp hm hq with ⟨-, -, rfl, rfl⟩ | ⟨hp', hq', hqc⟩
      · rw [Function.update_self]
      · rw [Function.update_of_ne hqc]
        exact h.child_level hp' hm hq'
    · intro p m j p' m' j' q hp hm hq hp' hm' hq'
      rcases hedge hp hm hq with ⟨rfl, rfl, hqc, -⟩ | ⟨hl, hch, hqc⟩
      · rcases hedge hp' hm' hq' with ⟨rfl, rfl, -, -⟩ | ⟨-, -, hqc'⟩
        · exact ⟨rfl, rfl⟩
        · exact absurd hqc hqc'
      · rcases hedge hp' hm' hq' with ⟨-, -, hqc', -⟩ | ⟨hl', hch', -⟩
        · exact absurd hqc' hqc
        · exact h.child_unique hl hm hch hl' hm' hch'

/-- INTERNAL: a walk that existed before an invalid entry was linked still exists. -/
theorem descend_link (hinv : F.next (T t i) = none) (path : List I) (q : P)
    (hd : descend F T root path = some q) :
    descend F (setEntry T t i w) root path = some q := by
  induction path using List.reverseRecOn generalizing q with
  | nil => exact hd
  | append_singleton path j ih =>
    rw [descend_concat, Option.bind_eq_some_iff] at hd ⊢
    obtain ⟨p, hp, hnext⟩ := hd
    have hne : ¬(p = t ∧ j = i) := by
      rintro ⟨rfl, rfl⟩
      rw [hinv] at hnext
      cases hnext
    exact ⟨p, ih p hp, by rw [setEntry_of_ne T t i w hne]; exact hnext⟩

/-- INTERNAL: a walk that exists after a dead child was linked existed before, or ends in
that child. -/
theorem descend_of_link (hct : c ≠ t) (hnext : F.next w = some c) (hdead : Dead F T c)
    (path : List I) (q : P) (hd : descend F (setEntry T t i w) root path = some q) :
    descend F T root path = some q ∨ q = c := by
  induction path using List.reverseRecOn generalizing q with
  | nil => exact Or.inl hd
  | append_singleton path j ih =>
    rw [descend_concat, Option.bind_eq_some_iff] at hd
    obtain ⟨p, hp, hpq⟩ := hd
    rcases ih p hp with hold | rfl
    · by_cases hpj : p = t ∧ j = i
      · obtain ⟨rfl, rfl⟩ := hpj
        rw [setEntry_self, hnext, Option.some.injEq] at hpq
        exact Or.inr hpq.symm
      · rw [setEntry_of_ne T t i w hpj] at hpq
        exact Or.inl (by rw [descend_concat, hold]; exact hpq)
    · rw [setEntry_of_ne T t i w (fun he => hct he.1), (hdead j).1] at hpq
      cases hpq

/-- INTERNAL: linking a dead table that no walk reached below an invalid entry changes no
lookup. -/
theorem Layered.lookup_link (h : Layered F depth T root lvl) (ht : lvl t = some n)
    (hn : n < depth) (hct : c ≠ t) (hnext : F.next w = some c) (hinv : F.next (T t i) = none)
    (hdead : Dead F T c) (hun : Unreached F depth T root c) (path : List I)
    (hlen : path.length = depth) (last : I) :
    lookup F (setEntry T t i w) root path last = lookup F T root path last := by
  unfold lookup
  cases hd : descend F T root path with
  | some q =>
    have hq := h.descend_level path q (by omega) hd
    have hne : ¬(q = t ∧ last = i) := by
      rintro ⟨rfl, -⟩
      rw [ht, Option.some.injEq] at hq
      omega
    rw [descend_link hinv path q hd]
    simp only [Option.bind_some, setEntry_of_ne T t i w hne]
  | none =>
    cases hd' : descend F (setEntry T t i w) root path with
    | none => rfl
    | some q =>
      rcases descend_of_link hct hnext hdead path q hd' with hold | rfl
      · rw [hd] at hold
        cases hold
      · simp only [Option.bind_some, Option.bind_none,
          setEntry_of_ne T t i w (fun he => hct he.1), (hdead last).2]

end Link

/-! ## Grafting

Linking a table takes two writes: every word of the table is scrubbed, then the parent
entry is stored. -/

/-- INTERNAL: scrub the table `c` with `f`, then store `w` in entry `i` of `t`. -/
def graft [DecidableEq P] [DecidableEq I] (T : P → I → W) (t : P) (i : I) (c : P) (w : W)
    (f : W → W) : P → I → W :=
  setEntry (rewrite T c f) t i w

section GraftEntries

variable [DecidableEq P] [DecidableEq I] (T : P → I → W) (t c : P) (i : I) (w : W) (f : W → W)

/-- INTERNAL: the entry of the graft holds its link. -/
theorem graft_self : graft T t i c w f t i = w := by
  rw [graft, setEntry_self]

/-- INTERNAL: the grafted table is rewritten. -/
theorem graft_child {j : I} (h : ¬(c = t ∧ j = i)) : graft T t i c w f c j = f (T c j) := by
  rw [graft, setEntry_of_ne _ _ _ _ h, rewrite_self]

/-- INTERNAL: everything else is left alone. -/
theorem graft_of_ne {p : P} {j : I} (h : ¬(p = t ∧ j = i)) (hc : p ≠ c) :
    graft T t i c w f p j = T p j := by
  rw [graft, setEntry_of_ne _ _ _ _ h, rewrite_of_ne _ _ _ hc]

end GraftEntries

/-- INTERNAL: what a graft below the table at the end of `path` needs: the entry is not
followed, the scrubbed table is dead, and it is either the one the entry remembers or a
page outside the tree that remembers no tables unless it becomes a last-level table. -/
structure CanGraft (F : Format P W α) (depth : ℕ) (T : P → I → W) (root : P)
    (lvl : P → Option ℕ) (path : List I) (t : P) (i : I) (c : P) (w : W) (f : W → W) : Prop where
  layered : Layered F depth T root lvl
  parent : descend F T root path = some t
  interior : path.length < depth
  notFollowed : F.next (T t i) = none
  followed : F.next w = some c
  dead : ∀ j, F.next (f (T c j)) = none ∧ F.leaf (f (T c j)) = none
  origin : (F.child (T t i) = some c ∧ ∀ j, F.child (f (T c j)) = F.child (T c j)) ∨
    (F.child (T t i) = none ∧ lvl c = none ∧
      (path.length + 1 < depth → ∀ j, F.child (f (T c j)) = none))

namespace CanGraft

variable {F : Format P W α} {depth : ℕ} {T : P → I → W} {root t c : P} {lvl : P → Option ℕ}
variable {path : List I} {i : I} {w : W} {f : W → W}

/-- INTERNAL: the table that takes the graft is owned, at the level of its path. -/
theorem parent_level (h : CanGraft F depth T root lvl path t i c w f) :
    lvl t = some path.length :=
  h.layered.descend_level path t (Nat.le_of_lt h.interior) h.parent

/-- INTERNAL: the grafted table already has the level below its parent, or none. -/
theorem child_level (h : CanGraft F depth T root lvl path t i c w f) :
    lvl c = some (path.length + 1) ∨ lvl c = none := by
  rcases h.origin with ⟨hold, -⟩ | ⟨-, hnone, -⟩
  · exact Or.inl (h.layered.child_level h.parent_level h.interior hold)
  · exact Or.inr hnone

/-- INTERNAL: the grafted table is not the one that takes it. -/
theorem ne_parent (h : CanGraft F depth T root lvl path t i c w f) : c ≠ t := by
  rintro rfl
  rcases h.child_level with hl | hl <;> rw [h.parent_level] at hl
  · simp at hl
  · cases hl

/-- INTERNAL: the grafted table is reached by no path before. -/
theorem unreached (h : CanGraft F depth T root lvl path t i c w f) :
    Unreached F depth T root c := by
  rcases h.origin with ⟨hold, -⟩ | ⟨-, hnone, -⟩
  · exact h.layered.unreached_of_invalid h.parent_level h.interior hold h.notFollowed
  · exact h.layered.unreached_of_unowned hnone

variable [DecidableEq P]

/-- INTERNAL: tables that were owned keep their levels in the grafted tree. -/
theorem keeps (h : CanGraft F depth T root lvl path t i c w f) {p : P} {n : ℕ}
    (hp : lvl p = some n) : Function.update lvl c (some (path.length + 1)) p = some n := by
  by_cases hpc : p = c
  · subst hpc
    rcases h.child_level with hl | hl <;> rw [hp] at hl
    · rw [Function.update_self, hl]
    · cases hl
  · rw [Function.update_of_ne hpc, hp]

/-- INTERNAL: clearing the new table leaves its parent alone. -/
theorem rewrite_parent (h : CanGraft F depth T root lvl path t i c w f) :
    RadixTree.rewrite T c f t = T t :=
  rewrite_of_ne T c f h.ne_parent.symm

/-- INTERNAL: clearing the new table keeps the tree layered. -/
theorem layered_rewrite (h : CanGraft F depth T root lvl path t i c w f) :
    Layered F depth (rewrite T c f) root lvl := by
  rcases h.origin with ⟨-, hsame⟩ | ⟨-, hnone, -⟩
  · exact h.layered.rewrite c f hsame
  · exact h.layered.rewrite_of_unowned hnone f

/-- INTERNAL: clearing the new table changes no descent. -/
theorem descend_rewrite (h : CanGraft F depth T root lvl path t i c w f) (path' : List I)
    (hlen : path'.length ≤ depth) :
    descend F (RadixTree.rewrite T c f) root path' = descend F T root path' :=
  RadixTree.descend_rewrite h.unreached f path' hlen

variable [DecidableEq I]

/-- INTERNAL: the grafted tree is layered, the new table one level below its parent. -/
theorem layered_graft (h : CanGraft F depth T root lvl path t i c w f) :
    Layered F depth (graft T t i c w f) root
      (Function.update lvl c (some (path.length + 1))) := by
  refine h.layered_rewrite.link h.parent_level h.interior (F.next_child _ _ h.followed) ?_
  simp only [h.rewrite_parent, rewrite_self]
  rcases h.origin with ⟨hold, -⟩ | hfresh
  · exact Or.inl hold
  · exact Or.inr hfresh

/-- INTERNAL: an empty graft changes no lookup. -/
theorem lookup_graft (h : CanGraft F depth T root lvl path t i c w f) (path' : List I)
    (hlen : path'.length = depth) (last : I) :
    lookup F (graft T t i c w f) root path' last = lookup F T root path' last := by
  have hdead : Dead F (RadixTree.rewrite T c f) c := fun j => by
    rw [rewrite_self]
    exact h.dead j
  unfold graft
  rw [h.layered_rewrite.lookup_link h.parent_level h.interior h.ne_parent h.followed
    (by rw [h.rewrite_parent]; exact h.notFollowed) hdead (unreached_rewrite h.unreached f)
    path' hlen last, lookup_rewrite h.unreached f path' (Nat.le_of_eq hlen)]

/-- INTERNAL: every descent goes on as before. -/
theorem descend_graft (h : CanGraft F depth T root lvl path t i c w f) (path' : List I) (q : P)
    (hlen : path'.length ≤ depth) (hd : descend F T root path' = some q) :
    descend F (graft T t i c w f) root path' = some q :=
  descend_link (by rw [h.rewrite_parent]; exact h.notFollowed) path' q
    (by rw [h.descend_rewrite path' hlen, hd])

/-- INTERNAL: the new table is reached along its path. -/
theorem reached_graft (h : CanGraft F depth T root lvl path t i c w f) :
    descend F (graft T t i c w f) root (path ++ [i]) = some c := by
  rw [descend_concat, h.descend_graft path t (Nat.le_of_lt h.interior) h.parent, Option.bind_some,
    graft_self, h.followed]

/-- INTERNAL: no walk but the one to the grafted table is new: the tables below it are not
followed. -/
theorem descend_of_graft (h : CanGraft F depth T root lvl path t i c w f) (path' : List I) (q : P)
    (hlen : path'.length ≤ depth) (hd : descend F (graft T t i c w f) root path' = some q) :
    descend F T root path' = some q ∨ path' = path ++ [i] := by
  have hdead : Dead F (RadixTree.rewrite T c f) c := fun j => by
    rw [rewrite_self]
    exact h.dead j
  rcases descend_of_link h.ne_parent h.followed hdead path' q hd with hold | hq
  · left
    rwa [h.descend_rewrite path' hlen] at hold
  · right
    rw [hq] at hd
    have hlevel := h.layered_graft.descend_level path' c hlen hd
    rw [Function.update_self, Option.some.injEq] at hlevel
    have hinterior := h.interior
    refine h.layered_graft.descend_injective (path ++ [i]) path' c ?_ ?_ h.reached_graft hd
    · simp only [List.length_append, List.length_singleton]
      omega
    · simp only [List.length_append, List.length_singleton]
      omega

/-- INTERNAL: an entry of the grafted tree is the link, one of the new table, or as before. -/
theorem graft_cases (h : CanGraft F depth T root lvl path t i c w f) (p : P) (j : I) :
    (p = t ∧ j = i ∧ graft T t i c w f p j = w) ∨
      (p = c ∧ graft T t i c w f p j = f (T p j)) ∨
      (¬(p = t ∧ j = i) ∧ p ≠ c ∧ graft T t i c w f p j = T p j) := by
  by_cases hp : p = t ∧ j = i
  · obtain ⟨rfl, rfl⟩ := hp
    exact Or.inl ⟨rfl, rfl, graft_self _ _ _ _ _ _⟩
  · by_cases hc : p = c
    · subst hc
      exact Or.inr (Or.inl ⟨rfl, graft_child _ _ _ _ _ _ hp⟩)
    · exact Or.inr (Or.inr ⟨hp, hc, graft_of_ne _ _ _ _ _ _ hp hc⟩)

end CanGraft

section Leaf

variable {F : Format P W α} {depth : ℕ} {T : P → I → W} {root q : P} {lvl : P → Option ℕ}
variable [DecidableEq P] [DecidableEq I]

/-- INTERNAL: setting an entry of a last-level table keeps the tree layered. -/
theorem Layered.setLeaf (h : Layered F depth T root lvl) (hq : lvl q = some depth) (last : I)
    (w : W) : Layered F depth (setEntry T q last w) root lvl := by
  have hsame : ∀ {p n}, lvl p = some n → n < depth →
      ∀ j, setEntry T q last w p j = T p j := by
    intro p n hp hn j
    refine setEntry_of_ne T q last w ?_
    rintro ⟨rfl, -⟩
    rw [hq, Option.some.injEq] at hp
    omega
  refine ⟨h.root_level, ?_, ?_⟩
  · intro p n i c hp hn hc
    rw [hsame hp hn] at hc
    exact h.child_level hp hn hc
  · intro p n i p' n' i' c hp hn hc hp' hn' hc'
    rw [hsame hp hn] at hc
    rw [hsame hp' hn'] at hc'
    exact h.child_unique hp hn hc hp' hn' hc'

/-- INTERNAL: setting an entry of a last-level table changes no descent. -/
theorem Layered.descend_setLeaf (h : Layered F depth T root lvl) (hq : lvl q = some depth)
    (last : I) (w : W) (path : List I) (hlen : path.length ≤ depth) :
    descend F (setEntry T q last w) root path = descend F T root path := by
  induction path using List.reverseRecOn with
  | nil => rfl
  | append_singleton path j ih =>
    simp only [List.length_append, List.length_singleton] at hlen
    rw [descend_concat, descend_concat, ih (by omega)]
    cases hd : descend F T root path with
    | none => rfl
    | some p =>
      have hp := h.descend_level path p (by omega) hd
      have hne : ¬(p = q ∧ j = last) := by
        rintro ⟨rfl, -⟩
        rw [hq, Option.some.injEq] at hp
        omega
      simp only [Option.bind_some, setEntry_of_ne T q last w hne]

/-- INTERNAL: a store to the leaf table at the end of a walk changes the lookup of that
walk and index, and no other. -/
theorem Layered.lookup_setLeaf (h : Layered F depth T root lvl)
    (path : List I) (hlen : path.length = depth) (hd : descend F T root path = some q)
    (last : I) (w : W) (path' : List I) (hlen' : path'.length = depth) (last' : I) :
    lookup F (setEntry T q last w) root path' last' =
      if path' = path ∧ last' = last then F.leaf w else lookup F T root path' last' := by
  have hq := h.descend_level path q (by omega) hd
  rw [hlen] at hq
  unfold lookup
  rw [h.descend_setLeaf hq last w path' (by omega)]
  by_cases hsame : path' = path ∧ last' = last
  · obtain ⟨rfl, rfl⟩ := hsame
    simp [hd]
  · rw [if_neg hsame]
    cases hd' : descend F T root path' with
    | none => rfl
    | some q' =>
      have hne : ¬(q' = q ∧ last' = last) := by
        rintro ⟨rfl, rfl⟩
        exact hsame ⟨h.descend_injective path path' q' (by omega) (by omega) hd hd', rfl⟩
      simp only [Option.bind_some, setEntry_of_ne T q last w hne]

end Leaf

end Simbench.Library.RadixTree
