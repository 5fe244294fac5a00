import Simbench.Library.ByteCopies
import Mathlib.Algebra.Group.Nat.Defs

/-!
# Words of bytes

Words of any number of bytes in a memory with addresses of any width that wrap around, low byte
first: what a store changes, what a load depends on, and words that a copy has moved. Words that
are pushed on a stack that grows down are read back at their distance from the top, nothing else
changes, and a list of registers popped in the opposite order of the one it was pushed in gets
its values back.
-/

set_option autoImplicit false

namespace Simbench.Library.ByteWords

open Simbench.Library.ByteCopies

variable {w : ℕ}

/-- INTERNAL: memory by bytes, with addresses of `w` bits. -/
abbrev Bytes (w : ℕ) : Type := BitVec w → BitVec 8

/-- INTERNAL: `n` bytes from an address on as a number, low byte first. -/
def load (mem : Bytes w) : (n : ℕ) → BitVec w → BitVec (8 * n)
  | 0, _ => 0#0
  | n + 1, a => load mem n (a + 1) ++ mem a

/-- INTERNAL: a store of `n` bytes, the lowest one first. -/
def store (n : ℕ) (a : BitVec w) (v : BitVec (8 * n)) (mem : Bytes w) : Bytes w :=
  fun x => if InRange a n x then v.extractLsb' (8 * (x - a).toNat) 8 else mem x

variable {a b x : BitVec w} {n m k : ℕ} {mem mem' : Bytes w}

/-! ## Addresses -/

/-- INTERNAL: one further, and then `k` further. -/
theorem add_one_ofNat (a : BitVec w) (k : ℕ) :
    a + 1 + BitVec.ofNat w k = a + BitVec.ofNat w (k + 1) := by
  rw [BitVec.add_assoc, Nat.add_comm k 1, BitVec.ofNat_add]
  rfl

/-- INTERNAL: the distance of the `k`-th address is `k`. -/
theorem toNat_add_ofNat_sub (a : BitVec w) (hk : k < 2 ^ w) :
    (a + BitVec.ofNat w k - a).toNat = k := by
  rw [BitVec.add_comm, BitVec.add_sub_cancel, BitVec.toNat_ofNat, Nat.mod_eq_of_lt hk]

/-- INTERNAL: a range above an address, by the distance from that address. -/
theorem inRange_offset (h : k + m ≤ 2 ^ w) :
    InRange (a + BitVec.ofNat w k) m x ↔ k ≤ (x - a).toNat ∧ (x - a).toNat < k + m := by
  have hlt := (x - a).isLt
  have hdistance : (x - (a + BitVec.ofNat w k)).toNat =
      (2 ^ w - k % 2 ^ w + (x - a).toNat) % 2 ^ w := by
    rw [← BitVec.sub_sub, BitVec.toNat_sub, BitVec.toNat_ofNat]
  unfold InRange
  rw [hdistance]
  by_cases hk : k < 2 ^ w
  · rw [Nat.mod_eq_of_lt hk]
    by_cases hle : k ≤ (x - a).toNat
    · rw [show 2 ^ w - k + (x - a).toNat = (x - a).toNat - k + 2 ^ w by omega, Nat.add_mod_right,
        Nat.mod_eq_of_lt (by omega)]
      omega
    · rw [Nat.mod_eq_of_lt (by omega)]
      omega
  · obtain rfl : m = 0 := by omega
    omega

/-- INTERNAL: a range below an address, by the distance from that address. -/
theorem inRange_sub (hm : m ≤ k) (hk : k < 2 ^ w) :
    InRange (a - BitVec.ofNat w k) m x ↔
      2 ^ w ≤ (x - a).toNat + k ∧ (x - a).toNat + k < 2 ^ w + m := by
  have hlt := (x - a).isLt
  have hsum : x - (a - BitVec.ofNat w k) = x - a + BitVec.ofNat w k := by grind
  have hdistance : (x - (a - BitVec.ofNat w k)).toNat = ((x - a).toNat + k) % 2 ^ w := by
    rw [hsum, BitVec.toNat_add, BitVec.toNat_ofNat, Nat.add_mod_mod]
  unfold InRange
  rw [hdistance]
  by_cases hwraps : 2 ^ w ≤ (x - a).toNat + k
  · rw [Nat.mod_eq_sub_mod hwraps, Nat.mod_eq_of_lt (by omega)]
    omega
  · rw [Nat.mod_eq_of_lt (by omega)]
    omega

/-- INTERNAL: two words at different distances from an address. -/
theorem apart_of_le (h : k + m ≤ n) (hn : n + m ≤ 2 ^ w)
    (hx : InRange (a + BitVec.ofNat w k) m x) : ¬ InRange (a + BitVec.ofNat w n) m x := by
  rw [inRange_offset (by omega)] at hx ⊢
  omega

/-! ## Loads and stores -/

/-- INTERNAL: a bit of a word loaded is a bit of one of its bytes. -/
theorem getLsbD_load (mem : Bytes w) (n : ℕ) (a : BitVec w) {i : ℕ} (hi : i < 8 * n) :
    (load mem n a).getLsbD i = (mem (a + BitVec.ofNat w (i / 8))).getLsbD (i % 8) := by
  induction n generalizing a i with
  | zero => omega
  | succ n ih =>
    rw [load, BitVec.getLsbD_append]
    by_cases hlow : i < 8
    · rw [if_pos hlow, Nat.div_eq_of_lt hlow, Nat.mod_eq_of_lt hlow,
        BitVec.add_zero]
    · rw [if_neg hlow, ih (a + 1) (by omega), add_one_ofNat, show (i - 8) / 8 + 1 = i / 8 by omega,
        show (i - 8) % 8 = i % 8 by omega]

/-- INTERNAL: a word depends on its bytes. -/
theorem load_congr (hn : n ≤ 2 ^ w) (h : ∀ x, InRange a n x → mem x = mem' x) :
    load mem n a = load mem' n a := by
  apply BitVec.eq_of_getLsbD_eq
  intro i hi
  rw [getLsbD_load mem n a hi, getLsbD_load mem' n a hi, h _ (inRange_add (by omega) hn)]

/-- INTERNAL: equal words have equal bytes. -/
theorem byte_eq_of_load_eq (h : load mem n a = load mem' n a) (hk : k < n) :
    mem (a + BitVec.ofNat w k) = mem' (a + BitVec.ofNat w k) := by
  apply BitVec.eq_of_getLsbD_eq
  intro j hj
  have hbit := congrArg (fun word => word.getLsbD (8 * k + j)) h
  simp only [getLsbD_load _ n a (show 8 * k + j < 8 * n by omega)] at hbit
  rwa [show (8 * k + j) / 8 = k by omega, show (8 * k + j) % 8 = j by omega] at hbit

/-- INTERNAL: behind a store the `k`-th byte is that of the word. -/
theorem store_add (hk : k < n) (hn : n ≤ 2 ^ w) (a : BitVec w) (v : BitVec (8 * n))
    (mem : Bytes w) : store n a v mem (a + BitVec.ofNat w k) = v.extractLsb' (8 * k) 8 := by
  rw [store, if_pos (inRange_add hk hn), toNat_add_ofNat_sub a (by omega)]

/-- INTERNAL: what is stored is loaded again. -/
theorem load_store (hn : n ≤ 2 ^ w) (a : BitVec w) (v : BitVec (8 * n)) (mem : Bytes w) :
    load (store n a v mem) n a = v := by
  apply BitVec.eq_of_getLsbD_eq
  intro i hi
  rw [getLsbD_load _ n a hi, store_add (by omega) hn, BitVec.getLsbD_extractLsb',
    show 8 * (i / 8) + i % 8 = i by omega]
  simp [Nat.mod_lt]

/-- INTERNAL: a store leaves all other bytes alone. -/
theorem store_of_notMem (h : ¬ InRange a n x) (v : BitVec (8 * n)) (mem : Bytes w) :
    store n a v mem x = mem x := if_neg h

/-- INTERNAL: **a store elsewhere** leaves a load of other bytes as it was. -/
theorem load_store_of_apart (hn : n ≤ 2 ^ w) (h : ∀ x, InRange a n x → ¬ InRange b m x)
    (v : BitVec (8 * m)) (mem : Bytes w) : load (store m b v mem) n a = load mem n a :=
  load_congr hn fun x hx => store_of_notMem (h x hx) v mem

/-- INTERNAL: **a word that was copied** is loaded from the copy as from its source. -/
theorem load_copied (h : k + m ≤ n) (hn : n ≤ 2 ^ w) (mem : Bytes w) (dest src : BitVec w) :
    load (copied mem dest src n) m (dest + BitVec.ofNat w k) =
      load mem m (src + BitVec.ofNat w k) := by
  apply BitVec.eq_of_getLsbD_eq
  intro i hi
  have hsum : ∀ c : BitVec w, c + BitVec.ofNat w k + BitVec.ofNat w (i / 8) =
      c + BitVec.ofNat w (k + i / 8) := by
    intro c
    rw [BitVec.add_assoc, BitVec.ofNat_add]
  rw [getLsbD_load _ m _ hi, getLsbD_load _ m _ hi, hsum, hsum, copied_add (by omega) hn]

/-! ## Words below a top -/

/-- INTERNAL: the address of the `k`th word below a top. -/
def below (n : ℕ) (top : BitVec w) (k : ℕ) : BitVec w := top - BitVec.ofNat w (n * k)

/-- INTERNAL: words stored below a top, the first one next to it. -/
def pushAll (n : ℕ) : List (BitVec (8 * n)) → BitVec w → Bytes w → Bytes w
  | [], _, mem => mem
  | v :: words, top, mem => pushAll n words (below n top 1) (store n (below n top 1) v mem)

/-- INTERNAL: no word below the top is the top. -/
theorem below_zero (n : ℕ) (top : BitVec w) : below n top 0 = top := BitVec.sub_zero top

/-- INTERNAL: the first word below the top begins `n` bytes below it. -/
theorem below_one (n : ℕ) (top : BitVec w) : below n top 1 = top - BitVec.ofNat w n := by
  rw [below, Nat.mul_one]

/-- INTERNAL: words below words below the top. -/
theorem below_below (n : ℕ) (top : BitVec w) (j k : ℕ) :
    below n (below n top j) k = below n top (j + k) := by
  simp only [below]
  rw [Nat.mul_add, BitVec.ofNat_add, BitVec.sub_sub]

/-- INTERNAL: one word more below it. -/
theorem below_succ (n : ℕ) (top : BitVec w) (k : ℕ) :
    below n top (k + 1) = below n (below n top 1) k := by
  rw [below_below, Nat.add_comm]

/-- INTERNAL: one word up from the word below. -/
theorem below_succ_add (n : ℕ) (top : BitVec w) (k : ℕ) :
    below n top (k + 1) + BitVec.ofNat w n = below n top k := by
  rw [← below_below, below_one, BitVec.sub_add_cancel]

/-- INTERNAL: a word below a top, from one that is lower. -/
theorem below_eq_add (n : ℕ) (top : BitVec w) {j k : ℕ} (h : j ≤ k) :
    below n top j = below n top k + BitVec.ofNat w (n * (k - j)) := by
  obtain ⟨d, rfl⟩ := Nat.exists_eq_add_of_le h
  simp only [below, Nat.add_sub_cancel_left, Nat.mul_add, BitVec.ofNat_add]
  grind

/-- INTERNAL: a range of words below a top has its upper words. -/
theorem inRange_below (top : BitVec w) {j k i : ℕ} (hi : j ≤ i) (hk : i ≤ k) (hfit : n * k ≤ 2 ^ w)
    (hx : InRange (below n top i) (n * (i - j)) x) : InRange (below n top k) (n * (k - j)) x := by
  have hle : n * (k - i) + n * (i - j) = n * (k - j) := by
    rw [← Nat.mul_add, show k - i + (i - j) = k - j by omega]
  have hsmall : n * (k - j) ≤ n * k := Nat.mul_le_mul_left n (Nat.sub_le k j)
  rw [below_eq_add n top hk, inRange_offset (by omega)] at hx
  unfold InRange
  omega

/-- INTERNAL: the lower words of a stack, by the distance from its top. -/
theorem inRange_stack {top : BitVec w} {j k : ℕ} (hj : j ≤ k) (hfit : n * k < 2 ^ w) :
    InRange (below n top k) (n * j) x ↔
      2 ^ w ≤ (x - top).toNat + n * k ∧ (x - top).toNat + n * k < 2 ^ w + n * j :=
  inRange_sub (Nat.mul_le_mul_left n hj) hfit

/-- INTERNAL: the addresses of a word on the stack, by their distance from the top. -/
theorem inRange_word {top : BitVec w} {k : ℕ} (hk : 0 < k) (hfit : n * k < 2 ^ w) :
    InRange (below n top k) n x ↔
      2 ^ w ≤ (x - top).toNat + n * k ∧ (x - top).toNat + n * k < 2 ^ w + n :=
  inRange_sub (Nat.le_mul_of_pos_right n hk) hfit

/-- INTERNAL: pushing two lists is pushing the second behind the first. -/
theorem pushAll_append (words words' : List (BitVec (8 * n))) (top : BitVec w) (mem : Bytes w) :
    pushAll n (words ++ words') top mem =
      pushAll n words' (below n top words.length) (pushAll n words top mem) := by
  induction words generalizing top mem with
  | nil => rw [List.nil_append, List.length_nil, below_zero, pushAll]
  | cons v words ih =>
    rw [List.cons_append, pushAll, ih, List.length_cons, below_succ n top words.length, pushAll]

/-- INTERNAL: pushing words writes nothing but the stack below the top. -/
theorem pushAll_of_notMem (words : List (BitVec (8 * n))) {top : BitVec w} {mem : Bytes w}
    (hfit : n * words.length ≤ 2 ^ w)
    (hx : ¬ InRange (below n top words.length) (n * words.length) x) :
    pushAll n words top mem x = mem x := by
  induction words generalizing top mem with
  | nil => rfl
  | cons v words ih =>
    have hshort : n * words.length ≤ 2 ^ w :=
      Nat.le_trans (Nat.mul_le_mul_left n (Nat.le_succ _)) hfit
    have hfirst : ¬ InRange (below n top 1) n x := by
      intro h
      refine hx (inRange_below top (j := 0) (i := 1) (Nat.zero_le _) (Nat.succ_pos _) hfit ?_)
      rw [Nat.sub_zero, Nat.mul_one]
      exact h
    have hrest : ¬ InRange (below n (below n top 1) words.length) (n * words.length) x := by
      intro h
      have hsame : below n top (v :: words).length = below n (below n top 1) words.length := by
        rw [below_below, List.length_cons, Nat.add_comm]
      rw [hsame] at hx
      unfold InRange at h hx
      have hle : n * words.length ≤ n * (v :: words).length :=
        Nat.mul_le_mul_left n (Nat.le_succ _)
      omega
    rw [pushAll, ih hshort hrest, store_of_notMem hfirst]

/-- INTERNAL: **the words that were pushed** are loaded from their places on the stack. -/
theorem load_pushAll (words : List (BitVec (8 * n))) (top : BitVec w) (mem : Bytes w)
    (hfit : n * words.length ≤ 2 ^ w) {i : ℕ} (hi : i < words.length) :
    load (pushAll n words top mem) n (below n top (i + 1)) = words[i] := by
  induction words generalizing top mem i with
  | nil => exact absurd hi (Nat.not_lt_zero _)
  | cons v words ih =>
    have hlength : n * words.length + n = n * (v :: words).length := by
      rw [List.length_cons, Nat.mul_succ]
    have hshort : n * words.length ≤ 2 ^ w := by omega
    cases i with
    | zero =>
      have hkeep : ∀ x, InRange (below n top 1) n x →
          pushAll n words (below n top 1) (store n (below n top 1) v mem) x =
            store n (below n top 1) v mem x := by
        intro x hx
        refine pushAll_of_notMem words hshort fun h => ?_
        -- the later words end where the first one begins
        have hbase := below_eq_add n (below n top 1) (Nat.zero_le words.length)
        rw [Nat.sub_zero, show below n (below n top 1) 0 = below n top 1 from by
          rw [below_below]] at hbase
        rw [hbase, inRange_offset (by omega)] at hx
        unfold InRange at h
        omega
      rw [pushAll, load_congr (by omega) hkeep, load_store (by omega)]
      rfl
    | succ i =>
      rw [pushAll, List.getElem_cons_succ, ← ih _ _ hshort (Nat.lt_of_succ_lt_succ hi), below_below,
        Nat.add_comm 1]

/-- INTERNAL: a word apart from the ones pushed. -/
theorem load_pushAll_of_apart (hm : m ≤ 2 ^ w) {words : List (BitVec (8 * n))} {top : BitVec w}
    (mem : Bytes w) (hfit : n * words.length ≤ 2 ^ w)
    (h : ∀ x, InRange a m x → ¬ InRange (below n top words.length) (n * words.length) x) :
    load (pushAll n words top mem) m a = load mem m a :=
  load_congr hm fun x hx => pushAll_of_notMem words hfit (h x hx)

/-- INTERNAL: counted from the last word pushed. -/
theorem load_pushAll_last {words : List (BitVec (8 * n))} {i : ℕ} {v : BitVec (8 * n)}
    (hv : words.reverse[i]? = some v) (top : BitVec w) (mem : Bytes w)
    (hfit : n * words.length ≤ 2 ^ w) :
    load (pushAll n words top mem) n (below n top words.length + BitVec.ofNat w (n * i)) = v := by
  have hi : i < words.length := by
    have h := (List.getElem?_eq_some_iff.mp hv).1
    rwa [List.length_reverse] at h
  rw [List.getElem?_reverse hi] at hv
  obtain ⟨hlast, hget⟩ := List.getElem?_eq_some_iff.mp hv
  have haddr := below_eq_add n top (show words.length - 1 - i + 1 ≤ words.length by omega)
  rw [show words.length - (words.length - 1 - i + 1) = i by omega] at haddr
  rw [← haddr, load_pushAll words top mem hfit hlast, hget]

/-! ## Words popped into registers -/

/-- INTERNAL: words above an address, one word further. -/
theorem above_succ (n : ℕ) (a : BitVec w) (i : ℕ) :
    a + BitVec.ofNat w n + BitVec.ofNat w (n * i) = a + BitVec.ofNat w (n * (i + 1)) := by
  rw [BitVec.add_assoc, ← BitVec.ofNat_add, Nat.mul_succ, Nat.add_comm]

section Registers

variable {ρ : Type} [DecidableEq ρ]

/-- INTERNAL: pops into one register after the other. -/
def popAll (n : ℕ) : List ρ → BitVec w → Bytes w → (ρ → BitVec (8 * n)) → ρ → BitVec (8 * n)
  | [], _, _, regs => regs
  | r :: rs, a, mem, regs =>
    popAll n rs (a + BitVec.ofNat w n) mem (Function.update regs r (load mem n a))

/-- INTERNAL: popping changes the registers it names only. -/
theorem popAll_of_notMem {rs : List ρ} {r : ρ} (hr : r ∉ rs) (a : BitVec w) (mem : Bytes w)
    (regs : ρ → BitVec (8 * n)) : popAll n rs a mem regs r = regs r := by
  induction rs generalizing a regs with
  | nil => rfl
  | cons r' rs ih =>
    rw [List.mem_cons, not_or] at hr
    rw [popAll, ih hr.2, Function.update_of_ne hr.1]

/-- INTERNAL: popping may come behind a change of a register it does not name. -/
theorem popAll_update {rs : List ρ} {r : ρ} (hr : r ∉ rs) (a : BitVec w) (mem : Bytes w)
    (v : BitVec (8 * n)) (regs : ρ → BitVec (8 * n)) :
    popAll n rs a mem (Function.update regs r v) =
      Function.update (popAll n rs a mem regs) r v := by
  induction rs generalizing a regs with
  | nil => rfl
  | cons r' rs ih =>
    rw [List.mem_cons, not_or] at hr
    rw [popAll, Function.update_comm hr.1, ih hr.2, popAll]

/-- INTERNAL: **register number `i`** gets word number `i`. -/
theorem popAll_get {rs : List ρ} (hnodup : rs.Nodup) {i : ℕ} {r : ρ} (hr : rs[i]? = some r)
    (a : BitVec w) (mem : Bytes w) (regs : ρ → BitVec (8 * n)) :
    popAll n rs a mem regs r = load mem n (a + BitVec.ofNat w (n * i)) := by
  induction rs generalizing i a regs with
  | nil => cases hr
  | cons r' rs ih =>
    rw [List.nodup_cons] at hnodup
    rw [popAll]
    cases i with
    | zero =>
      rw [List.getElem?_cons_zero, Option.some.injEq] at hr
      rw [← hr, popAll_of_notMem hnodup.1, Function.update_self, Nat.mul_zero, BitVec.add_zero]
    | succ i =>
      rw [List.getElem?_cons_succ] at hr
      rw [ih hnodup.2 hr, above_succ]

/-- INTERNAL: the registers depend on the words popped. -/
theorem popAll_congr (rs : List ρ) (a : BitVec w) (regs : ρ → BitVec (8 * n))
    (h : ∀ i < rs.length, load mem n (a + BitVec.ofNat w (n * i)) =
      load mem' n (a + BitVec.ofNat w (n * i))) :
    popAll n rs a mem regs = popAll n rs a mem' regs := by
  induction rs generalizing a regs with
  | nil => rfl
  | cons r rs ih =>
    have hfirst := h 0 (Nat.zero_lt_succ _)
    rw [Nat.mul_zero, BitVec.add_zero] at hfirst
    rw [popAll, popAll, hfirst]
    apply ih
    intro i hi
    have hnext := h (i + 1) (Nat.succ_lt_succ hi)
    rwa [← above_succ] at hnext

/-- INTERNAL: **mirrored lists**: registers popped in the opposite order of the one they were
pushed in have their values back. -/
theorem popAll_pushAll {rs : List ρ} (hnodup : rs.Nodup) {r : ρ} (hr : r ∈ rs) (top : BitVec w)
    (mem : Bytes w) (regs regs' : ρ → BitVec (8 * n)) (hfit : n * rs.length ≤ 2 ^ w) :
    popAll n rs (below n top rs.length) (pushAll n (rs.reverse.map regs) top mem) regs' r =
      regs r := by
  obtain ⟨i, hi⟩ := List.mem_iff_getElem?.mp hr
  have hlength : (rs.reverse.map regs).length = rs.length := by
    rw [List.length_map, List.length_reverse]
  have hword : (rs.reverse.map regs).reverse[i]? = some (regs r) := by
    rw [← List.map_reverse, List.reverse_reverse, List.getElem?_map, hi]
    rfl
  rw [popAll_get hnodup hi]
  have hload := load_pushAll_last hword top mem (by rwa [hlength])
  rwa [hlength] at hload

end Registers

/-! ## Words of eight bytes -/

/-- INTERNAL: for words of eight bytes: one word below the top. -/
theorem below_eight (top : BitVec w) : below 8 top 1 = top - 8 := below_one 8 top

/-- INTERNAL: for words of eight bytes: one word up again. -/
theorem below_eight_add (top : BitVec w) (k : ℕ) : below 8 top (k + 1) + 8 = below 8 top k :=
  below_succ_add 8 top k

/-- INTERNAL: words above an address, one word further. -/
theorem above_eight (a : BitVec w) (i : ℕ) :
    a + 8 + BitVec.ofNat w (8 * i) = a + BitVec.ofNat w (8 * (i + 1)) := above_succ 8 a i

end Simbench.Library.ByteWords
