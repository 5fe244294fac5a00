import Simbench.Library.Outcomes

/-!
# Translation caches

A processor keeps translations of addresses and uses what it has kept. By itself it forgets some of
them at any time and loads others from the tables in force; a program changes the tables, and makes
the processor forget. As long as no change takes back a translation that may still be kept, the
program runs as if nothing were kept.
-/

set_option autoImplicit false

namespace Simbench.Library.TranslationCaches

open Simbench.Library.Outcomes

variable {α τ σ ω ε η : Type}

/-- INTERNAL: the translations that are kept. -/
abbrev Cache (α τ : Type) : Type := α → Option τ

/-- INTERNAL: what the processor keeps, and what it loads. -/
structure Activity (α : Type) where
  keeps : α → Bool
  loads : α → Bool

/-- INTERNAL: what the cache holds behind such an activity: translations loaded anew, and those
kept. -/
def Activity.apply (activity : Activity α) (walk : α → Option τ) (cache : Cache α τ) :
    Cache α τ :=
  fun a => if activity.loads a then walk a else if activity.keeps a then cache a else none

/-- INTERNAL: what a program makes the processor forget. -/
inductive Maintenance (α : Type)
  | keep
  | flush
  | evict (entries : α → Bool)

/-- INTERNAL: what the cache holds behind a maintenance operation: all it held, nothing, or all but
some entries. -/
def Maintenance.apply (maintenance : Maintenance α) (cache : Cache α τ) : Cache α τ :=
  match maintenance with
  | .keep => cache
  | .flush => fun _ => none
  | .evict entries => fun a => if entries a then none else cache a

/-- INTERNAL: a translation that is kept goes before the one of the tables. -/
def lookup (walk : α → Option τ) (cache : Cache α τ) (a : α) : Option τ := (cache a).or (walk a)

/-! ## Agreement -/

/-- INTERNAL: every translation of the one is a translation of the other. -/
def Within (f g : α → Option τ) : Prop := ∀ a t, f a = some t → g a = some t

section Agreement

variable {f g h walk walk' : α → Option τ} {cache : Cache α τ}

/-- INTERNAL: a function is within itself. -/
theorem Within.refl (f : α → Option τ) : Within f f := fun _ _ ht => ht

/-- INTERNAL: a function within another is within whatever that one is within. -/
theorem Within.trans (hfg : Within f g) (hgh : Within g h) : Within f h :=
  fun a t ht => hgh a t (hfg a t ht)

/-- INTERNAL: an empty cache holds nothing that is wrong. -/
theorem within_none (f : α → Option τ) : Within (fun _ => none) f := fun _ _ ht => by cases ht

/-- INTERNAL: what is kept agrees with the tables, so keeping it makes no difference. -/
theorem Within.lookup_eq (hcache : Within cache walk) : lookup walk cache = walk := by
  funext a
  unfold lookup
  cases hentry : cache a with
  | none => rfl
  | some t => exact (hcache a t hentry).symm

/-- INTERNAL: a cache within the walk stays there, whatever it loads from it and drops. -/
theorem Within.activity (hcache : Within cache walk) (activity : Activity α) :
    Within (activity.apply walk cache) walk := by
  intro a t ht
  unfold Activity.apply at ht
  split at ht
  · exact ht
  · split at ht
    · exact hcache a t ht
    · cases ht

/-- INTERNAL: a cache stays within the walk over maintenance, which only drops translations. -/
theorem Within.maintenance (hcache : Within cache walk) (maintenance : Maintenance α) :
    Within (maintenance.apply cache) walk := by
  cases maintenance with
  | keep => exact hcache
  | flush => exact within_none walk
  | evict entries =>
    intro a t ht
    unfold Maintenance.apply at ht
    dsimp only at ht
    split at ht
    · cases ht
    · exact hcache a t ht

/-- INTERNAL: new tables agree with what is kept, if nothing is or they take nothing back. -/
theorem Within.next (hcache : Within cache walk) {maintenance : Maintenance α}
    (hsafe : maintenance = .flush ∨ Within walk walk') :
    Within (maintenance.apply cache) walk' := by
  rcases hsafe with rfl | hextends
  · exact within_none walk'
  · exact (hcache.maintenance maintenance).trans hextends

end Agreement

/-! ## A program and its tables -/

/-- INTERNAL: a machine and what its processor keeps. -/
structure Core (σ α τ : Type) where
  machine : σ
  cache : Cache α τ

section Runs

variable (walk : σ → α → Option τ) (exec : (α → Option τ) → ε → ω → σ → Except η σ)
  (maintains : ω → σ → Maintenance α)

/-- INTERNAL: an operation of a processor that keeps nothing. -/
def execTables (e : ε) (op : ω) (s : σ) : Except η σ := exec (walk s) e op s

/-- INTERNAL: an operation, behind what the processor does by itself. -/
def execCached (e : ε × Activity α) (op : ω) (c : Core σ α τ) : Except η (Core σ α τ) := do
  let cache := e.2.apply (walk c.machine) c.cache
  let s ← exec (lookup (walk c.machine) cache) e.1 op c.machine
  .ok ⟨s, (maintains op c.machine).apply cache⟩

/-- INTERNAL: an operation that takes no translation back, or lets the processor keep none. -/
def Safe (op : ω) (s s' : σ) : Prop :=
  maintains op s = .flush ∨ Within (walk s) (walk s')

/-- INTERNAL: what is kept agrees with the tables in force. -/
def Coherent (c : Core σ α τ) : Prop := Within c.cache (walk c.machine)

/-- INTERNAL: two results are the same, but for what the processor keeps, and that is coherent. -/
inductive Same : Except η (Core σ α τ) → Except η σ → Prop
  | ok (c : Core σ α τ) : Coherent walk c → Same (.ok c) (.ok c.machine)
  | error (halt : η) : Same (.error halt) (.error halt)

variable {walk exec maintains}

/-- INTERNAL: **one operation** on a coherent core does what it does with every access walked anew,
and leaves the core coherent. -/
theorem execCached_same {halt : η → Prop} {c : Core σ α τ} (hc : Coherent walk c)
    (e : ε × Activity α) {op : ω}
    (hsafe : Outcome (Safe walk maintains op c.machine) halt
      (execTables walk exec e.1 op c.machine)) :
    Same walk (execCached walk exec maintains e op c) (execTables walk exec e.1 op c.machine) := by
  have hactive := Within.activity hc e.2
  unfold execCached
  dsimp only
  rw [hactive.lookup_eq]
  unfold execTables at hsafe ⊢
  cases hexec : exec (walk c.machine) e.1 op c.machine with
  | error h => exact .error h
  | ok s =>
    rw [hexec] at hsafe
    exact .ok ⟨s, _⟩ (hactive.next hsafe)

/-- INTERNAL: **a run** of operations that are safe where they are done. Induction on those left. -/
theorem run_same {Hist : List ω → σ → Prop} {halt : η → Prop} {ops : List ω}
    (hstep : ∀ e before op after s, ops = before ++ op :: after → Hist before s →
      Outcome (fun s' => Hist (before ++ [op]) s' ∧ Safe walk maintains op s s') halt
        (execTables walk exec e op s))
    (env : ℕ → ε × Activity α) (n : ℕ) {c : Core σ α τ} (hhist : Hist [] c.machine)
    (hc : Coherent walk c) :
    Same walk (run (execCached walk exec maintains) env n ops c)
      (run (execTables walk exec) (fun i => (env i).1) n ops c.machine) := by
  have hrest : ∀ after before n c, ops = before ++ after → Hist before c.machine →
      Coherent walk c → Same walk (run (execCached walk exec maintains) env n after c)
        (run (execTables walk exec) (fun i => (env i).1) n after c.machine) := by
    intro after
    induction after with
    | nil => exact fun _ _ c _ _ hc => .ok c hc
    | cons op after ih =>
      intro before n c hsplit hhist hc
      have hop := hstep (env n).1 before op after c.machine hsplit hhist
      have hsame := execCached_same hc (env n) (hop.mono (fun _ h => h.2) fun _ h => h)
      rw [run, run]
      generalize execCached walk exec maintains (env n) op c = cached at hsame
      generalize execTables walk exec (env n).1 op c.machine = tables at hsame hop
      cases hsame with
      | error h => exact .error h
      | ok c' hc' =>
        exact ih (before ++ [op]) (n + 1) c' (by rw [hsplit, List.append_assoc]; rfl) hop.1 hc'
  exact hrest ops [] n c rfl hhist hc

end Runs

end Simbench.Library.TranslationCaches
