import Mathlib.Algebra.Group.Nat.Defs

/-!
# Postconditions of steps that can halt

A step ends in a state or halts for a reason, so its postcondition speaks about both. A run
performs a list of operations one after the other, each in an environment of its own; an
invariant that every operation keeps holds behind the run, and the reasons no operation halts
for are no reasons for the run.
-/

set_option autoImplicit false

namespace Simbench.Library.Outcomes

variable {α β σ ω ε η : Type}

/-- INTERNAL: the result satisfies `ok`, or the reason for the halt satisfies `halt`. -/
def Outcome (ok : α → Prop) (halt : η → Prop) : Except η α → Prop
  | .ok a => ok a
  | .error h => halt h

section Rules

variable {ok ok' : α → Prop} {post : β → Prop} {halt halt' : η → Prop} {x : Except η α}
  {f : α → Except η β}

/-- INTERNAL: a result is as it should be when it has the property. -/
@[simp] theorem outcome_ok (a : α) : Outcome ok halt (.ok a : Except η α) ↔ ok a := Iff.rfl

/-- INTERNAL: weaker properties hold of the same outcome. -/
theorem Outcome.mono (hx : Outcome ok halt x) (hok : ∀ a, ok a → ok' a)
    (hhalt : ∀ h, halt h → halt' h) : Outcome ok' halt' x := by
  cases x with
  | ok a => exact hok a hx
  | error h => exact hhalt h hx

/-- INTERNAL: two properties of one outcome. -/
theorem Outcome.and (hx : Outcome ok halt x) (hx' : Outcome ok' halt' x) :
    Outcome (fun a => ok a ∧ ok' a) (fun h => halt h ∧ halt' h) x := by
  cases x with
  | ok a => exact ⟨hx, hx'⟩
  | error h => exact ⟨hx, hx'⟩

/-- INTERNAL: a step behind a step: its outcome where the first goes on, the first's halt where it
does not. -/
theorem Outcome.bind (hx : Outcome ok halt x) (hf : ∀ a, ok a → Outcome post halt (f a)) :
    Outcome post halt (x >>= f) := by
  cases x with
  | ok a => exact hf a hx
  | error h => exact hx

/-- INTERNAL: a result has the property. -/
theorem Outcome.of_ok {a : α} (hx : Outcome ok halt x) (h : x = .ok a) : ok a := by
  rwa [h] at hx

/-- INTERNAL: a halt is one of those allowed. -/
theorem Outcome.of_error {h : η} (hx : Outcome ok halt x) (he : x = .error h) : halt h := by
  rwa [he] at hx

end Rules

/-! ## Runs -/

/-- INTERNAL: the operations in order, operation number `n` and the following ones in the
environments of their numbers. -/
def run (exec : ε → ω → σ → Except η σ) (env : ℕ → ε) : ℕ → List ω → σ → Except η σ
  | _, [], s => .ok s
  | n, op :: ops, s => do
    let s ← exec (env n) op s
    run exec env (n + 1) ops s

variable {exec : ε → ω → σ → Except η σ} {env : ℕ → ε} {Inv : σ → Prop} {halt : η → Prop}

/-- INTERNAL: a run over two lists is the second's behind the first's, with the numbers going on. -/
theorem run_append (n : ℕ) (before after : List ω) (s : σ) :
    run exec env n (before ++ after) s =
      run exec env n before s >>= run exec env (n + before.length) after := by
  induction before generalizing n s with
  | nil => rfl
  | cons op before ih =>
    simp only [List.cons_append, run, List.length_cons]
    cases exec (env n) op s with
    | error h => rfl
    | ok s' =>
      have hnumber : n + (before.length + 1) = n + 1 + before.length := by omega
      rw [hnumber]
      exact ih (n + 1) s'

/-- INTERNAL: **the invariant rule**: what every operation of a list keeps, a run of them keeps.
Induction on the list. -/
theorem run_invariant {ops : List ω} (hstep : ∀ e, ∀ op ∈ ops, ∀ s, Inv s →
    Outcome Inv halt (exec e op s)) (n : ℕ) {s : σ} (h : Inv s) :
    Outcome Inv halt (run exec env n ops s) := by
  induction ops generalizing n s with
  | nil => exact h
  | cons op ops ih =>
    exact (hstep (env n) op List.mem_cons_self s h).bind fun s' h' =>
      ih (fun e op' hop' => hstep e op' (List.mem_cons_of_mem _ hop')) (n + 1) h'

/-- INTERNAL: **the history rule**, for an invariant that knows the operations so far. Induction on
those left. -/
theorem run_history {Hist : List ω → σ → Prop} {ops : List ω} (hstep : ∀ e before op after s,
      ops = before ++ op :: after → Hist before s → Outcome (Hist (before ++ [op])) halt
        (exec e op s))
    (n : ℕ) {s : σ} (h : Hist [] s) : Outcome (Hist ops) halt (run exec env n ops s) := by
  have hrest : ∀ after before n s, ops = before ++ after → Hist before s →
      Outcome (Hist ops) halt (run exec env n after s) := by
    intro after
    induction after with
    | nil =>
      intro before n s hsplit hs
      rw [List.append_nil] at hsplit
      exact hsplit ▸ hs
    | cons op after ih =>
      intro before n s hsplit hs
      refine (hstep (env n) before op after s hsplit hs).bind fun s' hs' => ?_
      exact ih (before ++ [op]) (n + 1) s' (by rw [hsplit, List.append_assoc]; rfl) hs'
  exact hrest ops [] n s rfl h

/-- INTERNAL: a run looks at the environment of its own steps only. -/
theorem run_congr {env' : ℕ → ε} (n : ℕ) (henv : ∀ i, n ≤ i → env i = env' i) (ops : List ω)
    (s : σ) :
    run exec env n ops s = run exec env' n ops s := by
  induction ops generalizing n s with
  | nil => rfl
  | cons op ops ih =>
    rw [run, run, henv n (Nat.le_refl n)]
    exact bind_congr fun s' => ih (n + 1) (fun i hi => henv i (Nat.le_of_succ_le hi)) s'

/-- INTERNAL: a run in an environment seen through a function. -/
theorem run_comap {ε' : Type} (f : ε' → ε) (env' : ℕ → ε') (n : ℕ) (ops : List ω) (s : σ) :
    run exec (fun i => f (env' i)) n ops s = run (fun e => exec (f e)) env' n ops s := by
  induction ops generalizing n s with
  | nil => rfl
  | cons op ops ih =>
    rw [run, run]
    exact bind_congr fun s' => ih (n + 1) s'

/-- INTERNAL: **a run whose environments depend on its states** is one in environments that are
chosen beforehand. Induction on the operations. -/
theorem run_resolved {ε' : Type} {exec' : ε' → ω → σ → Except η σ} (resolve : ε' → ω → σ → ε)
    (idle : ε)
    (hexec : ∀ e op s, exec' e op s = exec (resolve e op s) op s) (env' : ℕ → ε') (n : ℕ)
    (ops : List ω) (s : σ) : ∃ env : ℕ → ε, run exec' env' n ops s = run exec env n ops s := by
  induction ops generalizing n s with
  | nil => exact ⟨fun _ => idle, rfl⟩
  | cons op ops ih =>
    cases hop : exec' (env' n) op s with
    | error h =>
      refine ⟨fun _ => resolve (env' n) op s, ?_⟩
      rw [run, run, ← hexec, hop]
      rfl
    | ok s' =>
      obtain ⟨env, hrest⟩ := ih (n + 1) s'
      refine ⟨fun i => if i = n then resolve (env' n) op s else env i, ?_⟩
      rw [run, run, if_pos rfl, ← hexec, hop]
      show run exec' env' (n + 1) ops s' = _
      rw [hrest]
      exact run_congr (n + 1) (fun i hi => (if_neg (by omega)).symm) ops s'

/-- INTERNAL: the outcome of a run in two parts, the second from every state the first may end
in. -/
theorem run_append_outcome {mid post : σ → Prop} {n : ℕ} {before after : List ω} {s : σ}
    (hbefore : Outcome mid halt (run exec env n before s))
    (hafter : ∀ s₁, mid s₁ → Outcome post halt (run exec env (n + before.length) after s₁)) :
    Outcome post halt (run exec env n (before ++ after) s) := by
  rw [run_append]
  exact hbefore.bind hafter

/-! ## Triples -/

/-- INTERNAL: from `pre` the operations end in `post` or halt for a reason in `halt`, in every
environment. -/
def Triple (exec : ε → ω → σ → Except η σ) (halt : η → Prop) (pre : σ → Prop) (ops : List ω)
    (post : σ → Prop) : Prop :=
  ∀ env n s, pre s → Outcome post halt (run exec env n ops s)

section Triples

variable {pre mid post pre' post' : σ → Prop} {halt' : η → Prop}

/-- INTERNAL: no operation leaves the condition as it is. -/
theorem Triple.nil : Triple exec halt pre [] pre := fun _ _ _ h => h

/-- INTERNAL: an operation before others: its condition afterwards is the others' before. -/
theorem Triple.cons {op : ω} {ops : List ω}
    (hop : ∀ e s, pre s → Outcome mid halt (exec e op s)) (hops : Triple exec halt mid ops post) :
    Triple exec halt pre (op :: ops) post :=
  fun env n s h => (hop (env n) s h).bind fun s₁ h₁ => hops env (n + 1) s₁ h₁

/-- INTERNAL: a list of a single operation. -/
theorem Triple.single {op : ω} (hop : ∀ e s, pre s → Outcome post halt (exec e op s)) :
    Triple exec halt pre [op] post :=
  Triple.cons hop Triple.nil

/-- INTERNAL: a list behind another: the condition between them is met by the first. -/
theorem Triple.append {before after : List ω} (hbefore : Triple exec halt pre before mid)
    (hafter : Triple exec halt mid after post) : Triple exec halt pre (before ++ after) post :=
  fun env n s h => run_append_outcome (hbefore env n s h) fun s₁ h₁ => hafter env _ s₁ h₁

/-- INTERNAL: from a stronger condition to a weaker one. -/
theorem Triple.mono {ops : List ω} (h : Triple exec halt pre ops post)
    (hpre : ∀ s, pre' s → pre s) (hpost : ∀ s, post s → post' s)
    (hhalt : ∀ reason, halt reason → halt' reason) : Triple exec halt' pre' ops post' :=
  fun env n s hs => (h env n s (hpre s hs)).mono hpost hhalt

/-- INTERNAL: operations that all keep an invariant. -/
theorem Triple.invariant {ops : List ω}
    (hstep : ∀ op ∈ ops, ∀ e s, Inv s → Outcome Inv halt (exec e op s)) :
    Triple exec halt Inv ops Inv :=
  fun _ n _ h => run_invariant (fun e op hop s hs => hstep op hop e s hs) n h

end Triples

end Simbench.Library.Outcomes
