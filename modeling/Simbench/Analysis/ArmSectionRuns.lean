import Simbench.Analysis.ArmSectionTable

/-!
# The section table over whole runs

The table is the replay of the trace, and every mapping of the trace was legal: it found its
section unmapped or mapped by the same descriptor. Since the last zeroing, then, the mapping
calls that returned 0 decide every word; none of them changes a word that is not zero; and
`mem_init`, which zeroes the whole table first, depends on the table nowhere.
-/

set_option autoImplicit false

namespace Simbench.Analysis.ArmSectionRuns

open Simbench.Library.ByteParser Simbench.Program.ArmSections Simbench.Analysis.ArmSectionTable

/-! ## Replay -/

/-- INTERNAL: what an event does to the table. -/
def Event.apply (t : Table) : Event → Table
  | .zeroed => zeroTable
  | .mapping kind pa va 0 => writeWord t (sectionIndex va) (kind.descriptor pa)
  | .mapping _ _ _ (_ + 1) => t

/-- INTERNAL: the table behind a list of events. -/
def replay (t : Table) (events : List Event) : Table := events.foldl Event.apply t

/-- INTERNAL: a mapping that returned 0 found the section free or mapped by its descriptor. -/
def Event.Guard (t : Table) : Event → Prop
  | .zeroed => True
  | .mapping kind pa va 0 =>
    readWord t (sectionIndex va) = 0 ∨ readWord t (sectionIndex va) = kind.descriptor pa
  | .mapping _ _ _ (_ + 1) => True

/-- INTERNAL: each event is one the table it finds allows. -/
def Legal (t : Table) : List Event → Prop
  | [] => True
  | e :: events => Event.Guard t e ∧ Legal (Event.apply t e) events

/-- INTERNAL: replaying two logs one after the other. -/
theorem replay_append (t : Table) (events events' : List Event) :
    replay t (events ++ events') = replay (replay t events) events' :=
  List.foldl_append

/-- INTERNAL: a log in two parts is legal where the second is on the table the first leaves. -/
theorem legal_append (t : Table) (events events' : List Event) :
    Legal t (events ++ events') ↔ Legal t events ∧ Legal (replay t events) events' := by
  induction events generalizing t with
  | nil => exact ⟨fun h => ⟨trivial, h⟩, And.right⟩
  | cons e events ih =>
    rw [List.cons_append, Legal, ih, Legal, and_assoc]
    rfl

/-- INTERNAL: `s'` is `s` after events that were appended to the trace. -/
def Logged (s s' : State) : Prop :=
  ∃ events, s'.trace = s.trace ++ events ∧ s'.table = replay s.table events ∧ Legal s.table events

/-- INTERNAL: nothing is logged where nothing is done. -/
theorem Logged.refl (s : State) : Logged s s := ⟨[], (List.append_nil _).symm, rfl, trivial⟩

/-- INTERNAL: what two steps log is logged one after the other. -/
theorem Logged.trans {s₁ s₂ s₃ : State} (h₁ : Logged s₁ s₂) (h₂ : Logged s₂ s₃) :
    Logged s₁ s₃ := by
  obtain ⟨events₁, htrace₁, htable₁, hlegal₁⟩ := h₁
  obtain ⟨events₂, htrace₂, htable₂, hlegal₂⟩ := h₂
  refine ⟨events₁ ++ events₂, ?_, ?_, ?_⟩
  · rw [htrace₂, htrace₁, List.append_assoc]
  · rw [htable₂, htable₁, replay_append]
  · rw [htable₁] at hlegal₂
    exact (legal_append _ _ _).mpr ⟨hlegal₁, hlegal₂⟩

/-! ## The functions log what they do -/

/-- INTERNAL: a mapping call logs itself with its result. SRC: arch/arm/mem.c:352-413 -/
theorem memCreatePageMapping_logged {kind : Kind} {pa va : BitVec 32} {s s' : State} {rc : ℕ}
    (h : memCreatePageMapping kind pa va s = .ok (rc, s')) : Logged s s' := by
  rw [memCreatePageMapping] at h
  split at h
  · obtain ⟨-, rfl⟩ := h
    exact ⟨[.mapping kind pa va 1], rfl, rfl, trivial, trivial⟩
  · dsimp only at h
    split at h
    · cases h
    · next hfree =>
      obtain ⟨-, rfl⟩ := h
      have hguard : readWord s.table (sectionIndex va) = 0 ∨
          readWord s.table (sectionIndex va) = kind.descriptor pa := by
        by_contra hnot
        exact hfree (not_or.mp hnot)
      exact ⟨[.mapping kind pa va 0], rfl, rfl, hguard, trivial⟩

/-- INTERNAL: a loop over a region logs what its mappings log. Induction on the rounds. -/
theorem regionLoop_logged {map : BitVec 32 → State → Except Halt (ℕ × State)}
    (hmap : ∀ i s rc s', map i s = .ok (rc, s') → Logged s s') {regionEnd : BitVec 32} (rounds : ℕ)
    {i : BitVec 32} {s s' : State} {rc : ℕ}
    (h : regionLoop map regionEnd rounds i s = .ok (rc, s')) :
    Logged s s' := by
  induction rounds generalizing i s with
  | zero => cases h
  | succ rounds ih =>
    rw [regionLoop] at h
    split at h
    · rw [bind_eq_ok] at h
      obtain ⟨⟨rc₁, s₁⟩, hcall, h⟩ := h
      have hlogged := hmap i s rc₁ s₁ hcall
      dsimp only at h
      split at h
      · obtain ⟨-, rfl⟩ := h
        exact hlogged
      · exact hlogged.trans (ih h)
    · obtain ⟨-, rfl⟩ := h
      exact Logged.refl _

/-- INTERNAL: a region of data is logged mapping by mapping. -/
theorem idMapping_logged {regionStart regionEnd : BitVec 32} {s s' : State} {rc : ℕ}
    (h : memCreateRegionIdMapping regionStart regionEnd s = .ok (rc, s')) : Logged s s' :=
  regionLoop_logged (fun _ _ _ _ => memCreatePageMapping_logged) _ h

/-- INTERNAL: the loop over the devices logs every call it makes. -/
theorem mapDevices_logged {devices : List PhysMemInfo} {s s' : State}
    (h : mapDevices devices s = .ok s') : Logged s s' := by
  induction devices generalizing s with
  | nil =>
    cases h
    exact Logged.refl _
  | cons info devices ih =>
    rw [mapDevices, bind_eq_ok] at h
    obtain ⟨⟨rc, s₁⟩, hregion, h⟩ := h
    have hlogged : Logged s s₁ :=
      regionLoop_logged (fun _ _ _ _ => memCreatePageMapping_logged) _ hregion
    exact hlogged.trans (ih h)

/-- INTERNAL: the calls that map the vectors log themselves. -/
theorem mapVectors_logged {platform : Platform} {ctrl : BitVec 32} {s s' : State}
    (h : mapVectors platform ctrl s = .ok s') : Logged s s' := by
  rw [mapVectors] at h
  dsimp only at h
  split at h
  · cases h
  · simp only [bind_eq_ok, Prod.exists] at h
    obtain ⟨rc₁, s₁, hpage, rc₂, s₂, hregion, h⟩ := h
    cases h
    exact (memCreatePageMapping_logged hpage).trans (idMapping_logged hregion)

/-- INTERNAL: `mem_init` zeroes the table, then maps. SRC: arch/arm/mem.c:158-234 -/
theorem memInit_logged {platform : Platform} {ctrl : BitVec 32} {s s' : State}
    (h : memInit platform ctrl s = .ok s') : Logged s s' := by
  simp only [memInit, bind_eq_ok, Prod.exists] at h
  obtain ⟨_, s₁, hvectors, _, s₂, htext, _, s₃, hdata, s₄, hdevices, s₅, hmap, h⟩ := h
  cases h
  have hzero : Logged s ⟨bzero 0 16384 s.table, s.memInited, s.trace ++ [.zeroed]⟩ := by
    rw [bzero_table]
    exact ⟨[.zeroed], rfl, rfl, trivial, trivial⟩
  have hflag : Logged s₅ { s₅ with memInited := true } :=
    ⟨[], (List.append_nil _).symm, rfl, trivial⟩
  exact hzero.trans ((idMapping_logged hvectors).trans ((idMapping_logged htext).trans
    ((idMapping_logged hdata).trans ((mapDevices_logged hdevices).trans
      ((mapVectors_logged hmap).trans hflag)))))

/-- INTERNAL: every call logs what it does to the table. -/
theorem runCall_logged {platform : Platform} {call : Call} {s s' : State}
    (h : runCall platform call s = .ok s') : Logged s s' := by
  have hmapping : ∀ {r : Except Halt (ℕ × State)}, r.map Prod.snd = .ok s' →
      ∃ rc, r = .ok (rc, s') := by
    intro r hr
    cases r with
    | error halt => cases hr
    | ok r =>
      obtain rfl := Except.ok.inj hr
      exact ⟨r.1, rfl⟩
  cases call with
  | memInit ctrl => exact memInit_logged h
  | memReset ctrl => exact memInit_logged (s := { s with memInited := false }) h
  | data pa va | code pa va | device pa va =>
    obtain ⟨rc, hrc⟩ := hmapping h
    exact memCreatePageMapping_logged hrc

/-- INTERNAL: a whole run, by induction on its calls. -/
theorem run_logged {platform : Platform} {calls : List Call} {s s' : State}
    (h : run platform calls s = .ok s') : Logged s s' := by
  induction calls generalizing s with
  | nil =>
    cases h
    exact Logged.refl _
  | cons call calls ih =>
    rw [run, bind_eq_ok] at h
    obtain ⟨s₁, hcall, h⟩ := h
    exact (runCall_logged hcall).trans (ih h)

/-! ## The table since the last zeroing -/

/-- INTERNAL: a mapping call that returned 0 and no zeroing after it. -/
def SinceZeroed (events : List Event) (kind : Kind) (pa va : BitVec 32) : Prop :=
  ∃ before after, events = before ++ .mapping kind pa va 0 :: after ∧ .zeroed ∉ after

/-- INTERNAL: what has been mapped since the table was last zeroed, one event later. -/
theorem sinceZeroed_concat {events : List Event} {e : Event} {kind : Kind} {pa va : BitVec 32} :
    SinceZeroed (events ++ [e]) kind pa va ↔
      e = .mapping kind pa va 0 ∨ (e ≠ .zeroed ∧ SinceZeroed events kind pa va) := by
  constructor
  · rintro ⟨before, after, hsplit, hafter⟩
    rcases List.eq_nil_or_concat after with rfl | ⟨after, last, rfl⟩
    · have hlast := List.append_inj_right' hsplit rfl
      exact Or.inl (List.cons.inj hlast).1
    · rw [List.concat_eq_append, ← List.cons_append, ← List.append_assoc] at hsplit
      obtain ⟨hevents, hlast⟩ := List.append_inj' hsplit rfl
      obtain rfl := (List.cons.inj hlast).1
      rw [List.concat_eq_append, List.mem_append, List.mem_singleton, not_or] at hafter
      exact Or.inr ⟨Ne.symm hafter.2, before, after, hevents, hafter.1⟩
  · rintro (rfl | ⟨hne, before, after, rfl, hafter⟩)
    · exact ⟨events, [], rfl, List.not_mem_nil⟩
    · refine ⟨before, after ++ [e], by rw [List.append_assoc, List.cons_append], ?_⟩
      rw [List.mem_append, List.mem_singleton, not_or]
      exact ⟨hafter, Ne.symm hne⟩

/-- INTERNAL: the mapping calls since the last zeroing decide every word. -/
structure TableInv (t : Table) (events : List Event) : Prop where
  written : ∀ kind pa va, SinceZeroed events kind pa va →
    readWord t (sectionIndex va) = kind.descriptor pa
  unwritten : ∀ i, (∀ kind pa va, SinceZeroed events kind pa va → sectionIndex va ≠ i) →
    readWord t i = 0

/-- INTERNAL: a zero table and an empty log. -/
theorem tableInv_start {t : Table} (h : ∀ i, readWord t i = 0) : TableInv t [] where
  written kind pa va hsince := by
    obtain ⟨before, after, hsplit, -⟩ := hsince
    cases before <;> cases hsplit
  unwritten i _ := h i

/-- INTERNAL: a zeroed table holds what an event list that ends with the zeroing says: nothing. -/
theorem tableInv_zeroed (events : List Event) : TableInv zeroTable (events ++ [.zeroed]) where
  written kind pa va hsince := by
    rcases sinceZeroed_concat.mp hsince with h | ⟨h, -⟩
    · cases h
    · exact absurd rfl h
  unwritten i _ := readWord_zeroTable i

/-- INTERNAL: **one event** keeps the invariant of the table. -/
theorem TableInv.step {t : Table} {events : List Event} (h : TableInv t events) {e : Event}
    (hguard : Event.Guard t e) : TableInv (Event.apply t e) (events ++ [e]) := by
  cases e with
  | zeroed => exact tableInv_zeroed events
  | mapping kind pa va rc =>
    cases rc with
    | succ rc =>
      have hsame : ∀ kind' pa' va', SinceZeroed (events ++ [.mapping kind pa va (rc + 1)])
          kind' pa' va' ↔ SinceZeroed events kind' pa' va' := fun kind' pa' va' => by
        simp [sinceZeroed_concat]
      exact ⟨fun kind' pa' va' hsince => h.written kind' pa' va' ((hsame ..).mp hsince),
        fun i hi => h.unwritten i fun kind' pa' va' hsince => hi kind' pa' va' ((hsame ..).mpr hsince)⟩
    | zero =>
      have hread : ∀ i, readWord (Event.apply t (.mapping kind pa va 0)) i =
          if i = sectionIndex va then kind.descriptor pa else readWord t i :=
        readWord_writeWord t (sectionIndex va) (kind.descriptor pa)
      refine ⟨fun kind' pa' va' hsince => ?_, fun i hi => ?_⟩
      · rw [hread]
        rcases sinceZeroed_concat.mp hsince with heq | ⟨-, hsince⟩
        · obtain ⟨rfl, rfl, rfl, -⟩ := Event.mapping.inj heq
          rw [if_pos rfl]
        · have hold := h.written kind' pa' va' hsince
          by_cases hindex : sectionIndex va' = sectionIndex va
          · -- the section was mapped already, and only its own descriptor passes the guard
            rw [if_pos hindex, ← hold, hindex]
            rcases hguard with hfree | hsame
            · rw [← hindex, hold] at hfree
              exact absurd hfree (descriptor_ne_zero kind' pa')
            · exact hsame.symm
          · rw [if_neg hindex, hold]
      · have hne := hi kind pa va (sinceZeroed_concat.mpr (Or.inl rfl))
        rw [hread, if_neg (Ne.symm hne)]
        exact h.unwritten i fun kind' pa' va' hsince =>
          hi kind' pa' va' (sinceZeroed_concat.mpr (Or.inr ⟨by simp, hsince⟩))

/-- INTERNAL: a legal log keeps it. Induction on the log. -/
theorem TableInv.of_legal {t : Table} {past : List Event} (h : TableInv t past)
    {events : List Event} (hlegal : Legal t events) :
    TableInv (replay t events) (past ++ events) := by
  induction events generalizing t past with
  | nil =>
    rw [List.append_nil]
    exact h
  | cons e events ih =>
    rw [List.append_cons]
    exact ih (h.step hlegal.1) hlegal.2

/-- INTERNAL: a zeroing among the events establishes it, whatever the table held. -/
theorem tableInv_of_zeroed {t : Table} (past : List Event) {events : List Event}
    (hzero : .zeroed ∈ events) (hlegal : Legal t events) :
    TableInv (replay t events) (past ++ events) := by
  obtain ⟨before, after, rfl⟩ := List.append_of_mem hzero
  rw [List.append_cons] at hlegal ⊢
  rw [replay_append, ← List.append_assoc, ← List.append_assoc]
  obtain ⟨-, hafter⟩ := (legal_append _ _ _).mp hlegal
  have hzeroed : replay t (before ++ [.zeroed]) = zeroTable := by
    rw [replay_append]
    rfl
  rw [hzeroed] at hafter ⊢
  exact (tableInv_zeroed _).of_legal hafter

/-- INTERNAL: a word that is not zero stays, until the table is zeroed: no section is mapped
twice. -/
theorem readWord_replay {t : Table} {events : List Event} (hlegal : Legal t events)
    (hzero : .zeroed ∉ events) {i : BitVec 12} (hi : readWord t i ≠ 0) :
    readWord (replay t events) i = readWord t i := by
  induction events generalizing t with
  | nil => rfl
  | cons e events ih =>
    rw [List.mem_cons, not_or] at hzero
    have hstep : readWord (Event.apply t e) i = readWord t i := by
      cases e with
      | zeroed => exact absurd rfl hzero.1
      | mapping kind pa va rc =>
        cases rc with
        | succ rc => rfl
        | zero =>
          rw [Event.apply, readWord_writeWord]
          split
          · next heq =>
            subst heq
            rcases hlegal.1 with hfree | hsame
            · exact absurd hfree hi
            · exact hsame.symm
          · rfl
    have hrest := ih hlegal.2 hzero.2 (hstep.symm ▸ hi)
    exact hrest.trans hstep

/-! ## Initialisation forgets -/

/-- INTERNAL: what can be seen of `f` through `view` depends on the table alone. -/
def TableOnly {β γ : Type} (view : β → γ) (f : State → Except Halt β) : Prop :=
  ∀ s₁ s₂, s₁.table = s₂.table → (f s₁).map view = (f s₂).map view

/-- INTERNAL: what a call leaves that its callers can see: its result and the table. -/
def resultTable (r : ℕ × State) : ℕ × Table := (r.1, r.2.table)

/-- INTERNAL: two functions that look at nothing but the table, one after the other. -/
theorem TableOnly.bind {β γ δ η : Type} {view : β → γ} {view' : δ → η} {f : State → Except Halt β}
    {g : β → Except Halt δ} (hf : TableOnly view f)
    (hg : ∀ b₁ b₂, view b₁ = view b₂ → (g b₁).map view' = (g b₂).map view') :
    TableOnly view' fun s => f s >>= g := by
  intro s₁ s₂ hs
  have hsame := hf s₁ s₂ hs
  dsimp only
  cases h₁ : f s₁ with
  | error halt =>
    cases h₂ : f s₂ with
    | error halt' =>
      rw [h₁, h₂] at hsame
      obtain rfl := Except.error.inj hsame
      rfl
    | ok b =>
      rw [h₁, h₂] at hsame
      cases hsame
  | ok b₁ =>
    cases h₂ : f s₂ with
    | error halt =>
      rw [h₁, h₂] at hsame
      cases hsame
    | ok b₂ =>
      rw [h₁, h₂] at hsame
      exact hg b₁ b₂ (Except.ok.inj hsame)

/-- INTERNAL: the same where the first returns a number that the second does not use. -/
theorem TableOnly.next {η δ : Type} {view' : δ → η} {f : State → Except Halt (ℕ × State)}
    {g : State → Except Halt δ} (hf : TableOnly resultTable f) (hg : TableOnly view' g) :
    TableOnly view' fun s => f s >>= fun r => g r.2 :=
  hf.bind fun b₁ b₂ h => hg b₁.2 b₂.2 (congrArg Prod.snd h)

/-- INTERNAL: a mapping looks at nothing but the table. SRC: arch/arm/mem.c:352-383 -/
theorem memCreatePageMapping_tableOnly (kind : Kind) (pa va : BitVec 32) :
    TableOnly resultTable (memCreatePageMapping kind pa va) := by
  intro s₁ s₂ hs
  rw [memCreatePageMapping, memCreatePageMapping, hs]
  split
  · rfl
  · dsimp only
    split
    · rfl
    · rfl

/-- INTERNAL: a loop over a region looks at nothing but the table. -/
theorem regionLoop_tableOnly {map : BitVec 32 → State → Except Halt (ℕ × State)}
    (hmap : ∀ i, TableOnly resultTable (map i)) (regionEnd : BitVec 32) (rounds : ℕ)
    (i : BitVec 32) : TableOnly resultTable (regionLoop map regionEnd rounds i) := by
  induction rounds generalizing i with
  | zero => exact fun _ _ _ => rfl
  | succ rounds ih =>
    intro s₁ s₂ hs
    rw [regionLoop, regionLoop]
    split
    · refine (hmap i).bind (fun b₁ b₂ h => ?_) s₁ s₂ hs
      obtain ⟨rc₁, t₁⟩ := b₁
      obtain ⟨rc₂, t₂⟩ := b₂
      obtain ⟨rfl, htable⟩ := Prod.mk.inj h
      dsimp only
      split
      · exact congrArg (fun t => Except.ok (1, t)) htable
      · exact ih _ t₁ t₂ htable
    · exact congrArg (fun t => Except.ok (0, t)) hs

/-- INTERNAL: mapping a region of data looks at nothing but the table. -/
theorem idMapping_tableOnly (regionStart regionEnd : BitVec 32) :
    TableOnly resultTable (memCreateRegionIdMapping regionStart regionEnd) := by
  intro s₁ s₂ hs
  rw [memCreateRegionIdMapping, memCreateRegionIdMapping, createRegion, createRegion]
  exact regionLoop_tableOnly (fun i => memCreatePageMapping_tableOnly .data i i) _ _ _ s₁ s₂ hs

/-- INTERNAL: mapping a device's region looks at nothing but the table. -/
theorem deviceMapping_tableOnly (regionStart regionEnd : BitVec 32) :
    TableOnly resultTable (memCreateRegionDeviceMapping regionStart regionEnd) := by
  intro s₁ s₂ hs
  rw [memCreateRegionDeviceMapping, memCreateRegionDeviceMapping, createRegion, createRegion]
  exact regionLoop_tableOnly (fun i => memCreatePageMapping_tableOnly .device i i) _ _ _ s₁ s₂ hs

/-- INTERNAL: the loop over the devices looks at nothing but the table. -/
theorem mapDevices_tableOnly (devices : List PhysMemInfo) :
    TableOnly State.table (mapDevices devices) := by
  induction devices with
  | nil => exact fun _ _ hs => congrArg Except.ok hs
  | cons info devices ih =>
    exact (deviceMapping_tableOnly info.physMemStart info.physMemEnd).next ih

/-- INTERNAL: the calls that map the vectors look at nothing but the table. -/
theorem mapVectors_tableOnly (platform : Platform) (ctrl : BitVec 32) :
    TableOnly State.table (mapVectors platform ctrl) := by
  intro s₁ s₂ hs
  rw [mapVectors, mapVectors]
  dsimp only
  split
  · rfl
  · have hend : TableOnly State.table (Except.ok : State → Except Halt State) :=
      fun _ _ h => congrArg Except.ok h
    exact (memCreatePageMapping_tableOnly .data _ _).next
      ((idMapping_tableOnly _ _).next hend) s₁ s₂ hs

/-- INTERNAL: the table behind `mem_init` is the same from every state.
SRC: arch/arm/mem.c:158-234 -/
theorem memInit_table (platform : Platform) (ctrl : BitVec 32) (s₁ s₂ : State) :
    (memInit platform ctrl s₁).map State.table = (memInit platform ctrl s₂).map State.table := by
  have hflag : ∀ b₁ b₂ : State, b₁.table = b₂.table →
      (Except.ok { b₁ with memInited := true } : Except Halt State).map State.table =
        (Except.ok { b₂ with memInited := true } : Except Halt State).map State.table :=
    fun _ _ h => congrArg Except.ok h
  have hafter := (idMapping_tableOnly platform.vectorsStart platform.vectorsEnd).next
    ((idMapping_tableOnly platform.textStart platform.textEnd).next
      ((idMapping_tableOnly platform.dataStart platform.dataEnd).next
        ((mapDevices_tableOnly platform.devices).bind
          ((mapVectors_tableOnly platform ctrl).bind hflag))))
  rw [memInit, memInit]
  refine hafter _ _ ?_
  rw [bzero_table, bzero_table]

/-! ## Whole runs -/

/-- INTERNAL: what a run from the table `t` to the state `s` must keep. -/
structure SectionTable (platform : Platform) (t : Table) (s : State) : Prop where
  /-- once the table was zeroed, or if it was all zero at first: an address is translated
  exactly by the mapping calls for its section that returned 0 since the last zeroing, to the
  base of their physical address and its own offset -/
  translation : (.zeroed ∈ s.trace ∨ ∀ i, readWord t i = 0) → ∀ va r,
    sectionTranslate s.table va = some r ↔ ∃ kind pa va', SinceZeroed s.trace kind pa va' ∧
      sectionIndex va' = sectionIndex va ∧ r = (pa &&& 0xfff00000) + (va &&& 0xfffff)
  /-- the table at any point of the run is the replay of the trace up to there -/
  replayed : s.table = replay t s.trace
  /-- from any point to any later one without a zeroing between them, a word that is not zero
  stays as it is -/
  kept : ∀ past front back, s.trace = past ++ front ++ back → .zeroed ∉ front → ∀ i,
    readWord (replay t past) i ≠ 0 →
      readWord (replay t (past ++ front)) i = readWord (replay t past) i
  /-- the table `mem_init` and `mem_reset` leave does not depend on the state before -/
  forgets : ∀ ctrl s₁ s₂,
    (memInit platform ctrl s₁).map State.table = (memInit platform ctrl s₂).map State.table ∧
    (memReset platform ctrl s₁).map State.table = (memReset platform ctrl s₂).map State.table

/-- INTERNAL: the calls since the last zeroing are what the hardware translates. -/
theorem TableInv.translate_iff {t : Table} {events : List Event} (h : TableInv t events)
    (va r : BitVec 32) :
    sectionTranslate t va = some r ↔ ∃ kind pa va', SinceZeroed events kind pa va' ∧
      sectionIndex va' = sectionIndex va ∧ r = (pa &&& 0xfff00000) + (va &&& 0xfffff) := by
  have hcall : ∀ kind pa va', SinceZeroed events kind pa va' → sectionIndex va' = sectionIndex va →
      sectionTranslate t va = some ((pa &&& 0xfff00000) + (va &&& 0xfffff)) := by
    intro kind pa va' hsince hindex
    have hword := h.written kind pa va' hsince
    rw [hindex] at hword
    exact translate_descriptor hword
  constructor
  · intro htranslate
    by_contra hnone
    have hword : readWord t (sectionIndex va) = 0 := by
      refine h.unwritten _ fun kind pa va' hsince hindex => hnone ⟨kind, pa, va', hsince, hindex, ?_⟩
      rw [hcall kind pa va' hsince hindex] at htranslate
      exact (Option.some.inj htranslate).symm
    rw [translate_zero hword] at htranslate
    cases htranslate
  · rintro ⟨kind, pa, va', hsince, hindex, rfl⟩
    exact hcall kind pa va' hsince hindex

/-- SOURCE: arch/arm/mem.c:158-240,346-413; util/memset.c:3-19 — **the section table over
whole runs**: every run of calls that all return, from any state, keeps the section table. -/
theorem sectionTable_of_run (platform : Platform) (t : Table) (memInited : Bool)
    (calls : List Call) (s : State) (hrun : run platform calls (.start t memInited) = .ok s) :
    SectionTable platform t s := by
  obtain ⟨events, htrace, htable, hlegal⟩ := run_logged hrun
  obtain rfl : s.trace = events := htrace
  have htable' : s.table = replay t s.trace := htable
  refine ⟨fun hstart => ?_, htable', fun past front back hsplit hzero i hi => ?_,
    fun ctrl s₁ s₂ => ⟨memInit_table platform ctrl s₁ s₂, memInit_table platform ctrl _ _⟩⟩
  · refine TableInv.translate_iff ?_
    rw [htable']
    rcases hstart with hzero | hzero
    · exact tableInv_of_zeroed [] hzero hlegal
    · exact (tableInv_start hzero).of_legal hlegal
  · rw [hsplit, legal_append, legal_append] at hlegal
    rw [replay_append]
    exact readWord_replay hlegal.1.2 hzero hi

/-- INTERNAL: one section of code and data, a device, low vectors. -/
def smallPlatform : Platform :=
  ⟨0x100000, 0x100100, 0x100000, 0x1fffff, 0x200000, 0x2fffff, 0, [⟨0x80000000, 0x80000fff⟩]⟩

/-- INTERNAL: a table of garbage, initialised, mapped and initialised again. -/
theorem sectionTable_of_run_small : ∃ s, run smallPlatform
    [.memInit 0, .data 0x40000000 0x50000000, .device 0x123 0x60000000, .memReset 0]
      (.start (fun _ => 0xff) true) = .ok s ∧ SectionTable smallPlatform (fun _ => 0xff) s := by
  have hok : ∃ s, run smallPlatform
      [.memInit 0, .data 0x40000000 0x50000000, .device 0x123 0x60000000, .memReset 0]
        (.start (fun _ => 0xff) true) = .ok s := by
    simp only [run, runCall, memInit, memReset, bzero_table]
    exact ⟨_, rfl⟩
  obtain ⟨s, hs⟩ := hok
  exact ⟨s, hs, sectionTable_of_run smallPlatform _ true _ s hs⟩

end Simbench.Analysis.ArmSectionRuns
