import Mathlib.Data.List.Basic

/-!
# Runs of a partial step function

A step function answers an action in a state with the next state, or refuses
it. A condition on actions and states may be asked at every step of a run, and
what each such step preserves holds at the end.
-/

namespace GuacServer.StateRuns

variable {σ α : Type*}

/-- The state after a list of actions, if none of them is refused. -/
def run (step : α→σ→Option σ) : List α→σ→Option σ
  | [], s => some s
  | a::actions, s =>
    match step a s with
    | none => none
    | some s' => run step actions s'

/-- A condition on every action and the state in which it is taken. -/
def Along (step : α→σ→Option σ) (P : α→σ→Prop) : List α→σ→Prop
  | [], _ => True
  | a::actions, s => P a s ∧ match step a s with
    | none => True
    | some s' => Along step P actions s'

instance decidableAlong (step : α→σ→Option σ) (P : α→σ→Prop) [∀ a s, Decidable (P a s)] :
    (actions : List α)→(s : σ)→Decidable (Along step P actions s)
  | [], _ => inferInstanceAs (Decidable True)
  | a::actions, s =>
    have : Decidable (match step a s with
        | none => True
        | some s' => Along step P actions s') :=
      match step a s with
      | none => inferInstanceAs (Decidable True)
      | some s' => decidableAlong step P actions s'
    inferInstanceAs (Decidable (_ ∧ _))

variable {I : σ→Prop} {s : σ} {P : α→σ→Prop} {actions : List α}

/-- Where an action that is not possible leaves the state alone, what the possible ones keep
is kept. -/
theorem keeps_getD {s' : σ} {next : Option σ} (hs : I s) (hnext : ∀ {s''}, next=some s''→I s'')
    (h : some (next.getD s)=some s') : I s' := by
  cases h
  cases hpossible : next with
  | none => exact hs
  | some s'' => exact hnext hpossible

/-- A run is its first part and then the rest. -/
theorem run_append (step : α→σ→Option σ) (actions actions' : List α) (s : σ) :
    run step (actions++actions') s=(run step actions s).bind (run step actions') := by
  induction actions generalizing s with
  | nil => rfl
  | cons a actions ih =>
    rw [List.cons_append,run,run]
    cases step a s with
    | none => rfl
    | some s' => exact ih s'

/-- What every step of the kind preserves holds at the end of a run whose
steps are all of that kind. -/
theorem run_invariant {step : α→σ→Option σ}
    (hstep : ∀ {a s s'}, I s→P a s → step a s=some s'→I s') {s' : σ} (hs : I s)
    (halong : Along step P actions s) (hrun : run step actions s=some s') : I s' := by
  induction actions generalizing s with
  | nil =>
    cases hrun
    exact hs
  | cons a actions ih =>
    rw [run] at hrun
    rw [Along] at halong
    cases hnext : step a s with
    | none =>
      rw [hnext] at hrun
      cases hrun
    | some next =>
      rw [hnext] at hrun halong
      exact ih (hstep hs halong.1 hnext) halong.2 hrun

/-- Nothing is asked of a run. -/
theorem along_true (step : α→σ→Option σ) (actions : List α) (s : σ) :
    Along step (fun _ _ => True) actions s := by
  induction actions generalizing s with
  | nil => trivial
  | cons a actions ih =>
    rw [Along]
    cases step a s with
    | none => exact ⟨trivial,trivial⟩
    | some s' => exact ⟨trivial,ih s'⟩

variable {G : σ→Prop}

/-- A condition on actions alone, under which they are taken and preserve something,
holds along a run exactly if all actions meet it. -/
theorem along_iff_forall {step : α→σ→Option σ} {P : α→Prop}
    (hstep : ∀ {a s}, G s→P a→∃ s', step a s=some s' ∧ G s') (actions : List α) (hs : G s) :
    Along step (fun a _ => P a) actions s ↔ ∀ a∈actions, P a := by
  induction actions generalizing s with
  | nil => exact iff_of_true trivial nofun
  | cons a actions ih =>
    rw [Along,List.forall_mem_cons]
    refine and_congr_right fun hP => ?_
    obtain ⟨s',hnext,hs'⟩ := hstep hs hP
    rw [hnext]
    exact ih hs'

/-- What every step preserves holds at the end of a run. -/
theorem run_keeps {step : α→σ→Option σ} (hstep : ∀ {a s s'}, I s → step a s=some s'→I s')
    {s' : σ} (hs : I s) (hrun : run step actions s=some s') : I s' :=
  run_invariant (P := fun _ _ => True) (fun h _ hnext => hstep h hnext) hs
    (along_true step actions s) hrun

/-- If every step of the kind is taken and preserves something, so does a run
whose steps are all of that kind. -/
theorem run_progress {step : α→σ→Option σ}
    (hstep : ∀ {a s}, I s→P a s→∃ s', step a s=some s' ∧ I s') (hs : I s)
    (halong : Along step P actions s) : ∃ s', run step actions s=some s' ∧ I s' := by
  induction actions generalizing s with
  | nil => exact ⟨s,rfl,hs⟩
  | cons a actions ih =>
    rw [Along] at halong
    obtain ⟨next,hnext,hI⟩ := hstep hs halong.1
    rw [hnext] at halong
    obtain ⟨s',hrun,hs'⟩ := ih hI halong.2
    refine ⟨s',?_,hs'⟩
    rw [run,hnext]
    exact hrun

/-- If every step is taken and preserves something, so does a run. -/
theorem run_total {step : α→σ→Option σ} (hstep : ∀ {a s}, I s→∃ s', step a s=some s' ∧ I s')
    (actions : List α) (hs : I s) : ∃ s', run step actions s=some s' ∧ I s' :=
  run_progress (P := fun _ _ => True) (fun h _ => hstep h) hs (along_true step actions s)

/-- What every step into a state of the kind preserves holds at the end of a
run that visits only such states. -/
theorem run_visiting {step : α→σ→Option σ} {Q : σ→Prop}
    (hstep : ∀ {a s s'}, I s → step a s=some s'→Q s'→I s') {s' : σ} (hs : I s)
    (hvisits : ∀ made, made <+: actions→∀ visited, run step made s=some visited→Q visited)
    (hrun : run step actions s=some s') : I s' := by
  induction actions generalizing s with
  | nil =>
    cases hrun
    exact hs
  | cons a actions ih =>
    rw [run] at hrun
    cases hnext : step a s with
    | none =>
      rw [hnext] at hrun
      cases hrun
    | some next =>
      rw [hnext] at hrun
      have hmade : ∀ made, run step (a::made) s=run step made next := by
        intro made
        rw [run,hnext]
      have hQ := hvisits [a] ⟨actions,rfl⟩ next (hmade [])
      refine ih (hstep hs hnext hQ) (fun made hinit visited hvisited => ?_) hrun
      refine hvisits (a::made) ?_ visited (by rw [hmade,hvisited])
      exact List.cons_prefix_cons.mpr ⟨rfl,hinit⟩

/-- A run from a good state whose steps are all of a kind that keeps states good
visits only good states. -/
theorem visits_of_along {step : α→σ→Option σ}
    (hstep : ∀ {a s s'}, G s→P a s → step a s=some s'→G s') (hs : G s)
    (halong : Along step P actions s) {made : List α} (hmade : made <+: actions) {visited : σ}
    (hrun : run step made s=some visited) : G visited := by
  induction made generalizing actions s with
  | nil =>
    cases hrun
    exact hs
  | cons b made ih =>
    obtain ⟨rest,rfl⟩ := hmade
    rw [run] at hrun
    rw [List.cons_append,Along] at halong
    cases hnext : step b s with
    | none =>
      rw [hnext] at hrun
      cases hrun
    | some next =>
      rw [hnext] at hrun halong
      exact ih (hstep hs halong.1 hnext) halong.2 ⟨rest,rfl⟩ hrun

/-- A run whose steps are all of a kind takes a step of that kind wherever it has
come to. -/
theorem along_at {step : α→σ→Option σ} (halong : Along step P actions s) {made : List α} {a : α}
    (hmade : made++[a] <+: actions) {visited : σ} (hrun : run step made s=some visited) :
    P a visited := by
  induction made generalizing actions s with
  | nil =>
    obtain ⟨rest,rfl⟩ := hmade
    cases hrun
    exact halong.1
  | cons b made ih =>
    obtain ⟨rest,rfl⟩ := hmade
    rw [run] at hrun
    rw [List.cons_append,List.cons_append,Along] at halong
    cases hnext : step b s with
    | none =>
      rw [hnext] at hrun
      cases hrun
    | some next =>
      rw [hnext] at hrun halong
      exact ih halong.2 ⟨rest,rfl⟩ hrun

/-- If steps of the kind keep states good and are acceptable, and only they are acceptable
and lead to acceptable states, then a run from a good state visits only acceptable states
by acceptable steps exactly if its steps are all of that kind. -/
theorem steps_iff_along {step : α→σ→Option σ} {Q : α→σ→σ→Prop}
    (hgood : ∀ {s}, G s→I s) (htotal : ∀ a s, (step a s).isSome)
    (hstep : ∀ {a s s'}, G s→P a s → step a s=some s'→G s' ∧ Q a s s')
    (honly : ∀ {a s s'}, G s → step a s=some s'→Q a s s'→I s'→P a s) (actions : List α)
    (hs : G s) :
    (∀ made, made <+: actions→∀ visited, run step made s=some visited→I visited ∧
      ∀ a next, made++[a] <+: actions → step a visited=some next→Q a visited next) ↔
      Along step P actions s := by
  constructor
  · intro h
    induction actions generalizing s with
    | nil => trivial
    | cons a actions ih =>
      obtain ⟨next,hnext⟩ := Option.isSome_iff_exists.mp (htotal a s)
      have hmade : ∀ made, run step (a::made) s=run step made next := by
        intro made
        rw [run,hnext]
      have hQ := (h [] List.nil_prefix s rfl).2 a next ⟨actions,rfl⟩ hnext
      have hP := honly hs hnext hQ (h [a] ⟨actions,rfl⟩ next (hmade [])).1
      rw [Along,hnext]
      refine ⟨hP,ih (hstep hs hP hnext).1 fun made hinit visited hrun => ?_⟩
      have hvisited := h (a::made) (List.cons_prefix_cons.mpr ⟨rfl,hinit⟩) visited
        (by rw [hmade,hrun])
      exact ⟨hvisited.1,fun b next' hb => hvisited.2 b next' (List.cons_prefix_cons.mpr ⟨rfl,hb⟩)⟩
  · intro halong made hmade visited hrun
    have hvisited := visits_of_along (fun hG hP hnext => (hstep hG hP hnext).1) hs halong hmade hrun
    exact ⟨hgood hvisited,fun a next ha hnext =>
      (hstep hvisited (along_at halong ha hrun) hnext).2⟩

/-- If steps of the kind keep states good, and only they keep them acceptable, then
a run from a good state visits only acceptable states exactly if its steps are
all of that kind. -/
theorem visits_iff_along {step : α→σ→Option σ} (hgood : ∀ {s}, G s→I s)
    (htotal : ∀ a s, (step a s).isSome)
    (hstep : ∀ {a s s'}, G s→P a s → step a s=some s'→G s')
    (honly : ∀ {a s s'}, G s → step a s=some s'→I s'→P a s) (actions : List α) (hs : G s) :
    (∀ made, made <+: actions→∀ visited, run step made s=some visited→I visited) ↔
      Along step P actions s := by
  have hsteps := steps_iff_along (Q := fun _ _ _ => True) hgood htotal
    (fun hG hP hnext => ⟨hstep hG hP hnext,trivial⟩) (fun hG hnext _ => honly hG hnext) actions hs
  rw [←hsteps]
  exact ⟨fun h made hmade visited hrun => ⟨h made hmade visited hrun,fun _ _ _ _ => trivial⟩,
    fun h made hmade visited hrun => (h made hmade visited hrun).1⟩

/-- If good states have the property, steps of the kind are taken from them to
good states, and no other step leads to a state with the property, then a run from
a good state goes on with the property throughout exactly if its steps are all
of that kind. -/
theorem run_iff_along {step : α→σ→Option σ} (hgood : ∀ {s}, G s→I s)
    (hstep : ∀ {a s}, G s→P a s→∃ s', step a s=some s' ∧ G s')
    (honly : ∀ {a s s'}, G s → step a s=some s'→I s'→P a s) (actions : List α) (hs : G s) :
    (∀ made, made <+: actions→∃ visited, run step made s=some visited ∧ I visited) ↔
      Along step P actions s := by
  induction actions generalizing s with
  | nil =>
    refine iff_of_true (fun made hmade => ?_) trivial
    rw [List.prefix_nil.mp hmade]
    exact ⟨s,rfl,hgood hs⟩
  | cons a actions ih =>
    rw [Along]
    constructor
    · intro h
      obtain ⟨next,hrun,hnext⟩ := h [a] ⟨actions,rfl⟩
      have hmade : step a s=some next := by
        rw [run] at hrun
        cases hstepped : step a s with
        | none =>
          rw [hstepped] at hrun
          cases hrun
        | some s' =>
          rw [hstepped] at hrun
          exact hrun
      have hP := honly hs hmade hnext
      obtain ⟨next',hmade',hgood'⟩ := hstep hs hP
      cases hmade.symm.trans hmade'
      refine ⟨hP,?_⟩
      rw [hmade]
      refine (ih hgood').mp fun made hinit => ?_
      have hlonger := h (a::made) (List.cons_prefix_cons.mpr ⟨rfl,hinit⟩)
      rwa [run,hmade] at hlonger
    · rintro ⟨hP,hrest⟩ made hinit
      obtain ⟨next,hmade,hgood'⟩ := hstep hs hP
      rw [hmade] at hrest
      cases made with
      | nil => exact ⟨s,rfl,hgood hs⟩
      | cons b made =>
        obtain ⟨rfl,hinit'⟩ := List.cons_prefix_cons.mp hinit
        obtain ⟨visited,hrun,hI⟩ := (ih hgood').mpr hrest made hinit'
        refine ⟨visited,?_,hI⟩
        rw [run,hmade]
        exact hrun

/-! ## Endless runs -/

/-- A run without an end: the states and the actions taken between them. -/
structure EndlessRun (step : α→σ→Option σ) where
  states : ℕ→σ
  actions : ℕ→α
  /-- Each action leads to the next state. -/
  steps : ∀ n, step (actions n) (states n)=some (states (n+1))

/-- An action of the kind is taken again whenever one is possible from some point on. -/
def EndlessRun.WeaklyFair {step : α→σ→Option σ} (endless : EndlessRun step) (kind : α→Prop) :
    Prop :=
  ∀ n, (∀ m, n ≤ m→∃ a, kind a ∧ (step a (endless.states m)).isSome) →
    ∃ m, n ≤ m ∧ kind (endless.actions m)

variable {step : α→σ→Option σ} (endless : EndlessRun step)

/-- What every step of the kind preserves holds throughout an endless run of such steps. -/
theorem EndlessRun.invariant (hstep : ∀ {a s s'}, I s→P a s → step a s=some s'→I s')
    (hs : I (endless.states 0)) (hsteps : ∀ n, P (endless.actions n) (endless.states n)) (n : ℕ) :
    I (endless.states n) := by
  induction n with
  | zero => exact hs
  | succ n ih => exact hstep ih (hsteps n) (endless.steps n)

/-- In a weakly fair run, a condition under which an action of the kind is possible, and which
only such actions end, is ended by one. -/
theorem EndlessRun.eventually {kind : α→Prop} (hfair : endless.WeaklyFair kind) {C : σ→Prop}
    {n : ℕ} (henabled : ∀ m, n ≤ m→C (endless.states m) →
      ∃ a, kind a ∧ (step a (endless.states m)).isSome)
    (hkeeps : ∀ m, n ≤ m→C (endless.states m)→¬kind (endless.actions m) → C (endless.states (m+1)))
    (hn : C (endless.states n)) : ∃ m, n ≤ m ∧ kind (endless.actions m) := by
  by_contra hnever
  have hall : ∀ k, C (endless.states (n+k)) := by
    intro k
    induction k with
    | zero => exact hn
    | succ k ih =>
      exact hkeeps (n+k) (Nat.le_add_right n k) ih fun hkind =>
        hnever ⟨n+k,Nat.le_add_right n k,hkind⟩
  refine hnever (hfair n fun m hm => ?_)
  obtain ⟨k,rfl⟩ := Nat.exists_eq_add_of_le hm
  exact henabled (n+k) hm (hall k)

end GuacServer.StateRuns
