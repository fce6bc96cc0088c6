import Mathlib.Data.List.Basic

/-!
# Runs of a deterministic system

A run applies a list of actions one after another.  An invariant holds along a
run when every action keeps it; where only the actions that meet a condition
keep it, it holds along the runs all of whose actions meet the condition.
-/

namespace LambdaOnOpenStack.Support

variable {σ α : Type*}

/-- The state after a list of actions. -/
def runAll (step : σ → α → σ) (s : σ) (actions : List α) : σ :=
  actions.foldl step s

@[simp] theorem runAll_nil (step : σ → α → σ) (s : σ) :
    runAll step s [] = s := rfl

@[simp] theorem runAll_cons (step : σ → α → σ) (s : σ) (a : α)
    (actions : List α) :
    runAll step s (a :: actions) = runAll step (step s a) actions := rfl

theorem runAll_append (step : σ → α → σ) (s : σ) (before after : List α) :
    runAll step s (before ++ after) =
      runAll step (runAll step s before) after :=
  List.foldl_append

/-- Every action of the run meets `C` in the state in which it is taken. -/
def Along (step : σ → α → σ) (C : σ → α → Prop) : σ → List α → Prop
  | _, [] => True
  | s, a :: rest => C s a ∧ Along step C (step s a) rest

/-- Every state of the run, the first and the last included, satisfies `I`. -/
def Throughout (step : σ → α → σ) (I : σ → Prop) : σ → List α → Prop
  | s, [] => I s
  | s, a :: rest => I s ∧ Throughout step I (step s a) rest

variable {step : σ → α → σ} {C : σ → α → Prop} {I J : σ → Prop}

instance decidableAlong [∀ s a, Decidable (C s a)] :
    ∀ (s : σ) (actions : List α), Decidable (Along step C s actions)
  | _, [] => isTrue trivial
  | s, a :: rest =>
      have := decidableAlong (step s a) rest
      inferInstanceAs (Decidable (C s a ∧ Along step C (step s a) rest))

theorem along_append_iff {s : σ} {before after : List α} :
    Along step C s (before ++ after) ↔
      Along step C s before ∧ Along step C (runAll step s before) after := by
  induction before generalizing s with
  | nil => exact (and_iff_right trivial).symm
  | cons a rest ih => exact (and_congr_right fun _ => ih).trans and_assoc.symm

theorem runAll_invariant (hstep : ∀ s a, I s → I (step s a))
    {s : σ} (hs : I s) (actions : List α) : I (runAll step s actions) := by
  induction actions generalizing s with
  | nil => exact hs
  | cons a rest ih => exact ih (hstep s a hs)

theorem runAll_invariant_along (hstep : ∀ s a, I s → C s a → I (step s a))
    {s : σ} (hs : I s) {actions : List α} (hC : Along step C s actions) :
    I (runAll step s actions) := by
  induction actions generalizing s with
  | nil => exact hs
  | cons a rest ih => exact ih (hstep s a hs hC.1) hC.2

theorem throughout_iff {s : σ} {actions : List α} :
    Throughout step I s actions ↔
      ∀ before after, actions = before ++ after →
        I (runAll step s before) := by
  induction actions generalizing s with
  | nil =>
      constructor
      · intro hs before after hsplit
        obtain ⟨rfl, -⟩ := List.append_eq_nil_iff.mp hsplit.symm
        exact hs
      · intro h
        exact h [] [] rfl
  | cons a rest ih =>
      constructor
      · rintro ⟨hs, hrest⟩ before after hsplit
        cases before with
        | nil => exact hs
        | cons b before =>
            obtain ⟨rfl, hrest'⟩ := List.cons.inj hsplit
            exact ih.mp hrest before after hrest'
      · intro h
        refine ⟨h [] (a :: rest) rfl, ih.mpr ?_⟩
        rintro before after rfl
        exact h (a :: before) after rfl

theorem throughout_of_along (hstep : ∀ s a, I s → C s a → I (step s a))
    {s : σ} (hs : I s) {actions : List α} (hC : Along step C s actions) :
    Throughout step I s actions := by
  induction actions generalizing s with
  | nil => exact hs
  | cons a rest ih => exact ⟨hs, ih (hstep s a hs hC.1) hC.2⟩

theorem Along.imp {D : σ → α → Prop} (hCD : ∀ s a, C s a → D s a) {s : σ}
    {actions : List α} (hC : Along step C s actions) :
    Along step D s actions := by
  induction actions generalizing s with
  | nil => trivial
  | cons a rest ih => exact ⟨hCD s a hC.1, ih hC.2⟩

theorem along_of_forall {s : σ} {actions : List α}
    (hC : ∀ a ∈ actions, ∀ s, C s a) : Along step C s actions := by
  induction actions generalizing s with
  | nil => trivial
  | cons a rest ih =>
      obtain ⟨ha, hrest⟩ := List.forall_mem_cons.mp hC
      exact ⟨ha s, ih hrest⟩

theorem Along.and_forall {E : α → Prop} {s : σ} {actions : List α}
    (hC : Along step C s actions) (hE : ∀ a ∈ actions, E a) :
    Along step (fun s a => C s a ∧ E a) s actions := by
  induction actions generalizing s with
  | nil => trivial
  | cons a rest ih =>
      obtain ⟨ha, hrest⟩ := List.forall_mem_cons.mp hE
      exact ⟨⟨hC.1, ha⟩, ih hC.2 hrest⟩

/-- A bound that no action loosens holds after every action of a run if it holds
in the last state. -/
theorem along_of_runAll {E : α → Prop} {Q : σ → Prop}
    (hJ : ∀ s a, J s → E a → J (step s a))
    (hQ : ∀ s a, J s → E a → Q (step s a) → Q s) {s : σ} (hs : J s)
    {actions : List α} (hE : ∀ a ∈ actions, E a)
    (hlast : Q (runAll step s actions)) :
    Q s ∧ Along step (fun s a => E a ∧ Q (step s a)) s actions := by
  induction actions generalizing s with
  | nil => exact ⟨hlast, trivial⟩
  | cons a rest ih =>
      obtain ⟨ha, hrest⟩ := List.forall_mem_cons.mp hE
      obtain ⟨hnext, halong⟩ := ih (hJ s a hs ha) hrest hlast
      exact ⟨hQ s a hs ha hnext, ⟨ha, hnext⟩, halong⟩

/-- Where an invariant makes two conditions the same, they are met along the
same runs. -/
theorem along_congr_of_invariant {D : σ → α → Prop} {E : α → Prop}
    (hstep : ∀ s a, I s → E a → I (step s a))
    (hCD : ∀ s a, I s → (C s a ↔ D s a)) {s : σ} (hs : I s)
    {actions : List α} (hE : ∀ a ∈ actions, E a) :
    Along step C s actions ↔ Along step D s actions := by
  induction actions generalizing s with
  | nil => exact Iff.rfl
  | cons a rest ih =>
      obtain ⟨ha, hrest⟩ := List.forall_mem_cons.mp hE
      exact and_congr (hCD s a hs) (ih (hstep s a hs ha) hrest)

theorem along_congr {D : σ → α → Prop} (hCD : ∀ s a, C s a ↔ D s a) {s : σ}
    {actions : List α} : Along step C s actions ↔ Along step D s actions :=
  along_congr_of_invariant (I := fun _ => True) (E := fun _ => True)
    (fun _ _ _ _ => trivial) (fun s a _ => hCD s a) trivial
    (fun _ _ => trivial)

theorem Throughout.imp (hIJ : ∀ s, I s → J s) {s : σ} {actions : List α}
    (h : Throughout step I s actions) : Throughout step J s actions := by
  induction actions generalizing s with
  | nil => exact hIJ s h
  | cons a rest ih => exact ⟨hIJ s h.1, ih h.2⟩

/-- What holds of a part of the state that takes the actions on its own. -/
theorem Throughout.of_map {τ : Type*} {step' : τ → α → τ} {f : σ → τ}
    {K : τ → Prop} {s : σ} {actions : List α}
    (h : Throughout step (fun s => K (f s)) s actions)
    (hf : ∀ s a, f (step s a) = step' (f s) a) :
    Throughout step' K (f s) actions := by
  induction actions generalizing s with
  | nil => exact h
  | cons a rest ih =>
      have hrest := ih h.2
      rw [hf] at hrest
      exact ⟨h.1, hrest⟩

/-- Two systems that take the same actions stay related if every action keeps
them related. -/
theorem runAll_simulation {τ : Type*} {step' : τ → α → τ} {R : σ → τ → Prop}
    (hstep : ∀ s t a, R s t → R (step s a) (step' t a)) {s : σ} {t : τ}
    (hst : R s t) (actions : List α) :
    R (runAll step s actions) (runAll step' t actions) := by
  induction actions generalizing s t with
  | nil => exact hst
  | cons a rest ih => exact ih (hstep s t a hst)

/-- An invariant is kept by the actions that meet `C`, and where it held
before, no other action leads to `I`.  Then `I` holds throughout a run exactly
when all its actions meet `C`. -/
theorem throughout_iff_along_of_kept {D : σ → α → Prop} {K : σ → Prop}
    (hI : ∀ s, K s → I s)
    (hkept : ∀ s a, K s → D s a → C s a → K (step s a))
    (hbroken : ∀ s a, K s → D s a → I (step s a) → C s a)
    {s : σ} (hs : K s) {actions : List α} (hD : Along step D s actions) :
    Throughout step I s actions ↔ Along step C s actions := by
  induction actions generalizing s with
  | nil => exact ⟨fun _ => trivial, fun _ => hI s hs⟩
  | cons a rest ih =>
      constructor
      · rintro ⟨-, hrest⟩
        have hC : C s a :=
          hbroken s a hs hD.1 ((throughout_iff.mp hrest) [] rest rfl)
        exact ⟨hC, (ih (hkept s a hs hD.1 hC) hD.2).mp hrest⟩
      · rintro ⟨hC, hrest⟩
        exact ⟨hI s hs, (ih (hkept s a hs hD.1 hC) hD.2).mpr hrest⟩

/-- If an action keeps `I` exactly when it meets `C`, then `I` holds
throughout a run exactly when all its actions meet `C`.  `J` is what holds in
every state of the runs all of whose actions meet `D`. -/
theorem throughout_iff_along_of_along {D : σ → α → Prop}
    (hJ : ∀ s a, J s → D s a → J (step s a))
    (hstep : ∀ s a, J s → D s a → I s → (I (step s a) ↔ C s a))
    {s : σ} (hs : J s) (hinit : I s) {actions : List α}
    (hD : Along step D s actions) :
    Throughout step I s actions ↔ Along step C s actions := by
  apply throughout_iff_along_of_kept (K := fun s => J s ∧ I s)
    (fun s h => h.2) ?_ ?_ ⟨hs, hinit⟩ hD
  · rintro s a ⟨hs, hinit⟩ hD hC
    exact ⟨hJ s a hs hD, (hstep s a hs hD hinit).mpr hC⟩
  · rintro s a ⟨hs, hinit⟩ hD hnext
    exact (hstep s a hs hD hinit).mp hnext

theorem throughout_iff_along (hJ : ∀ s a, J s → J (step s a))
    (hstep : ∀ s a, J s → I s → (I (step s a) ↔ C s a))
    {s : σ} (hs : J s) (hinit : I s) (actions : List α) :
    Throughout step I s actions ↔ Along step C s actions :=
  throughout_iff_along_of_along (D := fun _ _ => True)
    (fun s a hs _ => hJ s a hs) (fun s a hs _ hinit => hstep s a hs hinit) hs
    hinit (along_of_forall fun _ _ _ => trivial)

end LambdaOnOpenStack.Support
