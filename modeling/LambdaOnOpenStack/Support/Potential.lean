import LambdaOnOpenStack.Support.Runs

/-!
# What a run has spent

Each action of a run may add to a potential and take something out of it.  If
no action takes out more than there is, nor does the run.  And a potential that
every action lowers by one is exhausted after as many actions.
-/

namespace LambdaOnOpenStack.Support

variable {σ α : Type*} {step : σ → α → σ}

/-- The sum of a quantity over the actions of a run. -/
def tally (step : σ → α → σ) (amount : σ → α → ℕ) : σ → List α → ℕ
  | _, [] => 0
  | s, a :: rest => amount s a + tally step amount (step s a) rest

@[simp] theorem tally_nil (amount : σ → α → ℕ) (s : σ) :
    tally step amount s [] = 0 := rfl

@[simp] theorem tally_cons (amount : σ → α → ℕ) (s : σ) (a : α)
    (rest : List α) :
    tally step amount s (a :: rest) =
      amount s a + tally step amount (step s a) rest := rfl

theorem tally_mul (n : ℕ) (amount : σ → α → ℕ) (s : σ) (actions : List α) :
    tally step (fun s a => n * amount s a) s actions =
      n * tally step amount s actions := by
  induction actions generalizing s with
  | nil => simp
  | cons a rest ih => rw [tally_cons, tally_cons, ih, Nat.mul_add]

section Spending

variable {J : σ → Prop} {potential : σ → ℕ} {gain cost : σ → α → ℕ}
  (hJ : ∀ s a, J s → J (step s a))
  (hspend : ∀ s a, J s →
    potential (step s a) + cost s a ≤ potential s + gain s a)

include hJ hspend

theorem spent_le {s : σ} (hs : J s) (actions : List α) :
    potential (runAll step s actions) + tally step cost s actions ≤
      potential s + tally step gain s actions := by
  induction actions generalizing s with
  | nil => simp
  | cons a rest ih =>
      have hfirst := hspend s a hs
      have hrest := ih (hJ s a hs)
      simp only [runAll_cons, tally_cons]
      omega

/-- A run wastes nothing exactly if none of its actions does. -/
theorem spent_eq_iff {s : σ} (hs : J s) (actions : List α) :
    potential (runAll step s actions) + tally step cost s actions =
        potential s + tally step gain s actions ↔
      Along step (fun s a =>
        potential (step s a) + cost s a = potential s + gain s a) s actions := by
  induction actions generalizing s with
  | nil => simp [Along]
  | cons a rest ih =>
      have hfirst := hspend s a hs
      have hrest := spent_le hJ hspend (hJ s a hs) rest
      rw [Along, ← ih (hJ s a hs)]
      simp only [runAll_cons, tally_cons]
      omega

end Spending

/-- A potential that every action lowers by one. -/
theorem lowered_of_along {C : σ → α → Prop} {J : σ → Prop}
    {potential : σ → ℕ} (hJ : ∀ s a, J s → C s a → J (step s a))
    (hlower : ∀ s a, J s → C s a → potential (step s a) = potential s - 1)
    {s : σ} (hs : J s) {actions : List α} (hC : Along step C s actions) :
    potential (runAll step s actions) = potential s - actions.length := by
  induction actions generalizing s with
  | nil => rfl
  | cons a rest ih =>
      rw [runAll_cons, ih (hJ s a hs hC.1) hC.2, hlower s a hs hC.1,
        List.length_cons]
      omega

end LambdaOnOpenStack.Support
