import Mathlib.Data.List.Basic

/-!
# Replacing a pair of letters

`replacePair a b c` replaces every occurrence of `a` followed by `b` by `c`,
from left to right and without looking at what it has written.
-/

namespace LambdaOnOpenStack.Support

variable {α : Type*} [DecidableEq α]

def replacePair (a b c : α) : List α → List α
  | x :: y :: rest =>
      if x = a ∧ y = b then c :: replacePair a b c rest
      else x :: replacePair a b c (y :: rest)
  | l => l

def hasPair (a b : α) : List α → Bool
  | x :: y :: rest => (x = a ∧ y = b) || hasPair a b (y :: rest)
  | _ => false

variable {a b c : α}

@[simp] theorem replacePair_nil : replacePair a b c [] = [] := rfl

@[simp] theorem replacePair_singleton (x : α) :
    replacePair a b c [x] = [x] := rfl

theorem replacePair_pair (rest : List α) :
    replacePair a b c (a :: b :: rest) = c :: replacePair a b c rest := by
  simp [replacePair]

theorem replacePair_cons {x : α} {rest : List α}
    (h : ¬(x = a ∧ rest.head? = some b)) :
    replacePair a b c (x :: rest) = x :: replacePair a b c rest := by
  match rest with
  | [] => rfl
  | y :: rest =>
      have hxy : ¬(x = a ∧ y = b) := by simpa using h
      simp [replacePair, hxy]

/-- The head of the result is the old head or the replacement. -/
theorem head?_replacePair (l : List α) :
    (replacePair a b c l).head? = l.head? ∨
      (l.head? = some a ∧ (replacePair a b c l).head? = some c) := by
  match l with
  | [] => exact Or.inl rfl
  | [x] => exact Or.inl rfl
  | x :: y :: rest =>
      by_cases hxy : x = a ∧ y = b
      · exact Or.inr (by simp [replacePair, hxy])
      · exact Or.inl (by simp [replacePair, hxy])

/-- A piece that does not begin with `b` is replaced on its own. -/
theorem replacePair_append {ys : List α} (hys : ys.head? ≠ some b)
    (xs : List α) :
    replacePair a b c (xs ++ ys) =
      replacePair a b c xs ++ replacePair a b c ys := by
  induction xs using replacePair.induct a b with
  | case1 x y rest hxy ih =>
      obtain ⟨rfl, rfl⟩ := hxy
      simp only [List.cons_append, replacePair_pair, ih]
  | case2 x y rest hxy ih =>
      have hrest : ¬(x = a ∧ (y :: rest).head? = some b) := by simpa using hxy
      have hlong : ¬(x = a ∧ ((y :: rest) ++ ys).head? = some b) := by
        simpa using hxy
      rw [List.cons_append, replacePair_cons hlong, ih, replacePair_cons hrest]
      rfl
  | case3 l hshort =>
      match l with
      | [] => rfl
      | [x] =>
          have hx : ¬(x = a ∧ ys.head? = some b) := fun h => hys h.2
          exact replacePair_cons hx
      | x :: y :: rest => exact absurd rfl (hshort x y rest)

/-- Letters other than `a` are copied. -/
theorem replacePair_append_of_ne {xs : List α} (hxs : ∀ x ∈ xs, x ≠ a)
    (ys : List α) :
    replacePair a b c (xs ++ ys) = xs ++ replacePair a b c ys := by
  induction xs with
  | nil => rfl
  | cons x rest ih =>
      simp only [List.mem_cons, forall_eq_or_imp] at hxs
      have hx : ¬(x = a ∧ (rest ++ ys).head? = some b) := fun h => hxs.1 h.1
      rw [List.cons_append, replacePair_cons hx, ih hxs.2]
      rfl

/-- Where the pair does not occur nothing is replaced. -/
theorem replacePair_of_free {l : List α} (h : hasPair a b l = false) :
    replacePair a b c l = l := by
  induction l using replacePair.induct a b with
  | case1 x y rest hxy ih => simp [hasPair, hxy] at h
  | case2 x y rest hxy ih =>
      have hrest : hasPair a b (y :: rest) = false := by
        simpa [hasPair, hxy] using h
      rw [replacePair, if_neg hxy, ih hrest]
  | case3 l hshort =>
      match l with
      | [] => rfl
      | [x] => rfl
      | x :: y :: rest => exact absurd rfl (hshort x y rest)

theorem hasPair_cons {x : α} {rest : List α} :
    hasPair a b (x :: rest) =
      (decide (x = a ∧ rest.head? = some b) || hasPair a b rest) := by
  match rest with
  | [] => simp [hasPair]
  | y :: rest => simp [hasPair]

/-- The result does not have the pair. -/
theorem hasPair_replacePair (hca : c ≠ a) (hcb : c ≠ b) (l : List α) :
    hasPair a b (replacePair a b c l) = false := by
  induction l using replacePair.induct a b with
  | case1 x y rest hxy ih =>
      obtain ⟨rfl, rfl⟩ := hxy
      rw [replacePair_pair, hasPair_cons, ih]
      simp [hca]
  | case2 x y rest hxy ih =>
      have hrest : ¬(x = a ∧ (y :: rest).head? = some b) := by simpa using hxy
      have hhead : ¬(x = a ∧
          (replacePair a b c (y :: rest)).head? = some b) := by
        rintro ⟨hx, hb⟩
        rcases head?_replacePair (a := a) (b := b) (c := c) (y :: rest) with
          hsame | ⟨-, hnew⟩
        · exact hrest ⟨hx, hsame.symm.trans hb⟩
        · exact hcb (Option.some.inj (hnew.symm.trans hb))
      rw [replacePair_cons hrest, hasPair_cons, ih]
      simpa using hhead
  | case3 l hshort =>
      match l with
      | [] => rfl
      | [x] => rfl
      | x :: y :: rest => exact absurd rfl (hshort x y rest)

end LambdaOnOpenStack.Support
