import Mathlib.Data.List.TakeWhile
import Mathlib.Data.List.Induction

/-!
# The last element that was remembered

A reader goes through a list, remembers every element that satisfies `p`, and
picks the one it remembers whenever it meets an element that satisfies `q`;
the last pick stands.  So it picks the last `p` at or before the last `q`.
-/

namespace LambdaOnOpenStack.Support

variable {α β : Type*} {p q : α → Bool} {l : List α}

/-- The last element that satisfies `p`. -/
def lastOf (p : α → Bool) (l : List α) : Option α := l.reverse.find? p

/-- From the last element that satisfies `q` back to the first that satisfies
`p`. -/
def pick (p q : α → Bool) (l : List α) : Option α :=
  (l.reverse.dropWhile fun x => !q x).find? p

/-! ## What is picked -/

theorem lastOf_append_singleton (x : α) :
    lastOf p (l ++ [x]) = if p x then some x else lastOf p l := by
  rw [lastOf, List.reverse_append, List.reverse_singleton, List.singleton_append,
    List.find?_cons]
  cases p x <;> rfl

theorem pick_append_singleton (x : α) :
    pick p q (l ++ [x]) =
      if q x then lastOf p (l ++ [x]) else pick p q l := by
  rw [pick, lastOf, List.reverse_append, List.reverse_singleton,
    List.singleton_append, List.dropWhile_cons]
  cases q x <;> rfl

theorem lastOf_prop {x : α} (hx : lastOf p l = some x) : p x = true :=
  List.find?_some hx

theorem lastOf_eq_none : lastOf p l = none ↔ ∀ x ∈ l, p x = false := by
  simp [lastOf]

theorem pick_mem {x : α} (hx : pick p q l = some x) : x ∈ l :=
  List.mem_reverse.mp
    ((List.dropWhile_sublist _).subset (List.mem_of_find?_eq_some hx))

theorem pick_prop {x : α} (hx : pick p q l = some x) : p x = true :=
  List.find?_some hx

/-- A list with a `q` has a last one. -/
theorem exists_last (q : α → Bool) (l : List α) :
    (∀ x ∈ l, q x = false) ∨ ∃ before last after, l = before ++ last :: after ∧
      q last = true ∧ ∀ x ∈ after, q x = false := by
  induction l using List.reverseRecOn with
  | nil => exact Or.inl (by simp)
  | append_singleton l x ih =>
      cases hx : q x with
      | true => exact Or.inr ⟨l, x, [], rfl, hx, by simp⟩
      | false =>
          rcases ih with hnone | ⟨before, last, after, rfl, hlast, hafter⟩
          · left
            intro y hy
            rcases List.mem_append.mp hy with hy | hy
            · exact hnone y hy
            · rw [List.mem_singleton.mp hy]
              exact hx
          · refine Or.inr ⟨before, last, after ++ [x], by simp, hlast, ?_⟩
            intro y hy
            rcases List.mem_append.mp hy with hy | hy
            · exact hafter y hy
            · rw [List.mem_singleton.mp hy]
              exact hx

/-- There is only one last one. -/
theorem last_unique {before before' after after' : List α} {last last' : α}
    (heq : before ++ last :: after = before' ++ last' :: after')
    (hlast : q last = true) (hafter : ∀ x ∈ after, q x = false)
    (hlast' : q last' = true) (hafter' : ∀ x ∈ after', q x = false) :
    before = before' ∧ last = last' := by
  rcases List.append_eq_append_iff.mp heq with
    ⟨between, hbefore, hrest⟩ | ⟨between, hbefore, hrest⟩
  · cases between with
    | nil =>
        rw [List.append_nil] at hbefore
        exact ⟨hbefore.symm, (List.cons.inj hrest).1⟩
    | cons x between =>
        have hmem : last' ∈ after := by
          rw [(List.cons.inj hrest).2]
          simp
        simp [hafter last' hmem] at hlast'
  · cases between with
    | nil =>
        rw [List.append_nil] at hbefore
        exact ⟨hbefore, (List.cons.inj hrest).1.symm⟩
    | cons x between =>
        have hmem : last ∈ after' := by
          rw [(List.cons.inj hrest).2]
          simp
        simp [hafter' last hmem] at hlast

theorem pick_of_none (hnone : ∀ x ∈ l, q x = false) : pick p q l = none := by
  have hdrop : (l.reverse.dropWhile fun x => !q x) = [] := by
    rw [List.dropWhile_eq_nil_iff]
    intro x hx
    simp [hnone x (List.mem_reverse.mp hx)]
  rw [pick, hdrop, List.find?_nil]

theorem pick_of_last {before after : List α} {last : α} (hlast : q last = true)
    (hafter : ∀ x ∈ after, q x = false) :
    pick p q (before ++ last :: after) =
      if p last then some last else lastOf p before := by
  induction after using List.reverseRecOn with
  | nil => rw [pick_append_singleton, if_pos hlast, lastOf_append_singleton]
  | append_singleton after x ih =>
      have hx : q x = false := hafter x (by simp)
      rw [← List.cons_append, ← List.append_assoc, pick_append_singleton, hx]
      exact ih fun y hy => hafter y (by simp [hy])

/-! ## Reading names -/

/-- One step of a reader that keeps a name of the element it remembers, and
one of the element it has picked. -/
def remember (p q : α → Bool) (name : α → β) (s : β × β) (x : α) : β × β :=
  let last := if p x then name x else s.1
  (last, if q x then last else s.2)

theorem foldl_remember (p q : α → Bool) (name : α → β) (none : β)
    (l : List α) :
    l.foldl (remember p q name) (none, none) =
      (((lastOf p l).map name).getD none, ((pick p q l).map name).getD none) := by
  induction l using List.reverseRecOn with
  | nil => rfl
  | append_singleton l x ih =>
      rw [List.foldl_append, ih, List.foldl_cons, List.foldl_nil,
        pick_append_singleton, lastOf_append_singleton]
      cases hp : p x <;> cases hq : q x <;> simp [remember, hp, hq]

/-! ## Taking values -/

section Taking

variable {σ : Type*} {next : σ → α → σ}

/-- The elements of a list, each with what a reader remembers that has come to
it. -/
def tagged (next : σ → α → σ) : σ → List α → List (σ × α)
  | _, [] => []
  | s, x :: rest => (next s x, x) :: tagged next (next s x) rest

theorem tagged_append (next : σ → α → σ) (s : σ) (l m : List α) :
    tagged next s (l ++ m) = tagged next s l ++ tagged next (l.foldl next s) m := by
  induction l generalizing s with
  | nil => rfl
  | cons x rest ih => simp [tagged, ih]

theorem map_snd_tagged (next : σ → α → σ) (s : σ) (l : List α) :
    (tagged next s l).map Prod.snd = l := by
  induction l generalizing s with
  | nil => rfl
  | cons x rest ih => simp [tagged, ih]

/-- A reader that overwrites a value whenever what it remembers and the element
say so has the value of the last such element. -/
theorem foldl_taken (next : σ → α → σ) (takes : σ → α → Bool) (value : α → β)
    (s : σ) (v : β) (l : List α) :
    l.foldl (fun r x =>
        (next r.1 x, if takes (next r.1 x) x then value x else r.2)) (s, v) =
      (l.foldl next s,
        ((lastOf (fun t => takes t.1 t.2) (tagged next s l)).map
          fun t => value t.2).getD v) := by
  induction l using List.reverseRecOn with
  | nil => rfl
  | append_singleton l x ih =>
      rw [List.foldl_append, ih, tagged_append, tagged, tagged,
        lastOf_append_singleton, List.foldl_append]
      simp only [List.foldl_cons, List.foldl_nil]
      split <;> rfl

end Taking

/-- The last match, if there is only one place for it. -/
theorem lastOf_of_single {before after : List α} {x : α}
    (hbefore : ∀ y ∈ before, p y = false) (hafter : ∀ y ∈ after, p y = false) :
    lastOf p (before ++ x :: after) = if p x then some x else none := by
  have hnone : ∀ y ∈ after.reverse, ¬p y = true := by
    intro y hy
    simp [hafter y (List.mem_reverse.mp hy)]
  have hnone' : ∀ y ∈ before.reverse, ¬p y = true := by
    intro y hy
    simp [hbefore y (List.mem_reverse.mp hy)]
  rw [lastOf, List.reverse_append, List.reverse_cons, List.append_assoc,
    List.find?_append, List.find?_eq_none.mpr hnone, Option.none_or,
    List.singleton_append, List.find?_cons]
  cases p x with
  | true => rfl
  | false => exact List.find?_eq_none.mpr hnone'

end LambdaOnOpenStack.Support
