import LambdaOnOpenStack.Support.Interleaving
import Mathlib.Data.List.Forall2

/-!
# Programs that perform a fixed list of writes

Some programs write the same things in the same order whatever they read.
However the steps of several such programs interleave, they leave the state
that all their writes leave in some order.  Where each write fills one cell, a
cell holds in the end what its last writer wrote, and the programs can be put
in an order that leaves the same in this cell.
-/

namespace LambdaOnOpenStack.Support

variable {σ ε α β ρ ω : Type}

namespace Program

variable {I : σ → Prop} {act : σ → ω → σ}

/-- In states that satisfy `I` the steps of the program leave the state as it
is or perform the next write of the list, until the list is done. -/
def Performs (I : σ → Prop) (act : σ → ω → σ) :
    Program σ ε α → List ω → Prop
  | done _, ws => ws = []
  | raised _, _ => False
  | atomic effect next, ws =>
      (∀ s, I s → effect s = s ∧ (next s).Performs I act ws) ∨
        ∃ x rest, ws = x :: rest ∧
          ∀ s, I s → effect s = act s x ∧ (next s).Performs I act rest

theorem Performs.bind {p : Program σ ε α} {f : α → Program σ ε β}
    {ws ws' : List ω} (hp : p.Performs I act ws)
    (hf : ∀ a, (f a).Performs I act ws') :
    (p >>= f).Performs I act (ws ++ ws') := by
  induction p generalizing ws with
  | done a =>
      obtain rfl : ws = [] := hp
      exact hf a
  | raised e => exact hp.elim
  | atomic effect next ih =>
      rcases hp with hidle | ⟨x, rest, rfl, hwrite⟩
      · left
        intro s hs
        exact ⟨(hidle s hs).1, ih s (hidle s hs).2⟩
      · right
        refine ⟨x, rest ++ ws', rfl, ?_⟩
        intro s hs
        exact ⟨(hwrite s hs).1, ih s (hwrite s hs).2⟩

theorem Performs.step {p : Program σ ε α} {ws : List ω}
    (hp : p.Performs I act ws) {s : σ} (hs : I s) :
    ((p.step s).2 = s ∧ (p.step s).1.Performs I act ws) ∨
      ∃ x rest, ws = x :: rest ∧ (p.step s).2 = act s x ∧
        (p.step s).1.Performs I act rest := by
  cases p with
  | done a => exact Or.inl ⟨rfl, hp⟩
  | raised e => exact hp.elim
  | atomic effect next =>
      rcases hp with hidle | ⟨x, rest, rfl, hwrite⟩
      · exact Or.inl (hidle s hs)
      · exact Or.inr ⟨x, rest, rfl, hwrite s hs⟩

end Program

/-- Replace one element of the first list and the one that belongs to it. -/
theorem forall₂_replace {γ δ : Type} {R : γ → δ → Prop} {ps : List γ}
    {wss : List δ} (h : List.Forall₂ R ps wss) {i : ℕ} {p : γ}
    (hp : ps[i]? = some p) :
    ∃ before ws after, wss = before ++ ws :: after ∧ R p ws ∧
      ∀ p' ws', R p' ws' →
        List.Forall₂ R (ps.set i p') (before ++ ws' :: after) := by
  induction h generalizing i with
  | nil => simp at hp
  | @cons q ws ps wss hq hrest ih =>
      cases i with
      | zero =>
          obtain rfl : q = p := by simpa using hp
          exact ⟨[], ws, wss, rfl, hq, fun p' ws' h' => .cons h' hrest⟩
      | succ i =>
          obtain ⟨before, ws₁, after, rfl, hp₁, hset⟩ := ih (by simpa using hp)
          exact ⟨ws :: before, ws₁, after, rfl, hp₁,
            fun p' ws' h' => .cons hq (hset p' ws' h')⟩

namespace System

open Program

variable {I : σ → Prop} {act : σ → ω → σ} {handler : ρ → Program σ ε β}

/-- Of the writes `total` some have been performed since the state was `s`;
the others are what the programs have still to do. -/
def Writing (I : σ → Prop) (act : σ → ω → σ) (total : List ω) (s : σ)
    (S : System σ ε α β) : Prop :=
  ∃ performed rest, (performed ++ rest.flatten).Perm total ∧
    S.state = performed.foldl act s ∧ I S.state ∧
      List.Forall₂ (Performs I act) S.others rest

variable {total : List ω} {s : σ} {S : System σ ε α β}

theorem Writing.step_other (h : S.Writing I act total s)
    (hact : ∀ s x, I s → I (act s x)) (i : ℕ) :
    (S.step handler (.other i)).Writing I act total s := by
  obtain ⟨performed, rest, hperm, hstate, hI, hrest⟩ := h
  cases hget : S.others[i]? with
  | none =>
      have hsame : S.step handler (.other i) = S := by
        simp [System.step, hget]
      rw [hsame]
      exact ⟨performed, rest, hperm, hstate, hI, hrest⟩
  | some p =>
      have hnext : S.step handler (.other i) =
          { S with
            state := (p.step S.state).2
            others := S.others.set i (p.step S.state).1 } := by
        simp [System.step, hget]
      rw [hnext]
      obtain ⟨before, ws, after, rfl, hp, hset⟩ := forall₂_replace hrest hget
      rcases hp.step hI with ⟨hidle, hleft⟩ | ⟨x, ws', rfl, hwrite, hleft⟩
      · refine ⟨performed, before ++ ws :: after, hperm, ?_, ?_, hset _ _ hleft⟩
        · rw [hidle, hstate]
        · rwa [hidle]
      · refine ⟨performed ++ [x], before ++ ws' :: after, ?_, ?_, ?_,
          hset _ _ hleft⟩
        · refine .trans ?_ hperm
          simp only [List.flatten_append, List.flatten_cons, List.append_assoc,
            List.cons_append, List.nil_append]
          exact List.perm_middle.symm.append_left performed
        · rw [hwrite, List.foldl_append, ← hstate]
          rfl
        · rw [hwrite]
          exact hact _ _ hI

/-- When all programs have ended, all writes have been performed. -/
theorem Writing.ended (h : S.Writing I act total s)
    (hended : ∀ p ∈ S.others, ∃ b, p = .done b) :
    ∃ performed : List ω, performed.Perm total ∧ S.state = performed.foldl act s := by
  obtain ⟨performed, rest, hperm, hstate, -, hrest⟩ := h
  have hnone : rest.flatten = [] := by
    rw [List.flatten_eq_nil_iff]
    intro ws hws
    obtain ⟨i, hi, rfl⟩ := List.getElem_of_mem hws
    have hlength : i < S.others.length := by
      rw [hrest.length_eq]
      exact hi
    have hperforms := hrest.get hlength hi
    obtain ⟨b, hb⟩ := hended _ (List.getElem_mem hlength)
    simp only [List.get_eq_getElem] at hperforms
    rw [hb] at hperforms
    exact hperforms
  rw [hnone, List.append_nil] at hperm
  exact ⟨performed, hperm, hstate⟩

end System

/-! ## Cells -/

/-- A state of type `δ` with cells for values of type `ν`. -/
structure Cells (δ κ ν : Type) where
  get : κ → δ → Option ν
  set : κ → ν → δ → δ
  get_set_self : ∀ c x d, get c (set c x d) = some x
  get_set_of_ne : ∀ c c' x d, c' ≠ c → get c (set c' x d) = get c d

namespace Cells

variable {δ κ ν τ : Type} (C : Cells δ κ ν)

/-- Fill one cell. -/
def write (d : δ) (w : κ × ν) : δ := C.set w.1 w.2 d

theorem get_foldl_of_unwritten {c : κ} {ws : List (κ × ν)}
    (hws : ∀ w ∈ ws, w.1 ≠ c) (d : δ) :
    C.get c (ws.foldl C.write d) = C.get c d := by
  induction ws generalizing d with
  | nil => rfl
  | cons w ws ih =>
      obtain ⟨hw, hrest⟩ := List.forall_mem_cons.mp hws
      rw [List.foldl_cons, ih hrest]
      exact C.get_set_of_ne c w.1 w.2 d hw

theorem get_foldl_of_last {c : κ} {after : List (κ × ν)}
    (hafter : ∀ w ∈ after, w.1 ≠ c) (before : List (κ × ν)) (x : ν) (d : δ) :
    C.get c ((before ++ (c, x) :: after).foldl C.write d) = some x := by
  rw [List.foldl_append, List.foldl_cons, C.get_foldl_of_unwritten hafter]
  exact C.get_set_self c x _

/-- Nobody writes to the cell, or somebody is the last to do so. -/
theorem unwritten_or_last (ws : List (κ × ν)) (c : κ) :
    (∀ w ∈ ws, w.1 ≠ c) ∨
      ∃ before x after, ws = before ++ (c, x) :: after ∧
        ∀ w ∈ after, w.1 ≠ c := by
  induction ws with
  | nil => exact Or.inl (by simp)
  | cons w ws ih =>
      rcases ih with hnone | ⟨before, x, after, rfl, hafter⟩
      · by_cases hw : w.1 = c
        · exact Or.inr ⟨[], w.2, ws, by rw [← hw]; rfl, hnone⟩
        · exact Or.inl (List.forall_mem_cons.mpr ⟨hw, hnone⟩)
      · exact Or.inr ⟨w :: before, x, after, rfl, hafter⟩

/-- Tasks write to cells, each task at most one value to one cell.  Whatever
the order of the writes, the tasks can be ordered in such a way that one after
another they leave the same in the cell. -/
theorem exists_order {writes : τ → List (κ × ν)}
    (hwrites : ∀ t c x y, (c, x) ∈ writes t → (c, y) ∈ writes t → x = y)
    {tasks : List τ} {performed : List (κ × ν)}
    (hperm : performed.Perm (tasks.flatMap writes)) (c : κ) (d : δ) :
    ∃ order : List τ, order.Perm tasks ∧
      C.get c (performed.foldl C.write d) =
        C.get c ((order.flatMap writes).foldl C.write d) := by
  rcases unwritten_or_last performed c with hnone | ⟨before, x, after, rfl, hafter⟩
  · refine ⟨tasks, .refl _, ?_⟩
    rw [C.get_foldl_of_unwritten hnone, C.get_foldl_of_unwritten]
    intro w hw
    exact hnone w (hperm.mem_iff.mpr hw)
  · -- The task that wrote last goes to the end.
    have hmem : (c, x) ∈ tasks.flatMap writes :=
      hperm.mem_iff.mp (by simp)
    obtain ⟨t, ht, hx⟩ := List.mem_flatMap.mp hmem
    obtain ⟨first, others, rfl⟩ := List.append_of_mem ht
    refine ⟨first ++ others ++ [t], ?_, ?_⟩
    · rw [List.append_assoc]
      exact (List.perm_append_singleton t others).append_left first
    · rcases unwritten_or_last (writes t) c with
        hnone | ⟨before', y, after', ht', hafter'⟩
      · exact absurd rfl (hnone _ hx)
      · have hxy : x = y := hwrites t c x y hx (by rw [ht']; simp)
        have hlast : (first ++ others ++ [t]).flatMap writes =
            ((first ++ others).flatMap writes ++ before') ++
              (c, y) :: after' := by
          simp [List.flatMap_append, ht']
        rw [C.get_foldl_of_last hafter, hlast, C.get_foldl_of_last hafter', hxy]

end Cells

end LambdaOnOpenStack.Support
