import LambdaOnOpenStack.Support.Program
import LambdaOnOpenStack.Support.Runs

/-!
# Interleaved programs

A main program and any number of other programs take their atomic steps in any
order.  Two states agree for a program if it reads the same in both whenever
it runs on alone.  If no step of the others makes the main program disagree
with itself, it ends as it would have ended without them.
-/

namespace LambdaOnOpenStack.Support

variable {σ ε α β ρ O : Type}

namespace Program

/-- Execute one atomic step. -/
def step : Program σ ε α → σ → Program σ ε α × σ
  | done a, s => (done a, s)
  | raised e, s => (raised e, s)
  | atomic effect next, s => (next s, effect s)

theorem run_step (p : Program σ ε α) (s : σ) :
    (p.step s).1.run (p.step s).2 = p.run s := by
  cases p <;> rfl

/-- Running on alone, the program reads the same from `s` as from `t`. -/
def Agree : Program σ ε α → σ → σ → Prop
  | done _, _, _ => True
  | raised _, _, _ => True
  | atomic effect next, s, t =>
      next s = next t ∧ (next s).Agree (effect s) (effect t)

theorem Agree.refl (p : Program σ ε α) (s : σ) : p.Agree s s := by
  induction p generalizing s with
  | done a => trivial
  | raised e => trivial
  | atomic effect next ih => exact ⟨rfl, ih s (effect s)⟩

theorem Agree.trans {p : Program σ ε α} {s t u : σ} (hst : p.Agree s t)
    (htu : p.Agree t u) : p.Agree s u := by
  induction p generalizing s t u with
  | done a => trivial
  | raised e => trivial
  | atomic effect next ih =>
      obtain ⟨hnext, hrest⟩ := hst
      obtain ⟨hnext', hrest'⟩ := htu
      rw [← hnext] at hrest'
      exact ⟨hnext.trans hnext', ih s hrest hrest'⟩

theorem Agree.step {p : Program σ ε α} {s t : σ} (hst : p.Agree s t) :
    (p.step s).1 = (p.step t).1 ∧
      (p.step s).1.Agree (p.step s).2 (p.step t).2 := by
  cases p with
  | done a => exact ⟨rfl, trivial⟩
  | raised e => exact ⟨rfl, trivial⟩
  | atomic effect next => exact hst

/-! ## What a program writes -/

/-- No step of the program changes `out`. -/
def Confined (out : σ → O) : Program σ ε α → Prop
  | done _ => True
  | raised _ => True
  | atomic effect next =>
      (∀ s, out (effect s) = out s) ∧ ∀ s, (next s).Confined out

/-- What a step of the program makes of `out` depends on `out` alone. -/
def Tracks (out : σ → O) : Program σ ε α → Prop
  | done _ => True
  | raised _ => True
  | atomic effect next =>
      (∀ s t, out s = out t → out (effect s) = out (effect t)) ∧
        ∀ s, (next s).Tracks out

variable {out : σ → O}

theorem Confined.bind {p : Program σ ε α} {f : α → Program σ ε β}
    (hp : p.Confined out) (hf : ∀ a, (f a).Confined out) :
    (p >>= f).Confined out := by
  induction p with
  | done a => exact hf a
  | raised e => trivial
  | atomic effect next ih => exact ⟨hp.1, fun s => ih s (hp.2 s)⟩

theorem Confined.ask {query : σ → α} :
    (ask query : Program σ ε α).Confined out :=
  ⟨fun _ => rfl, fun _ => trivial⟩

theorem Confined.forEach {body : β → Program σ ε Unit}
    (hbody : ∀ x, (body x).Confined out) (xs : List β) :
    (forEach body xs).Confined out := by
  induction xs with
  | nil => trivial
  | cons x rest ih => exact (hbody x).bind fun _ => ih

theorem Tracks.bind {p : Program σ ε α} {f : α → Program σ ε β}
    (hp : p.Tracks out) (hf : ∀ a, (f a).Tracks out) :
    (p >>= f).Tracks out := by
  induction p with
  | done a => exact hf a
  | raised e => trivial
  | atomic effect next ih => exact ⟨hp.1, fun s => ih s (hp.2 s)⟩

theorem Tracks.modify {effect : σ → σ}
    (heffect : ∀ s t, out s = out t → out (effect s) = out (effect t)) :
    (modify effect : Program σ ε Unit).Tracks out :=
  ⟨heffect, fun _ => trivial⟩

theorem Tracks.ofExcept (r : Except ε α) :
    (ofExcept r : Program σ ε α).Tracks out := by
  cases r <;> trivial

theorem Confined.step {p : Program σ ε α} (hp : p.Confined out) (s : σ) :
    out (p.step s).2 = out s ∧ (p.step s).1.Confined out := by
  cases p with
  | done a => exact ⟨rfl, trivial⟩
  | raised e => exact ⟨rfl, trivial⟩
  | atomic effect next => exact ⟨hp.1 s, hp.2 s⟩

/-- Uninterrupted, the program leaves `out` as it is. -/
theorem Confined.run {p : Program σ ε α} (hp : p.Confined out) (s : σ) :
    out (p.run s).2 = out s := by
  induction p generalizing s with
  | done a => rfl
  | raised e => rfl
  | atomic effect next ih => exact (ih s (hp.2 s) (effect s)).trans (hp.1 s)

theorem Tracks.step {p : Program σ ε α} (hp : p.Tracks out) {s t : σ}
    (hst : out s = out t) :
    out (p.step s).2 = out (p.step t).2 ∧ (p.step s).1.Tracks out := by
  cases p with
  | done a => exact ⟨hst, trivial⟩
  | raised e => exact ⟨hst, trivial⟩
  | atomic effect next => exact ⟨hp.1 s t hst, hp.2 s⟩

end Program

/-! ## Systems -/

open Program

/-- A shared state, what is left of the main program, and what is left of the
others. -/
structure System (σ ε α β : Type) where
  state : σ
  main : Program σ ε α
  others : List (Program σ ε β) := []

inductive Move (ρ : Type) where
  | main
  | other (i : ℕ)
  | arrive (request : ρ)

namespace System

variable (handler : ρ → Program σ ε β)

/-- One step of the main program or of another one, or a request arrives. -/
def step (S : System σ ε α β) : Move ρ → System σ ε α β
  | .main =>
      { S with
        state := (S.main.step S.state).2
        main := (S.main.step S.state).1 }
  | .other i =>
      match S.others[i]? with
      | none => S
      | some p =>
          { S with
            state := (p.step S.state).2
            others := S.others.set i (p.step S.state).1 }
  | .arrive request => { S with others := S.others ++ [handler request] }

/-- The move changes nothing that the main program has still to read. -/
def Harmless (S : System σ ε α β) (move : Move ρ) : Prop :=
  match move with
  | .main => True
  | move => S.main.Agree S.state (S.step handler move).state

/-- The main program began as `p` in `s`; alone it would now be in a state
that agrees with the present one and that has the same `out`. -/
structure Undisturbed (out : σ → O) (p : Program σ ε α) (s : σ)
    (S : System σ ε α β) : Prop where
  alone : ∃ u, S.main.Agree u S.state ∧ out u = out S.state ∧
    S.main.run u = p.run s
  tracks : S.main.Tracks out
  confined : ∀ q ∈ S.others, q.Confined out

variable {handler} {out : σ → O} {p : Program σ ε α} {s : σ}
  {S : System σ ε α β}

theorem Undisturbed.step_main (h : S.Undisturbed out p s) :
    (S.step handler .main).Undisturbed out p s := by
  obtain ⟨u, hagree, hout, hrun⟩ := h.alone
  obtain ⟨hnext, hrest⟩ := hagree.step
  refine ⟨⟨(S.main.step u).2, ?_, ?_, ?_⟩, ?_, h.confined⟩
  · simpa only [System.step, ← hnext] using hrest
  · exact (h.tracks.step hout).1
  · simp only [System.step, ← hnext]
    rw [run_step, hrun]
  · exact (h.tracks.step rfl).2

theorem main_step_other {i : ℕ} :
    (S.step handler (.other i)).main = S.main := by
  simp only [System.step]
  split <;> rfl

theorem confined_step_other (hothers : ∀ q ∈ S.others, q.Confined out)
    {i : ℕ} : ∀ q ∈ (S.step handler (.other i)).others, q.Confined out := by
  simp only [System.step]
  split
  · exact hothers
  · rename_i q hget
    intro q' hq'
    rcases List.mem_or_eq_of_mem_set hq' with hq' | rfl
    · exact hothers q' hq'
    · exact ((hothers q (List.mem_of_getElem? hget)).step S.state).2

theorem out_step_other (hothers : ∀ q ∈ S.others, q.Confined out) {i : ℕ} :
    out (S.step handler (.other i)).state = out S.state := by
  simp only [System.step]
  split
  · rfl
  · rename_i q hget
    exact ((hothers q (List.mem_of_getElem? hget)).step S.state).1

theorem confined_step_arrive
    (hhandler : ∀ request, (handler request).Confined out)
    (hothers : ∀ q ∈ S.others, q.Confined out) {request : ρ} :
    ∀ q ∈ (S.step handler (.arrive request)).others, q.Confined out := by
  intro q hq
  rcases List.mem_append.mp hq with hq | hq
  · exact hothers q hq
  · rw [List.mem_singleton.mp hq]
    exact hhandler request

theorem Undisturbed.step (h : S.Undisturbed out p s)
    (hhandler : ∀ request, (handler request).Confined out) {move : Move ρ}
    (hharmless : S.Harmless handler move) :
    (S.step handler move).Undisturbed out p s := by
  cases move with
  | main => exact h.step_main
  | other i =>
      obtain ⟨u, hagree, hout, hrun⟩ := h.alone
      have hmain : (S.step handler (.other i)).main = S.main :=
        main_step_other
      refine ⟨⟨u, ?_, ?_, ?_⟩, ?_, confined_step_other h.confined⟩
      · rw [hmain]
        exact hagree.trans hharmless
      · rw [hout, out_step_other h.confined]
      · rw [hmain, hrun]
      · rw [hmain]
        exact h.tracks
  | arrive request =>
      exact ⟨h.alone, h.tracks, confined_step_arrive hhandler h.confined⟩

/-- Before its first step the main program is complete. -/
theorem runAll_waiting (hhandler : ∀ request, (handler request).Confined out)
    {moves : List (Move ρ)} (hmoves : ∀ move ∈ moves, move ≠ .main)
    (hothers : ∀ q ∈ S.others, q.Confined out) :
    (runAll (step handler) S moves).main = S.main ∧
      ∀ q ∈ (runAll (step handler) S moves).others, q.Confined out := by
  induction moves generalizing S with
  | nil => exact ⟨rfl, hothers⟩
  | cons move rest ih =>
      have hrest : ∀ move ∈ rest, move ≠ .main := by
        intro m hm
        exact hmoves m (List.mem_cons_of_mem _ hm)
      have hstep : (S.step handler move).main = S.main ∧
          ∀ q ∈ (S.step handler move).others, q.Confined out := by
        cases move with
        | main => exact absurd rfl (hmoves _ (List.mem_cons_self ..))
        | other i => exact ⟨main_step_other, confined_step_other hothers⟩
        | arrive request =>
            exact ⟨rfl, confined_step_arrive hhandler hothers⟩
      obtain ⟨hmain, hconfined⟩ := ih hrest hstep.2
      exact ⟨hmain.trans hstep.1, hconfined⟩

/-- Along harmless moves the main program behaves as if it were alone. -/
theorem undisturbed_runAll (hp : S.main.Tracks out)
    (hhandler : ∀ request, (handler request).Confined out)
    (hothers : ∀ q ∈ S.others, q.Confined out) {moves : List (Move ρ)}
    (hharmless : Along (step handler) (Harmless handler) S moves) :
    (runAll (step handler) S moves).Undisturbed out S.main S.state :=
  runAll_invariant_along
    (I := fun S' => S'.Undisturbed out S.main S.state)
    (fun _ _ h hmove => h.step hhandler hmove)
    ⟨⟨S.state, Agree.refl _ _, rfl, rfl⟩, hp, hothers⟩ hharmless

/-- The main program raises nothing that it would not raise alone. -/
theorem Undisturbed.raised (h : S.Undisturbed out p s) {x : ε}
    (hmain : S.main = .raised x) : ∃ u, p.run s = (.error x, u) := by
  obtain ⟨u, -, -, hrun⟩ := h.alone
  rw [hmain] at hrun
  exact ⟨u, hrun.symm⟩

/-- The main program ends as it would have ended alone. -/
theorem Undisturbed.done (h : S.Undisturbed out p s) {a : α}
    (hmain : S.main = .done a) :
    ∃ u, p.run s = (.ok a, u) ∧ out u = out S.state := by
  obtain ⟨u, -, hout, hrun⟩ := h.alone
  rw [hmain] at hrun
  exact ⟨u, hrun.symm, hout⟩

end System

end LambdaOnOpenStack.Support
