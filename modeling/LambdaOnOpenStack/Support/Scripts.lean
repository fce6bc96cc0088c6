import Mathlib.Logic.Function.Iterate
import Mathlib.Logic.Relation
import Mathlib.Order.Bounds.Basic

/-!
# Scripts

A script takes commands one after another, tests the state, repeats a block and
calls other scripts, which have variables of their own.  A loop may go on for
ever: `Ends` relates the states at the beginning and at the end of a script,
and `Passes` the beginning to every state on the way, whether the script ends
or not.
-/

namespace LambdaOnOpenStack.Support

open Relation

/-- A script over a state.  A call begins in a state that the caller prepares,
and what it leaves behind is put into the caller's state. -/
inductive Script : Type → Type 1 where
  | skip {σ : Type} : Script σ
  | act {σ : Type} (effect : σ → σ) : Script σ
  | seq {σ : Type} (first rest : Script σ) : Script σ
  | branch {σ : Type} (test : σ → Bool) (yes no : Script σ) : Script σ
  | loop {σ : Type} (test : σ → Bool) (body : Script σ) : Script σ
  | call {σ τ : Type} (enter : σ → τ) (callee : Script τ) (leave : σ → τ → σ) :
      Script σ

namespace Script

/-- Scripts one after another. -/
def block {σ : Type} : List (Script σ) → Script σ
  | [] => skip
  | p :: rest => seq p (block rest)

/-- One turn of a loop. -/
def Turn {σ : Type} (test : σ → Bool) (body : σ → σ → Prop) (s t : σ) : Prop :=
  test s = true ∧ body s t

/-- The script ends in the state `t` when it begins in the state `s`. -/
def Ends : {σ : Type} → Script σ → σ → σ → Prop
  | _, skip, s, t => t = s
  | _, act effect, s, t => t = effect s
  | _, seq p q, s, t => ∃ u, p.Ends s u ∧ q.Ends u t
  | _, branch test p q, s, t => if test s then p.Ends s t else q.Ends s t
  | _, loop test body, s, t =>
      ReflTransGen (Turn test body.Ends) s t ∧ test t = false
  | _, call enter callee leave, s, t =>
      ∃ u, callee.Ends (enter s) u ∧ t = leave s u

/-- The script is at some time in the state `t` when it begins in the state
`s`. -/
def Passes : {σ : Type} → Script σ → σ → σ → Prop
  | _, skip, s, t => t = s
  | _, act effect, s, t => t = s ∨ t = effect s
  | _, seq p q, s, t => p.Passes s t ∨ ∃ u, p.Ends s u ∧ q.Passes u t
  | _, branch test p q, s, t => if test s then p.Passes s t else q.Passes s t
  | _, loop test body, s, t =>
      ∃ u, ReflTransGen (Turn test body.Ends) s u ∧
        (t = u ∨ test u = true ∧ body.Passes u t)
  | _, call enter callee leave, s, t =>
      t = s ∨ ∃ u, callee.Passes (enter s) u ∧ t = leave s u

/-! ## Execution -/

/-- At most `n` tests of a loop. -/
def turns {σ : Type} (test : σ → Bool) (body : σ → Option σ) : ℕ → σ → Option σ
  | 0, _ => none
  | n + 1, s => if test s then (body s).bind (turns test body n) else some s

/-- The state at the end, unless a loop makes more tests than `fuel`. -/
def run (fuel : ℕ) : {σ : Type} → Script σ → σ → Option σ
  | _, skip, s => some s
  | _, act effect, s => some (effect s)
  | _, seq p q, s => (p.run fuel s).bind (q.run fuel)
  | _, branch test p q, s => if test s then p.run fuel s else q.run fuel s
  | _, loop test body, s => turns test (body.run fuel) fuel s
  | _, call enter callee leave, s => (callee.run fuel (enter s)).map (leave s)

variable {σ τ : Type} {s t u : σ}

theorem turn_of_turns {test : σ → Bool} {body : σ → Option σ}
    {R : σ → σ → Prop} (hbody : ∀ s t, body s = some t → R s t) {n : ℕ}
    (hturns : turns test body n s = some t) :
    ReflTransGen (Turn test R) s t ∧ test t = false := by
  induction n generalizing s with
  | zero => simp [turns] at hturns
  | succ n ih =>
      rw [turns] at hturns
      split at hturns
      · rename_i htest
        obtain ⟨u, hu, hrest⟩ := Option.bind_eq_some_iff.mp hturns
        obtain ⟨hreach, hstop⟩ := ih hrest
        exact ⟨.head ⟨htest, hbody s u hu⟩ hreach, hstop⟩
      · rename_i htest
        obtain rfl := Option.some.inj hturns
        exact ⟨.refl, Bool.eq_false_iff.mpr htest⟩

theorem ends_of_run (p : Script σ) {fuel : ℕ} {s t : σ}
    (hrun : p.run fuel s = some t) : p.Ends s t := by
  induction p with
  | skip => exact (Option.some.inj hrun).symm
  | act effect => exact (Option.some.inj hrun).symm
  | seq p q ihp ihq =>
      obtain ⟨u, hp, hq⟩ := Option.bind_eq_some_iff.mp hrun
      exact ⟨u, ihp hp, ihq hq⟩
  | branch test p q ihp ihq =>
      rw [run] at hrun
      rw [Ends]
      split at hrun
      · rw [if_pos ‹_›]
        exact ihp hrun
      · rw [if_neg ‹_›]
        exact ihq hrun
  | loop test body ih => exact turn_of_turns (fun _ _ => ih) hrun
  | call enter callee leave ih =>
      obtain ⟨u, hu, hleave⟩ := Option.map_eq_some_iff.mp hrun
      exact ⟨u, ih hu, hleave.symm⟩

theorem turns_of_turn {test : σ → Bool} {body : ℕ → σ → Option σ}
    {R : σ → σ → Prop}
    (hbody : ∀ s t, R s t → ∃ n, ∀ fuel ≥ n, body fuel s = some t)
    (hreach : ReflTransGen (Turn test R) s t) (hstop : test t = false) :
    ∃ n, ∀ fuel ≥ n, ∀ m ≥ n, turns test (body fuel) m s = some t := by
  induction hreach using ReflTransGen.head_induction_on with
  | refl =>
      refine ⟨1, fun fuel _ m hm => ?_⟩
      obtain ⟨m, rfl⟩ := Nat.exists_eq_add_of_le' hm
      simp [turns, hstop]
  | head hturn _ ih =>
      obtain ⟨htest, hR⟩ := hturn
      obtain ⟨n₁, h₁⟩ := hbody _ _ hR
      obtain ⟨n₂, h₂⟩ := ih
      refine ⟨n₁ + n₂ + 1, fun fuel hfuel m hm => ?_⟩
      obtain ⟨m, rfl⟩ := Nat.exists_eq_add_of_le' (by omega : 1 ≤ m)
      rw [turns, if_pos htest, h₁ fuel (by omega), Option.bind_some]
      exact h₂ fuel (by omega) m (by omega)

theorem exists_run_of_ends (p : Script σ) {s t : σ} (hends : p.Ends s t) :
    ∃ n, ∀ fuel ≥ n, p.run fuel s = some t := by
  induction p with
  | skip => exact ⟨0, fun _ _ => congrArg some hends.symm⟩
  | act effect => exact ⟨0, fun _ _ => congrArg some hends.symm⟩
  | seq p q ihp ihq =>
      obtain ⟨u, hp, hq⟩ := hends
      obtain ⟨n₁, h₁⟩ := ihp hp
      obtain ⟨n₂, h₂⟩ := ihq hq
      refine ⟨max n₁ n₂, fun fuel hfuel => ?_⟩
      rw [run, h₁ fuel (le_trans (le_max_left ..) hfuel), Option.bind_some]
      exact h₂ fuel (le_trans (le_max_right ..) hfuel)
  | branch test p q ihp ihq =>
      rw [Ends] at hends
      by_cases htest : test s = true
      · rw [if_pos htest] at hends
        simpa only [run, if_pos htest] using ihp hends
      · rw [if_neg htest] at hends
        simpa only [run, if_neg htest] using ihq hends
  | loop test body ih =>
      have hturns : ∃ n, ∀ fuel ≥ n, ∀ m ≥ n,
          turns test (body.run fuel) m s = some t :=
        turns_of_turn (fun _ _ => ih) hends.1 hends.2
      obtain ⟨n, h⟩ := hturns
      exact ⟨n, fun fuel hfuel => h fuel hfuel fuel hfuel⟩
  | call enter callee leave ih =>
      obtain ⟨u, hu, rfl⟩ := hends
      obtain ⟨n, h⟩ := ih hu
      exact ⟨n, fun fuel hfuel => by rw [run, h fuel hfuel, Option.map_some]⟩

/-- `run` computes the state in which a script ends. -/
theorem ends_iff_run {p : Script σ} :
    p.Ends s t ↔ ∃ fuel, p.run fuel s = some t := by
  constructor
  · intro hends
    obtain ⟨n, h⟩ := exists_run_of_ends p hends
    exact ⟨n, h n le_rfl⟩
  · rintro ⟨fuel, hrun⟩
    exact ends_of_run p hrun

/-! ## The end of a script -/

@[simp] theorem ends_skip : (skip : Script σ).Ends s t ↔ t = s := Iff.rfl

@[simp] theorem ends_act {effect : σ → σ} :
    (act effect).Ends s t ↔ t = effect s := Iff.rfl

@[simp] theorem ends_seq {p q : Script σ} :
    (seq p q).Ends s t ↔ ∃ u, p.Ends s u ∧ q.Ends u t := Iff.rfl

@[simp] theorem ends_branch {test : σ → Bool} {p q : Script σ} :
    (branch test p q).Ends s t ↔ if test s then p.Ends s t else q.Ends s t :=
  Iff.rfl

@[simp] theorem ends_block_nil : (block [] : Script σ).Ends s t ↔ t = s := Iff.rfl

@[simp] theorem ends_block_cons {p : Script σ} {rest : List (Script σ)} :
    (block (p :: rest)).Ends s t ↔ ∃ u, p.Ends s u ∧ (block rest).Ends u t :=
  Iff.rfl

theorem ends_call {enter : σ → τ} {callee : Script τ} {leave : σ → τ → σ} :
    (call enter callee leave).Ends s t ↔
      ∃ v, callee.Ends (enter s) v ∧ t = leave s v := Iff.rfl

/-- The script always ends, with the value of a function. -/
def Computes (p : Script σ) (f : σ → σ) : Prop := ∀ s t, p.Ends s t ↔ t = f s

theorem reach_iff_iterate {test : σ → Bool} {body : Script σ} {f : σ → σ}
    (hbody : body.Computes f) :
    ReflTransGen (Turn test body.Ends) s t ↔
      ∃ n, (∀ k < n, test (f^[k] s) = true) ∧ t = f^[n] s := by
  constructor
  · intro hreach
    induction hreach with
    | refl => exact ⟨0, by simp, rfl⟩
    | tail _ hturn ih =>
        obtain ⟨n, hgoes, rfl⟩ := ih
        refine ⟨n + 1, fun k hk => ?_, ?_⟩
        · rcases Nat.lt_succ_iff_lt_or_eq.mp hk with hk | rfl
          · exact hgoes k hk
          · exact hturn.1
        · rw [Function.iterate_succ_apply']
          exact (hbody _ _).mp hturn.2
  · rintro ⟨n, hgoes, rfl⟩
    induction n with
    | zero => exact .refl
    | succ n ih =>
        refine .tail (ih fun k hk => hgoes k (by omega)) ⟨hgoes n (by omega), ?_⟩
        rw [Function.iterate_succ_apply']
        exact (hbody _ _).mpr rfl

/-- A loop whose body always ends makes as many turns as there are up to the
first state that fails the test. -/
theorem ends_loop_iff {test : σ → Bool} {body : Script σ} {f : σ → σ}
    (hbody : body.Computes f) :
    (loop test body).Ends s t ↔
      ∃ n, IsLeast {n | test (f^[n] s) = false} n ∧ t = f^[n] s := by
  rw [Ends, reach_iff_iterate hbody]
  constructor
  · rintro ⟨⟨n, hgoes, rfl⟩, hstop⟩
    refine ⟨n, ⟨hstop, fun m hm => ?_⟩, rfl⟩
    by_contra hlt
    exact Bool.false_ne_true (hm.symm.trans (hgoes m (by omega)))
  · rintro ⟨n, ⟨hstop, hleast⟩, rfl⟩
    refine ⟨⟨n, fun k hk => ?_, rfl⟩, hstop⟩
    by_contra htest
    exact absurd (hleast (Bool.eq_false_iff.mpr htest)) (by omega)

/-- A loop that makes its first turn, and ends after the first good one. -/
theorem ends_until_iff {test : σ → Bool} {body : Script σ} {f : σ → σ}
    {good : ℕ → Prop} (hbody : body.Computes f) (hstart : test s = true)
    (hturn : ∀ n, (∀ k < n, ¬good k) →
      (test (f^[n + 1] s) = false ↔ good n)) :
    (loop test body).Ends s t ↔
      ∃ n, IsLeast {n | good n} n ∧ t = f^[n + 1] s := by
  have hstops (n : ℕ) (hbad : ∀ k < n, ¬good k) (hgood : good n) :
      IsLeast {m | test (f^[m] s) = false} (n + 1) := by
    refine ⟨(hturn n hbad).mpr hgood, fun m hm => ?_⟩
    by_contra hlt
    cases m with
    | zero => exact Bool.false_ne_true (hm.symm.trans hstart)
    | succ k =>
        have hk := (hturn k fun j hj => hbad j (by omega)).mp hm
        exact hbad k (by omega) hk
  rw [ends_loop_iff hbody]
  constructor
  · rintro ⟨m, hm, rfl⟩
    by_cases hsome : ∃ n, good n ∧ ∀ k < n, ¬good k
    · obtain ⟨n, hgood, hbad⟩ := hsome
      have hsame := hm.unique (hstops n hbad hgood)
      subst hsame
      refine ⟨n, ⟨hgood, fun k hk => ?_⟩, rfl⟩
      by_contra hlt
      exact hbad k (by omega) hk
    · exfalso
      have hbad (n : ℕ) : ¬good n := by
        induction n using Nat.strong_induction_on with
        | _ n ih => exact fun hgood => hsome ⟨n, hgood, ih⟩
      cases m with
      | zero => exact Bool.false_ne_true (hm.1.symm.trans hstart)
      | succ n => exact hbad n ((hturn n fun k _ => hbad k).mp hm.1)
  · rintro ⟨n, ⟨hgood, hleast⟩, rfl⟩
    refine ⟨n + 1, hstops n (fun k hk h => ?_) hgood, rfl⟩
    exact absurd (hleast h) (by omega)

/-! ## Every state on the way -/

theorem passes_start (p : Script σ) (s : σ) : p.Passes s s := by
  induction p with
  | skip => rfl
  | act effect => exact Or.inl rfl
  | seq p q ihp _ => exact Or.inl (ihp s)
  | branch test p q ihp ihq =>
      rw [Passes]
      split
      · exact ihp s
      · exact ihq s
  | loop test body _ => exact ⟨s, .refl, Or.inl rfl⟩
  | call enter callee leave _ => exact Or.inl rfl

theorem Ends.passes {p : Script σ} {s t : σ} (hends : p.Ends s t) :
    p.Passes s t := by
  induction p with
  | skip => exact hends
  | act effect => exact Or.inr hends
  | seq p q _ ihq =>
      obtain ⟨u, hp, hq⟩ := hends
      exact Or.inr ⟨u, hp, ihq hq⟩
  | branch test p q ihp ihq =>
      rw [Ends] at hends
      rw [Passes]
      split at hends
      · rw [if_pos ‹_›]
        exact ihp hends
      · rw [if_neg ‹_›]
        exact ihq hends
  | loop test body _ => exact ⟨t, hends.1, Or.inl rfl⟩
  | call enter callee leave ih =>
      obtain ⟨u, hu, rfl⟩ := hends
      exact Or.inr ⟨u, ih hu, rfl⟩

/-- `I` holds at every time of the script, and `Q` when it ends. -/
structure Holds (I Q : σ → Prop) (p : Script σ) (s : σ) : Prop where
  always : ∀ t, p.Passes s t → I t
  ends : ∀ t, p.Ends s t → Q t

variable {I J Q R : σ → Prop}

theorem Holds.mono {p : Script σ} {I' Q' : σ → Prop} (h : p.Holds I Q s)
    (hI : ∀ t, I t → I' t) (hQ : ∀ t, I t → Q t → Q' t) : p.Holds I' Q' s where
  always t ht := hI t (h.always t ht)
  ends t ht := hQ t (h.always t ht.passes) (h.ends t ht)

theorem Holds.skip (hI : I s) (hQ : Q s) : Script.skip.Holds I Q s where
  always t ht := by rwa [show t = s from ht]
  ends t ht := by rwa [show t = s from ht]

theorem Holds.act {effect : σ → σ} (hI : I s) (hnext : I (effect s))
    (hQ : Q (effect s)) : (Script.act effect).Holds I Q s where
  always := by
    rintro t (rfl | rfl)
    · exact hI
    · exact hnext
  ends := by
    rintro t rfl
    exact hQ

theorem Holds.seq {p q : Script σ} (hp : p.Holds I R s)
    (hq : ∀ u, R u → q.Holds I Q u) : (Script.seq p q).Holds I Q s where
  always := by
    rintro t (hpasses | ⟨u, hends, hpasses⟩)
    · exact hp.always t hpasses
    · exact (hq u (hp.ends u hends)).always t hpasses
  ends := by
    rintro t ⟨u, hu, ht⟩
    exact (hq u (hp.ends u hu)).ends t ht

theorem Holds.cons {p : Script σ} {rest : List (Script σ)} (hp : p.Holds I R s)
    (hrest : ∀ u, R u → (block rest).Holds I Q u) :
    (block (p :: rest)).Holds I Q s :=
  Holds.seq hp hrest

theorem Holds.act_cons {effect : σ → σ} {rest : List (Script σ)} (hI : I s)
    (hrest : (block rest).Holds I Q (effect s)) :
    (block (Script.act effect :: rest)).Holds I Q s := by
  have hnext : I (effect s) := hrest.always _ (passes_start _ _)
  refine Holds.seq (R := fun u => u = effect s) (Holds.act hI hnext rfl) ?_
  rintro u rfl
  exact hrest

theorem Holds.last {p : Script σ} (hp : p.Holds I Q s) :
    (block [p]).Holds I Q s := by
  refine Holds.seq (R := fun u => I u ∧ Q u)
    (hp.mono (fun _ h => h) fun _ hI hQ => ⟨hI, hQ⟩) ?_
  exact fun u hu => Holds.skip hu.1 hu.2

theorem Holds.branch {test : σ → Bool} {p q : Script σ}
    (hp : test s = true → p.Holds I Q s) (hq : test s = false → q.Holds I Q s) :
    (Script.branch test p q).Holds I Q s := by
  cases htest : test s with
  | true => exact ⟨by simpa [Passes, htest] using (hp htest).always,
      by simpa [htest] using (hp htest).ends⟩
  | false => exact ⟨by simpa [Passes, htest] using (hq htest).always,
      by simpa [htest] using (hq htest).ends⟩

/-- `J` holds whenever a turn of the loop may begin. -/
theorem Holds.loop {test : σ → Bool} {body : Script σ} (hs : J s)
    (hJ : ∀ u, J u → I u) (hbody : ∀ u, J u → test u = true → body.Holds I J u)
    (hstop : ∀ u, J u → test u = false → Q u) :
    (Script.loop test body).Holds I Q s := by
  have hreached (u : σ) (hreach : ReflTransGen (Turn test body.Ends) s u) : J u := by
    induction hreach with
    | refl => exact hs
    | tail _ hturn ih => exact (hbody _ ih hturn.1).ends _ hturn.2
  constructor
  · rintro t ⟨u, hreach, rfl | ⟨htest, hpasses⟩⟩
    · exact hJ _ (hreached _ hreach)
    · exact (hbody u (hreached u hreach) htest).always t hpasses
  · rintro t ⟨hreach, htest⟩
    exact hstop t (hreached t hreach) htest

theorem Holds.call {enter : σ → τ} {callee : Script τ} {leave : σ → τ → σ}
    (hI : I s) (hcallee : callee.Holds (fun v => I (leave s v))
      (fun v => Q (leave s v)) (enter s)) :
    (Script.call enter callee leave).Holds I Q s where
  always := by
    rintro t (rfl | ⟨u, hpasses, rfl⟩)
    · exact hI
    · exact hcallee.always u hpasses
  ends := by
    rintro t ⟨u, hends, rfl⟩
    exact hcallee.ends u hends

/-! ### Scripts that keep an invariant -/

/-- The script never leaves `I`. -/
def Keeps (I : σ → Prop) (p : Script σ) : Prop := ∀ s, I s → p.Holds I I s

theorem Keeps.act {effect : σ → σ} (h : ∀ s, I s → I (effect s)) :
    (Script.act effect).Keeps I :=
  fun s hs => Holds.act hs (h s hs) (h s hs)

theorem Keeps.nil : (Script.block []).Keeps I := fun _ hs => Holds.skip hs hs

theorem Keeps.cons {p : Script σ} {rest : List (Script σ)} (hp : p.Keeps I)
    (hrest : (Script.block rest).Keeps I) : (Script.block (p :: rest)).Keeps I :=
  fun s hs => Holds.seq (hp s hs) hrest

theorem Keeps.branch {test : σ → Bool} {p q : Script σ} (hp : p.Keeps I)
    (hq : q.Keeps I) : (Script.branch test p q).Keeps I :=
  fun s hs => Holds.branch (fun _ => hp s hs) fun _ => hq s hs

theorem Keeps.loop {test : σ → Bool} {body : Script σ} (h : body.Keeps I) :
    (Script.loop test body).Keeps I :=
  fun _ hs => Holds.loop hs (fun _ hu => hu) (fun u hu _ => h u hu) fun _ hu _ => hu

end Script

end LambdaOnOpenStack.Support
