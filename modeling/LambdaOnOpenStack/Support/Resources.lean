import LambdaOnOpenStack.Support.Interleaving
import Mathlib.Algebra.BigOperators.Group.List.Basic
import Mathlib.Algebra.Group.Hom.Defs

/-!
# Resources of interleaved programs

Each program holds a resource, an element of a commutative monoid: what it
owns and what it knows of the shared state.  `W` says which states fit the sum
of all resources.  A program is safe if each of its steps exchanges its own
resource for another one such that the state fits again, whatever the other
programs hold.  If all programs are safe, the state fits the sum of their
resources in every state of every interleaving.
-/

namespace LambdaOnOpenStack.Support

variable {σ ε α β γ ρ : Type} [AddCommMonoid γ] {W : γ → σ → Prop}

namespace Program

/-- Holding `g`, the program takes only steps after which the state fits, and
when it ends, `Q` holds of its result and of what it holds then. -/
def Safe (W : γ → σ → Prop) (Q : Except ε α → γ → Prop) :
    Program σ ε α → γ → Prop
  | done a, g => Q (.ok a) g
  | raised e, g => Q (.error e) g
  | atomic effect next, g =>
      ∀ frame s, W (g + frame) s →
        ∃ g', W (g' + frame) (effect s) ∧ (next s).Safe W Q g'

variable {Q : Except ε α → γ → Prop}

theorem Safe.mono {p : Program σ ε α} {Q' : Except ε α → γ → Prop} {g : γ}
    (hp : p.Safe W Q g) (hQ : ∀ r g, Q r g → Q' r g) : p.Safe W Q' g := by
  induction p generalizing g with
  | done a => exact hQ _ _ hp
  | raised e => exact hQ _ _ hp
  | atomic effect next ih =>
      intro frame s hs
      obtain ⟨g', hfits, hnext⟩ := hp frame s hs
      exact ⟨g', hfits, ih s hnext⟩

/-- What follows starts with what the first part ended with. -/
theorem Safe.bind {p : Program σ ε α} {f : α → Program σ ε β}
    {R : Except ε β → γ → Prop} {g : γ} (hp : p.Safe W Q g)
    (hok : ∀ a g, Q (.ok a) g → (f a).Safe W R g)
    (herror : ∀ e g, Q (.error e) g → R (.error e) g) :
    (p >>= f).Safe W R g := by
  induction p generalizing g with
  | done a => exact hok a g hp
  | raised e => exact herror e g hp
  | atomic effect next ih =>
      intro frame s hs
      obtain ⟨g', hfits, hnext⟩ := hp frame s hs
      exact ⟨g', hfits, ih s hnext⟩

/-- A program leaves alone what it does not need. -/
theorem Safe.frame {p : Program σ ε α} {g : γ} (hp : p.Safe W Q g) (k : γ) :
    p.Safe W (fun r g' => ∃ h, Q r h ∧ g' = h + k) (g + k) := by
  induction p generalizing g with
  | done a => exact ⟨g, hp, rfl⟩
  | raised e => exact ⟨g, hp, rfl⟩
  | atomic effect next ih =>
      intro frame s hs
      rw [add_assoc] at hs
      obtain ⟨g', hfits, hnext⟩ := hp (k + frame) s hs
      exact ⟨g' + k, by rwa [add_assoc], ih s hnext⟩

/-- A step that does not change the state. -/
theorem Safe.query {effect : σ → σ} {next : σ → Program σ ε α} {g : γ}
    (heffect : ∀ s, effect s = s)
    (hnext : ∀ frame s, W (g + frame) s →
      ∃ g', W (g' + frame) s ∧ (next s).Safe W Q g') :
    (atomic effect next).Safe W Q g := by
  intro frame s hs
  rw [heffect]
  exact hnext frame s hs

theorem Safe.ask_bind {query : σ → β} {f : β → Program σ ε α} {g : γ}
    (hf : ∀ a, (f a).Safe W Q g) : (ask query >>= f).Safe W Q g :=
  Safe.query (fun _ => rfl) fun _ s hs => ⟨g, hs, hf (query s)⟩

theorem Safe.modify_bind {effect : σ → σ} {f : Unit → Program σ ε α}
    {g k : γ}
    (heffect : ∀ frame s, W (g + frame) s → W (k + frame) (effect s))
    (hf : (f ()).Safe W Q k) : (modify effect >>= f).Safe W Q g :=
  fun frame s hs => ⟨k, heffect frame s hs, hf⟩

/-- A loop that holds `g done` after the elements `done`. -/
theorem Safe.forEach_bind {body : β → Program σ ε Unit}
    {f : Unit → Program σ ε α} (g : List β → γ) (xs : List β)
    (hbody : ∀ before x after, xs = before ++ x :: after →
      ∀ rest : Unit → Program σ ε α, (rest ()).Safe W Q (g (before ++ [x])) →
        (body x >>= rest).Safe W Q (g before))
    (hf : (f ()).Safe W Q (g xs)) : (forEach body xs >>= f).Safe W Q (g []) := by
  suffices h : ∀ after before, xs = before ++ after →
      (forEach body after >>= f).Safe W Q (g before) from h xs [] rfl
  intro after
  induction after with
  | nil =>
      rintro before rfl
      simpa using hf
  | cons x after ih =>
      intro before hxs
      rw [forEach_cons, Program.bind_assoc]
      exact hbody before x after hxs _ (ih (before ++ [x]) (by simpa using hxs))

theorem Safe.ofExcept_bind {r : Except ε β} {f : β → Program σ ε α} {g : γ}
    (hok : ∀ b, r = .ok b → (f b).Safe W Q g)
    (herror : ∀ e, r = .error e → Q (.error e) g) :
    (ofExcept r >>= f).Safe W Q g := by
  cases r with
  | ok b => exact hok b rfl
  | error e => exact herror e rfl

/-- A program that does not touch what `W` is about keeps what it holds. -/
theorem Safe.of_confined {O : Type} {out : σ → O} {p : Program σ ε α}
    (hW : ∀ g s t, out t = out s → W g s → W g t) (hp : p.Confined out)
    (g : γ) : p.Safe W (fun _ g' => g' = g) g := by
  induction p with
  | done a => rfl
  | raised e => rfl
  | atomic effect next ih =>
      intro frame s hs
      exact ⟨g, hW _ _ _ (hp.1 s) hs, ih s (hp.2 s)⟩

/-- What follows such a program starts with what it started with. -/
theorem Safe.confined_bind {O : Type} {out : σ → O} {p : Program σ ε β}
    {f : β → Program σ ε α} {g : γ}
    (hW : ∀ g s t, out t = out s → W g s → W g t) (hp : p.Confined out)
    (hok : ∀ b, (f b).Safe W Q g) (herror : ∀ e, Q (.error e) g) :
    (p >>= f).Safe W Q g := by
  refine (Safe.of_confined hW hp g).bind ?_ ?_
  · rintro b _ rfl
    exact hok b
  · rintro e _ rfl
    exact herror e

/-! ## Programs that need nothing to start with -/

/-- Holding nothing, the program is safe. -/
abbrev Secure (W : γ → σ → Prop) (p : Program σ ε α) : Prop :=
  p.Safe W (fun _ _ => True) 0

theorem Secure.safe {p : Program σ ε α} (hp : p.Secure W) (g : γ) :
    p.Safe W (fun _ _ => True) g := by
  have hframe := hp.frame g
  rw [zero_add] at hframe
  exact hframe.mono fun _ _ _ => trivial

theorem Secure.of_confined {O : Type} {out : σ → O} {p : Program σ ε α}
    (hW : ∀ g s t, out t = out s → W g s → W g t) (hp : p.Confined out) :
    p.Secure W :=
  (Safe.of_confined hW hp 0).mono fun _ _ _ => trivial

theorem Secure.bind {p : Program σ ε β} {f : β → Program σ ε α}
    (hp : p.Secure W) (hf : ∀ b, (f b).Secure W) : (p >>= f).Secure W :=
  Safe.bind hp (fun b g _ => (hf b).safe g) fun _ _ _ => trivial

/-- The program has no step left. -/
def isOver : Program σ ε α → Bool
  | done _ => true
  | raised _ => true
  | atomic _ _ => false

theorem Safe.of_isOver {p : Program σ ε α} {C : γ → Prop} {g : γ}
    (hp : p.Safe W (fun _ g => C g) g) (hover : p.isOver = true) : C g := by
  cases p with
  | done a => exact hp
  | raised e => exact hp
  | atomic effect next => cases hover

/-- One step of a safe program. -/
theorem Safe.step {p : Program σ ε α} {g frame : γ} (hp : p.Safe W Q g) {s : σ}
    (hs : W (g + frame) s) :
    ∃ g', W (g' + frame) (p.step s).2 ∧ (p.step s).1.Safe W Q g' := by
  cases p with
  | done a => exact ⟨g, hs, hp⟩
  | raised e => exact ⟨g, hs, hp⟩
  | atomic effect next => exact hp frame s hs

/-- An uninterrupted execution of a safe program. -/
theorem Safe.run {p : Program σ ε α} {g frame : γ} (hp : p.Safe W Q g) {s : σ}
    (hs : W (g + frame) s) :
    ∃ g', W (g' + frame) (p.run s).2 ∧ Q (p.run s).1 g' := by
  induction p generalizing g s with
  | done a => exact ⟨g, hs, hp⟩
  | raised e => exact ⟨g, hs, hp⟩
  | atomic effect next ih =>
      obtain ⟨g', hfits, hnext⟩ := hp frame s hs
      exact ih s hnext hfits

end Program

/-- The other summands stay when one is exchanged. -/
theorem sum_set {gs : List γ} {i : ℕ} {g : γ} (hget : gs[i]? = some g) :
    ∃ frame, gs.sum = g + frame ∧ ∀ g', (gs.set i g').sum = g' + frame := by
  induction gs generalizing i with
  | nil => simp at hget
  | cons h gs ih =>
      cases i with
      | zero =>
          obtain rfl : h = g := by simpa using hget
          exact ⟨gs.sum, by simp, by simp⟩
      | succ i =>
          obtain ⟨frame, hsum, hset⟩ := ih (i := i) (by simpa using hget)
          refine ⟨h + frame, ?_, ?_⟩
          · rw [List.sum_cons, hsum, add_left_comm]
          · intro g'
            rw [List.set_cons_succ, List.sum_cons, hset, add_left_comm]

namespace System

open Program

variable {handler : ρ → Program σ ε β} {M : Except ε α → γ → Prop}
  {Q : Except ε β → γ → Prop} {S : System σ ε α β}

/-- The programs are safe with shares of a resource that fits the state. -/
def Shared (W : γ → σ → Prop) (M : Except ε α → γ → Prop)
    (Q : Except ε β → γ → Prop) (S : System σ ε α β) : Prop :=
  ∃ (m : γ) (held : List (Program σ ε β × γ)),
    S.others = held.map (·.1) ∧ S.main.Safe W M m ∧
      (∀ x ∈ held, x.1.Safe W Q x.2) ∧ W (m + (held.map (·.2)).sum) S.state

theorem Shared.step_other (h : S.Shared W M Q) (i : ℕ) :
    (S.step handler (.other i)).Shared W M Q := by
  obtain ⟨m, held, hothers, hmain, hheld, hfits⟩ := h
  cases hget : held[i]? with
  | none =>
      have hstay : S.step handler (.other i) = S := by
        simp [System.step, hothers, hget]
      rw [hstay]
      exact ⟨m, held, hothers, hmain, hheld, hfits⟩
  | some x =>
      obtain ⟨p, g⟩ := x
      have hshare : (held.map (·.2))[i]? = some g := by simp [hget]
      obtain ⟨frame, hsum, hset⟩ := sum_set hshare
      rw [hsum, add_left_comm] at hfits
      obtain ⟨g', hfits', hnext⟩ :=
        (hheld _ (List.mem_of_getElem? hget)).step hfits
      refine ⟨m, held.set i ((p.step S.state).1, g'), ?_, ?_, ?_, ?_⟩
      · simp [System.step, hothers, hget, List.map_set]
      · rw [main_step_other]
        exact hmain
      · intro x hx
        rcases List.mem_or_eq_of_mem_set hx with hx | rfl
        · exact hheld x hx
        · exact hnext
      · rw [List.map_set, hset, add_left_comm]
        simpa [System.step, hothers, hget] using hfits'

/-- A move keeps the shares, if what arrives needs nothing to start with. -/
theorem Shared.step (h : S.Shared W M Q) {move : Move ρ}
    (hhandler : ∀ request, move = .arrive request →
      (handler request).Safe W Q 0) :
    (S.step handler move).Shared W M Q := by
  cases move with
  | main =>
      obtain ⟨m, held, hothers, hmain, hheld, hfits⟩ := h
      obtain ⟨m', hfits', hnext⟩ := hmain.step hfits
      exact ⟨m', held, hothers, hnext, hheld, hfits'⟩
  | other i => exact h.step_other i
  | arrive request =>
      obtain ⟨m, held, hothers, hmain, hheld, hfits⟩ := h
      refine ⟨m, held ++ [(handler request, 0)], ?_, hmain, ?_, ?_⟩
      · simp [System.step, hothers]
      · intro x hx
        rcases List.mem_append.mp hx with hx | hx
        · exact hheld x hx
        · rw [List.mem_singleton.mp hx]
          exact hhandler request rfl
      · simpa [System.step] using hfits

/-- The shares are kept if all that arrive need nothing to start with. -/
theorem Shared.runAll_of_arrivals (h : S.Shared W M Q) {moves : List (Move ρ)}
    (hhandler : ∀ request, .arrive request ∈ moves →
      (handler request).Safe W Q 0) :
    (runAll (System.step handler) S moves).Shared W M Q := by
  refine runAll_invariant_along (C := fun _ move => ∀ request,
    move = .arrive request → (handler request).Safe W Q 0)
    (fun _ _ h hmove => h.step hmove) h ?_
  refine along_of_forall ?_
  rintro move hmove _ request rfl
  exact hhandler request hmove

theorem Shared.runAll (h : S.Shared W M Q)
    (hhandler : ∀ request, (handler request).Safe W Q 0)
    (moves : List (Move ρ)) :
    (runAll (System.step handler) S moves).Shared W M Q :=
  h.runAll_of_arrivals fun request _ => hhandler request

/-- What holds of every state that fits a resource holds of this state. -/
theorem Shared.state {I : σ → Prop} (h : S.Shared W M Q)
    (hI : ∀ g s, W g s → I s) : I S.state := by
  obtain ⟨m, held, -, -, -, hfits⟩ := h
  exact hI _ _ hfits

/-- No program has a step left. -/
def Ended (S : System σ ε α β) : Prop :=
  S.main.isOver = true ∧ ∀ p ∈ S.others, p.isOver = true

instance : Decidable S.Ended :=
  inferInstanceAs (Decidable (_ ∧ ∀ p ∈ S.others, p.isOver = true))

/-- A program whose steps follow one another does what it does when it is
executed to its end. -/
theorem exists_steps_of_other (handler : ρ → Program σ ε β) {i : ℕ}
    {p : Program σ ε β} (hp : S.others[i]? = some p) :
    ∃ n q, q.isOver = true ∧
      Support.runAll (System.step handler) S (List.replicate n (.other i)) =
        { S with state := (p.run S.state).2, others := S.others.set i q } := by
  induction p generalizing S with
  | done b =>
      refine ⟨0, .done b, rfl, ?_⟩
      obtain ⟨hlt, hget⟩ := List.getElem?_eq_some_iff.mp hp
      rw [List.replicate_zero, runAll_nil, run_done, ← hget, List.set_getElem_self]
  | raised e =>
      refine ⟨0, .raised e, rfl, ?_⟩
      obtain ⟨hlt, hget⟩ := List.getElem?_eq_some_iff.mp hp
      rw [List.replicate_zero, runAll_nil, run_raised, ← hget,
        List.set_getElem_self]
  | atomic effect next ih =>
      have hlt := (List.getElem?_eq_some_iff.mp hp).1
      have hstep : S.step handler (.other i) =
          { S with
            state := effect S.state
            others := S.others.set i (next S.state) } := by
        simp [System.step, hp, Program.step]
      obtain ⟨n, q, hover, hrun⟩ := ih S.state
        (S := S.step handler (.other i)) (by simp [hstep, hlt])
      refine ⟨n + 1, q, hover, ?_⟩
      rw [List.replicate_succ, runAll_cons, hrun, hstep]
      simp

/-- When all programs have ended, the next request may be executed to its
end. -/
theorem Ended.exists_steps (hended : S.Ended) (handler : ρ → Program σ ε β)
    (request : ρ) :
    ∃ n, let steps := .arrive request ::
        List.replicate n (.other S.others.length)
      (Support.runAll (System.step handler) S steps).Ended ∧
        (Support.runAll (System.step handler) S steps).state =
          ((handler request).run S.state).2 := by
  obtain ⟨n, q, hover, hrun⟩ := exists_steps_of_other
    (S := S.step handler (.arrive request)) handler
    (i := S.others.length) (p := handler request) (by simp [System.step])
  refine ⟨n, ?_⟩
  simp only [runAll_cons, hrun]
  refine ⟨⟨hended.1, ?_⟩, rfl⟩
  intro p hp
  have hset : (S.others ++ [handler request]).set S.others.length q =
      S.others ++ [q] := by simp
  rcases List.mem_append.mp (hset ▸ hp) with hp | hp
  · exact hended.2 p hp
  · rwa [List.mem_singleton.mp hp]

/-- If every program has paid its debt when it ends, an ended system fits a
resource without debt. -/
theorem Shared.ended {δ : Type} [AddCommMonoid δ] (debt : γ →+ δ)
    (h : S.Shared W (fun _ g => debt g = 0) fun _ g => debt g = 0)
    (hended : S.Ended) : ∃ g, W g S.state ∧ debt g = 0 := by
  obtain ⟨m, held, hothers, hmain, hheld, hfits⟩ := h
  obtain ⟨hover, hall⟩ := hended
  refine ⟨_, hfits, ?_⟩
  rw [map_add, hmain.of_isOver hover, zero_add, map_list_sum]
  apply List.sum_eq_zero
  intro d hd
  simp only [List.map_map, List.mem_map] at hd
  obtain ⟨x, hx, rfl⟩ := hd
  apply (hheld x hx).of_isOver
  apply hall
  rw [hothers]
  exact List.mem_map.mpr ⟨x, hx, rfl⟩

end System

end LambdaOnOpenStack.Support
