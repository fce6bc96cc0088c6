import LambdaOnOpenStack.Support.Interleaving

/-!
# What a program reads

`R s t` says that a program cannot tell `s` from `t`.  A program that keeps `R`
reads the same in related states and leaves related states behind; a program
that reads within `R` does so until it reads nothing more.  Moves of other
programs that relate the states before and after them are harmless to it.
-/

namespace LambdaOnOpenStack.Support

variable {σ ε α β ρ : Type} {R : σ → σ → Prop}

namespace Program

/-- The program reads nothing. -/
def Blind : Program σ ε α → Prop
  | done _ => True
  | raised _ => True
  | atomic _ next => (∀ s t, next s = next t) ∧ ∀ s, (next s).Blind

/-- Every step reads the same in related states and keeps them related. -/
def Keeps (R : σ → σ → Prop) : Program σ ε α → Prop
  | done _ => True
  | raised _ => True
  | atomic effect next => ∀ s t, R s t →
      next s = next t ∧ R (effect s) (effect t) ∧ (next s).Keeps R

/-- Every step reads the same in related states, and keeps them related unless
the rest of the program is blind. -/
def Reads (R : σ → σ → Prop) : Program σ ε α → Prop
  | done _ => True
  | raised _ => True
  | atomic effect next => ∀ s t, R s t →
      next s = next t ∧ (R (effect s) (effect t) ∨ (next s).Blind) ∧
        (next s).Reads R

theorem Blind.bind {p : Program σ ε α} {f : α → Program σ ε β} (hp : p.Blind)
    (hf : ∀ a, (f a).Blind) : (p >>= f).Blind := by
  induction p with
  | done a => exact hf a
  | raised e => trivial
  | atomic effect next ih =>
      refine ⟨?_, fun s => ih s (hp.2 s)⟩
      intro s t
      exact congrArg (Program.bind · f) (hp.1 s t)

theorem Blind.modify (effect : σ → σ) :
    (modify effect : Program σ ε Unit).Blind :=
  ⟨fun _ _ => rfl, fun _ => trivial⟩

theorem Blind.ofExcept (r : Except ε α) : (ofExcept r : Program σ ε α).Blind := by
  cases r <;> trivial

theorem Blind.agree {p : Program σ ε α} (hp : p.Blind) (s t : σ) :
    p.Agree s t := by
  induction p generalizing s t with
  | done a => trivial
  | raised e => trivial
  | atomic effect next ih => exact ⟨hp.1 s t, ih s (hp.2 s) _ _⟩

theorem Blind.reads {p : Program σ ε α} (hp : p.Blind) : p.Reads R := by
  induction p with
  | done a => trivial
  | raised e => trivial
  | atomic effect next ih =>
      intro s t _
      exact ⟨hp.1 s t, Or.inr (hp.2 s), ih s (hp.2 s)⟩

theorem Blind.step {p : Program σ ε α} (hp : p.Blind) (s : σ) :
    (p.step s).1.Blind := by
  cases p with
  | done a => trivial
  | raised e => trivial
  | atomic effect next => exact hp.2 s

theorem Keeps.bind {p : Program σ ε α} {f : α → Program σ ε β}
    (hp : p.Keeps R) (hf : ∀ a, (f a).Keeps R) : (p >>= f).Keeps R := by
  induction p with
  | done a => exact hf a
  | raised e => trivial
  | atomic effect next ih =>
      intro s t hst
      obtain ⟨hnext, heffect, hrest⟩ := hp s t hst
      exact ⟨congrArg (Program.bind · f) hnext, heffect, ih s hrest⟩

theorem Keeps.bind_reads {p : Program σ ε α} {f : α → Program σ ε β}
    (hp : p.Keeps R) (hf : ∀ a, (f a).Reads R) : (p >>= f).Reads R := by
  induction p with
  | done a => exact hf a
  | raised e => trivial
  | atomic effect next ih =>
      intro s t hst
      obtain ⟨hnext, heffect, hrest⟩ := hp s t hst
      exact ⟨congrArg (Program.bind · f) hnext, Or.inl heffect, ih s hrest⟩

theorem Keeps.modify {effect : σ → σ}
    (heffect : ∀ s t, R s t → R (effect s) (effect t)) :
    (modify effect : Program σ ε Unit).Keeps R :=
  fun s t hst => ⟨rfl, heffect s t hst, trivial⟩

theorem Keeps.ofExcept (r : Except ε α) :
    (ofExcept r : Program σ ε α).Keeps R := by
  cases r <;> trivial

theorem Reads.bind_blind {p : Program σ ε α} {f : α → Program σ ε β}
    (hp : p.Reads R) (hf : ∀ a, (f a).Blind) : (p >>= f).Reads R := by
  induction p with
  | done a => exact (hf a).reads
  | raised e => trivial
  | atomic effect next ih =>
      intro s t hst
      obtain ⟨hnext, heffect, hrest⟩ := hp s t hst
      exact ⟨congrArg (Program.bind · f) hnext,
        heffect.imp_right fun hblind => hblind.bind hf, ih s hrest⟩

/-- The program agrees on related states. -/
theorem Reads.agree {p : Program σ ε α} (hp : p.Reads R) {s t : σ}
    (hst : R s t) : p.Agree s t := by
  induction p generalizing s t with
  | done a => trivial
  | raised e => trivial
  | atomic effect next ih =>
      obtain ⟨hnext, heffect, hrest⟩ := hp s t hst
      refine ⟨hnext, ?_⟩
      rcases heffect with heffect | hblind
      · exact ih s hrest heffect
      · exact hblind.agree _ _

end Program

namespace System

open Program

variable {handler : ρ → Program σ ε β} {S : System σ ε α β}

/-- The move is one of the main program, or it relates the states before and
after it, as long as the one before is related to itself. -/
def Unseen (handler : ρ → Program σ ε β) (R : σ → σ → Prop)
    (S : System σ ε α β) (move : Move ρ) : Prop :=
  match move with
  | .main => True
  | move => R S.state S.state → R S.state (S.step handler move).state

/-- The main program reads nothing more, or it reads within `R`. -/
def Watches (R : σ → σ → Prop) (S : System σ ε α β) : Prop :=
  S.main.Blind ∨ S.main.Reads R ∧ R S.state S.state

theorem Watches.harmless (h : S.Watches R) {move : Move ρ}
    (hunseen : S.Unseen handler R move) : S.Harmless handler move := by
  cases move with
  | main => trivial
  | _ =>
      rcases h with hblind | ⟨hreads, hR⟩
      · exact hblind.agree _ _
      · exact hreads.agree (hunseen hR)

theorem Watches.step_main (h : S.Watches R) :
    (S.step handler .main).Watches R := by
  obtain ⟨state, main, others⟩ := S
  rcases h with hblind | ⟨hreads, hR⟩
  · exact Or.inl (hblind.step state)
  · cases main with
    | done a => exact Or.inl trivial
    | raised e => exact Or.inl trivial
    | atomic effect next =>
        obtain ⟨-, heffect | hblind, hrest⟩ := hreads state state hR
        · exact Or.inr ⟨hrest, heffect⟩
        · exact Or.inl hblind

theorem Watches.step (hR : ∀ s t, R s t → R t t) (h : S.Watches R)
    {move : Move ρ} (hunseen : S.Unseen handler R move) :
    (S.step handler move).Watches R := by
  cases move with
  | main => exact h.step_main
  | other i =>
      rw [Watches, main_step_other]
      exact h.imp id fun hreads => ⟨hreads.1, hR _ _ (hunseen hreads.2)⟩
  | arrive request => exact h

/-- Unseen moves are harmless. -/
theorem along_harmless (hR : ∀ s t, R s t → R t t) (h : S.Watches R)
    {moves : List (Move ρ)}
    (hunseen : Along (step handler) (Unseen handler R) S moves) :
    Along (step handler) (Harmless handler) S moves := by
  induction moves generalizing S with
  | nil => trivial
  | cons move rest ih =>
      exact ⟨h.harmless hunseen.1, ih (h.step hR hunseen.1) hunseen.2⟩

end System

end LambdaOnOpenStack.Support
