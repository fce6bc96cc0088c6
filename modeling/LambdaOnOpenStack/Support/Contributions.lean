import LambdaOnOpenStack.Support.Resources
import Mathlib.Tactic.Abel

/-!
# What each program contributes

A quantity of the shared state grows with the steps of the programs.  If each
program, whatever it reads, has at any time added what `R` allows, then in
every interleaving the quantity is the sum of what the single requests have
added, and each of them has added what is allowed for it.
-/

namespace LambdaOnOpenStack.Support

variable {σ ε α β γ ρ : Type} [AddCommMonoid γ] {out : σ → γ}

namespace Program

/-- Whatever states its steps find, the program adds to `out`, and `R` holds at
any time of what it has added. -/
def Contributes (out : σ → γ) : Program σ ε α → (γ → Prop) → Prop
  | done _, R => R 0
  | raised _, R => R 0
  | atomic effect next, R =>
      R 0 ∧ ∀ s, ∃ added, out (effect s) = out s + added ∧
        (next s).Contributes out fun rest => R (added + rest)

variable {R : γ → Prop}

/-- What a confined program leaves alone includes all that depends on it. -/
theorem Confined.mono {O O' : Type} {out : σ → O} {out' : σ → O'}
    {p : Program σ ε α} (hp : p.Confined out)
    (hout : ∀ s t, out s = out t → out' s = out' t) : p.Confined out' := by
  induction p with
  | done a => trivial
  | raised e => trivial
  | atomic effect next ih =>
      exact ⟨fun s => hout _ _ (hp.1 s), fun s => ih s (hp.2 s)⟩

theorem Contributes.zero {p : Program σ ε α} (hp : p.Contributes out R) : R 0 := by
  cases p with
  | done a => exact hp
  | raised e => exact hp
  | atomic effect next => exact hp.1

theorem Contributes.mono {p : Program σ ε α} {R' : γ → Prop}
    (hp : p.Contributes out R) (hR : ∀ c, R c → R' c) :
    p.Contributes out R' := by
  induction p generalizing R R' with
  | done a => exact hR 0 hp
  | raised e => exact hR 0 hp
  | atomic effect next ih =>
      obtain ⟨hzero, hsteps⟩ := hp
      refine ⟨hR 0 hzero, ?_⟩
      intro s
      obtain ⟨added, hadded, hnext⟩ := hsteps s
      exact ⟨added, hadded, ih s hnext fun c => hR (added + c)⟩

/-- A step that adds nothing. -/
theorem Contributes.query {effect : σ → σ} {next : σ → Program σ ε α}
    (hzero : R 0) (heffect : ∀ s, out (effect s) = out s)
    (hnext : ∀ s, (next s).Contributes out R) :
    (atomic effect next).Contributes out R := by
  refine ⟨hzero, ?_⟩
  intro s
  refine ⟨0, by rw [heffect, add_zero], ?_⟩
  simpa only [zero_add] using hnext s

theorem Contributes.modify_bind {effect : σ → σ} {f : Unit → Program σ ε α}
    {added : γ} (hzero : R 0) (heffect : ∀ s, out (effect s) = out s + added)
    (hf : (f ()).Contributes out fun rest => R (added + rest)) :
    (modify effect >>= f).Contributes out R :=
  ⟨hzero, fun s => ⟨added, heffect s, hf⟩⟩

/-- A part of the program that adds nothing. -/
theorem Contributes.confined_bind {p : Program σ ε β} {f : β → Program σ ε α}
    (hp : p.Confined out) (hzero : R 0)
    (hf : ∀ b, (f b).Contributes out R) : (p >>= f).Contributes out R := by
  induction p with
  | done b => exact hf b
  | raised e => exact hzero
  | atomic effect next ih =>
      exact Contributes.query hzero hp.1 fun s => ih s (hp.2 s)

theorem Contributes.of_confined {p : Program σ ε α} (hp : p.Confined out)
    (hzero : R 0) : p.Contributes out R := by
  induction p with
  | done a => exact hzero
  | raised e => exact hzero
  | atomic effect next ih =>
      exact Contributes.query hzero hp.1 fun s => ih s (hp.2 s)

/-- A rest of the program that adds nothing. -/
theorem Contributes.bind_confined {p : Program σ ε β} {f : β → Program σ ε α}
    (hp : p.Contributes out R) (hf : ∀ b, (f b).Confined out) :
    (p >>= f).Contributes out R := by
  induction p generalizing R with
  | done b => exact .of_confined (hf b) hp
  | raised e => exact hp
  | atomic effect next ih =>
      refine ⟨hp.1, ?_⟩
      intro s
      obtain ⟨added, hadded, hnext⟩ := hp.2 s
      exact ⟨added, hadded, ih s hnext⟩

theorem Contributes.step {p : Program σ ε α} (hp : p.Contributes out R) (s : σ) :
    ∃ added, out (p.step s).2 = out s + added ∧
      (p.step s).1.Contributes out fun rest => R (added + rest) := by
  cases p with
  | done a =>
      exact ⟨0, (add_zero _).symm, hp.mono fun c hc => by rwa [zero_add]⟩
  | raised e =>
      exact ⟨0, (add_zero _).symm, hp.mono fun c hc => by rwa [zero_add]⟩
  | atomic effect next => exact hp.2 s

end Program

/-- The requests that arrive, in their order. -/
def arrivals (moves : List (Move ρ)) : List ρ :=
  moves.filterMap fun move =>
    match move with
    | .arrive request => some request
    | _ => none

theorem arrivals_append (before after : List (Move ρ)) :
    arrivals (before ++ after) = arrivals before ++ arrivals after :=
  List.filterMap_append

namespace System

open Program

variable {handler : ρ → Program σ ε β} {R : ρ → γ → Prop}
  {S : System σ ε α β} {start : γ}

/-- The quantity is the sum of `start` and of what the single requests have
added, and the rest of each request goes on from there. -/
def Attributed (out : σ → γ) (R : ρ → γ → Prop) (start : γ) (past : List ρ)
    (S : System σ ε α β) : Prop :=
  S.main.Confined out ∧ ∃ shares : List (ρ × Program σ ε β × γ),
    shares.map (·.1) = past ∧ S.others = shares.map (·.2.1) ∧
      out S.state = start + (shares.map (·.2.2)).sum ∧
      ∀ x ∈ shares, x.2.1.Contributes out fun rest => R x.1 (x.2.2 + rest)

variable {past : List ρ}

theorem Attributed.step_other (h : S.Attributed out R start past) (i : ℕ) :
    (S.step handler (.other i)).Attributed out R start past := by
  obtain ⟨hmain, shares, hpast, hothers, hout, hshares⟩ := h
  cases hget : shares[i]? with
  | none =>
      have hstay : S.step handler (.other i) = S := by
        simp [System.step, hothers, hget]
      rw [hstay]
      exact ⟨hmain, shares, hpast, hothers, hout, hshares⟩
  | some x =>
      obtain ⟨request, p, share⟩ := x
      obtain ⟨added, hadded, hnext⟩ :=
        (hshares _ (List.mem_of_getElem? hget)).step S.state
      have hshare : (shares.map (·.2.2))[i]? = some share := by simp [hget]
      obtain ⟨frame, hsum, hset⟩ := sum_set hshare
      refine ⟨?_, shares.set i (request, (p.step S.state).1, share + added),
        ?_, ?_, ?_, ?_⟩
      · rw [main_step_other]
        exact hmain
      · obtain ⟨hlt, hx⟩ := List.getElem?_eq_some_iff.mp hget
        have hlt' : i < (shares.map (·.1)).length := by rwa [List.length_map]
        have hrequest : (shares.map (·.1))[i] = request := by simp [hx]
        rw [List.map_set, ← hpast, ← hrequest, List.set_getElem_self]
      · simp [System.step, hothers, hget, List.map_set]
      · rw [List.map_set, hset]
        rw [hsum] at hout
        simp only [System.step, hothers, List.getElem?_map, hget, Option.map_some]
        rw [hadded, hout]
        abel
      · intro x hx
        rcases List.mem_or_eq_of_mem_set hx with hx | rfl
        · exact hshares x hx
        · simpa only [add_assoc] using hnext

theorem Attributed.step (h : S.Attributed out R start past)
    (hhandler : ∀ request, (handler request).Contributes out (R request))
    (move : Move ρ) :
    (S.step handler move).Attributed out R start (past ++ arrivals [move]) := by
  cases move with
  | main =>
      obtain ⟨hmain, shares, hpast, hothers, hout, hshares⟩ := h
      obtain ⟨hsame, hrest⟩ := hmain.step S.state
      refine ⟨hrest, shares, ?_, hothers, hsame.trans hout, hshares⟩
      simpa [arrivals] using hpast
  | other i => simpa [arrivals] using h.step_other i
  | arrive request =>
      obtain ⟨hmain, shares, hpast, hothers, hout, hshares⟩ := h
      refine ⟨hmain, shares ++ [(request, handler request, 0)], ?_, ?_, ?_, ?_⟩
      · simp [arrivals, hpast]
      · simp [System.step, hothers]
      · simpa [System.step] using hout
      · intro x hx
        rcases List.mem_append.mp hx with hx | hx
        · exact hshares x hx
        · rw [List.mem_singleton.mp hx]
          simpa only [zero_add] using hhandler request

theorem Attributed.runAll (h : S.Attributed out R start past)
    (hhandler : ∀ request, (handler request).Contributes out (R request))
    (moves : List (Move ρ)) :
    (runAll (System.step handler) S moves).Attributed out R start
      (past ++ arrivals moves) := by
  induction moves generalizing S past with
  | nil => simpa [arrivals] using h
  | cons move rest ih =>
      have hrest := ih (h.step hhandler move)
      rwa [List.append_assoc, ← arrivals_append] at hrest

/-- In every interleaving, each request that has arrived has added what is
allowed for it, and nothing else has been added. -/
theorem exists_contributions (hothers : S.others = [])
    (hmain : S.main.Confined out)
    (hhandler : ∀ request, (handler request).Contributes out (R request))
    (moves : List (Move ρ)) :
    ∃ shares : List (ρ × γ), shares.map (·.1) = arrivals moves ∧
      out (runAll (System.step handler) S moves).state =
        out S.state + (shares.map (·.2)).sum ∧
      ∀ x ∈ shares, R x.1 x.2 := by
  have hstart : S.Attributed out R (out S.state) [] :=
    ⟨hmain, [], rfl, hothers, by simp, by simp⟩
  obtain ⟨-, shares, hpast, -, hout, hshares⟩ := hstart.runAll hhandler moves
  refine ⟨shares.map fun x => (x.1, x.2.2),
    by simpa [Function.comp_def] using hpast,
    by simpa [Function.comp_def] using hout, ?_⟩
  intro x hx
  obtain ⟨y, hy, rfl⟩ := List.mem_map.mp hx
  simpa only [add_zero] using (hshares y hy).zero

end System

end LambdaOnOpenStack.Support
