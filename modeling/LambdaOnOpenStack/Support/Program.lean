import Mathlib.Logic.Basic

/-!
# Programs made of atomic steps

A program over a shared state is a tree of atomic steps: each step reads the
state it finds, updates it, and continues with a program that depends on what
it read.
-/

namespace LambdaOnOpenStack.Support

/-- A sequential program whose atomic steps act on a shared state `σ`. -/
inductive Program (σ ε α : Type) where
  | done (result : α)
  | raised (error : ε)
  | atomic (effect : σ → σ) (next : σ → Program σ ε α)

namespace Program

variable {σ ε α β γ : Type}

/-- Continue with `f` after a normal result; an error ends the program. -/
def bind : Program σ ε α → (α → Program σ ε β) → Program σ ε β
  | done a, f => f a
  | raised e, _ => raised e
  | atomic effect next, f => atomic effect fun s => (next s).bind f

instance : Monad (Program σ ε) where
  pure := done
  bind := bind

@[simp] theorem pure_eq (a : α) : (pure a : Program σ ε α) = done a := rfl

@[simp] theorem done_bind (a : α) (f : α → Program σ ε β) :
    (done a >>= f) = f a := rfl

@[simp] theorem raised_bind (e : ε) (f : α → Program σ ε β) :
    (raised e >>= f) = raised e := rfl

@[simp] theorem atomic_bind (effect : σ → σ) (next : σ → Program σ ε α)
    (f : α → Program σ ε β) :
    (atomic effect next >>= f) = atomic effect fun s => next s >>= f := rfl

protected theorem bind_assoc (p : Program σ ε α) (f : α → Program σ ε β)
    (g : β → Program σ ε γ) : (p >>= f) >>= g = p >>= fun a => f a >>= g := by
  induction p with
  | done a => rfl
  | raised e => rfl
  | atomic effect next ih => exact congrArg (atomic effect) (funext ih)

protected theorem bind_done (p : Program σ ε Unit) :
    (p >>= fun _ => done ()) = p := by
  induction p with
  | done a => rfl
  | raised e => rfl
  | atomic effect next ih => exact congrArg (atomic effect) (funext ih)

/-- Read the state. -/
def ask (query : σ → α) : Program σ ε α :=
  atomic id fun s => done (query s)

/-- Update the state. -/
def modify (effect : σ → σ) : Program σ ε Unit :=
  atomic effect fun _ => done ()

/-- A computation that touches no state. -/
def ofExcept : Except ε α → Program σ ε α
  | .ok a => done a
  | .error e => raised e

@[simp] theorem ofExcept_ok (a : α) :
    (ofExcept (.ok a) : Program σ ε α) = done a := rfl

@[simp] theorem ofExcept_error (e : ε) :
    (ofExcept (.error e) : Program σ ε α) = raised e := rfl

/-- Execute `body` for each element of a list, in order. -/
def forEach (body : β → Program σ ε Unit) : List β → Program σ ε Unit
  | [] => done ()
  | x :: rest => body x >>= fun _ => forEach body rest

@[simp] theorem forEach_nil (body : β → Program σ ε Unit) :
    forEach body [] = done () := rfl

@[simp] theorem forEach_cons (body : β → Program σ ε Unit) (x : β)
    (rest : List β) :
    forEach body (x :: rest) = (body x >>= fun _ => forEach body rest) := rfl

/-! ## Uninterrupted execution -/

/-- Execute a program to its end with nothing else running. -/
def run : Program σ ε α → σ → Except ε α × σ
  | done a, s => (.ok a, s)
  | raised e, s => (.error e, s)
  | atomic effect next, s => (next s).run (effect s)

@[simp] theorem run_done (a : α) (s : σ) :
    (done a : Program σ ε α).run s = (.ok a, s) := rfl

@[simp] theorem run_raised (e : ε) (s : σ) :
    (raised e : Program σ ε α).run s = (.error e, s) := rfl

@[simp] theorem run_atomic (effect : σ → σ)
    (next : σ → Program σ ε α) (s : σ) :
    (atomic effect next).run s = (next s).run (effect s) := rfl

@[simp] theorem run_ask (query : σ → α) (s : σ) :
    (ask query : Program σ ε α).run s = (.ok (query s), s) := rfl

@[simp] theorem run_modify (effect : σ → σ) (s : σ) :
    (modify effect : Program σ ε Unit).run s = (.ok (), effect s) := rfl

theorem run_bind (p : Program σ ε α) (f : α → Program σ ε β) (s : σ) :
    (p >>= f).run s =
      match p.run s with
      | (.ok a, t) => (f a).run t
      | (.error e, t) => (.error e, t) := by
  induction p generalizing s with
  | done a => rfl
  | raised e => rfl
  | atomic effect next ih => exact ih s (effect s)

theorem run_bind_ok {p : Program σ ε α} {f : α → Program σ ε β}
    {s t : σ} {a : α} (hp : p.run s = (.ok a, t)) :
    (p >>= f).run s = (f a).run t := by
  rw [run_bind, hp]

theorem run_bind_error {p : Program σ ε α} {f : α → Program σ ε β}
    {s t : σ} {e : ε} (hp : p.run s = (.error e, t)) :
    (p >>= f).run s = (.error e, t) := by
  rw [run_bind, hp]

@[simp] theorem run_ask_bind (query : σ → α) (f : α → Program σ ε β) (s : σ) :
    (ask query >>= f).run s = (f (query s)).run s := rfl

@[simp] theorem run_modify_bind (effect : σ → σ)
    (f : Unit → Program σ ε β) (s : σ) :
    (modify effect >>= f).run s = (f ()).run (effect s) := rfl

/-! ## Programs over different states -/

section Simulation

variable {τ : Type} {R : σ → τ → Prop}

/-- From related states both programs end with the same result and in related
states. -/
def Simulates (R : σ → τ → Prop) (p : Program σ ε α) (q : Program τ ε α) : Prop :=
  ∀ s t, R s t → (p.run s).1 = (q.run t).1 ∧ R (p.run s).2 (q.run t).2

theorem Simulates.done (a : α) :
    Simulates R (.done a : Program σ ε α) (.done a) :=
  fun _ _ h => ⟨rfl, h⟩

theorem Simulates.raised (e : ε) :
    Simulates R (.raised e : Program σ ε α) (.raised e) :=
  fun _ _ h => ⟨rfl, h⟩

theorem Simulates.bind {p : Program σ ε α} {q : Program τ ε α}
    {f : α → Program σ ε β} {g : α → Program τ ε β} (hp : Simulates R p q)
    (hf : ∀ a, Simulates R (f a) (g a)) :
    Simulates R (p >>= f) (q >>= g) := by
  intro s t h
  obtain ⟨hresult, hrelated⟩ := hp s t h
  rw [run_bind, run_bind]
  generalize p.run s = ran at hresult hrelated ⊢
  generalize q.run t = ran' at hresult hrelated ⊢
  obtain ⟨result, s'⟩ := ran
  obtain ⟨result', t'⟩ := ran'
  obtain rfl : result = result' := hresult
  cases result with
  | ok a => exact hf a s' t' hrelated
  | error e => exact ⟨rfl, hrelated⟩

end Simulation

/-! ## A part of the state -/

section Part

variable {τ : Type} {get : τ → σ} {set : σ → τ → τ}

/-- A program on a part of the state. -/
def onPart (get : τ → σ) (set : σ → τ → τ) : Program σ ε α → Program τ ε α
  | done a => done a
  | raised e => raised e
  | atomic effect next =>
      atomic (fun t => set (effect (get t)) t) fun t =>
        (next (get t)).onPart get set

/-- The program changes the part as it does on its own, and nothing else. -/
theorem run_onPart (hget : ∀ s t, get (set s t) = s)
    (hset : ∀ s s' t, set s (set s' t) = set s t)
    (hsame : ∀ t, set (get t) t = t) (p : Program σ ε α) (t : τ) :
    (p.onPart get set).run t = ((p.run (get t)).1, set (p.run (get t)).2 t) := by
  induction p generalizing t with
  | done a => simp [onPart, hsame]
  | raised e => simp [onPart, hsame]
  | atomic effect next ih => simp [onPart, ih, hget, hset]

end Part

end Program

end LambdaOnOpenStack.Support
