import LambdaOnOpenStack.Support.Program
import LambdaOnOpenStack.Support.Runs
import Mathlib.Data.List.Nodup

/-!
# Delivery without acknowledgements

A queue forgets a message once it has delivered it.  The consumer is a process
that holds the messages delivered to it and executes a program for one after
another.  It can die at any step, also by an error of the program, and can be
started again; then it holds nothing.
-/

namespace LambdaOnOpenStack.Support

variable {σ ε ρ : Type}

/-- A message with its number in the order of publication. -/
structure Message (ρ : Type) where
  number : ℕ
  body : ρ

/-- A process with the messages that it has not begun to handle and the one
that it handles, with the rest of the program for it. -/
structure Consumer (σ ε ρ : Type) where
  prefetched : List (Message ρ) := []
  current : Option (Message ρ × Program σ ε Unit) := none

/-- The shared state, the queue, the consumer if there is one, and the numbers
of the messages that have been handled to the end. -/
structure Delivery (σ ε ρ : Type) where
  state : σ
  published : ℕ := 0
  queue : List (Message ρ) := []
  consumer : Option (Consumer σ ε ρ) := none
  finished : List ℕ := []

inductive DeliveryAction (σ ρ : Type) where
  | publish (body : ρ)
  | start
  | deliver (n : ℕ)
  | begin
  | step
  | die
  | meanwhile (effect : σ → σ)

/-- The numbers of the messages that the consumer holds. -/
def Consumer.holds (c : Consumer σ ε ρ) : List ℕ :=
  (c.current.toList.map fun running => running.1.number) ++
    c.prefetched.map (·.number)

namespace Delivery

variable (handler : ρ → Program σ ε Unit)

/-- A step of the program for the current message.  An error is not caught and
ends the process. -/
def stepConsumer (B : Delivery σ ε ρ) (c : Consumer σ ε ρ) : Delivery σ ε ρ :=
  match c.current with
  | none => B
  | some (m, .done _) =>
      { B with
        finished := B.finished ++ [m.number]
        consumer := some { c with current := none } }
  | some (_, .raised _) => { B with consumer := none }
  | some (m, .atomic effect next) =>
      { B with
        state := effect B.state
        consumer := some { c with current := some (m, next B.state) } }

/-- Begin with the next message unless one is being handled. -/
def beginConsumer (c : Consumer σ ε ρ) : Consumer σ ε ρ :=
  match c.current, c.prefetched with
  | none, m :: rest => { prefetched := rest, current := some (m, handler m.body) }
  | _, _ => c

def step (B : Delivery σ ε ρ) : DeliveryAction σ ρ → Delivery σ ε ρ
  | .publish body =>
      { B with
        published := B.published + 1
        queue := B.queue ++ [{ number := B.published, body := body }] }
  | .start => { B with consumer := some (B.consumer.getD {}) }
  | .deliver n =>
      match B.consumer with
      | none => B
      | some c =>
          { B with
            queue := B.queue.drop n
            consumer := some
              { c with prefetched := c.prefetched ++ B.queue.take n } }
  | .begin => { B with consumer := B.consumer.map (beginConsumer handler) }
  | .step =>
      match B.consumer with
      | none => B
      | some c => B.stepConsumer c
  | .die => { B with consumer := none }
  | .meanwhile effect => { B with state := effect B.state }

/-- What the consumer holds, if there is one. -/
def inHands (B : Delivery σ ε ρ) : List ℕ :=
  (B.consumer.map Consumer.holds).getD []

/-- The messages in the queue, in the hands of the consumer, and handled. -/
def accounted (B : Delivery σ ε ρ) : List ℕ :=
  B.queue.map (·.number) ++ (B.inHands ++ B.finished)

/-- No message is in two of these places or twice in one. -/
structure Distinct (B : Delivery σ ε ρ) : Prop where
  nodup : B.accounted.Nodup
  published : ∀ k ∈ B.accounted, k < B.published

/-- Every published message is in one of these places. -/
def NoneLost (B : Delivery σ ε ρ) : Prop :=
  ∀ k < B.published, k ∈ B.accounted

/-- The action ends the process. -/
def Ends (B : Delivery σ ε ρ) : DeliveryAction σ ρ → Prop
  | .die => True
  | .step => ∃ c m x, B.consumer = some c ∧ c.current = some (m, .raised x)
  | _ => False

/-- If the action ends the process, it holds no message. -/
def EndsEmptyHanded (B : Delivery σ ε ρ) (a : DeliveryAction σ ρ) : Prop :=
  B.Ends a → B.inHands = []

variable {handler} {B : Delivery σ ε ρ}

/-! ## What an action does to the messages -/

theorem holds_beginConsumer (c : Consumer σ ε ρ) :
    (beginConsumer handler c).holds = c.holds := by
  obtain ⟨prefetched, current⟩ := c
  cases current with
  | some running => rfl
  | none => cases prefetched <;> rfl

/-- The process loses what it holds when it ends. -/
theorem accounted_of_ends {a : DeliveryAction σ ρ} (hends : B.Ends a) :
    ((B.step handler a).accounted ++ B.inHands).Perm B.accounted ∧
      (B.step handler a).published = B.published := by
  have hgone : ∀ B' : Delivery σ ε ρ, B'.queue = B.queue →
      B'.consumer = none → B'.finished = B.finished →
      (B'.accounted ++ B.inHands).Perm B.accounted := by
    intro B' hqueue hconsumer hfinished
    rw [accounted, accounted, hqueue, hfinished, inHands, hconsumer]
    simp only [Option.map_none, Option.getD_none, List.nil_append,
      List.append_assoc]
    exact List.perm_append_comm.append_left _
  cases a with
  | die => exact ⟨hgone _ rfl rfl rfl, rfl⟩
  | step =>
      obtain ⟨c, m, x, hconsumer, hcurrent⟩ := hends
      have hstep : B.step handler .step = { B with consumer := none } := by
        simp [Delivery.step, hconsumer, stepConsumer, hcurrent]
      rw [hstep]
      exact ⟨hgone _ rfl rfl rfl, rfl⟩
  | _ => exact hends.elim

theorem perm_accounted {B' : Delivery σ ε ρ} (hqueue : B'.queue = B.queue)
    (h : (B'.inHands ++ B'.finished).Perm (B.inHands ++ B.finished)) :
    B'.accounted.Perm B.accounted := by
  rw [accounted, accounted, hqueue]
  exact h.append_left _

/-- A step of a process that does not end moves at most one message. -/
theorem accounted_stepConsumer {c : Consumer σ ε ρ}
    (hconsumer : B.consumer = some c)
    (hlives : ∀ m x, c.current ≠ some (m, .raised x)) :
    (B.stepConsumer c).accounted.Perm B.accounted ∧
      (B.stepConsumer c).published = B.published := by
  obtain ⟨prefetched, current⟩ := c
  match current with
  | none => exact ⟨.refl _, rfl⟩
  | some (m, .raised x) => exact absurd rfl (hlives m x)
  | some (m, .atomic effect next) =>
      refine ⟨perm_accounted rfl ?_, rfl⟩
      rw [inHands, inHands, hconsumer]
      rfl
  | some (m, .done a) =>
      refine ⟨perm_accounted rfl ?_, rfl⟩
      rw [inHands, inHands, hconsumer]
      simp only [stepConsumer, Option.map_some, Option.getD_some,
        Consumer.holds, Option.toList_none, Option.toList_some, List.map_nil,
        List.map_cons, List.nil_append, List.cons_append]
      rw [← List.append_assoc]
      exact List.perm_append_singleton _ _

/-- The number that a publication uses up. -/
def newNumbers (B : Delivery σ ε ρ) : DeliveryAction σ ρ → List ℕ
  | .publish _ => [B.published]
  | _ => []

/-- As long as the process does not end, no message gets lost. -/
theorem accounted_of_not_ends {a : DeliveryAction σ ρ} (hends : ¬B.Ends a) :
    (B.step handler a).accounted.Perm (B.newNumbers a ++ B.accounted) ∧
      (B.step handler a).published =
        B.published + (B.newNumbers a).length := by
  cases a with
  | publish body =>
      refine ⟨?_, rfl⟩
      simp only [Delivery.step, accounted, newNumbers, inHands, List.map_append,
        List.map_cons, List.map_nil, List.append_assoc]
      exact List.perm_middle
  | start =>
      refine ⟨perm_accounted rfl ?_, rfl⟩
      simp only [Delivery.step, inHands]
      cases B.consumer <;> exact .refl _
  | deliver n =>
      simp only [Delivery.step]
      cases hconsumer : B.consumer with
      | none => exact ⟨.refl _, rfl⟩
      | some c =>
          refine ⟨?_, rfl⟩
          rw [List.perm_iff_count]
          intro k
          have hqueue : ((B.queue.take n).map (·.number)).count k +
              ((B.queue.drop n).map (·.number)).count k =
                (B.queue.map (·.number)).count k := by
            rw [← List.count_append, ← List.map_append,
              List.take_append_drop]
          simp only [accounted, newNumbers, inHands, hconsumer,
            Option.map_some, Option.getD_some, Consumer.holds,
            List.map_append, List.count_append, List.nil_append]
          omega
  | begin =>
      refine ⟨perm_accounted rfl ?_, rfl⟩
      simp only [Delivery.step, inHands, Option.map_map, Function.comp_def,
        holds_beginConsumer]
      exact .refl _
  | step =>
      simp only [Delivery.step]
      cases hconsumer : B.consumer with
      | none => exact ⟨.refl _, rfl⟩
      | some c =>
          apply accounted_stepConsumer hconsumer
          intro m x hcurrent
          exact hends ⟨c, m, x, hconsumer, hcurrent⟩
  | die => exact absurd trivial hends
  | meanwhile effect => exact ⟨.refl _, rfl⟩

/-! ## Runs -/

theorem Distinct.step (h : B.Distinct) (a : DeliveryAction σ ρ) :
    (B.step handler a).Distinct := by
  by_cases hends : B.Ends a
  · obtain ⟨hperm, hpublished⟩ := accounted_of_ends hends
    have hnodup := hperm.nodup_iff.mpr h.nodup
    refine ⟨(List.nodup_append.mp hnodup).1, ?_⟩
    intro k hk
    rw [hpublished]
    exact h.published k (hperm.mem_iff.mp (List.mem_append_left _ hk))
  · obtain ⟨hperm, hpublished⟩ :=
      accounted_of_not_ends hends
    have hnew : (B.newNumbers a ++ B.accounted).Nodup ∧
        ∀ k ∈ B.newNumbers a ++ B.accounted,
          k < B.published + (B.newNumbers a).length := by
      cases a with
      | publish body =>
          have hfresh : B.published ∉ B.accounted := by
            intro hmem
            exact Nat.lt_irrefl _ (h.published _ hmem)
          refine ⟨List.nodup_cons.mpr ⟨hfresh, h.nodup⟩, ?_⟩
          intro k hk
          rcases List.mem_cons.mp hk with rfl | hk
          · exact Nat.lt_succ_self _
          · exact Nat.lt_succ_of_lt (h.published k hk)
      | _ => exact ⟨h.nodup, h.published⟩
    refine ⟨hperm.nodup_iff.mpr hnew.1, ?_⟩
    intro k hk
    rw [hpublished]
    exact hnew.2 k (hperm.mem_iff.mp hk)

/-- An action loses no message exactly if the process does not end with one in
its hands. -/
theorem Distinct.noneLost_iff (h : B.Distinct) (hkept : B.NoneLost)
    (a : DeliveryAction σ ρ) :
    (B.step handler a).NoneLost ↔ B.EndsEmptyHanded a := by
  by_cases hends : B.Ends a
  · obtain ⟨hperm, hpublished⟩ := accounted_of_ends hends
    have hnodup := hperm.nodup_iff.mpr h.nodup
    constructor
    · intro hafter _
      rw [List.eq_nil_iff_forall_not_mem]
      intro k hk
      have hbefore := hperm.mem_iff.mp (List.mem_append_right _ hk)
      have hstill : k ∈ (B.step handler a).accounted := by
        apply hafter
        rw [hpublished]
        exact h.published k hbefore
      exact (List.nodup_append.mp hnodup).2.2 k hstill k hk rfl
    · intro hempty k hk
      rw [hempty hends, List.append_nil] at hperm
      rw [hpublished] at hk
      exact hperm.mem_iff.mpr (hkept k hk)
  · obtain ⟨hperm, hpublished⟩ :=
      accounted_of_not_ends hends
    refine iff_of_true ?_ (fun h => absurd h hends)
    intro k hk
    rw [hpublished] at hk
    rw [hperm.mem_iff]
    by_cases hold : k < B.published
    · exact List.mem_append_right _ (hkept k hold)
    · refine List.mem_append_left _ ?_
      cases a with
      | publish body =>
          have hlast : k = B.published := by
            simp only [newNumbers, List.length_singleton] at hk
            omega
          exact List.mem_singleton.mpr hlast
      | _ => exact absurd hk hold

/-- No message returns to the queue. -/
theorem left_queue_step {k : ℕ} (hk : k < B.published)
    (hleft : k ∉ B.queue.map (·.number)) (a : DeliveryAction σ ρ) :
    k < (B.step handler a).published ∧
      k ∉ (B.step handler a).queue.map (·.number) := by
  cases a with
  | publish body =>
      refine ⟨Nat.lt_succ_of_lt hk, ?_⟩
      simp only [Delivery.step, List.map_append, List.map_cons, List.map_nil,
        List.mem_append, List.mem_singleton, not_or]
      exact ⟨hleft, Nat.ne_of_lt hk⟩
  | deliver n =>
      simp only [Delivery.step]
      cases B.consumer with
      | none => exact ⟨hk, hleft⟩
      | some c =>
          refine ⟨hk, fun hmem => hleft ?_⟩
          exact ((List.drop_sublist n B.queue).map _).subset hmem
  | step =>
      simp only [Delivery.step]
      cases B.consumer with
      | none => exact ⟨hk, hleft⟩
      | some c =>
          simp only [stepConsumer]
          split <;> exact ⟨hk, hleft⟩
  | _ => exact ⟨hk, hleft⟩

variable (handler)

/-- Nothing has been published and no process runs. -/
def idle (s : σ) : Delivery σ ε ρ where
  state := s

theorem distinct_idle (s : σ) : (idle s : Delivery σ ε ρ).Distinct :=
  ⟨List.nodup_nil, by simp [accounted, idle, inHands]⟩

theorem distinct_throughout (s : σ) (actions : List (DeliveryAction σ ρ)) :
    Throughout (step handler) Distinct (idle s) actions :=
  throughout_iff.mpr fun before _ _ =>
    runAll_invariant (fun _ a h => h.step a) (distinct_idle s) before

theorem noneLost_throughout_iff (s : σ) (actions : List (DeliveryAction σ ρ)) :
    Throughout (step handler) NoneLost (idle s) actions ↔
      Along (step handler) EndsEmptyHanded (idle s) actions :=
  throughout_iff_along (J := Distinct) (fun _ a h => h.step a)
    (fun _ a h hkept => h.noneLost_iff hkept a) (distinct_idle s)
    (fun k hk => absurd hk (Nat.not_lt_zero k)) actions

theorem left_queue_runAll {k : ℕ} (hk : k < B.published)
    (hleft : k ∉ B.queue.map (·.number)) (actions : List (DeliveryAction σ ρ)) :
    k ∉ (runAll (step handler) B actions).queue.map (·.number) :=
  (runAll_invariant
    (I := fun B : Delivery σ ε ρ =>
      k < B.published ∧ k ∉ B.queue.map (·.number))
    (fun _ a h => left_queue_step h.1 h.2 a) ⟨hk, hleft⟩ actions).2

end Delivery

end LambdaOnOpenStack.Support
