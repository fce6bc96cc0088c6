import LambdaOnOpenStack.Registry.Messages
import LambdaOnOpenStack.Support.Delivery

/-!
# The queue of events

`send_event` publishes a payload to the queue, and the listener consumes it
with `no_ack=True`: the queue forgets an event as soon as it has delivered it,
and may deliver many before the callback for the first one returns.
-/

namespace LambdaOnOpenStack

open Support

/-- What `callback` does with the body of a message. -/
def handleBody (P : Platform) (loads : Bytes → Except Failure Value)
    (body : Bytes) : Handler Unit :=
  callback P loads (some body)

/-- The queue `lambda Queue` and the listener. -/
abbrev EventQueue := Delivery World Failure Bytes

/-- An event is published, the listener is started, the broker delivers the
first events of the queue, the listener begins with an event, takes a step or
dies; meanwhile others change the world. -/
abbrev QueueAction := DeliveryAction World Bytes

abbrev queueStep (P : Platform) (loads : Bytes → Except Failure Value) :
    EventQueue → QueueAction → EventQueue :=
  Delivery.step (handleBody P loads)

/-- Every published event is still in the queue, or its callback has been run
to its end. -/
def QueuedOrHandled (B : EventQueue) : Prop :=
  ∀ k < B.published, k ∈ B.queue.map (·.number) ∨ k ∈ B.finished

/-- Events are delivered at most once.  At any time those in the queue, those
in the hands of the listener and those handled are pairwise different, and an
event that has left the queue never returns to it.  All published events are
among them at any time exactly if the listener never ends with events in its
hands. -/
theorem events_delivered_at_most_once (P : Platform)
    (loads : Bytes → Except Failure Value) (w : World)
    (actions : List QueueAction) :
    Throughout (queueStep P loads) Delivery.Distinct (.idle w) actions ∧
      (∀ before after k, actions = before ++ after →
        k < (runAll (queueStep P loads) (.idle w) before).published →
        k ∉ (runAll (queueStep P loads) (.idle w) before).queue.map (·.number) →
        k ∉ (runAll (queueStep P loads) (.idle w) actions).queue.map
          (·.number)) ∧
      (Throughout (queueStep P loads) Delivery.NoneLost (.idle w) actions ↔
        Along (queueStep P loads) Delivery.EndsEmptyHanded (.idle w)
          actions) := by
  refine ⟨Delivery.distinct_throughout _ w actions, ?_,
    Delivery.noneLost_throughout_iff _ w actions⟩
  rintro before after k rfl hpublished hleft
  rw [runAll_append]
  exact Delivery.left_queue_runAll _ hpublished hleft after

/-- Two events are delivered, and the listener dies while it handles the first
one. -/
def diesInBetween : List QueueAction :=
  [.start, .publish (sampleBody "S1"), .publish (sampleBody "S1"), .deliver 2,
    .begin, .step, .step, .step, .die, .start]

theorem after_diesInBetween :
    let B := runAll (queueStep default asciiLoads) (.idle oneFunction)
      diesInBetween
    B.published = 2 ∧ B.queue.map (·.number) = [] ∧ B.finished = [] := by
  decide +kernel

/-- Both events are gone. -/
theorem events_lost :
    ¬QueuedOrHandled
      (runAll (queueStep default asciiLoads) (.idle oneFunction)
        diesInBetween) := by
  intro hkept
  obtain ⟨hpublished, hqueue, hfinished⟩ := after_diesInBetween
  have hfirst := hkept 0 (by rw [hpublished]; decide)
  rw [hqueue, hfinished] at hfirst
  simp at hfirst

end LambdaOnOpenStack
