import LambdaOnOpenStack.Support.Contributions
import LambdaOnOpenStack.Support.Delivery

/-!
# A consumer beside other programs

The consumer of a queue handles one message after another, may die in between
and be started again, while programs for requests take their steps beside it.
If each message is handled as some request would be, then the consumer adds
nothing to what interleaved requests can do: a message with which it begins is a
request that arrives, and one that it loses is a request that takes no further
step.
-/

namespace LambdaOnOpenStack.Support

variable {σ ε α β ρ : Type}

/-! ## Messages that wait -/

namespace Delivery

variable {message : β → Program σ ε Unit} {B : Delivery σ ε β}

/-- The messages with which the consumer has still to begin. -/
def waiting (B : Delivery σ ε β) : List β :=
  (B.consumer.elim [] fun c => c.prefetched.map (·.body)) ++
    B.queue.map (·.body)

/-- The message with which the action begins. -/
def begins (B : Delivery σ ε β) : DeliveryAction σ β → List β
  | .begin =>
      match B.consumer with
      | some { prefetched := m :: _, current := none } => [m.body]
      | _ => []
  | _ => []

/-- The message that the action publishes. -/
def publishes : DeliveryAction σ β → List β
  | .publish body => [body]
  | _ => []

theorem waiting_begin (message : β → Program σ ε Unit) (B : Delivery σ ε β) :
    B.begins .begin ++ (B.step message .begin).waiting = B.waiting := by
  obtain ⟨state, number, queue, consumer, finished⟩ := B
  match consumer with
  | none => rfl
  | some { prefetched := [], current := none } => rfl
  | some { prefetched := m :: rest, current := none } => rfl
  | some { prefetched := [], current := some running } => rfl
  | some { prefetched := m :: rest, current := some running } => rfl

/-- The consumer goes on with its program, or begins with one. -/
theorem current_begin {current : Message β × Program σ ε Unit}
    (hget : (B.step message .begin).consumer.bind (·.current) = some current) :
    B.consumer.bind (·.current) = some current ∨
      ∃ body ∈ B.begins .begin, current.2 = message body := by
  obtain ⟨state, number, queue, consumer, finished⟩ := B
  match consumer with
  | none => exact .inl hget
  | some { prefetched := [], current := none } => exact .inl hget
  | some { prefetched := [], current := some running } => exact .inl hget
  | some { prefetched := m :: rest, current := some running } => exact .inl hget
  | some { prefetched := m :: rest, current := none } =>
      obtain rfl : (m, message m.body) = current := Option.some.inj hget
      exact .inr ⟨m.body, List.mem_singleton_self _, rfl⟩

/-- The consumer takes a step of its program, or changes no state and has at most
the program that it had. -/
theorem current_step (message : β → Program σ ε Unit) (B : Delivery σ ε β) :
    ((B.step message .step).state = B.state ∧
        ∀ current, (B.step message .step).consumer.bind (·.current) = some current →
          B.consumer.bind (·.current) = some current) ∨
      ∃ m effect next, B.consumer.bind (·.current) = some (m, .atomic effect next) ∧
        (B.step message .step).state = effect B.state ∧
          (B.step message .step).consumer.bind (·.current) =
            some (m, next B.state) := by
  obtain ⟨state, number, queue, consumer, finished⟩ := B
  match consumer with
  | none => exact .inl ⟨rfl, fun _ hget => hget⟩
  | some { prefetched, current := none } => exact .inl ⟨rfl, fun _ hget => hget⟩
  | some { prefetched, current := some (m, .done a) } =>
      exact .inl ⟨rfl, fun _ hget => nomatch hget⟩
  | some { prefetched, current := some (m, .raised x) } =>
      exact .inl ⟨rfl, fun _ hget => nomatch hget⟩
  | some { prefetched, current := some (m, .atomic effect next) } =>
      exact .inr ⟨m, effect, next, rfl, rfl, rfl⟩

/-- An action begins with the first of the messages that wait, if with any, and
may lose some of them. -/
theorem sublist_waiting (message : β → Program σ ε Unit) (a : DeliveryAction σ β) :
    (B.begins a ++ (B.step message a).waiting).Sublist
      (B.waiting ++ publishes a) := by
  cases a with
  | publish body =>
      have hwaiting : (B.step message (.publish body)).waiting =
          B.waiting ++ [body] := by
        simp [waiting, step]
      simp [begins, publishes, hwaiting]
  | start =>
      have hwaiting : (B.step message .start).waiting = B.waiting := by
        simp only [waiting, step]
        cases B.consumer <;> rfl
      simp [begins, publishes, hwaiting]
  | deliver n =>
      have hwaiting : (B.step message (.deliver n)).waiting = B.waiting := by
        simp only [waiting, step]
        cases hconsumer : B.consumer with
        | none => simp [hconsumer]
        | some c =>
            simp only [Option.elim_some, List.map_append, List.append_assoc]
            rw [← List.map_append, List.take_append_drop]
      simp [begins, publishes, hwaiting]
  | begin => simp [publishes, waiting_begin]
  | step =>
      have hwaiting : (B.step message .step).waiting.Sublist B.waiting := by
        simp only [waiting, step]
        cases hconsumer : B.consumer with
        | none => simp [hconsumer]
        | some c =>
            simp only [stepConsumer]
            split <;> simp [hconsumer]
      simpa [begins, publishes] using hwaiting
  | die => simp [begins, publishes, waiting, step]
  | meanwhile effect => simp [begins, publishes, waiting, step]

end Delivery

/-! ## Services -/

/-- A queue with its consumer, and what is left of the programs for requests. -/
structure Services (σ ε α β : Type) where
  delivery : Delivery σ ε β
  others : List (Program σ ε α) := []

/-- A message is published, the consumer is started, gets the first `n` messages,
begins with one, takes a step or dies; a request arrives or takes a step. -/
inductive ServiceAction (β ρ : Type) where
  | publish (body : β)
  | start
  | deliver (n : ℕ)
  | begin
  | consume
  | die
  | arrive (request : ρ)
  | other (i : ℕ)

namespace Services

variable (message : β → Program σ ε Unit) (handler : ρ → Program σ ε α)

/-- What the action is for the queue: a step of a request changes the state. -/
def toDelivery (S : Services σ ε α β) :
    ServiceAction β ρ → DeliveryAction σ β
  | .publish body => .publish body
  | .start => .start
  | .deliver n => .deliver n
  | .begin => .begin
  | .consume => .step
  | .die => .die
  | .arrive _ => .meanwhile id
  | .other i => .meanwhile fun s => (S.others[i]?.elim s fun p => (p.step s).2)

def step (S : Services σ ε α β) (action : ServiceAction β ρ) :
    Services σ ε α β where
  delivery := S.delivery.step message (S.toDelivery action)
  others :=
    match action with
    | .arrive request => S.others ++ [handler request]
    | .other i =>
        match S.others[i]? with
        | none => S.others
        | some p => S.others.set i (p.step S.delivery.state).1
    | _ => S.others

/-- Nothing has been published, no process runs and no request has arrived. -/
def idle (s : σ) : Services σ ε α β where
  delivery := .idle s

/-- The request or the message with which the action begins. -/
def begins (S : Services σ ε α β) : ServiceAction β ρ → List (ρ ⊕ β)
  | .arrive request => [.inl request]
  | action => (S.delivery.begins (S.toDelivery action)).map .inr

/-- The requests and messages with which a run begins, in their order. -/
def begun : Services σ ε α β → List (ServiceAction β ρ) → List (ρ ⊕ β)
  | _, [] => []
  | S, action :: rest =>
      S.begins action ++ begun (S.step message handler action) rest

/-- The messages that are published, in their order. -/
def published (actions : List (ServiceAction β ρ)) : List β :=
  actions.filterMap fun action =>
    match action with
    | .publish body => some body
    | _ => none

variable {message handler} {S : Services σ ε α β}

/-! ## The order of the messages -/

theorem bodies_begins (action : ServiceAction β ρ) :
    (S.begins action).filterMap Sum.getRight? =
      S.delivery.begins (S.toDelivery action) := by
  cases action <;> simp [begins, toDelivery, Delivery.begins, Function.comp_def]

theorem publishes_toDelivery (action : ServiceAction β ρ) :
    Delivery.publishes (S.toDelivery action) = published [action] := by
  cases action <;> rfl

/-- The consumer begins with messages in the order in which they have been
published, with each of them at most once. -/
theorem sublist_begun (actions : List (ServiceAction β ρ)) :
    ((begun message handler S actions).filterMap Sum.getRight?).Sublist
      (S.delivery.waiting ++ published actions) := by
  induction actions generalizing S with
  | nil => simp [begun]
  | cons action rest ih =>
      have hfirst := Delivery.sublist_waiting (B := S.delivery) message
        (S.toDelivery action)
      rw [publishes_toDelivery] at hfirst
      have hsplit : published (action :: rest) =
          published [action] ++ published rest := by
        rw [published, published, published, ← List.filterMap_append]
        rfl
      rw [begun, List.filterMap_append, bodies_begins, hsplit, ← List.append_assoc]
      refine .trans (ih.append_left _) ?_
      rw [← List.append_assoc]
      exact hfirst.append_right _

theorem sublist_begun_idle (s : σ) (actions : List (ServiceAction β ρ)) :
    ((begun message handler (idle s) actions).filterMap Sum.getRight?).Sublist
      (published actions) :=
  sublist_begun actions

theorem mem_published {actions : List (ServiceAction β ρ)} {body : β} :
    body ∈ published actions ↔ .publish body ∈ actions := by
  rw [published, List.mem_filterMap]
  constructor
  · rintro ⟨action, haction, hbody⟩
    cases action with
    | publish body' =>
        obtain rfl := Option.some.inj hbody
        exact haction
    | _ => cases hbody
  · intro h
    exact ⟨_, h, rfl⟩

/-! ## Services as interleaved programs -/

section Interleaved

open Program

variable {γ κ : Type} {handler' : κ → Program σ ε α} {reply : α}
  {ofRequest : ρ → κ} {ofMessage : β → Option κ} {T : System σ ε γ α}

/-- Each request, and each message that does not end the consumer at once, is
handled as a request of the system, which replies `reply` to a message. -/
structure HandledBy (message : β → Program σ ε Unit) (handler : ρ → Program σ ε α)
    (handler' : κ → Program σ ε α) (reply : α) (ofRequest : ρ → κ)
    (ofMessage : β → Option κ) : Prop where
  request : ∀ request, handler' (ofRequest request) = handler request
  handled : ∀ body k, ofMessage body = some k →
    handler' k = message body >>= fun _ => .done reply
  refused : ∀ body, ofMessage body = none → ∃ x, message body = .raised x

/-- The program of a request for what is left of the program of a message. -/
def replying (reply : α) : Program σ ε Unit → List (Program σ ε α)
  | .raised _ => []
  | p => [p >>= fun _ => .done reply]

/-- The program that the consumer executes. -/
def running (reply : α) (S : Services σ ε α β) : List (Program σ ε α) :=
  (S.delivery.consumer.bind (·.current)).elim [] fun current =>
    replying reply current.2

/-- The system is in the same state and has the same programs, besides some that
the consumer has lost. -/
structure Mirrors (reply : α) (S : Services σ ε α β) (T : System σ ε γ α) :
    Prop where
  state : T.state = S.delivery.state
  others : ∃ lost, T.others.Perm (S.others ++ (S.running reply ++ lost))

/-- The requests of the system for the requests and messages of a run. -/
def asRequests (ofRequest : ρ → κ) (ofMessage : β → Option κ)
    (begun : List (ρ ⊕ β)) : List κ :=
  begun.filterMap (Sum.elim (fun request => some (ofRequest request)) ofMessage)

theorem exists_perm_replying (reply : α) (p : Program σ ε Unit)
    (lost : List (Program σ ε α)) :
    ∃ lost', ((p >>= fun _ => .done reply) :: lost).Perm
      (replying reply p ++ lost') := by
  cases p with
  | raised x => exact ⟨.raised x :: lost, .refl _⟩
  | done a => exact ⟨lost, .refl _⟩
  | atomic effect next => exact ⟨lost, .refl _⟩

/-- One of the programs takes a step. -/
theorem exists_step_other (handler' : κ → Program σ ε α) {p : Program σ ε α}
    {rest : List (Program σ ε α)} (hothers : T.others.Perm (p :: rest)) :
    ∃ i, (T.step handler' (.other i)).state = (p.step T.state).2 ∧
      (T.step handler' (.other i)).others.Perm ((p.step T.state).1 :: rest) := by
  have hmem : p ∈ T.others := hothers.mem_iff.mpr (List.mem_cons_self ..)
  obtain ⟨i, hget⟩ := List.getElem?_of_mem hmem
  obtain ⟨hlt, hp⟩ := List.getElem?_eq_some_iff.mp hget
  have hrest : (T.others.eraseIdx i).Perm rest := by
    have herase := (List.getElem_cons_eraseIdx_perm hlt).trans hothers
    rw [hp] at herase
    exact herase.cons_inv
  refine ⟨i, by simp [System.step, hget], ?_⟩
  simp only [System.step, hget]
  exact (List.set_perm_cons_eraseIdx hlt _).trans (hrest.cons _)

/-- The system waits while the consumer loses what it does or does nothing. -/
theorem Mirrors.of_waiting (h : S.Mirrors reply T) {S' : Services σ ε α β}
    (hstate : S'.delivery.state = S.delivery.state) (hothers : S'.others = S.others)
    (hrunning : S'.running reply = S.running reply ∨ S'.running reply = []) :
    S'.Mirrors reply T := by
  obtain ⟨lost, hlost⟩ := h.others
  refine ⟨h.state.trans hstate.symm, ?_⟩
  rw [hothers]
  rcases hrunning with hrunning | hrunning
  · exact ⟨lost, hrunning ▸ hlost⟩
  · exact ⟨S.running reply ++ lost, hrunning ▸ hlost⟩

/-- The program of the consumer takes a step. -/
theorem Mirrors.consume (h : S.Mirrors reply T) :
    ∃ moves : List (Move κ),
      (S.step message handler .consume).Mirrors reply
          (runAll (System.step handler') T moves) ∧ arrivals moves = [] := by
  obtain ⟨⟨state, number, queue, consumer, finished⟩, others⟩ := S
  match consumer with
  | none => exact ⟨[], h.of_waiting rfl rfl (.inl rfl), rfl⟩
  | some { prefetched, current := none } =>
      exact ⟨[], h.of_waiting rfl rfl (.inl rfl), rfl⟩
  | some { prefetched, current := some (m, .done a) } =>
      exact ⟨[], h.of_waiting rfl rfl (.inr rfl), rfl⟩
  | some { prefetched, current := some (m, .raised x) } =>
      exact ⟨[], h.of_waiting rfl rfl (.inr rfl), rfl⟩
  | some { prefetched, current := some (m, .atomic effect next) } =>
      obtain ⟨lost, hlost⟩ := h.others
      have hfirst : T.others.Perm
          ((.atomic effect next >>= fun _ => .done reply) :: (others ++ lost)) :=
        hlost.trans List.perm_middle
      obtain ⟨i, hstate, hothers⟩ := exists_step_other handler' hfirst
      obtain ⟨lost', hlost'⟩ := exists_perm_replying reply (next T.state) lost
      have hstep : T.state = state := h.state
      refine ⟨[.other i], ⟨?_, lost', ?_⟩, rfl⟩
      · rw [hstep] at hstate
        exact hstate
      · rw [hstep] at hlost' hothers
        exact hothers.trans (List.perm_middle.symm.trans (hlost'.append_left _))

/-- The consumer begins with a message as a request arrives. -/
theorem Mirrors.begin (h : S.Mirrors reply T)
    (hhandled : HandledBy message handler handler' reply ofRequest ofMessage) :
    ∃ moves : List (Move κ),
      (S.step message handler .begin).Mirrors reply
          (runAll (System.step handler') T moves) ∧
        arrivals moves = asRequests ofRequest ofMessage (S.begins .begin) := by
  obtain ⟨⟨state, number, queue, consumer, finished⟩, others⟩ := S
  match consumer with
  | none => exact ⟨[], h.of_waiting rfl rfl (.inl rfl), rfl⟩
  | some { prefetched := [], current := some running } =>
      exact ⟨[], h.of_waiting rfl rfl (.inl rfl), rfl⟩
  | some { prefetched := m :: rest, current := some running } =>
      exact ⟨[], h.of_waiting rfl rfl (.inl rfl), rfl⟩
  | some { prefetched := [], current := none } =>
      exact ⟨[], h.of_waiting rfl rfl (.inl rfl), rfl⟩
  | some { prefetched := m :: rest, current := none } =>
      have hbegins : asRequests ofRequest ofMessage [.inr m.body] =
          (ofMessage m.body).toList := by
        cases hk : ofMessage m.body <;> simp [asRequests, hk]
      cases hk : ofMessage m.body with
      | none =>
          obtain ⟨x, hx⟩ := hhandled.refused m.body hk
          refine ⟨[], h.of_waiting rfl rfl (.inr ?_), ?_⟩
          · simp [running, step, toDelivery, Delivery.step, Delivery.beginConsumer,
              hx, replying]
          · rw [hk] at hbegins
            exact hbegins.symm
      | some k =>
          obtain ⟨lost, hlost⟩ := h.others
          obtain ⟨lost', hlost'⟩ := exists_perm_replying reply (message m.body) lost
          refine ⟨[.arrive k], ⟨h.state, lost', ?_⟩, ?_⟩
          · have hbefore : T.others.Perm (others ++ lost) := hlost
            change (T.others ++ [handler' k]).Perm _
            rw [hhandled.handled _ _ hk]
            refine (List.perm_append_singleton _ _).trans ?_
            refine (hbefore.cons _).trans ?_
            exact List.perm_middle.symm.trans (hlost'.append_left _)
          · rw [hk] at hbegins
            exact hbegins.symm

/-- A request takes a step. -/
theorem Mirrors.other (h : S.Mirrors reply T) (i : ℕ) :
    ∃ moves : List (Move κ),
      (S.step message handler (.other i)).Mirrors reply
          (runAll (System.step handler') T moves) ∧ arrivals moves = [] := by
  cases hget : S.others[i]? with
  | none =>
      refine ⟨[], h.of_waiting ?_ ?_ (.inl rfl), rfl⟩
      · simp [step, toDelivery, Delivery.step, hget]
      · simp [step, hget]
  | some p =>
      obtain ⟨lost, hlost⟩ := h.others
      obtain ⟨hlt, hp⟩ := List.getElem?_eq_some_iff.mp hget
      have hfirst : T.others.Perm
          (p :: (S.others.eraseIdx i ++ (S.running reply ++ lost))) := by
        have hothers := List.getElem_cons_eraseIdx_perm hlt
        rw [hp] at hothers
        exact hlost.trans (hothers.symm.append_right _)
      obtain ⟨j, hstate, hothers⟩ := exists_step_other handler' hfirst
      refine ⟨[.other j], ⟨?_, lost, ?_⟩, rfl⟩
      · simpa [step, toDelivery, Delivery.step, hget, h.state] using hstate
      · have hset := List.set_perm_cons_eraseIdx hlt (p.step T.state).1
        rw [h.state] at hset hothers
        simp only [step, hget]
        exact hothers.trans (hset.symm.append_right _)

/-- Whatever is done next, the system can do. -/
theorem Mirrors.step (h : S.Mirrors reply T)
    (hhandled : HandledBy message handler handler' reply ofRequest ofMessage)
    (action : ServiceAction β ρ) :
    ∃ moves : List (Move κ),
      (S.step message handler action).Mirrors reply
          (runAll (System.step handler') T moves) ∧
        arrivals moves = asRequests ofRequest ofMessage (S.begins action) := by
  cases action with
  | begin => exact h.begin hhandled
  | consume => exact h.consume
  | other i => exact h.other i
  | publish body => exact ⟨[], h.of_waiting rfl rfl (.inl rfl), rfl⟩
  | start =>
      refine ⟨[], h.of_waiting rfl rfl (.inl ?_), rfl⟩
      simp only [running, Services.step, toDelivery, Delivery.step]
      cases S.delivery.consumer <;> rfl
  | deliver n =>
      have hdeliver : (S.delivery.step message (.deliver n)).state =
          S.delivery.state ∧
          (S.delivery.step message (.deliver n)).consumer.bind (·.current) =
            S.delivery.consumer.bind (·.current) := by
        simp only [Delivery.step]
        cases hconsumer : S.delivery.consumer <;> simp [hconsumer]
      refine ⟨[], h.of_waiting hdeliver.1 rfl (.inl ?_), rfl⟩
      simp only [running, Services.step, toDelivery, hdeliver.2]
  | die => exact ⟨[], h.of_waiting rfl rfl (.inr rfl), rfl⟩
  | arrive request =>
      obtain ⟨lost, hlost⟩ := h.others
      refine ⟨[.arrive (ofRequest request)], ⟨h.state, lost, ?_⟩, rfl⟩
      change (T.others ++ [handler' (ofRequest request)]).Perm
        (S.others ++ [handler request] ++ (S.running reply ++ lost))
      rw [hhandled.request, List.append_assoc]
      refine (hlost.append_right _).trans ?_
      rw [List.append_assoc]
      exact List.perm_append_comm.append_left _

/-- Whatever the services do, the system can do with the requests and messages
with which they begin. -/
theorem Mirrors.runAll (h : S.Mirrors reply T)
    (hhandled : HandledBy message handler handler' reply ofRequest ofMessage)
    (actions : List (ServiceAction β ρ)) :
    ∃ moves : List (Move κ),
      (runAll (Services.step message handler) S actions).Mirrors reply
          (runAll (System.step handler') T moves) ∧
        arrivals moves =
          asRequests ofRequest ofMessage (begun message handler S actions) := by
  induction actions generalizing S T with
  | nil => exact ⟨[], h, rfl⟩
  | cons action rest ih =>
      obtain ⟨first, hfirst, harrive⟩ := h.step hhandled action
      obtain ⟨moves, hmirrors, harrivals⟩ := ih hfirst
      refine ⟨first ++ moves, ?_, ?_⟩
      · rw [runAll_append]
        exact hmirrors
      · rw [arrivals_append, harrive, harrivals, begun, asRequests, asRequests,
          asRequests, List.filterMap_append]

/-- Every state that the services reach is one that interleaved requests reach. -/
theorem exists_moves (hothers : T.others = [])
    (hhandled : HandledBy message handler handler' reply ofRequest ofMessage)
    (actions : List (ServiceAction β ρ)) :
    ∃ moves : List (Move κ),
      (Support.runAll (System.step handler') T moves).state =
          (Support.runAll (Services.step message handler) (idle T.state)
            actions).delivery.state ∧
        arrivals moves = asRequests ofRequest ofMessage
          (begun message handler (idle T.state) actions) := by
  have hidle : (idle T.state : Services σ ε α β).Mirrors reply T :=
    ⟨rfl, [], by rw [hothers]; exact .refl _⟩
  obtain ⟨moves, hmirrors, harrivals⟩ := hidle.runAll hhandled actions
  exact ⟨moves, hmirrors.state, harrivals⟩

end Interleaved

end Services

end LambdaOnOpenStack.Support
