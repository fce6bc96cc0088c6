import LambdaOnOpenStack.Registry.Concurrency
import Mathlib.Algebra.Group.Prod
import Mathlib.Algebra.Order.Group.Multiset

/-!
# Where the runs come from

Requests and dispatches take their steps in any order.  Every run record, every
server request, every deployment and every worker belongs to one event that has
arrived, and what belongs to one event is what one dispatch makes of it, up to
the step that it has reached.
-/

namespace LambdaOnOpenStack

open Support Program

/-! ## What an event causes -/

/-- Run records, server requests, deployments and workers. -/
abbrev Effects :=
  Multiset RunRecord × Multiset ServerRequest ×
    Multiset (DeployRequest × String) × Multiset WorkerArgs

def World.effects (w : World) : Effects :=
  (w.inserted, w.serverRequests, w.deployed, w.workers)

namespace Event

variable (e : Event) (function_name memory : Value)

def serverRequest : ServerRequest where
  username := e.user_name
  image_name := "ubuntu-14.04"
  network_name := "test-network"
  server_name := "vm2"
  flavor_name := getFlavourName memory

def deployRequest : DeployRequest where
  server_name := "vm2"
  network_name := "test-network"
  username := e.user_name
  function_name := function_name
  memory := memory

end Event

/-- The record of a run that the event can start. -/
structure RunRecord.Answers (P : Platform) (e : Event) (record : RunRecord) :
    Prop where
  username : P.answers e.user_name record.username = true
  filename : P.answers e.filename record.filename = true
  eventsource : P.answers e.event_source record.eventsource = true
  numbered : 0 < record.sequence_count

/-- What a dispatch of the event has done so far: one step after another, and
each of them for the run that it has recorded. -/
inductive Causes (P : Platform) (e : Event) : Effects → Prop
  | nothing : Causes P e 0
  | recorded {record : RunRecord} (h : record.Answers P e) :
      Causes P e ({record}, 0, 0, 0)
  | requested {record : RunRecord} (h : record.Answers P e) (memory : Value) :
      Causes P e ({record}, {e.serverRequest memory}, 0, 0)
  | handedOver {record : RunRecord} (h : record.Answers P e)
      (function_name memory : Value) :
      Causes P e ({record}, {e.serverRequest memory},
        {(e.deployRequest function_name memory, record.log_uuid)}, 0)
  | started {record : RunRecord} (h : record.Answers P e)
      (function_name memory : Value) :
      Causes P e ({record}, {e.serverRequest memory},
        {(e.deployRequest function_name memory, record.log_uuid)},
        {{ fileName := function_name
           log_uuid := record.log_uuid
           memory := memory }})

/-- Requests of the web interface cause nothing. -/
def Request.Caused (P : Platform) : Request → Effects → Prop
  | .event params, c => c = 0 ∨ ∃ e, readEvent params = .ok e ∧ Causes P e c
  | _, c => c = 0

/-! ## The steps of a dispatch -/

section Dispatch

variable {P : Platform} {R : Effects → Prop} {α : Type}

/-- A record that is read matches the query. -/
theorem contributes_recordAt_bind {user functionName eventSource : Value}
    {p : MappingDoc → Handler α} (hzero : R 0)
    (hp : ∀ d : MappingDoc, P.answers user d.username = true →
      P.answers functionName d.filename = true →
      P.answers eventSource d.eventsource = true →
      (p d).Contributes World.effects R) :
    (recordAt P user functionName eventSource >>= p).Contributes World.effects
      R := by
  refine Contributes.query hzero (fun _ => rfl) ?_
  intro w
  change Contributes _ ((if _ then _ else _ : Handler MappingDoc) >>= p) _
  split
  · exact hzero
  · cases hlatest : w.registry.latestRecord P user functionName eventSource with
    | none => exact hzero
    | some d =>
        have hmatched := (List.mem_filter.mp (List.argmax_mem hlatest)).2
        simp only [Bool.and_eq_true] at hmatched
        exact hp d hmatched.1.1 hmatched.1.2 hmatched.2

theorem contributes_insertRecord_bind {record : RunRecord}
    {p : Unit → Handler α} (hzero : R 0)
    (hp : (p ()).Contributes World.effects fun rest =>
      R (({record}, 0, 0, 0) + rest)) :
    (insertRecord P record >>= p).Contributes World.effects R := by
  refine Contributes.modify_bind hzero (fun w => ?_) hp
  simp [World.effects, ← Multiset.coe_add]

theorem contributes_updateSequenceCount_bind {e : Event} {log_uuid : String}
    {p : Unit → Handler α} (hzero : R 0)
    (hp : ∀ record : RunRecord, record.Answers P e →
      record.log_uuid = log_uuid →
      (p ()).Contributes World.effects fun rest => R (({record}, 0, 0, 0) + rest)) :
    (updateSequenceCount P e.user_name e.filename e.event_source log_uuid >>=
      p).Contributes World.effects R := by
  simp only [updateSequenceCount, Program.bind_assoc]
  refine contributes_recordAt_bind hzero fun _ _ _ _ =>
    contributes_recordAt_bind hzero fun record _ _ _ => ?_
  split
  · simp only [Program.bind_assoc, Program.pure_eq, Program.done_bind]
    refine contributes_recordAt_bind hzero fun _ _ _ _ => ?_
    refine contributes_recordAt_bind hzero fun _ _ hfilename _ => ?_
    refine contributes_recordAt_bind hzero fun _ husername _ _ => ?_
    refine contributes_recordAt_bind hzero fun _ _ _ _ => ?_
    refine contributes_recordAt_bind hzero fun _ _ _ heventsource => ?_
    refine contributes_recordAt_bind hzero fun _ _ _ _ => ?_
    exact contributes_insertRecord_bind hzero (hp _
      ⟨husername, hfilename, heventsource, Nat.succ_pos _⟩ rfl)
  · simp only [Program.bind_assoc, Program.pure_eq, Program.done_bind]
    refine contributes_recordAt_bind hzero fun _ _ hfilename _ => ?_
    refine contributes_recordAt_bind hzero fun _ husername _ _ => ?_
    refine contributes_recordAt_bind hzero fun _ _ _ _ => ?_
    refine contributes_recordAt_bind hzero fun _ _ _ heventsource => ?_
    refine contributes_recordAt_bind hzero fun _ _ _ _ => ?_
    exact contributes_insertRecord_bind hzero (hp _
      ⟨husername, hfilename, heventsource, Nat.one_pos⟩ rfl)

/-- The run is handed over, and then its worker is started. -/
theorem contributes_deployAndExecuteDocker {request : DeployRequest}
    {log_uuid : String} (hzero : R 0)
    (hdeployed : R (0, 0, {(request, log_uuid)}, 0))
    (hstarted : R (0, 0, {(request, log_uuid)},
      {{ fileName := request.function_name
         log_uuid := log_uuid
         memory := request.memory }})) :
    (deployAndExecuteDocker P request log_uuid).Contributes World.effects R := by
  have hdeploy : ∀ w : World,
      World.effects { w with deployed := w.deployed ++ [(request, log_uuid)] } =
        w.effects + (0, 0, {(request, log_uuid)}, 0) := by
    intro w
    simp [World.effects, ← Multiset.coe_add]
  have hstart : ∀ (w : World) (args : WorkerArgs),
      World.effects { w with workers := w.workers ++ [args] } =
        w.effects + (0, 0, 0, {args}) := by
    intro w args
    simp [World.effects, ← Multiset.coe_add]
  refine Contributes.modify_bind hzero hdeploy ?_
  refine Contributes.confined_bind ?_ ?_ fun fileName => ?_
  · cases concatText request.function_name <;> trivial
  · simpa using hdeployed
  · dsimp only
    split
    · refine ⟨by simpa using hdeployed, fun w => ⟨_, hstart w _, ?_⟩⟩
      change R _
      simpa using hstarted
    · change R _
      simpa using hdeployed

theorem contributes_dispatch (e : Event) :
    (dispatch P e).Contributes World.effects (Causes P e) := by
  have hzero : Causes P e 0 := .nothing
  refine Contributes.confined_bind (confined_resultCount P _) hzero fun count => ?_
  split
  · exact hzero
  · refine Contributes.confined_bind (confined_resultAt P _) hzero fun first => ?_
    refine Contributes.confined_bind (confined_resultAt P _) hzero fun second => ?_
    refine Contributes.confined_bind (confined_resultAt P _) hzero fun _ => ?_
    refine Contributes.confined_bind
      (confined_writeFile P (fun _ _ => rfl) _ _) hzero fun _ => ?_
    refine Contributes.confined_bind ⟨fun _ => rfl, fun _ => trivial⟩ hzero
      fun log_uuid => ?_
    refine contributes_updateSequenceCount_bind hzero ?_
    rintro record hrecord rfl
    have hrequest : ∀ w : World,
        World.effects
            { w with
              serverRequests := w.serverRequests ++
                [e.serverRequest (second.memory.orElse (.int 128))] } =
          w.effects + (0, {e.serverRequest (second.memory.orElse (.int 128))}, 0, 0) := by
      intro w
      simp [World.effects, ← Multiset.coe_add]
    refine Contributes.modify_bind ?_ hrequest ?_
    · simpa using Causes.recorded hrecord
    · refine contributes_deployAndExecuteDocker ?_ ?_ ?_
      · simpa using Causes.requested hrecord _
      · simpa [Event.deployRequest] using Causes.handedOver hrecord first.filename _
      · simpa [Event.deployRequest] using Causes.started hrecord first.filename _

end Dispatch

/-! ## Any interleaving -/

section Interleaving

variable (P : Platform)

theorem contributes_handler (request : Request) :
    (request.handler P).Contributes World.effects (request.Caused P) := by
  by_cases hweb : request.isWeb = true
  · refine .of_confined ((confined_webHandler P ⟨request, hweb⟩).mono ?_) ?_
    · intro s t hsame
      obtain ⟨-, -, hinserted, hrequests, hdeployed, hworkers⟩ :=
        World.listener_eq_iff.mp hsame
      simp only [World.effects, hinserted, hrequests, hdeployed, hworkers]
    · cases request with
      | event params => exact Or.inl rfl
      | _ => rfl
  · cases request with
    | event params =>
        refine Contributes.bind_confined ?_ fun _ => trivial
        rw [createEnvironment]
        cases hevent : readEvent params with
        | error x => exact Or.inl rfl
        | ok e =>
            exact (contributes_dispatch e).mono fun c hc => Or.inr ⟨e, hevent, hc⟩
    | _ => exact absurd rfl hweb

/-- In every interleaving, each run record, server request, deployment and worker
belongs to one of the events that have arrived, and to each event belongs what
one dispatch makes of it, up to some step. -/
theorem runs_come_from_events (moves : List (Move Request)) :
    ∃ shares : List (Request × Effects),
      shares.map (·.1) = arrivals moves ∧
      (runAll (concurrently P) (quiescent {}) moves).state.effects =
        (shares.map (·.2)).sum ∧
      ∀ x ∈ shares, x.1.Caused P x.2 := by
  obtain ⟨shares, hrequests, heffects, hcaused⟩ :=
    System.exists_contributions (S := quiescent {}) rfl trivial
      (contributes_handler P) moves
  refine ⟨shares, hrequests, ?_, hcaused⟩
  rw [concurrently, heffects]
  exact zero_add _

end Interleaving

end LambdaOnOpenStack
