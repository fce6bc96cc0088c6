import LambdaOnOpenStack.Registry.Concurrency
import LambdaOnOpenStack.Registry.Dispatch
import Mathlib.Algebra.Group.Prod
import Mathlib.Algebra.Order.Group.Multiset
import Mathlib.Data.Multiset.Range

/-!
# Every run is on record

A dispatch draws a run identifier, inserts the record of the run, builds the
server request, hands the run over and starts its worker.  Any number of
dispatches and requests take their steps in any order.  No run is handed over
or started that is not on record, none is so twice, and once all dispatches
have ended, every recorded run was handed over.
-/

namespace LambdaOnOpenStack

open Support Program

/-! ## What a dispatch owes -/

/-- The run identifiers drawn and not yet recorded, those recorded and not yet
handed over, the server requests built for runs not yet handed over, and the
workers not yet started. -/
abbrev Owing :=
  Multiset String × Multiset String × Multiset (Value × String) ×
    Multiset WorkerArgs

namespace Owing

def drawn (log_uuid : String) : Owing := ({log_uuid}, 0, 0, 0)

def recorded (log_uuid : String) : Owing := (0, {log_uuid}, 0, 0)

def requested (log_uuid : String) (request : Value × String) : Owing :=
  (0, {log_uuid}, {request}, 0)

def handedOver (args : WorkerArgs) : Owing := (0, 0, 0, {args})

/-- What has to be paid back before a dispatch ends. -/
def debt : Owing →+ Multiset String × Multiset (Value × String) where
  toFun g := (g.2.1, g.2.2.1)
  map_zero' := rfl
  map_add' _ _ := rfl

end Owing

/-! ## The books -/

namespace World

variable (w : World)

def recordedRuns : Multiset String := w.inserted.map (·.log_uuid)

def handedOverRuns : Multiset String := w.deployed.map (·.2)

/-- User and flavour of each server request. -/
def requestedServers : Multiset (Value × String) :=
  w.serverRequests.map fun request => (request.username, request.flavor_name)

/-- User and flavour that go with each run that was handed over. -/
def deployedServers : Multiset (Value × String) :=
  w.deployed.map fun run => (run.1.username, getFlavourName run.1.memory)

/-- The worker that goes with each run that was handed over. -/
def dueWorkers : Multiset WorkerArgs :=
  w.deployed.map fun run =>
    ({ fileName := run.1.function_name
       log_uuid := run.2
       memory := run.1.memory } : WorkerArgs)

end World

/-- The books are balanced by what the dispatches owe. -/
structure Balanced (P : Platform) (g : Owing) (w : World) : Prop where
  drawn : w.recordedRuns + g.1 ≤ (Multiset.range w.uuids).map P.newUuid
  handed : w.recordedRuns = w.handedOverRuns + g.2.1
  requested : w.requestedServers = w.deployedServers + g.2.2.1
  started : (w.workers : Multiset WorkerArgs) + g.2.2.2 ≤ w.dueWorkers

namespace World

/-- Every run that was handed over is on record, every worker belongs to a run
that was handed over, and run identifiers are draws of the generator, each
counted as often as it occurs.  If the generator repeats none, no two workers
share a run. -/
structure OnRecord (P : Platform) (w : World) : Prop where
  recorded : (w.deployed.map (·.2)).Subperm (w.inserted.map (·.log_uuid))
  started : w.workers.Subperm (w.deployed.map fun run =>
    { fileName := run.1.function_name
      log_uuid := run.2
      memory := run.1.memory })
  drawn : (w.inserted.map (·.log_uuid)).Subperm
    ((List.range w.uuids).map P.newUuid)
  once : Function.Injective P.newUuid → (w.workers.map (·.log_uuid)).Nodup

/-- Every recorded run was handed over, with a server request of its own. -/
structure HandedOverAll (w : World) : Prop where
  recorded : (w.inserted.map (·.log_uuid)).Perm (w.deployed.map (·.2))
  requested : (w.serverRequests.map fun request =>
      (request.username, request.flavor_name)).Perm
    (w.deployed.map fun run =>
      (run.1.username, getFlavourName run.1.memory))

end World

/-- What the books are about. -/
def World.books (w : World) :=
  (w.uuids, w.inserted, w.serverRequests, w.deployed, w.workers)

variable {P : Platform}

theorem Balanced.of_books {g : Owing} {w t : World} (hsame : t.books = w.books)
    (h : Balanced P g w) : Balanced P g t := by
  simp only [World.books, Prod.mk.injEq] at hsame
  obtain ⟨huuids, hinserted, hrequests, hdeployed, hworkers⟩ := hsame
  obtain ⟨hdrawn, hhanded, hrequested, hstarted⟩ := h
  constructor
  all_goals simp only [World.recordedRuns, World.handedOverRuns,
    World.requestedServers, World.deployedServers, World.dueWorkers, huuids,
    hinserted, hrequests, hdeployed, hworkers] at *
  all_goals assumption

/-! ## The steps of a dispatch -/

/-- One more entry in a list of the books. -/
theorem coe_map_concat {α β : Type} (f : α → β) (l : List α) (a : α) :
    (((l ++ [a]).map f : List β) : Multiset β) = (l.map f : Multiset β) + {f a} := by
  rw [List.map_append, ← Multiset.coe_add]
  rfl

section Steps

variable {frame : Owing} {w : World}

theorem Balanced.draw (h : Balanced P (0 + frame) w) :
    Balanced P (.drawn (P.newUuid w.uuids) + frame) w.drawUuid := by
  rw [zero_add] at h
  refine ⟨?_, ?_, ?_, ?_⟩
  · change w.recordedRuns + ({P.newUuid w.uuids} + frame.1) ≤
      (Multiset.range (w.uuids + 1)).map P.newUuid
    rw [Multiset.range_succ, Multiset.map_cons, ← Multiset.singleton_add,
      add_left_comm]
    exact add_le_add le_rfl h.drawn
  · change w.recordedRuns = w.handedOverRuns + (0 + frame.2.1)
    rw [zero_add, h.handed]
  · change w.requestedServers = w.deployedServers + (0 + frame.2.2.1)
    rw [zero_add, h.requested]
  · change (w.workers : Multiset WorkerArgs) + (0 + frame.2.2.2) ≤ w.dueWorkers
    rw [zero_add]
    exact h.started

theorem Balanced.record {record : RunRecord} {registry : Registry}
    (h : Balanced P (.drawn record.log_uuid + frame) w) :
    Balanced P (.recorded record.log_uuid + frame)
      { w with inserted := w.inserted ++ [record], registry := registry } := by
  obtain ⟨hdrawn, hhanded, hrequested, hstarted⟩ := h
  refine ⟨?_, ?_, hrequested, hstarted⟩
  · change ((w.inserted ++ [record]).map (·.log_uuid) : Multiset String) +
      (0 + frame.1) ≤ _
    rw [coe_map_concat, zero_add, add_assoc]
    exact hdrawn
  · change ((w.inserted ++ [record]).map (·.log_uuid) : Multiset String) =
      w.handedOverRuns + ({record.log_uuid} + frame.2.1)
    change w.recordedRuns = w.handedOverRuns + (0 + frame.2.1) at hhanded
    rw [zero_add] at hhanded
    rw [coe_map_concat, ← add_assoc, add_right_comm]
    exact congrArg (· + {record.log_uuid}) hhanded

theorem Balanced.request {log_uuid : String} {request : ServerRequest}
    (h : Balanced P (.recorded log_uuid + frame) w) :
    Balanced P
      (.requested log_uuid (request.username, request.flavor_name) + frame)
      { w with serverRequests := w.serverRequests ++ [request] } := by
  obtain ⟨hdrawn, hhanded, hrequested, hstarted⟩ := h
  refine ⟨hdrawn, hhanded, ?_, hstarted⟩
  change ((w.serverRequests ++ [request]).map fun request =>
      (request.username, request.flavor_name) : Multiset (Value × String)) =
    w.deployedServers + ({(request.username, request.flavor_name)} + frame.2.2.1)
  change w.requestedServers = w.deployedServers + (0 + frame.2.2.1) at hrequested
  rw [zero_add] at hrequested
  rw [coe_map_concat, ← add_assoc, add_right_comm]
  exact congrArg (· + {(request.username, request.flavor_name)}) hrequested

/-- The run is handed over; its worker starts later, or never. -/
theorem Balanced.handOver {log_uuid : String} {request : DeployRequest}
    (h : Balanced P
      (.requested log_uuid (request.username, getFlavourName request.memory) +
        frame) w) :
    Balanced P
      (.handedOver { fileName := request.function_name
                     log_uuid := log_uuid
                     memory := request.memory } + frame)
      { w with deployed := w.deployed ++ [(request, log_uuid)] } := by
  obtain ⟨hdrawn, hhanded, hrequested, hstarted⟩ := h
  refine ⟨hdrawn, ?_, ?_, ?_⟩
  · change w.recordedRuns = w.handedOverRuns + ({log_uuid} + frame.2.1) at hhanded
    change w.recordedRuns =
      ((w.deployed ++ [(request, log_uuid)]).map (·.2) : Multiset String) +
        (0 + frame.2.1)
    rw [hhanded, coe_map_concat, zero_add, add_assoc]
    rfl
  · change w.requestedServers = w.deployedServers +
      ({(request.username, getFlavourName request.memory)} + frame.2.2.1)
      at hrequested
    change w.requestedServers =
      ((w.deployed ++ [(request, log_uuid)]).map fun run =>
        (run.1.username, getFlavourName run.1.memory) :
          Multiset (Value × String)) + (0 + frame.2.2.1)
    rw [hrequested, coe_map_concat, zero_add, add_assoc]
    rfl
  · change (w.workers : Multiset WorkerArgs) + (0 + frame.2.2.2) ≤ w.dueWorkers
      at hstarted
    rw [zero_add] at hstarted
    change (w.workers : Multiset WorkerArgs) + ({_} + frame.2.2.2) ≤
      ((w.deployed ++ [(request, log_uuid)]).map _ : List WorkerArgs)
    rw [coe_map_concat, add_left_comm, add_comm]
    exact add_le_add hstarted le_rfl

theorem Balanced.start {args : WorkerArgs}
    (h : Balanced P (.handedOver args + frame) w) :
    Balanced P (0 + frame) { w with workers := w.workers ++ [args] } := by
  obtain ⟨hdrawn, hhanded, hrequested, hstarted⟩ := h
  refine ⟨hdrawn, hhanded, hrequested, ?_⟩
  change (w.workers : Multiset WorkerArgs) + ({args} + frame.2.2.2) ≤ w.dueWorkers
    at hstarted
  change ((w.workers ++ [args] : List WorkerArgs) : Multiset WorkerArgs) +
    (0 + frame.2.2.2) ≤ w.dueWorkers
  rw [← Multiset.coe_add, zero_add, add_assoc]
  exact hstarted

end Steps

/-! ## Every request pays back -/

/-- At its end a request owes nothing. -/
abbrev Paid {α : Type} (_ : Except Failure α) (g : Owing) : Prop :=
  Owing.debt g = 0

/-- It pays back whatever happens between its steps. -/
abbrev PaysBack {α : Type} (P : Platform) (p : Handler α) (g : Owing) : Prop :=
  p.Safe (Balanced P) Paid g

/-- A part of a request that leaves the books alone. -/
theorem PaysBack.after {α β : Type} {p : Handler β} {f : β → Handler α}
    {g : Owing} (hp : p.Confined World.books) (hg : Owing.debt g = 0)
    (hf : ∀ b, PaysBack P (f b) g) : PaysBack P (p >>= f) g :=
  Safe.confined_bind (fun _ _ _ hsame h => h.of_books hsame) hp hf fun _ => hg

theorem safe_updateSequenceCount (user functionName eventSource : Value)
    (log_uuid : String) {rest : Unit → Handler Unit}
    (hrest : PaysBack P (rest ()) (.recorded log_uuid)) :
    PaysBack P
      (updateSequenceCount P user functionName eventSource log_uuid >>= rest)
      (.drawn log_uuid) := by
  have hrecord : (recordAt P user functionName eventSource).Confined
      World.books := confined_recordAt P user functionName eventSource
  have hinsert : ∀ record : RunRecord, record.log_uuid = log_uuid →
      PaysBack P (insertRecord P record >>= rest) (.drawn log_uuid) := by
    rintro record rfl
    exact Safe.modify_bind (fun _ _ h => h.record) hrest
  simp only [updateSequenceCount, Program.bind_assoc]
  refine .after hrecord rfl fun _ => .after hrecord rfl ?_
  intro record
  split
  · simp only [Program.bind_assoc, Program.pure_eq, Program.done_bind]
    exact .after hrecord rfl fun _ => .after hrecord rfl fun _ =>
      .after hrecord rfl fun _ => .after hrecord rfl fun _ =>
        .after hrecord rfl fun _ => .after hrecord rfl fun _ => hinsert _ rfl
  · simp only [Program.bind_assoc, Program.pure_eq, Program.done_bind]
    exact .after hrecord rfl fun _ => .after hrecord rfl fun _ =>
      .after hrecord rfl fun _ => .after hrecord rfl fun _ =>
        .after hrecord rfl fun _ => hinsert _ rfl

theorem safe_deployAndExecuteDocker (request : DeployRequest)
    (log_uuid : String) :
    PaysBack P (deployAndExecuteDocker P request log_uuid)
      (.requested log_uuid (request.username, getFlavourName request.memory)) := by
  refine Safe.modify_bind (fun _ _ h => h.handOver) ?_
  refine Safe.ofExcept_bind ?_ fun _ _ => rfl
  intro fileName _
  dsimp only
  split
  · intro frame w h
    exact ⟨0, h.start, rfl⟩
  · rfl

theorem safe_dispatch (e : Event) : PaysBack P (dispatch P e) 0 := by
  refine .after (confined_resultCount P _) rfl ?_
  intro count
  split
  · rfl
  · refine .after (confined_resultAt P _) rfl fun _ =>
      .after (confined_resultAt P _) rfl fun _ =>
        .after (confined_resultAt P _) rfl fun _ =>
          .after (confined_writeFile P (fun _ _ => rfl) _ _) rfl ?_
    intro _ frame w h
    refine ⟨.drawn (P.newUuid w.uuids), h.draw, ?_⟩
    refine safe_updateSequenceCount _ _ _ _ ?_
    exact Safe.modify_bind (fun _ _ h => h.request) (safe_deployAndExecuteDocker _ _)

/-- Before its first step every request owes nothing and pays back. -/
theorem safe_handler (request : Request) :
    PaysBack P (request.handler P) 0 := by
  by_cases hweb : request.isWeb = true
  · have hconfined := confined_webHandler P ⟨request, hweb⟩
    refine (Safe.of_confined ?_ hconfined 0).mono ?_
    · intro g w t hsame h
      obtain ⟨-, huuids, hinserted, hrequests, hdeployed, hworkers⟩ :=
        World.listener_eq_iff.mp hsame
      refine h.of_books ?_
      simp only [World.books, huuids, hinserted, hrequests, hdeployed, hworkers]
    · rintro _ g rfl
      rfl
  · cases request with
    | event params =>
        refine Safe.bind (Q := Paid) ?_ (fun _ _ hpaid => hpaid) fun _ _ h => h
        refine Safe.ofExcept_bind ?_ fun _ _ => rfl
        intro e _
        exact safe_dispatch e
    | _ => exact absurd rfl hweb

/-! ## Any interleaving -/

section Interleaving

variable (P : Platform) (moves : List (Move Request))

theorem shared_balanced :
    (runAll (concurrently P) (quiescent {}) moves).Shared (Balanced P) Paid
      Paid := by
  refine System.Shared.runAll ?_ safe_handler moves
  refine ⟨0, [], rfl, rfl, by simp, ?_⟩
  constructor
  all_goals simp [quiescent, World.recordedRuns, World.handedOverRuns,
    World.requestedServers, World.deployedServers, World.dueWorkers]

/-- In every state of every interleaving, the runs are on record. -/
theorem runs_are_on_record :
    (runAll (concurrently P) (quiescent {}) moves).state.OnRecord P := by
  refine (shared_balanced P moves).state ?_
  rintro g w ⟨hdrawn, hhanded, -, hstarted⟩
  have hworkers : (w.workers : Multiset WorkerArgs) ≤ w.dueWorkers :=
    (Multiset.le_add_right _ _).trans hstarted
  have hruns : w.handedOverRuns ≤ w.recordedRuns := by
    rw [hhanded]
    exact Multiset.le_add_right _ _
  have hdraws : w.recordedRuns ≤ (Multiset.range w.uuids).map P.newUuid :=
    (Multiset.le_add_right _ _).trans hdrawn
  refine ⟨hruns, hworkers, hdraws, ?_⟩
  intro hinjective
  have hnodup : ((Multiset.range w.uuids).map P.newUuid).Nodup :=
    (Multiset.nodup_range _).map hinjective
  have hstart : (w.workers.map (·.log_uuid) : Multiset String) ≤
      w.handedOverRuns := by
    have hmap := Multiset.map_le_map (f := WorkerArgs.log_uuid) hworkers
    simpa [World.dueWorkers, World.handedOverRuns, Function.comp_def] using hmap
  exact Multiset.nodup_of_le (hstart.trans (hruns.trans hdraws)) hnodup

/-- Once every request has ended, the recorded runs are those that were handed
over, each with one server request for its user and memory. -/
theorem recorded_runs_are_handed_over
    (hended : (runAll (concurrently P) (quiescent {}) moves).Ended) :
    (runAll (concurrently P) (quiescent {}) moves).state.HandedOverAll := by
  obtain ⟨g, ⟨-, hhanded, hrequested, -⟩, hdebt⟩ :=
    (shared_balanced P moves).ended Owing.debt hended
  obtain ⟨hruns, hservers⟩ := Prod.mk.inj hdebt
  rw [hruns, add_zero] at hhanded
  rw [hservers, add_zero] at hrequested
  exact ⟨Multiset.coe_eq_coe.mp hhanded, Multiset.coe_eq_coe.mp hrequested⟩

end Interleaving

/-- A function is uploaded and registered, and two events for it are
dispatched step by step in turn. -/
def twoDispatches : List (Move Request) :=
  [.arrive (.fileupload (.str "testUser") "test.py" [112]),
    .arrive (.post (.sample "testUser" "test.py"))] ++
    List.replicate 4 (.other 0) ++ List.replicate 5 (.other 1) ++
    [.arrive (.event (samplePayload "testUser" "test.py")),
      .arrive (.event (samplePayload "testUser" "test.py"))] ++
    (List.replicate 30 [.other 2, .other 3]).flatten

theorem recorded_runs_are_handed_over_twice :
    (runAll (concurrently default) (quiescent {}) twoDispatches).state.HandedOverAll :=
  recorded_runs_are_handed_over default twoDispatches (by decide +kernel)

end LambdaOnOpenStack
