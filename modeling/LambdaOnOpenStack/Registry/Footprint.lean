import LambdaOnOpenStack.Registry.Requests
import LambdaOnOpenStack.Support.Interleaving

/-!
# Which part of the world a program writes

A web request writes the database only.  A dispatch writes the listener's
process, and what it writes there depends on the database only through what it
reads.
-/

namespace LambdaOnOpenStack

open Support Program

/-- The world without the database. -/
def World.listener (w : World) : World := { w with registry := {} }

theorem World.listener_eq_iff {w t : World} :
    w.listener = t.listener ↔
      w.host = t.host ∧ w.uuids = t.uuids ∧ w.inserted = t.inserted ∧
        w.serverRequests = t.serverRequests ∧ w.deployed = t.deployed ∧
        w.workers = t.workers := by
  simp [World.listener]

/-! ## Web requests -/

section Web

variable (P : Platform)

theorem confined_onRegistry {f : Registry → Registry} :
    (Program.modify (World.onRegistry f) : Handler Unit).Confined
      World.listener :=
  ⟨fun _ => rfl, fun _ => trivial⟩

theorem confined_insertMapping (d : MappingDoc) :
    (insertMapping d).Confined World.listener := by
  refine ⟨fun _ => rfl, ?_⟩
  intro w
  dsimp only
  split <;> trivial

theorem confined_setFirst (body : Body) (set : MappingDoc → MappingDoc) :
    (setFirst P body set).Confined World.listener :=
  ⟨fun _ => rfl, fun _ => trivial⟩

theorem confined_putField (body : Body) (value : Value)
    (set : Value → MappingDoc → MappingDoc) (doc : Option MappingDoc) :
    (putField P body value set doc).Confined World.listener := by
  rw [putField]
  split
  · exact confined_setFirst P body _
  · trivial

theorem confined_getList (uname : String) :
    (getList uname).Confined World.listener := by
  refine Confined.ask.bind ?_
  intro a
  split <;> trivial

theorem confined_getOne (uname fname : String) :
    (getOne uname fname).Confined World.listener :=
  Confined.ask.bind fun _ => trivial

theorem confined_deleteLambda (uname filename : String) :
    (deleteLambda uname filename).Confined World.listener := by
  refine Confined.ask.bind ?_
  intro found
  cases found with
  | nil => trivial
  | cons document rest =>
      exact confined_onRegistry.bind fun _ =>
        confined_onRegistry.bind fun _ =>
          confined_onRegistry.bind fun _ => trivial

theorem confined_postLambda (body : Body) :
    (postLambda P body).Confined World.listener := by
  refine Confined.ask.bind ?_
  intro n
  split
  · trivial
  · refine Confined.ask.bind ?_
    intro c
    split
    · trivial
    · refine Confined.ask.bind ?_
      intro found
      exact (Confined.forEach (fun _ => confined_insertMapping _) _).bind
        fun _ => trivial

theorem confined_putLambda (body : Body) :
    (putLambda P body).Confined World.listener := by
  refine Confined.ask.bind ?_
  intro n
  split
  · exact (confined_putField P body _ _ _).bind fun _ =>
      (confined_putField P body _ _ _).bind fun _ =>
        (confined_putField P body _ _ _).bind fun _ =>
          (confined_putField P body _ _ _).bind fun _ => trivial
  · trivial

theorem confined_postFileupload (username : Value) (filename : String)
    (content : Bytes) :
    (postFileupload P username filename content).Confined World.listener := by
  refine Confined.ask.bind ?_
  intro n
  split
  · trivial
  · refine Confined.bind ?_ fun _ => trivial
    refine Confined.bind ⟨fun _ => rfl, fun _ => trivial⟩ ?_
    intro _id
    exact (Confined.forEach (fun _ => confined_onRegistry) _).bind
      fun _ => confined_onRegistry

/-- A request of the web interface. -/
def Request.isWeb : Request → Bool
  | .event _ => false
  | _ => true

abbrev WebRequest := { request : Request // request.isWeb = true }

def webHandler (request : WebRequest) : Handler Reply := request.1.handler P

/-- A web request leaves the listener's process alone. -/
theorem confined_webHandler (request : WebRequest) :
    (webHandler P request).Confined World.listener := by
  obtain ⟨request, hweb⟩ := request
  cases request with
  | fileupload username filename content =>
      exact confined_postFileupload P username filename content
  | post body => exact confined_postLambda P body
  | put body => exact confined_putLambda P body
  | delete uname filename => exact confined_deleteLambda uname filename
  | list uname => exact confined_getList uname
  | one uname fname => exact confined_getOne uname fname
  | event params => simp [Request.isWeb] at hweb

end Web

/-! ## Dispatches -/

section Dispatch

variable (P : Platform)

theorem tracks_resultCount (user : Value) :
    (resultCount P user).Tracks World.listener := by
  refine ⟨fun _ _ h => h, ?_⟩
  intro w
  dsimp only
  split <;> trivial

theorem tracks_resultAt (user : Value) :
    (resultAt P user).Tracks World.listener := by
  refine ⟨fun _ _ h => h, ?_⟩
  intro w
  dsimp only
  split
  · trivial
  · split <;> trivial

theorem tracks_recordAt (user functionName eventSource : Value) :
    (recordAt P user functionName eventSource).Tracks World.listener := by
  refine ⟨fun _ _ h => h, ?_⟩
  intro w
  dsimp only
  split
  · trivial
  · split <;> trivial

theorem tracks_readLoop (_id : ObjectId) (size fuel chunk_number : ℕ)
    (data : Bytes) :
    (readLoop _id size fuel chunk_number data).Tracks World.listener := by
  induction fuel generalizing chunk_number data with
  | zero => trivial
  | succ fuel ih =>
      rw [readLoop]
      split
      · refine ⟨fun _ _ h => h, ?_⟩
        intro w
        dsimp only
        split
        · trivial
        · exact ih _ _
      · trivial

theorem tracks_readFile (objId : ObjectId) :
    (readFile objId).Tracks World.listener := by
  refine ⟨fun _ _ h => h, ?_⟩
  intro w
  dsimp only
  split
  · trivial
  · exact tracks_readLoop _ _ _ _ _

theorem tracks_hostOp (op : HostOp) : (hostOp op).Tracks World.listener := by
  refine Tracks.modify ?_
  intro s t hst
  simp_all [World.listener_eq_iff]

theorem tracks_writeFile (objId : ObjectId) (functionName : Value) :
    (writeFile P objId functionName).Tracks World.listener := by
  refine (Tracks.ofExcept _).bind ?_
  intro name
  dsimp only
  split
  · exact (tracks_hostOp _).bind fun _ =>
      (tracks_readFile _).bind fun _ => tracks_hostOp _
  · trivial

theorem tracks_getUuid : (getUuid P).Tracks World.listener := by
  refine ⟨?_, fun _ => trivial⟩
  intro s t hst
  simp_all [World.listener_eq_iff]

theorem tracks_insertRecord (record : RunRecord) :
    (insertRecord P record).Tracks World.listener := by
  refine Tracks.modify ?_
  intro s t hst
  simp_all [World.listener_eq_iff]

theorem tracks_updateSequenceCount (user functionName eventSource : Value)
    (log_uuid : String) :
    (updateSequenceCount P user functionName eventSource log_uuid).Tracks
      World.listener := by
  have hrecord := tracks_recordAt P user functionName eventSource
  refine hrecord.bind fun _ => hrecord.bind ?_
  intro record
  dsimp only
  split
  · exact hrecord.bind fun _ => hrecord.bind fun _ => hrecord.bind fun _ =>
      hrecord.bind fun _ => hrecord.bind fun _ => hrecord.bind fun _ =>
        tracks_insertRecord P _
  · exact hrecord.bind fun _ => hrecord.bind fun _ => hrecord.bind fun _ =>
      hrecord.bind fun _ => hrecord.bind fun _ => tracks_insertRecord P _

theorem tracks_deployAndExecuteDocker (request : DeployRequest)
    (log_uuid : String) :
    (deployAndExecuteDocker P request log_uuid).Tracks World.listener := by
  refine Tracks.bind (Tracks.modify ?_) fun _ => (Tracks.ofExcept _).bind ?_
  · intro s t hst
    simp_all [World.listener_eq_iff]
  · intro fileName
    dsimp only
    split
    · refine Tracks.modify ?_
      intro s t hst
      simp_all [World.listener_eq_iff]
    · trivial

theorem tracks_dispatch (e : Event) : (dispatch P e).Tracks World.listener := by
  refine (tracks_resultCount P _).bind ?_
  intro count
  dsimp only
  split
  · trivial
  · refine (tracks_resultAt P _).bind fun _ => (tracks_resultAt P _).bind
      fun _ => (tracks_resultAt P _).bind fun _ =>
        (tracks_writeFile P _ _).bind fun _ => (tracks_getUuid P).bind
          fun _ => (tracks_updateSequenceCount P _ _ _ _).bind fun _ =>
            Tracks.bind (Tracks.modify ?_) fun _ =>
              tracks_deployAndExecuteDocker P _ _
    intro s t hst
    simp_all [World.listener_eq_iff]

end Dispatch

end LambdaOnOpenStack
