import LambdaOnOpenStack.Registry.Dispatch
import LambdaOnOpenStack.Registry.Footprint
import LambdaOnOpenStack.Support.Reading

/-!
# What a dispatch sees of the database

A dispatch reads the first document of its user, the file of that document and
the latest record of its event.  Two worlds in which these are the same look
the same to it, and once it has recorded its run it reads nothing more.
-/

namespace LambdaOnOpenStack

open Support Program

/-- The worlds look the same to a dispatch of `e` whose first document has the
given `_id`. -/
structure SameView (P : Platform) (e : Event) (_id : ObjectId) (w t : World) :
    Prop where
  first : w.registry.firstRecord P e.user_name =
    t.registry.firstRecord P e.user_name
  latest :
    w.registry.latestRecord P e.user_name e.filename e.event_source =
      t.registry.latestRecord P e.user_name e.filename e.event_source
  file : w.registry.findFile _id = t.registry.findFile _id
  chunk : ∀ n, w.registry.findChunk _id n = t.registry.findChunk _id n
  uuids : w.uuids = t.uuids
  picked : ∀ d, t.registry.firstRecord P e.user_name = some d → d._id = _id

/-- The worlds look the same to the dispatch, and nothing has been recorded
since `inserted`. -/
structure StillSees (P : Platform) (e : Event) (_id : ObjectId)
    (inserted : List RunRecord) (w t : World) : Prop
    extends SameView P e _id w t where
  left : w.inserted = inserted
  right : t.inserted = inserted

variable {P : Platform} {e : Event} {_id : ObjectId} {inserted : List RunRecord}

theorem StillSees.right_refl {w t : World} (h : StillSees P e _id inserted w t) :
    StillSees P e _id inserted t t :=
  ⟨⟨rfl, rfl, rfl, fun _ => rfl, rfl, h.picked⟩, h.right, h.right⟩

/-- What the listener does to its own process is not seen, if the identifiers
drawn are as many. -/
theorem StillSees.of_registry {w t w' t' : World}
    (h : StillSees P e _id inserted w t)
    (hw : w'.registry = w.registry) (ht : t'.registry = t.registry)
    (huuids : w'.uuids = t'.uuids) (hinserted : w'.inserted = w.inserted)
    (hinserted' : t'.inserted = t.inserted) :
    StillSees P e _id inserted w' t' := by
  refine ⟨⟨?_, ?_, ?_, ?_, huuids, ?_⟩, hinserted.trans h.left,
    hinserted'.trans h.right⟩
  · rw [hw, ht]
    exact h.first
  · rw [hw, ht]
    exact h.latest
  · rw [hw, ht]
    exact h.file
  · rw [hw, ht]
    exact h.chunk
  · rw [ht]
    exact h.picked

/-- A change of other documents of `mapping` is not seen. -/
theorem StillSees.of_mapping {w t : World} (h : StillSees P e _id inserted w w)
    (hfiles : t.registry.files = w.registry.files)
    (hchunks : t.registry.chunks = w.registry.chunks)
    (hfirst : w.registry.firstRecord P e.user_name =
      t.registry.firstRecord P e.user_name)
    (hlatest :
      w.registry.latestRecord P e.user_name e.filename e.event_source =
        t.registry.latestRecord P e.user_name e.filename e.event_source)
    (huuids : t.uuids = w.uuids) (hinserted : t.inserted = w.inserted) :
    StillSees P e _id inserted w t where
  first := hfirst
  latest := hlatest
  file := by rw [Registry.findFile, Registry.findFile, hfiles]
  chunk := by
    intro n
    rw [Registry.findChunk, Registry.findChunk, hchunks]
  uuids := huuids.symm
  picked := by
    rw [← hfirst]
    exact h.picked
  left := h.left
  right := hinserted.trans h.left

/-! ## The parts of a dispatch -/

theorem reads_resultAt_bind {f : MappingDoc → Handler Unit}
    (hf : ∀ d, d._id = _id → (f d).Reads (StillSees P e _id inserted)) :
    (resultAt P e.user_name >>= f).Reads (StillSees P e _id inserted) := by
  intro w t h
  refine ⟨?_, Or.inl h, ?_⟩
  · simp only [h.first]
  · dsimp only
    split
    · trivial
    · split
      · trivial
      · rename_i d hfirst
        rw [h.first] at hfirst
        exact hf d (h.picked d hfirst)

theorem keeps_recordAt :
    (recordAt P e.user_name e.filename e.event_source).Keeps
      (StillSees P e _id inserted) := by
  intro w t h
  refine ⟨?_, h, ?_⟩
  · simp only [h.latest]
  · dsimp only
    split
    · trivial
    · split <;> trivial

theorem keeps_readLoop (size fuel chunk_number : ℕ) (data : Bytes) :
    (readLoop _id size fuel chunk_number data).Keeps
      (StillSees P e _id inserted) := by
  induction fuel generalizing chunk_number data with
  | zero => trivial
  | succ fuel ih =>
      rw [readLoop]
      split
      · intro w t h
        refine ⟨?_, h, ?_⟩
        · simp only [h.chunk]
        · dsimp only
          split
          · trivial
          · exact ih _ _
      · trivial

theorem keeps_readFile : (readFile _id).Keeps (StillSees P e _id inserted) := by
  intro w t h
  refine ⟨?_, h, ?_⟩
  · simp only [h.file]
  · dsimp only
    split
    · trivial
    · exact keeps_readLoop _ _ _ _

theorem keeps_hostOp (op : HostOp) :
    (hostOp op).Keeps (StillSees P e _id inserted) :=
  Keeps.modify fun _ _ h => h.of_registry rfl rfl h.uuids rfl rfl

theorem keeps_writeFile (functionName : Value) :
    (writeFile P _id functionName).Keeps (StillSees P e _id inserted) := by
  refine (Keeps.ofExcept _).bind ?_
  intro name
  dsimp only
  split
  · exact (keeps_hostOp _).bind fun _ => keeps_readFile.bind fun _ =>
      keeps_hostOp _
  · trivial

theorem keeps_getUuid : (getUuid P).Keeps (StillSees P e _id inserted) := by
  intro w t h
  refine ⟨?_, h.of_registry rfl rfl ?_ rfl rfl, trivial⟩
  · simp only [h.uuids]
  · simp only [h.uuids]

theorem reads_updateSequenceCount (log_uuid : String) :
    (updateSequenceCount P e.user_name e.filename e.event_source
      log_uuid).Reads (StillSees P e _id inserted) := by
  have hrecord : (recordAt P e.user_name e.filename e.event_source).Keeps
      (StillSees P e _id inserted) := keeps_recordAt
  refine hrecord.bind_reads fun _ => hrecord.bind_reads ?_
  intro record
  dsimp only
  split
  · exact hrecord.bind_reads fun _ => hrecord.bind_reads fun _ =>
      hrecord.bind_reads fun _ => hrecord.bind_reads fun _ =>
        hrecord.bind_reads fun _ => hrecord.bind_reads fun _ =>
          (Blind.modify _).reads
  · exact hrecord.bind_reads fun _ => hrecord.bind_reads fun _ =>
      hrecord.bind_reads fun _ => hrecord.bind_reads fun _ =>
        hrecord.bind_reads fun _ => (Blind.modify _).reads

theorem blind_deployAndExecuteDocker (request : DeployRequest)
    (log_uuid : String) : (deployAndExecuteDocker P request log_uuid).Blind := by
  refine (Blind.modify _).bind fun _ => (Blind.ofExcept _).bind ?_
  intro fileName
  dsimp only
  split
  · exact Blind.modify _
  · trivial

/-- Until it has recorded the run, a dispatch reads no more than its view. -/
theorem reads_dispatch : (dispatch P e).Reads (StillSees P e _id inserted) := by
  intro w t h
  have hzero : (w.registry.mapping.countP fun d =>
      P.answers e.user_name d.username) = 0 ↔
        (t.registry.mapping.countP fun d =>
          P.answers e.user_name d.username) = 0 := by
    rw [countP_answers_eq_zero, countP_answers_eq_zero, h.first]
  refine ⟨?_, Or.inl h, ?_⟩
  · dsimp only
    split
    · rfl
    · -- The count itself is not used, only whether it is zero.
      change (if _ then _ else _) = (if _ then _ else _)
      simp only [hzero]
  · dsimp only
    split
    · trivial
    · change Reads _ (if _ then _ else _)
      split
      · trivial
      · refine reads_resultAt_bind fun _ _ => reads_resultAt_bind fun _ _ =>
          reads_resultAt_bind ?_
        rintro d rfl
        exact (keeps_writeFile _).bind_reads fun _ =>
          keeps_getUuid.bind_reads fun log_uuid =>
            (reads_updateSequenceCount log_uuid).bind_blind fun _ =>
              (Blind.modify _).bind fun _ => blind_deployAndExecuteDocker _ _

end LambdaOnOpenStack
