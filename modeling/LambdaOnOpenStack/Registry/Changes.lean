import LambdaOnOpenStack.Registry.Requests

/-!
# What a complete request does

One lemma for each handler gives its result and the world after it in closed
form.  The handlers of the web interface touch the database only; what a
dispatch does is described by `DispatchRun`, one constructor for each way in
which it can end.
-/

namespace LambdaOnOpenStack

open Support Program

/-! ## Changes of the registry -/

/-- The record of a run that takes its counter from `latest`. -/
def MappingDoc.nextRun (latest : MappingDoc) (log_uuid : String) : RunRecord where
  filename := latest.filename
  username := latest.username
  eventType := latest.eventType
  eventsource := latest.eventsource
  memory := latest.memory
  sequence_count := latest.sequence_count + 1
  log_uuid := log_uuid

namespace Registry

/-- The file document of an upload. -/
def uploadedFile (P : Platform) (r : Registry) (filename : String)
    (content : Bytes) (metadata : String) : FileDoc where
  _id := P.newId r.issued
  filename := filename
  metadata := metadata
  length := content.length
  chunkSize := P.chunkSize

/-- After a completed upload. -/
def upload (P : Platform) (filename : String) (content : Bytes)
    (metadata : String) (r : Registry) : Registry :=
  { r with
    issued := r.issued + 1
    chunks := r.chunks ++
      GridFS.split P.chunkSize P.chunkSize_pos (P.newId r.issued) content
    files := r.files ++ [r.uploadedFile P filename content metadata]
    uploads := r.uploads ++ [(P.newId r.issued, content)] }

@[simp] theorem upload_mapping (P : Platform) (filename : String)
    (content : Bytes) (metadata : String) (r : Registry) :
    (r.upload P filename content metadata).mapping = r.mapping := rfl

/-- After an insertion into `mapping`. -/
def insert (d : MappingDoc) (r : Registry) : Registry :=
  { r with mapping := r.mapping ++ [d] }

/-- After the three deletions of `DELETE` for a document with this `_id`. -/
def remove (_id : ObjectId) (r : Registry) : Registry :=
  deleteMapping _id (deleteChunk _id (deleteFile _id r))

/-- The run record that copies `latest`. -/
def runRecord (P : Platform) (r : Registry) (latest : MappingDoc)
    (log_uuid : String) : MappingDoc :=
  (latest.nextRun log_uuid).document (P.newId r.issued)

/-- After `updateSequenceCount` found `latest`. -/
def record (P : Platform) (latest : MappingDoc) (log_uuid : String)
    (r : Registry) : Registry :=
  { r with
    issued := r.issued + 1
    mapping := r.mapping ++ [r.runRecord P latest log_uuid] }

end Registry

/-- What one field of a `PUT` sets on the document it finds. -/
def fieldUpdate (P : Platform) (value : Value)
    (set : Value → MappingDoc → MappingDoc) (d : MappingDoc) : MappingDoc :=
  if value = .null then d else set (.str (Ruby.toText P.table value)) d

/-- What a whole `PUT` sets on the document it finds. -/
def Body.update (P : Platform) (body : Body) (d : MappingDoc) : MappingDoc :=
  fieldUpdate P body.Environment MappingDoc.setEnvironment <|
    fieldUpdate P body.Memory MappingDoc.setMemory <|
      fieldUpdate P body.EventSource MappingDoc.setEventSource <|
        fieldUpdate P body.EventType MappingDoc.setEventType d

/-- What a `PUT` makes of one field. -/
def putValue (P : Platform) (value old : Value) : Value :=
  if value = .null then old else .str (Ruby.toText P.table value)

section Update

variable (P : Platform) (body : Body) (d : MappingDoc)

theorem Body.update_eventType :
    (body.update P d).eventType = putValue P body.EventType d.eventType := by
  simp only [Body.update, fieldUpdate, putValue, MappingDoc.setEnvironment,
    MappingDoc.setMemory, MappingDoc.setEventSource, MappingDoc.setEventType]
  split_ifs <;> rfl

theorem Body.update_eventsource :
    (body.update P d).eventsource = putValue P body.EventSource d.eventsource := by
  simp only [Body.update, fieldUpdate, putValue, MappingDoc.setEnvironment,
    MappingDoc.setMemory, MappingDoc.setEventSource, MappingDoc.setEventType]
  split_ifs <;> rfl

theorem Body.update_memory :
    (body.update P d).memory = putValue P body.Memory d.memory := by
  simp only [Body.update, fieldUpdate, putValue, MappingDoc.setEnvironment,
    MappingDoc.setMemory, MappingDoc.setEventSource, MappingDoc.setEventType]
  split_ifs <;> rfl

theorem Body.update_environment :
    (body.update P d).environment =
      if body.Environment = .null then d.environment
      else some (.str (Ruby.toText P.table body.Environment)) := by
  simp only [Body.update, fieldUpdate, MappingDoc.setEnvironment,
    MappingDoc.setMemory, MappingDoc.setEventSource, MappingDoc.setEventType]
  split_ifs <;> rfl

end Update

/-- The queries of the body are for the function `f` of the user `u`. -/
def Body.Targets (P : Platform) (body : Body) (u f : String) : Prop :=
  Ruby.toText P.table body.UserName = u ∧ Ruby.toText P.table body.FileName = f

theorem Body.Targets.hasKey {P : Platform} {body : Body} {u f : String}
    (h : body.Targets P u f) : body.hasKey P = fun d => d.hasKey u f := by
  funext d
  rw [Body.hasKey, h.1, h.2]

/-- Apply an update to the first document that the query of a body matches. -/
def Registry.updateKey (P : Platform) (body : Body)
    (set : MappingDoc → MappingDoc) (r : Registry) : Registry :=
  { r with mapping := updateFirst (body.hasKey P) set r.mapping }

/-! ## The handlers of the web interface -/

theorem run_forEach_insertChunk (chunks : List ChunkDoc) (w : World) :
    (forEach insertChunk chunks).run w =
      (.ok (), w.onRegistry fun r => { r with chunks := r.chunks ++ chunks }) := by
  induction chunks generalizing w with
  | nil => simp [World.onRegistry]
  | cons c rest ih =>
      rw [forEach_cons, insertChunk, run_modify_bind, ih]
      simp [World.onRegistry]

theorem run_uploadFromStream (P : Platform) (filename : String)
    (content : Bytes) (metadata : String) (w : World) :
    (uploadFromStream P filename content metadata).run w =
      (.ok (), w.onRegistry (Registry.upload P filename content metadata)) := by
  simp only [uploadFromStream, freshId, atomic_bind, done_bind, run_atomic]
  rw [run_bind, run_forEach_insertChunk]
  simp [insertFile, World.onRegistry, Registry.upload, Registry.uploadedFile]

theorem run_postFileupload (P : Platform) (username : Value)
    (filename : String) (content : Bytes) (w : World) :
    (postFileupload P username filename content).run w =
      if w.registry.files.any (·.hasKey (Ruby.toText P.table username) filename) then
        (.ok (.text "Duplicate Function. Please retry"), w)
      else
        (.ok .created, w.onRegistry
          (Registry.upload P filename content (Ruby.toText P.table username))) := by
  simp only [postFileupload, run_ask_bind, gt_iff_lt, List.countP_pos_iff,
    List.any_eq_true]
  split
  · rfl
  · rw [run_bind, run_uploadFromStream]
    rfl

theorem run_insertMapping_fresh {d : MappingDoc} {w : World}
    (hfresh : ∀ e ∈ w.registry.mapping, e._id ≠ d._id) :
    (insertMapping d).run w = (.ok (), w.onRegistry (Registry.insert d)) := by
  have hnone : ¬∃ e ∈ w.registry.mapping, e._id = d._id := by
    rintro ⟨e, he, hid⟩
    exact hfresh e he hid
  simp [insertMapping, World.onRegistry, Registry.insert, hnone]

theorem run_insertMapping_duplicate {d : MappingDoc} {w : World}
    (hdup : ∃ e ∈ w.registry.mapping, e._id = d._id) :
    (insertMapping d).run w = (.error (.duplicateKey d._id), w) := by
  simp [insertMapping, World.onRegistry, hdup]

theorem run_deleteLambda (uname filename : String) (w : World) :
    (deleteLambda uname filename).run w =
      match w.registry.mapping.find? (·.hasKey uname filename) with
      | none => (.ok .nothing, w)
      | some d =>
          (.ok (.text "Function Deleted!"), w.onRegistry (Registry.remove d._id)) := by
  simp only [deleteLambda, run_ask_bind]
  rw [← List.head?_filter]
  cases w.registry.mapping.filter (·.hasKey uname filename) with
  | nil => rfl
  | cons d rest => rfl

@[simp] theorem Body.registration_id (body : Body) (f : FileDoc) :
    (body.registration f)._id = f._id := rfl

/-- With at most one file for each user and name, `POST` inserts at most one
registration. -/
theorem run_postLambda (P : Platform) (body : Body) (w : World)
    (hfiles : (w.registry.files.map fun f => (f.metadata, f.filename)).Nodup) :
    (postLambda P body).run w =
      if w.registry.mapping.any (body.hasKey P) then
        (.ok (.text "Duplicate Function. Please retry"), w)
      else match w.registry.files.find? (body.hasFile P) with
        | none =>
            (.ok (.text
              "No function found for this data. Please upload function first."), w)
        | some f =>
            if w.registry.mapping.any (fun e => e._id = f._id) then
              (.error (.duplicateKey f._id), w)
            else
              (.ok .created, w.onRegistry (Registry.insert (body.registration f))) := by
  have hfilter : w.registry.files.filter (body.hasFile P) =
      (w.registry.files.find? (body.hasFile P)).toList := by
    apply filter_length_le_one hfiles
    intro f g hf hg
    simp only [Body.hasFile, FileDoc.hasKey, Bool.and_eq_true,
      decide_eq_true_eq] at hf hg
    rw [hf.1, hf.2, hg.1, hg.2]
  have hcount : w.registry.files.countP (body.hasFile P) =
      (w.registry.files.find? (body.hasFile P)).toList.length := by
    rw [List.countP_eq_length_filter, hfilter]
  by_cases hkey : ∃ d ∈ w.registry.mapping, body.hasKey P d = true
  · simp [postLambda, List.countP_pos_iff, hkey]
  · cases hfind : w.registry.files.find? (body.hasFile P) with
    | none =>
        simp [postLambda, List.countP_pos_iff, hkey, hcount, hfind]
    | some f =>
        rw [hfind] at hcount hfilter
        by_cases hdup : ∃ e ∈ w.registry.mapping, e._id = f._id
        · have hinsert := run_insertMapping_duplicate
            (d := body.registration f) (w := w) hdup
          simp [postLambda, List.countP_pos_iff, hkey, hcount, hfilter, hdup,
            run_bind, hinsert]
        · have hinsert := run_insertMapping_fresh
            (d := body.registration f) (w := w)
            (fun e he hid => hdup ⟨e, he, hid⟩)
          simp [postLambda, List.countP_pos_iff, hkey, hcount, hfilter, hdup,
            run_bind, hinsert]

/-- `POST` registers the file of a free key, or it changes nothing. -/
theorem postLambda_cases (P : Platform) (body : Body) (w : World)
    (hfiles : (w.registry.files.map fun f => (f.metadata, f.filename)).Nodup) :
    (∃ f, (∀ d ∈ w.registry.mapping, body.hasKey P d = false) ∧
        w.registry.files.find? (body.hasFile P) = some f ∧
        (∀ d ∈ w.registry.mapping, d._id ≠ f._id) ∧
        (postLambda P body).run w =
          (.ok .created, w.onRegistry (Registry.insert (body.registration f)))) ∨
      (((postLambda P body).run w).1 ≠ .ok .created ∧
        ((postLambda P body).run w).2 = w) := by
  rw [run_postLambda P body w hfiles]
  split
  · exact Or.inr ⟨by simp, rfl⟩
  · rename_i hfree
    split
    · exact Or.inr ⟨by simp, rfl⟩
    · rename_i f hfile
      split
      · exact Or.inr ⟨by simp, rfl⟩
      · rename_i hid
        exact Or.inl ⟨f, by simpa using hfree, hfile, by simpa using hid, rfl⟩

/-! ## `PUT` -/

theorem Registry.updateKey_updateKey {P : Platform} {body : Body}
    {f : MappingDoc → MappingDoc}
    (hf : ∀ d, body.hasKey P (f d) = body.hasKey P d)
    (g : MappingDoc → MappingDoc) (r : Registry) :
    (r.updateKey P body f).updateKey P body g =
      r.updateKey P body fun d => g (f d) := by
  simp only [Registry.updateKey, updateFirst_updateFirst hf]
  rfl

theorem run_putField (P : Platform) (body : Body) (value : Value)
    (set : Value → MappingDoc → MappingDoc) (doc : Option MappingDoc)
    (w : World) :
    ∃ doc', (putField P body value set doc).run w =
      (.ok doc', w.onRegistry
        (Registry.updateKey P body (fieldUpdate P value set))) := by
  by_cases hnull : value = .null
  · subst hnull
    have hid : fieldUpdate P .null set = id := by
      funext d
      simp [fieldUpdate]
    exact ⟨doc, by
      simp [putField, hid, World.onRegistry, Registry.updateKey, updateFirst_id]⟩
  · have hset : fieldUpdate P value set =
        set (.str (Ruby.toText P.table value)) := by
      funext d
      simp [fieldUpdate, hnull]
    refine ⟨(w.registry.mapping.find? (body.hasKey P)).map
      (set (.str (Ruby.toText P.table value))), ?_⟩
    rw [hset]
    simp only [putField, hnull, setFirst, ne_eq, not_false_eq_true,
      ↓reduceIte, run_atomic, run_done]
    rfl

theorem hasKey_fieldUpdate {P : Platform} {body : Body} {value : Value}
    (set : Value → MappingDoc → MappingDoc)
    (hset : ∀ v d, body.hasKey P (set v d) = body.hasKey P d) (d : MappingDoc) :
    body.hasKey P (fieldUpdate P value set d) = body.hasKey P d := by
  by_cases hnull : value = .null <;> simp [fieldUpdate, hnull, hset]

/-- `PUT` updates the first match of its query, if there is one. -/
theorem run_putLambda_reply (P : Platform) (body : Body) (w : World) :
    ∃ doc, (putLambda P body).run w =
      (.ok (if w.registry.mapping.any (body.hasKey P) then .document doc
        else .nothing),
        w.onRegistry (Registry.updateKey P body (body.update P))) := by
  by_cases hkey : ∃ d ∈ w.registry.mapping, body.hasKey P d = true
  · obtain ⟨doc₁, h₁⟩ := run_putField P body body.EventType
      MappingDoc.setEventType none w
    obtain ⟨doc₂, h₂⟩ := run_putField P body body.EventSource
      MappingDoc.setEventSource doc₁ (w.onRegistry _)
    obtain ⟨doc₃, h₃⟩ := run_putField P body body.Memory
      MappingDoc.setMemory doc₂ ((w.onRegistry _).onRegistry _)
    obtain ⟨doc₄, h₄⟩ := run_putField P body body.Environment
      MappingDoc.setEnvironment doc₃
      (((w.onRegistry _).onRegistry _).onRegistry _)
    refine ⟨doc₄, ?_⟩
    simp only [putLambda, run_ask_bind, gt_iff_lt, List.countP_pos_iff, hkey,
      ↓reduceIte, putEventType, putEventSource, putMemory, putEnvironment,
      List.any_eq_true]
    rw [run_bind_ok h₁, run_bind_ok h₂, run_bind_ok h₃, run_bind_ok h₄]
    simp only [World.onRegistry, pure_eq, run_done]
    congr 2
    rw [Registry.updateKey_updateKey, Registry.updateKey_updateKey,
      Registry.updateKey_updateKey]
    · rfl
    all_goals exact hasKey_fieldUpdate _ (fun _ _ => rfl)
  · have hnone : w.registry.mapping.find? (body.hasKey P) = none := by
      simpa using hkey
    refine ⟨none, ?_⟩
    simp [putLambda, List.countP_pos_iff, hkey, World.onRegistry,
      Registry.updateKey, updateFirst_of_find?_none hnone]

theorem run_putLambda (P : Platform) (body : Body) (w : World) :
    ((putLambda P body).run w).2 =
      w.onRegistry (Registry.updateKey P body (body.update P)) := by
  obtain ⟨doc, hrun⟩ := run_putLambda_reply P body w
  rw [hrun]

theorem run_getList (uname : String) (w : World) :
    (getList uname).run w =
      (.ok (if w.registry.mapping.filter (·.hasUser uname) = [] then
        .text "No functions listed"
      else .documents (w.registry.mapping.filter (·.hasUser uname))), w) := by
  simp only [getList, run_ask_bind]
  split <;> rfl

theorem run_getOne (uname fname : String) (w : World) :
    (getOne uname fname).run w =
      (.ok (.document (w.registry.mapping.find? (·.hasKey uname fname))), w) := by
  simp only [getOne, run_ask_bind, List.head?_filter]
  rfl

/-! ## Reading a file -/

/-- The bytes that `fs.get(objId).read()` returns, or its error. -/
def Registry.content (r : Registry) (objId : ObjectId) : Except Failure Bytes :=
  ((readFile objId).run { registry := r }).1

theorem run_readLoop (_id : ObjectId) (size fuel chunk_number : ℕ)
    (data : Bytes) (w : World) :
    (readLoop _id size fuel chunk_number data).run w =
      (((readLoop _id size fuel chunk_number data).run
        { registry := w.registry }).1, w) := by
  induction fuel generalizing chunk_number data with
  | zero => rfl
  | succ fuel ih =>
      simp only [readLoop]
      split
      · simp only [run_atomic, id_eq]
        cases w.registry.findChunk _id chunk_number with
        | none => rfl
        | some chunk => exact ih (chunk_number + 1) (data ++ chunk.data)
      · rfl

/-- Reading changes nothing. -/
theorem run_readFile (objId : ObjectId) (w : World) :
    (readFile objId).run w = (w.registry.content objId, w) := by
  simp only [readFile, Registry.content, run_atomic, id_eq]
  cases w.registry.findFile objId with
  | none => rfl
  | some f => exact run_readLoop objId f.length f.length 0 [] w

end LambdaOnOpenStack
