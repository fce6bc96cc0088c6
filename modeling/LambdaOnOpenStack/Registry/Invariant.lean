import LambdaOnOpenStack.Registry.Storage
import LambdaOnOpenStack.Registry.Transitions

/-!
# The invariant of the database

Three groups of facts hold in every state that complete requests can reach:
identifiers are unique and were issued, every file is stored as it was
uploaded, and a registration has the `_id` of a file of its user and name
while a run record has the `_id` of no upload.
-/

namespace LambdaOnOpenStack

open Support

namespace Registry

/-- Identifiers are unique in each collection and come from the generator. -/
structure Identified (P : Platform) (r : Registry) : Prop where
  file_ids : (r.files.map (·._id)).Nodup
  mapping_ids : (r.mapping.map (·._id)).Nodup
  upload_ids : (r.uploads.map (·.1)).Nodup
  mapping_issued : ∀ d ∈ r.mapping, ∃ k < r.issued, d._id = P.newId k
  upload_issued : ∀ u ∈ r.uploads, ∃ k < r.issued, u.1 = P.newId k
  chunk_issued : ∀ c ∈ r.chunks, ∃ k < r.issued, c.files_id = P.newId k

/-- One file for each user and name, and each holds the bytes of its upload. -/
structure Stored (P : Platform) (r : Registry) : Prop where
  file_keys : (r.files.map fun f => (f.metadata, f.filename)).Nodup
  uploaded : ∀ f ∈ r.files,
    ∃ content, (f._id, content) ∈ r.uploads ∧ r.Stores P f content

/-- Registrations belong to files, run records do not. -/
structure Linked (P : Platform) (r : Registry) : Prop where
  registration_file : ∀ d ∈ r.mapping, d.isRegistration = true →
    ∃ f ∈ r.files, f._id = d._id ∧
      f.metadata = Ruby.toText P.table d.username ∧
      f.filename = Ruby.toText P.table d.filename
  run_id : ∀ d ∈ r.mapping, d.isRunRecord = true →
    ∀ content, (d._id, content) ∉ r.uploads

structure WellFormed (P : Platform) (r : Registry) : Prop
    extends Identified P r, Stored P r, Linked P r

variable {P : Platform} {r : Registry}

theorem WellFormed.empty : WellFormed P {} where
  file_ids := List.nodup_nil
  mapping_ids := List.nodup_nil
  upload_ids := List.nodup_nil
  mapping_issued := by simp
  upload_issued := by simp
  chunk_issued := by simp
  file_keys := List.nodup_nil
  uploaded := by simp
  registration_file := by simp
  run_id := by simp

/-! ## Fresh identifiers -/

theorem newId_ne {P : Platform} {k n : ℕ} (hk : k < n) :
    P.newId k ≠ P.newId n := by
  intro heq
  have hkn := P.newId_injective heq
  omega

theorem Identified.mapping_fresh (h : Identified P r) :
    ∀ d ∈ r.mapping, d._id ≠ P.newId r.issued := by
  intro d hd
  obtain ⟨k, hk, hid⟩ := h.mapping_issued d hd
  rw [hid]
  exact newId_ne hk

theorem Identified.upload_fresh (h : Identified P r) :
    ∀ u ∈ r.uploads, u.1 ≠ P.newId r.issued := by
  intro u hu
  obtain ⟨k, hk, hid⟩ := h.upload_issued u hu
  rw [hid]
  exact newId_ne hk

theorem Identified.chunk_fresh (h : Identified P r) :
    ∀ c ∈ r.chunks, c.files_id ≠ P.newId r.issued := by
  intro c hc
  obtain ⟨k, hk, hid⟩ := h.chunk_issued c hc
  rw [hid]
  exact newId_ne hk

theorem WellFormed.file_fresh (h : WellFormed P r) :
    ∀ f ∈ r.files, f._id ≠ P.newId r.issued := by
  intro f hf
  obtain ⟨content, hupload, -⟩ := h.uploaded f hf
  exact h.upload_fresh _ hupload

/-- What was issued stays issued. -/
theorem issued_mono {k n : ℕ} {_id : ObjectId}
    (h : ∃ j < k, _id = P.newId j) (hkn : k ≤ n) :
    ∃ j < n, _id = P.newId j := by
  obtain ⟨j, hj, hid⟩ := h
  exact ⟨j, by omega, hid⟩

/-! ## Uploads -/

section Upload

variable {filename metadata : String} {content : Bytes}

theorem Identified.upload (h : WellFormed P r) :
    Identified P (r.upload P filename content metadata) where
  file_ids := by
    simpa [Registry.upload, uploadedFile, List.nodup_append] using
      ⟨h.file_ids, h.file_fresh⟩
  mapping_ids := h.mapping_ids
  upload_ids := by
    have hfresh := h.upload_fresh
    simp only [Registry.upload, List.map_append, List.map_cons, List.map_nil,
      List.nodup_append, List.nodup_singleton, List.mem_map,
      List.mem_singleton, true_and]
    refine ⟨h.upload_ids, ?_⟩
    rintro _ ⟨u, hu, rfl⟩ _ rfl
    exact hfresh u hu
  mapping_issued := by
    intro d hd
    exact issued_mono (h.mapping_issued d hd) (Nat.le_succ _)
  upload_issued := by
    intro u hu
    rcases List.mem_append.mp hu with hu | hu
    · exact issued_mono (h.upload_issued u hu) (Nat.le_succ _)
    · obtain rfl := List.mem_singleton.mp hu
      exact ⟨r.issued, Nat.lt_succ_self _, rfl⟩
  chunk_issued := by
    intro c hc
    rcases List.mem_append.mp hc with hc | hc
    · exact issued_mono (h.chunk_issued c hc) (Nat.le_succ _)
    · exact ⟨r.issued, Nat.lt_succ_self _, GridFS.mem_split hc⟩

/-- The new file is stored. -/
theorem stores_uploadedFile (h : Identified P r) :
    (r.upload P filename content metadata).Stores P
      (r.uploadedFile P filename content metadata) content where
  length := rfl
  chunkSize := rfl
  chunk := by
    intro n hn
    obtain ⟨c, hfind, hdata⟩ :=
      GridFS.find?_split P.chunkSize_pos (P.newId r.issued) hn
    refine ⟨c, ?_, hdata⟩
    have hold : r.findChunk (P.newId r.issued) n = none := by
      rw [findChunk, List.find?_eq_none]
      intro c hc
      simp [h.chunk_fresh c hc]
    calc
      (r.upload P filename content metadata).findChunk (P.newId r.issued) n =
          (r.findChunk (P.newId r.issued) n).or _ := List.find?_append
      _ = some c := by rw [hold, Option.none_or, hfind]

theorem Stored.upload (h : WellFormed P r)
    (hfree : ∀ f ∈ r.files, f.hasKey metadata filename = false) :
    Stored P (r.upload P filename content metadata) where
  file_keys := by
    simp only [Registry.upload, List.map_append, List.map_cons, List.map_nil,
      List.nodup_append, List.nodup_singleton, List.mem_map,
      List.mem_singleton, true_and]
    refine ⟨h.file_keys, ?_⟩
    rintro _ ⟨f, hf, rfl⟩ _ rfl hkey
    obtain ⟨hmetadata, hfilename⟩ := Prod.mk.inj hkey
    have hused := hfree f hf
    simp [FileDoc.hasKey, hmetadata, hfilename, uploadedFile] at hused
  uploaded := by
    intro f hf
    rcases List.mem_append.mp hf with hf | hf
    · obtain ⟨content, hupload, hstores⟩ := h.uploaded f hf
      refine ⟨content, List.mem_append_left _ hupload, ?_⟩
      apply hstores.of_findChunk
      intro n c hfind
      calc
        (r.upload P filename _ metadata).findChunk f._id n =
            (r.findChunk f._id n).or _ := List.find?_append
        _ = some c := by rw [hfind, Option.some_or]
    · obtain rfl := List.mem_singleton.mp hf
      exact ⟨content, List.mem_append_right _ (List.mem_singleton.mpr rfl),
        stores_uploadedFile h.toIdentified⟩

theorem Linked.upload (h : WellFormed P r) :
    Linked P (r.upload P filename content metadata) where
  registration_file := by
    intro d hd hreg
    obtain ⟨f, hf, hfile⟩ := h.registration_file d hd hreg
    exact ⟨f, List.mem_append_left _ hf, hfile⟩
  run_id := by
    intro d hd hrun bytes hupload
    rcases List.mem_append.mp hupload with hupload | hupload
    · exact h.run_id d hd hrun bytes hupload
    · have hid := (Prod.mk.inj (List.mem_singleton.mp hupload)).1
      exact h.mapping_fresh d hd hid

end Upload

/-! ## Registrations -/

/-- A change of `mapping` leaves the files stored. -/
theorem Stored.of_same {r' : Registry} (h : Stored P r)
    (hfiles : r'.files = r.files) (hchunks : r'.chunks = r.chunks)
    (huploads : r'.uploads = r.uploads) : Stored P r' where
  file_keys := by
    rw [hfiles]
    exact h.file_keys
  uploaded := by
    intro f hf
    rw [hfiles] at hf
    obtain ⟨content, hupload, hstores⟩ := h.uploaded f hf
    rw [huploads]
    refine ⟨content, hupload, hstores.of_findChunk ?_⟩
    intro n c hfind
    rw [findChunk, hchunks]
    exact hfind

section Register

variable {body : Body} {f : FileDoc}

theorem registered_keys
    (hfile : r.files.find? (body.hasFile P) = some f) :
    f ∈ r.files ∧ f.metadata = Ruby.toText P.table body.UserName ∧
      f.filename = Ruby.toText P.table body.FileName := by
  have hkey := List.find?_some hfile
  simp only [Body.hasFile, FileDoc.hasKey, Bool.and_eq_true,
    decide_eq_true_eq] at hkey
  exact ⟨List.mem_of_find?_eq_some hfile, hkey⟩

theorem Identified.register (h : WellFormed P r)
    (hfile : r.files.find? (body.hasFile P) = some f)
    (hid : ∀ d ∈ r.mapping, d._id ≠ f._id) :
    Identified P (r.insert (body.registration f)) :=
  { h with
    mapping_ids := by
      simpa [Registry.insert, List.nodup_append] using ⟨h.mapping_ids, hid⟩
    mapping_issued := by
      intro d hd
      rcases List.mem_append.mp hd with hd | hd
      · exact h.mapping_issued d hd
      · obtain rfl := List.mem_singleton.mp hd
        obtain ⟨content, hupload, -⟩ :=
          h.uploaded f (registered_keys hfile).1
        exact h.upload_issued _ hupload }

theorem Linked.register (h : WellFormed P r)
    (hfile : r.files.find? (body.hasFile P) = some f) :
    Linked P (r.insert (body.registration f)) where
  registration_file := by
    intro d hd hreg
    rcases List.mem_append.mp hd with hd | hd
    · exact h.registration_file d hd hreg
    · obtain rfl := List.mem_singleton.mp hd
      obtain ⟨hmem, hkeys⟩ := registered_keys hfile
      exact ⟨f, hmem, rfl, hkeys⟩
  run_id := by
    intro d hd hrun
    rcases List.mem_append.mp hd with hd | hd
    · exact h.run_id d hd hrun
    · obtain rfl := List.mem_singleton.mp hd
      simp [MappingDoc.isRunRecord, Body.registration] at hrun

end Register

/-! ## Updates -/

section Update

variable (body : Body)

/-- A `PUT` keeps the identity, the key and the kind of the document. -/
theorem update_kept (d : MappingDoc) :
    (body.update P d)._id = d._id ∧
      (body.update P d).username = d.username ∧
      (body.update P d).filename = d.filename ∧
      (body.update P d).log_uuid = d.log_uuid ∧
      (body.update P d).sequence_count = d.sequence_count := by
  simp only [Body.update, fieldUpdate, MappingDoc.setEnvironment,
    MappingDoc.setMemory, MappingDoc.setEventSource, MappingDoc.setEventType]
  split_ifs <;> exact ⟨rfl, rfl, rfl, rfl, rfl⟩

theorem update_isRunRecord (d : MappingDoc) :
    (body.update P d).isRunRecord = d.isRunRecord := by
  rw [MappingDoc.isRunRecord, MappingDoc.isRunRecord,
    (update_kept body d).2.2.2.1]

theorem update_isRegistration (d : MappingDoc) :
    (body.update P d).isRegistration = d.isRegistration := by
  rw [MappingDoc.isRegistration, MappingDoc.isRegistration,
    (update_kept body d).2.2.2.1]

theorem update_hasKey (u f : String) (d : MappingDoc) :
    (body.update P d).hasKey u f = d.hasKey u f := by
  obtain ⟨-, huser, hname, -⟩ := update_kept (P := P) body d
  rw [MappingDoc.hasKey, huser, hname, MappingDoc.hasKey]

/-- The query of a `PUT` finds the document that it has updated. -/
theorem find?_updateKey {d : MappingDoc}
    (hfind : r.mapping.find? (body.hasKey P) = some d) :
    (r.updateKey P body (body.update P)).mapping.find? (body.hasKey P) =
      some (body.update P d) := by
  have hfound := find?_updateFirst_self
    (fun e => update_hasKey (P := P) body (Ruby.toText P.table body.UserName)
      (Ruby.toText P.table body.FileName) e) r.mapping
  exact hfound.trans (congrArg (Option.map (body.update P)) hfind)

/-- Every document after a `PUT` is one from before, updated or not. -/
theorem mem_updateKey {d : MappingDoc}
    (hd : d ∈ (r.updateKey P body (body.update P)).mapping) :
    ∃ e ∈ r.mapping, d._id = e._id ∧ d.username = e.username ∧
      d.filename = e.filename ∧ d.log_uuid = e.log_uuid := by
  rcases mem_updateFirst hd with hd | ⟨e, hfind, rfl⟩
  · exact ⟨d, hd, rfl, rfl, rfl, rfl⟩
  · obtain ⟨hid, husername, hfilename, hlog, -⟩ := update_kept (P := P) body e
    exact ⟨e, List.mem_of_find?_eq_some hfind, hid, husername, hfilename, hlog⟩

theorem Identified.update (h : WellFormed P r) :
    Identified P (r.updateKey P body (body.update P)) :=
  { h with
    mapping_ids := by
      have hids := map_updateFirst (p := body.hasKey P) (g := (·._id))
        (fun d => (update_kept (P := P) body d).1) r.mapping
      simpa only [Registry.updateKey, hids] using h.mapping_ids
    mapping_issued := by
      intro d hd
      obtain ⟨e, he, hid, -⟩ := mem_updateKey body hd
      rw [hid]
      exact h.mapping_issued e he }

theorem Linked.update (h : WellFormed P r) :
    Linked P (r.updateKey P body (body.update P)) where
  registration_file := by
    intro d hd hreg
    obtain ⟨e, he, hid, husername, hfilename, hlog⟩ := mem_updateKey body hd
    rw [hid, husername, hfilename]
    apply h.registration_file e he
    simpa [MappingDoc.isRegistration, hlog] using hreg
  run_id := by
    intro d hd hrun
    obtain ⟨e, he, hid, -, -, hlog⟩ := mem_updateKey body hd
    rw [hid]
    apply h.run_id e he
    simpa [MappingDoc.isRunRecord, hlog] using hrun

end Update

/-! ## Deletions -/

section Remove

variable {_id : ObjectId}

theorem Identified.remove (h : WellFormed P r) :
    Identified P (r.remove _id) where
  file_ids := nodup_map_eraseP h.file_ids _
  mapping_ids := nodup_map_eraseP h.mapping_ids _
  upload_ids := h.upload_ids
  mapping_issued := by
    intro d hd
    exact h.mapping_issued d (List.mem_of_mem_eraseP hd)
  upload_issued := h.upload_issued
  chunk_issued := by
    intro c hc
    exact h.chunk_issued c (List.mem_of_mem_eraseP hc)

theorem findChunk_remove {files_id : ObjectId} (hne : files_id ≠ _id) (n : ℕ) :
    (r.remove _id).findChunk files_id n = r.findChunk files_id n := by
  apply find?_eraseP_of_disjoint
  intro c hc
  simp only [decide_eq_true_eq] at hc
  simp [hc.1, hne]

theorem Stored.remove (h : WellFormed P r) : Stored P (r.remove _id) where
  file_keys := nodup_map_eraseP h.file_keys _
  uploaded := by
    intro f hf
    obtain ⟨hmem, hne⟩ := (mem_eraseP_of_nodup h.file_ids).mp hf
    obtain ⟨content, hupload, hstores⟩ := h.uploaded f hmem
    refine ⟨content, hupload, hstores.of_findChunk ?_⟩
    intro n c hfind
    rw [findChunk_remove hne]
    exact hfind

theorem Linked.remove (h : WellFormed P r) : Linked P (r.remove _id) where
  registration_file := by
    intro d hd hreg
    obtain ⟨hmem, hne⟩ := (mem_eraseP_of_nodup h.mapping_ids).mp hd
    obtain ⟨f, hf, hid, hkeys⟩ := h.registration_file d hmem hreg
    refine ⟨f, (mem_eraseP_of_nodup h.file_ids).mpr ⟨hf, ?_⟩, hid, hkeys⟩
    rw [hid]
    exact hne
  run_id := by
    intro d hd hrun
    exact h.run_id d (List.mem_of_mem_eraseP hd) hrun

end Remove

/-! ## Run records -/

section Record

variable {latest : MappingDoc} {log_uuid : String}

theorem Identified.record (h : WellFormed P r) :
    Identified P (r.record P latest log_uuid) :=
  { h with
    mapping_ids := by
      simpa [Registry.record, runRecord, RunRecord.document, List.nodup_append] using
        ⟨h.mapping_ids, h.mapping_fresh⟩
    mapping_issued := by
      intro d hd
      rcases List.mem_append.mp hd with hd | hd
      · exact issued_mono (h.mapping_issued d hd) (Nat.le_succ _)
      · obtain rfl := List.mem_singleton.mp hd
        exact ⟨r.issued, Nat.lt_succ_self _, rfl⟩
    upload_issued := by
      intro u hu
      exact issued_mono (h.upload_issued u hu) (Nat.le_succ _)
    chunk_issued := by
      intro c hc
      exact issued_mono (h.chunk_issued c hc) (Nat.le_succ _) }

theorem Linked.record (h : WellFormed P r) :
    Linked P (r.record P latest log_uuid) where
  registration_file := by
    intro d hd hreg
    rcases List.mem_append.mp hd with hd | hd
    · exact h.registration_file d hd hreg
    · obtain rfl := List.mem_singleton.mp hd
      simp [MappingDoc.isRegistration, runRecord, RunRecord.document] at hreg
  run_id := by
    intro d hd hrun content hupload
    rcases List.mem_append.mp hd with hd | hd
    · exact h.run_id d hd hrun content hupload
    · obtain rfl := List.mem_singleton.mp hd
      exact h.upload_fresh _ hupload rfl

theorem WellFormed.record (h : WellFormed P r) (latest : MappingDoc)
    (log_uuid : String) : WellFormed P (r.record P latest log_uuid) :=
  ⟨Identified.record h, h.toStored.of_same rfl rfl rfl, Linked.record h⟩

end Record

/-! ## Every change keeps the invariant -/

theorem Change.wellFormed {request : Request} {r' : Registry}
    (hchange : Change P r request r') (h : WellFormed P r) : WellFormed P r' := by
  cases hchange with
  | idle => exact h
  | unmatched => exact h
  | uploaded hfree =>
      exact ⟨Identified.upload h, Stored.upload h hfree, Linked.upload h⟩
  | registered _ hfile hid =>
      exact ⟨Identified.register h hfile hid, h.toStored.of_same rfl rfl rfl,
        Linked.register h hfile⟩
  | updated =>
      exact ⟨Identified.update _ h, h.toStored.of_same rfl rfl rfl,
        Linked.update _ h⟩
  | removed =>
      exact ⟨Identified.remove h, Stored.remove h, Linked.remove h⟩
  | recorded => exact h.record _ _

theorem WellFormed.change_exec {w : World} (h : WellFormed P w.registry)
    (request : Request) :
    Change P w.registry request (exec P w request).registry :=
  exec_change request h.file_keys

theorem WellFormed.after_exec {w : World} (h : WellFormed P w.registry)
    (request : Request) :
    WellFormed P (exec P w request).registry :=
  (h.change_exec request).wellFormed h

end Registry

theorem Reachable.wellFormed {P : Platform} {w : World} (hw : Reachable P w) :
    Registry.WellFormed P w.registry := by
  obtain ⟨requests, rfl⟩ := hw
  exact runAll_invariant (I := fun w : World => Registry.WellFormed P w.registry)
    (fun _ request h => h.after_exec request) Registry.WellFormed.empty requests

theorem Reachable.runAll {P : Platform} {w : World} (hw : Reachable P w)
    (requests : List Request) : Reachable P (runAll (exec P) w requests) := by
  obtain ⟨before, rfl⟩ := hw
  exact ⟨before ++ requests, runAll_append _ _ _ _⟩

theorem Reachable.exec {P : Platform} {w : World} (hw : Reachable P w)
    (request : Request) : Reachable P (exec P w request) :=
  hw.runAll [request]

/-- What holds of the empty world, and what every request keeps on a
well-formed database, holds of every reachable world. -/
theorem Reachable.invariant {P : Platform} {I : World → Prop} (hinit : I {})
    (hstep : ∀ (w : World) (request : Request),
      Registry.WellFormed P w.registry → I w → I (LambdaOnOpenStack.exec P w request))
    {w : World} (hw : Reachable P w) : I w := by
  obtain ⟨requests, rfl⟩ := hw
  exact (runAll_invariant
    (I := fun w : World => Registry.WellFormed P w.registry ∧ I w)
    (fun w request h => ⟨h.1.after_exec request, hstep w request h.1 h.2⟩)
    ⟨Registry.WellFormed.empty, hinit⟩ requests).2

/-! ## Reading a stored file -/

namespace Registry

variable {P : Platform} {r : Registry}

theorem WellFormed.findFile (h : WellFormed P r) {f : FileDoc}
    (hf : f ∈ r.files) : r.findFile f._id = some f :=
  find?_key_eq_some h.file_ids hf

theorem WellFormed.content_of_mem (h : WellFormed P r) {f : FileDoc}
    (hf : f ∈ r.files) :
    ∃ content, (f._id, content) ∈ r.uploads ∧
      r.content f._id = .ok content := by
  obtain ⟨content, hupload, hstores⟩ := h.uploaded f hf
  exact ⟨content, hupload, content_of_stores (h.findFile hf) hstores⟩

/-- The content read for an identifier is the content uploaded for it. -/
theorem WellFormed.content_eq_uploaded (h : WellFormed P r) {_id : ObjectId}
    {content bytes : Bytes} (hread : r.content _id = .ok content)
    (hupload : (_id, bytes) ∈ r.uploads) : content = bytes := by
  by_cases hfile : ∃ f ∈ r.files, f._id = _id
  · obtain ⟨f, hf, rfl⟩ := hfile
    obtain ⟨stored, hstored, hcontent⟩ := h.content_of_mem hf
    have hsame := eq_of_key_eq h.upload_ids hstored hupload rfl
    rw [hcontent] at hread
    simp_all
  · have hnone : r.findFile _id = none := by
      simpa [Registry.findFile] using hfile
    simp [Registry.content, readFile, hnone] at hread

/-- A registration can be read. -/
theorem WellFormed.content_of_registration (h : WellFormed P r)
    {d : MappingDoc} (hd : d ∈ r.mapping) (hreg : d.isRegistration = true) :
    ∃ content, (d._id, content) ∈ r.uploads ∧
      r.content d._id = .ok content := by
  obtain ⟨f, hf, hid, -⟩ := h.registration_file d hd hreg
  rw [← hid]
  exact h.content_of_mem hf

/-- A run record cannot. -/
theorem WellFormed.content_of_runRecord (h : WellFormed P r)
    {d : MappingDoc} (hd : d ∈ r.mapping) (hrun : d.isRunRecord = true) :
    r.findFile d._id = none ∧ r.content d._id = .error (.noFile d._id) := by
  have hnone : r.findFile d._id = none := by
    rw [Registry.findFile, List.find?_eq_none]
    intro f hf hid
    obtain ⟨content, hupload, -⟩ := h.uploaded f hf
    simp only [decide_eq_true_eq] at hid
    rw [hid] at hupload
    exact h.run_id d hd hrun content hupload
  exact ⟨hnone, by simp [Registry.content, readFile, hnone]⟩

end Registry

end LambdaOnOpenStack
