import LambdaOnOpenStack.Registry.Invariant

/-!
# The chunks of stored files

An upload inserts the chunks of a file before its document, and a file has one
chunk for each `chunkSize` bytes that it has begun.  `DELETE` removes one
chunk, so the others of a longer file stay without a document.
-/

namespace LambdaOnOpenStack

open Support

namespace Registry

/-- `fs.chunks` holds the chunks of the files in `fs.files`, all of them and no
others. -/
structure ChunksExact (r : Registry) : Prop where
  owned : ∀ c ∈ r.chunks, ∃ f ∈ r.files, f._id = c.files_id
  complete : ∀ f ∈ r.files, ∀ n < GridFS.chunkCount f.chunkSize f.length,
    ∃ c ∈ r.chunks, c.files_id = f._id ∧ c.n = n

/-- If the request is a deletion, the file of the document that it finds fits
into one chunk. -/
def DeletesWholly (P : Platform) (r : Registry) : Request → Prop
  | .delete uname filename =>
      ∀ d, r.mapping.find? (·.hasKey uname filename) = some d →
        ∀ f ∈ r.files, f._id = d._id → f.length ≤ P.chunkSize
  | _ => True

/-- The number of chunks of a file. -/
def chunksOf (r : Registry) (_id : ObjectId) : ℕ :=
  r.chunks.countP fun c => c.files_id = _id

/-- No chunk is stored twice. -/
def ChunksCounted (r : Registry) : Prop :=
  ∀ f ∈ r.files, r.chunksOf f._id = GridFS.chunkCount f.chunkSize f.length

variable {P : Platform} {r : Registry}

/-! ## All chunks of the files are there -/

theorem WellFormed.chunks_complete (h : WellFormed P r) :
    ∀ f ∈ r.files, ∀ n < GridFS.chunkCount f.chunkSize f.length,
      ∃ c ∈ r.chunks, c.files_id = f._id ∧ c.n = n := by
  intro f hf n hn
  obtain ⟨content, -, hstores⟩ := h.uploaded f hf
  rw [hstores.chunkSize, hstores.length] at hn
  obtain ⟨c, hfind, -⟩ := hstores.chunk n hn
  have hkey := List.find?_some hfind
  simp only [decide_eq_true_eq] at hkey
  exact ⟨c, List.mem_of_find?_eq_some hfind, hkey⟩

theorem WellFormed.chunksExact_iff (h : WellFormed P r) :
    r.ChunksExact ↔ ∀ c ∈ r.chunks, ∃ f ∈ r.files, f._id = c.files_id :=
  ⟨fun hexact => hexact.owned, fun howned => ⟨howned, h.chunks_complete⟩⟩

/-! ## How many chunks a file has -/

theorem ChunksCounted.upload (hcounted : r.ChunksCounted) (h : WellFormed P r)
    (filename : String) (content : Bytes) (metadata : String) :
    (r.upload P filename content metadata).ChunksCounted := by
  intro f hf
  have hcount : ∀ _id, (r.upload P filename content metadata).chunksOf _id =
      r.chunksOf _id + (GridFS.split P.chunkSize P.chunkSize_pos
        (P.newId r.issued) content).countP fun c => c.files_id = _id :=
    fun _id => List.countP_append
  rcases List.mem_append.mp hf with hf | hf
  · have hne : P.newId r.issued ≠ f._id := (h.file_fresh f hf).symm
    have hnone : ((GridFS.split P.chunkSize P.chunkSize_pos
        (P.newId r.issued) content).countP fun c => c.files_id = f._id) = 0 := by
      rw [List.countP_eq_zero]
      intro c hc
      simp [GridFS.mem_split hc, hne]
    rw [hcount, hnone, Nat.add_zero]
    exact hcounted f hf
  · obtain rfl := List.mem_singleton.mp hf
    have hold : r.chunksOf (P.newId r.issued) = 0 := by
      rw [chunksOf, List.countP_eq_zero]
      intro c hc
      simpa using h.chunk_fresh c hc
    have hall : ((GridFS.split P.chunkSize P.chunkSize_pos
        (P.newId r.issued) content).countP fun c =>
          c.files_id = P.newId r.issued) =
        GridFS.chunkCount P.chunkSize content.length := by
      rw [List.countP_eq_length.mpr]
      · simp [GridFS.split]
      · intro c hc
        simpa using GridFS.mem_split hc
    simp only [uploadedFile]
    rw [hcount, hold, hall, Nat.zero_add]

theorem ChunksCounted.remove (hcounted : r.ChunksCounted) (h : WellFormed P r)
    (_id : ObjectId) : (r.remove _id).ChunksCounted := by
  intro f hf
  obtain ⟨hmem, hne⟩ := (mem_eraseP_of_nodup h.file_ids).mp hf
  have hsame : (r.remove _id).chunksOf f._id = r.chunksOf f._id := by
    simp only [chunksOf, List.countP_eq_length_filter]
    refine congrArg List.length (filter_eraseP ?_)
    intro c _ hc
    simp only [decide_eq_true_eq] at hc
    simp [hc, hne.symm]
  rw [hsame]
  exact hcounted f hmem

theorem Change.chunksCounted {request : Request} {r' : Registry}
    (hchange : Change P r request r') (h : WellFormed P r)
    (hcounted : r.ChunksCounted) : r'.ChunksCounted := by
  cases hchange with
  | uploaded => exact hcounted.upload h _ _ _
  | removed => exact hcounted.remove h _
  | _ => exact hcounted

/-! ## What a deletion leaves -/

/-- A deletion leaves no chunk without its file exactly if there is at most
one chunk with the `_id`. -/
theorem WellFormed.owned_remove_iff (h : WellFormed P r)
    (howned : ∀ c ∈ r.chunks, ∃ f ∈ r.files, f._id = c.files_id)
    (_id : ObjectId) :
    (∀ c ∈ (r.remove _id).chunks,
        ∃ f ∈ (r.remove _id).files, f._id = c.files_id) ↔
      r.chunksOf _id ≤ 1 := by
  rw [chunksOf, ← forall_eraseP_iff]
  constructor
  · intro hafter c hc
    obtain ⟨f, hf, hid⟩ := hafter c hc
    have hne := ((mem_eraseP_of_nodup h.file_ids).mp hf).2
    rw [hid] at hne
    simpa using hne
  · intro hgone c hc
    obtain ⟨f, hf, hid⟩ := howned c (List.mem_of_mem_eraseP hc)
    refine ⟨f, (mem_eraseP_of_nodup h.file_ids).mpr ⟨hf, ?_⟩, hid⟩
    rw [hid]
    simpa using hgone c hc

/-- A file has at most one chunk exactly if it fits into one. -/
theorem chunkCount_le_one_iff {size length : ℕ} (hsize : 0 < size) :
    GridFS.chunkCount size length ≤ 1 ↔ length ≤ size := by
  have hmore : 1 < GridFS.chunkCount size length ↔ 1 * size < length :=
    GridFS.lt_chunkCount_iff hsize
  rw [Nat.one_mul] at hmore
  omega

theorem WellFormed.chunksOf_le_one_iff (h : WellFormed P r)
    (hexact : r.ChunksExact) (hcounted : r.ChunksCounted) (_id : ObjectId) :
    r.chunksOf _id ≤ 1 ↔
      ∀ f ∈ r.files, f._id = _id → f.length ≤ P.chunkSize := by
  by_cases hfile : ∃ f ∈ r.files, f._id = _id
  · obtain ⟨f, hf, rfl⟩ := hfile
    obtain ⟨content, -, hstores⟩ := h.uploaded f hf
    rw [hcounted f hf, hstores.chunkSize, chunkCount_le_one_iff P.chunkSize_pos]
    constructor
    · intro hlength g hg hid
      rw [eq_of_key_eq h.file_ids hg hf hid]
      exact hlength
    · intro hall
      exact hall f hf rfl
  · refine iff_of_true ?_ fun f hf hid => absurd ⟨f, hf, hid⟩ hfile
    have hnone : r.chunksOf _id = 0 := by
      rw [chunksOf, List.countP_eq_zero]
      intro c hc hid
      obtain ⟨f, hf, hfid⟩ := hexact.owned c hc
      exact hfile ⟨f, hf, hfid.trans (of_decide_eq_true hid)⟩
    omega

/-- A request keeps the chunks exact if and only if it meets
`DeletesWholly`. -/
theorem Change.chunksExact_iff {request : Request} {r' : Registry}
    (hchange : Change P r request r') (h : WellFormed P r)
    (hexact : r.ChunksExact) (hcounted : r.ChunksCounted) :
    r'.ChunksExact ↔ r.DeletesWholly P request := by
  rw [(hchange.wellFormed h).chunksExact_iff]
  cases hchange with
  | idle hrequest =>
      refine iff_of_true hexact.owned ?_
      cases request with
      | delete uname filename => exact absurd rfl (hrequest uname filename)
      | _ => trivial
  | unmatched hnone =>
      refine iff_of_true hexact.owned ?_
      intro d hfind
      rw [hnone] at hfind
      simp at hfind
  | uploaded =>
      refine iff_of_true ?_ trivial
      intro c hc
      rcases List.mem_append.mp hc with hc | hc
      · obtain ⟨f, hf, hid⟩ := hexact.owned c hc
        exact ⟨f, List.mem_append_left _ hf, hid⟩
      · exact ⟨_, List.mem_append_right _ (List.mem_singleton.mpr rfl),
          (GridFS.mem_split hc).symm⟩
  | @removed uname filename d hfind =>
      rw [h.owned_remove_iff hexact.owned,
        h.chunksOf_le_one_iff hexact hcounted]
      constructor
      · intro hfits d' hfind'
        obtain rfl : d = d' := Option.some.inj (hfind.symm.trans hfind')
        exact hfits
      · intro hfits
        exact hfits d hfind
  | _ => exact iff_of_true hexact.owned trivial

theorem chunksExact_empty : ({} : Registry).ChunksExact :=
  ⟨by simp, by simp⟩

end Registry

open Registry

theorem Reachable.chunksCounted {P : Platform} {w : World}
    (hw : Reachable P w) : w.registry.ChunksCounted :=
  hw.invariant (I := fun w => w.registry.ChunksCounted) (by simp [ChunksCounted])
    fun _ request hwell h => (hwell.change_exec request).chunksCounted hwell h

/-- In a run of complete requests `fs.chunks` holds exactly the chunks of the
stored files throughout if and only if every deletion is of a file that fits
into one chunk. -/
theorem chunksExact_throughout_iff (P : Platform) (requests : List Request) :
    Throughout (exec P) (fun w => w.registry.ChunksExact) {} requests ↔
      Along (exec P) (fun w request => w.registry.DeletesWholly P request) {}
        requests := by
  refine throughout_iff_along (J := Reachable P)
    (fun _ request hw => hw.exec request) ?_ ⟨[], rfl⟩ chunksExact_empty requests
  intro w request hw hexact
  exact (hw.wellFormed.change_exec request).chunksExact_iff hw.wellFormed hexact
    hw.chunksCounted

/-- A file is uploaded and registered. -/
def uploadAndRegister (content : Bytes) : List Request :=
  [.fileupload (.str "testUser") "test.py" content,
    .post (.sample "testUser" "test.py")]

theorem runAll_uploadAndRegister (P : Platform) (content : Bytes) :
    let f := Registry.uploadedFile P {} "test.py" content "testUser"
    runAll (exec P) {} (uploadAndRegister content) =
      (({} : World).onRegistry
        (Registry.upload P "test.py" content "testUser")).onRegistry
          (Registry.insert ((Body.sample "testUser" "test.py").registration f)) := by
  have hupload : exec P {} (.fileupload (.str "testUser") "test.py" content) =
      ({} : World).onRegistry
        (Registry.upload P "test.py" content "testUser") := by
    rw [exec_eq, Request.handler, run_postFileupload]
    rfl
  have hfiles : ((({} : World).onRegistry
      (Registry.upload P "test.py" content "testUser")).registry.files.map
        fun f => (f.metadata, f.filename)).Nodup := List.nodup_singleton _
  rw [uploadAndRegister, runAll_cons, hupload, runAll_cons, runAll_nil, exec_eq,
    Request.handler, run_postLambda _ _ _ hfiles]
  rfl

/-- The deletion of a file that is longer than a chunk leaves chunks behind. -/
theorem long_file_leaves_chunks {P : Platform} {content : Bytes}
    (hlong : P.chunkSize < content.length) :
    ¬Throughout (exec P) (fun w => w.registry.ChunksExact) {}
      (uploadAndRegister content ++ [.delete "testUser" "test.py"]) := by
  intro hthroughout
  let w := runAll (exec P) {} (uploadAndRegister content)
  have hbefore : w.registry.ChunksExact :=
    throughout_iff.mp hthroughout (uploadAndRegister content) _ rfl
  have hafter : (exec P w (.delete "testUser" "test.py")).registry.ChunksExact := by
    have hlast := throughout_iff.mp hthroughout _ [] (List.append_nil _).symm
    rw [runAll_append, runAll_cons, runAll_nil] at hlast
    exact hlast
  have hw : Reachable P w := ⟨_, rfl⟩
  have hwell := hw.wellFormed
  have hfits := ((hwell.change_exec (.delete "testUser" "test.py")).chunksExact_iff
    hwell hbefore hw.chunksCounted).mp hafter
  have hregistry := congrArg World.registry (runAll_uploadAndRegister P content)
  have hlength := hfits
    ((Body.sample "testUser" "test.py").registration
      (Registry.uploadedFile P {} "test.py" content "testUser"))
    (by rw [hregistry]; rfl) _ (by rw [hregistry]; exact List.mem_singleton.mpr rfl)
    rfl
  exact absurd hlong (Nat.not_lt.mpr hlength)

/-- The chunks of the driver have 255 KiB; this file has one byte more. -/
theorem chunk_survives_delete :
    ¬Throughout (exec default) (fun w => w.registry.ChunksExact) {}
      (uploadAndRegister (List.replicate 261121 0) ++
        [.delete "testUser" "test.py"]) := by
  apply long_file_leaves_chunks
  rw [List.length_replicate]
  decide

end LambdaOnOpenStack
