import LambdaOnOpenStack.Registry.Concurrency
import LambdaOnOpenStack.Registry.Shares

/-!
# Files under concurrent requests

An upload inserts all chunks before the document of its file, and a deletion
removes the document before a chunk.  Requests and dispatches take their steps
in any order here, and any of them may stop for good before it ends.  The file
documents are whole all the same, and a dispatch that reads a file reads the
bytes of one upload or fails.
-/

namespace LambdaOnOpenStack

open Support Program

/-! ## Every request is secure -/

section Requests

variable {P : Platform}

theorem Fits.of_same {g : Share} {w t : World} (h : Fits P g w)
    (hregistry : t.registry = w.registry) (hhost : t.host = w.host) :
    Fits P g t := by
  refine ⟨hregistry ▸ h.sound, hregistry ▸ h.shares, ?_⟩
  intro path content hwrite
  rw [hhost] at hwrite
  rw [hregistry]
  exact h.wrote path content hwrite

/-- A change of the database that forgets no upload. -/
theorem Fits.onRegistry {g g' : Share} {w : World} (h : Fits P g w)
    {f : Registry → Registry} (hsound : (f w.registry).Sound P)
    (hshares : (f w.registry).Shares P g')
    (huploads : ∀ x ∈ w.registry.uploads, x ∈ (f w.registry).uploads) :
    Fits P g' (w.onRegistry f) := by
  refine ⟨hsound, hshares, ?_⟩
  intro path content hwrite
  obtain ⟨_id, hupload⟩ := h.wrote path content hwrite
  exact ⟨_id, huploads _ hupload⟩

/-- What a request learns of a document that it reads. -/
theorem Fits.settled {g : Share} {w : World} (h : Fits P g w) {d : MappingDoc}
    (hd : d ∈ w.registry.mapping) :
    Fits P (.knowing (.settled d._id) + g) w := by
  refine ⟨h.sound, Registry.shares_knowing_iff.mpr ⟨⟨trivial, ?_, ?_⟩, h.shares⟩,
    h.wrote⟩
  · exact h.sound.mapping_issued d hd
  · exact fun u hu => ((h.shares.pending u hu).unlisted d hd).symm

theorem Fits.uploaded {g : Share} {w : World} (h : Fits P g w) {_id : ObjectId}
    {content : Bytes} (hupload : (_id, content) ∈ w.registry.uploads) :
    Fits P (.knowing (.uploaded _id content) + g) w := by
  refine ⟨h.sound, Registry.shares_knowing_iff.mpr ⟨⟨hupload, ?_, ?_⟩, h.shares⟩,
    h.wrote⟩
  · exact h.sound.upload_issued _ hupload
  · exact fun u hu => ((h.shares.pending u hu).unfinished _ hupload).symm

theorem secure_postFileupload (username : Value) (filename : String)
    (content : Bytes) :
    (postFileupload P username filename content).Secure (Fits P) := by
  refine Safe.ask_bind ?_
  intro n
  split
  · trivial
  · simp only [uploadFromStream, Program.bind_assoc]
    intro frame w h
    rw [zero_add] at h
    let _id := P.newId w.registry.issued
    refine ⟨.uploading _id [], h.onRegistry h.sound.issue
      (h.shares.issue h.sound) fun _ hx => hx, ?_⟩
    change Safe _ _ (forEach insertChunk
      (GridFS.split P.chunkSize P.chunkSize_pos _id content) >>= _) _
    refine Safe.forEach_bind (fun before => Share.uploading _id before) _ ?_ ?_
    · intro before c after hsplit rest hrest
      have hc : c.files_id = _id := by
        have hmem : c ∈ GridFS.split P.chunkSize P.chunkSize_pos _id content := by
          simp [hsplit]
        exact GridFS.mem_split hmem
      refine Safe.modify_bind ?_ hrest
      intro frame t h
      obtain ⟨hown, -⟩ := Registry.shares_uploading_iff.mp h.shares
      exact h.onRegistry (h.sound.insertChunk hown hc) (h.shares.insertChunk hc)
        fun _ hx => hx
    · refine Safe.modify_bind (k := 0) ?_ trivial
      intro frame t h
      obtain ⟨hown, -⟩ := Registry.shares_uploading_iff.mp h.shares
      rw [zero_add]
      exact h.onRegistry (h.sound.withFile hown rfl rfl) h.shares.withFile
        fun _ hx => List.mem_append_left _ hx

theorem secure_deleteLambda (uname filename : String) :
    (deleteLambda uname filename).Secure (Fits P) := by
  refine Safe.query (fun _ => rfl) ?_
  intro frame w h
  rw [zero_add] at h
  cases hfound : w.registry.mapping.filter (·.hasKey uname filename) with
  | nil =>
      refine ⟨0, by rwa [zero_add], ?_⟩
      simp only [hfound]
      trivial
  | cons document rest =>
      have hd : document ∈ w.registry.mapping := by
        apply List.mem_of_mem_filter (p := (·.hasKey uname filename))
        rw [hfound]
        exact List.mem_cons_self ..
      refine ⟨.knowing (.settled document._id), h.settled hd, ?_⟩
      simp only [hfound]
      refine Safe.modify_bind (k := .knowing (.removed document._id)) ?_ ?_
      · intro frame t h
        exact h.onRegistry (h.sound.deleteFile _)
          (h.shares.deleteFile _ h.sound) fun _ hx => hx
      refine Safe.modify_bind (k := .knowing (.removed document._id)) ?_ ?_
      · intro frame t h
        obtain ⟨⟨hgone, -⟩, -⟩ := Registry.shares_knowing_iff.mp h.shares
        exact h.onRegistry (h.sound.deleteChunk _ hgone)
          (h.shares.deleteChunk _) fun _ hx => hx
      refine Safe.modify_bind (k := .knowing (.removed document._id)) ?_ trivial
      intro frame t h
      have hmem : ∀ d ∈ (t.registry.deleteMapping document._id).mapping,
          d ∈ t.registry.mapping := fun d hd => List.mem_of_mem_eraseP hd
      exact h.onRegistry
        (h.sound.withMapping (nodup_map_eraseP h.sound.mapping_ids _)
          fun d hd => ⟨d, hmem d hd, rfl, rfl⟩)
        (h.shares.withMapping fun d hd => ⟨d, hmem d hd, rfl⟩) fun _ hx => hx

theorem secure_setFirst (body : Body) (set : MappingDoc → MappingDoc)
    (hset : ∀ d, (set d)._id = d._id ∧ (set d).log_uuid = d.log_uuid) :
    (setFirst P body set).Secure (Fits P) := by
  intro frame w h
  refine ⟨0, ?_, trivial⟩
  have hold : ∀ d ∈ updateFirst (body.hasKey P) set w.registry.mapping,
      ∃ e ∈ w.registry.mapping, e._id = d._id ∧
        e.isRegistration = d.isRegistration := by
    intro d hd
    rcases mem_updateFirst hd with hd | ⟨e, hfind, rfl⟩
    · exact ⟨d, hd, rfl, rfl⟩
    · obtain ⟨hid, hlog⟩ := hset e
      exact ⟨e, List.mem_of_find?_eq_some hfind, hid.symm, by
        simp only [MappingDoc.isRegistration, hlog]⟩
  refine h.onRegistry (h.sound.withMapping ?_ hold)
    (h.shares.withMapping fun d hd => ?_) fun _ hx => hx
  · rw [map_updateFirst (fun d => (hset d).1)]
    exact h.sound.mapping_ids
  · obtain ⟨e, he, hid, -⟩ := hold d hd
    exact ⟨e, he, hid⟩

theorem secure_putField (body : Body) (value : Value)
    {set : Value → MappingDoc → MappingDoc}
    (hset : ∀ v d, (set v d)._id = d._id ∧ (set v d).log_uuid = d.log_uuid)
    (doc : Option MappingDoc) :
    (putField P body value set doc).Secure (Fits P) := by
  rw [putField]
  split
  · exact secure_setFirst body _ (hset _)
  · trivial

theorem secure_putLambda (body : Body) : (putLambda P body).Secure (Fits P) := by
  refine Safe.ask_bind ?_
  intro n
  split
  · refine (secure_putField body _ ?_ _).bind fun doc =>
      (secure_putField body _ ?_ doc).bind fun doc =>
        (secure_putField body _ ?_ doc).bind fun doc =>
          (secure_putField body _ ?_ doc).bind fun doc => trivial
    all_goals exact fun _ _ => ⟨rfl, rfl⟩
  · trivial

/-- What `POST /lambda` learns of the files that it finds. -/
theorem Fits.uploaded_all {g : Share} {w : World} (h : Fits P g w)
    {found : List FileDoc} (hfound : ∀ f ∈ found, f ∈ w.registry.files) :
    ∃ known : Multiset Known, Fits P ((0, known) + g) w ∧
      ∀ f ∈ found, ∃ content, .uploaded f._id content ∈ known := by
  induction found with
  | nil => exact ⟨0, by rwa [Prod.mk_zero_zero, zero_add], by simp⟩
  | cons f found ih =>
      obtain ⟨hf, hrest⟩ := List.forall_mem_cons.mp hfound
      obtain ⟨known, hfits, hknown⟩ := ih hrest
      obtain ⟨content, hupload, -⟩ := h.sound.whole f hf
      have hmore := hfits.uploaded hupload
      rw [← add_assoc] at hmore
      refine ⟨.uploaded f._id content ::ₘ known, by simpa [Share.knowing] using hmore,
        ?_⟩
      intro e he
      rcases List.mem_cons.mp he with rfl | he
      · exact ⟨content, Multiset.mem_cons_self _ _⟩
      · obtain ⟨bytes, hbytes⟩ := hknown e he
        exact ⟨bytes, Multiset.mem_cons_of_mem hbytes⟩

/-- Knowing that the file was uploaded, a request may insert its
registration. -/
theorem safe_insertMapping {known : Multiset Known} {d : MappingDoc}
    {content : Bytes} (hreg : d.isRegistration = true)
    (hknown : .uploaded d._id content ∈ known)
    {rest : Unit → Handler Reply}
    (hrest : (rest ()).Safe (Fits P) (fun _ _ => True) (0, known)) :
    (insertMapping d >>= rest).Safe (Fits P) (fun _ _ => True) (0, known) := by
  intro frame w h
  have hmem : .uploaded d._id content ∈ (((0, known) : Share) + frame).2 :=
    Multiset.mem_add.mpr (Or.inl hknown)
  refine ⟨(0, known), h.onRegistry
    (h.sound.insertMapping hreg (h.shares.known _ hmem))
    (h.shares.insertMapping (h.shares.apart _ hmem)) ?_, ?_⟩
  · intro x hx
    split <;> exact hx
  · change Safe _ _ ((if _ then _ else _ : Handler Unit).bind rest) _
    split
    · trivial
    · exact hrest

theorem secure_postLambda (body : Body) :
    (postLambda P body).Secure (Fits P) := by
  refine Safe.ask_bind ?_
  intro n
  split
  · trivial
  · refine Safe.ask_bind ?_
    intro c
    split
    · trivial
    · refine Safe.query (fun _ => rfl) ?_
      intro frame w h
      rw [zero_add] at h
      have hfound : ∀ f ∈ w.registry.files.filter (body.hasFile P),
          f ∈ w.registry.files := fun f hf => List.mem_of_mem_filter hf
      obtain ⟨known, hfits, hknown⟩ := h.uploaded_all hfound
      refine ⟨(0, known), hfits, ?_⟩
      change Safe _ _ (forEach _ (w.registry.files.filter (body.hasFile P)) >>= _) _
      refine Safe.forEach_bind (fun _ => ((0, known) : Share)) _ ?_ trivial
      intro before f after hsplit rest hrest
      obtain ⟨content, hcontent⟩ := hknown f (by rw [hsplit]; simp)
      exact safe_insertMapping rfl hcontent hrest

/-! ## Dispatches -/

/-- What a file is read from and written to. -/
def World.stored (w : World) : Registry × List HostOp := (w.registry, w.host)

theorem secure_of_confined {α : Type} {p : Handler α}
    (hp : p.Confined World.stored) : p.Secure (Fits P) := by
  refine Secure.of_confined ?_ hp
  intro g s t hsame h
  obtain ⟨hregistry, hhost⟩ := Prod.mk.inj hsame
  exact h.of_same hregistry hhost

/-- A step in the listener's process. -/
theorem secure_modify {effect : World → World}
    (heffect : ∀ w, (effect w).stored = w.stored) :
    (Program.modify effect : Handler Unit).Secure (Fits P) :=
  secure_of_confined ⟨heffect, fun _ => trivial⟩

theorem secure_getUuid : (getUuid P).Secure (Fits P) :=
  secure_of_confined ⟨fun _ => rfl, fun _ => trivial⟩

theorem secure_resultCount (user : Value) :
    (resultCount P user).Secure (Fits P) :=
  secure_of_confined (confined_resultCount P user)

theorem secure_resultAt (user : Value) :
    (resultAt P user).Secure (Fits P) :=
  secure_of_confined (confined_resultAt P user)

theorem secure_recordAt (user functionName eventSource : Value) :
    (recordAt P user functionName eventSource).Secure (Fits P) :=
  secure_of_confined (confined_recordAt P user functionName eventSource)

/-- After `n` chunks a reader has the first `n * P.chunkSize` bytes of the
upload, however many other steps there were between its own. -/
theorem safe_readLoop (_id : ObjectId) (content : Bytes) (fuel n : ℕ)
    (hfuel : content.length ≤ n * P.chunkSize + fuel) :
    (readLoop _id content.length fuel n (content.take (n * P.chunkSize))).Safe
      (Fits P)
      (fun result g => ∀ bytes, result = .ok bytes →
        bytes = content ∧ g = .knowing (.uploaded _id content))
      (.knowing (.uploaded _id content)) := by
  have hdone : ∀ m, content.length ≤ m * P.chunkSize →
      (content.take (m * P.chunkSize)).take content.length = content := by
    intro m hm
    rw [List.take_take, Nat.min_eq_left hm, List.take_length]
  induction fuel generalizing n with
  | zero =>
      intro bytes hbytes
      obtain rfl := Except.ok.inj hbytes
      exact ⟨hdone n (by omega), rfl⟩
  | succ fuel ih =>
      rw [readLoop]
      split
      · rename_i hmore
        refine Safe.query (fun _ => rfl) ?_
        intro frame w h
        refine ⟨.knowing (.uploaded _id content), h, ?_⟩
        cases hfind : w.registry.findChunk _id n with
        | none =>
            simp only
            intro bytes hbytes
            cases hbytes
        | some c =>
            simp only
            have hkey := List.find?_some hfind
            simp only [decide_eq_true_eq] at hkey
            obtain ⟨⟨hupload, -⟩, -⟩ := Registry.shares_knowing_iff.mp h.shares
            have hdata := h.sound.chunk_data c (List.mem_of_find?_eq_some hfind)
              content (by rw [hkey.1]; exact hupload)
            have hnext : content.take (n * P.chunkSize) ++ c.data =
                content.take ((n + 1) * P.chunkSize) := by
              rw [hdata, hkey.2, GridFS.chunkData, Nat.succ_mul, List.take_add]
            rw [hnext]
            apply ih
            have hpos := P.chunkSize_pos
            rw [Nat.succ_mul]
            omega
      · rename_i hmore
        intro bytes hbytes
        obtain rfl := Except.ok.inj hbytes
        refine ⟨hdone n ?_, rfl⟩
        rw [List.length_take] at hmore
        omega

/-- A reader that returns has read the bytes of one upload. -/
theorem safe_readFile (objId : ObjectId) :
    (readFile objId).Safe (Fits P)
      (fun result g => ∀ bytes, result = .ok bytes →
        g = .knowing (.uploaded objId bytes)) 0 := by
  refine Safe.query (fun _ => rfl) ?_
  intro frame w h
  rw [zero_add] at h
  cases hfind : w.registry.findFile objId with
  | none =>
      refine ⟨0, by rwa [zero_add], ?_⟩
      simp only
      intro bytes hbytes
      cases hbytes
  | some f =>
      have hid : f._id = objId := by
        simpa using List.find?_some hfind
      obtain ⟨content, hupload, hstores⟩ :=
        h.sound.whole f (List.mem_of_find?_eq_some hfind)
      rw [hid] at hupload
      refine ⟨.knowing (.uploaded objId content), h.uploaded hupload, ?_⟩
      simp only
      have hloop := safe_readLoop (P := P) objId content content.length 0
        (by omega)
      simp only [Nat.zero_mul, List.take_zero, ← hstores.length] at hloop
      refine hloop.mono ?_
      intro result g hresult bytes hbytes
      obtain ⟨rfl, hg⟩ := hresult bytes hbytes
      exact hg

theorem secure_writeFile (objId : ObjectId) (functionName : Value) :
    (writeFile P objId functionName).Secure (Fits P) := by
  refine Safe.ofExcept_bind ?_ fun _ _ => trivial
  intro name _
  dsimp only
  split
  · refine Safe.modify_bind (k := 0) ?_ ?_
    · intro frame w h
      refine ⟨h.sound, h.shares, ?_⟩
      intro path content hwrite
      exact h.wrote path content (by simpa using hwrite)
    · refine (safe_readFile objId).bind ?_ fun _ _ _ => trivial
      intro bytes g hread
      obtain rfl := hread bytes rfl
      intro frame w h
      refine ⟨.knowing (.uploaded objId bytes), ⟨h.sound, h.shares, ?_⟩, trivial⟩
      intro path content hwrite
      rcases List.mem_append.mp hwrite with hwrite | hwrite
      · exact h.wrote path content hwrite
      · obtain ⟨⟨hupload, -⟩, -⟩ := Registry.shares_knowing_iff.mp h.shares
        obtain ⟨-, rfl⟩ := HostOp.write.inj (List.mem_singleton.mp hwrite)
        exact ⟨objId, hupload⟩
  · trivial

theorem secure_insertRecord (record : RunRecord) :
    (insertRecord P record).Secure (Fits P) := by
  intro frame w h
  refine ⟨0, ⟨h.sound.withRecord record, h.shares.withRecord record, ?_⟩, trivial⟩
  exact h.wrote

theorem secure_updateSequenceCount (user functionName eventSource : Value)
    (log_uuid : String) :
    (updateSequenceCount P user functionName eventSource log_uuid).Secure
      (Fits P) := by
  have hrecord := secure_recordAt (P := P) user functionName eventSource
  refine hrecord.bind fun _ => hrecord.bind ?_
  intro record
  dsimp only
  split
  · exact hrecord.bind fun _ => hrecord.bind fun _ => hrecord.bind fun _ =>
      hrecord.bind fun _ => hrecord.bind fun _ => hrecord.bind fun _ =>
        secure_insertRecord _
  · exact hrecord.bind fun _ => hrecord.bind fun _ => hrecord.bind fun _ =>
      hrecord.bind fun _ => hrecord.bind fun _ => secure_insertRecord _

theorem secure_deployAndExecuteDocker (request : DeployRequest)
    (log_uuid : String) :
    (deployAndExecuteDocker P request log_uuid).Secure (Fits P) := by
  refine Secure.bind (secure_modify ?_) fun _ => ?_
  · exact fun _ => rfl
  refine Safe.ofExcept_bind ?_ fun _ _ => trivial
  intro fileName _
  dsimp only
  split
  · exact secure_modify fun _ => rfl
  · trivial

theorem secure_dispatch (e : Event) : (dispatch P e).Secure (Fits P) := by
  refine (secure_resultCount _).bind ?_
  intro count
  dsimp only
  split
  · trivial
  · refine (secure_resultAt _).bind fun _ => (secure_resultAt _).bind
      fun _ => (secure_resultAt _).bind fun _ =>
        (secure_writeFile _ _).bind fun _ =>
          secure_getUuid.bind fun _ =>
            (secure_updateSequenceCount _ _ _ _).bind fun _ =>
              Secure.bind (secure_modify ?_) fun _ =>
                secure_deployAndExecuteDocker _ _
    exact fun _ => rfl

/-- Before its first step every request is secure. -/
theorem secure_handler (request : Request) :
    (request.handler P).Secure (Fits P) := by
  cases request with
  | fileupload username filename content =>
      exact secure_postFileupload username filename content
  | post body => exact secure_postLambda body
  | put body => exact secure_putLambda body
  | delete uname filename => exact secure_deleteLambda uname filename
  | list uname =>
      refine Safe.ask_bind ?_
      intro found
      split <;> trivial
  | one uname fname => exact Safe.ask_bind fun found => trivial
  | event params =>
      refine Secure.bind ?_ fun _ => trivial
      refine Safe.ofExcept_bind ?_ fun _ _ => trivial
      intro e _
      exact secure_dispatch e

end Requests

/-! ## Any interleaving -/

section Interleaving

variable (P : Platform)

theorem fits_empty : Fits P 0 {} where
  sound :=
    { file_ids := List.nodup_nil
      mapping_ids := List.nodup_nil
      upload_ids := List.nodup_nil
      mapping_issued := by simp
      upload_issued := by simp
      chunk_issued := by simp
      whole := by simp
      chunk_data := by simp
      registered := by simp
      run_id := by simp }
  shares :=
    { distinct := Multiset.nodup_zero
      pending := by simp
      known := by simp
      known_issued := by simp
      apart := by simp }
  wrote := by simp [World.WroteUploads]

/-- Whatever requests arrive and in whatever order their steps are taken. -/
theorem shared_concurrently (moves : List (Move Request)) :
    (runAll (concurrently P) (quiescent {}) moves).Shared (Fits P)
      (fun _ _ => True) fun _ _ => True := by
  refine System.Shared.runAll ?_ secure_handler moves
  refine ⟨0, [], rfl, ?_, by simp, ?_⟩
  · trivial
  · simpa [quiescent] using fits_empty P

/-- In every state of every interleaving, each file document has all its chunks
and reads back as one completed upload. -/
theorem files_are_whole (moves : List (Move Request)) :
    ∀ f ∈ (runAll (concurrently P) (quiescent {}) moves).state.registry.files,
      ∃ content,
        (f._id, content) ∈
          (runAll (concurrently P) (quiescent {}) moves).state.registry.uploads ∧
        (runAll (concurrently P) (quiescent {}) moves).state.registry.content
          f._id = .ok content := by
  refine (shared_concurrently P moves).state
    (I := fun w => ∀ f ∈ w.registry.files, ∃ content,
      (f._id, content) ∈ w.registry.uploads ∧
        w.registry.content f._id = .ok content) ?_
  intro g w h f hf
  obtain ⟨content, hupload, hstores⟩ := h.sound.whole f hf
  exact ⟨content, hupload, Registry.content_of_stores
    (find?_key_eq_some h.sound.file_ids hf) hstores⟩

/-- What a dispatch writes to the host is one completed upload, whole and
unmixed, even if the file is deleted while it is read. -/
theorem host_writes_are_uploads (moves : List (Move Request)) :
    (runAll (concurrently P) (quiescent {}) moves).state.WroteUploads :=
  (shared_concurrently P moves).state fun _ _ h => h.wrote

/-- In every state of every interleaving, the documents of `mapping` have
different identifiers, a registration has that of a completed upload, and a run
record that of no file. -/
theorem registrations_name_uploads (moves : List (Move Request)) :
    let r := (runAll (concurrently P) (quiescent {}) moves).state.registry
    (r.mapping.map (·._id)).Nodup ∧
      (∀ d ∈ r.mapping, d.isRegistration = true →
        ∃ content, (d._id, content) ∈ r.uploads) ∧
      ∀ d ∈ r.mapping, d.isRunRecord = true → r.findFile d._id = none := by
  refine (shared_concurrently P moves).state
    (I := fun w => (w.registry.mapping.map (·._id)).Nodup ∧
      (∀ d ∈ w.registry.mapping, d.isRegistration = true →
        ∃ content, (d._id, content) ∈ w.registry.uploads) ∧
      ∀ d ∈ w.registry.mapping, d.isRunRecord = true →
        w.registry.findFile d._id = none) ?_
  intro g w h
  refine ⟨h.sound.mapping_ids, h.sound.registered, ?_⟩
  intro d hd hrun
  rw [Registry.findFile, List.find?_eq_none]
  intro f hf hid
  obtain ⟨content, hupload, -⟩ := h.sound.whole f hf
  simp only [decide_eq_true_eq] at hid
  rw [hid] at hupload
  exact h.sound.run_id d hd hrun content hupload

end Interleaving

/-- An upload of one chunk, step by step. -/
def uploadSteps : List (Move Request) :=
  .arrive (.fileupload (.str "testUser") "test.py" [112]) ::
    List.replicate 4 (.other 0)

theorem files_are_whole_uploadSteps :
    let r := (runAll (concurrently default) (quiescent {}) uploadSteps).state.registry
    ∃ content, (0, content) ∈ r.uploads ∧ r.content 0 = .ok content :=
  files_are_whole default uploadSteps ⟨0, "test.py", "testUser", 1, 261120⟩
    (by decide +kernel)

end LambdaOnOpenStack
