import LambdaOnOpenStack.Registry.Invariant
import Mathlib.Algebra.Group.Prod
import Mathlib.Algebra.Order.Group.Multiset

/-!
# Uploads in progress

Between the steps of an upload its identifier belongs to the request alone:
no document has it, and the chunks with it are those that the request has
inserted.  A request also relies on what it has learned of the identifiers
that it has read.  Here is which states fit what all requests hold, and that
each step of a request keeps them fitting.
-/

namespace LambdaOnOpenStack

open Support

/-! ## What a request holds -/

/-- An upload that has inserted `chunks` and not yet the document. -/
structure PartialUpload where
  _id : ObjectId
  chunks : List ChunkDoc

/-- What a request may rely on about an identifier that it has read. -/
inductive Known where
  | settled (_id : ObjectId)
  | removed (_id : ObjectId)
  | uploaded (_id : ObjectId) (content : Bytes)

namespace Known

def _id : Known → ObjectId
  | settled _id => _id
  | removed _id => _id
  | uploaded _id _ => _id

def Holds (r : Registry) : Known → Prop
  | settled _ => True
  | removed _id => ∀ f ∈ r.files, f._id ≠ _id
  | uploaded _id content => (_id, content) ∈ r.uploads

theorem Holds.of_same {k : Known} {r r' : Registry} (h : k.Holds r)
    (hfiles : r'.files = r.files) (huploads : r'.uploads = r.uploads) :
    k.Holds r' := by
  cases k with
  | settled _id => trivial
  | removed _id => simpa only [Holds, hfiles] using h
  | uploaded _id content => simpa only [Holds, huploads] using h

end Known

/-- The uploads in progress and what is known. -/
abbrev Share := Multiset PartialUpload × Multiset Known

namespace Share

def uploading (_id : ObjectId) (chunks : List ChunkDoc) : Share :=
  ({⟨_id, chunks⟩}, 0)

def knowing (k : Known) : Share := (0, {k})

variable (_id : ObjectId) (chunks : List ChunkDoc) (k : Known) (g : Share)

@[simp] theorem uploading_add_fst :
    (uploading _id chunks + g).1 = ⟨_id, chunks⟩ ::ₘ g.1 := rfl

@[simp] theorem uploading_add_snd : (uploading _id chunks + g).2 = g.2 :=
  zero_add g.2

@[simp] theorem knowing_add_fst : (knowing k + g).1 = g.1 := zero_add g.1

@[simp] theorem knowing_add_snd : (knowing k + g).2 = k ::ₘ g.2 := rfl

end Share

/-! ## Which states fit -/

namespace Registry

/-- What holds of the database whatever is in progress. -/
structure Sound (P : Platform) (r : Registry) : Prop
    extends Identified P r where
  whole : ∀ f ∈ r.files,
    ∃ content, (f._id, content) ∈ r.uploads ∧ r.Stores P f content
  chunk_data : ∀ c ∈ r.chunks, ∀ content, (c.files_id, content) ∈ r.uploads →
    c.data = GridFS.chunkData P.chunkSize content c.n
  registered : ∀ d ∈ r.mapping, d.isRegistration = true →
    ∃ content, (d._id, content) ∈ r.uploads
  run_id : ∀ d ∈ r.mapping, d.isRunRecord = true →
    ∀ content, (d._id, content) ∉ r.uploads

/-- The identifier of the upload is in use nowhere else, and its chunks are
those that it has inserted. -/
structure Pending (P : Platform) (r : Registry) (u : PartialUpload) : Prop where
  issued : ∃ k < r.issued, u._id = P.newId k
  unlisted : ∀ d ∈ r.mapping, d._id ≠ u._id
  unfinished : ∀ x ∈ r.uploads, x.1 ≠ u._id
  chunks : r.chunks.filter (fun c => c.files_id = u._id) = u.chunks

/-- The uploads in progress have identifiers of their own, and nothing is known
of them. -/
structure Shares (P : Platform) (r : Registry) (g : Share) : Prop where
  distinct : (g.1.map (·._id)).Nodup
  pending : ∀ u ∈ g.1, Pending P r u
  known : ∀ k ∈ g.2, k.Holds r
  known_issued : ∀ k ∈ g.2, ∃ j < r.issued, k._id = P.newId j
  apart : ∀ k ∈ g.2, ∀ u ∈ g.1, u._id ≠ k._id

end Registry

/-- Every content that a dispatch has written to the host was uploaded. -/
def World.WroteUploads (w : World) : Prop :=
  ∀ path content, .write path content ∈ w.host →
    ∃ _id, (_id, content) ∈ w.registry.uploads

structure Fits (P : Platform) (g : Share) (w : World) : Prop where
  sound : w.registry.Sound P
  shares : w.registry.Shares P g
  wrote : w.WroteUploads

/-! ## Shares -/

namespace Registry

variable {P : Platform} {r r' : Registry} {g : Share}

/-- The share of an upload in progress, and those of the others. -/
theorem shares_uploading_iff {_id : ObjectId} {chunks : List ChunkDoc} :
    r.Shares P (.uploading _id chunks + g) ↔
      r.Pending P ⟨_id, chunks⟩ ∧ (∀ u ∈ g.1, u._id ≠ _id) ∧
        (∀ k ∈ g.2, k._id ≠ _id) ∧ r.Shares P g := by
  constructor
  · rintro ⟨hdistinct, hpending, hknown, hissued, hapart⟩
    simp only [Share.uploading_add_fst, Share.uploading_add_snd,
      Multiset.map_cons, Multiset.nodup_cons, Multiset.mem_map, not_exists,
      not_and, Multiset.mem_cons, forall_eq_or_imp] at *
    exact ⟨hpending.1, hdistinct.1, fun k hk => ((hapart k hk).1).symm,
      hdistinct.2, hpending.2, hknown, hissued, fun k hk => (hapart k hk).2⟩
  · rintro ⟨hown, hothers, hfacts, hdistinct, hpending, hknown, hissued, hapart⟩
    constructor
    all_goals simp only [Share.uploading_add_fst, Share.uploading_add_snd,
      Multiset.map_cons, Multiset.nodup_cons, Multiset.mem_map, not_exists,
      not_and, Multiset.mem_cons, forall_eq_or_imp]
    · exact ⟨hothers, hdistinct⟩
    · exact ⟨hown, hpending⟩
    · exact hknown
    · exact hissued
    · exact fun k hk => ⟨(hfacts k hk).symm, hapart k hk⟩

theorem shares_knowing_iff {k : Known} :
    r.Shares P (.knowing k + g) ↔
      (k.Holds r ∧ (∃ j < r.issued, k._id = P.newId j) ∧
        ∀ u ∈ g.1, u._id ≠ k._id) ∧ r.Shares P g := by
  constructor
  · rintro ⟨hdistinct, hpending, hknown, hissued, hapart⟩
    simp only [Share.knowing_add_fst, Share.knowing_add_snd,
      Multiset.mem_cons, forall_eq_or_imp] at *
    exact ⟨⟨hknown.1, hissued.1, hapart.1⟩, hdistinct, hpending, hknown.2,
      hissued.2, hapart.2⟩
  · rintro ⟨⟨hholds, hfirst, hothers⟩, hdistinct, hpending, hknown, hissued, hapart⟩
    constructor
    all_goals simp only [Share.knowing_add_fst, Share.knowing_add_snd,
      Multiset.mem_cons, forall_eq_or_imp]
    · exact hdistinct
    · exact hpending
    · exact ⟨hholds, hknown⟩
    · exact ⟨hfirst, hissued⟩
    · exact ⟨hothers, hapart⟩

/-- What a change has to leave alone for the others. -/
theorem Shares.of_change (h : r.Shares P g) (hissued : r.issued ≤ r'.issued)
    (hmapping : ∀ u ∈ g.1, ∀ d ∈ r'.mapping, d._id ≠ u._id)
    (huploads : ∀ u ∈ g.1, ∀ x ∈ r'.uploads, x.1 ≠ u._id)
    (hchunks : ∀ u ∈ g.1, r'.chunks.filter (fun c => c.files_id = u._id) =
      r.chunks.filter fun c => c.files_id = u._id)
    (hknown : ∀ k ∈ g.2, k.Holds r → k.Holds r') : r'.Shares P g where
  distinct := h.distinct
  pending := by
    intro u hu
    have hpending := h.pending u hu
    exact ⟨issued_mono hpending.issued hissued, hmapping u hu, huploads u hu,
      (hchunks u hu).trans hpending.chunks⟩
  known := fun k hk => hknown k hk (h.known k hk)
  known_issued := fun k hk => issued_mono (h.known_issued k hk) hissued
  apart := h.apart

/-- The documents of `mapping` may change as long as the new ones are of no
upload in progress. -/
theorem Shares.of_mapping (h : r.Shares P g) (hissued : r.issued ≤ r'.issued)
    (hsame : r'.files = r.files ∧ r'.uploads = r.uploads ∧ r'.chunks = r.chunks)
    (hmapping : ∀ u ∈ g.1, ∀ d ∈ r'.mapping, d._id ≠ u._id) :
    r'.Shares P g := by
  obtain ⟨hfiles, huploads, hchunks⟩ := hsame
  refine h.of_change hissued hmapping ?_ ?_ fun k _ hk =>
    hk.of_same hfiles huploads
  · rw [huploads]
    exact fun u hu => (h.pending u hu).unfinished
  · rw [hchunks]
    exact fun _ _ => rfl

/-- A new identifier is that of no upload in progress. -/
theorem Shares.fresh (h : r.Shares P g) :
    ∀ u ∈ g.1, u._id ≠ P.newId r.issued := by
  intro u hu
  obtain ⟨k, hk, hid⟩ := (h.pending u hu).issued
  rw [hid]
  exact newId_ne hk

/-! ## One step of the database -/

theorem Stores.of_chunks {f : FileDoc} {content : Bytes}
    (hstores : r.Stores P f content) (hchunks : r'.chunks = r.chunks) :
    r'.Stores P f content := by
  apply hstores.of_findChunk
  intro n c hfind
  rwa [findChunk, hchunks]

theorem Sound.issue (h : r.Sound P) :
    Sound P { r with issued := r.issued + 1 } :=
  { h with
    whole := by
      intro f hf
      obtain ⟨content, hupload, hstores⟩ := h.whole f hf
      exact ⟨content, hupload, hstores.of_chunks rfl⟩
    mapping_issued := fun d hd =>
      issued_mono (h.mapping_issued d hd) (Nat.le_succ _)
    upload_issued := fun u hu =>
      issued_mono (h.upload_issued u hu) (Nat.le_succ _)
    chunk_issued := fun c hc =>
      issued_mono (h.chunk_issued c hc) (Nat.le_succ _) }

/-- An upload begins with a new identifier. -/
theorem Shares.issue (hsound : r.Sound P) (h : r.Shares P g) :
    Shares P { r with issued := r.issued + 1 }
      (.uploading (P.newId r.issued) [] + g) := by
  refine shares_uploading_iff.mpr ⟨?_, h.fresh, ?_, ?_⟩
  · refine ⟨⟨r.issued, Nat.lt_succ_self _, rfl⟩, hsound.mapping_fresh,
      hsound.upload_fresh, ?_⟩
    rw [List.filter_eq_nil_iff]
    intro c hc
    simpa using hsound.chunk_fresh c hc
  · intro k hk
    obtain ⟨j, hj, hid⟩ := h.known_issued k hk
    rw [hid]
    exact newId_ne hj
  · exact h.of_mapping (Nat.le_succ _) ⟨rfl, rfl, rfl⟩ fun u hu =>
      (h.pending u hu).unlisted

section Upload

variable {_id : ObjectId} {chunks : List ChunkDoc}

theorem Sound.insertChunk (h : r.Sound P) (hown : r.Pending P ⟨_id, chunks⟩)
    {c : ChunkDoc} (hc : c.files_id = _id) :
    Sound P { r with chunks := r.chunks ++ [c] } :=
  { h with
    chunk_issued := by
      intro d hd
      rcases List.mem_append.mp hd with hd | hd
      · exact h.chunk_issued d hd
      · rw [List.mem_singleton.mp hd, hc]
        exact hown.issued
    whole := by
      intro f hf
      obtain ⟨content, hupload, hstores⟩ := h.whole f hf
      refine ⟨content, hupload, hstores.of_findChunk ?_⟩
      intro n d hfind
      calc
        findChunk { r with chunks := r.chunks ++ [c] } f._id n =
            (r.findChunk f._id n).or _ := List.find?_append
        _ = some d := by rw [hfind, Option.some_or]
    chunk_data := by
      intro d hd content hupload
      rcases List.mem_append.mp hd with hd | hd
      · exact h.chunk_data d hd content hupload
      · rw [List.mem_singleton.mp hd, hc] at hupload
        exact absurd rfl (hown.unfinished _ hupload) }

theorem Shares.insertChunk (h : r.Shares P (.uploading _id chunks + g))
    {c : ChunkDoc} (hc : c.files_id = _id) :
    Shares P { r with chunks := r.chunks ++ [c] }
      (.uploading _id (chunks ++ [c]) + g) := by
  obtain ⟨hown, hothers, hfacts, hrest⟩ := shares_uploading_iff.mp h
  refine shares_uploading_iff.mpr ⟨?_, hothers, hfacts, ?_⟩
  · refine ⟨hown.issued, hown.unlisted, hown.unfinished, ?_⟩
    rw [List.filter_append, hown.chunks]
    simp [hc]
  · refine hrest.of_change le_rfl (fun u hu => (hrest.pending u hu).unlisted)
      (fun u hu => (hrest.pending u hu).unfinished) ?_ fun k _ hk =>
        hk.of_same rfl rfl
    intro u hu
    have hne : _id ≠ u._id := (hothers u hu).symm
    simp [List.filter_append, hc, hne]

/-- All chunks of a content are there. -/
theorem stores_of_filter {f : FileDoc} {content : Bytes}
    (hlength : f.length = content.length) (hsize : f.chunkSize = P.chunkSize)
    (hchunks : r.chunks.filter (fun c => c.files_id = f._id) =
      GridFS.split P.chunkSize P.chunkSize_pos f._id content) :
    r.Stores P f content := by
  refine ⟨hlength, hsize, ?_⟩
  intro n hn
  obtain ⟨c, hfind, hdata⟩ := GridFS.find?_split P.chunkSize_pos f._id hn
  refine ⟨c, ?_, hdata⟩
  rw [← hchunks, List.find?_filter] at hfind
  rw [findChunk, ← hfind]
  congr 1
  funext d
  simp

variable {f : FileDoc} {content : Bytes}

/-- After the insertion of a file document. -/
def withFile (f : FileDoc) (content : Bytes) (r : Registry) : Registry :=
  { r with
    files := r.files ++ [f]
    uploads := r.uploads ++ [(f._id, content)] }

theorem Sound.withFile (h : r.Sound P)
    (hown : r.Pending P
      ⟨f._id, GridFS.split P.chunkSize P.chunkSize_pos f._id content⟩)
    (hlength : f.length = content.length)
    (hsize : f.chunkSize = P.chunkSize) :
    (r.withFile f content).Sound P where
  file_ids := by
    rw [Registry.withFile, List.map_append, List.map_singleton,
      nodup_concat_iff h.file_ids, List.mem_map]
    rintro ⟨e, he, hid⟩
    obtain ⟨bytes, hupload, -⟩ := h.whole e he
    exact hown.unfinished _ hupload hid
  mapping_ids := h.mapping_ids
  upload_ids := by
    rw [Registry.withFile, List.map_append, List.map_singleton,
      nodup_concat_iff h.upload_ids, List.mem_map]
    rintro ⟨x, hx, hid⟩
    exact hown.unfinished x hx hid
  mapping_issued := h.mapping_issued
  upload_issued := by
    intro x hx
    rcases List.mem_append.mp hx with hx | hx
    · exact h.upload_issued x hx
    · rw [List.mem_singleton.mp hx]
      exact hown.issued
  chunk_issued := h.chunk_issued
  whole := by
    intro e he
    rcases List.mem_append.mp he with he | he
    · obtain ⟨bytes, hupload, hstores⟩ := h.whole e he
      exact ⟨bytes, List.mem_append_left _ hupload, hstores.of_chunks rfl⟩
    · obtain rfl := List.mem_singleton.mp he
      refine ⟨content, List.mem_append_right _ (List.mem_singleton.mpr rfl), ?_⟩
      exact stores_of_filter hlength hsize hown.chunks
  chunk_data := by
    intro c hc bytes hupload
    rcases List.mem_append.mp hupload with hupload | hupload
    · exact h.chunk_data c hc bytes hupload
    · obtain ⟨hid, rfl⟩ := Prod.mk.inj (List.mem_singleton.mp hupload)
      have hmem : c ∈ r.chunks.filter fun c => c.files_id = f._id :=
        List.mem_filter.mpr ⟨hc, by simpa using hid⟩
      have hchunks : (r.chunks.filter fun c => c.files_id = f._id) =
          GridFS.split P.chunkSize P.chunkSize_pos f._id bytes := hown.chunks
      rw [hchunks] at hmem
      obtain ⟨i, rfl⟩ := List.mem_ofFn.mp hmem
      rfl
  registered := by
    intro d hd hreg
    obtain ⟨bytes, hupload⟩ := h.registered d hd hreg
    exact ⟨bytes, List.mem_append_left _ hupload⟩
  run_id := by
    intro d hd hrun bytes hupload
    rcases List.mem_append.mp hupload with hupload | hupload
    · exact h.run_id d hd hrun bytes hupload
    · exact hown.unlisted d hd (Prod.mk.inj (List.mem_singleton.mp hupload)).1

theorem Shares.withFile
    (h : r.Shares P (.uploading f._id chunks + g)) :
    (r.withFile f content).Shares P g := by
  obtain ⟨hown, hothers, hfacts, hrest⟩ := shares_uploading_iff.mp h
  refine hrest.of_change le_rfl (fun u hu => (hrest.pending u hu).unlisted) ?_
    (fun _ _ => rfl) ?_
  · intro u hu x hx
    rcases List.mem_append.mp hx with hx | hx
    · exact (hrest.pending u hu).unfinished x hx
    · rw [List.mem_singleton.mp hx]
      exact (hothers u hu).symm
  · intro k hk hholds
    cases k with
    | settled _ => trivial
    | removed gone =>
        intro e he
        rcases List.mem_append.mp he with he | he
        · exact hholds e he
        · rw [List.mem_singleton.mp he]
          exact (hfacts _ hk).symm
    | uploaded _ _ => exact List.mem_append_left _ hholds

end Upload

section Deletion

variable (_id : ObjectId)

theorem Sound.deleteFile (h : r.Sound P) : (r.deleteFile _id).Sound P :=
  { h with
    file_ids := nodup_map_eraseP h.file_ids _
    whole := by
      intro f hf
      obtain ⟨content, hupload, hstores⟩ := h.whole f (List.mem_of_mem_eraseP hf)
      exact ⟨content, hupload, hstores.of_chunks rfl⟩ }

/-- No file has the identifier once its document is deleted. -/
theorem Shares.deleteFile (hsound : r.Sound P)
    (h : r.Shares P (.knowing (.settled _id) + g)) :
    (r.deleteFile _id).Shares P (.knowing (.removed _id) + g) := by
  obtain ⟨⟨-, hissued, hothers⟩, hrest⟩ := shares_knowing_iff.mp h
  refine shares_knowing_iff.mpr ⟨⟨?_, hissued, hothers⟩, ?_⟩
  · intro f hf
    exact ((mem_eraseP_of_nodup hsound.file_ids).mp hf).2
  · refine hrest.of_change le_rfl (fun u hu => (hrest.pending u hu).unlisted)
      (fun u hu => (hrest.pending u hu).unfinished) (fun _ _ => rfl) ?_
    intro k _ hholds
    cases k with
    | settled _ => trivial
    | removed gone => exact fun f hf => hholds f (List.mem_of_mem_eraseP hf)
    | uploaded _ _ => exact hholds

theorem Sound.deleteChunk (h : r.Sound P) (hgone : ∀ f ∈ r.files, f._id ≠ _id) :
    (r.deleteChunk _id).Sound P :=
  { h with
    chunk_issued := fun c hc => h.chunk_issued c (List.mem_of_mem_eraseP hc)
    whole := by
      intro f hf
      obtain ⟨content, hupload, hstores⟩ := h.whole f hf
      refine ⟨content, hupload, hstores.of_findChunk ?_⟩
      intro n c hfind
      rw [← hfind]
      apply find?_eraseP_of_disjoint
      intro d hd
      have hid : d.files_id = f._id := by simpa using (decide_eq_true_eq.mp hd).1
      simpa [hid] using hgone f hf
    chunk_data := fun c hc content hupload =>
      h.chunk_data c (List.mem_of_mem_eraseP hc) content hupload }

theorem Shares.deleteChunk (h : r.Shares P (.knowing (.removed _id) + g)) :
    (r.deleteChunk _id).Shares P (.knowing (.removed _id) + g) := by
  obtain ⟨⟨-, -, hothers⟩, -⟩ := shares_knowing_iff.mp h
  refine h.of_change le_rfl (fun u hu => (h.pending u hu).unlisted)
    (fun u hu => (h.pending u hu).unfinished) ?_ fun k _ hk =>
      hk.of_same rfl rfl
  intro u hu
  apply filter_eraseP
  intro c _ hc
  have hid : c.files_id = _id := by simpa using hc
  have hne : u._id ≠ _id := hothers u (by simpa only [Share.knowing_add_fst] using hu)
  simpa [hid] using hne.symm

end Deletion

section Mapping

variable {l : List MappingDoc}

/-- The documents of `mapping` lose members or change in other fields. -/
theorem Sound.withMapping (h : r.Sound P) (hids : (l.map (·._id)).Nodup)
    (hold : ∀ d ∈ l, ∃ e ∈ r.mapping, e._id = d._id ∧
      e.isRegistration = d.isRegistration) :
    Sound P { r with mapping := l } :=
  { h with
    mapping_ids := hids
    mapping_issued := by
      intro d hd
      obtain ⟨e, he, hid, -⟩ := hold d hd
      rw [← hid]
      exact h.mapping_issued e he
    whole := by
      intro f hf
      obtain ⟨content, hupload, hstores⟩ := h.whole f hf
      exact ⟨content, hupload, hstores.of_chunks rfl⟩
    registered := by
      intro d hd hreg
      obtain ⟨e, he, hid, hsame⟩ := hold d hd
      rw [← hid]
      exact h.registered e he (hsame.trans hreg)
    run_id := by
      intro d hd hrun
      obtain ⟨e, he, hid, hsame⟩ := hold d hd
      rw [← hid]
      apply h.run_id e he
      rw [MappingDoc.isRunRecord_eq_not, hsame, ← MappingDoc.isRunRecord_eq_not]
      exact hrun }

theorem Shares.withMapping (h : r.Shares P g)
    (hold : ∀ d ∈ l, ∃ e ∈ r.mapping, e._id = d._id) :
    Shares P { r with mapping := l } g := by
  refine h.of_mapping le_rfl ⟨rfl, rfl, rfl⟩ ?_
  intro u hu d hd
  obtain ⟨e, he, hid⟩ := hold d hd
  rw [← hid]
  exact (h.pending u hu).unlisted e he

/-- A registration of an uploaded file is inserted, or refused. -/
theorem Sound.insertMapping (h : r.Sound P) {d : MappingDoc}
    {content : Bytes} (hreg : d.isRegistration = true)
    (hupload : (d._id, content) ∈ r.uploads) :
    Sound P (if r.mapping.any (fun e => e._id = d._id) then r
      else { r with mapping := r.mapping ++ [d] }) := by
  split
  · exact h
  · rename_i hnew
    exact { h with
      mapping_ids := by
        rw [List.map_append, List.map_singleton,
          nodup_concat_iff h.mapping_ids, List.mem_map]
        simpa using hnew
      mapping_issued := by
        intro e he
        rcases List.mem_append.mp he with he | he
        · exact h.mapping_issued e he
        · rw [List.mem_singleton.mp he]
          exact h.upload_issued _ hupload
      whole := by
        intro f hf
        obtain ⟨bytes, hupload, hstores⟩ := h.whole f hf
        exact ⟨bytes, hupload, hstores.of_chunks rfl⟩
      registered := by
        intro e he hreg
        rcases List.mem_append.mp he with he | he
        · exact h.registered e he hreg
        · rw [List.mem_singleton.mp he]
          exact ⟨content, hupload⟩
      run_id := by
        intro e he hrun
        rcases List.mem_append.mp he with he | he
        · exact h.run_id e he hrun
        · rw [List.mem_singleton.mp he, MappingDoc.isRunRecord_eq_not, hreg] at hrun
          simp at hrun }

theorem Shares.insertMapping (h : r.Shares P g) {d : MappingDoc}
    (hsettled : ∀ u ∈ g.1, u._id ≠ d._id) :
    Shares P (if r.mapping.any (fun e => e._id = d._id) then r
      else { r with mapping := r.mapping ++ [d] }) g := by
  split
  · exact h
  · refine h.of_mapping le_rfl ⟨rfl, rfl, rfl⟩ ?_
    intro u hu e he
    rcases List.mem_append.mp he with he | he
    · exact (h.pending u hu).unlisted e he
    · rw [List.mem_singleton.mp he]
      exact (hsettled u hu).symm

/-- After the insertion of a run record with a new identifier. -/
def withRecord (P : Platform) (record : RunRecord) (r : Registry) : Registry :=
  { r with
    issued := r.issued + 1
    mapping := r.mapping ++ [record.document (P.newId r.issued)] }

theorem Sound.withRecord (h : r.Sound P) (record : RunRecord) :
    (r.withRecord P record).Sound P :=
  { h.issue with
    mapping_ids := by
      rw [Registry.withRecord, List.map_append, List.map_singleton,
        nodup_concat_iff h.mapping_ids, List.mem_map]
      rintro ⟨d, hd, hid⟩
      exact h.mapping_fresh d hd hid
    mapping_issued := by
      intro d hd
      rcases List.mem_append.mp hd with hd | hd
      · exact issued_mono (h.mapping_issued d hd) (Nat.le_succ _)
      · rw [List.mem_singleton.mp hd]
        exact ⟨r.issued, Nat.lt_succ_self _, rfl⟩
    whole := by
      intro f hf
      obtain ⟨content, hupload, hstores⟩ := h.whole f hf
      exact ⟨content, hupload, hstores.of_chunks rfl⟩
    registered := by
      intro d hd hreg
      rcases List.mem_append.mp hd with hd | hd
      · exact h.registered d hd hreg
      · rw [List.mem_singleton.mp hd] at hreg
        simp [MappingDoc.isRegistration, RunRecord.document] at hreg
    run_id := by
      intro d hd hrun content hupload
      rcases List.mem_append.mp hd with hd | hd
      · exact h.run_id d hd hrun content hupload
      · rw [List.mem_singleton.mp hd] at hupload
        exact h.upload_fresh _ hupload rfl }

theorem Shares.withRecord (h : r.Shares P g) (record : RunRecord) :
    (r.withRecord P record).Shares P g := by
  refine h.of_mapping (Nat.le_succ _) ⟨rfl, rfl, rfl⟩ ?_
  intro u hu d hd
  rcases List.mem_append.mp hd with hd | hd
  · exact (h.pending u hu).unlisted d hd
  · rw [List.mem_singleton.mp hd]
    exact (h.fresh u hu).symm

end Mapping

end Registry

end LambdaOnOpenStack
