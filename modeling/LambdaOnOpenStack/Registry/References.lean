import LambdaOnOpenStack.Registry.TextNames

/-!
# References between the collections

A registration refers to its file by `_id`.  No request ever leaves such a
reference dangling, and no run record refers to a file by accident.
-/

namespace LambdaOnOpenStack

open Support

namespace Registry

/-- `f` is the file of the registration `d`: it carries the names of `d`, and
its chunks are there with the bytes that were uploaded for it. -/
structure Backs (P : Platform) (r : Registry) (d : MappingDoc) (f : FileDoc)
    (content : Bytes) : Prop where
  mem : f ∈ r.files
  _id : f._id = d._id
  filename : d.filename = .str f.filename
  metadata : d.username = .str f.metadata
  uploaded : (f._id, content) ∈ r.uploads
  length : f.length = content.length
  chunk : ∀ n < GridFS.chunkCount P.chunkSize content.length,
    ∃ c ∈ r.chunks, c.files_id = f._id ∧ c.n = n ∧
      c.data = GridFS.chunkData P.chunkSize content n
  readable : r.content f._id = .ok content

/-- Every registration has its file, and no run record has one. -/
structure NoDangling (P : Platform) (r : Registry) : Prop where
  registration : ∀ d ∈ r.mapping, d.isRegistration = true →
    ∃ f content, r.Backs P d f content
  runRecord : ∀ d ∈ r.mapping, d.isRunRecord = true →
    ∀ f ∈ r.files, f._id ≠ d._id

variable {P : Platform} {r : Registry}

theorem TextWellFormed.backs (h : TextWellFormed P r) {d : MappingDoc}
    (hd : d ∈ r.mapping) (hreg : d.isRegistration = true) :
    ∃ f content, r.Backs P d f content := by
  obtain ⟨f, hf, hid, hmetadata, hfilename⟩ := h.registration_file d hd hreg
  obtain ⟨u, name, huser, hname⟩ := h.textNames d hd
  obtain ⟨content, hupload, hstores⟩ := h.uploaded f hf
  rw [huser, Ruby.toText_str] at hmetadata
  rw [hname, Ruby.toText_str] at hfilename
  refine ⟨f, content, hf, hid, by rw [hname, hfilename],
    by rw [huser, hmetadata], hupload, hstores.length, ?_,
    content_of_stores (h.findFile hf) hstores⟩
  intro n hn
  obtain ⟨c, hfind, hdata⟩ := hstores.chunk n hn
  have hc := List.find?_some hfind
  simp only [decide_eq_true_eq] at hc
  exact ⟨c, List.mem_of_find?_eq_some hfind, hc.1, hc.2, hdata⟩

/-- The `_id` of a run record is no file's. -/
theorem WellFormed.runRecord_not_file (h : WellFormed P r) {d : MappingDoc}
    (hd : d ∈ r.mapping) (hrun : d.isRunRecord = true) :
    ∀ f ∈ r.files, f._id ≠ d._id := by
  intro f hf hid
  obtain ⟨content, hupload, -⟩ := h.uploaded f hf
  rw [hid] at hupload
  exact h.run_id d hd hrun content hupload

/-- A file with the `_id` of a document carries the names of the document. -/
theorem TextWellFormed.hasKey_of_id (h : TextWellFormed P r) {d : MappingDoc}
    {u name : String} (hd : d ∈ r.mapping) (hnamed : d.Named u name)
    {f : FileDoc} (hf : f ∈ r.files) (hid : f._id = d._id) :
    d.isRegistration = true ∧ f.hasKey u name = true := by
  have hreg : d.isRegistration = true := by
    by_contra hreg
    have hrun : d.isRunRecord = true := by
      simpa [MappingDoc.isRunRecord_eq_not] using hreg
    exact h.runRecord_not_file hd hrun f hf hid
  obtain ⟨g, content, hbacks⟩ := h.backs hd hreg
  have hfg : f = g :=
    eq_of_key_eq h.file_ids hf hbacks.mem (hid.trans hbacks._id.symm)
  obtain ⟨hu, hname⟩ := hnamed.unique ⟨hbacks.metadata, hbacks.filename⟩
  exact ⟨hreg, by simp [FileDoc.hasKey, hfg, hu, hname]⟩

end Registry

open Registry

variable {P : Platform} {w : World}

/-- Complete requests with text names never leave a registration without its
file. -/
theorem registrations_never_dangle (hw : TextReachable P w) :
    w.registry.NoDangling P where
  registration := fun _ hd hreg => hw.wellFormed.backs hd hreg
  runRecord := fun _ hd hrun => hw.wellFormed.runRecord_not_file hd hrun

theorem oneFunction_textReachable : TextReachable default oneFunction :=
  ⟨_, by decide, rfl⟩

theorem registrations_never_dangle_oneFunction :
    oneFunction.registry.NoDangling default :=
  registrations_never_dangle oneFunction_textReachable

end LambdaOnOpenStack
