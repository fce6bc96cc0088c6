import LambdaOnOpenStack.Registry.Invariant

/-!
# Deleting a function

`DELETE /lambda/:UserName/:FileName` removes one document and the file with
its `_id`.  The name is free afterwards exactly if nothing else carried it.
-/

namespace LambdaOnOpenStack

open Support Registry

/-- No document and no file of the collection carries the user and the name. -/
structure Registry.Vacant (r : Registry) (uname filename : String) : Prop where
  mapping : ∀ d ∈ r.mapping, d.hasKey uname filename = false
  files : ∀ f ∈ r.files, f.hasKey uname filename = false

/-- What a client expects after a deletion: nothing is left, and the function
can be uploaded and registered again. -/
structure Freed (P : Platform) (w : World) (uname filename : String) : Prop where
  vacant : w.registry.Vacant uname filename
  upload : ∀ username content, Ruby.toText P.table username = uname →
    ((postFileupload P username filename content).run w).1 = .ok .created
  register : ∀ username content body,
    Ruby.toText P.table username = uname →
    Ruby.toText P.table body.UserName = uname →
    Ruby.toText P.table body.FileName = filename →
    ((postLambda P body).run
      (exec P w (.fileupload username filename content))).1 = .ok .created

/-- At most one document carries the user and the name, and every file that
carries them belongs to it. -/
structure Registry.SingleOwner (r : Registry) (uname filename : String) :
    Prop where
  unique : (r.mapping.filter (·.hasKey uname filename)).length ≤ 1
  owned : ∀ f ∈ r.files, f.hasKey uname filename = true →
    ∃ d ∈ r.mapping, d.hasKey uname filename = true ∧ d._id = f._id

variable {P : Platform} {w : World} {r : Registry} {uname filename : String}

/-! ## A vacant name can be taken -/

theorem exec_fileupload_of_vacant (hvacant : r.Vacant uname filename)
    (hw : w.registry = r) {username : Value} (content : Bytes)
    (hname : Ruby.toText P.table username = uname) :
    (postFileupload P username filename content).run w =
      (.ok .created, w.onRegistry (Registry.upload P filename content uname)) := by
  have hfree : w.registry.files.any (·.hasKey uname filename) = false := by
    rw [List.any_eq_false]
    intro f hf
    rw [hw] at hf
    simp [hvacant.files f hf]
  rw [run_postFileupload, hname, hfree]
  simp

theorem find?_uploaded (hvacant : r.Vacant uname filename) (content : Bytes)
    {body : Body} (huser : Ruby.toText P.table body.UserName = uname)
    (hfile : Ruby.toText P.table body.FileName = filename) :
    (r.upload P filename content uname).files.find? (body.hasFile P) =
      some (r.uploadedFile P filename content uname) := by
  have hold : r.files.find? (body.hasFile P) = none := by
    rw [List.find?_eq_none]
    intro f hf
    simpa [Body.hasFile, huser, hfile] using hvacant.files f hf
  simp [Registry.upload, hold, Body.hasFile, FileDoc.hasKey, uploadedFile,
    huser, hfile]

theorem Freed.of_vacant (h : WellFormed P w.registry)
    (hvacant : w.registry.Vacant uname filename) : Freed P w uname filename where
  vacant := hvacant
  upload := by
    intro username content hname
    rw [exec_fileupload_of_vacant hvacant rfl content hname]
  register := by
    intro username content body hname huser hfile
    have hwell := h.after_exec (.fileupload username filename content)
    have hexec : exec P w (.fileupload username filename content) =
        w.onRegistry (Registry.upload P filename content uname) := by
      rw [exec_eq, Request.handler,
        exec_fileupload_of_vacant hvacant rfl content hname]
    rw [hexec] at hwell ⊢
    rw [run_postLambda P body _ hwell.file_keys]
    have hfree : w.registry.mapping.any (body.hasKey P) = false := by
      rw [List.any_eq_false]
      intro d hd
      simp [Body.hasKey, huser, hfile, hvacant.mapping d hd]
    have hfresh : w.registry.mapping.any
        (fun e => e._id = P.newId w.registry.issued) = false := by
      rw [List.any_eq_false]
      intro d hd
      simp [h.mapping_fresh d hd]
    have hfind := find?_uploaded hvacant content huser hfile
    simp only [World.onRegistry_registry, upload_mapping, hfree, hfind,
      uploadedFile, hfresh, Bool.false_eq_true, ↓reduceIte]

/-! ## What a deletion leaves -/

theorem Registry.SingleOwner.eq_of_hasKey {d e : MappingDoc}
    (howner : r.SingleOwner uname filename) (hd : d ∈ r.mapping)
    (hdkey : d.hasKey uname filename = true) (he : e ∈ r.mapping)
    (hekey : e.hasKey uname filename = true) : e = d := by
  have hd' : d ∈ r.mapping.filter (·.hasKey uname filename) :=
    List.mem_filter.mpr ⟨hd, hdkey⟩
  have he' : e ∈ r.mapping.filter (·.hasKey uname filename) :=
    List.mem_filter.mpr ⟨he, hekey⟩
  have hunique := howner.unique
  match hfilter : r.mapping.filter (·.hasKey uname filename) with
  | [] =>
      rw [hfilter] at hd'
      simp at hd'
  | [x] =>
      rw [hfilter] at hd' he'
      rw [List.mem_singleton.mp hd', List.mem_singleton.mp he']
  | x :: y :: rest =>
      rw [hfilter] at hunique
      simp at hunique

theorem vacant_iff_of_none
    (hnone : r.mapping.find? (·.hasKey uname filename) = none) :
    r.Vacant uname filename ↔ r.SingleOwner uname filename := by
  have hfree : ∀ d ∈ r.mapping, d.hasKey uname filename = false := by
    simpa using hnone
  have hfilter : r.mapping.filter (·.hasKey uname filename) = [] := by
    simpa using hfree
  constructor
  · intro hvacant
    refine ⟨by simp [hfilter], ?_⟩
    intro f hf hkey
    rw [hvacant.files f hf] at hkey
    simp at hkey
  · intro howner
    refine ⟨hfree, ?_⟩
    intro f hf
    by_contra hkey
    obtain ⟨d, hd, hdkey, -⟩ := howner.owned f hf (by simpa using hkey)
    rw [hfree d hd] at hdkey
    simp at hdkey

theorem Registry.WellFormed.vacant_remove_iff (h : WellFormed P r) {d : MappingDoc}
    (hfind : r.mapping.find? (·.hasKey uname filename) = some d) :
    (r.remove d._id).Vacant uname filename ↔ r.SingleOwner uname filename := by
  have hd := List.mem_of_find?_eq_some hfind
  have hdkey : d.hasKey uname filename = true := List.find?_some hfind
  constructor
  · intro hvacant
    -- Whatever else carried the name would still be there.
    have honly : ∀ e ∈ r.mapping, e.hasKey uname filename = true →
        e._id = d._id := by
      intro e he hekey
      by_contra hne
      have hfree := hvacant.mapping e
        ((mem_eraseP_of_nodup h.mapping_ids).mpr ⟨he, hne⟩)
      rw [hfree] at hekey
      simp at hekey
    refine ⟨?_, ?_⟩
    · have hids : ∀ x y, x ∈ r.mapping.filter (·.hasKey uname filename) →
          y ∈ r.mapping.filter (·.hasKey uname filename) → x = y := by
        intro x y hx hy
        obtain ⟨hx, hxkey⟩ := List.mem_filter.mp hx
        obtain ⟨hy, hykey⟩ := List.mem_filter.mp hy
        exact eq_of_key_eq h.mapping_ids hx hy
          ((honly x hx hxkey).trans (honly y hy hykey).symm)
      exact length_le_one_of_nodup
        (((h.mapping_ids.of_map _).filter _)) hids
    · intro f hf hkey
      refine ⟨d, hd, hdkey, ?_⟩
      by_contra hne
      have hfree := hvacant.files f
        ((mem_eraseP_of_nodup h.file_ids).mpr ⟨hf, fun hid => hne hid.symm⟩)
      rw [hfree] at hkey
      simp at hkey
  · intro howner
    refine ⟨?_, ?_⟩
    · intro e he
      obtain ⟨he, hne⟩ := (mem_eraseP_of_nodup h.mapping_ids).mp he
      by_contra hekey
      apply hne
      rw [howner.eq_of_hasKey hd hdkey he (by simpa using hekey)]
    · intro f hf
      obtain ⟨hf, hne⟩ := (mem_eraseP_of_nodup h.file_ids).mp hf
      by_contra hkey
      obtain ⟨e, he, hekey, hid⟩ := howner.owned f hf (by simpa using hkey)
      apply hne
      rw [← hid, howner.eq_of_hasKey hd hdkey he hekey]

theorem Registry.WellFormed.vacant_delete_iff (h : WellFormed P w.registry) :
    (exec P w (.delete uname filename)).registry.Vacant uname filename ↔
      w.registry.SingleOwner uname filename := by
  rw [exec_eq, Request.handler, run_deleteLambda]
  cases hfind : w.registry.mapping.find? (·.hasKey uname filename) with
  | none => exact vacant_iff_of_none hfind
  | some d => exact h.vacant_remove_iff hfind

/-- A deletion frees the name exactly if at most one document carries it and
every file that carries it belongs to that document. -/
theorem delete_frees_iff (hw : Reachable P w) (uname filename : String) :
    Freed P (exec P w (.delete uname filename)) uname filename ↔
      w.registry.SingleOwner uname filename := by
  have h := hw.wellFormed
  constructor
  · intro hfreed
    exact h.vacant_delete_iff.mp hfreed.vacant
  · intro howner
    exact Freed.of_vacant (h.after_exec _) (h.vacant_delete_iff.mpr howner)

theorem delete_frees_iff_oneFunction :
    Reachable default oneFunction ∧
      (Freed default (exec default oneFunction (.delete "testUser" "test.py"))
          "testUser" "test.py" ↔
        oneFunction.registry.SingleOwner "testUser" "test.py") :=
  ⟨oneFunction_reachable,
    delete_frees_iff oneFunction_reachable "testUser" "test.py"⟩

/-- After a run the deletion takes the registration and leaves the record of
the run. -/
theorem run_record_survives_delete :
    Reachable default oneRun ∧
      ¬Freed default (exec default oneRun (.delete "testUser" "test.py"))
        "testUser" "test.py" := by
  refine ⟨oneFunction_reachable.exec _, ?_⟩
  intro hfreed
  have hleft : ∃ d ∈
      (exec default oneRun (.delete "testUser" "test.py")).registry.mapping,
        d.hasKey "testUser" "test.py" = true := by decide
  obtain ⟨d, hd, hkey⟩ := hleft
  rw [hfreed.vacant.mapping d hd] at hkey
  simp at hkey

end LambdaOnOpenStack
