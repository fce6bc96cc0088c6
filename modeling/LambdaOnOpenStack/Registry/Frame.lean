import LambdaOnOpenStack.Registry.References

/-!
# What a request leaves alone

A request names at most one function.  The documents, the files and the chunks
of all other functions stay as they are, in the order in which they stood.
-/

namespace LambdaOnOpenStack

open Support

/-- The request is about the function `f` of the user `u`. -/
def Request.Names (u f : String) : Request → Prop
  | .fileupload username filename _ => username = .str u ∧ filename = f
  | .post body => body.UserName = .str u ∧ body.FileName = .str f
  | .put body => body.UserName = .str u ∧ body.FileName = .str f
  | .delete uname filename => uname = u ∧ filename = f
  | .list _ => False
  | .one _ _ => False
  | .event params => ∃ e, readEvent params = .ok e ∧
      e.user_name = .str u ∧ e.filename = .str f

namespace Registry

/-- `r'` is `r` for everybody but the function `f` of the user `u`. -/
structure SparesOthers (u f : String) (r r' : Registry) : Prop where
  mapping : (r'.mapping.filter fun d => ¬d.Named u f) =
    r.mapping.filter fun d => ¬d.Named u f
  files : (r'.files.filter fun g => !g.hasKey u f) =
    r.files.filter fun g => !g.hasKey u f
  chunks : ∀ g ∈ r.files, g.hasKey u f = false →
    (r'.chunks.filter fun c => c.files_id = g._id) =
      r.chunks.filter fun c => c.files_id = g._id

variable {P : Platform} {r : Registry} {u f : String}

theorem SparesOthers.refl (u f : String) (r : Registry) :
    r.SparesOthers u f r :=
  ⟨rfl, rfl, fun _ _ _ => rfl⟩

/-- Insertions into `mapping` under the two names. -/
theorem SparesOthers.of_append {r' : Registry} {d : MappingDoc}
    (hd : d.Named u f) (hmapping : r'.mapping = r.mapping ++ [d])
    (hfiles : r'.files = r.files) (hchunks : r'.chunks = r.chunks) :
    r.SparesOthers u f r' where
  mapping := by simp [hmapping, List.filter_append, hd]
  files := by rw [hfiles]
  chunks := by
    intro g _ _
    rw [hchunks]

theorem SparesOthers.upload (h : WellFormed P r) (content : Bytes) :
    r.SparesOthers u f (r.upload P f content u) where
  mapping := rfl
  files := by
    simp [Registry.upload, List.filter_append, FileDoc.hasKey, uploadedFile]
  chunks := by
    intro g hg _
    have hnew : (GridFS.split P.chunkSize P.chunkSize_pos (P.newId r.issued)
        content).filter (fun c => c.files_id = g._id) = [] := by
      rw [List.filter_eq_nil_iff]
      intro c hc
      rw [GridFS.mem_split hc, decide_eq_true_eq]
      exact (h.file_fresh g hg).symm
    rw [Registry.upload, List.filter_append, hnew, List.append_nil]

theorem SparesOthers.update (h : r.TextNames) {body : Body}
    (huser : body.UserName = .str u) (hname : body.FileName = .str f) :
    r.SparesOthers u f (r.updateKey P body (body.update P)) where
  mapping := by
    apply filter_updateFirst
    intro d hd hkey
    have hnamed : d.Named u f := by
      apply (h.hasKey_iff hd).mp
      simpa [Body.hasKey, huser, hname] using hkey
    obtain ⟨-, husername, hfilename, -⟩ := update_kept (P := P) body d
    have hupdated : (body.update P d).Named u f :=
      ⟨husername.trans hnamed.1, hfilename.trans hnamed.2⟩
    simp [hnamed, hupdated]
  files := rfl
  chunks := fun _ _ _ => rfl

/-- A deletion by `_id` meets nothing of another function. -/
theorem SparesOthers.remove (h : TextWellFormed P r) {d : MappingDoc}
    (hd : d ∈ r.mapping) (hnamed : d.Named u f) :
    r.SparesOthers u f (r.remove d._id) where
  mapping := by
    apply filter_eraseP
    intro e he hid
    rw [decide_eq_true_eq] at hid
    rw [eq_of_key_eq h.mapping_ids he hd hid]
    simp [hnamed]
  files := by
    apply filter_eraseP
    intro g hg hid
    rw [decide_eq_true_eq] at hid
    simp [(h.hasKey_of_id hd hnamed hg hid).2]
  chunks := by
    intro g hg hother
    apply filter_eraseP
    intro c hc hid
    rw [decide_eq_true_eq] at hid
    rw [hid, decide_eq_false_iff_not]
    intro hsame
    have hkey := (h.hasKey_of_id hd hnamed hg hsame.symm).2
    rw [hother] at hkey
    exact absurd hkey (by decide)

theorem Change.sparesOthers {request : Request} {r' : Registry}
    (hchange : Change P r request r') (h : TextWellFormed P r)
    (hnames : request.Names u f) : r.SparesOthers u f r' := by
  cases hchange with
  | idle => exact .refl u f r
  | unmatched => exact .refl u f r
  | uploaded =>
      obtain ⟨rfl, rfl⟩ := hnames
      exact .upload h.toWellFormed _
  | @registered body g =>
      exact .of_append (d := body.registration g) hnames rfl rfl rfl
  | updated => exact .update h.textNames hnames.1 hnames.2
  | removed hfind =>
      obtain ⟨rfl, rfl⟩ := hnames
      have hd := List.mem_of_find?_eq_some hfind
      exact .remove h hd ((h.textNames.hasKey_iff hd).mp
        (List.find?_some hfind))
  | @recorded params e latest log_uuid hevent hlatest =>
      obtain ⟨e', hevent', huser, hname⟩ := hnames
      obtain rfl := Except.ok.inj (hevent.symm.trans hevent')
      rw [huser, hname] at hlatest
      have hnamed := h.textNames.named_of_recordsOf (List.argmax_mem hlatest)
      exact .of_append (d := r.runRecord P latest log_uuid) hnamed rfl rfl rfl

/-- A request with text names changes nothing, or it names a function. -/
theorem Change.eq_or_names {request : Request} {r' : Registry}
    (hchange : Change P r request r') (htext : request.textual = true) :
    r' = r ∨ ∃ u f, request.Names u f := by
  cases hchange with
  | idle => exact Or.inl rfl
  | unmatched => exact Or.inl rfl
  | uploaded =>
      obtain ⟨u, hu⟩ := Value.isText_iff.mp htext
      exact Or.inr ⟨u, _, hu, rfl⟩
  | registered | updated =>
      simp only [Request.textual, Body.textual, Bool.and_eq_true,
        Value.isText_iff] at htext
      obtain ⟨⟨u, hu⟩, ⟨f, hf⟩⟩ := htext
      exact Or.inr ⟨u, f, hu, hf⟩
  | removed => exact Or.inr ⟨_, _, rfl, rfl⟩
  | recorded hevent =>
      simp only [Request.textual, hevent, Event.textual, Bool.and_eq_true,
        Value.isText_iff] at htext
      obtain ⟨⟨⟨u, hu⟩, ⟨f, hf⟩⟩, -⟩ := htext
      exact Or.inr ⟨u, f, _, hevent, hu, hf⟩

/-- The documents of another function are the same. -/
theorem SparesOthers.filter_mapping {r' : Registry} {u' f' : String}
    (h : r.SparesOthers u f r') (hne : (u', f') ≠ (u, f)) :
    r'.mapping.filter (·.hasKey u' f') = r.mapping.filter (·.hasKey u' f') := by
  have hother : ∀ d : MappingDoc,
      (d.hasKey u' f' && decide (¬d.Named u f)) = d.hasKey u' f' := by
    intro d
    by_cases hd : d.Named u f
    · have hkey : d.hasKey u' f' = false := by
        rw [Bool.eq_false_iff, ne_eq, hd.hasKey_iff]
        rintro ⟨rfl, rfl⟩
        exact hne rfl
      simp [hkey]
    · simp [hd]
  have hsame := congrArg (List.filter (·.hasKey u' f')) h.mapping
  simpa only [List.filter_filter, hother] using hsame

/-- The files of another function are the same. -/
theorem SparesOthers.filter_files {r' : Registry} {u' f' : String}
    (h : r.SparesOthers u f r') (hne : (u', f') ≠ (u, f)) :
    r'.files.filter (·.hasKey u' f') = r.files.filter (·.hasKey u' f') := by
  have hother : ∀ g : FileDoc,
      (g.hasKey u' f' && !g.hasKey u f) = g.hasKey u' f' := by
    intro g
    by_cases hg : g.hasKey u f = true
    · simp only [FileDoc.hasKey, Bool.and_eq_true, decide_eq_true_eq] at hg
      have hkey : g.hasKey u' f' = false := by
        rw [Bool.eq_false_iff]
        intro hkey
        simp only [FileDoc.hasKey, Bool.and_eq_true, decide_eq_true_eq] at hkey
        exact hne (Prod.ext (hkey.1.symm.trans hg.1) (hkey.2.symm.trans hg.2))
      simp [hkey]
    · simp [hg]
  have hsame := congrArg (List.filter (·.hasKey u' f')) h.files
  simpa only [List.filter_filter, hother] using hsame

end Registry

open Registry

variable {P : Platform} {w : World}

/-- A request about one function leaves every document, every file and every
chunk of the other functions unchanged. -/
theorem request_spares_others (hw : TextReachable P w) {request : Request}
    {u f : String} (hnames : request.Names u f) :
    w.registry.SparesOthers u f (exec P w request).registry :=
  (hw.wellFormed.toWellFormed.change_exec request).sparesOthers hw.wellFormed
    hnames

theorem request_spares_others_delete :
    TextReachable default twoFunctions ∧
      twoFunctions.registry.SparesOthers "testUser" "test.py"
        (exec default twoFunctions (.delete "testUser" "test.py")).registry := by
  have htext : TextReachable default twoFunctions :=
    (oneFunction_textReachable.exec rfl).exec rfl
  exact ⟨htext, request_spares_others htext ⟨rfl, rfl⟩⟩

end LambdaOnOpenStack
