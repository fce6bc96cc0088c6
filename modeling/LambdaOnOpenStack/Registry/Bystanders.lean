import LambdaOnOpenStack.Registry.Concurrency
import LambdaOnOpenStack.Registry.Frame
import Mathlib.Algebra.Order.PUnit
import Mathlib.Data.List.Find

/-!
# Functions that no request names

Requests about other functions take their steps in any order.  None of them
ever touches a document, a file or a chunk of a function that none of them
names, because the identifiers that they pass on come from queries for their
own function, or are new.
-/

namespace LambdaOnOpenStack

open Support Program

namespace Registry

/-- `r'` has of the function what `r` has. -/
structure SameFunction (u f : String) (r r' : Registry) : Prop where
  mapping : (r'.mapping.filter fun d => d.Named u f) =
    r.mapping.filter fun d => d.Named u f
  files : r'.files.filter (·.hasKey u f) = r.files.filter (·.hasKey u f)
  chunks : ∀ g ∈ r.files, g.hasKey u f = true →
    (r'.chunks.filter fun c => c.files_id = g._id) =
      r.chunks.filter fun c => c.files_id = g._id

/-- A document or a file of the function has this identifier. -/
def OwnId (u f : String) (r : Registry) (_id : ObjectId) : Prop :=
  (∃ d ∈ r.mapping, d.Named u f ∧ d._id = _id) ∨
    ∃ g ∈ r.files, g.hasKey u f = true ∧ g._id = _id

/-- Since `r₀` nothing of the function has changed, and nothing else has come
to have one of its identifiers. -/
structure Undisturbed (u f : String) (r₀ r : Registry) : Prop where
  textNames : r.TextNames
  issued : r₀.issued ≤ r.issued
  same : r₀.SameFunction u f r
  mapping : ∀ d ∈ r.mapping, ¬d.Named u f → ¬r₀.OwnId u f d._id
  files : ∀ g ∈ r.files, g.hasKey u f = false → ¬r₀.OwnId u f g._id

variable {P : Platform} {u f : String} {r₀ r : Registry}

theorem TextWellFormed.undisturbed (h : TextWellFormed P r) :
    r.Undisturbed u f r where
  textNames := h.textNames
  issued := le_rfl
  same := ⟨rfl, rfl, fun _ _ _ => rfl⟩
  mapping := by
    rintro d hd hother (⟨e, he, hnamed, hid⟩ | ⟨g, hg, hkey, hid⟩)
    · rw [eq_of_key_eq h.mapping_ids he hd hid] at hnamed
      exact hother hnamed
    · obtain ⟨u', f', hnamed⟩ := h.textNames d hd
      have hkey' := (h.hasKey_of_id hd hnamed hg hid).2
      simp only [FileDoc.hasKey, Bool.and_eq_true, decide_eq_true_eq] at hkey hkey'
      obtain rfl := hkey.1.symm.trans hkey'.1
      obtain rfl := hkey.2.symm.trans hkey'.2
      exact hother hnamed
  files := by
    rintro g hg hother (⟨d, hd, hnamed, hid⟩ | ⟨g', hg', hkey, hid⟩)
    · rw [(h.hasKey_of_id hd hnamed hg hid.symm).2] at hother
      exact absurd hother (by decide)
    · rw [eq_of_key_eq h.file_ids hg' hg hid, hother] at hkey
      exact absurd hkey (by decide)

/-- Identifiers that are issued later are not those of the function. -/
theorem TextWellFormed.not_ownId (h : TextWellFormed P r₀) {n : ℕ}
    (hn : r₀.issued ≤ n) : ¬r₀.OwnId u f (P.newId n) := by
  have hold : ∀ _id, (∃ k < r₀.issued, _id = P.newId k) → _id ≠ P.newId n := by
    rintro _ ⟨k, hk, rfl⟩
    exact newId_ne (hk.trans_le hn)
  rintro (⟨d, hd, -, hid⟩ | ⟨g, hg, -, hid⟩)
  · exact hold _ (h.mapping_issued d hd) hid
  · obtain ⟨content, hupload, -⟩ := h.uploaded g hg
    exact hold _ (h.upload_issued _ hupload) hid

namespace Undisturbed

/-! ## Steps of requests about other functions -/

theorem issue (h : r₀.Undisturbed u f r) :
    r₀.Undisturbed u f { r with issued := r.issued + 1 } :=
  { h with
    issued := h.issued.trans (Nat.le_succ _)
    same := ⟨h.same.mapping, h.same.files, h.same.chunks⟩ }

/-- A document of another function is inserted. -/
theorem insert (h : r₀.Undisturbed u f r) {d : MappingDoc} {u' f' : String}
    (hnamed : d.Named u' f') (hother : ¬d.Named u f)
    (hid : ¬r₀.OwnId u f d._id) :
    r₀.Undisturbed u f { r with mapping := r.mapping ++ [d] } where
  textNames := by
    intro e he
    rcases List.mem_append.mp he with he | he
    · exact h.textNames e he
    · exact ⟨u', f', by rwa [List.mem_singleton.mp he]⟩
  issued := h.issued
  same :=
    { h.same with
      mapping := by simp [List.filter_append, hother, h.same.mapping] }
  mapping := by
    intro e he
    rcases List.mem_append.mp he with he | he
    · exact h.mapping e he
    · rw [List.mem_singleton.mp he]
      exact fun _ => hid
  files := h.files

/-- A document of another function is updated. -/
theorem update (h : r₀.Undisturbed u f r) {p : MappingDoc → Bool}
    {set : MappingDoc → MappingDoc}
    (hset : ∀ d, (set d)._id = d._id ∧ (set d).username = d.username ∧
      (set d).filename = d.filename)
    (hother : ∀ d ∈ r.mapping, p d = true → ¬d.Named u f) :
    r₀.Undisturbed u f { r with mapping := updateFirst p set r.mapping } := by
  have hnames : ∀ d u f, (set d).Named u f ↔ d.Named u f := by
    intro d u f
    rw [MappingDoc.Named, MappingDoc.Named, (hset d).2.1, (hset d).2.2]
  have hold : ∀ d ∈ updateFirst p set r.mapping, ∃ e ∈ r.mapping,
      e._id = d._id ∧ ∀ u f, d.Named u f ↔ e.Named u f := by
    intro d hd
    rcases mem_updateFirst hd with hd | ⟨e, hfind, rfl⟩
    · exact ⟨d, hd, rfl, fun _ _ => Iff.rfl⟩
    · exact ⟨e, List.mem_of_find?_eq_some hfind, (hset e).1.symm, hnames e⟩
  refine ⟨?_, h.issued, { h.same with mapping := ?_ }, ?_, h.files⟩
  · intro d hd
    obtain ⟨e, he, -, hsame⟩ := hold d hd
    obtain ⟨u', f', hnamed⟩ := h.textNames e he
    exact ⟨u', f', (hsame u' f').mpr hnamed⟩
  · rw [filter_updateFirst, h.same.mapping]
    intro d hd hp
    simp [hnames, hother d hd hp]
  · intro d hd hnot
    obtain ⟨e, he, hid, hsame⟩ := hold d hd
    rw [← hid]
    exact h.mapping e he fun hnamed => hnot ((hsame u f).mpr hnamed)

theorem insertChunk (h : r₀.Undisturbed u f r) {c : ChunkDoc}
    (hid : ¬r₀.OwnId u f c.files_id) :
    r₀.Undisturbed u f { r with chunks := r.chunks ++ [c] } :=
  { h with
    same :=
      { h.same with
        chunks := by
          intro g hg hkey
          have hne : c.files_id ≠ g._id := by
            intro hsame
            exact hid (Or.inr ⟨g, hg, hkey, hsame.symm⟩)
          simp [List.filter_append, hne, h.same.chunks g hg hkey] } }

theorem insertFile (h : r₀.Undisturbed u f r) {g : FileDoc}
    (hother : g.hasKey u f = false) (hid : ¬r₀.OwnId u f g._id)
    (uploads : List (ObjectId × Bytes)) :
    r₀.Undisturbed u f { r with files := r.files ++ [g], uploads := uploads } :=
  { h with
    same :=
      { h.same with
        files := by simp [List.filter_append, hother, h.same.files] }
    files := by
      intro e he
      rcases List.mem_append.mp he with he | he
      · exact h.files e he
      · rw [List.mem_singleton.mp he]
        exact fun _ => hid }

/-- The documents of the function have its identifiers. -/
theorem ownId_of_named (h : r₀.Undisturbed u f r) {d : MappingDoc}
    (hd : d ∈ r.mapping) (hnamed : d.Named u f) : r₀.OwnId u f d._id := by
  have hmem : d ∈ r.mapping.filter fun d => d.Named u f :=
    List.mem_filter.mpr ⟨hd, decide_eq_true hnamed⟩
  rw [h.same.mapping] at hmem
  exact Or.inl ⟨d, (List.mem_filter.mp hmem).1, hnamed, rfl⟩

theorem ownId_of_hasKey (h : r₀.Undisturbed u f r) {g : FileDoc}
    (hg : g ∈ r.files) (hkey : g.hasKey u f = true) : r₀.OwnId u f g._id := by
  have hmem : g ∈ r.files.filter (·.hasKey u f) := List.mem_filter.mpr ⟨hg, hkey⟩
  rw [h.same.files] at hmem
  exact Or.inr ⟨g, (List.mem_filter.mp hmem).1, hkey, rfl⟩

section Deletions

variable {_id : ObjectId} (hid : ¬r₀.OwnId u f _id)

include hid

theorem deleteMapping (h : r₀.Undisturbed u f r) :
    r₀.Undisturbed u f (r.deleteMapping _id) where
  textNames := fun d hd => h.textNames d (List.mem_of_mem_eraseP hd)
  issued := h.issued
  same :=
    { h.same with
      mapping := by
        rw [Registry.deleteMapping, filter_eraseP, h.same.mapping]
        intro d hd hsame
        rw [decide_eq_true_eq] at hsame
        rw [decide_eq_false_iff_not]
        rintro hnamed
        exact hid (hsame ▸ h.ownId_of_named hd hnamed) }
  mapping := fun d hd => h.mapping d (List.mem_of_mem_eraseP hd)
  files := h.files

theorem deleteFile (h : r₀.Undisturbed u f r) :
    r₀.Undisturbed u f (r.deleteFile _id) :=
  { h with
    same :=
      { h.same with
        files := by
          rw [Registry.deleteFile, filter_eraseP, h.same.files]
          intro g hg hsame
          rw [decide_eq_true_eq] at hsame
          rw [← Bool.not_eq_true]
          intro hkey
          exact hid (hsame ▸ h.ownId_of_hasKey hg hkey) }
    files := fun g hg => h.files g (List.mem_of_mem_eraseP hg) }

theorem deleteChunk (h : r₀.Undisturbed u f r) :
    r₀.Undisturbed u f (r.deleteChunk _id) :=
  { h with
    same :=
      { h.same with
        chunks := by
          intro g hg hkey
          rw [Registry.deleteChunk, filter_eraseP, h.same.chunks g hg hkey]
          intro c hc hsame
          rw [decide_eq_true_eq] at hsame
          rw [decide_eq_false_iff_not]
          intro hown
          exact hid (Or.inr ⟨g, hg, hkey, hown.symm.trans hsame⟩) } }

end Deletions

end Undisturbed

end Registry

open Registry

/-! ## Requests about other functions -/

section Requests

variable {P : Platform} {u f u' f' : String} {r₀ r : Registry}

/-- The request disturbs the function at none of its steps, whatever is done
between them. -/
abbrev KeepsOff (u f : String) (r₀ : Registry) {α : Type} (p : Handler α) : Prop :=
  p.Safe (fun (_ : Unit) w => r₀.Undisturbed u f w.registry) (fun _ _ => True) ()

theorem KeepsOff.ask_bind {α β : Type} {query : World → β} {p : β → Handler α}
    (hp : ∀ w : World, r₀.Undisturbed u f w.registry →
      KeepsOff u f r₀ (p (query w))) :
    KeepsOff u f r₀ (ask query >>= p) :=
  fun _ w h => ⟨(), h, hp w h⟩

theorem KeepsOff.modify_bind {α : Type} {change : Registry → Registry}
    {p : Unit → Handler α}
    (hchange : ∀ r, r₀.Undisturbed u f r → r₀.Undisturbed u f (change r))
    (hp : KeepsOff u f r₀ (p ())) :
    KeepsOff u f r₀ (Program.modify (World.onRegistry change) >>= p) :=
  fun _ w h => ⟨(), hchange w.registry h, hp⟩

theorem KeepsOff.of_confined {α : Type} {p : Handler α}
    (hp : p.Confined World.registry) : KeepsOff u f r₀ p := by
  have hW : ∀ (_ : Unit) (s t : World), t.registry = s.registry →
      r₀.Undisturbed u f s.registry → r₀.Undisturbed u f t.registry := by
    intro _ s t hsame h
    rwa [hsame]
  exact Secure.of_confined hW hp

theorem KeepsOff.bind {α β : Type} {p : Handler β} {q : β → Handler α}
    (hp : KeepsOff u f r₀ p) (hq : ∀ b, KeepsOff u f r₀ (q b)) :
    KeepsOff u f r₀ (p >>= q) :=
  Safe.bind hp (fun b _ _ => hq b) fun _ _ _ => trivial

theorem not_named (hother : (u', f') ≠ (u, f)) {d : MappingDoc}
    (hnamed : d.Named u' f') : ¬d.Named u f := by
  intro h
  obtain ⟨rfl, rfl⟩ := hnamed.unique h
  exact hother rfl

theorem not_hasKey (hother : (u', f') ≠ (u, f)) {g : FileDoc}
    (hkey : g.hasKey u' f' = true) : g.hasKey u f = false := by
  simp only [FileDoc.hasKey, Bool.and_eq_true, decide_eq_true_eq] at hkey
  rw [← Bool.not_eq_true]
  intro h
  simp only [FileDoc.hasKey, Bool.and_eq_true, decide_eq_true_eq] at h
  exact hother (Prod.ext (hkey.1.symm.trans h.1) (hkey.2.symm.trans h.2))

variable (hother : (u', f') ≠ (u, f))

include hother

theorem keepsOff_postFileupload (h₀ : TextWellFormed P r₀) (content : Bytes) :
    KeepsOff u f r₀ (postFileupload P (.str u') f' content) := by
  refine .ask_bind ?_
  intro w _
  split
  · trivial
  · simp only [uploadFromStream, Program.bind_assoc]
    intro _ w h
    refine ⟨(), h.issue, ?_⟩
    have hid : ¬r₀.OwnId u f (P.newId w.registry.issued) := h₀.not_ownId h.issued
    change KeepsOff u f r₀ (forEach LambdaOnOpenStack.insertChunk
      (GridFS.split P.chunkSize P.chunkSize_pos _ content) >>= _)
    refine Safe.forEach_bind (fun _ => ()) _ ?_ ?_
    · intro before c after hsplit rest hrest
      have hmem : c ∈ GridFS.split P.chunkSize P.chunkSize_pos
          (P.newId w.registry.issued) content := by simp [hsplit]
      refine KeepsOff.modify_bind ?_ hrest
      intro r hr
      exact hr.insertChunk (GridFS.mem_split hmem ▸ hid)
    · refine KeepsOff.modify_bind ?_ trivial
      intro r hr
      refine hr.insertFile (not_hasKey hother ?_) hid _
      simp [FileDoc.hasKey]

/-- What a query for another function finds. -/
theorem not_named_of_hasKey (h : r₀.Undisturbed u f r) {d : MappingDoc}
    (hd : d ∈ r.mapping) (hkey : d.hasKey u' f' = true) : ¬d.Named u f :=
  not_named hother ((h.textNames.hasKey_iff hd).mp hkey)

theorem keepsOff_deleteLambda : KeepsOff u f r₀ (deleteLambda u' f') := by
  refine .ask_bind ?_
  intro w h
  cases hfound : w.registry.mapping.filter (·.hasKey u' f') with
  | nil => trivial
  | cons document rest =>
      have hmem : document ∈ w.registry.mapping.filter (·.hasKey u' f') := by
        rw [hfound]
        exact List.mem_cons_self ..
      obtain ⟨hd, hkey⟩ := List.mem_filter.mp hmem
      have hid := h.mapping document hd (not_named_of_hasKey hother h hd hkey)
      refine .modify_bind (fun r hr => hr.deleteFile hid) ?_
      refine .modify_bind (fun r hr => hr.deleteChunk hid) ?_
      exact .modify_bind (fun r hr => hr.deleteMapping hid) trivial

theorem keepsOff_insertMapping {d : MappingDoc} (hnamed : d.Named u' f')
    (hid : ¬r₀.OwnId u f d._id) {rest : Unit → Handler Reply}
    (hrest : KeepsOff u f r₀ (rest ())) :
    KeepsOff u f r₀ (insertMapping d >>= rest) := by
  intro _ w h
  refine ⟨(), ?_, ?_⟩
  · simp only [World.onRegistry_registry]
    split
    · exact h
    · exact h.insert hnamed (not_named hother hnamed) hid
  · change KeepsOff u f r₀ ((if _ then _ else _ : Handler Unit) >>= rest)
    split
    · trivial
    · exact hrest

section Bodies

variable {body : Body} (huser : body.UserName = .str u')
  (hname : body.FileName = .str f')

include huser hname

theorem keepsOff_postLambda : KeepsOff u f r₀ (postLambda P body) := by
  refine .ask_bind ?_
  intro w _
  split
  · trivial
  · refine .ask_bind ?_
    intro w _
    split
    · trivial
    · refine .ask_bind ?_
      intro w h
      refine Safe.forEach_bind (fun _ => ()) _ ?_ trivial
      intro before g after hsplit rest hrest
      have hmem : g ∈ w.registry.files.filter (body.hasFile P) := by
        simp [hsplit]
      obtain ⟨hg, hkey⟩ := List.mem_filter.mp hmem
      have hkey' : g.hasKey u' f' = true := by
        simpa [Body.hasFile, huser, hname] using hkey
      exact keepsOff_insertMapping (d := body.registration g) hother
        ⟨huser, hname⟩ (h.files g hg (not_hasKey hother hkey')) hrest

theorem keepsOff_putField (value : Value) {set : Value → MappingDoc → MappingDoc}
    (hset : ∀ v d, (set v d)._id = d._id ∧ (set v d).username = d.username ∧
      (set v d).filename = d.filename)
    (doc : Option MappingDoc) :
    KeepsOff u f r₀ (putField P body value set doc) := by
  rw [putField]
  split
  · intro _ w h
    refine ⟨(), h.update (hset _) ?_, trivial⟩
    intro d hd hkey
    apply not_named_of_hasKey hother h hd
    simpa [Body.hasKey, huser, hname] using hkey
  · trivial

theorem keepsOff_putLambda : KeepsOff u f r₀ (putLambda P body) := by
  refine .ask_bind ?_
  intro w _
  split
  · refine KeepsOff.bind (keepsOff_putField hother huser hname _ ?_ _) fun _ =>
      KeepsOff.bind (keepsOff_putField hother huser hname _ ?_ _) fun _ =>
        KeepsOff.bind (keepsOff_putField hother huser hname _ ?_ _) fun _ =>
          KeepsOff.bind (keepsOff_putField hother huser hname _ ?_ _) fun _ => trivial
    all_goals exact fun _ _ => ⟨rfl, rfl, rfl⟩
  · trivial

end Bodies

omit hother in
/-- Every record that a dispatch picks carries the names of its event. -/
theorem keepsOff_recordAt_bind {α : Type} {eventSource : Value}
    {p : MappingDoc → Handler α}
    (hp : ∀ d : MappingDoc, d.Named u' f' → KeepsOff u f r₀ (p d)) :
    KeepsOff u f r₀ (recordAt P (.str u') (.str f') eventSource >>= p) := by
  intro _ w h
  refine ⟨(), h, ?_⟩
  change KeepsOff u f r₀ ((if _ then _ else _ : Handler MappingDoc) >>= p)
  split
  · trivial
  · cases hlatest : w.registry.latestRecord P (.str u') (.str f') eventSource with
    | none => trivial
    | some d =>
        exact hp d (h.textNames.named_of_recordsOf (List.argmax_mem hlatest))

theorem keepsOff_insertRecord (h₀ : TextWellFormed P r₀) {record : RunRecord}
    (huser : record.username = .str u') (hname : record.filename = .str f') :
    KeepsOff u f r₀ (insertRecord P record) := by
  intro _ w h
  have hnamed : (record.document (P.newId w.registry.issued)).Named u' f' :=
    ⟨huser, hname⟩
  exact ⟨(), h.issue.insert hnamed (not_named hother hnamed)
    (h₀.not_ownId h.issued), trivial⟩

theorem keepsOff_updateSequenceCount (h₀ : TextWellFormed P r₀)
    (eventSource : Value) (log_uuid : String) :
    KeepsOff u f r₀
      (updateSequenceCount P (.str u') (.str f') eventSource log_uuid) := by
  simp only [updateSequenceCount]
  refine keepsOff_recordAt_bind fun _ _ => keepsOff_recordAt_bind ?_
  intro record _
  split
  · simp only [Program.pure_eq, Program.done_bind]
    refine keepsOff_recordAt_bind fun _ _ => keepsOff_recordAt_bind fun _ hname =>
      keepsOff_recordAt_bind fun _ huser => keepsOff_recordAt_bind fun _ _ =>
        keepsOff_recordAt_bind fun _ _ => keepsOff_recordAt_bind fun _ _ => ?_
    exact keepsOff_insertRecord hother h₀ huser.1 hname.2
  · simp only [Program.pure_eq, Program.done_bind]
    refine keepsOff_recordAt_bind fun _ hname => keepsOff_recordAt_bind fun _ huser =>
      keepsOff_recordAt_bind fun _ _ => keepsOff_recordAt_bind fun _ _ =>
        keepsOff_recordAt_bind fun _ _ => ?_
    exact keepsOff_insertRecord hother h₀ huser.1 hname.2

omit hother in
theorem confined_deployAndExecuteDocker {O : Type} {out : World → O}
    (hdeployed : ∀ w runs, out { w with deployed := runs } = out w)
    (hworkers : ∀ w workers, out { w with workers := workers } = out w)
    (request : DeployRequest) (log_uuid : String) :
    (deployAndExecuteDocker P request log_uuid).Confined out := by
  refine Confined.bind ⟨fun _ => hdeployed _ _, fun _ => trivial⟩ fun _ => ?_
  cases concatText request.function_name with
  | error e => trivial
  | ok fileName =>
      simp only [Program.ofExcept_ok, Program.done_bind]
      split
      · exact ⟨fun _ => hworkers _ _, fun _ => trivial⟩
      · trivial

theorem keepsOff_dispatch (h₀ : TextWellFormed P r₀) {e : Event}
    (huser : e.user_name = .str u') (hname : e.filename = .str f') :
    KeepsOff u f r₀ (dispatch P e) := by
  refine KeepsOff.bind (.of_confined (confined_resultCount P _)) fun count => ?_
  split
  · trivial
  · have hresult : KeepsOff u f r₀ (resultAt P e.user_name) :=
      .of_confined (confined_resultAt P _)
    refine KeepsOff.bind hresult fun _ => KeepsOff.bind hresult fun _ =>
      KeepsOff.bind hresult fun _ =>
        KeepsOff.bind (.of_confined (confined_writeFile P (fun _ _ => rfl) _ _))
          fun _ => KeepsOff.bind (.of_confined ⟨fun _ => rfl, fun _ => trivial⟩)
            fun log_uuid => KeepsOff.bind ?_ fun _ =>
              KeepsOff.bind (.of_confined ⟨fun _ => rfl, fun _ => trivial⟩)
                fun _ => .of_confined (confined_deployAndExecuteDocker
                  (fun _ _ => rfl) (fun _ _ => rfl) _ _)
    rw [huser, hname]
    exact keepsOff_updateSequenceCount hother h₀ _ _

omit hother in
/-- A request with text names that does not name the function keeps off it. -/
theorem keepsOff_handler (h₀ : TextWellFormed P r₀) {request : Request}
    (htext : request.textual = true) (hnames : ¬request.Names u f) :
    KeepsOff u f r₀ (request.handler P) := by
  cases request with
  | fileupload username filename content =>
      obtain ⟨u', rfl⟩ := Value.isText_iff.mp htext
      have hother : (u', filename) ≠ (u, f) := by
        rintro ⟨⟩
        exact hnames ⟨rfl, rfl⟩
      exact keepsOff_postFileupload hother h₀ content
  | post body =>
      simp only [Request.textual, Body.textual, Bool.and_eq_true,
        Value.isText_iff] at htext
      obtain ⟨⟨u', huser⟩, ⟨f', hname⟩⟩ := htext
      have hother : (u', f') ≠ (u, f) := by
        rintro ⟨⟩
        exact hnames ⟨huser, hname⟩
      exact keepsOff_postLambda hother huser hname
  | put body =>
      simp only [Request.textual, Body.textual, Bool.and_eq_true,
        Value.isText_iff] at htext
      obtain ⟨⟨u', huser⟩, ⟨f', hname⟩⟩ := htext
      have hother : (u', f') ≠ (u, f) := by
        rintro ⟨⟩
        exact hnames ⟨huser, hname⟩
      exact keepsOff_putLambda hother huser hname
  | delete uname filename =>
      have hother : (uname, filename) ≠ (u, f) := by
        rintro ⟨⟩
        exact hnames ⟨rfl, rfl⟩
      exact keepsOff_deleteLambda hother
  | list uname =>
      refine KeepsOff.ask_bind ?_
      intro w _
      split <;> trivial
  | one uname fname => exact KeepsOff.ask_bind fun w _ => trivial
  | event params =>
      refine KeepsOff.bind ?_ fun _ => trivial
      cases hevent : readEvent params with
      | error e =>
          simp only [createEnvironment, hevent]
          trivial
      | ok e =>
          simp only [Request.textual, hevent, Event.textual, Bool.and_eq_true,
            Value.isText_iff] at htext
          obtain ⟨⟨⟨u', huser⟩, ⟨f', hname⟩⟩, -⟩ := htext
          have hother : (u', f') ≠ (u, f) := by
            rintro ⟨⟩
            exact hnames ⟨e, hevent, huser, hname⟩
          simp only [createEnvironment, hevent, Program.ofExcept_ok,
            Program.done_bind]
          exact keepsOff_dispatch hother h₀ huser hname

end Requests

/-! ## What the function has to offer -/

namespace Registry

variable {u f : String} {r₀ r r' : Registry}

/-- What is read depends on the document and the chunks of the file. -/
theorem content_congr {_id : ObjectId} (hfile : r'.findFile _id = r.findFile _id)
    (hchunk : ∀ n, r'.findChunk _id n = r.findChunk _id n) :
    r'.content _id = r.content _id := by
  have hloop : ∀ size fuel n data,
      ((readLoop _id size fuel n data).run { registry := r' }).1 =
        ((readLoop _id size fuel n data).run { registry := r }).1 := by
    intro size fuel
    induction fuel with
    | zero => exact fun _ _ => rfl
    | succ fuel ih =>
        intro n data
        simp only [readLoop]
        split
        · simp only [run_atomic, id_eq, hchunk]
          cases r.findChunk _id n with
          | none => rfl
          | some c => exact ih (n + 1) (data ++ c.data)
        · rfl
  simp only [Registry.content, readFile, run_atomic, id_eq, hfile]
  cases r.findFile _id with
  | none => rfl
  | some g => exact hloop _ _ _ _

/-- A file with an identifier of the function belongs to the function. -/
theorem Undisturbed.findFile (h : r₀.Undisturbed u f r) {_id : ObjectId}
    (hown : r₀.OwnId u f _id) :
    r.findFile _id = (r.files.filter (·.hasKey u f)).find? (·._id = _id) := by
  rw [Registry.findFile, List.find?_filter]
  apply List.find?_congr
  intro g hg
  by_cases hid : g._id = _id
  · have hkey : g.hasKey u f = true := by
      by_contra hkey
      exact h.files g hg (by simpa using hkey) (hid ▸ hown)
    simp [hid, hkey]
  · simp [hid]

theorem findChunk_filter (r : Registry) (_id : ObjectId) (n : ℕ) :
    r.findChunk _id n =
      (r.chunks.filter fun c => c.files_id = _id).find? (·.n = n) := by
  rw [Registry.findChunk, List.find?_filter]
  apply List.find?_congr
  intro c _
  simp

end Registry

/-! ## Any interleaving -/

variable {P : Platform} {w : World} {u f : String}

/-- A function that no arriving request names keeps its documents, its files
and their contents at every step of every interleaving. -/
theorem unnamed_function_is_left_alone (hw : TextReachable P w)
    (moves : List (Move Request))
    (harrive : ∀ request, .arrive request ∈ moves →
      request.textual = true ∧ ¬request.Names u f) :
    let r := (runAll (concurrently P) (quiescent w) moves).state.registry
    w.registry.SameFunction u f r ∧
      ∀ g ∈ w.registry.files, g.hasKey u f = true →
        r.content g._id = w.registry.content g._id := by
  intro r
  have h₀ : TextWellFormed P w.registry := hw.wellFormed
  have hstart : (quiescent w).Shared
      (fun (_ : Unit) t => w.registry.Undisturbed u f t.registry)
      (fun _ _ => True) fun _ _ => True :=
    ⟨(), [], rfl, trivial, by simp, h₀.undisturbed⟩
  have h : w.registry.Undisturbed u f r := by
    refine (hstart.runAll_of_arrivals ?_).state
      (I := fun t => w.registry.Undisturbed u f t.registry) fun _ _ h => h
    intro request hrequest
    obtain ⟨htext, hnames⟩ := harrive request hrequest
    exact keepsOff_handler h₀ htext hnames
  refine ⟨h.same, ?_⟩
  intro g hg hkey
  have hown : w.registry.OwnId u f g._id := Or.inr ⟨g, hg, hkey, rfl⟩
  apply content_congr
  · rw [h.findFile hown, h₀.undisturbed.findFile hown, h.same.files]
  · intro n
    rw [findChunk_filter, findChunk_filter, h.same.chunks g hg hkey]

/-- Another function is uploaded and deleted step by step in turn. -/
def aroundOneFunction : List (Move Request) :=
  [.arrive (.fileupload (.str "testUser") "other.py" [112]),
    .arrive (.delete "testUser" "other.py"),
    .arrive (.event (samplePayload "otherUser" "test.py"))] ++
    (List.replicate 5 [.other 0, .other 1, .other 2]).flatten

theorem unnamed_function_is_left_alone_around :
    let r := (runAll (concurrently default) (quiescent oneFunction)
      aroundOneFunction).state.registry
    oneFunction.registry.SameFunction "testUser" "test.py" r ∧
      ∀ g ∈ oneFunction.registry.files, g.hasKey "testUser" "test.py" = true →
        r.content g._id = oneFunction.registry.content g._id := by
  refine unnamed_function_is_left_alone oneFunction_textReachable _ ?_
  intro request hrequest
  have harrived : request = .fileupload (.str "testUser") "other.py" [112] ∨
      request = .delete "testUser" "other.py" ∨
      request = .event (samplePayload "otherUser" "test.py") := by
    simpa [aroundOneFunction] using hrequest
  rcases harrived with rfl | rfl | rfl
  · exact ⟨rfl, fun hnames => absurd hnames.2 (by decide)⟩
  · exact ⟨rfl, fun hnames => absurd hnames.2 (by decide)⟩
  · refine ⟨rfl, ?_⟩
    rintro ⟨e, hevent, huser, -⟩
    obtain rfl := Except.ok.inj hevent
    exact absurd huser (by decide)

end LambdaOnOpenStack
