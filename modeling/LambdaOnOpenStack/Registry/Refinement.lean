import LambdaOnOpenStack.Registry.Frame
import LambdaOnOpenStack.Registry.FunctionMap

/-!
# The web interface refines the map of functions

As long as no event is dispatched, the three collections represent a map of
functions: an entry is a file document with its chunks, and a mapping document
with the same `_id` if the function is registered.
-/

namespace LambdaOnOpenStack

open Support Program

namespace Registry

/-! ## The map that the collections represent -/

/-- The document shows the registration of `f` with these fields, and its
content can be read. -/
structure Shows (P : Platform) (r : Registry) (d : MappingDoc) (u f : String)
    (content : Bytes) (fields : FunctionFields) : Prop where
  named : d.Named u f
  registration : d.isRegistration = true
  eventType : d.eventType = .ofText fields.eventType
  eventsource : d.eventsource = .ofText fields.eventsource
  memory : d.memory = .ofText fields.memory
  environment : d.environment = some (.ofText fields.environment)
  sequence_count : d.sequence_count = 0
  content : r.content d._id = .ok content

/-- What the collections hold for one function. -/
def Holds (P : Platform) (r : Registry) (u f : String) : Option Entry → Prop
  | none => r.files.filter (·.hasKey u f) = [] ∧
      r.mapping.filter (·.hasKey u f) = []
  | some (.uploaded content) =>
      (∃ g, r.files.filter (·.hasKey u f) = [g] ∧
        r.content g._id = .ok content) ∧
      r.mapping.filter (·.hasKey u f) = []
  | some (.registered content fields) =>
      ∃ g d, r.files.filter (·.hasKey u f) = [g] ∧
        r.mapping.filter (·.hasKey u f) = [d] ∧ d._id = g._id ∧
        r.Shows P d u f content fields

/-- The collections represent the map. -/
def Represents (P : Platform) (r : Registry) (m : FunctionMap) : Prop :=
  ∀ u f, r.Holds P u f (m (u, f))

/-- The documents are those of the registered functions of the user, one for
each. -/
structure Lists (P : Platform) (r : Registry) (m : FunctionMap) (u : String)
    (ds : List MappingDoc) : Prop where
  once : (ds.map (·.filename)).Nodup
  sound : ∀ d ∈ ds, ∃ f content fields,
    m (u, f) = some (.registered content fields) ∧
      r.Shows P d u f content fields
  complete : ∀ f content fields,
    m (u, f) = some (.registered content fields) →
      ∃ d ∈ ds, r.Shows P d u f content fields

/-- What the command is answered when the map is `m`. -/
def Answers (P : Platform) (r : Registry) (m : FunctionMap) :
    Command → Except Failure Reply → Prop
  | .fileupload u f _, reply =>
      reply = .ok (match m (u, f) with
        | none => .created
        | some _ => .text "Duplicate Function. Please retry")
  | .post u f _, reply =>
      reply = .ok (match m (u, f) with
        | none => .text
            "No function found for this data. Please upload function first."
        | some (.uploaded _) => .created
        | some (.registered _ _) => .text "Duplicate Function. Please retry")
  | .put u f _, reply =>
      match m (u, f) with
      | some (.registered _ _) => ∃ doc, reply = .ok (.document doc)
      | _ => reply = .ok .nothing
  | .delete u f, reply =>
      reply = .ok (match m (u, f) with
        | some (.registered _ _) => .text "Function Deleted!"
        | _ => .nothing)
  | .list u, reply =>
      ∃ ds, r.Lists P m u ds ∧
        reply = .ok (if ds = [] then .text "No functions listed"
          else .documents ds)
  | .one u f, reply =>
      match m (u, f) with
      | some (.registered content fields) =>
          ∃ d, r.Shows P d u f content fields ∧
            reply = .ok (.document (some d))
      | _ => reply = .ok (.document none)

end Registry

open Registry

/-- The command is answered as the map says, and the collections represent the
map after it. -/
structure RefinesMap (P : Platform) (w : World) (m : FunctionMap)
    (command : Command) : Prop where
  reply : w.registry.Answers P m command
    ((command.request.handler P).run w).1
  state : (exec P w command.request).registry.Represents P (m.exec command)

/-- The database while it represents a map. -/
structure MapState (P : Platform) (w : World) (m : FunctionMap) : Prop where
  wellFormed : TextWellFormed P w.registry
  represents : w.registry.Represents P m

variable {P : Platform} {w : World} {m : FunctionMap} {u f : String}

theorem Command.request_textual (command : Command) :
    command.request.textual = true := by
  cases command <;> rfl

namespace Registry

variable {r r' : Registry}

/-! ## The other functions -/

theorem Change.uploads {request : Request} (hchange : Change P r request r') :
    ∀ x ∈ r.uploads, x ∈ r'.uploads := by
  intro x hx
  cases hchange with
  | uploaded => exact List.mem_append_left _ hx
  | _ => exact hx

/-- A file that stays has the content that it had. -/
theorem WellFormed.content_same (h : WellFormed P r) (h' : WellFormed P r')
    (huploads : ∀ x ∈ r.uploads, x ∈ r'.uploads) {g : FileDoc}
    (hg : g ∈ r.files) (hg' : g ∈ r'.files) :
    r'.content g._id = r.content g._id := by
  obtain ⟨content, hupload, hread⟩ := h.content_of_mem hg
  obtain ⟨content', -, hread'⟩ := h'.content_of_mem hg'
  rw [hread, hread', h'.content_eq_uploaded hread' (huploads _ hupload)]

theorem Holds.of_same (h : WellFormed P r) (h' : WellFormed P r')
    (huploads : ∀ x ∈ r.uploads, x ∈ r'.uploads)
    (hmapping : r'.mapping.filter (·.hasKey u f) =
      r.mapping.filter (·.hasKey u f))
    (hfiles : r'.files.filter (·.hasKey u f) = r.files.filter (·.hasKey u f))
    {entry : Option Entry} (hholds : r.Holds P u f entry) :
    r'.Holds P u f entry := by
  have hcontent : ∀ g, r.files.filter (·.hasKey u f) = [g] →
      r'.content g._id = r.content g._id := by
    intro g hg
    obtain ⟨-, hmem, -⟩ := find?_of_filter_eq_singleton hg
    rw [← hfiles] at hg
    obtain ⟨-, hmem', -⟩ := find?_of_filter_eq_singleton hg
    exact h.content_same h' huploads hmem hmem'
  match entry, hholds with
  | none, ⟨hnofile, hnodoc⟩ => exact ⟨hfiles.trans hnofile, hmapping.trans hnodoc⟩
  | some (.uploaded content), ⟨⟨g, hfile, hread⟩, hnodoc⟩ =>
      exact ⟨⟨g, hfiles.trans hfile, (hcontent g hfile).trans hread⟩,
        hmapping.trans hnodoc⟩
  | some (.registered content fields), ⟨g, d, hfile, hdoc, hid, hshows⟩ =>
      refine ⟨g, d, hfiles.trans hfile, hmapping.trans hdoc, hid, ?_⟩
      refine { hshows with content := ?_ }
      rw [hid, hcontent g hfile, ← hid]
      exact hshows.content

/-- A request about one function changes one entry of the map. -/
theorem Represents.update (hrep : r.Represents P m) (h : WellFormed P r)
    (h' : WellFormed P r') (huploads : ∀ x ∈ r.uploads, x ∈ r'.uploads)
    (hspares : r.SparesOthers u f r') {entry : Option Entry}
    (hentry : r'.Holds P u f entry) :
    r'.Represents P (Function.update m (u, f) entry) := by
  intro u' f'
  by_cases hkey : (u', f') = (u, f)
  · obtain ⟨rfl, rfl⟩ := Prod.mk.inj hkey
    rw [Function.update_self]
    exact hentry
  · rw [Function.update_of_ne hkey]
    exact (hrep u' f').of_same h h' huploads (hspares.filter_mapping hkey)
      (hspares.filter_files hkey)

end Registry

/-! ## Bodies of commands -/

theorem FunctionFields.body_hasKey (fields : FunctionFields) :
    (fields.body u f).hasKey P = (·.hasKey u f) := rfl

theorem FunctionFields.body_hasFile (fields : FunctionFields) :
    (fields.body u f).hasFile P = (·.hasKey u f) := rfl

theorem putValue_ofText (given old : Option String) :
    putValue P (.ofText given) (.ofText old) = .ofText (given.or old) := by
  cases given <;> simp [putValue, Value.ofText]

theorem Registry.Shows.update {r r' : Registry} {d : MappingDoc}
    {content : Bytes} {fields : FunctionFields} (given : FunctionFields)
    (hshows : r.Shows P d u f content fields)
    (hcontent : r'.content d._id = .ok content) :
    r'.Shows P ((given.body u f).update P d) u f content
      (fields.override given) := by
  obtain ⟨hid, huser, hname, hlog, hcount⟩ :=
    update_kept (P := P) (given.body u f) d
  refine ⟨⟨?_, ?_⟩, ?_, ?_, ?_, ?_, ?_, ?_, ?_⟩
  · rw [huser, hshows.named.1]
  · rw [hname, hshows.named.2]
  · rw [MappingDoc.isRegistration, hlog]
    exact hshows.registration
  · rw [Body.update_eventType, hshows.eventType]
    exact putValue_ofText _ _
  · rw [Body.update_eventsource, hshows.eventsource]
    exact putValue_ofText _ _
  · rw [Body.update_memory, hshows.memory]
    exact putValue_ofText _ _
  · rw [Body.update_environment, hshows.environment]
    cases henv : given.environment <;>
      simp [FunctionFields.body, FunctionFields.override, henv, Value.ofText]
  · rw [hcount, hshows.sequence_count]
  · rw [hid, hcontent]

/-! ## The handlers -/

namespace MapState

/-- A command that names a function changes its entry to what the collections
hold for it afterwards. -/
theorem represents_update (h : MapState P w m) (command : Command)
    (hnames : command.request.Names u f) {entry : Option Entry}
    (hentry : (exec P w command.request).registry.Holds P u f entry) :
    (exec P w command.request).registry.Represents P
      (Function.update m (u, f) entry) := by
  have hchange := h.wellFormed.toWellFormed.change_exec command.request
  exact h.represents.update h.wellFormed.toWellFormed
    (h.wellFormed.toWellFormed.after_exec _) hchange.uploads
    (hchange.sparesOthers h.wellFormed hnames) hentry

/-- A registered function has one file and one document. -/
theorem holds (h : MapState P w m) {entry : Option Entry}
    (hentry : m (u, f) = entry) : w.registry.Holds P u f entry := by
  rw [← hentry]
  exact h.represents u f

theorem file_free (h : MapState P w m) (hentry : m (u, f) = none) :
    w.registry.files.any (·.hasKey u f) = false := by
  exact (find?_of_filter_eq_nil (h.holds hentry).1).2

theorem file_taken (h : MapState P w m) {entry : Entry}
    (hentry : m (u, f) = some entry) :
    w.registry.files.any (·.hasKey u f) = true := by
  have hholds := h.holds hentry
  match entry, hholds with
  | .uploaded _, ⟨⟨g, hfile, _⟩, _⟩ =>
      obtain ⟨-, hg, hkey⟩ := find?_of_filter_eq_singleton hfile
      exact List.any_eq_true.mpr ⟨g, hg, hkey⟩
  | .registered _ _, ⟨g, _, hfile, _⟩ =>
      obtain ⟨-, hg, hkey⟩ := find?_of_filter_eq_singleton hfile
      exact List.any_eq_true.mpr ⟨g, hg, hkey⟩

theorem fileupload (h : MapState P w m) (content : Bytes) :
    RefinesMap P w m (.fileupload u f content) := by
  have hrun := run_postFileupload P (.str u) f content w
  rw [Ruby.toText_str] at hrun
  cases hentry : m (u, f) with
  | none =>
      simp only [h.file_free hentry, Bool.false_eq_true, ↓reduceIte] at hrun
      have hexec : exec P w (Command.fileupload u f content).request =
          w.onRegistry (Registry.upload P f content u) := by
        rw [exec_eq]
        exact congrArg Prod.snd hrun
      refine ⟨?_, ?_⟩
      · simp [Answers, Command.request, Request.handler, hrun, hentry]
      · simp only [FunctionMap.exec, hentry]
        refine h.represents_update (.fileupload u f content) ⟨rfl, rfl⟩ ?_
        have hwell := h.wellFormed.toWellFormed.after_exec
          (Command.fileupload u f content).request
        rw [hexec] at hwell ⊢
        obtain ⟨hnofile, hnodoc⟩ := h.holds hentry
        refine ⟨⟨w.registry.uploadedFile P f content u, ?_, ?_⟩, hnodoc⟩
        · rw [World.onRegistry_registry, Registry.upload, List.filter_append,
            hnofile]
          simp [FileDoc.hasKey, uploadedFile]
        · have hmem : w.registry.uploadedFile P f content u ∈
              (w.registry.upload P f content u).files := by
            simp [Registry.upload]
          exact content_of_stores (hwell.findFile hmem)
            (stores_uploadedFile h.wellFormed.toIdentified)
  | some entry =>
      simp only [h.file_taken hentry, ↓reduceIte] at hrun
      refine ⟨?_, ?_⟩
      · simp [Answers, Command.request, Request.handler, hrun, hentry]
      · have hexec : exec P w (Command.fileupload u f content).request = w := by
          rw [exec_eq]
          exact congrArg Prod.snd hrun
        simp only [FunctionMap.exec, hentry]
        rw [hexec]
        exact h.represents

/-- The mapping document of a name that is not registered. -/
theorem mapping_free (h : MapState P w m)
    (hentry : ∀ content fields, m (u, f) ≠ some (.registered content fields)) :
    w.registry.mapping.filter (·.hasKey u f) = [] := by
  have hholds := h.represents u f
  match hm : m (u, f) with
  | none =>
      rw [hm] at hholds
      exact hholds.2
  | some (.uploaded content) =>
      rw [hm] at hholds
      exact hholds.2
  | some (.registered content fields) => exact absurd hm (hentry content fields)

/-- The file of a function that is not registered shares its `_id` with no
document. -/
theorem id_free (h : MapState P w m) {g : FileDoc}
    (hfile : w.registry.files.filter (·.hasKey u f) = [g])
    (hnodoc : w.registry.mapping.filter (·.hasKey u f) = []) :
    ∀ d ∈ w.registry.mapping, d._id ≠ g._id := by
  intro d hd hid
  obtain ⟨-, hg, hkey⟩ := find?_of_filter_eq_singleton hfile
  obtain ⟨u', f', hnamed⟩ := h.wellFormed.textNames d hd
  have hkey' := (h.wellFormed.hasKey_of_id hd hnamed hg hid.symm).2
  simp only [FileDoc.hasKey, Bool.and_eq_true, decide_eq_true_eq] at hkey hkey'
  have hdkey : d.hasKey u f = true :=
    hnamed.hasKey_iff.mpr
      ⟨hkey'.1.symm.trans hkey.1, hkey'.2.symm.trans hkey.2⟩
  exact List.filter_eq_nil_iff.mp hnodoc d hd hdkey

theorem post_uploaded (h : MapState P w m) (fields : FunctionFields) {content : Bytes}
    (hentry : m (u, f) = some (.uploaded content)) :
    RefinesMap P w m (.post u f fields) := by
  have hrun := run_postLambda P (fields.body u f) w h.wellFormed.file_keys
  obtain ⟨⟨g, hfile, hread⟩, hnodoc⟩ := h.holds hentry
  obtain ⟨hfind, hg, -⟩ := find?_of_filter_eq_singleton hfile
  have hfree := (find?_of_filter_eq_nil hnodoc).2
  have hid : w.registry.mapping.any (fun d => d._id = g._id) = false := by
    simpa [List.any_eq_false] using h.id_free hfile hnodoc
  simp only [FunctionFields.body_hasKey, FunctionFields.body_hasFile, hfree, hfind, hid,
    Bool.false_eq_true, ↓reduceIte] at hrun
  have hexec : exec P w (Command.post u f fields).request =
      w.onRegistry (Registry.insert ((fields.body u f).registration g)) := by
    rw [exec_eq]
    exact congrArg Prod.snd hrun
  refine ⟨?_, ?_⟩
  · simp [Answers, Command.request, Request.handler, hrun, hentry]
  · simp only [FunctionMap.exec, hentry]
    refine h.represents_update (.post u f fields) ⟨rfl, rfl⟩ ?_
    have hwell := h.wellFormed.toWellFormed.after_exec
      (Command.post u f fields).request
    rw [hexec] at hwell ⊢
    have hcontent := h.wellFormed.toWellFormed.content_same hwell
      (fun _ hx => hx) hg hg
    refine ⟨g, (fields.body u f).registration g, hfile, ?_, rfl, ?_⟩
    · rw [World.onRegistry_registry, Registry.insert, List.filter_append,
        hnodoc]
      simp [Body.registration, FunctionFields.body, MappingDoc.hasKey]
    · exact ⟨⟨rfl, rfl⟩, rfl, rfl, rfl, rfl, rfl, rfl, hcontent.trans hread⟩

theorem post (h : MapState P w m) (fields : FunctionFields) :
    RefinesMap P w m (.post u f fields) := by
  have hrun := run_postLambda P (fields.body u f) w h.wellFormed.file_keys
  rw [FunctionFields.body_hasKey, FunctionFields.body_hasFile] at hrun
  match hentry : m (u, f) with
  | some (.uploaded content) => exact h.post_uploaded fields hentry
  | none =>
      obtain ⟨hnofile, hnodoc⟩ := h.holds hentry
      have hfree := (find?_of_filter_eq_nil hnodoc).2
      have hfind := (find?_of_filter_eq_nil hnofile).1
      simp only [hfree, hfind, Bool.false_eq_true, ↓reduceIte] at hrun
      refine ⟨?_, ?_⟩
      · simp [Answers, Command.request, Request.handler, hrun, hentry]
      · simp only [FunctionMap.exec, hentry, exec_eq, Command.request,
          Request.handler, hrun]
        exact h.represents
  | some (.registered content fields') =>
      obtain ⟨g, d, -, hdoc, -, -⟩ := h.holds hentry
      obtain ⟨-, hd, hkey⟩ := find?_of_filter_eq_singleton hdoc
      have htaken : w.registry.mapping.any (·.hasKey u f) = true :=
        List.any_eq_true.mpr ⟨d, hd, hkey⟩
      simp only [htaken, ↓reduceIte] at hrun
      refine ⟨?_, ?_⟩
      · simp [Answers, Command.request, Request.handler, hrun, hentry]
      · simp only [FunctionMap.exec, hentry, exec_eq, Command.request,
          Request.handler, hrun]
        exact h.represents

theorem put (h : MapState P w m) (given : FunctionFields) :
    RefinesMap P w m (.put u f given) := by
  obtain ⟨doc, hrun⟩ := run_putLambda_reply P (given.body u f) w
  have hexec : exec P w (Command.put u f given).request =
      w.onRegistry (Registry.updateKey P (given.body u f)
        ((given.body u f).update P)) := exec_put_eq _
  by_cases hregistered : ∃ content fields,
      m (u, f) = some (.registered content fields)
  · obtain ⟨content, fields, hentry⟩ := hregistered
    obtain ⟨g, d, hfile, hdoc, hid, hshows⟩ := h.holds hentry
    obtain ⟨hfind, hd, hkey⟩ := find?_of_filter_eq_singleton hdoc
    have htaken : w.registry.mapping.any (·.hasKey u f) = true :=
      List.any_eq_true.mpr ⟨d, hd, hkey⟩
    simp only [FunctionFields.body_hasKey, htaken, ↓reduceIte] at hrun
    refine ⟨?_, ?_⟩
    · simp [Answers, Command.request, Request.handler, hrun, hentry]
    · simp only [FunctionMap.exec, hentry]
      refine h.represents_update (.put u f given) ⟨rfl, rfl⟩ ?_
      have hwell := h.wellFormed.toWellFormed.after_exec
        (Command.put u f given).request
      rw [hexec] at hwell ⊢
      obtain ⟨-, hg, -⟩ := find?_of_filter_eq_singleton hfile
      have hcontent := h.wellFormed.toWellFormed.content_same hwell
        (fun _ hx => hx) hg hg
      rw [← hid, hshows.content] at hcontent
      have hupdated := update_kept (P := P) (given.body u f) d
      refine ⟨g, (given.body u f).update P d, hfile, ?_,
        hupdated.1.trans hid, hshows.update given hcontent⟩
      rw [World.onRegistry_registry, Registry.updateKey, FunctionFields.body_hasKey,
        filter_updateFirst_self (update_hasKey (given.body u f) u f), hdoc]
      rfl
  · have hother : ∀ content fields,
        m (u, f) ≠ some (.registered content fields) :=
      fun content fields hentry => hregistered ⟨content, fields, hentry⟩
    obtain ⟨hnone, hfree⟩ := find?_of_filter_eq_nil (h.mapping_free hother)
    have hsame : w.registry.updateKey P (given.body u f)
        ((given.body u f).update P) = w.registry := by
      rw [Registry.updateKey, FunctionFields.body_hasKey,
        updateFirst_of_find?_none hnone]
    simp only [FunctionFields.body_hasKey, hfree, Bool.false_eq_true, ↓reduceIte]
      at hrun
    have hmap : m.exec (.put u f given) = m := by
      simp only [FunctionMap.exec]
    refine ⟨?_, ?_⟩
    · simp only [Answers, Command.request, Request.handler, hrun]
    · rw [hexec, World.onRegistry_registry, hsame, hmap]
      exact h.represents

theorem delete_registered (h : MapState P w m) {content : Bytes}
    {fields : FunctionFields} (hentry : m (u, f) = some (.registered content fields)) :
    RefinesMap P w m (.delete u f) := by
  obtain ⟨g, d, hfile, hdoc, hid, -⟩ := h.holds hentry
  obtain ⟨hfind, -, -⟩ := find?_of_filter_eq_singleton hdoc
  have hrun := run_deleteLambda u f w
  rw [hfind] at hrun
  have hexec : exec P w (Command.delete u f).request =
      w.onRegistry (Registry.remove d._id) := by
    rw [exec_eq]
    exact congrArg Prod.snd hrun
  refine ⟨?_, ?_⟩
  · simp [Answers, Command.request, Request.handler, hrun, hentry]
  · simp only [FunctionMap.exec, hentry]
    refine h.represents_update (.delete u f) ⟨rfl, rfl⟩ ?_
    rw [hexec]
    -- The only file and the only document of the key have the deleted `_id`.
    refine ⟨?_, ?_⟩
    · rw [List.filter_eq_nil_iff]
      intro g' hg' hkey
      obtain ⟨hmem, hne⟩ :=
        (mem_eraseP_of_nodup h.wellFormed.file_ids).mp hg'
      have hg : g' ∈ w.registry.files.filter (·.hasKey u f) :=
        List.mem_filter.mpr ⟨hmem, hkey⟩
      rw [hfile, List.mem_singleton] at hg
      exact hne (by rw [hg, hid])
    · rw [List.filter_eq_nil_iff]
      intro d' hd' hkey
      obtain ⟨hmem, hne⟩ :=
        (mem_eraseP_of_nodup h.wellFormed.mapping_ids).mp hd'
      have hd : d' ∈ w.registry.mapping.filter (·.hasKey u f) :=
        List.mem_filter.mpr ⟨hmem, hkey⟩
      rw [hdoc, List.mem_singleton] at hd
      exact hne (by rw [hd])

theorem delete (h : MapState P w m) : RefinesMap P w m (.delete u f) := by
  by_cases hregistered : ∃ content fields,
      m (u, f) = some (.registered content fields)
  · obtain ⟨content, fields, hentry⟩ := hregistered
    exact h.delete_registered hentry
  · have hother : ∀ content fields,
        m (u, f) ≠ some (.registered content fields) :=
      fun content fields hentry => hregistered ⟨content, fields, hentry⟩
    obtain ⟨hnone, -⟩ := find?_of_filter_eq_nil (h.mapping_free hother)
    have hrun := run_deleteLambda u f w
    rw [hnone] at hrun
    have hmap : m.exec (.delete u f) = m := by
      simp only [FunctionMap.exec]
    refine ⟨?_, ?_⟩
    · simp only [Answers, Command.request, Request.handler, hrun]
    · rw [hmap, exec_eq, Command.request, Request.handler, hrun]
      exact h.represents

/-- A document of `mapping` is the one of a registered function. -/
theorem shows_of_mem (h : MapState P w m) {d : MappingDoc}
    (hd : d ∈ w.registry.mapping) :
    ∃ u f content fields, m (u, f) = some (.registered content fields) ∧
      w.registry.mapping.filter (·.hasKey u f) = [d] ∧
      w.registry.Shows P d u f content fields := by
  obtain ⟨u, f, hnamed⟩ := h.wellFormed.textNames d hd
  have hmem : d ∈ w.registry.mapping.filter (·.hasKey u f) :=
    List.mem_filter.mpr ⟨hd, hnamed.hasKey_iff.mpr ⟨rfl, rfl⟩⟩
  by_cases hregistered : ∃ content fields,
      m (u, f) = some (.registered content fields)
  · obtain ⟨content, fields, hentry⟩ := hregistered
    obtain ⟨g, d', -, hdoc, -, hshows⟩ := h.holds hentry
    obtain rfl : d = d' := by
      rw [hdoc] at hmem
      exact List.mem_singleton.mp hmem
    exact ⟨u, f, content, fields, hentry, hdoc, hshows⟩
  · rw [h.mapping_free fun content fields hentry =>
      hregistered ⟨content, fields, hentry⟩] at hmem
    simp at hmem

/-- The query for a user finds the documents of the functions of the user. -/
theorem lists (h : MapState P w m) (u : String) :
    w.registry.Lists P m u (w.registry.mapping.filter (·.hasUser u)) where
  once := by
    refine List.Nodup.map_on ?_ (h.wellFormed.mapping_ids.of_map.filter _)
    intro x hx y hy hsame
    obtain ⟨hxmem, hxuser⟩ := List.mem_filter.mp hx
    obtain ⟨hymem, hyuser⟩ := List.mem_filter.mp hy
    obtain ⟨ux, f, _, _, -, hxdoc, hxshows⟩ := h.shows_of_mem hxmem
    obtain ⟨uy, f', _, _, -, -, hyshows⟩ := h.shows_of_mem hymem
    rw [MappingDoc.hasUser, hxshows.named.1, Value.holdsText_str] at hxuser
    rw [MappingDoc.hasUser, hyshows.named.1, Value.holdsText_str] at hyuser
    have hykey : y.Named ux f := by
      refine ⟨?_, ?_⟩
      · rw [hyshows.named.1, hyuser, hxuser]
      · rw [← hsame, hxshows.named.2]
    have hymem' : y ∈ w.registry.mapping.filter (·.hasKey ux f) :=
      List.mem_filter.mpr ⟨hymem, hykey.hasKey_iff.mpr ⟨rfl, rfl⟩⟩
    rw [hxdoc, List.mem_singleton] at hymem'
    exact hymem'.symm
  sound := by
    intro d hd
    obtain ⟨hmem, huser⟩ := List.mem_filter.mp hd
    obtain ⟨u', f, content, fields, hentry, -, hshows⟩ := h.shows_of_mem hmem
    rw [MappingDoc.hasUser, hshows.named.1, Value.holdsText_str] at huser
    subst huser
    exact ⟨f, content, fields, hentry, hshows⟩
  complete := by
    intro f content fields hentry
    obtain ⟨g, d, -, hdoc, -, hshows⟩ := h.holds hentry
    obtain ⟨-, hd, -⟩ := find?_of_filter_eq_singleton hdoc
    refine ⟨d, List.mem_filter.mpr ⟨hd, ?_⟩, hshows⟩
    rw [MappingDoc.hasUser, hshows.named.1, Value.holdsText_str]

theorem list (h : MapState P w m) : RefinesMap P w m (.list u) where
  reply := ⟨_, h.lists u, by
    rw [Command.request, Request.handler, run_getList]⟩
  state := by
    rw [Command.request, exec_list]
    exact h.represents

theorem one (h : MapState P w m) : RefinesMap P w m (.one u f) where
  reply := by
    simp only [Command.request, Request.handler, run_getOne, Answers]
    split
    · rename_i content fields hentry
      obtain ⟨g, d, -, hdoc, -, hshows⟩ := h.holds hentry
      exact ⟨d, hshows, by rw [(find?_of_filter_eq_singleton hdoc).1]⟩
    · rename_i hother
      obtain ⟨hnone, -⟩ := find?_of_filter_eq_nil (h.mapping_free hother)
      rw [hnone]
  state := by
    rw [Command.request, exec_one]
    exact h.represents

theorem refines (h : MapState P w m) (command : Command) :
    RefinesMap P w m command := by
  cases command with
  | fileupload u f content => exact h.fileupload content
  | post u f fields => exact h.post fields
  | put u f given => exact h.put given
  | delete u f => exact h.delete
  | list u => exact h.list
  | one u f => exact h.one

theorem exec (h : MapState P w m) (command : Command) :
    MapState P (exec P w command.request) (m.exec command) :=
  ⟨h.wellFormed.after_exec command.request_textual, (h.refines command).state⟩

theorem empty : MapState P {} FunctionMap.empty where
  wellFormed := TextWellFormed.empty
  represents := fun _ _ => ⟨rfl, rfl⟩

end MapState

/-! ## Whole runs -/

/-- After every sequence of commands the collections represent the map that
the commands make, and the next command is answered as this map says. -/
theorem webApi_refines_map (P : Platform) (commands : List Command)
    (next : Command) :
    RefinesMap P
      (runAll (fun w (command : Command) => exec P w command.request) {} commands)
      (runAll FunctionMap.exec FunctionMap.empty commands) next := by
  have hrun := runAll_simulation (R := MapState P)
    (fun _ _ command h => h.exec command) MapState.empty commands
  exact hrun.refines next

end LambdaOnOpenStack
