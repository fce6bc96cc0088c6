import LambdaOnOpenStack.Registry.Consistency
import LambdaOnOpenStack.Registry.Numbering

/-!
# What an update reaches

A `PUT` changes the registration.  A later dispatch takes the memory for the
execution from the first document of the user and the values of its run record
from the latest record of the event, so the update governs it exactly if these
two carry the updated values.
-/

namespace LambdaOnOpenStack

open Support Program Registry

/-- The request updates or deletes the function `f` of the user `u`. -/
def Request.Rewrites (P : Platform) (u f : String) : Request → Prop
  | .put body => body.Targets P u f
  | .delete uname filename => uname = u ∧ filename = f
  | _ => False

/-- The event is for the function `f` of the user `u` from this source, and
its dispatch starts a worker. -/
def RunsToEnd (P : Platform) (u f : String) (source : Value) (w : World)
    (params : Value) : Prop :=
  ∃ e d name content latest, readEvent params = .ok e ∧
    e.user_name = .str u ∧ e.filename = .str f ∧ e.event_source = source ∧
    Completes P e w d name content latest ∧ P.prints ("file::" ++ name) = true

/-- From `w` to `w'` a worker was started with the memory of `g`, and a run
was recorded with the event type, the event source and the memory of `g`. -/
structure RunsWith (g : MappingDoc) (w w' : World) : Prop where
  executed : ∃ worker, w'.workers = w.workers ++ [worker] ∧
    worker.memory = g.memory.orElse (.int 128)
  recorded : ∃ record, w'.inserted = w.inserted ++ [record] ∧
    record.eventType = g.eventType ∧ record.eventsource = g.eventsource ∧
    record.memory = g.memory

/-- If the request is an event for the function from the event source of `g`
and its dispatch starts a worker, this is done with the values of `g`. -/
def GovernedBy (P : Platform) (u f : String) (g : MappingDoc) (w : World) :
    Request → Prop
  | .event params => RunsToEnd P u f g.eventsource w params →
      RunsWith g w (exec P w (.event params))
  | _ => True

/-- If the request is such an event, the first document of the user has the
memory of `g`, and the latest record of the event has its values. -/
def FindsValues (P : Platform) (u f : String) (g : MappingDoc) (w : World) :
    Request → Prop
  | .event params => RunsToEnd P u f g.eventsource w params →
      (∀ d, w.registry.firstRecord P (.str u) = some d →
        d.memory.orElse (.int 128) = g.memory.orElse (.int 128)) ∧
      ∀ latest, w.registry.latestRecord P (.str u) (.str f) g.eventsource =
        some latest →
          latest.eventType = g.eventType ∧
            latest.eventsource = g.eventsource ∧ latest.memory = g.memory
  | _ => True

variable {P : Platform} {w : World} {u f : String} {g : MappingDoc}

theorem runsWith_iff {params : Value} {e : Event} {d latest : MappingDoc}
    {name : String} {content : Bytes} (hevent : readEvent params = .ok e)
    (hcompletes : Completes P e w d name content latest)
    (hprints : P.prints ("file::" ++ name) = true) :
    RunsWith g w (exec P w (.event params)) ↔
      d.memory.orElse (.int 128) = g.memory.orElse (.int 128) ∧
        latest.eventType = g.eventType ∧
          latest.eventsource = g.eventsource ∧ latest.memory = g.memory := by
  have hworld : exec P w (.event params) =
      (w.dispatched P e d name content latest).startWorker d
        (P.newUuid w.uuids) := by
    rw [exec_event, hevent]
    exact ((dispatch_run P e w).of_completes hcompletes hprints).2
  rw [hworld]
  constructor
  · rintro ⟨⟨worker, hworkers, hmemory⟩, record, hinserted, hvalues⟩
    obtain rfl := List.singleton_inj.mp (List.append_cancel_left hworkers)
    obtain rfl := List.singleton_inj.mp (List.append_cancel_left hinserted)
    exact ⟨hmemory, hvalues⟩
  · rintro ⟨hmemory, hvalues⟩
    exact ⟨⟨_, rfl, hmemory⟩, ⟨_, rfl, hvalues⟩⟩

theorem governedBy_iff (w : World) (request : Request) :
    GovernedBy P u f g w request ↔ FindsValues P u f g w request := by
  cases request with
  | event params =>
      refine imp_congr_right ?_
      rintro ⟨e, d, name, content, latest, hevent, huser, hname, hsource,
        hcompletes, hprints⟩
      have hfirst := hcompletes.first
      have hlatest := hcompletes.latest
      rw [huser] at hfirst
      rw [huser, hname, hsource] at hlatest
      rw [runsWith_iff hevent hcompletes hprints]
      simp [hfirst, hlatest]
  | _ => exact Iff.rfl

/-! ## The registration that is updated -/

namespace Registry

/-- No document before a registration matches a query for its names. -/
def RegistrationsFirst (r : Registry) : Prop :=
  r.mapping.Pairwise fun d e => e.isRegistration = true →
    ∀ u f, e.Named u f → d.hasKey u f = false

variable {r r' : Registry}

theorem RegistrationsFirst.find?_eq (h : r.RegistrationsFirst)
    (hg : g ∈ r.mapping) (hreg : g.isRegistration = true)
    (hnamed : g.Named u f) : r.mapping.find? (·.hasKey u f) = some g := by
  obtain ⟨before, after, hmapping⟩ := List.append_of_mem hg
  rw [RegistrationsFirst, hmapping] at h
  have hbefore : ∀ d ∈ before, ¬d.hasKey u f = true := by
    intro d hd
    rw [(List.pairwise_append.mp h).2.2 d hd g (List.mem_cons_self ..) hreg u f
      hnamed]
    decide
  have hkey : g.hasKey u f = true := hnamed.hasKey_iff.mpr ⟨rfl, rfl⟩
  rw [hmapping, List.find?_append, List.find?_eq_none.mpr hbefore,
    Option.none_or, List.find?_cons_of_pos hkey]

theorem Change.registrationsFirst {request : Request}
    (hchange : Change P r request r') (h : r.RegistrationsFirst) :
    r'.RegistrationsFirst := by
  cases hchange with
  | idle => exact h
  | unmatched => exact h
  | uploaded => exact h
  | @registered body g hfree =>
      refine List.pairwise_append.mpr ⟨h, List.pairwise_singleton _ _, ?_⟩
      intro d hd e he _ u f hnamed
      obtain rfl := List.mem_singleton.mp he
      obtain ⟨huser, hname⟩ := hnamed
      have hkey := hfree d hd
      simp only [Body.registration] at huser hname
      simpa [Body.hasKey, huser, hname] using hkey
  | @updated body =>
      refine pairwise_updateFirst ?_ h
      intro d e hde
      obtain ⟨-, huser', hname', -⟩ := update_kept (P := P) body e
      constructor
      · intro hreg u f hnamed
        rw [update_hasKey]
        exact hde hreg u f hnamed
      · intro hreg u f hnamed
        rw [update_isRegistration] at hreg
        exact hde hreg u f ⟨huser'.symm.trans hnamed.1, hname'.symm.trans hnamed.2⟩
  | removed => exact h.sublist List.eraseP_sublist
  | recorded =>
      refine List.pairwise_append.mpr ⟨h, List.pairwise_singleton _ _, ?_⟩
      intro d hd e he hreg
      obtain rfl := List.mem_singleton.mp he
      simp [MappingDoc.isRegistration, runRecord, RunRecord.document] at hreg

/-- A function that is neither updated nor deleted keeps its registration. -/
theorem Change.keeps_registration {request : Request}
    (hchange : Change P r request r') (h : WellFormed P r)
    (hg : g ∈ r.mapping) (hnamed : g.Named u f)
    (hother : ¬request.Rewrites P u f) : g ∈ r'.mapping := by
  cases hchange with
  | idle => exact hg
  | unmatched => exact hg
  | uploaded => exact hg
  | registered => exact List.mem_append_left _ hg
  | @updated body =>
      apply mem_updateFirst_of_mem hg
      rw [Bool.eq_false_iff]
      intro hkey
      obtain ⟨huser, hname⟩ := hnamed.hasKey_iff.mp hkey
      exact hother ⟨huser.symm, hname.symm⟩
  | @removed uname filename d hfind =>
      refine (mem_eraseP_of_nodup h.mapping_ids).mpr ⟨hg, ?_⟩
      intro hid
      obtain rfl := eq_of_key_eq h.mapping_ids hg
        (List.mem_of_find?_eq_some hfind) hid
      obtain ⟨huser, hname⟩ := hnamed.hasKey_iff.mp (List.find?_some hfind)
      exact hother ⟨huser.symm, hname.symm⟩
  | recorded => exact List.mem_append_left _ hg

/-- `g` is the registration of the function `f` of the user `u`. -/
structure Registers (P : Platform) (u f : String) (g : MappingDoc)
    (r : Registry) : Prop where
  wellFormed : WellFormed P r
  first : r.RegistrationsFirst
  mem : g ∈ r.mapping
  registration : g.isRegistration = true
  named : g.Named u f

theorem Registers.find?_eq (h : r.Registers P u f g) :
    r.mapping.find? (·.hasKey u f) = some g :=
  h.first.find?_eq h.mem h.registration h.named

theorem Registers.exec (h : w.registry.Registers P u f g) {request : Request}
    (hother : ¬request.Rewrites P u f) :
    (exec P w request).registry.Registers P u f g := by
  have hchange := h.wellFormed.change_exec request
  exact ⟨h.wellFormed.after_exec request, hchange.registrationsFirst h.first,
    hchange.keeps_registration h.wellFormed h.mem h.named hother,
    h.registration, h.named⟩

/-- A `PUT` for the function updates its registration. -/
theorem Registers.put (h : w.registry.Registers P u f g) {body : Body}
    (hbody : body.Targets P u f) :
    (LambdaOnOpenStack.exec P w (.put body)).registry.Registers P u f
      (body.update P g) := by
  obtain ⟨-, huser, hname, -⟩ := update_kept (P := P) body g
  have hfind := h.find?_eq
  rw [← hbody.hasKey] at hfind
  have hnew := find?_updateKey body hfind
  refine ⟨h.wellFormed.after_exec _,
    (h.wellFormed.change_exec _).registrationsFirst h.first, ?_, ?_,
    huser.trans h.named.1, hname.trans h.named.2⟩
  · rw [exec_put_eq]
    exact List.mem_of_find?_eq_some hnew
  · rw [update_isRegistration]
    exact h.registration

end Registry

theorem TextReachable.reachable (hw : TextReachable P w) : Reachable P w := by
  obtain ⟨requests, -, hrun⟩ := hw
  exact ⟨requests, hrun⟩

theorem Reachable.registrationsFirst (hw : Reachable P w) :
    w.registry.RegistrationsFirst :=
  hw.invariant (I := fun w => w.registry.RegistrationsFirst) List.Pairwise.nil
    fun _ request hwell h => (hwell.change_exec request).registrationsFirst h

/-- A registered function is updated, and then come any requests that neither
update nor delete it.  The registration has the updated values all the time,
and they govern every dispatch for its event source that starts a worker
exactly if each of these finds them in the first document of the user and in
the latest record of the event. -/
theorem update_governs_iff (hw : Reachable P w) (hg : g ∈ w.registry.mapping)
    (hreg : g.isRegistration = true) (hnamed : g.Named u f) {body : Body}
    (hbody : body.Targets P u f) {requests : List Request}
    (hrequests : ∀ request ∈ requests, ¬request.Rewrites P u f) :
    Throughout (exec P)
        (fun w' => w'.registry.mapping.find? (·.hasKey u f) =
          some (body.update P g))
        (exec P w (.put body)) requests ∧
      (Along (exec P) (GovernedBy P u f (body.update P g))
          (exec P w (.put body)) requests ↔
        Along (exec P) (FindsValues P u f (body.update P g))
          (exec P w (.put body)) requests) := by
  have hregisters : w.registry.Registers P u f g :=
    ⟨hw.wellFormed, hw.registrationsFirst, hg, hreg, hnamed⟩
  refine ⟨?_, along_congr governedBy_iff⟩
  have hrun := throughout_of_along
    (I := fun w' : World => w'.registry.Registers P u f (body.update P g))
    (C := fun _ request => ¬request.Rewrites P u f)
    (fun _ _ h hother => h.exec hother) (hregisters.put hbody)
    (along_of_forall fun request hrequest _ => hrequests request hrequest)
  exact hrun.imp fun _ h => h.find?_eq

/-! ## Runs with text names -/

/-- What a run record takes from the record before it. -/
def MappingDoc.runValues (d : MappingDoc) : Value × Value × Value :=
  (d.eventType, d.eventsource, d.memory)

namespace Registry

/-- The documents of the function are bound to sources that are text. -/
def TextSources (u f : String) (r : Registry) : Prop :=
  ∀ d ∈ r.documentsOf u f, d.eventsource.isText = true

variable {r r' : Registry} {s : String}

theorem TextSources.recordsOf_eq (h : r.TextSources u f) (htext : r.TextNames) :
    r.recordsOf P (.str u) (.str f) (.str s) =
      (r.documentsOf u f).filter fun d => d.eventsource = .str s := by
  rw [documentsOf, List.filter_filter]
  apply List.filter_congr
  intro d hd
  rw [Bool.eq_iff_iff]
  by_cases hnamed : d.Named u f
  · have hdoc : d ∈ r.documentsOf u f :=
      List.mem_filter.mpr ⟨hd, decide_eq_true hnamed⟩
    obtain ⟨s', hs'⟩ := Value.isText_iff.mp (h d hdoc)
    simp [hnamed, hnamed.1, hnamed.2, hs']
  · have hkey := (htext.hasKey_iff (u := u) (f := f) hd).not.mpr hnamed
    rw [MappingDoc.hasKey] at hkey
    simp [hnamed, hkey]

/-- The latest record is still the same, or it is a copy with its values. -/
theorem TextSources.record (h : r.TextSources u f) (htext : r.TextNames)
    {latest : MappingDoc} {log_uuid s' : String}
    (hlatest : r.latestRecord P (.str u) (.str f) (.str s') = some latest) :
    (r.record P latest log_uuid).TextSources u f ∧
      ((r.record P latest log_uuid).latestRecord P (.str u) (.str f)
          (.str s)).map MappingDoc.runValues =
        (r.latestRecord P (.str u) (.str f) (.str s)).map
          MappingDoc.runValues := by
  have hmem := List.argmax_mem hlatest
  have hnamed := htext.named_of_recordsOf hmem
  rw [h.recordsOf_eq htext] at hmem
  have hdoc : latest ∈ r.documentsOf u f := (List.mem_filter.mp hmem).1
  have hsource : latest.eventsource = .str s' :=
    of_decide_eq_true (List.mem_filter.mp hmem).2
  have hcopy : (r.runRecord P latest log_uuid).Named u f := hnamed
  have hdocs := documentsOf_record P r log_uuid hnamed
  have hsources : (r.record P latest log_uuid).TextSources u f := by
    intro d hd
    rw [hdocs] at hd
    rcases List.mem_append.mp hd with hd | hd
    · exact h d hd
    · rw [List.mem_singleton.mp hd]
      exact h latest hdoc
  have htext' : (r.record P latest log_uuid).TextNames := by
    intro d hd
    rcases List.mem_append.mp hd with hd | hd
    · exact htext d hd
    · rw [List.mem_singleton.mp hd]
      exact ⟨u, f, hcopy⟩
  refine ⟨hsources, ?_⟩
  have hcopySource : (r.runRecord P latest log_uuid).eventsource = .str s' :=
    hsource
  rw [latestRecord, hsources.recordsOf_eq htext', hdocs, List.filter_append,
    latestRecord, h.recordsOf_eq htext]
  by_cases hss : s' = s
  · rw [latestRecord, h.recordsOf_eq htext, hss] at hlatest
    rw [List.filter_cons_of_pos (by simp [hcopySource, hss]), List.filter_nil,
      List.argmax_concat, hlatest]
    simp only [Option.map_some]
    split <;> rfl
  · rw [List.filter_cons_of_neg (by simp [hcopySource, hss]), List.filter_nil,
      List.append_nil]

/-- No request but a `PUT` or a `DELETE` of the function changes the values of
its latest record. -/
theorem Change.latest_runValues {request : Request}
    (hchange : Change P r request r') (h : TextWellFormed P r)
    (hsources : r.TextSources u f) (htaken : ∃ d ∈ r.mapping, d.hasKey u f = true)
    (htext : request.textual = true) (hother : ¬request.Rewrites P u f) :
    r'.TextSources u f ∧
      (r'.latestRecord P (.str u) (.str f) (.str s)).map MappingDoc.runValues =
        (r.latestRecord P (.str u) (.str f) (.str s)).map
          MappingDoc.runValues := by
  by_cases hnames : request.Names u f
  · cases hchange with
    | idle => exact ⟨hsources, rfl⟩
    | unmatched => exact ⟨hsources, rfl⟩
    | uploaded => exact ⟨hsources, rfl⟩
    | @registered body g hfree =>
        obtain ⟨d, hd, hkey⟩ := htaken
        have hbody : body.hasKey P d = true := by
          simpa [Body.hasKey, hnames.1, hnames.2] using hkey
        rw [hfree d hd] at hbody
        exact absurd hbody (by decide)
    | updated =>
        exact absurd ⟨by rw [hnames.1, Ruby.toText_str],
          by rw [hnames.2, Ruby.toText_str]⟩ hother
    | removed => exact absurd hnames hother
    | recorded hevent hlatest =>
        obtain ⟨e, hevent', huser, hname⟩ := hnames
        obtain rfl := Except.ok.inj (hevent.symm.trans hevent')
        simp only [Request.textual, hevent, Event.textual, Bool.and_eq_true,
          Value.isText_iff] at htext
        obtain ⟨-, s', hs'⟩ := htext
        rw [huser, hname, hs'] at hlatest
        exact hsources.record h.textNames hlatest
  · have hsame := hchange.documentsOf_other h htext hnames
    have hsources' : r'.TextSources u f := by
      intro d hd
      rw [hsame] at hd
      exact hsources d hd
    refine ⟨hsources', ?_⟩
    rw [latestRecord, latestRecord, hsources.recordsOf_eq h.textNames,
      hsources'.recordsOf_eq (hchange.textNames htext h.textNames), hsame]

end Registry

/-- With text names and text sources, a run record has the updated values
exactly if the latest record right after the `PUT` has them. -/
theorem update_governs_text_iff (hw : TextReachable P w)
    (hg : g ∈ w.registry.mapping) (hreg : g.isRegistration = true)
    (hnamed : g.Named u f) {body : Body} (hbody : body.Targets P u f)
    (hbodyText : (Request.put body).textual = true)
    (hsources : (exec P w (.put body)).registry.TextSources u f)
    {requests : List Request}
    (hrequests : ∀ request ∈ requests,
      request.textual = true ∧ ¬request.Rewrites P u f) {s : String}
    (hs : (body.update P g).eventsource = .str s) :
    Along (exec P) (GovernedBy P u f (body.update P g))
        (exec P w (.put body)) requests ↔
      Along (exec P)
        (fun w' request => ∀ params, request = .event params →
          RunsToEnd P u f (.str s) w' params →
            (∀ d, w'.registry.firstRecord P (.str u) = some d →
              d.memory.orElse (.int 128) =
                (body.update P g).memory.orElse (.int 128)) ∧
            ∀ latest, (exec P w (.put body)).registry.latestRecord P (.str u)
              (.str f) (.str s) = some latest →
                latest.runValues = (body.update P g).runValues)
        (exec P w (.put body)) requests := by
  have hregisters : w.registry.Registers P u f g :=
    ⟨hw.wellFormed.toWellFormed, hw.reachable.registrationsFirst, hg, hreg,
      hnamed⟩
  refine along_congr_of_invariant
    (I := fun w' => TextWellFormed P w'.registry ∧
      w'.registry.Registers P u f (body.update P g) ∧
      w'.registry.TextSources u f ∧
      (w'.registry.latestRecord P (.str u) (.str f) (.str s)).map
          MappingDoc.runValues =
        ((exec P w (.put body)).registry.latestRecord P (.str u) (.str f)
          (.str s)).map MappingDoc.runValues)
    (E := fun request => request.textual = true ∧ ¬request.Rewrites P u f)
    ?_ ?_ ⟨hw.wellFormed.after_exec hbodyText, hregisters.put hbody, hsources,
      rfl⟩ hrequests
  · rintro w' request ⟨hwell, hreg', hsources', hlatest⟩ ⟨htext, hother⟩
    have htaken : ∃ d ∈ w'.registry.mapping, d.hasKey u f = true :=
      ⟨_, hreg'.mem, hreg'.named.hasKey_iff.mpr ⟨rfl, rfl⟩⟩
    obtain ⟨hsources'', hsame⟩ :=
      (hwell.toWellFormed.change_exec request).latest_runValues hwell hsources'
        htaken htext hother
    exact ⟨hwell.after_exec htext, hreg'.exec hother, hsources'',
      hsame.trans hlatest⟩
  · rintro w' request ⟨-, -, -, hlatest⟩
    rw [governedBy_iff]
    have hvalues : ∀ o : Option MappingDoc, (∀ latest, o = some latest →
        latest.runValues = (body.update P g).runValues) ↔
          ∀ v, o.map MappingDoc.runValues = some v →
            v = (body.update P g).runValues := by
      intro o
      cases o <;> simp
    rw [hvalues, ← hlatest, ← hvalues]
    cases request with
    | event params =>
        simp only [FindsValues, hs, MappingDoc.runValues, Prod.mk.injEq,
          Request.event.injEq, forall_eq']
    | _ => simp [FindsValues]

/-- A request that sets the memory. -/
def Body.resize (memory : String) : Body where
  FileName := .str "test.py"
  UserName := .str "testUser"
  EventType := .null
  EventSource := .null
  Memory := .str memory
  Environment := .null

theorem oneRun_reachable : Reachable default oneRun :=
  oneFunction_reachable.exec _

theorem update_governs_iff_oneRun :
    Throughout (exec default)
        (fun w' => w'.registry.mapping.find? (·.hasKey "testUser" "test.py") =
          some ((Body.resize "512").update default oneRegistration))
        (exec default oneRun (.put (.resize "512")))
        [.event (samplePayload "testUser" "test.py")] ∧
      (Along (exec default)
          (GovernedBy default "testUser" "test.py"
            ((Body.resize "512").update default oneRegistration))
          (exec default oneRun (.put (.resize "512")))
          [.event (samplePayload "testUser" "test.py")] ↔
        Along (exec default)
          (FindsValues default "testUser" "test.py"
            ((Body.resize "512").update default oneRegistration))
          (exec default oneRun (.put (.resize "512")))
          [.event (samplePayload "testUser" "test.py")]) := by
  have hmem : oneRegistration ∈ oneRun.registry.mapping := by decide
  have hnamed : oneRegistration.Named "testUser" "test.py" := ⟨rfl, rfl⟩
  have hbody : (Body.resize "512").Targets default "testUser" "test.py" :=
    ⟨rfl, rfl⟩
  exact update_governs_iff oneRun_reachable hmem rfl hnamed hbody
    (by simp [Request.Rewrites])

/-- The second run is recorded with the memory of the first one. -/
theorem run_record_keeps_old_memory :
    Reachable default oneRun ∧ oneRegistration ∈ oneRun.registry.mapping ∧
      ¬Along (exec default)
        (GovernedBy default "testUser" "test.py"
          ((Body.resize "512").update default oneRegistration))
        (exec default oneRun (.put (.resize "512")))
        [.event (samplePayload "testUser" "test.py")] := by
  refine ⟨oneRun_reachable, by decide, ?_⟩
  rintro ⟨hgoverned, -⟩
  obtain ⟨latest, hlatest⟩ : ∃ latest,
      (exec default oneRun (.put (.resize "512"))).registry.latestRecord default
        (.str "testUser") (.str "test.py") (.str "S1") = some latest :=
    Option.isSome_iff_exists.mp (by decide)
  have hruns : RunsToEnd default "testUser" "test.py" (.str "S1")
      (exec default oneRun (.put (.resize "512")))
      (samplePayload "testUser" "test.py") :=
    ⟨sampleEvent "testUser" "test.py",
      (Body.resize "512").update default oneRegistration, "test.py",
      [112, 97, 115, 115], latest, rfl, rfl, rfl, rfl,
      { accepted := rfl
        first := by decide
        filename := rfl
        opens := by decide
        read := by decide
        counted := rfl
        latest := hlatest }, by decide⟩
  obtain ⟨record, hinserted, -, -, hmemory⟩ := (hgoverned hruns).recorded
  have hlast := congrArg List.getLast? hinserted
  rw [List.getLast?_concat] at hlast
  have hold : ((exec default (exec default oneRun (.put (.resize "512")))
      (.event (samplePayload "testUser" "test.py"))).inserted.getLast?.map
        (·.memory)) = some (.str "256") := by decide
  rw [hlast, Option.map_some, hmemory] at hold
  exact absurd hold (by decide)

end LambdaOnOpenStack
