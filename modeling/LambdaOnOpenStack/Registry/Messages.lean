import LambdaOnOpenStack.Registry.Growth
import LambdaOnOpenStack.Support.ReplacePair
import LambdaOnOpenStack.Values.JsonReader

/-!
# The messages of the queue

The listener handles the bodies it receives one after another, and an error in
`callback` ends `start_consuming`.  Whether a body is handled depends on the
registry that the sequence starts from.  What is dispatched for it depends on the
other messages only through the newest record, from which the counter is taken.
-/

namespace LambdaOnOpenStack

open Support Program Registry

/-! ## queueReceiver.py -/

def validatePayload : Option Bytes → Bool
  | none => false
  | some _ => true

/-- `stringData.replace("=>", ":")`. -/
def replaceArrows (stringData : Bytes) : Bytes :=
  replacePair 0x3D 0x3E 0x3A stringData

def callback (P : Platform) (loads : Bytes → Except Failure Value)
    (body : Option Bytes) : Handler Unit :=
  match body with
  | none => .done ()
  | some stringData =>
      if validatePayload body then do
        let jsonData ← .ofExcept (loads (replaceArrows stringData))
        createEnvironment P jsonData
      else .done ()

/-- `start_consuming` over the bodies that arrive. -/
def consume (P : Platform) (loads : Bytes → Except Failure Value)
    (bodies : List (Option Bytes)) : Handler Unit :=
  .forEach (callback P loads) bodies

/-! ## What is dispatched for a message -/

/-- The event of a body that can be read as one. -/
def bodyEvent (loads : Bytes → Except Failure Value) :
    Option Bytes → Option Event
  | none => none
  | some stringData =>
      match loads (replaceArrows stringData) with
      | .ok params => (readEvent params).toOption
      | .error _ => none

/-- The body is an event for which there is a registration. -/
def matchesRegistration (P : Platform) (loads : Bytes → Except Failure Value)
    (r : Registry) (body : Option Bytes) : Bool :=
  match bodyEvent loads body with
  | none => false
  | some e =>
      (r.recordsOf P e.user_name e.filename e.event_source).any (·.isRegistration)

/-- What one call of `callback` writes to the host, records, and hands to
`Provision`. -/
structure Dispatch where
  host : List HostOp := []
  inserted : List RunRecord := []
  serverRequests : List ServerRequest := []
  deployed : List (DeployRequest × String) := []
  workers : List WorkerArgs := []
  deriving DecidableEq

/-- What was done between two states of the listener. -/
def dispatchBetween (w w' : World) : Dispatch where
  host := w'.host.drop w.host.length
  inserted := w'.inserted.drop w.inserted.length
  serverRequests := w'.serverRequests.drop w.serverRequests.length
  deployed := w'.deployed.drop w.deployed.length
  workers := w'.workers.drop w.workers.length

/-- A message, and the identifiers that are the next when it arrives. -/
structure Arrival where
  body : Option Bytes
  issued : ℕ
  uuids : ℕ

/-- The bodies as they arrive, one after another. -/
def received (P : Platform) (loads : Bytes → Except Failure Value) :
    World → List (Option Bytes) → List Arrival
  | _, [] => []
  | w, body :: rest =>
      { body, issued := w.registry.issued, uuids := w.uuids } ::
        received P loads ((callback P loads body).run w).2 rest

/-- The identifiers do not come from the listener: they are the same for a message,
whichever messages have arrived before it. -/
def World.meets (m : Arrival) (w : World) : World :=
  { w with registry := { w.registry with issued := m.issued }, uuids := m.uuids }

/-- What is dispatched for the messages that match a registration of `r`. -/
def dispatches (P : Platform) (loads : Bytes → Except Failure Value)
    (r : Registry) : World → List Arrival → List Dispatch
  | _, [] => []
  | w, m :: rest =>
      let (result, w') := (callback P loads m.body).run (w.meets m)
      let here :=
        if matchesRegistration P loads r m.body then [dispatchBetween (w.meets m) w']
        else []
      match result with
      | .ok _ => here ++ dispatches P loads r w' rest
      | .error _ => here

/-- No body of the sequence stops the listener, and those that match are
dispatched as if the others were not there. -/
structure SurvivesMessages (P : Platform)
    (loads : Bytes → Except Failure Value) (w : World)
    (bodies : List (Option Bytes)) : Prop where
  returns : ((consume P loads bodies).run w).1 = .ok ()
  dispatched : dispatches P loads w.registry w (received P loads w bodies) =
    dispatches P loads w.registry w
      ((received P loads w bodies).filter fun m =>
        matchesRegistration P loads w.registry m.body)

/-! ## The events that are handled -/

/-- The dispatch can go through with the record `d`, the first of the user. -/
structure Usable (P : Platform) (r : Registry) (e : Event) (d : MappingDoc)
    (name : String) : Prop where
  registration : d.isRegistration = true
  filename : d.filename = .str name
  opens : P.opens (hostPath name) = true
  prints : P.prints ("file::" ++ name) = true
  counted : (P.refuses e.filename || P.refuses e.event_source) = false
  recorded : r.recordsOf P e.user_name e.filename e.event_source ≠ []

/-- The user is unknown, or its first document can be used. -/
structure Handles (P : Platform) (r : Registry) (e : Event) : Prop where
  accepted : P.refuses e.user_name = false
  usable : ∀ d, r.firstRecord P e.user_name = some d →
    ∃ name, Usable P r e d name

/-- There is no body, or it is an event that is handled. -/
def HandlesBody (P : Platform) (loads : Bytes → Except Failure Value)
    (r : Registry) (body : Option Bytes) : Prop :=
  body = none ∨ ∃ e, bodyEvent loads body = some e ∧ Handles P r e

/-- The newest record for a body. -/
def Registry.latestFor (P : Platform) (loads : Bytes → Except Failure Value)
    (r : Registry) (body : Option Bytes) : Option MappingDoc :=
  (bodyEvent loads body).bind fun e =>
    r.latestRecord P e.user_name e.filename e.event_source

def recordsLeft (w w' : World) : List MappingDoc :=
  w'.registry.mapping.drop w.registry.mapping.length

/-- Whenever a body that matches a registration of `r` is handled, the newest record
for it is none of `strays`, which are left by the bodies that match none. -/
def Undisturbed (P : Platform) (loads : Bytes → Except Failure Value)
    (r : Registry) : World → List MappingDoc → List (Option Bytes) → Prop
  | _, _, [] => True
  | w, strays, body :: rest =>
      let w' := ((callback P loads body).run w).2
      if matchesRegistration P loads r body then
        (∀ latest ∈ w.registry.latestFor P loads body, latest ∉ strays) ∧
          Undisturbed P loads r w' strays rest
      else Undisturbed P loads r w' (strays ++ recordsLeft w w') rest

/-! ## What is dispatched for an event -/

/-- What a dispatch of `e` does that picks `d` and records this run. -/
def dispatchOf (e : Event) (d : MappingDoc) (name : String) (content : Bytes)
    (record : RunRecord) : Dispatch where
  host := [.truncate (hostPath name), .write (hostPath name) content]
  inserted := [record]
  serverRequests := [World.serverRequest e d]
  deployed := [(World.deployRequest e d, record.log_uuid)]
  workers :=
    [{ fileName := d.filename
       log_uuid := record.log_uuid
       memory := d.memory.orElse (.int 128) }]

theorem dispatchOf_inj {e : Event} {d : MappingDoc} {name : String} {content : Bytes}
    {record record' : RunRecord} :
    dispatchOf e d name content record = dispatchOf e d name content record' ↔
      record = record' := by
  constructor
  · intro hsame
    exact (List.cons.inj (congrArg Dispatch.inserted hsame)).1
  · exact congrArg _

/-- What is dispatched for an event that is handled. -/
def dispatchFor (P : Platform) (r : Registry) (e : Event) (log_uuid : String) :
    Dispatch :=
  match r.firstRecord P e.user_name with
  | none => {}
  | some d =>
      match d.filename, r.content d._id,
          r.latestRecord P e.user_name e.filename e.event_source with
      | .str name, .ok content, some latest =>
          dispatchOf e d name content (latest.nextRun log_uuid)
      | _, _, _ => {}

variable {P : Platform} {w w' : World} {r r' : Registry} {e : Event}
  {result : Except Failure Unit}

/-- A dispatch returns exactly if the event is handled, and then does what
`dispatchFor` says. -/
theorem DispatchRun.handled (h : WellFormed P w.registry)
    (hrun : DispatchRun P e w result w') :
    (result = .ok () ↔ Handles P w.registry e) ∧
      (result = .ok () →
        dispatchBetween w w' = dispatchFor P w.registry e (P.newUuid w.uuids)) := by
  have hfailed : ∀ x, result = .error x → ¬Handles P w.registry e →
      (result = .ok () ↔ Handles P w.registry e) ∧
        (result = .ok () →
          dispatchBetween w w' = dispatchFor P w.registry e (P.newUuid w.uuids)) := by
    rintro x rfl hnot
    exact ⟨⟨by simp, fun hhandles => absurd hhandles hnot⟩, by simp⟩
  -- The dispatch has failed although the record that it picked was usable.
  have hpicked : ∀ x d name, result = .error x → Picks P e w d name →
      (∀ content latest, Completes P e w d name content latest →
        P.prints ("file::" ++ name) = false) →
      (result = .ok () ↔ Handles P w.registry e) ∧
        (result = .ok () →
          dispatchBetween w w' = dispatchFor P w.registry e (P.newUuid w.uuids)) := by
    intro x d name hresult hpicks hnot
    refine hfailed x hresult ?_
    intro hhandles
    obtain ⟨name', husable⟩ := hhandles.usable d hpicks.first
    obtain rfl := Value.str.inj (husable.filename.symm.trans hpicks.filename)
    obtain ⟨content, latest, hcompletes⟩ := hpicks.completes h
      husable.registration husable.counted husable.recorded
    simp [husable.prints] at hnot
    exact hnot content latest hcompletes
  cases hrun with
  | refused hrefused =>
      refine hfailed _ rfl ?_
      intro hhandles
      simp [hhandles.accepted] at hrefused
  | unmatched haccepted hnone =>
      refine ⟨⟨fun _ => ⟨haccepted, by simp [hnone]⟩, fun _ => rfl⟩, ?_⟩
      intro _
      simp [dispatchBetween, dispatchFor, hnone]
  | nameless _ hfirst hname =>
      refine hfailed _ rfl ?_
      intro hhandles
      obtain ⟨name, husable⟩ := hhandles.usable _ hfirst
      exact hname name husable.filename
  | unopened _ hfirst hname hopens =>
      refine hfailed _ rfl ?_
      intro hhandles
      obtain ⟨name, husable⟩ := hhandles.usable _ hfirst
      obtain rfl := Value.str.inj (hname.symm.trans husable.filename)
      simp [husable.opens] at hopens
  | unread hpicks hread =>
      refine hpicked _ _ _ rfl hpicks ?_
      intro content latest hcompletes
      simp [hcompletes.read] at hread
  | uncounted hpicks _ hrefused =>
      refine hpicked _ _ _ rfl hpicks ?_
      intro content latest hcompletes
      simp [hcompletes.counted] at hrefused
  | unrecorded hpicks _ _ hnone =>
      refine hpicked _ _ _ rfl hpicks ?_
      intro content latest hcompletes
      simp [hcompletes.latest] at hnone
  | unprinted hcompletes hprints =>
      exact hpicked _ _ _ rfl hcompletes.toPicks fun _ _ _ => hprints
  | started hcompletes hprints =>
      have hmem := List.mem_of_find?_eq_some hcompletes.first
      obtain ⟨hreg, -⟩ := h.registration_of_content hmem hcompletes.read
      refine ⟨⟨fun _ => ⟨hcompletes.accepted, ?_⟩, fun _ => rfl⟩, ?_⟩
      · intro d hfirst
        obtain rfl := Option.some.inj (hcompletes.first.symm.trans hfirst)
        exact ⟨_, hreg, hcompletes.filename, hcompletes.opens, hprints,
          hcompletes.counted, hcompletes.recorded⟩
      · intro _
        simp [dispatchBetween, dispatchFor, dispatchOf, hcompletes.first,
          hcompletes.filename, hcompletes.read, hcompletes.latest, World.dispatched,
          World.startWorker, World.handOver, World.recordRun, World.drawUuid,
          World.rewrite, MappingDoc.nextRun]

namespace Registry.GrowsInto

theorem handles_iff (h : r.GrowsInto r') (e : Event) :
    Handles P r' e ↔ Handles P r e := by
  have husable : ∀ d name, Usable P r' e d name ↔ Usable P r e d name := by
    intro d name
    have hnil := h.recordsOf_eq_nil (P := P) e.user_name e.filename e.event_source
    constructor
    · intro hd
      exact { hd with recorded := mt hnil.mpr hd.recorded }
    · intro hd
      exact { hd with recorded := mt hnil.mp hd.recorded }
  constructor
  · intro hhandles
    refine ⟨hhandles.accepted, ?_⟩
    intro d hfirst
    rw [← h.firstRecord] at hfirst
    obtain ⟨name, hd⟩ := hhandles.usable d hfirst
    exact ⟨name, (husable d name).mp hd⟩
  · intro hhandles
    refine ⟨hhandles.accepted, ?_⟩
    intro d hfirst
    rw [h.firstRecord] at hfirst
    obtain ⟨name, hd⟩ := hhandles.usable d hfirst
    exact ⟨name, (husable d name).mpr hd⟩

theorem handlesBody_iff (h : r.GrowsInto r')
    {loads : Bytes → Except Failure Value} (body : Option Bytes) :
    HandlesBody P loads r' body ↔ HandlesBody P loads r body := by
  simp only [HandlesBody, h.handles_iff]

end Registry.GrowsInto

/-- The registries into which `r` has grown dispatch the same for an event, up to
the counter. -/
theorem Handles.dispatchFor (hr : WellFormed P r) (hhandles : Handles P r e)
    {d : MappingDoc} (hfirst : r.firstRecord P e.user_name = some d) :
    ∃ name content, ∀ r', r.GrowsInto r' → WellFormed P r' →
      ∃ latest, r'.latestRecord P e.user_name e.filename e.event_source = some latest ∧
        ∀ log_uuid, LambdaOnOpenStack.dispatchFor P r' e log_uuid =
          dispatchOf e d name content (latest.nextRun log_uuid) := by
  obtain ⟨name, husable⟩ := hhandles.usable d hfirst
  have hmem := List.mem_of_find?_eq_some hfirst
  obtain ⟨content, -, hread⟩ := hr.content_of_registration hmem husable.registration
  refine ⟨name, content, fun r' hgrows hr' => ?_⟩
  have hrecorded : r'.recordsOf P e.user_name e.filename e.event_source ≠ [] :=
    mt (hgrows.recordsOf_eq_nil _ _ _).mp husable.recorded
  obtain ⟨latest, hlatest⟩ : ∃ latest,
      r'.latestRecord P e.user_name e.filename e.event_source = some latest := by
    refine Option.ne_none_iff_exists'.mp fun hnone => ?_
    exact hrecorded (List.argmax_eq_none.mp hnone)
  have hread' : r'.content d._id = .ok content :=
    (hgrows.content hr hr' hmem husable.registration).trans hread
  refine ⟨latest, hlatest, fun log_uuid => ?_⟩
  simp only [LambdaOnOpenStack.dispatchFor, hgrows.firstRecord, hfirst, husable.filename,
    hread', hlatest]

theorem DispatchRun.grows (hrun : DispatchRun P e w result w') :
    w.registry.GrowsInto w'.registry := by
  rcases hrun.change with hsame | ⟨latest, hlatest, hrecord⟩
  · rw [hsame]
    exact .refl _
  · rw [hrecord]
    exact .record (List.mem_filter.mp (List.argmax_mem hlatest)).1 _

theorem DispatchRun.wellFormed (hrun : DispatchRun P e w result w')
    (h : WellFormed P w.registry) : WellFormed P w'.registry := by
  rcases hrun.change with hsame | ⟨latest, -, hrecord⟩
  · rw [hsame]
    exact h
  · rw [hrecord]
    exact h.record _ _

/-! ## One message -/

section Messages

variable {loads : Bytes → Except Failure Value} {body : Option Bytes}

/-- What the callback does for a body that is no event. -/
theorem run_callback_none (hevent : bodyEvent loads body = none) :
    (body = none ∧ (callback P loads body).run w = (.ok (), w)) ∨
      (body ≠ none ∧ ∃ x, (callback P loads body).run w = (.error x, w)) := by
  cases body with
  | none => exact Or.inl ⟨rfl, rfl⟩
  | some stringData =>
      refine Or.inr ⟨by simp, ?_⟩
      simp only [bodyEvent] at hevent
      simp only [callback, validatePayload, ↓reduceIte]
      cases hloads : loads (replaceArrows stringData) with
      | error x => exact ⟨x, rfl⟩
      | ok params =>
          simp only [hloads] at hevent
          cases hread : readEvent params with
          | error x => exact ⟨x, by simp [createEnvironment, hread]⟩
          | ok e => simp [hread, Except.toOption] at hevent

theorem callback_event (hevent : bodyEvent loads body = some e) :
    callback P loads body = dispatch P e := by
  cases body with
  | none => simp [bodyEvent] at hevent
  | some stringData =>
      simp only [bodyEvent] at hevent
      simp only [callback, validatePayload, ↓reduceIte]
      cases hloads : loads (replaceArrows stringData) with
      | error x => simp [hloads] at hevent
      | ok params =>
          simp only [hloads] at hevent
          cases hread : readEvent params with
          | error x => simp [hread, Except.toOption] at hevent
          | ok e' =>
              simp only [hread, Except.toOption, Option.some.injEq] at hevent
              subst hevent
              exact createEnvironment_eq hread

theorem run_callback_ok_iff (h : WellFormed P w.registry) :
    ((callback P loads body).run w).1 = .ok () ↔
      HandlesBody P loads w.registry body := by
  cases hevent : bodyEvent loads body with
  | none =>
      rcases run_callback_none (P := P) (w := w) hevent with
        ⟨rfl, hrun⟩ | ⟨hbody, x, hrun⟩
      · simp [hrun, HandlesBody]
      · simp [hrun, HandlesBody, hbody, hevent]
  | some e =>
      have hbody : body ≠ none := by
        rintro rfl
        simp [bodyEvent] at hevent
      rw [callback_event hevent, ((dispatch_run P e w).handled h).1]
      simp [HandlesBody, hbody, hevent]

/-- The callback changes nothing, or it is a dispatch. -/
theorem callback_cases (P : Platform) (loads : Bytes → Except Failure Value)
    (body : Option Bytes) (w : World) :
    ((callback P loads body).run w).2 = w ∨
      ∃ e, callback P loads body = dispatch P e := by
  cases hevent : bodyEvent loads body with
  | none =>
      rcases run_callback_none (P := P) (w := w) hevent with
        ⟨-, hrun⟩ | ⟨-, x, hrun⟩
      · exact Or.inl (by rw [hrun])
      · exact Or.inl (by rw [hrun])
  | some e => exact Or.inr ⟨e, callback_event hevent⟩

theorem callback_grows (P : Platform)
    (loads : Bytes → Except Failure Value) (body : Option Bytes) (w : World) :
    w.registry.GrowsInto ((callback P loads body).run w).2.registry := by
  rcases callback_cases P loads body w with hsame | ⟨e, hdispatch⟩
  · rw [hsame]
    exact .refl _
  · rw [hdispatch]
    exact (dispatch_run P e w).grows

theorem callback_wellFormed (loads : Bytes → Except Failure Value)
    (body : Option Bytes) (h : WellFormed P w.registry) :
    WellFormed P ((callback P loads body).run w).2.registry := by
  rcases callback_cases P loads body w with hsame | ⟨e, hdispatch⟩
  · rw [hsame]
    exact h
  · rw [hdispatch]
    exact (dispatch_run P e w).wellFormed h

theorem matchesRegistration_event (hevent : bodyEvent loads body = some e) :
    matchesRegistration P loads r body =
      (r.recordsOf P e.user_name e.filename e.event_source).any (·.isRegistration) := by
  rw [matchesRegistration, hevent]

/-- A body that matches a registration is an event of a known user. -/
theorem matched_event (hmatched : matchesRegistration P loads r body = true) :
    ∃ e d, bodyEvent loads body = some e ∧ r.firstRecord P e.user_name = some d := by
  cases hevent : bodyEvent loads body with
  | none => simp [matchesRegistration, hevent] at hmatched
  | some e =>
      rw [matchesRegistration_event hevent, List.any_eq_true] at hmatched
      obtain ⟨c, hc, -⟩ := hmatched
      obtain ⟨hmem, hanswers⟩ := List.mem_filter.mp hc
      obtain ⟨d, hfirst⟩ : ∃ d, r.firstRecord P e.user_name = some d := by
        refine Option.ne_none_iff_exists'.mp fun hnone => ?_
        have hnever := List.find?_eq_none.mp hnone c hmem
        simp only [Bool.and_eq_true] at hanswers
        exact hnever hanswers.1.1
      exact ⟨e, d, rfl, hfirst⟩

/-- A dispatch that returns records a run, unless the user is unknown. -/
theorem DispatchRun.returned (hrun : DispatchRun P e w (.ok ()) w') :
    (w.registry.firstRecord P e.user_name = none ∧ w' = w) ∨
      ∃ latest,
        w.registry.latestRecord P e.user_name e.filename e.event_source = some latest ∧
        w'.registry = w.registry.record P latest (P.newUuid w.uuids) := by
  cases hrun with
  | unmatched _ hnone => exact Or.inl ⟨hnone, rfl⟩
  | started hcompletes => exact Or.inr ⟨_, hcompletes.latest, rfl⟩

theorem run_dispatch_returned (h : WellFormed P w.registry)
    (hhandles : Handles P w.registry e) :
    DispatchRun P e w (.ok ()) ((dispatch P e).run w).2 := by
  have hrun := dispatch_run P e w
  rwa [(hrun.handled h).1.mpr hhandles] at hrun

/-- A body that matches a registration is dispatched in the same way, up to the
counter, from all registries into which `r` has grown. -/
theorem matched_dispatch (hr : WellFormed P r)
    (hmatched : matchesRegistration P loads r body = true)
    (hhandles : HandlesBody P loads r body) :
    ∃ e d name content, bodyEvent loads body = some e ∧
      ∀ w, r.GrowsInto w.registry → WellFormed P w.registry →
        ∃ latest,
          w.registry.latestRecord P e.user_name e.filename e.event_source =
            some latest ∧
          ((callback P loads body).run w).2.registry =
            w.registry.record P latest (P.newUuid w.uuids) ∧
          dispatchBetween w ((callback P loads body).run w).2 =
            dispatchOf e d name content (latest.nextRun (P.newUuid w.uuids)) := by
  obtain ⟨e, d, hevent, hfirst⟩ := matched_event hmatched
  rcases hhandles with rfl | ⟨e', hevent', hhandles⟩
  · simp [bodyEvent] at hevent
  obtain rfl := Option.some.inj (hevent.symm.trans hevent')
  obtain ⟨name, content, hdispatch⟩ := hhandles.dispatchFor hr hfirst
  refine ⟨e, d, name, content, hevent, fun w hgrows hw => ?_⟩
  obtain ⟨latest, hlatest, hfor⟩ := hdispatch w.registry hgrows hw
  have hhandles' := (hgrows.handles_iff e).mpr hhandles
  have hrun := run_dispatch_returned hw hhandles'
  rw [callback_event hevent]
  refine ⟨latest, hlatest, ?_, ?_⟩
  · rcases hrun.returned with ⟨hnone, -⟩ | ⟨latest', hlatest', hregistry⟩
    · rw [hgrows.firstRecord, hfirst] at hnone
      exact absurd hnone (by simp)
    · obtain rfl := Option.some.inj (hlatest.symm.trans hlatest')
      exact hregistry
  · rw [← hfor]
    exact (hrun.handled hw).2 rfl

/-- A body leaves at most one record. -/
theorem callback_returned (h : WellFormed P w.registry)
    (hhandles : HandlesBody P loads w.registry body) :
    ((callback P loads body).run w).2 = w ∨
      ∃ user name source latest,
        w.registry.latestRecord P user name source = some latest ∧
        ((callback P loads body).run w).2.registry =
          w.registry.record P latest (P.newUuid w.uuids) := by
  rcases hhandles with rfl | ⟨e, hevent, hhandles⟩
  · exact Or.inl rfl
  · rw [callback_event hevent]
    rcases (run_dispatch_returned h hhandles).returned with
      ⟨-, hsame⟩ | ⟨latest, hlatest, hregistry⟩
    · exact Or.inl hsame
    · exact Or.inr ⟨_, _, _, latest, hlatest, hregistry⟩

/-! ## A sequence of messages -/

variable {v : World} {strays : List MappingDoc}

/-- What a body leaves is left out of the other registry. -/
theorem Strays.left (h : Strays P r w.registry strays)
    (hhandles : HandlesBody P loads r body) :
    let w' := ((callback P loads body).run w).2
    Strays P r w'.registry (strays ++ recordsLeft w w') ∧
      { w.registry.without strays with issued := w'.registry.issued } =
        w'.registry.without (strays ++ recordsLeft w w') := by
  intro w'
  rcases callback_returned h.wellFormed ((h.grows.handlesBody_iff body).mpr hhandles) with
    hsame | ⟨user, name, source, latest, hlatest, hregistry⟩
  · have hw' : w' = w := hsame
    have hnone : recordsLeft w w = [] := List.drop_length
    rw [hw', hnone, List.append_nil]
    exact ⟨h, rfl⟩
  · have hregistry' : w'.registry = w.registry.record P latest (P.newUuid w.uuids) :=
      hregistry
    have hone : recordsLeft w w' =
        [w.registry.runRecord P latest (P.newUuid w.uuids)] := by
      rw [recordsLeft, hregistry', Registry.record, List.drop_left]
    rw [hone, hregistry', h.record_without_stray]
    exact ⟨h.stray hlatest _, rfl⟩

/-- A body that matches a registration is dispatched in the same way without the
strays exactly if the newest record for it is none of them. -/
theorem matched_step (hr : WellFormed P r)
    (hmatched : matchesRegistration P loads r body = true)
    (hhandles : HandlesBody P loads r body) (hw : Strays P r w.registry strays)
    (hv : v.registry = w.registry.without strays) (huuids : v.uuids = w.uuids) :
    let w' := ((callback P loads body).run w).2
    let v' := ((callback P loads body).run v).2
    let Kept := ∀ latest ∈ w.registry.latestFor P loads body, latest ∉ strays
    (dispatchBetween w w' = dispatchBetween v v' ↔ Kept) ∧
      (Kept → Strays P r w'.registry strays ∧
        v'.registry = w'.registry.without strays) := by
  intro w' v' Kept
  have hgrows : r.GrowsInto v.registry := by
    rw [hv]
    exact hw.grows.without hw.added
  have hwell : WellFormed P v.registry := by
    rw [hv]
    exact hw.wellFormed.without strays
  obtain ⟨e, d, name, content, hevent, hdispatch⟩ :=
    matched_dispatch hr hmatched hhandles
  obtain ⟨latest, hlatest, hw', hbetween⟩ := hdispatch w hw.grows hw.wellFormed
  obtain ⟨other, hother, hv', hbetween'⟩ := hdispatch v hgrows hwell
  rw [huuids] at hv' hbetween'
  rw [hv] at hother
  have hkept : Kept ↔ latest ∉ strays := by
    simp [Kept, Registry.latestFor, hevent, hlatest]
  rw [hkept, hbetween, hbetween', dispatchOf_inj]
  by_cases hstray : latest ∈ strays
  · have hne := hw.nextRun_ne hlatest hstray hother (P.newUuid w.uuids)
    exact ⟨⟨fun hsame => absurd hsame.symm hne, fun hnot => absurd hstray hnot⟩,
      fun hnot => absurd hstray hnot⟩
  · obtain rfl := Option.some.inj (hother.symm.trans
      (Registry.latestRecord_without hw.wellFormed hlatest hstray))
    refine ⟨⟨fun _ => hstray, fun _ => rfl⟩, fun _ => ?_⟩
    rw [hw', hv', hw.record_without, hv]
    exact ⟨hw.own hlatest hstray _, rfl⟩

theorem dispatches_cons {m : Arrival} (rest : List Arrival)
    (hok : ((callback P loads m.body).run (w.meets m)).1 = .ok ()) :
    dispatches P loads r w (m :: rest) =
      (if matchesRegistration P loads r m.body then
        [dispatchBetween (w.meets m) ((callback P loads m.body).run (w.meets m)).2]
        else []) ++
        dispatches P loads r ((callback P loads m.body).run (w.meets m)).2 rest := by
  rw [dispatches]
  simp only [hok]

/-- When all bodies are handled, the dispatches are those of the bodies that match
exactly if these are not disturbed.  Here `v` is the state of the listener that
has not received the others. -/
theorem dispatches_iff (hr : WellFormed P r) {bodies : List (Option Bytes)}
    (hhandles : ∀ body ∈ bodies, HandlesBody P loads r body)
    (hw : Strays P r w.registry strays)
    (hv : { v.registry with issued := w.registry.issued } =
      w.registry.without strays) :
    dispatches P loads r w (received P loads w bodies) =
        dispatches P loads r v ((received P loads w bodies).filter fun m =>
          matchesRegistration P loads r m.body) ↔
      Undisturbed P loads r w strays bodies := by
  induction bodies generalizing w v strays with
  | nil => simp [received, dispatches, Undisturbed]
  | cons body rest ih =>
      obtain ⟨hbody, hrest⟩ := List.forall_mem_cons.mp hhandles
      have hok (u : World) (hu : r.GrowsInto u.registry)
          (hwell : WellFormed P u.registry) :
          ((callback P loads body).run u).1 = .ok () :=
        (run_callback_ok_iff hwell).mpr ((hu.handlesBody_iff body).mpr hbody)
      let m : Arrival := ⟨body, w.registry.issued, w.uuids⟩
      have hwm : w.meets m = w := rfl
      have hfull := dispatches_cons (r := r) (m := m)
        (received P loads ((callback P loads body).run w).2 rest)
        (hok (w.meets m) hw.grows hw.wellFormed)
      rw [hwm] at hfull
      rw [received, hfull, Undisturbed, List.filter_cons]
      by_cases hmatched : matchesRegistration P loads r body = true
      · have hvm : (v.meets m).registry = w.registry.without strays := hv
        have hokv : ((callback P loads m.body).run (v.meets m)).1 = .ok () := by
          refine hok _ ?_ ?_ <;> rw [hvm]
          · exact hw.grows.without hw.added
          · exact hw.wellFormed.without strays
        obtain ⟨hsame, hnext⟩ := matched_step hr hmatched hbody hw hvm rfl
        rw [if_pos hmatched, if_pos hmatched, if_pos hmatched, dispatches_cons _ hokv,
          if_pos hmatched, List.singleton_append, List.singleton_append, List.cons.injEq,
          hsame]
        refine and_congr_right fun hkept => ?_
        obtain ⟨hstrays, hregistry⟩ := hnext hkept
        refine ih hrest hstrays ?_
        rw [hregistry]
        rfl
      · obtain ⟨hnext, hsame⟩ := hw.left hbody
        rw [if_neg hmatched, if_neg hmatched, if_neg hmatched, List.nil_append]
        refine ih hrest hnext ?_
        rw [← hsame, ← hv]

/-- A body that raises ends the sequence. -/
theorem dispatches_of_error {rest : List Arrival} {x : Failure}
    (hmiss : matchesRegistration P loads r body = false)
    (hrun : ((callback P loads body).run w).1 = .error x) :
    dispatches P loads r w (⟨body, w.registry.issued, w.uuids⟩ :: rest) = [] := by
  have hrun' : ((callback P loads body).run
      (w.meets ⟨body, w.registry.issued, w.uuids⟩)).1 = .error x := hrun
  rw [dispatches]
  simp [hrun', hmiss]

theorem dispatches_ne_nil {issued uuids : ℕ} {rest : List Arrival}
    (hmatch : matchesRegistration P loads r body = true) :
    dispatches P loads r w (⟨body, issued, uuids⟩ :: rest) ≠ [] := by
  rw [dispatches]
  cases hrun : ((callback P loads body).run (w.meets ⟨body, issued, uuids⟩)).1 with
  | ok _ => simp [hrun, hmatch]
  | error x => simp [hrun, hmatch]

theorem run_consume_ok_iff (bodies : List (Option Bytes))
    (hw : WellFormed P w.registry) (hgrows : r.GrowsInto w.registry) :
    ((consume P loads bodies).run w).1 = .ok () ↔
      ∀ body ∈ bodies, HandlesBody P loads r body := by
  induction bodies generalizing w with
  | nil => simp [consume]
  | cons body rest ih =>
      have hbody : ((callback P loads body).run w).1 = .ok () ↔
          HandlesBody P loads r body :=
        (run_callback_ok_iff hw).trans (hgrows.handlesBody_iff body)
      have hrest := ih (callback_wellFormed loads body hw)
        (hgrows.trans (callback_grows P loads body w))
      rw [List.forall_mem_cons, ← hbody, ← hrest, consume, forEach_cons, run_bind]
      cases hrun : (callback P loads body).run w with
      | mk result w' =>
          cases result with
          | ok _ => simp [consume]
          | error x => simp

end Messages

/-- A sequence of messages does no harm exactly if each of its bodies is
handled in the registry that it starts from, and those that match a registration
are not disturbed by the records of the others. -/
theorem survivesMessages_iff (hw : Reachable P w)
    (loads : Bytes → Except Failure Value) (bodies : List (Option Bytes)) :
    SurvivesMessages P loads w bodies ↔
      (∀ body ∈ bodies, HandlesBody P loads w.registry body) ∧
        Undisturbed P loads w.registry w [] bodies := by
  have h := hw.wellFormed
  have hreturns : ((consume P loads bodies).run w).1 = .ok () ↔
      ∀ body ∈ bodies, HandlesBody P loads w.registry body :=
    run_consume_ok_iff bodies h (.refl _)
  have hdispatched (hhandles : ∀ body ∈ bodies, HandlesBody P loads w.registry body) :=
    dispatches_iff (v := w) h hhandles (.start h) (by rw [without_nil])
  constructor
  · intro hsurvives
    have hhandles := hreturns.mp hsurvives.returns
    exact ⟨hhandles, (hdispatched hhandles).mp hsurvives.dispatched⟩
  · rintro ⟨hhandles, hundisturbed⟩
    exact ⟨hreturns.mpr hhandles, (hdispatched hhandles).mpr hundisturbed⟩

/-- `json.loads` on ASCII text without numbers. -/
def asciiLoads (body : Bytes) : Except Failure Value :=
  match Json.loads (fun _ => .null) (body.map fun b => Char.ofNat b.toNat) with
  | some v => .ok v
  | none => .error .jsonDecodeError

/-- The body that `send_event` publishes for a file of `testUser`. -/
def sampleBody (eventSource : String) : Bytes :=
  ("\x7b\"event_data\"=>\x7b\"type\"=>\"FilexxxxCreate\", " ++
    "\"metadata_type\"=>\"filename\", \"filename\"=>\"test.py\"\x7d, " ++
    "\"user_name\"=>\"testUser\", \"event_source\"=>\"" ++ eventSource ++
    "\"\x7d").toList.map fun c => UInt8.ofNat c.toNat

theorem bodyEvent_S1 : bodyEvent asciiLoads (some (sampleBody "S1")) =
    some (sampleEvent "testUser" "test.py") := by
  decide +kernel

theorem bodyEvent_S2 : bodyEvent asciiLoads (some (sampleBody "S2")) =
    some { sampleEvent "testUser" "test.py" with event_source := .str "S2" } := by
  decide +kernel

/-- The function has been run, and then been bound to another source. -/
def reboundFunction : World :=
  runAll (exec default) oneFunction
    [.event (samplePayload "testUser" "test.py"),
      .put { Body.sample "testUser" "test.py" with EventSource := .str "S2" }]

theorem reboundFunction_reachable : Reachable default reboundFunction :=
  oneFunction_reachable.runAll _

theorem handles_reboundFunction {source : String}
    (hrecorded : reboundFunction.registry.recordsOf default (.str "testUser")
      (.str "test.py") (.str source) ≠ []) :
    Handles default reboundFunction.registry
      { sampleEvent "testUser" "test.py" with event_source := .str source } := by
  refine ⟨rfl, fun d hfirst => ⟨"test.py", ?_⟩⟩
  have hd : d.isRegistration = true ∧ d.filename = .str "test.py" := by
    have hall : (reboundFunction.registry.firstRecord default (.str "testUser")).all
        fun d => d.isRegistration && d.filename = .str "test.py" := by decide
    have hfirst' : reboundFunction.registry.firstRecord default (.str "testUser") =
        some d := hfirst
    simpa [hfirst'] using hall
  exact ⟨hd.1, hd.2, by decide, by decide, rfl, hrecorded⟩

/-- A run for the old source leaves a record, and does not disturb the one for the
new source. -/
theorem survivesMessages_iff_reboundFunction :
    matchesRegistration default asciiLoads reboundFunction.registry
        (some (sampleBody "S1")) = false ∧
      matchesRegistration default asciiLoads reboundFunction.registry
        (some (sampleBody "S2")) = true ∧
      SurvivesMessages default asciiLoads reboundFunction
        [some (sampleBody "S1"), none, some (sampleBody "S2")] := by
  have hmiss : matchesRegistration default asciiLoads reboundFunction.registry
      (some (sampleBody "S1")) = false :=
    (matchesRegistration_event bodyEvent_S1).trans (by decide)
  have hmatch : matchesRegistration default asciiLoads reboundFunction.registry
      (some (sampleBody "S2")) = true :=
    (matchesRegistration_event bodyEvent_S2).trans (by decide)
  refine ⟨hmiss, hmatch,
    (survivesMessages_iff reboundFunction_reachable asciiLoads _).mpr ⟨?_, ?_⟩⟩
  · simp only [List.forall_mem_cons, List.not_mem_nil, false_implies, implies_true,
      and_true]
    refine ⟨Or.inr ⟨_, bodyEvent_S1, ?_⟩, Or.inl rfl, Or.inr ⟨_, bodyEvent_S2, ?_⟩⟩
    · exact handles_reboundFunction (by decide)
    · exact handles_reboundFunction (by decide)
  · simp only [Undisturbed, hmiss, hmatch, Registry.latestFor, bodyEvent_S2,
      callback_event bodyEvent_S1]
    decide

/-- An event from a source that nobody registered stops the listener, and the
event behind it is lost. -/
theorem unregistered_source_stops_listener :
    Reachable default oneFunction ∧
      ¬SurvivesMessages default asciiLoads oneFunction
        [some (sampleBody "S2"), some (sampleBody "S1")] := by
  refine ⟨oneFunction_reachable, ?_⟩
  intro hsurvives
  have hmatch : matchesRegistration default asciiLoads oneFunction.registry
      (some (sampleBody "S1")) = true :=
    (matchesRegistration_event bodyEvent_S1).trans (by decide)
  have hmiss : matchesRegistration default asciiLoads oneFunction.registry
      (some (sampleBody "S2")) = false :=
    (matchesRegistration_event bodyEvent_S2).trans (by decide)
  have hstops : ((callback default asciiLoads (some (sampleBody "S2"))).run
      oneFunction).1 = .error .indexError := by
    rw [callback_event bodyEvent_S2]
    decide
  have hsame := hsurvives.dispatched
  simp only [received, List.filter_cons, List.filter_nil, hmiss, hmatch,
    Bool.false_eq_true, if_true, if_false] at hsame
  rw [dispatches_of_error hmiss hstops] at hsame
  exact absurd hsame.symm (dispatches_ne_nil hmatch)

end LambdaOnOpenStack
