import LambdaOnOpenStack.Registry.NamedFunction
import LambdaOnOpenStack.Registry.View

/-!
# Dispatches among web requests

A dispatch takes its steps between the steps of web requests.  It uses one
registration and does not fail if what its queries find when it starts belongs
to one registration, and no step of a web request changes that before the run
is recorded.
-/

namespace LambdaOnOpenStack

open Support Program

/-- A dispatch and the web requests in progress. -/
abbrev Traffic := System World Failure Unit Reply

abbrev TrafficMove := Move WebRequest

abbrev trafficStep (P : Platform) : Traffic → TrafficMove → Traffic :=
  System.step (webHandler P)

/-! ## One registration at one instant -/

/-- From `start` to `final` the dispatch used the file name, the memory, the
uploaded bytes and the run-record fields of the registration `g`, as they all
were in the world `instant`. -/
structure UsesRegistration (instant start final : World) (g : MappingDoc) :
    Prop where
  mem : g ∈ instant.registry.mapping
  registration : g.isRegistration = true
  written : ∃ name content, g.filename = .str name ∧
    (g._id, content) ∈ instant.registry.uploads ∧
    final.host = start.host ++
      [.truncate (hostPath name), .write (hostPath name) content]
  deployed : ∃ request log_uuid,
    final.deployed = start.deployed ++ [(request, log_uuid)] ∧
    request.function_name = g.filename ∧
    request.memory = g.memory.orElse (.int 128)
  recorded : ∃ record, final.inserted = start.inserted ++ [record] ∧
    record.filename = g.filename ∧ record.username = g.username ∧
    record.eventType = g.eventType ∧ record.eventsource = g.eventsource ∧
    record.memory = g.memory

/-- After the moves the dispatch has not raised, and if it has ended it has
deployed nothing or has used one registration as it was at one instant. -/
structure SeesOneRegistration (P : Platform) (S : Traffic)
    (moves : List TrafficMove) : Prop where
  never_raises : ∀ x, (runAll (trafficStep P) S moves).main ≠ .raised x
  one_registration : (runAll (trafficStep P) S moves).main = .done () →
    (runAll (trafficStep P) S moves).state.deployed = S.state.deployed ∨
      ∃ before after g, moves = before ++ after ∧
        UsesRegistration (runAll (trafficStep P) S before).state S.state
          (runAll (trafficStep P) S moves).state g

/-! ## States that supply one registration -/

/-- The first document of the user is the registration `g`; the file stored for
it holds the bytes that were uploaded, and can be written under its name; and
the latest record of the event carries its fields. -/
structure SuppliesRegistration (P : Platform) (e : Event) (w : World)
    (g record : MappingDoc) (name : String) (content : Bytes) : Prop where
  first : w.registry.firstRecord P e.user_name = some g
  registration : g.isRegistration = true
  filename : g.filename = .str name
  opens : P.opens (hostPath name) = true
  prints : P.prints ("file::" ++ name) = true
  read : w.registry.content g._id = .ok content
  uploaded : (g._id, content) ∈ w.registry.uploads
  counted : (P.refuses e.filename || P.refuses e.event_source) = false
  latest :
    w.registry.latestRecord P e.user_name e.filename e.event_source = some record
  record_filename : record.filename = g.filename
  record_username : record.username = g.username
  record_eventType : record.eventType = g.eventType
  record_eventsource : record.eventsource = g.eventsource
  record_memory : record.memory = g.memory

/-- The server accepts the user of the event, who is unknown or has a
registration from which the dispatch is supplied. -/
structure StartsWell (P : Platform) (e : Event) (w : World) : Prop where
  accepted : P.refuses e.user_name = false
  supplied : w.registry.firstRecord P e.user_name = none ∨
    ∃ g record name content, SuppliesRegistration P e w g record name content

variable {P : Platform} {e : Event} {w w' : World}
  {result : Except Failure Unit}

/-- A dispatch that completes and can print the file name ends normally. -/
theorem DispatchRun.of_completes (hrun : DispatchRun P e w result w')
    {d latest : MappingDoc} {name : String} {content : Bytes}
    (hcompletes : Completes P e w d name content latest)
    (hprints : P.prints ("file::" ++ name) = true) :
    result = .ok () ∧
      w' = (w.dispatched P e d name content latest).startWorker d
        (P.newUuid w.uuids) := by
  have hdeployed := hrun.deployed_cases
  cases hrun with
  | unprinted hcompletes' hprints' =>
      obtain ⟨rfl, rfl, rfl, rfl⟩ := hcompletes'.unique hcompletes
      simp [hprints] at hprints'
  | started hcompletes' hprints' =>
      obtain ⟨rfl, rfl, rfl, rfl⟩ := hcompletes'.unique hcompletes
      exact ⟨rfl, rfl⟩
  | _ =>
      -- Nothing was deployed, although the dispatch completes.
      rcases hdeployed with ⟨_, _, _, _, _, _, hdeployed⟩ | ⟨hnone, -⟩
      · have hlength := congrArg List.length hdeployed
        simp [World.touch, World.rewrite, World.drawUuid] at hlength
      · exact absurd hcompletes (hnone _ _ _ _)

theorem StartsWell.outcome (hstart : StartsWell P e w)
    (hrun : DispatchRun P e w result w') :
    result = .ok () ∧
      (w'.deployed = w.deployed ∨
        ∃ g, UsesRegistration w w w' g) := by
  rcases hstart.supplied with hnone | ⟨g, record, name, content, h⟩
  · have hunmatched : result = .ok () ∧ w' = w := by
      cases hrun with
      | refused hrefused => simp [hstart.accepted] at hrefused
      | unmatched => exact ⟨rfl, rfl⟩
      | nameless _ hfirst => simp [hnone] at hfirst
      | unopened _ hfirst => simp [hnone] at hfirst
      | unread hpicks => simp [hpicks.first] at hnone
      | uncounted hpicks => simp [hpicks.first] at hnone
      | unrecorded hpicks => simp [hpicks.first] at hnone
      | unprinted hcompletes => simp [hcompletes.first] at hnone
      | started hcompletes => simp [hcompletes.first] at hnone
    exact ⟨hunmatched.1, Or.inl (by rw [hunmatched.2])⟩
  · have hcompletes : Completes P e w g name content record :=
      ⟨⟨hstart.accepted, h.first, h.filename, h.opens⟩, h.read, h.counted,
        h.latest⟩
    obtain ⟨hresult, hworld⟩ := hrun.of_completes hcompletes h.prints
    refine ⟨hresult, Or.inr ⟨g, List.mem_of_find?_eq_some h.first,
      h.registration, ?_, ?_, ?_⟩⟩
    · exact ⟨name, content, h.filename, h.uploaded, by rw [hworld]; rfl⟩
    · exact ⟨World.deployRequest e g, P.newUuid w.uuids,
        by rw [hworld]; rfl, rfl, rfl⟩
    · exact ⟨record.nextRun (P.newUuid w.uuids), by rw [hworld]; rfl,
        h.record_filename, h.record_username, h.record_eventType,
        h.record_eventsource, h.record_memory⟩

/-! ## Interleaved runs -/

/-- An event has been delivered and its dispatch has not begun. -/
def delivered (P : Platform) (params : Value) (w : World) : Traffic where
  state := w
  main := createEnvironment P params

/-- Moves that leave the first document of the user, its file and the latest
record of the event as they are change nothing that the dispatch has still to
read. -/
theorem harmless_of_unseen {S : Traffic} {_id : ObjectId}
    (hmain : S.main = dispatch P e)
    (hpicked : ∀ d, S.state.registry.firstRecord P e.user_name = some d →
      d._id = _id) {moves : List TrafficMove}
    (hunseen : Along (trafficStep P)
      (System.Unseen (webHandler P) (StillSees P e _id S.state.inserted))
      S moves) :
    Along (trafficStep P) (System.Harmless (webHandler P)) S moves := by
  apply System.along_harmless (fun _ _ h => h.right_refl) _ hunseen
  refine Or.inr ⟨?_, ⟨rfl, rfl, rfl, fun _ => rfl, rfl, hpicked⟩, rfl, rfl⟩
  rw [hmain]
  exact reads_dispatch

/-- Web requests take any steps before the dispatch makes its first one, in a
state that supplies one registration.  If from then on, until the run is
recorded, no step of theirs changes the first document of the user, the file
with its `_id` or the latest record of the event, the dispatch sees one
registration. -/
theorem dispatch_sees_one_registration {params : Value}
    (hevent : readEvent params = .ok e) {before after : List TrafficMove}
    (hbefore : ∀ move ∈ before, move ≠ .main)
    (hstart : StartsWell P e
      (runAll (trafficStep P) (delivered P params w) before).state)
    (_id : ObjectId)
    (hpicked : ∀ d, (runAll (trafficStep P) (delivered P params w)
      before).state.registry.firstRecord P e.user_name = some d → d._id = _id)
    (hunseen : Along (trafficStep P)
      (System.Unseen (webHandler P) (StillSees P e _id
        (runAll (trafficStep P) (delivered P params w) before).state.inserted))
      (runAll (trafficStep P) (delivered P params w) before) after) :
    SeesOneRegistration P
      (runAll (trafficStep P) (delivered P params w) before) after := by
  have hwaiting := System.runAll_waiting (S := delivered P params w)
    (confined_webHandler P) hbefore (by simp [delivered])
  generalize runAll (trafficStep P) (delivered P params w) before = S at *
  obtain ⟨hmain, hothers⟩ := hwaiting
  have hdispatch : S.main = dispatch P e :=
    hmain.trans (createEnvironment_eq hevent)
  have htracks : S.main.Tracks World.listener := by
    rw [hdispatch]
    exact tracks_dispatch P e
  have hundisturbed := System.undisturbed_runAll htracks
    (confined_webHandler P) hothers (harmless_of_unseen hdispatch hpicked hunseen)
  have hrun := dispatch_run P e S.state
  rw [← hdispatch] at hrun
  refine ⟨?_, ?_⟩
  · intro x hraised
    obtain ⟨u, hu⟩ := hundisturbed.raised hraised
    rw [hu] at hrun
    exact absurd (hstart.outcome hrun).1 (by simp)
  · intro hdone
    obtain ⟨u, hu, hout⟩ := hundisturbed.done hdone
    obtain ⟨hhost, -, hinserted, -, hdeployed, -⟩ := World.listener_eq_iff.mp hout
    rw [hu] at hrun
    rcases (hstart.outcome hrun).2 with hnothing | ⟨g, hg⟩
    · left
      rw [← hnothing, hdeployed]
    · refine Or.inr ⟨[], after, g, rfl, hg.mem, hg.registration, ?_, ?_, ?_⟩
      · obtain ⟨name, content, hname, hupload, hwritten⟩ := hg.written
        exact ⟨name, content, hname, hupload, hhost.symm.trans hwritten⟩
      · obtain ⟨request, log_uuid, hcall, hrequest⟩ := hg.deployed
        exact ⟨request, log_uuid, hdeployed.symm.trans hcall, hrequest⟩
      · obtain ⟨record, hrecord, hfields⟩ := hg.recorded
        exact ⟨record, hinserted.symm.trans hrecord, hfields⟩

/-- The registration in `oneFunction`. -/
def oneRegistration : MappingDoc where
  _id := 0
  filename := .str "test.py"
  username := .str "testUser"
  eventType := .str "FilexxxxCreate"
  eventsource := .str "S1"
  memory := .str "256"
  environment := some (.str "python")
  sequence_count := 0
  log_uuid := none

/-- A change of the second function in `twoFunctions`. -/
def secondPut : WebRequest :=
  ⟨.put { Body.sample "testUser" "sum.py" with Memory := .str "512" },
    Eq.refl true⟩

/-- The change has begun when the dispatch of an event for the first function
begins, and goes on between its steps; after the run has been recorded, the
first function is deleted. -/
def putBeside : List TrafficMove :=
  [.main, .other 0, .main, .other 0, .main, .main, .other 0, .main, .main,
    .other 0, .main, .other 0] ++ List.replicate 10 .main ++
    [.arrive ⟨.delete "testUser" "test.py", Eq.refl true⟩, .other 1, .main,
      .other 1, .other 1, .main, .other 1, .main]

theorem twoFunctions_startsWell :
    StartsWell default (sampleEvent "testUser" "test.py") twoFunctions where
  accepted := rfl
  supplied := Or.inr
    ⟨oneRegistration, oneRegistration, "test.py", [112, 97, 115, 115],
      { first := by decide
        registration := rfl
        filename := rfl
        opens := by decide
        prints := by decide
        read := by decide
        uploaded := by decide
        counted := rfl
        latest := by decide
        record_filename := rfl
        record_username := rfl
        record_eventType := rfl
        record_eventsource := rfl
        record_memory := rfl }⟩

/-- The dispatch ends, and it has run the first function. -/
theorem dispatch_sees_one_registration_putBeside :
    let S := runAll (trafficStep default)
      (delivered default (samplePayload "testUser" "test.py") twoFunctions)
      [.arrive secondPut, .other 0]
    (runAll (trafficStep default) S putBeside).main = .done () ∧
      (runAll (trafficStep default) S putBeside).state.deployed ≠
        S.state.deployed ∧
      SeesOneRegistration default S putBeside := by
  refine ⟨rfl, by decide, ?_⟩
  refine dispatch_sees_one_registration
    (e := sampleEvent "testUser" "test.py") rfl ?_ ?_ 0 ?_ ?_
  · intro move hmove
    simp only [List.mem_cons, List.not_mem_nil, or_false] at hmove
    rcases hmove with rfl | rfl <;> exact nofun
  · exact twoFunctions_startsWell
  · intro d hd
    obtain rfl : oneRegistration = d := Option.some.inj hd
    rfl
  · refine along_append_iff.mpr ⟨along_append_iff.mpr ⟨?_, ?_⟩, ?_⟩
    · exact ⟨trivial,
        fun h => h.of_mapping rfl rfl (by decide) (by decide) rfl rfl, trivial,
        fun h => h.of_mapping rfl rfl (by decide) (by decide) rfl rfl, trivial,
        trivial,
        fun h => h.of_mapping rfl rfl (by decide) (by decide) rfl rfl, trivial,
        trivial,
        fun h => h.of_mapping rfl rfl (by decide) (by decide) rfl rfl, trivial,
        id, trivial⟩
    · apply along_of_forall
      intro move hmove S
      rw [List.eq_of_mem_replicate hmove]
      trivial
    · -- The run has been recorded.
      exact ⟨id, fun h => absurd h.left (by decide), trivial,
        fun h => absurd h.left (by decide), fun h => absurd h.left (by decide),
        trivial, fun h => absurd h.left (by decide), trivial, trivial⟩

/-- The first function of the user is deleted after its file name was read and
before its memory and its `_id` are. -/
def deletedInBetween : List TrafficMove :=
  [.main, .main, .arrive ⟨.delete "testUser" "test.py", rfl⟩,
    .other 0, .other 0, .other 0, .other 0] ++ List.replicate 20 .main

/-- The dispatch deploys the second function under the name of the first. -/
theorem dispatch_mixes_registrations :
    ¬SeesOneRegistration default
      (delivered default (samplePayload "testUser" "sum.py") twoFunctions)
      deletedInBetween := by
  intro hsees
  have hended : (runAll (trafficStep default)
      (delivered default (samplePayload "testUser" "sum.py") twoFunctions)
      deletedInBetween).main = .done () := rfl
  have hdeployed : (runAll (trafficStep default)
      (delivered default (samplePayload "testUser" "sum.py") twoFunctions)
      deletedInBetween).state.deployed.map (fun call => call.1.function_name) =
        [.str "test.py"] := by decide
  have hinserted : (runAll (trafficStep default)
      (delivered default (samplePayload "testUser" "sum.py") twoFunctions)
      deletedInBetween).state.inserted.map (fun record => record.filename) =
        [.str "sum.py"] := by decide
  rcases hsees.one_registration hended with hnothing | ⟨_, _, g, -, huses⟩
  · rw [hnothing] at hdeployed
    exact absurd hdeployed (by decide)
  · obtain ⟨request, log_uuid, hcall, hfunction, -⟩ := huses.deployed
    obtain ⟨record, hrecord, hfilename, -⟩ := huses.recorded
    have hempty : twoFunctions.deployed = [] ∧ twoFunctions.inserted = [] := by
      decide
    rw [hcall] at hdeployed
    rw [hrecord] at hinserted
    simp only [delivered, hempty, List.nil_append, List.map_cons, List.map_nil,
      List.cons.injEq, and_true, hfunction, hfilename] at hdeployed hinserted
    rw [hdeployed] at hinserted
    exact absurd hinserted (by decide)

end LambdaOnOpenStack
