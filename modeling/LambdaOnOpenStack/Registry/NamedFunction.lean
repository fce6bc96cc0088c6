import LambdaOnOpenStack.Registry.Invariant

/-!
# The function that an event names

An event names a registration by its user, its file name and its event source,
while the dispatch picks the first document of the user.  The named function
runs exactly if that document stands for it.
-/

namespace LambdaOnOpenStack

open Support Registry

/-- The event names this registration. -/
structure Event.Names (e : Event) (d : MappingDoc) : Prop where
  registration : d.isRegistration = true
  username : d.username = e.user_name
  filename : d.filename = e.filename
  eventsource : d.eventsource = e.event_source

/-- From `w` to `w'` the bytes uploaded for `d` were written to the host, and
its file name and memory were handed to `deploy_and_execute_docker`. -/
structure RunsFunction (d : MappingDoc) (w w' : World) : Prop where
  written : ∃ name content, d.filename = .str name ∧
    (d._id, content) ∈ w.registry.uploads ∧
    w'.host = w.host ++
      [.truncate (hostPath name), .write (hostPath name) content]
  deployed : ∃ request log_uuid,
    w'.deployed = w.deployed ++ [(request, log_uuid)] ∧
    request.function_name = d.filename ∧
    request.memory = d.memory.orElse (.int 128)

/-- The function that the event names runs, and nothing runs if it names
none. -/
structure DispatchesNamed (e : Event) (w w' : World) : Prop where
  named : ∀ d ∈ w.registry.mapping, e.Names d → RunsFunction d w w'
  unnamed : (∀ d ∈ w.registry.mapping, ¬e.Names d) →
    w'.host = w.host ∧ w'.deployed = w.deployed

/-- The first document `picked` of the event's user is a registration with the
file name, the memory and the bytes of `d`, the server accepts the queries,
and some document carries all three fields of the event. -/
structure StandsFor (P : Platform) (e : Event) (w : World) (name : String)
    (picked d : MappingDoc) : Prop extends Picks P e w picked name where
  registration : picked.isRegistration = true
  same_filename : picked.filename = d.filename
  same_memory : picked.memory.orElse (.int 128) = d.memory.orElse (.int 128)
  same_bytes : ∃ content, (picked._id, content) ∈ w.registry.uploads ∧
    (d._id, content) ∈ w.registry.uploads
  counted : (P.refuses e.filename || P.refuses e.event_source) = false
  recorded :
    w.registry.recordsOf P e.user_name e.filename e.event_source ≠ []

/-- When the event names a registration, the first document of its user
stands for it; when it names none, the dispatch opens no file. -/
structure PicksNamed (P : Platform) (e : Event) (w : World) : Prop where
  named : ∀ d ∈ w.registry.mapping, e.Names d →
    ∃ name first, StandsFor P e w name first d
  unnamed : (∀ d ∈ w.registry.mapping, ¬e.Names d) →
    ∀ name first, ¬Picks P e w first name

variable {P : Platform} {e : Event} {w w' : World}
  {result : Except Failure Unit}

theorem recordsOf_ne_nil_iff {r : Registry} {user name source : Value} :
    r.recordsOf P user name source ≠ [] ↔
      ∃ latest, r.latestRecord P user name source = some latest := by
  rw [← Option.ne_none_iff_exists', Registry.latestRecord, ne_eq, ne_eq,
    List.argmax_eq_none]

/-- A record that can be read is a registration. -/
theorem Registry.WellFormed.registration_of_content {r : Registry}
    (h : WellFormed P r) {d : MappingDoc} (hd : d ∈ r.mapping)
    {content : Bytes} (hread : r.content d._id = .ok content) :
    d.isRegistration = true ∧ (d._id, content) ∈ r.uploads := by
  have hreg : d.isRegistration = true := by
    by_contra hreg
    have hrun : d.isRunRecord = true := by
      simpa [MappingDoc.isRunRecord_eq_not] using hreg
    rw [(h.content_of_runRecord hd hrun).2] at hread
    simp at hread
  refine ⟨hreg, ?_⟩
  obtain ⟨bytes, hupload, hcontent⟩ := h.content_of_registration hd hreg
  rw [hcontent] at hread
  rw [← Except.ok.inj hread]
  exact hupload

/-- A dispatch that picks a registration completes if it finds a record for its
counter. -/
theorem Picks.completes (h : WellFormed P w.registry) {name : String}
    {first : MappingDoc} (hpicks : Picks P e w first name)
    (hreg : first.isRegistration = true)
    (hcounted : (P.refuses e.filename || P.refuses e.event_source) = false)
    (hrecorded :
      w.registry.recordsOf P e.user_name e.filename e.event_source ≠ []) :
    ∃ content latest, Completes P e w first name content latest := by
  have hfirst := List.mem_of_find?_eq_some hpicks.first
  obtain ⟨content, -, hread⟩ := h.content_of_registration hfirst hreg
  obtain ⟨latest, hlatest⟩ := recordsOf_ne_nil_iff.mp hrecorded
  exact ⟨content, latest, hpicks, hread, hcounted, hlatest⟩

theorem Completes.recorded {name : String} {first latest : MappingDoc}
    {content : Bytes} (hcompletes : Completes P e w first name content latest) :
    w.registry.recordsOf P e.user_name e.filename e.event_source ≠ [] :=
  recordsOf_ne_nil_iff.mpr ⟨latest, hcompletes.latest⟩

theorem StandsFor.completes (h : WellFormed P w.registry) {name : String}
    {first d : MappingDoc} (hstands : StandsFor P e w name first d) :
    ∃ content latest, Completes P e w first name content latest ∧
      (d._id, content) ∈ w.registry.uploads := by
  obtain ⟨content, latest, hcompletes⟩ := hstands.toPicks.completes h
    hstands.registration hstands.counted hstands.recorded
  obtain ⟨bytes, hsame, hd⟩ := hstands.same_bytes
  have hbytes := h.content_eq_uploaded hcompletes.read hsame
  rw [← hbytes] at hd
  exact ⟨content, latest, hcompletes, hd⟩

theorem runsFunction_iff (h : WellFormed P w.registry)
    (hrun : DispatchRun P e w result w') {d : MappingDoc} :
    RunsFunction d w w' ↔ ∃ name first, StandsFor P e w name first d := by
  constructor
  · intro hruns
    obtain ⟨name, content, hname, hupload, hhost⟩ := hruns.written
    obtain ⟨request, log_uuid, hdeployed, hfunction, hmemory⟩ := hruns.deployed
    rcases hrun.deployed_cases with
      ⟨first, name', content', latest, hcompletes, hhost', hdeployed'⟩ |
      ⟨-, hdeployed'⟩
    · rw [hdeployed'] at hdeployed
      rw [hhost'] at hhost
      have hrequest : (World.deployRequest e first, P.newUuid w.uuids) =
          (request, log_uuid) := by simpa using hdeployed
      have hops : hostPath name' = hostPath name ∧ content' = content := by
        simpa using hhost
      obtain ⟨rfl, -⟩ := Prod.mk.inj hrequest
      obtain ⟨-, rfl⟩ := hops
      have hmem := List.mem_of_find?_eq_some hcompletes.first
      obtain ⟨hreg, hstored⟩ :=
        h.registration_of_content hmem hcompletes.read
      exact ⟨name', first, hcompletes.toPicks, hreg, hfunction, hmemory,
        ⟨content', hstored, hupload⟩, hcompletes.counted, hcompletes.recorded⟩
    · rw [hdeployed'] at hdeployed
      simp at hdeployed
  · rintro ⟨name, first, hstands⟩
    obtain ⟨content, latest, hcompletes, hupload⟩ := hstands.completes h
    rcases hrun.deployed_cases with
      ⟨first', name', content', latest', hcompletes', hhost, hdeployed⟩ |
      ⟨hnone, -⟩
    · obtain ⟨rfl, rfl, rfl, rfl⟩ := hcompletes'.unique hcompletes
      have hname : d.filename = .str name' := by
        rw [← hstands.same_filename]
        exact hcompletes.filename
      exact ⟨⟨name', content', hname, hupload, hhost⟩,
        ⟨_, _, hdeployed, hstands.same_filename, hstands.same_memory⟩⟩
    · exact absurd hcompletes (hnone first name content latest)

theorem nothing_done_iff (hrun : DispatchRun P e w result w') :
    (w'.host = w.host ∧ w'.deployed = w.deployed) ↔
      ∀ name first, ¬Picks P e w first name := by
  rcases hrun.picked_cases with ⟨first, name, rest, hpicks, hhost⟩ | ⟨hnone, rfl⟩
  · constructor
    · rintro ⟨hsame, -⟩
      rw [hhost] at hsame
      simp at hsame
    · intro hnone
      exact absurd hpicks (hnone name first)
  · constructor
    · intro _ name first
      exact hnone first name
    · intro _
      exact ⟨rfl, rfl⟩

theorem dispatchesNamed_iff (h : WellFormed P w.registry)
    (hrun : DispatchRun P e w result w') :
    DispatchesNamed e w w' ↔ PicksNamed P e w := by
  constructor
  · intro hnamed
    refine ⟨?_, ?_⟩
    · intro d hd hnames
      exact (runsFunction_iff h hrun).mp (hnamed.named d hd hnames)
    · intro hnone
      exact (nothing_done_iff hrun).mp (hnamed.unnamed hnone)
  · intro hpicks
    refine ⟨?_, ?_⟩
    · intro d hd hnames
      exact (runsFunction_iff h hrun).mpr (hpicks.named d hd hnames)
    · intro hnone
      exact (nothing_done_iff hrun).mpr (hpicks.unnamed hnone)

/-- In every reachable state an event runs the function it names exactly if
the first document of its user stands for that function. -/
theorem createEnvironment_named_iff (hw : Reachable P w) {params : Value}
    (hevent : readEvent params = .ok e) :
    DispatchesNamed e w ((createEnvironment P params).run w).2 ↔
      PicksNamed P e w := by
  have h := hw.wellFormed
  rw [createEnvironment_eq hevent]
  exact dispatchesNamed_iff h (dispatch_run P e w)

/-- The event of `begin_queing`, for any user and file. -/
def sampleEvent (user filename : String) : Event where
  filename := .str filename
  event_source := .str "S1"
  user_name := .str user

theorem createEnvironment_named_iff_oneFunction :
    Reachable default oneFunction ∧
      readEvent (samplePayload "testUser" "test.py") =
        .ok (sampleEvent "testUser" "test.py") ∧
      (DispatchesNamed (sampleEvent "testUser" "test.py") oneFunction
          ((createEnvironment default
            (samplePayload "testUser" "test.py")).run oneFunction).2 ↔
        PicksNamed default (sampleEvent "testUser" "test.py") oneFunction) :=
  ⟨oneFunction_reachable, rfl,
    createEnvironment_named_iff oneFunction_reachable rfl⟩

/-- The event for the second function of a user runs the first one. -/
theorem second_function_not_run :
    Reachable default twoFunctions ∧
      readEvent (samplePayload "testUser" "sum.py") =
        .ok (sampleEvent "testUser" "sum.py") ∧
      ¬DispatchesNamed (sampleEvent "testUser" "sum.py") twoFunctions
        ((createEnvironment default
          (samplePayload "testUser" "sum.py")).run twoFunctions).2 := by
  refine ⟨(oneFunction_reachable.exec _).exec _, rfl, ?_⟩
  intro hdispatches
  obtain ⟨d, hd, hreg, huser, hfile, hsource⟩ : ∃ d ∈ twoFunctions.registry.mapping,
      d.isRegistration = true ∧ d.username = .str "testUser" ∧
        d.filename = .str "sum.py" ∧ d.eventsource = .str "S1" := by decide
  have hruns := hdispatches.named d hd ⟨hreg, huser, hfile, hsource⟩
  obtain ⟨request, log_uuid, hdeployed, hfunction, -⟩ := hruns.deployed
  have hactual : ((createEnvironment default
      (samplePayload "testUser" "sum.py")).run twoFunctions).2.deployed.map
        (fun call => call.1.function_name) = [.str "test.py"] := by decide
  rw [hdeployed, List.map_append] at hactual
  have hempty : twoFunctions.deployed = [] := by decide
  simp [hempty, hfunction, hfile] at hactual

end LambdaOnOpenStack
