import LambdaOnOpenStack.Registry.Frame

/-!
# The numbers of runs

A function is registered for one event source.  From then on each completed
dispatch for it inserts a run record, whose number is the successor of that of
the newest document of the function.  As long as the function keeps its event
source, its runs are numbered from one without gaps.
-/

namespace LambdaOnOpenStack

open Support

/-! ## Bindings -/

/-- The event is from the source `s` and for the function `f` of the user `u`. -/
def Request.triggers (u f s : String) : Request → Bool
  | .event params =>
      match readEvent params with
      | .ok e => e.user_name = .str u ∧ e.filename = .str f ∧
          e.event_source = .str s
      | .error _ => false
  | _ => false

/-- The request neither deletes the function nor gives it an event source. -/
def Request.keepsBinding (u f : String) : Request → Prop
  | .delete uname filename => ¬(uname = u ∧ filename = f)
  | .put body => body.UserName = .str u → body.FileName = .str f →
      body.EventSource = .null
  | _ => True

/-- The dispatch of the event inserts a run record: `updateSequenceCount`
completes. -/
def recordsRun (P : Platform) (w : World) (request : Request) : Bool :=
  w.inserted.length < (exec P w request).inserted.length

/-- The number of dispatches for the binding whose `updateSequenceCount`
completes. -/
def completedRuns (P : Platform) (u f s : String) : World → List Request → ℕ
  | _, [] => 0
  | w, request :: rest =>
      (request.triggers u f s && recordsRun P w request).toNat +
        completedRuns P u f s (exec P w request) rest

namespace Registry

/-- The documents of a function. -/
def documentsOf (r : Registry) (u f : String) : List MappingDoc :=
  r.mapping.filter fun d => d.Named u f

/-- The runs of a binding, in the order of their insertion. -/
def runsOf (r : Registry) (u f s : String) : List MappingDoc :=
  (r.documentsOf u f).filter fun d => d.isRunRecord && d.eventsource = .str s

/-- The documents of the function are its registration and `k` runs, numbered
and identified in increasing order. -/
structure Numbered (u f s : String) (k : ℕ) (r : Registry) : Prop where
  counts : (r.documentsOf u f).map (·.sequence_count) = List.range (k + 1)
  ordered : ((r.documentsOf u f).map (·._id)).Pairwise (· < ·)
  sources : ∀ d ∈ r.documentsOf u f, d.eventsource = .str s
  kinds : ∀ d ∈ r.documentsOf u f, d.isRunRecord = decide (0 < d.sequence_count)

/-- The next identifier is greater than those of the documents of the
function. -/
def NextIdGreatest (P : Platform) (r : Registry) (u f : String) : Prop :=
  ∀ d ∈ r.documentsOf u f, d._id < P.newId r.issued

variable {P : Platform} {r r' : Registry} {u f s : String} {k : ℕ}

/-! ## What the invariant says -/

theorem Numbered.runsOf_counts (h : r.Numbered u f s k) :
    (r.runsOf u f s).map (·.sequence_count) = List.range' 1 k := by
  have hruns : r.runsOf u f s =
      (r.documentsOf u f).filter ((0 < ·) ∘ MappingDoc.sequence_count) := by
    apply List.filter_congr
    intro d hd
    simp [h.sources d hd, h.kinds d hd]
  rw [hruns, ← List.filter_map, h.counts, List.range_eq_range', List.range'_succ,
    List.filter_cons_of_neg (by simp), List.filter_eq_self]
  intro n hn
  simp only [List.mem_range'_1] at hn
  simpa using by omega

theorem Numbered.of_documentsOf (h : r.Numbered u f s k)
    (hsame : r'.documentsOf u f = r.documentsOf u f) : r'.Numbered u f s k := by
  refine ⟨?_, ?_, ?_, ?_⟩
  · rw [hsame]
    exact h.counts
  · rw [hsame]
    exact h.ordered
  · rw [hsame]
    exact h.sources
  · rw [hsame]
    exact h.kinds

/-- The registration is there. -/
theorem Numbered.documentsOf_ne_nil (h : r.Numbered u f s k) :
    r.documentsOf u f ≠ [] := by
  intro hnil
  have hcounts := h.counts
  rw [hnil, List.range_succ] at hcounts
  simp at hcounts

theorem Numbered.hasKey (h : r.Numbered u f s k) :
    ∃ d ∈ r.mapping, d.hasKey u f = true := by
  obtain ⟨d, hd⟩ := List.exists_mem_of_ne_nil _ h.documentsOf_ne_nil
  obtain ⟨hmem, hnamed⟩ := List.mem_filter.mp hd
  exact ⟨d, hmem, (of_decide_eq_true hnamed).hasKey_iff.mpr ⟨rfl, rfl⟩⟩

/-- The query for the newest document of a binding finds all documents of a
function with this event source. -/
theorem recordsOf_eq_documentsOf (htext : r.TextNames)
    (hsources : ∀ d ∈ r.documentsOf u f, d.eventsource = .str s) :
    r.recordsOf P (.str u) (.str f) (.str s) = r.documentsOf u f := by
  apply List.filter_congr
  intro d hd
  rw [Bool.eq_iff_iff]
  constructor
  · intro hanswers
    exact decide_eq_true
      (htext.named_of_recordsOf (List.mem_filter.mpr ⟨hd, hanswers⟩))
  · intro hnamed
    have hsource := hsources d (List.mem_filter.mpr ⟨hd, hnamed⟩)
    have hnamed' := of_decide_eq_true hnamed
    simp [hnamed'.1, hnamed'.2, hsource]

theorem Numbered.recordsOf_eq (h : r.Numbered u f s k) (htext : r.TextNames) :
    r.recordsOf P (.str u) (.str f) (.str s) = r.documentsOf u f :=
  recordsOf_eq_documentsOf htext h.sources

theorem Numbered.exists_newest (h : r.Numbered u f s k) :
    ∃ init newest, r.documentsOf u f = init ++ [newest] :=
  ⟨_, _, (List.dropLast_append_getLast h.documentsOf_ne_nil).symm⟩

/-- The newest document has the greatest number. -/
theorem Numbered.latest_count (h : r.Numbered u f s k) {latest : MappingDoc}
    (hlatest : (r.documentsOf u f).argmax (·._id) = some latest) :
    latest.sequence_count = k := by
  obtain ⟨init, last, hsplit⟩ := h.exists_newest
  have hordered := h.ordered
  have hcounts := h.counts
  rw [hsplit] at hordered hcounts hlatest
  rw [List.pairwise_map] at hordered
  have hlast : latest = last := by
    have hle := List.le_of_mem_argmax
      (List.mem_append_right init (List.mem_singleton.mpr rfl)) hlatest
    rcases List.mem_append.mp (List.argmax_mem hlatest) with hmem | hmem
    · have hlt := (List.pairwise_append.mp hordered).2.2 latest hmem last
        (List.mem_singleton.mpr rfl)
      exact absurd hlt (Nat.not_lt.mpr hle)
    · exact List.mem_singleton.mp hmem
  rw [List.map_append, List.range_succ] at hcounts
  have hlength := (List.append_inj' hcounts rfl).2
  rw [hlast]
  simpa using hlength

/-! ## What the requests do to the documents of a function -/

/-- A request that does not name the function. -/
theorem Change.documentsOf_other {request : Request}
    (hchange : Change P r request r') (h : TextWellFormed P r)
    (htext : request.textual = true) (hother : ¬request.Names u f) :
    r'.documentsOf u f = r.documentsOf u f := by
  rcases hchange.eq_or_names htext with rfl | ⟨u', f', hnames⟩
  · rfl
  · have hne : (u, f) ≠ (u', f') := by
      intro hkey
      obtain ⟨rfl, rfl⟩ := Prod.mk.inj hkey
      exact hother hnames
    have htext' := hchange.textNames htext h.textNames
    rw [documentsOf, documentsOf, ← htext'.filter_hasKey,
      ← h.textNames.filter_hasKey]
    exact (hchange.sparesOthers h hnames).filter_mapping hne

/-- A run is recorded behind the documents of its function. -/
theorem documentsOf_record (P : Platform) (r : Registry) {latest : MappingDoc}
    (log_uuid : String) (hnamed : latest.Named u f) :
    (r.record P latest log_uuid).documentsOf u f =
      r.documentsOf u f ++ [r.runRecord P latest log_uuid] := by
  have hcopy : (r.runRecord P latest log_uuid).Named u f := hnamed
  rw [documentsOf, Registry.record, List.filter_append]
  simp [documentsOf, hcopy]

/-- A `PUT` without an event source keeps the numbers. -/
theorem Numbered.update (h : r.Numbered u f s k) (htext : r.TextNames)
    {body : Body} (huser : body.UserName = .str u)
    (hname : body.FileName = .str f) (hsource : body.EventSource = .null) :
    (r.updateKey P body (body.update P)).Numbered u f s k := by
  obtain ⟨g, rest, hdocs⟩ := List.exists_cons_of_ne_nil h.documentsOf_ne_nil
  obtain ⟨hid, -, -, hlog, hcount⟩ := update_kept (P := P) body g
  have hbody : body.hasKey P = (·.hasKey u f) := by
    funext e
    simp [Body.hasKey, huser, hname]
  have htext' : (r.updateKey P body (body.update P)).TextNames :=
    (Change.updated (P := P)).textNames
      (by simp [Request.textual, Body.textual, huser, hname, Value.isText]) htext
  have hdocs' : (r.updateKey P body (body.update P)).documentsOf u f =
      body.update P g :: rest := by
    rw [documentsOf, ← htext'.filter_hasKey, Registry.updateKey, hbody,
      filter_updateFirst_self (update_hasKey body u f), htext.filter_hasKey]
    rw [documentsOf] at hdocs
    rw [hdocs, List.modifyHead_cons]
  have hg : g ∈ r.documentsOf u f := by simp [hdocs]
  have hrest : ∀ d ∈ rest, d ∈ r.documentsOf u f := by
    intro d hd
    simp [hdocs, hd]
  have hcounts := h.counts
  have hordered := h.ordered
  rw [hdocs, List.map_cons] at hcounts hordered
  refine ⟨?_, ?_, ?_, ?_⟩
  · rwa [hdocs', List.map_cons, hcount]
  · rwa [hdocs', List.map_cons, hid]
  · rw [hdocs']
    intro d hd
    rcases List.mem_cons.mp hd with rfl | hd
    · rw [Body.update_eventsource, hsource, putValue, if_pos rfl]
      exact h.sources g hg
    · exact h.sources d (hrest d hd)
  · rw [hdocs']
    intro d hd
    rcases List.mem_cons.mp hd with rfl | hd
    · rw [MappingDoc.isRunRecord, hlog, hcount]
      exact h.kinds g hg
    · exact h.kinds d (hrest d hd)

theorem nextIdGreatest_of_strictMono (hwell : TextWellFormed P r)
    (hmono : StrictMono P.newId) : NextIdGreatest P r u f := by
  intro d hd
  obtain ⟨j, hj, hid⟩ := hwell.mapping_issued d (List.mem_filter.mp hd).1
  rw [hid]
  exact hmono hj

/-- The documents of the function after a run of the binding. -/
theorem Numbered.documentsOf_record (h : r.Numbered u f s k)
    (htext : r.TextNames) {latest : MappingDoc} (log_uuid : String)
    (hlatest : r.latestRecord P (.str u) (.str f) (.str s) = some latest) :
    latest.sequence_count = k ∧
      (r.record P latest log_uuid).documentsOf u f =
        r.documentsOf u f ++ [r.runRecord P latest log_uuid] ∧
      ∀ d ∈ (r.record P latest log_uuid).documentsOf u f,
        d.eventsource = .str s := by
  rw [latestRecord, h.recordsOf_eq htext] at hlatest
  have hmem := List.argmax_mem hlatest
  have hnamed : latest.Named u f := of_decide_eq_true (List.mem_filter.mp hmem).2
  have hdocs := Registry.documentsOf_record P r log_uuid hnamed
  refine ⟨h.latest_count hlatest, hdocs, ?_⟩
  rw [hdocs]
  intro d hd
  rcases List.mem_append.mp hd with hd | hd
  · exact h.sources d hd
  · obtain rfl := List.mem_singleton.mp hd
    exact h.sources latest hmem

/-- A run record gets the next number. -/
theorem Numbered.record (h : r.Numbered u f s k) (htext : r.TextNames)
    (hnext : NextIdGreatest P r u f) {latest : MappingDoc} {log_uuid : String}
    (hlatest : r.latestRecord P (.str u) (.str f) (.str s) = some latest) :
    (r.record P latest log_uuid).Numbered u f s (k + 1) := by
  obtain ⟨hcount, hdocs, hsources⟩ := h.documentsOf_record htext log_uuid hlatest
  refine ⟨?_, ?_, hsources, ?_⟩
  · rw [hdocs, List.map_append, h.counts, List.range_succ (n := k + 1), ← hcount]
    rfl
  · rw [hdocs, List.map_append, List.pairwise_append]
    refine ⟨h.ordered, List.pairwise_singleton _ _, ?_⟩
    intro x hx y hy
    obtain ⟨d, hd, rfl⟩ := List.mem_map.mp hx
    obtain rfl := List.mem_singleton.mp hy
    exact hnext d hd
  · rw [hdocs]
    intro d hd
    rcases List.mem_append.mp hd with hd | hd
    · exact h.kinds d hd
    · obtain rfl := List.mem_singleton.mp hd
      simp [MappingDoc.isRunRecord, runRecord, RunRecord.document,
        MappingDoc.nextRun]

/-- A request that names the function and is no event. -/
theorem Numbered.change (h : r.Numbered u f s k) (htext : r.TextNames)
    {request : Request} (hchange : Change P r request r')
    (hnames : request.Names u f) (hkeeps : request.keepsBinding u f)
    (hevent : ∀ params, request ≠ .event params) : r'.Numbered u f s k := by
  cases hchange with
  | idle => exact h
  | unmatched => exact h
  | uploaded => exact h.of_documentsOf rfl
  | @registered body g hfree =>
      -- The registration of the function is a duplicate.
      obtain ⟨d, hd, hkey⟩ := h.hasKey
      have hbody : body.hasKey P d = true := by
        simpa [Body.hasKey, hnames.1, hnames.2] using hkey
      rw [hfree d hd] at hbody
      exact absurd hbody (by decide)
  | updated =>
      exact h.update htext hnames.1 hnames.2 (hkeeps hnames.1 hnames.2)
  | removed => exact absurd hnames hkeeps
  | recorded => exact absurd rfl (hevent _)

end Registry

open Registry

/-! ## Whole runs -/

variable {P : Platform} {w : World} {u f s : String} {k : ℕ}

/-- An event adds a run of the binding exactly if it triggers the binding and
records a run. -/
theorem Registry.Numbered.event (h : w.registry.Numbered u f s k)
    (hwell : TextWellFormed P w.registry) {params : Value}
    (htext : (Request.event params).textual = true)
    (hnext : Request.triggers u f s (.event params) = true →
      recordsRun P w (.event params) = true →
      NextIdGreatest P w.registry u f) :
    (exec P w (.event params)).registry.Numbered u f s
      (k + (Request.triggers u f s (.event params) &&
        recordsRun P w (.event params)).toNat) := by
  rcases exec_event_insertion (P := P) (w := w) params with
    ⟨hsame, hinserted⟩ | ⟨e, latest, hevent, hlatest, hrecord, hinserted⟩
  · have hnone : recordsRun P w (.event params) = false := by
      simp [recordsRun, hinserted]
    rw [hsame, hnone, Bool.and_false]
    exact h
  · have hsome : recordsRun P w (.event params) = true := by
      simp [recordsRun, hinserted]
    by_cases hnames : (Request.event params).Names u f
    · obtain ⟨e', hevent', huser, hname⟩ := hnames
      obtain rfl := Except.ok.inj (hevent.symm.trans hevent')
      -- The source of the event is that of the documents of the function.
      have hsource : e.event_source = .str s := by
        simp only [Request.textual, hevent, Event.textual, Bool.and_eq_true,
          Value.isText_iff] at htext
        obtain ⟨-, s', hs'⟩ := htext
        have hmem := List.argmax_mem hlatest
        rw [huser, hname, hs'] at hmem
        have hdoc : latest ∈ w.registry.documentsOf u f :=
          List.mem_filter.mpr ⟨(List.mem_filter.mp hmem).1,
            decide_eq_true (hwell.textNames.named_of_recordsOf hmem)⟩
        have hanswers := (List.mem_filter.mp hmem).2
        rw [h.sources latest hdoc] at hanswers
        simp only [Platform.answers_str, Bool.and_eq_true,
          Value.holdsText_str] at hanswers
        rw [hs', hanswers.2]
      rw [huser, hname, hsource] at hlatest
      have htriggers : Request.triggers u f s (.event params) = true := by
        simp [Request.triggers, hevent, huser, hname, hsource]
      rw [hrecord, hsome, htriggers]
      exact h.record hwell.textNames (hnext htriggers hsome) hlatest
    · have hother : Request.triggers u f s (.event params) = false := by
        rw [Bool.eq_false_iff]
        intro htriggers
        simp only [Request.triggers, hevent, decide_eq_true_eq] at htriggers
        exact hnames ⟨e, hevent, htriggers.1, htriggers.2.1⟩
      rw [hother, Bool.false_and]
      exact h.of_documentsOf
        ((hwell.toWellFormed.change_exec _).documentsOf_other hwell htext hnames)

theorem Registry.Numbered.exec (h : w.registry.Numbered u f s k)
    (hwell : TextWellFormed P w.registry) {request : Request}
    (htext : request.textual = true) (hkeeps : request.keepsBinding u f)
    (hnext : request.triggers u f s = true → recordsRun P w request = true →
      NextIdGreatest P w.registry u f) :
    (exec P w request).registry.Numbered u f s
      (k + (request.triggers u f s && recordsRun P w request).toNat) := by
  by_cases hevent : ∃ params, request = .event params
  · obtain ⟨params, rfl⟩ := hevent
    exact h.event hwell htext hnext
  · have hnot : ∀ params, request ≠ .event params :=
      fun params heq => hevent ⟨params, heq⟩
    have hother : request.triggers u f s = false := by
      cases request with
      | event params => exact absurd rfl (hnot params)
      | _ => rfl
    have hchange := hwell.toWellFormed.change_exec request
    rw [hother, Bool.false_and]
    by_cases hnames : request.Names u f
    · exact h.change hwell.textNames hchange hnames hkeeps hnot
    · exact h.of_documentsOf (hchange.documentsOf_other hwell htext hnames)

theorem Registry.Numbered.runAll (h : w.registry.Numbered u f s k)
    (hwell : TextWellFormed P w.registry) (hmono : StrictMono P.newId)
    {requests : List Request}
    (hrequests : ∀ request ∈ requests,
      request.textual = true ∧ request.keepsBinding u f) :
    (Support.runAll (LambdaOnOpenStack.exec P) w requests).registry.Numbered u f s
      (k + completedRuns P u f s w requests) := by
  induction requests generalizing w k with
  | nil => exact h
  | cons request rest ih =>
      obtain ⟨⟨htext, hkeeps⟩, hrest⟩ := List.forall_mem_cons.mp hrequests
      have hafter := h.exec hwell htext hkeeps
        fun _ _ => nextIdGreatest_of_strictMono hwell hmono
      rw [completedRuns, ← Nat.add_assoc]
      exact ih hafter (hwell.after_exec htext) hrest

/-- The registration of a new function begins its numbering. -/
theorem Registry.Numbered.start (hwell : TextWellFormed P w.registry)
    {body : Body} (huser : body.UserName = .str u)
    (hname : body.FileName = .str f) (hsource : body.EventSource = .str s)
    (hcreated : ((postLambda P body).run w).1 = .ok .created) :
    (LambdaOnOpenStack.exec P w (.post body)).registry.Numbered u f s 0 := by
  rcases postLambda_cases P body w hwell.file_keys with
    ⟨g, hfree, -, -, hrun⟩ | ⟨hnot, -⟩
  · have hexec : (LambdaOnOpenStack.exec P w (.post body)).registry =
        w.registry.insert (body.registration g) := by
      rw [exec_eq, Request.handler, hrun]
      rfl
    have hold : w.registry.documentsOf u f = [] := by
      rw [documentsOf, List.filter_eq_nil_iff]
      intro d hd hnamed
      have hkey := (of_decide_eq_true hnamed).hasKey_iff.mpr ⟨rfl, rfl⟩
      have hbody : body.hasKey P d = true := by
        simpa [Body.hasKey, huser, hname] using hkey
      rw [hfree d hd] at hbody
      exact absurd hbody (by decide)
    have hnew : (body.registration g).Named u f := ⟨huser, hname⟩
    have hdocs : (w.registry.insert (body.registration g)).documentsOf u f =
        [body.registration g] := by
      rw [documentsOf] at hold
      rw [documentsOf, Registry.insert, List.filter_append, hold]
      simp [hnew]
    rw [hexec]
    refine ⟨?_, ?_, ?_, ?_⟩
    · rw [hdocs]
      rfl
    · rw [hdocs]
      exact List.pairwise_singleton _ _
    · rw [hdocs]
      intro d hd
      rw [List.mem_singleton.mp hd]
      exact hsource
    · rw [hdocs]
      intro d hd
      rw [List.mem_singleton.mp hd]
      rfl
  · exact absurd hcreated hnot

/-- A function is registered for an event source.  Then come any requests that
neither delete it nor give it another event source.  The runs of the binding
are numbered from one without gaps, and there are as many as dispatches for it
whose `updateSequenceCount` completed. -/
theorem runs_numbered (hmono : StrictMono P.newId) (hw : TextReachable P w)
    {body : Body} (huser : body.UserName = .str u)
    (hname : body.FileName = .str f) (hsource : body.EventSource = .str s)
    (hcreated : ((postLambda P body).run w).1 = .ok .created)
    {requests : List Request}
    (hrequests : ∀ request ∈ requests,
      request.textual = true ∧ request.keepsBinding u f) :
    ((runAll (exec P) (exec P w (.post body)) requests).registry.runsOf
        u f s).map (·.sequence_count) =
      List.range' 1
        (completedRuns P u f s (exec P w (.post body)) requests) := by
  have htext : (Request.post body).textual = true := by
    simp [Request.textual, Body.textual, huser, hname, Value.isText]
  have hstart := Numbered.start hw.wellFormed huser hname hsource hcreated
  have hrun := hstart.runAll (hw.wellFormed.after_exec htext) hmono hrequests
  rw [Nat.zero_add] at hrun
  exact hrun.runsOf_counts

/-- The world after one upload. -/
def oneUpload : World :=
  runAll (exec default) {}
    [.fileupload (.str "testUser") "test.py" [112, 97, 115, 115]]

/-- Two runs of the function and an attempt to register it again. -/
def runRegisterRun : List Request :=
  [.event (samplePayload "testUser" "test.py"),
    .post (.sample "testUser" "test.py"),
    .event (samplePayload "testUser" "test.py")]

theorem runs_numbered_twice :
    ((runAll (exec default)
        (exec default oneUpload (.post (.sample "testUser" "test.py")))
        runRegisterRun).registry.runsOf "testUser" "test.py" "S1").map
          (·.sequence_count) =
      List.range' 1 (completedRuns default "testUser" "test.py" "S1"
        (exec default oneUpload (.post (.sample "testUser" "test.py")))
        runRegisterRun) := by
  have hreachable : TextReachable default oneUpload := ⟨_, by decide, rfl⟩
  refine runs_numbered (fun _ _ h => h) hreachable rfl rfl rfl (by decide) ?_
  intro request hrequest
  simp only [runRegisterRun, List.mem_cons, List.not_mem_nil, or_false]
    at hrequest
  rcases hrequest with rfl | rfl | rfl <;> exact ⟨by decide, trivial⟩

end LambdaOnOpenStack
