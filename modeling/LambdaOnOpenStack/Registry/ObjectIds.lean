import LambdaOnOpenStack.Registry.Numbering
import LambdaOnOpenStack.Support.BigEndian

/-!
# The order of generated identifiers

An ObjectId consists of the second in which it was generated, of bytes for the
machine and the process, and of a counter of the process.  The documents of a
function get theirs from two processes: the web interface generates that of the
registration at the upload, the listener those of the runs.

`__findLatestRecord` takes the document with the greatest identifier for the
newest one.  Within one second the bytes of the process decide, and those being
the same, a counter that wraps.
-/

namespace LambdaOnOpenStack

open Support

/-! ## Generation -/

/-- A process that generates ObjectIds.  `ObjectId._inc` starts with
`random.randint(0, 0xFFFFFF)`. -/
structure Process where
  machine : Fin (256 ^ 3)
  pid : ℕ
  _inc : Fin (256 ^ 3)
  deriving DecidableEq

namespace Process

/-- `ObjectId._inc` after the process has generated `made` identifiers. -/
def incAfter (p : Process) : (made : ℕ) → ℕ
  | 0 => p._inc
  | made + 1 => (p.incAfter made + 1) % 0xFFFFFF

theorem incAfter_lt (p : Process) (made : ℕ) : p.incAfter made < 256 ^ 3 := by
  cases made with
  | zero => exact p._inc.isLt
  | succ made => exact lt_trans (Nat.mod_lt _ (by decide)) (by decide)

theorem incAfter_eq_add (p : Process) {made : ℕ}
    (hmade : p._inc + made < 0xFFFFFF) : p.incAfter made = p._inc + made := by
  induction made with
  | zero => rfl
  | succ made ih =>
      rw [incAfter, ih (by omega), Nat.add_assoc, Nat.mod_eq_of_lt hmade]

/-- The bytes of the machine and of the process id in an identifier. -/
def origin (p : Process) : Bytes :=
  pack 3 p.machine ++ pack 2 (p.pid % 0xFFFF)

@[simp] theorem length_origin (p : Process) : p.origin.length = 5 := by
  simp [origin]

end Process

/-- The generation of all identifiers, in the order of a shared clock that
never goes back: the process, the second, and how many identifiers the process
has made before.  `struct.pack(">i", …)` takes seconds below `2 ^ 31`. -/
structure Generation where
  author : ℕ → Process
  seconds : ℕ → ℕ
  made : ℕ → ℕ
  clock : Monotone seconds
  seconds_lt : ∀ k, seconds k < 2 ^ 31
  made_lt : ∀ {j k}, j < k → author j = author k → made j < made k

namespace Generation

variable (G : Generation)

/-- The counter in the `k`-th identifier. -/
def inc (k : ℕ) : ℕ := (G.author k).incAfter (G.made k)

/-- The bytes that `ObjectId.__generate` puts together. -/
def generate (k : ℕ) : Bytes :=
  pack 4 (G.seconds k) ++ ((G.author k).origin ++ pack 3 (G.inc k))

/-- The identifier as a number. -/
def id (k : ℕ) : ℕ := unpack (G.generate k)

/-- The `k`-th identifier is greater than the `j`-th but for the seconds. -/
def Follows (j k : ℕ) : Prop :=
  (G.author j).origin < (G.author k).origin ∨
    (G.author j).origin = (G.author k).origin ∧ G.inc j < G.inc k

instance (j k : ℕ) : Decidable (G.Follows j k) :=
  inferInstanceAs (Decidable (_ ∨ _))

@[simp] theorem length_generate (k : ℕ) : (G.generate k).length = 12 := by
  simp [generate]

theorem id_lt (k : ℕ) : G.id k < 256 ^ 12 := by
  have hlt := unpack_lt (G.generate k)
  rwa [length_generate] at hlt

/-- The byte strings are ordered as the identifiers. -/
theorem generate_lt_iff (j k : ℕ) :
    G.generate j < G.generate k ↔ G.id j < G.id k :=
  lt_iff_unpack_lt (by simp)

variable {G} {j k : ℕ}

/-- The order of two identifiers, of which the second is the younger one. -/
theorem id_lt_iff (hjk : j < k) :
    G.id j < G.id k ↔ (G.seconds j = G.seconds k → G.Follows j k) := by
  have hseconds (i : ℕ) : unpack (pack 4 (G.seconds i)) = G.seconds i :=
    unpack_pack (lt_trans (G.seconds_lt i) (by decide))
  have hinc (i : ℕ) : unpack (pack 3 (G.inc i)) = G.inc i :=
    unpack_pack ((G.author i).incAfter_lt _)
  have horigin : (G.author j).origin.length = (G.author k).origin.length := by
    simp
  have hclock := G.clock hjk.le
  rw [id, id, generate, generate, unpack_append_lt_iff (by simp),
    unpack_append_lt_iff (by simp), hseconds, hseconds, hinc, hinc,
    ← lt_iff_unpack_lt horigin, ← eq_iff_unpack_eq horigin, Follows]
  constructor
  · rintro (hlt | ⟨-, hfollows⟩) hsame
    · omega
    · exact hfollows
  · intro hfollows
    rcases hclock.lt_or_eq with hlt | hsame
    · exact Or.inl hlt
    · exact Or.inr ⟨hsame, hfollows hsame⟩

/-- A process keeps its identifiers in order until its counter wraps. -/
theorem follows_of_unwrapped (hjk : j < k) (hauthor : G.author j = G.author k)
    (hunwrapped : (G.author k)._inc + G.made k < 0xFFFFFF) : G.Follows j k := by
  have hmade := G.made_lt hjk hauthor
  refine Or.inr ⟨by rw [hauthor], ?_⟩
  rw [inc, inc, hauthor, Process.incAfter_eq_add _ hunwrapped,
    Process.incAfter_eq_add _ (by omega)]
  omega

end Generation

/-- The first `n` identifiers of the platform are the generated ones. -/
def Platform.Generates (P : Platform) (G : Generation) (n : ℕ) : Prop :=
  ∀ k < n, P.newId k = G.id k

/-- A platform that hands out the first `n` identifiers of `G`. -/
def Generation.platform (G : Generation) (n : ℕ)
    (hdistinct : ∀ i < n, ∀ j < n, G.id i = G.id j → i = j) : Platform :=
  { (default : Platform) with
    newId := fun k => if k < n then G.id k else 256 ^ 12 + k
    newId_injective := by
      intro i j hsame
      have hi := G.id_lt i
      have hj := G.id_lt j
      change (if i < n then G.id i else 256 ^ 12 + i : ℕ) =
        if j < n then G.id j else 256 ^ 12 + j at hsame
      split_ifs at hsame with hin hjn hjn
      · exact hdistinct i hin j hjn hsame
      · omega
      · omega
      · omega }

theorem Generation.generates_platform {G : Generation} {n : ℕ}
    {hdistinct : ∀ i < n, ∀ j < n, G.id i = G.id j → i = j} :
    (G.platform n hdistinct).Generates G n :=
  fun _ hk => if_pos hk

/-! ## The newest document -/

namespace Registry

variable {P : Platform} {r r' : Registry} {u f s : String} {k : ℕ}

/-- The record that `__findLatestRecord` returns has the greatest number among
those of its user, file name and event source. -/
def LatestIsGreatest (P : Platform) (u f s : String) (r : Registry) : Prop :=
  ∃ latest, r.latestRecord P (.str u) (.str f) (.str s) = some latest ∧
    ∀ d ∈ r.recordsOf P (.str u) (.str f) (.str s), d ≠ latest →
      d.sequence_count < latest.sequence_count

instance : Decidable (r.LatestIsGreatest P u f s) :=
  match hlatest : r.latestRecord P (.str u) (.str f) (.str s) with
  | none => isFalse (by simp [LatestIsGreatest, hlatest])
  | some latest =>
      decidable_of_iff (∀ d ∈ r.recordsOf P (.str u) (.str f) (.str s),
          d ≠ latest → d.sequence_count < latest.sequence_count)
        (by simp [LatestIsGreatest, hlatest])

theorem Numbered.count_le (h : r.Numbered u f s k) {d : MappingDoc}
    (hd : d ∈ r.documentsOf u f) : d.sequence_count ≤ k := by
  have hmem : d.sequence_count ∈
      (r.documentsOf u f).map (·.sequence_count) := List.mem_map_of_mem hd
  rw [h.counts, List.mem_range] at hmem
  omega

theorem Numbered.latestIsGreatest (h : r.Numbered u f s k)
    (htext : r.TextNames) : r.LatestIsGreatest P u f s := by
  obtain ⟨latest, hlatest⟩ : ∃ latest,
      (r.documentsOf u f).argmax (·._id) = some latest := by
    rw [← Option.ne_none_iff_exists', ne_eq, List.argmax_eq_none]
    exact h.documentsOf_ne_nil
  have hmem := List.argmax_mem hlatest
  have hcount := h.latest_count hlatest
  rw [LatestIsGreatest, latestRecord, h.recordsOf_eq htext]
  refine ⟨latest, hlatest, ?_⟩
  intro d hd hne
  have hdistinct : d.sequence_count ≠ latest.sequence_count := by
    intro hsame
    have hnodup := List.nodup_range (n := k + 1)
    rw [← h.counts] at hnodup
    exact hne (List.inj_on_of_nodup_map hnodup hd hmem hsame)
  have hle := h.count_le hd
  omega

/-- If the record of a new run is found as the latest, it has the greatest
identifier. -/
theorem Numbered.nextIdGreatest_of_record (h : r.Numbered u f s k)
    (hwell : TextWellFormed P r) {latest : MappingDoc} {log_uuid : String}
    (hlatest : r.latestRecord P (.str u) (.str f) (.str s) = some latest)
    (htext : (r.record P latest log_uuid).TextNames)
    (hgreatest : (r.record P latest log_uuid).LatestIsGreatest P u f s) :
    NextIdGreatest P r u f := by
  obtain ⟨hcount, hdocs, hsources⟩ :=
    h.documentsOf_record hwell.textNames log_uuid hlatest
  obtain ⟨newest, hnewest, hgreatest⟩ := hgreatest
  rw [latestRecord, recordsOf_eq_documentsOf htext hsources, hdocs] at hnewest
  rw [recordsOf_eq_documentsOf htext hsources, hdocs] at hgreatest
  have hrun : newest = r.runRecord P latest log_uuid := by
    rcases List.mem_append.mp (List.argmax_mem hnewest) with hold | hnew
    · by_contra hne
      have hlt := hgreatest _ (List.mem_concat_self ..) (Ne.symm hne)
      have hle := h.count_le hold
      have hnumber : (r.runRecord P latest log_uuid).sequence_count =
          latest.sequence_count + 1 := rfl
      omega
    · exact List.mem_singleton.mp hnew
  intro d hd
  have hle := List.le_of_mem_argmax (List.mem_append_left _ hd) hnewest
  have hfresh := hwell.mapping_fresh d (List.mem_filter.mp hd).1
  rw [hrun] at hle
  exact lt_of_le_of_ne hle hfresh

/-- The next identifier comes after that of the newest document of the
function. -/
def NextIdFollows (G : Generation) (P : Platform) (r : Registry)
    (u f : String) : Prop :=
  ∀ j < r.issued,
    ((r.documentsOf u f).getLast?.map (·._id)) = some (P.newId j) →
      G.seconds j = G.seconds r.issued → G.Follows j r.issued

instance (G : Generation) : Decidable (NextIdFollows G P r u f) :=
  inferInstanceAs (Decidable (∀ j < _, _ → _ → _))

theorem Numbered.nextIdGreatest_iff {G : Generation}
    (h : r.Numbered u f s k) (hwell : TextWellFormed P r)
    (hids : P.Generates G (r.issued + 1)) :
    NextIdGreatest P r u f ↔ NextIdFollows G P r u f := by
  obtain ⟨init, last, hsplit⟩ := h.exists_newest
  have hlast : last ∈ r.documentsOf u f := by
    rw [hsplit]
    exact List.mem_concat_self ..
  have hordered := h.ordered
  rw [hsplit, List.pairwise_map] at hordered
  obtain ⟨j, hj, hid⟩ := hwell.mapping_issued last (List.mem_filter.mp hlast).1
  have hnewest (i : ℕ) : ((r.documentsOf u f).getLast?.map (·._id)) =
      some (P.newId i) ↔ j = i := by
    rw [hsplit, List.getLast?_concat, Option.map_some, hid, Option.some_inj,
      P.newId_injective.eq_iff]
  have hlt : last._id < P.newId r.issued ↔
      (G.seconds j = G.seconds r.issued → G.Follows j r.issued) := by
    rw [hid, hids j (by omega), hids r.issued (by omega), G.id_lt_iff hj]
  constructor
  · intro hnext i hi hlatest
    obtain rfl := (hnewest i).mp hlatest
    exact hlt.mp (hnext last hlast)
  · intro hfollows d hd
    have hgreater := hlt.mpr (hfollows j hj ((hnewest j).mpr rfl))
    rw [hsplit] at hd
    rcases List.mem_append.mp hd with hd | hd
    · have hless := (List.pairwise_append.mp hordered).2.2 d hd last
        (List.mem_singleton.mpr rfl)
      exact lt_trans hless hgreater
    · rwa [List.mem_singleton.mp hd]

/-- No request takes an identifier back. -/
theorem Change.issued_le {request : Request}
    (hchange : Change P r request r') : r.issued ≤ r'.issued := by
  cases hchange with
  | uploaded => exact Nat.le_succ _
  | recorded => exact Nat.le_succ _
  | _ => exact Nat.le_refl _

end Registry

open Registry

/-! ## Whole runs -/

variable {G : Generation} {P : Platform} {w : World} {u f s : String} {k : ℕ}

/-- A dispatch for the user gets as far as `updateSequenceCount`: the file of
the user's first record can be opened and read. -/
def reachesCount (P : Platform) (u : String) (w : World) : Bool :=
  match w.registry.firstRecord P (.str u) with
  | some d =>
      match d.filename, w.registry.content d._id with
      | .str name, .ok _ => P.opens (hostPath name)
      | _, _ => false
  | none => false

theorem reachesCount_iff {e : Event} (huser : e.user_name = .str u) :
    reachesCount P u w = true ↔
      ∃ d name content, Picks P e w d name ∧
        w.registry.content d._id = .ok content := by
  constructor
  · intro hreaches
    rw [reachesCount] at hreaches
    split at hreaches
    · rename_i d hfirst
      split at hreaches
      · rename_i name content hname hread
        refine ⟨d, name, content, ⟨?_, ?_, hname, hreaches⟩, hread⟩
        · rw [huser, Platform.refuses_str]
        · rw [huser, hfirst]
      · simp at hreaches
    · simp at hreaches
  · rintro ⟨d, name, content, hpicks, hread⟩
    have hfirst := hpicks.first
    rw [huser] at hfirst
    rw [reachesCount, hfirst]
    simp only [hpicks.filename, hread, hpicks.opens]

/-- If the request gets as far as to record a run, its identifier comes after
that of the newest document. -/
def RunsInOrder (G : Generation) (P : Platform) (u f s : String) (w : World)
    (request : Request) : Prop :=
  request.triggers u f s = true → reachesCount P u w = true →
    NextIdFollows G P w.registry u f

instance (request : Request) : Decidable (RunsInOrder G P u f s w request) :=
  inferInstanceAs (Decidable (_ → _ → _))

/-- What a dispatch for the binding does that records a run. -/
theorem record_of_recordsRun {request : Request}
    (htriggers : request.triggers u f s = true)
    (hrecords : recordsRun P w request = true) :
    ∃ latest log_uuid,
      w.registry.latestRecord P (.str u) (.str f) (.str s) = some latest ∧
        (exec P w request).registry = w.registry.record P latest log_uuid := by
  cases request with
  | event params =>
      rcases exec_event_insertion (P := P) (w := w) params with
        ⟨-, hinserted⟩ | ⟨e, latest, hevent, hlatest, hrecord, -⟩
      · simp [recordsRun, hinserted] at hrecords
      · simp only [Request.triggers, hevent, decide_eq_true_eq] at htriggers
        obtain ⟨huser, hname, hsource⟩ := htriggers
        rw [huser, hname, hsource] at hlatest
        exact ⟨latest, _, hlatest, hrecord⟩
  | _ => simp [Request.triggers] at htriggers

/-- A dispatch for a numbered function records a run as soon as it gets there. -/
theorem Registry.Numbered.recordsRun_eq (h : w.registry.Numbered u f s k)
    (htext : w.registry.TextNames) {request : Request}
    (htriggers : request.triggers u f s = true) :
    recordsRun P w request = reachesCount P u w := by
  cases request with
  | event params =>
      cases hevent : readEvent params with
      | error x => simp [Request.triggers, hevent] at htriggers
      | ok e =>
          simp only [Request.triggers, hevent, decide_eq_true_eq] at htriggers
          obtain ⟨huser, hname, hsource⟩ := htriggers
          have hlatest : ∃ latest, w.registry.latestRecord P e.user_name
              e.filename e.event_source = some latest := by
            obtain ⟨latest, hlatest, -⟩ := h.latestIsGreatest (P := P) htext
            exact ⟨latest, by rw [huser, hname, hsource, hlatest]⟩
          rw [Bool.eq_iff_iff, reachesCount_iff huser, recordsRun, exec_event,
            hevent]
          rcases (dispatch_run P e w).completed_cases with
            ⟨d, name, content, latest, hcompletes, hworld⟩ |
            ⟨hnone, -, hinserted, -⟩
          · have hgrows : w.inserted.length <
                ((dispatch P e).run w).2.inserted.length := by
              rw [hworld]
              split <;> simp [World.dispatched, World.handOver,
                World.recordRun, World.startWorker, World.rewrite,
                World.drawUuid]
            exact iff_of_true (decide_eq_true hgrows)
              ⟨d, name, content, hcompletes.toPicks, hcompletes.read⟩
          · refine iff_of_false (by simp [hinserted]) ?_
            rintro ⟨d, name, content, hpicks, hread⟩
            obtain ⟨latest, hlatest⟩ := hlatest
            refine hnone d name content latest ⟨hpicks, hread, ?_, hlatest⟩
            rw [hname, hsource]
            rfl
  | _ => simp [Request.triggers] at htriggers

/-- A function is registered for an event source.  Then come any requests that
neither delete it nor give it another event source.  The record that
`__findLatestRecord` returns is the one with the greatest number at all times
exactly if every run gets an identifier that comes after that of the newest
document. -/
theorem latest_is_greatest_iff (G : Generation) (hw : TextReachable P w)
    {body : Body} (huser : body.UserName = .str u)
    (hname : body.FileName = .str f) (hsource : body.EventSource = .str s)
    (hcreated : ((postLambda P body).run w).1 = .ok .created)
    {requests : List Request}
    (hrequests : ∀ request ∈ requests,
      request.textual = true ∧ request.keepsBinding u f)
    (hids : P.Generates G
      (runAll (exec P) (exec P w (.post body)) requests).registry.issued) :
    Throughout (exec P) (fun w => w.registry.LatestIsGreatest P u f s)
        (exec P w (.post body)) requests ↔
      Along (exec P) (RunsInOrder G P u f s) (exec P w (.post body))
        requests := by
  have htext : (Request.post body).textual = true := by
    simp [Request.textual, Body.textual, huser, hname, Value.isText]
  have hstart := Numbered.start hw.wellFormed huser hname hsource hcreated
  have hwell := hw.wellFormed.after_exec htext
  obtain ⟨-, hrun⟩ := along_of_runAll
    (J := fun w : World => TextWellFormed P w.registry)
    (Q := fun w : World => P.Generates G w.registry.issued)
    (fun w request hwell hrequest => hwell.after_exec hrequest.1)
    (fun w request hwell _ hids j hj => hids j
      (lt_of_lt_of_le hj (hwell.toWellFormed.change_exec request).issued_le))
    hwell hrequests hids
  apply throughout_iff_along_of_kept
    (K := fun w : World => TextWellFormed P w.registry ∧
      ∃ k, w.registry.Numbered u f s k)
    ?_ ?_ ?_ ⟨hwell, 0, hstart⟩ hrun
  · rintro w ⟨hwell, k, hnumbered⟩
    exact hnumbered.latestIsGreatest hwell.textNames
  · rintro w request ⟨hwell, k, hnumbered⟩ ⟨⟨htext, hkeeps⟩, hids⟩ hfollows
    refine ⟨hwell.after_exec htext, _,
      hnumbered.exec hwell htext hkeeps ?_⟩
    intro htriggers hrecords
    obtain ⟨latest, log_uuid, -, hrecord⟩ :=
      record_of_recordsRun htriggers hrecords
    rw [hrecord] at hids
    rw [hnumbered.recordsRun_eq hwell.textNames htriggers] at hrecords
    exact (hnumbered.nextIdGreatest_iff hwell hids).mpr
      (hfollows htriggers hrecords)
  · rintro w request ⟨hwell, k, hnumbered⟩ ⟨⟨htext, -⟩, hids⟩ hgreatest
      htriggers hreaches
    have hrecords := hnumbered.recordsRun_eq (P := P) hwell.textNames htriggers
    rw [hreaches] at hrecords
    have htext' := (hwell.after_exec htext).textNames
    obtain ⟨latest, log_uuid, hlatest, hrecord⟩ :=
      record_of_recordsRun htriggers hrecords
    rw [hrecord] at hids hgreatest htext'
    exact (hnumbered.nextIdGreatest_iff hwell hids).mp
      (hnumbered.nextIdGreatest_of_record hwell hlatest htext' hgreatest)

/-- In one second, `web` generates the identifier of a file and `listener` all
others. -/
def Generation.oneSecond (web listener : Process) : Generation where
  author k := if k = 0 then web else listener
  seconds _ := 1460000000
  made k := k
  clock := monotone_const
  seconds_lt _ := by decide
  made_lt hjk _ := hjk

/-- A process of the machine that both processes share. -/
def Process.withPid (pid : ℕ) : Process := ⟨1, pid, 7⟩

/-- The process id of the listener is the greater one. -/
def listenerAbove : Generation := .oneSecond (.withPid 1000) (.withPid 2000)

/-- The process id of the web interface is the greater one. -/
def webAbove : Generation := .oneSecond (.withPid 2000) (.withPid 1000)

theorem listenerAbove_distinct : ∀ i < 3, ∀ j < 3,
    listenerAbove.id i = listenerAbove.id j → i = j := by
  decide +kernel

theorem webAbove_distinct : ∀ i < 3, ∀ j < 3,
    webAbove.id i = webAbove.id j → i = j := by
  decide +kernel

/-- The world after the upload of one file. -/
def uploadedOn (P : Platform) : World :=
  runAll (exec P) {} [.fileupload (.str "testUser") "test.py" [112, 97, 115, 115]]

theorem uploadedOn_reachable (P : Platform) :
    TextReachable P (uploadedOn P) :=
  ⟨_, by decide, rfl⟩

theorem latest_is_greatest_iff_listenerAbove :
    let P := listenerAbove.platform 3 listenerAbove_distinct
    Throughout (exec P)
      (fun w => w.registry.LatestIsGreatest P "testUser" "test.py" "S1")
      (exec P (uploadedOn P) (.post (.sample "testUser" "test.py")))
      [.event (samplePayload "testUser" "test.py"),
        .event (samplePayload "testUser" "test.py")] := by
  intro P
  refine (latest_is_greatest_iff listenerAbove (uploadedOn_reachable P) rfl rfl
    rfl (by decide +kernel) ?_ ?_).mpr (by decide +kernel)
  · intro request hrequest
    simp only [List.mem_cons, List.not_mem_nil, or_false] at hrequest
    rcases hrequest with rfl | rfl <;> exact ⟨by decide, trivial⟩
  · have hissued : (runAll (exec P)
        (exec P (uploadedOn P) (.post (.sample "testUser" "test.py")))
        [.event (samplePayload "testUser" "test.py"),
          .event (samplePayload "testUser" "test.py")]).registry.issued = 3 := by
      decide +kernel
    rw [hissued]
    exact Generation.generates_platform

/-- The run of a function that was uploaded in the same second by a process
with a greater id: the registration stays the latest record. -/
theorem first_run_not_latest :
    let P := webAbove.platform 3 webAbove_distinct
    let body := Body.sample "testUser" "test.py"
    let event := Request.event (samplePayload "testUser" "test.py")
    ((postLambda P body).run (uploadedOn P)).1 = .ok .created ∧
      (runAll (exec P) (exec P (uploadedOn P) (.post body))
        [event]).registry.issued = 2 ∧
      ¬Throughout (exec P)
        (fun w => w.registry.LatestIsGreatest P "testUser" "test.py" "S1")
        (exec P (uploadedOn P) (.post body)) [event] := by
  intro P body event
  refine ⟨by decide +kernel, by decide +kernel, ?_⟩
  rintro ⟨-, hlatest⟩
  have hnot : ¬(exec P (exec P (uploadedOn P) (.post body))
      event).registry.LatestIsGreatest P "testUser" "test.py" "S1" := by
    decide +kernel
  exact hnot hlatest

end LambdaOnOpenStack
