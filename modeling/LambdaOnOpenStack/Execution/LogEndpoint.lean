import LambdaOnOpenStack.Execution.LogPath
import LambdaOnOpenStack.Execution.RunNumbers

/-!
# The endpoint for logs

`GET /lambda/logs` looks for a document by the number of a run and sends the
file that is named after the identifier in it.  The documents of a function have
different numbers, so the endpoint takes no run for another one.
-/

namespace LambdaOnOpenStack

open Support Program Registry Services

/-! ## The endpoint -/

/-- What the endpoint answers.  A file is sent under a name. -/
inductive LogReply where
  | sendFile (path filename : String)
  | text (message : String)
  | nothing
  deriving DecidableEq

/-- The document has this number and event type. -/
def MappingDoc.isLogged (event_type : String) (sequence_count : ℤ)
    (d : MappingDoc) : Bool :=
  (d.sequence_count : ℤ) = sequence_count && d.eventType.holdsText event_type

/-- What is answered for a record; `exist` is `File.exist?`. -/
def logReply (P : Platform) (exist : String → Bool) (record : MappingDoc) :
    LogReply :=
  let log_file := logFile P record
  if exist ("../LambdaService/EventListener/log/" ++ log_file) then
    .sendFile ("../LambdaService/EventListener//log/" ++ log_file) log_file
  else .text "No log file for this specific sequence"

/-- `get "/lambda/logs/:username/:function_name/:event_type/:sequence_count"`,
with the number that `to_i` makes of the last part.  Each way through the loop
leaves it after the first document. -/
def getLogs (P : Platform) (exist : String → Bool)
    (username function_name event_type : String) (sequence_count : ℤ) :
    Handler LogReply := do
  let found ← .ask fun w => w.registry.mapping.filter fun d =>
    d.hasKey username function_name && d.isLogged event_type sequence_count
  match found with
  | [] => return .nothing
  | record :: _ => return logReply P exist record

/-! ## The records of a function -/

section Records

variable {P : Platform} {exist : String → Bool} {u f s : String} {n k : ℕ}
  {foreign : Multiset ObjectId} {w : World}

/-- The endpoint finds documents of the function only. -/
theorem filter_isLogged (h : w.registry.TextNames) (event_type : String)
    (sequence_count : ℤ) :
    (w.registry.mapping.filter fun d =>
        d.hasKey u f && d.isLogged event_type sequence_count) =
      (w.registry.documentsOf u f).filter
        (·.isLogged event_type sequence_count) := by
  rw [documentsOf, List.filter_filter]
  refine List.filter_congr fun d hd => ?_
  rw [Bool.and_comm]
  congr 1
  rw [Bool.eq_iff_iff, h.hasKey_iff hd, decide_eq_true_eq]

/-- No two documents of a function have the same number. -/
theorem Registry.Numbered.eq_of_count {r : Registry} (h : r.Numbered u f s k)
    {d e : MappingDoc} (hd : d ∈ r.documentsOf u f) (he : e ∈ r.documentsOf u f)
    (hcount : d.sequence_count = e.sequence_count) : d = e := by
  have hnodup : ((r.documentsOf u f).map (·.sequence_count)).Nodup := by
    rw [h.counts]
    exact List.nodup_range
  exact eq_of_key_eq hnodup hd he hcount

/-- A run that has been recorded is found by its number. -/
theorem run_getLogs_of_run (h : Counted P u f s n k foreign w) {record : MappingDoc}
    (hrecord : record ∈ w.registry.runsOf u f s) {event_type : String}
    (htype : record.eventType.holdsText event_type = true) :
    (getLogs P exist u f event_type record.sequence_count).run w =
      (.ok (logReply P exist record), w) := by
  have hdoc : record ∈ w.registry.documentsOf u f := (List.mem_filter.mp hrecord).1
  have hlogged : record.isLogged event_type record.sequence_count = true := by
    simp [MappingDoc.isLogged, htype]
  have hmem : record ∈ (w.registry.documentsOf u f).filter
      (·.isLogged event_type record.sequence_count) :=
    List.mem_filter.mpr ⟨hdoc, hlogged⟩
  rw [getLogs, run_ask_bind, filter_isLogged h.textNames]
  cases hfound : (w.registry.documentsOf u f).filter
      (·.isLogged event_type record.sequence_count) with
  | nil =>
      rw [hfound] at hmem
      cases hmem
  | cons first rest =>
      have hfirst : first ∈ (w.registry.documentsOf u f).filter
          (·.isLogged event_type record.sequence_count) := by
        rw [hfound]
        exact List.mem_cons_self ..
      obtain ⟨hfirst, hnumber⟩ := List.mem_filter.mp hfirst
      simp only [MappingDoc.isLogged, Bool.and_eq_true, decide_eq_true_eq,
        Nat.cast_inj] at hnumber
      rw [h.numbered.eq_of_count hfirst hdoc hnumber.1]
      rfl

/-- For a number that no run has, and that is not that of the registration, the
endpoint finds nothing. -/
theorem run_getLogs_of_none (h : Counted P u f s n k foreign w) {event_type : String}
    {sequence_count : ℤ} (hpositive : sequence_count ≠ 0)
    (hnone : ∀ record ∈ w.registry.runsOf u f s,
      record.isLogged event_type sequence_count = false) :
    (getLogs P exist u f event_type sequence_count).run w = (.ok .nothing, w) := by
  have hempty : (w.registry.documentsOf u f).filter
      (·.isLogged event_type sequence_count) = [] := by
    rw [List.filter_eq_nil_iff]
    intro d hd hlogged
    have hnumber := hlogged
    simp only [MappingDoc.isLogged, Bool.and_eq_true, decide_eq_true_eq] at hnumber
    have hrun : d.isRunRecord = true := by
      rw [h.numbered.kinds d hd, decide_eq_true_eq]
      omega
    have hmem : d ∈ w.registry.runsOf u f s :=
      List.mem_filter.mpr ⟨hd, by simp [hrun, h.numbered.sources d hd]⟩
    rw [hnone d hmem] at hlogged
    exact Bool.false_ne_true hlogged
  rw [getLogs, run_ask_bind, filter_isLogged h.textNames, hempty]
  rfl

end Records

/-! ## Any run of the deployed service -/

/-- A function has been registered for an event source, and then the deployed
service runs as in `deployed_runs_numbered`.  At any time a request for the logs
of a run that has been recorded, with its number and its event type, is answered
for this run, and a request for a number that no run of this type has gets
nothing. -/
theorem deployed_logs_are_own {P : Platform} {w : World} {u f s : String}
    (hmono : StrictMono P.newId) (hw : TextReachable P w)
    {body : Body} (huser : body.UserName = .str u) (hname : body.FileName = .str f)
    (hsource : body.EventSource = .str s)
    (hcreated : ((postLambda P body).run w).1 = .ok .created)
    {loads : Bytes → Except Failure Value} {actions : List DeploymentAction}
    (hmessages : ∀ message, .publish message ∈ actions → TextBody loads message)
    (hrequests : ∀ request, .arrive request ∈ actions →
      request.1.textual = true ∧ request.1.keepsBinding u f)
    (exist : String → Bool) (event_type : String) :
    let w' := (runAll (deploymentStep P loads) (idle (exec P w (.post body)))
      actions).delivery.state
    (∀ record ∈ w'.registry.runsOf u f s,
        record.eventType.holdsText event_type = true →
          (getLogs P exist u f event_type record.sequence_count).run w' =
            (.ok (logReply P exist record), w')) ∧
      ∀ sequence_count : ℤ, sequence_count ≠ 0 →
        (∀ record ∈ w'.registry.runsOf u f s,
            record.isLogged event_type sequence_count = false) →
          (getLogs P exist u f event_type sequence_count).run w' =
            (.ok .nothing, w') := by
  intro w'
  obtain ⟨k, foreign, hcounted⟩ :=
    counted_deployed hmono hw huser hname hsource hcreated hmessages hrequests
  constructor
  · intro record hrecord htype
    exact run_getLogs_of_run hcounted hrecord htype
  · intro sequence_count hpositive hnone
    exact run_getLogs_of_none hcounted hpositive hnone

theorem deployed_logs_are_own_registeredBetween :
    let w₀ := exec default oneUpload (.post (.sample "testUser" "test.py"))
    let w' := (runAll (deploymentStep default asciiLoads) (idle w₀)
      registeredBetweenRuns).delivery.state
    let logs := getLogs default (fun _ => true) "testUser" "test.py" "FilexxxxCreate"
    (∀ record ∈ w'.registry.runsOf "testUser" "test.py" "S1",
        record.eventType.holdsText "FilexxxxCreate" = true →
          (logs record.sequence_count).run w' =
            (.ok (logReply default (fun _ => true) record), w')) ∧
      ∀ sequence_count : ℤ, sequence_count ≠ 0 →
        (∀ record ∈ w'.registry.runsOf "testUser" "test.py" "S1",
            record.isLogged "FilexxxxCreate" sequence_count = false) →
          (logs sequence_count).run w' = (.ok .nothing, w') := by
  have hreachable : TextReachable default oneUpload := ⟨_, by decide, rfl⟩
  exact deployed_logs_are_own (fun _ _ h => h) hreachable rfl rfl rfl (by decide)
    (fun _ => textBody_registeredBetween) (fun _ => keepsBinding_registeredBetween)
    (fun _ => true) "FilexxxxCreate"

end LambdaOnOpenStack
