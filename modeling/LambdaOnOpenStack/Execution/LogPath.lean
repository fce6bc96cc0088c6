import LambdaOnOpenStack.Execution.Attempts
import LambdaOnOpenStack.Registry.Footprint
import LambdaOnOpenStack.Registry.Invariant
import LambdaOnOpenStack.Support.Redirection
import Mathlib.Data.List.Pairwise

/-!
# Where the output of a run is

`swarm_exec.sh` redirects the output of a function to a file whose name it
forms from its arguments, and `GET /lambda/logs` forms the name of the file
that it sends from the run record.  The first name begins with the file name of
the first document of the user, unquoted; the second begins with that of the
latest record of the event.
-/

namespace LambdaOnOpenStack

open Support Program Registry

/-! ## Identifiers of runs -/

/-- The characters of a UUID. -/
def isUuidChar (c : Char) : Bool :=
  c.isDigit || ('a' ≤ c && c ≤ 'f') || c = '-'

/-- `uuid.uuid4()` never gives the same twice. -/
structure Platform.DrawsUuids (P : Platform) : Prop where
  injective : Function.Injective P.newUuid
  characters : ∀ k, ∀ c ∈ (P.newUuid k).toList, isUuidChar c = true

/-- The identifiers in the run records were drawn one after another. -/
structure RunsIdentified (P : Platform) (w : World) : Prop where
  drawn : ∀ u ∈ w.registry.mapping.filterMap (·.log_uuid),
    ∃ k < w.uuids, u = P.newUuid k
  nodup : (w.registry.mapping.filterMap (·.log_uuid)).Nodup

variable {P : Platform} {w : World}

theorem RunsIdentified.of_sublist {w' : World} (h : RunsIdentified P w)
    (hsublist : (w'.registry.mapping.filterMap (·.log_uuid)).Sublist
      (w.registry.mapping.filterMap (·.log_uuid)))
    (huuids : w.uuids ≤ w'.uuids) : RunsIdentified P w' where
  drawn := by
    intro u hu
    obtain ⟨k, hk, hdrawn⟩ := h.drawn u (hsublist.subset hu)
    exact ⟨k, Nat.lt_of_lt_of_le hk huuids, hdrawn⟩
  nodup := h.nodup.sublist hsublist

/-- Only a run adds an identifier. -/
theorem Registry.Change.log_uuids {r r' : Registry} {request : Request}
    (hchange : Change P r request r')
    (hevent : ∀ params, request ≠ .event params) :
    (r'.mapping.filterMap (·.log_uuid)).Sublist
      (r.mapping.filterMap (·.log_uuid)) := by
  cases hchange with
  | idle => exact List.Sublist.refl _
  | unmatched => exact List.Sublist.refl _
  | uploaded => exact List.Sublist.refl _
  | registered =>
      simp [Registry.insert, List.filterMap_append, Body.registration]
  | @updated body =>
      have hlogs := map_updateFirst (p := body.hasKey P) (g := (·.log_uuid))
        (fun d => (update_kept (P := P) body d).2.2.2.1) r.mapping
      have hsame := congrArg (List.filterMap id) hlogs
      rw [List.filterMap_map, List.filterMap_map] at hsame
      exact hsame ▸ List.Sublist.refl _
  | removed => exact List.eraseP_sublist.filterMap _
  | recorded => exact absurd rfl (hevent _)

/-- A dispatch that records its run draws the identifier for it. -/
theorem DispatchRun.uuids {e : Event} {w' : World}
    {result : Except Failure Unit} (hrun : DispatchRun P e w result w') :
    (w'.registry = w.registry ∧ w.uuids ≤ w'.uuids) ∨
      ∃ latest, w'.registry = w.registry.record P latest (P.newUuid w.uuids) ∧
        w'.uuids = w.uuids + 1 := by
  cases hrun with
  | uncounted => exact Or.inl ⟨rfl, Nat.le_succ _⟩
  | unrecorded => exact Or.inl ⟨rfl, Nat.le_succ _⟩
  | unprinted => exact Or.inr ⟨_, rfl, rfl⟩
  | started => exact Or.inr ⟨_, rfl, rfl⟩
  | _ => exact Or.inl ⟨rfl, Nat.le_refl _⟩

theorem RunsIdentified.dispatch (huuids : P.DrawsUuids)
    (h : RunsIdentified P w) {e : Event} {w' : World}
    {result : Except Failure Unit} (hrun : DispatchRun P e w result w') :
    RunsIdentified P w' := by
  rcases hrun.uuids with ⟨hsame, hle⟩ | ⟨latest, hrecord, hdrawn⟩
  · refine h.of_sublist ?_ hle
    rw [hsame]
  · have hlogs : w'.registry.mapping.filterMap (·.log_uuid) =
        w.registry.mapping.filterMap (·.log_uuid) ++ [P.newUuid w.uuids] := by
      simp [hrecord, Registry.record, runRecord, RunRecord.document,
        MappingDoc.nextRun]
    refine ⟨?_, ?_⟩
    · intro u hu
      rw [hlogs] at hu
      rw [hdrawn]
      rcases List.mem_append.mp hu with hu | hu
      · obtain ⟨k, hk, rfl⟩ := h.drawn u hu
        exact ⟨k, Nat.lt_succ_of_lt hk, rfl⟩
      · exact ⟨w.uuids, Nat.lt_succ_self _, List.mem_singleton.mp hu⟩
    · rw [hlogs, nodup_concat_iff h.nodup]
      intro hold
      obtain ⟨k, hk, heq⟩ := h.drawn _ hold
      exact absurd (huuids.injective heq) (Nat.ne_of_gt hk)

theorem exec_uuids (request : WebRequest) :
    (exec P w request.1).uuids = w.uuids := by
  have hsame := (confined_webHandler P request).run w
  exact (World.listener_eq_iff.mp hsame).2.1

theorem RunsIdentified.exec (huuids : P.DrawsUuids)
    (hwell : WellFormed P w.registry) (h : RunsIdentified P w)
    (request : Request) : RunsIdentified P (exec P w request) := by
  by_cases hevent : ∃ params, request = .event params
  · obtain ⟨params, rfl⟩ := hevent
    rw [exec_event]
    cases readEvent params with
    | error x => exact h
    | ok e => exact h.dispatch huuids (dispatch_run P e w)
  · have hnot : ∀ params, request ≠ .event params :=
      fun params heq => hevent ⟨params, heq⟩
    have hweb : request.isWeb = true := by
      cases request with
      | event params => exact absurd rfl (hnot params)
      | _ => rfl
    refine h.of_sublist ((hwell.change_exec request).log_uuids hnot) ?_
    exact Nat.le_of_eq (exec_uuids ⟨request, hweb⟩).symm

theorem Reachable.runsIdentified (huuids : P.DrawsUuids)
    (hw : Reachable P w) : RunsIdentified P w :=
  hw.invariant (I := RunsIdentified P) ⟨by simp, List.nodup_nil⟩
    fun _ request hwell h => h.exec huuids hwell request

/-- Two run records have different identifiers. -/
theorem RunsIdentified.eq_of_log_uuid (h : RunsIdentified P w)
    {d e : MappingDoc} (hd : d ∈ w.registry.mapping)
    (he : e ∈ w.registry.mapping) {u : String} (hdu : d.log_uuid = some u)
    (heu : e.log_uuid = some u) : d = e := by
  by_contra hne
  have hpairs := List.pairwise_filterMap.mp h.nodup
  have hsymm : Std.Symm fun d e : MappingDoc =>
      ∀ u, d.log_uuid = some u → ∀ v, e.log_uuid = some v → u ≠ v :=
    ⟨fun _ _ hab u hu v hv huv => hab v hv u hu huv.symm⟩
  exact hpairs.forall hd he hne u hdu u heu rfl

/-! ## The two names -/

/-- The directory in which the script is executed, as the web interface sees
it. -/
def listenerDir : List Char := "../LambdaService/EventListener/".toList

/-- `./log/$FUNCTION_NAME"_"$UUID".log"` with the values in place. -/
def logWord (name uuid : List Char) : List Char :=
  "./log/".toList ++ name ++ ('_' :: (uuid ++ ".log".toList))

/-- What is in `./log`: the files that match a word as a pattern.  The files
there end in the identifiers of their runs, so the word of a run matches no
file of another one. -/
structure LogDirectory (P : Platform) where
  found : List Char → List (List Char)
  own : ∀ name k, found (logWord name (P.newUuid k).toList) = [] ∨
    found (logWord name (P.newUuid k).toList) =
      [logWord name (P.newUuid k).toList]

instance (P : Platform) : Inhabited (LogDirectory P) where
  default :=
    { found := fun _ => []
      own := fun _ _ => Or.inl rfl }

/-- A path of the script as the web interface sees it. -/
def fromListener : List Char → String
  | '.' :: '/' :: path => String.ofList (listenerDir ++ path)
  | path => String.ofList (listenerDir ++ path)

/-- The file to which the script redirects the output of the function.  A
thread has a text as its file name. -/
def scriptLog (dir : LogDirectory P) (args : WorkerArgs) : Option String :=
  match args.fileName with
  | .str name =>
      (redirect dir.found (logWord name.toList args.log_uuid.toList)).map
        fromListener
  | _ => none

/-- `log_file` of `GET /lambda/logs` for a record. -/
def logFile (P : Platform) (record : MappingDoc) : String :=
  Ruby.toText P.table record.filename ++ "_" ++ record.log_uuid.getD "" ++ ".log"

/-- The file that `GET /lambda/logs` looks for. -/
def endpointLog (P : Platform) (record : MappingDoc) : String :=
  "../LambdaService/EventListener/log/" ++ logFile P record

/-- If the dispatch inserts a run record and starts a thread that executes the
script, the script writes to the file that the endpoint computes from the
record; and the files of different run records are different. -/
structure FindsLogs (P : Platform) (dir : LogDirectory P) (w w' : World) :
    Prop where
  found : ∀ record args,
    w'.registry.mapping = w.registry.mapping ++ [record] →
      w'.workers = w.workers ++ [args] →
        (strFails args.fileName || strFails args.memory) = false →
          scriptLog dir args = some (endpointLog P record)
  different : ∀ d ∈ w'.registry.mapping, ∀ e ∈ w'.registry.mapping,
    d.isRunRecord = true → e.isRunRecord = true → d ≠ e →
      endpointLog P d ≠ endpointLog P e

/-- If the dispatch of the event records its run and the script is executed
for it, the name of the deployed function has no blanks, and the latest record
of the event has this name, too. -/
def NamesLogsAlike (P : Platform) (w : World) (params : Value) : Prop :=
  ∀ e d name content latest, readEvent params = .ok e →
    Completes P e w d name content latest →
      P.prints ("file::" ++ name) = true →
        (strFails (.str name) || strFails (d.memory.orElse (.int 128))) =
          false →
            (∀ c ∈ name.toList, isBlank c = false) ∧
              Ruby.toText P.table latest.filename = name

theorem listenerDir_log :
    "../LambdaService/EventListener/log/".toList =
      listenerDir ++ "log/".toList := by
  decide

theorem toList_log (dir name uuid suffix : String) :
    (dir ++ (name ++ "_" ++ uuid ++ suffix)).toList =
      dir.toList ++ name.toList ++ ('_' :: (uuid.toList ++ suffix.toList)) := by
  have hunderscore : "_".toList = ['_'] := by decide
  simp only [String.toList_append, hunderscore, List.append_assoc,
    List.cons_append, List.nil_append]

theorem endpointLog_toList (record : MappingDoc) :
    (endpointLog P record).toList =
      listenerDir ++ "log/".toList ++
        (Ruby.toText P.table record.filename).toList ++
          ('_' :: ((record.log_uuid.getD "").toList ++ ".log".toList)) := by
  rw [← listenerDir_log]
  exact toList_log _ _ _ _

theorem isBlank_of_isUuidChar {c : Char} (hc : isUuidChar c = true) :
    isBlank c = false := by
  rw [Bool.eq_false_iff]
  intro hblank
  simp only [isBlank, Bool.or_eq_true, decide_eq_true_eq] at hblank
  rcases hblank with (rfl | rfl) | rfl <;> revert hc <;> decide

/-- The text behind the last separator is determined. -/
theorem eq_of_separated {c : Char} {a b u v : List Char}
    (h : a ++ c :: u = b ++ c :: v) (hu : c ∉ u) (hv : c ∉ v) : u = v := by
  have hcase : ∀ {x y : List Char}, c ∉ x → ∀ rest : List Char,
      c :: x = rest ++ c :: y → x = y := by
    intro x y hx rest heq
    cases rest with
    | nil => exact (List.cons.inj heq).2
    | cons r rest =>
        have hmem : c ∈ x := by
          rw [(List.cons.inj heq).2]
          simp
        exact absurd hmem hx
  rcases List.append_eq_append_iff.mp h with ⟨rest, -, hrest⟩ | ⟨rest, -, hrest⟩
  · exact hcase hu rest hrest
  · exact (hcase hv rest hrest).symm

/-- The endpoint looks for different files for different identifiers. -/
theorem Platform.DrawsUuids.endpointLog_ne (h : P.DrawsUuids) {d e : MappingDoc}
    {j k : ℕ} (hd : d.log_uuid = some (P.newUuid j))
    (he : e.log_uuid = some (P.newUuid k)) (hne : j ≠ k) :
    endpointLog P d ≠ endpointLog P e := by
  intro heq
  have hlists := congrArg String.toList heq
  rw [endpointLog_toList, endpointLog_toList, hd, he, Option.getD_some,
    Option.getD_some] at hlists
  have hfree : ∀ k, '_' ∉ (P.newUuid k).toList ++ ".log".toList := by
    intro k hmem
    rcases List.mem_append.mp hmem with hmem | hmem
    · exact absurd (h.characters k _ hmem) (by decide)
    · exact absurd hmem (by decide)
  have hsame := eq_of_separated hlists (hfree j) (hfree k)
  exact hne (h.injective (String.toList_injective (List.append_cancel_right hsame)))

theorem fromListener_logWord (name uuid : List Char) :
    (fromListener (logWord name uuid)).toList =
      listenerDir ++ "log/".toList ++ name ++
        ('_' :: (uuid ++ ".log".toList)) := by
  have hword : logWord name uuid =
      '.' :: '/' :: ("log/".toList ++ name ++ ('_' :: (uuid ++ ".log".toList))) :=
    rfl
  rw [hword, fromListener, String.toList_ofList]
  simp only [List.append_assoc]

/-- When the script of a thread writes to the file of a record. -/
theorem scriptLog_eq_iff (h : P.DrawsUuids) (dir : LogDirectory P)
    {name : String} {memory : Value} {k : ℕ} {record : MappingDoc}
    (hrecord : record.log_uuid = some (P.newUuid k)) :
    scriptLog dir
        { fileName := .str name, log_uuid := P.newUuid k, memory := memory } =
        some (endpointLog P record) ↔
      (∀ c ∈ name.toList, isBlank c = false) ∧
        Ruby.toText P.table record.filename = name := by
  have hafter : ∀ c ∈ '_' :: ((P.newUuid k).toList ++ ".log".toList),
      isBlank c = false := by
    have hsuffix : ∀ c ∈ ".log".toList, isBlank c = false :=
      unblank_of_all (by decide)
    intro c hc
    rcases List.mem_cons.mp hc with rfl | hc
    · decide
    · rcases List.mem_append.mp hc with hc | hc
      · exact isBlank_of_isUuidChar (h.characters k c hc)
      · exact hsuffix c hc
  have hredirect : ∀ path, redirect dir.found
      (logWord name.toList (P.newUuid k).toList) = some path ↔
        (∀ c ∈ name.toList, isBlank c = false) ∧
          path = logWord name.toList (P.newUuid k).toList := fun path =>
    redirect_eq_some_iff (unblank_of_all (by decide)) (by decide) hafter
      (by simp) (dir.own name.toList k)
  have hpath : fromListener (logWord name.toList (P.newUuid k).toList) =
      endpointLog P record ↔ Ruby.toText P.table record.filename = name := by
    rw [← String.toList_inj, fromListener_logWord, endpointLog_toList, hrecord,
      Option.getD_some]
    constructor
    · intro heq
      exact (String.toList_injective
        (List.append_cancel_left (List.append_cancel_right heq))).symm
    · rintro rfl
      rfl
  simp only [scriptLog, Option.map_eq_some_iff, hredirect]
  constructor
  · rintro ⟨path, ⟨hblank, rfl⟩, hsame⟩
    exact ⟨hblank, hpath.mp hsame⟩
  · rintro ⟨hblank, hsame⟩
    exact ⟨_, ⟨hblank, rfl⟩, hpath.mpr hsame⟩

/-! ## Events and their logs -/

/-- Nothing is promised for a dispatch that does not complete. -/
theorem namesLogsAlike_of_not_completes {params : Value} {e : Event}
    (hevent : readEvent params = .ok e)
    (hnone : ∀ d name content latest,
      ¬Completes P e w d name content latest) :
    NamesLogsAlike P w params := by
  intro e' d name content latest hevent' hcompletes
  obtain rfl := Except.ok.inj (hevent.symm.trans hevent')
  exact absurd hcompletes (hnone d name content latest)

theorem namesLogsAlike_iff {params : Value} {e : Event} {d latest : MappingDoc}
    {name : String} {content : Bytes} (hevent : readEvent params = .ok e)
    (hcompletes : Completes P e w d name content latest) :
    NamesLogsAlike P w params ↔
      (P.prints ("file::" ++ name) = true →
        (strFails (.str name) || strFails (d.memory.orElse (.int 128))) =
          false →
            (∀ c ∈ name.toList, isBlank c = false) ∧
              Ruby.toText P.table latest.filename = name) := by
  constructor
  · intro h
    exact h e d name content latest hevent hcompletes
  · intro h e' d' name' content' latest' hevent' hcompletes'
    obtain rfl := Except.ok.inj (hevent.symm.trans hevent')
    obtain ⟨rfl, rfl, rfl, rfl⟩ := hcompletes.unique hcompletes'
    exact h

/-- Different run records name different files. -/
theorem RunsIdentified.endpointLog_ne (h : RunsIdentified P w)
    (huuids : P.DrawsUuids) {d e : MappingDoc} (hd : d ∈ w.registry.mapping)
    (he : e ∈ w.registry.mapping) (hdrun : d.isRunRecord = true)
    (herun : e.isRunRecord = true) (hne : d ≠ e) :
    endpointLog P d ≠ endpointLog P e := by
  have hidentified : ∀ {a : MappingDoc}, a ∈ w.registry.mapping →
      a.isRunRecord = true → ∃ k, a.log_uuid = some (P.newUuid k) := by
    intro a ha hrun
    obtain ⟨u, hu⟩ := Option.isSome_iff_exists.mp hrun
    obtain ⟨k, -, hk⟩ := h.drawn u (List.mem_filterMap.mpr ⟨a, ha, hu⟩)
    exact ⟨k, hk ▸ hu⟩
  obtain ⟨j, hj⟩ := hidentified hd hdrun
  obtain ⟨k, hk⟩ := hidentified he herun
  refine huuids.endpointLog_ne hj hk ?_
  rintro rfl
  exact hne (h.eq_of_log_uuid hd he hj hk)

/-- A run is found exactly if its script writes to the file of its record. -/
theorem finds_run_iff (huuids : P.DrawsUuids) (dir : LogDirectory P)
    {e : Event} {d latest : MappingDoc} {name : String} {content : Bytes}
    (hcompletes : Completes P e w d name content latest) {w' : World}
    (hworld : w' = if P.prints ("file::" ++ name) then
        (w.dispatched P e d name content latest).startWorker d
          (P.newUuid w.uuids)
      else w.dispatched P e d name content latest) :
    (∀ record args, w'.registry.mapping = w.registry.mapping ++ [record] →
      w'.workers = w.workers ++ [args] →
        (strFails args.fileName || strFails args.memory) = false →
          scriptLog dir args = some (endpointLog P record)) ↔
      (P.prints ("file::" ++ name) = true →
        (strFails (.str name) || strFails (d.memory.orElse (.int 128))) =
          false →
            (∀ c ∈ name.toList, isBlank c = false) ∧
              Ruby.toText P.table latest.filename = name) := by
  cases hprints : P.prints ("file::" ++ name) with
  | false =>
      -- No thread is started.
      rw [hprints] at hworld
      subst hworld
      refine iff_of_true ?_ (by simp)
      intro record args _ hworkers
      simp [World.dispatched, World.handOver, World.recordRun, World.drawUuid,
        World.rewrite] at hworkers
  | true =>
      rw [hprints] at hworld
      subst hworld
      let record := w.registry.runRecord P latest (P.newUuid w.uuids)
      let worker : WorkerArgs :=
        { fileName := .str name
          log_uuid := P.newUuid w.uuids
          memory := d.memory.orElse (.int 128) }
      have hlog : scriptLog dir worker = some (endpointLog P record) ↔
          (∀ c ∈ name.toList, isBlank c = false) ∧
            Ruby.toText P.table latest.filename = name :=
        scriptLog_eq_iff huuids dir rfl
      have hworker : ((w.dispatched P e d name content latest).startWorker d
          (P.newUuid w.uuids)).workers = w.workers ++ [worker] := by
        simp only [World.startWorker, hcompletes.filename]
        rfl
      constructor
      · intro h _ hexecuted
        exact hlog.mp (h record worker rfl hworker hexecuted)
      · intro h record' worker' hmapping hworkers hexecuted
        obtain rfl := List.singleton_inj.mp (List.append_cancel_left hmapping)
        obtain rfl := List.singleton_inj.mp
          (List.append_cancel_left (hworker.symm.trans hworkers))
        exact hlog.mpr (h rfl hexecuted)

/-- The endpoint finds the log of the run of an event, and the logs of
different runs have different names, exactly if the two programs take the name
of the function from documents that agree in it, and it has no blanks. -/
theorem finds_logs_iff (hw : Reachable P w) (huuids : P.DrawsUuids)
    (dir : LogDirectory P) (params : Value) :
    FindsLogs P dir w (exec P w (.event params)) ↔
      NamesLogsAlike P w params := by
  have hfound : (∀ record args,
      (exec P w (.event params)).registry.mapping =
          w.registry.mapping ++ [record] →
        (exec P w (.event params)).workers = w.workers ++ [args] →
          (strFails args.fileName || strFails args.memory) = false →
            scriptLog dir args = some (endpointLog P record)) ↔
      NamesLogsAlike P w params := by
    rw [exec_event]
    cases hevent : readEvent params with
    | error x =>
        refine iff_of_true ?_ ?_
        · intro record args hmapping
          simp at hmapping
        · intro e d name content latest hok
          simp [hevent] at hok
    | ok e =>
        rcases (dispatch_run P e w).completed_cases with
          ⟨d, name, content, latest, hcompletes, hworld⟩ |
            ⟨hnone, hsame, -, -, -⟩
        · exact (finds_run_iff huuids dir hcompletes hworld).trans
            (namesLogsAlike_iff hevent hcompletes).symm
        · refine iff_of_true ?_ (namesLogsAlike_of_not_completes hevent hnone)
          intro record args hmapping
          simp [hsame] at hmapping
  constructor
  · intro h
    exact hfound.mp h.found
  · intro h
    refine ⟨hfound.mpr h, ?_⟩
    intro d hd e he hdrun herun hne
    exact ((hw.exec (.event params)).runsIdentified huuids).endpointLog_ne
      huuids hd he hdrun herun hne

theorem drawsUuids_default : Platform.DrawsUuids default where
  injective := by
    intro j k hsame
    have hdigits := List.append_cancel_left
      ((List.append_assoc ..).symm.trans
        ((String.ofList_inj.mp hsame).trans (List.append_assoc ..)))
    have hvalue := congrArg (Nat.ofDigitChars 10 · 0) hdigits
    simpa [Nat.ofDigitChars_append, Nat.ofDigitChars_replicate_zero] using hvalue
  characters := by
    have hprefix : ∀ c ∈ "00000000-0000-4000-8000-".toList,
        isUuidChar c = true := List.all_eq_true.mp (by decide)
    intro k c hc
    have huuid : ((default : Platform).newUuid k).toList =
        "00000000-0000-4000-8000-".toList ++
          List.replicate (12 - (Nat.toDigits 10 k).length) '0' ++
            Nat.toDigits 10 k := String.toList_ofList
    rw [huuid] at hc
    rcases List.mem_append.mp hc with hc | hc
    · rcases List.mem_append.mp hc with hc | hc
      · exact hprefix c hc
      · rw [List.eq_of_mem_replicate hc]
        decide
    · simp [isUuidChar, Nat.isDigit_of_mem_toDigits (by decide) (by decide) hc]

theorem finds_logs_iff_oneFunction :
    Reachable default oneFunction ∧ Platform.DrawsUuids default ∧
      (FindsLogs default default oneFunction
          (exec default oneFunction
            (.event (samplePayload "testUser" "test.py"))) ↔
        NamesLogsAlike default oneFunction
          (samplePayload "testUser" "test.py")) :=
  ⟨oneFunction_reachable, drawsUuids_default,
    finds_logs_iff oneFunction_reachable drawsUuids_default default
      (samplePayload "testUser" "test.py")⟩

/-- A registered function with a blank in its name. -/
def blankFunction : World :=
  runAll (exec default) {}
    [.fileupload (.str "testUser") "my test.py" [112, 97, 115, 115],
      .post (.sample "testUser" "my test.py")]

/-- The script does not execute the function, as the redirection of its output
is ambiguous; the endpoint looks for a file with the blank in its name. -/
theorem blank_leaves_no_log :
    Reachable default blankFunction ∧
      ¬FindsLogs default default blankFunction
        (exec default blankFunction
          (.event (samplePayload "testUser" "my test.py"))) := by
  refine ⟨⟨_, rfl⟩, ?_⟩
  intro h
  have hlog := h.found _ _ rfl rfl (by decide)
  revert hlog
  decide

end LambdaOnOpenStack
