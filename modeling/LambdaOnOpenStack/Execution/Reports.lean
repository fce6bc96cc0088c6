import LambdaOnOpenStack.Execution.Attempts

/-!
# What a worker prints

`__execute_lambda` with its `print` statements.  Without them it is the program
that `executeLambda` models.  The output of an attempt is looked at when the
next one would be made, which the last one is not followed by.
-/

namespace LambdaOnOpenStack

open Support

/-! ## The print statements -/

/-- The `print` statements of `__execute_lambda`. -/
inductive Report where
  | uuid (log_uuid : String)
  | output (perm : Bytes)
  | sleeping
  | retrying
  | deployed (fileName : String)
  | rule
  deriving DecidableEq

def Report.text : Report → Bytes
  | uuid log_uuid => ascii log_uuid
  | output perm => perm
  | sleeping => ascii "sleeping for 15 seconds."
  | retrying => ascii "retrying to create container and execute the lambda."
  | deployed fileName =>
      ascii "deployed and executed the lambda function: " ++ ascii fileName
  | rule => List.replicate 75 43

/-- The attempts so far, and what has been printed. -/
structure WorkerReport where
  worker : WorkerState := {}
  printed : List Report := []
  deriving DecidableEq

/-- What stands on the output of the listener. -/
def WorkerReport.stdout (s : WorkerReport) : Bytes :=
  s.printed.flatMap fun report => echo report.text

/-- The announcement can be read on the output. -/
theorem deployed_infix_stdout {s : WorkerReport} {fileName : String}
    (h : .deployed fileName ∈ s.printed) :
    ascii "deployed and executed the lambda function: " <:+: s.stdout := by
  obtain ⟨before, after, hprinted⟩ := List.append_of_mem h
  refine ⟨before.flatMap fun report => echo report.text,
    ascii fileName ++ [10] ++ after.flatMap fun report => echo report.text, ?_⟩
  rw [WorkerReport.stdout, hprinted, List.flatMap_append, List.flatMap_cons,
    Report.text, echo]
  simp only [List.append_assoc]

abbrev Reporter := Program WorkerReport WorkerError

def say (report : Report) : Reporter Unit :=
  Program.modify fun s => { s with printed := s.printed ++ [report] }

/-- Nothing is printed. -/
def quietly {α : Type} (p : Worker α) : Reporter α :=
  p.onPart WorkerReport.worker fun w s => { s with worker := w }

/-- The `while` loop. -/
def retryLoopReported (docker : ℕ → Attempt) (args : WorkerArgs)
    (fileName : String) : (left : ℕ) → (perm : Bytes) → Reporter Unit
  | 0, _ => .done ()
  | left + 1, perm =>
      if marker <:+: perm then do
        say .sleeping
        say .retrying
        let perm ← quietly (checkOutput docker args)
        retryLoopReported docker args fileName left perm
      else do
        say (.deployed fileName)
        say (.output perm)

/-- The arguments of a thread; the file name is text, because
`deploy_and_execute_docker` has printed it behind `file::`. -/
def workerArgs (fileName log_uuid : String) (memory : Value) : WorkerArgs where
  fileName := .str fileName
  log_uuid := log_uuid
  memory := memory

def executeLambdaReported (docker : ℕ → Attempt) (fileName log_uuid : String)
    (memory : Value) : Reporter Unit := do
  let args := workerArgs fileName log_uuid memory
  say (.uuid log_uuid)
  let perm ← quietly (checkOutput docker args)
  say (.output perm)
  retryLoopReported docker args fileName 10 perm
  say .rule

/-! ## Without the print statements -/

/-- `p` does what `q` does, and prints. -/
def Erases {α : Type} (p : Reporter α) (q : Worker α) : Prop :=
  ∀ s, (p.run s).1 = (q.run s.worker).1 ∧
    (p.run s).2.worker = (q.run s.worker).2

section Erasure

variable {α β : Type} {docker : ℕ → Attempt} {args : WorkerArgs}

theorem run_quietly (p : Worker α) (s : WorkerReport) :
    (quietly p).run s =
      ((p.run s.worker).1, { s with worker := (p.run s.worker).2 }) := by
  rw [quietly, Program.run_onPart]
  · exact fun _ _ => rfl
  · exact fun _ _ _ => rfl
  · exact fun _ => rfl

theorem Erases.say_bind {p : Reporter α} {q : Worker α} {report : Report}
    (h : Erases p q) : Erases (say report >>= fun _ => p) q := by
  intro s
  exact h _

theorem Erases.bind {p : Reporter α} {q : Worker α} {f : α → Reporter β}
    {g : α → Worker β} (hp : Erases p q) (hf : ∀ a, Erases (f a) (g a)) :
    Erases (p >>= f) (q >>= g) := by
  intro s
  obtain ⟨hresult, hworker⟩ := hp s
  rw [Program.run_bind, Program.run_bind]
  generalize p.run s = outcome at hresult hworker ⊢
  generalize q.run s.worker = outcome' at hresult hworker ⊢
  obtain ⟨result, s'⟩ := outcome
  obtain ⟨result', w'⟩ := outcome'
  obtain rfl : result = result' := hresult
  obtain rfl : s'.worker = w' := hworker
  cases result with
  | ok a => exact hf a s'
  | error e => exact ⟨rfl, rfl⟩

theorem erases_quietly (p : Worker α) : Erases (quietly p) p := by
  intro s
  rw [run_quietly]
  exact ⟨rfl, rfl⟩

theorem erases_say (report : Report) : Erases (say report) (.done ()) := by
  intro s
  exact ⟨rfl, rfl⟩

theorem erases_retryLoop (docker : ℕ → Attempt) (args : WorkerArgs)
    (fileName : String) (left : ℕ) (perm : Bytes) :
    Erases (retryLoopReported docker args fileName left perm)
      (retryLoop docker args left perm) := by
  induction left generalizing perm with
  | zero => exact fun s => ⟨rfl, rfl⟩
  | succ left ih =>
      rw [retryLoopReported, retryLoop]
      split
      · exact ((erases_quietly _).bind ih).say_bind.say_bind
      · exact (erases_say _).say_bind

/-- Without its print statements the worker is `executeLambda`. -/
theorem erases_executeLambda (docker : ℕ → Attempt) (fileName log_uuid : String) (memory : Value) :
    Erases (executeLambdaReported docker fileName log_uuid memory)
      (executeLambda docker (workerArgs fileName log_uuid memory)) := by
  have hloop (perm : Bytes) :
      Erases (retryLoopReported docker (workerArgs fileName log_uuid memory)
          fileName 10 perm >>= fun _ => say .rule)
        (retryLoop docker (workerArgs fileName log_uuid memory) 10 perm) := by
    have hbind := (erases_retryLoop docker
      (workerArgs fileName log_uuid memory) fileName 10 perm).bind
        fun _ => erases_say .rule
    rwa [Program.bind_done] at hbind
  exact ((erases_quietly _).bind fun perm => (hloop perm).say_bind).say_bind

end Erasure

/-! ## The last attempt -/

/-- Attempt `k` is made: the ones before it exited with zero and printed the
marker. -/
def Made (docker : ℕ → Attempt) (k : ℕ) : Prop :=
  k ≤ 10 ∧ ∀ j < k, (docker j).retried = true

/-- The attempt has not printed the marker. -/
def Attempt.lacksMarker (docker : Attempt) : Prop :=
  ¬marker <:+: (swarmExec docker).output

instance (docker : Attempt) : Decidable docker.lacksMarker :=
  inferInstanceAs (Decidable (¬_))

/-- The last attempt is number `last`, and the announcement has been printed
since `before` exactly if it exited with zero and without the marker, and
another one could have been made. -/
structure EndsWith (docker : ℕ → Attempt) (fileName : String)
    (before s : WorkerReport) (last : ℕ) : Prop where
  attempts : s.worker.attempts = last + 1
  made : Made docker last
  stopped : last < 10 → (docker last).retried = false
  announced : Report.deployed fileName ∈ s.printed ↔
    Report.deployed fileName ∈ before.printed ∨
      (swarmExec (docker last)).status = 0 ∧ (docker last).lacksMarker ∧
        last < 10

section Loop

variable {docker : ℕ → Attempt} {fileName log_uuid : String} {memory : Value}

theorem run_quietly_checkOutput_bind {args : WorkerArgs}
    (hargs : (strFails args.fileName || strFails args.memory) = false)
    (f : Bytes → Reporter Unit) (s : WorkerReport) :
    ((quietly (checkOutput docker args) >>= f).run s) =
      let perm := swarmExec (docker s.worker.attempts)
      let s' : WorkerReport :=
        { s with
          worker :=
            { attempts := s.worker.attempts + 1
              starts := s.worker.starts + perm.started.toNat } }
      if perm.status = 0 then (f perm.output).run s'
      else (.error (.calledProcessError perm.status), s') := by
  rw [Program.run_bind, run_quietly]
  simp only [checkOutput, hargs, Bool.false_eq_true, ↓reduceIte,
    Program.run_atomic]
  split_ifs <;> rfl

theorem retried_iff {a : Attempt} :
    a.retried = true ↔ (swarmExec a).status = 0 ∧ ¬a.lacksMarker := by
  simp [Attempt.retried, Attempt.lacksMarker]

theorem Made.next {k : ℕ} (h : Made docker k) (hk : k < 10)
    (hretried : (docker k).retried = true) : Made docker (k + 1) := by
  refine ⟨hk, ?_⟩
  intro j hj
  rcases Nat.lt_succ_iff_lt_or_eq.mp hj with hj | rfl
  · exact h.2 j hj
  · exact hretried

/-- The loop behind attempt `k`, which has exited with zero. -/
theorem run_retryLoopReported (docker : ℕ → Attempt) (fileName : String)
    {args : WorkerArgs}
    (hargs : (strFails args.fileName || strFails args.memory) = false)
    {left k : ℕ} (hleft : k + left = 10) {s : WorkerReport}
    (hmade : Made docker k) (hattempts : s.worker.attempts = k + 1)
    (hstatus : (swarmExec (docker k)).status = 0) :
    ∃ last, EndsWith docker fileName s
      ((retryLoopReported docker args fileName left
        (swarmExec (docker k)).output).run s).2 last := by
  induction left generalizing k s with
  | zero =>
      refine ⟨k, hattempts, hmade, ?_, ?_⟩
      · intro hlt
        omega
      · have hlast : ¬k < 10 := by omega
        simp [retryLoopReported, hlast]
  | succ left ih =>
      rw [retryLoopReported]
      split
      · rename_i hmarker
        have hretried : (docker k).retried = true :=
          retried_iff.mpr ⟨hstatus, not_not.mpr hmarker⟩
        have hnext := hmade.next (by omega) hretried
        simp only [say, Program.run_modify_bind,
          run_quietly_checkOutput_bind hargs, hattempts]
        by_cases hstatus' : (swarmExec (docker (k + 1))).status = 0
        · simp only [hstatus', ↓reduceIte]
          obtain ⟨last, hlast⟩ := ih (k := k + 1)
            (s :=
              { worker :=
                  { attempts := k + 1 + 1
                    starts := s.worker.starts +
                      (swarmExec (docker (k + 1))).started.toNat }
                printed := s.printed ++ [.sleeping] ++ [.retrying] })
            (by omega) hnext rfl hstatus'
          refine ⟨last, hlast.attempts, hlast.made, hlast.stopped, ?_⟩
          rw [hlast.announced]
          simp
        · have hstopped : (docker (k + 1)).retried = false := by
            simp [Attempt.retried, hstatus']
          simp only [hstatus', ↓reduceIte]
          refine ⟨k + 1, rfl, hnext, fun _ => hstopped, ?_⟩
          simp [hstatus']
      · rename_i hmarker
        have hstopped : (docker k).retried = false := by
          simp [Attempt.retried, hmarker]
        have hlt : k < 10 := by omega
        refine ⟨k, hattempts, hmade, fun _ => hstopped, ?_⟩
        simp [say, hstatus, Attempt.lacksMarker, hmarker, hlt]

/-- Another line is printed, which is not the announcement. -/
theorem EndsWith.say_bind {before s : WorkerReport} {last : ℕ}
    {p : Reporter Unit} (h : EndsWith docker fileName before (p.run s).2 last)
    {report : Report} (hreport : report ≠ .deployed fileName) :
    EndsWith docker fileName before
      ((p >>= fun _ => say report).run s).2 last := by
  rw [Program.run_bind]
  generalize p.run s = outcome at h
  obtain ⟨result, s'⟩ := outcome
  cases result with
  | error e => exact h
  | ok a =>
      refine ⟨h.attempts, h.made, h.stopped, ?_⟩
      rw [← h.announced]
      simp [say, hreport.symm]

/-- There is a last attempt, unless `str` fails for an argument. -/
theorem run_executeLambdaReported (docker : ℕ → Attempt) (log_uuid : String)
    (hargs : (strFails (.str fileName) || strFails memory) = false) :
    ∃ last, EndsWith docker fileName {}
      ((executeLambdaReported docker fileName log_uuid memory).run {}).2 last := by
  have hargs' : (strFails (workerArgs fileName log_uuid memory).fileName ||
      strFails (workerArgs fileName log_uuid memory).memory) = false := hargs
  have hfirst : Made docker 0 := ⟨Nat.zero_le _, by simp⟩
  rw [executeLambdaReported, say, Program.run_modify_bind,
    run_quietly_checkOutput_bind hargs']
  by_cases hstatus : (swarmExec (docker 0)).status = 0
  · obtain ⟨last, hlast⟩ := run_retryLoopReported docker fileName
      hargs' (k := 0)
      (s :=
        { worker :=
            { attempts := 0 + 1
              starts := 0 + (swarmExec (docker 0)).started.toNat }
          printed := [.uuid log_uuid] ++ [.output (swarmExec (docker 0)).output] })
      (Nat.zero_add 10) hfirst rfl hstatus
    have hrule := hlast.say_bind
      (show Report.rule ≠ .deployed fileName by simp)
    simp only [hstatus, ↓reduceIte]
    refine ⟨last, hrule.attempts, hrule.made, hrule.stopped, ?_⟩
    have hannounced := hrule.announced
    simp only [List.cons_append, List.nil_append, List.mem_cons,
      List.not_mem_nil, reduceCtorEq, or_false, false_or] at hannounced ⊢
    exact hannounced
  · have hstopped : (docker 0).retried = false := by
      simp [Attempt.retried, hstatus]
    simp only [hstatus, ↓reduceIte]
    refine ⟨0, rfl, hfirst, fun _ => hstopped, ?_⟩
    simp [hstatus]

theorem EndsWith.made_iff {before s : WorkerReport} {last k : ℕ}
    (h : EndsWith docker fileName before s last) :
    Made docker k ↔ k < s.worker.attempts := by
  rw [h.attempts, Nat.lt_succ_iff]
  constructor
  · rintro ⟨hk, hbefore⟩
    by_contra hlater
    have hretried := hbefore last (by omega)
    rw [h.stopped (by omega)] at hretried
    exact Bool.false_ne_true hretried
  · intro hk
    exact ⟨hk.trans h.made.1, fun j hj => h.made.2 j (by omega)⟩

/-- An attempt that has not printed the marker is the last one. -/
theorem EndsWith.eq_of_lacksMarker {before s : WorkerReport} {last k : ℕ}
    (h : EndsWith docker fileName before s last) (hk : Made docker k)
    (hlacks : (docker k).lacksMarker) : k = last := by
  have hle := h.made_iff.mp hk
  rw [h.attempts] at hle
  by_contra hne
  have hretried := h.made.2 k (by omega)
  exact (retried_iff.mp hretried).2 hlacks

/-- Nothing is printed but the identifier when `str` fails for an argument. -/
theorem run_executeLambdaReported_strFails
    (hargs : (strFails (.str fileName) || strFails memory) = true) :
    ((executeLambdaReported docker fileName log_uuid memory).run {}).2 =
      { printed := [.uuid log_uuid] } := by
  have hargs' : (strFails (workerArgs fileName log_uuid memory).fileName ||
      strFails (workerArgs fileName log_uuid memory).memory) = true := hargs
  rw [executeLambdaReported, say, Program.run_modify_bind, Program.run_bind,
    run_quietly]
  simp [checkOutput, hargs']

end Loop

/-! ## The outcome that is reported -/

/-- No attempt follows one without the marker, there are at most eleven, and
the announcement is printed exactly if the last one has no marker. -/
structure ReportsOutcome (docker : ℕ → Attempt) (fileName : String)
    (s : WorkerReport) : Prop where
  stops : ∀ k, k + 1 < s.worker.attempts → ¬(docker k).lacksMarker
  bounded : s.worker.attempts ≤ 11
  announced : Report.deployed fileName ∈ s.printed ↔
    ∃ last, s.worker.attempts = last + 1 ∧ (docker last).lacksMarker

/-- The script is not executed at all, or an attempt that is made and prints no
marker exits with zero and is not the eleventh. -/
def SucceedsInTime (docker : ℕ → Attempt) (fileName : String)
    (memory : Value) : Prop :=
  (strFails (.str fileName) || strFails memory) = true ∨
    ∀ k, Made docker k → (docker k).lacksMarker →
      (swarmExec (docker k)).status = 0 ∧ k < 10

theorem reportsOutcome_iff (docker : ℕ → Attempt) (fileName log_uuid : String)
    (memory : Value) :
    ReportsOutcome docker fileName
        ((executeLambdaReported docker fileName log_uuid memory).run {}).2 ↔
      SucceedsInTime docker fileName memory := by
  cases hargs : strFails (.str fileName) || strFails memory with
  | true =>
      rw [run_executeLambdaReported_strFails hargs]
      refine iff_of_true ⟨by simp, by simp, by simp⟩ (Or.inl hargs)
  | false =>
      obtain ⟨last, hlast⟩ := run_executeLambdaReported docker log_uuid
        hargs
      generalize ((executeLambdaReported docker fileName log_uuid memory).run
        {}).2 = s at hlast ⊢
      have hannounced : Report.deployed fileName ∈ s.printed ↔
          (swarmExec (docker last)).status = 0 ∧ (docker last).lacksMarker ∧
            last < 10 := by simpa using hlast.announced
      simp only [SucceedsInTime, hargs, Bool.false_eq_true, false_or]
      constructor
      · intro h k hk hlacks
        obtain rfl := hlast.eq_of_lacksMarker hk hlacks
        obtain ⟨hstatus, -, hlt⟩ := hannounced.mp
          (h.announced.mpr ⟨k, hlast.attempts, hlacks⟩)
        exact ⟨hstatus, hlt⟩
      · intro h
        refine ⟨?_, ?_, ?_⟩
        · intro k hk
          rw [hlast.attempts] at hk
          exact (retried_iff.mp (hlast.made.2 k (by omega))).2
        · have hbound := hlast.made.1
          rw [hlast.attempts]
          omega
        · rw [hannounced]
          constructor
          · rintro ⟨-, hlacks, -⟩
            exact ⟨last, hlast.attempts, hlacks⟩
          · rintro ⟨last', hattempts, hlacks⟩
            obtain rfl : last = last' := by
              rw [hlast.attempts] at hattempts
              omega
            obtain ⟨hstatus, hlt⟩ := h last hlast.made hlacks
            exact ⟨hstatus, hlacks, hlt⟩

/-- The cluster has no room for ten attempts; the eleventh succeeds. -/
def eleventhSucceeds (k : ℕ) : Attempt :=
  if k < 10 then
    { Attempt.sample "" with
      created := ascii "Error response from daemon: no resources available\n" }
  else .sample ""

/-- The output of the eleventh attempt is not looked at. -/
theorem eleventh_success_not_announced :
    ¬ReportsOutcome eleventhSucceeds "test.py"
      ((executeLambdaReported eleventhSucceeds "test.py" "8f5a4b1e"
        (.str "256")).run {}).2 := by
  intro h
  have hend : ((executeLambdaReported eleventhSucceeds "test.py" "8f5a4b1e"
        (.str "256")).run {}).2.worker.attempts = 11 ∧
      (eleventhSucceeds 10).lacksMarker ∧
      Report.deployed "test.py" ∉ ((executeLambdaReported eleventhSucceeds
        "test.py" "8f5a4b1e" (.str "256")).run {}).2.printed := by
    decide +kernel
  exact hend.2.2 (h.announced.mpr ⟨10, hend.1, hend.2.1⟩)

end LambdaOnOpenStack
