import LambdaOnOpenStack.Registry.Documents
import LambdaOnOpenStack.Support.Program
import Mathlib.Data.List.Infix

/-!
# The attempts of a worker

`swarm_exec.sh` creates a container and executes the function in it, or prints
a marker when the creation failed.  `__execute_lambda` looks for the marker in
everything that the script has printed, and makes another attempt when it is
there.  What docker does in an attempt, and what it prints, is arbitrary.
-/

namespace LambdaOnOpenStack

open Support

/-! ## Texts of the shell -/

def ascii (text : String) : Bytes :=
  text.toList.map fun c => UInt8.ofNat c.toNat

/-- `echo` of one text. -/
def echo (text : Bytes) : Bytes := text ++ [10]

/-- The words into which the shell splits an unquoted text. -/
def splitWords (text : Bytes) : List Bytes :=
  (text.splitOnP fun b => b = 32 || b = 9 || b = 10).filter (· ≠ [])

/-- The words as `echo` prints them. -/
def joinWords (words : List Bytes) : Bytes := List.intercalate [32] words

/-- What `__execute_lambda` looks for. -/
def marker : Bytes := ascii "ERROR:::"

/-! ## swarm_exec.sh -/

/-- What happens in one execution of the script: what each command prints to
its two outputs, whether `docker exec` starts the process of the function, what
that process prints, and how the last command exits. -/
structure Attempt where
  lookups : Bytes
  created : Bytes
  inspect : Bytes
  scp : Bytes
  start : Bytes
  install : Bytes
  starts : Bool
  stdout : Bytes
  stderr : Bytes
  stop : Bytes
  rm : Bytes
  rmStatus : ℕ
  deriving DecidableEq

/-- What the caller of the script sees, and what it leaves behind. -/
structure ScriptRun where
  output : Bytes
  status : ℕ
  started : Bool
  log : Option Bytes
  deriving DecidableEq

def swarmExec (docker : Attempt) : ScriptRun :=
  let CONT_ID := splitWords docker.created
  let OUT := CONT_ID[1]?.getD []
  let before :=
    docker.lookups ++ echo (ascii "Exceuting docker swarm") ++
      echo (joinWords CONT_ID)
  if OUT = [] then
    -- The assignment in front of `docker exec` is for that command only, so
    -- the text that is printed after it is still the empty one.
    { output :=
        before ++ docker.inspect ++ docker.scp ++ docker.start ++
          docker.install ++ echo (ascii "::::::Begining Code Execution:::::::") ++
          docker.stderr ++ echo OUT ++
          echo (ascii "::::::Log file copying to Master::::::") ++
          echo (ascii "::::::Execution ends::::::") ++ docker.stop ++ docker.rm
      status := docker.rmStatus
      started := docker.starts
      log := some docker.stdout }
  else
    { output := before ++ echo (marker ++ joinWords CONT_ID)
      status := 0
      started := false
      log := none }

/-! ## Provision.py -/

inductive WorkerError where
  | calledProcessError (returncode : ℕ)
  | unicodeEncodeError
  deriving DecidableEq

/-- How often the worker has executed the script, and how often the script has
started the process of the function. -/
structure WorkerState where
  attempts : ℕ := 0
  starts : ℕ := 0
  deriving DecidableEq

abbrev Worker := Program WorkerState WorkerError

/-- `str` fails for a text with a character that is not ASCII. -/
def strFails : Value → Bool
  | .str s => s.toList.any fun c => 128 ≤ c.toNat
  | _ => false

/-- `check_output` for the script. -/
def checkOutput (docker : ℕ → Attempt) (args : WorkerArgs) : Worker Bytes :=
  if strFails args.fileName || strFails args.memory then
    .raised .unicodeEncodeError
  else
    .atomic
      (fun s =>
        { attempts := s.attempts + 1
          starts := s.starts + (swarmExec (docker s.attempts)).started.toNat })
      fun s =>
        let perm := swarmExec (docker s.attempts)
        if perm.status = 0 then .done perm.output
        else .raised (.calledProcessError perm.status)

/-- The `while` loop, with `left` iterations until `n` is ten. -/
def retryLoop (docker : ℕ → Attempt) (args : WorkerArgs) :
    (left : ℕ) → (perm : Bytes) → Worker Unit
  | 0, _ => .done ()
  | left + 1, perm =>
      if marker <:+: perm then do
        let perm ← checkOutput docker args
        retryLoop docker args left perm
      else .done ()

def executeLambda (docker : ℕ → Attempt) (args : WorkerArgs) : Worker Unit := do
  let perm ← checkOutput docker args
  retryLoop docker args 10 perm

/-! ## When an attempt is followed by another one -/

/-- The attempt exits with zero and has printed the marker. -/
def Attempt.retried (docker : Attempt) : Bool :=
  (swarmExec docker).status = 0 && decide (marker <:+: (swarmExec docker).output)

/-- The attempt starts the process of the function. -/
def Attempt.executes (docker : Attempt) : Bool := (swarmExec docker).started

/-- An attempt that creates no container starts nothing and asks for another
one. -/
theorem retried_of_not_created {docker : Attempt}
    (hword : (splitWords docker.created)[1]?.getD [] ≠ []) :
    docker.retried = true ∧ docker.executes = false := by
  have hmarker : marker <:+: (swarmExec docker).output := by
    simp only [swarmExec, hword, ↓reduceIte, echo]
    rw [List.append_assoc marker]
    exact (List.prefix_append marker _).isInfix.trans (List.suffix_append _ _).isInfix
  constructor
  · rw [Attempt.retried, Bool.and_eq_true]
    refine ⟨?_, decide_eq_true hmarker⟩
    simp [swarmExec, hword]
  · simp [Attempt.executes, swarmExec, hword]

/-! ## Counting the starts -/

/-- The number of starts in the attempts from number `k` on, of which at most
`left` are made. -/
def countStarts (docker : ℕ → Attempt) : (left k : ℕ) → ℕ
  | 0, _ => 0
  | left + 1, k =>
      (docker k).executes.toNat +
        if (docker k).retried then countStarts docker left (k + 1) else 0

variable {docker : ℕ → Attempt} {args : WorkerArgs}

theorem run_checkOutput_bind
    (hargs : (strFails args.fileName || strFails args.memory) = false)
    (f : Bytes → Worker Unit) (s : WorkerState) :
    ((checkOutput docker args >>= f).run s) =
      let perm := swarmExec (docker s.attempts)
      let s' : WorkerState :=
        { attempts := s.attempts + 1, starts := s.starts + perm.started.toNat }
      if perm.status = 0 then (f perm.output).run s'
      else (.error (.calledProcessError perm.status), s') := by
  simp only [checkOutput, hargs, Bool.false_eq_true, ↓reduceIte,
    Program.atomic_bind, Program.run_atomic]
  split <;> rfl

/-- One attempt and the loop behind it count the starts. -/
theorem run_attempts
    (hargs : (strFails args.fileName || strFails args.memory) = false)
    (left : ℕ) (s : WorkerState) :
    ((checkOutput docker args >>= retryLoop docker args left).run s).2.starts =
      s.starts + countStarts docker (left + 1) s.attempts := by
  induction left generalizing s with
  | zero =>
      rw [run_checkOutput_bind hargs]
      by_cases hstatus : (swarmExec (docker s.attempts)).status = 0
      · simp [hstatus, retryLoop, countStarts, Attempt.executes]
      · simp [hstatus, countStarts, Attempt.executes]
  | succ left ih =>
      rw [run_checkOutput_bind hargs, countStarts]
      by_cases hstatus : (swarmExec (docker s.attempts)).status = 0
      · by_cases hmarker : marker <:+: (swarmExec (docker s.attempts)).output
        · have hretried : (docker s.attempts).retried = true := by
            simp [Attempt.retried, hstatus, hmarker]
          simp only [hstatus, ↓reduceIte, retryLoop, hmarker, hretried]
          rw [ih, Attempt.executes, Nat.add_assoc]
        · have hretried : (docker s.attempts).retried = false := by
            simp [Attempt.retried, hmarker]
          simp [hstatus, retryLoop, hmarker, hretried, Attempt.executes]
      · have hretried : (docker s.attempts).retried = false := by
          simp [Attempt.retried, hstatus]
        simp [hstatus, hretried, Attempt.executes]

/-- Nothing is executed when `str` fails for an argument. -/
theorem run_executeLambda_strFails
    (hargs : (strFails args.fileName || strFails args.memory) = true)
    (s : WorkerState) :
    ((executeLambda docker args).run s).2 = s := by
  simp only [executeLambda, checkOutput, hargs, ↓reduceIte, Program.raised_bind,
    Program.run_raised]

/-- The loop that has come to attempt `k` does not come to attempt `j`. -/
def StopsBefore (docker : ℕ → Attempt) (k j : ℕ) : Prop :=
  ∃ m, k ≤ m ∧ m < j ∧ (docker m).retried = false

theorem stopsBefore_of_not_retried {k j : ℕ} (hkj : k < j)
    (hk : (docker k).retried = false) : StopsBefore docker k j :=
  ⟨k, le_rfl, hkj, hk⟩

theorem stopsBefore_succ_iff {k j : ℕ} (hk : (docker k).retried = true) :
    StopsBefore docker (k + 1) j ↔ StopsBefore docker k j := by
  constructor
  · rintro ⟨m, hkm, hmj, hm⟩
    exact ⟨m, by omega, hmj, hm⟩
  · rintro ⟨m, hkm, hmj, hm⟩
    have hne : m ≠ k := by
      rintro rfl
      simp [hk] at hm
    exact ⟨m, by omega, hmj, hm⟩

/-- Nothing is counted exactly if no attempt that starts the process is made. -/
theorem countStarts_eq_zero_iff (left k : ℕ) :
    countStarts docker left k = 0 ↔
      ∀ j, k ≤ j → j < k + left → (docker j).executes = true →
        StopsBefore docker k j := by
  induction left generalizing k with
  | zero =>
      constructor
      · intro _ j hkj hj
        omega
      · intro _
        rfl
  | succ left ih =>
      rw [countStarts, Nat.add_eq_zero_iff]
      constructor
      · rintro ⟨hfirst, hrest⟩ j hkj hj hexecutes
        have hlt : k < j := by
          refine lt_of_le_of_ne hkj ?_
          rintro rfl
          simp [hexecutes] at hfirst
        cases hretried : (docker k).retried with
        | false => exact stopsBefore_of_not_retried hlt hretried
        | true =>
            simp only [hretried, ↓reduceIte] at hrest
            rw [← stopsBefore_succ_iff hretried]
            exact (ih (k + 1)).mp hrest j hlt (by omega) hexecutes
      · intro hstops
        constructor
        · cases hexecutes : (docker k).executes with
          | false => rfl
          | true =>
              obtain ⟨m, hkm, hmk, -⟩ := hstops k le_rfl (by omega) hexecutes
              omega
        · split
          · rename_i hretried
            refine (ih (k + 1)).mpr ?_
            intro j hkj hj hexecutes
            rw [stopsBefore_succ_iff hretried]
            exact hstops j (by omega) (by omega) hexecutes
          · rfl

/-- At most one start is counted exactly if, of any two attempts that would
start the process, the second is not made. -/
theorem countStarts_le_one_iff (left k : ℕ) :
    countStarts docker left k ≤ 1 ↔
      ∀ i j, k ≤ i → i < j → j < k + left → (docker i).executes = true →
        (docker j).executes = true → StopsBefore docker k j := by
  induction left generalizing k with
  | zero =>
      constructor
      · intro _ i j hki hij hj
        omega
      · intro _
        exact Nat.zero_le _
  | succ left ih =>
      rw [countStarts]
      cases hretried : (docker k).retried with
      | false =>
          constructor
          · intro _ i j hki hij _ _ _
            exact stopsBefore_of_not_retried (by omega) hretried
          · intro _
            simpa using Bool.toNat_le (docker k).executes
      | true =>
          simp only [↓reduceIte, ← stopsBefore_succ_iff hretried]
          cases hexecutes : (docker k).executes with
          | false =>
              rw [Bool.toNat_false, Nat.zero_add, ih]
              constructor
              · intro hrest i j hki hij hj hi
                have hne : i ≠ k := by
                  rintro rfl
                  simp [hexecutes] at hi
                exact hrest i j (by omega) hij (by omega) hi
              · intro hall i j hki hij hj
                exact hall i j (by omega) hij (by omega)
          | true =>
              have hone (n : ℕ) : 1 + n ≤ 1 ↔ n = 0 := by omega
              rw [Bool.toNat_true, hone, countStarts_eq_zero_iff]
              constructor
              · intro hnone i j hki hij hj _
                exact hnone j (by omega) (by omega)
              · intro hall j hkj hj
                exact hall k j le_rfl (by omega) (by omega) hexecutes

/-! ## At most one start -/

/-- The script is not executed at all, or of any two attempts that would start
the process, the second is not made. -/
def StopsAfterStart (docker : ℕ → Attempt) (args : WorkerArgs) : Prop :=
  (strFails args.fileName || strFails args.memory) = true ∨
    ∀ i j, i < j → j ≤ 10 → (docker i).executes = true →
      (docker j).executes = true → StopsBefore docker 0 j

theorem executeLambda_starts_le_one_iff (docker : ℕ → Attempt)
    (args : WorkerArgs) :
    ((executeLambda docker args).run {}).2.starts ≤ 1 ↔
      StopsAfterStart docker args := by
  cases hargs : strFails args.fileName || strFails args.memory with
  | true =>
      rw [run_executeLambda_strFails hargs]
      simp [StopsAfterStart, hargs]
  | false =>
      rw [executeLambda, run_attempts hargs, Nat.zero_add, countStarts_le_one_iff]
      simp only [StopsAfterStart, hargs, Bool.false_eq_true, false_or, Nat.zero_add]
      constructor
      · intro hstops i j hij hj
        exact hstops i j (Nat.zero_le _) hij (by omega)
      · intro hstops i j _ hij hj
        exact hstops i j hij (by omega)

/-- A container is created, and the function prints `stderr`. -/
def Attempt.sample (stderr : String) : Attempt where
  lookups := []
  created := ascii "4c01db0b339c\n"
  inspect := []
  scp := []
  start := ascii "4c01db0b339c\n"
  install := []
  starts := true
  stdout := []
  stderr := ascii stderr
  stop := ascii "4c01db0b339c\n"
  rm := ascii "4c01db0b339c\n"
  rmStatus := 0

/-- The function prints the marker as a part of its own error message. -/
theorem marker_of_function_restarts :
    ¬((executeLambda
        (fun k => .sample (if k = 0 then "ERROR::: no input" else ""))
        { fileName := .str "test.py"
          log_uuid := "8f5a4b1e"
          memory := .str "256" }).run {}).2.starts ≤ 1 := by
  decide +kernel

end LambdaOnOpenStack
