import LambdaOnOpenStack.Execution.Reports

/-!
# The containers that a worker leaves behind

`swarm_exec.sh` takes the text of `docker create`, warnings included, for an
error if it has more than one word, and removes the container otherwise.
-/

namespace LambdaOnOpenStack

open Support

/-! ## Containers and attempts -/

/-- An attempt with the container that `docker create` has created, if any;
its identifier is among the words that were printed. -/
structure ContainerAttempt extends Attempt where
  container : Option Bytes
  printed : ∀ id ∈ container, id ∈ splitWords created

/-- The containers after the attempt.  `docker rm -f` removes the container
that the only word of `CONT_ID` names; nothing is removed in the other
branch. -/
def ContainerAttempt.leaves (docker : ContainerAttempt)
    (containers : List Bytes) : List Bytes :=
  let containers := containers ++ docker.container.toList
  let CONT_ID := splitWords docker.created
  let OUT := CONT_ID[1]?.getD []
  if OUT = [] then containers.filter fun id => CONT_ID ≠ [id] else containers

/-- The containers that the first `n` attempts leave. -/
def containersAfter (docker : ℕ → ContainerAttempt) (n : ℕ) : List Bytes :=
  (List.range n).foldl (fun containers k => (docker k).leaves containers) []

variable {docker : ℕ → ContainerAttempt}

/-- A container stays unless the text consists of its identifier. -/
theorem mem_leaves_iff {docker : ContainerAttempt} {containers : List Bytes}
    {id : Bytes} :
    id ∈ docker.leaves containers ↔
      (id ∈ containers ∨ docker.container = some id) ∧
        splitWords docker.created ≠ [id] := by
  have hmem : id ∈ containers ++ docker.container.toList ↔
      id ∈ containers ∨ docker.container = some id := by simp
  simp only [ContainerAttempt.leaves]
  split
  · rw [List.mem_filter, hmem]
    simp
  · rename_i hword
    rw [hmem]
    refine (and_iff_left ?_).symm
    intro halone
    rw [halone] at hword
    exact hword rfl

theorem containersAfter_succ (n : ℕ) :
    containersAfter docker (n + 1) =
      (docker n).leaves (containersAfter docker n) := by
  rw [containersAfter, List.range_succ, List.foldl_append]
  rfl

/-- A container is left if no attempt from its own on prints its identifier
alone. -/
theorem mem_containersAfter_iff {n : ℕ} {id : Bytes} :
    id ∈ containersAfter docker n ↔
      ∃ k < n, (docker k).container = some id ∧
        ∀ j, k ≤ j → j < n → splitWords (docker j).created ≠ [id] := by
  induction n with
  | zero => simp [containersAfter]
  | succ n ih =>
      rw [containersAfter_succ, mem_leaves_iff, ih]
      constructor
      · rintro ⟨⟨k, hk, hcreated, hkept⟩ | hcreated, hlast⟩
        · refine ⟨k, by omega, hcreated, ?_⟩
          intro j hkj hj
          rcases Nat.lt_succ_iff_lt_or_eq.mp hj with hj | rfl
          · exact hkept j hkj hj
          · exact hlast
        · refine ⟨n, by omega, hcreated, ?_⟩
          intro j hnj hj
          obtain rfl : j = n := by omega
          exact hlast
      · rintro ⟨k, hk, hcreated, hkept⟩
        refine ⟨?_, hkept n (by omega) (by omega)⟩
        rcases Nat.lt_succ_iff_lt_or_eq.mp hk with hk | rfl
        · left
          exact ⟨k, hk, hcreated, fun j hkj hj => hkept j hkj (by omega)⟩
        · exact Or.inr hcreated

/-! ## After the last attempt -/

/-- The containers that are left when `__execute_lambda` is over. -/
def containersLeft (docker : ℕ → ContainerAttempt) (args : WorkerArgs) :
    List Bytes :=
  containersAfter docker
    ((executeLambda (fun k => (docker k).toAttempt) args).run {}).2.attempts

/-- The script is not executed at all, or of every container that an attempt
creates the identifier is printed alone, by this attempt or by a later one. -/
def PrintsIdsAlone (docker : ℕ → ContainerAttempt) (fileName : String)
    (memory : Value) : Prop :=
  (strFails (.str fileName) || strFails memory) = true ∨
    ∀ k id, Made (fun k => (docker k).toAttempt) k →
      (docker k).container = some id →
        ∃ j, k ≤ j ∧ Made (fun k => (docker k).toAttempt) j ∧
          splitWords (docker j).created = [id]

/-- No container is left exactly if every identifier is printed alone. -/
theorem containersLeft_eq_nil_iff (docker : ℕ → ContainerAttempt)
    (fileName log_uuid : String) (memory : Value) :
    containersLeft docker (workerArgs fileName log_uuid memory) = [] ↔
      PrintsIdsAlone docker fileName memory := by
  have hattempts := (erases_executeLambda
    (fun k => (docker k).toAttempt) fileName log_uuid memory {}).2
  rw [containersLeft, ← hattempts]
  cases hargs : strFails (.str fileName) || strFails memory with
  | true =>
      rw [run_executeLambdaReported_strFails hargs]
      exact iff_of_true rfl (Or.inl hargs)
  | false =>
      obtain ⟨last, hlast⟩ := run_executeLambdaReported
        (fun k => (docker k).toAttempt) log_uuid hargs
      simp only [PrintsIdsAlone, hargs, Bool.false_eq_true, false_or,
        hlast.made_iff]
      rw [List.eq_nil_iff_forall_not_mem]
      constructor
      · intro hnone k id hk hcreated
        by_contra hkept
        refine hnone id (mem_containersAfter_iff.mpr ⟨k, hk, hcreated, ?_⟩)
        intro j hkj hj halone
        exact hkept ⟨j, hkj, hj, halone⟩
      · intro halone id hid
        obtain ⟨k, hk, hcreated, hkept⟩ := mem_containersAfter_iff.mp hid
        obtain ⟨j, hkj, hj, hprinted⟩ := halone k id hk hcreated
        exact hkept j hkj hj hprinted

/-! ## A warning -/

/-- The first attempt creates a container with a warning, the other ones do so
without. -/
def warnsFirst (k : ℕ) : ContainerAttempt :=
  if k = 0 then
    { Attempt.sample "" with
      created := ascii ("WARNING: Your kernel does not support swap limit " ++
        "capabilities, memory limited without swap.\n9d1b7a2f4c3e\n")
      container := some (ascii "9d1b7a2f4c3e")
      printed := by decide +kernel }
  else
    { Attempt.sample "" with
      container := some (ascii "4c01db0b339c")
      printed := by decide +kernel }

/-- The script takes the warning for an error and leaves the container. -/
theorem container_with_warning_left :
    containersLeft warnsFirst (workerArgs "test.py" "8f5a4b1e" (.str "256")) ≠
      [] := by
  decide +kernel

end LambdaOnOpenStack
