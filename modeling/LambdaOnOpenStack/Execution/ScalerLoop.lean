import LambdaOnOpenStack.Execution.NodeListing

/-!
# The loop of the autoscaler

One pass through the loop of `awk_test.sh`, with the state that it reads off
the first listing and with the second listing, which it asks for only when it
is about to delete a VM.  `PREV_STATE` is set in every pass and never read.
-/

namespace LambdaOnOpenStack

open Support

/-! ## One cycle -/

/-- A command by which the loop changes the cluster. -/
inductive ScalerCommand where
  | provisionVM (VM_ID : ℕ)
  | novaDelete (VM_NAME : String)
  deriving DecidableEq

/-- What the loop reads in a cycle: `STATE`, which may be empty, and the
listing from which a VM is chosen. -/
structure ScalerCycle where
  STATE : Option ScalerStatus
  info : List Fields
  deriving DecidableEq

namespace Scaler

/-- The variables after a cycle, and the command that was issued in it.  Each
`[ ]` fails where its unquoted variable is empty. -/
def cycle (s : Scaler) (c : ScalerCycle) : Scaler × Option ScalerCommand :=
  match c.STATE with
  | some .low =>
      if 0 < s.PROVISION then
        if Cluster.LIMIT_TIME < s.DURATION then
          let VM_NAME := Awk.vmName c.info
          if VM_NAME ≠ "" then
            ({ s with DURATION := 0, PROVISION := s.PROVISION - 1 },
              some (.novaDelete VM_NAME))
          else (s, none)
        else ({ s with DURATION := s.DURATION + 5 }, none)
      else (s, none)
  | some .exceeded =>
      ({ s with PROVISION := s.PROVISION + 1, VM_ID := s.VM_ID + 1 },
        some (.provisionVM s.VM_ID))
  | _ => (s, none)

def next (s : Scaler) (c : ScalerCycle) : Scaler := (s.cycle c).1

/-- The ways in which a cycle can end. -/
inductive CycleRun (s : Scaler) (c : ScalerCycle) :
    Scaler × Option ScalerCommand → Prop where
  | deletes {name : String} (hstate : c.STATE = some .low)
      (hprovision : 0 < s.PROVISION) (hduration : 15 < s.DURATION)
      (hname : Awk.vmName c.info = name) (hne : name ≠ "") :
      CycleRun s c ({ s with DURATION := 0, PROVISION := s.PROVISION - 1 },
        some (.novaDelete name))
  | watches (hstate : c.STATE = some .low) (hprovision : 0 < s.PROVISION)
      (hduration : s.DURATION ≤ 15) :
      CycleRun s c ({ s with DURATION := s.DURATION + 5 }, none)
  | provisions (hstate : c.STATE = some .exceeded) :
      CycleRun s c
        ({ s with PROVISION := s.PROVISION + 1, VM_ID := s.VM_ID + 1 },
          some (.provisionVM s.VM_ID))
  | passes (hstate : c.STATE ≠ some .exceeded)
      (hlow : c.STATE = some .low → 0 < s.PROVISION → Awk.vmName c.info = "") :
      CycleRun s c (s, none)

theorem cycle_run (s : Scaler) (c : ScalerCycle) : CycleRun s c (s.cycle c) := by
  rw [cycle]
  split
  · rename_i hstate
    split
    · rename_i hprovision
      split
      · rename_i hduration
        simp only
        split
        · rename_i hne
          exact .deletes hstate hprovision hduration rfl hne
        · rename_i hempty
          exact .passes (by simp [hstate]) fun _ _ => not_not.mp hempty
      · rename_i hduration
        exact .watches hstate hprovision (Nat.not_lt.mp hduration)
    · rename_i hnone
      exact .passes (by simp [hstate]) fun _ hprovision =>
        absurd hprovision hnone
  · rename_i hstate
    exact .provisions hstate
  · rename_i hlow hexceeded
    exact .passes hexceeded fun hstate => absurd hstate hlow

theorem next_run (s : Scaler) (c : ScalerCycle) :
    ∃ command, CycleRun s c (s.next c, command) := ⟨_, s.cycle_run c⟩

/-- What holds of the variables in every cycle. -/
structure Steady (s : Scaler) : Prop where
  nonneg : 0 ≤ s.PROVISION
  watched : 0 < s.DURATION → 0 < s.PROVISION
  counted : ∃ k ≤ 4, s.DURATION = 5 * k

theorem steady_start : Steady {} where
  nonneg := le_rfl
  watched := by simp
  counted := ⟨0, by simp⟩

theorem Steady.next {s : Scaler} (h : s.Steady) (c : ScalerCycle) :
    (s.next c).Steady := by
  obtain ⟨k, hk, hduration⟩ := h.counted
  obtain ⟨command, hrun⟩ := s.next_run c
  generalize s.next c = s' at hrun
  cases hrun with
  | deletes hstate hprovision =>
      exact ⟨by simp only; omega, by simp, ⟨0, by simp⟩⟩
  | watches hstate hprovision hlimit =>
      refine ⟨h.nonneg, fun _ => hprovision, ⟨k + 1, ?_, ?_⟩⟩
      · omega
      · simp only
        omega
  | provisions =>
      have hnonneg := h.nonneg
      exact ⟨by simp only; omega, fun _ => by simp only; omega, h.counted⟩
  | passes => exact h

/-- `Cluster.step` takes a cycle apart: `nova delete` is a step of its own
there. -/
theorem scaler_step_cycle {s : Cluster} (hname : s.scaler.VM_NAME = none)
    (status : ScalerStatus) (address : Address) :
    ((s.step (.cycle status address)).step .delete).scaler =
      s.scaler.next { STATE := some status, info := s.info } := by
  cases status with
  | exceeded =>
      simp [Cluster.step, hname, Cluster.provision, next, cycle]
  | inlimit => simp [Cluster.step, hname, next, cycle]
  | low =>
      simp only [Cluster.step, hname, Cluster.deprovision, next, cycle]
      split_ifs <;> simp [hname, Cluster.deleteVM]

/-! ## Waiting for sustained low load -/

/-- The last `k` cycles of `past` found little load. -/
def LowFor (past : List ScalerCycle) (k : ℕ) : Prop :=
  ∃ earlier recent, past = earlier ++ recent ∧ recent.length = k ∧
    ∀ c ∈ recent, c.STATE = some .low

/-- Whenever a cycle deletes a VM, it and the four cycles before it found
little load.  What a cycle does depends on the cycles up to it only, so that
an endless sequence is covered by its beginnings. -/
def WaitsForLow (cycles : List ScalerCycle) : Prop :=
  ∀ before c after name, cycles = before ++ c :: after →
    ((runAll next {} before).cycle c).2 = some (.novaDelete name) →
      c.STATE = some .low ∧ LowFor before 4

/-- A cycle that does not find little load begins with the count at zero. -/
def BeginsAtZero (s : Scaler) (c : ScalerCycle) : Prop :=
  c.STATE ≠ some .low → s.DURATION = 0

/-- The cycles that `DURATION` has counted were the last ones, and found
little load. -/
def Counted (past : List ScalerCycle) (s : Scaler) : Prop :=
  ∃ k, s.DURATION = 5 * k ∧ LowFor past k

variable {past : List ScalerCycle} {s : Scaler} {c : ScalerCycle}

theorem lowFor_zero (past : List ScalerCycle) : LowFor past 0 :=
  ⟨past, [], (List.append_nil past).symm, rfl, by simp⟩

theorem LowFor.concat {k : ℕ} (h : LowFor past k) (hc : c.STATE = some .low) :
    LowFor (past ++ [c]) (k + 1) := by
  obtain ⟨earlier, recent, rfl, hlength, hrecent⟩ := h
  refine ⟨earlier, recent ++ [c], List.append_assoc _ _ _, by simp [hlength], ?_⟩
  intro c' hc'
  rcases List.mem_append.mp hc' with hc' | hc'
  · exact hrecent c' hc'
  · rw [List.mem_singleton.mp hc']
    exact hc

theorem LowFor.mono {j k : ℕ} (h : LowFor past k) (hjk : j ≤ k) :
    LowFor past j := by
  obtain ⟨earlier, recent, rfl, rfl, hrecent⟩ := h
  refine ⟨earlier ++ recent.take (recent.length - j),
    recent.drop (recent.length - j), ?_, ?_, ?_⟩
  · rw [List.append_assoc, List.take_append_drop]
  · rw [List.length_drop]
    omega
  · intro c hc
    exact hrecent c (List.mem_of_mem_drop hc)

theorem counted_zero (past : List ScalerCycle) (hs : s.DURATION = 0) :
    Counted past s := ⟨0, hs, lowFor_zero past⟩

/-- A count that stays as it is counts one cycle less than it could. -/
theorem Counted.same {k : ℕ} (hk : s.DURATION = 5 * k) (h : LowFor past k)
    (hc : BeginsAtZero s c) : Counted (past ++ [c]) s := by
  by_cases hlow : c.STATE = some .low
  · exact ⟨k, hk, (h.concat hlow).mono (Nat.le_succ k)⟩
  · exact counted_zero _ (hc hlow)

theorem Counted.next (h : Counted past s) (hc : BeginsAtZero s c) :
    Counted (past ++ [c]) (s.next c) := by
  obtain ⟨k, hk, hpast⟩ := h
  obtain ⟨command, hrun⟩ := s.next_run c
  generalize s.next c = s' at hrun
  cases hrun with
  | deletes => exact counted_zero _ rfl
  | watches hstate =>
      refine ⟨k + 1, ?_, hpast.concat hstate⟩
      simp only [hk]
      omega
  | provisions hstate =>
      refine counted_zero _ (hc ?_)
      simp [hstate]
  | passes => exact Counted.same hk hpast hc

theorem Counted.runAll {cycles : List ScalerCycle} (h : Counted past s)
    (hcycles : Along Scaler.next BeginsAtZero s cycles) :
    Counted (past ++ cycles) (runAll Scaler.next s cycles) := by
  induction cycles generalizing past s with
  | nil => simpa using h
  | cons c cycles ih =>
      have hnext := ih (h.next hcycles.1) hcycles.2
      rwa [List.append_assoc] at hnext

/-- In a run in which every cycle that does not find little load begins with
the count at zero, a VM is deleted only after five cycles with little load. -/
theorem waitsForLow_of_along {cycles : List ScalerCycle}
    (hcycles : Along Scaler.next BeginsAtZero {} cycles) :
    WaitsForLow cycles := by
  rintro before c after name rfl hdeletes
  have hbefore := (along_append_iff.mp hcycles).1
  obtain ⟨k, hk, hlow⟩ := (counted_zero [] rfl).runAll hbefore
  generalize hend : Support.runAll Scaler.next {} before = s at hdeletes hk
  have hrun := s.cycle_run c
  generalize s.cycle c = outcome at hdeletes hrun
  cases hrun with
  | deletes hstate _ hduration =>
      refine ⟨hstate, LowFor.mono hlow ?_⟩
      omega
  | _ => simp at hdeletes

/-- A child with one container is listed. -/
def idleChild : NodeListing where
  nodes := [.sample plain_bootedName 1 { used := .zero, total := .GiB 1 }]

/-- A cycle with the state `STATE`, in which that child is listed. -/
def cycleWith (STATE : ScalerStatus) : ScalerCycle where
  STATE := some STATE
  info := idleChild.lines

theorem waitsForLow_of_along_five :
    WaitsForLow (cycleWith .exceeded :: List.replicate 5 (cycleWith .low)) := by
  apply waitsForLow_of_along
  refine ⟨fun _ => rfl, ?_⟩
  apply along_of_forall
  intro c hc s hstate
  rw [List.eq_of_mem_replicate hc] at hstate
  exact absurd rfl hstate

theorem lowFor_append (past recent : List ScalerCycle)
    (h : LowFor (past ++ recent) recent.length) :
    ∀ c ∈ recent, c.STATE = some .low := by
  obtain ⟨earlier, recent', heq, hlength, hlow⟩ := h
  obtain ⟨-, rfl⟩ := List.append_inj' heq hlength.symm
  exact hlow

/-- Two cycles are counted that others lie between. -/
theorem count_survives_inlimit :
    ¬WaitsForLow
      ([cycleWith .exceeded, cycleWith .low, cycleWith .inlimit] ++
        List.replicate 4 (cycleWith .low)) := by
  intro hwaits
  have hdeletes : ((runAll next {} ([cycleWith .exceeded, cycleWith .low,
      cycleWith .inlimit] ++ List.replicate 3 (cycleWith .low))).cycle
        (cycleWith .low)).2 = some (.novaDelete "child-vm-180") := by
    decide +kernel
  have hlow := (hwaits _ _ [] _ rfl hdeletes).2
  have hinlimit := lowFor_append [cycleWith .exceeded, cycleWith .low]
    (cycleWith .inlimit :: List.replicate 3 (cycleWith .low)) hlow
    (cycleWith .inlimit) List.mem_cons_self
  simp [cycleWith] at hinlimit

/-! ## The count that is kept -/

theorem vmName_idleChild : Awk.vmName idleChild.lines = "child-vm-180" := by
  decide +kernel

/-- Cycles with little load are counted up to the limit. -/
theorem runAll_watches {n : ℕ} (hprovision : 0 < s.PROVISION)
    (hlimit : s.DURATION + 5 * n ≤ 20) :
    Support.runAll Scaler.next s (List.replicate n (cycleWith .low)) =
      { s with DURATION := s.DURATION + 5 * n } := by
  induction n generalizing s with
  | zero => rfl
  | succ n ih =>
      have hwatch : s.next (cycleWith .low) =
          { s with DURATION := s.DURATION + 5 } := by
        have hbelow : ¬Cluster.LIMIT_TIME < s.DURATION := by
          rw [Cluster.LIMIT_TIME]
          omega
        simp [Scaler.next, cycle, cycleWith, hprovision, hbelow]
      rw [List.replicate_succ, runAll_cons, hwatch, ih]
      · simp only [Scaler.mk.injEq, true_and, and_true]
        omega
      · exact hprovision
      · simp only
        omega

/-- Wherever a cycle that does not find little load keeps the count, the loop
can go on to delete a VM too early. -/
theorem not_waitsForLow_of_kept {before : List ScalerCycle}
    (hc : c.STATE ≠ some .low)
    (hkept : 0 < (Support.runAll Scaler.next {} before).DURATION) :
    ∃ rest, ¬WaitsForLow (before ++ c :: rest) := by
  have hsteady : (Support.runAll Scaler.next {} before).Steady :=
    runAll_invariant (fun _ c h => h.next c) steady_start before
  generalize hs : Support.runAll Scaler.next {} before = s at hsteady hkept
  obtain ⟨k, hk, hduration⟩ := hsteady.counted
  have hprovision := hsteady.watched hkept
  -- The cycle leaves the count as it is.
  have hnext : 0 < (s.next c).PROVISION ∧ (s.next c).DURATION = 5 * k := by
    obtain ⟨command, hrun⟩ := s.next_run c
    generalize s.next c = s' at hrun
    cases hrun with
    | deletes hstate => exact absurd hstate hc
    | watches hstate => exact absurd hstate hc
    | provisions => exact ⟨by simp only; omega, hduration⟩
    | passes => exact ⟨hprovision, hduration⟩
  let watches := List.replicate (4 - k) (cycleWith .low)
  refine ⟨watches ++ [cycleWith .low], ?_⟩
  intro hwaits
  have hend : Support.runAll Scaler.next {} (before ++ c :: watches) =
      { s.next c with DURATION := 20 } := by
    rw [runAll_append, hs, runAll_cons, runAll_watches hnext.1]
    · simp only [hnext.2, Scaler.mk.injEq, true_and, and_true]
      omega
    · rw [hnext.2]
      omega
  have hdeletes : ((Support.runAll Scaler.next {} (before ++ c :: watches)).cycle
      (cycleWith .low)).2 = some (.novaDelete "child-vm-180") := by
    rw [hend]
    simp [cycle, cycleWith, hnext.1, Cluster.LIMIT_TIME, vmName_idleChild]
  have hlow := (hwaits (before ++ c :: watches) (cycleWith .low) [] _ (by simp)
    hdeletes).2
  have hrecent : LowFor (before ++ c :: watches) (c :: watches).length := by
    refine LowFor.mono hlow ?_
    simp only [List.length_cons, watches, List.length_replicate]
    omega
  exact hc (lowFor_append before (c :: watches) hrecent c List.mem_cons_self)

end Scaler

end LambdaOnOpenStack
