import LambdaOnOpenStack.Execution.Fleet
import LambdaOnOpenStack.Support.Potential

/-!
# How fast the autoscaler shrinks the cluster

The loop counts cycles with little load and spends five of them on every VM
that it deletes.  So deletions come no faster than that, in any stretch of a
run; and when the load stays low and the node listed last is idle, the cluster
is back at its first size after five cycles for each VM.
-/

namespace LambdaOnOpenStack

open Support

/-! ## Five cycles for a deletion -/

namespace Scaler

/-- The cycle deletes a VM. -/
def deletes (s : Scaler) (c : ScalerCycle) : Bool :=
  match (s.cycle c).2 with
  | some (.novaDelete _) => true
  | _ => false

/-- The number of VMs that are deleted in a stretch of cycles. -/
def deletedIn : Scaler → List ScalerCycle → ℕ :=
  tally next fun s c => (s.deletes c).toNat

/-- There is little load, and there are VMs to delete. -/
def shrinks (s : Scaler) (c : ScalerCycle) : Bool :=
  c.STATE = some .low && decide (0 < s.PROVISION)

/-- The number of such cycles in a stretch. -/
def shrinkingIn : Scaler → List ScalerCycle → ℕ :=
  tally next fun s c => (s.shrinks c).toNat

/-- If there is little load and there are VMs to delete, the cycle counts or it
finds a VM to delete. -/
def Acts (s : Scaler) (c : ScalerCycle) : Prop :=
  s.shrinks c = true → s.DURATION ≤ 15 ∨ Awk.vmName c.info ≠ ""

variable {s : Scaler} {c : ScalerCycle}

/-- What one cycle adds to the count and takes out of it. -/
theorem Steady.spends (h : s.Steady) (c : ScalerCycle) :
    (s.next c).DURATION + 25 * (s.deletes c).toNat ≤
        s.DURATION + 5 * (s.shrinks c).toNat ∧
      ((s.next c).DURATION + 25 * (s.deletes c).toNat =
          s.DURATION + 5 * (s.shrinks c).toNat ↔
        s.Acts c) := by
  obtain ⟨k, hk, hduration⟩ := h.counted
  have hnext : s.next c = (s.cycle c).1 := rfl
  rw [hnext, deletes, Acts, shrinks]
  by_cases hlow : c.STATE = some .low
  · by_cases hprovision : 0 < s.PROVISION
    · by_cases hlong : 15 < s.DURATION
      · have hfull : s.DURATION = 20 := by omega
        by_cases hname : Awk.vmName c.info = "" <;>
          simp [cycle, hlow, hprovision, hfull, hname, Cluster.LIMIT_TIME]
      · have hshort : s.DURATION ≤ 15 := by omega
        simp [cycle, hlow, hprovision, hlong, hshort, Cluster.LIMIT_TIME]
    · simp [cycle, hlow, hprovision]
  · rcases hstate : c.STATE with _ | _ | _ | _
    all_goals simp_all [cycle]

/-- A run of the loop adds five to the count for each cycle with little load
and VMs to delete, and takes 25 out of it for each deletion. -/
theorem Steady.spent (h : s.Steady) (stretch : List ScalerCycle) :
    (Support.runAll Scaler.next s stretch).DURATION + 25 * s.deletedIn stretch ≤
        s.DURATION + 5 * s.shrinkingIn stretch ∧
      ((Support.runAll Scaler.next s stretch).DURATION +
            25 * s.deletedIn stretch =
          s.DURATION + 5 * s.shrinkingIn stretch ↔
        Along Scaler.next Acts s stretch) := by
  rw [deletedIn, shrinkingIn, ← tally_mul, ← tally_mul]
  constructor
  · exact spent_le (fun _ c h => h.next c) (fun _ c h => (h.spends c).1) h stretch
  · rw [spent_eq_iff (fun _ c h => h.next c) (fun _ c h => (h.spends c).1) h]
    exact along_congr_of_invariant (I := Steady) (E := fun _ => True)
      (fun _ c h _ => h.next c) (fun _ c h => (h.spends c).2) h
      fun _ _ => trivial

/-- In every stretch of every run, each deletion has taken five cycles with
little load and VMs to delete, of which at most four were counted before the
stretch; and no such cycle was lost exactly if each of them counted or
deleted. -/
theorem deletions_are_paced (before stretch : List ScalerCycle) :
    let s := Support.runAll Scaler.next {} before
    5 * s.deletedIn stretch ≤ s.shrinkingIn stretch + 4 ∧
      ((Support.runAll Scaler.next s stretch).DURATION +
            25 * s.deletedIn stretch =
          s.DURATION + 5 * s.shrinkingIn stretch ↔
        Along Scaler.next Acts s stretch) := by
  intro s
  have hsteady : s.Steady :=
    runAll_invariant (fun _ c h => h.next c) steady_start before
  obtain ⟨hspent, hexact⟩ := hsteady.spent stretch
  obtain ⟨k, hk, hduration⟩ := hsteady.counted
  exact ⟨by omega, hexact⟩

end Scaler

/-! ## Back to the first size -/

namespace Fleet

/-- There is little load, and the node listed last has fewer than two
containers. -/
def LastIdle (c : FleetCycle) : Prop :=
  c.STATE = some .low ∧ ∃ node ∈ c.listing.nodes.getLast?, node.isIdle = true

/-- The cycles with little load that it takes to delete the VMs that were
booted. -/
def cyclesLeft (s : Fleet) : ℕ :=
  5 * s.scaler.PROVISION.toNat - s.scaler.DURATION / 5

variable {initial : List String} {s : Fleet} {c : FleetCycle}

theorem isChild_childName (VM_ID : ℕ) :
    Awk.hasMatch (childName VM_ID) "child-vm" = true := by
  rw [Awk.hasMatch, decide_eq_true_eq, childName, String.toList_append]
  refine (List.IsPrefix.isInfix ?_).trans (List.prefix_append _ _).isInfix
  decide

/-- While more VMs were booted than deleted, one of them is live. -/
theorem Recorded.exists_booted (h : s.Recorded initial)
    (hprovision : 0 < s.scaler.PROVISION) :
    ∃ name ∈ s.live, Awk.hasMatch name "child-vm" = true := by
  by_contra hnone
  have hsubset : s.live ⊆ initial := by
    intro name hname
    rcases h.origin name hname with hinitial | ⟨VM_ID, -, rfl⟩
    · exact hinitial
    · exact absurd ⟨_, hname, isChild_childName VM_ID⟩ hnone
  have hlength := (List.subperm_of_subset h.keeps.distinct hsubset).length_le
  have hsize := h.keeps.size
  omega

/-- A cycle in which the node listed last is idle chooses a VM. -/
theorem exists_picked_of_lastIdle (h : s.Recorded initial)
    (hshows : s.Shows c) (hidle : LastIdle c)
    (hprovision : 0 < s.scaler.PROVISION) :
    ∃ node, c.listing.picked = some node := by
  obtain ⟨name, hlive, hchild⟩ := h.exists_booted hprovision
  obtain ⟨child, hmem, rfl⟩ := List.mem_map.mp (hshows.symm.subset hlive)
  obtain ⟨-, last, hlast, hlastIdle⟩ := hidle
  obtain ⟨before, hnodes⟩ := List.getLast?_eq_some_iff.mp hlast
  rw [← Option.isSome_iff_exists, Option.isSome_iff_ne_none,
    NodeListing.picked, hnodes, pick_append_singleton, if_pos hlastIdle, Ne,
    lastOf_eq_none, ← hnodes]
  intro hnone
  have hfalse := hnone child hmem
  rw [NodeBlock.isChild, hchild] at hfalse
  cases hfalse

theorem cyclesLeft_step (h : s.Recorded initial) (hshows : s.Shows c)
    (hidle : LastIdle c) : (s.step c).cyclesLeft = s.cyclesLeft - 1 := by
  obtain ⟨k, hk, hduration⟩ := h.steady.counted
  have hstate : c.read.STATE = some .low := hidle.1
  have hscaler : (s.step c).scaler = (s.scaler.cycle c.read).1 := rfl
  rw [cyclesLeft, cyclesLeft, hscaler]
  by_cases hprovision : 0 < s.scaler.PROVISION
  · obtain ⟨node, hpicked⟩ :=
      exists_picked_of_lastIdle h hshows hidle hprovision
    have hname : Awk.vmName c.read.info ≠ "" := by
      change Awk.vmName c.listing.lines ≠ ""
      rw [vmName_lines, hpicked]
      exact NodeBlock.name_ne_empty (pick_prop hpicked)
    by_cases hlong : 15 < s.scaler.DURATION
    · simp only [Scaler.cycle, hstate, hprovision, Cluster.LIMIT_TIME, hlong,
        hname, ne_eq, not_false_eq_true, ↓reduceIte]
      omega
    · simp only [Scaler.cycle, hstate, hprovision, Cluster.LIMIT_TIME, hlong,
        ↓reduceIte]
      omega
  · simp only [Scaler.cycle, hstate, hprovision, ↓reduceIte]
    omega

theorem cyclesLeft_eq_zero_iff (h : s.Recorded initial) :
    s.cyclesLeft = 0 ↔ s.live.length = initial.length := by
  obtain ⟨k, hk, hduration⟩ := h.steady.counted
  have hsize := h.keeps.size
  have hnonneg := h.keeps.nonneg
  have hwatched := h.steady.watched
  rw [cyclesLeft]
  omega

/-- From any state of a run in which the listings show the live nodes: while
the load stays low and the node listed last is idle, the cluster is back at its
first size after `cyclesLeft` cycles, and not before. -/
theorem shrinks_back_iff (hdistinct : initial.Nodup)
    (hfresh : ∀ N, 180 ≤ N → childName N ∉ initial)
    {cycles idle : List FleetCycle}
    (hshows : Along step Shows { live := initial } (cycles ++ idle))
    (hidle : ∀ c ∈ idle, LastIdle c) :
    (runAll step { live := initial } (cycles ++ idle)).live.length =
        initial.length ↔
      (runAll step { live := initial } cycles).cyclesLeft ≤ idle.length := by
  rw [runAll_append]
  obtain ⟨hcycles, hrest⟩ := along_append_iff.mp hshows
  have hrecorded : (runAll step { live := initial } cycles).Recorded initial :=
    runAll_invariant_along (fun _ _ h hc => h.step hc)
      (recorded_start hdistinct hfresh) hcycles
  generalize runAll step { live := initial } cycles = s at *
  have hboth := hrest.and_forall hidle
  have hJ : ∀ (s : Fleet) (c : FleetCycle), s.Recorded initial →
      s.Shows c ∧ LastIdle c → (s.step c).Recorded initial :=
    fun _ _ h hc => h.step hc.1
  have hend : (runAll step s idle).Recorded initial :=
    runAll_invariant_along hJ hrecorded hboth
  have hleft : (runAll step s idle).cyclesLeft = s.cyclesLeft - idle.length :=
    lowered_of_along hJ (fun _ _ h hc => cyclesLeft_step h hc.1 hc.2) hrecorded
      hboth
  rw [← cyclesLeft_eq_zero_iff hend, hleft, Nat.sub_eq_zero_iff_le]

/-- A listing of the first node and the VM that was booted. -/
def bothIdle : FleetCycle :=
  .of { nodes := [firstChild 100, bootedChild 100] }
    { nodes := [firstChild 100, bootedChild 100] }

theorem shrinks_back_iff_bootedLast :
    (runAll step { live := ["child-vm-0"] }
        (bootedLast.take 1 ++ List.replicate 5 bothIdle)).live.length = 1 ↔
      (runAll step { live := ["child-vm-0"] } (bootedLast.take 1)).cyclesLeft ≤
        (List.replicate 5 bothIdle).length := by
  refine shrinks_back_iff (List.nodup_singleton _)
    childName_not_first shows_bootedLast ?_
  intro c hc
  rw [List.eq_of_mem_replicate hc]
  exact ⟨by decide +kernel, bootedChild 100, rfl, rfl⟩

end Fleet

end LambdaOnOpenStack
