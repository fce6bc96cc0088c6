import LambdaOnOpenStack.Execution.NodeListing
import Mathlib.Algebra.BigOperators.Ring.List
import Mathlib.Algebra.Order.BigOperators.Group.List
import Mathlib.Tactic.FieldSimp
import Mathlib.Tactic.Linarith
import Mathlib.Tactic.NormNum

/-!
# The utilisation of the memory

The other awk program of `awk_test.sh` adds up what the memory lines of the
nodes say, line by line, and after each of them compares the ratio of the sums
with two limits.  It takes the numbers without their units.
-/

namespace LambdaOnOpenStack

open Support

/-! ## The awk program -/

namespace Awk

inductive AwkError where
  | divisionByZero
  deriving DecidableEq

/-- The variables of the program; `status` is `none` while it is empty. -/
structure StateVariables where
  memu : ℚ := 0
  memt : ℚ := 0
  status : Option ScalerStatus := none
  deriving DecidableEq

variable (limit llimit : ℚ)

/-- The status for a ratio of the sums. -/
def status (ratio : ℚ) : ScalerStatus :=
  if limit < ratio ∧ ratio < 1 then .exceeded
  else if ratio < llimit ∧ ratio < 1 then .low
  else .inlimit

/-- The action for a memory line. -/
def add (vars : StateVariables) (used total : ℚ) :
    Except AwkError StateVariables :=
  let memu := vars.memu + used
  let memt := vars.memt + total
  if memt = 0 then .error .divisionByZero
  else
    .ok
      { memu := memu
        memt := memt
        status := some (status limit llimit (memu / memt)) }

/-- The body of the program that finds `STATE`. -/
def stateBody (vars : StateVariables) (line : Fields) :
    Except AwkError StateVariables :=
  if hasMatch (field 3 line) "Memory" then
    add limit llimit vars (number (field 4 line).toList)
      (number (field 7 line).toList)
  else .ok vars

/-- The status that the program prints at the end.  That a division by zero ends
the program is what gawk does; mawk would go on with `nan`. -/
def state (info : List Fields) : Except AwkError (Option ScalerStatus) :=
  (·.status) <$> info.foldlM (stateBody limit llimit) {}

end Awk

namespace Scaler

def ULIMIT : ℚ := 7 / 10

def LLIMIT : ℚ := 3 / 10

/-- `STATE` after the assignment; a program that has failed has printed
nothing. -/
def STATE (info : List Fields) : Option ScalerStatus :=
  match Awk.state ULIMIT LLIMIT info with
  | .ok status => status
  | .error _ => none

end Scaler

/-! ## What the program makes of a listing -/

/-- What the memory lines of all nodes say, in the order of the listing. -/
def NodeListing.memory (listing : NodeListing) : List Reserved :=
  listing.nodes.flatMap NodeBlock.memory

section Reading

variable {limit llimit : ℚ} {vars : Awk.StateVariables}

/-- The action for what a memory line says. -/
def Awk.addReserved (limit llimit : ℚ) (vars : Awk.StateVariables)
    (r : Reserved) : Except AwkError StateVariables :=
  add limit llimit vars r.used.number.value r.total.number.value

theorem stateBody_plainLine (line : PlainLine) :
    Awk.stateBody limit llimit vars line.fields = .ok vars := by
  have hplain := line.plain
  simp only [Bool.or_eq_false_iff] at hplain
  simp [Awk.stateBody, hplain]

theorem stateBody_detail (detail : Detail) :
    Awk.stateBody limit llimit vars detail.line =
      match detail.memory? with
      | some r => Awk.addReserved limit llimit vars r
      | none => .ok vars := by
  cases detail with
  | memory r =>
      have hmemory : Awk.hasMatch "Memory:" "Memory" = true := by decide
      simp [Awk.stateBody, Detail.line, Detail.memory?, Awk.field, hmemory,
        Amount.printed, Decimal.number_chars, Awk.addReserved]
  | other line => exact stateBody_plainLine line

theorem foldlM_plainLines (lines : List PlainLine) :
    (lines.map PlainLine.fields).foldlM (Awk.stateBody limit llimit) vars =
      .ok vars := by
  induction lines with
  | nil => rfl
  | cons line lines ih =>
      rw [List.map_cons, List.foldlM_cons, stateBody_plainLine]
      exact ih

theorem foldlM_details (details : List Detail) :
    (details.map Detail.line).foldlM (Awk.stateBody limit llimit) vars =
      (details.filterMap Detail.memory?).foldlM
        (Awk.addReserved limit llimit) vars := by
  induction details generalizing vars with
  | nil => rfl
  | cons detail details ih =>
      rw [List.map_cons, List.foldlM_cons, stateBody_detail, List.filterMap_cons]
      cases detail.memory? with
      | none => exact ih
      | some r =>
          rw [List.foldlM_cons]
          exact bind_congr fun _ => ih

theorem stateBody_header (node : NodeBlock) :
    Awk.stateBody limit llimit vars [node.name ++ ":", node.address.text] =
      .ok vars := by
  have hnothing : Awk.hasMatch "" "Memory" = false := by decide
  simp [Awk.stateBody, Awk.field, hnothing]

theorem stateBody_containers (n : ℕ) :
    Awk.stateBody limit llimit vars ["└", "Containers:", toString n] =
      .ok vars := by
  have hnumber : Awk.hasMatch n.repr "Memory" = false :=
    Awk.hasMatch_eq_false (c := 'M') (by decide) (Awk.not_mem_repr (by decide) n)
  simp [Awk.stateBody, Awk.field, hnumber]

theorem foldlM_nodeLines (node : NodeBlock) :
    node.lines.foldlM (Awk.stateBody limit llimit) vars =
      node.memory.foldlM (Awk.addReserved limit llimit) vars := by
  have hbelow (vars' : Awk.StateVariables) :
      (["└", "Containers:", toString node.containers] ::
          node.below.map Detail.line).foldlM
            (Awk.stateBody limit llimit) vars' =
        (node.below.filterMap Detail.memory?).foldlM
          (Awk.addReserved limit llimit) vars' := by
    rw [List.foldlM_cons, stateBody_containers]
    exact foldlM_details node.below
  rw [NodeBlock.lines, List.cons_append, List.foldlM_cons, stateBody_header,
    NodeBlock.memory, List.filterMap_append, List.foldlM_append]
  change List.foldlM _ _ _ = _
  rw [List.foldlM_append, foldlM_details]
  simp only [hbelow]

theorem foldlM_nodes (nodes : List NodeBlock) :
    (nodes.flatMap NodeBlock.lines).foldlM (Awk.stateBody limit llimit) vars =
      (nodes.flatMap NodeBlock.memory).foldlM
        (Awk.addReserved limit llimit) vars := by
  induction nodes generalizing vars with
  | nil => rfl
  | cons node nodes ih =>
      simp only [List.flatMap_cons, List.foldlM_append, foldlM_nodeLines, ih]

/-- The program looks at the memory lines only. -/
theorem state_lines (listing : NodeListing) :
    Awk.state limit llimit listing.lines =
      (·.status) <$> listing.memory.foldlM
        (Awk.addReserved limit llimit) {} := by
  rw [Awk.state, NodeListing.lines, List.foldlM_append, List.foldlM_append,
    foldlM_plainLines]
  change _ <$> (List.foldlM _ _ _ >>= _) = _
  simp only [foldlM_nodes, foldlM_plainLines]
  exact congrArg _ (bind_pure _)

end Reading

/-! ## The sums -/

namespace Reserved

/-- The sum of the numbers of the used amounts, without their units. -/
def printedUsed (l : List Reserved) : ℚ :=
  (l.map fun r => r.used.number.value).sum

/-- The sum of the numbers of the totals, without their units. -/
def printedTotal (l : List Reserved) : ℚ :=
  (l.map fun r => r.total.number.value).sum

def usedBytes (l : List Reserved) : ℚ := (l.map fun r => r.used.bytes).sum

def totalBytes (l : List Reserved) : ℚ := (l.map fun r => r.total.bytes).sum

variable {l : List Reserved}

theorem printedTotal_nonneg (l : List Reserved) : 0 ≤ printedTotal l := by
  apply List.sum_nonneg
  intro x hx
  obtain ⟨r, -, rfl⟩ := List.mem_map.mp hx
  exact r.total.number.value_nonneg

/-- A positive total in the first line makes every later sum positive. -/
theorem printedTotal_pos (hne : l ≠ [])
    (hfirst : ∀ r ∈ l.head?, 0 < r.total.number.value) : 0 < printedTotal l := by
  cases l with
  | nil => exact absurd rfl hne
  | cons r rest =>
      have hrest := printedTotal_nonneg rest
      rw [printedTotal] at hrest ⊢
      rw [List.map_cons, List.sum_cons]
      linarith [hfirst r rfl]

theorem printedUsed_append_singleton (l : List Reserved) (r : Reserved) :
    printedUsed (l ++ [r]) = printedUsed l + r.used.number.value := by
  simp [printedUsed]

theorem printedTotal_append_singleton (l : List Reserved) (r : Reserved) :
    printedTotal (l ++ [r]) = printedTotal l + r.total.number.value := by
  simp [printedTotal]

/-- Where the first total is positive the program comes to the end, with the
status for the ratio of all sums. -/
theorem foldlM_addReserved {limit llimit : ℚ}
    (hfirst : ∀ r ∈ l.head?, 0 < r.total.number.value) :
    l.foldlM (Awk.addReserved limit llimit) {} =
      .ok
        { memu := printedUsed l
          memt := printedTotal l
          status :=
            if l = [] then none
            else some (Awk.status limit llimit
              (printedUsed l / printedTotal l)) } := by
  induction l using List.reverseRecOn with
  | nil => rfl
  | append_singleton l r ih =>
      have hbefore := ih fun r' hr' => hfirst r' (List.mem_head?_append_of_mem_head? hr')
      have hne := (printedTotal_pos (by simp) hfirst).ne'
      rw [printedTotal_append_singleton] at hne
      rw [List.foldlM_append, hbefore, printedUsed_append_singleton,
        printedTotal_append_singleton]
      change Awk.addReserved limit llimit _ r >>= pure = _
      rw [bind_pure, Awk.addReserved, Awk.add, if_neg hne]
      simp

/-- A total of zero in the first line ends the program. -/
theorem foldlM_addReserved_zero {limit llimit : ℚ} {r : Reserved}
    (hr : r.total.number.value = 0) (rest : List Reserved) :
    (r :: rest).foldlM (Awk.addReserved limit llimit) {} =
      .error .divisionByZero := by
  have hzero : Awk.addReserved limit llimit {} r = .error .divisionByZero := by
    rw [Awk.addReserved, Awk.add, hr, add_zero]
    rfl
  rw [List.foldlM_cons, hzero]
  rfl

theorem total_bytes_pos_iff {r : Reserved} :
    0 < r.total.bytes ↔ 0 < r.total.number.value := by
  have hunit : (0 : ℚ) < r.total.unit.bytes := by
    exact_mod_cast r.total.unit.bytes_pos
  rw [Amount.bytes, mul_pos_iff_of_pos_right hunit]

end Reserved

/-! ## The status of the cluster -/

/-- The status that belongs to a utilisation. -/
def ScalerStatus.ofUtilisation (utilisation : ℚ) : ScalerStatus :=
  if 7 / 10 < utilisation then .exceeded
  else if utilisation < 3 / 10 then .low
  else .inlimit

namespace NodeListing

/-- The part of the memory of all nodes that is used. -/
def utilisation (listing : NodeListing) : ℚ :=
  Reserved.usedBytes listing.memory / Reserved.totalBytes listing.memory

/-- The same ratio for the printed numbers without their units. -/
def printedRatio (listing : NodeListing) : ℚ :=
  Reserved.printedUsed listing.memory / Reserved.printedTotal listing.memory

/-- Without units the ratio is in the same range, and below one. -/
structure MeasuredAlike (listing : NodeListing) : Prop where
  exceeded : 7 / 10 < listing.utilisation ↔
    7 / 10 < listing.printedRatio ∧ listing.printedRatio < 1
  low : listing.utilisation < 3 / 10 ↔ listing.printedRatio < 3 / 10

end NodeListing

theorem ScalerStatus.eq_iff {s t : ScalerStatus} :
    s = t ↔ (t = .exceeded ↔ s = .exceeded) ∧ (t = .low ↔ s = .low) := by
  cases s <;> cases t <;> simp

theorem ofUtilisation_eq_exceeded_iff {utilisation : ℚ} :
    ScalerStatus.ofUtilisation utilisation = .exceeded ↔
      7 / 10 < utilisation := by
  rw [ScalerStatus.ofUtilisation]
  split_ifs with hexceeded hlow <;> simp [hexceeded]

theorem ofUtilisation_eq_low_iff {utilisation : ℚ} :
    ScalerStatus.ofUtilisation utilisation = .low ↔ utilisation < 3 / 10 := by
  rw [ScalerStatus.ofUtilisation]
  split_ifs with hexceeded hlow
  · have hnot : ¬utilisation < 3 / 10 := by linarith
    simp [hnot]
  · simp [hlow]
  · simp [hlow]

theorem status_eq_exceeded_iff {ratio : ℚ} :
    Awk.status Scaler.ULIMIT Scaler.LLIMIT ratio = .exceeded ↔
      7 / 10 < ratio ∧ ratio < 1 := by
  rw [Awk.status, Scaler.ULIMIT]
  split_ifs with hexceeded hlow <;> simp [hexceeded]

theorem status_eq_low_iff {ratio : ℚ} :
    Awk.status Scaler.ULIMIT Scaler.LLIMIT ratio = .low ↔ ratio < 3 / 10 := by
  rw [Awk.status, Scaler.ULIMIT, Scaler.LLIMIT]
  split_ifs with hexceeded hlow
  · have hnot : ¬ratio < 3 / 10 := by linarith [hexceeded.1]
    simp [hnot]
  · simp [hlow.1]
  · have hnot : ¬ratio < 3 / 10 := by
      intro hratio
      exact hlow ⟨hratio, by linarith⟩
    simp [hnot]

/-- A listing whose first total is positive gets the status of the ratio. -/
theorem state_of_first_pos {listing : NodeListing}
    (hfirst : ∀ r ∈ listing.memory.head?, 0 < r.total.number.value) :
    Awk.state Scaler.ULIMIT Scaler.LLIMIT listing.lines =
      .ok (if listing.memory = [] then none
        else some (Awk.status Scaler.ULIMIT Scaler.LLIMIT
          listing.printedRatio)) := by
  rw [state_lines, Reserved.foldlM_addReserved hfirst]
  rfl

/-- The program comes to the end exactly if the first total is positive. -/
theorem state_ok_iff (listing : NodeListing) :
    (∃ status, Awk.state Scaler.ULIMIT Scaler.LLIMIT listing.lines =
        .ok status) ↔
      ∀ r ∈ listing.memory.head?, 0 < r.total.number.value := by
  constructor
  · rintro ⟨status, hstatus⟩ r hr
    by_contra hnot
    have hzero : r.total.number.value = 0 :=
      le_antisymm (not_lt.mp hnot) r.total.number.value_nonneg
    obtain ⟨rest, hmemory⟩ := List.head?_eq_some_iff.mp hr
    rw [state_lines, hmemory, Reserved.foldlM_addReserved_zero hzero] at hstatus
    simp at hstatus
  · intro hfirst
    exact ⟨_, state_of_first_pos hfirst⟩

/-- The scaler finds the status that belongs to the utilisation exactly if the
units do not matter and the ratio without them is below one where it exceeds
the limit. -/
theorem state_classifies_iff (listing : NodeListing)
    (hmemory : listing.memory ≠ [])
    (hpos : ∀ r ∈ listing.memory, 0 < r.total.bytes) :
    Awk.state Scaler.ULIMIT Scaler.LLIMIT listing.lines =
        .ok (some (ScalerStatus.ofUtilisation listing.utilisation)) ↔
      listing.MeasuredAlike := by
  have hfirst : ∀ r ∈ listing.memory.head?, 0 < r.total.number.value := by
    intro r hr
    exact Reserved.total_bytes_pos_iff.mp (hpos r (List.mem_of_mem_head? hr))
  rw [state_of_first_pos hfirst, if_neg hmemory, Except.ok.injEq,
    Option.some.injEq, ScalerStatus.eq_iff, ofUtilisation_eq_exceeded_iff,
    ofUtilisation_eq_low_iff, status_eq_exceeded_iff, status_eq_low_iff]
  constructor
  · rintro ⟨hexceeded, hlow⟩
    exact ⟨hexceeded, hlow⟩
  · rintro ⟨hexceeded, hlow⟩
    exact ⟨hexceeded, hlow⟩

/-- A node that uses `used` of one GiB. -/
def oneNode (used : Amount) : NodeListing where
  nodes := [.sample plain_firstName 1 { used := used, total := .GiB 1 }]

/-- A node that is little used, by itself, and a larger one that is not. -/
def twoUnits : NodeListing where
  nodes :=
    [.sample plain_firstName 1 { used := .MiB 100, total := .MiB 1000 },
      .sample plain_bootedName 2 { used := .GiB 600, total := .GiB 1000 }]

theorem state_classifies_iff_twoUnits :
    twoUnits.memory ≠ [] ∧ (∀ r ∈ twoUnits.memory, 0 < r.total.bytes) ∧
      (Awk.state Scaler.ULIMIT Scaler.LLIMIT twoUnits.lines =
          .ok (some (ScalerStatus.ofUtilisation twoUnits.utilisation)) ↔
        twoUnits.MeasuredAlike) := by
  have hmemory : twoUnits.memory ≠ [] := by decide +kernel
  have hpos : ∀ r ∈ twoUnits.memory, 0 < r.total.bytes := by decide +kernel
  exact ⟨hmemory, hpos, state_classifies_iff _ hmemory hpos⟩

/-- A tenth of the memory is used, and the program compares 100 with 1. -/
theorem units_hide_low_load :
    Awk.state Scaler.ULIMIT Scaler.LLIMIT (oneNode (.MiB 100)).lines ≠
      .ok (some (ScalerStatus.ofUtilisation
        (oneNode (.MiB 100)).utilisation)) := by
  decide +kernel

/-! ## One unit -/

namespace NodeListing

/-- Where all amounts have one unit, it cancels. -/
theorem printedRatio_of_unit {listing : NodeListing} {unit : ByteUnit}
    (hunit : ∀ r ∈ listing.memory, r.used.unit = unit ∧ r.total.unit = unit) :
    listing.printedRatio = listing.utilisation := by
  have hused : Reserved.usedBytes listing.memory =
      Reserved.printedUsed listing.memory * unit.bytes := by
    rw [Reserved.usedBytes, Reserved.printedUsed, ← List.sum_map_mul_right]
    congr 1
    apply List.map_congr_left
    intro r hr
    rw [Amount.bytes, (hunit r hr).1]
  have htotal : Reserved.totalBytes listing.memory =
      Reserved.printedTotal listing.memory * unit.bytes := by
    rw [Reserved.totalBytes, Reserved.printedTotal, ← List.sum_map_mul_right]
    congr 1
    apply List.map_congr_left
    intro r hr
    rw [Amount.bytes, (hunit r hr).2]
  have hbytes : (unit.bytes : ℚ) ≠ 0 := by
    exact_mod_cast unit.bytes_pos.ne'
  rw [utilisation, hused, htotal, mul_div_mul_right _ _ hbytes, printedRatio]

/-- With one unit the status is right exactly while the memory is not full. -/
theorem measuredAlike_iff_of_unit {listing : NodeListing} {unit : ByteUnit}
    (hunit : ∀ r ∈ listing.memory, r.used.unit = unit ∧ r.total.unit = unit) :
    listing.MeasuredAlike ↔ listing.utilisation < 1 := by
  have hratio := printedRatio_of_unit hunit
  constructor
  · intro halike
    by_contra hfull
    have hexceeded := halike.exceeded.mp (by linarith)
    rw [hratio] at hexceeded
    exact hfull hexceeded.2
  · intro hbelow
    refine ⟨?_, by rw [hratio]⟩
    rw [hratio]
    exact (and_iff_left hbelow).symm

end NodeListing

/-! ## Every order of the nodes -/

namespace NodeListing

/-- In whatever order the nodes are listed, the program comes to the end, and
always with the same status. -/
def SameInAnyOrder (listing : NodeListing) : Prop :=
  ∃ status, ∀ nodes, nodes.Perm listing.nodes →
    Awk.state Scaler.ULIMIT Scaler.LLIMIT { listing with nodes := nodes }.lines =
      .ok status

theorem memory_perm {listing : NodeListing} {nodes : List NodeBlock}
    (hperm : nodes.Perm listing.nodes) :
    ({ listing with nodes := nodes } : NodeListing).memory.Perm
      listing.memory :=
  hperm.flatMap_right NodeBlock.memory

theorem printedRatio_perm {listing : NodeListing} {nodes : List NodeBlock}
    (hperm : nodes.Perm listing.nodes) :
    ({ listing with nodes := nodes } : NodeListing).printedRatio =
      listing.printedRatio := by
  have hmemory := memory_perm hperm
  rw [printedRatio, Reserved.printedUsed, Reserved.printedTotal,
    (hmemory.map _).sum_eq, (hmemory.map _).sum_eq]
  rfl

end NodeListing

/-- The nodes have one memory line each.  The order in which they are listed
does not matter exactly if no total is zero: a node without memory that is
listed first ends the program. -/
theorem sameInAnyOrder_iff (listing : NodeListing)
    (hone : ∀ node ∈ listing.nodes, node.memory.length = 1) :
    listing.SameInAnyOrder ↔ ∀ r ∈ listing.memory, 0 < r.total.bytes := by
  constructor
  · rintro ⟨status, hstatus⟩ r hr
    obtain ⟨node, hnode, hr⟩ := List.mem_flatMap.mp hr
    obtain ⟨r', hmemory⟩ := List.length_eq_one_iff.mp (hone node hnode)
    obtain rfl : r = r' := by simpa [hmemory] using hr
    obtain ⟨before, after, hsplit⟩ := List.append_of_mem hnode
    -- The listing that begins with this node.
    have hfirst := hstatus (node :: (before ++ after)) (by
      rw [hsplit]
      exact List.perm_middle.symm)
    rw [Reserved.total_bytes_pos_iff]
    refine (state_ok_iff _).mp ⟨status, hfirst⟩ r ?_
    rw [NodeListing.memory, List.flatMap_cons, hmemory]
    rfl
  · intro hpos
    refine ⟨if listing.memory = [] then none
      else some (Awk.status Scaler.ULIMIT Scaler.LLIMIT listing.printedRatio), ?_⟩
    intro nodes hperm
    have hmemory := NodeListing.memory_perm hperm
    have hfirst : ∀ r ∈ ({ listing with nodes := nodes } :
        NodeListing).memory.head?, 0 < r.total.number.value := by
      intro r hr
      rw [← Reserved.total_bytes_pos_iff]
      exact hpos r (hmemory.subset (List.mem_of_mem_head? hr))
    rw [state_of_first_pos hfirst, NodeListing.printedRatio_perm hperm]
    by_cases hnone : listing.memory = []
    · rw [hnone, List.perm_nil] at hmemory
      rw [if_pos hmemory, if_pos hnone]
    · rw [if_neg, if_neg hnone]
      intro hnil
      rw [hnil, List.nil_perm] at hmemory
      exact hnone hmemory

/-- A node that has not joined yet, and one that has. -/
def pendingFirst : NodeListing where
  nodes :=
    [.sample plain_pendingName 0 { used := .zero, total := .zero },
      .sample plain_firstName 1 { used := .MiB 100, total := .GiB 1 }]

theorem sameInAnyOrder_iff_pendingFirst :
    (∀ node ∈ pendingFirst.nodes, node.memory.length = 1) ∧
      (pendingFirst.SameInAnyOrder ↔
        ∀ r ∈ pendingFirst.memory, 0 < r.total.bytes) := by
  have hone : ∀ node ∈ pendingFirst.nodes, node.memory.length = 1 := by
    decide +kernel
  exact ⟨hone, sameInAnyOrder_iff pendingFirst hone⟩

/-- The first line is that of the pending node, with a total of zero, and gawk
gives up. -/
theorem pending_node_divides_by_zero :
    (∃ r ∈ pendingFirst.memory, 0 < r.total.bytes) ∧
      ¬pendingFirst.SameInAnyOrder := by
  constructor
  · decide +kernel
  · rintro ⟨status, hstatus⟩
    have hlisted := hstatus pendingFirst.nodes (List.Perm.refl _)
    have herror : Awk.state Scaler.ULIMIT Scaler.LLIMIT pendingFirst.lines =
        .error .divisionByZero := by decide +kernel
    rw [herror] at hlisted
    simp at hlisted

end LambdaOnOpenStack
