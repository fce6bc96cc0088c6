import LambdaOnOpenStack.Support.Picking
import LambdaOnOpenStack.Support.Runs
import Mathlib.Data.List.Infix

/-!
# The autoscaler

`awk_test.sh` watches the cluster: it boots a VM when the memory of the nodes
is reserved, and deletes one when little of it is.  The VM to be deleted is
read off the output of `docker info`, while workers create containers on the
same nodes at any time.
-/

namespace LambdaOnOpenStack

open Support

/-! ## The awk program -/

/-- A line as the fields into which awk splits it. -/
abbrev Fields := List String

namespace Awk

/-- `$n`. -/
def field (n : ℕ) (line : Fields) : String := line.getD (n - 1) ""

/-- `match(text, word)` for a word without special characters. -/
def hasMatch (text word : String) : Bool := decide (word.toList <:+: text.toList)

/-- `a[1]` after `split(text, a, ":")`. -/
def beforeColon (text : String) : String :=
  String.ofList (text.toList.takeWhile (· ≠ ':'))

/-- `text < 2`, which compares numbers if the text is one. -/
def lessThanTwo (text : String) : Bool :=
  if text.toList.all Char.isDigit then Nat.ofDigitChars 10 text.toList 0 < 2
  else text < "2"

/-- A name that stands in one field, and before a colon. -/
def isName (name : String) : Bool :=
  name.toList.all fun c => c ≠ ':' && c ≠ ' ' && c ≠ '\t' && c ≠ '\n'

structure Variables where
  CONT_ID : String := ""
  CONTS : String := ""
  deriving DecidableEq

/-- The body of the program that chooses `VM_NAME`. -/
def body (vars : Variables) (line : Fields) : Variables :=
  let CONT_ID :=
    if hasMatch (field 1 line) "child-vm" then beforeColon (field 1 line)
    else vars.CONT_ID
  let CONTS :=
    if hasMatch (field 2 line) "Containers" && lessThanTwo (field 3 line) then
      CONT_ID
    else vars.CONTS
  { CONT_ID := CONT_ID, CONTS := CONTS }

/-- The name that the program prints. -/
def vmName (info : List Fields) : String := (info.foldl body {}).CONTS

/-! ### What the program remembers -/

/-- The two names that the program keeps. -/
def Variables.names (vars : Variables) : String × String :=
  (vars.CONT_ID, vars.CONTS)

def Variables.ofNames (names : String × String) : Variables where
  CONT_ID := names.1
  CONTS := names.2

/-- If in the lines of each element the program remembers a name as `remember`
does, then it has in the end the name of the last `p`, and that of the element
that is picked. -/
theorem foldl_reader {α : Type*} {p q : α → Bool} {name : α → String}
    {lines : α → List Fields}
    (hlines : ∀ vars x, (lines x).foldl body vars =
      .ofNames (remember p q name vars.names x)) (l : List α) :
    (l.flatMap lines).foldl body {} =
      .ofNames (((lastOf p l).map name).getD "",
        ((pick p q l).map name).getD "") := by
  have hstep (names : String × String) (x : α) :
      (lines x).foldl body (.ofNames names) =
        .ofNames (remember p q name names x) := hlines (.ofNames names) x
  have hstart : ({} : Variables) = .ofNames ("", "") := rfl
  rw [List.foldl_flatMap, ← foldl_remember, hstart]
  refine List.foldl_hom Variables.ofNames ?_
  exact hstep

/-! ### What the functions give on the texts of a listing -/

theorem hasMatch_eq_false {text word : String} {c : Char}
    (hword : c ∈ word.toList) (htext : c ∉ text.toList) :
    hasMatch text word = false := by
  rw [hasMatch, decide_eq_false_iff_not]
  intro hinside
  exact htext (hinside.subset hword)

theorem hasMatch_append_colon {word : String} (hword : ':' ∉ word.toList)
    (hne : word.toList ≠ []) (name : String) :
    hasMatch (name ++ ":") word = hasMatch name word := by
  simp only [hasMatch, decide_eq_decide, String.toList_append]
  rw [show ":".toList = [':'] from rfl, List.infix_concat_iff]
  constructor
  · rintro (hsuffix | hinside)
    · obtain ⟨before, hbefore⟩ := hsuffix
      have hlast : word.toList.getLast hne = ':' := by
        have hsame := congrArg List.getLast? hbefore
        rw [List.getLast?_append, List.getLast?_concat,
          List.getLast?_eq_some_getLast hne] at hsame
        simpa using hsame
      exact absurd (hlast ▸ List.getLast_mem hne) hword
    · exact hinside
  · exact Or.inr

theorem beforeColon_append_colon {name : String} (hname : ':' ∉ name.toList) :
    beforeColon (name ++ ":") = name := by
  rw [beforeColon, String.toList_append, List.takeWhile_append_of_pos]
  · simp
  · intro c hc
    have hne : c ≠ ':' := by
      rintro rfl
      exact hname hc
    simpa using hne

theorem colon_notMem {name : String} (hname : isName name = true) :
    ':' ∉ name.toList := by
  intro hmem
  simpa using List.all_eq_true.mp hname ':' hmem

theorem isDigit_of_mem_repr {n : ℕ} {c : Char} (hc : c ∈ n.repr.toList) :
    c.isDigit = true :=
  Nat.isDigit_of_mem_toDigits (b := 10) (by decide) (by decide)
    (by simpa using hc)

theorem not_mem_repr {c : Char} (hc : c.isDigit = false) (n : ℕ) :
    c ∉ n.repr.toList := by
  intro hmem
  rw [isDigit_of_mem_repr hmem] at hc
  exact Bool.false_ne_true hc.symm

theorem isName_append_repr {stem : String} (hstem : isName stem = true) (n : ℕ) :
    isName (stem ++ n.repr) = true := by
  rw [isName, String.toList_append, List.all_append]
  refine Bool.and_eq_true_iff.mpr ⟨hstem, List.all_eq_true.mpr ?_⟩
  intro c hc
  have hdigit := isDigit_of_mem_repr hc
  have hne (other : Char) (hother : other.isDigit = false) : c ≠ other := by
    rintro rfl
    simp [hother] at hdigit
  simp [hne ':' rfl, hne ' ' rfl, hne '\t' rfl, hne '\n' rfl]

theorem lessThanTwo_repr (n : ℕ) : lessThanTwo n.repr = decide (n < 2) := by
  have hdigits : n.repr.toList.all Char.isDigit = true :=
    List.all_eq_true.mpr fun c hc => isDigit_of_mem_repr hc
  rw [lessThanTwo, if_pos hdigits]
  simp

end Awk

/-! ## The cluster -/

/-- The address of a docker daemon, in digits. -/
structure Address where
  text : String
  numeric : text.toList.all fun c => c.isDigit || c = '.' || c = ':'
  deriving DecidableEq

/-- A VM of the cluster.  It belongs to the cluster because the agent of swarm
runs on it, which is a container; `agents` counts it and every other container
that `swarm_exec.sh` did not create. -/
structure VM where
  name : String
  address : Address
  agents : ℕ
  joined : 0 < agents
  plain : Awk.isName name = true
  deriving DecidableEq

/-- How far `swarm_exec.sh` has come with a container. -/
inductive Stage where
  | created
  | copied
  | started
  | executed
  | stopped
  deriving DecidableEq

/-- The stage after the next command of the script; the last one removes the
container. -/
def Stage.next : Stage → Option Stage
  | created => some copied
  | copied => some started
  | started => some executed
  | executed => some stopped
  | stopped => none

/-- A container that `swarm_exec.sh` has created and not yet removed. -/
structure Container where
  id : ℕ
  vm : String
  stage : Stage
  deriving DecidableEq

/-- The variables of `awk_test.sh`.  `VM_NAME` is set between the listing and
`nova delete`. -/
structure Scaler where
  PROVISION : ℤ := 0
  DURATION : ℕ := 0
  VM_ID : ℕ := 180
  VM_NAME : Option String := none
  deriving DecidableEq

/-- The cluster, the scaler and, for each `nova delete`, the containers of
`swarm_exec.sh` that were on the VM when it was issued. -/
structure Cluster where
  vms : List VM
  containers : List Container := []
  issued : ℕ := 0
  scaler : Scaler := {}
  deletions : List (List Container) := []

namespace Cluster

/-- The containers of `swarm_exec.sh` on a VM. -/
def containersOn (s : Cluster) (name : String) : List Container :=
  s.containers.filter fun c => c.vm = name

/-- The number of containers that docker counts on a VM. -/
def count (s : Cluster) (vm : VM) : ℕ :=
  vm.agents + (s.containersOn vm.name).length

/-- The lines of `docker info` for a VM, as far as they matter. -/
def vmLines (s : Cluster) (vm : VM) : List Fields :=
  [[vm.name ++ ":", vm.address.text],
    ["└", "Status:", "Healthy"],
    ["└", "Containers:", toString (s.count vm)],
    ["└", "Reserved", "CPUs:"],
    ["└", "Reserved", "Memory:"],
    ["└", "Labels:"]]

/-- `docker info`. -/
def info (s : Cluster) : List Fields :=
  [["Containers:", toString (s.vms.foldl (fun n vm => n + s.count vm) 0)],
    ["Role:", "primary"],
    ["Strategy:", "binpack"],
    ["Nodes:", toString s.vms.length]] ++
    s.vms.flatMap s.vmLines

end Cluster

/-! ## The choice of the VM -/

/-- A VM that `provisionVM.sh` has booted, by its name. -/
def VM.isChild (vm : VM) : Bool := Awk.hasMatch vm.name "child-vm"

namespace Cluster

/-- Docker counts fewer than two containers. -/
def low (s : Cluster) (vm : VM) : Bool := s.count vm < 2

/-- From the last VM with fewer than two containers back to the first child:
the VM that the scaler chooses. -/
def picked (s : Cluster) : Option VM :=
  (s.vms.reverse.dropWhile fun vm => !s.low vm).find? VM.isChild

variable {s : Cluster}

/-- What the awk program makes of the lines of a VM. -/
theorem foldl_vmLines (vars : Awk.Variables) (vm : VM) :
    (s.vmLines vm).foldl Awk.body vars =
      .ofNames (remember VM.isChild s.low VM.name vars.names vm) := by
  have hchild : Awk.hasMatch (vm.name ++ ":") "child-vm" = vm.isChild :=
    Awk.hasMatch_append_colon (by decide) (by decide) vm.name
  have hname := Awk.beforeColon_append_colon (Awk.colon_notMem vm.plain)
  have haddress : Awk.hasMatch vm.address.text "Containers" = false := by
    apply Awk.hasMatch_eq_false (c := 'C') (by decide)
    intro hmem
    have hnumeric := List.all_eq_true.mp vm.address.numeric 'C' hmem
    revert hnumeric
    decide
  have hbar : Awk.hasMatch "└" "child-vm" = false := by decide
  have hcontainers : Awk.hasMatch "Containers:" "Containers" = true := by decide
  have hstatus : Awk.hasMatch "Status:" "Containers" = false := by decide
  have hreserved : Awk.hasMatch "Reserved" "Containers" = false := by decide
  have hlabels : Awk.hasMatch "Labels:" "Containers" = false := by decide
  simp [vmLines, Awk.body, Awk.field, low, hchild, hname, haddress, hbar,
    hcontainers, hstatus, hreserved, hlabels, Awk.lessThanTwo_repr,
    Awk.Variables.ofNames, Awk.Variables.names, remember]

/-- The program starts on the VMs with both variables empty. -/
theorem vmName_info : Awk.vmName s.info =
    ((s.vms.flatMap s.vmLines).foldl Awk.body {}).CONTS := by
  have hnumber (n : ℕ) : Awk.hasMatch n.repr "Containers" = false :=
    Awk.hasMatch_eq_false (c := 'C') (by decide) (Awk.not_mem_repr (by decide) n)
  have hhead : Awk.hasMatch "Containers:" "child-vm" = false := by decide
  have hrole : Awk.hasMatch "Role:" "child-vm" = false := by decide
  have hprimary : Awk.hasMatch "primary" "Containers" = false := by decide
  have hstrategy : Awk.hasMatch "Strategy:" "child-vm" = false := by decide
  have hbinpack : Awk.hasMatch "binpack" "Containers" = false := by decide
  have hnodes : Awk.hasMatch "Nodes:" "child-vm" = false := by decide
  simp [Awk.vmName, info, Awk.body, Awk.field, hnumber, hhead, hrole, hprimary,
    hstrategy, hbinpack, hnodes]

/-- The scaler reads off the name of the VM that `picked` describes. -/
theorem vmName_eq : Awk.vmName s.info = (s.picked.map (·.name)).getD "" := by
  rw [vmName_info, Awk.foldl_reader foldl_vmLines]
  rfl

/-- A VM with fewer than two containers has none of `swarm_exec.sh`: the agent
is one already. -/
theorem containersOn_of_low {vm : VM} (hlow : s.low vm = true) :
    s.containersOn vm.name = [] := by
  have hjoined := vm.joined
  have hcount : vm.agents + (s.containersOn vm.name).length < 2 :=
    of_decide_eq_true hlow
  apply List.eq_nil_of_length_eq_zero
  omega

end Cluster

/-! ## The steps -/

/-- What the memory of the nodes tells the scaler. -/
inductive ScalerStatus where
  | exceeded
  | low
  | inlimit
  deriving DecidableEq

/-- A cycle of `awk_test.sh` up to `nova delete`, with the address that a VM
booted in it gets; `nova delete`; and the commands of `swarm_exec.sh`, the
first of which picks a VM. -/
inductive ClusterStep where
  | cycle (status : ScalerStatus) (address : Address)
  | delete
  | create (vm : String)
  | proceed (id : ℕ)
  deriving DecidableEq

/-- The VM that `provisionVM.sh` boots and joins to the cluster. -/
def bootedVM (VM_ID : ℕ) (address : Address) : VM where
  name := "child-vm-" ++ toString VM_ID
  address := address
  agents := 1
  joined := Nat.one_pos
  plain := Awk.isName_append_repr (by decide) VM_ID

namespace Cluster

def LIMIT_TIME : ℕ := 15

/-- The `LOW` branch up to `nova delete`. -/
def deprovision (s : Cluster) : Cluster :=
  if 0 < s.scaler.PROVISION then
    if LIMIT_TIME < s.scaler.DURATION then
      let VM_NAME := Awk.vmName s.info
      if VM_NAME ≠ "" then
        { s with scaler := { s.scaler with VM_NAME := some VM_NAME } }
      else s
    else { s with scaler := { s.scaler with DURATION := s.scaler.DURATION + 5 } }
  else s

/-- The `EXCEEDED` branch. -/
def provision (s : Cluster) (address : Address) : Cluster :=
  { s with
    vms := s.vms ++ [bootedVM s.scaler.VM_ID address]
    scaler :=
      { s.scaler with
        PROVISION := s.scaler.PROVISION + 1
        VM_ID := s.scaler.VM_ID + 1 } }

/-- `nova delete`; the containers of the VM are gone with it. -/
def deleteVM (s : Cluster) (name : String) : Cluster :=
  { s with
    vms := s.vms.filter fun vm => vm.name ≠ name
    containers := s.containers.filter fun c => c.vm ≠ name
    scaler :=
      { s.scaler with
        DURATION := 0
        PROVISION := s.scaler.PROVISION - 1
        VM_NAME := none }
    deletions := s.deletions ++ [s.containersOn name] }

/-- `docker create` on the VM that swarm picks. -/
def createContainer (s : Cluster) (name : String) : Cluster :=
  { s with
    containers :=
      s.containers ++ [{ id := s.issued, vm := name, stage := .created }]
    issued := s.issued + 1 }

/-- The next command of the script for a container. -/
def proceed (s : Cluster) (id : ℕ) : Cluster :=
  { s with
    containers := s.containers.filterMap fun c =>
      if c.id = id then c.stage.next.map fun stage => { c with stage := stage }
      else some c }

/-- The state after a step; a step that is not possible changes nothing. -/
def step (s : Cluster) : ClusterStep → Cluster
  | .cycle status address =>
      match s.scaler.VM_NAME, status with
      | none, .low => s.deprovision
      | none, .exceeded => s.provision address
      | _, _ => s
  | .delete =>
      match s.scaler.VM_NAME with
      | some name => s.deleteVM name
      | none => s
  | .create name =>
      if s.vms.any fun vm => vm.name = name then s.createContainer name else s
  | .proceed id => s.proceed id

/-! ## No container is deleted -/

/-- Whenever `nova delete` was issued, there was no container of
`swarm_exec.sh` on the VM. -/
def DeletesIdle (s : Cluster) : Prop := ∀ found ∈ s.deletions, found = []

/-- The scaler is about to choose a VM. -/
def Chooses (s : Cluster) : Prop :=
  0 < s.scaler.PROVISION ∧ LIMIT_TIME < s.scaler.DURATION

/-- When the scaler is about to choose a VM, the last VM with fewer than two
containers is a child, or the child listed before it has fewer than two, too;
and no container is created on the VM that the scaler has chosen. -/
def KeepsApart (s : Cluster) : ClusterStep → Prop
  | .cycle .low _ => s.Chooses → ∀ vm, s.picked = some vm → s.low vm = true
  | .create name => s.scaler.VM_NAME ≠ some name
  | _ => True

instance (s : Cluster) : Decidable s.Chooses :=
  inferInstanceAs (Decidable (_ ∧ _))

instance (s : Cluster) : (a : ClusterStep) → Decidable (s.KeepsApart a)
  | .cycle .low _ =>
      have : Decidable (∀ vm, s.picked = some vm → s.low vm = true) :=
        decidable_of_iff (∀ vm ∈ s.picked, s.low vm = true) Iff.rfl
      inferInstanceAs (Decidable (s.Chooses → _))
  | .cycle .exceeded _ | .cycle .inlimit _ | .delete | .proceed _ => isTrue trivial
  | .create name => inferInstanceAs (Decidable (s.scaler.VM_NAME ≠ some name))

variable {s : Cluster}

/-- The VM that has been chosen is idle. -/
structure ChosenIdle (s : Cluster) : Prop where
  chosen : ∀ name, s.scaler.VM_NAME = some name → s.containersOn name = []
  deletions : s.DeletesIdle

theorem ChosenIdle.of_same {s' : Cluster} (h : s.ChosenIdle)
    (hchosen : s'.scaler.VM_NAME = s.scaler.VM_NAME)
    (hcontainers : s'.containers = s.containers)
    (hdeletions : s'.deletions = s.deletions) : s'.ChosenIdle := by
  refine ⟨?_, ?_⟩
  · intro name hname
    rw [hchosen] at hname
    rw [containersOn, hcontainers]
    exact h.chosen name hname
  · rw [DeletesIdle, hdeletions]
    exact h.deletions

theorem ChosenIdle.deprovision (h : s.ChosenIdle)
    (hpicked : s.Chooses → ∀ vm, s.picked = some vm → s.low vm = true) :
    s.deprovision.ChosenIdle := by
  simp only [Cluster.deprovision]
  split
  · rename_i hprovision
    split
    · rename_i hduration
      split
      · rename_i hname
        refine ⟨?_, h.deletions⟩
        intro name hchosen
        obtain rfl := Option.some.inj hchosen
        rw [vmName_eq] at hname ⊢
        cases hpick : s.picked with
        | none => simp [hpick] at hname
        | some vm => exact containersOn_of_low (hpicked ⟨hprovision, hduration⟩ vm hpick)
      · exact h
    · exact h.of_same rfl rfl rfl
  · exact h

theorem ChosenIdle.deleteVM (h : s.ChosenIdle) {name : String}
    (hname : s.scaler.VM_NAME = some name) : (s.deleteVM name).ChosenIdle where
  chosen := by simp [Cluster.deleteVM]
  deletions := by
    intro found hfound
    rcases List.mem_append.mp hfound with hfound | hfound
    · exact h.deletions found hfound
    · rw [List.mem_singleton.mp hfound]
      exact h.chosen name hname

theorem ChosenIdle.createContainer (h : s.ChosenIdle) {name : String}
    (hname : s.scaler.VM_NAME ≠ some name) : (s.createContainer name).ChosenIdle where
  chosen := by
    intro chosen hchosen
    have hne : name ≠ chosen := by
      rintro rfl
      exact hname hchosen
    have hidle := h.chosen chosen hchosen
    rw [containersOn] at hidle ⊢
    simp [Cluster.createContainer, hidle, hne]
  deletions := h.deletions

theorem ChosenIdle.proceed (h : s.ChosenIdle) (id : ℕ) :
    (s.proceed id).ChosenIdle where
  chosen := by
    intro name hname
    have hidle := h.chosen name hname
    rw [containersOn, List.filter_eq_nil_iff] at hidle ⊢
    intro c hc
    obtain ⟨old, hold, hnext⟩ := List.mem_filterMap.mp hc
    have hvm : c.vm = old.vm := by
      split at hnext
      · obtain ⟨stage, -, rfl⟩ := Option.map_eq_some_iff.mp hnext
        rfl
      · rw [Option.some.inj hnext]
    rw [hvm]
    exact hidle old hold
  deletions := h.deletions

theorem ChosenIdle.step (h : s.ChosenIdle) (a : ClusterStep)
    (ha : s.KeepsApart a) : (s.step a).ChosenIdle := by
  cases a with
  | cycle status address =>
      simp only [Cluster.step]
      split
      · exact h.deprovision ha
      · exact h.of_same rfl rfl rfl
      · exact h
  | delete =>
      simp only [Cluster.step]
      split
      · rename_i name hname
        exact h.deleteVM hname
      · exact h
  | create name =>
      simp only [Cluster.step]
      split
      · exact h.createContainer ha
      · exact h
  | proceed id => exact h.proceed id

/-- The address of every daemon in the samples. -/
def sampleAddress : Address where
  text := "192.168.1.101:2375"
  numeric := by decide

end Cluster

end LambdaOnOpenStack
