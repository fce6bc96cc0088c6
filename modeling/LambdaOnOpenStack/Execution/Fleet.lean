import LambdaOnOpenStack.Execution.ScalerLoop
import LambdaOnOpenStack.Execution.Utilisation
import LambdaOnOpenStack.Support.Collection

/-!
# The nodes under the autoscaler

The loop of `awk_test.sh` together with the nodes that it boots and deletes.
Its variables count the VMs that it has booted; which VM it deletes it reads
off a listing, which shows the live nodes in any order.
-/

namespace LambdaOnOpenStack

open Support

/-! ## The nodes and the loop -/

/-- `VM_NAME` of `provisionVM.sh`. -/
def childName (VM_ID : ℕ) : String := "child-vm-" ++ toString VM_ID

/-- The names of the live nodes, the variables of the loop, and the commands
that it has issued. -/
structure Fleet where
  live : List String
  scaler : Scaler := {}
  commands : List ScalerCommand := []
  deriving DecidableEq

/-- A cycle with its state and the listing that is shown in it. -/
structure FleetCycle where
  STATE : Option ScalerStatus
  listing : NodeListing

/-- The cycle in which `docker info` prints these two listings. -/
def FleetCycle.of (first second : NodeListing) : FleetCycle where
  STATE := Scaler.STATE first.lines
  listing := second

/-- What the loop reads in the cycle. -/
def FleetCycle.read (c : FleetCycle) : ScalerCycle where
  STATE := c.STATE
  info := c.listing.lines

/-- The live nodes after a command that succeeds. -/
def ScalerCommand.apply : ScalerCommand → List String → List String
  | provisionVM VM_ID, live => live ++ [childName VM_ID]
  | novaDelete VM_NAME, live => live.erase VM_NAME

namespace Fleet

/-- The state after a command. -/
def issue (s : Fleet) : Option ScalerCommand → Fleet
  | none => s
  | some command =>
      { s with
        live := command.apply s.live
        commands := s.commands ++ [command] }

def step (s : Fleet) (c : FleetCycle) : Fleet :=
  let (scaler, command) := s.scaler.cycle c.read
  { s.issue command with scaler := scaler }

/-- The listing shows exactly the live nodes. -/
def Shows (s : Fleet) (c : FleetCycle) : Prop :=
  c.listing.names.Perm s.live

instance (s : Fleet) (c : FleetCycle) : Decidable (s.Shows c) :=
  inferInstanceAs (Decidable (List.Perm _ _))

variable {initial : List String} {s : Fleet} {c : FleetCycle}

theorem childName_injective : Function.Injective childName := by
  intro m n h
  have hdigits : Nat.toDigits 10 m = Nat.toDigits 10 n := by
    have hlists := congrArg String.toList h
    simpa [childName] using hlists
  rw [← Nat.ofDigitChars_ten_toDigits (n := m), hdigits,
    Nat.ofDigitChars_ten_toDigits]

/-- A name that is read off a listing is that of the node that is chosen. -/
theorem exists_picked {listing : NodeListing} {name : String}
    (hname : Awk.vmName listing.lines = name) (hne : name ≠ "") :
    ∃ node, listing.picked = some node ∧ node.name = name := by
  rw [vmName_lines] at hname
  cases hpicked : listing.picked with
  | none =>
      rw [hpicked] at hname
      exact absurd hname.symm hne
  | some node =>
      rw [hpicked] at hname
      exact ⟨node, rfl, hname⟩

theorem picked_eq_none {listing : NodeListing}
    (hname : Awk.vmName listing.lines = "") : listing.picked = none := by
  rw [vmName_lines] at hname
  cases hpicked : listing.picked with
  | none => rfl
  | some node =>
      rw [hpicked] at hname
      exact absurd hname (NodeBlock.name_ne_empty (pick_prop hpicked))

theorem mem_live_of_picked (hshows : s.Shows c) {node : NodeBlock}
    (hpicked : c.listing.picked = some node) : node.name ∈ s.live :=
  hshows.subset (List.mem_map_of_mem (pick_mem hpicked))

/-! ## The ways in which a cycle can end -/

/-- A cycle that finds the live nodes in its listing. -/
inductive CycleEnd (s : Fleet) (c : FleetCycle) : Fleet → Prop where
  | deletes {node : NodeBlock} (hstate : c.STATE = some .low)
      (hprovision : 0 < s.scaler.PROVISION) (hduration : 15 < s.scaler.DURATION)
      (hpicked : c.listing.picked = some node) (hlive : node.name ∈ s.live) :
      CycleEnd s c
        { live := s.live.erase node.name
          scaler :=
            { s.scaler with
              DURATION := 0
              PROVISION := s.scaler.PROVISION - 1 }
          commands := s.commands ++ [.novaDelete node.name] }
  | provisions (hstate : c.STATE = some .exceeded) :
      CycleEnd s c
        { live := s.live ++ [childName s.scaler.VM_ID]
          scaler :=
            { s.scaler with
              PROVISION := s.scaler.PROVISION + 1
              VM_ID := s.scaler.VM_ID + 1 }
          commands := s.commands ++ [.provisionVM s.scaler.VM_ID] }
  | passes {DURATION : ℕ}
      (hidle : c.STATE = some .low → 0 < s.scaler.PROVISION →
        15 < s.scaler.DURATION → c.listing.picked = none) :
      CycleEnd s c
        { s with scaler := { s.scaler with DURATION := DURATION } }

theorem step_end (hshows : s.Shows c) : CycleEnd s c (s.step c) := by
  have hrun := s.scaler.cycle_run c.read
  simp only [step]
  generalize s.scaler.cycle c.read = outcome at hrun
  cases hrun with
  | deletes hstate hprovision hduration hname hne =>
      obtain ⟨node, hpicked, rfl⟩ := exists_picked hname hne
      exact .deletes hstate hprovision hduration hpicked
        (mem_live_of_picked hshows hpicked)
  | watches _ _ hduration =>
      refine .passes fun _ _ hlong => ?_
      omega
  | provisions hstate => exact .provisions hstate
  | passes _ hlow =>
      exact .passes fun hstate hprovision _ =>
        picked_eq_none (hlow hstate hprovision)

/-! ## The size of the cluster -/

/-- The variables agree with the live nodes. -/
structure KeepsSize (initial : List String) (s : Fleet) : Prop where
  size : (s.live.length : ℤ) = initial.length + s.scaler.PROVISION
  nonneg : 0 ≤ s.scaler.PROVISION
  distinct : s.live.Nodup
  duration : s.scaler.DURATION ≤ 20

/-- Every VM that is deleted in the cycle is live. -/
def DeletesLive (s : Fleet) (c : FleetCycle) : Prop :=
  ∀ name, (s.scaler.cycle c.read).2 = some (.novaDelete name) → name ∈ s.live

/-- The names that will be given to VMs are free. -/
def NamesFree (s : Fleet) : Prop :=
  ∀ VM_ID, s.scaler.VM_ID ≤ VM_ID → childName VM_ID ∉ s.live

theorem NamesFree.step (h : s.NamesFree) (hshows : s.Shows c) :
    (s.step c).NamesFree := by
  have hend := step_end hshows
  generalize s.step c = s' at hend
  cases hend with
  | deletes =>
      intro VM_ID hid hmem
      exact h VM_ID hid (List.mem_of_mem_erase hmem)
  | provisions =>
      intro VM_ID hid hmem
      simp only at hid hmem
      rcases List.mem_append.mp hmem with hmem | hmem
      · exact h VM_ID (by omega) hmem
      · have hsame := childName_injective (List.mem_singleton.mp hmem)
        omega
  | passes => exact h

theorem KeepsSize.step (h : s.KeepsSize initial) (hfree : s.NamesFree)
    (hsteady : s.scaler.Steady) (hshows : s.Shows c) :
    (s.step c).KeepsSize initial := by
  have hsteady' : (s.step c).scaler.Steady := hsteady.next c.read
  have hduration : (s.step c).scaler.DURATION ≤ 20 := by
    obtain ⟨k, hk, hcount⟩ := hsteady'.counted
    omega
  have hnonneg := hsteady'.nonneg
  have hsize := h.size
  have hend := step_end hshows
  generalize s.step c = s' at hend hduration hnonneg
  cases hend with
  | deletes _ _ _ _ hlive =>
      refine ⟨?_, hnonneg, h.distinct.erase _, hduration⟩
      have hlength := List.length_erase_of_mem hlive
      have hpos := List.length_pos_of_mem hlive
      simp only
      omega
  | provisions =>
      refine ⟨?_, hnonneg, ?_, hduration⟩
      · simp only [List.length_append, List.length_singleton]
        omega
      · rw [nodup_concat_iff h.distinct]
        exact hfree _ le_rfl
  | passes => exact ⟨hsize, hnonneg, h.distinct, hduration⟩

/-- What holds after every cycle. -/
structure Sound (initial : List String) (s : Fleet) : Prop where
  keeps : s.KeepsSize initial
  free : s.NamesFree
  steady : s.scaler.Steady

theorem sound_start (hdistinct : initial.Nodup)
    (hfresh : ∀ N, 180 ≤ N → childName N ∉ initial) :
    Sound initial { live := initial } where
  keeps := ⟨by simp, le_rfl, hdistinct, by simp⟩
  free := hfresh
  steady := Scaler.steady_start

theorem Sound.step (h : s.Sound initial) (hshows : s.Shows c) :
    (s.step c).Sound initial where
  keeps := h.keeps.step h.free h.steady hshows
  free := h.free.step hshows
  steady := h.steady.next c.read

theorem deletesLive_of_shows (hshows : s.Shows c) : s.DeletesLive c := by
  intro name hname
  have hrun := s.scaler.cycle_run c.read
  generalize s.scaler.cycle c.read = outcome at hrun hname
  cases hrun with
  | deletes _ _ _ hvm hne =>
      obtain rfl := ScalerCommand.novaDelete.inj (Option.some.inj hname)
      obtain ⟨node, hpicked, hnode⟩ := exists_picked hvm hne
      rw [← hnode]
      exact mem_live_of_picked hshows hpicked
  | _ => simp at hname

/-- From any live nodes with names of their own, as long as every listing shows
the live nodes: after every cycle there are `PROVISION` more than in the
beginning, and every VM that is deleted is live. -/
theorem size_throughout (hdistinct : initial.Nodup)
    (hfresh : ∀ N, 180 ≤ N → childName N ∉ initial) {cycles : List FleetCycle}
    (hshows : Along step Shows { live := initial } cycles) :
    Throughout step (KeepsSize initial) { live := initial } cycles ∧
      Along step DeletesLive { live := initial } cycles := by
  constructor
  · have hsound : Throughout step (Sound initial) { live := initial } cycles :=
      throughout_of_along (fun s c h hc => h.step hc)
        (sound_start hdistinct hfresh) hshows
    exact hsound.imp fun s h => h.keeps
  · exact hshows.imp fun s c => deletesLive_of_shows

/-- The node that `create_snapshot.sh` boots, with one container and `used` of
a thousand MiB reserved. -/
def firstChild (used : ℕ) : NodeBlock :=
  .sample plain_firstName 1 { used := .MiB used, total := .MiB 1000 }

/-- The first VM that the loop boots. -/
def bootedChild (used : ℕ) : NodeBlock :=
  .sample plain_bootedName 1 { used := .MiB used, total := .MiB 1000 }

/-- The first node is full; then there are two that are little used, listed as
in `nodes`. -/
def bootThenIdle (nodes : List NodeBlock) : List FleetCycle :=
  .of { nodes := [firstChild 900] } { nodes := [firstChild 900] } ::
    List.replicate 5 (.of { nodes := nodes } { nodes := nodes })

def bootedLast : List FleetCycle :=
  bootThenIdle [firstChild 100, bootedChild 100]

def bootedFirst : List FleetCycle :=
  bootThenIdle [bootedChild 100, firstChild 100]

theorem childName_not_first (N : ℕ) (hN : 180 ≤ N) :
    childName N ∉ ["child-vm-0"] := by
  intro hmem
  have hzero : childName N = childName 0 := List.mem_singleton.mp hmem
  have hsame := childName_injective hzero
  omega

theorem shows_bootedLast :
    Along step Shows { live := ["child-vm-0"] } bootedLast := by
  decide +kernel

theorem size_throughout_bootedLast :
    Throughout step (KeepsSize ["child-vm-0"]) { live := ["child-vm-0"] } bootedLast ∧
      Along step DeletesLive { live := ["child-vm-0"] } bootedLast :=
  size_throughout (List.nodup_singleton _) childName_not_first shows_bootedLast

/-! ## Which VMs are deleted -/

/-- Each deletion satisfies `p`, given the commands before it. -/
def EachDeletion (p : List ScalerCommand → String → Prop)
    (commands : List ScalerCommand) : Prop :=
  ∀ before name after, commands = before ++ .novaDelete name :: after →
    p before name

/-- The loop has booted the VM with this name. -/
def Booted (commands : List ScalerCommand) (name : String) : Prop :=
  ∃ VM_ID, .provisionVM VM_ID ∈ commands ∧ name = childName VM_ID

/-- Every VM that was deleted had been booted by the loop before, and had not
been deleted. -/
def DeletesBooted : List ScalerCommand → Prop :=
  EachDeletion fun before name =>
    Booted before name ∧ .novaDelete name ∉ before

/-- The number of VMs that were booted. -/
def boots (commands : List ScalerCommand) : ℕ :=
  commands.countP fun command => command matches .provisionVM _

/-- The number of VMs that were deleted. -/
def deletions (commands : List ScalerCommand) : ℕ :=
  commands.countP fun command => command matches .novaDelete _

/-- Every VM that was deleted is a child by its name, was one of the first
nodes or had been booted by the loop, and had not been deleted; and before it
was, more VMs had been booted than deleted. -/
def DeletesChildren (initial : List String) : List ScalerCommand → Prop :=
  EachDeletion fun before name =>
    Awk.hasMatch name "child-vm" = true ∧
      (name ∈ initial ∨ Booted before name) ∧
      .novaDelete name ∉ before ∧ deletions before < boots before

/-- When the loop is about to choose a VM, the child that is listed last at or
before the last node with fewer than two containers is not one of the first
nodes. -/
def SparesInitial (initial : List String) (s : Fleet) (c : FleetCycle) : Prop :=
  c.STATE = some .low → 0 < s.scaler.PROVISION → 15 < s.scaler.DURATION →
    ∀ node, c.listing.picked = some node → node.name ∉ initial

section EachDeletion

variable {p : List ScalerCommand → String → Prop}
  {commands : List ScalerCommand}

theorem eachDeletion_nil : EachDeletion p [] := by
  intro before name after hsplit
  simp at hsplit

theorem eachDeletion_provisionVM_iff {VM_ID : ℕ} :
    EachDeletion p (commands ++ [.provisionVM VM_ID]) ↔
      EachDeletion p commands := by
  constructor
  · rintro h before name after rfl
    exact h before name (after ++ [.provisionVM VM_ID]) (by simp)
  · intro h before name after hsplit
    rcases append_cons_eq_concat hsplit with ⟨-, hlast⟩ | ⟨after', hcommands⟩
    · simp at hlast
    · exact h before name after' hcommands

theorem eachDeletion_novaDelete_iff {name : String} :
    EachDeletion p (commands ++ [.novaDelete name]) ↔
      EachDeletion p commands ∧ p commands name := by
  constructor
  · intro h
    refine ⟨?_, h commands name [] rfl⟩
    rintro before other after rfl
    exact h before other (after ++ [.novaDelete name]) (by simp)
  · rintro ⟨h, hlast⟩ before other after hsplit
    rcases append_cons_eq_concat hsplit with ⟨rfl, hname⟩ | ⟨after', hcommands⟩
    · obtain rfl := ScalerCommand.novaDelete.inj hname
      exact hlast
    · exact h before other after' hcommands

end EachDeletion

section Counts

variable (commands : List ScalerCommand)

@[simp] theorem boots_provisionVM (VM_ID : ℕ) :
    boots (commands ++ [.provisionVM VM_ID]) = boots commands + 1 := by
  simp [boots]

@[simp] theorem boots_novaDelete (name : String) :
    boots (commands ++ [.novaDelete name]) = boots commands := by
  simp [boots]

@[simp] theorem deletions_provisionVM (VM_ID : ℕ) :
    deletions (commands ++ [.provisionVM VM_ID]) = deletions commands := by
  simp [deletions]

@[simp] theorem deletions_novaDelete (name : String) :
    deletions (commands ++ [.novaDelete name]) = deletions commands + 1 := by
  simp [deletions]

end Counts

theorem Booted.concat {commands : List ScalerCommand} {name : String}
    (h : Booted commands name) (command : ScalerCommand) :
    Booted (commands ++ [command]) name := by
  obtain ⟨VM_ID, hboot, hname⟩ := h
  exact ⟨VM_ID, List.mem_append_left _ hboot, hname⟩

/-- What the commands say about the live nodes. -/
structure Recorded (initial : List String) (s : Fleet) : Prop
    extends Sound initial s where
  start : 180 ≤ s.scaler.VM_ID
  booted : ∀ VM_ID, .provisionVM VM_ID ∈ s.commands →
    180 ≤ VM_ID ∧ VM_ID < s.scaler.VM_ID
  deleted : ∀ name, .novaDelete name ∈ s.commands →
    name ∉ s.live ∧ ∀ VM_ID, s.scaler.VM_ID ≤ VM_ID → name ≠ childName VM_ID
  origin : ∀ name ∈ s.live, name ∈ initial ∨ Booted s.commands name
  counted : (boots s.commands : ℤ) =
    deletions s.commands + s.scaler.PROVISION

theorem recorded_start (hdistinct : initial.Nodup)
    (hfresh : ∀ N, 180 ≤ N → childName N ∉ initial) :
    Recorded initial { live := initial } where
  toSound := sound_start hdistinct hfresh
  start := le_rfl
  booted := by simp
  deleted := by simp
  origin := fun name hname => Or.inl hname
  counted := by simp [boots, deletions]

theorem Recorded.step (h : s.Recorded initial) (hshows : s.Shows c) :
    (s.step c).Recorded initial := by
  have hsound := h.toSound.step hshows
  have hcounted := h.counted
  have hend := step_end hshows
  generalize s.step c = s' at hend hsound
  cases hend with
  | @deletes node _ _ _ _ hlive =>
      refine ⟨hsound, h.start, ?_, ?_, ?_, ?_⟩
      · intro VM_ID hboot
        exact h.booted VM_ID (by simpa using hboot)
      · intro name hdelete
        simp only [List.mem_append, List.mem_singleton,
          ScalerCommand.novaDelete.injEq] at hdelete
        rcases hdelete with hdelete | rfl
        · obtain ⟨hgone, hother⟩ := h.deleted name hdelete
          exact ⟨fun hmem => hgone (List.mem_of_mem_erase hmem), hother⟩
        · refine ⟨h.keeps.distinct.not_mem_erase, ?_⟩
          intro VM_ID hid hname
          exact h.free VM_ID hid (hname ▸ hlive)
      · intro name hname
        exact (h.origin name (List.mem_of_mem_erase hname)).imp_right
          fun hbooted => hbooted.concat _
      · simp only [boots_novaDelete, deletions_novaDelete]
        omega
  | provisions =>
      have hstart := h.start
      refine ⟨hsound, Nat.le_succ_of_le hstart, ?_, ?_, ?_, ?_⟩
      · intro VM_ID hboot
        simp only [List.mem_append, List.mem_singleton,
          ScalerCommand.provisionVM.injEq] at hboot
        simp only
        rcases hboot with hboot | rfl
        · have hbefore := h.booted VM_ID hboot
          omega
        · omega
      · intro name hdelete
        obtain ⟨hgone, hother⟩ := h.deleted name (by simpa using hdelete)
        refine ⟨?_, fun VM_ID hid => hother VM_ID (by simp only at hid; omega)⟩
        intro hmem
        rcases List.mem_append.mp hmem with hmem | hmem
        · exact hgone hmem
        · exact hother _ le_rfl (List.mem_singleton.mp hmem)
      · intro name hname
        rcases List.mem_append.mp hname with hname | hname
        · exact (h.origin name hname).imp_right fun hbooted => hbooted.concat _
        · exact Or.inr ⟨s.scaler.VM_ID, by simp, List.mem_singleton.mp hname⟩
      · simp only [boots_provisionVM, deletions_provisionVM]
        omega
  | passes => exact ⟨hsound, h.start, h.booted, h.deleted, h.origin, hcounted⟩

theorem Recorded.deletesChildren (h : s.Recorded initial) (hshows : s.Shows c)
    (hchildren : DeletesChildren initial s.commands) :
    DeletesChildren initial (s.step c).commands := by
  have hend := step_end hshows
  generalize s.step c = s' at hend
  cases hend with
  | @deletes node _ hprovision _ hpicked hlive =>
      have hchild : node.isChild = true := pick_prop hpicked
      refine eachDeletion_novaDelete_iff.mpr
        ⟨hchildren, hchild, h.origin _ hlive, ?_, ?_⟩
      · intro hdelete
        exact (h.deleted _ hdelete).1 hlive
      · have hcounted := h.counted
        omega
  | provisions => exact eachDeletion_provisionVM_iff.mpr hchildren
  | passes => exact hchildren

/-- A cycle deletes a VM that the loop has booted exactly if the chosen one is
not one of the first nodes. -/
theorem Recorded.deletesBooted_iff (h : s.Recorded initial)
    (hfresh : ∀ N, 180 ≤ N → childName N ∉ initial) (hshows : s.Shows c)
    (hbooted : DeletesBooted s.commands) :
    DeletesBooted (s.step c).commands ↔ s.SparesInitial initial c := by
  have hend := step_end hshows
  generalize s.step c = s' at hend
  cases hend with
  | @deletes node hstate hprovision hduration hpicked hlive =>
      have hspares : s.SparesInitial initial c ↔ node.name ∉ initial := by
        constructor
        · intro h
          exact h hstate hprovision hduration node hpicked
        · intro h _ _ _ node' hpicked'
          obtain rfl := Option.some.inj (hpicked.symm.trans hpicked')
          exact h
      rw [hspares, DeletesBooted, eachDeletion_novaDelete_iff]
      constructor
      · rintro ⟨-, ⟨VM_ID, hboot, hname⟩, -⟩
        rw [hname]
        exact hfresh VM_ID (h.booted VM_ID hboot).1
      · intro hother
        refine ⟨hbooted, (h.origin _ hlive).resolve_left hother, ?_⟩
        intro hdelete
        exact (h.deleted _ hdelete).1 hlive
  | provisions hstate =>
      refine iff_of_true (eachDeletion_provisionVM_iff.mpr hbooted) ?_
      intro hlow
      simp [hstate] at hlow
  | passes hidle =>
      refine iff_of_true hbooted ?_
      intro hstate hprovision hduration node hpicked
      simp [hidle hstate hprovision hduration] at hpicked

/-- As long as every listing shows the live nodes, the loop deletes only
children, each of them once and never more than it has booted; and it deletes
only those that it has booted exactly if it never chooses one of the first
nodes. -/
theorem deletes_children (hdistinct : initial.Nodup)
    (hfresh : ∀ N, 180 ≤ N → childName N ∉ initial) {cycles : List FleetCycle}
    (hshows : Along step Shows { live := initial } cycles) :
    Throughout step (fun s => DeletesChildren initial s.commands)
        { live := initial } cycles ∧
      (Throughout step (fun s => DeletesBooted s.commands) { live := initial }
          cycles ↔
        Along step (SparesInitial initial) { live := initial } cycles) := by
  have hstart := recorded_start hdistinct hfresh
  constructor
  · have hinit : Recorded initial { live := initial } ∧
        DeletesChildren initial ({ live := initial } : Fleet).commands :=
      ⟨hstart, eachDeletion_nil⟩
    have hall := throughout_of_along (I := fun s => Recorded initial s ∧
      DeletesChildren initial s.commands)
      (fun s c h hc => ⟨h.1.step hc, h.1.deletesChildren hc h.2⟩) hinit hshows
    exact hall.imp fun s h => h.2
  · exact throughout_iff_along_of_along (fun s c h hc => h.step hc)
      (fun s c h hc hbooted => h.deletesBooted_iff hfresh hc hbooted) hstart
      eachDeletion_nil hshows

theorem deletes_children_bootedLast :
    Throughout step (fun s => DeletesChildren ["child-vm-0"] s.commands)
        { live := ["child-vm-0"] } bootedLast ∧
      (Throughout step (fun s => DeletesBooted s.commands)
          { live := ["child-vm-0"] } bootedLast ↔
        Along step (SparesInitial ["child-vm-0"]) { live := ["child-vm-0"] }
          bootedLast) :=
  deletes_children (List.nodup_singleton _) childName_not_first shows_bootedLast

/-- The first node is listed behind the booted one. -/
theorem first_node_deleted :
    Along step Shows { live := ["child-vm-0"] } bootedFirst ∧
      ¬Throughout step (fun s => DeletesBooted s.commands)
        { live := ["child-vm-0"] } bootedFirst := by
  constructor
  · decide +kernel
  · intro hthroughout
    have hlast := throughout_iff.mp hthroughout bootedFirst []
      (List.append_nil _).symm
    have hcommands : (runAll step { live := ["child-vm-0"] } bootedFirst).commands =
        [.provisionVM 180, .novaDelete "child-vm-0"] := by
      decide +kernel
    rw [hcommands] at hlast
    obtain ⟨VM_ID, hboot, hname⟩ := (hlast [.provisionVM 180] "child-vm-0" [] rfl).1
    obtain rfl : VM_ID = 180 := by simpa using hboot
    revert hname
    decide

end Fleet

end LambdaOnOpenStack
