import LambdaOnOpenStack.Execution.Fleet
import LambdaOnOpenStack.Execution.Provisioning

/-!
# The script of the autoscaler

`awk_test.sh` command by command, with `provisionVM.sh`, which it calls and
waits for.  At every time of its run, the commands that it has issued are those
of cycles of the loop, one after another; and every VM that joins the swarm has
just been booted and configured.  What the script prints is left out.
-/

namespace LambdaOnOpenStack

open Support Shell BootVariables Relation

/-! ## awk_test.sh -/

/-- The address in the last line that names the interface. -/
def Awk.hostIp (lines : List String) : String :=
  match (lines.filter fun line => hasMatch line "eth0").getLast? with
  | some line => String.ofList ((field 2 (words line)).toList.takeWhile (· ≠ '/'))
  | none => ""

/-- The lines that the last command has printed. -/
def Master.lines (M : Master) (history : List CommandLine) : List Fields :=
  (M.output history).map Awk.words

/-- `scaler` has the variables of the loop. -/
structure WatchVariables where
  scaler : Scaler := {}
  HOST_IP : String := ""
  CLUSTER_ID : String := ""
  IMAGE_ID : String := ""
  STATE : Option ScalerStatus := none
  VM_NAME : String := ""
  i : ℤ := 1

abbrev WatchScript := Script (Shell WatchVariables)

namespace WatchVariables

variable (v : WatchVariables)

def ipAddr : CommandLine := ["ip", "addr"]

def dockerInfo : CommandLine := ["sudo", "docker", "-H", "tcp://0.0.0.0:5001", "info"]

def novaDelete : CommandLine := ["nova", "delete"] ++ Awk.words v.VM_NAME

/-- The arguments of `provisionVM.sh`. -/
def arguments : List String :=
  Awk.words (toString v.scaler.VM_ID) ++ Awk.words v.IMAGE_ID ++
    Awk.words v.CLUSTER_ID

def foundHost (lines : List String) : WatchVariables :=
  { v with
    HOST_IP := Awk.hostIp lines
    CLUSTER_ID := Awk.hostIp lines ++ ":8500" }

def foundImage (lines : List String) : WatchVariables :=
  { v with IMAGE_ID := Awk.imageId lines }

def foundState (lines : List String) : WatchVariables :=
  { v with STATE := Scaler.STATE (lines.map Awk.words) }

def foundName (lines : List String) : WatchVariables :=
  { v with VM_NAME := Awk.vmName (lines.map Awk.words) }

def watched : WatchVariables :=
  { v with scaler := { v.scaler with DURATION := v.scaler.DURATION + 5 } }

def deprovisioned : WatchVariables :=
  { v with
    scaler := { v.scaler with DURATION := 0, PROVISION := v.scaler.PROVISION - 1 } }

def provisioned : WatchVariables :=
  { v with
    scaler :=
      { v.scaler with
        PROVISION := v.scaler.PROVISION + 1
        VM_ID := v.scaler.VM_ID + 1 } }

def counted : WatchVariables := { v with i := v.i + 1 }

end WatchVariables

open WatchVariables

def deprovision (M : Master) : WatchScript :=
  .block
    [capture M (fun _ => dockerInfo) foundName,
      .branch (fun s => s.vars.VM_NAME ≠ "")
        (.block [issue M novaDelete, assign deprovisioned]) .skip]

def watchLow (M : Master) : WatchScript :=
  .branch (fun s => 0 < s.vars.scaler.PROVISION)
    (.branch (fun s => Cluster.LIMIT_TIME < s.vars.scaler.DURATION)
      (deprovision M) (assign watched))
    .skip

def provision (M : Master) : WatchScript :=
  .block
    [.call (fun s => provisionVM.start s.vars.arguments s.history) (provisionVM M)
        (fun s t => { s with history := t.history, stdout := s.stdout ++ t.stdout }),
      assign provisioned]

/-- One pass through the loop. -/
def watchOnce (M : Master) : WatchScript :=
  .block
    [capture M (fun _ => dockerInfo) foundState,
      .branch (fun s => s.vars.STATE = some .low) (watchLow M)
        (.branch (fun s => s.vars.STATE = some .exceeded) (provision M) .skip),
      assign counted]

def awkTest (M : Master) : WatchScript :=
  .block
    [capture M (fun _ => ipAddr) foundHost,
      capture M (fun _ => novaImageList) foundImage,
      .loop (fun _ => true) (watchOnce M)]

def awkTest.start (history : List CommandLine) : Shell WatchVariables where
  vars := {}
  history := history

/-! ## What the commands do -/

/-- A change of the VMs. -/
inductive NovaChange where
  | booted (name : String)
  | deleted (name : String)
  deriving DecidableEq

/-- The change that a command asks for.  The name of a new VM is the last
word. -/
def novaChange : CommandLine → Option NovaChange
  | "nova" :: "boot" :: rest => rest.getLast?.map .booted
  | "nova" :: "delete" :: name :: _ => some (.deleted name)
  | _ => none

def changes (history : List CommandLine) : List NovaChange :=
  history.filterMap novaChange

/-- A VM joins the swarm. -/
def isJoin (line : CommandLine) : Bool :=
  line.take 2 = ["sudo", "docker"] && line.contains "join"

/-- The command changes neither the VMs nor the swarm, and it is not the one with
which a cycle begins. -/
def Idle (line : CommandLine) : Prop :=
  novaChange line = none ∧ isJoin line = false ∧ line ≠ dockerInfo

instance (line : CommandLine) : Decidable (Idle line) :=
  inferInstanceAs (Decidable (_ ∧ _))

def ScalerCommand.change : ScalerCommand → NovaChange
  | provisionVM id => .booted (childName id)
  | novaDelete name => .deleted name

/-! ## A script that boots a VM -/

section Boot

variable {M : Master} {q : List CommandLine}

/-- Only commands that change nothing have been added to the history. -/
def Idled {V : Type} (q : List CommandLine) (s : Shell V) : Prop :=
  ∃ l, s.history = q ++ l ∧ ∀ c ∈ l, Idle c

theorem Idled.concat {V : Type} {s t : Shell V} (h : Idled q s) {line : CommandLine}
    (hline : Idle line) (ht : t.history = s.history ++ [line]) : Idled q t := by
  obtain ⟨l, hl, hidle⟩ := h
  refine ⟨l ++ [line], by rw [ht, hl, List.append_assoc], ?_⟩
  intro c hc
  rcases List.mem_append.mp hc with hc | hc
  · exact hidle c hc
  · rwa [List.mem_singleton.mp hc]

theorem idle_novaImageList : Idle novaImageList := by decide

theorem idle_novaShow (v : BootVariables) : Idle v.novaShow := by
  refine ⟨?_, ?_, ?_⟩
  · simp [BootVariables.novaShow, novaChange]
  · simp [BootVariables.novaShow, isJoin]
  · simp [BootVariables.novaShow, dockerInfo]

theorem idle_configVM (v : BootVariables) : Idle v.configVM := by
  refine ⟨?_, ?_, ?_⟩
  · simp [BootVariables.configVM, novaChange]
  · simp [BootVariables.configVM, isJoin]
  · simp [BootVariables.configVM, dockerInfo]

theorem keeps_idled {V : Type} {effect : Shell V → Shell V}
    (h : ∀ s, (effect s).history = s.history) :
    (Script.act effect).Keeps (Idled q) := by
  refine Script.Keeps.act ?_
  rintro s ⟨l, hl, hidle⟩
  exact ⟨l, (h s).trans hl, hidle⟩

theorem keeps_idled_concat {V : Type} {effect : Shell V → Shell V}
    {line : Shell V → CommandLine} (hline : ∀ s, Idle (line s))
    (h : ∀ s, (effect s).history = s.history ++ [line s]) :
    (Script.act effect).Keeps (Idled q) :=
  .act fun s hs => hs.concat (hline s) (h s)

theorem keeps_idled_pollAddress : (pollAddress M).Keeps (Idled q) := by
  refine .loop ?_
  refine .cons (keeps_idled_concat (fun s => idle_novaShow s.vars) fun _ => rfl) ?_
  refine .cons (keeps_idled fun _ => rfl) <| .cons (keeps_idled fun _ => rfl) ?_
  refine .cons (.branch (keeps_idled fun _ => rfl) (keeps_idled fun _ => rfl)) ?_
  refine .cons (keeps_idled fun _ => rfl) <| .cons (keeps_idled fun _ => rfl) ?_
  exact .cons (keeps_idled fun _ => rfl) <| .cons (keeps_idled fun _ => rfl) .nil

theorem keeps_idled_untilSucceeds :
    (untilSucceeds M (issueQuietly configVM)).Keeps (Idled q) := by
  have htry (label : String) :
      (tryCommand M (issueQuietly configVM) label).Keeps (Idled q) := by
    refine .cons (keeps_idled_concat (fun s => idle_configVM s.vars) fun _ => rfl) ?_
    exact .cons (keeps_idled fun _ => rfl) <| .cons (keeps_idled fun _ => rfl) .nil
  exact .cons (htry _) <| .cons (.loop (htry _)) .nil

/-- The histories with which `provisionVM.sh` passes, when it begins after `q`:
nothing is booted, the VM is booted, or it has joined the swarm. -/
inductive Booting (M : Master) (v : BootVariables) (q : List CommandLine) :
    List CommandLine → Prop where
  | before {l : List CommandLine} (hidle : ∀ c ∈ l, Idle c) : Booting M v q (q ++ l)
  | booted {l : List CommandLine} (hidle : ∀ c ∈ l, Idle c) :
      Booting M v q (v.booted M q ++ l)
  | joined (P : Provisioning M (v.forBoot M q) (v.booted M q)) :
      Booting M v q (P.configured ++ [P.join])

theorem Booting.of_idled {v : BootVariables} {s : Shell BootVariables}
    (h : Idled (v.booted M q) s) : Booting M v q s.history := by
  obtain ⟨l, hl, hidle⟩ := h
  rw [hl]
  exact .booted hidle

theorem bootVM_holds {s : Shell BootVariables} (hfresh : s.vars.Fresh) :
    (bootVM M).Holds (fun t => Booting M s.vars s.history t.history)
      (fun t => ∃ F : Finding M (s.vars.forBoot M s.history)
          (s.vars.booted M s.history),
        t.history = F.history ∧ t.vars = F.vars) s := by
  have halways : (bootVM M).Holds (fun t => Booting M s.vars s.history t.history)
      (fun _ => True) s := by
    have hnone : Booting M s.vars s.history s.history := by
      simpa using Booting.before (M := M) (v := s.vars) (q := s.history)
        (l := []) (by simp)
    have hlisted : Booting M s.vars s.history (s.history ++ [novaImageList]) :=
      .before (by simpa using idle_novaImageList)
    refine .act_cons hnone <| .act_cons hnone <| .act_cons hlisted ?_
    refine .act_cons hlisted <| .act_cons hlisted <| .last ?_
    refine (keeps_idled_pollAddress (q := s.vars.booted M s.history) _ ?_).mono
      (fun _ => Booting.of_idled) fun _ _ _ => trivial
    exact ⟨[], by simp [BootVariables.booted, BootVariables.forBoot], by simp⟩
  refine ⟨halways.always, ?_⟩
  rintro ⟨vars, history, stdout⟩ hends
  obtain ⟨F, rfl, rfl⟩ := (bootVM_end hfresh).mp ⟨stdout, hends⟩
  exact ⟨F, rfl, rfl⟩

theorem idle_of_mem_replicate {n : ℕ} {line c : CommandLine} (hline : Idle line)
    (hc : c ∈ List.replicate n line) : Idle c := by
  rwa [List.eq_of_mem_replicate hc]

theorem Finding.idled {v : BootVariables} (F : Finding M v q) {s : Shell BootVariables}
    (hs : s.history = F.history) : Idled q s :=
  ⟨_, hs, fun _ hc => idle_of_mem_replicate (idle_novaShow v) hc⟩

/-- The VM is booted first and joins the swarm last, once it is configured. -/
theorem provisionVM_holds (M : Master) (arguments : List String)
    (q : List CommandLine) :
    let v := (provisionVM.start arguments q).vars
    (provisionVM M).Holds (fun t => Booting M v q t.history)
      (fun t => ∃ P : Provisioning M (v.forBoot M q) (v.booted M q),
        t.history = P.configured ++ [P.join])
      (provisionVM.start arguments q) := by
  intro v
  have hfresh : v.Fresh := ⟨rfl, rfl, rfl, rfl⟩
  refine .cons (bootVM_holds hfresh) ?_
  rintro ⟨vars, history, stdout⟩ ⟨F, rfl, rfl⟩
  refine .last (.branch (fun _ => ?_) fun hstays => by simp at hstays)
  have hidles := keeps_idled_untilSucceeds (M := M) (q := v.booted M q)
    ⟨F.vars, F.history, stdout⟩ (F.idled rfl)
  refine .cons (R := fun w => Idled (v.booted M q) w ∧
    ∃ S : Success M F.vars.configVM F.history,
      w.history = S.history ∧ w.vars = F.vars.exited 0) ?_ ?_
  · refine ⟨fun t ht => .of_idled (hidles.always t ht), ?_⟩
    rintro ⟨vars, history, stdout'⟩ hends
    obtain ⟨S, rfl, rfl⟩ := (untilSucceeds_end issues_configVM).mp ⟨stdout', hends⟩
    exact ⟨hidles.ends _ hends, S, rfl, rfl⟩
  · rintro ⟨vars, history, stdout'⟩ ⟨hidled, S, rfl, rfl⟩
    have hconfigured : Booting M v q S.history := .of_idled hidled
    have hjoined : Booting M v q (S.history ++ [F.vars.join]) :=
      Booting.joined ⟨F, S⟩
    refine .act_cons hconfigured <| .act_cons hconfigured <| .act_cons hconfigured ?_
    refine .act_cons hconfigured <| .act_cons hconfigured <| .act_cons hconfigured ?_
    exact .last (.act hjoined hjoined ⟨⟨F, S⟩, rfl⟩)

end Boot

/-! ## What is left of a history -/

theorem changes_append (q l : List CommandLine) :
    changes (q ++ l) = changes q ++ changes l := List.filterMap_append ..

theorem words_toString (n : ℕ) : Awk.words (toString n) = [toString n] := by
  apply Awk.words_of_plain
  · intro hempty
    have hlength := congrArg (fun text => text.toList.length) hempty
    simp at hlength
  · intro c hc
    have hdigit := Awk.isDigit_of_mem_repr (n := n) hc
    refine ⟨?_, ?_, ?_⟩ <;> rintro rfl <;> revert hdigit <;> decide

theorem words_childName (n : ℕ) : Awk.words (childName n) = [childName n] := by
  apply Awk.words_of_plain
  · intro hempty
    have hlength := congrArg (fun text => text.toList.length) hempty
    simp [childName] at hlength
  · intro c hc
    rw [childName, String.toList_append, List.mem_append] at hc
    rcases hc with hc | hc
    · have hblankless : Awk.Blankless "child-vm-" := by decide
      exact hblankless c hc
    · have hdigit := Awk.isDigit_of_mem_repr (n := n) hc
      refine ⟨?_, ?_, ?_⟩ <;> rintro rfl <;> revert hdigit <;> decide

section Booted

variable {M : Master} {v : BootVariables} {q H : List CommandLine} {name : String}

theorem novaChange_novaBoot {image : String} (hname : Awk.words v.VM_NAME = [name]) :
    novaChange (v.novaBoot image) = some (.booted name) := by
  have hline : ∃ options,
      v.novaBoot image = "nova" :: "boot" :: (options ++ [name]) := by
    rw [BootVariables.novaBoot, hname]
    exact ⟨_, rfl⟩
  obtain ⟨options, hoptions⟩ := hline
  rw [hoptions, novaChange, List.getLast?_concat]
  rfl

theorem Provisioning.idled (P : Provisioning M v q) :
    ∃ l, P.configured = q ++ l ∧ ∀ c ∈ l, Idle c := by
  refine ⟨List.replicate (P.finding.looks + 1) v.novaShow ++
    List.replicate (P.configuring.tries + 1) P.finding.vars.configVM, ?_, ?_⟩
  · simp only [Provisioning.configured, Success.history, Finding.history,
      List.append_assoc]
  · intro c hc
    rcases List.mem_append.mp hc with hc | hc
    · exact idle_of_mem_replicate (idle_novaShow v) hc
    · exact idle_of_mem_replicate (idle_configVM _) hc

/-- The commands change the VMs in this way, and none of them begins a cycle. -/
structure Makes (l : List CommandLine) (made : List NovaChange) : Prop where
  unread : dockerInfo ∉ l
  changes : changes l = made

theorem Makes.append {l l' : List CommandLine} {made made' : List NovaChange}
    (h : Makes l made) (h' : Makes l' made') : Makes (l ++ l') (made ++ made') where
  unread := by simp [h.unread, h'.unread]
  changes := by rw [changes_append, h.changes, h'.changes]

theorem makes_idle {l : List CommandLine} (h : ∀ c ∈ l, Idle c) : Makes l [] where
  unread hmem := (h _ hmem).2.2 rfl
  changes := List.filterMap_eq_nil_iff.mpr fun c hc => (h c hc).1

theorem makes_booted (hname : Awk.words v.VM_NAME = [name]) :
    ∃ l, v.booted M q = q ++ l ∧ Makes l [.booted name] := by
  have hboot : novaChange
      ((v.forBoot M q).novaBoot (v.forBoot M q).IMAGE_ID) = some (.booted name) :=
    novaChange_novaBoot hname
  refine ⟨_, rfl, ?_, ?_⟩
  · simp [dockerInfo, novaImageList, BootVariables.novaBoot]
  · simp [changes, hboot, idle_novaImageList.1]

theorem makes_join (v : BootVariables) : Makes [v.join] [] where
  unread := by
    have hjoin : isJoin v.join = true := by simp [isJoin, BootVariables.join]
    intro hmem
    rw [← List.mem_singleton.mp hmem] at hjoin
    exact absurd hjoin (by decide)
  changes := by simp [changes, BootVariables.join, novaChange]

theorem makes_delete (name : String) :
    Makes [["nova", "delete", name]] [.deleted name] where
  unread := by simp [dockerInfo]
  changes := rfl

theorem Provisioning.makes (hname : Awk.words v.VM_NAME = [name])
    (P : Provisioning M (v.forBoot M q) (v.booted M q)) :
    ∃ l, P.configured ++ [P.join] = q ++ l ∧ Makes l [.booted name] := by
  obtain ⟨boot, hboot, hmakes⟩ := makes_booted (M := M) (q := q) hname
  obtain ⟨l, hl, hidle⟩ := P.idled
  refine ⟨boot ++ l ++ [P.join], ?_, ?_⟩
  · rw [hl, ← List.append_assoc, ← List.append_assoc, ← hboot]
  · exact (hmakes.append (makes_idle hidle)).append (makes_join _)

/-- `provisionVM.sh` boots at most the one VM. -/
theorem Booting.makes (hname : Awk.words v.VM_NAME = [name]) (h : Booting M v q H) :
    ∃ l made, H = q ++ l ∧ Makes l made ∧ made <+: [.booted name] := by
  cases h with
  | before hidle => exact ⟨_, [], rfl, makes_idle hidle, List.nil_prefix⟩
  | booted hidle =>
      obtain ⟨boot, hboot, hmakes⟩ := makes_booted (M := M) (q := q) hname
      refine ⟨boot ++ _, _, ?_, hmakes.append (makes_idle hidle), List.prefix_refl _⟩
      rw [hboot, List.append_assoc]
  | joined P =>
      obtain ⟨l, hl, hmakes⟩ := P.makes hname
      exact ⟨l, _, hl, hmakes, List.prefix_refl _⟩

end Booted

/-! ## The cycles -/

/-- What a cycle reads that begins after these commands. -/
def Master.cycleAt (M : Master) (history : List CommandLine) : ScalerCycle where
  STATE := Scaler.STATE (M.lines (history ++ [dockerInfo]))
  info := M.lines (history ++ [dockerInfo, dockerInfo])

/-- The scaler looks for a VM that it can delete. -/
def Scaler.LooksForIdle (s : Scaler) (c : ScalerCycle) : Prop :=
  c.STATE = some .low ∧ 0 < s.PROVISION ∧ Cluster.LIMIT_TIME < s.DURATION

instance (s : Scaler) (c : ScalerCycle) : Decidable (s.LooksForIdle c) :=
  inferInstanceAs (Decidable (_ ∧ _))

section Cycles

variable (M : Master) (s : Scaler) (history : List CommandLine)

/-- The commands with which a cycle begins. -/
def Master.readings : List CommandLine :=
  if s.LooksForIdle (M.cycleAt history) then [dockerInfo, dockerInfo] else [dockerInfo]

/-- The variables of the loop after the cycle, and its command. -/
def Master.outcome : Scaler × Option ScalerCommand := s.cycle (M.cycleAt history)

/-- The change of the VMs that a cycle asks for. -/
def Master.cycleChanges : List NovaChange :=
  (M.outcome s history).2.toList.map ScalerCommand.change

/-- The commands of one cycle. -/
def IsCycle (pass : List CommandLine) : Prop :=
  ∃ l, pass = M.readings s history ++ l ∧ Makes l (M.cycleChanges s history)

/-- The commands of a cycle that has not ended. -/
def BeginsCycle (pass : List CommandLine) : Prop :=
  pass <+: M.readings s history ∨
    ∃ l made, pass = M.readings s history ++ l ∧ Makes l made ∧
      made <+: M.cycleChanges s history

end Cycles

/-- One cycle, from the variables of the loop and the commands so far to those
after it. -/
inductive CycleStep (M : Master) :
    Scaler × List CommandLine → Scaler × List CommandLine → Prop where
  | cycle {s : Scaler} {history pass : List CommandLine}
      (h : IsCycle M s history pass) :
      CycleStep M (s, history) ((M.outcome s history).1, history ++ pass)

/-- The commands in front of the loop. -/
def setup : List CommandLine := [ipAddr, novaImageList]

/-- Since `before` the loop has made some cycles, one after another, and perhaps
begun another one. -/
def PerformsCycles (M : Master) (before history : List CommandLine) : Prop :=
  ∃ s h, ReflTransGen (CycleStep M) ({}, before ++ setup) (s, h) ∧
    ∃ l, history = h ++ l ∧ BeginsCycle M s h l

section Cycles

variable {M : Master} {s : Scaler} {history pass : List CommandLine}

theorem changes_readings : changes (M.readings s history) = [] := by
  rw [Master.readings]
  split <;> decide

theorem isJoin_readings : ∀ c ∈ M.readings s history, isJoin c = false := by
  rw [Master.readings]
  split <;> decide

theorem IsCycle.changes (h : IsCycle M s history pass) :
    changes (history ++ pass) = changes history ++ M.cycleChanges s history := by
  obtain ⟨l, rfl, hmakes⟩ := h
  rw [changes_append, changes_append, changes_readings, hmakes.changes, List.nil_append]

theorem beginsCycle_reading (h : pass <+: M.readings s history) :
    BeginsCycle M s history pass := Or.inl h

/-- The number is counted up when a VM is booted. -/
theorem Master.outcome_VM_ID : (M.outcome s history).1.VM_ID = s.VM_ID +
    (M.cycleChanges s history).countP fun change => change matches .booted _ := by
  have hrun := s.cycle_run (M.cycleAt history)
  rw [cycleChanges, outcome]
  generalize s.cycle (M.cycleAt history) = result at hrun
  cases hrun <;> rfl

end Cycles

/-! ## One pass -/

section Pass

variable {M : Master} {u : Shell WatchVariables} {H : List CommandLine}

/-- The variables with which `provisionVM.sh` begins. -/
def childVars (u : Shell WatchVariables) : BootVariables :=
  (provisionVM.start u.vars.arguments u.history).vars

/-- The histories of a pass that begins in the state `u`. -/
inductive Watched (M : Master) (u : Shell WatchVariables) :
    List CommandLine → Prop where
  | reading {l : List CommandLine} (h : l <+: M.readings u.vars.scaler u.history) :
      Watched M u (u.history ++ l)
  | deleted {name : String}
      (hreadings : M.readings u.vars.scaler u.history = [dockerInfo, dockerInfo])
      (hcommand : (M.outcome u.vars.scaler u.history).2 = some (.novaDelete name)) :
      Watched M u (u.history ++ [dockerInfo, dockerInfo] ++ [["nova", "delete", name]])
  | booting {H : List CommandLine}
      (hreadings : M.readings u.vars.scaler u.history = [dockerInfo])
      (hcommand : (M.outcome u.vars.scaler u.history).2 =
        some (.provisionVM u.vars.scaler.VM_ID))
      (h : Booting M (childVars u) (u.history ++ [dockerInfo]) H) : Watched M u H

/-- What holds when the pass has ended. -/
structure PassEnd (M : Master) (u t : Shell WatchVariables) : Prop where
  watched : Watched M u t.history
  scaler : t.vars.scaler = (M.outcome u.vars.scaler u.history).1
  IMAGE_ID : t.vars.IMAGE_ID = u.vars.IMAGE_ID
  CLUSTER_ID : t.vars.CLUSTER_ID = u.vars.CLUSTER_ID
  cycle : ∃ pass, t.history = u.history ++ pass ∧
    IsCycle M u.vars.scaler u.history pass

theorem childVars_VM_NAME (u : Shell WatchVariables) :
    (childVars u).VM_NAME = childName u.vars.scaler.VM_ID := by
  rw [childVars, provisionVM.start, WatchVariables.arguments, words_toString]
  rfl

theorem childVars_name (u : Shell WatchVariables) :
    Awk.words (childVars u).VM_NAME = [childName u.vars.scaler.VM_ID] := by
  rw [childVars_VM_NAME, words_childName]

theorem words_vmName {lines : List String} {name : String}
    (hname : Awk.vmName (lines.map Awk.words) = name) (hne : name ≠ "") :
    Awk.words name = [name] := by
  apply Awk.words_of_plain hne
  have hblankless : Awk.Blankless
        ((lines.map Awk.words).foldl Awk.body {}).CONT_ID ∧
      Awk.Blankless ((lines.map Awk.words).foldl Awk.body {}).CONTS := by
    refine List.foldlRecOn (motive := fun vars : Awk.Variables =>
      Awk.Blankless vars.CONT_ID ∧ Awk.Blankless vars.CONTS) _ _ ?_ ?_
    · exact ⟨by decide, by decide⟩
    · rintro vars ⟨hCONT_ID, hCONTS⟩ line hline
      obtain ⟨text, -, rfl⟩ := List.mem_map.mp hline
      have hfirst : Awk.Blankless (Awk.beforeColon (Awk.field 1 (Awk.words text))) := by
        intro c hc
        rw [Awk.beforeColon, String.toList_ofList] at hc
        exact Awk.blankless_field 1 text c ((List.takeWhile_prefix _).subset hc)
      have hCONT_ID' : Awk.Blankless (Awk.body vars (Awk.words text)).CONT_ID := by
        simp only [Awk.body]
        split
        · exact hfirst
        · exact hCONT_ID
      refine ⟨hCONT_ID', ?_⟩
      simp only [Awk.body] at hCONT_ID' ⊢
      split
      · exact hCONT_ID'
      · exact hCONTS
  rw [← hname]
  exact hblankless.2

/-- The last command of a pass changes nothing that matters. -/
theorem PassEnd.counted {t : Shell WatchVariables} (h : PassEnd M u t) :
    PassEnd M u { t with vars := t.vars.counted } :=
  ⟨h.watched, h.scaler, h.IMAGE_ID, h.CLUSTER_ID, h.cycle⟩

theorem dockerInfo_prefix_readings (s : Scaler) (history : List CommandLine) :
    [dockerInfo] <+: M.readings s history := by
  rw [Master.readings]
  split
  · exact List.prefix_append ..
  · exact List.prefix_refl _

theorem watched_start : Watched M u u.history := by
  simpa using Watched.reading (M := M) (u := u) List.nil_prefix

theorem watched_read : Watched M u (u.history ++ [dockerInfo]) :=
  .reading (dockerInfo_prefix_readings ..)

/-- The state when `STATE` is known. -/
def readState (M : Master) (u : Shell WatchVariables) : Shell WatchVariables :=
  { u with
    vars := u.vars.foundState (M.output (u.history ++ [dockerInfo]))
    history := u.history ++ [dockerInfo] }

/-- A pass in which the loop does nothing after its readings. -/
theorem passEnd_idle {t : Shell WatchVariables}
    (hhistory : t.history = u.history ++ M.readings u.vars.scaler u.history)
    (hscaler : M.outcome u.vars.scaler u.history = (t.vars.scaler, none))
    (hIMAGE_ID : t.vars.IMAGE_ID = u.vars.IMAGE_ID)
    (hCLUSTER_ID : t.vars.CLUSTER_ID = u.vars.CLUSTER_ID) : PassEnd M u t := by
  refine ⟨?_, by rw [hscaler], hIMAGE_ID, hCLUSTER_ID, _, hhistory, [], ?_, ?_⟩
  · rw [hhistory]
    exact .reading (List.prefix_refl _)
  · rw [List.append_nil]
  · rw [Master.cycleChanges, hscaler]
    exact makes_idle (by simp)

/-- The variables of the loop after a deletion. -/
def Scaler.afterDeletion (s : Scaler) : Scaler :=
  { s with DURATION := 0, PROVISION := s.PROVISION - 1 }

theorem deprovision_holds {name : String}
    (hlooks : u.vars.scaler.LooksForIdle (M.cycleAt u.history))
    (hname : Awk.vmName (M.cycleAt u.history).info = name)
    (hcycle : M.outcome u.vars.scaler u.history = if name ≠ "" then
        (u.vars.scaler.afterDeletion, some (.novaDelete name))
      else (u.vars.scaler, none)) :
    (deprovision M).Holds (fun t => Watched M u t.history) (PassEnd M u)
      (readState M u) := by
  let s : Shell WatchVariables :=
    { readState M u with
      vars := (readState M u).vars.foundName
        (M.output (u.history ++ [dockerInfo] ++ [dockerInfo]))
      history := u.history ++ [dockerInfo] ++ [dockerInfo] }
  have hreadings : M.readings u.vars.scaler u.history = [dockerInfo, dockerInfo] :=
    if_pos hlooks
  have hhistory : s.history = u.history ++ [dockerInfo, dockerInfo] := by simp [s]
  have hread : Watched M u s.history := by
    rw [hhistory, ← hreadings]
    exact .reading (List.prefix_refl _)
  have hVM_NAME : s.vars.VM_NAME = name := by
    rw [← hname]
    simp [s, WatchVariables.foundName, Master.cycleAt, Master.lines]
  refine .act_cons watched_read <| .last (.branch (s := s) ?_ ?_)
  · intro htest
    have hne : name ≠ "" := by
      rw [← hVM_NAME]
      exact of_decide_eq_true htest
    have hword : Awk.words name = [name] := words_vmName hVM_NAME hne
    rw [if_pos hne] at hcycle
    have hline : s.vars.novaDelete = ["nova", "delete", name] := by
      rw [WatchVariables.novaDelete, hVM_NAME, hword]
      rfl
    have hdeleted : Watched M u (s.history ++ [s.vars.novaDelete]) := by
      rw [hline, hhistory]
      exact .deleted hreadings (congrArg Prod.snd hcycle)
    refine .act_cons hread <| .last (.act hdeleted hdeleted ?_)
    refine ⟨hdeleted, ?_, rfl, rfl, [dockerInfo, dockerInfo] ++ [s.vars.novaDelete],
      ?_, [s.vars.novaDelete], ?_, ?_⟩
    · exact (congrArg Prod.fst hcycle).symm
    · exact (congrArg (· ++ [s.vars.novaDelete]) hhistory).trans (List.append_assoc ..)
    · rw [hreadings]
    · rw [Master.cycleChanges, hcycle, hline]
      exact makes_delete name
  · intro htest
    have hempty : name = "" := by
      rw [← hVM_NAME]
      exact not_not.mp (of_decide_eq_false htest)
    rw [if_neg (not_not.mpr hempty)] at hcycle
    refine .skip hread (passEnd_idle ?_ hcycle rfl rfl)
    rw [hhistory, hreadings]

theorem watchLow_holds (hlow : (M.cycleAt u.history).STATE = some .low) :
    (watchLow M).Holds (fun t => Watched M u t.history) (PassEnd M u)
      (readState M u) := by
  have hcycle : M.outcome u.vars.scaler u.history = if 0 < u.vars.scaler.PROVISION then
      if Cluster.LIMIT_TIME < u.vars.scaler.DURATION then
        if Awk.vmName (M.cycleAt u.history).info ≠ "" then
          (u.vars.scaler.afterDeletion,
            some (.novaDelete (Awk.vmName (M.cycleAt u.history).info)))
        else (u.vars.scaler, none)
      else ({ u.vars.scaler with DURATION := u.vars.scaler.DURATION + 5 }, none)
      else (u.vars.scaler, none) := by
    simp only [Master.outcome, Scaler.cycle, hlow]
    rfl
  have hread (hlooks : ¬u.vars.scaler.LooksForIdle (M.cycleAt u.history)) :
      (readState M u).history = u.history ++ M.readings u.vars.scaler u.history := by
    rw [Master.readings, if_neg hlooks]
    rfl
  refine .branch (fun htest => ?_) fun htest => ?_
  · have hprovision : 0 < u.vars.scaler.PROVISION := of_decide_eq_true htest
    rw [if_pos hprovision] at hcycle
    refine .branch (fun hlimit => ?_) fun hlimit => ?_
    · have hduration : Cluster.LIMIT_TIME < u.vars.scaler.DURATION :=
        of_decide_eq_true hlimit
      rw [if_pos hduration] at hcycle
      exact deprovision_holds ⟨hlow, hprovision, hduration⟩ rfl hcycle
    · have hduration : ¬Cluster.LIMIT_TIME < u.vars.scaler.DURATION :=
        of_decide_eq_false hlimit
      rw [if_neg hduration] at hcycle
      refine .act watched_read watched_read ?_
      exact passEnd_idle (hread fun hlooks => hduration hlooks.2.2) hcycle rfl rfl
  · have hprovision : ¬0 < u.vars.scaler.PROVISION := of_decide_eq_false htest
    rw [if_neg hprovision] at hcycle
    refine .skip watched_read ?_
    exact passEnd_idle (hread fun hlooks => hprovision hlooks.2.1) hcycle rfl rfl

theorem readings_of_state (hstate : (M.cycleAt u.history).STATE ≠ some .low) :
    M.readings u.vars.scaler u.history = [dockerInfo] :=
  if_neg fun hlooks => hstate hlooks.1

theorem provision_holds (hexceeded : (M.cycleAt u.history).STATE = some .exceeded) :
    (provision M).Holds (fun t => Watched M u t.history) (PassEnd M u)
      (readState M u) := by
  have hcycle : M.outcome u.vars.scaler u.history =
      ({ u.vars.scaler with
          PROVISION := u.vars.scaler.PROVISION + 1
          VM_ID := u.vars.scaler.VM_ID + 1 },
        some (.provisionVM u.vars.scaler.VM_ID)) := by
    simp only [Master.outcome, Scaler.cycle, hexceeded]
  have hcommand := congrArg Prod.snd hcycle
  have hreadings : M.readings u.vars.scaler u.history = [dockerInfo] :=
    readings_of_state (by simp [hexceeded])
  refine .cons (R := fun t => ∃ P : Provisioning M
      ((childVars u).forBoot M (u.history ++ [dockerInfo]))
      ((childVars u).booted M (u.history ++ [dockerInfo])),
    t.vars = (readState M u).vars ∧ t.history = P.configured ++ [P.join]) ?_ ?_
  · refine .call watched_read ?_
    refine (provisionVM_holds M u.vars.arguments (u.history ++ [dockerInfo])).mono ?_ ?_
    · exact fun t ht => .booting hreadings hcommand ht
    · rintro t - ⟨P, hP⟩
      exact ⟨P, rfl, hP⟩
  · rintro ⟨vars, history, stdout⟩ ⟨P, rfl, rfl⟩
    have hjoined : Watched M u (P.configured ++ [P.join]) :=
      .booting hreadings hcommand (.joined P)
    obtain ⟨l, hl, hmakes⟩ := P.makes (childVars_name u)
    refine .last (.act hjoined hjoined
      ⟨hjoined, ?_, rfl, rfl, [dockerInfo] ++ l, ?_, l, ?_, ?_⟩)
    · rw [hcycle]
      rfl
    · exact hl.trans (List.append_assoc ..)
    · rw [hreadings]
    · rw [Master.cycleChanges, hcommand]
      exact hmakes

theorem watchOnce_holds (M : Master) (u : Shell WatchVariables) :
    (watchOnce M).Holds (fun t => Watched M u t.history) (PassEnd M u) u := by
  refine .act_cons watched_start <| .cons (R := PassEnd M u) ?_ ?_
  · refine .branch (fun htest => watchLow_holds (of_decide_eq_true htest)) fun hlow => ?_
    refine .branch (fun htest => provision_holds (of_decide_eq_true htest)) ?_
    intro hexceeded
    have hlow' : (M.cycleAt u.history).STATE ≠ some .low := of_decide_eq_false hlow
    have hexceeded' : (M.cycleAt u.history).STATE ≠ some .exceeded :=
      of_decide_eq_false hexceeded
    have hcycle : M.outcome u.vars.scaler u.history = (u.vars.scaler, none) := by
      rw [Master.outcome, Scaler.cycle]
      split
      · exact absurd ‹_› hlow'
      · exact absurd ‹_› hexceeded'
      · rfl
    refine .skip watched_read (passEnd_idle ?_ hcycle rfl rfl)
    rw [readings_of_state hlow']
  · intro t ht
    exact .last (.act ht.watched ht.watched ht.counted)

end Pass

/-! ## The run -/

/-- The variables of the script in front of the loop. -/
def watchVars (M : Master) (before : List CommandLine) : WatchVariables :=
  (({} : WatchVariables).foundHost (M.output (before ++ [ipAddr]))).foundImage
    (M.output (before ++ [ipAddr] ++ [novaImageList]))

/-- The number of VMs that have been booted. -/
def bootsIn (history : List CommandLine) : ℕ :=
  (changes history).countP fun change => change matches .booted _

/-- A VM that joins the swarm has just been booted under its number, which counts
the VMs, and configured with the address that Nova has shown.  If no image had
been found when the script began, the arguments were shifted, and the VM is given
no cluster. -/
def JoinsProvisioned (M : Master) (before p : List CommandLine) (c : CommandLine) :
    Prop :=
  ∃ (VM_ID : ℕ) (q : List CommandLine) (v : BootVariables)
    (P : Provisioning M (v.forBoot M q) (v.booted M q)),
    before <+: q ∧ p = P.configured ∧ c = P.join ∧
      v.VM_NAME = childName VM_ID ∧ bootsIn q + 180 = bootsIn before + VM_ID ∧
      v.CLUSTER_ID = if (watchVars M before).IMAGE_ID = "" then ""
        else (watchVars M before).CLUSTER_ID

theorem Awk.blankless_hostIp (lines : List String) :
    Awk.Blankless (Awk.hostIp lines) := by
  rw [Awk.hostIp]
  split
  · intro c hc
    rw [String.toList_ofList] at hc
    exact Awk.blankless_field 2 _ c ((List.takeWhile_prefix _).subset hc)
  · decide

/-- Every join since `before` is of that kind. -/
def WellJoined (M : Master) (before H : List CommandLine) : Prop :=
  ∀ p c rest, H = p ++ c :: rest → before <+: p → isJoin c = true →
    JoinsProvisioned M before p c

section Run

variable {M : Master} {before H l : List CommandLine} {c : CommandLine}
  {u : Shell WatchVariables}

theorem wellJoined_start : WellJoined M before before := by
  intro p c rest hsplit hp
  have hlength := hp.length_le
  rw [hsplit] at hlength
  simp at hlength

theorem WellJoined.concat (h : WellJoined M before H)
    (hc : isJoin c = true → JoinsProvisioned M before H c) :
    WellJoined M before (H ++ [c]) := by
  intro p c' rest hsplit hp hjoin
  rcases append_cons_eq_concat hsplit with ⟨rfl, rfl⟩ | ⟨rest', hsplit'⟩
  · exact hc hjoin
  · exact h p c' rest' hsplit' hp hjoin

theorem WellJoined.append (h : WellJoined M before H)
    (hl : ∀ c ∈ l, isJoin c = false) : WellJoined M before (H ++ l) := by
  induction l generalizing H with
  | nil => simpa using h
  | cons c l ih =>
      obtain ⟨hc, hrest⟩ := List.forall_mem_cons.mp hl
      have hidle := h.concat fun hjoin => absurd (hjoin.symm.trans hc) (by simp)
      have hnext := ih hidle hrest
      simpa using hnext

theorem isJoin_nova (rest : List String) : isJoin ("nova" :: rest) = false := by
  cases rest <;> rfl

/-- What holds whenever a pass begins. -/
structure LoopHead (M : Master) (before : List CommandLine)
    (u : Shell WatchVariables) : Prop where
  cycles : ReflTransGen (CycleStep M) ({}, before ++ setup) (u.vars.scaler, u.history)
  since : before <+: u.history
  number : bootsIn u.history + 180 = bootsIn before + u.vars.scaler.VM_ID
  IMAGE_ID : u.vars.IMAGE_ID = (watchVars M before).IMAGE_ID
  CLUSTER_ID : u.vars.CLUSTER_ID = (watchVars M before).CLUSTER_ID
  joined : WellJoined M before u.history

namespace LoopHead

variable (h : LoopHead M before u)

include h

theorem child_cluster : (childVars u).CLUSTER_ID =
    if (watchVars M before).IMAGE_ID = "" then ""
    else (watchVars M before).CLUSTER_ID := by
  have himage : Awk.Blankless (watchVars M before).IMAGE_ID := Awk.blankless_imageId _
  have hcluster : Awk.words (watchVars M before).CLUSTER_ID =
      [(watchVars M before).CLUSTER_ID] := by
    refine Awk.words_of_plain ?_ ((Awk.blankless_hostIp _).append (by decide))
    intro hempty
    have hlength := congrArg (fun text => text.toList.length) hempty
    simp [watchVars, foundHost, foundImage] at hlength
  rw [childVars, provisionVM.start, WatchVariables.arguments, words_toString,
    h.IMAGE_ID, h.CLUSTER_ID, hcluster]
  by_cases hempty : (watchVars M before).IMAGE_ID = ""
  · rw [if_pos hempty, hempty]
    rfl
  · rw [if_neg hempty, Awk.words_of_plain hempty himage]
    rfl

theorem wellJoined (hw : Watched M u H) : WellJoined M before H := by
  have hbooted (v : BootVariables) : ∀ c ∈ [novaImageList, v.novaBoot v.IMAGE_ID],
      isJoin c = false := by
    simp [isJoin_nova, novaImageList, BootVariables.novaBoot]
  have hread (l : List CommandLine) (hl : l <+: M.readings u.vars.scaler u.history) :
      WellJoined M before (u.history ++ l) :=
    h.joined.append fun c hc => isJoin_readings c (hl.subset hc)
  cases hw with
  | reading hl => exact hread _ hl
  | deleted hreadings =>
      refine (hread _ ?_).concat fun hjoin => ?_
      · rw [hreadings]
      · rw [isJoin_nova] at hjoin
        exact absurd hjoin (by simp)
  | booting _ _ hboot =>
      have hinfo := hread [dockerInfo] (dockerInfo_prefix_readings ..)
      cases hboot with
      | before hidle => exact hinfo.append fun c hc => (hidle c hc).2.1
      | booted hidle =>
          exact (hinfo.append (hbooted _)).append fun c hc => (hidle c hc).2.1
      | joined P =>
          obtain ⟨l, hl, hidle⟩ := P.idled
          have hconfigured : WellJoined M before P.configured := by
            rw [hl]
            exact (hinfo.append (hbooted _)).append fun c hc => (hidle c hc).2.1
          refine hconfigured.concat fun _ =>
            ⟨u.vars.scaler.VM_ID, _, _, P, ?_, rfl, rfl, childVars_VM_NAME u, ?_,
              h.child_cluster⟩
          · exact h.since.trans (List.prefix_append ..)
          · have hinfo : changes [dockerInfo] = [] := rfl
            rw [← h.number, bootsIn, changes_append, hinfo, List.append_nil, bootsIn]

theorem performs {l : List CommandLine}
    (hl : BeginsCycle M u.vars.scaler u.history l) :
    PerformsCycles M before (u.history ++ l) :=
  ⟨_, _, h.cycles, l, rfl, hl⟩

theorem performs_watched (hw : Watched M u H) : PerformsCycles M before H := by
  cases hw with
  | reading hl => exact h.performs (.inl hl)
  | deleted hreadings hcommand =>
      rw [List.append_assoc]
      refine h.performs
        (.inr ⟨_, _, congrArg (· ++ _) hreadings.symm, makes_delete _, ?_⟩)
      rw [Master.cycleChanges, hcommand]
      exact List.prefix_refl _
  | booting hreadings hcommand hboot =>
      obtain ⟨l, made, rfl, hmakes, hmade⟩ := hboot.makes (childVars_name u)
      rw [List.append_assoc]
      refine h.performs (.inr ⟨l, made, congrArg (· ++ l) hreadings.symm, hmakes, ?_⟩)
      rw [Master.cycleChanges, hcommand]
      exact hmade

theorem next {t : Shell WatchVariables} (ht : PassEnd M u t) : LoopHead M before t := by
  obtain ⟨pass, hpass, hcycle⟩ := ht.cycle
  refine ⟨?_, ?_, ?_, ht.IMAGE_ID.trans h.IMAGE_ID, ht.CLUSTER_ID.trans h.CLUSTER_ID,
    h.wellJoined ht.watched⟩
  · rw [ht.scaler, hpass]
    exact h.cycles.tail (.cycle hcycle)
  · rw [hpass]
    exact h.since.trans (List.prefix_append ..)
  · have hcount := h.number
    rw [bootsIn] at hcount
    rw [bootsIn, hpass, hcycle.changes, List.countP_append, ht.scaler,
      Master.outcome_VM_ID]
    omega

end LoopHead

theorem awkTest_holds (M : Master) (before : List CommandLine) :
    (awkTest M).Holds
      (fun t => ((∃ l, l <+: setup ∧ t.history = before ++ l) ∨
          PerformsCycles M before t.history) ∧ WellJoined M before t.history)
      (fun _ => False) (awkTest.start before) := by
  have hsetup {l : List CommandLine} (hl : l <+: setup) :
      ((∃ l', l' <+: setup ∧ before ++ l = before ++ l') ∨
        PerformsCycles M before (before ++ l)) ∧ WellJoined M before (before ++ l) := by
    refine ⟨Or.inl ⟨l, hl, rfl⟩, wellJoined_start.append fun c hc => ?_⟩
    have hnever : ∀ c ∈ setup, isJoin c = false := by decide
    exact hnever c (hl.subset hc)
  have hstart := hsetup (l := []) List.nil_prefix
  rw [List.append_nil] at hstart
  have haddress := hsetup (l := [ipAddr]) (List.prefix_append ..)
  have himages := hsetup (l := setup) (List.prefix_refl _)
  have himages' : (before ++ [ipAddr]) ++ [novaImageList] = before ++ setup :=
    List.append_assoc ..
  refine .act_cons hstart <| .act_cons haddress <| .last ?_
  refine .loop (J := fun u => LoopHead M before u) ?_ ?_ ?_ ?_
  · refine ⟨?_, ?_, ?_, rfl, rfl, ?_⟩
    · exact himages' ▸ .refl
    · exact himages' ▸ List.prefix_append ..
    · refine congrArg (· + 180) ?_
      refine (congrArg bootsIn himages').trans ?_
      have hnone : changes setup = [] := rfl
      rw [bootsIn, changes_append, hnone, List.append_nil, bootsIn]
    · exact himages' ▸ himages.2
  · intro u h
    have hnow := h.performs (beginsCycle_reading List.nil_prefix)
    rw [List.append_nil] at hnow
    exact ⟨Or.inr hnow, h.joined⟩
  · intro u h _
    refine (watchOnce_holds M u).mono (fun t hw => ?_) fun t _ ht => h.next ht
    exact ⟨Or.inr (h.performs_watched hw), h.wellJoined hw⟩
  · intro u _ htest
    exact absurd htest (by simp)

end Run

/-- At every time of the run, every VM that has joined the swarm has directly
before been booted under its number, and configured with the first address that
Nova has shown. -/
theorem awkTest_joins_provisioned (M : Master) (before : List CommandLine) :
    (awkTest M).Holds (fun t => WellJoined M before t.history)
      (fun _ => False) (awkTest.start before) :=
  (awkTest_holds M before).mono (fun _ h => h.2) fun _ _ h => h

end LambdaOnOpenStack
