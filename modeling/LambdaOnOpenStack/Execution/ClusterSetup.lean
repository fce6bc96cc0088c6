import LambdaOnOpenStack.Execution.Provisioning

/-!
# Setting up the cluster

`cluster_init.sh` lets `create_snapshot.sh` boot the first VM, reads its address
off what that script has printed, and gives it to `cluster_setup.sh`, which
starts swarm on the master and lets the VM join it.  A file that a script is
redirected to holds what the script prints.
-/

namespace LambdaOnOpenStack

open Support Shell BootVariables

/-! ## create_snapshot.sh -/

namespace BootVariables

variable (v : BootVariables)

/-- The files that the new VM needs. -/
def copyFiles : CommandLine :=
  ["scp", "-o", "StrictHostKeyChecking=no", "-i"] ++ Awk.words v.KEY ++
    ["./Dockerfile", "./init_config_child.sh", "./configVM.sh"] ++
    Awk.words ("ubuntu@" ++ v.VM_IP ++ ":.")

def initConfigChild : CommandLine :=
  ["ssh", "-o", "StrictHostKeyChecking=no", "-i"] ++ Awk.words v.KEY ++
    Awk.words ("ubuntu@" ++ v.VM_IP) ++
    ["./init_config_child.sh"] ++ Awk.words v.CLUSTER_ID

def imageCreate : CommandLine :=
  ["nova", "image-create"] ++ Awk.words v.VM_NAME ++ ["ub-doc"]

end BootVariables

def createSnapshot (M : Master) : BootScript :=
  .block
    [assign fun v => { v.readConfig M with IMAGE := M.setting "IMAGE" },
      issue M fun v => v.novaBoot v.IMAGE,
      pollAddress M,
      untilSucceeds M (issue M copyFiles),
      echo fun _ => "scp done",
      issue M initConfigChild,
      echo fun _ => "ssh done",
      issue M imageCreate,
      capture M (fun _ => novaImageList) fun v lines =>
        { v with IMAGE_ID := Awk.imageId lines },
      echo fun v => unquoted ("VM_IP=" ++ v.VM_IP),
      echo fun v => unquoted ("IMAGE_ID=" ++ v.IMAGE_ID)]

def createSnapshot.start (history : List CommandLine) : Shell BootVariables where
  vars := { VM_NAME := "child-vm-0" }
  history := history

/-! ## cluster_setup.sh -/

structure SetupVariables where
  CHILD_VM_IP : String
  MASTER_SERVER_IP : String
  EXEC : ℕ := 1
  LOOP : ℕ := 0
  KEY : String := ""

namespace SetupVariables

variable (v : SetupVariables)

def consul : CommandLine :=
  ["sudo", "docker", "-H", "tcp://0.0.0.0:2375", "run", "-d", "-p", "8500:8500",
    "--name=consul", "progrium/consul", "-server", "-bootstrap"]

def manage : CommandLine :=
  ["sudo", "docker", "-H"] ++
    Awk.words ("tcp://" ++ v.MASTER_SERVER_IP ++ ":2375") ++
    ["run", "-d", "-p", "5001:2375", "swarm:1.1.1", "manage",
      "--strategy=binpack"] ++
    Awk.words ("--advertise=" ++ v.MASTER_SERVER_IP ++ ":2375") ++
    Awk.words ("consul://" ++ v.MASTER_SERVER_IP ++ ":8500")

def onChild : CommandLine :=
  ["ssh", "-o", "StrictHostKeyChecking=no", "-i"] ++ Awk.words v.KEY ++
    Awk.words ("ubuntu@" ++ v.CHILD_VM_IP)

/-- The docker daemon on the VM. -/
def daemon : CommandLine :=
  v.onChild ++ ["sudo", "docker", "-H", "tcp://0.0.0.0:2375", "-d"]

/-- The agent of swarm on the VM. -/
def joinChild : CommandLine :=
  v.onChild ++ ["sudo", "docker", "-H"] ++
    Awk.words ("tcp://" ++ v.CHILD_VM_IP ++ ":2375") ++
    ["run", "-d", "swarm:1.1.1", "join"] ++
    Awk.words ("--advertise=" ++ v.CHILD_VM_IP ++ ":2375") ++
    ["--heartbeat=15s", "--ttl=20s"] ++
    Awk.words ("consul://" ++ v.MASTER_SERVER_IP ++ ":8500")

/-- The variables after a turn of a loop. -/
def tried (EXEC : ℕ) : SetupVariables := { v with EXEC := EXEC, LOOP := v.LOOP + 1 }

/-- `[ $EXEC -gt 0 ] && [ $LOOP -lt 5 ]`. -/
def triesAgain : Bool := 0 < v.EXEC && v.LOOP < 5

end SetupVariables

abbrev SetupScript := Script (Shell SetupVariables)

open SetupVariables

/-- The first loop: `$?` after a command in the background is 0, whatever
becomes of the command. -/
def startDaemon : SetupScript :=
  .loop (fun s => s.vars.triesAgain) <| .block
    [echo fun _ => "******docker dameon*********",
      issueQuietly daemon,
      assign fun v => v.tried 0]

/-- The second loop. -/
def federate (M : Master) : SetupScript :=
  .loop (fun s => s.vars.triesAgain) <| .block
    [echo fun _ => "running federation *********",
      issue M joinChild,
      storeStatus M tried]

def clusterSetup (M : Master) : SetupScript :=
  .block
    [echo fun v => unquoted ("child::" ++ v.CHILD_VM_IP ++ "::"),
      assign fun v => { v with KEY := M.setting "KEY" },
      echo fun _ => "Creating consul",
      issue M fun _ => consul,
      echo fun _ => "Creating master",
      issue M manage,
      echo fun _ => "Starting child docker daemon",
      startDaemon,
      assign fun v => { v with LOOP := 0, EXEC := 1 },
      echo fun _ => "Creating child",
      federate M]

def clusterSetup.start (arguments : List String) (history : List CommandLine) :
    Shell SetupVariables where
  vars :=
    { CHILD_VM_IP := arguments.getD 0 ""
      MASTER_SERVER_IP := arguments.getD 1 "" }
  history := history

/-! ## cluster_init.sh -/

/-- The program that prints the last value that has been logged for a key. -/
def Awk.logged (key : String) (lines : List String) : String :=
  lines.foldl (fun value line =>
    if hasMatch (part 1 line) key then part 2 line else value) ""

/-- `snapshotLog` is the file `snapshot.log`. -/
structure InitVariables where
  MASTER_IP : String
  snapshotLog : List String := []
  VM_IP : String := ""
  IMAGE_ID : String := ""

/-- The second value is read from a file of another name. -/
def InitVariables.readLogs (M : Master) (v : InitVariables) : InitVariables :=
  { v with
    VM_IP := substituted [Awk.logged "VM_IP" v.snapshotLog]
    IMAGE_ID := substituted [Awk.logged "IMAGE_ID" (M.file "snaphot.log")] }

def chmodSetup : CommandLine := ["chmod", "770", "cluster_setup.sh"]

def clusterInit (M : Master) : Script (Shell InitVariables) :=
  .block
    [echo fun _ => "Starting to create VM  snapshot",
      .call (fun s => createSnapshot.start s.history) (createSnapshot M)
        (fun s t =>
          { s with
            vars := { s.vars with snapshotLog := t.stdout }
            history := t.history }),
      echo fun _ => "Finished creating snapshot",
      assign (InitVariables.readLogs M),
      echo fun v => unquoted ("on master script::" ++ v.VM_IP),
      echo fun v => unquoted ("on master script::" ++ v.IMAGE_ID),
      issue M fun _ => chmodSetup,
      echo fun _ => "executing cluster_setup",
      .call (fun s => clusterSetup.start
          (Awk.words s.vars.VM_IP ++ Awk.words s.vars.MASTER_IP) s.history)
        (clusterSetup M)
        (fun s t => { s with history := t.history, stdout := s.stdout ++ t.stdout })]

def clusterInit.start (MASTER_IP : String) (history : List CommandLine) :
    Shell InitVariables where
  vars := { MASTER_IP := MASTER_IP }
  history := history

/-! ## What the log hands over -/

namespace Awk

theorem unquoted_eq_self {text : String} (h : Blankless text) (hne : text ≠ "") :
    unquoted text = text := by
  rw [unquoted, words_of_plain hne h]
  rfl

theorem append_ne_empty {key : String} (hkey : key ≠ "") (value : String) :
    key ++ value ≠ "" := by
  intro hempty
  have hlist := congrArg String.toList hempty
  simp only [String.toList_append, String.toList_empty, List.append_eq_nil_iff] at hlist
  exact hkey (by simpa using hlist.1)

section Parts

variable {key : String} (hkey : '=' ∉ key.toList)

include hkey

theorem splitOnP_key (value : String) :
    (key ++ "=" ++ value).toList.splitOnP (· = '=') =
      key.toList :: value.toList.splitOnP (· = '=') := by
  have hplain : ∀ c ∈ key.toList, decide (c = '=') = false := by
    intro c hc
    rw [decide_eq_false_iff_not]
    rintro rfl
    exact hkey hc
  have hchars : (key ++ "=" ++ value).toList = key.toList ++ '=' :: value.toList := by
    simp
  rw [hchars, List.splitOnP_append_cons_of_forall_mem hplain _ (by decide)]

theorem part_one (value : String) : part 1 (key ++ "=" ++ value) = key := by
  rw [part, splitOnP_key hkey]
  simp

theorem part_two (value : String) : part 2 (key ++ "=" ++ value) = part 1 value := by
  rw [part, splitOnP_key hkey]
  simp [part]

theorem part_one_eq_self : part 1 key = key := by
  have hplain : ∀ c ∈ key.toList, decide (c = '=') = false := by
    intro c hc
    rw [decide_eq_false_iff_not]
    rintro rfl
    exact hkey hc
  rw [part, List.splitOnP_eq_singleton hplain]
  simp

end Parts

/-- Whatever has been printed before, the address is read back up to the first
`=` in it. -/
theorem logged_address (printed : List String) {VM_IP IMAGE_ID : String}
    (hVM_IP : Blankless VM_IP) (hIMAGE_ID : Blankless IMAGE_ID) :
    logged "VM_IP" (printed ++
      [unquoted ("VM_IP=" ++ VM_IP), unquoted ("IMAGE_ID=" ++ IMAGE_ID)]) =
      part 1 VM_IP := by
  have haddress : unquoted ("VM_IP=" ++ VM_IP) = "VM_IP" ++ "=" ++ VM_IP := by
    rw [unquoted_eq_self (.append (by decide) hVM_IP) (append_ne_empty (by decide) _)]
    rfl
  have himage : unquoted ("IMAGE_ID=" ++ IMAGE_ID) = "IMAGE_ID" ++ "=" ++ IMAGE_ID := by
    rw [unquoted_eq_self (.append (by decide) hIMAGE_ID) (append_ne_empty (by decide) _)]
    rfl
  have hfirst : hasMatch "VM_IP" "VM_IP" = true := by decide
  have hsecond : hasMatch "IMAGE_ID" "VM_IP" = false := by decide
  have hvalue : part 2 ("VM_IP" ++ "=" ++ VM_IP) = part 1 VM_IP :=
    part_two (by decide) VM_IP
  rw [logged, List.foldl_append, haddress, himage]
  simp only [List.foldl_cons, List.foldl_nil]
  rw [part_one (by decide), part_one (by decide), hfirst, hsecond, hvalue]
  rfl

end Awk

/-! ## What the scripts have done when they end -/

section Ends

variable {M : Master} {before H : List CommandLine}

/-- The variables when the first VM is booted. -/
def snapshotVars (M : Master) : BootVariables :=
  { ({ VM_NAME := "child-vm-0" } : BootVariables).readConfig M with
    IMAGE := M.setting "IMAGE" }

/-- The commands up to the one that boots the first VM. -/
def snapshotBooted (M : Master) (before : List CommandLine) : List CommandLine :=
  before ++ [(snapshotVars M).novaBoot (snapshotVars M).IMAGE]

/-- The first VM has an address, and the files are copied to it. -/
structure Snapshot (M : Master) (before : List CommandLine) where
  finding : Finding M (snapshotVars M) (snapshotBooted M before)
  copying : Success M finding.vars.copyFiles finding.history

def Snapshot.history (S : Snapshot M before) : List CommandLine :=
  S.copying.history ++
    [S.finding.vars.initConfigChild, S.finding.vars.imageCreate, novaImageList]

theorem issues_copyFiles (M : Master) : Issues (fun s => { s with
    history := s.history ++ [s.vars.copyFiles]
    stdout := s.stdout ++ M.output (s.history ++ [s.vars.copyFiles]) }) copyFiles where
  vars _ := rfl
  history _ := rfl
  line _ _ := rfl

/-- The state after the commands behind the loops. -/
def snapshotEnd (M : Master) (s : Shell BootVariables) : Shell BootVariables :=
  let configured := s.history ++ [s.vars.initConfigChild]
  let created := configured ++ [s.vars.imageCreate]
  let history := created ++ [novaImageList]
  let vars := { s.vars with IMAGE_ID := Awk.imageId (M.output history) }
  { vars := vars
    history := history
    stdout := s.stdout ++ ["scp done"] ++ M.output configured ++ ["ssh done"] ++
      M.output created ++
      [unquoted ("VM_IP=" ++ vars.VM_IP), unquoted ("IMAGE_ID=" ++ vars.IMAGE_ID)] }

theorem createSnapshot_ends {t : Shell BootVariables} :
    (createSnapshot M).Ends (createSnapshot.start before) t ↔
      ∃ u, (pollAddress M).Ends
          { vars := snapshotVars M
            history := snapshotBooted M before
            stdout := M.output (snapshotBooted M before) } u ∧
        ∃ v, (untilSucceeds M (issue M copyFiles)).Ends u v ∧
          t = snapshotEnd M v := by
  simp [createSnapshot, createSnapshot.start, snapshotVars, snapshotBooted, snapshotEnd]

theorem createSnapshot_end {VM_IP : String} :
    (∃ t, (createSnapshot M).Ends (createSnapshot.start before) t ∧
        t.history = H ∧ Awk.logged "VM_IP" t.stdout = VM_IP) ↔
      ∃ S : Snapshot M before,
        H = S.history ∧ VM_IP = Awk.part 1 S.finding.address := by
  have hfresh : (snapshotVars M).Fresh := ⟨rfl, rfl, rfl, rfl⟩
  have hlogged (F : Finding M (snapshotVars M) (snapshotBooted M before))
      (history : List CommandLine) (stdout : List String) :
      Awk.logged "VM_IP" (snapshotEnd M ⟨F.vars.exited 0, history, stdout⟩).stdout =
        Awk.part 1 F.address :=
    Awk.logged_address _ (Awk.blankless_address _) (Awk.blankless_imageId _)
  constructor
  · rintro ⟨t, hends, rfl, rfl⟩
    obtain ⟨⟨vars, looked, printed⟩, hpoll, ⟨vars', copied, stdout⟩, hcopy, rfl⟩ :=
      createSnapshot_ends.mp hends
    obtain ⟨F, rfl, rfl⟩ := (pollAddress_end hfresh).mp ⟨printed, hpoll⟩
    obtain ⟨S, rfl, rfl⟩ := (untilSucceeds_end (issues_copyFiles M)).mp ⟨stdout, hcopy⟩
    refine ⟨⟨F, S⟩, ?_, hlogged F _ _⟩
    simp only [snapshotEnd, List.append_assoc]
    rfl
  · rintro ⟨⟨F, S⟩, rfl, rfl⟩
    have hpolls : ∃ printed, (pollAddress M).Ends
        ⟨snapshotVars M, snapshotBooted M before, M.output (snapshotBooted M before)⟩
        ⟨F.vars, F.history, printed⟩ := (pollAddress_end hfresh).mpr ⟨F, rfl, rfl⟩
    obtain ⟨printed, hpoll⟩ := hpolls
    have hcopies : ∃ stdout, (untilSucceeds M (issue M copyFiles)).Ends
        ⟨F.vars, F.history, printed⟩ ⟨F.vars.exited 0, S.history, stdout⟩ :=
      (untilSucceeds_end (issues_copyFiles M)).mpr ⟨S, rfl, rfl⟩
    obtain ⟨stdout, hcopy⟩ := hcopies
    refine ⟨_, createSnapshot_ends.mpr ⟨_, hpoll, _, hcopy, rfl⟩, ?_, hlogged F _ _⟩
    simp only [snapshotEnd, List.append_assoc]
    rfl

/-! ### The loops of cluster_setup.sh -/

/-- The VM joins at the last of five tries, or at an earlier one. -/
structure Federation (M : Master) (v : SetupVariables) (before : List CommandLine) where
  tries : ℕ
  first : IsLeast {n | 4 ≤ n ∨
    M.status (before ++ List.replicate (n + 1) v.joinChild) = 0} tries

def Federation.history {v : SetupVariables} (F : Federation M v before) :
    List CommandLine :=
  before ++ List.replicate (F.tries + 1) v.joinChild

variable {s t : Shell SetupVariables}

/-- One turn of the second loop. -/
def federateOnce (M : Master) (s : Shell SetupVariables) : Shell SetupVariables :=
  let history := s.history ++ [s.vars.joinChild]
  { vars := s.vars.tried (M.status history)
    history := history
    stdout := s.stdout ++ ["running federation *********"] ++ M.output history }

theorem federateOnce_iterate (n : ℕ) (s : Shell SetupVariables) :
    ((federateOnce M)^[n] s).history =
        s.history ++ List.replicate n s.vars.joinChild ∧
      ((federateOnce M)^[n] s).vars.LOOP = s.vars.LOOP + n ∧
      ((federateOnce M)^[n] s).vars.joinChild = s.vars.joinChild := by
  induction n with
  | zero => exact ⟨by simp, rfl, rfl⟩
  | succ n ih =>
      obtain ⟨hhistory, hLOOP, hjoin⟩ := ih
      rw [Function.iterate_succ_apply', List.replicate_succ', ← List.append_assoc]
      refine ⟨?_, ?_, hjoin⟩
      · simp only [federateOnce, hhistory, hjoin]
      · simp only [federateOnce, SetupVariables.tried, hLOOP]
        omega

theorem federate_end (hEXEC : s.vars.EXEC = 1) (hLOOP : s.vars.LOOP = 0) :
    (∃ t, (federate M).Ends s t ∧ t.history = H) ↔
      ∃ F : Federation M s.vars s.history, H = F.history := by
  have hends (t : Shell SetupVariables) : (federate M).Ends s t ↔
      ∃ n, IsLeast {n | 4 ≤ n ∨ M.status
          (s.history ++ List.replicate (n + 1) s.vars.joinChild) = 0} n ∧
        t = (federateOnce M)^[n + 1] s := by
    apply Script.ends_until_iff
    · intro s t
      simp [federateOnce, SetupVariables.tried]
    · simp [SetupVariables.triesAgain, hEXEC, hLOOP]
    · intro n _
      obtain ⟨hhistory, hcount, hjoin⟩ := federateOnce_iterate (M := M) n s
      rw [Function.iterate_succ_apply', List.replicate_succ', ← List.append_assoc]
      simp only [federateOnce, SetupVariables.triesAgain, SetupVariables.tried, hhistory,
        hcount, hjoin, hLOOP]
      rw [Bool.and_eq_false_iff, decide_eq_false_iff_not, decide_eq_false_iff_not]
      omega
  simp only [hends]
  constructor
  · rintro ⟨_, ⟨n, hn, rfl⟩, rfl⟩
    exact ⟨⟨n, hn⟩, (federateOnce_iterate _ s).1⟩
  · rintro ⟨F, rfl⟩
    exact ⟨_, ⟨F.tries, F.first, rfl⟩, (federateOnce_iterate _ s).1⟩

/-- The daemon is started once, because the first turn counts as a success. -/
theorem startDaemon_ends (hEXEC : s.vars.EXEC = 1) (hLOOP : s.vars.LOOP = 0) :
    startDaemon.Ends s t ↔
      t = { vars := s.vars.tried 0
            history := s.history ++ [s.vars.daemon]
            stdout := s.stdout ++ ["******docker dameon*********"] } := by
  let turn (s : Shell SetupVariables) : Shell SetupVariables :=
    { vars := s.vars.tried 0
      history := s.history ++ [s.vars.daemon]
      stdout := s.stdout ++ ["******docker dameon*********"] }
  have hends : startDaemon.Ends s t ↔
      ∃ n, IsLeast {n : ℕ | True} n ∧ t = turn^[n + 1] s := by
    apply Script.ends_until_iff
    · intro s t
      simp [turn]
    · simp [SetupVariables.triesAgain, hEXEC, hLOOP]
    · intro n _
      rw [Function.iterate_succ_apply']
      simp [turn, SetupVariables.triesAgain, SetupVariables.tried]
  rw [hends]
  constructor
  · rintro ⟨n, hn, rfl⟩
    obtain rfl : n = 0 := Nat.le_zero.mp (hn.2 trivial)
    rfl
  · rintro rfl
    exact ⟨0, ⟨trivial, fun _ _ => Nat.zero_le _⟩, rfl⟩

/-- The variables of `cluster_setup.sh` in front of its loops. -/
def setupVars (M : Master) (arguments : List String) : SetupVariables :=
  { (clusterSetup.start arguments []).vars with KEY := M.setting "KEY" }

/-- The commands in front of the second loop. -/
def setupCommands (M : Master) (arguments : List String) : List CommandLine :=
  [consul, (setupVars M arguments).manage, (setupVars M arguments).daemon]

theorem clusterSetup_end {arguments : List String} :
    (∃ t, (clusterSetup M).Ends (clusterSetup.start arguments before) t ∧
        t.history = H) ↔
      ∃ F : Federation M (setupVars M arguments)
          (before ++ setupCommands M arguments), H = F.history := by
  let v := setupVars M arguments
  let consuled := before ++ [consul]
  let managed := consuled ++ [v.manage]
  let printed := [unquoted ("child::" ++ v.CHILD_VM_IP ++ "::"), "Creating consul"] ++
    M.output consuled ++ ["Creating master"] ++ M.output managed ++
    ["Starting child docker daemon"]
  let s : Shell SetupVariables := { vars := v, history := managed, stdout := printed }
  let u : Shell SetupVariables :=
    { vars := v
      history := before ++ setupCommands M arguments
      stdout := printed ++ ["******docker dameon*********", "Creating child"] }
  have hends (t : Shell SetupVariables) :
      (clusterSetup M).Ends (clusterSetup.start arguments before) t ↔
        ∃ d, startDaemon.Ends s d ∧ (federate M).Ends
          { d with
            vars := { d.vars with LOOP := 0, EXEC := 1 }
            stdout := d.stdout ++ ["Creating child"] } t := by
    simp [clusterSetup, clusterSetup.start, s, v, consuled, managed, printed, setupVars]
  have hdaemon (d : Shell SetupVariables) := startDaemon_ends (s := s) (t := d) rfl rfl
  have hu : { vars := { s.vars.tried 0 with LOOP := 0, EXEC := 1 }
              history := s.history ++ [s.vars.daemon]
              stdout := s.stdout ++ ["******docker dameon*********"] ++
                ["Creating child"] } = u := by
    simp [s, u, v, consuled, managed, setupCommands, SetupVariables.tried, setupVars,
      clusterSetup.start]
  simp only [hends, hdaemon, exists_eq_left, hu]
  exact federate_end (s := u) rfl rfl

end Ends

/-! ## The address is handed over -/

theorem substituted_singleton (text : String) : substituted [text] = text := by
  rw [substituted]
  by_cases hempty : text = ""
  · subst hempty
    rfl
  · have hkept : [text].rdropWhile (· = "") = [text] := by
      simp [List.rdropWhile, hempty]
    rw [hkept]
    rfl

/-- The arguments of `cluster_setup.sh` when that address has been logged. -/
def setupArguments (VM_IP MASTER_IP : String) : List String :=
  Awk.words (Awk.part 1 VM_IP) ++ Awk.words MASTER_IP

/-- The script ends exactly if Nova shows an address of the first VM at some
time and the files can be copied to it at some time after that.  Whatever else
has been logged, `cluster_setup.sh` has then been given that address, starts
the daemon of the VM once, and lets it join up to the first success or five
times. -/
theorem clusterInit_ends_iff (M : Master) (MASTER_IP : String)
    (before H : List CommandLine) :
    (∃ t, (clusterInit M).Ends (clusterInit.start MASTER_IP before) t ∧
        t.history = H) ↔
      ∃ S : Snapshot M before,
        let arguments := setupArguments S.finding.address MASTER_IP
        (∃ F : Federation M (setupVars M arguments)
            (S.history ++ [chmodSetup] ++ setupCommands M arguments),
          H = F.history) ∧
        ('=' ∉ S.finding.address.toList →
          arguments = S.finding.address :: Awk.words MASTER_IP) := by
  have harguments (S : Snapshot M before) (hplain : '=' ∉ S.finding.address.toList) :
      setupArguments S.finding.address MASTER_IP =
        S.finding.address :: Awk.words MASTER_IP := by
    rw [setupArguments, Awk.part_one_eq_self hplain,
      Awk.words_of_plain S.finding.address_ne_empty (Awk.blankless_address _)]
    rfl
  have hends : (∃ t, (clusterInit M).Ends (clusterInit.start MASTER_IP before) t ∧
        t.history = H) ↔
      ∃ u, (createSnapshot M).Ends (createSnapshot.start before) u ∧
        ∃ d, (clusterSetup M).Ends (clusterSetup.start
            (Awk.words (Awk.logged "VM_IP" u.stdout) ++ Awk.words MASTER_IP)
            (u.history ++ [chmodSetup])) d ∧ d.history = H := by
    simp [clusterInit, clusterInit.start, Script.ends_call, InitVariables.readLogs,
      substituted_singleton, and_assoc]
  rw [hends]
  constructor
  · rintro ⟨u, hu, d, hd, rfl⟩
    obtain ⟨S, hhistory, hlogged⟩ := createSnapshot_end.mp ⟨u, hu, rfl, rfl⟩
    rw [hhistory, hlogged] at hd
    exact ⟨S, clusterSetup_end.mp ⟨d, hd, rfl⟩, harguments S⟩
  · rintro ⟨S, ⟨F, hF⟩, -⟩
    obtain ⟨u, hu, hhistory, hlogged⟩ := createSnapshot_end.mpr ⟨S, rfl, rfl⟩
    obtain ⟨d, hd, hH⟩ := clusterSetup_end.mpr ⟨F, hF⟩
    refine ⟨u, hu, d, ?_, hH⟩
    rw [hhistory, hlogged]
    exact hd

end LambdaOnOpenStack
