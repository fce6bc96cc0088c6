import LambdaOnOpenStack.Execution.AddressParser
import LambdaOnOpenStack.Support.Scripts
import Mathlib.Data.List.DropRight

/-!
# Booting a VM

`provisionVM.sh` boots a VM, asks Nova for its address until there is one,
configures the VM until that succeeds, and starts the agent of swarm on it.
What Nova, ssh and docker do is arbitrary.  The pauses between the commands and
the dates that are printed are left out.
-/

namespace LambdaOnOpenStack

open Support

/-! ## Commands of the shell -/

/-- The words of a command. -/
abbrev CommandLine := List String

/-- The server on which the scripts run.  What a command prints and how it
exits depends on all commands up to it, in any way. -/
structure Master where
  file : String → List String
  output : List CommandLine → List String
  status : List CommandLine → ℕ

/-- The variables of a script, the commands that have been issued, and the
lines that the script has printed. -/
structure Shell (V : Type) where
  vars : V
  history : List CommandLine := []
  stdout : List String := []

namespace Shell

variable {V : Type}

abbrev assign (change : V → V) : Script (Shell V) :=
  .act fun s => { s with vars := change s.vars }

abbrev echo (text : V → String) : Script (Shell V) :=
  .act fun s => { s with stdout := s.stdout ++ [text s.vars] }

/-- A command whose output is printed. -/
abbrev issue (M : Master) (line : V → CommandLine) : Script (Shell V) :=
  .act fun s =>
    { s with
      history := s.history ++ [line s.vars]
      stdout := s.stdout ++ M.output (s.history ++ [line s.vars]) }

/-- A command whose output goes to `/dev/null`. -/
abbrev issueQuietly (line : V → CommandLine) : Script (Shell V) :=
  .act fun s => { s with history := s.history ++ [line s.vars] }

/-- A command whose output is put into variables. -/
abbrev capture (M : Master) (line : V → CommandLine)
    (store : V → List String → V) : Script (Shell V) :=
  .act fun s =>
    { s with
      vars := store s.vars (M.output (s.history ++ [line s.vars]))
      history := s.history ++ [line s.vars] }

/-- `$?` of the last command is put into a variable. -/
abbrev storeStatus (M : Master) (store : V → ℕ → V) : Script (Shell V) :=
  .act fun s => { s with vars := store s.vars (M.status s.history) }

/-- `echo` of an unquoted text. -/
def unquoted (text : String) : String := String.intercalate " " (Awk.words text)

/-- What the shell puts in the place of a command that prints these lines. -/
def substituted (lines : List String) : String :=
  String.intercalate "\n" (lines.rdropWhile (· = ""))

end Shell

open Shell

/-! ## The awk programs -/

namespace Awk

/-- `a[n]` after `split(line, a, "=")`. -/
def part (n : ℕ) (line : String) : String :=
  String.ofList ((line.toList.splitOnP (· = '=')).getD (n - 1) [])

/-- The program that prints the values of a key. -/
def settings (key : String) (lines : List String) : List String :=
  (lines.filter fun line => part 1 line = key).map (part 2)

/-- The program that prints the identifier of the last image whose name
contains `ub-doc`. -/
def imageId (lines : List String) : String :=
  lines.foldl (fun id line =>
    if hasMatch (field 4 (words line)) "ub-doc" then field 2 (words line) else id) ""

/-- The program that prints the address of a VM. -/
def address (lines : List String) : String := val (lines.map words)

end Awk

namespace Master

variable (M : Master)

/-- A parameter of `setup.config`. -/
def setting (key : String) : String :=
  substituted (Awk.settings key (M.file "setup.config"))

/-- The address that is read off the output of the last command. -/
def address (history : List CommandLine) : String := Awk.address (M.output history)

end Master

/-! ### Texts without blanks -/

namespace Awk

/-- The shell does not split the text. -/
def Blankless (text : String) : Prop :=
  ∀ c ∈ text.toList, c ≠ ' ' ∧ c ≠ '\t' ∧ c ≠ '\n'

instance (text : String) : Decidable (Blankless text) :=
  decidable_of_iff (text.toList.all fun c => c ≠ ' ' && c ≠ '\t' && c ≠ '\n')
    (by simp [Blankless, and_assoc])

theorem not_mem_of_mem_splitOnP {α : Type*} {p : α → Bool} {l piece : List α}
    (hpiece : piece ∈ l.splitOnP p) : ∀ c ∈ piece, p c = false := by
  induction l generalizing piece with
  | nil => simp_all
  | cons a l ih =>
      rw [List.splitOnP_cons_eq_if_modifyHead] at hpiece
      split at hpiece
      · rcases List.mem_cons.mp hpiece with rfl | hpiece
        · simp
        · exact ih hpiece
      · rename_i ha
        cases hpieces : l.splitOnP p with
        | nil => exact absurd hpieces (List.splitOnP_ne_nil p l)
        | cons first rest =>
            rw [hpieces] at hpiece ih
            rcases List.mem_cons.mp hpiece with rfl | hpiece
            · intro c hc
              rcases List.mem_cons.mp hc with rfl | hc
              · exact Bool.eq_false_iff.mpr ha
              · exact ih (List.mem_cons_self ..) c hc
            · exact ih (List.mem_cons_of_mem _ hpiece)

theorem blankless_of_mem_words {text word : String} (hword : word ∈ words text) :
    Blankless word := by
  obtain ⟨piece, hpiece, rfl⟩ := List.mem_map.mp hword
  intro c hc
  have hplain := not_mem_of_mem_splitOnP (List.mem_of_mem_filter hpiece) c
    (by simpa using hc)
  simpa [and_assoc] using hplain

theorem blankless_field (n : ℕ) (text : String) : Blankless (field n (words text)) := by
  rw [field, List.getD_eq_getElem?_getD]
  cases hword : (words text)[n - 1]? with
  | none => simp [Blankless]
  | some word => exact blankless_of_mem_words (List.mem_of_getElem? hword)

theorem blankless_address (lines : List String) : Blankless (address lines) := by
  rw [address, val]
  refine List.foldlRecOn (motive := fun vars : String × String => Blankless vars.2)
    _ _ ?_ ?_
  · simp [Blankless]
  · intro vars hvars line hline
    obtain ⟨text, -, rfl⟩ := List.mem_map.mp hline
    dsimp only
    split
    · exact blankless_field 5 text
    · exact hvars

theorem blankless_imageId (lines : List String) : Blankless (imageId lines) := by
  rw [imageId]
  refine List.foldlRecOn (motive := Blankless) _ _ ?_ ?_
  · simp [Blankless]
  · intro id hid line _
    split
    · exact blankless_field 2 line
    · exact hid

theorem Blankless.append {a b : String} (ha : Blankless a) (hb : Blankless b) :
    Blankless (a ++ b) := by
  intro c hc
  rw [String.toList_append, List.mem_append] at hc
  exact hc.elim (ha c) (hb c)

end Awk

/-! ## What both scripts do that boot VMs -/

/-- The variables of `provisionVM.sh` and `create_snapshot.sh`. -/
structure BootVariables where
  VM_NAME : String
  CLUSTER_ID : String := ""
  KEY : String := ""
  FLAVOR : String := ""
  IMAGE : String := ""
  IMAGE_ID : String := ""
  KEY_NAME : String := ""
  SEC_GROUPS : String := ""
  NETWORK : String := ""
  LOOP : ℤ := 1
  VM_IP : String := ""
  OUT : String := ""
  GOAHEAD : ℤ := 0
  EXEC : ℕ := 0

abbrev BootScript := Script (Shell BootVariables)

namespace BootVariables

variable (v : BootVariables)

def readConfig (M : Master) : BootVariables :=
  { v with
    KEY := M.setting "KEY"
    FLAVOR := M.setting "FLAVOR"
    KEY_NAME := M.setting "KEY_NAME"
    SEC_GROUPS := M.setting "SEC_GROUPS"
    NETWORK := M.setting "NETWORK" }

def novaImageList : CommandLine := ["nova", "image-list"]

def novaBoot (image : String) : CommandLine :=
  ["nova", "boot", "--flavor"] ++ Awk.words v.FLAVOR ++
    ["--image"] ++ Awk.words image ++
    ["--key-name"] ++ Awk.words v.KEY_NAME ++
    ["--security-groups"] ++ Awk.words v.SEC_GROUPS ++
    ["--nic"] ++ Awk.words ("net-name=" ++ v.NETWORK) ++ Awk.words v.VM_NAME

def novaShow : CommandLine := ["nova", "show"] ++ Awk.words v.VM_NAME

/-- `configVM.sh` on the new VM. -/
def configVM : CommandLine :=
  ["ssh", "-o", "StrictHostKeyChecking=no", "-i"] ++ Awk.words v.KEY ++
    ["-q"] ++ Awk.words ("ubuntu@" ++ v.VM_IP) ++
    ["./configVM.sh"] ++ Awk.words v.CLUSTER_ID

/-- The agent of swarm on the new VM. -/
def join : CommandLine :=
  ["sudo", "docker", "-H"] ++ Awk.words ("tcp://" ++ v.VM_IP ++ ":2375") ++
    ["run", "-d", "swarm:1.1.1", "join"] ++
    Awk.words ("--advertise=" ++ v.VM_IP ++ ":2375") ++
    ["--heartbeat=15s", "--ttl=20s"] ++ Awk.words ("consul://" ++ v.CLUSTER_ID)

/-- The variables after an address has been looked for. -/
def looked (VM_IP : String) : BootVariables :=
  { v with
    VM_IP := VM_IP
    OUT := Awk.field 2 (Awk.words VM_IP)
    GOAHEAD := if VM_IP = "" then 0 else 1
    LOOP := if VM_IP = "" then v.LOOP else -1 }

/-- The variables after a command has exited. -/
def exited (EXEC : ℕ) : BootVariables := { v with EXEC := EXEC }

end BootVariables

open BootVariables

/-- The loop that waits for the address of the VM. -/
def pollAddress (M : Master) : BootScript :=
  .loop (fun s => 0 < s.vars.LOOP) <| .block
    [capture M novaShow fun v lines => { v with VM_IP := Awk.address lines },
      echo fun v => unquoted v.VM_IP,
      assign fun v => { v with OUT := Awk.field 2 (Awk.words v.VM_IP) },
      .branch (fun s => s.vars.VM_IP = "")
        (assign fun v => { v with GOAHEAD := 0 })
        (assign fun v => { v with GOAHEAD := 1, LOOP := -1 }),
      echo fun v => toString v.LOOP,
      echo fun v => toString v.GOAHEAD,
      echo fun v => unquoted v.OUT,
      echo fun v => unquoted v.VM_IP]

/-- A command, and how it has exited. -/
def tryCommand (M : Master) (command : BootScript) (label : String) : BootScript :=
  .block
    [command, storeStatus M exited, echo fun v => label ++ toString v.EXEC]

/-- A command is issued until it exits with 0. -/
def untilSucceeds (M : Master) (command : BootScript) : BootScript :=
  .block
    [tryCommand M command "",
      .loop (fun s => 0 < s.vars.EXEC) (tryCommand M command "copy to vm:")]

/-! ## provisionVM.sh -/

/-- The VM is booted and its address found. -/
def bootVM (M : Master) : BootScript :=
  .block
    [assign fun v => v.readConfig M,
      capture M (fun _ => novaImageList) fun v lines =>
        { v with IMAGE_ID := Awk.imageId lines },
      echo fun _ => "created from Image with ID:",
      echo fun v => unquoted v.IMAGE_ID,
      issue M fun v => v.novaBoot v.IMAGE_ID,
      pollAddress M]

/-- The VM is configured and joins the swarm. -/
def federateVM (M : Master) : BootScript :=
  .block
    [untilSucceeds M (issueQuietly configVM),
      echo fun _ => "vm config done",
      echo fun _ => "cluster_id",
      echo fun v => unquoted v.CLUSTER_ID,
      echo fun _ => "new vm IP",
      echo fun v => unquoted v.VM_IP,
      issue M join,
      echo fun _ => "node added to swarm"]

/-- `[ $GOAHEAD==1 ]`, which tests one text for not being empty. -/
def BootVariables.goesAhead (v : BootVariables) : Bool :=
  toString v.GOAHEAD ++ "==1" ≠ ""

def provisionVM (M : Master) : BootScript :=
  .block [bootVM M, .branch (fun s => s.vars.goesAhead) (federateVM M) .skip]

/-- The script begins with these arguments. -/
def provisionVM.start (arguments : List String) (history : List CommandLine) :
    Shell BootVariables where
  vars :=
    { VM_NAME := "child-vm-" ++ arguments.getD 0 ""
      IMAGE_ID := arguments.getD 1 ""
      CLUSTER_ID := arguments.getD 2 "" }
  history := history

/-! ## The loops -/

section Loops

variable {M : Master} {s t : Shell BootVariables}

@[simp] theorem goesAhead_eq_true (v : BootVariables) : v.goesAhead = true := by
  rw [BootVariables.goesAhead, decide_eq_true_iff]
  intro hempty
  have hlength := congrArg (fun text => text.toList.length) hempty
  simp at hlength

/-- One turn of the loop that waits for the address. -/
def lookOnce (M : Master) (s : Shell BootVariables) : Shell BootVariables :=
  let history := s.history ++ [s.vars.novaShow]
  let vars := s.vars.looked (M.address history)
  { vars := vars
    history := history
    stdout := s.stdout ++
      [unquoted vars.VM_IP, toString vars.LOOP, toString vars.GOAHEAD,
        unquoted vars.OUT, unquoted vars.VM_IP] }

/-- While no address is found, only the history and the output grow. -/
theorem lookOnce_iterate (hv : s.vars.looked "" = s.vars) {n : ℕ}
    (hnone : ∀ k < n,
      M.address (s.history ++ List.replicate (k + 1) s.vars.novaShow) = "") :
    ((lookOnce M)^[n] s).vars = s.vars ∧
      ((lookOnce M)^[n] s).history =
        s.history ++ List.replicate n s.vars.novaShow := by
  induction n with
  | zero => exact ⟨rfl, by simp⟩
  | succ n ih =>
      obtain ⟨hvars, hhistory⟩ := ih fun k hk => hnone k (by omega)
      have hnone' := hnone n (by omega)
      rw [List.replicate_succ', ← List.append_assoc] at hnone' ⊢
      rw [Function.iterate_succ_apply']
      simp only [lookOnce, hvars, hhistory, hnone', and_true]
      exact hv

theorem lookOnce_iterate_succ (hv : s.vars.looked "" = s.vars) {n : ℕ}
    (hnone : ∀ k < n,
      M.address (s.history ++ List.replicate (k + 1) s.vars.novaShow) = "") :
    let history := s.history ++ List.replicate (n + 1) s.vars.novaShow
    ((lookOnce M)^[n + 1] s).vars = s.vars.looked (M.address history) ∧
      ((lookOnce M)^[n + 1] s).history = history := by
  obtain ⟨hvars, hhistory⟩ := lookOnce_iterate hv hnone
  rw [Function.iterate_succ_apply']
  simp [lookOnce, hvars, hhistory, List.replicate_succ']

/-- The loop ends with the first address. -/
theorem pollAddress_ends (hv : s.vars.looked "" = s.vars)
    (hLOOP : s.vars.LOOP = 1) :
    (pollAddress M).Ends s t ↔
      ∃ k, IsLeast {k | M.address
          (s.history ++ List.replicate (k + 1) s.vars.novaShow) ≠ ""} k ∧
        t = (lookOnce M)^[k + 1] s := by
  apply Script.ends_until_iff
  · intro s t
    simp [lookOnce, BootVariables.looked, Master.address]
    split <;> simp [*]
  · simp [hLOOP]
  · intro n hbad
    have hnone (k : ℕ) (hk : k < n) := not_not.mp (hbad k hk)
    rw [(lookOnce_iterate_succ hv hnone).1]
    simp only [BootVariables.looked, hLOOP]
    split <;> simp [*]

/-- The command and what follows it. -/
def tryOnce (M : Master) (command : Shell BootVariables → Shell BootVariables)
    (label : String) (s : Shell BootVariables) : Shell BootVariables :=
  let s := command s
  let EXEC := M.status s.history
  { s with
    vars := s.vars.exited EXEC
    stdout := s.stdout ++ [label ++ toString EXEC] }

/-- All that a command does to the variables and the history. -/
structure Issues (command : Shell BootVariables → Shell BootVariables)
    (line : BootVariables → CommandLine) : Prop where
  vars : ∀ s, (command s).vars = s.vars
  history : ∀ s, (command s).history = s.history ++ [line s.vars]
  line : ∀ v EXEC, line (v.exited EXEC) = line v

variable {command : Shell BootVariables → Shell BootVariables}
  {line : BootVariables → CommandLine}

theorem tryOnce_state (h : Issues command line) (label : String)
    (s : Shell BootVariables) :
    (tryOnce M command label s).history = s.history ++ [line s.vars] ∧
      (tryOnce M command label s).vars =
        s.vars.exited (M.status (s.history ++ [line s.vars])) := by
  simp only [tryOnce, h.vars, h.history, and_self]

/-- The state after `m + 1` tries. -/
def tries (M : Master) (command : Shell BootVariables → Shell BootVariables)
    (m : ℕ) (s : Shell BootVariables) : Shell BootVariables :=
  (tryOnce M command "copy to vm:")^[m] (tryOnce M command "" s)

theorem tries_state (h : Issues command line) (m : ℕ) (s : Shell BootVariables) :
    let history := s.history ++ List.replicate (m + 1) (line s.vars)
    (tries M command m s).history = history ∧
      (tries M command m s).vars = s.vars.exited (M.status history) := by
  induction m with
  | zero => exact tryOnce_state h "" s
  | succ m ih =>
      obtain ⟨hhistory, hvars⟩ := ih
      have hlast := tryOnce_state (M := M) h "copy to vm:" (tries M command m s)
      rw [hhistory, hvars, h.line, List.append_assoc, ← List.replicate_succ'] at hlast
      rw [tries, Function.iterate_succ_apply']
      exact hlast

/-- The command is tried until it succeeds for the first time. -/
theorem untilSucceeds_ends (h : Issues command line) :
    (untilSucceeds M (.act command)).Ends s t ↔
      ∃ m, IsLeast {m | M.status
          (s.history ++ List.replicate (m + 1) (line s.vars)) = 0} m ∧
        t = tries M command m s := by
  have hcomputes (label : String) : (tryCommand M (.act command) label).Computes
      (tryOnce M command label) := by
    intro s t
    simp [tryCommand, tryOnce, BootVariables.exited]
  have hstops : {m | decide (0 < (tries M command m s).vars.EXEC) = false} =
      {m | M.status
        (s.history ++ List.replicate (m + 1) (line s.vars)) = 0} := by
    ext m
    simp [(tries_state h m s).2, BootVariables.exited]
  have hends : (untilSucceeds M (.act command)).Ends s t ↔
      (Script.loop (fun s => decide (0 < s.vars.EXEC))
        (tryCommand M (.act command) "copy to vm:")).Ends
        (tryOnce M command "" s) t := by
    simp [untilSucceeds, hcomputes "" s]
  rw [hends, Script.ends_loop_iff (hcomputes _), ← hstops]
  rfl

end Loops

/-! ## What the script has done when it ends -/

/-- Nova shows an address for the first time. -/
structure Finding (M : Master) (v : BootVariables) (booted : List CommandLine) where
  looks : ℕ
  first : IsLeast {k | M.address
    (booted ++ List.replicate (k + 1) v.novaShow) ≠ ""} looks

/-- A command succeeds for the first time. -/
structure Success (M : Master) (line : CommandLine) (before : List CommandLine) where
  tries : ℕ
  first : IsLeast {m | M.status (before ++ List.replicate (m + 1) line) = 0} tries

section Segments

variable {M : Master} {v : BootVariables} {before : List CommandLine}
  {line : CommandLine}

namespace Finding

variable (F : Finding M v before)

def history : List CommandLine := before ++ List.replicate (F.looks + 1) v.novaShow

/-- The address that the script takes. -/
def address : String := M.address F.history

theorem address_ne_empty : F.address ≠ "" := F.first.1

/-- The variables when the VM is configured. -/
def vars : BootVariables := v.looked F.address

end Finding

def Success.history (S : Success M line before) : List CommandLine :=
  before ++ List.replicate (S.tries + 1) line

/-- A VM with an address is configured. -/
structure Provisioning (M : Master) (v : BootVariables)
    (booted : List CommandLine) where
  finding : Finding M v booted
  configuring : Success M finding.vars.configVM finding.history

namespace Provisioning

variable (P : Provisioning M v before)

/-- The commands up to the one that has configured the VM. -/
def configured : List CommandLine := P.configuring.history

/-- The command by which the VM joins the swarm. -/
def join : CommandLine := P.finding.vars.join

end Provisioning

/-- The variables when the VM is booted. -/
def BootVariables.forBoot (M : Master) (v : BootVariables)
    (history : List CommandLine) : BootVariables :=
  { v.readConfig M with
    IMAGE_ID := Awk.imageId (M.output (history ++ [novaImageList])) }

/-- The commands up to the one that boots the VM. -/
def BootVariables.booted (M : Master) (v : BootVariables)
    (history : List CommandLine) : List CommandLine :=
  history ++ [novaImageList, (v.forBoot M history).novaBoot (v.forBoot M history).IMAGE_ID]

/-- The variables of the loop are those with which a script begins. -/
structure BootVariables.Fresh (v : BootVariables) : Prop where
  LOOP : v.LOOP = 1
  VM_IP : v.VM_IP = ""
  OUT : v.OUT = ""
  GOAHEAD : v.GOAHEAD = 0

theorem BootVariables.Fresh.looked (h : v.Fresh) : v.looked "" = v := by
  obtain ⟨hLOOP, hVM_IP, hOUT, hGOAHEAD⟩ := h
  have hfield : Awk.field 2 (Awk.words "") = "" := by decide
  cases v
  simp_all [BootVariables.looked]

variable {s : Shell BootVariables} {H : List CommandLine} {v' : BootVariables}

theorem pollAddress_end (hfresh : s.vars.Fresh) :
    (∃ stdout, (pollAddress M).Ends s ⟨v', H, stdout⟩) ↔
      ∃ F : Finding M s.vars s.history, H = F.history ∧ v' = F.vars := by
  constructor
  · rintro ⟨stdout, hends⟩
    obtain ⟨k, hk, hstate⟩ := (pollAddress_ends hfresh.looked hfresh.LOOP).mp hends
    have hlooked := lookOnce_iterate_succ (M := M) hfresh.looked (n := k)
      fun j hj => not_not.mp fun h => absurd (hk.2 h) (by omega)
    rw [← hstate] at hlooked
    exact ⟨⟨k, hk⟩, hlooked.2, hlooked.1⟩
  · rintro ⟨F, rfl, rfl⟩
    have hlooked := lookOnce_iterate_succ (M := M) hfresh.looked (n := F.looks)
      fun j hj => not_not.mp fun h => absurd (F.first.2 h) (by omega)
    refine ⟨((lookOnce M)^[F.looks + 1] s).stdout, ?_⟩
    refine (pollAddress_ends hfresh.looked hfresh.LOOP).mpr ⟨F.looks, F.first, ?_⟩
    exact congrArg₂ (Shell.mk · · _) hlooked.1.symm hlooked.2.symm

theorem untilSucceeds_end {command : Shell BootVariables → Shell BootVariables}
    {line : BootVariables → CommandLine} (h : Issues command line) :
    (∃ stdout, (untilSucceeds M (.act command)).Ends s ⟨v', H, stdout⟩) ↔
      ∃ S : Success M (line s.vars) s.history,
        H = S.history ∧ v' = s.vars.exited 0 := by
  constructor
  · rintro ⟨stdout, hends⟩
    obtain ⟨m, hm, hstate⟩ := (untilSucceeds_ends h).mp hends
    obtain ⟨hhistory, hvars⟩ := tries_state (M := M) h m s
    rw [← hstate] at hhistory hvars
    refine ⟨⟨m, hm⟩, hhistory, ?_⟩
    rw [← hm.1]
    exact hvars
  · rintro ⟨S, rfl, rfl⟩
    obtain ⟨hhistory, hvars⟩ := tries_state (M := M) h S.tries s
    rw [S.first.1] at hvars
    refine ⟨(tries M command S.tries s).stdout, ?_⟩
    refine (untilSucceeds_ends h).mpr ⟨S.tries, S.first, ?_⟩
    exact congrArg₂ (Shell.mk · · _) hvars.symm hhistory.symm

theorem bootVM_end (hfresh : s.vars.Fresh) :
    (∃ stdout, (bootVM M).Ends s ⟨v', H, stdout⟩) ↔
      ∃ F : Finding M (s.vars.forBoot M s.history) (s.vars.booted M s.history),
        H = F.history ∧ v' = F.vars := by
  have hfresh' : (s.vars.forBoot M s.history).Fresh :=
    ⟨hfresh.LOOP, hfresh.VM_IP, hfresh.OUT, hfresh.GOAHEAD⟩
  let u : Shell BootVariables :=
    { vars := s.vars.forBoot M s.history
      history := s.vars.booted M s.history
      stdout := s.stdout ++ ["created from Image with ID:",
        unquoted (s.vars.forBoot M s.history).IMAGE_ID] ++
        M.output (s.vars.booted M s.history) }
  have hends (t : Shell BootVariables) :
      (bootVM M).Ends s t ↔ (pollAddress M).Ends u t := by
    simp [bootVM, u, BootVariables.booted, BootVariables.forBoot]
  simp only [hends]
  exact pollAddress_end (s := u) hfresh'

theorem issues_configVM : Issues (fun s => { s with
    history := s.history ++ [s.vars.configVM] }) configVM where
  vars _ := rfl
  history _ := rfl
  line _ _ := rfl

/-- The state after the commands behind the configuration. -/
def joined (M : Master) (s : Shell BootVariables) : Shell BootVariables :=
  let history := s.history ++ [s.vars.join]
  { vars := s.vars
    history := history
    stdout := s.stdout ++
      ["vm config done", "cluster_id", unquoted s.vars.CLUSTER_ID,
        "new vm IP", unquoted s.vars.VM_IP] ++
      M.output history ++ ["node added to swarm"] }

theorem federateVM_end :
    (∃ t, (federateVM M).Ends s t ∧ t.history = H) ↔
      ∃ S : Success M s.vars.configVM s.history, H = S.history ++ [s.vars.join] := by
  have hends (t : Shell BootVariables) : (federateVM M).Ends s t ↔
      ∃ u, (untilSucceeds M (issueQuietly configVM)).Ends s u ∧ t = joined M u := by
    simp [federateVM, joined]
  simp only [hends]
  constructor
  · rintro ⟨_, ⟨⟨vars, history, stdout⟩, hu, rfl⟩, rfl⟩
    obtain ⟨S, rfl, rfl⟩ := (untilSucceeds_end issues_configVM).mp ⟨stdout, hu⟩
    exact ⟨S, rfl⟩
  · rintro ⟨S, rfl⟩
    obtain ⟨stdout, hu⟩ :=
      (untilSucceeds_end (M := M) (s := s) issues_configVM).mpr ⟨S, rfl, rfl⟩
    exact ⟨_, ⟨_, hu, rfl⟩, rfl⟩

end Segments

theorem provisionVM_end {M : Master} {arguments : List String}
    {history H : List CommandLine} :
    let v := (provisionVM.start arguments history).vars
    (∃ t, (provisionVM M).Ends (provisionVM.start arguments history) t ∧
        t.history = H) ↔
      ∃ P : Provisioning M (v.forBoot M history) (v.booted M history),
        H = P.configured ++ [P.join] := by
  intro v
  have hfresh : v.Fresh := ⟨rfl, rfl, rfl, rfl⟩
  have hends (t : Shell BootVariables) :
      (provisionVM M).Ends (provisionVM.start arguments history) t ↔
        ∃ u, (bootVM M).Ends (provisionVM.start arguments history) u ∧
          (federateVM M).Ends u t := by
    simp [provisionVM]
  constructor
  · rintro ⟨t, ht, rfl⟩
    obtain ⟨⟨vars, before, stdout⟩, hboot, hfederate⟩ := (hends t).mp ht
    obtain ⟨F, rfl, rfl⟩ := (bootVM_end hfresh).mp ⟨stdout, hboot⟩
    obtain ⟨S, hS⟩ := federateVM_end.mp ⟨t, hfederate, rfl⟩
    exact ⟨⟨F, S⟩, hS⟩
  · rintro ⟨⟨F, S⟩, rfl⟩
    obtain ⟨stdout, hboot⟩ := (bootVM_end hfresh).mpr ⟨F, rfl, rfl⟩
    have hjoins : ∃ t, (federateVM M).Ends ⟨F.vars, F.history, stdout⟩ t ∧
        t.history = S.history ++ [F.vars.join] := federateVM_end.mpr ⟨S, rfl⟩
    obtain ⟨t, hfederate, hhistory⟩ := hjoins
    exact ⟨t, (hends t).mpr ⟨_, hboot, hfederate⟩, hhistory⟩

/-- The script ends exactly if Nova shows an address at some time and the VM
can be configured with the first one at some time after that.  It has then
booted one VM, configured it with that address, and let it join the swarm by
the only command that comes after the configuration has succeeded. -/
theorem provisionVM_ends_iff (M : Master) (arguments : List String)
    (history H : List CommandLine) :
    let v := (provisionVM.start arguments history).vars
    (∃ t, (provisionVM M).Ends (provisionVM.start arguments history) t ∧
        t.history = H) ↔
      ∃ P : Provisioning M (v.forBoot M history) (v.booted M history),
        H = P.configured ++ [P.join] :=
  provisionVM_end

/-- The commands can be computed: they are those of a run whose loops make enough
turns. -/
theorem provisionVM_run_iff (M : Master) (arguments : List String)
    (history H : List CommandLine) :
    let v := (provisionVM.start arguments history).vars
    (∃ n t, (provisionVM M).run n (provisionVM.start arguments history) = some t ∧
        t.history = H) ↔
      ∃ P : Provisioning M (v.forBoot M history) (v.booted M history),
        H = P.configured ++ [P.join] := by
  intro v
  refine Iff.trans ?_ provisionVM_end
  constructor
  · rintro ⟨n, t, hrun, hhistory⟩
    exact ⟨t, Script.ends_iff_run.mpr ⟨n, hrun⟩, hhistory⟩
  · rintro ⟨t, hends, hhistory⟩
    obtain ⟨n, hrun⟩ := Script.ends_iff_run.mp hends
    exact ⟨n, t, hrun, hhistory⟩

/-- The VM has an address when Nova is asked for the second time, and can be
configured at the second try. -/
def lateMaster : Master where
  file _ := ["KEY=my-key.pem", "#FLAVOR=m1.small", "FLAVOR=m1.medium"]
  output history :=
    if history.length = 4 then
      ["| OS-EXT-STS:vm_state | active |", "| net-work network | 10.0.0.5 |"]
    else []
  status history := if history.length = 6 then 0 else 255

example :
    let start := provisionVM.start ["180", "", "10.0.0.1:8500"] []
    ((provisionVM lateMaster).run 3 start).map (·.history.drop 5) =
      some [["ssh", "-o", "StrictHostKeyChecking=no", "-i", "my-key.pem", "-q",
          "ubuntu@10.0.0.5", "./configVM.sh", "10.0.0.1:8500"],
        ["sudo", "docker", "-H", "tcp://10.0.0.5:2375", "run", "-d", "swarm:1.1.1",
          "join", "--advertise=10.0.0.5:2375", "--heartbeat=15s", "--ttl=20s",
          "consul://10.0.0.1:8500"]] := by
  decide +kernel

end LambdaOnOpenStack
