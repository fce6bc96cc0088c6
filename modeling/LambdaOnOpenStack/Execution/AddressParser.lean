import LambdaOnOpenStack.Execution.Autoscaler
import Mathlib.Data.String.Basic

/-!
# The address of a new VM

`provisionVM.sh` and `create_snapshot.sh` read the address of the VM that they
have booted off the output of `nova show`, again and again until there is one.
The awk program remembers the state of the VM and takes the fifth field of the
rows whose names begin with the name of the network.  That name is written into
the program, although the network to be used is configured.
-/

namespace LambdaOnOpenStack

open Support

/-! ## The table -/

/-- The words into which awk splits a line. -/
def Awk.words (text : String) : List String :=
  ((text.toList.splitOnP fun c => c = ' ' || c = '\t' || c = '\n').filter
    (· ≠ [])).map String.ofList

/-- A row `| property | value |`. -/
structure Row where
  property : String
  value : String
  deriving DecidableEq

def Row.fields (row : Row) : Fields :=
  "|" :: (Awk.words row.property ++ "|" :: (Awk.words row.value ++ ["|"]))

/-- An address of a VM. -/
structure VMAddress where
  text : String
  nonempty : text ≠ ""
  plain : text.toList.all fun c => c.isAlphanum || c = '.' || c = ':'
  deriving DecidableEq

def stateProperty : String := "OS-EXT-STS:vm_state"

def networkProperty (N : String) : String := N ++ " network"

/-- The addresses as they are printed, separated by commas and blanks. -/
def addressList (addresses : List VMAddress) : String :=
  String.intercalate ", " (addresses.map (·.text))

/-- The table of `nova show` for a VM in the network `N`: among other rows it
has those of the state and of the addresses. -/
structure NovaShow (N : String) where
  rows : List Row
  state : String
  first : VMAddress
  others : List VMAddress := []
  sorted : rows.Pairwise fun r s => r.property < s.property
  stateRow : ⟨stateProperty, state⟩ ∈ rows
  networkRow : ⟨networkProperty N, addressList (first :: others)⟩ ∈ rows

/-- The lines of a table with these rows. -/
def tableLines (rows : List Row) : List Fields :=
  [["+----------+-------+"], ["|", "Property", "|", "Value", "|"],
    ["+----------+-------+"]] ++ rows.map Row.fields ++ [["+----------+-------+"]]

/-! ## The awk program -/

namespace Awk

/-- `a[2]` after `split(text, a, ":")`. -/
def afterColon (text : String) : String :=
  String.ofList ((text.toList.splitOnP (· = ':'))[1]?.getD [])

/-- The variable `state` after a line. -/
def nextState (state : String) (line : Fields) : String :=
  if hasMatch (afterColon (field 2 line)) "vm_state" then field 4 line else state

/-- The program takes a value from the line. -/
def takes (state : String) (line : Fields) : Bool :=
  hasMatch state "active" && hasMatch (field 2 line) "net-work"

/-- What the program prints for the lines of a table. -/
def val (lines : List Fields) : String :=
  (lines.foldl (fun vars line =>
    let state := nextState vars.1 line
    (state, if takes state line then field 5 line else vars.2)) ("", "")).2

/-- The last line from which the program takes a value. -/
def lastTaken (lines : List Fields) : Option Fields :=
  (lastOf (fun t => takes t.1 t.2) (tagged nextState "" lines)).map Prod.snd

theorem val_eq (lines : List Fields) :
    val lines = ((lastTaken lines).map (field 5)).getD "" := by
  have hfold := foldl_taken nextState takes (field 5) "" "" lines
  rw [lastTaken, Option.map_map]
  exact congrArg Prod.snd hfold

end Awk

/-- The variable `VM_IP` after one look at the table. -/
def vmIp (rows : List Row) : String := Awk.val (tableLines rows)

/-- The polling loop: the address with which it ends and the tables that are
not read any more. -/
def poll : List (List Row) → Option (String × List (List Row))
  | [] => none
  | rows :: rest =>
      let VM_IP := vmIp rows
      if VM_IP = "" then poll rest else some (VM_IP, rest)

/-! ## What the scripts need -/

namespace NovaShow

variable {N : String}

/-- The first address if the VM is active, and otherwise nothing. -/
def address (s : NovaShow N) : String :=
  if s.state = "active" then s.first.text else ""

def FindsAddress (s : NovaShow N) : Prop := vmIp s.rows = s.address

/-- The loop ends with the first active table and with its address. -/
def polled : List (NovaShow N) → Option (String × List (List Row))
  | [] => none
  | s :: rest =>
      if s.state = "active" then some (s.first.text, rest.map (·.rows))
      else polled rest

/-- The condition holds up to and including the first active table. -/
def UntilActive (C : NovaShow N → Prop) : List (NovaShow N) → Prop
  | [] => True
  | s :: rest => C s ∧ (s.state ≠ "active" → UntilActive C rest)

/-- The last line from which the program takes a value has the address in the
fifth column; if the VM is not active there is no such line, or nothing stands
there. -/
def TakesAddress (s : NovaShow N) : Prop :=
  match Awk.lastTaken (tableLines s.rows) with
  | some line => Awk.field 5 line = s.address
  | none => s.state ≠ "active"

theorem address_eq_empty_iff (s : NovaShow N) :
    s.address = "" ↔ s.state ≠ "active" := by
  rw [address]
  split <;> simp [*, s.first.nonempty]

theorem findsAddress_iff (s : NovaShow N) : s.FindsAddress ↔ s.TakesAddress := by
  rw [FindsAddress, TakesAddress, vmIp, Awk.val_eq]
  cases Awk.lastTaken (tableLines s.rows) with
  | none => exact eq_comm.trans s.address_eq_empty_iff
  | some line => exact Iff.rfl

theorem length_poll_lt {tables rest : List (List Row)} {VM_IP : String}
    (hpoll : poll tables = some (VM_IP, rest)) : rest.length < tables.length := by
  induction tables with
  | nil => simp [poll] at hpoll
  | cons rows tables ih =>
      rw [poll] at hpoll
      split at hpoll
      · exact Nat.lt_succ_of_lt (ih hpoll)
      · obtain ⟨-, rfl⟩ := Prod.mk.inj (Option.some.inj hpoll)
        exact Nat.lt_succ_self _

theorem length_polled_lt {shows : List (NovaShow N)} {rest : List (List Row)}
    {VM_IP : String} (hpolled : polled shows = some (VM_IP, rest)) :
    rest.length < shows.length := by
  induction shows with
  | nil => simp [polled] at hpolled
  | cons s shows ih =>
      rw [polled] at hpolled
      split at hpolled
      · obtain ⟨-, rfl⟩ := Prod.mk.inj (Option.some.inj hpolled)
        simp
      · exact Nat.lt_succ_of_lt (ih hpolled)

/-- The loop ends where it should exactly if the address is found in every
table that it should read. -/
theorem poll_eq_polled_iff (shows : List (NovaShow N)) :
    poll (shows.map (·.rows)) = polled shows ↔
      UntilActive FindsAddress shows := by
  induction shows with
  | nil => exact iff_of_true rfl trivial
  | cons s rest ih =>
      rw [List.map_cons, poll, polled, UntilActive, FindsAddress, address]
      by_cases hactive : s.state = "active"
      · simp only [hactive, ↓reduceIte, ne_eq, not_true_eq_false,
          false_imp_iff, and_true]
        constructor
        · intro hpoll
          by_cases hempty : vmIp s.rows = ""
          · rw [if_pos hempty] at hpoll
            have hlength := length_poll_lt hpoll
            exact absurd hlength (Nat.lt_irrefl _)
          · rw [if_neg hempty] at hpoll
            exact (Prod.mk.inj (Option.some.inj hpoll)).1
        · intro hfound
          rw [hfound, if_neg s.first.nonempty]
      · simp only [hactive, ↓reduceIte, ne_eq, not_false_eq_true, true_imp_iff]
        by_cases hempty : vmIp s.rows = ""
        · rw [if_pos hempty, ih]
          exact (and_iff_right hempty).symm
        · rw [if_neg hempty]
          refine iff_of_false ?_ fun h => hempty h.1
          intro hpoll
          have hlength := length_polled_lt hpoll.symm
          simp at hlength

/-! ## Tables without look-alikes -/

/-- No row but that of the state is taken for it, and no row but that of the
addresses is taken for theirs. -/
structure Quiet (s : NovaShow N) : Prop where
  state : ∀ row ∈ s.rows, row.property ≠ stateProperty →
    Awk.hasMatch (Awk.afterColon (Awk.field 2 row.fields)) "vm_state" = false
  network : ∀ row ∈ s.rows, row.property ≠ networkProperty N →
    Awk.hasMatch (Awk.field 2 row.fields) "net-work" = false

/-- The program takes a value from the row of the addresses when the state is
`active`: it knows the network and has seen the state before. -/
def Reads (N : String) : Prop :=
  Awk.hasMatch N "net-work" = true ∧ stateProperty < networkProperty N

end NovaShow

/-! ### The fields of the rows -/

namespace Awk

theorem words_append_blank (before after : String) :
    words (before ++ " " ++ after) = words before ++ words after := by
  have hchars : (before ++ " " ++ after).toList =
      before.toList ++ ' ' :: after.toList := by simp
  rw [words, hchars, List.splitOnP_append_cons _ _ (by decide), List.filter_append,
    List.map_append]
  rfl

/-- A text without blanks is one word. -/
theorem words_of_plain {text : String} (hne : text ≠ "")
    (hplain : ∀ c ∈ text.toList, c ≠ ' ' ∧ c ≠ '\t' ∧ c ≠ '\n') :
    words text = [text] := by
  have hsingle : (text.toList.splitOnP fun c => c = ' ' || c = '\t' || c = '\n') =
      [text.toList] := by
    apply List.splitOnP_eq_singleton
    intro c hc
    simpa [and_assoc] using hplain c hc
  have hne' : text.toList ≠ [] := by simpa using hne
  rw [words, hsingle, List.filter_cons_of_pos (by simpa using hne')]
  simp

/-- Lines that are not that of the state leave the state alone. -/
theorem foldl_nextState_of_none {lines : List Fields}
    (hlines : ∀ line ∈ lines,
      hasMatch (afterColon (field 2 line)) "vm_state" = false) (state : String) :
    lines.foldl nextState state = state := by
  induction lines with
  | nil => rfl
  | cons line rest ih =>
      obtain ⟨hline, hrest⟩ := List.forall_mem_cons.mp hlines
      rw [List.foldl_cons, nextState, hline]
      exact ih hrest

/-- The only line that names the network decides. -/
theorem lastTaken_of_single {before after : List Fields} {line : Fields}
    (hbefore : ∀ l ∈ before, hasMatch (field 2 l) "net-work" = false)
    (hafter : ∀ l ∈ after, hasMatch (field 2 l) "net-work" = false) :
    lastTaken (before ++ line :: after) =
      if takes ((before ++ [line]).foldl nextState "") line then some line
      else none := by
  have hnone (state : String) (lines : List Fields)
      (hlines : ∀ l ∈ lines, hasMatch (field 2 l) "net-work" = false) :
      ∀ t ∈ tagged nextState state lines, takes t.1 t.2 = false := by
    intro t ht
    have hmem : t.2 ∈ lines := by
      rw [← map_snd_tagged nextState state lines]
      exact List.mem_map_of_mem ht
    rw [takes, hlines t.2 hmem, Bool.and_false]
  have hstate : (before ++ [line]).foldl nextState "" =
      nextState (before.foldl nextState "") line := by
    rw [List.foldl_append, List.foldl_cons, List.foldl_nil]
  have htagged : tagged nextState "" (before ++ line :: after) =
      tagged nextState "" before ++
        (nextState (before.foldl nextState "") line, line) ::
          tagged nextState (nextState (before.foldl nextState "") line) after := by
    rw [tagged_append, tagged]
  rw [lastTaken, htagged, hstate,
    lastOf_of_single (hnone _ _ hbefore) (hnone _ _ hafter)]
  cases takes (nextState (before.foldl nextState "") line) line with
  | true => rfl
  | false => rfl

end Awk

namespace VMAddress

variable (a : VMAddress)

theorem words_text : Awk.words a.text = [a.text] := by
  apply Awk.words_of_plain a.nonempty
  intro c hc
  have hplain := List.all_eq_true.mp a.plain c hc
  refine ⟨?_, ?_, ?_⟩ <;> rintro rfl <;> revert hplain <;> decide

theorem words_text_comma : Awk.words (a.text ++ ",") = [a.text ++ ","] := by
  apply Awk.words_of_plain
  · intro hempty
    have hlength := congrArg (fun text => text.toList.length) hempty
    simp at hlength
  · intro c hc
    rw [String.toList_append, List.mem_append] at hc
    rcases hc with hc | hc
    · have hplain := List.all_eq_true.mp a.plain c hc
      refine ⟨?_, ?_, ?_⟩ <;> rintro rfl <;> revert hplain <;> decide
    · rw [List.mem_singleton.mp hc]
      decide

end VMAddress

/-- The first word of a list of addresses: a comma stays at its end. -/
theorem head_words_addressList (first : VMAddress) (others : List VMAddress) :
    ∃ rest, Awk.words (addressList (first :: others)) =
      (if others = [] then first.text else first.text ++ ",") :: rest := by
  cases others with
  | nil =>
      refine ⟨[], ?_⟩
      simp [addressList, first.words_text]
  | cons second others =>
      have htext : addressList (first :: second :: others) =
          (first.text ++ ",") ++ " " ++ addressList (second :: others) := by
        have hcomma : ", " = "," ++ " " := by decide
        simp only [addressList, List.map_cons]
        rw [String.intercalate_cons_cons]
        simp only [hcomma, String.append_assoc]
      rw [htext, Awk.words_append_blank, first.words_text_comma]
      exact ⟨_, rfl⟩

/-! ### The rows of a quiet table -/

theorem networkProperty_ne_stateProperty (N : String) :
    networkProperty N ≠ stateProperty := by
  intro hsame
  have hlast := congrArg (fun text => text.toList.getLast?) hsame
  have hnetwork : " network".toList = " networ".toList ++ ['k'] := by decide
  simp only [networkProperty, String.toList_append, hnetwork] at hlast
  rw [← List.append_assoc, List.getLast?_concat] at hlast
  exact absurd hlast (by decide)

/-- In a sorted table the rows before and after a row have other names. -/
theorem sorted_split {before after : List Row} {row : Row}
    (hsorted : (before ++ row :: after).Pairwise fun r s => r.property < s.property) :
    (∀ r ∈ before, r.property < row.property) ∧
      ∀ r ∈ after, row.property < r.property := by
  obtain ⟨-, hafter, hcross⟩ := List.pairwise_append.mp hsorted
  exact ⟨fun r hr => hcross r hr row (List.mem_cons_self ..),
    (List.pairwise_cons.mp hafter).1⟩

namespace NovaShow

variable {N : String} (s : NovaShow N)

/-- The line of the state. -/
def stateLine : Fields := Row.fields ⟨stateProperty, s.state⟩

/-- The line of the addresses. -/
def networkLine : Fields :=
  Row.fields ⟨networkProperty N, addressList (s.first :: s.others)⟩

/-- The state that the program has seen above the line of the addresses. -/
def seenState : String :=
  if stateProperty < networkProperty N then Awk.field 4 s.stateLine else ""

variable {s}

theorem Quiet.other_lines (hquiet : s.Quiet) {rows : List Row}
    (hrows : ∀ row ∈ rows, row ∈ s.rows ∧ row.property ≠ stateProperty) :
    ∀ line ∈ rows.map Row.fields,
      Awk.hasMatch (Awk.afterColon (Awk.field 2 line)) "vm_state" = false := by
  intro line hline
  obtain ⟨row, hrow, rfl⟩ := List.mem_map.mp hline
  exact hquiet.state row (hrows row hrow).1 (hrows row hrow).2

theorem stateLine_eq (s : NovaShow N) :
    s.stateLine = "|" :: stateProperty :: "|" :: (Awk.words s.state ++ ["|"]) := by
  have hword : Awk.words stateProperty = [stateProperty] := by decide
  rw [stateLine, Row.fields, hword]
  rfl

theorem nextState_stateLine (s : NovaShow N) (state : String) :
    Awk.nextState state s.stateLine = Awk.field 4 s.stateLine := by
  have hstate : Awk.hasMatch (Awk.afterColon stateProperty) "vm_state" = true := by
    decide
  have hfield : Awk.field 2 s.stateLine = stateProperty := by
    rw [s.stateLine_eq]
    rfl
  rw [Awk.nextState, hfield, if_pos hstate]

theorem networkLine_eq (s : NovaShow N) (hN : Awk.words N = [N]) :
    s.networkLine = "|" :: N :: "network" :: "|" ::
      (Awk.words (addressList (s.first :: s.others)) ++ ["|"]) := by
  have hname : networkProperty N = N ++ " " ++ "network" := by
    have hblank : " network" = " " ++ "network" := by decide
    rw [networkProperty, hblank, String.append_assoc]
  have hword : Awk.words "network" = ["network"] := by decide
  rw [networkLine, Row.fields, hname, Awk.words_append_blank, hN, hword]
  rfl

/-- What the program knows of the state when it comes to the addresses. -/
theorem Quiet.state_before (hquiet : s.Quiet) {before after : List Row}
    (hrows : s.rows = before ++
      ⟨networkProperty N, addressList (s.first :: s.others)⟩ :: after) :
    (before.map Row.fields).foldl Awk.nextState "" = s.seenState := by
  have hsorted := s.sorted
  rw [hrows] at hsorted
  obtain ⟨hbefore, hafter⟩ := sorted_split hsorted
  have hstate := s.stateRow
  rw [hrows, List.mem_append, List.mem_cons] at hstate
  rcases hstate with hstate | hstate | hstate
  · rw [seenState, if_pos (hbefore _ hstate)]
    obtain ⟨upper, lower, rfl⟩ := List.append_of_mem hstate
    obtain ⟨-, hlower⟩ := sorted_split (List.pairwise_append.mp hsorted).1
    have hothers : ∀ row ∈ lower, row ∈ s.rows ∧ row.property ≠ stateProperty := by
      intro row hrow
      refine ⟨by simp [hrows, hrow], ?_⟩
      exact (hlower row hrow).ne'
    have hlines := hquiet.other_lines hothers
    rw [List.map_append, List.map_cons, List.foldl_append, List.foldl_cons,
      Awk.foldl_nextState_of_none hlines]
    exact s.nextState_stateLine _
  · exact absurd (congrArg Row.property hstate).symm
      (networkProperty_ne_stateProperty N)
  · have hlt := hafter _ hstate
    rw [seenState, if_neg (lt_asymm hlt)]
    apply Awk.foldl_nextState_of_none
    apply hquiet.other_lines
    intro row hrow
    refine ⟨by simp [hrows, hrow], ?_⟩
    exact ((hbefore row hrow).trans hlt).ne

/-- In a quiet table the row of the addresses is the only one that can be
taken. -/
theorem Quiet.lastTaken_eq (hquiet : s.Quiet) :
    Awk.lastTaken (tableLines s.rows) =
      if Awk.takes s.seenState s.networkLine then some s.networkLine
      else none := by
  obtain ⟨before, after, hrows⟩ := List.append_of_mem s.networkRow
  have hsorted := s.sorted
  rw [hrows] at hsorted
  obtain ⟨hbefore, hafter⟩ := sorted_split hsorted
  have hlines : tableLines s.rows =
      ([["+----------+-------+"], ["|", "Property", "|", "Value", "|"],
          ["+----------+-------+"]] ++ before.map Row.fields) ++
        s.networkLine :: (after.map Row.fields ++ [["+----------+-------+"]]) := by
    simp [tableLines, hrows, networkLine]
  have hnetwork (rows : List Row) (hrows' : ∀ row ∈ rows, row ∈ s.rows ∧
      row.property ≠ networkProperty N) :
      ∀ line ∈ rows.map Row.fields,
        Awk.hasMatch (Awk.field 2 line) "net-work" = false := by
    intro line hline
    obtain ⟨row, hrow, rfl⟩ := List.mem_map.mp hline
    exact hquiet.network row (hrows' row hrow).1 (hrows' row hrow).2
  have hheader : ∀ line ∈ [["+----------+-------+"],
      ["|", "Property", "|", "Value", "|"], ["+----------+-------+"]],
        Awk.hasMatch (Awk.field 2 line) "net-work" = false ∧
          Awk.hasMatch (Awk.afterColon (Awk.field 2 line)) "vm_state" = false := by
    decide
  have hstate := hquiet.state_before hrows
  have hline : Awk.hasMatch (Awk.afterColon (Awk.field 2 s.networkLine))
      "vm_state" = false :=
    hquiet.state _ s.networkRow (networkProperty_ne_stateProperty N)
  rw [hlines, Awk.lastTaken_of_single]
  · rw [List.foldl_append, List.foldl_append,
      Awk.foldl_nextState_of_none (fun line hl => (hheader line hl).2), hstate,
      List.foldl_cons, List.foldl_nil, Awk.nextState, hline]
    rfl
  · intro line hl
    rcases List.mem_append.mp hl with hl | hl
    · exact (hheader line hl).1
    · refine hnetwork before ?_ line hl
      intro row hrow
      exact ⟨by simp [hrows, hrow], (hbefore row hrow).ne⟩
  · intro line hl
    rcases List.mem_append.mp hl with hl | hl
    · refine hnetwork after ?_ line hl
      intro row hrow
      exact ⟨by simp [hrows, hrow], (hafter row hrow).ne'⟩
    · rw [List.mem_singleton.mp hl]
      decide

/-- Whether the row of the addresses is taken, for a network with a name of one
word. -/
theorem takes_networkLine_iff (s : NovaShow N) (hN : Awk.words N = [N]) :
    Awk.takes s.seenState s.networkLine = true ↔
      Reads N ∧ Awk.hasMatch (Awk.field 4 s.stateLine) "active" = true := by
  have hfield : Awk.field 2 s.networkLine = N := by
    rw [s.networkLine_eq hN]
    rfl
  have hempty : Awk.hasMatch "" "active" = false := by decide
  rw [Awk.takes, hfield, Bool.and_eq_true, Reads]
  by_cases horder : stateProperty < networkProperty N
  · have hseen : s.seenState = Awk.field 4 s.stateLine := if_pos horder
    rw [hseen]
    constructor
    · rintro ⟨hmatch, hnetwork⟩
      exact ⟨⟨hnetwork, horder⟩, hmatch⟩
    · rintro ⟨⟨hnetwork, -⟩, hmatch⟩
      exact ⟨hmatch, hnetwork⟩
  · have hseen : s.seenState = "" := if_neg horder
    rw [hseen, hempty]
    refine iff_of_false ?_ fun h => horder h.1.2
    rintro ⟨hmatch, -⟩
    exact absurd hmatch Bool.false_ne_true

/-- What the program takes from that row. -/
theorem field_networkLine (s : NovaShow N) (hN : Awk.words N = [N]) :
    Awk.field 5 s.networkLine =
      if s.others = [] then s.first.text else s.first.text ++ "," := by
  obtain ⟨rest, hwords⟩ := head_words_addressList s.first s.others
  rw [s.networkLine_eq hN, hwords]
  rfl

theorem field_networkLine_ne_empty (s : NovaShow N) (hN : Awk.words N = [N]) :
    Awk.field 5 s.networkLine ≠ "" := by
  rw [s.field_networkLine hN]
  split
  · exact s.first.nonempty
  · intro hempty
    have hlength := congrArg (fun text => text.toList.length) hempty
    simp at hlength

theorem field_networkLine_eq_iff (s : NovaShow N) (hN : Awk.words N = [N]) :
    Awk.field 5 s.networkLine = s.first.text ↔ s.others = [] := by
  rw [s.field_networkLine hN]
  split
  · rename_i hone
    exact iff_of_true rfl hone
  · rename_i hmore
    refine iff_of_false ?_ hmore
    intro hsame
    have hlength := congrArg (fun text => text.toList.length) hsame
    simp at hlength

/-- In a quiet table the address of an active VM is found exactly if the
program reads the network and the VM has no second address; that of another VM
is not reported exactly if its state does not look like an active one. -/
theorem Quiet.findsAddress_iff (hquiet : s.Quiet) (hN : Awk.words N = [N]) :
    s.FindsAddress ↔
      if s.state = "active" then Reads N ∧ s.others = []
      else ¬(Reads N ∧ Awk.hasMatch (Awk.field 4 s.stateLine) "active" = true) := by
  have htakes := s.takes_networkLine_iff hN
  rw [FindsAddress, vmIp, Awk.val_eq, hquiet.lastTaken_eq, address]
  by_cases hactive : s.state = "active"
  · have hmatch : Awk.hasMatch (Awk.field 4 s.stateLine) "active" = true := by
      rw [s.stateLine_eq, hactive]
      decide
    rw [if_pos hactive, if_pos hactive]
    by_cases hreads : Reads N
    · rw [if_pos (htakes.mpr ⟨hreads, hmatch⟩), Option.map_some,
        Option.getD_some, s.field_networkLine_eq_iff hN]
      exact (and_iff_right hreads).symm
    · rw [if_neg fun h => hreads (htakes.mp h).1, Option.map_none,
        Option.getD_none]
      exact iff_of_false s.first.nonempty.symm fun h => hreads h.1
  · rw [if_neg hactive, if_neg hactive, ← htakes]
    split
    · rename_i htaken
      exact iff_of_false (s.field_networkLine_ne_empty hN) fun h => h htaken
    · rename_i htaken
      exact iff_of_true rfl htaken

end NovaShow

open NovaShow

/-- The program finds the address in a table exactly if the last line from
which it takes a value has it in the fifth column.  Where no other row looks
like those of the state and of the addresses, and the name of the network is
one word, this means that it reads the network and there is one address.  The
loop ends with the first active table and its address exactly if the address is
found in all tables up to it. -/
theorem address_found_iff (N : String) :
    (∀ s : NovaShow N, s.FindsAddress ↔ s.TakesAddress) ∧
    (∀ s : NovaShow N, s.Quiet → Awk.words N = [N] →
      (s.FindsAddress ↔
        if s.state = "active" then Reads N ∧ s.others = []
        else ¬(Reads N ∧
          Awk.hasMatch (Awk.field 4 s.stateLine) "active" = true))) ∧
    ∀ shows : List (NovaShow N),
      poll (shows.map (·.rows)) = polled shows ↔
        UntilActive TakesAddress shows := by
  refine ⟨findsAddress_iff, fun s hquiet hN => hquiet.findsAddress_iff hN, ?_⟩
  intro shows
  rw [poll_eq_polled_iff]
  induction shows with
  | nil => exact Iff.rfl
  | cons s rest ih =>
      rw [UntilActive, UntilActive, findsAddress_iff s, ih]

/-- A table for an active VM with two addresses. -/
def twoAddresses : NovaShow "net-work" where
  rows :=
    [⟨"OS-EXT-STS:power_state", "1"⟩, ⟨"OS-EXT-STS:vm_state", "active"⟩,
      ⟨"name", "child-vm-1"⟩, ⟨"net-work network", "192.168.1.101, 10.0.0.5"⟩,
      ⟨"status", "ACTIVE"⟩]
  state := "active"
  first := ⟨"192.168.1.101", by decide, by decide⟩
  others := [⟨"10.0.0.5", by decide, by decide⟩]
  sorted := by decide
  stateRow := by decide
  networkRow := by decide

/-- The comma stays at the end of the first address. -/
theorem comma_kept : ¬twoAddresses.FindsAddress := by
  have hval : vmIp twoAddresses.rows = "192.168.1.101," := by decide
  rw [FindsAddress, hval]
  decide

end LambdaOnOpenStack
