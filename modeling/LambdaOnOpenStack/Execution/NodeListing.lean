import LambdaOnOpenStack.Execution.Autoscaler
import LambdaOnOpenStack.Support.Decimal
import LambdaOnOpenStack.Support.Picking

/-!
# The listing of the nodes

`docker info` of the swarm prints, between lines about the whole swarm, a block
of lines for every node.  The two awk programs of `awk_test.sh` look at the
header lines of the blocks, at their `Containers` lines and at their
`Reserved Memory` lines.
-/

namespace LambdaOnOpenStack

open Support

/-! ## Amounts -/

inductive ByteUnit where
  | B
  | KiB
  | MiB
  | GiB
  | TiB
  deriving DecidableEq

namespace ByteUnit

def text : ByteUnit → String
  | B => "B"
  | KiB => "KiB"
  | MiB => "MiB"
  | GiB => "GiB"
  | TiB => "TiB"

/-- The number of bytes. -/
def bytes : ByteUnit → ℕ
  | B => 1
  | KiB => 1024
  | MiB => 1024 ^ 2
  | GiB => 1024 ^ 3
  | TiB => 1024 ^ 4

theorem bytes_pos (unit : ByteUnit) : 0 < unit.bytes := by
  cases unit <;> decide

end ByteUnit

/-- An amount of memory, printed as a number and a unit. -/
structure Amount where
  number : Decimal
  unit : ByteUnit
  deriving DecidableEq

namespace Amount

/-- The field of the number. -/
def printed (a : Amount) : String := String.ofList a.number.chars

def bytes (a : Amount) : ℚ := a.number.value * a.unit.bytes

end Amount

/-- What a `Reserved Memory` line says. -/
structure Reserved where
  used : Amount
  total : Amount
  deriving DecidableEq

/-! ## The lines -/

/-- A line that neither awk program takes notice of. -/
structure PlainLine where
  fields : Fields
  plain : (Awk.hasMatch (Awk.field 1 fields) "child-vm" ||
    Awk.hasMatch (Awk.field 2 fields) "Containers" ||
    Awk.hasMatch (Awk.field 3 fields) "Memory") = false

/-- A line of a node below its header, its `Containers` line apart. -/
inductive Detail where
  | memory (reserved : Reserved)
  | other (line : PlainLine)

def Detail.line : Detail → Fields
  | memory reserved =>
      ["└", "Reserved", "Memory:", reserved.used.printed,
        reserved.used.unit.text, "/", reserved.total.printed,
        reserved.total.unit.text]
  | other line => line.fields

def Detail.memory? : Detail → Option Reserved
  | memory reserved => some reserved
  | other _ => none

/-- The lines of a node: its header, and one `Containers` line among its
details.  A node that has not joined yet has the name `(unknown)`. -/
structure NodeBlock where
  name : String
  address : Address
  above : List Detail
  containers : ℕ
  below : List Detail
  plain : Awk.isName name = true

namespace NodeBlock

def lines (node : NodeBlock) : List Fields :=
  [node.name ++ ":", node.address.text] :: node.above.map Detail.line ++
    ["└", "Containers:", toString node.containers] ::
      node.below.map Detail.line

/-- The node is a VM that `create_snapshot.sh` or `provisionVM.sh` has booted,
by its name. -/
def isChild (node : NodeBlock) : Bool := Awk.hasMatch node.name "child-vm"

/-- Docker counts fewer than two containers on the node. -/
def isIdle (node : NodeBlock) : Bool := node.containers < 2

/-- What the memory lines of the node say. -/
def memory (node : NodeBlock) : List Reserved :=
  (node.above ++ node.below).filterMap Detail.memory?

end NodeBlock

/-- The output of `docker info`. -/
structure NodeListing where
  head : List PlainLine := []
  nodes : List NodeBlock
  tail : List PlainLine := []

namespace NodeListing

def lines (listing : NodeListing) : List Fields :=
  listing.head.map PlainLine.fields ++ listing.nodes.flatMap NodeBlock.lines ++
    listing.tail.map PlainLine.fields

def names (listing : NodeListing) : List String :=
  listing.nodes.map NodeBlock.name

end NodeListing

/-! ## Sample listings -/

def PlainLine.status : PlainLine where
  fields := ["└", "Status:", "Healthy"]
  plain := by decide

def PlainLine.cpus : PlainLine where
  fields := ["└", "Reserved", "CPUs:", "0", "/", "1"]
  plain := by decide

def PlainLine.labels : PlainLine where
  fields := ["└", "Labels:", "executiondriver=native-0.2,"]
  plain := by decide

theorem plain_firstName : Awk.isName "child-vm-0" = true := by decide

theorem plain_bootedName : Awk.isName "child-vm-180" = true := by decide

theorem plain_pendingName : Awk.isName "(unknown)" = true := by decide

/-- A node as docker prints it. -/
def NodeBlock.sample {name : String} (plain : Awk.isName name = true)
    (containers : ℕ) (reserved : Reserved) : NodeBlock where
  name := name
  address := Cluster.sampleAddress
  above := [.other .status]
  containers := containers
  below := [.other .cpus, .memory reserved, .other .labels]
  plain := plain

def Amount.zero : Amount where
  number := { whole := 0 }
  unit := .B

/-- So many MiB. -/
def Amount.MiB (n : ℕ) : Amount where
  number := { whole := n }
  unit := .MiB

def Amount.GiB (n : ℕ) : Amount where
  number := { whole := n }
  unit := .GiB

/-! ## The choice of the VM -/

section Choice

variable {vars : Awk.Variables} {node : NodeBlock}

theorem body_plainLine (line : PlainLine) : Awk.body vars line.fields = vars := by
  have hplain := line.plain
  simp only [Bool.or_eq_false_iff] at hplain
  simp [Awk.body, hplain]

theorem body_detail (detail : Detail) : Awk.body vars detail.line = vars := by
  cases detail with
  | memory reserved =>
      have hbar : Awk.hasMatch "└" "child-vm" = false := by decide
      have hreserved : Awk.hasMatch "Reserved" "Containers" = false := by decide
      simp [Detail.line, Awk.body, Awk.field, hbar, hreserved]
  | other line => exact body_plainLine line

theorem foldl_details (details : List Detail) :
    (details.map Detail.line).foldl Awk.body vars = vars := by
  rw [List.foldl_map]
  exact List.foldl_fixed' body_detail details

theorem foldl_plainLines (lines : List PlainLine) :
    (lines.map PlainLine.fields).foldl Awk.body vars = vars := by
  rw [List.foldl_map]
  exact List.foldl_fixed' body_plainLine lines

theorem body_header : Awk.body vars [node.name ++ ":", node.address.text] =
    { vars with CONT_ID := if node.isChild then node.name else vars.CONT_ID } := by
  have hchild : Awk.hasMatch (node.name ++ ":") "child-vm" = node.isChild :=
    Awk.hasMatch_append_colon (by decide) (by decide) node.name
  have hname := Awk.beforeColon_append_colon (Awk.colon_notMem node.plain)
  have haddress : Awk.hasMatch node.address.text "Containers" = false := by
    apply Awk.hasMatch_eq_false (c := 'C') (by decide)
    intro hmem
    have hnumeric := List.all_eq_true.mp node.address.numeric 'C' hmem
    revert hnumeric
    decide
  simp [Awk.body, Awk.field, hchild, hname, haddress]

theorem body_containers :
    Awk.body vars ["└", "Containers:", toString node.containers] =
      { vars with CONTS := if node.isIdle then vars.CONT_ID else vars.CONTS } := by
  have hbar : Awk.hasMatch "└" "child-vm" = false := by decide
  have hcontainers : Awk.hasMatch "Containers:" "Containers" = true := by decide
  simp [Awk.body, Awk.field, hbar, hcontainers, Awk.lessThanTwo_repr,
    NodeBlock.isIdle]

/-- The program remembers the name of a child, and picks the remembered one at
an idle node. -/
theorem foldl_nodeLines (vars : Awk.Variables) (node : NodeBlock) :
    node.lines.foldl Awk.body vars =
      .ofNames (remember NodeBlock.isChild NodeBlock.isIdle NodeBlock.name
        vars.names node) := by
  rw [NodeBlock.lines, List.cons_append, List.foldl_cons, body_header,
    List.foldl_append, foldl_details, List.foldl_cons, body_containers,
    foldl_details]
  rfl

/-- The VM that the scaler chooses: from the last idle node back to the first
child. -/
def NodeListing.picked (listing : NodeListing) : Option NodeBlock :=
  pick NodeBlock.isChild NodeBlock.isIdle listing.nodes

theorem vmName_lines (listing : NodeListing) :
    Awk.vmName listing.lines = (listing.picked.map NodeBlock.name).getD "" := by
  rw [Awk.vmName, NodeListing.lines, List.foldl_append, List.foldl_append,
    foldl_plainLines listing.tail, foldl_plainLines listing.head,
    Awk.foldl_reader foldl_nodeLines]
  rfl

end Choice

/-! ## Idle children -/

theorem NodeBlock.name_ne_empty {node : NodeBlock} (hchild : node.isChild = true) :
    node.name ≠ "" := by
  intro hempty
  rw [NodeBlock.isChild, hempty] at hchild
  revert hchild
  decide

namespace NodeListing

/-- `printed` is the name of an idle child, or it is empty and there is none. -/
def NamesIdleChild (listing : NodeListing) (printed : String) : Prop :=
  (∃ node ∈ listing.nodes, node.isChild = true ∧ node.isIdle = true ∧
      printed = node.name) ∨
    (printed = "" ∧
      ∀ node ∈ listing.nodes, node.isChild = true → node.isIdle = false)

/-- If the last idle node is no child, there is an idle node with the name of
the child that is listed last before it. -/
def LastIdleCovered (listing : NodeListing) : Prop :=
  ∀ before last after child, listing.nodes = before ++ last :: after →
    last.isIdle = true → (∀ node ∈ after, node.isIdle = false) →
    last.isChild = false → lastOf NodeBlock.isChild before = some child →
      ∃ node ∈ listing.nodes, node.isIdle = true ∧ node.name = child.name

end NodeListing

/-- The program prints the name of an idle child, or nothing if there is none,
exactly if the name that it remembers at the last idle node is that of an idle
node. -/
theorem vmName_idle_iff (listing : NodeListing) :
    listing.NamesIdleChild (Awk.vmName listing.lines) ↔
      listing.LastIdleCovered := by
  rw [vmName_lines, NodeListing.picked]
  rcases exists_last NodeBlock.isIdle listing.nodes with
    hnone | ⟨before, last, after, hnodes, hlast, hafter⟩
  · rw [pick_of_none hnone]
    refine iff_of_true (Or.inr ⟨rfl, fun node hnode _ => hnone node hnode⟩) ?_
    intro before last after child hnodes hlast
    simp [hnone last (by simp [hnodes])] at hlast
  · have hpick : pick NodeBlock.isChild NodeBlock.isIdle
        (before ++ last :: after) =
          if last.isChild then some last
          else lastOf NodeBlock.isChild before := pick_of_last hlast hafter
    rw [← hnodes] at hpick
    rw [hpick]
    -- The last idle node of `LastIdleCovered` is `last`.
    have hcovered (hother : last.isChild = false) : listing.LastIdleCovered ↔
        ∀ child, lastOf NodeBlock.isChild before = some child →
          ∃ node ∈ listing.nodes, node.isIdle = true ∧
            node.name = child.name := by
      constructor
      · intro h child
        exact h before last after child hnodes hlast hafter hother
      · intro h before' last' after' child hnodes' hlast' hafter' _
        obtain ⟨rfl, -⟩ := last_unique (hnodes.symm.trans hnodes') hlast hafter
          hlast' hafter'
        exact h child
    cases hchild : last.isChild with
    | true =>
        refine iff_of_true (Or.inl ⟨last, by simp [hnodes], hchild, hlast, rfl⟩) ?_
        intro before' last' after' child hnodes' hlast' hafter' hother
        obtain ⟨-, rfl⟩ := last_unique (hnodes.symm.trans hnodes') hlast hafter
          hlast' hafter'
        simp [hchild] at hother
    | false =>
        rw [hcovered hchild]
        cases hbefore : lastOf NodeBlock.isChild before with
        | none =>
            refine iff_of_true (Or.inr ⟨rfl, ?_⟩) (by simp)
            intro node hnode hnode'
            rw [hnodes, List.mem_append, List.mem_cons] at hnode
            rcases hnode with hnode | rfl | hnode
            · simp [lastOf_eq_none.mp hbefore node hnode] at hnode'
            · simp [hchild] at hnode'
            · exact hafter node hnode
        | some child =>
            have hisChild : child.isChild = true := lastOf_prop hbefore
            constructor
            · rintro (⟨node, hnode, -, hidle, hname⟩ | ⟨hempty, -⟩)
              · rintro _ ⟨⟩
                exact ⟨node, hnode, hidle, hname.symm⟩
              · exact absurd hempty (NodeBlock.name_ne_empty hisChild)
            · intro h
              obtain ⟨node, hnode, hidle, hname⟩ := h child rfl
              refine Or.inl ⟨node, hnode, ?_, hidle, hname.symm⟩
              rw [NodeBlock.isChild, hname]
              exact hisChild

/-- A child that is not idle is listed before an idle node that is no child. -/
def busyChildFirst : NodeListing where
  nodes :=
    [.sample plain_firstName 5 { used := .MiB 900, total := .GiB 1 },
      .sample plain_pendingName 0 { used := .zero, total := .zero }]

theorem busy_child_is_printed :
    ¬busyChildFirst.NamesIdleChild (Awk.vmName busyChildFirst.lines) := by
  have hprinted : Awk.vmName busyChildFirst.lines = "child-vm-0" := by
    decide +kernel
  rw [hprinted]
  rintro (⟨node, hnode, hchild, hidle, -⟩ | ⟨hempty, -⟩)
  · have hbusy : ∀ node ∈ busyChildFirst.nodes,
        ¬(node.isChild = true ∧ node.isIdle = true) := by decide +kernel
    exact hbusy node hnode ⟨hchild, hidle⟩
  · revert hempty
    decide

end LambdaOnOpenStack
