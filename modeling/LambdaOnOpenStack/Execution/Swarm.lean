import LambdaOnOpenStack.Execution.Leftovers
import LambdaOnOpenStack.Support.Collection
import LambdaOnOpenStack.Support.Resources
import Mathlib.Algebra.Order.Group.Multiset
import Mathlib.Tactic.Abel

/-!
# Workers that share the swarm

Any number of workers execute `swarm_exec.sh` at the same time, and their
docker commands reach the swarm in any order; nothing else changes containers,
and no node is deleted.  Every command finds the container that its own attempt
has created, in the state in which the attempt has left it.  When all workers
have ended, the containers are left that were created with a warning.
-/

namespace LambdaOnOpenStack

open Support Program

/-! ## The swarm -/

/-- The script goes on to execute the function. -/
def Attempt.goesOn (docker : Attempt) : Bool :=
  (splitWords docker.created)[1]?.getD [] = []

structure SwarmContainer where
  id : Bytes
  running : Bool := false
  deriving DecidableEq

/-- The commands for a container. -/
inductive DockerCommand where
  | inspect
  | start
  | exec
  | stop
  | rm
  deriving DecidableEq

/-- Whether the container has to run for the command to do its part. -/
def DockerCommand.expects : DockerCommand → Bool
  | .inspect => false
  | .start => false
  | .exec => true
  | .stop => true
  | .rm => false

/-- What docker does in the attempts, in the order of their `docker create`, and
what a command of an attempt leaves of its container.  An identifier is new, and
an error has more than one word; the commands succeed on a container that is in
the state for them, and `docker rm -f` on every one. -/
structure Docker where
  attempt : ℕ → ContainerAttempt
  effect : ℕ → DockerCommand → SwarmContainer → Option SwarmContainer
  distinct : ∀ m n id, (attempt m).container = some id →
    (attempt n).container = some id → m = n
  explains : ∀ n, (attempt n).container = none → (attempt n).goesOn = false
  identifies : ∀ k command c d, effect k command c = some d → d.id = c.id
  inspects : ∀ k c, effect k .inspect c = some c
  starts : ∀ k id, effect k .start ⟨id, false⟩ = some ⟨id, true⟩
  executes : ∀ k id, effect k .exec ⟨id, true⟩ = some ⟨id, true⟩
  stops : ∀ k id, effect k .stop ⟨id, true⟩ = some ⟨id, false⟩
  removes : ∀ k c, effect k .rm c = none

/-- A command of an attempt for `id` and what it has found. -/
structure Addressed where
  attempt : ℕ
  command : DockerCommand
  id : Bytes
  found : Option SwarmContainer
  deriving DecidableEq

/-- The containers; `creations` counts the executions of `docker create`, and
`history` records the commands for containers. -/
structure Swarm where
  creations : ℕ := 0
  containers : List SwarmContainer := []
  history : List Addressed := []

namespace Swarm

def create (s : Swarm) (docker : ContainerAttempt) : Swarm :=
  { s with
    creations := s.creations + 1
    containers := s.containers ++ (docker.container.map ({ id := · })).toList }

def address (s : Swarm) (D : Docker) (attempt : ℕ) (command : DockerCommand)
    (id : Bytes) : Swarm :=
  { s with
    containers := s.containers.filterMap fun c =>
      if c.id = id then D.effect attempt command c else some c
    history := s.history ++
      [{ attempt := attempt
         command := command
         id := id
         found := s.containers.find? (·.id = id) }] }

end Swarm

/-! ## The script, command by command -/

abbrev SwarmWorker := Program Swarm WorkerError

/-- `docker create`; the result is the number of the attempt. -/
def create (D : Docker) : SwarmWorker ℕ :=
  .atomic (fun s => s.create (D.attempt s.creations)) fun s => .done s.creations

/-- A command of attempt `k` for `$CONT_ID`. -/
def address (D : Docker) (k : ℕ) (CONT_ID : List Bytes) (command : DockerCommand) :
    SwarmWorker Unit :=
  Program.modify fun s => s.address D k command (CONT_ID.head?.getD [])

/-- `swarm_exec.sh`; between its docker commands it prints, copies the function
and sleeps. -/
def swarmExecOn (D : Docker) : SwarmWorker ScriptRun := do
  let k ← create D
  let docker := D.attempt k
  let CONT_ID := splitWords docker.created
  if docker.goesOn then
    address D k CONT_ID .inspect
    address D k CONT_ID .start
    -- `apt-get install`, and then the function
    address D k CONT_ID .exec
    address D k CONT_ID .exec
    address D k CONT_ID .stop
    address D k CONT_ID .rm
    return swarmExec docker.toAttempt
  else
    return swarmExec docker.toAttempt

def checkOutputOn (D : Docker) (args : WorkerArgs) : SwarmWorker Bytes :=
  if strFails args.fileName || strFails args.memory then
    .raised .unicodeEncodeError
  else do
    let perm ← swarmExecOn D
    if perm.status = 0 then .done perm.output
    else .raised (.calledProcessError perm.status)

def retryLoopOn (D : Docker) (args : WorkerArgs) :
    (left : ℕ) → (perm : Bytes) → SwarmWorker Unit
  | 0, _ => .done ()
  | left + 1, perm =>
      if marker <:+: perm then do
        let perm ← checkOutputOn D args
        retryLoopOn D args left perm
      else .done ()

def executeLambdaOn (D : Docker) (args : WorkerArgs) : SwarmWorker Unit := do
  let perm ← checkOutputOn D args
  retryLoopOn D args 10 perm

/-- The steps of the workers; a worker starts when its arguments arrive. -/
abbrev Workers := System Swarm WorkerError Unit Unit

def working (D : Docker) : Workers → Move WorkerArgs → Workers :=
  System.step (executeLambdaOn D)

/-- No worker has started yet. -/
def noWorkers : Workers where
  state := {}
  main := .done ()

/-! ## What a worker holds -/

/-- The container that an attempt creates and goes on with. -/
def ContainerAttempt.worksOn (docker : ContainerAttempt) : List SwarmContainer :=
  if docker.goesOn then (docker.container.map ({ id := · })).toList else []

/-- The container that an attempt creates and leaves alone. -/
def ContainerAttempt.abandons (docker : ContainerAttempt) : List SwarmContainer :=
  if docker.goesOn then [] else (docker.container.map ({ id := · })).toList

/-- What the first `n` attempts abandon. -/
def Docker.abandoned (D : Docker) (n : ℕ) : List SwarmContainer :=
  (List.range n).flatMap fun k => (D.attempt k).abandons

/-- `held` are the containers on which an attempt is at work. -/
structure Held (D : Docker) (held : Multiset SwarmContainer) (s : Swarm) : Prop where
  containers : (s.containers : Multiset SwarmContainer) =
    held + D.abandoned s.creations
  distinct : (s.containers.map (·.id)).Nodup
  created : ∀ c ∈ s.containers,
    ∃ k < s.creations, (D.attempt k).container = some c.id
  own : ∀ a ∈ s.history, (D.attempt a.attempt).container = some a.id
  found : ∀ a ∈ s.history, a.found = some ⟨a.id, a.command.expects⟩

section Steps

variable {D : Docker} {s : Swarm} {frame : Multiset SwarmContainer}

theorem abandoned_succ (D : Docker) (n : ℕ) :
    D.abandoned (n + 1) = D.abandoned n ++ (D.attempt n).abandons := by
  simp [Docker.abandoned, List.range_succ]

/-- If the script goes on, the only word is the identifier of a container. -/
theorem container_of_goesOn {k : ℕ} (h : (D.attempt k).goesOn = true) :
    ∃ id, (D.attempt k).container = some id ∧
      splitWords (D.attempt k).created = [id] := by
  cases hcontainer : (D.attempt k).container with
  | none => simp [D.explains k hcontainer] at h
  | some id =>
      refine ⟨id, rfl, ?_⟩
      have hprinted := (D.attempt k).printed id (by simp [hcontainer])
      have hwords : ∀ word ∈ splitWords (D.attempt k).created, word ≠ [] := by
        intro word hword
        simpa using List.of_mem_filter hword
      simp only [Attempt.goesOn, decide_eq_true_eq] at h
      generalize splitWords (D.attempt k).created = CONT_ID at *
      match CONT_ID with
      | [] => simp at hprinted
      | [word] => rw [List.mem_singleton.mp hprinted]
      | word :: second :: _ => exact absurd h (hwords second (by simp))

/-- `docker create`: the attempt holds its container, or abandons it. -/
theorem Held.create (h : Held D frame s) :
    Held D ((D.attempt s.creations).worksOn + frame)
      (s.create (D.attempt s.creations)) := by
  generalize hdocker : D.attempt s.creations = docker
  have hnew : ∀ c ∈ (docker.container.map ({ id := · } : Bytes → SwarmContainer)).toList,
      docker.container = some c.id := by
    intro c hc
    simp only [Option.mem_toList, Option.map_eq_some_iff] at hc
    obtain ⟨id, hid, rfl⟩ := hc
    exact hid
  constructor
  · change ((s.containers ++ _ : List SwarmContainer) : Multiset SwarmContainer) =
      _ + (D.abandoned (s.creations + 1) : Multiset SwarmContainer)
    rw [abandoned_succ, ← Multiset.coe_add, ← Multiset.coe_add, h.containers,
      hdocker, ContainerAttempt.abandons, ContainerAttempt.worksOn]
    split
    · simp only [Multiset.coe_nil, add_zero]
      abel
    · simp only [Multiset.coe_nil, zero_add, add_assoc]
  · rw [Swarm.create, List.map_append, List.nodup_append]
    refine ⟨h.distinct, ?_, ?_⟩
    · cases docker.container <;> simp
    · intro id hid id' hid' hsame
      obtain ⟨c, hc, rfl⟩ := List.mem_map.mp hid
      obtain ⟨c', hc', rfl⟩ := List.mem_map.mp hid'
      obtain ⟨k, hk, hcreated⟩ := h.created c hc
      have hlast := hnew c' hc'
      rw [← hsame, ← hdocker] at hlast
      exact absurd (D.distinct _ _ _ hcreated hlast) hk.ne
  · intro c hc
    rcases List.mem_append.mp hc with hc | hc
    · obtain ⟨k, hk, hcreated⟩ := h.created c hc
      exact ⟨k, hk.trans (Nat.lt_succ_self _), hcreated⟩
    · exact ⟨s.creations, Nat.lt_succ_self _, hdocker ▸ hnew c hc⟩
  · exact h.own
  · exact h.found

theorem filterMap_other {k : ℕ} {command : DockerCommand} {id : Bytes}
    {l : List SwarmContainer} (hl : ∀ d ∈ l, d.id ≠ id) :
    (l.filterMap fun d => if d.id = id then D.effect k command d else some d) = l := by
  rw [List.filterMap_congr (g := some), List.filterMap_some]
  intro d hd
  rw [if_neg (hl d hd)]

/-- Of several containers a command changes the one with its identifier. -/
theorem filterMap_effect {k : ℕ} {l : List SwarmContainer} {c : SwarmContainer}
    {rest : Multiset SwarmContainer} (command : DockerCommand)
    (hsplit : (l : Multiset SwarmContainer) = {c} + rest)
    (hdistinct : (l.map (·.id)).Nodup) :
    ((l.filterMap fun d =>
        if d.id = c.id then D.effect k command d else some d : List SwarmContainer) :
      Multiset SwarmContainer) = (D.effect k command c).toList + rest := by
  have hmem : c ∈ l := by
    rw [← Multiset.mem_coe, hsplit]
    simp
  obtain ⟨before, after, rfl⟩ := List.append_of_mem hmem
  have hrest :
      ((before ++ after : List SwarmContainer) : Multiset SwarmContainer) = rest := by
    rw [← Multiset.coe_add, ← Multiset.cons_coe, Multiset.add_cons,
      Multiset.singleton_add] at hsplit
    rw [← Multiset.coe_add]
    exact (Multiset.cons_inj_right c).mp hsplit
  have hothers : ∀ d ∈ before ++ after, d.id ≠ c.id := by
    rw [List.map_append, List.map_cons, List.nodup_middle, List.nodup_cons,
      ← List.map_append] at hdistinct
    intro d hd hsame
    exact hdistinct.1 (hsame ▸ List.mem_map_of_mem hd)
  rw [List.filterMap_append, filterMap_other fun d hd => hothers d (by simp [hd]),
    List.filterMap_cons]
  have hafter : (after.filterMap fun d =>
      if d.id = c.id then D.effect k command d else some d) = after :=
    filterMap_other fun d hd => hothers d (by simp [hd])
  rw [← hrest]
  cases heffect : D.effect k command c with
  | none => simp [hafter]
  | some d =>
      simp only [hafter, ↓reduceIte, Option.toList_some]
      exact Multiset.coe_eq_coe.mpr List.perm_middle

/-- A command brings no identifier. -/
theorem map_id_address (s : Swarm) (D : Docker) (k : ℕ) (command : DockerCommand)
    (id : Bytes) :
    ((s.address D k command id).containers.map (·.id)).Sublist
      (s.containers.map (·.id)) := by
  have hone (c d : SwarmContainer)
      (hd : (if c.id = id then D.effect k command c else some c) = some d) :
      d.id = c.id := by
    split at hd
    · exact D.identifies k command c d hd
    · rw [Option.some.inj hd]
  rw [Swarm.address]
  dsimp only
  induction s.containers with
  | nil => exact .slnil
  | cons c rest ih =>
      rw [List.filterMap_cons]
      split
      · exact ih.cons _
      · rename_i d hd
        rw [List.map_cons, List.map_cons, hone c d hd]
        exact ih.cons_cons _

/-- A command does what it is for to the container that is held, and leaves the
other ones as they are. -/
theorem Held.address {k : ℕ} {c : SwarmContainer} {command : DockerCommand}
    (h : Held D ({c} + frame) s) (hown : (D.attempt k).container = some c.id)
    (hstate : c.running = command.expects) :
    Held D ((D.effect k command c).toList + frame) (s.address D k command c.id) := by
  have hmem : c ∈ s.containers := by
    rw [← Multiset.mem_coe, h.containers]
    simp
  constructor
  · have hcontainers := h.containers
    rw [add_assoc] at hcontainers ⊢
    exact filterMap_effect command hcontainers h.distinct
  · exact h.distinct.sublist (map_id_address ..)
  · intro d hd
    have hid := (map_id_address ..).subset (List.mem_map_of_mem (f := (·.id)) hd)
    obtain ⟨d', hd', hid⟩ := List.mem_map.mp hid
    rw [← hid]
    exact h.created d' hd'
  · intro a ha
    rcases List.mem_append.mp ha with ha | ha
    · exact h.own a ha
    · rw [List.mem_singleton.mp ha]
      exact hown
  · intro a ha
    rcases List.mem_append.mp ha with ha | ha
    · exact h.found a ha
    · rw [List.mem_singleton.mp ha]
      change s.containers.find? (·.id = c.id) = some ⟨c.id, command.expects⟩
      rw [← hstate]
      exact find?_key_eq_some h.distinct hmem

/-- What is left of the last container, when the others have other identifiers. -/
theorem containers_address_last {k : ℕ} {l : List SwarmContainer} {c : SwarmContainer}
    {command : DockerCommand} (hl : ∀ d ∈ l, d.id ≠ c.id)
    (hs : s.containers = l ++ [c]) :
    (s.address D k command c.id).containers = l ++ (D.effect k command c).toList := by
  rw [Swarm.address]
  dsimp only
  rw [hs, List.filterMap_append, filterMap_other hl]
  cases heffect : D.effect k command c <;> simp [heffect]

end Steps

/-! ## A worker among others -/

section Workers

variable {D : Docker}

/-- The worker holds no container when it ends. -/
abbrev GivesUp (D : Docker) {α : Type} (p : SwarmWorker α)
    (held : Multiset SwarmContainer) : Prop :=
  p.Safe (Held D) (fun _ held => held = 0) held

/-- A command for the container that is held. -/
theorem GivesUp.address {α : Type} {k : ℕ} {id : Bytes}
    {f : Unit → SwarmWorker α} {kept : Option SwarmContainer} (command : DockerCommand)
    (hown : (D.attempt k).container = some id)
    (heffect : D.effect k command ⟨id, command.expects⟩ = kept)
    (hf : GivesUp D (f ()) kept.toList) :
    GivesUp D (address D k [id] command >>= f) {⟨id, command.expects⟩} := by
  refine Safe.modify_bind ?_ hf
  intro frame s h
  rw [← heffect]
  exact h.address hown rfl

theorem GivesUp.create {α : Type} {f : ℕ → SwarmWorker α}
    (hf : ∀ k, GivesUp D (f k) (D.attempt k).worksOn) :
    GivesUp D (create D >>= f) 0 := by
  intro frame s h
  rw [zero_add] at h
  exact ⟨_, h.create, hf s.creations⟩

theorem givesUp_swarmExecOn (D : Docker) : GivesUp D (swarmExecOn D) 0 := by
  refine .create ?_
  intro k
  cases hgoesOn : (D.attempt k).goesOn with
  | false =>
      simp only [ContainerAttempt.worksOn, hgoesOn, Bool.false_eq_true, ↓reduceIte]
      exact rfl
  | true =>
      obtain ⟨id, hcontainer, hword⟩ := container_of_goesOn hgoesOn
      simp only [ContainerAttempt.worksOn, hgoesOn, hcontainer, hword, ↓reduceIte]
      refine .address .inspect hcontainer (D.inspects k _) ?_
      refine .address .start hcontainer (D.starts k id) ?_
      refine .address .exec hcontainer (D.executes k id) ?_
      refine .address .exec hcontainer (D.executes k id) ?_
      refine .address .stop hcontainer (D.stops k id) ?_
      exact .address .rm hcontainer (D.removes k _) rfl

theorem givesUp_checkOutputOn (args : WorkerArgs) :
    GivesUp D (checkOutputOn D args) 0 := by
  rw [checkOutputOn]
  split
  · exact rfl
  · refine (givesUp_swarmExecOn D).bind ?_ fun _ _ h => h
    rintro perm _ rfl
    split <;> exact rfl

theorem givesUp_retryLoopOn (args : WorkerArgs) (left : ℕ) (perm : Bytes) :
    GivesUp D (retryLoopOn D args left perm) 0 := by
  induction left generalizing perm with
  | zero => exact rfl
  | succ left ih =>
      rw [retryLoopOn]
      split
      · refine (givesUp_checkOutputOn args).bind ?_ fun _ _ h => h
        rintro perm _ rfl
        exact ih perm
      · exact rfl

/-- A worker starts without a container and ends without one. -/
theorem givesUp_executeLambdaOn (args : WorkerArgs) :
    GivesUp D (executeLambdaOn D args) 0 := by
  refine (givesUp_checkOutputOn args).bind ?_ fun _ _ h => h
  rintro perm _ rfl
  exact givesUp_retryLoopOn args 10 perm

end Workers

/-! ## A worker on its own -/

section Alone

variable {D : Docker}

/-- The commands for a container, one after another, leave the others. -/
theorem containers_commands {k : ℕ} {s : Swarm} {l : List SwarmContainer} {id : Bytes}
    (hl : ∀ d ∈ l, d.id ≠ id) (hs : s.containers = l ++ [⟨id, false⟩]) :
    ([.inspect, .start, .exec, .exec, .stop, .rm].foldl
      (fun s' command => s'.address D k command id) s).containers = l := by
  have hnext {s' : Swarm} {running : Bool} {command : DockerCommand}
      {kept : Option SwarmContainer} (hs' : s'.containers = l ++ [⟨id, running⟩])
      (heffect : D.effect k command ⟨id, running⟩ = kept) :
      (s'.address D k command id).containers = l ++ kept.toList := by
    rw [← heffect]
    exact containers_address_last (c := ⟨id, running⟩) hl hs'
  have hinspected := hnext hs (D.inspects k _)
  have hstarted := hnext hinspected (D.starts k id)
  have hinstalled := hnext hstarted (D.executes k id)
  have hexecuted := hnext hinstalled (D.executes k id)
  have hstopped := hnext hexecuted (D.stops k id)
  have hremoved := hnext hstopped (D.removes k _)
  rw [Option.toList_none, List.append_nil] at hremoved
  exact hremoved

/-- Containers that the attempt does not print stay. -/
theorem leaves_append {docker : ContainerAttempt} {before containers : List Bytes}
    (hbefore : ∀ id ∈ before, splitWords docker.created ≠ [id]) :
    docker.leaves (before ++ containers) = before ++ docker.leaves containers := by
  have hstay : before.filter (fun id => splitWords docker.created ≠ [id]) =
      before := by
    rw [List.filter_eq_self]
    intro id hid
    exact decide_eq_true (hbefore id hid)
  simp only [ContainerAttempt.leaves, List.append_assoc]
  split
  · rw [List.filter_append, hstay]
  · rfl

/-- One execution of the script leaves what it leaves in an attempt. -/
theorem run_swarmExecOn {s : Swarm} (h : Held D 0 s) :
    ∃ s', (swarmExecOn D).run s =
        (.ok (swarmExec (D.attempt s.creations).toAttempt), s') ∧
      s'.creations = s.creations + 1 ∧ Held D 0 s' ∧
      s'.containers.map (·.id) =
        (D.attempt s.creations).leaves (s.containers.map (·.id)) := by
  have hstart : Held D (0 + 0) s := h
  obtain ⟨held, hheld, rfl⟩ := (givesUp_swarmExecOn D).run hstart
  cases hgoesOn : (D.attempt s.creations).goesOn with
  | false =>
      have hrun : (swarmExecOn D).run s =
          (.ok (swarmExec (D.attempt s.creations).toAttempt),
            s.create (D.attempt s.creations)) := by
        simp [swarmExecOn, create, hgoesOn]
      have hids : (s.create (D.attempt s.creations)).containers.map (·.id) =
          s.containers.map (·.id) ++ (D.attempt s.creations).container.toList := by
        rw [Swarm.create, List.map_append]
        cases (D.attempt s.creations).container <;> rfl
      have hword := of_decide_eq_false hgoesOn
      rw [hrun] at hheld
      refine ⟨_, hrun, rfl, hheld, ?_⟩
      simp only [hids, ContainerAttempt.leaves, hword, ↓reduceIte]
  | true =>
      obtain ⟨id, hcontainer, hwords⟩ := container_of_goesOn hgoesOn
      have hrun : (swarmExecOn D).run s =
          (.ok (swarmExec (D.attempt s.creations).toAttempt),
            [.inspect, .start, .exec, .exec, .stop, .rm].foldl
              (fun s' command => s'.address D s.creations command id)
              (s.create (D.attempt s.creations))) := by
        simp [swarmExecOn, create, address, hgoesOn, hwords]
      rw [hrun] at hheld
      refine ⟨_, hrun, rfl, hheld, ?_⟩
      have hothers : ∀ d ∈ s.containers, d.id ≠ id := by
        rintro d hd rfl
        obtain ⟨k, hk, hcreated⟩ := h.created d hd
        exact absurd (D.distinct _ _ _ hcreated hcontainer) hk.ne
      rw [containers_commands hothers (by simp [Swarm.create, hcontainer])]
      have hnothing : (D.attempt s.creations).leaves [] = [] := by
        simp [ContainerAttempt.leaves, hcontainer, hwords]
      have hleaves : (D.attempt s.creations).leaves (s.containers.map (·.id) ++ []) =
          s.containers.map (·.id) ++ (D.attempt s.creations).leaves [] := by
        refine leaves_append fun i hi halone => ?_
        obtain ⟨d, hd, rfl⟩ := List.mem_map.mp hi
        rw [hwords] at halone
        exact hothers d hd (List.cons.inj halone).1.symm
      rw [List.append_nil, hnothing, List.append_nil] at hleaves
      exact hleaves.symm

/-- The swarm has seen the attempts of `w` since `start`. -/
structure Follows (D : Docker) (start s : Swarm) (w : WorkerState) : Prop where
  creations : s.creations = start.creations + w.attempts
  held : Held D 0 s
  containers : s.containers.map (·.id) = start.containers.map (·.id) ++
    containersAfter (fun k => D.attempt (start.creations + k)) w.attempts

/-- An execution of the script is one attempt. -/
theorem simulates_checkOutputOn {start : Swarm} (hstart : Held D 0 start)
    (args : WorkerArgs) :
    Simulates (Follows D start) (checkOutputOn D args)
      (checkOutput (fun k => (D.attempt (start.creations + k)).toAttempt) args) := by
  intro s w h
  rw [checkOutputOn, checkOutput]
  split
  · exact ⟨rfl, h⟩
  · obtain ⟨s', hrun, hcreations, hheld, hids⟩ := run_swarmExecOn h.held
    have hbefore : ∀ id ∈ start.containers.map (·.id),
        splitWords (D.attempt s.creations).created ≠ [id] := by
      intro id hid halone
      obtain ⟨c, hc, rfl⟩ := List.mem_map.mp hid
      obtain ⟨k, hk, hcreated⟩ := hstart.created c hc
      have hgoesOn : (D.attempt s.creations).goesOn = true := by
        simp [Attempt.goesOn, halone]
      obtain ⟨id, hcontainer, hword⟩ := container_of_goesOn hgoesOn
      obtain rfl : c.id = id := by simpa [halone] using hword
      have hsame := D.distinct _ _ _ hcreated hcontainer
      have hlater := h.creations
      omega
    have hfollows : ∀ starts, Follows D start s'
        { attempts := w.attempts + 1, starts := starts } := by
      intro starts
      refine ⟨by simp [hcreations, h.creations, Nat.add_assoc], hheld, ?_⟩
      rw [hids, h.containers, leaves_append hbefore, containersAfter_succ,
        h.creations]
    rw [Program.run_bind, hrun, Program.run_atomic, h.creations]
    dsimp only
    split <;> exact ⟨rfl, hfollows _⟩

theorem simulates_retryLoopOn {start : Swarm} (hstart : Held D 0 start)
    (args : WorkerArgs) (left : ℕ) (perm : Bytes) :
    Simulates (Follows D start) (retryLoopOn D args left perm)
      (retryLoop (fun k => (D.attempt (start.creations + k)).toAttempt) args
        left perm) := by
  induction left generalizing perm with
  | zero => exact .done ()
  | succ left ih =>
      rw [retryLoopOn, retryLoop]
      split
      · exact (simulates_checkOutputOn hstart args).bind ih
      · exact .done ()

end Alone

/-! ## Any interleaving -/

section Interleaving

variable (D : Docker)

theorem held_start : Held D 0 {} where
  containers := rfl
  distinct := List.nodup_nil
  created := by simp
  own := by simp
  found := by simp

theorem shared_working (moves : List (Move WorkerArgs)) :
    (runAll (working D) noWorkers moves).Shared (Held D)
      (fun _ held => held = 0) fun _ held => held = 0 := by
  refine System.Shared.runAll ?_ givesUp_executeLambdaOn moves
  exact ⟨0, [], rfl, rfl, by simp, held_start D⟩

/-- Whatever the order of the commands of any number of workers, each one finds
the container that its own attempt has created, as the attempt has left it. -/
theorem commands_find_containers (moves : List (Move WorkerArgs)) :
    ∀ a ∈ (runAll (working D) noWorkers moves).state.history,
      (D.attempt a.attempt).container = some a.id ∧
        a.found = some ⟨a.id, a.command.expects⟩ := by
  refine (shared_working D moves).state
    (I := fun s => ∀ a ∈ s.history,
      (D.attempt a.attempt).container = some a.id ∧
        a.found = some ⟨a.id, a.command.expects⟩) ?_
  intro held s h a ha
  exact ⟨h.own a ha, h.found a ha⟩

/-- When all workers have ended, the containers are left that attempts created
and did not go on with. -/
theorem abandoned_containers_are_left (moves : List (Move WorkerArgs))
    (hended : (runAll (working D) noWorkers moves).Ended) :
    (runAll (working D) noWorkers moves).state.containers.Perm
      (D.abandoned (runAll (working D) noWorkers moves).state.creations) := by
  obtain ⟨held, h, rfl⟩ :=
    (shared_working D moves).ended (AddMonoidHom.id _) hended
  rw [← Multiset.coe_eq_coe, h.containers, zero_add]

/-- After any workers that have ended, a worker on its own makes the attempts of
`executeLambda`, and adds the containers that they leave. -/
theorem worker_leaves_after_others (moves : List (Move WorkerArgs))
    (args : WorkerArgs)
    (hended : (runAll (working D) noWorkers moves).Ended) :
    let s := (runAll (working D) noWorkers moves).state
    let docker := fun k => D.attempt (s.creations + k)
    let alone := (executeLambda (fun k => (docker k).toAttempt) args).run {}
    let after := (executeLambdaOn D args).run s
    after.1 = alone.1 ∧
      after.2.creations = s.creations + alone.2.attempts ∧
      after.2.containers.map (·.id) =
        s.containers.map (·.id) ++ containersLeft docker args := by
  intro s docker alone after
  obtain ⟨held, h, rfl⟩ :=
    (shared_working D moves).ended (AddMonoidHom.id _) hended
  have hstart : Follows D s s {} :=
    { creations := rfl
      held := h
      containers := (List.append_nil _).symm }
  obtain ⟨hresult, hfollows⟩ :=
    (simulates_checkOutputOn h args).bind (simulates_retryLoopOn h args 10) s {}
      hstart
  exact ⟨hresult, hfollows.creations, hfollows.containers⟩

end Interleaving

/-! ## A warning -/

/-- The first attempt creates a container with a warning, the second one does so
without, and then there is no room. -/
def twoContainers : ℕ → ContainerAttempt
  | 0 => warnsFirst 0
  | 1 => warnsFirst 1
  | _ =>
      { Attempt.sample "" with
        created := ascii "Error response from daemon: no resources available\n"
        container := none
        printed := by simp }

def Docker.two : Docker where
  attempt := twoContainers
  effect _ command c :=
    match command with
    | .inspect => some c
    | .start => some { c with running := true }
    | .exec => some c
    | .stop => some { c with running := false }
    | .rm => none
  distinct := by
    intro m n id hm hn
    match m, n with
    | 0, 0 | 1, 1 => rfl
    | 0, 1 | 1, 0 =>
        rw [← hm] at hn
        exact absurd hn (by decide +kernel)
    | _ + 2, _ => cases hm
    | _, _ + 2 => cases hn
  explains := by
    intro n hn
    match n with
    | 0 | 1 => cases hn
    | _ + 2 => exact (by decide +kernel : (twoContainers 2).goesOn = false)
  identifies := by
    intro k command c d hd
    cases command <;> cases hd <;> rfl
  inspects _ _ := rfl
  starts _ _ := rfl
  executes _ _ := rfl
  stops _ _ := rfl
  removes _ _ := rfl

/-- Two workers take turns. -/
def twoWorkers : List (Move WorkerArgs) :=
  [.arrive (workerArgs "test.py" "8f5a4b1e" (.str "256")),
    .arrive (workerArgs "test.py" "0c7d2e9a" (.str "256"))] ++
    (List.replicate 11 [.other 0, .other 1]).flatten

/-- The function is executed in the container that the second attempt has
started. -/
theorem commands_find_containers_two :
    let id := ascii "4c01db0b339c"
    let exec : Addressed := ⟨1, .exec, id, some ⟨id, true⟩⟩
    (Docker.two.attempt exec.attempt).container = some exec.id ∧
      exec.found = some ⟨exec.id, exec.command.expects⟩ :=
  commands_find_containers .two twoWorkers _ (by decide +kernel)

theorem abandoned_containers_are_left_two :
    (runAll (working .two) noWorkers twoWorkers).state.containers.Perm
      (Docker.two.abandoned
        (runAll (working .two) noWorkers twoWorkers).state.creations) :=
  abandoned_containers_are_left .two twoWorkers (by decide +kernel)

theorem worker_leaves_after_others_two :
    let s := (runAll (working .two) noWorkers twoWorkers).state
    let args := workerArgs "test.py" "5e91f0ab" (.str "256")
    let docker := fun k => Docker.two.attempt (s.creations + k)
    let alone := (executeLambda (fun k => (docker k).toAttempt) args).run {}
    let after := (executeLambdaOn .two args).run s
    after.1 = alone.1 ∧
      after.2.creations = s.creations + alone.2.attempts ∧
      after.2.containers.map (·.id) =
        s.containers.map (·.id) ++ containersLeft docker args :=
  worker_leaves_after_others .two twoWorkers _ (by decide +kernel)

end LambdaOnOpenStack
