import LambdaOnOpenStack.Registry.Dispatch
import LambdaOnOpenStack.Support.Paths
import LambdaOnOpenStack.Support.Runs

/-!
# Files on the host and on the nodes

Each dispatch writes its function to the host, and its worker copies the file
from there to the node of its container and executes it on that node.  The
path depends on the file name only, so dispatches share it, and so do the
workers whose containers are on one node.
-/

namespace LambdaOnOpenStack

open Support

/-! ## Files -/

/-- The content of each file of a machine.  A file has one absolute path
without `.` and `..`, however its path is written. -/
abbrev Files := List String → Option Bytes

def HostOp.apply : HostOp → Files → Files
  | .truncate path, files =>
      Function.update files (Paths.resolve path) (some [])
  | .write path content, files =>
      Function.update files (Paths.resolve path) (some content)

/-- A dispatch: the name of its function and the content that it fetched. -/
structure Job where
  filename : String
  content : Bytes
  deriving DecidableEq

namespace Job

/-- The path of the function, on the host as on the node.  `scp` copies into
the home directory, where the path is the same one for a name without a
directory. -/
def path (job : Job) : List String := Paths.resolve (hostPath job.filename)

/-- What `writeFile` does for the dispatch. -/
def hostOps (job : Job) : List HostOp :=
  [.truncate (hostPath job.filename), .write (hostPath job.filename) job.content]

theorem apply_truncate (job : Job) (files : Files) :
    (HostOp.truncate (hostPath job.filename)).apply files =
      Function.update files job.path (some []) :=
  rfl

theorem apply_write (job : Job) (files : Files) :
    (HostOp.write (hostPath job.filename) job.content).apply files =
      Function.update files job.path (some job.content) :=
  rfl

end Job

/-- A dispatch that returns has done nothing, or it has written a job to the
host and started a thread for it. -/
theorem DispatchRun.job {P : Platform} {e : Event} {w w' : World}
    (hrun : DispatchRun P e w (.ok ()) w') :
    w' = w ∨ ∃ (job : Job) (d : MappingDoc), d ∈ w.registry.mapping ∧
      w.registry.content d._id = .ok job.content ∧
      w'.host = w.host ++ job.hostOps ∧
      w'.workers.map (·.fileName) =
        w.workers.map (·.fileName) ++ [.str job.filename] := by
  generalize hresult : (Except.ok () : Except Failure Unit) = result at hrun
  cases hrun with
  | unmatched => exact Or.inl rfl
  | @started d name content _ hcompletes _ =>
      refine Or.inr ⟨⟨name, content⟩, d,
        List.mem_of_find?_eq_some hcompletes.first, hcompletes.read, rfl, ?_⟩
      simp [World.startWorker, World.dispatched, World.handOver,
        World.recordRun, World.drawUuid, World.rewrite, hcompletes.filename]
  | _ => simp at hresult

/-! ## The listener and its workers -/

abbrev Node := ℕ

/-- Where the listener is in `writeFile` and `deploy_and_execute_docker`. -/
inductive ListenerPhase where
  | idle
  | opened (i : ℕ) (job : Job)
  | written (i : ℕ) (job : Job)

/-- Where the thread of a dispatch is in an attempt of `__execute_lambda`. -/
inductive WorkerPhase where
  | unborn
  | ready
  | created (node : Node)
  | copied (node : Node)

/-- The dispatches so far, the machines, and what was executed for which
dispatch.  `opener` and `copier` are history variables: the dispatch that
opened a file on the host last, and the one whose worker was the last to copy
to a file on a node. -/
structure Execution where
  jobs : List Job := []
  listener : ListenerPhase := .idle
  workers : ℕ → WorkerPhase := fun _ => .unborn
  host : Files := fun _ => none
  nodes : Node → Files := fun _ _ => none
  executed : List (ℕ × Option Bytes) := []
  opener : List String → Option ℕ := fun _ => none
  copier : Node → List String → Option ℕ := fun _ _ => none

/-- The steps of the listener and of the workers.  An attempt that failed is
followed by another one, which has a container of its own. -/
inductive ExecutionStep where
  | openFile (job : Job)
  | write
  | startThread
  | create (i : ℕ) (node : Node)
  | copy (i : ℕ)
  | exec (i : ℕ)

namespace Execution

/-! ## What the steps do -/

/-- The next dispatch opens its file with truncation. -/
def opening (s : Execution) (job : Job) : Execution :=
  { s with
    jobs := s.jobs ++ [job]
    listener := .opened s.jobs.length job
    host := (HostOp.truncate (hostPath job.filename)).apply s.host
    opener := Function.update s.opener job.path (some s.jobs.length) }

/-- Dispatch `i` writes the content that it fetched. -/
def writing (s : Execution) (i : ℕ) (job : Job) : Execution :=
  { s with
    listener := .written i job
    host := (HostOp.write (hostPath job.filename) job.content).apply s.host }

/-- The worker of dispatch `i` copies its file to `node`. -/
def copying (s : Execution) (i : ℕ) (job : Job) (node : Node) : Execution :=
  { s with
    workers := Function.update s.workers i (.copied node)
    nodes := Function.update s.nodes node
      (Function.update (s.nodes node) job.path (s.host job.path))
    copier := Function.update s.copier node
      (Function.update (s.copier node) job.path (some i)) }

/-- The worker of dispatch `i` executes the file on `node`. -/
def executing (s : Execution) (i : ℕ) (job : Job) (node : Node) : Execution :=
  { s with
    workers := Function.update s.workers i .ready
    executed := s.executed ++ [(i, s.nodes node job.path)] }

/-- The state after a step; a step that is not possible changes nothing. -/
def step (s : Execution) : ExecutionStep → Execution
  | .openFile job =>
      match s.listener with
      | .idle => s.opening job
      | _ => s
  | .write =>
      match s.listener with
      | .opened i job => s.writing i job
      | _ => s
  | .startThread =>
      match s.listener with
      | .written i _ =>
          { s with
            listener := .idle
            workers := Function.update s.workers i .ready }
      | _ => s
  | .create i node =>
      match s.workers i with
      | .unborn => s
      | _ => { s with workers := Function.update s.workers i (.created node) }
  | .copy i =>
      match s.workers i, s.jobs[i]? with
      | .created node, some job => s.copying i job node
      | _, _ => s
  | .exec i =>
      match s.workers i, s.jobs[i]? with
      | .copied node, some job => s.executing i job node
      | _, _ => s

/-- No dispatch has begun. -/
def start (host : Files) (nodes : Node → Files) : Execution :=
  { host := host, nodes := nodes }

/-- An uninterrupted dispatch leaves on the host what `writeFile` writes. -/
theorem runAll_dispatch {s : Execution} (hidle : s.listener = .idle) (job : Job) :
    (runAll step s [.openFile job, .write, .startThread]).host =
      job.hostOps.foldl (fun files op => op.apply files) s.host := by
  simp [step, hidle, opening, writing, Job.hostOps]

/-! ## Every worker executes its own content -/

/-- What was executed for a dispatch is the content that it fetched. -/
def ExecutesOwn (s : Execution) : Prop :=
  ∀ run ∈ s.executed, ∃ job, s.jobs[run.1]? = some job ∧ run.2 = some job.content

/-- The dispatches `k` and `i` fetched the same content. -/
def SameContent (s : Execution) (k i : ℕ) : Prop :=
  ∃ other job, s.jobs[k]? = some other ∧ s.jobs[i]? = some job ∧
    other.content = job.content

/-- A worker copies only when the file on the host was opened last, and has
been written, for its own content, and executes only when the file on the node
was copied last for its own content. -/
def NotOverwritten (s : Execution) : ExecutionStep → Prop
  | .copy i => ∀ node job, s.workers i = .created node → s.jobs[i]? = some job →
      ∃ k, s.opener job.path = some k ∧ s.SameContent k i ∧
        ∀ other, s.listener ≠ .opened k other
  | .exec i => ∀ node job, s.workers i = .copied node → s.jobs[i]? = some job →
      ∃ k, s.copier node job.path = some k ∧ s.SameContent k i
  | _ => True

/-- The file that `k` opened last holds the content of `k`, unless `k` has
still to write it. -/
def HostTracked (s : Execution) : Prop :=
  ∀ path k, s.opener path = some k → ∃ job, s.jobs[k]? = some job ∧
    ((∃ other, s.listener = .opened k other) ∨ s.host path = some job.content)

/-- The file that the worker of `k` copied last holds the content of `k`. -/
def NodesTracked (s : Execution) : Prop :=
  ∀ node path k, s.copier node path = some k →
    ∃ job, s.jobs[k]? = some job ∧ s.nodes node path = some job.content

/-- The dispatch that has still to write has opened its file last. -/
def ListenerTracked (s : Execution) : Prop :=
  ∀ k job, s.listener = .opened k job →
    s.jobs[k]? = some job ∧ ∀ path, s.opener path = some k ↔ path = job.path

/-- The history variables tell what the files hold. -/
structure Tracked (s : Execution) : Prop where
  host : s.HostTracked
  nodes : s.NodesTracked
  listener : s.ListenerTracked
  own : s.ExecutesOwn

theorem Tracked.start (host : Files) (nodes : Node → Files) :
    (start host nodes).Tracked where
  host := by simp [Execution.start, HostTracked]
  nodes := by simp [Execution.start, NodesTracked]
  listener := by simp [Execution.start, ListenerTracked]
  own := by simp [Execution.start, ExecutesOwn]

section Steps

variable {s : Execution} {i : ℕ} {job : Job} {node : Node}

theorem getElem?_append_some {jobs : List Job} {k : ℕ}
    (hk : jobs[k]? = some job) (new : List Job) :
    (jobs ++ new)[k]? = some job := by
  obtain ⟨hlt, -⟩ := List.getElem?_eq_some_iff.mp hk
  rw [List.getElem?_append_left hlt]
  exact hk

theorem Tracked.opener_ne (h : s.Tracked) {path : List String} :
    s.opener path ≠ some s.jobs.length := by
  intro hopener
  obtain ⟨job, hjob, -⟩ := h.host path _ hopener
  simp at hjob

theorem Tracked.opening (h : s.Tracked) (hidle : s.listener = .idle) (job : Job) :
    (s.opening job).Tracked where
  host := by
    intro path k hk
    dsimp only [Execution.opening] at hk ⊢
    by_cases hpath : path = job.path
    · rw [hpath, Function.update_self, Option.some.injEq] at hk
      subst hk
      exact ⟨job, by simp, Or.inl ⟨job, rfl⟩⟩
    · rw [Function.update_of_ne hpath] at hk
      obtain ⟨other, hother, hcontent⟩ := h.host path k hk
      refine ⟨other, getElem?_append_some hother _, Or.inr ?_⟩
      rw [job.apply_truncate, Function.update_of_ne hpath]
      simpa [hidle] using hcontent
  nodes := by
    intro node path k hk
    obtain ⟨other, hother, hcontent⟩ := h.nodes node path k hk
    exact ⟨other, getElem?_append_some hother _, hcontent⟩
  listener := by
    intro k other hopened
    obtain ⟨rfl, rfl⟩ := ListenerPhase.opened.inj hopened
    refine ⟨by simp [Execution.opening], ?_⟩
    intro path
    dsimp only [Execution.opening]
    by_cases hpath : path = job.path
    · simp [hpath]
    · simp [hpath, h.opener_ne]
  own := by
    intro run hrun
    obtain ⟨other, hother, hcontent⟩ := h.own run hrun
    exact ⟨other, getElem?_append_some hother _, hcontent⟩

theorem Tracked.writing (h : s.Tracked) (hopened : s.listener = .opened i job) :
    (s.writing i job).Tracked where
  host := by
    obtain ⟨hjob, hopener⟩ := h.listener i job hopened
    intro path k hk
    obtain ⟨other, hother, hcontent⟩ := h.host path k hk
    refine ⟨other, hother, Or.inr ?_⟩
    dsimp only [Execution.writing]
    by_cases hpath : path = job.path
    · -- The file being written is the one that this dispatch opened last.
      have hki : k = i := by
        have hi := (hopener path).mpr hpath
        exact Option.some.inj (hk.symm.trans hi)
      rw [hki, hjob] at hother
      rw [hpath, job.apply_write, Function.update_self, Option.some.inj hother]
    · rw [job.apply_write, Function.update_of_ne hpath]
      rcases hcontent with ⟨_, hlistener⟩ | hcontent
      · obtain ⟨rfl, -⟩ := ListenerPhase.opened.inj (hopened.symm.trans hlistener)
        exact absurd ((hopener path).mp hk) hpath
      · exact hcontent
  nodes := h.nodes
  listener := by
    intro k other hlistener
    simp [Execution.writing] at hlistener
  own := h.own

theorem Tracked.copying (h : s.Tracked) (hjob : s.jobs[i]? = some job)
    (hhost : s.host job.path = some job.content) :
    (s.copying i job node).Tracked where
  host := h.host
  nodes := by
    intro node' path k hk
    dsimp only [Execution.copying] at hk ⊢
    by_cases hnode : node' = node
    · subst hnode
      rw [Function.update_self] at hk ⊢
      by_cases hpath : path = job.path
      · subst hpath
        rw [Function.update_self] at hk ⊢
        rw [← Option.some.inj hk]
        exact ⟨job, hjob, hhost⟩
      · rw [Function.update_of_ne hpath] at hk ⊢
        exact h.nodes node' path k hk
    · rw [Function.update_of_ne hnode] at hk ⊢
      exact h.nodes node' path k hk
  listener := h.listener
  own := h.own

theorem Tracked.executing (h : s.Tracked) (hjob : s.jobs[i]? = some job)
    (hnode : s.nodes node job.path = some job.content) :
    (s.executing i job node).Tracked where
  host := h.host
  nodes := h.nodes
  listener := h.listener
  own := by
    intro run hrun
    rcases List.mem_append.mp hrun with hrun | hrun
    · exact h.own run hrun
    · obtain rfl := List.mem_singleton.mp hrun
      exact ⟨job, hjob, hnode⟩

/-- What the worker finds on the host is the content of its own dispatch. -/
theorem Tracked.host_own (h : s.Tracked) (hworker : s.workers i = .created node)
    (hjob : s.jobs[i]? = some job) (hcopy : s.NotOverwritten (.copy i)) :
    s.host job.path = some job.content := by
  obtain ⟨k, hopener, ⟨other, job', hother, hjob', hsame⟩, hwritten⟩ :=
    hcopy node job hworker hjob
  obtain ⟨_, hk, hcontent⟩ := h.host job.path k hopener
  obtain rfl := Option.some.inj (hother.symm.trans hk)
  obtain rfl := Option.some.inj (hjob.symm.trans hjob')
  rcases hcontent with ⟨_, hlistener⟩ | hcontent
  · exact absurd hlistener (hwritten _)
  · rw [hcontent, hsame]

/-- What it finds on its node is, too. -/
theorem Tracked.node_own (h : s.Tracked) (hworker : s.workers i = .copied node)
    (hjob : s.jobs[i]? = some job) (hexec : s.NotOverwritten (.exec i)) :
    s.nodes node job.path = some job.content := by
  obtain ⟨k, hcopier, other, job', hother, hjob', hsame⟩ :=
    hexec node job hworker hjob
  obtain ⟨_, hk, hcontent⟩ := h.nodes node job.path k hcopier
  obtain rfl := Option.some.inj (hother.symm.trans hk)
  obtain rfl := Option.some.inj (hjob.symm.trans hjob')
  rw [hcontent, hsame]

/-- A step that overwrites nothing keeps the history right. -/
theorem Tracked.step (h : s.Tracked) (a : ExecutionStep)
    (ha : s.NotOverwritten a) : (s.step a).Tracked := by
  cases a with
  | openFile job =>
      simp only [Execution.step]
      split
      · rename_i hidle
        exact h.opening hidle job
      · exact h
  | write =>
      simp only [Execution.step]
      split
      · rename_i i job hopened
        exact h.writing hopened
      · exact h
  | startThread =>
      simp only [Execution.step]
      split
      · rename_i i job hwritten
        refine ⟨?_, h.nodes, by simp [ListenerTracked], h.own⟩
        intro path k hk
        obtain ⟨other, hother, hcontent⟩ := h.host path k hk
        refine ⟨other, hother, Or.inr ?_⟩
        simpa [hwritten] using hcontent
      · exact h
  | create i node =>
      simp only [Execution.step]
      split
      · exact h
      · exact ⟨h.host, h.nodes, h.listener, h.own⟩
  | copy i =>
      simp only [Execution.step]
      split
      · rename_i node job hworker hjob
        exact h.copying hjob (h.host_own hworker hjob ha)
      · exact h
  | exec i =>
      simp only [Execution.step]
      split
      · rename_i node job hworker hjob
        exact h.executing hjob (h.node_own hworker hjob ha)
      · exact h

end Steps

/-- In a run that overwrites no file between its last write and its use for
other content, every worker executes the content of its own dispatch. -/
theorem executesOwn_throughout (host : Files) (nodes : Node → Files)
    {steps : List ExecutionStep}
    (hsteps : Along step NotOverwritten (start host nodes) steps) :
    Throughout step ExecutesOwn (start host nodes) steps := by
  have htracked : Throughout step Tracked (start host nodes) steps :=
    throughout_of_along (fun s a h ha => h.step a ha)
      (Tracked.start host nodes) hsteps
  exact htracked.imp fun s h => h.own

section Conditions

variable {s : Execution} {i k : ℕ} {job other : Job} {node : Node}

theorem notOverwritten_copy (hjob : s.jobs[i]? = some job)
    (hopener : s.opener job.path = some k) (hother : s.jobs[k]? = some other)
    (hcontent : other.content = job.content)
    (hwritten : ∀ opened, s.listener ≠ .opened k opened) :
    s.NotOverwritten (.copy i) := by
  intro _ job' _ hjob'
  obtain rfl := Option.some.inj (hjob.symm.trans hjob')
  exact ⟨k, hopener, ⟨other, job, hother, hjob, hcontent⟩, hwritten⟩

theorem notOverwritten_exec (hworker : s.workers i = .copied node)
    (hjob : s.jobs[i]? = some job) (hcopier : s.copier node job.path = some k)
    (hother : s.jobs[k]? = some other) (hcontent : other.content = job.content) :
    s.NotOverwritten (.exec i) := by
  intro node' job' hworker' hjob'
  obtain rfl := WorkerPhase.copied.inj (hworker.symm.trans hworker')
  obtain rfl := Option.some.inj (hjob.symm.trans hjob')
  exact ⟨k, hcopier, other, job, hother, hjob, hcontent⟩

end Conditions

/-- The jobs of three dispatches whose workers meet on one node: the third one
has the file of the first, under another spelling of its path. -/
def sharedJobs : List Job :=
  [⟨"test.py", [112, 97, 115, 115]⟩, ⟨"sum.py", [112, 114, 105, 110, 116]⟩,
    ⟨"./test.py", [112, 97, 115, 115]⟩]

/-- The second dispatch begins before the first worker copies, and the third
one copies between the copy and the execution of the first. -/
def sharedNode : List ExecutionStep :=
  [.openFile sharedJobs[0], .write, .startThread, .openFile sharedJobs[1],
    .create 0 7, .copy 0, .write, .startThread, .create 1 7,
    .openFile sharedJobs[2], .copy 1, .write, .startThread, .create 2 7,
    .copy 2, .exec 0, .exec 1, .exec 2]

theorem executesOwn_throughout_sharedNode :
    Throughout step ExecutesOwn (start (fun _ => none) fun _ _ => none)
      sharedNode := by
  apply executesOwn_throughout
  refine ⟨trivial, trivial, trivial, trivial, trivial, ?_, trivial, trivial,
    trivial, trivial, ?_, trivial, trivial, trivial, ?_, ?_, ?_, ?_, trivial⟩
  · exact notOverwritten_copy (k := 0) rfl (by decide) rfl rfl nofun
  · exact notOverwritten_copy (k := 1) rfl (by decide) rfl rfl nofun
  · exact notOverwritten_copy (k := 2) rfl (by decide) rfl rfl nofun
  · exact notOverwritten_exec (k := 2) rfl rfl (by decide) rfl rfl
  · exact notOverwritten_exec (k := 1) rfl rfl (by decide) rfl rfl
  · exact notOverwritten_exec (k := 2) rfl rfl (by decide) rfl rfl

/-- Two users have a function of the same name; the second dispatch opens the
file before the worker of the first one copies it. -/
def twoJobs : List ExecutionStep :=
  [.openFile ⟨"test.py", [112, 97, 115, 115]⟩, .write, .startThread,
    .openFile ⟨"test.py", [112, 114, 105, 110, 116]⟩, .write, .startThread,
    .create 0 7, .copy 0, .exec 0]

/-- The worker of the first dispatch executes the content of the second. -/
theorem worker_executes_other_content :
    ¬Throughout step ExecutesOwn (start (fun _ => none) fun _ _ => none)
      twoJobs := by
  intro hthroughout
  have hlast := throughout_iff.mp hthroughout twoJobs [] rfl
  have hexecuted : (0, some [112, 114, 105, 110, 116]) ∈
      (runAll step (start (fun _ => none) fun _ _ => none) twoJobs).executed := by
    decide
  obtain ⟨job, hjob, hcontent⟩ := hlast _ hexecuted
  have hfirst : (runAll step (start (fun _ => none) fun _ _ => none)
      twoJobs).jobs[0]? = some ⟨"test.py", [112, 97, 115, 115]⟩ := by decide
  rw [hfirst] at hjob
  obtain rfl := Option.some.inj hjob
  simp at hcontent

end Execution

end LambdaOnOpenStack
