import LambdaOnOpenStack.Execution.SharedFiles
import LambdaOnOpenStack.Registry.Requests

/-!
# What a dispatch leaves when it fails

`writeFile` opens the file on the host before it reads the stored one, and the
record for the counter is looked up after it has written.  So a dispatch that
raises late has changed the host, unless the file was there as it leaves it.
-/

namespace LambdaOnOpenStack

open Support

/-- The files of a machine after these operations. -/
def filesAfter (files : Files) (ops : List HostOp) : Files :=
  ops.foldl (fun files op => op.apply files) files

/-- From `w` to `w'` no document of `mapping` and no file on the host has
changed, and no thread was started. -/
structure ChangesNothing (files : Files) (w w' : World) : Prop where
  mapping : w'.registry.mapping = w.registry.mapping
  host : filesAfter files (w'.host.drop w.host.length) = files
  workers : w'.workers = w.workers

/-- If `createEnvironment` raises, it has changed nothing. -/
def FailsCleanly (P : Platform) (files : Files) (w : World) (params : Value) :
    Prop :=
  ∀ x, ((createEnvironment P params).run w).1 = .error x →
    ChangesNothing files w ((createEnvironment P params).run w).2

/-- What has to be there when the dispatch of `e` opens the file for `d`: if
the stored file cannot be read, an empty one; if no record for the counter is
found, one with the stored bytes.  And the name must be one that can be
printed, if the run is recorded. -/
structure LeavesAsFound (P : Platform) (files : Files) (w : World) (e : Event)
    (d : MappingDoc) (name : String) : Prop where
  unread : ∀ x, w.registry.content d._id = .error x →
    files (Paths.resolve (hostPath name)) = some []
  unrecorded : ∀ content, w.registry.content d._id = .ok content →
    (P.refuses e.filename || P.refuses e.event_source) = true ∨
        w.registry.latestRecord P e.user_name e.filename e.event_source =
          none →
      files (Paths.resolve (hostPath name)) = some content
  printed : ∀ content latest, Completes P e w d name content latest →
    P.prints ("file::" ++ name) = true

variable {P : Platform} {files : Files} {w w' : World} {e : Event}

theorem filesAfter_truncate_eq_iff {path : String} :
    filesAfter files [.truncate path] = files ↔
      files (Paths.resolve path) = some [] := by
  simp only [filesAfter, List.foldl_cons, List.foldl_nil, HostOp.apply,
    Function.update_eq_self_iff]
  exact eq_comm

theorem filesAfter_rewrite_eq_iff {path : String} {content : Bytes} :
    filesAfter files [.truncate path, .write path content] = files ↔
      files (Paths.resolve path) = some content := by
  simp only [filesAfter, List.foldl_cons, List.foldl_nil, HostOp.apply,
    Function.update_idem, Function.update_eq_self_iff]
  exact eq_comm

theorem ChangesNothing.refl : ChangesNothing files w w where
  mapping := rfl
  host := by simp [filesAfter]
  workers := rfl

theorem changesNothing_touch_iff {path : String} :
    ChangesNothing files w (w.touch path) ↔
      files (Paths.resolve path) = some [] := by
  rw [← filesAfter_truncate_eq_iff]
  constructor
  · intro h
    simpa [World.touch] using h.host
  · intro h
    exact ⟨rfl, by simpa [World.touch] using h, rfl⟩

theorem changesNothing_rewrite_iff {path : String} {content : Bytes} :
    ChangesNothing files w (w.rewrite path content).drawUuid ↔
      files (Paths.resolve path) = some content := by
  rw [← filesAfter_rewrite_eq_iff]
  constructor
  · intro h
    simpa [World.rewrite, World.drawUuid] using h.host
  · intro h
    exact ⟨rfl, by simpa [World.rewrite, World.drawUuid] using h, rfl⟩

theorem not_changesNothing_dispatched {d latest : MappingDoc} {name : String}
    {content : Bytes} :
    ¬ChangesNothing files w (w.dispatched P e d name content latest) := by
  intro h
  -- The run record is a new document.
  have hlength := congrArg List.length h.mapping
  simp [World.dispatched, World.handOver, World.recordRun, World.drawUuid,
    World.rewrite, Registry.record] at hlength

/-! ## What has to be there -/

section Conditions

variable {d d' latest : MappingDoc} {name name' : String} {content : Bytes}

theorem Picks.forall_iff (hpicks : Picks P e w d name)
    {p : MappingDoc → String → Prop} :
    (∀ d' name', Picks P e w d' name' → p d' name') ↔ p d name := by
  constructor
  · intro h
    exact h d name hpicks
  · intro h d' name' hpicks'
    obtain ⟨rfl, rfl⟩ := hpicks.unique hpicks'
    exact h

theorem leavesAsFound_unread_iff {x : Failure}
    (hread : w.registry.content d._id = .error x) :
    LeavesAsFound P files w e d name ↔ files (Paths.resolve (hostPath name)) = some [] := by
  constructor
  · intro h
    exact h.unread x hread
  · intro h
    refine ⟨fun _ _ => h, ?_, ?_⟩
    · intro content hcontent
      simp [hread] at hcontent
    · intro content latest hcompletes
      have hread' := hcompletes.read
      simp [hread] at hread'

theorem leavesAsFound_unrecorded_iff
    (hread : w.registry.content d._id = .ok content)
    (hnone : (P.refuses e.filename || P.refuses e.event_source) = true ∨
      w.registry.latestRecord P e.user_name e.filename e.event_source = none) :
    LeavesAsFound P files w e d name ↔
      files (Paths.resolve (hostPath name)) = some content := by
  constructor
  · intro h
    exact h.unrecorded content hread hnone
  · intro h
    refine ⟨?_, ?_, ?_⟩
    · intro x hx
      simp [hread] at hx
    · intro content' hread' _
      obtain rfl := Except.ok.inj (hread.symm.trans hread')
      exact h
    · intro content' latest hcompletes
      rcases hnone with hrefused | hnone
      · simp [hcompletes.counted] at hrefused
      · simp [hcompletes.latest] at hnone

theorem leavesAsFound_completes_iff
    (hcompletes : Completes P e w d name content latest) :
    LeavesAsFound P files w e d name ↔ P.prints ("file::" ++ name) = true := by
  constructor
  · intro h
    exact h.printed content latest hcompletes
  · intro h
    refine ⟨?_, ?_, fun _ _ _ => h⟩
    · intro x hx
      simp [hcompletes.read] at hx
    · intro content' _ hnone
      rcases hnone with hrefused | hnone
      · simp [hcompletes.counted] at hrefused
      · simp [hcompletes.latest] at hnone

end Conditions

/-- A dispatch that raises has changed nothing exactly if what it leaves was
there. -/
theorem DispatchRun.changesNothing_iff {result : Except Failure Unit}
    (hrun : DispatchRun P e w result w') :
    (∀ x, result = .error x → ChangesNothing files w w') ↔
      ∀ d name, Picks P e w d name → LeavesAsFound P files w e d name := by
  have hpicked := hrun.picked_cases
  cases hrun with
  | unread hpicks hread =>
      rw [hpicks.forall_iff, leavesAsFound_unread_iff hread,
        ← changesNothing_touch_iff (w := w)]
      simp
  | uncounted hpicks hread hrefused =>
      rw [hpicks.forall_iff,
        leavesAsFound_unrecorded_iff hread (Or.inl hrefused),
        ← changesNothing_rewrite_iff (w := w)]
      simp
  | unrecorded hpicks hread _ hnone =>
      rw [hpicks.forall_iff, leavesAsFound_unrecorded_iff hread (Or.inr hnone),
        ← changesNothing_rewrite_iff (w := w)]
      simp
  | unprinted hcompletes hprints =>
      rw [hcompletes.toPicks.forall_iff,
        leavesAsFound_completes_iff hcompletes]
      simp [hprints, not_changesNothing_dispatched]
  | started hcompletes hprints =>
      rw [hcompletes.toPicks.forall_iff,
        leavesAsFound_completes_iff hcompletes]
      simp [hprints]
  | _ =>
      -- Nothing was opened, hence nothing has changed.
      rcases hpicked with ⟨d, name, rest, -, hhost⟩ | ⟨hnone, -⟩
      · simp at hhost
      · refine iff_of_true (fun _ _ => .refl) ?_
        intro d name hpicks
        exact absurd hpicks (hnone d name)

/-! ## Every event -/

/-- Whatever the event, `createEnvironment` changes nothing when it raises
exactly if what it leaves on the host was there, and the run, if it is
recorded, can be announced. -/
theorem failsCleanly_iff (P : Platform) (files : Files) (w : World)
    (params : Value) :
    FailsCleanly P files w params ↔
      ∀ e d name, readEvent params = .ok e → Picks P e w d name →
        LeavesAsFound P files w e d name := by
  cases hevent : readEvent params with
  | error x =>
      have hrun : (createEnvironment P params).run w = (.error x, w) := by
        simp [createEnvironment, hevent]
      refine iff_of_true ?_ ?_
      · intro _ _
        rw [hrun]
        exact .refl
      · intro e d name hok
        simp at hok
  | ok e =>
      rw [FailsCleanly, createEnvironment_eq hevent,
        (dispatch_run P e w).changesNothing_iff]
      constructor
      · intro h e' d name hok
        obtain rfl := Except.ok.inj hok
        exact h d name
      · intro h d name
        exact h e d name rfl

/-- The event of a file that is put into `S2`, from where no function of the
user takes its events. -/
def otherSourcePayload : Value :=
  .obj
    [("event_data", .obj
      [("type", .str "FilexxxxCreate"), ("metadata_type", .str "filename"),
        ("filename", .str "test.py")]),
      ("user_name", .str "testUser"), ("event_source", .str "S2")]

/-- The dispatch writes the file of the user's function, and finds then that
the event has no record. -/
theorem failed_dispatch_writes_file :
    Reachable default oneFunction ∧
      ¬FailsCleanly default (fun _ => none) oneFunction otherSourcePayload := by
  refine ⟨oneFunction_reachable, ?_⟩
  intro hclean
  have hfails : ((createEnvironment default otherSourcePayload).run
      oneFunction).1 = .error .indexError := by decide
  have hhost := congrFun (hclean _ hfails).host ["home", "ubuntu", "test.py"]
  have hwritten : filesAfter (fun _ => none)
      (((createEnvironment default otherSourcePayload).run
        oneFunction).2.host.drop oneFunction.host.length)
      ["home", "ubuntu", "test.py"] = some [112, 97, 115, 115] := by decide
  rw [hwritten] at hhost
  simp at hhost

end LambdaOnOpenStack
