import LambdaOnOpenStack.Registry.Changes

/-!
# What a dispatch does

`DispatchRun` describes an uninterrupted dispatch, one constructor for each
way in which it can end.  `Picks` and `Completes` collect what has happened on
the way: the record that was picked and the file that was opened for it, then
the content that was read and the record that the counter was taken from.
-/

namespace LambdaOnOpenStack

open Support Program

/-! ## The world along a dispatch -/

namespace World

/-- The file at `path` has been opened with truncation. -/
def touch (path : String) (w : World) : World :=
  { w with host := w.host ++ [.truncate path] }

/-- The file at `path` has been rewritten. -/
def rewrite (path : String) (content : Bytes) (w : World) : World :=
  { w with host := w.host ++ [.truncate path, .write path content] }

/-- A run identifier has been drawn. -/
def drawUuid (w : World) : World := { w with uuids := w.uuids + 1 }

/-- The run that takes its counter from `latest` has been recorded. -/
def recordRun (P : Platform) (latest : MappingDoc) (log_uuid : String)
    (w : World) : World :=
  { w with
    inserted := w.inserted ++ [latest.nextRun log_uuid]
    registry := w.registry.record P latest log_uuid }

/-- The request that a dispatch of `e` hands over for the record `d`. -/
def deployRequest (e : Event) (d : MappingDoc) : DeployRequest where
  server_name := "vm2"
  network_name := "test-network"
  username := e.user_name
  function_name := d.filename
  memory := d.memory.orElse (.int 128)

/-- `server_request_object` of a dispatch of `e` for the record `d`. -/
def serverRequest (e : Event) (d : MappingDoc) : ServerRequest where
  username := e.user_name
  image_name := "ubuntu-14.04"
  network_name := "test-network"
  server_name := "vm2"
  flavor_name := getFlavourName (d.memory.orElse (.int 128))

/-- The call of `deploy_and_execute_docker` has been made. -/
def handOver (e : Event) (d : MappingDoc) (log_uuid : String) (w : World) :
    World :=
  { w with
    serverRequests := w.serverRequests ++ [serverRequest e d]
    deployed := w.deployed ++ [(deployRequest e d, log_uuid)] }

/-- The thread has been started. -/
def startWorker (d : MappingDoc) (log_uuid : String) (w : World) : World :=
  { w with
    workers := w.workers ++
      [{ fileName := d.filename
         log_uuid := log_uuid
         memory := d.memory.orElse (.int 128) }] }

/-- After the call of `deploy_and_execute_docker` of a dispatch that picked
`d`, wrote `content` for it and took the counter from `latest`. -/
def dispatched (P : Platform) (e : Event) (d : MappingDoc) (name : String)
    (content : Bytes) (latest : MappingDoc) (w : World) : World :=
  (((w.rewrite (hostPath name) content).drawUuid).recordRun P latest
    (P.newUuid w.uuids)).handOver e d (P.newUuid w.uuids)

end World

/-! ## The ways a dispatch can end -/

/-- The dispatch picks `d` and can open the file for it. -/
structure Picks (P : Platform) (e : Event) (w : World) (d : MappingDoc)
    (name : String) : Prop where
  accepted : P.refuses e.user_name = false
  first : w.registry.firstRecord P e.user_name = some d
  filename : d.filename = .str name
  opens : P.opens (hostPath name) = true

/-- The dispatch reads `content` for `d` and finds `latest` for its counter. -/
structure Completes (P : Platform) (e : Event) (w : World) (d : MappingDoc)
    (name : String) (content : Bytes) (latest : MappingDoc) : Prop
    extends Picks P e w d name where
  read : w.registry.content d._id = .ok content
  counted :
    (P.refuses e.filename || P.refuses e.event_source) = false
  latest :
    w.registry.latestRecord P e.user_name e.filename e.event_source = some latest

theorem Picks.unique {P : Platform} {e : Event} {w : World} {d d' : MappingDoc}
    {name name' : String} (h : Picks P e w d name) (h' : Picks P e w d' name') :
    d = d' ∧ name = name' := by
  obtain rfl := Option.some.inj (h.first.symm.trans h'.first)
  exact ⟨rfl, Value.str.inj (h.filename.symm.trans h'.filename)⟩

/-- There is one way only in which a dispatch can complete. -/
theorem Completes.unique {P : Platform} {e : Event} {w : World}
    {d d' latest latest' : MappingDoc} {name name' : String}
    {content content' : Bytes} (h : Completes P e w d name content latest)
    (h' : Completes P e w d' name' content' latest') :
    d = d' ∧ name = name' ∧ content = content' ∧ latest = latest' := by
  obtain ⟨rfl, rfl⟩ := h.toPicks.unique h'.toPicks
  obtain rfl := Except.ok.inj (h.read.symm.trans h'.read)
  obtain rfl := Option.some.inj (h.latest.symm.trans h'.latest)
  exact ⟨rfl, rfl, rfl, rfl⟩

inductive DispatchRun (P : Platform) (e : Event) (w : World) :
    Except Failure Unit → World → Prop where
  | refused (hrefused : P.refuses e.user_name = true) :
      DispatchRun P e w (.error .operationFailure) w
  | unmatched (haccepted : P.refuses e.user_name = false)
      (hnone : w.registry.firstRecord P e.user_name = none) :
      DispatchRun P e w (.ok ()) w
  | nameless {d : MappingDoc} (haccepted : P.refuses e.user_name = false)
      (hfirst : w.registry.firstRecord P e.user_name = some d)
      (hname : ∀ name, d.filename ≠ .str name) :
      DispatchRun P e w (.error .typeError) w
  | unopened {d : MappingDoc} {name : String}
      (haccepted : P.refuses e.user_name = false)
      (hfirst : w.registry.firstRecord P e.user_name = some d)
      (hname : d.filename = .str name)
      (hopens : P.opens (hostPath name) = false) :
      DispatchRun P e w (.error (.ioError (hostPath name))) w
  | unread {d : MappingDoc} {name : String} {x : Failure}
      (hpicks : Picks P e w d name)
      (hread : w.registry.content d._id = .error x) :
      DispatchRun P e w (.error x) (w.touch (hostPath name))
  | uncounted {d : MappingDoc} {name : String} {content : Bytes}
      (hpicks : Picks P e w d name)
      (hread : w.registry.content d._id = .ok content)
      (hrefused : (P.refuses e.filename || P.refuses e.event_source) = true) :
      DispatchRun P e w (.error .operationFailure)
        (w.rewrite (hostPath name) content).drawUuid
  | unrecorded {d : MappingDoc} {name : String} {content : Bytes}
      (hpicks : Picks P e w d name)
      (hread : w.registry.content d._id = .ok content)
      (hcounted : (P.refuses e.filename || P.refuses e.event_source) = false)
      (hnone : w.registry.latestRecord P e.user_name e.filename
        e.event_source = none) :
      DispatchRun P e w (.error .indexError)
        (w.rewrite (hostPath name) content).drawUuid
  | unprinted {d : MappingDoc} {name : String} {content : Bytes}
      {latest : MappingDoc}
      (hcompletes : Completes P e w d name content latest)
      (hprints : P.prints ("file::" ++ name) = false) :
      DispatchRun P e w (.error (.unicodeEncodeError ("file::" ++ name)))
        (w.dispatched P e d name content latest)
  | started {d : MappingDoc} {name : String} {content : Bytes}
      {latest : MappingDoc}
      (hcompletes : Completes P e w d name content latest)
      (hprints : P.prints ("file::" ++ name) = true) :
      DispatchRun P e w (.ok ())
        ((w.dispatched P e d name content latest).startWorker d
          (P.newUuid w.uuids))

namespace DispatchRun

variable {P : Platform} {e : Event} {w w' : World}
  {result : Except Failure Unit}

/-- A dispatch that cannot open a file for a record does nothing. -/
theorem picked_cases (hrun : DispatchRun P e w result w') :
    (∃ d name rest, Picks P e w d name ∧
        w'.host = w.host ++ .truncate (hostPath name) :: rest) ∨
      ((∀ d name, ¬Picks P e w d name) ∧ w' = w) := by
  cases hrun with
  | refused hrefused =>
      refine Or.inr ⟨?_, rfl⟩
      intro d name hpicks
      simp [hpicks.accepted] at hrefused
  | unmatched _ hnone =>
      refine Or.inr ⟨?_, rfl⟩
      intro d name hpicks
      simp [hpicks.first] at hnone
  | nameless _ hfirst hname =>
      refine Or.inr ⟨?_, rfl⟩
      intro d name hpicks
      obtain rfl := Option.some.inj (hfirst.symm.trans hpicks.first)
      exact hname name hpicks.filename
  | unopened _ hfirst hname hopens =>
      refine Or.inr ⟨?_, rfl⟩
      intro d name hpicks
      obtain rfl := Option.some.inj (hfirst.symm.trans hpicks.first)
      obtain rfl := Value.str.inj (hname.symm.trans hpicks.filename)
      simp [hpicks.opens] at hopens
  | unread hpicks => exact Or.inl ⟨_, _, _, hpicks, rfl⟩
  | uncounted hpicks => exact Or.inl ⟨_, _, _, hpicks, rfl⟩
  | unrecorded hpicks => exact Or.inl ⟨_, _, _, hpicks, rfl⟩
  | unprinted hcompletes => exact Or.inl ⟨_, _, _, hcompletes.toPicks, rfl⟩
  | started hcompletes => exact Or.inl ⟨_, _, _, hcompletes.toPicks, rfl⟩

/-- A dispatch that completes records its run and calls
`deploy_and_execute_docker`; the others do neither. -/
theorem completed_cases (hrun : DispatchRun P e w result w') :
    (∃ d name content latest, Completes P e w d name content latest ∧
        w' = if P.prints ("file::" ++ name) then
          (w.dispatched P e d name content latest).startWorker d
            (P.newUuid w.uuids)
        else w.dispatched P e d name content latest) ∨
      ((∀ d name content latest, ¬Completes P e w d name content latest) ∧
        w'.registry = w.registry ∧ w'.inserted = w.inserted ∧
        w'.deployed = w.deployed ∧ w'.workers = w.workers) := by
  have hpicked := hrun.picked_cases
  cases hrun with
  | unread hpicks hread =>
      refine Or.inr ⟨?_, rfl, rfl, rfl, rfl⟩
      intro d name content latest hcompletes
      obtain rfl := Option.some.inj (hpicks.first.symm.trans hcompletes.first)
      simp [hcompletes.read] at hread
  | uncounted _ _ hrefused =>
      refine Or.inr ⟨?_, rfl, rfl, rfl, rfl⟩
      intro d name content latest hcompletes
      simp [hcompletes.counted] at hrefused
  | unrecorded _ _ _ hnone =>
      refine Or.inr ⟨?_, rfl, rfl, rfl, rfl⟩
      intro d name content latest hcompletes
      simp [hcompletes.latest] at hnone
  | unprinted hcompletes hprints =>
      exact Or.inl ⟨_, _, _, _, hcompletes, by simp [hprints]⟩
  | started hcompletes hprints =>
      exact Or.inl ⟨_, _, _, _, hcompletes, by simp [hprints]⟩
  | _ =>
      -- Nothing was opened, hence no record was picked.
      rcases hpicked with ⟨d, name, rest, -, hhost⟩ | ⟨hnone, -⟩
      · simp at hhost
      · refine Or.inr ⟨?_, rfl, rfl, rfl, rfl⟩
        intro d name content latest hcompletes
        exact hnone d name hcompletes.toPicks

/-- A dispatch deploys exactly if it completes. -/
theorem deployed_cases (hrun : DispatchRun P e w result w') :
    (∃ d name content latest, Completes P e w d name content latest ∧
        w'.host = w.host ++
          [.truncate (hostPath name), .write (hostPath name) content] ∧
        w'.deployed = w.deployed ++
          [(World.deployRequest e d, P.newUuid w.uuids)]) ∨
      ((∀ d name content latest, ¬Completes P e w d name content latest) ∧
        w'.deployed = w.deployed) := by
  rcases hrun.completed_cases with
    ⟨d, name, content, latest, hcompletes, hworld⟩ | ⟨hnone, -, -, hsame, -⟩
  · refine Or.inl ⟨d, name, content, latest, hcompletes, ?_⟩
    rw [hworld]
    split <;> exact ⟨rfl, rfl⟩
  · exact Or.inr ⟨hnone, hsame⟩

end DispatchRun

/-! ## The parts of a dispatch -/

section Parts

variable {P : Platform} {w : World} {user functionName eventSource : Value}

theorem run_resultCount (haccepted : P.refuses user = false) :
    (resultCount P user).run w =
      (.ok (w.registry.mapping.countP fun d => P.answers user d.username), w) := by
  simp [resultCount, haccepted]

theorem countP_answers_eq_zero :
    (w.registry.mapping.countP fun d => P.answers user d.username) = 0 ↔
      w.registry.firstRecord P user = none := by
  simp [Registry.firstRecord, List.countP_eq_zero]

theorem run_resultAt {d : MappingDoc} (haccepted : P.refuses user = false)
    (hfirst : w.registry.firstRecord P user = some d) :
    (resultAt P user).run w = (.ok d, w) := by
  simp [resultAt, haccepted, hfirst]

theorem run_writeFile_nameless {objId : ObjectId} {v : Value}
    (hname : ∀ name, v ≠ .str name) :
    (writeFile P objId v).run w = (.error .typeError, w) := by
  cases v with
  | str s => exact absurd rfl (hname s)
  | _ => simp [writeFile, concatText]

theorem run_writeFile_unopened {objId : ObjectId} {name : String}
    (hopens : P.opens (hostPath name) = false) :
    (writeFile P objId (.str name)).run w =
      (.error (.ioError (hostPath name)), w) := by
  simp [writeFile, concatText, hopens]

theorem run_writeFile_unread {objId : ObjectId} {name : String} {x : Failure}
    (hopens : P.opens (hostPath name) = true)
    (hread : w.registry.content objId = .error x) :
    (writeFile P objId (.str name)).run w =
      (.error x, w.touch (hostPath name)) := by
  simp only [writeFile, concatText, ofExcept_ok, done_bind, hopens,
    ↓reduceIte, hostOp, run_modify_bind]
  apply run_bind_error
  rw [run_readFile, hread]
  rfl

theorem run_writeFile {objId : ObjectId} {name : String} {content : Bytes}
    (hopens : P.opens (hostPath name) = true)
    (hread : w.registry.content objId = .ok content) :
    (writeFile P objId (.str name)).run w =
      (.ok (), w.rewrite (hostPath name) content) := by
  simp only [writeFile, concatText, ofExcept_ok, done_bind, hopens,
    ↓reduceIte, hostOp, run_modify_bind]
  rw [run_bind, run_readFile, hread]
  simp [World.rewrite]

theorem run_recordAt_refused (haccepted : P.refuses user = false)
    (hrefused : (P.refuses functionName || P.refuses eventSource) = true) :
    (recordAt P user functionName eventSource).run w =
      (.error .operationFailure, w) := by
  simp only [recordAt, run_atomic, id_eq, haccepted, Bool.false_or, hrefused,
    ↓reduceIte, run_raised]

theorem run_recordAt (haccepted : P.refuses user = false)
    (hcounted : (P.refuses functionName || P.refuses eventSource) = false) :
    (recordAt P user functionName eventSource).run w =
      (match w.registry.latestRecord P user functionName eventSource with
        | none => .error .indexError
        | some d => .ok d, w) := by
  simp only [recordAt, run_atomic, id_eq, haccepted, Bool.false_or, hcounted,
    Bool.false_eq_true, ↓reduceIte]
  cases w.registry.latestRecord P user functionName eventSource <;> rfl

theorem run_updateSequenceCount {latest : MappingDoc} (log_uuid : String)
    (haccepted : P.refuses user = false)
    (hcounted : (P.refuses functionName || P.refuses eventSource) = false)
    (hlatest : w.registry.latestRecord P user functionName eventSource =
      some latest) :
    (updateSequenceCount P user functionName eventSource log_uuid).run w =
      (.ok (), w.recordRun P latest log_uuid) := by
  have hrecord : (recordAt P user functionName eventSource).run w =
      (.ok latest, w) := by
    rw [run_recordAt haccepted hcounted, hlatest]
  -- Both branches of the counter give the successor: a registration starts at zero.
  by_cases hcount : latest.sequence_count > 0
  · simp only [updateSequenceCount, run_bind_ok hrecord, hcount, ↓reduceIte,
      pure_eq, done_bind]
    rfl
  · have hzero : latest.sequence_count = 0 := by omega
    simp only [updateSequenceCount, run_bind_ok hrecord, hcount, ↓reduceIte,
      pure_eq, done_bind]
    simp [insertRecord, World.recordRun, Registry.record, Registry.runRecord,
      MappingDoc.nextRun, hzero]

theorem run_updateSequenceCount_error {log_uuid : String} {x : Failure}
    (hrecord : (recordAt P user functionName eventSource).run w = (.error x, w)) :
    (updateSequenceCount P user functionName eventSource log_uuid).run w =
      (.error x, w) := by
  simp only [updateSequenceCount]
  exact run_bind_error hrecord

end Parts

/-! ## The whole dispatch -/

theorem run_deployAndExecuteDocker (P : Platform) (e : Event) (d : MappingDoc)
    {name : String} (hname : d.filename = .str name) (log_uuid : String)
    (w : World) :
    (deployAndExecuteDocker P (World.deployRequest e d) log_uuid).run w =
      if P.prints ("file::" ++ name) then
        (.ok (), { w with
          deployed := w.deployed ++ [(World.deployRequest e d, log_uuid)]
          workers := w.workers ++
            [{ fileName := d.filename
               log_uuid := log_uuid
               memory := d.memory.orElse (.int 128) }] })
      else
        (.error (.unicodeEncodeError ("file::" ++ name)),
          { w with
            deployed := w.deployed ++ [(World.deployRequest e d, log_uuid)] }) := by
  simp only [deployAndExecuteDocker, World.deployRequest, run_modify_bind,
    hname, concatText, ofExcept_ok, done_bind]
  by_cases hprints : P.prints ("file::" ++ name) = true
  · simp [hprints]
  · simp [hprints]

/-- The part of `dispatch` that follows `writeFile`. -/
def deployFor (P : Platform) (e : Event) (d : MappingDoc) : Handler Unit := do
  let log_uuid ← getUuid P
  updateSequenceCount P e.user_name e.filename e.event_source log_uuid
  Program.modify fun w =>
    { w with serverRequests := w.serverRequests ++ [World.serverRequest e d] }
  deployAndExecuteDocker P (World.deployRequest e d) log_uuid

theorem run_dispatch_unmatched {P : Platform} {e : Event} {w : World}
    (haccepted : P.refuses e.user_name = false)
    (hnone : w.registry.firstRecord P e.user_name = none) :
    (dispatch P e).run w = (.ok (), w) := by
  have hzero := countP_answers_eq_zero.mpr hnone
  simp only [dispatch]
  rw [run_bind_ok (run_resultCount haccepted)]
  simp [hzero]

theorem run_dispatch_picked {P : Platform} {e : Event} {w : World}
    {d : MappingDoc} (haccepted : P.refuses e.user_name = false)
    (hfirst : w.registry.firstRecord P e.user_name = some d) :
    (dispatch P e).run w =
      (writeFile P d._id d.filename >>= fun _ => deployFor P e d).run w := by
  have hcount : (w.registry.mapping.countP fun d =>
      P.answers e.user_name d.username) ≠ 0 := by
    intro hzero
    rw [countP_answers_eq_zero.mp hzero] at hfirst
    simp at hfirst
  have hresult := run_resultAt haccepted hfirst
  simp only [dispatch]
  rw [run_bind_ok (run_resultCount haccepted)]
  simp only [hcount, ↓reduceIte]
  rw [run_bind_ok hresult, run_bind_ok hresult, run_bind_ok hresult]
  rfl

theorem run_getUuid_bind (P : Platform) (f : String → Handler Unit) (w : World) :
    (getUuid P >>= f).run w = (f (P.newUuid w.uuids)).run w.drawUuid := rfl

theorem run_deployFor {P : Platform} {e : Event} {w : World}
    {d latest : MappingDoc} {name : String}
    (hname : d.filename = .str name)
    (haccepted : P.refuses e.user_name = false)
    (hcounted : (P.refuses e.filename || P.refuses e.event_source) = false)
    (hlatest : w.registry.latestRecord P e.user_name e.filename
      e.event_source = some latest) :
    (deployFor P e d).run w =
      let w' := (w.drawUuid.recordRun P latest (P.newUuid w.uuids)).handOver e d
        (P.newUuid w.uuids)
      if P.prints ("file::" ++ name) then
        (.ok (), w'.startWorker d (P.newUuid w.uuids))
      else (.error (.unicodeEncodeError ("file::" ++ name)), w') := by
  have hcount := run_updateSequenceCount (w := w.drawUuid)
    (P.newUuid w.uuids) haccepted hcounted hlatest
  rw [deployFor, run_getUuid_bind, run_bind_ok hcount, run_modify_bind,
    run_deployAndExecuteDocker P e d hname]
  rfl

theorem run_deployFor_error {P : Platform} {e : Event} {w : World}
    {d : MappingDoc} {x : Failure}
    (hrecord : (recordAt P e.user_name e.filename e.event_source).run w.drawUuid =
      (.error x, w.drawUuid)) :
    (deployFor P e d).run w = (.error x, w.drawUuid) := by
  rw [deployFor, run_getUuid_bind]
  exact run_bind_error (run_updateSequenceCount_error hrecord)

theorem dispatch_run_read {P : Platform} {e : Event} {w : World}
    {d : MappingDoc} {name : String} {content : Bytes}
    (hpicks : Picks P e w d name)
    (hread : w.registry.content d._id = .ok content) :
    DispatchRun P e w
      ((deployFor P e d).run (w.rewrite (hostPath name) content)).1
      ((deployFor P e d).run (w.rewrite (hostPath name) content)).2 := by
  cases hcounted : P.refuses e.filename || P.refuses e.event_source with
  | true =>
      rw [run_deployFor_error (run_recordAt_refused hpicks.accepted hcounted)]
      exact .uncounted hpicks hread hcounted
  | false =>
      cases hlatest : w.registry.latestRecord P e.user_name e.filename
          e.event_source with
      | none =>
          have hnone : (recordAt P e.user_name e.filename e.event_source).run
              (w.rewrite (hostPath name) content).drawUuid =
                (.error .indexError, (w.rewrite (hostPath name) content).drawUuid) := by
            rw [run_recordAt hpicks.accepted hcounted]
            simp [World.rewrite, World.drawUuid, hlatest]
          rw [run_deployFor_error hnone]
          exact .unrecorded hpicks hread hcounted hlatest
      | some latest =>
          have hcompletes : Completes P e w d name content latest :=
            ⟨hpicks, hread, hcounted, hlatest⟩
          have hrun := run_deployFor (w := w.rewrite (hostPath name) content)
            hpicks.filename hpicks.accepted hcounted hlatest
          rw [hrun]
          cases hprints : P.prints ("file::" ++ name) with
          | true => exact .started hcompletes hprints
          | false => exact .unprinted hcompletes hprints

/-- Every uninterrupted dispatch ends in one of the ways of `DispatchRun`. -/
theorem dispatch_run (P : Platform) (e : Event) (w : World) :
    DispatchRun P e w ((dispatch P e).run w).1 ((dispatch P e).run w).2 := by
  cases hrefused : P.refuses e.user_name with
  | true =>
      have hrun : (dispatch P e).run w = (.error .operationFailure, w) := by
        simp [dispatch, resultCount, hrefused]
      rw [hrun]
      exact .refused hrefused
  | false =>
      cases hfirst : w.registry.firstRecord P e.user_name with
      | none =>
          rw [run_dispatch_unmatched hrefused hfirst]
          exact .unmatched hrefused hfirst
      | some d =>
          rw [run_dispatch_picked hrefused hfirst]
          by_cases hname : ∃ name, d.filename = .str name
          · obtain ⟨name, hname⟩ := hname
            rw [hname]
            cases hopens : P.opens (hostPath name) with
            | false =>
                rw [run_bind_error (run_writeFile_unopened hopens)]
                exact .unopened hrefused hfirst hname hopens
            | true =>
                have hpicks : Picks P e w d name :=
                  ⟨hrefused, hfirst, hname, hopens⟩
                cases hread : w.registry.content d._id with
                | error x =>
                    rw [run_bind_error (run_writeFile_unread hopens hread)]
                    exact .unread hpicks hread
                | ok content =>
                    rw [run_bind_ok (run_writeFile hopens hread)]
                    exact dispatch_run_read hpicks hread
          · have hname' : ∀ name, d.filename ≠ .str name := by
              intro name heq
              exact hname ⟨name, heq⟩
            rw [run_bind_error (run_writeFile_nameless hname')]
            exact .nameless hrefused hfirst hname'

theorem createEnvironment_eq {P : Platform} {e : Event} {params : Value}
    (hevent : readEvent params = .ok e) :
    createEnvironment P params = dispatch P e := by
  rw [createEnvironment, hevent]
  rfl

end LambdaOnOpenStack
