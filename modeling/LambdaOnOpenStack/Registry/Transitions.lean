import LambdaOnOpenStack.Registry.Dispatch

/-!
# The changes of the registry

A complete request changes the database in one of six ways, or not at all.
`Change` lists them with the facts that the request has checked before.
-/

namespace LambdaOnOpenStack

open Support Program

inductive Registry.Change (P : Platform) (r : Registry) :
    Request → Registry → Prop where
  | idle {request : Request}
      (hrequest : ∀ uname filename, request ≠ .delete uname filename) :
      Change P r request r
  | uploaded {username : Value} {filename : String} {content : Bytes}
      (hfree : ∀ f ∈ r.files,
        f.hasKey (Ruby.toText P.table username) filename = false) :
      Change P r (.fileupload username filename content)
        (r.upload P filename content (Ruby.toText P.table username))
  | registered {body : Body} {f : FileDoc}
      (hfree : ∀ d ∈ r.mapping, body.hasKey P d = false)
      (hfile : r.files.find? (body.hasFile P) = some f)
      (hid : ∀ d ∈ r.mapping, d._id ≠ f._id) :
      Change P r (.post body) (r.insert (body.registration f))
  | updated {body : Body} :
      Change P r (.put body) (r.updateKey P body (body.update P))
  | unmatched {uname filename : String}
      (hnone : r.mapping.find? (·.hasKey uname filename) = none) :
      Change P r (.delete uname filename) r
  | removed {uname filename : String} {d : MappingDoc}
      (hfind : r.mapping.find? (·.hasKey uname filename) = some d) :
      Change P r (.delete uname filename) (r.remove d._id)
  | recorded {params : Value} {e : Event} {latest : MappingDoc}
      {log_uuid : String} (hevent : readEvent params = .ok e)
      (hlatest : r.latestRecord P e.user_name e.filename e.event_source =
        some latest) :
      Change P r (.event params) (r.record P latest log_uuid)

open Registry (Change)

variable {P : Platform} {w : World}

theorem exec_eq (request : Request) :
    exec P w request = ((request.handler P).run w).2 := rfl

theorem exec_fileupload (username : Value) (filename : String)
    (content : Bytes) :
    Change P w.registry (.fileupload username filename content)
      (exec P w (.fileupload username filename content)).registry := by
  rw [exec_eq, Request.handler, run_postFileupload]
  split
  · exact .idle (by simp)
  · rename_i hfree
    refine .uploaded ?_
    intro f hf
    by_contra hkey
    exact hfree (List.any_eq_true.mpr ⟨f, hf, by simpa using hkey⟩)

theorem exec_post (body : Body)
    (hfiles : (w.registry.files.map fun f => (f.metadata, f.filename)).Nodup) :
    Change P w.registry (.post body) (exec P w (.post body)).registry := by
  rw [exec_eq, Request.handler]
  rcases postLambda_cases P body w hfiles with
    ⟨f, hfree, hfile, hid, hrun⟩ | ⟨-, hsame⟩
  · rw [hrun]
    exact .registered hfree hfile hid
  · rw [hsame]
    exact .idle (by simp)

theorem exec_put_eq (body : Body) :
    exec P w (.put body) =
      w.onRegistry (Registry.updateKey P body (body.update P)) := by
  rw [exec_eq, Request.handler, run_putLambda]

theorem exec_put (body : Body) :
    Change P w.registry (.put body) (exec P w (.put body)).registry := by
  rw [exec_put_eq]
  exact .updated

theorem exec_delete (uname filename : String) :
    Change P w.registry (.delete uname filename)
      (exec P w (.delete uname filename)).registry := by
  rw [exec_eq, Request.handler, run_deleteLambda]
  cases hfind : w.registry.mapping.find? (·.hasKey uname filename) with
  | none => exact .unmatched hfind
  | some d => exact .removed hfind

theorem exec_list (uname : String) : exec P w (.list uname) = w := by
  rw [exec_eq, Request.handler, run_getList]

theorem exec_one (uname fname : String) : exec P w (.one uname fname) = w := rfl

theorem exec_event (params : Value) :
    exec P w (.event params) =
      match readEvent params with
      | .ok e => ((dispatch P e).run w).2
      | .error _ => w := by
  rw [exec_eq, Request.handler, run_bind, createEnvironment]
  cases readEvent params with
  | error x => rfl
  | ok e =>
      simp only [ofExcept_ok, done_bind]
      cases (dispatch P e).run w with
      | mk result w' => cases result <;> rfl

/-- A dispatch adds a run record to the database and to the history of the
listener's insertions, or leaves both alone. -/
theorem DispatchRun.insertion {e : Event} {w' : World}
    {result : Except Failure Unit} (hrun : DispatchRun P e w result w') :
    (w'.registry = w.registry ∧ w'.inserted = w.inserted) ∨
      ∃ latest, w.registry.latestRecord P e.user_name e.filename
          e.event_source = some latest ∧
        w'.registry = w.registry.record P latest (P.newUuid w.uuids) ∧
        w'.inserted = w.inserted ++ [latest.nextRun (P.newUuid w.uuids)] := by
  rcases hrun.completed_cases with
    ⟨d, name, content, latest, hcompletes, hworld⟩ | ⟨-, hregistry, hinserted, -⟩
  · refine Or.inr ⟨latest, hcompletes.latest, ?_⟩
    rw [hworld]
    split <;> exact ⟨rfl, rfl⟩
  · exact Or.inl ⟨hregistry, hinserted⟩

theorem DispatchRun.change {e : Event} {w' : World}
    {result : Except Failure Unit} (hrun : DispatchRun P e w result w') :
    w'.registry = w.registry ∨
      ∃ latest, w.registry.latestRecord P e.user_name e.filename
          e.event_source = some latest ∧
        w'.registry = w.registry.record P latest (P.newUuid w.uuids) := by
  rcases hrun.insertion with ⟨hsame, -⟩ | ⟨latest, hlatest, hrecord, -⟩
  · exact Or.inl hsame
  · exact Or.inr ⟨latest, hlatest, hrecord⟩

/-- What an event inserts. -/
theorem exec_event_insertion (params : Value) :
    ((exec P w (.event params)).registry = w.registry ∧
        (exec P w (.event params)).inserted = w.inserted) ∨
      ∃ e latest, readEvent params = .ok e ∧
        w.registry.latestRecord P e.user_name e.filename e.event_source =
          some latest ∧
        (exec P w (.event params)).registry =
          w.registry.record P latest (P.newUuid w.uuids) ∧
        (exec P w (.event params)).inserted =
          w.inserted ++ [latest.nextRun (P.newUuid w.uuids)] := by
  rw [exec_event]
  cases hevent : readEvent params with
  | error x => exact Or.inl ⟨rfl, rfl⟩
  | ok e =>
      rcases (dispatch_run P e w).insertion with hsame | ⟨latest, hrecord⟩
      · exact Or.inl hsame
      · exact Or.inr ⟨e, latest, rfl, hrecord⟩

theorem exec_event_change (params : Value) :
    Change P w.registry (.event params) (exec P w (.event params)).registry := by
  rw [exec_event]
  cases hevent : readEvent params with
  | error x => exact .idle (by simp)
  | ok e =>
      rcases (dispatch_run P e w).change with hsame | ⟨latest, hlatest, hrecord⟩
      · simp only [hsame]
        exact .idle (by simp)
      · simp only [hrecord]
        exact .recorded hevent hlatest

/-- Every complete request makes one of the changes. -/
theorem exec_change (request : Request)
    (hfiles : (w.registry.files.map fun f => (f.metadata, f.filename)).Nodup) :
    Change P w.registry request (exec P w request).registry := by
  cases request with
  | fileupload username filename content =>
      exact exec_fileupload username filename content
  | post body => exact exec_post body hfiles
  | put body => exact exec_put body
  | delete uname filename => exact exec_delete uname filename
  | list uname =>
      rw [exec_list]
      exact .idle (by simp)
  | one uname fname =>
      rw [exec_one]
      exact .idle (by simp)
  | event params => exact exec_event_change params

end LambdaOnOpenStack
