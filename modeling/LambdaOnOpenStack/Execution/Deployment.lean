import LambdaOnOpenStack.Execution.EventQueue
import LambdaOnOpenStack.Execution.EventSource
import LambdaOnOpenStack.Registry.Attribution
import LambdaOnOpenStack.Support.Services

/-!
# The deployed service

One listener consumes the queue of events, handles one event after another and
may die at any step, while the web interface handles its requests.  Whatever
happens there can happen between interleaved requests and dispatches, so what
holds in every interleaving holds in the deployed service.
-/

namespace LambdaOnOpenStack

open Support Program Services

/-! ## The listener beside the web interface -/

abbrev Deployment := Services World Failure Reply Bytes

abbrev DeploymentAction := ServiceAction Bytes WebRequest

abbrev deploymentStep (P : Platform) (loads : Bytes → Except Failure Value) :
    Deployment → DeploymentAction → Deployment :=
  Services.step (handleBody P loads) (webHandler P)

/-- The event as which a message is handled. -/
def readBody (loads : Bytes → Except Failure Value) (body : Bytes) :
    Option Request :=
  (loads (replaceArrows body)).toOption.map .event

/-- The requests and messages with which a run begins, in their order. -/
def handled (P : Platform) (loads : Bytes → Except Failure Value)
    (S : Deployment) (actions : List DeploymentAction) :
    List (WebRequest ⊕ Bytes) :=
  begun (handleBody P loads) (webHandler P) S actions

theorem handledBy_requests (P : Platform) (loads : Bytes → Except Failure Value) :
    HandledBy (handleBody P loads) (webHandler P) (Request.handler P) .nothing
      Subtype.val (readBody loads) where
  request _ := rfl
  handled body request h := by
    obtain ⟨params, hparams, rfl⟩ := Option.map_eq_some_iff.mp h
    cases hread : loads (replaceArrows body) with
    | error x => simp [hread, Except.toOption] at hparams
    | ok v =>
        simp only [hread, Except.toOption, Option.some.injEq] at hparams
        subst hparams
        simp [handleBody, callback, validatePayload, hread, Request.handler]
  refused body h := by
    cases hread : loads (replaceArrows body) with
    | error x =>
        exact ⟨x, by simp [handleBody, callback, validatePayload, hread]⟩
    | ok v => simp [readBody, hread, Except.toOption] at h

/-- Every state of the deployed service is one of interleaved requests and
dispatches.  The dispatches are for the messages with which the listener begins,
in the order in which they have been published. -/
theorem deployment_interleaves (P : Platform)
    (loads : Bytes → Except Failure Value) (w : World)
    (actions : List DeploymentAction) :
    ∃ moves : List (Move Request),
      (runAll (concurrently P) (quiescent w) moves).state =
          (runAll (deploymentStep P loads) (idle w) actions).delivery.state ∧
        arrivals moves =
          asRequests Subtype.val (readBody loads)
            (handled P loads (idle w) actions) ∧
        ((handled P loads (idle w) actions).filterMap Sum.getRight?).Sublist
          (published actions) := by
  obtain ⟨moves, hstate, harrivals⟩ :=
    exists_moves (T := quiescent w) rfl (handledBy_requests P loads) actions
  exact ⟨moves, hstate, harrivals, sublist_begun_idle w actions⟩

/-! ## What the listener handles -/

section Handled

variable {loads : Bytes → Except Failure Value} {begun : List (WebRequest ⊕ Bytes)}

theorem exists_body_of_event {params : Value}
    (h : .event params ∈ asRequests Subtype.val (readBody loads) begun) :
    ∃ body ∈ begun.filterMap Sum.getRight?,
      loads (replaceArrows body) = .ok params := by
  obtain ⟨first, hfirst, hrequest⟩ := List.mem_filterMap.mp h
  cases first with
  | inl request =>
      have hweb := request.2
      simp only [Sum.elim_inl, Option.some.injEq] at hrequest
      rw [hrequest] at hweb
      exact absurd hweb (by simp [Request.isWeb])
  | inr body =>
      refine ⟨body, List.mem_filterMap.mpr ⟨_, hfirst, rfl⟩, ?_⟩
      obtain ⟨params', hparams, hevent⟩ := Option.map_eq_some_iff.mp hrequest
      obtain rfl : params' = params := by simpa using hevent
      cases hread : loads (replaceArrows body) with
      | error x => simp [hread, Except.toOption] at hparams
      | ok v =>
          simp only [hread, Except.toOption, Option.some.injEq] at hparams
          rw [hparams]

/-- Each event is one of the messages. -/
theorem countP_events_le :
    (asRequests Subtype.val (readBody loads) begun).countP (!·.isWeb) ≤
      (begun.filterMap Sum.getRight?).length := by
  induction begun with
  | nil => exact Nat.le_refl _
  | cons first rest ih =>
      cases first with
      | inl request =>
          have hskip : (Sum.inl request :: rest).filterMap Sum.getRight? =
              rest.filterMap Sum.getRight? := rfl
          rw [hskip]
          simpa [asRequests, request.2] using ih
      | inr body =>
          cases hbody : readBody loads body with
          | none => simpa [asRequests, hbody] using Nat.le_succ_of_le ih
          | some request =>
              simp only [asRequests, List.filterMap_cons, Sum.elim_inr, hbody,
                List.countP_cons, Sum.getRight?_inr, List.length_cons] at ih ⊢
              split <;> omega

end Handled

/-! ## The events of the event source -/

/-- There are at most `n` runs; their records answer the event `e`, and what is
requested and deployed is for its user. -/
structure RunsOnly (P : Platform) (e : Event) (n : ℕ) (c : Effects) : Prop where
  recorded : ∀ record ∈ c.1, record.Answers P e
  requested : ∀ request ∈ c.2.1, ∃ memory, request = e.serverRequest memory
  handedOver : ∀ run ∈ c.2.2.1, ∃ function_name memory,
    run.1 = e.deployRequest function_name memory
  few : c.1.card ≤ n

section RunsOnly

variable {P : Platform} {e : Event} {m n : ℕ} {c d : Effects}

theorem RunsOnly.zero : RunsOnly P e 0 0 := by
  constructor <;> simp

theorem RunsOnly.add (hc : RunsOnly P e m c) (hd : RunsOnly P e n d) :
    RunsOnly P e (m + n) (c + d) where
  recorded record h := (Multiset.mem_add.mp h).elim (hc.recorded _) (hd.recorded _)
  requested request h :=
    (Multiset.mem_add.mp h).elim (hc.requested _) (hd.requested _)
  handedOver run h := (Multiset.mem_add.mp h).elim (hc.handedOver _) (hd.handedOver _)
  few := by
    rw [Prod.fst_add, Multiset.card_add]
    exact Nat.add_le_add hc.few hd.few

theorem RunsOnly.mono (hc : RunsOnly P e m c) (hmn : m ≤ n) : RunsOnly P e n c :=
  { hc with few := hc.few.trans hmn }

theorem runsOnly_of_causes (h : Causes P e c) : RunsOnly P e 1 c := by
  cases h with
  | nothing => exact RunsOnly.zero.mono (Nat.zero_le 1)
  | recorded h => constructor <;> simp [h]
  | requested h memory => constructor <;> simp [h]
  | handedOver h function_name memory => constructor <;> simp [h]
  | started h function_name memory => constructor <;> simp [h]

/-- If all events that arrive are the same, there is at most one run for each. -/
theorem runsOnly_sum {shares : List (Request × Effects)}
    (hcaused : ∀ x ∈ shares, x.1.Caused P x.2)
    (hevents : ∀ params, .event params ∈ shares.map (·.1) →
      readEvent params = .ok e) :
    RunsOnly P e ((shares.map (·.1)).countP (!·.isWeb)) (shares.map (·.2)).sum := by
  induction shares with
  | nil => exact RunsOnly.zero
  | cons x rest ih =>
      obtain ⟨request, c⟩ := x
      obtain ⟨hfirst, hrest⟩ := List.forall_mem_cons.mp hcaused
      have htail := ih hrest fun params h => hevents params (List.mem_cons_of_mem _ h)
      have hhead : RunsOnly P e (if request.isWeb then 0 else 1) c := by
        cases request with
        | event params =>
            rcases hfirst with rfl | ⟨e', he', hcauses⟩
            · exact RunsOnly.zero.mono (Nat.zero_le _)
            · rw [hevents params (List.mem_cons_self ..)] at he'
              obtain rfl := Except.ok.inj he'
              exact runsOnly_of_causes hcauses
        | _ =>
            obtain rfl : c = 0 := hfirst
            exact RunsOnly.zero
      rw [List.map_cons, List.map_cons, List.sum_cons, List.countP_cons]
      refine (hhead.add htail).mono ?_
      cases request.isWeb <;> simp [Nat.add_comm]

end RunsOnly

/-- Whatever files are created and whatever else happens, all run records are for
one function of one user, all deployments are for this user, and there are not more
runs than events. -/
theorem file_events_run_for_one_user {P : Platform}
    {loads : Bytes → Except Failure Value} (hloads : ReadsAscii loads)
    {actions : List DeploymentAction}
    (hsource : ∀ body, .publish body ∈ actions →
      ∃ H name location, body ∈ eventsFor H name location) :
    RunsOnly P (sampleEvent "testUser" "test.py") (published actions).length
      (runAll (deploymentStep P loads) (idle {}) actions).delivery.state.effects := by
  obtain ⟨moves, hstate, harrivals⟩ :=
    exists_moves (T := quiescent {}) rfl (handledBy_requests P loads) actions
  have horder : ((handled P loads (idle {}) actions).filterMap Sum.getRight?).Sublist
      (published actions) := sublist_begun_idle ({} : World) actions
  obtain ⟨shares, hrequests, heffects, hcaused⟩ :=
    System.exists_contributions (S := quiescent {}) rfl trivial
      (contributes_handler P) moves
  have hruns : RunsOnly P (sampleEvent "testUser" "test.py")
      ((shares.map (·.1)).countP (!·.isWeb)) (shares.map (·.2)).sum := by
    refine runsOnly_sum hcaused ?_
    intro params hparams
    rw [hrequests, harrivals] at hparams
    obtain ⟨body, hbody, hread⟩ := exists_body_of_event hparams
    obtain ⟨H, name, location, hsent⟩ :=
      hsource body (mem_published.mp (horder.subset hbody))
    rw [eq_of_mem_eventsFor hsent, loads_sampleBody hloads] at hread
    rw [← Except.ok.inj hread]
    rfl
  have hsum :
      (runAll (deploymentStep P loads) (idle {}) actions).delivery.state.effects =
        (shares.map (·.2)).sum := by
    have hsame : (runAll (deploymentStep P loads) (idle {}) actions).delivery.state =
        (runAll (concurrently P) (quiescent {}) moves).state := hstate.symm
    rw [hsame, heffects]
    exact zero_add _
  rw [hsum]
  refine hruns.mono ?_
  rw [hrequests, harrivals]
  exact countP_events_le.trans horder.length_le

/-- A function is uploaded and registered, a file is created, and its event is
handled. -/
def createdOnce : List DeploymentAction :=
  [.arrive ⟨.fileupload (.str "testUser") "test.py" [112], Eq.refl true⟩,
    .arrive ⟨.post (.sample "testUser" "test.py"), Eq.refl true⟩] ++
    List.replicate 4 (.other 0) ++ List.replicate 5 (.other 1) ++
    [.publish (sampleBody "S1"), .start, .deliver 1, .begin] ++
    List.replicate 30 .consume

theorem file_events_run_for_one_user_createdOnce :
    RunsOnly default (sampleEvent "testUser" "test.py") (published createdOnce).length
      (runAll (deploymentStep default asciiLoads) (idle {})
        createdOnce).delivery.state.effects := by
  refine file_events_run_for_one_user readsAscii_asciiLoads ?_
  intro body hbody
  have hpublished : published createdOnce = [sampleBody "S1"] := rfl
  have hsent : sampleBody "S1" ∈ eventsFor default "test.txt" "" :=
    sampleBody_mem_eventsFor rfl rfl
  rw [← mem_published, hpublished, List.mem_singleton] at hbody
  exact ⟨default, "test.txt", "", hbody ▸ hsent⟩

end LambdaOnOpenStack
