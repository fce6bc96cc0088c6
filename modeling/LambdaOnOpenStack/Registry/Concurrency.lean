import LambdaOnOpenStack.Registry.UniqueNames
import LambdaOnOpenStack.Support.Contributions

/-!
# Requests and dispatches in progress

Requests of both kinds arrive at any time and take their steps in any order,
and any of them may stop for good before it ends.  Complete requests one after
another are one such order.
-/

namespace LambdaOnOpenStack

open Support Program

/-- Requests of both kinds in progress. -/
abbrev concurrently (P : Platform) : Traffic → Move Request → Traffic :=
  System.step (Request.handler P)

/-! ## What the parts of a dispatch leave alone -/

section Queries

variable {O : Type} {out : World → O} (P : Platform)

theorem confined_resultCount (user : Value) :
    (resultCount P user).Confined out := by
  refine ⟨fun _ => rfl, ?_⟩
  intro w
  dsimp only
  split <;> trivial

theorem confined_resultAt (user : Value) : (resultAt P user).Confined out := by
  refine ⟨fun _ => rfl, ?_⟩
  intro w
  dsimp only
  split
  · trivial
  · split <;> trivial

theorem confined_recordAt (user functionName eventSource : Value) :
    (recordAt P user functionName eventSource).Confined out := by
  refine ⟨fun _ => rfl, ?_⟩
  intro w
  dsimp only
  split
  · trivial
  · split <;> trivial

theorem confined_readLoop (_id : ObjectId) (size fuel chunk_number : ℕ)
    (data : Bytes) :
    (readLoop _id size fuel chunk_number data).Confined out := by
  induction fuel generalizing chunk_number data with
  | zero => trivial
  | succ fuel ih =>
      rw [readLoop]
      split
      · refine ⟨fun _ => rfl, ?_⟩
        intro w
        dsimp only
        split
        · trivial
        · exact ih _ _
      · trivial

/-- `writeFile` changes the files of the host and nothing else. -/
theorem confined_writeFile
    (hout : ∀ w host, out { w with host := host } = out w) (objId : ObjectId)
    (functionName : Value) :
    (writeFile P objId functionName).Confined out := by
  cases hname : concatText functionName with
  | error e =>
      simp only [writeFile, hname]
      trivial
  | ok name =>
      simp only [writeFile, hname, Program.ofExcept_ok, Program.done_bind]
      split
      · refine Confined.bind ⟨fun _ => hout _ _, fun _ => trivial⟩ fun _ =>
          Confined.bind ⟨fun _ => rfl, ?_⟩ fun _ =>
            ⟨fun _ => hout _ _, fun _ => trivial⟩
        intro w
        dsimp only
        split
        · trivial
        · exact confined_readLoop _ _ _ _ _
      · trivial

end Queries

/-! ## Complete requests -/

/-- What complete requests make of a world, the same requests make of it in
steps, and then none of them has a step left. -/
theorem complete_requests_are_steps (P : Platform) (w : World)
    (requests : List Request) :
    ∃ moves : List (Move Request), arrivals moves = requests ∧
      (runAll (concurrently P) (quiescent w) moves).Ended ∧
      (runAll (concurrently P) (quiescent w) moves).state =
        runAll (exec P) w requests := by
  induction requests using List.reverseRecOn with
  | nil => exact ⟨[], rfl, ⟨rfl, by simp [quiescent]⟩, rfl⟩
  | append_singleton before request ih =>
      obtain ⟨moves, harrivals, hended, hstate⟩ := ih
      obtain ⟨n, hended', hstate'⟩ :=
        hended.exists_steps (Request.handler P) request
      generalize hslot :
        (runAll (concurrently P) (quiescent w) moves).others.length = slot at *
      have hsteps : arrivals (.arrive request ::
          List.replicate n (.other slot)) = [request] := by simp [arrivals]
      refine ⟨moves ++ .arrive request :: List.replicate n (.other slot),
        ?_, ?_, ?_⟩
      · rw [arrivals_append, harrivals, hsteps]
      · rw [runAll_append]
        exact hended'
      · rw [runAll_append, runAll_append, ← hstate]
        exact hstate'

end LambdaOnOpenStack
