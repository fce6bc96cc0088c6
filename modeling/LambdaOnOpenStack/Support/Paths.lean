import Mathlib.Data.List.Infix
import Mathlib.Data.Nat.Notation

/-!
# Resolving paths

A directory is the list of the names on the way to it from the root.  A path is
a sequence of moves: it stays where it is, goes up, or goes into an entry; at
the root it cannot go up.

Where a path leads depends on two things only, which can be read off the path
alone: how far it climbs above the directory where it begins, and into which
entries it goes from there.
-/

namespace LambdaOnOpenStack.Support.Paths

variable {α : Type*}

inductive Move (α : Type*) where
  | stay
  | up
  | into (entry : α)
  deriving DecidableEq

/-! ## Walking -/

/-- The directory after one move. -/
def step (dir : List α) : Move α → List α
  | .stay => dir
  | .up => dir.dropLast
  | .into entry => dir ++ [entry]

/-- The directory after a path. -/
def walk (dir : List α) (moves : List (Move α)) : List α := moves.foldl step dir

theorem walk_append (dir : List α) (before after : List (Move α)) :
    walk dir (before ++ after) = walk (walk dir before) after :=
  List.foldl_append

/-! ## The route of a path -/

/-- What is left of a path when every move up has cancelled the entry before
it: moves up, and then entries. -/
structure Route (α : Type*) where
  ups : ℕ := 0
  downs : List α := []
  deriving DecidableEq

namespace Route

def extend (r : Route α) : Move α → Route α
  | .stay => r
  | .up =>
      match r.downs with
      | [] => { ups := r.ups + 1 }
      | entry :: rest => { r with downs := (entry :: rest).dropLast }
  | .into entry => { r with downs := r.downs ++ [entry] }

/-- The directory to which the route leads. -/
def follow (r : Route α) (dir : List α) : List α :=
  dir.take (dir.length - r.ups) ++ r.downs

theorem follow_extend (r : Route α) (dir : List α) (move : Move α) :
    (r.extend move).follow dir = step (r.follow dir) move := by
  obtain ⟨ups, downs⟩ := r
  cases move with
  | stay => rfl
  | up =>
      cases downs with
      | nil =>
          simp only [extend, follow, step, List.append_nil]
          rw [List.dropLast_eq_take, List.take_take, List.length_take]
          congr 1
          omega
      | cons entry rest =>
          simp only [extend, follow, step]
          rw [List.dropLast_append_of_ne_nil (List.cons_ne_nil entry rest)]
  | into entry => simp [extend, follow, step]

end Route

def route (moves : List (Move α)) : Route α := moves.foldl Route.extend {}

/-- A path leads where its route leads. -/
theorem walk_eq_follow (dir : List α) (moves : List (Move α)) :
    walk dir moves = (route moves).follow dir := by
  induction moves using List.reverseRecOn with
  | nil => simp [walk, route, Route.follow]
  | append_singleton before move ih =>
      have hroute : route (before ++ [move]) = (route before).extend move :=
        List.foldl_concat _ _ _ _
      rw [walk_append, ih, hroute, Route.follow_extend]
      rfl

/-- A path that begins in a directory leads to `below` under it exactly if it
goes down again what it has climbed, and from there to `below`. -/
theorem walk_eq_append_iff {dir below : List α} {moves : List (Move α)} :
    walk dir moves = dir ++ below ↔
      (route moves).downs =
        dir.drop (dir.length - (route moves).ups) ++ below := by
  rw [walk_eq_follow, Route.follow]
  conv_lhs =>
    rhs
    rw [← List.take_append_drop (dir.length - (route moves).ups) dir]
  rw [List.append_assoc, List.append_cancel_left_eq]

/-! ## Paths as texts -/

/-- The move of what stands between two slashes. -/
def moveOf (component : List Char) : Move String :=
  if component = [] ∨ component = ['.'] then .stay
  else if component = ['.', '.'] then .up
  else .into (String.ofList component)

def movesOf (path : String) : List (Move String) :=
  (path.toList.splitOnP (· = '/')).map moveOf

/-- An absolute path without `.`, `..` and repeated slashes. -/
def resolve (path : String) : List String := walk [] (movesOf path)

theorem movesOf_append_slash (path rest : String) :
    movesOf (path ++ "/" ++ rest) = movesOf path ++ movesOf rest := by
  have hchars : (path ++ "/" ++ rest).toList =
      path.toList ++ '/' :: rest.toList := by simp
  rw [movesOf, hchars, List.splitOnP_append_cons _ _ (by simp), List.map_append]
  rfl

/-- A path below a path. -/
theorem resolve_append_slash (path rest : String) :
    resolve (path ++ "/" ++ rest) = walk (resolve path) (movesOf rest) := by
  rw [resolve, movesOf_append_slash, walk_append, resolve]

example : resolve "/home//ubuntu/./../ubuntu/a.py" = ["home", "ubuntu", "a.py"] := by
  decide

end LambdaOnOpenStack.Support.Paths
