import LambdaOnOpenStack.Registry.Requests

/-!
# The map of functions

What the web interface is for: each user has functions, and a function is
uploaded first and then registered with the fields of its event.  The commands
of this module are the requests whose names and fields are text.
-/

namespace LambdaOnOpenStack

open Support

/-- The fields of a registration; one that the request leaves out is `none`. -/
structure FunctionFields where
  eventType : Option String
  eventsource : Option String
  memory : Option String
  environment : Option String
  deriving DecidableEq

/-- The fields after an update with those that are `given`. -/
def FunctionFields.override (old given : FunctionFields) : FunctionFields where
  eventType := given.eventType.or old.eventType
  eventsource := given.eventsource.or old.eventsource
  memory := given.memory.or old.memory
  environment := given.environment.or old.environment

inductive Entry where
  | uploaded (content : Bytes)
  | registered (content : Bytes) (fields : FunctionFields)
  deriving DecidableEq

/-- What is stored for each user and file name. -/
abbrev FunctionMap := String × String → Option Entry

inductive Command where
  | fileupload (u f : String) (content : Bytes)
  | post (u f : String) (fields : FunctionFields)
  | put (u f : String) (given : FunctionFields)
  | delete (u f : String)
  | list (u : String)
  | one (u f : String)
  deriving DecidableEq

namespace FunctionMap

/-- No function has been uploaded. -/
def empty : FunctionMap := fun _ => none

def exec (m : FunctionMap) : Command → FunctionMap
  | .fileupload u f content =>
      match m (u, f) with
      | none => Function.update m (u, f) (some (.uploaded content))
      | some _ => m
  | .post u f fields =>
      match m (u, f) with
      | some (.uploaded content) =>
          Function.update m (u, f) (some (.registered content fields))
      | _ => m
  | .put u f given =>
      match m (u, f) with
      | some (.registered content fields) =>
          Function.update m (u, f)
            (some (.registered content (fields.override given)))
      | _ => m
  | .delete u f =>
      match m (u, f) with
      | some (.registered _ _) => Function.update m (u, f) none
      | _ => m
  | .list _ => m
  | .one _ _ => m

end FunctionMap

/-! ## Commands as requests -/

def Value.ofText : Option String → Value
  | none => .null
  | some s => .str s

def FunctionFields.body (fields : FunctionFields) (u f : String) : Body where
  FileName := .str f
  UserName := .str u
  EventType := .ofText fields.eventType
  EventSource := .ofText fields.eventsource
  Memory := .ofText fields.memory
  Environment := .ofText fields.environment

def Command.request : Command → Request
  | .fileupload u f content => .fileupload (.str u) f content
  | .post u f fields => .post (fields.body u f)
  | .put u f given => .put (given.body u f)
  | .delete u f => .delete u f
  | .list u => .list u
  | .one u f => .one u f

end LambdaOnOpenStack
