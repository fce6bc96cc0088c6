import LambdaOnOpenStack.Registry.Listener
import LambdaOnOpenStack.Support.Runs

/-!
# Runs of complete requests

A request of the web interface and the delivery of an event to the listener
are programs; here each of them runs to its end before the next one starts.
An event whose dispatch raises keeps the effects it had until then.
-/

namespace LambdaOnOpenStack

open Support

inductive Request where
  | fileupload (username : Value) (filename : String) (content : Bytes)
  | post (body : Body)
  | put (body : Body)
  | delete (uname filename : String)
  | list (uname : String)
  | one (uname fname : String)
  | event (params : Value)
  deriving DecidableEq

def Request.handler (P : Platform) : Request → Handler Reply
  | .fileupload username filename content =>
      postFileupload P username filename content
  | .post body => postLambda P body
  | .put body => putLambda P body
  | .delete uname filename => deleteLambda uname filename
  | .list uname => getList uname
  | .one uname fname => getOne uname fname
  | .event params => do
      createEnvironment P params
      return .nothing

/-- The world after one complete request. -/
def exec (P : Platform) (w : World) (request : Request) : World :=
  ((request.handler P).run w).2

/-- Reachable from an empty database by complete requests. -/
def Reachable (P : Platform) (w : World) : Prop :=
  ∃ requests, runAll (exec P) {} requests = w

/-! ## Sample requests -/

/-- A registration for the event source `S1`. -/
def Body.sample (user filename : String) : Body where
  FileName := .str filename
  UserName := .str user
  EventType := .str "FilexxxxCreate"
  EventSource := .str "S1"
  Memory := .str "256"
  Environment := .str "python"

/-- The payload that `begin_queing` sends, for any user and file. -/
def samplePayload (user filename : String) : Value :=
  .obj
    [("event_data", .obj
      [("type", .str "FilexxxxCreate"), ("metadata_type", .str "filename"),
        ("filename", .str filename)]),
      ("user_name", .str user), ("event_source", .str "S1")]

/-- The world after one upload and its registration. -/
def oneFunction : World :=
  runAll (exec default) {}
    [.fileupload (.str "testUser") "test.py" [112, 97, 115, 115],
      .post (.sample "testUser" "test.py")]

theorem oneFunction_reachable : Reachable default oneFunction := ⟨_, rfl⟩

/-- The world after a second upload of the user and its registration. -/
def twoFunctions : World :=
  runAll (exec default) oneFunction
    [.fileupload (.str "testUser") "sum.py" [112, 114, 105, 110, 116],
      .post (.sample "testUser" "sum.py")]

/-- The world after the first run of the function. -/
def oneRun : World :=
  exec default oneFunction (.event (samplePayload "testUser" "test.py"))

end LambdaOnOpenStack
