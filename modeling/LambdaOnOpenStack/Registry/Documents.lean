import LambdaOnOpenStack.Support.Program
import LambdaOnOpenStack.Values.RubyText
import Mathlib.Logic.Function.Basic
import Mathlib.Data.Finset.Defs

/-!
# Documents, the registry and the world around it

The web interface and the listener share one database with three collections:
`mapping` holds registrations and run records side by side, `fs.files` and
`fs.chunks` hold the uploaded code.  A collection is the list of its documents
in the order in which `find` enumerates them.

`Platform` gathers what the code is handed by software that is not part of the
repository: fresh identifiers, the chunk size of the GridFS driver, the answer
of the server to a query value that is not text, and what the host's file
system and terminal accept.
-/

namespace LambdaOnOpenStack

open Support

/-- ObjectIds are compared as byte strings, hence as big-endian numbers. -/
abbrev ObjectId := ℕ

abbrev Bytes := List UInt8

/-! ## Documents -/

/-- A document of `mapping`.  `POST /lambda` inserts one with `environment`
and without `log_uuid`; `updateSequenceCount` does the opposite. -/
structure MappingDoc where
  _id : ObjectId
  filename : Value
  username : Value
  eventType : Value
  eventsource : Value
  memory : Value
  environment : Option Value
  sequence_count : ℕ
  log_uuid : Option String
  deriving DecidableEq

namespace MappingDoc

/-- Inserted by `POST /lambda`. -/
def isRegistration (d : MappingDoc) : Bool := d.log_uuid.isNone

/-- Inserted by `updateSequenceCount`. -/
def isRunRecord (d : MappingDoc) : Bool := d.log_uuid.isSome

theorem isRunRecord_eq_not (d : MappingDoc) :
    d.isRunRecord = !d.isRegistration := by
  simp [isRunRecord, isRegistration]

end MappingDoc

structure FileDoc where
  _id : ObjectId
  filename : String
  metadata : String
  length : ℕ
  chunkSize : ℕ
  deriving DecidableEq

/-- A chunk of a file is never empty: an upload cuts its content into full
chunks and one nonempty rest. -/
structure ChunkDoc where
  files_id : ObjectId
  n : ℕ
  data : Bytes
  nonempty : data ≠ []
  deriving DecidableEq

/-! ## Errors -/

/-- The exceptions of the Python service and of the Ruby handlers. -/
inductive Failure where
  | jsonDecodeError
  | keyError (key : String)
  | typeError
  | indexError
  | ioError (path : String)
  | unicodeEncodeError (text : String)
  | noFile (_id : ObjectId)
  | corruptGridFile (chunk_number : ℕ)
  | operationFailure
  | duplicateKey (_id : ObjectId)
  deriving DecidableEq

/-! ## State -/

/-- The database.  `issued` counts the identifiers handed out so far, and
`uploads` is a history variable: the content of every completed upload. -/
structure Registry where
  mapping : List MappingDoc := []
  files : List FileDoc := []
  chunks : List ChunkDoc := []
  issued : ℕ := 0
  uploads : List (ObjectId × Bytes) := []
  deriving DecidableEq

/-- What `writeFile` does to the files of the listener's host. -/
inductive HostOp where
  | truncate (path : String)
  | write (path : String) (content : Bytes)
  deriving DecidableEq

/-- `deploy_request_obj` of `createEnvironment`. -/
structure DeployRequest where
  server_name : String
  network_name : String
  username : Value
  function_name : Value
  memory : Value
  deriving DecidableEq

/-- `server_request_object` of `createEnvironment`. -/
structure ServerRequest where
  username : Value
  image_name : String
  network_name : String
  server_name : String
  flavor_name : String
  deriving DecidableEq

/-- The arguments of a thread that runs `__execute_lambda`. -/
structure WorkerArgs where
  fileName : Value
  log_uuid : String
  memory : Value
  deriving DecidableEq

/-- The document that `updateSequenceCount` passes to `insert_one`. -/
structure RunRecord where
  filename : Value
  username : Value
  eventType : Value
  eventsource : Value
  memory : Value
  sequence_count : ℕ
  log_uuid : String
  deriving DecidableEq

/-- The database and the listener's process: the operations on host files, the
records inserted, the request objects built, the calls of
`deploy_and_execute_docker` and the threads started, each in order. -/
structure World where
  registry : Registry := {}
  host : List HostOp := []
  uuids : ℕ := 0
  inserted : List RunRecord := []
  serverRequests : List ServerRequest := []
  deployed : List (DeployRequest × String) := []
  workers : List WorkerArgs := []
  deriving DecidableEq

/-- A handler of the web interface or of the listener. -/
abbrev Handler := Program World Failure

/-! ## The platform -/

structure Platform where
  /-- The `k`-th ObjectId generated. -/
  newId : ℕ → ObjectId
  newId_injective : Function.Injective newId
  /-- The `k`-th value of `uuid.uuid4()`. -/
  newUuid : ℕ → String
  chunkSize : ℕ
  chunkSize_pos : 0 < chunkSize
  table : CharacterTable
  /-- The server refuses a query with this value, which is not text. -/
  rejects : Value → Bool
  /-- The server's comparison of a query value that is not text with a stored
  value. -/
  sameValue : Value → Value → Bool
  /-- `open(path, 'w+')` succeeds. -/
  opens : String → Bool
  /-- The encoding of standard output has the characters of this text. -/
  prints : String → Bool

/-- A platform in the plain ASCII locale, with the chunk size of the driver. -/
instance : Inhabited Platform where
  default :=
    { newId := fun k => k
      newId_injective := fun _ _ h => h
      newUuid := fun k =>
        let digits := Nat.toDigits 10 k
        String.ofList ("00000000-0000-4000-8000-".toList ++
          List.replicate (12 - digits.length) '0' ++ digits)
      chunkSize := 261120
      chunkSize_pos := by decide
      table := default
      rejects := fun v =>
        match v with
        | .obj fields => fields.any fun field => field.1.toList.head? = some '$'
        | _ => false
      sameValue := fun query stored =>
        match stored with
        | .arr items => stored = query || items.any (· = query)
        | _ => stored = query
      opens := fun path => path ≠ "/home/ubuntu/"
      prints := fun text => text.toList.all fun c => c.toNat < 128 }

/-- A text query matches a field that holds the text or an array with it. -/
def Value.holdsText (s : String) : Value → Bool
  | .str t => t = s
  | .arr items => items.any fun v => v = .str s
  | _ => false

@[simp] theorem Value.holdsText_str (s t : String) :
    (Value.str t).holdsText s = true ↔ t = s := by
  simp [Value.holdsText]

namespace Platform

variable (P : Platform)

/-- The server finds `stored` when asked for `query`. -/
def answers (query stored : Value) : Bool :=
  match query with
  | .str s => stored.holdsText s
  | query => P.sameValue query stored

/-- The server fails a query with the value `query`. -/
def refuses (query : Value) : Bool :=
  match query with
  | .str _ => false
  | query => P.rejects query

@[simp] theorem answers_str (s : String) (stored : Value) :
    P.answers (.str s) stored = stored.holdsText s := rfl

@[simp] theorem refuses_str (s : String) : P.refuses (.str s) = false := rfl

end Platform

end LambdaOnOpenStack
