import LambdaOnOpenStack.Registry.GridFS
import LambdaOnOpenStack.Support.Collection

/-!
# The web interface

The handlers of `UserInterface/lambda.rb`, one atomic step for each operation
on the database.  Every query for a user or a file interpolates the value to
text first, whereas `POST /lambda` stores the values of its body as they are.
-/

namespace LambdaOnOpenStack

open Support

/-! ## Queries -/

namespace MappingDoc

/-- Matched by a query for this `username`. -/
def hasUser (u : String) (d : MappingDoc) : Bool := d.username.holdsText u

/-- Matched by a query for this `username` and `filename`. -/
def hasKey (u f : String) (d : MappingDoc) : Bool :=
  d.username.holdsText u && d.filename.holdsText f

end MappingDoc

/-- Matched by a query for this `metadata` and `filename`. -/
def FileDoc.hasKey (u f : String) (d : FileDoc) : Bool :=
  d.metadata = u && d.filename = f

namespace Registry

def deleteMapping (_id : ObjectId) (r : Registry) : Registry :=
  { r with mapping := r.mapping.eraseP fun d => d._id = _id }

def deleteFile (_id : ObjectId) (r : Registry) : Registry :=
  { r with files := r.files.eraseP fun f => f._id = _id }

def deleteChunk (files_id : ObjectId) (r : Registry) : Registry :=
  { r with chunks := r.chunks.eraseP fun c => c.files_id = files_id }

end Registry

/-- `insert_one` into `mapping`; the unique index on `_id` refuses a second
document with the same one. -/
def insertMapping (d : MappingDoc) : Handler Unit :=
  .atomic
    (World.onRegistry fun r =>
      if r.mapping.any (fun e => e._id = d._id) then r
      else { r with mapping := r.mapping ++ [d] })
    fun w =>
      if w.registry.mapping.any (fun e => e._id = d._id) then
        .raised (.duplicateKey d._id)
      else .done ()

/-! ## Requests and replies -/

/-- The fields that `POST` and `PUT /lambda` take from a JSON body; an absent
one is `nil`. -/
structure Body where
  FileName : Value
  UserName : Value
  EventType : Value
  EventSource : Value
  Memory : Value
  Environment : Value
  deriving DecidableEq

namespace Body

variable (P : Platform)

/-- The documents that the queries of `POST` and `PUT` match. -/
def hasKey (body : Body) (d : MappingDoc) : Bool :=
  d.hasKey (Ruby.toText P.table body.UserName)
    (Ruby.toText P.table body.FileName)

/-- The files that the query of `POST` matches. -/
def hasFile (body : Body) (f : FileDoc) : Bool :=
  f.hasKey (Ruby.toText P.table body.UserName)
    (Ruby.toText P.table body.FileName)

end Body

inductive Reply where
  | text (message : String)
  | documents (found : List MappingDoc)
  | document (found : Option MappingDoc)
  | created
  | nothing
  deriving DecidableEq

/-! ## Handlers -/

/-- `get "/lambda/:UserName"`. -/
def getList (uname : String) : Handler Reply := do
  let a ← .ask fun w => w.registry.mapping.filter (·.hasUser uname)
  if a = [] then return .text "No functions listed"
  else return .documents a

/-- `get "/lambda/:UserName/:FileName"`. -/
def getOne (uname fname : String) : Handler Reply := do
  let found ← .ask fun w => w.registry.mapping.filter (·.hasKey uname fname)
  return .document found.head?

/-- `delete "/lambda/:UserName/:FileName"`.  The `return` inside the loop
leaves it after the first document. -/
def deleteLambda (uname filename : String) : Handler Reply := do
  let found ← .ask fun w => w.registry.mapping.filter (·.hasKey uname filename)
  match found with
  | [] => return .nothing
  | document :: _ => do
      Program.modify (World.onRegistry (Registry.deleteFile document._id))
      Program.modify (World.onRegistry (Registry.deleteChunk document._id))
      Program.modify (World.onRegistry (Registry.deleteMapping document._id))
      return .text "Function Deleted!"

/-- The registration that `POST /lambda` inserts for a file. -/
def Body.registration (body : Body) (document : FileDoc) : MappingDoc where
  _id := document._id
  filename := body.FileName
  username := body.UserName
  eventType := body.EventType
  eventsource := body.EventSource
  memory := body.Memory
  environment := some body.Environment
  sequence_count := 0
  log_uuid := none

/-- `post "/lambda"`. -/
def postLambda (P : Platform) (body : Body) : Handler Reply := do
  let n ← .ask fun w => w.registry.mapping.countP (body.hasKey P)
  if n > 0 then return .text "Duplicate Function. Please retry"
  else do
    let c ← .ask fun w => w.registry.files.countP (body.hasFile P)
    if c = 0 then
      return .text
        "No function found for this data. Please upload function first."
    else do
      let found ← .ask fun w => w.registry.files.filter (body.hasFile P)
      Program.forEach
        (fun document => insertMapping (body.registration document)) found
      return .created

/-- One `find_one_and_replace` with `$set`, and the document after it. -/
def setFirst (P : Platform) (body : Body) (set : MappingDoc → MappingDoc) :
    Handler (Option MappingDoc) :=
  .atomic
    (World.onRegistry fun r =>
      { r with mapping := updateFirst (body.hasKey P) set r.mapping })
    fun w => .done ((w.registry.mapping.find? (body.hasKey P)).map set)

/-- Set one field if the body has it; otherwise `doc` stays what it was. -/
def putField (P : Platform) (body : Body) (value : Value)
    (set : Value → MappingDoc → MappingDoc) (doc : Option MappingDoc) :
    Handler (Option MappingDoc) :=
  if value ≠ .null then
    setFirst P body (set (.str (Ruby.toText P.table value)))
  else .done doc

def MappingDoc.setEventType (v : Value) (d : MappingDoc) : MappingDoc :=
  { d with eventType := v }

def MappingDoc.setEventSource (v : Value) (d : MappingDoc) : MappingDoc :=
  { d with eventsource := v }

def MappingDoc.setMemory (v : Value) (d : MappingDoc) : MappingDoc :=
  { d with memory := v }

def MappingDoc.setEnvironment (v : Value) (d : MappingDoc) : MappingDoc :=
  { d with environment := some v }

def putEventType (P : Platform) (body : Body) :=
  putField P body body.EventType MappingDoc.setEventType

def putEventSource (P : Platform) (body : Body) :=
  putField P body body.EventSource MappingDoc.setEventSource

def putMemory (P : Platform) (body : Body) :=
  putField P body body.Memory MappingDoc.setMemory

def putEnvironment (P : Platform) (body : Body) :=
  putField P body body.Environment MappingDoc.setEnvironment

/-- `put "/lambda"`. -/
def putLambda (P : Platform) (body : Body) : Handler Reply := do
  let n ← .ask fun w => w.registry.mapping.countP (body.hasKey P)
  if n > 0 then do
    let doc ← putEventType P body none
    let doc ← putEventSource P body doc
    let doc ← putMemory P body doc
    let doc ← putEnvironment P body doc
    return .document doc
  else return .nothing

/-- `post "/lambda/fileupload"`. -/
def postFileupload (P : Platform) (username : Value) (filename : String)
    (content : Bytes) : Handler Reply := do
  let metadata := Ruby.toText P.table username
  let n ← .ask fun w => w.registry.files.countP (·.hasKey metadata filename)
  if n > 0 then return .text "Duplicate Function. Please retry"
  else do
    uploadFromStream P filename content metadata
    return .created

end LambdaOnOpenStack
