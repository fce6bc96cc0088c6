import LambdaOnOpenStack.Registry.WebApi
import Mathlib.Data.List.MinMax

/-!
# The listener

What happens to an event once the queue has delivered it: `Database.py` picks
records and writes the uploaded code to the host, `orchestratorModule.py`
dispatches, `deploy_and_execute_docker` of `Provision.py` starts a worker.

A cursor of the driver is lazy, so every `result[0]` and every `record[0]` is
a query of its own and therefore a step of its own here.
-/

namespace LambdaOnOpenStack

open Support

/-! ## Database.py -/

namespace Registry

/-- The first document of a user, in insertion order. -/
def firstRecord (P : Platform) (r : Registry) (user : Value) :
    Option MappingDoc :=
  r.mapping.find? fun d => P.answers user d.username

/-- The documents that `__findLatestRecord` sorts. -/
def recordsOf (P : Platform) (r : Registry)
    (user functionName eventSource : Value) : List MappingDoc :=
  r.mapping.filter fun d =>
    P.answers user d.username && P.answers functionName d.filename &&
      P.answers eventSource d.eventsource

/-- The one with the greatest `_id`. -/
def latestRecord (P : Platform) (r : Registry)
    (user functionName eventSource : Value) : Option MappingDoc :=
  (r.recordsOf P user functionName eventSource).argmax (·._id)

end Registry

/-- `findData(user, functionName, eventSource).count()`. -/
def resultCount (P : Platform) (user : Value) : Handler ℕ :=
  .atomic id fun w =>
    if P.refuses user then .raised .operationFailure
    else .done (w.registry.mapping.countP fun d => P.answers user d.username)

/-- `result[0]` for the cursor that `findData` returned. -/
def resultAt (P : Platform) (user : Value) : Handler MappingDoc :=
  .atomic id fun w =>
    if P.refuses user then .raised .operationFailure
    else match w.registry.firstRecord P user with
      | none => .raised .indexError
      | some d => .done d

/-- `record[0]` for the cursor that `__findLatestRecord` returned. -/
def recordAt (P : Platform) (user functionName eventSource : Value) :
    Handler MappingDoc :=
  .atomic id fun w =>
    if P.refuses user || P.refuses functionName || P.refuses eventSource then
      .raised .operationFailure
    else match w.registry.latestRecord P user functionName eventSource with
      | none => .raised .indexError
      | some d => .done d

/-- The path that `writeFile` opens. -/
def hostPath (functionName : String) : String := "/home/ubuntu/" ++ functionName

def hostOp (op : HostOp) : Handler Unit :=
  .modify fun w => { w with host := w.host ++ [op] }

/-- `text + value` for a text `text`. -/
def concatText : Value → Except Failure String
  | .str s => .ok s
  | _ => .error .typeError

def writeFile (P : Platform) (objId : ObjectId) (functionName : Value) :
    Handler Unit := do
  let name ← .ofExcept (concatText functionName)
  let fileName := hostPath name
  if P.opens fileName then do
    hostOp (.truncate fileName)
    let content ← readFile objId
    hostOp (.write fileName content)
  else .raised (.ioError fileName)

/-- A run record as it stands in `mapping`. -/
def RunRecord.document (record : RunRecord) (_id : ObjectId) : MappingDoc where
  _id := _id
  filename := record.filename
  username := record.username
  eventType := record.eventType
  eventsource := record.eventsource
  memory := record.memory
  environment := none
  sequence_count := record.sequence_count
  log_uuid := some record.log_uuid

/-- `insert_one` of a document without `_id`.  The driver adds a fresh one, so
the unique index has nothing to refuse. -/
def insertRecord (P : Platform) (record : RunRecord) : Handler Unit :=
  .modify fun w =>
    { w with
      inserted := w.inserted ++ [record]
      registry :=
        { w.registry with
          issued := w.registry.issued + 1
          mapping := w.registry.mapping ++
            [record.document (P.newId w.registry.issued)] } }

def updateSequenceCount (P : Platform)
    (user functionName eventSource : Value) (log_uuid : String) :
    Handler Unit := do
  let record := recordAt P user functionName eventSource
  let _ ← record
  let updated_sequence_count ← do
    if (← record).sequence_count > 0 then
      pure ((← record).sequence_count + 1)
    else pure 1
  let filename := (← record).filename
  let username := (← record).username
  let eventType := (← record).eventType
  let eventsource := (← record).eventsource
  let memory := (← record).memory
  insertRecord P
    { filename := filename
      username := username
      eventType := eventType
      eventsource := eventsource
      memory := memory
      sequence_count := updated_sequence_count
      log_uuid := log_uuid }

/-! ## Provision.py -/

/-- `deploy_and_execute_docker`.  The thread runs `__execute_lambda`. -/
def deployAndExecuteDocker (P : Platform) (request : DeployRequest)
    (log_uuid : String) : Handler Unit := do
  Program.modify fun w =>
    { w with deployed := w.deployed ++ [(request, log_uuid)] }
  let fileName ← .ofExcept (concatText request.function_name)
  let line := "file::" ++ fileName
  if P.prints line then
    Program.modify fun w =>
      { w with
        workers := w.workers ++
          [{ fileName := request.function_name
             log_uuid := log_uuid
             memory := request.memory }] }
  else .raised (.unicodeEncodeError line)

/-! ## orchestratorModule.py -/

/-- Python 2's `value >= bound`: any text or container is greater than every
number, and `None` is smaller. -/
def Value.atLeast (bound : ℕ) : Value → Bool
  | .null => false
  | .bool b => bound ≤ (if b then 1 else 0)
  | .int n => (bound : ℤ) ≤ n
  | .float negative digits exponent =>
      if negative then bound = 0 && digits = 0
      else if 0 ≤ exponent then bound ≤ digits * 10 ^ exponent.toNat
      else bound * 10 ^ (-exponent).toNat ≤ digits
  | .nonFinite constant => constant = "Infinity"
  | .str _ | .arr _ | .obj _ => true

def getFlavourName (memory : Value) : String :=
  if memory.atLeast 1000 then "m1.medium" else "m1.small"

def getUuid (P : Platform) : Handler String :=
  .atomic (fun w => { w with uuids := w.uuids + 1 })
    fun w => .done (P.newUuid w.uuids)

/-- `value[key]`. -/
def getItem (key : String) : Value → Except Failure Value
  | .obj fields =>
      match Value.lookup key fields with
      | some v => .ok v
      | none => .error (.keyError key)
  | _ => .error .typeError

/-- The parts of a payload that `createEnvironment` uses. -/
structure Event where
  filename : Value
  event_source : Value
  user_name : Value
  deriving DecidableEq

/-- The key lookups at the head of `createEnvironment`. -/
def readEvent (params : Value) : Except Failure Event := do
  let event_data ← getItem "event_data" params
  let _eventType ← getItem "type" event_data
  let functionName ← getItem "filename" (← getItem "event_data" params)
  let eventSource ← getItem "event_source" params
  let username ← getItem "user_name" params
  return { filename := functionName, event_source := eventSource, user_name := username }

/-- The rest of `createEnvironment`. -/
def dispatch (P : Platform) (e : Event) : Handler Unit := do
  let imageName := "ubuntu-14.04"
  let serverName := "vm2"
  let network := "test-network"
  let count ← resultCount P e.user_name
  if count = 0 then return ()
  else do
    let filename := (← resultAt P e.user_name).filename
    let memory := (← resultAt P e.user_name).memory.orElse (.int 128)
    writeFile P (← resultAt P e.user_name)._id filename
    let log_uuid ← getUuid P
    updateSequenceCount P e.user_name e.filename e.event_source log_uuid
    let flavourName := getFlavourName memory
    Program.modify fun w =>
      { w with
        serverRequests := w.serverRequests ++
          [{ username := e.user_name
             image_name := imageName
             network_name := network
             server_name := serverName
             flavor_name := flavourName }] }
    deployAndExecuteDocker P
      { server_name := serverName
        network_name := network
        username := e.user_name
        function_name := filename
        memory := memory } log_uuid

def createEnvironment (P : Platform) (params : Value) : Handler Unit := do
  let e ← .ofExcept (readEvent params)
  dispatch P e

end LambdaOnOpenStack
