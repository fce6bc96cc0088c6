import LambdaOnOpenStack.Registry.Messages
import LambdaOnOpenStack.Values.EventReading

/-!
# The event source

A service creates a file and fires an event for it.  The orchestrator builds a
payload for the event, but queues another one, which is a fixed text: neither
the name of the file nor anything else of the event reaches the queue.
-/

namespace LambdaOnOpenStack

open Support Program

/-! ## The host -/

/-- What the event source finds on its host. -/
structure SourceHost where
  table : CharacterTable
  /-- The directory in which the service is started. -/
  pwd : String
  /-- `File.open(path, "w")` succeeds. -/
  opens : String → Bool
  /-- A connection to the broker of the queue can be opened. -/
  connects : Bool

instance : Inhabited SourceHost where
  default :=
    { table := default
      pwd := "/home/ubuntu/Lambda-on-OpenStack/EventSource/EventServices"
      opens := fun _ => true
      connects := true }

inductive SourceFailure where
  | systemCallError (path : String)
  | parserError
  | tcpConnectionFailed
  deriving DecidableEq

/-- What the event source has written to files, and published to the queue. -/
structure SourceOutput where
  written : List (String × String) := []
  sent : List Bytes := []
  deriving DecidableEq

abbrev SourceProgram := Program SourceOutput SourceFailure

/-! ## EventDispatcher.rb -/

def utf8 (text : List Char) : Bytes := text.flatMap String.utf8EncodeChar

def sendEvent (H : SourceHost) (payload : List Char) : SourceProgram Unit :=
  if H.connects then
    .modify fun out => { out with sent := out.sent ++ [utf8 payload] }
  else .raised .tcpConnectionFailed

/-! ## EventOrchestrator.rb -/

/-- `JSON.parse(p)` for a text without numbers. -/
def parse (p : String) : Except SourceFailure Value :=
  match Json.loads (fun _ => .null) p.toList with
  | some data => .ok data
  | none => .error .parserError

/-- The text that `create_payload` parses. -/
def payloadText : String :=
  "\x7b \n\t\t\t    \"event_data\":\x7b \"type\":\"FileCreate\", " ++
    "\"metadata_type\":\"filename\", \"filename\":\"sum.py\"\x7d, \n" ++
    "\t\t\t    \"user_name\":\"ashrith\", \n" ++
    "\t\t\t    \"event_source\":\"S1\"\x7d"

/-- The text that `begin_queing` parses. -/
def queuedText : String :=
  "\x7b\n                            \"event_data\":\x7b " ++
    "\"type\":\"FilexxxxCreate\", \"metadata_type\":\"filename\", " ++
    "\"filename\":\"test.py\"\x7d,\n                            " ++
    "\"user_name\":\"testUser\",\n                            " ++
    "\"event_source\":\"S1\"\x7d"

/-- The hash that is filled for `varargs` is replaced by the parsed one. -/
def createPayload (H : SourceHost) (_args : String) (_varargs : List Value) :
    Except SourceFailure (List Char) := do
  let data ← parse payloadText
  return Ruby.inspect H.table data

/-- The payload that is created is not the one that is sent. -/
def beginQueing (H : SourceHost) (args : String) (varargs : List Value) :
    SourceProgram Unit := do
  let _payload ← .ofExcept (createPayload H args varargs)
  let data ← .ofExcept (parse queuedText)
  sendEvent H (Ruby.inspect H.table data)

/-! ## EventFire.rb -/

/-- The rest of the arguments becomes one argument. -/
def createEvent (H : SourceHost) (args : String) (varargs : List Value) :
    SourceProgram Unit :=
  beginQueing H args [.arr varargs]

/-! ## FileCreateService.rb -/

def createFileEvent (H : SourceHost) (name : String) : SourceProgram Unit :=
  createEvent H name []

/-- `location + "/" + name`, with the default location for an empty one. -/
def createdPath (H : SourceHost) (name location : String) : String :=
  (if location.length = 0 then H.pwd else location) ++ "/" ++ name

def createFile (H : SourceHost) (name location : String) : SourceProgram Unit :=
  let path := createdPath H name location
  if H.opens path then do
    .modify fun out =>
      { out with
        written := out.written ++ [(path, "This file is newly created at ")] }
    createFileEvent H name
  else .raised (.systemCallError path)

/-! ## What is queued -/

/-- What Ruby writes for ASCII text does not depend on its tables. -/
theorem inspectString_ascii (T : CharacterTable) {s : List Char}
    (hs : s.all (fun c => c.toNat < 127) = true) :
    Ruby.inspectString T s = Ruby.inspectString default s := by
  have hchars : Ruby.inspectChars T s = Ruby.inspectChars default s := by
    induction s with
    | nil => rfl
    | cons c rest ih =>
        obtain ⟨hc, hrest⟩ := Bool.and_eq_true_iff.mp hs
        replace hc : c.toNat < 127 := of_decide_eq_true hc
        have hprint : T.isprint c = (default : CharacterTable).isprint c := by
          rw [Bool.eq_iff_iff, T.ascii c hc, CharacterTable.ascii _ c hc]
        rw [Ruby.inspectChars, Ruby.inspectChars, ih hrest, Ruby.inspectChar,
          Ruby.inspectChar, hprint]
  rw [Ruby.inspectString, Ruby.inspectString, hchars]

theorem parse_queuedText :
    parse queuedText = .ok (samplePayload "testUser" "test.py") := by
  decide +kernel

theorem createPayload_ok (H : SourceHost) (args : String) (varargs : List Value) :
    ∃ payload, createPayload H args varargs = .ok payload := by
  have hparse : (parse payloadText).isOk = true := by decide +kernel
  rw [createPayload]
  cases hdata : parse payloadText with
  | ok data => exact ⟨_, rfl⟩
  | error x => simp [hdata, Except.isOk, Except.toBool] at hparse

theorem utf8_inspect_payload (T : CharacterTable) :
    utf8 (Ruby.inspect T (samplePayload "testUser" "test.py")) =
      sampleBody "S1" := by
  have hdefault : utf8 (Ruby.inspect default (samplePayload "testUser" "test.py")) =
      sampleBody "S1" := by decide +kernel
  rw [← hdefault]
  simp only [samplePayload, Ruby.inspect, Ruby.inspectFields]
  repeat rw [inspectString_ascii T (by decide)]

/-- Whatever the event is, the same body is published. -/
theorem createEvent_eq (H : SourceHost) (args : String) (varargs : List Value) :
    createEvent H args varargs =
      if H.connects then
        .modify fun out => { out with sent := out.sent ++ [sampleBody "S1"] }
      else .raised .tcpConnectionFailed := by
  obtain ⟨payload, hpayload⟩ := createPayload_ok H args [.arr varargs]
  rw [createEvent, beginQueing, hpayload, parse_queuedText]
  simp only [ofExcept_ok, done_bind, sendEvent, utf8_inspect_payload]

/-- A file is created before its event is published, and whatever its name, the
event is the same. -/
theorem run_createFile (H : SourceHost) (name location : String)
    (out : SourceOutput) :
    let path := createdPath H name location
    let written := out.written ++ [(path, "This file is newly created at ")]
    (createFile H name location).run out =
      if H.opens path then
        if H.connects then
          (.ok (), { written := written, sent := out.sent ++ [sampleBody "S1"] })
        else (.error .tcpConnectionFailed, { out with written := written })
      else (.error (.systemCallError path), out) := by
  intro path written
  rw [createFile]
  by_cases hopens : H.opens path = true
  · by_cases hconnects : H.connects = true
    · simp [hopens, hconnects, createFileEvent, createEvent_eq, path, written]
    · simp [hopens, hconnects, createFileEvent, createEvent_eq, path, written]
  · simp [hopens, path]

/-- What is published for a file. -/
def eventsFor (H : SourceHost) (name location : String) : List Bytes :=
  ((createFile H name location).run {}).2.sent

theorem eq_of_mem_eventsFor {H : SourceHost} {name location : String}
    {body : Bytes} (hbody : body ∈ eventsFor H name location) :
    body = sampleBody "S1" := by
  rw [eventsFor, run_createFile] at hbody
  split at hbody
  · split at hbody
    · simpa using hbody
    · simp at hbody
  · simp at hbody

theorem sampleBody_mem_eventsFor {H : SourceHost} {name location : String}
    (hopens : H.opens (createdPath H name location) = true)
    (hconnects : H.connects = true) :
    sampleBody "S1" ∈ eventsFor H name location := by
  rw [eventsFor, run_createFile, if_pos hopens, if_pos hconnects]
  exact List.mem_singleton_self _

/-! ## What the listener reads -/

/-- `json.loads` reads ASCII text as JSON. -/
def ReadsAscii (loads : Bytes → Except Failure Value) : Prop :=
  ∃ number, ∀ (text : List Char) (v : Value), (∀ c ∈ text, c.toNat < 128) →
    Json.loads number text = some v →
      loads (text.map fun c => UInt8.ofNat c.toNat) = .ok v

theorem readsAscii_asciiLoads : ReadsAscii asciiLoads := by
  refine ⟨fun _ => .null, ?_⟩
  intro text v hascii hread
  have htext : (text.map fun c => UInt8.ofNat c.toNat).map
      (fun b => Char.ofNat b.toNat) = text := by
    conv_rhs => rw [← List.map_id text]
    rw [List.map_map]
    refine List.map_congr_left fun c hc => ?_
    have hbyte : (UInt8.ofNat c.toNat).toNat = c.toNat := by
      rw [UInt8.toNat_ofNat', Nat.mod_eq_of_lt]
      have := hascii c hc
      omega
    simp [hbyte]
  simp only [asciiLoads, htext, hread]

def queuedEvent : EventHash where
  fields := [("event_data", .obj
      [("type", .str "FilexxxxCreate"), ("metadata_type", .str "filename"),
        ("filename", .str "test.py")]),
      ("user_name", .str "testUser"), ("event_source", .str "S1")]
  valid := by
    refine .obj (by decide) ?_
    intro k v hmem
    simp only [List.mem_cons, Prod.mk.injEq, List.not_mem_nil, or_false] at hmem
    rcases hmem with ⟨-, rfl⟩ | ⟨-, rfl⟩ | ⟨-, rfl⟩
    · refine .obj (by decide) ?_
      intro k v hmem
      simp only [List.mem_cons, Prod.mk.injEq, List.not_mem_nil, or_false] at hmem
      rcases hmem with ⟨-, rfl⟩ | ⟨-, rfl⟩ | ⟨-, rfl⟩ <;> exact .str _
    · exact .str _
    · exact .str _

/-- The listener reads the event that `begin_queing` has written. -/
theorem loads_sampleBody {loads : Bytes → Except Failure Value}
    (hloads : ReadsAscii loads) :
    loads (replaceArrows (sampleBody "S1")) =
      .ok (samplePayload "testUser" "test.py") := by
  obtain ⟨number, hreads⟩ := hloads
  have hdecode : decodeBody number (queuedEvent.encode default) =
      some (samplePayload "testUser" "test.py") := by
    rw [decodeBody_encode, if_pos (by decide +kernel)]
    exact congrArg some (by decide +kernel)
  have hbody : replaceArrows (sampleBody "S1") =
      (replacePair '=' '>' ':' (queuedEvent.encode default)).map
        fun c => UInt8.ofNat c.toNat := by decide +kernel
  have hascii : (replacePair '=' '>' ':' (queuedEvent.encode default)).all
      (fun c => c.toNat < 128) = true := by decide +kernel
  rw [hbody]
  refine hreads _ _ (fun c hc => ?_) hdecode
  exact of_decide_eq_true (List.all_eq_true.mp hascii c hc)

end LambdaOnOpenStack
