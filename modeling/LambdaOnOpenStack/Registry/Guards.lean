import LambdaOnOpenStack.Registry.Footprint
import LambdaOnOpenStack.Registry.TextNames
import LambdaOnOpenStack.Support.Resources

/-!
# What a request counts, and what it inserts

`POST /lambda/fileupload` and `POST /lambda` count what is there for a user and
a file name, and go on if there is nothing.  Here is what each step of a web
request does to the names and the identifiers in the database, and what the
request holds on to until its next step.
-/

namespace LambdaOnOpenStack

open Support Program

namespace Registry

/-- The key of every stored file. -/
def fileKeys (r : Registry) : List (String × String) :=
  r.files.map fun f => (f.metadata, f.filename)

/-- The key of every registration. -/
def registrationKeys (r : Registry) : List (Value × Value) :=
  (r.mapping.filter (·.isRegistration)).map fun d => (d.username, d.filename)

/-- At most one file and at most one registration for each user and name. -/
structure UniqueNames (r : Registry) : Prop where
  files : r.fileKeys.Nodup
  registrations : r.registrationKeys.Nodup

end Registry

/-! ## What a request counts -/

/-- The count that a request makes before it inserts. -/
inductive Guard where
  | files (metadata filename : String)
  | registrations (username filename : String)
  deriving DecidableEq

namespace Guard

def count (r : Registry) : Guard → ℕ
  | files metadata filename => r.files.countP (·.hasKey metadata filename)
  | registrations username filename =>
      r.mapping.countP (·.hasKey username filename)

/-- What would be counted is not there. -/
def Free (r : Registry) : Guard → Prop
  | files metadata filename => (metadata, filename) ∉ r.fileKeys
  | registrations username filename =>
      (Value.str username, Value.str filename) ∉ r.registrationKeys

theorem free_of_count {r : Registry} {g : Guard} (h : g.count r = 0) :
    g.Free r := by
  cases g with
  | files metadata filename =>
      intro hmem
      obtain ⟨f, hf, hkey⟩ := List.mem_map.mp hmem
      obtain ⟨hmetadata, hfilename⟩ := Prod.mk.inj hkey
      have hnot := List.countP_eq_zero.mp h f hf
      simp [FileDoc.hasKey, hmetadata, hfilename] at hnot
  | registrations username filename =>
      intro hmem
      obtain ⟨d, hd, hkey⟩ := List.mem_map.mp hmem
      obtain ⟨husername, hfilename⟩ := Prod.mk.inj hkey
      have hnot := List.countP_eq_zero.mp h d (List.mem_of_mem_filter hd)
      simp [MappingDoc.hasKey, husername, hfilename] at hnot

theorem Free.mono {r r' : Registry} {g : Guard} (h : g.Free r)
    (hfiles : r'.fileKeys ⊆ r.fileKeys)
    (hregistrations : r'.registrationKeys ⊆ r.registrationKeys) : g.Free r' := by
  cases g with
  | files metadata filename => exact fun hmem => h (hfiles hmem)
  | registrations username filename => exact fun hmem => h (hregistrations hmem)

end Guard

/-- What `POST /lambda` counts for the names of the document. -/
def MappingDoc.guard (P : Platform) (d : MappingDoc) : Guard :=
  .registrations (Ruby.toText P.table d.username) (Ruby.toText P.table d.filename)

/-- The guard of a handler that inserts. -/
def Request.guard (P : Platform) : Request → Option Guard
  | .fileupload username filename _ =>
      some (.files (Ruby.toText P.table username) filename)
  | .post body =>
      some (.registrations (Ruby.toText P.table body.UserName)
        (Ruby.toText P.table body.FileName))
  | _ => none

/-! ## Names that are not text -/

/-- Some query for a text finds the value. -/
def Value.findable : Value → Bool
  | .str _ => true
  | .arr items => items.any (·.isText)
  | _ => false

theorem Value.findable_of_holdsText {v : Value} {s : String}
    (h : v.holdsText s = true) : v.findable = true := by
  cases v with
  | str t => rfl
  | arr items =>
      obtain ⟨item, hitem, hs⟩ := List.any_eq_true.mp h
      refine List.any_eq_true.mpr ⟨item, hitem, ?_⟩
      rw [of_decide_eq_true hs]
      rfl
  | _ => cases h

/-- If queries for texts can find the two names, they are texts. -/
def Body.plain (body : Body) : Bool :=
  !(body.UserName.findable && body.FileName.findable) || body.textual

namespace MappingDoc

/-- No query for two texts finds the document. -/
def Hidden (d : MappingDoc) : Prop := ∀ u f, d.hasKey u f = false

/-- Queries find the document for the texts that are its names, if at all. -/
def Plain (d : MappingDoc) : Prop := (∃ u f, d.Named u f) ∨ d.Hidden

theorem Plain.named {d : MappingDoc} (h : d.Plain) {u f : String}
    (hkey : d.hasKey u f = true) : ∃ u f, d.Named u f := by
  rcases h with hnamed | hhidden
  · exact hnamed
  · rw [hhidden] at hkey
    cases hkey

theorem Named.guard_eq {d : MappingDoc} {u f : String} (h : d.Named u f)
    (P : Platform) : d.guard P = .registrations u f := by
  rw [MappingDoc.guard, h.1, h.2]
  rfl

end MappingDoc

theorem Body.plain_registration {body : Body} (h : body.plain = true)
    (document : FileDoc) : (body.registration document).Plain := by
  rw [Body.plain, Bool.or_eq_true, Bool.not_eq_true'] at h
  rcases h with hhidden | htext
  · refine Or.inr fun u f => ?_
    by_contra hkey
    rw [Bool.not_eq_false, MappingDoc.hasKey, Bool.and_eq_true] at hkey
    have huser : body.UserName.findable = true := Value.findable_of_holdsText hkey.1
    have hname : body.FileName.findable = true := Value.findable_of_holdsText hkey.2
    simp [huser, hname] at hhidden
  · rw [Body.textual, Bool.and_eq_true, Value.isText_iff, Value.isText_iff] at htext
    obtain ⟨⟨u, hu⟩, ⟨f, hf⟩⟩ := htext
    exact Or.inl ⟨u, f, hu, hf⟩

/-! ## The names in the database -/

/-- The document without the fields that `PUT /lambda` sets. -/
def MappingDoc.bare (d : MappingDoc) : MappingDoc :=
  { d with
    eventType := .null
    eventsource := .null
    memory := .null
    environment := none }

/-- The database without the contents and without what `PUT /lambda` sets. -/
def Registry.names (r : Registry) : Registry where
  mapping := r.mapping.map (·.bare)
  files := r.files
  issued := r.issued

namespace Registry

theorem registrationKeys_names (r : Registry) :
    r.names.registrationKeys = r.registrationKeys := by
  rw [registrationKeys, names, List.filter_map, List.map_map]
  rfl

theorem uniqueNames_names_iff {r : Registry} :
    r.names.UniqueNames ↔ r.UniqueNames := by
  constructor
  · rintro ⟨hfiles, hregistrations⟩
    exact ⟨hfiles, registrationKeys_names r ▸ hregistrations⟩
  · rintro ⟨hfiles, hregistrations⟩
    exact ⟨hfiles, (registrationKeys_names r).symm ▸ hregistrations⟩

theorem count_names (r : Registry) (g : Guard) : g.count r.names = g.count r := by
  cases g with
  | files metadata filename => rfl
  | registrations username filename =>
      rw [Guard.count, names, List.countP_map]
      rfl

theorem names_updateKey {P : Platform} {body : Body}
    {set : MappingDoc → MappingDoc} (hset : ∀ d, (set d).bare = d.bare)
    (r : Registry) : (r.updateKey P body set).names = r.names := by
  simp only [names, updateKey, map_updateFirst hset]

theorem names_deleteMapping (r : Registry) (_id : ObjectId) :
    (r.deleteMapping _id).names = r.names.deleteMapping _id := by
  simp only [names, deleteMapping, List.eraseP_map]
  rfl

end Registry

/-! ## The steps of a request -/

/-- Where a web request is between its steps, and the identifier that it holds. -/
inductive Phase where
  | waiting
  | counted
  | uploading (_id : ObjectId)
  | registering (_id : ObjectId)
  | deleting (_id : ObjectId)
  | removing (_id : ObjectId)
  | ended

namespace Phase

/-- Between the first and the last step. -/
def active : Phase → Bool
  | waiting => false
  | ended => false
  | _ => true

def held : Phase → Option ObjectId
  | uploading _id => some _id
  | registering _id => some _id
  | deleting _id => some _id
  | removing _id => some _id
  | _ => none

end Phase

/-- What one step of a request with the guard `guard` does to the names and the
identifiers. -/
inductive Act (P : Platform) (guard : Option Guard) :
    Phase → Registry → Phase → Registry → Prop where
  | quiet {phase : Phase} {r : Registry} (hactive : phase.active = true) :
      Act P guard phase r phase r
  | leave {r : Registry} : Act P guard .waiting r .ended r
  | count {r : Registry} (hcount : ∀ g ∈ guard, g.count r = 0) :
      Act P guard .waiting r .counted r
  | pick {r : Registry} {d : MappingDoc} {u f : String} (hguard : guard = none)
      (hd : d ∈ r.mapping) (hkey : d.hasKey u f = true) :
      Act P guard .waiting r (.deleting d._id) r
  | issue {r : Registry} :
      Act P guard .counted r (.uploading (P.newId r.issued))
        { r with issued := r.issued + 1 }
  | store {r : Registry} {f : FileDoc}
      (hguard : guard = some (.files f.metadata f.filename)) :
      Act P guard (.uploading f._id) r .ended { r with files := r.files ++ [f] }
  | find {r : Registry} {f : FileDoc}
      (hguard : guard = some (.registrations f.metadata f.filename))
      (hf : f ∈ r.files) :
      Act P guard .counted r (.registering f._id) r
  | register {r : Registry} {d : MappingDoc} (hguard : guard = some (d.guard P))
      (hreg : d.isRegistration = true) (hplain : d.Plain)
      (hnew : ∀ e ∈ r.mapping, e._id ≠ d._id) :
      Act P guard (.registering d._id) r .ended
        { r with mapping := r.mapping ++ [d] }
  | deleteFile {r : Registry} {_id : ObjectId} :
      Act P guard (.deleting _id) r (.removing _id) (r.deleteFile _id)
  | deleteMapping {r : Registry} {_id : ObjectId} :
      Act P guard (.removing _id) r .ended (r.deleteMapping _id)

theorem Act.ne_waiting {P : Platform} {guard : Option Guard} {phase phase' : Phase}
    {r r' : Registry} (h : Act P guard phase r phase' r') : phase' ≠ .waiting := by
  rintro rfl
  cases h with
  | quiet hactive => cases hactive

/-- While the names are unique, each step that the program has still to take is
such a step. -/
def Proceeds (P : Platform) (guard : Option Guard) : Handler Reply → Phase → Prop
  | .done _, _ => True
  | .raised _, _ => True
  | .atomic effect next, phase =>
      ∀ w, w.registry.UniqueNames → ∃ phase',
        Act P guard phase w.registry.names phase' (effect w).registry.names ∧
          Proceeds P guard (next w) phase'

section Proceeds

variable {P : Platform} {guard : Option Guard} {phase : Phase} {α : Type}

theorem Proceeds.of_isOver {p : Handler Reply} (hover : p.isOver = true)
    (phase : Phase) : Proceeds P guard p phase := by
  cases p with
  | atomic effect next => cases hover
  | _ => trivial

theorem Proceeds.ask (hactive : phase.active = true) {query : World → α}
    {rest : α → Handler Reply}
    (hrest : ∀ w, w.registry.UniqueNames → Proceeds P guard (rest (query w)) phase) :
    Proceeds P guard (Program.ask query >>= rest) phase :=
  fun w hw => ⟨phase, .quiet hactive, hrest w hw⟩

/-- The first step of a program that begins with a query. -/
theorem Proceeds.first {query : World → α} {rest : α → Handler Reply}
    (hrest : ∀ w, w.registry.UniqueNames → ∃ phase',
      Act P guard .waiting w.registry.names phase' w.registry.names ∧
        Proceeds P guard (rest (query w)) phase') :
    Proceeds P guard (Program.ask query >>= rest) .waiting := hrest

theorem Proceeds.modify (hactive : phase.active = true) {effect : World → World}
    (hsame : ∀ w, (effect w).registry.names = w.registry.names)
    {rest : Unit → Handler Reply} (hrest : Proceeds P guard (rest ()) phase) :
    Proceeds P guard (Program.modify effect >>= rest) phase := by
  intro w _
  refine ⟨phase, ?_, hrest⟩
  rw [hsame]
  exact .quiet hactive

theorem Proceeds.insertChunks (hactive : phase.active = true)
    (chunks : List ChunkDoc) {rest : Unit → Handler Reply}
    (hrest : Proceeds P guard (rest ()) phase) :
    Proceeds P guard (Program.forEach insertChunk chunks >>= rest) phase := by
  induction chunks with
  | nil => exact hrest
  | cons c chunks ih =>
      rw [forEach_cons, Program.bind_assoc]
      exact .modify hactive (fun _ => rfl) ih

theorem Proceeds.putField (hactive : phase.active = true) (body : Body)
    (value : Value) {set : Value → MappingDoc → MappingDoc}
    (hset : ∀ v d, (set v d).bare = d.bare) (doc : Option MappingDoc)
    {rest : Option MappingDoc → Handler Reply}
    (hrest : ∀ doc, Proceeds P guard (rest doc) phase) :
    Proceeds P guard (LambdaOnOpenStack.putField P body value set doc >>= rest)
      phase := by
  simp only [LambdaOnOpenStack.putField]
  split
  · intro w _
    refine ⟨phase, ?_, hrest _⟩
    have hsame : (w.onRegistry (Registry.updateKey P body
        (set (.str (Ruby.toText P.table value))))).registry.names =
          w.registry.names := Registry.names_updateKey (hset _) _
    exact hsame ▸ .quiet hactive
  · exact hrest doc

theorem proceeds_uploadFromStream (P : Platform) (filename : String)
    (content : Bytes) (metadata : String) (reply : Reply) :
    Proceeds P (some (.files metadata filename))
      (uploadFromStream P filename content metadata >>= fun _ => .done reply)
      .counted := by
  simp only [uploadFromStream, Program.bind_assoc]
  intro w _
  refine ⟨.uploading (P.newId w.registry.issued), .issue, ?_⟩
  refine Proceeds.insertChunks rfl _ ?_
  intro w' _
  let f : FileDoc :=
    { _id := P.newId w.registry.issued
      filename := filename
      metadata := metadata
      length := content.length
      chunkSize := P.chunkSize }
  exact ⟨.ended, .store (f := f) rfl, trivial⟩

/-- While the names are unique, a query for a file finds at most one. -/
theorem Registry.UniqueNames.filter_hasKey {r : Registry} (h : r.UniqueNames)
    (metadata filename : String) :
    r.files.filter (·.hasKey metadata filename) = [] ∨
      ∃ f, r.files.filter (·.hasKey metadata filename) = [f] ∧
        f.metadata = metadata ∧ f.filename = filename := by
  have hkey : ∀ f ∈ r.files.filter (·.hasKey metadata filename),
      f.metadata = metadata ∧ f.filename = filename := by
    intro f hf
    simpa [FileDoc.hasKey] using (List.mem_filter.mp hf).2
  have hnodup : ((r.files.filter (·.hasKey metadata filename)).map
      fun f => (f.metadata, f.filename)).Nodup :=
    h.files.sublist (List.filter_sublist.map _)
  generalize r.files.filter (·.hasKey metadata filename) = found at *
  rcases found with _ | ⟨f, _ | ⟨g, rest⟩⟩
  · exact Or.inl rfl
  · exact Or.inr ⟨f, rfl, hkey f (by simp)⟩
  · have hf := hkey f (by simp)
    have hg := hkey g (by simp)
    simp [hf.1, hf.2, hg.1, hg.2] at hnodup

/-- The insertion for a file that was found; it fails if there is a document
with the same `_id`. -/
theorem proceeds_insertMapping {d : MappingDoc} (hguard : guard = some (d.guard P))
    (hreg : d.isRegistration = true) (hplain : d.Plain) (reply : Reply) :
    Proceeds P guard (insertMapping d >>= fun _ => .done reply)
      (.registering d._id) := by
  intro w _
  by_cases hdup : w.registry.mapping.any (fun e => e._id = d._id) = true
  · refine ⟨.registering d._id, ?_, ?_⟩
    · simp only [World.onRegistry_registry, hdup, ↓reduceIte]
      exact .quiet rfl
    · simp only [hdup, ↓reduceIte]
      trivial
  · refine ⟨.ended, ?_, ?_⟩
    · simp only [World.onRegistry_registry, hdup, Bool.false_eq_true, ↓reduceIte]
      have hnames : ({ w.registry with mapping := w.registry.mapping ++ [d] } :
          Registry).names = { w.registry.names with
            mapping := w.registry.names.mapping ++ [d.bare] } := by
        simp [Registry.names]
      rw [hnames]
      refine .register (d := d.bare) hguard hreg hplain ?_
      intro e he hid
      obtain ⟨e', he', rfl⟩ := List.mem_map.mp he
      exact hdup (List.any_eq_true.mpr ⟨e', he', decide_eq_true hid⟩)
    · simp only [hdup, Bool.false_eq_true, ↓reduceIte]
      trivial

/-- After its count, `POST /lambda` looks for the file and inserts at most one
registration: it finds at most one file. -/
theorem proceeds_insertRegistrations {body : Body} (hplain : body.plain = true)
    (reply : Reply) :
    Proceeds P ((Request.post body).guard P)
      (Program.ask (fun w => w.registry.files.filter (body.hasFile P)) >>= fun found =>
        Program.forEach (fun document => insertMapping (body.registration document))
          found >>= fun _ => .done reply) .counted := by
  intro w hw
  rcases hw.filter_hasKey (Ruby.toText P.table body.UserName)
      (Ruby.toText P.table body.FileName) with
    hnone | ⟨f, hfound, hmetadata, hfilename⟩
  · have hfiles : w.registry.files.filter (body.hasFile P) = [] := hnone
    refine ⟨.counted, .quiet rfl, ?_⟩
    simp only [hfiles]
    trivial
  · have hfiles : w.registry.files.filter (body.hasFile P) = [f] := hfound
    refine ⟨.registering f._id, .find ?_ ?_, ?_⟩
    · rw [hmetadata, hfilename]
      rfl
    · have hmem : f ∈ w.registry.files.filter (body.hasFile P) := by simp [hfiles]
      exact List.mem_of_mem_filter hmem
    · simp only [hfiles]
      change Proceeds P _ (Program.forEach _ [f] >>= fun _ => .done reply) _
      rw [forEach_cons, Program.bind_assoc]
      exact proceeds_insertMapping (d := body.registration f) rfl rfl
        (Body.plain_registration hplain f) reply

/-- A web request begins with a query. -/
theorem isOver_webHandler (P : Platform) (request : WebRequest) :
    (webHandler P request).isOver = false := by
  obtain ⟨request, hweb⟩ := request
  cases request with
  | event params => simp [Request.isWeb] at hweb
  | _ => rfl

theorem proceeds_webHandler (request : WebRequest)
    (hplain : ∀ body, request.1 = .post body → body.plain = true) :
    Proceeds P (request.1.guard P) (webHandler P request) .waiting := by
  obtain ⟨request, hweb⟩ := request
  cases request with
  | fileupload username filename content =>
      refine .first fun w _ => ?_
      split
      · exact ⟨.ended, .leave, trivial⟩
      · rename_i hcount
        refine ⟨.counted, .count ?_, proceeds_uploadFromStream P filename content _ _⟩
        intro g hg
        obtain rfl := Option.some.inj hg
        exact Nat.eq_zero_of_not_pos hcount
  | post body =>
      refine .first fun w _ => ?_
      split
      · exact ⟨.ended, .leave, trivial⟩
      · rename_i hcount
        refine ⟨.counted, .count ?_, ?_⟩
        · intro g hg
          obtain rfl := Option.some.inj hg
          rw [Registry.count_names]
          exact Nat.eq_zero_of_not_pos hcount
        · refine .ask rfl ?_
          intro w' _
          split
          · trivial
          · exact proceeds_insertRegistrations (hplain body rfl) _
  | put body =>
      refine .first fun w _ => ?_
      split
      · refine ⟨.counted, .count (fun g hg => by cases hg), ?_⟩
        simp only [putEventType, putEventSource, putMemory, putEnvironment]
        refine .putField rfl body _ ?_ _ fun doc => .putField rfl body _ ?_ doc
          fun doc => .putField rfl body _ ?_ doc fun doc =>
            .putField rfl body _ ?_ doc fun doc => trivial
        all_goals exact fun _ _ => rfl
      · exact ⟨.ended, .leave, trivial⟩
  | delete uname filename =>
      intro w _
      cases hfound : w.registry.mapping.filter (·.hasKey uname filename) with
      | nil =>
          refine ⟨.ended, .leave, ?_⟩
          simp only [hfound]
          trivial
      | cons document rest =>
          have hmem : document ∈
              w.registry.mapping.filter (·.hasKey uname filename) := by
            simp [hfound]
          obtain ⟨hd, hkey⟩ := List.mem_filter.mp hmem
          refine ⟨.deleting document._id, ?_, ?_⟩
          · exact .pick (d := document.bare) rfl (List.mem_map_of_mem hd) hkey
          · simp only [hfound]
            intro w' _
            refine ⟨.removing document._id, .deleteFile, ?_⟩
            refine .modify rfl (fun _ => rfl) ?_
            intro w'' _
            refine ⟨.ended, ?_, trivial⟩
            exact Registry.names_deleteMapping _ _ ▸ .deleteMapping
  | list uname =>
      intro w _
      refine ⟨.ended, .leave, ?_⟩
      change Proceeds P _ (if _ then _ else _) _
      split <;> trivial
  | one uname fname => exact fun w _ => ⟨.ended, .leave, trivial⟩
  | event params => simp [Request.isWeb] at hweb

end Proceeds

end LambdaOnOpenStack
