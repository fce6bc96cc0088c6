import LambdaOnOpenStack.Registry.ChunkStorage
import LambdaOnOpenStack.Registry.TextNames
import LambdaOnOpenStack.Values.EventReading

/-!
# The key of a new registration

`POST /lambda` stores the user and the file name as they stand in its body,
whereas every query, its own included, is for their text forms.  What it has
stored is found under these texts exactly if both values were text already.
-/

namespace LambdaOnOpenStack

open Support Registry

/-! ## Text forms -/

section TextForm

variable (T : CharacterTable)

/-- The text form of an array is longer than every text in it. -/
theorem length_lt_inspectItems {items : List Value} {s : String}
    (hs : Value.str s ∈ items) :
    s.toList.length < (Ruby.inspectItems T items).length := by
  have hstr : s.toList.length < (Ruby.inspect T (.str s)).length := by
    have hchars := length_le_inspectChars T s.toList
    rw [Ruby.inspect, Ruby.inspectString, List.length_cons, List.length_append]
    omega
  induction items with
  | nil => simp at hs
  | cons v rest ih =>
      have hhead : (Ruby.inspect T v).length ≤
          (Ruby.inspectItems T (v :: rest)).length := by
        cases rest <;> simp [Ruby.inspectItems]
      rcases List.mem_cons.mp hs with rfl | hs
      · omega
      · have hrest := ih hs
        obtain ⟨v', rest', rfl⟩ := List.exists_cons_of_ne_nil (List.ne_nil_of_mem hs)
        simp only [Ruby.inspectItems, List.length_append, List.length_cons]
        omega

/-- A query for the text form of a value finds the value only if it is that
text. -/
theorem holdsText_toText_iff (v : Value) :
    v.holdsText (Ruby.toText T v) = true ↔ v.isText = true := by
  cases v with
  | str s => simp [Value.isText]
  | arr items =>
      refine iff_of_false ?_ (by simp [Value.isText])
      intro hholds
      obtain ⟨v, hv, hsame⟩ := List.any_eq_true.mp hholds
      rw [of_decide_eq_true hsame] at hv
      have hlength := length_lt_inspectItems T hv
      simp only [Ruby.toText, Ruby.inspect, String.toList_ofList,
        List.length_cons, List.length_append] at hlength
      omega
  | _ => simp [Value.holdsText, Value.isText]

end TextForm

/-! ## What a client expects of a key -/

/-- A request for `/lambda/U/F`.  The framework calls the handler with `U` and
`F` if it has a route for them. -/
def atRoute (routes : String → String → Bool)
    (handler : String → String → Handler Reply) (U F : String) : Handler Reply :=
  if routes U F then handler U F else return .nothing

/-- After `DELETE /lambda/U/F` for the text forms of the names in the body. -/
def deletedByKey (P : Platform) (routes : String → String → Bool) (body : Body)
    (w : World) : World :=
  ((atRoute routes deleteLambda (Ruby.toText P.table body.UserName)
    (Ruby.toText P.table body.FileName)).run w).2

/-- The registration `d`, which the body has just created, answers to the text
forms of the user and the file name in the body. -/
structure AnswersToKey (P : Platform) (routes : String → String → Bool)
    (body : Body) (d : MappingDoc) (w : World) : Prop where
  found : ((atRoute routes getOne (Ruby.toText P.table body.UserName)
    (Ruby.toText P.table body.FileName)).run w).1 = .ok (.document (some d))
  duplicate : ((postLambda P body).run w).1 =
    .ok (.text "Duplicate Function. Please retry")
  updated : ∀ update : Body, update.UserName = body.UserName →
    update.FileName = body.FileName →
      update.update P d ∈ (exec P w (.put update)).registry.mapping
  removed : ∀ e ∈ (deletedByKey P routes body w).registry.mapping, e._id ≠ d._id
  removedFile : ∀ f ∈ (deletedByKey P routes body w).registry.files,
    f._id ≠ d._id

/-- The chunks of its file are removed with it. -/
def RemovesChunks (P : Platform) (routes : String → String → Bool)
    (body : Body) (d : MappingDoc) (w : World) : Prop :=
  ∀ c ∈ (deletedByKey P routes body w).registry.chunks, c.files_id ≠ d._id

variable {P : Platform} {w : World} {body : Body} {d : MappingDoc}

/-- What is inserted is the registration of the one file of its key. -/
theorem created_cases (hw : WellFormed P w.registry)
    (hinserts : (exec P w (.post body)).registry.mapping =
      w.registry.mapping ++ [d]) :
    (∀ e ∈ w.registry.mapping, body.hasKey P e = false) ∧
      ∃ f, w.registry.files.find? (body.hasFile P) = some f ∧
        d = body.registration f ∧
        exec P w (.post body) = w.onRegistry (Registry.insert d) := by
  rw [exec_eq, Request.handler] at hinserts ⊢
  rcases postLambda_cases P body w hw.file_keys with
    ⟨f, hfree, hfile, -, hrun⟩ | ⟨-, hsame⟩
  · rw [hrun] at hinserts ⊢
    have hd : body.registration f = d :=
      List.singleton_inj.mp (List.append_cancel_left hinserts)
    refine ⟨hfree, f, hfile, hd.symm, ?_⟩
    rw [hd]
  · rw [hsame] at hinserts
    simp at hinserts

/-! ## When it answers -/

/-- The query of a body finds the registration that it creates if both of its
names are text. -/
theorem hasKey_registration_iff (f : FileDoc) :
    body.hasKey P (body.registration f) = true ↔ body.textual = true := by
  rw [Body.hasKey, MappingDoc.hasKey, Bool.and_eq_true, Body.registration,
    holdsText_toText_iff, holdsText_toText_iff, Body.textual, Bool.and_eq_true]

/-- A key that was free leads to the new registration. -/
theorem find?_insert_of_free {r : Registry} {p : MappingDoc → Bool}
    (hfree : ∀ e ∈ r.mapping, p e = false) (hd : p d = true) :
    (r.insert d).mapping.find? p = some d := by
  have hnone : r.mapping.find? p = none := by
    rw [List.find?_eq_none]
    intro e he
    simp [hfree e he]
  rw [Registry.insert, List.find?_append, hnone, Option.none_or,
    List.find?_cons_of_pos hd]

theorem run_getOne_key (P : Platform) (body : Body) (w : World) :
    (getOne (Ruby.toText P.table body.UserName)
        (Ruby.toText P.table body.FileName)).run w =
      (.ok (.document (w.registry.mapping.find? (body.hasKey P))), w) :=
  run_getOne _ _ w

theorem deletedByKey_eq {routes : String → String → Bool}
    (hroute : routes (Ruby.toText P.table body.UserName)
      (Ruby.toText P.table body.FileName) = true)
    (hfind : w.registry.mapping.find? (body.hasKey P) = some d) :
    deletedByKey P routes body w = w.onRegistry (Registry.remove d._id) := by
  have hfind' : w.registry.mapping.find? (fun e =>
      e.hasKey (Ruby.toText P.table body.UserName)
        (Ruby.toText P.table body.FileName)) = some d := hfind
  rw [deletedByKey, atRoute, if_pos hroute, run_deleteLambda, hfind']

theorem AnswersToKey.cond {routes : String → String → Bool}
    (h : AnswersToKey P routes body d w) :
    routes (Ruby.toText P.table body.UserName)
        (Ruby.toText P.table body.FileName) = true ∧
      body.hasKey P d = true := by
  have hfound := h.found
  rw [atRoute] at hfound
  split at hfound
  · rename_i hroute
    rw [run_getOne_key] at hfound
    refine ⟨hroute, ?_⟩
    have hfind : w.registry.mapping.find? (body.hasKey P) = some d := by
      simpa only [Except.ok.injEq, Reply.document.injEq] using hfound
    exact List.find?_some hfind
  · simp at hfound

/-- The key is free but for the registration, and it has a route. -/
theorem AnswersToKey.of_find? (hw : WellFormed P w.registry)
    {routes : String → String → Bool}
    (hroute : routes (Ruby.toText P.table body.UserName)
      (Ruby.toText P.table body.FileName) = true)
    (hfind : w.registry.mapping.find? (body.hasKey P) = some d) :
    AnswersToKey P routes body d w where
  found := by
    rw [atRoute, if_pos hroute, run_getOne_key, hfind]
  duplicate := by
    have htaken : w.registry.mapping.any (body.hasKey P) = true :=
      List.any_eq_true.mpr
        ⟨d, List.mem_of_find?_eq_some hfind, List.find?_some hfind⟩
    rw [run_postLambda P body w hw.file_keys, if_pos htaken]
  updated := by
    intro update huser hname
    have hkey : update.hasKey P = body.hasKey P := by
      funext e
      rw [Body.hasKey, Body.hasKey, huser, hname]
    rw [← hkey] at hfind
    rw [exec_put_eq]
    exact List.mem_of_find?_eq_some (find?_updateKey update hfind)
  removed := by
    rw [deletedByKey_eq hroute hfind]
    intro e he
    exact ((mem_eraseP_of_nodup hw.mapping_ids).mp he).2
  removedFile := by
    rw [deletedByKey_eq hroute hfind]
    intro f hf
    exact ((mem_eraseP_of_nodup hw.file_ids).mp hf).2

theorem removesChunks_iff {routes : String → String → Bool}
    (hroute : routes (Ruby.toText P.table body.UserName)
      (Ruby.toText P.table body.FileName) = true)
    (hfind : w.registry.mapping.find? (body.hasKey P) = some d) :
    RemovesChunks P routes body d w ↔ w.registry.chunksOf d._id ≤ 1 := by
  rw [RemovesChunks, deletedByKey_eq hroute hfind, Registry.chunksOf,
    ← forall_eraseP_iff]
  simp only [decide_eq_false_iff_not]
  rfl

/-- `POST /lambda` inserts a registration.  It is found, protected from a second
`POST`, updated and deleted with its file under the text forms of its user and
its file name exactly if both were sent as text and their route is there.  Its
deletion removes the whole content exactly if this fits into one chunk. -/
theorem created_key_iff (hw : Reachable P w)
    (hinserts : (exec P w (.post body)).registry.mapping =
      w.registry.mapping ++ [d]) (routes : String → String → Bool) :
    (AnswersToKey P routes body d (exec P w (.post body)) ↔
      body.textual = true ∧ routes (Ruby.toText P.table body.UserName)
        (Ruby.toText P.table body.FileName) = true) ∧
    (AnswersToKey P routes body d (exec P w (.post body)) ∧
        RemovesChunks P routes body d (exec P w (.post body)) ↔
      (body.textual = true ∧ routes (Ruby.toText P.table body.UserName)
        (Ruby.toText P.table body.FileName) = true) ∧
        ∀ f ∈ w.registry.files, f._id = d._id → f.length ≤ P.chunkSize) := by
  obtain ⟨hfree, f, hfile, rfl, hcreated⟩ := created_cases hw.wellFormed hinserts
  have hafter := hw.exec (.post body)
  have hwell := hafter.wellFormed
  have hcounted := hafter.chunksCounted
  rw [hcreated] at hwell hcounted ⊢
  have hiff : AnswersToKey P routes body (body.registration f)
      (w.onRegistry (Registry.insert (body.registration f))) ↔
        body.textual = true ∧ routes (Ruby.toText P.table body.UserName)
          (Ruby.toText P.table body.FileName) = true := by
    constructor
    · intro h
      exact ⟨(hasKey_registration_iff f).mp h.cond.2, h.cond.1⟩
    · rintro ⟨htext, hroute⟩
      exact .of_find? hwell hroute
        (find?_insert_of_free hfree ((hasKey_registration_iff f).mpr htext))
  refine ⟨hiff, ?_⟩
  rw [hiff]
  refine and_congr_right ?_
  rintro ⟨htext, hroute⟩
  have hfind := find?_insert_of_free hfree
    ((hasKey_registration_iff (P := P) f).mpr htext)
  have hf : f ∈ w.registry.files := List.mem_of_find?_eq_some hfile
  obtain ⟨content, -, hstores⟩ := hw.wellFormed.uploaded f hf
  rw [removesChunks_iff hroute hfind]
  have hcount := hcounted f hf
  rw [Body.registration_id, hcount, hstores.chunkSize,
    chunkCount_le_one_iff P.chunkSize_pos]
  constructor
  · intro hlength g hg hid
    rw [eq_of_key_eq hw.wellFormed.file_ids hg hf hid]
    exact hlength
  · intro hall
    exact hall f hf rfl

/-- The world after the upload of one file. -/
def fileOf (user filename : String) : World :=
  exec default {} (.fileupload (.str user) filename [112, 97, 115, 115])

theorem fileOf_reachable (user filename : String) :
    Reachable default (fileOf user filename) := ⟨[_], rfl⟩

/-- What a body registers for that file. -/
def Body.registrationOf (body : Body) (user filename : String) : MappingDoc :=
  body.registration (Registry.uploadedFile default {} filename
    [112, 97, 115, 115] user)

/-- A framework whose parameters are not empty. -/
def nonemptyParameters (U F : String) : Bool := U ≠ "" && F ≠ ""

theorem created_key_iff_sample :
    let body := Body.sample "testUser" "test.py"
    let d := body.registrationOf "testUser" "test.py"
    let w := fileOf "testUser" "test.py"
    (AnswersToKey default nonemptyParameters body d (exec default w (.post body)) ↔
      body.textual = true ∧ nonemptyParameters
        (Ruby.toText (default : Platform).table body.UserName)
        (Ruby.toText (default : Platform).table body.FileName) = true) ∧
    (AnswersToKey default nonemptyParameters body d
          (exec default w (.post body)) ∧
        RemovesChunks default nonemptyParameters body d
          (exec default w (.post body)) ↔
      (body.textual = true ∧ nonemptyParameters
        (Ruby.toText (default : Platform).table body.UserName)
        (Ruby.toText (default : Platform).table body.FileName) = true) ∧
        ∀ f ∈ w.registry.files, f._id = d._id →
          f.length ≤ (default : Platform).chunkSize) :=
  created_key_iff (fileOf_reachable "testUser" "test.py") (by decide)
    nonemptyParameters

/-- A user name that is sent as a number is stored as one. -/
theorem number_name_not_found :
    let body := { Body.sample "7" "test.py" with UserName := .int 7 }
    let d := body.registrationOf "7" "test.py"
    let w := fileOf "7" "test.py"
    Reachable default w ∧
      (exec default w (.post body)).registry.mapping =
        w.registry.mapping ++ [d] ∧
      ¬AnswersToKey default nonemptyParameters body d
        (exec default w (.post body)) := by
  intro body d w
  refine ⟨fileOf_reachable "7" "test.py", by decide, ?_⟩
  intro hanswers
  have hfound : ((atRoute nonemptyParameters getOne "7" "test.py").run
      (exec default w (.post body))).1 = .ok (.document none) := by decide
  exact absurd (hanswers.found.symm.trans hfound) (by decide)

end LambdaOnOpenStack
