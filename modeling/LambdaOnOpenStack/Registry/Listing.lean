import LambdaOnOpenStack.Registry.Transitions

/-!
# What clients see after a run

`GET /lambda/:UserName` lists every document of `mapping` that carries the
user, and a dispatch that completes adds one.  The document that
`GET /lambda/:UserName/:FileName` returns stays the same.
-/

namespace LambdaOnOpenStack

open Support

/-- The replies show the same documents, in any order. -/
def Reply.SameDocuments : Reply → Reply → Prop
  | .documents found, .documents found' => found.Perm found'
  | reply, reply' => reply = reply'

/-- Both requests are answered, with the same documents. -/
def SameAnswer (answer answer' : Except Failure Reply) : Prop :=
  ∃ reply reply', answer = .ok reply ∧ answer' = .ok reply' ∧
    reply.SameDocuments reply'

/-- Every client sees the same functions in `w` and in `w'`. -/
structure SameFunctions (w w' : World) : Prop where
  list : ∀ uname,
    SameAnswer ((getList uname).run w).1 ((getList uname).run w').1
  one : ∀ uname fname,
    SameAnswer ((getOne uname fname).run w).1 ((getOne uname fname).run w').1

/-- The dispatch of the event completes, and the record from which it takes
its counter is in the list of some user. -/
def ListsRun (P : Platform) (w : World) (params : Value) : Prop :=
  ∃ e d name content latest uname, readEvent params = .ok e ∧
    Completes P e w d name content latest ∧ latest.hasUser uname = true

variable {P : Platform} {w w' : World}

theorem SameFunctions.of_mapping
    (hsame : w'.registry.mapping = w.registry.mapping) : SameFunctions w w' where
  list := by
    intro uname
    rw [run_getList, run_getList, hsame]
    refine ⟨_, _, rfl, rfl, ?_⟩
    split
    · rfl
    · exact List.Perm.refl _
  one := by
    intro uname fname
    rw [run_getOne, run_getOne, hsame]
    exact ⟨_, _, rfl, rfl, rfl⟩

/-- The answers have equally many documents. -/
theorem SameAnswer.length_eq {uname : String}
    (h : SameAnswer ((getList uname).run w).1 ((getList uname).run w').1) :
    (w.registry.mapping.filter (·.hasUser uname)).length =
      (w'.registry.mapping.filter (·.hasUser uname)).length := by
  obtain ⟨reply, reply', hreply, hreply', hsame⟩ := h
  rw [run_getList] at hreply hreply'
  obtain rfl := Except.ok.inj hreply
  obtain rfl := Except.ok.inj hreply'
  by_cases hnone : w.registry.mapping.filter (·.hasUser uname) = [] <;>
    by_cases hnone' : w'.registry.mapping.filter (·.hasUser uname) = [] <;>
      simp only [hnone, hnone', ↓reduceIte, Reply.SameDocuments, reduceCtorEq]
        at hsame ⊢
  exact hsame.length_eq

section Record

variable {latest : MappingDoc} {log_uuid : String}

/-- The run record comes after the document that it copies. -/
theorem SameAnswer.one_record (hlatest : latest ∈ w.registry.mapping)
    (hrecord : w'.registry = w.registry.record P latest log_uuid)
    (uname fname : String) :
    SameAnswer ((getOne uname fname).run w).1 ((getOne uname fname).run w').1 := by
  have hsame : w'.registry.mapping.find? (·.hasKey uname fname) =
      w.registry.mapping.find? (·.hasKey uname fname) := by
    rw [hrecord, Registry.record]
    apply find?_append_of_copies
    intro c hc
    exact ⟨latest, hlatest, by rw [List.mem_singleton.mp hc]; rfl⟩
  rw [run_getOne, run_getOne, hsame]
  exact ⟨_, _, rfl, rfl, rfl⟩

/-- A run record is in the lists in which its original is. -/
theorem filter_hasUser_record
    (hrecord : w'.registry = w.registry.record P latest log_uuid)
    (uname : String) :
    w'.registry.mapping.filter (·.hasUser uname) =
      w.registry.mapping.filter (·.hasUser uname) ++
        if latest.hasUser uname then
          [w.registry.runRecord P latest log_uuid] else [] := by
  have hcopy : MappingDoc.hasUser uname
      (w.registry.runRecord P latest log_uuid) = latest.hasUser uname := rfl
  rw [hrecord, Registry.record, List.filter_append]
  by_cases hlisted : latest.hasUser uname = true <;> simp [hcopy, hlisted]

theorem SameFunctions.of_record (hlatest : latest ∈ w.registry.mapping)
    (hunlisted : ∀ uname, latest.hasUser uname = false)
    (hrecord : w'.registry = w.registry.record P latest log_uuid) :
    SameFunctions w w' where
  list := by
    intro uname
    have hsame := filter_hasUser_record hrecord uname
    rw [hunlisted uname, if_neg (by decide), List.append_nil] at hsame
    rw [run_getList, run_getList, hsame]
    refine ⟨_, _, rfl, rfl, ?_⟩
    split
    · rfl
    · exact List.Perm.refl _
  one := SameAnswer.one_record hlatest hrecord

/-- A run record is seen exactly if its original is in a list. -/
theorem sameFunctions_record_iff (hlatest : latest ∈ w.registry.mapping)
    (hrecord : w'.registry = w.registry.record P latest log_uuid) :
    SameFunctions w w' ↔ ∀ uname, latest.hasUser uname = false := by
  constructor
  · intro hkeeps uname
    rw [Bool.eq_false_iff]
    intro hlisted
    have hlength := (hkeeps.list uname).length_eq
    have hgrown := filter_hasUser_record hrecord uname
    rw [if_pos hlisted] at hgrown
    simp [hgrown] at hlength
  · intro hunlisted
    exact .of_record hlatest hunlisted hrecord

end Record

/-! ## Events -/

/-- After an event all clients see the same functions as before exactly if the
dispatch adds no run to a list. -/
theorem event_keeps_functions_iff (P : Platform) (w : World) (params : Value) :
    SameFunctions w (exec P w (.event params)) ↔ ¬ListsRun P w params := by
  rw [exec_event]
  cases hevent : readEvent params with
  | error x =>
      refine iff_of_true (.of_mapping rfl) ?_
      rintro ⟨e, _, _, _, _, _, hevent', -⟩
      rw [hevent] at hevent'
      simp at hevent'
  | ok e =>
      rcases (dispatch_run P e w).completed_cases with
        ⟨d, name, content, latest, hcompletes, hworld⟩ | ⟨hnone, hsame, -⟩
      · have hrecord : ((dispatch P e).run w).2.registry =
            w.registry.record P latest (P.newUuid w.uuids) := by
          rw [hworld]
          split <;> rfl
        have hlatest : latest ∈ w.registry.mapping :=
          (List.mem_filter.mp (List.argmax_mem hcompletes.latest)).1
        rw [sameFunctions_record_iff hlatest hrecord]
        constructor
        · rintro hunlisted ⟨e', d', name', content', latest', uname, hevent',
            hcompletes', hlisted⟩
          obtain rfl := Except.ok.inj (hevent.symm.trans hevent')
          obtain ⟨rfl, rfl, rfl, rfl⟩ := hcompletes.unique hcompletes'
          rw [hunlisted uname] at hlisted
          exact absurd hlisted (by decide)
        · intro hnot uname
          rw [Bool.eq_false_iff]
          intro hlisted
          exact hnot ⟨e, d, name, content, latest, uname, hevent, hcompletes,
            hlisted⟩
      · refine iff_of_true (.of_mapping (congrArg _ hsame)) ?_
        rintro ⟨e', d, name, content, latest, _, hevent', hcompletes, -⟩
        obtain rfl := Except.ok.inj (hevent.symm.trans hevent')
        exact hnone d name content latest hcompletes

/-- After its first run the function is listed twice. -/
theorem run_is_listed :
    ¬SameFunctions oneFunction
      (exec default oneFunction (.event (samplePayload "testUser" "test.py"))) := by
  intro hsame
  have hlength := (hsame.list "testUser").length_eq
  revert hlength
  decide

end LambdaOnOpenStack
