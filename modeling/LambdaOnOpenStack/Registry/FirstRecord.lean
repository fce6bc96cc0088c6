import LambdaOnOpenStack.Registry.Invariant

/-!
# The file of the first record

A dispatch reads the file whose `_id` is that of the user's first mapping
document.  Only a deletion can put a run record, which has no file, in front.
-/

namespace LambdaOnOpenStack

open Support

namespace Registry

/-- `fs.files` has the document and `fs.chunks` all of its chunks, and reading
the file raises nothing. -/
structure Intact (r : Registry) (_id : ObjectId) : Prop where
  document : ∃ f ∈ r.files, f._id = _id ∧
    ∀ n < GridFS.chunkCount f.chunkSize f.length,
      ∃ c ∈ r.chunks, c.files_id = _id ∧ c.n = n
  readable : ∃ content, r.content _id = .ok content

/-- The first mapping document of every user has its file. -/
def FirstIntact (P : Platform) (r : Registry) : Prop :=
  ∀ user d, r.firstRecord P user = some d → r.Intact d._id

/-- The document of a user that follows the first one. -/
def secondRecord (P : Platform) (r : Registry) (user : Value) :
    Option MappingDoc :=
  (r.mapping.filter fun d => P.answers user d.username)[1]?

/-- The request deletes no document that a run record follows as the second
one of some user. -/
def KeepsFirst (P : Platform) (r : Registry) : Request → Prop
  | .delete uname filename =>
      ∀ d, r.mapping.find? (·.hasKey uname filename) = some d →
        ∀ user e, r.firstRecord P user = some d →
          r.secondRecord P user = some e → e.isRegistration = true
  | _ => True

/-- The first mapping document of every user is a registration. -/
def FirstRegistered (P : Platform) (r : Registry) : Prop :=
  ∀ user d, r.firstRecord P user = some d → d.isRegistration = true

variable {P : Platform} {r : Registry}

/-! ## Registrations are the documents with a file -/

theorem WellFormed.intact_iff (h : WellFormed P r) {d : MappingDoc}
    (hd : d ∈ r.mapping) : r.Intact d._id ↔ d.isRegistration = true := by
  constructor
  · intro hintact
    by_contra hreg
    have hrun : d.isRunRecord = true := by
      simpa [MappingDoc.isRunRecord_eq_not] using hreg
    obtain ⟨f, hf, hid, -⟩ := hintact.document
    obtain ⟨content, hupload, -⟩ := h.uploaded f hf
    rw [hid] at hupload
    exact h.run_id d hd hrun content hupload
  · intro hreg
    obtain ⟨f, hf, hid, -⟩ := h.registration_file d hd hreg
    obtain ⟨content, -, hstores⟩ := h.uploaded f hf
    refine ⟨⟨f, hf, hid, ?_⟩, ?_⟩
    · intro n hn
      rw [hstores.chunkSize, hstores.length] at hn
      obtain ⟨c, hfind, -⟩ := hstores.chunk n hn
      have hc := List.find?_some hfind
      simp only [decide_eq_true_eq] at hc
      exact ⟨c, List.mem_of_find?_eq_some hfind, hc.1.trans hid, hc.2⟩
    · rw [← hid]
      exact ⟨content, content_of_stores (h.findFile hf) hstores⟩

theorem WellFormed.firstIntact_iff (h : WellFormed P r) :
    r.FirstIntact P ↔ r.FirstRegistered P := by
  constructor
  · intro hintact user d hfirst
    exact (h.intact_iff (List.mem_of_find?_eq_some hfirst)).mp
      (hintact user d hfirst)
  · intro hreg user d hfirst
    exact (h.intact_iff (List.mem_of_find?_eq_some hfirst)).mpr
      (hreg user d hfirst)

/-! ## What the requests do to the first record -/

theorem firstRecord_insert (d : MappingDoc) (user : Value) :
    (r.insert d).firstRecord P user =
      (r.firstRecord P user).or
        (if P.answers user d.username then some d else none) := by
  simp only [firstRecord, Registry.insert, List.find?_append]
  by_cases hd : P.answers user d.username = true <;> simp [hd]

theorem FirstRegistered.insert (hfirst : r.FirstRegistered P)
    {d : MappingDoc} (hd : d.isRegistration = true) :
    (r.insert d).FirstRegistered P := by
  intro user e he
  rw [firstRecord_insert] at he
  cases hold : r.firstRecord P user with
  | some e' =>
      obtain rfl : e' = e := by simpa [hold] using he
      exact hfirst user e' hold
  | none =>
      rw [hold, Option.none_or] at he
      split at he
      · obtain rfl := Option.some.inj he
        exact hd
      · simp at he

/-- A run record comes after the record whose user it has. -/
theorem firstRecord_record {latest : MappingDoc} {log_uuid : String}
    (hlatest : latest ∈ r.mapping) (user : Value) :
    (r.record P latest log_uuid).firstRecord P user = r.firstRecord P user := by
  apply find?_append_of_copies
  intro c hc
  exact ⟨latest, hlatest, by rw [List.mem_singleton.mp hc]; rfl⟩

theorem firstRecord_update (body : Body) (user : Value) :
    (r.updateKey P body (body.update P)).firstRecord P user =
        r.firstRecord P user ∨
      ∃ d, r.firstRecord P user = some d ∧
        (r.updateKey P body (body.update P)).firstRecord P user =
          some (body.update P d) := by
  have hquery : ∀ d, P.answers user (body.update P d).username =
      P.answers user d.username := by
    intro d
    rw [(update_kept body d).2.1]
  rcases find?_updateFirst (p := body.hasKey P)
      (fun d => P.answers user d.username) (body.update P) hquery r.mapping with
    hsame | ⟨d, hfirst, -, hnew⟩
  · exact Or.inl hsame
  · exact Or.inr ⟨d, hfirst, hnew⟩

theorem FirstRegistered.update (hfirst : r.FirstRegistered P) (body : Body) :
    (r.updateKey P body (body.update P)).FirstRegistered P := by
  intro user d hd
  rcases firstRecord_update (P := P) (r := r) body user with
    hsame | ⟨e, hold, hnew⟩
  · rw [hsame] at hd
    exact hfirst user d hd
  · rw [hnew] at hd
    obtain rfl := Option.some.inj hd
    rw [update_isRegistration]
    exact hfirst user e hold

/-- Deleting the first document of a user brings the second one to the front. -/
theorem WellFormed.firstRecord_remove_first (h : WellFormed P r)
    {d : MappingDoc} {user : Value} (hfirst : r.firstRecord P user = some d) :
    (r.remove d._id).firstRecord P user = r.secondRecord P user :=
  find?_eraseP_of_first h.mapping_ids hfirst

theorem WellFormed.firstRecord_remove_other (h : WellFormed P r)
    {d : MappingDoc} (hd : d ∈ r.mapping) {user : Value}
    (hfirst : r.firstRecord P user ≠ some d) :
    (r.remove d._id).firstRecord P user = r.firstRecord P user := by
  cases hold : r.firstRecord P user with
  | none =>
      have hall := List.find?_eq_none.mp hold
      refine List.find?_eq_none.mpr ?_
      intro e he
      exact hall e (List.mem_of_mem_eraseP he)
  | some e =>
      apply find?_eraseP_of_some hold
      have hne : e._id ≠ d._id := by
        intro hid
        apply hfirst
        rw [hold, eq_of_key_eq h.mapping_ids
          (List.mem_of_find?_eq_some hold) hd hid]
      simpa using hne

theorem WellFormed.firstRegistered_remove_iff (h : WellFormed P r)
    (hfirst : r.FirstRegistered P) {d : MappingDoc} (hd : d ∈ r.mapping) :
    (r.remove d._id).FirstRegistered P ↔
      ∀ user e, r.firstRecord P user = some d →
        r.secondRecord P user = some e → e.isRegistration = true := by
  constructor
  · intro hafter user e hfirst hsecond
    apply hafter user
    rw [h.firstRecord_remove_first hfirst, hsecond]
  · intro hnext user e he
    by_cases hfront : r.firstRecord P user = some d
    · rw [h.firstRecord_remove_first hfront] at he
      exact hnext user e hfront he
    · rw [h.firstRecord_remove_other hd hfront] at he
      exact hfirst user e he

/-- A request keeps registrations in front exactly if it meets `KeepsFirst`. -/
theorem Change.firstRegistered_iff {request : Request} {r' : Registry}
    (hchange : Change P r request r') (h : WellFormed P r)
    (hfirst : r.FirstRegistered P) :
    r'.FirstRegistered P ↔ r.KeepsFirst P request := by
  cases hchange with
  | idle hrequest =>
      refine iff_of_true hfirst ?_
      cases request with
      | delete uname filename => exact absurd rfl (hrequest uname filename)
      | _ => trivial
  | unmatched hnone =>
      refine iff_of_true hfirst ?_
      intro d hfind
      rw [hnone] at hfind
      simp at hfind
  | uploaded => exact iff_of_true hfirst trivial
  | registered =>
      exact iff_of_true (hfirst.insert rfl) trivial
  | updated => exact iff_of_true (hfirst.update _) trivial
  | @removed uname filename d hfind =>
      have hd := List.mem_of_find?_eq_some hfind
      rw [h.firstRegistered_remove_iff hfirst hd]
      constructor
      · intro hnext d' hfind'
        obtain rfl : d = d' := Option.some.inj (hfind.symm.trans hfind')
        exact hnext
      · intro hkeeps
        exact hkeeps d hfind
  | recorded _ hlatest =>
      refine iff_of_true ?_ trivial
      intro user d hd
      have hmem : _ ∈ r.mapping :=
        (List.mem_filter.mp (List.argmax_mem hlatest)).1
      rw [firstRecord_record hmem] at hd
      exact hfirst user d hd

end Registry

/-! ## Whole runs -/

open Registry

/-- In a run of complete requests the first document of every user has its
file throughout exactly if every deletion keeps registrations in front. -/
theorem firstIntact_throughout_iff (P : Platform) (requests : List Request) :
    Throughout (exec P) (fun w => w.registry.FirstIntact P) {} requests ↔
      Along (exec P) (fun w request => w.registry.KeepsFirst P request) {}
        requests := by
  refine throughout_iff_along (J := fun w : World => WellFormed P w.registry)
    (fun _ request h => h.after_exec request) ?_ WellFormed.empty ?_ requests
  · intro w request h hfirst
    have hreg := h.firstIntact_iff.mp hfirst
    rw [(h.after_exec request).firstIntact_iff]
    exact (h.change_exec request).firstRegistered_iff h hreg
  · intro user d hd
    simp [firstRecord] at hd

/-- Upload, register, run once, delete: the run record stays. -/
def runThenDelete : List Request :=
  [.fileupload (.str "testUser") "test.py" [112, 97, 115, 115],
    .post (.sample "testUser" "test.py"),
    .event (samplePayload "testUser" "test.py"), .delete "testUser" "test.py"]

theorem run_record_comes_first :
    ¬Throughout (exec default) (fun w => w.registry.FirstIntact default) {}
      runThenDelete := by
  intro hthroughout
  have hlast := throughout_iff.mp hthroughout runThenDelete [] rfl
  have hfiles : (runAll (exec default) {} runThenDelete).registry.files = [] := by
    decide
  obtain ⟨d, hd⟩ : ∃ d, (runAll (exec default) {} runThenDelete).registry.firstRecord
      default (.str "testUser") = some d :=
    Option.isSome_iff_exists.mp (by decide)
  obtain ⟨f, hf, -⟩ := (hlast _ d hd).document
  rw [hfiles] at hf
  simp at hf

end LambdaOnOpenStack
