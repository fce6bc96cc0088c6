import LambdaOnOpenStack.Execution.Deployment
import LambdaOnOpenStack.Registry.Bystanders
import LambdaOnOpenStack.Registry.Updates
import LambdaOnOpenStack.Registry.WholeFiles
import LambdaOnOpenStack.Support.Versions

/-!
# The numbers of runs in the deployed service

Only the listener records runs, and it handles one event at a time.  Between
two of its steps the requests of the web interface may change what it reads,
but not the number of the last run, so the runs of a function are numbered
without gaps even where its events are handled while requests are in progress,
and where the listener dies and is started again.
-/

namespace LambdaOnOpenStack

open Support Program Registry Services

/-! ## What is counted -/

/-- The runs of the binding that have been recorded. -/
def World.recordedFor (u f s : String) (w : World) : ℕ :=
  w.inserted.countP fun record => record.username = .str u ∧
    record.filename = .str f ∧ record.eventsource = .str s

namespace Registry

/-- The identifier is in use, but not for a document of the function. -/
def Foreign (P : Platform) (u f : String) (r : Registry) (_id : ObjectId) : Prop :=
  (∃ j < r.issued, _id = P.newId j) ∧ ∀ d ∈ r.documentsOf u f, d._id ≠ _id

end Registry

/-- The function has `k` runs, which are those recorded after the first `n`, and
the identifiers that requests pass on belong to other functions. -/
structure Counted (P : Platform) (u f s : String) (n k : ℕ)
    (foreign : Multiset ObjectId) (w : World) : Prop where
  numbered : w.registry.Numbered u f s k
  textNames : w.registry.TextNames
  recorded : w.recordedFor u f s = n + k
  foreign : ∀ _id ∈ foreign, w.registry.Foreign P u f _id

/-- What the numbers of the runs of a function depend on. -/
def MappingDoc.runFields (d : MappingDoc) : ObjectId × Value × ℕ × Option String :=
  (d._id, d.eventsource, d.sequence_count, d.log_uuid)

section Changes

variable {P : Platform} {u f s : String} {n k : ℕ} {foreign : Multiset ObjectId}
  {w t : World} {r r' : Registry}

theorem Registry.Numbered.of_runFields (h : r.Numbered u f s k)
    (hsame : (r'.documentsOf u f).map (·.runFields) =
      (r.documentsOf u f).map (·.runFields)) : r'.Numbered u f s k := by
  have hold : ∀ d ∈ r'.documentsOf u f, ∃ e ∈ r.documentsOf u f,
      e.runFields = d.runFields := by
    intro d hd
    have hmem : d.runFields ∈ (r'.documentsOf u f).map (·.runFields) :=
      List.mem_map.mpr ⟨d, hd, rfl⟩
    rw [hsame] at hmem
    exact List.mem_map.mp hmem
  have hmap : ∀ {β : Type} (g : ObjectId × Value × ℕ × Option String → β),
      (r'.documentsOf u f).map (g ∘ MappingDoc.runFields) =
        (r.documentsOf u f).map (g ∘ MappingDoc.runFields) := by
    intro β g
    rw [← List.map_map, ← List.map_map, hsame]
  refine ⟨?_, ?_, ?_, ?_⟩
  · rw [← h.counts]
    exact hmap fun fields => fields.2.2.1
  · have hids : (r'.documentsOf u f).map (·._id) = (r.documentsOf u f).map (·._id) :=
      hmap fun fields => fields.1
    rw [hids]
    exact h.ordered
  · intro d hd
    obtain ⟨e, he, hfields⟩ := hold d hd
    rw [← h.sources e he]
    exact (congrArg (·.2.1) hfields).symm
  · intro d hd
    obtain ⟨e, he, hfields⟩ := hold d hd
    have hkind := h.kinds e he
    simp only [MappingDoc.runFields, Prod.mk.injEq] at hfields
    obtain ⟨-, -, hcount, hlog⟩ := hfields
    rw [MappingDoc.isRunRecord] at hkind ⊢
    rw [← hlog, ← hcount]
    exact hkind

/-- A change of the documents of the function that leaves alone what their
numbers depend on. -/
theorem Counted.of_change (h : Counted P u f s n k foreign w)
    (hsame : (t.registry.documentsOf u f).map (·.runFields) =
      (w.registry.documentsOf u f).map (·.runFields))
    (htext : t.registry.TextNames) (hinserted : t.inserted = w.inserted)
    (hissued : w.registry.issued ≤ t.registry.issued) :
    Counted P u f s n k foreign t where
  numbered := h.numbered.of_runFields hsame
  textNames := htext
  recorded := by
    rw [World.recordedFor, hinserted]
    exact h.recorded
  foreign := by
    intro _id hid
    obtain ⟨hold, hother⟩ := h.foreign _id hid
    refine ⟨issued_mono hold hissued, ?_⟩
    intro d hd
    have hmem : d.runFields ∈ (t.registry.documentsOf u f).map (·.runFields) :=
      List.mem_map.mpr ⟨d, hd, rfl⟩
    rw [hsame] at hmem
    obtain ⟨e, he, hfields⟩ := List.mem_map.mp hmem
    have hsameid : e._id = d._id := congrArg (·.1) hfields
    rw [← hsameid]
    exact hother e he

/-- A change that leaves `mapping` alone. -/
theorem Counted.of_mapping (h : Counted P u f s n k foreign w)
    (hmapping : t.registry.mapping = w.registry.mapping)
    (hinserted : t.inserted = w.inserted)
    (hissued : w.registry.issued ≤ t.registry.issued) :
    Counted P u f s n k foreign t := by
  refine h.of_change ?_ ?_ hinserted hissued
  · rw [documentsOf, documentsOf, hmapping]
  · rw [TextNames, hmapping]
    exact h.textNames

theorem Counted.forget (h : Counted P u f s n k foreign w) :
    Counted P u f s n k 0 w :=
  { h with foreign := by simp }

end Changes

/-! ## Requests of the web interface -/

section Requests

variable {P : Platform} {u f s u' f' : String} {n : ℕ}

/-- The request neither adds runs to the function nor changes their numbers. -/
abbrev KeepsRuns (P : Platform) (u f s : String) (n : ℕ) {α : Type}
    (p : Handler α) (known : Multiset ObjectId) : Prop :=
  p.Stable (fun w => w.registry.Identified P) (Counted P u f s n) known

theorem KeepsRuns.ask_bind {α β : Type} {query : World → β} {p : β → Handler α}
    {known : Multiset ObjectId}
    (hp : ∀ w k, Counted P u f s n k 0 w → KeepsRuns P u f s n (p (query w)) known) :
    KeepsRuns P u f s n (ask query >>= p) known :=
  fun k _ w _ h => ⟨known, h, hp w k h.forget⟩

/-- A step that leaves `mapping` alone, and uses up no identifier. -/
theorem KeepsRuns.of_confined {α : Type} {p : Handler α} {known : Multiset ObjectId}
    (hp : p.Confined fun w => (w.registry.mapping, w.registry.issued, w.inserted)) :
    KeepsRuns P u f s n p known := by
  refine Stable.of_confined ?_ hp known
  intro k foreign w t hsame h
  obtain ⟨hmapping, hissued, hinserted⟩ :
      t.registry.mapping = w.registry.mapping ∧
        t.registry.issued = w.registry.issued ∧ t.inserted = w.inserted := by
    simpa [Prod.ext_iff] using hsame
  exact h.of_mapping hmapping hinserted (Nat.le_of_eq hissued.symm)

theorem keepsRuns_postFileupload (username : Value) (filename : String)
    (content : Bytes) :
    KeepsRuns P u f s n (postFileupload P username filename content) 0 := by
  refine .ask_bind fun w k _ => ?_
  split
  · trivial
  · simp only [uploadFromStream, Program.bind_assoc]
    intro k foreign w _ h
    refine ⟨0, h.of_mapping rfl rfl (Nat.le_succ _), KeepsRuns.of_confined ?_⟩
    change (forEach insertChunk (GridFS.split P.chunkSize P.chunkSize_pos
      (P.newId w.registry.issued) content) >>= _).Confined _
    refine (Confined.forEach (fun c => ?_) _).bind fun _ => ?_
    · exact ⟨fun _ => rfl, fun _ => trivial⟩
    · exact ⟨fun _ => rfl, fun _ => trivial⟩

/-- Only requests for the function find its documents. -/
theorem documentsOf_deleteMapping {r : Registry} {_id : ObjectId}
    (hother : ∀ d ∈ r.documentsOf u f, d._id ≠ _id) :
    (r.deleteMapping _id).documentsOf u f = r.documentsOf u f := by
  rw [documentsOf, Registry.deleteMapping, filter_eraseP]
  · rfl
  · intro d hd hsame
    rw [decide_eq_true_eq] at hsame
    rw [decide_eq_false_iff_not]
    intro hnamed
    exact hother d (List.mem_filter.mpr ⟨hd, decide_eq_true hnamed⟩) hsame

theorem keepsRuns_deleteLambda (hother : (u', f') ≠ (u, f)) :
    KeepsRuns P u f s n (deleteLambda u' f') 0 := by
  intro k frame w hids h
  cases hfound : w.registry.mapping.filter (·.hasKey u' f') with
  | nil => exact ⟨0, h, by simp only [hfound]; trivial⟩
  | cons document rest =>
      have hmem : document ∈ w.registry.mapping.filter (·.hasKey u' f') := by
        rw [hfound]
        exact List.mem_cons_self ..
      obtain ⟨hd, hkey⟩ := List.mem_filter.mp hmem
      have hnot : ¬document.Named u f :=
        not_named hother ((h.textNames.hasKey_iff hd).mp hkey)
      have hforeign : w.registry.Foreign P u f document._id := by
        refine ⟨hids.mapping_issued document hd, ?_⟩
        intro d hd' hsame
        obtain ⟨hmem', hnamed⟩ := List.mem_filter.mp hd'
        rw [eq_of_key_eq hids.mapping_ids hmem' hd hsame] at hnamed
        exact hnot (of_decide_eq_true hnamed)
      refine ⟨{document._id}, ?_, ?_⟩
      · refine { h with foreign := ?_ }
        intro _id hid
        rw [zero_add] at h
        rcases Multiset.mem_add.mp hid with hid | hid
        · rw [Multiset.mem_singleton.mp hid]
          exact hforeign
        · exact h.foreign _id hid
      · simp only [hfound]
        refine Stable.modify_bind
          (fun _ _ _ _ h => h.of_mapping rfl rfl (Nat.le_refl _)) ?_
        refine Stable.modify_bind
          (fun _ _ _ _ h => h.of_mapping rfl rfl (Nat.le_refl _)) ?_
        refine Stable.modify_bind (fun k frame t _ h => ?_) trivial
        have hdocs := documentsOf_deleteMapping (u := u) (f := f)
          (h.foreign document._id (by simp)).2
        refine h.of_change ?_ ?_ rfl (Nat.le_refl _)
        · exact congrArg (List.map _) hdocs
        · intro d hd
          exact h.textNames d (List.mem_of_mem_eraseP hd)

/-- A document of another function is inserted. -/
theorem keepsRuns_insertMapping (hother : (u', f') ≠ (u, f)) {d : MappingDoc}
    (hnamed : d.Named u' f') : KeepsRuns P u f s n (insertMapping d) 0 := by
  intro k foreign w _ h
  refine ⟨0, ?_, by dsimp only; split <;> trivial⟩
  have hinsert : Counted P u f s n k (0 + foreign)
      (w.onRegistry fun r => { r with mapping := r.mapping ++ [d] }) := by
    refine h.of_change ?_ ?_ rfl (Nat.le_refl _)
    · simp [documentsOf, List.filter_append, not_named hother hnamed]
    · intro e he
      rcases List.mem_append.mp he with he | he
      · exact h.textNames e he
      · rw [List.mem_singleton.mp he]
        exact ⟨u', f', hnamed⟩
  simp only [World.onRegistry] at hinsert ⊢
  split
  · exact h
  · exact hinsert

section Bodies

variable {body : Body} (huser : body.UserName = .str u')
  (hname : body.FileName = .str f')

include huser hname

/-- A function that is registered is not registered again. -/
theorem keepsRuns_postLambda : KeepsRuns P u f s n (postLambda P body) 0 := by
  refine .ask_bind fun w k h => ?_
  split
  · trivial
  · rename_i hnone
    have hother : (u', f') ≠ (u, f) := by
      rintro ⟨⟩
      obtain ⟨d, hd, hkey⟩ := h.numbered.hasKey
      have hbody : body.hasKey P d = true := by
        simpa [Body.hasKey, huser, hname] using hkey
      exact hnone (List.countP_pos_iff.mpr ⟨d, hd, hbody⟩)
    refine .ask_bind fun _ _ _ => ?_
    split
    · trivial
    · refine .ask_bind fun _ _ _ => ?_
      refine Stable.bind (Stable.forEach _ fun g _ => ?_) fun _ => trivial
      exact keepsRuns_insertMapping hother
        (d := body.registration g) ⟨huser, hname⟩

/-- A field is set on which no number depends, or one of another function. -/
theorem keepsRuns_putField (value : Value) {set : Value → MappingDoc → MappingDoc}
    (hnames : ∀ v d, (set v d).username = d.username ∧
      (set v d).filename = d.filename)
    (hset : (∀ v d, (set v d).runFields = d.runFields) ∨
      (value ≠ .null → (u', f') ≠ (u, f)))
    (doc : Option MappingDoc) :
    KeepsRuns P u f s n (putField P body value set doc) 0 := by
  rw [putField]
  split
  · rename_i hvalue
    intro k foreign w _ h
    have hnamed : ∀ d v u f, (set v d).Named u f ↔ d.Named u f := by
      intro d v u f
      rw [MappingDoc.Named, MappingDoc.Named, (hnames v d).1, (hnames v d).2]
    refine ⟨0, h.of_change ?_ ?_ rfl (Nat.le_refl _), trivial⟩
    · rcases hset with hfields | hother
      · exact map_filter_updateFirst (fun d => by simp [hnamed])
          (fun d => hfields _ d) _
      · refine congrArg (List.map _) (filter_updateFirst ?_)
        intro d hd hkey
        have hkey' : d.hasKey u' f' = true := by
          simpa [Body.hasKey, huser, hname] using hkey
        have hnot := not_named (hother hvalue) ((h.textNames.hasKey_iff hd).mp hkey')
        exact ⟨decide_eq_false hnot, decide_eq_false fun hset =>
          hnot ((hnamed d _ u f).mp hset)⟩
    · intro d hd
      rcases mem_updateFirst hd with hd | ⟨e, hfind, rfl⟩
      · exact h.textNames d hd
      · obtain ⟨u', f', hnamed⟩ := h.textNames e (List.mem_of_find?_eq_some hfind)
        refine ⟨u', f', ?_⟩
        rwa [MappingDoc.Named, (hnames _ e).1, (hnames _ e).2]
  · trivial

theorem keepsRuns_putLambda
    (hsource : (u', f') = (u, f) → body.EventSource = .null) :
    KeepsRuns P u f s n (putLambda P body) 0 := by
  refine .ask_bind fun w k h => ?_
  split
  · refine (keepsRuns_putField huser hname _ ?_ ?_ _).bind fun _ =>
      (keepsRuns_putField huser hname _ ?_ ?_ _).bind fun _ =>
        (keepsRuns_putField huser hname _ ?_ ?_ _).bind fun _ =>
          (keepsRuns_putField huser hname _ ?_ ?_ _).bind fun _ => trivial
    · exact fun _ _ => ⟨rfl, rfl⟩
    · exact .inl fun _ _ => rfl
    · exact fun _ _ => ⟨rfl, rfl⟩
    · exact .inr fun hvalue heq => hvalue (hsource heq)
    · exact fun _ _ => ⟨rfl, rfl⟩
    · exact .inl fun _ _ => rfl
    · exact fun _ _ => ⟨rfl, rfl⟩
    · exact .inl fun _ _ => rfl
  · trivial

end Bodies

theorem keepsRuns_webHandler (request : WebRequest)
    (htext : request.1.textual = true) (hkeeps : request.1.keepsBinding u f) :
    KeepsRuns P u f s n (webHandler P request) 0 := by
  obtain ⟨request, hweb⟩ := request
  cases request with
  | fileupload username filename content =>
      exact keepsRuns_postFileupload username filename content
  | post body =>
      simp only [Request.textual, Body.textual, Bool.and_eq_true,
        Value.isText_iff] at htext
      obtain ⟨⟨u', huser⟩, ⟨f', hname⟩⟩ := htext
      exact keepsRuns_postLambda huser hname
  | put body =>
      simp only [Request.textual, Body.textual, Bool.and_eq_true,
        Value.isText_iff] at htext
      obtain ⟨⟨u', huser⟩, ⟨f', hname⟩⟩ := htext
      refine keepsRuns_putLambda huser hname ?_
      rintro ⟨⟩
      exact hkeeps huser hname
  | delete uname filename =>
      refine keepsRuns_deleteLambda ?_
      rintro ⟨⟩
      exact hkeeps ⟨rfl, rfl⟩
  | list uname =>
      refine KeepsRuns.ask_bind fun w k _ => ?_
      split <;> trivial
  | one uname fname => exact KeepsRuns.ask_bind fun w k _ => trivial
  | event params => simp [Request.isWeb] at hweb

end Requests

/-! ## The listener -/

section Listener

variable {P : Platform} {u f s : String} {n k : ℕ}

/-- The listener goes on from a state in which the function has `k` runs. -/
abbrev Runs (P : Platform) (u f s : String) (n : ℕ) {α : Type} (p : Handler α)
    (k : ℕ) : Prop :=
  p.Advances (fun w => w.registry.Identified P) (Counted P u f s n) k

theorem counted_of_same (k : ℕ) (foreign : Multiset ObjectId) (w t : World)
    (hsame : (t.registry, t.inserted) = (w.registry, w.inserted))
    (h : Counted P u f s n k foreign w) : Counted P u f s n k foreign t := by
  obtain ⟨hregistry, hinserted⟩ := Prod.mk.inj hsame
  exact h.of_mapping (by rw [hregistry]) hinserted (by rw [hregistry])

theorem Runs.confined_bind {α β : Type} {p : Handler β} {q : β → Handler α}
    (hp : p.Confined fun w => (w.registry, w.inserted))
    (hq : ∀ b, Runs P u f s n (q b) k) : Runs P u f s n (p >>= q) k :=
  Advances.confined_bind counted_of_same hp hq

theorem Runs.of_confined {α : Type} {p : Handler α}
    (hp : p.Confined fun w => (w.registry, w.inserted)) : Runs P u f s n p k :=
  Advances.of_confined counted_of_same hp k

/-- What the listener reads of a document while the function has `k` runs: its
names are those of the event, and if it is one of the function, it is the last
run or, if there is none, the registration. -/
structure MappingDoc.Newest (u f s u' f' : String) (k : ℕ) (d : MappingDoc) :
    Prop where
  named : d.Named u' f'
  counted : (u', f') = (u, f) → d.sequence_count = k ∧ d.eventsource = .str s

theorem Counted.newest {foreign : Multiset ObjectId} {w : World} {u' f' s' : String}
    (h : Counted P u f s n k foreign w) {d : MappingDoc}
    (hlatest : w.registry.latestRecord P (.str u') (.str f') (.str s') = some d) :
    d.Newest u f s u' f' k := by
  have hmem := List.argmax_mem hlatest
  have hnamed := h.textNames.named_of_recordsOf hmem
  refine ⟨hnamed, ?_⟩
  rintro ⟨⟩
  have hdoc : d ∈ w.registry.documentsOf u f :=
    List.mem_filter.mpr ⟨(List.mem_filter.mp hmem).1, decide_eq_true hnamed⟩
  have hsource := h.numbered.sources d hdoc
  have hanswers := (List.mem_filter.mp hmem).2
  rw [hsource] at hanswers
  simp only [Platform.answers_str, Bool.and_eq_true, Value.holdsText_str] at hanswers
  obtain rfl := hanswers.2
  rw [latestRecord, h.numbered.recordsOf_eq h.textNames] at hlatest
  exact ⟨h.numbered.latest_count hlatest, hsource⟩

theorem runs_recordAt_bind {α : Type} {u' f' s' : String} {p : MappingDoc → Handler α}
    (hp : ∀ d : MappingDoc, d.Newest u f s u' f' k → Runs P u f s n (p d) k) :
    Runs P u f s n (recordAt P (.str u') (.str f') (.str s') >>= p) k := by
  intro foreign w _ h
  refine ⟨k, h, ?_⟩
  change Runs P u f s n ((if _ then _ else _ : Handler MappingDoc) >>= p) k
  split
  · trivial
  · cases hlatest : w.registry.latestRecord P (.str u') (.str f') (.str s') with
    | none => trivial
    | some d => exact hp d (h.newest hlatest)

/-- A run is recorded behind the others. -/
theorem Registry.Numbered.append {r r' : Registry} (h : r.Numbered u f s k)
    {d : MappingDoc} (hdocs : r'.documentsOf u f = r.documentsOf u f ++ [d])
    (hid : ∀ e ∈ r.documentsOf u f, e._id < d._id)
    (hcount : d.sequence_count = k + 1) (hsource : d.eventsource = .str s)
    (hrun : d.isRunRecord = true) : r'.Numbered u f s (k + 1) := by
  refine ⟨?_, ?_, ?_, ?_⟩
  · rw [hdocs, List.map_append, h.counts, List.range_succ (n := k + 1)]
    simp [hcount]
  · rw [hdocs, List.map_append, List.pairwise_append]
    refine ⟨h.ordered, List.pairwise_singleton _ _, ?_⟩
    intro x hx y hy
    obtain ⟨e, he, rfl⟩ := List.mem_map.mp hx
    obtain rfl := List.mem_singleton.mp hy
    exact hid e he
  · rw [hdocs]
    intro e he
    rcases List.mem_append.mp he with he | he
    · exact h.sources e he
    · rw [List.mem_singleton.mp he]
      exact hsource
  · rw [hdocs]
    intro e he
    rcases List.mem_append.mp he with he | he
    · exact h.kinds e he
    · rw [List.mem_singleton.mp he, hrun, hcount]
      simp

variable {u' f' s' : String} {α : Type}

/-- A run of the function gets the next number, and a run of another function
changes no number. -/
theorem runs_insertRecord_bind (hmono : StrictMono P.newId) {record : RunRecord}
    {p : Unit → Handler α}
    (hnamed : record.username = .str u' ∧ record.filename = .str f')
    (hown : (u', f') = (u, f) →
      record.sequence_count = k + 1 ∧ record.eventsource = .str s)
    (hp : ∀ k, Runs P u f s n (p ()) k) :
    Runs P u f s n (insertRecord P record >>= p) k := by
  intro foreign w hids h
  let d := record.document (P.newId w.registry.issued)
  have hlater : ∀ e ∈ w.registry.documentsOf u f, e._id < d._id := by
    intro e he
    obtain ⟨j, hj, hid⟩ := hids.mapping_issued e (List.mem_filter.mp he).1
    rw [hid]
    exact hmono hj
  have htext : ∀ e ∈ w.registry.mapping ++ [d], ∃ u f, e.Named u f := by
    intro e he
    rcases List.mem_append.mp he with he | he
    · exact h.textNames e he
    · rw [List.mem_singleton.mp he]
      exact ⟨u', f', hnamed⟩
  have hforeign : ∀ _id ∈ foreign,
      (∃ j < w.registry.issued + 1, _id = P.newId j) ∧
        (∀ e ∈ w.registry.documentsOf u f, e._id ≠ _id) ∧ d._id ≠ _id := by
    intro _id hid
    obtain ⟨⟨j, hj, hid⟩, hother⟩ := h.foreign _id hid
    refine ⟨⟨j, Nat.lt_succ_of_lt hj, hid⟩, hother, ?_⟩
    rw [hid]
    exact (newId_ne hj).symm
  by_cases hsame : (u', f') = (u, f)
  · obtain ⟨hcount, hsource⟩ := hown hsame
    obtain ⟨rfl, rfl⟩ := Prod.mk.inj hsame
    have hdocs : (w.registry.mapping ++ [d]).filter (fun e => e.Named u' f') =
        w.registry.documentsOf u' f' ++ [d] := by
      have hd : d.Named u' f' := hnamed
      simp [documentsOf, List.filter_append, hd]
    refine ⟨k + 1, ⟨h.numbered.append hdocs hlater hcount hsource rfl, htext, ?_, ?_⟩,
      hp _⟩
    · have hrecorded := h.recorded
      rw [World.recordedFor] at hrecorded ⊢
      simp only [List.countP_append, hrecorded, List.countP_singleton, hnamed.1,
        hnamed.2, hsource]
      simp [Nat.add_assoc]
    · intro _id hid
      obtain ⟨hissued, hother, hne⟩ := hforeign _id hid
      refine ⟨hissued, ?_⟩
      intro e he
      rw [documentsOf, hdocs] at he
      rcases List.mem_append.mp he with he | he
      · exact hother e he
      · rw [List.mem_singleton.mp he]
        exact hne
  · have hnot : ¬d.Named u f := not_named hsame hnamed
    have hdocs : (w.registry.mapping ++ [d]).filter (fun e => e.Named u f) =
        w.registry.documentsOf u f := by
      simp [documentsOf, List.filter_append, hnot]
    refine ⟨k, ⟨h.numbered.of_documentsOf hdocs, htext, ?_, ?_⟩, hp _⟩
    · have hrecorded := h.recorded
      have hother : ¬(record.username = .str u ∧ record.filename = .str f ∧
          record.eventsource = .str s) := fun hrecord =>
        hnot ⟨hrecord.1, hrecord.2.1⟩
      rw [World.recordedFor] at hrecorded ⊢
      rw [List.countP_append, hrecorded, List.countP_singleton,
        if_neg (by simpa using hother), Nat.add_zero]
    · intro _id hid
      obtain ⟨hissued, hother, -⟩ := hforeign _id hid
      exact ⟨hissued, fun e he => hother e (by rwa [documentsOf, hdocs] at he)⟩

theorem runs_updateSequenceCount_bind (hmono : StrictMono P.newId)
    {log_uuid : String} {p : Unit → Handler α} (hp : ∀ k, Runs P u f s n (p ()) k) :
    Runs P u f s n (updateSequenceCount P (.str u') (.str f') (.str s') log_uuid >>=
      p) k := by
  simp only [updateSequenceCount, Program.bind_assoc]
  refine runs_recordAt_bind fun _ _ => runs_recordAt_bind fun record hrecord => ?_
  split
  · simp only [Program.bind_assoc, Program.pure_eq, Program.done_bind]
    refine runs_recordAt_bind fun record' hrecord' =>
      runs_recordAt_bind fun _ hname => runs_recordAt_bind fun _ huser =>
        runs_recordAt_bind fun _ _ => runs_recordAt_bind fun _ hsource =>
          runs_recordAt_bind fun _ _ => ?_
    refine runs_insertRecord_bind hmono ⟨huser.named.1, hname.named.2⟩ ?_ hp
    intro hsame
    exact ⟨congrArg (· + 1) (hrecord'.counted hsame).1, (hsource.counted hsame).2⟩
  · rename_i hfirst
    simp only [Program.bind_assoc, Program.pure_eq, Program.done_bind]
    refine runs_recordAt_bind fun _ hname => runs_recordAt_bind fun _ huser =>
      runs_recordAt_bind fun _ _ => runs_recordAt_bind fun _ hsource =>
        runs_recordAt_bind fun _ _ => ?_
    refine runs_insertRecord_bind hmono ⟨huser.named.1, hname.named.2⟩ ?_ hp
    intro hsame
    obtain ⟨hcount, -⟩ := hrecord.counted hsame
    have hnone : k = 0 := by omega
    exact ⟨by rw [hnone], (hsource.counted hsame).2⟩

theorem runs_dispatch (hmono : StrictMono P.newId) {e : Event}
    (htext : e.textual = true) : Runs P u f s n (dispatch P e) k := by
  simp only [Event.textual, Bool.and_eq_true, Value.isText_iff] at htext
  obtain ⟨⟨⟨u', huser⟩, ⟨f', hname⟩⟩, ⟨s', hsource⟩⟩ := htext
  refine Runs.confined_bind (confined_resultCount P _) fun count => ?_
  split
  · trivial
  · refine Runs.confined_bind (confined_resultAt P _) fun _ => ?_
    refine Runs.confined_bind (confined_resultAt P _) fun _ => ?_
    refine Runs.confined_bind (confined_resultAt P _) fun _ => ?_
    refine Runs.confined_bind (confined_writeFile P (fun _ _ => rfl) _ _) fun _ => ?_
    refine Runs.confined_bind ⟨fun _ => rfl, fun _ => trivial⟩ fun log_uuid => ?_
    rw [huser, hname, hsource]
    refine runs_updateSequenceCount_bind hmono fun k => ?_
    refine Runs.confined_bind ⟨fun _ => rfl, fun _ => trivial⟩ fun _ => ?_
    exact Runs.of_confined
      (confined_deployAndExecuteDocker (fun _ _ => rfl) (fun _ _ => rfl) _ _)

/-- A message that is read as an event has text in its fields. -/
def TextBody (loads : Bytes → Except Failure Value) (body : Bytes) : Prop :=
  ∀ request, readBody loads body = some request → request.textual = true

theorem runs_handleBody (hmono : StrictMono P.newId)
    {loads : Bytes → Except Failure Value} {body : Bytes}
    (htext : TextBody loads body) : Runs P u f s n (handleBody P loads body) k := by
  cases hread : loads (replaceArrows body) with
  | error x =>
      simp only [handleBody, callback, validatePayload, hread]
      trivial
  | ok params =>
      have htext' : (Request.event params).textual = true :=
        htext _ (by simp [readBody, hread, Except.toOption])
      simp only [handleBody, callback, validatePayload, hread, if_true,
        Program.ofExcept_ok, Program.done_bind, createEnvironment]
      cases hevent : readEvent params with
      | error x => trivial
      | ok e =>
          rw [Request.textual, hevent] at htext'
          exact runs_dispatch hmono htext'

end Listener

/-! ## Any run of the deployed service -/

section Deployed

variable {P : Platform} {w : World} {u f s : String}

/-- Complete requests leave nothing in progress. -/
theorem Reachable.fits (hw : Reachable P w) : Fits P 0 w := by
  obtain ⟨requests, rfl⟩ := hw
  refine runAll_invariant (I := Fits P 0) (fun w request h => ?_) (fits_empty P)
    requests
  rw [← add_zero (0 : Share)] at h
  obtain ⟨g, hfits, -⟩ := (secure_handler request).run h
  refine ⟨hfits.sound, ?_, hfits.wrote⟩
  exact ⟨Multiset.nodup_zero, by simp, by simp, by simp, by simp⟩

/-- In the deployed service no two documents of `mapping` have the same
identifier. -/
theorem identified_deployed (hw : Reachable P w) (loads : Bytes → Except Failure Value)
    (actions : List DeploymentAction) :
    (runAll (deploymentStep P loads) (idle w)
      actions).delivery.state.registry.Identified P := by
  obtain ⟨moves, hstate, -⟩ :=
    exists_moves (T := quiescent w) rfl (handledBy_requests P loads) actions
  have hshared : (quiescent w).Shared (Fits P) (fun _ _ => True) fun _ _ => True :=
    ⟨0, [], rfl, trivial, by simp, by simpa [quiescent] using hw.fits⟩
  have hids : (runAll (concurrently P) (quiescent w)
      moves).state.registry.Identified P :=
    (hshared.runAll secure_handler moves).state
      fun _ _ h => h.sound.toIdentified
  rwa [concurrently, hstate] at hids

/-- Between any two steps the function has been counted right. -/
theorem counted_deployed (hmono : StrictMono P.newId) (hw : TextReachable P w)
    {body : Body} (huser : body.UserName = .str u) (hname : body.FileName = .str f)
    (hsource : body.EventSource = .str s)
    (hcreated : ((postLambda P body).run w).1 = .ok .created)
    {loads : Bytes → Except Failure Value} {actions : List DeploymentAction}
    (hmessages : ∀ message, .publish message ∈ actions → TextBody loads message)
    (hrequests : ∀ request, .arrive request ∈ actions →
      request.1.textual = true ∧ request.1.keepsBinding u f) :
    let w₀ := exec P w (.post body)
    ∃ k foreign, Counted P u f s (w₀.recordedFor u f s) k foreign
      (runAll (deploymentStep P loads) (idle w₀) actions).delivery.state := by
  intro w₀
  have htext : (Request.post body).textual = true := by
    simp [Request.textual, Body.textual, huser, hname, Value.isText]
  have hreachable : Reachable P w₀ := (hw.exec htext).reachable
  have hbegin : Counted P u f s (w₀.recordedFor u f s) 0 0 w₀ :=
    { numbered := Numbered.start hw.wellFormed huser hname hsource hcreated
      textNames := (hw.wellFormed.after_exec htext).textNames
      recorded := rfl
      foreign := by simp }
  have hids : Throughout (deploymentStep P loads)
      (fun S => S.delivery.state.registry.Identified P) (idle w₀) actions :=
    throughout_iff.mpr fun before _ _ => identified_deployed hreachable loads before
  have hadmits : ∀ action ∈ actions,
      Admits (fun w => w.registry.Identified P)
        (Counted P u f s (w₀.recordedFor u f s)) (TextBody loads) (webHandler P)
        action := by
    intro action haction
    cases action with
    | publish message => exact hmessages message haction
    | arrive request =>
        obtain ⟨htext, hkeeps⟩ := hrequests request haction
        exact keepsRuns_webHandler request htext hkeeps
    | _ => trivial
  obtain ⟨k, known, -, -, hcounted, -⟩ :=
    ((versioned_idle hbegin).runAll
      (fun _ hbody _ => runs_handleBody hmono hbody) hids hadmits).version
  exact ⟨k, _, hcounted⟩

/-- A function has been registered for an event source.  Then messages are
published and delivered, the listener takes its steps, dies and is started again,
and requests are handled that neither delete the function nor give it another
event source.  At any time the runs of the binding are numbered from one without
gaps, and there are as many as have been recorded. -/
theorem deployed_runs_numbered (hmono : StrictMono P.newId) (hw : TextReachable P w)
    {body : Body} (huser : body.UserName = .str u) (hname : body.FileName = .str f)
    (hsource : body.EventSource = .str s)
    (hcreated : ((postLambda P body).run w).1 = .ok .created)
    {loads : Bytes → Except Failure Value} {actions : List DeploymentAction}
    (hmessages : ∀ message, .publish message ∈ actions → TextBody loads message)
    (hrequests : ∀ request, .arrive request ∈ actions →
      request.1.textual = true ∧ request.1.keepsBinding u f) :
    let w₀ := exec P w (.post body)
    let w' := (runAll (deploymentStep P loads) (idle w₀) actions).delivery.state
    (w'.registry.runsOf u f s).map (·.sequence_count) =
      List.range' 1 (w'.recordedFor u f s - w₀.recordedFor u f s) := by
  intro w₀ w'
  obtain ⟨k, foreign, hcounted⟩ :=
    counted_deployed hmono hw huser hname hsource hcreated hmessages hrequests
  have hrecorded : w'.recordedFor u f s = w₀.recordedFor u f s + k :=
    hcounted.recorded
  rw [hrecorded, Nat.add_sub_cancel_left]
  exact hcounted.numbered.runsOf_counts

/-- While a run is being recorded the function is registered again.  Then the
listener dies, and a second one runs the function once more. -/
def registeredBetweenRuns : List DeploymentAction :=
  [.publish (sampleBody "S1"), .publish (sampleBody "S1"), .start, .deliver 1,
      .begin] ++
    List.replicate 14 .consume ++
    [.arrive ⟨.post (.sample "testUser" "test.py"), Eq.refl true⟩, .other 0,
      .consume, .consume, .consume, .die, .start, .deliver 1, .begin] ++
    List.replicate 30 .consume

theorem textBody_registeredBetween {message : Bytes}
    (hmessage : .publish message ∈ registeredBetweenRuns) :
    TextBody asciiLoads message := by
  intro request hread
  have hsample : message = sampleBody "S1" := by
    simpa [registeredBetweenRuns, List.mem_replicate] using hmessage
  rw [hsample, readBody, loads_sampleBody readsAscii_asciiLoads] at hread
  obtain rfl := Option.some.inj hread
  decide

theorem keepsBinding_registeredBetween {request : WebRequest}
    (hrequest : .arrive request ∈ registeredBetweenRuns) :
    request.1.textual = true ∧ request.1.keepsBinding "testUser" "test.py" := by
  obtain rfl : request = ⟨.post (.sample "testUser" "test.py"), rfl⟩ := by
    simpa [registeredBetweenRuns, List.mem_replicate] using hrequest
  exact ⟨by decide, trivial⟩

theorem deployed_runs_numbered_registeredBetween :
    let w₀ := exec default oneUpload (.post (.sample "testUser" "test.py"))
    let w' := (runAll (deploymentStep default asciiLoads) (idle w₀)
      registeredBetweenRuns).delivery.state
    (w'.registry.runsOf "testUser" "test.py" "S1").map (·.sequence_count) =
      List.range' 1 (w'.recordedFor "testUser" "test.py" "S1" -
        w₀.recordedFor "testUser" "test.py" "S1") := by
  have hreachable : TextReachable default oneUpload := ⟨_, by decide, rfl⟩
  exact deployed_runs_numbered (fun _ _ h => h) hreachable rfl rfl rfl (by decide)
    (fun _ => textBody_registeredBetween) fun _ => keepsBinding_registeredBetween

end Deployed

end LambdaOnOpenStack
