import LambdaOnOpenStack.Registry.Invariant

/-!
# Names that are text

Clients name a function by two texts, its user and its file name.  As long as
all of them do, every document of `mapping` has text in both fields, and the
queries for a function find exactly the documents that carry its two names.
-/

namespace LambdaOnOpenStack

open Support

/-! ## Requests with text names -/

def Value.isText : Value → Bool
  | .str _ => true
  | _ => false

theorem Value.isText_iff {v : Value} : v.isText = true ↔ ∃ s, v = .str s := by
  cases v <;> simp [Value.isText]

def Event.textual (e : Event) : Bool :=
  e.user_name.isText && e.filename.isText && e.event_source.isText

def Body.textual (body : Body) : Bool :=
  body.UserName.isText && body.FileName.isText

/-- The names in the request are text, and so are the fields of an event. -/
def Request.textual : Request → Bool
  | .fileupload username _ _ => username.isText
  | .post body => body.textual
  | .put body => body.textual
  | .event params =>
      match readEvent params with
      | .ok e => e.textual
      | .error _ => true
  | _ => true

/-- Reachable by complete requests whose names are text. -/
def TextReachable (P : Platform) (w : World) : Prop :=
  ∃ requests, (∀ request ∈ requests, request.textual = true) ∧
    runAll (exec P) {} requests = w

/-! ## Documents with text names -/

/-- The document carries these two names. -/
def MappingDoc.Named (d : MappingDoc) (u f : String) : Prop :=
  d.username = .str u ∧ d.filename = .str f

instance (d : MappingDoc) (u f : String) : Decidable (d.Named u f) :=
  inferInstanceAs (Decidable (_ ∧ _))

namespace MappingDoc

variable {d : MappingDoc} {u f u' f' : String}

theorem Named.hasKey_iff (h : d.Named u f) :
    d.hasKey u' f' = true ↔ u = u' ∧ f = f' := by
  simp [MappingDoc.hasKey, h.1, h.2]

theorem Named.unique (h : d.Named u f) (h' : d.Named u' f') :
    u = u' ∧ f = f' :=
  ⟨Value.str.inj (h.1.symm.trans h'.1), Value.str.inj (h.2.symm.trans h'.2)⟩

end MappingDoc

namespace Registry

/-- Every document carries two text names. -/
def TextNames (r : Registry) : Prop :=
  ∀ d ∈ r.mapping, ∃ u f, d.Named u f

variable {P : Platform} {r : Registry} {u f : String}

theorem TextNames.hasKey_iff (h : r.TextNames) {d : MappingDoc}
    (hd : d ∈ r.mapping) : d.hasKey u f = true ↔ d.Named u f := by
  obtain ⟨u', f', hnamed⟩ := h d hd
  rw [hnamed.hasKey_iff]
  constructor
  · rintro ⟨rfl, rfl⟩
    exact hnamed
  · exact hnamed.unique

theorem TextNames.filter_hasKey (h : r.TextNames) :
    r.mapping.filter (·.hasKey u f) =
      r.mapping.filter fun d => decide (d.Named u f) := by
  apply List.filter_congr
  intro d hd
  rw [Bool.eq_iff_iff, h.hasKey_iff hd, decide_eq_true_eq]

/-- The query of a dispatch finds records of the two names only. -/
theorem TextNames.named_of_recordsOf (h : r.TextNames) {source : Value}
    {d : MappingDoc} (hd : d ∈ r.recordsOf P (.str u) (.str f) source) :
    d.Named u f := by
  obtain ⟨hmem, hanswers⟩ := List.mem_filter.mp hd
  apply (h.hasKey_iff hmem).mp
  simp only [Platform.answers_str, Bool.and_eq_true] at hanswers
  simpa [MappingDoc.hasKey] using hanswers.1

theorem TextNames.empty : TextNames {} := by
  simp [TextNames]

theorem Change.textNames {request : Request} {r' : Registry}
    (hchange : Change P r request r') (htext : request.textual = true)
    (h : r.TextNames) : r'.TextNames := by
  cases hchange with
  | idle => exact h
  | unmatched => exact h
  | uploaded => exact h
  | @registered body g hfree hfile hid =>
      intro d hd
      rcases List.mem_append.mp hd with hd | hd
      · exact h d hd
      · obtain rfl := List.mem_singleton.mp hd
        simp only [Request.textual, Body.textual, Bool.and_eq_true,
          Value.isText_iff] at htext
        obtain ⟨⟨u, hu⟩, ⟨f, hf⟩⟩ := htext
        exact ⟨u, f, hu, hf⟩
  | updated =>
      intro d hd
      obtain ⟨e, he, -, huser, hname, -⟩ := mem_updateKey _ hd
      obtain ⟨u, f, hu, hf⟩ := h e he
      exact ⟨u, f, huser.trans hu, hname.trans hf⟩
  | removed =>
      intro d hd
      exact h d (List.mem_of_mem_eraseP hd)
  | recorded _ hlatest =>
      intro d hd
      rcases List.mem_append.mp hd with hd | hd
      · exact h d hd
      · obtain rfl := List.mem_singleton.mp hd
        obtain ⟨u, f, hu, hf⟩ :=
          h _ (List.mem_filter.mp (List.argmax_mem hlatest)).1
        exact ⟨u, f, hu, hf⟩

end Registry

open Registry

/-! ## Runs with text names -/

variable {P : Platform} {w : World}

/-- The invariant of the database with text names. -/
structure Registry.TextWellFormed (P : Platform) (r : Registry) : Prop
    extends WellFormed P r where
  textNames : r.TextNames

theorem Registry.TextWellFormed.empty : TextWellFormed P {} :=
  ⟨WellFormed.empty, TextNames.empty⟩

theorem Registry.TextWellFormed.after_exec (h : TextWellFormed P w.registry)
    {request : Request} (htext : request.textual = true) :
    TextWellFormed P (exec P w request).registry :=
  ⟨h.toWellFormed.after_exec request,
    (h.toWellFormed.change_exec request).textNames htext h.textNames⟩

theorem TextReachable.wellFormed (hw : TextReachable P w) :
    TextWellFormed P w.registry := by
  obtain ⟨requests, htext, rfl⟩ := hw
  refine runAll_invariant_along (I := fun w : World => TextWellFormed P w.registry)
    (C := fun _ request => request.textual = true)
    (fun _ _ h hrequest => h.after_exec hrequest) TextWellFormed.empty ?_
  exact along_of_forall fun request hrequest _ => htext request hrequest

theorem TextReachable.exec (hw : TextReachable P w) {request : Request}
    (htext : request.textual = true) : TextReachable P (exec P w request) := by
  obtain ⟨requests, hall, rfl⟩ := hw
  refine ⟨requests ++ [request], ?_, ?_⟩
  · intro q hq
    rcases List.mem_append.mp hq with hq | hq
    · exact hall q hq
    · rwa [List.mem_singleton.mp hq]
  · rw [runAll_append]
    rfl

end LambdaOnOpenStack
