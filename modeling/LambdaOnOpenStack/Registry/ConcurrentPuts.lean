import LambdaOnOpenStack.Registry.Consistency
import LambdaOnOpenStack.Support.Writes
import Mathlib.Data.List.Permutation

/-!
# Concurrent updates

A `PUT` sets up to four fields by four updates of the same document, and the
updates of several of them can alternate.  There is no order of the whole
requests that explains the result, but for each field there is one.
-/

namespace LambdaOnOpenStack

open Support Program

/-! ## The fields of a `PUT` -/

/-- The fields that `PUT /lambda` can set, in the order in which it does. -/
inductive Setting where
  | eventType
  | eventSource
  | memory
  | environment
  deriving DecidableEq

namespace Setting

def get : Setting → MappingDoc → Option Value
  | eventType, d => some d.eventType
  | eventSource, d => some d.eventsource
  | memory, d => some d.memory
  | environment, d => d.environment

def set : Setting → Value → MappingDoc → MappingDoc
  | eventType => MappingDoc.setEventType
  | eventSource => MappingDoc.setEventSource
  | memory => MappingDoc.setMemory
  | environment => MappingDoc.setEnvironment

def given (body : Body) : Setting → Value
  | eventType => body.EventType
  | eventSource => body.EventSource
  | memory => body.Memory
  | environment => body.Environment

end Setting

/-- The settings of a document as cells. -/
def settings : Cells MappingDoc Setting Value where
  get := Setting.get
  set := Setting.set
  get_set_self := by
    intro c x d
    cases c <;> rfl
  get_set_of_ne := by
    intro c c' x d hne
    cases c <;> cases c' <;> first | rfl | exact absurd rfl hne

namespace Body

variable (P : Platform) (body : Body)

/-- What the update of one field writes. -/
def writesTo (field : Setting) : List (Setting × Value) :=
  if field.given body ≠ .null then
    [(field, .str (Ruby.toText P.table (field.given body)))]
  else []

/-- What a whole `PUT` writes. -/
def writes : List (Setting × Value) :=
  body.writesTo P .eventType ++ (body.writesTo P .eventSource ++
    (body.writesTo P .memory ++ body.writesTo P .environment))

end Body

/-- Several `PUT` requests have arrived and none has taken a step. -/
def concurrentPuts (P : Platform) (w : World) (puts : List Body) : Traffic where
  state := w
  main := .done ()
  others := puts.map (putLambda P)

/-- After the requests have taken their steps in the order `schedule`. -/
def afterPuts (P : Platform) (w : World) (puts : List Body)
    (schedule : List ℕ) : Traffic :=
  runAll (trafficStep P) (concurrentPuts P w puts) (schedule.map .other)

/-- The requests have left the document that they would have left one after
another in some order. -/
def PutsSerialisable (P : Platform) (w : World) (u f : String)
    (puts : List Body) (schedule : List ℕ) : Prop :=
  ∃ order : List Body, order.Perm puts ∧
    (afterPuts P w puts schedule).state.registry.mapping.find?
        (·.hasKey u f) =
      (runAll (exec P) w (order.map .put)).registry.mapping.find?
        (·.hasKey u f)

/-- The documents differ in settings at most. -/
def MappingDoc.SameButSettings (d e : MappingDoc) : Prop :=
  d._id = e._id ∧ d.username = e.username ∧ d.filename = e.filename ∧
    d.sequence_count = e.sequence_count ∧ d.log_uuid = e.log_uuid

/-- The database after the document of a function has become `d`. -/
def Registry.replaceKey (u f : String) (d : MappingDoc) (r : Registry) :
    Registry :=
  { r with mapping := updateFirst (·.hasKey u f) (fun _ => d) r.mapping }

variable {P : Platform} {w : World} {u f : String} {body : Body}

/-! ## One request -/

theorem Body.mem_writes {field : Setting} {x : Value}
    (hx : (field, x) ∈ body.writes P) :
    x = .str (Ruby.toText P.table (field.given body)) := by
  have hone : ∀ field', (field, x) ∈ body.writesTo P field' →
      x = .str (Ruby.toText P.table (field.given body)) := by
    intro field' hmem
    rw [Body.writesTo] at hmem
    split at hmem
    · obtain ⟨rfl, rfl⟩ := Prod.mk.inj (List.mem_singleton.mp hmem)
      rfl
    · simp at hmem
  simp only [Body.writes, List.mem_append] at hx
  rcases hx with hx | hx | hx | hx <;> exact hone _ hx

theorem Body.foldl_writesTo (field : Setting) (d : MappingDoc) :
    (body.writesTo P field).foldl settings.write d =
      fieldUpdate P (field.given body) field.set d := by
  by_cases hnull : field.given body = .null <;>
    simp [Body.writesTo, fieldUpdate, hnull, Cells.write, settings]

theorem Body.update_eq_foldl (d : MappingDoc) :
    body.update P d = (body.writes P).foldl settings.write d := by
  simp only [Body.writes, List.foldl_append, Body.foldl_writesTo]
  rfl

/-- One update of the document of a function. -/
def putWrite (u f : String) (w : World) (x : Setting × Value) : World :=
  w.onRegistry fun r =>
    { r with mapping := updateFirst (·.hasKey u f) (settings.write · x) r.mapping }

/-- The function has a document. -/
def World.Has (u f : String) (w : World) : Prop :=
  w.registry.mapping.any (·.hasKey u f) = true

theorem hasKey_write (d : MappingDoc) (x : Setting × Value) :
    (settings.write d x).hasKey u f = d.hasKey u f := by
  obtain ⟨field, v⟩ := x
  cases field <;> rfl

theorem hasKey_foldl (ws : List (Setting × Value)) (d : MappingDoc) :
    (ws.foldl settings.write d).hasKey u f = d.hasKey u f := by
  induction ws generalizing d with
  | nil => rfl
  | cons x ws ih => rw [List.foldl_cons, ih, hasKey_write]

/-- Many updates of the first match are one. -/
theorem foldl_putWrite (ws : List (Setting × Value)) (w : World) :
    ws.foldl (putWrite u f) w =
      w.onRegistry fun r =>
        { r with
          mapping := updateFirst (·.hasKey u f)
            (fun d => ws.foldl settings.write d) r.mapping } := by
  induction ws generalizing w with
  | nil =>
      have hid := updateFirst_id (fun d : MappingDoc => d.hasKey u f)
        w.registry.mapping
      simp only [List.foldl_nil, World.onRegistry]
      rw [show (fun d : MappingDoc => d) = id from rfl, hid]
  | cons x ws ih =>
      rw [List.foldl_cons, ih]
      simp only [putWrite, World.onRegistry]
      rw [updateFirst_updateFirst fun d => hasKey_write d x]
      rfl

theorem World.Has.putWrite (h : w.Has u f) (x : Setting × Value) :
    (putWrite u f w x).Has u f := by
  obtain ⟨d, hd, hkey⟩ := List.any_eq_true.mp h
  obtain ⟨e, hfind⟩ : ∃ e, w.registry.mapping.find? (·.hasKey u f) = some e := by
    rw [← Option.isSome_iff_exists, List.find?_isSome]
    exact ⟨d, hd, hkey⟩
  have hnew := find?_updateFirst_self (p := fun d : MappingDoc => d.hasKey u f)
    (fun d => hasKey_write d x) w.registry.mapping
  rw [hfind, Option.map_some] at hnew
  exact List.any_eq_true.mpr
    ⟨_, List.mem_of_find?_eq_some hnew, List.find?_some hnew⟩

/-- One after another the requests perform their writes one after another. -/
theorem runAll_puts {order : List Body}
    (horder : ∀ body ∈ order, body.Targets P u f) (w : World) :
    runAll (exec P) w (order.map .put) =
      (order.flatMap (Body.writes P)).foldl (putWrite u f) w := by
  induction order generalizing w with
  | nil => rfl
  | cons body order ih =>
      obtain ⟨hbody, hrest⟩ := List.forall_mem_cons.mp horder
      have hexec : exec P w (.put body) =
          (body.writes P).foldl (LambdaOnOpenStack.putWrite u f) w := by
        rw [exec_put_eq, foldl_putWrite]
        congr 1
        funext r
        rw [Registry.updateKey, hbody.hasKey]
        congr 2
        funext d
        exact body.update_eq_foldl d
      rw [List.map_cons, runAll_cons, hexec, ih hrest, List.flatMap_cons,
        List.foldl_append]

/-! ## Interleaved requests -/

theorem performs_putField (hbody : body.Targets P u f) (field : Setting)
    (doc : Option MappingDoc) :
    (putField P body (field.given body) field.set doc).Performs (World.Has u f)
      (putWrite u f) (body.writesTo P field) := by
  by_cases hnull : field.given body = .null
  · simp [putField, Body.writesTo, hnull, Performs]
  · simp only [putField, Body.writesTo, hnull, ne_eq, not_false_eq_true,
      ↓reduceIte, setFirst, hbody.hasKey]
    exact Or.inr ⟨_, [], rfl, fun _ _ => ⟨rfl, rfl⟩⟩

/-- A `PUT` for a function with a document performs its writes. -/
theorem performs_putLambda (hbody : body.Targets P u f) :
    (putLambda P body).Performs (World.Has u f) (putWrite u f)
      (body.writes P) := by
  left
  intro w hw
  refine ⟨rfl, ?_⟩
  have hcount : w.registry.mapping.countP (body.hasKey P) > 0 := by
    rw [hbody.hasKey, gt_iff_lt, List.countP_pos_iff]
    exact List.any_eq_true.mp hw
  have hrest : ∀ doc : Option MappingDoc,
      (Program.done (Reply.document doc) : Handler Reply).Performs
        (World.Has u f) (putWrite u f) [] := fun _ => rfl
  change Performs _ _ (if w.registry.mapping.countP (body.hasKey P) > 0 then _
    else _) _
  rw [if_pos hcount]
  refine (performs_putField hbody .eventType none).bind fun doc => ?_
  refine (performs_putField hbody .eventSource doc).bind fun doc => ?_
  refine (performs_putField hbody .memory doc).bind fun doc => ?_
  rw [← List.append_nil (body.writesTo P .environment)]
  exact (performs_putField hbody .environment doc).bind hrest

/-- However the steps of the requests alternate, in the end all their writes
have been performed in some order. -/
theorem afterPuts_performed {puts : List Body}
    (hputs : ∀ body ∈ puts, body.Targets P u f) (hw : w.Has u f)
    {schedule : List ℕ}
    (hended : ∀ p ∈ (afterPuts P w puts schedule).others,
      ∃ reply, p = .done reply) :
    ∃ performed : List (Setting × Value),
      performed.Perm (puts.flatMap (Body.writes P)) ∧
        (afterPuts P w puts schedule).state =
          performed.foldl (putWrite u f) w := by
  have hstart : (concurrentPuts P w puts).Writing (World.Has u f) (putWrite u f)
      (puts.flatMap (Body.writes P)) w := by
    refine ⟨[], puts.map (Body.writes P), ?_, rfl, hw, ?_⟩
    · rw [List.nil_append, List.flatMap]
    · simp only [concurrentPuts, List.forall₂_map_left_iff,
        List.forall₂_map_right_iff]
      exact List.forall₂_same.mpr fun body hbody =>
        performs_putLambda (hputs body hbody)
  have hmoves : Along (trafficStep P) (fun _ move => ∃ i, move = .other i)
      (concurrentPuts P w puts) (schedule.map .other) := by
    apply along_of_forall
    intro move hmove S
    obtain ⟨i, -, rfl⟩ := List.mem_map.mp hmove
    exact ⟨i, rfl⟩
  have hrun := runAll_invariant_along
    (I := fun S => S.Writing (World.Has u f) (putWrite u f)
      (puts.flatMap (Body.writes P)) w)
    (fun S move h hmove => by
      obtain ⟨i, rfl⟩ := hmove
      exact h.step_other (fun _ x hs => hs.putWrite x) i)
    hstart hmoves
  exact hrun.ended hended

theorem sameButSettings_foldl (ws : List (Setting × Value)) (d : MappingDoc) :
    (ws.foldl settings.write d).SameButSettings d := by
  induction ws generalizing d with
  | nil => exact ⟨rfl, rfl, rfl, rfl, rfl⟩
  | cons x ws ih =>
      have hone : (settings.write d x).SameButSettings d := by
        obtain ⟨field, v⟩ := x
        cases field <;> exact ⟨rfl, rfl, rfl, rfl, rfl⟩
      obtain ⟨hid, huser, hname, hcount, hlog⟩ := ih (settings.write d x)
      obtain ⟨hid', huser', hname', hcount', hlog'⟩ := hone
      exact ⟨hid.trans hid', huser.trans huser', hname.trans hname',
        hcount.trans hcount', hlog.trans hlog'⟩

/-- The document of a function after writes to it. -/
theorem find?_foldl_putWrite {g : MappingDoc}
    (hg : w.registry.mapping.find? (·.hasKey u f) = some g)
    (ws : List (Setting × Value)) :
    (ws.foldl (putWrite u f) w).registry.mapping.find? (·.hasKey u f) =
      some (ws.foldl settings.write g) := by
  rw [foldl_putWrite]
  have hnew := find?_updateFirst_self (p := fun d : MappingDoc => d.hasKey u f)
    (fun d => hasKey_foldl ws d) w.registry.mapping
  rw [hg] at hnew
  exact hnew

/-- Any number of `PUT` requests for one function take their steps in any
order.  They change its document only, and of this only the settings.  For each
setting there is an order in which the requests, one after another, would have
left the same value. -/
theorem puts_serialisable_by_field {g : MappingDoc}
    (hg : w.registry.mapping.find? (·.hasKey u f) = some g)
    {puts : List Body} (hputs : ∀ body ∈ puts, body.Targets P u f)
    {schedule : List ℕ}
    (hended : ∀ p ∈ (afterPuts P w puts schedule).others,
      ∃ reply, p = .done reply) :
    ∃ d, (afterPuts P w puts schedule).state =
        w.onRegistry (Registry.replaceKey u f d) ∧
      d.SameButSettings g ∧
      ∀ field : Setting, ∃ order : List Body, order.Perm puts ∧
        ∃ e, (runAll (exec P) w (order.map .put)).registry.mapping.find?
            (·.hasKey u f) = some e ∧
          field.get d = field.get e := by
  have hw : w.Has u f :=
    List.any_eq_true.mpr
      ⟨g, List.mem_of_find?_eq_some hg, List.find?_some hg⟩
  obtain ⟨performed, hperm, hstate⟩ := afterPuts_performed hputs hw hended
  refine ⟨performed.foldl settings.write g, ?_, sameButSettings_foldl _ _, ?_⟩
  · rw [hstate, foldl_putWrite]
    simp only [World.onRegistry, Registry.replaceKey]
    have hsame : updateFirst (·.hasKey u f)
          (fun d => performed.foldl settings.write d) w.registry.mapping =
        updateFirst (·.hasKey u f)
          (fun _ => performed.foldl settings.write g) w.registry.mapping :=
      updateFirst_congr hg rfl
    rw [hsame]
  · intro field
    obtain ⟨order, horder, hfield⟩ := settings.exists_order
      (fun body field x y hx hy =>
        (Body.mem_writes hx).trans (Body.mem_writes hy).symm)
      hperm field g
    refine ⟨order, horder, _, ?_, hfield⟩
    rw [runAll_puts (fun body hbody => hputs body (horder.mem_iff.mp hbody)) w]
    exact find?_foldl_putWrite hg _

/-! ## Two requests -/

/-- A request that sets the event type and the event source. -/
def Body.retarget (eventType eventSource : String) : Body where
  FileName := .str "test.py"
  UserName := .str "testUser"
  EventType := .str eventType
  EventSource := .str eventSource
  Memory := .null
  Environment := .null

def twoPuts : List Body :=
  [.retarget "FilexxxxCreate" "S1", .retarget "FilexxxxDelete" "S2"]

/-- The second request sets both fields between the two updates of the first. -/
def oneInsideTheOther : List ℕ := [0, 1, 0, 1, 1, 0]

theorem twoPuts_ended :
    ∀ p ∈ (afterPuts default oneFunction twoPuts oneInsideTheOther).others,
      ∃ reply, p = .done reply := by
  intro p hp
  have hothers : (afterPuts default oneFunction twoPuts oneInsideTheOther).others =
      [.done _, .done _] := rfl
  rw [hothers] at hp
  simp only [List.mem_cons, List.not_mem_nil, or_false] at hp
  rcases hp with rfl | rfl <;> exact ⟨_, rfl⟩

theorem puts_serialisable_by_field_twoPuts :
    ∃ d, (afterPuts default oneFunction twoPuts oneInsideTheOther).state =
        oneFunction.onRegistry (Registry.replaceKey "testUser" "test.py" d) ∧
      d.SameButSettings oneRegistration ∧
      ∀ field : Setting, ∃ order : List Body, order.Perm twoPuts ∧
        ∃ e, (runAll (exec default) oneFunction
            (order.map .put)).registry.mapping.find?
              (·.hasKey "testUser" "test.py") = some e ∧
          field.get d = field.get e := by
  refine puts_serialisable_by_field (by decide) ?_ twoPuts_ended
  intro body hbody
  simp only [twoPuts, List.mem_cons, List.not_mem_nil, or_false] at hbody
  rcases hbody with rfl | rfl <;> exact ⟨rfl, rfl⟩

/-- The type is that of the second request and the source that of the first. -/
theorem puts_not_serialisable :
    (∀ p ∈ (afterPuts default oneFunction twoPuts oneInsideTheOther).others,
        ∃ reply, p = .done reply) ∧
      ¬PutsSerialisable default oneFunction "testUser" "test.py" twoPuts
        oneInsideTheOther := by
  refine ⟨twoPuts_ended, ?_⟩
  rintro ⟨order, horder, hsame⟩
  have hall : ∀ order ∈ twoPuts.permutations',
      (afterPuts default oneFunction twoPuts
          oneInsideTheOther).state.registry.mapping.find?
            (·.hasKey "testUser" "test.py") ≠
        (runAll (exec default) oneFunction
          (order.map .put)).registry.mapping.find?
            (·.hasKey "testUser" "test.py") := by decide
  exact hall order (List.mem_permutations'.mpr horder) hsame

end LambdaOnOpenStack
