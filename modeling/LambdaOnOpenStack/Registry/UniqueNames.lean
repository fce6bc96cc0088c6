import LambdaOnOpenStack.Registry.Consistency
import LambdaOnOpenStack.Registry.Turns

/-!
# Names under concurrent requests

Only `_id` is unique in the database, and a request inserts some steps after it
has counted.  The names stay unique if requests that count the same take turns:
none of them counts zero while another one is between its count and its end.
-/

namespace LambdaOnOpenStack

open Support Program Registry

/-- No request has arrived yet. -/
def quiescent (w : World) : Traffic where
  state := w
  main := .done ()

/-! ## Requests that take turns -/

/-- A request that has arrived; `begun` tells whether it has taken its first
step, in which it counts. -/
structure Slot where
  request : WebRequest
  begun : Bool := false

/-- The requests in progress and, as a history variable, what they are. -/
structure LoggedTraffic where
  traffic : Traffic
  slots : List Slot := []

namespace LoggedTraffic

def start (w : World) : LoggedTraffic where
  traffic := quiescent w

def step (P : Platform) (L : LoggedTraffic) (move : TrafficMove) : LoggedTraffic where
  traffic := trafficStep P L.traffic move
  slots :=
    match move with
    | .main => L.slots
    | .other i => L.slots.modify i fun slot => { slot with begun := true }
    | .arrive request => L.slots ++ [{ request := request }]

/-- The requests between their count and their end. -/
def inProgress (L : LoggedTraffic) : List WebRequest :=
  ((L.slots.zip L.traffic.others).filter fun x =>
    x.1.begun && !x.2.isOver).map (·.1.request)

/-- A request whose count gives zero makes it while no other request with the
same guard is between its count and its end; and the names in a `POST /lambda` are
text if queries can find them. -/
def TakesTurns (P : Platform) (L : LoggedTraffic) : TrafficMove → Prop
  | .main => True
  | .other i => ∀ slot ∈ L.slots[i]?, slot.begun = false →
      ∀ g ∈ slot.request.1.guard P, g.count L.traffic.state.registry = 0 →
        ∀ other ∈ L.inProgress, other.1.guard P ≠ some g
  | .arrive ⟨.post body, _⟩ => body.plain = true
  | .arrive _ => True

instance (P : Platform) (L : LoggedTraffic) :
    (move : TrafficMove) → Decidable (L.TakesTurns P move)
  | .main => isTrue trivial
  | .other _ => inferInstanceAs (Decidable (∀ slot ∈ _, _))
  | .arrive ⟨.post body, _⟩ => inferInstanceAs (Decidable (body.plain = true))
  | .arrive ⟨.fileupload .., _⟩ | .arrive ⟨.put _, _⟩ | .arrive ⟨.delete .., _⟩
  | .arrive ⟨.list _, _⟩ | .arrive ⟨.one .., _⟩ | .arrive ⟨.event _, _⟩ =>
      isTrue trivial

/-! ## Runs in turn -/

variable {P : Platform} {L : LoggedTraffic} {phases : ℕ → Phase} {i j : ℕ}
  {slot other : Slot} {p q : Handler Reply}

def guard (P : Platform) (L : LoggedTraffic) (i : ℕ) : Option Guard :=
  L.slots[i]?.bind (·.request.1.guard P)

theorem guard_eq (hslot : L.slots[i]? = some slot) :
    L.guard P i = slot.request.1.guard P := by
  rw [guard, hslot]
  rfl

/-- The requests are where `phases` says, and they are in turn. -/
structure InTurn (P : Platform) (L : LoggedTraffic) (phases : ℕ → Phase) : Prop where
  main : L.traffic.main = .done ()
  length : L.slots.length = L.traffic.others.length
  proceeds : ∀ (i : ℕ) (slot : Slot) (p : Handler Reply),
    L.slots[i]? = some slot → L.traffic.others[i]? = some p →
      Proceeds P (slot.request.1.guard P) p (phases i)
  waiting : ∀ (i : ℕ) (slot : Slot), L.slots[i]? = some slot →
    (phases i = .waiting ↔ slot.begun = false)
  ended : ∀ (i : ℕ) (p : Handler Reply), L.traffic.others[i]? = some p →
    p.isOver = true → phases i = .ended
  turns : Turns P L.traffic.state.registry.names (L.guard P) phases

theorem InTurn.start (P : Platform) : InTurn P (start {}) fun _ => .ended where
  main := rfl
  length := rfl
  proceeds := by simp [LoggedTraffic.start]
  waiting := by simp [LoggedTraffic.start]
  ended := by simp
  turns := .start fun _ => none

theorem mem_inProgress (hslot : L.slots[i]? = some slot)
    (hp : L.traffic.others[i]? = some p) (hbegun : slot.begun = true)
    (hgoing : p.isOver = false) : slot.request ∈ L.inProgress := by
  refine List.mem_map.mpr ⟨(slot, p), List.mem_filter.mpr ⟨?_, ?_⟩, rfl⟩
  · refine List.mem_iff_getElem?.mpr ⟨i, ?_⟩
    rw [List.getElem?_zip_eq_some]
    exact ⟨hslot, hp⟩
  · simp [hbegun, hgoing]

/-- A request that counts zero finds no other one with its guard in progress. -/
theorem InTurn.turn (h : InTurn P L phases) (hturns : L.TakesTurns P (.other i))
    (hslot : L.slots[i]? = some slot) (hwaiting : phases i = .waiting) :
    ∀ g ∈ L.guard P i, g.count L.traffic.state.registry.names = 0 →
      ∀ j ≠ i, (phases j).active = true → g ∉ L.guard P j := by
  intro g hg hcount j _ hactive hguard
  rw [guard_eq hslot] at hg
  rw [Registry.count_names] at hcount
  obtain ⟨other, hother, hguard⟩ := Option.bind_eq_some_iff.mp hguard
  have hlt : j < L.traffic.others.length := by
    rw [← h.length]
    exact (List.getElem?_eq_some_iff.mp hother).1
  have hq := List.getElem?_eq_getElem hlt
  refine hturns slot hslot ((h.waiting i slot hslot).mp hwaiting) g hg hcount
    other.request (mem_inProgress hother hq ?_ ?_) hguard
  · by_contra hbegun
    rw [Bool.not_eq_true] at hbegun
    rw [(h.waiting j other hother).mpr hbegun] at hactive
    cases hactive
  · by_contra hover
    rw [Bool.not_eq_false] at hover
    rw [h.ended j _ hq hover] at hactive
    cases hactive

/-- The next step of request `i`. -/
theorem InTurn.next (h : InTurn P L phases) (hturns : L.TakesTurns P (.other i))
    (hslot : L.slots[i]? = some slot) (hp : L.traffic.others[i]? = some p) :
    ∃ phase, phase ≠ .waiting ∧
      Proceeds P (slot.request.1.guard P) (p.step L.traffic.state).1 phase ∧
      ((p.step L.traffic.state).1.isOver = true → phase = .ended) ∧
      Turns P (p.step L.traffic.state).2.registry.names (L.guard P)
        (Function.update phases i phase) := by
  have hproceeds := h.proceeds i slot p hslot hp
  cases hprogram : p with
  | atomic effect next =>
      subst hprogram
      obtain ⟨phase, hact, hnext⟩ :=
        hproceeds _ (Registry.uniqueNames_names_iff.mp h.turns.toUniqueNames)
      rw [← guard_eq hslot] at hact
      have hstep := h.turns.step hact (h.turn hturns hslot)
      by_cases hover : (next L.traffic.state).isOver = true
      · refine ⟨.ended, by simp, .of_isOver hover _, fun _ => rfl, ?_⟩
        have hfinish := hstep.finish i
        rwa [Function.update_idem] at hfinish
      · exact ⟨phase, hact.ne_waiting, hnext, fun hover' => absurd hover' hover, hstep⟩
  | _ =>
      have hended := h.ended i p hp (by rw [hprogram]; rfl)
      refine ⟨.ended, by simp, trivial, fun _ => rfl, ?_⟩
      rw [← hended, Function.update_eq_self]
      exact h.turns

theorem others_step_other (hp : L.traffic.others[i]? = some p) :
    (L.step P (.other i)).traffic =
      { L.traffic with
        state := (p.step L.traffic.state).2
        others := L.traffic.others.set i (p.step L.traffic.state).1 } := by
  simp [LoggedTraffic.step, trafficStep, System.step, hp]

theorem guard_step_other (P : Platform) (L : LoggedTraffic) (i : ℕ) :
    (L.step P (.other i)).guard P = L.guard P := by
  funext j
  simp only [guard, LoggedTraffic.step, List.getElem?_modify]
  cases L.slots[j]? with
  | none => rfl
  | some slot => by_cases hij : i = j <;> simp [hij]

theorem InTurn.step_other (h : InTurn P L phases)
    (hturns : L.TakesTurns P (.other i)) (hslot : L.slots[i]? = some slot)
    (hp : L.traffic.others[i]? = some p) :
    ∃ phases', InTurn P (L.step P (.other i)) phases' := by
  obtain ⟨phase, hbegun, hproceeds, hover, hstep⟩ := h.next hturns hslot hp
  have hlt := (List.getElem?_eq_some_iff.mp hp).1
  have hslots : ∀ (j : ℕ) (other : Slot), (L.step P (.other i)).slots[j]? = some other →
      (j = i ∧ other = { slot with begun := true }) ∨
        (j ≠ i ∧ L.slots[j]? = some other) := by
    intro j other hother
    simp only [LoggedTraffic.step] at hother
    rcases eq_or_ne j i with rfl | hji
    · rw [List.getElem?_modify_eq, hslot] at hother
      exact Or.inl ⟨rfl, (Option.some.inj hother).symm⟩
    · rw [List.getElem?_modify_ne _ _ hji.symm] at hother
      exact Or.inr ⟨hji, hother⟩
  refine ⟨Function.update phases i phase, ?_, ?_, ?_, ?_, ?_, ?_⟩
  · rw [others_step_other hp]
    exact h.main
  · rw [others_step_other hp]
    simpa [LoggedTraffic.step] using h.length
  · intro j other q hother hq
    rw [others_step_other hp] at hq
    rcases hslots j other hother with ⟨rfl, rfl⟩ | ⟨hji, hother⟩
    · rw [List.getElem?_set_self hlt] at hq
      rw [Function.update_self, ← Option.some.inj hq]
      exact hproceeds
    · rw [List.getElem?_set_ne hji.symm] at hq
      rw [Function.update_of_ne hji]
      exact h.proceeds j other q hother hq
  · intro j other hother
    rcases hslots j other hother with ⟨rfl, rfl⟩ | ⟨hji, hother⟩
    · rw [Function.update_self]
      simp [hbegun]
    · rw [Function.update_of_ne hji]
      exact h.waiting j other hother
  · intro j q hq hgone
    rw [others_step_other hp] at hq
    rcases eq_or_ne j i with rfl | hji
    · rw [List.getElem?_set_self hlt] at hq
      rw [Function.update_self]
      exact hover (by rw [Option.some.inj hq]; exact hgone)
    · rw [List.getElem?_set_ne hji.symm] at hq
      rw [Function.update_of_ne hji]
      exact h.ended j q hq hgone
  · rw [others_step_other hp, guard_step_other]
    exact hstep

/-- A request arrives and waits. -/
theorem InTurn.step_arrive (h : InTurn P L phases) {request : WebRequest}
    (hturns : L.TakesTurns P (.arrive request)) :
    InTurn P (L.step P (.arrive request))
      (Function.update phases L.slots.length .waiting) := by
  have hplain : ∀ body, request.1 = .post body → body.plain = true := by
    obtain ⟨request, hweb⟩ := request
    rintro body rfl
    exact hturns
  have hlength := h.length
  refine ⟨h.main, ?_, ?_, ?_, ?_, ?_⟩
  · simpa [LoggedTraffic.step, trafficStep, System.step] using h.length
  · intro j other q hother hq
    rcases getElem?_concat_cases hother with hother | ⟨rfl, rfl⟩
    · have hlt := (List.getElem?_eq_some_iff.mp hother).1
      rw [Function.update_of_ne (Nat.ne_of_lt hlt)]
      rcases getElem?_concat_cases hq with hq | ⟨rfl, -⟩
      · exact h.proceeds j other q hother hq
      · exact absurd h.length (Nat.ne_of_gt hlt)
    · rw [Function.update_self]
      rcases getElem?_concat_cases hq with hq | ⟨-, rfl⟩
      · have hlt := (List.getElem?_eq_some_iff.mp hq).1
        exact absurd h.length (Nat.ne_of_lt hlt)
      · exact proceeds_webHandler request hplain
  · intro j other hother
    rcases getElem?_concat_cases hother with hother | ⟨rfl, rfl⟩
    · have hlt := (List.getElem?_eq_some_iff.mp hother).1
      rw [Function.update_of_ne (Nat.ne_of_lt hlt)]
      exact h.waiting j other hother
    · simp
  · intro j q hq hgone
    rcases getElem?_concat_cases hq with hq | ⟨-, rfl⟩
    · have hlt := (List.getElem?_eq_some_iff.mp hq).1
      rw [← h.length] at hlt
      rw [Function.update_of_ne (Nat.ne_of_lt hlt)]
      exact h.ended j q hq hgone
    · rw [isOver_webHandler] at hgone
      cases hgone
  · refine h.turns.arrive fun j hj => ?_
    have hslots : (L.slots ++ [({ request := request } : Slot)])[j]? = L.slots[j]? := by
      grind
    exact congrArg (·.bind (·.request.1.guard P)) hslots

theorem InTurn.step (h : InTurn P L phases) {move : TrafficMove}
    (hturns : L.TakesTurns P move) : ∃ phases', InTurn P (L.step P move) phases' := by
  cases move with
  | main =>
      have hsame : L.step P .main = L := by
        obtain ⟨⟨state, main, others⟩, slots⟩ := L
        obtain rfl : main = .done () := h.main
        rfl
      rw [hsame]
      exact ⟨phases, h⟩
  | other i =>
      cases hp : L.traffic.others[i]? with
      | none =>
          have hlength : L.slots.length ≤ i := by
            rw [h.length]
            exact List.getElem?_eq_none_iff.mp hp
          have hsame : L.step P (.other i) = L := by
            simp [LoggedTraffic.step, trafficStep, System.step, hp,
              List.modify_eq_self hlength]
          rw [hsame]
          exact ⟨phases, h⟩
      | some p =>
          have hlt : i < L.slots.length := by
            rw [h.length]
            exact (List.getElem?_eq_some_iff.mp hp).1
          exact h.step_other hturns (List.getElem?_eq_getElem hlt) hp
  | arrive request => exact ⟨_, h.step_arrive hturns⟩

end LoggedTraffic

/-- Any web requests take their steps in any order, from an empty database on.
While requests with the same guard take turns between their count and their end,
and the names in a `POST /lambda` are text if queries can find them, the names are
unique in every state. -/
theorem unique_names_in_turn {P : Platform} {moves : List TrafficMove}
    (hturns : Along (LoggedTraffic.step P) (LoggedTraffic.TakesTurns P) (.start {})
      moves) :
    Throughout (trafficStep P) (fun S => S.state.registry.UniqueNames)
      (quiescent {}) moves := by
  have hthroughout : Throughout (LoggedTraffic.step P)
      (fun L => ∃ phases, L.InTurn P phases) (.start {}) moves :=
    throughout_of_along (fun _ _ ⟨_, h⟩ hmove => h.step hmove)
      ⟨_, LoggedTraffic.InTurn.start P⟩ hturns
  have hnames : Throughout (LoggedTraffic.step P)
      (fun L => L.traffic.state.registry.UniqueNames) (.start {}) moves :=
    hthroughout.imp fun _ ⟨_, h⟩ =>
      Registry.uniqueNames_names_iff.mp h.turns.toUniqueNames
  have hstep (L : LoggedTraffic) (move : TrafficMove) :
      (L.step P move).traffic = trafficStep P L.traffic move := rfl
  exact hnames.of_map (f := LoggedTraffic.traffic)
    (K := fun S => S.state.registry.UniqueNames) hstep

def sampleUpload (filename : String) : WebRequest :=
  ⟨.fileupload (.str "testUser") filename [112], Eq.refl true⟩

def samplePost (username : Value) (filename : String) : WebRequest :=
  ⟨.post { Body.sample "testUser" filename with UserName := username }, Eq.refl true⟩

/-- Uploads of two files overlap, and a second upload of one of them counts
after the first has ended; the registrations of both overlap, too; then one
function is deleted and, between the steps of this, uploaded again.  At last a
user whose name is a number registers a function twice. -/
def takingTurns : List TrafficMove :=
  [.arrive (sampleUpload "test.py"), .arrive (sampleUpload "sum.py"), .other 0,
    .other 1, .other 0, .other 1, .other 0, .other 1, .other 0,
    .arrive (sampleUpload "test.py"), .other 2, .other 1,
    .arrive (samplePost (.str "testUser") "test.py"),
    .arrive (samplePost (.str "testUser") "sum.py"), .other 3,
    .other 4, .other 4, .other 3, .other 3, .other 4, .other 4, .other 3,
    .arrive ⟨.delete "testUser" "sum.py", Eq.refl true⟩, .other 5, .other 5,
    .arrive (sampleUpload "sum.py"), .other 6, .other 5, .other 6, .other 5,
    .other 6, .other 6,
    .arrive ⟨.fileupload (.int 7) "test.py" [112], Eq.refl true⟩, .other 7, .other 7,
    .other 7, .other 7, .arrive (samplePost (.int 7) "test.py"), .other 8, .other 8,
    .other 8, .other 8, .arrive (samplePost (.int 7) "test.py"), .other 9, .other 9,
    .other 9, .other 9]

theorem unique_names_in_turn_takingTurns :
    Throughout (trafficStep default) (fun S => S.state.registry.UniqueNames)
      (quiescent {}) takingTurns :=
  unique_names_in_turn (by decide +kernel)

/-- The same file is uploaded twice at once, and both uploads count before
either inserts. -/
def uploadedTwice : List TrafficMove :=
  let upload := ⟨.fileupload (.str "testUser") "test.py" [112], rfl⟩
  [.arrive upload, .arrive upload, .other 0, .other 1] ++
    List.replicate 3 (.other 0) ++ List.replicate 3 (.other 1)

theorem two_files_with_one_name :
    ¬Throughout (trafficStep default) (fun S => S.state.registry.UniqueNames)
      (quiescent {}) uploadedTwice := by
  intro hthroughout
  have hlast := (throughout_iff.mp hthroughout uploadedTwice [] rfl).files
  revert hlast
  decide

/-- A list of texts as a user: the count does not find the registration, but the
deletion does. -/
def listedUser : List TrafficMove :=
  let upload := ⟨.fileupload (.arr [.str "7"]) "test.py" [112], rfl⟩
  let post := samplePost (.arr [.str "7"]) "test.py"
  .arrive upload :: List.replicate 4 (.other 0) ++
    .arrive post :: List.replicate 4 (.other 1) ++
    [.arrive ⟨.delete "7" "test.py", rfl⟩, .other 2, .other 2] ++
    .arrive upload :: List.replicate 4 (.other 3) ++
    .arrive post :: List.replicate 4 (.other 4)

/-- The requests that insert follow one another here. -/
example : ¬(runAll (trafficStep default) (quiescent {})
    listedUser).state.registry.UniqueNames := by
  intro hnames
  exact absurd hnames.registrations (by decide +kernel)

end LambdaOnOpenStack
