import LambdaOnOpenStack.Registry.Consistency
import LambdaOnOpenStack.Registry.CreatedKeys

/-!
# The memory of an execution

`POST` stores the memory of a function as it was sent, `PUT` stores its text
form.  A dispatch compares what is stored with a number to choose the flavour
of the server, and hands it on to become the memory limit of the container.
Every text is greater than every number, so a text gets the large flavour.
-/

namespace LambdaOnOpenStack

open Support Registry

/-! ## Amounts of memory -/

/-- The megabytes that a value stands for: a positive whole number, as a
number or in digits. -/
def Value.megabytes : Value → Option ℕ
  | .int n => if 0 < n then some n.toNat else none
  | .str s =>
      let n := Nat.ofDigitChars 10 s.toList 0
      if s.toList.all Char.isDigit && 0 < n then some n else none
  | _ => none

/-- The memory is absent or an amount. -/
def Value.isAmount (v : Value) : Bool := v = .null || v.megabytes.isSome

/-- What the memory of a function amounts to. -/
def Value.amount (v : Value) : ℕ := v.megabytes.getD 128

/-- `str(memory)`; `repr` writes the values that are neither text nor a whole
number. -/
def memoryArgument (repr : Value → String) : Value → String
  | .str s => s
  | .int n => toString n
  | v => repr v

/-- `MEMORY=$3"m"` of `swarm_exec.sh`, the limit of the container. -/
def MEMORY (argument : String) : String := argument ++ "m"

/-- The limit is `n` megabytes. -/
def IsLimit (n : ℕ) (limit : String) : Prop :=
  ∃ digits : String, limit = MEMORY digits ∧
    (Value.str digits).megabytes = some n

section Amount

variable {v : Value} {n : ℕ}

theorem megabytes_str {s : String} (hdigits : ∀ c ∈ s.toList, c.isDigit = true)
    (hvalue : Nat.ofDigitChars 10 s.toList 0 = n) (hpos : 0 < n) :
    (Value.str s).megabytes = some n := by
  have hall : s.toList.all Char.isDigit = true := List.all_eq_true.mpr hdigits
  simp [Value.megabytes, hall, hvalue, hpos]

theorem megabytes_toString {i : ℤ} (hpos : 0 < i) :
    (Value.str (toString i)).megabytes = some i.toNat := by
  obtain ⟨k, rfl⟩ := Int.eq_ofNat_of_zero_le hpos.le
  have htext : (toString (k : ℤ)).toList = Nat.toDigits 10 k := by
    show (toString k).toList = _
    rw [Nat.toString_eq_repr, Nat.toList_repr]
  apply megabytes_str
  · intro c hc
    rw [htext] at hc
    exact Nat.isDigit_of_mem_toDigits (by decide) (by decide) hc
  · rw [htext, Nat.ofDigitChars_ten_toDigits]
    rfl
  · simpa using hpos

/-- Both languages write an amount in the same way. -/
theorem memoryArgument_eq_toText (repr : Value → String) (T : CharacterTable)
    (hv : v.megabytes = some n) :
    memoryArgument repr v = Ruby.toText T v := by
  cases v with
  | int i => simp [memoryArgument, Ruby.toText, Ruby.inspect]
  | str s => rfl
  | _ => simp [Value.megabytes] at hv

/-- The text form of an amount is the same amount. -/
theorem megabytes_toText (T : CharacterTable) (hv : v.megabytes = some n) :
    (Value.str (Ruby.toText T v)).megabytes = some n := by
  rw [← memoryArgument_eq_toText (fun _ => "") T hv]
  cases v with
  | int i =>
      by_cases hpos : 0 < i
      · have hn : i.toNat = n := by simpa [Value.megabytes, hpos] using hv
        rw [memoryArgument, megabytes_toString hpos, hn]
      · simp [Value.megabytes, hpos] at hv
  | str s => exact hv
  | _ => simp [Value.megabytes] at hv

/-- An amount is not replaced by the default. -/
theorem orElse_of_megabytes (hv : v.megabytes = some n) (default : Value) :
    v.orElse default = v := by
  have htruthy : v.truthy = true := by
    by_contra hfalse
    cases v with
    | int i =>
        have hzero : i = 0 := by simpa [Value.truthy] using hfalse
        simp [hzero, Value.megabytes] at hv
    | str s =>
        have hempty : s = "" := by simpa [Value.truthy] using hfalse
        simp [hempty, Value.megabytes] at hv
    | _ => simp [Value.megabytes] at hv
  rw [Value.orElse, if_pos htruthy]

theorem isAmount_cases (hv : v.isAmount = true) :
    v = .null ∨ ∃ n, v.megabytes = some n := by
  simpa [Value.isAmount, Option.isSome_iff_exists] using hv

/-- What `PUT` stores is again absent or an amount. -/
theorem isAmount_putValue (P : Platform) {old : Value} (hv : v.isAmount = true)
    (hold : old.isAmount = true) : (putValue P v old).isAmount = true := by
  by_cases hnull : v = .null
  · rw [putValue, if_pos hnull]
    exact hold
  · rw [putValue, if_neg hnull]
    rcases isAmount_cases hv with hnull' | ⟨n, hn⟩
    · exact absurd hnull' hnull
    · simp [Value.isAmount, megabytes_toText P.table hn]

/-- The limit is always the number that is stored. -/
theorem isLimit_memoryArgument (repr : Value → String) (hv : v.isAmount = true) :
    IsLimit v.amount (MEMORY (memoryArgument repr (v.orElse (.int 128)))) := by
  refine ⟨memoryArgument repr (v.orElse (.int 128)), rfl, ?_⟩
  rcases isAmount_cases hv with rfl | ⟨n, hn⟩
  · have hdefault : (Value.str "128").megabytes = some 128 := by decide
    exact hdefault
  · rw [orElse_of_megabytes hn, memoryArgument_eq_toText repr default hn,
      megabytes_toText default hn, Value.amount, hn, Option.getD_some]

/-- The comparison sees the number, unless it is in a text. -/
theorem atLeast_amount (hv : v.isAmount = true) :
    (v.orElse (.int 128)).atLeast 1000 =
      (v.isText || decide (1000 ≤ v.amount)) := by
  rcases isAmount_cases hv with rfl | ⟨n, hn⟩
  · decide
  · rw [orElse_of_megabytes hn, Value.amount, hn, Option.getD_some]
    cases v with
    | int i =>
        by_cases hpos : 0 < i
        · have hin : i.toNat = n := by simpa [Value.megabytes, hpos] using hn
          simp only [Value.atLeast, Value.isText, Bool.false_or,
            decide_eq_decide]
          omega
        · simp [Value.megabytes, hpos] at hn
    | str s => rfl
    | _ => simp [Value.megabytes] at hn

end Amount

/-! ## What was written last -/

/-- A `PUT` for the function that the body has registered. -/
def Body.Overwrites (P : Platform) (put body : Body) : Prop :=
  put.Targets P (Ruby.toText P.table body.UserName)
    (Ruby.toText P.table body.FileName)

/-- The memory of the registration after the `PUT`s.  They store text, if
their queries find the registration. -/
def Body.lastMemory (P : Platform) (body : Body) (puts : List Body) : Value :=
  if body.textual then
    puts.foldl (fun memory put => putValue P put.Memory memory) body.Memory
  else body.Memory

variable {P : Platform} {w : World} {body : Body} {d : MappingDoc}

theorem isAmount_lastMemory (hmemory : body.Memory.isAmount = true)
    {puts : List Body} (hputs : ∀ put ∈ puts, put.Memory.isAmount = true) :
    (body.lastMemory P puts).isAmount = true := by
  rw [Body.lastMemory]
  split
  · generalize body.Memory = memory at hmemory
    induction puts generalizing memory with
    | nil => exact hmemory
    | cons put rest ih =>
        obtain ⟨hput, hrest⟩ := List.forall_mem_cons.mp hputs
        exact ih hrest _ (isAmount_putValue P hput hmemory)
  · exact hmemory

theorem Body.Overwrites.hasKey_eq {put : Body} (h : put.Overwrites P body) :
    put.hasKey P = body.hasKey P :=
  Body.Targets.hasKey h

/-- One `PUT` for the registration at the end of the collection. -/
theorem updateKey_insert {r : Registry} {put : Body}
    (hfree : ∀ e ∈ r.mapping, body.hasKey P e = false)
    (hput : put.Overwrites P body) :
    (r.insert d).updateKey P put (put.update P) =
      r.insert (if body.hasKey P d then put.update P d else d) := by
  rw [Registry.updateKey, hput.hasKey_eq]
  simp only [Registry.insert]
  rw [updateFirst_append_of_free hfree]
  simp only [updateFirst]
  split <;> rfl

/-- After the `PUT`s the registration is still the last document, and its
memory is the one that was written last. -/
theorem registry_after_puts {r : Registry} (hw : w.registry = r.insert d)
    (hfree : ∀ e ∈ r.mapping, body.hasKey P e = false) {puts : List Body}
    (hputs : ∀ put ∈ puts, put.Overwrites P body) :
    ∃ d₁, (runAll (exec P) w (puts.map .put)).registry = r.insert d₁ ∧
      d₁._id = d._id ∧ d₁.log_uuid = d.log_uuid ∧
      d₁.memory = if body.hasKey P d then
        puts.foldl (fun memory put => putValue P put.Memory memory) d.memory
      else d.memory := by
  induction puts generalizing w d with
  | nil => exact ⟨d, hw, rfl, rfl, by simp⟩
  | cons put rest ih =>
      obtain ⟨hput, hrest⟩ := List.forall_mem_cons.mp hputs
      have hnext : (exec P w (.put put)).registry =
          r.insert (if body.hasKey P d then put.update P d else d) := by
        rw [exec_put_eq, World.onRegistry_registry, hw,
          updateKey_insert hfree hput]
      obtain ⟨hid, -, -, hlog, -⟩ := update_kept (P := P) put d
      obtain ⟨d₁, hregistry, hid₁, hlog₁, hmemory₁⟩ := ih hnext hrest
      refine ⟨d₁, hregistry, ?_⟩
      by_cases hkey : body.hasKey P d = true
      · have hkey' : body.hasKey P (put.update P d) = true := by
          rw [Body.hasKey, update_hasKey]
          exact hkey
        rw [if_pos hkey] at hid₁ hlog₁ hmemory₁
        rw [if_pos hkey', Body.update_memory] at hmemory₁
        rw [if_pos hkey]
        exact ⟨hid₁.trans hid, hlog₁.trans hlog, hmemory₁⟩
      · rw [if_neg hkey] at hid₁ hlog₁ hmemory₁
        rw [if_neg hkey] at hmemory₁
        rw [if_neg hkey]
        exact ⟨hid₁, hlog₁, hmemory₁⟩

/-! ## The next dispatch -/

/-- The event is for the function `d`, the only record of its user, and the
file for it can be opened. -/
structure IsFor (P : Platform) (e : Event) (w : World) (d : MappingDoc)
    (name : String) : Prop where
  accepted : P.refuses e.user_name = false
  counted : (P.refuses e.filename || P.refuses e.event_source) = false
  only : (w.registry.mapping.filter fun d' =>
    P.answers e.user_name d'.username) = [d]
  filename_answers : P.answers e.filename d.filename = true
  source_answers : P.answers e.event_source d.eventsource = true
  filename : d.filename = .str name
  opens : P.opens (hostPath name) = true

/-- From `w` to `w'` a server of the flavour for `n` megabytes was requested,
`n` megabytes were passed to `deploy_and_execute_docker`, and if the line with
the file name could be printed, a worker was started whose container is limited
to `n` megabytes. -/
structure ExecutesIn (P : Platform) (repr : Value → String) (name : String)
    (n : ℕ) (w w' : World) : Prop where
  flavour : ∃ request, w'.serverRequests = w.serverRequests ++ [request] ∧
    request.flavor_name = if 1000 ≤ n then "m1.medium" else "m1.small"
  deployed : ∃ request log_uuid,
    w'.deployed = w.deployed ++ [(request, log_uuid)] ∧
      IsLimit n (MEMORY (memoryArgument repr request.memory))
  limit : P.prints ("file::" ++ name) = true →
    ∃ worker, w'.workers = w.workers ++ [worker] ∧
      IsLimit n (MEMORY (memoryArgument repr worker.memory))

variable {e : Event} {name : String}

/-- The dispatch finds nothing but its function. -/
theorem IsFor.completes (h : IsFor P e w d name) (hw : WellFormed P w.registry)
    (hreg : d.isRegistration = true) :
    ∃ content, Completes P e w d name content d := by
  obtain ⟨hfirst, hd, -⟩ := find?_of_filter_eq_singleton h.only
  obtain ⟨content, -, hread⟩ := hw.content_of_registration hd hreg
  have hrecords : w.registry.recordsOf P e.user_name e.filename
      e.event_source = [d] := by
    have hsplit : w.registry.recordsOf P e.user_name e.filename e.event_source =
        (w.registry.mapping.filter fun d' =>
          P.answers e.user_name d'.username).filter fun d' =>
            P.answers e.filename d'.filename &&
              P.answers e.event_source d'.eventsource := by
      rw [List.filter_filter, recordsOf]
      apply List.filter_congr
      intro d' _
      rw [Bool.and_assoc, Bool.and_comm]
    rw [hsplit, h.only]
    simp [h.filename_answers, h.source_answers]
  exact ⟨content,
    { accepted := h.accepted
      first := hfirst
      filename := h.filename
      opens := h.opens
      read := hread
      counted := h.counted
      latest := by
        rw [latestRecord, hrecords]
        rfl }⟩

/-- A dispatch for the only function of a user has the flavour and the limit of
its memory exactly if this is no text or calls for the large flavour. -/
theorem executesIn_iff (h : IsFor P e w d name) (hw : WellFormed P w.registry)
    (hreg : d.isRegistration = true) (hmemory : d.memory.isAmount = true)
    {params : Value} (hevent : readEvent params = .ok e)
    (repr : Value → String) :
    ExecutesIn P repr name d.memory.amount w (exec P w (.event params)) ↔
      (d.memory.isText = true → 1000 ≤ d.memory.amount) := by
  obtain ⟨content, hcompletes⟩ := h.completes hw hreg
  have hworld : exec P w (.event params) =
      if P.prints ("file::" ++ name) then
        (w.dispatched P e d name content d).startWorker d (P.newUuid w.uuids)
      else w.dispatched P e d name content d := by
    rw [exec_event, hevent]
    rcases (dispatch_run P e w).completed_cases with
      ⟨d', name', content', latest, hcompletes', hworld⟩ | ⟨hnone, -⟩
    · obtain ⟨rfl, rfl, rfl, rfl⟩ := hcompletes.unique hcompletes'
      exact hworld
    · exact absurd hcompletes (hnone _ _ _ _)
  have hserver : (exec P w (.event params)).serverRequests =
      w.serverRequests ++ [World.serverRequest e d] := by
    rw [hworld]
    split <;> rfl
  have hdeployed : (exec P w (.event params)).deployed =
      w.deployed ++ [(World.deployRequest e d, P.newUuid w.uuids)] := by
    rw [hworld]
    split <;> rfl
  have hflavour : getFlavourName (d.memory.orElse (.int 128)) =
      (if 1000 ≤ d.memory.amount then "m1.medium" else "m1.small") ↔
        (d.memory.isText = true → 1000 ≤ d.memory.amount) := by
    rw [getFlavourName, atLeast_amount hmemory]
    by_cases htext : d.memory.isText = true <;>
      by_cases hlarge : 1000 ≤ d.memory.amount <;> simp [htext, hlarge]
  have hlimit := isLimit_memoryArgument repr hmemory
  rw [← hflavour]
  constructor
  · rintro ⟨⟨request, hrequests, hname⟩, -, -⟩
    rw [hserver] at hrequests
    obtain rfl := List.singleton_inj.mp (List.append_cancel_left hrequests)
    exact hname
  · intro hname
    refine ⟨⟨_, hserver, hname⟩, ⟨_, _, hdeployed, hlimit⟩, ?_⟩
    intro hprints
    rw [hworld, if_pos hprints]
    exact ⟨_, rfl, hlimit⟩

/-- A function is registered with an amount of memory and updated any number of
times, and then executed; no other record of its user is there.  The flavour
and the limit are those of the memory that was written last exactly if this is
not stored as text, or is at least 1000. -/
theorem memory_followed_iff (hw : Reachable P w)
    (hinserts : (exec P w (.post body)).registry.mapping =
      w.registry.mapping ++ [d])
    (hmemory : body.Memory.isAmount = true) {puts : List Body}
    (hputs : ∀ put ∈ puts, put.Overwrites P body ∧ put.Memory.isAmount = true)
    {d₁ : MappingDoc} (hid : d₁._id = d._id) {params : Value}
    (hevent : readEvent params = .ok e)
    (hfor : IsFor P e
      (runAll (exec P) (exec P w (.post body)) (puts.map .put)) d₁ name)
    (repr : Value → String) :
    ExecutesIn P repr name (body.lastMemory P puts).amount
        (runAll (exec P) (exec P w (.post body)) (puts.map .put))
        (exec P (runAll (exec P) (exec P w (.post body)) (puts.map .put))
          (.event params)) ↔
      ((body.lastMemory P puts).isText = true →
        1000 ≤ (body.lastMemory P puts).amount) := by
  obtain ⟨hfree, f, -, rfl, hcreated⟩ := created_cases hw.wellFormed hinserts
  have hstart : (exec P w (.post body)).registry =
      w.registry.insert (body.registration f) := by
    rw [hcreated]
    rfl
  obtain ⟨d₂, hregistry, hid₂, hlog₂, hmemory₂⟩ := registry_after_puts hstart hfree
    fun put hput => (hputs put hput).1
  have hwell : WellFormed P
      (runAll (exec P) (exec P w (.post body)) (puts.map .put)).registry :=
    ((hw.exec (.post body)).runAll _).wellFormed
  generalize runAll (exec P) (exec P w (.post body)) (puts.map .put) = w₁
    at hfor hregistry hwell ⊢
  -- The document with the identity of the registration is the last one.
  obtain ⟨-, hd₁, -⟩ := find?_of_filter_eq_singleton hfor.only
  have hd₂ : d₂ ∈ w₁.registry.mapping := by
    rw [hregistry]
    exact List.mem_append_right _ (List.mem_singleton.mpr rfl)
  obtain rfl : d₁ = d₂ :=
    eq_of_key_eq hwell.mapping_ids hd₁ hd₂ (hid.trans hid₂.symm)
  have hlast : d₁.memory = body.lastMemory P puts := by
    rw [hmemory₂, Body.lastMemory]
    congr 1
    exact propext (hasKey_registration_iff f)
  rw [← hlast]
  refine executesIn_iff hfor hwell ?_ ?_ hevent repr
  · rw [MappingDoc.isRegistration, hlog₂]
    rfl
  · rw [hlast]
    exact isAmount_lastMemory hmemory fun put hput => (hputs put hput).2

/-- A request with this memory. -/
def Body.withMemory (memory : Value) : Body :=
  { Body.sample "testUser" "test.py" with Memory := memory }

/-- The function is registered with one amount, and `PUT` sets another one. -/
def resized (before after : Value) : World :=
  runAll (exec default)
    (exec default (fileOf "testUser" "test.py") (.post (.withMemory before)))
    ([Body.withMemory after].map .put)

/-- The registration afterwards. -/
def resizedDoc (before after : Value) : MappingDoc :=
  (Body.withMemory after).update default
    ((Body.withMemory before).registrationOf "testUser" "test.py")

theorem isFor_resized : IsFor default (sampleEvent "testUser" "test.py")
    (resized (.int 512) (.int 2048)) (resizedDoc (.int 512) (.int 2048))
    "test.py" where
  accepted := rfl
  counted := rfl
  only := by decide
  filename_answers := by decide
  source_answers := by decide
  filename := rfl
  opens := by decide

theorem memory_followed_iff_resized :
    ExecutesIn default (fun _ => "") "test.py"
        ((Body.withMemory (.int 512)).lastMemory default
          [.withMemory (.int 2048)]).amount
        (resized (.int 512) (.int 2048))
        (exec default (resized (.int 512) (.int 2048))
          (.event (samplePayload "testUser" "test.py"))) ↔
      (((Body.withMemory (.int 512)).lastMemory default
          [.withMemory (.int 2048)]).isText = true →
        1000 ≤ ((Body.withMemory (.int 512)).lastMemory default
          [.withMemory (.int 2048)]).amount) :=
  memory_followed_iff (fileOf_reachable "testUser" "test.py")
    (d := (Body.withMemory (.int 512)).registrationOf "testUser" "test.py")
    (by decide) (by decide) (by simp [Body.Overwrites, Body.Targets,
      Body.withMemory, Body.sample, Value.isAmount, Value.megabytes])
    (by decide) rfl isFor_resized (fun _ => "")

/-- A `PUT` to the same 512 megabytes makes the server a medium one. -/
theorem put_keeps_amount_changes_flavour :
    ((Body.withMemory (.int 512)).lastMemory default
        [.withMemory (.int 512)]).amount = 512 ∧
      ¬ExecutesIn default (fun _ => "") "test.py" 512
        (resized (.int 512) (.int 512))
        (exec default (resized (.int 512) (.int 512))
          (.event (samplePayload "testUser" "test.py"))) := by
  refine ⟨by decide, ?_⟩
  intro hexecutes
  obtain ⟨request, hrequests, hflavour⟩ := hexecutes.flavour
  have hmedium : (exec default (resized (.int 512) (.int 512))
      (.event (samplePayload "testUser" "test.py"))).serverRequests.map
        (·.flavor_name) = ["m1.medium"] := by decide
  have hnone : (resized (.int 512) (.int 512)).serverRequests = [] := by decide
  rw [hrequests, hnone, List.nil_append, List.map_singleton, hflavour] at hmedium
  exact absurd hmedium (by decide)

end LambdaOnOpenStack
