import LambdaOnOpenStack.Values.EventCoding

/-!
# Reading events back

The reader takes each escape of Ruby that JSON has for the character it stands
for, and stops at the others and at `nil`.  By induction on the event it reads
the whole body or nothing.
-/

namespace LambdaOnOpenStack

open Support Json

/-! ## Escapes -/

theorem hexValue_hexDigit {d : ℕ} (hd : d < 16) :
    hexValue (Ruby.hexDigit d) = some d := by
  interval_cases d <;> decide

theorem readHex4_hex4 {n : ℕ} (hn : n < 0x10000) (rest : List Char) :
    readHex4 (Ruby.hex4 n ++ rest) = some (n, rest) := by
  have hdigit : ∀ m, hexValue (Ruby.hexDigit (m % 16)) = some (m % 16) :=
    fun m => hexValue_hexDigit (Nat.mod_lt _ (by decide))
  have hsum : n / 4096 % 16 * 4096 + n / 256 % 16 * 256 + n / 16 % 16 * 16 +
      n % 16 = n := by omega
  simp [Ruby.hex4, readHex4, hdigit, hsum]

/-- A character is no surrogate. -/
theorem readUnicode_hex4 {c : Char} (hc : c.toNat < 0x10000)
    (rest : List Char) :
    readUnicode (Ruby.hex4 c.toNat ++ rest) = some (c, rest) := by
  have hvalid : c.toNat < 0xD800 ∨ 0xDFFF < c.toNat ∧ c.toNat < 0x110000 :=
    c.valid
  have hhigh : ¬(0xD800 ≤ c.toNat ∧ c.toNat < 0xDC00) := by omega
  have hlow : ¬(0xDC00 ≤ c.toNat ∧ c.toNat < 0xE000) := by omega
  rw [readUnicode, readHex4_hex4 hc]
  simp [hhigh, hlow]

/-- JSON has no escape with braces. -/
theorem readUnicode_brace (rest : List Char) :
    readUnicode ('{' :: rest) = none := by
  have hbrace : hexValue '{' = none := by decide
  match rest with
  | [] => rfl
  | [_] => rfl
  | [_, _] => rfl
  | _ :: _ :: _ :: _ => simp [readUnicode, readHex4, hbrace]

theorem eq_of_toNat {c : Char} {n : ℕ} (h : c.toNat = n) : c = Char.ofNat n := by
  rw [← h, Char.ofNat_toNat]

theorem readEscape_shortEscape {c letter : Char}
    (h : Ruby.shortEscape c = some letter) (rest : List Char) :
    readEscape (letter :: rest) =
      if rubyOnly letter then none else some (c, rest) := by
  rw [Ruby.shortEscape] at h
  split at h
  case h_9 => simp at h
  all_goals
    rename_i hc
    rw [eq_of_toNat hc]
    obtain rfl := Option.some.inj h
    rfl

/-- Reading one written character. -/
theorem readString_inspectChar (T : CharacterTable) (c : Char)
    (following : Option Char) (fuel : ℕ) (rest : List Char) :
    readString (fuel + 1) (Ruby.inspectChar T c following ++ rest) =
      if legibleChar T c following then
        (readString fuel rest).map fun found => (c :: found.1, found.2)
      else none := by
  have hmap : ((readString fuel rest).bind fun found =>
        some (c :: found.1, found.2)) =
      (readString fuel rest).map fun found => (c :: found.1, found.2) := by
    cases readString fuel rest <;> rfl
  rw [Ruby.inspectChar, legibleChar]
  by_cases hquote : c = '"' ∨ c = '\\'
  · rw [if_pos (by tauto), if_pos hquote]
    rcases hquote with rfl | rfl <;> simpa [readString, readEscape] using hmap
  · rw [if_neg hquote]
    by_cases hopens : c = '#' ∧ Ruby.opensInterpolation following = true
    · rw [if_pos (by tauto), if_pos hopens]
      simp [readString, readEscape, hopens.1]
    · rw [if_neg (by tauto), if_neg hopens]
      cases hshort : Ruby.shortEscape c with
      | some letter =>
          have hescape := readEscape_shortEscape hshort rest
          by_cases hletter : rubyOnly letter = true
          · rw [if_pos hletter] at hescape
            simp [readString, hescape, hletter]
          · rw [if_neg hletter] at hescape
            simp [readString, hescape, hletter, hmap]
      | none =>
          by_cases hprint : T.isprint c = true
          · have hcontrol : ¬c.toNat < 32 := by
              intro hlt
              have hrange := (T.ascii c (by omega)).mp hprint
              omega
            simp only [not_or] at hquote
            simp [hprint, readString, hquote, hcontrol, hmap]
          · by_cases hbmp : c.toNat < 0x10000
            · simp [hprint, hbmp, readString, readEscape,
                readUnicode_hex4 hbmp, hmap]
            · simp [hprint, hbmp, readString, readEscape, readUnicode_brace]

theorem inspectChar_ne_nil (T : CharacterTable) (c : Char)
    (following : Option Char) : Ruby.inspectChar T c following ≠ [] := by
  rcases inspectChar_cases T c following with h | ⟨letters, h, -⟩ <;> simp [h]

theorem length_le_inspectChars (T : CharacterTable) (s : List Char) :
    s.length ≤ (Ruby.inspectChars T s).length := by
  induction s with
  | nil => simp
  | cons c rest ih =>
      have hpos := List.length_pos_of_ne_nil
        (inspectChar_ne_nil T c rest.head?)
      rw [inspectChars_cons, List.length_append, List.length_cons]
      omega

/-- A written string is read back, or reading it fails. -/
theorem readString_inspectChars (T : CharacterTable) (s : List Char)
    {fuel : ℕ} (hfuel : s.length < fuel) (rest : List Char) :
    readString fuel (Ruby.inspectChars T s ++ '"' :: rest) =
      if legible T s then some (s, rest) else none := by
  induction s generalizing fuel with
  | nil =>
      obtain ⟨fuel, rfl⟩ : ∃ k, fuel = k + 1 := ⟨fuel - 1, by simp at hfuel; omega⟩
      simp [Ruby.inspectChars, readString, legible]
  | cons c s ih =>
      obtain ⟨fuel, rfl⟩ : ∃ k, fuel = k + 1 := ⟨fuel - 1, by simp at hfuel; omega⟩
      have hrest := ih (show s.length < fuel by simpa using hfuel)
      rw [inspectChars_cons, List.append_assoc, readString_inspectChar, hrest,
        legible]
      cases legibleChar T c s.head? <;> cases legible T s <;> rfl

/-! ## Values -/

/-- Every text can be read after the replacement. -/
def legibleReplaced (T : CharacterTable) (s : String) : Bool :=
  legible T (replaceText s).toList

theorem skipSpace_of_head {input : List Char} {c : Char} (h : isSpace c = false) :
    skipSpace (c :: input) = c :: input := by
  simp [skipSpace, h]

/-- A value begins with no white space. -/
theorem bodyText_head (T : CharacterTable) {v : Value} (hv : v.IsEventValue) :
    ∃ c text, bodyText T v = c :: text ∧ isSpace c = false := by
  cases hv with
  | null => exact ⟨'n', ['i', 'l'], rfl, by decide⟩
  | str s => exact ⟨'"', _, rfl, by decide⟩
  | obj => exact ⟨'{', _, rfl, by decide⟩

theorem skipSpace_bodyText (T : CharacterTable) {v : Value}
    (hv : v.IsEventValue) (rest : List Char) :
    skipSpace (bodyText T v ++ rest) = bodyText T v ++ rest := by
  obtain ⟨c, text, htext, hspace⟩ := bodyText_head T hv
  rw [htext, List.cons_append, skipSpace_of_head hspace]

section Read

variable (T : CharacterTable) (number : List Char → Value)

/-- Reading the quoted text at the head of a body. -/
theorem readString_inspectString (s : String) (rest : List Char) :
    ∃ text, Ruby.inspectString T (replaceText s).toList ++ rest = '"' :: text ∧
      readString (text.length + 1) text =
        if legibleReplaced T s then some ((replaceText s).toList, rest)
        else none := by
  refine ⟨Ruby.inspectChars T (replaceText s).toList ++ '"' :: rest, ?_, ?_⟩
  · simp [Ruby.inspectString]
  · have hlength := length_le_inspectChars T (replaceText s).toList
    apply readString_inspectChars
    rw [List.length_append]
    omega

theorem readValue_nil (fuel : ℕ) (rest : List Char) :
    readValue number fuel ('n' :: 'i' :: 'l' :: rest) = none := by
  cases fuel with
  | zero => rfl
  | succ fuel =>
      have hliteral : readLiteral ('n' :: 'i' :: 'l' :: rest) = none := by
        simp [readLiteral, literals]
      have hnumber : readNumber ('n' :: 'i' :: 'l' :: rest) = none := by
        simp [readNumber, isDigit]
      simp [readValue, hliteral, hnumber]

theorem readValue_str (s : String) (fuel : ℕ) (rest : List Char) :
    readValue number (fuel + 1)
        (Ruby.inspectString T (replaceText s).toList ++ rest) =
      if legibleReplaced T s then some (.str (replaceText s), rest)
      else none := by
  obtain ⟨text, htext, hread⟩ := readString_inspectString T s rest
  rw [htext, readValue, if_pos rfl, hread]
  cases legibleReplaced T s <;> simp

/-- What reading a body amounts to. -/
def Reads (v : Value) : Prop :=
  ∀ fuel rest, (bodyText T v).length < fuel →
    readValue number fuel (bodyText T v ++ rest) =
      if v.allText (legibleReplaced T) then some (v.replaced, rest) else none

theorem length_bodyFields_cons (k : String) (v : Value)
    (rest : List (String × Value)) :
    (bodyText T v).length < (bodyFields T ((k, v) :: rest)).length ∧
      (bodyFields T rest).length < (bodyFields T ((k, v) :: rest)).length := by
  match rest with
  | [] =>
      rw [bodyFields, bodyFields]
      simp
      omega
  | field :: rest =>
      rw [bodyFields_cons_cons]
      simp
      omega

theorem bodyFields_head (field : String × Value)
    (fields : List (String × Value)) :
    ∃ text, bodyFields T (field :: fields) = '"' :: text := by
  obtain ⟨k, v⟩ := field
  match fields with
  | [] =>
      rw [bodyFields, Ruby.inspectString]
      exact ⟨_, rfl⟩
  | field' :: fields' =>
      rw [bodyFields_cons_cons, Ruby.inspectString]
      exact ⟨_, rfl⟩

/-- Reading one pair and what follows it. -/
theorem readPairs_pair (k : String) {v : Value} (hevent : v.IsEventValue)
    (hv : Reads T number v) {fuel : ℕ} (hfuel : (bodyText T v).length < fuel)
    (tail : List Char) :
    readPairs number (fuel + 1)
        (Ruby.inspectString T (replaceText k).toList ++
          ':' :: (bodyText T v ++ tail)) =
      if legibleReplaced T k && v.allText (legibleReplaced T) then
        match skipSpace tail with
        | '}' :: rest => some ([(replaceText k, v.replaced)], rest)
        | ',' :: rest => do
            let (pairs, rest) ← readPairs number fuel (skipSpace rest)
            return ((replaceText k, v.replaced) :: pairs, rest)
        | _ => none
      else none := by
  obtain ⟨text, htext, hread⟩ := readString_inspectString T k
    (':' :: (bodyText T v ++ tail))
  have hvalue := hv fuel tail hfuel
  have hcolon : isSpace ':' = false := by decide
  rw [htext, readPairs, if_pos rfl, hread]
  cases hk : legibleReplaced T k with
  | false => simp
  | true =>
      simp only [if_true, Option.bind_eq_bind, Option.bind_some,
        skipSpace_of_head hcolon, skipSpace_bodyText T hevent, hvalue,
        Bool.true_and]
      cases v.allText (legibleReplaced T) with
      | false => rfl
      | true =>
          simp only [if_true, Option.bind_some, String.ofList_toList]
          rfl

/-- The pairs of an object are read one after another. -/
theorem readPairs_bodyFields {fields : List (String × Value)}
    (hne : fields ≠ [])
    (hevent : ∀ k v, (k, v) ∈ fields → v.IsEventValue)
    (hvalues : ∀ k v, (k, v) ∈ fields → Reads T number v)
    (fuel : ℕ) (rest : List Char)
    (hfuel : (bodyFields T fields).length < fuel) :
    readPairs number fuel (bodyFields T fields ++ '}' :: rest) =
      if allFieldText (legibleReplaced T) fields then
        some (replacedFields fields, rest)
      else none := by
  induction fields generalizing fuel with
  | nil => exact absurd rfl hne
  | cons field fields ih =>
      obtain ⟨k, v⟩ := field
      obtain ⟨fuel, rfl⟩ : ∃ n, fuel = n + 1 := ⟨fuel - 1, by omega⟩
      obtain ⟨hshort, htail⟩ := length_bodyFields_cons T k v fields
      have hv := hvalues k v (List.mem_cons_self ..)
      have hvevent := hevent k v (List.mem_cons_self ..)
      have hpair := readPairs_pair T number k hvevent hv
        (show (bodyText T v).length < fuel by omega)
      match fields with
      | [] =>
          have hbody : bodyFields T [(k, v)] ++ '}' :: rest =
              Ruby.inspectString T (replaceText k).toList ++
                ':' :: (bodyText T v ++ '}' :: rest) := by
            rw [bodyFields]
            simp
          have hbrace : isSpace '}' = false := by decide
          rw [hbody, hpair, skipSpace_of_head hbrace]
          simp [allFieldText, replacedFields]
      | field' :: fields' =>
          have hbody : bodyFields T ((k, v) :: field' :: fields') ++
                '}' :: rest =
              Ruby.inspectString T (replaceText k).toList ++
                ':' :: (bodyText T v ++ ',' :: ' ' ::
                  (bodyFields T (field' :: fields') ++ '}' :: rest)) := by
            rw [bodyFields_cons_cons]
            simp
          have hcomma : isSpace ',' = false := by decide
          have hrest := ih (by simp)
            (fun k' v' hmem => hevent k' v' (List.mem_cons_of_mem _ hmem))
            (fun k' v' hmem => hvalues k' v' (List.mem_cons_of_mem _ hmem))
            fuel (by omega)
          have hskip : skipSpace (' ' :: (bodyFields T (field' :: fields') ++
              '}' :: rest)) = bodyFields T (field' :: fields') ++ '}' :: rest := by
            obtain ⟨text, htext⟩ := bodyFields_head T field' fields'
            rw [htext]
            rfl
          rw [hbody, hpair, skipSpace_of_head hcomma]
          simp only [hskip, hrest, allFieldText.eq_2 _ k v,
            replacedFields.eq_2 k v]
          cases legibleReplaced T k && v.allText (legibleReplaced T) with
          | false => rfl
          | true =>
              cases allFieldText (legibleReplaced T) (field' :: fields') <;> rfl

theorem readValue_obj {fields : List (String × Value)}
    (hevent : ∀ k v, (k, v) ∈ fields → v.IsEventValue)
    (hvalues : ∀ k v, (k, v) ∈ fields → Reads T number v) :
    Reads T number (.obj fields) := by
  intro fuel rest hfuel
  have hbody : bodyText T (.obj fields) ++ rest =
      '{' :: (bodyFields T fields ++ '}' :: rest) := by
    rw [bodyText]
    simp
  obtain ⟨fuel, rfl⟩ : ∃ n, fuel = n + 1 := ⟨fuel - 1, by omega⟩
  rw [hbody, readValue, if_neg (by decide), if_pos rfl, Value.allText,
    Value.replaced]
  cases fields with
  | nil => rfl
  | cons field fields =>
      have hlength : (bodyFields T (field :: fields)).length < fuel := by
        rw [bodyText] at hfuel
        simp at hfuel
        omega
      have hpairs := readPairs_bodyFields T number (by simp) hevent hvalues
        fuel rest hlength
      obtain ⟨text, htext⟩ := bodyFields_head T field fields
      rw [htext, List.cons_append] at hpairs
      have hskip : skipSpace (bodyFields T (field :: fields) ++ '}' :: rest) =
          '"' :: (text ++ '}' :: rest) := by
        rw [htext]
        rfl
      simp only [hskip]
      change ((readPairs number fuel ('"' :: (text ++ '}' :: rest))).bind
        fun found => some (Value.obj (toDict found.1), found.2)) = _
      rw [hpairs]
      cases allFieldText (legibleReplaced T) (field :: fields) <;> rfl

/-- An event value is read as its replacement, or reading it fails. -/
theorem reads_of_event {v : Value} (hv : v.IsEventValue) : Reads T number v := by
  induction hv with
  | null =>
      intro fuel rest _
      exact readValue_nil number fuel rest
  | str s =>
      intro fuel rest hfuel
      obtain ⟨fuel, rfl⟩ : ∃ n, fuel = n + 1 := ⟨fuel - 1, by omega⟩
      exact readValue_str T number s fuel rest
  | obj _ hvalues ih => exact readValue_obj T number hvalues ih

/-- What the listener makes of the body of an event. -/
theorem decodeBody_encode (event : EventHash) :
    decodeBody number (event.encode T) =
      if (Value.obj event.fields).allText (legibleReplaced T) then
        some (Value.obj event.fields).replaced
      else none := by
  have hbody : bodyText T (.obj event.fields) =
      '{' :: (bodyFields T event.fields ++ ['}']) := by rw [bodyText]
  have hread := reads_of_event T number event.valid
    ((bodyText T (.obj event.fields)).length + 1) [] (Nat.lt_succ_self _)
  have hskip := skipSpace_bodyText T event.valid []
  have hbom : (bodyText T (.obj event.fields)).head? ≠
      some (Char.ofNat 0xFEFF) := by
    rw [hbody]
    simp only [List.head?_cons, ne_eq, Option.some.injEq]
    decide
  rw [List.append_nil] at hread hskip
  rw [decodeBody, EventHash.encode, replacePair_inspect T event.valid, loads,
    if_neg hbom, hskip, hread]
  cases (Value.obj event.fields).allText (legibleReplaced T) <;> rfl

end Read

/-! ## Dictionaries -/

theorem setField_of_fresh {key : String} (v : Value)
    {fields : List (String × Value)} (h : key ∉ fields.map Prod.fst) :
    setField key v fields = fields ++ [(key, v)] := by
  induction fields with
  | nil => rfl
  | cons field rest ih =>
      obtain ⟨k, w⟩ := field
      simp only [List.map_cons, List.mem_cons, not_or] at h
      simp [setField, Ne.symm h.1, ih h.2]

theorem mem_setField {key : String} {v : Value}
    {fields : List (String × Value)} {pair : String × Value}
    (h : pair ∈ setField key v fields) : pair = (key, v) ∨ pair ∈ fields := by
  induction fields with
  | nil => simpa [setField] using h
  | cons field rest ih =>
      obtain ⟨k, w⟩ := field
      by_cases hk : k = key
      · rw [setField, if_pos hk] at h
        rcases List.mem_cons.mp h with h | h
        · exact Or.inl h
        · exact Or.inr (List.mem_cons_of_mem _ h)
      · rw [setField, if_neg hk] at h
        rcases List.mem_cons.mp h with h | h
        · exact Or.inr (h ▸ List.mem_cons_self ..)
        · rcases ih h with h | h
          · exact Or.inl h
          · exact Or.inr (List.mem_cons_of_mem _ h)

/-- A dictionary of different keys keeps all pairs. -/
theorem toDict_of_nodup {pairs : List (String × Value)}
    (h : (pairs.map Prod.fst).Nodup) : toDict pairs = pairs := by
  have hfold : ∀ acc : List (String × Value),
      ((acc ++ pairs).map Prod.fst).Nodup →
        pairs.foldl (fun fields pair => setField pair.1 pair.2 fields) acc =
          acc ++ pairs := by
    induction pairs with
    | nil => simp
    | cons pair rest ih =>
        intro acc hacc
        obtain ⟨k, v⟩ := pair
        have hfresh : k ∉ acc.map Prod.fst := by
          intro hk
          simp only [List.map_append, List.map_cons, List.nodup_append,
            List.mem_cons, forall_eq_or_imp] at hacc
          exact (hacc.2.2 k hk).1 rfl
        have hrest := ih (List.nodup_cons.mp h).2 (acc ++ [(k, v)])
          (by simpa using hacc)
        simp only [List.foldl_cons, setField_of_fresh v hfresh, hrest]
        simp
  simpa [toDict] using hfold [] (by simpa using h)

theorem mem_toDict {pairs : List (String × Value)} {pair : String × Value}
    (h : pair ∈ toDict pairs) : pair ∈ pairs := by
  have hfold : ∀ acc : List (String × Value),
      pair ∈ pairs.foldl (fun fields pair => setField pair.1 pair.2 fields) acc →
        pair ∈ acc ∨ pair ∈ pairs := by
    clear h
    induction pairs with
    | nil => simp
    | cons first rest ih =>
        intro acc hacc
        rcases ih _ hacc with hmem | hmem
        · rcases mem_setField hmem with hsame | hmem
          · exact Or.inr (List.mem_cons.mpr (Or.inl hsame))
          · exact Or.inl hmem
        · exact Or.inr (List.mem_cons_of_mem _ hmem)
  simpa using hfold [] h

/-! ## When the same event comes back -/

/-- The text has no `=>`. -/
def arrowFree (s : String) : Bool := !hasPair '=' '>' s.toList

theorem replaceText_of_arrowFree {s : String} (h : arrowFree s = true) :
    replaceText s = s := by
  rw [replaceText, replacePair_of_free (by simpa [arrowFree] using h),
    String.ofList_toList]

theorem arrowFree_replaceText (s : String) : arrowFree (replaceText s) = true := by
  have hfree := hasPair_replacePair (a := '=') (b := '>') (c := ':')
    (by decide) (by decide) s.toList
  simp [arrowFree, replaceText, hfree]

theorem mem_replacedFields {fields : List (String × Value)} {k : String}
    {v : Value} (h : (k, v) ∈ replacedFields fields) :
    ∃ k' v', (k', v') ∈ fields ∧ k = replaceText k' ∧ v = v'.replaced := by
  induction fields with
  | nil => simp [replacedFields] at h
  | cons field rest ih =>
      obtain ⟨k', v'⟩ := field
      rw [replacedFields] at h
      rcases List.mem_cons.mp h with hsame | hrest
      · obtain ⟨hk, hv⟩ := Prod.mk.inj hsame
        exact ⟨k', v', List.mem_cons_self .., hk, hv⟩
      · obtain ⟨k'', v'', hmem, hk, hv⟩ := ih hrest
        exact ⟨k'', v'', List.mem_cons_of_mem _ hmem, hk, hv⟩

/-- What is read has no `=>` in its texts. -/
theorem arrowFree_replaced {p : String → Bool} {v : Value}
    (hv : v.IsEventValue) (htexts : v.allText p = true) :
    v.replaced.allText arrowFree = true := by
  induction hv with
  | null => simp [Value.allText] at htexts
  | str s => exact arrowFree_replaceText s
  | obj _ _ ih =>
      rw [Value.allText, allFieldText_iff] at htexts
      rw [Value.replaced, Value.allText, allFieldText_iff]
      intro k w hmem
      obtain ⟨k', v', hmem', rfl, rfl⟩ := mem_replacedFields (mem_toDict hmem)
      exact ⟨arrowFree_replaceText k', ih k' v' hmem' (htexts k' v' hmem').2⟩

theorem replacedFields_eq_self {fields : List (String × Value)}
    (h : ∀ k v, (k, v) ∈ fields → replaceText k = k ∧ v.replaced = v) :
    replacedFields fields = fields := by
  induction fields with
  | nil => rfl
  | cons field rest ih =>
      obtain ⟨k, v⟩ := field
      obtain ⟨hk, hv⟩ := h k v (List.mem_cons_self ..)
      have hrest := ih fun k' v' hmem => h k' v' (List.mem_cons_of_mem _ hmem)
      rw [replacedFields, hk, hv, hrest]

/-- A value without `=>` is not changed. -/
theorem replaced_of_arrowFree {v : Value} (hv : v.IsEventValue)
    (hfree : v.allText arrowFree = true) : v.replaced = v := by
  induction hv with
  | null => rfl
  | str s =>
      rw [Value.allText] at hfree
      rw [Value.replaced, replaceText_of_arrowFree hfree]
  | @obj fields hkeys _ ih =>
      rw [Value.allText, allFieldText_iff] at hfree
      have hfields : replacedFields fields = fields := by
        apply replacedFields_eq_self
        intro k v hmem
        obtain ⟨hk, hv⟩ := hfree k v hmem
        exact ⟨replaceText_of_arrowFree hk, ih k v hmem hv⟩
      rw [Value.replaced, hfields, toDict_of_nodup hkeys]

/-- Equal events have the same texts. -/
theorem Value.Same.allText {p : String → Bool} {u v : Value} (h : u.Same v)
    (hv : v.IsEventValue) (hu : u.allText p = true) : v.allText p = true := by
  induction h with
  | refl => exact hu
  | @obj xs ys hsame _ ih =>
      cases hv with
      | obj hkeys hvalues =>
          rw [Value.allText, allFieldText_iff] at hu ⊢
          intro k v hmem
          have hv := lookup_of_mem hkeys hmem
          have hsome := hsame k
          rw [hv] at hsome
          obtain ⟨w, hw⟩ := Option.isSome_iff_exists.mp hsome
          obtain ⟨hk, hwtexts⟩ := hu k w (mem_of_lookup hw)
          exact ⟨hk, ih k w v hw hv (hvalues k v hmem) hwtexts⟩

/-- What follows for each text follows for the value. -/
theorem Value.IsEventValue.allText_of {p q r : String → Bool} {v : Value}
    (hv : v.IsEventValue)
    (h : ∀ s, p s = true → q s = true → r s = true)
    (hp : v.allText p = true) (hq : v.allText q = true) :
    v.allText r = true := by
  induction hv with
  | null => simp [Value.allText] at hp
  | str s => exact h s hp hq
  | obj _ _ ih =>
      rw [Value.allText, allFieldText_iff] at hp hq ⊢
      intro k v hmem
      obtain ⟨hpk, hpv⟩ := hp k v hmem
      obtain ⟨hqk, hqv⟩ := hq k v hmem
      exact ⟨h k hpk hqk, ih k v hmem hpv hqv⟩

/-- The listener gets the event that was sent exactly if the event is clean. -/
theorem decode_encode_iff (T : CharacterTable) (number : List Char → Value)
    (event : EventHash) :
    (∃ u, decodeBody number (event.encode T) = some u ∧
        u.Same (.obj event.fields)) ↔
      clean T (.obj event.fields) = true := by
  rw [decodeBody_encode]
  constructor
  · rintro ⟨u, hu, hsame⟩
    split at hu
    · rename_i hlegible
      obtain rfl := Option.some.inj hu
      have hfree := hsame.allText event.valid
        (arrowFree_replaced event.valid hlegible)
      refine event.valid.allText_of ?_ hlegible hfree
      intro s hs harrow
      rw [legibleReplaced, replaceText_of_arrowFree harrow] at hs
      simpa [arrowFree, hs] using harrow
    · simp at hu
  · intro hclean
    have hfree : (Value.obj event.fields).allText arrowFree = true := by
      refine event.valid.allText_of ?_ hclean hclean
      intro s hs _
      exact (Bool.and_eq_true_iff.mp hs).2
    have hlegible : (Value.obj event.fields).allText
        (legibleReplaced T) = true := by
      refine event.valid.allText_of ?_ hclean hfree
      intro s hs harrow
      rw [legibleReplaced, replaceText_of_arrowFree harrow]
      exact (Bool.and_eq_true_iff.mp hs).1
    rw [if_pos hlegible, replaced_of_arrowFree event.valid hfree]
    exact ⟨_, rfl, .refl _⟩

/-- An event with a file name that has an arrow. -/
def arrowEvent : EventHash where
  fields := [("user_name", .str "testUser"), ("filename", .str "a=>b.py")]
  valid := by
    refine .obj (by decide) ?_
    intro k v hmem
    simp only [List.mem_cons, Prod.mk.injEq, List.not_mem_nil, or_false] at hmem
    rcases hmem with ⟨-, rfl⟩ | ⟨-, rfl⟩ <;> exact .str _

/-- The listener looks for the file `a:b.py`. -/
theorem arrow_changes_event :
    ¬∃ u, decodeBody (fun _ => .null) (arrowEvent.encode default) = some u ∧
      u.Same (.obj arrowEvent.fields) := by
  have hread : decodeBody (fun _ => .null) (arrowEvent.encode default) =
      some (.obj [("user_name", .str "testUser"),
        ("filename", .str "a:b.py")]) := by decide +kernel
  have harrow : (Value.obj arrowEvent.fields).allText arrowFree = false := by
    decide
  rintro ⟨u, hu, hsame⟩
  rw [hread] at hu
  obtain rfl := Option.some.inj hu
  have hfree := hsame.allText arrowEvent.valid
    (show Value.allText arrowFree _ = true by decide)
  rw [harrow] at hfree
  exact Bool.false_ne_true hfree

end LambdaOnOpenStack
