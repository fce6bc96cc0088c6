import LambdaOnOpenStack.Support.ReplacePair
import LambdaOnOpenStack.Values.JsonReader
import LambdaOnOpenStack.Values.RubyText
import Mathlib.Tactic.IntervalCases

/-!
# Encoding and decoding events

The event source writes a hash in Ruby's notation; the listener replaces every
`=>` of the text by `:` and reads the result as JSON.  Replacing commutes with
writing, so the listener reads the strings of the event with `=>` replaced in
them, if JSON has all the escapes that Ruby wrote.
-/

namespace LambdaOnOpenStack

open Support

/-! ## Events -/

/-- What `JSON.parse` yields for texts, nulls and nested hashes. -/
inductive Value.IsEventValue : Value → Prop where
  | null : IsEventValue .null
  | str (s : String) : IsEventValue (.str s)
  | obj {fields : List (String × Value)}
      (hkeys : (fields.map Prod.fst).Nodup)
      (hvalues : ∀ k v, (k, v) ∈ fields → IsEventValue v) :
      IsEventValue (.obj fields)

structure EventHash where
  fields : List (String × Value)
  valid : (Value.obj fields).IsEventValue

/-- `data.to_s()`. -/
def EventHash.encode (T : CharacterTable) (event : EventHash) : List Char :=
  Ruby.inspect T (.obj event.fields)

/-- `json.loads(stringData.replace("=>", ":"))`. -/
def decodeBody (number : List Char → Value) (body : List Char) :
    Option Value :=
  Json.loads number (replacePair '=' '>' ':' body)

/-- Equal up to the order of the fields of objects. -/
inductive Value.Same : Value → Value → Prop where
  | refl (v : Value) : Same v v
  | obj {xs ys : List (String × Value)}
      (hkeys : ∀ k, (Value.lookup k xs).isSome = (Value.lookup k ys).isSome)
      (hvalues : ∀ k v w, Value.lookup k xs = some v →
        Value.lookup k ys = some w → Same v w) :
      Same (.obj xs) (.obj ys)

mutual

/-- There is no null, and all keys and texts satisfy `p`. -/
def Value.allText (p : String → Bool) : Value → Bool
  | .str s => p s
  | .obj fields => allFieldText p fields
  | _ => false

def allFieldText (p : String → Bool) : List (String × Value) → Bool
  | [] => true
  | (k, v) :: rest => p k && v.allText p && allFieldText p rest

end

theorem allFieldText_iff {p : String → Bool} {fields : List (String × Value)} :
    allFieldText p fields = true ↔
      ∀ k v, (k, v) ∈ fields → p k = true ∧ v.allText p = true := by
  induction fields with
  | nil => simp [allFieldText]
  | cons field rest ih =>
      obtain ⟨k, v⟩ := field
      simp only [allFieldText, Bool.and_eq_true, ih, List.mem_cons,
        Prod.mk.injEq]
      constructor
      · rintro ⟨⟨hk, hv⟩, hrest⟩ k' v' (⟨rfl, rfl⟩ | hmem)
        · exact ⟨hk, hv⟩
        · exact hrest k' v' hmem
      · intro h
        exact ⟨h k v (Or.inl ⟨rfl, rfl⟩),
          fun k' v' hmem => h k' v' (Or.inr hmem)⟩

/-! ## Legible texts -/

/-- JSON has no escape with this letter. -/
def rubyOnly (letter : Char) : Bool :=
  letter = 'v' || letter = 'a' || letter = 'e'

/-- JSON has the escape that Ruby writes for this character. -/
def legibleChar (T : CharacterTable) (c : Char)
    (following : Option Char) : Bool :=
  if c = '"' ∨ c = '\\' then true
  else if c = '#' ∧ Ruby.opensInterpolation following = true then false
  else
    match Ruby.shortEscape c with
    | some letter => !rubyOnly letter
    | none => T.isprint c || c.toNat < 0x10000

def legible (T : CharacterTable) : List Char → Bool
  | [] => true
  | c :: rest => legibleChar T c rest.head? && legible T rest

/-- There is no null, no `=>` in a text, and no escape that only Ruby has. -/
def clean (T : CharacterTable) (v : Value) : Bool :=
  v.allText fun s => legible T s.toList && !hasPair '=' '>' s.toList

/-! ## What the listener reads -/

def replaceText (s : String) : String :=
  String.ofList (replacePair '=' '>' ':' s.toList)

mutual

/-- The value that is read: `=>` is replaced in every text, and of two keys
that become equal the later one stays. -/
def Value.replaced : Value → Value
  | .str s => .str (replaceText s)
  | .obj fields => .obj (Json.toDict (replacedFields fields))
  | v => v

def replacedFields : List (String × Value) → List (String × Value)
  | [] => []
  | (k, v) :: rest => (replaceText k, v.replaced) :: replacedFields rest

end

mutual

/-- The text of a value after the replacement. -/
def bodyText (T : CharacterTable) : Value → List Char
  | .str s => Ruby.inspectString T (replaceText s).toList
  | .obj fields => '{' :: (bodyFields T fields ++ ['}'])
  | v => Ruby.inspect T v

def bodyFields (T : CharacterTable) : List (String × Value) → List Char
  | [] => []
  | [(k, v)] =>
      Ruby.inspectString T (replaceText k).toList ++ ':' :: bodyText T v
  | (k, v) :: rest =>
      Ruby.inspectString T (replaceText k).toList ++ ':' ::
        (bodyText T v ++ ',' :: ' ' :: bodyFields T rest)

end

/-! ## Replacing commutes with writing -/

section Replace

variable (T : CharacterTable)

theorem inspectChar_plain {c : Char} (hc : c = '=' ∨ c = '>' ∨ c = ':')
    (following : Option Char) : Ruby.inspectChar T c following = [c] := by
  have hprint : T.isprint c = true := by
    rcases hc with rfl | rfl | rfl <;> exact (T.ascii _ (by decide)).mpr (by decide)
  rcases hc with rfl | rfl | rfl <;>
    simp [Ruby.inspectChar, Ruby.shortEscape, hprint]

theorem hexDigit_ne {d : ℕ} (hd : d < 16) :
    Ruby.hexDigit d ≠ '=' ∧ Ruby.hexDigit d ≠ '>' := by
  interval_cases d <;> decide

theorem mem_hex4 {n : ℕ} {x : Char} (hx : x ∈ Ruby.hex4 n) :
    x ≠ '=' ∧ x ≠ '>' := by
  simp only [Ruby.hex4, List.mem_cons, List.not_mem_nil, or_false] at hx
  rcases hx with rfl | rfl | rfl | rfl <;>
    exact hexDigit_ne (Nat.mod_lt _ (by decide))

theorem mem_hexLong {n : ℕ} {x : Char} (hx : x ∈ Ruby.hexLong n) :
    x ≠ '=' ∧ x ≠ '>' := by
  rw [Ruby.hexLong] at hx
  split at hx
  · rcases List.mem_cons.mp hx with rfl | hx
    · exact hexDigit_ne (Nat.mod_lt _ (by decide))
    · exact mem_hex4 hx
  · rcases List.mem_cons.mp hx with rfl | hx
    · exact hexDigit_ne (Nat.mod_lt _ (by decide))
    · rcases List.mem_cons.mp hx with rfl | hx
      · exact hexDigit_ne (Nat.mod_lt _ (by decide))
      · exact mem_hex4 hx

theorem shortEscape_ne {c letter : Char}
    (h : Ruby.shortEscape c = some letter) : letter ≠ '=' ∧ letter ≠ '>' := by
  rw [Ruby.shortEscape] at h
  split at h <;> first
    | (obtain rfl := Option.some.inj h; decide)
    | simp at h

/-- A character is written as it is, or as an escape without `=` and `>`. -/
theorem inspectChar_cases (c : Char) (following : Option Char) :
    Ruby.inspectChar T c following = [c] ∨
      ∃ letters, Ruby.inspectChar T c following = '\\' :: letters ∧
        c ≠ '=' ∧ c ≠ '>' ∧ ∀ x ∈ letters, x ≠ '=' ∧ x ≠ '>' := by
  by_cases hplain : c = '=' ∨ c = '>' ∨ c = ':'
  · exact Or.inl (inspectChar_plain T hplain following)
  · simp only [not_or] at hplain
    rw [Ruby.inspectChar]
    split
    · refine Or.inr ⟨[c], rfl, hplain.1, hplain.2.1, ?_⟩
      intro x hx
      rw [List.mem_singleton.mp hx]
      exact ⟨hplain.1, hplain.2.1⟩
    · split
      · rename_i letter hletter
        refine Or.inr ⟨[letter], rfl, hplain.1, hplain.2.1, ?_⟩
        intro x hx
        rw [List.mem_singleton.mp hx]
        exact shortEscape_ne hletter
      · split
        · exact Or.inl rfl
        · split
          · refine Or.inr ⟨_, rfl, hplain.1, hplain.2.1, ?_⟩
            intro x hx
            rcases List.mem_cons.mp hx with rfl | hx
            · decide
            · exact mem_hex4 hx
          · refine Or.inr ⟨_, rfl, hplain.1, hplain.2.1, ?_⟩
            intro x hx
            simp only [List.mem_cons, List.mem_append, List.not_mem_nil,
              or_false] at hx
            rcases hx with rfl | rfl | hx | rfl
            · decide
            · decide
            · exact mem_hexLong hx
            · decide

theorem head?_inspectChars (s : List Char)
    (h : (Ruby.inspectChars T s).head? = some '>') : s.head? = some '>' := by
  match s with
  | [] => simp [Ruby.inspectChars] at h
  | c :: rest =>
      rw [Ruby.inspectChars] at h
      rcases inspectChar_cases T c rest.head? with
        hsame | ⟨letters, hescape, -⟩
      · simpa [hsame] using h
      · simp [hescape] at h

theorem replacePair_inspectChar_append (c : Char) (following : Option Char)
    {text : List Char} (h : ¬(c = '=' ∧ text.head? = some '>')) :
    replacePair '=' '>' ':' (Ruby.inspectChar T c following ++ text) =
      Ruby.inspectChar T c following ++ replacePair '=' '>' ':' text := by
  rcases inspectChar_cases T c following with
    hsame | ⟨letters, hescape, -, -, hletters⟩
  · rw [hsame]
    exact replacePair_cons h
  · rw [hescape]
    apply replacePair_append_of_ne
    intro x hx
    rcases List.mem_cons.mp hx with rfl | hx
    · decide
    · exact (hletters x hx).1

theorem inspectChar_congr (c : Char) {f g : Option Char}
    (h : Ruby.opensInterpolation f = Ruby.opensInterpolation g) :
    Ruby.inspectChar T c f = Ruby.inspectChar T c g := by
  rw [Ruby.inspectChar, Ruby.inspectChar, h]

theorem inspectChars_cons (c : Char) (rest : List Char) :
    Ruby.inspectChars T (c :: rest) =
      Ruby.inspectChar T c rest.head? ++ Ruby.inspectChars T rest := rfl

/-- Replacing in the written text is writing the replaced text. -/
theorem replacePair_inspectChars (s : List Char) :
    replacePair '=' '>' ':' (Ruby.inspectChars T s) =
      Ruby.inspectChars T (replacePair '=' '>' ':' s) := by
  induction s using replacePair.induct '=' '>' with
  | case1 x y rest hxy ih =>
      obtain ⟨rfl, rfl⟩ := hxy
      simp [Ruby.inspectChars, inspectChar_plain, replacePair_pair, ih]
  | case2 x y rest hxy ih =>
      have hrest : ¬(x = '=' ∧ (y :: rest).head? = some '>') := by
        simpa using hxy
      have hbetween : ¬(x = '=' ∧
          (Ruby.inspectChars T (y :: rest)).head? = some '>') := by
        rintro ⟨hx, hhead⟩
        exact hrest ⟨hx, head?_inspectChars T _ hhead⟩
      rw [replacePair_cons hrest, inspectChars_cons T x (y :: rest),
        replacePair_inspectChar_append T x _ hbetween, ih,
        inspectChars_cons T x]
      congr 1
      -- What follows `x` opens an interpolation before as after.
      apply inspectChar_congr
      rcases head?_replacePair (a := '=') (b := '>') (c := ':') (y :: rest) with
        hsame | ⟨hold, hnew⟩
      · rw [hsame]
      · rw [hold, hnew]
        rfl
  | case3 s hshort =>
      rcases s with _ | ⟨x, _ | ⟨y, rest⟩⟩
      · rfl
      · have h := replacePair_inspectChar_append T x none
          (show ¬(x = '=' ∧ ([] : List Char).head? = some '>') by simp)
        simpa [Ruby.inspectChars] using h
      · exact absurd rfl (hshort x y rest)

theorem replacePair_inspectString (s : String) :
    replacePair '=' '>' ':' (Ruby.inspectString T s.toList) =
      Ruby.inspectString T (replaceText s).toList := by
  rw [Ruby.inspectString, replacePair_cons (by simp),
    replacePair_append (by simp), replacePair_inspectChars]
  simp [Ruby.inspectString, replaceText]

theorem inspectFields_cons_cons (k : String) (v : Value)
    (field : String × Value) (rest : List (String × Value)) :
    Ruby.inspectFields T ((k, v) :: field :: rest) =
      Ruby.inspectString T k.toList ++ '=' :: '>' ::
        (Ruby.inspect T v ++ ',' :: ' ' ::
          Ruby.inspectFields T (field :: rest)) := by
  rw [Ruby.inspectFields]
  simp

theorem bodyFields_cons_cons (k : String) (v : Value)
    (field : String × Value) (rest : List (String × Value)) :
    bodyFields T ((k, v) :: field :: rest) =
      Ruby.inspectString T (replaceText k).toList ++ ':' ::
        (bodyText T v ++ ',' :: ' ' :: bodyFields T (field :: rest)) := by
  rw [bodyFields]
  simp

theorem replacePair_inspectFields {fields : List (String × Value)}
    (hvalues : ∀ k v, (k, v) ∈ fields →
      replacePair '=' '>' ':' (Ruby.inspect T v) = bodyText T v) :
    replacePair '=' '>' ':' (Ruby.inspectFields T fields) =
      bodyFields T fields := by
  induction fields with
  | nil => rfl
  | cons field rest ih =>
      obtain ⟨k, v⟩ := field
      have hv := hvalues k v (List.mem_cons_self ..)
      have hrest := ih fun k' v' hmem =>
        hvalues k' v' (List.mem_cons_of_mem _ hmem)
      match rest with
      | [] =>
          rw [Ruby.inspectFields, replacePair_append (by simp),
            replacePair_pair, replacePair_inspectString, hv, bodyFields]
      | field' :: rest' =>
          rw [inspectFields_cons_cons, replacePair_append (by simp),
            replacePair_pair, replacePair_append (by simp),
            replacePair_cons (by simp), replacePair_cons (by simp),
            replacePair_inspectString, hv, hrest, bodyFields_cons_cons]

/-- The body after the replacement. -/
theorem replacePair_inspect {v : Value} (hv : v.IsEventValue) :
    replacePair '=' '>' ':' (Ruby.inspect T v) = bodyText T v := by
  induction hv with
  | null => rfl
  | str s =>
      rw [Ruby.inspect, bodyText]
      exact replacePair_inspectString T s
  | obj _ _ ih =>
      rw [Ruby.inspect, bodyText, replacePair_cons (by simp),
        replacePair_append (by simp), replacePair_inspectFields T ih]
      rfl

end Replace

end LambdaOnOpenStack
