import LambdaOnOpenStack.Values.Json
import Mathlib.Data.Char

/-!
# Reading JSON

The reader behind `json.loads` of the listener: strings with escapes, objects,
arrays, literals and numbers, each on the characters that are left.  `number`
is the conversion of a numeric literal to a value, which does not matter for
the grammar.  `fuel` bounds the depth of the recursion and covers every input
once it exceeds the length.
-/

namespace LambdaOnOpenStack

namespace Json

/-! ## Strings -/

def hexValue (c : Char) : Option ℕ :=
  let n := c.toNat
  if 48 ≤ n ∧ n ≤ 57 then some (n - 48)
  else if 65 ≤ n ∧ n ≤ 70 then some (n - 55)
  else if 97 ≤ n ∧ n ≤ 102 then some (n - 87)
  else none

/-- Four hexadecimal digits. -/
def readHex4 : List Char → Option (ℕ × List Char)
  | c₃ :: c₂ :: c₁ :: c₀ :: rest => do
      let d₃ ← hexValue c₃
      let d₂ ← hexValue c₂
      let d₁ ← hexValue c₁
      let d₀ ← hexValue c₀
      return (d₃ * 4096 + d₂ * 256 + d₁ * 16 + d₀, rest)
  | _ => none

/-- The rest of a `\u` escape.  Two surrogates make one character; a single
one is no text. -/
def readUnicode (input : List Char) : Option (Char × List Char) := do
  let (n, rest) ← readHex4 input
  if 0xD800 ≤ n ∧ n < 0xDC00 then
    match rest with
    | '\\' :: 'u' :: rest => do
        let (m, rest) ← readHex4 rest
        if 0xDC00 ≤ m ∧ m < 0xE000 then
          return (Char.ofNat (0x10000 + (n - 0xD800) * 1024 + (m - 0xDC00)), rest)
        else none
    | _ => none
  else if 0xDC00 ≤ n ∧ n < 0xE000 then none
  else return (Char.ofNat n, rest)

/-- What follows a backslash. -/
def readEscape : List Char → Option (Char × List Char)
  | [] => none
  | c :: rest =>
      match c with
      | '"' => some ('"', rest)
      | '\\' => some ('\\', rest)
      | '/' => some ('/', rest)
      | 'b' => some (Char.ofNat 8, rest)
      | 'f' => some (Char.ofNat 12, rest)
      | 'n' => some ('\n', rest)
      | 'r' => some ('\r', rest)
      | 't' => some ('\t', rest)
      | 'u' => readUnicode rest
      | _ => none

/-- The rest of a string after its opening quote. -/
def readString : ℕ → List Char → Option (List Char × List Char)
  | 0, _ => none
  | _ + 1, [] => none
  | fuel + 1, c :: rest =>
      if c = '"' then some ([], rest)
      else if c = '\\' then do
        let (d, rest) ← readEscape rest
        let (s, rest) ← readString fuel rest
        return (d :: s, rest)
      else if c.toNat < 32 then none
      else do
        let (s, rest) ← readString fuel rest
        return (c :: s, rest)

/-! ## Literals and numbers -/

def isSpace (c : Char) : Bool := c = ' ' || c = '\t' || c = '\n' || c = '\r'

def skipSpace (input : List Char) : List Char := input.dropWhile isSpace

def literals : List (String × Value) :=
  [("null", .null), ("true", .bool true), ("false", .bool false),
    ("NaN", .nonFinite "NaN"), ("Infinity", .nonFinite "Infinity"),
    ("-Infinity", .nonFinite "-Infinity")]

def readLiteral (input : List Char) : Option (Value × List Char) :=
  literals.findSome? fun (text, v) =>
    if text.toList.isPrefixOf input then some (v, input.drop text.length)
    else none

def isDigit (c : Char) : Bool := 48 ≤ c.toNat && c.toNat ≤ 57

/-- The exponent of a number, if there is one. -/
def readExponent (mantissa input : List Char) : List Char × List Char :=
  match input with
  | e :: rest =>
      if e = 'e' || e = 'E' then
        let (sign, rest) :=
          match rest with
          | s :: rest' => if s = '+' || s = '-' then ([s], rest') else ([], rest)
          | [] => ([], [])
        let digits := rest.takeWhile isDigit
        if digits = [] then (mantissa, input)
        else (mantissa ++ e :: (sign ++ digits), rest.dropWhile isDigit)
      else (mantissa, input)
  | [] => (mantissa, input)

/-- The fraction of a number, if there is one, and its exponent. -/
def readFraction (whole input : List Char) : List Char × List Char :=
  match input with
  | '.' :: rest =>
      let digits := rest.takeWhile isDigit
      if digits = [] then readExponent whole input
      else readExponent (whole ++ '.' :: digits) (rest.dropWhile isDigit)
  | _ => readExponent whole input

/-- The text of a number. -/
def readNumber (input : List Char) : Option (List Char × List Char) :=
  let (sign, rest) :=
    match input with
    | '-' :: rest => (['-'], rest)
    | _ => ([], input)
  match rest with
  | [] => none
  | c :: rest' =>
      if c = '0' then some (readFraction (sign ++ ['0']) rest')
      else if isDigit c then
        some (readFraction (sign ++ rest.takeWhile isDigit)
          (rest.dropWhile isDigit))
      else none

/-! ## Objects -/

/-- Assign to a key of a dictionary. -/
def setField (key : String) (v : Value) :
    List (String × Value) → List (String × Value)
  | [] => [(key, v)]
  | (k, w) :: rest =>
      if k = key then (key, v) :: rest else (k, w) :: setField key v rest

/-- The dictionary of the pairs of an object: the last one of a key wins. -/
def toDict (pairs : List (String × Value)) : List (String × Value) :=
  pairs.foldl (fun fields pair => setField pair.1 pair.2 fields) []

mutual

def readValue (number : List Char → Value) :
    ℕ → List Char → Option (Value × List Char)
  | 0, _ => none
  | _ + 1, [] => none
  | fuel + 1, c :: rest =>
      if c = '"' then do
        let (s, rest) ← readString (rest.length + 1) rest
        return (.str (String.ofList s), rest)
      else if c = '{' then
        match skipSpace rest with
        | '}' :: rest => some (.obj [], rest)
        | rest => do
            let (pairs, rest) ← readPairs number fuel rest
            return (.obj (toDict pairs), rest)
      else if c = '[' then
        match skipSpace rest with
        | ']' :: rest => some (.arr [], rest)
        | rest => do
            let (items, rest) ← readItems number fuel rest
            return (.arr items, rest)
      else
        match readLiteral (c :: rest) with
        | some found => some found
        | none => do
            let (text, rest) ← readNumber (c :: rest)
            return (number text, rest)

/-- The pairs of an object, up to its closing brace. -/
def readPairs (number : List Char → Value) :
    ℕ → List Char → Option (List (String × Value) × List Char)
  | 0, _ => none
  | _ + 1, [] => none
  | fuel + 1, c :: rest =>
      if c = '"' then do
        let (key, rest) ← readString (rest.length + 1) rest
        match skipSpace rest with
        | ':' :: rest => do
            let (v, rest) ← readValue number fuel (skipSpace rest)
            match skipSpace rest with
            | '}' :: rest => return ([(String.ofList key, v)], rest)
            | ',' :: rest => do
                let (pairs, rest) ← readPairs number fuel (skipSpace rest)
                return ((String.ofList key, v) :: pairs, rest)
            | _ => none
        | _ => none
      else none

/-- The items of an array, up to its closing bracket. -/
def readItems (number : List Char → Value) :
    ℕ → List Char → Option (List Value × List Char)
  | 0, _ => none
  | fuel + 1, input => do
      let (v, rest) ← readValue number fuel input
      match skipSpace rest with
      | ']' :: rest => return ([v], rest)
      | ',' :: rest => do
          let (items, rest) ← readItems number fuel (skipSpace rest)
          return (v :: items, rest)
      | _ => none

end

/-- `json.loads`: one value, with nothing but white space after it. -/
def loads (number : List Char → Value) (input : List Char) : Option Value := do
  let text := if input.head? = some (Char.ofNat 0xFEFF) then input.tail else input
  let (v, rest) ← readValue number (text.length + 1) (skipSpace text)
  if skipSpace rest = [] then some v else none

example : loads (fun _ => .null)
    "\x7b\"a\": [\"x\\u0041\"], \"a\":true\x7d".toList =
      some (.obj [("a", .bool true)]) := by decide +kernel

end Json

end LambdaOnOpenStack
