import LambdaOnOpenStack.Values.Json
import Mathlib.Data.Nat.Notation

/-!
# Ruby's text forms

`inspect` is the notation in which Ruby 2.3 writes a value, and in which an
event hash leaves the event source; `toText` is the text that interpolation
(`"#{value}"`) puts into a database query.

Which characters beyond ASCII are written as they are depends on Ruby's
character tables and on the locale of the process, so that choice is a
parameter.
-/

namespace LambdaOnOpenStack

/-- What Ruby knows about printable characters.  On ASCII there is no choice,
except for the last character. -/
structure CharacterTable where
  isprint : Char → Bool
  ascii : ∀ c : Char, c.toNat < 127 → (isprint c = true ↔ 32 ≤ c.toNat)

/-- The plain ASCII locale. -/
instance : Inhabited CharacterTable where
  default :=
    { isprint := fun c => 32 ≤ c.toNat && c.toNat < 127
      ascii := by
        intro c hc
        simp [hc] }

namespace Ruby

/-! ## Strings -/

def hexDigit (d : ℕ) : Char :=
  if d < 10 then Char.ofNat (48 + d) else Char.ofNat (55 + d)

/-- The format `%04X` of a number below `0x10000`. -/
def hex4 (n : ℕ) : List Char :=
  [hexDigit (n / 4096 % 16), hexDigit (n / 256 % 16),
    hexDigit (n / 16 % 16), hexDigit (n % 16)]

/-- The format `%X` of a number from `0x10000` to `0x10FFFF`. -/
def hexLong (n : ℕ) : List Char :=
  if n < 0x100000 then hexDigit (n / 65536 % 16) :: hex4 n
  else hexDigit (n / 1048576 % 16) :: hexDigit (n / 65536 % 16) :: hex4 n

/-- The letter of a one-letter escape. -/
def shortEscape (c : Char) : Option Char :=
  match c.toNat with
  | 10 => some 'n'
  | 13 => some 'r'
  | 9 => some 't'
  | 12 => some 'f'
  | 11 => some 'v'
  | 8 => some 'b'
  | 7 => some 'a'
  | 27 => some 'e'
  | _ => none

/-- A number sign is escaped where it would begin an interpolation. -/
def opensInterpolation (following : Option Char) : Bool :=
  following = some '$' || following = some '@' || following = some '{'

def inspectChar (T : CharacterTable) (c : Char)
    (following : Option Char) : List Char :=
  if c = '"' ∨ c = '\\' ∨ (c = '#' ∧ opensInterpolation following = true) then
    ['\\', c]
  else
    match shortEscape c with
    | some letter => ['\\', letter]
    | none =>
        if T.isprint c then [c]
        else if c.toNat < 0x10000 then '\\' :: 'u' :: hex4 c.toNat
        else '\\' :: 'u' :: '{' :: (hexLong c.toNat ++ ['}'])

def inspectChars (T : CharacterTable) : List Char → List Char
  | [] => []
  | c :: rest => inspectChar T c rest.head? ++ inspectChars T rest

def inspectString (T : CharacterTable) (s : List Char) : List Char :=
  '"' :: (inspectChars T s ++ ['"'])

/-! ## Numbers -/

def zeros (n : ℕ) : List Char := List.replicate n '0'

def decimal (n : ℕ) : List Char := (toString n).toList

/-- `Float#to_s`: positional notation for exponents from -4 up to 16, and
scientific notation outside. -/
def floatText (negative : Bool) (digits : ℕ) (exponent : ℤ) : List Char :=
  let sign := if negative then ['-'] else []
  let ds := decimal digits
  let point := ds.length + exponent
  if digits = 0 then sign ++ ['0', '.', '0']
  else if 0 < point ∧ point ≤ 16 then
    if 0 ≤ exponent then sign ++ ds ++ zeros exponent.toNat ++ ['.', '0']
    else sign ++ ds.take point.toNat ++ '.' :: ds.drop point.toNat
  else if -4 < point ∧ point ≤ 0 then
    sign ++ '0' :: '.' :: (zeros (-point).toNat ++ ds)
  else
    let fraction := if ds.length = 1 then ['0'] else ds.drop 1
    let scale := decimal (point - 1).natAbs
    sign ++ ds.take 1 ++ '.' :: fraction ++
      'e' :: (if point - 1 < 0 then '-' else '+') ::
        (zeros (2 - scale.length) ++ scale)

/-! ## Values -/

mutual

def inspect (T : CharacterTable) : Value → List Char
  | .null => ['n', 'i', 'l']
  | .bool b => if b then ['t', 'r', 'u', 'e'] else ['f', 'a', 'l', 's', 'e']
  | .int n => (toString n).toList
  | .float negative digits exponent => floatText negative digits exponent
  | .nonFinite constant => constant.toList
  | .str s => inspectString T s.toList
  | .arr items => '[' :: (inspectItems T items ++ [']'])
  | .obj fields => '{' :: (inspectFields T fields ++ ['}'])

def inspectItems (T : CharacterTable) : List Value → List Char
  | [] => []
  | [v] => inspect T v
  | v :: rest => inspect T v ++ ',' :: ' ' :: inspectItems T rest

def inspectFields (T : CharacterTable) : List (String × Value) → List Char
  | [] => []
  | [(k, v)] => inspectString T k.toList ++ '=' :: '>' :: inspect T v
  | (k, v) :: rest =>
      inspectString T k.toList ++ '=' :: '>' ::
        (inspect T v ++ ',' :: ' ' :: inspectFields T rest)

end

/-- The text that `"#{v}"` interpolates. -/
def toText (T : CharacterTable) : Value → String
  | .null => ""
  | .str s => s
  | v => String.ofList (inspect T v)

@[simp] theorem toText_str (T : CharacterTable) (s : String) :
    toText T (.str s) = s := rfl

@[simp] theorem toText_null (T : CharacterTable) :
    toText T .null = "" := rfl

end Ruby

end LambdaOnOpenStack
