import Mathlib.Algebra.Field.Rat
import Mathlib.Algebra.Order.Ring.Unbundled.Rat
import Mathlib.Tactic.Positivity

/-!
# Decimal numbers in texts

The number at the beginning of a text, as a tool reads it that takes texts for
numbers: a sign, digits with a point, and an exponent, each of which may be
missing; whatever follows is ignored.  A printed decimal is read back as the
number that was printed.
-/

namespace LambdaOnOpenStack.Support

/-! ## Reading -/

/-- The number that the digits denote. -/
def digitsValue (digits : List Char) : ℕ := Nat.ofDigitChars 10 digits 0

/-- The digits in front of the text and, behind a point, the decimals; and the
rest of the text. -/
def mantissa (text : List Char) : ℚ × List Char :=
  let whole := text.takeWhile Char.isDigit
  match text.dropWhile Char.isDigit with
  | '.' :: rest =>
      let decimals := rest.takeWhile Char.isDigit
      (digitsValue whole + digitsValue decimals / 10 ^ decimals.length,
        rest.dropWhile Char.isDigit)
  | rest => (digitsValue whole, rest)

/-- A sign in front of what `read` reads. -/
def signed {α : Type*} [Neg α] (read : List Char → α) : List Char → α
  | '-' :: text => -read text
  | '+' :: text => read text
  | text => read text

/-- The exponent in front of the text, zero if there is none. -/
def exponent : List Char → ℤ
  | [] => 0
  | e :: text =>
      if e = 'e' || e = 'E' then
        signed (fun text => (digitsValue (text.takeWhile Char.isDigit) : ℤ)) text
      else 0

/-- The number in front of the text, zero if there is none. -/
def number (text : List Char) : ℚ :=
  signed (fun text => (mantissa text).1 * 10 ^ exponent (mantissa text).2) text

/-! ## Printed decimals -/

/-- A decimal as it is printed, without a sign and an exponent. -/
structure Decimal where
  whole : ℕ
  decimals : List Char := []
  digits : decimals.all Char.isDigit := by decide
  deriving DecidableEq

namespace Decimal

/-- The text of a decimal; the point is printed in front of decimals only. -/
def chars (d : Decimal) : List Char :=
  Nat.toDigits 10 d.whole ++ if d.decimals = [] then [] else '.' :: d.decimals

def value (d : Decimal) : ℚ :=
  d.whole + digitsValue d.decimals / 10 ^ d.decimals.length

variable (d : Decimal)

theorem value_nonneg : 0 ≤ d.value := by
  rw [value]
  positivity

theorem isDigit_of_mem_toDigits {n : ℕ} {c : Char} (hc : c ∈ Nat.toDigits 10 n) :
    c.isDigit = true :=
  Nat.isDigit_of_mem_toDigits (by decide) (by decide) hc

theorem digitsValue_toDigits (n : ℕ) : digitsValue (Nat.toDigits 10 n) = n :=
  Nat.ofDigitChars_ten_toDigits

theorem takeWhile_digits_append {digits : List Char} (rest : List Char)
    (hdigits : ∀ c ∈ digits, c.isDigit = true)
    (hrest : ∀ c ∈ rest.head?, c.isDigit = false) :
    (digits ++ rest).takeWhile Char.isDigit = digits ∧
      (digits ++ rest).dropWhile Char.isDigit = rest := by
  rw [List.takeWhile_append_of_pos hdigits, List.dropWhile_append_of_pos hdigits]
  cases rest with
  | nil => simp
  | cons c rest =>
      have hc : c.isDigit = false := hrest c rfl
      simp [hc]

theorem mantissa_chars : mantissa d.chars = (d.value, []) := by
  have hwhole (c : Char) (hc : c ∈ Nat.toDigits 10 d.whole) : c.isDigit = true :=
    isDigit_of_mem_toDigits hc
  have hdecimals : ∀ c ∈ d.decimals, c.isDigit = true :=
    List.all_eq_true.mp d.digits
  by_cases hnone : d.decimals = []
  · have hsplit := takeWhile_digits_append [] hwhole (by simp)
    simp only [mantissa, chars, hnone, ↓reduceIte, hsplit]
    simp [value, hnone, digitsValue]
  · have hsplit := takeWhile_digits_append ('.' :: d.decimals) hwhole
      (by simp)
    have hrest := takeWhile_digits_append [] hdecimals (by simp)
    rw [List.append_nil] at hrest
    simp only [mantissa, chars, hnone, ↓reduceIte, hsplit, hrest]
    simp [value, digitsValue_toDigits]

/-- A text that begins with a digit has no sign. -/
theorem signed_chars {α : Type*} [Neg α] (read : List Char → α) :
    signed read d.chars = read d.chars := by
  cases htext : d.chars with
  | nil => rfl
  | cons c rest =>
      have hc : c.isDigit = true := by
        apply isDigit_of_mem_toDigits (n := d.whole)
        cases hdigits : Nat.toDigits 10 d.whole with
        | nil => exact absurd hdigits Nat.toDigits_ne_nil
        | cons c' rest' =>
            rw [chars, hdigits, List.cons_append] at htext
            rw [(List.cons.inj htext).1]
            exact List.mem_cons_self
      have hminus : c ≠ '-' := by
        rintro rfl
        revert hc
        decide
      have hplus : c ≠ '+' := by
        rintro rfl
        revert hc
        decide
      simp [signed, hminus, hplus]

/-- What is printed is read back. -/
theorem number_chars : number d.chars = d.value := by
  rw [number, signed_chars, mantissa_chars]
  simp [exponent]

end Decimal

end LambdaOnOpenStack.Support
