import Mathlib.Algebra.Order.Ring.Nat
import Mathlib.Data.List.Induction
import Mathlib.Data.Nat.Notation
import Mathlib.Tactic.Ring

/-!
# Numbers as byte strings

A number is packed into a fixed number of bytes, the most significant one
first.  Byte strings of one length are ordered as the numbers that they stand
for, and a string that consists of several packed fields is ordered by the
first field in which two of them differ.
-/

namespace LambdaOnOpenStack.Support

/-! ## Packing -/

/-- The last `width` bytes of a number. -/
def pack : (width n : ℕ) → List UInt8
  | 0, _ => []
  | width + 1, n => pack width (n / 256) ++ [UInt8.ofNat n]

/-- The number for which a byte string stands. -/
def unpack (bytes : List UInt8) : ℕ :=
  bytes.foldl (fun n b => n * 256 + b.toNat) 0

@[simp] theorem length_pack (width n : ℕ) : (pack width n).length = width := by
  induction width generalizing n with
  | zero => rfl
  | succ width ih => simp [pack, ih]

@[simp] theorem unpack_concat (bytes : List UInt8) (b : UInt8) :
    unpack (bytes ++ [b]) = unpack bytes * 256 + b.toNat := by
  simp [unpack]

theorem unpack_append (before after : List UInt8) :
    unpack (before ++ after) = unpack before * 256 ^ after.length + unpack after := by
  induction after using List.reverseRecOn with
  | nil => simp [unpack]
  | append_singleton after b ih =>
      rw [← List.append_assoc, unpack_concat, unpack_concat, ih,
        List.length_append, List.length_singleton, pow_succ]
      ring

theorem unpack_lt (bytes : List UInt8) : unpack bytes < 256 ^ bytes.length := by
  induction bytes using List.reverseRecOn with
  | nil => simp [unpack]
  | append_singleton bytes b ih =>
      have hb := b.toNat_lt
      rw [unpack_concat, List.length_append, List.length_singleton, pow_succ]
      omega

theorem unpack_pack {width n : ℕ} (hn : n < 256 ^ width) :
    unpack (pack width n) = n := by
  induction width generalizing n with
  | zero =>
      have hzero : n = 0 := by simpa using hn
      rw [hzero]
      rfl
  | succ width ih =>
      have hquotient : n / 256 < 256 ^ width := by
        rw [pow_succ] at hn
        exact Nat.div_lt_of_lt_mul (by rwa [Nat.mul_comm])
      have hlast : (UInt8.ofNat n).toNat = n % 256 := by simp
      rw [pack, unpack_concat, ih hquotient, hlast]
      exact Nat.div_add_mod' n 256

/-- Byte strings of one length are told apart by their numbers. -/
theorem eq_iff_unpack_eq {a b : List UInt8} (hlength : a.length = b.length) :
    a = b ↔ unpack a = unpack b := by
  induction a using List.reverseRecOn generalizing b with
  | nil =>
      obtain rfl : b = [] := List.eq_nil_of_length_eq_zero hlength.symm
      simp
  | append_singleton a x ih =>
      rcases List.eq_nil_or_concat b with rfl | ⟨b, y, rfl⟩
      · simp at hlength
      · have hrest : a.length = b.length := by simpa using hlength
        have hx := x.toNat_lt
        have hy := y.toNat_lt
        rw [List.concat_eq_append, List.append_singleton_inj, ih hrest, ← UInt8.toNat_inj,
          unpack_concat, unpack_concat]
        omega

/-! ## The order of composite strings -/

/-- The first field decides, and where it is the same the rest. -/
theorem unpack_append_lt_iff {before before' after after' : List UInt8}
    (hlength : after.length = after'.length) :
    unpack (before ++ after) < unpack (before' ++ after') ↔
      unpack before < unpack before' ∨
        unpack before = unpack before' ∧ unpack after < unpack after' := by
  have hafter := unpack_lt after
  have hafter' := unpack_lt after'
  rw [unpack_append, unpack_append, ← hlength]
  rw [← hlength] at hafter'
  generalize 256 ^ after.length = base at hafter hafter' ⊢
  constructor
  · intro hlt
    by_cases hsame : unpack before = unpack before'
    · rw [hsame] at hlt
      exact Or.inr ⟨hsame, by omega⟩
    · left
      by_contra hnot
      have hstep : unpack before' + 1 ≤ unpack before := by omega
      have hmul := Nat.mul_le_mul_right base hstep
      rw [Nat.add_mul] at hmul
      omega
  · rintro (hlt | ⟨hsame, hlt⟩)
    · have hmul := Nat.mul_le_mul_right base (Nat.succ_le_of_lt hlt)
      rw [Nat.succ_mul] at hmul
      omega
    · rw [hsame]
      omega

/-- Byte strings of one length are ordered as numbers. -/
theorem lt_iff_unpack_lt {a b : List UInt8} (hlength : a.length = b.length) :
    a < b ↔ unpack a < unpack b := by
  induction a generalizing b with
  | nil =>
      obtain rfl : b = [] := List.eq_nil_of_length_eq_zero hlength.symm
      simp
  | cons x a ih =>
      cases b with
      | nil => simp at hlength
      | cons y b =>
          have hrest : a.length = b.length := by simpa using hlength
          have hone (z : UInt8) : unpack [z] = z.toNat := by simp [unpack]
          have hsplit : unpack ([x] ++ a) < unpack ([y] ++ b) ↔ _ :=
            unpack_append_lt_iff hrest
          rw [List.singleton_append, List.singleton_append, hone, hone] at hsplit
          rw [List.cons_lt_cons_iff, hsplit, ih hrest, UInt8.lt_iff_toNat_lt,
            UInt8.toNat_inj]

end LambdaOnOpenStack.Support
