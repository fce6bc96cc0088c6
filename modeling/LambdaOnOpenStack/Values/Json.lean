import Mathlib.Data.Int.Notation
import Mathlib.Data.List.Nodup
import Mathlib.Data.Nat.Notation

/-!
# JSON values

The values that request bodies, queue messages and database documents carry.
A decimal `digits * 10 ^ exponent` stands for the floating point number whose
shortest decimal form it is; `nonFinite` are the constants `NaN`, `Infinity`
and `-Infinity` that only the Python reader accepts.
-/

namespace LambdaOnOpenStack

inductive Value where
  | null
  | bool (b : Bool)
  | int (n : ℤ)
  | float (negative : Bool) (digits : ℕ) (exponent : ℤ)
  | nonFinite (constant : String)
  | str (s : String)
  | arr (items : List Value)
  | obj (fields : List (String × Value))

namespace Value

/-! ## Decidable equality -/

mutual

def beq : Value → Value → Bool
  | null, null => true
  | bool a, bool b => a == b
  | int m, int n => m == n
  | float s m e, float s' m' e' => s == s' && m == m' && e == e'
  | nonFinite c, nonFinite c' => c == c'
  | str s, str t => s == t
  | arr xs, arr ys => beqItems xs ys
  | obj xs, obj ys => beqFields xs ys
  | _, _ => false

def beqItems : List Value → List Value → Bool
  | [], [] => true
  | x :: xs, y :: ys => x.beq y && beqItems xs ys
  | _, _ => false

def beqFields : List (String × Value) → List (String × Value) → Bool
  | [], [] => true
  | (k, x) :: xs, (l, y) :: ys => k == l && x.beq y && beqFields xs ys
  | _, _ => false

end

mutual

theorem beq_iff : ∀ v w : Value, v.beq w = true ↔ v = w
  | null, w => by cases w <;> simp [beq]
  | bool a, w => by cases w <;> simp [beq]
  | int m, w => by cases w <;> simp [beq]
  | float s m e, w => by cases w <;> simp [beq, and_assoc]
  | nonFinite c, w => by cases w <;> simp [beq]
  | str s, w => by cases w <;> simp [beq]
  | arr xs, w => by
      cases w <;> simp [beq]
      exact beqItems_iff xs _
  | obj xs, w => by
      cases w <;> simp [beq]
      exact beqFields_iff xs _

theorem beqItems_iff : ∀ xs ys : List Value, beqItems xs ys = true ↔ xs = ys
  | [], ys => by cases ys <;> simp [beqItems]
  | x :: xs, ys => by
      cases ys with
      | nil => simp [beqItems]
      | cons y ys => simp [beqItems, beq_iff x y, beqItems_iff xs ys]

theorem beqFields_iff :
    ∀ xs ys : List (String × Value), beqFields xs ys = true ↔ xs = ys
  | [], ys => by cases ys <;> simp [beqFields]
  | (k, x) :: xs, ys => by
      cases ys with
      | nil => simp [beqFields]
      | cons y ys =>
          obtain ⟨l, y⟩ := y
          simp [beqFields, beq_iff x y, beqFields_iff xs ys, and_assoc]

end

instance : DecidableEq Value := fun v w =>
  decidable_of_iff _ (beq_iff v w)

/-! ## Lookups -/

/-- The value stored under a key of an object. -/
def lookup (key : String) : List (String × Value) → Option Value
  | [] => none
  | (k, v) :: rest => if k = key then some v else lookup key rest

theorem mem_of_lookup {key : String} {v : Value}
    {fields : List (String × Value)} (h : lookup key fields = some v) :
    (key, v) ∈ fields := by
  induction fields with
  | nil => simp [lookup] at h
  | cons field rest ih =>
      obtain ⟨k, w⟩ := field
      by_cases hk : k = key
      · have hvw : w = v := by simpa [lookup, hk] using h
        simp [hk, hvw]
      · have hrest : lookup key rest = some v := by simpa [lookup, hk] using h
        exact List.mem_cons_of_mem _ (ih hrest)

theorem lookup_of_mem {key : String} {v : Value}
    {fields : List (String × Value)} (hkeys : (fields.map Prod.fst).Nodup)
    (h : (key, v) ∈ fields) : lookup key fields = some v := by
  induction fields with
  | nil => simp at h
  | cons field rest ih =>
      obtain ⟨k, w⟩ := field
      simp only [List.map_cons, List.nodup_cons] at hkeys
      rcases List.mem_cons.mp h with hsame | hrest
      · obtain ⟨rfl, rfl⟩ := Prod.mk.inj hsame
        simp [lookup]
      · have hne : k ≠ key := by
          rintro rfl
          exact hkeys.1 (List.mem_map.mpr ⟨(k, v), hrest, rfl⟩)
        simp [lookup, hne, ih hkeys.2 hrest]

/-- Python's truth value, which `x or default` tests. -/
def truthy : Value → Bool
  | null => false
  | bool b => b
  | int n => n ≠ 0
  | float _ digits _ => digits ≠ 0
  | nonFinite _ => true
  | str s => s ≠ ""
  | arr items => !items.isEmpty
  | obj fields => !fields.isEmpty

/-- Python's `x or default`. -/
def orElse (v default : Value) : Value :=
  if v.truthy then v else default

end Value

example : Value.obj [("a", .arr [.str "abc", .null])] ≠
    .obj [("a", .arr [.str "abd", .null])] := by decide

end LambdaOnOpenStack
