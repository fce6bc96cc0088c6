import Mathlib.Data.List.Basic

/-!
# Redirections of the shell

The shell expands the word after `>` before it opens the file: it splits the
unquoted text at blanks, and replaces each field by the files that match it as
a pattern, or leaves it as it is if there are none.  Unless this gives exactly
one word, the redirection is ambiguous and the command is not executed.
-/

namespace LambdaOnOpenStack.Support

/-- The characters at which the shell splits an unquoted text. -/
def isBlank (c : Char) : Bool := c = ' ' || c = '\t' || c = '\n'

/-- The fields of an unquoted text. -/
def fields (text : List Char) : List (List Char) :=
  (text.splitOnP isBlank).filter (· ≠ [])

/-- The words that a field expands to, where `found` gives the files that match
it. -/
def expand (found : List Char → List (List Char)) (field : List Char) :
    List (List Char) :=
  if found field = [] then [field] else found field

/-- The file that a redirection to this word opens. -/
def redirect (found : List Char → List (List Char)) (word : List Char) :
    Option (List Char) :=
  match (fields word).flatMap (expand found) with
  | [path] => some path
  | _ => none

variable {found : List Char → List (List Char)} {word : List Char}

theorem unblank_of_all (hword : (word.all fun c => !isBlank c) = true) :
    ∀ c ∈ word, isBlank c = false := by
  simpa using hword

theorem fields_of_unblank (hword : ∀ c ∈ word, isBlank c = false)
    (hne : word ≠ []) : fields word = [word] := by
  rw [fields, List.splitOnP_eq_singleton hword]
  simp [hne]

theorem fields_append {c : Char} (hc : isBlank c = true)
    (before after : List Char) :
    fields (before ++ c :: after) = fields before ++ fields after := by
  rw [fields, List.splitOnP_append_cons before after hc, List.filter_append]
  rfl

theorem fields_ne_nil (hword : ∃ c ∈ word, isBlank c = false) :
    fields word ≠ [] := by
  have hsplit : ∃ field ∈ word.splitOnP isBlank, field ≠ [] := by
    induction word with
    | nil => simp at hword
    | cons a rest ih =>
        rw [List.splitOnP_cons_eq_if_modifyHead]
        split
        · rename_i ha
          obtain ⟨c, hc, hblank⟩ := hword
          have hrest : c ∈ rest := by
            rcases List.mem_cons.mp hc with rfl | hc
            · rw [ha] at hblank
              exact absurd hblank (by decide)
            · exact hc
          obtain ⟨field, hfield, hne⟩ := ih ⟨c, hrest, hblank⟩
          exact ⟨field, List.mem_cons_of_mem _ hfield, hne⟩
        · obtain ⟨first, others, hfirst⟩ := List.exists_cons_of_ne_nil
            (List.splitOnP_ne_nil isBlank rest)
          rw [hfirst]
          exact ⟨a :: first, by simp, by simp⟩
  obtain ⟨field, hfield, hne⟩ := hsplit
  exact List.ne_nil_of_mem (List.mem_filter.mpr ⟨hfield, by simpa using hne⟩)

theorem expand_ne_nil (field : List Char) : expand found field ≠ [] := by
  rw [expand]
  split
  · simp
  · assumption

theorem flatMap_expand_ne_nil (hword : ∃ c ∈ word, isBlank c = false) :
    (fields word).flatMap (expand found) ≠ [] := by
  obtain ⟨field, rest, hfields⟩ := List.exists_cons_of_ne_nil
    (fields_ne_nil hword)
  rw [hfields, List.flatMap_cons]
  exact List.append_ne_nil_of_left_ne_nil (expand_ne_nil field) _

/-- A word without blanks that matches no other file is the file. -/
theorem redirect_of_unblank (hword : ∀ c ∈ word, isBlank c = false)
    (hne : word ≠ []) (hfound : found word = [] ∨ found word = [word]) :
    redirect found word = some word := by
  have hexpand : expand found word = [word] := by
    rcases hfound with hnone | hself
    · simp [expand, hnone]
    · simp [expand, hself]
  simp [redirect, fields_of_unblank hword hne, hexpand]

/-- A blank between other characters makes the redirection ambiguous. -/
theorem redirect_of_blank {c : Char} (hc : isBlank c = true)
    {before after : List Char} (hbefore : ∃ a ∈ before, isBlank a = false)
    (hafter : ∃ a ∈ after, isBlank a = false) :
    redirect found (before ++ c :: after) = none := by
  have hfirst : (fields before).flatMap (expand found) ≠ [] :=
    flatMap_expand_ne_nil hbefore
  have hsecond : (fields after).flatMap (expand found) ≠ [] :=
    flatMap_expand_ne_nil hafter
  obtain ⟨x, xs, hx⟩ := List.exists_cons_of_ne_nil hfirst
  obtain ⟨y, ys, hy⟩ := List.exists_cons_of_ne_nil hsecond
  rw [redirect, fields_append hc, List.flatMap_append, hx, hy]
  cases xs <;> rfl

/-- A text between two that are not blank is the name of the file exactly if
it has no blanks. -/
theorem redirect_eq_some_iff {before text after path : List Char}
    (hbefore : ∀ c ∈ before, isBlank c = false) (hne : before ≠ [])
    (hafter : ∀ c ∈ after, isBlank c = false) (hne' : after ≠ [])
    (hfound : found (before ++ text ++ after) = [] ∨
      found (before ++ text ++ after) = [before ++ text ++ after]) :
    redirect found (before ++ text ++ after) = some path ↔
      (∀ c ∈ text, isBlank c = false) ∧ path = before ++ text ++ after := by
  by_cases htext : ∀ c ∈ text, isBlank c = false
  · have hword : ∀ c ∈ before ++ text ++ after, isBlank c = false := by
      intro c hc
      simp only [List.mem_append] at hc
      rcases hc with (hc | hc) | hc
      · exact hbefore c hc
      · exact htext c hc
      · exact hafter c hc
    rw [redirect_of_unblank hword (by simp [hne]) hfound, Option.some.injEq,
      and_iff_right htext]
    exact eq_comm
  · have hblank : ∃ c ∈ text, isBlank c = true := by
      simpa using htext
    obtain ⟨c, hc, hcblank⟩ := hblank
    obtain ⟨first, rest, rfl⟩ := List.append_of_mem hc
    obtain ⟨a, as, rfl⟩ := List.exists_cons_of_ne_nil hne
    obtain ⟨b, bs, rfl⟩ := List.exists_cons_of_ne_nil hne'
    have hsplit : (a :: as) ++ (first ++ c :: rest) ++ (b :: bs) =
        ((a :: as) ++ first) ++ c :: (rest ++ (b :: bs)) := by simp
    have hnone : redirect found ((a :: as) ++ (first ++ c :: rest) ++ (b :: bs)) =
        none := by
      rw [hsplit]
      exact redirect_of_blank hcblank ⟨a, by simp, hbefore a (by simp)⟩
        ⟨b, by simp, hafter b (by simp)⟩
    rw [hnone]
    exact iff_of_false (by simp) (fun h => htext h.1)

end LambdaOnOpenStack.Support
