import Mathlib.Data.List.Basic
import Mathlib.Data.List.MinMax
import Mathlib.Data.List.Nodup

/-!
# Ordered collections with unique keys

A collection is a list of documents in the order of their insertion.  This
module develops the three operations on the first match of a query (find it,
update it, delete it) and the choice of the document with the greatest key.
-/

namespace LambdaOnOpenStack.Support

variable {α β κ : Type*}

theorem nodup_concat_iff {l : List α} (hl : l.Nodup) (a : α) :
    (l ++ [a]).Nodup ↔ a ∉ l := by
  rw [← List.concat_eq_append, List.nodup_concat]
  exact and_iff_left hl

theorem getElem?_concat_cases {l : List α} {x y : α} {i : ℕ}
    (h : (l ++ [x])[i]? = some y) : l[i]? = some y ∨ (i = l.length ∧ y = x) := by
  rcases lt_trichotomy i l.length with hlt | rfl | hgt
  · rw [List.getElem?_append_left hlt] at h
    exact Or.inl h
  · rw [List.getElem?_concat_length] at h
    exact Or.inr ⟨rfl, (Option.some.inj h).symm⟩
  · have hnone : (l ++ [x])[i]? = none := by
      rw [List.getElem?_eq_none_iff, List.length_append, List.length_singleton]
      exact hgt
    rw [hnone] at h
    cases h

/-- The last element of a list, or one before it. -/
theorem append_cons_eq_concat {l before after : List α} {x y : α}
    (heq : l ++ [y] = before ++ x :: after) :
    (before = l ∧ x = y) ∨ ∃ after', l = before ++ x :: after' := by
  rcases List.eq_nil_or_concat after with rfl | ⟨after', z, rfl⟩
  · obtain ⟨rfl, hlast⟩ := List.append_inj' heq rfl
    exact Or.inl ⟨rfl, (List.cons.inj hlast).1.symm⟩
  · rw [List.concat_eq_append, ← List.cons_append, ← List.append_assoc] at heq
    exact Or.inr ⟨after', (List.append_inj' heq rfl).1⟩

/-! ## Updating the first match -/

/-- Apply `set` to the first document that satisfies `p`. -/
def updateFirst (p : α → Bool) (set : α → α) : List α → List α
  | [] => []
  | d :: rest => if p d then set d :: rest else d :: updateFirst p set rest

theorem updateFirst_of_find?_none {p : α → Bool} {set : α → α} {l : List α}
    (h : l.find? p = none) : updateFirst p set l = l := by
  induction l with
  | nil => rfl
  | cons d rest ih =>
      simp only [List.find?_eq_none, List.mem_cons, forall_eq_or_imp] at h
      obtain ⟨hd, hrest⟩ := h
      have htail := ih (List.find?_eq_none.mpr hrest)
      simp [updateFirst, hd, htail]

/-- What comes before the first match stays as it is. -/
theorem updateFirst_append_of_free {p : α → Bool} {l : List α}
    (hfree : ∀ x ∈ l, p x = false) (set : α → α) (rest : List α) :
    updateFirst p set (l ++ rest) = l ++ updateFirst p set rest := by
  induction l with
  | nil => rfl
  | cons d l ih =>
      obtain ⟨hd, hl⟩ := List.forall_mem_cons.mp hfree
      simp [updateFirst, hd, ih hl]

/-- The first match splits the collection, and only it changes. -/
theorem updateFirst_of_find?_some {p : α → Bool} (set : α → α) {l : List α}
    {d : α} (h : l.find? p = some d) :
    ∃ before after, l = before ++ d :: after ∧
      (∀ x ∈ before, p x = false) ∧
      updateFirst p set l = before ++ set d :: after := by
  induction l with
  | nil => simp at h
  | cons e rest ih =>
      by_cases he : p e = true
      · have hed : e = d := by simpa [he] using h
        subst hed
        exact ⟨[], rest, rfl, by simp, by simp [updateFirst, he]⟩
      · have hefalse : p e = false := Bool.eq_false_of_not_eq_true he
        have hrest : rest.find? p = some d := by simpa [hefalse] using h
        obtain ⟨before, after, hl, hbefore, hupdate⟩ := ih hrest
        refine ⟨e :: before, after, by simp [hl], ?_, ?_⟩
        · intro x hx
          rcases List.mem_cons.mp hx with rfl | hx
          · exact hefalse
          · exact hbefore x hx
        · simp [updateFirst, hefalse, hupdate]

theorem map_updateFirst {p : α → Bool} {set : α → α} {g : α → β}
    (hg : ∀ a, g (set a) = g a) (l : List α) :
    (updateFirst p set l).map g = l.map g := by
  induction l with
  | nil => rfl
  | cons d rest ih =>
      by_cases hd : p d = true <;> simp [updateFirst, hd, hg, ih]

theorem mem_updateFirst {p : α → Bool} {set : α → α} {l : List α} {x : α}
    (hx : x ∈ updateFirst p set l) :
    x ∈ l ∨ ∃ d, l.find? p = some d ∧ x = set d := by
  cases hfind : l.find? p with
  | none =>
      rw [updateFirst_of_find?_none hfind] at hx
      exact Or.inl hx
  | some d =>
      obtain ⟨before, after, hl, -, hupdate⟩ :=
        updateFirst_of_find?_some set hfind
      rw [hupdate] at hx
      subst hl
      simp only [List.mem_append, List.mem_cons] at hx ⊢
      rcases hx with hx | rfl | hx
      · exact Or.inl (Or.inl hx)
      · exact Or.inr ⟨d, rfl, rfl⟩
      · exact Or.inl (Or.inr (Or.inr hx))

/-- An update keeps a relation between earlier and later documents that does
not depend on what it sets. -/
theorem pairwise_updateFirst {R : α → α → Prop} {p : α → Bool} {set : α → α}
    (hR : ∀ a b, R a b → R (set a) b ∧ R a (set b)) {l : List α}
    (h : l.Pairwise R) : (updateFirst p set l).Pairwise R := by
  induction l with
  | nil => exact h
  | cons d rest ih =>
      obtain ⟨hd, hrest⟩ := List.pairwise_cons.mp h
      rw [updateFirst]
      split
      · exact List.pairwise_cons.mpr ⟨fun e he => (hR d e (hd e he)).1, hrest⟩
      · refine List.pairwise_cons.mpr ⟨?_, ih hrest⟩
        intro e he
        rcases mem_updateFirst he with he | ⟨e', hfind, rfl⟩
        · exact hd e he
        · exact (hR d e' (hd e' (List.mem_of_find?_eq_some hfind))).2

/-- A document that the query does not match is still there. -/
theorem mem_updateFirst_of_mem {p : α → Bool} {set : α → α} {l : List α}
    {x : α} (hx : x ∈ l) (hp : p x = false) : x ∈ updateFirst p set l := by
  cases hfind : l.find? p with
  | none => rwa [updateFirst_of_find?_none hfind]
  | some d =>
      obtain ⟨before, after, rfl, -, hupdate⟩ :=
        updateFirst_of_find?_some set hfind
      rw [hupdate]
      simp only [List.mem_append, List.mem_cons] at hx ⊢
      rcases hx with hx | rfl | hx
      · exact Or.inl hx
      · rw [List.find?_some hfind] at hp
        exact absurd hp (by decide)
      · exact Or.inr (Or.inr hx)

/-- Two updates of the first match are one, if the first leaves it the first
match. -/
theorem updateFirst_updateFirst {p : α → Bool} {f g : α → α}
    (hf : ∀ a, p (f a) = p a) (l : List α) :
    updateFirst p g (updateFirst p f l) = updateFirst p (g ∘ f) l := by
  induction l with
  | nil => rfl
  | cons d rest ih =>
      by_cases hd : p d = true <;> simp [updateFirst, hd, hf, ih]

theorem updateFirst_id (p : α → Bool) (l : List α) :
    updateFirst p id l = l := by
  induction l with
  | nil => rfl
  | cons d rest ih => simp [updateFirst, ih]

/-- Only what the update makes of the first match matters. -/
theorem updateFirst_congr {p : α → Bool} {f g : α → α} {l : List α} {d : α}
    (hfind : l.find? p = some d) (hfg : f d = g d) :
    updateFirst p f l = updateFirst p g l := by
  induction l with
  | nil => rfl
  | cons e rest ih =>
      by_cases he : p e = true
      · obtain rfl : e = d := by simpa [he] using hfind
        simp [updateFirst, he, hfg]
      · have hrest : rest.find? p = some d := by simpa [he] using hfind
        simp [updateFirst, he, ih hrest]

/-- The first match after the update is the updated one. -/
theorem find?_updateFirst_self {p : α → Bool} {set : α → α}
    (hset : ∀ a, p (set a) = p a) (l : List α) :
    (updateFirst p set l).find? p = (l.find? p).map set := by
  induction l with
  | nil => rfl
  | cons d rest ih =>
      by_cases hd : p d = true
      · simp [updateFirst, hd, hset]
      · simp [updateFirst, hd, ih]

/-- A query that the update does not touch has the same first match, up to
the update. -/
theorem find?_updateFirst {p : α → Bool} (q : α → Bool) (set : α → α)
    (hq : ∀ a, q (set a) = q a) (l : List α) :
    (updateFirst p set l).find? q = l.find? q ∨
      ∃ d, l.find? q = some d ∧ l.find? p = some d ∧
        (updateFirst p set l).find? q = some (set d) := by
  cases hfind : l.find? p with
  | none =>
      rw [updateFirst_of_find?_none hfind]
      exact Or.inl rfl
  | some d =>
      obtain ⟨before, after, hl, -, hupdate⟩ :=
        updateFirst_of_find?_some set hfind
      rw [hupdate]
      subst hl
      cases hbefore : before.find? q with
      | some e =>
          simp [List.find?_append, hbefore]
      | none =>
          by_cases hd : q d = true
          · exact Or.inr ⟨d, by simp [List.find?_append, hbefore, hd], rfl,
              by simp [List.find?_append, hbefore, hq, hd]⟩
          · simp [List.find?_append, hbefore, hq, hd]

/-- Updating does not change what a query finds that matches the document
neither before nor after. -/
theorem filter_updateFirst {p q : α → Bool} {set : α → α} {l : List α}
    (hq : ∀ d ∈ l, p d = true → q d = false ∧ q (set d) = false) :
    (updateFirst p set l).filter q = l.filter q := by
  induction l with
  | nil => rfl
  | cons d rest ih =>
      have hrest := ih fun e he => hq e (List.mem_cons_of_mem _ he)
      by_cases hd : p d = true
      · obtain ⟨hbefore, hafter⟩ := hq d (List.mem_cons_self ..) hd
        simp [updateFirst, hd, hbefore, hafter]
      · simp [updateFirst, hd, List.filter_cons, hrest]

/-- What a query reads that no update changes. -/
theorem map_filter_updateFirst {p q : α → Bool} {set : α → α} {g : α → β}
    (hq : ∀ a, q (set a) = q a) (hg : ∀ a, g (set a) = g a) (l : List α) :
    ((updateFirst p set l).filter q).map g = (l.filter q).map g := by
  induction l with
  | nil => rfl
  | cons d rest ih =>
      by_cases hd : p d = true
      · cases hqd : q d <;> simp [updateFirst, hd, hq, hqd, hg]
      · cases hqd : q d <;> simp [updateFirst, hd, hqd, ih]

/-- The first document that a query finds is updated, if the query finds what
the update looks for. -/
theorem filter_updateFirst_self {p : α → Bool} {set : α → α}
    (hset : ∀ a, p (set a) = p a) (l : List α) :
    (updateFirst p set l).filter p = (l.filter p).modifyHead set := by
  induction l with
  | nil => rfl
  | cons d rest ih =>
      by_cases hd : p d = true
      · simp [updateFirst, hd, hset]
      · simp [updateFirst, hd, ih]

/-! ## Inserting copies -/

/-- Documents that answer the query as earlier ones do are not found first. -/
theorem find?_append_of_copies {p : α → Bool} {l copies : List α}
    (hcopies : ∀ c ∈ copies, ∃ d ∈ l, p d = p c) :
    (l ++ copies).find? p = l.find? p := by
  rw [List.find?_append]
  cases hfind : l.find? p with
  | some d => rfl
  | none =>
      rw [Option.none_or, List.find?_eq_none]
      intro c hc
      obtain ⟨d, hd, hsame⟩ := hcopies c hc
      rw [← hsame]
      exact List.find?_eq_none.mp hfind d hd

/-! ## Deleting by key -/

/-- With unique keys, deleting the first document with a key leaves exactly
the documents with other keys. -/
theorem eraseP_eq_filter_of_nodup [DecidableEq κ] {key : α → κ} {l : List α}
    (hnodup : (l.map key).Nodup) (k : κ) :
    (l.eraseP fun d => key d = k) = l.filter fun d => key d ≠ k := by
  induction l with
  | nil => rfl
  | cons d rest ih =>
      simp only [List.map_cons, List.nodup_cons] at hnodup
      obtain ⟨hfresh, hrest⟩ := hnodup
      by_cases hd : key d = k
      · have hkeep : ∀ e ∈ rest, decide (key e ≠ k) = true := by
          intro e he
          have hne : key e ≠ k := by
            rintro rfl
            exact hfresh (List.mem_map.mpr ⟨e, he, hd.symm⟩)
          simpa using hne
        have hfilter : (rest.filter fun e => decide (key e ≠ k)) = rest :=
          List.filter_eq_self.mpr hkeep
        simpa [List.eraseP_cons, hd] using hfilter.symm
      · simpa [List.eraseP_cons, hd] using ih hrest

theorem mem_eraseP_of_nodup [DecidableEq κ] {key : α → κ} {l : List α}
    (hnodup : (l.map key).Nodup) {k : κ} {x : α} :
    x ∈ (l.eraseP fun d => key d = k) ↔ x ∈ l ∧ key x ≠ k := by
  rw [eraseP_eq_filter_of_nodup hnodup]
  simp

theorem nodup_map_eraseP {key : α → κ} {l : List α}
    (hnodup : (l.map key).Nodup) (p : α → Bool) :
    ((l.eraseP p).map key).Nodup :=
  hnodup.sublist ((List.eraseP_sublist).map key)

theorem find?_eraseP_of_disjoint {p q : α → Bool}
    (hdisjoint : ∀ x, q x = true → p x = false) (l : List α) :
    (l.eraseP p).find? q = l.find? q := by
  induction l with
  | nil => rfl
  | cons d rest ih =>
      by_cases hp : p d = true
      · have hq : q d = false := by
          by_contra hq
          have hfalse := hdisjoint d (by simpa using hq)
          rw [hp] at hfalse
          exact absurd hfalse (by decide)
        simp [hp, hq]
      · by_cases hq : q d = true <;> simp [hp, hq, ih]

/-- Deleting a document changes no query that does not find it. -/
theorem filter_eraseP {p q : α → Bool} {l : List α}
    (hq : ∀ d ∈ l, p d = true → q d = false) :
    (l.eraseP p).filter q = l.filter q := by
  induction l with
  | nil => rfl
  | cons d rest ih =>
      have hrest := ih fun e he => hq e (List.mem_cons_of_mem _ he)
      by_cases hd : p d = true
      · simp [hd, hq d (List.mem_cons_self ..) hd]
      · simp [hd, List.filter_cons, hrest]

/-- Deleting the first document with a key leaves none with it exactly if there
is at most one. -/
theorem forall_eraseP_iff {p : α → Bool} {l : List α} :
    (∀ d ∈ l.eraseP p, p d = false) ↔ l.countP p ≤ 1 := by
  induction l with
  | nil => simp
  | cons d rest ih =>
      by_cases hd : p d = true
      · have hnone : rest.countP p + 1 ≤ 1 ↔ rest.countP p = 0 := by omega
        rw [List.eraseP_cons_of_pos hd, List.countP_cons_of_pos hd, hnone,
          List.countP_eq_zero]
        simp only [Bool.not_eq_true]
      · rw [List.eraseP_cons_of_neg hd, List.countP_cons_of_neg hd, ← ih,
          List.forall_mem_cons]
        exact and_iff_right (Bool.eq_false_of_not_eq_true hd)

/-- Deleting another document does not change the first match. -/
theorem find?_eraseP_of_some {p q : α → Bool} {l : List α} {d : α}
    (hfind : l.find? p = some d) (hq : q d = false) :
    (l.eraseP q).find? p = some d := by
  induction l with
  | nil => simp at hfind
  | cons e rest ih =>
      by_cases hp : p e = true
      · have hed : e = d := by simpa [hp] using hfind
        subst hed
        simp [hq, hp]
      · have hrest : rest.find? p = some d := by simpa [hp] using hfind
        by_cases he : q e = true
        · simp [he, hrest]
        · simp [he, hp, ih hrest]

/-- Deleting the first match makes the second one the first. -/
theorem find?_eraseP_of_first [DecidableEq κ] {key : α → κ} {l : List α}
    (hnodup : (l.map key).Nodup) {p : α → Bool} {d : α}
    (hfind : l.find? p = some d) :
    (l.eraseP fun e => key e = key d).find? p = (l.filter p)[1]? := by
  induction l with
  | nil => simp at hfind
  | cons e rest ih =>
      simp only [List.map_cons, List.nodup_cons] at hnodup
      obtain ⟨hfresh, hrest⟩ := hnodup
      by_cases hp : p e = true
      · have hed : e = d := by simpa [hp] using hfind
        subst hed
        simp [hp, ← List.head?_filter, List.head?_eq_getElem?]
      · have hfind' : rest.find? p = some d := by simpa [hp] using hfind
        have hne : key e ≠ key d := by
          intro hkey
          apply hfresh
          rw [hkey]
          exact List.mem_map_of_mem (List.mem_of_find?_eq_some hfind')
        simp [hne, hp, ih hrest hfind']

/-- Two documents of a collection with one key are the same. -/
theorem eq_of_key_eq {key : α → κ} {l : List α} (hnodup : (l.map key).Nodup)
    {x y : α} (hx : x ∈ l) (hy : y ∈ l) (hkey : key x = key y) : x = y :=
  List.inj_on_of_nodup_map hnodup hx hy hkey

/-- A list without repetitions whose elements are all equal is short. -/
theorem length_le_one_of_nodup {l : List α} (hnodup : l.Nodup)
    (hall : ∀ x y, x ∈ l → y ∈ l → x = y) : l.length ≤ 1 := by
  match l with
  | [] => simp
  | [x] => simp
  | x :: y :: rest =>
      have hxy := hall x y (by simp) (by simp)
      simp [hxy] at hnodup

theorem find?_key_eq_some [DecidableEq κ] {key : α → κ} {l : List α}
    (hnodup : (l.map key).Nodup) {x : α} (hx : x ∈ l) :
    (l.find? fun d => key d = key x) = some x := by
  obtain ⟨y, hy⟩ : ∃ y, (l.find? fun d => key d = key x) = some y := by
    rw [← Option.isSome_iff_exists, List.find?_isSome]
    exact ⟨x, hx, by simp⟩
  have hkey : key y = key x := by simpa using List.find?_some hy
  rw [hy, eq_of_key_eq hnodup (List.mem_of_find?_eq_some hy) hx hkey]

/-- A query that finds one document finds it first. -/
theorem find?_of_filter_eq_singleton {p : α → Bool} {l : List α} {x : α}
    (h : l.filter p = [x]) : l.find? p = some x ∧ x ∈ l ∧ p x = true := by
  have hfind : l.find? p = some x := by rw [← List.head?_filter, h, List.head?_cons]
  exact ⟨hfind, List.mem_of_find?_eq_some hfind, List.find?_some hfind⟩

/-- A query that finds nothing. -/
theorem find?_of_filter_eq_nil {p : α → Bool} {l : List α}
    (h : l.filter p = []) : l.find? p = none ∧ l.any p = false := by
  rw [List.filter_eq_nil_iff] at h
  exact ⟨List.find?_eq_none.mpr h, by simpa [List.any_eq_false] using h⟩

/-- With unique keys, a query that fixes the key finds at most one document. -/
theorem filter_length_le_one {key : α → κ} {l : List α}
    (hnodup : (l.map key).Nodup) {p : α → Bool}
    (hp : ∀ x y, p x = true → p y = true → key x = key y) :
    l.filter p = (l.find? p).toList := by
  induction l with
  | nil => rfl
  | cons d rest ih =>
      simp only [List.map_cons, List.nodup_cons] at hnodup
      obtain ⟨hfresh, hrest⟩ := hnodup
      by_cases hd : p d = true
      · have hnone : rest.filter p = [] := by
          rw [List.filter_eq_nil_iff]
          intro e he hpe
          exact hfresh (List.mem_map.mpr ⟨e, he, hp e d hpe hd⟩)
        simp [hd, hnone]
      · simp [hd, ih hrest]

end LambdaOnOpenStack.Support
