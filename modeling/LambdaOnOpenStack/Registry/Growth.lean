import LambdaOnOpenStack.Registry.NamedFunction

/-!
# Registries that grow by run records

All that dispatches leave in the registry are run records, each of which copies
the user, the file name and the event source of a document that was there.  They
answer no query that was not answered before; but they may be the newest to
answer it, and so the counter of a run may depend on them.  This module
compares the registry with the one that has not received some of them.
-/

namespace LambdaOnOpenStack

open Support Registry

variable {P : Platform} {r r' : Registry}

/-! ## Growth -/

/-- The two documents answer the same queries of the listener. -/
def MappingDoc.SameBinding (d d' : MappingDoc) : Prop :=
  d.username = d'.username ∧ d.filename = d'.filename ∧ d.eventsource = d'.eventsource

namespace MappingDoc.SameBinding

variable {d d' d'' : MappingDoc}

theorem symm (h : d.SameBinding d') : d'.SameBinding d :=
  ⟨h.1.symm, h.2.1.symm, h.2.2.symm⟩

theorem trans (h : d.SameBinding d') (h' : d'.SameBinding d'') : d.SameBinding d'' :=
  ⟨h.1.trans h'.1, h.2.1.trans h'.2.1, h.2.2.trans h'.2.2⟩

theorem mem_recordsOf (h : d.SameBinding d') {user name source : Value}
    (hd' : d' ∈ r'.recordsOf P user name source) (hd : d ∈ r.mapping) :
    d ∈ r.recordsOf P user name source := by
  obtain ⟨huser, hname, hsource⟩ := h
  have hanswers := (List.mem_filter.mp hd').2
  rw [← huser, ← hname, ← hsource] at hanswers
  exact List.mem_filter.mpr ⟨hd, hanswers⟩

theorem runRecord (P : Platform) (r : Registry) (latest : MappingDoc)
    (log_uuid : String) : (r.runRecord P latest log_uuid).SameBinding latest :=
  ⟨rfl, rfl, rfl⟩

end MappingDoc.SameBinding

/-- `r'` is `r` with further run records, each of which answers the queries that a
document of `r` answers. -/
structure Registry.GrowsInto (r r' : Registry) : Prop where
  uploads : r'.uploads = r.uploads
  mapping : ∃ runs, r'.mapping = r.mapping ++ runs ∧
    ∀ d ∈ runs, ∃ c ∈ r.mapping, d.SameBinding c

namespace Registry.GrowsInto

theorem refl (r : Registry) : r.GrowsInto r := ⟨rfl, [], by simp, by simp⟩

theorem trans {r₁ r₂ r₃ : Registry} (h₁ : r₁.GrowsInto r₂)
    (h₂ : r₂.GrowsInto r₃) : r₁.GrowsInto r₃ := by
  obtain ⟨runs₁, hmapping₁, hcopies₁⟩ := h₁.mapping
  obtain ⟨runs₂, hmapping₂, hcopies₂⟩ := h₂.mapping
  refine ⟨h₂.uploads.trans h₁.uploads, runs₁ ++ runs₂, ?_, ?_⟩
  · rw [hmapping₂, hmapping₁, List.append_assoc]
  · intro d hd
    rcases List.mem_append.mp hd with hd | hd
    · exact hcopies₁ d hd
    · obtain ⟨c, hc, hsame⟩ := hcopies₂ d hd
      rw [hmapping₁] at hc
      rcases List.mem_append.mp hc with hc | hc
      · exact ⟨c, hc, hsame⟩
      · obtain ⟨b, hb, hsame'⟩ := hcopies₁ c hc
        exact ⟨b, hb, hsame.trans hsame'⟩

theorem record {latest : MappingDoc} (hlatest : latest ∈ r.mapping)
    (log_uuid : String) : r.GrowsInto (r.record P latest log_uuid) where
  uploads := rfl
  mapping := by
    refine ⟨_, rfl, ?_⟩
    intro d hd
    obtain rfl := List.mem_singleton.mp hd
    exact ⟨latest, hlatest, .runRecord ..⟩

theorem firstRecord (h : r.GrowsInto r') (user : Value) :
    r'.firstRecord P user = r.firstRecord P user := by
  obtain ⟨runs, hmapping, hcopies⟩ := h.mapping
  rw [Registry.firstRecord, Registry.firstRecord, hmapping]
  apply find?_append_of_copies
  intro d hd
  obtain ⟨c, hc, huser, -⟩ := hcopies d hd
  exact ⟨c, hc, by rw [huser]⟩

theorem recordsOf_eq_nil (h : r.GrowsInto r') (user name source : Value) :
    r'.recordsOf P user name source = [] ↔ r.recordsOf P user name source = [] := by
  obtain ⟨runs, hmapping, hcopies⟩ := h.mapping
  rw [Registry.recordsOf, Registry.recordsOf, hmapping, List.filter_append,
    List.append_eq_nil_iff, List.filter_eq_nil_iff, List.filter_eq_nil_iff]
  constructor
  · exact And.left
  · intro hnone
    refine ⟨hnone, ?_⟩
    intro d hd
    obtain ⟨c, hc, huser, hname, hsource⟩ := hcopies d hd
    rw [huser, hname, hsource]
    exact hnone c hc

/-- The content of a registration is the same. -/
theorem content (h : r.GrowsInto r') (hr : WellFormed P r)
    (hr' : WellFormed P r') {d : MappingDoc} (hd : d ∈ r.mapping)
    (hreg : d.isRegistration = true) : r'.content d._id = r.content d._id := by
  obtain ⟨content, hupload, hread⟩ := hr.content_of_registration hd hreg
  have hd' : d ∈ r'.mapping := by
    obtain ⟨runs, hmapping, -⟩ := h.mapping
    rw [hmapping]
    exact List.mem_append_left _ hd
  obtain ⟨content', -, hread'⟩ := hr'.content_of_registration hd' hreg
  rw [← h.uploads] at hupload
  rw [hread, hread', hr'.content_eq_uploaded hread' hupload]

end Registry.GrowsInto

/-! ## The newest document -/

section Newest

variable {user name source : Value} {latest d : MappingDoc} {log_uuid : String}

theorem Registry.mem_of_latestRecord
    (hlatest : r.latestRecord P user name source = some latest) : latest ∈ r.mapping :=
  (List.mem_filter.mp (List.argmax_mem hlatest)).1

theorem Registry.le_of_latestRecord
    (hlatest : r.latestRecord P user name source = some latest) (hd : d ∈ r.mapping)
    (hsame : d.SameBinding latest) : d._id ≤ latest._id :=
  List.le_of_mem_argmax (hsame.mem_recordsOf (List.argmax_mem hlatest) hd) hlatest

end Newest

/-! ## Without some of the records -/

/-- The registry if these documents had not been inserted. -/
def Registry.without (strays : List MappingDoc) (r : Registry) : Registry :=
  { r with mapping := r.mapping.filter fun d => d ∉ strays }

section Without

variable {strays : List MappingDoc} {user name source : Value}
  {latest d : MappingDoc} {log_uuid : String}

theorem Registry.mem_without :
    d ∈ (r.without strays).mapping ↔ d ∈ r.mapping ∧ d ∉ strays := by
  simp [Registry.without]

theorem Registry.without_nil : r.without [] = r := by
  simp [Registry.without]

theorem Registry.WellFormed.without (h : WellFormed P r) (strays : List MappingDoc) :
    WellFormed P (r.without strays) := by
  have hstored : Stored P (r.without strays) := h.toStored.of_same rfl rfl rfl
  refine ⟨⟨h.file_ids, ?_, h.upload_ids, ?_, h.upload_issued, h.chunk_issued⟩,
    hstored, ⟨?_, ?_⟩⟩
  · exact h.mapping_ids.sublist (List.filter_sublist.map _)
  · exact fun d hd => h.mapping_issued d (mem_without.mp hd).1
  · exact fun d hd => h.registration_file d (mem_without.mp hd).1
  · exact fun d hd => h.run_id d (mem_without.mp hd).1

theorem Registry.GrowsInto.without (h : r.GrowsInto r')
    (hadded : ∀ n ∈ strays, n ∉ r.mapping) : r.GrowsInto (r'.without strays) := by
  obtain ⟨runs, hmapping, hcopies⟩ := h.mapping
  refine ⟨h.uploads, runs.filter fun d => d ∉ strays, ?_, ?_⟩
  · have hkept : (r.mapping.filter fun d => d ∉ strays) = r.mapping := by
      rw [List.filter_eq_self]
      intro d hd
      exact decide_eq_true fun hmem => hadded d hmem hd
    rw [Registry.without, hmapping, List.filter_append, hkept]
  · intro d hd
    exact hcopies d (List.mem_filter.mp hd).1

/-- A newest document that is left is the newest of those that are left. -/
theorem Registry.latestRecord_without (h : WellFormed P r)
    (hlatest : r.latestRecord P user name source = some latest)
    (hkept : latest ∉ strays) :
    (r.without strays).latestRecord P user name source = some latest := by
  have hmem := mem_of_latestRecord hlatest
  have hmem' : latest ∈ (r.without strays).recordsOf P user name source :=
    MappingDoc.SameBinding.mem_recordsOf ⟨rfl, rfl, rfl⟩ (List.argmax_mem hlatest)
      (mem_without.mpr ⟨hmem, hkept⟩)
  obtain ⟨d, hd⟩ : ∃ d,
      (r.without strays).latestRecord P user name source = some d := by
    refine Option.ne_none_iff_exists'.mp fun hnone => ?_
    exact List.ne_nil_of_mem hmem' (List.argmax_eq_none.mp hnone)
  have hle : latest._id ≤ d._id := List.le_of_mem_argmax hmem' hd
  obtain ⟨hdmem, -⟩ := mem_without.mp (mem_of_latestRecord hd)
  have hge : d._id ≤ latest._id := by
    have hdmem' : d ∈ r.recordsOf P user name source :=
      MappingDoc.SameBinding.mem_recordsOf ⟨rfl, rfl, rfl⟩ (List.argmax_mem hd) hdmem
    exact List.le_of_mem_argmax hdmem' hlatest
  obtain rfl := eq_of_key_eq h.mapping_ids hdmem hmem (le_antisymm hge hle)
  exact hd

/-- `strays` have been inserted since `r`, and each has a greater counter than the
newest other document of its binding, unless that one is newer than it. -/
structure Strays (P : Platform) (r r' : Registry) (strays : List MappingDoc) :
    Prop where
  grows : r.GrowsInto r'
  wellFormed : WellFormed P r'
  mem : ∀ n ∈ strays, n ∈ r'.mapping
  added : ∀ n ∈ strays, n ∉ r.mapping
  outcounts : ∀ n ∈ strays, ∀ d ∈ (r'.without strays).mapping, d.SameBinding n →
    (∀ c ∈ (r'.without strays).mapping, c.SameBinding n → c._id ≤ d._id) →
    n._id < d._id ∨ d.sequence_count < n.sequence_count

namespace Strays

theorem start (h : WellFormed P r) : Strays P r r [] where
  grows := .refl r
  wellFormed := h
  mem := by simp
  added := by simp
  outcounts := by simp

variable (h : Strays P r r' strays)

include h

theorem runRecord_notMem (latest : MappingDoc) (log_uuid : String) :
    r'.runRecord P latest log_uuid ∉ strays := by
  intro hmem
  exact h.wellFormed.mapping_fresh _ (h.mem _ hmem) rfl

theorem record_without (latest : MappingDoc) (log_uuid : String) :
    (r'.record P latest log_uuid).without strays =
      (r'.without strays).record P latest log_uuid := by
  have hkept := h.runRecord_notMem latest log_uuid
  have hnew : ([r'.runRecord P latest log_uuid].filter fun d => d ∉ strays) =
      [r'.runRecord P latest log_uuid] := by simp [hkept]
  rw [Registry.without, Registry.record, List.filter_append, hnew]
  rfl

theorem record_without_stray (latest : MappingDoc) (log_uuid : String) :
    (r'.record P latest log_uuid).without
        (strays ++ [r'.runRecord P latest log_uuid]) =
      { r'.without strays with issued := r'.issued + 1 } := by
  have hsame : (r'.mapping.filter fun d =>
      d ∉ strays ++ [r'.runRecord P latest log_uuid]) =
        r'.mapping.filter fun d => d ∉ strays := by
    refine List.filter_congr fun d hd => ?_
    have hne : d ≠ r'.runRecord P latest log_uuid := by
      rintro rfl
      exact h.wellFormed.mapping_fresh _ hd rfl
    simp [hne]
  have hnew : ([r'.runRecord P latest log_uuid].filter fun d =>
      d ∉ strays ++ [r'.runRecord P latest log_uuid]) = [] := by simp
  rw [Registry.without, Registry.record, List.filter_append, hsame, hnew,
    List.append_nil]
  rfl

/-- A run takes its counter from a document that is left. -/
theorem own (hlatest : r'.latestRecord P user name source = some latest)
    (hkept : latest ∉ strays) (log_uuid : String) :
    Strays P r (r'.record P latest log_uuid) strays where
  grows := h.grows.trans (.record (mem_of_latestRecord hlatest) log_uuid)
  wellFormed := h.wellFormed.record latest log_uuid
  mem n hn := List.mem_append_left _ (h.mem n hn)
  added := h.added
  outcounts := by
    intro n hn d hd hsame hnewest
    rw [h.record_without] at hd hnewest
    rcases List.mem_append.mp hd with hd | hd
    · refine h.outcounts n hn d hd hsame fun c hc hc' => ?_
      exact hnewest c (List.mem_append_left _ hc) hc'
    · obtain rfl := List.mem_singleton.mp hd
      have hkey : latest.SameBinding n :=
        (MappingDoc.SameBinding.runRecord ..).symm.trans hsame
      have hmem := mem_of_latestRecord hlatest
      have hle := le_of_latestRecord hlatest (h.mem n hn) hkey.symm
      have hne : n._id ≠ latest._id := by
        intro hid
        obtain rfl := eq_of_key_eq h.wellFormed.mapping_ids (h.mem n hn) hmem hid
        exact hkept hn
      have hless := hnewest latest
        (List.mem_append_left _ (mem_without.mpr ⟨hmem, hkept⟩)) hkey
      exact Or.inl (lt_of_lt_of_le (lt_of_le_of_ne hle hne) hless)

/-- A run leaves one more of the documents that the other registry has not got. -/
theorem stray (hlatest : r'.latestRecord P user name source = some latest)
    (log_uuid : String) :
    Strays P r (r'.record P latest log_uuid)
      (strays ++ [r'.runRecord P latest log_uuid]) where
  grows := h.grows.trans (.record (mem_of_latestRecord hlatest) log_uuid)
  wellFormed := h.wellFormed.record latest log_uuid
  mem n hn := by
    rcases List.mem_append.mp hn with hn | hn
    · exact List.mem_append_left _ (h.mem n hn)
    · exact List.mem_append_right _ hn
  added n hn := by
    rcases List.mem_append.mp hn with hn | hn
    · exact h.added n hn
    · rw [List.mem_singleton.mp hn]
      intro hmem
      obtain ⟨runs, hmapping, -⟩ := h.grows.mapping
      have hold : r'.runRecord P latest log_uuid ∈ r'.mapping := by
        rw [hmapping]
        exact List.mem_append_left _ hmem
      exact h.wellFormed.mapping_fresh _ hold rfl
  outcounts := by
    intro n hn d hd hsame hnewest
    rw [h.record_without_stray] at hd hnewest
    rcases List.mem_append.mp hn with hn | hn
    · exact h.outcounts n hn d hd hsame hnewest
    · rw [List.mem_singleton.mp hn] at hsame hnewest ⊢
      have hkey : d.SameBinding latest := hsame.trans (.runRecord ..)
      have hmem := mem_of_latestRecord hlatest
      have hcount : (r'.runRecord P latest log_uuid).sequence_count =
          latest.sequence_count + 1 := rfl
      have hle := le_of_latestRecord hlatest (mem_without.mp hd).1 hkey
      right
      by_cases hstray : latest ∈ strays
      · rcases h.outcounts latest hstray d hd hkey fun c hc hc' =>
          hnewest c hc (hc'.trans (MappingDoc.SameBinding.runRecord ..).symm)
          with hnewer | hless
        · exact absurd hnewer (not_lt.mpr hle)
        · omega
      · have hge := hnewest latest (mem_without.mpr ⟨hmem, hstray⟩)
          (MappingDoc.SameBinding.runRecord ..).symm
        obtain rfl := eq_of_key_eq h.wellFormed.mapping_ids (mem_without.mp hd).1 hmem
          (le_antisymm hle hge)
        omega

/-- The record of a run shows whether its counter was taken from a stray. -/
theorem nextRun_ne {other : MappingDoc}
    (hlatest : r'.latestRecord P user name source = some latest)
    (hstray : latest ∈ strays)
    (hother : (r'.without strays).latestRecord P user name source = some other)
    (log_uuid : String) : other.nextRun log_uuid ≠ latest.nextRun log_uuid := by
  intro hsame
  simp only [MappingDoc.nextRun, RunRecord.mk.injEq] at hsame
  have hkey : other.SameBinding latest := ⟨hsame.2.1, hsame.1, hsame.2.2.2.1⟩
  have hmem := mem_of_latestRecord hother
  have hle := le_of_latestRecord hlatest (mem_without.mp hmem).1 hkey
  rcases h.outcounts latest hstray other hmem hkey fun c hc hc' =>
    le_of_latestRecord hother hc (hc'.trans hkey.symm) with hnewer | hless
  · exact absurd hnewer (not_lt.mpr hle)
  · omega

end Strays

end Without

end LambdaOnOpenStack
