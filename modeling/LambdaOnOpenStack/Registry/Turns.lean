import LambdaOnOpenStack.Registry.Guards

/-!
# Requests in turn

Any number of web requests are somewhere between their steps.  If those with the
same guard take turns between their count and their end, what a request has
counted stays free until it inserts, and the names stay unique.  A registration
whose names are not text cannot be counted; its file is there as long as it is,
so that a second one for the same names has the same `_id` and is refused.
-/

namespace LambdaOnOpenStack

open Support

/-! ## The database between the steps -/

/-- What `POST /lambda` counts before it registers the file. -/
def FileDoc.guard (f : FileDoc) : Guard := .registrations f.metadata f.filename

namespace Registry

def HasFile (r : Registry) (_id : ObjectId) : Prop := ∃ f ∈ r.files, f._id = _id

/-- The identifier is that of a file or of a document of `mapping`. -/
def HasId (r : Registry) (_id : ObjectId) : Prop :=
  r.HasFile _id ∨ ∃ d ∈ r.mapping, d._id = _id

/-- A registration has the names of its file, if this is there; and it is there
if no query can find the registration. -/
structure Orderly (P : Platform) (r : Registry) : Prop extends r.UniqueNames where
  file_ids : (r.files.map (·._id)).Nodup
  mapping_ids : (r.mapping.map (·._id)).Nodup
  issued : ∀ _id, r.HasId _id → ∃ k < r.issued, P.newId k = _id
  registered : ∀ d ∈ r.mapping, d.isRegistration = true ∧ d.Plain
  keyed : ∀ d ∈ r.mapping, ∀ f ∈ r.files, f._id = d._id → f.guard = d.guard P
  backed : ∀ d ∈ r.mapping, d.Hidden → r.HasFile d._id

end Registry

namespace Phase

/-- What a request relies on with the identifier that it holds. -/
def Holds (r : Registry) (guard : Option Guard) : Phase → Prop
  | .uploading _id => ¬r.HasId _id
  | .registering _id => ∃ f ∈ r.files, f._id = _id ∧ guard = some f.guard
  | .deleting _id => r.HasFile _id → ∃ d ∈ r.mapping, d._id = _id ∧ ∃ u f, d.Named u f
  | .removing _id => ¬r.HasFile _id
  | _ => True

/-- What a request with the guard `guard` relies on. -/
structure Fits (P : Platform) (r : Registry) (guard : Option Guard) (phase : Phase) :
    Prop where
  free : phase.active = true → ∀ g ∈ guard, g.Free r
  issued : ∀ _id, phase.held = some _id → ∃ k < r.issued, P.newId k = _id
  holds : phase.Holds r guard

/-- Two requests in progress have different guards, and no other one holds the
identifier of an upload. -/
structure Apart (guard : Option Guard) (phase : Phase) (guard' : Option Guard)
    (phase' : Phase) : Prop where
  guards : phase.active = true → phase'.active = true → ∀ g ∈ guard, g ∉ guard'
  ids : ∀ _id, phase = .uploading _id → phase'.held ≠ some _id

end Phase

/-- The requests `i` with the guards `guard i` are where `phases i` says. -/
structure Turns (P : Platform) (r : Registry) (guard : ℕ → Option Guard)
    (phases : ℕ → Phase) : Prop extends r.Orderly P where
  fits : ∀ i, (phases i).Fits P r (guard i)
  apart : ∀ i j, i ≠ j → (phases i).Apart (guard i) (guard j) (phases j)

/-! ## What a step leaves to the others -/

namespace Guard

variable {r : Registry} {g : Guard}

theorem Free.store (h : g.Free r) {f : FileDoc}
    (hne : g ≠ .files f.metadata f.filename) :
    g.Free { r with files := r.files ++ [f] } := by
  cases g with
  | files metadata filename =>
      rw [Free, Registry.fileKeys, List.map_append, List.mem_append]
      rintro (hmem | hmem)
      · exact h hmem
      · obtain ⟨rfl, rfl⟩ := Prod.mk.inj (List.mem_singleton.mp hmem)
        exact hne rfl
  | registrations username filename => exact h

theorem Free.register (h : g.Free r) {P : Platform} {d : MappingDoc}
    (hne : g ≠ d.guard P) : g.Free { r with mapping := r.mapping ++ [d] } := by
  cases g with
  | files metadata filename => exact h
  | registrations username filename =>
      rw [Free, Registry.registrationKeys, List.filter_append, List.map_append,
        List.mem_append]
      rintro (hmem | hmem)
      · exact h hmem
      · obtain ⟨e, he, hkey⟩ := List.mem_map.mp hmem
        obtain rfl := List.mem_singleton.mp (List.mem_of_mem_filter he)
        obtain ⟨huser, hname⟩ := Prod.mk.inj hkey
        have hnamed : e.Named username filename := ⟨huser, hname⟩
        exact hne (hnamed.guard_eq P).symm

end Guard

namespace Registry

variable {r : Registry} {_id : ObjectId}

theorem HasFile.of_store {f : FileDoc}
    (h : ({ r with files := r.files ++ [f] } : Registry).HasFile _id) :
    r.HasFile _id ∨ f._id = _id := by
  obtain ⟨e, he, hid⟩ := h
  rcases List.mem_append.mp he with he | he
  · exact Or.inl ⟨e, he, hid⟩
  · rw [List.mem_singleton.mp he] at hid
    exact Or.inr hid

theorem HasFile.mono {r' : Registry} (h : r.HasFile _id)
    (hfiles : r.files ⊆ r'.files) : r'.HasFile _id := by
  obtain ⟨f, hf, hid⟩ := h
  exact ⟨f, hfiles hf, hid⟩

theorem HasId.mono {r' : Registry} (h : r.HasId _id) (hfiles : r.files ⊆ r'.files)
    (hmapping : r.mapping ⊆ r'.mapping) : r'.HasId _id := by
  rcases h with hfile | ⟨d, hd, hid⟩
  · exact Or.inl (hfile.mono hfiles)
  · exact Or.inr ⟨d, hmapping hd, hid⟩

end Registry

theorem MappingDoc.Named.not_hidden {d : MappingDoc} {u f : String}
    (h : d.Named u f) : ¬d.Hidden := by
  intro hhidden
  have hkey := h.hasKey_iff.mpr ⟨rfl, rfl⟩
  rw [hhidden] at hkey
  cases hkey

namespace Phase

variable {P : Platform} {r r' : Registry} {guard guard' : Option Guard}
  {phase phase' next : Phase}

theorem Fits.ended : Fits P r guard .ended where
  free := nofun
  issued := nofun
  holds := trivial

theorem Fits.of_holds (h : phase.Fits P r guard)
    (hfree : phase.active = true → ∀ g ∈ guard, g.Free r → g.Free r')
    (hissued : r.issued ≤ r'.issued)
    (hholds : phase.Holds r guard → phase.Holds r' guard) : phase.Fits P r' guard where
  free := fun hactive g hg => hfree hactive g hg (h.free hactive g hg)
  issued := by
    intro _id hid
    obtain ⟨k, hk, heq⟩ := h.issued _id hid
    exact ⟨k, Nat.lt_of_lt_of_le hk hissued, heq⟩
  holds := hholds h.holds

theorem Apart.ended_left : Apart guard .ended guard' phase' where
  guards := nofun
  ids := nofun

theorem Apart.ended_right : Apart guard phase guard' .ended where
  guards := nofun
  ids := nofun

/-- A request that has counted, or more, and uploads nothing. -/
theorem Apart.left (h : Apart guard phase guard' phase')
    (hactive : phase.active = true) (hid : ∀ _id, next ≠ .uploading _id) :
    Apart guard next guard' phase' where
  guards := fun _ => h.guards hactive
  ids := fun _id heq => absurd heq (hid _id)

theorem Apart.right (h : Apart guard phase guard' phase')
    (hactive : phase'.active = true)
    (hheld : ∀ _id, next.held = some _id → phase ≠ .uploading _id) :
    Apart guard phase guard' next where
  guards := fun hphase _ => h.guards hphase hactive
  ids := fun _id heq hid => hheld _id hid heq

end Phase

namespace Turns

variable {P : Platform} {r r' : Registry} {guard : ℕ → Option Guard}
  {phases : ℕ → Phase} {i : ℕ} {phase : Phase}

/-- What a step of request `i` has to keep. -/
theorem update (h : Turns P r guard phases) (horderly : r'.Orderly P)
    (hself : phase.Fits P r' (guard i))
    (hothers : ∀ j ≠ i, (phases j).Fits P r' (guard j))
    (hleft : ∀ j ≠ i, phase.Apart (guard i) (guard j) (phases j))
    (hright : ∀ j ≠ i, (phases j).Apart (guard j) (guard i) phase) :
    Turns P r' guard (Function.update phases i phase) := by
  refine ⟨horderly, ?_, ?_⟩
  · exact (Function.forall_update_iff phases fun j t => t.Fits P r' (guard j)).mpr
      ⟨hself, hothers⟩
  · intro j k hjk
    rcases eq_or_ne j i with rfl | hj
    · rw [Function.update_self, Function.update_of_ne (Ne.symm hjk)]
      exact hleft k (Ne.symm hjk)
    · rcases eq_or_ne k i with rfl | hk
      · rw [Function.update_self, Function.update_of_ne hj]
        exact hright j hj
      · rw [Function.update_of_ne hj, Function.update_of_ne hk]
        exact h.apart j k hjk

theorem start (guard : ℕ → Option Guard) : Turns P {} guard fun _ => .ended where
  files := List.nodup_nil
  registrations := List.nodup_nil
  file_ids := List.nodup_nil
  mapping_ids := List.nodup_nil
  issued := by simp [Registry.HasId, Registry.HasFile]
  registered := by simp
  keyed := by simp
  backed := by simp
  fits := fun _ => .ended
  apart := fun _ _ _ => .ended_left

/-- A request arrives. -/
theorem arrive (h : Turns P r guard phases) {guard' : ℕ → Option Guard}
    (hguard : ∀ j ≠ i, guard' j = guard j) :
    Turns P r guard' (Function.update phases i .waiting) := by
  refine ⟨h.toOrderly, ?_, ?_⟩
  · refine (Function.forall_update_iff phases fun j t => t.Fits P r (guard' j)).mpr
      ⟨⟨nofun, nofun, trivial⟩, fun j hj => ?_⟩
    rw [hguard j hj]
    exact h.fits j
  · intro j k hjk
    rcases eq_or_ne j i with rfl | hj
    · rw [Function.update_self]
      exact ⟨nofun, nofun⟩
    · rcases eq_or_ne k i with rfl | hk
      · rw [Function.update_self]
        exact ⟨fun _ => nofun, fun _ _ => nofun⟩
      · rw [Function.update_of_ne hj, Function.update_of_ne hk, hguard j hj,
          hguard k hk]
        exact h.apart j k hjk

/-- A request may end at any time. -/
theorem finish (h : Turns P r guard phases) (i : ℕ) :
    Turns P r guard (Function.update phases i .ended) :=
  h.update h.toOrderly .ended (fun j _ => h.fits j) (fun _ _ => .ended_left)
    fun _ _ => .ended_right

/-- A request counts zero while no other one with its guard is in progress. -/
theorem step_count (h : Turns P r guard phases) (hcount : ∀ g ∈ guard i, g.count r = 0)
    (hturn : ∀ g ∈ guard i, ∀ j ≠ i, (phases j).active = true → g ∉ guard j) :
    Turns P r guard (Function.update phases i .counted) := by
  refine h.update h.toOrderly ?_ (fun j _ => h.fits j) ?_ ?_
  · exact ⟨fun _ g hg => Guard.free_of_count (hcount g hg), nofun, trivial⟩
  · exact fun j hj => ⟨fun _ hactive g hg => hturn g hg j hj hactive, nofun⟩
  · exact fun j hj => ⟨fun hactive _ g hg hg' => hturn g hg' j hj hactive hg, nofun⟩

/-- An identifier that is in the database is not that of an upload. -/
theorem not_uploading (h : Turns P r guard phases) {_id : ObjectId}
    (hid : r.HasId _id) (j : ℕ) : phases j ≠ .uploading _id := by
  intro heq
  have hholds := (h.fits j).holds
  rw [heq] at hholds
  exact hholds hid

theorem step_pick (h : Turns P r guard phases) {d : MappingDoc} {u f : String}
    (hguard : guard i = none) (hd : d ∈ r.mapping) (hkey : d.hasKey u f = true) :
    Turns P r guard (Function.update phases i (.deleting d._id)) := by
  have hid : r.HasId d._id := Or.inr ⟨d, hd, rfl⟩
  refine h.update h.toOrderly ⟨?_, ?_, ?_⟩ (fun j _ => h.fits j) ?_ ?_
  · rw [hguard]
    exact nofun
  · rintro _ ⟨⟩
    exact h.issued _ hid
  · exact fun _ => ⟨d, hd, rfl, (h.registered d hd).2.named hkey⟩
  · refine fun j _ => ⟨?_, nofun⟩
    rw [hguard]
    exact nofun
  · refine fun j _ => ⟨?_, ?_⟩
    · rw [hguard]
      exact nofun
    · rintro _ heq ⟨⟩
      exact h.not_uploading hid j heq

theorem step_find (h : Turns P r guard phases) {f : FileDoc}
    (hphase : phases i = .counted) (hguard : guard i = some f.guard)
    (hf : f ∈ r.files) :
    Turns P r guard (Function.update phases i (.registering f._id)) := by
  have hid : r.HasId f._id := Or.inl ⟨f, hf, rfl⟩
  have hactive : (phases i).active = true := by rw [hphase]; rfl
  refine h.update h.toOrderly ⟨?_, ?_, ?_⟩ (fun j _ => h.fits j) ?_ ?_
  · exact fun _ => (h.fits i).free hactive
  · rintro _ ⟨⟩
    exact h.issued _ hid
  · exact ⟨f, hf, rfl, hguard⟩
  · exact fun j hj => (h.apart i j hj.symm).left hactive nofun
  · refine fun j hj => (h.apart j i hj).right hactive ?_
    rintro _ ⟨⟩
    exact h.not_uploading hid j

theorem step_issue (h : Turns P r guard phases) (hphase : phases i = .counted) :
    Turns P { r with issued := r.issued + 1 } guard
      (Function.update phases i (.uploading (P.newId r.issued))) := by
  have hactive : (phases i).active = true := by rw [hphase]; rfl
  have hnew : ∀ {_id}, (∃ k < r.issued, P.newId k = _id) → _id ≠ P.newId r.issued := by
    rintro _ ⟨k, hk, rfl⟩ heq
    exact absurd (P.newId_injective heq) (Nat.ne_of_lt hk)
  have hfree : ∀ g : Guard, g.Free r → g.Free { r with issued := r.issued + 1 } :=
    fun g hg => hg.mono (List.Subset.refl _) (List.Subset.refl _)
  refine h.update ?_ ⟨?_, ?_, ?_⟩ ?_ ?_ ?_
  · refine { h.toOrderly with issued := ?_ }
    intro _id hid
    obtain ⟨k, hk, heq⟩ := h.issued _id hid
    exact ⟨k, Nat.lt_succ_of_lt hk, heq⟩
  · exact fun _ g hg => hfree g ((h.fits i).free hactive g hg)
  · rintro _ ⟨⟩
    exact ⟨r.issued, Nat.lt_succ_self _, rfl⟩
  · exact fun hid => hnew (h.issued _ hid) rfl
  · refine fun j _ => (h.fits j).of_holds (fun _ g _ => hfree g) (Nat.le_succ _) ?_
    cases phases j <;> exact id
  · refine fun j hj => ⟨fun _ => (h.apart i j hj.symm).guards hactive, ?_⟩
    rintro _id heq hheld
    obtain rfl := Phase.uploading.inj heq
    exact hnew ((h.fits j).issued _ hheld) rfl
  · refine fun j hj => (h.apart j i hj).right hactive ?_
    rintro _ ⟨⟩ heq
    exact hnew ((h.fits j).issued _ (by rw [heq]; rfl)) rfl

theorem step_store (h : Turns P r guard phases) {f : FileDoc}
    (hphase : phases i = .uploading f._id)
    (hguard : guard i = some (.files f.metadata f.filename)) :
    Turns P { r with files := r.files ++ [f] } guard
      (Function.update phases i .ended) := by
  have hactive : (phases i).active = true := by rw [hphase]; rfl
  have hnot : ¬r.HasId f._id := by
    have hholds := (h.fits i).holds
    rwa [hphase] at hholds
  have hfree : Guard.Free r (.files f.metadata f.filename) :=
    (h.fits i).free hactive _ hguard
  refine h.update ⟨⟨?_, h.registrations⟩, ?_, h.mapping_ids, ?_, h.registered, ?_, ?_⟩
    .ended ?_ (fun _ _ => .ended_left) fun _ _ => .ended_right
  · rw [Registry.fileKeys, List.map_append]
    exact (nodup_concat_iff h.files _).mpr hfree
  · rw [List.map_append]
    refine (nodup_concat_iff h.file_ids _).mpr fun hmem => ?_
    exact hnot (Or.inl (List.mem_map.mp hmem))
  · rintro _id (hfile | hdoc)
    · rcases hfile.of_store with hfile | rfl
      · exact h.issued _ (Or.inl hfile)
      · exact (h.fits i).issued _ (by rw [hphase]; rfl)
    · exact h.issued _ (Or.inr hdoc)
  · intro d hd e he hid
    rcases List.mem_append.mp he with he | he
    · exact h.keyed d hd e he hid
    · rw [List.mem_singleton.mp he] at hid
      exact absurd (Or.inr ⟨d, hd, hid.symm⟩) hnot
  · exact fun d hd hhidden =>
      (h.backed d hd hhidden).mono (List.subset_append_left _ _)
  · intro j hj
    refine (h.fits j).of_holds ?_ le_rfl ?_
    · intro hactive' g hg hfree'
      refine hfree'.store ?_
      rintro rfl
      exact (h.apart i j hj.symm).guards hactive hactive' _ hguard hg
    · have hne := (h.apart i j hj.symm).ids _ hphase
      cases hother : phases j with
      | uploading _id =>
          rintro hholds (hfile | hdoc)
          · rcases hfile.of_store with hfile | rfl
            · exact hholds (Or.inl hfile)
            · exact hne (by rw [hother]; rfl)
          · exact hholds (Or.inr hdoc)
      | registering _id =>
          rintro ⟨e, he, hid, heq⟩
          exact ⟨e, List.mem_append_left _ he, hid, heq⟩
      | deleting _id =>
          intro hholds hfile
          rcases hfile.of_store with hfile | rfl
          · exact hholds hfile
          · exact absurd (by rw [hother]; rfl) hne
      | removing _id =>
          intro hholds hfile
          rcases hfile.of_store with hfile | rfl
          · exact hholds hfile
          · exact hne (by rw [hother]; rfl)
      | _ => exact id

/-- A registration for names that are not text is new: the file of another one for
the same names would be the one that was found. -/
theorem registration_new (h : Turns P r guard phases) {d : MappingDoc}
    (hphase : phases i = .registering d._id) (hguard : guard i = some (d.guard P))
    (hplain : d.Plain) (hnew : ∀ e ∈ r.mapping, e._id ≠ d._id) :
    (d.username, d.filename) ∉ r.registrationKeys := by
  have hactive : (phases i).active = true := by rw [hphase]; rfl
  have hholds := (h.fits i).holds
  rw [hphase] at hholds
  obtain ⟨f, hf, hid, hfound⟩ := hholds
  have hkey : f.guard = d.guard P := Option.some.inj (hfound.symm.trans hguard)
  rcases hplain with ⟨u, n, hnamed⟩ | hhidden
  · have hfree := (h.fits i).free hactive _ hguard
    rw [hnamed.guard_eq] at hfree
    rw [hnamed.1, hnamed.2]
    exact hfree
  · intro hmem
    obtain ⟨e, he, hnames⟩ := List.mem_map.mp hmem
    obtain ⟨huser, hname⟩ := Prod.mk.inj hnames
    have he' := List.mem_of_mem_filter he
    have hhidden' : e.Hidden := by
      intro u n
      rw [MappingDoc.hasKey, huser, hname]
      exact hhidden u n
    obtain ⟨f', hf', hid'⟩ := h.backed e he' hhidden'
    have hkey' : f'.guard = f.guard := by
      rw [h.keyed e he' f' hf' hid', hkey, MappingDoc.guard, MappingDoc.guard, huser,
        hname]
    obtain ⟨hmetadata, hfilename⟩ := Guard.registrations.inj hkey'
    have hsame : f' = f := eq_of_key_eq h.files hf' hf (Prod.ext hmetadata hfilename)
    exact hnew e he' (by rw [← hid', hsame, hid])

theorem step_register (h : Turns P r guard phases) {d : MappingDoc}
    (hphase : phases i = .registering d._id) (hguard : guard i = some (d.guard P))
    (hreg : d.isRegistration = true) (hplain : d.Plain)
    (hnew : ∀ e ∈ r.mapping, e._id ≠ d._id) :
    Turns P { r with mapping := r.mapping ++ [d] } guard
      (Function.update phases i .ended) := by
  have hactive : (phases i).active = true := by rw [hphase]; rfl
  have hholds := (h.fits i).holds
  rw [hphase] at hholds
  obtain ⟨f, hf, hid, hfound⟩ := hholds
  have hkey : f.guard = d.guard P := Option.some.inj (hfound.symm.trans hguard)
  refine h.update ⟨⟨h.files, ?_⟩, h.file_ids, ?_, ?_, ?_, ?_, ?_⟩
    .ended ?_ (fun _ _ => .ended_left) fun _ _ => .ended_right
  · have hkeys : ({ r with mapping := r.mapping ++ [d] } : Registry).registrationKeys =
        r.registrationKeys ++ [(d.username, d.filename)] := by
      simp [Registry.registrationKeys, hreg]
    rw [hkeys]
    exact (nodup_concat_iff h.registrations _).mpr
      (h.registration_new hphase hguard hplain hnew)
  · rw [List.map_append]
    refine (nodup_concat_iff h.mapping_ids _).mpr fun hmem => ?_
    obtain ⟨e, he, heq⟩ := List.mem_map.mp hmem
    exact hnew e he heq
  · rintro _id (hfile | ⟨e, he, rfl⟩)
    · exact h.issued _ (Or.inl hfile)
    · rcases List.mem_append.mp he with he | he
      · exact h.issued _ (Or.inr ⟨e, he, rfl⟩)
      · rw [List.mem_singleton.mp he]
        exact (h.fits i).issued _ (by rw [hphase]; rfl)
  · intro e he
    rcases List.mem_append.mp he with he | he
    · exact h.registered e he
    · rw [List.mem_singleton.mp he]
      exact ⟨hreg, hplain⟩
  · intro e he f' hf' hid'
    rcases List.mem_append.mp he with he | he
    · exact h.keyed e he f' hf' hid'
    · rw [List.mem_singleton.mp he] at hid' ⊢
      rw [eq_of_key_eq h.file_ids hf' hf (hid'.trans hid.symm), hkey]
  · intro e he hhidden
    rcases List.mem_append.mp he with he | he
    · exact h.backed e he hhidden
    · rw [List.mem_singleton.mp he]
      exact ⟨f, hf, hid⟩
  · intro j hj
    refine (h.fits j).of_holds ?_ le_rfl ?_
    · intro hactive' g hg hfree
      refine hfree.register (P := P) ?_
      rintro rfl
      exact (h.apart i j hj.symm).guards hactive hactive' _ hguard hg
    · cases hother : phases j with
      | uploading _id =>
          rintro hholds (hfile | ⟨e, he, heq⟩)
          · exact hholds (Or.inl hfile)
          · rcases List.mem_append.mp he with he | he
            · exact hholds (Or.inr ⟨e, he, heq⟩)
            · rw [List.mem_singleton.mp he] at heq
              refine (h.apart j i hj).ids _ hother ?_
              rw [hphase, ← heq]
              rfl
      | deleting _id =>
          intro hholds hfile
          obtain ⟨e, he, heq, hnamed⟩ := hholds hfile
          exact ⟨e, List.mem_append_left _ he, heq, hnamed⟩
      | _ => exact id

theorem step_deleteFile (h : Turns P r guard phases) {_id : ObjectId}
    (hphase : phases i = .deleting _id) :
    Turns P (r.deleteFile _id) guard (Function.update phases i (.removing _id)) := by
  have hactive : (phases i).active = true := by rw [hphase]; rfl
  have hheld : (phases i).held = some _id := by rw [hphase]; rfl
  have hholds := (h.fits i).holds
  rw [hphase] at hholds
  have hmem {f : FileDoc} : f ∈ (r.deleteFile _id).files ↔ f ∈ r.files ∧ f._id ≠ _id :=
    mem_eraseP_of_nodup h.file_ids
  have hfiles : (r.deleteFile _id).files ⊆ r.files := fun f hf => (hmem.mp hf).1
  refine h.update ⟨⟨?_, h.registrations⟩, ?_, h.mapping_ids, ?_, h.registered, ?_, ?_⟩
    ⟨?_, ?_, ?_⟩ ?_ ?_ ?_
  · exact h.files.sublist (List.eraseP_sublist.map _)
  · exact nodup_map_eraseP h.file_ids _
  · exact fun _id' hid => h.issued _id' (hid.mono hfiles (List.Subset.refl _))
  · exact fun d hd f hf => h.keyed d hd f (hfiles hf)
  · intro d hd hhidden
    obtain ⟨f, hf, hid⟩ := h.backed d hd hhidden
    refine ⟨f, hmem.mpr ⟨hf, ?_⟩, hid⟩
    intro heq
    obtain ⟨e, he, heid, u, n, hnamed⟩ := hholds ⟨f, hf, heq⟩
    obtain rfl : e = d :=
      eq_of_key_eq h.mapping_ids he hd (heid.trans (heq.symm.trans hid))
    exact hnamed.not_hidden hhidden
  · exact fun _ g hg => ((h.fits i).free hactive g hg).mono
      (List.map_subset _ hfiles) (List.Subset.refl _)
  · rintro _ ⟨⟩
    exact (h.fits i).issued _ hheld
  · rintro ⟨f, hf, hid⟩
    exact (hmem.mp hf).2 hid
  · intro j hj
    refine (h.fits j).of_holds ?_ le_rfl ?_
    · exact fun _ g _ hfree =>
        hfree.mono (List.map_subset _ hfiles) (List.Subset.refl _)
    · cases hother : phases j with
      | uploading _id' => exact mt fun hid => hid.mono hfiles (List.Subset.refl _)
      | registering _id' =>
          rintro ⟨f, hf, hid, hguard⟩
          refine ⟨f, hmem.mpr ⟨hf, ?_⟩, hid, hguard⟩
          -- A document that queries find has been registered for the file, and then
          -- the guard of request `j` is not free.
          intro heq
          obtain ⟨e, he, heid, u, n, hnamed⟩ := hholds ⟨f, hf, heq⟩
          have hkey := h.keyed e he f hf (heq.trans heid.symm)
          have hfree := (h.fits j).free (by rw [hother]; rfl) _ hguard
          rw [hkey, hnamed.guard_eq] at hfree
          refine hfree (List.mem_map.mpr ⟨e, ?_, Prod.ext hnamed.1 hnamed.2⟩)
          exact List.mem_filter.mpr ⟨he, (h.registered e he).1⟩
      | deleting _id' => exact fun hholds hfile => hholds (hfile.mono hfiles)
      | removing _id' => exact mt fun hfile => hfile.mono hfiles
      | _ => exact id
  · exact fun j hj => (h.apart i j hj.symm).left hactive nofun
  · refine fun j hj => (h.apart j i hj).right hactive ?_
    rintro _ ⟨⟩ heq
    exact (h.apart j i hj).ids _ heq hheld

theorem step_deleteMapping (h : Turns P r guard phases) {_id : ObjectId}
    (hphase : phases i = .removing _id) :
    Turns P (r.deleteMapping _id) guard (Function.update phases i .ended) := by
  have hholds := (h.fits i).holds
  rw [hphase] at hholds
  have hmem {d : MappingDoc} :
      d ∈ (r.deleteMapping _id).mapping ↔ d ∈ r.mapping ∧ d._id ≠ _id :=
    mem_eraseP_of_nodup h.mapping_ids
  have hmapping : (r.deleteMapping _id).mapping ⊆ r.mapping :=
    fun d hd => (hmem.mp hd).1
  have hkeys : (r.deleteMapping _id).registrationKeys.Sublist r.registrationKeys :=
    (List.eraseP_sublist.filter _).map _
  refine h.update ⟨⟨h.files, ?_⟩, h.file_ids, ?_, ?_, ?_, ?_, ?_⟩ .ended ?_
    (fun _ _ => .ended_left) fun _ _ => .ended_right
  · exact h.registrations.sublist hkeys
  · exact nodup_map_eraseP h.mapping_ids _
  · exact fun _id' hid => h.issued _id' (hid.mono (List.Subset.refl _) hmapping)
  · exact fun d hd => h.registered d (hmapping hd)
  · exact fun d hd => h.keyed d (hmapping hd)
  · exact fun d hd => h.backed d (hmapping hd)
  · intro j hj
    refine (h.fits j).of_holds ?_ le_rfl ?_
    · exact fun _ g _ hfree => hfree.mono (List.Subset.refl _) hkeys.subset
    · cases phases j with
      | uploading _id' => exact mt fun hid => hid.mono (List.Subset.refl _) hmapping
      | deleting _id' =>
          intro hholds' hfile
          obtain ⟨d, hd, rfl, hnamed⟩ := hholds' hfile
          refine ⟨d, hmem.mpr ⟨hd, ?_⟩, rfl, hnamed⟩
          intro heq
          exact hholds (heq ▸ hfile)
      | _ => exact id

/-- A step of request `i`; when it counts zero, no other request with its guard is
in progress. -/
theorem step (h : Turns P r guard phases) (hact : Act P (guard i) (phases i) r phase r')
    (hturn : phases i = .waiting → ∀ g ∈ guard i, g.count r = 0 →
      ∀ j ≠ i, (phases j).active = true → g ∉ guard j) :
    Turns P r' guard (Function.update phases i phase) := by
  generalize hphase : phases i = before at hact hturn
  cases hact with
  | quiet =>
      rw [← hphase, Function.update_eq_self]
      exact h
  | leave => exact h.finish i
  | count hcount => exact h.step_count hcount fun g hg => hturn rfl g hg (hcount g hg)
  | pick hguard hd hkey => exact h.step_pick hguard hd hkey
  | issue => exact h.step_issue hphase
  | store hguard => exact h.step_store hphase hguard
  | find hguard hf => exact h.step_find hphase hguard hf
  | register hguard hreg hplain hnew =>
      exact h.step_register hphase hguard hreg hplain hnew
  | deleteFile => exact h.step_deleteFile hphase
  | deleteMapping => exact h.step_deleteMapping hphase

end Turns

end LambdaOnOpenStack
