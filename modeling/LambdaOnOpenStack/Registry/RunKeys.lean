import LambdaOnOpenStack.Registry.Invariant
import Mathlib.Data.List.Pairwise
import Mathlib.Order.Monotone.Basic

/-!
# The keys of runs

`GET /lambda/logs` finds a run by its user, its file name, its event type and
its number.  The number is taken from the latest record with the same event
source, so it tells runs apart only as long as one event type is counted by
one event source.
-/

namespace LambdaOnOpenStack

open Support Registry

/-! ## Documents of one function -/

/-- The same user and the same file name, as stored. -/
def MappingDoc.SameKey (d e : MappingDoc) : Prop :=
  d.username = e.username ∧ d.filename = e.filename

theorem MappingDoc.SameKey.hasKey {d e : MappingDoc} (h : d.SameKey e)
    (uname filename : String) :
    d.hasKey uname filename = e.hasKey uname filename := by
  rw [MappingDoc.hasKey, MappingDoc.hasKey, h.1, h.2]

namespace Registry

/-- The records of the runs of the function of `d`. -/
def IsRunOf (r : Registry) (d e : MappingDoc) : Prop :=
  e ∈ r.mapping ∧ e.isRunRecord = true ∧ d.SameKey e

/-- No two run records agree on the key of `GET /lambda/logs`. -/
def RunKeysDistinct (r : Registry) : Prop :=
  ∀ d ∈ r.mapping, ∀ e ∈ r.mapping,
    d.isRunRecord = true → e.isRunRecord = true → d.SameKey e →
    d.eventType = e.eventType → d.sequence_count = e.sequence_count → d = e

/-! ## Requests that keep the counters apart -/

/-- What a `PUT` that turns `d` into `d'` has to respect.  A registration
changes to an event source that runs of the function have already, or to an
event type that none of them has.  A run record changes to an event type whose
other runs have the new event source and higher numbers. -/
def UpdateKeepsCounters (r : Registry) (d d' : MappingDoc) : Prop :=
  (d'.eventType = d.eventType ∧ d'.eventsource = d.eventsource) ∨
    if d.isRegistration then
      (∃ e, r.IsRunOf d e ∧ e.eventsource = d'.eventsource) ∨
        ∀ e, r.IsRunOf d e → e.eventType ≠ d'.eventType
    else
      ∀ e, r.IsRunOf d e → e ≠ d → e.eventType = d'.eventType →
        e.eventsource = d'.eventsource ∧ d.sequence_count < e.sequence_count

/-- A `POST` that finds no duplicate finds no document with exactly the user
and the file name of its body, and a `PUT` respects the counters. -/
def KeepsCounters (P : Platform) (r : Registry) : Request → Prop
  | .post body =>
      (∀ d ∈ r.mapping, body.hasKey P d = false) →
        ∀ d ∈ r.mapping,
          ¬(d.username = body.UserName ∧ d.filename = body.FileName)
  | .put body =>
      ∀ d, r.mapping.find? (body.hasKey P) = some d →
        r.UpdateKeepsCounters d (body.update P d)
  | _ => True

/-- Where the user and the file name are text, the query of `POST` finds every
document with them. -/
theorem keepsCounters_post {P : Platform} {r : Registry} {body : Body}
    {user name : String} (huser : body.UserName = .str user)
    (hname : body.FileName = .str name) : r.KeepsCounters P (.post body) := by
  intro hfree d hd hsame
  have hkey := hfree d hd
  rw [huser, hname] at hsame
  simp [Body.hasKey, MappingDoc.hasKey, huser, hname, hsame,
    Value.holdsText] at hkey

/-! ## The invariant -/

/-- What holds for a document `x` and a later one `y`: if they belong to one
function, `y` is a run, it is newer, and a run of the same event type has the
same event source and a lower number. -/
def Precedes (x y : MappingDoc) : Prop :=
  x.SameKey y →
    y.isRunRecord = true ∧ x._id < y._id ∧
      (x.isRunRecord = true → x.eventType = y.eventType →
        x.eventsource = y.eventsource ∧ x.sequence_count < y.sequence_count)

/-- The next run of a registration continues the counter of its event source
or begins the counter of its event type. -/
def Continues (r : Registry) (g : MappingDoc) : Prop :=
  (∃ e, r.IsRunOf g e ∧ e.eventsource = g.eventsource) ∨
    ∀ e, r.IsRunOf g e → e.eventType ≠ g.eventType

structure Counted (r : Registry) : Prop where
  ordered : r.mapping.Pairwise Precedes
  continues : ∀ g ∈ r.mapping, g.isRegistration = true → r.Continues g

theorem Counted.empty : Counted {} where
  ordered := List.Pairwise.nil
  continues := by simp

variable {P : Platform} {r : Registry}

/-- Of two documents one precedes the other. -/
theorem Counted.precedes (h : r.Counted) {x y : MappingDoc}
    (hx : x ∈ r.mapping) (hy : y ∈ r.mapping) (hxy : x ≠ y) :
    Precedes x y ∨ Precedes y x := by
  have hpairs : r.mapping.Pairwise fun x y => Precedes x y ∨ Precedes y x :=
    h.ordered.imp fun hab => Or.inl hab
  have hsymm : Std.Symm fun x y => Precedes x y ∨ Precedes y x :=
    ⟨fun _ _ hab => hab.symm⟩
  exact hpairs.forall hx hy hxy

/-- The invariant tells the runs apart. -/
theorem Counted.runKeysDistinct (h : r.Counted) : r.RunKeysDistinct := by
  intro d hd e he hdrun herun hkey htype hcount
  by_contra hne
  rcases h.precedes hd he hne with hde | hed
  · have hlt := ((hde hkey).2.2 hdrun htype).2
    omega
  · have hlt := ((hed ⟨hkey.1.symm, hkey.2.symm⟩).2.2 herun htype.symm).2
    omega

/-- A registration is older than the runs of its function. -/
theorem Counted.registration_lt (h : r.Counted) {g e : MappingDoc}
    (hg : g ∈ r.mapping) (hreg : g.isRegistration = true)
    (he : r.IsRunOf g e) : g._id < e._id := by
  have hne : g ≠ e := by
    rintro rfl
    have hrun := he.2.1
    simp [MappingDoc.isRunRecord_eq_not, hreg] at hrun
  rcases h.precedes hg he.1 hne with hge | heg
  · exact (hge he.2.2).2.1
  · have hrun := (heg ⟨he.2.2.1.symm, he.2.2.2.symm⟩).1
    simp [MappingDoc.isRunRecord_eq_not, hreg] at hrun

/-- The first match of a key is older than the rest of its function. -/
theorem Counted.registration_of_first (h : r.Counted)
    {uname filename : String} {d g : MappingDoc}
    (hfind : r.mapping.find? (·.hasKey uname filename) = some d)
    (hg : g ∈ r.mapping) (hreg : g.isRegistration = true)
    (hkey : d.SameKey g) : g = d := by
  obtain ⟨hd, before, after, hmapping, hbefore⟩ :=
    List.find?_eq_some_iff_append.mp hfind
  have hordered := h.ordered
  rw [hmapping] at hg hordered
  rcases List.mem_append.mp hg with hg | hg
  · have hgkey := hbefore g hg
    rw [← hkey.hasKey, hd] at hgkey
    simp at hgkey
  · rcases List.mem_cons.mp hg with hgd | hg
    · exact hgd
    · have htail := (List.pairwise_append.mp hordered).2.1
      have hrun := ((List.pairwise_cons.mp htail).1 g hg hkey).1
      simp [MappingDoc.isRunRecord_eq_not, hreg] at hrun

/-! ## Registrations and deletions -/

theorem isRunOf_insert {d e new : MappingDoc} (hnew : new.isRegistration = true) :
    (r.insert new).IsRunOf d e ↔ r.IsRunOf d e := by
  simp only [IsRunOf, Registry.insert, List.mem_append, List.mem_singleton]
  constructor
  · rintro ⟨he | rfl, hrun, hkey⟩
    · exact ⟨he, hrun, hkey⟩
    · simp [MappingDoc.isRunRecord_eq_not, hnew] at hrun
  · rintro ⟨he, hrun, hkey⟩
    exact ⟨Or.inl he, hrun, hkey⟩

/-- Registering a function that no document belongs to. -/
theorem Counted.insert (h : r.Counted) {new : MappingDoc}
    (hnew : new.isRegistration = true)
    (hfree : ∀ d ∈ r.mapping, ¬d.SameKey new) : (r.insert new).Counted where
  ordered := by
    refine List.pairwise_append.mpr
      ⟨h.ordered, List.pairwise_singleton _ _, ?_⟩
    intro x hx y hy hkey
    rw [List.mem_singleton.mp hy] at hkey
    exact absurd hkey (hfree x hx)
  continues := by
    intro g hg hreg
    simp only [Continues, isRunOf_insert hnew]
    rcases List.mem_append.mp hg with hg | hg
    · exact h.continues g hg hreg
    · refine Or.inr ?_
      intro e he
      rw [List.mem_singleton.mp hg] at he
      exact absurd ⟨he.2.2.1.symm, he.2.2.2.symm⟩ (hfree e he.1)

theorem Counted.remove (h : r.Counted) (hwell : WellFormed P r)
    {uname filename : String} {d : MappingDoc}
    (hfind : r.mapping.find? (·.hasKey uname filename) = some d) :
    (r.remove d._id).Counted where
  ordered := h.ordered.sublist List.eraseP_sublist
  continues := by
    intro g hg hreg
    have hgmem := List.mem_of_mem_eraseP hg
    rcases h.continues g hgmem hreg with ⟨e, he, hsource⟩ | hnone
    · refine Or.inl ⟨e, ⟨?_, he.2⟩, hsource⟩
      refine (mem_eraseP_of_nodup hwell.mapping_ids).mpr ⟨he.1, ?_⟩
      -- Were `e` deleted, it would have come before the registration `g`.
      intro hid
      obtain rfl := eq_of_key_eq hwell.mapping_ids he.1
        (List.mem_of_find?_eq_some hfind) hid
      obtain rfl := h.registration_of_first hfind hgmem hreg
        ⟨he.2.2.1.symm, he.2.2.2.symm⟩
      have hrun := he.2.1
      simp [MappingDoc.isRunRecord_eq_not, hreg] at hrun
    · refine Or.inr ?_
      intro e he
      exact hnone e ⟨List.mem_of_mem_eraseP he.1, he.2⟩

/-! ## Updates -/

/-- The first match and its update in place. -/
theorem updateKey_split {body : Body} {d : MappingDoc}
    (hfind : r.mapping.find? (body.hasKey P) = some d) :
    ∃ before after, r.mapping = before ++ d :: after ∧
      (∀ x ∈ before, ¬x.SameKey d) ∧
      (r.updateKey P body (body.update P)).mapping =
        before ++ body.update P d :: after := by
  obtain ⟨before, after, hmapping, hbefore, hupdate⟩ :=
    updateFirst_of_find?_some (body.update P) hfind
  refine ⟨before, after, hmapping, ?_, hupdate⟩
  intro x hx hkey
  have hd : body.hasKey P d = true := List.find?_some hfind
  rw [Body.hasKey, ← hkey.hasKey] at hd
  have hxfree := hbefore x hx
  rw [Body.hasKey, hd] at hxfree
  simp at hxfree

theorem update_sameKey (body : Body) (d : MappingDoc) :
    (body.update P d).SameKey d :=
  ⟨(update_kept body d).2.1, (update_kept body d).2.2.1⟩

/-- The updated document still precedes the rest of its function. -/
theorem Precedes.update {body : Body} {d y : MappingDoc}
    (hdy : Precedes d y) (hy : y ∈ r.mapping) (hne : y ≠ d)
    (hkeeps : r.UpdateKeepsCounters d (body.update P d)) :
    Precedes (body.update P d) y := by
  intro hkey
  have hsame := update_sameKey (P := P) body d
  have hkey' : d.SameKey y :=
    ⟨hsame.1.symm.trans hkey.1, hsame.2.symm.trans hkey.2⟩
  obtain ⟨hrun, hid, hcount⟩ := hdy hkey'
  refine ⟨hrun, by rwa [(update_kept body d).1], ?_⟩
  intro hdrun htype
  rw [update_isRunRecord] at hdrun
  rw [(update_kept body d).2.2.2.2]
  rcases hkeeps with ⟨htype', hsource'⟩ | hkeeps
  · rw [hsource']
    exact hcount hdrun (htype'.symm.trans htype)
  · have hreg : ¬d.isRegistration = true := by
      simpa [MappingDoc.isRunRecord_eq_not] using hdrun
    rw [if_neg hreg] at hkeeps
    obtain ⟨hsource, hlt⟩ := hkeeps y ⟨hy, hrun, hkey'⟩ hne htype.symm
    exact ⟨hsource.symm, hlt⟩

theorem Counted.update_ordered (h : r.Counted) (hwell : WellFormed P r)
    {body : Body} {d : MappingDoc}
    (hfind : r.mapping.find? (body.hasKey P) = some d)
    (hkeeps : r.UpdateKeepsCounters d (body.update P d)) :
    (r.updateKey P body (body.update P)).mapping.Pairwise Precedes := by
  obtain ⟨before, after, hmapping, hbefore, hupdate⟩ := updateKey_split hfind
  have hordered := h.ordered
  rw [hmapping] at hordered
  rw [hupdate]
  obtain ⟨hold, htail, hcross⟩ := List.pairwise_append.mp hordered
  obtain ⟨hhead, hrest⟩ := List.pairwise_cons.mp htail
  refine List.pairwise_append.mpr
    ⟨hold, List.pairwise_cons.mpr ⟨?_, hrest⟩, ?_⟩
  · intro y hy
    have hymem : y ∈ r.mapping := by
      rw [hmapping]
      exact List.mem_append_right _ (List.mem_cons_of_mem _ hy)
    refine (hhead y hy).update hymem ?_ hkeeps
    rintro rfl
    have hnodup := hwell.mapping_ids.of_map
    rw [hmapping] at hnodup
    exact (List.nodup_cons.mp (List.nodup_append.mp hnodup).2.1).1 hy
  · intro x hx y hy
    rcases List.mem_cons.mp hy with rfl | hy
    · intro hkey
      have hsame := update_sameKey (P := P) body d
      exact absurd ⟨hkey.1.trans hsame.1, hkey.2.trans hsame.2⟩
        (hbefore x hx)
    · exact hcross x hx y (List.mem_cons_of_mem _ hy)

/-- A run of a document after a `PUT` is one from before, or the updated one. -/
theorem isRunOf_update {body : Body} {d g e : MappingDoc}
    (hfind : r.mapping.find? (body.hasKey P) = some d)
    (he : (r.updateKey P body (body.update P)).IsRunOf g e) :
    r.IsRunOf g e ∨ e = body.update P d ∧ d.isRunRecord = true ∧ g.SameKey d := by
  obtain ⟨hmem, hrun, hkey⟩ := he
  rcases mem_updateFirst hmem with hmem | ⟨d', hfind', rfl⟩
  · exact Or.inl ⟨hmem, hrun, hkey⟩
  · obtain rfl := Option.some.inj (hfind.symm.trans hfind')
    rw [update_isRunRecord] at hrun
    have hsame := update_sameKey (P := P) body d
    exact Or.inr ⟨rfl, hrun, hkey.1.trans hsame.1, hkey.2.trans hsame.2⟩

theorem isRunOf_update_of_ne {body : Body} {d g e : MappingDoc}
    (hfind : r.mapping.find? (body.hasKey P) = some d) (hne : e ≠ d)
    (he : r.IsRunOf g e) :
    (r.updateKey P body (body.update P)).IsRunOf g e := by
  obtain ⟨hmem, hrun, hkey⟩ := he
  obtain ⟨before, after, hmapping, -, hupdate⟩ := updateKey_split hfind
  refine ⟨?_, hrun, hkey⟩
  rw [hmapping] at hmem
  rw [hupdate]
  rcases List.mem_append.mp hmem with hmem | hmem
  · exact List.mem_append_left _ hmem
  · rcases List.mem_cons.mp hmem with rfl | hmem
    · exact absurd rfl hne
    · exact List.mem_append_right _ (List.mem_cons_of_mem _ hmem)

/-- A registration other than the updated document keeps what it continues:
no run of its function was updated. -/
theorem Counted.continues_update_other (h : r.Counted) {body : Body}
    {d g : MappingDoc} (hfind : r.mapping.find? (body.hasKey P) = some d)
    (hg : g ∈ r.mapping) (hreg : g.isRegistration = true) (hne : g ≠ d) :
    (r.updateKey P body (body.update P)).Continues g := by
  have hother : ¬d.SameKey g := by
    intro hkey
    exact hne (h.registration_of_first hfind hg hreg hkey)
  rcases h.continues g hg hreg with ⟨e, he, hsource⟩ | hnone
  · refine Or.inl ⟨e, isRunOf_update_of_ne hfind ?_ he, hsource⟩
    rintro rfl
    exact hother ⟨he.2.2.1.symm, he.2.2.2.symm⟩
  · refine Or.inr ?_
    intro e he
    rcases isRunOf_update hfind he with he | ⟨-, -, hkey⟩
    · exact hnone e he
    · exact absurd ⟨hkey.1.symm, hkey.2.symm⟩ hother

theorem Counted.continues_update_self (h : r.Counted) {body : Body}
    {d : MappingDoc} (hfind : r.mapping.find? (body.hasKey P) = some d)
    (hreg : d.isRegistration = true)
    (hkeeps : r.UpdateKeepsCounters d (body.update P d)) :
    (r.updateKey P body (body.update P)).Continues (body.update P d) := by
  have hd := List.mem_of_find?_eq_some hfind
  have hnotrun : d.isRunRecord = false := by
    simp [MappingDoc.isRunRecord_eq_not, hreg]
  have hsame := update_sameKey (P := P) body d
  have hbefore : ∀ e, (r.updateKey P body (body.update P)).IsRunOf
      (body.update P d) e ↔ r.IsRunOf d e := by
    intro e
    constructor
    · intro he
      rcases isRunOf_update hfind he with he | ⟨-, hrun, -⟩
      · exact ⟨he.1, he.2.1, hsame.1.symm.trans he.2.2.1,
          hsame.2.symm.trans he.2.2.2⟩
      · rw [hnotrun] at hrun
        simp at hrun
    · intro he
      have hne : e ≠ d := by
        rintro rfl
        have hrun := he.2.1
        rw [hnotrun] at hrun
        simp at hrun
      have he' := isRunOf_update_of_ne hfind hne he
      exact ⟨he'.1, he'.2.1, hsame.1.trans he.2.2.1, hsame.2.trans he.2.2.2⟩
  simp only [Continues, hbefore]
  rcases hkeeps with ⟨htype, hsource⟩ | hkeeps
  · rw [htype, hsource]
    exact h.continues d hd hreg
  · rw [if_pos hreg] at hkeeps
    exact hkeeps

theorem Counted.update (h : r.Counted) (hwell : WellFormed P r) {body : Body}
    (hkeeps : ∀ d, r.mapping.find? (body.hasKey P) = some d →
      r.UpdateKeepsCounters d (body.update P d)) :
    (r.updateKey P body (body.update P)).Counted := by
  cases hfind : r.mapping.find? (body.hasKey P) with
  | none =>
      have hsame : r.updateKey P body (body.update P) = r := by
        rw [Registry.updateKey, updateFirst_of_find?_none hfind]
      rw [hsame]
      exact h
  | some d =>
      refine ⟨h.update_ordered hwell hfind (hkeeps d hfind), ?_⟩
      intro g hg hreg
      obtain ⟨before, after, hmapping, -, hupdate⟩ := updateKey_split hfind
      by_cases hgd : g = body.update P d
      · rw [hgd, update_isRegistration] at hreg
        rw [hgd]
        exact h.continues_update_self hfind hreg (hkeeps d hfind)
      · have hgmem : g ∈ before ∨ g ∈ after := by
          rw [hupdate] at hg
          simpa [hgd] using hg
        have hgold : g ∈ r.mapping := by
          rw [hmapping]
          rcases hgmem with hgmem | hgmem <;> simp [hgmem]
        refine h.continues_update_other hfind hgold hreg ?_
        rintro rfl
        have hnodup := hwell.mapping_ids.of_map
        rw [hmapping] at hnodup
        obtain ⟨-, htail, hcross⟩ := List.nodup_append.mp hnodup
        rcases hgmem with hgmem | hgmem
        · exact hcross g hgmem g (List.mem_cons_self ..) rfl
        · exact (List.nodup_cons.mp htail).1 hgmem

/-! ## Runs -/

theorem mem_recordsOf {user name source : Value} {x y : MappingDoc}
    (hx : x ∈ r.mapping) (hxy : x.SameKey y)
    (hsource : x.eventsource = y.eventsource)
    (hy : y ∈ r.recordsOf P user name source) :
    x ∈ r.recordsOf P user name source := by
  refine List.mem_filter.mpr ⟨hx, ?_⟩
  rw [hxy.1, hxy.2, hsource]
  exact (List.mem_filter.mp hy).2

/-- No run of the function has the event type of the latest record with a
higher number or another event source. -/
theorem Counted.latest (h : r.Counted) {user name source : Value}
    {latest x : MappingDoc}
    (hlatest : r.latestRecord P user name source = some latest)
    (hx : r.IsRunOf latest x) (htype : x.eventType = latest.eventType) :
    x.eventsource = latest.eventsource ∧
      x.sequence_count ≤ latest.sequence_count := by
  have hmem := List.argmax_mem hlatest
  have hlatestmem : latest ∈ r.mapping := (List.mem_filter.mp hmem).1
  have hkey : x.SameKey latest := ⟨hx.2.2.1.symm, hx.2.2.2.symm⟩
  have hnewest : ∀ y, r.IsRunOf latest y →
      y.eventsource = latest.eventsource → y._id ≤ latest._id := by
    intro y hy hsource
    exact List.le_of_mem_argmax
      (mem_recordsOf hy.1 ⟨hy.2.2.1.symm, hy.2.2.2.symm⟩ hsource hmem) hlatest
  by_cases hreg : latest.isRegistration = true
  · rcases h.continues latest hlatestmem hreg with ⟨y, hy, hsource⟩ | hnone
    · have hle := hnewest y hy hsource
      have hlt := h.registration_lt hlatestmem hreg hy
      exact absurd hlt (Nat.not_lt.mpr hle)
    · exact absurd htype (hnone x hx)
  · have hrun : latest.isRunRecord = true := by
      simpa [MappingDoc.isRunRecord_eq_not] using hreg
    by_cases hxl : x = latest
    · rw [hxl]
      exact ⟨rfl, le_rfl⟩
    · rcases h.precedes hx.1 hlatestmem hxl with hprecedes | hfollows
      · obtain ⟨hsource, hlt⟩ := (hprecedes hkey).2.2 hx.2.1 htype
        exact ⟨hsource, by omega⟩
      · obtain ⟨-, hlt, hcount⟩ := hfollows hx.2.2
        have hle := hnewest x hx (hcount hrun htype.symm).1.symm
        exact absurd hlt (Nat.not_lt.mpr hle)

theorem Counted.record (h : r.Counted) (hwell : WellFormed P r)
    (hmono : StrictMono P.newId) {user name source : Value}
    {latest : MappingDoc} {log_uuid : String}
    (hlatest : r.latestRecord P user name source = some latest) :
    (r.record P latest log_uuid).Counted where
  ordered := by
    refine List.pairwise_append.mpr
      ⟨h.ordered, List.pairwise_singleton _ _, ?_⟩
    intro x hx y hy hkey
    obtain rfl := List.mem_singleton.mp hy
    refine ⟨rfl, ?_, ?_⟩
    · obtain ⟨k, hk, hid⟩ := hwell.mapping_issued x hx
      rw [hid]
      exact hmono hk
    · intro hrun htype
      obtain ⟨hsource, hle⟩ := h.latest hlatest
        ⟨hx, hrun, hkey.1.symm, hkey.2.symm⟩ htype
      exact ⟨hsource, Nat.lt_succ_of_le hle⟩
  continues := by
    intro g hg hreg
    have hlatestmem : latest ∈ r.mapping :=
      (List.mem_filter.mp (List.argmax_mem hlatest)).1
    rcases List.mem_append.mp hg with hg | hg
    · rcases h.continues g hg hreg with ⟨e, he, hsource⟩ | hnone
      · exact Or.inl ⟨e, ⟨List.mem_append_left _ he.1, he.2⟩, hsource⟩
      · by_cases hown : g.SameKey latest ∧ latest.eventsource = g.eventsource
        · exact Or.inl ⟨_, ⟨List.mem_append_right _
            (List.mem_singleton.mpr rfl), rfl, hown.1⟩, hown.2⟩
        · refine Or.inr ?_
          rintro e ⟨he, hrun, hkey⟩
          rcases List.mem_append.mp he with he | he
          · exact hnone e ⟨he, hrun, hkey⟩
          · obtain rfl := List.mem_singleton.mp he
            have hlatestkey : g.SameKey latest := hkey
            have hne : g ≠ latest := by
              rintro rfl
              exact hown ⟨hlatestkey, rfl⟩
            have hlatestrun : latest.isRunRecord = true := by
              rcases h.precedes hg hlatestmem hne with hgl | hlg
              · exact (hgl hlatestkey).1
              · have hgrun := (hlg ⟨hkey.1.symm, hkey.2.symm⟩).1
                simp [MappingDoc.isRunRecord_eq_not, hreg] at hgrun
            exact hnone latest ⟨hlatestmem, hlatestrun, hlatestkey⟩
    · rw [List.mem_singleton.mp hg] at hreg
      simp [MappingDoc.isRegistration, runRecord, RunRecord.document] at hreg

/-! ## Whole runs -/

theorem Change.counted {request : Request} {r' : Registry}
    (hchange : Change P r request r') (hwell : WellFormed P r)
    (hmono : StrictMono P.newId) (h : r.Counted)
    (hkeeps : r.KeepsCounters P request) : r'.Counted := by
  cases hchange with
  | idle => exact h
  | unmatched => exact h
  | uploaded => exact ⟨h.ordered, h.continues⟩
  | registered hfree =>
      refine h.insert rfl ?_
      intro d hd hkey
      exact hkeeps hfree d hd hkey
  | updated => exact h.update hwell hkeeps
  | removed hfind => exact h.remove hwell hfind
  | recorded _ hlatest => exact h.record hwell hmono hlatest

end Registry

/-- The state of a run in which the counters were kept apart. -/
structure CountedWorld (P : Platform) (w : World) : Prop where
  wellFormed : WellFormed P w.registry
  counted : w.registry.Counted

/-- In a run whose requests keep the counters apart, no two runs ever have the
same key. -/
theorem runKeysDistinct_throughout {P : Platform} (hmono : StrictMono P.newId)
    {requests : List Request}
    (hkeeps : Along (exec P) (fun w request => w.registry.KeepsCounters P request)
      {} requests) :
    Throughout (exec P) (fun w => w.registry.RunKeysDistinct) {} requests := by
  have hcounted : Throughout (exec P) (CountedWorld P) {} requests := by
    refine throughout_of_along ?_ ⟨WellFormed.empty, Counted.empty⟩ hkeeps
    intro w request h hrequest
    exact ⟨h.wellFormed.after_exec request,
      (h.wellFormed.change_exec request).counted h.wellFormed hmono h.counted
        hrequest⟩
  exact hcounted.imp fun w h => h.counted.runKeysDistinct

/-- Two runs of one registered function. -/
def runTwice : List Request :=
  [.fileupload (.str "testUser") "test.py" [112, 97, 115, 115],
    .post (.sample "testUser" "test.py"),
    .event (samplePayload "testUser" "test.py"),
    .event (samplePayload "testUser" "test.py")]

theorem runKeysDistinct_throughout_runTwice :
    Throughout (exec default) (fun w => w.registry.RunKeysDistinct) {}
      runTwice := by
  have hmono : StrictMono (default : Platform).newId := fun _ _ h => h
  exact runKeysDistinct_throughout hmono
    ⟨trivial, keepsCounters_post rfl rfl, trivial, trivial, trivial⟩

/-- A `PUT` that moves the function to the event source `S2`. -/
def moveBody (user filename : String) : Body where
  FileName := .str filename
  UserName := .str user
  EventType := .null
  EventSource := .str "S2"
  Memory := .null
  Environment := .null

/-- The event of the other source. -/
def movedPayload (user filename : String) : Value :=
  .obj
    [("event_data", .obj
      [("type", .str "FilexxxxCreate"), ("metadata_type", .str "filename"),
        ("filename", .str filename)]),
      ("user_name", .str user), ("event_source", .str "S2")]

/-- A run before and a run after the function moves to another event source. -/
def runMoveRun : List Request :=
  [.fileupload (.str "testUser") "test.py" [112, 97, 115, 115],
    .post (.sample "testUser" "test.py"),
    .event (samplePayload "testUser" "test.py"),
    .put (moveBody "testUser" "test.py"),
    .event (movedPayload "testUser" "test.py")]

/-- Both runs have the number 1. -/
theorem two_runs_with_one_key :
    StrictMono (default : Platform).newId ∧
      ¬Throughout (exec default) (fun w => w.registry.RunKeysDistinct) {}
        runMoveRun := by
  refine ⟨fun _ _ h => h, ?_⟩
  intro hthroughout
  have hlast := throughout_iff.mp hthroughout runMoveRun [] rfl
  obtain ⟨d, hd, e, he, hdrun, herun, huser, hfile, htype, hcount, hne⟩ :
      ∃ d ∈ (runAll (exec default) {} runMoveRun).registry.mapping,
        ∃ e ∈ (runAll (exec default) {} runMoveRun).registry.mapping,
          d.isRunRecord = true ∧ e.isRunRecord = true ∧
            d.username = e.username ∧ d.filename = e.filename ∧
            d.eventType = e.eventType ∧
            d.sequence_count = e.sequence_count ∧ d ≠ e := by decide
  exact hne (hlast d hd e he hdrun herun ⟨huser, hfile⟩ htype hcount)

end LambdaOnOpenStack
