import LambdaOnOpenStack.Support.Resources
import LambdaOnOpenStack.Support.Services

/-!
# Versions that only the consumer changes

Each state has a version.  The programs for requests keep it, whatever it is,
and what they know stays true in later versions; only the consumer passes from
one version to the next.  Between two of its steps the version stays the same,
so the consumer can rely on what it has found, and when it dies, another one
goes on from the version that it has left.  `W` says which states have a version
and fit what the requests know, and `J` holds of all states anyway.
-/

namespace LambdaOnOpenStack.Support

variable {σ ε α β γ κ ρ : Type} {J : σ → Prop} {W : κ → γ → σ → Prop}

namespace Program

/-- From the version `k` on, the program takes only steps to other versions. -/
def Advances (J : σ → Prop) (W : κ → γ → σ → Prop) : Program σ ε α → κ → Prop
  | done _, _ => True
  | raised _, _ => True
  | atomic effect next, k =>
      ∀ g s, J s → W k g s →
        ∃ k', W k' g (effect s) ∧ (next s).Advances J W k'

theorem Advances.of_confined {O : Type} {out : σ → O} {p : Program σ ε α}
    (hW : ∀ k g s t, out t = out s → W k g s → W k g t) (hp : p.Confined out)
    (k : κ) : p.Advances J W k := by
  induction p with
  | done a => trivial
  | raised e => trivial
  | atomic effect next ih =>
      intro g s _ hs
      exact ⟨k, hW k _ _ _ (hp.1 s) hs, ih s (hp.2 s)⟩

/-- A part of the program that keeps the version. -/
theorem Advances.confined_bind {O : Type} {out : σ → O} {p : Program σ ε β}
    {f : β → Program σ ε α} (hW : ∀ k g s t, out t = out s → W k g s → W k g t)
    (hp : p.Confined out) {k : κ} (hf : ∀ b, (f b).Advances J W k) :
    (p >>= f).Advances J W k := by
  induction p with
  | done b => exact hf b
  | raised e => trivial
  | atomic effect next ih =>
      intro g s _ hs
      exact ⟨k, hW k _ _ _ (hp.1 s) hs, ih s (hp.2 s)⟩

variable [AddCommMonoid γ]

/-- Knowing `g`, the program takes only steps that keep the version. -/
def Stable (J : σ → Prop) (W : κ → γ → σ → Prop) : Program σ ε α → γ → Prop
  | done _, _ => True
  | raised _, _ => True
  | atomic effect next, g =>
      ∀ k frame s, J s → W k (g + frame) s →
        ∃ g', W k (g' + frame) (effect s) ∧ (next s).Stable J W g'

theorem Stable.frame {p : Program σ ε α} {g : γ} (hp : p.Stable J W g) (h : γ) :
    p.Stable J W (g + h) := by
  induction p generalizing g with
  | done a => trivial
  | raised e => trivial
  | atomic effect next ih =>
      intro k frame s hJ hs
      rw [add_assoc] at hs
      obtain ⟨g', hfits, hnext⟩ := hp k (h + frame) s hJ hs
      exact ⟨g' + h, by rwa [add_assoc], ih s hnext⟩

theorem Stable.bind {p : Program σ ε β} {f : β → Program σ ε α} {g : γ}
    (hp : p.Stable J W g) (hf : ∀ b, (f b).Stable J W 0) :
    (p >>= f).Stable J W g := by
  induction p generalizing g with
  | done b =>
      have hframe := (hf b).frame g
      rwa [zero_add] at hframe
  | raised e => trivial
  | atomic effect next ih =>
      intro k frame s hJ hs
      obtain ⟨g', hfits, hnext⟩ := hp k frame s hJ hs
      exact ⟨g', hfits, ih s hnext⟩

/-- One step of such a program. -/
theorem Stable.step {p : Program σ ε α} {g frame : γ} (hp : p.Stable J W g) {k : κ}
    {s : σ} (hJ : J s) (hs : W k (g + frame) s) :
    ∃ g', W k (g' + frame) (p.step s).2 ∧ (p.step s).1.Stable J W g' := by
  cases p with
  | done a => exact ⟨g, hs, hp⟩
  | raised e => exact ⟨g, hs, hp⟩
  | atomic effect next => exact hp k frame s hJ hs

theorem Stable.of_confined {O : Type} {out : σ → O} {p : Program σ ε α}
    (hW : ∀ k g s t, out t = out s → W k g s → W k g t) (hp : p.Confined out)
    (g : γ) : p.Stable J W g := by
  induction p with
  | done a => trivial
  | raised e => trivial
  | atomic effect next ih =>
      intro k frame s _ hs
      exact ⟨g, hW k _ _ _ (hp.1 s) hs, ih s (hp.2 s)⟩

/-- A step that may ask for anything and change what no version depends on. -/
theorem Stable.modify_bind {effect : σ → σ} {f : Unit → Program σ ε α} {g : γ}
    (heffect : ∀ k frame s, J s → W k (g + frame) s → W k (g + frame) (effect s))
    (hf : (f ()).Stable J W g) : (modify effect >>= f).Stable J W g :=
  fun k frame s hJ hs => ⟨g, heffect k frame s hJ hs, hf⟩

theorem Stable.forEach {body : β → Program σ ε Unit} (xs : List β)
    (hbody : ∀ x ∈ xs, (body x).Stable J W 0) :
    (forEach body xs).Stable J W 0 := by
  induction xs with
  | nil => trivial
  | cons x rest ih =>
      obtain ⟨hx, hrest⟩ := List.forall_mem_cons.mp hbody
      exact hx.bind fun _ => ih hrest

end Program

/-! ## Services -/

namespace Services

open Program

variable [AddCommMonoid γ] {message : β → Program σ ε Unit}
  {handler : ρ → Program σ ε α} {good : β → Prop} {S : Services σ ε α β}

/-- The state has a version that fits what all requests know, the consumer goes
on from this version, and the messages that wait are good. -/
structure Versioned (J : σ → Prop) (W : κ → γ → σ → Prop) (good : β → Prop)
    (S : Services σ ε α β) : Prop where
  version : ∃ k, ∃ known : List (Program σ ε α × γ),
    S.others = known.map (·.1) ∧ (∀ x ∈ known, x.1.Stable J W x.2) ∧
      W k (known.map (·.2)).sum S.delivery.state ∧
      ∀ current, S.delivery.consumer.bind (·.current) = some current →
        current.2.Advances J W k
  waiting : ∀ body ∈ S.delivery.waiting, good body

/-- What an action brings into the services. -/
def Admits (J : σ → Prop) (W : κ → γ → σ → Prop) (good : β → Prop)
    (handler : ρ → Program σ ε α) : ServiceAction β ρ → Prop
  | .publish body => good body
  | .arrive request => (handler request).Stable J W 0
  | _ => True

/-- The consumer begins with good messages, and only good ones are left. -/
theorem good_of_admits (message : β → Program σ ε Unit) {action : ServiceAction β ρ}
    (hwaiting : ∀ body ∈ S.delivery.waiting, good body)
    (hadmits : Admits J W good handler action) :
    (∀ body ∈ S.delivery.begins (S.toDelivery action), good body) ∧
      ∀ body ∈ (S.step message handler action).delivery.waiting, good body := by
  have hold := Delivery.sublist_waiting (B := S.delivery) message (S.toDelivery action)
  have hgood : ∀ body ∈ S.delivery.waiting ++
      Delivery.publishes (S.toDelivery action), good body := by
    intro body hbody
    rcases List.mem_append.mp hbody with hbody | hbody
    · exact hwaiting body hbody
    · cases action with
      | publish body' =>
          rw [List.mem_singleton.mp hbody]
          exact hadmits
      | _ => cases hbody
  constructor
  · intro body hbody
    exact hgood body (hold.subset (List.mem_append_left _ hbody))
  · intro body hbody
    exact hgood body (hold.subset (List.mem_append_right _ hbody))

theorem Versioned.step (h : S.Versioned J W good) (hJ : J S.delivery.state)
    (hmessage : ∀ body, good body → ∀ k, (message body).Advances J W k)
    {action : ServiceAction β ρ} (hadmits : Admits J W good handler action) :
    (S.step message handler action).Versioned J W good := by
  obtain ⟨hbegins, hleft⟩ := good_of_admits message h.waiting hadmits
  refine ⟨?_, hleft⟩
  obtain ⟨k, known, hothers, hstable, hfits, hcurrent⟩ := h.version
  cases action with
  | publish body => exact ⟨k, known, hothers, hstable, hfits, hcurrent⟩
  | start =>
      refine ⟨k, known, hothers, hstable, hfits, ?_⟩
      intro current hget
      apply hcurrent current
      simp only [Services.step, toDelivery, Delivery.step] at hget
      cases hconsumer : S.delivery.consumer with
      | none => simp [hconsumer] at hget
      | some c => simpa [hconsumer] using hget
  | deliver n =>
      have hdeliver : (S.delivery.step message (.deliver n)).state =
          S.delivery.state ∧
          (S.delivery.step message (.deliver n)).consumer.bind (·.current) =
            S.delivery.consumer.bind (·.current) := by
        simp only [Delivery.step]
        cases hconsumer : S.delivery.consumer <;> simp [hconsumer]
      refine ⟨k, known, hothers, hstable, hdeliver.1 ▸ hfits, ?_⟩
      intro current hget
      exact hcurrent current (hdeliver.2.symm.trans hget)
  | begin =>
      refine ⟨k, known, hothers, hstable, hfits, ?_⟩
      intro current hget
      rcases Delivery.current_begin hget with hold | ⟨body, hbody, hnew⟩
      · exact hcurrent current hold
      · rw [hnew]
        exact hmessage body (hbegins body hbody) k
  | consume =>
      rcases S.delivery.current_step message with
        ⟨hstate, hold⟩ | ⟨m, effect, next, hgoes, hstate, hnew⟩
      · refine ⟨k, known, hothers, hstable, hstate ▸ hfits, ?_⟩
        intro current hget
        exact hcurrent current (hold current hget)
      · obtain ⟨k', hfits', hnext⟩ := hcurrent (m, .atomic effect next) hgoes _ _ hJ hfits
        refine ⟨k', known, hothers, hstable, hstate ▸ hfits', ?_⟩
        intro current hget
        obtain rfl := Option.some.inj (hnew.symm.trans hget)
        exact hnext
  | die =>
      refine ⟨k, known, hothers, hstable, hfits, ?_⟩
      rintro current ⟨⟩
  | arrive request =>
      refine ⟨k, known ++ [(handler request, 0)], ?_, ?_, ?_, hcurrent⟩
      · simp [Services.step, hothers]
      · intro x hx
        rcases List.mem_append.mp hx with hx | hx
        · exact hstable x hx
        · rw [List.mem_singleton.mp hx]
          exact hadmits
      · simpa [Services.step, toDelivery, Delivery.step] using hfits
  | other i =>
      cases hget : known[i]? with
      | none =>
          have hnone : S.others[i]? = none := by simp [hothers, hget]
          have hstay : S.step message handler (.other i) = S := by
            simp [Services.step, toDelivery, Delivery.step, hnone]
          rw [hstay]
          exact ⟨k, known, hothers, hstable, hfits, hcurrent⟩
      | some x =>
          obtain ⟨p, g⟩ := x
          have hknown : (known.map (·.2))[i]? = some g := by simp [hget]
          obtain ⟨frame, hsum, hset⟩ := sum_set hknown
          rw [hsum] at hfits
          obtain ⟨g', hfits', hnext⟩ :=
            (hstable _ (List.mem_of_getElem? hget)).step hJ hfits
          refine ⟨k, known.set i ((p.step S.delivery.state).1, g'), ?_, ?_, ?_,
            hcurrent⟩
          · simp [Services.step, hothers, hget, List.map_set]
          · intro x hx
            rcases List.mem_or_eq_of_mem_set hx with hx | rfl
            · exact hstable x hx
            · exact hnext
          · rw [List.map_set, hset]
            simpa [Services.step, toDelivery, Delivery.step, hothers, hget] using hfits'

/-- Every state of a run has a version. -/
theorem Versioned.runAll (h : S.Versioned J W good)
    (hmessage : ∀ body, good body → ∀ k, (message body).Advances J W k)
    {actions : List (ServiceAction β ρ)}
    (hJ : Throughout (Services.step message handler) (fun S => J S.delivery.state) S
      actions)
    (hadmits : ∀ action ∈ actions, Admits J W good handler action) :
    (runAll (Services.step message handler) S actions).Versioned J W good := by
  induction actions generalizing S with
  | nil => exact h
  | cons action rest ih =>
      obtain ⟨haction, hrest⟩ := List.forall_mem_cons.mp hadmits
      exact ih (h.step hJ.1 hmessage haction) hJ.2 hrest

theorem versioned_idle {k : κ} {s : σ} (hs : W k 0 s) :
    (idle s : Services σ ε α β).Versioned J W good where
  version := ⟨k, [], rfl, by simp, by simpa [idle, Delivery.idle] using hs,
    by rintro current ⟨⟩⟩
  waiting := by rintro body ⟨⟩

end Services

end LambdaOnOpenStack.Support
