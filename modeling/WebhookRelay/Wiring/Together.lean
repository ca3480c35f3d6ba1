import WebhookRelay.Replay.Guard
import WebhookRelay.Runs.Posts
import WebhookRelay.Wiring.Methods

/-!
# The services and the circuit breaker side by side

`Together` lets the system of the services, whose circuit breaker is an interface, and the system of
the calls of the circuit breaker run side by side. They meet where a coroutine of the services has
come to a call that is a method: then a call of the circuit breaker is opened for it, which goes on
among the others, and the coroutine gets its answer when that call has returned. A coroutine that
fails or is killed meanwhile leaves its call where it is.

Both halves of such a run are runs of their systems, with one clock.
-/

namespace WebhookRelay

open Data Effect

/-! ### Coroutines that are left alone -/

/-- A coroutine that is neither answered nor cut off stays as it is. -/
theorem Stepped.still {deps : Deps} {c c' : Config} {a : Action} {t : ℕ}
    (h : Stepped deps c a c') {th : Coroutine} {e : Op}
    {k : Except PyExn e.Resp → Relay Reply} (hth : c.threads[t]? = some th)
    (hp : th.prog = .call e k) (htaken : a.taken ≠ some t) (hinterrupts : a.interrupts ≠ some t) :
    c'.threads[t]? = some th := by
  have hlt : t < c.threads.length := (List.getElem?_eq_some_iff.mp hth).1
  cases h with
  | started => rw [List.getElem?_append_left hlt, hth]
  | answered _ _ ha =>
    rename_i u _ _ _ _ _ _ _ _
    have hne : u ≠ t := by
      rintro rfl
      cases ha with
      | executed => exact htaken rfl
      | lost => exact hinterrupts rfl
      | late => exact htaken rfl
    rw [List.getElem?_set_ne hne, hth]
  | killed hu =>
    rename_i u uh
    have hne : u ≠ t := by
      rintro rfl
      exact hinterrupts rfl
    rw [List.getElem?_set_ne hne, hth]
  | reaped hu ho hend =>
    rename_i u uh id
    have hne : u ≠ t := by
      rintro rfl
      rw [hth] at hu
      cases hu
      rw [hp] at hend
      cases hend
    rw [List.getElem?_set_ne hne, hth]
  | ticked => exact hth

namespace Wiring

/-! ### Side by side -/

/-- Which coroutine waits for which call of the circuit breaker. -/
abbrev Slots : Type := ℕ → Option ℕ

/-- The coroutine that a step of the services moves waits no longer. -/
def released (a : Action) (σ : Slots) : Slots := fun t =>
  if a.taken = some t ∨ a.interrupts = some t then none else σ t

/-- The next call of the coroutine, if it makes one, is not a method of the circuit breaker. -/
def CallsDirectly (d : WebhookRelay.Config) (t : ℕ) : Prop :=
  ∀ th e k, d.threads[t]? = some th → th.prog = .call e k → e.isMethod = false

/-- A run of the services and of the circuit breaker. -/
inductive Together (wi : Wiring) :
    WebhookRelay.Config → CircuitBreaker.Config → Slots → Prop where
  | initial (now : Datetime) : Together wi (WebhookRelay.initial now)
      (CircuitBreaker.initial (seconds now)) fun _ => none
  /-- The services make a step in which nobody is answered by the circuit breaker. -/
  | services {d d' : WebhookRelay.Config} {b : CircuitBreaker.Config} {σ : Slots} {a : Action}
    (h : Together wi d b σ) (hs : WebhookRelay.step wi.deps d a = some d')
    (hdirect : ∀ t, a.called = some t → CallsDirectly d t) :
    Together wi d' ⟨{ b.world with now := seconds d'.world.now }, b.threads⟩ (released a σ)
  /-- A coroutine has come to a method. -/
  | opens {d : WebhookRelay.Config} {b : CircuitBreaker.Config} {σ : Slots} {t : ℕ}
    {th : WebhookRelay.Coroutine} {e : Op} {k : Except PyExn e.Resp → Relay Reply}
    {o : CircuitBreaker.Origin} {f : CircuitBreaker.Answer → e.Resp}
    (h : Together wi d b σ) (hth : d.threads[t]? = some th) (hp : th.prog = .call e k)
    (hm : Method e o f) (hσ : σ t = none) :
    Together wi d ⟨b.world, b.threads ++ [o.start wi.breaker]⟩
      (Function.update σ t (some b.threads.length))
  /-- A call of the circuit breaker makes its next await. -/
  | breaker {d : WebhookRelay.Config} {b b' : CircuitBreaker.Config} {σ : Slots} {u : ℕ}
    (h : Together wi d b σ) (hs : CircuitBreaker.step wi.breaker b (.call u) = some b') :
    Together wi d b' σ
  /-- A call of the circuit breaker has returned, and its coroutine gets the answer. -/
  | closes {d d' : WebhookRelay.Config} {b : CircuitBreaker.Config} {σ : Slots} {t u : ℕ}
    {th : WebhookRelay.Coroutine} {e : Op} {k : Except PyExn e.Resp → Relay Reply}
    {o : CircuitBreaker.Origin} {f : CircuitBreaker.Answer → e.Resp} {bh : CircuitBreaker.Caller}
    {x : CircuitBreaker.Answer} {orc : Oracle}
    (h : Together wi d b σ) (hth : d.threads[t]? = some th) (hp : th.prog = .call e k)
    (hm : Method e o f) (hσ : σ t = some u) (hbh : b.threads[u]? = some bh)
    (hbp : bh.prog = .done x) (hs : WebhookRelay.step wi.deps d (.call t orc) = some d')
    (hx : ∀ w s, WebhookRelay.exec orc e w s = (.ok (f x), w, s)) :
    Together wi d' b (Function.update σ t none)

variable {wi : Wiring} {d d' : WebhookRelay.Config} {b : CircuitBreaker.Config} {σ : Slots}
  {a : Action} {t u : ℕ}

/-! ### The two halves -/

theorem seconds_mono {t t' : Datetime} (h : t ≤ t') : seconds t ≤ seconds t' := by
  have hmicros : (t.micros : ℚ) ≤ t'.micros := by exact_mod_cast h
  unfold seconds
  linarith

/-- The services reach their states by themselves. -/
theorem Together.services_reach (h : Together wi d b σ) :
    WebhookRelay.Reaches wi.deps WebhookRelay.anyStep d := by
  induction h with
  | initial now => exact ⟨now, .refl⟩
  | services _ hs _ ih => exact ih.tail trivial hs
  | opens _ _ _ _ _ ih => exact ih
  | breaker _ _ ih => exact ih
  | closes _ _ _ _ _ _ _ hs _ ih => exact ih.tail trivial hs

/-- The await of a call of the circuit breaker takes no time. -/
theorem now_breaker {b b' : CircuitBreaker.Config} {cb : CircuitBreaker}
    (hs : CircuitBreaker.step cb b (.call u) = some b') : b'.world.now = b.world.now := by
  cases CircuitBreaker.stepped hs with
  | called =>
    rename_i th e k hth hp
    cases e <;> rfl

/-- A coroutine that is answered by the circuit breaker takes no time. -/
theorem world_of_closes {th : WebhookRelay.Coroutine} {e : Op}
    {k : Except PyExn e.Resp → Relay Reply} {v : e.Resp} {orc : Oracle}
    (hth : d.threads[t]? = some th) (hp : th.prog = .call e k)
    (hs : WebhookRelay.step wi.deps d (.call t orc) = some d')
    (hx : ∀ w s, WebhookRelay.exec orc e w s = (.ok v, w, s)) :
    d'.world = d.world ∧ d'.threads = d.threads.set t
      (th.answered WebhookRelay.machine e (.ok v) (k (.ok v)) th.session) := by
  obtain ⟨th', e', k', hth', hp', -, hw, ht⟩ := Pool.call_eq_some hs
  rw [hth] at hth'
  cases hth'
  rw [hp] at hp'
  cases hp'
  have hexec : WebhookRelay.machine.exec orc e d.world th.session = (.ok v, d.world, th.session) :=
    hx _ _
  rw [hexec] at hw ht
  exact ⟨hw, ht⟩

/-- The circuit breaker and the services have one clock. -/
theorem Together.clock (h : Together wi d b σ) : b.world.now = seconds d.world.now := by
  induction h with
  | initial now => rfl
  | services => rfl
  | opens _ _ _ _ _ ih => exact ih
  | breaker _ hs ih => rw [now_breaker hs, ih]
  | closes _ hth hp _ _ _ _ hs hx ih => rw [(world_of_closes hth hp hs hx).1, ih]

/-- The circuit breaker reaches its states by itself. -/
theorem Together.breaker_reaches (h : Together wi d b σ) :
    CircuitBreaker.Reaches wi.breaker CircuitBreaker.anyStep b := by
  induction h with
  | initial now => exact ⟨_, .refl⟩
  | @services d d' b σ a h hs _ ih =>
    refine ih.tail (a := .tick (seconds d'.world.now)) trivial (if_pos ?_)
    rw [h.clock]
    exact seconds_mono (now_step hs)
  | @opens d b σ t th e k o f _ _ _ _ _ ih =>
    exact ih.tail (a := .start o) trivial rfl
  | breaker _ hs ih => exact ih.tail trivial hs
  | closes _ _ _ _ _ _ _ _ _ ih => exact ih

/-! ### Where they meet -/

/-- A coroutine that waits has come to a method, and its call of the circuit breaker is there. -/
def Waits (d : WebhookRelay.Config) (b : CircuitBreaker.Config) (t u : ℕ) : Prop :=
  ∃ th e k o f bh, d.threads[t]? = some th ∧ th.prog = .call e k ∧ Method e o f ∧
    b.threads[u]? = some bh ∧ bh.origin = o

/-- The call of the circuit breaker that a coroutine waits for, after an await. -/
theorem Waits.called {b b' : CircuitBreaker.Config} {cb : CircuitBreaker} {u' : ℕ}
    (h : Waits d b t u) (hs : CircuitBreaker.step cb b (.call u') = some b') : Waits d b' t u := by
  obtain ⟨th, e, k, o, f, bh, hth, hp, hm, hbh, ho⟩ := h
  cases CircuitBreaker.stepped hs with
  | called hth' hp' =>
    rename_i bh' e' k'
    by_cases hu : u' = u
    · subst hu
      rw [hbh] at hth'
      cases hth'
      have hlt : u' < b.threads.length := (List.getElem?_eq_some_iff.mp hbh).1
      exact ⟨th, e, k, o, f, _, hth, hp, hm, List.getElem?_set_self hlt, ho⟩
    · refine ⟨th, e, k, o, f, bh, hth, hp, hm, ?_, ho⟩
      rw [List.getElem?_set_ne hu, hbh]

/-- **A coroutine that waits has come to a method, and its call is there.** -/
theorem Together.waits (h : Together wi d b σ) : ∀ t u, σ t = some u → Waits d b t u := by
  induction h with
  | initial now => exact fun _ _ hσ => nomatch hσ
  | services _ hs _ ih =>
    intro t u hσ
    unfold released at hσ
    split_ifs at hσ with hmoved
    obtain ⟨th, e, k, o, f, bh, hth, hp, hm, hbh, ho⟩ := ih t u hσ
    have hsame := (stepped hs).still hth hp (fun h => hmoved (Or.inl h)) fun h => hmoved (Or.inr h)
    exact ⟨th, e, k, o, f, bh, hsame, hp, hm, hbh, ho⟩
  | @opens d b σ t th e k o f _ hth hp hm _ ih =>
    intro t' u hσ
    by_cases ht : t' = t
    · subst ht
      rw [Function.update_self] at hσ
      cases hσ
      exact ⟨th, e, k, o, f, o.start wi.breaker, hth, hp, hm, by simp, rfl⟩
    · rw [Function.update_of_ne ht] at hσ
      obtain ⟨th', e', k', o', f', bh, hth', hp', hm', hbh, ho⟩ := ih t' u hσ
      have hlt : u < b.threads.length := (List.getElem?_eq_some_iff.mp hbh).1
      refine ⟨th', e', k', o', f', bh, hth', hp', hm', ?_, ho⟩
      rw [List.getElem?_append_left hlt, hbh]
  | breaker _ hs ih => exact fun t u hσ => (ih t u hσ).called hs
  | @closes d d' b σ t u _ _ _ _ _ _ _ _ _ hth hp _ _ _ _ hs hx ih =>
    intro t' u' hσ
    by_cases ht : t' = t
    · subst ht
      rw [Function.update_self] at hσ
      cases hσ
    · rw [Function.update_of_ne ht] at hσ
      obtain ⟨th', e', k', o', f', bh, hth', hp', hm', hbh, ho⟩ := ih t' u' hσ
      refine ⟨th', e', k', o', f', bh, ?_, hp', hm', hbh, ho⟩
      rw [(world_of_closes hth hp hs hx).2, List.getElem?_set_ne (Ne.symm ht), hth']

/-- Two coroutines do not wait for one call. -/
theorem Together.apart (h : Together wi d b σ) :
    ∀ t t' u, σ t = some u → σ t' = some u → t = t' := by
  induction h with
  | initial now => exact fun _ _ _ hσ => nomatch hσ
  | services _ _ _ ih =>
    intro t t' u hσ hσ'
    unfold released at hσ hσ'
    split_ifs at hσ hσ'
    exact ih t t' u hσ hσ'
  | @opens d b σ t₀ _ _ _ _ _ h _ _ _ _ ih =>
    -- the calls that somebody waits for are older than the new one
    have hold (t : ℕ) (hσ : σ t = some b.threads.length) : False := by
      obtain ⟨_, _, _, _, _, _, _, _, _, hbh, _⟩ := h.waits t _ hσ
      exact absurd (List.getElem?_eq_some_iff.mp hbh).1 (Nat.lt_irrefl _)
    intro t t' u hσ hσ'
    by_cases ht : t = t₀ <;> by_cases ht' : t' = t₀
    · rw [ht, ht']
    · subst ht
      rw [Function.update_self] at hσ
      rw [Function.update_of_ne ht'] at hσ'
      cases hσ
      exact (hold t' hσ').elim
    · subst ht'
      rw [Function.update_of_ne ht] at hσ
      rw [Function.update_self] at hσ'
      cases hσ'
      exact (hold t hσ).elim
    · rw [Function.update_of_ne ht] at hσ
      rw [Function.update_of_ne ht'] at hσ'
      exact ih t t' u hσ hσ'
  | breaker _ _ ih => exact ih
  | @closes _ _ _ σ t₀ _ _ _ _ _ _ _ _ _ _ _ _ _ _ _ _ _ _ ih =>
    intro t t' u hσ hσ'
    have hne {t : ℕ} (hσ : Function.update σ t₀ none t = some u) : σ t = some u := by
      by_cases ht : t = t₀
      · subst ht
        rw [Function.update_self] at hσ
        cases hσ
      · rwa [Function.update_of_ne ht] at hσ
    exact ih t t' u (hne hσ) (hne hσ')

/-- A call is one method. -/
theorem Method.unique {e : Op} {o o' : CircuitBreaker.Origin}
    {f f' : CircuitBreaker.Answer → e.Resp} (h : Method e o f) (h' : Method e o' f') :
    o = o' ∧ f = f' := by
  cases h <;> cases h' <;> exact ⟨rfl, rfl⟩

/-- A call of the circuit breaker that has returned stays as it is. -/
theorem mem_of_done {b b' : CircuitBreaker.Config} {cb : CircuitBreaker}
    {bh : CircuitBreaker.Caller} {x : CircuitBreaker.Answer} (hbh : bh ∈ b.threads)
    (hp : bh.prog = .done x) (hs : CircuitBreaker.step cb b (.call u) = some b') :
    bh ∈ b'.threads := by
  cases CircuitBreaker.stepped hs with
  | called hth hcall =>
    refine mem_set_of_ne hth hbh ?_
    rintro rfl
    rw [hp] at hcall
    cases hcall

/-- **The services get the answers that the circuit breaker gives.** -/
theorem Together.answers (h : Together wi d b σ) : ∀ dh ∈ d.threads, ∀ (e : Op) o f (v : e.Resp),
    Method e o f → (⟨e, .ok v⟩ : Call relay PyExn) ∈ dh.trace →
      ∃ bh ∈ b.threads, ∃ x, bh.origin = o ∧ bh.prog = .done x ∧ v = f x := by
  induction h with
  | initial now => exact fun _ hdh => nomatch hdh
  | services _ hs hdirect ih =>
    intro dh hdh e o f v hm hx
    obtain ⟨t, hdh⟩ := List.getElem?_of_mem hdh
    rcases (stepped hs).mem_trace hdh hx with ⟨th, hth, hx⟩ | ⟨th, k, s, hth, hp, ha⟩
    · exact ih th (List.mem_of_getElem? hth) e o f v hm hx
    · obtain ⟨orc, rfl, -⟩ := ha.of_ok
      have hnot := hdirect t rfl th e k hth hp
      rw [hm.isMethod] at hnot
      cases hnot
  | opens _ _ _ _ _ ih =>
    intro dh hdh e o f v hm hx
    obtain ⟨bh, hbh, hanswer⟩ := ih dh hdh e o f v hm hx
    exact ⟨bh, List.mem_append_left _ hbh, hanswer⟩
  | breaker _ hs ih =>
    intro dh hdh e o f v hm hx
    obtain ⟨bh, hbh, x, ho, hp, hv⟩ := ih dh hdh e o f v hm hx
    exact ⟨bh, mem_of_done hbh hp hs, x, ho, hp, hv⟩
  | closes h hth hp hm hσ hbh hbp hs hx ih =>
    intro dh hdh e' o' f' v' hm' hmem
    rw [(world_of_closes hth hp hs hx).2] at hdh
    rcases List.mem_or_eq_of_mem_set hdh with hdh | rfl
    · exact ih dh hdh e' o' f' v' hm' hmem
    · rcases List.mem_append.mp hmem with hmem | hmem
      · exact ih _ (List.mem_of_getElem? hth) e' o' f' v' hm' hmem
      · -- the answer that has just come
        cases List.mem_singleton.mp hmem
        obtain ⟨rfl, rfl⟩ := hm.unique hm'
        obtain ⟨th', e', k', o', f', bh', hth', hp', hm', hbh', ho'⟩ := h.waits _ _ hσ
        rw [hth] at hth'
        cases hth'
        rw [hp] at hp'
        cases hp'
        rw [hbh] at hbh'
        cases hbh'
        exact ⟨_, List.mem_of_getElem? hbh, _, ho'.trans (hm'.unique hm).1, hbp, rfl⟩

end Wiring

end WebhookRelay
