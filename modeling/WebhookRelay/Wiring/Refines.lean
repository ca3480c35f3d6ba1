import WebhookRelay.Wiring.Projection

/-!
# The steps of the wired system

Every step of the wired system is matched: a step of the services by the same step of theirs, an
await of the circuit breaker by a step of its call, and the last one of these, or a failure, by the
answer to the call of the services that the method stands for.
-/

namespace WebhookRelay

open Data Effect

namespace Wiring

variable {wi : Wiring} {c c' : Config} {d : WebhookRelay.Config} {b : CircuitBreaker.Config}
  {σ : Slots} {t : ℕ} {th : Coroutine} {dh : WebhookRelay.Coroutine}

/-- The two halves that a state of the wired system stands for. -/
def Matched (wi : Wiring) (c : Config) : Prop :=
  ∃ d b σ, Together wi d b σ ∧ Wires wi c d b σ

/-- A call of the services that is no method is one call in both systems. -/
theorem directly_inl {e : Op} (he : e.isMethod = false) (r : Except PyExn e.Resp) :
    (directly ⟨.inl e, r⟩).toList = [(⟨e, r⟩ : Call relay PyExn)].filter
      fun x => !x.1.isMethod := by
  simp [directly, he]

/-- An await of the circuit breaker is none of the calls of the services. -/
theorem directly_inr {e : Op} (he : e.isMethod = true) (e₀ : CircuitBreaker.Op)
    (r₀ : Except PyExn e₀.Resp) (r : Except PyExn e.Resp) :
    (directly ⟨.inr e₀, r₀⟩).toList = [(⟨e, r⟩ : Call relay PyExn)].filter
      fun x => !x.1.isMethod := by
  simp [directly, he]

/-- A call of the services is answered in both systems. -/
theorem Wires.returns (h : Wires wi c d b σ) (hth : c.threads[t]? = some th)
    (hdh : d.threads[t]? = some dh) {e : Op} {k : Except PyExn e.Resp → Relay Reply}
    {r : Except PyExn e.Resp} {s : Session} {w : Backends} {b' : CircuitBreaker.Config}
    {σ' : Slots} (ht : Together wi ⟨w.world, d.threads.set t
      (dh.answered WebhookRelay.machine e r (k r) s)⟩ b' σ')
    (hjournal : b'.world.journal = w.journal)
    (hb : ∀ u i bh, u ≠ t → σ u = some i → b.threads[i]? = some bh → b'.threads[i]? = some bh)
    (hσ : ∀ u, u ≠ t → σ' u = σ u) (hσt : σ' t = none) {e' : wired.Op}
    {r' : Except PyExn (wired.Resp e')}
    (htrace : (directly ⟨e', r'⟩).toList = [(⟨e, r⟩ : Call relay PyExn)].filter
      fun x => !x.1.isMethod) :
    Matched wi ⟨w, c.threads.set t (th.answered (machine wi) e' r' (wi.wire (k r)) s)⟩ := by
  have hset := h.set (w := w) (th.answered (machine wi) e' r' (wi.wire (k r)) s)
    (dh.answered WebhookRelay.machine e r (k r) s) rfl hjournal hb hσ
  have halike : Alike (th.answered (machine wi) e' r' (wi.wire (k r)) s)
      (dh.answered WebhookRelay.machine e r (k r) s) :=
    (h.threads t th dh trivial hth hdh).alike.answered htrace (k r) s
  have hlt : t < c.threads.length := (List.getElem?_eq_some_iff.mp hth).1
  have hlt' : t < d.threads.length := (List.getElem?_eq_some_iff.mp hdh).1
  obtain ⟨b'', σ'', ht', hw⟩ := hset.settle ht hσt (List.getElem?_set_self hlt)
    (List.getElem?_set_self hlt') halike rfl
  exact ⟨_, b'', σ'', ht', hw⟩

/-- A step of the services that moves one coroutine leaves the calls of the circuit breaker. -/
theorem Together.move (ht : Together wi d b σ) {a : Action} {d' : WebhookRelay.Config}
    (hs : WebhookRelay.step wi.deps d a = some d') (ha : Moves a t)
    (hdirect : ∀ u, a.called = some u → CallsDirectly d u) :
    ∃ b' σ', Together wi d' b' σ' ∧ b'.world.journal = b.world.journal ∧
      b'.threads = b.threads ∧ (∀ u, u ≠ t → σ' u = σ u) ∧ σ' t = none :=
  ⟨_, _, ht.services hs hdirect, rfl, rfl, fun _ hu => ha.released_of_ne hu, ha.released⟩

/-- A call of the circuit breaker makes its next await. -/
theorem Wires.await (h : Wires wi c d b σ) (ht : Together wi d b σ) {u : ℕ}
    {bh : CircuitBreaker.Caller} {e₀ : CircuitBreaker.Op}
    {k₀ : Except CircuitBreaker.Exn e₀.Resp → CircuitBreaker.Method CircuitBreaker.Answer}
    (hbh : b.threads[u]? = some bh) (hbp : bh.prog = .call e₀ k₀) :
    ∃ b' bh' v, Together wi d b' σ ∧ (CircuitBreaker.exec e₀ c.world.server).1 = .ok v ∧
      b'.world.journal = (CircuitBreaker.exec e₀ c.world.server).2.journal ∧
      b'.threads[u]? = some bh' ∧ bh'.origin = bh.origin ∧ bh'.prog = k₀ (.ok v) ∧
      (∀ x, k₀ (.ok v) ≠ .raised x) ∧
      ∀ i ih, i ≠ u → b.threads[i]? = some ih → b'.threads[i]? = some ih := by
  have hserver : b.world = c.world.server := h.server ht
  obtain ⟨v, hv, hs, hraised⟩ := ht.breaker_reaches.goes_on hbh hbp
  have hlt : u < b.threads.length := (List.getElem?_eq_some_iff.mp hbh).1
  refine ⟨_, _, v, ht.breaker hs, hserver ▸ hv, hserver ▸ rfl, List.getElem?_set_self hlt, rfl, ?_,
    hraised, fun i ih hi hih => ?_⟩
  · show k₀ (CircuitBreaker.exec e₀ b.world).1 = _
    rw [hv]
  · rw [List.getElem?_set_ne (Ne.symm hi), hih]

/-- The call of the circuit breaker that coroutine `t` waits for has made an await, and has another
one to make. -/
theorem Wires.waiting (h : Wires wi c d b σ) (hth : c.threads[t]? = some th)
    (hdh : d.threads[t]? = some dh) {e : Op} {k : Except PyExn e.Resp → Relay Reply}
    (hdp : dh.prog = .call e k) {b' : CircuitBreaker.Config} (ht : Together wi d b' σ)
    {j : Redis.Journal} (hj : b'.world.journal = j)
    (hb : ∀ u i bh, u ≠ t → σ u = some i → b.threads[i]? = some bh → b'.threads[i]? = some bh)
    {o : CircuitBreaker.Origin} {f : CircuitBreaker.Answer → e.Resp} (hm : Method e o f) {u : ℕ}
    {bh : CircuitBreaker.Caller} (hslot : σ t = some u) (hbh : b'.threads[u]? = some bh)
    (ho : bh.origin = o) {e₁ : CircuitBreaker.Op}
    {k₁ : Except CircuitBreaker.Exn e₁.Resp → CircuitBreaker.Method CircuitBreaker.Answer}
    (hbp : bh.prog = .call e₁ k₁) {e₀ : CircuitBreaker.Op} {r₀ : Except PyExn e₀.Resp} :
    Matched wi ⟨⟨c.world.world, j⟩, c.threads.set t (th.answered (machine wi) (.inr e₀) r₀
      (((f <$> (.call e₁ k₁ : CircuitBreaker.Method CircuitBreaker.Answer)).lift
        wi.raised).attempt >>= fun r => (k r).link wi.linkage) th.session)⟩ := by
  have hmirror := h.threads t th dh trivial hth hdh
  have hself : d.threads.set t dh = d.threads := by
    obtain ⟨hlt, rfl⟩ := List.getElem?_eq_some_iff.mp hdh
    exact List.set_getElem_self hlt
  have hset := h.set (t := t) (w := ⟨c.world.world, j⟩) (th.answered (machine wi) (.inr e₀) r₀
    (((f <$> (.call e₁ k₁ : CircuitBreaker.Method CircuitBreaker.Answer)).lift
      wi.raised).attempt >>= fun r => (k r).link wi.linkage) th.session) dh h.world hj hb
      fun _ _ => rfl
  rw [hself] at hset
  refine ⟨d, b', σ, ht, hset.add fun th' dh' hth' hdh' => ?_⟩
  rw [List.getElem?_set_self (List.getElem?_eq_some_iff.mp hth).1] at hth'
  rw [hdh] at hdh'
  cases hth'
  cases hdh'
  refine ⟨⟨hmirror.alike.origin, hmirror.alike.session, ?_⟩, ?_⟩
  · show (th.trace ++ [(⟨.inr e₀, r₀⟩ : Call wired PyExn)]).filterMap directly = _
    rw [List.filterMap_append, hmirror.alike.trace]
    simp [directly]
  · rw [hdp]
    exact .within rfl (Or.inr ⟨o, f, u, bh, hm, hslot, hbh, ho, by rw [hbp]⟩)

/-- A coroutine of the wired system makes its next await. -/
theorem Wires.call (h : Wires wi c d b σ) (ht : Together wi d b σ) {o : Oracle}
    (hs : c.call (machine wi) t o = some c') : Matched wi c' := by
  obtain ⟨th, e', f', hth, hp, hb, hw, hts⟩ := Pool.call_eq_some hs
  obtain ⟨w, ths⟩ := c'
  obtain rfl : w = _ := hw
  obtain rfl : ths = _ := hts
  obtain ⟨dh, hdh⟩ := h.counterpart hth
  have hmirror := h.threads t th dh trivial hth hdh
  have hnext := hmirror.nextCall hp
  generalize hdp : dh.prog = q at hnext
  cases hnext with
  | @direct e k he =>
    have hfree : WebhookRelay.blocked (d.others t) d.world dh.session e = false := by
      rw [← h.others, h.world, ← hmirror.alike.session]
      exact hb
    have hstep := step_call wi.deps hdh hdp hfree o
    rw [h.world, ← hmirror.alike.session] at hstep
    obtain ⟨b', σ', ht', hj, hbt, hσ, hσt⟩ := ht.move (t := t) hstep
      (fun u => by simp [Action.taken, Action.interrupts, eq_comm]) fun u hu => by
        cases hu
        intro th₁ e₁ k₁ hth₁ hp₁
        rw [hdh] at hth₁
        cases hth₁
        rw [hdp] at hp₁
        cases hp₁
        exact he
    exact h.returns hth hdh (k := k) (w := ⟨_, c.world.journal⟩) ht' (hj.trans h.journal)
      (fun u i bh _ _ hbh => hbt ▸ hbh) hσ hσt (directly_inl he _)
  | @inner e k o₀ f u bh e₀ k₀ hm hslot hbh ho hbp =>
    obtain ⟨b', bh', v, ht', hv, hj, hbh', ho', hbp', hraised, hb'⟩ := h.await ht hbh hbp
    have hothers (u' i : ℕ) (ih : CircuitBreaker.Caller) (hu' : u' ≠ t) (hi : σ u' = some i) :
        b.threads[i]? = some ih → b'.threads[i]? = some ih :=
      hb' i ih fun hiu => hu' (ht.apart u' t u (hiu ▸ hi) hslot)
    have hanswer : ((machine wi).exec o (.inr e₀) c.world th.session).1 = .ok v :=
      congrArg (Except.mapError wi.raised) hv
    rw [hanswer]
    -- what the method does next
    show Matched wi ⟨⟨c.world.world, (CircuitBreaker.exec e₀ c.world.server).2.journal⟩,
      c.threads.set t (th.answered (machine wi) (.inr e₀) (.ok v)
        (((f <$> k₀ (.ok v)).lift wi.raised).attempt >>= fun r => (k r).link wi.linkage)
        th.session)⟩
    cases hk : k₀ (.ok v) with
    | raised x => exact absurd hk (hraised x)
    | call e₁ k₁ =>
      rw [hk] at hbp'
      exact h.waiting hth hdh hdp ht' hj hothers hm hslot hbh' (ho'.trans ho) hbp'
    | done a =>
      rw [hk] at hbp'
      obtain ⟨orc, horc⟩ := hm.exec_eq a o
      have hstep := step_call wi.deps hdh hdp (hm.not_blocked _ _ _) orc
      rw [horc, h.world, ← hmirror.alike.session] at hstep
      refine h.returns hth hdh (k := k)
        (w := ⟨c.world.world, (CircuitBreaker.exec e₀ c.world.server).2.journal⟩)
        (ht'.closes hdh hdp hm hslot hbh' hbp' hstep horc) hj hothers
        (fun _ hu => Function.update_of_ne hu _ _) (Function.update_self _ _ _)
        (directly_inr hm.isMethod e₀ _ _)

/-- The next call of a coroutine of the wired system fails, with or without its effect. -/
theorem Wires.fault (h : Wires wi c d b σ) (ht : Together wi d b σ) {o : Oracle} {x : Fault}
    {applied : Bool} (hs : c.fault (machine wi) t o x.exn applied = some c') : Matched wi c' := by
  obtain ⟨th, e', f', hth, hp, hcases⟩ := Pool.fault_eq_some hs
  obtain ⟨w, ths⟩ := c'
  obtain ⟨dh, hdh⟩ := h.counterpart hth
  have hmirror := h.threads t th dh trivial hth hdh
  have hnext := hmirror.nextCall hp
  -- the services lose the call in every case but one
  have hlost {e : Op} {k : Except PyExn e.Resp → Relay Reply} (hdp : dh.prog = .call e k)
      {b₀ : CircuitBreaker.Config} (ht₀ : Together wi d b₀ σ) {j : Redis.Journal}
      (hj : b₀.world.journal = j) (hb₀ : ∀ u i bh, u ≠ t → σ u = some i →
        b.threads[i]? = some bh → b₀.threads[i]? = some bh) (e₀ : wired.Op)
      (r₀ : Except PyExn (wired.Resp e₀)) (htrace : (directly ⟨e₀, r₀⟩).toList =
        [(⟨e, .error x.exn⟩ : Call relay PyExn)].filter fun y => !y.1.isMethod) :
      Matched wi ⟨⟨c.world.world, j⟩, c.threads.set t
        (th.answered (machine wi) e₀ r₀ (wi.wire (k (.error x.exn))) th.session)⟩ := by
    have hstep := step_lost wi.deps hdh hdp o x
    rw [h.world, ← hmirror.alike.session] at hstep
    obtain ⟨b', σ', ht', hj', hbt, hσ, hσt⟩ := ht₀.move (t := t) hstep
      (fun u => by simp [Action.taken, Action.interrupts, eq_comm]) fun u hu => nomatch hu
    exact h.returns hth hdh (k := k) (w := ⟨_, j⟩) ht' (hj'.trans hj)
      (fun u i bh hu hi hbh => hbt ▸ hb₀ u i bh hu hi hbh) hσ hσt htrace
  generalize hdp : dh.prog = q at hnext
  cases hnext with
  | @direct e k he =>
    rcases hcases with ⟨rfl, hw, hts⟩ | ⟨rfl, hb, hw, hts⟩ <;> obtain rfl : w = _ := hw <;>
      obtain rfl : ths = _ := hts
    · exact hlost hdp ht h.journal (fun _ _ _ _ _ hbh => hbh) _ _ (directly_inl he _)
    · have hfree : WebhookRelay.blocked (d.others t) d.world dh.session e = false := by
        rw [← h.others, h.world, ← hmirror.alike.session]
        exact hb
      have hstep := step_late wi.deps hdh hdp hfree o x
      rw [h.world, ← hmirror.alike.session] at hstep
      obtain ⟨b', σ', ht', hj, hbt, hσ, hσt⟩ := ht.move (t := t) hstep
        (fun u => by simp [Action.taken, Action.interrupts, eq_comm]) fun u hu => nomatch hu
      exact h.returns hth hdh (k := k) (w := ⟨_, c.world.journal⟩) ht' (hj.trans h.journal)
        (fun u i bh _ _ hbh => hbt ▸ hbh) hσ hσt (directly_inl he _)
  | @inner e k o₀ f u bh e₀ k₀ hm hslot hbh ho hbp =>
    rcases hcases with ⟨rfl, hw, hts⟩ | ⟨rfl, hb, hw, hts⟩ <;> obtain rfl : w = _ := hw <;>
      obtain rfl : ths = _ := hts
    · exact hlost hdp ht h.journal (fun _ _ _ _ _ hbh => hbh) (.inr e₀) _
        (directly_inr hm.isMethod e₀ _ _)
    · -- the command took effect
      obtain ⟨b', bh', v, ht', -, hj, -, -, -, -, hb'⟩ := h.await ht hbh hbp
      exact hlost hdp ht' hj (fun u' i ih hu' hi hih =>
        hb' i ih (fun hiu => hu' (ht.apart u' t u (hiu ▸ hi) hslot)) hih) (.inr e₀) _
        (directly_inr hm.isMethod e₀ _ _)

/-- A step of the services in which nobody waits any less. -/
theorem Together.leave (ht : Together wi d b σ) {a : Action} {d' : WebhookRelay.Config}
    (hs : WebhookRelay.step wi.deps d a = some d') (htaken : a.taken = none)
    (hcalled : a.called = none) (hinterrupts : a.interrupts = none) :
    ∃ b', Together wi d' b' σ ∧ b'.world.journal = b.world.journal ∧ b'.threads = b.threads := by
  have hσ : released a σ = σ := by
    funext t
    unfold released
    rw [htaken, hinterrupts]
    simp
  have ht' := ht.services hs fun u hu => by
    rw [hcalled] at hu
    cases hu
  rw [hσ] at ht'
  exact ⟨_, ht', rfl, rfl⟩

/-- A coroutine of the wired system is cut off. -/
theorem Wires.kill (h : Wires wi c d b σ) (ht : Together wi d b σ)
    (hs : c.kill (machine wi) t .cancelled = some c') : Matched wi c' := by
  obtain ⟨th, hth, hw, hts⟩ := Pool.kill_eq_some hs
  obtain ⟨w, ths⟩ := c'
  obtain rfl : w = _ := hw
  obtain rfl : ths = _ := hts
  obtain ⟨dh, hdh⟩ := h.counterpart hth
  have hmirror := h.threads t th dh trivial hth hdh
  have hstep : WebhookRelay.step wi.deps d (.kill t) = some ⟨d.world, d.threads.set t
      { dh with prog := .raised .cancelled, session := .fresh }⟩ := by
    show Pool.kill WebhookRelay.machine d t _ = _
    unfold Pool.kill
    simp only [hdh]
    rfl
  obtain ⟨b', σ', ht', hj, hbt, hσ, hσt⟩ := ht.move (t := t) hstep
    (fun u => by simp [Action.taken, Action.interrupts, eq_comm]) fun u hu => nomatch hu
  have hset := h.set (t := t) (w := c.world)
    { th with prog := .raised .cancelled, session := .fresh }
    { dh with prog := .raised .cancelled, session := .fresh } h.world
    (hj.trans h.journal) (fun u i bh _ _ hbh => hbt ▸ hbh) hσ
  have hlt : t < c.threads.length := (List.getElem?_eq_some_iff.mp hth).1
  have hlt' : t < d.threads.length := (List.getElem?_eq_some_iff.mp hdh).1
  obtain ⟨b'', σ'', ht'', hwires⟩ := hset.settle ht' hσt (List.getElem?_set_self hlt)
    (List.getElem?_set_self hlt') ⟨hmirror.alike.origin, rfl, hmirror.alike.trace⟩ rfl
  exact ⟨_, b'', σ'', ht'', hwires⟩

/-- A coroutine of the wired system starts. -/
theorem Wires.launch (h : Wires wi c d b σ) (ht : Together wi d b σ) {a : Action} {w : World}
    {o : Origin} {p : Relay Reply} (hs : WebhookRelay.step wi.deps d a =
      some ⟨w, d.threads ++ [⟨o, p, .fresh, []⟩]⟩) (htaken : a.taken = none)
    (hcalled : a.called = none) (hinterrupts : a.interrupts = none) :
    Matched wi (wi.launch c w o p) := by
  obtain ⟨b', ht', hj, hbt⟩ := ht.leave hs htaken hcalled hinterrupts
  have hσ : σ d.threads.length = none := by
    cases hσ : σ d.threads.length with
    | none => rfl
    | some u =>
      obtain ⟨th, _, _, _, _, _, hth, -⟩ := ht.waits _ u hσ
      exact absurd (List.getElem?_eq_some_iff.mp hth).1 (Nat.lt_irrefl _)
  have hold : WiresOn wi (· ≠ d.threads.length) (wi.launch c w o p)
      ⟨w, d.threads ++ [⟨o, p, .fresh, []⟩]⟩ b' σ := by
    refine ⟨rfl, hj.trans h.journal, ?_, fun u uh vh hu huh hvh => ?_⟩
    · show (d.threads ++ [_]).length = (c.threads ++ [_]).length
      simp only [List.length_append, h.length, List.length_cons, List.length_nil]
    · have huh : (c.threads ++ [⟨o, wi.wire p, Session.fresh, []⟩])[u]? = some uh := huh
      have hvh : (d.threads ++ [⟨o, p, Session.fresh, []⟩])[u]? = some vh := hvh
      rcases getElem?_append_cases huh with ⟨-, huh⟩ | ⟨rfl, -⟩
      · rcases getElem?_append_cases hvh with ⟨-, hvh⟩ | ⟨rfl, -⟩
        · exact (h.threads u uh vh trivial huh hvh).mono fun i bh _ hbh => hbt ▸ hbh
        · exact absurd rfl hu
      · exact absurd h.length.symm hu
  have hth : (wi.launch c w o p).threads[d.threads.length]? =
      some ⟨o, wi.wire p, Session.fresh, []⟩ := by
    show (c.threads ++ [_])[d.threads.length]? = _
    rw [h.length]
    simp
    rfl
  have hdh : (d.threads ++ [⟨o, p, Session.fresh, []⟩])[d.threads.length]? =
      some ⟨o, p, Session.fresh, []⟩ := by
    simp
  obtain ⟨b'', σ'', ht'', hwires⟩ := hold.settle ht' hσ hth hdh ⟨rfl, rfl, rfl⟩ rfl
  exact ⟨_, b'', σ'', ht'', hwires⟩

/-- arq stores the result of a job of the wired system. -/
theorem Wires.finishJob (h : Wires wi c d b σ) (ht : Together wi d b σ)
    (hs : finishJob c t = some c') : Matched wi c' := by
  unfold Wiring.finishJob at hs
  cases hth : c.threads[t]? with
  | none => simp [hth] at hs
  | some th =>
    cases ho : th.origin with
    | job id =>
      simp only [hth, ho] at hs
      split_ifs at hs with hend
      cases hs
      obtain ⟨dh, hdh⟩ := h.counterpart hth
      have hmirror := h.threads t th dh trivial hth hdh
      have hstep : WebhookRelay.step wi.deps d (.finishJob t) = some ⟨d.world.finish id,
          d.threads.set t { dh with origin := .reaped id }⟩ := by
        show WebhookRelay.finishJob d t = _
        unfold WebhookRelay.finishJob
        simp only [hdh, ← hmirror.alike.origin, ho, ← hmirror.prog.ended_eq, hend, if_true]
      obtain ⟨b', ht', hj, hbt⟩ := ht.leave hstep rfl rfl rfl
      have hset := h.set (t := t) (w := ⟨c.world.world.finish id, c.world.journal⟩)
        { th with origin := .reaped id } { dh with origin := .reaped id }
        (congrArg (World.finish · id) h.world) (hj.trans h.journal)
        (fun u i bh _ _ hbh => hbt ▸ hbh) fun _ _ => rfl
      refine ⟨_, b', σ, ht', hset.add fun th' dh' hth' hdh' => ?_⟩
      rw [List.getElem?_set_self (List.getElem?_eq_some_iff.mp hth).1] at hth'
      rw [List.getElem?_set_self (List.getElem?_eq_some_iff.mp hdh).1] at hdh'
      cases hth'
      cases hdh'
      have hmirror' : Mirrors wi b' (σ t) th dh := hmirror.mono fun i bh _ hbh => hbt ▸ hbh
      exact ⟨⟨rfl, hmirror.alike.session, hmirror.alike.trace⟩, hmirror'.prog⟩
    | _ => simp [hth, ho] at hs

/-- **Every step of the wired system is matched.** -/
theorem Matched.step {a : Action} (h : Matched wi c) (hs : step wi c a = some c') :
    Matched wi c' := by
  obtain ⟨d, b, σ, ht, h⟩ := h
  have hworld := h.world
  cases a with
  | arrive r =>
    cases hs
    exact h.launch ht (a := .arrive r) (hworld ▸ rfl) rfl rfl rfl
  | startJob id =>
    change startJob wi c id = some c' at hs
    unfold startJob at hs
    split_ifs at hs with hj
    cases hs
    refine h.launch ht (a := .startJob id) ?_ rfl rfl rfl
    show WebhookRelay.startJob wi.deps d id = _
    unfold WebhookRelay.startJob
    rw [hworld, if_pos hj]
    rfl
  | startCron =>
    cases hs
    exact h.launch ht (a := .startCron) (hworld ▸ rfl) rfl rfl rfl
  | call t o => exact h.call ht hs
  | fault t o x applied => exact h.fault ht hs
  | kill t => exact h.kill ht hs
  | finishJob t => exact h.finishJob ht hs
  | tick micros =>
    cases hs
    obtain ⟨b', ht', hj, hbt⟩ := ht.leave (a := .tick micros) rfl rfl rfl rfl
    refine ⟨_, b', σ, ht', ?_, hj.trans h.journal, h.length, fun t th dh _ hth hdh => ?_⟩
    · show ({ d.world with now := d.world.now.advance micros } : World) = _
      rw [hworld]
    · exact (h.threads t th dh trivial hth hdh).mono fun i bh _ hbh => hbt ▸ hbh

/-- **Every reachable state of the wired system is matched.** -/
theorem Reaches.matched {ok : Config → Action → Prop} (h : Reaches wi ok c) : Matched wi c := by
  refine h.invariant (J := Matched wi) (fun now => ?_) fun c a c' _ hc _ hs => hc.step hs
  exact ⟨_, _, _, .initial now, rfl, rfl, rfl, fun _ _ _ _ hth => nomatch hth⟩

/-! ### The refinement -/

/-- The coroutine of the wired system is that of the services, with the awaits of the circuit
breaker added: it has the same origin, session and calls, and the same result, if any. -/
structure Hides (th : Coroutine) (dh : WebhookRelay.Coroutine) : Prop extends Alike th dh where
  result : ∀ r : Except PyExn Reply, th.prog = .ofExcept r ↔ dh.prog = .ofExcept r

theorem Mirrors.hides {slot : Option ℕ} (h : Mirrors wi b slot th dh) : Hides th dh where
  toAlike := h.alike
  result := by
    have hprog := h.prog
    refine fun r => ⟨fun hp => ?_, fun hp => ?_⟩ <;> rw [hp] at hprog
    · exact hprog.eq_ofExcept
    · exact hprog.ofExcept_eq

/-- **The wired system refines the services and the circuit breaker.** Whatever is interleaved and
whatever fails, a reachable state of the wired system, in which every await of a method of the
circuit breaker is a step of its own, comes from a reachable state of the services over their
interface, with the same world and the same coroutines, and from a reachable state of the circuit
breaker alone, with the same keys. Whatever the methods answer in the one has been answered by a
call in the other. -/
theorem wired_refines {ok : Config → Action → Prop} (h : Reaches wi ok c) : ∃ d b,
    WebhookRelay.Reaches wi.deps WebhookRelay.anyStep d ∧
      CircuitBreaker.Reaches wi.breaker CircuitBreaker.anyStep b ∧
      d.world = c.world.world ∧ b.world = c.world.server ∧ List.Forall₂ Hides c.threads d.threads ∧
      ∀ dh ∈ d.threads, ∀ (e : Op) o f (v : e.Resp), Method e o f →
        (⟨e, .ok v⟩ : Call relay PyExn) ∈ dh.trace →
          ∃ bh ∈ b.threads, ∃ x, bh.origin = o ∧ bh.prog = .done x ∧ v = f x := by
  obtain ⟨d, b, σ, ht, h⟩ := h.matched
  refine ⟨d, b, ht.services_reach, ht.breaker_reaches, h.world, h.server ht, ?_, ht.answers⟩
  refine List.forall₂_iff_get.mpr ⟨h.length.symm, fun t hlt hlt' => ?_⟩
  exact (h.threads t _ _ trivial (List.getElem?_eq_getElem hlt)
    (List.getElem?_eq_getElem hlt')).hides

/-- The services with a circuit breaker that opens at the first failure. -/
def sample : Wiring := ⟨Sample.deps, 1, 60, fun _ => .valueError⟩

/-- A job whose POST fails and opens the circuit, and a second one, which looks at the circuit
between the awaits of the first one and is refused. -/
def refusedRun : List Action :=
  Sample.setup Sample.retrying Sample.order ++
    Sample.job 2 14 (Sample.oracle 3 (Sample.response 500 [])) ++
    Sample.job 3 5 (Sample.oracle 4 (Sample.response 500 [])) ++
    Sample.calls 2 4 (Sample.oracle 3 (Sample.response 500 [])) ++
    Sample.calls 3 2 (Sample.oracle 4 (Sample.response 500 []))

/-- The run as the services and the circuit breaker see it. -/
theorem wired_refines_refused : ∃ c, Reaches sample anyStep c ∧ c.world.journal.length = 2 ∧
    ∃ d b, WebhookRelay.Reaches sample.deps WebhookRelay.anyStep d ∧
      CircuitBreaker.Reaches sample.breaker CircuitBreaker.anyStep b ∧
      d.world = c.world.world ∧ b.world = c.world.server ∧
      List.Forall₂ Hides c.threads d.threads := by
  have hrun : (runActs (step sample) (fun _ _ => true) (initial Sample.start) refusedRun).any
      (fun c => decide (c.world.journal.length = 2)) = true := by
    decide +kernel
  obtain ⟨c, hc, hfacts⟩ := exists_run anyStep (fun _ _ _ => trivial) hrun
  have hreach : Reaches sample anyStep c := ⟨Sample.start, hc⟩
  obtain ⟨d, b, hd, hb, hw, hs, hth, -⟩ := wired_refines hreach
  exact ⟨c, hreach, of_decide_eq_true hfacts, d, b, hd, hb, hw, hs, hth⟩

end Wiring

end WebhookRelay
