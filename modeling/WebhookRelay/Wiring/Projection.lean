import WebhookRelay.Wiring.Together

/-!
# The wired system refines its two halves

A run of the wired system, in which every await of the circuit breaker is a step of its own, is a
run of the services and of the circuit breaker side by side (`Together`). `Wires` relates the
states: the world is the one of the services, the keys are those of the circuit breaker, and a
coroutine of the wired system stands for one of the services, which stays at a call for as long as
the method that implements it is under way (`Prog.Linked`, `UnderWay`). So what holds of every
reachable state of the services, whatever their circuit breaker answers, and what holds of every
reachable state of the circuit breaker, holds of the wired system (`wired_refines`).
-/

namespace WebhookRelay

open Data Effect

/-! ### Making a step -/

section making

variable (deps : Deps) {d : Config} {t : ℕ} {th : Coroutine} {e : Op}
  {k : Except PyExn e.Resp → Relay Reply}

/-- A coroutine that is not blocked makes its call. -/
theorem step_call (hth : d.threads[t]? = some th) (hp : th.prog = .call e k)
    (hb : blocked (d.others t) d.world th.session e = false) (o : Oracle) :
    step deps d (.call t o) = some ⟨(exec o e d.world th.session).2.1, d.threads.set t
      (th.answered machine e (exec o e d.world th.session).1 (k (exec o e d.world th.session).1)
        (exec o e d.world th.session).2.2)⟩ := by
  show Pool.call machine d t o = _
  unfold Pool.call
  simp only [hth, hp]
  have hfree : machine.blocked (d.others t) d.world th.session e = false := hb
  exact if_neg (by simpa using hfree)

/-- A call that is lost. -/
theorem step_lost (hth : d.threads[t]? = some th) (hp : th.prog = .call e k) (o : Oracle)
    (x : Fault) : step deps d (.fault t o x false) = some ⟨d.world, d.threads.set t
      (th.answered machine e (.error x.exn) (k (.error x.exn)) th.session)⟩ := by
  show Pool.fault machine d t o x.exn false = _
  unfold Pool.fault
  simp only [hth, hp]
  exact if_neg (by simp)

/-- A call whose answer is lost. -/
theorem step_late (hth : d.threads[t]? = some th) (hp : th.prog = .call e k)
    (hb : blocked (d.others t) d.world th.session e = false) (o : Oracle) (x : Fault) :
    step deps d (.fault t o x true) = some ⟨(exec o e d.world th.session).2.1, d.threads.set t
      (th.answered machine e (.error x.exn) (k (.error x.exn))
        (exec o e d.world th.session).2.2)⟩ := by
  show Pool.fault machine d t o x.exn true = _
  unfold Pool.fault
  simp only [hth, hp]
  have hfree : machine.blocked (d.others t) d.world th.session e = false := hb
  exact if_neg (by simpa using hfree)

end making

namespace Wiring

/-! ### The relation -/

/-- The call is one of the services, not an await of the circuit breaker. -/
def directly : Call wired PyExn → Option (Call relay PyExn)
  | ⟨.inl e, r⟩ => some ⟨e, r⟩
  | ⟨.inr _, _⟩ => none

/-- The two coroutines have one origin and one session, and have made the same calls, those of the
circuit breaker aside. -/
structure Alike (th : Coroutine) (dh : WebhookRelay.Coroutine) : Prop where
  origin : th.origin = dh.origin
  session : th.session = dh.session
  trace : th.trace.filterMap directly = dh.trace.filter fun x => !x.1.isMethod

/-- What is left of the implementation of a call: the call itself, or what is left of the call of
the circuit breaker that the coroutine waits for. -/
def UnderWay (wi : Wiring) (b : CircuitBreaker.Config) (slot : Option ℕ) (e : Op)
    (q : Prog wired PyExn e.Resp) : Prop :=
  (e.isMethod = false ∧ q = wi.linkage e) ∨ ∃ o f u bh, Method e o f ∧ slot = some u ∧
    b.threads[u]? = some bh ∧ bh.origin = o ∧ q = (f <$> bh.prog).lift wi.raised

/-- The coroutine of the wired system stands for the one of the services. -/
structure Mirrors (wi : Wiring) (b : CircuitBreaker.Config) (slot : Option ℕ) (th : Coroutine)
    (dh : WebhookRelay.Coroutine) : Prop where
  alike : Alike th dh
  prog : Prog.Linked wi.linkage (UnderWay wi b slot) th.prog dh.prog

/-- The state of the wired system stands for the two others; `P` says at which coroutines. -/
structure WiresOn (wi : Wiring) (P : ℕ → Prop) (c : Config) (d : WebhookRelay.Config)
    (b : CircuitBreaker.Config) (σ : Slots) : Prop where
  world : d.world = c.world.world
  journal : b.world.journal = c.world.journal
  length : d.threads.length = c.threads.length
  threads : ∀ t th dh, P t → c.threads[t]? = some th → d.threads[t]? = some dh →
    Mirrors wi b (σ t) th dh

/-- The state of the wired system stands for the two others. -/
abbrev Wires (wi : Wiring) : Config → WebhookRelay.Config → CircuitBreaker.Config → Slots → Prop :=
  WiresOn wi fun _ => True

variable {wi : Wiring} {c : Config} {d : WebhookRelay.Config} {b b' : CircuitBreaker.Config}
  {σ σ' : Slots} {t : ℕ} {a : Action} {th : Coroutine} {dh : WebhookRelay.Coroutine}

/-- A call of the circuit breaker that nobody touches. -/
theorem UnderWay.mono {slot : Option ℕ} {e : Op} {q : Prog wired PyExn e.Resp}
    (h : UnderWay wi b slot e q)
    (hb : ∀ u bh, slot = some u → b.threads[u]? = some bh → b'.threads[u]? = some bh) :
    UnderWay wi b' slot e q := by
  refine h.imp_right ?_
  rintro ⟨o, f, u, bh, hm, hu, hbh, ho, hq⟩
  exact ⟨o, f, u, bh, hm, hu, hb u bh hu hbh, ho, hq⟩

theorem Mirrors.mono {slot : Option ℕ} (h : Mirrors wi b slot th dh)
    (hb : ∀ u bh, slot = some u → b.threads[u]? = some bh → b'.threads[u]? = some bh) :
    Mirrors wi b' slot th dh :=
  ⟨h.alike, h.prog.mono fun _ _ hq => hq.mono hb⟩

/-- A coroutine has its counterpart. -/
theorem WiresOn.counterpart {P : ℕ → Prop} (h : WiresOn wi P c d b σ)
    (hth : c.threads[t]? = some th) : ∃ dh, d.threads[t]? = some dh := by
  have hlt : t < d.threads.length := h.length ▸ (List.getElem?_eq_some_iff.mp hth).1
  exact ⟨_, List.getElem?_eq_getElem hlt⟩

/-- The sessions are the same. -/
theorem Wires.sessions (h : Wires wi c d b σ) :
    c.threads.map Thread.session = d.threads.map Thread.session := by
  refine List.ext_getElem? fun t => ?_
  rw [List.getElem?_map, List.getElem?_map]
  cases hth : c.threads[t]? with
  | none =>
    have hle : d.threads.length ≤ t := h.length ▸ List.getElem?_eq_none_iff.mp hth
    rw [List.getElem?_eq_none_iff.mpr hle]
    rfl
  | some th =>
    obtain ⟨dh, hdh⟩ := h.counterpart hth
    rw [hdh]
    exact congrArg some (h.threads t th dh trivial hth hdh).alike.session

/-- Who waits for a statement in the one system waits in the other. -/
theorem Wires.others (h : Wires wi c d b σ) (t : ℕ) : c.others t = d.others t := by
  unfold Pool.others
  rw [← List.eraseIdx_map, ← List.eraseIdx_map, h.sessions]

/-- The Redis of the wired system is the one of the circuit breaker. -/
theorem WiresOn.server {P : ℕ → Prop} (h : WiresOn wi P c d b σ) (ht : Together wi d b σ) :
    b.world = c.world.server := by
  have hnow := ht.clock
  rw [h.world] at hnow
  have hj := h.journal
  cases hb : b.world with
  | mk j now =>
    rw [hb] at hnow hj
    dsimp only at hnow hj
    rw [hnow, hj]
    rfl

/-! ### A coroutine goes on -/

/-- The next call of a coroutine of the wired system, as its counterpart sees it. -/
inductive NextCall (wi : Wiring) (b : CircuitBreaker.Config) (slot : Option ℕ) :
    Prog wired PyExn Reply → Relay Reply → Prop where
  | direct {e : Op} {k : Except PyExn e.Resp → Relay Reply} (he : e.isMethod = false) :
    NextCall wi b slot (.call (.inl e) fun r => (k r).link wi.linkage) (.call e k)
  | inner {e : Op} {k : Except PyExn e.Resp → Relay Reply} {o : CircuitBreaker.Origin}
    {f : CircuitBreaker.Answer → e.Resp} {u : ℕ} {bh : CircuitBreaker.Caller}
    {e₀ : CircuitBreaker.Op}
    {k₀ : Except CircuitBreaker.Exn e₀.Resp → CircuitBreaker.Method CircuitBreaker.Answer}
    (hm : Method e o f) (hslot : slot = some u) (hbh : b.threads[u]? = some bh)
    (ho : bh.origin = o) (hbp : bh.prog = .call e₀ k₀) :
    NextCall wi b slot (.call (.inr e₀) fun r => (Prog.ofExcept r >>= fun v =>
      (f <$> k₀ (.ok v)).lift wi.raised).attempt >>= fun r => (k r).link wi.linkage) (.call e k)

theorem Mirrors.nextCall {slot : Option ℕ} (h : Mirrors wi b slot th dh) {e : wired.Op}
    {f : Except PyExn (wired.Resp e) → Prog wired PyExn Reply} (hp : th.prog = .call e f) :
    NextCall wi b slot (.call e f) dh.prog := by
  have hprog := h.prog
  rw [hp] at hprog
  obtain ⟨e₁, k, k', hdp, hq, hf⟩ := hprog.call_inv
  obtain rfl : f = _ := funext hf
  rw [hdp]
  rcases hq with ⟨hdirect, hq⟩ | ⟨o, g, u, bh, hm, hslot, hbh, ho, hq⟩
  · rw [linkage_direct wi hdirect] at hq
    cases hq
    refine Eq.subst (motive := fun g => NextCall wi b slot (.call (.inl e₁) g) (.call e₁ k))
      (funext fun r => ?_) (.direct hdirect)
    exact (Prog.attempt_ofExcept_bind (I := wired) fun r => (k r).link wi.linkage).symm
  · cases hbp : bh.prog with
    | done a =>
      rw [hbp] at hq
      cases hq
    | raised x =>
      rw [hbp] at hq
      cases hq
    | call e₀ k₀ =>
      rw [hbp] at hq
      cases hq
      exact .inner hm hslot hbh ho hbp

/-- A coroutine is answered in both systems. -/
theorem Alike.answered (h : Alike th dh) {e' : wired.Op} {r' : Except PyExn (wired.Resp e')}
    {e : Op} {r : Except PyExn e.Resp}
    (htrace : (directly ⟨e', r'⟩).toList = [(⟨e, r⟩ : Call relay PyExn)].filter
      fun x => !x.1.isMethod) (p : Relay Reply) (s : Session) :
    Alike (th.answered (machine wi) e' r' (wi.wire p) s)
      (dh.answered WebhookRelay.machine e r p s) where
  origin := h.origin
  session := by
    show (if (wi.wire p).ended then Session.fresh else s) =
      if p.ended then Session.fresh else s
    rw [Prog.ended_link wi.linkage_ended]
  trace := by
    show (th.trace ++ [(⟨e', r'⟩ : Call wired PyExn)]).filterMap directly =
      (dh.trace ++ [(⟨e, r⟩ : Call relay PyExn)]).filter fun x => !x.1.isMethod
    rw [List.filterMap_append, List.filter_append, h.trace, ← htrace]
    cases hd : directly ⟨e', r'⟩ <;> simp [hd]

/-- The relation at the one coroutine that was left out. -/
theorem WiresOn.add (h : WiresOn wi (· ≠ t) c d b σ)
    (hm : ∀ th dh, c.threads[t]? = some th → d.threads[t]? = some dh → Mirrors wi b (σ t) th dh) :
    Wires wi c d b σ where
  world := h.world
  journal := h.journal
  length := h.length
  threads u th dh _ hth hdh := by
    by_cases hu : u = t
    · subst hu
      exact hm th dh hth hdh
    · exact h.threads u th dh hu hth hdh

/-- **A coroutine comes to its next call.** If that is a method, a call of the circuit breaker is
opened for it. -/
theorem WiresOn.settle (h : WiresOn wi (· ≠ t) c d b σ) (ht : Together wi d b σ)
    (hσ : σ t = none) (hth : c.threads[t]? = some th) (hdh : d.threads[t]? = some dh)
    (halike : Alike th dh) (hprog : th.prog = wi.wire dh.prog) :
    ∃ b' σ', Together wi d b' σ' ∧ Wires wi c d b' σ' := by
  -- nothing is opened unless the next call is a method
  have hstay (hW : ∀ e k, dh.prog = .call e k → e.isMethod = false) :
      ∃ b' σ', Together wi d b' σ' ∧ Wires wi c d b' σ' := by
    refine ⟨b, σ, ht, h.add fun th' dh' hth' hdh' => ?_⟩
    rw [hth] at hth'
    rw [hdh] at hdh'
    cases hth'
    cases hdh'
    refine ⟨halike, ?_⟩
    rw [hprog]
    exact Prog.linked_link fun e k hp => ⟨wi.linkage_ended e, Or.inl ⟨hW e k hp, rfl⟩⟩
  cases hp : dh.prog with
  | done a => exact hstay fun e k hcall => nomatch hp.symm.trans hcall
  | raised x => exact hstay fun e k hcall => nomatch hp.symm.trans hcall
  | call e k =>
    cases he : e.isMethod with
    | false =>
      refine hstay fun e' k' hcall => ?_
      cases hp.symm.trans hcall
      exact he
    | true =>
      obtain ⟨o, f, hm⟩ := exists_method he
      refine ⟨_, _, .opens ht hdh hp hm hσ, ?_⟩
      have hold (u : ℕ) (bh : CircuitBreaker.Caller) (hbh : b.threads[u]? = some bh) :
          (b.threads ++ [o.start wi.breaker])[u]? = some bh := by
        rw [List.getElem?_append_left (List.getElem?_eq_some_iff.mp hbh).1, hbh]
      refine WiresOn.add (t := t) ⟨h.world, h.journal, h.length, fun u uh vh hu huh hvh => ?_⟩
        fun th' dh' hth' hdh' => ?_
      · rw [Function.update_of_ne hu]
        exact (h.threads u uh vh hu huh hvh).mono fun i bh _ => hold i bh
      · rw [hth] at hth'
        rw [hdh] at hdh'
        cases hth'
        cases hdh'
        refine ⟨halike, ?_⟩
        rw [hprog]
        refine Prog.linked_link fun e' k' hcall => ⟨wi.linkage_ended e', ?_⟩
        cases hp.symm.trans hcall
        refine Or.inr ⟨o, f, b.threads.length, o.start wi.breaker, hm, Function.update_self _ _ _,
          by simp, rfl, linkage_method hm⟩

/-- The other coroutines, when one of them moves. -/
theorem Wires.set (h : Wires wi c d b σ) {w : Backends} {w' : World} (th' : Coroutine)
    (dh' : WebhookRelay.Coroutine) (hworld : w' = w.world)
    (hjournal : b'.world.journal = w.journal)
    (hb : ∀ u i bh, u ≠ t → σ u = some i → b.threads[i]? = some bh → b'.threads[i]? = some bh)
    (hσ : ∀ u, u ≠ t → σ' u = σ u) :
    WiresOn wi (· ≠ t) ⟨w, c.threads.set t th'⟩ ⟨w', d.threads.set t dh'⟩ b' σ' where
  world := hworld
  journal := hjournal
  length := by simp only [List.length_set, h.length]
  threads u uh vh hu huh hvh := by
    rw [List.getElem?_set_ne (Ne.symm hu)] at huh hvh
    rw [hσ u hu]
    exact (h.threads u uh vh trivial huh hvh).mono fun i bh hi => hb u i bh hu hi

/-- The action moves coroutine `t` and no other one. -/
def Moves (a : Action) (t : ℕ) : Prop := ∀ u, (a.taken = some u ∨ a.interrupts = some u) ↔ u = t

theorem Moves.released (h : Moves a t) : released a σ t = none := if_pos ((h t).mpr rfl)

theorem Moves.released_of_ne (h : Moves a t) {u : ℕ} (hu : u ≠ t) : Wiring.released a σ u = σ u :=
  if_neg fun hmoved => hu ((h u).mp hmoved)

end Wiring

end WebhookRelay
