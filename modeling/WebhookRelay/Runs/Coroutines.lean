import WebhookRelay.Delivery.Contract
import WebhookRelay.Runs.Requests

/-!
# What is known of each coroutine in a reachable state

A coroutine follows every contract its program obeys (`Reaches.follows`), whatever the others do.
From the two contracts of the system it follows what a coroutine has in its session
(`Coroutine.Lawful`), and from that what a commit adds to the log (`Commits`): statements that
leave the events alone, or the transaction of a valid exit of `deliver`.
-/

namespace WebhookRelay

open Data Effect

variable {deps : Deps} {c c' : Config} {a : Action}

/-! ### Contracts -/

/-- **A coroutine follows the contracts of its program**, in every state that is reached. The
origins that obey the contract may not depend on whether a job has been reaped. -/
theorem Reaches.follows {P : Type} {C : Contract relay PyExn P} {Q : Reply → P → Prop} {p : P}
    {S : Origin → Prop} {ok : Config → Action → Prop} (h : Reaches deps ok c)
    (hprog : ∀ o, S o → (o.program deps).Obeys C (finishing Q) p)
    (hreap : ∀ id, S (.reaped id) → S (.job id)) :
    ∀ th ∈ c.threads, S th.origin → th.Follows C Q p := by
  refine h.invariant (J := fun c => ∀ th ∈ c.threads, S th.origin → th.Follows C Q p)
    (fun _ th hth => nomatch hth) fun c a c' _ hc _ hs => ?_
  refine (stepped hs).forall_threads hc (fun _ _ _ _ h => h) (fun o _ _ ho => hprog o ho) ?_ ?_ ?_
  · intro t th e k r w s _ hp _ _ hf ho
    exact (hf ho).answered hp machine r s
  · exact fun th _ _ _ => Thread.follows_raised rfl
  · intro th _ _ id ho _ hf hsel
    exact hf (by rw [ho]; exact hreap id hsel)

/-- What is left of a coroutine's program, as far as its calls are concerned: nobody has cut it
off, or it is gone. -/
theorem Reaches.makes {ok : Config → Action → Prop} (h : Reaches deps ok c) :
    ∀ th ∈ c.threads, ∃ q, (th.origin.program deps).Makes th.trace q ∧
      (th.prog = q ∨ th.prog = .raised .cancelled) := by
  refine h.invariant (J := fun c => ∀ th ∈ c.threads, ∃ q,
    (th.origin.program deps).Makes th.trace q ∧ (th.prog = q ∨ th.prog = .raised .cancelled))
    (fun _ th hth => nomatch hth) fun c a c' _ hc _ hs => ?_
  refine (stepped hs).forall_threads hc (fun _ _ _ _ h => h) ?_ ?_ ?_ ?_
  · exact fun o w _ => ⟨_, .nil, Or.inl rfl⟩
  · rintro t th e k r w s - hp - - ⟨q, hq, hprog⟩
    rw [hp] at hprog
    rcases hprog with rfl | hprog
    · exact ⟨k r, hq.append r, Or.inl rfl⟩
    · cases hprog
  · exact fun th _ ⟨q, hq, _⟩ => ⟨q, hq, Or.inr rfl⟩
  · rintro th - - id ho - ⟨q, hq, hprog⟩
    rw [ho] at hq
    exact ⟨q, hq, hprog⟩

/-- A coroutine that has not been cut off obeys the contracts of its program, to its end. -/
theorem Reaches.obeys {P : Type} {C : Contract relay PyExn P} {Q : Except PyExn Reply → P → Prop}
    {p : P} {ok : Config → Action → Prop} {th : Coroutine} (h : Reaches deps ok c)
    (hth : th ∈ c.threads) (hprog : (th.origin.program deps).Obeys C Q p) :
    C.Accepts p th.trace ∧
      (th.prog.Obeys C Q (C.run p th.trace) ∨ th.prog = .raised .cancelled) := by
  obtain ⟨q, hq, hcut⟩ := h.makes th hth
  refine ⟨hq.accepts hprog, hcut.imp_left ?_⟩
  rintro rfl
  exact hq.obeys hprog

/-- The statements in the sessions of coroutines that only make calls of one kind. -/
theorem Reaches.session_writes {A : Op → Prop} {B : Write → Prop}
    (hA : ∀ e, A e → ∀ w ∈ e.writes, B w) {S : Origin → Prop} {ok : Config → Action → Prop}
    (h : Reaches deps ok c) (hprog : ∀ o, S o → (o.program deps).Calls A)
    (hreap : ∀ id, S (.reaped id) → S (.job id)) :
    ∀ th ∈ c.threads, S th.origin → ∀ w ∈ th.session.pending, B w := by
  refine h.invariant (J := fun c => ∀ th ∈ c.threads, S th.origin →
    ∀ w ∈ th.session.pending, B w) (fun _ _ hth => nomatch hth) fun c a c' hr hc _ hs => ?_
  refine (stepped hs).forall_threads hc (fun _ _ _ _ h => h) (fun _ _ _ _ _ hw => nomatch hw)
    ?_ (fun _ _ _ _ _ hw => nomatch hw) ?_
  · intro t th e k r w s hth hp ha _ hkept ho x hx
    change x ∈ (if (k r).ended then Session.fresh else s).pending at hx
    split_ifs at hx
    · cases hx
    · rcases ha.mem_pending hx with hx | hx
      · exact hkept ho x hx
      · have hcall := (hr.follows (C := Contract.only A) (Q := fun _ _ => True) (p := ())
          (fun o ho => (hprog o ho).mono fun _ _ _ _ _ => trivial) hreap th
          (List.mem_of_getElem? hth) ho).allows hp
        exact hA e hcall x hx
  · intro th _ _ id ho _ hkept hsel w hw
    exact hkept (by rw [ho]; exact hreap id hsel) w hw

/-! ### Contracts that know the session -/

/-- The phases of a contract say what is in the session, as long as every call is answered. -/
structure Tracks {P : Type} (C : Contract relay PyExn P) (live : P → Prop) (pend : P → List Write)
    (p₀ : P) : Prop where
  start : pend p₀ = []
  ok : ∀ p e v, C.allows p e → live (C.next p e (.ok v)) → live p ∧
    pend (C.next p e (.ok v)) = if e.isCommit then [] else pend p ++ e.writes
  error : ∀ p e x, C.allows p e → ¬ live (C.next p e (.error x))

/-- The statements in the session of a coroutine are those of its phase. -/
theorem Reaches.pending_eq {P : Type} {C : Contract relay PyExn P} {live : P → Prop}
    {pend : P → List Write} {p : P} (hC : Tracks C live pend p) {Q : Reply → P → Prop}
    {S : Origin → Prop} {ok : Config → Action → Prop} (h : Reaches deps ok c)
    (hprog : ∀ o, S o → (o.program deps).Obeys C (finishing Q) p)
    (hreap : ∀ id, S (.reaped id) → S (.job id)) :
    ∀ th ∈ c.threads, S th.origin → th.prog.ended = false → live (C.run p th.trace) →
      th.session.pending = pend (C.run p th.trace) := by
  refine h.invariant (J := fun c => ∀ th ∈ c.threads, S th.origin → th.prog.ended = false →
    live (C.run p th.trace) → th.session.pending = pend (C.run p th.trace))
    (fun _ th hth => nomatch hth) fun c a c' hr hc _ hs => ?_
  refine (stepped hs).forall_threads hc (fun _ _ _ _ h => h) ?_ ?_ ?_ ?_
  · exact fun o w _ _ _ _ => hC.start.symm
  · intro t th e k r w s hth hp ha _ hpend ho hend hlive
    have hallow := (hr.follows hprog hreap th (List.mem_of_getElem? hth) ho).allows hp
    have hsession : (th.answered machine e r (k r) s).session = s :=
      if_neg (by rw [show (k r).ended = false from hend]; decide)
    have htrace : (th.answered machine e r (k r) s).trace = th.trace ++ [⟨e, r⟩] := rfl
    rw [htrace, Contract.run_append_singleton] at hlive ⊢
    rw [hsession]
    cases r with
    | error x => exact absurd hlive (hC.error _ e x hallow)
    | ok v =>
      obtain ⟨hbefore, hnext⟩ := hC.ok _ e v hallow hlive
      have hs := hpend ho (by rw [hp]; rfl) hbefore
      rw [hnext]
      obtain ⟨o, -, hexec⟩ := ha.of_ok
      cases hcom : e.isCommit with
      | true =>
        cases e with
        | commit =>
          cases hexec
          rfl
        | _ => cases hcom
      | false =>
        rcases ha.pending hcom with ⟨hpending, -⟩ | ⟨-, x, hx⟩
        · rw [hpending, hs]
          rfl
        · cases hx
  · exact fun th _ _ _ hend _ => nomatch hend
  · intro th _ _ id ho hend hpend _ hlive
    exact Bool.noConfusion (hend.symm.trans hlive)

/-! ### The two contracts of the system -/

/-- How far a coroutine that delivers has come. -/
def Coroutine.phase (th : Coroutine) : Phase :=
  th.trace.foldl (fun p c => p.next c.1 c.2) .started

/-- The events a coroutine that does not deliver has inserted or selected. -/
def Coroutine.known (th : Coroutine) : List UUID := requestContract.run [] th.trace

/-- The phase after an answer. -/
theorem Coroutine.phase_answered (th : Coroutine) (e : Op) (r : Except PyExn e.Resp)
    (p : Relay Reply) (s : Session) :
    Coroutine.phase (th.answered machine e r p s) = (Coroutine.phase th).next e r := by
  simp only [Coroutine.phase, Thread.answered, List.foldl_append, List.foldl_cons, List.foldl_nil]

/-- The statements of a phase. -/
def Phase.pending : Phase → List Write
  | .loaded _ _ ws => ws
  | _ => []

variable {ok : Config → Action → Prop} {th : Coroutine} {id : UUID}

/-- A coroutine that delivers follows the contract of `deliver`. -/
theorem Reaches.follows_deliver (h : Reaches deps ok c) (hth : th ∈ c.threads)
    (ho : th.origin.delivers = some id) :
    th.Follows (deliverContract id) (fun _ _ => True) .started := by
  refine h.follows (S := fun o => o.delivers = some id) (fun o ho => ?_) (fun _ h => h) th hth ho
  have hd : Delivers id .started (jobProgram deps id) := by
    refine (Prog.obeys_map _ _).mpr ((Prog.obeys_bind _ _).mpr ?_)
    refine (deliver_obeys deps id).mono fun r p _ => ?_
    cases r <;> trivial
  have hf : (jobProgram deps id).Obeys (deliverContract id) (finishing fun _ _ => True) .started :=
    hd.mono fun _ _ _ _ _ => trivial
  cases o with
  | job id' =>
    obtain rfl : id' = id := Option.some.inj ho
    exact hf
  | reaped id' =>
    obtain rfl : id' = id := Option.some.inj ho
    exact hf
  | request r => cases ho
  | cron => cases ho

/-- A coroutine that does not deliver follows the contract of the requests. -/
theorem Reaches.follows_request (h : Reaches deps ok c) (hth : th ∈ c.threads)
    (ho : th.origin.delivers = none) :
    th.Follows requestContract (fun _ _ => True) [] :=
  h.follows (S := fun o => o.delivers = none) (fun _ ho => program_requests deps ho)
    (fun _ h => h) th hth ho

/-! ### Sessions -/

/-- What a coroutine has in its session: nothing when it has ended, the statements of its phase
when it delivers, and benign statements otherwise. -/
structure Coroutine.Lawful (th : Coroutine) : Prop where
  ended : th.prog.ended = true → th.session = .fresh
  delivers : ∀ id, th.origin.delivers = some id → th.prog.ended = false →
    th.session.pending = th.phase.pending
  benign : th.origin.delivers = none → ∀ w ∈ th.session.pending, w.Benign

/-- A coroutine whose contract allows no call has ended. -/
theorem Coroutine.ended_of_closed {id : UUID}
    (h : th.Follows (deliverContract id) (fun _ _ => True) .started) (hp : th.phase = .closed) :
    th.prog.ended = true := by
  cases hprog : th.prog with
  | done a => rfl
  | raised x => rfl
  | call e k =>
    have ha : Phase.allows id th.phase e := h.allows hprog
    rw [hp] at ha
    cases ha

/-- The statements of a coroutine that delivers are those of its phase after an answer, too. -/
theorem pending_answered {t : ℕ} {others : List Session} {e : Op}
    {k : Except PyExn e.Resp → Relay Reply} {r : Except PyExn e.Resp} {w w' : World} {s : Session}
    (hf : th.Follows (deliverContract id) (fun _ _ => True) .started)
    (hp : th.prog = .call e k) (ha : Answers t others e w th.session a r w' s)
    (hpend : th.session.pending = th.phase.pending) (hend : (k r).ended = false) :
    s.pending = (th.phase.next e r).pending := by
  have hallow : th.phase.allows id e := hf.allows hp
  have hnext := hf.answered hp machine r s
  have hclosed : th.phase.next e r ≠ .closed := by
    intro hclosed
    have hphase := (Coroutine.phase_answered th e r (k r) s).trans hclosed
    exact Bool.noConfusion (hend.symm.trans (Coroutine.ended_of_closed hnext hphase))
  cases hph : th.phase with
  | closed =>
    rw [hph] at hallow
    cases hallow
  | started =>
    rw [hph] at hallow hclosed hpend
    obtain rfl : e = .getEventWithEndpoint id := hallow
    have hs : s.pending = [] := by
      rcases ha.pending rfl with ⟨hs, -⟩ | ⟨hs, -⟩
      · rw [hs, hpend]
        rfl
      · rw [hs, hpend]
        rfl
    rw [hs]
    rcases r with x | _ | ⟨ev, _ | ep⟩ <;> rfl
  | loaded ev ep ws =>
    rw [hph] at hallow hclosed hpend
    change s.pending = (Phase.flushed ev ep ws e r).pending
    change Phase.flushed ev ep ws e r ≠ .closed at hclosed
    unfold Phase.flushed at hclosed ⊢
    cases hc : e.isCommit with
    | true =>
      rw [hc] at hclosed
      exact absurd rfl hclosed
    | false =>
      rw [hc] at hclosed
      simp only [Bool.false_eq_true, if_false] at hclosed ⊢
      rcases ha.pending hc with ⟨hs, -⟩ | ⟨hs, x, rfl⟩
      · cases r with
        | ok v =>
          rw [hs, hpend]
          rfl
        | error x =>
          dsimp only at hclosed ⊢
          split_ifs at hclosed ⊢ with hw
          · rw [hs, hpend, List.isEmpty_iff.mp hw, List.append_nil]
          · exact absurd rfl hclosed
      · dsimp only at hclosed ⊢
        split_ifs at hclosed ⊢ with hw
        · rw [hs, hpend]
        · exact absurd rfl hclosed

/-- Every coroutine of a reachable state is lawful. -/
theorem Reaches.lawful (h : Reaches deps ok c) : ∀ th ∈ c.threads, Coroutine.Lawful th := by
  refine h.invariant (J := fun c => ∀ th ∈ c.threads, Coroutine.Lawful th)
    (fun _ th hth => nomatch hth) fun c a c' hr hc _ hs => ?_
  refine (stepped hs).forall_threads hc (fun _ _ _ _ h => h) ?_ ?_ ?_ ?_
  · intro o w ho
    refine ⟨fun _ => rfl, fun _ _ _ => rfl, fun _ w hw => nomatch hw⟩
  · intro t th e k r w s hth hp ha _ hl
    have hm : th ∈ c.threads := List.mem_of_getElem? hth
    have hlive : th.prog.ended = false := by rw [hp]; rfl
    refine ⟨fun hend => if_pos hend, fun id ho hend => ?_, fun ho w hw => ?_⟩
    · have hsession : (th.answered machine e r (k r) s).session = s :=
        if_neg (by rw [show (k r).ended = false from hend]; decide)
      rw [hsession]
      rw [pending_answered (hr.follows_deliver hm ho) hp ha (hl.delivers id ho hlive) hend]
      rw [Coroutine.phase_answered]
    · change w ∈ (if (k r).ended then Session.fresh else s).pending at hw
      split_ifs at hw
      · cases hw
      · rcases ha.mem_pending hw with hw | hw
        · exact hl.benign ho w hw
        · exact ((hr.follows_request hm ho).allows hp).1 w hw
  · intro th _ hl
    exact ⟨fun _ => rfl, fun _ _ hend => (nomatch hend), fun _ w hw => nomatch hw⟩
  · intro th _ _ id ho hend hl
    refine ⟨hl.ended, fun _ _ hlive => ?_, fun hne => nomatch hne⟩
    exact Bool.noConfusion (hend.symm.trans hlive)

/-! ### What a step adds to the log -/

/-- The rows and the statements of a run of `deliver` that is about to commit. -/
def committing? (c : Config) (t : ℕ) : Option (WebhookEvent × WebhookEndpoint × List Write) :=
  match c.threads[t]? with
  | some th =>
    match th.origin.delivers, th.prog, Coroutine.phase th with
    | some _, .call .commit _, .loaded ev ep ws => some (ev, ep, ws)
    | _, _, _ => none
  | none => none

/-- Where they come from. -/
theorem committing?_eq_some {c : Config} {t : ℕ} {ev : WebhookEvent} {ep : WebhookEndpoint}
    {ws : List Write} : committing? c t = some (ev, ep, ws) ↔ ∃ th id k, c.threads[t]? = some th ∧
      th.origin.delivers = some id ∧ th.prog = .call .commit k ∧
      Coroutine.phase th = .loaded ev ep ws := by
  constructor
  · intro h
    unfold committing? at h
    cases hth : c.threads[t]? with
    | none =>
      rw [hth] at h
      cases h
    | some th =>
      rw [hth] at h
      dsimp only at h
      split at h
      · rename_i id k ev' ep' ws' ho hp hph
        cases h
        exact ⟨th, id, k, rfl, ho, hp, hph⟩
      · cases h
  · rintro ⟨th, id, k, hth, ho, hp, hph⟩
    unfold committing?
    rw [hth]
    dsimp only
    rw [ho, hp, hph]

/-- What a step adds to the log: nothing, benign statements, or the transaction of an exit of
`deliver`. -/
inductive Commits (c c' : Config) (a : Action) : Prop where
  | nothing (h : c'.world.wal = c.world.wal)
  | benign (ws : List Write) (hws : ∀ w ∈ ws, w.Benign)
    (h : c'.world.wal = c.world.wal ++ ws)
  | exit (t : ℕ) (ev : WebhookEvent) (ep : WebhookEndpoint) (x : Exit) (ha : a.taken = some t)
    (hc : committing? c t = some (ev, ep, x.writes ev ep)) (hterm : ev.status.terminal = false)
    (hx : x.Valid ev ep) (h : c'.world.wal = c.world.wal ++ x.writes ev ep)

/-- A run of `deliver` that is about to commit has the transaction of a valid exit. -/
theorem Reaches.exit_of_commit (h : Reaches deps ok c) (hth : th ∈ c.threads)
    (ho : th.origin.delivers = some id) {k : Except PyExn Unit → Relay Reply}
    (hp : th.prog = .call .commit k) : ∃ ev ep, ∃ x : Exit,
      Coroutine.phase th = .loaded ev ep (x.writes ev ep) ∧ ev.status.terminal = false ∧
      x.Valid ev ep ∧ th.session.pending = x.writes ev ep := by
  have hpend := (h.lawful th hth).delivers id ho (by rw [hp]; rfl)
  have hallow : (Coroutine.phase th).allows id .commit := (h.follows_deliver hth ho).allows hp
  cases hph : Coroutine.phase th with
  | started =>
    rw [hph] at hallow
    cases hallow
  | closed =>
    rw [hph] at hallow
    cases hallow
  | loaded ev ep ws =>
    rw [hph] at hallow hpend
    obtain ⟨hterm, x, rfl, hx⟩ := hallow.2.2 rfl
    exact ⟨ev, ep, x, rfl, hterm, hx, hpend⟩

/-- Every step adds one of these. -/
theorem Reaches.commits (h : Reaches deps ok c) (hs : step deps c a = some c') :
    Commits c c' a := by
  rcases (stepped hs).wal with hw | ⟨t, th, k, hth, hp, htaken, hw⟩
  · exact .nothing hw
  · have hm : th ∈ c.threads := List.mem_of_getElem? hth
    cases ho : th.origin.delivers with
    | none => exact .benign _ ((h.lawful th hm).benign ho) hw
    | some id =>
      obtain ⟨ev, ep, x, hph, hterm, hx, hpend⟩ := h.exit_of_commit hm ho hp
      have hc : committing? c t = some (ev, ep, x.writes ev ep) :=
        committing?_eq_some.mpr ⟨th, id, k, hth, ho, hp, hph⟩
      rw [hpend] at hw
      exact .exit t ev ep x htaken hc hterm hx hw

/-- A commit ends a run. -/
theorem Phase.next_commit (p : Phase) (r : Except PyExn (Op.Resp .commit)) :
    p.next .commit r = .closed := by
  cases p <;> rfl

/-- Where the rows of a phase come from: the read at the start of the run. -/
theorem Phase.next_eq_loaded {p : Phase} {e : Op} {r : Except PyExn e.Resp} {ev : WebhookEvent}
    {ep : WebhookEndpoint} {ws : List Write} (h : p.next e r = .loaded ev ep ws) :
    (∃ ws', p = .loaded ev ep ws') ∨
      p = .started ∧ ∃ id, ∃ he : e = .getEventWithEndpoint id,
        he ▸ r = .ok (some (ev, some ep)) := by
  cases p with
  | closed => cases h
  | loaded ev' ep' ws' =>
    change Phase.flushed ev' ep' ws' e r = _ at h
    unfold Phase.flushed at h
    cases r with
    | ok v =>
      dsimp only at h
      split_ifs at h
      cases h
      exact Or.inl ⟨ws', rfl⟩
    | error x =>
      dsimp only at h
      split_ifs at h
      cases h
      exact Or.inl ⟨ws, rfl⟩
  | started =>
    refine Or.inr ⟨rfl, ?_⟩
    cases e with
    | getEventWithEndpoint id =>
      refine ⟨id, rfl, ?_⟩
      rcases r with x | _ | ⟨ev', _ | ep'⟩
      · cases h
      · cases h
      · cases h
      · cases h
        rfl
    | _ => cases h

end WebhookRelay
