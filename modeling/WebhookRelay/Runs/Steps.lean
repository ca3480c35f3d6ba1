import WebhookRelay.System

/-!
# What a step does

`Stepped` takes a step of the system apart once: a coroutine starts, a call of a coroutine is
answered, a coroutine is cut off, the result of a job is stored, or time passes. `Answers` says
where an answer comes from, and the lemmas about it say what it leaves of the log of committed
writes and of the session: only a commit adds to the log, and a session grows by the statements
of its own calls. Every invariant of the system is a case analysis over these.
-/

namespace WebhookRelay

open Data Effect

/-! ### Origins -/

/-- What a coroutine runs. -/
def Origin.program (deps : Deps) : Origin → Relay Reply
  | .request r => r.program
  | .job event => jobProgram deps event
  | .reaped event => jobProgram deps event
  | .cron => cronProgram

/-- The event a coroutine delivers. -/
def Origin.delivers : Origin → Option UUID
  | .job event => some event
  | .reaped event => some event
  | _ => none

/-- A coroutine before its first call. -/
def Origin.start (deps : Deps) (o : Origin) : Coroutine := ⟨o, o.program deps, .fresh, []⟩

/-! ### Answers -/

/-- The coroutine whose next call takes effect. -/
def Action.taken : Action → Option ℕ
  | .call t _ => some t
  | .fault t _ _ true => some t
  | _ => none

/-- The coroutine whose next call is answered. -/
def Action.called : Action → Option ℕ
  | .call t _ => some t
  | _ => none

/-- The coroutine that is hit by a failure, or cut off. -/
def Action.interrupts : Action → Option ℕ
  | .fault t _ _ _ => some t
  | .kill t => some t
  | _ => none

/-- Where the answer to a call comes from: the call was executed, it was lost, or it took effect
and the answer was lost. -/
inductive Answers (t : ℕ) (others : List Session) (e : Op) (w : World) (s : Session) :
    Action → Except PyExn e.Resp → World → Session → Prop where
  | executed (o : Oracle) (h : blocked others w s e = false) :
    Answers t others e w s (.call t o) (exec o e w s).1 (exec o e w s).2.1 (exec o e w s).2.2
  | lost (o : Oracle) (x : Fault) :
    Answers t others e w s (.fault t o x false) (.error x.exn) w s
  | late (o : Oracle) (x : Fault) (h : blocked others w s e = false) :
    Answers t others e w s (.fault t o x true) (.error x.exn) (exec o e w s).2.1
      (exec o e w s).2.2

section exec

variable {o : Oracle} {e : Op} {w : World} {s : Session}

/-- A commit appends the statements of the session to the log. -/
theorem exec_commit : (exec o .commit w s).2.1.wal = w.wal ++ s.pending ∧
    (exec o .commit w s).2.2.pending = [] := ⟨rfl, rfl⟩

/-- Loading objects leaves the statements of a session alone. -/
theorem pending_foldl_load (rows : List DeadLetterEvent) (s : Session) :
    (rows.foldl Session.load s).pending = s.pending := by
  induction rows generalizing s with
  | nil => rfl
  | cons r rows ih => exact ih (s.load r)

/-- What a call leaves in the log when it is not a commit. -/
theorem wal_exec (hc : e.isCommit = false) : (exec o e w s).2.1.wal = w.wal := by
  have h := execs o e w s
  generalize (exec o e w s).2.1 = w' at h ⊢
  cases h with
  | commit => cases hc
  | _ => rfl

/-- What a call leaves in the session when it is not a commit. -/
theorem pending_exec (hc : e.isCommit = false) :
    ((exec o e w s).2.2.pending = s.pending ++ e.writes ∧ e.violation (w.view s) = none) ∨
      ((exec o e w s).2.2.pending = s.pending ∧ ∃ x, (exec o e w s).1 = .error x) := by
  have hflushed {α : Type} (e : Op) (a : α) (s' : Session) (hp : s'.pending = s.pending)
      (hv : e.violation (w.view s') = e.violation (w.view s)) :
      ((flushed e a w s').2.2.pending = s.pending ++ e.writes ∧ e.violation (w.view s) = none) ∨
        ((flushed e a w s').2.2.pending = s.pending ∧ ∃ x, (flushed e a w s').1 = .error x) := by
    unfold flushed
    rw [hv]
    cases h : e.violation (w.view s) with
    | none => exact Or.inl ⟨congrArg (· ++ _) hp, rfl⟩
    | some x => exact Or.inr ⟨hp, x, rfl⟩
  have hread {α : Type} (r : Except PyExn α) (s' : Session) (hs : s'.pending = s.pending) (e : Op)
      (he : e.writes = []) (hv : e.violation (w.view s) = none) :
      (s'.pending = s.pending ++ e.writes ∧ e.violation (w.view s) = none) ∨
        (s'.pending = s.pending ∧ ∃ x, r = .error x) :=
    Or.inl ⟨by rw [hs, he, List.append_nil], hv⟩
  cases e with
  | commit => cases hc
  | getDeadLetter id =>
    rw [exec_getDeadLetter]
    cases s.loaded.find? fun x => decide (x.id = id) with
    | some x => exact hread _ _ rfl _ rfl rfl
    | none =>
      cases (w.view s).deadLetters.get? id <;> exact hread _ _ rfl _ rfl rfl
  | selectDeadLetters endpointId eventType limit =>
    exact hflushed _ _ _ (pending_foldl_load _ s) (by
      cases eventType <;> rfl)
  | enqueueJob id =>
    rw [exec_enqueueJob]
    split <;> exact hread _ _ rfl (.enqueueJob id) rfl rfl
  | post req =>
    rw [exec_post]
    split <;> exact hread _ _ rfl (.post req) rfl rfl
  | flushDeadLetter old new => exact hflushed _ _ _ rfl rfl
  | getEventByKey _ | insertEndpoint _ | flushEndpoint _ _ | deactivateEndpoint _ | insertEvent _
  | flushEvent _ _ | insertAttempt _ | insertDeadLetter _ | deleteDeadLetter _ =>
    exact hflushed _ _ _ rfl rfl
  | _ => exact hread _ _ rfl _ rfl rfl

end exec

namespace Answers

variable {t : ℕ} {others : List Session} {e : Op} {w w' : World} {s s' : Session} {a : Action}
  {r : Except PyExn e.Resp}

/-- The call that is answered is the one that takes effect, if one does. -/
theorem taken (h : Answers t others e w s a r w' s') {u : ℕ} (hu : u ≠ t) : a.taken ≠ some u := by
  cases h with
  | executed => exact fun h => hu (Option.some.inj h).symm
  | lost => exact fun h => nomatch h
  | late => exact fun h => hu (Option.some.inj h).symm

/-- The call that is answered is the one that is interrupted, if one is. -/
theorem interrupts (h : Answers t others e w s a r w' s') {u : ℕ} (hu : u ≠ t) :
    a.interrupts ≠ some u := by
  cases h with
  | executed => exact fun h => nomatch h
  | lost => exact fun h => hu (Option.some.inj h).symm
  | late => exact fun h => hu (Option.some.inj h).symm

/-- The log after an answer: that of the statements of a commit, or as it was. -/
theorem wal (h : Answers t others e w s a r w' s') :
    w'.wal = w.wal ∨ e.isCommit = true ∧ a.taken = some t ∧ w'.wal = w.wal ++ s.pending ∧
      s'.pending = [] := by
  have hexec (o : Oracle) (ha : a.taken = some t) : (exec o e w s).2.1.wal = w.wal ∨
      e.isCommit = true ∧ a.taken = some t ∧ (exec o e w s).2.1.wal = w.wal ++ s.pending ∧
        (exec o e w s).2.2.pending = [] := by
    cases hc : e.isCommit with
    | false => exact Or.inl (wal_exec hc)
    | true =>
      cases e with
      | commit => exact Or.inr ⟨rfl, ha, exec_commit⟩
      | _ => cases hc
  cases h with
  | executed o _ => exact hexec o rfl
  | lost => exact Or.inl rfl
  | late o x _ => exact hexec o rfl

/-- The session after the answer to a call that is not a commit. -/
theorem pending (h : Answers t others e w s a r w' s') (hc : e.isCommit = false) :
    (s'.pending = s.pending ++ e.writes ∧ e.violation (w.view s) = none ∧
        blocked others w s e = false) ∨
      (s'.pending = s.pending ∧ ∃ x, r = .error x) := by
  cases h with
  | executed o hb =>
    rcases pending_exec (o := o) (w := w) (s := s) hc with ⟨hp, hv⟩ | h
    · exact Or.inl ⟨hp, hv, hb⟩
    · exact Or.inr h
  | lost o x => exact Or.inr ⟨rfl, _, rfl⟩
  | late o x hb =>
    rcases pending_exec (o := o) (w := w) (s := s) hc with ⟨hp, hv⟩ | h
    · exact Or.inl ⟨hp, hv, hb⟩
    · exact Or.inr ⟨h.1, _, rfl⟩

/-- The statements of a session stay in it, or are committed. -/
theorem keeps (h : Answers t others e w s a r w' s') :
    (w'.wal = w.wal ∧ s.pending <+: s'.pending) ∨ w'.wal = w.wal ++ s.pending := by
  cases hc : e.isCommit with
  | false =>
    have hwal : w'.wal = w.wal := h.wal.resolve_right fun h => by
      rw [hc] at h
      cases h.1
    rcases h.pending hc with ⟨hp, -⟩ | ⟨hp, -⟩
    · exact Or.inl ⟨hwal, hp ▸ List.prefix_append _ _⟩
    · exact Or.inl ⟨hwal, hp ▸ List.prefix_rfl⟩
  | true =>
    cases e with
    | commit =>
      cases h with
      | executed => exact Or.inr rfl
      | lost => exact Or.inl ⟨rfl, List.prefix_rfl⟩
      | late => exact Or.inr rfl
    | _ => cases hc

/-- A statement in the session after an answer was there before, or is one of the call. -/
theorem mem_pending (h : Answers t others e w s a r w' s') {x : Write} (hx : x ∈ s'.pending) :
    x ∈ s.pending ∨ x ∈ e.writes := by
  cases hc : e.isCommit with
  | false =>
    rcases h.pending hc with ⟨hp, -⟩ | ⟨hp, -⟩
    · rw [hp] at hx
      exact List.mem_append.mp hx
    · rw [hp] at hx
      exact Or.inl hx
  | true =>
    cases e with
    | commit =>
      cases h with
      | executed => cases hx
      | lost => exact Or.inl hx
      | late => cases hx
    | _ => cases hc

/-- A value that is answered comes from an execution. -/
theorem of_ok {v : e.Resp} (h : Answers t others e w s a (.ok v) w' s') :
    ∃ o, a = .call t o ∧ exec o e w s = (.ok v, w', s') := by
  generalize hr : (Except.ok v : Except PyExn e.Resp) = r at h
  cases h with
  | executed o _ => exact ⟨o, rfl, rfl⟩
  | lost => cases hr
  | late => cases hr

end Answers

/-! ### Steps -/

/-- The world in which a coroutine starts. -/
inductive Starts (c : Config) : Action → Origin → World → Prop where
  | request (r : Request) : Starts c (.arrive r) (.request r) c.world
  | job (id : UUID) (h : (c.world.jobs id).phase.isSome = true) :
    Starts c (.startJob id) (.job id) (c.world.take id)
  | cron : Starts c .startCron .cron c.world

/-- What a step does. -/
inductive Stepped (deps : Deps) (c : Config) : Action → Config → Prop where
  | started {a : Action} {o : Origin} {w : World} (h : Starts c a o w) :
    Stepped deps c a ⟨w, c.threads ++ [o.start deps]⟩
  | answered {a : Action} {t : ℕ} {th : Coroutine} {e : Op}
    {k : Except PyExn e.Resp → Relay Reply} {r : Except PyExn e.Resp} {w : World} {s : Session}
    (hth : c.threads[t]? = some th) (hp : th.prog = .call e k)
    (h : Answers t (c.others t) e c.world th.session a r w s) :
    Stepped deps c a ⟨w, c.threads.set t (th.answered machine e r (k r) s)⟩
  | killed {t : ℕ} {th : Coroutine} (hth : c.threads[t]? = some th) :
    Stepped deps c (.kill t)
      ⟨c.world, c.threads.set t { th with prog := .raised .cancelled, session := .fresh }⟩
  | reaped {t : ℕ} {th : Coroutine} {id : UUID} (hth : c.threads[t]? = some th)
    (ho : th.origin = .job id) (hend : th.prog.ended = true) :
    Stepped deps c (.finishJob t)
      ⟨c.world.finish id, c.threads.set t { th with origin := .reaped id }⟩
  | ticked (micros : ℕ) :
    Stepped deps c (.tick micros)
      ⟨{ c.world with now := c.world.now.advance micros }, c.threads⟩

/-- Every step is one of these. -/
theorem stepped {deps : Deps} {c c' : Config} {a : Action} (h : step deps c a = some c') :
    Stepped deps c a c' := by
  cases a with
  | arrive r =>
    cases h
    exact .started (.request r)
  | startJob id =>
    change startJob deps c id = some c' at h
    unfold startJob at h
    split_ifs at h with hj
    cases h
    exact .started (.job id hj)
  | startCron =>
    cases h
    exact .started .cron
  | call t o =>
    obtain ⟨th, e, k, hth, hp, hb, hw, ht⟩ := Pool.call_eq_some h
    obtain ⟨w, ths⟩ := c'
    obtain rfl : w = _ := hw
    obtain rfl : ths = _ := ht
    exact .answered hth hp (.executed o hb)
  | fault t o x applied =>
    obtain ⟨th, e, k, hth, hp, ⟨rfl, hw, ht⟩ | ⟨rfl, hb, hw, ht⟩⟩ := Pool.fault_eq_some h
    · obtain ⟨w, ths⟩ := c'
      obtain rfl : w = _ := hw
      obtain rfl : ths = _ := ht
      exact .answered hth hp (.lost o x)
    · obtain ⟨w, ths⟩ := c'
      obtain rfl : w = _ := hw
      obtain rfl : ths = _ := ht
      exact .answered hth hp (.late o x hb)
  | kill t =>
    obtain ⟨th, hth, hw, ht⟩ := Pool.kill_eq_some h
    obtain ⟨w, ths⟩ := c'
    obtain rfl : w = _ := hw
    obtain rfl : ths = _ := ht
    exact .killed hth
  | finishJob t =>
    change finishJob c t = some c' at h
    unfold finishJob at h
    cases hth : c.threads[t]? with
    | none => simp [hth] at h
    | some th =>
      cases ho : th.origin with
      | job id =>
        simp only [hth, ho] at h
        split_ifs at h with hend
        cases h
        exact .reaped hth ho hend
      | _ => simp [hth, ho] at h
  | tick micros =>
    cases h
    exact .ticked micros

/-- The log after a step: that of the statements a coroutine commits, or as it was. -/
theorem Stepped.wal {deps : Deps} {c c' : Config} {a : Action} (h : Stepped deps c a c') :
    c'.world.wal = c.world.wal ∨ ∃ t th k, c.threads[t]? = some th ∧ th.prog = .call .commit k ∧
      a.taken = some t ∧ c'.world.wal = c.world.wal ++ th.session.pending := by
  cases h with
  | started h => cases h <;> exact Or.inl rfl
  | answered hth hp h =>
    rename_i t th e k r w s
    rcases h.wal with hw | ⟨hc, ha, hw, -⟩
    · exact Or.inl hw
    · cases e with
      | commit => exact Or.inr ⟨t, th, k, hth, hp, ha, hw⟩
      | _ => cases hc
  | killed => exact Or.inl rfl
  | reaped => exact Or.inl rfl
  | ticked => exact Or.inl rfl

/-- The log of committed writes grows. -/
theorem Stepped.wal_grows {deps : Deps} {c c' : Config} {a : Action} (h : Stepped deps c a c') :
    c.world.wal <+: c'.world.wal := by
  rcases h.wal with hwal | ⟨t, th, k, -, -, -, hwal⟩
  · exact hwal ▸ List.prefix_rfl
  · exact hwal ▸ List.prefix_append _ _

/-- Where coroutine `t` of the state after a step comes from. -/
inductive CameFrom (deps : Deps) (c : Config) (a : Action) (c' : Config) (t : ℕ) :
    Coroutine → Prop where
  | untouched {th : Coroutine} (hth : c.threads[t]? = some th) (htaken : a.taken ≠ some t)
    (hinterrupts : a.interrupts ≠ some t) : CameFrom deps c a c' t th
  | started {o : Origin} {w : World} (h : Starts c a o w) (ht : t = c.threads.length) :
    CameFrom deps c a c' t (o.start deps)
  | answered {th : Coroutine} {e : Op} {k : Except PyExn e.Resp → Relay Reply}
    {r : Except PyExn e.Resp} {s : Session} (hth : c.threads[t]? = some th)
    (hp : th.prog = .call e k)
    (h : Answers t (c.others t) e c.world th.session a r c'.world s) :
    CameFrom deps c a c' t (th.answered machine e r (k r) s)
  | killed {th : Coroutine} (hth : c.threads[t]? = some th) (ha : a = .kill t) :
    CameFrom deps c a c' t { th with prog := .raised .cancelled, session := .fresh }
  | reaped {th : Coroutine} {id : UUID} (hth : c.threads[t]? = some th) (ho : th.origin = .job id)
    (hend : th.prog.ended = true) (ha : a = .finishJob t) :
    CameFrom deps c a c' t { th with origin := .reaped id }

/-- Every coroutine of the state after a step comes from one of these. -/
theorem Stepped.cameFrom {deps : Deps} {c c' : Config} {a : Action} (h : Stepped deps c a c')
    {t : ℕ} {th : Coroutine} (hth : c'.threads[t]? = some th) : CameFrom deps c a c' t th := by
  cases h with
  | started h =>
    have hfree : a.taken ≠ some t ∧ a.interrupts ≠ some t := by
      cases h <;> exact ⟨fun h => (nomatch h), fun h => nomatch h⟩
    rcases getElem?_append_cases hth with ⟨-, hth⟩ | ⟨ht, rfl⟩
    · exact .untouched hth hfree.1 hfree.2
    · exact .started h ht
  | answered hth' hp ha =>
    rcases getElem?_set_cases hth with ⟨rfl, rfl⟩ | ⟨ht, hth⟩
    · exact .answered hth' hp ha
    · exact .untouched hth (ha.taken ht) (ha.interrupts ht)
  | killed hth' =>
    rcases getElem?_set_cases hth with ⟨rfl, rfl⟩ | ⟨ht, hth⟩
    · exact .killed hth' rfl
    · exact .untouched hth (fun h => nomatch h) fun h => ht (Option.some.inj h).symm
  | reaped hth' ho hend =>
    rcases getElem?_set_cases hth with ⟨rfl, rfl⟩ | ⟨-, hth⟩
    · exact .reaped hth' ho hend rfl
    · exact .untouched hth (fun h => nomatch h) fun h => nomatch h
  | ticked => exact .untouched hth (fun h => nomatch h) fun h => nomatch h

/-- A property of each coroutine is carried over a step when the coroutines whose call does not
take effect keep it, and each kind of move keeps it. -/
theorem Stepped.forall_threads {deps : Deps} {c c' : Config} {a : Action}
    {P P' : Coroutine → Prop} (h : Stepped deps c a c')
    (hc : ∀ th ∈ c.threads, P th)
    (hsame : ∀ (u : ℕ) (uh : Coroutine), c.threads[u]? = some uh → a.taken ≠ some u → P uh →
      P' uh)
    (hstart : ∀ o w, Starts c a o w → P' (o.start deps))
    (hanswered : ∀ t th e k r w s, c.threads[t]? = some th → th.prog = .call e k →
      Answers t (c.others t) e c.world th.session a r w s → c'.world = w → P th →
      P' (th.answered machine e r (k r) s))
    (hkilled : ∀ th ∈ c.threads, P th →
      P' { th with prog := .raised .cancelled, session := .fresh })
    (hreaped : ∀ th ∈ c.threads, a.taken = none → ∀ id, th.origin = .job id →
      th.prog.ended = true → P th → P' { th with origin := .reaped id }) :
    ∀ th ∈ c'.threads, P' th := by
  have hkeep (hnone : ∀ u, a.taken ≠ some u) : ∀ th ∈ c.threads, P' th := by
    intro th hth
    obtain ⟨u, hu⟩ := List.mem_iff_getElem?.mp hth
    exact hsame u th hu (hnone u) (hc th hth)
  have hset {t : ℕ} {th' : Coroutine} (h' : P' th') (hnone : ∀ u, u ≠ t → a.taken ≠ some u) :
      ∀ th ∈ c.threads.set t th', P' th := by
    intro th hth
    obtain ⟨u, hu⟩ := List.mem_iff_getElem?.mp hth
    rcases getElem?_set_cases hu with ⟨-, rfl⟩ | ⟨hut, hu⟩
    · exact h'
    · exact hsame u th hu (hnone u hut) (hc th (List.mem_of_getElem? hu))
  cases h with
  | started hs =>
    intro th hth
    rcases List.mem_append.mp hth with hth | hth
    · refine hkeep (fun u => ?_) th hth
      cases hs <;> exact fun h => nomatch h
    · rw [List.mem_singleton.mp hth]
      exact hstart _ _ hs
  | answered hth hp ha =>
    exact hset (hanswered _ _ _ _ _ _ _ hth hp ha rfl (hc _ (List.mem_of_getElem? hth)))
      fun u hu => ha.taken hu
  | killed hth =>
    have hm := List.mem_of_getElem? hth
    exact hset (hkilled _ hm (hc _ hm)) fun _ _ h => nomatch h
  | reaped hth ho hend =>
    have hm := List.mem_of_getElem? hth
    exact hset (hreaped _ hm rfl _ ho hend (hc _ hm)) fun _ _ h => nomatch h
  | ticked => exact hkeep fun _ h => nomatch h

/-- What holds of every statement that a call leaves in its session holds of every statement in the
log, and in any session. -/
theorem Reaches.written {deps : Deps} {ok : Config → Action → Prop} {c : Config}
    {A : Write → Prop} (hA : ∀ (e : Op) db, e.violation db = none → ∀ w ∈ e.writes, A w)
    (h : Reaches deps ok c) : (∀ w ∈ c.world.wal, A w) ∧
      ∀ th ∈ c.threads, ∀ w ∈ th.session.pending, A w := by
  refine h.invariant (J := fun c => (∀ w ∈ c.world.wal, A w) ∧
    ∀ th ∈ c.threads, ∀ w ∈ th.session.pending, A w)
    (fun _ => ⟨fun _ hw => (nomatch hw), fun _ hth => nomatch hth⟩) fun c a c' _ hc _ hs => ?_
  have hfresh (w : Write) (hw : w ∈ Session.fresh.pending) : A w := nomatch hw
  refine ⟨fun w hw => ?_, (stepped hs).forall_threads hc.2 (fun _ _ _ _ h => h)
    (fun _ _ _ => hfresh) ?_ (fun _ _ _ => hfresh) fun _ _ _ _ _ _ h => h⟩
  · rcases (stepped hs).wal with hwal | ⟨t, th, k, hth, -, -, hwal⟩
    · exact hc.1 w (hwal ▸ hw)
    · rw [hwal] at hw
      rcases List.mem_append.mp hw with hw | hw
      · exact hc.1 w hw
      · exact hc.2 th (List.mem_of_getElem? hth) w hw
  · intro t th e k r w s _ _ ha _ hth x hx
    change x ∈ (if (k r).ended then Session.fresh else s).pending at hx
    split_ifs at hx
    · exact hfresh x hx
    · cases hcom : e.isCommit with
      | true =>
        rcases ha.mem_pending hx with hx | hx
        · exact hth x hx
        · cases e with
          | commit => cases hx
          | _ => cases hcom
      | false =>
        rcases ha.pending hcom with ⟨hp, hv, -⟩ | ⟨hp, -⟩
        · rw [hp] at hx
          rcases List.mem_append.mp hx with hx | hx
          · exact hth x hx
          · exact hA e _ hv x hx
        · exact hth x (hp ▸ hx)

end WebhookRelay
