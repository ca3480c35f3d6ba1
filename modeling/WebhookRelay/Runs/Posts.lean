import WebhookRelay.Runs.Atomic
import WebhookRelay.Runs.Handlers

/-!
# Every POST has its run, and every attempt that is logged has its POST

The calls that tell what was sent are made by the runs of `deliver` only (`program_untold`), in the
order of `Dispatch`. So in every reachable state, whatever was interleaved and whatever failed:

* `posts_accounted`: the POSTs that went out are those of different runs. Each was sent by a run
  that had read a committed event that was not terminal and its committed endpoint, which was
  active, and that the circuit breaker had let pass; the request is the one for these rows. Every
  run whose POST has an outcome has sent it.
* `attempts_truthful`: the rows of the attempt log are of different runs, and each reports the
  request and the outcome of a POST that its run has sent; a run that has sent a POST and has no row
  has not committed.
-/

namespace WebhookRelay

open Data Effect

/-! ### The coroutines that do not deliver -/

/-- **A request or a poll makes none of the calls that tell what was sent.** -/
theorem program_untold (deps : Deps) {o : Origin} (ho : o.delivers = none) :
    (o.program deps).Calls Op.Untold :=
  (program_asks deps ho).imp fun _ h => h.tells

variable {deps : Deps} {ok : Config → Action → Prop} {c c' : Config} {a : Action}
  {th : Coroutine}

/-! ### The calls of a coroutine -/

section traces

/-- A job makes the calls that tell in the order of `Dispatch`, and answers CIRCUIT_OPEN only when
the circuit breaker has refused it. -/
theorem program_dispatches (deps : Deps) {o : Origin} {id : UUID} (ho : o.delivers = some id) :
    (o.program deps).Obeys (dispatchContract deps.crypto id)
      (finishing fun v cs => v = .delivery .circuitOpen →
        ∃ ev ep, cs = [readCall id ev ep, refusedCall ep]) [] := by
  have hjob : (jobProgram deps id).Obeys (dispatchContract deps.crypto id)
      (finishing fun v cs => v = .delivery .circuitOpen →
        ∃ ev ep, cs = [readCall id ev ep, refusedCall ep]) [] := by
    refine (Prog.obeys_map _ _).mpr ((Prog.obeys_bind _ _).mpr ?_)
    refine (deliver_dispatches deps id).mono fun r p hr => ?_
    cases r with
    | error x => exact fun _ h => nomatch h
    | ok v =>
      rintro _ ⟨⟩ hv
      exact hr v rfl (by simpa using hv)
  cases o with
  | job id' =>
    obtain rfl : id' = id := Option.some.inj ho
    exact hjob
  | reaped id' =>
    obtain rfl : id' = id := Option.some.inj ho
    exact hjob
  | request r => cases ho
  | cron => cases ho

/-- Each of the calls that tell was one that may come after those before it. -/
theorem Reaches.dispatched (h : Reaches deps ok c) (hth : th ∈ c.threads)
    {pre post : List (Call relay PyExn)} {e : Op} {r : Except PyExn e.Resp}
    (hx : transcript Op.tells th.trace = pre ++ ⟨e, r⟩ :: post) :
    ∃ id, th.origin.delivers = some id ∧ Dispatch deps.crypto id pre e := by
  cases ho : th.origin.delivers with
  | none =>
    rw [Contract.transcript_eq_nil (h.obeys hth (program_untold deps ho)).1] at hx
    simp at hx
  | some id =>
    exact ⟨id, rfl, Contract.may_of_accepts (h.obeys hth (program_dispatches deps ho)).1 hx⟩

/-- The next call of a coroutine, if it is one that tells. -/
theorem Reaches.dispatching (h : Reaches deps ok c) (hth : th ∈ c.threads) {e : Op}
    {k : Except PyExn e.Resp → Relay Reply} (hp : th.prog = .call e k) (he : e.tells = true) :
    ∃ id, th.origin.delivers = some id ∧
      Dispatch deps.crypto id (transcript Op.tells th.trace) e := by
  cases ho : th.origin.delivers with
  | none =>
    rcases (h.obeys hth (program_untold deps ho)).2 with hobeys | hcut
    · rw [hp] at hobeys
      exact Bool.noConfusion (he.symm.trans hobeys.1)
    · rw [hp] at hcut
      cases hcut
  | some id =>
    rcases (h.obeys hth (program_dispatches deps ho)).2 with hobeys | hcut
    · rw [hp, Contract.run_watching] at hobeys
      exact ⟨id, rfl, hobeys.1 he⟩
    · rw [hp] at hcut
      cases hcut

/-- A coroutine that has sent a POST and asked for its commit has logged the POST. -/
theorem Reaches.logged_of_committed (h : Reaches deps ok c) (hth : th ∈ c.threads)
    {req : HttpRequest} {r : Except PyExn HttpResponse} (hpost : postCall req r ∈ th.trace)
    {r' : Except PyExn Unit} (hcommit : (⟨.commit, r'⟩ : Call relay PyExn) ∈ th.trace) :
    ∃ row r'', (⟨.insertAttempt row, r''⟩ : Call relay PyExn) ∈ th.trace := by
  have hjob (id : UUID) : Records .clear (jobProgram deps id) := by
    refine (Prog.obeys_map _ _).mpr ((Prog.obeys_bind _ _).mpr ?_)
    exact (deliver_records deps id).mono fun r _ _ => by cases r <;> trivial
  have hrecords : Records .clear (th.origin.program deps) := by
    cases ho : th.origin.delivers with
    | none =>
      refine records_of_noPost ((program_untold deps ho).imp fun e he => ?_) Recording.noConfusion
      cases e <;> first | rfl | cases he
    | some id =>
      cases horigin : th.origin with
      | job id' => exact hjob id'
      | reaped id' => exact hjob id'
      | request r => rw [horigin] at ho; cases ho
      | cron => rw [horigin] at ho; cases ho
  exact logged_of_accepts (h.obeys hth hrecords).1 ⟨_, hpost, rfl⟩ ⟨_, hcommit, rfl⟩

theorem mem_told {cs : List (Call relay PyExn)} {x : Call relay PyExn} (hx : x.1.tells = true) :
    x ∈ transcript Op.tells cs ↔ x ∈ cs := mem_transcript hx

/-- Where a POST stands among the calls of its coroutine. -/
theorem Reaches.posting (h : Reaches deps ok c) (hth : th ∈ c.threads) {req : HttpRequest}
    {r : Except PyExn HttpResponse} (hmem : postCall req r ∈ th.trace) :
    ∃ id ev ep rest, th.origin.delivers = some id ∧ Authorised deps.crypto ev ep req ∧
      transcript Op.tells th.trace =
        readCall id ev ep :: allowedCall ep :: postCall req r :: rest := by
  obtain ⟨pre, rest, hx⟩ := List.append_of_mem ((mem_told rfl).mpr hmem)
  obtain ⟨id, ho, hd⟩ := h.dispatched hth hx
  cases hd with
  | send hauth => exact ⟨id, _, _, rest, ho, hauth, hx⟩

/-- Where the insert of an attempt stands among the calls of its coroutine. -/
theorem Reaches.logging (h : Reaches deps ok c) (hth : th ∈ c.threads) {row : DeliveryAttempt}
    {r' : Except PyExn Unit}
    (hmem : (⟨.insertAttempt row, r'⟩ : Call relay PyExn) ∈ th.trace) :
    ∃ id ev ep req r rest, th.origin.delivers = some id ∧ Authorised deps.crypto ev ep req ∧
      row.Reports deps.crypto ev req r ∧ transcript Op.tells th.trace = readCall id ev ep ::
        allowedCall ep :: postCall req r :: ⟨.insertAttempt row, r'⟩ :: rest := by
  obtain ⟨pre, rest, hx⟩ := List.append_of_mem ((mem_told rfl).mpr hmem)
  obtain ⟨id, ho, hd⟩ := h.dispatched hth hx
  cases hd with
  | log hauth ha => exact ⟨id, _, _, _, _, rest, ho, hauth, ha, hx⟩

end traces

/-! ### What a step adds to the calls and to the POSTs -/

section steps

/-- Coroutines stay, and their traces grow. A request stays that request. -/
theorem Stepped.kept (h : Stepped deps c a c') {t : ℕ} (hth : c.threads[t]? = some th) :
    ∃ th', c'.threads[t]? = some th' ∧ th.trace <+: th'.trace ∧
      ∀ r, th.origin = .request r → th'.origin = .request r := by
  have hlt : t < c.threads.length := (List.getElem?_eq_some_iff.mp hth).1
  have hthere : ∃ th', c'.threads[t]? = some th' := by
    cases h with
    | started => exact ⟨th, by rw [List.getElem?_append_left hlt, hth]⟩
    | ticked => exact ⟨th, hth⟩
    | _ => exact ⟨_, List.getElem?_eq_getElem (by rw [List.length_set]; exact hlt)⟩
  obtain ⟨th', hth'⟩ := hthere
  refine ⟨th', hth', ?_⟩
  cases h.cameFrom hth' with
  | started hstart ht =>
    rw [ht] at hlt
    exact absurd hlt (Nat.lt_irrefl _)
  | untouched hth₀ | killed hth₀ =>
    rw [hth] at hth₀
    cases hth₀
    exact ⟨List.prefix_rfl, fun _ ho => ho⟩
  | reaped hth₀ ho =>
    rw [hth] at hth₀
    cases hth₀
    refine ⟨List.prefix_rfl, fun r hr => ?_⟩
    rw [ho] at hr
    cases hr
  | answered hth₀ =>
    rw [hth] at hth₀
    cases hth₀
    exact ⟨List.prefix_append _ _, fun _ ho => ho⟩

/-- A call of a coroutine was there before, or is the one that is answered. -/
theorem Stepped.mem_trace (h : Stepped deps c a c') {t : ℕ} {th' : Coroutine}
    (hth' : c'.threads[t]? = some th') {e : Op} {r : Except PyExn e.Resp}
    (hx : (⟨e, r⟩ : Call relay PyExn) ∈ th'.trace) :
    (∃ th, c.threads[t]? = some th ∧ (⟨e, r⟩ : Call relay PyExn) ∈ th.trace) ∨
      ∃ th k s, c.threads[t]? = some th ∧ th.prog = .call e k ∧
        Answers t (c.others t) e c.world th.session a r c'.world s := by
  cases h.cameFrom hth' with
  | started => cases hx
  | untouched hth | killed hth | reaped hth => exact Or.inl ⟨_, hth, hx⟩
  | answered hth hp ha =>
    rename_i th e₀ k r₀ s
    rcases List.mem_append.mp hx with hx | hx
    · exact Or.inl ⟨_, hth, hx⟩
    · cases List.mem_singleton.mp hx
      exact Or.inr ⟨th, k, s, hth, hp, ha⟩

/-- The outcome of a POST is one that `deliver` records: an answer, or a failure of httpx. -/
def concluded : Except PyExn HttpResponse → Bool
  | .ok _ => true
  | .error x => (PostResult.errorText 0 x).isSome

/-- A POST goes out when its headers can be encoded; otherwise nobody has an outcome. -/
theorem exec_post_cases (o : Oracle) (req : HttpRequest) (w : World) (s : Session) :
    (req.encodable = true ∧ (exec o (.post req) w s).2.1.posts = w.posts ++ [req]) ∨
      ((exec o (.post req) w s).2.1.posts = w.posts ∧
        concluded (exec o (.post req) w s).1 = false) := by
  rw [exec_post]
  split_ifs with h
  · exact Or.inl ⟨h, rfl⟩
  · exact Or.inr ⟨rfl, rfl⟩

variable {t : ℕ} {others : List Session} {e : Op} {w w' : World} {s s' : Session}

/-- The POSTs after an answer. -/
theorem Answers.posts {r : Except PyExn e.Resp} (h : Answers t others e w s a r w' s') :
    w'.posts = w.posts ∨ ∃ req, e = .post req ∧ req.encodable = true ∧ a.taken = some t ∧
      w'.posts = w.posts ++ [req] := by
  have hexec (o : Oracle) (ha : a.taken = some t) :
      (exec o e w s).2.1.posts = w.posts ∨ ∃ req, e = .post req ∧ req.encodable = true ∧
        a.taken = some t ∧ (exec o e w s).2.1.posts = w.posts ++ [req] := by
    cases he : e.isPost with
    | false => exact Or.inl (posts_exec o he w s)
    | true =>
      cases e with
      | post req =>
        rcases exec_post_cases o req w s with ⟨henc, hposts⟩ | ⟨hposts, -⟩
        · exact Or.inr ⟨req, rfl, henc, ha, hposts⟩
        · exact Or.inl hposts
      | _ => cases he
  cases h with
  | executed o _ => exact hexec o rfl
  | lost => exact Or.inl rfl
  | late o x _ => exact hexec o rfl

/-- A POST with an outcome has gone out. -/
theorem Answers.posts_of_concluded {req : HttpRequest} {r : Except PyExn (Op.Resp (.post req))}
    (h : Answers t others (.post req) w s a r w' s') (hr : concluded r = true) :
    a.taken = some t ∧ w'.posts = w.posts ++ [req] := by
  cases h with
  | executed o _ =>
    rcases exec_post_cases o req w s with ⟨-, hposts⟩ | ⟨-, hsilent⟩
    · exact ⟨rfl, hposts⟩
    · exact Bool.noConfusion (hsilent.symm.trans hr)
  | lost o x => cases x <;> cases hr
  | late o x => cases x <;> cases hr

/-- The POSTs after a step: those before it, and the one of the coroutine whose call was a POST. -/
theorem Stepped.posts (h : Stepped deps c a c') : c'.world.posts = c.world.posts ∨
    ∃ t th req k r s, c.threads[t]? = some th ∧ th.prog = .call (.post req) k ∧
      req.encodable = true ∧ a.taken = some t ∧ c'.world.posts = c.world.posts ++ [req] ∧
      c'.threads[t]? = some (th.answered machine (.post req) r (k r) s) := by
  cases h with
  | started h => cases h <;> exact Or.inl rfl
  | answered hth hp ha =>
    rename_i t th e k r w s
    rcases ha.posts with hsame | ⟨req, rfl, henc, ht, hposts⟩
    · exact Or.inl hsame
    · have hlt : t < c.threads.length := (List.getElem?_eq_some_iff.mp hth).1
      exact Or.inr ⟨t, th, req, k, r, s, hth, hp, henc, ht, hposts, List.getElem?_set_self hlt⟩
  | killed => exact Or.inl rfl
  | reaped => exact Or.inl rfl
  | ticked => exact Or.inl rfl

end steps

/-! ### The POSTs and their runs -/

section ledger

/-- Coroutine `t` has made this call of a POST. -/
def Posted (c : Config) (t : ℕ) (req : HttpRequest) : Prop :=
  ∃ th r, c.threads[t]? = some th ∧ postCall req r ∈ th.trace

/-- The POSTs that went out are those of these coroutines. -/
structure PostLedger (c : Config) (senders : List ℕ) : Prop where
  /-- No coroutine has sent two. -/
  once : senders.Nodup
  /-- They are in the order in which they went out. -/
  posts : List.Forall₂ (Posted c) senders c.world.posts
  encodable : ∀ req ∈ c.world.posts, req.encodable = true
  /-- A coroutine whose POST has an outcome is one of them. -/
  concluded : ∀ t th req r, c.threads[t]? = some th → postCall req r ∈ th.trace →
    concluded r = true → t ∈ senders

theorem Posted.step {t : ℕ} {req : HttpRequest} (h : Posted c t req) (hs : Stepped deps c a c') :
    Posted c' t req := by
  obtain ⟨th, r, hth, hmem⟩ := h
  obtain ⟨th', hth', hprefix, -⟩ := hs.kept hth
  exact ⟨th', r, hth', hprefix.subset hmem⟩

/-- A coroutine whose next call is a POST has not made one. -/
theorem Reaches.not_posted (h : Reaches deps ok c) {t : ℕ} (hth : c.threads[t]? = some th)
    {req : HttpRequest} {k : Except PyExn HttpResponse → Relay Reply}
    (hp : th.prog = .call (.post req) k) (req' : HttpRequest) : ¬ Posted c t req' := by
  rintro ⟨th', r, hth', hmem⟩
  rw [hth] at hth'
  cases hth'
  have hm := List.mem_of_getElem? hth
  obtain ⟨id, -, hd⟩ := h.dispatching hm hp rfl
  obtain ⟨id', ev, ep, rest, -, -, htrace⟩ := h.posting hm hmem
  rw [htrace] at hd
  cases hd

/-- **The POSTs that went out are those of different coroutines.** -/
theorem Reaches.postLedger (h : Reaches deps ok c) : ∃ senders, PostLedger c senders := by
  refine h.invariant (J := fun c => ∃ senders, PostLedger c senders)
    (fun _ => ⟨[], List.nodup_nil, .nil, fun _ hreq => (nomatch hreq),
      fun _ _ _ _ hth => nomatch hth⟩) fun c a c' hr hc _ hs => ?_
  obtain ⟨senders, hledger⟩ := hc
  have hstep := stepped hs
  have hbefore := hledger.posts.imp fun _ _ hposted => hposted.step hstep
  rcases hstep.posts with hsame | ⟨t, th, req, k, r, s, hth, hp, henc, ht, hposts, hth'⟩
  · refine ⟨senders, hledger.once, hsame ▸ hbefore, hsame ▸ hledger.encodable, ?_⟩
    intro u uh req r huh hmem hconcluded
    rcases hstep.mem_trace huh hmem with ⟨uh₀, huh₀, hmem₀⟩ | ⟨uh₀, k, s, -, -, ha⟩
    · exact hledger.concluded u uh₀ req r huh₀ hmem₀ hconcluded
    · have hposts := (ha.posts_of_concluded hconcluded).2
      rw [hsame] at hposts
      simp at hposts
  · have hnew : t ∉ senders := by
      intro hmem
      obtain ⟨i, hi, rfl⟩ := List.mem_iff_getElem.mp hmem
      have hlt : i < c.world.posts.length := hledger.posts.length_eq ▸ hi
      exact hr.not_posted hth hp _ (hledger.posts.get hi hlt)
    refine ⟨senders ++ [t], ?_, ?_, ?_, ?_⟩
    · refine hledger.once.append (List.nodup_singleton t) ?_
      simpa using hnew
    · rw [hposts]
      refine List.rel_append hbefore (.cons ⟨_, r, hth', ?_⟩ .nil)
      exact List.mem_append_right _ (List.mem_singleton_self _)
    · rw [hposts]
      intro req' hmem
      rcases List.mem_append.mp hmem with hmem | hmem
      · exact hledger.encodable req' hmem
      · rw [List.mem_singleton.mp hmem]
        exact henc
    · intro u uh req' r' huh hmem hconcluded
      rcases hstep.mem_trace huh hmem with ⟨uh₀, huh₀, hmem₀⟩ | ⟨uh₀, k, s, -, -, ha⟩
      · exact List.mem_append_left _ (hledger.concluded u uh₀ req' r' huh₀ hmem₀ hconcluded)
      · have hu := (ha.posts_of_concluded hconcluded).1
        rw [ht] at hu
        cases hu
        exact List.mem_append_right _ (List.mem_singleton_self t)

end ledger

/-! ### The rows of a run -/

section rows

/-- The event as it was committed at some time, and its endpoint as it was committed then or
later. -/
def CommittedRows (wal : List Write) (id : UUID) (ev : WebhookEvent) (ep : WebhookEndpoint) :
    Prop :=
  ∃ past later, past <+: later ∧ later <+: wal ∧
    (Db.empty.applyAll past).events.get? id = some ev ∧
    (Db.empty.applyAll later).endpoints.get? ev.endpointId = some ep

theorem CommittedRows.mono {wal wal' : List Write} {id : UUID} {ev : WebhookEvent}
    {ep : WebhookEndpoint} (h : CommittedRows wal id ev ep) (hwal : wal <+: wal') :
    CommittedRows wal' id ev ep := by
  obtain ⟨past, later, hpast, hlater, hrows⟩ := h
  exact ⟨past, later, hpast, hlater.trans hwal, hrows⟩

/-- A run reads its event before it has written anything. -/
theorem Reaches.pending_of_load (h : Reaches deps ok c) (hth : th ∈ c.threads) {id : UUID}
    {k : Except PyExn (Op.Resp (.getEventWithEndpoint id)) → Relay Reply}
    (hp : th.prog = .call (.getEventWithEndpoint id) k) : th.session.pending = [] := by
  obtain ⟨id', ho, -⟩ := h.dispatching hth hp rfl
  have hallow : Phase.allows id' (Coroutine.phase th) (.getEventWithEndpoint id) :=
    (h.follows_deliver hth ho).allows hp
  rw [(h.lawful th hth).delivers id' ho (by rw [hp]; rfl)]
  cases hphase : Coroutine.phase th with
  | loaded ev ep ws =>
    rw [hphase] at hallow
    cases hallow.1
  | _ => rfl

/-- The rows that are read are those committed. -/
theorem Reaches.row_loaded (h : Reaches deps ok c) (hth : th ∈ c.threads) {id : UUID}
    {k : Except PyExn (Op.Resp (.getEventWithEndpoint id)) → Relay Reply}
    (hp : th.prog = .call (.getEventWithEndpoint id) k) {t : ℕ} {others : List Session}
    {w : World} {s : Session} {ev : WebhookEvent} {ep : WebhookEndpoint}
    (ha : Answers t others (.getEventWithEndpoint id) c.world th.session a
      (.ok (some (ev, some ep))) w s) :
    c.world.db.events.get? id = some ev ∧ c.world.db.endpoints.get? ev.endpointId = some ep := by
  obtain ⟨o, -, hexec⟩ := ha.of_ok
  have hread : (c.world.view th.session).eventWithEndpoint id = some (ev, some ep) :=
    Except.ok.inj (congrArg Prod.fst hexec)
  rw [view_of_pending (h.pending_of_load hth hp)] at hread
  obtain ⟨row, hrow, hpair⟩ := Option.map_eq_some_iff.mp hread
  obtain ⟨rfl, hendpoint⟩ := Prod.mk.inj hpair
  exact ⟨hrow, hendpoint⟩

/-- **The rows that a run has read were committed.** -/
theorem Reaches.rows_read (h : Reaches deps ok c) : ∀ th ∈ c.threads, ∀ id ev ep,
    readCall id ev ep ∈ th.trace → CommittedRows c.world.wal id ev ep := by
  refine h.invariant (J := fun c => ∀ th ∈ c.threads, ∀ id ev ep,
    readCall id ev ep ∈ th.trace → CommittedRows c.world.wal id ev ep)
    (fun _ _ hth => nomatch hth) fun c a c' hr hc _ hs th' hth' id ev ep hmem => ?_
  have hgrow := (stepped hs).wal_grows
  obtain ⟨t, hth'⟩ := List.mem_iff_getElem?.mp hth'
  rcases (stepped hs).mem_trace hth' hmem with ⟨th, hth, hmem⟩ | ⟨th, k, s, hth, hp, ha⟩
  · exact (hc th (List.mem_of_getElem? hth) id ev ep hmem).mono hgrow
  · obtain ⟨hrow, hendpoint⟩ := hr.row_loaded (List.mem_of_getElem? hth) hp ha
    exact ⟨c.world.wal, c.world.wal, List.prefix_rfl, hgrow, hrow, hendpoint⟩

/-- Coroutine `t` has sent the request: it delivers an event, has read it with its endpoint, was
allowed to send it, and the request is the one for these rows. -/
def SentBy (deps : Deps) (c : Config) (t : ℕ) (req : HttpRequest) : Prop :=
  ∃ th id ev ep r rest, c.threads[t]? = some th ∧ th.origin.delivers = some id ∧
    transcript Op.tells th.trace = readCall id ev ep :: allowedCall ep :: postCall req r :: rest ∧
    CommittedRows c.world.wal id ev ep ∧ Authorised deps.crypto ev ep req

/-- A coroutine that has made the call of a POST was to send it. -/
theorem Reaches.sentBy (h : Reaches deps ok c) {t : ℕ} {req : HttpRequest}
    (hposted : Posted c t req) : SentBy deps c t req := by
  obtain ⟨th, r, hth, hmem⟩ := hposted
  have hm := List.mem_of_getElem? hth
  obtain ⟨id, ev, ep, rest, ho, hauth, htrace⟩ := h.posting hm hmem
  refine ⟨th, id, ev, ep, r, rest, hth, ho, htrace, ?_, hauth⟩
  refine h.rows_read th hm id ev ep ((mem_told rfl).mp ?_)
  rw [htrace]
  exact List.mem_cons_self

end rows

/-- **Every POST is accounted for.** In every reachable state the POSTs that went out are those of
different coroutines, one each, in the order in which they went out. Each of these delivers an
event that it had read, not terminal and with an active endpoint, as they were committed; the
circuit breaker had let it pass, and the request is the one for these rows. A coroutine whose POST
has an outcome is among them. -/
theorem posts_accounted (h : Reaches deps ok c) : ∃ senders : List ℕ, senders.Nodup ∧
    List.Forall₂ (SentBy deps c) senders c.world.posts ∧
    (∀ req ∈ c.world.posts, req.encodable = true) ∧
    ∀ t th req r, c.threads[t]? = some th → postCall req r ∈ th.trace → concluded r = true →
      t ∈ senders := by
  obtain ⟨senders, hledger⟩ := h.postLedger
  exact ⟨senders, hledger.once, hledger.posts.imp fun _ _ hposted => h.sentBy hposted,
    hledger.encodable, hledger.concluded⟩

/-- Two jobs of one event that each send a POST; the first one is killed before its commit. -/
def killedAfterPost : List Action :=
  Sample.setup Sample.shop Sample.order ++
    Sample.job 2 6 (Sample.oracle 3 (Sample.response 200 [])) ++ [.kill 2] ++
    Sample.job 3 14 (Sample.oracle 3 (Sample.response 200 []))

/-- Both POSTs are accounted for. -/
theorem posts_accounted_killed : ∃ c, Reaches Sample.deps anyStep c ∧ c.world.posts.length = 2 ∧
    ∃ senders : List ℕ, senders.Nodup ∧
      List.Forall₂ (SentBy Sample.deps c) senders c.world.posts ∧
      (∀ req ∈ c.world.posts, req.encodable = true) ∧
      ∀ t th req r, c.threads[t]? = some th → postCall req r ∈ th.trace → concluded r = true →
        t ∈ senders := by
  have hrun : (runActs (step Sample.deps) (fun _ _ => true) (initial Sample.start)
      killedAfterPost).any (fun c => decide (c.world.posts.length = 2)) = true := by
    decide +kernel
  obtain ⟨c, hc, hfacts⟩ := exists_run anyStep (fun _ _ _ => trivial) hrun
  have hreach : Reaches Sample.deps anyStep c := ⟨Sample.start, hc⟩
  exact ⟨c, hreach, of_decide_eq_true hfacts, posts_accounted hreach⟩

/-! ### The attempt log -/

section attempts

/-- The attempt that a statement inserts. -/
def Write.attempt? : Write → Option DeliveryAttempt
  | .insertAttempt row => some row
  | _ => none

/-- The attempt that a call inserts. -/
def Op.attempt? : Op → Option DeliveryAttempt
  | .insertAttempt row => some row
  | _ => none

theorem filterMap_writes (e : Op) : e.writes.filterMap Write.attempt? = e.attempt?.toList := by
  rcases e.writes_cases with hnone | ⟨w, hw, hone⟩
  · rw [hnone]
    cases e <;> first | rfl | cases hnone
  · rw [hone]
    cases hw <;> rfl

/-- The attempts that some calls insert are in their transcript. -/
theorem filterMap_statementsOf (cs : List (Call relay PyExn)) :
    (statementsOf cs).filterMap Write.attempt? =
      (transcript Op.tells cs).filterMap fun x => x.1.attempt? := by
  induction cs with
  | nil => rfl
  | cons x cs ih =>
    show (x.1.writes ++ statementsOf cs).filterMap Write.attempt? = _
    rw [List.filterMap_append, filterMap_writes, ih]
    cases hx : x.1.tells with
    | true =>
      rw [transcript_cons_of_watched hx, List.filterMap_cons]
      cases x.1.attempt? <;> rfl
    | false =>
      rw [transcript_cons_of_free hx]
      have hnone : x.1.attempt? = none := by
        cases hop : x.1 <;> first | rfl | (rw [hop] at hx; cases hx)
      rw [hnone]
      rfl

/-- The rows of the attempt log are those that the statements insert, in their order. -/
theorem attempts_rows {db : Db} {ws : List Write} (h : db.Takes ws) :
    (db.applyAll ws).attempts.rows = db.attempts.rows ++ ws.filterMap Write.attempt? := by
  induction ws generalizing db with
  | nil => exact (List.append_nil _).symm
  | cons w ws ih =>
    rw [Db.applyAll_cons, ih h.2, List.filterMap_cons]
    cases w with
    | insertAttempt row =>
      have hmissing : db.attempts.get? row.id = none :=
        Option.isNone_iff_eq_none.mp (Option.isSome_eq_false_iff.mp (h.1 _ rfl))
      show (db.attempts.insert row).rows ++ _ = db.attempts.rows ++ row :: _
      rw [Table.rows_insert hmissing]
      simp
    | _ => rfl

/-- Coroutine `t` has logged the attempt: the row reports the POST that this coroutine has made, and
its outcome. -/
def LoggedBy (deps : Deps) (c : Config) (t : ℕ) (row : DeliveryAttempt) : Prop :=
  ∃ th id ev ep req r r' rest, c.threads[t]? = some th ∧ th.origin.delivers = some id ∧
    transcript Op.tells th.trace = readCall id ev ep :: allowedCall ep :: postCall req r ::
      ⟨.insertAttempt row, r'⟩ :: rest ∧
    CommittedRows c.world.wal id ev ep ∧ Authorised deps.crypto ev ep req ∧
    row.Reports deps.crypto ev req r

/-- A coroutine inserts at most one attempt, and it is the report of its POST. -/
theorem Reaches.attempt_cases (h : Reaches deps ok c) (t : ℕ) :
    (statementsAt c t).filterMap Write.attempt? = [] ∨
      ∃ row, (statementsAt c t).filterMap Write.attempt? = [row] ∧ LoggedBy deps c t row := by
  cases hth : c.threads[t]? with
  | none =>
    unfold statementsAt
    rw [hth]
    exact Or.inl rfl
  | some th =>
    rw [statementsAt_of_getElem? hth, filterMap_statementsOf]
    have hm := List.mem_of_getElem? hth
    cases hrows : (transcript Op.tells th.trace).filterMap fun x => x.1.attempt? with
    | nil => exact Or.inl rfl
    | cons row rows =>
      have hrow : row ∈ (transcript Op.tells th.trace).filterMap fun x => x.1.attempt? := by
        rw [hrows]
        exact List.mem_cons_self
      obtain ⟨⟨e, r'⟩, hx, hattempt⟩ := List.mem_filterMap.mp hrow
      obtain rfl : e = .insertAttempt row := by
        cases e <;> first | cases hattempt; rfl | cases hattempt
      have hmem := List.mem_of_mem_filter hx
      obtain ⟨id, ev, ep, req, r, rest, ho, hauth, hreports, htrace⟩ := h.logging hm hmem
      refine Or.inr ⟨row, ?_, th, id, ev, ep, req, r, r', rest, hth, ho, htrace, ?_, hauth,
        hreports⟩
      · -- a second insert would come after the first one
        have hlast : rest.filterMap (fun x => x.1.attempt?) = [] := by
          refine List.filterMap_eq_nil_iff.mpr fun y hy => ?_
          obtain ⟨pre, post, rfl⟩ := List.append_of_mem hy
          have hsplit : transcript Op.tells th.trace = (readCall id ev ep :: allowedCall ep ::
              postCall req r :: ⟨.insertAttempt row, r'⟩ :: pre) ++ y :: post := htrace
          obtain ⟨id', -, hd⟩ := h.dispatched hm (e := y.1) (r := y.2) hsplit
          generalize y.1 = e at hd
          cases hd <;> rfl
        rw [← hrows, htrace]
        show row :: rest.filterMap (fun x => x.1.attempt?) = _
        rw [hlast]
      · refine h.rows_read th hm id ev ep ((mem_told rfl).mp ?_)
        rw [htrace]
        exact List.mem_cons_self

/-- The rows of the attempt log are those of the coroutines that have committed, in their order. -/
theorem Reaches.attempts_flatMap (h : Reaches deps ok c) {order : List ℕ}
    (hledger : Ledger c order) : c.world.db.attempts.rows =
      order.flatMap fun t => (statementsAt c t).filterMap Write.attempt? := by
  rw [World.db, attempts_rows h.takes.1, hledger.log, List.filterMap_flatMap]
  rfl

/-- Every row of the attempt log was logged by a coroutine. -/
theorem Reaches.exists_logged (h : Reaches deps ok c) {row : DeliveryAttempt}
    (hrow : row ∈ c.world.db.attempts.rows) : ∃ t, LoggedBy deps c t row := by
  obtain ⟨order, hledger⟩ := h.ledger
  rw [h.attempts_flatMap hledger] at hrow
  obtain ⟨t, -, hrow⟩ := List.mem_flatMap.mp hrow
  rcases h.attempt_cases t with hnone | ⟨row', hone, hlogged⟩
  · rw [hnone] at hrow
    cases hrow
  · rw [hone] at hrow
    rw [List.mem_singleton.mp hrow]
    exact ⟨t, hlogged⟩

/-- A coroutine that has sent a POST and is one of those that have committed has inserted an
attempt. -/
theorem Reaches.attempt_of_committed (h : Reaches deps ok c) {order : List ℕ}
    (htransactions : Transactions c order) {t : ℕ} (ht : t ∈ order) {req : HttpRequest}
    (hsent : SentBy deps c t req) : (statementsAt c t).filterMap Write.attempt? ≠ [] := by
  obtain ⟨th, id, ev, ep, r, rest, hth, -, htrace, -⟩ := hsent
  obtain ⟨th', hth', r', pre, post, hwhole, -⟩ := htransactions.whole t ht
  rw [hth] at hth'
  cases hth'
  have hpost : postCall req r ∈ th.trace := by
    refine (mem_told rfl).mp ?_
    rw [htrace]
    simp
  have hcommit : (⟨.commit, r'⟩ : Call relay PyExn) ∈ th.trace := by
    rw [hwhole]
    exact List.mem_append_right _ List.mem_cons_self
  obtain ⟨row, r'', hmem⟩ := h.logged_of_committed (List.mem_of_getElem? hth) hpost hcommit
  rw [statementsAt_of_getElem? hth, filterMap_statementsOf]
  exact List.ne_nil_of_mem (List.mem_filterMap.mpr ⟨_, (mem_told rfl).mpr hmem, rfl⟩)

/-- A list of lists with at most one thing each, along the places that have one. -/
theorem exists_forall₂_flatMap {α β : Type} {R : α → β → Prop} {f : α → List β} (l : List α)
    (hf : ∀ x, f x = [] ∨ ∃ y, f x = [y] ∧ R x y) :
    ∃ l', l'.Sublist l ∧ List.Forall₂ R l' (l.flatMap f) ∧ ∀ x ∈ l, f x ≠ [] → x ∈ l' := by
  induction l with
  | nil => exact ⟨[], .slnil, .nil, fun _ hx => nomatch hx⟩
  | cons x l ih =>
    obtain ⟨l', hsub, hl', hmem⟩ := ih
    rw [List.flatMap_cons]
    rcases hf x with hnone | ⟨y, hone, hR⟩
    · rw [hnone]
      exact ⟨l', hsub.cons x, hl', List.forall_mem_cons.mpr ⟨fun hx => absurd hnone hx, hmem⟩⟩
    · rw [hone]
      exact ⟨x :: l', hsub.cons_cons x, .cons hR hl', List.forall_mem_cons.mpr
        ⟨fun _ => List.mem_cons_self, fun y hy hne => List.mem_cons_of_mem _ (hmem y hy hne)⟩⟩

end attempts

/-- **The attempt log is truthful.** In every reachable state its rows are those of different
coroutines, one each, in the order of the commits. Each of these coroutines is the sender of a POST
that went out, and its row reports this request and the outcome it had: the number of the attempt,
the hash of the body, the headers without the signature, and what `deliver` makes of the answer. A
sender that has no row is none of the coroutines whose transactions are the log: it has not
committed. -/
theorem attempts_truthful (h : Reaches deps ok c) : ∃ committed senders loggers : List ℕ,
    Transactions c committed ∧
      senders.Nodup ∧ List.Forall₂ (SentBy deps c) senders c.world.posts ∧
      loggers.Nodup ∧ loggers ⊆ senders ∧
      List.Forall₂ (LoggedBy deps c) loggers c.world.db.attempts.rows ∧
      ∀ t ∈ senders, t ∉ loggers → t ∉ committed := by
  obtain ⟨senders, hposts⟩ := h.postLedger
  obtain ⟨committed, hledger⟩ := h.ledger
  have htransactions := h.transactions hledger
  obtain ⟨loggers, hsub, hlogged, hall⟩ := exists_forall₂_flatMap committed h.attempt_cases
  have hrows := h.attempts_flatMap hledger
  have hsentBy := hposts.posts.imp fun _ _ hposted => h.sentBy hposted
  refine ⟨committed, senders, loggers, htransactions, hposts.once, hsentBy,
    hledger.once.sublist hsub, fun t ht => ?_, hrows ▸ hlogged, fun t ht hnone hcommitted => ?_⟩
  swap
  · obtain ⟨i, hi, rfl⟩ := List.mem_iff_getElem.mp ht
    have hsent := hsentBy.get hi (hsentBy.length_eq ▸ hi)
    exact hnone (hall _ hcommitted (h.attempt_of_committed htransactions hcommitted hsent))
  -- what is reported has an outcome
  obtain ⟨i, hi, rfl⟩ := List.mem_iff_getElem.mp ht
  obtain ⟨th, id, ev, ep, req, r, r', rest, hth, -, htrace, -, -, hreports⟩ :=
    hlogged.get hi (hlogged.length_eq ▸ hi)
  have hmem : postCall req r ∈ th.trace := by
    refine (mem_told rfl).mp ?_
    rw [htrace]
    simp
  refine hposts.concluded _ th req r hth hmem ?_
  obtain ⟨p, hp, -⟩ := hreports.outcome
  cases r with
  | ok v => rfl
  | error x => cases x <;> first | rfl | cases hp

/-- One of the two POSTs has been logged. -/
theorem attempts_truthful_killed : ∃ c, Reaches Sample.deps anyStep c ∧
    c.world.posts.length = 2 ∧ c.world.db.attempts.rows.length = 1 ∧
    ∃ committed senders loggers : List ℕ, Transactions c committed ∧ senders.Nodup ∧
      List.Forall₂ (SentBy Sample.deps c) senders c.world.posts ∧
      loggers.Nodup ∧ loggers ⊆ senders ∧
      List.Forall₂ (LoggedBy Sample.deps c) loggers c.world.db.attempts.rows ∧
      ∀ t ∈ senders, t ∉ loggers → t ∉ committed := by
  have hrun : (runActs (step Sample.deps) (fun _ _ => true) (initial Sample.start)
      killedAfterPost).any (fun c => decide (c.world.posts.length = 2 ∧
        c.world.db.attempts.rows.length = 1)) = true := by
    decide +kernel
  obtain ⟨c, hc, hfacts⟩ := exists_run anyStep (fun _ _ _ => trivial) hrun
  obtain ⟨hposts, hrows⟩ := of_decide_eq_true hfacts
  have hreach : Reaches Sample.deps anyStep c := ⟨Sample.start, hc⟩
  exact ⟨c, hreach, hposts, hrows, attempts_truthful hreach⟩

end WebhookRelay
