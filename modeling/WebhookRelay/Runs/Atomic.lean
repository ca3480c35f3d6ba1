import WebhookRelay.Runs.Transactions

/-!
# The log of committed writes is a list of whole transactions

What the contract of one transaction gives for the system, under every interleaving and whatever
fails. Each coroutine of a reachable state has in its session the statements it has made
(`Reaches.session_eq`), so a commit appends all of them to the log at once, and no coroutine
commits twice.

* `transactions_atomic`: the log is the concatenation of the transactions of different coroutines,
  each of them whole; a coroutine that was answered its commit is among them, and one that failed
  before its commit, or was cut off, has left nothing.
* `completed_kept`: a request that has run to its end, `get_db` included, has committed, and the
  events that it reports stay in the table, with the content that it reports.
-/

namespace WebhookRelay

open Data Effect

variable {deps : Deps} {ok : Config → Action → Prop} {c c' : Config} {a : Action}
  {th : Coroutine}

/-! ### The phase of a coroutine -/

/-- How far the transaction of a coroutine has come. -/
def Coroutine.txn (th : Coroutine) : Txn := txnContract.run (.building [] []) th.trace

theorem Coroutine.txn_answered (th : Coroutine) (e : Op) (r : Except PyExn e.Resp)
    (p : Relay Reply) (s : Session) :
    Coroutine.txn (th.answered machine e r p s) = (Coroutine.txn th).next e r := by
  unfold Coroutine.txn
  simp only [Thread.answered, Contract.run_append_singleton]
  rfl

/-- The coroutine has asked for its commit. -/
def Txn.isClosed : Txn → Prop
  | .committed _ _ => True
  | .inDoubt _ => True
  | _ => False

/-- What a coroutine does next is allowed by the contract. -/
theorem Reaches.txn_allows (h : Reaches deps ok c) (hth : th ∈ c.threads) {e : Op}
    {k : Except PyExn e.Resp → Relay Reply} (hp : th.prog = .call e k) :
    (Coroutine.txn th).allows e := by
  rcases (h.obeys hth (program_transacts deps th.origin)).2 with hobeys | hcut
  · rw [hp] at hobeys
    exact hobeys.1
  · rw [hp] at hcut
    cases hcut

/-- No call raises an exception that only a replay raises. -/
theorem Reaches.txn_ne_lost (h : Reaches deps ok c) :
    ∀ th ∈ c.threads, Coroutine.txn th ≠ .lost := by
  refine h.invariant (J := fun c => ∀ th ∈ c.threads, Coroutine.txn th ≠ .lost)
    (fun _ _ hth => nomatch hth) fun c a c' hr hc _ hs => ?_
  refine (stepped hs).forall_threads hc (fun _ _ _ _ h => h) (fun _ _ _ h => nomatch h) ?_
    (fun _ _ h => h) fun _ _ _ _ _ _ h => h
  intro t th e k r w s _ _ ha _ hth
  rw [Coroutine.txn_answered]
  intro hlost
  cases r with
  | ok v =>
    change (Coroutine.txn th).answered e v = .lost at hlost
    unfold Txn.answered at hlost
    split at hlost
    · split_ifs at hlost
    · exact hth hlost
  | error x =>
    change (if ReplayService.countedError x then Txn.lost else (Coroutine.txn th).failed e) = .lost
      at hlost
    rw [ha.countedError] at hlost
    simp only [Bool.false_eq_true, if_false] at hlost
    unfold Txn.failed at hlost
    split at hlost
    · split_ifs at hlost
    · exact hth hlost

/-- An exception of a call counts as a failed call. -/
theorem Answers.txn_next {t : ℕ} {others : List Session} {e : Op} {w w' : World} {s s' : Session}
    {x : PyExn} (h : Answers t others e w s a (.error x) w' s') (p : Txn) :
    p.next e (.error x) = p.failed e := by
  unfold Txn.next
  dsimp only
  rw [h.countedError]
  rfl

/-! ### The session of a coroutine -/

/-- The session of a coroutine that may still commit has its statements. -/
def Coroutine.Holds (th : Coroutine) : Prop :=
  ∀ seen ws, Coroutine.txn th = .building seen ws → th.session.pending = ws

/-- The statements of the session are those of the phase, after an answer too. -/
theorem Answers.holds {t : ℕ} {others : List Session} {e : Op} {w w' : World} {s : Session}
    {r : Except PyExn e.Resp} (h : Answers t others e w th.session a r w' s)
    (hth : Coroutine.Holds th) {seen : List WebhookEvent} {ws : List Write}
    (hnext : (Coroutine.txn th).next e r = .building seen ws) : s.pending = ws := by
  cases r with
  | ok v =>
    change (Coroutine.txn th).answered e v = .building seen ws at hnext
    cases hp : Coroutine.txn th with
    | building seen₀ ws₀ =>
      rw [hp] at hnext
      cases hc : e.isCommit with
      | true => simp [Txn.answered, hc] at hnext
      | false =>
        rw [Txn.answered_building hc] at hnext
        obtain ⟨-, rfl⟩ := Txn.building.inj hnext
        rcases h.pending hc with ⟨hs, -⟩ | ⟨-, x, hx⟩
        · rw [hs, hth _ _ hp]
        · cases hx
    | _ =>
      rw [hp] at hnext
      cases hnext
  | error x =>
    rw [h.txn_next] at hnext
    cases hp : Coroutine.txn th with
    | building seen₀ ws₀ =>
      rw [hp] at hnext
      unfold Txn.failed at hnext
      dsimp only at hnext
      split_ifs at hnext with hc hw
      obtain ⟨-, rfl⟩ := Txn.building.inj hnext
      -- a call that makes no statement leaves the session alone
      rcases h.pending (by simpa using hc) with ⟨hs, -⟩ | ⟨hs, -⟩
      · rw [hs, hth _ _ hp, List.isEmpty_iff.mp hw, List.append_nil]
      · rw [hs, hth _ _ hp]
    | _ =>
      rw [hp] at hnext
      cases hnext

/-- **A coroutine that has not ended has in its session what it has written**, unless a statement
has failed or it has asked for its commit. -/
theorem Reaches.session_eq (h : Reaches deps ok c) :
    ∀ th ∈ c.threads, th.prog.ended = false → Coroutine.Holds th := by
  refine h.invariant (J := fun c => ∀ th ∈ c.threads, th.prog.ended = false → Coroutine.Holds th)
    (fun _ _ hth => nomatch hth) fun c a c' hr hc _ hs => ?_
  refine (stepped hs).forall_threads hc (fun _ _ _ _ h => h) ?_ ?_ ?_ fun _ _ _ _ _ _ h => h
  · intro o w _ _ seen ws hstart
    obtain ⟨-, rfl⟩ := Txn.building.inj hstart
    rfl
  · intro t th e k r w s _ hp ha _ hth hend seen ws hnext
    have hsession : (th.answered machine e r (k r) s).session = s :=
      if_neg (by rw [show (k r).ended = false from hend]; decide)
    rw [Coroutine.txn_answered] at hnext
    rw [hsession]
    exact ha.holds (hth (by rw [hp]; rfl)) hnext
  · exact fun _ _ _ hend => nomatch hend

/-- A coroutine whose next call is a commit has built its whole transaction. -/
theorem Reaches.txn_of_commit (h : Reaches deps ok c) (hth : th ∈ c.threads)
    {k : Except PyExn Unit → Relay Reply} (hp : th.prog = .call .commit k) :
    ∃ seen, Coroutine.txn th = .building seen th.session.pending := by
  have hallow := h.txn_allows hth hp
  have hholds := h.session_eq th hth (by rw [hp]; rfl)
  cases htxn : Coroutine.txn th with
  | building seen ws =>
    rw [hholds seen ws htxn]
    exact ⟨seen, rfl⟩
  | lost => exact absurd htxn (h.txn_ne_lost th hth)
  | broken =>
    rw [htxn] at hallow
    cases hallow
  | committed seen ws =>
    rw [htxn] at hallow
    cases hallow.isCommit
  | inDoubt ws =>
    rw [htxn] at hallow
    cases hallow.isCommit

/-! ### The calls of a coroutine -/

/-- The statements that some calls make, in order. -/
def statementsOf (cs : List (Call relay PyExn)) : List Write := cs.flatMap fun x => x.1.writes

/-- The calls make statements that all succeed, and do not commit. -/
def Building (cs : List (Call relay PyExn)) : Prop :=
  ∀ x ∈ cs, x.1.isCommit = false ∧ (x.1.writes ≠ [] → x.2.isOk = true)

/-- The calls are a whole transaction, with `r` as the answer to its commit. -/
def Whole (cs : List (Call relay PyExn)) (r : Except PyExn Unit) : Prop :=
  ∃ pre post, cs = pre ++ ⟨Op.commit, r⟩ :: post ∧ Building pre ∧ ∀ x ∈ post, x.1.Idle

/-- What a phase says about the calls that have led to it. -/
def Txn.Shape (cs : List (Call relay PyExn)) : Txn → Prop
  | .building _ ws => Building cs ∧ statementsOf cs = ws
  | .committed _ ws => Whole cs (.ok ()) ∧ statementsOf cs = ws
  | .inDoubt ws => (∃ x, Whole cs (.error x)) ∧ statementsOf cs = ws
  | .broken => ∀ x ∈ cs, x.1.isCommit = false
  | .lost => True

section shape

variable {cs : List (Call relay PyExn)} {p : Txn} {e : Op}

theorem statementsOf_append_singleton (cs : List (Call relay PyExn)) (x : Call relay PyExn) :
    statementsOf (cs ++ [x]) = statementsOf cs ++ x.1.writes := by
  simp [statementsOf]

theorem Building.append (h : Building cs) {x : Call relay PyExn} (hc : x.1.isCommit = false)
    (hok : x.1.writes ≠ [] → x.2.isOk = true) : Building (cs ++ [x]) := by
  intro y hy
  rcases List.mem_append.mp hy with hy | hy
  · exact h y hy
  · rw [List.mem_singleton.mp hy]
    exact ⟨hc, hok⟩

theorem Whole.append {r : Except PyExn Unit} (h : Whole cs r) {x : Call relay PyExn}
    (hx : x.1.Idle) : Whole (cs ++ [x]) r := by
  obtain ⟨pre, post, rfl, hpre, hpost⟩ := h
  refine ⟨pre, post ++ [x], by simp, hpre, fun y hy => ?_⟩
  rcases List.mem_append.mp hy with hy | hy
  · exact hpost y hy
  · rw [List.mem_singleton.mp hy]
    exact hx

/-- Only a transaction that is being built changes its phase. -/
theorem Txn.next_eq_self (hp : ∀ seen ws, p ≠ .building seen ws) {r : Except PyExn e.Resp}
    (hnext : ∀ x, r = .error x → p.next e (.error x) = p.failed e) : p.next e r = p := by
  have hsame : (∀ v, p.answered e v = p) ∧ p.failed e = p := by
    cases p with
    | building seen ws => exact absurd rfl (hp seen ws)
    | _ => exact ⟨fun _ => rfl, rfl⟩
  cases r with
  | ok v => exact hsame.1 v
  | error x => rw [hnext x rfl, hsame.2]

/-- One more call. -/
theorem Txn.Shape.answered (h : p.Shape cs) (hallow : p.allows e) (r : Except PyExn e.Resp)
    (hnext : ∀ x, r = .error x → p.next e (.error x) = p.failed e) :
    (p.next e r).Shape (cs ++ [⟨e, r⟩]) := by
  have hidle (he : e.Idle) : statementsOf (cs ++ [⟨e, r⟩]) = statementsOf cs := by
    rw [statementsOf_append_singleton, he.writes, List.append_nil]
  cases p with
  | building seen ws =>
    obtain ⟨hbuilding, hws⟩ := h
    by_cases hc : e.isCommit = true
    · obtain rfl : e = .commit := by cases e <;> first | rfl | cases hc
      have hwhole : Whole (cs ++ [⟨Op.commit, r⟩]) r :=
        ⟨cs, [], rfl, hbuilding, fun _ hx => nomatch hx⟩
      have hstatements : statementsOf (cs ++ [⟨Op.commit, r⟩]) = ws := by
        rw [statementsOf_append_singleton, hws]
        exact List.append_nil ws
      cases r with
      | ok v => exact ⟨hwhole, hstatements⟩
      | error x =>
        rw [hnext x rfl]
        exact ⟨⟨x, hwhole⟩, hstatements⟩
    · rw [Bool.not_eq_true] at hc
      cases r with
      | ok v =>
        show (Txn.answered (.building seen ws) e v).Shape _
        rw [Txn.answered_building hc]
        exact ⟨hbuilding.append hc fun _ => rfl, by rw [statementsOf_append_singleton, hws]⟩
      | error x =>
        rw [hnext x rfl]
        unfold Txn.failed
        dsimp only
        rw [hc]
        simp only [Bool.false_eq_true, if_false]
        split_ifs with hw
        · have hwrites := List.isEmpty_iff.mp hw
          refine ⟨hbuilding.append hc fun hne => absurd hwrites hne, ?_⟩
          rw [hidle ⟨hc, hwrites⟩, hws]
        · exact fun x hx => (List.mem_append.mp hx).elim (fun hx => (hbuilding x hx).1)
            fun hx => List.mem_singleton.mp hx ▸ hc
  | committed seen ws =>
    rw [Txn.next_eq_self (fun _ _ => Txn.noConfusion) hnext]
    exact ⟨h.1.append hallow, (hidle hallow).trans h.2⟩
  | inDoubt ws =>
    rw [Txn.next_eq_self (fun _ _ => Txn.noConfusion) hnext]
    exact ⟨h.1.imp fun _ hx => hx.append hallow, (hidle hallow).trans h.2⟩
  | broken =>
    rw [Txn.next_eq_self (fun _ _ => Txn.noConfusion) hnext]
    exact fun x hx => (List.mem_append.mp hx).elim (h x) fun hx => List.mem_singleton.mp hx ▸ hallow
  | lost =>
    rw [Txn.next_eq_self (fun _ _ => Txn.noConfusion) hnext]
    trivial

/-- A commit that was answered has committed the transaction. -/
theorem Txn.Shape.committed (h : p.Shape cs) (hlost : p ≠ .lost)
    (hmem : (⟨Op.commit, .ok ()⟩ : Call relay PyExn) ∈ cs) : ∃ seen ws, p = .committed seen ws := by
  cases p with
  | committed seen ws => exact ⟨seen, ws, rfl⟩
  | lost => exact absurd rfl hlost
  | building seen ws => cases (h.1 _ hmem).1
  | broken => cases h _ hmem
  | inDoubt ws =>
    obtain ⟨⟨x, pre, post, rfl, hpre, hpost⟩, -⟩ := h
    rcases List.mem_append.mp hmem with hmem | hmem
    · cases (hpre _ hmem).1
    · rcases List.mem_cons.mp hmem with hmem | hmem
      · cases hmem
      · cases (hpost _ hmem).isCommit

end shape

/-- The calls of a coroutine are as its phase says. -/
theorem Reaches.txn_shape (h : Reaches deps ok c) :
    ∀ th ∈ c.threads, (Coroutine.txn th).Shape th.trace := by
  refine h.invariant (J := fun c => ∀ th ∈ c.threads, (Coroutine.txn th).Shape th.trace)
    (fun _ _ hth => nomatch hth) fun c a c' hr hc _ hs => ?_
  refine (stepped hs).forall_threads hc (fun _ _ _ _ h => h) ?_ ?_ (fun _ _ h => h)
    fun _ _ _ _ _ _ h => h
  · exact fun _ _ _ => ⟨fun _ hx => (nomatch hx), rfl⟩
  · intro t th e k r w s hth hp ha _ hshape
    rw [Coroutine.txn_answered]
    refine hshape.answered (hr.txn_allows (List.mem_of_getElem? hth) hp) r ?_
    rintro x rfl
    exact ha.txn_next _

/-- The statements of a session are some that its coroutine has made. -/
theorem Reaches.pending_stated (h : Reaches deps ok c) :
    ∀ th ∈ c.threads, ∀ x ∈ th.session.pending, x ∈ statementsOf th.trace := by
  refine h.invariant (J := fun c => ∀ th ∈ c.threads, ∀ x ∈ th.session.pending,
    x ∈ statementsOf th.trace) (fun _ _ hth => nomatch hth) fun c a c' _ hc _ hs => ?_
  refine (stepped hs).forall_threads hc (fun _ _ _ _ h => h) (fun _ _ _ _ hx => nomatch hx) ?_
    (fun _ _ _ _ hx => nomatch hx) fun _ _ _ _ _ _ h => h
  intro t th e k r w s _ _ ha _ hth x hx
  show x ∈ statementsOf (th.trace ++ [⟨e, r⟩])
  rw [statementsOf_append_singleton]
  change x ∈ (if (k r).ended then Session.fresh else s).pending at hx
  split_ifs at hx
  · cases hx
  · exact List.mem_append.mpr ((ha.mem_pending hx).imp_left (hth x))

/-! ### The log -/

/-- The statements that a coroutine has made. -/
def statementsAt (c : Config) (t : ℕ) : List Write :=
  (c.threads[t]?.map fun th => statementsOf th.trace).getD []

theorem statementsAt_of_getElem? {t : ℕ} (hth : c.threads[t]? = some th) :
    statementsAt c t = statementsOf th.trace := by
  unfold statementsAt
  rw [hth]
  rfl

/-- The log is the transactions of these coroutines. -/
structure Transactions (c : Config) (order : List ℕ) : Prop where
  /-- No coroutine commits twice. -/
  once : order.Nodup
  /-- The log is their statements, in this order. -/
  log : c.world.wal = order.flatMap (statementsAt c)
  /-- Each of them has made a whole transaction. -/
  whole : ∀ t ∈ order, ∃ th, c.threads[t]? = some th ∧ ∃ r, Whole th.trace r
  /-- A coroutine that was answered its commit is one of them. -/
  answered : ∀ t th, c.threads[t]? = some th →
    (⟨Op.commit, .ok ()⟩ : Call relay PyExn) ∈ th.trace → t ∈ order

/-- The same, in terms of the phases. -/
structure Ledger (c : Config) (order : List ℕ) : Prop where
  once : order.Nodup
  log : c.world.wal = order.flatMap (statementsAt c)
  closed : ∀ t ∈ order, ∃ th, c.threads[t]? = some th ∧ (Coroutine.txn th).isClosed
  committed : ∀ t th seen ws, c.threads[t]? = some th → Coroutine.txn th = .committed seen ws →
    t ∈ order

/-- A transaction that is closed stays as it is. -/
theorem Reaches.closed_kept (h : Reaches deps ok c) (hs : step deps c a = some c') {t : ℕ}
    (hth : c.threads[t]? = some th) (hclosed : (Coroutine.txn th).isClosed) :
    ∃ th', c'.threads[t]? = some th' ∧ Coroutine.txn th' = Coroutine.txn th ∧
      statementsAt c' t = statementsAt c t := by
  have hsame {th' : Coroutine} (hth' : c'.threads[t]? = some th') (htrace : th'.trace = th.trace) :
      ∃ th', c'.threads[t]? = some th' ∧ Coroutine.txn th' = Coroutine.txn th ∧
        statementsAt c' t = statementsAt c t := by
    refine ⟨th', hth', ?_, ?_⟩
    · rw [Coroutine.txn, htrace, Coroutine.txn]
    · rw [statementsAt_of_getElem? hth', statementsAt_of_getElem? hth, htrace]
  have hlt : t < c.threads.length := (List.getElem?_eq_some_iff.mp hth).1
  have hthere : ∃ th', c'.threads[t]? = some th' := by
    cases stepped hs with
    | started => exact ⟨th, by rw [List.getElem?_append_left hlt, hth]⟩
    | ticked => exact ⟨th, hth⟩
    | _ => exact ⟨_, List.getElem?_eq_getElem (by rw [List.length_set]; exact hlt)⟩
  obtain ⟨th', hth'⟩ := hthere
  cases (stepped hs).cameFrom hth' with
  | untouched hth₀ =>
    rw [hth] at hth₀
    cases hth₀
    exact hsame hth' rfl
  | started hstart ht =>
    rw [ht] at hlt
    exact absurd hlt (Nat.lt_irrefl _)
  | killed hth₀ =>
    rw [hth] at hth₀
    cases hth₀
    exact hsame hth' rfl
  | reaped hth₀ =>
    rw [hth] at hth₀
    cases hth₀
    exact hsame hth' rfl
  | answered hth₀ hp ha =>
    rename_i th₀ e k r s
    rw [hth] at hth₀
    cases hth₀
    have hallow := h.txn_allows (List.mem_of_getElem? hth) hp
    have hidle : e.Idle := by
      cases htxn : Coroutine.txn th with
      | committed seen ws =>
        rw [htxn] at hallow
        exact hallow
      | inDoubt ws =>
        rw [htxn] at hallow
        exact hallow
      | _ =>
        rw [htxn] at hclosed
        exact hclosed.elim
    refine ⟨_, hth', ?_, ?_⟩
    · rw [Coroutine.txn_answered]
      refine Txn.next_eq_self ?_ ?_
      · intro seen ws hbuilding
        rw [hbuilding] at hclosed
        exact hclosed
      · rintro x rfl
        exact ha.txn_next _
    · rw [statementsAt_of_getElem? hth', statementsAt_of_getElem? hth]
      show statementsOf (th.trace ++ [⟨e, r⟩]) = _
      rw [statementsOf_append_singleton, hidle.writes, List.append_nil]

/-- A transaction that has been committed was before, or is the one that this step commits. -/
theorem Stepped.committed (h : Stepped deps c a c') {t : ℕ}
    (hth : c'.threads[t]? = some th) {seen : List WebhookEvent} {ws : List Write}
    (htxn : Coroutine.txn th = .committed seen ws) :
    (∃ th₀, c.threads[t]? = some th₀ ∧ Coroutine.txn th₀ = .committed seen ws) ∨
      ∃ th₀ k, c.threads[t]? = some th₀ ∧ th₀.prog = .call .commit k ∧ a.taken = some t := by
  cases h.cameFrom hth with
  | untouched hth₀ => exact Or.inl ⟨_, hth₀, htxn⟩
  | started => cases htxn
  | killed hth₀ => exact Or.inl ⟨_, hth₀, htxn⟩
  | reaped hth₀ => exact Or.inl ⟨_, hth₀, htxn⟩
  | answered hth₀ hp ha =>
    rename_i th₀ e k r s
    rw [Coroutine.txn_answered] at htxn
    have hstay (hne : ∀ seen ws, Coroutine.txn th₀ ≠ .building seen ws) :
        Coroutine.txn th₀ = .committed seen ws := by
      rw [← htxn, Txn.next_eq_self hne]
      rintro x rfl
      exact ha.txn_next _
    by_cases hbuilding : ∃ seen ws, Coroutine.txn th₀ = .building seen ws
    · obtain ⟨seen₀, ws₀, hbuilding⟩ := hbuilding
      rw [hbuilding] at htxn
      cases r with
      | error x =>
        rw [ha.txn_next] at htxn
        unfold Txn.failed at htxn
        dsimp only at htxn
        split_ifs at htxn
      | ok v =>
        obtain ⟨o, rfl, -⟩ := ha.of_ok
        cases hc : e.isCommit with
        | false =>
          change (Txn.building seen₀ ws₀).answered e v = _ at htxn
          rw [Txn.answered_building hc] at htxn
          cases htxn
        | true =>
          cases e with
          | commit => exact Or.inr ⟨th₀, k, hth₀, hp, rfl⟩
          | _ => cases hc
    · exact Or.inl ⟨th₀, hth₀, hstay fun seen ws hb => hbuilding ⟨seen, ws, hb⟩⟩

/-- A coroutine that is about to commit is not in the log yet. -/
theorem Ledger.not_mem {order : List ℕ} (h : Ledger c order) {t : ℕ} (hth : c.threads[t]? = some th)
    {seen : List WebhookEvent} {ws : List Write} (htxn : Coroutine.txn th = .building seen ws) :
    t ∉ order := by
  intro ht
  obtain ⟨th', hth', hclosed⟩ := h.closed t ht
  rw [hth] at hth'
  cases hth'
  rw [htxn] at hclosed
  exact hclosed

/-- The transactions that are in the log stay as they are. -/
theorem Ledger.log_kept {order : List ℕ} (h : Ledger c order) (hr : Reaches deps ok c)
    (hs : step deps c a = some c') :
    order.flatMap (statementsAt c') = c.world.wal ∧
      ∀ t ∈ order, ∃ th', c'.threads[t]? = some th' ∧ (Coroutine.txn th').isClosed := by
  have hkept : ∀ t ∈ order, ∃ th', c'.threads[t]? = some th' ∧ (Coroutine.txn th').isClosed ∧
      statementsAt c' t = statementsAt c t := by
    intro t ht
    obtain ⟨th, hth, hclosed⟩ := h.closed t ht
    obtain ⟨th', hth', htxn, hsame⟩ := hr.closed_kept hs hth hclosed
    exact ⟨th', hth', htxn ▸ hclosed, hsame⟩
  refine ⟨?_, fun t ht => ?_⟩
  · rw [h.log]
    refine List.flatMap_congr fun t ht => ?_
    obtain ⟨_, _, _, hsame⟩ := hkept t ht
    exact hsame
  · obtain ⟨th', hth', hclosed, -⟩ := hkept t ht
    exact ⟨th', hth', hclosed⟩

/-- A coroutine that has just committed has closed its transaction. -/
theorem Reaches.committing (h : Reaches deps ok c) (hs : step deps c a = some c') {t : ℕ}
    (hth : c.threads[t]? = some th) {k : Except PyExn Unit → Relay Reply}
    (hp : th.prog = .call .commit k) (ht : a.taken = some t) :
    ∃ th', c'.threads[t]? = some th' ∧ (Coroutine.txn th').isClosed ∧
      statementsAt c' t = th.session.pending := by
  have hm := List.mem_of_getElem? hth
  obtain ⟨seen, htxn⟩ := h.txn_of_commit hm hp
  have hshape := h.txn_shape th hm
  rw [htxn] at hshape
  -- the answer to the commit closes the transaction
  have hanswer (r : Except PyExn (Op.Resp .commit)) (s : Session)
      (hnext : ∀ x, r = .error x →
        (Coroutine.txn th).next .commit (.error x) = (Coroutine.txn th).failed .commit)
      (hc' : c'.threads = c.threads.set t (th.answered machine .commit r (k r) s)) :
      ∃ th', c'.threads[t]? = some th' ∧ (Coroutine.txn th').isClosed ∧
        statementsAt c' t = th.session.pending := by
    have hlt : t < c.threads.length := (List.getElem?_eq_some_iff.mp hth).1
    have hth' : c'.threads[t]? = some (th.answered machine .commit r (k r) s) := by
      rw [hc', List.getElem?_set_self hlt]
    refine ⟨_, hth', ?_, ?_⟩
    · rw [Coroutine.txn_answered]
      cases r with
      | ok v =>
        rw [htxn]
        trivial
      | error x =>
        rw [hnext x rfl, htxn]
        trivial
    · rw [statementsAt_of_getElem? hth']
      show statementsOf (th.trace ++ [⟨Op.commit, r⟩]) = _
      rw [statementsOf_append_singleton, hshape.2]
      exact List.append_nil _
  cases a with
  | call u o =>
    obtain rfl : u = t := Option.some.inj ht
    obtain ⟨th₀, e, k₀, hth₀, hp₀, -, -, hc'⟩ := Pool.call_eq_some hs
    rw [hth] at hth₀
    cases hth₀
    rw [hp] at hp₀
    cases hp₀
    exact hanswer _ _ (fun x hx => by cases hx) hc'
  | fault u o x applied =>
    obtain ⟨th₀, e, k₀, hth₀, hp₀, hcases⟩ := Pool.fault_eq_some hs
    cases applied with
    | false => cases ht
    | true =>
      obtain rfl : u = t := Option.some.inj ht
      rw [hth] at hth₀
      cases hth₀
      rw [hp] at hp₀
      cases hp₀
      obtain ⟨h, -⟩ | ⟨-, -, -, hc'⟩ := hcases
      · cases h
      · refine hanswer _ _ (fun y hy => ?_) hc'
        cases hy
        cases x <;> rfl
  | _ => cases ht

/-- **The log is a list of whole transactions.** -/
theorem Reaches.ledger (h : Reaches deps ok c) : ∃ order, Ledger c order := by
  refine h.invariant (J := fun c => ∃ order, Ledger c order)
    (fun _ => ⟨[], List.nodup_nil, rfl, fun _ ht => (nomatch ht), fun _ _ _ _ hth => nomatch hth⟩)
    fun c a c' hr hc _ hs => ?_
  obtain ⟨order, hledger⟩ := hc
  obtain ⟨hlog, hclosed⟩ := hledger.log_kept hr hs
  have hwal := wal_transaction hs
  have hbefore {t : ℕ} {th₀ : Coroutine} {seen : List WebhookEvent} {ws : List Write}
      (hth₀ : c.threads[t]? = some th₀) (htxn : Coroutine.txn th₀ = .committed seen ws) :
      t ∈ order := hledger.committed t th₀ seen ws hth₀ htxn
  by_cases hcommit : ∃ t th k, c.threads[t]? = some th ∧ th.prog = .call .commit k ∧
      a.taken = some t
  · -- a transaction more
    obtain ⟨t, th, k, hth, hp, ht⟩ := hcommit
    obtain ⟨seen, htxn⟩ := hr.txn_of_commit (List.mem_of_getElem? hth) hp
    obtain ⟨th', hth', hclosed', hstatements⟩ := hr.committing hs hth hp ht
    rw [transaction_of_commit hth hp ht] at hwal
    refine ⟨order ++ [t], ?_, ?_, ?_, ?_⟩
    · refine List.Nodup.append hledger.once (List.nodup_singleton t) ?_
      simpa using hledger.not_mem hth htxn
    · rw [List.flatMap_append, hlog, List.flatMap_singleton, hstatements, hwal]
    · intro u hu
      rcases List.mem_append.mp hu with hu | hu
      · exact hclosed u hu
      · rw [List.mem_singleton.mp hu]
        exact ⟨th', hth', hclosed'⟩
    · intro u uh seen' ws huh hcommitted
      rcases (stepped hs).committed huh hcommitted with ⟨uh₀, huh₀, h₀⟩ | ⟨uh₀, k₀, -, -, hu⟩
      · exact List.mem_append_left _ (hbefore huh₀ h₀)
      · rw [ht] at hu
        cases hu
        exact List.mem_append_right _ (List.mem_singleton_self t)
  · -- the log and the transactions stay as they are
    have hnone : transaction c a = [] :=
      (transaction_cases c a).resolve_right hcommit
    refine ⟨order, hledger.once, ?_, hclosed, ?_⟩
    · rw [hwal, hnone, List.append_nil, hlog]
    · intro u uh seen ws huh hcommitted
      rcases (stepped hs).committed huh hcommitted with ⟨uh₀, huh₀, h₀⟩ | ⟨uh₀, k₀, h₀⟩
      · exact hbefore huh₀ h₀
      · exact absurd ⟨u, uh₀, k₀, h₀⟩ hcommit

/-- A coroutine that has closed its transaction has made a whole one. -/
theorem Reaches.whole_of_closed (h : Reaches deps ok c) (hth : th ∈ c.threads)
    (hclosed : (Coroutine.txn th).isClosed) : ∃ r, Whole th.trace r := by
  have hshape := h.txn_shape th hth
  cases htxn : Coroutine.txn th with
  | committed seen ws =>
    rw [htxn] at hshape
    exact ⟨_, hshape.1⟩
  | inDoubt ws =>
    rw [htxn] at hshape
    obtain ⟨⟨x, hwhole⟩, -⟩ := hshape
    exact ⟨_, hwhole⟩
  | _ =>
    rw [htxn] at hclosed
    exact hclosed.elim

/-- The coroutines of the ledger have made whole transactions. -/
theorem Reaches.transactions (h : Reaches deps ok c) {order : List ℕ} (hledger : Ledger c order) :
    Transactions c order := by
  refine ⟨hledger.once, hledger.log, fun t ht => ?_, fun t th hth hmem => ?_⟩
  · obtain ⟨th, hth, hclosed⟩ := hledger.closed t ht
    exact ⟨th, hth, h.whole_of_closed (List.mem_of_getElem? hth) hclosed⟩
  · have hm := List.mem_of_getElem? hth
    obtain ⟨seen, ws, htxn⟩ := (h.txn_shape th hm).committed (h.txn_ne_lost th hm) hmem
    exact hledger.committed t th seen ws hth htxn

/-- A coroutine that has committed was answered its commit. -/
theorem Reaches.answered_of_committed (h : Reaches deps ok c) (hth : th ∈ c.threads)
    {seen : List WebhookEvent} {ws : List Write} (htxn : Coroutine.txn th = .committed seen ws) :
    (⟨Op.commit, .ok ()⟩ : Call relay PyExn) ∈ th.trace := by
  have hshape := h.txn_shape th hth
  rw [htxn] at hshape
  obtain ⟨⟨pre, post, htrace, -, -⟩, -⟩ := hshape
  rw [htrace]
  exact List.mem_append_right _ List.mem_cons_self

/-- A request that has run to its end has committed, and knows what it reports. -/
theorem Reaches.committed_of_done (h : Reaches deps ok c) (hth : th ∈ c.threads)
    (ho : th.origin.isRequest = true) {reply : Reply} (hp : th.prog = .done reply) :
    (∃ seen ws, Coroutine.txn th = .committed seen ws) ∧ reply.Known (Coroutine.txn th) := by
  obtain ⟨hsettled, hknown⟩ : (Coroutine.txn th).isSettled ∧ reply.Known (Coroutine.txn th) := by
    rcases (h.obeys hth (program_transacts deps th.origin)).2 with hobeys | hcut
    · rw [hp] at hobeys
      exact hobeys reply rfl ho
    · rw [hp] at hcut
      cases hcut
  refine ⟨?_, hknown⟩
  cases htxn : Coroutine.txn th with
  | committed seen ws => exact ⟨seen, ws, rfl⟩
  | lost => exact absurd htxn (h.txn_ne_lost th hth)
  | _ =>
    rw [htxn] at hsettled
    exact hsettled.elim

/-- What a coroutine has stated is in the log once its commit was answered. -/
theorem Reaches.logged_of_answered (h : Reaches deps ok c) (hth : th ∈ c.threads)
    (hcommit : (⟨Op.commit, .ok ()⟩ : Call relay PyExn) ∈ th.trace) :
    ∀ x ∈ statementsOf th.trace, x ∈ c.world.wal := by
  intro x hx
  obtain ⟨order, hledger⟩ := h.ledger
  obtain ⟨t, ht⟩ := List.mem_iff_getElem?.mp hth
  obtain ⟨seen, ws, htxn⟩ := (h.txn_shape th hth).committed (h.txn_ne_lost th hth) hcommit
  rw [hledger.log]
  refine List.mem_flatMap.mpr ⟨t, hledger.committed t th seen ws ht htxn, ?_⟩
  rwa [statementsAt_of_getElem? ht]

/-- **Transactions are atomic.** In every reachable state, whatever has been interleaved and
whatever has failed, the log of committed writes is the concatenation of the whole transactions of
different coroutines; every coroutine that was answered its commit is among them. -/
theorem transactions_atomic (h : Reaches deps ok c) : ∃ order, Transactions c order := by
  obtain ⟨order, hledger⟩ := h.ledger
  exact ⟨order, h.transactions hledger⟩

/-- Three transactions are under way, and the last one is cut off before its commit. -/
theorem transactions_atomic_cut_off : ∃ c, Reaches Sample.deps anyStep c ∧
    c.threads.length = 3 ∧ (statementsAt c 2).length = 1 ∧ c.world.wal.length = 2 ∧
    ∃ order, Transactions c order := by
  have hrun : (runActs (step Sample.deps) (fun _ _ => true) (initial Sample.start)
      (Sample.setup Sample.shop Sample.order ++ Sample.request 2 2
        (.updateEndpoint (Sample.id 1) (Sample.budget 5 (by decide)))
        (Sample.oracle 3 .cancelled) ++ [.kill 2])).any (fun c => decide
          (c.threads.length = 3 ∧ (statementsAt c 2).length = 1 ∧ c.world.wal.length = 2)) =
        true := by
    decide +kernel
  obtain ⟨c, hc, hfacts⟩ := exists_run anyStep (fun _ _ _ => trivial) hrun
  obtain ⟨hthreads, hstatements, hlog⟩ := of_decide_eq_true hfacts
  have hreach : Reaches Sample.deps anyStep c := ⟨Sample.start, hc⟩
  exact ⟨c, hreach, hthreads, hstatements, hlog, transactions_atomic hreach⟩

/-! ### Events that were reported -/

/-- The event is in the table, possibly in a later version. -/
def Db.Has (db : Db) (r : WebhookEvent) : Prop :=
  ∃ row, db.events.get? r.id = some row ∧ r.Later row

/-- Events stay in the table. -/
theorem Db.Has.mono {w w' : World} {r : WebhookEvent} (h : w.db.Has r) (hrows : w.MovesOn w') :
    w'.db.Has r := by
  obtain ⟨row, hrow, hlater⟩ := h
  obtain ⟨row', hrow', hlater'⟩ := hrows _ row hrow
  exact ⟨row', hrow', hlater.trans hlater'⟩

/-- The events after a step are those before it, in the same or a later version. -/
theorem Reaches.movesOn (h : Reaches deps ok c) (hs : step deps c a = some c') :
    c.world.MovesOn c'.world := ((h.commits hs).events h.sound).1

/-- No exit of `deliver` inserts an event. -/
theorem Exit.insertEvent_not_mem (x : Exit) (ev r : WebhookEvent) (ep : WebhookEndpoint) :
    Write.insertEvent r ∉ x.writes ev ep := by
  have hflush (old new : WebhookEvent) : Write.insertEvent r ∉ flush old new := by
    unfold flush
    split_ifs <;> simp
  have hgone (at₀ : DeliveryAttempt) : Write.insertEvent r ∉ goneWrites ep at₀ := by
    unfold goneWrites
    split_ifs <;> simp
  cases x <;> simp [Exit.writes, hflush, hgone]

/-- **An event that a committed statement inserts is in the table**, in every reachable state. -/
theorem Reaches.inserted (h : Reaches deps ok c) :
    ∀ r, Write.insertEvent r ∈ c.world.wal → c.world.db.Has r := by
  obtain ⟨now, hr⟩ := h
  have hreach : Reaches deps ok c := ⟨now, hr⟩
  refine hreach.invariant (J := fun c => ∀ r, Write.insertEvent r ∈ c.world.wal →
    c.world.db.Has r) (fun _ _ hr => nomatch hr) fun c a c' hreach hc hok hs r hr => ?_
  have hold (hr : Write.insertEvent r ∈ c.world.wal) : c'.world.db.Has r :=
    (hc r hr).mono (hreach.movesOn hs)
  cases hreach.commits hs with
  | nothing hw => exact hold (hw ▸ hr)
  | exit t ev ep x _ _ _ _ hw =>
    rw [hw] at hr
    exact (List.mem_append.mp hr).elim hold fun hr => absurd hr (x.insertEvent_not_mem ev r ep)
  | benign ws hws hw =>
    rw [hw] at hr
    rcases List.mem_append.mp hr with hr | hr
    · exact hold hr
    · -- the insert takes effect, and what follows in the transaction leaves the row alone
      obtain ⟨pre, post, rfl⟩ := List.append_of_mem hr
      have hnext : Reaches deps ok c' := by
        obtain ⟨now, hrun⟩ := hreach
        exact ⟨now, hrun.tail ⟨a, hok, hs⟩⟩
      have htakes := hnext.takes.1
      rw [hw] at htakes
      have hmissing := (Db.takes_append.mp htakes).2.missing (k := .event r.id) rfl
      have hnone : ((Db.empty.applyAll c.world.wal).applyAll pre).events.get? r.id = none :=
        Option.isSome_eq_false_iff.mp hmissing |> Option.isNone_iff_eq_none.mp
      have hpost : ∀ w ∈ post, w.Benign := fun w hw =>
        hws w (List.mem_append_right _ (List.mem_cons_of_mem _ hw))
      refine ⟨r, ?_, .refl r⟩
      rw [World.db, hw, Db.applyAll_append, Db.applyAll_append, Db.applyAll_cons]
      generalize (Db.empty.applyAll c.world.wal).applyAll pre = db at hnone ⊢
      have hrow : (db.apply (.insertEvent r)).events.get? r.id = some r := by
        show (Table.insert _ r).get? r.id = some r
        rw [Table.get?_insert hnone, if_pos rfl]
      rcases benign_events_get? hpost (db.apply (.insertEvent r)) r.id with hsame | hnew
      · rw [hsame, hrow]
      · rw [hrow] at hnew
        cases hnew.1

/-- The events that a coroutine has found. -/
def Txn.seen : Txn → List WebhookEvent
  | .building seen _ => seen
  | .committed seen _ => seen
  | _ => []

/-- What a call adds to the events that were found: it found them before any statement. -/
theorem Txn.mem_seen_next {p : Txn} {e : Op} {r : Except PyExn e.Resp} {x : WebhookEvent}
    (h : x ∈ (p.next e r).seen) : x ∈ p.seen ∨
      (∃ seen, p = .building seen []) ∧ ∃ key, ∃ he : e = .getEventByKey key,
        he ▸ r = .ok (some x) := by
  cases r with
  | error y =>
    refine Or.inl ?_
    change x ∈ (if ReplayService.countedError y then Txn.lost else p.failed e).seen at h
    split_ifs at h
    · cases h
    · cases p with
      | building seen ws =>
        unfold Txn.failed at h
        dsimp only at h
        split_ifs at h
        · cases h
        · exact h
        · cases h
      | _ => exact h
  | ok v =>
    cases p with
    | building seen ws =>
      cases hc : e.isCommit with
      | true =>
        change x ∈ (Txn.answered (.building seen ws) e v).seen at h
        unfold Txn.answered at h
        dsimp only at h
        rw [if_pos hc] at h
        exact Or.inl h
      | false =>
        change x ∈ (Txn.answered (.building seen ws) e v).seen at h
        rw [Txn.answered_building hc] at h
        change x ∈ (if ws.isEmpty then seen ++ e.finds v else seen) at h
        split_ifs at h with hw
        · rcases List.mem_append.mp h with h | h
          · exact Or.inl h
          · refine Or.inr ⟨⟨seen, by rw [List.isEmpty_iff.mp hw]⟩, ?_⟩
            cases e with
            | getEventByKey key =>
              refine ⟨key, rfl, ?_⟩
              cases v with
              | none => cases h
              | some r =>
                obtain rfl : x = r := List.mem_singleton.mp h
                rfl
            | _ => cases h
        · exact Or.inl h
    | _ => exact Or.inl h

/-- **An event that a coroutine has found by its key is in the table.** -/
theorem Reaches.found (h : Reaches deps ok c) :
    ∀ th ∈ c.threads, ∀ r ∈ (Coroutine.txn th).seen, c.world.db.Has r := by
  refine h.invariant (J := fun c => ∀ th ∈ c.threads, ∀ r ∈ (Coroutine.txn th).seen,
    c.world.db.Has r) (fun _ _ hth => nomatch hth) fun c a c' hr hc _ hs => ?_
  have hrows := hr.movesOn hs
  refine (stepped hs).forall_threads hc (fun _ _ _ _ h r hr => (h r hr).mono hrows)
    (fun _ _ _ _ hr => nomatch hr) ?_ (fun _ _ h r hr => (h r hr).mono hrows)
    fun _ _ _ _ _ _ h r hr => (h r hr).mono hrows
  intro t th e k r w s hth hp ha hw hseen x hx
  rw [Coroutine.txn_answered] at hx
  refine Db.Has.mono ?_ hrows
  rcases Txn.mem_seen_next hx with hx | ⟨⟨seen, htxn⟩, key, rfl, hr'⟩
  · exact hseen x hx
  · obtain rfl : r = .ok (some x) := hr'
    obtain ⟨o, -, hexec⟩ := ha.of_ok
    -- the lookup came before any statement, so it has read the committed rows
    have hpending := hr.session_eq th (List.mem_of_getElem? hth) (by rw [hp]; rfl) _ _ htxn
    obtain ⟨hfound, -⟩ := flushed_eq_ok hexec
    rw [view_of_pending hpending] at hfound
    refine ⟨x, Table.get?_of_mem ?_, .refl x⟩
    exact List.mem_of_find?_eq_some hfound

/-- What a reply reports is in the table. -/
def Reply.KeptIn (db : Db) : Reply → Prop
  | .event r => db.Has r
  | .replay r => (db.events.get? r.newEventId).isSome = true
  | .bulk r => ∀ x ∈ r.results, (db.events.get? x.newEventId).isSome = true
  | _ => True

/-- Events that are known to a coroutine that has committed are in the table. -/
theorem Reaches.has_of_knows (h : Reaches deps ok c) (hth : th ∈ c.threads)
    {seen : List WebhookEvent} {ws : List Write} (htxn : Coroutine.txn th = .committed seen ws)
    {r : WebhookEvent} (hr : (Coroutine.txn th).Knows r) : c.world.db.Has r := by
  rw [htxn] at hr
  rcases hr with hr | hr
  · exact h.found th hth r (by rw [htxn]; exact hr)
  · have hshape := h.txn_shape th hth
    rw [htxn] at hshape
    exact h.inserted r (h.logged_of_answered hth (h.answered_of_committed hth htxn) _
      (hshape.2 ▸ hr))

/-- **What was completed is kept.** A request that has run to its end has committed its transaction,
and the events it reports are in the table in every later state, with the endpoint, the
type and the payload that were reported, whatever else happens. -/
theorem completed_kept (h : Reaches deps anyStep c) (hth : th ∈ c.threads)
    (ho : th.origin.isRequest = true) {reply : Reply} (hp : th.prog = .done reply) :
    (⟨Op.commit, .ok ()⟩ : Call relay PyExn) ∈ th.trace ∧
      ∀ c', Runs (step deps) anyStep c c' → reply.KeptIn c'.world.db := by
  obtain ⟨⟨seen, ws, htxn⟩, hknown⟩ := h.committed_of_done hth ho hp
  refine ⟨h.answered_of_committed hth htxn, fun c' hrun => ?_⟩
  have hmoves : c.world.MovesOn c'.world := by
    refine hrun.invariant (J := fun b => c.world.MovesOn b.world) (fun _ r hr => ⟨r, hr, .refl r⟩)
      fun b a b' hb hmoves _ hs id r hr => ?_
    obtain ⟨r', hr', hlater⟩ := hmoves id r hr
    obtain ⟨r'', hr'', hlater'⟩ := (h.run hb).movesOn hs id r' hr'
    exact ⟨r'', hr'', hlater.trans hlater'⟩
  have hkept {r : WebhookEvent} (hr : (Coroutine.txn th).Knows r) : c'.world.db.Has r :=
    (h.has_of_knows hth htxn hr).mono hmoves
  have hkeptId {id : UUID} (hid : (Coroutine.txn th).KnowsId id) :
      (c'.world.db.events.get? id).isSome = true := by
    obtain ⟨r, hr, rfl⟩ := hid
    obtain ⟨row, hrow, -⟩ := hkept hr
    rw [hrow]
    rfl
  cases reply with
  | event r => exact hkept hknown
  | replay r => exact hkeptId hknown
  | bulk r => exact fun x hx => hkeptId (hknown x hx)
  | _ => trivial

/-- An event that was created. -/
theorem completed_kept_created : ∃ c th r, Reaches Sample.deps anyStep c ∧ th ∈ c.threads ∧
    th.prog = .done (.event r) ∧ (⟨Op.commit, .ok ()⟩ : Call relay PyExn) ∈ th.trace ∧
      ∀ c', Runs (step Sample.deps) anyStep c c' → c'.world.db.Has r := by
  have hrun : (runActs (step Sample.deps) (fun _ _ => true) (initial Sample.start)
      (Sample.setup Sample.shop Sample.order)).any (fun c => c.threads[1]?.any fun th =>
        th.origin.isRequest && th.prog.value?.any fun
          | .event _ => true
          | _ => false) = true := by
    decide +kernel
  obtain ⟨c, hc, hfacts⟩ := exists_run anyStep (fun _ _ _ => trivial) hrun
  obtain ⟨th, hth, hth'⟩ := (Option.any_eq_true _ _).mp hfacts
  obtain ⟨ho, hdone⟩ := Bool.and_eq_true_iff.mp hth'
  obtain ⟨reply, hreply, hevent⟩ := (Option.any_eq_true _ _).mp hdone
  have hreach : Reaches Sample.deps anyStep c := ⟨Sample.start, hc⟩
  have hm := List.mem_of_getElem? hth
  have hp := Prog.value?_eq_some.mp hreply
  cases reply with
  | event r =>
    obtain ⟨hcommit, hkept⟩ := completed_kept hreach hm ho hp
    exact ⟨c, th, r, hreach, hm, hp, hcommit, hkept⟩
  | _ => cases hevent

end WebhookRelay
