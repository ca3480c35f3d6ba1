import WebhookRelay.Delivery.SlowEndpoints
import WebhookRelay.Replay.Guard
import WebhookRelay.Runs.GoneEndpoint

/-!
# Transactions

What a coroutine writes, it writes in one transaction: it makes its statements, commits once, and
makes no statement afterwards; and once a statement has failed it does not commit any more
(`txnContract`, proved of every program). So under every interleaving, and whatever fails, the log
of committed writes is the concatenation of whole transactions of different coroutines
(`transactions_atomic`), and what a request reports that has run to its end, the commit of `get_db`
included, is committed and stays committed (`completed_kept`).
-/

namespace WebhookRelay

open Data Effect ReplayService

/-! ### The contract -/

/-- How far the transaction of a coroutine has come. -/
inductive Txn where
  /-- The statements made so far, and the events that were read before the first of them. -/
  | building (seen : List WebhookEvent) (ws : List Write)
  /-- A statement has failed. -/
  | broken
  /-- The statements are committed. -/
  | committed (seen : List WebhookEvent) (ws : List Write)
  /-- The answer to the commit was lost. -/
  | inDoubt (ws : List Write)
  /-- A call has raised an exception that no call raises. -/
  | lost

/-- The events that a call finds by their key. -/
def Op.finds : (e : Op) → e.Resp → List WebhookEvent
  | .getEventByKey _, some r => [r]
  | _, _ => []

/-- A call that makes no statement and is not a commit. -/
structure Op.Idle (e : Op) : Prop where
  isCommit : e.isCommit = false
  writes : e.writes = []

namespace Txn

/-- The calls of a phase. -/
def allows : Txn → Op → Prop
  | .building _ _, _ => True
  | .broken, e => e.isCommit = false
  | .committed _ _, e => e.Idle
  | .inDoubt _, e => e.Idle
  | .lost, _ => True

/-- The phase after a call that is answered. -/
def answered : Txn → (e : Op) → e.Resp → Txn
  | .building seen ws, e, v =>
    if e.isCommit then .committed seen ws
    else .building (if ws.isEmpty then seen ++ e.finds v else seen) (ws ++ e.writes)
  | p, _, _ => p

/-- The phase after a call that raises. -/
def failed : Txn → Op → Txn
  | .building seen ws, e =>
    if e.isCommit then .inDoubt ws else if e.writes.isEmpty then .building seen ws else .broken
  | p, _ => p

/-- The phase after a call. -/
def next (p : Txn) (e : Op) : Except PyExn e.Resp → Txn
  | .ok v => p.answered e v
  | .error x => if countedError x then .lost else p.failed e

/-- A call adds its statements, and what it has found unless there are statements already. -/
theorem answered_building {e : Op} (hc : e.isCommit = false) (v : e.Resp)
    (seen : List WebhookEvent) (ws : List Write) : (building seen ws).answered e v =
      .building (if ws.isEmpty then seen ++ e.finds v else seen) (ws ++ e.writes) := by
  simp only [answered, hc, Bool.false_eq_true, if_false]

/-- An idle call that raises changes nothing. -/
theorem failed_idle {e : Op} (he : e.Idle) (p : Txn) : p.failed e = p := by
  cases p with
  | building seen ws => simp [failed, he.isCommit, he.writes]
  | _ => rfl

/-- Nothing has gone wrong yet, and nothing is committed yet. -/
def isOpen : Txn → Prop
  | .building _ _ => True
  | .lost => True
  | _ => False

/-- The transaction is committed. -/
def isSettled : Txn → Prop
  | .committed _ _ => True
  | .lost => True
  | _ => False

/-- The event was read, or is inserted by the transaction. -/
def Knows (r : WebhookEvent) : Txn → Prop
  | .building seen ws => r ∈ seen ∨ Write.insertEvent r ∈ ws
  | .committed seen ws => r ∈ seen ∨ Write.insertEvent r ∈ ws
  | .lost => True
  | _ => False

/-- What was known is known. -/
def Keeps (p p' : Txn) : Prop := ∀ r, p.Knows r → p'.Knows r

end Txn

/-- The contract of a coroutine: one transaction. -/
def txnContract : Contract relay PyExn Txn where
  allows := Txn.allows
  next := Txn.next

/-- How a part of a program leaves the transaction: in a phase with `T` where `K` is known, or
with an exception; one that a bulk replay counts leaves it open. -/
def Txn.Leaves {α : Type} (T : Txn → Prop) (K : α → Txn → Prop) (p : Txn) (r : Except PyExn α)
    (p' : Txn) : Prop :=
  match r with
  | .ok a => T p' ∧ p.Keeps p' ∧ K a p'
  | .error x => countedError x = true → p'.isOpen ∧ p.Keeps p'

/-- The part of a program leaves the transaction like that. -/
abbrev Transacts {α : Type} (T : Txn → Prop) (K : α → Txn → Prop) (p : Txn) (q : Relay α) : Prop :=
  q.Obeys txnContract (Txn.Leaves T K p) p

/-- Nothing is known of the result. -/
def Txn.nothing {α : Type} (_ : α) (_ : Txn) : Prop := True

/-! ### Rules -/

section rules

variable {α β : Type} {T T' : Txn → Prop} {K : α → Txn → Prop} {K' : β → Txn → Prop} {p p' : Txn}

theorem Txn.Keeps.refl (p : Txn) : p.Keeps p := fun _ h => h

theorem Txn.Keeps.trans {p p' p'' : Txn} (h : p.Keeps p') (h' : p'.Keeps p'') : p.Keeps p'' :=
  fun r hr => h' r (h r hr)

/-- A call keeps an open transaction open, unless it is a commit. -/
theorem Txn.answered_open (hp : p.isOpen) {e : Op} (hc : e.isCommit = false) (v : e.Resp) :
    (p.answered e v).isOpen ∧ p.Keeps (p.answered e v) := by
  cases p with
  | building seen ws =>
    rw [Txn.answered_building hc]
    refine ⟨trivial, fun r hr => ?_⟩
    rcases hr with hr | hr
    · refine Or.inl ?_
      split_ifs
      · exact List.mem_append_left _ hr
      · exact hr
    · exact Or.inr (List.mem_append_left _ hr)
  | lost => exact ⟨trivial, .refl _⟩
  | _ => exact hp.elim

/-- An open transaction allows every call. -/
theorem Txn.allows_open (hp : p.isOpen) (e : Op) : p.allows e := by
  cases p with
  | building seen ws => trivial
  | lost => trivial
  | _ => exact hp.elim

/-- A call that raises an exception that a bulk replay counts: there is none. -/
theorem Txn.leaves_error (p p₀ : Txn) (e : Op) (x : PyExn) :
    Txn.Leaves T K p₀ (.error x) (p.next e (.error x)) := by
  intro hx
  unfold Txn.next
  dsimp only
  rw [if_pos hx]
  exact ⟨trivial, fun _ _ => trivial⟩

theorem transacts_done (hp : T p) {a : α} (ha : K a p) : Transacts T K p (.done a) :=
  ⟨hp, .refl p, ha⟩

/-- An exception of the program itself. -/
theorem transacts_raised (hp : p.isOpen) (x : PyExn) : Transacts T K p (raise x : Relay α) :=
  fun _ => ⟨hp, .refl p⟩

/-- Sequencing: the rest goes on in a phase that knows what the first part has found out. -/
theorem transacts_bind {q : Relay α} {f : α → Relay β} (hq : Transacts T K p q)
    (hf : ∀ a p', T p' → p.Keeps p' → K a p' → Transacts T' K' p' (f a)) :
    Transacts T' K' p (q >>= f) := by
  refine (Prog.obeys_bind q f).mpr (hq.mono fun r p' hr => ?_)
  cases r with
  | ok a =>
    obtain ⟨hT, hkeeps, hK⟩ := hr
    refine (hf a p' hT hkeeps hK).mono fun r' p'' hr' => ?_
    cases r' with
    | ok b => exact ⟨hr'.1, hkeeps.trans hr'.2.1, hr'.2.2⟩
    | error x => exact fun hx => ⟨(hr' hx).1, hkeeps.trans (hr' hx).2⟩
  | error x => exact hr

/-- One call that is not a commit. -/
theorem transacts_perform (hp : p.isOpen) {e : Op} (hc : e.isCommit = false)
    {K : e.Resp → Txn → Prop} (hK : ∀ v, K v (p.answered e v)) :
    Transacts Txn.isOpen K p (await e) := by
  refine Prog.obeys_perform.mpr ⟨Txn.allows_open hp e, fun r => ?_⟩
  cases r with
  | ok v => exact ⟨(Txn.answered_open hp hc v).1, (Txn.answered_open hp hc v).2, hK v⟩
  | error x => exact Txn.leaves_error p p e x

/-- One call of which nothing has to be known. -/
theorem transacts_await (hp : p.isOpen) {e : Op} (hc : e.isCommit = false) :
    Transacts Txn.isOpen Txn.nothing p (await e) := transacts_perform hp hc fun _ => trivial

/-- A part that makes no statement leaves the transaction open, whatever its calls raise. -/
theorem transacts_reads {q : Relay α} (hq : q.Calls Op.Idle) (hp : p.isOpen) :
    Transacts Txn.isOpen Txn.nothing p q := by
  suffices h : ∀ p', p'.isOpen → p.Keeps p' →
      q.Obeys txnContract (Txn.Leaves Txn.isOpen Txn.nothing p) p' from h p hp (.refl p)
  induction q with
  | done a => exact fun p' hp' hkeeps => ⟨hp', hkeeps, trivial⟩
  | raised x => exact fun p' hp' hkeeps _ => ⟨hp', hkeeps⟩
  | call e k ih =>
    intro p' hp' hkeeps
    refine ⟨Txn.allows_open hp' e, fun r => ?_⟩
    cases r with
    | ok v =>
      obtain ⟨hopen, hkeeps'⟩ := Txn.answered_open hp' hq.1.isCommit v
      exact ih _ (hq.2 _) _ hopen (hkeeps.trans hkeeps')
    | error x =>
      show (k (.error x)).Obeys _ _ (if countedError x then .lost else p'.failed e)
      rw [Txn.failed_idle hq.1]
      split_ifs
      · exact ih _ (hq.2 _) _ trivial fun _ _ => trivial
      · exact ih _ (hq.2 _) _ hp' hkeeps

/-- The commit of an open transaction. -/
theorem transacts_commit (hp : p.isOpen) : Transacts Txn.isSettled Txn.nothing p commit := by
  refine Prog.obeys_perform.mpr ⟨Txn.allows_open hp .commit, fun r => ?_⟩
  cases r with
  | ok v =>
    cases p with
    | building seen ws => exact ⟨trivial, fun r hr => hr, trivial⟩
    | lost => exact ⟨trivial, .refl _, trivial⟩
    | _ => exact hp.elim
  | error x => exact Txn.leaves_error p p .commit x

/-- A call without statements after the commit. -/
theorem transacts_settled (hp : p.isSettled) {e : Op} (he : e.Idle) :
    Transacts Txn.isSettled Txn.nothing p (await e) := by
  refine Prog.obeys_perform.mpr ⟨?_, fun r => ?_⟩
  · cases p with
    | committed seen ws => exact he
    | lost => trivial
    | _ => exact hp.elim
  · cases r with
    | ok v =>
      cases p with
      | committed seen ws => exact ⟨trivial, .refl _, trivial⟩
      | lost => exact ⟨trivial, .refl _, trivial⟩
      | _ => exact hp.elim
    | error x => exact Txn.leaves_error p p e x

/-- A handler of `get_db`: its transaction is committed when it has returned. -/
theorem transacts_getDb {handler : Relay α} (h : Transacts Txn.isOpen K p handler)
    (hK : ∀ a p p', p.Keeps p' → K a p → K a p') :
    Transacts Txn.isSettled K p (Api.getDb handler) :=
  transacts_bind h fun a p' hp' _ ha => transacts_bind (transacts_commit hp')
    fun _ p'' hp'' hkeeps _ => transacts_done hp'' (hK a p' p'' hkeeps ha)

end rules

/-! ### The handlers -/

section handlers

variable {α : Type} {p p' : Txn}

/-- The event with this identifier was read, or is inserted by the transaction. -/
def Txn.KnowsId (id : UUID) (p : Txn) : Prop := ∃ r, p.Knows r ∧ r.id = id

theorem Txn.KnowsId.keeps {id : UUID} (h : p.KnowsId id) (hkeeps : p.Keeps p') :
    p'.KnowsId id := by
  obtain ⟨r, hr, hid⟩ := h
  exact ⟨r, hkeeps r hr, hid⟩

theorem transacts_found (hp : p.isOpen) (detail : Str) (x : Option α) :
    Transacts Txn.isOpen Txn.nothing p (Api.found detail x) := by
  cases x with
  | none => exact transacts_raised hp _
  | some a => exact transacts_done hp trivial

theorem transacts_createEndpoint (hp : p.isOpen) (data : EndpointCreate) :
    Transacts Txn.isOpen Txn.nothing p (Api.createEndpoint data) := by
  refine transacts_bind (q := tokenHex) (transacts_await hp rfl) fun _ p hp _ _ => ?_
  refine transacts_bind (q := uuid4) (transacts_await hp rfl) fun _ p hp _ _ => ?_
  refine transacts_bind (q := insertEndpoint _) (transacts_await hp rfl) fun _ p hp _ _ => ?_
  exact transacts_done hp trivial

theorem transacts_updateEndpoint (hp : p.isOpen) (id : UUID) (data : EndpointUpdate) :
    Transacts Txn.isOpen Txn.nothing p (Api.updateEndpoint id data) := by
  refine transacts_bind (T := Txn.isOpen) (K := Txn.nothing) ?_ fun _ p hp _ _ =>
    transacts_found hp _ _
  refine transacts_bind (q := EndpointRepository.getById id) (transacts_await hp rfl)
    fun row p hp _ _ => ?_
  cases row with
  | none => exact transacts_done hp trivial
  | some endpoint =>
    refine transacts_bind (q := flushEndpoint _ _) (transacts_await hp rfl) fun _ p hp _ _ => ?_
    exact transacts_done hp trivial

theorem transacts_deleteEndpoint (hp : p.isOpen) (id : UUID) :
    Transacts Txn.isOpen Txn.nothing p (Api.deleteEndpoint id) := by
  refine transacts_bind (q := EndpointRepository.deactivate id) (transacts_await hp rfl)
    fun there p hp _ _ => ?_
  cases there with
  | true => exact transacts_done hp trivial
  | false => exact transacts_raised hp _

theorem transacts_rotateSecret (hp : p.isOpen) (id : UUID) :
    Transacts Txn.isOpen Txn.nothing p (Api.rotateSecret id) := by
  refine transacts_bind (T := Txn.isOpen) (K := Txn.nothing) ?_ fun _ p hp _ _ =>
    transacts_found hp _ _
  refine transacts_bind (q := EndpointRepository.getById id) (transacts_await hp rfl)
    fun row p hp _ _ => ?_
  cases row with
  | none => exact transacts_done hp trivial
  | some endpoint =>
    refine transacts_bind (q := tokenHex) (transacts_await hp rfl) fun _ p hp _ _ => ?_
    refine transacts_bind (q := flushEndpoint _ _) (transacts_await hp rfl) fun _ p hp _ _ => ?_
    exact transacts_done hp trivial

theorem transacts_discardDlqEntry (hp : p.isOpen) (id : UUID) :
    Transacts Txn.isOpen Txn.nothing p (Api.discardDlqEntry id) := by
  refine transacts_bind (q := DeadLetterRepository.deleteEntry id) (transacts_await hp rfl)
    fun there p hp _ _ => ?_
  cases there with
  | true => exact transacts_done hp trivial
  | false => exact transacts_raised hp _

theorem transacts_globalStats (hp : p.isOpen) :
    Transacts Txn.isOpen Txn.nothing p Api.globalStats := by
  refine transacts_bind (q := EventRepository.countByStatus none) (transacts_await hp rfl)
    fun _ p hp _ _ => ?_
  refine transacts_bind (q := DeadLetterRepository.count) (transacts_await hp rfl)
    fun _ p hp _ _ => ?_
  refine transacts_bind (q := getOpenCircuits) (transacts_await hp rfl) fun _ p hp _ _ => ?_
  exact transacts_done hp trivial

/-- A new event is inserted by the transaction. -/
theorem transacts_create (hp : p.isOpen) (row : UUID → Datetime → WebhookEvent) :
    Transacts Txn.isOpen Txn.Knows p (EventRepository.create row) := by
  refine transacts_bind (q := uuid4) (transacts_await hp rfl) fun id p hp _ _ => ?_
  refine transacts_bind (q := now) (transacts_await hp rfl) fun time p hp _ _ => ?_
  have hinserted : Transacts Txn.isOpen (fun _ => Txn.Knows (row id time)) p
      (insertEvent (row id time)) := by
    refine transacts_perform hp rfl fun v => ?_
    cases p with
    | building seen ws =>
      rw [Txn.answered_building rfl]
      exact Or.inr (List.mem_append_right _ List.mem_cons_self)
    | lost => trivial
    | _ => exact hp.elim
  exact transacts_bind hinserted fun _ p hp _ hknown => transacts_done hp hknown

/-- What the lookup finds was read before any statement. -/
theorem transacts_lookup (data : EventCreate) :
    Transacts Txn.isOpen (fun x p => ∀ r, x = some r → p.Knows r) (.building [] [])
      (Api.lookup data) := by
  have hnone : Transacts Txn.isOpen (fun x p => ∀ r, x = some r → p.Knows r) (.building [] [])
      (Prog.done none : Relay (Option WebhookEvent)) :=
    transacts_done (show Txn.isOpen (.building [] []) from trivial) fun _ h => nomatch h
  unfold Api.lookup
  cases data.idempotencyKey with
  | none => exact hnone
  | some key =>
    dsimp only
    split_ifs
    · exact hnone
    · refine transacts_perform (p := .building [] []) trivial rfl fun v r hr => ?_
      subst hr
      exact Or.inl List.mem_cons_self

theorem transacts_createEvent (data : EventCreate) :
    Transacts Txn.isOpen Txn.Knows (.building [] []) (Api.createEvent data) := by
  refine transacts_bind (transacts_lookup data) fun existing p hp _ hfound => ?_
  cases existing with
  | some r => exact transacts_done hp (hfound r rfl)
  | none =>
    refine transacts_bind (q := EndpointRepository.getById data.endpointId)
      (transacts_await hp rfl) fun row p hp _ _ => ?_
    refine transacts_bind (transacts_found hp _ row) fun endpoint p hp _ _ => ?_
    split_ifs
    · exact transacts_raised hp _
    · exact transacts_raised hp _
    · refine transacts_bind (transacts_create hp _) fun event p hp _ hknown => ?_
      refine transacts_bind (q := enqueueJob event.id) (transacts_await hp rfl)
        fun _ p hp hkeeps _ => ?_
      exact transacts_done hp (hkeeps event hknown)

end handlers

/-! ### The replays -/

section replays

variable {p : Txn}

/-- The transaction of a single replay is committed when it answers; in a bulk replay it is left
open for the next entry. -/
theorem transacts_replaySingle (hp : p.isOpen) (id : UUID) (force own : Bool) :
    Transacts (if own then Txn.isSettled else Txn.isOpen) (fun res => Txn.KnowsId res.newEventId) p
      (replaySingle id force own) := by
  have hcommit (p : Txn) (hp : p.isOpen) :
      Transacts (if own then Txn.isSettled else Txn.isOpen) Txn.nothing p (commitOwn own) := by
    cases own with
    | true => exact transacts_commit hp
    | false => exact transacts_done (T := Txn.isOpen) hp trivial
  have henqueue (p : Txn) (hp : (if own then Txn.isSettled else Txn.isOpen) p) (event : UUID) :
      Transacts (if own then Txn.isSettled else Txn.isOpen) Txn.nothing p (enqueueJob event) := by
    cases own with
    | true => exact transacts_settled hp ⟨rfl, rfl⟩
    | false => exact transacts_await hp rfl
  refine transacts_bind (q := DeadLetterRepository.getById id) (transacts_await hp rfl)
    fun row p hp _ _ => ?_
  cases row with
  | none => exact transacts_raised hp _
  | some entry =>
    refine transacts_bind (transacts_reads (calls_checkRecent ⟨rfl, rfl⟩ entry force) hp)
      fun _ p hp _ _ => ?_
    refine transacts_bind (transacts_create hp _) fun event p hp _ hknown => ?_
    refine transacts_bind (T := Txn.isOpen) (K := Txn.nothing)
      (q := DeadLetterRepository.markReplayed entry) ?_ fun entry' p hp hkeeps₁ _ => ?_
    · refine transacts_bind (q := now) (transacts_await hp rfl) fun _ p hp _ _ => ?_
      refine transacts_bind (q := flushDeadLetter _ _) (transacts_await hp rfl)
        fun _ p hp _ _ => ?_
      exact transacts_done hp trivial
    refine transacts_bind (q := resetCircuit _) (transacts_await hp rfl)
      fun _ p hp hkeeps₂ _ => ?_
    refine transacts_bind (hcommit p hp) fun _ p hp hkeeps₃ _ => ?_
    refine transacts_bind (henqueue p hp event.id) fun _ p hp hkeeps₄ _ => transacts_done hp ?_
    exact ⟨event, hkeeps₄ _ (hkeeps₃ _ (hkeeps₂ _ (hkeeps₁ _ hknown))), rfl⟩

/-- The loop of a bulk replay, by induction on the entries that are left. -/
theorem transacts_replayEach (force : Bool) (entries : List DeadLetterEvent) :
    ∀ (results : List ReplayResult) (errors : ℕ) (p : Txn), p.isOpen →
      (∀ res ∈ results, p.KnowsId res.newEventId) →
      Transacts Txn.isOpen (fun x p => ∀ res ∈ x.1, p.KnowsId res.newEventId) p
        (replayEach force entries results errors) := by
  induction entries with
  | nil => exact fun _ _ p hp hknown => transacts_done hp hknown
  | cons entry entries ih =>
    intro results errors p hp hknown
    refine (Prog.obeys_bind _ _).mpr ((Prog.obeys_attempt _).mpr ?_)
    refine (transacts_replaySingle hp entry.id force false).mono fun r p' hr => ?_
    -- what one entry leaves known, the rest of the loop keeps
    have hrest {q : Relay (List ReplayResult × ℕ)} (hkeeps : p.Keeps p')
        (h : Transacts Txn.isOpen (fun x p => ∀ res ∈ x.1, p.KnowsId res.newEventId) p' q) :
        q.Obeys txnContract (Txn.Leaves Txn.isOpen
          (fun x p => ∀ res ∈ x.1, p.KnowsId res.newEventId) p) p' := by
      refine h.mono fun r p'' hr => ?_
      cases r with
      | ok x => exact ⟨hr.1, hkeeps.trans hr.2.1, hr.2.2⟩
      | error x => exact fun hx => ⟨(hr hx).1, hkeeps.trans (hr hx).2⟩
    cases r with
    | ok result =>
      obtain ⟨hp', hkeeps, hresult⟩ := hr
      refine hrest hkeeps (ih _ _ _ hp' fun res hres => ?_)
      rcases List.mem_append.mp hres with hres | hres
      · exact (hknown res hres).keeps hkeeps
      · rw [List.mem_singleton.mp hres]
        exact hresult
    | error x =>
      dsimp only
      split_ifs with hx
      · obtain ⟨hp', hkeeps⟩ := hr hx
        exact hrest hkeeps (ih _ _ _ hp' fun res hres => (hknown res hres).keeps hkeeps)
      · exact fun hx' => absurd hx' hx

theorem transacts_replayBulk (hp : p.isOpen) (endpointId : Option UUID) (eventType : Option Str)
    (force : Bool) : Transacts Txn.isSettled
      (fun x p => ∀ res ∈ x.results, p.KnowsId res.newEventId) p
      (replayBulk endpointId eventType force) := by
  refine transacts_bind (q := DeadLetterRepository.getUnreplayedByFilter endpointId eventType)
    (transacts_await hp rfl) fun entries p hp _ _ => ?_
  refine transacts_bind (transacts_replayEach force entries [] 0 p hp fun _ h => nomatch h)
    fun x p hp _ hknown => ?_
  refine transacts_bind (transacts_commit hp) fun _ p hp hkeeps _ => transacts_done hp ?_
  exact fun res hres => (hknown res hres).keeps hkeeps

theorem transacts_replayDlqEvent (hp : p.isOpen) (id : UUID) (force : Bool) :
    Transacts Txn.isSettled (fun res => Txn.KnowsId res.newEventId) p
      (Api.replayDlqEvent id force) := by
  refine (Prog.obeys_bind _ _).mpr ((Prog.obeys_attempt _).mpr ?_)
  refine (transacts_replaySingle hp id force true).mono fun r p' hr => ?_
  cases r with
  | ok result => exact ⟨hr.1, hr.2.1, hr.2.2⟩
  | error x =>
    cases x with
    | deadLetterNotFound _ => exact fun hx => nomatch hx
    | recentlyReplayed _ => exact fun hx => nomatch hx
    | _ => exact hr

end replays

/-! ### Runs of `deliver`, the cron job, and all programs -/

/-- The phase of a run of `deliver` says how far its transaction has come. -/
def Phase.Transacting : Phase → Txn → Prop
  | .started, p => ∃ seen, p = .building seen []
  | .loaded _ _ ws, p => p = .lost ∨ ∃ seen, p = .building seen ws
  | .closed, _ => True

/-- The contract of `deliver` asks for one transaction, too. -/
theorem deliver_simulates (id : UUID) :
    Contract.Simulates (deliverContract id) txnContract Phase.Transacting where
  allows p p' e hR hallow := by
    cases p with
    | started =>
      obtain ⟨seen, rfl⟩ := hR
      trivial
    | loaded ev ep ws =>
      rcases hR with rfl | ⟨seen, rfl⟩ <;> trivial
    | closed => exact hallow.elim
  next p p' e r hR hallow := by
    cases p with
    | started =>
      obtain ⟨seen, rfl⟩ := hR
      obtain rfl : e = .getEventWithEndpoint id := hallow
      rcases r with x | _ | ⟨ev, _ | ep⟩
      · trivial
      · trivial
      · trivial
      · exact Or.inr ⟨_, Txn.answered_building (e := .getEventWithEndpoint id) rfl _ seen []⟩
    | loaded ev ep ws =>
      show (Phase.flushed ev ep ws e r).Transacting (p'.next e r)
      unfold Phase.flushed
      cases hc : e.isCommit with
      | true => trivial
      | false =>
        simp only [Bool.false_eq_true, if_false]
        cases r with
        | ok v =>
          rcases hR with rfl | ⟨seen, rfl⟩
          · exact Or.inl rfl
          · exact Or.inr ⟨_, Txn.answered_building hc v seen ws⟩
        | error x =>
          dsimp only
          split_ifs with hw
          · have hidle : e.Idle := ⟨hc, List.isEmpty_iff.mp hw⟩
            show (Phase.loaded ev ep ws).Transacting
              (if countedError x then .lost else p'.failed e)
            rw [Txn.failed_idle hidle]
            split_ifs
            · exact Or.inl rfl
            · exact hR
          · trivial
    | closed => trivial

/-- The events whose identifiers a reply carries are known. -/
def Reply.Known (p : Txn) : Reply → Prop
  | .event r => p.Knows r
  | .replay r => p.KnowsId r.newEventId
  | .bulk r => ∀ x ∈ r.results, p.KnowsId x.newEventId
  | _ => True

/-- The coroutine is a request. -/
def Origin.isRequest : Origin → Bool
  | .request _ => true
  | _ => false

/-- How a coroutine ends: a request that answers has committed what it answers with. -/
def Origin.Settles (o : Origin) (r : Except PyExn Reply) (p : Txn) : Prop :=
  ∀ reply, r = .ok reply → o.isRequest = true → p.isSettled ∧ reply.Known p

/-- The reply of a request that leaves its transaction settled. -/
theorem settles_request {α : Type} {K : α → Txn → Prop} {p : Txn} {q : Relay α}
    (h : Transacts Txn.isSettled K p q) (o : Origin) (g : α → Reply)
    (hg : ∀ a p, K a p → (g a).Known p) : (g <$> q).Obeys txnContract o.Settles p := by
  refine (Prog.obeys_map g q).mpr (h.mono fun r p' hr => ?_)
  intro reply hreply _
  obtain ⟨a, rfl, rfl⟩ := map_eq_ok.mp hreply
  exact ⟨hr.1, hg a p' hr.2.2⟩

/-- A poll makes no statement. -/
theorem idle_pollPendingRetries : Worker.pollPendingRetries.Calls Op.Idle :=
  pollPendingRetries_polls.imp fun e he => by
    cases e with
    | now | selectDueForRetry _ _ | selectStalePending _ _ | enqueueJob _ => exact ⟨rfl, rfl⟩
    | _ => exact he.elim

/-- **Every coroutine makes one transaction**, whatever its calls are answered. -/
theorem program_transacts (deps : Deps) (o : Origin) :
    (o.program deps).Obeys txnContract o.Settles (.building [] []) := by
  have hopen : Txn.isOpen (.building [] []) := trivial
  have hjob (id : UUID) {o : Origin} (ho : o.isRequest = false) :
      (jobProgram deps id).Obeys txnContract o.Settles (.building [] []) := by
    have hstart : Phase.started.Transacting (.building [] []) := ⟨[], rfl⟩
    have hdeliver : (DeliveryService.deliver deps id).Obeys txnContract (fun _ _ => True)
        (.building [] []) :=
      (deliver_obeys deps id).simulate (deliver_simulates id) (fun _ _ _ _ _ => trivial) hstart
    refine (Prog.obeys_map _ _).mpr ((Prog.obeys_bind _ _).mpr (hdeliver.mono fun r p _ => ?_))
    cases r with
    | ok outcome =>
      intro reply _ hreq
      rw [ho] at hreq
      cases hreq
    | error x => exact fun _ h => nomatch h
  cases o with
  | job id => exact hjob id rfl
  | reaped id => exact hjob id rfl
  | cron =>
    refine (Prog.obeys_map _ _).mpr ((transacts_reads idle_pollPendingRetries hopen).mono ?_)
    exact fun r p _ reply _ hreq => nomatch hreq
  | request r =>
    have hnothing {α : Type} (a : α) (p p' : Txn) (_ : p.Keeps p') (h : Txn.nothing a p) :
        Txn.nothing a p' := h
    cases r with
    | createEndpoint data =>
      exact settles_request (transacts_getDb (transacts_createEndpoint hopen data) hnothing) _ _
        fun _ _ _ => trivial
    | updateEndpoint id data =>
      exact settles_request (transacts_getDb (transacts_updateEndpoint hopen id data) hnothing) _ _
        fun _ _ _ => trivial
    | deleteEndpoint id =>
      exact settles_request (transacts_getDb (transacts_deleteEndpoint hopen id) hnothing) _ _
        fun _ _ _ => trivial
    | rotateSecret id =>
      exact settles_request (transacts_getDb (transacts_rotateSecret hopen id) hnothing) _ _
        fun _ _ _ => trivial
    | createEvent data =>
      exact settles_request (transacts_getDb (transacts_createEvent data)
        fun r _ _ hkeeps hr => hkeeps r hr) _ _ fun _ _ h => h
    | replay id force =>
      exact settles_request (transacts_replayDlqEvent hopen id force) _ _ fun _ _ h => h
    | replayBulk endpointId eventType force =>
      exact settles_request (transacts_replayBulk hopen endpointId eventType force) _ _
        fun _ _ h => h
    | discard id =>
      exact settles_request (transacts_getDb (transacts_discardDlqEntry hopen id) hnothing) _ _
        fun _ _ _ => trivial
    | stats =>
      exact settles_request (transacts_getDb (transacts_globalStats hopen) hnothing) _ _
        fun _ _ _ => trivial

end WebhookRelay
