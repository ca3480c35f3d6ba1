import WebhookRelay.Effect.Progress
import WebhookRelay.Runs.LockOrder

/-!
# Where the identifiers go that have been drawn

`uuid4` makes the keys of new events and of new entries of the dead letter queue. An identifier that
has been drawn for one of them is in one place: with the coroutine that has drawn it, in a session
that waits for its commit, or in the log (`identifiers`). No step makes more of them than it draws
(`Reaches.identifiers_le`), so as long as no identifier is drawn twice (`DrawsFresh`), no two rows
get the same one, and nobody else holds one that a coroutine has not used yet
(`Reaches.nodup_identifiers`).
-/

namespace WebhookRelay

open Data Effect ReplayService

/-! ### Rows that are created -/

/-- The identifier of the event or of the entry that a statement creates. -/
def Write.creates : Write → Option UUID
  | .insertEvent r => some r.id
  | .insertDeadLetter r => some r.id
  | _ => none

/-- The identifiers of the events and of the entries that some statements create. -/
def createdIn (ws : List Write) : Multiset UUID := (ws.filterMap Write.creates : List UUID)

@[simp] theorem createdIn_nil : createdIn [] = 0 := rfl

@[simp] theorem createdIn_append (ws ws' : List Write) :
    createdIn (ws ++ ws') = createdIn ws + createdIn ws' := by
  simp [createdIn]

theorem mem_createdIn {ws : List Write} {id : UUID} :
    id ∈ createdIn ws ↔ ∃ w ∈ ws, w.creates = some id := by
  simp [createdIn]

/-- A call gives away the identifiers that its statements create. -/
theorem createdIn_writes (e : Op) : createdIn e.writes = (e.spends.toList : Multiset UUID) := by
  rcases e.writes_cases with hnone | ⟨w, hw, hone⟩
  · rw [hnone]
    cases e with
    | insertEvent _ => cases hnone
    | insertDeadLetter _ => cases hnone
    | _ => rfl
  · rw [hone]
    cases hw <;> rfl

/-- A call that gives an identifier away makes a statement. -/
theorem Op.writes_of_spends {e : Op} {id : UUID} (h : e.spends = some id) :
    e.writes.isEmpty = false := by
  cases e with
  | insertEvent _ => rfl
  | insertDeadLetter _ => rfl
  | _ => cases h

/-! ### What a phase holds -/

/-- The identifiers that a coroutine has drawn and not given away. -/
def Locking.unused : Locking → Multiset UUID
  | .holding unused _ _ _ => unused
  | _ => 0

/-- The identifiers that a call draws. -/
def Op.draws : (e : Op) → Except PyExn e.Resp → Multiset UUID
  | .uuid4, .ok (u : UUID) => {u}
  | _, _ => 0

/-- What an answered call gives away was drawn before. -/
theorem Locking.unused_answered {unused : List UUID} {event : Option UUID} {queue : List UUID}
    {ws : List Write} {e : Op} (hspends : ∀ id, e.spends = some id → id ∈ unused) (v : e.Resp) :
    (e.spends.toList : Multiset UUID) + (answered unused event queue ws e v).unused ≤
      unused + e.draws (.ok v) := by
  have hgiven {id : UUID} (hid : id ∈ unused) :
      (([id] : List UUID) : Multiset UUID) + (unused.erase id : List UUID) ≤ unused + 0 := by
    rw [add_zero, ← Multiset.coe_erase, Multiset.coe_singleton, Multiset.singleton_add,
      Multiset.cons_erase hid]
  cases e with
  | insertEvent r => exact hgiven (hspends r.id rfl)
  | insertDeadLetter r => exact hgiven (hspends r.id rfl)
  | uuid4 =>
    show 0 + ((unused ++ [show UUID from v] : List UUID) : Multiset UUID) ≤ unused + {v}
    rw [zero_add, ← Multiset.coe_add, Multiset.coe_singleton]
    exact le_rfl
  | commit => exact Multiset.zero_le _
  | getEventWithEndpoint id =>
    cases v <;> exact (zero_add _).trans_le (add_zero _).ge
  | getDeadLetter id =>
    rcases v with _ | entry
    · exact (zero_add _).trans_le (add_zero _).ge
    · show 0 + Locking.unused (if entry.id = id then _ else _) ≤ _
      split_ifs
      · exact (zero_add _).trans_le (add_zero _).ge
      · exact Multiset.zero_le _
  | _ => exact (zero_add _).trans_le (add_zero _).ge

/-- No call gives away more than what was drawn. -/
theorem Locking.unused_next {p : Locking} {e : Op} (hallow : p.allows e) (hlost : p ≠ .lost)
    (r : Except PyExn e.Resp) :
    (e.spends.toList : Multiset UUID) + (p.next e r).unused ≤ p.unused + e.draws r := by
  have hunspent (hnone : e.spends = none) {p' : Locking} (hp' : p'.unused ≤ p.unused) :
      (e.spends.toList : Multiset UUID) + p'.unused ≤ p.unused + e.draws r := by
    rw [hnone]
    exact (zero_add _).trans_le (hp'.trans (Multiset.le_add_right _ _))
  cases p with
  | lost => exact absurd rfl hlost
  | stopped => exact hallow.elim
  | committed =>
    have hnone : e.spends = none := by
      cases hs : e.spends with
      | none => rfl
      | some id =>
        have hwrites := Op.writes_of_spends hs
        rw [hallow.writes] at hwrites
        cases hwrites
    refine hunspent hnone ?_
    cases r with
    | ok v => exact le_rfl
    | error x =>
      show (if countedError x then Locking.lost else .committed).unused ≤ 0
      split_ifs <;> exact le_rfl
  | holding unused event queue ws =>
    cases r with
    | ok v => exact unused_answered hallow.spends v
    | error x =>
      show _ + (if countedError x then Locking.lost else
        if e.isCommit || !e.writes.isEmpty then .stopped else
          .holding unused event queue ws).unused ≤ _
      cases hs : e.spends with
      | none =>
        rw [← hs]
        refine hunspent hs ?_
        split_ifs
        · exact Multiset.zero_le _
        · exact Multiset.zero_le _
        · exact le_rfl
      | some id =>
        have hgone : (if countedError x then Locking.lost else
            if e.isCommit || !e.writes.isEmpty then .stopped else
              .holding unused event queue ws).unused = 0 := by
          rw [Op.writes_of_spends hs, Bool.not_false, Bool.or_true, if_pos rfl]
          split_ifs <;> rfl
        rw [hgone, add_zero]
        refine le_trans ?_ (Multiset.le_add_right _ _)
        exact Multiset.singleton_le.mpr (hallow.spends id hs)

/-! ### What the system holds -/

/-- How far a coroutine has come with its locks. -/
def Coroutine.locking (th : Coroutine) : Locking := lockContract.run .start th.trace

/-- The identifiers that a coroutine has drawn. -/
def Coroutine.drawn (th : Coroutine) : Multiset UUID :=
  (th.trace.map fun x => x.1.draws x.2).sum

/-- The identifiers that are with a coroutine: unused, or in its session. -/
def Coroutine.owns (th : Coroutine) : Multiset UUID :=
  createdIn th.session.pending + (Coroutine.locking th).unused

/-- All identifiers that have been drawn. -/
def drawn (c : Config) : Multiset UUID := (c.threads.map Coroutine.drawn).sum

/-- All identifiers that are in the log or with a coroutine. -/
def identifiers (c : Config) : Multiset UUID :=
  createdIn c.world.wal + (c.threads.map Coroutine.owns).sum

section answered

variable (th : Coroutine) (e : Op) (r : Except PyExn e.Resp) (p : Relay Reply) (s : Session)

theorem Coroutine.locking_answered :
    Coroutine.locking (th.answered machine e r p s) = (Coroutine.locking th).next e r := by
  unfold Coroutine.locking
  simp only [Thread.answered, Contract.run_append_singleton]
  rfl

theorem Coroutine.drawn_answered :
    Coroutine.drawn (th.answered machine e r p s) = Coroutine.drawn th + e.draws r := by
  unfold Coroutine.drawn
  simp [Thread.answered]

/-- A coroutine that has ended has given its session up. -/
theorem Coroutine.owns_answered : Coroutine.owns (th.answered machine e r p s) ≤
    createdIn s.pending + ((Coroutine.locking th).next e r).unused := by
  unfold Coroutine.owns
  rw [Coroutine.locking_answered]
  refine Multiset.add_le_add_right ?_
  show createdIn (if p.ended then Session.fresh else s).pending ≤ _
  split_ifs
  · exact Multiset.zero_le _
  · exact le_rfl

end answered

section reachable

variable {deps : Deps} {ok : Config → Action → Prop} {c c' : Config} {a : Action}
  {th : Coroutine}

/-- What a coroutine does next is allowed by the order of locks. -/
theorem Reaches.locking_allows (h : Reaches deps ok c) (hth : th ∈ c.threads) {e : Op}
    {k : Except PyExn e.Resp → Relay Reply} (hp : th.prog = .call e k) :
    (Coroutine.locking th).allows e := by
  rcases (h.obeys hth (program_locks deps th.origin)).2 with hobeys | hcut
  · rw [hp] at hobeys
    exact hobeys.1
  · rw [hp] at hcut
    cases hcut

/-- A get answers with the entry that was asked for. -/
theorem exec_getDeadLetter_id {o : Oracle} {id : UUID} {w w' : World} {s s' : Session}
    {entry : DeadLetterEvent} (h : exec o (.getDeadLetter id) w s = (.ok (some entry), w', s')) :
    entry.id = id := by
  rw [exec_getDeadLetter] at h
  cases hf : s.loaded.find? fun x => decide (x.id = id) with
  | some x =>
    rw [hf] at h
    cases h
    have hid := List.find?_some hf
    exact of_decide_eq_true hid
  | none =>
    rw [hf] at h
    dsimp only at h
    cases hg : (w.view s).deadLetters.get? id with
    | none =>
      rw [hg] at h
      cases h
    | some r =>
      rw [hg] at h
      cases h
      exact Table.key_of_get? hg

/-- No call is answered as no call is. -/
theorem Answers.locking_ne_lost {t : ℕ} {others : List Session} {e : Op} {w w' : World}
    {s s' : Session} {r : Except PyExn e.Resp} (h : Answers t others e w s a r w' s')
    {p : Locking} (hp : p ≠ .lost) : p.next e r ≠ .lost := by
  cases r with
  | error x =>
    have hnext : p.next e (.error x) = p.failed e := by
      have hcounted : (if ReplayService.countedError x then Locking.lost else p.failed e) =
          p.failed e := by
        rw [h.countedError]
        rfl
      cases p <;> exact hcounted
    rw [hnext]
    cases p with
    | lost => exact absurd rfl hp
    | holding unused event queue ws =>
      show (if e.isCommit || !e.writes.isEmpty then Locking.stopped else _) ≠ .lost
      split_ifs <;> exact Locking.noConfusion
    | _ => exact Locking.noConfusion
  | ok v =>
    cases p with
    | lost => exact absurd rfl hp
    | holding unused event queue ws =>
      show Locking.answered unused event queue ws e v ≠ .lost
      cases e with
      | getDeadLetter id =>
        rcases v with _ | entry
        · exact Locking.noConfusion
        · obtain ⟨o, -, hexec⟩ := h.of_ok
          show (if entry.id = id then Locking.holding unused event queue ws else .lost) ≠ .lost
          rw [if_pos (exec_getDeadLetter_id hexec)]
          exact Locking.noConfusion
      | getEventWithEndpoint id => cases v <;> exact Locking.noConfusion
      | _ => exact Locking.noConfusion
    | _ => exact Locking.noConfusion

theorem Reaches.locking_ne_lost (h : Reaches deps ok c) :
    ∀ th ∈ c.threads, Coroutine.locking th ≠ .lost := by
  refine h.invariant (J := fun c => ∀ th ∈ c.threads, Coroutine.locking th ≠ .lost)
    (fun _ _ hth => nomatch hth) fun c a c' hr hc _ hs => ?_
  refine (stepped hs).forall_threads hc (fun _ _ _ _ h => h) (fun _ _ _ h => nomatch h) ?_
    (fun _ _ h => h) fun _ _ _ _ _ _ h => h
  intro t th e k r w s _ _ ha _ hth
  rw [Coroutine.locking_answered]
  exact ha.locking_ne_lost hth

/-- What an answer leaves in the log, in the session and with the coroutine was there before, or
has just been drawn. -/
theorem Answers.identifiers_le {t : ℕ} {others : List Session} {e : Op} {w w' : World}
    {s s' : Session} {r : Except PyExn e.Resp} (h : Answers t others e w s a r w' s')
    {p : Locking} (hallow : p.allows e) (hlost : p ≠ .lost) :
    createdIn w'.wal + (createdIn s'.pending + (p.next e r).unused) ≤
      createdIn w.wal + (createdIn s.pending + p.unused) + e.draws r := by
  have hnext := Locking.unused_next hallow hlost r
  have hpending : createdIn s'.pending ≤
      createdIn s.pending + (e.spends.toList : Multiset UUID) := by
    cases hc : e.isCommit with
    | false =>
      rcases h.pending hc with ⟨hp, -⟩ | ⟨hp, -⟩
      · rw [hp, createdIn_append, createdIn_writes]
      · rw [hp]
        exact Multiset.le_add_right _ _
    | true =>
      cases e with
      | commit =>
        cases h with
        | lost => exact Multiset.le_add_right _ _
        | _ => exact Multiset.zero_le _
      | _ => cases hc
  rcases h.wal with hw | ⟨-, -, hw, hpend⟩
  · rw [hw, add_assoc, add_assoc]
    refine Multiset.add_le_add_left ?_
    calc createdIn s'.pending + (p.next e r).unused
        ≤ createdIn s.pending + e.spends.toList + (p.next e r).unused :=
          Multiset.add_le_add_right hpending
      _ ≤ createdIn s.pending + (p.unused + e.draws r) := by
          rw [add_assoc]
          exact Multiset.add_le_add_left hnext
  · have hunused : (p.next e r).unused ≤ p.unused + e.draws r :=
      le_trans (Multiset.le_add_left _ _) hnext
    rw [hw, hpend, createdIn_append, createdIn_nil, zero_add, add_assoc, add_assoc, add_assoc]
    exact Multiset.add_le_add_left (Multiset.add_le_add_left hunused)

/-- **Every identifier in the system was drawn**, and none is in more places than it was drawn
times: in every reachable state, under every interleaving. -/
theorem Reaches.identifiers_le (h : Reaches deps ok c) : identifiers c ≤ drawn c := by
  refine h.invariant (J := fun c => identifiers c ≤ drawn c) (fun _ => Multiset.zero_le _)
    fun c a c' hr hc _ hs => ?_
  have hset {t : ℕ} {th th' : Coroutine} {w : World} {u : Multiset UUID}
      (hth : c.threads[t]? = some th)
      (howns : createdIn w.wal + Coroutine.owns th' ≤
        createdIn c.world.wal + Coroutine.owns th + u)
      (hdrawn : Coroutine.drawn th' = Coroutine.drawn th + u) :
      identifiers ⟨w, c.threads.set t th'⟩ ≤ drawn ⟨w, c.threads.set t th'⟩ := by
    have hdrawnSum := Pool.sum_map_set hth th' Coroutine.drawn
    have hownsSum := Pool.sum_map_set hth th' Coroutine.owns
    rw [hdrawn] at hdrawnSum
    refine Multiset.le_iff_count.mpr fun id => ?_
    -- count by count this is arithmetic
    have hbefore := Multiset.le_iff_count.mp hc id
    have hstep := Multiset.le_iff_count.mp howns id
    have hd := congrArg (Multiset.count id) hdrawnSum
    have ho := congrArg (Multiset.count id) hownsSum
    unfold identifiers drawn at hbefore ⊢
    simp only [Multiset.count_add] at hbefore hstep hd ho ⊢
    omega
  cases stepped hs with
  | started h =>
    rename_i o w
    have hwal : w.wal = c.world.wal := by cases h <;> rfl
    have hdrawn : drawn ⟨w, c.threads ++ [o.start deps]⟩ = drawn c := by
      unfold drawn
      rw [List.map_append, List.sum_append]
      exact add_zero _
    have howns : identifiers ⟨w, c.threads ++ [o.start deps]⟩ = identifiers c := by
      unfold identifiers
      rw [hwal, List.map_append, List.sum_append]
      exact congrArg _ (add_zero _)
    rw [hdrawn, howns]
    exact hc
  | answered hth hp ha =>
    rename_i t th e k r w s
    have hm := List.mem_of_getElem? hth
    refine hset hth ?_ (Coroutine.drawn_answered th e r (k r) s)
    refine le_trans (Multiset.add_le_add_left (Coroutine.owns_answered th e r (k r) s)) ?_
    exact ha.identifiers_le (hr.locking_allows hm hp) (hr.locking_ne_lost th hm)
  | killed hth =>
    refine hset (u := 0) hth ?_ (add_zero _).symm
    rw [add_zero]
    refine Multiset.add_le_add_left (Multiset.add_le_add_right ?_)
    exact Multiset.zero_le _
  | reaped hth => exact hset (u := 0) hth (add_zero _).ge (add_zero _).symm
  | ticked => exact hc

/-! ### New identifiers -/

/-- The next call of this coroutine is `uuid4`. -/
def drawing (c : Config) (t : ℕ) : Bool :=
  match c.threads[t]? with
  | some th =>
    match th.prog with
    | .call .uuid4 _ => true
    | _ => false
  | none => false

/-- An identifier that is drawn has not been drawn before. -/
def DrawsFresh (c : Config) : Action → Prop
  | .call t o => drawing c t = true → o.uuid ∉ drawn c
  | _ => True

instance (c : Config) (a : Action) : Decidable (DrawsFresh c a) :=
  match a with
  | .call t o => inferInstanceAs (Decidable (drawing c t = true → o.uuid ∉ drawn c))
  | .arrive _ | .startJob _ | .startCron | .fault _ _ _ _ | .kill _ | .finishJob _ | .tick _ =>
    inferInstanceAs (Decidable True)

/-- A step draws at most one identifier. -/
theorem drawn_cases (hs : step deps c a = some c') : drawn c' = drawn c ∨
    ∃ t o, a = .call t o ∧ drawing c t = true ∧ drawn c' = o.uuid ::ₘ drawn c := by
  have hset {t : ℕ} {th th' : Coroutine} (w : World) (u : Multiset UUID)
      (hth : c.threads[t]? = some th) (hdrawn : Coroutine.drawn th' = Coroutine.drawn th + u) :
      drawn ⟨w, c.threads.set t th'⟩ = drawn c + u := by
    have hsum := Pool.sum_map_set hth th' Coroutine.drawn
    rw [hdrawn] at hsum
    refine add_right_cancel (b := Coroutine.drawn th) ?_
    unfold drawn
    rw [hsum]
    ac_rfl
  cases stepped hs with
  | started h =>
    left
    unfold drawn
    rw [List.map_append, List.sum_append]
    exact add_zero _
  | answered hth hp ha =>
    rename_i t th e k r w s
    have hall := hset w _ hth (Coroutine.drawn_answered th e r (k r) s)
    by_cases hdraws : e.draws r = 0
    · left
      rw [hall, hdraws, add_zero]
    · cases e with
      | uuid4 =>
        cases r with
        | error x => exact absurd rfl hdraws
        | ok u =>
          obtain ⟨o, rfl, hexec⟩ := ha.of_ok
          refine Or.inr ⟨t, o, rfl, ?_, ?_⟩
          · unfold drawing
            rw [hth]
            dsimp only
            rw [hp]
          · cases hexec
            rw [hall, add_comm]
            rfl
      | _ => exact absurd rfl hdraws
  | killed hth =>
    left
    refine (hset _ 0 hth ?_).trans (add_zero _)
    exact (add_zero _).symm
  | reaped hth =>
    left
    refine (hset _ 0 hth ?_).trans (add_zero _)
    exact (add_zero _).symm
  | ticked => exact Or.inl rfl

/-- **No identifier is drawn twice**, as long as those that are drawn are new. -/
theorem Reaches.nodup_drawn (h : Reaches deps ok c) (hok : ∀ c a, ok c a → DrawsFresh c a) :
    (drawn c).Nodup := by
  refine h.invariant (J := fun c => (drawn c).Nodup) (fun _ => Multiset.nodup_zero)
    fun c a c' _ hc ha hs => ?_
  rcases drawn_cases hs with hsame | ⟨t, o, rfl, hdrawing, hmore⟩
  · rw [hsame]
    exact hc
  · rw [hmore]
    exact Multiset.nodup_cons.mpr ⟨hok _ _ ha hdrawing, hc⟩

/-- **No identifier is in two places.** -/
theorem Reaches.nodup_identifiers (h : Reaches deps ok c)
    (hok : ∀ c a, ok c a → DrawsFresh c a) : (identifiers c).Nodup :=
  Multiset.nodup_of_le h.identifiers_le (h.nodup_drawn hok)

end reachable

end WebhookRelay
