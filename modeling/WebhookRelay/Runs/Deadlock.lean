import WebhookRelay.Runs.DeadLetters
import WebhookRelay.Runs.Identifiers
import Mathlib.Data.Multiset.OrderedMonoid
import Mathlib.Data.Prod.Lex

/-!
# No deadlock

Coroutines wait for each other's locks, and a request or a job that has to write several rows keeps
its locks until it commits. With the order of `lockContract` no circle of waiting coroutines can
close (`never_deadlocked`), in any state that the system reaches under any interleaving, with any
failures: a lock that a coroutine waits for comes before every lock that its holder waits for. The
entries of the dead letter queue are in the order of the instants at which they were dead-lettered,
which no later statement changes, so two bulk replays take the entries that both have selected in
the same order.
-/

namespace WebhookRelay

open Data Effect ReplayService

/-! ### Instants of the entries -/

/-- The entries of the dead letter queue that some statements create. -/
def entriesOf (ws : List Write) : List DeadLetterEvent :=
  ws.filterMap fun
    | .insertDeadLetter r => some r
    | _ => none

/-- When an entry was dead-lettered. -/
def DeadLetterEvent.instant (d : DeadLetterEvent) : ℤ := d.deadLetteredAt.micros

/-- When the entry with an identifier was created. -/
def instantOf (wal : List Write) (id : UUID) : ℤ :=
  (((entriesOf wal).find? fun d => decide (d.id = id)).map DeadLetterEvent.instant).getD 0

/-- An entry with this identifier was created. -/
def Created (wal : List Write) (id : UUID) : Prop := ∃ d ∈ entriesOf wal, d.id = id

section entries

variable {wal ws : List Write} {id : UUID} {d : DeadLetterEvent}

theorem entriesOf_append (wal ws : List Write) :
    entriesOf (wal ++ ws) = entriesOf wal ++ entriesOf ws := by
  simp [entriesOf]

theorem mem_entriesOf : d ∈ entriesOf ws ↔ Write.insertDeadLetter d ∈ ws := by
  unfold entriesOf
  rw [List.mem_filterMap]
  constructor
  · rintro ⟨w, hw, hd⟩
    cases w with
    | insertDeadLetter r =>
      cases hd
      exact hw
    | _ => cases hd
  · exact fun h => ⟨_, h, rfl⟩

theorem Created.append (h : Created wal id) (ws : List Write) : Created (wal ++ ws) id := by
  obtain ⟨d, hd, hid⟩ := h
  rw [Created, entriesOf_append]
  exact ⟨d, List.mem_append_left _ hd, hid⟩

/-- The instant of an entry that was created does not change. -/
theorem instantOf_append (h : Created wal id) (ws : List Write) :
    instantOf (wal ++ ws) id = instantOf wal id := by
  obtain ⟨d, hd, hid⟩ := h
  have hfound : ((entriesOf wal).find? fun d => decide (d.id = id)).isSome = true :=
    List.find?_isSome.mpr ⟨d, hd, decide_eq_true hid⟩
  unfold instantOf
  rw [entriesOf_append, List.find?_append, Option.or_of_isSome hfound]

/-- The instant of an entry, when identifiers are not used twice. -/
theorem instantOf_of_mem (hnodup : ((entriesOf wal).map DeadLetterEvent.id).Nodup)
    (hd : d ∈ entriesOf wal) : instantOf wal d.id = d.instant := by
  have hfound : (entriesOf wal).find? (fun x => decide (x.id = d.id)) = some d := by
    cases hf : (entriesOf wal).find? fun x => decide (x.id = d.id) with
    | none => exact absurd (List.find?_eq_none.mp hf d hd) (by simp)
    | some x =>
      have hid := List.find?_some hf
      exact congrArg some
        (List.inj_on_of_nodup_map hnodup (List.mem_of_find?_eq_some hf) hd (of_decide_eq_true hid))
  unfold instantOf
  rw [hfound]
  rfl

/-- No two entries have the same identifier, when the log has created none twice. -/
theorem nodup_entriesOf (h : (createdIn wal).Nodup) :
    ((entriesOf wal).map DeadLetterEvent.id).Nodup := by
  have hsub : ((entriesOf wal).map DeadLetterEvent.id).Sublist
      (wal.filterMap Write.creates) := by
    clear h
    induction wal with
    | nil => exact .slnil
    | cons w wal ih =>
      cases w with
      | insertDeadLetter r => exact ih.cons_cons r.id
      | insertEvent r => exact ih.cons r.id
      | _ => exact ih
  exact (Multiset.coe_nodup.mp h).sublist hsub

end entries

/-! ### Selections -/

/-- The entries are in the order in which they were created. -/
structure InOrder (wal : List Write) (queue : List UUID) : Prop where
  created : ∀ id ∈ queue, Created wal id
  order : queue.Pairwise fun id id' => instantOf wal id < instantOf wal id'

theorem InOrder.append {wal : List Write} {queue : List UUID} (h : InOrder wal queue)
    (ws : List Write) : InOrder (wal ++ ws) queue where
  created id hid := (h.created id hid).append ws
  order := h.order.imp_of_mem fun hid hid' hlt => by
    rw [instantOf_append (h.created _ hid), instantOf_append (h.created _ hid')]
    exact hlt

/-- A row of the table is an entry that was created at its instant. -/
theorem row_created {wal : List Write} (hnodup : (createdIn wal).Nodup) {r : DeadLetterEvent}
    (hr : r ∈ (Db.empty.applyAll wal).deadLetters.rows) :
    ∃ d ∈ entriesOf wal, d.id = r.id ∧ d.instant = r.instant ∧
      instantOf wal r.id = r.instant := by
  obtain ⟨d, hd, hkeeps⟩ := deadLetters_created wal hr
  have hmem : d ∈ entriesOf wal := by
    obtain ⟨w, hw, hentry⟩ := List.mem_filterMap.mp hd
    refine mem_entriesOf.mpr ?_
    cases w with
    | insertDeadLetter x =>
      obtain ⟨-, hx⟩ := Option.ite_none_right_eq_some.mp hentry
      cases hx
      exact hw
    | _ => cases hentry
  have hid : d.id = r.id := by rw [hkeeps]
  have hinstant : d.instant = r.instant := by
    unfold DeadLetterEvent.instant
    rw [hkeeps]
  refine ⟨d, hmem, hid, hinstant, ?_⟩
  rw [← hid, instantOf_of_mem (nodup_entriesOf hnodup) hmem, hinstant]

/-- **A selection is in the order in which the entries were created**, when no two of them were
created in the same microsecond. -/
theorem inOrder_selectDeadLetters {wal : List Write} (hnodup : (createdIn wal).Nodup)
    (hinstants : ((entriesOf wal).map DeadLetterEvent.instant).Nodup) (endpointId : Option UUID)
    (eventType : Option Str) (limit : ℕ) :
    InOrder wal (((Db.empty.applyAll wal).selectDeadLetters endpointId eventType limit).map
      DeadLetterEvent.id) := by
  have hids := nodup_selectDeadLetters (Db.empty.applyAll wal) endpointId eventType limit
  let older (a b : DeadLetterEvent) : Prop := a.deadLetteredAt.micros ≤ b.deadLetteredAt.micros
  have : Std.Total older := ⟨fun a b => le_total a.instant b.instant⟩
  have : IsTrans DeadLetterEvent older := ⟨fun _ _ _ => le_trans (α := ℤ)⟩
  have hsorted : ((Db.empty.applyAll wal).selectDeadLetters endpointId eventType limit).Pairwise
      older := (List.pairwise_insertionSort older _).sublist (List.take_sublist _ _)
  constructor
  · intro id hid
    obtain ⟨r, hr, rfl⟩ := List.mem_map.mp hid
    obtain ⟨d, hd, hdid, -⟩ := row_created hnodup (mem_selectDeadLetters hr)
    exact ⟨d, hd, hdid⟩
  · rw [List.pairwise_map]
    rw [List.nodup_iff_pairwise_ne, List.pairwise_map] at hids
    refine (hsorted.and hids).imp_of_mem fun hr hr' ⟨hle, hne⟩ => ?_
    obtain ⟨d, hd, hid, hinstant, hof⟩ := row_created hnodup (mem_selectDeadLetters hr)
    obtain ⟨d', hd', hid', hinstant', hof'⟩ := row_created hnodup (mem_selectDeadLetters hr')
    rw [hof, hof']
    refine lt_of_le_of_ne hle fun heq => hne ?_
    -- different entries were created at different instants
    have hsame : d = d' := List.inj_on_of_nodup_map hinstants hd hd'
      ((hinstant.trans heq).trans hinstant'.symm)
    rw [← hid, ← hid', hsame]

/-! ### What a coroutine holds -/

section phases

variable {unused queue unused' queue' : List UUID} {event event' : Option UUID}
  {ws ws' : List Write} {e : Op}

/-- A call that is answered leaves its statements; a load changes the event, and a selection the
queue. -/
theorem Locking.answered_eq_holding {v : e.Resp}
    (h : answered unused event queue ws e v = .holding unused' event' queue' ws') :
    e.isCommit = false ∧ ws' = ws ++ e.writes ∧ (e.isLoad = false → event' = event) ∧
      (e.isSelect = false → queue' = queue) := by
  have hsame : ws = ws ++ [] := (List.append_nil ws).symm
  cases e with
  | commit => cases h
  | getDeadLetter id =>
    rcases v with _ | entry
    · cases h
      exact ⟨rfl, rfl, fun _ => rfl, fun _ => rfl⟩
    · change (if entry.id = id then Locking.holding unused event queue ws else .lost) = _ at h
      split_ifs at h
      cases h
      exact ⟨rfl, hsame, fun _ => rfl, fun _ => rfl⟩
  | getEventWithEndpoint id =>
    cases v with
    | none =>
      cases h
      exact ⟨rfl, rfl, fun _ => rfl, fun _ => rfl⟩
    | some x =>
      cases h
      exact ⟨rfl, hsame, fun hload => (nomatch hload), fun _ => rfl⟩
  | selectDeadLetters _ _ _ =>
    cases h
    exact ⟨rfl, hsame, fun _ => rfl, fun hselect => nomatch hselect⟩
  | uuid4 =>
    cases h
    exact ⟨rfl, hsame, fun _ => rfl, fun _ => rfl⟩
  | _ =>
    cases h
    exact ⟨rfl, rfl, fun _ => rfl, fun _ => rfl⟩

/-- Where a phase that holds something comes from. -/
theorem Locking.next_eq_holding {p : Locking} {r : Except PyExn e.Resp}
    (h : p.next e r = .holding unused' event' queue' ws') :
    ∃ unused event queue ws, p = .holding unused event queue ws ∧ e.isCommit = false ∧
      ((∃ v, r = .ok v ∧
          answered unused event queue ws e v = .holding unused' event' queue' ws') ∨
        e.writes = [] ∧ event' = event ∧ queue' = queue ∧ ws' = ws) := by
  cases p with
  | holding unused event queue ws =>
    refine ⟨unused, event, queue, ws, rfl, ?_⟩
    cases r with
    | ok v => exact ⟨(answered_eq_holding h).1, Or.inl ⟨v, rfl, h⟩⟩
    | error x =>
      change (if countedError x then Locking.lost else
        if e.isCommit || !e.writes.isEmpty then .stopped else
          .holding unused event queue ws) = _ at h
      split_ifs at h with _ hfails
      cases h
      simp only [Bool.or_eq_true, Bool.not_eq_true', not_or, Bool.not_eq_true,
        Bool.not_eq_false, List.isEmpty_iff] at hfails
      exact ⟨hfails.1, Or.inr ⟨hfails.2, rfl, rfl, rfl⟩⟩
  | _ =>
    cases r with
    | ok v => cases h
    | error x =>
      change (if countedError x then Locking.lost else _) = _ at h
      split_ifs at h
      cases h

end phases

section reachable

variable {deps : Deps} {ok : Config → Action → Prop} {c c' : Config} {a : Action}
  {th : Coroutine}

/-- The session of a coroutine that goes on has the statements of its phase. -/
def Coroutine.Carries (th : Coroutine) : Prop :=
  ∀ unused event queue ws, Coroutine.locking th = .holding unused event queue ws →
    th.session.pending = ws

theorem Reaches.carries (h : Reaches deps ok c) :
    ∀ th ∈ c.threads, th.prog.ended = false → Coroutine.Carries th := by
  refine h.invariant (J := fun c => ∀ th ∈ c.threads, th.prog.ended = false →
    Coroutine.Carries th) (fun _ _ hth => nomatch hth) fun c a c' hr hc _ hs => ?_
  refine (stepped hs).forall_threads hc (fun _ _ _ _ h => h) ?_ ?_ ?_ fun _ _ _ _ _ _ h => h
  · intro o w _ _ unused event queue ws hstart
    cases hstart
    rfl
  · intro t th e k r w s _ hp ha _ hth hend unused event queue ws hnext
    have hsession : (th.answered machine e r (k r) s).session = s :=
      if_neg (by rw [show (k r).ended = false from hend]; decide)
    rw [Coroutine.locking_answered] at hnext
    rw [hsession]
    obtain ⟨unused₀, event₀, queue₀, ws₀, hp₀, hc, hcases⟩ := Locking.next_eq_holding hnext
    have hbefore := hth (by rw [hp]; rfl) _ _ _ _ hp₀
    rcases hcases with ⟨v, rfl, hv⟩ | ⟨hwrites, -, -, rfl⟩
    · rcases ha.pending hc with ⟨hs, -⟩ | ⟨-, x, hx⟩
      · rw [hs, hbefore, (Locking.answered_eq_holding hv).2.1]
      · cases hx
    · rcases ha.pending hc with ⟨hs, -⟩ | ⟨hs, -⟩
      · rw [hs, hwrites, List.append_nil, hbefore]
      · rw [hs, hbefore]
  · exact fun _ _ _ hend => nomatch hend

/-- Events stay in the table. -/
theorem holds_event_step (hs : step deps c a = some c') {id : UUID}
    (h : c.world.db.holds (.event id) = true) : c'.world.db.holds (.event id) = true := by
  have hkept (ws : List Write) : (c.world.db.applyAll ws).holds (.event id) = true :=
    holds_of_kept rfl (fun w => by cases w <;> simp [Write.removes]) h ws
  rcases (stepped hs).wal with hw | ⟨t, th, k, -, -, -, hw⟩
  · rw [World.db, hw]
    exact h
  · rw [World.db, hw, Db.applyAll_append]
    exact hkept _

/-- The events that a coroutine has loaded, or updates, are in the table. -/
structure Coroutine.Grounded (db : Db) (th : Coroutine) : Prop where
  loaded : ∀ unused id queue ws, Coroutine.locking th = .holding unused (some id) queue ws →
    db.holds (.event id) = true
  updates : ∀ id u, Write.updateEvent id u ∈ th.session.pending → db.holds (.event id) = true

/-- An event that is loaded before any statement is in the table. -/
theorem Answers.loaded {t : ℕ} {others : List Session} {id : UUID} {w w' : World} {s s' : Session}
    {x : WebhookEvent × Option WebhookEndpoint}
    (h : Answers t others (.getEventWithEndpoint id) w s a (.ok (some x)) w' s')
    (hpend : s.pending = []) : w.db.holds (.event x.1.id) = true := by
  obtain ⟨o, -, hexec⟩ := h.of_ok
  have hrow : (w.view s).eventWithEndpoint id = some x := by
    have hok := congrArg Prod.fst hexec
    exact Except.ok.inj hok
  rw [view_of_pending hpend] at hrow
  obtain ⟨r, hr, rfl⟩ := Option.map_eq_some_iff.mp hrow
  show (w.db.events.get? r.id).isSome = true
  rw [Table.key_of_get? hr, hr]
  rfl

theorem Reaches.grounded (h : Reaches deps ok c) :
    ∀ th ∈ c.threads, Coroutine.Grounded c.world.db th := by
  refine h.invariant (J := fun c => ∀ th ∈ c.threads, Coroutine.Grounded c.world.db th)
    (fun _ _ hth => nomatch hth) fun c a c' hr hc _ hs => ?_
  have hkept {th : Coroutine} (h : Coroutine.Grounded c.world.db th) :
      Coroutine.Grounded c'.world.db th :=
    ⟨fun u id q ws hp => holds_event_step hs (h.loaded u id q ws hp),
      fun id u hu => holds_event_step hs (h.updates id u hu)⟩
  refine (stepped hs).forall_threads hc (fun _ _ _ _ h => hkept h) ?_ ?_ ?_ ?_
  · exact fun _ _ _ => ⟨fun _ _ _ _ h => (nomatch h), fun _ _ h => nomatch h⟩
  · intro t th e k r w s hth hp ha _ hg
    have hm := List.mem_of_getElem? hth
    have hallow := hr.locking_allows hm hp
    have hcarries := hr.carries th hm (by rw [hp]; rfl)
    constructor
    · intro unused id queue ws hnext
      rw [Coroutine.locking_answered] at hnext
      refine holds_event_step hs ?_
      obtain ⟨unused₀, event₀, queue₀, ws₀, hp₀, -, hcases⟩ := Locking.next_eq_holding hnext
      rcases hcases with ⟨v, rfl, hv⟩ | ⟨-, rfl, -, -⟩
      · by_cases hload : e.isLoad = true
        · -- it was loaded before any statement
          rw [hp₀] at hallow
          obtain rfl := hallow.loads hload
          have hpend := hcarries _ _ _ _ hp₀
          cases e with
          | getEventWithEndpoint i =>
            cases v with
            | none =>
              cases hv
              exact hg.loaded _ _ _ _ hp₀
            | some x =>
              cases hv
              exact ha.loaded hpend
          | _ => cases hload
        · have hsame := (Locking.answered_eq_holding hv).2.2.1 (by simpa using hload)
          subst hsame
          exact hg.loaded _ _ _ _ hp₀
      · exact hg.loaded _ _ _ _ hp₀
    · intro id u hu
      refine holds_event_step hs ?_
      change Write.updateEvent id u ∈ (if (k r).ended then Session.fresh else s).pending at hu
      split_ifs at hu
      · cases hu
      · rcases ha.mem_pending hu with hu | hu
        · exact hg.updates id u hu
        · cases hlocking : Coroutine.locking th with
          | holding unused event queue ws =>
            rw [hlocking] at hallow
            obtain rfl := hallow.updates id u hu
            exact hg.loaded _ _ _ _ hlocking
          | committed =>
            rw [hlocking] at hallow
            rw [hallow.writes] at hu
            cases hu
          | stopped =>
            rw [hlocking] at hallow
            exact hallow.elim
          | lost => exact absurd hlocking (hr.locking_ne_lost th hm)
  · intro th _ hg
    exact hkept ⟨hg.loaded, fun _ _ hu => nomatch hu⟩
  · intro th _ _ id _ _ hg
    exact hkept ⟨hg.loaded, hg.updates⟩

/-! ### Queues -/

/-- Identifiers are new when they are drawn, and no two entries are dead-lettered in the same
microsecond. -/
structure Distinguishes (c : Config) (a : Action) : Prop where
  fresh : DrawsFresh c a
  instants : ((entriesOf c.world.wal).map DeadLetterEvent.instant).Nodup

instance (c : Config) (a : Action) : Decidable (Distinguishes c a) :=
  decidable_of_iff (DrawsFresh c a ∧ ((entriesOf c.world.wal).map DeadLetterEvent.instant).Nodup)
    ⟨fun h => ⟨h.1, h.2⟩, fun h => ⟨h.fresh, h.instants⟩⟩

/-- The log has created no identifier twice. -/
theorem Reaches.nodup_created (h : Reaches deps ok c) (hok : ∀ c a, ok c a → DrawsFresh c a) :
    (createdIn c.world.wal).Nodup :=
  Multiset.nodup_of_le (Multiset.le_add_right _ _) (h.nodup_identifiers hok)

/-- **The entries that a coroutine has selected are in order**, in every reachable state. -/
theorem Reaches.inOrder (h : Reaches deps Distinguishes c) :
    ∀ th ∈ c.threads, ∀ unused event queue ws,
      Coroutine.locking th = .holding unused event queue ws → InOrder c.world.wal queue := by
  refine h.invariant (J := fun c => ∀ th ∈ c.threads, ∀ unused event queue ws,
    Coroutine.locking th = .holding unused event queue ws → InOrder c.world.wal queue)
    (fun _ _ hth => nomatch hth) fun c a c' hr hc hok hs => ?_
  have hkept {queue : List UUID} (h : InOrder c.world.wal queue) : InOrder c'.world.wal queue := by
    rcases (stepped hs).wal with hw | ⟨_, th, _, -, -, -, hw⟩
    · rw [hw]
      exact h
    · rw [hw]
      exact h.append _
  refine (stepped hs).forall_threads hc (fun _ _ _ _ h u e q ws hp => hkept (h u e q ws hp)) ?_ ?_
    (fun _ _ h u e q ws hp => hkept (h u e q ws hp))
    fun _ _ _ _ _ _ h u e q ws hp => hkept (h u e q ws hp)
  · intro o w _ unused event queue ws hstart
    cases hstart
    exact ⟨fun _ hid => (nomatch hid), .nil⟩
  · intro t th e k r w s hth hp ha _ hq unused event queue ws hnext
    have hm := List.mem_of_getElem? hth
    rw [Coroutine.locking_answered] at hnext
    refine hkept ?_
    obtain ⟨unused₀, event₀, queue₀, ws₀, hp₀, -, hcases⟩ := Locking.next_eq_holding hnext
    rcases hcases with ⟨v, rfl, hv⟩ | ⟨-, -, rfl, -⟩
    · by_cases hselect : e.isSelect = true
      · -- it was selected before any statement, from the committed rows
        have hallow := hr.locking_allows hm hp
        rw [hp₀] at hallow
        obtain rfl := hallow.selects hselect
        have hpend := hr.carries th hm (by rw [hp]; rfl) _ _ _ _ hp₀
        cases e with
        | selectDeadLetters endpointId eventType limit =>
          obtain ⟨o, -, hexec⟩ := ha.of_ok
          obtain ⟨hrows, -, -⟩ := flushed_eq_ok hexec
          rw [view_of_pending hpend] at hrows
          cases hv
          rw [← hrows, List.map_map]
          have hids : DeadLetterEvent.id ∘ th.session.object = DeadLetterEvent.id :=
            funext fun r => (object_cases th.session r).1
          rw [hids]
          exact inOrder_selectDeadLetters (hr.nodup_created fun _ _ h => h.fresh) hok.instants
            _ _ _
        | _ => cases hselect
      · have hsame := (Locking.answered_eq_holding hv).2.2.2 (by simpa using hselect)
        subst hsame
        exact hq _ _ _ _ hp₀
    · exact hq _ _ _ _ hp₀

/-! ### Unused identifiers -/

/-- What a coroutine owns is in no other place. -/
theorem Reaches.owns_apart (h : Reaches deps ok c) (hok : ∀ c a, ok c a → DrawsFresh c a)
    {t : ℕ} (hth : c.threads[t]? = some th) {id : UUID} (hid : id ∈ Coroutine.owns th) :
    id ∉ createdIn c.world.wal ∧
      ∀ u uh, u ≠ t → c.threads[u]? = some uh → id ∉ Coroutine.owns uh := by
  have hnodup := h.nodup_identifiers hok
  unfold identifiers at hnodup
  rw [Multiset.nodup_add] at hnodup
  obtain ⟨-, hthreads, hdisjoint⟩ := hnodup
  refine ⟨fun hlog => ?_, fun u uh hu huh howns => ?_⟩
  · have hle : Coroutine.owns th ≤ (c.threads.map Coroutine.owns).sum :=
      List.le_sum_of_mem (List.mem_map_of_mem (List.mem_of_getElem? hth))
    exact Multiset.disjoint_left.mp hdisjoint hlog (Multiset.mem_of_le hle hid)
  · have hboth := Multiset.nodup_of_le (Pool.add_le_sum_map hu.symm hth huh Coroutine.owns)
      hthreads
    exact Multiset.disjoint_left.mp (Multiset.nodup_add.mp hboth).2.2 hid howns

/-- An event in the table was created. -/
theorem created_of_holds {wal : List Write} {id : UUID}
    (h : (Db.empty.applyAll wal).holds (.event id) = true) : id ∈ createdIn wal := by
  by_contra hnot
  rw [holds_applyAll _ _ rfl] at h
  have hnone : ∀ w ∈ wal, w.inserts ≠ some (.event id) := by
    intro w hw hinserts
    refine hnot (mem_createdIn.mpr ⟨w, hw, ?_⟩)
    cases w <;> cases hinserts
    rfl
  cases foldl_leaves_of_not_inserts hnone h

/-- **Nobody else holds the lock of an event that is about to be created.** -/
theorem Reaches.unused_unlocked (h : Reaches deps ok c) (hok : ∀ c a, ok c a → DrawsFresh c a)
    {t u : ℕ} {uh : Coroutine} (hut : u ≠ t) (hth : c.threads[t]? = some th)
    (huh : c.threads[u]? = some uh) {id : UUID} (hid : id ∈ (Coroutine.locking th).unused) :
    RowKey.event id ∉ uh.session.locks := by
  have howns : id ∈ Coroutine.owns th := Multiset.mem_add.mpr (Or.inr hid)
  obtain ⟨hlog, hothers⟩ := h.owns_apart hok hth howns
  intro hlock
  obtain ⟨w, hw, hkey⟩ := List.mem_flatMap.mp hlock
  cases w with
  | insertEvent r =>
    rcases List.mem_cons.mp hkey with hkey | hkey
    · cases hkey
      exact hothers u uh hut huh
        (Multiset.mem_add.mpr (Or.inl (mem_createdIn.mpr ⟨_, hw, rfl⟩)))
    · cases hr : r.idempotencyKey <;> rw [hr] at hkey <;> simp at hkey
  | updateEvent id' x =>
    cases List.mem_singleton.mp hkey
    exact hlog (created_of_holds ((h.grounded uh (List.mem_of_getElem? huh)).updates _ _ hw))
  | _ => cases List.mem_singleton.mp hkey

/-! ### Waiting -/

/-- A coroutine waits for a lock that another one holds. -/
def Waits (c : Config) (t : ℕ) (k : RowKey) (u : ℕ) : Prop :=
  t ≠ u ∧ (∃ th e, c.threads[t]? = some th ∧ th.prog.next? = some e ∧ k ∈ Op.locks e) ∧
    ∃ uh, c.threads[u]? = some uh ∧ k ∈ uh.session.locks

/-- The place of a lock in the order in which all coroutines take their locks. -/
def rank (wal : List Write) (k : RowKey) : ℕ ×ₗ ℤ :=
  toLex (k.level, match k with
    | .deadLetter id => instantOf wal id
    | _ => 0)

/-- Locks are taken in the order of their ranks. -/
theorem RowKey.Before.rank_lt {wal : List Write} {queue : List UUID} {k k' : RowKey}
    (h : k.Before queue k') (hqueue : InOrder wal queue) : rank wal k < rank wal k' := by
  rcases h with hlevel | ⟨id, id', rfl, rfl, hsub⟩
  · exact Prod.Lex.left _ _ hlevel
  · refine Prod.Lex.right _ ?_
    exact List.rel_of_pairwise_cons (hqueue.order.sublist hsub) List.mem_cons_self

/-- The only lock that a call does not wait for is that of a new event. -/
theorem Op.waits_of_locks {e : Op} {k : RowKey} (h : k ∈ e.locks) :
    k ∈ e.waits ∨ ∃ r, e = .insertEvent r ∧ k = .event r.id := by
  obtain ⟨w, hw, hk⟩ := List.mem_flatMap.mp h
  cases e.emits_of_mem hw with
  | insertEvent r =>
    rcases List.mem_cons.mp hk with hk | hk
    · exact Or.inr ⟨r, rfl, hk⟩
    · exact Or.inl (List.mem_flatMap.mpr ⟨_, hw, hk⟩)
  | _ => exact Or.inl (List.mem_flatMap.mpr ⟨_, hw, hk⟩)

/-- Whoever is waited for only waits for locks of a higher rank. -/
theorem Reaches.rank_lt (h : Reaches deps Distinguishes c) {t u v : ℕ} {k k' : RowKey}
    (hk : Waits c t k u) (hk' : Waits c u k' v) : rank c.world.wal k < rank c.world.wal k' := by
  obtain ⟨-, -, uh, huh, hheld⟩ := hk
  obtain ⟨huv, ⟨uh', e, huh', hnext, hwants⟩, vh, hvh, hholder⟩ := hk'
  obtain rfl : uh = uh' := Option.some.inj (huh.symm.trans huh')
  obtain ⟨cont, hp⟩ := Prog.next?_eq_some.mp hnext
  have hm := List.mem_of_getElem? huh
  have hallow := h.locking_allows hm hp
  cases hlocking : Coroutine.locking uh with
  | lost => exact absurd hlocking (h.locking_ne_lost uh hm)
  | stopped =>
    rw [hlocking] at hallow
    exact hallow.elim
  | committed =>
    rw [hlocking] at hallow
    unfold Op.locks at hwants
    rw [hallow.writes] at hwants
    cases hwants
  | holding unused event queue ws =>
    rw [hlocking] at hallow
    have hlocks : uh.session.locks = locksOf ws := by
      unfold Session.locks
      rw [h.carries uh hm (by rw [hp]; rfl) _ _ _ _ hlocking]
      rfl
    rcases Op.waits_of_locks hwants with hwaits | ⟨r, rfl, rfl⟩
    · rcases hallow.order k (hlocks ▸ hheld) k' hwaits with hbefore | hown
      · exact hbefore.rank_lt (h.inOrder uh hm _ _ _ _ hlocking)
      · -- it does not wait for its own locks
        exact absurd hholder (h.locksApart u v uh vh huv huh hvh k' (hlocks ▸ hown))
    · have hid : r.id ∈ (Coroutine.locking uh).unused := by
        rw [hlocking]
        exact hallow.spends r.id rfl
      exact absurd hholder
        (h.unused_unlocked (fun _ _ h => h.fresh) huv.symm huh hvh hid)

/-- Whoever holds a lock has not ended. -/
theorem Reaches.ended_of_locks (h : Reaches deps ok c) (hth : th ∈ c.threads) {k : RowKey}
    (hk : k ∈ th.session.locks) : th.prog.ended = false := by
  by_contra hend
  rw [(h.lawful th hth).ended (by simpa using hend)] at hk
  cases hk

/-- A coroutine that does not wait can make its next call. -/
theorem call_of_not_waits {t : ℕ} (hth : c.threads[t]? = some th)
    (hlive : th.prog.ended = false) (hfree : ∀ k u, ¬ Waits c t k u) (o : Oracle) :
    (step deps c (.call t o)).isSome = true := by
  cases hp : th.prog with
  | done a =>
    rw [hp] at hlive
    cases hlive
  | raised x =>
    rw [hp] at hlive
    cases hlive
  | call e cont =>
    refine Pool.call_isSome hth hp (not_blocked c.world th.session fun s₀ hs₀ k hk hwants => ?_) o
    obtain ⟨u, uh, hut, huh, rfl⟩ := Pool.mem_others_iff.mp hs₀
    have hnext : th.prog.next? = some e := Prog.next?_eq_some.mpr ⟨cont, hp⟩
    exact hfree k u ⟨hut.symm, ⟨th, e, hth, hnext, hwants⟩, uh, huh, hk⟩

/-- **No deadlock.** In every reachable state, no coroutine waits for itself over a circle of
locks, and every coroutine that has not ended waits in the end for one that can make its next call
now, whatever the environment answers. -/
theorem never_deadlocked (h : Reaches deps Distinguishes c) :
    (∀ t, ¬ Relation.TransGen (WaitsFor (Waits c)) t t) ∧
      ∀ t th, c.threads[t]? = some th → th.prog.ended = false →
        ∃ u, Relation.ReflTransGen (WaitsFor (Waits c)) t u ∧
          ∀ o, (step deps c (.call u o)).isSome = true := by
  have hrank (t : ℕ) (k : RowKey) (u : ℕ) (k' : RowKey) (v : ℕ) (hk : Waits c t k u)
      (hk' : Waits c u k' v) := h.rank_lt hk hk'
  let live := (Finset.range c.threads.length).filter fun t =>
    c.threads[t]?.any fun th => !th.prog.ended
  have hmem {t : ℕ} {th : Coroutine} (hth : c.threads[t]? = some th)
      (hlive : th.prog.ended = false) : t ∈ live := by
    refine Finset.mem_filter.mpr ⟨Finset.mem_range.mpr ?_, ?_⟩
    · exact (List.getElem?_eq_some_iff.mp hth).1
    · rw [hth]
      simp [hlive]
  have hholder (t : ℕ) (k : RowKey) (u : ℕ) (hk : Waits c t k u) : u ∈ live := by
    obtain ⟨-, -, uh, huh, hheld⟩ := hk
    exact hmem huh (h.ended_of_locks (List.mem_of_getElem? huh) hheld)
  refine ⟨waiting_acyclic hrank, fun t th hth hlive => ?_⟩
  obtain ⟨u, hu, hway, hfree⟩ := exists_not_waiting hrank hholder (hmem hth hlive)
  obtain ⟨uh, huh, hany⟩ := (Option.any_eq_true _ _).mp (Finset.mem_filter.mp hu).2
  exact ⟨u, hway, call_of_not_waits huh (by simpa using hany) hfree⟩

/-- Two bulk replays have selected the same entry, and the second one waits for the first. -/
theorem never_deadlocked_replays : ∃ c, Reaches Sample.deps Distinguishes c ∧
    Waits c 5 (.deadLetter (Sample.id 3)) 4 ∧
    (∀ t, ¬ Relation.TransGen (WaitsFor (Waits c)) t t) ∧
      ∀ t th, c.threads[t]? = some th → th.prog.ended = false →
        ∃ u, Relation.ReflTransGen (WaitsFor (Waits c)) t u ∧
          ∀ o, (step Sample.deps c (.call u o)).isSome = true := by
  let entry := RowKey.deadLetter (Sample.id 3)
  have hrun : (runActs (step Sample.deps) (fun c a => decide (Distinguishes c a))
      (initial Sample.start) (Sample.setup Sample.shop Sample.order ++
        Sample.request 2 2 (.deleteEndpoint (Sample.id 1)) (Sample.oracle 3 .cancelled) ++
        Sample.job 3 6 (Sample.oracle 3 .cancelled) ++
        Sample.request 4 7 (.replayBulk none none false) (Sample.oracle 4 .cancelled) ++
        Sample.request 5 6 (.replayBulk none none false) (Sample.oracle 5 .cancelled))).any
      (fun c => (c.threads[5]?.any fun th => th.prog.next?.any fun e =>
          decide (entry ∈ Op.locks e)) &&
        c.threads[4]?.any fun th => decide (entry ∈ th.session.locks)) = true := by
    decide +kernel
  obtain ⟨c, hc, hfacts⟩ := exists_run Distinguishes (fun _ _ => of_decide_eq_true) hrun
  obtain ⟨hwants, hholds⟩ := Bool.and_eq_true_iff.mp hfacts
  obtain ⟨th, hth, hth'⟩ := (Option.any_eq_true _ _).mp hwants
  obtain ⟨e, he, hlock⟩ := (Option.any_eq_true _ _).mp hth'
  obtain ⟨uh, huh, huh'⟩ := (Option.any_eq_true _ _).mp hholds
  have hreach : Reaches Sample.deps Distinguishes c := ⟨Sample.start, hc⟩
  have hwaits : Waits c 5 entry 4 := ⟨by decide, ⟨th, e, hth, he, of_decide_eq_true hlock⟩, uh, huh,
    of_decide_eq_true huh'⟩
  exact ⟨c, hreach, hwaits, never_deadlocked hreach⟩

end reachable

end WebhookRelay
