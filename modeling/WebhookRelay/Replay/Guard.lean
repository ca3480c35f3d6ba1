import WebhookRelay.Replay.Ledger
import WebhookRelay.Sample

/-!
# The guard of the replays

A replay without `force` reads `replay_count` and `replayed_at`, and acts on them later in its
transaction. What it has read may be out of date by then, and the time it stamps is the one of the
mark, not the one of the commit. So two events can be committed from one entry within an hour, and
the counter can miss one of them (`replays_overlap`).

`Orderly` says which steps avoid this: a replay commits an entry on the count that it has read,
and no check of an entry falls between an hour after its last mark and an hour after the commit
of that mark. Along such steps the guard does what it is for, whatever else goes on
(`replays_guarded`). The invariant is `Accounts`: the rows count their events, and every entry a
replay has read is one that its check may rely on (`Held`, `Cleared`).
-/

namespace WebhookRelay

open Data Effect DeadLetterRepository

/-! ### What the guard is for -/

/-- The second instant is at least an hour after the first one. -/
def HourApart (t t' : Datetime) : Prop := t.micros + 3600000000 ≤ t'.micros

instance (t t' : Datetime) : Decidable (HourApart t t') :=
  inferInstanceAs (Decidable (t.micros + 3600000000 ≤ t'.micros))

/-- The events committed from an entry are at least an hour apart, and its counter is the number
of them. -/
def ReplaysCounted (x : Config × History) (id : UUID) : Prop :=
  (eventsFrom id x.2).Pairwise (fun y z => HourApart y.1 z.1) ∧
    ∀ row, x.1.world.db.deadLetters.get? id = some row →
      row.replayCount = (eventsFrom id x.2).length

/-! ### The condition -/

/-- The request that arrives does not force a replay. -/
def Action.unforced : Action → Bool
  | .arrive r => !r.forced
  | _ => true

/-- A statement fits the rows it is committed on: an entry still has the count that the replay
has read, and a new entry has no past. -/
def Write.Timely (db : Db) (H : History) : Write → Prop
  | .updateDeadLetter id u =>
    u.replayCount = (db.deadLetters.get? id).map fun row => row.replayCount + 1
  | .insertDeadLetter d => (eventsFrom d.id H).length = 0
  | _ => True

instance (db : Db) (H : History) (w : Write) : Decidable (w.Timely db H) := by
  cases w <;> unfold Write.Timely <;> infer_instance

/-- The entry whose check reads the clock in this step, with the time of its last replay. -/
def checking? (c : Config) (a : Action) : Option (DeadLetterEvent × Datetime) :=
  match a.called.bind fun t => c.threads[t]? with
  | some th =>
    match Coroutine.replaying th with
    | .checking _ entry replayedAt => if th.origin.replays then some (entry, replayedAt) else none
    | _ => none
  | none => none

/-- The condition on a step: no replay is forced, what is committed fits the rows it is committed
on, and a check that finds the mark of its entry an hour old finds the commits an hour old. -/
def Orderly (x : Config × History) (a : Action) : Prop :=
  a.unforced = true ∧ (∀ w ∈ transaction x.1 a, w.Timely x.1.world.db x.2) ∧
    ∀ y ∈ checking? x.1 a, HourApart y.2 x.1.world.now →
      ∀ z ∈ eventsFrom y.1.id x.2, HourApart z.1 x.1.world.now

instance (x : Config × History) (a : Action) : Decidable (Orderly x a) :=
  inferInstanceAs (Decidable (_ ∧ _ ∧ _))

/-! ### What is known of an entry that was read -/

variable {H H' : History} {now now' : Datetime} {e : DeadLetterEvent}

/-- An entry as a replay may read it: it counts no more than its events, and has a time if it was
ever replayed. -/
structure Held (H : History) (e : DeadLetterEvent) : Prop where
  count : e.replayCount ≤ (eventsFrom e.id H).length
  stamped : e.replayedAt.isSome = true ↔ 0 < e.replayCount

/-- An entry that the check has let pass: as long as its count is the number of its events, these
are an hour old. -/
structure Cleared (H : History) (now : Datetime) (e : DeadLetterEvent) : Prop extends Held H e where
  hourOld : (eventsFrom e.id H).length = e.replayCount →
    ∀ y ∈ eventsFrom e.id H, HourApart y.1 now

/-- Later there are more events. -/
theorem eventsFrom_mono (h : H <+: H') (id : UUID) : eventsFrom id H <+: eventsFrom id H' := by
  obtain ⟨H₁, rfl⟩ := h
  unfold eventsFrom
  rw [List.flatMap_append]
  exact List.prefix_append _ _

theorem Held.mono (h : Held H e) (hH : H <+: H') : Held H' e where
  count := h.count.trans (eventsFrom_mono hH e.id).length_le
  stamped := h.stamped

theorem Cleared.mono (h : Cleared H now e) (hH : H <+: H') (hnow : now ≤ now') :
    Cleared H' now' e where
  toHeld := h.toHeld.mono hH
  hourOld hlen y hy := by
    -- the counter has not been overtaken, so there are no other events
    have hprefix := eventsFrom_mono hH e.id
    have hsame : eventsFrom e.id H = eventsFrom e.id H' := by
      refine hprefix.eq_of_length_le ?_
      have := h.count
      omega
    have hold := h.hourOld (by rw [hsame]; exact hlen) y (by rw [hsame]; exact hy)
    unfold HourApart at hold ⊢
    rw [Datetime.le_def] at hnow
    omega

/-- An entry that was never replayed may pass. -/
theorem Held.cleared_of_zero (h : Held H e) (hzero : e.replayCount = 0) (now : Datetime) :
    Cleared H now e where
  toHeld := h
  hourOld hlen y hy := by
    rw [hzero, List.length_eq_zero_iff] at hlen
    rw [hlen] at hy
    cases hy

/-! ### What is known of a replay -/

/-- The marks of a replay are of different entries that its check has let pass, and the other
entries in its session are as it may read them. -/
structure Marked (H : History) (now : Datetime) (s : Session) (marks : List Mark) : Prop where
  nodup : (marks.map fun m => m.entry.id).Nodup
  cleared : ∀ m ∈ marks, Cleared H now m.entry
  held : ∀ x ∈ s.loaded, (∀ m ∈ marks, m.entry.id ≠ x.id) → Held H x

/-- What is known of a replay in a phase. -/
def Replaying.Sound (H : History) (now : Datetime) (s : Session) : Replaying → Prop
  | .between marks => Marked H now s marks
  | .checking marks entry _ =>
    Marked H now s marks ∧ (∀ m ∈ marks, m.entry.id ≠ entry.id) ∧ Held H entry
  | .cleared marks entry =>
    Marked H now s marks ∧ (∀ m ∈ marks, m.entry.id ≠ entry.id) ∧ Cleared H now entry
  | .created marks entry _ =>
    Marked H now s marks ∧ (∀ m ∈ marks, m.entry.id ≠ entry.id) ∧ Cleared H now entry
  | .committed => True
  | .failed => True
  | .lost => False

variable {s s' : Session} {marks : List Mark}

theorem Marked.mono (h : Marked H now s marks) (hH : H <+: H') (hnow : now ≤ now')
    (hs : s'.loaded = s.loaded) : Marked H' now' s' marks where
  nodup := h.nodup
  cleared m hm := (h.cleared m hm).mono hH hnow
  held x hx hfree := (h.held x (hs ▸ hx) hfree).mono hH

/-- What is known stays known while the others go on. -/
theorem Replaying.Sound.mono {p : Replaying} (h : p.Sound H now s) (hH : H <+: H')
    (hnow : now ≤ now') (hs : s'.loaded = s.loaded) : p.Sound H' now' s' := by
  cases p with
  | between marks => exact Marked.mono h hH hnow hs
  | checking marks entry t => exact ⟨h.1.mono hH hnow hs, h.2.1, h.2.2.mono hH⟩
  | cleared marks entry => exact ⟨h.1.mono hH hnow hs, h.2.1, h.2.2.mono hH hnow⟩
  | created marks entry event => exact ⟨h.1.mono hH hnow hs, h.2.1, h.2.2.mono hH hnow⟩
  | committed => trivial
  | failed => trivial
  | lost => exact h

/-- An entry that is read is checked unless it was never replayed. -/
theorem Marked.read (h : Marked H now s marks) {id : UUID} (hfree : ∀ m ∈ marks, m.entry.id ≠ id)
    (hid : e.id = id) (he : Held H e) : (Replaying.read marks id e).Sound H now s := by
  subst hid
  rcases Replaying.read_cases marks e.id e with ⟨hne, -⟩ | ⟨-, ⟨t, -, -, hr⟩ | ⟨hnone, hr⟩⟩
  · exact absurd rfl hne
  · rw [hr]
    exact ⟨h, hfree, he⟩
  · rw [hr]
    refine ⟨h, hfree, he.cleared_of_zero ?_ now⟩
    rcases hnone with hzero | hnone
    · exact hzero
    · have hstamped := he.stamped
      rw [hnone] at hstamped
      by_contra hne
      exact Bool.noConfusion (hstamped.mpr (Nat.pos_of_ne_zero hne))

/-- One more mark. -/
theorem Marked.append (h : Marked H now s marks) {m : Mark}
    (hfree : ∀ m' ∈ marks, m'.entry.id ≠ m.entry.id) (hm : Cleared H now m.entry)
    (hs : ∀ x ∈ s'.loaded, x.id = m.entry.id ∨ x ∈ s.loaded) :
    Marked H now s' (marks ++ [m]) where
  nodup := by
    rw [List.map_append, List.map_singleton]
    refine List.Nodup.append h.nodup (List.nodup_singleton _) fun id hid hid' => ?_
    obtain ⟨m', hm', rfl⟩ := List.mem_map.mp hid
    exact hfree m' hm' (List.mem_singleton.mp hid')
  cleared m' hm' := by
    rcases List.mem_append.mp hm' with hm' | hm'
    · exact h.cleared m' hm'
    · rw [List.mem_singleton.mp hm']
      exact hm
  held x hx hne := by
    rcases hs x hx with hid | hx
    · exact absurd hid.symm (hne m (List.mem_append_right _ (List.mem_singleton_self m)))
    · exact h.held x hx fun m' hm' => hne m' (List.mem_append_left _ hm')

/-! ### What a call answers -/

/-- An object in the session after some were loaded. -/
theorem mem_foldl_load {rows : List DeadLetterEvent} {x : DeadLetterEvent}
    (h : x ∈ (rows.foldl Session.load s).loaded) : x ∈ s.loaded ∨ x ∈ rows := by
  induction rows generalizing s with
  | nil => exact Or.inl h
  | cons r rows ih =>
    rcases ih h with h | h
    · rcases List.mem_cons.mp h with rfl | h
      · exact Or.inr List.mem_cons_self
      · exact Or.inl (List.mem_of_mem_filter h)
    · exact Or.inr (List.mem_cons_of_mem _ h)

/-- The object of a row is one of the session, or the row. -/
theorem object_cases (s : Session) (r : DeadLetterEvent) :
    (s.object r).id = r.id ∧ (s.object r ∈ s.loaded ∨ s.object r = r) := by
  unfold Session.object
  cases hf : s.loaded.find? fun x => decide (x.id = r.id) with
  | none => exact ⟨rfl, Or.inr rfl⟩
  | some x =>
    have hid := List.find?_some hf
    exact ⟨of_decide_eq_true hid, Or.inl (List.mem_of_find?_eq_some hf)⟩

/-- The selected rows are rows of the table. -/
theorem mem_selectDeadLetters {db : Db} {endpointId : Option UUID} {eventType : Option Str}
    {limit : ℕ} {r : DeadLetterEvent} (h : r ∈ db.selectDeadLetters endpointId eventType limit) :
    r ∈ db.deadLetters.rows :=
  List.mem_of_mem_filter ((List.perm_insertionSort _ _).mem_iff.mp (List.mem_of_mem_take h))

/-- No row is selected twice. -/
theorem nodup_selectDeadLetters (db : Db) (endpointId : Option UUID) (eventType : Option Str)
    (limit : ℕ) :
    ((db.selectDeadLetters endpointId eventType limit).map DeadLetterEvent.id).Nodup := by
  have hfilter := db.deadLetters.nodup.sublist
    ((List.filter_sublist (p := Db.deadLetterMatches endpointId eventType)).map DeadLetterEvent.id)
  have hsorted := ((List.perm_insertionSort (fun a b : DeadLetterEvent =>
    a.deadLetteredAt.micros ≤ b.deadLetteredAt.micros) _).map DeadLetterEvent.id).nodup_iff.mpr
      hfilter
  exact hsorted.sublist ((List.take_sublist _ _).map _)

/-- No call answers with an exception that only a replay raises. -/
theorem countedError_exec {o : Oracle} {e : Op} {w : World} {s : Session} {x : PyExn}
    (h : (exec o e w s).1 = .error x) : ReplayService.countedError x = false := by
  have hviolation {e : Op} {db : Db} (hv : e.violation db = some x) :
      ReplayService.countedError x = false := by
    cases e with
    | insertEndpoint _ | flushEndpoint _ _ | getEventByKey _ | insertEvent _ | insertAttempt _
    | insertDeadLetter _ | flushDeadLetter _ _ | selectDeadLetters _ _ _ =>
      unfold Op.violation at hv
      dsimp only at hv
      split_ifs at hv <;> cases hv <;> rfl
    | _ => cases hv
  have hflushed {α : Type} {e : Op} {v : α} {s' : Session}
      (h : (flushed e v w s').1 = .error x) : ReplayService.countedError x = false := by
    cases hv : e.violation (w.view s') with
    | none =>
      rw [flushed_of_none hv] at h
      cases h
    | some y =>
      rw [flushed_of_some hv] at h
      cases h
      exact hviolation hv
  cases e with
  | getDeadLetter id =>
    rw [exec_getDeadLetter] at h
    split at h
    · cases h
    · split at h <;> cases h
  | enqueueJob id =>
    rw [exec_enqueueJob] at h
    split_ifs at h
  | post req =>
    rw [exec_post] at h
    split_ifs at h
    · dsimp only at h
      cases ho : o.answer <;> rw [ho] at h <;> cases h <;> rfl
    · cases h
      rfl
  | getEventByKey _ | selectDeadLetters _ _ _ | insertEndpoint _ | flushEndpoint _ _
  | deactivateEndpoint _ | insertEvent _ | flushEvent _ _ | insertAttempt _ | insertDeadLetter _
  | flushDeadLetter _ _ | deleteDeadLetter _ => exact hflushed h
  | _ => cases h

/-- No failure is such an exception either. -/
theorem Answers.countedError {t : ℕ} {others : List Session} {e : Op} {w w' : World}
    {s s' : Session} {a : Action} {x : PyExn} (h : Answers t others e w s a (.error x) w' s') :
    ReplayService.countedError x = false := by
  generalize hr : (Except.error x : Except PyExn e.Resp) = r at h
  cases h with
  | executed o _ => exact countedError_exec hr.symm
  | lost o y => cases hr; cases y <;> rfl
  | late o y _ => cases hr; cases y <;> rfl

/-! ### One answer -/

/-- A select answers with entries as a replay may read them, and loads them. -/
theorem Marked.select (h : Marked H now s []) (hpend : s.pending = []) {w w' : World}
    (hrows : ∀ id row, w.db.deadLetters.get? id = some row → Held H row) {o : Oracle}
    {endpointId : Option UUID} {eventType : Option Str} {limit : ℕ} {rows : List DeadLetterEvent}
    (hexec : exec o (.selectDeadLetters endpointId eventType limit) w s = (.ok rows, w', s')) :
    (rows.map DeadLetterEvent.id).Nodup ∧ Marked H now s' [] := by
  let found := (w.view s).selectDeadLetters endpointId eventType limit
  have hflushed : flushed (.selectDeadLetters endpointId eventType limit) (found.map s.object) w
      ((found.map s.object).foldl Session.load s) = (.ok rows, w', s') := hexec
  obtain ⟨rfl, rfl, rfl⟩ := flushed_eq_ok hflushed
  have hview : w.view s = w.db := view_of_pending hpend
  have hobject (r : DeadLetterEvent) (hr : r ∈ found) : Held H (s.object r) := by
    rcases (object_cases s r).2 with hin | hsame
    · exact h.held _ hin fun _ hm => nomatch hm
    · have hrow := Table.get?_of_mem (mem_selectDeadLetters hr)
      rw [hview] at hrow
      rw [hsame]
      exact hrows _ r hrow
  refine ⟨?_, List.nodup_nil, fun _ hm => (nomatch hm), fun x hx _ => ?_⟩
  · have hids : (found.map s.object).map DeadLetterEvent.id = found.map DeadLetterEvent.id := by
      rw [List.map_map]
      exact List.map_congr_left fun r _ => (object_cases s r).1
    rw [hids]
    exact nodup_selectDeadLetters _ _ _ _
  · rcases mem_foldl_load hx with hx | hx
    · exact h.held x hx fun _ hm => nomatch hm
    · obtain ⟨r, hr, rfl⟩ := List.mem_map.mp hx
      exact hobject r hr

/-- A get answers with an entry as a replay may read it, and loads it. -/
theorem Marked.get (h : Marked H now s marks) (hpend : s.pending = marks.flatMap Mark.writes)
    {w w' : World} (hrows : ∀ id row, w.db.deadLetters.get? id = some row → Held H row)
    {o : Oracle} {id : UUID} (hfree : ∀ m ∈ marks, m.entry.id ≠ id)
    {row : Option DeadLetterEvent} (hexec : exec o (.getDeadLetter id) w s = (.ok row, w', s')) :
    Marked H now s' marks ∧ ∀ entry, row = some entry → entry.id = id ∧ Held H entry := by
  rw [exec_getDeadLetter] at hexec
  cases hf : s.loaded.find? fun x => decide (x.id = id) with
  | some x =>
    rw [hf] at hexec
    cases hexec
    have hid : x.id = id := by
      have hid := List.find?_some hf
      exact of_decide_eq_true hid
    refine ⟨h, ?_⟩
    rintro _ ⟨⟩
    exact ⟨hid, h.held x (List.mem_of_find?_eq_some hf) (hid ▸ hfree)⟩
  | none =>
    rw [hf] at hexec
    have hview : (w.view s).deadLetters.get? id = w.db.deadLetters.get? id := by
      unfold World.view
      rw [hpend, deadLetters_marks_of_not_mem hfree]
    dsimp only at hexec
    rw [hview] at hexec
    cases hg : w.db.deadLetters.get? id with
    | none =>
      rw [hg] at hexec
      cases hexec
      exact ⟨h, fun _ he => nomatch he⟩
    | some r =>
      rw [hg] at hexec
      cases hexec
      refine ⟨⟨h.nodup, h.cleared, fun x hx hne => ?_⟩, ?_⟩
      · rcases List.mem_cons.mp hx with rfl | hx
        · exact hrows id x hg
        · exact h.held x (List.mem_of_mem_filter hx) hne
      · rintro _ ⟨⟩
        exact ⟨Table.key_of_get? hg, hrows id r hg⟩

/-- What is known of a replay when a call is answered. -/
theorem Replaying.Sound.answered {p : Replaying} {t : ℕ} {others : List Session} {w w' : World}
    {e : Op} {a : Action} {r : Except PyExn e.Resp} (h : p.Sound H w.now s)
    (hallow : p.allows e) (ha : Answers t others e w s a r w' s') (hpend : s.pending = p.pending)
    (hrows : ∀ id row, w.db.deadLetters.get? id = some row → Held H row)
    (hclock : ∀ marks entry replayedAt, p = .checking marks entry replayedAt →
      a.called = some t → HourApart replayedAt w.now →
        ∀ y ∈ eventsFrom entry.id H, HourApart y.1 w.now) :
    (p.next e r).Sound H w.now s' := by
  cases r with
  | error x =>
    have hp : p ≠ .lost := by
      rintro rfl
      exact h
    rw [Replaying.next_error hp, Replaying.raised, ha.countedError]
    trivial
  | ok v =>
    obtain ⟨o, rfl, hexec⟩ := ha.of_ok
    cases p with
    | failed => exact hallow.elim
    | lost => exact h.elim
    | committed =>
      cases e with
      | enqueueJob id => trivial
      | _ => exact hallow.elim
    | between marks =>
      cases e with
      | selectDeadLetters endpointId eventType limit =>
        obtain rfl : marks = [] := hallow
        obtain ⟨hnodup, hmarked⟩ := Marked.select h hpend hrows hexec
        have hnext : (Replaying.between []).next (.selectDeadLetters endpointId eventType limit)
            (.ok v) = .between [] := if_pos hnodup
        rw [hnext]
        exact hmarked
      | getDeadLetter id =>
        obtain ⟨hmarked, hread⟩ := Marked.get h hpend hrows hallow hexec
        cases v with
        | none => exact hmarked
        | some entry =>
          obtain ⟨hid, hheld⟩ := hread entry rfl
          exact hmarked.read hallow hid hheld
      | resetCircuit id =>
        cases hexec
        exact h
      | enqueueJob id =>
        rw [exec_enqueueJob] at hexec
        split_ifs at hexec <;> cases hexec <;> exact h
      | commit => trivial
      | _ => exact hallow.elim
    | checking marks entry replayedAt =>
      cases e with
      | now =>
        cases hexec
        obtain ⟨hmarked, hfree, hheld⟩ := h
        change (Replaying.checked marks entry replayedAt w.now).Sound H w.now s
        rcases Replaying.checked_cases marks entry replayedAt w.now with hc | hc | ⟨hold, hc⟩
        · rw [hc]
          trivial
        · rw [hc]
          exact hmarked
        · rw [hc]
          exact ⟨hmarked, hfree, hheld, fun _ => hclock marks entry replayedAt rfl rfl hold⟩
      | _ => exact hallow.elim
    | cleared marks entry =>
      cases e with
      | uuid4 =>
        cases hexec
        exact h
      | now =>
        cases hexec
        exact h
      | insertEvent r =>
        have hflushed : flushed (.insertEvent r) () w s = (.ok v, w', s') := hexec
        obtain ⟨-, rfl, rfl⟩ := flushed_eq_ok hflushed
        exact ⟨h.1.mono List.prefix_rfl (Datetime.le_refl _) rfl, h.2⟩
      | _ => exact hallow.elim
    | created marks entry event =>
      cases e with
      | now =>
        cases hexec
        exact h
      | flushDeadLetter old new =>
        obtain ⟨rfl, time, rfl⟩ : old = entry ∧ ∃ t, new = replayed entry t := hallow
        have hflushed : flushed (.flushDeadLetter old (replayed old time)) () w
            (s.load (replayed old time)) = (.ok v, w', s') := hexec
        obtain ⟨-, rfl, rfl⟩ := flushed_eq_ok hflushed
        refine Marked.append (m := ⟨old, event, time⟩) h.1 h.2.1 h.2.2 fun x hx => ?_
        rcases List.mem_cons.mp hx with rfl | hx
        · exact Or.inl rfl
        · exact Or.inr (List.mem_of_mem_filter hx)
      | _ => exact hallow.elim

/-! ### The rows -/

/-- A row counts its events, and has a time if it was ever replayed. -/
structure Counted (H : History) (row : DeadLetterEvent) : Prop where
  count : row.replayCount = (eventsFrom row.id H).length
  stamped : row.replayedAt.isSome = true ↔ 0 < row.replayCount

/-- Every row of the queue does. -/
def Db.Counted (db : Db) (H : History) : Prop :=
  ∀ id row, db.deadLetters.get? id = some row → WebhookRelay.Counted H row

variable {db : Db} {ws : List Write}

/-- A replay may rely on a row. -/
theorem Counted.held {row : DeadLetterEvent} (h : Counted H row) : Held H row where
  count := h.count.le
  stamped := h.stamped

/-- A row that was never replayed, with an identifier that has no past, counts its events. -/
theorem Db.Counted.apply (h : db.Counted H) {w : Write} (hplain : w.Plain)
    (hnew : ∀ d, w = .insertDeadLetter d → (eventsFrom d.id H).length = 0) :
    (db.apply w).Counted H := by
  intro id row hrow
  cases w with
  | updateDeadLetter => exact hplain.elim
  | insertDeadLetter d =>
    change (db.deadLetters.insert d).get? id = some row at hrow
    cases hd : db.deadLetters.get? d.id with
    | some r =>
      rw [Table.insert_of_get? hd] at hrow
      exact h id row hrow
    | none =>
      rw [Table.get?_insert hd] at hrow
      split_ifs at hrow with hid
      · cases hrow
        obtain ⟨hzero, hnever⟩ := hplain
        refine ⟨hzero.trans (hnew _ rfl).symm, ?_⟩
        rw [hnever, hzero]
        exact ⟨fun hsome => absurd hsome Bool.false_ne_true,
          fun hpos => absurd hpos (Nat.lt_irrefl 0)⟩
      · exact h id row hrow
  | deleteDeadLetter id' =>
    change (db.deadLetters.erase id').get? id = some row at hrow
    rw [Table.get?_erase] at hrow
    split_ifs at hrow
    exact h id row hrow
  | _ => exact h id row hrow

/-- The rows after the transaction of a coroutine that replays nothing. -/
theorem Db.Counted.of_plain (h : db.Counted H) (hplain : ∀ w ∈ ws, w.Plain)
    (hnew : ∀ d, .insertDeadLetter d ∈ ws → (eventsFrom d.id H).length = 0) :
    (db.applyAll ws).Counted H := by
  induction ws generalizing db with
  | nil => exact h
  | cons w ws ih =>
    refine ih (h.apply (hplain w List.mem_cons_self) ?_)
      (fun w' hw' => hplain w' (List.mem_cons_of_mem _ hw'))
      fun d hd => hnew d (List.mem_cons_of_mem _ hd)
    exact fun d hd => hnew d (hd ▸ List.mem_cons_self)

/-- The row of an entry that a replay marks as it has read it. -/
theorem Counted.mark {row : DeadLetterEvent} (h : Counted H row) {m : Mark}
    (hid : row.id = m.entry.id) (hheld : Held H m.entry)
    (hcount : row.replayCount = m.entry.replayCount)
    (hlen : (eventsFrom m.entry.id H').length = (eventsFrom m.entry.id H).length + 1) :
    Counted H' (m.columns.apply row) where
  count := by
    rw [m.replayCount_apply, DeadLetterColumns.apply_id, hid, hlen, ← hcount, h.count, hid]
  stamped := by
    rw [m.replayCount_apply]
    refine iff_of_true ?_ (Nat.succ_pos _)
    change ((changed m.entry.replayedAt (some m.time)).getD row.replayedAt).isSome = true
    unfold changed
    split_ifs with hsame
    · -- the time of the mark is the one that is there already
      have hpos := hheld.stamped.mp (by rw [← hsame]; rfl)
      exact h.stamped.mpr (hcount ▸ hpos)
    · rfl

/-- The rows and the events after the transaction of a replay. -/
theorem Db.Counted.of_marks (h : db.Counted H) (hmarked : Marked H now s marks)
    (htimely : ∀ w ∈ marks.flatMap Mark.writes, w.Timely db H)
    (hapart : ∀ id, (eventsFrom id H).Pairwise fun y z => HourApart y.1 z.1) :
    (db.applyAll (marks.flatMap Mark.writes)).Counted
        (H ++ [(now, marks.flatMap Mark.writes)]) ∧
      ∀ id, (eventsFrom id (H ++ [(now, marks.flatMap Mark.writes)])).Pairwise
        fun y z => HourApart y.1 z.1 := by
  -- the row of an entry that is marked is as the replay has read it
  have hcurrent (m : Mark) (hm : m ∈ marks) : ∃ row,
      db.deadLetters.get? m.entry.id = some row ∧ row.replayCount = m.entry.replayCount := by
    have hw := htimely (.updateDeadLetter m.entry.id m.columns)
      (List.mem_flatMap.mpr ⟨m, hm, List.mem_cons_of_mem _ List.mem_cons_self⟩)
    change m.columns.replayCount = _ at hw
    rw [m.replayCount_columns] at hw
    obtain ⟨row, hrow, hcount⟩ := Option.map_eq_some_iff.mp hw.symm
    exact ⟨row, hrow, by omega⟩
  refine ⟨fun id row hrow => ?_, fun id => ?_⟩
  · by_cases hin : ∃ m ∈ marks, m.entry.id = id
    · obtain ⟨m, hm, rfl⟩ := hin
      obtain ⟨row₀, hrow₀, hcount⟩ := hcurrent m hm
      rw [deadLetters_marks_of_mem hmarked.nodup hm, hrow₀, Option.map_some] at hrow
      obtain rfl := Option.some.inj hrow
      refine (h _ row₀ hrow₀).mark (Table.key_of_get? hrow₀) (hmarked.cleared m hm).toHeld
        hcount ?_
      rw [eventsFrom_marks_of_mem hmarked.nodup hm, List.length_append, List.length_singleton]
    · have hfree : ∀ m ∈ marks, m.entry.id ≠ id := fun m hm hid => hin ⟨m, hm, hid⟩
      rw [deadLetters_marks_of_not_mem hfree] at hrow
      have hcounted := h id row hrow
      refine ⟨?_, hcounted.stamped⟩
      rw [Table.key_of_get? hrow, eventsFrom_marks_of_not_mem hfree, ← Table.key_of_get? hrow]
      exact hcounted.count
  · by_cases hin : ∃ m ∈ marks, m.entry.id = id
    · obtain ⟨m, hm, rfl⟩ := hin
      obtain ⟨row₀, hrow₀, hcount⟩ := hcurrent m hm
      rw [eventsFrom_marks_of_mem hmarked.nodup hm]
      refine List.pairwise_append.mpr ⟨hapart _, List.pairwise_singleton _ _, fun y hy z hz => ?_⟩
      rw [List.mem_singleton.mp hz]
      refine (hmarked.cleared m hm).hourOld ?_ y hy
      have hlen := (h _ row₀ hrow₀).count
      rw [Table.key_of_get? hrow₀] at hlen
      omega
    · rw [eventsFrom_marks_of_not_mem fun m hm hid => hin ⟨m, hm, hid⟩]
      exact hapart id

/-! ### Runs -/

/-- The clock only goes forward. -/
theorem now_exec (o : Oracle) (e : Op) (w : World) (s : Session) :
    w.now ≤ (exec o e w s).2.1.now := by
  have h := execs o e w s
  generalize (exec o e w s).2.1 = w' at h ⊢
  cases h with
  | posted req => exact Datetime.le_advance _ _
  | _ => exact Datetime.le_refl _

variable {deps : Deps} {c c' : Config} {a : Action}

theorem now_step (h : step deps c a = some c') : c.world.now ≤ c'.world.now := by
  cases stepped h with
  | started hs => cases hs <;> exact Datetime.le_refl _
  | killed | reaped => exact Datetime.le_refl _
  | ticked micros => exact Datetime.le_advance _ _
  | answered hth hp ha =>
    cases ha with
    | executed o _ => exact now_exec o _ _ _
    | lost => exact Datetime.le_refl _
    | late o _ _ => exact now_exec o _ _ _

/-- The invariant of the runs whose steps are orderly. -/
structure Accounts (x : Config × History) : Prop where
  apart : ∀ id, (eventsFrom id x.2).Pairwise fun y z => HourApart y.1 z.1
  counted : x.1.world.db.Counted x.2
  unforced : ∀ th ∈ x.1.threads, ∀ r, th.origin = .request r → r.forced = false
  sound : ∀ th ∈ x.1.threads, th.origin.replays = true → th.prog.ended = false →
    (Coroutine.replaying th).Sound x.2 x.1.world.now th.session

/-- A replay that makes a call has in its session what its marks say. -/
theorem Accounts.pending {x : Config × History} (h : Accounts x) {ok : Config → Action → Prop}
    (hr : Reaches deps ok x.1) {th : Coroutine} (hth : th ∈ x.1.threads)
    (ho : th.origin.replays = true) {e : Op} {k : Except PyExn e.Resp → Relay Reply}
    (hp : th.prog = .call e k) : th.session.pending = (Coroutine.replaying th).pending := by
  have hlive : th.prog.ended = false := by
    rw [hp]
    rfl
  refine hr.replays_pending hth ho hlive ?_
  have hsound := h.sound th hth ho hlive
  have hallow := hr.replays_allows hth ho hp
  cases hph : Coroutine.replaying th with
  | lost =>
    rw [hph] at hsound
    exact hsound
  | failed =>
    rw [hph] at hallow
    exact hallow
  | _ => trivial

/-- A transaction replays nothing, or is that of the marks of one replay. -/
theorem Accounts.committed {x : Config × History} (h : Accounts x)
    {ok : Config → Action → Prop} (hr : Reaches deps ok x.1) (a : Action) :
    (∀ w ∈ transaction x.1 a, w.Plain) ∨ ∃ marks s, Marked x.2 x.1.world.now s marks ∧
      transaction x.1 a = marks.flatMap Mark.writes := by
  rcases transaction_cases x.1 a with hnone | ⟨t, th, k, hth, hp, ht⟩
  · refine Or.inl fun w hw => ?_
    rw [hnone] at hw
    cases hw
  · have hm := List.mem_of_getElem? hth
    rw [transaction_of_commit hth hp ht]
    cases ho : th.origin.replays with
    | true =>
      have hpend := h.pending hr hm ho hp
      have hsound := h.sound th hm ho (by rw [hp]; rfl)
      have hallow := hr.replays_allows hm ho hp
      cases hph : Coroutine.replaying th with
      | between marks =>
        rw [hph] at hpend hsound
        exact Or.inr ⟨marks, _, hsound, hpend⟩
      | lost =>
        rw [hph] at hsound
        exact hsound.elim
      | _ =>
        rw [hph] at hallow
        exact hallow.elim
    | false =>
      have hreplay := Origin.not_isReplay ho (h.unforced th hm)
      exact Or.inl (hr.session_writes (A := Op.Plain) (B := Write.Plain) (fun _ he => he)
        (S := fun o => ¬ o.IsReplay) (fun _ ho => program_plain deps ho) (fun _ h => h) th hm
        hreplay)

section orderly

variable {ok : Config → Action → Prop} (h : Accounts (c, H)) (hr : Reaches deps ok c)
  (ha : Orderly (c, H) a) (hs : step deps c a = some c')

include h ha hs

include hr in
/-- After an orderly step the rows count their events, which are an hour apart. -/
theorem Accounts.counted_step :
    c'.world.db.Counted (H ++ [committedAt c a]) ∧
      ∀ id, (eventsFrom id (H ++ [committedAt c a])).Pairwise fun y z => HourApart y.1 z.1 := by
  have htimely : ∀ w ∈ transaction c a, w.Timely c.world.db H := ha.2.1
  have hdb : c'.world.db = c.world.db.applyAll (transaction c a) := by
    unfold World.db
    rw [wal_transaction hs, Db.applyAll_append]
  rw [hdb]
  rcases h.committed hr a with hplain | ⟨marks, s, hmarked, heq⟩
  · have hsame (id : UUID) : eventsFrom id (H ++ [committedAt c a]) = eventsFrom id H := by
      unfold committedAt
      rw [eventsFrom_append, replaysIn_plain hplain]
      exact List.append_nil _
    refine ⟨fun id row hrow => ?_, fun id => ?_⟩
    · have hcounted := h.counted.of_plain hplain (fun d hd => htimely _ hd) id row hrow
      exact ⟨by rw [hsame]; exact hcounted.count, hcounted.stamped⟩
    · rw [hsame]
      exact h.apart id
  · unfold committedAt
    rw [heq] at htimely ⊢
    exact h.counted.of_marks hmarked htimely h.apart

/-- After an orderly step no replay is forced. -/
theorem Accounts.unforced_step :
    ∀ th ∈ c'.threads, ∀ r, th.origin = .request r → r.forced = false := by
  refine (stepped hs).forall_threads h.unforced (fun _ _ _ _ h => h) ?_
    (fun _ _ _ _ _ _ _ _ _ _ _ h => h) (fun _ _ h => h) ?_
  · intro o w ho r hreq
    cases ho with
    | request r' =>
      cases hreq
      have hforced : (!r.forced) = true := ha.1
      exact Bool.not_eq_true' _ ▸ hforced
    | job | cron => cases hreq
  · intro th _ _ id _ _ _ r hreq
    cases hreq

include hr in
/-- After an orderly step a replay knows what it should. -/
theorem Accounts.sound_step : ∀ th ∈ c'.threads, th.origin.replays = true →
    th.prog.ended = false →
      (Coroutine.replaying th).Sound (H ++ [committedAt c a]) c'.world.now th.session := by
  have hprefix : H <+: H ++ [committedAt c a] := List.prefix_append _ _
  have hnow := now_step hs
  refine (stepped hs).forall_threads h.sound ?_ ?_ ?_ ?_ ?_
  · exact fun u uh _ _ hsound ho hend => (hsound ho hend).mono hprefix hnow rfl
  · intro o w _ _ _
    exact ⟨List.nodup_nil, fun _ hm => (nomatch hm), fun _ hx => nomatch hx⟩
  · intro t th e k r w s hth hp hans hw hsound ho hend
    have hm := List.mem_of_getElem? hth
    have hsession : (th.answered machine e r (k r) s).session = s :=
      if_neg (by rw [show (k r).ended = false from hend]; decide)
    rw [hsession, Coroutine.replaying_answered]
    refine Replaying.Sound.mono ?_ hprefix hnow rfl
    refine (hsound ho (by rw [hp]; rfl)).answered (hr.replays_allows hm ho hp) hans
      (h.pending hr hm ho hp) (fun id row hrow => (h.counted id row hrow).held) ?_
    intro marks entry replayedAt hph hcalled hhour
    have hcheck : checking? c a = some (entry, replayedAt) := by
      unfold checking?
      rw [hcalled, Option.bind_some, hth]
      dsimp only
      rw [hph]
      exact if_pos ho
    exact ha.2.2 (entry, replayedAt) hcheck hhour
  · exact fun _ _ _ _ hend => nomatch hend
  · exact fun _ _ _ _ _ _ _ ho => nomatch ho

end orderly

/-- **An orderly step keeps the accounts.** -/
theorem Accounts.kept {x x' : Config × History} (h : Accounts x) {ok : Config → Action → Prop}
    (hr : Reaches deps ok x.1) (ha : Orderly x a) (hs : stepRecorded deps x a = some x') :
    Accounts x' := by
  obtain ⟨c, H⟩ := x
  obtain ⟨c', H'⟩ := x'
  obtain ⟨hstep, rfl⟩ : step deps c a = some c' ∧ H' = H ++ [committedAt c a] :=
    recording_eq_some hs
  obtain ⟨hcounted, hapart⟩ := h.counted_step hr ha hstep
  exact ⟨hapart, hcounted, h.unforced_step ha hstep, h.sound_step hr ha hstep⟩

/-- **The guard does what it is for**, along steps that are orderly: the events committed from an
entry are at least an hour apart, and its counter is their number. -/
theorem replays_guarded {now : Datetime} {x : Config × History}
    (h : Runs (stepRecorded deps) Orderly (initial now, []) x) (id : UUID) :
    ReplaysCounted x id := by
  have hreaches {y : Config × History}
      (hy : Runs (stepRecorded deps) Orderly (initial now, []) y) : Reaches deps anyStep y.1 :=
    ⟨now, hy.unrecorded fun _ _ _ => trivial⟩
  have haccounts : Accounts x := by
    refine h.invariant (J := Accounts) ?_ fun y a y' hy hJ ha hs => hJ.kept (hreaches hy) ha hs
    exact ⟨fun _ => List.Pairwise.nil, fun _ _ hrow => (nomatch hrow),
      fun _ hth => (nomatch hth), fun _ hth => nomatch hth⟩
  refine ⟨haccounts.apart id, fun row hrow => ?_⟩
  have hcount := (haccounts.counted id row hrow).count
  rwa [Table.key_of_get? hrow] at hcount

/-- An event that is dead-lettered after its only attempt: its entry is `id 3`. -/
def Sample.deadLettered : List Action :=
  Sample.setup Sample.shop Sample.order ++
    Sample.job 2 16 (Sample.oracle 3 (Sample.response 500 []))

/-- An entry that is replayed, and again two hours later. -/
theorem replays_guarded_two_hours : ∃ x,
    Runs (stepRecorded Sample.deps) Orderly (initial Sample.start, []) x ∧
      (eventsFrom (Sample.id 3) x.2).length = 2 ∧ ReplaysCounted x (Sample.id 3) := by
  have hrun : (runActs (stepRecorded Sample.deps) (fun x a => decide (Orderly x a))
      (initial Sample.start, []) (Sample.deadLettered ++
        Sample.request 3 9 (.replay (Sample.id 3) false) (Sample.oracle 4 .cancelled) ++
        [.tick 7200000000] ++
        Sample.request 4 10 (.replay (Sample.id 3) false) (Sample.oracle 5 .cancelled))).any
      (fun x => decide ((eventsFrom (Sample.id 3) x.2).length = 2)) = true := by
    decide +kernel
  obtain ⟨x, hx, hlen⟩ := exists_run Orderly (fun _ _ => of_decide_eq_true) hrun
  exact ⟨x, hx, of_decide_eq_true hlen, replays_guarded hx (Sample.id 3)⟩

/-- **Two replays of one entry that overlap**: both read a count of zero, the second one marks the
entry when the first one has committed, and two events are committed at once under a count of
one. -/
theorem replays_overlap : ∃ x,
    Runs (stepRecorded Sample.deps) (fun _ a => a.unforced = true) (initial Sample.start, []) x ∧
      ¬ (eventsFrom (Sample.id 3) x.2).Pairwise (fun y z => HourApart y.1 z.1) ∧
      ¬ ∀ row, x.1.world.db.deadLetters.get? (Sample.id 3) = some row →
        row.replayCount = (eventsFrom (Sample.id 3) x.2).length := by
  let first (n : ℕ) := Sample.calls 3 n (Sample.oracle 4 .cancelled)
  let second (n : ℕ) := Sample.calls 4 n (Sample.oracle 5 .cancelled)
  have hrun : (runActs (stepRecorded Sample.deps) (fun _ a => Action.unforced a)
      (initial Sample.start, []) (Sample.deadLettered ++
        [.arrive (.replay (Sample.id 3) false), .arrive (.replay (Sample.id 3) false)] ++
        first 5 ++ second 5 ++ first 4 ++ second 4)).any
      (fun x => decide (¬ (eventsFrom (Sample.id 3) x.2).Pairwise (fun y z => HourApart y.1 z.1) ∧
        ∃ row ∈ x.1.world.db.deadLetters.get? (Sample.id 3),
          row.replayCount ≠ (eventsFrom (Sample.id 3) x.2).length)) = true := by
    decide +kernel
  obtain ⟨x, hx, hp⟩ := exists_run (fun _ a => Action.unforced a = true) (fun _ _ h => h) hrun
  obtain ⟨hpairs, row, hrow, hne⟩ := of_decide_eq_true hp
  exact ⟨x, hx, hpairs, fun hall => hne (hall row hrow)⟩

/-- The time of the mark is not the one of the commit: a replay that is committed half an hour
after its mark, and a second one half an hour later, which finds the mark an hour old. -/
example : (runActs (stepRecorded Sample.deps) (fun _ a => Action.unforced a)
    (initial Sample.start, []) (Sample.deadLettered ++
      Sample.request 3 6 (.replay (Sample.id 3) false) (Sample.oracle 4 .cancelled) ++
      [.tick 1800000000] ++ Sample.calls 3 3 (Sample.oracle 4 .cancelled) ++ [.tick 1800000000] ++
      Sample.request 4 10 (.replay (Sample.id 3) false) (Sample.oracle 5 .cancelled))).any
    (fun x => decide ((eventsFrom (Sample.id 3) x.2).map (fun y => y.1.micros) =
      [1700001800000000, 1700003600000000])) = true := by
  decide +kernel

end WebhookRelay
