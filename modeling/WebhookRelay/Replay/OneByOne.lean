import WebhookRelay.Replay.Bench
import WebhookRelay.Runs.Rows

/-!
# A bulk replay and its entries one by one

A bulk replay marks its entries in one transaction; `oneByOne` replays each of them in a session
of its own and ignores the ones that were replayed too recently. When the clock stands and nobody
else is there, both leave the same tables, circuits and jobs (`bulk_eq_oneByOne`): each entry that
is due has a new pending event, its mark and a reset circuit, and nothing else has changed
(`Bench.ReplayedDue`).
-/

namespace WebhookRelay

open Data Data.Redis Effect DeadLetterRepository ReplayService

namespace Bench

/-- The entries replayed one by one, each in its own session; `RecentlyReplayedError` is
ignored. -/
def oneByOne (o : Oracle) (force : Bool) : List UUID → Bench → Except PyExn Unit × Bench
  | [], b => (.ok (), b)
  | id :: ids, b =>
    match run o (replaySingle id force true) b with
    | (.ok _, b') => oneByOne o force ids b'
    | (.error (.recentlyReplayed _), b') => oneByOne o force ids b'
    | (.error x, b') => (.error x, b')

/-- An entry is forced, was never replayed, or was last replayed at least an hour ago. -/
def due (force : Bool) (now : Datetime) (entry : DeadLetterEvent) : Bool :=
  force || decide (entry.replayCount = 0) ||
    entry.replayedAt.all fun t => decide (t.micros + 3600000000 ≤ now.micros)

/-- The keys of a circuit. -/
def circuitKeys (endpoint : UUID) : List Str :=
  [CircuitBreaker.stateKey endpoint.str, CircuitBreaker.failuresKey endpoint.str,
    CircuitBreaker.openedAtKey endpoint.str]

/-- What the replays of some entries leave: a pending event each, with no attempt, of the endpoint,
the type and the payload of the entry; their marks; their jobs; and closed circuits. Everything
else is as it was. -/
structure ReplayedDue (b : Bench) (entries : List DeadLetterEvent) (b' : Bench) : Prop where
  events : b'.world.db.events.rows = b.world.db.events.rows ++
    List.zipWith (fun e id => replayEvent e id b.world.now) entries b.ids
  deadLetters : b'.world.db.deadLetters.rows = b.world.db.deadLetters.rows.map fun r =>
    if r.id ∈ entries.map DeadLetterEvent.id then replayed r b.world.now else r
  endpoints : b'.world.db.endpoints = b.world.db.endpoints
  attempts : b'.world.db.attempts = b.world.db.attempts
  queued : ∀ id ∈ b.ids.take entries.length, b'.world.jobs id = ⟨some .queued, none⟩
  jobs : ∀ id ∉ b.ids.take entries.length, b'.world.jobs id = b.world.jobs id
  reset : ∀ e ∈ entries, ∀ key ∈ circuitKeys e.endpointId, b'.redis.keyspace key = none
  circuits : ∀ key, (∀ e ∈ entries, key ∉ circuitKeys e.endpointId) →
    b'.redis.keyspace key = b.redis.keyspace key
  posts : b'.world.posts = b.world.posts
  now : b'.world.now = b.world.now

/-! ### The check at a fixed time -/

/-- The check lets the due entries pass. -/
theorem checkAt_eq {force : Bool} {now : Datetime}
    (hclock : -62135596800000000 + 3600000000 ≤ now.micros) (entry : DeadLetterEvent) :
    checkAt force now entry = if due force now entry then .ok () else .error recent := by
  have hduration : Timedelta.ofSeconds (.finite (-3600)) =
      .ok ⟨-3600000000, by decide, by decide⟩ := by decide +kernel
  have hupper := now.upper
  have hago : now.addSeconds (.finite (-3600)) =
      .ok ⟨now.micros - 3600000000, by omega, by omega⟩ := by
    unfold Datetime.addSeconds
    rw [hduration]
    exact dif_pos ⟨by dsimp only; omega, by dsimp only; omega⟩
  unfold checkAt due
  cases force with
  | true => simp
  | false =>
    by_cases hcount : entry.replayCount = 0
    · simp [hcount]
    · cases hat : entry.replayedAt with
      | none => simp
      | some replayedAt =>
        have hpositive : 0 < entry.replayCount := Nat.pos_of_ne_zero hcount
        rw [if_pos ⟨hpositive, rfl⟩]
        dsimp only
        rw [hago]
        dsimp only
        simp only [Datetime.lt_def]
        by_cases hrecent : now.micros - 3600000000 < replayedAt.micros
        · have hnot : ¬ replayedAt.micros + 3600000000 ≤ now.micros := by omega
          simp [hrecent, hcount, hnot]
        · have hold : replayedAt.micros + 3600000000 ≤ now.micros := by omega
          simp [hrecent, hold]

/-- While the clock stands, the check decides about every entry. -/
theorem decides_of_fixed {b : Bench} (hfixed : b.pauses = [])
    (hclock : -62135596800000000 + 3600000000 ≤ b.world.now.micros) (force : Bool)
    (entries : List DeadLetterEvent) : b.Decides force (due force b.world.now) entries := by
  intro e _ t ht
  obtain rfl := times_of_fixed hfixed ht
  exact checkAt_eq hclock e

/-! ### The entries in sessions of their own -/

/-- The due entries are marked, each in its own transaction. -/
theorem run_oneByOne {o : Oracle} {force : Bool} {due : DeadLetterEvent → Bool}
    {entries : List DeadLetterEvent} : ∀ {b : Bench}, b.Ready .fresh entries →
      b.Decides force due entries → ∃ ms b', ms.map Mark.entry = entries.filter due ∧
        b.Marks (ms.flatMap Mark.writes) ms b' ∧
        oneByOne o force (entries.map DeadLetterEvent.id) b = (.ok (), b') := by
  induction entries with
  | nil => exact fun _ _ => ⟨[], _, rfl, .refl _, rfl⟩
  | cons e es ih =>
    intro b hready hdecides
    have hcheck := hdecides e List.mem_cons_self
    cases hdue : due e with
    | true =>
      rw [hdue] at hcheck
      obtain ⟨m, b₁, s₁, hentry, hmarks, -, -, hsingle⟩ :=
        drive_replaySingle_ok (o := o) hready true hcheck
      have hlog : b₁.world.wal ++ Session.fresh.pending =
          b.world.wal ++ Session.fresh.pending ++ m.writes := by
        have hwal : b₁.world.wal = b.world.wal ++ m.writes := hmarks.wal
        change b₁.world.wal ++ [] = b.world.wal ++ [] ++ m.writes
        rw [hwal, List.append_nil, List.append_nil]
      obtain ⟨ms, b', hentries, hrest, hloop⟩ :=
        ih (hready.next hentry hmarks hlog fun _ _ _ => rfl) (hdecides.tail hmarks.goes)
      refine ⟨m :: ms, b', ?_, hmarks.append hrest, ?_⟩
      · rw [List.map_cons, hentries, hentry, List.filter_cons_of_pos hdue]
      · rw [List.map_cons, oneByOne, run, hsingle]
        exact hloop
    | false =>
      rw [hdue] at hcheck
      obtain ⟨b₁, s₁, hwaits, -, -, hsingle⟩ :=
        drive_replaySingle_recent (o := o) hready true hcheck
      have hready₁ : b₁.Ready .fresh es := hready.tail.wait hwaits rfl hready.tail.found
      obtain ⟨ms, b', hentries, hrest, hloop⟩ := ih hready₁ (hdecides.tail hwaits.goes)
      refine ⟨ms, b', ?_, hwaits.append hrest, ?_⟩
      · rw [hentries, List.filter_cons_of_neg (by rw [hdue]; decide)]
      · rw [List.map_cons, oneByOne, run, hsingle]
        exact hloop

/-! ### What the marks are -/

/-- The mark of an entry at a given time, with a given identifier. -/
def markAt (now : Datetime) (e : DeadLetterEvent) (id : UUID) : Mark :=
  ⟨e, replayEvent e id now, now⟩

/-- When the clock stands, the marks are those of their entries with the next identifiers. -/
theorem Marks.eq_zipWith {b b' : Bench} {ws : List Write} {ms : List Mark}
    (hfixed : b.pauses = []) (h : b.Marks ws ms b') :
    ms = List.zipWith (markAt b.world.now) (ms.map Mark.entry) b.ids := by
  have hmark (m : Mark) (hm : m ∈ ms) : m = markAt b.world.now m.entry m.event.id := by
    obtain ⟨htime, t, ht, hevent⟩ := h.made m hm
    obtain rfl := times_of_fixed hfixed ht
    obtain ⟨entry, event, time⟩ := m
    obtain rfl : time = b.world.now := times_of_fixed hfixed htime
    exact congrArg (fun event => (⟨entry, event, b.world.now⟩ : Mark)) hevent
  rw [h.ids]
  clear h
  induction ms with
  | nil => rfl
  | cons m ms ih =>
    rw [List.map_cons, List.map_cons, List.cons_append, List.zipWith_cons_cons,
      ← hmark m List.mem_cons_self]
    exact congrArg (m :: ·) (ih fun m' hm' => hmark m' (List.mem_cons_of_mem _ hm'))

/-- The row of an entry that is marked is the entry as `mark_replayed` leaves it. -/
theorem apply_columns (m : Mark) : m.columns.apply m.entry = replayed m.entry m.time := by
  change ({ m.entry with
    replayedAt := (changed m.entry.replayedAt _).getD m.entry.replayedAt
    replayCount := (changed m.entry.replayCount _).getD m.entry.replayCount } :
      DeadLetterEvent) = _
  rw [changed_getD, changed_getD]
  rfl

/-- Marks leave the other tables. -/
theorem applyAll_marks (ms : List Mark) (db : Db) :
    (db.applyAll (ms.flatMap Mark.writes)).endpoints = db.endpoints ∧
      (db.applyAll (ms.flatMap Mark.writes)).attempts = db.attempts := by
  induction ms generalizing db with
  | nil => exact ⟨rfl, rfl⟩
  | cons m ms ih =>
    rw [List.flatMap_cons, Db.applyAll_append]
    exact ih (db.applyAll m.writes)

/-- The events of marks are appended in their order. -/
theorem events_marks {ms : List Mark} (hids : (ms.map fun m => m.event.id).Nodup) {db : Db}
    (hnew : ∀ m ∈ ms, db.events.get? m.event.id = none) :
    (db.applyAll (ms.flatMap Mark.writes)).events.rows = db.events.rows ++ ms.map Mark.event := by
  induction ms generalizing db with
  | nil => exact (List.append_nil _).symm
  | cons m ms ih =>
    rw [List.map_cons, List.nodup_cons] at hids
    have hfree := hnew m List.mem_cons_self
    have hrest : ∀ m' ∈ ms, (db.applyAll m.writes).events.get? m'.event.id = none := by
      intro m' hm'
      have hne : m.event.id ≠ m'.event.id := fun he =>
        hids.1 (List.mem_map.mpr ⟨m', hm', he.symm⟩)
      change (db.events.insert m.event).get? m'.event.id = none
      rw [Table.get?_insert hfree, if_neg hne]
      exact hnew m' (List.mem_cons_of_mem _ hm')
    have hrows : (db.applyAll m.writes).events.rows = db.events.rows ++ [m.event] :=
      Table.rows_insert hfree
    rw [List.flatMap_cons, Db.applyAll_append, ih hids.2 hrest, hrows, List.append_assoc]
    rfl

/-- A mark of a row as it was read changes this row to its replayed version. -/
theorem deadLetters_rows_mark {m : Mark} {db : Db}
    (hrow : db.deadLetters.get? m.entry.id = some m.entry) :
    (db.applyAll m.writes).deadLetters.rows = db.deadLetters.rows.map fun r =>
      if r.id = m.entry.id then replayed r m.time else r := by
  change (db.deadLetters.modify m.entry.id m.columns.apply m.columns.apply_id).rows = _
  rw [Table.rows_modify]
  refine List.map_congr_left fun r hr => ?_
  split_ifs with hid
  · have hget := Table.get?_of_mem hr
    rw [hid, hrow] at hget
    rw [← Option.some.inj hget, apply_columns]
  · rfl

/-- Marks of rows as they were read change these rows to their replayed versions. -/
theorem deadLetters_rows_marks {now : Datetime} {ms : List Mark}
    (htime : ∀ m ∈ ms, m.time = now) (hnodup : (ms.map fun m => m.entry.id).Nodup) {db : Db}
    (hrows : ∀ m ∈ ms, db.deadLetters.get? m.entry.id = some m.entry) :
    (db.applyAll (ms.flatMap Mark.writes)).deadLetters.rows = db.deadLetters.rows.map fun r =>
      if r.id ∈ ms.map (fun m => m.entry.id) then replayed r now else r := by
  induction ms generalizing db with
  | nil => simp
  | cons m ms ih =>
    rw [List.map_cons, List.nodup_cons] at hnodup
    have hrest : ∀ m' ∈ ms, (db.applyAll m.writes).deadLetters.get? m'.entry.id =
        some m'.entry := by
      intro m' hm'
      have hne : m'.entry.id ≠ m.entry.id := fun he =>
        hnodup.1 (List.mem_map.mpr ⟨m', hm', he⟩)
      rw [deadLetters_mark, if_neg hne]
      exact hrows m' (List.mem_cons_of_mem _ hm')
    rw [List.flatMap_cons, Db.applyAll_append,
      ih (fun m' hm' => htime m' (List.mem_cons_of_mem _ hm')) hnodup.2 hrest,
      deadLetters_rows_mark (hrows m List.mem_cons_self), htime m List.mem_cons_self, List.map_map]
    refine List.map_congr_left fun r _ => ?_
    rw [Function.comp_apply]
    by_cases hid : r.id = m.entry.id
    · have hreplayed : (replayed r now).id ∉ ms.map fun m => m.entry.id := by
        change r.id ∉ _
        rw [hid]
        exact hnodup.1
      rw [if_pos hid, if_neg hreplayed, if_pos (hid ▸ List.mem_cons_self)]
    · rw [if_neg hid]
      simp only [List.map_cons, List.mem_cons, hid, false_or]

/-- The keys after a reset. -/
theorem keyspace_clearing (server : Server) (endpoint : UUID) (key : Str) :
    (server.execute (CircuitBreaker.clearing endpoint.str)).2.keyspace key =
      if key ∈ circuitKeys endpoint then none else server.keyspace key := by
  rw [Server.keyspace_execute]
  unfold CircuitBreaker.clearing circuitKeys
  simp only [Keyspace.execAll, Keyspace.exec, List.mem_cons, List.not_mem_nil, or_false]
  by_cases hopened : key = CircuitBreaker.openedAtKey endpoint.str
  · rw [hopened, Function.update_self, if_pos (Or.inr (Or.inr rfl))]
  · rw [Function.update_of_ne hopened]
    by_cases hfailures : key = CircuitBreaker.failuresKey endpoint.str
    · rw [hfailures, Function.update_self, if_pos (Or.inr (Or.inl rfl))]
    · rw [Function.update_of_ne hfailures]
      by_cases hstate : key = CircuitBreaker.stateKey endpoint.str
      · rw [hstate, Function.update_self, if_pos (Or.inl rfl)]
      · rw [Function.update_of_ne hstate, if_neg]
        rintro (h | h | h)
        · exact hstate h
        · exact hfailures h
        · exact hopened h

/-- The keys after the resets of some marks. -/
theorem keyspace_marks (ms : List Mark) (key : Str) : ∀ server : Server,
    ((∃ m ∈ ms, key ∈ circuitKeys m.entry.endpointId) → (ms.foldl (fun server m =>
      (server.execute (CircuitBreaker.clearing m.entry.endpointId.str)).2) server).keyspace key =
        none) ∧
    ((∀ m ∈ ms, key ∉ circuitKeys m.entry.endpointId) → (ms.foldl (fun server m =>
      (server.execute (CircuitBreaker.clearing m.entry.endpointId.str)).2) server).keyspace key =
        server.keyspace key) := by
  induction ms with
  | nil => exact fun server => ⟨fun h => absurd h (by simp), fun _ => rfl⟩
  | cons m ms ih =>
    intro server
    have hfirst := keyspace_clearing server m.entry.endpointId key
    obtain ⟨hreset, hkept⟩ :=
      ih (server.execute (CircuitBreaker.clearing m.entry.endpointId.str)).2
    refine ⟨fun h => ?_, fun h => ?_⟩
    · by_cases hlater : ∃ m' ∈ ms, key ∈ circuitKeys m'.entry.endpointId
      · exact hreset hlater
      · obtain ⟨m', hm', hkey⟩ := h
        rcases List.mem_cons.mp hm' with rfl | hm'
        · rw [if_pos hkey] at hfirst
          exact (hkept fun m' hm' hkey' => hlater ⟨m', hm', hkey'⟩).trans hfirst
        · exact absurd ⟨m', hm', hkey⟩ hlater
    · rw [if_neg (h m List.mem_cons_self)] at hfirst
      exact (hkept fun m' hm' => h m' (List.mem_cons_of_mem _ hm')).trans hfirst

/-- The jobs after the enqueues of some marks. -/
theorem jobs_marks (ms : List Mark) (id : UUID) : ∀ jobs : UUID → Job,
    ms.foldl (fun jobs m => Function.update jobs m.event.id ⟨some .queued, none⟩) jobs id =
      if id ∈ ms.map (fun m => m.event.id) then ⟨some .queued, none⟩ else jobs id := by
  induction ms with
  | nil => exact fun jobs => (if_neg List.not_mem_nil).symm
  | cons m ms ih =>
    intro jobs
    rw [List.foldl_cons, ih]
    by_cases hlater : id ∈ ms.map fun m => m.event.id
    · rw [if_pos hlater]
      exact (if_pos (List.mem_cons_of_mem _ hlater)).symm
    · rw [if_neg hlater]
      by_cases hid : id = m.event.id
      · rw [hid, Function.update_self]
        exact (if_pos List.mem_cons_self).symm
      · rw [Function.update_of_ne hid, if_neg]
        exact fun h => (List.mem_cons.mp h).elim hid hlater

/-- What the marks of rows as they were read leave, when the clock stands. -/
theorem Marks.replayedDue {b b' : Bench} {ms : List Mark} {entries : List DeadLetterEvent} {n : ℕ}
    (hfixed : b.pauses = []) (h : b.Marks (ms.flatMap Mark.writes) ms b')
    (hentries : ms.map Mark.entry = entries)
    (hrows : ∀ e ∈ entries, b.world.db.deadLetters.get? e.id = some e)
    (hnodup : (entries.map DeadLetterEvent.id).Nodup) (hsupplied : b.Supplied n) :
    b.ReplayedDue entries b' := by
  have hdb : b'.world.db = b.world.db.applyAll (ms.flatMap Mark.writes) :=
    World.db_of_wal h.wal
  have hmem {m : Mark} (hm : m ∈ ms) : m.entry ∈ entries := hentries ▸ List.mem_map_of_mem hm
  have hentryIds : ms.map (fun m => m.entry.id) = entries.map DeadLetterEvent.id := by
    rw [← hentries, List.map_map]
    rfl
  have hnodupIds := hsupplied.nodup
  rw [h.ids] at hnodupIds
  have htime : ∀ m ∈ ms, m.time = b.world.now := fun m hm =>
    times_of_fixed hfixed (h.made m hm).1
  have hnew : ∀ m ∈ ms, b.world.db.events.get? m.event.id = none := fun m hm =>
    hsupplied.unused _ (h.ids ▸ List.mem_append_left _ (List.mem_map_of_mem hm))
  have htaken : b.ids.take entries.length = ms.map fun m => m.event.id := by
    rw [h.ids, ← hentries, List.length_map]
    exact List.take_left' (List.length_map _)
  have hevents : ms.map Mark.event =
      List.zipWith (fun e id => replayEvent e id b.world.now) entries b.ids := by
    have hms := congrArg (List.map Mark.event) (h.eq_zipWith hfixed)
    rw [List.map_zipWith, hentries] at hms
    exact hms
  exact {
    events := by
      rw [hdb, events_marks (hnodupIds.sublist (List.sublist_append_left _ _)) hnew, hevents]
    deadLetters := by
      rw [hdb, deadLetters_rows_marks htime (hentryIds ▸ hnodup)
        (fun m hm => hrows m.entry (hmem hm)), hentryIds]
    endpoints := by rw [hdb, (applyAll_marks ms _).1]
    attempts := by rw [hdb, (applyAll_marks ms _).2]
    queued := by
      intro id hid
      rw [htaken] at hid
      rw [h.jobs, jobs_marks, if_pos hid]
    jobs := by
      intro id hid
      rw [htaken] at hid
      rw [h.jobs, jobs_marks, if_neg hid]
    reset := by
      intro e he key hkey
      rw [← hentries] at he
      obtain ⟨m, hm, rfl⟩ := List.mem_map.mp he
      rw [h.redis]
      exact (keyspace_marks ms key b.redis).1 ⟨m, hm, hkey⟩
    circuits := by
      intro key hkey
      rw [h.redis]
      exact (keyspace_marks ms key b.redis).2 fun m hm => hkey m.entry (hmem hm)
    posts := h.posts
    now := times_of_fixed hfixed h.goes.now }

/-! ### The equivalence -/

/-- **Bulk equals one by one.** -/
theorem bulk_eq_oneByOne {o : Oracle} {b : Bench} {endpointId : Option UUID}
    {eventType : Option Str} {force : Bool} (hfixed : b.pauses = [])
    (hclock : -62135596800000000 + 3600000000 ≤ b.world.now.micros)
    (hstocked : b.world.db.Stocked)
    (hsupplied : b.Supplied (b.world.db.unreplayed endpointId eventType).length)
    (hnul : eventType.any Str.hasNul = false) : ∃ answer b',
      run o (replayBulk endpointId eventType force) b = (.ok answer, b') ∧
      oneByOne o force ((b.world.db.unreplayed endpointId eventType).map DeadLetterEvent.id) b =
        (.ok (), b') ∧
      b.ReplayedDue ((b.world.db.unreplayed endpointId eventType).filter
        (due force b.world.now)) b' ∧
      answer.replayed = (b.world.db.unreplayed endpointId eventType).countP
        (due force b.world.now) ∧
      answer.replayed + answer.errors = (b.world.db.unreplayed endpointId eventType).length := by
  have hrow : ∀ e ∈ b.world.db.unreplayed endpointId eventType,
      b.world.db.deadLetters.get? e.id = some e := fun e he =>
    Table.get?_of_mem (mem_selectDeadLetters he)
  have hnodup := nodup_selectDeadLetters b.world.db endpointId eventType 1000
  have hdecides := decides_of_fixed hfixed hclock force
    (b.world.db.unreplayed endpointId eventType)
  obtain ⟨ms, b₁, hentries₁, hmarks₁, hbulk⟩ :=
    run_replayBulk (o := o) hstocked hsupplied hnul hdecides
  obtain ⟨ms', b₂, hentries₂, hmarks₂, hsingles⟩ :=
    run_oneByOne (o := o) (ready_unreplayed hstocked hsupplied rfl hrow) hdecides
  obtain rfl : ms' = ms := by
    rw [hmarks₂.eq_zipWith hfixed, hmarks₁.eq_zipWith hfixed, hentries₁, hentries₂]
  obtain rfl := hmarks₁.unique hfixed hmarks₂
  have hcount : ms'.length = (b.world.db.unreplayed endpointId eventType).countP
      (due force b.world.now) := by
    rw [List.countP_eq_length_filter, ← hentries₁, List.length_map]
  refine ⟨_, b₁, hbulk, hsingles, hmarks₁.replayedDue hfixed hentries₁
    (fun e he => hrow e (List.mem_of_mem_filter he))
    (hnodup.sublist (List.filter_sublist.map _)) hsupplied, hcount, ?_⟩
  have hnegation : (fun e => !due force b.world.now e) =
      fun e => decide ¬ due force b.world.now e = true := by
    funext e
    cases due force b.world.now e <;> rfl
  dsimp only
  rw [hcount, hnegation]
  exact (List.length_eq_countP_add_countP (due force b.world.now)).symm

/-- Of two entries the one that was never replayed is due. -/
theorem bulk_eq_oneByOne_sample : ∃ answer b',
    run (Sample.oracle 9 .cancelled) (replayBulk none none false) (Sample.bench
      [Sample.letter 3 0 none, Sample.letter 4 1 (some Sample.start)] [Sample.id 5, Sample.id 6]) =
        (.ok answer, b') ∧
      answer.replayed = 1 ∧ answer.replayed + answer.errors = 2 := by
  have hstocked : (Sample.bench [Sample.letter 3 0 none, Sample.letter 4 1 (some Sample.start)]
      [Sample.id 5, Sample.id 6]).world.db.Stocked :=
    ⟨by decide +kernel, by decide +kernel⟩
  have hsupplied : (Sample.bench [Sample.letter 3 0 none, Sample.letter 4 1 (some Sample.start)]
      [Sample.id 5, Sample.id 6]).Supplied 2 :=
    ⟨by decide +kernel, by decide +kernel, by decide +kernel, by decide +kernel⟩
  obtain ⟨answer, b', hbulk, -, -, hreplayed, hsum⟩ :=
    @bulk_eq_oneByOne (Sample.oracle 9 .cancelled) _ none none false rfl (by decide) hstocked
      hsupplied rfl
  exact ⟨answer, b', hbulk, hreplayed, hsum⟩

end Bench

end WebhookRelay
