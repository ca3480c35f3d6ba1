import WebhookRelay.Sample
import WebhookRelay.Runs.Rows

/-!
# No event is stranded

In every reachable state, whatever the interleaving and whatever failed, a row that is not
terminal is `pending` without a time of the next try or `failed` with one. From a time on that
can be read off the row (`WebhookEvent.polledFrom`) such a row satisfies exactly one of the two
predicates of the cron job; a terminal row satisfies neither. A row is never `delivering`, so the
four counts of `global_stats` add up. The predicates say what the two queries of the cron job read
(`read_by_one_query`), and the counts are those of the rows (`stats_count_rows`).
-/

namespace WebhookRelay

open Data Effect

/-! ### The two queries of the cron job -/

/-- The time, in microseconds, from which a row that is not terminal is polled: when its next try
is due, or 120 seconds after its creation. -/
def WebhookEvent.polledFrom (r : WebhookEvent) : ℤ :=
  match r.nextRetryAt with
  | some t => t.micros
  | none => r.createdAt.micros + 120000001

/-- The cutoff of `get_stale_pending` is 120 seconds ago. -/
theorem micros_cutoff {t cutoff : Datetime}
    (h : t.addSeconds (.finite (-(120 : ℕ))) = .ok cutoff) :
    cutoff.micros = t.micros - 120000000 := by
  have hmicros : cutoff.micros = t.micros + -120 * 1000000 :=
    Datetime.micros_addSeconds_intCast (by exact_mod_cast h)
  omega

/-- A terminal row satisfies neither predicate. -/
theorem not_polled_of_terminal {r : WebhookEvent} (h : r.status.terminal = true)
    (t cutoff : Datetime) : Db.dueForRetry t r = false ∧ Db.stalePending cutoff r = false := by
  unfold EventStatus.terminal at h
  unfold Db.dueForRetry Db.stalePending
  rcases of_decide_eq_true h with h | h <;> rw [h] <;> exact ⟨rfl, rfl⟩

/-- A settled row that is not terminal satisfies exactly one of the two predicates from
`polledFrom` on; the two queries read the clock one after the other. -/
theorem polled_of_settled {r : WebhookEvent} (hr : r.Settled) (hterm : r.status.terminal = false)
    {t t' cutoff : Datetime} (ht : r.polledFrom ≤ t.micros) (ht' : r.polledFrom ≤ t'.micros)
    (hcutoff : t'.addSeconds (.finite (-(120 : ℕ))) = .ok cutoff) :
    Db.dueForRetry t r = !Db.stalePending cutoff r := by
  have hc := micros_cutoff hcutoff
  unfold WebhookEvent.polledFrom at ht ht'
  rcases hr with ⟨hs, hn⟩ | ⟨hs, hn⟩ | hs
  · rw [hn] at ht'
    have hstale : r.createdAt < cutoff := by
      rw [Datetime.lt_def]
      dsimp only at ht'
      omega
    simp [Db.dueForRetry, Db.stalePending, hs, hn, hstale]
  · obtain ⟨u, hu⟩ := Option.isSome_iff_exists.mp hn
    rw [hu] at ht
    have hdue : u ≤ t := ht
    simp [Db.dueForRetry, Db.stalePending, hs, hu, hdue]
  · rw [hs] at hterm
    cases hterm

/-- What the query for due events reads is due. -/
theorem mem_selectDueForRetry {db : Db} {now : Datetime} {limit : ℕ} {r : WebhookEvent}
    (h : r ∈ db.selectDueForRetry now limit) :
    r ∈ db.events.rows ∧ Db.dueForRetry now r = true :=
  List.mem_filter.mp ((List.mem_insertionSort _).mp (List.mem_of_mem_take h))

/-- It reads all that are due, if they are no more than its limit. -/
theorem mem_selectDueForRetry_iff {db : Db} {now : Datetime} {limit : ℕ} {r : WebhookEvent}
    (hroom : db.events.rows.countP (Db.dueForRetry now) ≤ limit) :
    r ∈ db.selectDueForRetry now limit ↔ r ∈ db.events.rows ∧ Db.dueForRetry now r = true := by
  refine ⟨mem_selectDueForRetry, fun h => ?_⟩
  unfold Db.selectDueForRetry
  rw [List.take_of_length_le]
  · exact (List.mem_insertionSort _).mpr (List.mem_filter.mpr h)
  · rwa [List.length_insertionSort, ← List.countP_eq_length_filter]

/-- What the query for stale events reads is stale. -/
theorem mem_selectStalePending {db : Db} {cutoff : Datetime} {limit : ℕ} {r : WebhookEvent}
    (h : r ∈ db.selectStalePending cutoff limit) :
    r ∈ db.events.rows ∧ Db.stalePending cutoff r = true :=
  List.mem_filter.mp (List.mem_of_mem_take h)

/-- It reads all that are stale, if they are no more than its limit. -/
theorem mem_selectStalePending_iff {db : Db} {cutoff : Datetime} {limit : ℕ} {r : WebhookEvent}
    (hroom : db.events.rows.countP (Db.stalePending cutoff) ≤ limit) :
    r ∈ db.selectStalePending cutoff limit ↔
      r ∈ db.events.rows ∧ Db.stalePending cutoff r = true := by
  refine ⟨mem_selectStalePending, fun h => ?_⟩
  unfold Db.selectStalePending
  rw [List.take_of_length_le]
  · exact List.mem_filter.mpr h
  · rwa [← List.countP_eq_length_filter]

/-! ### The statistics -/

/-- The counts of a table without a row that is `delivering`. -/
def Balanced (counts : List (EventStatus × ℕ)) : Prop :=
  Api.countOf counts .pending + Api.countOf counts .failed + Api.countOf counts .delivered +
    Api.countOf counts .deadLettered = (counts.map Prod.snd).sum

section counts

variable {db : Db}

/-- The rows that are counted when no endpoint is asked for. -/
theorem countByStatus_none (db : Db) : db.countByStatus none =
    (Db.statuses.map fun s => (s, db.events.rows.countP fun r => decide (r.status = s))).filter
      fun x => decide (x.2 ≠ 0) := by
  have hrows : db.events.rows.filter (fun r => (none : Option UUID).all fun id =>
      decide (r.endpointId = id)) = db.events.rows := List.filter_eq_self.mpr fun _ _ => rfl
  unfold Db.countByStatus
  rw [hrows]

/-- A list with one number for each status, without the zeros. -/
theorem countOf_numbers (n : EventStatus → ℕ) (s : EventStatus) :
    Api.countOf ((Db.statuses.map fun s => (s, n s)).filter fun x => decide (x.2 ≠ 0)) s = n s := by
  unfold Api.countOf
  rw [List.find?_filter]
  by_cases hzero : n s = 0 <;> cases s <;> simp [Db.statuses, hzero]

/-- **The count of a status is the number of its rows**; a status without rows counts zero. -/
theorem countOf_countByStatus (db : Db) (s : EventStatus) :
    Api.countOf (db.countByStatus none) s =
      db.events.rows.countP fun r => decide (r.status = s) := by
  rw [countByStatus_none]
  exact countOf_numbers (fun s => db.events.rows.countP fun r => decide (r.status = s)) s

/-- Every row has one of the statuses. -/
theorem sum_countP_status (rows : List WebhookEvent) :
    ((Db.statuses.map fun s => rows.countP fun r => decide (r.status = s))).sum =
      rows.length := by
  induction rows with
  | nil => rfl
  | cons r rows ih =>
    rw [List.length_cons, ← ih]
    cases hr : r.status <;> simp [Db.statuses, hr] <;> omega

/-- **The total is the number of the rows.** -/
theorem sum_countByStatus (db : Db) :
    ((db.countByStatus none).map Prod.snd).sum = db.events.rows.length := by
  have hsum (l : List (EventStatus × ℕ)) :
      ((l.filter fun x => decide (x.2 ≠ 0)).map Prod.snd).sum = (l.map Prod.snd).sum := by
    induction l with
    | nil => rfl
    | cons x l ih =>
      rw [List.filter_cons]
      split_ifs with hx
      · rw [List.map_cons, List.sum_cons, List.map_cons, List.sum_cons, ih]
      · have hx : x.2 = 0 := by simpa using hx
        rw [ih, List.map_cons, List.sum_cons, hx, Nat.zero_add]
  rw [countByStatus_none, hsum, List.map_map]
  exact sum_countP_status db.events.rows

/-- The counts of a table of settled rows are balanced. -/
theorem balanced_countByStatus (h : ∀ id r, db.events.get? id = some r → r.Settled) :
    Balanced (db.countByStatus none) := by
  have hnone : (db.events.rows.countP fun r => decide (r.status = .delivering)) = 0 := by
    refine List.countP_eq_zero.mpr fun r hr hs => ?_
    have hs : r.status = .delivering := of_decide_eq_true hs
    rcases h r.id r (Table.get?_of_mem hr) with ⟨h, -⟩ | ⟨h, -⟩ | h <;> rw [hs] at h <;> cases h
  unfold Balanced
  rw [sum_countByStatus, ← sum_countP_status]
  simp only [countOf_countByStatus, Db.statuses, List.map_cons, List.map_nil, List.sum_cons,
    List.sum_nil, hnone]
  omega

end counts

/-- The counts that `global_stats` has read. -/
def statsContract : Contract relay PyExn (Option (List (EventStatus × ℕ))) where
  allows _ _ := True
  next p e r := match e, r with
    | .countByStatus none, .ok counts => some counts
    | _, _ => p

/-- The statistics that are answered are those of the counts that were read. -/
def StatsOf (reply : Reply) (counts? : Option (List (EventStatus × ℕ))) : Prop :=
  ∀ s, reply = .stats s → ∃ counts n circuits,
    counts? = some counts ∧ s = Api.statsResponse counts n circuits

/-- A program that answers with something else. -/
theorem never_stats_map {α : Type} {g : α → Reply} (hg : ∀ a s, g a ≠ .stats s) (q : Relay α)
    (p : Option (List (EventStatus × ℕ))) :
    (g <$> q).Obeys statsContract (finishing fun reply _ => ∀ s, reply ≠ .stats s) p := by
  refine (Prog.obeys_map g q).mpr (Prog.obeys_of_forall (fun _ _ => trivial) ?_ q p)
  intro r p b hb
  obtain ⟨a, -, rfl⟩ := map_eq_ok.mp hb
  exact hg a

/-- Only `global_stats` answers with statistics. -/
theorem program_never_stats (deps : Deps) {o : Origin} (ho : o ≠ .request .stats) :
    (o.program deps).Obeys statsContract (finishing fun reply _ => ∀ s, reply ≠ .stats s)
      none := by
  cases o with
  | job id => exact never_stats_map (by rintro a s ⟨⟩) _ _
  | reaped id => exact never_stats_map (by rintro a s ⟨⟩) _ _
  | cron => exact never_stats_map (by rintro a s ⟨⟩) _ _
  | request r =>
    cases r with
    | stats => exact absurd rfl ho
    | _ => exact never_stats_map (by rintro a s ⟨⟩) _ _

/-- It answers with the statistics of the counts it has read. -/
theorem program_stats (deps : Deps) : (Origin.program deps (.request .stats)).Obeys statsContract
    (finishing StatsOf) none := by
  refine (Prog.obeys_map _ _).mpr ((Prog.obeys_bind _ _).mpr ?_)
  have hcounts : Api.globalStats.Obeys statsContract (fun r p => ∀ s, r = .ok s →
      ∃ counts n circuits, p = some counts ∧ s = Api.statsResponse counts n circuits)
      none := by
    refine (Prog.obeys_perform_bind (I := relay) (Op.countByStatus none) _).mpr
      ⟨trivial, fun counts => ?_, fun _ _ h => nomatch h⟩
    refine (Prog.obeys_perform_bind (I := relay) Op.countDeadLetters _).mpr
      ⟨trivial, fun n => ?_, fun _ _ h => nomatch h⟩
    refine (Prog.obeys_perform_bind (I := relay) Op.getOpenCircuits _).mpr
      ⟨trivial, fun circuits => ?_, fun _ _ h => nomatch h⟩
    rintro s ⟨⟩
    exact ⟨counts, n, circuits, rfl, rfl⟩
  refine hcounts.mono fun r p hr => ?_
  cases r with
  | error x => exact fun _ h => nomatch h
  | ok s =>
    refine (Prog.obeys_perform_bind (I := relay) Op.commit _).mpr
      ⟨trivial, fun _ => ?_, fun _ _ h => nomatch h⟩
    rintro _ ⟨⟩ _ ⟨⟩
    exact hr s rfl

/-- It writes nothing. -/
theorem program_stats_silent (deps : Deps) :
    (Origin.program deps (.request .stats)).Calls fun e : Op => e.writes = [] := by
  have hsilent {e : Op} (h : e.writes = []) :
      (Prog.perform (I := relay) e : Relay e.Resp).Calls fun e : Op => e.writes = [] :=
    Prog.calls_perform h
  have hstats : Api.globalStats.Calls fun e : Op => e.writes = [] :=
    Prog.Calls.bind (hsilent rfl) fun _ => Prog.Calls.bind (hsilent rfl) fun _ =>
      Prog.Calls.bind (hsilent rfl) fun _ => Prog.calls_done _
  exact (hstats.bind fun _ => Prog.Calls.bind (hsilent rfl) fun _ => Prog.calls_done _).map _

/-! ### The counts that are read -/

variable {deps : Deps} {ok : Config → Action → Prop} {c : Config}

/-- What answers with statistics is `global_stats`. -/
theorem Reaches.origin_of_stats (h : Reaches deps ok c) {th : Coroutine} (hth : th ∈ c.threads)
    {s : Api.StatsResponse} (hp : th.prog = .done (.stats s)) : th.origin = .request .stats := by
  by_contra hne
  exact (h.follows (S := fun o => o ≠ .request .stats) (fun o ho => program_never_stats deps ho)
    (fun _ _ => nofun) th hth hne).done hp s rfl

/-- Its session is empty. -/
theorem Reaches.stats_pending (h : Reaches deps ok c) : ∀ th ∈ c.threads,
    th.origin = .request .stats → th.session.pending = [] := by
  refine h.invariant (J := fun c => ∀ th ∈ c.threads, th.origin = .request .stats →
    th.session.pending = []) (fun _ _ hth => nomatch hth) fun c a c' hr hc _ hs => ?_
  refine (stepped hs).forall_threads hc (fun _ _ _ _ h => h) (fun _ _ _ _ => rfl) ?_
    (fun _ _ _ _ => rfl) (fun _ _ _ _ _ _ _ ho => nomatch ho)
  intro t th e k r w s hth hp ha _ hpend ho
  have hwrites : e.writes = [] := by
    rcases (hr.obeys (List.mem_of_getElem? hth) (by
      rw [show th.origin = .request .stats from ho]; exact program_stats_silent deps)).2 with
      hobeys | hcut
    · rw [hp] at hobeys
      exact hobeys.1
    · rw [hp] at hcut
      cases hcut
  have hs : s.pending = [] := by
    refine List.eq_nil_iff_forall_not_mem.mpr fun x hx => ?_
    rcases ha.mem_pending hx with hx | hx
    · rw [hpend ho] at hx
      cases hx
    · rw [hwrites] at hx
      cases hx
  show (if (k r).ended then Session.fresh else s).pending = []
  split_ifs
  · rfl
  · exact hs

/-- The counts are those of a committed state of the tables, and balanced. -/
structure CountsRead (c : Config) (counts : List (EventStatus × ℕ)) : Prop where
  read : ∃ ws, ws <+: c.world.wal ∧ counts = (Db.empty.applyAll ws).countByStatus none
  balanced : Balanced counts

/-- The counts that `global_stats` has read. -/
theorem Reaches.counted (h : Reaches deps ok c) : ∀ th ∈ c.threads,
    th.origin = .request .stats → ∀ counts, statsContract.run none th.trace = some counts →
      CountsRead c counts := by
  refine h.invariant (J := fun c => ∀ th ∈ c.threads, th.origin = .request .stats →
    ∀ counts, statsContract.run none th.trace = some counts → CountsRead c counts)
    (fun _ th hth => nomatch hth) fun c a c' hr hc _ hs => ?_
  have hgrow {counts : List (EventStatus × ℕ)} (h : CountsRead c counts) :
      CountsRead c' counts := by
    obtain ⟨⟨ws, hws, hread⟩, hbalanced⟩ := h
    exact ⟨⟨ws, hws.trans (stepped hs).wal_grows, hread⟩, hbalanced⟩
  refine (stepped hs).forall_threads hc
    (fun _ _ _ _ h ho counts hcounts => hgrow (h ho counts hcounts))
    (fun _ _ _ _ _ h => nomatch h) ?_
    (fun _ _ h ho counts hcounts => hgrow (h ho counts hcounts))
    (fun _ _ _ _ _ _ _ ho => nomatch ho)
  intro t th e k r w s hth hp ha _ hcounted ho counts hcounts
  simp only [Thread.answered, Contract.run_append_singleton] at hcounts
  have hm : th ∈ c.threads := List.mem_of_getElem? hth
  cases e with
  | countByStatus endpointId? =>
    rcases endpointId? with _ | endpointId
    · rcases r with x | counts'
      · exact hgrow (hcounted ho counts hcounts)
      · obtain rfl : counts' = counts := Option.some.inj hcounts
        obtain ⟨o, -, hexec⟩ := ha.of_ok
        obtain rfl : (c.world.view th.session).countByStatus none = counts' :=
          Except.ok.inj (Prod.mk.inj hexec).1
        rw [view_of_pending (hr.stats_pending th hm ho)]
        exact ⟨⟨c.world.wal, (stepped hs).wal_grows, rfl⟩,
          balanced_countByStatus hr.sound.settled⟩
    · exact hgrow (hcounted ho counts hcounts)
  | _ => exact hgrow (hcounted ho counts hcounts)

/-- What `global_stats` has answered is made of counts that it has read. -/
theorem Reaches.answered_stats (h : Reaches deps ok c) {th : Coroutine} (hth : th ∈ c.threads)
    {s : Api.StatsResponse} (hp : th.prog = .done (.stats s)) : ∃ counts n circuits,
      CountsRead c counts ∧ s = Api.statsResponse counts n circuits := by
  have ho := h.origin_of_stats hth hp
  have hfollows := h.follows (S := fun o => o = .request .stats)
    (fun o ho => by rw [ho]; exact program_stats deps) (fun _ h => nomatch h) th hth ho
  obtain ⟨counts, n, circuits, hcounts, hs⟩ := hfollows.done hp s rfl
  exact ⟨counts, n, circuits, h.counted th hth ho counts hcounts, hs⟩

/-- **The statistics count the rows of the table**: those of the state of the tables, after some
of the commits so far, at which they were read. -/
theorem stats_count_rows (h : Reaches deps ok c) {th : Coroutine} (hth : th ∈ c.threads)
    {s : Api.StatsResponse} (hp : th.prog = .done (.stats s)) : ∃ ws, ws <+: c.world.wal ∧
      let rows := (Db.empty.applyAll ws).events.rows
      s.totalEvents = rows.length ∧
        s.pending = rows.countP (fun r => decide (r.status = .pending)) ∧
        s.failed = rows.countP (fun r => decide (r.status = .failed)) ∧
        s.delivered = rows.countP (fun r => decide (r.status = .delivered)) ∧
        s.deadLettered = rows.countP fun r => decide (r.status = .deadLettered) := by
  obtain ⟨counts, n, circuits, ⟨⟨ws, hws, rfl⟩, -⟩, rfl⟩ := h.answered_stats hth hp
  exact ⟨ws, hws, sum_countByStatus _, countOf_countByStatus _ _, countOf_countByStatus _ _,
    countOf_countByStatus _ _, countOf_countByStatus _ _⟩

/-- No event of the state is stranded, and the statistics that have been answered add up. -/
structure NoneStranded (c : Config) : Prop where
  /-- A row that is not terminal waits for its first try or for its next one. -/
  waits : ∀ id r, c.world.db.events.get? id = some r → r.status.terminal = false →
    (r.status = .pending ∧ r.nextRetryAt = none) ∨
      (r.status = .failed ∧ r.nextRetryAt.isSome = true)
  /-- From a time on it satisfies exactly one of the two predicates of the cron job. -/
  polled : ∀ id r, c.world.db.events.get? id = some r → r.status.terminal = false →
    ∀ t t' cutoff : Datetime, r.polledFrom ≤ t.micros → r.polledFrom ≤ t'.micros →
      t'.addSeconds (.finite (-(120 : ℕ))) = .ok cutoff →
        Db.dueForRetry t r = !Db.stalePending cutoff r
  /-- A terminal row satisfies neither. -/
  terminal : ∀ id r, c.world.db.events.get? id = some r → r.status.terminal = true →
    ∀ t cutoff, Db.dueForRetry t r = false ∧ Db.stalePending cutoff r = false
  /-- No committed row is `delivering`. -/
  never_delivering : ∀ id r, c.world.db.events.get? id = some r → r.status ≠ .delivering
  /-- The four counts of an answer of `global_stats` add up. -/
  stats : ∀ th ∈ c.threads, ∀ s, th.prog = .done (.stats s) →
    s.pending + s.failed + s.delivered + s.deadLettered = s.totalEvents

/-- **No event is stranded**: every state that any interleaving of requests, jobs and polls
reaches, with failures at any call, has this. -/
theorem no_event_stranded (h : Reaches deps anyStep c) : NoneStranded c where
  waits id r hr hterm := by
    rcases h.sound.settled id r hr with hs | hs | hs
    · exact Or.inl hs
    · exact Or.inr hs
    · rw [hs] at hterm
      cases hterm
  polled id r hr hterm _ _ _ ht ht' hcutoff :=
    polled_of_settled (h.sound.settled id r hr) hterm ht ht' hcutoff
  terminal _ _ _ hterm := not_polled_of_terminal hterm
  never_delivering id r hr hs := by
    rcases h.sound.settled id r hr with ⟨h, -⟩ | ⟨h, -⟩ | h <;> rw [hs] at h <;> cases h
  stats th hth s hp := by
    obtain ⟨counts, n, circuits, hcounted, rfl⟩ := h.answered_stats hth hp
    exact hcounted.balanced

/-- **From `polledFrom` on, the poll reads a waiting event with exactly one of its two queries**, if
they have room for what they look for. -/
theorem read_by_one_query (h : Reaches deps ok c) {id : UUID} {r : WebhookEvent}
    (hr : c.world.db.events.get? id = some r) (hterm : r.status.terminal = false)
    {t t' cutoff : Datetime} (ht : r.polledFrom ≤ t.micros) (ht' : r.polledFrom ≤ t'.micros)
    (hcutoff : t'.addSeconds (.finite (-(120 : ℕ))) = .ok cutoff) {n m : ℕ}
    (hdue : c.world.db.events.rows.countP (Db.dueForRetry t) ≤ n)
    (hstale : c.world.db.events.rows.countP (Db.stalePending cutoff) ≤ m) :
    r ∈ c.world.db.selectDueForRetry t n ↔ r ∉ c.world.db.selectStalePending cutoff m := by
  have hrow := Table.mem_of_get? hr
  have hone := polled_of_settled (h.sound.settled id r hr) hterm ht ht' hcutoff
  rw [mem_selectDueForRetry_iff hdue, mem_selectStalePending_iff hstale, hone]
  simp [hrow]

/-- It never reads a terminal event. -/
theorem not_read_of_terminal {db : Db} {r : WebhookEvent} (hterm : r.status.terminal = true)
    (t cutoff : Datetime) (n m : ℕ) :
    r ∉ db.selectDueForRetry t n ∧ r ∉ db.selectStalePending cutoff m := by
  obtain ⟨hdue, hstale⟩ := not_polled_of_terminal hterm t cutoff
  refine ⟨fun hmem => ?_, fun hmem => ?_⟩
  · exact Bool.noConfusion (hdue.symm.trans (mem_selectDueForRetry hmem).2)
  · exact Bool.noConfusion (hstale.symm.trans (mem_selectStalePending hmem).2)

/-- An event whose first attempt was answered with a 500, and the statistics after it. -/
theorem no_event_stranded_retrying : ∃ c, Reaches Sample.deps anyStep c ∧
    (c.world.db.events.get? (Sample.id 2)).map WebhookEvent.status = some .failed ∧
    c.threads.map (fun th => th.prog.ended) = [true, true, true, true] ∧ NoneStranded c := by
  have hrun : (runActs (step Sample.deps) (fun _ _ => true) (initial Sample.start)
      (Sample.setup Sample.retrying Sample.order ++
        Sample.job 2 15 (Sample.oracle 3 (Sample.response 500 [])) ++
        Sample.request 3 4 .stats (Sample.oracle 4 .cancelled))).any (fun c =>
      decide ((c.world.db.events.get? (Sample.id 2)).map WebhookEvent.status = some .failed ∧
        c.threads.map (fun th => th.prog.ended) = [true, true, true, true])) = true := by
    decide +kernel
  obtain ⟨c, hc, hfacts⟩ := exists_run anyStep (fun _ _ _ => trivial) hrun
  obtain ⟨hstatus, hended⟩ := of_decide_eq_true hfacts
  have hreach : Reaches Sample.deps anyStep c := ⟨Sample.start, hc⟩
  exact ⟨c, hreach, hstatus, hended, no_event_stranded hreach⟩

end WebhookRelay
