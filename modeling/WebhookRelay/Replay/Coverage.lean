import WebhookRelay.Replay.Bench
import WebhookRelay.Runs.Rows

/-!
# Draining the queue by bulk replays

`get_unreplayed_by_filter` selects the oldest entries that match the filter, whether they were
replayed or not. So every bulk replay of a sequence with one filter selects the same entries: the
first one replays those that were never replayed, and the second one meets them again. A sequence
covers the queue if and only if it is at most one call, whose entries were never replayed, or no
entry matches (`covers_iff`).
-/

namespace WebhookRelay

open Data Data.Redis Effect DeadLetterRepository ReplayService

/-! ### Sequences of bulk replays -/

/-- What happens between two bulk replays and how the second one is served: what the workers have
committed, the time that has passed, the state of Redis, and what the call draws. -/
structure Interlude where
  others : List Write
  wait : ℕ
  jobs : UUID → Job
  posts : List HttpRequest
  redis : Server
  ids : List UUID
  pauses : List ℕ

/-- The statement updates an event or an endpoint, or logs an attempt. -/
def Write.Delivers : Write → Prop
  | .updateEvent _ _ => True
  | .updateEndpoint _ _ => True
  | .insertAttempt _ => True
  | _ => False

/-- A bulk replay that was called: where it has started, its answer, and where it has ended. -/
structure Called where
  before : Bench
  answer : Except PyExn BulkReplayResult
  after : Bench

/-- The entries that a call has committed a replay of. -/
def Called.replayed (c : Called) : List UUID :=
  (replaysIn (c.after.world.wal.drop c.before.world.wal.length)).map Prod.fst

namespace Bench

/-- The bench at the next call. -/
def turn (b : Bench) (t : Interlude) : Bench where
  world :=
    { wal := b.world.wal ++ t.others
      now := b.world.now.advance t.wait
      jobs := t.jobs
      posts := t.posts }
  redis := t.redis
  ids := t.ids
  pauses := t.pauses

/-- Bulk replays with one filter, without `force`, one after another. -/
def calls (o : Oracle) (endpointId : Option UUID) (eventType : Option Str) :
    Bench → List Interlude → List Called
  | _, [] => []
  | b, t :: ts =>
    let x := run o (replayBulk endpointId eventType false) (b.turn t)
    ⟨b.turn t, x.1, x.2⟩ :: calls o endpointId eventType x.2 ts

/-- The entries of the filter that were never replayed. -/
def neverReplayed (b : Bench) (endpointId : Option UUID) (eventType : Option Str) :
    List DeadLetterEvent :=
  (b.world.db.deadLetters.rows.filter (Db.deadLetterMatches endpointId eventType)).filter
    fun e => decide (e.replayCount = 0)

/-- The calls cover the queue: they select entries that were never replayed, they replay no entry
twice, and when they are enough for the entries that were never replayed at 1000 a call, they
replay each of these. -/
structure Covers (o : Oracle) (endpointId : Option UUID) (eventType : Option Str) (b : Bench)
    (turns : List Interlude) : Prop where
  selects : ∀ c ∈ calls o endpointId eventType b turns, ∀ rows,
    (run o (getUnreplayedByFilter endpointId eventType) c.before).1 = .ok rows →
      ∀ e ∈ rows, e.replayCount = 0
  once : ((calls o endpointId eventType b turns).flatMap Called.replayed).Nodup
  complete : (b.neverReplayed endpointId eventType).length ≤ 1000 * turns.length →
    ∀ e ∈ b.neverReplayed endpointId eventType,
      ((calls o endpointId eventType b turns).flatMap Called.replayed).count e.id = 1

end Bench

/-! ### The selection -/

/-- The workers leave the queue. -/
theorem deadLetters_delivers {ws : List Write} (h : ∀ w ∈ ws, w.Delivers) (db : Db) :
    (db.applyAll ws).deadLetters = db.deadLetters := by
  induction ws generalizing db with
  | nil => rfl
  | cons w ws ih =>
    have hw := h w List.mem_cons_self
    rw [Db.applyAll_cons, ih fun w' hw' => h w' (List.mem_cons_of_mem _ hw')]
    cases w with
    | updateEvent _ _ => rfl
    | updateEndpoint _ _ => rfl
    | insertAttempt _ => rfl
    | _ => exact hw.elim

/-- The workers leave the endpoints there. -/
theorem endpoints_delivers {ws : List Write} (h : ∀ w ∈ ws, w.Delivers) (db : Db) (id : UUID) :
    ((db.applyAll ws).endpoints.get? id).isSome = (db.endpoints.get? id).isSome := by
  induction ws generalizing db with
  | nil => rfl
  | cons w ws ih =>
    have hw := h w List.mem_cons_self
    rw [Db.applyAll_cons, ih fun w' hw' => h w' (List.mem_cons_of_mem _ hw')]
    cases w with
    | updateEvent _ _ => rfl
    | updateEndpoint id' u => exact Table.isSome_get?_modify _ _ _ _ u.apply_id
    | insertAttempt _ => rfl
    | _ => exact hw.elim

/-- The columns of an entry that its selection depends on. -/
structure DeadLetterEvent.SameSelection (r r' : DeadLetterEvent) : Prop where
  id : r'.id = r.id
  endpoint : r'.endpointId = r.endpointId
  eventType : r'.eventType = r.eventType
  deadLetteredAt : r'.deadLetteredAt = r.deadLetteredAt

/-- Entries whose other columns change are selected as before. -/
theorem unreplayed_map {db db' : Db} {f : DeadLetterEvent → DeadLetterEvent}
    (hrows : db'.deadLetters.rows = db.deadLetters.rows.map f)
    (hf : ∀ r : DeadLetterEvent, r.SameSelection (f r)) (endpointId : Option UUID)
    (eventType : Option Str) :
    db'.unreplayed endpointId eventType = (db.unreplayed endpointId eventType).map f := by
  have hmatches : (Db.deadLetterMatches endpointId eventType) ∘ f =
      Db.deadLetterMatches endpointId eventType := by
    funext r
    change (endpointId.all (fun id => decide ((f r).endpointId = id)) &&
      eventType.all fun s => s.isEmpty || decide ((f r).eventType = s)) = _
    rw [(hf r).endpoint, (hf r).eventType]
    rfl
  have holder : ∀ r ∈ db.deadLetters.rows.filter (Db.deadLetterMatches endpointId eventType),
      ∀ r' ∈ db.deadLetters.rows.filter (Db.deadLetterMatches endpointId eventType),
      r.deadLetteredAt.micros ≤ r'.deadLetteredAt.micros ↔
        (f r).deadLetteredAt.micros ≤ (f r').deadLetteredAt.micros := fun r _ r' _ => by
    rw [(hf r).deadLetteredAt, (hf r').deadLetteredAt]
  have hsorted := List.map_insertionSort
    (r := fun a b : DeadLetterEvent => a.deadLetteredAt.micros ≤ b.deadLetteredAt.micros)
    (s := fun a b : DeadLetterEvent => a.deadLetteredAt.micros ≤ b.deadLetteredAt.micros)
    f _ holder
  unfold Db.unreplayed Db.selectDeadLetters
  rw [hrows, List.filter_map, hmatches, List.map_take, hsorted]

/-- Marks change rows of the queue in place, and leave a count above 0. -/
theorem exists_map_marks (ms : List Mark) (db : Db) :
    ∃ f : DeadLetterEvent → DeadLetterEvent,
      (db.applyAll (ms.flatMap Mark.writes)).deadLetters.rows = db.deadLetters.rows.map f ∧
      (∀ r : DeadLetterEvent, r.SameSelection (f r)) ∧
      (∀ r : DeadLetterEvent, 0 < r.replayCount → 0 < (f r).replayCount) ∧
      ∀ r : DeadLetterEvent, r.id ∈ ms.map (fun m => m.entry.id) → 0 < (f r).replayCount := by
  induction ms generalizing db with
  | nil =>
    exact ⟨id, (List.map_id _).symm, fun r => ⟨rfl, rfl, rfl, rfl⟩, fun _ h => h,
      fun _ h => absurd h List.not_mem_nil⟩
  | cons m ms ih =>
    obtain ⟨g, hrows, hsame, hpositive, hmarked⟩ := ih (db.applyAll m.writes)
    let f (r : DeadLetterEvent) := if r.id = m.entry.id then m.columns.apply r else r
    have hid (r : DeadLetterEvent) : (f r).id = r.id := by
      unfold f
      split_ifs <;> rfl
    have hcount (r : DeadLetterEvent) (h : 0 < r.replayCount ∨ r.id = m.entry.id) :
        0 < (f r).replayCount := by
      unfold f
      split_ifs with he
      · rw [m.replayCount_apply]
        exact Nat.succ_pos _
      · exact h.resolve_right he
    refine ⟨g ∘ f, ?_, fun r => ?_, fun r hr => hpositive _ (hcount r (.inl hr)), fun r hr => ?_⟩
    · rw [List.flatMap_cons, Db.applyAll_append, hrows, ← List.map_map]
      rfl
    · have hg := hsame (f r)
      have hf : r.SameSelection (f r) := by
        unfold f
        split_ifs
        · exact ⟨rfl, rfl, rfl, rfl⟩
        · exact ⟨rfl, rfl, rfl, rfl⟩
      exact ⟨hg.id.trans hf.id, hg.endpoint.trans hf.endpoint, hg.eventType.trans hf.eventType,
        hg.deadLetteredAt.trans hf.deadLetteredAt⟩
    · rcases List.mem_cons.mp hr with he | hr
      · exact hpositive _ (hcount r (.inr he))
      · exact hmarked _ ((hid r).symm ▸ hr)

/-- Nothing is selected if and only if nothing matches. -/
theorem unreplayed_eq_nil_iff {db : Db} {endpointId : Option UUID} {eventType : Option Str} :
    db.unreplayed endpointId eventType = [] ↔
      ∀ r ∈ db.deadLetters.rows, Db.deadLetterMatches endpointId eventType r = false := by
  unfold Db.unreplayed Db.selectDeadLetters
  rw [List.take_eq_nil_iff, ← List.length_eq_zero_iff (l := List.insertionSort _ _),
    List.length_insertionSort, List.length_eq_zero_iff, List.filter_eq_nil_iff]
  simp

/-- The selection depends on the queue alone. -/
theorem unreplayed_congr {db db' : Db} (h : db'.deadLetters = db.deadLetters)
    (endpointId : Option UUID) (eventType : Option Str) :
    db'.unreplayed endpointId eventType = db.unreplayed endpointId eventType := by
  unfold Db.unreplayed Db.selectDeadLetters
  rw [h]

/-- A filter that PostgreSQL does not take matches none of the values it has. -/
theorem unreplayed_of_nul {db : Db} (h : db.Stocked) {eventType : Option Str}
    (hnul : eventType.any Str.hasNul = true) (endpointId : Option UUID) :
    db.unreplayed endpointId eventType = [] := by
  refine unreplayed_eq_nil_iff.mpr fun r hr => ?_
  cases eventType with
  | none => cases hnul
  | some s =>
    have hs : s.hasNul = true := hnul
    have hempty : s.isEmpty = false := by
      cases s with
      | nil => cases hs
      | cons _ _ => rfl
    have hne : r.eventType ≠ s := by
      rintro rfl
      have hstorable := h.storable r hr
      unfold DeadLetterEvent.storable fitsVarchar at hstorable
      rw [hs] at hstorable
      simp at hstorable
    change (endpointId.all _ && (s.isEmpty || decide (r.eventType = s))) = false
    rw [hempty, decide_eq_false hne]
    exact Bool.and_false _

/-- What the workers do leaves the tables as bulk replays need them. -/
theorem Db.Stocked.of_delivers {db : Db} (h : db.Stocked) {ws : List Write}
    (hws : ∀ w ∈ ws, w.Delivers) : (db.applyAll ws).Stocked where
  storable r hr := h.storable r (deadLetters_delivers hws db ▸ hr)
  endpoint r hr := by
    rw [endpoints_delivers hws]
    exact h.endpoint r (deadLetters_delivers hws db ▸ hr)

/-- The selected entries are those that were never replayed, if there are at most 1000 of these
and no other is selected. -/
theorem unreplayed_perm {b : Bench} {endpointId : Option UUID} {eventType : Option Str}
    (hnever : ∀ e ∈ b.world.db.unreplayed endpointId eventType, e.replayCount = 0)
    (hfew : (b.neverReplayed endpointId eventType).length ≤ 1000) :
    (b.world.db.unreplayed endpointId eventType).Perm (b.neverReplayed endpointId eventType) := by
  let matching := b.world.db.deadLetters.rows.filter (Db.deadLetterMatches endpointId eventType)
  have hsorted := List.perm_insertionSort
    (fun a b : DeadLetterEvent => a.deadLetteredAt.micros ≤ b.deadLetteredAt.micros) matching
  have hlength : (b.world.db.unreplayed endpointId eventType).length =
      min 1000 matching.length := by
    rw [← hsorted.length_eq]
    exact List.length_take
  have hsubset : b.world.db.unreplayed endpointId eventType ⊆
      b.neverReplayed endpointId eventType := fun e he =>
    List.mem_filter.mpr ⟨hsorted.mem_iff.mp (List.mem_of_mem_take he),
      decide_eq_true (hnever e he)⟩
  have hnodup : (b.world.db.unreplayed endpointId eventType).Nodup :=
    (nodup_selectDeadLetters _ _ _ _).of_map _
  refine (List.subperm_of_subset hnodup hsubset).perm_of_length_le ?_
  rw [hlength]
  exact le_min hfew (List.length_filter_le _ _)

/-! ### Single calls -/

namespace Bench

section single

variable {o : Oracle} {b : Bench} {endpointId : Option UUID} {eventType : Option Str}

/-- A filter that PostgreSQL does not take is refused. -/
theorem drive_getUnreplayedByFilter_of_nul (hnul : eventType.any Str.hasNul = true) :
    (getUnreplayedByFilter endpointId eventType).drive (handler o) (b, .fresh) =
      (.error .dataError, b.tick,
        ((b.world.db.unreplayed endpointId eventType).map Session.fresh.object).foldl Session.load
          .fresh) := by
  have hviolation (db : Db) :
      (Op.selectDeadLetters endpointId eventType 1000).violation db = some .dataError :=
    if_pos hnul
  exact drive_await rfl (flushed_of_some (hviolation _) _)

/-- The query answers with the oldest entries of the filter. -/
theorem eq_unreplayed_of_run {rows : List DeadLetterEvent}
    (h : (run o (getUnreplayedByFilter endpointId eventType) b).1 = .ok rows) :
    rows = b.world.db.unreplayed endpointId eventType := by
  unfold run at h
  cases hnul : eventType.any Str.hasNul with
  | true =>
    rw [drive_getUnreplayedByFilter_of_nul hnul] at h
    cases h
  | false =>
    rw [drive_getUnreplayedByFilter hnul] at h
    exact (Except.ok.inj h).symm

/-- The query answers when PostgreSQL takes the filter. -/
theorem run_getUnreplayedByFilter (hnul : eventType.any Str.hasNul = false) :
    (run o (getUnreplayedByFilter endpointId eventType) b).1 =
      .ok (b.world.db.unreplayed endpointId eventType) := by
  unfold run
  rw [drive_getUnreplayedByFilter hnul]

/-- A call that selects nothing commits nothing. -/
theorem wal_replayBulk_of_none (h : b.world.db.unreplayed endpointId eventType = []) :
    (run o (replayBulk endpointId eventType false) b).2.world.wal = b.world.wal := by
  unfold run replayBulk
  cases hnul : eventType.any Str.hasNul with
  | true =>
    rw [Prog.drive_bind_error _ (drive_getUnreplayedByFilter_of_nul hnul)]
    rfl
  | false =>
    rw [Prog.drive_bind_ok _ (drive_getUnreplayedByFilter hnul), h]
    exact List.append_nil _

/-- What a call has replayed, from what it has committed. -/
theorem replayed_of_wal {c : Called} (ms : List Mark)
    (h : c.after.world.wal = c.before.world.wal ++ ms.flatMap Mark.writes) :
    c.replayed = ms.map fun m => m.entry.id := by
  unfold Called.replayed
  rw [h, List.drop_left, replaysIn_marks, List.map_map]
  rfl

/-- A call that selects entries that were never replayed replays all of them. -/
theorem run_replayBulk_of_never (hstocked : b.world.db.Stocked)
    (hsupplied : b.Supplied (b.world.db.unreplayed endpointId eventType).length)
    (hnul : eventType.any Str.hasNul = false)
    (hnever : ∀ e ∈ b.world.db.unreplayed endpointId eventType, e.replayCount = 0) :
    ∃ ms : List Mark, ms.map Mark.entry = b.world.db.unreplayed endpointId eventType ∧
      (run o (replayBulk endpointId eventType false) b).2.world.wal =
        b.world.wal ++ ms.flatMap Mark.writes := by
  have hdecides : b.Decides false (fun _ => true) (b.world.db.unreplayed endpointId eventType) :=
    fun e he t _ => if_neg fun hcount => absurd hcount.1 (by rw [hnever e he]; exact lt_irrefl 0)
  obtain ⟨ms, b', hentries, hmarks, hrun⟩ :=
    run_replayBulk (o := o) hstocked hsupplied hnul hdecides
  refine ⟨ms, hentries.trans (List.filter_true _), ?_⟩
  rw [hrun]
  exact hmarks.wal

end single

/-! ### Sequences of calls -/

variable {o : Oracle} {endpointId : Option UUID} {eventType : Option Str} {b : Bench}
  {turns : List Interlude}

/-- The selection of the first call. -/
theorem unreplayed_turn (b : Bench) (endpointId : Option UUID) (eventType : Option Str)
    {t : Interlude} (h : ∀ w ∈ t.others, w.Delivers) :
    (b.turn t).world.db.unreplayed endpointId eventType =
      b.world.db.unreplayed endpointId eventType := by
  refine unreplayed_congr ?_ _ _
  change (Db.empty.applyAll (b.world.wal ++ t.others)).deadLetters = _
  rw [Db.applyAll_append, deadLetters_delivers h]
  rfl

/-- When nothing matches, no call selects anything, and none replays anything. -/
theorem calls_of_none (hothers : ∀ t ∈ turns, ∀ w ∈ t.others, w.Delivers)
    (h : b.world.db.unreplayed endpointId eventType = []) :
    ∀ c ∈ calls o endpointId eventType b turns,
      c.before.world.db.unreplayed endpointId eventType = [] ∧ c.replayed = [] := by
  induction turns generalizing b with
  | nil => exact fun c hc => absurd hc List.not_mem_nil
  | cons t ts ih =>
    have hturn : (b.turn t).world.db.unreplayed endpointId eventType = [] := by
      rw [unreplayed_turn _ _ _ (hothers t List.mem_cons_self), h]
    have hwal := wal_replayBulk_of_none (o := o) hturn
    intro c hc
    rcases List.mem_cons.mp hc with rfl | hc
    · refine ⟨hturn, replayed_of_wal [] ?_⟩
      exact hwal.trans (List.append_nil _).symm
    · refine ih (fun t' ht' => hothers t' (List.mem_cons_of_mem _ ht')) ?_ c hc
      rw [World.db_of_wal (hwal.trans (List.append_nil _).symm)]
      exact hturn

/-- When nothing matches, there is nothing to cover. -/
theorem covers_of_none (hothers : ∀ t ∈ turns, ∀ w ∈ t.others, w.Delivers)
    (h : b.world.db.unreplayed endpointId eventType = []) :
    b.Covers o endpointId eventType turns := by
  have hcalls := calls_of_none (o := o) hothers h
  have hreplayed : (calls o endpointId eventType b turns).flatMap Called.replayed = [] :=
    List.flatMap_eq_nil_iff.mpr fun c hc => (hcalls c hc).2
  have hnever : b.neverReplayed endpointId eventType = [] := by
    refine List.filter_eq_nil_iff.mpr fun r hr => ?_
    obtain ⟨hrow, hmatches⟩ := List.mem_filter.mp hr
    rw [unreplayed_eq_nil_iff.mp h r hrow] at hmatches
    cases hmatches
  refine ⟨fun c hc rows hrows e he => ?_, ?_, fun _ e he => ?_⟩
  · rw [eq_unreplayed_of_run hrows, (hcalls c hc).1] at he
    exact absurd he List.not_mem_nil
  · rw [hreplayed]
    exact List.nodup_nil
  · rw [hnever] at he
    exact absurd he List.not_mem_nil

section first

variable {t : Interlude} (hstocked : b.world.db.Stocked) (hothers : ∀ w ∈ t.others, w.Delivers)
  (hsupplied : (b.turn t).Supplied (b.world.db.unreplayed endpointId eventType).length)
  (hnul : eventType.any Str.hasNul = false)
  (hnever : ∀ e ∈ b.world.db.unreplayed endpointId eventType, e.replayCount = 0)

include hstocked hothers hsupplied hnul hnever

/-- The first call marks what it selects. -/
theorem run_first : ∃ ms : List Mark,
    ms.map Mark.entry = b.world.db.unreplayed endpointId eventType ∧
      (run o (replayBulk endpointId eventType false) (b.turn t)).2.world.wal =
        (b.turn t).world.wal ++ ms.flatMap Mark.writes := by
  have hturn := unreplayed_turn b endpointId eventType hothers
  have hstocked' : (b.turn t).world.db.Stocked := by
    rw [@World.db_of_wal b.world _ t.others rfl]
    exact hstocked.of_delivers hothers
  rw [← hturn] at hsupplied hnever ⊢
  exact run_replayBulk_of_never hstocked' hsupplied hnul hnever

/-- A first call that selects entries that were never replayed covers the queue. -/
theorem covers_of_first : b.Covers o endpointId eventType [t] := by
  obtain ⟨ms, hentries, hwal⟩ := run_first (o := o) hstocked hothers hsupplied hnul hnever
  have hturn := unreplayed_turn b endpointId eventType hothers
  let x := run o (replayBulk endpointId eventType false) (b.turn t)
  have hcalls : calls o endpointId eventType b [t] = [⟨b.turn t, x.1, x.2⟩] := rfl
  have hreplayed : (calls o endpointId eventType b [t]).flatMap Called.replayed =
      (b.world.db.unreplayed endpointId eventType).map DeadLetterEvent.id := by
    rw [hcalls, List.flatMap_singleton, replayed_of_wal _ hwal, ← hentries, List.map_map]
    rfl
  have hnodup := nodup_selectDeadLetters b.world.db endpointId eventType 1000
  refine ⟨fun c' hc' rows hrows e he => ?_, ?_, fun hfew e he => ?_⟩
  · rw [hcalls, List.mem_singleton] at hc'
    subst hc'
    rw [eq_unreplayed_of_run hrows, hturn] at he
    exact hnever e he
  · rw [hreplayed]
    exact hnodup
  · rw [hreplayed]
    refine List.count_eq_one_of_mem hnodup (List.mem_map_of_mem ?_)
    exact (unreplayed_perm hnever hfew).mem_iff.mpr he

/-- The second call meets the entries of the first one again. -/
theorem unreplayed_second {t' : Interlude} (hothers' : ∀ w ∈ t'.others, w.Delivers) :
    ∃ f : DeadLetterEvent → DeadLetterEvent,
      (((run o (replayBulk endpointId eventType false) (b.turn t)).2.turn t').world.db.unreplayed
        endpointId eventType = (b.world.db.unreplayed endpointId eventType).map f) ∧
      ∀ e ∈ b.world.db.unreplayed endpointId eventType, 0 < (f e).replayCount := by
  obtain ⟨ms, hentries, hwal⟩ := run_first (o := o) hstocked hothers hsupplied hnul hnever
  obtain ⟨f, hrows, hsame, -, hmarked⟩ := exists_map_marks ms (b.turn t).world.db
  refine ⟨f, ?_, fun e he => hmarked e ?_⟩
  · rw [unreplayed_turn _ _ _ hothers', World.db_of_wal hwal, unreplayed_map hrows hsame,
      unreplayed_turn _ _ _ hothers]
  · rw [← hentries] at he
    obtain ⟨m, hm, rfl⟩ := List.mem_map.mp he
    exact List.mem_map_of_mem hm

end first

/-- **Bulk replays cover the queue** if and only if there is nothing to replay, or there is a single
call, and the oldest 1000 entries of the filter were never replayed. -/
theorem covers_iff (hstocked : b.world.db.Stocked)
    (hothers : ∀ t ∈ turns, ∀ w ∈ t.others, w.Delivers)
    (hsupplied : ∀ c ∈ calls o endpointId eventType b turns,
      c.before.Supplied (c.before.world.db.unreplayed endpointId eventType).length) :
    b.Covers o endpointId eventType turns ↔ turns = [] ∨
      (∀ r ∈ b.world.db.deadLetters.rows,
        Db.deadLetterMatches endpointId eventType r = false) ∨
      turns.length = 1 ∧
        ∀ r ∈ b.world.db.selectDeadLetters endpointId eventType 1000, r.replayCount = 0 := by
  by_cases hnone : b.world.db.unreplayed endpointId eventType = []
  · exact iff_of_true (covers_of_none hothers hnone) (.inr (.inl (unreplayed_eq_nil_iff.mp hnone)))
  have hnul : eventType.any Str.hasNul = false := by
    by_contra h
    exact hnone (unreplayed_of_nul hstocked (Bool.not_eq_false _ ▸ h) endpointId)
  cases turns with
  | nil =>
    refine iff_of_true ⟨fun c hc => absurd hc List.not_mem_nil, List.nodup_nil, fun hfew e he => ?_⟩
      (.inl rfl)
    rw [List.length_eq_zero_iff.mp (Nat.le_zero.mp hfew)] at he
    exact absurd he List.not_mem_nil
  | cons t ts =>
    have ht := hothers t List.mem_cons_self
    have hturn := unreplayed_turn b endpointId eventType ht
    have hfirst := hsupplied _ List.mem_cons_self
    dsimp only at hfirst
    rw [hturn] at hfirst
    constructor
    · intro h
      have hnever : ∀ e ∈ b.world.db.unreplayed endpointId eventType, e.replayCount = 0 :=
        hturn ▸ h.selects _ List.mem_cons_self _ (run_getUnreplayedByFilter hnul)
      refine .inr (.inr ⟨?_, hnever⟩)
      cases ts with
      | nil => rfl
      | cons t' ts =>
        -- a second call selects what the first one has replayed
        obtain ⟨f, hsecond, hcount⟩ := unreplayed_second (o := o) hstocked ht hfirst hnul hnever
          (hothers t' (List.mem_cons_of_mem _ List.mem_cons_self))
        obtain ⟨e, he⟩ := List.exists_mem_of_ne_nil _ hnone
        have hagain := h.selects _ (List.mem_cons_of_mem _ List.mem_cons_self) _
          (run_getUnreplayedByFilter hnul) (f e) (hsecond ▸ List.mem_map_of_mem he)
        exact absurd hagain (Nat.ne_of_gt (hcount e he))
    · rintro (h | h | ⟨hone, hnever⟩)
      · cases h
      · exact absurd (unreplayed_eq_nil_iff.mpr h) hnone
      · obtain rfl : ts = [] := List.length_eq_zero_iff.mp (Nat.succ_injective hone)
        exact covers_of_first hstocked ht hfirst hnul hnever

end Bench

/-! ### Two calls -/

/-- A call after some hours, with an identifier. -/
def Sample.interlude (hours : ℕ) (id : UUID) : Interlude where
  others := []
  wait := 3600000000 * hours
  jobs := fun _ => ⟨none, none⟩
  posts := []
  redis := ⟨[], 0⟩
  ids := [id]
  pauses := []

namespace Bench

/-- Two entries that were never replayed, and between them one that was, of another event type. One
call with a filter for the first type covers the queue of that filter, one without a filter does
not cover the queue. -/
theorem covers_iff_filtered :
    let entries := [Sample.letter 3 0 none,
      { Sample.letter 4 1 (some Sample.start) with eventType := Str.lit "order.failed" },
      Sample.letter 7 0 none]
    let turn := { Sample.interlude 0 (Sample.id 5) with
      ids := [Sample.id 5, Sample.id 6, Sample.id 8] }
    (Sample.bench entries []).Covers (Sample.oracle 9 .cancelled) none
        (some (Str.lit "order.paid")) [turn] ∧
      ¬ (Sample.bench entries []).Covers (Sample.oracle 9 .cancelled) none none [turn] := by
  intro entries turn
  have hstocked : (Sample.bench entries []).world.db.Stocked :=
    ⟨by decide +kernel, by decide +kernel⟩
  have hothers : ∀ t ∈ [turn], ∀ w ∈ t.others, w.Delivers := by
    intro t ht w hw
    rw [List.mem_singleton.mp ht] at hw
    exact absurd hw List.not_mem_nil
  have hsupplied : ((Sample.bench entries []).turn turn).Supplied 3 :=
    ⟨by decide +kernel, by decide +kernel, by decide +kernel, by decide +kernel⟩
  refine ⟨(covers_iff hstocked hothers fun c hc => ?_).mpr (.inr (.inr ⟨rfl, by decide +kernel⟩)),
    mt (covers_iff hstocked hothers fun c hc => ?_).mp ?_⟩
  · rw [List.mem_singleton.mp hc]
    exact ⟨hsupplied.nodup, hsupplied.unused, hsupplied.jobless, by decide +kernel⟩
  · rw [List.mem_singleton.mp hc]
    exact ⟨hsupplied.nodup, hsupplied.unused, hsupplied.jobless, by decide +kernel⟩
  · rintro (hnil | hnone | ⟨-, hnever⟩)
    · cases hnil
    · exact absurd hnone (by decide +kernel)
    · exact absurd hnever (by decide +kernel)

/-- Two calls at a distance of two hours replay one entry twice. -/
theorem not_covers_two : ¬ (Sample.bench [Sample.letter 3 0 none] []).Covers
    (Sample.oracle 9 .cancelled) none none
    [Sample.interlude 0 (Sample.id 5), Sample.interlude 2 (Sample.id 6)] := by
  intro h
  have htwice : (calls (Sample.oracle 9 .cancelled) none none
      (Sample.bench [Sample.letter 3 0 none] [])
      [Sample.interlude 0 (Sample.id 5), Sample.interlude 2 (Sample.id 6)]).flatMap
        Called.replayed = [Sample.id 3, Sample.id 3] := by decide +kernel
  have honce := h.once
  rw [htwice] at honce
  exact absurd honce (by decide)

end Bench

end WebhookRelay
