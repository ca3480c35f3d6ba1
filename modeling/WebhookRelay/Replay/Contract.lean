import WebhookRelay.Runs.Coroutines

/-!
# The contract of a replay

A replay without `force` reads entries, each at most once, and for every entry that its check
clears it inserts an event and marks the entry: a `Mark`. Its only commit is the transaction of
the marks it has made. `Replaying` is how far a request has come, `replayContract` what it may do
there; a single replay and the loop of a bulk replay obey it from the same phase.

The phase `lost` stands for answers that no call gets: an entry with another id than the one asked
for, one entry twice in a selection, or an exception that only the replay itself raises.
-/

namespace WebhookRelay

open Data Effect DeadLetterRepository ReplayService

/-- An entry that has been marked: as it was read, with the event created from it and the time of
the mark. -/
structure Mark where
  entry : DeadLetterEvent
  event : WebhookEvent
  time : Datetime

namespace Mark

/-- The columns a mark writes. -/
def columns (m : Mark) : DeadLetterColumns := .diff m.entry (replayed m.entry m.time)

/-- The statements of a mark. -/
def writes (m : Mark) : List Write :=
  [.insertEvent m.event, .updateDeadLetter m.entry.id m.columns]

/-- The counter is among the columns. -/
theorem replayCount_columns (m : Mark) : m.columns.replayCount = some (m.entry.replayCount + 1) :=
  if_neg (by simp [replayed])

/-- The count of a row that is marked is the one that was read, and one. -/
theorem replayCount_apply (m : Mark) (row : DeadLetterEvent) :
    (m.columns.apply row).replayCount = m.entry.replayCount + 1 := by
  change m.columns.replayCount.getD row.replayCount = _
  rw [m.replayCount_columns, Option.getD_some]

/-- The statements are those of the two flushes. -/
theorem writes_flushDeadLetter (entry : DeadLetterEvent) (time : Datetime) :
    (Op.flushDeadLetter entry (replayed entry time)).writes =
      [.updateDeadLetter entry.id (.diff entry (replayed entry time))] := by
  refine if_neg fun h => ?_
  have hcount := congrArg DeadLetterColumns.replayCount h
  have hdiff : (DeadLetterColumns.diff entry (replayed entry time)).replayCount =
      some (entry.replayCount + 1) := if_neg (by simp [replayed])
  rw [hdiff] at hcount
  cases hcount

end Mark

/-- How far a replay has come. -/
inductive Replaying where
  /-- These entries have been marked; the next one is not read yet. -/
  | between (marks : List Mark)
  /-- An entry has been read that was replayed before; the check has not read the clock yet. -/
  | checking (marks : List Mark) (entry : DeadLetterEvent) (replayedAt : Datetime)
  /-- The check has let the entry pass. -/
  | cleared (marks : List Mark) (entry : DeadLetterEvent)
  /-- The event of the entry is inserted. -/
  | created (marks : List Mark) (entry : DeadLetterEvent) (event : WebhookEvent)
  | committed
  | failed
  | lost

namespace Replaying

/-- The phase after an entry has been read. -/
def read (marks : List Mark) (id : UUID) (entry : DeadLetterEvent) : Replaying :=
  if entry.id = id then
    match entry.replayedAt with
    | none => .cleared marks entry
    | some replayedAt =>
      if 0 < entry.replayCount then .checking marks entry replayedAt else .cleared marks entry
  else .lost

/-- The phase after the check has read the clock. -/
def checked (marks : List Mark) (entry : DeadLetterEvent) (replayedAt now : Datetime) :
    Replaying :=
  match now.addSeconds (.finite (-3600)) with
  | .ok hourAgo => if hourAgo < replayedAt then .between marks else .cleared marks entry
  | .error _ => .failed

/-- The phase after an exception. -/
def raised (x : PyExn) : Replaying := if countedError x then .lost else .failed

/-- The calls of a phase. -/
def allows : Replaying → Op → Prop
  | .between marks, .selectDeadLetters _ _ _ => marks = []
  | .between marks, .getDeadLetter id => ∀ m ∈ marks, m.entry.id ≠ id
  | .between _, .resetCircuit _ => True
  | .between _, .enqueueJob _ => True
  | .between _, .commit => True
  | .checking _ _ _, .now => True
  | .cleared _ _, .uuid4 => True
  | .cleared _ _, .now => True
  | .cleared _ entry, .insertEvent r => ∃ id t, r = replayEvent entry id t
  | .created _ _ _, .now => True
  | .created _ entry _, .flushDeadLetter old new => old = entry ∧ ∃ t, new = replayed entry t
  | .committed, .enqueueJob _ => True
  | .lost, _ => True
  | _, _ => False

/-- The phase after a call. -/
def next : Replaying → (e : Op) → Except PyExn e.Resp → Replaying
  | .lost, _, _ => .lost
  | _, _, .error x => raised x
  | .between marks, .selectDeadLetters _ _ _, .ok rows =>
    if (rows.map DeadLetterEvent.id).Nodup then .between marks else .lost
  | .between marks, .getDeadLetter id, .ok (some entry) => read marks id entry
  | .between _, .commit, .ok _ => .committed
  | .checking marks entry replayedAt, .now, .ok now => checked marks entry replayedAt now
  | .cleared marks entry, .insertEvent r, .ok _ => .created marks entry r
  | .created marks entry event, .flushDeadLetter _ new, .ok _ =>
    match new.replayedAt with
    | some time => .between (marks ++ [⟨entry, event, time⟩])
    | none => .lost
  | p, _, .ok _ => p

/-- The statements in the session. -/
def pending : Replaying → List Write
  | .between marks => marks.flatMap Mark.writes
  | .checking marks _ _ => marks.flatMap Mark.writes
  | .cleared marks _ => marks.flatMap Mark.writes
  | .created marks _ event => marks.flatMap Mark.writes ++ [.insertEvent event]
  | _ => []

/-- The replay goes on. -/
def live : Replaying → Prop
  | .failed => False
  | .lost => False
  | _ => True

end Replaying

/-- The contract of a replay. -/
def replayContract : Contract relay PyExn Replaying where
  allows := Replaying.allows
  next := Replaying.next

/-- The program meets the contract from a phase. -/
abbrev Replays {α : Type} (Q : Except PyExn α → Replaying → Prop) (p : Replaying) (q : Relay α) :
    Prop := q.Obeys replayContract Q p

namespace Replaying

theorem next_error {p : Replaying} (hp : p ≠ .lost) (e : Op) (x : PyExn) :
    p.next e (.error x) = raised x := by
  cases p with
  | lost => exact absurd rfl hp
  | _ => rfl

/-- What reading an entry leads to. -/
theorem read_cases (marks : List Mark) (id : UUID) (entry : DeadLetterEvent) :
    (entry.id ≠ id ∧ read marks id entry = .lost) ∨
      entry.id = id ∧
        ((∃ replayedAt, entry.replayedAt = some replayedAt ∧ 0 < entry.replayCount ∧
            read marks id entry = .checking marks entry replayedAt) ∨
          (entry.replayCount = 0 ∨ entry.replayedAt = none) ∧
            read marks id entry = .cleared marks entry) := by
  unfold read
  by_cases hid : entry.id = id
  · rw [if_pos hid]
    refine Or.inr ⟨hid, ?_⟩
    cases entry.replayedAt with
    | none => exact Or.inr ⟨Or.inr rfl, rfl⟩
    | some t =>
      dsimp only
      by_cases hcount : 0 < entry.replayCount
      · rw [if_pos hcount]
        exact Or.inl ⟨t, rfl, hcount, rfl⟩
      · rw [if_neg hcount]
        exact Or.inr ⟨Or.inl (by omega), rfl⟩
  · rw [if_neg hid]
    exact Or.inl ⟨hid, rfl⟩

/-- What the check leads to: it only lets an entry pass an hour after its last replay. -/
theorem checked_cases (marks : List Mark) (entry : DeadLetterEvent) (replayedAt now : Datetime) :
    checked marks entry replayedAt now = .failed ∨
      checked marks entry replayedAt now = .between marks ∨
      replayedAt.micros + 3600000000 ≤ now.micros ∧
        checked marks entry replayedAt now = .cleared marks entry := by
  unfold checked
  cases h : now.addSeconds (.finite (-3600)) with
  | error x => exact Or.inl rfl
  | ok hourAgo =>
    refine Or.inr ?_
    dsimp only
    by_cases hrecent : hourAgo < replayedAt
    · rw [if_pos hrecent]
      exact Or.inl rfl
    · rw [if_neg hrecent]
      refine Or.inr ⟨?_, rfl⟩
      have hmicros : hourAgo.micros = now.micros + -3600 * 1000000 :=
        Datetime.micros_addSeconds_intCast (by exact_mod_cast h)
      rw [Datetime.lt_def] at hrecent
      omega

/-- The statements in the session while a replay is at its entries. -/
theorem pending_read (marks : List Mark) (id : UUID) (entry : DeadLetterEvent)
    (h : (read marks id entry).live) :
    (read marks id entry).pending = marks.flatMap Mark.writes := by
  rcases read_cases marks id entry with ⟨-, hr⟩ | ⟨-, ⟨t, -, -, hr⟩ | ⟨-, hr⟩⟩
  · rw [hr] at h
    exact h.elim
  · rw [hr]
    rfl
  · rw [hr]
    rfl

theorem pending_checked (marks : List Mark) (entry : DeadLetterEvent) (replayedAt now : Datetime)
    (h : (checked marks entry replayedAt now).live) :
    (checked marks entry replayedAt now).pending = marks.flatMap Mark.writes := by
  rcases checked_cases marks entry replayedAt now with hc | hc | ⟨-, hc⟩
  · rw [hc] at h
    exact h.elim
  · rw [hc]
    rfl
  · rw [hc]
    rfl

/-- The statements in the session after a call that is answered. -/
theorem pending_next {p : Replaying} {e : Op} {v : e.Resp} (hallow : p.allows e)
    (hlive : live (p.next e (.ok v))) :
    (p.next e (.ok v)).pending = if e.isCommit then [] else p.pending ++ e.writes := by
  have hquiet (marks : List Mark) :
      marks.flatMap Mark.writes = marks.flatMap Mark.writes ++ [] := (List.append_nil _).symm
  cases p with
  | lost => exact hlive.elim
  | failed => exact hallow.elim
  | committed =>
    cases e with
    | enqueueJob id => rfl
    | _ => exact hallow.elim
  | between marks =>
    cases e with
    | selectDeadLetters _ _ _ =>
      by_cases hnodup : (v.map DeadLetterEvent.id).Nodup
      · have hnext : (between marks).next (.selectDeadLetters _ _ _) (.ok v) = .between marks :=
          if_pos hnodup
        rw [hnext]
        exact hquiet marks
      · have hnext : (between marks).next (.selectDeadLetters _ _ _) (.ok v) = .lost :=
          if_neg hnodup
        rw [hnext] at hlive
        exact hlive.elim
    | getDeadLetter id =>
      cases v with
      | none => exact hquiet marks
      | some entry => exact (pending_read marks id entry hlive).trans (hquiet marks)
    | resetCircuit id => exact hquiet marks
    | enqueueJob id => exact hquiet marks
    | commit => rfl
    | _ => exact hallow.elim
  | checking marks entry replayedAt =>
    cases e with
    | now => exact (pending_checked marks entry replayedAt v hlive).trans (hquiet marks)
    | _ => exact hallow.elim
  | cleared marks entry =>
    cases e with
    | uuid4 => exact hquiet marks
    | now => exact hquiet marks
    | insertEvent r => rfl
    | _ => exact hallow.elim
  | created marks entry event =>
    cases e with
    | now => exact (List.append_nil _).symm
    | flushDeadLetter old new =>
      obtain ⟨rfl, t, rfl⟩ : old = entry ∧ ∃ t, new = replayed entry t := hallow
      change (marks ++ [(⟨old, event, t⟩ : Mark)]).flatMap Mark.writes =
        (marks.flatMap Mark.writes ++ [.insertEvent event]) ++ _
      rw [Mark.writes_flushDeadLetter, List.flatMap_append, List.append_assoc]
      rfl
    | _ => exact hallow.elim

/-- The phases know the session. -/
theorem tracks : Tracks replayContract live pending (.between []) where
  start := rfl
  error p e x _ := by
    intro hlive
    by_cases hp : p = .lost
    · rw [hp] at hlive
      exact hlive
    · change live (p.next e (.error x)) at hlive
      rw [next_error hp, raised] at hlive
      split_ifs at hlive <;> exact hlive
  ok p e v hallow hlive := by
    refine And.intro ?_ (pending_next hallow hlive)
    cases p with
    | lost => exact hlive
    | failed => exact hallow.elim
    | _ => trivial

end Replaying

/-! ### The programs -/

section programs

variable {α : Type} {marks : List Mark}

/-- Anything is allowed once the replay is lost. -/
theorem replays_lost {Q : Except PyExn α → Replaying → Prop} (hQ : ∀ r, Q r .lost)
    (q : Relay α) : Replays Q .lost q := by
  induction q with
  | done a => exact hQ _
  | raised x => exact hQ _
  | call e k ih => exact ⟨trivial, fun r => ih r⟩

/-- How the replay of one entry leaves the request: lost, at the next entry with or without a
mark more, failed, or, with a session of its own, committed. -/
def Replayed (id : UUID) (own : Bool) (marks : List Mark) (r : Except PyExn ReplayResult)
    (p : Replaying) : Prop :=
  p = .lost ∨ match r with
    | .ok _ => if own then p = .committed
      else ∃ m : Mark, m.entry.id = id ∧ p = .between (marks ++ [m])
    | .error x => p = if countedError x then .between marks else .failed

/-- An exception of a call leaves the request lost or failed. -/
theorem replayed_error {id : UUID} {own : Bool} (p : Replaying) (e : Op) (x : PyExn) :
    Replayed id own marks (.error x) (replayContract.next p e (.error x)) := by
  change Replayed id own marks (.error x) (p.next e (.error x))
  by_cases hp : p = .lost
  · exact Or.inl (congrArg (fun p => Replaying.next p e (.error x)) hp)
  rw [Replaying.next_error hp, Replaying.raised]
  by_cases hx : countedError x = true
  · exact Or.inl (if_pos hx)
  · refine Or.inr ?_
    dsimp only
    rw [if_neg hx, if_neg hx]

/-- From the event to the end: an entry that the check has let pass is marked. -/
theorem replays_cleared {entry : DeadLetterEvent} (own : Bool) :
    Replays (Replayed entry.id own marks) (.cleared marks entry) (do
      let newEvent ← EventRepository.create (replayEvent entry)
      let entry' ← markReplayed entry
      resetCircuit entry'.endpointId
      commitOwn own
      let _ ← enqueueJob newEvent.id
      pure ⟨entry.id, newEvent.id, true⟩) := by
  unfold EventRepository.create markReplayed
  simp only [bind_assoc]
  refine (Prog.obeys_perform_bind (I := relay) Op.uuid4 _).mpr ⟨trivial, fun id => ?_,
    fun x => replayed_error _ _ x⟩
  refine (Prog.obeys_perform_bind (I := relay) Op.now _).mpr ⟨trivial, fun t => ?_,
    fun x => replayed_error _ _ x⟩
  refine (Prog.obeys_perform_bind (I := relay) (Op.insertEvent _) _).mpr ⟨⟨id, t, rfl⟩,
    fun _ => ?_, fun x => replayed_error _ _ x⟩
  refine (Prog.obeys_perform_bind (I := relay) Op.now _).mpr ⟨trivial, fun t' => ?_,
    fun x => replayed_error _ _ x⟩
  refine (Prog.obeys_perform_bind (I := relay) (Op.flushDeadLetter _ _) _).mpr
    ⟨⟨rfl, t', rfl⟩, fun _ => ?_, fun x => replayed_error _ _ x⟩
  refine (Prog.obeys_perform_bind (I := relay) (Op.resetCircuit _) _).mpr ⟨trivial, fun _ => ?_,
    fun x => replayed_error _ _ x⟩
  cases own with
  | false =>
    refine (Prog.obeys_perform_bind (I := relay) (Op.enqueueJob _) _).mpr ⟨trivial, fun _ => ?_,
      fun x => replayed_error _ _ x⟩
    exact Or.inr ⟨⟨entry, _, t'⟩, rfl, rfl⟩
  | true =>
    refine (Prog.obeys_perform_bind (I := relay) Op.commit _).mpr ⟨trivial, fun _ => ?_,
      fun x => replayed_error _ _ x⟩
    refine (Prog.obeys_perform_bind (I := relay) (Op.enqueueJob _) _).mpr ⟨trivial, fun _ => ?_,
      fun x => replayed_error _ _ x⟩
    exact Or.inr rfl

/-- The replay of an entry that is not marked yet. -/
theorem replays_replaySingle {id : UUID} (own : Bool) (hid : ∀ m ∈ marks, m.entry.id ≠ id) :
    Replays (Replayed id own marks) (.between marks) (replaySingle id false own) := by
  unfold replaySingle
  refine (Prog.obeys_perform_bind (I := relay) (Op.getDeadLetter id) _).mpr ⟨hid, fun row => ?_,
    fun x => replayed_error _ _ x⟩
  cases row with
  | none => exact Or.inr rfl
  | some entry =>
    change Replays _ (Replaying.read marks id entry) _
    rcases Replaying.read_cases marks id entry with ⟨-, hr⟩ | ⟨hid', ⟨replayedAt, ht, hc, hr⟩ | hr⟩
    · rw [hr]
      exact replays_lost (fun _ => Or.inl rfl) _
    · rw [hr]
      obtain rfl := hid'
      dsimp only
      unfold checkRecent nowPlusSeconds
      rw [if_pos ⟨hc, rfl⟩, ht]
      simp only [bind_assoc]
      refine (Prog.obeys_perform_bind (I := relay) Op.now _).mpr ⟨trivial, fun now => ?_,
        fun x => replayed_error _ _ x⟩
      change Replays _ (Replaying.checked marks entry replayedAt now) _
      unfold Replaying.checked
      cases now.addSeconds (.finite (-3600)) with
      | error x =>
        cases x <;> exact Or.inr rfl
      | ok hourAgo =>
        change Replays _ _ ((if _ then _ else _) >>= _)
        dsimp only
        by_cases hrecent : hourAgo < replayedAt
        · rw [if_pos hrecent, if_pos hrecent]
          exact Or.inr rfl
        · rw [if_neg hrecent, if_neg hrecent]
          exact replays_cleared own
    · obtain ⟨hnone, hr⟩ := hr
      rw [hr]
      obtain rfl := hid'
      have hcheck : checkRecent entry false = pure () := by
        unfold checkRecent
        rcases hnone with hnone | hnone
        · exact if_neg fun h => by omega
        · rw [hnone]
          exact ite_self _
      dsimp only
      rw [hcheck]
      exact replays_cleared own

/-- How the loop leaves the request: lost, or ready to commit, or with an exception. -/
def Looped {β : Type} (r : Except PyExn β) (p : Replaying) : Prop :=
  p = .lost ∨ ∀ a, r = .ok a → ∃ marks, p = .between marks

/-- The loop of a bulk replay, by induction on the entries that are left. -/
theorem replays_replayEach (entries : List DeadLetterEvent) :
    ∀ (marks : List Mark) (results : List ReplayResult) (errors : ℕ),
      (marks.map (·.entry.id) ++ entries.map DeadLetterEvent.id).Nodup →
      Replays Looped (.between marks) (replayEach false entries results errors) := by
  induction entries with
  | nil => exact fun marks _ _ _ => Or.inr fun _ _ => ⟨marks, rfl⟩
  | cons entry entries ih =>
    intro marks results errors hnodup
    have hfree : ∀ m ∈ marks, m.entry.id ≠ entry.id := by
      intro m hm he
      have hdisj := (List.nodup_append.mp hnodup).2.2
      exact hdisj _ (List.mem_map_of_mem hm) _ List.mem_cons_self he
    refine (Prog.obeys_bind _ _).mpr ((Prog.obeys_attempt _).mpr ?_)
    refine (replays_replaySingle false hfree).mono fun r p hp => ?_
    rcases hp with rfl | hp
    · exact replays_lost (fun _ => Or.inl rfl) _
    · cases r with
      | ok result =>
        obtain ⟨m, hm, rfl⟩ := hp
        refine ih _ _ _ ?_
        rw [List.map_append, List.append_assoc, List.map_singleton, hm]
        exact hnodup
      | error x =>
        dsimp only at hp ⊢
        by_cases hx : countedError x = true
        · rw [if_pos hx] at hp ⊢
          rw [hp]
          exact ih _ _ _ (hnodup.sublist (by simp))
        · rw [if_neg hx]
          exact Or.inr fun _ h => nomatch h

/-- A bulk replay. -/
theorem replays_replayBulk (endpointId : Option UUID) (eventType : Option Str) :
    Replays (finishing fun _ _ => True) (.between [])
      (replayBulk endpointId eventType false) := by
  unfold replayBulk
  refine (Prog.obeys_perform_bind (I := relay) (Op.selectDeadLetters endpointId eventType 1000)
    _).mpr ⟨rfl, fun rows => ?_, fun _ _ _ => trivial⟩
  have hlost {β : Type} (q : Relay β) : Replays (finishing fun _ _ => True) .lost q :=
    replays_lost (fun _ _ _ => trivial) q
  by_cases hnodup : (rows.map DeadLetterEvent.id).Nodup
  · have hnext : replayContract.next (.between []) (.selectDeadLetters endpointId eventType 1000)
        (.ok rows) = .between [] := if_pos hnodup
    rw [hnext]
    refine (Prog.obeys_bind _ _).mpr
      ((replays_replayEach rows [] [] 0 hnodup).mono fun r p hp => ?_)
    cases r with
    | error x => exact fun _ _ => trivial
    | ok results =>
      rcases hp with rfl | hp
      · exact hlost _
      · obtain ⟨marks, rfl⟩ := hp _ rfl
        exact (Prog.obeys_perform_bind (I := relay) Op.commit _).mpr
          ⟨trivial, fun _ _ _ => trivial, fun _ _ _ => trivial⟩
  · have hnext : replayContract.next (.between []) (.selectDeadLetters endpointId eventType 1000)
        (.ok rows) = .lost := if_neg hnodup
    rw [hnext]
    exact hlost _

/-- A request to replay one entry. -/
theorem replays_replayDlqEvent (id : UUID) :
    Replays (finishing fun _ _ => True) (.between []) (Api.replayDlqEvent id false) := by
  have hfree : ∀ m ∈ ([] : List Mark), m.entry.id ≠ id := fun _ hm => nomatch hm
  refine (Prog.obeys_bind _ _).mpr ((Prog.obeys_attempt _).mpr ?_)
  refine (replays_replaySingle true hfree).mono fun r p _ => ?_
  cases r with
  | ok result => exact fun _ _ => trivial
  | error x => cases x <;> exact fun _ _ => trivial

end programs

/-! ### The coroutines that replay -/

/-- The coroutine replays entries, without `force`. -/
def Origin.replays : Origin → Bool
  | .request (.replay _ force) => !force
  | .request (.replayBulk _ _ force) => !force
  | _ => false

/-- How far a coroutine that replays has come. -/
def Coroutine.replaying (th : Coroutine) : Replaying :=
  replayContract.run (.between []) th.trace

section coroutines

variable {deps : Deps} {ok : Config → Action → Prop} {c : Config} {th : Coroutine}

/-- The programs of these coroutines obey the contract. -/
theorem program_replays {o : Origin} (ho : o.replays = true) :
    Replays (finishing fun _ _ => True) (.between []) (o.program deps) := by
  have hmap {α : Type} {q : Relay α} (g : α → Reply)
      (hq : Replays (finishing fun _ _ => True) (.between []) q) :
      Replays (finishing fun _ _ => True) (.between []) (g <$> q) :=
    (Prog.obeys_map g q).mpr (hq.mono fun r _ _ => by cases r <;> exact fun _ _ => trivial)
  cases o with
  | request r =>
    cases r with
    | replay id force =>
      cases force with
      | true => cases ho
      | false => exact hmap _ (replays_replayDlqEvent id)
    | replayBulk endpointId eventType force =>
      cases force with
      | true => cases ho
      | false => exact hmap _ (replays_replayBulk endpointId eventType)
    | _ => cases ho
  | _ => cases ho

/-- The call such a coroutine is about to make is one its phase allows. -/
theorem Reaches.replays_allows (h : Reaches deps ok c) (hth : th ∈ c.threads)
    (ho : th.origin.replays = true) {e : Op} {k : Except PyExn e.Resp → Relay Reply}
    (hp : th.prog = .call e k) : th.replaying.allows e :=
  (h.follows (S := fun o => o.replays = true) (fun _ ho => program_replays ho)
    (fun _ h => h) th hth ho).allows hp

/-- The statements in its session are those of its phase. -/
theorem Reaches.replays_pending (h : Reaches deps ok c) (hth : th ∈ c.threads)
    (ho : th.origin.replays = true) (hend : th.prog.ended = false) (hlive : th.replaying.live) :
    th.session.pending = th.replaying.pending :=
  h.pending_eq (S := fun o => o.replays = true) Replaying.tracks (fun _ ho => program_replays ho)
    (fun _ h => h) th hth ho hend hlive

theorem Coroutine.replaying_answered (th : Coroutine) (e : Op) (r : Except PyExn e.Resp)
    (p : Relay Reply) (s : Session) :
    Coroutine.replaying (th.answered machine e r p s) = (Coroutine.replaying th).next e r := by
  simp only [Coroutine.replaying, Thread.answered, Contract.run_append_singleton, replayContract]

end coroutines

end WebhookRelay
