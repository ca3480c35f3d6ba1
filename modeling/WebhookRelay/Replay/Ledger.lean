import WebhookRelay.Replay.Contract
import WebhookRelay.Runs.Calls

/-!
# The ledger of replays

The events that were ever committed from an entry of the dead letter queue are read off a
`History`: the transactions of a run, each with the time of its commit. A replay inserts its
event right before the UPDATE of the entry, so the pairs of these two statements in a transaction
are the replays in it (`replaysIn`, `eventsFrom`).

Only a replay updates an entry. The other transactions are `Plain`: what they insert into the
queue was never replayed.
-/

namespace WebhookRelay

open Data Effect

/-! ### Transactions -/

/-- The statements a step commits. -/
def transaction (c : Config) (a : Action) : List Write :=
  match a.taken.bind fun t => c.threads[t]? with
  | some th =>
    match th.prog with
    | .call .commit _ => th.session.pending
    | _ => []
  | none => []

variable {deps : Deps} {c c' : Config} {a : Action}

/-- The transaction of a coroutine that commits. -/
theorem transaction_of_commit {t : ℕ} {th : Coroutine} {k : Except PyExn Unit → Relay Reply}
    (hth : c.threads[t]? = some th) (hp : th.prog = .call .commit k) (ht : a.taken = some t) :
    transaction c a = th.session.pending := by
  unfold transaction
  rw [ht, Option.bind_some, hth]
  dsimp only
  rw [hp]

/-- A step that commits something is the commit of a coroutine. -/
theorem transaction_cases (c : Config) (a : Action) : transaction c a = [] ∨
    ∃ t th k, c.threads[t]? = some th ∧ th.prog = .call .commit k ∧ a.taken = some t := by
  unfold transaction
  cases ht : a.taken with
  | none => exact Or.inl rfl
  | some t =>
    rw [Option.bind_some]
    cases hth : c.threads[t]? with
    | none => exact Or.inl rfl
    | some th =>
      dsimp only
      split
      · rename_i k hp
        exact Or.inr ⟨t, th, k, hth, hp, rfl⟩
      · exact Or.inl rfl

/-- The log after a step. -/
theorem wal_transaction (h : step deps c a = some c') :
    c'.world.wal = c.world.wal ++ transaction c a := by
  have hidle (ht : a.taken = none) : transaction c a = [] := by
    unfold transaction
    rw [ht]
    rfl
  cases stepped h with
  | started hs =>
    cases hs <;> rw [hidle rfl] <;> exact (List.append_nil _).symm
  | killed | reaped | ticked =>
    rw [hidle rfl]
    exact (List.append_nil _).symm
  | answered hth hp ha =>
    rename_i t th e k r w s
    cases hc : e.isCommit with
    | true =>
      cases e with
      | commit =>
        cases ha with
        | executed o _ => rw [transaction_of_commit hth hp rfl]; rfl
        | lost o x =>
          rw [hidle rfl]
          exact (List.append_nil _).symm
        | late o x _ => rw [transaction_of_commit hth hp rfl]; rfl
      | _ => cases hc
    | false =>
      have hwal : w.wal = c.world.wal := ha.wal.resolve_right fun hcom => by
        rw [hc] at hcom
        cases hcom.1
      have hnone : transaction c a = [] := by
        rcases transaction_cases c a with hnone | ⟨u, uh, k', huh, hup, hu⟩
        · exact hnone
        · -- the coroutine that commits would be another one than the one that is answered
          by_cases hut : u = t
          · subst hut
            rw [hth] at huh
            cases huh
            rw [hp] at hup
            cases hup
            cases hc
          · exact absurd hu (ha.taken hut)
      rw [hnone, List.append_nil]
      exact hwal

/-! ### Histories -/

/-- The transactions of a run, each with its time. -/
abbrev History : Type := List (Datetime × List Write)

/-- What is noted of a step. -/
def committedAt (c : Config) (a : Action) : Datetime × List Write :=
  (c.world.now, transaction c a)

/-- The moves of the scheduler, with a history. -/
def stepRecorded (deps : Deps) : Config × History → Action → Option (Config × History) :=
  recording (step deps) committedAt

/-- The events a transaction commits from entries of the queue, with the entries. -/
def replaysIn : List Write → List (UUID × WebhookEvent)
  | [] => []
  | .insertEvent r :: ws =>
    match ws with
    | .updateDeadLetter id _ :: _ => (id, r) :: replaysIn ws
    | _ => replaysIn ws
  | _ :: ws => replaysIn ws

/-- The events ever committed from an entry, each with the time of its commit. -/
def eventsFrom (id : UUID) (H : History) : List (Datetime × WebhookEvent) :=
  H.flatMap fun x => ((replaysIn x.2).filter fun y => decide (y.1 = id)).map fun y => (x.1, y.2)

theorem eventsFrom_append (id : UUID) (H : History) (t : Datetime) (ws : List Write) :
    eventsFrom id (H ++ [(t, ws)]) = eventsFrom id H ++
      ((replaysIn ws).filter fun y => decide (y.1 = id)).map fun y => (t, y.2) := by
  simp only [eventsFrom, List.flatMap_append, List.flatMap_singleton]

/-- The replays of a transaction of marks. -/
theorem replaysIn_marks (marks : List Mark) :
    replaysIn (marks.flatMap Mark.writes) = marks.map fun m => (m.entry.id, m.event) := by
  induction marks with
  | nil => rfl
  | cons m marks ih =>
    change (m.entry.id, m.event) :: replaysIn (marks.flatMap Mark.writes) = _
    rw [ih, List.map_cons]

/-- In a list without repeated keys, a key is that of one member. -/
theorem filter_key_eq {α κ : Type} [DecidableEq κ] {key : α → κ} {l : List α}
    (h : (l.map key).Nodup) {x : α} (hx : x ∈ l) :
    l.filter (fun y => decide (key y = key x)) = [x] := by
  induction l with
  | nil => cases hx
  | cons y l ih =>
    rw [List.map_cons, List.nodup_cons] at h
    rcases List.mem_cons.mp hx with rfl | hx
    · have hrest : l.filter (fun y => decide (key y = key x)) = [] :=
        List.filter_eq_nil_iff.mpr fun y hy he =>
          h.1 (List.mem_map.mpr ⟨y, hy, of_decide_eq_true he⟩)
      rw [List.filter_cons, if_pos (decide_eq_true rfl), hrest]
    · have hne : key y ≠ key x := fun he => h.1 (he ▸ List.mem_map_of_mem hx)
      rw [List.filter_cons, if_neg (by simpa using hne)]
      exact ih h.2 hx

section marks

variable {marks : List Mark} {id : UUID}

/-- The events from an entry that a transaction of marks leaves out. -/
theorem eventsFrom_marks_of_not_mem (h : ∀ m ∈ marks, m.entry.id ≠ id) (H : History)
    (t : Datetime) : eventsFrom id (H ++ [(t, marks.flatMap Mark.writes)]) = eventsFrom id H := by
  have hnone : (marks.map fun m => (m.entry.id, m.event)).filter (fun y => decide (y.1 = id)) =
      [] := by
    refine List.filter_eq_nil_iff.mpr fun y hy he => ?_
    obtain ⟨m, hm, rfl⟩ := List.mem_map.mp hy
    exact h m hm (of_decide_eq_true he)
  rw [eventsFrom_append, replaysIn_marks, hnone]
  exact List.append_nil _

/-- The events from an entry that a transaction marks once. -/
theorem eventsFrom_marks_of_mem (h : (marks.map fun m => m.entry.id).Nodup) {m : Mark}
    (hm : m ∈ marks) (H : History) (t : Datetime) :
    eventsFrom m.entry.id (H ++ [(t, marks.flatMap Mark.writes)]) =
      eventsFrom m.entry.id H ++ [(t, m.event)] := by
  have hone : (marks.map fun m => (m.entry.id, m.event)).filter
      (fun y => decide (y.1 = m.entry.id)) = [(m.entry.id, m.event)] := by
    rw [List.filter_map]
    change (marks.filter fun y => decide (y.entry.id = m.entry.id)).map _ = _
    rw [filter_key_eq h hm, List.map_singleton]
  rw [eventsFrom_append, replaysIn_marks, hone, List.map_singleton]

/-- The row of an entry after it has been marked. -/
theorem deadLetters_mark (m : Mark) (db : Db) (id : UUID) :
    (db.applyAll m.writes).deadLetters.get? id =
      if id = m.entry.id then (db.deadLetters.get? id).map m.columns.apply
      else db.deadLetters.get? id :=
  Table.get?_modify _ _ _ _ m.columns.apply_id

/-- A transaction of marks leaves the other entries. -/
theorem deadLetters_marks_of_not_mem (h : ∀ m ∈ marks, m.entry.id ≠ id) (db : Db) :
    (db.applyAll (marks.flatMap Mark.writes)).deadLetters.get? id = db.deadLetters.get? id := by
  induction marks generalizing db with
  | nil => rfl
  | cons m marks ih =>
    rw [List.flatMap_cons, Db.applyAll_append,
      ih (fun m' hm' => h m' (List.mem_cons_of_mem _ hm')), deadLetters_mark,
      if_neg (Ne.symm (h m List.mem_cons_self))]

/-- A transaction of marks changes an entry that it marks by that mark. -/
theorem deadLetters_marks_of_mem (h : (marks.map fun m => m.entry.id).Nodup) {m : Mark}
    (hm : m ∈ marks) (db : Db) :
    (db.applyAll (marks.flatMap Mark.writes)).deadLetters.get? m.entry.id =
      (db.deadLetters.get? m.entry.id).map m.columns.apply := by
  induction marks generalizing db with
  | nil => cases hm
  | cons m' marks ih =>
    rw [List.map_cons, List.nodup_cons] at h
    rw [List.flatMap_cons, Db.applyAll_append]
    rcases List.mem_cons.mp hm with rfl | hm
    · have hother : ∀ m' ∈ marks, m'.entry.id ≠ m.entry.id := fun m' hm' he =>
        h.1 (List.mem_map.mpr ⟨m', hm', he⟩)
      rw [deadLetters_marks_of_not_mem hother, deadLetters_mark, if_pos rfl]
    · have hne : m.entry.id ≠ m'.entry.id := fun he =>
        h.1 (List.mem_map.mpr ⟨m, hm, he⟩)
      rw [ih h.2 hm, deadLetters_mark, if_neg hne]

end marks

/-! ### The transactions of the others -/

/-- The request asks for a replay at any time. -/
def Request.forced : Request → Bool
  | .replay _ force => force
  | .replayBulk _ _ force => force
  | _ => false

/-- A statement of a coroutine that replays nothing. -/
def Write.Plain : Write → Prop
  | .updateDeadLetter _ _ => False
  | .insertDeadLetter d => d.replayCount = 0 ∧ d.replayedAt = none
  | _ => True

/-- The statements of the call are such statements. -/
def Op.Plain (e : Op) : Prop := ∀ w ∈ e.writes, w.Plain

/-- The statements of such a coroutine replay nothing. -/
theorem replaysIn_plain {ws : List Write} (h : ∀ w ∈ ws, w.Plain) : replaysIn ws = [] := by
  induction ws with
  | nil => rfl
  | cons w ws ih =>
    have htail := ih fun w' hw' => h w' (List.mem_cons_of_mem _ hw')
    cases w with
    | insertEvent r =>
      unfold replaysIn
      split
      · exact (h _ (List.mem_cons_of_mem _ List.mem_cons_self)).elim
      · exact htail
    | _ => exact htail

/-- A coroutine that does not replay makes such calls. -/
theorem Origin.Makes.plain {o : Origin} {e : Op} (h : o.Makes e) (ho : ¬ o.IsReplay) :
    e.Plain := by
  intro w hw
  cases h with
  | silent h =>
    rw [h] at hw
    cases hw
  | mark hreplay => exact absurd hreplay ho
  | deliver h =>
    cases h with
    | insertDeadLetter =>
      cases Op.emits_of_mem hw
      exact ⟨rfl, rfl⟩
    | _ => cases Op.emits_of_mem hw <;> trivial
  | _ =>
    cases Op.emits_of_mem hw
    trivial

/-- A coroutine whose contract is not that of a replay, and that is not forced, does not replay. -/
theorem Origin.not_isReplay {o : Origin} (ho : o.replays = false)
    (hforce : ∀ r, o = .request r → r.forced = false) : ¬ o.IsReplay := by
  cases o with
  | request r =>
    have hforce := hforce r rfl
    cases r with
    | replay id force =>
      obtain rfl : force = false := hforce
      cases ho
    | replayBulk endpointId eventType force =>
      obtain rfl : force = false := hforce
      cases ho
    | _ => exact fun h => h
  | _ => exact fun h => h

/-- **Only a replay updates an entry.** -/
theorem program_plain (deps : Deps) {o : Origin} (ho : ¬ o.IsReplay) :
    (o.program deps).Calls Op.Plain :=
  (program_makes deps o).imp fun _ he => he.plain ho

end WebhookRelay
