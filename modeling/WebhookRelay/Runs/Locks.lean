import WebhookRelay.Runs.Steps
import Mathlib.Data.List.Induction

/-!
# Locks

A statement waits while another session holds one of its locks, so in every reachable state no
lock is held by two sessions (`LocksApart`). With the constraints of the tables it follows that a
row that is waiting to be committed is still missing from its table (`Reaches.takes`): its
identifier was not taken when it was inserted, and no other session can have inserted it since.
-/

namespace WebhookRelay

open Data Effect

/-- The locks of a session. -/
def Session.locks (s : Session) : List RowKey := s.pending.flatMap Write.keys

/-- No lock is held by both sessions. -/
def Session.Apart (s s' : Session) : Prop := ∀ k ∈ s.locks, k ∉ s'.locks

theorem Session.Apart.symm {s s' : Session} (h : s.Apart s') : s'.Apart s :=
  fun k hk hk' => h k hk' hk

/-- The sessions of different coroutines hold different locks. -/
def LocksApart : List Coroutine → Prop := Effect.Apart fun th th' => th.session.Apart th'.session

/-- A session without statements holds no lock. -/
theorem apart_of_pending {s : Session} (h : s.pending = []) (s' : Session) : s.Apart s' := by
  intro k hk
  unfold Session.locks at hk
  rw [h] at hk
  cases hk

/-- The session after an answer is apart from the sessions of the others. -/
theorem Answers.apart {t : ℕ} {others : List Session} {e : Op} {w w' : World} {s s' s₀ : Session}
    {a : Action} {r : Except PyExn e.Resp} (h : Answers t others e w s a r w' s')
    (hs₀ : s₀ ∈ others) (hs : s.Apart s₀) : s'.Apart s₀ := by
  intro k hk hk₀
  obtain ⟨x, hx, hkx⟩ := List.mem_flatMap.mp hk
  rcases h.mem_pending hx with hx' | hx'
  · exact hs k (List.mem_flatMap.mpr ⟨x, hx', hkx⟩) hk₀
  · have hwait : blocked others w s e = false := by
      cases hc : e.isCommit with
      | true =>
        cases e with
        | commit => cases hx'
        | _ => cases hc
      | false =>
        rcases h.pending hc with ⟨-, -, hb⟩ | ⟨hp, -⟩
        · exact hb
        · exact absurd hk₀ (hs k (List.mem_flatMap.mpr ⟨x, hp ▸ hx, hkx⟩))
    have hnone := List.any_eq_false.mp hwait s₀ hs₀
    exact hnone (List.any_eq_true.mpr ⟨k, hk₀, decide_eq_true
      (List.mem_flatMap.mpr ⟨x, hx', hkx⟩)⟩)

/-- A call whose locks nobody holds does not wait. -/
theorem not_blocked {others : List Session} {e : Op} (w : World) (s : Session)
    (h : ∀ s₀ ∈ others, ∀ k ∈ s₀.locks, k ∉ e.locks) : blocked others w s e = false :=
  List.any_eq_false.mpr fun s₀ hs₀ hany => by
    obtain ⟨k, hk, hke⟩ := List.any_eq_true.mp hany
    exact h s₀ hs₀ k hk (of_decide_eq_true hke)

variable {deps : Deps} {ok : Config → Action → Prop} {c c' : Config} {a : Action}

/-- **No lock is held twice**, in every reachable state. -/
theorem Reaches.locksApart (h : Reaches deps ok c) : LocksApart c.threads := by
  have hsymm (th th' : Coroutine) (h : th.session.Apart th'.session) :
      th'.session.Apart th.session := h.symm
  refine h.invariant (J := fun c => LocksApart c.threads) (fun _ => .nil)
    fun c a c' _ hc _ hs => ?_
  cases stepped hs with
  | started => exact hc.append hsymm fun _ _ => apart_of_pending rfl _
  | answered hth hp ha =>
    refine hc.set hsymm fun u uh hu huh => ?_
    unfold Thread.answered
    dsimp only
    split_ifs
    · exact apart_of_pending rfl _
    · exact ha.apart (Pool.mem_others huh hu) (hc _ _ _ _ (Ne.symm hu) hth huh)
  | killed => exact hc.set hsymm fun _ _ _ _ => apart_of_pending rfl _
  | reaped hth =>
    refine hc.set hsymm fun u uh hu huh => ?_
    have := hc _ _ _ _ (Ne.symm hu) hth huh
    exact this
  | ticked => exact hc

/-! ### Rows that come and go -/

/-- The row a statement inserts. -/
def Write.inserts : Write → Option RowKey
  | .insertEndpoint r => some (.endpoint r.id)
  | .insertEvent r => some (.event r.id)
  | .insertAttempt r => some (.attempt r.id)
  | .insertDeadLetter r => some (.deadLetter r.id)
  | _ => none

/-- The row a statement removes. -/
def Write.removes : Write → Option RowKey
  | .deleteDeadLetter id => some (.deadLetter id)
  | _ => none

/-- Whether a row is there after a statement, given whether it was before. -/
def Write.leaves (k : RowKey) (there : Bool) (w : Write) : Bool :=
  if w.inserts = some k then true else if w.removes = some k then false else there

/-- A statement locks the row it inserts. -/
theorem Write.mem_keys_of_inserts {w : Write} {k : RowKey} (h : w.inserts = some k) :
    k ∈ w.keys := by
  cases w <;> cases h <;> exact List.mem_cons_self

/-- The key of a row, not a value of a unique column. -/
def RowKey.isRow : RowKey → Bool
  | .idempotency _ => false
  | _ => true

theorem Write.isRow_of_inserts {w : Write} {k : RowKey} (h : w.inserts = some k) :
    k.isRow = true := by
  cases w <;> cases h <;> rfl

/-- The rows that are there after a statement. -/
theorem holds_apply (db : Db) (w : Write) {k : RowKey} (hk : k.isRow = true) :
    (db.apply w).holds k = w.leaves k (db.holds k) := by
  have hinsert {ρ κ : Type} [DecidableEq κ] {key : ρ → κ} (T : Table ρ key) (r : ρ) (x : κ) :
      ((T.insert r).get? x).isSome = if key r = x then true else (T.get? x).isSome := by
    rw [Bool.eq_iff_iff, T.isSome_get?_insert r x]
    split_ifs with h <;> simp [h]
  have herase {ρ κ : Type} [DecidableEq κ] {key : ρ → κ} (T : Table ρ key) (y x : κ) :
      ((T.erase y).get? x).isSome = if y = x then false else (T.get? x).isSome := by
    rw [T.get?_erase]
    by_cases h : y = x
    · rw [if_pos h, if_pos h.symm]
      rfl
    · rw [if_neg h, if_neg (Ne.symm h)]
  cases k with
  | idempotency key => cases hk
  | _ => cases w <;>
      simp [Db.apply, Db.holds, Write.leaves, Write.inserts, Write.removes, hinsert, herase,
        Table.isSome_get?_modify]

/-- The rows that are there after a list of statements. -/
theorem holds_applyAll (db : Db) (ws : List Write) {k : RowKey} (hk : k.isRow = true) :
    (db.applyAll ws).holds k = ws.foldl (Write.leaves k) (db.holds k) := by
  induction ws generalizing db with
  | nil => rfl
  | cons w ws ih => rw [Db.applyAll_cons, ih, holds_apply db w hk, List.foldl_cons]

/-- A row that was there before is no reason for one to be missing after. -/
theorem foldl_leaves_mono {k : RowKey} (ws : List Write) {b b' : Bool} (h : b = true → b' = true)
    (hb : ws.foldl (Write.leaves k) b = true) : ws.foldl (Write.leaves k) b' = true := by
  induction ws generalizing b b' with
  | nil => exact h hb
  | cons w ws ih =>
    refine ih (fun hw => ?_) hb
    unfold Write.leaves at hw ⊢
    split_ifs at hw ⊢
    · rfl
    · exact h hw

/-- A row that no statement can remove stays there. -/
theorem holds_of_kept {db : Db} {k : RowKey} (hk : k.isRow = true)
    (hkept : ∀ w : Write, w.removes ≠ some k) (h : db.holds k = true) (ws : List Write) :
    (db.applyAll ws).holds k = true := by
  rw [holds_applyAll _ _ hk, h]
  induction ws with
  | nil => rfl
  | cons w ws ih =>
    refine foldl_leaves_mono ws (fun _ => ?_) ih
    unfold Write.leaves
    rw [if_neg (hkept w)]
    split_ifs <;> rfl

/-- Endpoints are never removed. -/
theorem holds_endpoint {db : Db} {id : UUID} (h : db.holds (.endpoint id) = true)
    (ws : List Write) : (db.applyAll ws).holds (.endpoint id) = true :=
  holds_of_kept rfl (fun w => by cases w <;> simp [Write.removes]) h ws

/-- Attempts are never removed. -/
theorem holds_attempt {db : Db} {id : UUID} (h : db.holds (.attempt id) = true)
    (ws : List Write) : (db.applyAll ws).holds (.attempt id) = true :=
  holds_of_kept rfl (fun w => by cases w <;> simp [Write.removes]) h ws

/-- Statements that do not insert a row are no reason for it to be there. -/
theorem foldl_leaves_of_not_inserts {k : RowKey} {ws : List Write}
    (h : ∀ w ∈ ws, w.inserts ≠ some k) {b : Bool} (hb : ws.foldl (Write.leaves k) b = true) :
    b = true := by
  induction ws generalizing b with
  | nil => exact hb
  | cons w ws ih =>
    have hw := ih (fun w' hw' => h w' (List.mem_cons_of_mem _ hw')) hb
    unfold Write.leaves at hw
    rw [if_neg (h w List.mem_cons_self)] at hw
    split_ifs at hw
    exact hw

/-! ### Inserts that take effect -/

/-- Every row that the statements insert is missing when its turn comes. -/
def Db.Takes (db : Db) : List Write → Prop
  | [] => True
  | w :: ws => (∀ k, w.inserts = some k → db.holds k = false) ∧ (db.apply w).Takes ws

theorem Db.takes_append {db : Db} {ws ws' : List Write} :
    db.Takes (ws ++ ws') ↔ db.Takes ws ∧ (db.applyAll ws).Takes ws' := by
  induction ws generalizing db with
  | nil => exact (and_iff_right trivial).symm
  | cons w ws ih => exact (and_congr_right fun _ => ih).trans and_assoc.symm

/-- The row a statement of the list inserts is missing after those before it. -/
theorem Db.Takes.missing {db : Db} {pre post : List Write} {w : Write} {k : RowKey}
    (h : db.Takes (pre ++ w :: post)) (hw : w.inserts = some k) :
    (db.applyAll pre).holds k = false := (Db.takes_append.mp h).2.1 k hw

/-- Statements that insert other rows do not matter. -/
theorem Db.Takes.after {db : Db} {ws ws₀ : List Write} (h : db.Takes ws)
    (hother : ∀ w ∈ ws, ∀ k, w.inserts = some k → ∀ w₀ ∈ ws₀, w₀.inserts ≠ some k) :
    (db.applyAll ws₀).Takes ws := by
  -- by induction from the end, so that the statements before the last one stay a prefix
  induction ws using List.reverseRecOn with
  | nil => trivial
  | append_singleton ws w ih =>
    obtain ⟨hws, hw⟩ := Db.takes_append.mp h
    refine Db.takes_append.mpr ⟨ih hws fun w' hw' => hother w' (List.mem_append_left _ hw'),
      fun k hk => ?_, trivial⟩
    have hrow := Write.isRow_of_inserts hk
    have hfree := hw.1 k hk
    rw [holds_applyAll _ _ hrow] at hfree
    rw [holds_applyAll _ _ hrow, holds_applyAll _ _ hrow]
    by_contra hne
    rw [Bool.not_eq_false] at hne
    have hothers : ∀ w₀ ∈ ws₀, w₀.inserts ≠ some k :=
      hother w (List.mem_append_right _ (List.mem_singleton_self w)) k hk
    have hne := foldl_leaves_mono ws (foldl_leaves_of_not_inserts hothers) hne
    rw [hfree] at hne
    cases hne

/-- The statement of a call inserts a row only if it is missing. -/
theorem takes_of_violation {e : Op} {db : Db} (hv : e.violation db = none) :
    db.Takes e.writes := by
  rcases e.writes_cases with hnone | ⟨w, hw, hone⟩
  · rw [hnone]
    trivial
  · rw [hone]
    refine ⟨fun k hk => ?_, trivial⟩
    cases hw with
    | insertEndpoint r | insertEvent r | insertAttempt r | insertDeadLetter r =>
      cases hk
      unfold Op.violation at hv
      dsimp only at hv
      split_ifs at hv with hs hh
      simp only [Bool.or_eq_true, not_or, Bool.not_eq_true] at hh
      first | exact hh | exact hh.1 | exact hh.1.1
    | _ => cases hk

/-- The inserts of a session still take effect after its answer. -/
theorem Db.Takes.answered {t : ℕ} {others : List Session} {e : Op} {w w' : World}
    {s s' : Session} {a : Action} {r : Except PyExn e.Resp} (h : Answers t others e w s a r w' s')
    (hs : w.db.Takes s.pending) : w'.db.Takes s'.pending := by
  rcases h.wal with hw | ⟨-, -, -, hpend⟩
  · rw [World.db, hw]
    cases hc : e.isCommit with
    | true =>
      cases e with
      | commit =>
        cases h with
        | executed => trivial
        | lost => exact hs
        | late => trivial
      | _ => cases hc
    | false =>
      rcases h.pending hc with ⟨hp, hv, -⟩ | ⟨hp, -⟩
      · rw [hp]
        exact Db.takes_append.mpr ⟨hs, takes_of_violation hv⟩
      · rw [hp]
        exact hs
  · rw [hpend]
    trivial

/-- **Inserts take effect**: in every reachable state, every row that was ever inserted was missing
before, and so is every row that is waiting to be committed. -/
theorem Reaches.takes (h : Reaches deps ok c) : Db.empty.Takes c.world.wal ∧
    ∀ th ∈ c.threads, c.world.db.Takes th.session.pending := by
  refine h.invariant (J := fun c => Db.empty.Takes c.world.wal ∧
    ∀ th ∈ c.threads, c.world.db.Takes th.session.pending)
    (fun _ => ⟨trivial, fun _ hth => nomatch hth⟩) fun c a c' hr hc _ hs => ?_
  have hstep := stepped hs
  refine ⟨?_, ?_⟩
  · rcases hstep.wal with hw | ⟨t, th, k, hth, -, -, hw⟩
    · rw [hw]
      exact hc.1
    · rw [hw]
      exact Db.takes_append.mpr ⟨hc.1, hc.2 th (List.mem_of_getElem? hth)⟩
  · have hsame {ws : List Write} (hw : c'.world.wal = c.world.wal) (h : c.world.db.Takes ws) :
        c'.world.db.Takes ws := by
      unfold World.db at h ⊢
      rwa [hw]
    refine hstep.forall_threads hc.2 ?_ (fun _ _ _ => trivial) ?_ (fun _ _ _ => trivial) ?_
    · intro u uh huh htaken htakes
      rcases hstep.wal with hw | ⟨t, th, k, hth, -, ht, hw⟩
      · exact hsame hw htakes
      · have hut : u ≠ t := fun h => htaken (h ▸ ht)
        have hdb : c'.world.db = c.world.db.applyAll th.session.pending := by
          rw [World.db, hw, Db.applyAll_append, World.db]
        rw [hdb]
        -- the locks of the two sessions are apart
        refine htakes.after fun w hw k hk w₀ hw₀ hk₀ => ?_
        exact hr.locksApart u t uh th hut huh hth k
          (List.mem_flatMap.mpr ⟨w, hw, Write.mem_keys_of_inserts hk⟩)
          (List.mem_flatMap.mpr ⟨w₀, hw₀, Write.mem_keys_of_inserts hk₀⟩)
    · intro t th e k r w s _ _ ha hw htakes
      unfold Thread.answered
      dsimp only
      split_ifs
      · trivial
      · rw [hw]
        exact htakes.answered ha
    · intro th _ hnone id _ _ htakes
      rcases hstep.wal with hw | ⟨_, _, _, _, _, ht, _⟩
      · exact hsame hw htakes
      · rw [hnone] at ht
        cases ht

/-! ### Attempts waiting to be committed -/

/-- The attempts that are waiting to be committed are missing from the table. -/
def AttemptsMissing (w : World) (s : Session) : Prop :=
  ∀ r, Write.insertAttempt r ∈ s.pending → w.db.attempts.get? r.id = none

/-- **An attempt that is waiting to be committed is missing from the table**, in every reachable
state: no statement removes attempts. -/
theorem Reaches.attempts_missing (h : Reaches deps ok c) :
    ∀ th ∈ c.threads, AttemptsMissing c.world th.session := by
  intro th hth r hr
  obtain ⟨pre, post, hpend⟩ := List.append_of_mem hr
  have htakes := h.takes.2 th hth
  rw [hpend] at htakes
  have hfree := htakes.missing (k := .attempt r.id) rfl
  by_contra hne
  have hthere : c.world.db.holds (.attempt r.id) = true := Option.isSome_iff_ne_none.mpr hne
  rw [holds_attempt hthere pre] at hfree
  cases hfree

end WebhookRelay
