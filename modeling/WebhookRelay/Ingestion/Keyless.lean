import WebhookRelay.Runs.Calls
import WebhookRelay.Runs.Coroutines

/-!
# Who inserts an event with a given key

A request of `create_event` that brings an idempotency key is the only coroutine that ever
inserts an event with this key: replays insert events without a key, and the other handlers, the
workers and the polls insert none. So the statements of every other session are `Keyless`, and
committing them leaves the rows with the key as they are.
-/

namespace WebhookRelay

open Data Effect

/-! ### Calls that do not use the key -/

/-- The content of a request that brings the key. -/
def Origin.ingests (key : Str) : Origin → Option EventCreate
  | .request (.createEvent data) => if data.idempotencyKey = some key then some data else none
  | _ => none

/-- The statement inserts no event with the key. -/
def Write.Keyless (key : Str) (w : Write) : Prop :=
  ∀ r, w = .insertEvent r → r.idempotencyKey ≠ some key

/-- The call inserts no event with the key. -/
def Op.Keyless (key : Str) (e : Op) : Prop :=
  ∀ r, e = .insertEvent r → r.idempotencyKey ≠ some key

variable {key : Str}

/-- The statements of such a call. -/
theorem Op.Keyless.writes {e : Op} (h : e.Keyless key) : ∀ w ∈ e.writes, w.Keyless key := by
  rintro _ hw r rfl
  cases Op.emits_of_mem hw
  exact h r rfl

/-- A coroutine that does not bring the key makes such calls. -/
theorem Origin.Makes.keyless {o : Origin} {e : Op} (h : o.Makes e) (ho : o.ingests key = none) :
    e.Keyless key := by
  rintro r rfl
  cases h with
  | silent h => cases h
  | @create data hcreate id now =>
    intro hkey
    change data.idempotencyKey = some key at hkey
    rw [hcreate] at ho
    change (if data.idempotencyKey = some key then some data else none) = none at ho
    rw [if_pos hkey] at ho
    cases ho
  | replay _ entry id now => exact (Option.some_ne_none key).symm
  | deliver h => cases h

/-- **Only a request that brings the key inserts an event with it.** -/
theorem program_keyless (deps : Deps) {o : Origin} (ho : o.ingests key = none) :
    (o.program deps).Calls (Op.Keyless key) :=
  (program_makes deps o).imp fun _ he => he.keyless ho

/-! ### Sessions that do not use the key -/

variable {deps : Deps} {ok : Config → Action → Prop} {c c' : Config} {a : Action} {key : Str}

/-- The session of a coroutine that does not bring the key has no statement with it. -/
theorem Reaches.keyless (h : Reaches deps ok c) : ∀ th ∈ c.threads,
    th.origin.ingests key = none → ∀ w ∈ th.session.pending, w.Keyless key :=
  h.session_writes (S := fun o => o.ingests key = none) (fun _ he => he.writes)
    (fun _ ho => program_keyless deps ho) fun _ ho => ho

/-! ### The rows with the key -/

/-- The event has a row with the key. -/
def Db.Keyed (db : Db) (key : Str) (id : UUID) : Prop :=
  ∃ r ∈ db.events.rows, r.id = id ∧ r.idempotencyKey = some key

/-- A statement that inserts nothing with the key leaves the rows with it. -/
theorem keyed_apply {w : Write} (h : w.Keyless key) (db : Db) (id : UUID) :
    (db.apply w).Keyed key id ↔ db.Keyed key id := by
  cases w with
  | insertEvent r =>
    change (∃ r' ∈ (db.events.insert r).rows, _) ↔ _
    cases hr : db.events.get? r.id with
    | some r' => rw [Table.insert_of_get? hr]; rfl
    | none =>
      rw [Table.rows_insert hr]
      constructor
      · rintro ⟨r', hr', hid, hkey⟩
        rcases List.mem_append.mp hr' with hr' | hr'
        · exact ⟨r', hr', hid, hkey⟩
        · rw [List.mem_singleton.mp hr'] at hkey
          exact absurd hkey (h r rfl)
      · rintro ⟨r', hr', hid, hkey⟩
        exact ⟨r', List.mem_append_left _ hr', hid, hkey⟩
  | updateEvent id' u =>
    change (∃ r' ∈ (db.events.modify id' u.apply u.apply_id).rows, _) ↔ _
    rw [Table.rows_modify]
    constructor
    · rintro ⟨_, hr', hid, hkey⟩
      obtain ⟨r, hr, rfl⟩ := List.mem_map.mp hr'
      refine ⟨r, hr, ?_⟩
      split_ifs at hid hkey <;> exact ⟨hid, hkey⟩
    · rintro ⟨r, hr, hid, hkey⟩
      refine ⟨_, List.mem_map_of_mem hr, ?_⟩
      split_ifs <;> exact ⟨hid, hkey⟩
  | _ => rfl

theorem keyed_applyAll {ws : List Write} (h : ∀ w ∈ ws, w.Keyless key) (db : Db) (id : UUID) :
    (db.applyAll ws).Keyed key id ↔ db.Keyed key id := by
  induction ws generalizing db with
  | nil => rfl
  | cons w ws ih =>
    rw [Db.applyAll_cons, ih (fun w hw => h w (List.mem_cons_of_mem _ hw)),
      keyed_apply (h w List.mem_cons_self)]

end WebhookRelay
