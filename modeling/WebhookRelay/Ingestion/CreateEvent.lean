import WebhookRelay.Ingestion.Keyless

/-!
# The contract of `create_event` with an idempotency key

A request that brings a key looks it up first. It answers with the event it has found, or goes
on to its endpoint, an identifier, the clock, the INSERT, the enqueue and the commit
(`Ingest`, `ingestContract`); that is at most seven calls. From a lookup that has missed until
the commit it is `critical`: another request that looks the key up now misses it, too.
-/

namespace WebhookRelay

open Data Effect

/-- How far a request of `create_event` has come. -/
inductive Ingest where
  | started
  /-- No event with the key was found. -/
  | missed
  /-- The endpoint accepts the event. -/
  | accepted
  | named (id : UUID)
  | stamped (id : UUID) (now : Datetime)
  | inserted (row : WebhookEvent)
  | enqueued (row : WebhookEvent)
  /-- An event with the key was found. -/
  | found (row : WebhookEvent)
  /-- The request answers with an event. -/
  | finished (row : WebhookEvent)
  /-- A call has failed, or the endpoint does not accept the event. -/
  | failed

namespace Ingest

/-- The calls a request may make in a phase. -/
def allows (key : Str) (data : EventCreate) : Ingest → Op → Prop
  | .started, e => e = .getEventByKey key
  | .missed, e => e = .getEndpoint data.endpointId
  | .accepted, e => e = .uuid4
  | .named _, e => e = .now
  | .stamped id now, e => e = .insertEvent (Api.newEvent data id now)
  | .inserted row, e => e = .enqueueJob row.id
  | .enqueued _, e => e = .commit
  | .found _, e => e = .commit
  | .finished _, _ => False
  | .failed, _ => False

/-- The endpoint takes events of this kind. -/
def takes (endpoint : WebhookEndpoint) (data : EventCreate) : Bool :=
  endpoint.isActive && !Api.filteredOut endpoint data.eventType

/-- The phase after a call. -/
def next (data : EventCreate) : Ingest → (e : Op) → Except PyExn e.Resp → Ingest
  | .started, .getEventByKey _, .ok none => .missed
  | .started, .getEventByKey _, .ok (some row) => .found row
  | .missed, .getEndpoint _, .ok (some endpoint) =>
    if takes endpoint data then .accepted else .failed
  | .accepted, .uuid4, .ok id => .named id
  | .named id, .now, .ok now => .stamped id now
  | .stamped id now, .insertEvent _, .ok _ => .inserted (Api.newEvent data id now)
  | .inserted row, .enqueueJob _, .ok _ => .enqueued row
  | .enqueued row, .commit, .ok _ => .finished row
  | .found row, .commit, .ok _ => .finished row
  | _, _, _ => .failed

/-- How the request ends: with the event of its phase, or with an exception when it has failed. -/
def ends : Except PyExn Reply → Ingest → Prop
  | .ok reply, p => ∃ row, reply = .event row ∧ p = .finished row
  | .error _, p => p = .failed

/-- From a lookup that has missed until the commit. -/
def critical : Ingest → Bool
  | .missed => true
  | .accepted => true
  | .named _ => true
  | .stamped _ _ => true
  | .inserted _ => true
  | .enqueued _ => true
  | _ => false

/-- The calls made so far. -/
def calls : Ingest → ℕ
  | .started => 0
  | .missed => 1
  | .accepted => 2
  | .named _ => 3
  | .stamped _ _ => 4
  | .inserted _ => 5
  | .enqueued _ => 6
  | .found _ => 1
  | .finished _ => 7
  | .failed => 7

end Ingest

/-- A request whose call fails has failed. -/
theorem Ingest.next_error (data : EventCreate) (p : Ingest) (e : Op) (x : PyExn) :
    p.next data e (.error x) = .failed := by
  cases p <;> cases e <;> rfl

/-- The contract of a request that brings a key. -/
def ingestContract (key : Str) (data : EventCreate) : Contract relay PyExn Ingest where
  allows := Ingest.allows key data
  next := Ingest.next data

section obeys

variable {key : Str} {data : EventCreate}

/-- One call, and then the rest; when the call fails the request has failed. -/
theorem ingest_bind {β : Type} {Q : Except PyExn β → Ingest → Prop} {p : Ingest} (e : Op)
    {f : e.Resp → Relay β} (ha : p.allows key data e)
    (hf : ∀ v, (f v).Obeys (ingestContract key data) Q (p.next data e (.ok v)))
    (hQ : ∀ x, Q (.error x) .failed) :
    (Prog.perform (I := relay) e >>= f).Obeys (ingestContract key data) Q p := by
  refine (Prog.obeys_perform_bind (I := relay) e f).mpr ⟨ha, hf, fun x => ?_⟩
  change Q (.error x) (p.next data e (.error x))
  rw [Ingest.next_error]
  exact hQ x

/-- The event a handler returns, before `get_db` commits. -/
def Ingest.returns : Except PyExn WebhookEvent → Ingest → Prop
  | .ok row, p => p = .enqueued row ∨ p = .found row
  | .error _, p => p = .failed

/-- The handler from the lookup that has missed. -/
theorem ingest_obeys :
    (Api.ingest data).Obeys (ingestContract key data) Ingest.returns .missed := by
  refine ingest_bind (.getEndpoint data.endpointId) rfl (fun endpoint => ?_) fun _ => rfl
  cases endpoint with
  | none => exact rfl
  | some endpoint =>
    change Prog.Obeys _ _ (if !endpoint.isActive then _
      else if Api.filteredOut endpoint data.eventType then _ else _)
      (if Ingest.takes endpoint data then Ingest.accepted else .failed)
    unfold Ingest.takes
    cases endpoint.isActive with
    | false => exact rfl
    | true =>
      cases Api.filteredOut endpoint data.eventType with
      | true => exact rfl
      | false =>
        simp only [Bool.not_true, Bool.false_eq_true, if_false, Bool.not_false, Bool.and_self,
          if_true]
        unfold EventRepository.create
        simp only [bind_assoc]
        refine ingest_bind .uuid4 rfl (fun id => ?_) fun _ => rfl
        refine ingest_bind .now rfl (fun now => ?_) fun _ => rfl
        refine ingest_bind (.insertEvent (Api.newEvent data id now)) rfl (fun _ => ?_) fun _ => rfl
        exact ingest_bind (.enqueueJob id) rfl (fun _ => Or.inl rfl) fun _ => rfl

/-- **The contract holds**: every run of `create_event` with a key that is not empty. -/
theorem createEvent_obeys (hkey : data.idempotencyKey = some key) (hne : key ≠ []) :
    (Request.createEvent data).program.Obeys (ingestContract key data) Ingest.ends .started := by
  have hhandler : (Api.createEvent data).Obeys (ingestContract key data) Ingest.returns
      .started := by
    unfold Api.createEvent Api.lookup
    rw [hkey]
    dsimp only
    rw [if_neg hne]
    refine ingest_bind (.getEventByKey key) rfl (fun existing => ?_) fun _ => rfl
    cases existing with
    | none => exact ingest_obeys
    | some row => exact Or.inr rfl
  refine (Prog.obeys_map _ _).mpr ((Prog.obeys_bind _ _).mpr (hhandler.mono fun r p hr => ?_))
  cases r with
  | error x => exact hr
  | ok row =>
    rcases hr with rfl | rfl <;>
      exact ingest_bind .commit rfl (fun _ => ⟨row, rfl, rfl⟩) fun _ => rfl

end obeys

/-- Every call brings the request further. -/
theorem Ingest.calls_next {key : Str} {data : EventCreate} {p : Ingest} {e : Op}
    (h : p.allows key data e) (r : Except PyExn e.Resp) :
    p.calls < (p.next data e r).calls := by
  cases p with
  | started =>
    obtain rfl : e = .getEventByKey key := h
    rcases r with x | _ | row <;> simp [next, calls]
  | missed =>
    obtain rfl : e = .getEndpoint data.endpointId := h
    rcases r with x | _ | endpoint
    · simp [next, calls]
    · simp [next, calls]
    · change 1 < Ingest.calls (if takes endpoint data then .accepted else .failed)
      split_ifs <;> simp [calls]
  | accepted =>
    obtain rfl : e = .uuid4 := h
    cases r <;> simp [next, calls]
  | named id =>
    obtain rfl : e = .now := h
    cases r <;> simp [next, calls]
  | stamped id now =>
    obtain rfl : e = .insertEvent (Api.newEvent data id now) := h
    cases r <;> simp [next, calls]
  | inserted row =>
    obtain rfl : e = .enqueueJob row.id := h
    cases r <;> simp [next, calls]
  | enqueued row =>
    obtain rfl : e = .commit := h
    cases r <;> simp [next, calls]
  | found row =>
    obtain rfl : e = .commit := h
    cases r <;> simp [next, calls]
  | finished row => cases h
  | failed => cases h

end WebhookRelay
