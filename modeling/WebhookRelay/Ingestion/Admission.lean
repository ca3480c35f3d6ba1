import WebhookRelay.Runs.Coroutines

/-!
# The contract of `create_event` at the endpoint's guard

A request for an event looks its key up, if it has one, and then reads the endpoint. An event that
is found is the answer; an endpoint that is inactive is the end of it. Only a request that has read
an active endpoint makes other calls, the INSERT among them (`Admission`, `admissionContract`).
-/

namespace WebhookRelay

open Data Effect

/-- How far a request has come. -/
inductive Admission where
  | started
  /-- It has read an active endpoint; what it does then is left open. -/
  | admitted
  /-- It has found an event with its key. -/
  | found (row : WebhookEvent)
  | answered (row : WebhookEvent)
  /-- The endpoint is inactive. -/
  | refused
  /-- There is no such endpoint. -/
  | missing
  /-- A call has failed. -/
  | failed

namespace Admission

/-- The calls a request may make in a phase. -/
def allows (data : EventCreate) : Admission → Op → Prop
  | .started, e => e = .getEndpoint data.endpointId ∨
    ∃ key, data.idempotencyKey = some key ∧ e = .getEventByKey key
  | .admitted, _ => True
  | .found _, e => e = .commit
  | _, _ => False

/-- The phase after a call. -/
def next : Admission → (e : Op) → Except PyExn e.Resp → Admission
  | .admitted, _, _ => .admitted
  | .started, .getEventByKey _, .ok none => .started
  | .started, .getEventByKey _, .ok (some row) => .found row
  | .started, .getEndpoint _, .ok (some endpoint) =>
    if endpoint.isActive then .admitted else .refused
  | .started, .getEndpoint _, .ok none => .missing
  | .found row, .commit, .ok _ => .answered row
  | _, _, _ => .failed

/-- The exception of a request whose endpoint is inactive. -/
def refusal : PyExn := .httpException 422 (Str.lit "Endpoint is inactive")

/-- How a request ends. -/
def ends : Except PyExn Reply → Admission → Prop
  | _, .admitted => True
  | .ok reply, .answered row => reply = .event row
  | .error x, .refused => x = refusal
  | .error _, .missing => True
  | .error _, .failed => True
  | _, _ => False

/-- It has read an active endpoint. -/
def free : Admission → Bool
  | .admitted => true
  | _ => false

end Admission

/-- The contract of a request for an event. -/
def admissionContract (data : EventCreate) : Contract relay PyExn Admission where
  allows := Admission.allows data
  next := Admission.next

section phases

variable {data : EventCreate} {p : Admission}

/-- A request whose call fails has failed, unless its endpoint is active. -/
theorem Admission.next_error (hp : p.free = false) (e : Op) (x : PyExn) :
    p.next e (.error x) = .failed := by
  cases p with
  | admitted => cases hp
  | _ => cases e <;> rfl

/-- A call of a request that has not read an active endpoint brings nothing in. -/
theorem Admission.isIntake_eq_false (hp : p.free = false) {e : Op} (h : p.allows data e) :
    e.isIntake = false := by
  cases p with
  | admitted => cases hp
  | started =>
    rcases h with rfl | ⟨key, -, rfl⟩
    · rfl
    · rfl
  | found row =>
    obtain rfl : e = .commit := h
    rfl
  | _ => cases h

/-- A request that has not read an active endpoint has brought nothing in. -/
theorem admission_isIntake {cs : List (Call relay PyExn)}
    (h : (admissionContract data).Accepts p cs)
    (hend : ((admissionContract data).run p cs).free = false) :
    ∀ x ∈ cs, x.1.isIntake = false := by
  induction cs generalizing p with
  | nil => exact fun x hx => nomatch hx
  | cons c cs ih =>
    have hp : p.free = false := by
      cases p with
      | admitted =>
        have habsorbing (cs : List (Call relay PyExn)) :
            (admissionContract data).run .admitted cs = .admitted := by
          induction cs with
          | nil => rfl
          | cons c cs ih => exact ih
        rw [habsorbing] at hend
        cases hend
      | _ => rfl
    intro x hx
    rcases List.mem_cons.mp hx with rfl | hx
    · exact Admission.isIntake_eq_false hp h.1
    · exact ih h.2 hend x hx

/-- A request that has not read an active endpoint has nothing in its session. -/
theorem admission_tracks (data : EventCreate) :
    Tracks (admissionContract data) (fun p => p.free = false ∧ p ≠ .failed) (fun _ => [])
      .started where
  start := rfl
  ok p e v hallow hlive := by
    change Admission.allows data p e at hallow
    cases p with
    | admitted => exact Bool.noConfusion (hlive.1 : true = false)
    | started =>
      rcases hallow with rfl | ⟨key, -, rfl⟩
      · exact ⟨⟨rfl, nofun⟩, rfl⟩
      · exact ⟨⟨rfl, nofun⟩, rfl⟩
    | found row =>
      obtain rfl : e = .commit := hallow
      exact ⟨⟨rfl, nofun⟩, rfl⟩
    | _ => cases hallow
  error p e x hallow hlive := by
    cases hfree : p.free with
    | true =>
      cases p with
      | admitted => exact Bool.noConfusion (hlive.1 : true = false)
      | _ => cases hfree
    | false => exact hlive.2 (Admission.next_error hfree e x)

/-- A request that has read an active endpoint has read its endpoint. -/
theorem admission_read {cs : List (Call relay PyExn)} (hp : p.free = false)
    (h : (admissionContract data).Accepts p cs)
    (hend : ((admissionContract data).run p cs).free = true) :
    ∃ x ∈ cs, x.1 = .getEndpoint data.endpointId := by
  induction cs generalizing p with
  | nil => exact Bool.noConfusion (hp.symm.trans hend)
  | cons c cs ih =>
    by_cases hread : c.1 = .getEndpoint data.endpointId
    · exact ⟨c, List.mem_cons_self, hread⟩
    · have hnext : (p.next c.1 c.2).free = false := by
        obtain ⟨e, r⟩ := c
        have hallow : p.allows data e := h.1
        cases p with
        | admitted => cases hp
        | started =>
          obtain ⟨key, -, rfl⟩ := hallow.resolve_left hread
          rcases r with x | _ | row <;> rfl
        | found row =>
          obtain rfl : e = .commit := hallow
          cases r <;> rfl
        | _ => cases hallow
      obtain ⟨x, hx, he⟩ := ih hnext h.2 hend
      exact ⟨x, List.mem_cons_of_mem _ hx, he⟩

/-- The event that is answered is one that was found. -/
theorem admission_found {cs : List (Call relay PyExn)} {row : WebhookEvent}
    (h : (admissionContract data).Accepts p cs)
    (hend : (admissionContract data).run p cs = .answered row) :
    p = .answered row ∨ p = .found row ∨ p = .started ∧ ∃ key, data.idempotencyKey = some key ∧
      ⟨.getEventByKey key, .ok (some row)⟩ ∈ cs := by
  induction cs generalizing p with
  | nil => exact Or.inl hend
  | cons c cs ih =>
    obtain ⟨e, r⟩ := c
    have hallow : p.allows data e := h.1
    have hnext : p.next e r = .answered row ∨ p.next e r = .found row ∨
        p.next e r = .started ∧ ∃ key, data.idempotencyKey = some key ∧
          ⟨.getEventByKey key, .ok (some row)⟩ ∈ cs := ih h.2 hend
    cases p with
    | admitted => simp [Admission.next] at hnext
    | found row' =>
      obtain rfl : e = .commit := hallow
      refine Or.inr (Or.inl ?_)
      cases r with
      | error x => simp [Admission.next] at hnext
      | ok v =>
        obtain rfl : row' = row := by simpa [Admission.next] using hnext
        rfl
    | started =>
      refine Or.inr (Or.inr ⟨rfl, ?_⟩)
      rcases hallow with rfl | ⟨key, hkey, rfl⟩
      · rcases r with x | _ | ep
        · simp [Admission.next] at hnext
        · simp [Admission.next] at hnext
        · cases hact : ep.isActive <;> simp [Admission.next, hact] at hnext
      · rcases r with x | _ | row'
        · simp [Admission.next] at hnext
        · obtain ⟨key', hkey', hmem⟩ : ∃ key, data.idempotencyKey = some key ∧
              ⟨.getEventByKey key, .ok (some row)⟩ ∈ cs := by
            simpa [Admission.next] using hnext
          exact ⟨key', hkey', List.mem_cons_of_mem _ hmem⟩
        · obtain rfl : row' = row := by simpa [Admission.next] using hnext
          exact ⟨key, hkey, List.mem_cons_self⟩
    | _ => cases hallow

end phases

/-! ### The contract holds -/

section obeys

variable {data : EventCreate}

/-- The program meets the contract from a phase on, and ends as a request may. -/
abbrev Admits (data : EventCreate) (p : Admission) (q : Relay Reply) : Prop :=
  q.Obeys (admissionContract data) Admission.ends p

/-- With an active endpoint, everything goes. -/
theorem admits_admitted (q : Relay Reply) : Admits data .admitted q := by
  induction q with
  | done a => trivial
  | raised x => trivial
  | call e k ih => exact ⟨trivial, fun r => ih r⟩

/-- One call, and then the rest; when the call fails the request has failed. -/
theorem admits_bind {p : Admission} (hp : p.free = false) (e : Op) {f : e.Resp → Relay Reply}
    (ha : p.allows data e) (hf : ∀ v, Admits data (p.next e (.ok v)) (f v)) :
    Admits data p (Prog.perform (I := relay) e >>= f) := by
  refine (Prog.obeys_perform_bind (I := relay) e f).mpr ⟨ha, hf, fun x => ?_⟩
  change Admission.ends _ (p.next e (.error x))
  rw [Admission.next_error hp]
  trivial

/-- The request from the read of the endpoint on. -/
theorem admits_ingest : Admits data .started
    (Api.ingest data >>= fun row => commit >>= fun _ => Prog.done (.event row)) := by
  unfold Api.ingest
  simp only [bind_assoc]
  refine admits_bind rfl (.getEndpoint data.endpointId) (Or.inl rfl) fun endpoint => ?_
  cases endpoint with
  | none => trivial
  | some endpoint =>
    change Admits data (if endpoint.isActive then .admitted else .refused) _
    cases hact : endpoint.isActive with
    | true => exact admits_admitted _
    | false =>
      simp only [Api.found, Prog.pure_eq_done, Prog.done_bind, hact]
      exact rfl

/-- **The contract holds**: every request for an event, whatever its calls are answered. -/
theorem createEvent_admits (data : EventCreate) :
    Admits data .started (Request.createEvent data).program := by
  have hprogram : (Request.createEvent data).program = Api.lookup data >>= fun existing =>
      existing.elim (Api.ingest data) pure >>= fun row =>
        commit >>= fun _ => Prog.done (.event row) := by
    change (Reply.event <$> Api.getDb (Api.createEvent data)) = _
    unfold Api.getDb Api.createEvent
    rw [← bind_pure_comp]
    simp only [bind_assoc]
    refine congrArg (Api.lookup data >>= ·) (funext fun existing => ?_)
    cases existing <;> rfl
  rw [hprogram]
  unfold Api.lookup
  cases hkey : data.idempotencyKey with
  | none => exact admits_ingest
  | some key =>
    dsimp only
    split_ifs with hempty
    · exact admits_ingest
    · refine admits_bind rfl (.getEventByKey key) (Or.inr ⟨key, hkey, rfl⟩) fun existing => ?_
      cases existing with
      | none => exact admits_ingest
      | some row => exact admits_bind rfl .commit rfl fun _ => rfl

end obeys

end WebhookRelay
