import WebhookRelay.Delivery.Contract
import WebhookRelay.Runs.Steps

/-!
# The calls of a coroutine

What a coroutine may write depends on where it comes from: a request of `create_event` inserts the
event it brings, a replay inserts the events of entries and marks these entries, and a worker makes
the calls of a run of `deliver`. `program_makes` goes through the programs once; what holds of the
calls of some coroutines is then a case analysis over `Origin.Makes`.
-/

namespace WebhookRelay

open Data Effect

/-! ### The calls -/

/-- The coroutine replays entries. -/
def Origin.IsReplay : Origin → Prop
  | .request (.replay _ _) => True
  | .request (.replayBulk _ _ _) => True
  | _ => False

/-- The calls of a coroutine, with the rows that it writes. -/
inductive Origin.Makes (o : Origin) : Op → Prop where
  | silent {e : Op} (h : e.writes = []) : Makes o e
  | insertEndpoint (r : WebhookEndpoint) : Makes o (.insertEndpoint r)
  | flushEndpoint (old new : WebhookEndpoint) : Makes o (.flushEndpoint old new)
  | deactivate (id : UUID) : Makes o (.deactivateEndpoint id)
  | discard (id : UUID) : Makes o (.deleteDeadLetter id)
  | create {data : EventCreate} (ho : o = .request (.createEvent data)) (id : UUID)
    (now : Datetime) : Makes o (.insertEvent (Api.newEvent data id now))
  | replay (ho : o.IsReplay) (entry : DeadLetterEvent) (id : UUID) (now : Datetime) :
    Makes o (.insertEvent (ReplayService.replayEvent entry id now))
  | mark (ho : o.IsReplay) (old new : DeadLetterEvent) : Makes o (.flushDeadLetter old new)
  | deliver {e : Op} (h : e.Delivering) : Makes o e

/-! ### The programs -/

/-- The check of the last replay only reads the clock. -/
theorem calls_checkRecent {A : Op → Prop} (hnow : A .now) (entry : DeadLetterEvent)
    (force : Bool) : (ReplayService.checkRecent entry force).Calls A := by
  unfold ReplayService.checkRecent
  split_ifs
  · cases entry.replayedAt with
    | none => exact Prog.calls_done _
    | some t =>
      refine (calls_nowPlusSeconds hnow _).bind fun hourAgo => ?_
      split_ifs
      · exact Prog.calls_raised _
      · exact Prog.calls_done _
  · exact Prog.calls_done _

section programs

variable {α : Type} {o : Origin}

/-- A call without statements. -/
theorem makes_perform {e : Op} (h : e.writes = []) :
    (Prog.perform (I := relay) e : Relay e.Resp).Calls o.Makes := Prog.calls_perform (.silent h)

theorem makes_commit : commit.Calls o.Makes := makes_perform rfl

theorem makes_getDb {handler : Relay α} (h : handler.Calls o.Makes) :
    (Api.getDb handler).Calls o.Makes :=
  h.bind fun _ => makes_commit.bind fun _ => Prog.calls_done _

theorem makes_found (detail : Str) (x : Option α) : (Api.found detail x).Calls o.Makes := by
  cases x with
  | none => exact Prog.calls_raised _
  | some a => exact Prog.calls_done a

theorem makes_flushEndpoint (old new : WebhookEndpoint) :
    (flushEndpoint old new).Calls o.Makes := Prog.calls_perform (.flushEndpoint old new)

/-- The handlers of the endpoints. -/
theorem makes_endpoints : (∀ data, (Api.createEndpoint data).Calls o.Makes) ∧
    (∀ id data, (Api.updateEndpoint id data).Calls o.Makes) ∧
    (∀ id, (Api.deleteEndpoint id).Calls o.Makes) ∧
    ∀ id, (Api.rotateSecret id).Calls o.Makes := by
  have hget (id : UUID) : (EndpointRepository.getById id).Calls o.Makes := makes_perform rfl
  have htoken : tokenHex.Calls o.Makes := makes_perform rfl
  refine ⟨fun data => ?_, fun id data => ?_, fun id => ?_, fun id => ?_⟩
  · exact htoken.bind fun _ => Prog.Calls.bind (makes_perform rfl) fun _ =>
      Prog.Calls.bind (Prog.calls_perform (.insertEndpoint _)) fun _ => Prog.calls_done _
  · refine Prog.Calls.bind ((hget id).bind fun row => ?_) fun _ => makes_found _ _
    cases row with
    | none => exact Prog.calls_done _
    | some endpoint => exact (makes_flushEndpoint _ _).bind fun _ => Prog.calls_done _
  · refine Prog.Calls.bind (q := EndpointRepository.deactivate id)
      (Prog.calls_perform (.deactivate id)) fun there => ?_
    cases there with
    | true => exact Prog.calls_done _
    | false => exact Prog.calls_raised _
  · refine Prog.Calls.bind ((hget id).bind fun row => ?_) fun _ => makes_found _ _
    cases row with
    | none => exact Prog.calls_done _
    | some endpoint =>
      exact htoken.bind fun _ => (makes_flushEndpoint _ _).bind fun _ => Prog.calls_done _

/-- A new event. -/
theorem makes_create {row : UUID → Datetime → WebhookEvent}
    (h : ∀ id t, o.Makes (.insertEvent (row id t))) :
    (EventRepository.create row).Calls o.Makes :=
  Prog.Calls.bind (makes_perform rfl) fun id => Prog.Calls.bind (makes_perform rfl) fun t =>
    Prog.Calls.bind (Prog.calls_perform (h id t)) fun _ => Prog.calls_done _

theorem makes_createEvent {data : EventCreate} (ho : o = .request (.createEvent data)) :
    (Api.createEvent data).Calls o.Makes := by
  have hlookup : (Api.lookup data).Calls o.Makes := by
    unfold Api.lookup
    cases data.idempotencyKey with
    | none => exact Prog.calls_done _
    | some key =>
      dsimp only
      split_ifs
      · exact Prog.calls_done _
      · exact makes_perform rfl
  refine hlookup.bind fun existing => ?_
  cases existing with
  | some r => exact Prog.calls_done r
  | none =>
    refine Prog.Calls.bind (q := EndpointRepository.getById data.endpointId) (makes_perform rfl)
      fun row => (makes_found _ row).bind fun endpoint => ?_
    split_ifs
    · exact Prog.calls_raised _
    · exact Prog.calls_raised _
    · exact (makes_create (.create ho)).bind fun event =>
        Prog.Calls.bind (makes_perform rfl) fun _ => Prog.calls_done _

theorem makes_replaySingle (ho : o.IsReplay) (id : UUID) (force own : Bool) :
    (ReplayService.replaySingle id force own).Calls o.Makes := by
  have hcommit : (ReplayService.commitOwn own).Calls o.Makes := by
    unfold ReplayService.commitOwn
    split_ifs
    · exact makes_commit
    · exact Prog.calls_done _
  have hmark (entry : DeadLetterEvent) :
      (DeadLetterRepository.markReplayed entry).Calls o.Makes :=
    Prog.Calls.bind (makes_perform rfl) fun _ =>
      Prog.Calls.bind (Prog.calls_perform (.mark ho _ _)) fun _ => Prog.calls_done _
  refine Prog.Calls.bind (q := DeadLetterRepository.getById id) (makes_perform rfl) fun row => ?_
  cases row with
  | none => exact Prog.calls_raised _
  | some entry =>
    exact (calls_checkRecent (.silent rfl) entry force).bind fun _ =>
      (makes_create (.replay ho entry)).bind fun event => (hmark entry).bind fun entry' =>
      Prog.Calls.bind (makes_perform rfl) fun _ => hcommit.bind fun _ =>
      Prog.Calls.bind (makes_perform rfl) fun _ => Prog.calls_done _

/-- The loop of a bulk replay, by induction on the entries that are left. -/
theorem makes_replayEach (ho : o.IsReplay) (force : Bool) (entries : List DeadLetterEvent) :
    ∀ (results : List ReplayResult) (errors : ℕ),
      (ReplayService.replayEach force entries results errors).Calls o.Makes := by
  induction entries with
  | nil => exact fun _ _ => Prog.calls_done _
  | cons entry entries ih =>
    intro results errors
    refine Prog.Calls.bind (makes_replaySingle ho entry.id force false).attempt fun r => ?_
    cases r with
    | ok result => exact ih _ _
    | error x =>
      dsimp only
      split_ifs
      · exact ih _ _
      · exact Prog.calls_raised x

/-- The loop of a poll, by induction on the events that are left. -/
theorem makes_enqueueEach (events : List WebhookEvent) :
    ∀ enqueued : ℕ, (Worker.enqueueEach events enqueued).Calls o.Makes := by
  induction events with
  | nil => exact fun _ => Prog.calls_done _
  | cons event events ih =>
    intro enqueued
    have henqueue : (enqueueJob event.id).Calls o.Makes := makes_perform rfl
    refine henqueue.attempt.bind fun r => ?_
    cases r with
    | ok _ => exact ih _
    | error x =>
      dsimp only
      split_ifs
      · exact ih _
      · exact Prog.calls_raised x

theorem makes_pollPendingRetries : Worker.pollPendingRetries.Calls o.Makes := by
  have hdue : (EventRepository.getDueForRetry 500).Calls o.Makes :=
    Prog.Calls.bind (makes_perform rfl) fun _ => makes_perform rfl
  have hstale : (EventRepository.getStalePending 120 100).Calls o.Makes :=
    (calls_nowPlusSeconds (.silent rfl) _).bind fun _ => makes_perform rfl
  exact hdue.bind fun due => hstale.bind fun stale => makes_enqueueEach (due ++ stale) 0

theorem makes_discardDlqEntry (id : UUID) : (Api.discardDlqEntry id).Calls o.Makes := by
  refine Prog.Calls.bind (q := DeadLetterRepository.deleteEntry id)
    (Prog.calls_perform (.discard id)) fun there => ?_
  cases there with
  | true => exact Prog.calls_done _
  | false => exact Prog.calls_raised _

theorem makes_globalStats : Api.globalStats.Calls o.Makes :=
  Prog.Calls.bind (makes_perform rfl) fun _ => Prog.Calls.bind (makes_perform rfl) fun _ =>
    Prog.Calls.bind (makes_perform rfl) fun _ => Prog.calls_done _

/-- **A coroutine makes no other call.** -/
theorem program_makes (deps : Deps) (o : Origin) : (o.program deps).Calls o.Makes := by
  have hjob (id : UUID) : (jobProgram deps id).Calls o.Makes :=
    Prog.Calls.map ((calls_deliver (fun _ => .deliver) deps id).bind fun _ => Prog.calls_done _) _
  cases o with
  | job id => exact hjob id
  | reaped id => exact hjob id
  | cron => exact makes_pollPendingRetries.map _
  | request r =>
    cases r with
    | createEndpoint data => exact (makes_getDb (makes_endpoints.1 data)).map _
    | updateEndpoint id data => exact (makes_getDb (makes_endpoints.2.1 id data)).map _
    | deleteEndpoint id => exact (makes_getDb (makes_endpoints.2.2.1 id)).map _
    | rotateSecret id => exact (makes_getDb (makes_endpoints.2.2.2 id)).map _
    | createEvent data => exact (makes_getDb (makes_createEvent rfl)).map _
    | replay id force =>
      have hreplay : Origin.IsReplay (.request (.replay id force)) := trivial
      refine Prog.Calls.map (Prog.Calls.bind (makes_replaySingle hreplay id force true).attempt
        fun r => ?_) _
      rcases r with x | result
      · cases x <;> exact Prog.calls_raised _
      · exact Prog.calls_done result
    | replayBulk endpointId eventType force =>
      have hreplay : Origin.IsReplay (.request (.replayBulk endpointId eventType force)) := trivial
      refine Prog.Calls.map (Prog.Calls.bind
        (q := DeadLetterRepository.getUnreplayedByFilter endpointId eventType) (makes_perform rfl)
        fun entries => (makes_replayEach hreplay force entries [] 0).bind fun _ => ?_) _
      exact makes_commit.bind fun _ => Prog.calls_done _
    | discard id => exact (makes_getDb (makes_discardDlqEntry id)).map _
    | stats => exact (makes_getDb makes_globalStats).map _

end programs

end WebhookRelay
