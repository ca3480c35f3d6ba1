import WebhookRelay.Runs.Audit
import WebhookRelay.Runs.Posts

/-!
# Where the content that is delivered comes from

The content of an event is its endpoint, its type and its payload. It is copied along: from the
body of a `create_event` request into the event, from an event into its dead letter entry, from an
entry into the event of a replay, which may be dead-lettered and replayed again, and from an event
into the body of a POST. `content_provenance` says that nothing is lost or altered on the way, over
any number of generations: in every reachable state every event, every dead letter entry and the
body of every POST have a content that some request has submitted (`Submitted`), and a POST goes to
the endpoint it was submitted for.

A replay copies the entry it has read (`Copies`, `program_copies`); a run of `deliver` records the
event it has read (`Exit.Valid`). Between them stand the tables and the objects of the sessions,
which keep contents (`Db.Knows`, `Reaches.known`).
-/

namespace WebhookRelay

open Data Effect

/-! ### Contents -/

/-- What is delivered, and to whom. -/
structure Content where
  endpointId : UUID
  eventType : Str
  payload : List (PyStr × Json)

/-- The content a request submits. -/
def EventCreate.content (data : EventCreate) : Content :=
  ⟨data.endpointId, data.eventType, data.payload⟩

/-- The content of an event. -/
def WebhookEvent.content (r : WebhookEvent) : Content := ⟨r.endpointId, r.eventType, r.payload⟩

/-- The content of an entry of the dead letter queue. -/
def DeadLetterEvent.content (d : DeadLetterEvent) : Content :=
  ⟨d.endpointId, d.eventType, d.originalPayload⟩

/-- An event keeps its content. -/
theorem WebhookEvent.Later.content {r r' : WebhookEvent} (h : r.Later r') :
    r'.content = r.content := by
  unfold WebhookEvent.content
  rw [h.endpointId, h.eventType, h.payload]

/-! ### Tables -/

/-- The contents of the rows have the property `A`. -/
structure Db.Knows (A : Content → Prop) (db : Db) : Prop where
  events : ∀ r ∈ db.events.rows, A r.content
  deadLetters : ∀ d ∈ db.deadLetters.rows, A d.content

/-- The content that a statement brings into the tables has the property `A`. -/
def Write.Brings (A : Content → Prop) : Write → Prop
  | .insertEvent r => A r.content
  | .insertDeadLetter d => A d.content
  | _ => True

section tables

variable {A : Content → Prop} {db : Db}

theorem mem_insert {ρ κ : Type} [DecidableEq κ] {key : ρ → κ} {T : Table ρ key} {r x : ρ}
    (h : x ∈ (T.insert r).rows) : x ∈ T.rows ∨ x = r := by
  unfold Table.insert at h
  split_ifs at h
  · exact Or.inl h
  · exact (List.mem_append.mp h).imp_right List.mem_singleton.mp

/-- A changed row has the content of the row. -/
theorem mem_modify {ρ κ : Type} [DecidableEq κ] {key : ρ → κ} {T : Table ρ key} {k : κ}
    {f : ρ → ρ} (hf : ∀ r, key (f r) = key r) (content : ρ → Content)
    (hcontent : ∀ r, content (f r) = content r) {x : ρ} (h : x ∈ (T.modify k f hf).rows) :
    ∃ r ∈ T.rows, content x = content r := by
  obtain ⟨r, hr, rfl⟩ := List.mem_map.mp h
  refine ⟨r, hr, ?_⟩
  split_ifs
  · exact hcontent r
  · rfl

/-- A statement changes no content. -/
theorem Db.Knows.apply (h : db.Knows A) {w : Write} (hw : w.Brings A) : (db.apply w).Knows A := by
  cases w with
  | insertEvent r =>
    refine ⟨fun x hx => ?_, h.deadLetters⟩
    rcases mem_insert hx with hx | rfl
    · exact h.events x hx
    · exact hw
  | insertDeadLetter d =>
    refine ⟨h.events, fun x hx => ?_⟩
    rcases mem_insert hx with hx | rfl
    · exact h.deadLetters x hx
    · exact hw
  | updateEvent id u =>
    refine ⟨fun x hx => ?_, h.deadLetters⟩
    obtain ⟨r, hr, hcontent⟩ := mem_modify u.apply_id WebhookEvent.content (fun _ => rfl) hx
    rw [hcontent]
    exact h.events r hr
  | updateDeadLetter id u =>
    refine ⟨h.events, fun x hx => ?_⟩
    obtain ⟨r, hr, hcontent⟩ := mem_modify u.apply_id DeadLetterEvent.content (fun _ => rfl) hx
    rw [hcontent]
    exact h.deadLetters r hr
  | deleteDeadLetter id =>
    exact ⟨h.events, fun x hx => h.deadLetters x (List.mem_of_mem_filter hx)⟩
  | _ => exact ⟨h.events, h.deadLetters⟩

theorem Db.Knows.applyAll {ws : List Write} (h : db.Knows A) (hws : ∀ w ∈ ws, w.Brings A) :
    (db.applyAll ws).Knows A := by
  induction ws generalizing db with
  | nil => exact h
  | cons w ws ih =>
    exact ih (h.apply (hws w List.mem_cons_self)) fun w' hw' => hws w' (List.mem_cons_of_mem _ hw')

end tables

/-! ### What a replay copies -/

/-- The call reads an entry, changes one, or inserts an event. -/
def Op.copies : Op → Bool
  | .getDeadLetter _ => true
  | .flushDeadLetter _ _ => true
  | .insertEvent _ => true
  | _ => false

/-- One of the calls has read an entry with this content. -/
def ReadEntry (cs : List (Call relay PyExn)) (content : Content) : Prop :=
  ∃ id x, (⟨.getDeadLetter id, .ok (some x)⟩ : Call relay PyExn) ∈ cs ∧ x.content = content

/-- What a replay inserts or changes has the content of an entry that it has read. -/
def Copies (cs : List (Call relay PyExn)) : Op → Prop
  | .insertEvent r => ReadEntry cs r.content
  | .flushDeadLetter _ new => ReadEntry cs new.content
  | _ => True

theorem Copies.mono {cs cs' : List (Call relay PyExn)} {e : Op} (h : Copies cs e)
    (hcs : ∀ x ∈ cs, x ∈ cs') : Copies cs' e := by
  have hread {content : Content} (h : ReadEntry cs content) : ReadEntry cs' content := by
    obtain ⟨id, x, hx, hcontent⟩ := h
    exact ⟨id, x, hcs _ hx, hcontent⟩
  cases e <;> first | exact hread h | trivial

/-- The program copies what it reads, after these calls. -/
abbrev Copying {α : Type} (cs : List (Call relay PyExn)) (q : Relay α) : Prop :=
  q.Obeys (.watching Op.copies Copies) (fun _ _ => True) cs

section copying

variable {α β : Type} {cs : List (Call relay PyExn)}

theorem copying_bind_free {q : Relay α} (hq : q.Calls fun e : Op => e.copies = false)
    {f : α → Relay β} (hf : ∀ a, Copying cs (f a)) : Copying cs (q >>= f) :=
  Prog.watching_bind_free hq.free (fun a _ => hf a) fun _ => trivial

theorem copying_bind_call {e : Op} (he : e.copies = true) (hmay : Copies cs e)
    {f : e.Resp → Relay β} (hf : ∀ v, Copying (cs ++ [⟨e, .ok v⟩]) (f v)) :
    Copying cs (Prog.perform (I := relay) e >>= f) :=
  Prog.watching_bind_watched he hmay hf fun _ => trivial

/-- Two parts that copy what they read, whatever was read before. -/
theorem copying_bind {q : Relay α} (hq : ∀ cs, Copying cs q) {f : α → Relay β}
    (hf : ∀ a cs, Copying cs (f a)) (cs : List (Call relay PyExn)) : Copying cs (q >>= f) := by
  refine (Prog.obeys_bind q f).mpr ((hq cs).mono fun r cs' _ => ?_)
  cases r with
  | ok a => exact hf a cs'
  | error x => trivial

/-- A call that is not one of these. -/
theorem uncopied_perform {e : Op} (he : e.copies = false) :
    (Prog.perform (I := relay) e : Relay e.Resp).Calls fun e : Op => e.copies = false :=
  Prog.calls_perform he

/-- One replay: it reads an entry, and what it inserts and changes is that entry. -/
theorem copying_replaySingle (id : UUID) (force own : Bool) (cs : List (Call relay PyExn)) :
    Copying cs (ReplayService.replaySingle id force own) := by
  unfold ReplayService.replaySingle
  refine copying_bind_call (e := .getDeadLetter id) rfl trivial fun row => ?_
  rcases row with _ | entry
  · trivial
  have hread {cs' : List (Call relay PyExn)} (hcs : ∀ x ∈ cs ++
      [(⟨.getDeadLetter id, .ok (some entry)⟩ : Call relay PyExn)], x ∈ cs') :
      ReadEntry cs' entry.content :=
    ⟨id, entry, hcs _ (List.mem_append_right _ (List.mem_singleton_self _)), rfl⟩
  refine copying_bind_free
    (calls_checkRecent (A := fun e => e.copies = false) rfl entry force) fun _ => ?_
  unfold EventRepository.create DeadLetterRepository.markReplayed
  simp only [bind_assoc]
  refine copying_bind_free (q := uuid4) (uncopied_perform rfl) fun u => ?_
  refine copying_bind_free (q := now) (uncopied_perform rfl) fun t => ?_
  refine copying_bind_call (e := .insertEvent (ReplayService.replayEvent entry u t)) rfl
    (hread fun _ hx => hx) fun _ => ?_
  refine copying_bind_free (q := now) (uncopied_perform rfl) fun t' => ?_
  refine copying_bind_call
    (e := .flushDeadLetter entry (DeadLetterRepository.replayed entry t')) rfl
    (hread fun _ hx => List.mem_append_left _ hx) fun _ => ?_
  refine copying_bind_free (q := resetCircuit entry.endpointId) (uncopied_perform rfl)
    fun _ => ?_
  refine copying_bind_free (q := ReplayService.commitOwn own) ?_ fun _ => ?_
  · unfold ReplayService.commitOwn
    split_ifs
    · exact uncopied_perform rfl
    · exact Prog.calls_done _
  · exact copying_bind_free (q := enqueueJob u) (uncopied_perform rfl) fun _ => trivial

/-- The loop of a bulk replay, by induction on the entries that are left. -/
theorem copying_replayEach (force : Bool) (entries : List DeadLetterEvent) :
    ∀ (results : List ReplayResult) (errors : ℕ) (cs : List (Call relay PyExn)),
      Copying cs (ReplayService.replayEach force entries results errors) := by
  induction entries with
  | nil => exact fun _ _ _ => trivial
  | cons entry entries ih =>
    intro results errors
    refine copying_bind (fun cs => (Prog.obeys_attempt _).mpr
      (copying_replaySingle entry.id force false cs)) fun r cs => ?_
    cases r with
    | ok result => exact ih _ _ cs
    | error x =>
      dsimp only
      split_ifs
      · exact ih _ _ cs
      · trivial

/-- **A replay copies the entries that it reads.** -/
theorem program_copies (deps : Deps) {o : Origin} (ho : o.IsReplay) :
    Copying [] (o.program deps) := by
  cases o with
  | request r =>
    cases r with
    | replay id force =>
      refine (Prog.obeys_map _ _).mpr ?_
      refine copying_bind (fun cs => (Prog.obeys_attempt _).mpr
        (copying_replaySingle id force true cs)) (fun r cs => ?_) []
      rcases r with x | result
      · cases x <;> trivial
      · trivial
    | replayBulk endpointId eventType force =>
      refine (Prog.obeys_map _ _).mpr ?_
      refine copying_bind_free
        (q := DeadLetterRepository.getUnreplayedByFilter endpointId eventType)
        (uncopied_perform rfl) fun entries => ?_
      refine copying_bind (fun cs => copying_replayEach force entries [] 0 cs) (fun _ cs => ?_) []
      exact copying_bind_free (q := commit) (uncopied_perform rfl) fun _ => trivial
    | _ => exact ho.elim
  | _ => exact ho.elim

end copying

variable {deps : Deps} {ok : Config → Action → Prop} {c c' : Config} {a : Action}
  {th : Coroutine}

/-! ### The statements of a coroutine -/

section statements

/-- What a coroutine has in its session, it has made. -/
theorem Reaches.pending_made (h : Reaches deps ok c) :
    ∀ th ∈ c.threads, ∀ w ∈ th.session.pending, w ∈ statementsOf th.trace := by
  refine h.invariant (J := fun c => ∀ th ∈ c.threads, ∀ w ∈ th.session.pending,
    w ∈ statementsOf th.trace) (fun _ _ hth => nomatch hth) fun c a c' _ hc _ hs => ?_
  refine (stepped hs).forall_threads hc (fun _ _ _ _ h => h) (fun _ _ _ _ hw => nomatch hw) ?_
    (fun _ _ _ _ hw => nomatch hw) fun _ _ _ _ _ _ h => h
  intro t th e k r w s _ _ ha _ hth x hx
  show x ∈ statementsOf (th.trace ++ [⟨e, r⟩])
  rw [statementsOf_append_singleton]
  change x ∈ (if (k r).ended then Session.fresh else s).pending at hx
  split_ifs at hx
  · cases hx
  · exact List.mem_append.mpr ((ha.mem_pending hx).imp_left (hth x))

/-- An event that a coroutine inserts comes from the request it is, or copies an entry it has
read. -/
theorem Reaches.insertEvent_cases (h : Reaches deps ok c) (hth : th ∈ c.threads)
    {r : WebhookEvent} (hr : Write.insertEvent r ∈ statementsOf th.trace) :
    (∃ data id now, th.origin = .request (.createEvent data) ∧ r = Api.newEvent data id now) ∨
      ReadEntry th.trace r.content := by
  obtain ⟨⟨e, x⟩, hx, hw⟩ := List.mem_flatMap.mp hr
  have hmakes : th.origin.Makes e :=
    Contract.of_accepts_only (h.obeys hth (program_makes deps th.origin)).1 _ hx
  cases Op.emits_of_mem hw with
  | insertEvent =>
    have hcopies (ho : th.origin.IsReplay) : ReadEntry th.trace r.content := by
      have haccept := (h.obeys hth (program_copies deps ho)).1
      have hmem : (⟨.insertEvent r, x⟩ : Call relay PyExn) ∈ transcript Op.copies th.trace :=
        (mem_transcript rfl).mpr hx
      obtain ⟨pre, post, hsplit⟩ := List.append_of_mem hmem
      have hmay := Contract.may_of_accepts haccept hsplit
      refine Copies.mono (e := .insertEvent r) hmay fun y hy => ?_
      exact List.mem_of_mem_filter (hsplit ▸ List.mem_append_left _ hy)
    cases hmakes with
    | silent hnone => cases hnone
    | create ho id now => exact Or.inl ⟨_, id, now, ho, rfl⟩
    | replay ho entry id now => exact Or.inr (hcopies ho)
    | deliver hd => cases hd

/-- Only replays make the calls of a replay. -/
theorem Reaches.isReplay (h : Reaches deps ok c) (hth : th ∈ c.threads) {e : Op}
    {k : Except PyExn e.Resp → Relay Reply} (hp : th.prog = .call e k) (he : e.replays = true) :
    th.origin.IsReplay := by
  cases ho : th.origin.delivers with
  | none =>
    rcases (h.obeys hth (program_asks deps ho)).2 with hobeys | hcut
    · rw [hp] at hobeys
      exact hobeys.1.replays he
    · rw [hp] at hcut
      cases hcut
  | some id =>
    rcases (h.obeys hth (program_not_replays deps ho)).2 with hobeys | hcut
    · rw [hp] at hobeys
      exact Bool.noConfusion (he.symm.trans hobeys.1)
    · rw [hp] at hcut
      cases hcut

/-- The next call of a coroutine, if it changes an entry. -/
theorem Reaches.flushing_copies (h : Reaches deps ok c) (hth : th ∈ c.threads)
    {old new : DeadLetterEvent} {k : Except PyExn Unit → Relay Reply}
    (hp : th.prog = .call (.flushDeadLetter old new) k) : ReadEntry th.trace new.content := by
  have ho : th.origin.IsReplay := h.isReplay hth hp rfl
  rcases (h.obeys hth (program_copies deps ho)).2 with hobeys | hcut
  · rw [hp, Contract.run_watching] at hobeys
    exact Copies.mono (e := .flushDeadLetter old new) (hobeys.1 rfl) fun y hy =>
      List.mem_of_mem_filter hy
  · rw [hp] at hcut
    cases hcut

end statements

/-! ### What is known in a reachable state -/

/-- A request has submitted the content, and the event that it has inserted is committed. -/
def Submitted (c : Config) (content : Content) : Prop :=
  ∃ (t : ℕ) (th : Coroutine) (data : EventCreate) (id : UUID) (now : Datetime),
    c.threads[t]? = some th ∧ th.origin = .request (.createEvent data) ∧
    data.content = content ∧ Write.insertEvent (Api.newEvent data id now) ∈ statementsOf th.trace ∧
    Write.insertEvent (Api.newEvent data id now) ∈ c.world.wal

theorem statementsOf_subset {cs cs' : List (Call relay PyExn)} (h : cs <+: cs') :
    ∀ w ∈ statementsOf cs, w ∈ statementsOf cs' := by
  obtain ⟨rest, rfl⟩ := h
  unfold statementsOf
  rw [List.flatMap_append]
  exact fun w hw => List.mem_append_left _ hw

/-- What was submitted stays so. -/
theorem Submitted.step {content : Content} (h : Submitted c content) (hs : Stepped deps c a c') :
    Submitted c' content := by
  obtain ⟨t, th, data, id, now, hth, ho, hcontent, hmade, hwal⟩ := h
  obtain ⟨th', hth', hprefix, horigin⟩ := hs.kept hth
  exact ⟨t, th', data, id, now, hth', horigin _ ho, hcontent, statementsOf_subset hprefix _ hmade,
    hs.wal_grows.subset hwal⟩

/-- The contents in the tables, in the objects of the sessions, and among what was read. -/
structure Known (c : Config) : Prop where
  tables : c.world.db.Knows (Submitted c)
  events : ∀ th ∈ c.threads, ∀ id ev ep, readCall id ev ep ∈ th.trace → Submitted c ev.content
  read : ∀ th ∈ c.threads, ∀ content, ReadEntry th.trace content → Submitted c content
  loaded : ∀ th ∈ c.threads, ∀ d ∈ th.session.loaded, Submitted c d.content

theorem mem_loaded_load {s : Session} {d x : DeadLetterEvent} (h : x ∈ (s.load d).loaded) :
    x = d ∨ x ∈ s.loaded :=
  (List.mem_cons.mp h).imp_right List.mem_of_mem_filter

theorem mem_loaded_foldl {rows : List DeadLetterEvent} {s : Session} {x : DeadLetterEvent}
    (h : x ∈ (rows.foldl Session.load s).loaded) : x ∈ rows ∨ x ∈ s.loaded := by
  induction rows generalizing s with
  | nil => exact Or.inr h
  | cons d rows ih =>
    rcases ih h with hx | hx
    · exact Or.inl (List.mem_cons_of_mem _ hx)
    · rcases mem_loaded_load hx with rfl | hx
      · exact Or.inl List.mem_cons_self
      · exact Or.inr hx

/-- The objects of a session after a call: they were there before, are rows that it sees, or the
call has changed them. -/
theorem mem_loaded_exec {o : Oracle} {e : Op} {w : World} {s : Session} {x : DeadLetterEvent}
    (h : x ∈ (exec o e w s).2.2.loaded) : x ∈ s.loaded ∨ e.replays = true ∧
      (x ∈ (w.view s).deadLetters.rows ∨ ∃ old, e = .flushDeadLetter old x) := by
  have hflushed {α : Type} (e : Op) (a : α) (s' : Session)
      (h : x ∈ (flushed e a w s').2.2.loaded) : x ∈ s'.loaded := by
    unfold flushed at h
    split at h <;> exact h
  cases e with
  | getDeadLetter id =>
    rw [exec_getDeadLetter] at h
    split at h
    · exact Or.inl h
    · split at h
      · rename_i row hrow
        rcases mem_loaded_load h with rfl | h
        · exact Or.inr ⟨rfl, Or.inl (Table.mem_of_get? hrow)⟩
        · exact Or.inl h
      · exact Or.inl h
  | selectDeadLetters endpointId eventType limit =>
    rcases mem_loaded_foldl (hflushed _ _ _ h) with hx | hx
    · obtain ⟨row, hrow, rfl⟩ := List.mem_map.mp hx
      rcases (object_cases s row).2 with hobject | hobject
      · exact Or.inl hobject
      · rw [hobject]
        exact Or.inr ⟨rfl, Or.inl (mem_selectDeadLetters hrow)⟩
    · exact Or.inl hx
  | flushDeadLetter old new =>
    rcases mem_loaded_load (hflushed _ _ _ h) with rfl | hx
    · exact Or.inr ⟨rfl, Or.inr ⟨old, rfl⟩⟩
    · exact Or.inl hx
  | commit => exact Or.inl h
  | enqueueJob id =>
    rw [exec_enqueueJob] at h
    split at h <;> exact Or.inl h
  | post req =>
    rw [exec_post] at h
    split at h <;> exact Or.inl h
  | getEventByKey _ | insertEndpoint _ | flushEndpoint _ _ | deactivateEndpoint _ | insertEvent _
  | flushEvent _ _ | insertAttempt _ | insertDeadLetter _ | deleteDeadLetter _ =>
    exact Or.inl (hflushed _ _ _ h)
  | _ => exact Or.inl h

section known

/-- What a replay has in its session is known. -/
theorem Reaches.brings_of_replay (h : Reaches deps ok c) (hknown : Known c) (hth : th ∈ c.threads)
    (ho : th.origin.IsReplay) : ∀ w ∈ th.session.pending, w.Brings (Submitted c) := by
  intro w hw
  have hdelivers : th.origin.delivers = none := by
    cases horigin : th.origin <;> rw [horigin] at ho <;> first | rfl | exact ho.elim
  have hbenign := (h.lawful th hth).benign hdelivers w hw
  cases w with
  | insertEvent r =>
    rcases h.insertEvent_cases hth (h.pending_made th hth _ hw) with
      ⟨data, id, now, horigin, -⟩ | hread
    · rw [horigin] at ho
      exact ho.elim
    · exact hknown.read th hth _ hread
  | insertDeadLetter d => exact hbenign.elim
  | _ => trivial

theorem brings_flush {A : Content → Prop} {old new : WebhookEvent} :
    ∀ w ∈ flush old new, w.Brings A := by
  intro w hw
  unfold flush at hw
  split_ifs at hw
  · cases hw
  · rw [List.mem_singleton.mp hw]
    trivial

theorem brings_goneWrites {A : Content → Prop} {ep : WebhookEndpoint} {row : DeliveryAttempt} :
    ∀ w ∈ goneWrites ep row, w.Brings A := by
  intro w hw
  unfold goneWrites at hw
  split_ifs at hw
  · rw [List.mem_singleton.mp hw]
    trivial
  · cases hw

/-- The entry of an exit has the content of the event that was read. -/
theorem Exit.Valid.content {x : Exit} {ev : WebhookEvent} {ep : WebhookEndpoint}
    (hx : x.Valid ev ep) (hendpoint : ep.id = ev.endpointId) {d : DeadLetterEvent}
    (hd : x.deadLetter? = some d) : d.content = ev.content := by
  have hrecords := hx.records hd
  unfold DeadLetterEvent.content WebhookEvent.content
  rw [hrecords.endpointId, hrecords.eventType, hrecords.payload, hendpoint]

/-- An exit brings nothing but its entry. -/
theorem Exit.brings {x : Exit} {ev : WebhookEvent} {ep : WebhookEndpoint} {A : Content → Prop}
    (hentry : ∀ d, x.deadLetter? = some d → A d.content) : ∀ w ∈ x.writes ev ep, w.Brings A := by
  intro w hw
  cases x <;> simp only [Exit.writes, List.mem_append, List.mem_singleton] at hw
  · rcases hw with hw | rfl
    · exact brings_flush w hw
    · exact hentry _ rfl
  · exact brings_flush w hw
  · rcases hw with (hw | rfl) | hw
    · exact brings_flush w hw
    · trivial
    · exact brings_flush w hw
  · rcases hw with ((hw | rfl) | hw) | hw
    · exact brings_flush w hw
    · trivial
    · exact brings_goneWrites w hw
    · exact brings_flush w hw
  · rcases hw with (((hw | rfl) | hw) | rfl) | hw
    · exact brings_flush w hw
    · trivial
    · exact brings_goneWrites w hw
    · exact hentry _ rfl
    · exact brings_flush w hw

/-- What a step commits is submitted. -/
theorem Reaches.known_tables (h : Reaches deps ok c) (hknown : Known c)
    (hs : step deps c a = some c') : c'.world.db.Knows (Submitted c') := by
  have hstep := stepped hs
  have hlater {A : Content → Prop} (hA : ∀ content, A content → Submitted c' content)
      (h : c.world.db.Knows A) : c.world.db.Knows (Submitted c') :=
    ⟨fun r hr => hA _ (h.events r hr), fun d hd => hA _ (h.deadLetters d hd)⟩
  have hbefore := hlater (fun _ h => h.step hstep) hknown.tables
  cases h.commits hs with
  | nothing hw =>
    unfold World.db at hbefore ⊢
    rwa [hw]
  | exit t ev ep x _ hcom _ hx hw =>
    have hsnap := h.sound.committing hcom
    obtain ⟨r, hr, hevent⟩ := hsnap.row
    rw [World.db_of_wal hw]
    refine hbefore.applyAll (Exit.brings fun d hd => ?_)
    rw [hx.content hsnap.endpointId hd, ← hevent.content]
    exact hbefore.events r (Table.mem_of_get? hr)
  | benign ws hws hw =>
    rw [World.db_of_wal hw]
    refine hbefore.applyAll fun w hwin => ?_
    cases w with
    | insertDeadLetter d => exact (hws _ hwin).elim
    | insertEvent r =>
      -- the coroutine that commits has made the statement
      rcases hstep.wal with hsame | ⟨t, th, k, hth, hp, -, hwal⟩
      · rw [hsame] at hw
        rw [List.self_eq_append_right.mp hw] at hwin
        cases hwin
      · have hm := List.mem_of_getElem? hth
        obtain rfl : ws = th.session.pending := List.append_cancel_left (hw.symm.trans hwal)
        have hmade := h.pending_made th hm _ hwin
        rcases h.insertEvent_cases hm hmade with ⟨data, id, now, ho, rfl⟩ | hread
        · obtain ⟨th', hth', hprefix, horigin⟩ := hstep.kept hth
          refine ⟨t, th', data, id, now, hth', horigin _ ho, rfl,
            statementsOf_subset hprefix _ hmade, ?_⟩
          rw [hw]
          exact List.mem_append_right _ hwin
        · exact (hknown.read th hm _ hread).step hstep
    | _ => trivial

/-- What a replay sees of the dead letters was submitted. -/
theorem Reaches.known_view (h : Reaches deps ok c) (hknown : Known c) (hth : th ∈ c.threads)
    (ho : th.origin.IsReplay) :
    ∀ d ∈ (c.world.view th.session).deadLetters.rows, Submitted c d.content :=
  (hknown.tables.applyAll (h.brings_of_replay hknown hth ho)).deadLetters

/-- The events that a run reads were submitted. -/
theorem Reaches.known_events (h : Reaches deps ok c) (hknown : Known c)
    (hs : step deps c a = some c') : ∀ th ∈ c'.threads, ∀ id ev ep,
      readCall id ev ep ∈ th.trace → Submitted c' ev.content := by
  intro th' hth' id ev ep hmem
  obtain ⟨t, ht'⟩ := List.mem_iff_getElem?.mp hth'
  rcases (stepped hs).mem_trace ht' hmem with ⟨th, hth, hmem⟩ | ⟨th, k, s, hth, hp, ha⟩
  · exact (hknown.events th (List.mem_of_getElem? hth) id ev ep hmem).step (stepped hs)
  · have hrow := (h.row_loaded (List.mem_of_getElem? hth) hp ha).1
    exact (hknown.tables.events ev (Table.mem_of_get? hrow)).step (stepped hs)

/-- The entries that a replay reads were submitted. -/
theorem Reaches.known_read (h : Reaches deps ok c) (hknown : Known c)
    (hs : step deps c a = some c') : ∀ th ∈ c'.threads, ∀ content,
      ReadEntry th.trace content → Submitted c' content := by
  rintro th' hth' _ ⟨id, d, hmem, rfl⟩
  obtain ⟨t, ht'⟩ := List.mem_iff_getElem?.mp hth'
  rcases (stepped hs).mem_trace ht' hmem with ⟨th, hth, hmem⟩ | ⟨th, k, s, hth, hp, ha⟩
  · exact (hknown.read th (List.mem_of_getElem? hth) _ ⟨id, d, hmem, rfl⟩).step (stepped hs)
  · have hm := List.mem_of_getElem? hth
    refine Submitted.step ?_ (stepped hs)
    obtain ⟨o, -, hexec⟩ := ha.of_ok
    rw [exec_getDeadLetter] at hexec
    cases hfind : th.session.loaded.find? fun x => decide (x.id = id) with
    | some x =>
      rw [hfind] at hexec
      obtain rfl : x = d := Option.some.inj (Except.ok.inj (congrArg Prod.fst hexec))
      exact hknown.loaded th hm x (List.mem_of_find?_eq_some hfind)
    | none =>
      rw [hfind] at hexec
      cases hrow : (c.world.view th.session).deadLetters.get? id with
      | none =>
        simp only [hrow] at hexec
        cases hexec
      | some x =>
        simp only [hrow] at hexec
        obtain rfl : x = d := Option.some.inj (Except.ok.inj (congrArg Prod.fst hexec))
        exact h.known_view hknown hm (h.isReplay hm hp rfl) x (Table.mem_of_get? hrow)

/-- The objects of a session were submitted. -/
theorem Reaches.known_loaded (h : Reaches deps ok c) (hknown : Known c)
    (hs : step deps c a = some c') : ∀ th ∈ c'.threads, ∀ d ∈ th.session.loaded,
      Submitted c' d.content := by
  have hstays {th : Coroutine} (h : ∀ d ∈ th.session.loaded, Submitted c d.content) :
      ∀ d ∈ th.session.loaded, Submitted c' d.content := fun d hd => (h d hd).step (stepped hs)
  refine (stepped hs).forall_threads hknown.loaded (fun _ _ _ _ h => hstays h)
    (fun _ _ _ _ hd => nomatch hd) ?_ (fun _ _ _ _ hd => nomatch hd)
    fun _ _ _ _ _ _ h => hstays h
  intro t th e k r w s hth hp ha _ hloaded d hd
  have hm := List.mem_of_getElem? hth
  change d ∈ (if (k r).ended then Session.fresh else s).loaded at hd
  split_ifs at hd
  · cases hd
  refine Submitted.step ?_ (stepped hs)
  have hexec (o : Oracle) (hd : d ∈ (exec o e c.world th.session).2.2.loaded) :
      Submitted c d.content := by
    rcases mem_loaded_exec hd with hd | ⟨hreplays, hd | ⟨old, rfl⟩⟩
    · exact hloaded d hd
    · exact h.known_view hknown hm (h.isReplay hm hp hreplays) d hd
    · exact hknown.read th hm _ (h.flushing_copies hm hp)
  cases ha with
  | executed o _ => exact hexec o hd
  | lost => exact hloaded d hd
  | late o x _ => exact hexec o hd

/-- **Every content in a reachable state was submitted.** -/
theorem Reaches.known (h : Reaches deps ok c) : Known c := by
  refine h.invariant (fun _ => ⟨⟨fun _ hr => (nomatch hr), fun _ hd => nomatch hd⟩,
    fun _ hth => (nomatch hth), fun _ hth => (nomatch hth), fun _ hth => nomatch hth⟩)
    fun c a c' hr hc _ hs => ?_
  exact ⟨hr.known_tables hc hs, hr.known_events hc hs, hr.known_read hc hs, hr.known_loaded hc hs⟩

end known

/-- **What is delivered was submitted.** In every reachable state, over any number of generations of
replays, every event and every dead letter entry has the endpoint, the type and the payload of a
`create_event` request whose event was committed, and every POST that went out carries the payload
of such a request, to the URL that its endpoint had when it was read. -/
theorem content_provenance (h : Reaches deps ok c) :
    (∀ r ∈ c.world.db.events.rows, Submitted c r.content) ∧
      (∀ d ∈ c.world.db.deadLetters.rows, Submitted c d.content) ∧
      ∀ req ∈ c.world.posts, ∃ content past ep, Submitted c content ∧
        req.content = (Json.obj content.payload).dumps.encode ∧ past <+: c.world.wal ∧
        (Db.empty.applyAll past).endpoints.get? content.endpointId = some ep ∧
        req.url = ep.url := by
  have hknown := h.known
  refine ⟨hknown.tables.events, hknown.tables.deadLetters, fun req hreq => ?_⟩
  obtain ⟨senders, hledger⟩ := h.postLedger
  obtain ⟨i, hi, rfl⟩ := List.mem_iff_getElem.mp hreq
  obtain ⟨th, id, ev, ep, r, rest, hth, -, htrace, ⟨_, later, -, hlater, -, hep⟩, hauth⟩ :=
    h.sentBy (hledger.posts.get (hledger.posts.length_eq ▸ hi) hi)
  have hmem : readCall id ev ep ∈ th.trace := by
    refine (mem_told rfl).mp ?_
    rw [htrace]
    exact List.mem_cons_self
  exact ⟨ev.content, later, ep, hknown.events th (List.mem_of_getElem? hth) id ev ep hmem,
    hauth.request.content, hlater, hep, hauth.request.url⟩

/-- An event is delivered without success, dead-lettered, replayed, and delivered again. -/
theorem content_provenance_replayed : ∃ c, Reaches Sample.deps anyStep c ∧
    c.world.db.events.rows.length = 2 ∧ c.world.db.deadLetters.rows.length = 1 ∧
    c.world.posts.length = 2 ∧
    (∀ r ∈ c.world.db.events.rows, Submitted c r.content) ∧
      (∀ d ∈ c.world.db.deadLetters.rows, Submitted c d.content) ∧
      ∀ req ∈ c.world.posts, ∃ content past ep, Submitted c content ∧
        req.content = (Json.obj content.payload).dumps.encode ∧ past <+: c.world.wal ∧
        (Db.empty.applyAll past).endpoints.get? content.endpointId = some ep ∧
        req.url = ep.url := by
  have hrun : (runActs (step Sample.deps) (fun _ _ => true) (initial Sample.start)
      (Sample.setup Sample.shop Sample.order ++
        Sample.job 2 16 (Sample.oracle 3 (Sample.response 500 [])) ++
        Sample.request 3 9 (.replay (Sample.id 3) false) (Sample.oracle 4 .cancelled) ++
        .startJob (Sample.id 4) :: Sample.calls 4 14
          (Sample.oracle 5 (Sample.response 200 [])))).any (fun c => decide
        (c.world.db.events.rows.length = 2 ∧ c.world.db.deadLetters.rows.length = 1 ∧
          c.world.posts.length = 2)) = true := by
    decide +kernel
  obtain ⟨c, hc, hfacts⟩ := exists_run anyStep (fun _ _ _ => trivial) hrun
  obtain ⟨hevents, hentries, hposts⟩ := of_decide_eq_true hfacts
  have hreach : Reaches Sample.deps anyStep c := ⟨Sample.start, hc⟩
  exact ⟨c, hreach, hevents, hentries, hposts, content_provenance hreach⟩

end WebhookRelay
