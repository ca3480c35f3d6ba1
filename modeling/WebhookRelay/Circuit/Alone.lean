import WebhookRelay.Circuit.Journal
import WebhookRelay.Circuit.Moves

/-!
# A call on its own

What each method does to the circuit of its endpoint when no other call is under way
(`Circuit.run`), as a function of the instants at which it reads the clock: time may pass between
its awaits. `executes_run` connects it to the programs.
-/

namespace WebhookRelay

open Data Data.Redis Effect

/-! ### The methods as functions -/

/-- The instants of a call: when it counts a failure, when it looks at the circuit, and the time
it gives to an opening. -/
structure Instants where
  count : ℚ
  look : ℚ
  act : ℚ

namespace Circuit

variable (cb : CircuitBreaker)

/-- The circuit is OPEN, and its recovery timeout is over. -/
def expired (C : Circuit) (now : ℚ) : Bool :=
  decide (C.mode = .opened) && C.openedAt.any fun q => decide ((cb.recoveryTimeout : ℚ) < now - q)

/-- The state that `get_state` answers. -/
def seen (C : Circuit) (now : ℚ) : CircuitState :=
  if C.expired cb now then .halfOpen else C.mode

/-- The circuit that `get_state` leaves. -/
def looked (C : Circuit) (now : ℚ) : Circuit :=
  if C.expired cb now then { C with state := some .halfOpen } else C

/-- The answer of a method that runs alone, and the circuit it leaves. -/
def run (C : Circuit) (i : Instants) : CircuitBreaker.Call → CircuitBreaker.Answer × Circuit
  | .getState => (.state (C.seen cb i.look), C.looked cb i.look)
  | .isAllowed => (.allowed (decide (C.seen cb i.look ≠ .opened)), C.looked cb i.look)
  | .recordSuccess =>
    (.unit, if C.seen cb i.look = .halfOpen then ⟨some .closed, none, none⟩
      else C.looked cb i.look)
  | .recordFailure =>
    let C₁ := C.apply cb i.count .count
    if CircuitBreaker.Phase.trips cb (some (C.failures i.count + 1)) (C₁.seen cb i.look) then
      (.state .opened, (C₁.looked cb i.look).apply cb i.act (.turn .opened i.act))
    else (.state (C₁.seen cb i.look), C₁.looked cb i.look)
  | .reset => (.unit, .fresh)

variable {cb} {C : Circuit} {i : Instants}

/-- A success that sees HALF_OPEN closes the circuit. -/
theorem run_recordSuccess_of_halfOpen (h : C.seen cb i.look = .halfOpen) :
    C.run cb i .recordSuccess = (.unit, ⟨some .closed, none, none⟩) :=
  congrArg (Prod.mk _) (if_pos h)

/-- A failure that trips the breaker opens the circuit. -/
theorem run_recordFailure_of_trips
    (h : CircuitBreaker.Phase.trips cb (some (C.failures i.count + 1))
      ((C.apply cb i.count .count).seen cb i.look) = true) :
    C.run cb i .recordFailure = (.state .opened,
      ((C.apply cb i.count .count).looked cb i.look).apply cb i.act (.turn .opened i.act)) :=
  if_pos h

/-- Any other failure is counted. -/
theorem run_recordFailure_of_not_trips
    (h : ¬ CircuitBreaker.Phase.trips cb (some (C.failures i.count + 1))
      ((C.apply cb i.count .count).seen cb i.look) = true) :
    C.run cb i .recordFailure = (.state ((C.apply cb i.count .count).seen cb i.look),
      (C.apply cb i.count .count).looked cb i.look) :=
  if_neg h

end Circuit

namespace CircuitBreaker

variable {cb : CircuitBreaker} {o : Origin} {s s' : Server} {p p' : Phase} {n : Option ℤ}

/-! ### Awaits without company -/

/-- A call that runs alone from a phase to its last one, with time passing between its awaits. -/
inductive Phase.Alone (cb : CircuitBreaker) (o : Origin) :
    Phase → Server → Phase → Server → Prop where
  | ended {p : Phase} {s : Server} (h : p.live cb o = false) : Alone cb o p s p s
  | await {p p' : Phase} {s s₁ s' : Server} (h : p.live cb o = true) (hp : s.Later s₁)
    (hk : Alone cb o (p.advance cb o (.of s₁ o.endpoint) s₁.now)
      (changed cb o.endpoint s₁ (p.change o)) p' s') : Alone cb o p s p' s'

/-- The circuits do not depend on the clock. -/
theorem of_later {s₁ : Server} (h : s.Later s₁) (id : Str) : Circuit.of s₁ id = .of s id := by
  unfold Circuit.of
  rw [h.keyspace]

/-- A method that runs alone goes through the phases of its automaton. -/
theorem executes_alone {q : Method Answer} {r : Except Exn Answer}
    (h : q.Executes Server.Later exec s r s') (hq : Realises cb o p q) (hs : Tidy s) :
    ∃ p', p.Alone cb o s p' s' ∧ r = p'.answer o := by
  induction h generalizing p with
  | done =>
    refine ⟨p, .ended ?_, hq.2⟩
    unfold Phase.live
    rw [hq.1]
    rfl
  | raised =>
    refine ⟨p, .ended ?_, hq.2⟩
    unfold Phase.live
    rw [hq.1]
    rfl
  | call hp hk ih =>
    rename_i e k s s₁ s' r
    have hs₁ : Tidy s₁ := hs.of_keyspace hp.keyspace
    have he : p.op cb o = some e := hq.1
    obtain ⟨hphase, hworld⟩ := exec_phase hs₁ he
    obtain ⟨p', hp', hr⟩ := ih (hq.2 _) (hworld ▸ hs₁.changed _ _ _)
    refine ⟨p', .await ?_ hp ?_, hr⟩
    · unfold Phase.live
      rw [he]
      rfl
    · rw [← hworld, ← hphase]
      exact hp'

/-- A call in its last phase stays there. -/
theorem Phase.Alone.of_ended (h : p.Alone cb o s p' s') (hp : p.live cb o = false) :
    p' = p ∧ s' = s := by
  cases h with
  | ended => exact ⟨rfl, rfl⟩
  | await hlive =>
    rw [hp] at hlive
    cases hlive

/-- A call in any other phase makes its next await. -/
theorem Phase.Alone.next (h : p.Alone cb o s p' s') (hp : p.live cb o = true) :
    ∃ s₁, s.Later s₁ ∧ Phase.Alone cb o (p.advance cb o (.of s o.endpoint) s₁.now)
      (changed cb o.endpoint s₁ (p.change o)) p' s' := by
  cases h with
  | ended hlive =>
    rw [hp] at hlive
    cases hlive
  | await _ hlater hk =>
    rw [of_later hlater] at hk
    exact ⟨_, hlater, hk⟩

/-- The failures on record after a change. -/
theorem recorded_changed (cb : CircuitBreaker) (id j : Str) (s : Server) (x : Option Change) :
    recorded j (changed cb id s x).journal =
      if j = id then x.elim (recorded j s.journal) (Change.record s.now (recorded j s.journal))
      else recorded j s.journal := by
  cases x with
  | none => exact (ite_self _).symm
  | some x =>
    change recorded j (s.execute _).2.journal = _
    rw [Server.journal_execute, recorded_append_singleton, record_commands]
    rfl

/-- What `get_state` does between its first await and its answer. -/
structure Looked (cb : CircuitBreaker) (id : Str) (s : Server) (now : ℚ) (s' : Server) :
    Prop where
  now_le : s.now ≤ now
  le_now : now ≤ s'.now
  tidy : Tidy s'
  circuit : ∀ j, Circuit.of s' j = if j = id then (Circuit.of s j).looked cb now else .of s j
  recorded : ∀ j, recorded j s'.journal = recorded j s.journal

/-- A look that changes nothing. -/
theorem Looked.unchanged {id : Str} {s₁ : Server} {now : ℚ} (hs : Tidy s) (h : s.Later s₁)
    (hnow : s.now ≤ now) (hnow₁ : now ≤ s₁.now) (hexp : (Circuit.of s id).expired cb now = false) :
    Looked cb id s now s₁ := by
  refine ⟨hnow, hnow₁, hs.of_keyspace h.keyspace, fun j => ?_, fun j => by rw [h.1]⟩
  rw [of_later h]
  split_ifs with hj
  · subst hj
    unfold Circuit.looked
    rw [hexp]
    rfl
  · rfl

/-- A look that finds the recovery timeout over. -/
theorem Looked.woken {id : Str} {s₁ : Server} {now : ℚ} (hs : Tidy s) (h : s.Later s₁)
    (hnow : s.now ≤ now) (hnow₁ : now ≤ s₁.now) (hexp : (Circuit.of s id).expired cb now = true) :
    Looked cb id s now (changed cb id s₁ (some (.turn .halfOpen 0))) := by
  have hs₁ : Tidy s₁ := hs.of_keyspace h.keyspace
  refine ⟨hnow, hnow₁.trans (now_changed _).ge, hs₁.changed _ _ _, fun j => ?_,
    fun j => ?_⟩
  · rw [of_changed cb _ hs₁, of_later h]
    split_ifs with hj
    · subst hj
      unfold Circuit.looked
      rw [hexp]
      rfl
    · rfl
  · rw [recorded_changed, h.1]
    exact ite_self _

/-- `get_state` on its own, once it has read OPEN and the time of opening. -/
theorem alone_timing {q : ℚ} (h : (Phase.timing n (.float q)).Alone cb o s p' s') (hs : Tidy s)
    (hopen : (Circuit.of s o.endpoint).mode = .opened)
    (hq : (Circuit.of s o.endpoint).openedAt = some q) :
    ∃ now s₁, Looked cb o.endpoint s now s₁ ∧
      (Phase.saw n ((Circuit.of s o.endpoint).seen cb now)).Alone cb o s₁ p' s' := by
  obtain ⟨s₁, h₁, hk⟩ := h.next rfl
  change Phase.Alone cb o (if _ then _ else _) s₁ p' s' at hk
  have hiff : (Circuit.of s o.endpoint).expired cb s₁.now = true ↔
      (cb.recoveryTimeout : ℚ) < s₁.now - q := by
    simp [Circuit.expired, hq, hopen]
  by_cases htime : (cb.recoveryTimeout : ℚ) < s₁.now - q
  · have hexp := hiff.mpr htime
    rw [if_pos htime] at hk
    obtain ⟨s₂, h₂, hk⟩ := hk.next rfl
    refine ⟨s₁.now, _, .woken hs (h₁.trans h₂) h₁.2 h₂.2 hexp, ?_⟩
    unfold Circuit.seen
    rw [hexp]
    exact hk
  · have hexp : (Circuit.of s o.endpoint).expired cb s₁.now = false :=
      Bool.not_eq_true _ ▸ mt hiff.mp htime
    rw [if_neg htime] at hk
    refine ⟨s₁.now, s₁, .unchanged hs h₁ h₁.2 le_rfl hexp, ?_⟩
    unfold Circuit.seen
    rw [hexp, hopen]
    exact hk

/-- A look that started later. -/
theorem Looked.of_later {id : Str} {s₀ s₁ : Server} {now : ℚ} (h : Looked cb id s now s₁)
    (h₀ : s₀.Later s) : Looked cb id s₀ now s₁ := by
  refine ⟨h₀.2.trans h.now_le, h.le_now, h.tidy, fun j => ?_, ?_⟩
  · rw [h.circuit, CircuitBreaker.of_later h₀]
  · rw [← h₀.1]
    exact h.recorded

/-- **`get_state` on its own.** -/
theorem alone_looking (h : (Phase.looking n).Alone cb o s p' s') (hs : Tidy s) :
    ∃ now s₁, Looked cb o.endpoint s now s₁ ∧
      (Phase.saw n ((Circuit.of s o.endpoint).seen cb now)).Alone cb o s₁ p' s' := by
  obtain ⟨s₁, h₁, hk⟩ := h.next rfl
  change Phase.Alone cb o (if _ then _ else _) s₁ p' s' at hk
  by_cases hopen : (Circuit.of s o.endpoint).mode = .opened
  · rw [if_pos hopen] at hk
    obtain ⟨s₂, h₂, hk⟩ := hk.next rfl
    rw [of_later h₁] at hk
    have h₁₂ : s.Later s₂ := h₁.trans h₂
    unfold Phase.advance at hk
    cases hq : (Circuit.of s o.endpoint).openedAt with
    | none =>
      have hexp : (Circuit.of s o.endpoint).expired cb s₂.now = false := by
        simp [Circuit.expired, hq]
      rw [hq] at hk
      refine ⟨s₂.now, s₂, .unchanged hs h₁₂ h₁₂.2 le_rfl hexp, ?_⟩
      unfold Circuit.seen
      rw [hexp, hopen]
      exact hk
    | some q =>
      rw [hq] at hk
      have hs₂ : Tidy s₂ := hs.of_keyspace h₁₂.keyspace
      obtain ⟨now, s₃, hlook, hk⟩ := alone_timing (s := s₂) hk hs₂
        (by rw [of_later h₁₂, hopen]) (by rw [of_later h₁₂, hq])
      rw [of_later h₁₂] at hk
      exact ⟨now, s₃, hlook.of_later h₁₂, hk⟩
  · have hexp : (Circuit.of s o.endpoint).expired cb s₁.now = false := by
      simp [Circuit.expired, hopen]
    rw [if_neg hopen] at hk
    refine ⟨s₁.now, s₁, .unchanged hs h₁ h₁.2 le_rfl hexp, ?_⟩
    unfold Circuit.seen
    rw [hexp]
    exact hk

/-! ### The methods on their own -/

/-- The failures on record after a method that runs alone. -/
def Call.record (cb : CircuitBreaker) (C : Circuit) (i : Instants) (ts : List ℚ) :
    Call → List ℚ
  | .recordFailure => i.count :: ts
  | .recordSuccess => if C.seen cb i.look = .halfOpen then [] else ts
  | .reset => []
  | _ => ts

/-- A call that has run alone, at some instants between its start and its end. -/
structure Ran (cb : CircuitBreaker) (o : Origin) (s : Server) (i : Instants) (a : Answer)
    (s' : Server) : Prop where
  now_le : s.now ≤ i.count
  count_le : i.count ≤ i.look
  look_le : i.look ≤ i.act
  le_now : i.act ≤ s'.now
  tidy : Tidy s'
  answer : a = ((Circuit.of s o.endpoint).run cb i o.call).1
  circuit : ∀ j, Circuit.of s' j =
    if j = o.endpoint then ((Circuit.of s j).run cb i o.call).2 else .of s j
  recorded : ∀ j, recorded j s'.journal =
    if j = o.endpoint then o.call.record cb (.of s j) i (recorded j s.journal)
    else recorded j s.journal

/-- A method that only looks. -/
theorem ran_of_looked {a : Answer} {now : ℚ} {s₁ : Server} (h : Looked cb o.endpoint s now s₁)
    (ha : a = ((Circuit.of s o.endpoint).run cb ⟨now, now, now⟩ o.call).1)
    (hc : ((Circuit.of s o.endpoint).run cb ⟨now, now, now⟩ o.call).2 =
      (Circuit.of s o.endpoint).looked cb now)
    (hr : ∀ ts, o.call.record cb (.of s o.endpoint) ⟨now, now, now⟩ ts = ts) :
    Ran cb o s ⟨now, now, now⟩ a s₁ := by
  refine ⟨h.now_le, le_rfl, le_rfl, h.le_now, h.tidy, ha, fun j => ?_, fun j => ?_⟩
  · rw [h.circuit]
    split_ifs with hj
    · rw [hj, hc]
    · rfl
  · rw [h.recorded]
    split_ifs with hj
    · rw [hj, hr]
    · rfl

/-- `record_success` on its own, once it has seen HALF_OPEN. -/
theorem alone_closing {now : ℚ} {s₁ : Server} (ho : o.call = .recordSuccess)
    (hlook : Looked cb o.endpoint s now s₁)
    (hseen : (Circuit.of s o.endpoint).seen cb now = .halfOpen)
    (h : (Phase.saw none .halfOpen).Alone cb o s₁ p' s') :
    p' = .finished ∧ Ran cb o s ⟨now, now, now⟩ .unit s' := by
  have hclose : (Phase.saw none .halfOpen).change o = some (.turn .closed 0) := if_pos ⟨ho, rfl⟩
  have hlive : (Phase.saw none .halfOpen).live cb o = true := by
    unfold Phase.live
    rw [Phase.op_saw, if_pos ⟨ho, rfl⟩]
    rfl
  obtain ⟨s₂, h₂, hk⟩ := h.next hlive
  rw [hclose, show (Phase.saw none .halfOpen).advance cb o _ _ = .clearing from if_pos ho] at hk
  obtain ⟨s₃, h₃, hk⟩ := hk.next rfl
  obtain ⟨rfl, rfl⟩ := hk.of_ended rfl
  have hs₂ : Tidy s₂ := hlook.tidy.of_keyspace h₂.keyspace
  have hs₂' := hs₂.changed cb o.endpoint (some (.turn .closed 0))
  have hs₃ : Tidy s₃ := hs₂'.of_keyspace h₃.keyspace
  have hle : now ≤ s₃.now := hlook.le_now.trans (h₂.2.trans ((now_changed _).ge.trans h₃.2))
  refine ⟨rfl, hlook.now_le, le_rfl, le_rfl, ?_, ?_, ?_, fun j => ?_, fun j => ?_⟩
  · exact hle.trans (now_changed _).ge
  · exact hs₃.changed _ _ _
  · rw [ho]
    rfl
  · rw [of_changed cb _ hs₃, of_later h₃, of_changed cb _ hs₂, of_later h₂, hlook.circuit]
    split_ifs with hj
    · subst hj
      rw [ho, Circuit.run_recordSuccess_of_halfOpen hseen]
      rfl
    · rfl
  · rw [recorded_changed, h₃.1, recorded_changed, h₂.1, hlook.recorded]
    split_ifs with hj
    · subst hj
      rw [ho]
      unfold Call.record
      dsimp only
      rw [if_pos hseen]
      rfl
    · rfl

section counting

variable {s₁ s₃ : Server} {now : ℚ} {id : Str}

/-- The circuits once a failure is counted. -/
theorem of_counted (cb : CircuitBreaker) (hs : Tidy s) (h : s.Later s₁) (j : Str) :
    Circuit.of (changed cb id s₁ (some .count)) j =
      if j = id then (Circuit.of s j).apply cb s₁.now .count else .of s j := by
  rw [of_changed cb _ (hs.of_keyspace h.keyspace), of_later h]
  rfl

/-- The failures on record once a failure is counted. -/
theorem recorded_counted (cb : CircuitBreaker) (h : s.Later s₁) (j : Str) :
    recorded j (changed cb id s₁ (some .count)).journal =
      if j = id then s₁.now :: recorded j s.journal else recorded j s.journal := by
  rw [recorded_changed, h.1]
  rfl

/-- `record_failure` on its own, once what it has counted and seen trips the breaker. -/
theorem alone_tripping (ho : o.call = .recordFailure) (hs : Tidy s) (h₁ : s.Later s₁)
    (hlook : Looked cb o.endpoint (changed cb o.endpoint s₁ (some .count)) now s₃)
    (htrips : Phase.trips cb (some ((Circuit.of s o.endpoint).failures s₁.now + 1))
      (((Circuit.of s o.endpoint).apply cb s₁.now .count).seen cb now) = true)
    (h : (Phase.saw (some ((Circuit.of s o.endpoint).failures s₁.now + 1))
      (((Circuit.of s o.endpoint).apply cb s₁.now .count).seen cb now)).Alone cb o s₃ p' s') :
    ∃ i, p'.answer o = .ok (.state .opened) ∧ Ran cb o s i (.state .opened) s' := by
  have hne : o.call ≠ .recordSuccess := by
    rw [ho]
    decide
  have hcount : s₁.now ≤ now := (now_changed _).ge.trans hlook.now_le
  have hop : (Phase.saw (some ((Circuit.of s o.endpoint).failures s₁.now + 1))
      (((Circuit.of s o.endpoint).apply cb s₁.now .count).seen cb now)).op cb o = some .time := by
    rw [Phase.op_saw, if_neg (fun h => hne h.1), if_pos ⟨ho, htrips⟩]
  obtain ⟨s₄, h₄, hk⟩ := h.next (by unfold Phase.live; rw [hop]; rfl)
  rw [show Phase.change o (Phase.saw _ _) = none from if_neg fun h => hne h.1,
    show Phase.advance cb o _ _ (Phase.saw _ _) = _ from if_neg hne] at hk
  obtain ⟨s₅, h₅, hk⟩ := hk.next rfl
  obtain ⟨rfl, rfl⟩ := hk.of_ended rfl
  have h₃₅ : s₃.Later s₅ := h₄.trans h₅
  have hs₅ : Tidy s₅ := hlook.tidy.of_keyspace h₃₅.keyspace
  have hrun := Circuit.run_recordFailure_of_trips (i := ⟨s₁.now, now, s₄.now⟩) htrips
  refine ⟨⟨s₁.now, now, s₄.now⟩, if_pos ho, h₁.2, hcount, hlook.le_now.trans h₄.2, ?_,
    hs₅.changed _ _ _, ?_, fun j => ?_, fun j => ?_⟩
  · exact h₅.2.trans (now_changed _).ge
  · rw [ho, hrun]
  · rw [of_changed cb _ hs₅, of_later h₃₅, hlook.circuit, of_counted cb hs h₁]
    split_ifs with hj
    · rw [hj, ho, hrun]
      rfl
    · rfl
  · rw [recorded_changed, h₃₅.1, hlook.recorded, recorded_counted cb h₁]
    split_ifs with hj
    · rw [ho]
      rfl
    · rfl

/-- `record_failure` on its own, once what it has counted and seen does not trip the breaker. -/
theorem alone_not_tripping (ho : o.call = .recordFailure) (hs : Tidy s) (h₁ : s.Later s₁)
    (hlook : Looked cb o.endpoint (changed cb o.endpoint s₁ (some .count)) now s₃)
    (htrips : ¬ Phase.trips cb (some ((Circuit.of s o.endpoint).failures s₁.now + 1))
      (((Circuit.of s o.endpoint).apply cb s₁.now .count).seen cb now) = true)
    (h : (Phase.saw (some ((Circuit.of s o.endpoint).failures s₁.now + 1))
      (((Circuit.of s o.endpoint).apply cb s₁.now .count).seen cb now)).Alone cb o s₃ p' s') :
    ∃ i a, p'.answer o = .ok a ∧ Ran cb o s i a s' := by
  have hne : o.call ≠ .recordSuccess := by
    rw [ho]
    decide
  have hcount : s₁.now ≤ now := (now_changed _).ge.trans hlook.now_le
  have hop : (Phase.saw (some ((Circuit.of s o.endpoint).failures s₁.now + 1))
      (((Circuit.of s o.endpoint).apply cb s₁.now .count).seen cb now)).op cb o = none := by
    rw [Phase.op_saw, if_neg (fun h => hne h.1), if_neg (fun h => htrips h.2)]
  obtain ⟨rfl, rfl⟩ := h.of_ended (by unfold Phase.live; rw [hop]; rfl)
  have hrun := Circuit.run_recordFailure_of_not_trips (i := ⟨s₁.now, now, now⟩) htrips
  refine ⟨⟨s₁.now, now, now⟩, _, ?_, h₁.2, hcount, le_rfl, hlook.le_now, hlook.tidy, rfl,
    fun j => ?_, fun j => ?_⟩
  · unfold Phase.answer
    dsimp only
    rw [ho, hrun]
  · rw [hlook.circuit, of_counted cb hs h₁]
    split_ifs with hj
    · rw [hj, ho, hrun]
    · rfl
  · rw [hlook.recorded, recorded_counted cb h₁]
    split_ifs with hj
    · rw [ho]
      rfl
    · rfl

/-- `record_failure` on its own, once it has counted and looked. -/
theorem alone_counted (ho : o.call = .recordFailure) (hs : Tidy s) (h₁ : s.Later s₁)
    (hlook : Looked cb o.endpoint (changed cb o.endpoint s₁ (some .count)) now s₃)
    (h : (Phase.saw (some ((Circuit.of s o.endpoint).failures s₁.now + 1))
      ((Circuit.of (changed cb o.endpoint s₁ (some .count)) o.endpoint).seen cb now)).Alone cb o
        s₃ p' s') :
    ∃ i a, p'.answer o = .ok a ∧ Ran cb o s i a s' := by
  rw [of_counted cb hs h₁, if_pos rfl] at h
  by_cases htrips : Phase.trips cb (some ((Circuit.of s o.endpoint).failures s₁.now + 1))
      (((Circuit.of s o.endpoint).apply cb s₁.now .count).seen cb now) = true
  · obtain ⟨i, hanswer, hran⟩ := alone_tripping ho hs h₁ hlook htrips h
    exact ⟨i, _, hanswer, hran⟩
  · exact alone_not_tripping ho hs h₁ hlook htrips h

end counting

/-- A call that runs alone has run at some instants. -/
theorem alone_run (h : (Phase.start o).Alone cb o s p' s') (hs : Tidy s) :
    ∃ i a, p'.answer o = .ok a ∧ Ran cb o s i a s' := by
  unfold Phase.start at h
  cases ho : o.call with
  | getState =>
    rw [ho] at h
    obtain ⟨now, s₁, hlook, hk⟩ := alone_looking h hs
    obtain ⟨rfl, rfl⟩ := hk.of_ended (by unfold Phase.live; rw [Phase.op_saw]; simp [ho])
    refine ⟨⟨now, now, now⟩, .state ((Circuit.of s o.endpoint).seen cb now), ?_,
      ran_of_looked hlook ?_ ?_ fun ts => ?_⟩
    · unfold Phase.answer
      dsimp only
      rw [ho]
    all_goals
      rw [ho]
      rfl
  | isAllowed =>
    rw [ho] at h
    obtain ⟨now, s₁, hlook, hk⟩ := alone_looking h hs
    obtain ⟨rfl, rfl⟩ := hk.of_ended (by unfold Phase.live; rw [Phase.op_saw]; simp [ho])
    refine ⟨⟨now, now, now⟩, .allowed (decide ((Circuit.of s o.endpoint).seen cb now ≠ .opened)),
      ?_, ran_of_looked hlook ?_ ?_ fun ts => ?_⟩
    · unfold Phase.answer
      dsimp only
      rw [ho]
    all_goals
      rw [ho]
      rfl
  | recordSuccess =>
    rw [ho] at h
    obtain ⟨now, s₁, hlook, hk⟩ := alone_looking h hs
    by_cases hseen : (Circuit.of s o.endpoint).seen cb now = .halfOpen
    · rw [hseen] at hk
      obtain ⟨rfl, hran⟩ := alone_closing ho hlook hseen hk
      refine ⟨_, _, ?_, hran⟩
      unfold Phase.answer
      simp [ho]
    · obtain ⟨rfl, rfl⟩ := hk.of_ended (by unfold Phase.live; rw [Phase.op_saw]; simp [ho, hseen])
      refine ⟨⟨now, now, now⟩, .unit, ?_, ran_of_looked hlook ?_ ?_ fun ts => ?_⟩
      · unfold Phase.answer
        dsimp only
        rw [ho]
      · rw [ho]
        rfl
      · rw [ho]
        exact if_neg hseen
      · rw [ho]
        exact if_neg hseen
  | recordFailure =>
    rw [ho] at h
    obtain ⟨s₁, h₁, hk⟩ := h.next rfl
    have hs₁ : Tidy s₁ := hs.of_keyspace h₁.keyspace
    obtain ⟨now, s₃, hlook, hk⟩ := alone_looking (n := some _) hk (hs₁.changed _ _ _)
    exact alone_counted ho hs h₁ hlook hk
  | reset =>
    rw [ho] at h
    obtain ⟨s₁, h₁, hk⟩ := h.next rfl
    obtain ⟨rfl, rfl⟩ := hk.of_ended rfl
    have hs₁ : Tidy s₁ := hs.of_keyspace h₁.keyspace
    refine ⟨⟨s₁.now, s₁.now, s₁.now⟩, .unit, ?_, h₁.2, le_rfl, le_rfl, (now_changed _).ge,
      hs₁.changed _ _ _, ?_, fun j => ?_, fun j => ?_⟩
    · unfold Phase.answer Phase.advance
      simp [ho]
    · rw [ho]
      rfl
    · rw [of_changed cb _ hs₁, of_later h₁, ho]
      rfl
    · rw [recorded_changed, h₁.1, ho]
      rfl

/-- **A method that runs alone is its function**, whatever time passes between its awaits. -/
theorem executes_run {r : Except Exn Answer}
    (h : (o.program cb).Executes Server.Later exec s r s') (hs : Tidy s) :
    ∃ i a, r = .ok a ∧ Ran cb o s i a s' := by
  obtain ⟨p', hp', rfl⟩ := executes_alone h (program_obeys cb o) hs
  exact alone_run hp' hs

end CircuitBreaker

end WebhookRelay
