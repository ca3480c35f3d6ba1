import WebhookRelay.Services.CircuitBreaker

/-!
# The circuit of an endpoint in its three keys

`Circuit` is what the three keys of an endpoint say, and `Change` what the methods do to them.
`Holds K id C` says that the keys of the endpoint hold `C` and nothing else. A change of one
endpoint's circuit leaves the circuits of all others alone, because the keys of different
endpoints, and the three keys of one endpoint, are different texts.
-/

namespace WebhookRelay

open Data Data.Redis

namespace CircuitBreaker

/-! ### Different keys -/

@[simp] theorem stateKey_inj {a b : Str} : stateKey a = stateKey b ↔ a = b := by
  simp [stateKey]

@[simp] theorem failuresKey_inj {a b : Str} : failuresKey a = failuresKey b ↔ a = b := by
  simp [failuresKey]

@[simp] theorem openedAtKey_inj {a b : Str} : openedAtKey a = openedAtKey b ↔ a = b := by
  simp [openedAtKey]

theorem getLast?_stateKey (a : Str) : (stateKey a).getLast? = some 'e' := by
  simp only [stateKey, List.getLast?_append]
  rfl

theorem getLast?_failuresKey (a : Str) : (failuresKey a).getLast? = some 's' := by
  simp only [failuresKey, List.getLast?_append]
  rfl

theorem getLast?_openedAtKey (a : Str) : (openedAtKey a).getLast? = some 't' := by
  simp only [openedAtKey, List.getLast?_append]
  rfl

@[simp] theorem stateKey_ne_failuresKey (a b : Str) : stateKey a ≠ failuresKey b := by
  intro h
  have := getLast?_stateKey a
  rw [h, getLast?_failuresKey] at this
  simp at this

@[simp] theorem stateKey_ne_openedAtKey (a b : Str) : stateKey a ≠ openedAtKey b := by
  intro h
  have := getLast?_stateKey a
  rw [h, getLast?_openedAtKey] at this
  simp at this

@[simp] theorem failuresKey_ne_openedAtKey (a b : Str) : failuresKey a ≠ openedAtKey b := by
  intro h
  have := getLast?_failuresKey a
  rw [h, getLast?_openedAtKey] at this
  simp at this

@[simp] theorem failuresKey_ne_stateKey (a b : Str) : failuresKey a ≠ stateKey b :=
  (stateKey_ne_failuresKey b a).symm

@[simp] theorem openedAtKey_ne_stateKey (a b : Str) : openedAtKey a ≠ stateKey b :=
  (stateKey_ne_openedAtKey b a).symm

@[simp] theorem openedAtKey_ne_failuresKey (a b : Str) : openedAtKey a ≠ failuresKey b :=
  (failuresKey_ne_openedAtKey b a).symm

end CircuitBreaker

open CircuitBreaker

/-! ### Circuits -/

/-- What the three keys of an endpoint say. -/
structure Circuit where
  /-- The stored state, if there is one. -/
  state : Option CircuitState
  /-- The stored time of the last opening. -/
  openedAt : Option ℚ
  /-- The counter of failures, with the time it expires at. -/
  counter : Option (ℤ × ℚ)
  deriving DecidableEq

namespace Circuit

/-- The circuit of an endpoint nothing has happened to. -/
def fresh : Circuit := ⟨none, none, none⟩

/-- The state, which is CLOSED when none is stored. -/
def mode (C : Circuit) : CircuitState := C.state.getD .closed

/-- The count of failures, which is 0 when it has expired. -/
def failures (C : Circuit) (now : ℚ) : ℤ :=
  match C.counter with
  | some (n, d) => if now ≤ d then n else 0
  | none => 0

end Circuit

/-- The changes the methods make to a circuit. -/
inductive Change where
  | count
  | turn (state : CircuitState) (now : ℚ)
  | clear
  | reset

/-- The transaction of a change. -/
def Change.commands (cb : CircuitBreaker) (id : Str) : Change → List Command
  | .count => counting cb id
  | .turn state now => transition id state now
  | .clear => [.del (failuresKey id)]
  | .reset => clearing id

/-- The circuit after a change. -/
def Circuit.apply (cb : CircuitBreaker) (now : ℚ) (C : Circuit) : Change → Circuit
  | .count =>
    { C with counter :=
        if 0 < cb.failureWindow then some (C.failures now + 1, now + cb.failureWindow) else none }
  | .turn .closed _ => { C with state := some .closed, openedAt := none }
  | .turn .opened t => { C with state := some .opened, openedAt := some t }
  | .turn .halfOpen _ => { C with state := some .halfOpen }
  | .clear => { C with counter := none }
  | .reset => .fresh

/-- The counter that a failure leaves, if the failure window is positive. -/
theorem Circuit.counter_count {cb : CircuitBreaker} {now : ℚ} {C : Circuit} {x : ℤ × ℚ} :
    (C.apply cb now .count).counter = some x ↔
      0 < cb.failureWindow ∧ (C.failures now + 1, now + (cb.failureWindow : ℚ)) = x := by
  simp only [Circuit.apply, Option.ite_none_right_eq_some, Option.some.injEq]

/-- The count of failures after one more. -/
theorem Circuit.failures_count {cb : CircuitBreaker} {now : ℚ} {C : Circuit} (later : ℚ) :
    (C.apply cb now .count).failures later =
      if 0 < cb.failureWindow ∧ later ≤ now + cb.failureWindow then C.failures now + 1 else 0 := by
  by_cases hW : 0 < cb.failureWindow
  · simp [Circuit.apply, Circuit.failures, hW]
  · simp [Circuit.apply, Circuit.failures, hW]

/-- The circuit after a change, if there is one. -/
def Circuit.changed (cb : CircuitBreaker) (now : ℚ) (C : Circuit) : Option Change → Circuit
  | some x => C.apply cb now x
  | none => C

/-! ### What the keys hold -/

/-- The keys of the endpoint hold the circuit. -/
structure Holds (K : Keyspace) (id : Str) (C : Circuit) : Prop where
  state : K (stateKey id) = C.state.map fun s => ⟨.text s.value, none⟩
  openedAt : K (openedAtKey id) = C.openedAt.map fun q => ⟨.float q, none⟩
  failures : K (failuresKey id) = C.counter.map fun x => ⟨.int x.1, some x.2⟩

/-- The circuit that the keys of an endpoint say. -/
def Circuit.ofKeys (K : Keyspace) (id : Str) : Circuit where
  state := (K (stateKey id)).bind fun e => CircuitState.ofValue? e.value
  openedAt := (K (openedAtKey id)).bind fun e => e.value.float?
  counter := (K (failuresKey id)).bind fun e => match e with
    | ⟨.int n, some d⟩ => some (n, d)
    | _ => none

/-- The circuit of an endpoint. -/
def Circuit.of (s : Server) (id : Str) : Circuit := .ofKeys s.keyspace id

variable {K : Keyspace} {id j : Str} {C : Circuit} {cb : CircuitBreaker} {now : ℚ}

/-- The circuit that the keys hold is the one they say. -/
theorem Holds.ofKeys (h : Holds K id C) : Circuit.ofKeys K id = C := by
  obtain ⟨state, openedAt, counter⟩ := C
  unfold Circuit.ofKeys
  rw [h.state, h.openedAt, h.failures]
  cases state <;> cases openedAt <;> cases counter <;> simp [Value.float?]

/-- Keys that are the same hold the same. -/
theorem Holds.congr {K' : Keyspace} (h : Holds K id C) (hs : K' (stateKey id) = K (stateKey id))
    (ho : K' (openedAtKey id) = K (openedAtKey id))
    (hf : K' (failuresKey id) = K (failuresKey id)) : Holds K' id C :=
  ⟨hs.trans h.state, ho.trans h.openedAt, hf.trans h.failures⟩

theorem Holds.empty (id : Str) : Holds Keyspace.empty id .fresh := ⟨rfl, rfl, rfl⟩

/-- What `GET` of the state finds. -/
theorem Holds.live_state (h : Holds K id C) (now : ℚ) :
    (K.live now (stateKey id)).map Entry.value = C.state.map fun s => .text s.value := by
  have hk : K (stateKey id) = (C.state.map fun s => Value.text s.value).map fun x => ⟨x, none⟩ := by
    rw [h.state, Option.map_map]
    rfl
  rw [Keyspace.live_of_permanent hk, hk, Option.map_map]
  exact Option.map_id'

/-- What `GET` of the time of opening finds. -/
theorem Holds.live_openedAt (h : Holds K id C) (now : ℚ) :
    (K.live now (openedAtKey id)).map Entry.value = C.openedAt.map Value.float := by
  have hk : K (openedAtKey id) = (C.openedAt.map Value.float).map fun x => ⟨x, none⟩ := by
    rw [h.openedAt, Option.map_map]
    rfl
  rw [Keyspace.live_of_permanent hk, hk, Option.map_map]
  exact Option.map_id'

/-- The counter, as `INCR` finds it. -/
theorem Holds.live_failures (h : Holds K id C) (now : ℚ) :
    K.live now (failuresKey id) =
      (C.counter.filter fun x => decide (now ≤ x.2)).map fun x => ⟨.int x.1, some x.2⟩ := by
  unfold Keyspace.live
  rw [h.failures]
  rcases C.counter with _ | ⟨n, d⟩
  · rfl
  · by_cases hd : now ≤ d <;> simp [Option.filter, hd]

/-! ### What a change does -/

/-- Counting a failure: the answer of `INCR`, and the keys. -/
theorem execAll_counting (cb : CircuitBreaker) (now : ℚ) (h : Holds K id C) :
    firstCount (Keyspace.execAll now K (counting cb id)).1 = some (C.failures now + 1) ∧
      (Keyspace.execAll now K (counting cb id)).2 = Function.update K (failuresKey id)
        (if 0 < cb.failureWindow then
          some ⟨.int (C.failures now + 1), some (now + cb.failureWindow)⟩ else none) := by
  have hincr : Keyspace.exec now K (.incr (failuresKey id)) = (.int (C.failures now + 1),
      Function.update K (failuresKey id) (some ⟨.int (C.failures now + 1),
        (C.counter.filter fun x => decide (now ≤ x.2)).map Prod.snd⟩)) := by
    unfold Keyspace.exec Circuit.failures
    dsimp only
    rw [h.live_failures now]
    rcases C.counter with _ | ⟨n, d⟩
    · simp
    · by_cases hd : now ≤ d <;> simp [Option.filter, hd]
  have hlive : Keyspace.live (Function.update K (failuresKey id)
      (some ⟨.int (C.failures now + 1),
        (C.counter.filter fun x => decide (now ≤ x.2)).map Prod.snd⟩)) now (failuresKey id) =
      some ⟨.int (C.failures now + 1),
        (C.counter.filter fun x => decide (now ≤ x.2)).map Prod.snd⟩ := by
    unfold Keyspace.live
    rw [Function.update_self]
    rcases C.counter with _ | ⟨n, d⟩
    · rfl
    · by_cases hd : now ≤ d <;> simp [Option.filter, hd]
  unfold counting
  simp only [Keyspace.execAll, hincr]
  refine ⟨rfl, ?_⟩
  simp only [Keyspace.exec, hlive, Function.update_idem]

/-- A change of a circuit. -/
theorem Holds.change (h : Holds K id C) (x : Change) :
    Holds (Keyspace.execAll now K (x.commands cb id)).2 id (C.apply cb now x) := by
  cases x with
  | count =>
    change Holds (Keyspace.execAll now K (counting cb id)).2 id _
    rw [(execAll_counting cb now h).2]
    refine ⟨?_, ?_, ?_⟩
    · simpa [Circuit.apply] using h.state
    · simpa [Circuit.apply] using h.openedAt
    · simp only [Function.update_self, Circuit.apply]
      split_ifs <;> rfl
  | turn s t =>
    cases s with
    | closed =>
      refine ⟨?_, ?_, ?_⟩ <;>
        simp [Change.commands, transition, Keyspace.execAll, Keyspace.exec, Circuit.apply,
          h.failures]
    | opened =>
      refine ⟨?_, ?_, ?_⟩ <;>
        simp [Change.commands, transition, Keyspace.execAll, Keyspace.exec, Circuit.apply,
          h.failures]
    | halfOpen =>
      refine ⟨?_, ?_, ?_⟩ <;>
        simp [Change.commands, transition, Keyspace.execAll, Keyspace.exec, Circuit.apply,
          h.failures, h.openedAt]
  | clear =>
    refine ⟨?_, ?_, ?_⟩ <;>
      simp [Change.commands, Keyspace.execAll, Keyspace.exec, Circuit.apply, h.state, h.openedAt]
  | reset =>
    refine ⟨?_, ?_, ?_⟩ <;>
      simp [Change.commands, clearing, Keyspace.execAll, Keyspace.exec, Circuit.apply,
        Circuit.fresh]

/-- A key that no command of a transaction names stays as it is. -/
theorem execAll_of_ne {key : Str} :
    ∀ (cmds : List Command) (K : Keyspace), (∀ c ∈ cmds, c.key ≠ key) →
      (Keyspace.execAll now K cmds).2 key = K key
  | [], _, _ => rfl
  | c :: cmds, K, h => by
    have hne : key ≠ c.key := (h c List.mem_cons_self).symm
    have hc : (Keyspace.exec now K c).2 key = K key := by
      cases c with
      | set k v => exact Function.update_of_ne hne _ _
      | del k => exact Function.update_of_ne hne _ _
      | incr k =>
        unfold Keyspace.exec
        dsimp only
        split
        · exact Function.update_of_ne hne _ _
        · exact Function.update_of_ne hne _ _
        · rfl
      | expire k n =>
        unfold Keyspace.exec
        dsimp only
        split
        · rfl
        · exact Function.update_of_ne hne _ _
    exact (execAll_of_ne cmds _ fun c hc => h c (List.mem_cons_of_mem _ hc)).trans hc

/-- A change of another circuit. -/
theorem Holds.change_of_ne (h : Holds K j C) (hj : j ≠ id) (x : Change) :
    Holds (Keyspace.execAll now K (x.commands cb id)).2 j C := by
  have hne : id ≠ j := hj.symm
  refine h.congr (execAll_of_ne _ _ ?_) (execAll_of_ne _ _ ?_) (execAll_of_ne _ _ ?_) <;>
    intro c hc <;>
    rcases x with _ | ⟨_ | _ | _, t⟩ | _ | _ <;>
    simp [Change.commands, counting, transition, clearing] at hc <;>
    rcases hc with rfl | rfl | rfl <;>
    simp [Command.key, hne]

end WebhookRelay
