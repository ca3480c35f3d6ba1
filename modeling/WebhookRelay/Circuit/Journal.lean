import WebhookRelay.Circuit.Keys

/-!
# What the journal says about an endpoint

Questions about the past of a circuit are questions about the journal of the server: which
transactions close it, and which count a failure. `recorded` lists the failures since the circuit
was last closed.
-/

namespace WebhookRelay

open Data Data.Redis CircuitBreaker

/-- The transaction closes the circuit: it writes CLOSED, or removes the state. -/
def closes (id : Str) (cmds : List Command) : Bool :=
  decide (.set (stateKey id) (.text CircuitState.closed.value) ∈ cmds ∨ .del (stateKey id) ∈ cmds)

/-- The transaction counts a failure. -/
def counts (id : Str) (cmds : List Command) : Bool := decide (.incr (failuresKey id) ∈ cmds)

/-- The circuit was opened with `q` as the time of opening, which is not in the future. -/
def Opening (J : Journal) (id : Str) (q : ℚ) : Prop :=
  ∃ now, (now, transition id .opened q) ∈ J ∧ q ≤ now

/-- What was opened stays on record. -/
theorem Opening.mono {J J' : Journal} {id : Str} {q : ℚ} (h : Opening J id q) (hJ : J <+: J') :
    Opening J' id q := by
  obtain ⟨now, hm, hq⟩ := h
  exact ⟨now, hJ.subset hm, hq⟩

/-- The times of the failures since the circuit was last closed, after one more transaction. -/
def record (id : Str) (ts : List ℚ) (x : ℚ × List Command) : List ℚ :=
  if closes id x.2 then [] else if counts id x.2 then x.1 :: ts else ts

/-- The times of the failures since the circuit was last closed, the latest first. -/
def recorded (id : Str) (J : Journal) : List ℚ := J.foldl (record id) []

@[simp] theorem recorded_append_singleton (id : Str) (J : Journal) (x : ℚ × List Command) :
    recorded id (J ++ [x]) = record id (recorded id J) x := by
  simp only [recorded, List.foldl_append, List.foldl_cons, List.foldl_nil]

/-! ### The changes -/

/-- The change closes the circuit. -/
def Change.isClosing : Change → Bool
  | .turn .closed _ => true
  | .reset => true
  | _ => false

/-- The change counts a failure. -/
def Change.isCount : Change → Bool
  | .count => true
  | _ => false

variable {cb : CircuitBreaker} {id j : Str}

theorem closes_commands (x : Change) :
    closes id (x.commands cb j) = (decide (id = j) && x.isClosing) := by
  by_cases h : id = j
  · subst h
    rcases x with _ | ⟨_ | _ | _, t⟩ | _ | _ <;>
      simp [closes, Change.commands, Change.isClosing, counting, transition, clearing]
  · rcases x with _ | ⟨_ | _ | _, t⟩ | _ | _ <;>
      simp [closes, Change.commands, counting, transition, clearing, h]

theorem counts_commands (x : Change) :
    counts id (x.commands cb j) = (decide (id = j) && x.isCount) := by
  rcases x with _ | ⟨_ | _ | _, t⟩ | _ | _ <;>
    simp [counts, Change.commands, Change.isCount, counting, transition, clearing]

/-- The failures on record after a change. -/
def Change.record (now : ℚ) (ts : List ℚ) : Change → List ℚ
  | .count => now :: ts
  | .turn .closed _ => []
  | .reset => []
  | _ => ts

/-- What a change of a circuit does to the records of the circuits. -/
theorem record_commands (x : Change) (ts : List ℚ) (now : ℚ) :
    record id ts (now, x.commands cb j) = if id = j then x.record now ts else ts := by
  unfold WebhookRelay.record
  rw [closes_commands, counts_commands]
  by_cases h : id = j
  · rcases x with _ | ⟨_ | _ | _, t⟩ | _ | _ <;>
      simp [h, Change.isClosing, Change.isCount, Change.record]
  · simp [h]

end WebhookRelay
