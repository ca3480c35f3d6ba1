import WebhookRelay.Circuit.Sequences
import WebhookRelay.Data.Window

/-!
# The failure window

The counter of failures starts its lifetime anew at every failure, so it counts a burst, not a
window: `Counts` says so for every circuit after every sequence of calls. `opens_iff_window` says
exactly when the two agree on opening a circuit.
-/

namespace WebhookRelay

open Data Data.Redis Effect

namespace CircuitBreaker

variable {cb : CircuitBreaker} {o : Origin} {s s' s₁ : Server} {id : Str}

/-- The counter of a circuit is the burst of the failures on record, which are listed latest first
and not in the future, if the failure window is positive. -/
structure Counts (cb : CircuitBreaker) (s : Server) (id : Str) : Prop where
  burst : 0 < cb.failureWindow → ∀ now, s.now ≤ now → (Circuit.of s id).failures now =
    burst (cb.failureWindow : ℚ) (recorded id s.journal) now
  sorted : (recorded id s.journal).Pairwise (· ≥ ·)
  past : ∀ t ∈ recorded id s.journal, t ≤ s.now

theorem counts_initial (now : ℚ) (id : Str) : Counts cb ⟨[], now⟩ id := by
  refine ⟨fun _ _ _ => ?_, .nil, fun t ht => (nomatch ht)⟩
  rw [show Circuit.of ⟨[], now⟩ id = .fresh from (Holds.empty id).ofKeys]
  rfl

theorem Counts.later (h : Counts cb s id) (hlater : s.Later s₁) : Counts cb s₁ id := by
  refine ⟨fun hW now hnow => ?_, ?_, ?_⟩
  · rw [of_later hlater, hlater.1]
    exact h.burst hW now (hlater.2.trans hnow)
  · rw [hlater.1]
    exact h.sorted
  · rw [hlater.1]
    exact fun t ht => (h.past t ht).trans hlater.2

/-- A failure on record is the latest one. -/
theorem Counts.sorted_cons (h : Counts cb s id) {t : ℚ} (ht : s.now ≤ t) :
    (t :: recorded id s.journal).Pairwise (· ≥ ·) :=
  List.pairwise_cons.mpr ⟨fun x hx => (h.past x hx).trans ht, h.sorted⟩

/-- What a call that runs alone leaves of the counter, when nothing is counted. -/
theorem counts_of_counter (h : Counts cb s id) (hnow : s.now ≤ s'.now)
    (hcounter : (Circuit.of s' id).counter = (Circuit.of s id).counter)
    (hrecorded : recorded id s'.journal = recorded id s.journal) : Counts cb s' id := by
  refine ⟨fun hW now hle => ?_, ?_, ?_⟩
  · rw [hrecorded, ← h.burst hW now (hnow.trans hle)]
    unfold Circuit.failures
    rw [hcounter]
  · rw [hrecorded]
    exact h.sorted
  · rw [hrecorded]
    exact fun t ht => (h.past t ht).trans hnow

/-- A closed circuit has no counter and no failure on record. -/
theorem counts_of_none (hcounter : (Circuit.of s' id).counter = none)
    (hrecorded : recorded id s'.journal = []) : Counts cb s' id := by
  refine ⟨fun _ now _ => ?_, ?_, ?_⟩
  · rw [hrecorded]
    unfold Circuit.failures
    rw [hcounter]
    rfl
  · rw [hrecorded]
    exact .nil
  · rw [hrecorded]
    exact fun t ht => nomatch ht

/-- Looking at a circuit leaves its counter alone. -/
theorem counter_looked (C : Circuit) (now : ℚ) : (C.looked cb now).counter = C.counter := by
  unfold Circuit.looked
  split_ifs <;> rfl

/-- The counter that a failure leaves. -/
theorem counter_recordFailure (cb : CircuitBreaker) (C : Circuit) (i : Instants) :
    (C.run cb i .recordFailure).2.counter = (C.apply cb i.count .count).counter := by
  unfold Circuit.run
  dsimp only
  split_ifs
  · exact counter_looked _ _
  · exact counter_looked _ _

/-- Every call on its own keeps the counter a burst. -/
theorem Counts.ran {i : Instants} {a : Answer} (h : Counts cb s id)
    (hran : Ran cb o s i a s') : Counts cb s' id := by
  have hcount : s.now ≤ s'.now := hran.now_le.trans
    (hran.count_le.trans (hran.look_le.trans hran.le_now))
  have hC := hran.circuit id
  have hR := hran.recorded id
  by_cases hid : id = o.endpoint
  · rw [if_pos hid] at hC hR
    cases ho : o.call with
    | getState =>
      rw [ho] at hC hR
      exact counts_of_counter h hcount (by rw [hC]; exact counter_looked _ _) hR
    | isAllowed =>
      rw [ho] at hC hR
      exact counts_of_counter h hcount (by rw [hC]; exact counter_looked _ _) hR
    | recordSuccess =>
      rw [ho] at hC hR
      unfold Circuit.run at hC
      unfold Call.record at hR
      dsimp only at hC hR
      split_ifs at hC hR with hseen
      · exact counts_of_none (by rw [hC]) hR
      · exact counts_of_counter h hcount (by rw [hC]; exact counter_looked _ _) hR
    | recordFailure =>
      rw [ho] at hC hR
      have hR : recorded id s'.journal = i.count :: recorded id s.journal := hR
      have hle : i.count ≤ s'.now := hran.count_le.trans (hran.look_le.trans hran.le_now)
      refine ⟨fun hW now hnow => ?_, ?_, ?_⟩
      · have hcounter := counter_recordFailure cb (Circuit.of s id) i
        rw [← hC] at hcounter
        have hcount : (Circuit.of s' id).failures now =
            ((Circuit.of s id).apply cb i.count .count).failures now := by
          unfold Circuit.failures
          rw [hcounter]
        rw [hcount, Circuit.failures_count, hR, burst_cons, h.burst hW i.count hran.now_le]
        simp only [hW, true_and]
        push_cast
        rfl
      · rw [hR]
        exact h.sorted_cons hran.now_le
      · rw [hR]
        refine List.forall_mem_cons.mpr ⟨hle, fun t ht => ?_⟩
        exact (h.past t ht).trans hcount
    | reset =>
      rw [ho] at hC hR
      exact counts_of_none (by rw [hC]; rfl) hR
  · rw [if_neg hid] at hC hR
    exact counts_of_counter h hcount (by rw [hC]) hR

/-- **The counter of a circuit is the burst of its failures**, after every sequence of calls. -/
theorem Sequence.counts {now : ℚ} {calls : List Served} (h : Sequence cb ⟨[], now⟩ calls s)
    (id : Str) : Tidy s ∧ Counts cb s id :=
  h.invariant (J := fun s => Counts cb s id) (tidy_initial now) (counts_initial now id)
    (fun _ _ hs hlater => hs.later hlater) fun _ _ _ _ _ _ hs hran => hs.ran hran

/-- A failure that finds the circuit CLOSED opens it if and only if the burst reaches the
threshold. -/
theorem opened_iff_burst {i : Instants} {a : Answer} (h : Counts cb s id)
    (hran : Ran cb ⟨id, .recordFailure⟩ s i a s') (hW : 0 < cb.failureWindow)
    (hclosed : (Circuit.of s id).mode = .closed) : (Circuit.of s' id).mode = .opened ↔
      cb.failureThreshold ≤
        burst (cb.failureWindow : ℚ) (i.count :: recorded id s.journal) i.count := by
  have hW' : (0 : ℚ) < cb.failureWindow := by exact_mod_cast hW
  have hexp : ((Circuit.of s id).apply cb i.count .count).expired cb i.look = false := by
    unfold Circuit.expired
    rw [show ((Circuit.of s id).apply cb i.count .count).mode = .closed from hclosed]
    rfl
  have hseen : ((Circuit.of s id).apply cb i.count .count).seen cb i.look = .closed := by
    unfold Circuit.seen
    rw [hexp]
    exact hclosed
  have hlooked : ((Circuit.of s id).apply cb i.count .count).looked cb i.look =
      (Circuit.of s id).apply cb i.count .count := by
    unfold Circuit.looked
    rw [hexp]
    rfl
  have hburst : (burst (cb.failureWindow : ℚ) (i.count :: recorded id s.journal) i.count : ℤ) =
      (Circuit.of s id).failures i.count + 1 := by
    rw [h.burst hW i.count hran.now_le, burst_cons, if_pos (lt_add_of_pos_right _ hW').le]
    push_cast
    rfl
  have hC := hran.circuit id
  rw [if_pos rfl] at hC
  rw [hC, hburst]
  unfold Circuit.run
  dsimp only
  rw [hseen, hlooked]
  have htrips : Phase.trips cb (some ((Circuit.of s id).failures i.count + 1)) .closed = true ↔
      cb.failureThreshold ≤ (Circuit.of s id).failures i.count + 1 := by
    simp [Phase.trips]
  rw [← htrips]
  split_ifs with h
  · exact ⟨fun _ => h, fun _ => rfl⟩
  · refine ⟨fun hopen => ?_, fun h' => absurd h' h⟩
    cases hclosed.symm.trans hopen

/-- **When the counter is a window**: after every sequence of calls, a failure at the time `t` that
finds the circuit CLOSED opens it exactly when `failureThreshold` failures since the last closing
lie in the window `(t - failureWindow, t]`, if and only if the latest `failureThreshold` ones lie
in it whenever each of them is at most `failureWindow` after the one before. -/
theorem opens_iff_window {now : ℚ} {calls : List Served} {r : Except Exn Answer} {n : ℕ}
    (hW : 0 < cb.failureWindow) (hn : 1 ≤ n) (hF : cb.failureThreshold = n)
    (h : Sequence cb ⟨[], now⟩ calls s) (hlater : s.Later s₁)
    (hrun : ((⟨id, .recordFailure⟩ : Origin).program cb).Executes Server.Later exec s₁ r s')
    (hclosed : (Circuit.of s id).mode = .closed) :
    ∃ t ts, s₁.now ≤ t ∧ t ≤ s'.now ∧ recorded id s'.journal = t :: ts ∧
      ((((Circuit.of s' id).mode = .opened ↔
          n ≤ (t :: ts).countP fun x => decide (t - cb.failureWindow < x ∧ x ≤ t))) ↔
        (n ≤ (t :: ts).length →
          ((t :: ts).take n).IsChain (fun later earlier : ℚ => later ≤ earlier + cb.failureWindow) →
            ∀ x ∈ (t :: ts).take n, t - cb.failureWindow < x)) := by
  obtain ⟨htidy, hcounts⟩ := h.counts id
  have hcounts₁ := hcounts.later hlater
  obtain ⟨i, a, -, hran⟩ := executes_run hrun (htidy.of_keyspace hlater.keyspace)
  have hW' : (0 : ℚ) < cb.failureWindow := by exact_mod_cast hW
  have hR := hran.recorded id
  rw [if_pos rfl] at hR
  have hsorted := hcounts₁.sorted_cons hran.now_le
  refine ⟨i.count, recorded id s₁.journal, hran.now_le,
    hran.count_le.trans (hran.look_le.trans hran.le_now), hR, ?_⟩
  have hpast : ∀ x ∈ i.count :: recorded id s₁.journal, x ≤ i.count :=
    List.forall_mem_cons.mpr ⟨le_rfl, (List.pairwise_cons.mp hsorted).1⟩
  have hcount : (i.count :: recorded id s₁.journal).countP
        (fun x => decide (i.count - cb.failureWindow < x ∧ x ≤ i.count)) =
      (i.count :: recorded id s₁.journal).countP
        fun x => decide (i.count - cb.failureWindow < x) := by
    refine List.countP_congr fun x hx => ?_
    simp [hpast x hx]
  rw [opened_iff_burst hcounts₁ hran hW (by rw [of_later hlater]; exact hclosed), hcount, hF,
    Nat.cast_le]
  exact le_burst_iff_window hW' hn hsorted

/-! ### Five failures -/

/-- The default parameters: 5 failures in 60 seconds open a circuit for 300 seconds. -/
def defaultBreaker : CircuitBreaker := ⟨5, 60, 300⟩

/-- Failures for the endpoint at given times. -/
def sampleFailures (ts : List ℚ) : List (ℚ × Origin) :=
  ts.map fun t => (t, ⟨sampleEndpoint, .recordFailure⟩)

/-- The server after failures at the times `ts`. -/
def afterFailures (ts : List ℚ) : Server := (serve defaultBreaker ⟨[], 0⟩ (sampleFailures ts)).2

/-- The server after one more failure at the time `now`. -/
def afterOneMore (ts : List ℚ) (now : ℚ) : Server :=
  (((⟨sampleEndpoint, .recordFailure⟩ : Origin).program defaultBreaker).drive exec
    { afterFailures ts with now := now }).2

/-- The fifth of five failures within 40 seconds opens the circuit, and the window says so. -/
theorem opens_iff_window_of_five :
    (Circuit.of (afterOneMore [0, 10, 20, 30] 40) sampleEndpoint).mode = .opened ↔
      5 ≤ [40, 30, 20, 10, 0].countP fun x : ℚ => decide (40 - 60 < x ∧ x ≤ 40) := by
  have h : Sequence defaultBreaker ⟨[], 0⟩ _ (afterFailures [0, 10, 20, 30]) := sequence_serve _ _ _
  have hlater : (afterFailures [0, 10, 20, 30]).Later
      { afterFailures [0, 10, 20, 30] with now := 40 } := ⟨rfl, by decide +kernel⟩
  have hclosed : (Circuit.of (afterFailures [0, 10, 20, 30]) sampleEndpoint).mode = .closed := by
    decide +kernel
  have hrun := Prog.executes_drive (I := redis) Server.Later.refl exec
    ((⟨sampleEndpoint, .recordFailure⟩ : Origin).program defaultBreaker)
    { afterFailures [0, 10, 20, 30] with now := 40 }
  obtain ⟨t, ts, -, -, hrec, hiff⟩ := opens_iff_window (n := 5) (by decide) (by decide) rfl h hlater
    hrun hclosed
  have htimes : recorded sampleEndpoint (afterOneMore [0, 10, 20, 30] 40).journal =
      [40, 30, 20, 10, 0] := by
    decide +kernel
  cases htimes.symm.trans hrec
  exact hiff.mpr fun _ _ => by decide +kernel

/-- The fifth of five failures, each 30 seconds after the one before, opens the circuit, although
only two of them lie in the last 60 seconds. -/
theorem opens_without_window : ∃ calls,
    Sequence defaultBreaker ⟨[], 0⟩ calls (afterFailures [0, 30, 60, 90]) ∧
    (∃ r, ((⟨sampleEndpoint, .recordFailure⟩ : Origin).program defaultBreaker).Executes
      Server.Later exec { afterFailures [0, 30, 60, 90] with now := 120 } r
        (afterOneMore [0, 30, 60, 90] 120)) ∧
    (Circuit.of (afterFailures [0, 30, 60, 90]) sampleEndpoint).mode = .closed ∧
    recorded sampleEndpoint (afterOneMore [0, 30, 60, 90] 120).journal = [120, 90, 60, 30, 0] ∧
    ¬((Circuit.of (afterOneMore [0, 30, 60, 90] 120) sampleEndpoint).mode = .opened ↔
      5 ≤ [120, 90, 60, 30, 0].countP fun x : ℚ => decide (120 - 60 < x ∧ x ≤ 120)) :=
  ⟨_, sequence_serve _ _ _, ⟨_, Prog.executes_drive (I := redis) Server.Later.refl exec _ _⟩,
    by decide +kernel, by decide +kernel, by decide +kernel⟩

/-- At its deadline a counter has not expired. -/
example : (Circuit.of (afterOneMore [0, 10, 20, 30] 90) sampleEndpoint).mode = .opened := by
  decide +kernel

/-- After its deadline it has. -/
example : (Circuit.of (afterOneMore [0, 10, 20, 30] 91) sampleEndpoint).mode = .closed := by
  decide +kernel

end CircuitBreaker

end WebhookRelay
