import WebhookRelay.Repositories

/-!
# The retry strategy

Source: `services/retry_service.py`. The delays are computed over exact rationals.
-/

namespace WebhookRelay

open Data Effect

namespace ExponentialBackoffStrategy

/-- `RETRYABLE_STATUS_CODES`. -/
def retryableStatusCodes : List ℤ := [429, 500, 502, 503, 504]

/-- `PERMANENT_FAILURE_CODES`. -/
def permanentFailureCodes : List ℤ := [400, 401, 403, 404, 410]

/-- The default of `initial_delay_seconds`. -/
def initialDelaySeconds : ℚ := 30

/-- The default of `jitter_factor`. -/
def jitterFactor : ℚ := 1 / 4

/-- The delay before the jitter is added. -/
def rawDelay (attemptNumber : ℕ) (base : ℚ) (maxDelaySeconds : ℕ) : ℚ :=
  min (initialDelaySeconds * base ^ ((attemptNumber : ℤ) - 1)) maxDelaySeconds

/-- Source: `compute_delay` with the default `initial_delay_seconds` and `jitter_factor`, given
the draw of `random.uniform`. -/
def computeDelay (attemptNumber : ℕ) (base : ℚ) (maxDelaySeconds : ℕ) (draw : ℚ) : ℚ :=
  let raw := rawDelay attemptNumber base maxDelaySeconds
  raw + raw * jitterFactor * draw

/-- Source: `should_retry`: whether to retry, and the delay that overrides the backoff. -/
def shouldRetry (httpStatusCode : Option ℤ) (attemptCount maxRetries : ℕ)
    (retryAfterHeader : Option Str) : Bool × Option PyFloat :=
  if maxRetries ≤ attemptCount then (false, none)
  else match httpStatusCode with
    | none => (true, none)
    | some code =>
      if code ∈ permanentFailureCodes then (false, none)
      else if code ∈ retryableStatusCodes then
        match retryAfterHeader with
        | some header =>
          if code = 429 ∧ header ≠ [] then (true, pyFloat header) else (true, none)
        | none => (true, none)
      else if 400 ≤ code ∧ code < 500 then (false, none)
      else (true, none)

/-- A retry is within the budget, and never follows a 410. -/
theorem shouldRetry_eq_true {code : Option ℤ} {n m : ℕ} {header : Option Str}
    (h : (shouldRetry code n m header).1 = true) : n < m ∧ code ≠ some 410 := by
  unfold shouldRetry at h
  by_cases hm : m ≤ n
  · rw [if_pos hm] at h
    cases h
  · refine ⟨by omega, ?_⟩
    rintro rfl
    simp [hm, permanentFailureCodes] at h

/-- Nothing is retried once the budget is used up. -/
theorem shouldRetry_of_le {n m : ℕ} (h : m ≤ n) (code : Option ℤ) (header : Option Str) :
    shouldRetry code n m header = (false, none) := by
  unfold shouldRetry
  exact if_pos h

/-- Within the budget every status is retried but a 4xx other than 429. -/
theorem shouldRetry_of_lt (code : Option ℤ) {n m : ℕ} (h : n < m) (header : Option Str) :
    (shouldRetry code n m header).1 =
      !code.any fun c => decide (400 ≤ c ∧ c < 500 ∧ c ≠ 429) := by
  have hm : ¬ m ≤ n := by omega
  unfold shouldRetry
  rw [if_neg hm]
  cases code with
  | none => rfl
  | some c =>
    rw [Option.any_some]
    dsimp only
    split_ifs with hp hr hc
    · have : 400 ≤ c ∧ c < 500 ∧ c ≠ 429 := by
        simp only [permanentFailureCodes, List.mem_cons, List.not_mem_nil, or_false] at hp
        omega
      simp [this]
    · have : ¬ (400 ≤ c ∧ c < 500 ∧ c ≠ 429) := by
        simp only [retryableStatusCodes, List.mem_cons, List.not_mem_nil, or_false] at hr
        omega
      rw [decide_eq_false this]
      cases header with
      | none => rfl
      | some s => dsimp only; split_ifs <;> rfl
    · have hne : c ≠ 429 := by
        rintro rfl
        exact hr (by decide)
      simp [hc, hne]
    · have : ¬ (400 ≤ c ∧ c < 500 ∧ c ≠ 429) := fun h => hc ⟨h.1, h.2.1⟩
      simp [this]

/-- `delay_override or self.compute_delay(...)`: a zero override counts as none. -/
def delay (attemptNumber : ℕ) (backoffBase : ℚ) (maxDelaySeconds : ℕ)
    (delayOverride : Option PyFloat) : Relay PyFloat :=
  match delayOverride with
  | some x =>
    if x.truthy then pure x
    else do
      let draw ← uniform
      pure (.finite (computeDelay attemptNumber backoffBase maxDelaySeconds draw))
  | none => do
    let draw ← uniform
    pure (.finite (computeDelay attemptNumber backoffBase maxDelaySeconds draw))

/-- Source: `next_retry_at`. -/
def nextRetryAt (attemptNumber : ℕ) (backoffBase : ℚ) (maxDelaySeconds : ℕ)
    (delayOverride : Option PyFloat) : Relay Datetime := do
  nowPlusSeconds (← delay attemptNumber backoffBase maxDelaySeconds delayOverride)

end ExponentialBackoffStrategy

end WebhookRelay
