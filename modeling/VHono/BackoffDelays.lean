import Mathlib.Data.Rat.Floor
import Mathlib.Tactic

/-! # Backoff delays

    The delay before another attempt grows with the attempt up to a limit, and
    a random part is then added or taken away.  Reals are rationals here.  The
    limit is applied before the random part, so it bounds the delay only where
    the random part is small, or too large for the generator. -/

namespace VHono

structure RetryConfig where
  maxRetries   : Int := 3
  initialDelay : Int := 1000
  maxDelay     : Int := 30000
  multiplier   : Rat := 2
  jitter       : Bool := true
  jitterFactor : Rat := 1 / 4

def defaultRetryConfig : RetryConfig where
  maxRetries := 3
  initialDelay := 1000
  maxDelay := 30000
  multiplier := 2
  jitter := true
  jitterFactor := 1 / 4

def aggressiveRetryConfig : RetryConfig where
  maxRetries := 5
  initialDelay := 500
  maxDelay := 10000
  multiplier := 3 / 2
  jitter := true
  jitterFactor := 1 / 5

def conservativeRetryConfig : RetryConfig where
  maxRetries := 2
  initialDelay := 2000
  maxDelay := 60000
  multiplier := 3
  jitter := true
  jitterFactor := 3 / 10

/-- `int(x)`, toward zero. -/
def intOfReal (x : Rat) : Int := x.num.tdiv x.den

/-- The sum, difference or product of two ints. -/
def wrapInt (n : Int) : Int := n.bmod (2 ^ 32)

/-- `rand.int_in_range(lo, hi)`, which fails on an empty range; `draw` is what the generator
    drew. -/
def intInRange (draw : Nat) (lo hi : Int) : Option Int :=
  if hi ≤ lo then none else some (lo + draw % (hi - lo))

namespace RetryConfig

/-- The delay without a random part. -/
def baseDelay (config : RetryConfig) (attempt : Nat) : Int :=
  intOfReal (min ((config.initialDelay : Rat) * config.multiplier ^ attempt) config.maxDelay)

/-- Half the range that the random part moves a delay in. -/
def jitterRange (config : RetryConfig) (delay : Int) : Int :=
  intOfReal ((delay : Rat) * config.jitterFactor)

/-- The delay with its random part. -/
def jittered (config : RetryConfig) (draw : Nat) (delay : Int) : Int :=
  if config.jitter = true ∧ delay > 0 then
    let jitterRange := config.jitterRange delay
    if jitterRange > 0 then
      let jitter := (intInRange draw 0 (wrapInt (jitterRange * 2))).getD 0
      wrapInt (wrapInt (delay - jitterRange) + jitter)
    else delay
  else delay

def calculateDelay (config : RetryConfig) (draw attempt : Nat) : Int :=
  let delay := config.jittered draw (config.baseDelay attempt)
  if delay < 0 then 0 else delay

/-- Delays that are ints and not negative, a multiplier of at least one, and a factor between zero
    and one. -/
structure Valid (config : RetryConfig) : Prop where
  initial    : 0 ≤ config.initialDelay ∧ config.initialDelay < 2 ^ 31
  limit      : 0 ≤ config.maxDelay ∧ config.maxDelay < 2 ^ 31
  multiplier : 1 ≤ config.multiplier
  factor     : 0 ≤ config.jitterFactor ∧ config.jitterFactor ≤ 1

end RetryConfig

/-! ## Rounding -/

theorem intOfReal_eq_floor {x : Rat} (hx : 0 ≤ x) : intOfReal x = ⌊x⌋ := by
  rw [intOfReal, Int.tdiv_eq_ediv_of_nonneg (Rat.num_nonneg.mpr hx), Rat.floor_def']

theorem wrapInt_eq {n : Int} (hlow : -2 ^ 31 ≤ n) (hhigh : n < 2 ^ 31) : wrapInt n = n :=
  Int.bmod_eq_of_le (by omega) (by omega)

/-! ## What a configuration gives -/

namespace RetryConfig

variable {config : RetryConfig} {attempt : Nat}

/-- The delay without a random part, before it is rounded. -/
def capped (config : RetryConfig) (attempt : Nat) : Rat :=
  min ((config.initialDelay : Rat) * config.multiplier ^ attempt) config.maxDelay

theorem Valid.capped_nonneg (h : config.Valid) (attempt : Nat) : 0 ≤ config.capped attempt := by
  have hinitial : (0 : Rat) ≤ config.initialDelay := by exact_mod_cast h.initial.1
  have hlimit : (0 : Rat) ≤ config.maxDelay := by exact_mod_cast h.limit.1
  have hpower : 0 ≤ config.multiplier ^ attempt :=
    pow_nonneg (le_trans zero_le_one h.multiplier) attempt
  exact le_min (mul_nonneg hinitial hpower) hlimit

theorem Valid.baseDelay_eq (h : config.Valid) (attempt : Nat) :
    config.baseDelay attempt = ⌊config.capped attempt⌋ :=
  intOfReal_eq_floor (h.capped_nonneg attempt)

/-- A later delay is no shorter. -/
theorem Valid.baseDelay_mono (h : config.Valid) {later : Nat} (hle : attempt ≤ later) :
    config.baseDelay attempt ≤ config.baseDelay later := by
  have hinitial : (0 : Rat) ≤ config.initialDelay := by exact_mod_cast h.initial.1
  have hpower : config.multiplier ^ attempt ≤ config.multiplier ^ later :=
    pow_le_pow_right₀ h.multiplier hle
  rw [h.baseDelay_eq, h.baseDelay_eq]
  exact Int.floor_le_floor (min_le_min_right _ (mul_le_mul_of_nonneg_left hpower hinitial))

theorem Valid.baseDelay_bounds (h : config.Valid) (attempt : Nat) :
    0 ≤ config.baseDelay attempt ∧ config.baseDelay attempt ≤ config.maxDelay := by
  rw [h.baseDelay_eq]
  refine ⟨Int.floor_nonneg.mpr (h.capped_nonneg attempt), ?_⟩
  have hfloor := Int.floor_le_floor (min_le_right
    ((config.initialDelay : Rat) * config.multiplier ^ attempt) (config.maxDelay : Rat))
  rwa [Int.floor_intCast] at hfloor

theorem Valid.jitterRange_bounds (h : config.Valid) {delay : Int} (hdelay : 0 ≤ delay) :
    0 ≤ config.jitterRange delay ∧ config.jitterRange delay ≤ delay := by
  have hcast : (0 : Rat) ≤ delay := by exact_mod_cast hdelay
  have hproduct : 0 ≤ (delay : Rat) * config.jitterFactor := mul_nonneg hcast h.factor.1
  rw [jitterRange, intOfReal_eq_floor hproduct]
  refine ⟨Int.floor_nonneg.mpr hproduct, ?_⟩
  have hfloor := Int.floor_le_floor (mul_le_of_le_one_right hcast h.factor.2)
  rwa [Int.floor_intCast] at hfloor

/-- The range of the random part at an attempt. -/
def rangeAt (config : RetryConfig) (attempt : Nat) : Int :=
  config.jitterRange (config.baseDelay attempt)

theorem Valid.rangeAt_bounds (h : config.Valid) (attempt : Nat) :
    0 ≤ config.rangeAt attempt ∧ config.rangeAt attempt ≤ config.baseDelay attempt :=
  h.jitterRange_bounds (h.baseDelay_bounds attempt).1

/-! ## The delay, case by case -/

/-- The jitter of a range; past the largest range that can be doubled there is none. -/
theorem jitter_eq {w : Int} (hpos : 0 < w) (hsmall : w < 2 ^ 31) (draw : Nat) :
    (intInRange draw 0 (wrapInt (w * 2))).getD 0 = if w < 2 ^ 30 then draw % (w * 2) else 0 := by
  by_cases hroom : w < 2 ^ 30
  · have hdouble : wrapInt (w * 2) = w * 2 := wrapInt_eq (by omega) (by omega)
    rw [hdouble, intInRange, if_neg (by omega), if_pos hroom, Option.getD_some, Int.sub_zero,
      Int.zero_add]
  · -- the double of the range is negative as an int
    have hdouble : wrapInt (w * 2) = w * 2 - 2 ^ 32 := by
      rw [wrapInt, Int.bmod_def]
      omega
    rw [hdouble, intInRange, if_pos (by omega), if_neg hroom, Option.getD_none]

/-- A sum past the largest int is negative, which counts as zero. -/
theorem clamped_wrapInt {d : Int} (hlow : 0 ≤ d) (hhigh : d < 2 ^ 32) :
    (if wrapInt d < 0 then 0 else wrapInt d) = if d < 2 ^ 31 then d else 0 := by
  by_cases hfits : d < 2 ^ 31
  · rw [wrapInt_eq (by omega) hfits, if_neg (Int.not_lt.mpr hlow), if_pos hfits]
  · have hwrapped : wrapInt d = d - 2 ^ 32 := by
      rw [wrapInt, Int.bmod_def]
      omega
    rw [hwrapped, if_pos (by omega), if_neg hfits]

/-- The delay moved by the random part. -/
def moved (config : RetryConfig) (draw attempt : Nat) : Int :=
  config.baseDelay attempt - config.rangeAt attempt + draw % (config.rangeAt attempt * 2)

theorem Valid.moved_bounds (h : config.Valid) (draw : Nat) (hpos : 0 < config.rangeAt attempt) :
    0 ≤ config.moved draw attempt ∧ config.moved draw attempt < 2 ^ 32 := by
  have hlimit := h.limit
  have hbase := h.baseDelay_bounds attempt
  have hrange := h.rangeAt_bounds attempt
  have hmod := Int.emod_nonneg (draw : Int) (show config.rangeAt attempt * 2 ≠ 0 by omega)
  have hlt := Int.emod_lt_of_pos (draw : Int) (show 0 < config.rangeAt attempt * 2 by omega)
  rw [moved]
  omega

/-- What a delay becomes. -/
theorem Valid.calculateDelay_eq (h : config.Valid) (draw attempt : Nat) :
    config.calculateDelay draw attempt =
      if config.jitter = true ∧ 0 < config.rangeAt attempt then
        if config.rangeAt attempt < 2 ^ 30 then
          if config.moved draw attempt < 2 ^ 31 then config.moved draw attempt else 0
        else config.baseDelay attempt - config.rangeAt attempt
      else config.baseDelay attempt := by
  have hlimit := h.limit
  have hbase := h.baseDelay_bounds attempt
  have hrange := h.rangeAt_bounds attempt
  by_cases hmoves : config.jitter = true ∧ 0 < config.rangeAt attempt
  · obtain ⟨hjitter, hpos⟩ := hmoves
    have hbounds := h.moved_bounds draw hpos
    have hdiff : wrapInt (config.baseDelay attempt - config.rangeAt attempt)
        = config.baseDelay attempt - config.rangeAt attempt := wrapInt_eq (by omega) (by omega)
    have hjittered : config.jittered draw (config.baseDelay attempt)
        = wrapInt (if config.rangeAt attempt < 2 ^ 30 then config.moved draw attempt
            else config.baseDelay attempt - config.rangeAt attempt) := by
      rw [jittered, if_pos ⟨hjitter, Int.lt_of_lt_of_le hpos hrange.2⟩]
      show (if config.rangeAt attempt > 0 then wrapInt (wrapInt (config.baseDelay attempt
        - config.rangeAt attempt) + (intInRange draw 0 (wrapInt (config.rangeAt attempt * 2))).getD 0)
        else _) = _
      rw [if_pos hpos, jitter_eq hpos (by omega), hdiff]
      split
      · rfl
      · rw [Int.add_zero]
    rw [if_pos (⟨hjitter, hpos⟩ : config.jitter = true ∧ 0 < config.rangeAt attempt),
      calculateDelay, hjittered]
    split
    · exact clamped_wrapInt hbounds.1 hbounds.2
    · rw [hdiff, if_neg (by omega)]
  · have hsame : config.jittered draw (config.baseDelay attempt) = config.baseDelay attempt := by
      rw [jittered]
      split
      · rename_i hjitter
        exact if_neg (fun hpos => hmoves ⟨hjitter.1, hpos⟩)
      · rfl
    rw [calculateDelay, hsame, if_neg hmoves]
    exact if_neg (Int.not_lt.mpr hbase.1)

/-! ## Where the limit holds -/

/-- The delays are within the limit, and without a random part they are the powers, capped and
    rounded down, one after the other. -/
structure DelaysKept (config : RetryConfig) (attempt : Nat) : Prop where
  bounded : ∀ draw, 0 ≤ config.calculateDelay draw attempt ∧
    config.calculateDelay draw attempt ≤ config.maxDelay
  exact   : config.jitter = false → ∀ draw, config.calculateDelay draw attempt
    = ⌊min ((config.initialDelay : Rat) * config.multiplier ^ attempt) config.maxDelay⌋
  rising  : config.jitter = false → ∀ draw draw' later, attempt ≤ later →
    config.calculateDelay draw attempt ≤ config.calculateDelay draw' later

/-- The random part is off, or cannot lift the delay over the limit, or has a range that the
    generator refuses, or the limit is the largest int. -/
def JitterFits (config : RetryConfig) (attempt : Nat) : Prop :=
  config.jitter = false ∨ config.rangeAt attempt ≤ config.maxDelay - config.baseDelay attempt + 1 ∨
    2 ^ 30 ≤ config.rangeAt attempt ∨ config.maxDelay = 2 ^ 31 - 1

theorem Valid.calculateDelay_off (h : config.Valid) (hoff : config.jitter = false) (draw attempt : Nat) :
    config.calculateDelay draw attempt = config.baseDelay attempt := by
  rw [h.calculateDelay_eq, hoff, if_neg (fun hjitter => Bool.false_ne_true hjitter.1)]

theorem Valid.bounded_of_fits (h : config.Valid) (hfits : config.JitterFits attempt) (draw : Nat) :
    0 ≤ config.calculateDelay draw attempt ∧
      config.calculateDelay draw attempt ≤ config.maxDelay := by
  have hlimit := h.limit
  have hbase := h.baseDelay_bounds attempt
  have hrange := h.rangeAt_bounds attempt
  rw [h.calculateDelay_eq]
  split_ifs with hmoves hsmall hint
  · have hbounds := h.moved_bounds draw hmoves.2
    have hlt := Int.emod_lt_of_pos (draw : Int)
      (show 0 < config.rangeAt attempt * 2 by have := hmoves.2; omega)
    refine ⟨hbounds.1, ?_⟩
    rcases hfits with hoff | hroom | hlarge | hmax
    · rw [hoff] at hmoves
      exact absurd hmoves.1 Bool.false_ne_true
    · rw [moved]
      omega
    · omega
    · omega
  · omega
  · omega
  · omega

theorem Valid.fits_of_bounded (h : config.Valid)
    (hbounded : ∀ draw, config.calculateDelay draw attempt ≤ config.maxDelay) :
    config.JitterFits attempt := by
  have hlimit := h.limit
  have hbase := h.baseDelay_bounds attempt
  have hrange := h.rangeAt_bounds attempt
  by_contra hnot
  simp only [JitterFits, not_or] at hnot
  obtain ⟨hon, hroom, hlarge, hmax⟩ := hnot
  rw [Bool.not_eq_false] at hon
  have hpos : 0 < config.rangeAt attempt := by omega
  -- the draw that lifts the delay to one above the limit
  obtain ⟨draw, hdraw⟩ : ∃ draw : Nat, (draw : Int)
      = config.maxDelay + 1 - config.baseDelay attempt + config.rangeAt attempt :=
    ⟨(config.maxDelay + 1 - config.baseDelay attempt + config.rangeAt attempt).toNat, by omega⟩
  have hmod : (draw : Int) % (config.rangeAt attempt * 2) = draw :=
    Int.emod_eq_of_lt (by omega) (by omega)
  have hmoved : config.moved draw attempt = config.maxDelay + 1 := by
    rw [moved, hmod, hdraw]
    omega
  have hover := hbounded draw
  rw [h.calculateDelay_eq, if_pos ⟨hon, hpos⟩, if_pos (by omega), hmoved, if_pos (by omega)] at hover
  omega

/-- **THE LIMIT.**  The delays of an attempt are as they should be exactly if the random part fits
    under the limit. -/
theorem delaysKept_iff (config : RetryConfig) (h : config.Valid) (attempt : Nat) :
    config.DelaysKept attempt ↔ config.JitterFits attempt := by
  constructor
  · intro hkept
    exact h.fits_of_bounded (fun draw => (hkept.bounded draw).2)
  · intro hfits
    refine ⟨h.bounded_of_fits hfits, fun hoff draw => ?_, fun hoff draw draw' later hlater => ?_⟩
    · rw [h.calculateDelay_off hoff]
      exact h.baseDelay_eq attempt
    · rw [h.calculateDelay_off hoff, h.calculateDelay_off hoff]
      exact h.baseDelay_mono hlater

theorem valid_defaultRetryConfig : defaultRetryConfig.Valid where
  initial := by decide
  limit := by decide
  multiplier := by rw [defaultRetryConfig]; norm_num
  factor := by rw [defaultRetryConfig]; norm_num

theorem delaysKept_second : defaultRetryConfig.DelaysKept 1 :=
  (delaysKept_iff defaultRetryConfig valid_defaultRetryConfig 1).mpr (.inr (.inl (by decide +kernel)))

/-- The sixth delay of the default configuration can be seven seconds over the limit. -/
theorem default_delay_over_limit :
    ¬ ∀ (config : RetryConfig) (attempt : Nat), config.Valid → config.DelaysKept attempt := by
  intro h
  have hover : defaultRetryConfig.calculateDelay 14999 5 = 37499 := by decide +kernel
  have hbound := ((h _ 5 valid_defaultRetryConfig).bounded 14999).2
  rw [hover] at hbound
  exact absurd hbound (by decide)

end RetryConfig

end VHono
