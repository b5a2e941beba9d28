import Mathlib.Tactic.Linarith
import Mathlib.Tactic.Ring
import Newsintel.Articles.RecordedOutcome

/-!
# Bounds of the retry delay (processing.py:216-231)

The delay is capped before the jitter, and only the floor of one second is put back behind it. A
draw that lengthens a capped delay goes past `max_seconds`.
-/

namespace Newsintel.Articles

open Acquisition

/-- The delay that `retry_at_for_attempt` hands to `timedelta`. -/
def scheduledDelay (attemptCount : ℕ) (baseSeconds maxSeconds : ℤ) (jitterRatio random : ℚ) : ℚ :=
  let delay := retryDelay attemptCount baseSeconds maxSeconds
  if 0 < jitterRatio then
    let jitter := delay * min (max jitterRatio 0) 1
    max 1 (delay + uniform random (-jitter) jitter)
  else delay

/-- By how much of itself the draw lengthens a delay. -/
def lengthening (jitterRatio random : ℚ) : ℚ := jitterRatio * (2 * random - 1)

/-- The draw does not lengthen the delay, or the exponential delay that it lengthens stays below
the cap. -/
def FitsBelowCap (attemptCount : ℕ) (baseSeconds maxSeconds : ℤ) (jitterRatio random : ℚ) : Prop :=
  lengthening jitterRatio random ≤ 0 ∨
    baseSeconds * 2 ^ min (attemptCount - 1) 10 * (1 + lengthening jitterRatio random) ≤ maxSeconds

section delay

variable {attemptCount : ℕ} {baseSeconds maxSeconds : ℤ} {jitterRatio random : ℚ}

theorem fractionalSeconds_intCast (n : ℤ) : fractionalSeconds n = seconds n := by
  have hcast : (n : ℚ) * 1000000 = ((n * 1000000 : ℤ) : ℚ) := by push_cast; rfl
  rw [fractionalSeconds, hcast, Rat.num_intCast, Rat.den_intCast, seconds, roundHalfEven]
  simp

theorem retryAtForAttempt_eq (h : 1 ≤ attemptCount) (now : Timestamp) :
    retryAtForAttempt attemptCount baseSeconds maxSeconds jitterRatio random now = .ok (now +
      fractionalSeconds
        (scheduledDelay attemptCount baseSeconds maxSeconds jitterRatio random)) := by
  unfold retryAtForAttempt scheduledDelay
  rw [if_neg (by omega)]
  simp only
  split
  · rfl
  · rw [fractionalSeconds_intCast]

/- The jitter is a share of the capped delay. -/
theorem scheduledDelay_eq (hratio : 0 ≤ jitterRatio) (hle : jitterRatio ≤ 1)
    (hbase : 1 ≤ baseSeconds) (hmax : 1 ≤ maxSeconds) :
    scheduledDelay attemptCount baseSeconds maxSeconds jitterRatio random =
      max 1 ((retryDelay attemptCount baseSeconds maxSeconds : ℚ) *
        (1 + lengthening jitterRatio random)) := by
  have hdelay : (1 : ℚ) ≤ retryDelay attemptCount baseSeconds maxSeconds := by
    exact_mod_cast retryDelay_pos hbase hmax
  unfold scheduledDelay
  simp only
  split
  · rw [max_eq_left hratio, min_eq_left hle, uniform, lengthening]
    congr 1
    ring
  · rename_i hzero
    have hnone : jitterRatio = 0 := le_antisymm (not_lt.mp hzero) hratio
    rw [hnone, lengthening, zero_mul, add_zero, mul_one, max_eq_right hdelay]

theorem retryDelay_cast : (retryDelay attemptCount baseSeconds maxSeconds : ℚ) =
    min (maxSeconds : ℚ) (baseSeconds * 2 ^ min (attemptCount - 1) 10) := by
  rw [retryDelay]
  push_cast
  rfl

theorem scheduledDelay_le_iff (hratio : 0 ≤ jitterRatio) (hle : jitterRatio ≤ 1)
    (hbase : 1 ≤ baseSeconds) (hmax : 1 ≤ maxSeconds) :
    scheduledDelay attemptCount baseSeconds maxSeconds jitterRatio random ≤ maxSeconds ↔
      FitsBelowCap attemptCount baseSeconds maxSeconds jitterRatio random := by
  have hcap : (1 : ℚ) ≤ maxSeconds := by exact_mod_cast hmax
  have hpow : (0 : ℚ) < 2 ^ min (attemptCount - 1) 10 := by positivity
  have hstart : (1 : ℚ) ≤ baseSeconds := by exact_mod_cast hbase
  have hgrown : (0 : ℚ) < baseSeconds * 2 ^ min (attemptCount - 1) 10 :=
    mul_pos (by linarith) hpow
  rw [scheduledDelay_eq hratio hle hbase hmax, max_le_iff, and_iff_right hcap, retryDelay_cast,
    FitsBelowCap]
  generalize (baseSeconds : ℚ) * 2 ^ min (attemptCount - 1) 10 = grown at *
  generalize lengthening jitterRatio random = share
  obtain hbelow | habove := le_total grown (maxSeconds : ℚ)
  · rw [min_eq_right hbelow]
    constructor
    · exact Or.inr
    · rintro (hshare | hfits)
      · -- A shortened delay is below the uncapped one.
        have hshort : grown * (1 + share) ≤ grown * 1 :=
          mul_le_mul_of_nonneg_left (by linarith) hgrown.le
        linarith
      · exact hfits
  · rw [min_eq_left habove]
    constructor
    · intro hfits
      left
      by_contra hshare
      have hlonger : (maxSeconds : ℚ) * 1 < maxSeconds * (1 + share) :=
        mul_lt_mul_of_pos_left (by linarith) (by linarith)
      linarith
    · rintro (hshare | hfits)
      · have hshort : (maxSeconds : ℚ) * (1 + share) ≤ maxSeconds * 1 :=
          mul_le_mul_of_nonneg_left (by linarith) (by linarith)
        linarith
      · obtain hshort | hlong := le_total (1 + share) 0
        · have hnone : (maxSeconds : ℚ) * (1 + share) ≤ 0 :=
            mul_nonpos_of_nonneg_of_nonpos (by linarith) hshort
          linarith
        · exact (mul_le_mul_of_nonneg_right habove hlong).trans hfits

theorem retryDelay_mono {later : ℕ} (hbase : 1 ≤ baseSeconds) (h : attemptCount ≤ later) :
    retryDelay attemptCount baseSeconds maxSeconds ≤ retryDelay later baseSeconds maxSeconds := by
  have hpow : (2 : ℤ) ^ min (attemptCount - 1) 10 ≤ 2 ^ min (later - 1) 10 :=
    pow_le_pow_right₀ (by decide) (by omega)
  have hgrown := mul_le_mul_of_nonneg_left hpow (by omega : 0 ≤ baseSeconds)
  rw [retryDelay, retryDelay]
  exact min_le_min le_rfl hgrown

theorem scheduledDelay_zero (random : ℚ) :
    scheduledDelay attemptCount baseSeconds maxSeconds 0 random =
      retryDelay attemptCount baseSeconds maxSeconds := by
  unfold scheduledDelay
  exact if_neg (lt_irrefl 0)

end delay

/- The delay is at least a second and, without jitter, grows with the attempts. It is below the
cap exactly when the jitter does not lengthen it, or not beyond what the cap leaves. -/
theorem scheduledDelay_bounded_iff (attemptCount : ℕ) (baseSeconds maxSeconds : ℤ)
    (jitterRatio random : ℚ) (now : Timestamp) (hattempt : 1 ≤ attemptCount)
    (hbase : 1 ≤ baseSeconds) (hmax : 1 ≤ maxSeconds)
    (hratio : 0 ≤ jitterRatio ∧ jitterRatio ≤ 1) :
    retryAtForAttempt attemptCount baseSeconds maxSeconds jitterRatio random now = .ok (now +
        fractionalSeconds
          (scheduledDelay attemptCount baseSeconds maxSeconds jitterRatio random)) ∧
      1 ≤ scheduledDelay attemptCount baseSeconds maxSeconds jitterRatio random ∧
      (∀ later random', attemptCount ≤ later →
        scheduledDelay attemptCount baseSeconds maxSeconds 0 random ≤
          scheduledDelay later baseSeconds maxSeconds 0 random') ∧
      (scheduledDelay attemptCount baseSeconds maxSeconds jitterRatio random ≤ maxSeconds ↔
        FitsBelowCap attemptCount baseSeconds maxSeconds jitterRatio random) := by
  refine ⟨retryAtForAttempt_eq hattempt now, ?_, ?_,
    scheduledDelay_le_iff hratio.1 hratio.2 hbase hmax⟩
  · rw [scheduledDelay_eq hratio.1 hratio.2 hbase hmax]
    exact le_max_left 1 _
  · intro later random' hlater
    rw [scheduledDelay_zero, scheduledDelay_zero]
    exact_mod_cast retryDelay_mono hbase hlater

/- The default settings at the third attempt, with the longest draw. -/
theorem thirdAttempt_bounded :
    scheduledDelay 3 120 3600 (15 / 100) 1 ≤ 3600 ↔ FitsBelowCap 3 120 3600 (15 / 100) 1 := by
  have hbounded := scheduledDelay_bounded_iff 3 120 3600 (15 / 100) 1 0 (by decide) (by decide)
    (by decide) ⟨by norm_num, by norm_num⟩
  exact_mod_cast hbounded.2.2.2

/- At the sixth attempt the delay is an hour, and three quarters of the draw make it 3870
seconds. -/
theorem sixthAttempt_unbounded :
    ¬ ∀ (attemptCount : ℕ) (baseSeconds maxSeconds : ℤ) (jitterRatio random : ℚ),
      1 ≤ attemptCount → 1 ≤ baseSeconds → 1 ≤ maxSeconds → 0 ≤ jitterRatio ∧ jitterRatio ≤ 1 →
      0 ≤ random ∧ random ≤ 1 →
      1 ≤ scheduledDelay attemptCount baseSeconds maxSeconds jitterRatio random ∧
        scheduledDelay attemptCount baseSeconds maxSeconds jitterRatio random ≤ maxSeconds := by
  intro h
  have hcapped := (h 6 120 3600 (15 / 100) (3 / 4) (by decide) (by decide) (by decide)
    ⟨by norm_num, by norm_num⟩ ⟨by norm_num, by norm_num⟩).2
  norm_num [scheduledDelay, retryDelay, uniform] at hcapped

end Newsintel.Articles
