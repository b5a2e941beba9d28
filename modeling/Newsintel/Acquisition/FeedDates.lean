import Newsintel.Acquisition.Collectors

/-!
# Dates of feed items (feeds.py:93-106)

`parse_feed_datetime` catches what the two parsers of the library raise, but not what the
conversion to UTC raises at the ends of the range, nor an `OverflowError` of the RFC 822 parser.
-/

namespace Newsintel.Acquisition

open PyText

/-! ### Conversion to UTC -/

namespace Datetime

/-- The instant that a date denotes, UTC where it has no offset. -/
def instant (d : Datetime) : Timestamp := d.wall - d.utcoffset.getD 0

/-- A date without offset, or one within the years 1 to 9999 in UTC. -/
def HasUtc (d : Datetime) : Prop :=
  d.utcoffset = none ∨ (minTimestamp ≤ d.instant ∧ d.instant ≤ maxTimestamp)

instance (d : Datetime) : Decidable d.HasUtc := inferInstanceAs (Decidable (_ ∨ _))

end Datetime

variable {d : Datetime} {t : Timestamp}

/- The conversion denotes the same instant, if there is one in UTC. -/
theorem toUtc_ok_iff : toUtc d = .ok t ↔ d.HasUtc ∧ t = d.instant := by
  obtain ⟨wall, utcoffset⟩ := d
  cases utcoffset with
  | none => simp [toUtc, Datetime.HasUtc, Datetime.instant, eq_comm]
  | some offset =>
    simp only [toUtc, Datetime.HasUtc, Datetime.instant, Option.getD_some, reduceCtorEq, false_or]
    split
    · rename_i hrange
      rw [and_iff_right hrange, Except.ok.injEq, eq_comm]
    · rename_i hrange
      exact iff_of_false nofun fun h => hrange h.1

theorem toUtc_of_hasUtc (h : d.HasUtc) : toUtc d = .ok d.instant := toUtc_ok_iff.mpr ⟨h, rfl⟩

theorem toUtc_of_not (h : ¬ d.HasUtc) : toUtc d = .error .overflowError := by
  obtain ⟨wall, utcoffset⟩ := d
  cases utcoffset with
  | none => exact absurd (Or.inl rfl) h
  | some offset => exact if_neg fun hrange => h (Or.inr hrange)

/-! ### Both parsers -/

section parsing

variable (parsers : Parsers)

/-- What the parsers of the library make of a text. -/
def readDatetime (raw : Text) : Except PyError Datetime :=
  match parsers.fromisoformat (replaceZulu raw) with
  | .ok parsed => .ok parsed
  | .error e => if e.isValueError then parsers.parsedateToDatetime raw else .error e

/-- The function returns `None`, or the instant of the parsed value. -/
def ParsedTotally (raw : Option Text) : Prop :=
  ∃ result, parseFeedDatetime parsers raw = .ok result ∧
    ∀ t ∈ result, ∃ text ∈ raw, ∃ parsed, readDatetime parsers text = .ok parsed ∧
      t = parsed.instant

/-- A parsed date has an instant in UTC, and an error of a parser is one that is caught. -/
def Readable (raw : Text) : Prop :=
  match parsers.fromisoformat (replaceZulu raw) with
  | .ok parsed => parsed.HasUtc
  | .error e => e.isValueError = true ∧
    match parsers.parsedateToDatetime raw with
    | .ok parsed => parsed.HasUtc
    | .error e => e = .typeError ∨ e.isValueError = true

variable {parsers} {raw : Text}

theorem convert_ok_iff {parsed : Datetime} {result : Option Timestamp} :
    (toUtc parsed).map some = .ok result ↔ parsed.HasUtc ∧ result = some parsed.instant := by
  by_cases h : parsed.HasUtc
  · simp [toUtc_of_hasUtc h, Except.map, h, eq_comm]
  · simp [toUtc_of_not h, Except.map, h]

/- The branches of `parse_feed_datetime`, each with what it returns. -/
theorem parseFeedDatetime_ok_iff (hraw : raw ≠ []) {result : Option Timestamp} :
    parseFeedDatetime parsers (some raw) = .ok result ↔
      Readable parsers raw ∧ result = (readDatetime parsers raw).toOption.map Datetime.instant := by
  obtain ⟨c, text, rfl⟩ := List.exists_cons_of_ne_nil hraw
  simp only [parseFeedDatetime, Readable, readDatetime]
  cases parsers.fromisoformat (replaceZulu (c :: text)) with
  | ok parsed => exact convert_ok_iff
  | error e =>
    by_cases hvalue : e.isValueError = true
    · simp only [hvalue, if_true, true_and]
      cases parsers.parsedateToDatetime (c :: text) with
      | ok parsed => exact convert_ok_iff
      | error e' =>
        by_cases hcaught : e' = .typeError ∨ e'.isValueError = true
        · have hbranch : (decide (e' = .typeError) || e'.isValueError) = true := by
            rw [Bool.or_eq_true, decide_eq_true_eq]
            exact hcaught
          simp only [hbranch, if_true, hcaught, true_and, Except.ok.injEq]
          exact eq_comm
        · have hbranch : ¬ (decide (e' = .typeError) || e'.isValueError) = true := by
            rw [Bool.or_eq_true, decide_eq_true_eq]
            exact hcaught
          simp only [if_neg hbranch, hcaught, false_and, reduceCtorEq]
    · simp only [hvalue, if_neg, Bool.false_eq_true, not_false_eq_true, false_and, reduceCtorEq]

theorem parsedTotally_iff_readable (parsers : Parsers) (raw : Option Text) :
    ParsedTotally parsers raw ↔ ∀ text ∈ raw, text ≠ [] → Readable parsers text := by
  cases raw with
  | none =>
    constructor
    · rintro - text ⟨⟩
    · intro _
      exact ⟨none, rfl, by simp⟩
  | some text =>
    by_cases hraw : text = []
    · subst hraw
      constructor
      · intro _ text htext hne
        exact absurd (Option.some.inj htext).symm hne
      · intro _
        exact ⟨none, rfl, by simp⟩
    · constructor
      · rintro ⟨result, hresult, -⟩ text' htext' -
        obtain rfl := Option.some.inj htext'
        exact ((parseFeedDatetime_ok_iff hraw).mp hresult).1
      · intro h
        refine ⟨_, (parseFeedDatetime_ok_iff hraw).mpr ⟨h text rfl hraw, rfl⟩, ?_⟩
        intro t ht
        obtain ⟨parsed, hparsed, rfl⟩ := Option.map_eq_some_iff.mp ht
        exact ⟨text, rfl, parsed, ok_of_toOption hparsed, rfl⟩

/-- `fromisoformat` on the first midnight of the calendar, half a day east of Greenwich. -/
def firstMidnight : Parsers where
  fromstring := fun _ => .error .valueError
  htmlCallbacks := fun _ => []
  fromisoformat := fun text =>
    if text = "0001-01-01T00:00:00+12:00".toList then
      .ok { wall := minTimestamp, utcoffset := some (seconds 43200) }
    else .error .valueError
  parsedateToDatetime := fun _ => .error .valueError

/- It has no instant in UTC, and the `OverflowError` leaves the function. -/
theorem firstMidnight_not_parsed :
    ¬ ∀ (parsers : Parsers) (raw : Option Text), ParsedTotally parsers raw := by
  intro h
  obtain ⟨result, hresult, -⟩ := h firstMidnight (some "0001-01-01T00:00:00+12:00".toList)
  have herror : parseFeedDatetime firstMidnight (some "0001-01-01T00:00:00+12:00".toList) =
      .error .overflowError := by decide
  rw [herror] at hresult
  cases hresult

end parsing

end Newsintel.Acquisition
