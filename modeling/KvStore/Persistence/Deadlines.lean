import KvStore.Engine.Store
import KvStore.Foundation.Rounding

/-! # Deadlines in a snapshot

In memory a deadline is a number of seconds in floating point; in a snapshot it is a whole number of
milliseconds. The two conversions are `seconds` (`expires_ms / 1000`) and `milliseconds`
(`round(expires_at * 1000)`), both with 53 binary digits. The engine's model counts milliseconds, so that a
snapshot is where the conversions can be seen.

* **`milliseconds_seconds`** — a deadline before 2 ^ 50 milliseconds survives both.
* **`Record.filed`** — a record after it was written and read. -/

namespace KvStore

/-- `expires_ms / 1000`. -/
def seconds (ms : ℤ) : ℚ := roundBits 53 (ms / 1000)

/-- `round(expires_at * 1000)`. -/
def milliseconds (x : ℚ) : ℤ := roundEven (roundBits 53 (x * 1000))

/-- **A deadline that is not too far away survives**: in floating point it stands for its milliseconds. -/
theorem milliseconds_seconds {ms : ℤ} (h : |ms| < 2 ^ 50) : milliseconds (seconds ms) = ms := by
  -- three errors of a unit in the last place, less than a half together
  have hms : |(ms : ℚ)| < 2 ^ 50 := by exact_mod_cast h
  have hfirst : |seconds ms * 1000 - ms| ≤ |(ms : ℚ)| / 2 ^ 53 := by
    have herror := roundBits_error 53 (ms / 1000)
    have hscale : seconds ms * 1000 - ms = (roundBits 53 (ms / 1000) - ms / 1000) * 1000 := by
      rw [seconds]
      ring
    rw [hscale, abs_mul, abs_of_pos (show (0 : ℚ) < 1000 by norm_num)]
    rw [abs_div, abs_of_pos (show (0 : ℚ) < 1000 by norm_num)] at herror
    linarith
  have hsize : |seconds ms * 1000| ≤ 2 * |(ms : ℚ)| := by
    have htriangle := abs_add_le (seconds ms * 1000 - ms) (ms : ℚ)
    rw [sub_add_cancel] at htriangle
    have hsmall : |(ms : ℚ)| / 2 ^ 53 ≤ |(ms : ℚ)| := div_le_self (abs_nonneg _) (by norm_num)
    linarith
  have hsecond : |roundBits 53 (seconds ms * 1000) - seconds ms * 1000| ≤ 2 * |(ms : ℚ)| / 2 ^ 53 :=
    (roundBits_error 53 _).trans (by gcongr)
  refine roundEven_eq ?_
  have htriangle := abs_add_le (roundBits 53 (seconds ms * 1000) - seconds ms * 1000)
    (seconds ms * 1000 - ms)
  rw [sub_add_sub_cancel] at htriangle
  norm_num at hms hfirst hsecond ⊢
  linarith

/-- The record as it is read from a snapshot, the deadline being the milliseconds of its seconds. -/
def Record.filed (r : Record) : Record := (r.1, r.2.1, r.2.2.map fun ms => milliseconds (seconds ms))

/-- A record whose deadline, if any, is less than 2 ^ 50 milliseconds from the start of the clock. -/
def Record.Near (r : Record) : Prop := ∀ ms ∈ r.2.2, |ms| < 2 ^ 50

theorem Record.Near.filed_eq {r : Record} (h : r.Near) : r.filed = r := by
  obtain ⟨key, payload, deadline⟩ := r
  cases deadline with
  | none => rfl
  | some ms => simp [filed, milliseconds_seconds (h ms rfl)]

/-- **A snapshot of near deadlines is read as it was written.** -/
theorem map_filed {records : List Record} (h : ∀ r ∈ records, r.Near) :
    records.map Record.filed = records :=
  (List.map_congr_left fun r hr => (h r hr).filed_eq).trans (List.map_id records)

end KvStore
