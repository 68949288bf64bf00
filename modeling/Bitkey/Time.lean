import Mathlib.Order.MinMax

/-!
# Instants and durations of the `time` crate

`get_stale_txs` reads the clock with `OffsetDateTime::now_utc`, compares instants, takes
their maximum and adds `Duration::seconds(1)`.  We keep exactly that much of the crate.

An `OffsetDateTime` is an instant counted in nanoseconds from the Unix epoch.  The
crate's range (years `-9999` to `9999`, as a UTC instant) is a field of the structure, so
an instant outside it cannot be built; `+` leaves the range by panicking, and that panic
is the `none` of `OffsetDateTime.add`.  Offsets other than UTC are not modelled: every
instant the indexer handles comes from `now_utc` or from the table.
-/

namespace Bitkey

/-- A `time::Duration`, as a signed number of nanoseconds. -/
structure Duration where
  /-- The length of the duration in nanoseconds. -/
  wholeNanoseconds : Int
deriving DecidableEq, Repr

/-- `Duration::seconds`. -/
def Duration.seconds (s : Int) : Duration := ⟨s * 1000000000⟩

@[simp] theorem Duration.seconds_wholeNanoseconds (s : Int) :
    (Duration.seconds s).wholeNanoseconds = s * 1000000000 := rfl

/-- The earliest instant the crate represents, `-9999-01-01T00:00:00Z`. -/
def OffsetDateTime.minNanos : Int := -377705116800 * 1000000000

/-- The latest instant the crate represents, `9999-12-31T23:59:59.999999999Z`. -/
def OffsetDateTime.maxNanos : Int := 253402300799 * 1000000000 + 999999999

/-- A `time::OffsetDateTime` at offset UTC. -/
structure OffsetDateTime where
  /-- `unix_timestamp_nanos`. -/
  unixTimestampNanos : Int
  ge_min : OffsetDateTime.minNanos ≤ unixTimestampNanos
  le_max : unixTimestampNanos ≤ OffsetDateTime.maxNanos
deriving DecidableEq, Repr

namespace OffsetDateTime

theorem unixTimestampNanos_injective : Function.Injective unixTimestampNanos := by
  rintro ⟨a, _, _⟩ ⟨b, _, _⟩ rfl
  rfl

/-- Instants are ordered as the crate's `Ord` orders them: by the instant, not the offset. -/
instance : LinearOrder OffsetDateTime :=
  LinearOrder.lift' unixTimestampNanos unixTimestampNanos_injective

theorem le_iff {a b : OffsetDateTime} : a ≤ b ↔ a.unixTimestampNanos ≤ b.unixTimestampNanos :=
  Iff.rfl

theorem lt_iff {a b : OffsetDateTime} : a < b ↔ a.unixTimestampNanos < b.unixTimestampNanos :=
  Iff.rfl

/-- `OffsetDateTime::UNIX_EPOCH`. -/
def UNIX_EPOCH : OffsetDateTime := ⟨0, by decide, by decide⟩

/-- `OffsetDateTime::MAX`. -/
def MAX : OffsetDateTime := ⟨maxNanos, by decide, Int.le_refl _⟩

/-- `MAX - Duration::seconds(1)`, the last instant to which one second can be added. -/
def maxLessOneSecond : OffsetDateTime := ⟨maxNanos - 1000000000, by decide, by decide⟩

/-- `checked_add`: the sum, when it stays in range. -/
def checkedAdd (t : OffsetDateTime) (d : Duration) : Option OffsetDateTime :=
  if h : minNanos ≤ t.unixTimestampNanos + d.wholeNanoseconds ∧
      t.unixTimestampNanos + d.wholeNanoseconds ≤ maxNanos then
    some ⟨_, h.1, h.2⟩
  else none

/-- `impl Add<Duration> for OffsetDateTime`: `checked_add` followed by
`expect("resulting value is out of range")`; `none` is the panic. -/
def add (t : OffsetDateTime) (d : Duration) : Option OffsetDateTime := t.checkedAdd d

theorem add_eq_some_iff {t u : OffsetDateTime} {d : Duration} :
    t.add d = some u ↔ u.unixTimestampNanos = t.unixTimestampNanos + d.wholeNanoseconds := by
  unfold add checkedAdd
  split
  · rw [Option.some_inj]
    exact ⟨fun h ↦ h ▸ rfl, fun h ↦ unixTimestampNanos_injective h.symm⟩
  · rename_i h
    simp only [reduceCtorEq, false_iff]
    exact fun hu ↦ h ⟨hu ▸ u.ge_min, hu ▸ u.le_max⟩

/-- Adding a second never panics at or before `maxLessOneSecond`. -/
theorem add_seconds_one_isSome {t : OffsetDateTime} (h : t ≤ maxLessOneSecond) :
    (t.add (Duration.seconds 1)).isSome := by
  have hmin := t.ge_min
  have hmax : t.unixTimestampNanos ≤ maxNanos - 1000000000 := h
  simp only [add, checkedAdd, Duration.seconds_wholeNanoseconds]
  rw [dif_pos (by unfold minNanos at *; omega)]
  rfl

/-- A second later is strictly later. -/
theorem lt_of_add_seconds_one {t u : OffsetDateTime} (h : t.add (Duration.seconds 1) = some u) :
    t < u := by
  rw [add_eq_some_iff] at h
  rw [lt_iff, h, Duration.seconds_wholeNanoseconds]
  omega

end OffsetDateTime

end Bitkey
