/-! Timers. Durations are counted in nanoseconds and times in milliseconds: a timer runs out with the
millisecond in which its duration ends. No timer runs for longer than thirty years. -/
namespace Provision.Timer

/-- A millisecond, in nanoseconds. -/
def tick : Nat := 1000000

/-- A second, in nanoseconds. -/
def second : Nat := 1000 * tick

/-- How many milliseconds a duration begins. -/
def ticks (duration : Nat) : Nat := duration / tick + if duration % tick = 0 then 0 else 1

/-- The first moment that a clock cannot tell any more which counts seconds in 63 bits. -/
def horizon : Nat := Nat.pow 2 63 * second

/-- Thirty years of 365 days, in milliseconds. -/
def longest : Nat := 30 * 365 * 86400 * 1000

/-- For how many milliseconds a timer runs that is set to a duration. -/
def span (duration : Nat) : Nat := min (ticks duration) longest

variable {duration time : Nat}

theorem ticks_le_iff : ticks duration ≤ time ↔ duration ≤ tick * time := by
  unfold ticks tick
  split <;> omega

theorem lt_ticks_iff : time < ticks duration ↔ tick * time < duration := by
  rw [← Nat.not_le, ticks_le_iff, Nat.not_le]

/-- What begins with a millisecond. -/
theorem ticks_add (time duration : Nat) : ticks (tick * time + duration) = time + ticks duration := by
  unfold ticks tick
  rw [Nat.mul_add_mod, Nat.mul_add_div (by decide), Nat.add_assoc]

theorem ticks_sub (duration time : Nat) : ticks (duration - tick * time) = ticks duration - time := by
  refine Nat.le_antisymm ?_ ?_
  · rw [ticks_le_iff, Nat.mul_sub]
    exact Nat.sub_le_sub_right (ticks_le_iff.mp (Nat.le_refl _)) _
  · have hleft := ticks_le_iff.mp (Nat.le_refl (ticks (duration - tick * time)))
    rw [Nat.sub_le_iff_le_add, ticks_le_iff, Nat.mul_add]
    omega

theorem ticks_min (c d : Nat) : ticks (min c d) = min (ticks c) (ticks d) := by
  have hmono : ∀ {c d : Nat}, c ≤ d → ticks c ≤ ticks d := fun h =>
    ticks_le_iff.mpr (Nat.le_trans h (ticks_le_iff.mp (Nat.le_refl _)))
  rcases Nat.le_total c d with h | h
  · rw [Nat.min_eq_left h, Nat.min_eq_left (hmono h)]
  · rw [Nat.min_eq_right h, Nat.min_eq_right (hmono h)]

theorem span_pos (h : 0 < duration) : 0 < span duration := by
  unfold span ticks tick longest
  split <;> omega

/-- A timer that is set to an interval, or to what is left until a deadline if that is less. -/
theorem span_min_sub (interval deadline time : Nat) :
    span (min interval (deadline - tick * time)) = min (span interval) (ticks deadline - time) := by
  rw [span, span, ticks_min, ticks_sub, Nat.min_right_comm]

end Provision.Timer
