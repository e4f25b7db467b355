import Mathlib.Tactic

/-!
Time from an origin on, cut into periods of one length.
-/

namespace Renewal

/-- The start of the period a time lies in. -/
def periodStart (origin length now : Nat) : Nat := origin + (now - origin) / length * length

variable {origin length now later : Nat}

theorem origin_le_periodStart : origin ≤ periodStart origin length now := Nat.le_add_right _ _

theorem periods_le : (now - origin) / length * length ≤ now - origin := Nat.div_mul_le_self _ _

theorem periodStart_le (h : origin ≤ now) : periodStart origin length now ≤ now := by
  have hperiods : (now - origin) / length * length ≤ now - origin := periods_le
  unfold periodStart
  omega

theorem lt_periodStart_add (hlength : 0 < length) :
    now < periodStart origin length now + length := by
  have hrest : (now - origin) % length < length := Nat.mod_lt _ hlength
  have hsplit : (now - origin) / length * length + (now - origin) % length = now - origin :=
    Nat.div_add_mod' _ _
  unfold periodStart
  omega

theorem periodStart_mono (h : now ≤ later) :
    periodStart origin length now ≤ periodStart origin length later := by
  apply Nat.add_le_add_left
  apply Nat.mul_le_mul_right
  apply Nat.div_le_div_right
  omega

end Renewal
