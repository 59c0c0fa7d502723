import TheBrain.Library.Gregorian

-- The date arithmetic of the calendar pallet. Dates go up to the end of the year 9999;
-- what lies outside is reported as day 0.
namespace TheBrain.Calendar
open Library.Gregorian

def msPerDay : Nat := 86400000

def months : Nat := (10000 - 1970) * 12

def dateFromUnixDay (unixDay : Nat) : Option (Nat × Nat) :=
  let date := dateOf unixDay
  if date.1 < months then some date else none

def dayOfMonth (unixDay : Nat) : Nat := (dateFromUnixDay unixDay).elim 0 fun date => date.2 + 1

def daysInMonthOfDay (unixDay : Nat) : Nat := (dateFromUnixDay unixDay).elim 0 fun date => monthLength date.1

-- A date before 1970 has no unix day either.
def addMonthsClamped (unixDay anchor : Nat) (n : Int) : Nat :=
  match dateFromUnixDay unixDay with
  | none => 0
  | some date =>
    let target := (date.1 : Int) + n
    if target < 0 ∨ (months : Int) ≤ target then 0 else anniversary target.toNat anchor

def unixDayOfFirstOfMonthIn (unixMs n : Nat) : Nat :=
  match dateFromUnixDay (unixMs / msPerDay) with
  | none => 0
  | some date => if date.1 + n < months then firstDay (date.1 + n) else 0

theorem dateFromUnixDay_anniversary (inRange : month < months) (anchor : Nat) :
    dateFromUnixDay (anniversary month anchor) = some (month,max (min anchor (monthLength month)) 1 - 1) := by
  rw [dateFromUnixDay,dateOf_anniversary]
  exact if_pos inRange

theorem addMonthsClamped_later (n : Nat) (inRange : month + n < months) (anchor : Nat) :
    addMonthsClamped (anniversary month anchor) anchor n = anniversary (month + n) anchor := by
  rw [addMonthsClamped,dateFromUnixDay_anniversary (Nat.lt_of_le_of_lt (Nat.le_add_right month n) inRange)]
  dsimp only
  rw [← Int.natCast_add,if_neg (by omega),Int.toNat_natCast]

theorem addMonthsClamped_next (inRange : month + 1 < months) (anchor : Nat) :
    addMonthsClamped (anniversary month anchor) anchor 1 = anniversary (month + 1) anchor :=
  addMonthsClamped_later 1 inRange anchor

theorem addMonthsClamped_over (anchor : Nat) : addMonthsClamped (anniversary (months - 1) anchor) anchor 1 = 0 := by
  have last : months - 1 < months := by decide
  rw [addMonthsClamped,dateFromUnixDay_anniversary last]
  exact if_pos (.inr (by omega))

theorem addMonthsClamped_previous (inRange : month + 1 < months) (anchor : Nat) :
    addMonthsClamped (anniversary (month + 1) anchor) anchor (-1) = anniversary month anchor := by
  rw [addMonthsClamped,dateFromUnixDay_anniversary inRange]
  dsimp only
  have target : ((month + 1 : Nat) : Int) + -1 = (month : Int) := by omega
  rw [target,if_neg (by omega),Int.toNat_natCast]

theorem dayOfMonth_anniversary (inRange : month < months) (positive : 1 ≤ anchor) :
    dayOfMonth (anniversary month anchor) = min anchor (monthLength month) := by
  have length := monthLength_bounds month
  rw [dayOfMonth,dateFromUnixDay_anniversary inRange,Option.elim_some]
  omega

theorem anniversary_today (inRange : (dateOf day).1 < months) : anniversary (dateOf day).1 (dayOfMonth day) = day := by
  have known : dateFromUnixDay day = some (dateOf day) := if_pos inRange
  rw [dayOfMonth,known]
  exact anniversary_dateOf day

theorem dayOfMonth_bounds (inRange : (dateOf day).1 < months) : 1 ≤ dayOfMonth day ∧ dayOfMonth day ≤ 31 := by
  have known : dateFromUnixDay day = some (dateOf day) := if_pos inRange
  have mem := (dateOf_spec day).1
  have length := monthLength_bounds (dateOf day).1
  rw [dayOfMonth,known,Option.elim_some]
  omega

end TheBrain.Calendar
