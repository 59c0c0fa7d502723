import Mathlib.Order.Monotone.Basic
import Mathlib.Order.Basic

namespace Library.Gregorian

def isLeapYear (year : Nat) : Bool := (year % 4 = 0 && year % 100 ≠ 0) || year % 400 = 0

def yearOf (month : Nat) : Nat := 1970 + month / 12

def monthLength (month : Nat) : Nat :=
  match month % 12 with
  | 1 => if isLeapYear (yearOf month) then 29 else 28
  | 3 | 5 | 8 | 10 => 30
  | _ => 31

theorem monthLength_bounds (month : Nat) : 28 ≤ monthLength month ∧ monthLength month ≤ 31 := by
  unfold monthLength
  split
  · split
    · omega
    · omega
  · omega
  · omega
  · omega
  · omega
  · omega

def firstDay : Nat → Nat
  | 0 => 0
  | month + 1 => firstDay month + monthLength month

theorem firstDay_bounds (month : Nat) : 28 * month ≤ firstDay month ∧ firstDay month ≤ 31 * month := by
  induction month with
  | zero => exact ⟨Nat.le_refl 0,Nat.le_refl 0⟩
  | succ month =>
    have length := monthLength_bounds month
    rw [firstDay]
    omega

theorem firstDay_strictMono : StrictMono firstDay := by
  refine strictMono_nat_of_lt_succ ?_
  intro month
  have length := monthLength_bounds month
  rw [firstDay]
  omega

-- The month of a day and the days of it that lie before, by counting off whole months.
def locate : Nat → Nat → Nat → Nat × Nat
  | 0, month, days => (month,days)
  | fuel + 1, month, days =>
    if days < monthLength month then (month,days) else locate fuel (month + 1) (days - monthLength month)

def dateOf (day : Nat) : Nat × Nat := locate (day / 28) 0 day

theorem locate_spec (fuel month days : Nat) (enough : days < 28 * (fuel + 1)) :
    (locate fuel month days).2 < monthLength (locate fuel month days).1 ∧
    firstDay (locate fuel month days).1 + (locate fuel month days).2 = firstDay month + days := by
  induction fuel generalizing month days with
  | zero =>
    have length := monthLength_bounds month
    refine ⟨?_,rfl⟩
    change days < monthLength month
    omega
  | succ _ ih =>
    have length := monthLength_bounds month
    rw [locate]
    split
    · next mem => exact ⟨mem,rfl⟩
    next later =>
      obtain ⟨mem,same⟩ := ih (month + 1) (days - monthLength month) (by omega)
      rw [firstDay] at same
      exact ⟨mem,by omega⟩

theorem dateOf_spec (day : Nat) :
    (dateOf day).2 < monthLength (dateOf day).1 ∧ firstDay (dateOf day).1 + (dateOf day).2 = day := by
  have located := locate_spec (day / 28) 0 day (by omega)
  rwa [firstDay,Nat.zero_add] at located

theorem dateOf_eq (mem : days < monthLength month) : dateOf (firstDay month + days) = (month,days) := by
  obtain ⟨within,same⟩ := dateOf_spec (firstDay month + days)
  generalize dateOf (firstDay month + days) = date at within same
  obtain ⟨found,_⟩ := date
  have equal : found = month := by
    rcases Nat.lt_trichotomy found month with before | equal | after
    · have next := firstDay_strictMono.monotone (Nat.succ_le_of_lt before)
      rw [firstDay] at next
      dsimp only at within same
      omega
    · exact equal
    · have next := firstDay_strictMono.monotone (Nat.succ_le_of_lt after)
      rw [firstDay] at next
      dsimp only at within same
      omega
  subst equal
  dsimp only at same
  rw [Nat.add_left_cancel same]

-- The day of the month that an anchor falls on: the last one of a month that is too short.
def anniversary (month anchor : Nat) : Nat := firstDay month + (max (min anchor (monthLength month)) 1 - 1)

theorem anniversary_inside (month anchor : Nat) : max (min anchor (monthLength month)) 1 - 1 < monthLength month := by
  have length := monthLength_bounds month
  omega

theorem dateOf_anniversary (month anchor : Nat) :
    dateOf (anniversary month anchor) = (month,max (min anchor (monthLength month)) 1 - 1) :=
  dateOf_eq (anniversary_inside month anchor)

theorem anniversary_strictMono (anchor : Nat) : StrictMono fun month => anniversary month anchor := by
  refine strictMono_nat_of_lt_succ ?_
  intro month
  have mem := anniversary_inside month anchor
  dsimp only [anniversary]
  rw [firstDay]
  omega

theorem anniversary_gap (month anchor : Nat) :
    anniversary month anchor + 28 ≤ anniversary (month + 1) anchor ∧
      anniversary (month + 1) anchor ≤ anniversary month anchor + 31 := by
  have here := monthLength_bounds month
  have following := monthLength_bounds (month + 1)
  rw [anniversary,anniversary,firstDay]
  omega

theorem anniversary_dateOf (day : Nat) : anniversary (dateOf day).1 ((dateOf day).2 + 1) = day := by
  obtain ⟨mem,same⟩ := dateOf_spec day
  rw [anniversary,Nat.min_eq_left (Nat.succ_le_of_lt mem),Nat.max_eq_left (Nat.succ_le_succ (Nat.zero_le _)),Nat.succ_sub_one]
  exact same

theorem anniversary_around (anchor : Nat) (apart : first ≤ last) (reached : anniversary first anchor ≤ day)
    (ahead : day < anniversary last anchor) :
    ∃ month, first ≤ month ∧ month < last ∧ anniversary month anchor ≤ day ∧ day < anniversary (month + 1) anchor := by
  induction last, apart using Nat.le_induction with
  | base => omega
  | succ last apart ih =>
    by_cases before : day < anniversary last anchor
    · obtain ⟨month,since,within,around⟩ := ih before
      exact ⟨month,since,Nat.lt_succ_of_lt within,around⟩
    · exact ⟨last,apart,Nat.lt_succ_self last,Nat.le_of_not_lt before,ahead⟩

theorem anniversary_unique (one : anniversary month anchor ≤ day ∧ day < anniversary (month + 1) anchor)
    (two : anniversary other anchor ≤ day ∧ day < anniversary (other + 1) anchor) : other = month := by
  have grows := (anniversary_strictMono anchor).lt_iff_lt (a := other) (b := month + 1)
  have shrinks := (anniversary_strictMono anchor).lt_iff_lt (a := month) (b := other + 1)
  omega

example : dateOf 59 = (2,0) ∧ anniversary 1 31 = 58 ∧ dateOf 11016 = (12 * 30 + 1,28) := by decide +kernel

end Library.Gregorian
