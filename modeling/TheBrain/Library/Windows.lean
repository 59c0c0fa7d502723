import Mathlib.Algebra.Order.BigOperators.Group.List
import Mathlib.Algebra.Order.Ring.Nat
import Mathlib.Tactic.Common

namespace Library.Windows

-- A budget spent within windows that are opened on demand: the spendings of each
-- window with their times, the newest window first.
structure Window where
  start : Nat
  spends : List (Nat × Nat)
  deriving DecidableEq

def Window.spent (w : Window) : Nat := (w.spends.map Prod.snd).sum

def Window.during (first width : Nat) (w : Window) : Nat :=
  ((w.spends.filter fun spend => first ≤ spend.1 ∧ spend.1 < first + width).map Prod.snd).sum

def spentDuring (windows : List Window) (first width : Nat) : Nat := (windows.map (Window.during first width)).sum

structure Spending where
  opens : Bool
  time : Nat
  amount : Nat
  deriving DecidableEq

def spend (windows : List Window) (e : Spending) : List Window :=
  match windows, e.opens with
  | w :: windows, false => {w with spends:=w.spends ++ [(e.time,e.amount)]} :: windows
  | windows, _ => ⟨e.time,[(e.time,e.amount)]⟩ :: windows

structure Fits (width budget : Nat) (w : Window) : Prop where
  timely : ∀ entry ∈ w.spends, w.start ≤ entry.1 ∧ (entry.1 < w.start + width ∨ entry.1 = w.start)
  bounded : w.spent ≤ budget

structure Paced (width budget : Nat) (windows : List Window) : Prop where
  fits : ∀ w ∈ windows, Fits width budget w
  apart : windows.Pairwise fun newer older => older.start + width ≤ newer.start

theorem Paced.opened (paced : Paced width budget windows) (later : ∀ w ∈ windows, w.start + width ≤ now) (enough : amount ≤ budget) :
    Paced width budget (⟨now,[(now,amount)]⟩ :: windows) := by
  refine ⟨?_,paced.apart.cons later⟩
  intro w mem
  rcases List.mem_cons.mp mem with rfl | older
  · refine ⟨?_,enough⟩
    intro entry listed
    cases List.mem_singleton.mp listed
    exact ⟨le_rfl,.inr rfl⟩
  · exact paced.fits w older

theorem Paced.behind (paced : Paced width budget (newest :: windows)) (past : newest.start + width ≤ now) :
    ∀ w ∈ newest :: windows, w.start + width ≤ now := by
  intro w mem
  rcases List.mem_cons.mp mem with rfl | older
  · exact past
  · have apart := (List.pairwise_cons.mp paced.apart).1 w older
    omega

theorem Window.spent_append (w : Window) (time amount : Nat) :
    {w with spends:=w.spends ++ [(time,amount)]}.spent = w.spent + amount := by
  simp [Window.spent]

theorem Paced.extended (paced : Paced width budget (w :: windows)) (begun : w.start ≤ now) (open_ : now < w.start + width)
    (enough : w.spent + amount ≤ budget) : Paced width budget ({w with spends:=w.spends ++ [(now,amount)]} :: windows) := by
  obtain ⟨apart,rest⟩ := List.pairwise_cons.mp paced.apart
  refine ⟨?_,List.pairwise_cons.mpr ⟨apart,rest⟩⟩
  intro v mem
  rcases List.mem_cons.mp mem with rfl | older
  · refine ⟨?_,(w.spent_append now amount).trans_le enough⟩
    intro entry listed
    rcases List.mem_append.mp listed with earlier | last
    · exact (paced.fits w (List.mem_cons_self ..)).timely entry earlier
    · cases List.mem_singleton.mp last
      exact ⟨begun,.inl open_⟩
  · exact paced.fits v (List.mem_cons_of_mem _ older)

-- What falls between two times is at most what the window spent, and nothing if all of
-- the window lies before or after.
theorem Window.during_le (first width : Nat) (w : Window) : w.during first width ≤ w.spent :=
  (List.filter_sublist.map Prod.snd).sum_le_sum fun _ _ => Nat.zero_le _

theorem Window.during_eq_zero {w : Window} (outside : ∀ entry ∈ w.spends, entry.1 < first ∨ first + width ≤ entry.1) :
    w.during first width = 0 := by
  have none : (w.spends.filter fun spend => first ≤ spend.1 ∧ spend.1 < first + width) = [] := by
    refine List.filter_eq_nil_iff.mpr ?_
    intro entry listed
    have := outside entry listed
    simp only [decide_eq_true_eq]
    omega
  rw [Window.during,none]
  rfl

theorem Paced.before (paced : Paced width budget windows) (old : ∀ w ∈ windows, w.start + width ≤ first) :
    spentDuring windows first width = 0 := by
  refine List.sum_eq_zero ?_
  intro n listed
  obtain ⟨w,mem,rfl⟩ := List.mem_map.mp listed
  refine Window.during_eq_zero ?_
  intro entry spent
  have timely := (paced.fits w mem).timely entry spent
  have past := old w mem
  omega

theorem Paced.tail (paced : Paced width budget (w :: windows)) : Paced width budget windows :=
  ⟨fun v mem => paced.fits v (List.mem_cons_of_mem _ mem),paced.apart.of_cons⟩

theorem Paced.begun (paced : Paced width budget windows) (old : ∀ w ∈ windows, w.start < first) :
    spentDuring windows first width ≤ budget := by
  cases windows with
  | nil => exact Nat.zero_le _
  | cons w windows =>
    have rest : spentDuring windows first width = 0 := by
      refine paced.tail.before ?_
      intro v mem
      have apart := (List.pairwise_cons.mp paced.apart).1 v mem
      have start := old w (List.mem_cons_self ..)
      omega
    have within := (w.during_le first width).trans (paced.fits w (List.mem_cons_self ..)).bounded
    simp only [spentDuring,List.map_cons,List.sum_cons] at rest ⊢
    omega

theorem Paced.sliding (paced : Paced width budget windows) (first : Nat) : spentDuring windows first width ≤ 2 * budget := by
  induction windows with
  | nil => exact Nat.zero_le _
  | cons w windows ih =>
    have own := paced.fits w (List.mem_cons_self ..)
    rw [spentDuring,List.map_cons,List.sum_cons]
    by_cases later : first + width ≤ w.start
    · have none : w.during first width = 0 := by
        refine Window.during_eq_zero ?_
        intro entry spent
        have := (own.timely entry spent).1
        omega
      rw [none,Nat.zero_add]
      exact ih paced.tail
    · have rest : spentDuring windows first width ≤ budget := by
        refine paced.tail.begun ?_
        intro v mem
        have apart := (List.pairwise_cons.mp paced.apart).1 v mem
        omega
      have within := (w.during_le first width).trans own.bounded
      rw [spentDuring] at rest
      omega

end Library.Windows
