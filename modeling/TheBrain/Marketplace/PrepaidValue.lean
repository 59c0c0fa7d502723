import TheBrain.Marketplace.SubscriptionMoves

namespace TheBrain.Marketplace.Subscriptions
open Library Machine Words Gregorian Calendar List

section
variable {A H B : Type} {s t : State A H B} {sub : UserPlanSubscription A H}

-- The anchor that is stored for an id. Up to the 28th it is not written down, and before
-- the 28th it does not matter what is.
structure Anchored (s : State A H B) (id anchor : Nat) : Prop where
  positive : 1 ≤ anchor
  bounded : anchor ≤ 31
  stored : 28 ≤ anchor → s.subscriptionAnchorDay id = if 28 < anchor then some anchor else none

theorem setAnchor_stored (s : State A H B) (id anchor : Nat) :
    (setAnchor s id anchor).subscriptionAnchorDay id = if 28 < anchor then some anchor else none :=
  Function.update_self ..

theorem anchorOf_anchored (anchored : Anchored s sub.id anchor) (due : sub.nextChargeUnixDay = some (anniversary month anchor))
    (inRange : month < months) : anchorOf s sub = anchor := by
  have length := monthLength_bounds month
  have positive := anchored.positive
  have bounded := anchored.bounded
  rw [anchorOf,due]
  dsimp only
  rw [dayOfMonth_anniversary inRange positive]
  split
  · rw [anchored.stored (by omega)]
    split
    · rfl
    · rw [Option.getD_none]
      omega
  · split
    · omega
    · omega

theorem advance_next (anchored : Anchored s sub.id anchor) (due : sub.nextChargeUnixDay = some (anniversary month anchor))
    (inRange : month + 1 < months) (today now : Nat) :
    (advanceSubscriptionCycle s today now sub).nextChargeUnixDay = some (anniversary (month + 1) anchor) := by
  rw [advanceSubscriptionCycle,anchorOf_anchored anchored due (Nat.lt_of_succ_lt inRange),due,Option.getD_some,
    addMonthsClamped_next inRange]

def advances (visits : List (State A H B × Nat × Nat)) (sub : UserPlanSubscription A H) : UserPlanSubscription A H :=
  visits.foldl (fun sub visit => advanceSubscriptionCycle visit.1 visit.2.1 visit.2.2 sub) sub

theorem advances_due (visits : List (State A H B × Nat × Nat))
    (anchored : ∀ visit ∈ visits, Anchored visit.1 sub.id anchor) (due : sub.nextChargeUnixDay = some (anniversary month anchor))
    (inRange : month + visits.length < months) :
    (advances visits sub).nextChargeUnixDay = some (anniversary (month + visits.length) anchor) := by
  induction visits generalizing sub month with
  | nil => exact due
  | cons visit visits ih =>
    rw [length_cons] at inRange ⊢
    have moved := advance_next (anchored visit mem_cons_self) due (by omega) visit.2.1 visit.2.2
    have later : (advances visits (advanceSubscriptionCycle visit.1 visit.2.1 visit.2.2 sub)).nextChargeUnixDay =
        some (anniversary (month + 1 + visits.length) anchor) :=
      ih (fun other mem => anchored other (mem_cons_of_mem _ mem)) moved (by omega)
    rwa [Nat.add_right_comm] at later

theorem iterate_next (month count : Nat) (inRange : month + count < months) (anchor : Nat) :
    (fun day => addMonthsClamped day anchor 1)^[count] (anniversary month anchor) = anniversary (month + count) anchor := by
  induction count with
  | zero => rfl
  | succ _ ih =>
    rw [Function.iterate_succ_apply',ih (by omega)]
    exact addMonthsClamped_next inRange anchor

theorem walkCycles_found (anchor : Nat) (reached : anniversary month anchor ≤ today)
    (ahead : today < anniversary (month + 1) anchor) (positive : 1 ≤ anniversary month anchor) (cycles turns counted : Nat)
    (inRange : month + cycles + 1 < months) (enough : cycles < turns) :
    walkCycles anchor today turns (anniversary (month + cycles + 1) anchor) counted =
      some (anniversary month anchor,anniversary (month + 1) anchor,counted + cycles) := by
  induction cycles generalizing turns counted with
  | zero =>
    obtain ⟨turns,rfl⟩ := Nat.exists_eq_succ_of_ne_zero (Nat.ne_of_gt enough)
    have previous : addMonthsClamped (anniversary (month + 1) anchor) anchor (-1) = anniversary month anchor :=
      addMonthsClamped_previous inRange anchor
    rw [Nat.add_zero,walkCycles,previous,if_neg (by omega),if_pos reached]
    rfl
  | succ cycles ih =>
    obtain ⟨turns,rfl⟩ := Nat.exists_eq_succ_of_ne_zero (Nat.ne_zero_of_lt enough)
    have gap := anniversary_gap (month + cycles + 1) anchor
    have passed : anniversary (month + 1) anchor ≤ anniversary (month + cycles + 1) anchor :=
      (anniversary_strictMono anchor).monotone (by omega)
    rw [walkCycles,← Nat.add_assoc,addMonthsClamped_previous (by omega),if_neg (by omega),if_neg (by omega),
      ih turns (counted + 1) (by omega) (by omega),Nat.add_assoc counted 1 cycles,Nat.add_comm 1 cycles]

theorem cyclePosition_found (sub : UserPlanSubscription A H) (anchored : Anchored s sub.id anchor)
    (reached : anniversary month anchor ≤ currentUnixDay s) (ahead : currentUnixDay s < anniversary (month + 1) anchor) (positive : 1 ≤ anniversary month anchor) (cycles : Nat)
    (due : sub.nextChargeUnixDay = some (anniversary (month + cycles + 1) anchor)) (inRange : month + cycles + 1 < months)
    (enough : cycles < maxCycleWalk) :
    cyclePosition s sub = some (anniversary month anchor,anniversary (month + 1) anchor,cycles) := by
  have later : anniversary (month + 1) anchor ≤ anniversary (month + cycles + 1) anchor :=
    (anniversary_strictMono anchor).monotone (by omega)
  rw [cyclePosition,due]
  dsimp only
  rw [if_neg (by omega),anchorOf_anchored anchored due inRange,walkCycles_found anchor reached ahead positive cycles _ 0 inRange enough,
    Nat.zero_add]

-- The due days never drift from the first day, whatever the advances re-derive the anchor
-- from, and the position in the cycles is found as long as no more than 24 were paid.
theorem anniversaries_steady (s : State A H B) (sub : UserPlanSubscription A H) (day k : Nat)
    (positive : 1 ≤ day) (inRange : (dateOf day).1 + k + 1 < months) :
    let anchor := dayOfMonth day
    let due : Nat → Nat := fun n => addMonthsClamped day anchor n
    let kept : State A H B → Prop := fun t =>
      t.subscriptionAnchorDay sub.id = (setAnchor s sub.id anchor).subscriptionAnchorDay sub.id
    (∀ visits : List (State A H B × Nat × Nat), visits.length = k → (∀ visit ∈ visits, kept visit.1) →
      (advances visits {sub with nextChargeUnixDay:=some day}).nextChargeUnixDay = some (due k)) ∧
    (1 ≤ k → advanceCycles day anchor k = due k) ∧
    (due k + 28 ≤ due (k + 1) ∧ due (k + 1) ≤ due k + 31) ∧
    addMonthsClamped (due (k + 1)) anchor (-1) = due k ∧
    ∀ t, kept t → ∀ prepaid, prepaid ≤ 24 → prepaid ≤ k → due (k - prepaid) ≤ currentUnixDay t → currentUnixDay t < due k →
      ∃ i, (i < k ∧ due i ≤ currentUnixDay t ∧ currentUnixDay t < due (i + 1)) ∧
        (∀ j, j < k → due j ≤ currentUnixDay t → currentUnixDay t < due (j + 1) → j = i) ∧
        cyclePosition t {sub with nextChargeUnixDay:=some (due k)} = some (due i,due (i + 1),k - (i + 1)) := by
  intro anchor due kept
  have today : anniversary (dateOf day).1 anchor = day := anniversary_today (by omega)
  have bounds : 1 ≤ anchor ∧ anchor ≤ 31 := dayOfMonth_bounds (by omega)
  have dated : ∀ n, n ≤ k + 1 → due n = anniversary ((dateOf day).1 + n) anchor := by
    intro n within
    have later : addMonthsClamped (anniversary (dateOf day).1 anchor) anchor n = anniversary ((dateOf day).1 + n) anchor :=
      addMonthsClamped_later n (by omega) anchor
    rwa [today] at later
  have anchored : ∀ t, kept t → Anchored t sub.id anchor := by
    intro t same
    exact ⟨bounds.1,bounds.2,fun _ => same.trans (setAnchor_stored s sub.id anchor)⟩
  refine ⟨?_,?_,?_,?_,?_⟩
  · intro visits length all
    have first : some day = some (anniversary (dateOf day).1 anchor) := congrArg some today.symm
    have moved : (advances visits {sub with nextChargeUnixDay:=some day}).nextChargeUnixDay =
        some (anniversary ((dateOf day).1 + visits.length) anchor) :=
      advances_due visits (fun visit mem => anchored visit.1 (all visit mem)) first (by omega)
    rw [moved,length,dated k (by omega)]
  · intro paid
    have moved := iterate_next (dateOf day).1 k (by omega) anchor
    rw [today] at moved
    rw [advanceCycles,Nat.max_eq_left paid,moved,dated k (by omega)]
  · rw [dated k (by omega),dated (k + 1) (by omega)]
    exact anniversary_gap _ anchor
  · rw [dated k (by omega),dated (k + 1) (by omega)]
    exact addMonthsClamped_previous inRange anchor
  · intro t same prepaid limit within reached ahead
    rw [dated (k - prepaid) (by omega)] at reached
    rw [dated k (by omega)] at ahead
    obtain ⟨month,since,before,around⟩ := anniversary_around anchor (by omega) reached ahead
    obtain ⟨i,rfl⟩ := Nat.exists_eq_add_of_le (show (dateOf day).1 ≤ month by omega)
    have mem : i < k := by omega
    refine ⟨i,⟨mem,?_⟩,?_,?_⟩
    · rw [dated i (by omega),dated (i + 1) (by omega)]
      exact around
    · intro j other one two
      rw [dated j (by omega)] at one
      rw [dated (j + 1) (by omega)] at two
      have equal := anniversary_unique around ⟨one,two⟩
      omega
    · have index : (dateOf day).1 + i + (k - (i + 1)) + 1 = (dateOf day).1 + k := by omega
      have last : some (due k) = some (anniversary ((dateOf day).1 + i + (k - (i + 1)) + 1) anchor) := by
        rw [index,dated k (by omega)]
      have later : day ≤ anniversary ((dateOf day).1 + i) anchor :=
        today.symm.le.trans ((anniversary_strictMono anchor).monotone (Nat.le_add_right (dateOf day).1 i))
      have position : cyclePosition t {sub with nextChargeUnixDay:=some (due k)} =
          some (anniversary ((dateOf day).1 + i) anchor,anniversary ((dateOf day).1 + i + 1) anchor,k - (i + 1)) :=
        cyclePosition_found {sub with nextChargeUnixDay:=some (due k)} (anchored t same) around.1 around.2 (positive.trans later)
          (k - (i + 1)) last (by omega) (by unfold maxCycleWalk; omega)
      rw [position,dated i (by omega),dated (i + 1) (by omega)]
      rfl

end

def january : UserPlanSubscription Nat Nat := ⟨0,1,⟨3,false,10,true,false⟩,none,true,0,none,some 30,10⟩

def winter : State Nat Nat (Nat → Nat) := setAnchor unsold 0 31

theorem anniversaries_steady_winter :
    addMonthsClamped 30 (dayOfMonth 30) (1 : Nat) = 58 ∧ addMonthsClamped 30 (dayOfMonth 30) (2 : Nat) = 89 ∧
      (advances [(winter,58,100),(winter,89,200)] {january with nextChargeUnixDay:=some 30}).nextChargeUnixDay =
        some (addMonthsClamped 30 (dayOfMonth 30) (2 : Nat)) := by
  refine ⟨by decide +kernel,by decide +kernel,?_⟩
  refine (anniversaries_steady unsold january 30 2 (by decide) (by decide +kernel)).1 _ rfl ?_
  intro visit mem
  have same : visit.1 = winter := by
    rcases mem_cons.mp mem with rfl | rest
    · rfl
    · rw [mem_singleton.mp rest]
  rw [same]
  decide +kernel

open PaymentMath

section
variable {A H B : Type} {s t : State A H B} {sub row : UserPlanSubscription A H}

def valueOf (s : State A H B) (sub : UserPlanSubscription A H) : Nat :=
  unusedPrepaidRefundCredits s sub + remainingCycleValue s sub sub.paidPerMonth

theorem valueOf_position (position : cyclePosition s sub = none) : valueOf s sub = 0 := by
  simp only [valueOf,unusedPrepaidRefundCredits,remainingCycleValue,position]

theorem valueOf_due (due : sub.nextChargeUnixDay = some day) (reached : day ≤ currentUnixDay s) : valueOf s sub = 0 := by
  refine valueOf_position ?_
  rw [cyclePosition,due]
  exact if_pos reached

theorem valueOf_same (day : currentUnixDay t = currentUnixDay s) (anchor : t.subscriptionAnchorDay row.id = s.subscriptionAnchorDay sub.id)
    (due : row.nextChargeUnixDay = sub.nextChargeUnixDay) (paid : row.paidPerMonth = sub.paidPerMonth) : valueOf t row = valueOf s sub := by
  have position : cyclePosition t row = cyclePosition s sub := by
    rw [cyclePosition,cyclePosition,day,anchorOf,anchorOf,due,anchor]
  rw [valueOf,valueOf,unusedPrepaidRefundCredits,unusedPrepaidRefundCredits,remainingCycleValue,remainingCycleValue,position,paid,day]

theorem valueOf_ahead (anchored : Anchored s sub.id anchor) (reached : anniversary month anchor ≤ currentUnixDay s)
    (ahead : currentUnixDay s < anniversary (month + 1) anchor) (positive : 1 ≤ anniversary month anchor) (cycles : Nat)
    (due : sub.nextChargeUnixDay = some (anniversary (month + cycles + 1) anchor)) (inRange : month + cycles + 1 < months)
    (enough : cycles < maxCycleWalk) :
    valueOf s sub = times sub.paidPerMonth cycles + prorateFirstMonth sub.paidPerMonth
      (anniversary (month + 1) anchor - currentUnixDay s) (anniversary (month + 1) anchor - anniversary month anchor) := by
  have position := cyclePosition_found sub anchored reached ahead positive cycles due inRange enough
  rw [valueOf,unusedPrepaidRefundCredits,remainingCycleValue,position]
  dsimp only
  rw [if_neg (by omega)]

-- A subscription in its cycles: at most 24 of them lie between the day and the due day,
-- and what they cost fits. Day 0 is reached only from beyond the last date.
structure Placed (s : State A H B) (sub : UserPlanSubscription A H) (anchor month : Nat) : Prop where
  anchored : Anchored s sub.id anchor
  inRange : month < months
  due : sub.nextChargeUnixDay = some (anniversary month anchor)
  late : anniversary month anchor = 0 → 31 ≤ currentUnixDay s
  ahead : currentUnixDay s < anniversary month anchor → ∃ first, 1 ≤ anniversary first anchor ∧
    anniversary first anchor ≤ currentUnixDay s ∧ month ≤ first + 24 ∧ (month - first) * sub.paidPerMonth < 2 ^ 128

section
variable (placed : Placed s sub anchor month)
include placed

theorem Placed.same (day : currentUnixDay t = currentUnixDay s) (named : row.id = sub.id)
    (stored : t.subscriptionAnchorDay sub.id = s.subscriptionAnchorDay sub.id) (due : row.nextChargeUnixDay = sub.nextChargeUnixDay)
    (paid : row.paidPerMonth = sub.paidPerMonth) : Placed t row anchor month := by
  obtain ⟨anchored,inRange,known,late,ahead⟩ := placed
  refine ⟨⟨anchored.positive,anchored.bounded,?_⟩,inRange,due.trans known,day ▸ late,?_⟩
  · rw [named,stored]
    exact anchored.stored
  · rw [day,paid]
    exact ahead

theorem Placed.around (before : currentUnixDay s < anniversary month anchor) :
    ∃ cycle cycles, month = cycle + cycles + 1 ∧ anniversary cycle anchor ≤ currentUnixDay s ∧
      currentUnixDay s < anniversary (cycle + 1) anchor ∧
      valueOf s sub = sub.paidPerMonth * cycles + prorateFirstMonth sub.paidPerMonth
        (anniversary (cycle + 1) anchor - currentUnixDay s) (anniversary (cycle + 1) anchor - anniversary cycle anchor) := by
  obtain ⟨first,positive,since,_,fits⟩ := placed.ahead before
  have apart : first < month := (anniversary_strictMono anchor).lt_iff_lt.mp (Nat.lt_of_le_of_lt since before)
  obtain ⟨cycle,later,earlier,reached,ahead⟩ := anniversary_around anchor (Nat.le_of_lt apart) since before
  obtain ⟨cycles,rfl⟩ := Nat.exists_eq_add_of_lt earlier
  refine ⟨cycle,cycles,rfl,reached,ahead,?_⟩
  have started : 1 ≤ anniversary cycle anchor := positive.trans ((anniversary_strictMono anchor).monotone later)
  rw [valueOf_ahead placed.anchored reached ahead started cycles placed.due placed.inRange (by unfold maxCycleWalk; omega),
    times_exact]
  refine Nat.lt_of_le_of_lt ?_ fits
  rw [Nat.mul_comm]
  exact Nat.mul_le_mul_right _ (by omega)

theorem Placed.value_le (since : anniversary first anchor ≤ currentUnixDay s) :
    valueOf s sub ≤ (month - first) * sub.paidPerMonth := by
  by_cases before : currentUnixDay s < anniversary month anchor
  · obtain ⟨cycle,cycles,rfl,_,ahead,value⟩ := placed.around before
    have later : first < cycle + 1 := (anniversary_strictMono anchor).lt_iff_lt.mp (Nat.lt_of_le_of_lt since ahead)
    have rest := prorate_le sub.paidPerMonth (anniversary (cycle + 1) anchor - currentUnixDay s)
      (anniversary (cycle + 1) anchor - anniversary cycle anchor)
    calc valueOf s sub ≤ sub.paidPerMonth * cycles + sub.paidPerMonth := value ▸ Nat.add_le_add_left rest _
      _ = (cycles + 1) * sub.paidPerMonth := by rw [Nat.succ_mul,Nat.mul_comm]
      _ ≤ (cycle + cycles + 1 - first) * sub.paidPerMonth := Nat.mul_le_mul_right _ (by omega)
  · rw [valueOf_due placed.due (Nat.le_of_not_lt before)]
    exact Nat.zero_le _

theorem Placed.later (day : currentUnixDay s ≤ currentUnixDay t)
    (stored : t.subscriptionAnchorDay = s.subscriptionAnchorDay) : Placed t sub anchor month ∧ valueOf t sub ≤ valueOf s sub := by
  have moved : Placed t sub anchor month := by
    refine ⟨⟨placed.anchored.positive,placed.anchored.bounded,?_⟩,placed.inRange,placed.due,?_,?_⟩
    · rw [stored]
      exact placed.anchored.stored
    · intro zero
      exact (placed.late zero).trans day
    · intro before
      obtain ⟨first,positive,since,few,fits⟩ := placed.ahead (Nat.lt_of_le_of_lt day before)
      exact ⟨first,positive,since.trans day,few,fits⟩
  refine ⟨moved,?_⟩
  by_cases before : currentUnixDay t < anniversary month anchor
  · obtain ⟨one,whole,_,_,_,value⟩ := placed.around (Nat.lt_of_le_of_lt day before)
    obtain ⟨two,left,_,_,_,rest⟩ := moved.around before
    rw [value]
    by_cases same : two = one
    · subst same
      have equal : left = whole := by omega
      rw [rest,equal]
      exact Nat.add_le_add_left (prorate_mono _ _ (by omega)) _
    · have fewer : left < whole := by
        have passed : one < two + 1 := (anniversary_strictMono anchor).lt_iff_lt.mp (by omega)
        omega
      have part := prorate_le sub.paidPerMonth (anniversary (two + 1) anchor - currentUnixDay t)
        (anniversary (two + 1) anchor - anniversary two anchor)
      calc valueOf t sub ≤ sub.paidPerMonth * left + sub.paidPerMonth := rest ▸ Nat.add_le_add_left part _
        _ = sub.paidPerMonth * (left + 1) := (Nat.mul_succ _ _).symm
        _ ≤ sub.paidPerMonth * whole := Nat.mul_le_mul_left _ fewer
        _ ≤ _ := Nat.le_add_right _ _
  · rw [valueOf_due moved.due (Nat.le_of_not_lt before)]
    exact Nat.zero_le _

end

structure InDates (s : State A H B) : Prop where
  positive : 1 ≤ s.usage.nowMs / msPerDay
  inRange : (dateOf (s.usage.nowMs / msPerDay)).1 < months

theorem InDates.today (dates : InDates s) : currentUnixDay s = s.usage.nowMs / msPerDay := by
  obtain ⟨_,_⟩ := dateOf_spec (s.usage.nowMs / msPerDay)
  have inRange := dates.inRange
  have early := firstDay_bounds (dateOf (s.usage.nowMs / msPerDay)).1
  have length := monthLength_bounds (dateOf (s.usage.nowMs / msPerDay)).1
  unfold months at inRange
  refine Nat.mod_eq_of_lt ?_
  omega

theorem anniversary_bounds (month anchor : Nat) : 28 * month ≤ anniversary month anchor ∧ anniversary month anchor < 31 * (month + 1) := by
  have mem := anniversary_inside month anchor
  have length := monthLength_bounds month
  have first := firstDay_bounds month
  rw [anniversary]
  omega

-- A paid renewal moves the row on by a cycle, which is worth no more than its price. In
-- the last month of the dates it is due on day 0, so that it is due again.
theorem Placed.advance (placed : Placed s sub anchor month) (reached : anniversary month anchor ≤ currentUnixDay s) (today now : Nat) :
    ∃ anchor month, Placed s (advanceSubscriptionCycle s today now sub) anchor month ∧
      valueOf s (advanceSubscriptionCycle s today now sub) ≤ priceOf sub := by
  have price : 1 * priceOf sub < 2 ^ 128 := by
    rw [Nat.one_mul]
    exact sub.package.price.isLt
  by_cases inRange : month + 1 < months
  · have gap := anniversary_gap month anchor
    have due := advance_next placed.anchored placed.due inRange today now
    have moved : Placed s (advanceSubscriptionCycle s today now sub) anchor (month + 1) := by
      refine ⟨placed.anchored,inRange,due,?_,?_⟩
      · omega
      · intro before
        refine ⟨month,?_,reached,by omega,?_⟩
        · by_contra start
          have late := placed.late (by omega)
          omega
        · rw [Nat.add_sub_cancel_left]
          exact price
    have worth := moved.value_le reached
    rw [Nat.add_sub_cancel_left,Nat.one_mul] at worth
    exact ⟨anchor,month + 1,moved,worth⟩
  · have last : month = months - 1 := by
      have below := placed.inRange
      omega
    have due : (advanceSubscriptionCycle s today now sub).nextChargeUnixDay = some 0 := by
      rw [advanceSubscriptionCycle,anchorOf_anchored placed.anchored placed.due placed.inRange,placed.due,Option.getD_some,last,
        addMonthsClamped_over]
    have bounds := anniversary_bounds month anchor
    refine ⟨1,0,⟨⟨Nat.le_refl 1,by decide,fun late => absurd late (by decide)⟩,by decide,due,?_,?_⟩,?_⟩
    · unfold months at last
      omega
    · intro before
      exact absurd before (Nat.not_lt_zero _)
    · rw [valueOf_due due (Nat.zero_le _)]
      exact Nat.zero_le _

theorem iterate_over {count : Nat} (anchor : Nat) (inRange : month < months) (few : count ≤ 24) (past : months ≤ month + count) :
    ∃ early start, early ≤ count ∧ (start = anchor ∨ start = 1) ∧
      (fun day => addMonthsClamped day anchor 1)^[count] (anniversary month anchor) = anniversary early start := by
  obtain ⟨left,rfl⟩ : ∃ left, count = left + ((months - 1 - month) + 1) := ⟨count - (months - month),by omega⟩
  have last : (fun day => addMonthsClamped day anchor 1)^[months - 1 - month] (anniversary month anchor) = anniversary (months - 1) anchor := by
    have moved := iterate_next month (months - 1 - month) (by omega) anchor
    rwa [Nat.add_sub_cancel' (by omega)] at moved
  rw [Function.iterate_add_apply,Function.iterate_succ_apply',last,addMonthsClamped_over]
  cases left with
  | zero => exact ⟨0,1,Nat.zero_le _,.inr rfl,rfl⟩
  | succ left =>
    exact ⟨1 + left,anchor,by omega,.inl rfl,iterate_next 1 left (by unfold months; omega) anchor⟩

theorem opened_placed (dates : InDates s) (who : A) (plan : Plan H) (locationId : Option Nat) (image : Option Bytes)
    (bounded : 1 ≤ cycles ∧ cycles ≤ 24) (fits : cycles * paidPerMonth s who plan < 2 ^ 128)
    (day : currentUnixDay t = currentUnixDay s) (stored : t.subscriptionAnchorDay s.nextSubscriptionId = freshAnchor s) :
    ∃ anchor month, Placed t (newSubscription s who plan cycles locationId image) anchor month ∧
      valueOf t (newSubscription s who plan cycles locationId image) ≤ cycles * paidPerMonth s who plan := by
  have inRange : (dateOf (currentUnixDay s)).1 < months := dates.today ▸ dates.inRange
  have positive : 1 ≤ currentUnixDay s := dates.today ▸ dates.positive
  have today := anniversary_today inRange
  have own := dayOfMonth_bounds inRange
  have single : max (dayOfMonth (currentUnixDay s)) 1 = dayOfMonth (currentUnixDay s) := Nat.max_eq_left own.1
  have anchored : Anchored t s.nextSubscriptionId (dayOfMonth (currentUnixDay s)) := by
    refine ⟨own.1,own.2,fun _ => stored.trans ?_⟩
    rw [freshAnchor,single]
  have moved : (newSubscription s who plan cycles locationId image).nextChargeUnixDay = some
      ((fun day => addMonthsClamped day (dayOfMonth (currentUnixDay s)) 1)^[cycles]
        (anniversary (dateOf (currentUnixDay s)).1 (dayOfMonth (currentUnixDay s)))) := by
    rw [today]
    change some (advanceCycles _ _ _) = _
    rw [advanceCycles,single,Nat.max_eq_left bounded.1]
  generalize (dateOf (currentUnixDay s)).1 = month at inRange today moved
  generalize dayOfMonth (currentUnixDay s) = anchor at today own anchored moved
  by_cases within : month + cycles < months
  · rw [iterate_next month cycles within] at moved
    have bounds := anniversary_bounds (month + cycles) anchor
    have since : anniversary month anchor ≤ currentUnixDay t := by rw [today,day]
    have placed : Placed t (newSubscription s who plan cycles locationId image) anchor (month + cycles) := by
      refine ⟨anchored,within,moved,?_,?_⟩
      · omega
      · intro _
        refine ⟨month,today ▸ positive,since,by omega,?_⟩
        rw [Nat.add_sub_cancel_left]
        exact fits
    have worth := placed.value_le since
    rw [Nat.add_sub_cancel_left] at worth
    exact ⟨anchor,month + cycles,placed,worth⟩
  · obtain ⟨early,start,_,which,ends⟩ := iterate_over anchor inRange bounded.2 (Nat.le_of_not_lt within)
    rw [ends] at moved
    have here := anniversary_bounds month anchor
    have there := anniversary_bounds early start
    have past : anniversary early start < currentUnixDay t ∧ 31 ≤ currentUnixDay t := by
      unfold months at within
      omega
    refine ⟨start,early,⟨?_,by unfold months; omega,moved,fun _ => past.2,?_⟩,?_⟩
    · rcases which with rfl | rfl
      · exact anchored
      · exact ⟨Nat.le_refl 1,by decide,fun late => absurd late (by decide)⟩
    · omega
    · rw [valueOf_due moved (Nat.le_of_lt past.1)]
      exact Nat.zero_le _

-- What the cycles cost is at most what is collected: the discount on all of them is
-- rounded down once, what was paid per month is rounded down as well.
theorem paidPerMonth_covered (s : State A H B) (who : A) (plan : Plan H) (cycles : Nat)
    (fits : (plan.price : Nat) * cycles < 2 ^ 128) : cycles * paidPerMonth s who plan ≤ (purchaseCharge s who plan cycles).1 := by
  rw [purchaseCharge,referralDiscountAndOwner,paidPerMonth,times_exact fits,Nat.mul_comm]
  cases s.usage.market.referredUsers who with
  | none => exact le_rfl
  | some =>
    have pieces := split_pieces plan.price cycles
    rw [Option.isSome_some,if_pos rfl]
    dsimp only
    omega

theorem paidPerMonth_le (s : State A H B) (who : A) (plan : Plan H) :
    paidPerMonth s who plan ≤ plan.price - (referralDiscountAndOwner s who plan.price).1 := by
  have fits : (plan.price : Nat) * 1 < 2 ^ 128 := by
    rw [Nat.mul_one]
    exact plan.price.isLt
  have covered := paidPerMonth_covered s who plan 1 fits
  rwa [purchaseCharge,times_exact fits,Nat.mul_one,Nat.one_mul] at covered

end
end TheBrain.Marketplace.Subscriptions
