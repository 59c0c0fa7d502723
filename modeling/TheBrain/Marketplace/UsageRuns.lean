import TheBrain.Marketplace.Usage
import TheBrain.Marketplace.Spending

namespace TheBrain.Marketplace.Usage
open Library Machine Words Function List StorageMap

variable {A H B : Type}
variable {s t u : State A H B}

-- The rows recorded so far, as the events report them: a charge and a failed charge each
-- come with one write of a record.
def recordedOf : Event A H → Option ((Nat × A) × Nat)
  | .computeUsageCharged who period amount _ _ => some ((period,who),amount)
  | .computeUsageChargeFailed who period amount _ _ _ => some ((period,who),amount)
  | .usageCharged who period amount _ _ _ => some ((period,who),amount)
  | .usageChargeFailed who period amount _ _ _ _ => some ((period,who),amount)
  | _ => none

def recorded (events : List (Event A H)) : List ((Nat × A) × Nat) := events.filterMap recordedOf

theorem recorded_append (events : List (Event A H)) (e : Event A H) :
    recorded (events ++ [e]) = recorded events ++ (recordedOf e).toList := by
  rw [recorded,filterMap_append]
  refine congrArg (recorded events ++ ·) ?_
  cases found : recordedOf e with
  | none => exact filterMap_cons_none found
  | some => exact filterMap_cons_some found

theorem recorded_silent (s : State A H B) (e : Event A H) (silent : recordedOf e = none) :
    recorded (depositEvent s e).events = recorded s.events := by
  rw [depositEvent,recorded_append,silent]
  exact append_nil _

theorem chargedEvent_recorded (breakdown : Option UsageBreakdown) :
    recordedOf (chargedEvent who period amount collected usageHash breakdown : Event A H) = some ((period,who),amount) := by
  cases breakdown with
  | none | some => rfl

theorem chargeFailedEvent_recorded (breakdown : Option UsageBreakdown) :
    recordedOf (chargeFailedEvent who period amount required available usageHash breakdown : Event A H) =
      some ((period,who),amount) := by
  cases breakdown with
  | none | some => rfl

def ComputeUsageSummary.counted (summary : ComputeUsageSummary) : Prop := 0 < summary.charged ∨ 0 < summary.arrears

structure Finished (period : Nat) (counted : Prop) (s t : State A H B) : Prop where
  events : recorded t.events = recorded s.events
  records : t.computeUsageCharged = s.computeUsageCharged
  arrears : t.computeArrears = s.computeArrears
  market : t.market = s.market
  clock : t.nowMs = s.nowMs
  since : ∀ least, (∃ since, s.computeUsagePruneFrom = some since ∧ since ≤ least) ∨ counted ∧ period = least →
    ∃ since, t.computeUsagePruneFrom = some since ∧ since ≤ least
  last : ∀ most, (∃ last, s.lastComputeBillingPeriod = some last ∧ most ≤ last) ∨ counted ∧ period = most →
    ∃ last, t.lastComputeBillingPeriod = some last ∧ most ≤ last

theorem finish_finished (s : State A H B) (period : Nat) (summary : ComputeUsageSummary) :
    Finished period summary.counted s (finishComputeUsageSubmission s period summary) := by
  unfold finishComputeUsageSubmission
  split
  · refine ⟨recorded_silent _ _ rfl,rfl,rfl,rfl,rfl,?_,?_⟩
    · intro least either
      refine ⟨_,rfl,?_⟩
      rcases either with ⟨_,held,below⟩ | ⟨_,same⟩
      · rw [held]
        exact (Nat.min_le_left _ _).trans below
      · cases s.computeUsagePruneFrom with
        | none => exact same.le
        | some => exact (Nat.min_le_right _ _).trans same.le
    · intro most either
      refine ⟨_,rfl,?_⟩
      rcases either with ⟨_,held,above⟩ | ⟨_,same⟩
      · rw [held]
        exact above.trans (Nat.le_max_left _ _)
      · cases s.lastComputeBillingPeriod with
        | none => exact same.ge
        | some => exact same.ge.trans (Nat.le_max_right _ _)
  next uncounted =>
    refine ⟨recorded_silent _ _ rfl,rfl,rfl,rfl,rfl,?_,?_⟩
    · intro least either
      exact either.resolve_right fun both => uncounted both.1
    · intro most either
      exact either.resolve_right fun both => uncounted both.1

structure Aside (s t : State A H B) : Prop where
  events : recorded t.events = recorded s.events
  records : t.computeUsageCharged = s.computeUsageCharged := by rfl
  arrears : t.computeArrears = s.computeArrears := by rfl
  since : t.computeUsagePruneFrom = s.computeUsagePruneFrom := by rfl
  last : t.lastComputeBillingPeriod = s.lastComputeBillingPeriod := by rfl
  clock : s.nowMs ≤ t.nowMs := by exact le_rfl

theorem market_aside (s : State A H B) (market : Marketplace.State A B) :
    Aside s {s with market:=market} := {events:=rfl}

variable [DecidableEq A] {cfg : Config A B}

def amountFor (who : A) (rows : List ((Nat × A) × Nat)) : Nat :=
  (rows.map fun row => if row.1.2 = who then row.2 else 0).sum

theorem amountFor_append (who : A) (one two : List ((Nat × A) × Nat)) :
    amountFor who (one ++ two) = amountFor who one + amountFor who two := by
  rw [amountFor,map_append,sum_append]
  rfl

-- What billing code does with some rows of one period: each is new and stored, nothing
-- else about the records changes, and every account pays its rows from its credits or
-- owes them.
structure Bills (period : Nat) (rows : List ((Nat × A) × Nat)) (s t : State A H B) : Prop where
  events : recorded t.events = recorded s.events ++ rows
  distinct : (rows.map Prod.fst).Nodup
  fresh : ∀ row ∈ rows, row.1.1 = period ∧ s.computeUsageCharged.lookup row.1 = none
  stored : ∀ row ∈ rows, ∃ entry, t.computeUsageCharged.lookup row.1 = some entry ∧ entry.amount = row.2
  others : ∀ key, key ∉ rows.map Prod.fst → t.computeUsageCharged.lookup key = s.computeUsageCharged.lookup key
  balance : ∀ who, t.market.freeCredits who + (amountFor who rows + s.computeArrears who) =
    s.market.freeCredits who + t.computeArrears who
  clock : t.nowMs = s.nowMs := by rfl
  last : t.lastComputeBillingPeriod = s.lastComputeBillingPeriod := by rfl
  since : t.computeUsagePruneFrom = s.computeUsagePruneFrom := by rfl

theorem Bills.silent (events : recorded t.events = recorded s.events)
    (records : t.computeUsageCharged = s.computeUsageCharged)
    (balance : ∀ who, t.market.freeCredits who + s.computeArrears who = s.market.freeCredits who + t.computeArrears who)
    (clock : t.nowMs = s.nowMs := by rfl) (last : t.lastComputeBillingPeriod = s.lastComputeBillingPeriod := by rfl)
    (since : t.computeUsagePruneFrom = s.computeUsagePruneFrom := by rfl) : Bills period [] s t where
  events := by rw [events,append_nil]
  distinct := nodup_nil
  fresh := forall_mem_nil _
  stored := forall_mem_nil _
  others key _ := by rw [records]
  balance who := by
    rw [amountFor,map_nil,sum_nil,Nat.zero_add]
    exact balance who
  clock := clock
  last := last
  since := since

theorem Bills.refl (period : Nat) (s : State A H B) : Bills period [] s s :=
  .silent rfl rfl fun _ => rfl

theorem Bills.trans (first : Bills period one s t) (later : Bills period two t u) : Bills period (one ++ two) s u where
  events := by rw [later.events,first.events,append_assoc]
  distinct := by
    rw [map_append]
    refine nodup_append.mpr ⟨first.distinct,later.distinct,?_⟩
    intro key mem other repeated same
    obtain ⟨row,early,rfl⟩ := mem_map.mp mem
    obtain ⟨again,late,rfl⟩ := mem_map.mp repeated
    obtain ⟨entry,held,_⟩ := first.stored row early
    have absent := (later.fresh again late).2
    rw [← same,held] at absent
    cases absent
  fresh row mem := by
    rcases mem_append.mp mem with early | late
    · exact first.fresh row early
    · obtain ⟨period,absent⟩ := later.fresh row late
      refine ⟨period,?_⟩
      by_cases repeated : row.1 ∈ one.map Prod.fst
      · obtain ⟨same,early,equal⟩ := mem_map.mp repeated
        obtain ⟨entry,held,_⟩ := first.stored same early
        rw [equal,absent] at held
        cases held
      · rw [← first.others row.1 repeated]
        exact absent
  stored row mem := by
    rcases mem_append.mp mem with early | late
    · obtain ⟨entry,held,amount⟩ := first.stored row early
      refine ⟨entry,?_,amount⟩
      rw [later.others row.1 ?_]
      · exact held
      · intro repeated
        obtain ⟨again,late,equal⟩ := mem_map.mp repeated
        have absent := (later.fresh again late).2
        rw [equal,held] at absent
        cases absent
    · exact later.stored row late
  others key missing := by
    rw [map_append,mem_append,not_or] at missing
    rw [later.others key missing.2,first.others key missing.1]
  balance who := by
    have before := first.balance who
    have after := later.balance who
    rw [amountFor_append]
    omega
  clock := later.clock.trans first.clock
  last := later.last.trans first.last
  since := later.since.trans first.since

theorem reports (s : State A H B) (e : Event A H) (silent : recordedOf e = none) :
    Bills period [] s (depositEvent s e) := .silent (recorded_silent s e silent) rfl fun _ => rfl

theorem accrue_free (m : Marketplace.State A B) (user : A) (charged : Nat) :
    (accrueHourlyReferralCommission m user charged).freeCredits = m.freeCredits := by
  simp only [accrueHourlyReferralCommission]
  split
  · rfl
  · split
    · rfl
    · rfl

structure Collected (who : A) (owed : Nat) (s t : State A H B) : Prop where
  paid : t.market.freeCredits who + owed = s.market.freeCredits who
  others : ∀ other, other ≠ who → t.market.freeCredits other = s.market.freeCredits other
  arrears : t.computeArrears = update s.computeArrears who 0
  records : t.computeUsageCharged = s.computeUsageCharged := by rfl
  events : t.events = s.events := by rfl
  clock : t.nowMs = s.nowMs := by rfl
  last : t.lastComputeBillingPeriod = s.lastComputeBillingPeriod := by rfl
  since : t.computeUsagePruneFrom = s.computeUsagePruneFrom := by rfl

theorem collectComputeCredits_some (collected : collectComputeCredits s who owed = some t) : Collected who owed s t := by
  unfold collectComputeCredits at collected
  cases debit : consumeCredits s.market who owed with
  | error =>
    rw [debit] at collected
    cases collected
  | ok market =>
    rw [debit] at collected
    cases collected
    obtain ⟨_,_,paid,others⟩ := consumeCredits_ok debit
    rw [← accrue_free market who owed] at paid others
    exact {paid:=paid,others:=others,arrears:=rfl}

theorem Collected.settles (collected : Collected who (s.computeArrears who) s t) : Bills period [] s t := by
  refine .silent (by rw [collected.events]) collected.records ?_ collected.clock collected.last collected.since
  intro other
  rw [collected.arrears,update_apply]
  by_cases own : other = who
  · subst own
    have paid := collected.paid
    rw [if_pos rfl]
    omega
  · rw [if_neg own,collected.others other own]

theorem settleAccount_bills (s : State A H B) (who : A) : Bills period [] s (settleAccount s who) := by
  simp only [settleAccount]
  split
  · exact .refl period s
  · cases debit : collectComputeCredits s who (s.computeArrears who) with
    | none => exact reports s _ rfl
    | some t => exact (collectComputeCredits_some debit).settles.trans (reports t _ rfl)

theorem settle_bills (accounts : List A) (s : State A H B) : Bills period [] s (accounts.foldl settleAccount s) := by
  induction accounts generalizing s with
  | nil => exact .refl period s
  | cons who _ ih => exact (settleAccount_bills s who).trans (ih _)

theorem bills_row (absent : s.computeUsageCharged.lookup (period,who) = none) (reported : recordedOf e = some ((period,who),amount))
    (records : t.computeUsageCharged = s.computeUsageCharged) (events : t.events = s.events)
    (balance : ∀ other, t.market.freeCredits other + ((if who = other then amount else 0) + s.computeArrears other) =
      s.market.freeCredits other + t.computeArrears other) (entry : ComputeUsageRecord H) (same : entry.amount = amount)
    (clock : t.nowMs = s.nowMs) (last : t.lastComputeBillingPeriod = s.lastComputeBillingPeriod)
    (since : t.computeUsagePruneFrom = s.computeUsagePruneFrom) :
    Bills period [((period,who),amount)] s (insertUsageRecord (depositEvent t e) period who entry) where
  events := by
    refine (recorded_append t.events e).trans ?_
    rw [events,reported]
    rfl
  distinct := nodup_singleton _
  fresh row mem := by
    rw [mem_singleton.mp mem]
    exact ⟨rfl,absent⟩
  stored row mem := by
    rw [mem_singleton.mp mem]
    exact ⟨entry,AList.lookup_insert _,same⟩
  others key missing := by
    have apart : key ≠ (period,who) := fun equal => missing (mem_singleton.mpr equal)
    refine (AList.lookup_insert_ne apart).trans ?_
    exact congrArg (AList.lookup key) records
  balance other := by
    rw [amountFor,map_singleton,sum_singleton]
    exact balance other
  clock := clock
  last := last
  since := since

def Applied (period : Nat) (s t : State A H B) (result : ComputeRowResult) : Prop :=
  Bills period [] s t ∨ result.isRecorded = true ∧ ∃ row, Bills period [row] s t

theorem recordComputeUsageRow_applied (absent : s.computeUsageCharged.lookup (period,who) = none) (amount : Nat) (usageHash : H)
    (breakdown : Option UsageBreakdown) :
    Applied period s (recordComputeUsageRow s period who amount usageHash breakdown).1
      (recordComputeUsageRow s period who amount usageHash breakdown).2 := by
  simp only [recordComputeUsageRow,drawComputeCommitment]
  cases room : checkedAdd 128 (s.computeArrears who) amount with
  | none => exact .inl (reports s _ rfl)
  | some =>
    have fits := (checkedAdd_some.mp room).1
    rw [saturatingAdd_exact fits]
    cases charge : chargeUsage s who amount (s.computeArrears who + amount) with
    | none =>
      refine .inr ⟨rfl,((period,who),amount),
        bills_row (t := {s with computeArrears:=update s.computeArrears who (s.computeArrears who + amount)})
          absent (chargeFailedEvent_recorded breakdown) rfl rfl ?_ _ rfl rfl rfl rfl⟩
      intro other
      dsimp only
      rw [update_apply]
      by_cases own : other = who
      · subst own
        rw [if_pos rfl,if_pos rfl]
        omega
      · rw [if_neg own,if_neg (Ne.symm own),Nat.zero_add]
    | some t =>
      unfold chargeUsage at charge
      split at charge
      next nothing =>
        cases charge
        refine .inr ⟨rfl,((period,who),amount),
          bills_row (t := s) absent (chargedEvent_recorded breakdown) rfl rfl ?_ _ rfl rfl rfl rfl⟩
        intro other
        rw [nothing,ite_self,Nat.zero_add]
      · have collected := collectComputeCredits_some charge
        refine .inr ⟨rfl,((period,who),amount),
          bills_row (t := t) absent (chargedEvent_recorded breakdown) collected.records collected.events ?_ _ rfl
            collected.clock collected.last collected.since⟩
        intro other
        rw [collected.arrears,update_apply]
        by_cases own : other = who
        · subst own
          have paid := collected.paid
          rw [if_pos rfl,if_pos rfl]
          omega
        · rw [if_neg own,if_neg (Ne.symm own),Nat.zero_add,collected.others other own]

section
variable [DecidableEq H]

theorem alreadyRecorded_some (found : computeUsageAlreadyRecorded s period who amount usageHash = some (t,result)) :
    Bills period [] s t := by
  unfold computeUsageAlreadyRecorded at found
  cases held : s.computeUsageCharged.lookup (period,who) with
  | none =>
    rw [held] at found
    cases found
  | some =>
    simp only [held,Option.bind_eq_bind,Option.bind_some] at found
    split at found
    · cases found
      exact reports s _ rfl
    · cases found
      exact reports s _ rfl

theorem alreadyRecorded_none (missing : computeUsageAlreadyRecorded s period who amount usageHash = none) :
    s.computeUsageCharged.lookup (period,who) = none := by
  unfold computeUsageAlreadyRecorded at missing
  cases held : s.computeUsageCharged.lookup (period,who) with
  | none => rfl
  | some =>
    simp only [held,Option.bind_eq_bind,Option.bind_some] at missing
    split at missing
    · cases missing
    · cases missing

theorem applyComputeUsageRow_applied (s : State A H B) (period : Nat) (who : A) (amount : Nat)
    (usageHash : H) (perAccountCap perCallCap callAccepted : Nat) :
    Applied period s (applyComputeUsageRow s period who amount usageHash perAccountCap perCallCap callAccepted).1
      (applyComputeUsageRow s period who amount usageHash perAccountCap perCallCap callAccepted).2.1 := by
  unfold applyComputeUsageRow
  split
  · next found => exact .inl (alreadyRecorded_some found)
  next missing =>
    split
    · exact .inl (reports s _ rfl)
    · exact recordComputeUsageRow_applied (alreadyRecorded_none missing) amount usageHash none

end

theorem drawFees_bills (who : A) (fees : List (UsageKind × Nat × Nat × Nat))
    (p : State A H B × UsageCallTally) : Bills period [] p.1 (fees.foldl (drawFee who) p).1 := by
  induction fees generalizing p with
  | nil => exact .refl period p.1
  | cons fee _ ih =>
    have drawn : Bills period [] p.1 (drawFee who p fee).1 := .silent rfl rfl fun _ => rfl
    exact drawn.trans (ih (drawFee who p fee))

theorem Applied.andThen (applied : Applied period s t result) (rest : Bills period [] t u) : Applied period s u result := by
  rcases applied with silent | ⟨counts,row,billed⟩
  · exact .inl (silent.trans rest)
  · exact .inr ⟨counts,row,billed.trans rest⟩

theorem applyUsageRowV2_applied [DecidableEq H] (s : State A H B) (period : Nat) (row : UsageRowV2 A H)
    (caps : UsageCaps) (call : UsageCallTally) :
    Applied period s (applyUsageRowV2 s period row caps call).1 (applyUsageRowV2 s period row caps call).2.1 := by
  unfold applyUsageRowV2
  split
  · exact .inl (reports s _ rfl)
  · split
    · next found => exact .inl (alreadyRecorded_some found)
    next missing =>
      split
      · exact .inl (reports s _ rfl)
      next admission admitted =>
        have applied := recordComputeUsageRow_applied (alreadyRecorded_none missing) row.total row.usageHash (some row.breakdown)
        dsimp only
        split
        · exact applied.andThen (drawFees_bills row.who admission.fees
            (_,{call with nonFee:=saturatingAdd 128 call.nonFee admission.callNonFee}))
        · exact applied

theorem counts_one (n : Nat) : 0 < saturatingAdd 32 n 1 := by
  unfold saturatingAdd maxOf
  omega

theorem add_counted (summary : ComputeUsageSummary) (result : ComputeRowResult) (amount : Nat)
    (either : summary.counted ∨ result.isRecorded = true) : (summary.add result amount).counted := by
  cases result with
  | charged => exact .inl (counts_one _)
  | arrears => exact .inr (counts_one _)
  | duplicate | conflict | refused =>
    rcases either with counted | impossible
    · exact counted
    · cases impossible

structure Loops (period : Nat) (p q : Submission A H B Tally) : Prop where
  bills : ∃ rows, Bills period rows p.state q.state ∧ (rows ≠ [] → q.summary.counted)
  counted : p.summary.counted → q.summary.counted

theorem Applied.loops {p q : Submission A H B Tally} (applied : Applied period p.state q.state result)
    (summary : q.summary = p.summary.add result amount) : Loops period p q := by
  refine ⟨?_,?_⟩
  · rcases applied with silent | ⟨counts,row,billed⟩
    · exact ⟨[],silent,fun absurd => (absurd rfl).elim⟩
    · refine ⟨[row],billed,fun _ => ?_⟩
      rw [summary]
      exact add_counted _ _ _ (.inr counts)
  · intro counted
    rw [summary]
    exact add_counted _ _ _ (.inl counted)

theorem foldl_loops {f : Submission A H B Tally → Row → Submission A H B Tally}
    (each : ∀ p row, Loops period p (f p row)) (rows : List Row) (p : Submission A H B Tally) :
    Loops period p (rows.foldl f p) := by
  induction rows generalizing p with
  | nil => exact ⟨⟨[],.refl period p.state,fun absurd => (absurd rfl).elim⟩,id⟩
  | cons row _ ih =>
    obtain ⟨⟨one,first,firstCounts⟩,kept⟩ := each p row
    obtain ⟨⟨two,later,laterCounts⟩,still⟩ := ih (f p row)
    refine ⟨⟨one ++ two,first.trans later,?_⟩,fun counted => still (kept counted)⟩
    intro some
    by_cases none : one = []
    · refine laterCounts fun empty => some ?_
      rw [none,empty,append_nil]
    · exact still (firstCounts none)

theorem prune_clock (s : State A H B) (limit : Weight) : (pruneComputeUsage cfg s limit).1.nowMs = s.nowMs := by
  unfold pruneComputeUsage
  split
  · rfl
  · split
    · rfl
    · rfl

structure Submitted (cfg : Config A B) (s t : State A H B) (period : Nat)
    (rows : List ((Nat × A) × Nat)) (middle : State A H B) (summary : ComputeUsageSummary) : Prop where
  closed : period < currentComputePeriod s
  recent : currentComputePeriod s - period ≤ cfg.maxComputeBillingLag
  bills : Bills period rows s middle
  counted : rows ≠ [] → summary.counted
  finished : t = finishComputeUsageSubmission middle period summary

theorem Submitted.clock (submitted : Submitted cfg s t period rows middle summary) : t.nowMs = s.nowMs := by
  rw [submitted.finished,(finish_finished middle period summary).clock,submitted.bills.clock]

variable [DecidableEq H]

theorem submitRow_loops (period perAccountCap perCallCap : Nat) (p : Submission A H B Nat)
    (row : A × Word 128 × H) : Loops period p (submitRow period perAccountCap perCallCap p row) :=
  (applyComputeUsageRow_applied p.state period row.1 row.2.1 row.2.2 perAccountCap perCallCap p.tally).loops rfl

theorem submitRowV2_loops (period : Nat) (caps : UsageCaps) (p : Submission A H B UsageCallTally)
    (row : UsageRowV2 A H) : Loops period p (submitRowV2 period caps p row) :=
  (applyUsageRowV2_applied p.state period row caps p.tally).loops rfl

theorem submitComputeUsage_ok (ran : submitComputeUsage cfg s origin period rows = .ok t) :
    ∃ billed middle summary, Submitted cfg s t period billed middle summary := by
  simp only [submitComputeUsage,ensureComputePeriodBillable,bind_ok,ensure_ok,exists_unit] at ran
  obtain ⟨_,_,_,_,⟨closed,recent⟩,finished⟩ := ran
  obtain ⟨⟨billed,bills,counted⟩,_⟩ := foldl_loops (submitRow_loops period _ _) rows ⟨s,{},0⟩
  exact ⟨billed,_,_,closed,recent,bills,counted,(Except.ok.inj finished).symm⟩

theorem submitUsageV2_ok (ran : submitUsageV2 cfg s origin period rows = .ok t) :
    ∃ billed middle summary, Submitted cfg s t period billed middle summary := by
  simp only [submitUsageV2,ensureComputePeriodBillable,bind_ok,ensure_ok,exists_unit] at ran
  obtain ⟨_,_,_,_,⟨closed,recent⟩,finished⟩ := ran
  obtain ⟨⟨billed,bills,counted⟩,_⟩ := foldl_loops (submitRowV2_loops period _) rows ⟨s,{},⟨0,fun _ => 0⟩⟩
  exact ⟨billed,_,_,closed,recent,bills,counted,(Except.ok.inj finished).symm⟩

section
omit [DecidableEq H]

-- Pruning removes records of periods before the cutoff only, and where it stops is not
-- past any record.
structure Pruned (cutoff : Nat) (p q : UsagePruning A H) : Prop where
  left : ∀ key entry, q.records.lookup key = some entry → p.records.lookup key = some entry
  lost : ∀ key entry, p.records.lookup key = some entry → q.records.lookup key = some entry ∨ key.1 < cutoff
  since : (∀ key entry, p.records.lookup key = some entry → p.since ≤ key.1) →
    ∀ key entry, q.records.lookup key = some entry → q.since ≤ key.1

theorem Pruned.trans {p q r : UsagePruning A H} (first : Pruned cutoff p q) (later : Pruned cutoff q r) : Pruned cutoff p r where
  left key entry held := first.left key entry (later.left key entry held)
  lost key entry held := by
    rcases first.lost key entry held with kept | old
    · exact later.lost key entry kept
    · exact .inr old
  since bound := later.since (first.since bound)

theorem Pruned.same {p : UsagePruning A H} (consumed : Weight) : Pruned cutoff p ⟨p.records,p.since,consumed⟩ where
  left _ _ held := held
  lost _ _ held := .inl held
  since bound := bound

theorem clear_pruned (cfg : Config A B) {p : UsagePruning A H} (limit : Nat) (old : p.since < cutoff)
    (consumed : Weight) :
    Pruned cutoff p ⟨(p.records.clearPrefix cfg.market.accountRank p.since limit).1,p.since,consumed⟩ where
  left key entry held := clearPrefix_left _ _ _ held
  lost key entry held := by
    by_cases under : key.1 = p.since
    · exact .inr (under ▸ old)
    · exact .inl ((clearPrefix_other _ _ _ under).trans held)
  since bound key entry held := bound key entry (clearPrefix_left _ _ _ held)

theorem next_pruned {p : UsagePruning A H} (empty : ∀ who, p.records.lookup (p.since,who) = none) (consumed : Weight) :
    Pruned cutoff p ⟨p.records,saturatingAdd 64 p.since 1,consumed⟩ where
  left _ _ held := held
  lost _ _ held := .inl held
  since bound key entry held := by
    have least := bound key entry held
    have apart : key.1 ≠ p.since := by
      intro same
      have none := empty key.2
      rw [← same] at none
      have both := none.symm.trans held
      cases both
    have step : saturatingAdd 64 p.since 1 ≤ p.since + 1 := saturatingAdd_le
    dsimp only
    omega

theorem prunePeriods_pruned (cfg : Config A B) (limit : Weight) (cutoff last turns : Nat)
    (p : UsagePruning A H) : Pruned cutoff p (prunePeriods cfg limit cutoff last turns p) := by
  induction turns generalizing p with
  | zero => exact .same p.consumed
  | succ _ ih =>
    unfold prunePeriods
    split
    · exact .same p.consumed
    next mem =>
      have old : p.since < cutoff := by omega
      split
      · exact .same p.consumed
      next consumed probed =>
        dsimp only
        split
        · exact .same consumed
        · have cleared := clear_pruned cfg
            (min (accountsAffordable cfg limit consumed (access cfg.market 1 1)) (maxOf 32)) old
          have emptied := clearPrefix_done cfg.market.accountRank
            (min (accountsAffordable cfg limit consumed (access cfg.market 1 1)) (maxOf 32)) p.records p.since
          generalize p.records.clearPrefix cfg.market.accountRank p.since
            (min (accountsAffordable cfg limit consumed (access cfg.market 1 1)) (maxOf 32)) = removed at cleared emptied ⊢
          split
          · exact cleared _
          next done =>
            refine (cleared consumed).trans ((next_pruned ?_ _).trans (ih _))
            exact emptied (Bool.eq_false_iff.mpr done)

def debits (cfg : Config A B) (s : State A H B) (call : Call A H B) : List (A → Int) :=
  match call with
  | .submitComputeUsage .. | .submitUsageV2 .. | .settleComputeArrears .. =>
    [fun who => (s.market.freeCredits who : Int) - (step cfg s call).market.freeCredits who]
  | _ => []

def debited (who : A) (log : List (A → Int)) : Int := (log.map (· who)).sum

-- A row recorded once stays on record until its period is beyond the retention, so it
-- is there, or its period refused, whenever the row comes back.
structure Billed (cfg : Config A B) (p : State A H B × List (A → Int)) : Prop where
  once : ((recorded p.1.events).map Prod.fst).Nodup
  balance : ∀ who, (amountFor who (recorded p.1.events) : Int) = debited who p.2 + p.1.computeArrears who
  kept : ∀ row ∈ recorded p.1.events, (∃ entry, p.1.computeUsageCharged.lookup row.1 = some entry) ∨
    row.1.1 + cfg.computeUsageRetention < currentComputePeriod p.1
  reported : ∀ key entry, p.1.computeUsageCharged.lookup key = some entry → (key,entry.amount) ∈ recorded p.1.events
  since : ∀ key entry, p.1.computeUsageCharged.lookup key = some entry →
    ∃ since, p.1.computeUsagePruneFrom = some since ∧ since ≤ key.1
  last : ∀ key entry, p.1.computeUsageCharged.lookup key = some entry →
    ∃ last, p.1.lastComputeBillingPeriod = some last ∧ key.1 ≤ last

theorem genesis_billed (cfg : Config A B) (market : Marketplace.State A B) (nowMs : Nat) :
    Billed cfg ((genesis market nowMs : State A H B),[]) where
  once := nodup_nil
  balance _ := rfl
  kept := forall_mem_nil _
  reported _ _ held := nomatch held
  since _ _ held := nomatch held
  last _ _ held := nomatch held

theorem Bills.once (billed : Billed cfg (s,log)) (bills : Bills period rows s t)
    (recent : currentComputePeriod s ≤ period + cfg.computeUsageRetention) :
    ((recorded t.events).map Prod.fst).Nodup := by
  rw [bills.events,map_append]
  refine nodup_append.mpr ⟨billed.once,bills.distinct,?_⟩
  intro key mem other repeated same
  obtain ⟨old,before,rfl⟩ := mem_map.mp mem
  obtain ⟨row,new,rfl⟩ := mem_map.mp repeated
  obtain ⟨here,absent⟩ := bills.fresh row new
  rcases billed.kept old before with ⟨_,held⟩ | gone
  · rw [same,absent] at held
    cases held
  · rw [same,here] at gone
    exact absurd gone (Nat.not_lt.mpr recent)

theorem Bills.balanced (billed : Billed cfg (s,log)) (bills : Bills period rows s t) (who : A) :
    (amountFor who (recorded t.events) : Int) =
      debited who (log ++ [fun who => (s.market.freeCredits who : Int) - t.market.freeCredits who]) + t.computeArrears who := by
  have before := billed.balance who
  have moved := bills.balance who
  rw [bills.events,amountFor_append,debited,map_append,sum_append,map_singleton,sum_singleton]
  dsimp only [debited] at before ⊢
  omega

theorem Bills.kept (billed : Billed cfg (s,log)) (bills : Bills period rows s t) :
    ∀ row ∈ recorded t.events, (∃ entry, t.computeUsageCharged.lookup row.1 = some entry) ∨
      row.1.1 + cfg.computeUsageRetention < currentComputePeriod t := by
  intro row mem
  by_cases new : row.1 ∈ rows.map Prod.fst
  · obtain ⟨same,listed,equal⟩ := mem_map.mp new
    obtain ⟨entry,held,_⟩ := bills.stored same listed
    rw [equal] at held
    exact .inl ⟨entry,held⟩
  · rw [bills.events] at mem
    rcases mem_append.mp mem with old | listed
    · rw [bills.others row.1 new,currentComputePeriod,bills.clock]
      exact billed.kept row old
    · exact absurd (mem_map_of_mem listed) new

theorem Bills.reported (billed : Billed cfg (s,log)) (bills : Bills period rows s t) (key : Nat × A)
    (entry : ComputeUsageRecord H) (held : t.computeUsageCharged.lookup key = some entry) :
    (key,entry.amount) ∈ recorded t.events := by
  rw [bills.events]
  by_cases new : key ∈ rows.map Prod.fst
  · obtain ⟨row,listed,rfl⟩ := mem_map.mp new
    obtain ⟨_,there,amount⟩ := bills.stored row listed
    cases there.symm.trans held
    rw [amount]
    exact mem_append_right _ listed
  · rw [bills.others key new] at held
    exact mem_append_left _ (billed.reported key entry held)

theorem Submitted.billed (billed : Billed cfg (s,log)) (submitted : Submitted cfg s t period rows middle summary) :
    Billed cfg (t,log ++ [fun who => (s.market.freeCredits who : Int) - t.market.freeCredits who]) := by
  obtain ⟨_,_,bills,counted,rfl⟩ := submitted
  have finished := finish_finished middle period summary
  have inTime : currentComputePeriod s ≤ period + cfg.computeUsageRetention := by
    have lag := cfg.retained
    omega
  have origin : ∀ key entry, middle.computeUsageCharged.lookup key = some entry →
      s.computeUsageCharged.lookup key = some entry ∨ summary.counted ∧ period = key.1 := by
    intro key entry held
    by_cases new : key ∈ rows.map Prod.fst
    · obtain ⟨row,listed,rfl⟩ := mem_map.mp new
      refine .inr ⟨counted ?_,(bills.fresh row listed).1.symm⟩
      intro empty
      rw [empty] at listed
      cases listed
    · exact .inl ((bills.others key new).symm.trans held)
  constructor
  case once =>
    rw [finished.events]
    exact bills.once billed inTime
  case balance =>
    intro who
    rw [finished.events,finished.arrears,finished.market]
    exact bills.balanced billed who
  case kept =>
    rw [finished.events,finished.records,currentComputePeriod,finished.clock]
    exact bills.kept billed
  case reported =>
    rw [finished.events,finished.records]
    exact bills.reported billed
  case since =>
    intro key entry held
    rw [finished.records] at held
    refine finished.since key.1 ?_
    rcases origin key entry held with before | new
    · rw [bills.since]
      exact .inl (billed.since key entry before)
    · exact .inr new
  case last =>
    intro key entry held
    rw [finished.records] at held
    refine finished.last key.1 ?_
    rcases origin key entry held with before | new
    · rw [bills.last]
      exact .inl (billed.last key entry before)
    · exact .inr new

theorem Bills.settled (billed : Billed cfg (s,log)) (bills : Bills (currentComputePeriod s) [] s t) :
    Billed cfg (t,log ++ [fun who => (s.market.freeCredits who : Int) - t.market.freeCredits who]) where
  once := bills.once billed (Nat.le_add_right _ _)
  balance := bills.balanced billed
  kept := bills.kept billed
  reported := bills.reported billed
  since key entry held := by
    rw [bills.others key not_mem_nil] at held
    rw [bills.since]
    exact billed.since key entry held
  last key entry held := by
    rw [bills.others key not_mem_nil] at held
    rw [bills.last]
    exact billed.last key entry held

theorem Billed.pruned (billed : Billed cfg (s,log)) (limit : Weight) : Billed cfg ((pruneComputeUsage cfg s limit).1,log) := by
  unfold pruneComputeUsage
  split
  · exact billed
  · split
    · exact billed
    next consumed _ _ since found =>
      have pruned := prunePeriods_pruned cfg limit (currentComputePeriod s - cfg.computeUsageRetention)
        (s.lastComputeBillingPeriod.getD 0) maxPeriodsPerRun ⟨s.computeUsageCharged,since,consumed⟩
      have least : ∀ key entry, s.computeUsageCharged.lookup key = some entry → since ≤ key.1 := by
        intro key entry held
        obtain ⟨_,start,below⟩ := billed.since key entry held
        cases found.symm.trans start
        exact below
      constructor
      case once => exact billed.once
      case balance => exact billed.balance
      case kept =>
        intro row mem
        rcases billed.kept row mem with ⟨entry,held⟩ | gone
        · rcases pruned.lost row.1 entry held with kept | old
          · exact .inl ⟨entry,kept⟩
          · refine .inr ?_
            dsimp only [currentComputePeriod] at old ⊢
            omega
        · exact .inr gone
      case reported =>
        intro key entry held
        exact billed.reported key entry (pruned.left key entry held)
      case since =>
        intro key entry held
        have below := pruned.since least key entry held
        obtain ⟨last,ends,_⟩ := billed.last key entry (pruned.left key entry held)
        dsimp only at ends ⊢
        rw [ends,Option.getD_some] at below ⊢
        rw [if_neg (by omega)]
        exact ⟨_,rfl,below⟩
      case last =>
        intro key entry held
        exact billed.last key entry (pruned.left key entry held)

theorem Billed.aside (billed : Billed cfg (s,log)) (aside : Aside s t) : Billed cfg (t,log) where
  once := by
    dsimp only
    rw [aside.events]
    exact billed.once
  balance who := by
    dsimp only
    rw [aside.events,aside.arrears]
    exact billed.balance who
  kept row mem := by
    dsimp only at mem ⊢
    rw [aside.events] at mem
    rw [aside.records]
    rcases billed.kept row mem with stored | gone
    · exact .inl stored
    · exact .inr (gone.trans_le (Nat.div_le_div_right aside.clock))
  reported key entry held := by
    dsimp only at held ⊢
    rw [aside.records] at held
    rw [aside.events]
    exact billed.reported key entry held
  since key entry held := by
    dsimp only at held ⊢
    rw [aside.records] at held
    rw [aside.since]
    exact billed.since key entry held
  last key entry held := by
    dsimp only at held ⊢
    rw [aside.records] at held
    rw [aside.last]
    exact billed.last key entry held

theorem setFeeKindCaps_aside (ran : setFeeKindCaps s origin kind cap = .ok t) : Aside s t := by
  simp only [setFeeKindCaps,bind_ok,Except.ok.injEq] at ran
  obtain ⟨_,_,_,stored,rfl⟩ := ran
  cases cap with
  | none =>
    cases stored
    exact {events:=recorded_silent _ _ rfl}
  | some =>
    simp only [storeFeeCap,bind_ok,Except.ok.injEq] at stored
    obtain ⟨_,_,_,_,rfl⟩ := stored
    exact {events:=recorded_silent _ _ rfl}

end

theorem dispatch_aside (ran : dispatch cfg s call = .ok t) (silent : debits cfg s call = [])
    (awake : ∀ weight, call ≠ .onIdle weight) : Aside s t := by
  cases call with
  | submitComputeUsage | submitUsageV2 | settleComputeArrears => cases silent
  | onIdle weight => exact absurd rfl (awake weight)
  | setFeeKindCaps => exact setFeeKindCaps_aside ran
  | advanceClock =>
    cases ran
    exact {events:=rfl,clock:=Nat.le_add_right _ _}
  | market =>
    cases ran
    exact market_aside s _
  | setComputeChargeCaps | setMaxAccountChargeCapOverride =>
    simp only [dispatch,setComputeChargeCaps,setMaxAccountChargeCapOverride,passes] at ran
    obtain ⟨_,_,rfl⟩ := ran
    exact {events:=recorded_silent _ _ rfl}
  | setAccountChargeCap =>
    simp only [dispatch,setAccountChargeCap,passes] at ran
    obtain ⟨_,_,_,_,rfl⟩ := ran
    exact {events:=recorded_silent _ _ rfl}
  | setComputeBillingAuthorities | setChargeCapAdmins =>
    simp only [dispatch,setComputeBillingAuthorities,setChargeCapAdmins,passes] at ran
    obtain ⟨_,_,_,_,_,_,rfl⟩ := ran
    exact {events:=recorded_silent _ _ rfl}

theorem debits_cases (cfg : Config A B) (s : State A H B) (call : Call A H B) :
    debits cfg s call = [] ∨
      debits cfg s call = [fun who => (s.market.freeCredits who : Int) - (step cfg s call).market.freeCredits who] := by
  cases call with
  | submitComputeUsage | submitUsageV2 | settleComputeArrears => exact .inr rfl
  | setComputeBillingAuthorities | setComputeChargeCaps | setFeeKindCaps | setAccountChargeCap | setChargeCapAdmins
  | setMaxAccountChargeCapOverride | onIdle | advanceClock | market => exact .inl rfl

theorem step_clock (cfg : Config A B) (s : State A H B) (call : Call A H B) : s.nowMs ≤ (step cfg s call).nowMs := by
  refine commit_inv (fun t : State A H B => s.nowMs ≤ t.nowMs) le_rfl ?_
  intro t ran
  cases call with
  | submitComputeUsage _ _ rows =>
    obtain ⟨rows,middle,summary,submitted⟩ := submitComputeUsage_ok ran
    exact Nat.le_of_eq submitted.clock.symm
  | submitUsageV2 _ _ rows =>
    obtain ⟨_,_,_,submitted⟩ := submitUsageV2_ok ran
    exact Nat.le_of_eq submitted.clock.symm
  | settleComputeArrears =>
    simp only [dispatch,settleComputeArrears,passes] at ran
    obtain ⟨_,_,_,_,_,_,rfl⟩ := ran
    exact Nat.le_of_eq (Bills.clock (settle_bills _ s : Bills 0 [] s _)).symm
  | onIdle weight =>
    cases ran
    exact Nat.le_of_eq (prune_clock s weight).symm
  | setComputeBillingAuthorities | setComputeChargeCaps | setFeeKindCaps | setAccountChargeCap | setChargeCapAdmins
  | setMaxAccountChargeCapOverride | advanceClock | market => exact (dispatch_aside ran rfl nofun).clock

theorem step_billed (p : State A H B × List (A → Int)) (call : Call A H B)
    (billed : Billed cfg p) : Billed cfg (recording (step cfg) (debits cfg) p call) := by
  obtain ⟨s,log⟩ := p
  have moves : ∀ t, commit s (dispatch cfg s call) = t → step cfg s call = t := fun t same => same
  unfold recording
  cases outcome : dispatch cfg s call with
  | error =>
    have still : step cfg s call = s := moves s (by rw [outcome,commit_error])
    rcases debits_cases cfg s call with none | taken
    · rw [none,append_nil,still]
      exact billed
    · rw [taken,still]
      exact (Bills.refl _ s).settled billed
  | ok t =>
    have moved : step cfg s call = t := moves t (by rw [outcome,commit_ok])
    cases call with
    | submitComputeUsage _ _ rows =>
      obtain ⟨rows,middle,summary,submitted⟩ := submitComputeUsage_ok outcome
      rw [debits,moved]
      exact submitted.billed billed
    | submitUsageV2 _ _ rows =>
      obtain ⟨_,_,_,submitted⟩ := submitUsageV2_ok outcome
      rw [debits,moved]
      exact submitted.billed billed
    | settleComputeArrears =>
      rw [debits,moved]
      simp only [dispatch,settleComputeArrears,passes] at outcome
      obtain ⟨_,_,_,_,_,_,rfl⟩ := outcome
      exact (settle_bills _ s).settled billed
    | onIdle weight =>
      cases outcome
      have pruned := billed.pruned weight
      change Billed cfg (step cfg s _,log ++ [])
      rw [append_nil,moved,onIdle]
      generalize pruneComputeUsage cfg s weight = p at pruned ⊢
      exact pruned.aside (market_aside p.1 _)
    | setComputeBillingAuthorities | setComputeChargeCaps | setFeeKindCaps | setAccountChargeCap | setChargeCapAdmins
    | setMaxAccountChargeCapOverride | advanceClock | market =>
      change Billed cfg (step cfg s _,log ++ [])
      rw [append_nil,moved]
      exact billed.aside (dispatch_aside outcome rfl nofun)

theorem usage_billed_once (cfg : Config A B) (market : Marketplace.State A B) (nowMs : Nat)
    (calls : List (Call A H B)) :
    let p := run (recording (step cfg) (debits cfg)) (genesis market nowMs,[]) calls
    ((recorded p.1.events).map Prod.fst).Nodup ∧
      (∀ who, (amountFor who (recorded p.1.events) : Int) = debited who p.2 + p.1.computeArrears who) ∧
      ∀ period who entry, p.1.computeUsageCharged.lookup (period,who) = some entry →
        ((period,who),entry.amount) ∈ recorded p.1.events ∧
          ∃ since, p.1.computeUsagePruneFrom = some since ∧ since ≤ period := by
  have billed : Billed cfg (run (recording (step cfg) (debits cfg)) (genesis market nowMs,[]) calls) :=
    run_always (Billed cfg) step_billed (genesis_billed cfg market nowMs)
  refine ⟨billed.once,billed.balance,?_⟩
  intro period who entry held
  exact ⟨billed.reported (period,who) entry held,billed.since (period,who) entry held⟩

end TheBrain.Marketplace.Usage
