import TheBrain.Library.Windows
import TheBrain.Bank.Compartments

namespace TheBrain.Bank
open Library.Machine Library.Words Library.Windows PaymentMath List

section
variable {A B : Type}
variable {s t : State A B}

def Event.paidToMiner : Event A → Nat
  | .minerPaymentPaid _ amount | .computeMinerPaymentPaid _ amount => amount
  | _ => 0

def paidBetween (s t : State A B) : Nat := ((t.events.drop s.events.length).map Event.paidToMiner).sum

theorem paidBetween_reported (paid : List (A × Nat)) (summary : Event A) (none : summary.paidToMiner = 0)
    (paidEvent : A → Nat → Event A) (counts : ∀ miner amount, (paidEvent miner amount).paidToMiner = amount)
    (reported : t.events = s.events ++ (paid.map fun entry => paidEvent entry.1 entry.2) ++ [summary]) :
    paidBetween s t = amountOf paid := by
  rw [paidBetween,reported,append_assoc,drop_left]
  simp [amountOf,Function.comp_def,counts,none]

variable [DecidableEq A] {cfg : Config A B}

def payouts (cfg : Config A B) (s : State A B) (call : Call A B) : List Spending :=
  match dispatch cfg s call with
  | .ok t => if call.paysMiners then
      [⟨cfg.blocksPer24Hours ≤ s.blockNumber - s.minerPayoutPeriodStart,s.blockNumber,paidBetween s t⟩] else []
  | .error _ => []

def periods (start : State A B) (log : List Spending) : List Window := log.foldl spend [⟨start.minerPayoutPeriodStart,[]⟩]

def Forward (cfg : Config A B) (s : State A B) (call : Call A B) : Prop := s.blockNumber ≤ (step cfg s call).blockNumber

instance (s : State A B) (call : Call A B) : Decidable (Forward cfg s call) := inferInstanceAs (Decidable (_ ≤ _))

structure Drawn (cfg : Config A B) (s t : State A B) (paid : Nat) : Prop where
  admitted : ∃ amount, paid ≤ amount ∧ saturatingAdd 128 (rollPeriod cfg s).minerPayoutPeriodAmount amount ≤ cfg.max24HourMinerPayout.val
  start : t.minerPayoutPeriodStart = (rollPeriod cfg s).minerPayoutPeriodStart
  amount : t.minerPayoutPeriodAmount = addSaturating (rollPeriod cfg s).minerPayoutPeriodAmount paid
  block : t.blockNumber = s.blockNumber

theorem payout_drawn (call : Call A B) (pays : call.paysMiners = true) (ran : dispatch cfg s call = .ok t) :
    Drawn cfg s t (paidBetween s t) := by
  cases call with
  | payStorageMiners _ amount =>
    obtain ⟨paid,_,_,pays,_,stored⟩ := payStorageMiners_ok ran
    have total : paidBetween s t = amountOf paid :=
      paidBetween_reported paid _ rfl .minerPaymentPaid (fun _ _ => rfl) (congrArg State.events stored)
    rw [total]
    exact ⟨⟨amount,pays.bounded,pays.admitted⟩,by rw [stored],by rw [stored],by rw [stored]⟩
  | payComputeMiners _ amount =>
    obtain ⟨paid,_,_,pays,_,_,stored⟩ := payComputeMiners_ok ran
    have total : paidBetween s t = amountOf paid :=
      paidBetween_reported paid _ rfl .computeMinerPaymentPaid (fun _ _ => rfl) (congrArg State.events stored)
    rw [total]
    exact ⟨⟨amount,pays.bounded,pays.admitted⟩,by rw [stored],by rw [stored],by rw [stored]⟩
  | _ => cases pays

structure Metered (cfg : Config A B) (s : State A B) (windows : List Window) : Prop where
  begun : s.minerPayoutPeriodStart ≤ s.blockNumber
  paced : Paced cfg.blocksPer24Hours cfg.max24HourMinerPayout.val windows
  newest : ∃ w older, windows = w :: older ∧ w.start = s.minerPayoutPeriodStart ∧ w.spent ≤ s.minerPayoutPeriodAmount.val

theorem Metered.unspent (metered : Metered cfg s windows) (same : SameSchedule s t) (forward : s.blockNumber ≤ t.blockNumber) :
    Metered cfg t windows := by
  obtain ⟨begun,paced,w,older,listed,start,spent⟩ := metered
  refine ⟨?_,paced,w,older,listed,?_,?_⟩
  · rw [same.start]
    exact begun.trans forward
  · rw [same.start,start]
  · rw [same.amount]
    exact spent

theorem Metered.drawn (room : cfg.max24HourMinerPayout.val < maxOf 128) (metered : Metered cfg s windows) (drawn : Drawn cfg s t paid) :
    Metered cfg t (spend windows ⟨cfg.blocksPer24Hours ≤ s.blockNumber - s.minerPayoutPeriodStart,s.blockNumber,paid⟩) := by
  obtain ⟨_,paced,w,_,rfl,start,_⟩ := metered
  obtain ⟨⟨_,_,admitted⟩,kept,raised,_⟩ := drawn
  -- Below the maximal word the saturating sum of the check is the sum.
  have exactly : (rollPeriod cfg s).minerPayoutPeriodAmount + paid ≤ cfg.max24HourMinerPayout.val := by
    unfold saturatingAdd at admitted
    omega
  have counted : t.minerPayoutPeriodAmount.val = (rollPeriod cfg s).minerPayoutPeriodAmount + paid := by
    rw [raised,addSaturating_val,saturatingAdd_exact]
    omega
  unfold rollPeriod at kept counted exactly
  by_cases past : cfg.blocksPer24Hours ≤ s.blockNumber - s.minerPayoutPeriodStart
  · simp only [if_pos past] at kept counted exactly
    simp only [past]
    have passed : w.start + cfg.blocksPer24Hours ≤ s.blockNumber := by omega
    refine ⟨by omega,paced.opened (paced.behind passed) ?_,_,_,rfl,kept.symm,?_⟩
    · exact (Nat.le_add_left _ _).trans exactly
    · rw [counted]
      exact Nat.le_add_left _ _
  · simp only [if_neg past] at kept counted exactly
    simp only [past,decide_false,spend]
    refine ⟨by omega,paced.extended (by omega) (by omega) (by omega),_,_,rfl,start.trans kept.symm,?_⟩
    rw [Window.spent_append]
    omega

theorem recording_metered (room : cfg.max24HourMinerPayout.val < maxOf 128) (origin : State A B) (p : State A B × List Spending)
    (call : Call A B) (metered : Metered cfg p.1 (periods origin p.2)) (forward : Forward cfg p.1 call) :
    Metered cfg (recording (step cfg) (payouts cfg) p call).1 (periods origin (recording (step cfg) (payouts cfg) p call).2) := by
  obtain ⟨s,_⟩ := p
  simp only [Forward,step] at forward
  simp only [recording,step,payouts]
  cases ran : dispatch cfg s call with
  | error =>
    rw [append_nil]
    exact metered
  | ok =>
    cases pays : call.paysMiners with
    | false =>
      simp only [Bool.false_eq_true,if_false,append_nil]
      rw [ran] at forward
      exact metered.unspent (dispatch_schedule call pays ran) forward
    | true =>
      simp only [periods,foldl_append]
      exact metered.drawn room (payout_drawn call pays ran)

theorem daily_payout_capped (cfg : Config A B) (room : cfg.max24HourMinerPayout.val < maxOf 128) (start : State A B)
    (begun : start.minerPayoutPeriodStart ≤ start.blockNumber) (calls : List (Call A B)) (forward : Throughout (step cfg) (Forward cfg) start calls) :
    let windows := periods start (run (recording (step cfg) (payouts cfg)) (start,[]) calls).2
    (∀ w ∈ windows, w.spent ≤ cfg.max24HourMinerPayout.val) ∧
      ∀ first, spentDuring windows first cfg.blocksPer24Hours ≤ 2 * cfg.max24HourMinerPayout.val := by
  intro windows
  have opening : Metered cfg start (periods start []) := by
    refine ⟨begun,⟨?_,pairwise_singleton _ _⟩,_,_,rfl,rfl,Nat.zero_le _⟩
    intro w mem
    cases mem_singleton.mp mem
    exact ⟨nofun,Nat.zero_le _⟩
  have metered : Metered cfg _ windows := run_invariant (fun p : State A B × List Spending => Metered cfg p.1 (periods start p.2))
    (recording_metered room start) opening (throughout_recording _ (start,[]) forward)
  exact ⟨fun w mem => (metered.paced.fits w mem).bounded,metered.paced.sliding⟩

end

theorem daily_payout_capped_settled :
    periods opened (run (recording (step plainConfig) (payouts plainConfig)) (opened,[])
        (settled ++ [.initializeBlock 14400,.payStorageMiners (.signed 5) 20 [(11,1)]])).2 = [⟨14400,[(14400,20)]⟩,⟨0,[(0,30),(0,20)]⟩] ∧
      ∀ first, spentDuring (periods opened (run (recording (step plainConfig) (payouts plainConfig)) (opened,[])
        (settled ++ [.initializeBlock 14400,.payStorageMiners (.signed 5) 20 [(11,1)]])).2) first 14400 ≤ 2000 :=
  ⟨by decide +kernel,(daily_payout_capped plainConfig (by decide +kernel) opened (by decide) _ (by decide +kernel)).2⟩

-- Under the maximal limit nothing is refused, and the miner's own deposit pays for the
-- second payout of the period.
theorem daily_payout_uncapped :
    let cfg := {plainConfig with max24HourMinerPayout:=Fin.last _}
    let start : State Nat (Nat → Nat) := genesis (fun who => if who = 0 then 1 else if who = 7 then 2 ^ 127 + 1 else 0) ∅
    let calls : List (Call Nat (Nat → Nat)) :=
      [.addMinerPaymentCaller (.signed 1) 5,.deposit (.signed 7) (2 ^ 127) .emission,.payStorageMiners (.signed 5) (2 ^ 127) [(7,1)],
        .deposit (.signed 7) (2 ^ 127) .computeEmission,.payComputeMiners (.signed 5) (2 ^ 127) [(7,1)] none]
    start.minerPayoutPeriodStart ≤ start.blockNumber ∧ Throughout (step cfg) (Forward cfg) start calls ∧
      ∃ w ∈ periods start (run (recording (step cfg) (payouts cfg)) (start,[]) calls).2, cfg.max24HourMinerPayout.val < w.spent := by
  decide +kernel

end TheBrain.Bank
