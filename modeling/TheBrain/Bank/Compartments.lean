import TheBrain.Bank.Hippocampus

namespace TheBrain.Bank
open Library.Machine Library.Words PaymentMath

variable {A B : Type}
variable {s t : State A B}

theorem foldWeights_some {miners : List (A × Nat)} (start : Nat)
    (summed : miners.foldlM (fun total miner => checkedAdd 128 total miner.2) start = some total) :
    total = start + (miners.map Prod.snd).sum := by
  induction miners generalizing start with
  | nil =>
    cases summed
    simp
  | cons _ _ ih =>
    simp only [List.foldlM_cons,Option.bind_eq_bind,Option.bind_eq_some_iff] at summed
    obtain ⟨_,added,rest⟩ := summed
    obtain ⟨_,rfl⟩ := checkedAdd_some.mp added
    rw [ih _ rest,List.map_cons,List.sum_cons,Nat.add_assoc]

theorem totalWeightOf_some {miners : List (A × Nat)} (summed : totalWeightOf miners = some total) :
    total = (miners.map Prod.snd).sum := by
  have folded := foldWeights_some 0 summed
  omega

structure SameCompartments (s t : State A B) : Prop where
  emission : t.totalDeposited .emission = s.totalDeposited .emission
  computeEmission : t.totalDeposited .computeEmission = s.totalDeposited .computeEmission
  emissionPaidOut : t.emissionPaidOut = s.emissionPaidOut
  computeEmissionPaidOut : t.computeEmissionPaidOut = s.computeEmissionPaidOut

theorem SameCompartments.emissionAvailable (same : SameCompartments s t) : emissionAvailable t = emissionAvailable s := by
  rw [Bank.emissionAvailable,same.emission,same.emissionPaidOut,Bank.emissionAvailable]

theorem SameCompartments.computeEmissionAvailable (same : SameCompartments s t) :
    computeEmissionAvailable t = computeEmissionAvailable s := by
  rw [Bank.computeEmissionAvailable,same.computeEmission,same.computeEmissionPaidOut,Bank.computeEmissionAvailable]

theorem recordDeposit_raises (s : State A B) (depositType kind : DepositType) (amount : Nat) :
    (s.totalDeposited kind).val ≤ (recordDeposit s depositType amount).totalDeposited kind ∧
      ((recordDeposit s depositType amount).totalDeposited kind).val ≤
        s.totalDeposited kind + if kind = depositType then amount else 0 := by
  simp only [recordDeposit,Function.update_apply]
  split
  · subst depositType
    exact ⟨le_saturatingAdd (s.totalDeposited kind).isLt,saturatingAdd_le⟩
  · exact ⟨le_rfl,le_rfl⟩

theorem recordDeposit_available (s : State A B) (depositType : DepositType) (amount : Nat) :
    emissionAvailable (recordDeposit s depositType amount) + computeEmissionAvailable (recordDeposit s depositType amount) ≤
      emissionAvailable s + computeEmissionAvailable s + amount := by
  have emission := (recordDeposit_raises s depositType .emission amount).2
  have compute := (recordDeposit_raises s depositType .computeEmission amount).2
  have paid : (recordDeposit s depositType amount).emissionPaidOut = s.emissionPaidOut ∧
      (recordDeposit s depositType amount).computeEmissionPaidOut = s.computeEmissionPaidOut := ⟨rfl,rfl⟩
  unfold emissionAvailable computeEmissionAvailable
  rw [paid.1,paid.2]
  cases depositType <;> simp only [reduceCtorEq,if_true,if_false] at emission compute <;> omega

structure PaysWithin (s t : State A B) : Prop where
  emission : (s.totalDeposited .emission).val ≤ t.totalDeposited .emission
  computeEmission : (s.totalDeposited .computeEmission).val ≤ t.totalDeposited .computeEmission
  emissionPaidOut : ∃ paid, paid ≤ emissionAvailable s ∧ t.emissionPaidOut.val = s.emissionPaidOut + paid
  computeEmissionPaidOut : ∃ paid, paid ≤ computeEmissionAvailable s ∧ t.computeEmissionPaidOut.val = s.computeEmissionPaidOut + paid

theorem SameCompartments.paysWithin (same : SameCompartments s t) : PaysWithin s t where
  emission := by rw [same.emission]
  computeEmission := by rw [same.computeEmission]
  emissionPaidOut := ⟨0,Nat.zero_le _,by rw [same.emissionPaidOut,Nat.add_zero]⟩
  computeEmissionPaidOut := ⟨0,Nat.zero_le _,by rw [same.computeEmissionPaidOut,Nat.add_zero]⟩

variable [DecidableEq A] {cfg : Config A B}

-- The transfers a payout makes, miner by miner: none for a share of zero, none if the
-- currency refuses it, and otherwise one of exactly the floored share.
inductive Transfers (cfg : Config A B) (pool total : Nat) :
    B → List (A × Nat) → List (A × Nat) → B → Prop where
  | nil : Transfers cfg pool total accounts [] [] accounts
  | empty : pool * weight / total = 0 → Transfers cfg pool total accounts miners paid after →
      Transfers cfg pool total accounts ((miner,weight) :: miners) paid after
  | refused : cfg.transfer accounts cfg.accountId miner (pool * weight / total) = none →
      Transfers cfg pool total accounts miners paid after → Transfers cfg pool total accounts ((miner,weight) :: miners) paid after
  | made : pool * weight / total ≠ 0 → cfg.transfer accounts cfg.accountId miner (pool * weight / total) = some next →
      Transfers cfg pool total next miners paid after →
      Transfers cfg pool total accounts ((miner,weight) :: miners) ((miner,pool * weight / total) :: paid) after

def amountOf (paid : List (A × Nat)) : Nat := (paid.map Prod.snd).sum

theorem Transfers.amount_le (transfers : Transfers cfg pool total accounts miners paid after) :
    amountOf paid ≤ (miners.map fun miner => pool * miner.2 / total).sum := by
  induction transfers with
  | nil => exact le_rfl
  | empty _ _ ih => exact ih.trans (Nat.le_add_left _ _)
  | refused _ _ ih => exact ih.trans (Nat.le_add_left _ _)
  | made _ _ _ ih => exact Nat.add_le_add_left ih _

theorem Transfers.spends (transfers : Transfers cfg pool total accounts miners paid after) :
    cfg.freeBalance accounts cfg.accountId ≤ cfg.freeBalance after cfg.accountId + amountOf paid := by
  induction transfers with
  | nil => exact le_rfl
  | empty _ _ ih => exact ih
  | refused _ _ ih => exact ih
  | made _ moved _ ih =>
    have spent := cfg.transfer_spends moved cfg.accountId
    simp only [amountOf,List.map_cons,List.sum_cons] at ih ⊢
    omega

theorem weightShare_floor (within : weight ≤ total) (positive : 0 < total) : weightShare pool weight total = pool * weight / total := by
  have bounded : pool * weight / total ≤ pool := by
    calc pool * weight / total ≤ pool * total / total := Nat.div_le_div_right (Nat.mul_le_mul_left pool within)
      _ = pool := Nat.mul_div_cancel pool positive
  rw [weightShare,if_neg positive.ne',Nat.min_eq_left bounded]

structure Paying (paidEvent : A → Nat → Event A) (p q : Payout A B) (paid : List (A × Nat)) : Prop where
  bank : q.bank = {p.bank with
    accounts:=q.bank.accounts
    events:=p.bank.events ++ paid.map fun entry => paidEvent entry.1 entry.2}
  counted : q.paid = p.paid + amountOf paid

theorem payShare_transfers (cfg : Config A B) (paidEvent : A → Nat → Event A) (pool : Nat) (p : Payout A B) (miner : A) (weight : Nat)
    (within : weight ≤ total) (positive : 0 < total) (fits : p.paid + pool * weight / total < 2 ^ 128) :
    ∃ paid, Transfers cfg pool total p.bank.accounts [(miner,weight)] paid (payShare cfg paidEvent pool total p (miner,weight)).bank.accounts ∧
      Paying paidEvent p (payShare cfg paidEvent pool total p (miner,weight)) paid := by
  simp only [payShare,weightShare_floor within positive]
  split
  · next none => exact ⟨[],.empty none .nil,by simp [skipMiner],rfl⟩
  next some =>
    cases moved : cfg.transfer p.bank.accounts cfg.accountId miner (pool * weight / total) with
    | none => exact ⟨[],.refused moved .nil,by simp [skipMiner],rfl⟩
    | some =>
      refine ⟨[(miner,pool * weight / total)],.made some moved .nil,rfl,?_⟩
      simp [amountOf,saturatingAdd_exact fits]

theorem Transfers.append (one : Transfers cfg pool total accounts miners paid middle)
    (two : Transfers cfg pool total middle others more after) : Transfers cfg pool total accounts (miners ++ others) (paid ++ more) after := by
  induction one with
  | nil => exact two
  | empty none _ ih => exact .empty none (ih two)
  | refused refused _ ih => exact .refused refused (ih two)
  | made some moved _ ih => exact .made some moved (ih two)

theorem Paying.trans (one : Paying paidEvent p q paid) (two : Paying paidEvent q r more) : Paying paidEvent p r (paid ++ more) := by
  refine ⟨?_,?_⟩
  · rw [two.bank,one.bank,List.map_append,← List.append_assoc]
  · rw [two.counted,one.counted,amountOf,amountOf,amountOf,List.map_append,List.sum_append,Nat.add_assoc]

theorem foldShares_transfers (cfg : Config A B) (paidEvent : A → Nat → Event A) (pool : Nat)
    (miners : List (A × Nat)) (p : Payout A B) (positive : 0 < total) (within : ∀ miner ∈ miners, miner.2 ≤ total)
    (fits : p.paid + (miners.map fun miner => pool * miner.2 / total).sum < 2 ^ 128) :
    ∃ paid, Transfers cfg pool total p.bank.accounts miners paid (miners.foldl (payShare cfg paidEvent pool total) p).bank.accounts ∧
      Paying paidEvent p (miners.foldl (payShare cfg paidEvent pool total) p) paid := by
  induction miners generalizing p with
  | nil => exact ⟨[],.nil,by simp,rfl⟩
  | cons miner _ ih =>
    simp only [List.map_cons,List.sum_cons] at fits
    obtain ⟨first,made,paying⟩ := payShare_transfers cfg paidEvent pool p miner.1 miner.2
      (within miner (List.mem_cons_self ..)) positive (by omega)
    have bounded := made.amount_le
    simp only [List.map_cons,List.map_nil,List.sum_cons,List.sum_nil] at bounded
    obtain ⟨rest,later,further⟩ := ih (payShare cfg paidEvent pool total p miner)
      (fun other mem => within other (List.mem_cons_of_mem _ mem)) (by
        rw [paying.counted]
        omega)
    exact ⟨first ++ rest,made.append later,paying.trans further⟩

structure Pays (cfg : Config A B) (s : State A B) (accounts : B) (amount : Nat) (miners paid : List (A × Nat)) : Prop where
  admitted : saturatingAdd 128 (rollPeriod cfg s).minerPayoutPeriodAmount amount ≤ cfg.max24HourMinerPayout
  positive : 0 < (miners.map Prod.snd).sum
  transfers : Transfers cfg amount (miners.map Prod.snd).sum s.accounts miners paid accounts
  bounded : amountOf paid ≤ amount

-- All that a payout changes apart from the compartment it draws on.
abbrev paidOut (cfg : Config A B) (s : State A B) (accounts : B) (paid : List (A × Nat)) (paidEvent : A → Nat → Event A)
    (summary : Event A) : State A B := {s with
  accounts:=accounts
  minerPayoutPeriodStart:=(rollPeriod cfg s).minerPayoutPeriodStart
  minerPayoutPeriodAmount:=addSaturating (rollPeriod cfg s).minerPayoutPeriodAmount (amountOf paid)
  totalPaidOut:=addSaturating s.totalPaidOut (amountOf paid)
  events:=s.events ++ (paid.map fun entry => paidEvent entry.1 entry.2) ++ [summary]}

theorem rollPeriod_frame (cfg : Config A B) (s : State A B) : rollPeriod cfg s = {s with
    minerPayoutPeriodStart:=(rollPeriod cfg s).minerPayoutPeriodStart
    minerPayoutPeriodAmount:=(rollPeriod cfg s).minerPayoutPeriodAmount} := by
  unfold rollPeriod
  split
  · rfl
  · rfl

theorem payShares_pays {miners : List (A × Nat)} (paidEvent : A → Nat → Event A) (admission : admitPayout cfg s origin amount = .ok t)
    (fits : amount < 2 ^ 128) (summed : totalWeightOf miners = some total) (positive : 0 < total) :
    t = rollPeriod cfg s ∧ ∃ paid accounts minersPaid minersSkipped,
      payShares cfg paidEvent amount total (rollPeriod cfg s) miners = ⟨{rollPeriod cfg s with
          accounts:=accounts
          events:=s.events ++ paid.map fun entry => paidEvent entry.1 entry.2},amountOf paid,minersPaid,minersSkipped⟩ ∧
      Pays cfg s accounts amount miners paid := by
  have sum := totalWeightOf_some summed
  subst sum
  have floors : (miners.map fun miner => amount * miner.2 / (miners.map Prod.snd).sum).sum ≤ amount := by
    have bounded := floors_le amount (miners.map Prod.snd).sum (miners.map Prod.snd)
    rw [List.map_map] at bounded
    exact bounded.trans (Nat.mul_div_cancel amount positive).le
  obtain ⟨paid,transfers,paying⟩ := foldShares_transfers cfg paidEvent amount miners ⟨rollPeriod cfg s,0,0,0⟩ positive
    (fun miner mem => List.le_sum_of_mem (List.mem_map_of_mem mem)) (by
      change 0 + _ < 2 ^ 128
      omega)
  have bounded := transfers.amount_le.trans floors
  simp only [admitPayout,passes] at admission
  obtain ⟨_,_,_,_,_,within,rfl⟩ := admission
  unfold payShares
  generalize miners.foldl (payShare cfg paidEvent amount (miners.map Prod.snd).sum) ⟨rollPeriod cfg s,0,0,0⟩ = q at transfers paying ⊢
  obtain ⟨bank,_,minersPaid,minersSkipped⟩ := q
  obtain ⟨moved,counted⟩ := paying
  dsimp only at transfers moved
  rw [rollPeriod_frame cfg s] at transfers
  refine ⟨rfl,paid,bank.accounts,minersPaid,minersSkipped,?_,within,positive,transfers,bounded⟩
  rw [Nat.zero_add] at counted
  rw [moved,← counted,rollPeriod_frame cfg s]

theorem payStorageMiners_ok (ran : payStorageMiners cfg s origin amount miners = .ok t) :
    ∃ paid minersPaid minersSkipped, Pays cfg s t.accounts amount miners paid ∧ amount ≤ emissionAvailable s ∧
      t = {paidOut cfg s t.accounts paid .minerPaymentPaid (.storageMinersPaid amount (amountOf paid) minersPaid minersSkipped) with
        emissionPaidOut:=addSaturating s.emissionPaidOut (amountOf paid)} := by
  simp only [payStorageMiners,passes] at ran
  obtain ⟨_,admission,enough,_,_,_,summed,positive,rfl⟩ := ran
  obtain ⟨rfl,paid,_,minersPaid,minersSkipped,shares,pays⟩ :=
    payShares_pays .minerPaymentPaid admission ((enough.trans (Nat.sub_le _ _)).trans_lt (Fin.isLt _)) summed positive
  rw [shares]
  rw [rollPeriod_frame cfg s] at enough ⊢
  exact ⟨paid,minersPaid,minersSkipped,pays,enough,rfl⟩

theorem payComputeMiners_ok (ran : payComputeMiners cfg s origin amount miners weightEpoch = .ok t) :
    ∃ paid minersPaid minersSkipped, Pays cfg s t.accounts amount miners paid ∧ amount ≤ computeEmissionAvailable s ∧
      epochUnpaid s weightEpoch ∧ t = {paidOut cfg s t.accounts paid .computeMinerPaymentPaid
          (.computeMinersPaid amount (amountOf paid) minersPaid minersSkipped) with
        computeEmissionPaidOut:=addSaturating s.computeEmissionPaidOut (amountOf paid)
        lastPaidComputeEpoch:=if amountOf paid = 0 then s.lastPaidComputeEpoch else weightEpoch.or s.lastPaidComputeEpoch} := by
  simp only [payComputeMiners,passes] at ran
  obtain ⟨_,admission,enough,_,unpaid,_,_,summed,positive,rfl⟩ := ran
  obtain ⟨rfl,paid,_,minersPaid,minersSkipped,shares,pays⟩ :=
    payShares_pays .computeMinerPaymentPaid admission ((enough.trans (Nat.sub_le _ _)).trans_lt (Fin.isLt _)) summed positive
  rw [shares]
  rw [rollPeriod_frame cfg s] at enough unpaid ⊢
  exact ⟨paid,minersPaid,minersSkipped,pays,enough,unpaid,rfl⟩

structure Settles (cfg : Config A B) (s t : State A B) (amount : Nat) (miners paid : List (A × Nat))
    (weightEpoch : Option Nat) : Prop where
  unpaid : epochUnpaid s weightEpoch
  positive : 0 < (miners.map Prod.snd).sum
  transfers : Transfers cfg amount (miners.map Prod.snd).sum s.accounts miners paid t.accounts
  reported : ∃ minersPaid minersSkipped, t.events = s.events ++ (paid.map fun entry => .computeMinerPaymentPaid entry.1 entry.2) ++
    [.computeMinersPaid amount (amountOf paid) minersPaid minersSkipped]
  cursor : t.lastPaidComputeEpoch = if amountOf paid = 0 then s.lastPaidComputeEpoch else weightEpoch.or s.lastPaidComputeEpoch

theorem payComputeMiners_settles (ran : payComputeMiners cfg s origin amount miners weightEpoch = .ok t) :
    ∃ paid, Settles cfg s t amount miners paid weightEpoch := by
  obtain ⟨paid,minersPaid,minersSkipped,pays,_,unpaid,stored⟩ := payComputeMiners_ok ran
  refine ⟨paid,unpaid,pays.positive,pays.transfers,⟨minersPaid,minersSkipped,?_⟩,?_⟩
  · rw [stored]
  · rw [stored]

structure SameSchedule (s t : State A B) : Prop where
  cursor : t.lastPaidComputeEpoch = s.lastPaidComputeEpoch
  start : t.minerPayoutPeriodStart = s.minerPayoutPeriodStart
  amount : t.minerPayoutPeriodAmount = s.minerPayoutPeriodAmount

theorem depositFrom_ok (ran : depositFrom cfg s who amount depositType = .ok t) :
    ∃ accounts, cfg.transfer s.accounts who cfg.accountId amount = some accounts ∧
      t = depositEvent (recordDeposit {s with accounts:=accounts} depositType amount) (.deposited who amount depositType) := by
  simp only [depositFrom,passes] at ran
  obtain ⟨_,accounts,moved,rfl⟩ := ran
  exact ⟨accounts,moved,rfl⟩

theorem depositFrom_balance (ran : depositFrom cfg s who amount depositType = .ok t) (outside : who ≠ cfg.accountId) :
    balance cfg t = balance cfg s + amount := by
  obtain ⟨_,moved,rfl⟩ := depositFrom_ok ran
  exact cfg.transfer_receives moved outside.symm

theorem requestPayment_pays (ran : requestPayment cfg s requester dest amount = .ok (t,paid)) :
    (t = s ∧ paid = 0) ∨ ∃ accounts, paid = releasable cfg s requester amount ∧
      cfg.transfer s.accounts cfg.accountId dest paid = some accounts ∧
      t = depositEvent {s with
          accounts:=accounts
          totalPaidOut:=addSaturating s.totalPaidOut paid
          totalPaidByRequester:=Function.update s.totalPaidByRequester requester (addSaturating (s.totalPaidByRequester requester) paid)}
        (.paymentReleased requester dest amount paid) := by
  simp only [requestPayment,passes] at ran
  obtain ⟨_,_,released⟩ := ran
  split at released
  · cases released
    exact .inl ⟨rfl,rfl⟩
  split at released
  · cases released
    exact .inl ⟨rfl,rfl⟩
  · simp only [passes] at released
    obtain ⟨accounts,moved,same⟩ := released
    cases same
    exact .inr ⟨accounts,rfl,moved,rfl⟩

-- Whatever a request asks for, it pays at most that and at most what neither
-- compartment reserves, out of the balance, and leaves both ledgers alone.
theorem requestPayment_ok (ran : requestPayment cfg s requester dest amount = .ok (t,paid)) :
    paid ≤ amount ∧ paid ≤ unreservedForPayout cfg s ∧ balance cfg s ≤ balance cfg t + paid ∧ SameCompartments s t ∧
      SameSchedule s t := by
  rcases requestPayment_pays ran with ⟨rfl,rfl⟩ | ⟨_,rfl,moved,rfl⟩
  · exact ⟨Nat.zero_le _,Nat.zero_le _,le_rfl,⟨rfl,rfl,rfl,rfl⟩,⟨rfl,rfl,rfl⟩⟩
  · have capped : (s.requesterWithdrawalCap requester).elim amount (min amount) ≤ amount := by
      cases s.requesterWithdrawalCap requester with
      | none => exact le_rfl
      | some => exact Nat.min_le_left _ _
    exact ⟨(Nat.min_le_left _ _).trans capped,Nat.min_le_right _ _,cfg.transfer_spends moved _,⟨rfl,rfl,rfl,rfl⟩,⟨rfl,rfl,rfl⟩⟩

theorem requestPayment_lowers (ran : requestPayment cfg s requester dest amount = .ok (t,paid)) :
    balance cfg t ≤ balance cfg s := by
  rcases requestPayment_pays ran with ⟨rfl,_⟩ | ⟨_,_,moved,rfl⟩
  · exact le_rfl
  · exact cfg.transfer_lowers moved

-- The one counter a payout raises stays within its compartment, so it never saturates.
theorem addSaturating_within (deposited paidOut : Word 128) (bounded : paid ≤ deposited.val - paidOut.val) :
    (addSaturating paidOut paid).val = paidOut + paid := by
  rw [addSaturating_val,saturatingAdd_exact (by omega)]

theorem payStorageMiners_spends (ran : payStorageMiners cfg s origin amount miners = .ok t) :
    ∃ paid, paid ≤ emissionAvailable s ∧ balance cfg s ≤ balance cfg t + paid ∧ t.totalDeposited = s.totalDeposited ∧
      t.emissionPaidOut.val = s.emissionPaidOut + paid ∧ t.computeEmissionPaidOut = s.computeEmissionPaidOut := by
  obtain ⟨paid,_,_,pays,enough,stored⟩ := payStorageMiners_ok ran
  have within := pays.bounded.trans enough
  refine ⟨amountOf paid,within,pays.transfers.spends,?_,?_,?_⟩
  · rw [stored]
  · rw [stored]
    exact addSaturating_within _ _ within
  · rw [stored]

theorem payComputeMiners_spends (ran : payComputeMiners cfg s origin amount miners weightEpoch = .ok t) :
    ∃ paid, paid ≤ computeEmissionAvailable s ∧ balance cfg s ≤ balance cfg t + paid ∧ t.totalDeposited = s.totalDeposited ∧
      t.emissionPaidOut = s.emissionPaidOut ∧ t.computeEmissionPaidOut.val = s.computeEmissionPaidOut + paid := by
  obtain ⟨paid,_,_,pays,enough,_,stored⟩ := payComputeMiners_ok ran
  have within := pays.bounded.trans enough
  refine ⟨amountOf paid,within,pays.transfers.spends,?_,?_,?_⟩
  · rw [stored]
  · rw [stored]
  · rw [stored]
    exact addSaturating_within _ _ within

-- The balance covers the existential deposit, both compartments and a further reserve
-- that other pallets keep in the bank.
def Covers (cfg : Config A B) (reserve : Nat) (s : State A B) : Prop :=
  cfg.minimumBalance + emissionAvailable s + computeEmissionAvailable s + reserve ≤ balance cfg s

theorem covers_untouched (covers : Covers cfg reserve s) (same : SameCompartments s t)
    (kept : balance cfg s ≤ balance cfg t) : Covers cfg reserve t := by
  unfold Covers at covers ⊢
  rw [same.emissionAvailable,same.computeEmissionAvailable]
  omega

theorem depositFrom_covers (covers : Covers cfg reserve s) (outside : who ≠ cfg.accountId)
    (ran : depositFrom cfg s who amount depositType = .ok t) : Covers cfg reserve t := by
  have received := depositFrom_balance ran outside
  obtain ⟨accounts,_,stored⟩ := depositFrom_ok ran
  have raised : emissionAvailable t + computeEmissionAvailable t ≤ emissionAvailable s + computeEmissionAvailable s + amount := by
    rw [stored]
    exact recordDeposit_available {s with accounts:=accounts} depositType amount
  unfold Covers at covers ⊢
  omega

-- A deposit of the marketplace goes to neither compartment: all of it is reserve.
theorem depositFrom_reserves (covers : Covers cfg reserve s) (outside : who ≠ cfg.accountId)
    (ran : depositFrom cfg s who amount .marketplaceRevenue = .ok t) : Covers cfg (reserve + amount) t := by
  have received := depositFrom_balance ran outside
  obtain ⟨_,_,stored⟩ := depositFrom_ok ran
  have same : SameCompartments s t := by
    rw [stored]
    exact ⟨rfl,rfl,rfl,rfl⟩
  unfold Covers at covers ⊢
  rw [same.emissionAvailable,same.computeEmissionAvailable]
  omega

theorem requestPayment_covers (covers : Covers cfg (reserve + amount) s)
    (ran : requestPayment cfg s requester dest amount = .ok (t,paid)) : Covers cfg (reserve + (amount - paid)) t := by
  obtain ⟨_,_,_,same,_⟩ := requestPayment_ok ran
  unfold Covers at covers ⊢
  rw [same.emissionAvailable,same.computeEmissionAvailable]
  omega

theorem requestPayment_unreserved (covers : Covers cfg 0 s)
    (ran : requestPayment cfg s requester dest amount = .ok (t,paid)) : Covers cfg 0 t := by
  obtain ⟨_,unreserved,_,same,_⟩ := requestPayment_ok ran
  unfold Covers at covers ⊢
  unfold unreservedForPayout availableForPayout available at unreserved
  rw [same.emissionAvailable,same.computeEmissionAvailable]
  omega

theorem payStorageMiners_covers (covers : Covers cfg reserve s)
    (ran : payStorageMiners cfg s origin amount miners = .ok t) : Covers cfg reserve t := by
  obtain ⟨_,within,_,deposits,counted,others⟩ := payStorageMiners_spends ran
  unfold Covers emissionAvailable computeEmissionAvailable at covers ⊢
  unfold emissionAvailable at within
  rw [deposits,others]
  omega

theorem payComputeMiners_covers (covers : Covers cfg reserve s)
    (ran : payComputeMiners cfg s origin amount miners weightEpoch = .ok t) : Covers cfg reserve t := by
  obtain ⟨_,within,_,deposits,others,counted⟩ := payComputeMiners_spends ran
  unfold Covers emissionAvailable computeEmissionAvailable at covers ⊢
  unfold computeEmissionAvailable at within
  rw [deposits,others]
  omega

def Permitted (cfg : Config A B) (s : State A B) : Call A B → Prop
  | .deposit origin _ _ => origin ≠ .signed cfg.accountId
  | .depositFrom who _ _ => who ≠ cfg.accountId
  | .elsewhere accounts => balance cfg s ≤ cfg.freeBalance accounts cfg.accountId
  | _ => True

theorem deposit_ok (ran : deposit cfg s origin amount depositType = .ok t) :
    ∃ who, origin = .signed who ∧ depositFrom cfg s who amount depositType = .ok t := by
  simp only [deposit,passes] at ran
  obtain ⟨who,signed,deposited⟩ := ran
  cases origin with
  | root => cases signed
  | signed =>
    cases signed
    exact ⟨who,rfl,deposited⟩

def Call.administers : Call A B → Bool
  | .addRequester .. | .removeRequester .. | .setRequesterCap .. | .removeRequesterCap .. | .setDistributionEnabled ..
  | .addMinerPaymentCaller .. | .removeMinerPaymentCaller .. | .recordFeeDeposit .. | .initializeBlock .. => true
  | _ => false

theorem administers_untouched (call : Call A B) (administers : call.administers = true)
    (ran : dispatch cfg s call = .ok t) : SameCompartments s t ∧ t.accounts = s.accounts ∧ SameSchedule s t := by
  cases call with
  | addRequester | removeRequester | addMinerPaymentCaller | removeMinerPaymentCaller =>
    simp only [dispatch,addRequester,removeRequester,addMinerPaymentCaller,removeMinerPaymentCaller,passes] at ran
    obtain ⟨_,_,rfl⟩ := ran
    exact ⟨⟨rfl,rfl,rfl,rfl⟩,rfl,⟨rfl,rfl,rfl⟩⟩
  | setRequesterCap | removeRequesterCap | setDistributionEnabled =>
    simp only [dispatch,setRequesterCap,removeRequesterCap,setDistributionEnabled,passes] at ran
    obtain ⟨_,rfl⟩ := ran
    exact ⟨⟨rfl,rfl,rfl,rfl⟩,rfl,⟨rfl,rfl,rfl⟩⟩
  | recordFeeDeposit | initializeBlock =>
    cases ran
    exact ⟨⟨rfl,rfl,rfl,rfl⟩,rfl,⟨rfl,rfl,rfl⟩⟩
  | _ => cases administers

theorem dispatch_covers (call : Call A B) (covers : Covers cfg reserve s) (permitted : Permitted cfg s call)
    (ran : dispatch cfg s call = .ok t) :
    Covers cfg reserve t ∨ ∃ requester dest amount, call = .requestPayment requester dest amount := by
  by_cases administers : call.administers = true
  · obtain ⟨same,accounts,_⟩ := administers_untouched call administers ran
    left
    refine covers_untouched covers same ?_
    rw [balance,balance,accounts]
  cases call with
  | deposit =>
    obtain ⟨_,rfl,deposited⟩ := deposit_ok ran
    left
    refine depositFrom_covers covers ?_ deposited
    intro itself
    exact permitted (congrArg Origin.signed itself)
  | depositFrom => exact .inl (depositFrom_covers covers permitted ran)
  | payStorageMiners => exact .inl (payStorageMiners_covers covers ran)
  | payComputeMiners => exact .inl (payComputeMiners_covers covers ran)
  | requestPayment requester dest amount => exact .inr ⟨requester,dest,amount,rfl⟩
  | elsewhere =>
    cases ran
    exact .inl (covers_untouched covers ⟨rfl,rfl,rfl,rfl⟩ permitted)
  | _ => exact absurd rfl administers

theorem requested_ok {requester dest : A} {amount : Word 128}
    (ran : dispatch cfg s (.requestPayment requester dest amount) = .ok t) :
    ∃ paid, requestPayment cfg s requester dest amount = .ok (t,paid) := by
  simp only [dispatch] at ran
  cases released : requestPayment cfg s requester dest amount with
  | error =>
    rw [released] at ran
    cases ran
  | ok result =>
    rw [released] at ran
    cases ran
    exact ⟨result.2,rfl⟩

def Call.paysMiners : Call A B → Bool
  | .payStorageMiners .. | .payComputeMiners .. => true
  | _ => false

theorem dispatch_schedule (call : Call A B) (other : call.paysMiners = false) (ran : dispatch cfg s call = .ok t) :
    SameSchedule s t := by
  by_cases administers : call.administers = true
  · exact (administers_untouched call administers ran).2.2
  cases call with
  | deposit =>
    obtain ⟨_,_,deposited⟩ := deposit_ok ran
    obtain ⟨accounts,_,rfl⟩ := depositFrom_ok deposited
    exact ⟨rfl,rfl,rfl⟩
  | depositFrom =>
    obtain ⟨_,_,rfl⟩ := depositFrom_ok ran
    exact ⟨rfl,rfl,rfl⟩
  | requestPayment =>
    obtain ⟨_,released⟩ := requested_ok ran
    obtain ⟨_,_,_,_,same⟩ := requestPayment_ok released
    exact same
  | elsewhere =>
    cases ran
    exact ⟨rfl,rfl,rfl⟩
  | payStorageMiners | payComputeMiners => cases other
  | _ => exact absurd rfl administers

theorem dispatch_cursor (call : Call A B)
    (other : ∀ origin amount miners weightEpoch, call ≠ .payComputeMiners origin amount miners weightEpoch)
    (ran : dispatch cfg s call = .ok t) : t.lastPaidComputeEpoch = s.lastPaidComputeEpoch := by
  cases call with
  | payStorageMiners =>
    obtain ⟨_,_,_,_,_,stored⟩ := payStorageMiners_ok ran
    rw [stored]
  | payComputeMiners origin amount miners weightEpoch => exact absurd rfl (other origin amount miners weightEpoch)
  | _ => exact (dispatch_schedule _ rfl ran).cursor

theorem step_covers (s : State A B) (call : Call A B) (covers : Covers cfg 0 s)
    (permitted : Permitted cfg s call) : Covers cfg 0 (step cfg s call) := by
  refine commit_inv (Covers cfg 0) covers ?_
  intro t ran
  rcases dispatch_covers call covers permitted ran with kept | ⟨_,_,_,rfl⟩
  · exact kept
  · obtain ⟨_,released⟩ := requested_ok ran
    exact requestPayment_unreserved covers released

theorem depositFrom_paysWithin (ran : depositFrom cfg s who amount depositType = .ok t) : PaysWithin s t := by
  obtain ⟨accounts,_,rfl⟩ := depositFrom_ok ran
  have raised := fun kind => (recordDeposit_raises {s with accounts:=accounts} depositType kind amount).1
  exact ⟨raised .emission,raised .computeEmission,⟨0,Nat.zero_le _,rfl⟩,⟨0,Nat.zero_le _,rfl⟩⟩

theorem dispatch_paysWithin (call : Call A B) (ran : dispatch cfg s call = .ok t) : PaysWithin s t := by
  by_cases administers : call.administers = true
  · exact (administers_untouched call administers ran).1.paysWithin
  cases call with
  | deposit =>
    obtain ⟨_,_,deposited⟩ := deposit_ok ran
    exact depositFrom_paysWithin deposited
  | depositFrom => exact depositFrom_paysWithin ran
  | payStorageMiners =>
    obtain ⟨paid,within,_,deposits,counted,others⟩ := payStorageMiners_spends ran
    refine ⟨by rw [deposits],by rw [deposits],⟨paid,within,counted⟩,⟨0,Nat.zero_le _,by rw [others,Nat.add_zero]⟩⟩
  | payComputeMiners =>
    obtain ⟨paid,within,_,deposits,others,counted⟩ := payComputeMiners_spends ran
    refine ⟨by rw [deposits],by rw [deposits],⟨0,Nat.zero_le _,by rw [others,Nat.add_zero]⟩,⟨paid,within,counted⟩⟩
  | requestPayment =>
    obtain ⟨_,released⟩ := requested_ok ran
    obtain ⟨_,_,_,same,_⟩ := requestPayment_ok released
    exact same.paysWithin
  | elsewhere =>
    cases ran
    exact SameCompartments.paysWithin ⟨rfl,rfl,rfl,rfl⟩
  | _ => exact absurd rfl administers

theorem step_emission_ordered (s : State A B) (call : Call A B)
    (ordered : s.emissionPaidOut.val ≤ s.totalDeposited .emission) :
    (step cfg s call).emissionPaidOut.val ≤ (step cfg s call).totalDeposited .emission := by
  refine commit_inv (fun t : State A B => t.emissionPaidOut.val ≤ t.totalDeposited .emission) ordered ?_
  intro t ran
  obtain ⟨_,_,⟨_,within,_⟩,_⟩ := dispatch_paysWithin call ran
  unfold emissionAvailable at within
  omega

theorem step_compute_ordered (s : State A B) (call : Call A B)
    (ordered : s.computeEmissionPaidOut.val ≤ s.totalDeposited .computeEmission) :
    (step cfg s call).computeEmissionPaidOut.val ≤ (step cfg s call).totalDeposited .computeEmission := by
  refine commit_inv (fun t : State A B => t.computeEmissionPaidOut.val ≤ t.totalDeposited .computeEmission)
    ordered ?_
  intro t ran
  obtain ⟨_,_,_,⟨_,within,_⟩⟩ := dispatch_paysWithin call ran
  unfold computeEmissionAvailable at within
  omega

def SpendsOwn (cfg : Config A B) (s : State A B) (call : Call A B) : Prop :=
  match call with
  | .requestPayment .. => emissionAvailable (step cfg s call) = emissionAvailable s ∧
      computeEmissionAvailable (step cfg s call) = computeEmissionAvailable s
  | .payStorageMiners .. => computeEmissionAvailable (step cfg s call) = computeEmissionAvailable s
  | .payComputeMiners .. => emissionAvailable (step cfg s call) = emissionAvailable s
  | _ => True

theorem step_spendsOwn (s : State A B) (call : Call A B) : SpendsOwn cfg s call := by
  cases call with
  | requestPayment =>
    refine commit_inv (fun t => emissionAvailable t = emissionAvailable s ∧
      computeEmissionAvailable t = computeEmissionAvailable s) ⟨rfl,rfl⟩ ?_
    intro t ran
    obtain ⟨_,released⟩ := requested_ok ran
    obtain ⟨_,_,_,same,_⟩ := requestPayment_ok released
    exact ⟨same.emissionAvailable,same.computeEmissionAvailable⟩
  | payStorageMiners =>
    refine commit_inv (fun t => computeEmissionAvailable t = computeEmissionAvailable s) rfl ?_
    intro t ran
    obtain ⟨_,_,_,deposits,_,others⟩ := payStorageMiners_spends ran
    rw [computeEmissionAvailable,deposits,others,computeEmissionAvailable]
  | payComputeMiners =>
    refine commit_inv (fun t => emissionAvailable t = emissionAvailable s) rfl ?_
    intro t ran
    obtain ⟨_,_,_,deposits,others,_⟩ := payComputeMiners_spends ran
    rw [emissionAvailable,deposits,others,emissionAvailable]
  | _ => trivial

theorem compartments_covered (cfg : Config A B) (s : State A B)
    (solvent : cfg.minimumBalance + emissionAvailable s + computeEmissionAvailable s ≤ balance cfg s)
    (calls : List (Call A B)) (permitted : Throughout (step cfg) (Permitted cfg) s calls) :
    let t := run (step cfg) s calls
    cfg.minimumBalance + (t.totalDeposited .emission - t.emissionPaidOut : Nat) +
        (t.totalDeposited .computeEmission - t.computeEmissionPaidOut : Nat) ≤ balance cfg t ∧
      (s.emissionPaidOut ≤ s.totalDeposited .emission → t.emissionPaidOut ≤ t.totalDeposited .emission) ∧
      (s.computeEmissionPaidOut ≤ s.totalDeposited .computeEmission →
        t.computeEmissionPaidOut ≤ t.totalDeposited .computeEmission) ∧
      Throughout (step cfg) (SpendsOwn cfg) s calls := by
  intro t
  have covered : Covers cfg 0 t :=
    run_invariant (Covers cfg 0) (fun s call covers allowed => step_covers s call covers allowed) solvent permitted
  refine ⟨covered,?_,?_,?_⟩
  · intro ordered
    exact run_always (fun t : State A B => t.emissionPaidOut.val ≤ t.totalDeposited .emission)
      (fun s call => step_emission_ordered s call) ordered
  · intro ordered
    exact run_always (fun t : State A B => t.computeEmissionPaidOut.val ≤ t.totalDeposited .computeEmission)
      (fun s call => step_compute_ordered s call) ordered
  · exact throughout_of_invariant (fun _ => True) (fun _ _ _ _ => trivial)
      (fun s call _ _ => step_spendsOwn s call) trivial permitted

instance (s : State A B) : DecidablePred (Permitted cfg s) := fun call => by
  cases call <;> dsimp only [Permitted] <;> infer_instance

def plainConfig : Config Nat (Nat → Nat) :=
  {Currency.plain 1 with
    accountId:=0
    isAdmin:=fun origin => origin = .signed 1
    maxMinersPerPayout:=1024
    maxComputeMinersPerPayout:=128
    blocksPer24Hours:=14400
    max24HourMinerPayout:=1000}

def opened : State Nat (Nat → Nat) := genesis (fun who => if who = 0 then 100 else if who = 7 then 500 else 0) {9}

-- The bank account deposits twice into itself: its balance stays at 100, and the
-- emission compartment counts 120. Apart from that, a storage that already shows more
-- paid out than deposited satisfies the inequality and keeps showing it.
theorem compartments_uncovered :
    (plainConfig.minimumBalance + emissionAvailable opened + computeEmissionAvailable opened ≤ balance plainConfig opened ∧
      balance plainConfig (run (step plainConfig) opened [.deposit (.signed 0) 60 .emission,.deposit (.signed 0) 60 .emission]) <
        emissionAvailable (run (step plainConfig) opened [.deposit (.signed 0) 60 .emission,.deposit (.signed 0) 60 .emission])) ∧
    (plainConfig.minimumBalance + emissionAvailable {opened with emissionPaidOut:=5} +
        computeEmissionAvailable {opened with emissionPaidOut:=5} ≤ balance plainConfig {opened with emissionPaidOut:=5} ∧
      ¬ (run (step plainConfig) {opened with emissionPaidOut:=5} []).emissionPaidOut ≤
        (run (step plainConfig) {opened with emissionPaidOut:=5} []).totalDeposited .emission) := by
  decide +kernel

def settled : List (Call Nat (Nat → Nat)) :=
  [.depositFrom 7 60 .emission,.depositFrom 7 40 .computeEmission,.requestPayment 9 8 1000,.addMinerPaymentCaller (.signed 1) 5,
    .payStorageMiners (.signed 5) 30 [(11,2),(12,1)],.payComputeMiners (.signed 5) 20 [(13,1)] (some 3)]

theorem compartments_covered_settled :
    (run (step plainConfig) opened settled).emissionPaidOut = 30 ∧
      plainConfig.minimumBalance + emissionAvailable (run (step plainConfig) opened settled) +
        computeEmissionAvailable (run (step plainConfig) opened settled) ≤ balance plainConfig (run (step plainConfig) opened settled) :=
  ⟨by decide +kernel,(compartments_covered plainConfig opened (by decide +kernel) settled (by decide +kernel)).1⟩

end TheBrain.Bank
