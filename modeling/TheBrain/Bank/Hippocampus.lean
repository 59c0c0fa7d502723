import Mathlib.Data.Finset.Basic
import TheBrain.Library.Machine
import TheBrain.PaymentMath
import TheBrain.Runtime

namespace TheBrain.Bank
open Library.Machine Library.Words PaymentMath Function

inductive DepositType where
  | marketplaceRevenue | emission | grant | fees | other | computeEmission
  deriving DecidableEq, Repr

inductive Event (A : Type) where
  | deposited (who : A) (amount : Nat) (depositType : DepositType)
  | requesterAdded (who : A)
  | requesterRemoved (who : A)
  | paymentReleased (requester dest : A) (requested paid : Nat)
  | requesterCapSet (who : A) (cap : Nat)
  | requesterCapRemoved (who : A)
  | distributionEnabledChanged (enabled : Bool)
  | storageMinersPaid (requested paid minersPaid minersSkipped : Nat)
  | minerPaymentPaid (miner : A) (amount : Nat)
  | minerPaymentCallerAdded (who : A)
  | minerPaymentCallerRemoved (who : A)
  | computeMinersPaid (requested paid minersPaid minersSkipped : Nat)
  | computeMinerPaymentPaid (miner : A) (amount : Nat)
  deriving DecidableEq, Repr

-- badOrigin and transferRefused are dispatch errors of the runtime and of the currency.
inductive Error where
  | badOrigin | transferRefused
  | requesterNotWhitelisted | zeroAmount | alreadyWhitelisted | notWhitelisted | distributionDisabled
  | insufficientEmissionFunds | insufficientBankBalance | tooManyMiners | noEligibleMiners
  | paymentCallerNotWhitelisted | exceedsDaily24HourMinerPayoutLimit | insufficientComputeEmissionFunds
  | tooManyComputeMiners | noEligibleComputeMiners | computeEpochAlreadyPaid | weightSumOverflow
  deriving DecidableEq, Repr

structure Config (A B : Type) [DecidableEq A] extends Currency A B where
  accountId : A
  isAdmin : Origin A → Bool
  maxMinersPerPayout : Word 32
  maxComputeMinersPerPayout : Word 32
  blocksPer24Hours : Nat
  max24HourMinerPayout : Word 128

-- The counters are u128 words, so no reachable or assumed state holds one out of range.
structure State (A B : Type) where
  blockNumber : Nat
  accounts : B
  distributionEnabled : Bool
  whitelistedRequesters : Finset A
  minerPaymentWhitelist : Finset A
  totalDeposited : DepositType → Word 128
  totalPaidOut : Word 128
  emissionPaidOut : Word 128
  minerPayoutPeriodAmount : Word 128
  minerPayoutPeriodStart : Nat
  computeEmissionPaidOut : Word 128
  lastPaidComputeEpoch : Option Nat
  totalPaidByRequester : A → Word 128
  requesterWithdrawalCap : A → Option Nat
  events : List (Event A)

def genesis (accounts : B) (requesters : Finset A) : State A B where
  blockNumber := 0
  accounts := accounts
  distributionEnabled := true
  whitelistedRequesters := requesters
  minerPaymentWhitelist := ∅
  totalDeposited := fun _ => 0
  totalPaidOut := 0
  emissionPaidOut := 0
  minerPayoutPeriodAmount := 0
  minerPayoutPeriodStart := 0
  computeEmissionPaidOut := 0
  lastPaidComputeEpoch := none
  totalPaidByRequester := fun _ => 0
  requesterWithdrawalCap := fun _ => none
  events := []

section
variable {A B : Type} [DecidableEq A]
variable (cfg : Config A B) (s : State A B) (origin : Origin A)

def depositEvent (e : Event A) : State A B :=
  {s with events:=s.events ++ [e]}

def balance : Nat := cfg.freeBalance s.accounts cfg.accountId

def availableForPayout : Nat := available (balance cfg s) cfg.minimumBalance

def emissionAvailable : Nat :=
  s.totalDeposited .emission - s.emissionPaidOut

def computeEmissionAvailable : Nat :=
  s.totalDeposited .computeEmission - s.computeEmissionPaidOut

def unreservedForPayout : Nat :=
  availableForPayout cfg s - emissionAvailable s - computeEmissionAvailable s

def recordDeposit (depositType : DepositType) (amount : Nat) : State A B :=
  {s with totalDeposited:=update s.totalDeposited depositType (addSaturating (s.totalDeposited depositType) amount)}

def recordFeeDeposit (amount : Nat) : State A B :=
  depositEvent (recordDeposit s .fees amount) (.deposited cfg.accountId amount .fees)

def depositFrom (who : A) (amount : Nat) (depositType : DepositType) : Except Error (State A B) := do
  ensure (amount ≠ 0) .zeroAmount
  let accounts ← okOr (cfg.transfer s.accounts who cfg.accountId amount) .transferRefused
  .ok (depositEvent (recordDeposit {s with accounts:=accounts} depositType amount) (.deposited who amount depositType))

-- The amount a request may release now: clamped by the requester's cap, then by what
-- neither compartment reserves.
def releasable (requester : A) (amount : Nat) : Nat :=
  payable ((s.requesterWithdrawalCap requester).elim amount (min amount)) (unreservedForPayout cfg s)

def requestPayment (requester dest : A) (amount : Nat) : Except Error (State A B × Nat) := do
  ensure (s.distributionEnabled = true) .distributionDisabled
  ensure (requester ∈ s.whitelistedRequesters) .requesterNotWhitelisted
  if amount = 0 then .ok (s,0) else
  let paid := releasable cfg s requester amount
  if paid = 0 then .ok (s,0) else
  let accounts ← okOr (cfg.transfer s.accounts cfg.accountId dest paid) .transferRefused
  .ok (depositEvent {s with
      accounts:=accounts
      totalPaidOut:=addSaturating s.totalPaidOut paid
      totalPaidByRequester:=update s.totalPaidByRequester requester (addSaturating (s.totalPaidByRequester requester) paid)}
    (.paymentReleased requester dest amount paid),paid)

structure Payout (A B : Type) where
  bank : State A B
  paid : Nat
  minersPaid : Nat
  minersSkipped : Nat

def skipMiner (p : Payout A B) : Payout A B :=
  {p with minersSkipped:=saturatingAdd 32 p.minersSkipped 1}

def payShare (paidEvent : A → Nat → Event A) (pool totalWeight : Nat) (p : Payout A B) (miner : A × Nat) : Payout A B :=
  let share := weightShare pool miner.2 totalWeight
  if share = 0 then skipMiner p else
  match cfg.transfer p.bank.accounts cfg.accountId miner.1 share with
  | some accounts => {
      bank:=depositEvent {p.bank with accounts:=accounts} (paidEvent miner.1 share)
      paid:=saturatingAdd 128 p.paid share
      minersPaid:=saturatingAdd 32 p.minersPaid 1
      minersSkipped:=p.minersSkipped}
  | none => skipMiner p

def payShares (paidEvent : A → Nat → Event A) (pool totalWeight : Nat) (s : State A B) (miners : List (A × Nat)) : Payout A B :=
  miners.foldl (payShare cfg paidEvent pool totalWeight) ⟨s,0,0,0⟩

def totalWeightOf (miners : List (A × Nat)) : Option Nat :=
  miners.foldlM (fun total miner => checkedAdd 128 total miner.2) 0

-- The 24-hour limit both payouts share: a new period starts when the old one is over.
def rollPeriod : State A B :=
  if cfg.blocksPer24Hours ≤ s.blockNumber - s.minerPayoutPeriodStart then
    {s with minerPayoutPeriodStart:=s.blockNumber,minerPayoutPeriodAmount:=0}
  else s

def admitPayout (amount : Nat) : Except Error (State A B) := do
  let who ← okOr origin.signer .badOrigin
  ensure (who ∈ s.minerPaymentWhitelist) .paymentCallerNotWhitelisted
  ensure (s.distributionEnabled = true) .distributionDisabled
  ensure (amount ≠ 0) .zeroAmount
  let s := rollPeriod cfg s
  ensure (saturatingAdd 128 s.minerPayoutPeriodAmount amount ≤ cfg.max24HourMinerPayout) .exceedsDaily24HourMinerPayoutLimit
  .ok s

def payStorageMiners (amount : Nat) (miners : List (A × Nat)) : Except Error (State A B) := do
  let s ← admitPayout cfg s origin amount
  ensure (amount ≤ emissionAvailable s) .insufficientEmissionFunds
  ensure (amount ≤ availableForPayout cfg s) .insufficientBankBalance
  ensure (min miners.length (maxOf 32) ≤ cfg.maxMinersPerPayout) .tooManyMiners
  let totalWeight ← okOr (totalWeightOf miners) .weightSumOverflow
  ensure (0 < totalWeight) .noEligibleMiners
  let p := payShares cfg .minerPaymentPaid amount totalWeight s miners
  .ok (depositEvent {p.bank with
      emissionPaidOut:=addSaturating p.bank.emissionPaidOut p.paid
      totalPaidOut:=addSaturating p.bank.totalPaidOut p.paid
      minerPayoutPeriodAmount:=addSaturating p.bank.minerPayoutPeriodAmount p.paid}
    (.storageMinersPaid amount p.paid p.minersPaid p.minersSkipped))

-- A settled epoch is not settled again; a source without epochs opts out.
def epochUnpaid (weightEpoch : Option Nat) : Prop :=
  ∀ epoch ∈ weightEpoch, ∀ lastPaid ∈ s.lastPaidComputeEpoch, lastPaid < epoch

instance (s : State A B) (weightEpoch : Option Nat) : Decidable (epochUnpaid s weightEpoch) :=
  inferInstanceAs (Decidable (∀ epoch ∈ weightEpoch, ∀ lastPaid ∈ s.lastPaidComputeEpoch, lastPaid < epoch))

def payComputeMiners (amount : Nat) (miners : List (A × Nat)) (weightEpoch : Option Nat) : Except Error (State A B) := do
  let s ← admitPayout cfg s origin amount
  ensure (amount ≤ computeEmissionAvailable s) .insufficientComputeEmissionFunds
  ensure (amount ≤ availableForPayout cfg s) .insufficientBankBalance
  ensure (epochUnpaid s weightEpoch) .computeEpochAlreadyPaid
  ensure (min miners.length (maxOf 32) ≤ cfg.maxComputeMinersPerPayout) .tooManyComputeMiners
  let totalWeight ← okOr (totalWeightOf miners) .weightSumOverflow
  ensure (0 < totalWeight) .noEligibleComputeMiners
  let p := payShares cfg .computeMinerPaymentPaid amount totalWeight s miners
  .ok (depositEvent {p.bank with
      computeEmissionPaidOut:=addSaturating p.bank.computeEmissionPaidOut p.paid
      totalPaidOut:=addSaturating p.bank.totalPaidOut p.paid
      minerPayoutPeriodAmount:=addSaturating p.bank.minerPayoutPeriodAmount p.paid
      lastPaidComputeEpoch:=if p.paid = 0 then p.bank.lastPaidComputeEpoch else weightEpoch.or p.bank.lastPaidComputeEpoch}
    (.computeMinersPaid amount p.paid p.minersPaid p.minersSkipped))

def ensureAdmin : Except Error Unit := ensure (cfg.isAdmin origin = true) .badOrigin

def addRequester (who : A) : Except Error (State A B) := do
  ensureAdmin cfg origin
  ensure (who ∉ s.whitelistedRequesters) .alreadyWhitelisted
  .ok (depositEvent {s with whitelistedRequesters:=insert who s.whitelistedRequesters} (.requesterAdded who))

def removeRequester (who : A) : Except Error (State A B) := do
  ensureAdmin cfg origin
  ensure (who ∈ s.whitelistedRequesters) .notWhitelisted
  .ok (depositEvent {s with whitelistedRequesters:=s.whitelistedRequesters.erase who} (.requesterRemoved who))

def setRequesterCap (who : A) (cap : Nat) : Except Error (State A B) := do
  ensureAdmin cfg origin
  .ok (depositEvent {s with requesterWithdrawalCap:=update s.requesterWithdrawalCap who (some cap)}
    (.requesterCapSet who cap))

def removeRequesterCap (who : A) : Except Error (State A B) := do
  ensureAdmin cfg origin
  .ok (depositEvent {s with requesterWithdrawalCap:=update s.requesterWithdrawalCap who none}
    (.requesterCapRemoved who))

def setDistributionEnabled (enabled : Bool) : Except Error (State A B) := do
  ensureAdmin cfg origin
  .ok (depositEvent {s with distributionEnabled:=enabled} (.distributionEnabledChanged enabled))

def addMinerPaymentCaller (who : A) : Except Error (State A B) := do
  ensureAdmin cfg origin
  ensure (who ∉ s.minerPaymentWhitelist) .alreadyWhitelisted
  .ok (depositEvent {s with minerPaymentWhitelist:=insert who s.minerPaymentWhitelist} (.minerPaymentCallerAdded who))

def removeMinerPaymentCaller (who : A) : Except Error (State A B) := do
  ensureAdmin cfg origin
  ensure (who ∈ s.minerPaymentWhitelist) .notWhitelisted
  .ok (depositEvent {s with minerPaymentWhitelist:=s.minerPaymentWhitelist.erase who} (.minerPaymentCallerRemoved who))

def deposit (amount : Nat) (depositType : DepositType) : Except Error (State A B) := do
  let who ← okOr origin.signer .badOrigin
  depositFrom cfg s who amount depositType

end

-- Every extrinsic, the entry points other pallets use (depositFrom, requestPayment,
-- recordFeeDeposit), block advances, and balance changes outside the bank. The miner
-- weights a payout reads are supplied with the call.
inductive Call (A B : Type) where
  | deposit (origin : Origin A) (amount : Word 128) (depositType : DepositType)
  | addRequester (origin : Origin A) (who : A)
  | removeRequester (origin : Origin A) (who : A)
  | setRequesterCap (origin : Origin A) (who : A) (cap : Word 128)
  | removeRequesterCap (origin : Origin A) (who : A)
  | setDistributionEnabled (origin : Origin A) (enabled : Bool)
  | addMinerPaymentCaller (origin : Origin A) (who : A)
  | removeMinerPaymentCaller (origin : Origin A) (who : A)
  | payStorageMiners (origin : Origin A) (amount : Word 128) (miners : List (A × Word 128))
  | payComputeMiners (origin : Origin A) (amount : Word 128) (miners : List (A × Word 128))
      (weightEpoch : Option (Word 64))
  | depositFrom (who : A) (amount : Word 128) (depositType : DepositType)
  | requestPayment (requester dest : A) (amount : Word 128)
  | recordFeeDeposit (amount : Word 128)
  | initializeBlock (blockNumber : Nat)
  | elsewhere (accounts : B)

def weightsOf (miners : List (A × Word 128)) : List (A × Nat) :=
  miners.map fun miner => (miner.1,miner.2.val)

section
variable {A B : Type} [DecidableEq A]

def dispatch (cfg : Config A B) (s : State A B) :
    Call A B → Except Error (State A B)
  | .deposit origin amount depositType => deposit cfg s origin amount depositType
  | .addRequester origin who => addRequester cfg s origin who
  | .removeRequester origin who => removeRequester cfg s origin who
  | .setRequesterCap origin who cap => setRequesterCap cfg s origin who cap
  | .removeRequesterCap origin who => removeRequesterCap cfg s origin who
  | .setDistributionEnabled origin enabled => setDistributionEnabled cfg s origin enabled
  | .addMinerPaymentCaller origin who => addMinerPaymentCaller cfg s origin who
  | .removeMinerPaymentCaller origin who => removeMinerPaymentCaller cfg s origin who
  | .payStorageMiners origin amount miners => payStorageMiners cfg s origin amount (weightsOf miners)
  | .payComputeMiners origin amount miners weightEpoch =>
    payComputeMiners cfg s origin amount (weightsOf miners) (weightEpoch.map Fin.val)
  | .depositFrom who amount depositType => depositFrom cfg s who amount depositType
  | .requestPayment requester dest amount => (requestPayment cfg s requester dest amount).map Prod.fst
  | .recordFeeDeposit amount => .ok (recordFeeDeposit cfg s amount)
  | .initializeBlock blockNumber => .ok {s with blockNumber:=blockNumber}
  | .elsewhere accounts => .ok {s with accounts:=accounts}

def step (cfg : Config A B) (s : State A B) (call : Call A B) :
    State A B := commit s (dispatch cfg s call)

end
end TheBrain.Bank
