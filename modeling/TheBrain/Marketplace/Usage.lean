import TheBrain.Marketplace.Pallet

namespace TheBrain.Marketplace.Usage
open Library Machine Words Function

-- Kinds in the order of their codec indices, which is also the order of a breakdown.
inductive UsageKind where
  | compute | publicIp | backup | managedFees | cdn | bandwidth | s3Storage | s3Overage | s3Plan
  | driveStorage | driveOverage | drivePlan
  deriving DecidableEq, Repr

def UsageKind.index : UsageKind → Nat
  | .compute => 0
  | .publicIp => 1
  | .backup => 2
  | .managedFees => 3
  | .cdn => 4
  | .bandwidth => 5
  | .s3Storage => 6
  | .s3Overage => 7
  | .s3Plan => 8
  | .driveStorage => 9
  | .driveOverage => 10
  | .drivePlan => 11

def UsageKind.requiresFeeCap : UsageKind → Bool
  | .s3Plan | .drivePlan => true
  | _ => false

abbrev UsageBreakdown := List (UsageKind × Word 128)

structure UsageRowV2 (A H : Type) where
  who : A
  total : Word 128
  usageHash : H
  breakdown : UsageBreakdown

structure FeeCap where
  perDebit : Word 128
  perCall : Word 128
  budget : Word 128
  windowPeriods : Word 64
  deriving DecidableEq

inductive ComputeChargeOutcome where
  | charged | arrears
  deriving DecidableEq, Repr

structure ComputeUsageRecord (H : Type) where
  amount : Nat
  usageHash : H
  outcome : ComputeChargeOutcome
  deriving DecidableEq

inductive ComputeUsageRefusal where
  | accountCapExceeded | callCapExceeded | arrearsOverflow | breakdownInvalid | feeCapExceeded | feeBudgetExceeded
  deriving DecidableEq, Repr

inductive ComputeRowResult where
  | charged | arrears | duplicate | conflict | refused
  deriving DecidableEq, Repr

def ComputeRowResult.isRecorded : ComputeRowResult → Bool
  | .charged | .arrears => true
  | _ => false

inductive Event (A H : Type) where
  | computeBillingAuthoritiesSet (authorities : List A)
  | computeChargeCapsUpdated (perAccountPerPeriod perCall : Nat)
  | computeUsageCharged (who : A) (period amount arrearsCollected : Nat) (usageHash : H)
  | computeUsageChargeFailed (who : A) (period amount required available : Nat) (usageHash : H)
  | computeUsageDuplicate (who : A) (period : Nat) (usageHash : H)
  | computeUsageConflict (who : A) (period recordedAmount : Nat) (recordedHash : H)
      (submittedAmount : Nat) (submittedHash : H)
  | computeUsageRefused (who : A) (period amount : Nat) (reason : ComputeUsageRefusal)
  | computeUsageSubmitted (period charged arrears duplicates conflicts refused totalAccepted : Nat)
  | computeArrearsSettled (who : A) (amount : Nat)
  | computeArrearsSettleFailed (who : A) (required available : Nat)
  | usageCharged (who : A) (period amount arrearsCollected : Nat) (usageHash : H) (breakdown : UsageBreakdown)
  | usageChargeFailed (who : A) (period amount required available : Nat) (usageHash : H) (breakdown : UsageBreakdown)
  | feeKindCapsUpdated (kind : UsageKind) (cap : Option FeeCap)
  | accountChargeCapUpdated (who : A) (cap : Option Nat) (by_ : Option A)
  | chargeCapAdminsUpdated (admins : List A)
  | maxAccountChargeCapOverrideUpdated (max : Nat)
  deriving DecidableEq

inductive Error where
  | badOrigin
  | malformedCall
  | notComputeBillingAuthority | tooManyUpdates | computeBillingPeriodNotClosed | computeBillingPeriodTooOld
  | tooManyComputeBillingAuthorities | adminIsBillingAuthority | invalidFeeCap | tooManyFeeKinds
  | notChargeCapAdmin | capOverrideAboveLimit | tooManyChargeCapAdmins
  deriving DecidableEq, Repr

-- The runtime's integrity test keeps the lag below the retention. The width of a
-- machine word is that of the target the runtime is compiled for.
structure Config (A B : Type) [DecidableEq A] where
  market : Marketplace.Config A B
  maxComputeUsageRowsPerCall : Nat
  maxComputeBillingLag : Nat
  computeUsageRetention : Nat
  usizeBits : Nat
  retained : maxComputeBillingLag < computeUsageRetention

-- The usage storage next to the credits and batches it draws on, and the chain clock.
structure State (A H B : Type) where
  market : Marketplace.State A B
  nowMs : Nat
  computeBillingAuthorities : List A
  computeUsageCharged : StorageMap (Nat × A) (ComputeUsageRecord H)
  computeArrears : A → Nat
  lastComputeBillingPeriod : Option Nat
  computeUsagePruneFrom : Option Nat
  maxComputeChargePerAccountPerPeriod : Nat
  maxComputeChargePerCall : Nat
  accountChargeCapOverride : A → Option Nat
  chargeCapAdmins : List A
  maxAccountChargeCapOverride : Nat
  feeCapConfig : StorageMap UsageKind FeeCap
  feeSpend : UsageKind → A → Option (Nat × Nat)
  events : List (Event A H)

def genesis (market : Marketplace.State A B) (nowMs : Nat) : State A H B where
  market := market
  nowMs := nowMs
  computeBillingAuthorities := []
  computeUsageCharged := ∅
  computeArrears := fun _ => 0
  lastComputeBillingPeriod := none
  computeUsagePruneFrom := none
  maxComputeChargePerAccountPerPeriod := 0
  maxComputeChargePerCall := 0
  accountChargeCapOverride := fun _ => none
  chargeCapAdmins := []
  maxAccountChargeCapOverride := 0
  feeCapConfig := ∅
  feeSpend := fun _ _ => none
  events := []

def computeBillingPeriodMs : Nat := 3600000
def maxComputeBillingAuthorities : Nat := 8
def maxChargeCapAdmins : Nat := 8
def maxUsageKindsPerRow : Nat := 16
def maxFeeKinds : Nat := 4

section
variable {A H B : Type} [DecidableEq A] [DecidableEq H]
variable (cfg : Config A B) (s : State A H B)

def depositEvent (e : Event A H) : State A H B :=
  {s with events:=s.events ++ [e]}

def ensureRoot (origin : Origin A) : Except Error Unit := ensure (origin = .root) .badOrigin

def ensureComputeBillingAuthority (who : A) : Except Error Unit :=
  ensure (who ∈ s.computeBillingAuthorities) .notComputeBillingAuthority

def currentComputePeriod : Nat := s.nowMs / computeBillingPeriodMs

def ensureComputePeriodBillable (period : Nat) : Except Error Unit := do
  ensure (period < currentComputePeriod s) .computeBillingPeriodNotClosed
  ensure (currentComputePeriod s - period ≤ cfg.maxComputeBillingLag) .computeBillingPeriodTooOld

def sortedAccounts (accounts : List A) : List A :=
  (accounts.insertionSort fun a b => cfg.market.accountRank a ≤ cfg.market.accountRank b).dedup

def computeUsageAlreadyRecorded (period : Nat) (who : A) (amount : Nat)
    (usageHash : H) : Option (State A H B × ComputeRowResult) := do
  let recorded ← s.computeUsageCharged.lookup (period,who)
  if recorded.amount = amount ∧ recorded.usageHash = usageHash then
    some (depositEvent s (.computeUsageDuplicate who period usageHash),.duplicate)
  else
    some (depositEvent s (.computeUsageConflict who period recorded.amount recorded.usageHash amount usageHash),.conflict)

def refuseComputeUsageRow (period : Nat) (who : A) (amount : Nat)
    (reason : ComputeUsageRefusal) : State A H B × ComputeRowResult :=
  (depositEvent s (.computeUsageRefused who period amount reason),.refused)

-- Commitments do not exist yet, so nothing is covered.
def drawComputeCommitment (_who : A) (amount : Nat) : Nat := amount

-- A storage layer of its own: the debit with its bookkeeping, or nothing.
def collectComputeCredits (who : A) (owed : Nat) : Option (State A H B) :=
  match consumeCredits s.market who owed with
  | .ok market => some {s with
      market:=accrueHourlyReferralCommission market who owed
      computeArrears:=update s.computeArrears who 0}
  | .error _ => none

def chargedEvent (who : A) (period amount arrearsCollected : Nat) (usageHash : H) :
    Option UsageBreakdown → Event A H
  | none => .computeUsageCharged who period amount arrearsCollected usageHash
  | some breakdown => .usageCharged who period amount arrearsCollected usageHash breakdown

def chargeFailedEvent (who : A) (period amount required available : Nat) (usageHash : H) :
    Option UsageBreakdown → Event A H
  | none => .computeUsageChargeFailed who period amount required available usageHash
  | some breakdown => .usageChargeFailed who period amount required available usageHash breakdown

def insertUsageRecord (period : Nat) (who : A) (entry : ComputeUsageRecord H) : State A H B :=
  {s with computeUsageCharged:=s.computeUsageCharged.insert (period,who) entry}

-- A row of nothing leaves older arrears alone.
def chargeUsage (who : A) (billable owed : Nat) : Option (State A H B) :=
  if billable = 0 then some s else collectComputeCredits s who owed

def recordComputeUsageRow (period : Nat) (who : A) (amount : Nat) (usageHash : H)
    (breakdown : Option UsageBreakdown) : State A H B × ComputeRowResult :=
  let arrears := s.computeArrears who
  match checkedAdd 128 arrears amount with
  | none => refuseComputeUsageRow s period who amount .arrearsOverflow
  | some _ =>
    let billable := drawComputeCommitment who amount
    let owed := saturatingAdd 128 arrears billable
    match chargeUsage s who billable owed with
    | some s =>
      let s := depositEvent s
        (chargedEvent who period amount (if billable = 0 then 0 else arrears) usageHash breakdown)
      (insertUsageRecord s period who ⟨amount,usageHash,.charged⟩,.charged)
    | none =>
      let s := {s with computeArrears:=update s.computeArrears who owed}
      let s := depositEvent s
        (chargeFailedEvent who period amount owed (s.market.freeCredits who) usageHash breakdown)
      (insertUsageRecord s period who ⟨amount,usageHash,.arrears⟩,.arrears)

-- What a row adds to the call's tally: its non-fee part, or nothing under an override.
def checkNonFeeCaps (who : A) (nonFee defaultCap perCallCap callAccepted : Nat) : Except ComputeUsageRefusal Nat :=
  match s.accountChargeCapOverride who with
  | some cap => do
      ensure (nonFee ≤ cap) .accountCapExceeded
      .ok 0
  | none => do
      ensure (nonFee ≤ defaultCap) .accountCapExceeded
      ensure (nonFee ≤ perCallCap - callAccepted) .callCapExceeded
      .ok nonFee

def applyComputeUsageRow (period : Nat) (who : A) (amount : Nat) (usageHash : H)
    (perAccountCap perCallCap callAccepted : Nat) : State A H B × ComputeRowResult × Nat :=
  match computeUsageAlreadyRecorded s period who amount usageHash with
  | some (s,result) => (s,result,callAccepted)
  | none =>
    match checkNonFeeCaps s who amount perAccountCap perCallCap callAccepted with
    | .error reason =>
      let (s,result) := refuseComputeUsageRow s period who amount reason
      (s,result,callAccepted)
    | .ok counted =>
      let (s,result) := recordComputeUsageRow s period who amount usageHash none
      (s,result,if result.isRecorded then saturatingAdd 128 callAccepted counted else callAccepted)

structure UsageCaps where
  perAccount : Nat
  perCall : Nat
  now : Nat

structure UsageCallTally where
  nonFee : Nat
  fees : UsageKind → Nat

structure UsageAdmission where
  callNonFee : Nat
  fees : List (UsageKind × Nat × Nat × Nat)

def breakdownIsValid (breakdown : UsageBreakdown) (total : Nat) : Prop :=
  breakdown ≠ [] ∧ breakdown.IsChain (fun a b => a.1.index < b.1.index) ∧
    breakdown.foldlM (fun sum line => checkedAdd 128 sum line.2) 0 = some total

instance (breakdown : UsageBreakdown) (total : Nat) : Decidable (breakdownIsValid breakdown total) :=
  inferInstanceAs (Decidable (_ ∧ _ ∧ _))

-- The budget window open now for the kind, or a new one.
def feeWindow (kind : UsageKind) (who : A) (now : Nat) (cap : FeeCap) : Nat × Nat :=
  match s.feeSpend kind who with
  | some (start,spent) => if now < saturatingAdd 64 start cap.windowPeriods then (start,spent) else (now,0)
  | none => (now,0)

-- One line of a breakdown: the fee total so far and the fee lines with the spend each leaves.
def admitLine (who : A) (caps : UsageCaps) (call : UsageCallTally)
    (admitted : Nat × List (UsageKind × Nat × Nat × Nat)) (line : UsageKind × Word 128) :
    Except ComputeUsageRefusal (Nat × List (UsageKind × Nat × Nat × Nat)) :=
  match s.feeCapConfig.lookup line.1 with
  | none => do
      ensure (¬(line.1.requiresFeeCap = true ∧ 0 < line.2.val)) .feeCapExceeded
      .ok admitted
  | some cap =>
    if line.2.val = 0 then .ok admitted else do
    ensure (line.2.val ≤ cap.perDebit.val ∧ line.2.val ≤ cap.perCall.val - call.fees line.1) .feeCapExceeded
    let (start,spent) := feeWindow s line.1 who caps.now cap
    let spent ← okOr ((checkedAdd 128 spent line.2).filter (· ≤ cap.budget.val)) .feeBudgetExceeded
    .ok (saturatingAdd 128 admitted.1 line.2,admitted.2 ++ [(line.1,line.2.val,start,spent)])

def admitUsageRowV2 (who : A) (total : Nat) (breakdown : UsageBreakdown)
    (caps : UsageCaps) (call : UsageCallTally) : Except ComputeUsageRefusal UsageAdmission := do
  let (feeTotal,fees) ← breakdown.foldlM (admitLine s who caps call) (0,[])
  let callNonFee ← checkNonFeeCaps s who (total - feeTotal) caps.perAccount caps.perCall call.nonFee
  .ok ⟨callNonFee,fees⟩

def drawFee (who : A) (p : State A H B × UsageCallTally) (fee : UsageKind × Nat × Nat × Nat) : State A H B × UsageCallTally :=
  ({p.1 with feeSpend:=update p.1.feeSpend fee.1 (update (p.1.feeSpend fee.1) who (some fee.2.2))},
    {p.2 with fees:=update p.2.fees fee.1 (saturatingAdd 128 (p.2.fees fee.1) fee.2.1)})

def applyUsageRowV2 (period : Nat) (row : UsageRowV2 A H) (caps : UsageCaps)
    (call : UsageCallTally) : State A H B × ComputeRowResult × UsageCallTally :=
  if ¬breakdownIsValid row.breakdown row.total then
    let (s,result) := refuseComputeUsageRow s period row.who row.total .breakdownInvalid
    (s,result,call)
  else
    match computeUsageAlreadyRecorded s period row.who row.total row.usageHash with
    | some (s,result) => (s,result,call)
    | none =>
      match admitUsageRowV2 s row.who row.total row.breakdown caps call with
      | .error reason =>
        let (s,result) := refuseComputeUsageRow s period row.who row.total reason
        (s,result,call)
      | .ok admission =>
        let (s,result) := recordComputeUsageRow s period row.who row.total row.usageHash (some row.breakdown)
        if result.isRecorded then
          let (s,call) := admission.fees.foldl (drawFee row.who)
            (s,{call with nonFee:=saturatingAdd 128 call.nonFee admission.callNonFee})
          (s,result,call)
        else (s,result,call)

variable (origin : Origin A)

structure ComputeUsageSummary where
  charged : Nat := 0
  arrears : Nat := 0
  duplicates : Nat := 0
  conflicts : Nat := 0
  refused : Nat := 0
  totalAccepted : Nat := 0

def ComputeUsageSummary.add (summary : ComputeUsageSummary) (result : ComputeRowResult) (amount : Nat) : ComputeUsageSummary :=
  match result with
  | .charged => {summary with
      charged:=saturatingAdd 32 summary.charged 1,totalAccepted:=saturatingAdd 128 summary.totalAccepted amount}
  | .arrears => {summary with
      arrears:=saturatingAdd 32 summary.arrears 1,totalAccepted:=saturatingAdd 128 summary.totalAccepted amount}
  | .duplicate => {summary with duplicates:=saturatingAdd 32 summary.duplicates 1}
  | .conflict => {summary with conflicts:=saturatingAdd 32 summary.conflicts 1}
  | .refused => {summary with refused:=saturatingAdd 32 summary.refused 1}

-- The loop over the rows of one call: the state, the summary and what the call has
-- accepted so far, in the form the kind of call counts it.
structure Submission (A H B Tally : Type) where
  state : State A H B
  summary : ComputeUsageSummary
  tally : Tally

def submitRow (period perAccountCap perCallCap : Nat) (p : Submission A H B Nat)
    (row : A × Word 128 × H) : Submission A H B Nat :=
  let (s,result,callAccepted) := applyComputeUsageRow p.state period row.1 row.2.1 row.2.2 perAccountCap perCallCap p.tally
  ⟨s,p.summary.add result row.2.1,callAccepted⟩

def submitRowV2 (period : Nat) (caps : UsageCaps) (p : Submission A H B UsageCallTally)
    (row : UsageRowV2 A H) : Submission A H B UsageCallTally :=
  let (s,result,call) := applyUsageRowV2 p.state period row caps p.tally
  ⟨s,p.summary.add result row.total,call⟩

def finishComputeUsageSubmission (period : Nat) (summary : ComputeUsageSummary) : State A H B :=
  let s := if 0 < summary.charged ∨ 0 < summary.arrears then
      {s with
        lastComputeBillingPeriod:=some (s.lastComputeBillingPeriod.elim period fun last => max last period)
        computeUsagePruneFrom:=some (s.computeUsagePruneFrom.elim period fun since => min since period)}
    else s
  depositEvent s (.computeUsageSubmitted period summary.charged summary.arrears summary.duplicates summary.conflicts
    summary.refused summary.totalAccepted)

def submitComputeUsage (period : Nat) (rows : List (A × Word 128 × H)) : Except Error (State A H B) := do
  let caller ← okOr origin.signer .badOrigin
  ensureComputeBillingAuthority s caller
  ensure (rows.length ≤ cfg.maxComputeUsageRowsPerCall) .tooManyUpdates
  ensureComputePeriodBillable cfg s period
  let p := rows.foldl (submitRow period s.maxComputeChargePerAccountPerPeriod s.maxComputeChargePerCall) ⟨s,{},0⟩
  .ok (finishComputeUsageSubmission p.state period p.summary)

-- The bounds on the rows and on each breakdown are part of the argument's type.
def submitUsageV2 (period : Nat) (rows : List (UsageRowV2 A H)) : Except Error (State A H B) := do
  ensure (rows.length ≤ cfg.maxComputeUsageRowsPerCall ∧ ∀ row ∈ rows, row.breakdown.length ≤ maxUsageKindsPerRow) .malformedCall
  let caller ← okOr origin.signer .badOrigin
  ensureComputeBillingAuthority s caller
  ensureComputePeriodBillable cfg s period
  let caps := ⟨s.maxComputeChargePerAccountPerPeriod,s.maxComputeChargePerCall,currentComputePeriod s⟩
  let p := rows.foldl (submitRowV2 period caps) ⟨s,{},⟨0,fun _ => 0⟩⟩
  .ok (finishComputeUsageSubmission p.state period p.summary)

def settleAccount (who : A) : State A H B :=
  let owed := s.computeArrears who
  if owed = 0 then s else
  match collectComputeCredits s who owed with
  | some s => depositEvent s (.computeArrearsSettled who owed)
  | none => depositEvent s (.computeArrearsSettleFailed who owed (s.market.freeCredits who))

def settleComputeArrears (accounts : List A) : Except Error (State A H B) := do
  let caller ← okOr origin.signer .badOrigin
  ensureComputeBillingAuthority s caller
  ensure (accounts.length ≤ cfg.maxComputeUsageRowsPerCall) .tooManyUpdates
  .ok ((sortedAccounts cfg accounts).foldl settleAccount s)

def setComputeBillingAuthorities (authorities : List A) : Except Error (State A H B) := do
  ensureRoot origin
  ensure (authorities.length ≤ maxComputeBillingAuthorities) .tooManyComputeBillingAuthorities
  let authorities := sortedAccounts cfg authorities
  ensure (∀ who ∈ authorities, who ∉ s.chargeCapAdmins) .adminIsBillingAuthority
  .ok (depositEvent {s with computeBillingAuthorities:=authorities} (.computeBillingAuthoritiesSet authorities))

def setComputeChargeCaps (perAccountPerPeriod perCall : Nat) : Except Error (State A H B) := do
  ensureRoot origin
  .ok (depositEvent {s with
      maxComputeChargePerAccountPerPeriod:=perAccountPerPeriod
      maxComputeChargePerCall:=perCall}
    (.computeChargeCapsUpdated perAccountPerPeriod perCall))

def storeFeeCap (kind : UsageKind) :
    Option FeeCap → Except Error (State A H B)
  | some cap => do
      ensure (0 < cap.windowPeriods.val) .invalidFeeCap
      ensure ((s.feeCapConfig.lookup kind).isSome = true ∨ s.feeCapConfig.keys.length < maxFeeKinds) .tooManyFeeKinds
      .ok {s with feeCapConfig:=s.feeCapConfig.insert kind cap}
  | none => .ok {s with feeCapConfig:=s.feeCapConfig.erase kind}

def setFeeKindCaps (kind : UsageKind) (cap : Option FeeCap) : Except Error (State A H B) := do
  ensureRoot origin
  let s ← storeFeeCap s kind cap
  .ok (depositEvent s (.feeKindCapsUpdated kind cap))

def setAccountChargeCap (who : A) (cap : Option (Word 128)) : Except Error (State A H B) := do
  let admin := origin.signer
  ensure (∀ who ∈ admin, who ∈ s.chargeCapAdmins) .notChargeCapAdmin
  ensure (admin = none ∨ ∀ c ∈ cap.map Fin.val, c ≤ s.maxAccountChargeCapOverride) .capOverrideAboveLimit
  .ok (depositEvent
    {s with accountChargeCapOverride:=Function.update s.accountChargeCapOverride who (cap.map Fin.val)}
    (.accountChargeCapUpdated who (cap.map Fin.val) admin))

def setChargeCapAdmins (admins : List A) : Except Error (State A H B) := do
  ensureRoot origin
  let admins := sortedAccounts cfg admins
  ensure (∀ who ∈ admins, who ∉ s.computeBillingAuthorities) .adminIsBillingAuthority
  ensure (admins.length ≤ maxChargeCapAdmins) .tooManyChargeCapAdmins
  .ok (depositEvent {s with chargeCapAdmins:=admins} (.chargeCapAdminsUpdated admins))

def setMaxAccountChargeCapOverride (max : Nat) : Except Error (State A H B) := do
  ensureRoot origin
  .ok (depositEvent {s with maxAccountChargeCapOverride:=max} (.maxAccountChargeCapOverrideUpdated max))

def asUsize (n : Nat) : Nat := n % 2 ^ cfg.usizeBits

def affordableBy (remaining perAccount : Nat) : Nat :=
  if perAccount = 0 then maxOf cfg.usizeBits else asUsize cfg (remaining / perAccount)

def accountsAffordable (limit consumed perAccount : Weight) : Nat :=
  min (affordableBy cfg (limit.refTime - consumed.refTime) perAccount.refTime)
    (affordableBy cfg (limit.proofSize - consumed.proofSize) perAccount.proofSize)

structure UsagePruning (A H : Type) where
  records : StorageMap (Nat × A) (ComputeUsageRecord H)
  since : Nat
  consumed : Weight

def maxPeriodsPerRun : Nat := 24

-- Up to a number of periods, each cleared as far as the weight allows; one that is not
-- cleared is where the next run resumes.
def prunePeriods (limit : Weight) (cutoff last : Nat) : Nat → UsagePruning A H → UsagePruning A H
  | 0, p => p
  | turns + 1, p =>
    if cutoff ≤ p.since ∨ last < p.since then p else
    match Weight.tryConsume limit p.consumed (access cfg.market 1 0) with
    | none => p
    | some consumed =>
      let perKey := access cfg.market 1 1
      let affordable := accountsAffordable cfg limit consumed perKey
      if affordable = 0 then ⟨p.records,p.since,consumed⟩ else
      let removed := p.records.clearPrefix cfg.market.accountRank p.since (min affordable (maxOf 32))
      let consumed := consumed.add (perKey.mul removed.2.1)
      if removed.2.2 = true then ⟨removed.1,p.since,consumed⟩ else
      prunePeriods limit cutoff last turns ⟨removed.1,saturatingAdd 64 p.since 1,consumed⟩

def pruneComputeUsage (limit : Weight) : State A H B × Weight :=
  match Weight.tryConsume limit ⟨0,0⟩ (access cfg.market 3 1) with
  | none => (s,⟨0,0⟩)
  | some consumed =>
    match s.computeUsagePruneFrom with
    | none => (s,consumed)
    | some since =>
      let cutoff := currentComputePeriod s - cfg.computeUsageRetention
      let last := s.lastComputeBillingPeriod.getD 0
      let p := prunePeriods cfg limit cutoff last maxPeriodsPerRun ⟨s.computeUsageCharged,since,consumed⟩
      ({s with
          computeUsageCharged:=p.records
          computeUsagePruneFrom:=if last < p.since then none else some p.since},
        p.consumed)

def onIdle (remainingWeight : Weight) : State A H B :=
  let (s,used) := pruneComputeUsage cfg s remainingWeight
  let left := ⟨remainingWeight.refTime - used.refTime,remainingWeight.proofSize - used.proofSize⟩
  {s with market:=pruneSpentUserBatches cfg.market s.market left}

end

-- The clock only moves forward. Every other call of the pallet over the credits and
-- batches may come between the usage calls.
inductive Call (A H B : Type) where
  | submitComputeUsage (origin : Origin A) (period : Word 64) (rows : List (A × Word 128 × H))
  | submitUsageV2 (origin : Origin A) (period : Word 64) (rows : List (UsageRowV2 A H))
  | settleComputeArrears (origin : Origin A) (accounts : List A)
  | setComputeBillingAuthorities (origin : Origin A) (authorities : List A)
  | setComputeChargeCaps (origin : Origin A) (perAccountPerPeriod perCall : Word 128)
  | setFeeKindCaps (origin : Origin A) (kind : UsageKind) (cap : Option FeeCap)
  | setAccountChargeCap (origin : Origin A) (who : A) (cap : Option (Word 128))
  | setChargeCapAdmins (origin : Origin A) (admins : List A)
  | setMaxAccountChargeCapOverride (origin : Origin A) (max : Word 128)
  | onIdle (remainingWeight : Weight)
  | advanceClock (ms : Nat)
  | market (call : Marketplace.Call A B)

section
variable {A H B : Type} [DecidableEq A] [DecidableEq H]

def dispatch (cfg : Config A B) (s : State A H B) :
    Call A H B → Except Error (State A H B)
  | .submitComputeUsage origin period rows => submitComputeUsage cfg s origin period rows
  | .submitUsageV2 origin period rows => submitUsageV2 cfg s origin period rows
  | .settleComputeArrears origin accounts => settleComputeArrears cfg s origin accounts
  | .setComputeBillingAuthorities origin authorities => setComputeBillingAuthorities cfg s origin authorities
  | .setComputeChargeCaps origin perAccountPerPeriod perCall => setComputeChargeCaps s origin perAccountPerPeriod perCall
  | .setFeeKindCaps origin kind cap => setFeeKindCaps s origin kind cap
  | .setAccountChargeCap origin who cap => setAccountChargeCap s origin who cap
  | .setChargeCapAdmins origin admins => setChargeCapAdmins cfg s origin admins
  | .setMaxAccountChargeCapOverride origin max => setMaxAccountChargeCapOverride s origin max
  | .onIdle remainingWeight => .ok (onIdle cfg s remainingWeight)
  | .advanceClock ms => .ok {s with nowMs:=s.nowMs + ms}
  | .market call => .ok {s with market:=Marketplace.step cfg.market s.market call}

def step (cfg : Config A B) (s : State A H B) (call : Call A H B) :
    State A H B := commit s (dispatch cfg s call)

end
end TheBrain.Marketplace.Usage
