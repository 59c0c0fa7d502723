import TheBrain.HippiusTypes.AuditVm
import TheBrain.HippiusTypes.LiveAttestation
import TheBrain.Runtime

namespace TheBrain.ComputeScoring
open Library Machine Words HippiusTypes Function

inductive MinerStatus where
  | active | quarantined | decommissioned
  deriving DecidableEq, Repr

structure MinerStatusEntry where
  status : MinerStatus
  lastTransitionBlock : Nat
  lastTransitionEpoch : Word 64
  deriving DecidableEq

structure MinerStatusUpdate (H : Type) where
  nodeId : H
  newStatus : MinerStatus
  weight : Word 128

inductive ChildStatus where
  | active | unbonding
  deriving DecidableEq, Repr

structure ChildRegistration (A H : Type) where
  family : A
  nodeId : H
  status : ChildStatus
  deposit : Nat
  unbondingEnd : Nat

structure AggregateView (H : Type) extends ServedDeliveryAggregate H where
  servedUnits : Word 128

structure SignedWire where
  body : List UInt8
  sig : List UInt8

structure LiveAttestationView (H : Type) where
  chainGenesis : H
  palletInstance : H
  vmId : List UInt8
  nodeId : H
  attestationSeq : Word 64
  epoch : Word 64
  observedAtUnix : Word 64
  verifiedAtUnix : Word 64
  prevAttestationHash : H
  expiryUnix : Word 64
  signerPubkey : H

structure LiveAttestationRecord (H : Type) where
  nodeId : H
  attestationSeq : Word 64
  bodyHash : H
  epoch : Word 64
  observedAtUnix : Word 64

inductive SlashReason where
  | liveness | sla | stakeDeficiency | manual
  deriving DecidableEq, Repr

structure PriceChange where
  newPrice : Word 128
  effectiveBlock : Nat
  deriving DecidableEq

-- DEPOSIT_RESERVE_ID and STAKE_RESERVE_ID.
inductive ReserveId where
  | deposit | stake
  deriving DecidableEq, Repr

inductive Event (A H : Type) where
  | childRegistered (family child : A) (nodeId : H) (deposit : Nat)
  | childDeregistered (family child : A) (nodeId : H) (unbondingEnd cooldownEnd : Nat)
  | childUnbonded (family child : A) (nodeId : H) (amount : Nat)
  | lockupEnabledSet (enabled : Bool)
  | valiSubmitterSet (who : Option A)
  | baseChildDepositSet (deposit : Nat)
  | freeChildSlotsPerFamilySet (slots : Nat)
  | auditStatsSubmitted (nodeId : H) (epoch servedUnits : Nat) (bodyHash : H)
  | auditVmPubkeySet (nodeId pubkey : H)
  | minerStatusChanged (nodeId : H) (oldStatus newStatus : MinerStatus) (epoch : Nat)
  | terminalStatusChangeRejected (nodeId : H) (attempted : MinerStatus) (epoch : Nat)
  | epochClosed (epoch updates : Nat)
  | epochHistoryPruneBacklog (watermark horizon : Nat)
  | kbsAttestationPubkeyAdded (pubkey : H)
  | kbsAttestationPubkeyRemoved (pubkey : H)
  | liveAttestationSubmitted (vmIdHash nodeId : H) (epoch attestationSeq : Nat) (bodyHash : H)
  | stakeEnabledSet (enabled : Bool)
  | stakeUsdPerChildSet (usd : Nat)
  | oracleGuardsSet (maxDeviationPermille maxAgeBlocks : Nat)
  | alphaPerUsdUpdated (spot ema : Nat)
  | stakeFloorSet (floor : Nat)
  | emaPermilleSet (down up : Nat)
  | stakeToppedUp (who : A) (amount total : Nat)
  | stakeUnbondRequested (who : A) (amount unbondingEnd : Nat)
  | ownerQuarantinedOnUnstake (who : A) (nodes : Nat)
  | stakeReleased (who : A) (amount : Nat)
  | slashingEnabledSet (enabled : Bool)
  | slashBeneficiarySet (beneficiary : Option A)
  | slashed (owner : A) (amount : Nat) (reason : SlashReason)
  | slashSkippedDisabled (owner : A) (amount : Nat) (reason : SlashReason)
  | priceChangeAnnounced (nodeId : H) (oldPrice : Option (Word 128)) (newPrice : Word 128) (effectiveBlock : Nat)
  | pendingPriceDiscarded (nodeId : H) (newPrice : Word 128)
  | priceChangeApplied (nodeId : H) (newPrice : Word 128)
  | priceBoundsSet (floor : Nat) (ceiling : Option (Word 128))
  | priceChangePolicySet (minInterval notice maxNumer maxDenom : Nat)
  deriving DecidableEq

-- malformedCall stands for arguments that do not decode within their bounds.
inductive Error where
  | badOrigin | malformedCall
  | familyNotRegistered | proxyVerificationFailed | tooManyFamilies | tooManyChildrenTotal | tooManyChildrenInFamily
  | childAlreadyRegistered | childNotRegistered | childInCooldown | nodeIdAlreadyRegistered | nodeIdInCooldown
  | invalidNodeSignature | childNotActive | notUnbonding | unbondingNotReady | insufficientDeposit | partialUnreserve
  | freeChildSlotsPerFamilyTooLarge | nodeNotRegistered | notAValidator
  | aggregateChainGenesisMismatch | aggregatePalletInstanceMismatch | aggregateEpochMismatch | aggregatePrevHashMismatch
  | aggregateExpired | aggregateIntervalInverted | auditVmPubkeyNotRegistered | invalidAggregateSignature
  | emptyAggregateBody | aggregateBodyViewMismatch
  | epochRegression | epochWeightTooLarge | duplicateNodeInBatch
  | emptyLiveAttestationBody | liveAttestationChainGenesisMismatch | liveAttestationPalletInstanceMismatch
  | liveAttestationEpochMismatch | liveAttestationExpired | liveAttestationWindowInverted | liveAttestationSeqMismatch
  | liveAttestationPrevHashMismatch | liveAttestationKbsNotAllowed | invalidLiveAttestationSignature
  | malformedLiveAttestationBody | liveAttestationBodyViewMismatch | kbsAttestationPubkeyAlreadyAllowed
  | kbsAttestationPubkeyNotAllowed | kbsAttestationPubkeysFull
  | invalidPrice | oracleDeviationTooLarge | insufficientStakeForRegistration | invalidEmaFactor | zeroStake
  | insufficientBalanceForStake | insufficientStake | noStakeUnbonding
  | notNodeOperator | priceOutOfBounds | priceChangeTooLarge | priceBoundsNotConfigured | priceChangeTooSoon
  | invalidPricePolicy | noPriceChangeDue
  deriving DecidableEq, Repr

-- The constants of the runtime, the hashes and signatures of the host and, over an
-- opaque world, what other pallets answer and do.
structure Config (A H W : Type) extends Digest H where
  isAdmin : Origin A → Bool
  isAuditAuthority : Origin A → Bool
  maxFamilies : Nat
  maxChildrenTotal : Nat
  maxChildrenPerFamily : Nat
  baseChildDeposit : Nat
  globalDepositHalvingPeriodBlocks : Nat
  unregisterCooldownBlocks : Nat
  unbondingPeriodBlocks : Nat
  maxAggregateBody : Word 32
  maxValidatorIdLen : Word 32
  maxFamilyIdLen : Word 32
  maxAuditVmKeyIdLen : Word 32
  computePalletInstance : H
  computeChainGenesis : H
  maxMinerStatusUpdatesPerCall : Word 32
  maxEpochPruneKeysPerCall : Word 32
  maxLiveAttestationBody : Word 32
  maxVmIdLen : Word 32
  maxKbsAttestationPubkeys : Nat
  encodeAccount : A → List UInt8
  sha2256 : List UInt8 → H
  blake2256 : List UInt8 → H
  ed25519Verify : H → List UInt8 → List UInt8 → Bool
  hashRank : H → Nat
  isRegisteredFamily : W → A → Bool
  ownerHasValidatorNode : W → A → Bool
  canRegisterChild : W → A → A → Bool
  isNodeRegistered : W → H → Bool
  pushRankings : W → Word 64 → List (H × Word 128) → W
  reserveNamed : W → ReserveId → A → Nat → Option W
  unreserveNamed : W → ReserveId → A → Nat → W × Nat
  slashReservedNamed : W → ReserveId → A → Nat → W × Nat
  repatriateReservedNamed : W → ReserveId → A → A → Nat → Option (W × Nat)

structure Epochs (H : Type) where
  currentEpoch : Word 64
  minerStatuses : H → Option MinerStatusEntry
  epochWeights : StorageMap (Word 64 × H) (Word 128)
  maxEpochWeightPerNode : Word 128
  epochCloseBlock : Word 64 → Option Nat
  epochHistoryRetention : Nat
  epochPruneWatermark : Word 64

structure Audits (H : Type) where
  auditVmPubkeyByNode : H → Option H
  lastAggregateHashByNode : H → Option H

structure Attestations (H : Type) where
  kbsAttestationPubkeys : List H
  lastLiveAttestation : H → Option (LiveAttestationRecord H)
  liveAttestationCount : StorageMap (Word 64 × H) (Word 32)

structure Registry (A H : Type) where
  lockupEnabled : Bool
  baseChildDepositValue : Option Nat
  familyCount : Nat
  familyUsedFreeSlot : A → Bool
  familyFreeSlotsUsed : A → Option Nat
  freeChildSlotsPerFamily : Option Nat
  totalActiveChildren : Nat
  globalNextDeposit : Nat
  globalLastPaidRegistrationBlock : Nat
  childRegistrations : StorageMap A (ChildRegistration A H)
  nodeIdToChild : H → Option A
  nodeIdNonce : H → Nat
  childCooldownUntil : A → Nat
  nodeIdCooldownUntil : H → Nat
  familyChildren : A → List A

structure Stakes (A : Type) where
  stakeEnabled : Bool
  alphaPerUsdSpot : Nat
  alphaPerUsdEma : Nat
  alphaPerUsdLastPostBlock : Option Nat
  emaDownPermille : Nat
  emaUpPermille : Nat
  maxOracleDeviationPermille : Nat
  maxOracleAgeBlocks : Nat
  stakeUsdPerChild : Nat
  stakeFloor : Nat
  stakedAmount : A → Nat
  stakeUnbonding : A → Option (Nat × Nat)
  slashingEnabled : Bool
  slashBeneficiary : Option A
  slashRecord : A → Nat

structure Prices (H : Type) where
  minerPrice : H → Option (Word 128)
  pendingPriceChange : H → Option PriceChange
  lastPriceChangeBlock : H → Nat
  priceMagnitudeAnchor : H → Option (Word 128)
  priceFloor : Word 128
  priceCeiling : Option (Word 128)
  priceChangeNoticeBlocks : Nat
  minPriceChangeIntervalBlocks : Nat
  maxPriceChangeNumer : Word 32
  maxPriceChangeDenom : Word 32

structure State (A H W : Type) where
  blockNumber : Nat
  nowUnix : Nat
  world : W
  valiSubmitter : Option A
  epochs : Epochs H
  audits : Audits H
  attestations : Attestations H
  registry : Registry A H
  stakes : Stakes A
  prices : Prices H
  events : List (Event A H)

def genesis (world : W) : State A H W where
  blockNumber := 0
  nowUnix := 0
  world := world
  valiSubmitter := none
  epochs := {
    currentEpoch:=0,minerStatuses:=fun _ => none,epochWeights:=∅,maxEpochWeightPerNode:=18446744073709551615
    epochCloseBlock:=fun _ => none,epochHistoryRetention:=64,epochPruneWatermark:=0}
  audits := {auditVmPubkeyByNode:=fun _ => none,lastAggregateHashByNode:=fun _ => none}
  attestations := {kbsAttestationPubkeys:=[],lastLiveAttestation:=fun _ => none,liveAttestationCount:=∅}
  registry := {
    lockupEnabled:=false,baseChildDepositValue:=none,familyCount:=0,familyUsedFreeSlot:=fun _ => false
    familyFreeSlotsUsed:=fun _ => none,freeChildSlotsPerFamily:=none,totalActiveChildren:=0,globalNextDeposit:=0
    globalLastPaidRegistrationBlock:=0,childRegistrations:=∅,nodeIdToChild:=fun _ => none,nodeIdNonce:=fun _ => 0
    childCooldownUntil:=fun _ => 0,nodeIdCooldownUntil:=fun _ => 0,familyChildren:=fun _ => []}
  stakes := {
    stakeEnabled:=false,alphaPerUsdSpot:=0,alphaPerUsdEma:=0,alphaPerUsdLastPostBlock:=none,emaDownPermille:=300
    emaUpPermille:=50,maxOracleDeviationPermille:=500,maxOracleAgeBlocks:=28800,stakeUsdPerChild:=0,stakeFloor:=0
    stakedAmount:=fun _ => 0,stakeUnbonding:=fun _ => none,slashingEnabled:=false,slashBeneficiary:=none
    slashRecord:=fun _ => 0}
  prices := {
    minerPrice:=fun _ => none,pendingPriceChange:=fun _ => none,lastPriceChangeBlock:=fun _ => 0
    priceMagnitudeAnchor:=fun _ => none,priceFloor:=0,priceCeiling:=none,priceChangeNoticeBlocks:=14400
    minPriceChangeIntervalBlocks:=7200,maxPriceChangeNumer:=3,maxPriceChangeDenom:=2}
  events := []

section
variable {A H W : Type} [DecidableEq A] [DecidableEq H]
variable (cfg : Config A H W) (s : State A H W)

def depositEvent (e : Event A H) : State A H W :=
  {s with events:=s.events ++ [e]}

def statusOf (nodeId : H) : MinerStatus :=
  (s.epochs.minerStatuses nodeId).elim .active MinerStatusEntry.status

def recordStatus (nodeId : H) (entry : Option MinerStatusEntry) : State A H W :=
  {s with epochs:={s.epochs with minerStatuses:=update s.epochs.minerStatuses nodeId entry}}

-- A node back to Active loses its row; a Decommissioned one never changes again.
def transitionNodeStatus (nodeId : H) (newStatus : MinerStatus) (now : Nat) (epoch : Word 64) : State A H W × Bool :=
  let prevStatus := statusOf s nodeId
  if prevStatus = newStatus then (s,false)
  else if prevStatus = .decommissioned then (depositEvent s (.terminalStatusChangeRejected nodeId newStatus epoch),false)
  else
    let s := recordStatus s nodeId (if newStatus = .active then none else some ⟨newStatus,now,epoch⟩)
    (depositEvent s (.minerStatusChanged nodeId prevStatus newStatus epoch),true)

-- Additions outside the saturating ones wrap at 128 bits.
def stepToward (delta perm : Nat) : Nat :=
  if delta = 0 ∨ perm = 0 then 0
  else max (wrappingAdd 128 (saturatingMul 128 (delta / 1000) perm) (saturatingMul 128 (delta % 1000) perm / 1000)) 1

def emaStep (stakes : Stakes A) (spot ema : Nat) : Nat :=
  if ema = 0 then spot
  else if ema ≤ spot then saturatingAdd 128 ema (stepToward (spot - ema) stakes.emaDownPermille)
  else ema - stepToward (ema - spot) stakes.emaUpPermille

def requiredAlpha (valueAtRiskUsd : Nat) : Nat :=
  match checkedMul 128 valueAtRiskUsd s.stakes.alphaPerUsdEma with
  | some product => (product + 999999) / 1000000
  | none => maxOf 128

def isStakeSufficient (owner : A) (required : Nat) : Bool :=
  if s.stakes.stakeEnabled = false then true
  else if s.stakes.alphaPerUsdEma = 0 then false
  else match s.stakes.alphaPerUsdLastPostBlock with
    | none => false
    | some postedAt =>
      if s.stakes.maxOracleAgeBlocks < s.blockNumber - postedAt then false
      else max required s.stakes.stakeFloor ≤ s.stakes.stakedAmount owner

def takeStake (owner : A) (amount : Nat) : W × Nat :=
  match s.stakes.slashBeneficiary with
  | some beneficiary =>
    let repatriation := (cfg.repatriateReservedNamed s.world .stake owner beneficiary amount).getD (s.world,amount)
    let repatriated := amount - repatriation.2
    let burn := cfg.slashReservedNamed repatriation.1 .stake owner repatriation.2
    (burn.1,saturatingAdd 128 repatriated (repatriation.2 - burn.2))
  | none =>
    let burn := cfg.slashReservedNamed s.world .stake owner amount
    (burn.1,amount - burn.2)

def unbondingOf (owner : A) : Nat := (s.stakes.stakeUnbonding owner).elim 0 Prod.fst

def doSlash (owner : A) (requested : Nat) (reason : SlashReason) : State A H W :=
  if s.stakes.slashingEnabled = false then depositEvent s (.slashSkippedDisabled owner requested reason) else
  let active := s.stakes.stakedAmount owner
  let amount := min requested (saturatingAdd 128 active (unbondingOf s owner))
  if amount = 0 then s else
  let taken := takeStake cfg s owner amount
  let slashed := taken.2
  if slashed = 0 then {s with world:=taken.1} else
  let fromActive := min slashed active
  let fromUnbond := slashed - fromActive
  let unbonding := if fromUnbond = 0 then s.stakes.stakeUnbonding owner else
    (s.stakes.stakeUnbonding owner).bind fun chunk => if chunk.1 - fromUnbond = 0 then none else some (chunk.1 - fromUnbond,chunk.2)
  depositEvent {s with
      world:=taken.1
      stakes:={s.stakes with
        stakedAmount:=update s.stakes.stakedAmount owner (active - fromActive)
        stakeUnbonding:=update s.stakes.stakeUnbonding owner unbonding
        slashRecord:=update s.stakes.slashRecord owner (saturatingAdd 128 (s.stakes.slashRecord owner) slashed)}}
    (.slashed owner slashed reason)

def withinPriceBounds (prices : Prices H) (price : Word 128) : Bool :=
  if price < prices.priceFloor then false else prices.priceCeiling.all fun ceiling => price ≤ ceiling

-- A due change counts as the price before it is applied.
def effectivePrice (nodeId : H) : Option (Word 128) :=
  match s.prices.pendingPriceChange nodeId with
  | some pending =>
    if pending.effectiveBlock ≤ s.blockNumber ∧ withinPriceBounds s.prices pending.newPrice = true then some pending.newPrice
    else s.prices.minerPrice nodeId
  | none => s.prices.minerPrice nodeId

def withinPriceMagnitude (prices : Prices H) (current newPrice : Word 128) : Bool :=
  let numer := prices.maxPriceChangeNumer.val
  let denom := prices.maxPriceChangeDenom.val
  if numer = 0 ∨ denom = 0 then false else
  let upper := match checkedMul 128 current numer with
    | some product => product / denom
    | none => maxOf 128
  let lower := match checkedMul 128 current denom with
    | some product => product / numer
    | none => saturatingMul 128 (current / numer) denom
  newPrice.val ≤ upper ∧ lower ≤ newPrice.val

-- Reading the base deposit stores its default.
def baseChildDeposit : State A H W × Nat :=
  match s.registry.baseChildDepositValue with
  | some deposit => (s,deposit)
  | none => ({s with registry:={s.registry with baseChildDepositValue:=some cfg.baseChildDeposit}},cfg.baseChildDeposit)

def ensureValiSubmitter (origin : Origin A) : Except Error Unit :=
  ensure ((origin.signer.isSome = true ∧ s.valiSubmitter = origin.signer) ∨ cfg.isAuditAuthority origin = true) .badOrigin

def freeChildSlotsPerFamily : Nat := s.registry.freeChildSlotsPerFamily.getD 1

def familyFreeSlotsUsed (family : A) : Nat :=
  match s.registry.familyFreeSlotsUsed family with
  | some used => used
  | none => if s.registry.familyUsedFreeSlot family then 1 else 0

def setGlobalNextDeposit (deposit : Nat) : State A H W :=
  {s with registry:={s.registry with globalNextDeposit:=deposit}}

def globalNextDepositFloorInit : State A H W × Nat :=
  let base := baseChildDeposit cfg s
  let cur := base.1.registry.globalNextDeposit
  if cur = 0 ∨ cur < base.2 then (setGlobalNextDeposit base.1 base.2,base.2) else (base.1,cur)

def halve (base : Nat) : Nat → Nat → Nat
  | 0, next => next
  | periods + 1, next => if next / 2 < base then base else halve base periods (next / 2)

def maxHalvingSteps : Nat := 128

def applyLazyGlobalHalving : State A H W × Nat :=
  let base := baseChildDeposit cfg s
  let next := globalNextDepositFloorInit cfg base.1
  let period := cfg.globalDepositHalvingPeriodBlocks
  if period = 0 then next else
  let elapsed := next.1.blockNumber - next.1.registry.globalLastPaidRegistrationBlock
  let periods := min (elapsed / period) (maxOf 32)
  let halved := halve base.2 (min periods maxHalvingSteps) next.2
  (setGlobalNextDeposit next.1 halved,halved)

def registrationMessage (family child : A) (nodeId : H) (nonce : Nat) : List UInt8 :=
  ascii "HIPPIUS_COMPUTE_NODE_REG_V1" ++ cfg.encodeAccount family ++ cfg.encodeAccount child ++ cfg.bytes nodeId ++ leBytes 8 nonce

def verifyNodeSig (nodeId : H) (message sig : List UInt8) : Bool := cfg.ed25519Verify nodeId message sig

def cleanupFamilyWhenNoActiveChildren (family : A) : State A H W :=
  if s.registry.familyChildren family ≠ [] then s else
  {s with registry:={s.registry with
    familyChildren:=update s.registry.familyChildren family []
    familyCount:=s.registry.familyCount - 1}}

def epochWeightsFor (epoch : Word 64) : List (H × Word 128) :=
  (s.epochs.epochWeights.iter fun key => cfg.hashRank key.2).filterMap fun entry =>
    if entry.1.1 = epoch then some (entry.1.2,entry.2) else none

structure Sweep (A H W : Type) where
  state : State A H W
  watermark : Word 64
  spent : Nat

-- Each turn spends at least one unit of the budget, which is also the loop's fuel.
def sweepLoop (horizon : Nat) : Nat → Sweep A H W → Sweep A H W
  | 0, p => p
  | fuel + 1, p =>
    let budget := cfg.maxEpochPruneKeysPerCall.val
    if p.watermark.val < horizon ∧ p.spent < budget then
      let s := p.state
      let weights := s.epochs.epochWeights.clearPrefix cfg.hashRank p.watermark (budget - p.spent)
      let s := {s with epochs:={s.epochs with epochWeights:=weights.1}}
      let spent := saturatingAdd 32 p.spent weights.2.1
      if weights.2.2 = true ∨ budget ≤ spent then ⟨s,p.watermark,spent⟩ else
      let counts := s.attestations.liveAttestationCount.clearPrefix cfg.hashRank p.watermark (budget - spent)
      let s := {s with attestations:={s.attestations with liveAttestationCount:=counts.1}}
      let spent := saturatingAdd 32 spent counts.2.1
      if counts.2.2 = true then ⟨s,p.watermark,spent⟩ else
      let s := {s with epochs:={s.epochs with epochCloseBlock:=update s.epochs.epochCloseBlock p.watermark none}}
      sweepLoop horizon fuel ⟨s,addSaturating p.watermark 1,saturatingAdd 32 spent 1⟩
    else p

def sweepEpochHistory (closedEpoch : Word 64) : State A H W :=
  let horizon := closedEpoch.val - s.epochs.epochHistoryRetention
  let budget := cfg.maxEpochPruneKeysPerCall.val
  if budget = 0 then s else
  let swept := sweepLoop cfg horizon budget ⟨s,s.epochs.epochPruneWatermark,0⟩
  let s := {swept.state with epochs:={swept.state.epochs with epochPruneWatermark:=swept.watermark}}
  if swept.watermark.val < horizon then depositEvent s (.epochHistoryPruneBacklog swept.watermark horizon) else s

end
end TheBrain.ComputeScoring
