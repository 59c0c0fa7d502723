import TheBrain.ComputeScoring.Pallet

namespace TheBrain.ComputeScoring
open Library Machine Words HippiusTypes Function

section
variable {A H W : Type} [DecidableEq A] [DecidableEq H]
variable (cfg : Config A H W) (s : State A H W) (origin : Origin A)

def ensureAdmin : Except Error Unit := ensure (cfg.isAdmin origin = true) .badOrigin

def familyChildCount (family : A) : Nat := (s.registry.familyChildren family).length

def admitChild (family child : A) (nodeId : H) (nodeSig : List UInt8) : Except Error Unit := do
  let who ← okOr origin.signer .badOrigin
  ensure (who = family) .badOrigin
  ensure (cfg.isRegisteredFamily s.world family = true) .familyNotRegistered
  ensure (cfg.canRegisterChild s.world family child = true) .proxyVerificationFailed
  ensure (s.registry.childCooldownUntil child ≤ s.blockNumber) .childInCooldown
  ensure (s.registry.nodeIdCooldownUntil nodeId ≤ s.blockNumber) .nodeIdInCooldown
  ensure (s.registry.childRegistrations.lookup child).isNone .childAlreadyRegistered
  ensure (s.registry.nodeIdToChild nodeId = none) .nodeIdAlreadyRegistered
  ensure (s.registry.totalActiveChildren < cfg.maxChildrenTotal) .tooManyChildrenTotal
  ensure (familyChildCount s family < cfg.maxChildrenPerFamily) .tooManyChildrenInFamily
  let valueAtRisk := saturatingMul 128 s.stakes.stakeUsdPerChild (familyChildCount s family + 1)
  ensure (isStakeSufficient s family (requiredAlpha s valueAtRisk) = true) .insufficientStakeForRegistration
  ensure (familyChildCount s family ≠ 0 ∨ s.registry.familyCount < cfg.maxFamilies) .tooManyFamilies
  ensure (verifyNodeSig cfg nodeId (registrationMessage cfg family child nodeId (s.registry.nodeIdNonce nodeId)) nodeSig = true)
    .invalidNodeSignature

def depositDue (family : A) : State A H W × Nat :=
  if s.registry.lockupEnabled = false ∨ familyFreeSlotsUsed s family < freeChildSlotsPerFamily s then (s,0)
  else applyLazyGlobalHalving cfg s

def takeDeposit (family : A) : Except Error (State A H W × Nat) := do
  let priced := depositDue cfg s family
  if priced.2 = 0 then .ok priced else
  let world ← okOr (cfg.reserveNamed priced.1.world .deposit family priced.2) .insufficientDeposit
  .ok ({priced.1 with world:=world},priced.2)

def enrol (family child : A) (nodeId : H) (deposit : Nat) : State A H W :=
  {s with registry:={s.registry with
    childRegistrations:=s.registry.childRegistrations.insert child ⟨family,nodeId,.active,deposit,s.blockNumber⟩
    nodeIdToChild:=update s.registry.nodeIdToChild nodeId (some child)
    nodeIdNonce:=update s.registry.nodeIdNonce nodeId (saturatingAdd 64 (s.registry.nodeIdNonce nodeId) 1)
    totalActiveChildren:=saturatingAdd 32 s.registry.totalActiveChildren 1
    familyCount:=if familyChildCount s family = 0 then saturatingAdd 32 s.registry.familyCount 1 else s.registry.familyCount
    familyChildren:=update s.registry.familyChildren family (s.registry.familyChildren family ++ [child])}}

def chargeSlot (family : A) : State A H W :=
  if familyFreeSlotsUsed s family < freeChildSlotsPerFamily s then
    {s with registry:={s.registry with
      familyFreeSlotsUsed:=update s.registry.familyFreeSlotsUsed family (some (saturatingAdd 32 (familyFreeSlotsUsed s family) 1))
      familyUsedFreeSlot:=update s.registry.familyUsedFreeSlot family true}}
  else if s.registry.lockupEnabled then
    let next := globalNextDepositFloorInit cfg s
    {next.1 with registry:={next.1.registry with
      globalNextDeposit:=saturatingAdd 128 next.2 next.2
      globalLastPaidRegistrationBlock:=s.blockNumber}}
  else s

def registerChild (family child : A) (nodeId : H) (nodeSig : List UInt8) : Except Error (State A H W) := do
  admitChild cfg s origin family child nodeId nodeSig
  let deposited ← takeDeposit cfg s family
  let enrolled := enrol deposited.1 family child nodeId deposited.2
  .ok (depositEvent (chargeSlot cfg enrolled family) (.childRegistered family child nodeId deposited.2))

-- The node's prices, keys and status go; its last price stays as the anchor.
def retirePrice (nodeId : H) : State A H W :=
  {s with prices:={s.prices with
    priceMagnitudeAnchor:=update s.prices.priceMagnitudeAnchor nodeId
      ((effectivePrice s nodeId).or (s.prices.priceMagnitudeAnchor nodeId))
    minerPrice:=update s.prices.minerPrice nodeId none
    pendingPriceChange:=update s.prices.pendingPriceChange nodeId none}}

def forgetAudits (nodeId : H) : State A H W :=
  {s with audits:={
    auditVmPubkeyByNode:=update s.audits.auditVmPubkeyByNode nodeId none
    lastAggregateHashByNode:=update s.audits.lastAggregateHashByNode nodeId none}}

def forgetStatus (nodeId : H) : State A H W :=
  if statusOf s nodeId = .decommissioned then s else recordStatus s nodeId none

-- Vec::swap_remove: the last element takes the place of the removed one.
def swapRemove [DecidableEq α] (l : List α) (a : α) : List α :=
  if a ∈ l then
    match l.getLast? with
    | none => l
    | some last => if last = a then l.dropLast else l.dropLast.replace a last
  else l

def leaveFamily (family child : A) : State A H W :=
  let s := {s with registry:={s.registry with
    totalActiveChildren:=s.registry.totalActiveChildren - 1
    familyChildren:=update s.registry.familyChildren family (swapRemove (s.registry.familyChildren family) child)}}
  if familyChildCount s family = 0 then cleanupFamilyWhenNoActiveChildren s family else s

def unbond (child : A) (reg : ChildRegistration A H) (unbondingEnd cooldownEnd : Nat) : State A H W :=
  {s with registry:={s.registry with
    nodeIdToChild:=update s.registry.nodeIdToChild reg.nodeId none
    childCooldownUntil:=update s.registry.childCooldownUntil child cooldownEnd
    nodeIdCooldownUntil:=update s.registry.nodeIdCooldownUntil reg.nodeId cooldownEnd
    childRegistrations:=s.registry.childRegistrations.insert child {reg with status:=.unbonding,unbondingEnd:=unbondingEnd}
    nodeIdNonce:=update s.registry.nodeIdNonce reg.nodeId (saturatingAdd 64 (s.registry.nodeIdNonce reg.nodeId) 1)}}

def unbondingEndOf (reg : ChildRegistration A H) : Nat :=
  if s.registry.lockupEnabled = false ∨ reg.deposit = 0 then s.blockNumber else saturatingAdd 64 s.blockNumber cfg.unbondingPeriodBlocks

def doDeregisterChild (actor child : A) (force : Bool) : Except Error (State A H W) := do
  let reg ← okOr (s.registry.childRegistrations.lookup child) .childNotRegistered
  ensure (force = true ∨ actor = reg.family) .badOrigin
  ensure (reg.status = .active) .childNotActive
  let unbondingEnd := unbondingEndOf cfg s reg
  let cooldownEnd := saturatingAdd 64 s.blockNumber cfg.unregisterCooldownBlocks
  let cleared := forgetStatus (forgetAudits (retirePrice s reg.nodeId) reg.nodeId) reg.nodeId
  let left := unbond (leaveFamily cleared reg.family child) child reg unbondingEnd cooldownEnd
  .ok (depositEvent left (.childDeregistered reg.family child reg.nodeId unbondingEnd cooldownEnd))

def deregisterChild (child : A) : Except Error (State A H W) := do
  let who ← okOr origin.signer .badOrigin
  doDeregisterChild cfg s who child false

def forceDeregisterChild (child : A) : Except Error (State A H W) := do
  let who ← okOr origin.signer .badOrigin
  ensure (cfg.isRegisteredFamily s.world who = true) .nodeNotRegistered
  ensure (cfg.ownerHasValidatorNode s.world who = true) .notAValidator
  doDeregisterChild cfg s who child true

def releaseDeposit (reg : ChildRegistration A H) : Except Error W :=
  if reg.deposit = 0 then .ok s.world else
  let released := cfg.unreserveNamed s.world .deposit reg.family reg.deposit
  if released.2 = 0 then .ok released.1 else .error .partialUnreserve

def claimUnbonded (child : A) : Except Error (State A H W) := do
  let who ← okOr origin.signer .badOrigin
  let reg ← okOr (s.registry.childRegistrations.lookup child) .childNotRegistered
  ensure (who = reg.family) .badOrigin
  ensure (reg.status = .unbonding) .notUnbonding
  ensure (reg.unbondingEnd ≤ s.blockNumber) .unbondingNotReady
  let world ← releaseDeposit cfg s reg
  .ok (depositEvent {s with
      world:=world
      registry:={s.registry with childRegistrations:=s.registry.childRegistrations.erase child}}
    (.childUnbonded reg.family child reg.nodeId reg.deposit))

def aggregateBounded (view : AggregateView H) (signed : SignedWire) : Prop :=
  view.validatorId.length ≤ cfg.maxValidatorIdLen ∧ view.familyId.length ≤ cfg.maxFamilyIdLen ∧
    view.auditVmKeyId.length ≤ cfg.maxAuditVmKeyIdLen ∧ signed.body.length ≤ cfg.maxAggregateBody

instance (view : AggregateView H) (signed : SignedWire) : Decidable (aggregateBounded cfg view signed) :=
  inferInstanceAs (Decidable (_ ∧ _ ∧ _ ∧ _))

def submitAuditStats (view : AggregateView H) (signed : SignedWire) : Except Error (State A H W) := do
  ensure (aggregateBounded cfg view signed) .malformedCall
  ensureValiSubmitter cfg s origin
  ensure (signed.body ≠ []) .emptyAggregateBody
  ensure (view.intervalStart ≤ view.intervalEnd) .aggregateIntervalInverted
  ensure (cfg.isNodeRegistered s.world view.nodeId = true) .nodeNotRegistered
  ensure (view.chainGenesis = cfg.computeChainGenesis) .aggregateChainGenesisMismatch
  ensure (view.palletInstance = cfg.computePalletInstance) .aggregatePalletInstanceMismatch
  ensure (view.epoch = s.epochs.currentEpoch) .aggregateEpochMismatch
  ensure (s.nowUnix < view.expiry.val) .aggregateExpired
  ensure (view.prevAggregateHash = (s.audits.lastAggregateHashByNode view.nodeId).getD cfg.zero) .aggregatePrevHashMismatch
  let expectedBody ← okOr (view.canonical cfg.toDigest) .aggregateBodyViewMismatch
  ensure (expectedBody = signed.body) .aggregateBodyViewMismatch
  let pubkey ← okOr (s.audits.auditVmPubkeyByNode view.nodeId) .auditVmPubkeyNotRegistered
  ensure (cfg.ed25519Verify pubkey signed.body signed.sig = true) .invalidAggregateSignature
  let bodyHash := cfg.sha2256 signed.body
  .ok (depositEvent {s with audits:={s.audits with
      lastAggregateHashByNode:=update s.audits.lastAggregateHashByNode view.nodeId (some bodyHash)}}
    (.auditStatsSubmitted view.nodeId view.epoch view.servedUnits bodyHash))

def setAuditVmPubkey (nodeId pubkey : H) : Except Error (State A H W) := do
  ensureAdmin cfg origin
  .ok (depositEvent {s with audits:={s.audits with
      auditVmPubkeyByNode:=update s.audits.auditVmPubkeyByNode nodeId (some pubkey)}}
    (.auditVmPubkeySet nodeId pubkey))

def setKbsAttestationPubkey (pubkey : H) : Except Error (State A H W) := do
  ensureAdmin cfg origin
  ensure (pubkey ∉ s.attestations.kbsAttestationPubkeys) .kbsAttestationPubkeyAlreadyAllowed
  ensure (s.attestations.kbsAttestationPubkeys.length < cfg.maxKbsAttestationPubkeys) .kbsAttestationPubkeysFull
  .ok (depositEvent {s with attestations:={s.attestations with
      kbsAttestationPubkeys:=s.attestations.kbsAttestationPubkeys ++ [pubkey]}}
    (.kbsAttestationPubkeyAdded pubkey))

def removeKbsAttestationPubkey (pubkey : H) : Except Error (State A H W) := do
  ensureAdmin cfg origin
  ensure (pubkey ∈ s.attestations.kbsAttestationPubkeys) .kbsAttestationPubkeyNotAllowed
  .ok (depositEvent {s with attestations:={s.attestations with
      kbsAttestationPubkeys:=swapRemove s.attestations.kbsAttestationPubkeys pubkey}}
    (.kbsAttestationPubkeyRemoved pubkey))

def expectedNext (vmIdHash : H) : Word 64 × H :=
  match s.attestations.lastLiveAttestation vmIdHash with
  | some last => (addSaturating last.attestationSeq 1,last.bodyHash)
  | none => (1,cfg.zero)

def boundTo (body : LiveAttestation H) (view : LiveAttestationView H) : Prop :=
  body.chainGenesis = view.chainGenesis ∧ body.palletInstance = view.palletInstance ∧ body.vmId.val = view.vmId ∧
    body.nodeId = view.nodeId ∧ body.attestationSeq = view.attestationSeq ∧ body.epoch = view.epoch ∧
    body.observedAtUnix = view.observedAtUnix ∧ body.verifiedAtUnix = view.verifiedAtUnix ∧
    body.prevAttestationHash = view.prevAttestationHash ∧ body.expiryUnix = view.expiryUnix ∧ body.signerPubkey = view.signerPubkey

instance (body : LiveAttestation H) (view : LiveAttestationView H) : Decidable (boundTo body view) :=
  inferInstanceAs (Decidable (_ ∧ _ ∧ _ ∧ _ ∧ _ ∧ _ ∧ _ ∧ _ ∧ _ ∧ _ ∧ _))

def attestationBounded (view : LiveAttestationView H) (signed : SignedWire) : Prop :=
  view.vmId.length ≤ cfg.maxVmIdLen ∧ signed.body.length ≤ cfg.maxLiveAttestationBody

instance (view : LiveAttestationView H) (signed : SignedWire) : Decidable (attestationBounded cfg view signed) :=
  inferInstanceAs (Decidable (_ ∧ _))

def countOf (epoch : Word 64) (vmIdHash : H) : Word 32 := (s.attestations.liveAttestationCount.lookup (epoch,vmIdHash)).getD 0

def submitLiveAttestation (view : LiveAttestationView H) (signed : SignedWire) : Except Error (State A H W) := do
  ensure (attestationBounded cfg view signed) .malformedCall
  ensureValiSubmitter cfg s origin
  ensure (signed.body ≠ []) .emptyLiveAttestationBody
  ensure (view.observedAtUnix ≤ view.verifiedAtUnix) .liveAttestationWindowInverted
  ensure (cfg.isNodeRegistered s.world view.nodeId = true) .nodeNotRegistered
  ensure (view.chainGenesis = cfg.computeChainGenesis) .liveAttestationChainGenesisMismatch
  ensure (view.palletInstance = cfg.computePalletInstance) .liveAttestationPalletInstanceMismatch
  ensure (view.epoch = s.epochs.currentEpoch) .liveAttestationEpochMismatch
  ensure (s.nowUnix < view.expiryUnix.val) .liveAttestationExpired
  let vmIdHash := cfg.blake2256 view.vmId
  ensure (view.attestationSeq = (expectedNext cfg s vmIdHash).1) .liveAttestationSeqMismatch
  ensure (view.prevAttestationHash = (expectedNext cfg s vmIdHash).2) .liveAttestationPrevHashMismatch
  ensure (view.signerPubkey ∈ s.attestations.kbsAttestationPubkeys) .liveAttestationKbsNotAllowed
  let body ← okOr (LiveAttestation.decode cfg.toDigest signed.body).toOption .malformedLiveAttestationBody
  ensure (boundTo body view) .liveAttestationBodyViewMismatch
  ensure (cfg.ed25519Verify view.signerPubkey signed.body signed.sig = true) .invalidLiveAttestationSignature
  let bodyHash := cfg.sha2256 signed.body
  .ok (depositEvent {s with attestations:={s.attestations with
      lastLiveAttestation:=update s.attestations.lastLiveAttestation vmIdHash
        (some ⟨view.nodeId,view.attestationSeq,bodyHash,view.epoch,view.observedAtUnix⟩)
      liveAttestationCount:=s.attestations.liveAttestationCount.insert (view.epoch,vmIdHash)
        (addSaturating (countOf s view.epoch vmIdHash) 1)}}
    (.liveAttestationSubmitted vmIdHash view.nodeId view.epoch view.attestationSeq bodyHash))

def checkUpdates (maxWeight : Word 128) : List H → List (MinerStatusUpdate H) → Except Error Unit
  | _, [] => .ok ()
  | seen, u :: updates => do
      ensure (u.nodeId ∉ seen) .duplicateNodeInBatch
      ensure (u.weight ≤ maxWeight) .epochWeightTooLarge
      checkUpdates maxWeight (u.nodeId :: seen) updates

def closeNode (epoch : Word 64) (s : State A H W) (u : MinerStatusUpdate H) : State A H W :=
  let s := {s with epochs:={s.epochs with epochWeights:=s.epochs.epochWeights.insert (epoch,u.nodeId) u.weight}}
  (transitionNodeStatus s u.nodeId u.newStatus s.blockNumber epoch).1

def valiSubmitEpochClose (epoch : Word 64) (updates : List (MinerStatusUpdate H)) : Except Error (State A H W) := do
  ensure (updates.length ≤ cfg.maxMinerStatusUpdatesPerCall) .malformedCall
  ensureValiSubmitter cfg s origin
  ensure (s.epochs.currentEpoch < epoch) .epochRegression
  checkUpdates s.epochs.maxEpochWeightPerNode [] updates
  let closed := updates.foldl (closeNode epoch) s
  let closed := {closed with epochs:={closed.epochs with
    currentEpoch:=epoch
    epochCloseBlock:=update closed.epochs.epochCloseBlock epoch (some s.blockNumber)}}
  let swept := sweepEpochHistory cfg closed epoch
  let snapshot := updates.map fun u => (u.nodeId,u.weight)
  .ok (depositEvent {swept with world:=cfg.pushRankings swept.world epoch snapshot} (.epochClosed epoch updates.length))

def setValiSubmitter (who : Option A) : Except Error (State A H W) := do
  ensure (origin = .root) .badOrigin
  .ok (depositEvent {s with valiSubmitter:=who} (.valiSubmitterSet who))

def setRegistry (condition : Prop) [Decidable condition] (e : Error) (registry : Registry A H)
    (event : Event A H) : Except Error (State A H W) := do
  ensureAdmin cfg origin
  ensure condition e
  .ok (depositEvent {s with registry:=registry} event)

def setStakes (condition : Prop) [Decidable condition] (e : Error) (stakes : Stakes A)
    (event : Event A H) : Except Error (State A H W) := do
  ensureAdmin cfg origin
  ensure condition e
  .ok (depositEvent {s with stakes:=stakes} event)

def setPrices (condition : Prop) [Decidable condition] (e : Error) (prices : Prices H)
    (event : Event A H) : Except Error (State A H W) := do
  ensureAdmin cfg origin
  ensure condition e
  .ok (depositEvent {s with prices:=prices} event)

def setLockupEnabled (enabled : Bool) : Except Error (State A H W) :=
  setRegistry cfg s origin True .badOrigin {s.registry with lockupEnabled:=enabled} (.lockupEnabledSet enabled)

def setBaseChildDeposit (deposit : Word 128) : Except Error (State A H W) :=
  setRegistry cfg s origin True .badOrigin {s.registry with baseChildDepositValue:=some deposit} (.baseChildDepositSet deposit)

def setFreeChildSlotsPerFamily (slots : Word 32) : Except Error (State A H W) :=
  setRegistry cfg s origin (slots.val ≤ cfg.maxChildrenPerFamily) .freeChildSlotsPerFamilyTooLarge
    {s.registry with freeChildSlotsPerFamily:=some slots} (.freeChildSlotsPerFamilySet slots)

def setStakeEnabled (enabled : Bool) : Except Error (State A H W) :=
  setStakes cfg s origin True .badOrigin {s.stakes with stakeEnabled:=enabled} (.stakeEnabledSet enabled)

def oracleAllowed (ema band : Nat) : Nat :=
  wrappingAdd 128 (saturatingMul 128 (ema / 1000) band) (saturatingMul 128 (ema % 1000) band / 1000)

def distance (a b : Nat) : Nat := if a < b then b - a else a - b

def setAlphaPerUsd (spot : Word 128) : Except Error (State A H W) := do
  ensureAdmin cfg origin
  ensure (0 < spot.val) .invalidPrice
  let ema := s.stakes.alphaPerUsdEma
  ensure (ema = 0 ∨ distance spot.val ema ≤ oracleAllowed ema s.stakes.maxOracleDeviationPermille) .oracleDeviationTooLarge
  let newEma := emaStep s.stakes spot.val ema
  .ok (depositEvent {s with stakes:={s.stakes with
      alphaPerUsdSpot:=spot.val
      alphaPerUsdEma:=newEma
      alphaPerUsdLastPostBlock:=some s.blockNumber}}
    (.alphaPerUsdUpdated spot newEma))

def setStakeUsdPerChild (usd : Word 128) : Except Error (State A H W) :=
  setStakes cfg s origin True .badOrigin {s.stakes with stakeUsdPerChild:=usd} (.stakeUsdPerChildSet usd)

def setOracleGuards (maxDeviationPermille maxAgeBlocks : Word 32) : Except Error (State A H W) :=
  setStakes cfg s origin (0 < maxDeviationPermille.val ∧ 0 < maxAgeBlocks.val) .invalidPrice
    {s.stakes with maxOracleDeviationPermille:=maxDeviationPermille,maxOracleAgeBlocks:=maxAgeBlocks}
    (.oracleGuardsSet maxDeviationPermille maxAgeBlocks)

def setStakeFloor (floor : Word 128) : Except Error (State A H W) :=
  setStakes cfg s origin True .badOrigin {s.stakes with stakeFloor:=floor} (.stakeFloorSet floor)

def setEmaPermille (down up : Word 32) : Except Error (State A H W) :=
  setStakes cfg s origin (0 < down.val ∧ down.val ≤ 1000 ∧ 0 < up.val ∧ up.val ≤ 1000) .invalidEmaFactor
    {s.stakes with emaDownPermille:=down,emaUpPermille:=up} (.emaPermilleSet down up)

def topUpStake (amount : Word 128) : Except Error (State A H W) := do
  let who ← okOr origin.signer .badOrigin
  ensure (amount.val ≠ 0) .zeroStake
  let world ← okOr (cfg.reserveNamed s.world .stake who amount) .insufficientBalanceForStake
  let total := saturatingAdd 128 (s.stakes.stakedAmount who) amount
  .ok (depositEvent {s with
      world:=world
      stakes:={s.stakes with stakedAmount:=update s.stakes.stakedAmount who total}}
    (.stakeToppedUp who amount total))

def quarantineChild (p : State A H W × Nat) (child : A) : State A H W × Nat :=
  match p.1.registry.childRegistrations.lookup child with
  | none => p
  | some reg =>
    let moved := transitionNodeStatus p.1 reg.nodeId .quarantined p.1.blockNumber p.1.epochs.currentEpoch
    (moved.1,if moved.2 then saturatingAdd 32 p.2 1 else p.2)

def quarantineOwner (who : A) : State A H W :=
  let children := s.registry.familyChildren who
  let valueAtRisk := saturatingMul 128 s.stakes.stakeUsdPerChild children.length
  if s.stakes.stakedAmount who = 0 ∨ isStakeSufficient s who (requiredAlpha s valueAtRisk) = false then
    let quarantined := children.foldl quarantineChild (s,0)
    if 0 < quarantined.2 then depositEvent quarantined.1 (.ownerQuarantinedOnUnstake who quarantined.2) else quarantined.1
  else s

def requestUnstake (amount : Word 128) : Except Error (State A H W) := do
  let who ← okOr origin.signer .badOrigin
  ensure (amount.val ≠ 0) .zeroStake
  let active := s.stakes.stakedAmount who
  ensure (amount.val ≤ active) .insufficientStake
  let unbondingEnd := saturatingAdd 64 s.blockNumber cfg.unbondingPeriodBlocks
  let moved := depositEvent {s with stakes:={s.stakes with
      stakedAmount:=update s.stakes.stakedAmount who (active - amount.val)
      stakeUnbonding:=update s.stakes.stakeUnbonding who (some (saturatingAdd 128 (unbondingOf s who) amount.val,unbondingEnd))}}
    (.stakeUnbondRequested who amount unbondingEnd)
  .ok (quarantineOwner moved who)

def claimUnstaked : Except Error (State A H W) := do
  let who ← okOr origin.signer .badOrigin
  let chunk ← okOr (s.stakes.stakeUnbonding who) .noStakeUnbonding
  ensure (chunk.2 ≤ s.blockNumber) .unbondingNotReady
  let released := cfg.unreserveNamed s.world .stake who chunk.1
  ensure (released.2 = 0) .partialUnreserve
  .ok (depositEvent {s with
      world:=released.1
      stakes:={s.stakes with stakeUnbonding:=update s.stakes.stakeUnbonding who none}}
    (.stakeReleased who chunk.1))

def setSlashingEnabled (enabled : Bool) : Except Error (State A H W) :=
  setStakes cfg s origin True .badOrigin {s.stakes with slashingEnabled:=enabled} (.slashingEnabledSet enabled)

def setSlashBeneficiary (beneficiary : Option A) : Except Error (State A H W) :=
  setStakes cfg s origin True .badOrigin {s.stakes with slashBeneficiary:=beneficiary} (.slashBeneficiarySet beneficiary)

def slashStake (owner : A) (amount : Word 128) (reason : SlashReason) : Except Error (State A H W) := do
  ensureAdmin cfg origin
  ensure (amount.val ≠ 0) .zeroStake
  .ok (doSlash cfg s owner amount reason)

def priceAnchor (nodeId : H) : Option (Word 128) := (effectivePrice s nodeId).or (s.prices.priceMagnitudeAnchor nodeId)

def announcePriceChange (nodeId : H) (newPrice : Word 128) : Except Error (State A H W) := do
  let who ← okOr origin.signer .badOrigin
  ensure (s.registry.nodeIdToChild nodeId = some who) .notNodeOperator
  ensure (0 < newPrice.val) .priceOutOfBounds
  ensure (s.prices.priceCeiling.isSome = true) .priceBoundsNotConfigured
  ensure (withinPriceBounds s.prices newPrice = true) .priceOutOfBounds
  let now := s.blockNumber
  let last := s.prices.lastPriceChangeBlock nodeId
  ensure (last = 0 ∨ saturatingAdd 64 last s.prices.minPriceChangeIntervalBlocks ≤ now) .priceChangeTooSoon
  ensure ((priceAnchor s nodeId).all fun current => withinPriceMagnitude s.prices current newPrice) .priceChangeTooLarge
  let effectiveBlock := saturatingAdd 64 now s.prices.priceChangeNoticeBlocks
  .ok (depositEvent {s with prices:={s.prices with
      pendingPriceChange:=update s.prices.pendingPriceChange nodeId (some ⟨newPrice,effectiveBlock⟩)
      lastPriceChangeBlock:=update s.prices.lastPriceChangeBlock nodeId now}}
    (.priceChangeAnnounced nodeId (s.prices.minerPrice nodeId) newPrice effectiveBlock))

-- A change that has left the bounds since it was announced is discarded.
def settlePrice (nodeId : H) (pending : PriceChange) : State A H W :=
  let cleared := update s.prices.pendingPriceChange nodeId none
  if withinPriceBounds s.prices pending.newPrice = false then
    depositEvent {s with prices:={s.prices with pendingPriceChange:=cleared}} (.pendingPriceDiscarded nodeId pending.newPrice)
  else
    depositEvent {s with prices:={s.prices with
        minerPrice:=update s.prices.minerPrice nodeId (some pending.newPrice)
        pendingPriceChange:=cleared}}
      (.priceChangeApplied nodeId pending.newPrice)

def applyPriceChange (nodeId : H) : Except Error (State A H W) := do
  let _ ← okOr origin.signer .badOrigin
  let pending ← okOr (s.prices.pendingPriceChange nodeId) .noPriceChangeDue
  ensure (pending.effectiveBlock ≤ s.blockNumber) .noPriceChangeDue
  .ok (settlePrice s nodeId pending)

def setPriceBounds (floor : Word 128) (ceiling : Option (Word 128)) : Except Error (State A H W) :=
  setPrices cfg s origin (ceiling.all (floor ≤ ·) = true) .invalidPricePolicy {s.prices with priceFloor:=floor,priceCeiling:=ceiling}
    (.priceBoundsSet floor ceiling)

def setPriceChangePolicy (minInterval notice : Nat) (maxNumer maxDenom : Word 32) : Except Error (State A H W) :=
  setPrices cfg s origin (0 < maxDenom.val ∧ maxDenom ≤ maxNumer) .invalidPricePolicy
    {s.prices with
      minPriceChangeIntervalBlocks:=minInterval,priceChangeNoticeBlocks:=notice
      maxPriceChangeNumer:=maxNumer,maxPriceChangeDenom:=maxDenom}
    (.priceChangePolicySet minInterval notice maxNumer maxDenom)

end

-- Every extrinsic, the next block with the seconds since the last, and any change in
-- the pallets around this one.
inductive Call (A H W : Type) where
  | registerChild (origin : Origin A) (family child : A) (nodeId : H) (nodeSig : List UInt8)
  | deregisterChild (origin : Origin A) (child : A)
  | forceDeregisterChild (origin : Origin A) (child : A)
  | claimUnbonded (origin : Origin A) (child : A)
  | submitAuditStats (origin : Origin A) (view : AggregateView H) (signed : SignedWire)
  | setAuditVmPubkey (origin : Origin A) (nodeId pubkey : H)
  | setKbsAttestationPubkey (origin : Origin A) (pubkey : H)
  | removeKbsAttestationPubkey (origin : Origin A) (pubkey : H)
  | submitLiveAttestation (origin : Origin A) (view : LiveAttestationView H) (signed : SignedWire)
  | valiSubmitEpochClose (origin : Origin A) (epoch : Word 64) (updates : List (MinerStatusUpdate H))
  | setValiSubmitter (origin : Origin A) (who : Option A)
  | setLockupEnabled (origin : Origin A) (enabled : Bool)
  | setBaseChildDeposit (origin : Origin A) (deposit : Word 128)
  | setFreeChildSlotsPerFamily (origin : Origin A) (slots : Word 32)
  | setStakeEnabled (origin : Origin A) (enabled : Bool)
  | setAlphaPerUsd (origin : Origin A) (spot : Word 128)
  | setStakeUsdPerChild (origin : Origin A) (usd : Word 128)
  | setOracleGuards (origin : Origin A) (maxDeviationPermille maxAgeBlocks : Word 32)
  | setStakeFloor (origin : Origin A) (floor : Word 128)
  | setEmaPermille (origin : Origin A) (down up : Word 32)
  | topUpStake (origin : Origin A) (amount : Word 128)
  | requestUnstake (origin : Origin A) (amount : Word 128)
  | claimUnstaked (origin : Origin A)
  | setSlashingEnabled (origin : Origin A) (enabled : Bool)
  | setSlashBeneficiary (origin : Origin A) (beneficiary : Option A)
  | slashStake (origin : Origin A) (owner : A) (amount : Word 128) (reason : SlashReason)
  | announcePriceChange (origin : Origin A) (nodeId : H) (newPrice : Word 128)
  | applyPriceChange (origin : Origin A) (nodeId : H)
  | setPriceBounds (origin : Origin A) (floor : Word 128) (ceiling : Option (Word 128))
  | setPriceChangePolicy (origin : Origin A) (minInterval notice : Nat) (maxNumer maxDenom : Word 32)
  | nextBlock (seconds : Nat)
  | elsewhere (world : W)

section
variable {A H W : Type} [DecidableEq A] [DecidableEq H]

def dispatch (cfg : Config A H W) (s : State A H W) :
    Call A H W → Except Error (State A H W)
  | .registerChild origin family child nodeId nodeSig => registerChild cfg s origin family child nodeId nodeSig
  | .deregisterChild origin child => deregisterChild cfg s origin child
  | .forceDeregisterChild origin child => forceDeregisterChild cfg s origin child
  | .claimUnbonded origin child => claimUnbonded cfg s origin child
  | .submitAuditStats origin view signed => submitAuditStats cfg s origin view signed
  | .setAuditVmPubkey origin nodeId pubkey => setAuditVmPubkey cfg s origin nodeId pubkey
  | .setKbsAttestationPubkey origin pubkey => setKbsAttestationPubkey cfg s origin pubkey
  | .removeKbsAttestationPubkey origin pubkey => removeKbsAttestationPubkey cfg s origin pubkey
  | .submitLiveAttestation origin view signed => submitLiveAttestation cfg s origin view signed
  | .valiSubmitEpochClose origin epoch updates => valiSubmitEpochClose cfg s origin epoch updates
  | .setValiSubmitter origin who => setValiSubmitter s origin who
  | .setLockupEnabled origin enabled => setLockupEnabled cfg s origin enabled
  | .setBaseChildDeposit origin deposit => setBaseChildDeposit cfg s origin deposit
  | .setFreeChildSlotsPerFamily origin slots => setFreeChildSlotsPerFamily cfg s origin slots
  | .setStakeEnabled origin enabled => setStakeEnabled cfg s origin enabled
  | .setAlphaPerUsd origin spot => setAlphaPerUsd cfg s origin spot
  | .setStakeUsdPerChild origin usd => setStakeUsdPerChild cfg s origin usd
  | .setOracleGuards origin maxDeviationPermille maxAgeBlocks => setOracleGuards cfg s origin maxDeviationPermille maxAgeBlocks
  | .setStakeFloor origin floor => setStakeFloor cfg s origin floor
  | .setEmaPermille origin down up => setEmaPermille cfg s origin down up
  | .topUpStake origin amount => topUpStake cfg s origin amount
  | .requestUnstake origin amount => requestUnstake cfg s origin amount
  | .claimUnstaked origin => claimUnstaked cfg s origin
  | .setSlashingEnabled origin enabled => setSlashingEnabled cfg s origin enabled
  | .setSlashBeneficiary origin beneficiary => setSlashBeneficiary cfg s origin beneficiary
  | .slashStake origin owner amount reason => slashStake cfg s origin owner amount reason
  | .announcePriceChange origin nodeId newPrice => announcePriceChange s origin nodeId newPrice
  | .applyPriceChange origin nodeId => applyPriceChange s origin nodeId
  | .setPriceBounds origin floor ceiling => setPriceBounds cfg s origin floor ceiling
  | .setPriceChangePolicy origin minInterval notice maxNumer maxDenom =>
    setPriceChangePolicy cfg s origin minInterval notice maxNumer maxDenom
  | .nextBlock seconds => .ok {s with blockNumber:=s.blockNumber + 1,nowUnix:=s.nowUnix + seconds}
  | .elsewhere world => .ok {s with world:=world}

def step (cfg : Config A H W) (s : State A H W) (call : Call A H W) :
    State A H W := commit s (dispatch cfg s call)

end

-- Short byte strings as digests, and hashes that keep a prefix. Every signature verifies,
-- accounts are naturals, and the pallets around accept everything.
abbrev Short := {bytes : List UInt8 // bytes.length < 2 ^ 64}

def shorten (bytes : List UInt8) : Short :=
  ⟨bytes.take (2 ^ 32),by
    rw [List.length_take]
    omega⟩

theorem shorten_injective (one : a.length ≤ 2 ^ 32) (two : b.length ≤ 2 ^ 32) (same : shorten a = shorten b) : a = b := by
  have bytes := congrArg Subtype.val same
  simpa only [shorten,List.take_of_length_le one,List.take_of_length_le two] using bytes

def plainDigest : Digest Short where
  zero := ⟨[],by decide⟩
  bytes h := h.val
  parse b := if short : b.length < 2 ^ 64 then some ⟨b,short⟩ else none
  bytes_short h := h.property
  parse_bytes h := dif_pos h.property
  bytes_parse b h parsed := by
    split at parsed
    · cases parsed
      rfl
    · cases parsed

def plainConfig : Config Nat Short Unit where
  toDigest := plainDigest
  isAdmin origin := origin = .root
  isAuditAuthority origin := origin = .root
  maxFamilies := 600
  maxChildrenTotal := 1000
  maxChildrenPerFamily := 35
  baseChildDeposit := 10
  globalDepositHalvingPeriodBlocks := 14400
  unregisterCooldownBlocks := 0
  unbondingPeriodBlocks := 2
  maxAggregateBody := 8192
  maxValidatorIdLen := 64
  maxFamilyIdLen := 64
  maxAuditVmKeyIdLen := 64
  computePalletInstance := shorten [1]
  computeChainGenesis := shorten [2]
  maxMinerStatusUpdatesPerCall := 128
  maxEpochPruneKeysPerCall := 2048
  maxLiveAttestationBody := 1024
  maxVmIdLen := 64
  maxKbsAttestationPubkeys := 8
  encodeAccount account := leBytes 8 account
  sha2256 := shorten
  blake2256 := shorten
  ed25519Verify _ _ _ := true
  hashRank h := Cbor.ofBe h.val
  isRegisteredFamily _ _ := true
  ownerHasValidatorNode _ _ := true
  canRegisterChild _ _ _ := true
  isNodeRegistered _ _ := true
  pushRankings world _ _ := world
  reserveNamed world _ _ _ := some world
  unreserveNamed world _ _ _ := (world,0)
  slashReservedNamed world _ _ _ := (world,0)
  repatriateReservedNamed world _ _ _ _ := some (world,0)

end TheBrain.ComputeScoring
