import TheBrain.Library.Machine
import TheBrain.Library.StorageMap
import TheBrain.PaymentMath
import TheBrain.Runtime

namespace TheBrain.Arion
open Library Machine Words PaymentMath Function

inductive ChildStatus where
  | active | unbonding
  deriving DecidableEq, Repr

inductive SettlementSkipReason where
  | priceUnset | tokenPriceUnavailable
  deriving DecidableEq, Repr

inductive NodeType where
  | validator | storageMiner | storageS3 | computeMiner | gpuMiner
  deriving DecidableEq, Repr

structure ChildRegistration (A N : Type) where
  family : A
  nodeId : N
  status : ChildStatus
  deposit : Nat
  unbondingEnd : Nat

structure CrushParams where
  pgCount : Nat
  ecK : Nat
  ecM : Nat

structure MinerRecord (A N : Type) where
  uid : Nat
  nodeId : N
  weight : Nat
  familyId : A
  endpoint : List UInt8
  httpAddr : List UInt8

structure MinerStats where
  shardDataBytes : Nat

structure MinerAccrual where
  byteBlocks : Word 128
  lastBlock : Nat
  deriving DecidableEq

inductive Event (A N : Type) where
  | crushMapPublished (epoch miners : Nat) (root : List UInt8)
  | minerStatsUpdated (bucket updates : Nat)
  | childRegistered (family child : A) (nodeId : N) (deposit : Nat)
  | childDeregistered (family child : A) (nodeId : N) (unbondingEnd cooldownEnd : Nat)
  | childUnbonded (family child : A) (nodeId : N) (amount : Nat)
  | lockupEnabledSet (enabled : Bool)
  | baseChildDepositSet (deposit : Nat)
  | freeChildSlotsPerFamilySet (slots : Nat)
  | minerPriceSet (priceUsdPerGbBlock : Nat)
  | minerPaymentSettled (block families tokensDue tokensPaid : Nat)
  | familyPaid (family : A) (tokens : Nat) (staked : Bool)
  | minerPaymentSkipped (reason : SettlementSkipReason)
  | minerAccrualForfeited (family : A) (uid byteBlocks : Nat)
  | minerUidBound (child : A) (uid : Nat)
  | minerUidReassigned (uid : Nat) (source target : A)
  deriving DecidableEq, Repr

inductive Error where
  | badOrigin
  | epochRegression | epochAlreadyExists | minerListNotSortedOrNotUnique | statsBucketRegression | familyNotRegistered
  | proxyVerificationFailed | tooManyFamilies | tooManyChildrenTotal | tooManyChildrenInFamily | childAlreadyRegistered
  | childNotRegistered | childInCooldown | nodeIdAlreadyRegistered | nodeIdInCooldown | invalidNodeSignature
  | childNotActive | notUnbonding | unbondingNotReady | insufficientDeposit | minerNotRegistered | nodeNotRegistered
  | invalidNodeType | partialUnreserve | freeChildSlotsPerFamilyTooLarge
  deriving DecidableEq, Repr

-- The constants of the runtime and, over an opaque world, what other pallets do: the
-- registry and proxies, reserves, the payout source and staking. A payout transfers
-- and returns at most what is asked for.
structure Config (A N W : Type) where
  isAdmin : Origin A → Bool
  isMapAuthority : Origin A → Bool
  isStatsAuthority : Origin A → Bool
  enforceRegisteredMinersInMap : Bool
  epochCrushMapRetention : Nat
  maxFamilies : Nat
  maxChildrenTotal : Nat
  maxChildrenPerFamily : Nat
  baseChildDeposit : Nat
  globalDepositHalvingPeriodBlocks : Nat
  unregisterCooldownBlocks : Nat
  unbondingPeriodBlocks : Nat
  minerStatsPruneInterval : Nat
  minerStatsPruneMaxScanPerBlock : Nat
  settlementInterval : Nat
  accountId : A
  encodeAccount : A → List UInt8
  encodeNode : N → List UInt8
  verifyNodeSig : N → List UInt8 → List UInt8 → Bool
  mapRoot : CrushParams → List (MinerRecord A N) → List UInt8
  registrationRank : A → Nat
  arrearsRank : A → Nat
  accountRank : A → Nat
  uidRank : Nat → Nat
  isRegisteredFamily : W → A → Bool
  canRegisterChild : W → A → A → Bool
  primaryAccount : W → A → Option A
  registeredNodeType : W → A → Option NodeType
  unregisterMainNode : W → A → W
  reserve : W → A → Nat → Option W
  unreserve : W → A → Nat → W × Nat
  tokenPriceUsd : W → Nat
  available : W → Nat
  requestPayment : W → A → A → Nat → W × Nat
  requestPayment_le : ∀ world requester dest amount, (requestPayment world requester dest amount).2 ≤ amount
  bond : W → A → Nat → W × Bool

structure State (A N W : Type) where
  blockNumber : Nat
  world : W
  currentEpoch : Nat
  epochParams : Nat → Option CrushParams
  epochMiners : Nat → Option (List (MinerRecord A N))
  epochRoot : Nat → Option (List UInt8)
  currentStatsBucket : Nat
  minerStatsByUid : StorageMap Nat MinerStats
  childMinerUid : A → Option Nat
  minerUidToChild : Nat → Option A
  minerStatsPruneCursor : Option Nat
  minerPriceUsdPerGbBlock : Nat
  minerAccruals : Nat → Option MinerAccrual
  familyArrears : StorageMap A (Word 128)
  lastSettlementBlock : Option Nat
  lockupEnabled : Bool
  baseChildDepositValue : Nat
  familyCount : Nat
  familyUsedFreeSlot : A → Bool
  familyFreeSlotsUsed : A → Option Nat
  freeChildSlotsPerFamily : Option Nat
  familyActiveChildren : A → Option Nat
  totalActiveChildren : Nat
  globalNextDeposit : Nat
  globalLastPaidRegistrationBlock : Nat
  childRegistrations : StorageMap A (ChildRegistration A N)
  nodeIdToChild : N → Option A
  nodeIdNonce : N → Nat
  childCooldownUntil : A → Nat
  nodeIdCooldownUntil : N → Nat
  familyChildren : A → List A
  events : List (Event A N)

def genesis (world : W) : State A N W where
  blockNumber := 0
  world := world
  currentEpoch := 0
  epochParams := fun _ => none
  epochMiners := fun _ => none
  epochRoot := fun _ => none
  currentStatsBucket := 0
  minerStatsByUid := ∅
  childMinerUid := fun _ => none
  minerUidToChild := fun _ => none
  minerStatsPruneCursor := none
  minerPriceUsdPerGbBlock := 0
  minerAccruals := fun _ => none
  familyArrears := ∅
  lastSettlementBlock := none
  lockupEnabled := false
  baseChildDepositValue := 0
  familyCount := 0
  familyUsedFreeSlot := fun _ => false
  familyFreeSlotsUsed := fun _ => none
  freeChildSlotsPerFamily := none
  familyActiveChildren := fun _ => none
  totalActiveChildren := 0
  globalNextDeposit := 0
  globalLastPaidRegistrationBlock := 0
  childRegistrations := ∅
  nodeIdToChild := fun _ => none
  nodeIdNonce := fun _ => 0
  childCooldownUntil := fun _ => 0
  nodeIdCooldownUntil := fun _ => 0
  familyChildren := fun _ => []
  events := []

section
variable {A N W : Type} [DecidableEq A] [DecidableEq N]
variable (cfg : Config A N W) (s : State A N W)

def depositEvent (e : Event A N) : State A N W :=
  {s with events:=s.events ++ [e]}

def storedBytes (uid : Nat) : Nat :=
  (s.minerStatsByUid.lookup uid).elim 0 MinerStats.shardDataBytes

def accrued (uid now : Nat) : Word 128 :=
  let accrual := (s.minerAccruals uid).getD ⟨0,now⟩
  addSaturating accrual.byteBlocks (saturatingMul 128 (storedBytes s uid) (now - accrual.lastBlock))

def accrueMinerBytes (uid now : Nat) : State A N W :=
  {s with minerAccruals:=update s.minerAccruals uid (some ⟨accrued s uid now,now⟩)}

def storedByteBlocks (uid : Nat) : Nat :=
  (s.minerAccruals uid).elim 0 fun accrual => accrual.byteBlocks

def forfeitAccrual (child : A) (uid : Nat) : State A N W :=
  let s := accrueMinerBytes s uid s.blockNumber
  let byteBlocks := storedByteBlocks s uid
  let s := {s with minerAccruals:=update s.minerAccruals uid none}
  if byteBlocks = 0 then s else
  match s.childRegistrations.lookup child with
  | some reg => depositEvent s (.minerAccrualForfeited reg.family uid byteBlocks)
  | none => s

def releaseUid (child : A) (uid : Nat) : State A N W :=
  {s with
    minerStatsByUid:=s.minerStatsByUid.erase uid
    childMinerUid:=update s.childMinerUid child none
    minerUidToChild:=update s.minerUidToChild uid none}

-- Uid 0 keeps its accrual here, unlike in detachUid below.
def clearMinerUidAndStatsForChild (child : A) : State A N W :=
  match s.childMinerUid child with
  | none => s
  | some uid => releaseUid (if uid = 0 then s else forfeitAccrual s child uid) child uid

def findUidForNodeInEpoch (epoch : Nat) (nodeId : N) : Option Nat := do
  let miners ← s.epochMiners epoch
  let miner ← miners.find? fun miner => miner.nodeId = nodeId
  return miner.uid

def detachUid (child : A) (oldUid now : Nat) : State A N W × Nat :=
  let s := accrueMinerBytes s oldUid now
  (releaseUid {s with minerAccruals:=update s.minerAccruals oldUid none} child oldUid,storedByteBlocks s oldUid)

def desiredUids (miners : List (MinerRecord A N)) : List (A × Nat) :=
  miners.filterMap fun miner =>
    if miner.uid = 0 then none else (s.nodeIdToChild miner.nodeId).map fun child => (child,miner.uid)

def detachStale (now : Nat) (p : State A N W × List (A × Nat)) (want : A × Nat) : State A N W × List (A × Nat) :=
  match p.1.childMinerUid want.1 with
  | none => p
  | some oldUid =>
    if oldUid = want.2 then p else
    let detached := detachUid p.1 want.1 oldUid now
    (detached.1,if detached.2 = 0 then p.2 else p.2 ++ [(want.1,detached.2)])

def displaceHolder (now : Nat) (s : State A N W) (want : A × Nat) : State A N W :=
  match s.minerUidToChild want.2 with
  | none => s
  | some holder =>
    if holder = want.1 then s else
    let detached := detachUid s holder want.2 now
    let forfeited :=
      if detached.2 = 0 then detached.1 else
      match detached.1.childRegistrations.lookup holder with
      | some reg => depositEvent detached.1 (.minerAccrualForfeited reg.family want.2 detached.2)
      | none => detached.1
    depositEvent forfeited (.minerUidReassigned want.2 holder want.1)

def installUid (want : A × Nat) : State A N W :=
  let s := if s.childMinerUid want.1 = some want.2 then s else
    depositEvent {s with childMinerUid:=update s.childMinerUid want.1 (some want.2)} (.minerUidBound want.1 want.2)
  {s with minerUidToChild:=update s.minerUidToChild want.2 (some want.1)}

def restoreCarried (now : Nat) (s : State A N W) (carried : A × Nat) : State A N W :=
  match s.childMinerUid carried.1 with
  | none => s
  | some uid =>
    let accrual := (s.minerAccruals uid).getD ⟨0,now⟩
    {s with minerAccruals:=update s.minerAccruals uid (some ⟨addSaturating accrual.byteBlocks carried.2,now⟩)}

def bindUidsFromCrushMap (miners : List (MinerRecord A N)) : State A N W :=
  let now := s.blockNumber
  let desired := desiredUids s miners
  let detached := desired.foldl (detachStale now) (s,[])
  let displaced := desired.foldl (displaceHolder now) detached.1
  let installed := desired.foldl installUid displaced
  detached.2.foldl (restoreCarried now) installed

def collectProtectedMinerUids : List Nat :=
  (s.childRegistrations.iter cfg.registrationRank).foldl (fun out entry =>
    if entry.2.status ≠ .active then out else
    let out := match s.childMinerUid entry.1 with
      | some uid => if uid ≠ 0 ∧ uid ∉ out then out ++ [uid] else out
      | none => out
    match findUidForNodeInEpoch s s.currentEpoch entry.2.nodeId with
    | some uid => if uid ∉ out then out ++ [uid] else out
    | none => out) []

def pruneUid (keep : List Nat) (s : State A N W) (uid : Nat) : State A N W :=
  if uid ∈ keep then s else
  {s with minerStatsByUid:=s.minerStatsByUid.erase uid,minerAccruals:=update s.minerAccruals uid none}

def pruneStaleMinerStats : State A N W :=
  let maxScan := cfg.minerStatsPruneMaxScanPerBlock
  if maxScan = 0 then s else
  let keep := collectProtectedMinerUids cfg s
  let keys := (((s.minerStatsByUid.iter cfg.uidRank).map Prod.fst).filter fun uid =>
    s.minerStatsPruneCursor.all fun start => start < uid).take maxScan
  match keys.getLast? with
  | none => {s with minerStatsPruneCursor:=none}
  | some last =>
    {keys.foldl (pruneUid keep) s with minerStatsPruneCursor:=if keys.length < maxScan then none else some last}

def addDue (dues : StorageMap A (Word 128)) (family : A) (tokens : Nat) : StorageMap A (Word 128) :=
  dues.insert family (addSaturating ((dues.lookup family).getD 0) tokens)

def consumeAccrual (uid : Nat) : State A N W :=
  {s with minerAccruals:=update s.minerAccruals uid ((s.minerAccruals uid).map fun accrual => {accrual with byteBlocks:=0})}

-- One child of the settlement loop. An amount that converts to nothing is kept.
def settleChild (price tokenPrice now : Nat) (p : State A N W × StorageMap A (Word 128))
    (entry : A × ChildRegistration A N) : State A N W × StorageMap A (Word 128) :=
  if entry.2.status ≠ .active then p else
  match p.1.childMinerUid entry.1 with
  | none => p
  | some uid =>
    if uid = 0 then p else
    let s := accrueMinerBytes p.1 uid now
    let byteBlocks := storedByteBlocks s uid
    if byteBlocks = 0 then (s,p.2) else
    let tokens := tokensFor byteBlocks price tokenPrice
    if tokens = 0 then (s,p.2) else
    (consumeAccrual s uid,addDue p.2 entry.2.family tokens)

def addArrears (dues : StorageMap A (Word 128)) (entry : A × Word 128) : StorageMap A (Word 128) :=
  if entry.2 = 0 then dues else addDue dues entry.1 entry.2

structure Payments (A N W : Type) where
  state : State A N W
  families : Nat
  tokensPaid : Nat

def recordArrears (family : A) (arrears : Word 128) : State A N W :=
  {s with familyArrears:=if arrears = 0 then s.familyArrears.erase family else s.familyArrears.insert family arrears}

def payOut (family : A) (pay : Nat) : State A N W × Nat :=
  if pay = 0 then (s,0) else
  let paid := cfg.requestPayment s.world cfg.accountId family pay
  ({s with world:=paid.1},paid.2)

def payFamily (pool totalDue : Nat) (p : Payments A N W) (entry : A × Word 128) : Payments A N W :=
  let paid := payOut cfg p.state entry.1 (proRataWide entry.2 pool totalDue)
  let s := recordArrears paid.1 entry.1 (subSaturating entry.2 paid.2)
  if paid.2 = 0 then {p with state:=s} else
  let bonded := cfg.bond s.world entry.1 paid.2
  { state:=depositEvent {s with world:=bonded.1} (.familyPaid entry.1 paid.2 bonded.2)
    families:=saturatingAdd 32 p.families 1
    tokensPaid:=saturatingAdd 128 p.tokensPaid paid.2}

def settleMinerPayments (now : Nat) : State A N W :=
  let price := s.minerPriceUsdPerGbBlock
  if price = 0 then depositEvent s (.minerPaymentSkipped .priceUnset) else
  let tokenPrice := cfg.tokenPriceUsd s.world
  if tokenPrice = 0 then depositEvent s (.minerPaymentSkipped .tokenPriceUnavailable) else
  let settled := (s.childRegistrations.iter cfg.registrationRank).foldl (settleChild price tokenPrice now) (s,∅)
  let dues := (settled.1.familyArrears.iter cfg.arrearsRank).foldl addArrears settled.2
  let families := dues.iter cfg.accountRank
  let totalDue := sumDues (families.map fun entry => entry.2.val)
  if totalDue = 0 then {settled.1 with lastSettlementBlock:=some now} else
  let pool := min (cfg.available settled.1.world) (maxOf 128)
  let paid := families.foldl (payFamily cfg pool totalDue) ⟨settled.1,0,0⟩
  depositEvent {paid.state with lastSettlementBlock:=some now}
    (.minerPaymentSettled now paid.families (totalDueForEvent totalDue) paid.tokensPaid)

variable (origin : Origin A)

def activeChildrenOf (family : A) : Nat := (s.familyActiveChildren family).getD 0

def freeChildSlots : Nat := s.freeChildSlotsPerFamily.getD 1

def slotsUsed (family : A) : Nat :=
  match s.familyFreeSlotsUsed family with
  | some used => used
  | none => if s.familyUsedFreeSlot family then 1 else 0

def baseDeposit : State A N W × Nat :=
  if s.baseChildDepositValue = 0 then ({s with baseChildDepositValue:=cfg.baseChildDeposit},cfg.baseChildDeposit)
  else (s,s.baseChildDepositValue)

def globalNextDepositFloorInit : State A N W × Nat :=
  let base := baseDeposit cfg s
  if base.1.globalNextDeposit = 0 ∨ base.1.globalNextDeposit < base.2 then
    ({base.1 with globalNextDeposit:=base.2},base.2)
  else (base.1,base.1.globalNextDeposit)

-- The halving loop stops at the base deposit.
def halve (base : Nat) : Nat → Nat → Nat
  | 0, next => next
  | periods + 1, next => if next / 2 < base then base else halve base periods (next / 2)

def applyLazyGlobalHalving : State A N W × Nat :=
  let base := baseDeposit cfg s
  let next := globalNextDepositFloorInit cfg base.1
  let period := cfg.globalDepositHalvingPeriodBlocks
  if period = 0 then next else
  let elapsed := next.1.blockNumber - next.1.globalLastPaidRegistrationBlock
  let halved := halve base.2 (elapsed / period % 2 ^ 32) next.2
  ({next.1 with globalNextDeposit:=halved},halved)

def registrationMessage (family child : A) (nodeId : N) (nonce : Nat) : List UInt8 :=
  ascii "ARION_NODE_REG_V1" ++ cfg.encodeAccount family ++ cfg.encodeAccount child ++ cfg.encodeNode nodeId ++ leBytes 8 nonce

def admitChild (family child : A) (nodeId : N) (nodeSig : List UInt8) : Except Error Unit := do
  let who ← okOr origin.signer .badOrigin
  ensure (who = family) .badOrigin
  ensure (cfg.isRegisteredFamily s.world family = true) .familyNotRegistered
  ensure (cfg.canRegisterChild s.world family child = true) .proxyVerificationFailed
  ensure (s.childCooldownUntil child ≤ s.blockNumber) .childInCooldown
  ensure (s.nodeIdCooldownUntil nodeId ≤ s.blockNumber) .nodeIdInCooldown
  ensure ((s.childRegistrations.lookup child).isNone = true) .childAlreadyRegistered
  ensure (s.nodeIdToChild nodeId = none) .nodeIdAlreadyRegistered
  ensure (s.totalActiveChildren < cfg.maxChildrenTotal) .tooManyChildrenTotal
  ensure (activeChildrenOf s family < cfg.maxChildrenPerFamily) .tooManyChildrenInFamily
  ensure (activeChildrenOf s family ≠ 0 ∨ s.familyCount < cfg.maxFamilies) .tooManyFamilies
  ensure (cfg.verifyNodeSig nodeId (registrationMessage cfg family child nodeId (s.nodeIdNonce nodeId)) nodeSig = true)
    .invalidNodeSignature

def takeDeposit (family : A) : Except Error (State A N W × Nat) := do
  let priced := if s.lockupEnabled = false ∨ slotsUsed s family < freeChildSlots s then (s,0) else applyLazyGlobalHalving cfg s
  if priced.2 = 0 then .ok priced else
  let world ← okOr (cfg.reserve priced.1.world family priced.2) .insufficientDeposit
  .ok ({priced.1 with world:=world},priced.2)

def enrol (family child : A) (nodeId : N) (deposit : Nat) : State A N W :=
  {s with
    childRegistrations:=s.childRegistrations.insert child ⟨family,nodeId,.active,deposit,s.blockNumber⟩
    nodeIdToChild:=update s.nodeIdToChild nodeId (some child)
    nodeIdNonce:=update s.nodeIdNonce nodeId (saturatingAdd 64 (s.nodeIdNonce nodeId) 1)}

-- A node already in the published map gets its uid, unless someone holds it.
def bindListedUid (child : A) (nodeId : N) : State A N W :=
  match findUidForNodeInEpoch s s.currentEpoch nodeId with
  | none => s
  | some uid =>
    if s.minerUidToChild uid ≠ none then s else
    depositEvent {s with
      childMinerUid:=update s.childMinerUid child (some uid)
      minerUidToChild:=update s.minerUidToChild uid (some child)} (.minerUidBound child uid)

def countChild (family child : A) : Except Error (State A N W) := do
  ensure ((s.familyChildren family).length < cfg.maxChildrenPerFamily) .tooManyChildrenInFamily
  .ok {s with
    totalActiveChildren:=saturatingAdd 32 s.totalActiveChildren 1
    familyActiveChildren:=update s.familyActiveChildren family (some (saturatingAdd 32 (activeChildrenOf s family) 1))
    familyCount:=if activeChildrenOf s family = 0 then saturatingAdd 32 s.familyCount 1 else s.familyCount
    familyChildren:=update s.familyChildren family (s.familyChildren family ++ [child])}

def advanceFeeCurve (family : A) : State A N W :=
  if slotsUsed s family < freeChildSlots s then
    {s with
      familyFreeSlotsUsed:=update s.familyFreeSlotsUsed family (some (saturatingAdd 32 (slotsUsed s family) 1))
      familyUsedFreeSlot:=update s.familyUsedFreeSlot family true}
  else if s.lockupEnabled = false then s
  else
    let next := globalNextDepositFloorInit cfg s
    {next.1 with
      globalNextDeposit:=saturatingAdd 128 next.2 next.2
      globalLastPaidRegistrationBlock:=s.blockNumber}

def registerChild (family child : A) (nodeId : N) (nodeSig : List UInt8) : Except Error (State A N W) := do
  admitChild cfg s origin family child nodeId nodeSig
  let paid ← takeDeposit cfg s family
  let counted ← countChild cfg (bindListedUid (enrol paid.1 family child nodeId paid.2) child nodeId) family child
  .ok (depositEvent (advanceFeeCurve cfg counted family) (.childRegistered family child nodeId paid.2))

def swapRemove (children : List A) (child : A) : List A :=
  match children.idxOf? child,children.getLast? with
  | some pos,some last => (children.set pos last).dropLast
  | _,_ => children

def cleanupFamilyWhenNoActiveChildren (family : A) : State A N W :=
  if activeChildrenOf s family ≠ 0 then s else
  {s with
    familyChildren:=update s.familyChildren family []
    familyActiveChildren:=update s.familyActiveChildren family none
    familyCount:=s.familyCount - 1}

def dropFromFamily (family child : A) : State A N W :=
  let active := activeChildrenOf s family - 1
  let s := {s with
    totalActiveChildren:=s.totalActiveChildren - 1
    familyActiveChildren:=update s.familyActiveChildren family (some active)
    familyChildren:=update s.familyChildren family (swapRemove (s.familyChildren family) child)}
  if active = 0 then cleanupFamilyWhenNoActiveChildren s family else s

def retireChild (child : A) (reg : ChildRegistration A N) : State A N W :=
  let s := clearMinerUidAndStatsForChild s child
  let unbondingEnd := if s.lockupEnabled = false ∨ reg.deposit = 0 then s.blockNumber
    else saturatingAdd 64 s.blockNumber cfg.unbondingPeriodBlocks
  let cooldownEnd := saturatingAdd 64 s.blockNumber cfg.unregisterCooldownBlocks
  let s := dropFromFamily {s with nodeIdToChild:=update s.nodeIdToChild reg.nodeId none} reg.family child
  depositEvent {s with
      childCooldownUntil:=update s.childCooldownUntil child cooldownEnd
      nodeIdCooldownUntil:=update s.nodeIdCooldownUntil reg.nodeId cooldownEnd
      childRegistrations:=s.childRegistrations.insert child {reg with status:=.unbonding,unbondingEnd:=unbondingEnd}
      nodeIdNonce:=update s.nodeIdNonce reg.nodeId (saturatingAdd 64 (s.nodeIdNonce reg.nodeId) 1)}
    (.childDeregistered reg.family child reg.nodeId unbondingEnd cooldownEnd)

def deregisterChild (child : A) : Except Error (State A N W) := do
  let who ← okOr origin.signer .badOrigin
  let reg ← okOr (s.childRegistrations.lookup child) .childNotRegistered
  ensure (who = reg.family) .badOrigin
  ensure (reg.status = .active) .childNotActive
  .ok (retireChild cfg s child reg)

-- Removing the last child of a family also unregisters the family's own node.
def unregisterLastFamily (family : A) : Except Error (State A N W) := do
  if activeChildrenOf s family ≠ 1 then .ok s else
  ensure (cfg.registeredNodeType s.world family ≠ none) .nodeNotRegistered
  .ok {s with world:=cfg.unregisterMainNode s.world family}

def forceDeregisterChild (child : A) : Except Error (State A N W) := do
  let who ← okOr origin.signer .badOrigin
  let nodeType ← okOr (cfg.registeredNodeType s.world ((cfg.primaryAccount s.world who).getD who)) .nodeNotRegistered
  ensure (nodeType = .validator) .invalidNodeType
  let reg ← okOr (s.childRegistrations.lookup child) .childNotRegistered
  ensure (reg.status = .active) .childNotActive
  let s ← unregisterLastFamily cfg s reg.family
  .ok (retireChild cfg s child reg)

def releaseDeposit (family : A) (amount : Nat) : Except Error (State A N W) := do
  if amount = 0 then .ok s else
  let released := cfg.unreserve s.world family amount
  ensure (released.2 = 0) .partialUnreserve
  .ok {s with world:=released.1}

def claimUnbonded (child : A) : Except Error (State A N W) := do
  let who ← okOr origin.signer .badOrigin
  let reg ← okOr (s.childRegistrations.lookup child) .childNotRegistered
  ensure (who = reg.family) .badOrigin
  ensure (reg.status = .unbonding) .notUnbonding
  ensure (reg.unbondingEnd ≤ s.blockNumber) .unbondingNotReady
  let s ← releaseDeposit cfg s reg.family reg.deposit
  let s := clearMinerUidAndStatsForChild s child
  .ok (depositEvent {s with childRegistrations:=s.childRegistrations.erase child}
    (.childUnbonded reg.family child reg.nodeId reg.deposit))

-- One miner of deregister_family's loop; an error rolls the whole family back.
def removeMiner (family : A) (s : State A N W) (miner : A) : Except Error (State A N W) := do
  let reg ← okOr (s.childRegistrations.lookup miner) .childNotRegistered
  let s ← releaseDeposit cfg {s with nodeIdToChild:=update s.nodeIdToChild reg.nodeId none} family reg.deposit
  let cooldownEnd := saturatingAdd 64 s.blockNumber cfg.unregisterCooldownBlocks
  let s := clearMinerUidAndStatsForChild {s with
    childCooldownUntil:=update s.childCooldownUntil miner cooldownEnd
    nodeIdCooldownUntil:=update s.nodeIdCooldownUntil reg.nodeId cooldownEnd
    nodeIdNonce:=update s.nodeIdNonce reg.nodeId (saturatingAdd 64 (s.nodeIdNonce reg.nodeId) 1)} miner
  .ok {s with
    childRegistrations:=s.childRegistrations.erase miner
    totalActiveChildren:=s.totalActiveChildren - 1}

def deregisterFamily (family : A) : Except Error (State A N W) := do
  match s.familyActiveChildren family with
  | none => .ok s
  | some active =>
    let removed ← (s.familyChildren family).foldlM (removeMiner cfg family)
      {s with familyChildren:=update s.familyChildren family []}
    .ok {removed with
      familyActiveChildren:=update removed.familyActiveChildren family none
      familyChildren:=update removed.familyChildren family []
      familyCount:=if 0 < active then removed.familyCount - 1 else removed.familyCount}

def ensureMinerRecordsRegistered (miners : List (MinerRecord A N)) : Prop :=
  cfg.enforceRegisteredMinersInMap = true → ∀ miner ∈ miners,
    ((s.nodeIdToChild miner.nodeId).bind s.childRegistrations.lookup).any
      (fun reg => reg.status = .active ∧ reg.family = miner.familyId) = true

instance (s : State A N W) (miners : List (MinerRecord A N)) :
    Decidable (ensureMinerRecordsRegistered cfg s miners) :=
  inferInstanceAs (Decidable (_ → ∀ _ ∈ miners,_ = true))

def submitCrushMap (epoch : Nat) (params : CrushParams) (miners : List (MinerRecord A N)) : Except Error (State A N W) := do
  ensure (cfg.isMapAuthority origin = true) .badOrigin
  ensure (s.currentEpoch < epoch) .epochRegression
  ensure ((s.epochParams epoch).isNone = true) .epochAlreadyExists
  ensure ((miners.map MinerRecord.uid).IsChain (· < ·)) .minerListNotSortedOrNotUnique
  ensure (miners.map MinerRecord.nodeId).Nodup .minerListNotSortedOrNotUnique
  ensure (ensureMinerRecordsRegistered cfg s miners) .minerNotRegistered
  let root := cfg.mapRoot params miners
  let bound := bindUidsFromCrushMap {s with
    epochParams:=update s.epochParams epoch (some params)
    epochMiners:=update s.epochMiners epoch (some miners)
    epochRoot:=update s.epochRoot epoch (some root)
    currentEpoch:=epoch} miners
  let retention := cfg.epochCrushMapRetention
  let pruned := if 0 < retention ∧ retention < epoch then
      {bound with
        epochParams:=update bound.epochParams (epoch - retention) none
        epochMiners:=update bound.epochMiners (epoch - retention) none
        epochRoot:=update bound.epochRoot (epoch - retention) none}
    else bound
  .ok (depositEvent pruned (.crushMapPublished epoch miners.length root))

def recordStats (now : Nat) (s : State A N W) (update : Nat × MinerStats) : State A N W :=
  let s := if s.minerUidToChild update.1 = none then s else accrueMinerBytes s update.1 now
  {s with minerStatsByUid:=s.minerStatsByUid.insert update.1 update.2}

def submitMinerStats (bucket : Nat) (updates : List (Nat × MinerStats)) : Except Error (State A N W) := do
  ensure (cfg.isStatsAuthority origin = true) .badOrigin
  ensure (s.currentStatsBucket ≤ bucket) .statsBucketRegression
  let recorded := updates.foldl (recordStats s.blockNumber) s
  .ok (depositEvent {recorded with currentStatsBucket:=bucket} (.minerStatsUpdated bucket updates.length))

def setMinerPrice (price : Nat) : Except Error (State A N W) := do
  ensure (cfg.isAdmin origin = true) .badOrigin
  .ok (depositEvent {s with minerPriceUsdPerGbBlock:=price} (.minerPriceSet price))

def setLockupEnabled (enabled : Bool) : Except Error (State A N W) := do
  ensure (cfg.isAdmin origin = true) .badOrigin
  .ok (depositEvent {s with lockupEnabled:=enabled} (.lockupEnabledSet enabled))

def setBaseChildDeposit (deposit : Nat) : Except Error (State A N W) := do
  ensure (cfg.isAdmin origin = true) .badOrigin
  .ok (depositEvent (globalNextDepositFloorInit cfg {s with baseChildDepositValue:=deposit}).1 (.baseChildDepositSet deposit))

def setFreeChildSlotsPerFamily (slots : Nat) : Except Error (State A N W) := do
  ensure (cfg.isAdmin origin = true) .badOrigin
  ensure (slots ≤ cfg.maxChildrenPerFamily) .freeChildSlotsPerFamilyTooLarge
  .ok (depositEvent {s with freeChildSlotsPerFamily:=some slots} (.freeChildSlotsPerFamilySet slots))

def onInitialize (now : Nat) : State A N W :=
  let s := {s with blockNumber:=now}
  let s := if cfg.minerStatsPruneInterval ≠ 0 ∧ now % cfg.minerStatsPruneInterval = 0 then pruneStaleMinerStats cfg s else s
  if cfg.settlementInterval ≠ 0 ∧ now % cfg.settlementInterval = 0 then settleMinerPayments cfg s now else s

end

-- Settlement and pruning are also calls of their own, so that runs are not tied to
-- the hook's intervals. Elsewhere is any change outside the pallet.
inductive Call (A N W : Type) where
  | registerChild (origin : Origin A) (family child : A) (nodeId : N) (nodeSig : List UInt8)
  | deregisterChild (origin : Origin A) (child : A)
  | forceDeregisterChild (origin : Origin A) (child : A)
  | claimUnbonded (origin : Origin A) (child : A)
  | deregisterFamily (family : A)
  | submitCrushMap (origin : Origin A) (epoch : Nat) (params : CrushParams) (miners : List (MinerRecord A N))
  | submitMinerStats (origin : Origin A) (bucket : Nat) (updates : List (Nat × MinerStats))
  | setMinerPrice (origin : Origin A) (price : Nat)
  | setLockupEnabled (origin : Origin A) (enabled : Bool)
  | setBaseChildDeposit (origin : Origin A) (deposit : Nat)
  | setFreeChildSlotsPerFamily (origin : Origin A) (slots : Nat)
  | onInitialize (now : Nat)
  | settleMinerPayments
  | pruneStaleMinerStats
  | elsewhere (world : W)

section
variable {A N W : Type} [DecidableEq A] [DecidableEq N]

def dispatch (cfg : Config A N W) (s : State A N W) :
    Call A N W → Except Error (State A N W)
  | .registerChild origin family child nodeId nodeSig => registerChild cfg s origin family child nodeId nodeSig
  | .deregisterChild origin child => deregisterChild cfg s origin child
  | .forceDeregisterChild origin child => forceDeregisterChild cfg s origin child
  | .claimUnbonded origin child => claimUnbonded cfg s origin child
  | .deregisterFamily family => deregisterFamily cfg s family
  | .submitCrushMap origin epoch params miners => submitCrushMap cfg s origin epoch params miners
  | .submitMinerStats origin bucket updates => submitMinerStats cfg s origin bucket updates
  | .setMinerPrice origin price => setMinerPrice cfg s origin price
  | .setLockupEnabled origin enabled => setLockupEnabled cfg s origin enabled
  | .setBaseChildDeposit origin deposit => setBaseChildDeposit cfg s origin deposit
  | .setFreeChildSlotsPerFamily origin slots => setFreeChildSlotsPerFamily cfg s origin slots
  | .onInitialize now => .ok (onInitialize cfg s now)
  | .settleMinerPayments => .ok (settleMinerPayments cfg s s.blockNumber)
  | .pruneStaleMinerStats => .ok (pruneStaleMinerStats cfg s)
  | .elsewhere world => .ok {s with world:=world}

def step (cfg : Config A N W) (s : State A N W) (call : Call A N W) :
    State A N W := commit s (dispatch cfg s call)

end
end TheBrain.Arion
