import TheBrain.Library.Machine
import TheBrain.Library.StorageMap
import TheBrain.Library.Words
import TheBrain.Runtime
import Mathlib.Data.List.Dedup

namespace TheBrain.Registration
open Library Machine Words Function

abbrev Bytes := List UInt8

inductive Role where
  | validator | miner | none
  deriving DecidableEq, Repr

inductive NodeType where
  | validator | storageMiner | storageS3 | computeMiner | gpuMiner
  deriving DecidableEq, Repr

def NodeType.toRole : NodeType → Role
  | .validator => .validator
  | .storageMiner | .storageS3 | .computeMiner | .gpuMiner => .miner

def nodeTypes : List NodeType := [.validator,.storageMiner,.storageS3,.computeMiner,.gpuMiner]

inductive Status where
  | online | degraded | offline
  deriving DecidableEq, Repr

inductive Libp2pKeyType where
  | ed25519
  deriving DecidableEq, Repr

structure ColdkeyNodeInfoLite (A : Type) where
  nodeId : Bytes
  nodeType : NodeType
  status : Status
  registeredAt : Nat
  owner : A

structure DeregistrationReport where
  nodeId : Bytes
  createdAt : Nat

structure RegisterChallenge (A H : Type) where
  domain : Bytes
  genesisHash : Bytes
  account : A
  nodeIdHash : H
  ipfsPeerIdHash : H
  blockNumber : Nat
  nonce : Bytes
  expiresAt : Nat

inductive Event (A : Type) where
  | mainNodeRegistered (nodeId : Bytes)
  | nodeUnregistered (nodeId : Bytes)
  | nodeStatusUpdated (nodeId : Bytes) (status : Status)
  | feeChargingStatusChanged (enabled : Bool)
  | nodeTypeFeeUpdated (nodeType : NodeType) (fee : Nat)
  | nodeTypeDisabledChanged (nodeType : NodeType) (disabled : Bool)
  | nodeOwnerSwapped (nodeId : Bytes) (newOwner : A)
  | deregistrationConsensusReached (nodeId : Bytes)
  | deregistrationConsensusFailed (nodeId : Bytes)
  | accountBanStatusChanged (account : A) (banned : Bool)
  | deregistrationStatusChanged (enabled : Bool)
  deriving DecidableEq

-- badOrigin and notAuthority come from the origin checks, transferFailed from the balances.
inductive Error where
  | badOrigin | notAuthority | transferFailed
  | nodeAlreadyRegistered | nodeNotFound | notAminer | invalidAccountId | insufficientStake | insufficientBalanceForFee
  | nodeTypeDisabled | nodeTypeMismatch | nodeNotRegistered | deregistrationDisabled | notNodeOwner | nodeNotInUids
  | nodeCooldownPeriodNotExpired | ownerAlreadyRegistered | invalidNodeType | tooManyRequests | accountBanned
  | invalidSignature | invalidChallenge | invalidChallengeDomain | challengeExpired | challengeReused | genesisMismatch
  | publicKeyMismatch | challengeMismatch | payInCreditsDisabled
  deriving DecidableEq, Repr

-- The constants of the runtime, hash, signature and codec of the host and, over an opaque
-- world, what the staking, proxy, balances, credits and metagraph pallets answer and do.
structure Config (A H W : Type) where
  minerStakeThreshold : Nat
  initialFee : NodeType → Nat
  blocksPerDay : Nat
  nodeCooldownPeriod : Nat
  maxDeregRequestsPerPeriod : Nat
  consensusThreshold : Nat
  consensusPeriod : Nat
  epochDuration : Nat
  reportRequestsClearInterval : Nat
  accountId : A
  genesisHash : Bytes
  decodeChallenge : Bytes → Option (RegisterChallenge A H)
  blake2256 : Bytes → H
  ed25519Verify : Bytes → Bytes → Bytes → Bool
  nodeRank : Bytes → Nat
  accountRank : A → Nat
  activeStake : W → A → Nat
  delegates : W → A → List A
  uids : W → List (A × Role)
  whitelistedValidators : W → List A
  freeBalance : W → A → Nat
  transfer : W → A → A → Nat → Option W
  isAuthority : W → A → Bool
  removeMetrics : W → Bytes → W

structure State (A H W : Type) where
  blockNumber : Nat
  world : W
  disabledNodeTypes : NodeType → Bool
  coldkeyNodeRegistrationV2 : StorageMap Bytes (ColdkeyNodeInfoLite A)
  bannedAccounts : A → Bool
  nodeLastDeregisteredAt : Bytes → Nat
  reportSubmissionCount : Bytes → Nat
  temporaryDeregistrationReports : StorageMap A (List DeregistrationReport)
  feeChargingEnabled : Bool
  currentNodeTypeFee : NodeType → Option Nat
  lastRegistrationBlock : NodeType → Nat
  usedChallenges : H → Option Nat
  libp2pMainIdentity : Bytes → Option (Libp2pKeyType × Bytes)
  deregistrationEnabled : Bool
  ownerToNode : A → Option (List Bytes)
  events : List (Event A)

def genesis (world : W) : State A H W where
  blockNumber := 0
  world := world
  disabledNodeTypes := fun _ => false
  coldkeyNodeRegistrationV2 := ∅
  bannedAccounts := fun _ => false
  nodeLastDeregisteredAt := fun _ => 0
  reportSubmissionCount := fun _ => 0
  temporaryDeregistrationReports := ∅
  feeChargingEnabled := false
  currentNodeTypeFee := fun _ => none
  lastRegistrationBlock := fun _ => 0
  usedChallenges := fun _ => none
  libp2pMainIdentity := fun _ => none
  deregistrationEnabled := false
  ownerToNode := fun _ => none
  events := []

section
variable {A H W : Type} [DecidableEq A] [DecidableEq H]
variable (cfg : Config A H W) (s : State A H W)

def depositEvent (e : Event A) : State A H W := {s with events:=s.events ++ [e]}

def ownerToNodeAdd (owner : A) (nodeId : Bytes) : State A H W :=
  let nodes := (s.ownerToNode owner).getD []
  {s with ownerToNode:=update s.ownerToNode owner (some (if nodeId ∈ nodes then nodes else nodes ++ [nodeId]))}

def ownerToNodeRemove (owner : A) (nodeId : Bytes) : State A H W :=
  match s.ownerToNode owner with
  | none => s
  | some nodes =>
    let rest := nodes.filter fun n => n ≠ nodeId
    {s with ownerToNode:=update s.ownerToNode owner (if rest = [] then none else some rest)}

def isOwnerNodeRegistered (owner : A) : Bool := (s.ownerToNode owner).isSome

def registerColdkeyNode (info : ColdkeyNodeInfoLite A) : State A H W :=
  ownerToNodeAdd {s with coldkeyNodeRegistrationV2:=s.coldkeyNodeRegistrationV2.insert info.nodeId info} info.owner info.nodeId

def getRegisteredNodeForOwner (owner : A) : Option (ColdkeyNodeInfoLite A) :=
  (s.ownerToNode owner).bind fun nodes => nodes.findSome? fun nodeId =>
    (s.coldkeyNodeRegistrationV2.lookup nodeId).filter fun info => info.status ≠ .degraded

def getAllNodesByNodeType (nodeType : NodeType) : List (ColdkeyNodeInfoLite A) :=
  ((s.coldkeyNodeRegistrationV2.iter cfg.nodeRank).map Prod.snd).filter fun info =>
    info.nodeType = nodeType ∧ info.status ≠ .degraded

-- An account with proxies of its own is a main account; a delegate stands for the first
-- validator owner that has it as a proxy.
def getPrimaryAccount (proxy : A) : Option A :=
  if cfg.delegates s.world proxy ≠ [] then some proxy
  else ((getAllNodesByNodeType cfg s .validator).find? fun info => proxy ∈ cfg.delegates s.world info.owner).map
    ColdkeyNodeInfoLite.owner

def resolveDeregistrationReporter (issuer : A) : A := (getPrimaryAccount cfg s issuer).getD issuer

def doUnregisterMainNode (nodeId : Bytes) : State A H W :=
  let owner := (s.coldkeyNodeRegistrationV2.lookup nodeId).map ColdkeyNodeInfoLite.owner
  let removed := {s with coldkeyNodeRegistrationV2:=s.coldkeyNodeRegistrationV2.erase nodeId}
  let synced := owner.elim removed fun owner => ownerToNodeRemove removed owner nodeId
  depositEvent {synced with
      world:=cfg.removeMetrics synced.world nodeId
      nodeLastDeregisteredAt:=update synced.nodeLastDeregisteredAt nodeId synced.blockNumber}
    (.nodeUnregistered nodeId)

-- Storage miners are only marked, other nodes go.
def doSetNodeStatusDegradedOrUnregister (nodeId : Bytes) : State A H W :=
  match s.coldkeyNodeRegistrationV2.lookup nodeId with
  | none => s
  | some info =>
    if info.nodeType = .storageMiner then
      depositEvent
        {s with coldkeyNodeRegistrationV2:=s.coldkeyNodeRegistrationV2.insert nodeId {info with status:=.degraded}}
        (.nodeStatusUpdated nodeId .degraded)
    else doUnregisterMainNode cfg s nodeId

def reportersOf (reports : List (A × List DeregistrationReport)) (nodeId : Bytes) : List A :=
  reports.flatMap fun entry => (entry.2.filter fun report => report.nodeId = nodeId).map fun _ => entry.1

def reportedNodes (reports : List (A × List DeregistrationReport)) : List Bytes :=
  (reports.flatMap fun entry => entry.2.map DeregistrationReport.nodeId).dedup.insertionSort (· ≤ ·)

-- Proxies are resolved again, in the state that earlier unregistrations have left.
def consensusOn (reports : List (A × List DeregistrationReport)) (nodeId : Bytes) : State A H W :=
  let uniqueValidators := ((reportersOf reports nodeId).map (resolveDeregistrationReporter cfg s)).dedup
  let agreeingValidators := uniqueValidators.length % 2 ^ 32
  if cfg.consensusThreshold ≤ agreeingValidators then
    depositEvent (doUnregisterMainNode cfg s nodeId) (.deregistrationConsensusReached nodeId)
  else depositEvent s (.deregistrationConsensusFailed nodeId)

def applyDeregistrationConsensus : State A H W :=
  let reports := s.temporaryDeregistrationReports.iter cfg.accountRank
  (reportedNodes reports).foldl (fun s nodeId => consensusOn cfg s reports nodeId) s

def initializeNodeTypeFees : State A H W :=
  if nodeTypes.all fun nodeType => (s.currentNodeTypeFee nodeType).isNone then
    {s with currentNodeTypeFee:=fun nodeType => some (cfg.initialFee nodeType)}
  else s

-- Nodes of an owner that has more than one; the order in which they go makes no difference.
def duplicates : List (Bytes × A) :=
  let registrations := (s.coldkeyNodeRegistrationV2.iter cfg.nodeRank).map fun entry => (entry.1,entry.2.owner)
  registrations.filter fun entry => 1 < (registrations.filter fun other => other.2 = entry.2).length

def removeDuplicates : State A H W :=
  (duplicates cfg s).foldl (fun s entry =>
    ownerToNodeRemove {s with coldkeyNodeRegistrationV2:=s.coldkeyNodeRegistrationV2.erase entry.1} entry.2 entry.1) s

def clearsReports (now : Nat) : Bool := 38 ≤ now ∧ (now - 38) % cfg.epochDuration = 0

def tallyReports (now : Nat) : State A H W :=
  let s := initializeNodeTypeFees cfg s
  let s := if now % cfg.reportRequestsClearInterval = 0 then {s with reportSubmissionCount:=fun _ => 0} else s
  if now % cfg.consensusPeriod = 0 then applyDeregistrationConsensus cfg s else s

def onInitialize (now : Nat) : State A H W :=
  let s := tallyReports cfg {s with blockNumber:=now} now
  let s := if clearsReports cfg now then {s with temporaryDeregistrationReports:=∅} else s
  let s := if now % 100 = 0 then removeDuplicates cfg s else s
  {s with usedChallenges:=fun h => (s.usedChallenges h).filter fun usedUntil => now < usedUntil}

def calculateDynamicFee (nodeType : NodeType) : State A H W × Nat :=
  let fee := (s.currentNodeTypeFee nodeType).getD 0
  if cfg.blocksPerDay < s.blockNumber - s.lastRegistrationBlock nodeType then
    ({s with currentNodeTypeFee:=update s.currentNodeTypeFee nodeType (some (fee / 2))},fee / 2)
  else (s,fee)

def updateFeeAfterRegistration (nodeType : NodeType) : State A H W :=
  {s with
    currentNodeTypeFee:=update s.currentNodeTypeFee nodeType
      (some (saturatingMul 128 ((s.currentNodeTypeFee nodeType).getD 0) 2))
    lastRegistrationBlock:=update s.lastRegistrationBlock nodeType s.blockNumber}

def chargeFee (owner : A) (nodeType : NodeType) : Except Error (State A H W) :=
  if s.feeChargingEnabled = false then .ok s else do
  let priced := calculateDynamicFee cfg s nodeType
  ensure (priced.2 ≤ cfg.freeBalance priced.1.world owner) .insufficientBalanceForFee
  let world ← okOr (cfg.transfer priced.1.world owner cfg.accountId priced.2) .transferFailed
  .ok (updateFeeAfterRegistration {priced.1 with world:=world} nodeType)

def verifyEd25519 (message sig publicKey : Bytes) : Bool :=
  if sig.length ≠ 64 ∨ publicKey.length ≠ 32 then false else cfg.ed25519Verify message sig publicKey

def peerIdPrefix : Bytes := [0x00,0x24,0x08,0x01,0x12,0x20]

def verifyPeerId (publicKey peerId : Bytes) : Libp2pKeyType → Bool
  | .ed25519 =>
    if peerId.length ≠ 38 then false
    else if peerId.take 6 ≠ peerIdPrefix then false
    else peerId.drop 6 = publicKey

def expectedDomain : Bytes := ascii "HIPPIUS::REGISTER::v1" ++ [0,0,0]

-- The challenge, the key behind it and that it was not used before.
def checkChallenge (owner : A) (keyType : Libp2pKeyType) (publicKey sig challengeBytes nodeIdHex : Bytes) :
    Except Error (RegisterChallenge A H) := do
  let challenge ← okOr (cfg.decodeChallenge challengeBytes) .invalidChallenge
  ensure (challenge.domain = expectedDomain) .invalidChallengeDomain
  ensure (challenge.account = owner) .invalidAccountId
  ensure (s.blockNumber ≤ challenge.expiresAt) .challengeExpired
  ensure (challenge.genesisHash = cfg.genesisHash) .genesisMismatch
  ensure (challenge.nodeIdHash = cfg.blake2256 nodeIdHex) .challengeMismatch
  ensure (s.usedChallenges (cfg.blake2256 challengeBytes) = none) .challengeReused
  ensure (verifyEd25519 cfg challengeBytes sig publicKey = true) .invalidSignature
  ensure (verifyPeerId publicKey nodeIdHex keyType = true) .publicKeyMismatch
  .ok challenge

def checkRole (owner : A) (nodeType : NodeType) : Except Error Unit := do
  let uids := cfg.uids s.world
  ensure (uids.any fun uid => uid.1 = owner) .nodeNotInUids
  ensure (owner ∈ cfg.whitelistedValidators s.world ∨
    (uids.find? fun uid => uid.1 = owner).all fun uid => uid.2 = nodeType.toRole) .nodeTypeMismatch

def admitNode (owner : A) (nodeType : NodeType) (nodeId : Bytes) : Except Error Unit := do
  ensure (s.bannedAccounts owner = false) .accountBanned
  ensure (isOwnerNodeRegistered s owner = false) .ownerAlreadyRegistered
  ensure (s.nodeLastDeregisteredAt nodeId + cfg.nodeCooldownPeriod ≤ s.blockNumber) .nodeCooldownPeriodNotExpired
  ensure ((s.coldkeyNodeRegistrationV2.lookup nodeId).isNone = true) .nodeAlreadyRegistered
  ensure (s.disabledNodeTypes nodeType = false) .nodeTypeDisabled
  ensure (nodeType = .validator → cfg.minerStakeThreshold ≤ cfg.activeStake s.world owner) .insufficientStake
  checkRole cfg s owner nodeType

variable (origin : Origin A)

def ensureRoot : Except Error Unit := ensure (origin = .root) .badOrigin

def registerNodeWithColdkey (nodeType : NodeType) (nodeId : Bytes) (payInCredits : Bool) (owner : A)
    (mainKeyType : Libp2pKeyType) (mainPublicKey mainSig challengeBytes nodeIdHex : Bytes) :
    Except Error (State A H W) := do
  let who ← okOr origin.signer .badOrigin
  ensure (who = owner) .notNodeOwner
  ensure (payInCredits = false) .payInCreditsDisabled
  let challenge ← checkChallenge cfg s owner mainKeyType mainPublicKey mainSig challengeBytes nodeIdHex
  let used := {s with
    usedChallenges:=update s.usedChallenges (cfg.blake2256 challengeBytes) (some challenge.expiresAt)}
  admitNode cfg used owner nodeType nodeId
  let paid ← chargeFee cfg used owner nodeType
  let registered := registerColdkeyNode paid ⟨nodeId,nodeType,.online,paid.blockNumber,owner⟩
  .ok (depositEvent
    {registered with
      libp2pMainIdentity:=update registered.libp2pMainIdentity nodeId (some (mainKeyType,mainPublicKey))}
    (.mainNodeRegistered nodeId))

def forceRegisterColdkeyNode (owner : A) (nodeType : NodeType) (nodeId : Bytes) : Except Error (State A H W) := do
  ensureRoot origin
  ensure (s.bannedAccounts owner = false) .accountBanned
  ensure (isOwnerNodeRegistered s owner = false) .ownerAlreadyRegistered
  ensure ((s.coldkeyNodeRegistrationV2.lookup nodeId).isNone = true) .nodeAlreadyRegistered
  .ok (depositEvent (registerColdkeyNode s ⟨nodeId,nodeType,.online,s.blockNumber,owner⟩) (.mainNodeRegistered nodeId))

def setNodeStatusToDegraded (nodeId : Bytes) : Except Error (State A H W) := do
  ensureRoot origin
  let info ← okOr (s.coldkeyNodeRegistrationV2.lookup nodeId) .nodeNotFound
  ensure (info.nodeType = .storageMiner) .notAminer
  .ok (depositEvent
    {s with coldkeyNodeRegistrationV2:=s.coldkeyNodeRegistrationV2.insert nodeId {info with status:=.degraded}}
    (.nodeStatusUpdated nodeId .degraded))

def setFeeCharging (enabled : Bool) : Except Error (State A H W) := do
  ensureRoot origin
  .ok (depositEvent {s with feeChargingEnabled:=enabled} (.feeChargingStatusChanged enabled))

def setNodeTypeFeeFloor (nodeType : NodeType) (fee : Word 128) : Except Error (State A H W) := do
  let authority ← okOr origin.signer .badOrigin
  ensure (cfg.isAuthority s.world authority = true) .notAuthority
  .ok (depositEvent {s with currentNodeTypeFee:=update s.currentNodeTypeFee nodeType (some fee)}
    (.nodeTypeFeeUpdated nodeType fee))

def setNodeTypeDisabled (nodeType : NodeType) (disabled : Bool) : Except Error (State A H W) := do
  ensureRoot origin
  .ok (depositEvent {s with disabledNodeTypes:=update s.disabledNodeTypes nodeType disabled}
    (.nodeTypeDisabledChanged nodeType disabled))

def forceUnregisterColdkeyNode (nodeId : Bytes) : Except Error (State A H W) := do
  ensureRoot origin
  .ok (doSetNodeStatusDegradedOrUnregister cfg s nodeId)

def unregisterMainNode (nodeId : Bytes) : Except Error (State A H W) := do
  let who ← okOr origin.signer .badOrigin
  let info ← okOr (s.coldkeyNodeRegistrationV2.lookup nodeId) .nodeNotRegistered
  ensure (info.owner = who) .notNodeOwner
  .ok (doSetNodeStatusDegradedOrUnregister cfg s nodeId)

def swapNodeOwner (nodeId : Bytes) (newOwner : A) : Except Error (State A H W) := do
  let who ← okOr origin.signer .badOrigin
  let info ← okOr (s.coldkeyNodeRegistrationV2.lookup nodeId) .nodeNotRegistered
  ensure (info.owner = who) .notNodeOwner
  ensure (s.bannedAccounts newOwner = false) .accountBanned
  ensure (isOwnerNodeRegistered s newOwner = false) .ownerAlreadyRegistered
  let swapped := {s with coldkeyNodeRegistrationV2:=s.coldkeyNodeRegistrationV2.insert nodeId {info with owner:=newOwner}}
  .ok (depositEvent (ownerToNodeAdd (ownerToNodeRemove swapped info.owner nodeId) newOwner nodeId)
    (.nodeOwnerSwapped nodeId newOwner))

def submitDeregistrationReport (nodeIds : List Bytes) : Except Error (State A H W) := do
  let who ← okOr origin.signer .badOrigin
  ensure (s.deregistrationEnabled = true) .deregistrationDisabled
  let mainAccount := resolveDeregistrationReporter cfg s who
  let info ← okOr (getRegisteredNodeForOwner s mainAccount) .nodeNotRegistered
  ensure (info.nodeType = .validator) .invalidNodeType
  let requests := s.reportSubmissionCount info.nodeId
  ensure (requests ≤ cfg.maxDeregRequestsPerPeriod) .tooManyRequests
  let existing := (s.temporaryDeregistrationReports.lookup mainAccount).getD []
  .ok {s with
    reportSubmissionCount:=update s.reportSubmissionCount info.nodeId (saturatingAdd 32 requests 1)
    temporaryDeregistrationReports:=s.temporaryDeregistrationReports.insert mainAccount
      (existing ++ nodeIds.map fun nodeId => ⟨nodeId,s.blockNumber⟩)}

def setAccountBanStatus (account : A) (banned : Bool) : Except Error (State A H W) := do
  ensureRoot origin
  .ok (depositEvent {s with bannedAccounts:=update s.bannedAccounts account banned} (.accountBanStatusChanged account banned))

def setDeregistrationEnabled (enabled : Bool) : Except Error (State A H W) := do
  ensureRoot origin
  .ok (depositEvent {s with deregistrationEnabled:=enabled} (.deregistrationStatusChanged enabled))

end

-- The calls; doUnregisterMainNode is called by another pallet, and elsewhere is whatever
-- happens outside.
inductive Call (A W : Type) where
  | forceRegisterColdkeyNode (origin : Origin A) (owner : A) (nodeType : NodeType) (nodeId : Bytes)
  | registerNodeWithColdkey (origin : Origin A) (nodeType : NodeType) (nodeId : Bytes) (payInCredits : Bool)
      (owner : A) (mainKeyType : Libp2pKeyType) (mainPublicKey mainSig challengeBytes nodeIdHex : Bytes)
  | setNodeStatusToDegraded (origin : Origin A) (nodeId : Bytes)
  | setFeeCharging (origin : Origin A) (enabled : Bool)
  | setNodeTypeFeeFloor (origin : Origin A) (nodeType : NodeType) (fee : Word 128)
  | setNodeTypeDisabled (origin : Origin A) (nodeType : NodeType) (disabled : Bool)
  | forceUnregisterColdkeyNode (origin : Origin A) (nodeId : Bytes)
  | unregisterMainNode (origin : Origin A) (nodeId : Bytes)
  | swapNodeOwner (origin : Origin A) (nodeId : Bytes) (newOwner : A)
  | submitDeregistrationReport (origin : Origin A) (nodeIds : List Bytes)
  | setAccountBanStatus (origin : Origin A) (account : A) (banned : Bool)
  | setDeregistrationEnabled (origin : Origin A) (enabled : Bool)
  | doUnregisterMainNode (nodeId : Bytes)
  | nextBlock
  | elsewhere (world : W)

section
variable {A H W : Type} [DecidableEq A] [DecidableEq H]

def dispatch (cfg : Config A H W) (s : State A H W) :
    Call A W → Except Error (State A H W)
  | .forceRegisterColdkeyNode origin owner nodeType nodeId => forceRegisterColdkeyNode s origin owner nodeType nodeId
  | .registerNodeWithColdkey origin nodeType nodeId payInCredits owner mainKeyType mainPublicKey mainSig challengeBytes nodeIdHex =>
    registerNodeWithColdkey cfg s origin nodeType nodeId payInCredits owner mainKeyType mainPublicKey mainSig challengeBytes
      nodeIdHex
  | .setNodeStatusToDegraded origin nodeId => setNodeStatusToDegraded s origin nodeId
  | .setFeeCharging origin enabled => setFeeCharging s origin enabled
  | .setNodeTypeFeeFloor origin nodeType fee => setNodeTypeFeeFloor cfg s origin nodeType fee
  | .setNodeTypeDisabled origin nodeType disabled => setNodeTypeDisabled s origin nodeType disabled
  | .forceUnregisterColdkeyNode origin nodeId => forceUnregisterColdkeyNode cfg s origin nodeId
  | .unregisterMainNode origin nodeId => unregisterMainNode cfg s origin nodeId
  | .swapNodeOwner origin nodeId newOwner => swapNodeOwner s origin nodeId newOwner
  | .submitDeregistrationReport origin nodeIds => submitDeregistrationReport cfg s origin nodeIds
  | .setAccountBanStatus origin account banned => setAccountBanStatus s origin account banned
  | .setDeregistrationEnabled origin enabled => setDeregistrationEnabled s origin enabled
  | .doUnregisterMainNode nodeId => .ok (doUnregisterMainNode cfg s nodeId)
  | .nextBlock => .ok (onInitialize cfg s (s.blockNumber + 1))
  | .elsewhere world => .ok {s with world:=world}

def step (cfg : Config A H W) (s : State A H W) (call : Call A W) :
    State A H W := commit s (dispatch cfg s call)

end
end TheBrain.Registration
