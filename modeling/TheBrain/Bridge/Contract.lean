import TheBrain.Bridge.RequestId
import TheBrain.Library.Machine
import TheBrain.Library.StorageMap

namespace TheBrain.Bridge.Contract
open Library Machine Words

def maxGuardians : Nat := 10
def transferTolerance : Nat := 10

inductive DepositRequestStatus where
  | requested | failed
  deriving DecidableEq, Repr

inductive WithdrawalStatus where
  | pending | completed | cancelled
  deriving DecidableEq, Repr

inductive CancelReason where
  | adminEmergency
  deriving DecidableEq, Repr

structure DepositRequest (A : Type) where
  sender : A
  recipient : A
  amount : Nat
  nonce : Nat
  hotkey : A
  netuid : Nat
  status : DepositRequestStatus
  createdAtBlock : Nat

structure Withdrawal (A Hash : Type) where
  requestId : Hash
  recipient : A
  amount : Nat
  votes : List A
  status : WithdrawalStatus
  createdAtBlock : Nat
  finalizedAtBlock : Option Nat

inductive Event (A Hash : Type) where
  | depositRequestCreated (depositNonce : Nat) (sender : A) (amount : Nat) (depositRequestId : Hash)
  | depositRequestFailed (depositRequestId : Hash)
  | withdrawalAttested (withdrawalId : Hash) (guardian : A) (voteCount : Nat)
  | withdrawalCompleted (withdrawalId : Hash) (recipient : A) (amount : Nat)
  | withdrawalCancelled (withdrawalId : Hash) (reason : CancelReason)
  | adminManualRelease (recipient : A) (amount : Nat) (depositRequestId : Option Hash)
  | guardiansUpdated (guardians : List A) (approveThreshold : Nat) (updatedBy : A)
  | paused (pausedBy : A)
  | unpaused (unpausedBy : A)
  | ownerUpdated (oldOwner newOwner : A)
  | contractHotkeyUpdated (oldHotkey newHotkey updatedBy : A)
  | depositRequestCleanedUp (depositRequestId : Hash)
  | withdrawalCleanedUp (withdrawalId : Hash)
  | cleanupTTLUpdated (oldTTL newTTL : Nat)
  | minDepositAmountUpdated (oldAmount newAmount : Nat)
  deriving DecidableEq, Repr

inductive Error where
  | unauthorized | notGuardian | alreadyVoted | insufficientStake | transferNotVerified | insufficientContractStake
  | amountTooSmall | invalidThresholds | tooManyGuardians | invalidTTL | bridgePaused | depositRequestNotFound
  | withdrawalNotFound | depositRequestAlreadyFinalized | withdrawalAlreadyFinalized | overflow | runtimeCallFailed
  | stakeQueryFailed | transferFailed | stakeConsolidationFailed | invalidRequestId | recordNotFinalized | ttlNotExpired
  deriving DecidableEq, Repr

-- The Subtensor chain behind the extension, with stakes on the bridged subnet by
-- coldkey and hotkey. A query or a transfer may be refused for any reason. Moving
-- and releasing stake are exact; the proxied transfer of a deposit only stays
-- between its two coldkeys, the contract itself verifies how much arrived.
structure Subtensor (A Chain : Type) [DecidableEq A] where
  stake : Chain → A → A → Nat
  getStakeInfo : Chain → A → A → Option (Option Nat)
  proxyTransferStake : Chain → A → A → A → Nat → Option Chain
  moveStake : Chain → A → A → A → Nat → Option Chain
  transferStake : Chain → A → A → A → Nat → Option Chain
  info_exact : ∀ chain hotkey coldkey info, getStakeInfo chain hotkey coldkey = some info →
    info.getD 0 = stake chain coldkey hotkey
  proxy_between : ∀ chain real destination hotkey amount next,
    proxyTransferStake chain real destination hotkey amount = some next →
      ∀ c h, (h ≠ hotkey ∨ c ≠ real ∧ c ≠ destination) → stake next c h = stake chain c h
  move_exact : ∀ chain coldkey source destination amount next,
    moveStake chain coldkey source destination amount = some next →
      ∀ c h, stake next c h + (if c = coldkey ∧ h = source then amount else 0) =
        stake chain c h + (if c = coldkey ∧ h = destination then amount else 0)
  transfer_exact : ∀ chain source destination hotkey amount next,
    transferStake chain source destination hotkey amount = some next →
      ∀ c h, stake next c h + (if c = source ∧ h = hotkey then amount else 0) =
        stake chain c h + (if c = destination ∧ h = hotkey then amount else 0)

structure Config (A Hash Chain : Type) [DecidableEq A] extends Subtensor A Chain where
  blake2x256 : List UInt8 → Hash
  asRef : A → List UInt8
  accountId : A

structure State (A Hash Chain : Type) where
  blockNumber : Nat
  chain : Chain
  owner : A
  chainId : Nat
  contractHotkey : A
  paused : Bool
  guardians : List A
  approveThreshold : Nat
  minDepositAmount : Nat
  nextDepositNonce : Nat
  depositRequests : StorageMap Hash (DepositRequest A)
  nonceToDepositRequestId : StorageMap Nat Hash
  withdrawals : StorageMap Hash (Withdrawal A Hash)
  cleanupTTLBlocks : Nat
  events : List (Event A Hash)

section
variable {A Hash Chain : Type} [DecidableEq A] [DecidableEq Hash]

def new (blockNumber : Nat) (chain : Chain) (owner : A) (chainId : Nat) (hotkey : A) :
    State A Hash Chain where
  blockNumber := blockNumber
  chain := chain
  owner := owner
  chainId := chainId
  contractHotkey := hotkey
  paused := false
  guardians := []
  approveThreshold := 0
  minDepositAmount := 1000000000
  nextDepositNonce := 0
  depositRequests := ∅
  nonceToDepositRequestId := ∅
  withdrawals := ∅
  cleanupTTLBlocks := 100800
  events := []

variable (cfg : Config A Hash Chain) (s : State A Hash Chain)

def emitEvent (e : Event A Hash) : State A Hash Chain :=
  {s with events:=s.events ++ [e]}

def ensureOwner (caller : A) : Except Error Unit :=
  ensure (caller = s.owner) .unauthorized

def ensureNotPaused : Except Error Unit := ensure (s.paused = false) .bridgePaused

def ensureGuardian (caller : A) : Except Error Unit :=
  ensure (caller ∈ s.guardians) .notGuardian

def getStakeAmount (chain : Chain) (coldkey hotkey : A) : Except Error Nat := do
  let info ← okOr (cfg.getStakeInfo chain hotkey coldkey) .stakeQueryFailed
  .ok (info.getD 0)

def moved (amount change : Nat) : Prop := amount - transferTolerance ≤ change ∧ change ≤ amount

instance (amount change : Nat) : Decidable (moved amount change) := inferInstanceAs (Decidable (_ ∧ _))

def consolidate (chain : Chain) (hotkey : A) : Except Error Chain :=
  if hotkey ≠ s.contractHotkey then do
    let onUserHotkey ← getStakeAmount cfg chain cfg.accountId hotkey
    if 0 < onUserHotkey then
      okOr (cfg.moveStake chain cfg.accountId hotkey s.contractHotkey onUserHotkey) .stakeConsolidationFailed
    else .ok chain
  else .ok chain

def depositRequestId (sender : A) (halphaAmount nonce : Nat) : Hash :=
  cfg.blake2x256 (requestBytes domainDepositRequest (cfg.asRef sender) halphaAmount nonce)

def deposit (sender : A) (amount : Nat) (hotkey : A) : Except Error (State A Hash Chain) := do
  ensureNotPaused s
  ensure (s.minDepositAmount ≤ amount) .amountTooSmall
  let recipient := sender
  let senderBefore ← getStakeAmount cfg s.chain sender hotkey
  ensure (amount ≤ senderBefore) .insufficientStake
  let contractBefore ← getStakeAmount cfg s.chain cfg.accountId hotkey
  let chain ← okOr (cfg.proxyTransferStake s.chain sender cfg.accountId hotkey amount) .runtimeCallFailed
  let senderAfter ← getStakeAmount cfg chain sender hotkey
  let contractAfter ← getStakeAmount cfg chain cfg.accountId hotkey
  ensure (moved amount (senderBefore - senderAfter) ∧ moved amount (contractAfter - contractBefore)) .transferNotVerified
  let chain ← consolidate cfg s chain hotkey
  let nonce := s.nextDepositNonce
  let nextNonce ← okOr (checkedAdd 64 nonce 1) .overflow
  let halphaAmount ← okOr (checkedMul 128 amount halphaRaoPerAlphaRao) .overflow
  let requestId := depositRequestId cfg sender halphaAmount nonce
  let request : DepositRequest A :=
    {sender:=sender,recipient:=recipient,amount:=amount,nonce:=nonce,hotkey:=hotkey,netuid:=s.chainId,
      status:=.requested,createdAtBlock:=s.blockNumber}
  .ok (emitEvent {s with
    chain:=chain,nextDepositNonce:=nextNonce,
    depositRequests:=s.depositRequests.insert requestId request,
    nonceToDepositRequestId:=s.nonceToDepositRequestId.insert nonce requestId}
    (.depositRequestCreated nonce sender amount requestId))

def finalizeWithdrawal (withdrawalId : Hash) (withdrawal : Withdrawal A Hash) : Except Error (State A Hash Chain) := do
  let contractStake ← getStakeAmount cfg s.chain cfg.accountId s.contractHotkey
  ensure (withdrawal.amount ≤ contractStake) .insufficientContractStake
  let chain ← okOr (cfg.transferStake s.chain cfg.accountId withdrawal.recipient s.contractHotkey withdrawal.amount) .transferFailed
  let finalized := {withdrawal with finalizedAtBlock:=some s.blockNumber,status:=.completed}
  .ok (emitEvent {s with chain:=chain,withdrawals:=s.withdrawals.insert withdrawalId finalized}
    (.withdrawalCompleted withdrawalId withdrawal.recipient withdrawal.amount))

-- As on the other chain every recorded vote counts, also of accounts that are no
-- longer guardians.
def countVote (requestId : Hash) (withdrawal : Withdrawal A Hash) : Except Error (State A Hash Chain) :=
  if s.approveThreshold ≤ withdrawal.votes.length then finalizeWithdrawal cfg s requestId withdrawal
  else .ok {s with withdrawals:=s.withdrawals.insert requestId withdrawal}

def withdrawalRequestId (recipient : A) (amount nonce : Nat) : Hash :=
  cfg.blake2x256 (requestBytes domainWithdrawalRequest (cfg.asRef recipient) amount nonce)

def attestWithdrawal (caller : A) (requestId : Hash) (recipient : A)
    (amount nonce : Nat) : Except Error (State A Hash Chain) := do
  ensureNotPaused s
  ensureGuardian s caller
  ensure (withdrawalRequestId cfg recipient amount nonce = requestId) .invalidRequestId
  match s.withdrawals.lookup requestId with
  | some withdrawal =>
    ensure (withdrawal.status = .pending) .withdrawalAlreadyFinalized
    ensure (caller ∉ withdrawal.votes) .alreadyVoted
    let votes := withdrawal.votes ++ [caller]
    countVote cfg (emitEvent s (.withdrawalAttested requestId caller (votes.length % 2 ^ 16))) requestId
      {withdrawal with votes:=votes}
  | none =>
    countVote cfg (emitEvent s (.withdrawalAttested requestId caller 1)) requestId
      {requestId:=requestId,recipient:=recipient,amount:=amount,votes:=[caller],status:=.pending,
        createdAtBlock:=s.blockNumber,finalizedAtBlock:=none}

def adminFailDepositRequest (caller : A) (requestId : Hash) : Except Error (State A Hash Chain) := do
  ensureOwner s caller
  let request ← okOr (s.depositRequests.lookup requestId) .depositRequestNotFound
  ensure (request.status = .requested) .depositRequestAlreadyFinalized
  .ok (emitEvent {s with depositRequests:=s.depositRequests.insert requestId {request with status:=.failed}}
    (.depositRequestFailed requestId))

def adminManualRelease (caller recipient : A) (amount : Nat)
    (depositRequestId : Option Hash) : Except Error (State A Hash Chain) := do
  ensureOwner s caller
  let chain ← okOr (cfg.transferStake s.chain cfg.accountId recipient s.contractHotkey amount) .transferFailed
  .ok (emitEvent {s with chain:=chain} (.adminManualRelease recipient amount depositRequestId))

def adminCancelWithdrawal (caller : A) (requestId : Hash) (reason : CancelReason) : Except Error (State A Hash Chain) := do
  ensureOwner s caller
  let withdrawal ← okOr (s.withdrawals.lookup requestId) .withdrawalNotFound
  ensure (withdrawal.status = .pending) .withdrawalAlreadyFinalized
  let cancelled := {withdrawal with finalizedAtBlock:=some s.blockNumber,status:=.cancelled}
  .ok (emitEvent {s with withdrawals:=s.withdrawals.insert requestId cancelled} (.withdrawalCancelled requestId reason))

-- Unlike the pallet, the contract re-evaluates nothing when its guardians change.
def setGuardiansAndThreshold (caller : A) (guardians : List A)
    (approveThreshold : Nat) : Except Error (State A Hash Chain) := do
  ensureOwner s caller
  ensure (guardians.length ≤ maxGuardians) .tooManyGuardians
  ensure (guardians.length < 2 ^ 16) .tooManyGuardians
  ensure (approveThreshold ≤ guardians.length ∧ approveThreshold ≠ 0) .invalidThresholds
  .ok (emitEvent {s with guardians:=guardians,approveThreshold:=approveThreshold}
    (.guardiansUpdated guardians approveThreshold caller))

def pause (caller : A) : Except Error (State A Hash Chain) := do
  ensureOwner s caller
  .ok (emitEvent {s with paused:=true} (.paused caller))

def unpause (caller : A) : Except Error (State A Hash Chain) := do
  ensureOwner s caller
  .ok (emitEvent {s with paused:=false} (.unpaused caller))

def updateOwner (caller newOwner : A) : Except Error (State A Hash Chain) := do
  ensureOwner s caller
  .ok (emitEvent {s with owner:=newOwner} (.ownerUpdated s.owner newOwner))

def setContractHotkey (caller hotkey : A) : Except Error (State A Hash Chain) := do
  ensureOwner s caller
  .ok (emitEvent {s with contractHotkey:=hotkey} (.contractHotkeyUpdated s.contractHotkey hotkey caller))

def cleanupDepositRequest (caller : A) (requestId : Hash) : Except Error (State A Hash Chain) := do
  ensureGuardian s caller
  let request ← okOr (s.depositRequests.lookup requestId) .depositRequestNotFound
  ensure (saturatingAdd 32 request.createdAtBlock s.cleanupTTLBlocks ≤ s.blockNumber) .ttlNotExpired
  .ok (emitEvent {s with
    depositRequests:=s.depositRequests.erase requestId,
    nonceToDepositRequestId:=s.nonceToDepositRequestId.erase request.nonce}
    (.depositRequestCleanedUp requestId))

def cleanupWithdrawal (caller : A) (withdrawalId : Hash) : Except Error (State A Hash Chain) := do
  ensureGuardian s caller
  let withdrawal ← okOr (s.withdrawals.lookup withdrawalId) .withdrawalNotFound
  ensure (withdrawal.status = .completed ∨ withdrawal.status = .cancelled) .recordNotFinalized
  let finalizedAt ← okOr withdrawal.finalizedAtBlock .recordNotFinalized
  ensure (saturatingAdd 32 finalizedAt s.cleanupTTLBlocks ≤ s.blockNumber) .ttlNotExpired
  .ok (emitEvent {s with withdrawals:=s.withdrawals.erase withdrawalId} (.withdrawalCleanedUp withdrawalId))

def setCleanupTTL (caller : A) (ttlBlocks : Nat) : Except Error (State A Hash Chain) := do
  ensureOwner s caller
  ensure (ttlBlocks ≠ 0) .invalidTTL
  .ok (emitEvent {s with cleanupTTLBlocks:=ttlBlocks} (.cleanupTTLUpdated s.cleanupTTLBlocks ttlBlocks))

def setMinDepositAmount (caller : A) (amount : Nat) : Except Error (State A Hash Chain) := do
  ensureOwner s caller
  .ok (emitEvent {s with minDepositAmount:=amount} (.minDepositAmountUpdated s.minDepositAmount amount))

end

-- The messages that write, each with its caller, and what the chain does between
-- them. Replacing the code ends the run of this program and is not a message here.
inductive Call (A Hash Chain : Type) where
  | deposit (caller : A) (amount : Word 64) (hotkey : A)
  | attestWithdrawal (caller : A) (requestId : Hash) (recipient : A) (amount : Word 64) (nonce : Word 64)
  | adminFailDepositRequest (caller : A) (requestId : Hash)
  | adminManualRelease (caller recipient : A) (amount : Word 64) (depositRequestId : Option Hash)
  | adminCancelWithdrawal (caller : A) (requestId : Hash) (reason : CancelReason)
  | setGuardiansAndThreshold (caller : A) (guardians : List A) (approveThreshold : Word 16)
  | pause (caller : A)
  | unpause (caller : A)
  | updateOwner (caller newOwner : A)
  | setContractHotkey (caller hotkey : A)
  | cleanupDepositRequest (caller : A) (requestId : Hash)
  | cleanupWithdrawal (caller : A) (withdrawalId : Hash)
  | setCleanupTTL (caller : A) (ttlBlocks : Word 32)
  | setMinDepositAmount (caller : A) (amount : Word 64)
  | nextBlock (number : Word 32)
  | elsewhere (chain : Chain)

section
variable {A Hash Chain : Type} [DecidableEq A] [DecidableEq Hash]

def dispatch (cfg : Config A Hash Chain) (s : State A Hash Chain) :
    Call A Hash Chain → Except Error (State A Hash Chain)
  | .deposit caller amount hotkey => deposit cfg s caller amount hotkey
  | .attestWithdrawal caller requestId recipient amount nonce => attestWithdrawal cfg s caller requestId recipient amount nonce
  | .adminFailDepositRequest caller requestId => adminFailDepositRequest s caller requestId
  | .adminManualRelease caller recipient amount depositRequestId =>
    adminManualRelease cfg s caller recipient amount depositRequestId
  | .adminCancelWithdrawal caller requestId reason => adminCancelWithdrawal s caller requestId reason
  | .setGuardiansAndThreshold caller guardians approveThreshold => setGuardiansAndThreshold s caller guardians approveThreshold
  | .pause caller => pause s caller
  | .unpause caller => unpause s caller
  | .updateOwner caller newOwner => updateOwner s caller newOwner
  | .setContractHotkey caller hotkey => setContractHotkey s caller hotkey
  | .cleanupDepositRequest caller requestId => cleanupDepositRequest s caller requestId
  | .cleanupWithdrawal caller withdrawalId => cleanupWithdrawal s caller withdrawalId
  | .setCleanupTTL caller ttlBlocks => setCleanupTTL s caller ttlBlocks
  | .setMinDepositAmount caller amount => setMinDepositAmount s caller amount
  | .nextBlock number => .ok (if s.blockNumber < number then {s with blockNumber:=number} else s)
  | .elsewhere chain => .ok {s with chain:=chain}

def step (cfg : Config A Hash Chain) (s : State A Hash Chain) (call : Call A Hash Chain) :
    State A Hash Chain := commit s (dispatch cfg s call)

end

end TheBrain.Bridge.Contract
