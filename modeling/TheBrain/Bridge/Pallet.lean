import Mathlib.Data.Finset.Card
import Mathlib.Data.Finset.Basic
import TheBrain.Bridge.RequestId
import TheBrain.Library.Machine
import TheBrain.Library.StorageMap
import TheBrain.Runtime

namespace TheBrain.Bridge.Pallet
open Library Machine Words

inductive DepositStatus where
  | pending | completed | cancelled
  deriving DecidableEq, Repr

inductive WithdrawalRequestStatus where
  | requested | failed
  deriving DecidableEq, Repr

inductive CancelReason where
  | adminEmergency
  deriving DecidableEq, Repr

inductive StakingRewardTransferStatus where
  | pending | completed | cancelled
  deriving DecidableEq, Repr

structure StakingRewardTransfer (A H : Type) where
  requestId : H
  amount : Nat
  votes : Finset A
  status : StakingRewardTransferStatus
  createdAtBlock : Nat
  finalizedAtBlock : Option Nat

structure Deposit (A H : Type) where
  requestId : H
  recipient : A
  amount : Nat
  votes : Finset A
  status : DepositStatus
  createdAtBlock : Nat
  finalizedAtBlock : Option Nat

structure WithdrawalRequest (A : Type) where
  sender : A
  recipient : A
  amount : Nat
  nonce : Nat
  status : WithdrawalRequestStatus
  createdAtBlock : Nat

inductive Event (A H : Type) where
  | depositAttested (id : H) (guardian : A)
  | depositCompleted (id : H) (recipient : A) (amount : Nat)
  | depositCancelled (id : H) (reason : CancelReason)
  | withdrawalRequestCreated (id : H) (sender recipient : A) (amount : Nat)
  | withdrawalRequestFailed (id : H)
  | adminManualMint (recipient : A) (amount : Nat) (depositId : Option H)
  | paused
  | unpaused
  | globalMintCapUpdated (newCap : Nat)
  | guardiansUpdated (guardians : List A) (approveThreshold : Nat)
  | minWithdrawalAmountUpdated (oldAmount newAmount : Nat)
  | depositCleanedUp (id : H)
  | withdrawalRequestCleanedUp (id : H)
  | cleanupTTLUpdated (oldTTL newTTL : Nat)
  | stakingRewardTransferAttested (id : H) (guardian : A)
  | stakingRewardTransferCompleted (id : H) (amount : Nat)
  | stakingRewardTransferCancelled (id : H)
  | stakingRewardTransferCleanedUp (id : H)
  | rewardBridgeWhitelistAdded (account : A)
  | rewardBridgeWhitelistRemoved (account : A)
  | maxMintPerEraUpdated (newLimit : Nat)
  deriving DecidableEq, Repr

-- badOrigin is the runtime's own dispatch error; the others are the pallet's.
inductive Error where
  | badOrigin
  | notGuardian | alreadyVoted | insufficientBalance | capExceeded | bridgePaused
  | depositNotFound | withdrawalRequestNotFound | invalidStatus | thresholdTooLow | thresholdTooHigh
  | tooManyGuardians | amountConversionFailed | mintFailed | arithmeticOverflow | depositAlreadyCompleted
  | withdrawalRequestAlreadyFinalized | amountTooSmall | accountingUnderflow | recordNotFinalized
  | ttlNotExpired | invalidTTL | invalidRequestId | amountNotBridgeable | stakingRewardTransferNotFound
  | stakingRewardTransferAlreadyVoted | stakingRewardTransferAlreadyCompleted | notWhitelisted | eraLimitExceeded
  deriving DecidableEq, Repr

def maxGuardians : Nat := 10

-- The balances pallet is not part of the bridge. Its account table is an opaque
-- value; minting and burning may be refused for any reason, but move exactly the
-- amount when accepted.
structure Ledger (A B : Type) [DecidableEq A] where
  issuance : B → Nat
  free : B → A → Nat
  mintInto : B → A → Nat → Option B
  burnFrom : B → A → Nat → Option B
  mint_exact : ∀ accounts who amount next, mintInto accounts who amount = some next →
    issuance next = issuance accounts + amount ∧
      ∀ other, free next other = free accounts other + if other = who then amount else 0
  burn_exact : ∀ accounts who amount next, burnFrom accounts who amount = some next →
    issuance next + amount = issuance accounts ∧
      ∀ other, free next other + (if other = who then amount else 0) = free accounts other

-- What the runtime fixes: balances, the hash, the account codec, the staking pot
-- and the order in which the storage of deposits is iterated.
structure Config (A H B : Type) [DecidableEq A] extends Ledger A B where
  blake2256 : List UInt8 → H
  encode : A → List UInt8
  rewardDestination : A
  depositRank : H → Nat

structure State (A H B : Type) where
  blockNumber : Nat
  activeEraIndex : Nat
  accounts : B
  guardians : List A
  approveThreshold : Nat
  globalMintCap : Nat
  totalMintedByBridge : Nat
  paused : Bool
  deposits : StorageMap H (Deposit A H)
  stakingRewardTransfers : StorageMap H (StakingRewardTransfer A H)
  nextStakingRewardTransferNonce : Nat
  maxMintPerEra : Nat
  eraMintedAmount : Nat
  lastTransferEra : Nat
  rewardBridgeWhitelist : Finset A
  withdrawalRequests : StorageMap H (WithdrawalRequest A)
  nextWithdrawalRequestNonce : Nat
  cleanupTTLBlocks : Nat
  minWithdrawalAmount : Nat
  events : List (Event A H)

def genesis (accounts : B) : State A H B where
  blockNumber := 0
  activeEraIndex := 0
  accounts := accounts
  guardians := []
  approveThreshold := 0
  globalMintCap := 0
  totalMintedByBridge := 0
  paused := false
  deposits := ∅
  stakingRewardTransfers := ∅
  nextStakingRewardTransferNonce := 0
  maxMintPerEra := 1000000000000000
  eraMintedAmount := 0
  lastTransferEra := 0
  rewardBridgeWhitelist := ∅
  withdrawalRequests := ∅
  nextWithdrawalRequestNonce := 0
  cleanupTTLBlocks := 100800
  minWithdrawalAmount := 1000000000
  events := []

section
variable {A H B : Type} [DecidableEq A] [DecidableEq H]
variable (cfg : Config A H B) (s : State A H B) (origin : Origin A)

def depositEvent (e : Event A H) : State A H B :=
  {s with events:=s.events ++ [e]}

def ensureSigned : Origin A → Except Error A
  | .signed account => .ok account
  | .root => .error .badOrigin

def ensureRoot : Origin A → Except Error Unit
  | .root => .ok ()
  | .signed _ => .error .badOrigin

def ensureGuardian (account : A) : Except Error Unit :=
  ensure (account ∈ s.guardians) .notGuardian

def ensureNotPaused : Except Error Unit :=
  ensure (s.paused = false) .bridgePaused

def ensureWhitelisted (account : A) : Except Error Unit :=
  ensure (account ∈ s.rewardBridgeWhitelist) .notWhitelisted

-- The runtime's balance type is u128 too, so no amount of a call is refused here.
def amountToBalance (amount : Nat) : Except Error Nat :=
  okOr (if amount < 2 ^ 128 then some amount else none) .amountConversionFailed

def generateWithdrawalRequestId (account : A) (amount : Nat) : State A H B × H × Nat :=
  let nonce := s.nextWithdrawalRequestNonce
  let alphaAmount := amount / halphaRaoPerAlphaRao
  ({s with nextWithdrawalRequestNonce:=saturatingAdd 64 nonce 1},
    cfg.blake2256 (requestBytes domainWithdrawalRequest (cfg.encode account) alphaAmount nonce),nonce)

def raiseTotalMinted (amount : Nat) : Except Error (State A H B) := do
  let newTotal ← okOr (checkedAdd 128 s.totalMintedByBridge amount) .arithmeticOverflow
  ensure (newTotal ≤ s.globalMintCap) .capExceeded
  .ok {s with totalMintedByBridge:=newTotal}

def mintToRecipient (recipient : A) (amount : Nat) : Except Error (State A H B) := do
  let balanceAmount ← amountToBalance amount
  let accounts ← okOr (cfg.mintInto s.accounts recipient balanceAmount) .mintFailed
  .ok {s with accounts:=accounts}

def finalizeDeposit (depositId : H) (deposit : Deposit A H) : Except Error (State A H B) := do
  let s ← raiseTotalMinted s deposit.amount
  let s ← mintToRecipient cfg s deposit.recipient deposit.amount
  let finalized := {deposit with finalizedAtBlock:=some s.blockNumber,status:=.completed}
  .ok (depositEvent {s with deposits:=s.deposits.insert depositId finalized}
    (.depositCompleted depositId deposit.recipient deposit.amount))

-- The per-era counter belongs to the era of the last transfer, so it restarts
-- before the limit is checked when the staking era has moved on.
def enterEra : State A H B :=
  if s.lastTransferEra ≠ s.activeEraIndex then {s with lastTransferEra:=s.activeEraIndex,eraMintedAmount:=0} else s

def finalizeStakingRewardTransfer (id : H) (transfer : StakingRewardTransfer A H) : Except Error (State A H B) := do
  let s ← raiseTotalMinted s transfer.amount
  let s := enterEra s
  let newEraTotal ← okOr (checkedAdd 128 s.eraMintedAmount transfer.amount) .arithmeticOverflow
  ensure (newEraTotal ≤ s.maxMintPerEra) .eraLimitExceeded
  let s ← mintToRecipient cfg {s with eraMintedAmount:=newEraTotal} cfg.rewardDestination transfer.amount
  let finalized := {transfer with finalizedAtBlock:=some s.blockNumber,status:=.completed}
  .ok (depositEvent {s with stakingRewardTransfers:=s.stakingRewardTransfers.insert id finalized}
    (.stakingRewardTransferCompleted id transfer.amount))

def withdraw (amount : Nat) : Except Error (State A H B) := do
  let sender ← ensureSigned origin
  let recipient := sender
  ensureNotPaused s
  ensure (s.minWithdrawalAmount ≤ amount) .amountTooSmall
  ensure (amount % halphaRaoPerAlphaRao = 0) .amountNotBridgeable
  let balanceValue ← amountToBalance amount
  let accounts ← okOr (cfg.burnFrom s.accounts sender balanceValue) .insufficientBalance
  let total ← okOr (checkedSub s.totalMintedByBridge amount) .accountingUnderflow
  let generated := generateWithdrawalRequestId cfg {s with accounts:=accounts,totalMintedByBridge:=total} sender amount
  let request : WithdrawalRequest A :=
    {sender:=sender,recipient:=recipient,amount:=amount,nonce:=generated.2.2,status:=.requested,createdAtBlock:=s.blockNumber}
  .ok (depositEvent {generated.1 with withdrawalRequests:=s.withdrawalRequests.insert generated.2.1 request}
    (.withdrawalRequestCreated generated.2.1 sender recipient amount))

-- A record with a new vote is finalized as soon as it has as many votes as the
-- threshold asks, and stored otherwise. Every recorded vote counts here, also the
-- votes of accounts that have since left the guardian set.
def countVote (requestId : H) (deposit : Deposit A H) : Except Error (State A H B) :=
  if s.approveThreshold ≤ deposit.votes.card then finalizeDeposit cfg s requestId deposit
  else .ok {s with deposits:=s.deposits.insert requestId deposit}

def depositRequestId (recipient : A) (amount nonce : Nat) : H :=
  cfg.blake2256 (requestBytes domainDepositRequest (cfg.encode recipient) amount nonce)

def attestDeposit (requestId : H) (recipient : A) (amount nonce : Nat) : Except Error (State A H B) := do
  let guardian ← ensureSigned origin
  ensureGuardian s guardian
  ensureNotPaused s
  ensure (depositRequestId cfg recipient amount nonce = requestId) .invalidRequestId
  match s.deposits.lookup requestId with
  | some deposit =>
    ensure (deposit.status = .pending) .depositAlreadyCompleted
    ensure (guardian ∉ deposit.votes) .alreadyVoted
    countVote cfg (depositEvent s (.depositAttested requestId guardian)) requestId
      {deposit with votes:=insert guardian deposit.votes}
  | none =>
    countVote cfg (depositEvent s (.depositAttested requestId guardian)) requestId
      {requestId:=requestId,recipient:=recipient,amount:=amount,votes:={guardian},status:=.pending,
        createdAtBlock:=s.blockNumber,finalizedAtBlock:=none}

-- Block numbers are u64 and their addition wraps in a release build.
def cleanupDeposit (depositId : H) : Except Error (State A H B) := do
  let caller ← ensureSigned origin
  ensureGuardian s caller
  let deposit ← okOr (s.deposits.lookup depositId) .depositNotFound
  ensure (deposit.status = .completed ∨ deposit.status = .cancelled) .recordNotFinalized
  let finalizedAt ← okOr deposit.finalizedAtBlock .recordNotFinalized
  ensure (wrappingAdd 64 finalizedAt s.cleanupTTLBlocks ≤ s.blockNumber) .ttlNotExpired
  .ok (depositEvent {s with deposits:=s.deposits.erase depositId} (.depositCleanedUp depositId))

def cleanupWithdrawalRequest (requestId : H) : Except Error (State A H B) := do
  let caller ← ensureSigned origin
  ensureGuardian s caller
  let request ← okOr (s.withdrawalRequests.lookup requestId) .withdrawalRequestNotFound
  ensure (request.status = .failed) .invalidStatus
  ensure (wrappingAdd 64 request.createdAtBlock s.cleanupTTLBlocks ≤ s.blockNumber) .ttlNotExpired
  .ok (depositEvent {s with withdrawalRequests:=s.withdrawalRequests.erase requestId}
    (.withdrawalRequestCleanedUp requestId))

def stakingRewardTransferId (amount nonce : Nat) : H :=
  cfg.blake2256 (domainStakingRewardTransfer ++ leBytes 16 amount ++ leBytes 8 nonce)

def countRewardVote (id : H) (transfer : StakingRewardTransfer A H) : Except Error (State A H B) :=
  if s.approveThreshold ≤ transfer.votes.card then finalizeStakingRewardTransfer cfg s id transfer
  else .ok {s with stakingRewardTransfers:=s.stakingRewardTransfers.insert id transfer}

-- Proposing and attesting a reward transfer ask for the whitelist only; the
-- guardian list is not consulted.
def proposeStakingRewardTransfer (amount : Nat) : Except Error (State A H B) := do
  let guardian ← ensureSigned origin
  ensureWhitelisted s guardian
  ensureNotPaused s
  ensure (0 < amount) .amountTooSmall
  let nonce := s.nextStakingRewardTransferNonce
  let requestId := stakingRewardTransferId cfg amount nonce
  countRewardVote cfg
    (depositEvent {s with nextStakingRewardTransferNonce:=saturatingAdd 64 nonce 1}
      (.stakingRewardTransferAttested requestId guardian))
    requestId
    {requestId:=requestId,amount:=amount,votes:={guardian},status:=.pending,
      createdAtBlock:=s.blockNumber,finalizedAtBlock:=none}

def attestStakingRewardTransfer (id : H) : Except Error (State A H B) := do
  let guardian ← ensureSigned origin
  ensureWhitelisted s guardian
  ensureNotPaused s
  let transfer ← okOr (s.stakingRewardTransfers.lookup id) .stakingRewardTransferNotFound
  ensure (transfer.status = .pending) .stakingRewardTransferAlreadyCompleted
  ensure (guardian ∉ transfer.votes) .stakingRewardTransferAlreadyVoted
  countRewardVote cfg (depositEvent s (.stakingRewardTransferAttested id guardian)) id
    {transfer with votes:=insert guardian transfer.votes}

def adminCancelStakingRewardTransfer (id : H) : Except Error (State A H B) := do
  ensureRoot origin
  let transfer ← okOr (s.stakingRewardTransfers.lookup id) .stakingRewardTransferNotFound
  ensure (transfer.status = .pending) .stakingRewardTransferAlreadyCompleted
  let cancelled := {transfer with finalizedAtBlock:=some s.blockNumber,status:=.cancelled}
  .ok (depositEvent {s with stakingRewardTransfers:=s.stakingRewardTransfers.insert id cancelled}
    (.stakingRewardTransferCancelled id))

def cleanupStakingRewardTransfer (id : H) : Except Error (State A H B) := do
  let caller ← ensureSigned origin
  ensureGuardian s caller
  let transfer ← okOr (s.stakingRewardTransfers.lookup id) .stakingRewardTransferNotFound
  ensure (transfer.status = .completed ∨ transfer.status = .cancelled) .recordNotFinalized
  let finalizedAt ← okOr transfer.finalizedAtBlock .recordNotFinalized
  ensure (wrappingAdd 64 finalizedAt s.cleanupTTLBlocks ≤ s.blockNumber) .ttlNotExpired
  .ok (depositEvent {s with stakingRewardTransfers:=s.stakingRewardTransfers.erase id}
    (.stakingRewardTransferCleanedUp id))

-- One deposit of the re-evaluation loop. A deposit that cannot be finalized is
-- rolled back alone and stays pending.
def reevaluate (guardians : List A) (approveThreshold : Nat) (s : State A H B) (entry : H × Deposit A H) : State A H B :=
  let currentVotes := (entry.2.votes.filter (· ∈ guardians)).card
  if approveThreshold ≤ currentVotes then commit s (finalizeDeposit cfg s entry.1 entry.2) else s

def pendingDeposits : List (H × Deposit A H) :=
  (StorageMap.iter cfg.depositRank s.deposits).filter fun entry => entry.2.status = .pending

def setGuardiansAndThreshold (guardians : List A) (approveThreshold : Nat) : Except Error (State A H B) := do
  ensureRoot origin
  ensure (guardians.length ≤ maxGuardians) .tooManyGuardians
  let guardianCount := guardians.length % 2 ^ 16
  ensure (0 < approveThreshold) .thresholdTooLow
  ensure (approveThreshold ≤ guardianCount) .thresholdTooHigh
  let s := depositEvent {s with guardians:=guardians,approveThreshold:=approveThreshold}
    (.guardiansUpdated guardians approveThreshold)
  .ok ((pendingDeposits cfg s).foldl (reevaluate cfg guardians approveThreshold) s)

def pause : Except Error (State A H B) := do
  ensureRoot origin
  .ok (depositEvent {s with paused:=true} .paused)

def unpause : Except Error (State A H B) := do
  ensureRoot origin
  .ok (depositEvent {s with paused:=false} .unpaused)

def setGlobalMintCap (cap : Nat) : Except Error (State A H B) := do
  ensureRoot origin
  ensure (s.totalMintedByBridge ≤ cap) .capExceeded
  .ok (depositEvent {s with globalMintCap:=cap} (.globalMintCapUpdated cap))

def setCleanupTTL (ttlBlocks : Nat) : Except Error (State A H B) := do
  ensureRoot origin
  ensure (0 < ttlBlocks) .invalidTTL
  .ok (depositEvent {s with cleanupTTLBlocks:=ttlBlocks} (.cleanupTTLUpdated s.cleanupTTLBlocks ttlBlocks))

def setMinWithdrawalAmount (amount : Nat) : Except Error (State A H B) := do
  ensureRoot origin
  ensure (0 < amount) .amountTooSmall
  .ok (depositEvent {s with minWithdrawalAmount:=amount} (.minWithdrawalAmountUpdated s.minWithdrawalAmount amount))

def addRewardBridgeWhitelist (account : A) : Except Error (State A H B) := do
  ensureRoot origin
  .ok (depositEvent {s with rewardBridgeWhitelist:=insert account s.rewardBridgeWhitelist}
    (.rewardBridgeWhitelistAdded account))

def removeRewardBridgeWhitelist (account : A) : Except Error (State A H B) := do
  ensureRoot origin
  .ok (depositEvent {s with rewardBridgeWhitelist:=s.rewardBridgeWhitelist.erase account}
    (.rewardBridgeWhitelistRemoved account))

def setMaxMintPerEra (maxAmount : Nat) : Except Error (State A H B) := do
  ensureRoot origin
  ensure (0 < maxAmount) .amountTooSmall
  .ok (depositEvent {s with maxMintPerEra:=maxAmount} (.maxMintPerEraUpdated maxAmount))

def adminCancelDeposit (requestId : H) (reason : CancelReason) : Except Error (State A H B) := do
  ensureRoot origin
  let deposit ← okOr (s.deposits.lookup requestId) .depositNotFound
  ensure (deposit.status = .pending) .invalidStatus
  let cancelled := {deposit with finalizedAtBlock:=some s.blockNumber,status:=.cancelled}
  .ok (depositEvent {s with deposits:=s.deposits.insert requestId cancelled} (.depositCancelled requestId reason))

def adminFailWithdrawalRequest (requestId : H) : Except Error (State A H B) := do
  ensureRoot origin
  let request ← okOr (s.withdrawalRequests.lookup requestId) .withdrawalRequestNotFound
  ensure (request.status = .requested) .withdrawalRequestAlreadyFinalized
  let s ← raiseTotalMinted s request.amount
  let s ← mintToRecipient cfg s request.sender request.amount
  let failed := {request with status:=.failed}
  .ok (depositEvent (depositEvent {s with withdrawalRequests:=s.withdrawalRequests.insert requestId failed}
    (.withdrawalRequestFailed requestId)) (.adminManualMint request.sender request.amount none))

def adminManualMint (recipient : A) (amount : Nat) (depositId : Option H) : Except Error (State A H B) := do
  ensureRoot origin
  let s ← raiseTotalMinted s amount
  let s ← mintToRecipient cfg s recipient amount
  .ok (depositEvent s (.adminManualMint recipient amount depositId))

end

-- The extrinsics, and what the rest of the runtime does between them: later blocks
-- are initialised, the staking era moves, and balances change outside the bridge.
inductive Call (A H B : Type) where
  | withdraw (origin : Origin A) (amount : Word 128)
  | attestDeposit (origin : Origin A) (requestId : H) (recipient : A) (amount : Word 128) (nonce : Word 64)
  | cleanupDeposit (origin : Origin A) (depositId : H)
  | cleanupWithdrawalRequest (origin : Origin A) (requestId : H)
  | proposeStakingRewardTransfer (origin : Origin A) (amount : Word 128)
  | attestStakingRewardTransfer (origin : Origin A) (id : H)
  | adminCancelStakingRewardTransfer (origin : Origin A) (id : H)
  | cleanupStakingRewardTransfer (origin : Origin A) (id : H)
  | setGuardiansAndThreshold (origin : Origin A) (guardians : List A) (approveThreshold : Word 16)
  | pause (origin : Origin A)
  | unpause (origin : Origin A)
  | setGlobalMintCap (origin : Origin A) (cap : Word 128)
  | setCleanupTTL (origin : Origin A) (ttlBlocks : Word 64)
  | setMinWithdrawalAmount (origin : Origin A) (amount : Word 128)
  | addRewardBridgeWhitelist (origin : Origin A) (account : A)
  | removeRewardBridgeWhitelist (origin : Origin A) (account : A)
  | setMaxMintPerEra (origin : Origin A) (maxAmount : Word 128)
  | adminCancelDeposit (origin : Origin A) (requestId : H) (reason : CancelReason)
  | adminFailWithdrawalRequest (origin : Origin A) (requestId : H)
  | adminManualMint (origin : Origin A) (recipient : A) (amount : Word 128) (depositId : Option H)
  | initializeBlock (number : Word 64)
  | startEra (index : Word 32)
  | elsewhere (accounts : B)

section
variable {A H B : Type} [DecidableEq A] [DecidableEq H]

def dispatch (cfg : Config A H B) (s : State A H B) :
    Call A H B → Except Error (State A H B)
  | .withdraw origin amount => withdraw cfg s origin amount
  | .attestDeposit origin requestId recipient amount nonce => attestDeposit cfg s origin requestId recipient amount nonce
  | .cleanupDeposit origin depositId => cleanupDeposit s origin depositId
  | .cleanupWithdrawalRequest origin requestId => cleanupWithdrawalRequest s origin requestId
  | .proposeStakingRewardTransfer origin amount => proposeStakingRewardTransfer cfg s origin amount
  | .attestStakingRewardTransfer origin id => attestStakingRewardTransfer cfg s origin id
  | .adminCancelStakingRewardTransfer origin id => adminCancelStakingRewardTransfer s origin id
  | .cleanupStakingRewardTransfer origin id => cleanupStakingRewardTransfer s origin id
  | .setGuardiansAndThreshold origin guardians approveThreshold =>
    setGuardiansAndThreshold cfg s origin guardians approveThreshold
  | .pause origin => pause s origin
  | .unpause origin => unpause s origin
  | .setGlobalMintCap origin cap => setGlobalMintCap s origin cap
  | .setCleanupTTL origin ttlBlocks => setCleanupTTL s origin ttlBlocks
  | .setMinWithdrawalAmount origin amount => setMinWithdrawalAmount s origin amount
  | .addRewardBridgeWhitelist origin account => addRewardBridgeWhitelist s origin account
  | .removeRewardBridgeWhitelist origin account => removeRewardBridgeWhitelist s origin account
  | .setMaxMintPerEra origin maxAmount => setMaxMintPerEra s origin maxAmount
  | .adminCancelDeposit origin requestId reason => adminCancelDeposit s origin requestId reason
  | .adminFailWithdrawalRequest origin requestId => adminFailWithdrawalRequest cfg s origin requestId
  | .adminManualMint origin recipient amount depositId => adminManualMint cfg s origin recipient amount depositId
  | .initializeBlock number => .ok (if s.blockNumber < number then {s with blockNumber:=number} else s)
  | .startEra index => .ok {s with activeEraIndex:=index}
  | .elsewhere accounts => .ok {s with accounts:=accounts}

def step (cfg : Config A H B) (s : State A H B)
    (call : Call A H B) : State A H B := commit s (dispatch cfg s call)

end

end TheBrain.Bridge.Pallet
