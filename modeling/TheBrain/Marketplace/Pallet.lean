import TheBrain.Bank.Hippocampus
import TheBrain.Library.StorageMap

namespace TheBrain.Marketplace
open Library Machine Words PaymentMath Function

structure Batch (A : Type) where
  owner : A
  creditAmount : Nat
  alphaAmount : Nat
  remainingCredits : Nat
  remainingAlpha : Nat
  pendingAlpha : Nat
  isFrozen : Bool
  releaseTime : Nat
  deriving DecidableEq

inductive BackingSource (A : Type) where
  | sudoBestEffort
  | buyer (account : A)

inductive Event (A : Type) where
  | authorityAdded (who : A)
  | authorityRemoved (who : A)
  | mintedAccountCredits (who : A) (amount : Nat)
  | burnedAccountCredits (who : A) (amount : Nat)
  | alphaPriceSet (price : Nat) (who : A)
  | batchDeposited (owner : A) (batchId : Nat)
  | creditsConsumed (owner : A) (credits : Nat)
  | creditsBought (who : A) (alphaAmount creditAmount batchId alphaPrice : Nat)
  | buyCreditsStatusChanged (enabled : Bool)
  | refundRecorded (who : A) (amount : Nat)
  | referralCommissionRateUpdated (rateBps : Nat)
  | referralBankFloorUpdated (floor : Nat)
  | referralCommissionPaid (referrer : A) (requestedCredits paidTokens : Nat)
  | referralCommissionSkipped (referrer : A) (requestedCredits : Nat)
  | referralCommissionAccrued (referrer : A) (addedCredits accruedCredits : Nat)
  deriving DecidableEq, Repr

inductive CreditsError where
  | notAuthorized | insufficientFreeCredits | invalidReferralCode | invalidRefferalOwner
  | authorityAlreadyExists | authorityNotFound
  deriving DecidableEq, Repr

inductive Error where
  | badOrigin
  | message (text : String)
  | bank (error : Bank.Error)
  | credits (error : CreditsError)
  | notAuthorized | insufficientFreeCredits | tooManyRequests | invalidInput
  | buyCreditsDisabled | referralCodeTooLong | buyAmountTooLow | zeroCreditAmount | slippageExceeded
  | creditAmountOverflow | tooManyBatches | alphaPriceNotSet | alphaPriceStale
  deriving DecidableEq, Repr

structure Weight where
  refTime : Nat
  proofSize : Nat

def Weight.add (a b : Weight) : Weight := ⟨saturatingAdd 64 a.refTime b.refTime,saturatingAdd 64 a.proofSize b.proofSize⟩
def Weight.mul (a : Weight) (n : Nat) : Weight := ⟨saturatingMul 64 a.refTime n,saturatingMul 64 a.proofSize n⟩
def Weight.anyGt (a b : Weight) : Bool := b.refTime < a.refTime || b.proofSize < a.proofSize

-- A weight meter: what is consumed so far grows by a cost only within the limit.
def Weight.tryConsume (limit consumed cost : Weight) : Option Weight := do
  let refTime ← checkedAdd 64 consumed.refTime cost.refTime
  let proofSize ← checkedAdd 64 consumed.proofSize cost.proofSize
  if Weight.anyGt ⟨refTime,proofSize⟩ limit then none else some ⟨refTime,proofSize⟩

structure Config (A B : Type) [DecidableEq A] where
  bank : Bank.Config A B
  accountId : A
  minBuyAlpha : Nat
  maxRequestsPerBlock : Nat
  maxBatchesPerBuyer : Nat
  maxAlphaPriceAge : Nat
  maxReferralPayoutsPerSweep : Nat
  referralPayoutInterval : Nat
  blockChargeCheckInterval : Nat
  alphaReleasePage : Nat
  dbRead : Weight
  dbWrite : Weight
  maxBlock : Weight
  batchRank : Nat → Nat
  accountRank : A → Nat

-- The storage of the credits pallet and of the marketplace over the bank's; the block
-- number is the bank's. Truncated is not storage: it records whether a saturating
-- subtraction on an alpha ledger has ever lost something.
structure State (A B : Type) where
  bank : Bank.State A B
  authorities : List A
  freeCredits : A → Nat
  totalCreditsPurchased : Nat
  referralCodes : List UInt8 → Option A
  referredUsers : A → Option (List UInt8)
  alphaPrice : Nat
  alphaPriceUpdatedAt : Option Nat
  userRequestsCount : A → Nat
  sudoKey : Option A
  buyCreditsEnabled : Bool
  nextBatchId : Nat
  batches : StorageMap Nat (Batch A)
  userBatches : StorageMap A (List Nat)
  alphaBalances : A → Nat
  totalUndistributedBacking : Nat
  unbackedBatchAlpha : Nat → Nat
  pendingSudoRefunds : Nat
  lastPurchaseBatch : A → Option Nat
  alphaReleaseCursor : Option Nat
  spentBatchPruneCursor : Option Nat
  spentBatchPruneDone : Bool
  referralCommissionRateBps : Nat
  referralBankFloor : Nat
  accruedReferralCommission : StorageMap A Nat
  referralPayoutCursor : Option Nat
  events : List (Event A)
  truncated : Bool

def genesis (bank : Bank.State A B) : State A B where
  bank := bank
  authorities := []
  freeCredits := fun _ => 0
  totalCreditsPurchased := 0
  referralCodes := fun _ => none
  referredUsers := fun _ => none
  alphaPrice := 0
  alphaPriceUpdatedAt := none
  userRequestsCount := fun _ => 0
  sudoKey := none
  buyCreditsEnabled := false
  nextBatchId := 0
  batches := ∅
  userBatches := ∅
  alphaBalances := fun _ => 0
  totalUndistributedBacking := 0
  unbackedBatchAlpha := fun _ => 0
  pendingSudoRefunds := 0
  lastPurchaseBatch := fun _ => none
  alphaReleaseCursor := none
  spentBatchPruneCursor := none
  spentBatchPruneDone := false
  referralCommissionRateBps := 500
  referralBankFloor := 0
  accruedReferralCommission := ∅
  referralPayoutCursor := none
  events := []
  truncated := false

section
variable {A B : Type} [DecidableEq A]
variable (cfg : Config A B) (s : State A B) (origin : Origin A)

def State.blockNumber : Nat := s.bank.blockNumber

def depositEvent (e : Event A) : State A B :=
  {s with events:=s.events ++ [e]}

def ensureRoot : Except Error Unit := ensure (origin = .root) .badOrigin

def ensureIsAuthority (who : A) : Except Error Unit :=
  ensure (who ∈ s.authorities) (.credits .notAuthorized)

def insertReferralCode (owner : A) (code : Option (List UInt8)) : Except Error (State A B) :=
  match code with
  | none => .ok s
  | some code => do
      ensure (code ≠ []) (.credits .invalidReferralCode)
      let codeOwner ← okOr (s.referralCodes code) (.credits .invalidReferralCode)
      ensure (codeOwner ≠ owner) (.credits .invalidRefferalOwner)
      .ok {s with referredUsers:=update s.referredUsers owner (some code)}

def mintCredits (who : A) (amount : Nat) : State A B :=
  {s with
    freeCredits:=update s.freeCredits who (saturatingAdd 128 (s.freeCredits who) amount)
    totalCreditsPurchased:=saturatingAdd 128 s.totalCreditsPurchased amount}

def doMint (who : A) (amount : Nat) (code : Option (List UInt8)) : Except Error (State A B) := do
  let s ← insertReferralCode (mintCredits s who amount) who code
  .ok (depositEvent s (.mintedAccountCredits who amount))

def decreaseUserCredits (who : A) (amount : Nat) : State A B :=
  depositEvent {s with freeCredits:=update s.freeCredits who (s.freeCredits who - amount)}
    (.burnedAccountCredits who amount)

def burn (who : A) (amount : Nat) : Except Error (State A B) := do
  let authority ← okOr origin.signer .badOrigin
  ensureIsAuthority s authority
  ensure (amount ≤ s.freeCredits who) (.credits .insufficientFreeCredits)
  .ok (decreaseUserCredits s who amount)

def addAuthority (who : A) : Except Error (State A B) := do
  ensureRoot origin
  ensure (who ∉ s.authorities) (.credits .authorityAlreadyExists)
  .ok (depositEvent {s with authorities:=s.authorities ++ [who]} (.authorityAdded who))

def removeAuthority (who : A) : Except Error (State A B) := do
  ensureRoot origin
  ensure (who ∈ s.authorities) (.credits .authorityNotFound)
  .ok (depositEvent {s with authorities:=s.authorities.erase who} (.authorityRemoved who))

-- A new price is averaged with the one in force.
def setAlphaPrice (price : Nat) : Except Error (State A B) := do
  let authority ← okOr origin.signer .badOrigin
  ensureIsAuthority s authority
  let newPrice := if s.alphaPrice = 0 then price
    else s.alphaPrice / 2 + price / 2 + (s.alphaPrice % 2 + price % 2) / 2
  .ok (depositEvent {s with alphaPrice:=newPrice,alphaPriceUpdatedAt:=some s.blockNumber} (.alphaPriceSet newPrice authority))

def raiseAlpha (who : A) (amount : Nat) : State A B :=
  {s with alphaBalances:=update s.alphaBalances who (saturatingAdd 128 (s.alphaBalances who) amount)}

def lowerAlpha (who : A) (amount : Nat) : State A B :=
  {s with
    alphaBalances:=update s.alphaBalances who (s.alphaBalances who - amount)
    truncated:=s.truncated || s.alphaBalances who < amount}

def raiseBacking (amount : Nat) : State A B :=
  {s with totalUndistributedBacking:=saturatingAdd 128 s.totalUndistributedBacking amount}

def lowerBacking (amount : Nat) : State A B :=
  {s with
    totalUndistributedBacking:=s.totalUndistributedBacking - amount
    truncated:=s.truncated || s.totalUndistributedBacking < amount}

-- Unbacked alpha is consumed first; a marker of zero is no entry.
def takeBackedPortion (batchId released : Nat) : State A B × Nat :=
  let unbacked := s.unbackedBatchAlpha batchId
  if unbacked = 0 then (s,released) else
  let consumed := min unbacked released
  ({s with
      unbackedBatchAlpha:=update s.unbackedBatchAlpha batchId (unbacked - consumed)
      truncated:=s.truncated || unbacked < consumed || released < consumed},
    released - consumed)

-- Alpha of a batch leaves the ledgers, and the part of it that is backed stops counting
-- as undistributed. That part is returned.
def releaseAlpha (batchId : Nat) (owner : A) (amount : Nat) : State A B × Nat :=
  let taken := takeBackedPortion (lowerAlpha s owner amount) batchId amount
  (lowerBacking taken.1 taken.2,taken.2)

def batchesOf (who : A) : List Nat := (s.userBatches.lookup who).getD []

def fileBatch (batch : Batch A) : State A B :=
  {s with
    batches:=s.batches.insert s.nextBatchId batch
    userBatches:=s.userBatches.insert batch.owner (batchesOf s batch.owner ++ [s.nextBatchId])
    nextBatchId:=saturatingAdd 64 s.nextBatchId 1}

def takeBuyerBacking (buyer : A) (alphaAmount : Nat) : Except Error (State A B) :=
  match Bank.depositFrom cfg.bank s.bank buyer alphaAmount .marketplaceRevenue with
  | .ok bank => .ok (raiseBacking {s with bank:=bank} alphaAmount)
  | .error e => .error (.bank e)

def markUnbacked (batchId alphaAmount : Nat) : State A B :=
  {s with unbackedBatchAlpha:=update s.unbackedBatchAlpha batchId alphaAmount}

-- A deposit without a sudo account that can pay is marked unbacked and still succeeds.
def takeSudoBacking (batchId alphaAmount : Nat) : State A B :=
  match s.sudoKey with
  | none => markUnbacked s batchId alphaAmount
  | some sudoAccount =>
    match Bank.depositFrom cfg.bank s.bank sudoAccount alphaAmount .marketplaceRevenue with
    | .ok bank => raiseBacking {s with bank:=bank} alphaAmount
    | .error _ => markUnbacked s batchId alphaAmount

def routeBacking (batchId alphaAmount : Nat) (source : BackingSource A) : Except Error (State A B) :=
  if alphaAmount = 0 then .ok s else
  match source with
  | .buyer buyer => takeBuyerBacking cfg s buyer alphaAmount
  | .sudoBestEffort => .ok (takeSudoBacking cfg s batchId alphaAmount)

def chargebackWindow : Nat := 15 * 28800

def createBatch (sender : A) (creditAmount alphaAmount : Nat)
    (freezeForChargeback : Bool) (code : Option (List UInt8)) (source : BackingSource A) :
    Except Error (State A B × Nat) := do
  let batchId := s.nextBatchId
  let releaseTime := if freezeForChargeback then saturatingAdd 64 s.blockNumber chargebackWindow else s.blockNumber
  let filed := raiseAlpha (fileBatch s ⟨sender,creditAmount,alphaAmount,creditAmount,alphaAmount,0,freezeForChargeback,releaseTime⟩)
    sender alphaAmount
  let minted ← doMint filed sender creditAmount code
  let routed ← routeBacking cfg minted batchId alphaAmount source
  .ok (depositEvent routed (.batchDeposited sender batchId),batchId)

def deposit (account : A) (creditAmount alphaAmount : Nat)
    (freezeForChargeback : Bool) (code : Option (List UInt8)) : Except Error (State A B) := do
  let authority ← okOr origin.signer .badOrigin
  ensureIsAuthority s authority
  let created ← createBatch cfg s account creditAmount alphaAmount freezeForChargeback code .sudoBestEffort
  .ok created.1

def freshAlphaPrice : Except Error Nat := do
  ensure (0 < s.alphaPrice) .alphaPriceNotSet
  let updatedAt ← okOr s.alphaPriceUpdatedAt .alphaPriceStale
  ensure (s.blockNumber - updatedAt ≤ cfg.maxAlphaPriceAge) .alphaPriceStale
  .ok s.alphaPrice

def alphaToCredits (alphaAmount alphaPrice : Nat) : Except Error Nat := do
  let credits := saturatingMul 256 alphaAmount alphaPrice / e18
  ensure (credits ≤ maxOf 128) .creditAmountOverflow
  .ok credits

def openPurchaseBatch (who : A) (creditAmount alphaAmount : Nat)
    (code : Option (List UInt8)) : Except Error (State A B × Nat) := do
  let created ← createBatch cfg s who creditAmount alphaAmount false code (.buyer who)
  .ok ({created.1 with lastPurchaseBatch:=update created.1.lastPurchaseBatch who (some created.2)},created.2)

def topUp (batch : Batch A) (creditAmount alphaAmount : Nat) : Batch A :=
  {batch with
    creditAmount:=saturatingAdd 128 batch.creditAmount creditAmount
    alphaAmount:=saturatingAdd 128 batch.alphaAmount alphaAmount
    remainingCredits:=saturatingAdd 128 batch.remainingCredits creditAmount
    remainingAlpha:=saturatingAdd 128 batch.remainingAlpha alphaAmount}

def topUpPurchaseBatch (who : A) (batchId creditAmount alphaAmount : Nat)
    (code : Option (List UInt8)) : Except Error (State A B) := do
  let batch ← okOr (s.batches.lookup batchId) .tooManyBatches
  ensure (batch.owner = who ∧ batch.isFrozen = false) .tooManyBatches
  let filled := raiseAlpha {s with batches:=s.batches.insert batchId (topUp batch creditAmount alphaAmount)} who alphaAmount
  let minted ← doMint filled who creditAmount code
  let backed ← takeBuyerBacking cfg minted who alphaAmount
  .ok (depositEvent backed (.batchDeposited who batchId))

-- A purchase batch that was pruned from the list goes back into it before the top-up.
def refileBatch (who : A) (batchId : Nat) : Except Error (State A B) := do
  if batchId ∈ batchesOf s who then .ok s else
  ensure ((s.batches.lookup batchId).isSome = true) .tooManyBatches
  .ok {s with userBatches:=s.userBatches.insert who (batchesOf s who ++ [batchId])}

def growPurchaseBatch (who : A) (creditAmount alphaAmount : Nat)
    (code : Option (List UInt8)) : Except Error (State A B × Nat) := do
  let batchId ← okOr (s.lastPurchaseBatch who) .tooManyBatches
  let filed ← refileBatch s who batchId
  let filled ← topUpPurchaseBatch cfg filed who batchId creditAmount alphaAmount code
  .ok (filled,batchId)

-- Below the cap a purchase opens a batch; at the cap it tops up the latest one.
def fillPurchase (who : A) (creditAmount alphaAmount : Nat) (code : Option (List UInt8)) : Except Error (State A B × Nat) :=
  if (batchesOf s who).length < cfg.maxBatchesPerBuyer then openPurchaseBatch cfg s who creditAmount alphaAmount code
  else growPurchaseBatch cfg s who creditAmount alphaAmount code

def countRequest (who : A) : State A B :=
  {s with userRequestsCount:=update s.userRequestsCount who (saturatingAdd 32 (s.userRequestsCount who) 1)}

def maxReferralCodeLen : Nat := 64

def admitPurchase (who : A) (alphaAmount minCredits : Nat) (code : Option (List UInt8)) : Except Error (Nat × Nat) := do
  ensure (s.buyCreditsEnabled = true) .buyCreditsDisabled
  ensure (∀ text ∈ code, text.length ≤ maxReferralCodeLen) .referralCodeTooLong
  ensure (0 < alphaAmount ∧ cfg.minBuyAlpha ≤ alphaAmount) .buyAmountTooLow
  ensure (s.userRequestsCount who < cfg.maxRequestsPerBlock) .tooManyRequests
  let alphaPrice ← freshAlphaPrice cfg s
  let creditAmount ← alphaToCredits alphaAmount alphaPrice
  ensure (0 < creditAmount) .zeroCreditAmount
  ensure (minCredits ≤ creditAmount) .slippageExceeded
  ensure ((checkedAdd 128 (s.freeCredits who) creditAmount).isSome = true) .creditAmountOverflow
  .ok (alphaPrice,creditAmount)

def buyCredits (alphaAmount minCredits : Nat) (code : Option (List UInt8)) : Except Error (State A B) := do
  let who ← okOr origin.signer .badOrigin
  let (alphaPrice,creditAmount) ← admitPurchase cfg s who alphaAmount minCredits code
  let bought ← fillPurchase cfg (countRequest s who) who creditAmount alphaAmount code
  .ok (depositEvent bought.1 (.creditsBought who alphaAmount creditAmount bought.2 alphaPrice))

-- A refund is a batch of credits without alpha.
def refundCreditsWithBatch (who : A) (amount : Nat) : Except Error (State A B) := do
  if amount = 0 then .ok s else
  let minted ← doMint (fileBatch s ⟨who,amount,0,amount,0,0,false,s.blockNumber⟩) who amount none
  .ok (depositEvent minted (.refundRecorded who amount))

def batchIsSpent (batch : Batch A) : Prop :=
  batch.remainingCredits = 0 ∧ batch.remainingAlpha = 0 ∧ batch.pendingAlpha = 0

instance (batch : Batch A) : Decidable (batchIsSpent batch) := inferInstanceAs (Decidable (_ ∧ _ ∧ _))

def alphaToRelease (batch : Batch A) (creditsToTake : Nat) : Nat :=
  min (creditsToTake * batch.remainingAlpha / max batch.remainingCredits 1) batch.remainingAlpha

def unfreeze (batchId : Nat) (batch : Batch A) : State A B × Batch A :=
  (if 0 < batch.pendingAlpha then (releaseAlpha s batchId batch.owner batch.pendingAlpha).1 else s,
    {batch with isFrozen:=false,pendingAlpha:=0})

def spendRemainingAlpha (batch : Batch A) (amount : Nat) : State A B × Batch A :=
  ({s with truncated:=s.truncated || batch.remainingAlpha < amount},{batch with remainingAlpha:=batch.remainingAlpha - amount})

-- Taking credits from a batch: while it is frozen the alpha becomes pending, otherwise
-- it is released, after whatever was pending when the batch has just matured.
def takeCredits (batchId : Nat) (batch : Batch A) (creditsToTake : Nat) : State A B × Batch A :=
  let alpha := alphaToRelease batch creditsToTake
  let s := decreaseUserCredits s batch.owner creditsToTake
  let batch := {batch with remainingCredits:=batch.remainingCredits - creditsToTake}
  if batch.isFrozen = true ∧ s.blockNumber < batch.releaseTime then
    spendRemainingAlpha s {batch with pendingAlpha:=saturatingAdd 128 batch.pendingAlpha alpha} alpha
  else
    let thawed := if batch.isFrozen = true ∧ batch.releaseTime ≤ s.blockNumber then unfreeze s batchId batch else (s,batch)
    let released := if 0 < alpha then (releaseAlpha thawed.1 batchId thawed.2.owner alpha).1 else thawed.1
    spendRemainingAlpha released thawed.2 alpha

-- The walk of consume_credits over the sender's list. Ids of spent or missing batches
-- are dropped from it; once nothing remains to take, the rest of the list is kept.
structure Walk (A B : Type) where
  state : State A B
  remaining : Nat
  kept : List Nat
  anySpent : Bool

def Walk.file (w : Walk A B) (batchId : Nat) (spent : Prop) [Decidable spent] : Walk A B :=
  if spent then {w with anySpent:=true} else {w with kept:=w.kept ++ [batchId]}

def visitBatch (sender : A) (w : Walk A B) (batchId : Nat) : Except Error (Walk A B) :=
  if w.remaining = 0 then .ok (w.file batchId False) else
  match w.state.batches.lookup batchId with
  | none => .ok (w.file batchId True)
  | some batch => do
      ensure (batch.owner = sender) .notAuthorized
      let creditsToTake := min w.remaining batch.remainingCredits
      let maturedWhileFrozen := batch.isFrozen = true ∧ batch.releaseTime ≤ w.state.blockNumber
      if creditsToTake = 0 ∧ ¬maturedWhileFrozen then .ok (w.file batchId (batchIsSpent batch)) else
      ensure (creditsToTake ≤ w.state.freeCredits batch.owner) .insufficientFreeCredits
      let taken := takeCredits w.state batchId batch creditsToTake
      .ok (Walk.file {w with
          state:={taken.1 with batches:=taken.1.batches.insert batchId taken.2}
          remaining:=w.remaining - creditsToTake}
        batchId (batchIsSpent taken.2))

def relist (who : A) (kept : List Nat) : State A B :=
  {s with userBatches:=if kept = [] then s.userBatches.erase who else s.userBatches.insert who kept}

def walkBatches (sender : A) (credits : Nat) : Except Error (State A B × Nat) :=
  match s.userBatches.lookup sender with
  | none => .ok (s,credits)
  | some batchIds => do
      let walked ← batchIds.foldlM (visitBatch sender) ⟨s,credits,[],false⟩
      .ok (if walked.anySpent then relist walked.state sender walked.kept else walked.state,walked.remaining)

-- Transactional: a failing debit changes nothing, in calls and in hooks alike.
def consumeCredits (sender : A) (credits : Nat) : Except Error (State A B) := do
  let (s,remaining) ← walkBatches s sender credits
  ensure (remaining = 0) .insufficientFreeCredits
  .ok (depositEvent s (.creditsConsumed sender credits))

-- Pay the sudo account what chargebacks owe it; what the bank does not deliver stays pending.
def refundSudo (owed : Nat) : State A B :=
  match s.sudoKey with
  | none => {s with pendingSudoRefunds:=owed}
  | some sudoAccount =>
    if owed = 0 then {s with pendingSudoRefunds:=0} else
    match Bank.requestPayment cfg.bank s.bank cfg.accountId sudoAccount owed with
    | .ok (bank,refunded) => {s with bank:=bank,pendingSudoRefunds:=owed - refunded}
    | .error _ => {s with pendingSudoRefunds:=owed}

def retryPendingSudoRefunds (origin : Origin A) : Except Error (State A B) := do
  ensureRoot origin
  .ok (if s.pendingSudoRefunds = 0 then s else refundSudo cfg s s.pendingSudoRefunds)

def reverseBacking (batchId : Nat) (batch : Batch A) : State A B :=
  let totalAlphaToRemove := saturatingAdd 128 batch.remainingAlpha batch.pendingAlpha
  if totalAlphaToRemove = 0 then s else
  let released := releaseAlpha s batchId batch.owner totalAlphaToRemove
  refundSudo cfg released.1 (saturatingAdd 128 released.2 released.1.pendingSudoRefunds)

def removeBatch (batchId : Nat) (owner : A) : State A B :=
  {s with
    userBatches:=(s.userBatches.lookup owner).elim s.userBatches fun ids => s.userBatches.insert owner (ids.filter (· ≠ batchId))
    batches:=s.batches.erase batchId}

def handleChargeback (batchId : Nat) : Except Error (State A B) :=
  match s.batches.lookup batchId with
  | none => .ok s
  | some batch => do
      ensure (batch.isFrozen = true ∧ s.blockNumber < batch.releaseTime) (.message "Invalid chargeback")
      let s := removeBatch (reverseBacking cfg s batchId batch) batchId batch.owner
      ensure (batch.remainingCredits ≤ s.freeCredits batch.owner) .insufficientFreeCredits
      let s := decreaseUserCredits s batch.owner batch.remainingCredits
      .ok {s with totalCreditsPurchased:=s.totalCreditsPurchased - batch.remainingCredits}

def chargeback (origin : Origin A) (batchId : Nat) : Except Error (State A B) := do
  ensureRoot origin
  handleChargeback cfg s batchId

def releaseMatured (currentBlock : Nat) (s : State A B) (entry : Nat × Batch A) : State A B :=
  if entry.2.isFrozen = false ∨ entry.2.pendingAlpha = 0 then s else
  if currentBlock < entry.2.releaseTime then s else
  let thawed := unfreeze s entry.1 entry.2
  let s := if batchIsSpent thawed.2
    then relist thawed.1 entry.2.owner ((batchesOf thawed.1 entry.2.owner).filter (· ≠ entry.1)) else thawed.1
  {s with batches:=s.batches.insert entry.1 thawed.2}

def releaseMaturedPendingAlpha (currentBlock : Nat) : State A B :=
  if cfg.alphaReleasePage = 0 then s else
  let page := ((s.batches.iter cfg.batchRank).filter fun entry =>
    s.alphaReleaseCursor.all fun start => start < cfg.batchRank entry.1).take cfg.alphaReleasePage
  match page.getLast? with
  | none => {s with alphaReleaseCursor:=none}
  | some last =>
    {page.foldl (releaseMatured currentBlock) s with
      alphaReleaseCursor:=if page.length < cfg.alphaReleasePage then none else some (cfg.batchRank last.1)}

variable (origin : Origin A)

def referralCommissionCredits (chargedCredits : Nat) : Nat :=
  chargedCredits * min s.referralCommissionRateBps bpsDenom / bpsDenom

-- What a commission must leave in the bank: backing and refunds owed, the floor and
-- both emission compartments.
def commissionReserve : Nat :=
  saturatingAdd 128 (saturatingAdd 128 (saturatingAdd 128 (saturatingAdd 128
    s.totalUndistributedBacking s.pendingSudoRefunds) s.referralBankFloor)
    (Bank.emissionAvailable s.bank)) (Bank.computeEmissionAvailable s.bank)

def tryPayReferralCommissionTokens (referrer : A) (commissionCredits : Nat) : State A B × Nat :=
  if commissionCredits = 0 then (s,0) else
  let headroom := Bank.availableForPayout cfg.bank s.bank - commissionReserve s
  match Bank.requestPayment cfg.bank s.bank cfg.accountId referrer (min commissionCredits headroom) with
  | .ok (bank,paid) => (depositEvent {s with bank:=bank} (.referralCommissionPaid referrer commissionCredits paid),paid)
  | .error _ => (depositEvent s (.referralCommissionSkipped referrer commissionCredits),0)

def referrerOf (who : A) : Option A :=
  (s.referredUsers who).bind s.referralCodes

def accrueHourlyReferralCommission (user : A) (chargedCredits : Nat) : State A B :=
  let commission := referralCommissionCredits s chargedCredits
  if commission = 0 then s else
  match referrerOf s user with
  | none => s
  | some referrer =>
    let accrued := saturatingAdd 128 ((s.accruedReferralCommission.lookup referrer).getD 0) commission
    depositEvent {s with accruedReferralCommission:=s.accruedReferralCommission.insert referrer accrued}
      (.referralCommissionAccrued referrer commission accrued)

-- A referrer that the payment would leave below the existential deposit is skipped.
def payReferrer (entry : A × Nat) : State A B :=
  if saturatingAdd 128 (cfg.bank.freeBalance s.bank.accounts entry.1) entry.2 < cfg.bank.minimumBalance then s else
  let paid := tryPayReferralCommissionTokens cfg s entry.1 entry.2
  if paid.2 = 0 then paid.1 else
  {paid.1 with accruedReferralCommission:=
    if entry.2 - paid.2 = 0 then paid.1.accruedReferralCommission.erase entry.1
    else paid.1.accruedReferralCommission.insert entry.1 (entry.2 - paid.2)}

def sweepReferralCommissions : State A B :=
  let limit := cfg.maxReferralPayoutsPerSweep
  if limit = 0 then s else
  let batch := ((s.accruedReferralCommission.iter cfg.accountRank).filter fun entry =>
    s.referralPayoutCursor.all fun start => start < cfg.accountRank entry.1).take limit
  match batch.getLast? with
  | none => {s with referralPayoutCursor:=none}
  | some last =>
    {batch.foldl (payReferrer cfg) s with
      referralPayoutCursor:=if batch.length < limit then none else some (cfg.accountRank last.1)}

def setReferralCommissionRate (rateBps : Nat) : Except Error (State A B) := do
  ensureRoot origin
  ensure (rateBps ≤ 10000) .invalidInput
  .ok (depositEvent {s with referralCommissionRateBps:=rateBps} (.referralCommissionRateUpdated rateBps))

def setReferralBankFloor (floor : Nat) : Except Error (State A B) := do
  ensureRoot origin
  .ok (depositEvent {s with referralBankFloor:=floor} (.referralBankFloorUpdated floor))

def setSudoKey (newSudoKey : A) : Except Error (State A B) := do
  ensureRoot origin
  .ok {s with sudoKey:=some newSudoKey}

def setBuyCreditsEnabled (enabled : Bool) : Except Error (State A B) := do
  ensureRoot origin
  .ok (depositEvent {s with buyCreditsEnabled:=enabled} (.buyCreditsStatusChanged enabled))

-- The one-time cleanup of lists, account by account within a weight limit.

def maxAccountsPerRun : Nat := 64
def proofPerAccess : Nat := 2600
def proofPerId : Nat := 16

def access (reads writes : Nat) : Weight :=
  ((cfg.dbRead.mul reads).add (cfg.dbWrite.mul writes)).add ⟨0,saturatingMul 64 proofPerAccess reads⟩

def pruneCost (len : Nat) : Weight :=
  (((access cfg 3 0).add ⟨0,saturatingMul 64 len proofPerId⟩).add (access cfg len 1)).add (access cfg 1 1)

def accountCap : Weight := ⟨cfg.maxBlock.refTime / 4,cfg.maxBlock.proofSize / 4⟩

def pruneList (who : A) : State A B :=
  let ids := batchesOf s who
  let kept := ids.filter fun id => (s.batches.lookup id).any fun batch => ¬batchIsSpent batch
  if kept.length < ids.length then relist s who kept else s

structure Pruning (A B : Type) where
  state : State A B
  consumed : Weight
  cursor : Option Nat
  stopped : Bool

-- An oversized list is stepped past; one that does not fit now is tried again later.
def pruneAccount (limit : Weight) (p : Pruning A B) (who : A) : Pruning A B :=
  if p.stopped then p else
  let cost := pruneCost cfg (batchesOf p.state who).length
  match Weight.tryConsume limit p.consumed cost with
  | none => {p with stopped:=true,cursor:=if cost.anyGt (accountCap cfg) then some (cfg.accountRank who) else p.cursor}
  | some consumed => {p with state:=pruneList p.state who,consumed:=consumed,cursor:=some (cfg.accountRank who)}

def pruneFrom (limit : Weight) (s : State A B) (consumed : Weight) : State A B :=
  let accounts := (((s.userBatches.iter cfg.accountRank).map Prod.fst).filter fun who =>
    s.spentBatchPruneCursor.all fun start => start < cfg.accountRank who).take maxAccountsPerRun
  let p := accounts.foldl (pruneAccount cfg limit) ⟨s,consumed,none,false⟩
  if accounts.length < maxAccountsPerRun ∧ p.stopped = false then
    {p.state with spentBatchPruneDone:=true,spentBatchPruneCursor:=none}
  else {p.state with spentBatchPruneCursor:=p.cursor.or p.state.spentBatchPruneCursor}

def pruneSpentUserBatches (limit : Weight) : State A B :=
  match Weight.tryConsume limit ⟨0,0⟩ (access cfg 1 0) with
  | none => s
  | some flagRead =>
    if s.spentBatchPruneDone then s else
    match Weight.tryConsume limit flagRead (access cfg 1 2) with
    | none => s
    | some consumed => pruneFrom cfg limit s consumed

-- The parts of the block hook that touch this storage. Hourly and monthly billing are
-- runs of consume_credits and of the commission payments.
def onInitialize (now : Nat) : State A B :=
  let s := {s with bank:={s.bank with blockNumber:=now}}
  let s := if now % 15 = 0 then {s with userRequestsCount:=fun _ => 0} else s
  let s := if now % cfg.referralPayoutInterval = 0 then sweepReferralCommissions cfg s else s
  if now % cfg.blockChargeCheckInterval = 0 then releaseMaturedPendingAlpha cfg s now else s

end

-- Consumption, refunds, commissions and accruals are made by the billing code, for any
-- account and amount. ReferralCodeCreated is any new code.
inductive Call (A B : Type) where
  | addAuthority (origin : Origin A) (who : A)
  | removeAuthority (origin : Origin A) (who : A)
  | burn (origin : Origin A) (who : A) (amount : Word 128)
  | setAlphaPrice (origin : Origin A) (price : Word 128)
  | referralCodeCreated (code : List UInt8) (owner : A)
  | deposit (origin : Origin A) (account : A) (creditAmount alphaAmount : Word 128)
      (freezeForChargeback : Bool) (code : Option (List UInt8))
  | buyCredits (origin : Origin A) (alphaAmount minCredits : Word 128) (code : Option (List UInt8))
  | setBuyCreditsEnabled (origin : Origin A) (enabled : Bool)
  | consumeCredits (sender : A) (credits : Word 128)
  | refundCreditsWithBatch (who : A) (amount : Word 128)
  | chargeback (origin : Origin A) (batchId : Word 64)
  | retryPendingSudoRefunds (origin : Origin A)
  | setSudoKey (origin : Origin A) (newSudoKey : A)
  | setReferralCommissionRate (origin : Origin A) (rateBps : Word 32)
  | setReferralBankFloor (origin : Origin A) (floor : Word 128)
  | tryPayReferralCommissionTokens (referrer : A) (commissionCredits : Word 128)
  | accrueHourlyReferralCommission (user : A) (chargedCredits : Word 128)
  | sweepReferralCommissions
  | releaseMaturedPendingAlpha
  | pruneSpentUserBatches (limit : Weight)
  | onInitialize (now : Nat)
  | bank (call : Bank.Call A B)

section
variable {A B : Type} [DecidableEq A]

def dispatch (cfg : Config A B) (s : State A B) :
    Call A B → Except Error (State A B)
  | .addAuthority origin who => addAuthority s origin who
  | .removeAuthority origin who => removeAuthority s origin who
  | .burn origin who amount => burn s origin who amount
  | .setAlphaPrice origin price => setAlphaPrice s origin price
  | .referralCodeCreated code owner => .ok {s with referralCodes:=Function.update s.referralCodes code (some owner)}
  | .deposit origin account creditAmount alphaAmount freezeForChargeback code =>
    deposit cfg s origin account creditAmount alphaAmount freezeForChargeback code
  | .buyCredits origin alphaAmount minCredits code => buyCredits cfg s origin alphaAmount minCredits code
  | .setBuyCreditsEnabled origin enabled => setBuyCreditsEnabled s origin enabled
  | .consumeCredits sender credits => consumeCredits s sender credits
  | .refundCreditsWithBatch who amount => refundCreditsWithBatch s who amount
  | .chargeback origin batchId => chargeback cfg s origin batchId
  | .retryPendingSudoRefunds origin => retryPendingSudoRefunds cfg s origin
  | .setSudoKey origin newSudoKey => setSudoKey s origin newSudoKey
  | .setReferralCommissionRate origin rateBps => setReferralCommissionRate s origin rateBps
  | .setReferralBankFloor origin floor => setReferralBankFloor s origin floor
  | .tryPayReferralCommissionTokens referrer commissionCredits =>
    .ok (tryPayReferralCommissionTokens cfg s referrer commissionCredits).1
  | .accrueHourlyReferralCommission user chargedCredits => .ok (accrueHourlyReferralCommission s user chargedCredits)
  | .sweepReferralCommissions => .ok (sweepReferralCommissions cfg s)
  | .releaseMaturedPendingAlpha => .ok (releaseMaturedPendingAlpha cfg s s.blockNumber)
  | .pruneSpentUserBatches limit => .ok (pruneSpentUserBatches cfg s limit)
  | .onInitialize now => .ok (onInitialize cfg s now)
  | .bank call => .ok {s with bank:=Bank.step cfg.bank s.bank call}

def step (cfg : Config A B) (s : State A B) (call : Call A B) :
    State A B := commit s (dispatch cfg s call)

end
end TheBrain.Marketplace
