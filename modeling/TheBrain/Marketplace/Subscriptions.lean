import TheBrain.Calendar
import TheBrain.Marketplace.Usage

namespace TheBrain.Marketplace.Subscriptions
open Library Machine Words PaymentMath Calendar Function

abbrev Bytes := List UInt8

inductive StorageFlavour where
  | drive | s3
  deriving DecidableEq, Repr

structure Plan (H : Type) where
  id : H
  isSuspended : Bool
  price : Word 128
  isStoragePlan : Bool
  isS3Plan : Bool
  deriving DecidableEq

def Plan.storageFlavour (plan : Plan H) : Option StorageFlavour :=
  if plan.isStoragePlan then some .drive else if plan.isS3Plan then some .s3 else none

def Plan.isAnyStorage (plan : Plan H) : Bool := plan.isStoragePlan || plan.isS3Plan

-- A due day of none is a row from before due days were stored.
structure UserPlanSubscription (A H : Type) where
  id : Nat
  owner : A
  package : Plan H
  cdnLocationId : Option Nat
  active : Bool
  lastChargedAt : Nat
  selectedImageName : Option Bytes
  nextChargeUnixDay : Option Nat
  paidPerMonth : Nat
  deriving DecidableEq

-- Of the recorded transactions only charges are listed here; a refund is recorded with
-- the batch it creates.
inductive Event (A H : Type) where
  | pointTransactionRecorded (who : A) (amount : Nat)
  | planPurchased (caller owner : A) (planId : H) (locationId : Option Nat) (selectedImageName cloudInitCid : Option Bytes)
  | subscriptionRenewed (who : A) (subscriptionId : Nat) (planId : H) (amount : Nat)
  | subscriptionChargeFailed (who : A) (requiredCredits availableCredits : Nat)
  | subscriptionRenewalFailed (who : A) (subscriptionId : Nat) (planId : H) (required available : Nat)
  | storageSubscriptionCancelled (who : A)
  | computeSubscriptionCancelled (who : A)
  | storagePlanChanged (user : A) (oldPlan newPlan : H) (subscriptionId chargedCredits refundedCredits : Nat)
  | s3PlanChanged (user : A) (oldPlan newPlan : H) (subscriptionId chargedCredits refundedCredits : Nat)
  | packageSuspensionSet (planId : H) (isSuspended : Bool)
  | planPriceUpdated (planId : H) (price : Nat)
  | planRemoved (planId : H)
  | planRepricingCompleted (planId : H) (newPrice subscriptionsUpdated : Nat)
  deriving DecidableEq

inductive Error where
  | badOrigin
  | market (error : Marketplace.Error)
  | whitelistedCallerNotAuthorized | invalidInput | tooManyRequests | planNotFound | planSuspended | planAlreadyExists
  | packageNotFound | invalidPlanType | nodeTypeDisabled | planOperationDisabled | alreadyHasActiveSubscription
  | tooManyActiveSubscriptions | insufficientFreeCredits | resubscribeCooldownActive | invalidImageSelection | locationNotFound
  | noActiveSubscription | subscriptionNotFound
  deriving DecidableEq, Repr

-- The benchmarked weights and the share of a block for renewals are figures of the
-- runtime. Storage keys contain the account, so no two accounts have one rank.
structure Config (A H B : Type) [DecidableEq A] where
  usage : Usage.Config A B
  hashOf : Bytes → H
  maxActiveSubscriptions : Nat
  minSubscriptionBlocks : Nat
  maxSubscriptionChargesPerRun : Word 32
  maxBackfillAccountsPerRun : Nat
  maxRepricedAccountsPerBlock : Nat
  renewalBudget : Weight
  chargeAccountDue : Weight
  dayProbe : Weight
  drainOverhead : Weight
  backfillAccount : Weight
  ranked : Injective usage.market.accountRank

structure Settings (A : Type) where
  whitelistedCallers : List A
  isPurchasePlanEnabled : Bool
  storageMinerDisabled : Bool
  computeMinerDisabled : Bool
  cdnLocations : Nat → Bool
  osDiskImages : Bytes → Bool

-- A cycle that was charged: the due day it is for, what it cost and the day of the charge.
structure Renewed (A : Type) where
  who : A
  subscriptionId : Nat
  dueDay : Option Nat
  price : Nat
  day : Nat
  deriving DecidableEq

-- The subscriptions next to the credits, batches and usage records; the cursors hold the
-- rank of the last account that was looked at. Renewals is not storage: it lists the
-- cycles that were charged.
structure State (A H B : Type) where
  usage : Usage.State A H B
  settings : Settings A
  plans : H → Option (Plan H)
  userAllSubscriptionPlans : StorageMap A (List (UserPlanSubscription A H))
  nextSubscriptionId : Nat
  subscriptionAnchorDay : Nat → Option Nat
  lastSubscriptionCancelledAt : A → Option Nat
  dueAccounts : StorageMap (Nat × A) Unit
  dueDayCursor : Option Nat
  backfillCursor : Option Nat
  backfillDone : Bool
  fullScanCursor : Option Nat
  repricingQueue : List H
  repricingCursor : Option Nat
  repricedSoFar : Nat
  events : List (Event A H)
  renewals : List (Renewed A)

def genesis (usage : Usage.State A H B) (settings : Settings A) : State A H B where
  usage := usage
  settings := settings
  plans := fun _ => none
  userAllSubscriptionPlans := ∅
  nextSubscriptionId := 0
  subscriptionAnchorDay := fun _ => none
  lastSubscriptionCancelledAt := fun _ => none
  dueAccounts := ∅
  dueDayCursor := none
  backfillCursor := none
  backfillDone := false
  fullScanCursor := none
  repricingQueue := []
  repricingCursor := none
  repricedSoFar := 0
  events := []
  renewals := []

section
variable {A H B : Type} [DecidableEq A] [DecidableEq H]
variable (cfg : Config A H B) (s : State A H B)

def depositEvent (e : Event A H) : State A H B := {s with events:=s.events ++ [e]}

def setMarket (market : Marketplace.State A B) : State A H B :=
  {s with usage:={s.usage with market:=market}}

def State.freeCredits (who : A) : Nat := s.usage.market.freeCredits who

def State.blockNumber : Nat := s.usage.market.blockNumber

def currentUnixDay : Nat := (s.usage.nowMs / msPerDay) % 2 ^ 32

-- A due day of the 28th to the 30th may come from a later anchor, which is then stored.
def anchorOf (sub : UserPlanSubscription A H) : Nat :=
  match sub.nextChargeUnixDay with
  | none => 1
  | some dueDay =>
    let derived := dayOfMonth dueDay
    if 28 ≤ derived ∧ derived ≤ 30 then (s.subscriptionAnchorDay sub.id).getD derived
    else if derived = 0 then 1 else derived

def setAnchor (subscriptionId anchor : Nat) : State A H B :=
  {s with subscriptionAnchorDay:=
    update s.subscriptionAnchorDay subscriptionId (if 28 < anchor then some anchor else none)}

def effectiveDueDay (sub : UserPlanSubscription A H) : Nat :=
  sub.nextChargeUnixDay.getD (unixDayOfFirstOfMonthIn s.usage.nowMs 0)

def dueDaysOf (subs : List (UserPlanSubscription A H)) (floor : Nat) : List Nat :=
  (subs.filter fun sub => sub.active).foldl (fun days sub =>
    let day := max (effectiveDueDay s sub) floor
    if day ∈ days then days else days ++ [day]) []

def subscriptionsOf (who : A) : List (UserPlanSubscription A H) := (s.userAllSubscriptionPlans.lookup who).getD []

def dropAnchors (before after : List (UserPlanSubscription A H)) : State A H B :=
  {s with subscriptionAnchorDay:=before.foldl (fun anchors sub =>
    if after.any (fun other => other.id = sub.id) then anchors else update anchors sub.id none) s.subscriptionAnchorDay}

-- Only days that changed are touched, and the day of the cursor.
def reindex (who : A) (before after : List (UserPlanSubscription A H)) : State A H B :=
  let floor := s.dueDayCursor.getD 0
  let beforeDays := dueDaysOf s before floor
  let afterDays := dueDaysOf s after floor
  let removed := beforeDays.foldl (fun due day => if day ∈ afterDays then due else due.erase (day,who)) s.dueAccounts
  {s with dueAccounts:=afterDays.foldl (fun due day =>
    if day = floor ∨ day ∉ beforeDays then due.insert (day,who) () else due) removed}

def storeSubscriptions (who : A) (before after : List (UserPlanSubscription A H)) : State A H B :=
  {s with userAllSubscriptionPlans:=
    if after = [] then (if before = [] then s.userAllSubscriptionPlans else s.userAllSubscriptionPlans.erase who)
    else if after = before then s.userAllSubscriptionPlans else s.userAllSubscriptionPlans.insert who after}

def commitSubscriptions (who : A) (before after : List (UserPlanSubscription A H)) : State A H B :=
  let after := after.filter fun sub => sub.active
  storeSubscriptions (reindex (dropAnchors s before after) who before after) who before after

-- The cycle that today lies in and the whole cycles between its end and the due day.

def maxCycleWalk : Nat := 25

def walkCycles (anchor today : Nat) : Nat → Nat → Nat → Option (Nat × Nat × Nat)
  | 0, _, _ => none
  | turns + 1, cycleEnd, wholeCyclesAhead =>
    let previous := addMonthsClamped cycleEnd anchor (-1)
    if previous = 0 ∨ cycleEnd ≤ previous then none
    else if previous ≤ today then some (previous,cycleEnd,wholeCyclesAhead)
    else walkCycles anchor today turns previous (wholeCyclesAhead + 1)

def cyclePosition (sub : UserPlanSubscription A H) : Option (Nat × Nat × Nat) :=
  match sub.nextChargeUnixDay with
  | none => none
  | some dueDay =>
    if dueDay ≤ currentUnixDay s then none else walkCycles (anchorOf s sub) (currentUnixDay s) maxCycleWalk dueDay 0

def unusedPrepaidRefundCredits (sub : UserPlanSubscription A H) : Nat :=
  match cyclePosition s sub with
  | none => 0
  | some (_,_,wholeCyclesAhead) => times sub.paidPerMonth wholeCyclesAhead

def remainingCycleValue (sub : UserPlanSubscription A H) (monthlyPrice : Nat) : Nat :=
  match cyclePosition s sub with
  | none => 0
  | some (cycleStart,cycleEnd,_) =>
    let cycleDays := if cycleEnd - cycleStart = 0 then max (daysInMonthOfDay cycleEnd) 1 else cycleEnd - cycleStart
    prorateFirstMonth monthlyPrice (cycleEnd - currentUnixDay s) cycleDays

def advanceCycles (fromDay anchor cycles : Nat) : Nat := (fun day => addMonthsClamped day anchor 1)^[max cycles 1] fromDay

def recordCreditsTransaction (who : A) (amount : Nat) : State A H B :=
  depositEvent s (.pointTransactionRecorded who amount)

def chargeCredits (who : A) (amount : Nat) : Except Error (State A H B) :=
  match consumeCredits s.usage.market who amount with
  | .ok market => .ok (recordCreditsTransaction (setMarket s market) who amount)
  | .error e => .error (.market e)

def refundCredits (who : A) (amount : Nat) : Except Error (State A H B) :=
  match refundCreditsWithBatch s.usage.market who amount with
  | .ok market => .ok (setMarket s market)
  | .error e => .error (.market e)

def payCommission (owner : A) (chargedCredits : Nat) : State A H B :=
  let market := s.usage.market
  setMarket s (tryPayReferralCommissionTokens cfg.usage.market market owner (referralCommissionCredits market chargedCredits)).1

def referralDiscountAndOwner (who : A) (faceCredits : Nat) : Nat × Option A :=
  match s.usage.market.referredUsers who with
  | some code => ((split faceCredits 500).1,s.usage.market.referralCodes code)
  | none => (0,none)

def paidPerMonth (who : A) (plan : Plan H) : Nat :=
  if (s.usage.market.referredUsers who).isSome then (split plan.price 9500).1 else plan.price

def cyclesPaid (payUpfront : Option Nat) : Nat := max (min (payUpfront.getD 1) (maxOf 32)) 1

def activeCount (subs : List (UserPlanSubscription A H)) : Nat := (subs.countP fun sub => sub.active) % 2 ^ 32

def ensureRoom (subs : List (UserPlanSubscription A H)) : Except Error Unit :=
  ensure (activeCount subs < cfg.maxActiveSubscriptions) .tooManyActiveSubscriptions

-- What a purchase collects after the discount, and who referred the buyer.
def purchaseCharge (who : A) (plan : Plan H) (cycles : Nat) : Nat × Option A :=
  let planPrice := times plan.price cycles
  let referral := referralDiscountAndOwner s who planPrice
  (planPrice - referral.1,referral.2)

def ensurePurchasable (who : A) (charged : Nat) : Except Error Unit := do
  ensure (charged ≤ s.freeCredits who) .insufficientFreeCredits
  ensure (∀ cancelled ∈ s.lastSubscriptionCancelledAt who,
    saturatingAdd 64 cancelled cfg.minSubscriptionBlocks ≤ s.blockNumber) .resubscribeCooldownActive

def issueSubscription : State A H B :=
  setAnchor {s with nextSubscriptionId:=saturatingAdd 32 s.nextSubscriptionId 1} s.nextSubscriptionId
    (max (dayOfMonth (currentUnixDay s)) 1)

def newSubscription (who : A) (plan : Plan H) (cycles : Nat) (locationId : Option Nat)
    (selectedImageName : Option Bytes) : UserPlanSubscription A H where
  id := s.nextSubscriptionId
  owner := who
  package := plan
  cdnLocationId := locationId
  active := true
  lastChargedAt := s.blockNumber
  selectedImageName := selectedImageName
  nextChargeUnixDay := some (advanceCycles (currentUnixDay s) (max (dayOfMonth (currentUnixDay s)) 1) cycles)
  paidPerMonth := paidPerMonth s who plan

def openSubscription (who : A) (plan : Plan H) (cycles : Nat) (locationId : Option Nat)
    (selectedImageName : Option Bytes) : Except Error (State A H B) := do
  let charge := purchaseCharge s who plan cycles
  let charged ← chargeCredits (issueSubscription s) who charge.1
  let paid := charge.2.elim charged fun owner => payCommission cfg charged owner charge.1
  let before := subscriptionsOf s who
  .ok (commitSubscriptions paid who before (before ++ [newSubscription s who plan cycles locationId selectedImageName]))

def doPurchaseStoragePlan (who : A) (planId : H) (payUpfront : Option Nat) : Except Error (State A H B) := do
  ensure (s.settings.storageMinerDisabled = false) .nodeTypeDisabled
  ensure (s.settings.isPurchasePlanEnabled = true) .planOperationDisabled
  let plan ← okOr (s.plans planId) .planNotFound
  ensure (plan.isSuspended = false) .planSuspended
  let subscriptions := subscriptionsOf s who
  ensure (∀ sub ∈ subscriptions, ¬(sub.active = true ∧ sub.package.storageFlavour = plan.storageFlavour))
    .alreadyHasActiveSubscription
  ensureRoom cfg subscriptions
  let cycles := cyclesPaid payUpfront
  ensurePurchasable cfg s who (purchaseCharge s who plan cycles).1
  openSubscription cfg s who plan cycles none none

def doPurchaseComputePlan (who : A) (planId : H) (locationId : Option Nat) (selectedImageName : Option Bytes)
    (payUpfront : Option Nat) : Except Error (State A H B) := do
  ensure (s.settings.computeMinerDisabled = false) .nodeTypeDisabled
  ensureRoom cfg (subscriptionsOf s who)
  let plan ← okOr (s.plans planId) .planNotFound
  ensure (plan.isSuspended = false) .planSuspended
  ensure (∀ name ∈ selectedImageName, s.settings.osDiskImages name = true) .invalidImageSelection
  let cycles := cyclesPaid payUpfront
  ensurePurchasable cfg s who (purchaseCharge s who plan cycles).1
  ensure (∀ location ∈ locationId, s.settings.cdnLocations location = true) .locationNotFound
  openSubscription cfg s who plan cycles locationId selectedImageName

def normalizeImageSelection (image : Option Bytes) : Option Bytes := image.filter fun name => name ≠ []

abbrev Order (H : Type) := H × Option Nat × Option Bytes × Option Bytes

def purchaseOne (owner : A) (payUpfront : Option Nat) (s : State A H B) (order : Order H) : Except Error (State A H B) := do
  let (planId,locationId,image,cloudInitCid) := order
  let plan ← okOr (s.plans planId) .planNotFound
  ensure (plan.isSuspended = false) .planSuspended
  let image := if plan.isAnyStorage then none else normalizeImageSelection image
  let bought ← if plan.isAnyStorage then doPurchaseStoragePlan cfg s owner planId payUpfront
    else doPurchaseComputePlan cfg s owner planId locationId image payUpfront
  .ok (depositEvent bought (.planPurchased owner owner planId locationId image cloudInitCid))

def ensureWhitelisted (origin : Origin A) : Except Error Unit :=
  match origin with
  | .signed who => ensure (who ∈ s.settings.whitelistedCallers) .whitelistedCallerNotAuthorized
  | _ => .error .badOrigin

def setRequests (user : A) (requests : Nat) : State A H B :=
  setMarket s {s.usage.market with userRequestsCount:=update s.usage.market.userRequestsCount user requests}

def purchasePlan (origin : Origin A) (owner : A) (planIds : List H) (locationIds : Option (List (Option Nat)))
    (selectedImageNames cloudInitCids : Option (List (Option Bytes))) (payUpfront : Option Nat) :
    Except Error (State A H B) := do
  ensureWhitelisted s origin
  ensure (∀ n ∈ payUpfront, 1 ≤ n ∧ n ≤ 24) .invalidInput
  -- The sum of the two 32-bit counts is a plain addition.
  let requests := (s.usage.market.userRequestsCount owner + planIds.length) % 2 ^ 32
  ensure (requests ≤ cfg.usage.market.maxRequestsPerBlock) .tooManyRequests
  ensure (∀ names ∈ selectedImageNames, names.length = planIds.length) .invalidInput
  ensure (∀ locations ∈ locationIds, locations.length = planIds.length) .invalidInput
  ensure (∀ cids ∈ cloudInitCids, cids.length = planIds.length) .invalidInput
  let absent {α : Type} : List (Option α) := List.replicate planIds.length none
  let orders := planIds.zip ((locationIds.getD absent).zip ((selectedImageNames.getD absent).zip (cloudInitCids.getD absent)))
  orders.foldlM (purchaseOne cfg owner payUpfront) (setRequests s owner requests)

def deactivate (subscriptionId : Nat) :
    List (UserPlanSubscription A H) → Option (UserPlanSubscription A H × List (UserPlanSubscription A H))
  | [] => none
  | sub :: rest =>
    if sub.id = subscriptionId ∧ sub.active = true then some (sub,{sub with active:=false} :: rest)
    else (deactivate subscriptionId rest).map fun found => (found.1,sub :: found.2)

def noteCancelled (who : A) : State A H B :=
  {s with lastSubscriptionCancelledAt:=update s.lastSubscriptionCancelledAt who (some s.blockNumber)}

def doCancelSubscriptionById (who : A) (subscriptionId : Nat) : Except Error (State A H B) := do
  let before := subscriptionsOf s who
  let found ← okOr (deactivate subscriptionId before) .subscriptionNotFound
  let refunded ← refundCredits (commitSubscriptions s who before found.2) who (unusedPrepaidRefundCredits s found.1)
  let cooled := if (subscriptionsOf refunded who).any (fun sub => sub.active) then refunded else noteCancelled refunded who
  .ok (depositEvent cooled (if found.1.package.isAnyStorage then .storageSubscriptionCancelled who
    else .computeSubscriptionCancelled who))

def bulkRefund (subs : List (UserPlanSubscription A H)) : Nat :=
  (subs.filter fun sub => sub.package.isAnyStorage && sub.active).foldl
    (fun refunded sub => saturatingAdd 128 refunded (unusedPrepaidRefundCredits s sub)) 0

def doDeleteStorageSubscriptionWithRefund (who : A) : Except Error (State A H B) := do
  let before := subscriptionsOf s who
  let after := before.filter fun sub => !sub.package.isAnyStorage
  ensure (after.length < before.length) .noActiveSubscription
  let refunded ← refundCredits (commitSubscriptions s who before after) who (bulkRefund s before)
  .ok (depositEvent (noteCancelled refunded who) (.storageSubscriptionCancelled who))

def cancelUserSubscription (origin : Origin A) (user : A) (subscriptionId : Option Nat) : Except Error (State A H B) := do
  ensureWhitelisted s origin
  match subscriptionId with
  | some id => doCancelSubscriptionById s user id
  | none => doDeleteStorageSubscriptionWithRefund s user

def soleActive (flavour : StorageFlavour) (subs : List (UserPlanSubscription A H)) :
    Except Error (UserPlanSubscription A H × Nat) :=
  match subs.zipIdx.filter fun entry => entry.1.active && entry.1.package.storageFlavour = some flavour with
  | [] => .error .noActiveSubscription
  | [found] => .ok found
  | _ => .error .tooManyActiveSubscriptions

def changeCharge (who : A) (newPlan : Plan H) (old : UserPlanSubscription A H) : Nat :=
  newPlan.price - (referralDiscountAndOwner s who newPlan.price).1 - remainingCycleValue s old old.paidPerMonth

def chargeNet (who : A) (netCharge : Nat) : Except Error (State A H B) :=
  if 0 < netCharge then chargeCredits s who netCharge else .ok s

def planChanged (flavour : StorageFlavour) (user : A) (oldPlan newPlan : H)
    (subscriptionId chargedCredits refundedCredits : Nat) : Event A H :=
  match flavour with
  | .drive => .storagePlanChanged user oldPlan newPlan subscriptionId chargedCredits refundedCredits
  | .s3 => .s3PlanChanged user oldPlan newPlan subscriptionId chargedCredits refundedCredits

def doChangePlanOfFlavour (who : A) (flavour : StorageFlavour) (newPlanId : H) : Except Error (State A H B) := do
  ensure (s.settings.storageMinerDisabled = false) .nodeTypeDisabled
  ensure (s.settings.isPurchasePlanEnabled = true) .planOperationDisabled
  let before := subscriptionsOf s who
  let old ← soleActive flavour before
  ensure (newPlanId ≠ old.1.package.id) .invalidInput
  let newPlan ← okOr (s.plans newPlanId) .planNotFound
  ensure (newPlan.isSuspended = false) .planSuspended
  ensure (newPlan.storageFlavour = some flavour) .invalidPlanType
  -- The refund of prepaid cycles and the charge are netted, so credits move once.
  let refund := unusedPrepaidRefundCredits s old.1
  let charge := changeCharge s who newPlan old.1
  let netCharge := charge - refund
  let netRefund := refund - charge
  ensure (netCharge ≤ s.freeCredits who) .insufficientFreeCredits
  let charged ← chargeNet s who netCharge
  let settled ← refundCredits charged who netRefund
  let paid := (referralDiscountAndOwner s who newPlan.price).2.elim settled fun owner =>
    payCommission cfg settled owner netCharge
  let after := before.set old.2 (newSubscription s who newPlan 1 none none)
  .ok (depositEvent (commitSubscriptions (issueSubscription paid) who before after)
    (planChanged flavour who old.1.package.id newPlanId s.nextSubscriptionId netCharge netRefund))

def dispatchPlanChange (origin : Origin A) (user : A) (flavour : StorageFlavour) (newPlanId : H) :
    Except Error (State A H B) := do
  ensureWhitelisted s origin
  let requests := saturatingAdd 32 (s.usage.market.userRequestsCount user) 1
  ensure (requests ≤ cfg.usage.market.maxRequestsPerBlock) .tooManyRequests
  doChangePlanOfFlavour cfg (setRequests s user requests) user flavour newPlanId

def changeStoragePlan (origin : Origin A) (user : A) (newPlanId : H) :
    Except Error (State A H B) := dispatchPlanChange cfg s origin user .drive newPlanId

def changeS3Plan (origin : Origin A) (user : A) (newPlanId : H) :
    Except Error (State A H B) := dispatchPlanChange cfg s origin user .s3 newPlanId

def ensureRoot (origin : Origin A) : Except Error Unit := ensure (origin = .root) .badOrigin

def setPackageSuspension (origin : Origin A) (planId : H) (isSuspended : Bool) : Except Error (State A H B) := do
  ensureRoot origin
  let plan ← okOr (s.plans planId) .packageNotFound
  .ok (depositEvent {s with plans:=update s.plans planId (some {plan with isSuspended:=isSuspended})}
    (.packageSuspensionSet planId isSuspended))

def addNewPlan (origin : Origin A) (planName : Bytes) (price : Word 128) (isStoragePlan isS3Plan : Bool) :
    Except Error (State A H B) := do
  ensureRoot origin
  ensure (¬(isStoragePlan = true ∧ isS3Plan = true)) .invalidPlanType
  let planId := cfg.hashOf planName
  ensure (s.plans planId = none) .planAlreadyExists
  .ok {s with plans:=update s.plans planId (some ⟨planId,false,price,isStoragePlan,isS3Plan⟩)}

-- The walk over the subscriptions starts again when it is the first of the queue that
-- gets another price.
def setPlanPrice (origin : Origin A) (planId : H) (newPrice : Word 128) : Except Error (State A H B) := do
  ensureRoot origin
  let plan ← okOr (s.plans planId) .planNotFound
  let priced := {s with plans:=update s.plans planId (some {plan with price:=newPrice})}
  let queued := if planId ∈ s.repricingQueue then
      (if s.repricingQueue.head? = some planId then {priced with repricingCursor:=none,repricedSoFar:=0} else priced)
    else {priced with repricingQueue:=s.repricingQueue ++ [planId]}
  .ok (depositEvent queued (.planPriceUpdated planId newPrice))

def removePlan (origin : Origin A) (planId : H) : Except Error (State A H B) := do
  ensureRoot origin
  ensure ((s.plans planId).isSome = true) .planNotFound
  let removed := {s with
    plans:=update s.plans planId none
    repricingQueue:=s.repricingQueue.filter fun queued => queued ≠ planId}
  .ok (depositEvent (if s.repricingQueue.head? = some planId then {removed with repricingCursor:=none,repricedSoFar:=0}
    else removed) (.planRemoved planId))

def advanceSubscriptionCycle (today currentBlock : Nat) (sub : UserPlanSubscription A H) : UserPlanSubscription A H :=
  {sub with
    lastChargedAt:=currentBlock
    paidPerMonth:=sub.package.price
    nextChargeUnixDay:=some (addMonthsClamped (sub.nextChargeUnixDay.getD today) (anchorOf s sub) 1)}

def isDue (today : Nat) (sub : UserPlanSubscription A H) : Bool := sub.nextChargeUnixDay.all fun day => day ≤ today

def charges (today : Nat) (sub : UserPlanSubscription A H) : Bool := sub.active && isDue today sub

def noteRenewed (who : A) (sub : UserPlanSubscription A H) (amount : Nat) : State A H B :=
  depositEvent {s with renewals:=s.renewals ++ [⟨who,sub.id,sub.nextChargeUnixDay,amount,currentUnixDay s⟩]}
    (.subscriptionRenewed who sub.id sub.package.id amount)

-- A subscription that cannot be paid is listed with the credits left when it was reached.
structure Charging (A H B : Type) where
  state : State A H B
  charged : Nat
  available : Nat
  failed : List (Nat × Nat)

def chargeOne (who : A) (p : Charging A H B) (sub : UserPlanSubscription A H) : Charging A H B :=
  let price : Nat := sub.package.price
  if p.available < price then {p with failed:=p.failed ++ [(sub.id,p.available)]}
  else match consumeCredits p.state.usage.market who price with
    | .ok market =>
      ⟨noteRenewed (recordCreditsTransaction (setMarket p.state market) who price) who sub price,
        saturatingAdd 128 p.charged price,p.available - price,p.failed⟩
    | .error _ => {p with failed:=p.failed ++ [(sub.id,p.available)]}

def chargeDueSubscriptionsIndividually (who : A) (due : List (UserPlanSubscription A H)) : Charging A H B :=
  (due.insertionSort fun one two => one.id ≤ two.id).foldl (chargeOne who) ⟨s,0,s.freeCredits who,[]⟩

structure Renewal (A H B : Type) where
  state : State A H B
  subs : List (UserPlanSubscription A H)

def renewFree (who : A) (today currentBlock : Nat) (p : Renewal A H B) : Renewal A H B where
  state := (p.subs.filter (charges today)).foldl (fun s sub => noteRenewed s who sub 0) p.state
  subs := p.subs.map fun sub => if charges today sub then advanceSubscriptionCycle p.state today currentBlock sub else sub

-- The rows that were paid move on; anchors are not touched by a charge.
def settleRows (today currentBlock : Nat) (failed : List (Nat × Nat))
    (subs : List (UserPlanSubscription A H)) : List (UserPlanSubscription A H) :=
  subs.map fun sub =>
    if charges today sub && !(failed.any fun entry => entry.1 = sub.id) then advanceSubscriptionCycle s today currentBlock sub else sub

def dropFailed (who : A) (storageAvailable computeAvailable : Nat) (p : Renewal A H B) (entry : Nat × Nat) : Renewal A H B :=
  match p.subs.find? fun sub => sub.id = entry.1 with
  | none => p
  | some failed =>
    let dropped : Renewal A H B := match deactivate entry.1 p.subs with
      | none => p
      | some found =>
        ⟨match refundCredits p.state who (unusedPrepaidRefundCredits p.state found.1) with
          | .ok refunded => refunded
          | .error _ => p.state,found.2⟩
    let attempt := if failed.package.isAnyStorage then storageAvailable else computeAvailable
    ⟨depositEvent (depositEvent dropped.state (.subscriptionChargeFailed who failed.package.price attempt))
      (.subscriptionRenewalFailed who entry.1 failed.package.id failed.package.price entry.2),dropped.subs⟩

def payRenewalCommission (who : A) (charged : Nat) : State A H B :=
  if charged = 0 then s else
  match referrerOf s.usage.market who with
  | none => s
  | some referrer => payCommission cfg s referrer charged

def renewPaid (who : A) (today currentBlock : Nat) (p : Renewal A H B) : Renewal A H B :=
  let due := p.subs.filter (charges today)
  let storage := chargeDueSubscriptionsIndividually p.state who (due.filter fun sub => sub.package.isAnyStorage)
  let compute := chargeDueSubscriptionsIndividually storage.state who (due.filter fun sub => !sub.package.isAnyStorage)
  let failed := storage.failed ++ compute.failed
  let paid := payRenewalCommission cfg compute.state who (saturatingAdd 128 storage.charged compute.charged)
  failed.foldl (dropFailed who (p.state.freeCredits who) (storage.state.freeCredits who))
    ⟨paid,settleRows compute.state today currentBlock failed p.subs⟩

def maxCatchupMonths : Nat := 3

def totalCharge (due : List (UserPlanSubscription A H)) : Nat :=
  due.foldl (fun total sub => saturatingAdd 128 total sub.package.price) 0

-- One round of the catch-up. With nothing due it changes nothing, and the loop is over.
def round (who : A) (today currentBlock : Nat) (p : Renewal A H B) : Renewal A H B :=
  let due := p.subs.filter (charges today)
  if due = [] then p
  else if totalCharge (due.filter fun sub => sub.package.isAnyStorage) = 0 ∧
      totalCharge (due.filter fun sub => !sub.package.isAnyStorage) = 0 then renewFree who today currentBlock p
  else renewPaid cfg who today currentBlock p

def catchUp (who : A) (today currentBlock rounds : Nat) (p : Renewal A H B) : Renewal A H B :=
  (round cfg who today currentBlock)^[rounds] p

def chargeAccountDue (who : A) (currentBlock : Nat) : State A H B :=
  let before := subscriptionsOf s who
  if before.any (fun sub => sub.active) then
    let p := catchUp cfg who (currentUnixDay s) currentBlock maxCatchupMonths ⟨s,before⟩
    commitSubscriptions p.state who before p.subs
  else s

def accountsAffordableReserving (limit consumed perAccount reserve : Weight) : Nat :=
  min (Usage.affordableBy cfg.usage (limit.refTime - consumed.refTime - reserve.refTime) perAccount.refTime)
    (Usage.affordableBy cfg.usage (limit.proofSize - consumed.proofSize - reserve.proofSize) perAccount.proofSize)

def page (cursor : Option Nat) (limit : Nat) : List (A × List (UserPlanSubscription A H)) :=
  ((s.userAllSubscriptionPlans.iter cfg.usage.market.accountRank).filter fun entry =>
    cursor.all fun start => start < cfg.usage.market.accountRank entry.1).take limit

def nextCursor (limit : Nat) (length : Nat) (last : A) : Option Nat :=
  if length < limit then none else some (cfg.usage.market.accountRank last)

def maxDayProbes : Nat := 64

structure Drain (A H B : Type) where
  state : State A H B
  consumed : Weight
  cursor : Nat
  published : Option Nat
  seen : Nat
  probes : Nat

def publish (d : Drain A H B) : Drain A H B :=
  if d.published = some d.cursor then d
  else {d with
    state:={d.state with dueDayCursor:=some d.cursor}
    consumed:=d.consumed.add (cfg.usage.market.dbWrite.mul 1)
    published:=some d.cursor}

-- The entry goes before the charge, which files the account again.
def visit (currentBlock : Nat) (d : Drain A H B) (who : A) : Drain A H B :=
  {d with
    state:=chargeAccountDue cfg {d.state with dueAccounts:=d.state.dueAccounts.erase (d.cursor,who)} who currentBlock
    consumed:=d.consumed.add cfg.chargeAccountDue
    seen:=saturatingAdd 64 d.seen 1}

def publishReserve (d : Drain A H B) : Weight :=
  if d.published = some d.cursor then ⟨0,0⟩ else cfg.usage.market.dbWrite.mul 1

def batchSize (limit : Weight) (d : Drain A H B) : Nat :=
  min (cfg.maxSubscriptionChargesPerRun - d.seen)
    (accountsAffordableReserving cfg limit d.consumed cfg.chargeAccountDue (publishReserve cfg d))

def dueBatch (limit : Weight) (d : Drain A H B) : List A :=
  ((d.state.dueAccounts.keysUnder cfg.usage.market.accountRank d.cursor).map Prod.snd).take (batchSize cfg limit d)

-- A day whose prefix is empty is left behind; any other is worked on.
def drain (limit : Weight) (today currentBlock : Nat) : Nat → Drain A H B → Drain A H B
  | 0, d => d
  | turns + 1, d =>
    if ¬(d.cursor ≤ today ∧ d.seen < cfg.maxSubscriptionChargesPerRun ∧ d.probes < maxDayProbes) then d
    else if batchSize cfg limit d = 0 then d
    else if dueBatch cfg limit d = [] then
      match Weight.tryConsume limit d.consumed cfg.dayProbe with
      | none => d
      | some consumed =>
        drain limit today currentBlock turns
          {d with consumed:=consumed,probes:=d.probes + 1,cursor:=saturatingAdd 32 d.cursor 1}
    else drain limit today currentBlock turns ((dueBatch cfg limit d).foldl (visit cfg currentBlock) (publish cfg d))

def fullScanSubscriptionCharging (currentBlock : Nat) (limit consumed : Weight) : State A H B :=
  match Weight.tryConsume limit consumed cfg.drainOverhead with
  | none => s
  | some consumed =>
    let affordable := Usage.accountsAffordable cfg.usage limit consumed cfg.chargeAccountDue
    if affordable = 0 then s else
    let batch := (page cfg s s.fullScanCursor affordable).map Prod.fst
    match batch.getLast? with
    | none => {s with fullScanCursor:=none}
    | some last =>
      {batch.foldl (fun s who => chargeAccountDue cfg s who currentBlock) s with
        fullScanCursor:=nextCursor cfg affordable batch.length last}

-- Every turn of the drain sees an account or probes a day, so it stops before its turns
-- are used up.
def handleAllSubscriptionCharging (currentBlock : Nat) (limit consumed : Weight) : State A H B :=
  let cap := cfg.maxSubscriptionChargesPerRun
  if cap = 0 then s
  else if s.backfillDone = false then fullScanSubscriptionCharging cfg s currentBlock limit consumed
  else match Weight.tryConsume limit consumed cfg.drainOverhead with
    | none => s
    | some consumed =>
      let today := currentUnixDay s
      let d := drain cfg limit today currentBlock (cap + maxDayProbes)
        ⟨s,consumed,s.dueDayCursor.getD today,s.dueDayCursor,0,0⟩
      {d.state with dueDayCursor:=some d.cursor}

def normalise (start : Nat) (sub : UserPlanSubscription A H) : UserPlanSubscription A H :=
  if sub.active = true ∧ sub.nextChargeUnixDay = none then {sub with nextChargeUnixDay:=some start} else sub

def backfillOne (start : Nat) (s : State A H B) (entry : A × List (UserPlanSubscription A H)) : State A H B :=
  let after := entry.2.map (normalise start)
  {s with
    dueAccounts:=(after.filter fun sub => sub.active).foldl (fun due sub =>
      due.insert (max (effectiveDueDay s sub) start,entry.1) ()) s.dueAccounts
    userAllSubscriptionPlans:=(if entry.2.any fun sub => sub.active && sub.nextChargeUnixDay.isNone then
      s.userAllSubscriptionPlans.insert entry.1 after else s.userAllSubscriptionPlans)}

def backfillDueIndex (limit consumed : Weight) : State A H B × Weight :=
  if s.backfillDone = true then (s,consumed) else
  let size := min cfg.maxBackfillAccountsPerRun (Usage.accountsAffordable cfg.usage limit consumed cfg.backfillAccount)
  if cfg.maxBackfillAccountsPerRun = 0 ∨ size = 0 then (s,consumed) else
  let start := s.dueDayCursor.getD (unixDayOfFirstOfMonthIn s.usage.nowMs 0)
  let s := {s with dueDayCursor:=some start}
  let batch := page cfg s s.backfillCursor size
  match batch.getLast? with
  | none => ({s with backfillDone:=true,backfillCursor:=none},consumed)
  | some last =>
    let filled := batch.foldl (backfillOne start) s
    ({filled with
        backfillDone:=batch.length < size
        backfillCursor:=nextCursor cfg size batch.length last.1},
      consumed.add (cfg.backfillAccount.mul batch.length))

-- New prices reach the copies of a plan a page of accounts at a time.

def finishRepricingJob (planId : H) (newPrice updated : Nat) : State A H B :=
  depositEvent {s with repricingQueue:=s.repricingQueue.tail,repricingCursor:=none,repricedSoFar:=0}
    (.planRepricingCompleted planId newPrice updated)

def reprices (planId : H) (newPrice : Word 128) (sub : UserPlanSubscription A H) : Bool :=
  sub.package.id = planId && sub.package.price ≠ newPrice

def reprice (planId : H) (newPrice : Word 128) (sub : UserPlanSubscription A H) : UserPlanSubscription A H :=
  if reprices planId newPrice sub then {sub with package:={sub.package with price:=newPrice}} else sub

def repriceOne (planId : H) (newPrice : Word 128) (plans : StorageMap A (List (UserPlanSubscription A H)))
    (entry : A × List (UserPlanSubscription A H)) :
    StorageMap A (List (UserPlanSubscription A H)) :=
  if entry.2.any (reprices planId newPrice) then plans.insert entry.1 (entry.2.map (reprice planId newPrice)) else plans

def repricedIn (planId : H) (newPrice : Word 128) (batch : List (A × List (UserPlanSubscription A H))) : Nat :=
  batch.foldl (fun updated entry => (entry.2.filter (reprices planId newPrice)).foldl
    (fun updated _ => saturatingAdd 32 updated 1) updated) 0

def processPendingRepricing : State A H B :=
  let limit := cfg.maxRepricedAccountsPerBlock
  if limit = 0 then s else
  match s.repricingQueue.head? with
  | none => s
  | some planId =>
    match s.plans planId with
    | none => {s with repricingQueue:=s.repricingQueue.tail,repricingCursor:=none,repricedSoFar:=0}
    | some plan =>
      let batch := page cfg s s.repricingCursor limit
      match batch.getLast? with
      | none => finishRepricingJob s planId plan.price s.repricedSoFar
      | some last =>
        let repriced := {s with userAllSubscriptionPlans:=batch.foldl (repriceOne planId plan.price) s.userAllSubscriptionPlans}
        let updated := saturatingAdd 32 s.repricedSoFar (repricedIn planId plan.price batch)
        if batch.length < limit then finishRepricingJob repriced planId plan.price updated
        else {repriced with repricingCursor:=some (cfg.usage.market.accountRank last.1),repricedSoFar:=updated}

-- The block hook. Hourly billing is a run of debits and commission accruals.
def onInitialize (now : Nat) : State A H B :=
  let market := {s.usage.market with bank:={s.usage.market.bank with blockNumber:=now}}
  let s := setMarket s (if now % 15 = 0 then {market with userRequestsCount:=fun _ => 0} else market)
  let s := processPendingRepricing cfg s
  let s := if now % cfg.usage.market.referralPayoutInterval = 0 then
    setMarket s (sweepReferralCommissions cfg.usage.market s.usage.market) else s
  if now % cfg.usage.market.blockChargeCheckInterval = 0 then
    let filled := backfillDueIndex cfg s cfg.renewalBudget ⟨0,0⟩
    let charged := handleAllSubscriptionCharging cfg filled.1 now cfg.renewalBudget filled.2
    setMarket charged (releaseMaturedPendingAlpha cfg.usage.market charged.usage.market now)
  else s

end

-- The calls on subscriptions and plans, and the block hook. The clock and every other
-- call are those on usage and credits.
inductive Call (A H B : Type) where
  | purchasePlan (origin : Origin A) (owner : A) (planIds : List H)
      (locationIds : Option (List (Option (Word 32)))) (selectedImageNames cloudInitCids : Option (List (Option Bytes)))
      (payUpfront : Option (Word 128))
  | cancelUserSubscription (origin : Origin A) (user : A) (subscriptionId : Option (Word 32))
  | changeStoragePlan (origin : Origin A) (user : A) (newPlanId : H)
  | changeS3Plan (origin : Origin A) (user : A) (newPlanId : H)
  | setPackageSuspension (origin : Origin A) (planId : H) (isSuspended : Bool)
  | addNewPlan (origin : Origin A) (planName : Bytes) (price : Word 128) (isStoragePlan isS3Plan : Bool)
  | setPlanPrice (origin : Origin A) (planId : H) (newPrice : Word 128)
  | removePlan (origin : Origin A) (planId : H)
  | configure (settings : Settings A)
  | nextBlock
  | usage (call : Usage.Call A H B)

section
variable {A H B : Type} [DecidableEq A] [DecidableEq H]

def dispatch (cfg : Config A H B) (s : State A H B) :
    Call A H B → Except Error (State A H B)
  | .purchasePlan origin owner planIds locationIds selectedImageNames cloudInitCids payUpfront =>
    purchasePlan cfg s origin owner planIds (locationIds.map fun ids => ids.map fun id => id.map Fin.val)
      selectedImageNames cloudInitCids (payUpfront.map Fin.val)
  | .cancelUserSubscription origin user subscriptionId => cancelUserSubscription s origin user (subscriptionId.map Fin.val)
  | .changeStoragePlan origin user newPlanId => changeStoragePlan cfg s origin user newPlanId
  | .changeS3Plan origin user newPlanId => changeS3Plan cfg s origin user newPlanId
  | .setPackageSuspension origin planId isSuspended => setPackageSuspension s origin planId isSuspended
  | .addNewPlan origin planName price isStoragePlan isS3Plan => addNewPlan cfg s origin planName price isStoragePlan isS3Plan
  | .setPlanPrice origin planId newPrice => setPlanPrice s origin planId newPrice
  | .removePlan origin planId => removePlan s origin planId
  | .configure settings => .ok {s with settings:=settings}
  | .nextBlock => .ok (onInitialize cfg s (s.blockNumber + 1))
  | .usage call => .ok {s with usage:=Usage.step cfg.usage s.usage call}

def step (cfg : Config A H B) (s : State A H B) (call : Call A H B) :
    State A H B := commit s (dispatch cfg s call)

end
end TheBrain.Marketplace.Subscriptions
