import TheBrain.Bridge.Pallet
import TheBrain.Library.Lifecycle

namespace TheBrain.Bridge.Pallet
open Library Machine Words

-- What each accepted extrinsic did: its guards and the state it left. Later modules
-- use these readings and do not unfold the extrinsics again.
variable {A H B : Type}
variable {s t : State A H B}
variable {id : H} {deposit : Deposit A H}

@[simp] theorem ensureSigned_ok {origin : Origin A} : ensureSigned origin = .ok a ↔ origin = .signed a := by
  cases origin <;> simp [ensureSigned]

@[simp] theorem ensureRoot_ok {origin : Origin A} : ensureRoot origin = .ok u ↔ origin = .root := by
  cases origin <;> simp [ensureRoot]

@[simp] theorem ensureNotPaused_ok : ensureNotPaused s = .ok u ↔ s.paused = false := ensure_ok

theorem raiseTotalMinted_ok : raiseTotalMinted s amount = .ok t ↔
    s.totalMintedByBridge + amount < 2 ^ 128 ∧ s.totalMintedByBridge + amount ≤ s.globalMintCap ∧
      t = {s with totalMintedByBridge:=s.totalMintedByBridge + amount} := by
  simp only [raiseTotalMinted,passes,checkedAdd_some]
  constructor
  · rintro ⟨_,⟨fits,rfl⟩,cap,rfl⟩
    exact ⟨fits,cap,rfl⟩
  · rintro ⟨fits,cap,rfl⟩
    exact ⟨_,⟨fits,rfl⟩,cap,rfl⟩

theorem adminCancelDeposit_ok [DecidableEq H] : adminCancelDeposit s origin id reason = .ok t ↔
    ∃ deposit, origin = .root ∧ s.deposits.lookup id = some deposit ∧ deposit.status = .pending ∧
      t = depositEvent {s with deposits:=s.deposits.insert id {deposit with finalizedAtBlock:=some s.blockNumber,status:=.cancelled}}
        (.depositCancelled id reason) := by
  simp only [adminCancelDeposit,passes,ensureRoot_ok]
  constructor
  · rintro ⟨root,deposit,found,pending,rfl⟩
    exact ⟨deposit,root,found,pending,rfl⟩
  · rintro ⟨deposit,root,found,pending,rfl⟩
    exact ⟨root,deposit,found,pending,rfl⟩

theorem adminCancelStakingRewardTransfer_ok [DecidableEq H] (ran : adminCancelStakingRewardTransfer s origin id = .ok t) :
    ∃ transfer, s.stakingRewardTransfers.lookup id = some transfer ∧
      t = depositEvent {s with
        stakingRewardTransfers:=s.stakingRewardTransfers.insert id {transfer with finalizedAtBlock:=some s.blockNumber,status:=.cancelled}}
        (.stakingRewardTransferCancelled id) := by
  simp only [adminCancelStakingRewardTransfer,passes] at ran
  obtain ⟨_,transfer,found,_,rfl⟩ := ran
  exact ⟨transfer,found,rfl⟩

def Call.configures : Call A H B → Bool
  | .pause _ | .unpause _ | .setGlobalMintCap .. | .setCleanupTTL .. | .setMinWithdrawalAmount .. => true
  | .addRewardBridgeWhitelist .. | .removeRewardBridgeWhitelist .. | .setMaxMintPerEra .. => true
  | .initializeBlock _ | .startEra _ => true
  | _ => false

def Event.configures : Event A H → Bool
  | .paused | .unpaused | .globalMintCapUpdated _ | .cleanupTTLUpdated .. | .minWithdrawalAmountUpdated .. => true
  | .rewardBridgeWhitelistAdded _ | .rewardBridgeWhitelistRemoved _ | .maxMintPerEraUpdated _ => true
  | _ => false

theorem reports_one (e : Event A H) (events : t.events = s.events ++ [e]) (shown : e.configures = true) :
    ∃ log, t.events = s.events ++ log ∧ ∀ e ∈ log, e.configures = true := by
  refine ⟨[e],events,?_⟩
  intro other mem
  cases List.mem_singleton.mp mem
  exact shown

theorem reports_none (events : t.events = s.events) : ∃ log, t.events = s.events ++ log ∧ ∀ e ∈ log, e.configures = true := by
  refine ⟨[],?_,?_⟩
  · simp [events]
  · intro e mem
    cases mem

structure SameLimits (s t : State A H B) : Prop where
  block : t.blockNumber = s.blockNumber := by rfl
  era : t.activeEraIndex = s.activeEraIndex := by rfl
  cap : t.globalMintCap = s.globalMintCap := by rfl
  ttl : t.cleanupTTLBlocks = s.cleanupTTLBlocks := by rfl
  perEra : t.maxMintPerEra = s.maxMintPerEra := by rfl

theorem enterEra_limits (s : State A H B) : SameLimits s (enterEra s) := by
  unfold enterEra
  split
  · exact {}
  · exact {}

def rewarded [DecidableEq H] (s : State A H B) (id : H) (transfer : StakingRewardTransfer A H) (accounts : B) : State A H B :=
  depositEvent {enterEra s with
    totalMintedByBridge:=s.totalMintedByBridge + transfer.amount,accounts:=accounts,
    eraMintedAmount:=(enterEra s).eraMintedAmount + transfer.amount,
    stakingRewardTransfers:=s.stakingRewardTransfers.insert id
      {transfer with finalizedAtBlock:=some s.blockNumber,status:=.completed}}
    (.stakingRewardTransferCompleted id transfer.amount)

theorem rewarded_limits [DecidableEq H] (s : State A H B) (id : H) (transfer : StakingRewardTransfer A H)
    (accounts : B) : SameLimits s (rewarded s id transfer accounts) :=
  have era := enterEra_limits s
  {block:=era.block,era:=era.era,cap:=era.cap,ttl:=era.ttl,perEra:=era.perEra}

variable [DecidableEq A] {cfg : Config A H B}

@[simp] theorem ensureGuardian_ok : ensureGuardian s a = .ok u ↔ a ∈ s.guardians := ensure_ok

@[simp] theorem ensureWhitelisted_ok : ensureWhitelisted s a = .ok u ↔ a ∈ s.rewardBridgeWhitelist := ensure_ok

@[simp] theorem amountToBalance_ok : amountToBalance amount = .ok b ↔ amount < 2 ^ 128 ∧ b = amount := by
  unfold amountToBalance
  split <;> simp_all [okOr,eq_comm]

theorem mintToRecipient_ok : mintToRecipient cfg s recipient amount = .ok t ↔
    amount < 2 ^ 128 ∧ ∃ accounts, cfg.mintInto s.accounts recipient amount = some accounts ∧
      t = {s with accounts:=accounts} := by
  simp only [mintToRecipient,passes,amountToBalance_ok]
  constructor
  · rintro ⟨_,⟨fits,rfl⟩,accounts,minted,rfl⟩
    exact ⟨fits,accounts,minted,rfl⟩
  · rintro ⟨fits,accounts,minted,rfl⟩
    exact ⟨_,⟨fits,rfl⟩,accounts,minted,rfl⟩

theorem adminManualMint_ok (ran : adminManualMint cfg s origin recipient amount depositId = .ok t) :
    ∃ accounts, s.totalMintedByBridge + amount ≤ s.globalMintCap ∧ cfg.mintInto s.accounts recipient amount = some accounts ∧
      t = depositEvent {s with totalMintedByBridge:=s.totalMintedByBridge + amount,accounts:=accounts}
        (.adminManualMint recipient amount depositId) := by
  simp only [adminManualMint,passes,ensureRoot_ok,raiseTotalMinted_ok,mintToRecipient_ok] at ran
  obtain ⟨_,_,⟨_,cap,rfl⟩,_,⟨_,accounts,minted,rfl⟩,rfl⟩ := ran
  exact ⟨accounts,cap,minted,rfl⟩

variable [DecidableEq H]

def credited (s : State A H B) (id : H) (deposit : Deposit A H) (accounts : B) : State A H B :=
  depositEvent {s with
    totalMintedByBridge:=s.totalMintedByBridge + deposit.amount,accounts:=accounts,
    deposits:=s.deposits.insert id {deposit with finalizedAtBlock:=some s.blockNumber,status:=.completed}}
    (.depositCompleted id deposit.recipient deposit.amount)

theorem finalizeDeposit_ok : finalizeDeposit cfg s id deposit = .ok t ↔
    s.totalMintedByBridge + deposit.amount < 2 ^ 128 ∧ s.totalMintedByBridge + deposit.amount ≤ s.globalMintCap ∧
      ∃ accounts, cfg.mintInto s.accounts deposit.recipient deposit.amount = some accounts ∧
        t = credited s id deposit accounts := by
  simp only [finalizeDeposit,passes,raiseTotalMinted_ok,mintToRecipient_ok]
  constructor
  · rintro ⟨_,⟨fits,cap,rfl⟩,_,⟨_,accounts,minted,rfl⟩,rfl⟩
    exact ⟨fits,cap,accounts,minted,rfl⟩
  · rintro ⟨fits,cap,accounts,minted,rfl⟩
    exact ⟨_,⟨fits,cap,rfl⟩,_,⟨by omega,accounts,minted,rfl⟩,rfl⟩

theorem countVote_ok : countVote cfg s id deposit = .ok t ↔
    (s.approveThreshold ≤ deposit.votes.card ∧ finalizeDeposit cfg s id deposit = .ok t) ∨
      (deposit.votes.card < s.approveThreshold ∧ t = {s with deposits:=s.deposits.insert id deposit}) := by
  unfold countVote
  split
  · rename_i reached
    simp [reached,Nat.not_lt.mpr reached]
  · rename_i short
    simp [short,Nat.not_le.mp short,eq_comm]

theorem withdraw_ok (ran : withdraw cfg s origin amount = .ok t) :
    ∃ sender accounts id, origin = .signed sender ∧ s.paused = false ∧ s.minWithdrawalAmount ≤ amount ∧
      amount % halphaRaoPerAlphaRao = 0 ∧ amount < 2 ^ 128 ∧ amount ≤ s.totalMintedByBridge ∧
      cfg.burnFrom s.accounts sender amount = some accounts ∧
      id = cfg.blake2256 (requestBytes domainWithdrawalRequest (cfg.encode sender) (amount / halphaRaoPerAlphaRao)
        s.nextWithdrawalRequestNonce) ∧
      t = depositEvent {s with
        accounts:=accounts,totalMintedByBridge:=s.totalMintedByBridge - amount,
        nextWithdrawalRequestNonce:=saturatingAdd 64 s.nextWithdrawalRequestNonce 1,
        withdrawalRequests:=s.withdrawalRequests.insert id
          {sender:=sender,recipient:=sender,amount:=amount,nonce:=s.nextWithdrawalRequestNonce,status:=.requested,
            createdAtBlock:=s.blockNumber}}
        (.withdrawalRequestCreated id sender sender amount) := by
  simp only [withdraw,passes,ensureSigned_ok,ensureNotPaused_ok,amountToBalance_ok,checkedSub_some] at ran
  obtain ⟨sender,signed,paused,minimum,whole,_,⟨fits,rfl⟩,accounts,burned,_,⟨enough,rfl⟩,rfl⟩ := ran
  exact ⟨sender,accounts,_,signed,paused,minimum,whole,fits,enough,burned,rfl,rfl⟩

def attested (s : State A H B) (guardian : A) (id : H) (recipient : A) (amount : Nat) : Deposit A H :=
  match s.deposits.lookup id with
  | some deposit => {deposit with votes:=insert guardian deposit.votes}
  | none =>
    {requestId:=id,recipient:=recipient,amount:=amount,votes:={guardian},status:=.pending,
      createdAtBlock:=s.blockNumber,finalizedAtBlock:=none}

theorem attestDeposit_ok : attestDeposit cfg s origin id recipient amount nonce = .ok t ↔
    ∃ guardian, origin = .signed guardian ∧ guardian ∈ s.guardians ∧ s.paused = false ∧
      depositRequestId cfg recipient amount nonce = id ∧
      (∀ deposit, s.deposits.lookup id = some deposit → deposit.status = .pending ∧ guardian ∉ deposit.votes) ∧
      countVote cfg (depositEvent s (.depositAttested id guardian)) id (attested s guardian id recipient amount) = .ok t := by
  simp only [attestDeposit,attested,passes,ensureSigned_ok,ensureGuardian_ok,ensureNotPaused_ok]
  refine exists_congr fun guardian => and_congr_right fun _ => and_congr_right fun _ => and_congr_right fun _ =>
    and_congr_right fun _ => ?_
  cases found : s.deposits.lookup id with
  | none => simp
  | some => simp [and_assoc]

theorem attested_pending {guardian : A}
    (opened : ∀ deposit, s.deposits.lookup id = some deposit → deposit.status = .pending ∧ guardian ∉ deposit.votes) :
    (attested s guardian id recipient amount).status = .pending := by
  unfold attested
  cases found : s.deposits.lookup id with
  | none => rfl
  | some deposit => exact (opened deposit found).1

theorem cleanupDeposit_ok : cleanupDeposit s origin id = .ok t ↔
    ∃ caller deposit finalizedAt, origin = .signed caller ∧ caller ∈ s.guardians ∧ s.deposits.lookup id = some deposit ∧
      (deposit.status = .completed ∨ deposit.status = .cancelled) ∧ deposit.finalizedAtBlock = some finalizedAt ∧
      wrappingAdd 64 finalizedAt s.cleanupTTLBlocks ≤ s.blockNumber ∧
      t = depositEvent {s with deposits:=s.deposits.erase id} (.depositCleanedUp id) := by
  simp only [cleanupDeposit,passes,ensureSigned_ok,ensureGuardian_ok]
  constructor
  · rintro ⟨caller,signed,guardian,deposit,found,settled,finalizedAt,block,expired,rfl⟩
    exact ⟨caller,deposit,finalizedAt,signed,guardian,found,settled,block,expired,rfl⟩
  · rintro ⟨caller,deposit,finalizedAt,signed,guardian,found,settled,block,expired,rfl⟩
    exact ⟨caller,signed,guardian,deposit,found,settled,finalizedAt,block,expired,rfl⟩

theorem finalizeStakingRewardTransfer_ok {transfer : StakingRewardTransfer A H}
    (ran : finalizeStakingRewardTransfer cfg s id transfer = .ok t) :
    s.totalMintedByBridge + transfer.amount ≤ s.globalMintCap ∧
      ∃ accounts, cfg.mintInto s.accounts cfg.rewardDestination transfer.amount = some accounts ∧
        t = rewarded s id transfer accounts := by
  simp only [finalizeStakingRewardTransfer,passes,raiseTotalMinted_ok,mintToRecipient_ok,checkedAdd_some] at ran
  obtain ⟨_,⟨_,cap,rfl⟩,_,⟨_,rfl⟩,_,_,⟨_,accounts,minted,rfl⟩,rfl⟩ := ran
  refine ⟨cap,accounts,?_,?_⟩
  · unfold enterEra at minted
    split at minted
    · exact minted
    · exact minted
  · unfold rewarded enterEra
    split
    · rfl
    · rfl

theorem countRewardVote_ok {transfer : StakingRewardTransfer A H} (ran : countRewardVote cfg s id transfer = .ok t) :
    (s.approveThreshold ≤ transfer.votes.card ∧ s.totalMintedByBridge + transfer.amount ≤ s.globalMintCap ∧
      ∃ accounts, cfg.mintInto s.accounts cfg.rewardDestination transfer.amount = some accounts ∧
        t = rewarded s id transfer accounts) ∨
      t = {s with stakingRewardTransfers:=s.stakingRewardTransfers.insert id transfer} := by
  unfold countRewardVote at ran
  split at ran
  · rename_i reached
    exact .inl ⟨reached,finalizeStakingRewardTransfer_ok ran⟩
  · cases ran
    exact .inr rfl

theorem cleanupWithdrawalRequest_ok (ran : cleanupWithdrawalRequest s origin id = .ok t) :
    t = depositEvent {s with withdrawalRequests:=s.withdrawalRequests.erase id} (.withdrawalRequestCleanedUp id) := by
  simp only [cleanupWithdrawalRequest,passes] at ran
  obtain ⟨_,_,_,_,_,_,_,rfl⟩ := ran
  rfl

theorem proposeStakingRewardTransfer_ok (ran : proposeStakingRewardTransfer cfg s origin amount = .ok t) :
    let id := stakingRewardTransferId cfg amount s.nextStakingRewardTransferNonce
    ∃ who, origin = .signed who ∧ who ∈ s.rewardBridgeWhitelist ∧
      countRewardVote cfg
        (depositEvent {s with nextStakingRewardTransferNonce:=saturatingAdd 64 s.nextStakingRewardTransferNonce 1}
          (.stakingRewardTransferAttested id who)) id
        {requestId:=id,amount:=amount,votes:={who},status:=.pending,createdAtBlock:=s.blockNumber,finalizedAtBlock:=none} = .ok t := by
  simp only [proposeStakingRewardTransfer,passes,ensureSigned_ok,ensureWhitelisted_ok] at ran
  obtain ⟨who,signed,listed,_,_,counted⟩ := ran
  exact ⟨who,signed,listed,counted⟩

theorem attestStakingRewardTransfer_ok (ran : attestStakingRewardTransfer cfg s origin id = .ok t) :
    ∃ who transfer, origin = .signed who ∧ who ∈ s.rewardBridgeWhitelist ∧ s.stakingRewardTransfers.lookup id = some transfer ∧
      countRewardVote cfg (depositEvent s (.stakingRewardTransferAttested id who)) id
        {transfer with votes:=insert who transfer.votes} = .ok t := by
  simp only [attestStakingRewardTransfer,passes,ensureSigned_ok,ensureWhitelisted_ok] at ran
  obtain ⟨who,signed,listed,_,transfer,found,_,_,counted⟩ := ran
  exact ⟨who,transfer,signed,listed,found,counted⟩

theorem cleanupStakingRewardTransfer_ok (ran : cleanupStakingRewardTransfer s origin id = .ok t) :
    ∃ transfer finalizedAt, s.stakingRewardTransfers.lookup id = some transfer ∧ transfer.finalizedAtBlock = some finalizedAt ∧
      wrappingAdd 64 finalizedAt s.cleanupTTLBlocks ≤ s.blockNumber ∧
      t = depositEvent {s with stakingRewardTransfers:=s.stakingRewardTransfers.erase id} (.stakingRewardTransferCleanedUp id) := by
  simp only [cleanupStakingRewardTransfer,passes] at ran
  obtain ⟨_,_,_,transfer,found,_,finalizedAt,block,expired,rfl⟩ := ran
  exact ⟨transfer,finalizedAt,found,block,expired,rfl⟩

theorem adminFailWithdrawalRequest_ok (ran : adminFailWithdrawalRequest cfg s origin id = .ok t) :
    ∃ request accounts, s.withdrawalRequests.lookup id = some request ∧ request.status = .requested ∧
      s.totalMintedByBridge + request.amount ≤ s.globalMintCap ∧
      cfg.mintInto s.accounts request.sender request.amount = some accounts ∧
      t = depositEvent (depositEvent {s with
        totalMintedByBridge:=s.totalMintedByBridge + request.amount,accounts:=accounts,
        withdrawalRequests:=s.withdrawalRequests.insert id {request with status:=.failed}}
        (.withdrawalRequestFailed id)) (.adminManualMint request.sender request.amount none) := by
  simp only [adminFailWithdrawalRequest,passes,raiseTotalMinted_ok,mintToRecipient_ok] at ran
  obtain ⟨_,request,found,status,_,⟨_,cap,rfl⟩,_,⟨_,accounts,minted,rfl⟩,rfl⟩ := ran
  exact ⟨request,accounts,found,status,cap,minted,rfl⟩

def rotated (s : State A H B) (guardians : List A) (approveThreshold : Nat) : State A H B :=
  depositEvent {s with guardians:=guardians,approveThreshold:=approveThreshold} (.guardiansUpdated guardians approveThreshold)

theorem setGuardiansAndThreshold_ok : setGuardiansAndThreshold cfg s origin guardians threshold = .ok t ↔
    origin = .root ∧ guardians.length ≤ maxGuardians ∧ 0 < threshold ∧ threshold ≤ guardians.length ∧
      t = (pendingDeposits cfg (rotated s guardians threshold)).foldl (reevaluate cfg guardians threshold)
        (rotated s guardians threshold) := by
  simp only [setGuardiansAndThreshold,passes,ensureRoot_ok]
  refine and_congr_right fun _ => and_congr_right fun few => and_congr_right fun _ => ?_
  have exact : guardians.length % 2 ^ 16 = guardians.length := by
    unfold maxGuardians at few
    omega
  rw [exact]
  exact and_congr_right fun _ => eq_comm

-- One turn of the re-evaluation loop either leaves the state alone or credits its
-- deposit, and then enough of the votes are those of the given guardians.
theorem reevaluate_cases (cfg : Config A H B) (guardians : List A) (threshold : Nat)
    (s : State A H B) (entry : H × Deposit A H) :
    reevaluate cfg guardians threshold s entry = s ∨
      threshold ≤ (entry.2.votes.filter (· ∈ guardians)).card ∧
        ∃ accounts, finalizeDeposit cfg s entry.1 entry.2 = .ok (credited s entry.1 entry.2 accounts) ∧
          reevaluate cfg guardians threshold s entry = credited s entry.1 entry.2 accounts := by
  simp only [reevaluate]
  split
  · rename_i enough
    rcases commit_cases s (finalizeDeposit cfg s entry.1 entry.2) with ⟨_,ran,eq⟩ | ⟨_,_,eq⟩
    · obtain ⟨_,_,accounts,_,rfl⟩ := finalizeDeposit_ok.mp ran
      exact .inr ⟨enough,accounts,ran,eq⟩
    · exact .inl eq
  · exact .inl rfl

structure Configured (s t : State A H B) : Prop where
  log : ∃ log, t.events = s.events ++ log ∧ ∀ e ∈ log, e.configures = true
  capped : s.totalMintedByBridge ≤ s.globalMintCap → t.totalMintedByBridge ≤ t.globalMintCap
  deposits : t.deposits = s.deposits := by rfl
  transfers : t.stakingRewardTransfers = s.stakingRewardTransfers := by rfl
  requests : t.withdrawalRequests = s.withdrawalRequests := by rfl
  guardians : t.guardians = s.guardians := by rfl
  approveThreshold : t.approveThreshold = s.approveThreshold := by rfl
  accounts : t.accounts = s.accounts := by rfl
  total : t.totalMintedByBridge = s.totalMintedByBridge := by rfl
  eraMinted : t.eraMintedAmount = s.eraMintedAmount := by rfl
  lastEra : t.lastTransferEra = s.lastTransferEra := by rfl

theorem dispatch_configured (call : Call A H B) (configures : call.configures = true)
    (ran : dispatch cfg s call = .ok t) : Configured s t := by
  cases call with
  | setGlobalMintCap =>
    simp only [dispatch,setGlobalMintCap,passes] at ran
    obtain ⟨_,above,rfl⟩ := ran
    exact {log:=reports_one _ rfl rfl,capped:=fun _ => above}
  | pause | unpause | setCleanupTTL | setMinWithdrawalAmount | addRewardBridgeWhitelist | removeRewardBridgeWhitelist
  | setMaxMintPerEra =>
    revert ran
    simp only [dispatch,pause,unpause,setCleanupTTL,setMinWithdrawalAmount,addRewardBridgeWhitelist,removeRewardBridgeWhitelist,setMaxMintPerEra,passes,and_imp]
    intros
    subst_vars
    exact {log:=reports_one _ rfl rfl,capped:=fun capped => capped}
  | initializeBlock =>
    cases ran
    split
    · exact {log:=reports_none rfl,capped:=fun capped => capped}
    · exact {log:=reports_none rfl,capped:=fun capped => capped}
  | startEra =>
    cases ran
    exact {log:=reports_none rfl,capped:=fun capped => capped}
  | _ => cases configures

def Call.setsLimits : Call A H B → Bool
  | .setGlobalMintCap .. | .setCleanupTTL .. | .setMaxMintPerEra .. | .initializeBlock _ | .startEra _ => true
  | _ => false

def Call.votesReward : Call A H B → Bool
  | .proposeStakingRewardTransfer .. | .attestStakingRewardTransfer .. => true
  | _ => false

structure SameEra (s t : State A H B) : Prop where
  minted : t.eraMintedAmount = s.eraMintedAmount := by rfl
  last : t.lastTransferEra = s.lastTransferEra := by rfl

theorem countVote_limits (ran : countVote cfg s id deposit = .ok t) : SameLimits s t ∧ SameEra s t := by
  rcases countVote_ok.mp ran with ⟨_,finalized⟩ | ⟨_,rfl⟩
  · obtain ⟨_,_,_,_,rfl⟩ := finalizeDeposit_ok.mp finalized
    exact ⟨{},{}⟩
  · exact ⟨{},{}⟩

theorem countRewardVote_limits {transfer : StakingRewardTransfer A H}
    (ran : countRewardVote cfg s id transfer = .ok t) : SameLimits s t := by
  rcases countRewardVote_ok ran with ⟨_,_,accounts,_,rfl⟩ | rfl
  · exact rewarded_limits s id transfer accounts
  · exact {}

theorem reevaluation_limits (cfg : Config A H B) (guardians : List A) (threshold : Nat)
    (entries : List (H × Deposit A H)) (s : State A H B) :
    SameLimits s (entries.foldl (reevaluate cfg guardians threshold) s) ∧
      SameEra s (entries.foldl (reevaluate cfg guardians threshold) s) := by
  refine foldl_keeps (fun u => SameLimits s u ∧ SameEra s u) ?_ entries ⟨{},{}⟩
  intro u entry kept
  rcases reevaluate_cases cfg guardians threshold u entry with eq | ⟨_,_,_,eq⟩
  · rw [eq]
    exact kept
  · rw [eq]
    obtain ⟨limits,era⟩ := kept
    exact ⟨{limits with},era.minted,era.last⟩

theorem dispatch_limits (call : Call A H B) (other : call.setsLimits = false)
    (ran : dispatch cfg s call = .ok t) : SameLimits s t ∧ (call.votesReward = false → SameEra s t) := by
  cases call with
  | withdraw =>
    obtain ⟨_,_,_,_,_,_,_,_,_,_,_,rfl⟩ := withdraw_ok ran
    exact ⟨{},fun _ => {}⟩
  | attestDeposit =>
    obtain ⟨_,_,_,_,_,_,counted⟩ := attestDeposit_ok.mp ran
    obtain ⟨limits,era⟩ := countVote_limits counted
    exact ⟨{limits with},fun _ => ⟨era.minted,era.last⟩⟩
  | cleanupDeposit =>
    obtain ⟨_,_,_,_,_,_,_,_,_,rfl⟩ := cleanupDeposit_ok.mp ran
    exact ⟨{},fun _ => {}⟩
  | adminCancelDeposit =>
    obtain ⟨_,_,_,_,rfl⟩ := adminCancelDeposit_ok.mp ran
    exact ⟨{},fun _ => {}⟩
  | setGuardiansAndThreshold _ guardians threshold =>
    obtain ⟨_,_,_,_,rfl⟩ := setGuardiansAndThreshold_ok.mp ran
    obtain ⟨limits,era⟩ := reevaluation_limits cfg guardians threshold
      (pendingDeposits cfg (rotated s guardians threshold)) (rotated s guardians threshold)
    exact ⟨{limits with},fun _ => ⟨era.minted,era.last⟩⟩
  | cleanupWithdrawalRequest =>
    cases cleanupWithdrawalRequest_ok ran
    exact ⟨{},fun _ => {}⟩
  | proposeStakingRewardTransfer =>
    obtain ⟨_,_,_,counted⟩ := proposeStakingRewardTransfer_ok ran
    have limits := countRewardVote_limits counted
    exact ⟨{limits with},nofun⟩
  | attestStakingRewardTransfer =>
    obtain ⟨_,_,_,_,_,counted⟩ := attestStakingRewardTransfer_ok ran
    have limits := countRewardVote_limits counted
    exact ⟨{limits with},nofun⟩
  | adminCancelStakingRewardTransfer =>
    obtain ⟨_,_,rfl⟩ := adminCancelStakingRewardTransfer_ok ran
    exact ⟨{},fun _ => {}⟩
  | cleanupStakingRewardTransfer =>
    obtain ⟨_,_,_,_,_,rfl⟩ := cleanupStakingRewardTransfer_ok ran
    exact ⟨{},fun _ => {}⟩
  | pause | unpause | setMinWithdrawalAmount | addRewardBridgeWhitelist | removeRewardBridgeWhitelist =>
    revert ran
    simp only [dispatch,pause,unpause,setMinWithdrawalAmount,addRewardBridgeWhitelist,removeRewardBridgeWhitelist,passes,and_imp]
    intros
    subst_vars
    exact ⟨{},fun _ => {}⟩
  | adminFailWithdrawalRequest =>
    obtain ⟨_,_,_,_,_,_,rfl⟩ := adminFailWithdrawalRequest_ok ran
    exact ⟨{},fun _ => {}⟩
  | adminManualMint =>
    obtain ⟨_,_,_,rfl⟩ := adminManualMint_ok ran
    exact ⟨{},fun _ => {}⟩
  | elsewhere =>
    cases ran
    exact ⟨{},fun _ => {}⟩
  | _ => cases other

open Lifecycle List StorageMap
variable {u : State A H B}

section
omit [DecidableEq A] [DecidableEq H]

def depositAction : Event A H → Option (Action H)
  | .depositAttested id _ => some (.vote id)
  | .depositCompleted id _ _ => some (.finish id)
  | .depositCancelled id _ => some (.cancel id)
  | .depositCleanedUp id => some (.forget id)
  | _ => none

def statusPhase : DepositStatus → Phase
  | .pending => .pending
  | .completed => .done
  | .cancelled => .cancelled

def depositPhase (s : State A H B) : H → Phase :=
  recordPhase (fun deposit => statusPhase deposit.status) s.deposits

def depositView : View (State A H B) (Event A H) H :=
  ⟨State.events,depositPhase,depositAction⟩

structure Untouched (s t : State A H B) : Prop where
  deposits : t.deposits = s.deposits
  guardians : t.guardians = s.guardians
  approveThreshold : t.approveThreshold = s.approveThreshold
  log : ∃ new, t.events = s.events ++ new ∧ new.filterMap depositAction = []

theorem untouched_trans (first : Untouched s t) (second : Untouched t u) : Untouched s u := by
  obtain ⟨one,logOne,quietOne⟩ := first.log
  obtain ⟨two,logTwo,quietTwo⟩ := second.log
  refine ⟨second.deposits.trans first.deposits,second.guardians.trans first.guardians,
    second.approveThreshold.trans first.approveThreshold,one ++ two,?_,?_⟩
  · rw [logTwo,logOne,append_assoc]
  · rw [filterMap_append,quietOne,quietTwo]
    rfl

theorem raiseTotalMinted_untouched (ran : raiseTotalMinted s amount = .ok t) : Untouched s t := by
  obtain ⟨_,_,rfl⟩ := raiseTotalMinted_ok.mp ran
  exact ⟨rfl,rfl,rfl,[],by simp,rfl⟩

theorem enterEra_untouched (s : State A H B) : Untouched s (enterEra s) := by
  unfold enterEra
  split
  · exact ⟨rfl,rfl,rfl,[],by simp,rfl⟩
  · exact ⟨rfl,rfl,rfl,[],by simp,rfl⟩

def Call.TouchesDeposits : Call A H B → Prop
  | .attestDeposit .. | .cleanupDeposit .. | .setGuardiansAndThreshold .. | .adminCancelDeposit .. => True
  | _ => False

theorem configured_untouched (configured : Configured s t) : Untouched s t := by
  obtain ⟨log,events,reports⟩ := configured.log
  refine ⟨configured.deposits,configured.guardians,configured.approveThreshold,log,events,?_⟩
  refine filterMap_eq_nil_iff.mpr fun e mem => ?_
  have shown := reports e mem
  cases e <;> first | rfl | cases shown

end

section
omit [DecidableEq H]

theorem mintToRecipient_untouched (ran : mintToRecipient cfg s recipient amount = .ok t) : Untouched s t := by
  obtain ⟨_,_,_,rfl⟩ := mintToRecipient_ok.mp ran
  exact ⟨rfl,rfl,rfl,[],by simp,rfl⟩

end

theorem finalizeStakingRewardTransfer_untouched
    (ran : finalizeStakingRewardTransfer cfg s id transfer = .ok t) : Untouched s t := by
  simp only [finalizeStakingRewardTransfer,passes] at ran
  obtain ⟨raised,hr,_,_,_,minted,hm,rfl⟩ := ran
  have era := untouched_trans (raiseTotalMinted_untouched hr) (enterEra_untouched raised)
  have mint := mintToRecipient_untouched hm
  have paid : Untouched s minted := untouched_trans era {mint with}
  exact untouched_trans paid ⟨rfl,rfl,rfl,[_],rfl,rfl⟩

theorem countRewardVote_untouched (ran : countRewardVote cfg s id transfer = .ok t) : Untouched s t := by
  unfold countRewardVote at ran
  split at ran
  · exact finalizeStakingRewardTransfer_untouched ran
  · cases ran
    exact ⟨rfl,rfl,rfl,[],by simp,rfl⟩

theorem dispatch_untouched (call : Call A H B) (outside : ¬ call.TouchesDeposits)
    (ran : dispatch cfg s call = .ok t) : Untouched s t := by
  cases call with
  | attestDeposit | cleanupDeposit | setGuardiansAndThreshold | adminCancelDeposit => exact absurd trivial outside
  | withdraw =>
    obtain ⟨_,_,_,_,_,_,_,_,_,_,_,rfl⟩ := withdraw_ok ran
    exact ⟨rfl,rfl,rfl,[_],rfl,rfl⟩
  | cleanupWithdrawalRequest =>
    cases cleanupWithdrawalRequest_ok ran
    exact ⟨rfl,rfl,rfl,[_],rfl,rfl⟩
  | proposeStakingRewardTransfer =>
    obtain ⟨_,_,_,counted⟩ := proposeStakingRewardTransfer_ok ran
    refine untouched_trans ?_ (countRewardVote_untouched counted)
    exact ⟨rfl,rfl,rfl,[_],rfl,rfl⟩
  | attestStakingRewardTransfer =>
    obtain ⟨_,_,_,_,_,counted⟩ := attestStakingRewardTransfer_ok ran
    refine untouched_trans ?_ (countRewardVote_untouched counted)
    exact ⟨rfl,rfl,rfl,[_],rfl,rfl⟩
  | adminCancelStakingRewardTransfer =>
    obtain ⟨_,_,rfl⟩ := adminCancelStakingRewardTransfer_ok ran
    exact ⟨rfl,rfl,rfl,[_],rfl,rfl⟩
  | cleanupStakingRewardTransfer =>
    obtain ⟨_,_,_,_,_,rfl⟩ := cleanupStakingRewardTransfer_ok ran
    exact ⟨rfl,rfl,rfl,[_],rfl,rfl⟩
  | adminFailWithdrawalRequest =>
    obtain ⟨_,_,_,_,_,_,rfl⟩ := adminFailWithdrawalRequest_ok ran
    exact ⟨rfl,rfl,rfl,[_,_],append_assoc _ _ _,rfl⟩
  | adminManualMint =>
    obtain ⟨_,_,_,rfl⟩ := adminManualMint_ok ran
    exact ⟨rfl,rfl,rfl,[_],rfl,rfl⟩
  | elsewhere =>
    cases ran
    exact ⟨rfl,rfl,rfl,[],by simp,rfl⟩
  | _ => exact configured_untouched (dispatch_configured _ rfl ran)

section
omit [DecidableEq A]

theorem depositPhase_insert (stored : t.deposits = s.deposits.insert id deposit) (shown : statusPhase deposit.status = phase) :
    depositPhase t = Function.update (depositPhase s) id phase := by
  rw [depositPhase,stored]
  exact recordPhase_insert _ _ shown

theorem depositPhase_found (found : s.deposits.lookup id = some deposit) : depositPhase s id = statusPhase deposit.status := by
  simp [depositPhase,recordPhase,found]

theorem untouched_emits (untouched : Untouched s t) : Emits depositView s [] t := by
  obtain ⟨new,log,quiet⟩ := untouched.log
  refine emits_still depositView new log quiet ?_
  simp [depositView,depositPhase,untouched.deposits]

theorem emits_event (e : Event A H) (log : t.events = s.events ++ [e])
    (shown : depositAction e = some action) (allowed : Allowed (depositPhase s) action)
    (phase : depositPhase t = apply (depositPhase s) action) : Emits depositView s [action] t :=
  emits_one depositView e log shown allowed phase

theorem adminCancelDeposit_emits (ran : adminCancelDeposit s origin id reason = .ok t) :
    Emits depositView s [.cancel id] t := by
  obtain ⟨_,_,found,pending,eq⟩ := adminCancelDeposit_ok.mp ran
  have allowed : Allowed (depositPhase s) (.cancel id) := (depositPhase_found found).trans (congrArg statusPhase pending)
  have phase : depositPhase t = apply (depositPhase s) (.cancel id) := by
    rw [eq]
    exact depositPhase_insert rfl rfl
  exact emits_event _ (by rw [eq]; rfl) rfl allowed phase

end

theorem finalizeDeposit_emits (pending : depositPhase s id = .pending)
    (ran : finalizeDeposit cfg s id deposit = .ok t) : Emits depositView s [.finish id] t := by
  obtain ⟨_,_,accounts,_,rfl⟩ := finalizeDeposit_ok.mp ran
  have phase : depositPhase (credited s id deposit accounts) = apply (depositPhase s) (.finish id) :=
    depositPhase_insert rfl rfl
  exact emits_event _ rfl rfl pending phase

-- A vote that reaches the threshold settles the record in the same extrinsic, so
-- the pending record between the two actions is never stored.
theorem attestDeposit_emits (ran : attestDeposit cfg s origin id recipient amount nonce = .ok t) :
    Emits depositView s [.vote id] t ∨ Emits depositView s [.vote id,.finish id] t := by
  obtain ⟨guardian,_,_,_,_,opened,counted⟩ := attestDeposit_ok.mp ran
  have allowed : Allowed (depositPhase s) (.vote id) := by
    cases found : s.deposits.lookup id with
    | none => exact .inl (by simp [depositPhase,recordPhase,found])
    | some deposit => exact .inr ((depositPhase_found found).trans (congrArg statusPhase (opened deposit found).1))
  have pending : (attested s guardian id recipient amount).status = .pending := attested_pending opened
  let voted := {depositEvent s (.depositAttested id guardian) with
    deposits:=s.deposits.insert id (attested s guardian id recipient amount)}
  have vote : Emits depositView s [.vote id] voted := by
    have phase : depositPhase voted = apply (depositPhase s) (.vote id) :=
      depositPhase_insert rfl (congrArg statusPhase pending)
    exact emits_event _ rfl rfl allowed phase
  rcases countVote_ok.mp counted with ⟨_,finalized⟩ | ⟨_,stored⟩
  · right
    obtain ⟨_,_,accounts,_,rfl⟩ := finalizeDeposit_ok.mp finalized
    have unsettled : Allowed (depositPhase voted) (.finish id) :=
      (depositPhase_found (AList.lookup_insert _)).trans (congrArg statusPhase pending)
    have phase : depositPhase (credited (depositEvent s (.depositAttested id guardian)) id
        (attested s guardian id recipient amount) accounts) = apply (depositPhase voted) (.finish id) :=
      depositPhase_insert (by simp [voted]; rfl) rfl
    exact emits_trans vote (emits_event _ rfl rfl unsettled phase)
  · left
    rw [stored]
    exact vote

theorem cleanupDeposit_emits (ran : cleanupDeposit s origin id = .ok t) : Emits depositView s [.forget id] t := by
  obtain ⟨_,_,_,_,_,found,settled,_,_,rfl⟩ := cleanupDeposit_ok.mp ran
  have allowed : Allowed (depositPhase s) (.forget id) := by
    rcases settled with completed | cancelled
    · exact .inl ((depositPhase_found found).trans (congrArg statusPhase completed))
    · exact .inr ((depositPhase_found found).trans (congrArg statusPhase cancelled))
  have phase : depositPhase (depositEvent {s with deposits:=s.deposits.erase id} (.depositCleanedUp id)) =
      apply (depositPhase s) (.forget id) := recordPhase_erase _ _
  exact emits_event _ rfl rfl allowed phase

theorem reevaluate_emits (cfg : Config A H B) (guardians : List A) (threshold : Nat)
    (entry : H × Deposit A H) (pending : depositPhase s entry.1 = .pending) :
    (∃ acts, Emits depositView s acts (reevaluate cfg guardians threshold s entry) ∧ ∀ k, .vote k ∉ acts) ∧
      ∀ other, other ≠ entry.1 → depositPhase (reevaluate cfg guardians threshold s entry) other = depositPhase s other := by
  rcases reevaluate_cases cfg guardians threshold s entry with eq | ⟨_,_,ran,eq⟩
  · rw [eq]
    exact ⟨⟨_,emits_still depositView [] (by simp) rfl rfl,by simp⟩,fun _ _ => rfl⟩
  · rw [eq]
    refine ⟨⟨_,finalizeDeposit_emits pending ran,by simp⟩,?_⟩
    intro other different
    simp [depositPhase,recordPhase,credited,depositEvent,different]

-- The loop runs over distinct records that are pending when it starts, so each of
-- them is still pending when its turn comes.
theorem reevaluation_emits (cfg : Config A H B) (guardians : List A) (threshold : Nat)
    (entries : List (H × Deposit A H)) (distinct : (entries.map Prod.fst).Nodup)
    (pending : ∀ entry ∈ entries, depositPhase s entry.1 = .pending) :
    ∃ acts, Emits depositView s acts (entries.foldl (reevaluate cfg guardians threshold) s) ∧ ∀ k, .vote k ∉ acts := by
  induction entries generalizing s with
  | nil => exact ⟨_,emits_still depositView [] (by simp) rfl rfl,by simp⟩
  | cons entry _ ih =>
    obtain ⟨fresh,distinct⟩ := nodup_cons.mp distinct
    obtain ⟨⟨first,emitted,silent⟩,others⟩ :=
      reevaluate_emits cfg guardians threshold entry (pending entry (by simp))
    obtain ⟨rest,emittedRest,silentRest⟩ := ih distinct (s := reevaluate cfg guardians threshold s entry) (by
      intro later mem
      have different : later.1 ≠ entry.1 := fun same => fresh (same ▸ mem_map_of_mem mem)
      rw [others later.1 different]
      exact pending later (by simp [mem]))
    refine ⟨first ++ rest,emits_trans emitted emittedRest,?_⟩
    intro k voted
    rcases mem_append.mp voted with early | late
    · exact silent k early
    · exact silentRest k late

theorem setGuardiansAndThreshold_emits (ran : setGuardiansAndThreshold cfg s origin guardians threshold = .ok t) :
    ∃ acts, Emits depositView s acts t ∧ ∀ k, .vote k ∉ acts := by
  obtain ⟨_,_,_,_,eq⟩ := setGuardiansAndThreshold_ok.mp ran
  have started : Emits depositView s [] (rotated s guardians threshold) := emits_still depositView [_] rfl rfl rfl
  have distinct : ((pendingDeposits cfg (rotated s guardians threshold)).map Prod.fst).Nodup :=
    (filter_sublist.map Prod.fst).nodup (iter_keys_nodup _ _)
  have pending : ∀ entry ∈ pendingDeposits cfg (rotated s guardians threshold),
      depositPhase (rotated s guardians threshold) entry.1 = .pending := by
    intro entry mem
    obtain ⟨stored,status⟩ := mem_filter.mp mem
    have found := (mem_iter _ _).mp stored
    simp only [decide_eq_true_eq] at status
    exact (depositPhase_found found).trans (congrArg statusPhase status)
  obtain ⟨_,emitted,silent⟩ := reevaluation_emits cfg guardians threshold _ distinct pending
  rw [eq]
  exact ⟨_,emits_trans started emitted,by simpa using silent⟩

def Call.attestedDeposit : Call A H B → Option H
  | .attestDeposit _ requestId _ _ _ => some requestId
  | _ => none

theorem step_follows (s : State A H B) (call : Call A H B) :
    Follows depositView (fun id => call.attestedDeposit = some id) s (step cfg s call) := by
  refine commit_inv _ (follows_refl depositView s) ?_
  intro t ran
  by_cases touches : call.TouchesDeposits
  · cases call with
    | attestDeposit =>
      rcases attestDeposit_emits ran with voted | settled
      · exact ⟨_,voted,by simp [Call.attestedDeposit,eq_comm]⟩
      · exact ⟨_,settled,by simp [Call.attestedDeposit]⟩
    | cleanupDeposit => exact follows_quiet (cleanupDeposit_emits ran) (by simp)
    | adminCancelDeposit => exact follows_quiet (adminCancelDeposit_emits ran) (by simp)
    | setGuardiansAndThreshold =>
      obtain ⟨_,emitted,silent⟩ := setGuardiansAndThreshold_emits ran
      exact follows_quiet emitted silent
    | _ => cases touches
  · exact follows_quiet (untouched_emits (dispatch_untouched call touches ran)) (by simp)

section
omit [DecidableEq A]

def completes (id : H) : Event A H → Bool
  | .depositCompleted other _ _ => other = id
  | _ => false

def cancels (id : H) : Event A H → Bool
  | .depositCancelled other _ => other = id
  | _ => false

def AttestsFresh (s : State A H B) (call : Call A H B) : Prop :=
  ∀ id ∈ call.attestedDeposit, .depositCleanedUp id ∉ s.events

instance (s : State A H B) (call : Call A H B) : Decidable (AttestsFresh s call) :=
  inferInstanceAs (Decidable (∀ id ∈ call.attestedDeposit, Event.depositCleanedUp id ∉ s.events))

theorem depositAction_finish {e : Event A H} : depositAction e = some (.finish id) ↔ completes id e = true := by
  cases e <;> simp [depositAction,completes]

theorem depositAction_cancel {e : Event A H} : depositAction e = some (.cancel id) ↔ cancels id e = true := by
  cases e <;> simp [depositAction,cancels]

theorem forgotten_iff : .forget id ∈ depositView.history s ↔ .depositCleanedUp id ∈ s.events := by
  rw [View.history,mem_filterMap]
  constructor
  · intro forgotten
    obtain ⟨e,mem,shown⟩ := forgotten
    cases e <;> simp [depositView,depositAction] at shown
    exact shown ▸ mem
  · intro mem
    exact ⟨_,mem,rfl⟩

end

-- As long as no guardian attests a deposit again after its record was cleaned up,
-- a deposit is credited at most once and never after it was cancelled. The record
-- itself does not enforce that condition: see the run below.
theorem deposit_credited_once (cfg : Config A H B) (start : State A H B)
    (empty : start.deposits = ∅) (silent : start.events = []) (calls : List (Call A H B))
    (fresh : Throughout (step cfg) AttestsFresh start calls) (id : H) :
    (run (step cfg) start calls).events.countP (completes id) ≤ 1 ∧
      (run (step cfg) start calls).events.Pairwise fun earlier later => cancels id earlier = true → completes id later = false := by
  have guarded : Throughout (step cfg)
      (fun s call => ∀ k, call.attestedDeposit = some k → .forget k ∉ depositView.history s) start calls := by
    refine throughout_of_invariant (fun _ => True) (fun _ _ _ _ => trivial) ?_ trivial fresh
    intro s call _ unforgotten k attests forgotten
    exact unforgotten k attests (forgotten_iff.mp forgotten)
  have absent : depositView.phase start = fun _ => .absent := by
    funext id
    simp [depositView,depositPhase,recordPhase,empty]
  have settled := run_settled depositView (step cfg) (fun call k => call.attestedDeposit = some k) step_follows start silent absent guarded id
  refine ⟨?_,settled.kept.imp ?_⟩
  · have once := settled.once
    simpa only [depositView,depositAction_finish,Bool.decide_eq_true] using once
  · intro earlier later kept cancelled
    rw [← Bool.not_eq_true]
    exact fun completed => kept (depositAction_cancel.mpr cancelled) (depositAction_finish.mpr completed)

def plainLedger : Ledger Nat (Nat × (Nat → Nat)) where
  issuance := Prod.fst
  free := Prod.snd
  mintInto accounts who amount := some (accounts.1 + amount,fun other => accounts.2 other + if other = who then amount else 0)
  burnFrom accounts who amount :=
    if amount ≤ accounts.2 who ∧ amount ≤ accounts.1 then
      some (accounts.1 - amount,fun other => accounts.2 other - if other = who then amount else 0)
    else none
  mint_exact := by
    intro accounts who amount next minted
    cases minted
    exact ⟨rfl,fun _ => rfl⟩
  burn_exact := by
    intro accounts who amount next burned
    split at burned
    · cases burned
      refine ⟨by omega,?_⟩
      intro other
      by_cases equal : other = who
      · subst equal
        simp
        omega
      · simp [equal]
    · cases burned

def plainConfig : Config Nat (List UInt8) (Nat × (Nat → Nat)) :=
  {plainLedger with blake2256:=fun bytes => bytes,encode:=leBytes 32,rewardDestination:=0,depositRank:=fun _ => 0}

-- A single guardian 1 with threshold 1 attests a deposit of 5 for account 7 with
-- nonce 0, and attests it again after the record expired and was cleaned up.
def reattested : List (Call Nat (List UInt8) (Nat × (Nat → Nat))) :=
  let id := depositRequestId plainConfig 7 5 0
  [.setGuardiansAndThreshold .root [1] 1,.setGlobalMintCap .root 1000,.attestDeposit (.signed 1) id 7 5 0,
    .initializeBlock 100801,.cleanupDeposit (.signed 1) id,.attestDeposit (.signed 1) id 7 5 0]

theorem deposit_credited_twice :
    (run (step plainConfig) (genesis (0,fun _ => 0)) reattested).events.countP
      (completes (depositRequestId plainConfig 7 5 0)) = 2 := by
  decide +kernel

theorem deposit_credited_once_before_cleanup :
    Throughout (step plainConfig) AttestsFresh (genesis (0,fun _ => 0)) (reattested.take 5) ∧
      (run (step plainConfig) (genesis (0,fun _ => 0)) (reattested.take 5)).events.countP
        (completes (depositRequestId plainConfig 7 5 0)) ≤ 1 :=
  have fresh : Throughout (step plainConfig) AttestsFresh (genesis (0,fun _ => 0)) (reattested.take 5) := by decide +kernel
  ⟨fresh,(deposit_credited_once plainConfig (genesis (0,fun _ => 0)) rfl rfl (reattested.take 5) fresh _).1⟩

end TheBrain.Bridge.Pallet
