import TheBrain.Bridge.PalletRuns

namespace TheBrain.Bridge.Pallet
open Library Machine Words

variable {A H B : Type}
variable {s t : State A H B} {id : H}

theorem enterEra_last (s : State A H B) : (enterEra s).lastTransferEra = s.activeEraIndex := by
  unfold enterEra
  split
  · rfl
  · rename_i same
    exact not_not.mp same

theorem enterEra_minted (s : State A H B) :
    (enterEra s).eraMintedAmount = if s.lastTransferEra = s.activeEraIndex then s.eraMintedAmount else 0 := by
  unfold enterEra
  by_cases same : s.lastTransferEra = s.activeEraIndex
  · simp [same]
  · simp [same]

-- What a step does to the counter of the era: nothing, or it adds what was minted to the
-- counter of the active era, which starts over when the last transfer was in another era.
inductive EraStep (s : State A H B) (amount : Nat) (t : State A H B) : Prop where
  | idle (nothing : amount = 0) (same : SameEra s t)
  | minted (last : t.lastTransferEra = s.activeEraIndex)
      (counted : t.eraMintedAmount = (if s.lastTransferEra = s.activeEraIndex then s.eraMintedAmount else 0) + amount)
      (bounded : t.eraMintedAmount ≤ s.maxMintPerEra)

-- The two votes count in a state that differs from the one of the call in the log and
-- the nonce only.
theorem EraStep.of_vote {base : State A H B} (moved : EraStep base amount t)
    (era : SameEra s base) (limits : SameLimits s base) : EraStep s amount t := by
  cases moved with
  | idle nothing same => exact .idle nothing ⟨same.minted.trans era.minted,same.last.trans era.last⟩
  | minted last counted bounded =>
    rw [limits.era] at last
    rw [era.last,limits.era,era.minted] at counted
    rw [limits.perEra] at bounded
    exact .minted last counted bounded

variable [DecidableEq A] [DecidableEq H] {cfg : Config A H B}

def rewardMinted (cfg : Config A H B) (s : State A H B) (call : Call A H B) : Nat :=
  if call.votesReward then cfg.issuance (step cfg s call).accounts - cfg.issuance s.accounts else 0

def minting (cfg : Config A H B) : State A H B × List (Nat × Nat) → Call A H B → State A H B × List (Nat × Nat) :=
  recording (step cfg) fun s call => [(s.activeEraIndex,rewardMinted cfg s call)]

def mintedDuring (log : List (Nat × Nat)) (era : Nat) : Nat := ((log.filter fun entry => entry.1 = era).map Prod.snd).sum

theorem mintedDuring_append (log : List (Nat × Nat)) (active amount era : Nat) :
    mintedDuring (log ++ [(active,amount)]) era = mintedDuring log era + if active = era then amount else 0 := by
  by_cases same : active = era
  · simp [mintedDuring,same]
  · simp [mintedDuring,same]

def Steady (cfg : Config A H B) (s : State A H B) (call : Call A H B) : Prop :=
  (step cfg s call).maxMintPerEra = s.maxMintPerEra ∧ s.activeEraIndex ≤ (step cfg s call).activeEraIndex

instance (cfg : Config A H B) (s : State A H B) (call : Call A H B) :
    Decidable (Steady cfg s call) :=
  inferInstanceAs (Decidable (_ ∧ _))

theorem finalizeStakingRewardTransfer_bounded {transfer : StakingRewardTransfer A H}
    (ran : finalizeStakingRewardTransfer cfg s id transfer = .ok t) :
    (enterEra s).eraMintedAmount + transfer.amount ≤ s.maxMintPerEra := by
  simp only [finalizeStakingRewardTransfer,passes,raiseTotalMinted_ok,checkedAdd_some] at ran
  obtain ⟨_,⟨_,_,rfl⟩,_,⟨_,rfl⟩,bounded,_⟩ := ran
  have limits := (enterEra_limits {s with totalMintedByBridge:=s.totalMintedByBridge + transfer.amount}).perEra
  rw [limits,enterEra_minted] at bounded
  rw [enterEra_minted]
  exact bounded

theorem countRewardVote_era {transfer : StakingRewardTransfer A H} (counted : countRewardVote cfg s id transfer = .ok t) :
    EraStep s (cfg.issuance t.accounts - cfg.issuance s.accounts) t := by
  unfold countRewardVote at counted
  split at counted
  · have bounded := finalizeStakingRewardTransfer_bounded counted
    obtain ⟨_,accounts,minted,rfl⟩ := finalizeStakingRewardTransfer_ok counted
    have grown : cfg.issuance accounts - cfg.issuance s.accounts = transfer.amount := by
      rw [(cfg.mint_exact _ _ _ _ minted).1,Nat.add_sub_cancel_left]
    refine .minted (enterEra_last s) ?_ bounded
    show (enterEra s).eraMintedAmount + transfer.amount = _
    rw [enterEra_minted]
    exact congrArg _ grown.symm
  · cases counted
    exact .idle (Nat.sub_self _) {}

theorem step_era (cfg : Config A H B) (s : State A H B) (call : Call A H B) :
    EraStep s (rewardMinted cfg s call) (step cfg s call) := by
  unfold rewardMinted
  rw [step]
  rcases commit_cases s (dispatch cfg s call) with ⟨t,ran,eq⟩ | ⟨_,_,eq⟩
  · rw [eq]
    by_cases votes : call.votesReward = true
    · cases call with
      | proposeStakingRewardTransfer =>
        obtain ⟨_,_,_,counted⟩ := proposeStakingRewardTransfer_ok ran
        exact (countRewardVote_era counted).of_vote {} {}
      | attestStakingRewardTransfer =>
        obtain ⟨_,_,_,_,_,counted⟩ := attestStakingRewardTransfer_ok ran
        exact (countRewardVote_era counted).of_vote {} {}
      | _ => cases votes
    · rw [if_neg votes]
      have quiet := Bool.not_eq_true _ ▸ votes
      by_cases sets : call.setsLimits = true
      · have configured : Configured s t := by
          refine dispatch_configured call ?_ ran
          cases call <;> first | rfl | cases sets
        exact .idle rfl ⟨configured.eraMinted,configured.lastEra⟩
      · exact .idle rfl ((dispatch_limits call (Bool.not_eq_true _ ▸ sets) ran).2 quiet)
  · rw [eq]
    refine .idle ?_ {}
    split
    · exact Nat.sub_self _
    · rfl

-- The invariant of the lazily reset counter: it is the total of the era of the last
-- transfer, later eras have no total yet, and every total is within the limit.
structure EraLedger (p : State A H B × List (Nat × Nat)) : Prop where
  entered : p.1.lastTransferEra ≤ p.1.activeEraIndex
  counter : p.1.eraMintedAmount = mintedDuring p.2 p.1.lastTransferEra
  ahead : ∀ era, p.1.lastTransferEra < era → mintedDuring p.2 era = 0
  bounded : ∀ era, mintedDuring p.2 era ≤ p.1.maxMintPerEra

theorem EraLedger.step {p : State A H B × List (Nat × Nat)} (ledger : EraLedger p)
    (call : Call A H B) (steady : Steady cfg p.1 call) : EraLedger (minting cfg p call) := by
  obtain ⟨s,log⟩ := p
  obtain ⟨entered,counter,ahead,bounded⟩ := ledger
  obtain ⟨limit,later⟩ := steady
  show EraLedger (Pallet.step cfg s call,log ++ [(s.activeEraIndex,rewardMinted cfg s call)])
  have moved := step_era cfg s call
  generalize rewardMinted cfg s call = amount at moved
  generalize Pallet.step cfg s call = t at moved limit later
  cases moved with
  | idle nothing same =>
    have total (era : Nat) : mintedDuring (log ++ [(s.activeEraIndex,amount)]) era = mintedDuring log era := by
      rw [mintedDuring_append,nothing,ite_self,Nat.add_zero]
    refine ⟨?_,?_,?_,?_⟩
    · exact same.last ▸ Nat.le_trans entered later
    · rw [total,same.minted,same.last]
      exact counter
    · intro era after
      rw [total]
      exact ahead era (same.last ▸ after)
    · intro era
      rw [total,limit]
      exact bounded era
  | minted last counted within =>
    have carried : (if s.lastTransferEra = s.activeEraIndex then s.eraMintedAmount else 0) = mintedDuring log s.activeEraIndex := by
      split
      · rename_i same
        rw [← same]
        exact counter
      · rename_i different
        exact (ahead _ (Nat.lt_of_le_of_ne entered different)).symm
    have total : t.eraMintedAmount = mintedDuring (log ++ [(s.activeEraIndex,amount)]) s.activeEraIndex := by
      rw [mintedDuring_append,if_pos rfl,counted,carried]
    have others (era : Nat) (different : s.activeEraIndex ≠ era) :
        mintedDuring (log ++ [(s.activeEraIndex,amount)]) era = mintedDuring log era := by
      rw [mintedDuring_append,if_neg different,Nat.add_zero]
    refine ⟨?_,?_,?_,?_⟩
    · exact last ▸ later
    · rw [last,total]
    · intro era after
      have beyond : s.activeEraIndex < era := last ▸ after
      rw [others era (Nat.ne_of_lt beyond)]
      exact ahead era (Nat.lt_of_le_of_lt entered beyond)
    · intro era
      show mintedDuring _ era ≤ t.maxMintPerEra
      rw [limit]
      by_cases same : s.activeEraIndex = era
      · rw [← same,← total]
        exact within
      · rw [others era same]
        exact bounded era

theorem reward_minting_bounded (cfg : Config A H B) (start : State A H B)
    (unminted : start.eraMintedAmount = 0) (entered : start.lastTransferEra ≤ start.activeEraIndex)
    (calls : List (Call A H B)) (steady : Throughout (step cfg) (Steady cfg) start calls) :
    let final := run (minting cfg) (start,[]) calls
    (∀ era, mintedDuring final.2 era ≤ start.maxMintPerEra) ∧
      final.1.eraMintedAmount = mintedDuring final.2 final.1.lastTransferEra := by
  intro final
  have ledger : EraLedger final ∧ final.1.maxMintPerEra = start.maxMintPerEra := by
    refine run_invariant (fun p => EraLedger p ∧ p.1.maxMintPerEra = start.maxMintPerEra) ?_ ?_
      (throughout_recording _ (start,[]) steady)
    · intro p call inv fixed
      exact ⟨inv.1.step call fixed,fixed.1.trans inv.2⟩
    · exact ⟨⟨entered,unminted,fun _ _ => rfl,fun _ => Nat.zero_le _⟩,rfl⟩
  exact ⟨fun era => ledger.2 ▸ ledger.1.bounded era,ledger.1.counter⟩

def twoEras : List (Call Nat (List UInt8) (Nat × (Nat → Nat))) :=
  [.setGuardiansAndThreshold .root [1] 1,.setGlobalMintCap .root 5000000000000000,.addRewardBridgeWhitelist .root 1,
    .proposeStakingRewardTransfer (.signed 1) 1000000000000000,.proposeStakingRewardTransfer (.signed 1) 1,
    .startEra 2,.proposeStakingRewardTransfer (.signed 1) 7]

theorem reward_minting_bounded_eras :
    let final := run (minting plainConfig) (genesis (0,fun _ => 0),[]) twoEras
    mintedDuring final.2 0 = 1000000000000000 ∧ (∀ era, mintedDuring final.2 era ≤ 1000000000000000) ∧
      final.1.eraMintedAmount = mintedDuring final.2 final.1.lastTransferEra :=
  ⟨by decide +kernel,reward_minting_bounded plainConfig (genesis (0,fun _ => 0)) rfl (Nat.le_refl 0) twoEras (by decide +kernel)⟩

open List StorageMap
variable {u : State A H B} {other : H}

def emitted (cfg : Config A H B) (s : State A H B) (call : Call A H B) :
    List (Event A H) := (step cfg s call).events.drop s.events.length

def rewardVote (id : H) : Event A H → Option A
  | .stakingRewardTransferAttested other voter => if other = id then some voter else none
  | _ => none

def approvers (cfg : Config A H B) : State A H B → List (Call A H B) → H →
    Finset A
  | _, [], _ => ∅
  | s, call :: calls, id =>
    (((emitted cfg s call).filterMap (rewardVote id)).toFinset.filter
      fun voter => voter ∈ s.guardians ∧ voter ∈ s.rewardBridgeWhitelist) ∪ approvers cfg (step cfg s call) calls id

def Call.rewardVoter : Call A H B → Option A
  | .proposeStakingRewardTransfer (.signed who) _ => some who
  | .attestStakingRewardTransfer (.signed who) _ => some who
  | _ => none

-- What the documentation of the two extrinsics promises, and ensure_whitelisted alone
-- does not give: whoever votes is a guardian.
def VotesAsGuardian (s : State A H B) (call : Call A H B) : Prop :=
  ∀ who ∈ call.rewardVoter, who ∈ s.guardians

instance (s : State A H B) (call : Call A H B) : Decidable (VotesAsGuardian s call) :=
  inferInstanceAs (Decidable (∀ who ∈ call.rewardVoter, who ∈ s.guardians))

theorem approvers_append (cfg : Config A H B) (s : State A H B)
    (before after : List (Call A H B)) (id : H) :
    approvers cfg s (before ++ after) id = approvers cfg s before id ∪ approvers cfg (run (step cfg) s before) after id := by
  induction before generalizing s with
  | nil => simp [approvers]
  | cons _ _ ih => simp only [cons_append,approvers,run_cons,ih,Finset.union_assoc]

section
omit [DecidableEq A]

def votesOf (s : State A H B) (id : H) : Finset A :=
  match s.stakingRewardTransfers.lookup id with
  | some transfer => transfer.votes
  | none => ∅

-- What an accepted call does to votes: recorded ones come from its voter, who is
-- whitelisted, and what completes has as many votes as the threshold asks.
structure Voted (s : State A H B) (voter : Option A) (log : List (Event A H))
    (t : State A H B) : Prop where
  events : t.events = s.events ++ log
  votes : ∀ id, votesOf t id ⊆ votesOf s id ∪ (log.filterMap (rewardVote id)).toFinset
  voters : ∀ id, ∀ who ∈ log.filterMap (rewardVote id), voter = some who ∧ who ∈ s.rewardBridgeWhitelist
  completed : ∀ id amount, .stakingRewardTransferCompleted id amount ∈ log → s.approveThreshold ≤ (votesOf t id).card

def Event.aboutReward : Event A H → Bool
  | .stakingRewardTransferAttested .. | .stakingRewardTransferCompleted .. => true
  | _ => false

structure Voteless (s t : State A H B) : Prop where
  votes : ∀ id, votesOf t id ⊆ votesOf s id
  log : ∃ log, t.events = s.events ++ log ∧ ∀ e ∈ log, e.aboutReward = false

theorem votesOf_congr (same : t.stakingRewardTransfers = s.stakingRewardTransfers) (id : H) : votesOf t id = votesOf s id := by
  rw [votesOf,votesOf,same]

theorem votesOf_insert {transfer : StakingRewardTransfer A H}
    (stored : t.stakingRewardTransfers = s.stakingRewardTransfers.insert id transfer) (other : H) :
    votesOf t other = if other = id then transfer.votes else votesOf s other := by
  rw [votesOf,stored,lookup_insert_if]
  by_cases same : other = id
  · simp only [if_pos same]
  · simp only [if_neg same]
    rfl

theorem voteless_note {e : Event A H} (same : t.stakingRewardTransfers = s.stakingRewardTransfers)
    (events : t.events = s.events ++ [e]) (quiet : e.aboutReward = false) : Voteless s t := by
  refine ⟨fun id => (votesOf_congr same id).le,[e],events,?_⟩
  intro other mem
  cases mem_singleton.mp mem
  exact quiet

theorem voteless_trans (first : Voteless s t) (second : Voteless t u) : Voteless s u := by
  obtain ⟨older,before,quiet⟩ := first.log
  obtain ⟨newer,after,silent⟩ := second.log
  refine ⟨fun id => (second.votes id).trans (first.votes id),older ++ newer,?_,?_⟩
  · rw [after,before,append_assoc]
  · intro e mem
    rcases mem_append.mp mem with early | late
    · exact quiet e early
    · exact silent e late

end

theorem voteless_voted (voteless : Voteless s t) : ∃ log, Voted s voter log t := by
  obtain ⟨log,events,quiet⟩ := voteless.log
  have nobody : ∀ id, log.filterMap (rewardVote id) = [] := by
    intro id
    refine filterMap_eq_nil_iff.mpr fun e mem => ?_
    have shown := quiet e mem
    cases e <;> first | rfl | cases shown
  refine ⟨log,events,?_,?_,?_⟩
  · intro id
    exact (voteless.votes id).trans Finset.subset_union_left
  · intro id who mem
    rw [nobody id] at mem
    cases mem
  · intro id amount mem
    cases quiet _ mem

section
omit [DecidableEq A]

theorem configured_voteless (configured : Configured s t) : Voteless s t := by
  obtain ⟨log,events,reports⟩ := configured.log
  refine ⟨fun id => (votesOf_congr configured.transfers id).le,log,events,?_⟩
  intro e mem
  have shown := reports e mem
  cases e <;> first | rfl | cases shown

end

theorem countVote_voteless (ran : countVote cfg s id deposit = .ok t) : Voteless s t := by
  rcases countVote_ok.mp ran with ⟨_,finalized⟩ | ⟨_,rfl⟩
  · obtain ⟨_,_,_,_,rfl⟩ := finalizeDeposit_ok.mp finalized
    exact voteless_note rfl rfl rfl
  · exact ⟨fun _ => Finset.Subset.refl _,[],(append_nil _).symm,fun e mem => by cases mem⟩

theorem reevaluation_voteless (cfg : Config A H B) (guardians : List A) (threshold : Nat)
    (entries : List (H × Deposit A H)) (start : Voteless s t) :
    Voteless s (entries.foldl (reevaluate cfg guardians threshold) t) := by
  refine foldl_keeps (Voteless s) ?_ entries start
  intro u entry voteless
  rcases reevaluate_cases cfg guardians threshold u entry with same | ⟨_,_,_,changed⟩
  · rw [same]
    exact voteless
  · rw [changed]
    exact voteless_trans voteless (voteless_note rfl rfl rfl)

theorem vote_voted {transfer : StakingRewardTransfer A H} {rest : List (Event A H)}
    (events : t.events = s.events ++ .stakingRewardTransferAttested id who :: rest)
    (stored : t.stakingRewardTransfers = s.stakingRewardTransfers.insert id transfer)
    (votes : transfer.votes ⊆ insert who (votesOf s id)) (listed : who ∈ s.rewardBridgeWhitelist)
    (silent : ∀ other, rest.filterMap (rewardVote other) = [])
    (completed : ∀ other amount, .stakingRewardTransferCompleted other amount ∈ rest →
      other = id ∧ s.approveThreshold ≤ transfer.votes.card) :
    Voted s (some who) (.stakingRewardTransferAttested id who :: rest) t := by
  refine ⟨events,?_,?_,?_⟩
  · intro other
    rw [votesOf_insert stored]
    by_cases same : other = id
    · subst same
      intro voter mem
      have voted := votes (by simpa using mem)
      simp only [filterMap_cons,rewardVote,if_true,Finset.mem_union,toFinset_cons,Finset.mem_insert] at voted ⊢
      tauto
    · simp only [if_neg same]
      exact Finset.subset_union_left
  · intro other voter mem
    simp only [filterMap_cons,rewardVote,silent] at mem
    by_cases same : id = other
    · simp only [if_pos same,mem_singleton] at mem
      exact ⟨congrArg some mem.symm,mem ▸ listed⟩
    · simp [if_neg same] at mem
  · intro other amount mem
    rcases mem_cons.mp mem with wrong | late
    · cases wrong
    · obtain ⟨rfl,enough⟩ := completed other amount late
      rw [votesOf_insert stored,if_pos rfl]
      exact enough

theorem countRewardVote_voted {base : State A H B} {transfer : StakingRewardTransfer A H}
    (events : base.events = s.events) (transfers : base.stakingRewardTransfers = s.stakingRewardTransfers)
    (threshold : base.approveThreshold = s.approveThreshold) (listed : who ∈ s.rewardBridgeWhitelist)
    (votes : transfer.votes ⊆ insert who (votesOf s id))
    (ran : countRewardVote cfg (depositEvent base (.stakingRewardTransferAttested id who)) id transfer = .ok t) :
    ∃ log, Voted s (some who) log t := by
  rcases countRewardVote_ok ran with ⟨reached,_,accounts,_,rfl⟩ | rfl
  · have stored : (rewarded (depositEvent base (.stakingRewardTransferAttested id who)) id transfer accounts).stakingRewardTransfers =
        s.stakingRewardTransfers.insert id {transfer with finalizedAtBlock:=some base.blockNumber,status:=.completed} := by
      rw [← transfers]
      rfl
    refine ⟨[.stakingRewardTransferAttested id who,.stakingRewardTransferCompleted id transfer.amount],
      vote_voted ?_ stored votes listed ?_ ?_⟩
    · simp only [rewarded,depositEvent]
      unfold enterEra
      split
      · simp [events]
      · simp [events]
    · intro other
      rfl
    · intro other amount mem
      cases mem_singleton.mp mem
      exact ⟨rfl,threshold ▸ reached⟩
  · refine ⟨[.stakingRewardTransferAttested id who],vote_voted ?_ ?_ votes listed ?_ ?_⟩
    · simp only [depositEvent,events]
    · exact congrArg (fun m => m.insert id transfer) transfers
    · intro other
      rfl
    · intro other amount mem
      cases mem

theorem dispatch_voted (call : Call A H B) (ran : dispatch cfg s call = .ok t) : ∃ log, Voted s call.rewardVoter log t := by
  cases call with
  | proposeStakingRewardTransfer =>
    obtain ⟨who,rfl,listed,counted⟩ := proposeStakingRewardTransfer_ok ran
    refine countRewardVote_voted ?_ ?_ ?_ listed ?_ counted
    · rfl
    · rfl
    · rfl
    exact Finset.singleton_subset_iff.mpr (Finset.mem_insert_self _ _)
  | attestStakingRewardTransfer =>
    obtain ⟨_,transfer,rfl,listed,found,counted⟩ := attestStakingRewardTransfer_ok ran
    refine countRewardVote_voted rfl rfl rfl listed ?_ counted
    rw [votesOf,found]
  | adminCancelStakingRewardTransfer =>
    obtain ⟨_,found,rfl⟩ := adminCancelStakingRewardTransfer_ok ran
    refine voteless_voted ⟨?_,[_],rfl,?_⟩
    · intro other
      rw [votesOf_insert rfl]
      split
      · rename_i same
        rw [same,votesOf,found]
      · exact Finset.Subset.refl _
    · intro e mem
      cases mem_singleton.mp mem
      rfl
  | cleanupStakingRewardTransfer _ id =>
    obtain ⟨_,_,_,_,_,rfl⟩ := cleanupStakingRewardTransfer_ok ran
    refine voteless_voted ⟨?_,[_],rfl,?_⟩
    · intro other
      simp only [votesOf,depositEvent,lookup_erase_if]
      by_cases same : other = id
      · simp [same]
      · simp [same]
    · intro e mem
      cases mem_singleton.mp mem
      rfl
  | withdraw =>
    obtain ⟨_,_,_,_,_,_,_,_,_,_,_,rfl⟩ := withdraw_ok ran
    exact voteless_voted (voteless_note rfl rfl rfl)
  | attestDeposit =>
    obtain ⟨_,_,_,_,_,_,counted⟩ := attestDeposit_ok.mp ran
    refine voteless_voted (voteless_trans ?_ (countVote_voteless counted))
    exact voteless_note rfl rfl rfl
  | cleanupDeposit =>
    obtain ⟨_,_,_,_,_,_,_,_,_,rfl⟩ := cleanupDeposit_ok.mp ran
    exact voteless_voted (voteless_note rfl rfl rfl)
  | cleanupWithdrawalRequest =>
    cases cleanupWithdrawalRequest_ok ran
    exact voteless_voted (voteless_note rfl rfl rfl)
  | setGuardiansAndThreshold _ guardians threshold =>
    obtain ⟨_,_,_,_,rfl⟩ := setGuardiansAndThreshold_ok.mp ran
    refine voteless_voted (reevaluation_voteless cfg guardians threshold _ ?_)
    exact voteless_note rfl rfl rfl
  | adminCancelDeposit =>
    obtain ⟨_,_,_,_,rfl⟩ := adminCancelDeposit_ok.mp ran
    exact voteless_voted (voteless_note rfl rfl rfl)
  | adminFailWithdrawalRequest =>
    obtain ⟨_,_,_,_,_,_,rfl⟩ := adminFailWithdrawalRequest_ok ran
    refine voteless_voted ⟨fun _ => Finset.Subset.refl _,[_,_],append_assoc _ _ _,?_⟩
    intro e mem
    simp only [mem_cons,not_mem_nil,or_false] at mem
    rcases mem with rfl | rfl
    · rfl
    · rfl
  | adminManualMint =>
    obtain ⟨_,_,_,rfl⟩ := adminManualMint_ok ran
    exact voteless_voted (voteless_note rfl rfl rfl)
  | elsewhere =>
    cases ran
    exact voteless_voted ⟨fun _ => Finset.Subset.refl _,[],(append_nil _).symm,fun e mem => by cases mem⟩
  | _ => exact voteless_voted (configured_voteless (dispatch_configured _ rfl ran))

theorem step_voted (cfg : Config A H B) (s : State A H B) (call : Call A H B) :
    Voted s call.rewardVoter (emitted cfg s call) (step cfg s call) := by
  have some_log : ∃ log, Voted s call.rewardVoter log (step cfg s call) := by
    refine commit_inv (fun t => ∃ log, Voted s call.rewardVoter log t) ?_ fun t ran => dispatch_voted call ran
    exact voteless_voted ⟨fun _ => Finset.Subset.refl _,[],(append_nil _).symm,fun e mem => by cases mem⟩
  obtain ⟨log,voted⟩ := some_log
  have same : emitted cfg s call = log := by
    rw [emitted,voted.events,drop_left]
  rw [same]
  exact voted

theorem step_approved (cfg : Config A H B) (s : State A H B) (call : Call A H B)
    (guarded : VotesAsGuardian s call) (id : H) :
    votesOf (step cfg s call) id ⊆ votesOf s id ∪ approvers cfg s [call] id := by
  intro voter voted
  have recorded := step_voted cfg s call
  rcases Finset.mem_union.mp (recorded.votes id voted) with earlier | now
  · exact Finset.mem_union_left _ earlier
  · obtain ⟨who,listed⟩ := recorded.voters id voter (mem_toFinset.mp now)
    have guardian : voter ∈ s.guardians := guarded voter who
    simp only [approvers,Finset.union_empty,Finset.mem_union,Finset.mem_filter]
    exact .inr ⟨now,guardian,listed⟩

theorem run_approved (cfg : Config A H B) (start : State A H B)
    (empty : start.stakingRewardTransfers = ∅) (calls : List (Call A H B))
    (guarded : Throughout (step cfg) VotesAsGuardian start calls) (id : H) :
    votesOf (run (step cfg) start calls) id ⊆ approvers cfg start calls id := by
  induction calls using reverseRecOn with
  | nil => simp [votesOf,empty]
  | append_singleton _ call ih =>
    obtain ⟨before,now,_⟩ := throughout_append.mp guarded
    rw [run_append,approvers_append]
    refine (step_approved cfg _ call now id).trans ?_
    exact Finset.union_subset_union_left (ih before)

theorem rewards_need_quorum (cfg : Config A H B) (start : State A H B)
    (empty : start.stakingRewardTransfers = ∅) (before after : List (Call A H B))
    (call : Call A H B) (guarded : Throughout (step cfg) VotesAsGuardian start (before ++ call :: after))
    (id : H) (amount : Nat)
    (completes : .stakingRewardTransferCompleted id amount ∈ emitted cfg (run (step cfg) start before) call) :
    (run (step cfg) start before).approveThreshold ≤ (approvers cfg start (before ++ [call]) id).card := by
  have guarded_here : Throughout (step cfg) VotesAsGuardian start (before ++ [call]) := by
    obtain ⟨first,now,_⟩ := throughout_append.mp guarded
    exact throughout_append.mpr ⟨first,now,trivial⟩
  have approved := run_approved cfg start empty (before ++ [call]) guarded_here id
  rw [run_append] at approved
  exact ((step_voted cfg _ call).completed id amount completes).trans (Finset.card_le_card approved)

-- Account 9 is whitelisted and no guardian. Its proposal alone completes a transfer.
def outsiderReward : List (Call Nat (List UInt8) (Nat × (Nat → Nat))) :=
  [.setGuardiansAndThreshold .root [1] 1,.setGlobalMintCap .root 1000,.addRewardBridgeWhitelist .root 9]

theorem reward_minted_without_guardian :
    let s := run (step plainConfig) (genesis (0,fun _ => 0)) outsiderReward
    let call := .proposeStakingRewardTransfer (.signed 9) 30
    let id := stakingRewardTransferId plainConfig 30 0
    .stakingRewardTransferCompleted id 30 ∈ emitted plainConfig s call ∧ s.approveThreshold = 1 ∧ 9 ∉ s.guardians ∧
      (approvers plainConfig (genesis (0,fun _ => 0)) (outsiderReward ++ [call]) id).card = 0 := by
  decide +kernel

theorem rewards_need_quorum_guardian :
    let before : List (Call Nat (List UInt8) (Nat × (Nat → Nat))) := outsiderReward ++ [.addRewardBridgeWhitelist .root 1]
    let call := .proposeStakingRewardTransfer (.signed 1) 30
    (run (step plainConfig) (genesis (0,fun _ => 0)) before).approveThreshold ≤
      (approvers plainConfig (genesis (0,fun _ => 0)) (before ++ [call]) (stakingRewardTransferId plainConfig 30 0)).card :=
  rewards_need_quorum plainConfig (genesis (0,fun _ => 0)) rfl _ [] _ (by decide +kernel) _ 30 (by decide +kernel)

end TheBrain.Bridge.Pallet
