import TheBrain.Bridge.Contract
import TheBrain.Library.Lifecycle

namespace TheBrain.Bridge.Contract
open Library Machine Words

variable {A Hash Chain : Type}
variable {s t : State A Hash Chain}
variable {id : Hash} {withdrawal : Withdrawal A Hash}

@[simp] theorem ensureNotPaused_ok : ensureNotPaused s = .ok u ↔ s.paused = false := ensure_ok

def attested [DecidableEq Hash] (s : State A Hash Chain) (caller : A) (id : Hash) (recipient : A) (amount : Nat) : Withdrawal A Hash :=
  match s.withdrawals.lookup id with
  | some withdrawal => {withdrawal with votes:=withdrawal.votes ++ [caller]}
  | none =>
    {requestId:=id,recipient:=recipient,amount:=amount,votes:=[caller],status:=.pending,
      createdAtBlock:=s.blockNumber,finalizedAtBlock:=none}

theorem attested_pending [DecidableEq Hash] {caller : A}
    (opened : ∀ withdrawal, s.withdrawals.lookup id = some withdrawal → withdrawal.status = .pending ∧ caller ∉ withdrawal.votes) :
    (attested s caller id recipient amount).status = .pending := by
  unfold attested
  cases found : s.withdrawals.lookup id with
  | none => rfl
  | some withdrawal => exact (opened withdrawal found).1

variable [DecidableEq A] {cfg : Config A Hash Chain}

@[simp] theorem ensureOwner_ok : ensureOwner s caller = .ok u ↔ caller = s.owner := ensure_ok

@[simp] theorem ensureGuardian_ok : ensureGuardian s caller = .ok u ↔ caller ∈ s.guardians := ensure_ok

theorem getStakeAmount_ok (ran : getStakeAmount cfg chain coldkey hotkey = .ok amount) :
    amount = cfg.stake chain coldkey hotkey := by
  simp only [getStakeAmount,passes] at ran
  obtain ⟨_,answered,rfl⟩ := ran
  exact cfg.info_exact _ _ _ _ answered

theorem consolidate_ok (ran : consolidate cfg s chain hotkey = .ok next) :
    (next = chain ∧ (hotkey = s.contractHotkey ∨ cfg.stake chain cfg.accountId hotkey = 0)) ∨
      (hotkey ≠ s.contractHotkey ∧
        cfg.moveStake chain cfg.accountId hotkey s.contractHotkey (cfg.stake chain cfg.accountId hotkey) = some next) := by
  unfold consolidate at ran
  split at ran
  · rename_i different
    obtain ⟨_,queried,moved⟩ := bind_ok.mp ran
    have exact := getStakeAmount_ok queried
    split at moved
    · exact .inr ⟨different,exact ▸ okOr_ok.mp moved⟩
    · cases moved
      exact .inl ⟨rfl,.inr (by omega)⟩
  · rename_i same
    cases ran
    exact .inl ⟨rfl,.inl (by simpa using same)⟩

theorem setGuardiansAndThreshold_ok (ran : setGuardiansAndThreshold s caller guardians threshold = .ok t) :
    caller = s.owner ∧ guardians.length ≤ maxGuardians ∧ 0 < threshold ∧ threshold ≤ guardians.length ∧
      t = emitEvent {s with guardians:=guardians,approveThreshold:=threshold} (.guardiansUpdated guardians threshold caller) := by
  simp only [setGuardiansAndThreshold,passes,ensureOwner_ok] at ran
  obtain ⟨owner,few,_,⟨reachable,positive⟩,rfl⟩ := ran
  exact ⟨owner,few,Nat.pos_of_ne_zero positive,reachable,rfl⟩

variable [DecidableEq Hash]

theorem deposit_ok (ran : deposit cfg s sender amount hotkey = .ok t) :
    ∃ arrived chain, s.paused = false ∧ s.minDepositAmount ≤ amount ∧ amount ≤ cfg.stake s.chain sender hotkey ∧
      cfg.proxyTransferStake s.chain sender cfg.accountId hotkey amount = some arrived ∧
      moved amount (cfg.stake s.chain sender hotkey - cfg.stake arrived sender hotkey) ∧
      moved amount (cfg.stake arrived cfg.accountId hotkey - cfg.stake s.chain cfg.accountId hotkey) ∧
      consolidate cfg s arrived hotkey = .ok chain ∧ s.nextDepositNonce + 1 < 2 ^ 64 ∧
      amount * halphaRaoPerAlphaRao < 2 ^ 128 ∧
      t = emitEvent {s with
        chain:=chain,nextDepositNonce:=s.nextDepositNonce + 1,
        depositRequests:=s.depositRequests.insert
          (depositRequestId cfg sender (amount * halphaRaoPerAlphaRao) s.nextDepositNonce)
          {sender:=sender,recipient:=sender,amount:=amount,nonce:=s.nextDepositNonce,hotkey:=hotkey,netuid:=s.chainId,
            status:=.requested,createdAtBlock:=s.blockNumber},
        nonceToDepositRequestId:=s.nonceToDepositRequestId.insert s.nextDepositNonce
          (depositRequestId cfg sender (amount * halphaRaoPerAlphaRao) s.nextDepositNonce)}
        (.depositRequestCreated s.nextDepositNonce sender amount
          (depositRequestId cfg sender (amount * halphaRaoPerAlphaRao) s.nextDepositNonce)) := by
  simp only [deposit,passes,ensureNotPaused_ok,checkedAdd_some,checkedMul_some] at ran
  obtain ⟨paused,minimum,_,before,enough,_,held,arrived,proxied,_,after,_,heldAfter,verified,chain,consolidated,
    _,⟨nonce,rfl⟩,_,⟨fits,rfl⟩,rfl⟩ := ran
  cases getStakeAmount_ok before
  cases getStakeAmount_ok held
  cases getStakeAmount_ok after
  cases getStakeAmount_ok heldAfter
  exact ⟨arrived,chain,paused,minimum,enough,proxied,verified.1,verified.2,consolidated,nonce,fits,rfl⟩

def released (s : State A Hash Chain) (id : Hash) (withdrawal : Withdrawal A Hash) (chain : Chain) : State A Hash Chain :=
  emitEvent {s with
    chain:=chain,
    withdrawals:=s.withdrawals.insert id {withdrawal with finalizedAtBlock:=some s.blockNumber,status:=.completed}}
    (.withdrawalCompleted id withdrawal.recipient withdrawal.amount)

theorem finalizeWithdrawal_ok (ran : finalizeWithdrawal cfg s id withdrawal = .ok t) :
    ∃ chain, withdrawal.amount ≤ cfg.stake s.chain cfg.accountId s.contractHotkey ∧
      cfg.transferStake s.chain cfg.accountId withdrawal.recipient s.contractHotkey withdrawal.amount = some chain ∧
      t = released s id withdrawal chain := by
  simp only [finalizeWithdrawal,passes] at ran
  obtain ⟨_,queried,enough,chain,transferred,rfl⟩ := ran
  cases getStakeAmount_ok queried
  exact ⟨chain,enough,transferred,rfl⟩

theorem countVote_ok : countVote cfg s id withdrawal = .ok t ↔
    (s.approveThreshold ≤ withdrawal.votes.length ∧ finalizeWithdrawal cfg s id withdrawal = .ok t) ∨
      (withdrawal.votes.length < s.approveThreshold ∧ t = {s with withdrawals:=s.withdrawals.insert id withdrawal}) := by
  unfold countVote
  split
  · rename_i reached
    simp [reached,Nat.not_lt.mpr reached]
  · rename_i short
    simp [short,Nat.not_le.mp short,eq_comm]

theorem attestWithdrawal_ok (ran : attestWithdrawal cfg s caller id recipient amount nonce = .ok t) :
    ∃ count, s.paused = false ∧ caller ∈ s.guardians ∧ withdrawalRequestId cfg recipient amount nonce = id ∧
      (∀ withdrawal, s.withdrawals.lookup id = some withdrawal → withdrawal.status = .pending ∧ caller ∉ withdrawal.votes) ∧
      countVote cfg (emitEvent s (.withdrawalAttested id caller count)) id (attested s caller id recipient amount) = .ok t := by
  simp only [attestWithdrawal,passes,ensureGuardian_ok,ensureNotPaused_ok] at ran
  obtain ⟨paused,guardian,named,counted⟩ := ran
  unfold attested
  cases found : s.withdrawals.lookup id with
  | none => exact ⟨1,paused,guardian,named,by simp,by simpa [found] using counted⟩
  | some =>
    simp only [found,passes] at counted
    obtain ⟨pending,unvoted,counted⟩ := counted
    refine ⟨_,paused,guardian,named,?_,counted⟩
    intro stored same
    cases same
    exact ⟨pending,unvoted⟩

theorem cleanupWithdrawal_ok (ran : cleanupWithdrawal s caller id = .ok t) :
    ∃ withdrawal finalizedAt, caller ∈ s.guardians ∧ s.withdrawals.lookup id = some withdrawal ∧
      (withdrawal.status = .completed ∨ withdrawal.status = .cancelled) ∧ withdrawal.finalizedAtBlock = some finalizedAt ∧
      saturatingAdd 32 finalizedAt s.cleanupTTLBlocks ≤ s.blockNumber ∧
      t = emitEvent {s with withdrawals:=s.withdrawals.erase id} (.withdrawalCleanedUp id) := by
  simp only [cleanupWithdrawal,passes,ensureGuardian_ok] at ran
  obtain ⟨guardian,withdrawal,found,settled,finalizedAt,block,expired,rfl⟩ := ran
  exact ⟨withdrawal,finalizedAt,guardian,found,settled,block,expired,rfl⟩

theorem adminCancelWithdrawal_ok (ran : adminCancelWithdrawal s caller id reason = .ok t) :
    ∃ withdrawal, caller = s.owner ∧ s.withdrawals.lookup id = some withdrawal ∧ withdrawal.status = .pending ∧
      t = emitEvent {s with
        withdrawals:=s.withdrawals.insert id {withdrawal with finalizedAtBlock:=some s.blockNumber,status:=.cancelled}}
        (.withdrawalCancelled id reason) := by
  simp only [adminCancelWithdrawal,passes,ensureOwner_ok] at ran
  obtain ⟨owner,withdrawal,found,pending,rfl⟩ := ran
  exact ⟨withdrawal,owner,found,pending,rfl⟩

open Lifecycle

def withdrawalAction : Event A Hash → Option (Action Hash)
  | .withdrawalAttested id _ _ => some (.vote id)
  | .withdrawalCompleted id _ _ => some (.finish id)
  | .withdrawalCancelled id _ => some (.cancel id)
  | .withdrawalCleanedUp id => some (.forget id)
  | _ => none

def statusPhase : WithdrawalStatus → Phase
  | .pending => .pending
  | .completed => .done
  | .cancelled => .cancelled

def withdrawalPhase (s : State A Hash Chain) : Hash → Phase :=
  recordPhase (fun withdrawal => statusPhase withdrawal.status) s.withdrawals

def withdrawalView : View (State A Hash Chain) (Event A Hash) Hash :=
  ⟨State.events,withdrawalPhase,withdrawalAction⟩

structure Untouched (s t : State A Hash Chain) : Prop where
  withdrawals : t.withdrawals = s.withdrawals
  guardians : t.guardians = s.guardians
  approveThreshold : t.approveThreshold = s.approveThreshold
  log : ∃ new, t.events = s.events ++ new ∧ new.filterMap withdrawalAction = []

def Call.TouchesWithdrawals : Call A Hash Chain → Prop
  | .attestWithdrawal .. | .cleanupWithdrawal .. | .setGuardiansAndThreshold .. | .adminCancelWithdrawal .. => True
  | _ => False

theorem dispatch_untouched (call : Call A Hash Chain) (outside : ¬ call.TouchesWithdrawals)
    (ran : dispatch cfg s call = .ok t) : Untouched s t := by
  cases call with
  | attestWithdrawal | cleanupWithdrawal | setGuardiansAndThreshold | adminCancelWithdrawal => exact absurd trivial outside
  | deposit =>
    obtain ⟨_,_,_,_,_,_,_,_,_,_,_,rfl⟩ := deposit_ok ran
    exact ⟨rfl,rfl,rfl,[_],rfl,rfl⟩
  | adminFailDepositRequest | adminManualRelease | pause | unpause | updateOwner | setContractHotkey
  | cleanupDepositRequest | setCleanupTTL | setMinDepositAmount =>
    revert ran
    simp only [dispatch,adminFailDepositRequest,adminManualRelease,pause,unpause,updateOwner,setContractHotkey,cleanupDepositRequest,setCleanupTTL,setMinDepositAmount,passes,forall_exists_index,and_imp]
    intros
    subst_vars
    exact ⟨rfl,rfl,rfl,[_],rfl,rfl⟩
  | nextBlock =>
    cases ran
    split
    · exact ⟨rfl,rfl,rfl,[],by simp,rfl⟩
    · exact ⟨rfl,rfl,rfl,[],by simp,rfl⟩
  | elsewhere =>
    cases ran
    exact ⟨rfl,rfl,rfl,[],by simp,rfl⟩

section
omit [DecidableEq A]

theorem withdrawalPhase_insert (stored : t.withdrawals = s.withdrawals.insert id withdrawal)
    (shown : statusPhase withdrawal.status = phase) :
    withdrawalPhase t = Function.update (withdrawalPhase s) id phase := by
  rw [withdrawalPhase,stored]
  exact recordPhase_insert _ _ shown

theorem withdrawalPhase_found (found : s.withdrawals.lookup id = some withdrawal) :
    withdrawalPhase s id = statusPhase withdrawal.status := by
  simp [withdrawalPhase,recordPhase,found]

theorem emits_event (e : Event A Hash) (log : t.events = s.events ++ [e])
    (shown : withdrawalAction e = some action) (allowed : Allowed (withdrawalPhase s) action)
    (phase : withdrawalPhase t = apply (withdrawalPhase s) action) : Emits withdrawalView s [action] t :=
  emits_one withdrawalView e log shown allowed phase

theorem untouched_emits (untouched : Untouched s t) : Emits withdrawalView s [] t := by
  obtain ⟨new,log,quiet⟩ := untouched.log
  refine emits_still withdrawalView new log quiet ?_
  simp [withdrawalView,withdrawalPhase,untouched.withdrawals]

end

theorem attestWithdrawal_emits (ran : attestWithdrawal cfg s caller id recipient amount nonce = .ok t) :
    Emits withdrawalView s [.vote id] t ∨ Emits withdrawalView s [.vote id,.finish id] t := by
  obtain ⟨count,_,_,_,opened,counted⟩ := attestWithdrawal_ok ran
  have allowed : Allowed (withdrawalPhase s) (.vote id) := by
    cases found : s.withdrawals.lookup id with
    | none => exact .inl (by simp [withdrawalPhase,recordPhase,found])
    | some withdrawal => exact .inr ((withdrawalPhase_found found).trans (congrArg statusPhase (opened withdrawal found).1))
  have pending : (attested s caller id recipient amount).status = .pending := attested_pending opened
  let voted := {emitEvent s (.withdrawalAttested id caller count) with
    withdrawals:=s.withdrawals.insert id (attested s caller id recipient amount)}
  have vote : Emits withdrawalView s [.vote id] voted := by
    have phase : withdrawalPhase voted = apply (withdrawalPhase s) (.vote id) :=
      withdrawalPhase_insert rfl (congrArg statusPhase pending)
    exact emits_event _ rfl rfl allowed phase
  rcases countVote_ok.mp counted with ⟨_,finalized⟩ | ⟨_,stored⟩
  · right
    obtain ⟨chain,_,_,rfl⟩ := finalizeWithdrawal_ok finalized
    have unsettled : Allowed (withdrawalPhase voted) (.finish id) :=
      (withdrawalPhase_found (AList.lookup_insert _)).trans (congrArg statusPhase pending)
    have phase : withdrawalPhase (released (emitEvent s (.withdrawalAttested id caller count)) id
        (attested s caller id recipient amount) chain) = apply (withdrawalPhase voted) (.finish id) :=
      withdrawalPhase_insert (by simp [voted]; rfl) rfl
    exact emits_trans vote (emits_event _ rfl rfl unsettled phase)
  · left
    rw [stored]
    exact vote

theorem cleanupWithdrawal_emits (ran : cleanupWithdrawal s caller id = .ok t) : Emits withdrawalView s [.forget id] t := by
  obtain ⟨_,_,_,found,settled,_,_,rfl⟩ := cleanupWithdrawal_ok ran
  have allowed : Allowed (withdrawalPhase s) (.forget id) := by
    rcases settled with completed | cancelled
    · exact .inl ((withdrawalPhase_found found).trans (congrArg statusPhase completed))
    · exact .inr ((withdrawalPhase_found found).trans (congrArg statusPhase cancelled))
  have phase : withdrawalPhase (emitEvent {s with withdrawals:=s.withdrawals.erase id} (.withdrawalCleanedUp id)) =
      apply (withdrawalPhase s) (.forget id) := recordPhase_erase _ _
  exact emits_event _ rfl rfl allowed phase

theorem adminCancelWithdrawal_emits (ran : adminCancelWithdrawal s caller id reason = .ok t) :
    Emits withdrawalView s [.cancel id] t := by
  obtain ⟨_,_,found,pending,eq⟩ := adminCancelWithdrawal_ok ran
  have allowed : Allowed (withdrawalPhase s) (.cancel id) :=
    (withdrawalPhase_found found).trans (congrArg statusPhase pending)
  have phase : withdrawalPhase t = apply (withdrawalPhase s) (.cancel id) := by
    rw [eq]
    exact withdrawalPhase_insert rfl rfl
  exact emits_event _ (by rw [eq]; rfl) rfl allowed phase

def Call.attestedWithdrawal : Call A Hash Chain → Option Hash
  | .attestWithdrawal _ requestId _ _ _ => some requestId
  | _ => none

theorem step_follows (s : State A Hash Chain) (call : Call A Hash Chain) :
    Follows withdrawalView (fun id => call.attestedWithdrawal = some id) s (step cfg s call) := by
  refine commit_inv _ (follows_refl withdrawalView s) ?_
  intro t ran
  by_cases touches : call.TouchesWithdrawals
  · cases call with
    | attestWithdrawal =>
      rcases attestWithdrawal_emits ran with voted | settled
      · exact ⟨_,voted,by simp [Call.attestedWithdrawal]⟩
      · exact ⟨_,settled,by simp [Call.attestedWithdrawal]⟩
    | cleanupWithdrawal => exact follows_quiet (cleanupWithdrawal_emits ran) (by simp)
    | adminCancelWithdrawal => exact follows_quiet (adminCancelWithdrawal_emits ran) (by simp)
    | setGuardiansAndThreshold =>
      obtain ⟨_,_,_,_,rfl⟩ := setGuardiansAndThreshold_ok ran
      exact follows_quiet (emits_still withdrawalView [_] rfl rfl rfl) (by simp)
    | _ => cases touches
  · exact follows_quiet (untouched_emits (dispatch_untouched call touches ran)) (by simp)

section
omit [DecidableEq A]

def completes (id : Hash) : Event A Hash → Bool
  | .withdrawalCompleted other _ _ => other = id
  | _ => false

def cancels (id : Hash) : Event A Hash → Bool
  | .withdrawalCancelled other _ => other = id
  | _ => false

def AttestsFresh (s : State A Hash Chain) (call : Call A Hash Chain) : Prop :=
  ∀ id ∈ call.attestedWithdrawal, .withdrawalCleanedUp id ∉ s.events

instance (s : State A Hash Chain) (call : Call A Hash Chain) : Decidable (AttestsFresh s call) :=
  inferInstanceAs (Decidable (∀ id ∈ call.attestedWithdrawal, Event.withdrawalCleanedUp id ∉ s.events))

theorem withdrawalAction_finish {e : Event A Hash} : withdrawalAction e = some (.finish id) ↔ completes id e = true := by
  cases e <;> simp [withdrawalAction,completes]

theorem withdrawalAction_cancel {e : Event A Hash} : withdrawalAction e = some (.cancel id) ↔ cancels id e = true := by
  cases e <;> simp [withdrawalAction,cancels]

theorem forgotten_iff : .forget id ∈ withdrawalView.history s ↔ .withdrawalCleanedUp id ∈ s.events := by
  rw [View.history,List.mem_filterMap]
  constructor
  · intro forgotten
    obtain ⟨e,mem,shown⟩ := forgotten
    cases e <;> simp [withdrawalView,withdrawalAction] at shown
    exact shown ▸ mem
  · intro mem
    exact ⟨_,mem,rfl⟩

end

theorem withdrawal_released_once (cfg : Config A Hash Chain) (start : State A Hash Chain)
    (empty : start.withdrawals = ∅) (silent : start.events = []) (calls : List (Call A Hash Chain))
    (fresh : Throughout (step cfg) AttestsFresh start calls) (id : Hash) :
    (run (step cfg) start calls).events.countP (completes id) ≤ 1 ∧
      (run (step cfg) start calls).events.Pairwise fun earlier later => cancels id earlier = true → completes id later = false := by
  have guarded : Throughout (step cfg)
      (fun s call => ∀ k, call.attestedWithdrawal = some k → .forget k ∉ withdrawalView.history s) start calls := by
    refine throughout_of_invariant (fun _ => True) (fun _ _ _ _ => trivial) ?_ trivial fresh
    intro s call _ unforgotten k attests forgotten
    exact unforgotten k attests (forgotten_iff.mp forgotten)
  have absent : withdrawalView.phase start = fun _ => .absent := by
    funext id
    simp [withdrawalView,withdrawalPhase,recordPhase,empty]
  have settled := run_settled withdrawalView (step cfg) (fun call k => call.attestedWithdrawal = some k) step_follows start
    silent absent guarded id
  refine ⟨?_,settled.kept.imp ?_⟩
  · have once := settled.once
    simpa only [withdrawalView,withdrawalAction_finish,Bool.decide_eq_true] using once
  · intro earlier later kept cancelled
    rw [← Bool.not_eq_true]
    exact fun completed => kept (withdrawalAction_cancel.mpr cancelled) (withdrawalAction_finish.mpr completed)

def shift (stake : Nat → Nat → Nat) (source target : Nat × Nat) (amount : Nat) : Option (Nat → Nat → Nat) :=
  if amount ≤ stake source.1 source.2 then
    some fun c h => stake c h + (if c = target.1 ∧ h = target.2 then amount else 0) - if c = source.1 ∧ h = source.2 then amount else 0
  else none

theorem shift_exact {stake next : Nat → Nat → Nat} (moved : shift stake source target amount = some next) (c h : Nat) :
    next c h + (if c = source.1 ∧ h = source.2 then amount else 0) =
      stake c h + (if c = target.1 ∧ h = target.2 then amount else 0) := by
  unfold shift at moved
  split at moved
  · cases moved
    by_cases equal : c = source.1 ∧ h = source.2
    · obtain ⟨rfl,rfl⟩ := equal
      simp only [and_self,if_true]
      omega
    · simp [equal]
  · cases moved

def plainChain (lost : Nat) : Subtensor Nat (Nat → Nat → Nat) where
  stake := fun stake => stake
  getStakeInfo stake hotkey coldkey := some (some (stake coldkey hotkey))
  proxyTransferStake stake real destination hotkey amount := shift stake (real,hotkey) (destination,hotkey) (amount - lost)
  moveStake stake coldkey source destination amount := shift stake (coldkey,source) (coldkey,destination) amount
  transferStake stake source destination hotkey amount := shift stake (source,hotkey) (destination,hotkey) amount
  info_exact := by
    intro chain hotkey coldkey info answered
    cases answered
    rfl
  proxy_between := by
    intro chain real destination hotkey amount next moved c h outside
    have exact := shift_exact moved c h
    have notReal : ¬ (c = real ∧ h = hotkey) := by
      intro same
      rcases outside with other | other
      · exact other same.2
      · exact other.1 same.1
    have notDestination : ¬ (c = destination ∧ h = hotkey) := by
      intro same
      rcases outside with other | other
      · exact other same.2
      · exact other.2 same.1
    simpa [notReal,notDestination] using exact
  move_exact := fun _ _ _ _ _ _ moved => shift_exact moved
  transfer_exact := fun _ _ _ _ _ _ moved => shift_exact moved

def plainConfig (lost : Nat) : Config Nat (List UInt8) (Nat → Nat → Nat) :=
  {plainChain lost with blake2x256:=fun bytes => bytes,asRef:=leBytes 32,accountId:=0}

-- The contract holds 100 on its hotkey 9. Its only guardian 1 attests a withdrawal of
-- 5 to account 7 with nonce 0, and attests it again after the record was cleaned up.
def funded : State Nat (List UInt8) (Nat → Nat → Nat) :=
  new 0 (fun c h => if c = 0 ∧ h = 9 then 100 else 0) 3 1 9

def reattested : List (Call Nat (List UInt8) (Nat → Nat → Nat)) :=
  let id := withdrawalRequestId (plainConfig 0) 7 5 0
  [.setGuardiansAndThreshold 3 [1] 1,.attestWithdrawal 1 id 7 5 0,.nextBlock 100801,.cleanupWithdrawal 1 id,
    .attestWithdrawal 1 id 7 5 0]

theorem withdrawal_released_twice :
    (run (step (plainConfig 0)) funded reattested).events.countP (completes (withdrawalRequestId (plainConfig 0) 7 5 0)) = 2 ∧
      (run (step (plainConfig 0)) funded reattested).chain 7 9 = 10 := by
  decide +kernel

theorem withdrawal_released_once_before_cleanup :
    Throughout (step (plainConfig 0)) AttestsFresh funded (reattested.take 4) ∧
      (run (step (plainConfig 0)) funded (reattested.take 4)).events.countP
        (completes (withdrawalRequestId (plainConfig 0) 7 5 0)) ≤ 1 :=
  have fresh : Throughout (step (plainConfig 0)) AttestsFresh funded (reattested.take 4) := by decide +kernel
  ⟨fresh,(withdrawal_released_once (plainConfig 0) funded rfl rfl (reattested.take 4) fresh _).1⟩

end TheBrain.Bridge.Contract
