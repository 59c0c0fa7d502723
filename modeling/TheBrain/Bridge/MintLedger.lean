import TheBrain.Bridge.Backing

namespace TheBrain.Bridge.Pallet
open Library Machine Words List StorageMap

variable {A H B : Type}
variable {s t u : State A H B}
variable {id : H} {log older newer : List (Event A H)}

-- What an event says was minted. Failing a withdrawal reports its mint as a manual one.
def mintedBy : Event A H → Nat
  | .depositCompleted _ _ amount => amount
  | .stakingRewardTransferCompleted _ amount => amount
  | .adminManualMint _ amount _ => amount
  | _ => 0

def mintedIn (log : List (Event A H)) : Nat := (log.map mintedBy).sum

@[simp] theorem mintedIn_append : mintedIn (older ++ newer) = mintedIn older + mintedIn newer := by
  simp [mintedIn]

def burnedIn (log : List (Event A H)) : Nat := (log.map Backing.burnedBy).sum

@[simp] theorem burnedIn_append : burnedIn (older ++ newer) = burnedIn older + burnedIn newer := by
  simp [burnedIn]

theorem enterEra_aside (s : State A H B) :
    (enterEra s).globalMintCap = s.globalMintCap ∧ (enterEra s).withdrawalRequests = s.withdrawalRequests ∧
      (enterEra s).events = s.events := by
  unfold enterEra
  split
  · exact ⟨rfl,rfl,rfl⟩
  · exact ⟨rfl,rfl,rfl⟩

variable [DecidableEq H]

def creates (id : H) : Event A H → Bool
  | .withdrawalRequestCreated other _ _ _ => other = id
  | _ => false

def restores (id : H) : Event A H → Bool
  | .withdrawalRequestFailed other => other = id
  | _ => false

def restorable (s : State A H B) (id : H) : Nat :=
  if (s.withdrawalRequests.lookup id).any (·.status = .requested) then 1 else 0

-- The log tells the counter: what it says was minted and burned is the change of the
-- total, and every restored request was open or created in between.
structure Recorded (s : State A H B) (log : List (Event A H)) (t : State A H B) :
    Prop where
  events : t.events = s.events ++ log
  total : t.totalMintedByBridge + burnedIn log = s.totalMintedByBridge + mintedIn log
  capped : s.totalMintedByBridge ≤ s.globalMintCap → t.totalMintedByBridge ≤ t.globalMintCap
  requests : ∀ id, log.countP (restores id) + restorable t id ≤ log.countP (creates id) + restorable s id

structure Booked [DecidableEq A] (cfg : Config A H B) (s : State A H B) (log : List (Event A H))
    (t : State A H B) : Prop extends Recorded s log t where
  issuance : cfg.issuance t.accounts + burnedIn log = cfg.issuance s.accounts + mintedIn log

theorem recorded_refl (s : State A H B) : Recorded s [] s :=
  ⟨(append_nil _).symm,rfl,id,fun _ => le_refl _⟩

theorem recorded_trans (first : Recorded s older t) (second : Recorded t newer u) : Recorded s (older ++ newer) u := by
  refine ⟨?_,?_,fun capped => second.capped (first.capped capped),?_⟩
  · rw [second.events,first.events,append_assoc]
  · have before := first.total
    have after := second.total
    simp only [mintedIn_append,burnedIn_append]
    omega
  · intro id
    have before := first.requests id
    have after := second.requests id
    simp only [countP_append]
    omega

theorem restorable_congr (same : t.withdrawalRequests = s.withdrawalRequests) (id : H) : restorable t id = restorable s id := by
  rw [restorable,restorable,same]

theorem restorable_insert (stored : t.withdrawalRequests = s.withdrawalRequests.insert id request) (other : H) :
    restorable t other = if other = id then (if request.status = .requested then 1 else 0) else restorable s other := by
  rw [restorable,stored,lookup_insert_if]
  by_cases same : other = id
  · simp [same]
  · simp only [if_neg same]
    rfl

variable [DecidableEq A] {cfg : Config A H B}

theorem booked_refl (s : State A H B) : Booked cfg s [] s := ⟨recorded_refl s,rfl⟩

theorem booked_trans (first : Booked cfg s older t) (second : Booked cfg t newer u) : Booked cfg s (older ++ newer) u := by
  refine ⟨recorded_trans first.toRecorded second.toRecorded,?_⟩
  have before := first.issuance
  have after := second.issuance
  simp only [mintedIn_append,burnedIn_append]
  omega

structure Aside (s t : State A H B) : Prop where
  accounts : t.accounts = s.accounts := by rfl
  total : t.totalMintedByBridge = s.totalMintedByBridge := by rfl
  cap : t.globalMintCap = s.globalMintCap := by rfl
  requests : t.withdrawalRequests = s.withdrawalRequests := by rfl

def Event.movesTokens : Event A H → Bool
  | .depositCompleted .. | .stakingRewardTransferCompleted .. | .adminManualMint .. => true
  | .withdrawalRequestCreated .. | .withdrawalRequestFailed .. => true
  | _ => false

theorem aside_booked (aside : Aside s t) (events : t.events = s.events) : Booked cfg s [] t := by
  refine ⟨⟨?_,?_,?_,?_⟩,?_⟩
  · simp [events]
  · rw [aside.total]
    rfl
  · rw [aside.total,aside.cap]
    exact fun capped => capped
  · intro id
    rw [restorable_congr aside.requests]
    exact le_refl _
  · rw [aside.accounts]
    rfl

theorem note_booked {e : Event A H} (quiet : e.movesTokens = false) (aside : Aside s t)
    (events : t.events = s.events ++ [e]) : Booked cfg s [e] t := by
  have nothing : mintedIn [e] = 0 ∧ burnedIn [e] = 0 ∧ ∀ id, [e].countP (restores id) = 0 := by
    cases e <;> simp_all [Event.movesTokens,mintedIn,burnedIn,mintedBy,Backing.burnedBy,restores]
  refine ⟨⟨events,?_,?_,?_⟩,?_⟩
  · rw [nothing.1,nothing.2.1,aside.total]
  · rw [aside.total,aside.cap]
    exact fun capped => capped
  · intro id
    rw [nothing.2.2 id,restorable_congr aside.requests]
    omega
  · rw [nothing.1,nothing.2.1,aside.accounts]

theorem mint_booked {recipient : A} (minted : cfg.mintInto s.accounts recipient amount = some t.accounts)
    (raised : t.totalMintedByBridge = s.totalMintedByBridge + amount) (cap : t.totalMintedByBridge ≤ t.globalMintCap)
    (events : t.events = s.events ++ log) (amounts : mintedIn log = amount ∧ burnedIn log = 0)
    (requests : ∀ id, log.countP (restores id) + restorable t id ≤ log.countP (creates id) + restorable s id) :
    Booked cfg s log t := by
  refine ⟨⟨events,?_,fun _ => cap,requests⟩,?_⟩
  · rw [raised,amounts.1,amounts.2]
    rfl
  · rw [amounts.1,amounts.2,(cfg.mint_exact _ _ _ _ minted).1]
    rfl

theorem credited_booked (minted : cfg.mintInto s.accounts deposit.recipient deposit.amount = some accounts)
    (cap : s.totalMintedByBridge + deposit.amount ≤ s.globalMintCap) :
    Booked cfg s [.depositCompleted id deposit.recipient deposit.amount] (credited s id deposit accounts) := by
  refine mint_booked minted rfl cap rfl ⟨rfl,rfl⟩ ?_
  intro other
  exact le_refl _

theorem countVote_booked (ran : countVote cfg s id deposit = .ok t) : ∃ log, Booked cfg s log t := by
  rcases countVote_ok.mp ran with ⟨_,finalized⟩ | ⟨_,rfl⟩
  · obtain ⟨_,cap,_,minted,rfl⟩ := finalizeDeposit_ok.mp finalized
    exact ⟨_,credited_booked minted cap⟩
  · exact ⟨[],aside_booked {} rfl⟩

theorem countRewardVote_booked (ran : countRewardVote cfg s id transfer = .ok t) : ∃ log, Booked cfg s log t := by
  obtain ⟨caps,requests,events⟩ := enterEra_aside s
  rcases countRewardVote_ok ran with ⟨_,cap,accounts,minted,rfl⟩ | rfl
  · refine ⟨[.stakingRewardTransferCompleted id transfer.amount],mint_booked minted rfl ?_ ?_ ⟨rfl,rfl⟩ ?_⟩
    · exact cap.trans caps.ge
    · exact congrArg (· ++ _) events
    · intro other
      have same : restorable (rewarded s id transfer accounts) other = restorable s other := restorable_congr requests other
      rw [same]
      exact le_refl _
  · exact ⟨[],aside_booked {} rfl⟩

theorem withdraw_booked (ran : withdraw cfg s origin amount = .ok t) : ∃ log, Booked cfg s log t := by
  obtain ⟨sender,_,id,_,_,_,_,_,_,burned,_,rfl⟩ := withdraw_ok ran
  have gone := (cfg.burn_exact _ _ _ _ burned).1
  refine ⟨[.withdrawalRequestCreated id sender sender amount],⟨rfl,?_,?_,?_⟩,?_⟩
  · simp only [depositEvent,mintedIn,burnedIn,mintedBy,Backing.burnedBy,map_cons,map_nil,sum_cons,sum_nil]
    omega
  · intro capped
    exact (Nat.sub_le _ _).trans capped
  · intro other
    rw [restorable_insert (s := s) rfl other]
    by_cases same : id = other
    · simp [restores,creates,same]
    · simp [restores,creates,same,Ne.symm same]
  · simp only [depositEvent,mintedIn,burnedIn,mintedBy,Backing.burnedBy,map_cons,map_nil,sum_cons,sum_nil]
    omega

theorem adminFailWithdrawalRequest_booked (ran : adminFailWithdrawalRequest cfg s origin id = .ok t) :
    ∃ log, Booked cfg s log t := by
  obtain ⟨request,_,found,status,cap,minted,rfl⟩ := adminFailWithdrawalRequest_ok ran
  refine ⟨[.withdrawalRequestFailed id,.adminManualMint request.sender request.amount none],mint_booked minted rfl cap ?_ ?_ ?_⟩
  · exact append_assoc _ _ _
  · simp [mintedIn,burnedIn,mintedBy,Backing.burnedBy]
  · intro other
    have waiting : restorable s id = 1 := by simp [restorable,found,status]
    rw [restorable_insert (s := s) rfl other]
    by_cases same : id = other
    · subst same
      simp [restores,waiting]
    · simp [restores,same,Ne.symm same]

theorem cleanupWithdrawalRequest_booked (ran : cleanupWithdrawalRequest s origin id = .ok t) : ∃ log, Booked cfg s log t := by
  cases cleanupWithdrawalRequest_ok ran
  refine ⟨[.withdrawalRequestCleanedUp id],⟨rfl,rfl,fun capped => capped,?_⟩,rfl⟩
  intro other
  simp only [restorable,depositEvent,lookup_erase_if]
  by_cases same : other = id
  · simp [same,restores]
  · simp [same,restores]

theorem reevaluate_booked (cfg : Config A H B) (guardians : List A) (threshold : Nat)
    (entries : List (H × Deposit A H)) (s : State A H B) :
    ∃ log, Booked cfg s log (entries.foldl (reevaluate cfg guardians threshold) s) := by
  induction entries generalizing s with
  | nil => exact ⟨[],booked_refl s⟩
  | cons entry _ ih =>
    obtain ⟨newer,rest⟩ := ih (reevaluate cfg guardians threshold s entry)
    rcases reevaluate_cases cfg guardians threshold s entry with same | ⟨_,_,finalized,changed⟩
    · rw [same] at rest
      exact ⟨newer,by rwa [foldl_cons,same]⟩
    · obtain ⟨_,cap,_,minted,same⟩ := finalizeDeposit_ok.mp finalized
      rw [changed,same] at rest
      refine ⟨.depositCompleted entry.1 entry.2.recipient entry.2.amount :: newer,?_⟩
      rw [foldl_cons,changed,same]
      exact booked_trans (credited_booked minted cap) rest

def Call.onBridge : Call A H B → Bool
  | .elsewhere _ => false
  | _ => true

theorem configured_booked (configured : Configured s t) : ∃ log, Booked cfg s log t := by
  obtain ⟨log,events,reports⟩ := configured.log
  have nothing : mintedIn log = 0 ∧ burnedIn log = 0 ∧ ∀ id, log.countP (restores id) = 0 := by
    refine ⟨sum_eq_zero ?_,sum_eq_zero ?_,?_⟩
    · intro amount mem
      obtain ⟨e,member,rfl⟩ := mem_map.mp mem
      have shown := reports e member
      cases e <;> first | rfl | cases shown
    · intro amount mem
      obtain ⟨e,member,rfl⟩ := mem_map.mp mem
      have shown := reports e member
      cases e <;> first | rfl | cases shown
    · intro id
      refine countP_eq_zero.mpr fun e member => ?_
      have shown := reports e member
      cases e <;> first | exact Bool.false_ne_true | cases shown
  refine ⟨log,⟨events,?_,configured.capped,?_⟩,?_⟩
  · rw [nothing.1,nothing.2.1,configured.total]
  · intro id
    rw [nothing.2.2 id,restorable_congr configured.requests]
    omega
  · rw [nothing.1,nothing.2.1,configured.accounts]

theorem dispatch_booked (call : Call A H B) (mem : call.onBridge = true)
    (ran : dispatch cfg s call = .ok t) : ∃ log, Booked cfg s log t := by
  cases call with
  | elsewhere => cases mem
  | withdraw => exact withdraw_booked ran
  | attestDeposit =>
    obtain ⟨_,_,_,_,_,_,counted⟩ := attestDeposit_ok.mp ran
    obtain ⟨log,booked⟩ := countVote_booked counted
    exact ⟨_,booked_trans (note_booked rfl {} rfl) booked⟩
  | cleanupDeposit =>
    obtain ⟨_,_,_,_,_,_,_,_,_,rfl⟩ := cleanupDeposit_ok.mp ran
    exact ⟨_,note_booked rfl {} rfl⟩
  | cleanupWithdrawalRequest => exact cleanupWithdrawalRequest_booked ran
  | proposeStakingRewardTransfer =>
    obtain ⟨_,_,_,counted⟩ := proposeStakingRewardTransfer_ok ran
    obtain ⟨log,booked⟩ := countRewardVote_booked counted
    exact ⟨_,booked_trans (note_booked rfl {} rfl) booked⟩
  | attestStakingRewardTransfer =>
    obtain ⟨_,_,_,_,_,counted⟩ := attestStakingRewardTransfer_ok ran
    obtain ⟨log,booked⟩ := countRewardVote_booked counted
    exact ⟨_,booked_trans (note_booked rfl {} rfl) booked⟩
  | adminCancelStakingRewardTransfer =>
    obtain ⟨_,_,rfl⟩ := adminCancelStakingRewardTransfer_ok ran
    exact ⟨_,note_booked rfl {} rfl⟩
  | cleanupStakingRewardTransfer =>
    obtain ⟨_,_,_,_,_,rfl⟩ := cleanupStakingRewardTransfer_ok ran
    exact ⟨_,note_booked rfl {} rfl⟩
  | setGuardiansAndThreshold _ guardians threshold =>
    obtain ⟨_,_,_,_,rfl⟩ := setGuardiansAndThreshold_ok.mp ran
    obtain ⟨_,booked⟩ := reevaluate_booked cfg guardians threshold
      (pendingDeposits cfg (rotated s guardians threshold)) (rotated s guardians threshold)
    exact ⟨_,booked_trans (note_booked rfl {} rfl) booked⟩
  | adminCancelDeposit =>
    obtain ⟨_,_,_,_,rfl⟩ := adminCancelDeposit_ok.mp ran
    exact ⟨_,note_booked rfl {} rfl⟩
  | adminFailWithdrawalRequest => exact adminFailWithdrawalRequest_booked ran
  | adminManualMint =>
    obtain ⟨_,cap,minted,rfl⟩ := adminManualMint_ok ran
    exact ⟨[_],mint_booked minted rfl cap rfl ⟨rfl,rfl⟩ fun _ => le_refl _⟩
  | _ => exact configured_booked (dispatch_configured _ rfl ran)

theorem step_booked (cfg : Config A H B) (s : State A H B) (call : Call A H B)
    (mem : call.onBridge = true) : ∃ log, Booked cfg s log (step cfg s call) :=
  commit_inv (fun t => ∃ log, Booked cfg s log t) ⟨[],booked_refl s⟩ fun _ ran => dispatch_booked call mem ran

theorem step_recorded (cfg : Config A H B) (s : State A H B) (call : Call A H B) : ∃ log, Recorded s log (step cfg s call) := by
  cases mem : call.onBridge with
  | true =>
    obtain ⟨log,booked⟩ := step_booked cfg s call mem
    exact ⟨log,booked.toRecorded⟩
  | false =>
    cases call with
    | elsewhere => exact ⟨[],(append_nil _).symm,rfl,fun capped => capped,fun _ => le_refl _⟩
    | _ => cases mem

theorem run_recorded (cfg : Config A H B) (s : State A H B) (calls : List (Call A H B)) :
    ∃ log, Recorded s log (run (step cfg) s calls) := by
  induction calls generalizing s with
  | nil => exact ⟨[],recorded_refl s⟩
  | cons call _ ih =>
    obtain ⟨older,first⟩ := step_recorded cfg s call
    obtain ⟨newer,rest⟩ := ih (step cfg s call)
    exact ⟨older ++ newer,recorded_trans first rest⟩

def MovesBoth (cfg : Config A H B) (s : State A H B) (call : Call A H B) : Prop :=
  call.onBridge = true → ∃ log, (step cfg s call).events = s.events ++ log ∧
    (step cfg s call).totalMintedByBridge + burnedIn log = s.totalMintedByBridge + mintedIn log ∧
    cfg.issuance (step cfg s call).accounts + burnedIn log = cfg.issuance s.accounts + mintedIn log

theorem mint_ledger_exact (cfg : Config A H B) (start : State A H B)
    (unminted : start.totalMintedByBridge = 0) (calls : List (Call A H B)) :
    let final := run (step cfg) start calls
    (final.totalMintedByBridge ≤ final.globalMintCap ∧
      ∃ log, final.events = start.events ++ log ∧ final.totalMintedByBridge + burnedIn log = mintedIn log) ∧
    Throughout (step cfg) (MovesBoth cfg) start calls ∧
    ∀ before after, calls = before ++ after → ∃ log, final.events = (run (step cfg) start before).events ++ log ∧
      ∀ id, log.countP (restores id) + restorable final id ≤
        log.countP (creates id) + restorable (run (step cfg) start before) id := by
  refine ⟨?_,?_,?_⟩
  · obtain ⟨log,recorded⟩ := run_recorded cfg start calls
    refine ⟨recorded.capped (by omega),log,recorded.events,?_⟩
    have total := recorded.total
    omega
  · refine throughout_of_mem start calls (fun call _ s mem => ?_)
    obtain ⟨log,booked⟩ := step_booked cfg s call mem
    exact ⟨log,booked.events,booked.total,booked.issuance⟩
  · rintro before after rfl
    obtain ⟨log,recorded⟩ := run_recorded cfg (run (step cfg) start before) after
    rw [run_append]
    exact ⟨log,recorded.events,recorded.requests⟩

def restoredWithdrawal : List (Call Nat (List UInt8) (Nat × (Nat → Nat))) :=
  let deposit := depositRequestId plainConfig 7 5000000000 0
  let withdrawal := plainConfig.blake2256 (requestBytes domainWithdrawalRequest (plainConfig.encode 7) 2 0)
  [.setGuardiansAndThreshold .root [1] 1,.setGlobalMintCap .root 9000000000,.attestDeposit (.signed 1) deposit 7 5000000000 0,
    .withdraw (.signed 7) 2000000000,.adminFailWithdrawalRequest .root withdrawal,.adminFailWithdrawalRequest .root withdrawal,
    .addRewardBridgeWhitelist .root 1,.proposeStakingRewardTransfer (.signed 1) 30]

theorem mint_ledger_exact_restored :
    let final := run (step plainConfig) (genesis (0,fun _ => 0)) restoredWithdrawal
    final.totalMintedByBridge = 5000000030 ∧
      ∃ log, final.events = (genesis (0,fun _ => 0) : State Nat (List UInt8) (Nat × (Nat → Nat))).events ++ log ∧
        final.totalMintedByBridge + burnedIn log = mintedIn log :=
  ⟨by decide +kernel,(mint_ledger_exact plainConfig (genesis (0,fun _ => 0)) rfl restoredWithdrawal).1.2⟩

end TheBrain.Bridge.Pallet
