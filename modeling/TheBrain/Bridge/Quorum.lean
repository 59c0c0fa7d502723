import TheBrain.Bridge.ContractRuns
import TheBrain.Bridge.PalletRuns

namespace TheBrain.Bridge
open Library Machine Words List StorageMap

namespace Pallet
variable {A H B : Type} [DecidableEq H]
variable {s t : State A H B}
variable {id : H}

def Completed (s : State A H B) (id : H) : Prop :=
  ∃ deposit, s.deposits.lookup id = some deposit ∧ deposit.status = .completed

theorem completed_insert (stored : t.deposits = s.deposits.insert id deposit) (completed : Completed t other)
    (before : ¬ Completed s other) : other = id ∧ deposit.status = .completed := by
  obtain ⟨record,found,status⟩ := completed
  rw [stored] at found
  rcases insert_cases found with ⟨same,rfl⟩ | ⟨_,found⟩
  · exact ⟨same,status⟩
  · exact absurd ⟨record,found,status⟩ before

variable [DecidableEq A] {cfg : Config A H B}

def currentVoters (s : State A H B) (id : H) : Finset A :=
  match s.deposits.lookup id with
  | some deposit => deposit.votes.filter (· ∈ s.guardians)
  | none => ∅

def CompletesWithQuorum (cfg : Config A H B) (s : State A H B) (call : Call A H B) : Prop :=
  ∀ id, ¬ Completed s id → Completed (step cfg s call) id →
    (step cfg s call).approveThreshold ≤ (currentVoters (step cfg s call) id).card

def VotersCurrent (s : State A H B) (call : Call A H B) : Prop :=
  ∀ id ∈ call.attestedDeposit, ∀ deposit ∈ s.deposits.lookup id, ∀ voter ∈ deposit.votes, voter ∈ s.guardians

instance (s : State A H B) (call : Call A H B) : Decidable (VotersCurrent s call) :=
  inferInstanceAs (Decidable (∀ id ∈ call.attestedDeposit, ∀ deposit ∈ s.deposits.lookup id,
    ∀ voter ∈ deposit.votes, voter ∈ s.guardians))

theorem attestDeposit_quorum (ran : attestDeposit cfg s origin id recipient amount nonce = .ok t)
    (current : ∀ deposit, s.deposits.lookup id = some deposit → ∀ voter ∈ deposit.votes, voter ∈ s.guardians)
    (before : ¬ Completed s other) (completed : Completed t other) :
    t.approveThreshold ≤ (currentVoters t other).card := by
  obtain ⟨guardian,_,member,_,_,opened,counted⟩ := attestDeposit_ok.mp ran
  rcases countVote_ok.mp counted with ⟨reached,finalized⟩ | ⟨_,stored⟩
  · obtain ⟨_,_,accounts,_,rfl⟩ := finalizeDeposit_ok.mp finalized
    obtain ⟨rfl,_⟩ := completed_insert (s := s) rfl completed before
    have all : ∀ voter ∈ (attested s guardian other recipient amount).votes, voter ∈ s.guardians := by
      intro voter voted
      unfold attested at voted
      cases found : s.deposits.lookup other with
      | none =>
        simp only [found,Finset.mem_singleton] at voted
        exact voted ▸ member
      | some deposit =>
        simp only [found,Finset.mem_insert] at voted
        rcases voted with rfl | earlier
        · exact member
        · exact current deposit found voter earlier
    have voters : currentVoters (credited (depositEvent s (.depositAttested other guardian)) other
        (attested s guardian other recipient amount) accounts) other = (attested s guardian other recipient amount).votes := by
      simpa [currentVoters,credited,depositEvent] using all
    rw [voters]
    exact reached
  · obtain ⟨_,status⟩ := completed_insert (s := s) (by rw [stored]; rfl) completed before
    rw [attested_pending opened] at status
    cases status

theorem reevaluation_quorum (cfg : Config A H B) (guardians : List A) (threshold : Nat)
    (entries : List (H × Deposit A H)) (s : State A H B) :
    let t := entries.foldl (reevaluate cfg guardians threshold) s
    t.guardians = s.guardians ∧ t.approveThreshold = s.approveThreshold ∧
      ∀ id deposit, t.deposits.lookup id = some deposit → deposit.status = .completed →
        s.deposits.lookup id = some deposit ∨ threshold ≤ (deposit.votes.filter (· ∈ guardians)).card := by
  refine run_always (fun u : State A H B => u.guardians = s.guardians ∧ u.approveThreshold = s.approveThreshold ∧
    ∀ id deposit, u.deposits.lookup id = some deposit → deposit.status = .completed →
      s.deposits.lookup id = some deposit ∨ threshold ≤ (deposit.votes.filter (· ∈ guardians)).card) ?_ ?_
  · intro u entry inv
    rcases reevaluate_cases cfg guardians threshold u entry with eq | ⟨enough,_,_,eq⟩
    · rw [eq]
      exact inv
    · rw [eq]
      refine ⟨inv.1,inv.2.1,?_⟩
      intro id deposit found status
      rcases insert_cases found with ⟨_,rfl⟩ | ⟨_,found⟩
      · exact .inr enough
      · exact inv.2.2 id deposit found status
  · exact ⟨rfl,rfl,fun _ _ found _ => .inl found⟩

theorem setGuardiansAndThreshold_quorum (ran : setGuardiansAndThreshold cfg s origin guardians threshold = .ok t)
    (before : ¬ Completed s id) (completed : Completed t id) : t.approveThreshold ≤ (currentVoters t id).card := by
  obtain ⟨_,_,_,_,rfl⟩ := setGuardiansAndThreshold_ok.mp ran
  obtain ⟨members,needed,records⟩ := reevaluation_quorum cfg guardians threshold
    (pendingDeposits cfg (rotated s guardians threshold)) (rotated s guardians threshold)
  obtain ⟨deposit,found,status⟩ := completed
  rcases records id deposit found status with old | enough
  · exact absurd ⟨deposit,old,status⟩ before
  · rw [currentVoters,found,members,needed]
    exact enough

theorem step_quorum (cfg : Config A H B) (s : State A H B)
    (call : Call A H B) (current : VotersCurrent s call) : CompletesWithQuorum cfg s call := by
  intro id before
  rcases commit_cases s (dispatch cfg s call) with ⟨_,ran,eq⟩ | ⟨_,_,eq⟩
  · rw [step,eq]
    intro completed
    by_cases touches : call.TouchesDeposits
    · cases call with
      | attestDeposit =>
        exact attestDeposit_quorum ran (fun deposit found => current _ rfl deposit found) before completed
      | setGuardiansAndThreshold => exact setGuardiansAndThreshold_quorum ran before completed
      | cleanupDeposit =>
        obtain ⟨_,_,_,_,_,_,_,_,_,rfl⟩ := cleanupDeposit_ok.mp ran
        obtain ⟨deposit,found,status⟩ := completed
        exact absurd ⟨deposit,(erase_found found).2,status⟩ before
      | adminCancelDeposit =>
        obtain ⟨_,_,_,_,stored⟩ := adminCancelDeposit_ok.mp ran
        obtain ⟨_,status⟩ := completed_insert (s := s) (by rw [stored]; rfl) completed before
        cases status
      | _ => cases touches
    · have untouched := dispatch_untouched call touches ran
      rw [Completed,untouched.deposits] at completed
      exact absurd completed before
  · rw [step,eq]
    exact fun completed => absurd completed before

end Pallet

namespace Contract
variable {A Hash Chain : Type} [DecidableEq A] [DecidableEq Hash]
variable {s t : State A Hash Chain}
variable {id : Hash}
variable {cfg : Config A Hash Chain}

section
omit [DecidableEq A]

def Completed (s : State A Hash Chain) (id : Hash) : Prop :=
  ∃ withdrawal, s.withdrawals.lookup id = some withdrawal ∧ withdrawal.status = .completed

def currentVoters (s : State A Hash Chain) (id : Hash) : Finset A :=
  match s.withdrawals.lookup id with
  | some withdrawal => withdrawal.votes.toFinset.filter (· ∈ s.guardians)
  | none => ∅

def CompletesWithQuorum (cfg : Config A Hash Chain) (s : State A Hash Chain) (call : Call A Hash Chain) : Prop :=
  ∀ id, ¬ Completed s id → Completed (step cfg s call) id →
    (step cfg s call).approveThreshold ≤ (currentVoters (step cfg s call) id).card

def VotersCurrent (s : State A Hash Chain) (call : Call A Hash Chain) : Prop :=
  ∀ id ∈ call.attestedWithdrawal, ∀ withdrawal ∈ s.withdrawals.lookup id, ∀ voter ∈ withdrawal.votes, voter ∈ s.guardians

instance (s : State A Hash Chain) (call : Call A Hash Chain) : Decidable (VotersCurrent s call) :=
  inferInstanceAs (Decidable (∀ id ∈ call.attestedWithdrawal, ∀ withdrawal ∈ s.withdrawals.lookup id,
    ∀ voter ∈ withdrawal.votes, voter ∈ s.guardians))

-- Votes are kept in a list; that no account is counted twice is an invariant.
def VotesDistinct (s : State A Hash Chain) : Prop :=
  ∀ id withdrawal, s.withdrawals.lookup id = some withdrawal → withdrawal.votes.Nodup

theorem completed_insert (stored : t.withdrawals = s.withdrawals.insert id withdrawal) (completed : Completed t other)
    (before : ¬ Completed s other) : other = id ∧ withdrawal.status = .completed := by
  obtain ⟨record,found,status⟩ := completed
  rw [stored] at found
  rcases insert_cases found with ⟨same,rfl⟩ | ⟨_,found⟩
  · exact ⟨same,status⟩
  · exact absurd ⟨record,found,status⟩ before

theorem distinct_insert (distinct : VotesDistinct s) (stored : t.withdrawals = s.withdrawals.insert id withdrawal)
    (votes : withdrawal.votes.Nodup) : VotesDistinct t := by
  intro other record found
  rw [stored] at found
  rcases insert_cases found with ⟨_,rfl⟩ | ⟨_,found⟩
  · exact votes
  · exact distinct other record found

theorem attested_distinct {caller : A} (distinct : VotesDistinct s)
    (opened : ∀ withdrawal, s.withdrawals.lookup id = some withdrawal → withdrawal.status = .pending ∧ caller ∉ withdrawal.votes) :
    (attested s caller id recipient amount).votes.Nodup := by
  unfold attested
  cases found : s.withdrawals.lookup id with
  | none => exact nodup_singleton _
  | some withdrawal =>
    refine nodup_append.mpr ⟨distinct id withdrawal found,nodup_singleton _,?_⟩
    intro voter voted other last
    rw [mem_singleton] at last
    exact fun same => (opened withdrawal found).2 (last ▸ same ▸ voted)

end

theorem attestWithdrawal_quorum (ran : attestWithdrawal cfg s caller id recipient amount nonce = .ok t)
    (distinct : VotesDistinct s)
    (current : ∀ withdrawal, s.withdrawals.lookup id = some withdrawal → ∀ voter ∈ withdrawal.votes, voter ∈ s.guardians)
    (before : ¬ Completed s other) (completed : Completed t other) :
    t.approveThreshold ≤ (currentVoters t other).card := by
  obtain ⟨count,_,member,_,opened,counted⟩ := attestWithdrawal_ok ran
  rcases countVote_ok.mp counted with ⟨reached,finalized⟩ | ⟨_,stored⟩
  · obtain ⟨chain,_,_,rfl⟩ := finalizeWithdrawal_ok finalized
    obtain ⟨rfl,_⟩ := completed_insert (s := s) rfl completed before
    have all : ∀ voter ∈ (attested s caller other recipient amount).votes, voter ∈ s.guardians := by
      intro voter voted
      unfold attested at voted
      cases found : s.withdrawals.lookup other with
      | none =>
        simp only [found,mem_singleton] at voted
        exact voted ▸ member
      | some withdrawal =>
        simp only [found,mem_append,mem_singleton] at voted
        rcases voted with earlier | rfl
        · exact current withdrawal found voter earlier
        · exact member
    have voters : currentVoters (released (emitEvent s (.withdrawalAttested other caller count)) other
        (attested s caller other recipient amount) chain) other = (attested s caller other recipient amount).votes.toFinset := by
      simpa [currentVoters,released,emitEvent] using all
    rw [voters,toFinset_card_of_nodup (attested_distinct distinct opened)]
    exact reached
  · obtain ⟨_,status⟩ := completed_insert (s := s) (by rw [stored]; rfl) completed before
    rw [attested_pending opened] at status
    cases status

theorem step_distinct (cfg : Config A Hash Chain) (s : State A Hash Chain) (call : Call A Hash Chain)
    (distinct : VotesDistinct s) : VotesDistinct (step cfg s call) := by
  refine commit_inv _ distinct ?_
  intro t ran
  by_cases touches : call.TouchesWithdrawals
  · cases call with
    | attestWithdrawal =>
      obtain ⟨_,_,_,_,opened,counted⟩ := attestWithdrawal_ok ran
      rcases countVote_ok.mp counted with ⟨_,finalized⟩ | ⟨_,rfl⟩
      · obtain ⟨_,_,_,rfl⟩ := finalizeWithdrawal_ok finalized
        exact distinct_insert (s := s) distinct rfl (attested_distinct distinct opened)
      · exact distinct_insert (s := s) distinct rfl (attested_distinct distinct opened)
    | cleanupWithdrawal =>
      obtain ⟨_,_,_,_,_,_,_,rfl⟩ := cleanupWithdrawal_ok ran
      intro id withdrawal found
      exact distinct id withdrawal (erase_found found).2
    | adminCancelWithdrawal =>
      obtain ⟨withdrawal,_,found,_,rfl⟩ := adminCancelWithdrawal_ok ran
      exact distinct_insert (s := s) distinct rfl (distinct _ withdrawal found)
    | setGuardiansAndThreshold =>
      obtain ⟨_,_,_,_,rfl⟩ := setGuardiansAndThreshold_ok ran
      exact distinct
    | _ => cases touches
  · have untouched := dispatch_untouched call touches ran
    rw [VotesDistinct,untouched.withdrawals]
    exact distinct

theorem step_quorum (cfg : Config A Hash Chain) (s : State A Hash Chain) (call : Call A Hash Chain)
    (distinct : VotesDistinct s) (current : VotersCurrent s call) : CompletesWithQuorum cfg s call := by
  intro id before
  rcases commit_cases s (dispatch cfg s call) with ⟨_,ran,eq⟩ | ⟨_,_,eq⟩
  · rw [step,eq]
    intro completed
    by_cases touches : call.TouchesWithdrawals
    · cases call with
      | attestWithdrawal =>
        exact attestWithdrawal_quorum ran distinct (fun withdrawal found => current _ rfl withdrawal found) before completed
      | setGuardiansAndThreshold =>
        obtain ⟨_,_,_,_,rfl⟩ := setGuardiansAndThreshold_ok ran
        exact absurd completed before
      | cleanupWithdrawal =>
        obtain ⟨_,_,_,_,_,_,_,rfl⟩ := cleanupWithdrawal_ok ran
        obtain ⟨withdrawal,found,status⟩ := completed
        exact absurd ⟨withdrawal,(erase_found found).2,status⟩ before
      | adminCancelWithdrawal =>
        obtain ⟨_,_,_,_,stored⟩ := adminCancelWithdrawal_ok ran
        obtain ⟨_,status⟩ := completed_insert (s := s) (by rw [stored]; rfl) completed before
        cases status
      | _ => cases touches
    · have untouched := dispatch_untouched call touches ran
      rw [Completed,untouched.withdrawals] at completed
      exact absurd completed before
  · rw [step,eq]
    exact fun completed => absurd completed before

end Contract

-- On either chain, as long as every attestation finds only votes of current
-- guardians on its record, whatever completes has a quorum of current guardians.
theorem completed_by_current_quorum {A H B Hash Chain : Type}
    [DecidableEq A] [DecidableEq H] [DecidableEq Hash]
    (pallet : Pallet.Config A H B) (palletStart : Pallet.State A H B)
    (palletCalls : List (Pallet.Call A H B))
    (contract : Contract.Config A Hash Chain) (contractStart : Contract.State A Hash Chain)
    (empty : contractStart.withdrawals = ∅) (contractCalls : List (Contract.Call A Hash Chain)) :
    (Throughout (Pallet.step pallet) Pallet.VotersCurrent palletStart palletCalls →
      Throughout (Pallet.step pallet) (Pallet.CompletesWithQuorum pallet) palletStart palletCalls) ∧
    (Throughout (Contract.step contract) Contract.VotersCurrent contractStart contractCalls →
      Throughout (Contract.step contract) (Contract.CompletesWithQuorum contract) contractStart contractCalls) := by
  refine ⟨fun current => ?_,fun current => ?_⟩
  · exact throughout_of_invariant (fun _ => True) (fun _ _ _ _ => trivial)
      (fun s call _ voters => Pallet.step_quorum pallet s call voters) trivial current
  · refine throughout_of_invariant Contract.VotesDistinct
      (fun s call distinct _ => Contract.step_distinct contract s call distinct)
      (fun s call distinct voters => Contract.step_quorum contract s call distinct voters) ?_ current
    intro id withdrawal found
    simp [empty] at found

-- Guardians 1 and 2 approve with threshold 2. Guardian 1 votes, the set is replaced by
-- 3 and 4, and the single vote of 3 completes the record on either chain.
def rotatedDeposit : List (Pallet.Call Nat (List UInt8) (Nat × (Nat → Nat))) :=
  let id := Pallet.depositRequestId Pallet.plainConfig 7 5 0
  [.setGuardiansAndThreshold .root [1,2] 2,.setGlobalMintCap .root 1000,.attestDeposit (.signed 1) id 7 5 0,
    .setGuardiansAndThreshold .root [3,4] 2,.attestDeposit (.signed 3) id 7 5 0]

def rotatedWithdrawal : List (Contract.Call Nat (List UInt8) (Nat → Nat → Nat)) :=
  let id := Contract.withdrawalRequestId (Contract.plainConfig 0) 7 5 0
  [.setGuardiansAndThreshold 3 [1,2] 2,.attestWithdrawal 1 id 7 5 0,.setGuardiansAndThreshold 3 [3,4] 2,
    .attestWithdrawal 3 id 7 5 0]

theorem completed_by_rotated_vote :
    (let s := run (Pallet.step Pallet.plainConfig) (Pallet.genesis (0,fun _ => 0)) rotatedDeposit
     let id := Pallet.depositRequestId Pallet.plainConfig 7 5 0
     (s.deposits.lookup id).any (·.status = .completed) = true ∧ s.approveThreshold = 2 ∧ Pallet.currentVoters s id = {3}) ∧
    (let s := run (Contract.step (Contract.plainConfig 0)) Contract.funded rotatedWithdrawal
     let id := Contract.withdrawalRequestId (Contract.plainConfig 0) 7 5 0
     (s.withdrawals.lookup id).any (·.status = .completed) = true ∧ s.approveThreshold = 2 ∧ Contract.currentVoters s id = {3}) := by
  decide +kernel

theorem completed_before_rotation :
    Throughout (Pallet.step Pallet.plainConfig) (Pallet.CompletesWithQuorum Pallet.plainConfig) (Pallet.genesis (0,fun _ => 0))
      (rotatedDeposit.take 3 ++ [.attestDeposit (.signed 2) (Pallet.depositRequestId Pallet.plainConfig 7 5 0) 7 5 0]) ∧
    Throughout (Contract.step (Contract.plainConfig 0)) (Contract.CompletesWithQuorum (Contract.plainConfig 0)) Contract.funded
      (rotatedWithdrawal.take 2 ++ [.attestWithdrawal 2 (Contract.withdrawalRequestId (Contract.plainConfig 0) 7 5 0) 7 5 0]) :=
  have both := completed_by_current_quorum Pallet.plainConfig (Pallet.genesis (0,fun _ => 0)) _
    (Contract.plainConfig 0) Contract.funded rfl _
  ⟨both.1 (by decide +kernel),both.2 (by decide +kernel)⟩

end TheBrain.Bridge
