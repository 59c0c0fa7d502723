import TheBrain.Bridge.ContractRuns
import TheBrain.Bridge.PalletRuns

namespace TheBrain.Bridge
open Library Machine Words StorageMap

def Outlived (block ttl finalizedAt : Nat) : Prop := (ttl : Int) ≤ (block : Int) - (finalizedAt : Int)

instance (block ttl finalizedAt : Nat) : Decidable (Outlived block ttl finalizedAt) := inferInstanceAs (Decidable (_ ≤ _))

-- The pallet's guard is a wrapping addition, the contract's a saturating one. On block
-- numbers of the type the first is exact unless it wraps, the second unless it saturates
-- at the last block there is.
theorem outlived_wrapping (block : now < 2 ^ 64) (expired : wrappingAdd 64 finalizedAt ttl ≤ now) :
    Outlived now ttl finalizedAt ↔ finalizedAt + ttl < 2 ^ 64 := by
  unfold Outlived
  constructor
  · intro old
    omega
  · intro exact
    rw [wrappingAdd,Nat.mod_eq_of_lt exact] at expired
    omega

theorem outlived_saturating (block : now < 2 ^ 32) (expired : saturatingAdd 32 finalizedAt ttl ≤ now) :
    Outlived now ttl finalizedAt ↔ finalizedAt + ttl < 2 ^ 32 ∨ now < maxOf 32 := by
  unfold Outlived
  rw [saturatingAdd,maxOf] at expired
  rw [maxOf]
  omega

namespace Pallet
variable {A H B : Type} [DecidableEq A] [DecidableEq H]
variable {cfg : Config A H B} {s t : State A H B} {id : H}

def Removes (cfg : Config A H B) (s : State A H B) (call : Call A H B) (fact : Nat → Prop) : Prop :=
  (∀ id deposit, s.deposits.lookup id = some deposit → (step cfg s call).deposits.lookup id = none →
    ∃ finalizedAt, deposit.finalizedAtBlock = some finalizedAt ∧ fact finalizedAt) ∧
  ∀ id transfer, s.stakingRewardTransfers.lookup id = some transfer →
    (step cfg s call).stakingRewardTransfers.lookup id = none →
    ∃ finalizedAt, transfer.finalizedAtBlock = some finalizedAt ∧ fact finalizedAt

def RemovesAged (cfg : Config A H B) (s : State A H B) (call : Call A H B) : Prop :=
  Removes cfg s call (Outlived s.blockNumber s.cleanupTTLBlocks)

def Call.cleansUp : Call A H B → Bool
  | .cleanupDeposit .. | .cleanupStakingRewardTransfer .. => true
  | _ => false

theorem cleanup_removes (call : Call A H B) (cleans : call.cleansUp = true) :
    Removes cfg s call fun finalizedAt => wrappingAdd 64 finalizedAt s.cleanupTTLBlocks ≤ s.blockNumber := by
  rcases commit_cases s (dispatch cfg s call) with ⟨_,ran,eq⟩ | ⟨_,_,eq⟩
  · unfold Removes
    rw [step,eq]
    cases call with
    | cleanupDeposit =>
      obtain ⟨_,record,finalizedAt,_,_,stored,_,dated,expired,rfl⟩ := cleanupDeposit_ok.mp ran
      refine ⟨?_,fun id transfer found gone => by cases found.symm.trans gone⟩
      intro id deposit found gone
      simp only [depositEvent,lookup_erase_if] at gone
      split at gone
      · rename_i same
        subst same
        cases stored.symm.trans found
        exact ⟨finalizedAt,dated,expired⟩
      · cases found.symm.trans gone
    | cleanupStakingRewardTransfer =>
      obtain ⟨_,finalizedAt,stored,dated,expired,rfl⟩ := cleanupStakingRewardTransfer_ok ran
      refine ⟨fun id deposit found gone => (by cases found.symm.trans gone),?_⟩
      intro id transfer found gone
      simp only [depositEvent,lookup_erase_if] at gone
      split at gone
      · rename_i same
        subst same
        cases stored.symm.trans found
        exact ⟨finalizedAt,dated,expired⟩
      · cases found.symm.trans gone
    | _ => cases cleans
  · unfold Removes
    rw [step,eq]
    constructor
    · intro id deposit found gone
      cases found.symm.trans gone
    · intro id transfer found gone
      cases found.symm.trans gone

end Pallet

namespace Contract
variable {A Hash Chain : Type} [DecidableEq A] [DecidableEq Hash]
variable {cfg : Config A Hash Chain} {s : State A Hash Chain}

def Removes (cfg : Config A Hash Chain) (s : State A Hash Chain) (call : Call A Hash Chain) (fact : Nat → Prop) : Prop :=
  ∀ id withdrawal, s.withdrawals.lookup id = some withdrawal → (step cfg s call).withdrawals.lookup id = none →
    ∃ finalizedAt, withdrawal.finalizedAtBlock = some finalizedAt ∧ fact finalizedAt

def RemovesAged (cfg : Config A Hash Chain) (s : State A Hash Chain) (call : Call A Hash Chain) : Prop :=
  Removes cfg s call (Outlived s.blockNumber s.cleanupTTLBlocks)

theorem cleanup_removes (caller : A) (named : Hash) :
    Removes cfg s (.cleanupWithdrawal caller named) fun finalizedAt =>
      saturatingAdd 32 finalizedAt s.cleanupTTLBlocks ≤ s.blockNumber := by
  intro id withdrawal found gone
  rcases commit_cases s (dispatch cfg s (.cleanupWithdrawal caller named)) with ⟨_,ran,eq⟩ | ⟨_,_,eq⟩
  · rw [step,eq] at gone
    obtain ⟨_,finalizedAt,_,stored,_,dated,expired,rfl⟩ := cleanupWithdrawal_ok ran
    simp only [emitEvent,lookup_erase_if] at gone
    split at gone
    · rename_i same
      subst same
      cases stored.symm.trans found
      exact ⟨finalizedAt,dated,expired⟩
    · cases found.symm.trans gone
  · rw [step,eq] at gone
    cases found.symm.trans gone

end Contract

-- A record that a cleanup of either chain takes away has lived for its whole TTL exactly
-- when the guard's addition stays within the block number type.
theorem records_outlive_ttl {A H B Hash Chain : Type} [DecidableEq A] [DecidableEq H] [DecidableEq Hash]
    (pallet : Pallet.Config A H B) (s : Pallet.State A H B) (block : s.blockNumber < 2 ^ 64)
    (contract : Contract.Config A Hash Chain) (c : Contract.State A Hash Chain) (blockHere : c.blockNumber < 2 ^ 32)
    (call : Pallet.Call A H B) (cleans : call.cleansUp = true) (caller : A) (named : Hash) :
    Pallet.Removes pallet s call (fun finalizedAt =>
        Outlived s.blockNumber s.cleanupTTLBlocks finalizedAt ↔ finalizedAt + s.cleanupTTLBlocks < 2 ^ 64) ∧
      Contract.Removes contract c (.cleanupWithdrawal caller named) fun finalizedAt =>
        Outlived c.blockNumber c.cleanupTTLBlocks finalizedAt ↔
          finalizedAt + c.cleanupTTLBlocks < 2 ^ 32 ∨ c.blockNumber < maxOf 32 := by
  have removed : Pallet.Removes pallet s call _ := Pallet.cleanup_removes call cleans
  refine ⟨⟨?_,?_⟩,?_⟩
  · intro id deposit found gone
    obtain ⟨finalizedAt,dated,expired⟩ := removed.1 id deposit found gone
    exact ⟨finalizedAt,dated,outlived_wrapping block expired⟩
  · intro id transfer found gone
    obtain ⟨finalizedAt,dated,expired⟩ := removed.2 id transfer found gone
    exact ⟨finalizedAt,dated,outlived_wrapping block expired⟩
  · intro id withdrawal found gone
    obtain ⟨finalizedAt,dated,expired⟩ := Contract.cleanup_removes caller named id withdrawal found gone
    exact ⟨finalizedAt,dated,outlived_saturating blockHere expired⟩

-- A deposit, a reward transfer and a withdrawal are finalised in block 1, and the largest
-- TTL is set. In the pallet 1 plus the TTL is 0; in the contract it is the last block.
def longLived : List (Pallet.Call Nat (List UInt8) (Nat × (Nat → Nat))) :=
  [.setGuardiansAndThreshold .root [1] 1,.setGlobalMintCap .root 1000,.addRewardBridgeWhitelist .root 1,.initializeBlock 1,
    .attestDeposit (.signed 1) (Pallet.depositRequestId Pallet.plainConfig 7 5 0) 7 5 0,
    .proposeStakingRewardTransfer (.signed 1) 3,.setCleanupTTL .root (Fin.last _)]

def longLivedWithdrawal : List (Contract.Call Nat (List UInt8) (Nat → Nat → Nat)) :=
  [.setGuardiansAndThreshold 3 [1] 1,.nextBlock 1,
    .attestWithdrawal 1 (Contract.withdrawalRequestId (Contract.plainConfig 0) 7 5 0) 7 5 0,
    .setCleanupTTL 3 (Fin.last _),.nextBlock (Fin.last _)]

theorem records_removed_early :
    let s := run (Pallet.step Pallet.plainConfig) (Pallet.genesis (0,fun _ => 0)) longLived
    let c := run (Contract.step (Contract.plainConfig 0)) Contract.funded longLivedWithdrawal
    ¬ Pallet.RemovesAged Pallet.plainConfig s (.cleanupDeposit (.signed 1) (Pallet.depositRequestId Pallet.plainConfig 7 5 0)) ∧
      ¬ Pallet.RemovesAged Pallet.plainConfig s
        (.cleanupStakingRewardTransfer (.signed 1) (Pallet.stakingRewardTransferId Pallet.plainConfig 3 0)) ∧
      ¬ Contract.RemovesAged (Contract.plainConfig 0) c
        (.cleanupWithdrawal 1 (Contract.withdrawalRequestId (Contract.plainConfig 0) 7 5 0)) := by
  refine ⟨?_,?_,?_⟩
  · intro aged
    obtain ⟨_,dated,old⟩ := aged.1 (Pallet.depositRequestId Pallet.plainConfig 7 5 0)
      ⟨_,7,5,{1},.completed,1,some 1⟩ (by rfl) (by rfl)
    cases dated
    exact absurd old (by decide +kernel)
  · intro aged
    obtain ⟨_,dated,old⟩ := aged.2 (Pallet.stakingRewardTransferId Pallet.plainConfig 3 0)
      ⟨_,3,{1},.completed,1,some 1⟩ (by rfl) (by rfl)
    cases dated
    exact absurd old (by decide +kernel)
  · intro aged
    obtain ⟨_,dated,old⟩ := aged (Contract.withdrawalRequestId (Contract.plainConfig 0) 7 5 0) _ (by rfl) (by rfl)
    cases dated
    exact absurd old (by decide +kernel)

theorem records_outlive_ttl_default :
    let s := run (Pallet.step Pallet.plainConfig) (Pallet.genesis (0,fun _ => 0)) (Pallet.reattested.take 4)
    let c := run (Contract.step (Contract.plainConfig 0)) Contract.funded (Contract.reattested.take 3)
    Pallet.Removes Pallet.plainConfig s (.cleanupDeposit (.signed 1) (Pallet.depositRequestId Pallet.plainConfig 7 5 0))
        (fun finalizedAt => Outlived s.blockNumber s.cleanupTTLBlocks finalizedAt ↔ finalizedAt + s.cleanupTTLBlocks < 2 ^ 64) ∧
      Contract.Removes (Contract.plainConfig 0) c (.cleanupWithdrawal 1 (Contract.withdrawalRequestId (Contract.plainConfig 0) 7 5 0))
        fun finalizedAt => Outlived c.blockNumber c.cleanupTTLBlocks finalizedAt ↔
          finalizedAt + c.cleanupTTLBlocks < 2 ^ 32 ∨ c.blockNumber < maxOf 32 :=
  records_outlive_ttl Pallet.plainConfig _ (by decide +kernel) (Contract.plainConfig 0) _ (by decide +kernel) _ rfl 1 _

end TheBrain.Bridge
