import TheBrain.Bridge.ContractRuns
import TheBrain.Bridge.PalletRuns

namespace TheBrain.Bridge
open Library Machine Words

variable {A Hash B Chain : Type} [DecidableEq A] [DecidableEq Hash]

structure Agrees (pallet : Pallet.Config A Hash B) (contract : Contract.Config A Hash Chain) : Prop where
  hash : contract.blake2x256 = pallet.blake2256
  codec : contract.asRef = pallet.encode
  width : ∀ account, (pallet.encode account).length = 32

def Agrees.account {pallet : Pallet.Config A Hash B} {contract : Contract.Config A Hash Chain}
    (agrees : Agrees pallet contract) (account : A) : {bytes : List UInt8 // bytes.length = 32} :=
  ⟨pallet.encode account,agrees.width account⟩

variable {pallet : Pallet.Config A Hash B} {contract : Contract.Config A Hash Chain}

theorem converts (amount : Word 64) : checkedMul 128 amount halphaRaoPerAlphaRao = some (amount * halphaRaoPerAlphaRao) := by
  refine checkedMul_some.mpr ⟨?_,rfl⟩
  unfold halphaRaoPerAlphaRao
  omega

def converted (amount : Word 64) : Word 128 := ⟨amount * halphaRaoPerAlphaRao,(checkedMul_some.mp (converts amount)).1⟩

-- The id under which the contract stores a deposit is the one the pallet recomputes from
-- the recipient, the converted amount and the nonce of the stored request.
theorem deposit_stored (agrees : Agrees pallet contract) {c d : Contract.State A Hash Chain} {amount : Word 64}
    (ran : Contract.deposit contract c caller amount hotkey = .ok d) :
    ∃ request, d.depositRequests.lookup
        (Pallet.depositRequestId pallet request.recipient (converted amount) request.nonce) = some request ∧
      request.recipient = caller ∧ request.amount = amount ∧ request.nonce = c.nextDepositNonce := by
  obtain ⟨_,_,_,_,_,_,_,_,_,_,_,rfl⟩ := Contract.deposit_ok ran
  have same : Contract.depositRequestId contract caller (amount * halphaRaoPerAlphaRao) c.nextDepositNonce =
      Pallet.depositRequestId pallet caller (converted amount) c.nextDepositNonce := by
    unfold Contract.depositRequestId Pallet.depositRequestId
    rw [agrees.hash,agrees.codec]
    rfl
  refine ⟨⟨caller,caller,amount,c.nextDepositNonce,hotkey,c.chainId,.requested,c.blockNumber⟩,?_,rfl,rfl,rfl⟩
  rw [← same]
  exact AList.lookup_insert _

theorem withdrawal_stored (agrees : Agrees pallet contract) {s t : Pallet.State A Hash B} {amount : Word 128}
    (ran : Pallet.withdraw pallet s (.signed sender) amount = .ok t)
    (narrow : (amount : Nat) / halphaRaoPerAlphaRao < 2 ^ 64) :
    ∃ (alpha : Word 64) (request : Pallet.WithdrawalRequest A),
      (alpha : Nat) = amount / halphaRaoPerAlphaRao ∧ (amount : Nat) = alpha * halphaRaoPerAlphaRao ∧
      t.withdrawalRequests.lookup (Contract.withdrawalRequestId contract request.recipient alpha request.nonce) = some request ∧
      request.recipient = sender ∧ request.amount = amount ∧ request.nonce = s.nextWithdrawalRequestNonce := by
  obtain ⟨_,_,id,signed,_,_,whole,_,_,_,named,rfl⟩ := Pallet.withdraw_ok ran
  cases signed
  have same : Contract.withdrawalRequestId contract sender (amount / halphaRaoPerAlphaRao) s.nextWithdrawalRequestNonce = id := by
    unfold Contract.withdrawalRequestId
    rw [agrees.hash,agrees.codec,named]
  refine ⟨⟨amount / halphaRaoPerAlphaRao,narrow⟩,
    ⟨sender,sender,amount,s.nextWithdrawalRequestNonce,.requested,s.blockNumber⟩,rfl,?_,?_,rfl,rfl,rfl⟩
  · exact (Nat.div_mul_cancel (Nat.dvd_of_mod_eq_zero whole)).symm
  · rw [same]
    exact AList.lookup_insert _

theorem request_ids_agree (pallet : Pallet.Config A Hash B) (contract : Contract.Config A Hash Chain)
    (agrees : Agrees pallet contract) :
    (∀ account (amount nonce : Word 64), checkedMul 128 amount halphaRaoPerAlphaRao = some (converted amount : Nat) ∧
      Contract.depositRequestId contract account (converted amount) nonce =
        Pallet.depositRequestId pallet account (converted amount) nonce) ∧
    (∀ (c d : Contract.State A Hash Chain) caller (amount : Word 64) hotkey,
      Contract.deposit contract c caller amount hotkey = .ok d →
      ∃ request, d.depositRequests.lookup
          (Pallet.depositRequestId pallet request.recipient (converted amount) request.nonce) = some request ∧
        request.recipient = caller ∧ request.amount = amount ∧ request.nonce = c.nextDepositNonce) ∧
    (∀ (s t : Pallet.State A Hash B) sender (amount : Word 128),
      Pallet.withdraw pallet s (.signed sender) amount = .ok t → (amount : Nat) / halphaRaoPerAlphaRao < 2 ^ 64 →
      ∃ (alpha : Word 64) (request : Pallet.WithdrawalRequest A),
        (alpha : Nat) = amount / halphaRaoPerAlphaRao ∧ (amount : Nat) = alpha * halphaRaoPerAlphaRao ∧
        t.withdrawalRequests.lookup (Contract.withdrawalRequestId contract request.recipient alpha request.nonce) = some request ∧
        request.recipient = sender ∧ request.amount = amount ∧ request.nonce = s.nextWithdrawalRequestNonce) ∧
    (∀ account (amount : Word 128) (nonce : Word 64),
      Pallet.depositRequestId pallet account amount nonce =
        pallet.blake2256 (Request.deposit (agrees.account account) amount nonce).preimage ∧
      Contract.withdrawalRequestId contract account amount nonce =
        pallet.blake2256 (Request.withdrawal (agrees.account account) amount nonce).preimage ∧
      Pallet.stakingRewardTransferId pallet amount nonce = pallet.blake2256 (Request.reward amount nonce).preimage) ∧
    Function.Injective Request.preimage := by
  refine ⟨?_,?_,?_,?_,Request.preimage_injective⟩
  · intro account amount nonce
    refine ⟨converts amount,?_⟩
    unfold Contract.depositRequestId Pallet.depositRequestId
    rw [agrees.hash,agrees.codec]
  · intro c d caller amount hotkey ran
    exact deposit_stored agrees ran
  · intro s t sender amount ran narrow
    exact withdrawal_stored agrees ran narrow
  · intro account amount nonce
    refine ⟨rfl,?_,rfl⟩
    unfold Contract.withdrawalRequestId
    rw [agrees.hash,agrees.codec]
    rfl

theorem plain_agrees : Agrees Pallet.plainConfig (Contract.plainConfig 0) := ⟨rfl,rfl,fun account => leBytes_length 32 account⟩

theorem request_ids_agree_withdrawn : let s : Pallet.State Nat (List UInt8) (Nat × (Nat → Nat)) :=
      {Pallet.genesis (10000000000,fun _ => 10000000000) with totalMintedByBridge:=10000000000}
    ∃ t : Pallet.State Nat (List UInt8) (Nat × (Nat → Nat)),
      Pallet.withdraw Pallet.plainConfig s (.signed 7) 3000000000 = .ok t ∧
        ∃ request, t.withdrawalRequests.lookup
          (Contract.withdrawalRequestId (Contract.plainConfig 0) request.recipient 3 request.nonce) = some request := by
  intro s
  have ran : ∃ t, Pallet.withdraw Pallet.plainConfig s (.signed 7) 3000000000 = .ok t := ⟨_,rfl⟩
  obtain ⟨t,done⟩ := ran
  obtain ⟨alpha,request,exact,_,stored,_⟩ :=
    (request_ids_agree Pallet.plainConfig (Contract.plainConfig 0) plain_agrees).2.2.1 s t 7 3000000000 done (by decide)
  have three : (alpha : Nat) = 3 := exact
  rw [three] at stored
  exact ⟨t,done,request,stored⟩

end TheBrain.Bridge
