import TheBrain.Library.Words

namespace TheBrain.Bridge
open Library.Words List

-- Both chains name a request by the hash of the same layout: a domain separator,
-- the account, the amount on the destination chain as a u128 and the nonce as a
-- u64, the two numbers little-endian.
def domainDepositRequest : List UInt8 := ascii "DEPOSIT_REQUEST-V1"
def domainWithdrawalRequest : List UInt8 := ascii "WITHDRAWAL_REQUEST-V1"
def domainStakingRewardTransfer : List UInt8 := ascii "STAKING_REWARD_TRANSFER-V1"

-- 1 alphaRao = 1_000_000_000 halphaRao
def halphaRaoPerAlphaRao : Nat := 1000000000

def requestBytes (domain account : List UInt8) (amount nonce : Nat) : List UInt8 :=
  domain ++ account ++ leBytes 16 amount ++ leBytes 8 nonce

-- The amount stands at a fixed distance from the end, so equal layouts carry equal
-- amounts and nonces whatever the domain and the account encoding are.
theorem requestBytes_amount (ha : amount < 2 ^ 128) (hb : amount' < 2 ^ 128)
    (same : requestBytes domain account amount nonce = requestBytes domain' account' amount' nonce') :
    amount = amount' := by
  obtain ⟨front,_⟩ := append_inj' same (by simp)
  obtain ⟨_,amounts⟩ := append_inj' front (by simp)
  exact leBytes_injective 16 (by simpa using ha) (by simpa using hb) amounts

-- What the bridge hashes into an id: a deposit or a withdrawal of an account, which is 32
-- bytes on either chain, or a reward transfer, which names no account.
inductive Request where
  | deposit (account : {bytes : List UInt8 // bytes.length = 32}) (amount : Word 128) (nonce : Word 64)
  | withdrawal (account : {bytes : List UInt8 // bytes.length = 32}) (amount : Word 128) (nonce : Word 64)
  | reward (amount : Word 128) (nonce : Word 64)

def Request.preimage : Request → List UInt8
  | .deposit account amount nonce => requestBytes domainDepositRequest account amount nonce
  | .withdrawal account amount nonce => requestBytes domainWithdrawalRequest account amount nonce
  | .reward amount nonce => domainStakingRewardTransfer ++ leBytes 16 amount ++ leBytes 8 nonce

theorem numbers_injective {front front' : List UInt8} {amount amount' : Word 128} {nonce nonce' : Word 64}
    (same : front ++ leBytes 16 amount ++ leBytes 8 nonce = front' ++ leBytes 16 amount' ++ leBytes 8 nonce') :
    front = front' ∧ amount = amount' ∧ nonce = nonce' := by
  obtain ⟨rest,nonces⟩ := append_inj' same (by simp)
  obtain ⟨fronts,amounts⟩ := append_inj' rest (by simp)
  refine ⟨fronts,Fin.ext ?_,Fin.ext ?_⟩
  · exact leBytes_injective 16 (by simp) (by simp) amounts
  · exact leBytes_injective 8 (by simp) (by simp) nonces

theorem Request.preimage_length (request : Request) :
    request.preimage.length = match request with
      | .deposit .. => 74
      | .withdrawal .. => 77
      | .reward .. => 50 := by
  cases request with
  | deposit account => simp [Request.preimage,requestBytes,account.2,domainDepositRequest,ascii]
  | withdrawal account => simp [Request.preimage,requestBytes,account.2,domainWithdrawalRequest,ascii]
  | reward => simp [Request.preimage,domainStakingRewardTransfer,ascii]

theorem Request.preimage_injective : Function.Injective Request.preimage := by
  intro one two same
  have lengths := (Request.preimage_length one).symm.trans ((congrArg length same).trans (Request.preimage_length two))
  cases one with
  | deposit =>
    cases two with
    | deposit =>
      obtain ⟨fronts,rfl,rfl⟩ := numbers_injective same
      rw [Subtype.ext (append_cancel_left fronts)]
    | withdrawal | reward => cases lengths
  | withdrawal =>
    cases two with
    | withdrawal =>
      obtain ⟨fronts,rfl,rfl⟩ := numbers_injective same
      rw [Subtype.ext (append_cancel_left fronts)]
    | deposit | reward => cases lengths
  | reward =>
    cases two with
    | reward =>
      obtain ⟨_,rfl,rfl⟩ := numbers_injective same
      rfl
    | deposit | withdrawal => cases lengths

end TheBrain.Bridge
