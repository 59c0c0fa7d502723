import TheBrain.Bridge.ContractRuns
import TheBrain.Bridge.PalletRuns

namespace TheBrain.Bridge.Backing
open Library Machine Words StorageMap

-- Both programs with one collision-free hash. Account encodings need not agree: the
-- amounts are compared through the fixed tail of the hashed layout.
structure System (A Hash B Chain : Type) [DecidableEq A] where
  pallet : Pallet.Config A Hash B
  contract : Contract.Config A Hash Chain
  same_hash : contract.blake2x256 = pallet.blake2256
  collision_free : Function.Injective pallet.blake2256

structure Joint (A Hash B Chain : Type) where
  pallet : Pallet.State A Hash B
  contract : Contract.State A Hash Chain

variable {A Hash B Chain : Type} [DecidableEq A]

def Commits (sys : System A Hash B Chain) (domain : List UInt8) (id : Hash) (amount : Nat) : Prop :=
  amount < 2 ^ 128 ∧ ∃ account nonce, id = sys.pallet.blake2256 (requestBytes domain account amount nonce)

theorem commits_unique {sys : System A Hash B Chain} {id : Hash} (one : Commits sys domain id amount)
    (two : Commits sys domain' id amount') : amount = amount' := by
  obtain ⟨fits,_,_,rfl⟩ := one
  obtain ⟨fits',_,_,same⟩ := two
  exact requestBytes_amount fits fits' (sys.collision_free same)

variable [DecidableEq Hash]

def step (sys : System A Hash B Chain) (j : Joint A Hash B Chain) :
    Pallet.Call A Hash B ⊕ Contract.Call A Hash Chain → Joint A Hash B Chain
  | .inl call => {j with pallet:=Pallet.step sys.pallet j.pallet call}
  | .inr call => {j with contract:=Contract.step sys.contract j.contract call}

def held (sys : System A Hash B Chain) (c : Contract.State A Hash Chain) : Nat :=
  sys.contract.stake c.chain sys.contract.accountId c.contractHotkey

-- The user flow and time on both chains. Guardians attest what is recorded on the
-- source chain; outside the bridge hAlpha moves freely and nothing lowers the
-- contract's stake. No admin message, reward transfer or cleanup is a step.
def Permitted (sys : System A Hash B Chain) (j : Joint A Hash B Chain) :
    Pallet.Call A Hash B ⊕ Contract.Call A Hash Chain → Prop
  | .inl (.attestDeposit _ id _ _ _) => (j.contract.depositRequests.lookup id).isSome
  | .inl (.withdraw ..) | .inl (.initializeBlock ..) | .inl (.elsewhere ..) => True
  | .inr (.deposit ..) | .inr (.nextBlock ..) => True
  | .inr (.attestWithdrawal _ id _ _ _) => (j.pallet.withdrawalRequests.lookup id).isSome
  | .inr (.elsewhere chain) => held sys j.contract ≤ held sys {j.contract with chain:=chain}
  | _ => False

-- Nothing recorded and nothing minted yet; the contract as its constructor sets the
-- minimum deposit, with any guardians, thresholds, caps, balances and stakes.
structure Started (j : Joint A Hash B Chain) : Prop where
  events : j.pallet.events = []
  deposits : j.pallet.deposits = ∅
  withdrawalRequests : j.pallet.withdrawalRequests = ∅
  totalMinted : j.pallet.totalMintedByBridge = 0
  depositRequests : j.contract.depositRequests = ∅
  withdrawals : j.contract.withdrawals = ∅
  nonce : j.contract.nextDepositNonce = 0
  minimum : j.contract.minDepositAmount = 1000000000

def Released (c : Contract.State A Hash Chain) (id : Hash) : Prop :=
  (c.withdrawals.lookup id).any (·.status = .completed) = true

instance (c : Contract.State A Hash Chain) (id : Hash) : Decidable (Released c id) :=
  inferInstanceAs (Decidable (_ = true))

def Arrives (sys : System A Hash B Chain) (shortfall : Nat) (j : Joint A Hash B Chain) :
    Pallet.Call A Hash B ⊕ Contract.Call A Hash Chain → Prop
  | .inr (.deposit caller amount hotkey) => ∀ c, Contract.deposit sys.contract j.contract caller amount hotkey = .ok c →
      held sys j.contract + amount ≤ held sys c + shortfall
  | _ => True

def locked (c : Contract.State A Hash Chain) : Nat :=
  StorageMap.total (fun _ request => request.amount) c.depositRequests
def releasedTotal (c : Contract.State A Hash Chain) : Nat :=
  StorageMap.total (fun _ withdrawal => if withdrawal.status = .completed then withdrawal.amount else 0) c.withdrawals
def minted (p : Pallet.State A Hash B) : Nat :=
  StorageMap.total (fun _ deposit => if deposit.status = .completed then deposit.amount else 0) p.deposits
def requestedTotal (p : Pallet.State A Hash B) : Nat :=
  StorageMap.total (fun _ request => request.amount) p.withdrawalRequests

-- Burns are counted in the event log. The request storage could lose one: its nonce
-- saturates, so after 2 ^ 64 withdrawals an id may be written twice.
def burnedBy : Pallet.Event A Hash → Nat
  | .withdrawalRequestCreated _ _ _ amount => amount
  | _ => 0

def burned (p : Pallet.State A Hash B) : Nat := (p.events.map burnedBy).sum

def outstanding (j : Joint A Hash B Chain) : Nat :=
  burned j.pallet / halphaRaoPerAlphaRao - releasedTotal j.contract

-- The joint invariant: every record carries the amount its id commits to, destination
-- records have a source record, and the four totals are in balance.
structure Balanced (sys : System A Hash B Chain) (shortfall : Nat) (j : Joint A Hash B Chain) :
    Prop where
  requested : ∀ id request, j.contract.depositRequests.lookup id = some request →
    Commits sys domainDepositRequest id (request.amount * halphaRaoPerAlphaRao)
  deposited : ∀ id deposit, j.pallet.deposits.lookup id = some deposit →
    (j.contract.depositRequests.lookup id).isSome ∧ Commits sys domainDepositRequest id deposit.amount
  withdrawing : ∀ id request, j.pallet.withdrawalRequests.lookup id = some request →
    request.amount % halphaRaoPerAlphaRao = 0 ∧
      Commits sys domainWithdrawalRequest id (request.amount / halphaRaoPerAlphaRao)
  withdrawn : ∀ id withdrawal, j.contract.withdrawals.lookup id = some withdrawal →
    (j.pallet.withdrawalRequests.lookup id).isSome ∧ Commits sys domainWithdrawalRequest id withdrawal.amount
  minimum : j.contract.minDepositAmount = 1000000000
  stake : locked j.contract ≤ held sys j.contract + shortfall * j.contract.nextDepositNonce + releasedTotal j.contract
  issued : j.pallet.totalMintedByBridge + burned j.pallet ≤ minted j.pallet
  logged : requestedTotal j.pallet ≤ burned j.pallet

variable {sys : System A Hash B Chain} {j : Joint A Hash B Chain} {shortfall : Nat} {id other : Hash}

theorem started_balanced (started : Started j) : Balanced sys shortfall j where
  requested := by simp [started.depositRequests]
  deposited := by simp [started.deposits]
  withdrawing := by simp [started.withdrawalRequests]
  withdrawn := by simp [started.withdrawals]
  minimum := started.minimum
  stake := by simp [locked,started.depositRequests]
  issued := by simp [burned,started.events,started.totalMinted]
  logged := by simp [requestedTotal,started.withdrawalRequests]

theorem minted_le (balanced : Balanced sys shortfall j) : minted j.pallet ≤ locked j.contract * halphaRaoPerAlphaRao := by
  rw [locked,← total_mul]
  refine total_le _ _ _ _ ?_
  intro id deposit found
  obtain ⟨recorded,commits⟩ := balanced.deposited id deposit found
  obtain ⟨request,source⟩ := Option.isSome_iff_exists.mp recorded
  have same := commits_unique commits (balanced.requested id request source)
  rw [source]
  split
  · exact same.le
  · exact Nat.zero_le _

def releasedPart (j : Joint A Hash B Chain) (id : Hash) (request : Pallet.WithdrawalRequest A) : Nat :=
  if Released j.contract id then request.amount / halphaRaoPerAlphaRao else 0

def unreleasedPart (j : Joint A Hash B Chain) (id : Hash) (request : Pallet.WithdrawalRequest A) : Nat :=
  if Released j.contract id then 0 else request.amount / halphaRaoPerAlphaRao

section
variable (balanced : Balanced sys shortfall j)
include balanced

theorem released_le :
    releasedTotal j.contract + StorageMap.total (unreleasedPart j) j.pallet.withdrawalRequests ≤
      burned j.pallet / halphaRaoPerAlphaRao := by
  have covered : releasedTotal j.contract ≤ total (releasedPart j) j.pallet.withdrawalRequests := by
    refine total_le _ _ _ _ ?_
    intro id withdrawal found
    obtain ⟨recorded,commits⟩ := balanced.withdrawn id withdrawal found
    obtain ⟨request,source⟩ := Option.isSome_iff_exists.mp recorded
    have same := commits_unique commits (balanced.withdrawing id request source).2
    rw [source]
    split
    · rename_i completed
      have released : Released j.contract id := by simp [Released,found,completed]
      simp [releasedPart,released,same]
    · exact Nat.zero_le _
  have parts : total (releasedPart j) j.pallet.withdrawalRequests +
      total (unreleasedPart j) j.pallet.withdrawalRequests =
        total (fun _ request => request.amount / halphaRaoPerAlphaRao) j.pallet.withdrawalRequests := by
    rw [← total_add]
    congr 1
    funext id request
    unfold releasedPart unreleasedPart
    split <;> simp
  have scaled : total (fun _ request => request.amount / halphaRaoPerAlphaRao) j.pallet.withdrawalRequests *
      halphaRaoPerAlphaRao ≤ requestedTotal j.pallet := by
    rw [← total_mul]
    refine total_le _ _ _ _ ?_
    intro id request found
    rw [found]
    exact Nat.div_mul_le_self _ _
  rw [Nat.le_div_iff_mul_le (by decide)]
  calc (releasedTotal j.contract + total (unreleasedPart j) j.pallet.withdrawalRequests) * halphaRaoPerAlphaRao
      ≤ total (fun _ request => request.amount / halphaRaoPerAlphaRao) j.pallet.withdrawalRequests *
          halphaRaoPerAlphaRao := Nat.mul_le_mul_right _ (by omega)
    _ ≤ requestedTotal j.pallet := scaled
    _ ≤ burned j.pallet := balanced.logged

theorem unreleased_le (found : j.pallet.withdrawalRequests.lookup id = some request)
    (unreleased : ¬ Released j.contract id) : request.amount / halphaRaoPerAlphaRao ≤ outstanding j := by
  have part := StorageMap.le_total (unreleasedPart j) _ found
  rw [unreleasedPart,if_neg unreleased] at part
  have releases := released_le balanced
  unfold outstanding
  omega

theorem balanced_backed :
    j.pallet.totalMintedByBridge / halphaRaoPerAlphaRao + outstanding j ≤
      held sys j.contract + shortfall * j.contract.nextDepositNonce := by
  have locks := minted_le balanced
  have releases := released_le balanced
  have issued := balanced.issued
  have stake := Nat.mul_le_mul_right halphaRaoPerAlphaRao balanced.stake
  have totals := Nat.div_mul_le_self j.pallet.totalMintedByBridge halphaRaoPerAlphaRao
  have burns := Nat.div_mul_le_self (burned j.pallet) halphaRaoPerAlphaRao
  have scaled : (j.pallet.totalMintedByBridge / halphaRaoPerAlphaRao + burned j.pallet / halphaRaoPerAlphaRao) *
      halphaRaoPerAlphaRao ≤
        (held sys j.contract + shortfall * j.contract.nextDepositNonce + releasedTotal j.contract) * halphaRaoPerAlphaRao := by
    rw [Nat.add_mul]
    omega
  have unscaled := Nat.le_of_mul_le_mul_right scaled (by decide)
  unfold outstanding
  omega

end

section
omit [DecidableEq A]

theorem minted_insert {p q : Pallet.State A Hash B} (stored : q.deposits = p.deposits.insert id deposit)
    (unsettled : ∀ old, p.deposits.lookup id = some old → old.status = .pending) :
    minted q = minted p + if deposit.status = .completed then deposit.amount else 0 := by
  rw [minted,minted,stored]
  cases found : p.deposits.lookup id with
  | none => exact total_create _ _ found
  | some old =>
    have replaced := total_replace (v := deposit)
      (fun _ deposit => if deposit.status = .completed then deposit.amount else 0) p.deposits found
    simpa [unsettled old found] using replaced

theorem releasedTotal_insert {c d : Contract.State A Hash Chain} (stored : d.withdrawals = c.withdrawals.insert id withdrawal)
    (unsettled : ∀ old, c.withdrawals.lookup id = some old → old.status = .pending) :
    releasedTotal d = releasedTotal c + if withdrawal.status = .completed then withdrawal.amount else 0 := by
  rw [releasedTotal,releasedTotal,stored]
  cases found : c.withdrawals.lookup id with
  | none => exact total_create _ _ found
  | some old =>
    have replaced := total_replace (v := withdrawal)
      (fun _ withdrawal => if withdrawal.status = .completed then withdrawal.amount else 0) c.withdrawals found
    simpa [unsettled old found] using replaced

theorem isSome_insert {V : Type} (m : StorageMap Hash V) (k : Hash) (v : V) (known : (m.lookup other).isSome) :
    ((m.insert k v).lookup other).isSome := by
  rw [lookup_insert_if]
  split
  · rfl
  · exact known

end

theorem withdraw_balanced (balanced : Balanced sys shortfall j) (ran : Pallet.withdraw sys.pallet j.pallet origin amount = .ok p) :
    Balanced sys shortfall {j with pallet:=p} := by
  obtain ⟨sender,_,id,_,_,_,whole,fits,_,_,named,rfl⟩ := Pallet.withdraw_ok ran
  let request : Pallet.WithdrawalRequest A :=
    {sender:=sender,recipient:=sender,amount:=amount,nonce:=j.pallet.nextWithdrawalRequestNonce,status:=.requested,
      createdAtBlock:=j.pallet.blockNumber}
  have grown : total (fun _ request => request.amount) (j.pallet.withdrawalRequests.insert id request) ≤
      requestedTotal j.pallet + amount := total_insert_le _ _
  have logged : ((j.pallet.events ++ [Pallet.Event.withdrawalRequestCreated id sender sender amount]).map burnedBy).sum =
      burned j.pallet + amount := by simp [burned,burnedBy]
  refine {balanced with withdrawing:=?_,withdrawn:=?_,issued:=?_,logged:=?_}
  · intro other request found
    rcases insert_cases found with ⟨same,rfl⟩ | ⟨_,found⟩
    · exact ⟨whole,lt_of_le_of_lt (Nat.div_le_self _ _) fits,_,_,same.trans named⟩
    · exact balanced.withdrawing other request found
  · intro other withdrawal found
    obtain ⟨recorded,commits⟩ := balanced.withdrawn other withdrawal found
    exact ⟨isSome_insert _ _ _ recorded,commits⟩
  · have issued := balanced.issued
    change j.pallet.totalMintedByBridge - amount +
      ((j.pallet.events ++ [Pallet.Event.withdrawalRequestCreated id sender sender amount]).map burnedBy).sum ≤ minted j.pallet
    omega
  · exact grown.trans ((Nat.add_le_add_right balanced.logged amount).trans logged.symm.le)

theorem attestDeposit_balanced (balanced : Balanced sys shortfall j)
    (recorded : (j.contract.depositRequests.lookup id).isSome) (fits : amount < 2 ^ 128)
    (ran : Pallet.attestDeposit sys.pallet j.pallet origin id recipient amount nonce = .ok p) :
    Balanced sys shortfall {j with pallet:=p} := by
  obtain ⟨guardian,_,_,_,named,opened,counted⟩ := Pallet.attestDeposit_ok.mp ran
  have commits : Commits sys domainDepositRequest id (Pallet.attested j.pallet guardian id recipient amount).amount := by
    unfold Pallet.attested
    cases found : j.pallet.deposits.lookup id with
    | none => exact ⟨fits,_,_,named.symm⟩
    | some deposit => exact (balanced.deposited id deposit found).2
  have deposited : ∀ (record : Pallet.Deposit A Hash), record.amount = (Pallet.attested j.pallet guardian id recipient amount).amount →
      ∀ other deposit, (j.pallet.deposits.insert id record).lookup other = some deposit →
        (j.contract.depositRequests.lookup other).isSome ∧ Commits sys domainDepositRequest other deposit.amount := by
    intro record same other deposit found
    rcases insert_cases found with ⟨rfl,rfl⟩ | ⟨_,found⟩
    · exact ⟨recorded,same ▸ commits⟩
    · exact balanced.deposited other deposit found
  have unsettled : ∀ old, j.pallet.deposits.lookup id = some old → old.status = .pending := fun old found => (opened old found).1
  rcases Pallet.countVote_ok.mp counted with ⟨_,finalized⟩ | ⟨_,rfl⟩
  · obtain ⟨_,_,accounts,_,rfl⟩ := Pallet.finalizeDeposit_ok.mp finalized
    have quiet : burned (Pallet.credited (Pallet.depositEvent j.pallet (.depositAttested id guardian)) id
        (Pallet.attested j.pallet guardian id recipient amount) accounts) = burned j.pallet := by
      simp [burned,Pallet.credited,Pallet.depositEvent,burnedBy]
    refine {balanced with deposited:=deposited _ rfl,issued:=?_,logged:=balanced.logged.trans quiet.symm.le}
    have grown := minted_insert (p := j.pallet) (q := Pallet.credited (Pallet.depositEvent j.pallet (.depositAttested id guardian)) id
      (Pallet.attested j.pallet guardian id recipient amount) accounts) rfl unsettled
    have issued := balanced.issued
    rw [grown]
    simp only [if_true]
    change j.pallet.totalMintedByBridge + _ + _ ≤ _
    omega
  · have quiet : ((j.pallet.events ++ [Pallet.Event.depositAttested id guardian]).map burnedBy).sum = burned j.pallet := by
      simp [burned,burnedBy]
    refine {balanced with deposited:=deposited _ rfl,issued:=?_,logged:=balanced.logged.trans quiet.symm.le}
    have grown := minted_insert (p := j.pallet) (q := {Pallet.depositEvent j.pallet (.depositAttested id guardian) with
      deposits:=j.pallet.deposits.insert id (Pallet.attested j.pallet guardian id recipient amount)}) rfl unsettled
    exact (Nat.add_le_add_left quiet.le _).trans (balanced.issued.trans ((Nat.le_add_right _ _).trans_eq grown.symm))

-- The contract's own verification lets at most the tolerance go missing, and what
-- arrived on another hotkey is moved to the contract's.
theorem deposit_held {c d : Contract.State A Hash Chain} (minimum : c.minDepositAmount = 1000000000)
    (ran : Contract.deposit sys.contract c sender amount hotkey = .ok d) :
    held sys c + amount ≤ held sys d + Contract.transferTolerance := by
  obtain ⟨arrived,chain,_,_,_,proxied,_,verified,consolidated,_,_,rfl⟩ := Contract.deposit_ok ran
  have increase : sys.contract.stake c.chain sys.contract.accountId hotkey + amount ≤
      sys.contract.stake arrived sys.contract.accountId hotkey + Contract.transferTolerance := by
    have lower := verified.1
    unfold Contract.transferTolerance at *
    omega
  change held sys c + amount ≤ sys.contract.stake chain sys.contract.accountId c.contractHotkey + Contract.transferTolerance
  rcases Contract.consolidate_ok consolidated with ⟨rfl,same | _⟩ | ⟨different,moved⟩
  · rw [held,← same]
    exact increase
  · unfold Contract.transferTolerance at increase
    omega
  · have untouched := sys.contract.proxy_between _ _ _ _ _ _ proxied sys.contract.accountId c.contractHotkey
      (.inl (Ne.symm different))
    have exact := sys.contract.move_exact _ _ _ _ _ _ moved sys.contract.accountId c.contractHotkey
    simp only [Ne.symm different,and_false,if_false,and_self,if_true] at exact
    rw [held]
    omega

theorem deposit_balanced (balanced : Balanced sys shortfall j)
    (arrives : held sys j.contract + amount ≤ held sys c + shortfall)
    (ran : Contract.deposit sys.contract j.contract sender amount hotkey = .ok c) :
    Balanced sys shortfall {j with contract:=c} := by
  obtain ⟨_,_,_,_,_,_,_,_,_,_,fits,rfl⟩ := Contract.deposit_ok ran
  refine {balanced with requested:=?_,deposited:=?_,stake:=?_}
  · intro other request found
    rcases insert_cases found with ⟨same,rfl⟩ | ⟨_,found⟩
    · refine ⟨fits,sys.contract.asRef sender,j.contract.nextDepositNonce,same.trans ?_⟩
      rw [Contract.depositRequestId,sys.same_hash]
    · exact balanced.requested other request found
  · intro other deposit found
    obtain ⟨recorded,commits⟩ := balanced.deposited other deposit found
    exact ⟨isSome_insert _ _ _ recorded,commits⟩
  · let request : Contract.DepositRequest A :=
      {sender:=sender,recipient:=sender,amount:=amount,nonce:=j.contract.nextDepositNonce,hotkey:=hotkey,
        netuid:=j.contract.chainId,status:=.requested,createdAtBlock:=j.contract.blockNumber}
    have grown : total (fun _ request => request.amount) (j.contract.depositRequests.insert
        (Contract.depositRequestId sys.contract sender (amount * halphaRaoPerAlphaRao) j.contract.nextDepositNonce) request) ≤
          locked j.contract + amount := total_insert_le _ _
    have stake := balanced.stake
    refine grown.trans ?_
    simp only [Contract.emitEvent,Nat.mul_add,Nat.mul_one] at arrives ⊢
    change _ ≤ _ + _ + releasedTotal j.contract
    omega

theorem attestWithdrawal_balanced (balanced : Balanced sys shortfall j)
    (recorded : (j.pallet.withdrawalRequests.lookup id).isSome) (fits : amount < 2 ^ 64)
    (ran : Contract.attestWithdrawal sys.contract j.contract caller id recipient amount nonce = .ok c) :
    Balanced sys shortfall {j with contract:=c} := by
  obtain ⟨count,_,_,named,opened,counted⟩ := Contract.attestWithdrawal_ok ran
  have commits : Commits sys domainWithdrawalRequest id (Contract.attested j.contract caller id recipient amount).amount := by
    unfold Contract.attested
    cases found : j.contract.withdrawals.lookup id with
    | none =>
      refine ⟨fits.trans (by decide),sys.contract.asRef recipient,nonce,?_⟩
      rw [← named,Contract.withdrawalRequestId,sys.same_hash]
    | some withdrawal => exact (balanced.withdrawn id withdrawal found).2
  have withdrawn : ∀ (record : Contract.Withdrawal A Hash),
      record.amount = (Contract.attested j.contract caller id recipient amount).amount →
      ∀ other withdrawal, (j.contract.withdrawals.insert id record).lookup other = some withdrawal →
        (j.pallet.withdrawalRequests.lookup other).isSome ∧ Commits sys domainWithdrawalRequest other withdrawal.amount := by
    intro record same other withdrawal found
    rcases insert_cases found with ⟨rfl,rfl⟩ | ⟨_,found⟩
    · exact ⟨recorded,same ▸ commits⟩
    · exact balanced.withdrawn other withdrawal found
  have unsettled : ∀ old, j.contract.withdrawals.lookup id = some old → old.status = .pending := fun old found => (opened old found).1
  rcases Contract.countVote_ok.mp counted with ⟨_,finalized⟩ | ⟨_,rfl⟩
  · obtain ⟨chain,_,transferred,rfl⟩ := Contract.finalizeWithdrawal_ok finalized
    refine {balanced with withdrawn:=withdrawn _ rfl,stake:=?_}
    have grown := releasedTotal_insert (c := j.contract) (d := Contract.released
      (Contract.emitEvent j.contract (.withdrawalAttested id caller count)) id
      (Contract.attested j.contract caller id recipient amount) chain) rfl unsettled
    have exact := sys.contract.transfer_exact _ _ _ _ _ _ transferred sys.contract.accountId j.contract.contractHotkey
    have stake := balanced.stake
    simp only [and_self,if_true,Contract.emitEvent] at exact
    refine le_trans ?_ (Nat.add_le_add_left grown.symm.le _)
    simp only [if_true]
    change locked j.contract ≤ sys.contract.stake chain sys.contract.accountId j.contract.contractHotkey +
      shortfall * j.contract.nextDepositNonce + _
    unfold held at stake
    omega
  · refine {balanced with withdrawn:=withdrawn _ rfl,stake:=?_}
    have grown := releasedTotal_insert (c := j.contract) (d := {Contract.emitEvent j.contract (.withdrawalAttested id caller count) with
      withdrawals:=j.contract.withdrawals.insert id (Contract.attested j.contract caller id recipient amount)}) rfl unsettled
    exact balanced.stake.trans (Nat.add_le_add_left ((Nat.le_add_right _ _).trans_eq grown.symm) _)

theorem step_balanced (j : Joint A Hash B Chain)
    (call : Pallet.Call A Hash B ⊕ Contract.Call A Hash Chain) (balanced : Balanced sys shortfall j)
    (permitted : Permitted sys j call) (arrives : Arrives sys shortfall j call) : Balanced sys shortfall (step sys j call) := by
  cases call with
  | inl call =>
    refine commit_inv (fun p => Balanced sys shortfall {j with pallet:=p}) balanced ?_
    intro p ran
    cases call with
    | attestDeposit _ _ _ amount => exact attestDeposit_balanced balanced permitted amount.isLt ran
    | withdraw => exact withdraw_balanced balanced ran
    | initializeBlock =>
      cases ran
      split <;> exact {balanced with}
    | elsewhere =>
      cases ran
      exact {balanced with}
    | _ => cases permitted
  | inr call =>
    refine commit_inv (fun c => Balanced sys shortfall {j with contract:=c}) balanced ?_
    intro c ran
    cases call with
    | deposit => exact deposit_balanced balanced (arrives c ran) ran
    | attestWithdrawal _ _ _ amount => exact attestWithdrawal_balanced balanced permitted amount.isLt ran
    | nextBlock =>
      cases ran
      split <;> exact {balanced with}
    | elsewhere =>
      cases ran
      refine {balanced with stake:=?_}
      exact balanced.stake.trans (Nat.add_le_add_right (Nat.add_le_add_right permitted _) _)
    | _ => cases permitted

theorem arrives_tolerance (j : Joint A Hash B Chain)
    (call : Pallet.Call A Hash B ⊕ Contract.Call A Hash Chain) (balanced : Balanced sys shortfall j) :
    Arrives sys Contract.transferTolerance j call := by
  rcases call with call | call
  · trivial
  · cases call with
    | deposit => exact fun c ran => deposit_held balanced.minimum ran
    | _ => trivial

theorem run_balanced (started : Started j) (permitted : Throughout (step sys) (Permitted sys) j calls)
    (arrives : Throughout (step sys) (Arrives sys shortfall) j calls) : Balanced sys shortfall (run (step sys) j calls) := by
  exact run_invariant (fun k => Balanced sys shortfall k)
    (fun k call balanced both => step_balanced k call balanced both.1 both.2) (started_balanced started)
    (throughout_and permitted arrives)

theorem stake_covers_bridge (sys : System A Hash B Chain) (j : Joint A Hash B Chain)
    (started : Started j) (calls : List (Pallet.Call A Hash B ⊕ Contract.Call A Hash Chain))
    (permitted : Throughout (step sys) (Permitted sys) j calls) :
    let k := run (step sys) j calls
    k.pallet.totalMintedByBridge / halphaRaoPerAlphaRao + outstanding k ≤
      held sys k.contract + 10 * k.contract.nextDepositNonce ∧
    (Throughout (step sys) (Arrives sys 0) j calls →
      k.pallet.totalMintedByBridge / halphaRaoPerAlphaRao + outstanding k ≤ held sys k.contract ∧
      ∀ id request, k.pallet.withdrawalRequests.lookup id = some request → ¬ Released k.contract id →
        request.amount / halphaRaoPerAlphaRao ≤ held sys k.contract) := by
  intro k
  have tolerant : Throughout (step sys) (Arrives sys Contract.transferTolerance) j calls :=
    throughout_of_invariant (fun k => Balanced sys Contract.transferTolerance k)
      (fun k call balanced allowed => step_balanced k call balanced allowed (arrives_tolerance k call balanced))
      (fun k call balanced _ => arrives_tolerance k call balanced) (started_balanced started) permitted
  refine ⟨balanced_backed (run_balanced started permitted tolerant),?_⟩
  intro full
  have balanced := run_balanced started permitted full
  have backed := balanced_backed balanced
  rw [Nat.zero_mul,Nat.add_zero] at backed
  exact ⟨backed,fun id request found unreleased =>
    (unreleased_le balanced found unreleased).trans ((Nat.le_add_left _ _).trans backed)⟩

def plainSystem (lost : Nat) : System Nat (List UInt8) (Nat × (Nat → Nat)) (Nat → Nat → Nat) where
  pallet := Pallet.plainConfig
  contract := Contract.plainConfig lost
  same_hash := rfl
  collision_free := fun _ _ same => same

def opened : Joint Nat (List UInt8) (Nat × (Nat → Nat)) (Nat → Nat → Nat) where
  pallet := {Pallet.genesis (0,fun _ => 0) with guardians:=[1],approveThreshold:=1,globalMintCap:=2000000000000000000}
  contract := {Contract.new 0 (fun c h => if c = 5 ∧ h = 8 then 2000000000 else 0) 3 1 9 with guardians:=[1],approveThreshold:=1}

def roundTrip : List (Pallet.Call Nat (List UInt8) (Nat × (Nat → Nat)) ⊕ Contract.Call Nat (List UInt8) (Nat → Nat → Nat)) :=
  [.inr (.deposit 5 1000000000 8),
    .inl (.attestDeposit (.signed 1) (Pallet.depositRequestId Pallet.plainConfig 5 1000000000000000000 0) 5 1000000000000000000 0),
    .inl (.withdraw (.signed 5) 1000000000000000000)]

theorem opened_started : Started opened := ⟨rfl,rfl,rfl,rfl,rfl,rfl,rfl,rfl⟩

theorem roundTrip_permitted :
    Throughout (step (plainSystem 0)) (Permitted (plainSystem 0)) opened roundTrip ∧
      Throughout (step (plainSystem 10)) (Permitted (plainSystem 10)) opened roundTrip := by
  refine ⟨⟨trivial,?_,trivial,trivial⟩,⟨trivial,?_,trivial,trivial⟩⟩
  · change (AList.lookup _ _).isSome = true
    decide +kernel
  · change (AList.lookup _ _).isSome = true
    decide +kernel

-- A transfer that arrives ten alphaRao short passes the contract's verification, and
-- the withdrawal of what was credited can then not be released.
theorem stake_short_of_withdrawal :
    Started opened ∧ Throughout (step (plainSystem 10)) (Permitted (plainSystem 10)) opened roundTrip ∧
      held (plainSystem 10) (run (step (plainSystem 10)) opened roundTrip).contract <
        (run (step (plainSystem 10)) opened roundTrip).pallet.totalMintedByBridge / halphaRaoPerAlphaRao +
          outstanding (run (step (plainSystem 10)) opened roundTrip) ∧
      failsWith .insufficientContractStake
        (Contract.attestWithdrawal (plainSystem 10).contract (run (step (plainSystem 10)) opened roundTrip).contract 1
          (Contract.withdrawalRequestId (Contract.plainConfig 10) 5 1000000000 0) 5 1000000000 0) = true :=
  ⟨opened_started,roundTrip_permitted.2,by decide +kernel,by decide +kernel⟩

theorem stake_covers_round_trip :
    let k := run (step (plainSystem 0)) opened roundTrip
    k.pallet.totalMintedByBridge / halphaRaoPerAlphaRao + outstanding k ≤ held (plainSystem 0) k.contract + 10 * 1 :=
  (stake_covers_bridge (plainSystem 0) opened opened_started roundTrip roundTrip_permitted.1).1

end TheBrain.Bridge.Backing
