import TheBrain.Marketplace.Ledgers

namespace TheBrain.Marketplace
open Library Machine Words StorageMap

variable {A B : Type} [DecidableEq A]
variable {cfg : Config A B} {s t u : State A B}

def Solvent (cfg : Config A B) (s : State A B) : Prop :=
  cfg.bank.minimumBalance + s.totalUndistributedBacking + s.pendingSudoRefunds + Bank.emissionAvailable s.bank +
    Bank.computeEmissionAvailable s.bank ≤ Bank.balance cfg.bank s.bank

def BackingCounted (s : State A B) : Prop := backedAlpha s ≤ s.totalUndistributedBacking

def owedOut (s : State A B) : Nat := s.totalUndistributedBacking + s.pendingSudoRefunds

structure Reserved (cfg : Config A B) (s : State A B) : Prop where
  covers : Bank.Covers cfg.bank (owedOut s) s.bank
  counted : BackingCounted s

omit [DecidableEq A] in
theorem backing_held (counted : BackingCounted s) (found : s.batches.lookup batchId = some batch) :
    batch.alpha - s.unbackedBatchAlpha batchId ≤ s.totalUndistributedBacking :=
  (StorageMap.le_total (fun batchId (batch : Batch A) => batch.alpha - s.unbackedBatchAlpha batchId) s.batches found).trans counted

theorem solvent_iff : Solvent cfg s ↔ Bank.Covers cfg.bank (owedOut s) s.bank := by
  unfold Solvent Bank.Covers owedOut
  omega

theorem covers_mono {bank : Bank.State A B} (covers : Bank.Covers cfg.bank more bank) (less : reserve ≤ more) :
    Bank.Covers cfg.bank reserve bank := by
  unfold Bank.Covers at covers ⊢
  omega

theorem SameReserves.reserved (same : SameReserves s t) (reserved : Reserved cfg s) : Reserved cfg t where
  covers := by
    rw [owedOut,same.totalUndistributedBacking,same.pendingSudoRefunds,same.bank]
    exact reserved.covers
  counted := by
    rw [BackingCounted,backedAlpha,same.batches,same.unbackedBatchAlpha,same.totalUndistributedBacking]
    exact reserved.counted

theorem Reserved.pays (reserved : Reserved cfg s) {bank : Bank.State A B}
    (covers : Bank.Covers cfg.bank (s.totalUndistributedBacking + pending) bank) :
    Reserved cfg {s with bank:=bank,pendingSudoRefunds:=pending} := ⟨covers,reserved.counted⟩

theorem Shifted.counted (shifted : Shifted s t batchId owner released) (counted : BackingCounted s)
    (found : s.batches.lookup batchId = some batch) (batches : t.batches = s.batches.insert batchId next)
    (shrinks : next.alpha + released ≤ batch.alpha) : BackingCounted t := by
  have moved := total_rewrite (v := next) (fun batchId (batch : Batch A) => batch.alpha - s.unbackedBatchAlpha batchId)
    (fun batchId batch => batch.alpha - t.unbackedBatchAlpha batchId) s.batches found
    (fun key _ apart => by rw [shifted.unbacked_ne apart])
  have total : t.totalUndistributedBacking = s.totalUndistributedBacking - (released - s.unbackedBatchAlpha batchId) :=
    shifted.totalUndistributedBacking
  rw [shifted.unbacked_self] at moved
  unfold BackingCounted backedAlpha at counted ⊢
  rw [batches]
  omega

theorem Shifted.counted_erased (shifted : Shifted s t batchId owner released) (counted : BackingCounted s)
    (found : s.batches.lookup batchId = some batch) (batches : t.batches = s.batches.erase batchId)
    (within : released ≤ batch.alpha) : BackingCounted t := by
  have moved := total_remove (fun batchId (batch : Batch A) => batch.alpha - s.unbackedBatchAlpha batchId)
    (fun batchId batch => batch.alpha - t.unbackedBatchAlpha batchId) s.batches found
    (fun key _ apart => by rw [shifted.unbacked_ne apart])
  have total : t.totalUndistributedBacking = s.totalUndistributedBacking - (released - s.unbackedBatchAlpha batchId) :=
    shifted.totalUndistributedBacking
  unfold BackingCounted backedAlpha at counted ⊢
  rw [batches,total]
  omega

theorem Shifted.owed_le (shifted : Shifted s t batchId owner released) : t.totalUndistributedBacking ≤ s.totalUndistributedBacking := by
  rw [shifted.totalUndistributedBacking]
  exact Nat.sub_le _ _

theorem Shifted.reserved (shifted : Shifted s t batchId owner released) (reserved : Reserved cfg s)
    (found : s.batches.lookup batchId = some batch) (batches : t.batches = s.batches.insert batchId next)
    (shrinks : next.alpha + released ≤ batch.alpha) (bank : t.bank = s.bank)
    (refunds : t.pendingSudoRefunds = s.pendingSudoRefunds) : Reserved cfg t where
  covers := by
    rw [bank]
    refine covers_mono reserved.covers ?_
    have lower := shifted.owed_le
    unfold owedOut
    omega
  counted := shifted.counted reserved.counted found batches shrinks

theorem paid_covers (paid : Paid cfg s t payer alpha) (refunds : t.pendingSudoRefunds = s.pendingSudoRefunds)
    (outside : payer ≠ cfg.bank.accountId) (reserved : Reserved cfg s) : Bank.Covers cfg.bank (owedOut t) t.bank := by
  refine covers_mono (Bank.depositFrom_reserves reserved.covers outside paid.deposited) ?_
  have total : t.totalUndistributedBacking ≤ s.totalUndistributedBacking + alpha := paid.total ▸ saturatingAdd_le
  unfold owedOut
  omega

theorem Paid.positive (paid : Paid cfg s t payer alpha) : 0 < alpha := by
  have deposited := paid.deposited
  simp only [Bank.depositFrom,passes] at deposited
  exact Nat.pos_of_ne_zero deposited.1

theorem Created.counted (created : Created s t batch) (backed : Backed cfg s t s.nextBatchId batch.alpha source)
    (fits : ∀ payer, Paid cfg s t payer batch.alpha → source = .buyer payer ∨ source = .sudoBestEffort ∧ s.sudoKey = some payer →
      s.totalUndistributedBacking + batch.alpha < 2 ^ 128)
    (counted : BackingCounted s) : BackingCounted t := by
  have written : (∀ key, key ≠ s.nextBatchId → t.unbackedBatchAlpha key = s.unbackedBatchAlpha key) →
      backedAlpha t ≤ backedAlpha s + (batch.alpha - t.unbackedBatchAlpha s.nextBatchId) := by
    intro others
    rw [backedAlpha,created.batches]
    exact total_write_le _ _ s.batches fun key _ apart => by rw [others key apart]
  unfold BackingCounted at counted ⊢
  cases backed with
  | nothing _ _ _ marker =>
    have grown := written fun key _ => congrFun marker key
    omega
  | paid payer allowed paid =>
    have grown := written fun key _ => congrFun paid.marker key
    have total := paid.total
    rw [saturatingAdd_exact (fits payer paid allowed)] at total
    omega
  | unbacked _ _ _ marker =>
    have grown := written fun key apart => (congrFun marker key).trans (Function.update_of_ne apart _ _)
    rw [marker,Function.update_self] at grown
    omega

theorem Created.reserved (created : Created s t batch) (backed : Backed cfg s t s.nextBatchId batch.alpha source)
    (payers : ∀ payer, 0 < batch.alpha → source = .buyer payer ∨ source = .sudoBestEffort ∧ s.sudoKey = some payer →
      payer ≠ cfg.bank.accountId ∧ s.totalUndistributedBacking + batch.alpha < 2 ^ 128)
    (reserved : Reserved cfg s) : Reserved cfg t := by
  refine ⟨?_,created.counted backed (fun payer paid allowed => (payers payer paid.positive allowed).2) reserved.counted⟩
  have refunds := created.pendingSudoRefunds
  cases backed with
  | nothing _ bank total | unbacked _ bank total =>
    rw [owedOut,total,refunds,bank]
    exact reserved.covers
  | paid payer allowed paid => exact paid_covers paid refunds (payers payer paid.positive allowed).1 reserved

theorem ToppedUp.counted (topped : ToppedUp s t who batchId batch credits alpha) (paid : Paid cfg s t who alpha)
    (fits : s.totalUndistributedBacking + alpha < 2 ^ 128) (counted : BackingCounted s) : BackingCounted t := by
  have moved := total_replace (v := topUp batch credits alpha)
    (fun batchId (batch : Batch A) => batch.alpha - s.unbackedBatchAlpha batchId) s.batches topped.found
  have grown : (topUp batch credits alpha).alpha ≤ batch.alpha + alpha := by
    have raised : saturatingAdd 128 batch.remainingAlpha alpha ≤ _ := saturatingAdd_le
    simp only [topUp,Batch.alpha]
    omega
  have total := paid.total
  rw [saturatingAdd_exact fits] at total
  unfold BackingCounted backedAlpha at counted ⊢
  rw [topped.batches,paid.marker]
  omega

theorem ToppedUp.reserved (topped : ToppedUp s t who batchId batch credits alpha) (paid : Paid cfg s t who alpha)
    (outside : who ≠ cfg.bank.accountId) (fits : s.totalUndistributedBacking + alpha < 2 ^ 128) (reserved : Reserved cfg s) :
    Reserved cfg t :=
  ⟨paid_covers paid topped.pendingSudoRefunds outside reserved,topped.counted paid fits reserved.counted⟩

theorem refunds_covers {bank : Bank.State A B} (refunds : SudoRefunded cfg s {s with bank:=bank,pendingSudoRefunds:=pending} owed)
    (covers : Bank.Covers cfg.bank (reserve + owed) s.bank) : Bank.Covers cfg.bank (reserve + pending) bank := by
  rcases refunds with ⟨rfl,rfl⟩ | ⟨_,_,_,ran,rfl⟩
  · exact covers
  · rw [← Nat.add_sub_cancel (n := pending)]
    exact Bank.requestPayment_covers covers ran

theorem handleChargeback_reserved (ran : handleChargeback cfg s batchId = .ok t) (reserved : Reserved cfg s) :
    Reserved cfg t := by
  rcases handleChargeback_ok ran with ⟨_,same⟩ | ⟨batch,_,_,owed,_,_,found,_,_,_,_,refunds,same⟩
  · rw [same]
    exact reserved
  · have within : saturatingAdd 128 batch.remainingAlpha batch.pendingAlpha ≤ batch.alpha := saturatingAdd_le
    have shifted : Shifted s t batchId batch.owner (saturatingAdd 128 batch.remainingAlpha batch.pendingAlpha) := by
      rw [same]
      exact {}
    refine ⟨?_,shifted.counted_erased reserved.counted found (by rw [same]) within⟩
    have held := backing_held reserved.counted found
    have total := shifted.totalUndistributedBacking
    simp only [shift] at total
    have covers : Bank.Covers cfg.bank (t.totalUndistributedBacking + owed) s.bank := by
      refine covers_mono reserved.covers ?_
      unfold owedOut
      omega
    have paid := refunds_covers refunds covers
    rw [same] at paid ⊢
    exact paid

theorem retryPendingSudoRefunds_reserved (ran : retryPendingSudoRefunds cfg s origin = .ok t) (reserved : Reserved cfg s) :
    Reserved cfg t := by
  simp only [retryPendingSudoRefunds,passes] at ran
  cases ran.2
  split
  · exact reserved
  · obtain ⟨_,_,same,refunds⟩ := refundSudo_ok cfg s s.pendingSudoRefunds
    rw [same]
    exact reserved.pays (refunds_covers refunds reserved.covers)

-- A commission asks for no more than lies above everything owed. Should the sum of the
-- reserves saturate, it exceeds every u128 balance and nothing is asked for.
theorem commission_covers (reserved : Reserved cfg s) (word : Bank.balance cfg.bank s.bank < 2 ^ 128)
    (within : amount ≤ Bank.availableForPayout cfg.bank s.bank - commissionReserve s) :
    Bank.Covers cfg.bank (owedOut s + amount) s.bank := by
  have covers := reserved.covers
  simp only [Bank.Covers,owedOut] at covers ⊢
  simp only [Bank.availableForPayout,PaymentMath.available,commissionReserve,saturatingAdd,maxOf] at within
  omega

def PaysCommissions (cfg : Config A B) (s : State A B) : Prop :=
  Reserved cfg s ∧ Bank.balance cfg.bank s.bank < 2 ^ 128

theorem commission_reserved (referrer : A) (credits : Nat) (fine : PaysCommissions cfg s) :
    PaysCommissions cfg (tryPayReferralCommissionTokens cfg s referrer credits).1 := by
  obtain ⟨reserved,word⟩ := fine
  obtain ⟨_,_,same,paid⟩ := tryPayReferralCommissionTokens_ok cfg s referrer credits
  rw [same]
  rcases paid with rfl | ⟨_,_,within,ran⟩
  · exact ⟨⟨reserved.covers,reserved.counted⟩,word⟩
  · have covers := Bank.requestPayment_covers (commission_covers reserved word within) ran
    exact ⟨⟨covers_mono covers (Nat.le_add_right _ _),reserved.counted⟩,(Bank.requestPayment_lowers ran).trans_lt word⟩

theorem sweep_reserved (fine : PaysCommissions cfg s) : PaysCommissions cfg (sweepReferralCommissions cfg s) := by
  apply sweepReferralCommissions_keeps cfg (PaysCommissions cfg)
  · intro u value accrued fine
    exact ⟨⟨fine.1.covers,fine.1.counted⟩,fine.2⟩
  · intro u referrer credits fine
    exact commission_reserved referrer credits fine
  · exact fine

theorem visited_reserved {w next : Walk A B} (visited : Visited w sender batchId next) (reserved : Reserved cfg w.state) :
    Reserved cfg next.state := by
  cases visited with
  | passed =>
    rw [file_state]
    exact reserved
  | took _ _ _ found own _ taken =>
    rw [file_state]
    exact Shifted.reserved {} reserved found rfl taken.shrinks rfl rfl

theorem consumeCredits_reserved (ran : consumeCredits s sender credits = .ok t) (reserved : Reserved cfg s) : Reserved cfg t := by
  refine consumeCredits_keeps (Reserved cfg) ?_ ?_ ?_ reserved ran
  · intro w batchId next fine visited
    exact visited_reserved visited fine
  · intro u kept fine
    exact SameReserves.reserved {} fine
  · intro u fine
    exact SameReserves.reserved {} fine

theorem releaseMatured_reserved (now : Nat) (entry : Nat × Batch A) (reserved : Reserved cfg s)
    (found : s.batches.lookup entry.1 = some entry.2) : Reserved cfg (releaseMatured now s entry) := by
  rcases releaseMatured_ok now s entry with same | ⟨_,same,_⟩
  · rw [same]
    exact reserved
  · rw [same]
    exact Shifted.reserved {} reserved found rfl le_rfl rfl rfl

-- Who may deposit, how far the total may grow, and who may ask the bank for payment. A
-- balance is a u128.
def Permitted (cfg : Config A B) (s : State A B) : Call A B → Prop
  | .deposit _ _ _ alphaAmount _ _ =>
    s.sudoKey ≠ some cfg.bank.accountId ∧ s.totalUndistributedBacking + alphaAmount < 2 ^ 128
  | .buyCredits origin alphaAmount _ _ =>
    origin ≠ .signed cfg.bank.accountId ∧ s.totalUndistributedBacking + alphaAmount < 2 ^ 128
  | .tryPayReferralCommissionTokens .. | .sweepReferralCommissions | .onInitialize _ =>
    Bank.balance cfg.bank s.bank < 2 ^ 128
  | .bank (.requestPayment ..) => False
  | .bank call => Bank.Permitted cfg.bank s.bank call
  | _ => True

theorem bank_reserved (call : Bank.Call A B) (permitted : Permitted cfg s (.bank call)) (reserved : Reserved cfg s) :
    Reserved cfg {s with bank:=Bank.step cfg.bank s.bank call} := by
  refine ⟨?_,reserved.counted⟩
  refine commit_inv (Bank.Covers cfg.bank (owedOut s)) reserved.covers ?_
  intro bank ran
  have allowed : Bank.Permitted cfg.bank s.bank call := by
    cases call with
    | requestPayment => exact permitted.elim
    | deposit | addRequester | removeRequester | setRequesterCap | removeRequesterCap | setDistributionEnabled
    | addMinerPaymentCaller | removeMinerPaymentCaller | payStorageMiners | payComputeMiners | depositFrom
    | recordFeeDeposit | initializeBlock | elsewhere => exact permitted
  rcases Bank.dispatch_covers call reserved.covers allowed ran with covers | ⟨_,_,_,rfl⟩
  · exact covers
  · exact permitted.elim

theorem dispatch_reserved (call : Call A B) (ran : dispatch cfg s call = .ok t) (permitted : Permitted cfg s call)
    (reserved : Reserved cfg s) : Reserved cfg t := by
  by_cases administers : call.administers = true
  · exact (administers_same call administers ran).2.reserved reserved
  cases call with
  | burn =>
    simp only [dispatch,burn,passes] at ran
    obtain ⟨_,_,_,_,same⟩ := ran
    cases same
    exact SameReserves.reserved {} reserved
  | deposit =>
    obtain ⟨_,⟨time,created⟩,backed⟩ := deposit_ok ran
    refine created.reserved backed ?_ reserved
    intro payer _ allowed
    refine ⟨fun same => ?_,permitted.2⟩
    rcases allowed with buyer | ⟨_,key⟩
    · cases buyer
    · exact permitted.1 (same ▸ key)
  | buyCredits =>
    obtain ⟨who,credits,signed,_,paid,bought⟩ := buyCredits_ok ran
    have outside : who ≠ cfg.bank.accountId := fun same => permitted.1 (same ▸ signed)
    rcases bought with ⟨⟨time,created⟩,_⟩ | ⟨_,_,topped⟩
    · refine created.reserved (.paid who (.inl rfl) paid) ?_ reserved
      intro payer _ allowed
      rcases allowed with buyer | ⟨effort,_⟩
      · cases buyer
        exact ⟨outside,permitted.2⟩
      · cases effort
    · exact topped.reserved paid outside permitted.2 reserved
  | consumeCredits => exact consumeCredits_reserved ran reserved
  | refundCreditsWithBatch =>
    rcases refundCreditsWithBatch_ok cfg ran with same | ⟨_,⟨_,created⟩,backed⟩
    · rw [same]
      exact reserved
    · exact created.reserved backed (fun _ positive => absurd positive (Nat.lt_irrefl 0)) reserved
  | chargeback =>
    simp only [dispatch,chargeback,passes] at ran
    exact handleChargeback_reserved ran.2 reserved
  | retryPendingSudoRefunds => exact retryPendingSudoRefunds_reserved ran reserved
  | tryPayReferralCommissionTokens referrer credits =>
    cases ran
    exact (commission_reserved referrer credits ⟨reserved,permitted⟩).1
  | sweepReferralCommissions =>
    cases ran
    exact (sweep_reserved ⟨reserved,permitted⟩).1
  | releaseMaturedPendingAlpha =>
    cases ran
    exact releaseMaturedPendingAlpha_keeps cfg (Reserved cfg) s.blockNumber (fun _ _ fine => SameReserves.reserved {} fine)
      (fun _ entry fine found => releaseMatured_reserved _ entry fine found) reserved
  | pruneSpentUserBatches limit =>
    cases ran
    refine pruneSpentUserBatches_keeps cfg (Reserved cfg) limit (fun _ _ _ fine => SameReserves.reserved {} fine) ?_ reserved
    intro u who fine
    simp only [pruneList]
    split
    · exact SameReserves.reserved {} fine
    · exact fine
  | onInitialize now =>
    cases ran
    have kept : PaysCommissions cfg (onInitialize cfg s now) := by
      refine onInitialize_keeps cfg (PaysCommissions cfg) now ?_ (fun _ fine => sweep_reserved fine) ?_ ?_
      · intro requests
        exact ⟨⟨reserved.covers,reserved.counted⟩,permitted⟩
      · intro u value fine
        exact ⟨SameReserves.reserved {} fine.1,fine.2⟩
      · intro u entry fine found
        refine ⟨releaseMatured_reserved now entry fine.1 found,?_⟩
        rcases releaseMatured_ok now u entry with same | ⟨_,same,_⟩ <;> rw [same] <;> exact fine.2
    exact kept.1
  | bank call =>
    cases ran
    exact bank_reserved call permitted reserved
  | _ => exact absurd rfl administers

theorem step_reserved (call : Call A B) (permitted : Permitted cfg s call) (reserved : Reserved cfg s) :
    Reserved cfg (step cfg s call) :=
  commit_inv (Reserved cfg) reserved fun _ ran => dispatch_reserved call ran permitted reserved

end TheBrain.Marketplace
