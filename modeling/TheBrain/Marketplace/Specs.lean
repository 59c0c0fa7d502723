import TheBrain.Bank.Compartments
import TheBrain.Marketplace.Pallet

namespace TheBrain.Marketplace
open Library Machine Words Function List StorageMap

variable {A B : Type}
variable {s t u : State A B}

def Batch.alpha (batch : Batch A) : Nat := batch.remainingAlpha + batch.pendingAlpha

structure SameBatches (s t : State A B) : Prop where
  batches : t.batches = s.batches := by rfl
  userBatches : t.userBatches = s.userBatches := by rfl
  nextBatchId : t.nextBatchId = s.nextBatchId := by rfl
  freeCredits : t.freeCredits = s.freeCredits := by rfl
  alphaBalances : t.alphaBalances = s.alphaBalances := by rfl
  unbackedBatchAlpha : t.unbackedBatchAlpha = s.unbackedBatchAlpha := by rfl
  totalUndistributedBacking : t.totalUndistributedBacking = s.totalUndistributedBacking := by rfl
  lastPurchaseBatch : t.lastPurchaseBatch = s.lastPurchaseBatch := by rfl
  truncated : t.truncated = s.truncated := by rfl

theorem SameBatches.refl (s : State A B) : SameBatches s s := {}

theorem SameBatches.trans (one : SameBatches s t) (two : SameBatches t u) : SameBatches s u where
  batches := two.batches.trans one.batches
  userBatches := two.userBatches.trans one.userBatches
  nextBatchId := two.nextBatchId.trans one.nextBatchId
  freeCredits := two.freeCredits.trans one.freeCredits
  alphaBalances := two.alphaBalances.trans one.alphaBalances
  unbackedBatchAlpha := two.unbackedBatchAlpha.trans one.unbackedBatchAlpha
  totalUndistributedBacking := two.totalUndistributedBacking.trans one.totalUndistributedBacking
  lastPurchaseBatch := two.lastPurchaseBatch.trans one.lastPurchaseBatch
  truncated := two.truncated.trans one.truncated

theorem alphaToRelease_le (batch : Batch A) (credits : Nat) : alphaToRelease batch credits ≤ batch.remainingAlpha :=
  Nat.min_le_right _ _

theorem spendRemainingAlpha_eq (s : State A B) (batch : Batch A) (within : amount ≤ batch.remainingAlpha) :
    spendRemainingAlpha s batch amount = (s,{batch with remainingAlpha:=batch.remainingAlpha - amount}) := by
  simp [spendRemainingAlpha,Nat.not_lt.mpr within]

variable [DecidableEq A] {cfg : Config A B}

-- What releasing alpha comes to on the ledgers: the owner's balance falls by the amount,
-- the unbacked marker first, and the total by what the marker does not absorb.
def shift (s : State A B) (batchId : Nat) (owner : A) (amount : Nat) : State A B :=
  {s with
    alphaBalances:=update s.alphaBalances owner (s.alphaBalances owner - amount)
    unbackedBatchAlpha:=update s.unbackedBatchAlpha batchId (s.unbackedBatchAlpha batchId - amount)
    totalUndistributedBacking:=s.totalUndistributedBacking - (amount - s.unbackedBatchAlpha batchId)
    truncated:=s.truncated || s.alphaBalances owner < amount ||
      s.totalUndistributedBacking < amount - s.unbackedBatchAlpha batchId}

theorem releaseAlpha_eq (s : State A B) (batchId : Nat) (owner : A) (amount : Nat) :
    releaseAlpha s batchId owner amount = (shift s batchId owner amount,amount - s.unbackedBatchAlpha batchId) := by
  unfold releaseAlpha takeBackedPortion
  by_cases backed : s.unbackedBatchAlpha batchId = 0
  · have kept : update s.unbackedBatchAlpha batchId 0 = s.unbackedBatchAlpha :=
      update_eq_self_iff.mpr backed.symm
    simp [lowerAlpha,lowerBacking,shift,backed,kept]
  · have marker : s.unbackedBatchAlpha batchId - min (s.unbackedBatchAlpha batchId) amount =
        s.unbackedBatchAlpha batchId - amount := by omega
    have rest : amount - min (s.unbackedBatchAlpha batchId) amount = amount - s.unbackedBatchAlpha batchId := by omega
    have whole : ¬ s.unbackedBatchAlpha batchId < min (s.unbackedBatchAlpha batchId) amount := by omega
    have within : ¬ amount < min (s.unbackedBatchAlpha batchId) amount := by omega
    simp only [lowerAlpha,lowerBacking,shift,backed,marker,rest,whole,within,if_false,decide_false,Bool.or_false]

theorem shift_zero (s : State A B) (batchId : Nat) (owner : A) : shift s batchId owner 0 = s := by
  simp [shift]

theorem shift_shift (s : State A B) (batchId : Nat) (owner : A) (first second : Nat) :
    shift (shift s batchId owner first) batchId owner second = shift s batchId owner (first + second) := by
  have balance : s.alphaBalances owner - first - second = s.alphaBalances owner - (first + second) := by omega
  have marker : s.unbackedBatchAlpha batchId - first - second = s.unbackedBatchAlpha batchId - (first + second) := by omega
  have backing : s.totalUndistributedBacking - (first - s.unbackedBatchAlpha batchId) -
      (second - (s.unbackedBatchAlpha batchId - first)) =
        s.totalUndistributedBacking - (first + second - s.unbackedBatchAlpha batchId) := by omega
  have lost : (s.truncated || decide (s.alphaBalances owner < first) ||
      decide (s.totalUndistributedBacking < first - s.unbackedBatchAlpha batchId) ||
      decide (s.alphaBalances owner - first < second) ||
      decide (s.totalUndistributedBacking - (first - s.unbackedBatchAlpha batchId) < second - (s.unbackedBatchAlpha batchId - first))) =
        (s.truncated || decide (s.alphaBalances owner < first + second) ||
          decide (s.totalUndistributedBacking < first + second - s.unbackedBatchAlpha batchId)) := by
    cases s.truncated with
    | true => simp only [Bool.true_or]
    | false =>
      rw [Bool.eq_iff_iff]
      simp only [Bool.false_or,Bool.or_eq_true,decide_eq_true_eq]
      omega
  simp only [shift,update_self,update_idem,balance,marker,backing,lost]

theorem releasePositive_eq (s : State A B) (batchId : Nat) (owner : A) (amount : Nat) :
    (if 0 < amount then (releaseAlpha s batchId owner amount).1 else s) = shift s batchId owner amount := by
  split
  · rw [releaseAlpha_eq]
  next none =>
    have zero : amount = 0 := by omega
    rw [zero,shift_zero]

theorem unfreeze_eq (s : State A B) (batchId : Nat) (batch : Batch A) :
    unfreeze s batchId batch = (shift s batchId batch.owner batch.pendingAlpha,{batch with isFrozen:=false,pendingAlpha:=0}) := by
  rw [unfreeze,releasePositive_eq]

structure Taken (batch : Batch A) (credits released : Nat) (next : Batch A) : Prop where
  owner : next.owner = batch.owner
  credits : next.remainingCredits = batch.remainingCredits - credits
  alpha : batch.alpha < 2 ^ 128 → next.alpha + released = batch.alpha
  shrinks : next.alpha + released ≤ batch.alpha
  frozen : next.isFrozen = true → batch.isFrozen = true

theorem takeCredits_eq (s : State A B) (batchId : Nat) (batch : Batch A) (credits : Nat) :
    ∃ released next, takeCredits s batchId batch credits =
      (shift (decreaseUserCredits s batch.owner credits) batchId batch.owner released,next) ∧
        Taken batch credits released next := by
  have within := alphaToRelease_le batch credits
  simp only [takeCredits,releasePositive_eq,unfreeze_eq]
  generalize alphaToRelease batch credits = alpha at within
  have spends : ∀ (s : State A B) (b : Batch A), b.remainingAlpha = batch.remainingAlpha →
      spendRemainingAlpha s b alpha = (s,{b with remainingAlpha:=b.remainingAlpha - alpha}) :=
    fun s b same => spendRemainingAlpha_eq s b (same ▸ within)
  split
  · -- Still frozen: the alpha stays in the batch as pending.
    rw [spends]
    swap
    · rfl
    refine ⟨0,_,Prod.ext (shift_zero _ _ _).symm rfl,rfl,rfl,?_,?_,fun frozen => frozen⟩
    · intro fits
      unfold Batch.alpha at fits ⊢
      dsimp only
      rw [saturatingAdd_exact (by omega)]
      omega
    · have pending : saturatingAdd 128 batch.pendingAlpha alpha ≤ _ := saturatingAdd_le
      unfold Batch.alpha
      dsimp only
      omega
  · split
    · rw [spends]
      swap
      · rfl
      have sum : batch.remainingAlpha - alpha + 0 + (batch.pendingAlpha + alpha) = batch.alpha := by
        unfold Batch.alpha
        omega
      exact ⟨batch.pendingAlpha + alpha,_,Prod.ext (shift_shift _ _ _ _ _) rfl,rfl,rfl,fun _ => sum,sum.le,
        nofun⟩
    · rw [spends]
      swap
      · rfl
      have sum : batch.remainingAlpha - alpha + batch.pendingAlpha + alpha = batch.alpha := by
        unfold Batch.alpha
        omega
      exact ⟨alpha,_,rfl,rfl,rfl,fun _ => sum,sum.le,fun frozen => frozen⟩

section
omit [DecidableEq A]

@[simp] theorem file_state (w : Walk A B) (batchId : Nat) (dropped : Prop) [Decidable dropped] :
    (w.file batchId dropped).state = w.state := by
  unfold Walk.file
  split <;> rfl

@[simp] theorem file_remaining (w : Walk A B) (batchId : Nat) (dropped : Prop) [Decidable dropped] :
    (w.file batchId dropped).remaining = w.remaining := by
  unfold Walk.file
  split <;> rfl

@[simp] theorem file_kept (w : Walk A B) (batchId : Nat) (dropped : Prop) [Decidable dropped] :
    (w.file batchId dropped).kept = w.kept ++ if dropped then [] else [batchId] := by
  unfold Walk.file
  split
  · exact (append_nil _).symm
  · rfl

inductive Visited (w : Walk A B) (sender : A) (batchId : Nat) : Walk A B → Prop where
  | passed (dropped : Prop) [Decidable dropped]
      (empty : w.remaining = 0 ∨ ∀ batch, w.state.batches.lookup batchId = some batch → batch.remainingCredits = 0)
      (spent : dropped → ∀ batch, w.state.batches.lookup batchId = some batch → batchIsSpent batch) :
      Visited w sender batchId (w.file batchId dropped)
  | took (batch next : Batch A) (released : Nat)
      (found : w.state.batches.lookup batchId = some batch) (own : batch.owner = sender)
      (enough : min w.remaining batch.remainingCredits ≤ w.state.freeCredits sender)
      (taken : Taken batch (min w.remaining batch.remainingCredits) released next) :
      Visited w sender batchId (Walk.file {w with
          state:={shift (decreaseUserCredits w.state sender (min w.remaining batch.remainingCredits)) batchId sender released with
            batches:=w.state.batches.insert batchId next}
          remaining:=w.remaining - min w.remaining batch.remainingCredits}
        batchId (batchIsSpent next))

end

theorem visitBatch_ok {w next : Walk A B} (ran : visitBatch sender w batchId = .ok next) : Visited w sender batchId next := by
  unfold visitBatch at ran
  split at ran
  next done =>
    cases ran
    exact .passed False (.inl done) fun impossible => impossible.elim
  · cases found : w.state.batches.lookup batchId with
    | none =>
      rw [found] at ran
      cases ran
      refine .passed True (.inr ?_) ?_
      · intro batch present
        rw [found] at present
        cases present
      · intro _ batch present
        rw [found] at present
        cases present
    | some batch =>
      simp only [found,passes] at ran
      obtain ⟨own,visited⟩ := ran
      split at visited
      next idle =>
        cases visited
        have same : ∀ other, w.state.batches.lookup batchId = some other → other = batch := by
          intro other present
          exact (Option.some.inj (found.symm.trans present)).symm
        refine .passed (batchIsSpent batch) ?_ fun spent other present => same other present ▸ spent
        by_cases done : w.remaining = 0
        · exact .inl done
        · refine .inr fun other present => ?_
          rw [same other present]
          omega
      · simp only [passes] at visited
        obtain ⟨enough,stored⟩ := visited
        obtain ⟨released,after,taken,spec⟩ := takeCredits_eq w.state batchId batch (min w.remaining batch.remainingCredits)
        rw [taken] at stored
        cases stored
        subst own
        exact .took batch after released found rfl enough spec

theorem consumeCredits_keeps (inv : State A B → Prop)
    (each : ∀ w batchId next, inv w.state → Visited w sender batchId next → inv next.state)
    (listed : ∀ s kept, inv s → inv (relist s sender kept))
    (logged : ∀ s, inv s → inv (depositEvent s (.creditsConsumed sender credits))) (start : inv s)
    (ran : consumeCredits s sender credits = .ok t) : inv t := by
  simp only [consumeCredits,passes] at ran
  obtain ⟨⟨u,_⟩,walk,_,rfl⟩ := ran
  refine logged u ?_
  unfold walkBatches at walk
  split at walk
  · cases walk
    exact start
  next batchIds _ =>
    simp only [passes] at walk
    obtain ⟨w,visits,ends⟩ := walk
    have walked : inv w.state := foldlM_keeps (fun w : Walk A B => inv w.state)
      (fun w batchId next fine visited => each w batchId next fine (visitBatch_ok visited)) batchIds start visits
    cases ends
    split
    · exact listed w.state w.kept walked
    · exact walked

theorem releasePage_keeps (inv : State A B → Prop) (now : Nat)
    (each : ∀ s entry, inv s → s.batches.lookup entry.1 = some entry.2 → inv (releaseMatured now s entry))
    (page : List (Nat × Batch A)) (distinct : (page.map Prod.fst).Nodup)
    (current : ∀ entry ∈ page, s.batches.lookup entry.1 = some entry.2) (start : inv s) :
    inv (page.foldl (releaseMatured now) s) := by
  induction page generalizing s with
  | nil => exact start
  | cons entry _ ih =>
    obtain ⟨apart,rest⟩ := nodup_cons.mp distinct
    refine ih rest ?_ (each s entry start (current entry (mem_cons_self ..)))
    intro later mem
    have different : later.1 ≠ entry.1 := by
      intro same
      exact apart (same ▸ mem_map_of_mem mem)
    have before := current later (mem_cons_of_mem _ mem)
    unfold releaseMatured
    split
    · exact before
    split
    · exact before
    · rw [unfreeze_eq]
      refine (AList.lookup_insert_ne different).trans ?_
      split <;> exact before

theorem releaseMaturedPendingAlpha_keeps (cfg : Config A B) (inv : State A B → Prop) (now : Nat)
    (cursor : ∀ s value, inv s → inv {s with alphaReleaseCursor:=value})
    (each : ∀ s entry, inv s → s.batches.lookup entry.1 = some entry.2 → inv (releaseMatured now s entry))
    (start : inv s) : inv (releaseMaturedPendingAlpha cfg s now) := by
  simp only [releaseMaturedPendingAlpha]
  split
  · exact start
  · split
    · exact cursor s none start
    · refine cursor _ _ (releasePage_keeps inv now each _ ?_ ?_ start)
      · have shorter : (((s.batches.iter cfg.batchRank).filter fun entry =>
            s.alphaReleaseCursor.all fun start => start < cfg.batchRank entry.1).take cfg.alphaReleasePage).Sublist
            (s.batches.iter cfg.batchRank) := (take_sublist _ _).trans filter_sublist
        exact (shorter.map Prod.fst).nodup (iter_keys_nodup cfg.batchRank s.batches)
      · intro entry mem
        exact (mem_iter cfg.batchRank s.batches).mp (mem_filter.mp (mem_of_mem_take mem)).1

theorem pruneSpentUserBatches_keeps (cfg : Config A B) (inv : State A B → Prop) (limit : Weight)
    (cursor : ∀ s value finished, inv s → inv {s with spentBatchPruneCursor:=value,spentBatchPruneDone:=finished})
    (each : ∀ s who, inv s → inv (pruneList s who)) (start : inv s) : inv (pruneSpentUserBatches cfg s limit) := by
  have account : ∀ (p : Pruning A B) who, inv p.state → inv (pruneAccount cfg limit p who).state := by
    intro p who fine
    simp only [pruneAccount]
    split
    · exact fine
    · split
      · exact fine
      · exact each p.state who fine
  have page : ∀ consumed, inv (pruneFrom cfg limit s consumed) := by
    intro consumed
    simp only [pruneFrom]
    generalize ((((s.userBatches.iter cfg.accountRank).map Prod.fst).filter fun who =>
      s.spentBatchPruneCursor.all fun start => start < cfg.accountRank who).take maxAccountsPerRun) = accounts
    have kept := foldl_keeps (fun p : Pruning A B => inv p.state) account accounts
      (s := ⟨s,consumed,none,false⟩) start
    split
    · exact cursor _ none true kept
    · exact cursor _ _ _ kept
  unfold pruneSpentUserBatches
  split
  · exact start
  split
  · exact start
  split
  · exact start
  · exact page _

theorem sweepReferralCommissions_keeps (cfg : Config A B) (inv : State A B → Prop)
    (cursor : ∀ s value accrued, inv s → inv {s with referralPayoutCursor:=value,accruedReferralCommission:=accrued})
    (each : ∀ s referrer credits, inv s → inv (tryPayReferralCommissionTokens cfg s referrer credits).1)
    (start : inv s) : inv (sweepReferralCommissions cfg s) := by
  have turn : ∀ s entry, inv s → inv (payReferrer cfg s entry) := by
    intro s entry fine
    simp only [payReferrer]
    split
    · exact fine
    · split
      · exact each s entry.1 entry.2 fine
      · exact cursor _ _ _ (each s entry.1 entry.2 fine)
  simp only [sweepReferralCommissions]
  split
  · exact start
  · split
    · exact cursor s none _ start
    · exact cursor _ _ _ (foldl_keeps inv turn _ start)

theorem tryPayReferralCommissionTokens_ok (cfg : Config A B) (s : State A B) (referrer : A)
    (credits : Nat) :
    ∃ bank events, (tryPayReferralCommissionTokens cfg s referrer credits).1 = {s with bank:=bank,events:=events} ∧
      (bank = s.bank ∨ ∃ amount paid, amount ≤ Bank.availableForPayout cfg.bank s.bank - commissionReserve s ∧
        Bank.requestPayment cfg.bank s.bank cfg.accountId referrer amount = .ok (bank,paid)) := by
  simp only [tryPayReferralCommissionTokens]
  split
  · exact ⟨s.bank,s.events,rfl,.inl rfl⟩
  · split
    · next bank paid ran => exact ⟨bank,_,rfl,.inr ⟨_,paid,Nat.min_le_right _ _,ran⟩⟩
    · exact ⟨s.bank,_,rfl,.inl rfl⟩

def SudoRefunded (cfg : Config A B) (s t : State A B) (owed : Nat) : Prop :=
  t.bank = s.bank ∧ t.pendingSudoRefunds = owed ∨ ∃ sudoAccount paid, s.sudoKey = some sudoAccount ∧
    Bank.requestPayment cfg.bank s.bank cfg.accountId sudoAccount owed = .ok (t.bank,paid) ∧ t.pendingSudoRefunds + paid = owed

theorem refundSudo_ok (cfg : Config A B) (s : State A B) (owed : Nat) :
    ∃ bank pending, refundSudo cfg s owed = {s with bank:=bank,pendingSudoRefunds:=pending} ∧
      SudoRefunded cfg s {s with bank:=bank,pendingSudoRefunds:=pending} owed := by
  unfold refundSudo
  cases key : s.sudoKey with
  | none => exact ⟨s.bank,owed,rfl,.inl ⟨rfl,rfl⟩⟩
  | some sudoAccount =>
    dsimp only
    split
    · next zero => exact ⟨s.bank,0,rfl,.inl ⟨rfl,zero.symm⟩⟩
    · split
      next bank paid ran =>
        have within := (Bank.requestPayment_ok ran).1
        exact ⟨bank,owed - paid,rfl,.inr ⟨sudoAccount,paid,key,ran,Nat.sub_add_cancel within⟩⟩
      · exact ⟨s.bank,owed,rfl,.inl ⟨rfl,rfl⟩⟩

theorem doMint_ok (ran : doMint s who amount code = .ok t) :
    ∃ referred events, t = {mintCredits s who amount with referredUsers:=referred,events:=events} := by
  simp only [doMint,bind_ok] at ran
  obtain ⟨_,inserts,same⟩ := ran
  cases same
  cases code with
  | none =>
    cases inserts
    exact ⟨_,_,rfl⟩
  | some =>
    simp only [insertReferralCode,passes] at inserts
    obtain ⟨_,_,_,_,same⟩ := inserts
    cases same
    exact ⟨_,_,rfl⟩

structure Paid (cfg : Config A B) (s t : State A B) (payer : A) (alpha : Nat) : Prop where
  deposited : Bank.depositFrom cfg.bank s.bank payer alpha .marketplaceRevenue = .ok t.bank
  total : t.totalUndistributedBacking = saturatingAdd 128 s.totalUndistributedBacking alpha
  marker : t.unbackedBatchAlpha = s.unbackedBatchAlpha

theorem takeBuyerBacking_ok (ran : takeBuyerBacking cfg s buyer alpha = .ok t) :
    ∃ bank, t = raiseBacking {s with bank:=bank} alpha ∧ Paid cfg s t buyer alpha := by
  unfold takeBuyerBacking at ran
  split at ran
  next bank deposited =>
    cases ran
    exact ⟨bank,rfl,deposited,rfl,rfl⟩
  · cases ran

inductive Backed (cfg : Config A B) (s t : State A B) (batchId alpha : Nat)
    (source : BackingSource A) : Prop where
  | nothing (zero : alpha = 0) (bank : t.bank = s.bank)
      (total : t.totalUndistributedBacking = s.totalUndistributedBacking) (marker : t.unbackedBatchAlpha = s.unbackedBatchAlpha)
  | paid (payer : A) (allowed : source = .buyer payer ∨ source = .sudoBestEffort ∧ s.sudoKey = some payer) (paid : Paid cfg s t payer alpha)
  | unbacked (effort : source = .sudoBestEffort) (bank : t.bank = s.bank)
      (total : t.totalUndistributedBacking = s.totalUndistributedBacking)
      (marker : t.unbackedBatchAlpha = update s.unbackedBatchAlpha batchId alpha)

structure Created (s t : State A B) (batch : Batch A) : Prop where
  batches : t.batches = s.batches.insert s.nextBatchId batch
  userBatches : t.userBatches = s.userBatches.insert batch.owner (batchesOf s batch.owner ++ [s.nextBatchId])
  nextBatchId : t.nextBatchId = saturatingAdd 64 s.nextBatchId 1
  freeCredits : t.freeCredits = update s.freeCredits batch.owner
    (saturatingAdd 128 (s.freeCredits batch.owner) batch.remainingCredits)
  alphaBalances : s.alphaBalances batch.owner + batch.alpha < 2 ^ 128 →
    t.alphaBalances = update s.alphaBalances batch.owner (s.alphaBalances batch.owner + batch.alpha)
  truncated : t.truncated = s.truncated
  pendingSudoRefunds : t.pendingSudoRefunds = s.pendingSudoRefunds
  sudoKey : t.sudoKey = s.sudoKey
  authorities : t.authorities = s.authorities

theorem takeSudoBacking_ok (cfg : Config A B) (s : State A B) (batchId alpha : Nat) :
    (∃ bank payer, s.sudoKey = some payer ∧ Bank.depositFrom cfg.bank s.bank payer alpha .marketplaceRevenue = .ok bank ∧
      takeSudoBacking cfg s batchId alpha = raiseBacking {s with bank:=bank} alpha) ∨
      takeSudoBacking cfg s batchId alpha = markUnbacked s batchId alpha := by
  unfold takeSudoBacking
  split
  · exact .inr rfl
  next payer key =>
    split
    · next bank deposited => exact .inl ⟨bank,payer,key,deposited,rfl⟩
    · exact .inr rfl

theorem routeBacking_ok (ran : routeBacking cfg s batchId alpha source = .ok t) :
    (∃ bank total marker, t = {s with bank:=bank,totalUndistributedBacking:=total,unbackedBatchAlpha:=marker}) ∧
      Backed cfg s t batchId alpha source := by
  unfold routeBacking at ran
  split at ran
  next zero =>
    cases ran
    exact ⟨⟨s.bank,_,_,rfl⟩,.nothing zero rfl rfl rfl⟩
  · cases source with
    | buyer buyer =>
      obtain ⟨bank,rfl,paid⟩ := takeBuyerBacking_ok ran
      exact ⟨⟨bank,_,_,rfl⟩,.paid buyer (.inl rfl) paid⟩
    | sudoBestEffort =>
      cases ran
      rcases takeSudoBacking_ok cfg s batchId alpha with ⟨bank,payer,key,deposited,same⟩ | same
      · rw [same]
        exact ⟨⟨bank,_,_,rfl⟩,.paid payer (.inr ⟨rfl,key⟩) ⟨deposited,rfl,rfl⟩⟩
      · rw [same]
        exact ⟨⟨s.bank,_,_,rfl⟩,.unbacked rfl rfl rfl rfl⟩

theorem createBatch_ok (ran : createBatch cfg s sender credits alpha freeze code source = .ok (t,batchId)) :
    batchId = s.nextBatchId ∧ t.lastPurchaseBatch = s.lastPurchaseBatch ∧
      (∃ time, Created s t ⟨sender,credits,alpha,credits,alpha,0,freeze,time⟩) ∧ Backed cfg s t s.nextBatchId alpha source := by
  simp only [createBatch,bind_ok] at ran
  obtain ⟨_,mints,_,routes,same⟩ := ran
  cases same
  obtain ⟨_,_,rfl⟩ := doMint_ok mints
  obtain ⟨⟨bank,total,marker,rfl⟩,backed⟩ := routeBacking_ok routes
  refine ⟨rfl,rfl,⟨_,rfl,rfl,rfl,rfl,?_,rfl,rfl,rfl,rfl⟩,?_⟩
  · intro fits
    refine congrArg (update s.alphaBalances sender) (saturatingAdd_exact ?_)
    exact fits
  · cases backed with
    | nothing zero bank total marker => exact .nothing zero bank total marker
    | paid payer allowed paid => exact .paid payer allowed ⟨paid.deposited,paid.total,paid.marker⟩
    | unbacked effort bank total marker => exact .unbacked effort bank total marker

theorem deposit_ok (ran : deposit cfg s origin account credits alpha freeze code = .ok t) :
    t.lastPurchaseBatch = s.lastPurchaseBatch ∧
      (∃ time, Created s t ⟨account,credits,alpha,credits,alpha,0,freeze,time⟩) ∧
      Backed cfg s t s.nextBatchId alpha .sudoBestEffort := by
  simp only [deposit,passes] at ran
  obtain ⟨_,_,_,_,creates,same⟩ := ran
  cases same
  exact (createBatch_ok creates).2

theorem refundCreditsWithBatch_ok (cfg : Config A B) (ran : refundCreditsWithBatch s who amount = .ok t) :
    t = s ∨ t.lastPurchaseBatch = s.lastPurchaseBatch ∧
      (∃ time, Created s t ⟨who,amount,0,amount,0,0,false,time⟩) ∧ Backed cfg s t s.nextBatchId 0 .sudoBestEffort := by
  unfold refundCreditsWithBatch at ran
  split at ran
  · cases ran
    exact .inl rfl
  · simp only [bind_ok] at ran
    obtain ⟨_,mints,same⟩ := ran
    cases same
    obtain ⟨_,_,rfl⟩ := doMint_ok mints
    refine .inr ⟨rfl,⟨_,rfl,rfl,rfl,rfl,?_,rfl,rfl,rfl,rfl⟩,.nothing rfl rfl rfl rfl⟩
    intro _
    exact (update_eq_self who s.alphaBalances).symm

structure ToppedUp (s t : State A B) (who : A) (batchId : Nat) (batch : Batch A)
    (credits alpha : Nat) : Prop where
  found : s.batches.lookup batchId = some batch
  own : batch.owner = who
  unfrozen : batch.isFrozen = false
  batches : t.batches = s.batches.insert batchId (topUp batch credits alpha)
  userBatches : batchId ∈ batchesOf s who ∧ t.userBatches = s.userBatches ∨
    batchId ∉ batchesOf s who ∧ t.userBatches = s.userBatches.insert who (batchesOf s who ++ [batchId])
  nextBatchId : t.nextBatchId = s.nextBatchId
  freeCredits : t.freeCredits = update s.freeCredits who (saturatingAdd 128 (s.freeCredits who) credits)
  alphaBalances : t.alphaBalances = update s.alphaBalances who (saturatingAdd 128 (s.alphaBalances who) alpha)
  lastPurchaseBatch : t.lastPurchaseBatch = s.lastPurchaseBatch
  truncated : t.truncated = s.truncated
  pendingSudoRefunds : t.pendingSudoRefunds = s.pendingSudoRefunds
  sudoKey : t.sudoKey = s.sudoKey

theorem refileBatch_ok (ran : refileBatch s who batchId = .ok t) :
    ∃ lists, t = {s with userBatches:=lists} ∧
      (batchId ∈ batchesOf s who ∧ lists = s.userBatches ∨
        batchId ∉ batchesOf s who ∧ lists = s.userBatches.insert who (batchesOf s who ++ [batchId])) := by
  unfold refileBatch at ran
  split at ran
  next listed =>
    cases ran
    exact ⟨s.userBatches,rfl,.inl ⟨listed,rfl⟩⟩
  next unlisted =>
    simp only [passes] at ran
    cases ran.2
    exact ⟨_,rfl,.inr ⟨unlisted,rfl⟩⟩

theorem growPurchaseBatch_ok (ran : growPurchaseBatch cfg s who credits alpha code = .ok (t,batchId)) :
    ∃ batch, ToppedUp s t who batchId batch credits alpha ∧ Paid cfg s t who alpha := by
  simp only [growPurchaseBatch,passes] at ran
  obtain ⟨_,_,_,files,_,fills,same⟩ := ran
  cases same
  obtain ⟨_,rfl,listed⟩ := refileBatch_ok files
  simp only [topUpPurchaseBatch,passes] at fills
  obtain ⟨batch,found,⟨own,unfrozen⟩,_,mints,_,backs,same⟩ := fills
  cases same
  obtain ⟨_,_,rfl⟩ := doMint_ok mints
  obtain ⟨_,rfl,paid⟩ := takeBuyerBacking_ok backs
  exact ⟨batch,⟨found,own,unfrozen,rfl,listed,rfl,rfl,rfl,rfl,rfl,rfl,rfl⟩,paid.deposited,paid.total,paid.marker⟩

theorem admitPurchase_ok (ran : admitPurchase cfg s who alpha minCredits code = .ok (price,credits)) :
    0 < alpha ∧ s.freeCredits who + credits < 2 ^ 128 := by
  simp only [admitPurchase,passes] at ran
  obtain ⟨_,_,⟨positive,_⟩,_,_,_,_,_,_,_,fits,_,rfl⟩ := ran
  obtain ⟨_,fits⟩ := Option.isSome_iff_exists.mp fits
  exact ⟨positive,(checkedAdd_some.mp fits).1⟩

theorem buyCredits_ok (ran : buyCredits cfg s origin alpha minCredits code = .ok t) :
    ∃ who credits, origin = .signed who ∧ s.freeCredits who + credits < 2 ^ 128 ∧ Paid cfg s t who alpha ∧
      ((∃ time, Created s t ⟨who,credits,alpha,credits,alpha,0,false,time⟩) ∧
          t.lastPurchaseBatch = update s.lastPurchaseBatch who (some s.nextBatchId) ∨
        ∃ batchId batch, ToppedUp s t who batchId batch credits alpha) := by
  simp only [buyCredits,passes] at ran
  obtain ⟨who,signer,⟨_,credits⟩,admitted,bought,buys,same⟩ := ran
  cases same
  obtain ⟨_,fits⟩ := admitPurchase_ok admitted
  have signed : origin = .signed who := by
    cases origin with
    | root => cases signer
    | signed =>
      cases signer
      rfl
  refine ⟨who,credits,signed,fits,?_⟩
  unfold fillPurchase at buys
  split at buys
  · simp only [openPurchaseBatch,bind_ok] at buys
    obtain ⟨⟨made,_⟩,creates,same⟩ := buys
    cases same
    obtain ⟨named,pointers,⟨time,created⟩,backed⟩ := createBatch_ok creates
    have paid : Paid cfg s made who alpha := by
      cases backed with
      | nothing => omega
      | paid _ allowed paid =>
        rcases allowed with buyer | ⟨effort,_⟩
        · cases buyer
          exact ⟨paid.deposited,paid.total,paid.marker⟩
        · cases effort
      | unbacked effort => cases effort
    refine ⟨⟨paid.deposited,paid.total,paid.marker⟩,.inl ⟨⟨time,?_⟩,?_⟩⟩
    · exact ⟨created.batches,created.userBatches,created.nextBatchId,created.freeCredits,created.alphaBalances,
        created.truncated,created.pendingSudoRefunds,created.sudoKey,created.authorities⟩
    · subst named
      exact congrArg (fun pointers => update pointers who (some s.nextBatchId)) pointers
  · obtain ⟨batch,topped,paid⟩ := growPurchaseBatch_ok buys
    exact ⟨⟨paid.deposited,paid.total,paid.marker⟩,.inr ⟨bought.2,batch,topped.found,topped.own,topped.unfrozen,topped.batches,
      topped.userBatches,topped.nextBatchId,topped.freeCredits,topped.alphaBalances,topped.lastPurchaseBatch,topped.truncated,
      topped.pendingSudoRefunds,topped.sudoKey⟩⟩

theorem reverseBacking_ok (cfg : Config A B) (s : State A B) (batchId : Nat) (batch : Batch A) :
    ∃ bank pending owed,
      reverseBacking cfg s batchId batch =
        {shift s batchId batch.owner (saturatingAdd 128 batch.remainingAlpha batch.pendingAlpha) with
          bank:=bank,pendingSudoRefunds:=pending} ∧
      owed ≤ saturatingAdd 128 batch.remainingAlpha batch.pendingAlpha - s.unbackedBatchAlpha batchId + s.pendingSudoRefunds ∧
      (saturatingAdd 128 batch.remainingAlpha batch.pendingAlpha - s.unbackedBatchAlpha batchId + s.pendingSudoRefunds < 2 ^ 128 →
        owed = saturatingAdd 128 batch.remainingAlpha batch.pendingAlpha - s.unbackedBatchAlpha batchId + s.pendingSudoRefunds) ∧
      SudoRefunded cfg s {s with bank:=bank,pendingSudoRefunds:=pending} owed := by
  simp only [reverseBacking,releaseAlpha_eq]
  split
  next zero =>
    rw [zero,shift_zero,Nat.zero_sub,Nat.zero_add]
    exact ⟨s.bank,s.pendingSudoRefunds,s.pendingSudoRefunds,rfl,le_rfl,fun _ => rfl,.inl ⟨rfl,rfl⟩⟩
  · obtain ⟨bank,pending,same,refunds⟩ := refundSudo_ok cfg
      (shift s batchId batch.owner (saturatingAdd 128 batch.remainingAlpha batch.pendingAlpha))
      (saturatingAdd 128 (saturatingAdd 128 batch.remainingAlpha batch.pendingAlpha - s.unbackedBatchAlpha batchId)
        s.pendingSudoRefunds)
    exact ⟨bank,pending,_,same,saturatingAdd_le,saturatingAdd_exact,refunds⟩

theorem handleChargeback_ok (ran : handleChargeback cfg s batchId = .ok t) :
    s.batches.lookup batchId = none ∧ t = s ∨ ∃ batch bank pending owed purchased events,
      s.batches.lookup batchId = some batch ∧ batch.isFrozen = true ∧ batch.remainingCredits ≤ s.freeCredits batch.owner ∧
      owed ≤ saturatingAdd 128 batch.remainingAlpha batch.pendingAlpha - s.unbackedBatchAlpha batchId + s.pendingSudoRefunds ∧
      (saturatingAdd 128 batch.remainingAlpha batch.pendingAlpha - s.unbackedBatchAlpha batchId + s.pendingSudoRefunds < 2 ^ 128 →
        owed = saturatingAdd 128 batch.remainingAlpha batch.pendingAlpha - s.unbackedBatchAlpha batchId + s.pendingSudoRefunds) ∧
      SudoRefunded cfg s {s with bank:=bank,pendingSudoRefunds:=pending} owed ∧
      t = {shift s batchId batch.owner (saturatingAdd 128 batch.remainingAlpha batch.pendingAlpha) with
        bank:=bank
        pendingSudoRefunds:=pending
        userBatches:=(removeBatch s batchId batch.owner).userBatches
        batches:=s.batches.erase batchId
        freeCredits:=update s.freeCredits batch.owner (s.freeCredits batch.owner - batch.remainingCredits)
        totalCreditsPurchased:=purchased
        events:=events} := by
  unfold handleChargeback at ran
  split at ran
  next missing =>
    cases ran
    exact .inl ⟨missing,rfl⟩
  next batch found =>
    simp only [passes] at ran
    obtain ⟨⟨frozen,_⟩,enough,same⟩ := ran
    obtain ⟨bank,pending,owed,reversed,refunds⟩ := reverseBacking_ok cfg s batchId batch
    rw [reversed] at enough same
    cases same
    exact .inr ⟨batch,bank,pending,owed,_,_,found,frozen,enough,refunds.1,refunds.2.1,refunds.2.2,rfl⟩

theorem releaseMatured_ok (now : Nat) (s : State A B) (entry : Nat × Batch A) :
    releaseMatured now s entry = s ∨ ∃ lists,
      releaseMatured now s entry =
        {shift s entry.1 entry.2.owner entry.2.pendingAlpha with
          userBatches:=lists
          batches:=s.batches.insert entry.1 {entry.2 with isFrozen:=false,pendingAlpha:=0}} ∧
      (lists = s.userBatches ∨ batchIsSpent {entry.2 with isFrozen:=false,pendingAlpha:=0} ∧
        lists = (relist s entry.2.owner ((batchesOf s entry.2.owner).filter (· ≠ entry.1))).userBatches) := by
  unfold releaseMatured
  split
  · exact .inl rfl
  split
  · exact .inl rfl
  · rw [unfreeze_eq]
    dsimp only
    split
    · next spent => exact .inr ⟨_,rfl,.inr ⟨spent,rfl⟩⟩
    · exact .inr ⟨_,rfl,.inl rfl⟩

theorem tryPay_sameBatches (cfg : Config A B) (s : State A B) (referrer : A) (credits : Nat) :
    SameBatches s (tryPayReferralCommissionTokens cfg s referrer credits).1 := by
  obtain ⟨_,_,same,_⟩ := tryPayReferralCommissionTokens_ok cfg s referrer credits
  rw [same]
  exact {}

theorem sweep_sameBatches (cfg : Config A B) (s : State A B) : SameBatches s (sweepReferralCommissions cfg s) := by
  apply sweepReferralCommissions_keeps cfg (SameBatches s)
  · intro t value accrued same
    exact same.trans {}
  · intro t referrer credits same
    exact same.trans (tryPay_sameBatches cfg t referrer credits)
  · exact SameBatches.refl s

structure SameReserves (s t : State A B) : Prop where
  batches : t.batches = s.batches := by rfl
  unbackedBatchAlpha : t.unbackedBatchAlpha = s.unbackedBatchAlpha := by rfl
  totalUndistributedBacking : t.totalUndistributedBacking = s.totalUndistributedBacking := by rfl
  pendingSudoRefunds : t.pendingSudoRefunds = s.pendingSudoRefunds := by rfl
  bank : t.bank = s.bank := by rfl

def Call.administers : Call A B → Bool
  | .addAuthority .. | .removeAuthority .. | .setAlphaPrice .. | .referralCodeCreated .. | .setBuyCreditsEnabled ..
  | .setSudoKey .. | .setReferralCommissionRate .. | .setReferralBankFloor .. | .accrueHourlyReferralCommission .. => true
  | _ => false

theorem administers_same (call : Call A B) (administers : call.administers = true)
    (ran : dispatch cfg s call = .ok t) : SameBatches s t ∧ SameReserves s t := by
  cases call with
  | addAuthority =>
    simp only [dispatch,addAuthority,passes] at ran
    cases ran.2.2
    exact ⟨{},{}⟩
  | removeAuthority =>
    simp only [dispatch,removeAuthority,passes] at ran
    cases ran.2.2
    exact ⟨{},{}⟩
  | setAlphaPrice =>
    simp only [dispatch,setAlphaPrice,passes] at ran
    obtain ⟨_,_,_,same⟩ := ran
    cases same
    exact ⟨{},{}⟩
  | referralCodeCreated =>
    cases ran
    exact ⟨{},{}⟩
  | setBuyCreditsEnabled =>
    simp only [dispatch,setBuyCreditsEnabled,passes] at ran
    cases ran.2
    exact ⟨{},{}⟩
  | setSudoKey =>
    simp only [dispatch,setSudoKey,passes] at ran
    cases ran.2
    exact ⟨{},{}⟩
  | setReferralCommissionRate =>
    simp only [dispatch,setReferralCommissionRate,passes] at ran
    cases ran.2.2
    exact ⟨{},{}⟩
  | setReferralBankFloor =>
    simp only [dispatch,setReferralBankFloor,passes] at ran
    cases ran.2
    exact ⟨{},{}⟩
  | accrueHourlyReferralCommission =>
    cases ran
    simp only [accrueHourlyReferralCommission]
    split
    · exact ⟨{},{}⟩
    · split <;> exact ⟨{},{}⟩
  | _ => cases administers

def Call.quiet : Call A B → Bool
  | .retryPendingSudoRefunds .. | .tryPayReferralCommissionTokens .. | .sweepReferralCommissions | .bank .. => true
  | call => call.administers

theorem quiet_sameBatches (call : Call A B) (quiet : call.quiet = true) (ran : dispatch cfg s call = .ok t) :
    SameBatches s t := by
  by_cases administers : call.administers = true
  · exact (administers_same call administers ran).1
  cases call with
  | retryPendingSudoRefunds =>
    simp only [dispatch,retryPendingSudoRefunds,passes] at ran
    cases ran.2
    split
    · exact {}
    · obtain ⟨bank,_,same,_⟩ := refundSudo_ok cfg s s.pendingSudoRefunds
      rw [same]
      exact {}
  | tryPayReferralCommissionTokens referrer credits =>
    cases ran
    exact tryPay_sameBatches cfg s referrer credits
  | sweepReferralCommissions =>
    cases ran
    exact sweep_sameBatches cfg s
  | bank =>
    cases ran
    exact {}
  | addAuthority | removeAuthority | setAlphaPrice | referralCodeCreated | setBuyCreditsEnabled | setSudoKey
  | setReferralCommissionRate | setReferralBankFloor | accrueHourlyReferralCommission | burn | deposit | buyCredits
  | consumeCredits | refundCreditsWithBatch | chargeback | releaseMaturedPendingAlpha | pruneSpentUserBatches
  | onInitialize => exact absurd quiet administers

theorem onInitialize_keeps (cfg : Config A B) (inv : State A B → Prop) (now : Nat)
    (advances : ∀ requests, inv {s with bank:={s.bank with blockNumber:=now},userRequestsCount:=requests})
    (sweeps : ∀ s, inv s → inv (sweepReferralCommissions cfg s))
    (cursor : ∀ s value, inv s → inv {s with alphaReleaseCursor:=value})
    (each : ∀ s entry, inv s → s.batches.lookup entry.1 = some entry.2 → inv (releaseMatured now s entry)) :
    inv (onInitialize cfg s now) := by
  simp only [onInitialize]
  have advanced : inv (if now % 15 = 0 then {s with bank:={s.bank with blockNumber:=now},userRequestsCount:=fun _ => 0}
      else {s with bank:={s.bank with blockNumber:=now}}) := by
    split
    · exact advances fun _ => 0
    · exact advances s.userRequestsCount
  generalize (if now % 15 = 0 then _ else _) = advancedState at *
  have swept : inv (if now % cfg.referralPayoutInterval = 0 then sweepReferralCommissions cfg advancedState else advancedState) := by
    split
    · exact sweeps _ advanced
    · exact advanced
  split
  · exact releaseMaturedPendingAlpha_keeps cfg inv now cursor each swept
  · exact swept

def Call.calm : Call A B → Bool
  | .releaseMaturedPendingAlpha .. | .pruneSpentUserBatches .. | .onInitialize .. => true
  | call => call.quiet

theorem calm_keeps (inv : State A B → Prop) (same : ∀ u v, SameBatches u v → inv u → inv v)
    (released : ∀ now u entry, inv u → u.batches.lookup entry.1 = some entry.2 → inv (releaseMatured now u entry))
    (pruned : ∀ u who, inv u → inv (pruneList u who)) (start : inv s) (calm : call.calm = true)
    (ran : dispatch cfg s call = .ok t) : inv t := by
  by_cases quiet : call.quiet = true
  · exact same s t (quiet_sameBatches call quiet ran) start
  cases call with
  | releaseMaturedPendingAlpha =>
    cases ran
    exact releaseMaturedPendingAlpha_keeps cfg inv s.blockNumber (fun u _ => same u _ {}) (released _) start
  | pruneSpentUserBatches limit =>
    cases ran
    exact pruneSpentUserBatches_keeps cfg inv limit (fun u _ _ => same u _ {}) pruned start
  | onInitialize now =>
    cases ran
    exact onInitialize_keeps cfg inv now (fun _ => same s _ {} start) (fun u => same u _ (sweep_sameBatches cfg u))
      (fun u _ => same u _ {}) (released now)
  | _ => exact absurd calm quiet

end TheBrain.Marketplace
