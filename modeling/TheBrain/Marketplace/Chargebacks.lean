import TheBrain.Marketplace.Reserves
import TheBrain.Marketplace.Spending

namespace TheBrain.Marketplace
open Library Machine Words Function StorageMap

variable {A B : Type}
variable {s t u : State A B}

def burns [DecidableEq A] (cfg : Config A B) (who : A) (s : State A B) (call : Call A B) : List Nat :=
  if (dispatch cfg s call).isOk then [burntFrom who call] else []

-- The total has the backing of every batch, and a frozen batch was deposited whole, so its
-- alpha fits.
structure Chargeable (s : State A B) : Prop where
  counted : BackingCounted s
  fits : ∀ batchId batch, s.batches.lookup batchId = some batch → batch.isFrozen = true → batch.alpha < 2 ^ 128

theorem genesis_chargeable (bank : Bank.State A B) : Chargeable (genesis bank) where
  counted := Nat.le_refl 0
  fits _ _ found := nomatch found

theorem SameBatches.chargeable (same : SameBatches s t) (fine : Chargeable s) : Chargeable t where
  counted := by
    rw [BackingCounted,backedAlpha,same.batches,same.unbackedBatchAlpha,same.totalUndistributedBacking]
    exact fine.counted
  fits := by
    rw [same.batches]
    exact fine.fits

theorem rewrite_fits (fits : ∀ batchId batch, s.batches.lookup batchId = some batch → batch.isFrozen = true → batch.alpha < 2 ^ 128)
    (rows : t.batches = s.batches.insert changed next) (small : next.isFrozen = true → next.alpha < 2 ^ 128)
    (batchId : Nat) (batch : Batch A) (found : t.batches.lookup batchId = some batch) (frozen : batch.isFrozen = true) :
    batch.alpha < 2 ^ 128 := by
  rw [rows] at found
  rcases insert_cases found with ⟨_,rfl⟩ | ⟨_,found⟩
  · exact small frozen
  · exact fits batchId batch found frozen

variable [DecidableEq A] {cfg : Config A B}

theorem Shifted.chargeable (shifted : Shifted s t batchId owner released) (fine : Chargeable s)
    (found : s.batches.lookup batchId = some batch) (rows : t.batches = s.batches.insert batchId next)
    (shrinks : next.alpha + released ≤ batch.alpha) (frozen : next.isFrozen = true → batch.isFrozen = true) : Chargeable t where
  counted := shifted.counted fine.counted found rows shrinks
  fits := by
    refine rewrite_fits fine.fits rows ?_
    intro still
    have before := fine.fits batchId batch found (frozen still)
    omega

theorem visited_chargeable {w next : Walk A B} (visited : Visited w sender batchId next) (fine : Chargeable w.state) :
    Chargeable next.state := by
  cases visited with
  | passed =>
    rw [file_state]
    exact fine
  | took _ _ _ found own _ taken =>
    rw [file_state]
    exact Shifted.chargeable {} fine found rfl taken.shrinks taken.frozen

theorem consumeCredits_chargeable (ran : consumeCredits s sender credits = .ok t) (fine : Chargeable s) : Chargeable t := by
  refine consumeCredits_keeps Chargeable ?_ ?_ ?_ fine ran
  · exact fun _ _ _ fine visited => visited_chargeable visited fine
  · exact fun _ _ fine => ⟨fine.counted,fine.fits⟩
  · exact fun _ fine => SameBatches.chargeable {} fine

theorem releaseMatured_chargeable (now : Nat) (entry : Nat × Batch A) (fine : Chargeable s)
    (found : s.batches.lookup entry.1 = some entry.2) : Chargeable (releaseMatured now s entry) := by
  rcases releaseMatured_ok now s entry with same | ⟨_,same,_⟩
  · rw [same]
    exact fine
  · rw [same]
    exact Shifted.chargeable {} fine found rfl le_rfl nofun

theorem handleChargeback_chargeable (ran : handleChargeback cfg s batchId = .ok t) (fine : Chargeable s) : Chargeable t := by
  rcases handleChargeback_ok ran with ⟨_,same⟩ | ⟨batch,_,_,_,_,_,found,_,_,_,_,_,same⟩
  · rw [same]
    exact fine
  · have within : saturatingAdd 128 batch.remainingAlpha batch.pendingAlpha ≤ batch.alpha := saturatingAdd_le
    have shifted : Shifted s t batchId batch.owner (saturatingAdd 128 batch.remainingAlpha batch.pendingAlpha) := by
      rw [same]
      exact {}
    have rows : t.batches = s.batches.erase batchId := by rw [same]
    refine ⟨shifted.counted_erased fine.counted found rows within,?_⟩
    intro key other present frozen
    rw [rows] at present
    exact fine.fits key other (erase_found present).2 frozen

theorem Created.chargeable (created : Created s t batch) (fine : Chargeable s) (counted : BackingCounted t)
    (small : batch.alpha < 2 ^ 128) : Chargeable t :=
  ⟨counted,rewrite_fits fine.fits created.batches fun _ => small⟩

theorem ToppedUp.chargeable (topped : ToppedUp s t who batchId batch credits alpha) (fine : Chargeable s) (counted : BackingCounted t) :
    Chargeable t := by
  refine ⟨counted,rewrite_fits fine.fits topped.batches ?_⟩
  intro frozen
  exact absurd (topped.unfrozen.symm.trans frozen) Bool.false_ne_true

def BackingFits (cfg : Config A B) (s : State A B) : Call A B → Prop
  | .deposit _ _ _ alphaAmount _ _ =>
    ∀ payer ∈ s.sudoKey, (Bank.depositFrom cfg.bank s.bank payer alphaAmount .marketplaceRevenue).isOk = true →
      s.totalUndistributedBacking + alphaAmount < 2 ^ 128
  | .buyCredits _ alphaAmount _ _ => s.totalUndistributedBacking + alphaAmount < 2 ^ 128
  | _ => True

theorem dispatch_chargeable (call : Call A B) (ran : dispatch cfg s call = .ok t) (totals : BackingFits cfg s call)
    (fine : Chargeable s) : Chargeable t := by
  by_cases calm : call.calm = true
  · refine calm_keeps Chargeable (fun _ _ same => same.chargeable) ?_ ?_ fine calm ran
    · exact fun now _ entry fine found => releaseMatured_chargeable now entry fine found
    · intro u who fine
      simp only [pruneList]
      split
      · exact ⟨fine.counted,fine.fits⟩
      · exact fine
  cases call with
  | burn =>
    simp only [dispatch,burn,passes] at ran
    obtain ⟨_,_,_,_,same⟩ := ran
    cases same
    exact ⟨fine.counted,fine.fits⟩
  | deposit _ _ _ alpha =>
    obtain ⟨_,⟨time,created⟩,backed⟩ := deposit_ok ran
    refine created.chargeable fine ?_ alpha.isLt
    refine created.counted backed ?_ fine.counted
    intro payer paid allowed
    rcases allowed with buyer | ⟨_,key⟩
    · cases buyer
    · refine totals payer key ?_
      have deposited : Bank.depositFrom cfg.bank s.bank payer alpha .marketplaceRevenue = .ok t.bank := paid.deposited
      rw [deposited]
      rfl
  | buyCredits _ alpha =>
    obtain ⟨who,_,_,_,paid,bought⟩ := buyCredits_ok ran
    rcases bought with ⟨⟨time,created⟩,_⟩ | ⟨_,_,topped⟩
    · refine created.chargeable fine ?_ alpha.isLt
      exact created.counted (.paid who (.inl rfl) paid) (fun _ _ _ => totals) fine.counted
    · exact topped.chargeable fine (topped.counted paid totals fine.counted)
  | consumeCredits => exact consumeCredits_chargeable ran fine
  | refundCreditsWithBatch =>
    rcases refundCreditsWithBatch_ok cfg ran with same | ⟨_,⟨_,created⟩,backed⟩
    · rw [same]
      exact fine
    · refine created.chargeable fine ?_ (Nat.two_pow_pos 128)
      exact created.counted backed (fun _ paid _ => absurd paid.positive (Nat.lt_irrefl 0)) fine.counted
  | chargeback =>
    simp only [dispatch,chargeback,passes] at ran
    exact handleChargeback_chargeable ran.2 fine
  | _ => exact absurd rfl calm

theorem step_chargeable (s : State A B) (call : Call A B) (fine : Chargeable s)
    (totals : (dispatch cfg s call).isOk = true → BackingFits cfg s call) : Chargeable (step cfg s call) := by
  refine commit_inv Chargeable fine ?_
  intro t ran
  refine dispatch_chargeable call ran (totals ?_) fine
  rw [ran]
  rfl

def burning (cfg : Config A B) (who : A) : State A B × List Nat → Call A B → State A B × List Nat :=
  recording (step cfg) (burns cfg who)

-- A refused call leaves the state and burns nothing.
theorem burning_cases (cfg : Config A B) (who : A) (p : State A B × List Nat) (call : Call A B) :
    (∃ t, dispatch cfg p.1 call = .ok t ∧ (burning cfg who p call).1 = t ∧
      (burning cfg who p call).2.sum = p.2.sum + burntFrom who call) ∨ burning cfg who p call = p := by
  unfold burning recording burns step
  cases dispatch cfg p.1 call with
  | ok t =>
    refine .inl ⟨t,rfl,rfl,?_⟩
    rw [List.sum_append]
    rfl
  | error =>
    refine .inr ?_
    change (p.1,p.2 ++ []) = p
    rw [List.append_nil]

def Repayable (who : A) (p : State A B × List Nat) : Prop := ownedCredits p.1 who ≤ p.1.freeCredits who + p.2.sum

structure Accounted (who : A) (p : State A B × List Nat) : Prop extends Listing p.1 where
  most : p.1.freeCredits who + p.2.sum ≤ ownedCredits p.1 who

theorem burning_repayable (p : State A B × List Nat) (call : Call A B) (fine : Repayable who p)
    (mints : (dispatch cfg p.1 call).isOk = true → MintsWhole p.1 who call) : Repayable who (burning cfg who p call) := by
  rcases burning_cases cfg who p call with ⟨t,ran,same,total⟩ | same
  · have least := (dispatch_shifts call ran who).least (mints (by rw [ran]; rfl))
    unfold Repayable at fine ⊢
    rw [same,total]
    omega
  · rw [same]
    exact fine

theorem burning_accounted (p : State A B × List Nat) (call : Call A B) (fine : Accounted who p)
    (within : IdsLeft p.1 call ∧ ownedCredits (step cfg p.1 call) who < maxOf 128) : Accounted who (burning cfg who p call) := by
  rcases burning_cases cfg who p call with ⟨t,ran,same,total⟩ | same
  · have stepped : step cfg p.1 call = t := congrArg (commit p.1) ran
    have shifted := (dispatch_shifts call ran who).most fine.toListing (stepped ▸ within.2)
    have before := fine.most
    refine ⟨?_,?_⟩
    · rw [same]
      exact dispatch_listing call ran fine.toListing within.1
    · rw [same,total]
      omega
  · rw [same]
    exact fine

structure ChargedBack (cfg : Config A B) (s t : State A B) (batchId : Nat) (batch : Batch A) :
    Prop where
  batches : t.batches = s.batches.erase batchId
  credits : t.freeCredits batch.owner + batch.remainingCredits = s.freeCredits batch.owner
  others : ∀ who, who ≠ batch.owner → t.freeCredits who = s.freeCredits who
  backing : t.totalUndistributedBacking + (batch.alpha - s.unbackedBatchAlpha batchId) = s.totalUndistributedBacking
  refund : batch.alpha - s.unbackedBatchAlpha batchId + s.pendingSudoRefunds < 2 ^ 128 →
    SudoRefunded cfg s t (batch.alpha - s.unbackedBatchAlpha batchId + s.pendingSudoRefunds)

theorem handleChargeback_succeeds (cfg : Config A B) (found : s.batches.lookup batchId = some batch) (frozen : batch.isFrozen = true)
    (early : s.blockNumber < batch.releaseTime) (enough : batch.remainingCredits ≤ s.freeCredits batch.owner) :
    ∃ t, handleChargeback cfg s batchId = .ok t := by
  obtain ⟨_,_,_,reversed,_⟩ := reverseBacking_ok cfg s batchId batch
  simp only [handleChargeback,found,passes,reversed]
  exact ⟨_,⟨frozen,early⟩,enough,rfl⟩

theorem handleChargeback_charged (ran : handleChargeback cfg s batchId = .ok t) (found : s.batches.lookup batchId = some batch) :
    batch.remainingCredits ≤ s.freeCredits batch.owner ∧ (Chargeable s → ChargedBack cfg s t batchId batch) := by
  rcases handleChargeback_ok ran with ⟨missing,_⟩ | ⟨_,_,_,_,_,_,held,frozen,enough,_,exactly,refunds,same⟩
  · cases missing.symm.trans found
  cases held.symm.trans found
  refine ⟨enough,?_⟩
  intro fine
  have counted := backing_held fine.counted found
  have whole : saturatingAdd 128 batch.remainingAlpha batch.pendingAlpha = batch.alpha :=
    saturatingAdd_exact (fine.fits batchId batch found frozen)
  rw [whole] at exactly same
  cases same
  refine ⟨rfl,?_,fun who other => update_of_ne other ..,Nat.sub_add_cancel counted,?_⟩
  · change update s.freeCredits batch.owner _ batch.owner + _ = _
    rw [update_self]
    exact Nat.sub_add_cancel enough
  · intro small
    exact exactly small ▸ refunds

def WholeTo (cfg : Config A B) (who : A) (s : State A B) (call : Call A B) : Prop :=
  (dispatch cfg s call).isOk = true → MintsWhole s who call ∧ BackingFits cfg s call

-- What has been burnt from the owner must be found in its other batches, and then it is
-- enough; the owner's rows being kept apart and below the maximum, it is also necessary.
theorem chargeback_succeeds (cfg : Config A B) (bank : Bank.State A B) (calls : List (Call A B)) (batchId : Word 64) (batch : Batch A)
    (whole : Throughout (step cfg) (WholeTo cfg batch.owner) (genesis bank) calls) :
    let s := run (step cfg) (genesis bank) calls
    let burnt := (run (burning cfg batch.owner) (genesis bank,[]) calls).2.sum
    s.batches.lookup (batchId : Nat) = some batch → batch.isFrozen = true → s.blockNumber < batch.releaseTime →
      (burnt + batch.remainingCredits ≤ ownedCredits s batch.owner →
        ∃ t : State A B, chargeback cfg s .root batchId = .ok t ∧ t.batches.lookup (batchId : Nat) = none ∧
          t.freeCredits batch.owner + batch.remainingCredits = s.freeCredits batch.owner ∧
          (∀ who, who ≠ batch.owner → t.freeCredits who = s.freeCredits who) ∧
          t.totalUndistributedBacking + (batch.alpha - s.unbackedBatchAlpha batchId) = s.totalUndistributedBacking ∧
          (batch.alpha - s.unbackedBatchAlpha batchId + s.pendingSudoRefunds < 2 ^ 128 →
            SudoRefunded cfg s t (batch.alpha - s.unbackedBatchAlpha batchId + s.pendingSudoRefunds))) ∧
      (Throughout (step cfg) (fun u call => IdsLeft u call ∧ ownedCredits (step cfg u call) batch.owner < maxOf 128)
          (genesis bank) calls →
        (chargeback cfg s .root batchId).isOk = true → burnt + batch.remainingCredits ≤ ownedCredits s batch.owner) := by
  intro s burnt found frozen early
  have state : (run (burning cfg batch.owner) (genesis bank,[]) calls).1 = s := run_recording_fst ..
  refine ⟨?_,?_⟩
  · intro left
    have least : Repayable batch.owner (run (burning cfg batch.owner) (genesis bank,[]) calls) :=
      run_invariant _ (fun p call fine fits => burning_repayable p call fine fun ran => (fits ran).1) (Nat.le_refl 0)
        (throughout_recording _ (genesis bank,[]) whole)
    have fine : Chargeable s := run_invariant Chargeable (fun u call fine fits => step_chargeable u call fine fun ran => (fits ran).2)
      (genesis_chargeable bank) whole
    unfold Repayable at least
    rw [state] at least
    obtain ⟨t,ran⟩ := handleChargeback_succeeds cfg found frozen early (by omega)
    have charged := (handleChargeback_charged ran found).2 fine
    refine ⟨t,ran,?_,charged.credits,charged.others,charged.backing,charged.refund⟩
    rw [charged.batches,AList.lookup_erase]
  · intro within accepted
    have accounted : Accounted batch.owner (run (burning cfg batch.owner) (genesis bank,[]) calls) :=
      run_invariant _ burning_accounted ⟨genesis_listing bank,Nat.le_refl 0⟩ (throughout_recording _ (genesis bank,[]) within)
    have most := accounted.most
    rw [state] at most
    cases ran : chargeback cfg s .root batchId with
    | error => rw [ran] at accepted; cases accepted
    | ok t =>
      simp only [chargeback,passes] at ran
      have enough := (handleChargeback_charged ran.2 found).1
      omega

instance (s : State A B) (who : A) : DecidablePred (MintsWhole s who) := fun call => by
  induction call using Call.casesOn <;> dsimp only [MintsWhole] <;> infer_instance

instance (cfg : Config A B) (s : State A B) : DecidablePred (BackingFits cfg s) := fun call => by
  induction call using Call.casesOn <;> dsimp only [BackingFits] <;> infer_instance

instance (cfg : Config A B) (who : A) (s : State A B) : DecidablePred (WholeTo cfg who s) := fun _ =>
  inferInstanceAs (Decidable (_ → _ ∧ _))

def disputed : List (Call Nat (Nat → Nat)) :=
  [ .addAuthority .root 5,.setSudoKey .root 7,.deposit (.signed 5) 1 100 40 true none,
    .consumeCredits 1 50,.refundCreditsWithBatch 1 10,.consumeCredits 1 5,.burn (.signed 5) 1 4,.consumeCredits 2 1]

theorem chargeback_succeeds_disputed :
    let s := run (step plainConfig) (genesis Bank.opened) disputed
    s.freeCredits 1 = 51 ∧ s.totalUndistributedBacking = 40 ∧
      ∃ t, chargeback plainConfig s .root 0 = .ok t ∧ t.freeCredits 1 = 6 ∧ t.totalUndistributedBacking = 0 := by
  intro s
  have free : s.freeCredits 1 = 51 := by decide +kernel
  have total : s.totalUndistributedBacking = 40 := by decide +kernel
  have marker : s.unbackedBatchAlpha 0 = 0 := by decide +kernel
  obtain ⟨t,ran,_,credits,_,backing,_⟩ := (chargeback_succeeds plainConfig Bank.opened disputed 0 ⟨1,100,40,45,18,22,true,432000⟩
    (by decide +kernel) (by decide +kernel) rfl (by decide +kernel)).1 (by decide +kernel)
  refine ⟨free,total,t,ran,?_,?_⟩
  · change t.freeCredits 1 + 45 = s.freeCredits 1 at credits
    omega
  · change t.totalUndistributedBacking + (40 - s.unbackedBatchAlpha 0) = s.totalUndistributedBacking at backing
    omega

def withinWindow (s : State A B) (batchId : Nat) : Bool :=
  (s.batches.lookup batchId).any fun batch => batch.isFrozen && s.blockNumber < batch.releaseTime

def wealthy : Bank.State Nat (Nat → Nat) := Bank.genesis (fun who => if who = 0 then 100 else if who = 7 then 2 ^ 128 - 200 else 0) {9}

def staffedRun (bank : Bank.State Nat (Nat → Nat)) (calls : List (Call Nat (Nat → Nat))) : State Nat (Nat → Nat) :=
  run (step plainConfig) (genesis bank) (.addAuthority .root 5 :: .setSudoKey .root 7 :: calls)

def frozenDeposit (credits alpha : Word 128) : Call Nat (Nat → Nat) := .deposit (.signed 5) 1 credits alpha true none

def moveToSudo (amount : Word 128) : Call Nat (Nat → Nat) := .bank (.requestPayment 9 7 amount)

def burnt : State Nat (Nat → Nat) := staffedRun Bank.opened [frozenDeposit 10 0,.burn (.signed 5) 1 10]

def overdrawn : State Nat (Nat → Nat) := staffedRun Bank.opened [frozenDeposit (2 ^ 128 - 1) 0,frozenDeposit 5 0,.chargeback .root 0]

def undercounted : State Nat (Nat → Nat) := staffedRun wealthy
  [frozenDeposit 0 (2 ^ 127),moveToSudo (2 ^ 127),frozenDeposit 0 (2 ^ 127),.chargeback .root 0]

def overdue : State Nat (Nat → Nat) := staffedRun wealthy
  [frozenDeposit 0 (2 ^ 127),moveToSudo (2 ^ 127),.chargeback .root 0,frozenDeposit 0 (2 ^ 127 + 200),moveToSudo (2 ^ 127 + 200)]

theorem chargeback_blocked :
    (withinWindow burnt 0 = true ∧ (chargeback plainConfig burnt .root 0).isOk = false) ∧
    (withinWindow overdrawn 1 = true ∧ (chargeback plainConfig overdrawn .root 1).isOk = false) ∧
    (withinWindow undercounted 1 = true ∧ (undercounted.batches.lookup 1).map Batch.alpha = some (2 ^ 127) ∧
      undercounted.unbackedBatchAlpha 1 = 0 ∧
      (step plainConfig undercounted (.chargeback .root 1)).totalUndistributedBacking + 2 ^ 127 ≠
        undercounted.totalUndistributedBacking) ∧
    (withinWindow overdue 1 = true ∧ (overdue.batches.lookup 1).map Batch.alpha = some (2 ^ 127 + 200) ∧
      overdue.unbackedBatchAlpha 1 = 0 ∧
      (step plainConfig overdue (.chargeback .root 1)).bank.accounts 7 = overdue.bank.accounts 7 ∧
      (step plainConfig overdue (.chargeback .root 1)).pendingSudoRefunds ≠ overdue.pendingSudoRefunds + (2 ^ 127 + 200)) := by
  decide +kernel

end TheBrain.Marketplace
