import TheBrain.ComputeScoring.Calls

namespace TheBrain.ComputeScoring
open Library Machine Words HippiusTypes List StorageMap

inductive Part where
  | epochs | audits | attestations | registry | stakes | prices
  deriving DecidableEq

def Call.parts : Call A H W → List Part
  | .registerChild .. | .claimUnbonded .. | .setLockupEnabled .. | .setBaseChildDeposit .. | .setFreeChildSlotsPerFamily .. => [.registry]
  | .deregisterChild .. | .forceDeregisterChild .. => [.registry,.prices,.audits,.epochs]
  | .submitAuditStats .. | .setAuditVmPubkey .. => [.audits]
  | .setKbsAttestationPubkey .. | .removeKbsAttestationPubkey .. | .submitLiveAttestation .. => [.attestations]
  | .valiSubmitEpochClose .. => [.epochs,.attestations]
  | .requestUnstake .. => [.stakes,.epochs]
  | .setStakeEnabled .. | .setAlphaPerUsd .. | .setStakeUsdPerChild .. | .setOracleGuards .. | .setStakeFloor ..
  | .setEmaPermille .. | .topUpStake .. | .claimUnstaked .. | .setSlashingEnabled .. | .setSlashBeneficiary ..
  | .slashStake .. => [.stakes]
  | .announcePriceChange .. | .applyPriceChange .. | .setPriceBounds .. | .setPriceChangePolicy .. => [.prices]
  | .setValiSubmitter .. | .nextBlock _ | .elsewhere _ => []

structure Moves (parts : List Part) (s t : State A H W) : Prop where
  block : t.blockNumber = s.blockNumber
  clock : t.nowUnix = s.nowUnix
  epochs : .epochs ∉ parts → t.epochs = s.epochs
  audits : .audits ∉ parts → t.audits = s.audits
  attestations : .attestations ∉ parts → t.attestations = s.attestations
  registry : .registry ∉ parts → t.registry = s.registry
  stakes : .stakes ∉ parts → t.stakes = s.stakes
  prices : .prices ∉ parts → t.prices = s.prices

section
variable {A H W : Type}
variable {cfg : Config A H W} {s t u : State A H W} {parts : List Part}

theorem Moves.trans (one : Moves parts s t) (two : Moves parts t u) : Moves parts s u where
  block := two.block.trans one.block
  clock := two.clock.trans one.clock
  epochs away := (two.epochs away).trans (one.epochs away)
  audits away := (two.audits away).trans (one.audits away)
  attestations away := (two.attestations away).trans (one.attestations away)
  registry away := (two.registry away).trans (one.registry away)
  stakes away := (two.stakes away).trans (one.stakes away)
  prices away := (two.prices away).trans (one.prices away)

theorem Moves.widen (moved : Moves parts s t) (more : parts ⊆ wider) : Moves wider s t where
  block := moved.block
  clock := moved.clock
  epochs away := moved.epochs fun mem => away (more mem)
  audits away := moved.audits fun mem => away (more mem)
  attestations away := moved.attestations fun mem => away (more mem)
  registry away := moved.registry fun mem => away (more mem)
  stakes away := moved.stakes fun mem => away (more mem)
  prices away := moved.prices fun mem => away (more mem)

section
variable (s : State A H W) (world : W) (events : List (Event A H))

theorem Moves.outside (submitter : Option A) : Moves parts s {s with world:=world,valiSubmitter:=submitter,events:=events} :=
  ⟨rfl,rfl,fun _ => rfl,fun _ => rfl,fun _ => rfl,fun _ => rfl,fun _ => rfl,fun _ => rfl⟩

theorem Moves.ofEpochs (epochs : Epochs H) : Moves [.epochs] s {s with world:=world,epochs:=epochs,events:=events} :=
  ⟨rfl,rfl,absurd mem_cons_self,fun _ => rfl,fun _ => rfl,fun _ => rfl,fun _ => rfl,fun _ => rfl⟩

theorem Moves.ofAudits (audits : Audits H) : Moves [.audits] s {s with world:=world,audits:=audits,events:=events} :=
  ⟨rfl,rfl,fun _ => rfl,absurd mem_cons_self,fun _ => rfl,fun _ => rfl,fun _ => rfl,fun _ => rfl⟩

theorem Moves.ofAttestations (attestations : Attestations H) : Moves [.attestations] s {s with attestations:=attestations,events:=events} :=
  ⟨rfl,rfl,fun _ => rfl,fun _ => rfl,absurd mem_cons_self,fun _ => rfl,fun _ => rfl,fun _ => rfl⟩

theorem Moves.ofRegistry (registry : Registry A H) : Moves [.registry] s {s with world:=world,registry:=registry,events:=events} :=
  ⟨rfl,rfl,fun _ => rfl,fun _ => rfl,fun _ => rfl,absurd mem_cons_self,fun _ => rfl,fun _ => rfl⟩

theorem Moves.ofStakes (stakes : Stakes A) : Moves [.stakes] s {s with world:=world,stakes:=stakes,events:=events} :=
  ⟨rfl,rfl,fun _ => rfl,fun _ => rfl,fun _ => rfl,fun _ => rfl,absurd mem_cons_self,fun _ => rfl⟩

theorem Moves.ofPrices (prices : Prices H) : Moves [.prices] s {s with world:=world,prices:=prices,events:=events} :=
  ⟨rfl,rfl,fun _ => rfl,fun _ => rfl,fun _ => rfl,fun _ => rfl,fun _ => rfl,absurd mem_cons_self⟩

theorem Moves.ofSweep (epochs : Epochs H) (attestations : Attestations H) :
    Moves [.epochs,.attestations] s {s with epochs:=epochs,attestations:=attestations,events:=events} :=
  ⟨rfl,rfl,absurd (by decide),fun _ => rfl,absurd (by decide),fun _ => rfl,fun _ => rfl,fun _ => rfl⟩

end

def Transitions (s t : State A H W) : Prop := ∃ epochs events, t = {s with epochs:=epochs,events:=events}

theorem Transitions.trans (one : Transitions s t) (two : Transitions t u) : Transitions s u := by
  obtain ⟨_,_,rfl⟩ := one
  obtain ⟨_,_,rfl⟩ := two
  exact ⟨_,_,rfl⟩

theorem Transitions.moves (only : Transitions s t) : Moves [.epochs] s t := by
  obtain ⟨_,_,rfl⟩ := only
  exact .ofEpochs ..

section
variable [DecidableEq H]

theorem transitionNodeStatus_transitions (s : State A H W) (nodeId : H) (status : MinerStatus) (now : Nat) (epoch : Word 64) :
    Transitions s (transitionNodeStatus s nodeId status now epoch).1 := by
  simp only [transitionNodeStatus]
  split
  · exact ⟨_,_,rfl⟩
  split
  · exact ⟨_,_,rfl⟩
  · exact ⟨_,_,rfl⟩

def Bare (s : State A H W) (epoch : Word 64) : Prop :=
  (∀ nodeId, s.epochs.epochWeights.lookup (epoch,nodeId) = none) ∧
    (∀ vmIdHash, s.attestations.liveAttestationCount.lookup (epoch,vmIdHash) = none) ∧ s.epochs.epochCloseBlock epoch = none

-- The keys that a sweep deletes, all of them below the horizon.
structure Prunes (horizon : Nat) (weights counts : List (Word 64 × H)) (closes : List (Word 64)) (s t : State A H W) : Prop where
  state : t = {s with
    epochs:={s.epochs with
      epochWeights:=eraseAll s.epochs.epochWeights weights
      epochCloseBlock:=fun epoch => if epoch ∈ closes then none else s.epochs.epochCloseBlock epoch}
    attestations:={s.attestations with liveAttestationCount:=eraseAll s.attestations.liveAttestationCount counts}}
  weighed : ∀ key ∈ weights, key.1.val < horizon
  counted : ∀ key ∈ counts, key.1.val < horizon
  closed : ∀ epoch ∈ closes, epoch.val < horizon

theorem Prunes.trans (one : Prunes horizon weights counts closes s t) (two : Prunes horizon weights' counts' closes' t u) :
    Prunes horizon (weights ++ weights') (counts ++ counts') (closes ++ closes') s u := by
  refine ⟨?_,forall_mem_append.mpr ⟨one.weighed,two.weighed⟩,forall_mem_append.mpr ⟨one.counted,two.counted⟩,
    forall_mem_append.mpr ⟨one.closed,two.closed⟩⟩
  have either : ∀ epoch (block : Option Nat), (if epoch ∈ closes' then none else if epoch ∈ closes then none else block) =
      if epoch ∈ closes ++ closes' then none else block := by
    intro epoch block
    by_cases first : epoch ∈ closes
    · simp [first]
    · simp [first]
  rw [two.state,one.state]
  simp only [eraseAll,foldl_append,either]

theorem Prunes.bare (prunes : Prunes horizon weights counts closes s t) (bare : Bare s epoch) : Bare t epoch := by
  rw [prunes.state]
  refine ⟨?_,?_,?_⟩
  · intro nodeId
    exact (lookup_eraseAll ..).trans (by rw [bare.1,ite_self])
  · intro vmIdHash
    exact (lookup_eraseAll ..).trans (by rw [bare.2.1,ite_self])
  · simp [bare.2.2]

-- What pricing a registration and advancing the fee curve write.
def Quotes (s t : State A H W) : Prop := ∃ base next last used slots, t = {s with registry:={s.registry with
  baseChildDepositValue:=base,globalNextDeposit:=next,globalLastPaidRegistrationBlock:=last
  familyUsedFreeSlot:=used,familyFreeSlotsUsed:=slots}}

end

theorem Quotes.trans (one : Quotes s t) (two : Quotes t u) : Quotes s u := by
  obtain ⟨_,_,_,_,_,rfl⟩ := one
  obtain ⟨_,_,_,_,_,rfl⟩ := two
  exact ⟨_,_,_,_,_,rfl⟩

end

section
variable {A H W : Type}
variable (cfg : Config A H W) {s t : State A H W} {parts : List Part}

theorem baseChildDeposit_quotes (s : State A H W) : Quotes s (baseChildDeposit cfg s).1 := by
  unfold baseChildDeposit
  split
  · exact ⟨_,_,_,_,_,rfl⟩
  · exact ⟨_,_,_,_,_,rfl⟩

theorem floorInit_quotes (s : State A H W) : Quotes s (globalNextDepositFloorInit cfg s).1 := by
  refine (baseChildDeposit_quotes cfg s).trans ?_
  simp only [globalNextDepositFloorInit]
  split
  · exact ⟨_,_,_,_,_,rfl⟩
  · exact ⟨_,_,_,_,_,rfl⟩

theorem lazyHalving_quotes (s : State A H W) : Quotes s (applyLazyGlobalHalving cfg s).1 := by
  refine ((baseChildDeposit_quotes cfg s).trans (floorInit_quotes cfg _)).trans ?_
  simp only [applyLazyGlobalHalving]
  split
  · exact ⟨_,_,_,_,_,rfl⟩
  · exact ⟨_,_,_,_,_,rfl⟩

theorem depositDue_quotes (s : State A H W) (family : A) : Quotes s (depositDue cfg s family).1 := by
  unfold depositDue
  split
  · exact ⟨_,_,_,_,_,rfl⟩
  · exact lazyHalving_quotes cfg s

theorem chargeSlot_quotes [DecidableEq A] (s : State A H W) (family : A) : Quotes s (chargeSlot cfg s family) := by
  unfold chargeSlot
  split
  · exact ⟨_,_,_,_,_,rfl⟩
  split
  · exact (floorInit_quotes cfg s).trans ⟨_,_,_,_,_,rfl⟩
  · exact ⟨_,_,_,_,_,rfl⟩

theorem doSlash_moves [DecidableEq A] (s : State A H W) (owner : A) (requested : Nat) (reason : SlashReason) :
    Moves [.stakes] s (doSlash cfg s owner requested reason) := by
  simp only [doSlash]
  split
  · exact .ofStakes ..
  split
  · exact .ofStakes ..
  split
  · exact .ofStakes ..
  · exact .ofStakes ..

variable [DecidableEq H]

-- A sweep from p to q: at most one deletion over the budget, and no key is left of an
-- epoch that the watermark has passed.
structure SweepsTo (horizon : Nat) (p q : Sweep A H W) : Prop where
  deleted : ∃ weights counts closes, Prunes horizon weights counts closes p.state q.state ∧
    (weights.length + counts.length + closes.length = 0 ∨ p.spent < cfg.maxEpochPruneKeysPerCall.val ∧
      p.spent + weights.length + counts.length + closes.length ≤ cfg.maxEpochPruneKeysPerCall.val + 1)
  forward : p.watermark ≤ q.watermark
  short : q.watermark = p.watermark ∨ q.watermark.val ≤ horizon
  bare : ∀ epoch, p.watermark ≤ epoch → epoch < q.watermark → Bare q.state epoch

theorem sweepsTo_stay (weights counts : List (Word 64 × H)) (same : q.watermark = p.watermark)
    (prunes : Prunes horizon weights counts [] p.state q.state)
    (spent : weights.length + counts.length = 0 ∨ p.spent < cfg.maxEpochPruneKeysPerCall.val ∧
      p.spent + weights.length + counts.length ≤ cfg.maxEpochPruneKeysPerCall.val) : SweepsTo cfg horizon p q := by
  refine ⟨⟨weights,counts,[],prunes,?_⟩,same.ge,.inl same,?_⟩
  · rw [length_nil]
    omega
  · intro epoch above below
    rw [same] at below
    exact absurd above (not_le.mpr below)

theorem sweepsTo_refl (horizon : Nat) (p : Sweep A H W) : SweepsTo cfg horizon p p := by
  refine sweepsTo_stay cfg [] [] rfl ⟨?_,nofun,nofun,nofun⟩ (.inl rfl)
  simp [eraseAll]

theorem sweepsTo_next {next : Sweep A H W} (prunes : Prunes horizon weights counts [p.watermark] p.state next.state)
    (passed : Bare next.state p.watermark)
    (early : p.watermark.val < horizon) (above : p.watermark.val ≤ next.watermark.val)
    (below : next.watermark.val ≤ p.watermark.val + 1) (left : p.spent < cfg.maxEpochPruneKeysPerCall.val)
    (within : p.spent + weights.length + counts.length ≤ cfg.maxEpochPruneKeysPerCall.val)
    (total : next.spent = saturatingAdd 32 (p.spent + weights.length + counts.length) 1)
    (rest : SweepsTo cfg horizon next q) : SweepsTo cfg horizon p q := by
  obtain ⟨⟨weights',counts',closes',later,_⟩,forward,short,bare⟩ := rest
  have wide : cfg.maxEpochPruneKeysPerCall.val ≤ maxOf 32 := Nat.le_sub_one_of_lt cfg.maxEpochPruneKeysPerCall.isLt
  rw [Fin.le_def] at forward
  refine ⟨⟨weights ++ weights',counts ++ counts',[p.watermark] ++ closes',prunes.trans later,.inr ⟨left,?_⟩⟩,?_,.inr ?_,?_⟩
  · simp only [length_append,length_singleton]
    rw [saturatingAdd] at total
    omega
  · rw [Fin.le_def]
    omega
  · rcases short with stays | low
    · rw [stays]
      omega
    · exact low
  · intro epoch reached beneath
    by_cases first : epoch = p.watermark
    · rw [first]
      exact later.bare passed
    · refine bare epoch ?_ beneath
      rw [Fin.le_def] at reached ⊢
      have apart := Fin.val_ne_of_ne first
      omega

theorem sweepLoop_sweeps (horizon fuel : Nat) (p : Sweep A H W) : SweepsTo cfg horizon p (sweepLoop cfg horizon fuel p) := by
  induction fuel generalizing p with
  | zero => exact sweepsTo_refl cfg horizon p
  | succ _ ih =>
    simp only [sweepLoop]
    split
    next more =>
      obtain ⟨early,left⟩ := more
      obtain ⟨weights,cleared,taken,_,under⟩ := clearPrefix_erases cfg.hashRank p.watermark
        (cfg.maxEpochPruneKeysPerCall.val - p.spent) p.state.epochs.epochWeights
      have exact : saturatingAdd 32 p.spent weights.length = p.spent + weights.length :=
        saturatingAdd_exact (by omega)
      have weighed : ∀ key ∈ weights, key.1.val < horizon := fun key mem => under key mem ▸ early
      rw [taken,exact]
      split
      · refine sweepsTo_stay cfg weights [] rfl ⟨?_,weighed,nofun,nofun⟩ (.inr ⟨left,?_⟩)
        · rw [cleared]
          simp [eraseAll]
        · rw [length_nil]
          omega
      next ended =>
        obtain ⟨drained,_⟩ := not_or.mp ended
        obtain ⟨counts,emptied,took,_,same⟩ := clearPrefix_erases cfg.hashRank p.watermark
          (cfg.maxEpochPruneKeysPerCall.val - (p.spent + weights.length)) p.state.attestations.liveAttestationCount
        have exact : saturatingAdd 32 (p.spent + weights.length) counts.length = p.spent + weights.length + counts.length :=
          saturatingAdd_exact (by omega)
        have counted : ∀ key ∈ counts, key.1.val < horizon := fun key mem => same key mem ▸ early
        rw [took,exact]
        split
        · refine sweepsTo_stay cfg weights counts rfl ⟨?_,weighed,counted,nofun⟩ (.inr ⟨left,by omega⟩)
          rw [cleared,emptied]
          simp
        next done =>
          -- Both prefixes are empty, so the watermark moves on.
          generalize advanced : Sweep.mk _ (addSaturating p.watermark 1) _ = next
          have prunes : Prunes horizon weights counts [p.watermark] p.state next.state := by
            refine ⟨?_,weighed,counted,?_⟩
            · rw [← advanced,cleared,emptied]
              simp [Function.update_apply,funext_iff]
            · exact fun epoch mem => mem_singleton.mp mem ▸ early
          have passed : Bare next.state p.watermark := by
            rw [← advanced]
            refine ⟨?_,?_,?_⟩
            · exact clearPrefix_done cfg.hashRank _ _ _ (Bool.eq_false_of_not_eq_true drained)
            · exact clearPrefix_done cfg.hashRank _ _ _ (Bool.eq_false_of_not_eq_true done)
            · exact Function.update_self ..
          refine sweepsTo_next cfg prunes passed early ?_ ?_ left (by omega) ?_ (ih next)
          · exact advanced ▸ le_saturatingAdd p.watermark.isLt
          · exact advanced ▸ saturatingAdd_le
          · exact advanced ▸ rfl
    · exact sweepsTo_refl cfg horizon p

theorem sweepEpochHistory_sweeps (s : State A H W) (epoch : Word 64) :
    ∃ swept events, SweepsTo cfg (epoch.val - s.epochs.epochHistoryRetention) ⟨s,s.epochs.epochPruneWatermark,0⟩ swept ∧
      sweepEpochHistory cfg s epoch =
        {swept.state with epochs:={swept.state.epochs with epochPruneWatermark:=swept.watermark},events:=events} := by
  have loop := sweepLoop_sweeps cfg (epoch.val - s.epochs.epochHistoryRetention)
  simp only [sweepEpochHistory]
  split
  · exact ⟨_,_,loop 0 _,rfl⟩
  split
  · exact ⟨_,_,loop _ _,rfl⟩
  · exact ⟨_,_,loop _ _,rfl⟩

theorem sweepEpochHistory_frame (s : State A H W) (epoch : Word 64) : ∃ epochs attestations events,
    sweepEpochHistory cfg s epoch = {s with epochs:=epochs,attestations:=attestations,events:=events} := by
  obtain ⟨_,_,⟨⟨_,_,_,prunes,_⟩,_,_,_⟩,same⟩ := sweepEpochHistory_sweeps cfg s epoch
  rw [same,prunes.state]
  exact ⟨_,_,_,rfl⟩

end

section
variable {A H W : Type}
variable {cfg : Config A H W} {s t : State A H W} {parts : List Part}

def Reserves (cfg : Config A H W) (family : A) (deposit : Nat) (before after : W) : Prop :=
  deposit = 0 ∧ after = before ∨ cfg.reserveNamed before .deposit family deposit = some after

def Releases (cfg : Config A H W) (family : A) (deposit : Nat) (before after : W) : Prop :=
  deposit = 0 ∧ after = before ∨ cfg.unreserveNamed before .deposit family deposit = (after,0)

theorem takeDeposit_parts (ran : takeDeposit cfg s family = .ok (t,deposit)) : ∃ quote world, Quotes s quote ∧
    Reserves cfg family deposit s.world world ∧ t = {quote with world:=world} ∧ depositDue cfg s family = (quote,deposit) := by
  have priced := depositDue_quotes cfg s family
  simp only [takeDeposit] at ran
  generalize depositDue cfg s family = quote at ran priced
  have world : quote.1.world = s.world := by
    obtain ⟨_,_,_,_,_,same⟩ := priced
    rw [same]
  split at ran
  next free =>
    cases ran
    exact ⟨_,_,priced,.inl ⟨free,world⟩,rfl,rfl⟩
  · simp only [passes] at ran
    obtain ⟨after,reserved,same⟩ := ran
    cases same
    rw [world] at reserved
    exact ⟨_,after,priced,.inr reserved,rfl,rfl⟩

section
variable [DecidableEq H]

theorem forgetStatus_epochs (same : t.epochs = s.epochs) (nodeId : H) :
    (forgetStatus t nodeId).epochs = (forgetStatus s nodeId).epochs := by
  have status : statusOf t nodeId = statusOf s nodeId := by rw [statusOf,statusOf,same]
  rw [forgetStatus,forgetStatus,status]
  by_cases gone : statusOf s nodeId = .decommissioned
  · rw [if_pos gone,if_pos gone,same]
  · rw [if_neg gone,if_neg gone]
    simp [recordStatus,same]

theorem forgetStatus_eq (s : State A H W) (nodeId : H) : forgetStatus s nodeId = {s with epochs:=(forgetStatus s nodeId).epochs} := by
  unfold forgetStatus
  split
  · rfl
  · rfl

theorem closeNodes_transitions (epoch : Word 64) (updates : List (MinerStatusUpdate H)) (s : State A H W) :
    Transitions s (updates.foldl (closeNode epoch) s) := by
  refine foldl_keeps (Transitions s) ?_ updates ⟨_,_,rfl⟩
  intro middle u before
  have weighed : Transitions middle
      {middle with epochs:={middle.epochs with epochWeights:=middle.epochs.epochWeights.insert (epoch,u.nodeId) u.weight}} := ⟨_,_,rfl⟩
  exact before.trans (weighed.trans (transitionNodeStatus_transitions _ u.nodeId u.newStatus _ epoch))

def closeAll (epoch : Word 64) (updates : List (MinerStatusUpdate H)) (s : State A H W) : State A H W :=
  let closed := updates.foldl (closeNode epoch) s
  {closed with epochs:={closed.epochs with
    currentEpoch:=epoch
    epochCloseBlock:=Function.update closed.epochs.epochCloseBlock epoch (some s.blockNumber)}}

theorem closeAll_transitions (epoch : Word 64) (updates : List (MinerStatusUpdate H)) (s : State A H W) :
    Transitions s (closeAll epoch updates s) := (closeNodes_transitions epoch updates s).trans ⟨_,_,rfl⟩

end

theorem setRegistry_ok {condition : Prop} [Decidable condition] (ran : setRegistry cfg s origin condition e registry event = .ok t) :
    condition ∧ t = depositEvent {s with registry:=registry} event := by
  simp only [setRegistry,passes] at ran
  exact ⟨ran.2.1,ran.2.2.symm⟩

theorem setStakes_ok {condition : Prop} [Decidable condition] (ran : setStakes cfg s origin condition e stakes event = .ok t) :
    condition ∧ t = depositEvent {s with stakes:=stakes} event := by
  simp only [setStakes,passes] at ran
  exact ⟨ran.2.1,ran.2.2.symm⟩

theorem setPrices_ok {condition : Prop} [Decidable condition] (ran : setPrices cfg s origin condition e prices event = .ok t) :
    condition ∧ t = depositEvent {s with prices:=prices} event := by
  simp only [setPrices,passes] at ran
  exact ⟨ran.2.1,ran.2.2.symm⟩

variable [DecidableEq A]

theorem leaveFamily_eq (s : State A H W) (family child : A) :
    leaveFamily s family child = {s with registry:={s.registry with
      totalActiveChildren:=s.registry.totalActiveChildren - 1
      familyChildren:=Function.update s.registry.familyChildren family (swapRemove (s.registry.familyChildren family) child)
      familyCount:=if swapRemove (s.registry.familyChildren family) child = [] then s.registry.familyCount - 1
        else s.registry.familyCount}} := by
  generalize rest : swapRemove (s.registry.familyChildren family) child = left
  have kept : Function.update s.registry.familyChildren family left family = left := Function.update_self ..
  unfold leaveFamily
  dsimp only
  rw [rest]
  split
  next empty =>
    have last : left = [] := kept.symm.trans (length_eq_zero_iff.mp empty)
    unfold cleanupFamilyWhenNoActiveChildren
    dsimp only
    rw [if_neg (not_not.mpr (kept.trans last)),if_pos last,Function.update_idem,last]
  next more =>
    have some : left ≠ [] := fun last => more (length_eq_zero_iff.mpr (kept.trans last))
    rw [if_neg some]

variable [DecidableEq H]

theorem registerChild_parts (ran : registerChild cfg s origin family child nodeId nodeSig = .ok t) :
    s.registry.childRegistrations.lookup child = none ∧ s.registry.nodeIdToChild nodeId = none ∧
      s.registry.totalActiveChildren < cfg.maxChildrenTotal ∧
      (familyChildCount s family ≠ 0 ∨ s.registry.familyCount < cfg.maxFamilies) ∧
      ∃ deposit world events quote, Reserves cfg family deposit s.world world ∧
        Quotes (enrol s family child nodeId deposit) quote ∧ t = {quote with world:=world,events:=events} := by
  simp only [registerChild,admitChild,passes] at ran
  obtain ⟨⟨_,_,_,_,_,_,_,fresh,unmapped,room,_,_,roomForFamily,_⟩,⟨_,deposit⟩,deposited,rfl⟩ := ran
  obtain ⟨_,world,⟨_,_,_,_,_,rfl⟩,reserves,rfl,_⟩ := takeDeposit_parts deposited
  generalize charged : chargeSlot cfg _ family = last
  have quotes := charged ▸ chargeSlot_quotes cfg _ family
  obtain ⟨_,_,_,_,_,rfl⟩ := quotes
  exact ⟨Option.isNone_iff_eq_none.mp fresh,unmapped,room,roomForFamily,deposit,world,_,_,reserves,⟨_,_,_,_,_,rfl⟩,rfl⟩

theorem registerChild_moves (ran : registerChild cfg s origin family child nodeId nodeSig = .ok t) : Moves [.registry] s t := by
  obtain ⟨_,_,_,_,_,_,_,_,_,⟨_,_,_,_,_,rfl⟩,rfl⟩ := registerChild_parts ran
  exact .ofRegistry ..

theorem doDeregisterChild_parts (ran : doDeregisterChild cfg s actor child force = .ok t) :
    ∃ reg cooldown event, s.registry.childRegistrations.lookup child = some reg ∧ reg.status = .active ∧
      t = depositEvent (unbond (leaveFamily {s with
        prices:=(retirePrice s reg.nodeId).prices
        audits:=(forgetAudits s reg.nodeId).audits
        epochs:=(forgetStatus s reg.nodeId).epochs} reg.family child) child reg (unbondingEndOf cfg s reg) cooldown) event := by
  simp only [doDeregisterChild,passes] at ran
  obtain ⟨reg,found,_,active,rfl⟩ := ran
  have kept : (forgetAudits (retirePrice s reg.nodeId) reg.nodeId).epochs = s.epochs := rfl
  rw [forgetStatus_eq (forgetAudits (retirePrice s reg.nodeId) reg.nodeId),forgetStatus_epochs kept]
  exact ⟨reg,_,_,found,active,rfl⟩

theorem doDeregisterChild_moves (ran : doDeregisterChild cfg s actor child force = .ok t) :
    Moves [.registry,.prices,.audits,.epochs] s t := by
  obtain ⟨_,_,_,_,_,rfl⟩ := doDeregisterChild_parts ran
  rw [leaveFamily_eq]
  exact ⟨rfl,rfl,absurd (by decide),absurd (by decide),fun _ => rfl,absurd (by decide),fun _ => rfl,absurd (by decide)⟩

structure Deregistered (cfg : Config A H W) (child : A) (reg : ChildRegistration A H) (s t : State A H W) : Prop where
  found : s.registry.childRegistrations.lookup child = some reg
  active : reg.status = .active
  unmapped : t.registry.nodeIdToChild = Function.update s.registry.nodeIdToChild reg.nodeId none
  unbonding : t.registry.childRegistrations =
    s.registry.childRegistrations.insert child {reg with status:=.unbonding,unbondingEnd:=unbondingEndOf cfg s reg}
  prices : t.prices = (retirePrice s reg.nodeId).prices
  audits : t.audits = (forgetAudits s reg.nodeId).audits
  epochs : t.epochs = (forgetStatus s reg.nodeId).epochs

theorem doDeregisterChild_ok (ran : doDeregisterChild cfg s actor child force = .ok t) :
    ∃ reg, Deregistered cfg child reg s t := by
  obtain ⟨reg,_,_,found,active,rfl⟩ := doDeregisterChild_parts ran
  rw [leaveFamily_eq]
  exact ⟨reg,found,active,rfl,rfl,rfl,rfl,rfl⟩

theorem deregisterChild_ok (ran : deregisterChild cfg s origin child = .ok t) : ∃ reg, Deregistered cfg child reg s t := by
  simp only [deregisterChild,bind_ok] at ran
  obtain ⟨_,_,ran⟩ := ran
  exact doDeregisterChild_ok ran

theorem forceDeregisterChild_ok (ran : forceDeregisterChild cfg s origin child = .ok t) :
    ∃ reg, Deregistered cfg child reg s t := by
  simp only [forceDeregisterChild,passes] at ran
  obtain ⟨_,_,_,_,ran⟩ := ran
  exact doDeregisterChild_ok ran

theorem valiSubmitEpochClose_parts (ran : valiSubmitEpochClose cfg s origin epoch updates = .ok t) :
    s.epochs.currentEpoch < epoch ∧ checkUpdates s.epochs.maxEpochWeightPerNode [] updates = .ok () ∧
      ∃ events, t = {sweepEpochHistory cfg (closeAll epoch updates s) epoch with
        world:=cfg.pushRankings s.world epoch (updates.map fun u => (u.nodeId,u.weight)),events:=events} := by
  simp only [valiSubmitEpochClose,passes] at ran
  obtain ⟨_,_,later,checked,rfl⟩ := ran
  have world : (sweepEpochHistory cfg (closeAll epoch updates s) epoch).world = s.world := by
    obtain ⟨_,_,_,swept⟩ := sweepEpochHistory_frame cfg (closeAll epoch updates s) epoch
    obtain ⟨_,_,closed⟩ := closeAll_transitions epoch updates s
    rw [swept,closed]
  rw [← world]
  exact ⟨later,checked,_,rfl⟩

theorem valiSubmitEpochClose_moves (ran : valiSubmitEpochClose cfg s origin epoch updates = .ok t) :
    Moves [.epochs,.attestations] s t := by
  obtain ⟨_,_,_,rfl⟩ := valiSubmitEpochClose_parts ran
  obtain ⟨_,_,_,swept⟩ := sweepEpochHistory_frame cfg (closeAll epoch updates s) epoch
  obtain ⟨_,_,closed⟩ := closeAll_transitions epoch updates s
  rw [swept,closed]
  exact Moves.trans (.ofSweep ..) (.outside ..)

-- What every quarantine of a node and every event keeps, a request to unstake keeps.
theorem quarantineOwner_keeps (inv : State A H W → Prop) (who : A)
    (transition : ∀ t nodeId now epoch, inv t → inv (transitionNodeStatus t nodeId .quarantined now epoch).1)
    (event : ∀ t e, inv t → inv (depositEvent t e)) (start : inv s) : inv (quarantineOwner s who) := by
  have folded : inv ((s.registry.familyChildren who).foldl quarantineChild (s,0)).1 := by
    refine foldl_keeps (fun p : State A H W × Nat => inv p.1) ?_ _ start
    intro p child before
    unfold quarantineChild
    split
    · exact before
    · exact transition _ _ _ _ before
  simp only [quarantineOwner]
  split
  · split
    · exact event _ _ folded
    · exact folded
  · exact start

theorem quarantineOwner_transitions (s : State A H W) (who : A) : Transitions s (quarantineOwner s who) := by
  refine quarantineOwner_keeps (Transitions s) who ?_ (fun _ _ before => before.trans ⟨_,_,rfl⟩) ⟨_,_,rfl⟩
  intro t nodeId now epoch before
  exact before.trans (transitionNodeStatus_transitions _ _ _ _ _)

theorem requestUnstake_moves (ran : requestUnstake cfg s origin amount = .ok t) : Moves [.stakes,.epochs] s t := by
  simp only [requestUnstake,passes] at ran
  obtain ⟨who,_,_,_,rfl⟩ := ran
  refine Moves.trans ?_ ((quarantineOwner_transitions _ who).moves.widen (by decide))
  exact (Moves.ofStakes ..).widen (by decide)

theorem dispatch_moves (ran : dispatch cfg s call = .ok t) :
    (∃ seconds, call = .nextBlock seconds ∧ t = {s with blockNumber:=s.blockNumber + 1,nowUnix:=s.nowUnix + seconds}) ∨
      Moves call.parts s t := by
  cases call with
  | nextBlock seconds => exact .inl ⟨seconds,rfl,(Except.ok.inj ran).symm⟩
  | registerChild => exact .inr (registerChild_moves ran)
  | deregisterChild =>
    simp only [dispatch,deregisterChild,bind_ok] at ran
    obtain ⟨who,_,ran⟩ := ran
    exact .inr (doDeregisterChild_moves ran)
  | forceDeregisterChild =>
    simp only [dispatch,forceDeregisterChild,passes] at ran
    obtain ⟨who,_,_,_,ran⟩ := ran
    exact .inr (doDeregisterChild_moves ran)
  | valiSubmitEpochClose => exact .inr (valiSubmitEpochClose_moves ran)
  | requestUnstake => exact .inr (requestUnstake_moves ran)
  | slashStake _ owner amount reason =>
    simp only [dispatch,slashStake,passes] at ran
    obtain ⟨_,_,rfl⟩ := ran
    exact .inr (doSlash_moves cfg s owner amount reason)
  | applyPriceChange =>
    simp only [dispatch,applyPriceChange,passes] at ran
    obtain ⟨_,_,_,_,_,rfl⟩ := ran
    refine .inr ?_
    simp only [settlePrice]
    split
    · exact .ofPrices ..
    · exact .ofPrices ..
  | elsewhere =>
    cases ran
    exact .inr (.outside ..)
  | setLockupEnabled | setBaseChildDeposit | setFreeChildSlotsPerFamily =>
    obtain ⟨_,rfl⟩ := setRegistry_ok ran
    exact .inr (.ofRegistry ..)
  | setStakeEnabled | setStakeUsdPerChild | setOracleGuards | setStakeFloor | setEmaPermille | setSlashingEnabled
  | setSlashBeneficiary =>
    obtain ⟨_,rfl⟩ := setStakes_ok ran
    exact .inr (.ofStakes ..)
  | setPriceBounds | setPriceChangePolicy =>
    obtain ⟨_,rfl⟩ := setPrices_ok ran
    exact .inr (.ofPrices ..)
  | claimUnbonded | submitAuditStats | setAuditVmPubkey | setKbsAttestationPubkey | removeKbsAttestationPubkey
  | submitLiveAttestation | setValiSubmitter | setAlphaPerUsd | topUpStake | claimUnstaked | announcePriceChange =>
    -- Guards, and then one record of one part.
    revert ran
    simp only [dispatch,claimUnbonded,submitAuditStats,setAuditVmPubkey,setKbsAttestationPubkey,removeKbsAttestationPubkey,submitLiveAttestation,setValiSubmitter,setAlphaPerUsd,topUpStake,claimUnstaked,announcePriceChange,passes,forall_exists_index,and_imp]
    intros
    subst_vars
    first
    | exact .inr (.ofRegistry ..) | exact .inr (.ofAudits ..) | exact .inr (.ofAttestations ..) | exact .inr (.ofStakes ..)
    | exact .inr (.ofPrices ..) | exact .inr (.outside ..)

def accepts (cfg : Config A H W) (s : State A H W) (call : Call A H W) : Bool :=
  match dispatch cfg s call with
  | .ok _ => true
  | .error _ => false

theorem accepts_ok (ran : dispatch cfg s call = .ok t) : accepts cfg s call = true := by
  simp [accepts,ran]

end

section
variable {A H W : Type}
variable {cfg : Config A H W} {s t u : State A H W}

def OnlyStatuses (s t : State A H W) : Prop := t.epochs = {s.epochs with minerStatuses:=t.epochs.minerStatuses}

theorem OnlyStatuses.of_same (same : t.epochs = s.epochs) : OnlyStatuses s t := by
  rw [OnlyStatuses,same]

theorem OnlyStatuses.trans (one : OnlyStatuses s t) (two : OnlyStatuses t u) : OnlyStatuses s u := by
  rw [OnlyStatuses] at one two ⊢
  rw [two,one]

theorem OnlyStatuses.epoch (only : OnlyStatuses s t) : t.epochs.currentEpoch = s.epochs.currentEpoch := by
  rw [only]

theorem OnlyStatuses.weights (only : OnlyStatuses s t) : t.epochs.epochWeights = s.epochs.epochWeights := by
  rw [only]

-- Rows of decommissioned nodes stay as they are, and no row comes to say Active.
structure Tombstones (s t : State A H W) : Prop where
  kept : ∀ nodeId entry, s.epochs.minerStatuses nodeId = some entry → entry.status = .decommissioned →
    t.epochs.minerStatuses nodeId = some entry
  idle : (∀ nodeId entry, s.epochs.minerStatuses nodeId = some entry → entry.status ≠ .active) →
    ∀ nodeId entry, t.epochs.minerStatuses nodeId = some entry → entry.status ≠ .active

theorem Tombstones.of_same (same : t.epochs.minerStatuses = s.epochs.minerStatuses) : Tombstones s t := by
  constructor
  · intro nodeId entry found _
    rw [same]
    exact found
  · rw [same]
    exact id

theorem Tombstones.trans (one : Tombstones s t) (two : Tombstones t u) : Tombstones s u where
  kept nodeId entry found retired := two.kept nodeId entry (one.kept nodeId entry found retired) retired
  idle harmless := two.idle (one.idle harmless)

variable [DecidableEq H]

theorem transitionNodeStatus_only (s : State A H W) (nodeId : H) (status : MinerStatus) (now : Nat) (epoch : Word 64) :
    OnlyStatuses s (transitionNodeStatus s nodeId status now epoch).1 := by
  simp only [transitionNodeStatus]
  split
  · exact .of_same rfl
  split
  · exact .of_same rfl
  · rfl

theorem forgetStatus_only (s : State A H W) (nodeId : H) : OnlyStatuses s (forgetStatus s nodeId) := by
  unfold forgetStatus
  split
  · exact .of_same rfl
  · rfl

section
variable [DecidableEq A]

theorem quarantineOwner_only (s : State A H W) (who : A) : OnlyStatuses s (quarantineOwner s who) := by
  refine quarantineOwner_keeps (OnlyStatuses s) who ?_ (fun _ _ only => only.trans (.of_same rfl)) (.of_same rfl)
  intro t nodeId now epoch only
  exact only.trans (transitionNodeStatus_only _ _ _ _ _)

theorem requestUnstake_only (ran : requestUnstake cfg s origin amount = .ok t) : OnlyStatuses s t := by
  simp only [requestUnstake,passes] at ran
  obtain ⟨who,_,_,_,rfl⟩ := ran
  exact (OnlyStatuses.of_same rfl).trans (quarantineOwner_only _ who)

theorem Deregistered.only (left : Deregistered cfg child reg s t) : OnlyStatuses s t :=
  (forgetStatus_only s reg.nodeId).trans (.of_same left.epochs)

structure Swept (horizon : Nat) (s t : State A H W) : Prop where
  epoch : t.epochs.currentEpoch = s.epochs.currentEpoch
  statuses : t.epochs.minerStatuses = s.epochs.minerStatuses
  weights : ∀ key, horizon ≤ key.1.val → t.epochs.epochWeights.lookup key = s.epochs.epochWeights.lookup key
  counts : ∀ key, horizon ≤ key.1.val →
    t.attestations.liveAttestationCount.lookup key = s.attestations.liveAttestationCount.lookup key
  signers : t.attestations.kbsAttestationPubkeys = s.attestations.kbsAttestationPubkeys
  chains : t.attestations.lastLiveAttestation = s.attestations.lastLiveAttestation

end

theorem sweepEpochHistory_swept (cfg : Config A H W) (s : State A H W) (epoch : Word 64) :
    Swept epoch.val s (sweepEpochHistory cfg s epoch) := by
  obtain ⟨_,_,⟨⟨_,_,_,prunes,_⟩,_,_,_⟩,same⟩ := sweepEpochHistory_sweeps cfg s epoch
  rw [same,prunes.state]
  refine ⟨rfl,rfl,?_,?_,rfl,rfl⟩
  · intro key above
    refine (lookup_eraseAll ..).trans (if_neg fun mem => ?_)
    have below := prunes.weighed key mem
    omega
  · intro key above
    refine (lookup_eraseAll ..).trans (if_neg fun mem => ?_)
    have below := prunes.counted key mem
    omega

def OnlyWeights (s t : State A H W) : Prop := t.epochs = {s.epochs with
  minerStatuses:=t.epochs.minerStatuses,epochWeights:=t.epochs.epochWeights}

theorem closeNode_epochs (epoch : Word 64) (s : State A H W) (update : MinerStatusUpdate H) :
    OnlyWeights s (closeNode epoch s update) ∧
      ∀ key, key.1 ≠ epoch → (closeNode epoch s update).epochs.epochWeights.lookup key = s.epochs.epochWeights.lookup key := by
  have only := transitionNodeStatus_only {s with epochs:={s.epochs with
    epochWeights:=s.epochs.epochWeights.insert (epoch,update.nodeId) update.weight}} update.nodeId update.newStatus s.blockNumber epoch
  constructor
  · rw [OnlyWeights,closeNode,only]
  intro key other
  have apart : key ≠ (epoch,update.nodeId) := by
    rintro rfl
    exact other rfl
  change (transitionNodeStatus _ _ _ _ _).1.epochs.epochWeights.lookup key = _
  rw [only.weights]
  exact AList.lookup_insert_ne apart

theorem closeNodes_epochs (epoch : Word 64) (updates : List (MinerStatusUpdate H)) (s : State A H W) :
    OnlyWeights s (updates.foldl (closeNode epoch) s) ∧
      ∀ key, key.1 ≠ epoch → (updates.foldl (closeNode epoch) s).epochs.epochWeights.lookup key = s.epochs.epochWeights.lookup key := by
  induction updates generalizing s with
  | nil => exact ⟨rfl,fun _ _ => rfl⟩
  | cons update _ ih =>
    obtain ⟨first,weights⟩ := closeNode_epochs epoch s update
    obtain ⟨later,others⟩ := ih (closeNode epoch s update)
    refine ⟨?_,fun key other => (others key other).trans (weights key other)⟩
    rw [OnlyWeights,foldl_cons,later,first]

structure Closed (epoch : Word 64) (s t : State A H W) : Prop where
  later : s.epochs.currentEpoch < epoch
  current : t.epochs.currentEpoch = epoch
  signers : t.attestations.kbsAttestationPubkeys = s.attestations.kbsAttestationPubkeys
  chains : t.attestations.lastLiveAttestation = s.attestations.lastLiveAttestation
  counts : ∀ key, epoch ≤ key.1 → t.attestations.liveAttestationCount.lookup key = s.attestations.liveAttestationCount.lookup key
  beyond : ∀ key, epoch < key.1 → t.epochs.epochWeights.lookup key = s.epochs.epochWeights.lookup key

theorem valiSubmitEpochClose_ok [DecidableEq A] (ran : valiSubmitEpochClose cfg s origin epoch updates = .ok t) : Closed epoch s t := by
  obtain ⟨later,_,_,rfl⟩ := valiSubmitEpochClose_parts ran
  have nodes := (closeAll_transitions epoch updates s).moves.attestations (by decide)
  obtain ⟨_,weights⟩ := closeNodes_epochs epoch updates s
  have swept := sweepEpochHistory_swept cfg (closeAll epoch updates s) epoch
  refine ⟨later,swept.epoch,?_,?_,?_,?_⟩
  · exact swept.signers.trans (congrArg Attestations.kbsAttestationPubkeys nodes)
  · exact swept.chains.trans (congrArg Attestations.lastLiveAttestation nodes)
  · intro key above
    refine (swept.counts key above).trans ?_
    exact congrArg (fun attestations => attestations.liveAttestationCount.lookup key) nodes
  · intro key above
    exact (swept.weights key above.le).trans (weights key above.ne')

def batchWeight (updates : List (MinerStatusUpdate H)) (nodeId : H) : Option (Word 128) :=
  (updates.find? fun u => u.nodeId = nodeId).map MinerStatusUpdate.weight

theorem checkUpdates_distinct (seen : List H) (updates : List (MinerStatusUpdate H))
    (checked : checkUpdates maxWeight seen updates = .ok ()) :
    (∀ u ∈ updates, u.nodeId ∉ seen) ∧ (updates.map MinerStatusUpdate.nodeId).Nodup := by
  induction updates generalizing seen with
  | nil => exact ⟨forall_mem_nil _,nodup_nil⟩
  | cons update _ ih =>
    simp only [checkUpdates,passes] at checked
    obtain ⟨fresh,_,rest⟩ := checked
    obtain ⟨apart,distinct⟩ := ih (update.nodeId :: seen) rest
    refine ⟨?_,?_⟩
    · intro u mem
      rcases mem_cons.mp mem with rfl | later
      · exact fresh
      · exact fun old => apart u later (mem_cons_of_mem _ old)
    · rw [map_cons,nodup_cons]
      refine ⟨?_,distinct⟩
      intro mem
      obtain ⟨u,later,same⟩ := mem_map.mp mem
      exact apart u later (same ▸ mem_cons_self ..)

theorem closeNode_weight (epoch : Word 64) (s : State A H W) (update : MinerStatusUpdate H) (nodeId : H) :
    (closeNode epoch s update).epochs.epochWeights.lookup (epoch,nodeId) =
      if update.nodeId = nodeId then some update.weight else s.epochs.epochWeights.lookup (epoch,nodeId) := by
  have only := transitionNodeStatus_only {s with epochs:={s.epochs with
    epochWeights:=s.epochs.epochWeights.insert (epoch,update.nodeId) update.weight}} update.nodeId update.newStatus s.blockNumber epoch
  change (transitionNodeStatus _ _ _ _ _).1.epochs.epochWeights.lookup _ = _
  rw [only.weights,lookup_insert_if]
  by_cases same : update.nodeId = nodeId
  · rw [if_pos same,if_pos (by rw [same])]
  · rw [if_neg same,if_neg]
    intro equal
    exact same (Prod.mk.inj equal).2.symm

theorem closeNodes_weight (epoch : Word 64) (updates : List (MinerStatusUpdate H)) (s : State A H W) (nodeId : H)
    (distinct : (updates.map MinerStatusUpdate.nodeId).Nodup) :
    (updates.foldl (closeNode epoch) s).epochs.epochWeights.lookup (epoch,nodeId) =
      (batchWeight updates nodeId).or (s.epochs.epochWeights.lookup (epoch,nodeId)) := by
  induction updates generalizing s with
  | nil => rfl
  | cons update updates ih =>
    obtain ⟨fresh,rest⟩ := nodup_cons.mp distinct
    rw [foldl_cons,ih (closeNode epoch s update) rest,closeNode_weight,batchWeight,batchWeight]
    by_cases same : update.nodeId = nodeId
    · have missing : updates.find? (fun u => u.nodeId = nodeId) = none := by
        refine List.find?_eq_none.mpr ?_
        intro u mem equal
        refine fresh (mem_map.mpr ⟨u,mem,?_⟩)
        exact (of_decide_eq_true equal).trans same.symm
      simp [same,missing]
    · simp [same]

theorem recordStatus_tombstones (working : statusOf s nodeId ≠ .decommissioned) (row : ∀ entry, stored = some entry → entry.status ≠ .active) :
    Tombstones s (recordStatus s nodeId stored) := by
  constructor
  · intro other entry found retired
    have apart : other ≠ nodeId := by
      rintro rfl
      apply working
      rw [statusOf,found]
      exact retired
    exact (Function.update_of_ne apart _ _).trans found
  · intro harmless other entry found
    dsimp only [recordStatus] at found
    rw [Function.update_apply] at found
    split at found
    · exact row entry found
    · exact harmless other entry found

theorem transitionNodeStatus_tombstones (s : State A H W) (nodeId : H) (status : MinerStatus) (now : Nat) (epoch : Word 64) :
    Tombstones s (transitionNodeStatus s nodeId status now epoch).1 := by
  simp only [transitionNodeStatus]
  split
  · exact .of_same rfl
  split
  · exact .of_same rfl
  next working =>
    refine Tombstones.trans (recordStatus_tombstones working ?_) (.of_same rfl)
    intro entry stored
    split at stored
    · cases stored
    next harmed =>
      cases stored
      exact harmed

theorem closeNodes_tombstones (epoch : Word 64) (updates : List (MinerStatusUpdate H)) (s : State A H W) :
    Tombstones s (updates.foldl (closeNode epoch) s) := by
  refine foldl_keeps (Tombstones s) ?_ updates (.of_same rfl)
  intro t update before
  have weighed : Tombstones t {t with epochs:={t.epochs with
    epochWeights:=t.epochs.epochWeights.insert (epoch,update.nodeId) update.weight}} := .of_same rfl
  exact before.trans (weighed.trans (transitionNodeStatus_tombstones ..))

variable [DecidableEq A]

theorem valiSubmitEpochClose_weights (ran : valiSubmitEpochClose cfg s origin epoch updates = .ok t) (nodeId : H) :
    t.epochs.epochWeights.lookup (epoch,nodeId) = (batchWeight updates nodeId).or (s.epochs.epochWeights.lookup (epoch,nodeId)) := by
  obtain ⟨_,checked,_,rfl⟩ := valiSubmitEpochClose_parts ran
  have swept := sweepEpochHistory_swept cfg (closeAll epoch updates s) epoch
  refine (swept.weights (epoch,nodeId) le_rfl).trans ?_
  exact closeNodes_weight epoch updates s nodeId (checkUpdates_distinct [] updates checked).2

theorem dispatch_epoch (ran : dispatch cfg s call = .ok t) :
    OnlyStatuses s t ∨ ∃ origin epoch updates, call = .valiSubmitEpochClose origin epoch updates ∧ Closed epoch s t := by
  rcases dispatch_moves ran with ⟨_,_,rfl⟩ | moved
  · exact .inl rfl
  by_cases touched : Part.epochs ∈ call.parts
  · cases call with
    | deregisterChild =>
      obtain ⟨reg,left⟩ := deregisterChild_ok ran
      exact .inl left.only
    | forceDeregisterChild =>
      obtain ⟨_,left⟩ := forceDeregisterChild_ok ran
      exact .inl left.only
    | valiSubmitEpochClose origin epoch updates =>
      exact .inr ⟨origin,epoch,updates,rfl,valiSubmitEpochClose_ok ran⟩
    | requestUnstake => exact .inl (requestUnstake_only ran)
    | _ => simp [Call.parts] at touched
  · exact .inl (.of_same (moved.epochs touched))

theorem dispatch_unattested (ran : dispatch cfg s call = .ok t)
    (silent : ∀ origin view signed, call ≠ .submitLiveAttestation origin view signed)
    (opened : ∀ origin epoch updates, call ≠ .valiSubmitEpochClose origin epoch updates) : OnlyStatuses s t ∧
      t.attestations.lastLiveAttestation = s.attestations.lastLiveAttestation ∧
      t.attestations.liveAttestationCount = s.attestations.liveAttestationCount := by
  constructor
  · rcases dispatch_epoch ran with same | ⟨_,_,_,named,_⟩
    · exact same
    · exact absurd named (opened _ _ _)
  rcases dispatch_moves ran with ⟨_,_,rfl⟩ | moved
  · exact ⟨rfl,rfl⟩
  cases call with
  | submitLiveAttestation => exact absurd rfl (silent _ _ _)
  | valiSubmitEpochClose => exact absurd rfl (opened _ _ _)
  | setKbsAttestationPubkey =>
    simp only [dispatch,setKbsAttestationPubkey,passes] at ran
    obtain ⟨_,_,_,rfl⟩ := ran
    exact ⟨rfl,rfl⟩
  | removeKbsAttestationPubkey =>
    simp only [dispatch,removeKbsAttestationPubkey,passes] at ran
    obtain ⟨_,_,rfl⟩ := ran
    exact ⟨rfl,rfl⟩
  | _ =>
    rw [moved.attestations (by simp [Call.parts])]
    exact ⟨rfl,rfl⟩

-- The row of a decommissioned node survives its deregistration.
theorem Deregistered.tombstones (left : Deregistered cfg child reg s t) : Tombstones s t := by
  have forgotten : Tombstones s (forgetStatus s reg.nodeId) := by
    unfold forgetStatus
    split
    · exact .of_same rfl
    next working => exact recordStatus_tombstones working nofun
  exact forgotten.trans (.of_same (congrArg Epochs.minerStatuses left.epochs))

theorem requestUnstake_tombstones (ran : requestUnstake cfg s origin amount = .ok t) : Tombstones s t := by
  simp only [requestUnstake,passes] at ran
  obtain ⟨who,_,_,_,rfl⟩ := ran
  refine quarantineOwner_keeps (Tombstones s) who ?_ (fun _ _ before => before.trans (.of_same rfl)) (.of_same rfl)
  intro t nodeId now epoch before
  exact before.trans (transitionNodeStatus_tombstones ..)

theorem dispatch_tombstones (ran : dispatch cfg s call = .ok t) : Tombstones s t := by
  rcases dispatch_moves ran with ⟨_,_,rfl⟩ | moved
  · exact .of_same rfl
  by_cases touched : Part.epochs ∈ call.parts
  · cases call with
    | deregisterChild =>
      obtain ⟨reg,left⟩ := deregisterChild_ok ran
      exact left.tombstones
    | forceDeregisterChild =>
      obtain ⟨_,left⟩ := forceDeregisterChild_ok ran
      exact left.tombstones
    | valiSubmitEpochClose _ epoch updates =>
      obtain ⟨_,_,_,rfl⟩ := valiSubmitEpochClose_parts ran
      exact (closeNodes_tombstones epoch updates s).trans (.of_same (sweepEpochHistory_swept cfg (closeAll epoch updates s) epoch).statuses)
    | requestUnstake => exact requestUnstake_tombstones ran
    | _ => simp [Call.parts] at touched
  · exact .of_same (congrArg Epochs.minerStatuses (moved.epochs touched))

end
end TheBrain.ComputeScoring
