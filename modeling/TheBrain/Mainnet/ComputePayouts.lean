import TheBrain.Bank.Compartments
import TheBrain.ComputeScoring.Registry

namespace TheBrain.Mainnet.Compute
open Library Machine Words ComputeScoring List StorageMap

-- The runtime behind pay_compute_miners: the bank reads its weights from the compute
-- pallet, family by family in the order of the accounts.
structure Config (A H W B : Type) [DecidableEq A] where
  scoring : ComputeScoring.Config A H W
  bank : Bank.Config A B
  accountRank : A → Nat

structure State (A H W B : Type) where
  scoring : ComputeScoring.State A H W
  bank : Bank.State A B

inductive Call (A H W B : Type) where
  | scoring (call : ComputeScoring.Call A H W)
  | bank (call : Bank.Call A B)

section
variable {A H W B : Type} [DecidableEq A]
variable (cfg : Config A H W B)

def payee (s : ComputeScoring.State A H W) (nodeId : H) : Option A :=
  match s.registry.nodeIdToChild nodeId with
  | none => none
  | some child =>
    match s.registry.childRegistrations.lookup child with
    | none => none
    | some reg =>
      if reg.status ≠ .active then none else
      match s.epochs.minerStatuses nodeId with
      | some op => if op.status ≠ .active then none else some reg.family
      | none => some reg.family

def countWeight (s : ComputeScoring.State A H W) (byFamily : StorageMap A (Word 128)) (entry : H × Word 128) :
    StorageMap A (Word 128) :=
  if entry.2 = 0 then byFamily else
  match payee s entry.1 with
  | none => byFamily
  | some family => byFamily.insert family ((byFamily.lookup family).elim entry.2 fun weight => addSaturating weight entry.2)

def activeComputeMiners (s : ComputeScoring.State A H W) : List (A × Word 128) :=
  ((epochWeightsFor cfg.scoring s s.epochs.currentEpoch).foldl (countWeight s) ∅).iter cfg.accountRank

def currentWeightEpoch (s : ComputeScoring.State A H W) : Option (Word 64) := some s.epochs.currentEpoch

def supplied (s : State A H W B) : Bank.Call A B → Bank.Call A B
  | .payComputeMiners origin amount _ _ =>
    .payComputeMiners origin amount (activeComputeMiners cfg s.scoring) (currentWeightEpoch s.scoring)
  | .initializeBlock _ => .initializeBlock s.scoring.blockNumber
  | call => call

def step [DecidableEq H] (s : State A H W B) : Call A H W B → State A H W B
  | .scoring call => {s with scoring:=ComputeScoring.step cfg.scoring s.scoring call}
  | .bank call => {s with bank:=Bank.step cfg.bank s.bank (supplied cfg s call)}

end

section
variable {A H W B : Type}

theorem mem_epochWeightsFor [DecidableEq H] (cfg : ComputeScoring.Config A H W) (s : ComputeScoring.State A H W)
    (epoch : Word 64) (nodeId : H) (weight : Word 128) :
    (nodeId,weight) ∈ epochWeightsFor cfg s epoch ↔ s.epochs.epochWeights.lookup (epoch,nodeId) = some weight := by
  rw [epochWeightsFor,mem_filterMap]
  constructor
  · rintro ⟨⟨⟨_,_⟩,_⟩,mem,kept⟩
    split at kept
    next same =>
      cases kept
      exact same ▸ (mem_iter ..).mp mem
    · cases kept
  · intro found
    exact ⟨((epoch,nodeId),weight),(mem_iter ..).mpr found,if_pos rfl⟩

variable [DecidableEq A] {cfg : Config A H W B}

theorem payee_some (s : ComputeScoring.State A H W) (nodeId : H) (family : A) :
    payee s nodeId = some family ↔ familyOf s nodeId = some family ∧ statusOf s nodeId = .active := by
  unfold payee familyOf statusOf
  cases s.registry.nodeIdToChild nodeId with
  | none => simp
  | some child =>
    cases found : s.registry.childRegistrations.lookup child with
    | none => simp [found]
    | some reg =>
      by_cases active : reg.status = .active
      · cases s.epochs.minerStatuses nodeId with
        | none => simp [found,active]
        | some op =>
          by_cases working : op.status = .active
          · simp [found,active,working]
          · simp [found,active,working]
      · simp [found,active]

def counted (cfg : Config A H W B) (s : ComputeScoring.State A H W) : List (H × A × Word 128) :=
  (epochWeightsFor cfg.scoring s s.epochs.currentEpoch).filterMap fun entry =>
    if entry.2 = 0 then none else (payee s entry.1).map fun family => (entry.1,family,entry.2)

def weightIn (byFamily : StorageMap A (Word 128)) (family : A) : Nat := (byFamily.lookup family).elim 0 Fin.val

theorem weightIn_bounded (byFamily : StorageMap A (Word 128)) (family : A) : weightIn byFamily family ≤ maxOf 128 := by
  unfold weightIn
  cases byFamily.lookup family with
  | none => exact Nat.zero_le _
  | some weight => exact Nat.le_sub_one_of_lt weight.isLt

def share (s : ComputeScoring.State A H W) (family : A) (entry : H × Word 128) : Nat :=
  if payee s entry.1 = some family then entry.2.val else 0

section
variable (s : ComputeScoring.State A H W)
include s

theorem weightIn_countWeight (byFamily : StorageMap A (Word 128))
    (entry : H × Word 128) (family : A) :
    weightIn (countWeight s byFamily entry) family = min (weightIn byFamily family + share s family entry) (maxOf 128) := by
  have bounded := weightIn_bounded byFamily family
  unfold countWeight share
  by_cases empty : entry.2 = 0
  · rw [empty]
    simp [bounded]
  rw [if_neg empty]
  cases paid : payee s entry.1 with
  | none => simp [bounded]
  | some other =>
    by_cases mine : other = family
    · subst mine
      have word : entry.2.val ≤ maxOf 128 := Nat.le_sub_one_of_lt entry.2.isLt
      cases found : byFamily.lookup other with
      | none => simp [weightIn,found,word]
      | some => simp [weightIn,found,saturatingAdd]
    · have apart : family ≠ other := Ne.symm mine
      simp [weightIn,mine,apart] at bounded ⊢
      exact bounded

theorem weightIn_fold (entries : List (H × Word 128))
    (byFamily : StorageMap A (Word 128)) (family : A) :
    weightIn (entries.foldl (countWeight s) byFamily) family =
      min (weightIn byFamily family + (entries.map (share s family)).sum) (maxOf 128) := by
  induction entries generalizing byFamily with
  | nil => exact (Nat.min_eq_left (weightIn_bounded byFamily family)).symm
  | cons _ _ ih =>
    rw [foldl_cons,ih,weightIn_countWeight,map_cons,sum_cons]
    omega

theorem countWeight_positive (entries : List (H × Word 128))
    (found : (entries.foldl (countWeight s) ∅).lookup family = some weight) : 0 < weight.val := by
  have all : ∀ other (known : Word 128), (entries.foldl (countWeight s) ∅).lookup other = some known → 0 < known.val := by
    refine foldl_keeps (fun byFamily : StorageMap A (Word 128) =>
      ∀ other (known : Word 128), byFamily.lookup other = some known → 0 < known.val) ?_ entries ?_
    · intro byFamily entry positive other known held
      unfold countWeight at held
      split at held
      · exact positive other known held
      next full =>
        have some : 0 < entry.2.val := Nat.pos_of_ne_zero fun zero => full (Fin.ext zero)
        cases paid : payee s entry.1 with
        | none =>
          rw [paid] at held
          exact positive other known held
        | some payee =>
          simp only [paid,lookup_insert_if] at held
          split at held
          · cases before : byFamily.lookup payee with
            | none =>
              rw [before] at held
              cases held
              exact some
            | some weight =>
              rw [before] at held
              cases held
              have old := positive payee weight before
              exact old.trans_le (le_saturatingAdd weight.isLt)
          · exact positive other known held
    · intro other known held
      cases held
  exact all family weight found

end

def familyWeight (cfg : Config A H W B) (s : ComputeScoring.State A H W) (family : A) : Nat :=
  ((epochWeightsFor cfg.scoring s s.epochs.currentEpoch).map (share s family)).sum

section
variable (s : ComputeScoring.State A H W)
include s

theorem activeComputeMiners_families : ((activeComputeMiners cfg s).map Prod.fst).Nodup :=
  iter_keys_nodup ..

theorem mem_activeComputeMiners (family : A) (weight : Word 128) :
    (family,weight) ∈ activeComputeMiners cfg s ↔ 0 < weight.val ∧ weight.val = min (familyWeight cfg s family) (maxOf 128) := by
  have summed := weightIn_fold s (epochWeightsFor cfg.scoring s s.epochs.currentEpoch) ∅ family
  rw [show weightIn (∅ : StorageMap A (Word 128)) family = 0 from rfl,Nat.zero_add] at summed
  rw [activeComputeMiners,mem_iter]
  constructor
  · intro found
    refine ⟨countWeight_positive s _ found,?_⟩
    rw [weightIn,found] at summed
    exact summed
  · rintro ⟨positive,same⟩
    cases found : ((epochWeightsFor cfg.scoring s s.epochs.currentEpoch).foldl (countWeight s) ∅).lookup family with
    | none =>
      rw [weightIn,found] at summed
      rw [familyWeight,← summed] at same
      exact absurd positive (by rw [same]; exact lt_irrefl 0)
    | some =>
      rw [weightIn,found] at summed
      exact congrArg some (Fin.ext (summed.trans same.symm))

theorem counted_weight (family : A) :
    ((counted cfg s).map fun entry => if entry.2.1 = family then entry.2.2.val else 0).sum = familyWeight cfg s family := by
  unfold counted familyWeight
  induction epochWeightsFor cfg.scoring s s.epochs.currentEpoch with
  | nil => rfl
  | cons entry _ ih =>
    rw [filterMap_cons,map_cons,share]
    by_cases empty : entry.2 = 0
    · simp [empty,ih]
    cases paid : payee s entry.1 with
    | none | some => simp [empty,ih]

end

variable [DecidableEq H]

theorem mem_counted (s : ComputeScoring.State A H W) (nodeId : H) (family : A) (weight : Word 128) :
    (nodeId,family,weight) ∈ counted cfg s ↔ s.epochs.epochWeights.lookup (s.epochs.currentEpoch,nodeId) = some weight ∧ weight ≠ 0 ∧
      familyOf s nodeId = some family ∧ statusOf s nodeId = .active := by
  rw [counted,mem_filterMap]
  constructor
  · rintro ⟨⟨_,_⟩,mem,kept⟩
    dsimp only at kept
    split at kept
    · cases kept
    next full =>
      obtain ⟨_,paid,same⟩ := Option.map_eq_some_iff.mp kept
      cases same
      exact ⟨(mem_epochWeightsFor ..).mp mem,full,(payee_some s nodeId family).mp paid⟩
  · rintro ⟨found,full,eligible⟩
    refine ⟨(nodeId,weight),(mem_epochWeightsFor ..).mpr found,?_⟩
    rw [if_neg full,(payee_some s nodeId family).mpr eligible]
    rfl

structure Tracked (s : ComputeScoring.State A H W) : Prop where
  mapped : (rosterOf s.registry).Mapped
  ahead : ∀ key, s.epochs.currentEpoch < key.1 → s.epochs.epochWeights.lookup key = none

theorem dispatch_tracked {s t : ComputeScoring.State A H W} (tracked : Tracked s)
    (ran : dispatch cfg.scoring s call = .ok t) : Tracked t := by
  refine ⟨change_mapped (dispatch_change _ ran) tracked.mapped,?_⟩
  intro key later
  rcases dispatch_epoch ran with only | ⟨_,_,_,_,closed⟩
  · rw [only.epoch] at later
    rw [only.weights]
    exact tracked.ahead key later
  · rw [closed.current] at later
    rw [closed.beyond key later]
    exact tracked.ahead key (closed.later.trans later)

def Unweighted (cfg : Config A H W B) (s : State A H W B) : Call A H W B → Prop
  | .scoring (.registerChild origin family child nodeId nodeSig) =>
    accepts cfg.scoring s.scoring (.registerChild origin family child nodeId nodeSig) = true → ∀ weight ∈ s.scoring.epochs.epochWeights.lookup (s.scoring.epochs.currentEpoch,nodeId), weight = 0
  | _ => True

def Earned (cfg : Config A H W B) (s : State A H W B) (calls : List (Call A H W B)) (nodeId : H) (family : A) : Prop :=
  ∃ before origin updates after,
    let epoch := (run (step cfg) s calls).scoring.epochs.currentEpoch
    let close := ComputeScoring.Call.valiSubmitEpochClose origin epoch updates
    calls = before ++ .scoring close :: after ∧ accepts cfg.scoring (run (step cfg) s before).scoring close = true ∧
      familyOf (run (step cfg) s before).scoring nodeId = some family ∧
      ∀ since, since <+: after → statusOf (run (step cfg) s (before ++ .scoring close :: since)).scoring nodeId = .active

theorem Earned.snoc {calls : List (Call A H W B)} (earned : Earned cfg s calls nodeId family)
    (epoch : (run (step cfg) s (calls ++ [call])).scoring.epochs.currentEpoch = (run (step cfg) s calls).scoring.epochs.currentEpoch)
    (active : statusOf (run (step cfg) s (calls ++ [call])).scoring nodeId = .active) : Earned cfg s (calls ++ [call]) nodeId family := by
  obtain ⟨before,origin,updates,after,split,ran,running,unharmed⟩ := earned
  refine ⟨before,origin,updates,after ++ [call],?_,?_,running,?_⟩
  · rw [epoch]
    nth_rewrite 1 [split]
    simp
  · rw [epoch]
    exact ran
  · intro since part
    rw [epoch]
    rcases prefix_concat_iff.mp part with whole | shorter
    · rw [whole]
      nth_rewrite 1 [split] at active
      simpa using active
    · exact unharmed since shorter

theorem scoring_earned {s : State A H W B} {calls : List (Call A H W B)}
    (tracked : Tracked (run (step cfg) s calls).scoring)
    (before : ∀ nodeId family weight, (nodeId,family,weight) ∈ counted cfg (run (step cfg) s calls).scoring → Earned cfg s calls nodeId family)
    (unweighted : Unweighted cfg (run (step cfg) s calls) (.scoring call))
    (ran : dispatch cfg.scoring (run (step cfg) s calls).scoring call = .ok t)
    (after : (run (step cfg) s (calls ++ [.scoring call])).scoring = t)
    (mem : (nodeId,family,weight) ∈ counted cfg t) : Earned cfg s (calls ++ [.scoring call]) nodeId family := by
  obtain ⟨found,full,running,active⟩ := (mem_counted ..).mp mem
  rcases dispatch_epoch ran with only | ⟨origin,epoch,updates,rfl,closed⟩
  · have between : ∀ origin epoch updates, call ≠ .valiSubmitEpochClose origin epoch updates := by
      rintro origin epoch updates rfl
      have later := (valiSubmitEpochClose_ok ran).later
      rw [← (valiSubmitEpochClose_ok ran).current,only.epoch] at later
      exact absurd later (lt_irrefl _)
    have older : ∀ origin joined child nodeSig, call ≠ .registerChild origin joined child nodeId nodeSig := by
      rintro origin joined child nodeSig rfl
      rw [only.epoch,only.weights] at found
      exact full (unweighted (accepts_ok ran) weight found)
    have held := familyOf_before tracked.mapped (dispatch_change _ ran) running older
    have was := status_before running ran between active
    rw [only.epoch,only.weights] at found
    refine (before nodeId family weight ((mem_counted ..).mpr ⟨found,full,held,was⟩)).snoc ?_ ?_
    · rw [after,only.epoch]
    · rw [after]
      exact active
  · have registry := (valiSubmitEpochClose_moves ran).registry (by decide)
    rw [familyOf,registry] at running
    refine ⟨calls,origin,updates,[],?_,?_,running,?_⟩
    · rw [after,closed.current]
    · rw [after,closed.current]
      exact accepts_ok ran
    · intro since part
      rw [prefix_nil.mp part,after,closed.current,after]
      exact active

theorem step_tracked (s : State A H W B) (call : Call A H W B) (tracked : Tracked s.scoring) :
    Tracked (step cfg s call).scoring := by
  cases call with
  | scoring => exact commit_inv Tracked tracked fun t ran => dispatch_tracked tracked ran
  | bank => exact tracked

theorem run_earned (s : State A H W B) (calls : List (Call A H W B)) (tracked : Tracked s.scoring)
    (unclosed : ∀ nodeId, s.scoring.epochs.epochWeights.lookup (s.scoring.epochs.currentEpoch,nodeId) = none)
    (guarded : Throughout (step cfg) (Unweighted cfg) s calls) (mem : (nodeId,family,weight) ∈ counted cfg (run (step cfg) s calls).scoring) :
    Earned cfg s calls nodeId family := by
  induction calls using reverseRecOn generalizing nodeId family weight with
  | nil =>
    obtain ⟨found,_,_,_⟩ := (mem_counted ..).mp mem
    rw [run_nil,unclosed] at found
    cases found
  | append_singleton calls call ih =>
    obtain ⟨earlier,last,_⟩ := throughout_append.mp guarded
    have reached : Tracked (run (step cfg) s calls).scoring :=
      run_always (fun s : State A H W B => Tracked s.scoring) (fun s call => step_tracked s call) tracked
    have stepped : run (step cfg) s (calls ++ [call]) = step cfg (run (step cfg) s calls) call := by
      rw [run_append]
      rfl
    have untouched : (run (step cfg) s (calls ++ [call])).scoring = (run (step cfg) s calls).scoring →
        Earned cfg s (calls ++ [call]) nodeId family := by
      intro same
      rw [same] at mem
      refine (ih earlier mem).snoc (by rw [same]) ?_
      rw [same]
      exact ((mem_counted ..).mp mem).2.2.2
    cases call with
    | bank =>
      apply untouched
      rw [stepped]
      rfl
    | scoring call =>
      cases ran : dispatch cfg.scoring (run (step cfg) s calls).scoring call with
      | error =>
        apply untouched
        rw [stepped]
        simp [step,ComputeScoring.step,ran]
      | ok t =>
        have after : (run (step cfg) s (calls ++ [.scoring call])).scoring = t := by
          rw [stepped]
          simp [step,ComputeScoring.step,ran]
        rw [after] at mem
        exact scoring_earned reached (fun nodeId family weight => ih earlier) last ran after mem

theorem compute_emission_follows_work (cfg : Config A H W B) (s : State A H W B)
    (calls : List (Call A H W B)) (origin : Origin A) (amount : Word 128)
    (given : List (A × Word 128)) (named : Option (Word 64))
    (unmapped : ∀ nodeId, s.scoring.registry.nodeIdToChild nodeId = none) (unweighted : s.scoring.epochs.epochWeights = ∅)
    (guarded : Throughout (step cfg) (Unweighted cfg) s calls) :
    let reached := run (step cfg) s calls
    ∃ miners, supplied cfg reached (.payComputeMiners origin amount given named) =
        .payComputeMiners origin amount miners (some reached.scoring.epochs.currentEpoch) ∧
      (∀ family weight, (family,weight) ∈ miners →
        weight.val = min ((counted cfg reached.scoring).map fun entry => if entry.2.1 = family then entry.2.2.val else 0).sum (2 ^ 128 - 1)) ∧
      ∀ nodeId family weight, (nodeId,family,weight) ∈ counted cfg reached.scoring → Earned cfg s calls nodeId family := by
  have tracked : Tracked s.scoring := by
    refine ⟨?_,?_⟩
    · intro nodeId child found
      cases (unmapped nodeId).symm.trans found
    · intro key _
      rw [unweighted]
      rfl
  refine ⟨activeComputeMiners cfg (run (step cfg) s calls).scoring,rfl,?_,?_⟩
  · intro family weight mem
    rw [counted_weight]
    exact ((mem_activeComputeMiners ..).mp mem).2
  · intro nodeId family weight mem
    refine run_earned s calls tracked ?_ guarded mem
    intro node
    rw [unweighted]
    rfl

theorem retired_uncounted {s : ComputeScoring.State A H W} (found : s.epochs.minerStatuses nodeId = some entry)
    (retired : entry.status = .decommissioned) (weights : List (H × Word 128)) :
    weights.foldl (countWeight s) ∅ = (weights.filter fun weighed => weighed.1 ≠ nodeId).foldl (countWeight s) ∅ := by
  rw [foldl_filter]
  congr 1
  funext byFamily weighed
  by_cases same : weighed.1 = nodeId
  · have unpaid : payee s nodeId = none := by
      refine Option.eq_none_iff_forall_ne_some.mpr ?_
      intro family paid
      have active := ((payee_some s nodeId family).mp paid).2
      simp [statusOf,found,retired] at active
    simp [countWeight,same,unpaid]
  · simp [same]

theorem run_tombstones (cfg : Config A H W B) (s : State A H W B) (calls : List (Call A H W B)) :
    Tombstones s.scoring (run (step cfg) s calls).scoring := by
  refine run_always (fun t : State A H W B => Tombstones s.scoring t.scoring) ?_ (.of_same rfl)
  intro t call before
  cases call with
  | scoring => exact before.trans (commit_inv (Tombstones t.scoring) (.of_same rfl) fun _ ran => dispatch_tombstones ran)
  | bank => exact before

-- What the bank is asked to pay afterwards is what it would be asked to without the weights of the node.
theorem decommissioning_final (cfg : Config A H W B) (world : W) (bank : Bank.State A B) (calls : List (Call A H W B)) :
    let s := run (step cfg) ⟨genesis world,bank⟩ calls
    (∀ nodeId entry, s.scoring.epochs.minerStatuses nodeId = some entry → entry.status ≠ .active) ∧
      ∀ nodeId entry, s.scoring.epochs.minerStatuses nodeId = some entry → entry.status = .decommissioned → ∀ later,
        let t := run (step cfg) s later
        let weights := epochWeightsFor cfg.scoring t.scoring t.scoring.epochs.currentEpoch
        t.scoring.epochs.minerStatuses nodeId = some entry ∧
          ∀ origin amount miners epoch, supplied cfg t (.payComputeMiners origin amount miners epoch) =
            .payComputeMiners origin amount
              (((weights.filter fun weighed => weighed.1 ≠ nodeId).foldl (countWeight t.scoring) ∅).iter cfg.accountRank)
              (currentWeightEpoch t.scoring) := by
  intro s
  refine ⟨(run_tombstones cfg _ calls).idle nofun,?_⟩
  intro nodeId entry found retired later t weights
  have still := (run_tombstones cfg s later).kept nodeId entry found retired
  refine ⟨still,?_⟩
  intro origin amount miners epoch
  rw [supplied,activeComputeMiners,retired_uncounted still retired]

end

def isClose : Call A H W B → Bool
  | .scoring (.valiSubmitEpochClose ..) => true
  | _ => false

theorem split_at_close {front back before after : List (Call A H W B)} (first : Call A H W B)
    (closes : isClose second = true)
    (early : ∀ c ∈ front, isClose c = false) (late : ∀ c ∈ back, isClose c = false)
    (same : front ++ first :: back = before ++ second :: after) : before = front ∧ second = first ∧ after = back := by
  induction front generalizing before with
  | nil =>
    cases before with
    | nil =>
      obtain ⟨rfl,rfl⟩ := cons.inj same
      exact ⟨rfl,rfl,rfl⟩
    | cons =>
      obtain ⟨_,rfl⟩ := cons.inj same
      rw [late second (by simp)] at closes
      cases closes
  | cons head _ ih =>
    cases before with
    | nil =>
      obtain ⟨rfl,_⟩ := cons.inj same
      rw [early head (mem_cons_self ..)] at closes
      cases closes
    | cons =>
      obtain ⟨rfl,rest⟩ := cons.inj same
      obtain ⟨rfl,kept⟩ := ih (fun c mem => early c (mem_cons_of_mem _ mem)) rest
      exact ⟨rfl,kept⟩

def plainCompute : Config Nat Short Unit (Nat → Nat) where
  scoring := {plainConfig with unregisterCooldownBlocks:=1}
  bank := Bank.plainConfig
  accountRank account := account

def opened : State Nat Short Unit (Nat → Nat) := ⟨genesis (),Bank.opened⟩

def staffed : List (Call Nat Short Unit (Nat → Nat)) :=
  [ .bank (.depositFrom 7 40 .computeEmission),.bank (.addMinerPaymentCaller (.signed 1) 5),.scoring (.topUpStake (.signed 1) 5),
    .scoring (.registerChild (.signed 1) 1 2 (shorten [7]) [])]

def close : Call Nat Short Unit (Nat → Nat) := .scoring (.valiSubmitEpochClose .root 1 [⟨shorten [7],.active,10⟩])

def pay : Call Nat Short Unit (Nat → Nat) := .bank (.payComputeMiners (.signed 5) 20 [] none)

def moved : List (Call Nat Short Unit (Nat → Nat)) :=
  [ .scoring (.deregisterChild (.signed 1) 2),.scoring (.nextBlock 6),.scoring (.registerChild (.signed 4) 4 5 (shorten [7]) [])]

def returned : List (Call Nat Short Unit (Nat → Nat)) :=
  [ .scoring (.requestUnstake (.signed 1) 5),.scoring (.deregisterChild (.signed 1) 2),.scoring (.nextBlock 6),
    .scoring (.registerChild (.signed 1) 1 3 (shorten [7]) [])]

theorem emission_without_work :
    ((shorten [7],4,10) ∈ counted plainCompute (run (step plainCompute) opened (staffed ++ close :: moved)).scoring ∧
      ¬ Earned plainCompute opened (staffed ++ close :: moved) (shorten [7]) 4 ∧
      .computeMinerPaymentPaid 4 20 ∈ (run (step plainCompute) opened (staffed ++ close :: moved ++ [pay])).bank.events) ∧
    ((shorten [7],1,10) ∈ counted plainCompute (run (step plainCompute) opened (staffed ++ close :: returned)).scoring ∧
      ¬ Earned plainCompute opened (staffed ++ close :: returned) (shorten [7]) 1 ∧
      .computeMinerPaymentPaid 1 20 ∈ (run (step plainCompute) opened (staffed ++ close :: returned ++ [pay])).bank.events) := by
  refine ⟨⟨by decide +kernel,?_,by decide +kernel⟩,⟨by decide +kernel,?_,by decide +kernel⟩⟩
  · rintro ⟨before,origin,updates,after,split,_,running,_⟩
    obtain ⟨rfl,_,_⟩ := split_at_close close rfl (by decide) (by decide) split
    exact absurd running (by decide +kernel)
  · rintro ⟨before,origin,updates,after,split,_,_,unharmed⟩
    obtain ⟨rfl,same,rfl⟩ := split_at_close close rfl (by decide) (by decide) split
    have quarantined := unharmed [.scoring (.requestUnstake (.signed 1) 5)] (by simp [returned])
    rw [same] at quarantined
    exact absurd quarantined (by decide +kernel)

def joined : List (Call Nat Short Unit (Nat → Nat)) := [.scoring (.registerChild (.signed 4) 4 5 (shorten [8]) [])]

theorem compute_emission_follows_work_joined :
    (shorten [7],1,10) ∈ counted plainCompute (run (step plainCompute) opened (staffed ++ close :: joined)).scoring ∧
      Earned plainCompute opened (staffed ++ close :: joined) (shorten [7]) 1 := by
  have mem : (shorten [7],1,10) ∈ counted plainCompute (run (step plainCompute) opened (staffed ++ close :: joined)).scoring := by
    decide +kernel
  have guarded : Throughout (step plainCompute) (Unweighted plainCompute) opened (staffed ++ close :: joined) := by
    refine ⟨trivial,trivial,trivial,?_,trivial,?_,trivial⟩
    · rintro _ weight ⟨⟩
    · rintro _ weight ⟨⟩
  obtain ⟨_,_,_,earned⟩ := compute_emission_follows_work plainCompute opened (staffed ++ close :: joined) (.signed 5) 20 [] none
    (fun _ => rfl) rfl guarded
  exact ⟨mem,earned _ _ _ mem⟩

-- What a run leaves on record: the batch of every accepted close, and the epoch of every
-- payout that moved something.
inductive Milestone (H : Type) where
  | closed (updates : List (MinerStatusUpdate H))
  | settled (epoch : Word 64)

def Milestone.epoch? : Milestone H → Option (Word 64)
  | .settled epoch => some epoch
  | .closed _ => none

def Milestone.batch? : Milestone H → Option (List (MinerStatusUpdate H))
  | .closed updates => some updates
  | .settled _ => none

def settledEpochs (log : List (Milestone H)) : List (Word 64) := log.filterMap Milestone.epoch?

def lastBatch (log : List (Milestone H)) : List (MinerStatusUpdate H) := (log.filterMap Milestone.batch?).getLast?.getD []

def amountPaid : Bank.Event A → Nat
  | .computeMinerPaymentPaid _ amount => amount
  | _ => 0

-- What a call paid to compute miners, read off the events it emitted.
def paidBetween (before after : Bank.State A B) : Nat :=
  ((after.events.drop before.events.length).map amountPaid).sum

section
variable {A H W B : Type} {s : State A H W B} {log : List (Milestone H)}

structure Ordered (bank : Bank.State A B) (log : List (Milestone H)) : Prop where
  rising : (settledEpochs log).Pairwise (· < ·)
  behind : ∀ epoch ∈ settledEpochs log, ∃ last ∈ bank.lastPaidComputeEpoch, epoch.val ≤ last

theorem filterMap_sum (entries : List ((Word 64 × H) × Word 128)) (epoch : Word 64) (f : H × Word 128 → Nat) :
    ((entries.filterMap fun e => if e.1.1 = epoch then some (e.1.2,e.2) else none).map f).sum =
      (entries.map fun e => if e.1.1 = epoch then f (e.1.2,e.2) else 0).sum := by
  induction entries with
  | nil => rfl
  | cons entry _ ih =>
    by_cases here : entry.1.1 = epoch
    · simp [here,ih]
    · simp [here,ih]

theorem lastBatch_closed (log : List (Milestone H)) (updates : List (MinerStatusUpdate H)) :
    lastBatch (log ++ [.closed updates]) = updates := by
  simp [lastBatch,Milestone.batch?]

theorem lastBatch_settled (log : List (Milestone H)) (epoch : Word 64) : lastBatch (log ++ [.settled epoch]) = lastBatch log := by
  simp [lastBatch,Milestone.batch?]

theorem settledEpochs_closed (log : List (Milestone H)) (updates : List (MinerStatusUpdate H)) :
    settledEpochs (log ++ [.closed updates]) = settledEpochs log := by
  simp [settledEpochs,Milestone.epoch?]

theorem settledEpochs_settled (log : List (Milestone H)) (epoch : Word 64) :
    settledEpochs (log ++ [.settled epoch]) = settledEpochs log ++ [epoch] := by
  simp [settledEpochs,Milestone.epoch?]

section
variable [DecidableEq H]

structure Batched (s : ComputeScoring.State A H W) (log : List (Milestone H)) : Prop where
  weights : ∀ nodeId, s.epochs.epochWeights.lookup (s.epochs.currentEpoch,nodeId) = batchWeight (lastBatch log) nodeId
  distinct : ((lastBatch log).map MinerStatusUpdate.nodeId).Nodup
  ahead : ∀ key, s.epochs.currentEpoch < key.1 → s.epochs.epochWeights.lookup key = none

theorem batchWeight_mem {updates : List (MinerStatusUpdate H)} (distinct : (updates.map MinerStatusUpdate.nodeId).Nodup)
    (mem : u ∈ updates) : batchWeight updates u.nodeId = some u.weight := by
  induction updates with
  | nil => cases mem
  | cons update _ ih =>
    obtain ⟨fresh,rest⟩ := nodup_cons.mp distinct
    rcases mem_cons.mp mem with rfl | later
    · simp [batchWeight]
    · have apart : update.nodeId ≠ u.nodeId := by
        intro same
        exact fresh (same ▸ mem_map_of_mem later)
      have found := ih rest later
      rw [batchWeight,List.find?_cons_of_neg (by simpa using apart)]
      exact found

theorem batchWeight_none {updates : List (MinerStatusUpdate H)} (missing : nodeId ∉ updates.map MinerStatusUpdate.nodeId) :
    batchWeight updates nodeId = none := by
  rw [batchWeight,Option.map_eq_none_iff,List.find?_eq_none]
  intro u mem same
  exact missing (of_decide_eq_true same ▸ mem_map_of_mem mem)

theorem Batched.same (batched : Batched s.scoring log) {t : ComputeScoring.State A H W} {later : List (Milestone H)}
    (epoch : t.epochs.currentEpoch = s.scoring.epochs.currentEpoch) (weights : t.epochs.epochWeights = s.scoring.epochs.epochWeights)
    (batch : lastBatch later = lastBatch log) : Batched t later := by
  refine ⟨?_,?_,?_⟩
  · rw [epoch,weights,batch]
    exact batched.weights
  · rw [batch]
    exact batched.distinct
  · rw [epoch,weights]
    exact batched.ahead

end

variable [DecidableEq A] {cfg : Config A H W B}

def eligibleWeight (s : ComputeScoring.State A H W) (batch : List (MinerStatusUpdate H)) (family : A) : Nat :=
  (batch.map fun u => if familyOf s u.nodeId = some family ∧ statusOf s u.nodeId = .active then u.weight.val else 0).sum

def FamiliesFit (p : State A H W B × List (Milestone H)) : Call A H W B → Prop
  | .bank (.payComputeMiners ..) => ∀ family, eligibleWeight p.1.scoring (lastBatch p.2) family < 2 ^ 128
  | _ => True

-- An accepted payout transfers to every family with eligible weight, and to no other
-- account, its floored share of the amount.
def PaysProRata (cfg : Config A H W B) (p : State A H W B × List (Milestone H)) :
    Call A H W B → Prop
  | .bank (.payComputeMiners origin amount given named) =>
    ∀ bank, Bank.dispatch cfg.bank p.1.bank (supplied cfg p.1 (.payComputeMiners origin amount given named)) = .ok bank →
      ∃ miners paid : List (A × Nat), (miners.map Prod.fst).Nodup ∧
        (∀ family weight, (family,weight) ∈ miners ↔ 0 < weight ∧ weight = eligibleWeight p.1.scoring (lastBatch p.2) family) ∧
        Bank.Transfers cfg.bank amount (miners.map Prod.snd).sum p.1.bank.accounts miners paid bank.accounts ∧
        paidBetween p.1.bank bank = Bank.amountOf paid
  | _ => True

theorem settles_paid {bank next : Bank.State A B} (settles : Bank.Settles cfg.bank bank next amount miners paid weightEpoch) :
    paidBetween bank next = Bank.amountOf paid := by
  obtain ⟨_,_,events⟩ := settles.reported
  rw [paidBetween,events,append_assoc,drop_left,map_append,map_map,sum_append]
  exact Nat.add_zero _

theorem settled_ordered {bank next : Bank.State A B} {epoch : Word 64} (ordered : Ordered bank log)
    (settles : Bank.Settles cfg.bank bank next amount miners paid (some epoch.val)) (moved : paidBetween bank next ≠ 0) :
    Ordered next (log ++ [.settled epoch]) := by
  have cursor : next.lastPaidComputeEpoch = some epoch.val := by
    rw [settles_paid settles] at moved
    rw [settles.cursor,if_neg moved]
    rfl
  -- Everything settled before is at most the old cursor, which the guard put below.
  have below : ∀ earlier ∈ settledEpochs log, earlier < epoch := by
    intro earlier mem
    obtain ⟨last,held,behind⟩ := ordered.behind earlier mem
    exact behind.trans_lt (settles.unpaid epoch.val rfl last held)
  refine ⟨?_,?_⟩
  · rw [settledEpochs_settled,pairwise_append]
    refine ⟨ordered.rising,pairwise_singleton _ _,?_⟩
    intro earlier mem other last
    rw [mem_singleton.mp last]
    exact below earlier mem
  · rw [settledEpochs_settled]
    intro other mem
    refine ⟨epoch.val,cursor,?_⟩
    rcases mem_append.mp mem with old | last
    · exact (below other old).le
    · rw [mem_singleton.mp last]

theorem unsettled_ordered {bank next : Bank.State A B} (ordered : Ordered bank log)
    (settles : Bank.Settles cfg.bank bank next amount miners paid weightEpoch) (nothing : paidBetween bank next = 0) : Ordered next log := by
  refine ⟨ordered.rising,?_⟩
  rw [settles_paid settles] at nothing
  rw [settles.cursor,if_pos nothing]
  exact ordered.behind

def BatchFits (p : State A H W B × List (Milestone H)) (_ : Call A H W B) : Prop :=
  ((lastBatch p.2).map fun u => u.weight.val).sum < 2 ^ 128

instance (p : State A H W B × List (Milestone H)) (call : Call A H W B) :
    Decidable (BatchFits p call) := inferInstanceAs (Decidable (_ < _))

theorem familiesFit_of_batch (p : State A H W B × List (Milestone H)) (call : Call A H W B)
    (fits : BatchFits p call) : FamiliesFit p call := by
  have all : ∀ family, eligibleWeight p.1.scoring (lastBatch p.2) family < 2 ^ 128 := by
    intro family
    refine (sum_le_sum ?_).trans_lt fits
    intro u _
    split
    · exact le_rfl
    · exact Nat.zero_le _
  cases call with
  | scoring => trivial
  | bank call =>
    cases call with
    | payComputeMiners => exact all
    | _ => trivial

variable [DecidableEq H]

def milestones (cfg : Config A H W B) (s : State A H W B) (call : Call A H W B) : List (Milestone H) :=
  match call with
  | .scoring (.valiSubmitEpochClose origin epoch updates) =>
    if accepts cfg.scoring s.scoring (.valiSubmitEpochClose origin epoch updates) then [.closed updates] else []
  | .bank (.payComputeMiners ..) =>
    if paidBetween s.bank (step cfg s call).bank = 0 then [] else [.settled s.scoring.epochs.currentEpoch]
  | _ => []

theorem familyWeight_batch {s : ComputeScoring.State A H W} (batched : Batched s log) (family : A) :
    familyWeight cfg s family = eligibleWeight s (lastBatch log) family := by
  have stored : familyWeight cfg s family = total (fun key weight =>
      if key.1 = s.epochs.currentEpoch then share s family (key.2,weight) else 0) s.epochs.epochWeights := by
    rw [familyWeight,epochWeightsFor,filterMap_sum]
    exact sum_iter _ (fun (key : Word 64 × H) weight => if key.1 = s.epochs.currentEpoch then share s family (key.2,weight) else 0) _
  have keys : ((lastBatch log).map fun u => (s.epochs.currentEpoch,u.nodeId)).Nodup := by
    have mapped := batched.distinct.map (Prod.mk_right_injective s.epochs.currentEpoch)
    rwa [map_map] at mapped
  rw [stored,total_listed _ _ _ keys]
  · rw [map_map]
    refine congrArg sum (map_congr_left ?_)
    intro u mem
    simp only [Function.comp_apply,batched.weights,batchWeight_mem batched.distinct mem,Option.elim_some,if_true]
    exact if_congr (payee_some s u.nodeId family) rfl rfl
  · rintro ⟨epoch,_⟩ weight found missing
    refine if_neg ?_
    intro same
    change epoch = s.epochs.currentEpoch at same
    rw [same,batched.weights,batchWeight_none] at found
    · cases found
    · intro mem
      obtain ⟨u,listed,rfl⟩ := mem_map.mp mem
      rw [same] at missing
      exact missing (mem_map.mpr ⟨u,listed,rfl⟩)

theorem activeComputeMiners_exact {s : ComputeScoring.State A H W} (batched : Batched s log)
    (fits : ∀ family, eligibleWeight s (lastBatch log) family < 2 ^ 128) (family : A) (weight : Nat) :
    (family,weight) ∈ Bank.weightsOf (activeComputeMiners cfg s) ↔ 0 < weight ∧ weight = eligibleWeight s (lastBatch log) family := by
  have bounded : eligibleWeight s (lastBatch log) family ≤ maxOf 128 := Nat.le_sub_one_of_lt (fits family)
  rw [Bank.weightsOf,mem_map]
  constructor
  · rintro ⟨⟨other,known⟩,mem,same⟩
    obtain ⟨rfl,rfl⟩ := Prod.mk.inj same
    obtain ⟨positive,exact⟩ := (mem_activeComputeMiners s other known).mp mem
    rw [familyWeight_batch batched,Nat.min_eq_left bounded] at exact
    exact ⟨positive,exact⟩
  · rintro ⟨positive,exact⟩
    refine ⟨(family,⟨weight,exact ▸ fits family⟩),?_,rfl⟩
    refine (mem_activeComputeMiners s family _).mpr ⟨positive,?_⟩
    rw [familyWeight_batch batched,Nat.min_eq_left bounded]
    exact exact

theorem paysProRata (batched : Batched s.scoring log) (call : Call A H W B) (fits : FamiliesFit (s,log) call) :
    PaysProRata cfg (s,log) call := by
  cases call with
  | scoring => trivial
  | bank call =>
    cases call with
    | payComputeMiners =>
      intro bank ran
      obtain ⟨paid,settles⟩ := Bank.payComputeMiners_settles ran
      refine ⟨Bank.weightsOf (activeComputeMiners cfg s.scoring),paid,?_,?_,settles.transfers,settles_paid settles⟩
      · rw [Bank.weightsOf,map_map]
        exact activeComputeMiners_families s.scoring
      · exact activeComputeMiners_exact batched fits
    | _ => trivial

theorem closed_batched {s t : ComputeScoring.State A H W} (batched : Batched s log)
    (ran : valiSubmitEpochClose cfg.scoring s origin epoch updates = .ok t) : Batched t (log ++ [.closed updates]) := by
  have closed := valiSubmitEpochClose_ok ran
  have weights := valiSubmitEpochClose_weights ran
  refine ⟨?_,?_,?_⟩
  · intro nodeId
    rw [closed.current,weights,lastBatch_closed,batched.ahead (epoch,nodeId) closed.later,Option.or_none]
  · simp only [valiSubmitEpochClose,passes] at ran
    rw [lastBatch_closed]
    exact (checkUpdates_distinct [] updates ran.2.2.2.1).2
  · intro key later
    rw [closed.current] at later
    rw [closed.beyond key later]
    exact batched.ahead key (closed.later.trans later)

theorem scoring_step (batched : Batched s.scoring log) (ordered : Ordered s.bank log) (call : ComputeScoring.Call A H W) :
    Batched (step cfg s (.scoring call)).scoring (log ++ milestones cfg s (.scoring call)) ∧
      Ordered (step cfg s (.scoring call)).bank (log ++ milestones cfg s (.scoring call)) := by
  cases ran : dispatch cfg.scoring s.scoring call with
  | error =>
    have silent : milestones cfg s (.scoring call) = [] := by
      cases call with
      | valiSubmitEpochClose => simp [milestones,accepts,ran]
      | _ => rfl
    have still : step cfg s (.scoring call) = s := by
      simp [step,ComputeScoring.step,ran]
    rw [silent,still,append_nil]
    exact ⟨batched,ordered⟩
  | ok t =>
    have moved : step cfg s (.scoring call) = {s with scoring:=t} := by
      simp [step,ComputeScoring.step,ran]
    rw [moved]
    rcases dispatch_epoch ran with only | ⟨origin,epoch,updates,rfl,_⟩
    · have silent : milestones cfg s (.scoring call) = [] := by
        cases call with
        | valiSubmitEpochClose =>
          have closed := valiSubmitEpochClose_ok ran
          have later := closed.later
          rw [← closed.current,only.epoch] at later
          exact absurd later (lt_irrefl _)
        | _ => rfl
      rw [silent,append_nil]
      exact ⟨batched.same only.epoch only.weights rfl,ordered⟩
    · have emitted : milestones cfg s (.scoring (.valiSubmitEpochClose origin epoch updates)) = [.closed updates] := by
        rw [milestones,if_pos (accepts_ok ran)]
      rw [emitted]
      refine ⟨closed_batched batched ran,?_,?_⟩
      · rw [settledEpochs_closed]
        exact ordered.rising
      · rw [settledEpochs_closed]
        exact ordered.behind

theorem bank_step (cfg : Config A H W B) (ordered : Ordered s.bank log) (call : Bank.Call A B) :
    lastBatch (log ++ milestones cfg s (.bank call)) = lastBatch log ∧
      Ordered (step cfg s (.bank call)).bank (log ++ milestones cfg s (.bank call)) := by
  by_cases pays : ∃ origin amount given named, call = .payComputeMiners origin amount given named
  · obtain ⟨origin,amount,given,named,rfl⟩ := pays
    refine ⟨?_,?_⟩
    · simp only [milestones]
      split
      · rw [append_nil]
      · exact lastBatch_settled ..
    · cases ran : Bank.dispatch cfg.bank s.bank (supplied cfg s (.payComputeMiners origin amount given named)) with
      | error =>
        have still : step cfg s (.bank (.payComputeMiners origin amount given named)) = s := by
          simp [step,Bank.step,ran]
        have silent : milestones cfg s (.bank (.payComputeMiners origin amount given named)) = [] := by
          simp [milestones,still,paidBetween]
        rw [silent,still,append_nil]
        exact ordered
      | ok bank =>
        have moved : step cfg s (.bank (.payComputeMiners origin amount given named)) = {s with bank:=bank} := by
          simp [step,Bank.step,ran]
        obtain ⟨_,settles⟩ := Bank.payComputeMiners_settles ran
        simp only [milestones,moved]
        split
        next nothing =>
          rw [append_nil]
          exact unsettled_ordered ordered settles nothing
        · next something => exact settled_ordered ordered settles something
  · have silent : milestones cfg s (.bank call) = [] := by
      cases call with
      | payComputeMiners origin amount given named => exact absurd ⟨origin,amount,given,named,rfl⟩ pays
      | _ => rfl
    have other : ∀ origin amount given named, supplied cfg s call ≠ .payComputeMiners origin amount given named := by
      intro origin amount given named same
      cases call with
      | payComputeMiners origin amount given named => exact pays ⟨origin,amount,given,named,rfl⟩
      | _ => cases same
    rw [silent,append_nil]
    refine ⟨rfl,commit_inv (fun bank : Bank.State A B => Ordered bank log) ordered ?_⟩
    intro bank ran
    refine ⟨ordered.rising,?_⟩
    rw [Bank.dispatch_cursor (supplied cfg s call) other ran]
    exact ordered.behind

theorem step_settles (p : State A H W B × List (Milestone H)) (call : Call A H W B)
    (kept : Batched p.1.scoring p.2 ∧ Ordered p.1.bank p.2) :
    Batched (recording (step cfg) (milestones cfg) p call).1.scoring (recording (step cfg) (milestones cfg) p call).2 ∧
      Ordered (recording (step cfg) (milestones cfg) p call).1.bank (recording (step cfg) (milestones cfg) p call).2 := by
  obtain ⟨batched,ordered⟩ := kept
  cases call with
  | scoring call => exact scoring_step batched ordered call
  | bank call =>
    obtain ⟨batch,later⟩ := bank_step cfg ordered call
    exact ⟨batched.same rfl rfl batch,later⟩

theorem compute_epochs_settled_once (cfg : Config A H W B) (s : State A H W B)
    (calls : List (Call A H W B)) (unweighted : s.scoring.epochs.epochWeights = ∅)
    (fits : Throughout (recording (step cfg) (milestones cfg)) FamiliesFit (s,[]) calls) :
    (settledEpochs (run (recording (step cfg) (milestones cfg)) (s,[]) calls).2).Pairwise (· < ·) ∧
      Throughout (recording (step cfg) (milestones cfg)) (PaysProRata cfg) (s,[]) calls := by
  have start : Batched s.scoring ([] : List (Milestone H)) ∧ Ordered s.bank ([] : List (Milestone H)) := by
    refine ⟨⟨?_,nodup_nil,?_⟩,List.Pairwise.nil,?_⟩
    · intro nodeId
      rw [unweighted]
      rfl
    · intro key _
      rw [unweighted]
      rfl
    · intro epoch mem
      cases mem
  refine ⟨?_,?_⟩
  · have reached := run_invariant (fun p : State A H W B × List (Milestone H) =>
      Batched p.1.scoring p.2 ∧ Ordered p.1.bank p.2) (fun p call kept _ => step_settles p call kept) start fits
    exact reached.2.rising
  · exact throughout_of_invariant (fun p : State A H W B × List (Milestone H) =>
      Batched p.1.scoring p.2 ∧ Ordered p.1.bank p.2) (fun p call kept _ => step_settles p call kept)
      (fun p call kept fit => paysProRata kept.1 call fit) start fits

end

def paidTwice : List (Call Nat Short Unit (Nat → Nat)) :=
  staffed ++ [ .scoring (.registerChild (.signed 4) 4 5 (shorten [8]) []),
    .scoring (.valiSubmitEpochClose .root 1 [⟨shorten [7],.active,10⟩,⟨shorten [8],.active,5⟩]),pay,pay,
    .scoring (.valiSubmitEpochClose .root 2 [⟨shorten [8],.active,5⟩]),pay]

theorem compute_epochs_settled_once_twice :
    settledEpochs (run (recording (step plainCompute) (milestones plainCompute)) (opened,[]) paidTwice).2 = [1,2] ∧
      (run (step plainCompute) opened paidTwice).bank.accounts 1 = 13 ∧ (run (step plainCompute) opened paidTwice).bank.accounts 4 = 26 ∧
      Throughout (recording (step plainCompute) (milestones plainCompute)) (PaysProRata plainCompute) (opened,[]) paidTwice := by
  have small : Throughout (recording (step plainCompute) (milestones plainCompute)) BatchFits (opened,[]) paidTwice := by
    decide +kernel
  have fits := throughout_of_invariant (fun _ => True) (fun _ _ _ _ => trivial)
    (fun p call _ fit => familiesFit_of_batch p call fit) trivial small
  exact ⟨by decide +kernel,by decide +kernel,by decide +kernel,(compute_epochs_settled_once plainCompute opened paidTwice rfl fits).2⟩

end TheBrain.Mainnet.Compute
