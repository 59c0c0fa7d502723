import Mathlib.Algebra.Order.Field.Rat
import TheBrain.Arion.UidRuns
import TheBrain.Arion.Enrolment

-- What a miner is paid for depends on the bytes it stores, block by block, and not on
-- when they are reported or settled.
namespace TheBrain.Arion
open Library Machine Words PaymentMath Function

variable {A N W : Type}
variable {cfg : Config A N W} {s t : State A N W}

def integrated (s : State A N W) (uid now : Nat) : Nat :=
  (s.minerAccruals uid).elim 0 fun accrual => accrual.byteBlocks + storedBytes s uid * (now - accrual.lastBlock)

def Accruing (s : State A N W) (uid now : Nat) : Prop :=
  ∃ accrual, s.minerAccruals uid = some accrual ∧ accrual.lastBlock ≤ now

def Holds (uid now n : Nat) (s : State A N W) : Prop := Accruing s uid now ∧ integrated s uid now = n

theorem Holds.accrued (holds : Holds uid now n s) (fits : n < 2 ^ 128) : (accrued s uid now).val = n := by
  obtain ⟨⟨accrual,stored,_⟩,rfl⟩ := holds
  simp only [integrated,stored,Option.elim_some] at fits ⊢
  have product : saturatingMul 128 (storedBytes s uid) (now - accrual.lastBlock) = storedBytes s uid * (now - accrual.lastBlock) := by
    refine Nat.min_eq_left ?_
    unfold maxOf
    omega
  simp only [Arion.accrued,stored,Option.getD_some,product]
  exact saturatingAdd_exact fits

theorem integrated_later (accruing : Accruing s uid now) (later : now ≤ after) :
    Accruing s uid after ∧ integrated s uid after = integrated s uid now + storedBytes s uid * (after - now) := by
  obtain ⟨accrual,stored,dated⟩ := accruing
  refine ⟨⟨accrual,stored,dated.trans later⟩,?_⟩
  have apart : after - accrual.lastBlock = now - accrual.lastBlock + (after - now) := by omega
  simp only [integrated,stored,Option.elim_some,apart,Nat.mul_add,Nat.add_assoc]

theorem holds_written {byteBlocks : Word 128} (stored : s.minerAccruals uid = some ⟨byteBlocks,now⟩) : Holds uid now byteBlocks s := by
  refine ⟨⟨_,stored,le_rfl⟩,?_⟩
  simp [integrated,stored]

theorem Holds.same (holds : Holds uid now n s) (accruals : t.minerAccruals uid = s.minerAccruals uid)
    (stats : t.minerStatsByUid.lookup uid = s.minerStatsByUid.lookup uid) : Holds uid now n t := by
  unfold Holds Accruing integrated storedBytes at holds ⊢
  rw [accruals,stats]
  exact holds

theorem recordStats_holds (update : Nat × MinerStats) (claimed : s.minerUidToChild uid ≠ none) (fits : n < 2 ^ 128)
    (holds : Holds uid now n s) : Holds uid now n (recordStats now s update) := by
  by_cases own : update.1 = uid
  · subst own
    simp only [recordStats,if_neg claimed]
    rw [← holds.accrued fits]
    exact holds_written (update_self ..)
  · simp only [recordStats]
    split
    · exact holds.same rfl (AList.lookup_insert_ne (Ne.symm own))
    · exact holds.same (update_of_ne (Ne.symm own) _ _) (AList.lookup_insert_ne (Ne.symm own))

theorem recordAll_holds (updates : List (Nat × MinerStats)) (claimed : s.minerUidToChild uid ≠ none) (fits : n < 2 ^ 128)
    (holds : Holds uid now n s) : Holds uid now n (updates.foldl (recordStats now) s) := by
  refine (foldl_keeps (fun t : State A N W => t.minerUidToChild = s.minerUidToChild ∧ Holds uid now n t) ?_ updates ⟨rfl,holds⟩).2
  rintro t update ⟨same,holds⟩
  refine ⟨?_,recordStats_holds update (same ▸ claimed) fits holds⟩
  rw [← same,recordStats]
  split
  · rfl
  · rfl

section
variable [DecidableEq N]

-- Pruning may drop the stats and the accruals of uids that no Active child holds.
structure Spares (cfg : Config A N W) (now : Nat) (s u : State A N W) : Prop where
  block : u.blockNumber = now
  childMinerUid : u.childMinerUid = s.childMinerUid
  registrations : u.childRegistrations = s.childRegistrations
  price : u.minerPriceUsdPerGbBlock = s.minerPriceUsdPerGbBlock
  world : u.world = s.world
  familyArrears : u.familyArrears = s.familyArrears
  events : u.events = s.events
  kept : ∀ uid ∈ collectProtectedMinerUids cfg s,
    u.minerAccruals uid = s.minerAccruals uid ∧ u.minerStatsByUid.lookup uid = s.minerStatsByUid.lookup uid

theorem block_spares (cfg : Config A N W) (now : Nat) (s : State A N W) : Spares cfg now s {s with blockNumber:=now} :=
  ⟨rfl,rfl,rfl,rfl,rfl,rfl,rfl,fun _ _ => ⟨rfl,rfl⟩⟩

theorem prune_spares (cfg : Config A N W) (now : Nat) (s : State A N W) :
    Spares cfg now s (pruneStaleMinerStats cfg {s with blockNumber:=now}) := by
  refine prune_keeps cfg (Spares cfg now s) ?_ (fun _ _ spares => {spares with}) (block_spares cfg now s)
  intro t other spares
  unfold pruneUid
  split
  · exact spares
  next dropped =>
    refine {spares with kept:=?_}
    intro uid protects
    have apart : uid ≠ other := fun same => dropped (same ▸ protects)
    obtain ⟨accruals,stats⟩ := spares.kept uid protects
    exact ⟨(update_of_ne apart _ _).trans accruals,(AList.lookup_erase_ne apart).trans stats⟩

end

variable [DecidableEq A]

theorem settle_holds (cfg : Config A N W) (distinct : UidsDistinct s) (found : s.childRegistrations.lookup child = some reg)
    (settles : settledUid s (child,reg) = some uid) (priced : s.minerPriceUsdPerGbBlock ≠ 0)
    (traded : cfg.tokenPriceUsd s.world ≠ 0) (now : Nat) :
    let tokens := uidTokens s s.minerPriceUsdPerGbBlock (cfg.tokenPriceUsd s.world) now uid
    Holds uid now (if tokens = 0 then (accrued s uid now).val else 0) (settleMinerPayments cfg s now) := by
  intro tokens
  obtain ⟨entries,paid,all⟩ := settleMinerPayments_parts cfg s now
  have settled := (settleChildren_spec (s := s) s.minerPriceUsdPerGbBlock (cfg.tokenPriceUsd s.world) now entries (s,∅) rfl
    (all priced traded ▸ settledUids_nodup cfg.registrationRank distinct) (fun _ _ _ _ => rfl)).2.2.1 (child,reg)
    (all priced traded ▸ (StorageMap.mem_iter _ _).mpr found) uid settles
  rw [← paid.sameUids.minerAccruals] at settled
  have written := holds_written settled
  split
  next worthless =>
    rw [if_pos worthless] at written
    exact written
  next worth =>
    rw [if_neg worth] at written
    exact written

theorem settle_block (cfg : Config A N W) (s : State A N W) (now : Nat) : (settleMinerPayments cfg s now).blockNumber = s.blockNumber := by
  refine settle_keeps cfg (fun t => t.blockNumber = s.blockNumber) now ?_ ?_ rfl
  · exact fun p entry before => (settleChild_inside _ _ _ p entry).block.trans before
  · rintro t _ ⟨_,_,_,_,rfl⟩ before
    exact before

variable [DecidableEq N]

theorem protected_uid (cfg : Config A N W) (found : s.childRegistrations.lookup child = some reg)
    (settles : settledUid s (child,reg) = some uid) : uid ∈ collectProtectedMinerUids cfg s := by
  unfold settledUid at settles
  split at settles
  next active =>
    have held := Option.filter_eq_some_iff.mp settles
    exact (mem_protected cfg).mpr ⟨child,reg,found,active,.inl ⟨held.1,of_decide_eq_true held.2⟩⟩
  · cases settles

section
variable {u : State A N W} (spares : Spares cfg now s u)
include spares

section
omit [DecidableEq A]

theorem Spares.settledUid (entry : A × ChildRegistration A N) : settledUid u entry = settledUid s entry := by
  simp only [Arion.settledUid,spares.childMinerUid]

theorem Spares.uidTokens (protects : uid ∈ collectProtectedMinerUids cfg s) (price tokenPrice later : Nat) :
    uidTokens u price tokenPrice later uid = uidTokens s price tokenPrice later uid := by
  obtain ⟨accruals,stats⟩ := spares.kept uid protects
  simp only [Arion.uidTokens,accrued,storedBytes,accruals,stats]

end

theorem Spares.owed (later : Nat) (family : A) : owed cfg u later family = owed cfg s later family := by
  simp only [Arion.owed,spares.registrations,spares.price,spares.world]
  refine StorageMap.total_congr _ _ s.childRegistrations ?_
  intro child reg found
  simp only [earned,spares.settledUid]
  cases settles : Arion.settledUid s (child,reg) with
  | none => simp only [Option.elim_none]
  | some uid =>
    have same := spares.uidTokens (protected_uid cfg found settles)
    simp only [Option.elim_some,same]

end

def paidIn (s t : State A N W) : List (A × Nat) := (t.events.drop s.events.length).filterMap paidBy

-- What a settlement credited the child, as its outcome shows: the payments to the family and
-- the growth of its arrears, less what the family is owed without the child.
def credited (cfg : Config A N W) (child family : A) (now : Nat) (s t : State A N W) : Nat :=
  paidTo family (paidIn s t) + arrears t family - arrears s family -
    owed cfg {s with childRegistrations:=s.childRegistrations.erase child} now family

def Requested (cfg : Config A N W) (s t : State A N W) : Prop :=
  ∃ requests : List (A × Nat), requests.foldl (transfer cfg) (s.world,[]) = (t.world,paidIn s t)

theorem settle_credits {u : State A N W} (spares : Spares cfg now s u) (distinct : UidsDistinct u)
    (found : s.childRegistrations.lookup child = some reg) (room : arrears s reg.family + owed cfg s now reg.family < 2 ^ 128) :
    let t := settleMinerPayments cfg u now
    Requested cfg s t ∧ credited cfg child reg.family now s t =
      earned s s.minerPriceUsdPerGbBlock (cfg.tokenPriceUsd s.world) now (child,reg) := by
  intro t
  obtain ⟨payments,conserves⟩ := settleMinerPayments_conserves cfg u now distinct
  obtain ⟨emitted,log,paid⟩ := conserves.pays.reported
  obtain ⟨requests,moved⟩ := conserves.pays.moved
  have start : arrears u reg.family = arrears s reg.family := by
    rw [arrears,spares.familyArrears,arrears]
  have reported : paidIn s t = payments := by
    rw [paidIn,log,← spares.events]
    exact (congrArg (List.filterMap paidBy) List.drop_left).trans paid
  constructor
  · refine ⟨requests,?_⟩
    rw [reported,← spares.world]
    exact moved []
  · have exact := conserves.exact reg.family
    have split : owed cfg s now reg.family = earned s s.minerPriceUsdPerGbBlock (cfg.tokenPriceUsd s.world) now (child,reg) +
        owed cfg {s with childRegistrations:=s.childRegistrations.erase child} now reg.family := by
      rw [owed,StorageMap.total_erase _ _ found,if_pos rfl]
      rfl
    rw [start,spares.owed] at exact
    have total : paidTo reg.family payments + arrears t reg.family = _ := exact room
    rw [credited,reported]
    omega

def Call.reports : Call A N W → Bool
  | .submitMinerStats .. | .settleMinerPayments | .pruneStaleMinerStats | .onInitialize _ | .elsewhere _ => true
  | _ => false

-- The child keeps its family and its uid, which only an Active child has, the two prices stay,
-- and neither byte-blocks nor tokens nor what the family is due saturate.
def Steady (cfg : Config A N W) (child family : A) (uid price tokenPrice : Nat) (s : State A N W) (call : Call A N W) : Prop :=
  call.reports = true ∧ s.blockNumber ≤ blockOf s call ∧ s.childMinerUid child = some uid ∧
    (∀ reg ∈ s.childRegistrations.lookup child, reg.family = family) ∧
    s.minerPriceUsdPerGbBlock = price ∧ cfg.tokenPriceUsd s.world = tokenPrice ∧ integrated s uid (blockOf s call) < 2 ^ 128 ∧
    integrated s uid (blockOf s call) * price * e18 / (gib * tokenPrice) < 2 ^ 128 ∧
    arrears s family + owed cfg s (blockOf s call) family < 2 ^ 128

instance (child family : A) (uid price tokenPrice : Nat) (s : State A N W) (call : Call A N W) :
    Decidable (Steady cfg child family uid price tokenPrice s call) := inferInstanceAs (Decidable (_ ∧ _))

structure Live (uid : Nat) (s : State A N W) : Prop where
  linked : UidsLinked s
  accruing : Accruing s uid s.blockNumber

def Leaves (cfg : Config A N W) (child family : A) (uid now : Nat) (s t : State A N W) : Prop :=
  t.blockNumber = now ∧ (Holds uid now (integrated s uid now) t ∨ Holds uid now 0 t ∧ Requested cfg s t ∧
    credited cfg child family now s t = uidTokens s s.minerPriceUsdPerGbBlock (cfg.tokenPriceUsd s.world) now uid ∧
    uidTokens s s.minerPriceUsdPerGbBlock (cfg.tokenPriceUsd s.world) now uid ≠ 0)

theorem spared_leaves {u : State A N W} (spares : Spares cfg now s u) (protects : uid ∈ collectProtectedMinerUids cfg s)
    (accruing : Accruing s uid now) : Leaves cfg child family uid now s u := by
  obtain ⟨accruals,stats⟩ := spares.kept uid protects
  exact ⟨spares.block,.inl (Holds.same ⟨accruing,rfl⟩ accruals stats)⟩

theorem settle_leaves {u : State A N W} (spares : Spares cfg now s u) (linked : UidsLinked s)
    (found : s.childRegistrations.lookup child = some reg) (settles : settledUid s (child,reg) = some uid)
    (priced : s.minerPriceUsdPerGbBlock ≠ 0) (traded : cfg.tokenPriceUsd s.world ≠ 0) (accruing : Accruing s uid now)
    (fits : integrated s uid now < 2 ^ 128) (room : arrears s reg.family + owed cfg s now reg.family < 2 ^ 128) :
    Leaves cfg child reg.family uid now s (settleMinerPayments cfg u now) := by
  have protects := protected_uid cfg found settles
  have distinct : UidsDistinct u := by
    refine uidsDistinct_of_injective ?_
    rw [spares.childMinerUid]
    exact fun _ _ _ => holder_unique linked
  have left := settle_holds cfg distinct (spares.registrations ▸ found) ((spares.settledUid _).trans settles)
    (spares.price ▸ priced) (spares.world ▸ traded) now
  have same : Holds uid now (integrated s uid now) u :=
    Holds.same ⟨accruing,rfl⟩ (spares.kept uid protects).1 (spares.kept uid protects).2
  rw [spares.price,spares.world,spares.uidTokens protects,same.accrued fits] at left
  refine ⟨(settle_block cfg u now).trans spares.block,?_⟩
  dsimp only at left
  split at left
  · exact .inl left
  next worth =>
    obtain ⟨requested,credits⟩ := settle_credits spares distinct found room
    rw [earned,settles] at credits
    exact .inr ⟨left,requested,credits,worth⟩

section
variable {child family : A} (used : uid ≠ 0) (priced : price ≠ 0) (traded : tokenPrice ≠ 0) (call : Call A N W) (live : Live uid s)
  (steady : Steady cfg child family uid price tokenPrice s call)
include used priced traded live steady

theorem step_leaves : Leaves cfg child family uid (blockOf s call) s (step cfg s call) := by
  obtain ⟨linked,accruing⟩ := live
  obtain ⟨reports,forward,bound,member,rfl,rfl,fits,_,room⟩ := steady
  obtain ⟨reg,found,active⟩ := linked.bound child uid bound
  cases member reg found
  have settles : settledUid s (child,reg) = some uid := by
    simp [settledUid,active,bound,used]
  have protects := protected_uid cfg found settles
  cases call with
  | submitMinerStats _ _ updates =>
    have claimed : s.minerUidToChild uid ≠ none := by
      rw [linked.forward child uid bound]
      exact Option.some_ne_none child
    have holds : Holds uid s.blockNumber _ s := ⟨accruing,rfl⟩
    refine commit_inv (Leaves cfg child reg.family uid s.blockNumber s) ⟨rfl,.inl holds⟩ ?_
    intro t ran
    simp only [dispatch,submitMinerStats,passes] at ran
    obtain ⟨_,_,rfl⟩ := ran
    exact ⟨(foldl_inside (recordStats_inside _) updates s).block,.inl (recordAll_holds updates claimed fits holds)⟩
  | settleMinerPayments => exact settle_leaves (block_spares cfg _ s) linked found settles priced traded accruing fits room
  | pruneStaleMinerStats => exact spared_leaves (prune_spares cfg _ s) protects accruing
  | elsewhere => exact ⟨rfl,.inl ⟨accruing,rfl⟩⟩
  | onInitialize now =>
    simp only [blockOf] at forward fits room ⊢
    have later := (integrated_later accruing forward).1
    simp only [step,dispatch,onInitialize]
    have pruned : ∃ u, (if cfg.minerStatsPruneInterval ≠ 0 ∧ now % cfg.minerStatsPruneInterval = 0 then
        pruneStaleMinerStats cfg {s with blockNumber:=now} else {s with blockNumber:=now}) = u ∧ Spares cfg now s u := by
      refine ⟨_,rfl,?_⟩
      split
      · exact prune_spares cfg now s
      · exact block_spares cfg now s
    obtain ⟨u,same,spares⟩ := pruned
    rw [same]
    split
    · exact settle_leaves spares linked found settles priced traded later fits room
    · exact spared_leaves spares protects later
  | _ => cases reports

theorem step_live : Live uid (step cfg s call) where
  linked := (step_keeps call live.linked).linked
  accruing := by
    obtain ⟨block,holds | ⟨holds,_⟩⟩ := step_leaves used priced traded call live steady
    · exact block ▸ holds.1
    · exact block ▸ holds.1

end

-- The bytes in force in each block that a call ends, and what a settlement in it takes
-- from the accrual, with the tokens it credits for that.
def account (cfg : Config A N W) (child family : A) (uid : Nat) (s : State A N W) (call : Call A N W) :
    List (List Nat × Option (Nat × Nat)) :=
  let now := blockOf s call
  let left := (accrued (step cfg s call) uid now).val
  let before := (accrued s uid now).val
  [(List.replicate (now - s.blockNumber) (storedBytes s uid),if left < before then
    some (before - left,credited cfg child family now s (step cfg s call)) else none)]

def Moved (cfg : Config A N W) (uid : Nat) (s : State A N W) (call : Call A N W) : Prop :=
  accrued (step cfg s call) uid (blockOf s call) < accrued s uid (blockOf s call) → Requested cfg s (step cfg s call)

theorem step_moved (used : uid ≠ 0) (priced : price ≠ 0) (traded : tokenPrice ≠ 0) (call : Call A N W) (live : Live uid s)
    (steady : Steady cfg child family uid price tokenPrice s call) : Moved cfg uid s call := by
  intro consumed
  obtain ⟨_,kept | ⟨_,requested,_⟩⟩ := step_leaves used priced traded call live steady
  · obtain ⟨_,forward,_,_,_,_,fits,_⟩ := steady
    have before : (accrued s uid (blockOf s call)).val = _ := Holds.accrued ⟨(integrated_later live.accruing forward).1,rfl⟩ fits
    have after := kept.accrued fits
    rw [Fin.lt_def,before,after] at consumed
    exact absurd consumed (Nat.lt_irrefl _)
  · exact requested

structure Accounted (uid price tokenPrice : Nat) (start : State A N W) (p : State A N W × List (List Nat × Option (Nat × Nat))) :
    Prop extends Live uid p.1 where
  balance : ((p.2.filterMap Prod.snd).map Prod.fst).sum + accrued p.1 uid p.1.blockNumber =
    accrued start uid start.blockNumber + (p.2.flatMap Prod.fst).sum
  floors : ∀ entry ∈ p.2.filterMap Prod.snd, entry.2 = entry.1 * price * e18 / (gib * tokenPrice)

theorem step_accounted (used : uid ≠ 0) (priced : price ≠ 0) (traded : tokenPrice ≠ 0) (start : State A N W)
    (p : State A N W × List (List Nat × Option (Nat × Nat))) (call : Call A N W) (accounted : Accounted uid price tokenPrice start p)
    (steady : Steady cfg child family uid price tokenPrice p.1 call) :
    Accounted uid price tokenPrice start (recording (step cfg) (account cfg child family uid) p call) := by
  obtain ⟨s,_⟩ := p
  obtain ⟨live,balance,floors⟩ := accounted
  dsimp only at live balance floors steady
  have later := integrated_later live.accruing steady.2.1
  have alive := step_live used priced traded call live steady
  obtain ⟨block,left⟩ := step_leaves used priced traded call live steady
  obtain ⟨_,_,_,_,rfl,rfl,fits,small,_⟩ := steady
  have now : (accrued s uid (blockOf s call)).val = integrated s uid (blockOf s call) := Holds.accrued ⟨later.1,rfl⟩ fits
  have before : (accrued s uid s.blockNumber).val = integrated s uid s.blockNumber :=
    Holds.accrued ⟨live.accruing,rfl⟩ ((Nat.le_add_right _ _).trans_lt (later.2 ▸ fits))
  simp only [recording]
  rcases left with kept | ⟨none,_,credits,worth⟩
  · have same := kept.accrued fits
    have entry : account cfg child family uid s call = [(List.replicate (blockOf s call - s.blockNumber) (storedBytes s uid),none)] := by
      simp [account,same,now]
    rw [entry]
    refine ⟨alive,?_,?_⟩
    · simp only [List.filterMap_append,List.filterMap_cons,List.filterMap_nil,List.append_nil,List.flatMap_append,List.flatMap_cons,
        List.flatMap_nil,List.sum_append,List.sum_replicate_nat,block,same]
      rw [Nat.mul_comm (blockOf s call - s.blockNumber)]
      omega
    · simpa only [List.filterMap_append,List.filterMap_cons,List.filterMap_nil,List.append_nil] using floors
  · have zero := none.accrued (by decide)
    have positive : 0 < integrated s uid (blockOf s call) := by
      rw [uidTokens,now] at worth
      refine Nat.pos_of_ne_zero fun empty => worth ?_
      rw [empty,tokensFor_zero]
    have entry : account cfg child family uid s call = [(List.replicate (blockOf s call - s.blockNumber) (storedBytes s uid),
        some (integrated s uid (blockOf s call),uidTokens s s.minerPriceUsdPerGbBlock (cfg.tokenPriceUsd s.world) (blockOf s call) uid))] := by
      simp [account,zero,now,positive,credits]
    rw [entry]
    refine ⟨alive,?_,?_⟩
    · simp only [List.filterMap_append,List.filterMap_cons,List.filterMap_nil,List.flatMap_append,List.flatMap_cons,
        List.flatMap_nil,List.map_append,List.map_cons,List.map_nil,List.sum_append,List.sum_cons,List.sum_replicate_nat,
        block]
      rw [Nat.mul_comm (blockOf s call - s.blockNumber)]
      omega
    · intro entry listed
      rw [List.filterMap_append] at listed
      rcases List.mem_append.mp listed with old | new
      · exact floors entry old
      · rw [List.mem_singleton.mp new,uidTokens,tokensFor,if_neg traded,now]
        exact Nat.min_eq_left (Nat.le_sub_one_of_lt small)

theorem floors_sum (unit value : Nat) (positive : 0 < unit) (entries : List (Nat × Nat)) (floors : ∀ e ∈ entries, e.2 = e.1 * value / unit) :
    (entries.map Prod.snd).sum * unit ≤ (entries.map Prod.fst).sum * value ∧
      (entries.map Prod.fst).sum * value + entries.length ≤ ((entries.map Prod.snd).sum + entries.length) * unit := by
  induction entries with
  | nil => simp
  | cons e _ ih =>
    obtain ⟨low,high⟩ := ih fun other mem => floors other (List.mem_cons_of_mem _ mem)
    have own := floors e (List.mem_cons_self ..)
    have below : e.2 * unit ≤ e.1 * value := own ▸ Nat.div_mul_le_self _ _
    have above : e.1 * value < (e.2 + 1) * unit := by
      rw [own,Nat.mul_comm (_ + 1)]
      exact Nat.lt_mul_div_succ _ positive
    simp only [List.map_cons,List.sum_cons,List.length_cons,Nat.add_mul] at low high above ⊢
    omega

-- From any reachable state in which the child has an accrual: what was settled and what is
-- still accrued are the bytes of every block, k settlements lose less than k tokens, and what
-- they report as paid is what the payout source moved.
theorem pay_follows_bytes (cfg : Config A N W) (world : W) (prior : List (Call A N W)) (child family : A) (used : uid ≠ 0) (priced : price ≠ 0)
    (traded : tokenPrice ≠ 0) (accruing : Accruing (run (step cfg) (genesis world) prior) uid (run (step cfg) (genesis world) prior).blockNumber)
    (calls : List (Call A N W))
    (steady : Throughout (step cfg) (Steady cfg child family uid price tokenPrice) (run (step cfg) (genesis world) prior) calls) :
    let start := run (step cfg) (genesis world) prior
    let p := run (recording (step cfg) (account cfg child family uid)) (start,[]) calls
    let settled := p.2.filterMap Prod.snd
    let consumed := (settled.map Prod.fst).sum
    let tokens := (settled.map Prod.snd).sum
    let value : ℚ := consumed * price * e18 / (gib * tokenPrice)
    consumed + accrued p.1 uid p.1.blockNumber = accrued start uid start.blockNumber + (p.2.flatMap Prod.fst).sum ∧
      tokens ≤ value ∧ (settled ≠ [] → value - settled.length < tokens) ∧ Throughout (step cfg) (Moved cfg uid) start calls := by
  intro start p settled consumed tokens value
  have live : Live uid start := ⟨run_linked cfg world prior,accruing⟩
  have accounted : Accounted uid price tokenPrice start p := run_invariant (Accounted uid price tokenPrice start)
    (step_accounted used priced traded start) ⟨live,Nat.zero_add _,nofun⟩
    (throughout_recording (account cfg child family uid) (start,[]) steady)
  have unit : 0 < gib * tokenPrice := Nat.mul_pos (by decide) (Nat.pos_of_ne_zero traded)
  obtain ⟨low,high⟩ := floors_sum (gib * tokenPrice) (price * e18) unit settled fun entry mem => by
    rw [← Nat.mul_assoc]
    exact accounted.floors entry mem
  have positive : (0 : ℚ) < gib * tokenPrice := by exact_mod_cast unit
  refine ⟨accounted.balance,?_,?_,throughout_of_invariant (Live uid) (fun _ => step_live used priced traded)
    (fun _ => step_moved used priced traded) live steady⟩
  · rw [le_div_iff₀ positive,mul_assoc]
    exact_mod_cast low
  · intro some
    have many : 0 < settled.length := List.length_pos_iff.mpr some
    rw [sub_lt_iff_lt_add,div_lt_iff₀ positive,mul_assoc]
    exact_mod_cast (Nat.lt_add_of_pos_right many).trans_le high

def reporting : List (Call Nat Nat Nat) :=
  [.registerChild (.signed 1) 1 21 31 [],.submitCrushMap .root 1 ⟨1,1,1⟩ [⟨5,31,1,1,[],[]⟩],.setMinerPrice .root 3,
    .submitMinerStats .root 1 [(5,⟨1000000000⟩)]]

theorem pay_follows_bytes_halved :
    let p := run (recording (step plainConfig) (account plainConfig 21 1 5)) (run (step plainConfig) (genesis 100) reporting,[])
      [.onInitialize 1,.settleMinerPayments,.submitMinerStats .root 2 [(5,⟨500000000⟩)],.onInitialize 3,.settleMinerPayments]
    p.2.filterMap Prod.snd = [(1000000000,2),(1000000000,2)] ∧
      ((p.2.filterMap Prod.snd).map Prod.fst).sum + accrued p.1 5 p.1.blockNumber =
        accrued (run (step plainConfig) (genesis 100) reporting) 5 (run (step plainConfig) (genesis 100) reporting).blockNumber +
          (p.2.flatMap Prod.fst).sum :=
  ⟨by decide +kernel,(@pay_follows_bytes _ _ _ _ _ 5 3 e18 plainConfig 100 reporting 21 1 (by decide) (by decide) (by decide)
    ⟨⟨0,0⟩,by decide +kernel,by decide +kernel⟩ _ (by decide +kernel)).1⟩

end TheBrain.Arion
