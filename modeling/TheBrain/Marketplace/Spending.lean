import TheBrain.Marketplace.Specs
import TheBrain.Marketplace.Ledgers

namespace TheBrain.Marketplace
open Library Machine Words List StorageMap

variable {A B : Type}
variable {s t u : State A B}

def ownerAt (s : State A B) (batchId : Nat) : Option A :=
  (s.batches.lookup batchId).map Batch.owner

theorem lookup_owner (own : ownerAt s batchId = some who) :
    ∃ batch, s.batches.lookup batchId = some batch ∧ batch.owner = who := Option.map_eq_some_iff.mp own

theorem ownerAt_insert (key : Nat) (rows : t.batches = s.batches.insert batchId batch) :
    ownerAt t key = if key = batchId then some batch.owner else ownerAt s key := by
  rw [ownerAt,rows,lookup_insert_if]
  split <;> rfl

def creditsAt (s : State A B) (batchId : Nat) : Nat :=
  (s.batches.lookup batchId).elim 0 Batch.remainingCredits

theorem creditsAt_insert (key : Nat) (rows : t.batches = s.batches.insert batchId batch) :
    creditsAt t key = if key = batchId then batch.remainingCredits else creditsAt s key := by
  rw [creditsAt,rows,lookup_insert_if]
  split <;> rfl

variable [DecidableEq A] {cfg : Config A B}

def listedCredits (s : State A B) (who : A) : Nat := ((batchesOf s who).map (creditsAt s)).sum

def ownedCredits (s : State A B) (who : A) : Nat :=
  StorageMap.total (fun _ batch => if batch.owner = who then batch.remainingCredits else 0) s.batches

-- Lists name rows of their own account, each once, and leave out only rows without credits.
structure Listing (s : State A B) : Prop where
  listed : ∀ who batchId, batchId ∈ batchesOf s who → ownerAt s batchId = some who
  distinct : ∀ who, (batchesOf s who).Nodup
  fresh : ∀ who batchId, ownerAt s batchId = some who → batchId < s.nextBatchId
  unlisted : ∀ who batchId, ownerAt s batchId = some who → batchId ∉ batchesOf s who → creditsAt s batchId = 0

theorem genesis_listing (bank : Bank.State A B) : Listing (genesis bank) where
  listed := nofun
  distinct := fun _ => nodup_nil
  fresh := nofun
  unlisted := nofun

theorem listedCredits_eq (listing : Listing s) (who : A) : listedCredits s who = ownedCredits s who := by
  unfold ownedCredits
  rw [total_listed _ s.batches (batchesOf s who) (listing.distinct who)]
  · refine congrArg sum (map_congr_left ?_)
    intro batchId mem
    have own := listing.listed who batchId mem
    obtain ⟨batch,found,same⟩ := Option.map_eq_some_iff.mp own
    rw [creditsAt,found,Option.elim_some,Option.elim_some,if_pos same]
  · intro batchId batch found missing
    split
    next own =>
      have empty := listing.unlisted who batchId (by rw [ownerAt,found,Option.map_some,own]) missing
      rw [creditsAt,found] at empty
      exact empty
    · rfl

structure Lowered (s t : State A B) : Prop where
  lists : ∀ who, batchesOf t who = batchesOf s who
  nextBatchId : t.nextBatchId = s.nextBatchId
  owners : ∀ batchId, ownerAt t batchId = ownerAt s batchId
  credits : ∀ batchId, creditsAt t batchId ≤ creditsAt s batchId

theorem Lowered.refl (s : State A B) : Lowered s s := ⟨fun _ => rfl,rfl,fun _ => rfl,fun _ => le_rfl⟩

theorem Lowered.trans (one : Lowered s t) (two : Lowered t u) : Lowered s u where
  lists := fun who => (two.lists who).trans (one.lists who)
  nextBatchId := two.nextBatchId.trans one.nextBatchId
  owners := fun batchId => (two.owners batchId).trans (one.owners batchId)
  credits := fun batchId => (two.credits batchId).trans (one.credits batchId)

theorem Lowered.listing (lowered : Lowered s t) (listing : Listing s) : Listing t where
  listed := by
    intro who batchId mem
    rw [lowered.lists] at mem
    exact (lowered.owners batchId).trans (listing.listed who batchId mem)
  distinct := by
    intro who
    rw [lowered.lists]
    exact listing.distinct who
  fresh := by
    intro who batchId own
    rw [lowered.owners] at own
    exact lowered.nextBatchId ▸ listing.fresh who batchId own
  unlisted := by
    intro who batchId own missing
    rw [lowered.owners] at own
    rw [lowered.lists] at missing
    exact Nat.le_zero.mp ((lowered.credits batchId).trans (listing.unlisted who batchId own missing).le)

theorem SameBatches.lowered (same : SameBatches s t) : Lowered s t where
  lists := by
    intro who
    rw [batchesOf,same.userBatches,batchesOf]
  nextBatchId := same.nextBatchId
  owners := by
    intro batchId
    rw [ownerAt,same.batches,ownerAt]
  credits := by
    intro batchId
    rw [creditsAt,same.batches,creditsAt]

theorem rewrite_lowered {next : Batch A} (found : s.batches.lookup batchId = some batch)
    (rows : t.batches = s.batches.insert batchId next)
    (owner : next.owner = batch.owner) (credits : next.remainingCredits ≤ batch.remainingCredits)
    (lists : t.userBatches = s.userBatches) (ids : t.nextBatchId = s.nextBatchId) : Lowered s t where
  lists := by
    intro who
    rw [batchesOf,lists,batchesOf]
  nextBatchId := ids
  owners := by
    intro key
    rw [ownerAt_insert key rows]
    split
    · next same => rw [ownerAt,same,found,Option.map_some,owner]
    · rfl
  credits := by
    intro key
    rw [creditsAt_insert key rows]
    split
    next same =>
      rw [creditsAt,same,found]
      exact credits
    · exact le_rfl

theorem batchesOf_insert (s : State A B) (owner who : A) (ids : List Nat)
    (lists : t.userBatches = s.userBatches.insert owner ids) : batchesOf t who = if who = owner then ids else batchesOf s who := by
  rw [batchesOf,lists,lookup_insert_if]
  split <;> rfl

theorem batchesOf_relist (s : State A B) (owner who : A) (kept : List Nat) :
    batchesOf (relist s owner kept) who = if who = owner then kept else batchesOf s who := by
  unfold batchesOf relist
  by_cases empty : kept = []
  · rw [if_pos empty,lookup_erase_if]
    split
    · exact empty.symm
    · rfl
  · rw [if_neg empty,lookup_insert_if]
    split <;> rfl

theorem relist_listing (listing : Listing s) (owner : A) (kept : List Nat) (sublist : kept.Sublist (batchesOf s owner))
    (empty : ∀ batchId ∈ batchesOf s owner, batchId ∉ kept → creditsAt s batchId = 0) : Listing (relist s owner kept) where
  listed := by
    intro who batchId mem
    rw [batchesOf_relist] at mem
    split at mem
    · next same => exact listing.listed who batchId (same ▸ sublist.subset mem)
    · exact listing.listed who batchId mem
  distinct := by
    intro who
    rw [batchesOf_relist]
    split
    · exact (listing.distinct owner).sublist sublist
    · exact listing.distinct who
  fresh := listing.fresh
  unlisted := by
    intro who batchId own missing
    rw [batchesOf_relist] at missing
    split at missing
    next same =>
      subst same
      by_cases before : batchId ∈ batchesOf s who
      · exact empty batchId before missing
      · exact listing.unlisted who batchId own before
    · exact listing.unlisted who batchId own missing

theorem next_unowned (listing : Listing s) : s.batches.lookup s.nextBatchId = none := by
  cases found : s.batches.lookup s.nextBatchId with
  | none => rfl
  | some batch =>
    have before := listing.fresh batch.owner s.nextBatchId (by rw [ownerAt,found,Option.map_some])
    omega

theorem listed_before (listing : Listing s) (mem : batchId ∈ batchesOf s who) : batchId < s.nextBatchId :=
  listing.fresh who batchId (listing.listed who batchId mem)

theorem Created.listing (created : Created s t batch) (listing : Listing s) (ids : s.nextBatchId < maxOf 64) : Listing t := by
  have owners := fun key => ownerAt_insert key created.batches
  have credits := fun key => creditsAt_insert key created.batches
  have lists := fun who => batchesOf_insert s batch.owner who _ created.userBatches
  have advanced : t.nextBatchId = s.nextBatchId + 1 := by
    rw [created.nextBatchId]
    exact saturatingAdd_exact (by unfold maxOf at ids; omega)
  refine ⟨?_,?_,?_,?_⟩
  · intro who key mem
    have earlier : ∀ owner, key ∈ batchesOf s owner → ownerAt t key = some owner := by
      intro owner before
      have older := listed_before listing before
      rw [owners,if_neg (by omega)]
      exact listing.listed owner key before
    rw [lists] at mem
    split at mem
    next same =>
      subst same
      rcases mem_append.mp mem with before | new
      · exact earlier batch.owner before
      · rw [owners,if_pos (mem_singleton.mp new)]
    · exact earlier who mem
  · intro who
    rw [lists]
    split
    · refine (listing.distinct batch.owner).append (nodup_singleton _) ?_
      intro key before new
      have older := listed_before listing before
      rw [mem_singleton.mp new] at older
      omega
    · exact listing.distinct who
  · intro who key own
    rw [owners] at own
    split at own
    · omega
    · have before := listing.fresh who key own
      omega
  · intro who key own missing
    rw [owners] at own
    rw [lists] at missing
    rw [credits]
    split at own
    next new =>
      cases own
      rw [if_pos rfl,new] at missing
      exact absurd (mem_append_right _ (mem_singleton_self _)) missing
    next old =>
      rw [if_neg old]
      refine listing.unlisted who key own ?_
      intro before
      split at missing
      · next same => exact missing (mem_append_left _ (same ▸ before))
      · exact missing before

theorem ToppedUp.listing (topped : ToppedUp s t who batchId batch credits alpha) (listing : Listing s) : Listing t := by
  have own : ownerAt s batchId = some who := by
    rw [ownerAt,topped.found,Option.map_some,topped.own]
  have owners : ∀ key, ownerAt t key = ownerAt s key := by
    intro key
    rw [ownerAt_insert key topped.batches]
    split
    next same =>
      rw [same,own]
      exact congrArg some topped.own
    · rfl
  -- The batch is on its owner's list afterwards, whether it was there or is filed again.
  have lists : ∀ account, batchesOf t account = batchesOf s account ∧ (account = who → batchId ∈ batchesOf s account) ∨
      account = who ∧ batchId ∉ batchesOf s who ∧ batchesOf t account = batchesOf s who ++ [batchId] := by
    intro account
    rcases topped.userBatches with ⟨mem,same⟩ | ⟨missing,filed⟩
    · refine .inl ⟨by rw [batchesOf,same,batchesOf],?_⟩
      intro same
      exact same ▸ mem
    · rw [batchesOf_insert s who account _ filed]
      split
      · next same => exact .inr ⟨same,missing,rfl⟩
      · next different => exact .inl ⟨rfl,fun same => absurd same different⟩
  refine ⟨?_,?_,?_,?_⟩
  · intro account key mem
    rw [owners]
    rcases lists account with ⟨same,_⟩ | ⟨rfl,_,filed⟩
    · exact listing.listed account key (same ▸ mem)
    · rw [filed] at mem
      rcases mem_append.mp mem with before | new
      · exact listing.listed account key before
      · rw [mem_singleton.mp new,own]
  · intro account
    rcases lists account with ⟨same,_⟩ | ⟨rfl,missing,filed⟩
    · rw [same]
      exact listing.distinct account
    · rw [filed]
      refine (listing.distinct account).append (nodup_singleton _) ?_
      intro key before new
      exact missing (mem_singleton.mp new ▸ before)
  · intro account key found
    rw [owners] at found
    exact topped.nextBatchId ▸ listing.fresh account key found
  · intro account key found missing
    rw [owners] at found
    have different : key ≠ batchId := by
      intro same
      rw [same,own] at found
      cases found
      rcases lists who with ⟨kept,mem⟩ | ⟨_,_,filed⟩
      · rw [kept,same] at missing
        exact missing (mem rfl)
      · rw [filed,same] at missing
        exact missing (mem_append_right _ (mem_singleton_self _))
    rw [creditsAt_insert key topped.batches,if_neg different]
    refine listing.unlisted account key found ?_
    intro before
    rcases lists account with ⟨kept,_⟩ | ⟨rfl,_,filed⟩
    · exact missing (kept ▸ before)
    · rw [filed] at missing
      exact missing (mem_append_left _ before)

theorem batchesOf_removeBatch (s : State A B) (batchId : Nat) (owner who : A) :
    batchesOf (removeBatch s batchId owner) who =
      if who = owner then (batchesOf s owner).filter (· ≠ batchId) else batchesOf s who := by
  unfold batchesOf removeBatch
  cases found : s.userBatches.lookup owner with
  | none =>
    dsimp only [Option.elim_none]
    split
    next same =>
      rw [same,found]
      rfl
    · rfl
  | some =>
    dsimp only [Option.elim_some]
    rw [lookup_insert_if]
    split <;> rfl

theorem removeBatch_listing (listing : Listing s) (found : s.batches.lookup batchId = some batch) :
    Listing (removeBatch s batchId batch.owner) := by
  have own : ownerAt s batchId = some batch.owner := by rw [ownerAt,found,Option.map_some]
  have lists := fun who => batchesOf_removeBatch s batchId batch.owner who
  have owners : ∀ key, key ≠ batchId → ownerAt (removeBatch s batchId batch.owner) key = ownerAt s key := by
    intro key different
    exact congrArg (Option.map Batch.owner) (AList.lookup_erase_ne different)
  have gone : ∀ key who, ownerAt (removeBatch s batchId batch.owner) key = some who → key ≠ batchId := by
    intro key who found same
    rw [same] at found
    unfold ownerAt removeBatch at found
    rw [AList.lookup_erase] at found
    cases found
  refine ⟨?_,?_,?_,?_⟩
  · intro who key mem
    have kept : key ∈ batchesOf s who ∧ key ≠ batchId := by
      rw [lists] at mem
      split at mem
      next same =>
        obtain ⟨before,different⟩ := mem_filter.mp mem
        exact ⟨same ▸ before,of_decide_eq_true different⟩
      next different =>
        refine ⟨mem,fun same => different ?_⟩
        have owner := listing.listed who key mem
        rw [same,own] at owner
        exact (Option.some.inj owner).symm
    rw [owners key kept.2]
    exact listing.listed who key kept.1
  · intro who
    rw [lists]
    split
    · exact (listing.distinct batch.owner).filter _
    · exact listing.distinct who
  · intro who key found
    rw [owners key (gone key who found)] at found
    exact listing.fresh who key found
  · intro who key found missing
    have different := gone key who found
    rw [owners key different] at found
    have same : creditsAt (removeBatch s batchId batch.owner) key = creditsAt s key :=
      congrArg (fun row : Option (Batch A) => row.elim 0 Batch.remainingCredits) (AList.lookup_erase_ne different)
    rw [same]
    refine listing.unlisted who key found ?_
    intro before
    rw [lists] at missing
    split at missing
    · next same => exact missing (mem_filter.mpr ⟨same ▸ before,decide_eq_true different⟩)
    · exact missing before

theorem releaseMatured_listing (now : Nat) (entry : Nat × Batch A) (listing : Listing s)
    (found : s.batches.lookup entry.1 = some entry.2) : Listing (releaseMatured now s entry) := by
  rcases releaseMatured_ok now s entry with same | ⟨_,same,listed⟩
  · rw [same]
    exact listing
  · have lowered : Lowered s {shift s entry.1 entry.2.owner entry.2.pendingAlpha with
        batches:=s.batches.insert entry.1 {entry.2 with isFrozen:=false,pendingAlpha:=0}} :=
      rewrite_lowered found rfl rfl le_rfl rfl rfl
    rw [same]
    rcases listed with rfl | ⟨spent,rfl⟩
    · exact lowered.listing listing
    · -- The batch left nothing behind, so its id may go from the list.
      refine relist_listing (lowered.listing listing) entry.2.owner _ filter_sublist ?_
      intro batchId mem dropped
      have same : batchId = entry.1 := by
        by_contra different
        exact dropped (mem_filter.mpr ⟨mem,decide_eq_true different⟩)
      rw [same,creditsAt]
      rw [AList.lookup_insert]
      exact spent.1

theorem pruneList_listing (who : A) (listing : Listing s) : Listing (pruneList s who) := by
  simp only [pruneList]
  split
  · refine relist_listing listing who _ filter_sublist ?_
    intro batchId mem dropped
    rw [mem_filter,not_and] at dropped
    have spent := dropped mem
    unfold creditsAt
    cases found : s.batches.lookup batchId with
    | none => rfl
    | some batch =>
      rw [found,Option.any_some] at spent
      have kept : batchIsSpent batch := by
        by_contra unspent
        exact spent (decide_eq_true unspent)
      exact kept.1
  · exact listing

open Function

variable {w next : Walk A B} {ids : List Nat} {after : Batch A}

def InStep (s t : State A B) : Prop :=
  ∀ who, t.freeCredits who + ownedCredits s who = s.freeCredits who + ownedCredits t who

theorem InStep.refl (s : State A B) : InStep s s := fun _ => rfl

theorem InStep.trans (one : InStep s t) (two : InStep t u) : InStep s u := by
  intro who
  have first := one who
  have second := two who
  omega

theorem SameBatches.inStep (same : SameBatches s t) : InStep s t := by
  intro who
  rw [same.freeCredits,ownedCredits,ownedCredits,same.batches]

theorem owned_rewrite (found : s.batches.lookup batchId = some batch) (rows : t.batches = s.batches.insert batchId after)
    (owner : after.owner = batch.owner) (who : A) :
    ownedCredits t who + (if batch.owner = who then batch.remainingCredits else 0) =
      ownedCredits s who + (if batch.owner = who then after.remainingCredits else 0) := by
  have moved := total_replace (v := after)
    (fun _ (row : Batch A) => if row.owner = who then row.remainingCredits else 0) s.batches found
  rw [owner] at moved
  rw [ownedCredits,rows]
  exact moved

theorem take_inStep (taken : Nat) (found : s.batches.lookup batchId = some batch) (rows : t.batches = s.batches.insert batchId after)
    (owner : after.owner = batch.owner) (credits : after.remainingCredits = batch.remainingCredits - taken)
    (free : t.freeCredits = update s.freeCredits batch.owner (s.freeCredits batch.owner - taken))
    (within : taken ≤ batch.remainingCredits) (enough : taken ≤ s.freeCredits batch.owner) : InStep s t := by
  intro who
  have moved := owned_rewrite found rows owner who
  rw [free,update_apply]
  by_cases own : who = batch.owner
  · subst own
    simp only [if_true] at moved ⊢
    omega
  · rw [if_neg own]
    rw [if_neg (Ne.symm own),if_neg (Ne.symm own)] at moved
    omega

-- What a walk over some ids of the sender's list leaves: credits moved from the rows,
-- and an id is dropped only when its row is empty. If the walk ran short, every row is.
structure Walked (sender : A) (ids : List Nat) (w next : Walk A B) : Prop where
  lowered : Lowered w.state next.state
  inStep : InStep w.state next.state
  paid : next.state.freeCredits sender + w.remaining = w.state.freeCredits sender + next.remaining
  others : ∀ who, who ≠ sender → next.state.freeCredits who = w.state.freeCredits who
  shrinks : next.remaining ≤ w.remaining
  reached : next.remaining = 0 ∨ ∀ batchId ∈ ids, creditsAt next.state batchId = 0
  kept : ∃ rest, next.kept = w.kept ++ rest ∧ rest.Sublist ids ∧
    ∀ batchId ∈ ids, batchId ∉ rest → creditsAt next.state batchId = 0

theorem Walked.cons (first : Walked sender [batchId] w middle) (later : Walked sender ids middle next) :
    Walked sender (batchId :: ids) w next where
  lowered := first.lowered.trans later.lowered
  inStep := first.inStep.trans later.inStep
  paid := by
    have one := first.paid
    have two := later.paid
    omega
  others who apart := (later.others who apart).trans (first.others who apart)
  shrinks := later.shrinks.trans first.shrinks
  reached := by
    rcases later.reached with done | empty
    · exact .inl done
    rcases first.reached with done | emptied
    · exact .inl (Nat.le_zero.mp (done ▸ later.shrinks))
    refine .inr ?_
    intro key mem
    rcases List.mem_cons.mp mem with same | mem
    · have zero := emptied key (List.mem_singleton.mpr same)
      exact Nat.le_zero.mp (zero ▸ later.lowered.credits key)
    · exact empty key mem
  kept := by
    obtain ⟨head,firstKept,single,dropped⟩ := first.kept
    obtain ⟨rest,laterKept,sublist,droppedLater⟩ := later.kept
    refine ⟨head ++ rest,?_,single.append sublist,?_⟩
    · rw [laterKept,firstKept,List.append_assoc]
    · intro key mem missing
      rw [List.mem_append,not_or] at missing
      rcases List.mem_cons.mp mem with same | mem
      · have zero := dropped key (List.mem_singleton.mpr same) missing.1
        exact Nat.le_zero.mp (zero ▸ later.lowered.credits key)
      · exact droppedLater key mem missing.2

theorem visited_walked (visited : Visited w sender batchId next) : Walked sender [batchId] w next := by
  cases visited with
  | passed dropped empty spent =>
    have zero : ∀ key ∈ [batchId], (∀ batch, w.state.batches.lookup batchId = some batch → batch.remainingCredits = 0) →
        creditsAt w.state key = 0 := by
      intro key mem none
      rw [List.mem_singleton.mp mem,creditsAt]
      cases found : w.state.batches.lookup batchId with
      | none => rfl
      | some batch => exact none batch found
    refine ⟨?_,?_,?_,?_,?_,?_,?_⟩
    · rw [file_state]
      exact Lowered.refl _
    · rw [file_state]
      exact InStep.refl _
    · rw [file_state,file_remaining]
    · intro who _
      rw [file_state]
    · rw [file_remaining]
    · rw [file_state,file_remaining]
      rcases empty with done | none
      · exact .inl done
      · exact .inr fun key mem => zero key mem none
    · refine ⟨_,file_kept w batchId dropped,?_,?_⟩
      · split
        · exact List.nil_sublist _
        · exact List.Sublist.refl _
      · intro key mem missing
        rw [file_state]
        split at missing
        · next gone => exact zero key mem fun batch found => (spent gone batch found).1
        · exact absurd mem missing
  | took batch after released found own enough taken =>
    subst own
    have within : min w.remaining batch.remainingCredits ≤ batch.remainingCredits := Nat.min_le_right _ _
    have credits := taken.credits
    have emptied : ∀ key ∈ [batchId], after.remainingCredits = 0 →
        creditsAt {shift (decreaseUserCredits w.state batch.owner (min w.remaining batch.remainingCredits)) batchId batch.owner
          released with batches:=w.state.batches.insert batchId after} key = 0 := by
      intro key mem zero
      rw [List.mem_singleton.mp mem,creditsAt,AList.lookup_insert]
      exact zero
    refine ⟨?_,?_,?_,?_,?_,?_,?_⟩
    · rw [file_state]
      exact rewrite_lowered found rfl taken.owner (by omega) rfl rfl
    · rw [file_state]
      exact take_inStep _ found rfl taken.owner credits rfl within enough
    · rw [file_state,file_remaining]
      have left : (decreaseUserCredits w.state batch.owner (min w.remaining batch.remainingCredits)).freeCredits batch.owner =
        w.state.freeCredits batch.owner - min w.remaining batch.remainingCredits := update_self ..
      dsimp only [shift]
      omega
    · intro who apart
      rw [file_state]
      exact update_of_ne apart ..
    · rw [file_remaining]
      exact Nat.sub_le _ _
    · rw [file_state,file_remaining]
      by_cases covers : w.remaining ≤ batch.remainingCredits
      · dsimp only
        omega
      · exact .inr fun key mem => emptied key mem (by omega)
    · refine ⟨_,file_kept _ batchId (batchIsSpent after),?_,?_⟩
      · split
        · exact List.nil_sublist _
        · exact List.Sublist.refl _
      · intro key mem missing
        rw [file_state]
        split at missing
        · next spent => exact emptied key mem spent.1
        · exact absurd mem missing

theorem walk_walked (ids : List Nat) (walk : ids.foldlM (visitBatch sender) w = .ok next) : Walked sender ids w next := by
  induction ids generalizing w with
  | nil =>
    cases walk
    refine ⟨Lowered.refl _,InStep.refl _,rfl,fun _ _ => rfl,le_rfl,.inr ?_,[],(List.append_nil _).symm,List.Sublist.refl _,?_⟩
    · intro batchId mem
      cases mem
    · intro batchId mem
      cases mem
  | cons _ _ ih =>
    simp only [List.foldlM_cons,bind_ok] at walk
    obtain ⟨_,first,rest⟩ := walk
    exact (visited_walked (visitBatch_ok first)).cons (ih rest)

theorem visit_succeeds (own : ownerAt w.state batchId = some sender) (funded : w.remaining ≤ w.state.freeCredits sender) :
    ∃ next, visitBatch sender w batchId = .ok next := by
  obtain ⟨batch,found,rfl⟩ := lookup_owner own
  have enough : min w.remaining batch.remainingCredits ≤ w.state.freeCredits batch.owner := (Nat.min_le_left _ _).trans funded
  unfold visitBatch
  split
  · exact ⟨_,rfl⟩
  · simp only [found,ensure,enough,if_true,bind,Except.bind]
    split <;> exact ⟨_,rfl⟩

-- A walk never asks for more than is free, so over a list of the sender's own rows it
-- runs to the end.
theorem walk_succeeds (ids : List Nat) (own : ∀ batchId ∈ ids, ownerAt w.state batchId = some sender)
    (funded : w.remaining ≤ w.state.freeCredits sender) : ∃ next, ids.foldlM (visitBatch sender) w = .ok next := by
  induction ids generalizing w with
  | nil => exact ⟨w,rfl⟩
  | cons batchId _ ih =>
    obtain ⟨middle,first⟩ := visit_succeeds (own batchId (List.mem_cons_self ..)) funded
    have walked := visited_walked (visitBatch_ok first)
    have paid := walked.paid
    obtain ⟨next,rest⟩ := ih (w := middle) (by
      intro key mem
      rw [walked.lowered.owners]
      exact own key (List.mem_cons_of_mem _ mem)) (by omega)
    refine ⟨next,?_⟩
    rw [List.foldlM_cons,first]
    exact rest

theorem walked_listing (listing : Listing s) (walked : Walked sender (batchesOf s sender) ⟨s,credits,[],false⟩ next) :
    Listing (relist next.state sender next.kept) := by
  obtain ⟨rest,kept,sublist,dropped⟩ := walked.kept
  have same := walked.lowered.lists sender
  rw [kept]
  refine relist_listing (walked.lowered.listing listing) sender rest ?_ ?_
  · rw [same]
    exact sublist
  · rw [same]
    exact dropped

-- Whatever the lists look like, an accepted debit takes exactly its credits from the
-- sender's balance and nothing from the others.
structure Debited (s t : State A B) (sender : A) (credits : Nat) : Prop where
  listing : Listing s → Listing t
  inStep : InStep s t
  paid : t.freeCredits sender + credits = s.freeCredits sender
  others : ∀ who, who ≠ sender → t.freeCredits who = s.freeCredits who

theorem consumeCredits_ok (ran : consumeCredits s sender credits = .ok t) : Debited s t sender credits := by
  simp only [consumeCredits,bind_ok] at ran
  obtain ⟨⟨state,_⟩,walk,finish⟩ := ran
  simp only [ensure_ok,exists_unit] at finish
  obtain ⟨rfl,same⟩ := finish
  cases same
  unfold walkBatches at walk
  cases found : s.userBatches.lookup sender with
  | none =>
    rw [found] at walk
    cases walk
    exact ⟨fun listing => {listing with},InStep.refl s,rfl,fun _ _ => rfl⟩
  | some ids =>
    simp only [found,bind_ok] at walk
    obtain ⟨_,visits,ends⟩ := walk
    have walked := walk_walked ids visits
    have paid := walked.paid
    injection ends with ends
    injection ends with state done
    rw [done] at paid
    have listed : batchesOf s sender = ids := by rw [batchesOf,found,Option.getD_some]
    rw [← listed] at walked
    rw [← state]
    split
    · refine ⟨?_,walked.inStep,paid,walked.others⟩
      intro listing
      have relisted := walked_listing listing walked
      exact {relisted with}
    · refine ⟨?_,walked.inStep,paid,walked.others⟩
      intro listing
      have lowered := walked.lowered.listing listing
      exact {lowered with}

theorem short_walk_empties (who : A) (listing : Listing s) (empty : ∀ batchId ∈ batchesOf s who, creditsAt s batchId = 0) :
    ownedCredits s who = 0 := by
  rw [← listedCredits_eq listing,listedCredits]
  refine List.sum_eq_zero ?_
  intro credits mem
  obtain ⟨batchId,listed,rfl⟩ := List.mem_map.mp mem
  exact empty batchId listed

theorem consumeCredits_succeeds (listing : Listing s) (covered : s.freeCredits who ≤ ownedCredits s who)
    (funded : credits ≤ s.freeCredits who) : ∃ t, consumeCredits s who credits = .ok t := by
  cases found : s.userBatches.lookup who with
  | none =>
    have nothing := short_walk_empties who listing (by
      intro batchId mem
      rw [batchesOf,found] at mem
      cases mem)
    have zero : credits = 0 := by omega
    subst zero
    refine ⟨depositEvent s (.creditsConsumed who 0),?_⟩
    simp only [consumeCredits,walkBatches,found,ensure,if_true,bind,Except.bind]
  | some ids =>
    have listed : batchesOf s who = ids := by rw [batchesOf,found,Option.getD_some]
    obtain ⟨next,walk⟩ := walk_succeeds (w := ⟨s,credits,[],false⟩) ids (by
      intro batchId mem
      exact listing.listed who batchId (listed ▸ mem)) funded
    have walked := walk_walked ids walk
    have done : next.remaining = 0 := by
      rcases walked.reached with done | empty
      · exact done
      · -- All owned credits were taken, which are at least the free ones.
        have nothing := short_walk_empties who (walked.lowered.listing listing) (by
          rw [walked.lowered.lists,listed]
          exact empty)
        have moved := walked.inStep who
        have paid := walked.paid
        dsimp only at moved paid
        omega
    simp only [consumeCredits,walkBatches,found,walk,done,ensure,if_true,bind,Except.bind]
    exact ⟨_,rfl⟩

def burntFrom (who : A) : Call A B → Nat
  | .burn _ account amount => if account = who then amount else 0
  | _ => 0

def MintsWhole (s : State A B) (who : A) : Call A B → Prop
  | .deposit _ account creditAmount _ _ _ => account = who → s.freeCredits who + creditAmount < 2 ^ 128
  | .refundCreditsWithBatch account amount => account = who → s.freeCredits who + amount < 2 ^ 128
  | _ => True

-- An accepted call moves an account's credits and those of its batches together, but for
-- what it burns: they fall behind only in a saturated mint, and the batches only where a
-- row is overwritten or saturates.
structure Shifts (s t : State A B) (call : Call A B) (who : A) : Prop where
  covered : Listing s → s.freeCredits who ≤ ownedCredits s who → t.freeCredits who ≤ ownedCredits t who
  least : MintsWhole s who call →
    ownedCredits t who + s.freeCredits who ≤ ownedCredits s who + t.freeCredits who + burntFrom who call
  most : Listing s → ownedCredits t who < maxOf 128 →
    t.freeCredits who + burntFrom who call + ownedCredits s who ≤ s.freeCredits who + ownedCredits t who

theorem InStep.shifts (inStep : InStep s t) (spared : burntFrom who call = 0) : Shifts s t call who := by
  have moved := inStep who
  exact ⟨fun _ _ => by omega,fun _ => by omega,fun _ _ => by omega⟩

theorem Created.shifts (created : Created s t batch) (spared : burntFrom who call = 0)
    (whole : MintsWhole s who call → batch.owner = who → s.freeCredits who + batch.remainingCredits < 2 ^ 128) : Shifts s t call who := by
  have filed : Listing s → ownedCredits t who = ownedCredits s who + if batch.owner = who then batch.remainingCredits else 0 := by
    intro listing
    rw [ownedCredits,created.batches]
    exact total_create _ s.batches (next_unowned listing)
  have owned : ownedCredits t who ≤ ownedCredits s who + if batch.owner = who then batch.remainingCredits else 0 := by
    rw [ownedCredits,created.batches]
    exact total_insert_le _ s.batches
  by_cases own : batch.owner = who
  · subst own
    rw [if_pos rfl] at filed owned
    have free : t.freeCredits batch.owner = saturatingAdd 128 (s.freeCredits batch.owner) batch.remainingCredits := by
      rw [created.freeCredits,update_self]
    have most : saturatingAdd 128 (s.freeCredits batch.owner) batch.remainingCredits ≤ _ := saturatingAdd_le
    refine ⟨?_,?_,?_⟩
    · intro listing _
      have same := filed listing
      omega
    · intro mints
      rw [saturatingAdd_exact (whole mints rfl)] at free
      omega
    · intro listing _
      have same := filed listing
      omega
  · rw [if_neg own] at filed owned
    have free : t.freeCredits who = s.freeCredits who := by rw [created.freeCredits,update_of_ne (Ne.symm own)]
    refine ⟨?_,fun _ => by omega,?_⟩ <;>
    · intro listing _
      have same := filed listing
      omega

theorem ToppedUp.shifts (topped : ToppedUp s t account batchId batch credits alpha) (spared : burntFrom who call = 0)
    (fits : s.freeCredits account + credits < 2 ^ 128) : Shifts s t call who := by
  have moved := owned_rewrite topped.found topped.batches rfl who
  have free := congrFun topped.freeCredits who
  rw [saturatingAdd_exact fits,update_apply] at free
  rw [topped.own] at moved
  by_cases own : who = account
  · subst own
    rw [if_pos rfl,if_pos rfl] at moved
    rw [if_pos rfl] at free
    have credited : (topUp batch credits alpha).remainingCredits = min (batch.remainingCredits + credits) (2 ^ 128 - 1) := by
      simp only [topUp,saturatingAdd,maxOf]
    have held := StorageMap.le_total (fun _ (row : Batch A) => if row.owner = who then row.remainingCredits else 0)
      s.batches topped.found
    rw [if_pos topped.own] at held
    change batch.remainingCredits ≤ ownedCredits s who at held
    refine ⟨fun _ _ => by omega,fun _ => by omega,?_⟩
    intro _ small
    rw [maxOf] at small
    omega
  · rw [if_neg (Ne.symm own),if_neg (Ne.symm own)] at moved
    rw [if_neg own] at free
    exact ⟨fun _ _ => by omega,fun _ => by omega,fun _ _ => by omega⟩

theorem handleChargeback_inStep (ran : handleChargeback cfg s batchId = .ok t) : InStep s t := by
  rcases handleChargeback_ok ran with ⟨_,same⟩ | ⟨batch,_,_,_,_,_,found,_,_,_,_,_,same⟩
  · rw [same]
    exact InStep.refl s
  · intro who
    have moved := total_erase (fun _ (row : Batch A) => if row.owner = who then row.remainingCredits else 0)
      s.batches found
    rw [same]
    simp only [ownedCredits,update_apply]
    rw [moved]
    by_cases own : who = batch.owner
    · subst own
      simp only [if_true]
      omega
    · rw [if_neg own,if_neg (Ne.symm own)]
      omega

theorem handleChargeback_listing (ran : handleChargeback cfg s batchId = .ok t) (listing : Listing s) : Listing t := by
  rcases handleChargeback_ok ran with ⟨_,same⟩ | ⟨_,_,_,_,_,_,found,_,_,_,_,_,same⟩
  · rw [same]
    exact listing
  · have removed := removeBatch_listing listing found
    rw [same]
    exact {removed with}

theorem releaseMatured_inStep (now : Nat) (entry : Nat × Batch A) (found : s.batches.lookup entry.1 = some entry.2) :
    InStep s (releaseMatured now s entry) := by
  rcases releaseMatured_ok now s entry with same | ⟨_,same,_⟩
  · rw [same]
    exact InStep.refl s
  · rw [same]
    refine take_inStep 0 found rfl rfl rfl ?_ (Nat.zero_le _) (Nat.zero_le _)
    exact (update_eq_self ..).symm

def MintsExactly (s : State A B) : Call A B → Prop
  | .burn .. => False
  | .deposit _ account creditAmount _ _ _ => s.freeCredits account + creditAmount < 2 ^ 128
  | .refundCreditsWithBatch who amount => s.freeCredits who + amount < 2 ^ 128
  | _ => True

def Unburnt (cfg : Config A B) (s : State A B) (call : Call A B) : Prop :=
  (dispatch cfg s call).isOk = true → MintsExactly s call

theorem Unburnt.mints (unburnt : Unburnt cfg s call) (ran : dispatch cfg s call = .ok t) : MintsExactly s call := by
  refine unburnt ?_
  rw [ran]
  rfl

theorem MintsExactly.whole (exactly : MintsExactly s call) (who : A) : MintsWhole s who call ∧ burntFrom who call = 0 := by
  cases call with
  | burn => exact exactly.elim
  | deposit => exact ⟨fun own => own ▸ exactly,rfl⟩
  | refundCreditsWithBatch => exact ⟨fun own => own ▸ exactly,rfl⟩
  | _ => exact ⟨trivial,rfl⟩

theorem dispatch_shifts (call : Call A B) (ran : dispatch cfg s call = .ok t) (who : A) : Shifts s t call who := by
  by_cases calm : call.calm = true
  · have inStep : InStep s t := by
      refine calm_keeps (InStep s) (fun _ _ same moved => moved.trans same.inStep) ?_ ?_ (.refl s) calm ran
      · exact fun now _ entry moved found => moved.trans (releaseMatured_inStep now entry found)
      · intro u who moved
        refine moved.trans ?_
        simp only [pruneList]
        split <;> exact InStep.refl u
    refine inStep.shifts ?_
    cases call with
    | burn => cases calm
    | _ => rfl
  cases call with
  | burn origin account amount =>
    simp only [dispatch,burn,passes] at ran
    obtain ⟨_,_,_,enough,same⟩ := ran
    cases same
    have free : (decreaseUserCredits s account amount).freeCredits who =
        if who = account then s.freeCredits account - amount else s.freeCredits who := update_apply ..
    have owned : ownedCredits (decreaseUserCredits s account amount) who = ownedCredits s who := rfl
    by_cases own : who = account
    · subst own
      rw [if_pos rfl] at free
      have burnt : burntFrom who (.burn origin who amount : Call A B) = amount := if_pos rfl
      exact ⟨fun _ _ => by omega,fun _ => by omega,fun _ _ => by omega⟩
    · rw [if_neg own] at free
      have spared : burntFrom who (.burn origin account amount : Call A B) = 0 := if_neg (Ne.symm own)
      exact ⟨fun _ _ => by omega,fun _ => by omega,fun _ _ => by omega⟩
  | deposit =>
    obtain ⟨_,⟨time,created⟩,_⟩ := deposit_ok ran
    exact created.shifts rfl fun mints => mints
  | buyCredits =>
    obtain ⟨_,_,_,fits,_,⟨⟨time,created⟩,_⟩ | ⟨_,_,topped⟩⟩ := buyCredits_ok ran
    · exact created.shifts rfl fun _ own => own ▸ fits
    · exact topped.shifts rfl fits
  | consumeCredits => exact (consumeCredits_ok ran).inStep.shifts rfl
  | refundCreditsWithBatch =>
    rcases refundCreditsWithBatch_ok cfg ran with same | ⟨_,⟨_,created⟩,_⟩
    · rw [same]
      exact (InStep.refl s).shifts rfl
    · exact created.shifts rfl fun mints => mints
  | chargeback =>
    simp only [dispatch,chargeback,passes] at ran
    exact (handleChargeback_inStep ran.2).shifts rfl
  | _ => exact absurd rfl calm

theorem dispatch_listing (call : Call A B) (ran : dispatch cfg s call = .ok t) (listing : Listing s)
    (ids : IdsLeft s call) : Listing t := by
  by_cases calm : call.calm = true
  · exact calm_keeps Listing (fun _ _ same => same.lowered.listing) (fun now _ entry fine found => releaseMatured_listing now entry fine found)
      (fun _ who fine => pruneList_listing who fine) listing calm ran
  cases call with
  | burn =>
    simp only [dispatch,burn,passes] at ran
    obtain ⟨_,_,_,_,same⟩ := ran
    cases same
    exact {listing with}
  | deposit =>
    obtain ⟨_,⟨_,created⟩,_⟩ := deposit_ok ran
    exact created.listing listing ids
  | buyCredits =>
    obtain ⟨_,_,_,_,_,⟨⟨_,created⟩,_⟩ | ⟨_,_,topped⟩⟩ := buyCredits_ok ran
    · exact created.listing listing ids
    · exact topped.listing listing
  | consumeCredits => exact (consumeCredits_ok ran).listing listing
  | refundCreditsWithBatch =>
    rcases refundCreditsWithBatch_ok cfg ran with same | ⟨_,⟨_,created⟩,_⟩
    · rw [same]
      exact listing
    · exact created.listing listing ids
  | chargeback =>
    simp only [dispatch,chargeback,passes] at ran
    exact handleChargeback_listing ran.2 listing
  | _ => exact absurd rfl calm

structure Covered (s : State A B) : Prop extends Listing s where
  covered : ∀ who, s.freeCredits who ≤ ownedCredits s who

structure Matched (s : State A B) : Prop extends Listing s where
  matched : ∀ who, s.freeCredits who = ownedCredits s who

theorem step_covered (s : State A B) (call : Call A B) (fine : Covered s) (ids : IdsLeft s call) : Covered (step cfg s call) :=
  commit_inv Covered fine fun _ ran =>
    ⟨dispatch_listing call ran fine.toListing ids,fun who => (dispatch_shifts call ran who).covered fine.toListing (fine.covered who)⟩

theorem step_matched (s : State A B) (call : Call A B) (fine : Matched s)
    (within : IdsLeft s call ∧ Unburnt cfg s call) : Matched (step cfg s call) := by
  refine commit_inv Matched fine ?_
  intro t ran
  refine ⟨dispatch_listing call ran fine.toListing within.1,?_⟩
  intro who
  have shifts := dispatch_shifts call ran who
  have before := fine.matched who
  obtain ⟨whole,spared⟩ := (within.2.mints ran).whole who
  have least := shifts.least whole
  have most := shifts.covered fine.toListing before.le
  omega

theorem InStep.coveredAfter (inStep : InStep s t) (listing : Listing t) (fine : Covered s) : Covered t := by
  refine ⟨listing,?_⟩
  intro who
  have before := fine.covered who
  have moved := inStep who
  omega

theorem SameBatches.covered (same : SameBatches s t) (fine : Covered s) : Covered t :=
  same.inStep.coveredAfter (same.lowered.listing fine.toListing) fine

theorem consumeCredits_covered (ran : consumeCredits s sender credits = .ok t) (fine : Covered s) : Covered t :=
  have debited := consumeCredits_ok ran
  debited.inStep.coveredAfter (debited.listing fine.toListing) fine

theorem consumeCredits_exactly (fine : Covered s) (who : A) (credits : Nat) :
    ((∃ t, consumeCredits s who credits = .ok t) ↔ credits ≤ s.freeCredits who) ∧
      ∀ t, consumeCredits s who credits = .ok t → t.freeCredits who + credits = s.freeCredits who ∧
        listedCredits t who + credits = listedCredits s who := by
  refine ⟨⟨?_,?_⟩,?_⟩
  · rintro ⟨t,ran⟩
    have paid := (consumeCredits_ok ran).paid
    omega
  · exact consumeCredits_succeeds fine.toListing (fine.covered who)
  · intro t ran
    have debited := consumeCredits_ok ran
    have paid := debited.paid
    have moved := debited.inStep who
    rw [listedCredits_eq (debited.listing fine.toListing),listedCredits_eq fine.toListing]
    exact ⟨paid,by omega⟩

theorem credits_spendable (cfg : Config A B) (bank : Bank.State A B)
    (calls : List (Call A B)) (ids : Throughout (step cfg) IdsLeft (genesis bank) calls) (who : A) :
    let s := run (step cfg) (genesis bank) calls
    s.freeCredits who ≤ listedCredits s who ∧
      (Throughout (step cfg) (Unburnt cfg) (genesis bank) calls → s.freeCredits who = listedCredits s who) ∧
      ∀ credits, ((∃ t, consumeCredits s who credits = .ok t) ↔ credits ≤ s.freeCredits who) ∧
        ∀ t, consumeCredits s who credits = .ok t → t.freeCredits who + credits = s.freeCredits who ∧
          listedCredits t who + credits = listedCredits s who := by
  intro s
  have fine : Covered s := run_invariant Covered step_covered ⟨genesis_listing bank,fun _ => Nat.le_refl 0⟩ ids
  refine ⟨?_,?_,consumeCredits_exactly fine who⟩
  · rw [listedCredits_eq fine.toListing]
    exact fine.covered who
  · intro unburnt
    have matched : Matched s := run_invariant Matched step_matched ⟨genesis_listing bank,fun _ => rfl⟩ (throughout_and ids unburnt)
    rw [listedCredits_eq fine.toListing]
    exact matched.matched who

instance (s : State A B) : DecidablePred (MintsExactly s) := fun call => by
  induction call using Call.casesOn <;> dsimp only [MintsExactly] <;> infer_instance

instance (cfg : Config A B) (s : State A B) : DecidablePred (Unburnt cfg s) := fun _ =>
  inferInstanceAs (Decidable (_ → _))

theorem credits_spendable_traded :
    let s := run (step plainConfig) (genesis Bank.opened) traded
    s.freeCredits 1 = 85 ∧ listedCredits s 1 = 85 ∧ (∃ t, consumeCredits s 1 85 = .ok t) ∧ ¬ ∃ t, consumeCredits s 1 86 = .ok t := by
  intro s
  obtain ⟨_,matched,consumed⟩ := credits_spendable plainConfig Bank.opened traded (by decide +kernel) 1
  have free : s.freeCredits 1 = 85 := by decide +kernel
  refine ⟨free,(matched (by decide +kernel)).symm.trans free,(consumed 85).1.mpr (by decide +kernel),?_⟩
  intro more
  exact absurd ((consumed 86).1.mp more) (by decide +kernel)

theorem credits_stranded :
    ∃ (calls : List (Call Nat (Nat → Nat))) (who : Nat),
      ¬ (run (step plainConfig) (genesis Bank.opened) calls).freeCredits who ≤
        listedCredits (run (step plainConfig) (genesis Bank.opened) calls) who := by
  obtain ⟨k,many⟩ : ∃ k, k = 2 ^ 64 - 1 := ⟨_,rfl⟩
  obtain ⟨_,exhausted⟩ := exhausting_run k staffed_exhausted (by omega)
  generalize full : run (step plainConfig) staffed (List.replicate k exhausting) = s at exhausted
  have position : s.nextBatchId = maxOf 64 := by
    rw [exhausted.nextBatchId,many]
    rfl
  have authority : ∀ u : State Nat (Nat → Nat), u.authorities = s.authorities → 5 ∈ u.authorities := by
    intro u same
    rw [same,exhausted.authorities]
    exact List.mem_cons_self
  obtain ⟨t,first⟩ := deposit_succeeds plainConfig 1 5 0 false (authority s rfl)
  obtain ⟨_,⟨time,created⟩,_⟩ := deposit_ok first
  obtain ⟨u,second⟩ := deposit_succeeds plainConfig 2 0 0 false (authority t created.authorities)
  obtain ⟨_,⟨later,replaced⟩,_⟩ := deposit_ok second
  have again : t.nextBatchId = s.nextBatchId := by
    rw [created.nextBatchId,position]
    rfl
  have free : u.freeCredits 1 = 5 := by
    rw [replaced.freeCredits,update_of_ne (show (1 : Nat) ≠ 2 by decide),created.freeCredits,update_self,exhausted.freeCredits]
    rfl
  have rows : ∀ batchId, creditsAt u batchId = 0 := by
    intro batchId
    rw [creditsAt_insert batchId replaced.batches,creditsAt_insert batchId created.batches,again]
    split
    · rfl
    · unfold creditsAt
      cases found : s.batches.lookup batchId with
      | none => rfl
      | some batch => exact exhausted.rows batchId batch found
  have listed : listedCredits u 1 = 0 := by
    refine List.sum_eq_zero ?_
    intro credits mem
    obtain ⟨batchId,_,rfl⟩ := List.mem_map.mp mem
    exact rows batchId
  refine ⟨.addAuthority .root 5 :: List.replicate k exhausting ++
    [.deposit (.signed 5) 1 5 0 false none,.deposit (.signed 5) 2 0 0 false none],1,?_⟩
  have ends : run (step plainConfig) (genesis Bank.opened) (.addAuthority .root 5 :: List.replicate k exhausting ++
      [.deposit (.signed 5) 1 5 0 false none,.deposit (.signed 5) 2 0 0 false none]) = u := by
    rw [run_append]
    change run (step plainConfig) (run (step plainConfig) staffed _) _ = u
    rw [full,run_cons,run_cons,run_nil]
    have one : step plainConfig s (.deposit (.signed 5) 1 5 0 false none) = t := congrArg (commit s) first
    have two : step plainConfig t (.deposit (.signed 5) 2 0 0 false none) = u := congrArg (commit t) second
    rw [one,two]
  rw [ends,free,listed]
  decide

end TheBrain.Marketplace
