import TheBrain.Marketplace.Specs

namespace TheBrain.Marketplace
open Library Machine Words Function List StorageMap

variable {A B : Type}
variable {s t u : State A B}

theorem topUp_alpha (batch : Batch A) (credits : Nat) (fits : batch.alpha + alpha < 2 ^ 128) :
    (topUp batch credits alpha).alpha = batch.alpha + alpha := by
  unfold Batch.alpha at fits ⊢
  simp only [topUp]
  rw [saturatingAdd_exact (by omega)]
  omega

variable [DecidableEq A] {cfg : Config A B}

def alphaTotal (s : State A B) : Nat := StorageMap.total (fun _ batch => batch.alpha) s.batches

def ownedAlpha (s : State A B) (who : A) : Nat :=
  StorageMap.total (fun _ batch => if batch.owner = who then batch.alpha else 0) s.batches

def backedAlpha (s : State A B) : Nat :=
  StorageMap.total (fun batchId batch => batch.alpha - s.unbackedBatchAlpha batchId) s.batches

structure LedgersExact (s : State A B) : Prop where
  backing : s.totalUndistributedBacking = backedAlpha s
  unbacked : ∀ batchId batch, s.batches.lookup batchId = some batch → s.unbackedBatchAlpha batchId ≤ batch.alpha
  owned : ∀ who, s.alphaBalances who = ownedAlpha s who
  untruncated : s.truncated = false
  purchase : ∀ who batchId, s.lastPurchaseBatch who = some batchId → ∃ batch, s.batches.lookup batchId = some batch ∧
    batch.owner = who ∧ batch.isFrozen = false ∧ s.unbackedBatchAlpha batchId = 0

structure Exact (s : State A B) : Prop extends LedgersExact s where
  absent : ∀ batchId, s.batches.lookup batchId = none → s.unbackedBatchAlpha batchId = 0
  fresh : ∀ batchId batch, s.batches.lookup batchId = some batch → batchId < s.nextBatchId
  fits : alphaTotal s < 2 ^ 128

theorem genesis_exact (bank : Bank.State A B) : Exact (genesis bank) where
  backing := rfl
  unbacked := nofun
  owned := fun _ => rfl
  untruncated := rfl
  purchase := nofun
  absent := fun _ _ => rfl
  fresh := nofun
  fits := Nat.two_pow_pos 128

theorem SameBatches.exact (same : SameBatches s t) (ledgers : Exact s) : Exact t where
  backing := by
    unfold backedAlpha
    rw [same.totalUndistributedBacking,same.batches,same.unbackedBatchAlpha]
    exact ledgers.backing
  unbacked := by
    rw [same.batches,same.unbackedBatchAlpha]
    exact ledgers.unbacked
  owned := by
    unfold ownedAlpha
    rw [same.alphaBalances,same.batches]
    exact ledgers.owned
  untruncated := same.truncated.trans ledgers.untruncated
  purchase := by
    rw [same.lastPurchaseBatch,same.batches,same.unbackedBatchAlpha]
    exact ledgers.purchase
  absent := by
    rw [same.batches,same.unbackedBatchAlpha]
    exact ledgers.absent
  fresh := by
    rw [same.batches,same.nextBatchId]
    exact ledgers.fresh
  fits := by
    unfold alphaTotal
    rw [same.batches]
    exact ledgers.fits

theorem owned_le_total (s : State A B) (who : A) : ownedAlpha s who ≤ alphaTotal s := by
  apply total_le
  intro batchId batch found
  rw [found]
  split
  · exact le_rfl
  · exact Nat.zero_le _

section
variable (ledgers : Exact s)
include ledgers

theorem owned_le (who : A) : s.alphaBalances who ≤ alphaTotal s :=
  (ledgers.owned who).trans_le (owned_le_total s who)

theorem backing_le : s.totalUndistributedBacking ≤ alphaTotal s := by
  rw [ledgers.backing]
  apply total_le
  intro batchId batch found
  rw [found]
  exact Nat.sub_le _ _

-- What one batch contributes is in the ledgers, so no release of it can truncate.
theorem batch_owned (found : s.batches.lookup batchId = some batch) :
    batch.alpha ≤ s.alphaBalances batch.owner := by
  rw [ledgers.owned]
  refine le_trans ?_ (StorageMap.le_total _ s.batches found)
  rw [if_pos rfl]

theorem batch_backed (found : s.batches.lookup batchId = some batch) :
    batch.alpha - s.unbackedBatchAlpha batchId ≤ s.totalUndistributedBacking := by
  rw [ledgers.backing]
  exact StorageMap.le_total (fun batchId batch => batch.alpha - s.unbackedBatchAlpha batchId) s.batches found

theorem batch_fits (found : s.batches.lookup batchId = some batch) : batch.alpha < 2 ^ 128 :=
  (StorageMap.le_total (fun _ (batch : Batch A) => batch.alpha) s.batches found).trans_lt ledgers.fits

end

structure Shifted (s t : State A B) (batchId : Nat) (owner : A) (released : Nat) : Prop where
  alphaBalances : t.alphaBalances = (shift s batchId owner released).alphaBalances := by rfl
  unbackedBatchAlpha : t.unbackedBatchAlpha = (shift s batchId owner released).unbackedBatchAlpha := by rfl
  totalUndistributedBacking :
    t.totalUndistributedBacking = (shift s batchId owner released).totalUndistributedBacking := by rfl
  truncated : t.truncated = (shift s batchId owner released).truncated := by rfl
  nextBatchId : t.nextBatchId = s.nextBatchId := by rfl
  lastPurchaseBatch : t.lastPurchaseBatch = s.lastPurchaseBatch := by rfl

theorem Shifted.untruncated (shifted : Shifted s t batchId batch.owner released) (ledgers : Exact s)
    (found : s.batches.lookup batchId = some batch) (within : released ≤ batch.alpha) : t.truncated = false := by
  have owned := batch_owned ledgers found
  have backed := batch_backed ledgers found
  have balance : ¬ s.alphaBalances batch.owner < released := by omega
  have backing : ¬ s.totalUndistributedBacking < released - s.unbackedBatchAlpha batchId := by omega
  rw [shifted.truncated]
  simp only [shift,ledgers.untruncated,balance,backing,decide_false,Bool.or_false]

theorem Shifted.unbacked_ne (shifted : Shifted s t batchId owner released) (apart : key ≠ batchId) :
    t.unbackedBatchAlpha key = s.unbackedBatchAlpha key := by
  rw [shifted.unbackedBatchAlpha]
  exact update_of_ne apart _ _

theorem Shifted.unbacked_self (shifted : Shifted s t batchId owner released) :
    t.unbackedBatchAlpha batchId = s.unbackedBatchAlpha batchId - released := by
  rw [shifted.unbackedBatchAlpha]
  exact update_self ..

-- One row has been rewritten, and the ledgers have moved by what the row has.
theorem Exact.rewritten {next : Batch A} (ledgers : Exact s) (found : s.batches.lookup batchId = some batch)
    (batches : t.batches = s.batches.insert batchId next) (owner : next.owner = batch.owner)
    (others : ∀ key, key ≠ batchId → t.unbackedBatchAlpha key = s.unbackedBatchAlpha key)
    (marker : t.unbackedBatchAlpha batchId ≤ next.alpha)
    (backing : t.totalUndistributedBacking + (batch.alpha - s.unbackedBatchAlpha batchId) =
      s.totalUndistributedBacking + (next.alpha - t.unbackedBatchAlpha batchId))
    (owned : ∀ who, t.alphaBalances who + (if batch.owner = who then batch.alpha else 0) =
      s.alphaBalances who + if batch.owner = who then next.alpha else 0)
    (untruncated : t.truncated = false) (pointers : t.lastPurchaseBatch = s.lastPurchaseBatch) (ids : t.nextBatchId = s.nextBatchId)
    (usable : batch.isFrozen = false → s.unbackedBatchAlpha batchId = 0 → next.isFrozen = false ∧ t.unbackedBatchAlpha batchId = 0)
    (room : alphaTotal s + next.alpha < 2 ^ 128 + batch.alpha) : Exact t := by
  refine ⟨⟨?_,?_,?_,untruncated,?_⟩,?_,?_,?_⟩
  · have moved := total_rewrite (v := next) (fun batchId (batch : Batch A) => batch.alpha - s.unbackedBatchAlpha batchId)
      (fun batchId batch => batch.alpha - t.unbackedBatchAlpha batchId) s.batches found
      (fun key _ apart => by rw [others key apart])
    have before := ledgers.backing
    unfold backedAlpha at before ⊢
    rw [batches]
    omega
  · intro key row present
    rw [batches] at present
    rcases insert_cases present with ⟨rfl,rfl⟩ | ⟨apart,before⟩
    · exact marker
    · rw [others key apart]
      exact ledgers.unbacked key row before
  · intro who
    have moved := total_replace (v := next) (fun _ (batch : Batch A) => if batch.owner = who then batch.alpha else 0)
      s.batches found
    have before := ledgers.owned who
    have now := owned who
    unfold ownedAlpha at before ⊢
    rw [owner] at moved
    rw [batches]
    omega
  · intro who key pointer
    rw [pointers] at pointer
    obtain ⟨row,present,own,unfrozen,backed⟩ := ledgers.purchase who key pointer
    rw [batches,lookup_insert_if]
    split
    next same =>
      subst same
      cases present.symm.trans found
      exact ⟨next,rfl,owner.trans own,usable unfrozen backed⟩
    · next apart => exact ⟨row,present,own,unfrozen,(others key apart).trans backed⟩
  · intro key missing
    rw [batches] at missing
    obtain ⟨apart,before⟩ := insert_absent missing
    rw [others key apart]
    exact ledgers.absent key before
  · intro key row present
    rw [ids]
    rw [batches] at present
    rcases insert_cases present with ⟨rfl,_⟩ | ⟨_,before⟩
    · exact ledgers.fresh key batch found
    · exact ledgers.fresh key row before
  · have moved := total_replace (v := next) (fun _ (batch : Batch A) => batch.alpha) s.batches found
    unfold alphaTotal at room ⊢
    rw [batches]
    omega

theorem Shifted.exact {next : Batch A} (shifted : Shifted s t batchId batch.owner released) (ledgers : Exact s)
    (found : s.batches.lookup batchId = some batch) (batches : t.batches = s.batches.insert batchId next)
    (owner : next.owner = batch.owner) (sum : next.alpha + released = batch.alpha)
    (frozen : next.isFrozen = true → batch.isFrozen = true) : Exact t := by
  have within : released ≤ batch.alpha := by omega
  have marker := ledgers.unbacked batchId batch found
  have backed := batch_backed ledgers found
  have held := batch_owned ledgers found
  have left := shifted.unbacked_self
  have fits := ledgers.fits
  refine ledgers.rewritten found batches owner (fun _ => shifted.unbacked_ne) (by omega) ?_ ?_ (shifted.untruncated ledgers found within)
    shifted.lastPurchaseBatch shifted.nextBatchId ?_ (by omega)
  · rw [shifted.totalUndistributedBacking]
    simp only [shift]
    omega
  · intro who
    rw [shifted.alphaBalances]
    simp only [shift,update_apply]
    split
    next same =>
      rw [same,if_pos rfl,if_pos rfl]
      omega
    next apart => rw [if_neg (Ne.symm apart),if_neg (Ne.symm apart)]
  · intro unfrozen none
    refine ⟨?_,by omega⟩
    cases state : next.isFrozen with
    | false => rfl
    | true => exact (frozen state).symm.trans unfrozen

theorem Shifted.exact_erased (shifted : Shifted s t batchId batch.owner batch.alpha) (ledgers : Exact s)
    (found : s.batches.lookup batchId = some batch) (batches : t.batches = s.batches.erase batchId)
    (frozen : batch.isFrozen = true) : Exact t := by
  have marker := ledgers.unbacked batchId batch found
  have kept : ∀ key row, t.batches.lookup key = some row → key ≠ batchId ∧ s.batches.lookup key = some row :=
    fun key row present => erase_found (batches ▸ present)
  refine ⟨⟨?_,?_,?_,shifted.untruncated ledgers found le_rfl,?_⟩,?_,?_,?_⟩
  · have moved := total_remove (fun batchId (batch : Batch A) => batch.alpha - s.unbackedBatchAlpha batchId)
      (fun batchId batch => batch.alpha - t.unbackedBatchAlpha batchId) s.batches found
      (fun key _ apart => by rw [shifted.unbacked_ne apart])
    have before := ledgers.backing
    unfold backedAlpha at before ⊢
    rw [batches,shifted.totalUndistributedBacking]
    simp only [shift]
    omega
  · intro key row present
    obtain ⟨apart,before⟩ := kept key row present
    rw [shifted.unbacked_ne apart]
    exact ledgers.unbacked key row before
  · intro who
    have moved := total_remove (fun _ (batch : Batch A) => if batch.owner = who then batch.alpha else 0)
      (fun _ batch => if batch.owner = who then batch.alpha else 0) s.batches found (fun _ _ _ => rfl)
    have before := ledgers.owned who
    unfold ownedAlpha at before ⊢
    rw [batches,shifted.alphaBalances]
    simp only [shift,update_apply]
    split
    next same =>
      subst same
      rw [if_pos rfl] at moved
      omega
    next apart =>
      rw [if_neg (Ne.symm apart)] at moved
      omega
  · intro who key pointer
    rw [shifted.lastPurchaseBatch] at pointer
    obtain ⟨row,present,own,unfrozen,backed⟩ := ledgers.purchase who key pointer
    have apart : key ≠ batchId := by
      intro same
      rw [same,found] at present
      cases present
      rw [frozen] at unfrozen
      cases unfrozen
    refine ⟨row,?_,own,unfrozen,(shifted.unbacked_ne apart).trans backed⟩
    rw [batches,AList.lookup_erase_ne apart]
    exact present
  · intro key missing
    by_cases same : key = batchId
    · rw [same,shifted.unbacked_self]
      omega
    · rw [shifted.unbacked_ne same]
      rw [batches,AList.lookup_erase_ne same] at missing
      exact ledgers.absent key missing
  · intro key row present
    rw [shifted.nextBatchId]
    exact ledgers.fresh key row (kept key row present).2
  · have moved := total_erase (fun _ (batch : Batch A) => batch.alpha) s.batches found
    have before := ledgers.fits
    unfold alphaTotal at before ⊢
    rw [batches]
    omega

theorem next_absent (ledgers : Exact s) : s.batches.lookup s.nextBatchId = none := by
  cases found : s.batches.lookup s.nextBatchId with
  | none => rfl
  | some => exact absurd (ledgers.fresh _ _ found) (Nat.lt_irrefl _)

theorem Backed.ledgers (backed : Backed cfg s t s.nextBatchId alpha source) (ledgers : Exact s)
    (room : alphaTotal s + alpha < 2 ^ 128) :
    (∀ key, key ≠ s.nextBatchId → t.unbackedBatchAlpha key = s.unbackedBatchAlpha key) ∧
      t.unbackedBatchAlpha s.nextBatchId ≤ alpha ∧
      t.totalUndistributedBacking = s.totalUndistributedBacking + (alpha - t.unbackedBatchAlpha s.nextBatchId) := by
  have unmarked := ledgers.absent _ (next_absent ledgers)
  have bounded := backing_le ledgers
  cases backed with
  | nothing zero _ total marker =>
    rw [marker,total,unmarked,zero]
    exact ⟨fun _ _ => rfl,le_rfl,rfl⟩
  | paid _ _ paid =>
    rw [paid.marker,paid.total,unmarked,saturatingAdd_exact (by omega)]
    exact ⟨fun _ _ => rfl,Nat.zero_le _,rfl⟩
  | unbacked _ _ total marker =>
    rw [marker,total,update_self,Nat.sub_self]
    exact ⟨fun key apart => update_of_ne apart _ _,le_rfl,rfl⟩

theorem Created.exact (created : Created s t batch) (ledgers : Exact s) (backed : Backed cfg s t s.nextBatchId batch.alpha source)
    (room : alphaTotal s + batch.alpha < 2 ^ 128) (ids : s.nextBatchId < maxOf 64)
    (pointers : ∀ who key, t.lastPurchaseBatch who = some key → s.lastPurchaseBatch who = some key ∨
      key = s.nextBatchId ∧ batch.owner = who ∧ batch.isFrozen = false ∧ t.unbackedBatchAlpha key = 0) : Exact t := by
  have absent := next_absent ledgers
  obtain ⟨others,marker,total⟩ := backed.ledgers ledgers room
  have old : ∀ key row, s.batches.lookup key = some row → key ≠ s.nextBatchId :=
    fun key row present => Nat.ne_of_lt (ledgers.fresh key row present)
  have rows : ∀ key row, t.batches.lookup key = some row →
      key = s.nextBatchId ∧ row = batch ∨ key ≠ s.nextBatchId ∧ s.batches.lookup key = some row :=
    fun key row present => insert_cases (created.batches ▸ present)
  refine ⟨⟨?_,?_,?_,created.truncated.trans ledgers.untruncated,?_⟩,?_,?_,?_⟩
  · have moved := total_extend (v := batch) (fun key (row : Batch A) => row.alpha - s.unbackedBatchAlpha key)
      (fun key row => row.alpha - t.unbackedBatchAlpha key) s.batches absent (fun key _ apart => by rw [others key apart])
    have before := ledgers.backing
    unfold backedAlpha at before ⊢
    rw [created.batches,total,before,moved]
  · intro key row present
    rcases rows key row present with ⟨same,rfl⟩ | ⟨apart,before⟩
    · rw [same]
      exact marker
    · rw [others key apart]
      exact ledgers.unbacked key row before
  · intro who
    have held := owned_le ledgers batch.owner
    have moved := total_create (v := batch) (fun _ (row : Batch A) => if row.owner = who then row.alpha else 0)
      s.batches absent
    have before := ledgers.owned who
    unfold ownedAlpha at before ⊢
    rw [created.alphaBalances (by omega),created.batches,moved,update_apply,← before]
    by_cases same : who = batch.owner
    · rw [if_pos same,if_pos same.symm,same]
    · rw [if_neg same,if_neg (Ne.symm same),Nat.add_zero]
  · intro who key pointer
    rcases pointers who key pointer with before | ⟨rfl,own,unfrozen,unmarked⟩
    · obtain ⟨row,present,own,unfrozen,unmarked⟩ := ledgers.purchase who key before
      have apart := old key row present
      refine ⟨row,?_,own,unfrozen,(others key apart).trans unmarked⟩
      rw [created.batches,AList.lookup_insert_ne apart]
      exact present
    · refine ⟨batch,?_,own,unfrozen,unmarked⟩
      rw [created.batches,AList.lookup_insert]
  · intro key missing
    rw [created.batches] at missing
    obtain ⟨apart,before⟩ := insert_absent missing
    rw [others key apart]
    exact ledgers.absent key before
  · intro key row present
    rw [created.nextBatchId,saturatingAdd_exact (by unfold maxOf at ids; omega)]
    rcases rows key row present with ⟨rfl,_⟩ | ⟨_,before⟩
    · exact Nat.lt_succ_self _
    · exact Nat.lt_succ_of_lt (ledgers.fresh key row before)
  · have moved := total_create (v := batch) (fun _ (row : Batch A) => row.alpha) s.batches absent
    unfold alphaTotal at room ⊢
    rw [created.batches,moved]
    exact room

theorem ToppedUp.exact (topped : ToppedUp s t who batchId batch credits alpha) (ledgers : Exact s) (paid : Paid cfg s t who alpha)
    (room : alphaTotal s + alpha < 2 ^ 128) : Exact t := by
  have found := topped.found
  have bounded := StorageMap.le_total (fun _ (row : Batch A) => row.alpha) s.batches found
  have marker := ledgers.unbacked batchId batch found
  have grown : (topUp batch credits alpha).alpha = batch.alpha + alpha := by
    refine topUp_alpha batch credits ?_
    unfold alphaTotal at room
    omega
  have held := backing_le ledgers
  have owned := owned_le ledgers who
  refine ledgers.rewritten found topped.batches rfl ?_ ?_ ?_ ?_ (topped.truncated.trans ledgers.untruncated)
    topped.lastPurchaseBatch topped.nextBatchId ?_ (by omega)
  · intro key _
    rw [paid.marker]
  · rw [paid.marker]
    omega
  · rw [paid.marker,paid.total,saturatingAdd_exact (by omega)]
    omega
  · intro other
    rw [topped.own,topped.alphaBalances,saturatingAdd_exact (by omega),update_apply]
    split
    next same =>
      rw [if_pos same.symm,if_pos same.symm,same]
      omega
    next apart => rw [if_neg (Ne.symm apart),if_neg (Ne.symm apart)]
  · intro unfrozen none
    rw [paid.marker]
    exact ⟨unfrozen,none⟩

def AlphaFits (s : State A B) : Call A B → Prop
  | .deposit _ _ _ alphaAmount _ _ => alphaTotal s + alphaAmount < 2 ^ 128
  | .buyCredits _ alphaAmount _ _ => alphaTotal s + alphaAmount < 2 ^ 128
  | _ => True

def IdsLeft (s : State A B) : Call A B → Prop
  | .deposit .. | .buyCredits .. | .refundCreditsWithBatch .. => s.nextBatchId < maxOf 64
  | _ => True

theorem visited_exact {w next : Walk A B} (visited : Visited w sender batchId next) (ledgers : Exact w.state) : Exact next.state := by
  cases visited with
  | passed =>
    rw [file_state]
    exact ledgers
  | took _ _ _ found own _ taken =>
    rw [file_state]
    subst own
    exact Shifted.exact {} ledgers found rfl taken.owner (taken.alpha (batch_fits ledgers found)) taken.frozen

theorem relist_exact (who : A) (kept : List Nat) (ledgers : Exact s) : Exact (relist s who kept) :=
  {ledgers with}

theorem consumeCredits_exact (ran : consumeCredits s sender credits = .ok t) (ledgers : Exact s) : Exact t := by
  refine consumeCredits_keeps Exact ?_ ?_ ?_ ledgers ran
  · intro w batchId next fine visited
    exact visited_exact visited fine
  · intro u kept fine
    exact relist_exact sender kept fine
  · intro u fine
    exact SameBatches.exact {} fine

theorem releaseMatured_exact (now : Nat) (entry : Nat × Batch A) (ledgers : Exact s)
    (found : s.batches.lookup entry.1 = some entry.2) : Exact (releaseMatured now s entry) := by
  rcases releaseMatured_ok now s entry with same | ⟨_,same,_⟩
  · rw [same]
    exact ledgers
  · rw [same]
    exact Shifted.exact {} ledgers found rfl rfl rfl nofun

theorem handleChargeback_exact (ran : handleChargeback cfg s batchId = .ok t) (ledgers : Exact s) : Exact t := by
  rcases handleChargeback_ok ran with ⟨_,same⟩ | ⟨batch,_,_,_,_,_,found,frozen,_,_,_,_,same⟩
  · rw [same]
    exact ledgers
  · have whole : saturatingAdd 128 batch.remainingAlpha batch.pendingAlpha = batch.alpha :=
      saturatingAdd_exact (batch_fits ledgers found)
    rw [whole] at same
    have shifted : Shifted s t batchId batch.owner batch.alpha := by
      rw [same]
      exact {}
    refine shifted.exact_erased ledgers found ?_ frozen
    rw [same]

theorem pruneList_exact (who : A) (ledgers : Exact s) : Exact (pruneList s who) := by
  simp only [pruneList]
  split
  · exact relist_exact who _ ledgers
  · exact ledgers

theorem buyCredits_exact (ran : buyCredits cfg s origin alpha minCredits code = .ok t) (ledgers : Exact s)
    (room : alphaTotal s + alpha < 2 ^ 128) (ids : s.nextBatchId < maxOf 64) : Exact t := by
  obtain ⟨who,_,_,_,paid,⟨⟨_,created⟩,pointers⟩ | ⟨_,_,topped⟩⟩ := buyCredits_ok ran
  · refine created.exact ledgers (.paid who (.inl rfl) paid) room ids ?_
    intro other key pointer
    rw [pointers,update_apply] at pointer
    split at pointer
    next same =>
      cases pointer
      refine .inr ⟨rfl,same.symm,rfl,?_⟩
      rw [paid.marker]
      exact ledgers.absent _ (next_absent ledgers)
    · exact .inl pointer
  · exact topped.exact ledgers paid room

theorem dispatch_exact (call : Call A B) (ran : dispatch cfg s call = .ok t) (ledgers : Exact s)
    (room : AlphaFits s call) (ids : IdsLeft s call) : Exact t := by
  by_cases calm : call.calm = true
  · exact calm_keeps Exact (fun _ _ same => same.exact) (fun now _ entry fine found => releaseMatured_exact now entry fine found)
      (fun _ who fine => pruneList_exact who fine) ledgers calm ran
  cases call with
  | burn =>
    simp only [dispatch,burn,passes] at ran
    obtain ⟨_,_,_,_,same⟩ := ran
    cases same
    exact {ledgers with}
  | deposit =>
    obtain ⟨pointers,⟨time,created⟩,backed⟩ := deposit_ok ran
    refine created.exact ledgers backed room ids ?_
    intro who key pointer
    rw [pointers] at pointer
    exact .inl pointer
  | buyCredits => exact buyCredits_exact ran ledgers room ids
  | consumeCredits => exact consumeCredits_exact ran ledgers
  | refundCreditsWithBatch =>
    rcases refundCreditsWithBatch_ok cfg ran with same | ⟨pointers,⟨_,created⟩,backed⟩
    · rw [same]
      exact ledgers
    · refine created.exact ledgers backed ?_ ids ?_
      · exact ledgers.fits
      · intro other key pointer
        rw [pointers] at pointer
        exact .inl pointer
  | chargeback =>
    simp only [dispatch,chargeback,passes] at ran
    exact handleChargeback_exact ran.2 ledgers
  | _ => exact absurd rfl calm

theorem step_exact (s : State A B) (call : Call A B) (ledgers : Exact s)
    (within : AlphaFits s call ∧ IdsLeft s call) : Exact (step cfg s call) :=
  commit_inv Exact ledgers fun _ ran => dispatch_exact call ran ledgers within.1 within.2

instance (s : State A B) : DecidablePred (AlphaFits s) := fun call => by
  cases call <;> dsimp only [AlphaFits] <;> infer_instance

instance (s : State A B) : DecidablePred (IdsLeft s) := fun call => by
  cases call <;> dsimp only [IdsLeft] <;> infer_instance

theorem ledgers_exact (cfg : Config A B) (bank : Bank.State A B)
    (calls : List (Call A B)) (fits : Throughout (step cfg) AlphaFits (genesis bank) calls)
    (ids : Throughout (step cfg) IdsLeft (genesis bank) calls) : LedgersExact (run (step cfg) (genesis bank) calls) :=
  (run_invariant Exact step_exact (genesis_exact bank) (throughout_and fits ids)).toLedgersExact

def plainConfig : Config Nat (Nat → Nat) where
  bank := Bank.plainConfig
  accountId := 9
  minBuyAlpha := 1
  maxRequestsPerBlock := 10
  maxBatchesPerBuyer := 1
  maxAlphaPriceAge := 100
  maxReferralPayoutsPerSweep := 10
  referralPayoutInterval := 100
  blockChargeCheckInterval := 30
  alphaReleasePage := 10
  dbRead := ⟨1,0⟩
  dbWrite := ⟨1,0⟩
  maxBlock := ⟨1000000,1000000⟩
  batchRank := fun batchId => batchId
  accountRank := fun who => who

def traded : List (Call Nat (Nat → Nat)) :=
  [ .addAuthority .root 5,.deposit (.signed 5) 1 10 30 false none,.setSudoKey .root 7,
    .deposit (.signed 5) 1 100 40 true none,.consumeCredits 1 25,.setBuyCreditsEnabled .root true,
    .setAlphaPrice (.signed 5) 2000000000000000000,.buyCredits (.signed 7) 20 1 none,.buyCredits (.signed 7) 5 1 none,
    .consumeCredits 7 20,.onInitialize 432000]

theorem ledgers_exact_traded :
    (run (step plainConfig) (genesis Bank.opened) traded).totalUndistributedBacking = 49 ∧
      (run (step plainConfig) (genesis Bank.opened) traded).alphaBalances 1 = 34 ∧
      LedgersExact (run (step plainConfig) (genesis Bank.opened) traded) :=
  ⟨by decide +kernel,by decide +kernel,ledgers_exact plainConfig Bank.opened traded (by decide +kernel) (by decide +kernel)⟩

theorem deposit_succeeds (cfg : Config A B) (account : A) (credits alpha : Nat) (freeze : Bool)
    (authority : who ∈ s.authorities) : ∃ t, deposit cfg s (.signed who) account credits alpha freeze none = .ok t := by
  simp only [deposit,Origin.signer,okOr,ensureIsAuthority,ensure,if_pos authority,createBatch,doMint,insertReferralCode,
    routeBacking,bind,Except.bind]
  by_cases zero : alpha = 0
  · simp only [if_pos zero]
    exact ⟨_,rfl⟩
  · simp only [if_neg zero]
    exact ⟨_,rfl⟩

def exhausting : Call Nat (Nat → Nat) := .deposit (.signed 5) 1 0 1 false none

structure Exhausted (n : Nat) (s : State Nat (Nat → Nat)) : Prop where
  authorities : s.authorities = [5]
  nextBatchId : s.nextBatchId = min n (maxOf 64)
  balance : s.alphaBalances 1 = n
  total : alphaTotal s ≤ min n (2 ^ 64)
  last : 2 ^ 64 ≤ n → ∃ batch, s.batches.lookup (maxOf 64) = some batch ∧ batch.alpha = 1
  freeCredits : ∀ who, s.freeCredits who = 0
  rows : ∀ batchId batch, s.batches.lookup batchId = some batch → batch.remainingCredits = 0

theorem exhausting_step {s : State Nat (Nat → Nat)} (exhausted : Exhausted n s) (small : n + 1 < 2 ^ 128) :
    Exhausted (n + 1) (step plainConfig s exhausting) := by
  have authority : 5 ∈ s.authorities := by
    rw [exhausted.authorities]
    exact mem_cons_self
  obtain ⟨t,ran⟩ := deposit_succeeds plainConfig 1 0 1 false authority
  obtain ⟨_,⟨time,created⟩,_⟩ := deposit_ok ran
  have stepped : step plainConfig s exhausting = t := congrArg (commit s) ran
  have here := exhausted.nextBatchId
  rw [stepped]
  refine ⟨created.authorities.trans exhausted.authorities,?_,?_,?_,?_,?_,?_⟩
  · rw [created.nextBatchId,here]
    unfold saturatingAdd maxOf
    omega
  · have room : s.alphaBalances 1 + 1 < 2 ^ 128 := by
      rw [exhausted.balance]
      exact small
    rw [created.alphaBalances room]
    exact congrArg (· + 1) exhausted.balance
  · -- Below the maximum the row is new; at the maximum it replaces one with as much alpha.
    have before := exhausted.total
    unfold alphaTotal at before ⊢
    rw [created.batches]
    by_cases full : 2 ^ 64 ≤ n
    · obtain ⟨batch,found,one⟩ := exhausted.last full
      have position : s.nextBatchId = maxOf 64 := by
        rw [here]
        unfold maxOf
        omega
      rw [← position] at found
      have moved := total_replace (v := ⟨1,0,1,0,1,0,false,time⟩) (fun _ (batch : Batch Nat) => batch.alpha) s.batches found
      rw [one] at moved
      change _ + 1 = _ + 1 at moved
      omega
    · have moved := total_insert_le (k := s.nextBatchId) (v := ⟨1,0,1,0,1,0,false,time⟩)
        (fun _ (batch : Batch Nat) => batch.alpha) s.batches
      change _ ≤ _ + 1 at moved
      omega
  · intro full
    have position : s.nextBatchId = maxOf 64 := by
      rw [here]
      unfold maxOf
      omega
    refine ⟨⟨1,0,1,0,1,0,false,time⟩,?_,rfl⟩
    rw [created.batches,position]
    exact AList.lookup_insert _
  · intro who
    rw [created.freeCredits,update_apply]
    split
    · rw [exhausted.freeCredits]
      rfl
    · exact exhausted.freeCredits who
  · intro batchId batch found
    rw [created.batches] at found
    rcases insert_cases found with ⟨_,rfl⟩ | ⟨_,before⟩
    · rfl
    · exact exhausted.rows batchId batch before

theorem exhausting_run (k : Nat) {s : State Nat (Nat → Nat)} (exhausted : Exhausted n s) (small : n + k < 2 ^ 127) :
    Throughout (step plainConfig) AlphaFits s (List.replicate k exhausting) ∧
      Exhausted (n + k) (run (step plainConfig) s (List.replicate k exhausting)) := by
  induction k generalizing n s with
  | zero => exact ⟨trivial,exhausted⟩
  | succ _ ih =>
    obtain ⟨later,done⟩ := ih (exhausting_step exhausted (by omega)) (by omega)
    have total := exhausted.total
    refine ⟨⟨?_,later⟩,?_⟩
    · change alphaTotal s + 1 < 2 ^ 128
      omega
    · rw [Nat.add_right_comm] at done
      exact done

def staffed : State Nat (Nat → Nat) := step plainConfig (genesis Bank.opened) (.addAuthority .root 5)

theorem staffed_exhausted : Exhausted 0 staffed :=
  ⟨rfl,rfl,rfl,Nat.le_refl 0,fun full => absurd full (by decide),fun _ => rfl,nofun⟩

-- After 2 ^ 64 + 1 deposits the last two share one id, and the balance counts one alpha
-- more than the batches hold.
theorem ledgers_drift :
    ∃ calls, Throughout (step plainConfig) AlphaFits (genesis Bank.opened) calls ∧
      ¬ LedgersExact (run (step plainConfig) (genesis Bank.opened) calls) := by
  obtain ⟨k,many⟩ : ∃ k, k = 2 ^ 64 + 1 := ⟨_,rfl⟩
  obtain ⟨fits,exhausted⟩ := exhausting_run k staffed_exhausted (by omega)
  refine ⟨.addAuthority .root 5 :: replicate k exhausting,⟨trivial,fits⟩,?_⟩
  intro ledgers
  have counted := (ledgers.owned 1).symm.trans exhausted.balance
  have bounded := (owned_le_total _ 1).trans exhausted.total
  rw [run_cons] at counted
  change ownedAlpha (run (step plainConfig) staffed (replicate k exhausting)) 1 = _ at counted
  omega

end TheBrain.Marketplace
