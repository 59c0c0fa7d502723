import TheBrain.Arion.Enrolment
import TheBrain.Arion.Settlement

namespace TheBrain.Arion
open Library Machine Words PaymentMath Function

variable {A N W : Type}
variable {cfg : Config A N W} {s t u : State A N W}

theorem accrued_none (empty : s.minerAccruals uid = none) : accrued s uid now = 0 := by
  apply Fin.ext
  simp only [accrued,empty,Option.getD_none,Nat.sub_self,addSaturating_val]
  unfold saturatingMul saturatingAdd
  simp

section
variable [DecidableEq A]

def credit (s : State A N W) (child : A) (now : Nat) : Nat :=
  (s.childMinerUid child).elim 0 fun uid => accrued s uid now

-- The two uid maps are inverse to each other, only Active children hold uids, a node
-- leads to the Active child registered with it, and only claimed uids accrue. The accrual
-- of uid 0 is apart: clearing a child leaves it behind.
structure UidsLinked (s : State A N W) : Prop where
  forward : ∀ child uid, s.childMinerUid child = some uid → s.minerUidToChild uid = some child
  backward : ∀ uid child, s.minerUidToChild uid = some child → s.childMinerUid child = some uid
  bound : ∀ child uid, s.childMinerUid child = some uid →
    ∃ reg, s.childRegistrations.lookup child = some reg ∧ reg.status = .active
  nodes : ∀ nodeId child, s.nodeIdToChild nodeId = some child →
    ∃ reg, s.childRegistrations.lookup child = some reg ∧ reg.status = .active ∧ reg.nodeId = nodeId
  claimed : ∀ uid, uid ≠ 0 → s.minerAccruals uid ≠ none → s.minerUidToChild uid ≠ none

def AllClaimed (s : State A N W) : Prop := ∀ uid, s.minerAccruals uid ≠ none → s.minerUidToChild uid ≠ none

theorem genesis_linked (world : W) : UidsLinked (genesis world : State A N W) where
  forward := nofun
  backward := nofun
  bound := nofun
  nodes := nofun
  claimed _ _ accruing := absurd rfl accruing

theorem holder_unique (linked : UidsLinked s) (one : s.childMinerUid child = some uid)
    (two : s.childMinerUid other = some uid) : child = other :=
  Option.some.inj ((linked.forward child uid one).symm.trans (linked.forward other uid two))

-- The maps stay linked and, where it is `safe`, all accruals stay claimed and nobody's
-- credit grows.
structure Keeps (now : Nat) (safe : Prop) (s t : State A N W) : Prop where
  linked : UidsLinked t
  claimed : safe → AllClaimed s → AllClaimed t
  credit : safe → AllClaimed s → ∀ child, credit t child now ≤ credit s child now

theorem Keeps.refl (linked : UidsLinked s) : Keeps now safe s s := ⟨linked,fun _ claimed => claimed,fun _ _ _ => le_rfl⟩

theorem Keeps.trans (one : Keeps now safe s t) (two : Keeps now safe t u) : Keeps now safe s u where
  linked := two.linked
  claimed fine start := two.claimed fine (one.claimed fine start)
  credit fine start child := (two.credit fine (one.claimed fine start) child).trans (one.credit fine start child)

theorem Keeps.mono (keeps : Keeps now safe s t) (fewer : also → safe) : Keeps now also s t :=
  ⟨keeps.linked,fun fine => keeps.claimed (fewer fine),fun fine => keeps.credit (fewer fine)⟩

theorem Keeps.before (keeps : UidsLinked t → Keeps now safe t u) (before : Keeps now safe s t) : Keeps now safe s u :=
  before.trans (keeps before.linked)

structure SameUids (s t : State A N W) : Prop where
  childMinerUid : t.childMinerUid = s.childMinerUid
  minerUidToChild : t.minerUidToChild = s.minerUidToChild
  nodeIdToChild : t.nodeIdToChild = s.nodeIdToChild
  childRegistrations : t.childRegistrations = s.childRegistrations
  minerAccruals : t.minerAccruals = s.minerAccruals
  minerStatsByUid : t.minerStatsByUid = s.minerStatsByUid

end

theorem SameUids.refl (s : State A N W) : SameUids s s := ⟨rfl,rfl,rfl,rfl,rfl,rfl⟩

theorem SameUids.accrued (same : SameUids s t) (uid now : Nat) : accrued t uid now = accrued s uid now := by
  unfold Arion.accrued storedBytes
  rw [same.minerAccruals,same.minerStatsByUid]

theorem SameUids.linked [DecidableEq A] (same : SameUids s t) (linked : UidsLinked s) : UidsLinked t := by
  refine ⟨?_,?_,?_,?_,?_⟩
  · rw [same.childMinerUid,same.minerUidToChild]
    exact linked.forward
  · rw [same.childMinerUid,same.minerUidToChild]
    exact linked.backward
  · rw [same.childMinerUid,same.childRegistrations]
    exact linked.bound
  · rw [same.nodeIdToChild,same.childRegistrations]
    exact linked.nodes
  · rw [same.minerAccruals,same.minerUidToChild]
    exact linked.claimed

theorem SameUids.credit (same : SameUids s t) (child : A) (now : Nat) : credit t child now = credit s child now := by
  unfold Arion.credit
  rw [same.childMinerUid]
  cases s.childMinerUid child with
  | none => rfl
  | some uid => exact congrArg Fin.val (same.accrued uid now)

theorem SameUids.claimed (same : SameUids s t) (claimed : AllClaimed s) : AllClaimed t := by
  unfold AllClaimed
  rw [same.minerAccruals,same.minerUidToChild]
  exact claimed

theorem credit_write (s : State A N W) (uid now : Nat) (blocks : Word 128) (child : A) :
    credit (withAccruals s (update s.minerAccruals uid (some ⟨blocks,now⟩))) child now =
      if s.childMinerUid child = some uid then blocks.val else credit s child now := by
  unfold credit
  change (s.childMinerUid child).elim 0 _ = _
  cases s.childMinerUid child with
  | none => rfl
  | some key =>
    by_cases same : key = uid
    · subst same
      rw [if_pos rfl]
      exact congrArg Fin.val (accrued_current (by simp [withAccruals]))
    · rw [if_neg (by simpa using same)]
      exact congrArg Fin.val (accrued_congr (s := s) rfl (update_of_ne same _ _) now)

theorem written_claimed (holds : s.minerUidToChild uid ≠ none) (claimed : s.minerAccruals key ≠ none → s.minerUidToChild key ≠ none)
    (accruing : update s.minerAccruals uid (some accrual) key ≠ none) : s.minerUidToChild key ≠ none := by
  rw [update_apply] at accruing
  split at accruing
  · next same => exact same ▸ holds
  · exact claimed accruing

theorem PaysOut.sameUids (pays : PaysOut s t) : SameUids s t := by
  obtain ⟨_,_,_,_,rfl⟩ := pays
  exact ⟨rfl,rfl,rfl,rfl,rfl,rfl⟩

variable [DecidableEq A]

theorem SameUids.keeps (same : SameUids s t) (linked : UidsLinked s) : Keeps now safe s t where
  linked := same.linked linked
  claimed _ := same.claimed
  credit _ _ child := (same.credit child now).le

structure Relinks (s t : State A N W) (child : A) (uid : Nat) (held : Option Nat) (claim : Option A) : Prop where
  childMinerUid : t.childMinerUid = update s.childMinerUid child held
  minerUidToChild : t.minerUidToChild = update s.minerUidToChild uid claim
  nodeIdToChild : t.nodeIdToChild = s.nodeIdToChild
  childRegistrations : t.childRegistrations = s.childRegistrations

structure Released (s t : State A N W) (child : A) (uid : Nat) : Prop extends Relinks s t child uid none none where
  minerAccruals : t.minerAccruals = update s.minerAccruals uid none
  minerStatsByUid : t.minerStatsByUid = s.minerStatsByUid.erase uid

structure Vacated (s t : State A N W) (child : A) (uid : Nat) : Prop extends Relinks s t child uid none none where
  others : ∀ key, key ≠ uid → t.minerAccruals key = s.minerAccruals key
  emptied : uid ≠ 0 → t.minerAccruals uid = none

theorem Released.vacated (released : Released s t child uid) : Vacated s t child uid where
  toRelinks := released.toRelinks
  others key apart := by rw [released.minerAccruals,update_of_ne apart]
  emptied _ := by rw [released.minerAccruals,update_self]

theorem Vacated.still (vacated : Vacated s t child uid) (held : t.childMinerUid other = some key) :
    other ≠ child ∧ s.childMinerUid other = some key := by
  rw [vacated.childMinerUid,update_apply] at held
  split at held
  · cases held
  · next different => exact ⟨different,held⟩

theorem Vacated.stillClaimed (vacated : Vacated s t child uid) (held : t.minerUidToChild key = some other) :
    key ≠ uid ∧ s.minerUidToChild key = some other := by
  rw [vacated.minerUidToChild,update_apply] at held
  split at held
  · cases held
  · next different => exact ⟨different,held⟩

theorem Vacated.linked (vacated : Vacated s t child uid) (linked : UidsLinked s) (held : s.childMinerUid child = some uid) :
    UidsLinked t where
  forward := by
    intro other key kept
    obtain ⟨different,before⟩ := vacated.still kept
    have apart : key ≠ uid := by
      intro same
      exact different (holder_unique linked (same ▸ before) held)
    rw [vacated.minerUidToChild,update_of_ne apart]
    exact linked.forward other key before
  backward := by
    intro key other kept
    obtain ⟨different,before⟩ := vacated.stillClaimed kept
    have bound := linked.backward key other before
    have apart : other ≠ child := by
      intro same
      rw [same,held] at bound
      exact different (Option.some.inj bound).symm
    rw [vacated.childMinerUid,update_of_ne apart]
    exact bound
  bound := by
    intro other key kept
    rw [vacated.childRegistrations]
    exact linked.bound other key (vacated.still kept).2
  nodes := by
    rw [vacated.nodeIdToChild,vacated.childRegistrations]
    exact linked.nodes
  claimed := by
    intro key tracked accruing
    by_cases own : key = uid
    · subst own
      exact absurd (vacated.emptied tracked) accruing
    · rw [vacated.others key own] at accruing
      rw [vacated.minerUidToChild,update_of_ne own]
      exact linked.claimed key tracked accruing

theorem Released.claimed (released : Released s t child uid) (claimed : AllClaimed s) : AllClaimed t := by
  intro key accruing
  rw [released.minerAccruals,update_apply] at accruing
  split at accruing
  · exact absurd rfl accruing
  next different =>
    rw [released.minerUidToChild,update_of_ne different]
    exact claimed key accruing

theorem Released.credit (released : Released s t child uid) (linked : UidsLinked s)
    (held : s.childMinerUid child = some uid) (other : A) (now : Nat) :
    credit t other now = if other = child then 0 else credit s other now := by
  unfold Arion.credit
  rw [released.childMinerUid,update_apply]
  by_cases same : other = child
  · rw [if_pos same,if_pos same]
    rfl
  · rw [if_neg same,if_neg same]
    cases before : s.childMinerUid other with
    | none => rfl
    | some key =>
      have apart : key ≠ uid := by
        intro equal
        exact same (holder_unique linked (equal ▸ before) held)
      have kept : accrued t key now = accrued s key now := by
        unfold accrued storedBytes
        rw [released.minerAccruals,update_of_ne apart,released.minerStatsByUid,StorageMap.lookup_erase_if,if_neg apart]
      exact congrArg Fin.val kept

theorem Released.keeps (released : Released s t child uid) (linked : UidsLinked s)
    (held : s.childMinerUid child = some uid) : Keeps now safe s t := by
  refine ⟨released.vacated.linked linked held,fun _ => released.claimed,?_⟩
  intro _ _ other
  rw [released.credit linked held other now]
  split
  · exact Nat.zero_le _
  · exact le_rfl

structure Installed (s t : State A N W) (child : A) (uid : Nat) : Prop extends Relinks s t child uid (some uid) (some child) where
  minerAccruals : t.minerAccruals = s.minerAccruals
  minerStatsByUid : t.minerStatsByUid = s.minerStatsByUid

theorem unclaimed_not_held (linked : UidsLinked s) (unclaimed : s.minerUidToChild uid = none)
    (held : s.childMinerUid other = some key) : key ≠ uid := by
  intro same
  have forward := linked.forward other key held
  rw [same,unclaimed] at forward
  cases forward

theorem Installed.stillClaimed (installed : Installed s t child uid) (claimed : s.minerUidToChild key ≠ none) :
    t.minerUidToChild key ≠ none := by
  rw [installed.minerUidToChild,update_apply]
  split
  · exact Option.some_ne_none child
  · exact claimed

theorem Installed.linked (installed : Installed s t child uid) (linked : UidsLinked s)
    (unbound : s.childMinerUid child = none) (unclaimed : s.minerUidToChild uid = none)
    (registered : ∃ reg, s.childRegistrations.lookup child = some reg ∧ reg.status = .active) : UidsLinked t where
  forward := by
    intro other key held
    rw [installed.childMinerUid,update_apply] at held
    rw [installed.minerUidToChild,update_apply]
    split at held
    next same =>
      cases held
      rw [if_pos rfl,same]
    · rw [if_neg (unclaimed_not_held linked unclaimed held)]
      exact linked.forward other key held
  backward := by
    intro key other claims
    rw [installed.minerUidToChild,update_apply] at claims
    rw [installed.childMinerUid,update_apply]
    split at claims
    next same =>
      cases claims
      rw [if_pos rfl,same]
    · have held := linked.backward key other claims
      have apart : other ≠ child := by
        intro same
        rw [same,unbound] at held
        cases held
      rw [if_neg apart]
      exact held
  bound := by
    intro other key held
    rw [installed.childMinerUid,update_apply] at held
    rw [installed.childRegistrations]
    split at held
    · next same => exact same ▸ registered
    · exact linked.bound other key held
  nodes := by
    rw [installed.nodeIdToChild,installed.childRegistrations]
    exact linked.nodes
  claimed := by
    intro key tracked accruing
    rw [installed.minerAccruals] at accruing
    exact installed.stillClaimed (linked.claimed key tracked accruing)

theorem Installed.claimed (installed : Installed s t child uid) (claimed : AllClaimed s) : AllClaimed t := by
  intro key accruing
  rw [installed.minerAccruals] at accruing
  exact installed.stillClaimed (claimed key accruing)

theorem Installed.accrued (installed : Installed s t child uid) (key now : Nat) : accrued t key now = accrued s key now := by
  unfold Arion.accrued storedBytes
  rw [installed.minerAccruals,installed.minerStatsByUid]

theorem Installed.keeps (installed : Installed s t child uid) (linked : UidsLinked s)
    (unbound : s.childMinerUid child = none) (unclaimed : s.minerUidToChild uid = none)
    (registered : ∃ reg, s.childRegistrations.lookup child = some reg ∧ reg.status = .active) : Keeps now safe s t := by
  refine ⟨installed.linked linked unbound unclaimed registered,fun _ => installed.claimed,?_⟩
  intro _ claimed other
  have empty : s.minerAccruals uid = none := by
    by_contra accruing
    exact claimed uid accruing unclaimed
  unfold credit
  rw [installed.childMinerUid,update_apply]
  split
  · change (Arion.accrued t uid now).val ≤ _
    rw [installed.accrued,accrued_none empty]
    exact Nat.zero_le _
  · cases s.childMinerUid other with
    | none => exact le_rfl
    | some key => exact (congrArg Fin.val (installed.accrued key now)).le

-- A child without a uid leaves: its registration may change or go, and no node leads to it.
structure Unregistered (s t : State A N W) (child : A) : Prop where
  childMinerUid : t.childMinerUid = s.childMinerUid
  minerUidToChild : t.minerUidToChild = s.minerUidToChild
  minerAccruals : t.minerAccruals = s.minerAccruals
  minerStatsByUid : t.minerStatsByUid = s.minerStatsByUid
  registrations : ∀ other, other ≠ child → t.childRegistrations.lookup other = s.childRegistrations.lookup other
  nodes : ∀ nodeId other, t.nodeIdToChild nodeId = some other → other ≠ child ∧ s.nodeIdToChild nodeId = some other

theorem Unregistered.linked (gone : Unregistered s t child) (linked : UidsLinked s) (unbound : s.childMinerUid child = none) :
    UidsLinked t := by
  refine ⟨?_,?_,?_,?_,?_⟩
  · rw [gone.childMinerUid,gone.minerUidToChild]
    exact linked.forward
  · rw [gone.childMinerUid,gone.minerUidToChild]
    exact linked.backward
  · intro other key held
    rw [gone.childMinerUid] at held
    have apart : other ≠ child := by
      intro same
      rw [same,unbound] at held
      cases held
    rw [gone.registrations other apart]
    exact linked.bound other key held
  · intro nodeId other leads
    obtain ⟨apart,before⟩ := gone.nodes nodeId other leads
    rw [gone.registrations other apart]
    exact linked.nodes nodeId other before
  · rw [gone.minerAccruals,gone.minerUidToChild]
    exact linked.claimed

theorem Unregistered.keeps (gone : Unregistered s t child) (linked : UidsLinked s)
    (unbound : s.childMinerUid child = none) : Keeps now safe s t where
  linked := gone.linked linked unbound
  claimed := by
    unfold AllClaimed
    rw [gone.minerAccruals,gone.minerUidToChild]
    exact fun _ claimed => claimed
  credit := by
    intro _ _ other
    unfold Arion.credit accrued storedBytes
    rw [gone.childMinerUid,gone.minerAccruals,gone.minerStatsByUid]

theorem write_linked (linked : UidsLinked s) (holds : s.minerUidToChild uid ≠ none) (accrual : MinerAccrual) :
    UidsLinked (withAccruals s (update s.minerAccruals uid (some accrual))) :=
  {linked with claimed:=fun key tracked => written_claimed holds (linked.claimed key tracked)}

theorem write_keeps (linked : UidsLinked s) (holds : s.minerUidToChild uid ≠ none) {blocks : Word 128}
    (within : blocks.val ≤ accrued s uid now) :
    Keeps now safe s (withAccruals s (update s.minerAccruals uid (some ⟨blocks,now⟩))) := by
  refine ⟨write_linked linked holds _,fun _ claimed key => written_claimed holds (claimed key),?_⟩
  intro _ _ child
  rw [credit_write]
  split
  next held =>
    unfold credit
    rw [held]
    exact within
  · exact le_rfl

-- Clearing a child keeps the accrual of uid 0; the child must not leave one behind.
def LeavesNoAccrual (s : State A N W) (child : A) : Prop :=
  ¬(s.childMinerUid child = some 0 ∧ s.minerAccruals 0 ≠ none)

instance (s : State A N W) (child : A) : Decidable (LeavesNoAccrual s child) :=
  inferInstanceAs (Decidable (¬(_ ∧ _)))

theorem forfeitAccrual_eq (s : State A N W) (child : A) (uid : Nat) :
    ∃ events, forfeitAccrual s child uid = {s with minerAccruals:=update s.minerAccruals uid none,events:=events} := by
  have dropped : ∀ value, update (update s.minerAccruals uid value) uid none =
      update s.minerAccruals uid none := fun value => update_idem ..
  simp only [forfeitAccrual,accrueMinerBytes,dropped]
  split
  · exact ⟨s.events,rfl⟩
  · split
    · exact ⟨_,rfl⟩
    · exact ⟨s.events,rfl⟩

theorem clear_vacated (held : s.childMinerUid child = some uid) :
    Vacated s (clearMinerUidAndStatsForChild s child) child uid := by
  unfold clearMinerUidAndStatsForChild
  rw [held]
  dsimp only
  split
  · next zero => exact ⟨⟨rfl,rfl,rfl,rfl⟩,fun _ _ => rfl,fun nonzero => absurd zero nonzero⟩
  · obtain ⟨_,same⟩ := forfeitAccrual_eq s child uid
    rw [same]
    exact ⟨⟨rfl,rfl,rfl,rfl⟩,fun _ apart => update_of_ne apart _ _,fun _ => update_self ..⟩

theorem clear_unbound (unbound : s.childMinerUid child = none) : clearMinerUidAndStatsForChild s child = s := by
  unfold clearMinerUidAndStatsForChild
  rw [unbound]

theorem clear_released (held : s.childMinerUid child = some uid) (leaves : LeavesNoAccrual s child) :
    Released s (clearMinerUidAndStatsForChild s child) child uid := by
  unfold clearMinerUidAndStatsForChild
  rw [held]
  dsimp only
  split
  next zero =>
    subst zero
    have empty : s.minerAccruals 0 = none := by
      by_contra accruing
      exact leaves ⟨held,accruing⟩
    refine ⟨⟨rfl,rfl,rfl,rfl⟩,?_,rfl⟩
    exact (update_eq_self_iff.mpr empty.symm).symm
  · obtain ⟨_,same⟩ := forfeitAccrual_eq s child uid
    rw [same]
    exact ⟨⟨rfl,rfl,rfl,rfl⟩,rfl,rfl⟩

theorem clear_keeps (linked : UidsLinked s) (child : A) :
    Keeps now (LeavesNoAccrual s child) s (clearMinerUidAndStatsForChild s child) := by
  cases held : s.childMinerUid child with
  | none =>
    rw [clear_unbound held]
    exact .refl linked
  | some =>
    have released : ∀ leaves, Keeps now True s _ := fun leaves => (clear_released held leaves).keeps linked held
    exact ⟨(clear_vacated held).linked linked held,fun leaves => (released leaves).claimed trivial,fun leaves => (released leaves).credit trivial⟩

theorem clear_frees (s : State A N W) (child : A) : (clearMinerUidAndStatsForChild s child).childMinerUid child = none := by
  cases held : s.childMinerUid child with
  | none => rw [clear_unbound held,held]
  | some => rw [(clear_vacated held).childMinerUid,update_self]

theorem clear_leaves (linked : UidsLinked s) (kept : LeavesNoAccrual s other) :
    LeavesNoAccrual (clearMinerUidAndStatsForChild s child) other := by
  cases held : s.childMinerUid child with
  | none =>
    rw [clear_unbound held]
    exact kept
  | some uid =>
    have vacated := clear_vacated held
    rintro ⟨holds,accruing⟩
    obtain ⟨apart,before⟩ := vacated.still holds
    have different : 0 ≠ uid := by
      intro same
      exact apart (holder_unique linked before (same ▸ held))
    rw [vacated.others 0 different] at accruing
    exact kept ⟨before,accruing⟩

theorem recordStats_keeps (update : Nat × MinerStats) (linked : UidsLinked s) : Keeps now safe s (recordStats now s update) := by
  obtain ⟨uid,stats⟩ := update
  -- Stats written for a uid change nobody's credit once its accrual is current, and
  -- without a claim nobody holds the uid.
  have written : ∀ t : State A N W, UidsLinked t →
      ((∃ blocks, t.minerAccruals uid = some ⟨blocks,now⟩) ∨ t.minerUidToChild uid = none) →
      Keeps now safe t {t with minerStatsByUid:=t.minerStatsByUid.insert uid stats} := by
    intro t fine current
    refine ⟨{fine with},fun _ claimed => claimed,?_⟩
    intro _ _ child
    unfold credit
    change (t.childMinerUid child).elim 0 _ ≤ _
    cases held : t.childMinerUid child with
    | none => exact le_rfl
    | some key =>
      apply le_of_eq
      by_cases same : key = uid
      · subst same
        rcases current with ⟨_,stored⟩ | unclaimed
        · exact congrArg Fin.val ((accrued_current (by exact stored)).trans (accrued_current stored).symm)
        · exact absurd rfl (unclaimed_not_held fine unclaimed held)
      · simp only [accrued,storedBytes,Option.elim_some,AList.lookup_insert_ne same]
  unfold recordStats
  split
  · next unclaimed => exact written s linked (.inr unclaimed)
  next holds =>
    have accrues : Keeps now safe s (accrueMinerBytes s uid now) := write_keeps linked holds le_rfl
    refine accrues.trans (written _ accrues.linked (.inl ⟨accrued s uid now,?_⟩))
    exact update_self ..

theorem pruneUid_keeps (keep : List Nat) (uid : Nat) (linked : UidsLinked s) : Keeps now safe s (pruneUid keep s uid) := by
  unfold pruneUid
  split
  · exact .refl linked
  · have before : ∀ key, update s.minerAccruals uid none key ≠ none → s.minerAccruals key ≠ none := by
      intro key accruing empty
      rw [update_apply,empty,ite_self] at accruing
      exact accruing rfl
    refine ⟨{linked with claimed:=fun key tracked accruing => linked.claimed key tracked (before key accruing)},
      fun _ claimed key accruing => claimed key (before key accruing),?_⟩
    · intro _ _ child
      unfold credit
      change (s.childMinerUid child).elim 0 _ ≤ _
      cases s.childMinerUid child with
      | none => exact le_rfl
      | some key =>
        by_cases same : key = uid
        · subst same
          change (accrued _ key now).val ≤ _
          rw [accrued_none (update_self ..)]
          exact Nat.zero_le _
        · apply le_of_eq
          simp only [accrued,storedBytes,Option.elim_some,AList.lookup_erase_ne same,update_of_ne same]

theorem pruneStaleMinerStats_keeps [DecidableEq N] (cfg : Config A N W) (linked : UidsLinked s) :
    Keeps now safe s (pruneStaleMinerStats cfg s) := by
  refine prune_keeps cfg (Keeps now safe s) ?_ ?_ (.refl linked)
  · exact fun t uid => Keeps.before (pruneUid_keeps _ uid)
  · exact fun t c => Keeps.before (SameUids.keeps ⟨rfl,rfl,rfl,rfl,rfl,rfl⟩)

theorem settleChild_keeps (price tokenPrice : Nat) (p : State A N W × StorageMap A (Word 128))
    (entry : A × ChildRegistration A N) (linked : UidsLinked p.1) :
    Keeps now safe p.1 (settleChild price tokenPrice now p entry).1 := by
  rw [settleChild_eq]
  cases settles : settledUid p.1 entry with
  | none => exact .refl linked
  | some uid =>
    have held := linked.forward entry.1 uid (settledUid_bound settles)
    have holds : p.1.minerUidToChild uid ≠ none := by
      rw [held]
      exact Option.some_ne_none entry.1
    refine write_keeps linked holds ?_
    split
    · exact le_rfl
    · exact Nat.zero_le _

theorem settleMinerPayments_keeps (cfg : Config A N W) (linked : UidsLinked s) :
    Keeps now safe s (settleMinerPayments cfg s now) := by
  refine settle_keeps cfg (Keeps now safe s) now ?_ ?_ (.refl linked)
  · exact fun p entry => Keeps.before (settleChild_keeps _ _ p entry)
  · exact fun t u pays => Keeps.before pays.sameUids.keeps

end TheBrain.Arion
