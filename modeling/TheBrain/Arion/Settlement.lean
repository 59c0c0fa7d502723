import TheBrain.Arion.Pallet

namespace TheBrain.Arion
open Library Words PaymentMath Function List StorageMap

variable {A N W : Type} [DecidableEq A]
variable {cfg : Config A N W} {s t u : State A N W}

section
omit [DecidableEq A]

def settledUid (s : State A N W) (entry : A × ChildRegistration A N) : Option Nat :=
  if entry.2.status = .active then (s.childMinerUid entry.1).filter fun uid => uid ≠ 0 else none

theorem settledUid_bound (settles : settledUid s entry = some uid) : s.childMinerUid entry.1 = some uid := by
  unfold settledUid at settles
  split at settles
  · exact (Option.filter_eq_some_iff.mp settles).1
  · cases settles

theorem accrued_current (stored : t.minerAccruals uid = some ⟨blocks,now⟩) : accrued t uid now = blocks := by
  apply Fin.ext
  simp only [accrued,stored,Option.getD_some,Nat.sub_self,addSaturating_val]
  unfold saturatingMul
  rw [Nat.mul_zero,Nat.zero_min,saturatingAdd_exact (by simp)]
  rfl

def uidTokens (s : State A N W) (price tokenPrice now uid : Nat) : Nat :=
  tokensFor (accrued s uid now) price tokenPrice

theorem unpaid_worthless (skipped : s.minerPriceUsdPerGbBlock = 0 ∨ cfg.tokenPriceUsd s.world = 0) (now uid : Nat) :
    uidTokens s s.minerPriceUsdPerGbBlock (cfg.tokenPriceUsd s.world) now uid = 0 := by
  unfold uidTokens tokensFor
  split
  · rfl
  next priced =>
    rcases skipped with free | unpriced
    · simp [free]
    · exact absurd unpriced priced

def paidTotal (payments : List (A × Nat)) : Nat := (payments.map Prod.snd).sum

theorem paidTotal_append (one two : List (A × Nat)) : paidTotal (one ++ two) = paidTotal one + paidTotal two := by
  simp [paidTotal]

def withAccruals (s : State A N W) (accruals : Nat → Option MinerAccrual) : State A N W :=
  {s with minerAccruals:=accruals}

theorem settledUid_congr (same : t = withAccruals s t.minerAccruals) (entry : A × ChildRegistration A N) :
    settledUid t entry = settledUid s entry := by
  rw [same]
  rfl

-- Reading the uid of a registration or its tokens needs nothing a settlement writes,
-- except the accrual of that uid itself.
theorem accrued_congr (same : t = withAccruals s t.minerAccruals) (untouched : t.minerAccruals uid = s.minerAccruals uid)
    (now : Nat) : accrued t uid now = accrued s uid now := by
  unfold accrued storedBytes
  rw [untouched,same]
  rfl

theorem storedByteBlocks_accrue (s : State A N W) (uid now : Nat) :
    storedByteBlocks (accrueMinerBytes s uid now) uid = accrued s uid now := by
  simp [storedByteBlocks,accrueMinerBytes]

def arrears (s : State A N W) (family : A) : Nat := (s.familyArrears.lookup family).elim 0 Fin.val

def earned (s : State A N W) (price tokenPrice now : Nat) (entry : A × ChildRegistration A N) : Nat :=
  (settledUid s entry).elim 0 (uidTokens s price tokenPrice now)

def owed (cfg : Config A N W) (s : State A N W) (now : Nat) (family : A) : Nat :=
  StorageMap.total (fun child reg =>
    if reg.family = family then earned s s.minerPriceUsdPerGbBlock (cfg.tokenPriceUsd s.world) now (child,reg) else 0)
    s.childRegistrations

def paidBy : Event A N → Option (A × Nat)
  | .familyPaid family tokens _ => some (family,tokens)
  | _ => none

def paidTo (family : A) (payments : List (A × Nat)) : Nat :=
  (payments.map fun payment => if payment.1 = family then payment.2 else 0).sum

-- A request to the payout source: what it moves, if anything, is a payment and is bonded.
def transfer (cfg : Config A N W) (p : W × List (A × Nat)) (request : A × Nat) : W × List (A × Nat) :=
  let paid := cfg.requestPayment p.1 cfg.accountId request.1 request.2
  if paid.2 = 0 then (paid.1,p.2) else ((cfg.bond paid.1 request.1 paid.2).1,p.2 ++ [(request.1,paid.2)])

def PaysOut (s t : State A N W) : Prop := ∃ world arrears last events, t = {s with
  world:=world,familyArrears:=arrears,lastSettlementBlock:=last,events:=events}

theorem PaysOut.trans (one : PaysOut s t) (two : PaysOut t u) : PaysOut s u := by
  obtain ⟨_,_,_,_,rfl⟩ := one
  obtain ⟨_,_,_,_,rfl⟩ := two
  exact ⟨_,_,_,_,rfl⟩

-- From s to t the world is changed by requests alone, and the payments are what these moved.
structure Pays (cfg : Config A N W) (s t : State A N W) (payments : List (A × Nat)) : Prop where
  moved : ∃ requests : List (A × Nat), ∀ before, requests.foldl (transfer cfg) (s.world,before) = (t.world,before ++ payments)
  reported : ∃ emitted, t.events = s.events ++ emitted ∧ emitted.filterMap paidBy = payments
  frame : PaysOut s t

theorem Pays.trans (one : Pays cfg s t first) (two : Pays cfg t u later) : Pays cfg s u (first ++ later) where
  moved := by
    obtain ⟨asked,moved⟩ := one.moved
    obtain ⟨asked',moved'⟩ := two.moved
    refine ⟨asked ++ asked',?_⟩
    intro before
    rw [foldl_append,moved,moved',append_assoc]
  reported := by
    obtain ⟨emitted,log,paid⟩ := one.reported
    obtain ⟨emitted',log',paid'⟩ := two.reported
    refine ⟨emitted ++ emitted',?_,?_⟩
    · rw [log',log,append_assoc]
    · rw [filterMap_append,paid,paid']
  frame := one.frame.trans two.frame

theorem quiet_pays (frame : PaysOut s t) (world : t.world = s.world) (log : t.events = s.events ++ emitted)
    (silent : emitted.filterMap paidBy = []) : Pays cfg s t [] := by
  refine ⟨⟨[],?_⟩,⟨emitted,log,silent⟩,frame⟩
  intro before
  rw [append_nil,world]
  rfl

def UidsDistinct (s : State A N W) : Prop :=
  ∀ child reg child' reg' uid, s.childRegistrations.lookup child = some reg → s.childRegistrations.lookup child' = some reg' →
    settledUid s (child,reg) = some uid → settledUid s (child',reg') = some uid → child = child'

def dueOf (dues : StorageMap A (Word 128)) (family : A) : Nat := (dues.lookup family).elim 0 Fin.val

end

theorem dueOf_bounded (dues : StorageMap A (Word 128)) (family : A) : dueOf dues family ≤ maxOf 128 := by
  unfold dueOf maxOf
  cases dues.lookup family with
  | none => exact Nat.zero_le _
  | some due => exact Nat.le_sub_one_of_lt due.isLt

theorem dueOf_addDue (dues : StorageMap A (Word 128)) (family other : A) (tokens : Nat) :
    dueOf (addDue dues family tokens) other = min (dueOf dues other + if family = other then tokens else 0) (maxOf 128) := by
  unfold addDue dueOf
  rw [lookup_insert_if]
  by_cases equal : family = other
  · subst equal
    rw [if_pos rfl,if_pos rfl]
    cases dues.lookup family with
    | none | some => rfl
  · rw [if_neg (Ne.symm equal),if_neg equal,Nat.add_zero]
    exact (Nat.min_eq_left (dueOf_bounded dues other)).symm

def settledAccrual (s : State A N W) (price tokenPrice now uid : Nat) : MinerAccrual :=
  ⟨if uidTokens s price tokenPrice now uid = 0 then accrued s uid now else 0,now⟩

theorem tokensFor_zero (price tokenPrice : Nat) : tokensFor 0 price tokenPrice = 0 := by
  unfold tokensFor
  split
  · rfl
  · simp

theorem settleChild_eq (price tokenPrice now : Nat) (p : State A N W × StorageMap A (Word 128))
    (entry : A × ChildRegistration A N) :
    settleChild price tokenPrice now p entry =
      match settledUid p.1 entry with
      | none => p
      | some uid => (withAccruals p.1 (update p.1.minerAccruals uid (some (settledAccrual p.1 price tokenPrice now uid))),
          if uidTokens p.1 price tokenPrice now uid = 0 then p.2 else addDue p.2 entry.2.family (uidTokens p.1 price tokenPrice now uid)) := by
  unfold settleChild settledUid
  by_cases active : entry.2.status = .active
  · simp only [active,ne_eq,not_true_eq_false]
    cases bound : p.1.childMinerUid entry.1 with
    | none => rfl
    | some uid =>
      by_cases zero : uid = 0
      · subst zero
        rfl
      · simp only [storedByteBlocks_accrue,zero,Option.filter_some,decide_not,decide_false,Bool.not_false,if_true,if_false]
        by_cases empty : (accrued p.1 uid now).val = 0
        · have worthless : uidTokens p.1 price tokenPrice now uid = 0 := by
            rw [uidTokens,empty,tokensFor_zero]
          simp only [empty,worthless,settledAccrual]
          rfl
        · by_cases worthless : uidTokens p.1 price tokenPrice now uid = 0
          · have tokens : tokensFor (accrued p.1 uid now) price tokenPrice = 0 := worthless
            simp only [empty,tokens,worthless,settledAccrual]
            rfl
          · have tokens : ¬ tokensFor (accrued p.1 uid now) price tokenPrice = 0 := worthless
            simp only [empty,tokens,worthless,settledAccrual]
            simp [consumeAccrual,accrueMinerBytes,uidTokens,withAccruals]
  · simp [active]

-- The loop over the children, from any point on: every uid it meets is settled once
-- from the accrual it started with, and each family's due grows by what was earned.
theorem settleChildren_spec (price tokenPrice now : Nat) (entries : List (A × ChildRegistration A N))
    (p : State A N W × StorageMap A (Word 128))
    (same : p.1 = withAccruals s p.1.minerAccruals)
    (distinct : (entries.filterMap (settledUid s)).Nodup)
    (untouched : ∀ entry ∈ entries, ∀ uid ∈ settledUid s entry, p.1.minerAccruals uid = s.minerAccruals uid) :
    let q := entries.foldl (settleChild price tokenPrice now) p
    q.1 = withAccruals s q.1.minerAccruals ∧
      (∀ uid, (∀ entry ∈ entries, settledUid s entry ≠ some uid) → q.1.minerAccruals uid = p.1.minerAccruals uid) ∧
      (∀ entry ∈ entries, ∀ uid ∈ settledUid s entry,
        q.1.minerAccruals uid = some (settledAccrual s price tokenPrice now uid)) ∧
      ∀ family, dueOf q.2 family = min (dueOf p.2 family + (entries.map fun entry =>
        if entry.2.family = family then earned s price tokenPrice now entry else 0).sum) (maxOf 128) := by
  induction entries generalizing p with
  | nil =>
    refine ⟨same,fun _ _ => rfl,by simp,?_⟩
    intro family
    exact (Nat.min_eq_left (dueOf_bounded p.2 family)).symm
  | cons entry entries ih =>
    have reads : settledUid p.1 entry = settledUid s entry := settledUid_congr same entry
    cases bound : settledUid s entry with
    | none =>
      have skipped : settleChild price tokenPrice now p entry = p := by
        rw [settleChild_eq,reads,bound]
      rw [filterMap_cons_none bound] at distinct
      obtain ⟨frame,others,settled,dues⟩ := ih p same distinct
        (fun e present => untouched e (mem_cons_of_mem _ present))
      rw [foldl_cons,skipped]
      refine ⟨frame,?_,?_,?_⟩
      · intro uid unread
        exact others uid (fun e present => unread e (mem_cons_of_mem _ present))
      · intro e present uid found
        rcases mem_cons.mp present with rfl | later
        · rw [bound] at found
          cases found
        · exact settled e later uid found
      · intro family
        have nothing : earned s price tokenPrice now entry = 0 := by rw [earned,bound]; rfl
        rw [dues family,map_cons,sum_cons,nothing,ite_self,Nat.zero_add]
    | some uid =>
      rw [filterMap_cons_some bound,nodup_cons] at distinct
      have before : p.1.minerAccruals uid = s.minerAccruals uid := untouched entry mem_cons_self uid bound
      have accrual : accrued p.1 uid now = accrued s uid now := accrued_congr same before now
      have tokens : uidTokens p.1 price tokenPrice now uid = uidTokens s price tokenPrice now uid := by
        rw [uidTokens,accrual,uidTokens]
      have left : settledAccrual p.1 price tokenPrice now uid = settledAccrual s price tokenPrice now uid := by
        rw [settledAccrual,tokens,accrual,settledAccrual]
      have turn : settleChild price tokenPrice now p entry =
          (withAccruals p.1 (update p.1.minerAccruals uid (some (settledAccrual s price tokenPrice now uid))),
            if uidTokens s price tokenPrice now uid = 0 then p.2
            else addDue p.2 entry.2.family (uidTokens s price tokenPrice now uid)) := by
        rw [settleChild_eq,reads,bound]
        simp only [tokens,left]
      have apart : ∀ e ∈ entries, settledUid s e ≠ some uid := by
        intro e present found
        exact distinct.1 (mem_filterMap.mpr ⟨e,present,found⟩)
      obtain ⟨frame,others,settled,dues⟩ := ih (settleChild price tokenPrice now p entry)
        (by rw [turn,same]; rfl) distinct.2 (by
          intro e present other found
          rw [turn]
          have different : other ≠ uid := fun equal => apart e present (equal ▸ found)
          exact (update_of_ne different _ _).trans (untouched e (mem_cons_of_mem _ present) other found))
      rw [foldl_cons]
      refine ⟨frame,?_,?_,?_⟩
      · intro other unread
        rw [others other (fun e present => unread e (mem_cons_of_mem _ present)),turn]
        have different : other ≠ uid := fun equal => unread entry mem_cons_self (equal ▸ bound)
        exact update_of_ne different _ _
      · intro e present other found
        rcases mem_cons.mp present with rfl | later
        · rw [bound] at found
          cases found
          rw [others uid apart,turn]
          exact update_self ..
        · exact settled e later other found
      · intro family
        have worth : earned s price tokenPrice now entry = uidTokens s price tokenPrice now uid := by rw [earned,bound]; rfl
        have grown : dueOf (settleChild price tokenPrice now p entry).2 family =
            min (dueOf p.2 family + if entry.2.family = family then uidTokens s price tokenPrice now uid else 0) (maxOf 128) := by
          rw [turn]
          by_cases worthless : uidTokens s price tokenPrice now uid = 0
          · simp only [worthless,ite_self]
            exact (Nat.min_eq_left (dueOf_bounded p.2 family)).symm
          · simp only [worthless]
            exact dueOf_addDue ..
        rw [dues family,map_cons,sum_cons,worth]
        omega

theorem settledUids_nodup (rank : A → Nat) (distinct : UidsDistinct s) :
    ((s.childRegistrations.iter rank).filterMap (settledUid s)).Nodup := by
  rw [Nodup,pairwise_filterMap]
  have keys := iter_keys_nodup rank s.childRegistrations
  rw [Nodup,pairwise_map] at keys
  refine keys.imp_of_mem ?_
  intro one two first second different uid found uid' found' same
  subst same
  have read := (mem_iter rank s.childRegistrations).mp first
  have read' := (mem_iter rank s.childRegistrations).mp second
  exact different (distinct one.1 one.2 two.1 two.2 uid read read' found found')

theorem addArrears_spec (entries : List (A × Word 128)) (dues : StorageMap A (Word 128)) (family : A) :
    dueOf (entries.foldl addArrears dues) family =
      min (dueOf dues family + (entries.map fun entry => if entry.1 = family then entry.2.val else 0).sum) (maxOf 128) := by
  induction entries generalizing dues with
  | nil => exact (Nat.min_eq_left (dueOf_bounded dues family)).symm
  | cons entry _ ih =>
    have grown : dueOf (addArrears dues entry) family =
        min (dueOf dues family + if entry.1 = family then entry.2.val else 0) (maxOf 128) := by
      unfold addArrears
      by_cases empty : entry.2 = 0
      · have zero : entry.2.val = 0 := congrArg Fin.val empty
        rw [if_pos empty,zero,ite_self]
        exact (Nat.min_eq_left (dueOf_bounded dues family)).symm
      · rw [if_neg empty]
        exact dueOf_addDue ..
    rw [foldl_cons,ih,grown,map_cons,sum_cons]
    omega

theorem paidTo_append (family : A) (one two : List (A × Nat)) :
    paidTo family (one ++ two) = paidTo family one + paidTo family two := by
  simp [paidTo]

theorem arrears_record (s : State A N W) (family other : A) (owing : Word 128) :
    arrears (recordArrears s family owing) other = if other = family then owing.val else arrears s other := by
  unfold arrears recordArrears
  by_cases empty : owing = 0
  · simp only [empty,if_true,lookup_erase_if]
    split <;> rfl
  · simp only [empty,if_false,lookup_insert_if]
    split <;> rfl

theorem payFamily_spec (cfg : Config A N W) (pool totalDue : Nat) (p : Payments A N W) (entry : A × Word 128) :
    let q := payFamily cfg pool totalDue p entry
    ∃ payments, Pays cfg p.state q.state payments ∧ paidTotal payments ≤ proRataWide entry.2 pool totalDue ∧
      (∀ family, paidTo family payments = if entry.1 = family then paidTotal payments else 0) ∧
      ∀ family, arrears q.state family = if family = entry.1 then entry.2.val - paidTotal payments else arrears p.state family := by
  simp only [payFamily,payOut]
  generalize proRataWide entry.2 pool totalDue = pay
  by_cases worthless : pay = 0
  · simp only [if_pos worthless,if_true]
    refine ⟨[],quiet_pays ⟨_,_,_,_,rfl⟩ rfl (append_nil _).symm rfl,Nat.zero_le _,?_,?_⟩
    · exact fun family => (ite_self _).symm
    · intro family
      rw [arrears_record,subSaturating_val]
      rfl
  simp only [if_neg worthless]
  have within := cfg.requestPayment_le p.state.world cfg.accountId entry.1 pay
  by_cases nothing : (cfg.requestPayment p.state.world cfg.accountId entry.1 pay).2 = 0
  · simp only [nothing,if_true]
    refine ⟨[],⟨⟨[(entry.1,pay)],?_⟩,⟨[],(append_nil _).symm,rfl⟩,⟨_,_,_,_,rfl⟩⟩,Nat.zero_le _,?_,?_⟩
    · intro before
      rw [append_nil,foldl_cons,foldl_nil,transfer,if_pos nothing]
      rfl
    · exact fun family => (ite_self _).symm
    · intro family
      rw [arrears_record,subSaturating_val]
      rfl
  · simp only [if_neg nothing]
    refine ⟨[(entry.1,_)],⟨⟨[(entry.1,pay)],?_⟩,⟨[_],rfl,rfl⟩,⟨_,_,_,_,rfl⟩⟩,within,?_,?_⟩
    · intro before
      rw [foldl_cons,foldl_nil,transfer,if_neg nothing]
      rfl
    · intro family
      exact Nat.add_zero _
    · intro family
      exact (arrears_record _ entry.1 family _).trans (by rw [subSaturating_val]; rfl)

theorem payFamilies_spec (cfg : Config A N W) (pool totalDue : Nat) (entries : List (A × Word 128))
    (p : Payments A N W) (distinct : (entries.map Prod.fst).Nodup) :
    let q := entries.foldl (payFamily cfg pool totalDue) p
    ∃ payments, Pays cfg p.state q.state payments ∧
      (∀ family, family ∉ entries.map Prod.fst → paidTo family payments = 0 ∧ arrears q.state family = arrears p.state family) ∧
      (∀ entry ∈ entries, paidTo entry.1 payments + arrears q.state entry.1 = entry.2.val) ∧
      paidTotal payments ≤ (entries.map fun entry => proRataWide entry.2 pool totalDue).sum := by
  induction entries generalizing p with
  | nil => exact ⟨[],quiet_pays ⟨_,_,_,_,rfl⟩ rfl (append_nil _).symm rfl,fun _ _ => ⟨rfl,rfl⟩,by simp,le_rfl⟩
  | cons entry _ ih =>
    rw [map_cons,nodup_cons] at distinct
    obtain ⟨first,pays,within,shares,owing⟩ := payFamily_spec cfg pool totalDue p entry
    obtain ⟨later,pays',others,settled,bounded⟩ := ih (payFamily cfg pool totalDue p entry) distinct.2
    refine ⟨first ++ later,pays.trans pays',?_,?_,?_⟩
    · intro family absent
      rw [map_cons,mem_cons,not_or] at absent
      obtain ⟨nothing,same⟩ := others family absent.2
      constructor
      · rw [paidTo_append,nothing,shares family,if_neg (Ne.symm absent.1)]
      · rw [foldl_cons,same,owing family,if_neg absent.1]
    · intro e present
      rcases mem_cons.mp present with rfl | rest
      · obtain ⟨nothing,same⟩ := others e.1 distinct.1
        have fits : paidTotal first ≤ e.2.val := within.trans (proRataWide_le ..)
        rw [paidTo_append,shares e.1,if_pos rfl,foldl_cons,same,owing e.1,if_pos rfl]
        omega
      · have different : entry.1 ≠ e.1 := by
          intro equal
          exact distinct.1 (equal ▸ mem_map_of_mem rest)
        rw [paidTo_append,shares e.1,if_neg different,Nat.zero_add,foldl_cons]
        exact settled e rest
    · rw [paidTotal_append]
      exact Nat.add_le_add within bounded

-- What the two collecting loops have reached: only accruals differ from s, each uid
-- met is settled, and a family's due is its arrears and what its children have earned,
-- up to the width of a token amount.
structure Collected (cfg : Config A N W) (s settled : State A N W) (now : Nat)
    (dues : StorageMap A (Word 128)) : Prop where
  frame : settled = withAccruals s settled.minerAccruals
  others : ∀ uid, (∀ child reg, s.childRegistrations.lookup child = some reg → settledUid s (child,reg) ≠ some uid) →
    settled.minerAccruals uid = s.minerAccruals uid
  uids : ∀ child reg uid, s.childRegistrations.lookup child = some reg → settledUid s (child,reg) = some uid →
    settled.minerAccruals uid = some (settledAccrual s s.minerPriceUsdPerGbBlock (cfg.tokenPriceUsd s.world) now uid)
  due : ∀ family, dueOf dues family = min (arrears s family + owed cfg s now family) (maxOf 128)

theorem settlement_collects (cfg : Config A N W) (s : State A N W) (now : Nat)
    (distinct : UidsDistinct s) :
    let settled := (s.childRegistrations.iter cfg.registrationRank).foldl
      (settleChild s.minerPriceUsdPerGbBlock (cfg.tokenPriceUsd s.world) now) (s,∅)
    Collected cfg s settled.1 now ((settled.1.familyArrears.iter cfg.arrearsRank).foldl addArrears settled.2) := by
  intro settled
  obtain ⟨frame,others,uids,dues⟩ := settleChildren_spec (s := s) s.minerPriceUsdPerGbBlock (cfg.tokenPriceUsd s.world) now
    (s.childRegistrations.iter cfg.registrationRank) (s,∅) rfl (settledUids_nodup cfg.registrationRank distinct)
    (fun _ _ _ _ => rfl)
  refine ⟨frame,?_,?_,?_⟩
  · intro uid unread
    exact others uid (fun entry present => unread entry.1 entry.2 ((mem_iter _ _).mp present))
  · intro child reg uid found bound
    exact uids (child,reg) ((mem_iter _ _).mpr found) uid bound
  · intro family
    have kept : settled.1.familyArrears = s.familyArrears := by
      rw [frame]
      rfl
    have children := sum_iter cfg.registrationRank (fun child reg =>
      if reg.family = family then earned s s.minerPriceUsdPerGbBlock (cfg.tokenPriceUsd s.world) now (child,reg) else 0)
      s.childRegistrations
    have carried := sum_iter cfg.arrearsRank
      (fun other (owing : Word 128) => if other = family then owing.val else 0) s.familyArrears
    have own := total_single (fun _ : A => (Fin.val : Word 128 → Nat)) s.familyArrears family
    have empty : dueOf (∅ : StorageMap A (Word 128)) family = 0 := rfl
    rw [addArrears_spec,kept,carried,own,dues family,children,empty,owed,arrears]
    omega

theorem owed_zero (worthless : ∀ uid, uidTokens s s.minerPriceUsdPerGbBlock (cfg.tokenPriceUsd s.world) now uid = 0)
    (family : A) : owed cfg s now family = 0 := by
  have nothing : ∀ entry, earned s s.minerPriceUsdPerGbBlock (cfg.tokenPriceUsd s.world) now entry = 0 := by
    intro entry
    unfold earned
    cases settledUid s entry with
    | none => rfl
    | some uid => exact worthless uid
  simp [owed,nothing,total]

structure Conserves (cfg : Config A N W) (s t : State A N W) (now : Nat)
    (payments : List (A × Nat)) : Prop where
  pays : Pays cfg (withAccruals s t.minerAccruals) t payments
  paid : ∀ family, paidTo family payments ≤ arrears s family + owed cfg s now family
  exact : ∀ family, arrears s family + owed cfg s now family < 2 ^ 128 →
    paidTo family payments + arrears t family = arrears s family + owed cfg s now family
  pool : paidTotal payments ≤ cfg.available s.world
  consumed : ∀ child reg uid, s.childRegistrations.lookup child = some reg → settledUid s (child,reg) = some uid →
    uidTokens s s.minerPriceUsdPerGbBlock (cfg.tokenPriceUsd s.world) now uid ≠ 0 → t.minerAccruals uid = some ⟨0,now⟩
  kept : ∀ child reg uid, s.childRegistrations.lookup child = some reg → settledUid s (child,reg) = some uid →
    uidTokens s s.minerPriceUsdPerGbBlock (cfg.tokenPriceUsd s.world) now uid = 0 → accrued t uid now = accrued s uid now
  untouched : ∀ uid, (∀ child reg, s.childRegistrations.lookup child = some reg → settledUid s (child,reg) ≠ some uid) →
    t.minerAccruals uid = s.minerAccruals uid

theorem skipped_conserves (skipped : s.minerPriceUsdPerGbBlock = 0 ∨ cfg.tokenPriceUsd s.world = 0)
    (reason : SettlementSkipReason) :
    Conserves cfg s (depositEvent s (.minerPaymentSkipped reason)) now [] := by
  have worthless := unpaid_worthless skipped now
  have nothing := owed_zero worthless
  refine ⟨quiet_pays ⟨_,_,_,_,rfl⟩ rfl rfl rfl,?_,?_,Nat.zero_le _,?_,fun _ _ _ _ _ _ => rfl,fun _ _ => rfl⟩
  · intro family
    exact Nat.zero_le _
  · intro family _
    rw [nothing family]
    exact Nat.zero_add _
  · intro child reg uid _ _ worth
    exact absurd (worthless uid) worth

theorem paid_conserves {settled : State A N W} {dues : StorageMap A (Word 128)}
    (collected : Collected cfg s settled now dues) (pays : Pays cfg settled t payments)
    (split : ∀ family, arrears t family + paidTo family payments = dueOf dues family)
    (bounded : paidTotal payments ≤ cfg.available s.world) : Conserves cfg s t now payments := by
  have accruals : t.minerAccruals = settled.minerAccruals := by
    obtain ⟨_,_,_,_,rfl⟩ := pays.frame
    rfl
  refine ⟨?_,?_,?_,bounded,?_,?_,?_⟩
  · rw [accruals,← collected.frame]
    exact pays
  · intro family
    have due := split family
    have limit := collected.due family
    omega
  · intro family fits
    have due := split family
    have limit := collected.due family
    unfold maxOf at limit
    omega
  · intro child reg uid found bound worth
    rw [accruals,collected.uids child reg uid found bound,settledAccrual,if_neg worth]
  · intro child reg uid found bound worthless
    have left := collected.uids child reg uid found bound
    rw [settledAccrual,if_pos worthless,← accruals] at left
    exact accrued_current left
  · intro uid unread
    rw [accruals]
    exact collected.others uid unread

theorem unowed_arrears {settled : State A N W} {dues : StorageMap A (Word 128)}
    (collected : Collected cfg s settled now dues) (unowed : dueOf dues family = 0) : arrears settled family = 0 := by
  have due := collected.due family
  have kept : arrears settled family = arrears s family := by
    rw [collected.frame]
    rfl
  unfold maxOf at due
  omega

theorem owing_le (dues : StorageMap A (Word 128)) (family : A) (rank : A → Nat) :
    dueOf dues family ≤ ((dues.iter rank).map fun entry => entry.2.val).sum := by
  have summed := sum_iter rank (fun (_ : A) (due : Word 128) => due.val) dues
  rw [summed,dueOf]
  cases found : dues.lookup family with
  | none => exact Nat.zero_le _
  | some due => exact StorageMap.le_total (fun _ due => due.val) dues found

theorem payFamilies_split (collected : Collected cfg s settled now dues) :
    let total := sumDues ((dues.iter cfg.accountRank).map fun entry => entry.2.val)
    let q := (dues.iter cfg.accountRank).foldl (payFamily cfg (min (cfg.available settled.world) (maxOf 128)) total) ⟨settled,0,0⟩
    ∃ payments, Pays cfg settled q.state payments ∧
      (∀ family, arrears q.state family + paidTo family payments = dueOf dues family) ∧
      paidTotal payments ≤ cfg.available s.world := by
  intro total q
  obtain ⟨payments,pays,absent,present,within⟩ := payFamilies_spec cfg (min (cfg.available settled.world) (maxOf 128))
    total (dues.iter cfg.accountRank) ⟨settled,0,0⟩ (iter_keys_nodup cfg.accountRank dues)
  have world : settled.world = s.world := by
    rw [collected.frame]
    rfl
  refine ⟨payments,pays,?_,?_⟩
  · intro family
    cases found : dues.lookup family with
    | none =>
      have outside : family ∉ (dues.iter cfg.accountRank).map Prod.fst := by
        intro listed
        obtain ⟨entry,mem,rfl⟩ := mem_map.mp listed
        rw [(mem_iter cfg.accountRank dues).mp mem] at found
        cases found
      obtain ⟨silent,same⟩ := absent family outside
      have unowed : dueOf dues family = 0 := by
        rw [dueOf,found]
        rfl
      rw [silent,same,unowed_arrears collected unowed,unowed]
    | some due =>
      have paid := present (family,due) ((mem_iter cfg.accountRank dues).mpr found)
      rw [dueOf,found,Nat.add_comm]
      exact paid
  · have fits := proRataShares_le ((dues.iter cfg.accountRank).map fun entry => entry.2.val)
      (min (cfg.available settled.world) (maxOf 128)) (by
        intro due listed
        obtain ⟨entry,_,rfl⟩ := mem_map.mp listed
        exact entry.2.isLt) (by
        unfold maxOf
        omega)
    rw [map_map] at fits
    rw [← world]
    exact (within.trans fits).trans (Nat.min_le_left _ _)

theorem settleMinerPayments_conserves (cfg : Config A N W) (s : State A N W) (now : Nat) (distinct : UidsDistinct s) :
    ∃ payments, Conserves cfg s (settleMinerPayments cfg s now) now payments := by
  by_cases free : s.minerPriceUsdPerGbBlock = 0
  · have skips : settleMinerPayments cfg s now = depositEvent s (.minerPaymentSkipped .priceUnset) := by
      rw [settleMinerPayments,if_pos free]
    rw [skips]
    exact ⟨[],skipped_conserves (.inl free) .priceUnset⟩
  by_cases unpriced : cfg.tokenPriceUsd s.world = 0
  · have skips : settleMinerPayments cfg s now = depositEvent s (.minerPaymentSkipped .tokenPriceUnavailable) := by
      simp only [settleMinerPayments,if_neg free,if_pos unpriced]
    rw [skips]
    exact ⟨[],skipped_conserves (.inr unpriced) .tokenPriceUnavailable⟩
  simp only [settleMinerPayments,if_neg free,if_neg unpriced]
  have collected := settlement_collects cfg s now distinct
  generalize (s.childRegistrations.iter cfg.registrationRank).foldl
    (settleChild s.minerPriceUsdPerGbBlock (cfg.tokenPriceUsd s.world) now) (s,∅) = settled at *
  dsimp only at collected
  generalize (settled.1.familyArrears.iter cfg.arrearsRank).foldl addArrears settled.2 = dues at *
  by_cases nothing : sumDues ((dues.iter cfg.accountRank).map fun entry => entry.2.val) = 0
  · rw [if_pos nothing]
    refine ⟨[],paid_conserves collected (quiet_pays ⟨_,_,_,_,rfl⟩ rfl (append_nil _).symm rfl) ?_ (Nat.zero_le _)⟩
    intro family
    have bound := owing_le dues family cfg.accountRank
    have unowed : dueOf dues family = 0 := by
      rw [sumDues_eq] at nothing
      unfold maxOf at nothing
      omega
    have settledUp := unowed_arrears collected unowed
    rw [unowed]
    exact settledUp
  · rw [if_neg nothing]
    obtain ⟨payments,pays,split,bounded⟩ := payFamilies_split collected
    generalize (dues.iter cfg.accountRank).foldl (payFamily cfg (min (cfg.available settled.1.world) (maxOf 128))
      (sumDues ((dues.iter cfg.accountRank).map fun entry => entry.2.val))) ⟨settled.1,0,0⟩ = q at *
    refine ⟨payments,paid_conserves collected ?_ split bounded⟩
    rw [← append_nil payments]
    exact pays.trans (quiet_pays ⟨_,_,_,_,rfl⟩ rfl rfl rfl)

theorem settlement_conserves (cfg : Config A N W) (s : State A N W) (now : Nat) (distinct : UidsDistinct s) :
    ∃ payments, Conserves cfg s (settleMinerPayments cfg s now) now payments :=
  settleMinerPayments_conserves cfg s now distinct

theorem uidsDistinct_of_injective
    (injective : ∀ child child' uid, s.childMinerUid child = some uid → s.childMinerUid child' = some uid → child = child') :
    UidsDistinct s := by
  intro child reg child' reg' uid _ _ settles settles'
  exact injective child child' uid (settledUid_bound settles) (settledUid_bound settles')

def plainConfig : Config Nat Nat Nat where
  isAdmin := fun _ => true
  isMapAuthority := fun _ => true
  isStatsAuthority := fun _ => true
  enforceRegisteredMinersInMap := false
  epochCrushMapRetention := 100
  maxFamilies := 600
  maxChildrenTotal := 1000
  maxChildrenPerFamily := 35
  baseChildDeposit := 10
  globalDepositHalvingPeriodBlocks := 14400
  unregisterCooldownBlocks := 7200
  unbondingPeriodBlocks := 100800
  minerStatsPruneInterval := 100
  minerStatsPruneMaxScanPerBlock := 128
  settlementInterval := 14400
  accountId := 0
  encodeAccount := leBytes 32
  encodeNode := leBytes 32
  verifyNodeSig := fun _ _ _ => true
  mapRoot := fun _ _ => []
  registrationRank := fun child => child
  arrearsRank := fun family => family
  accountRank := fun family => family
  uidRank := fun uid => uid
  isRegisteredFamily := fun _ _ => true
  canRegisterChild := fun _ _ _ => true
  primaryAccount := fun _ _ => none
  registeredNodeType := fun _ _ => some .validator
  unregisterMainNode := fun purse _ => purse
  reserve := fun purse _ _ => some purse
  unreserve := fun purse _ _ => (purse,0)
  tokenPriceUsd := fun _ => e18
  available := fun purse => purse
  requestPayment := fun purse _ _ amount => (purse - min purse amount,min purse amount)
  requestPayment_le := fun _ _ _ _ => Nat.min_le_right _ _
  bond := fun purse _ _ => (purse,true)

-- Two Active children of family 1, each with 2 ^ 30 byte-blocks on its uid at a price
-- of three tokens; the purse holds 5.
def accruedChildren (uid uid' : Nat) : State Nat Nat Nat :=
  {genesis 5 with
    minerPriceUsdPerGbBlock:=3
    childRegistrations:=(AList.insert 21 ⟨1,31,.active,0,0⟩ (AList.insert 22 ⟨1,32,.active,0,0⟩ ∅))
    childMinerUid:=fun child => if child = 21 then some uid else if child = 22 then some uid' else none
    minerAccruals:=fun key => if key = uid ∨ key = uid' then some ⟨1073741824,10⟩ else none}

-- When both hold uid 7, its byte-blocks are settled for the first child only, while
-- either child's accrual is worth three tokens.
theorem settlement_shared_uid :
    owed plainConfig (accruedChildren 7 7) 10 1 = 6 ∧ arrears (accruedChildren 7 7) 1 = 0 ∧
      paidTo 1 ((settleMinerPayments plainConfig (accruedChildren 7 7) 10).events.filterMap paidBy) +
        arrears (settleMinerPayments plainConfig (accruedChildren 7 7) 10) 1 = 3 := by
  decide +kernel

theorem settlement_conserves_shortfall :
    owed plainConfig (accruedChildren 7 8) 10 1 = 6 ∧ arrears (settleMinerPayments plainConfig (accruedChildren 7 8) 10) 1 = 1 ∧
      ∃ payments, Conserves plainConfig (accruedChildren 7 8) (settleMinerPayments plainConfig (accruedChildren 7 8) 10) 10 payments := by
  refine ⟨by decide +kernel,by decide +kernel,settlement_conserves plainConfig (accruedChildren 7 8) 10 ?_⟩
  apply uidsDistinct_of_injective
  intro child child' uid bound bound'
  simp only [accruedChildren] at bound bound'
  grind

end TheBrain.Arion
