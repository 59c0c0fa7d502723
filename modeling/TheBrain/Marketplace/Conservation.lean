import TheBrain.Marketplace.PrepaidValue
import TheBrain.Marketplace.RenewalHistory
import TheBrain.Marketplace.UsageRuns

-- Subscriptions do not create credits: what an account holds in credits and in prepaid
-- cycles does not grow by what is done to its subscriptions.
namespace TheBrain.Marketplace.Subscriptions
open Library Machine Words Calendar Relation List

section
variable {A H B : Type} {s t : State A H B} {rows : List (UserPlanSubscription A H)}

def heldIn (s : State A H B) (rows : List (UserPlanSubscription A H)) : Nat :=
  ((rows.filter fun sub => sub.active).map (valueOf s)).sum

def AllPlaced (s : State A H B) (rows : List (UserPlanSubscription A H)) : Prop :=
  ∀ sub ∈ rows, ∃ anchor month, Placed s sub anchor month

def worth (s : State A H B) (sub : UserPlanSubscription A H) : Nat :=
  if sub.active then valueOf s sub else 0

theorem sum_filter (p : α → Bool) (f : α → Nat) (list : List α) :
    ((list.filter p).map f).sum = (list.map fun a => if p a then f a else 0).sum := by
  induction list with
  | nil => rfl
  | cons _ _ ih =>
    rw [map_cons,sum_cons,← ih,filter_cons]
    split
    · rfl
    · rw [Nat.zero_add]

theorem heldIn_worth (s : State A H B) (rows : List (UserPlanSubscription A H)) :
    heldIn s rows = (rows.map (worth s)).sum := sum_filter UserPlanSubscription.active (valueOf s) rows

theorem heldIn_active (s : State A H B) (rows : List (UserPlanSubscription A H)) :
    heldIn s (rows.filter fun sub => sub.active) = heldIn s rows := by
  rw [heldIn,heldIn,filter_filter]
  simp only [Bool.and_self]

theorem heldIn_append (s : State A H B) (one two : List (UserPlanSubscription A H)) :
    heldIn s (one ++ two) = heldIn s one + heldIn s two := by
  rw [heldIn_worth,heldIn_worth,heldIn_worth,map_append,sum_append]

theorem heldIn_cons (s : State A H B) (sub : UserPlanSubscription A H)
    (rows : List (UserPlanSubscription A H)) : heldIn s (sub :: rows) = worth s sub + heldIn s rows := by
  rw [heldIn_worth,heldIn_worth,map_cons,sum_cons]

theorem Aside.valueOf (same : Aside s t log) : Subscriptions.valueOf t = Subscriptions.valueOf s := by
  funext sub
  exact valueOf_same same.today (congrFun same.stored.1 sub.id) rfl rfl

theorem Aside.placed (same : Aside s t log) (placed : AllPlaced s rows) : AllPlaced t rows := by
  intro sub mem
  obtain ⟨anchor,month,here⟩ := placed sub mem
  exact ⟨anchor,month,here.same same.today rfl (congrFun same.stored.1 sub.id) rfl rfl⟩

theorem heldIn_same (day : currentUnixDay t = currentUnixDay s)
    (anchors : ∀ sub ∈ rows, t.subscriptionAnchorDay sub.id = s.subscriptionAnchorDay sub.id) :
    heldIn t rows = heldIn s rows ∧ (AllPlaced s rows → AllPlaced t rows) := by
  refine ⟨?_,?_⟩
  · refine congrArg sum (map_congr_left fun sub mem => ?_)
    exact valueOf_same day (anchors sub (mem_of_mem_filter mem)) rfl rfl
  · intro placed sub mem
    obtain ⟨anchor,month,here⟩ := placed sub mem
    exact ⟨anchor,month,here.same day rfl (anchors sub mem) rfl rfl⟩

theorem bulkRefund_le (s : State A H B) (subs : List (UserPlanSubscription A H)) :
    bulkRefund s subs ≤ heldIn s (subs.filter fun sub => sub.package.isAnyStorage) := by
  have folded : ∀ (rows : List (UserPlanSubscription A H)) start,
      rows.foldl (fun refunded sub => saturatingAdd 128 refunded (unusedPrepaidRefundCredits s sub)) start ≤
        start + (rows.map (valueOf s)).sum := by
    intro rows
    induction rows with
    | nil => exact fun start => le_rfl
    | cons sub _ ih =>
      intro start
      have added : saturatingAdd 128 start (unusedPrepaidRefundCredits s sub) ≤ start + unusedPrepaidRefundCredits s sub := saturatingAdd_le
      have part : unusedPrepaidRefundCredits s sub ≤ valueOf s sub := Nat.le_add_right _ _
      rw [foldl_cons,map_cons,sum_cons]
      have later := ih (saturatingAdd 128 start (unusedPrepaidRefundCredits s sub))
      omega
  have whole := folded (subs.filter fun sub => sub.package.isAnyStorage && sub.active) 0
  rw [Nat.zero_add] at whole
  rw [heldIn,filter_filter]
  simpa only [bulkRefund,Bool.and_comm] using whole

variable [DecidableEq A] [DecidableEq H]

theorem billedRow_worth (paid unpaid : List (UserPlanSubscription A H)) (placed : ∃ anchor month, Placed s sub anchor month)
    (due : sub ∈ paid → isDue (currentUnixDay s) sub = true) (today now : Nat) :
    (∃ anchor month, Placed s (billedRow s today now paid unpaid sub) anchor month) ∧
      worth s (billedRow s today now paid unpaid sub) ≤ worth s sub + if sub ∈ paid then priceOf sub else 0 := by
  obtain ⟨anchor,month,placed⟩ := placed
  rw [billedRow]
  split
  next pays =>
    have reached := due pays
    rw [isDue,placed.due] at reached
    obtain ⟨anchor,month,moved,bounded⟩ := placed.advance (of_decide_eq_true reached) today now
    refine ⟨⟨anchor,month,moved⟩,?_⟩
    rw [worth]
    split
    · exact bounded.trans (Nat.le_add_left _ _)
    · exact Nat.zero_le _
  · split
    · exact ⟨⟨anchor,month,placed.same rfl rfl rfl rfl rfl⟩,Nat.zero_le _⟩
    · exact ⟨⟨anchor,month,placed⟩,Nat.le_add_right _ _⟩

theorem billed_held {p q : Renewal A H B} {paid unpaid : List (UserPlanSubscription A H)}
    (billed : Billed who (currentUnixDay p.state) now p q paid unpaid) (distinct : (p.subs.map fun sub => sub.id).Nodup)
    (placed : AllPlaced p.state p.subs) :
    AllPlaced q.state q.subs ∧ heldIn q.state q.subs ≤ heldIn p.state p.subs + (paid.map priceOf).sum := by
  have due : ∀ sub ∈ paid, sub ∈ p.subs ∧ isDue (currentUnixDay p.state) sub = true := by
    intro sub mem
    obtain ⟨listed,charged⟩ := List.mem_filter.mp (billed.parts.mem_iff.mp (List.mem_append_left unpaid mem))
    exact ⟨listed,((Bool.and_eq_true _ _).mp charged).2⟩
  have each := fun sub (mem : sub ∈ p.subs) =>
    billedRow_worth paid unpaid (placed sub mem) (fun pays => (due sub pays).2) (currentUnixDay p.state) now
  refine ⟨billed.pays.aside.placed ?_,?_⟩
  · rw [billed.rows]
    intro row mem
    obtain ⟨sub,listed,rfl⟩ := List.mem_map.mp mem
    exact (each sub listed).1
  · have all : (p.subs.filter fun sub => sub ∈ paid).Perm paid := by
      refine (List.perm_ext_iff_of_nodup ((List.Nodup.of_map _ distinct).filter _) (List.nodup_append.mp billed.distinct).1).mpr ?_
      intro sub
      rw [List.mem_filter,decide_eq_true_eq]
      exact ⟨And.right,fun pays => ⟨(due sub pays).1,pays⟩⟩
    have spent : (p.subs.map fun sub => if sub ∈ paid then priceOf sub else 0).sum = (paid.map priceOf).sum := by
      rw [← (all.map priceOf).sum_eq,sum_filter]
      simp only [decide_eq_true_eq]
    rw [heldIn,billed.pays.aside.valueOf,← heldIn,heldIn_worth,heldIn_worth,billed.rows,List.map_map,← spent,← List.sum_map_add]
    exact List.sum_le_sum fun sub mem => (each sub mem).2

theorem catchUp_held (cfg : Config A H B) (who : A) (now rounds : Nat) (p : Renewal A H B)
    (day : currentUnixDay p.state = today) (distinct : (p.subs.map fun sub => sub.id).Nodup) (placed : AllPlaced p.state p.subs) :
    let q := catchUp cfg who today now rounds p
    ∃ charge log, Pays p.state q.state who charge 0 log ∧ Descends p.subs q.subs ∧ AllPlaced q.state q.subs ∧
      heldIn q.state q.subs ≤ heldIn p.state p.subs + charge := by
  induction rounds generalizing p with
  | zero => exact ⟨0,[],.refl p.state who,.refl p.subs,placed,le_rfl⟩
  | succ _ ih =>
    subst day
    obtain ⟨_,_,billed⟩ := round_billed cfg who now p distinct
    obtain ⟨moved,_⟩ := billed_held billed distinct placed
    have descends := billed_descends billed
    have once : ((round cfg who (currentUnixDay p.state) now p).subs.map fun sub => sub.id).Nodup := by
      rw [descends.ids]
      exact distinct
    obtain ⟨_,_,pays,rows,ends,_⟩ := ih (round cfg who (currentUnixDay p.state) now p) billed.pays.aside.today once moved
    rw [catchUp,Function.iterate_succ_apply,← catchUp]
    exact ⟨_,_,billed.pays.trans pays,descends.trans rows,ends,by omega⟩

end

section
variable {A H B : Type} [DecidableEq A] {s t u : State A H B}
variable {rows : List (UserPlanSubscription A H)}

def held (s : State A H B) (who : A) : Nat := heldIn s (subscriptionsOf s who)

def potential (s : State A H B) (who : A) : Nat := s.freeCredits who + held s who

structure Valid (s : State A H B) : Prop where
  dates : InDates s
  numbered : Numbered s
  placed : ∀ who, AllPlaced s (subscriptionsOf s who)

-- An account is refunded no more than the value it gives up and pays at least for what
-- it gains.
structure Earns (s t : State A H B) (who : A) (charge refund : Nat) : Prop where
  charged : chargedTo t who = chargedTo s who + charge
  refunded : refundedTo t who = refundedTo s who + refund
  free : t.freeCredits who + charge ≤ s.freeCredits who + refund
  value : held t who + refund ≤ held s who + charge

theorem Earns.trans (one : Earns s t who charge refund) (two : Earns t u who later refundLater) :
    Earns s u who (charge + later) (refund + refundLater) := by
  have free := one.free
  have freeLater := two.free
  have value := one.value
  have valueLater := two.value
  refine ⟨?_,?_,by omega,by omega⟩
  · rw [two.charged,one.charged,Nat.add_assoc]
  · rw [two.refunded,one.refunded,Nat.add_assoc]

theorem Earns.potential (earns : Earns s t who charge refund) : potential t who ≤ potential s who := by
  have free := earns.free
  have value := earns.value
  unfold Subscriptions.potential
  omega

-- With ids left, an operation keeps the state valid and creates no credits.
def Sustains (s t : State A H B) : Prop :=
  t.nextSubscriptionId < maxOf 32 → s.nextSubscriptionId < maxOf 32 ∧
    (Valid s → Valid t ∧ ∀ who, ∃ charge refund, Earns s t who charge refund)

theorem Sustains.refl (s : State A H B) : Sustains s s :=
  fun room => ⟨room,fun valid => ⟨valid,fun _ => ⟨0,0,rfl,rfl,le_rfl,le_rfl⟩⟩⟩

theorem Sustains.trans (one : Sustains s t) (two : Sustains t u) : Sustains s u := by
  intro room
  obtain ⟨middle,second⟩ := two room
  obtain ⟨start,first⟩ := one middle
  refine ⟨start,fun valid => ?_⟩
  obtain ⟨between,earns⟩ := first valid
  obtain ⟨ends,later⟩ := second between
  refine ⟨ends,fun who => ?_⟩
  obtain ⟨_,_,early⟩ := earns who
  obtain ⟨_,_,late⟩ := later who
  exact ⟨_,_,early.trans late⟩

theorem Transacts.clock (acts : Transacts s t who rows issued charge refund log) : t.usage.nowMs = s.usage.nowMs := by
  obtain ⟨_,_,_,_,_,_,_,rfl,_⟩ := acts.only
  rfl

theorem Transacts.today (acts : Transacts s t who rows issued charge refund log) : currentUnixDay t = currentUnixDay s := by
  rw [currentUnixDay,currentUnixDay,acts.clock]

theorem Transacts.keeps (acts : Transacts s t who rows issued charge refund log) (numbered : Numbered s)
    (kept : List (UserPlanSubscription A H)) (old : ∀ sub ∈ kept, sub ∈ subscriptionsOf s who ∧ sub ∈ rows) :
    heldIn t kept = heldIn s kept ∧ (AllPlaced s kept → AllPlaced t kept) := by
  refine heldIn_same acts.today ?_
  intro sub mem
  obtain ⟨listed,stays⟩ := old sub mem
  rw [acts.anchors sub.id (.inl ⟨sub,stays,rfl⟩),if_neg fun fresh => Nat.ne_of_lt (numbered.below who sub listed) fresh.2]

theorem Transacts.bystander (acts : Transacts s t who rows issued charge refund log) (numbered : Numbered s) (apart : other ≠ who) :
    heldIn t (subscriptionsOf s other) = held s other ∧
      (AllPlaced s (subscriptionsOf s other) → AllPlaced t (subscriptionsOf s other)) := by
  refine heldIn_same acts.today ?_
  intro sub mem
  have away := fun own (listed : own ∈ subscriptionsOf s who) => numbered.apart who other (Ne.symm apart) own listed sub mem
  rw [acts.anchors sub.id (.inr away),if_neg fun fresh => Nat.ne_of_lt (numbered.below other sub mem) fresh.2]

theorem Transacts.earns (acts : Transacts s t who rows issued charge refund log) (valid : Valid s) (numbered : Numbered t)
    (placed : AllPlaced t rows) (value : heldIn t rows + refund ≤ held s who + charge) :
    Valid t ∧ ∀ other, ∃ charge refund, Earns s t other charge refund := by
  have dates : InDates t := ⟨acts.clock ▸ valid.dates.positive,acts.clock ▸ valid.dates.inRange⟩
  refine ⟨⟨dates,numbered,?_⟩,?_⟩
  · intro other
    by_cases same : other = who
    · rw [same,acts.stored]
      exact placed
    · rw [acts.others other same]
      exact (acts.bystander valid.numbered same).2 (valid.placed other)
  · intro other
    have charged := acts.charged other
    have refunded := acts.refunded other
    by_cases same : other = who
    · subst same
      rw [if_pos rfl] at charged refunded
      refine ⟨charge,refund,charged,refunded,acts.free,?_⟩
      rw [held,acts.stored]
      exact value
    · rw [if_neg same] at charged refunded
      refine ⟨0,0,charged,refunded,Nat.le_of_eq (acts.otherCredits other same),?_⟩
      rw [held,acts.others other same,(acts.bystander valid.numbered same).1]

theorem Idle.sustains (idle : Idle s t) : Sustains s t := by
  intro room
  have day : currentUnixDay t = currentUnixDay s := by rw [currentUnixDay,currentUnixDay,idle.clock]
  refine ⟨idle.retains.next ▸ room,fun valid => ?_⟩
  have dates : InDates t := ⟨idle.clock ▸ valid.dates.positive,idle.clock ▸ valid.dates.inRange⟩
  have each : ∀ who, AllPlaced t (subscriptionsOf t who) ∧ held t who = held s who := by
    intro who
    obtain ⟨f,rows,same⟩ := idle.retains.rows who
    have moved : ∀ sub ∈ subscriptionsOf s who, (∃ anchor month, Placed t (f sub) anchor month) ∧ worth t (f sub) = worth s sub := by
      intro sub mem
      obtain ⟨anchor,month,here⟩ := valid.placed who sub mem
      have due := (same sub).dated (by rw [here.due]; rfl)
      refine ⟨⟨anchor,month,here.same day (same sub).id (congrFun idle.retains.anchors sub.id) due (same sub).paidPerMonth⟩,?_⟩
      rw [worth,worth,(same sub).active,valueOf_same day ?_ due (same sub).paidPerMonth]
      rw [(same sub).id,idle.retains.anchors]
    refine ⟨?_,?_⟩
    · rw [rows]
      intro row mem
      obtain ⟨sub,listed,rfl⟩ := List.mem_map.mp mem
      exact (moved sub listed).1
    · rw [held,held,rows,heldIn_worth,heldIn_worth,List.map_map]
      exact congrArg List.sum (List.map_congr_left fun sub mem => (moved sub mem).2)
  refine ⟨⟨dates,idle.retains.numbered valid.numbered,fun who => (each who).1⟩,fun who => ?_⟩
  exact ⟨0,0,idle.charged who,idle.refunded who,Nat.le_of_eq (congrFun idle.free who),Nat.le_of_eq (each who).2⟩

theorem Transacts.opens {front back : List (UserPlanSubscription A H)}
    (acts : Transacts s t who (front ++ newSubscription s who plan cycles locationId image :: back) true charge refund log)
    (valid : Valid s) (numbered : Numbered t) (old : ∀ sub ∈ front ++ back, sub ∈ subscriptionsOf s who)
    (bounded : 1 ≤ cycles ∧ cycles ≤ 24) (fits : cycles * paidPerMonth s who plan < 2 ^ 128)
    (value : heldIn s (front ++ back) + cycles * paidPerMonth s who plan + refund ≤ held s who + charge) :
    Valid t ∧ ∀ other, ∃ charge refund, Earns s t other charge refund := by
  have listed : ∀ row, row ∈ front ++ newSubscription s who plan cycles locationId image :: back ↔
      row = newSubscription s who plan cycles locationId image ∨ row ∈ front ++ back := by
    simp only [mem_append,mem_cons]
    tauto
  obtain ⟨same,stay⟩ := acts.keeps valid.numbered (front ++ back) fun sub mem => ⟨old sub mem,(listed sub).mpr (.inr mem)⟩
  have stored := acts.anchors s.nextSubscriptionId (.inl ⟨_,(listed _).mpr (.inl rfl),rfl⟩)
  rw [if_pos ⟨rfl,rfl⟩] at stored
  obtain ⟨anchor,month,placed,bound⟩ := opened_placed valid.dates who plan locationId image bounded fits acts.today stored
  refine acts.earns valid numbered ?_ ?_
  · intro row mem
    rcases (listed row).mp mem with rfl | kept
    · exact ⟨anchor,month,placed⟩
    · exact stay (fun sub here => valid.placed who sub (old sub here)) row kept
  · have worth : worth t (newSubscription s who plan cycles locationId image) ≤ cycles * paidPerMonth s who plan := bound
    rw [heldIn_append] at same
    rw [heldIn_append,heldIn_cons]
    omega

variable [DecidableEq H] {cfg : Config A H B}

theorem visit_sustains (cfg : Config A H B) (s : State A H B) (who : A) (now : Nat) :
    Sustains s (chargeAccountDue cfg s who now) := by
  have numbered := (work_turns (show Work cfg s _ from .visited who now)).numbered
  by_cases active : (subscriptionsOf s who).any (fun sub => sub.active) = true
  · have same : chargeAccountDue cfg s who now = _ := if_pos active
    rw [same] at numbered ⊢
    intro room
    refine ⟨(numbered room).1,fun valid => ?_⟩
    obtain ⟨_,_,pays,_,placed,value⟩ := catchUp_held cfg who now maxCatchupMonths ⟨s,subscriptionsOf s who⟩ rfl
      (valid.numbered.distinct who) (valid.placed who)
    have committed := commit_committed _ who (subscriptionsOf s who)
      (catchUp cfg who (currentUnixDay s) now maxCatchupMonths ⟨s,subscriptionsOf s who⟩).subs (pays.aside.rows who)
    have ids := (numbered room).2 valid.numbered
    generalize catchUp cfg who (currentUnixDay s) now maxCatchupMonths ⟨s,subscriptionsOf s who⟩ = q at pays placed value committed ids
    generalize commitSubscriptions q.state who (subscriptionsOf s who) q.subs = t at committed ids
    have acts := pays.before committed.transacts
    have stored : ∀ sub ∈ q.subs.filter fun sub => sub.active,
        t.subscriptionAnchorDay sub.id = q.state.subscriptionAnchorDay sub.id :=
      fun sub mem => committed.anchors sub.id (.inl ⟨sub,mem,rfl⟩)
    obtain ⟨worth,stay⟩ := heldIn_same committed.transacts.today stored
    refine acts.earns valid ids (stay fun sub mem => placed sub (mem_of_mem_filter mem)) ?_
    rw [worth,heldIn_active]
    exact value
  · have same : chargeAccountDue cfg s who now = s := if_neg active
    rw [same]
    exact .refl s

theorem opened_sustains (known : s.plans key = some plan) (bounded : 1 ≤ cycles ∧ cycles ≤ 24)
    (fits : (plan.price : Nat) * cycles < 2 ^ 128)
    (ran : openSubscription cfg s who plan cycles locationId image = .ok t) : Sustains s t := by
  have numbered := (move_turns (.opened who key plan cycles locationId image known bounded ran)).numbered
  have acts := openSubscription_transacts ran
  have rows : (subscriptionsOf s who ++ [newSubscription s who plan cycles locationId image]).filter (fun sub => sub.active) =
      (subscriptionsOf s who).filter (fun sub => sub.active) ++ [newSubscription s who plan cycles locationId image] := by
    rw [filter_append]
    rfl
  rw [rows] at acts
  have collected := paidPerMonth_covered s who plan cycles fits
  have face : (purchaseCharge s who plan cycles).1 ≤ plan.price * cycles := (Nat.sub_le _ _).trans (PaymentMath.times_le _ _)
  intro room
  refine ⟨(numbered room).1,fun valid => ?_⟩
  refine acts.opens valid ((numbered room).2 valid.numbered) ?_ bounded (by omega) ?_
  · intro sub mem
    rw [append_nil] at mem
    exact mem_of_mem_filter mem
  · rw [append_nil,heldIn_active,← held]
    omega

theorem cancelled_sustains (cfg : Config A H B) (ran : doCancelSubscriptionById s who key = .ok t) : Sustains s t := by
  have numbered := (move_turns (show Move cfg s t from .cancelled who key ran)).numbered
  obtain ⟨sub,rest,found,acts⟩ := doCancelSubscriptionById_ok ran
  obtain ⟨_,active,before,after,split,result⟩ := deactivate_some found
  have rows : rest.filter (fun sub => sub.active) = (before ++ after).filter fun sub => sub.active := by
    rw [result,filter_append,filter_append]
    rfl
  rw [rows] at acts
  intro room
  refine ⟨(numbered room).1,fun valid => ?_⟩
  have old : ∀ row ∈ (before ++ after).filter fun sub => sub.active, row ∈ subscriptionsOf s who := by
    intro row mem
    rw [split]
    rcases mem_append.mp (mem_of_mem_filter mem) with early | late
    · exact mem_append_left _ early
    · exact mem_append_right _ (mem_cons_of_mem _ late)
  obtain ⟨same,stay⟩ := acts.keeps valid.numbered _ fun row mem => ⟨old row mem,mem⟩
  refine acts.earns valid ((numbered room).2 valid.numbered) (stay fun row mem => valid.placed who row (old row mem)) ?_
  have value : worth s sub = unusedPrepaidRefundCredits s sub + remainingCycleValue s sub sub.paidPerMonth := if_pos active
  rw [same,heldIn_active,heldIn_append,held,split,heldIn_append,heldIn_cons]
  omega

theorem deleted_sustains (cfg : Config A H B) (ran : doDeleteStorageSubscriptionWithRefund s who = .ok t) : Sustains s t := by
  have numbered := (move_turns (show Move cfg s t from .deleted who ran)).numbered
  have acts := doDelete_transacts ran
  intro room
  refine ⟨(numbered room).1,fun valid => ?_⟩
  have old : ∀ row ∈ ((subscriptionsOf s who).filter fun sub => !sub.package.isAnyStorage).filter fun sub => sub.active,
      row ∈ subscriptionsOf s who := fun row mem => mem_of_mem_filter (mem_of_mem_filter mem)
  obtain ⟨same,stay⟩ := acts.keeps valid.numbered _ fun row mem => ⟨old row mem,mem⟩
  refine acts.earns valid ((numbered room).2 valid.numbered) (stay fun row mem => valid.placed who row (old row mem)) ?_
  have parts : heldIn s ((subscriptionsOf s who).filter fun sub => sub.package.isAnyStorage) +
      heldIn s ((subscriptionsOf s who).filter fun sub => !sub.package.isAnyStorage) = held s who := by
    rw [← heldIn_append,held,heldIn_worth,heldIn_worth]
    exact ((filter_append_perm (fun sub => sub.package.isAnyStorage) (subscriptionsOf s who)).map (worth s)).sum_eq
  have refund := bulkRefund_le s (subscriptionsOf s who)
  rw [same,heldIn_active]
  omega

-- The refund and the charge of a plan change are netted: the new cycle is worth no more
-- than the rest of the old one and the charge together.
theorem changed_sustains (ran : doChangePlanOfFlavour cfg s who flavour newPlanId = .ok t) : Sustains s t := by
  have numbered := (move_turns (.changed who flavour newPlanId ran)).numbered
  obtain ⟨old,place,newPlan,sole,_,acts⟩ := doChangePlanOfFlavour_ok ran
  obtain ⟨active,_,before,after,split,replaced⟩ := soleActive_ok sole
  have rows : ((subscriptionsOf s who).set place (newSubscription s who newPlan 1 none none)).filter (fun sub => sub.active) =
      before.filter (fun sub => sub.active) ++ newSubscription s who newPlan 1 none none :: after.filter (fun sub => sub.active) := by
    rw [replaced,filter_append]
    rfl
  rw [rows] at acts
  have paid := paidPerMonth_le s who newPlan
  have price := newPlan.price.isLt
  intro room
  refine ⟨(numbered room).1,fun valid => acts.opens valid ((numbered room).2 valid.numbered) ?_ ⟨Nat.le_refl 1,by decide⟩ (by omega) ?_⟩
  · intro sub mem
    rw [split]
    rcases mem_append.mp mem with early | late
    · exact mem_append_left _ (mem_of_mem_filter early)
    · exact mem_append_right _ (mem_cons_of_mem _ (mem_of_mem_filter late))
  · have value : worth s old = unusedPrepaidRefundCredits s old + remainingCycleValue s old old.paidPerMonth := if_pos active
    rw [heldIn_append,heldIn_active,heldIn_active,held,split,heldIn_append,heldIn_cons,changeCharge]
    omega

theorem work_sustains (works : Work cfg s t) : Sustains s t := by
  rcases work_idle works with idle | ⟨who,now,rfl⟩
  · exact idle.sustains
  · exact visit_sustains cfg s who now

def Affordable (s : State A H B) : Call A H B → Prop
  | .purchasePlan _ _ planIds _ _ _ payUpfront =>
    ∀ key ∈ planIds, ∀ plan ∈ s.plans key, (plan.price : Nat) * cyclesPaid (payUpfront.map Fin.val) < 2 ^ 128
  | _ => True

theorem purchasePlan_sustains
    (affordable : ∀ key ∈ planIds, ∀ plan ∈ s.plans key, (plan.price : Nat) * cyclesPaid payUpfront < 2 ^ 128)
    (ran : purchasePlan cfg s origin owner planIds locationIds images cids payUpfront = .ok t) : Sustains s t := by
  simp only [purchasePlan,passes] at ran
  obtain ⟨_,upfront,_,_,_,_,bought⟩ := ran
  have counted : Work cfg s (setRequests s owner ((s.usage.market.userRequestsCount owner + planIds.length) % 2 ^ 32)) :=
    .quiet _ (quiet_same {} rfl)
  refine (foldlM_down (fun rest u => (∀ order ∈ rest, order.1 ∈ planIds) ∧ u.plans = s.plans ∧ Sustains s u) ?_ _ ?_ bought).2.2
  · rintro u order rest v ⟨members,plans,sustains⟩ buys
    obtain ⟨plan,_,_,shown,opened,known,opens,rfl⟩ := purchaseOne_ok buys
    have listed := members order mem_cons_self
    have fits := affordable order.1 listed plan (plans ▸ known)
    have noted : Lists opened (depositEvent opened (.planPurchased owner owner order.1 order.2.1 shown order.2.2.2)) :=
      ⟨rfl,[_],rfl,quiet_alone _ rfl⟩
    refine ⟨fun other mem => members other (mem_cons_of_mem _ mem),?_,
      (sustains.trans (opened_sustains known (cyclesPaid_bounds upfront) fits opens)).trans noted.idle.sustains⟩
    obtain ⟨_,_,_,_,_,_,_,rfl,_⟩ := (openSubscription_transacts opens).only
    exact plans
  · refine ⟨?_,rfl,work_sustains counted⟩
    intro order mem
    exact (of_mem_zip mem).1

theorem dispatch_sustains (own : ∀ c, call ≠ .usage c) (affordable : Affordable s call) (ran : dispatch cfg s call = .ok t) :
    Sustains s t := by
  have change : ∀ origin user flavour newPlanId, dispatchPlanChange cfg s origin user flavour newPlanId = .ok t → Sustains s t := by
    intro origin user flavour newPlanId ran
    simp only [dispatchPlanChange,passes] at ran
    obtain ⟨_,_,changes⟩ := ran
    have counted : Work cfg s (setRequests s user (saturatingAdd 32 (s.usage.market.userRequestsCount user) 1)) :=
      .quiet _ (quiet_same {} rfl)
    exact (work_sustains counted).trans (changed_sustains changes)
  cases call with
  | purchasePlan => exact purchasePlan_sustains affordable ran
  | cancelUserSubscription _ _ subscriptionId =>
    simp only [dispatch,cancelUserSubscription,passes] at ran
    obtain ⟨_,cancels⟩ := ran
    cases subscriptionId with
    | some => exact cancelled_sustains cfg cancels
    | none => exact deleted_sustains cfg cancels
  | changeStoragePlan origin user newPlanId => exact change origin user .drive newPlanId ran
  | changeS3Plan origin user newPlanId => exact change origin user .s3 newPlanId ran
  | setPackageSuspension => exact (setPackageSuspension_lists ran).idle.sustains
  | addNewPlan => exact (addNewPlan_lists ran).idle.sustains
  | setPlanPrice => exact (setPlanPrice_lists ran).idle.sustains
  | removePlan => exact (removePlan_lists ran).idle.sustains
  | configure =>
    cases ran
    exact Idle.sustains ⟨retains_plans rfl rfl rfl rfl,rfl,rfl,fun _ => rfl,fun _ => rfl⟩
  | nextBlock =>
    cases ran
    exact path_keeps (Sustains s) (fun _ _ works sustains => sustains.trans (work_sustains works)) (onInitialize_works cfg s _) (.refl s)
  | usage call => exact absurd rfl (own call)

theorem usage_valid (call : Usage.Call A H B) (valid : Valid s) (dates : InDates (step cfg s (.usage call))) :
    Valid (step cfg s (.usage call)) ∧ ∀ who, held (step cfg s (.usage call)) who ≤ held s who := by
  have later : currentUnixDay s ≤ currentUnixDay (step cfg s (.usage call)) := by
    rw [valid.dates.today,dates.today]
    exact Nat.div_le_div_right (Usage.step_clock cfg.usage s.usage call)
  refine ⟨⟨dates,valid.numbered.sameIds (fun _ => rfl) rfl,?_⟩,?_⟩
  · intro who sub mem
    obtain ⟨anchor,month,placed⟩ := valid.placed who sub mem
    exact ⟨anchor,month,(placed.later later rfl).1⟩
  · intro who
    refine sum_le_sum fun sub mem => ?_
    obtain ⟨_,_,placed⟩ := valid.placed who sub (mem_of_mem_filter mem)
    exact (placed.later later rfl).2

structure Regular (cfg : Config A H B) (s : State A H B) (call : Call A H B) :
    Prop where
  before : InDates s
  after : InDates (step cfg s call)
  affordable : Affordable s call

def onSubscriptions : Call A H B → Bool
  | .usage (.advanceClock _) => true
  | .usage _ => false
  | _ => true

def settlement (cfg : Config A H B) (who : A) (s : State A H B) (call : Call A H B) : List (Nat × Nat) :=
  if onSubscriptions call then
    [(chargedTo (step cfg s call) who - chargedTo s who,refundedTo (step cfg s call) who - refundedTo s who)]
  else []

theorem step_earns (valid : Valid s) (regular : Regular cfg s call) (room : (step cfg s call).nextSubscriptionId < maxOf 32) :
    Valid (step cfg s call) ∧
      (onSubscriptions call = true → ∀ who, ∃ charge refund, Earns s (step cfg s call) who charge refund) ∧
      (onSubscriptions call = false → ∀ who, held (step cfg s call) who ≤ held s who) := by
  by_cases own : ∃ c, call = .usage c
  · obtain ⟨c,rfl⟩ := own
    obtain ⟨fine,less⟩ := usage_valid c valid regular.after
    refine ⟨fine,?_,fun _ => less⟩
    cases c with
    | advanceClock => exact fun _ who => ⟨0,0,rfl,rfl,le_rfl,less who⟩
    | _ => exact fun never => Bool.noConfusion never
  · have sustains : Sustains s (step cfg s call) :=
      commit_inv (Sustains s) (.refl s) fun t ran => dispatch_sustains (not_exists.mp own) regular.affordable ran
    obtain ⟨fine,earns⟩ := (sustains room).2 valid
    refine ⟨fine,fun _ => earns,?_⟩
    cases call with
    | usage c => exact absurd ⟨c,rfl⟩ own
    | _ => exact fun never => Bool.noConfusion never

omit [DecidableEq H] in
theorem genesis_valid (usage : Usage.State A H B) (settings : Settings A)
    (dates : InDates (genesis usage settings)) : Valid (genesis usage settings) :=
  ⟨dates,⟨fun _ => nodup_nil,nofun,nofun⟩,nofun⟩

structure Balanced (who : A) (p : State A H B × List (Nat × Nat)) : Prop where
  valid : InDates p.1 → Valid p.1
  value : held p.1 who + (p.2.map Prod.snd).sum ≤ (p.2.map Prod.fst).sum

theorem step_balanced (cfg : Config A H B) (who : A) (p : State A H B × List (Nat × Nat))
    (call : Call A H B) (balanced : Balanced who p)
    (fits : Regular cfg p.1 call ∧ (step cfg p.1 call).nextSubscriptionId < maxOf 32) :
    Balanced who (recording (step cfg) (settlement cfg who) p call) := by
  obtain ⟨fine,earns,less⟩ := step_earns (balanced.valid fits.1.before) fits.1 fits.2
  refine ⟨fun _ => fine,?_⟩
  have before := balanced.value
  change held (step cfg p.1 call) who + ((p.2 ++ settlement cfg who p.1 call).map Prod.snd).sum ≤
    ((p.2 ++ settlement cfg who p.1 call).map Prod.fst).sum
  rw [map_append,map_append,sum_append,sum_append,settlement]
  split
  next own =>
    obtain ⟨_,_,earned⟩ := earns own who
    have value := earned.value
    rw [earned.charged,earned.refunded,Nat.add_sub_cancel_left,Nat.add_sub_cancel_left]
    simp only [map_cons,map_nil,sum_cons]
    omega
  next other =>
    have passed := less (Bool.of_not_eq_true other) who
    simp only [map_nil]
    omega

theorem credits_conserved (cfg : Config A H B) (usage : Usage.State A H B)
    (settings : Settings A) (who : A) (calls : List (Call A H B))
    (regular : Throughout (step cfg) (fun s call => Regular cfg s call ∧ (step cfg s call).nextSubscriptionId < maxOf 32)
      (genesis usage settings) calls) :
    Throughout (step cfg) (fun s call => onSubscriptions call = true → potential (step cfg s call) who ≤ potential s who)
      (genesis usage settings) calls ∧
    let log := (run (recording (step cfg) (settlement cfg who)) (genesis usage settings,[]) calls).2
    (log.map Prod.snd).sum ≤ (log.map Prod.fst).sum := by
  refine ⟨?_,?_⟩
  · refine throughout_of_invariant (fun s => InDates s → Valid s) ?_ ?_ (genesis_valid usage settings) regular
    · intro s call valid fits _
      exact (step_earns (valid fits.1.before) fits.1 fits.2).1
    · intro s call valid fits own
      obtain ⟨charge,refund,earns⟩ := (step_earns (valid fits.1.before) fits.1 fits.2).2.1 own who
      exact earns.potential
  · have balanced : Balanced who (run (recording (step cfg) (settlement cfg who)) (genesis usage settings,[]) calls) :=
      run_invariant (Balanced who) (step_balanced cfg who) ⟨genesis_valid usage settings,Nat.le_refl 0⟩
        (throughout_recording (settlement cfg who) (genesis usage settings,[]) regular)
    exact (Nat.le_add_left _ _).trans balanced.value

end
instance (s : State A H B) : Decidable (InDates s) :=
  decidable_of_iff (1 ≤ s.usage.nowMs / msPerDay ∧ (Gregorian.dateOf (s.usage.nowMs / msPerDay)).1 < months)
    ⟨fun both => ⟨both.1,both.2⟩,fun dates => ⟨dates.positive,dates.inRange⟩⟩

instance (s : State A H B) : DecidablePred (Affordable s) := fun call => by
  cases call <;> dsimp only [Affordable] <;> infer_instance

instance [DecidableEq A] [DecidableEq H] (cfg : Config A H B) (s : State A H B)
    (call : Call A H B) : Decidable (Regular cfg s call) :=
  decidable_of_iff (InDates s ∧ InDates (step cfg s call) ∧ Affordable s call)
    ⟨fun all => ⟨all.1,all.2.1,all.2.2⟩,fun regular => ⟨regular.before,regular.after,regular.affordable⟩⟩

def days (n : Nat) : Call Nat Nat (Nat → Nat) := .usage (.advanceClock (n * msPerDay))

def prepaying : List (Call Nat Nat (Nat → Nat)) :=
  [ .usage (.market (.addAuthority .root 5)),deposit 5 1 100,.addNewPlan .root [0,0,0] 20 true false,
    .purchasePlan (.signed 5) 1 [3] none none none (some 3),days 10,.cancelUserSubscription (.signed 5) 1 none]

theorem credits_conserved_prepaid :
    let log := (run (recording (step plainConfig) (settlement plainConfig 1)) (unsold,[]) prepaying).2
    ((log.map Prod.fst).sum = 60 ∧ (log.map Prod.snd).sum = 40) ∧
      Throughout (step plainConfig) (fun s call => onSubscriptions call = true → potential (step plainConfig s call) 1 ≤ potential s 1)
        unsold prepaying := by
  have regular : Throughout (step plainConfig) (fun s call => Regular plainConfig s call ∧
      (step plainConfig s call).nextSubscriptionId < maxOf 32) unsold prepaying := by decide +kernel
  exact ⟨by decide +kernel,(credits_conserved plainConfig _ plainSettings 1 prepaying regular).1⟩

-- With the last id handed out twice, a purchase of the 31st of January changes the anchor
-- of one of the 28th, whose cycle then starts later.

theorem february_value (v : State Nat Nat (Nat → Nat)) (row : UserPlanSubscription Nat Nat) (today : currentUnixDay v = 30)
    (due : row.nextChargeUnixDay = some 58) :
    (v.subscriptionAnchorDay row.id = none → valueOf v row = PaymentMath.prorateFirstMonth row.paidPerMonth 28 31) ∧
      (v.subscriptionAnchorDay row.id = some 31 → valueOf v row = row.paidPerMonth) := by
  have position : ∀ start, walkCycles ((v.subscriptionAnchorDay row.id).getD 28) 30 maxCycleWalk 58 0 = some (start,58,0) →
      cyclePosition v row = some (start,58,0) := by
    intro start walk
    have anchor : anchorOf v row = (v.subscriptionAnchorDay row.id).getD 28 := by
      rw [anchorOf,due]
      exact if_pos (by decide +kernel)
    rw [cyclePosition,due,today,anchor]
    exact (if_neg (by decide)).trans walk
  refine ⟨?_,?_⟩
  · intro stored
    have around := position 27 (by rw [stored]; decide +kernel)
    rw [valueOf,unusedPrepaidRefundCredits,remainingCycleValue,around,today]
    exact Nat.zero_add _
  · intro stored
    have around := position 30 (by rw [stored]; decide +kernel)
    rw [valueOf,unusedPrepaidRefundCredits,remainingCycleValue,around,today]
    refine (Nat.zero_add _).trans ?_
    change (row.paidPerMonth * 28 + 27) / 28 = _
    omega

theorem january_dates (s : State Nat Nat (Nat → Nat)) (clock : s.usage.nowMs = day * msPerDay) (mem : day ∈ [1,27,30]) : InDates s := by
  have date : s.usage.nowMs / msPerDay = day := by
    rw [clock]
    exact Nat.mul_div_cancel day (by decide)
  have all : ∀ day ∈ [1,27,30], 1 ≤ day ∧ (Gregorian.dateOf day).1 < months := by decide +kernel
  exact ⟨date ▸ (all day mem).1,date ▸ (all day mem).2⟩

theorem purchase_affordable (s : State Nat Nat (Nat → Nat)) (caller owner key : Nat) : Affordable s (purchase caller owner key) := by
  intro _ _ plan _
  have price := plan.price.isLt
  have once : cyclesPaid ((none : Option (Word 128)).map Fin.val) = 1 := by decide
  rwa [once,Nat.mul_one]

def hundred : Plan Nat := ⟨4,false,100,false,false⟩

structure Filled (u : State Nat Nat (Nat → Nat)) : Prop where
  clock : u.usage.nowMs = 27 * msPerDay
  last : u.nextSubscriptionId = maxOf 32
  newcomers : ∀ who ∈ [1,2], subscriptionsOf u who = []
  credits : u.freeCredits 1 = 100
  covered : Marketplace.Covered u.usage.market
  sale : OnSale u 5 4 hundred
  gift : OnSale u 5 3 ⟨3,false,0,false,false⟩
  cooled : ∀ who, u.lastSubscriptionCancelledAt who = none

theorem filled_reached : ∃ calls, Filled (run (step plainConfig) unsold calls) ∧
    Throughout (step plainConfig) (Regular plainConfig) unsold calls := by
  obtain ⟨funded,first,credits,free,priced,clock⟩ := stocked_facts
  obtain ⟨empty,cooled⟩ := stocked_empty
  have morning : stocked.usage.nowMs = 1 * msPerDay := clock.trans (Nat.one_mul _).symm
  obtain ⟨calls,sold,selling⟩ := purchases_exhaust plainConfig free rfl rfl (by decide) (fun n => n + 10)
    (fun _ _ same => Nat.add_right_cancel same) (fun n => empty _) cooled funded (maxOf 32)
    (by rw [first,Nat.zero_add])
  have reached : run (step plainConfig) unsold (stocking ++ (calls ++ [days 26])) =
      step plainConfig (run (step plainConfig) stocked calls) (days 26) := by
    rw [run_append,run_append]
    rfl
  have later : (step plainConfig (run (step plainConfig) stocked calls) (days 26)).usage.nowMs = 27 * msPerDay := by
    change (run (step plainConfig) stocked calls).usage.nowMs + 26 * msPerDay = _
    rw [sold.nowMs,clock]
    rfl
  refine ⟨stocking ++ (calls ++ [days 26]),?_,throughout_append.mpr ⟨?_,throughout_append.mpr ⟨?_,?_,trivial⟩⟩⟩
  · rw [reached]
    refine ⟨later,?_,?_,?_,sold.covered,priced.still sold.plans sold.settings,
      free.still sold.plans sold.settings,?_⟩
    · change (run (step plainConfig) stocked calls).nextSubscriptionId = _
      rw [sold.next,first,Nat.zero_add]
    · intro who mem
      have other : ∀ n < maxOf 32, who ≠ n + 10 := by
        simp only [mem_cons,not_mem_nil,or_false] at mem
        omega
      exact (sold.others who other).1.trans (empty who)
    · exact (sold.others 1 fun n _ => by omega).2.trans credits
    · intro who
      exact (congrFun sold.cooled who).trans (cooled who)
  · decide +kernel
  · refine throughout_of_invariant (fun _ => True) (fun _ _ _ _ => trivial) ?_ trivial selling
    rintro u call - ⟨_,now,after,owner,rfl⟩
    exact ⟨january_dates u (now.trans morning) (by decide),january_dates _ (after.trans morning) (by decide),
      purchase_affordable u 5 owner 3⟩
  · exact ⟨january_dates _ (sold.nowMs.trans morning) (by decide),january_dates _ later (by decide),trivial⟩

theorem credits_created :
    ∃ (calls : List (Call Nat Nat (Nat → Nat))) (call : Call Nat Nat (Nat → Nat)),
      Throughout (step plainConfig) (Regular plainConfig) unsold (calls ++ [call]) ∧ onSubscriptions call = true ∧
        potential (run (step plainConfig) unsold calls) 1 < potential (run (step plainConfig) unsold (calls ++ [call])) 1 := by
  obtain ⟨calls,filled,regular⟩ := filled_reached
  generalize reached : run (step plainConfig) unsold calls = u at filled
  have price : (purchaseCharge u 1 hundred 1).1 ≤ 100 := (Nat.sub_le _ _).trans (by decide)
  have one := purchase_bought plainConfig 1 filled.sale rfl (by rw [filled.newcomers 1 (by decide)]; decide) (filled.cooled 1)
    filled.covered (by rw [filled.credits]; exact price)
  generalize buysOne : step plainConfig u (purchase 5 1 4) = t at one
  obtain ⟨plans,settings,clock⟩ := one.frame
  have rowsOne := one.rows (by rw [filled.newcomers 1 (by decide)]; exact nofun)
  rw [filled.newcomers 1 (by decide),nil_append] at rowsOne
  have dayOne : currentUnixDay u = 27 := by
    rw [currentUnixDay,filled.clock]
    decide
  have due : (newSubscription u 1 hundred 1 none none).nextChargeUnixDay = some 58 := by
    change some (advanceCycles (currentUnixDay u) (max (dayOfMonth (currentUnixDay u)) 1) 1) = _
    rw [dayOne]
    decide +kernel
  have anchorOne : t.subscriptionAnchorDay (maxOf 32) = none := by
    rw [← filled.last,one.anchor,freshAnchor,dayOne]
    decide +kernel
  have lost : PaymentMath.prorateFirstMonth (paidPerMonth u 1 hundred) 28 31 < paidPerMonth u 1 hundred := by
    rw [paidPerMonth]
    split
    · decide
    · decide
  -- Three days later another account gets the same id and, with it, an anchor.
  have clockTwo : (step plainConfig t (days 3)).usage.nowMs = 30 * msPerDay := by
    change t.usage.nowMs + 3 * msPerDay = _
    rw [clock,filled.clock]
    rfl
  have dayTwo : currentUnixDay (step plainConfig t (days 3)) = 30 := by
    rw [currentUnixDay,clockTwo]
    decide
  have again : (step plainConfig t (days 3)).nextSubscriptionId = maxOf 32 := by
    change t.nextSubscriptionId = _
    rw [one.next,filled.last]
    decide
  have without : subscriptionsOf (step plainConfig t (days 3)) 2 = [] :=
    (one.others (by decide)).1.trans (filled.newcomers 2 (by decide))
  have two := purchase_bought plainConfig (s := step plainConfig t (days 3)) 2 (filled.gift.still plans settings) rfl
    (by rw [without]; decide) ((congrFun one.cooled 2).trans (filled.cooled 2)) (one.covered filled.covered)
    (by rw [purchaseCharge_free _ 2 rfl]; exact Nat.zero_le _)
  generalize buysTwo : step plainConfig (step plainConfig t (days 3)) (purchase 5 2 3) = v at two
  obtain ⟨_,_,clockLater⟩ := two.frame
  obtain ⟨rowsTwo,credits⟩ := two.others (show 1 ≠ 2 by decide)
  have anchorTwo : v.subscriptionAnchorDay (maxOf 32) = some 31 := by
    rw [← again,two.anchor,freshAnchor,dayTwo]
    decide +kernel
  have dayThree : currentUnixDay v = 30 := by rw [currentUnixDay,clockLater,← currentUnixDay,dayTwo]
  have named : (newSubscription u 1 hundred 1 none none).id = maxOf 32 := filled.last
  have before := (february_value (step plainConfig t (days 3)) _ dayTwo due).1 (by rw [named]; exact anchorOne)
  have after := (february_value v _ dayThree due).2 (by rw [named]; exact anchorTwo)
  have worth : ∀ w : State Nat Nat (Nat → Nat), heldIn w [newSubscription u 1 hundred 1 none none] =
      valueOf w (newSubscription u 1 hundred 1 none none) := fun w => sum_singleton
  refine ⟨calls ++ [purchase 5 1 4,days 3],purchase 5 2 3,?_,rfl,?_⟩
  · have dates := january_dates u filled.clock (by decide)
    have datesOne := january_dates t (clock.trans filled.clock) (by decide)
    have datesTwo := january_dates _ clockTwo (by decide)
    have datesThree := january_dates v (clockLater.trans clockTwo) (by decide)
    rw [append_assoc]
    refine throughout_append.mpr ⟨regular,?_⟩
    rw [reached]
    change Regular _ _ _ ∧ Regular _ (step plainConfig u (purchase 5 1 4)) _ ∧ Regular _ _ _ ∧ True
    rw [buysOne]
    refine ⟨⟨dates,buysOne.symm ▸ datesOne,purchase_affordable u 5 1 4⟩,⟨datesOne,datesTwo,trivial⟩,
      ⟨datesTwo,?_,purchase_affordable _ 5 2 3⟩,trivial⟩
    rw [buysTwo]
    exact datesThree
  · have ends : run (step plainConfig) unsold (calls ++ [purchase 5 1 4,days 3]) = step plainConfig t (days 3) := by
      rw [run_append,reached,run_cons,run_cons,run_nil,buysOne]
    rw [ends,run_append,ends,run_cons,run_nil,buysTwo,potential,potential,credits,held,held,rowsTwo,
      show subscriptionsOf (step plainConfig t (days 3)) 1 = _ from rowsOne,worth,worth,before,after]
    exact Nat.add_lt_add_left lost _

end TheBrain.Marketplace.Subscriptions
