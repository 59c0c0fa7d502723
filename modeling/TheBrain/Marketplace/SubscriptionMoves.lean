import TheBrain.Marketplace.SubscriptionSpecs

namespace TheBrain.Marketplace.Subscriptions
open Library Machine Words PaymentMath Calendar List

section
variable {A H B : Type} {subs rows : List (UserPlanSubscription A H)}

structure Kin (one two : UserPlanSubscription A H) : Prop where
  id : two.id = one.id
  package : two.package = one.package
  active : two.active = true → one.active = true
  dated : two.nextChargeUnixDay = one.nextChargeUnixDay ∨ two.nextChargeUnixDay.isSome = true

theorem Kin.refl (sub : UserPlanSubscription A H) : Kin sub sub := ⟨rfl,rfl,fun active => active,.inl rfl⟩

theorem Kin.trans {one two three : UserPlanSubscription A H} (first : Kin one two) (second : Kin two three) : Kin one three := by
  refine ⟨second.id.trans first.id,second.package.trans first.package,fun active => first.active (second.active active),?_⟩
  rcases second.dated with same | dated
  · rcases first.dated with before | dated
    · exact .inl (same.trans before)
    · exact .inr (by rw [same]; exact dated)
  · exact .inr dated

structure Descends (subs rows : List (UserPlanSubscription A H)) : Prop where
  ids : rows.map (fun row => row.id) = subs.map fun sub => sub.id
  kin : ∀ row ∈ rows, ∃ sub ∈ subs, Kin sub row

theorem Descends.refl (subs : List (UserPlanSubscription A H)) : Descends subs subs :=
  ⟨rfl,fun row mem => ⟨row,mem,.refl row⟩⟩

theorem Descends.trans {three : List (UserPlanSubscription A H)} (first : Descends subs rows) (second : Descends rows three) :
    Descends subs three := by
  refine ⟨second.ids.trans first.ids,?_⟩
  intro row mem
  obtain ⟨middle,listed,later⟩ := second.kin row mem
  obtain ⟨sub,origin,early⟩ := first.kin middle listed
  exact ⟨sub,origin,early.trans later⟩

theorem descends_map (f : UserPlanSubscription A H → UserPlanSubscription A H) (each : ∀ sub, Kin sub (f sub)) :
    Descends subs (subs.map f) := by
  refine ⟨?_,?_⟩
  · rw [map_map]
    exact map_congr_left fun sub _ => (each sub).id
  · intro row mem
    obtain ⟨sub,listed,rfl⟩ := mem_map.mp mem
    exact ⟨sub,listed,each sub⟩

theorem deactivate_descends (found : deactivate key subs = some (sub,rest)) : Descends subs rest := by
  obtain ⟨_,_,_,_,rfl,rfl⟩ := deactivate_some found
  have inactive : Kin sub {sub with active:=false} := ⟨rfl,rfl,fun never => Bool.noConfusion never,.inl rfl⟩
  refine ⟨?_,?_⟩
  · rw [map_append,map_append]
    rfl
  · intro row mem
    rcases mem_append.mp mem with early | late
    · exact ⟨row,mem_append_left _ early,.refl row⟩
    · rcases mem_cons.mp late with rfl | late
      · exact ⟨sub,mem_append_right _ (mem_cons_self ..),inactive⟩
      · exact ⟨row,mem_append_right _ (mem_cons_of_mem _ late),.refl row⟩

theorem advance_kin (s : State A H B) (today now : Nat) (sub : UserPlanSubscription A H) :
    Kin sub (advanceSubscriptionCycle s today now sub) := ⟨rfl,rfl,fun active => active,.inr rfl⟩

theorem settleRows_descends (s : State A H B) (today now : Nat) (failed : List (Nat × Nat))
    (subs : List (UserPlanSubscription A H)) : Descends subs (settleRows s today now failed subs) := by
  refine descends_map _ ?_
  intro sub
  split
  · exact advance_kin s today now sub
  · exact .refl sub

theorem renewFree_descends (who : A) (today now : Nat) (p : Renewal A H B) :
    Descends p.subs (renewFree who today now p).subs := by
  refine descends_map _ ?_
  intro sub
  split
  · exact advance_kin p.state today now sub
  · exact .refl sub

end

section
variable {A H B : Type} [DecidableEq A]
variable {s t : State A H B} {subs rows : List (UserPlanSubscription A H)}

def renewalOf (s : State A H B) (who : A) (sub : UserPlanSubscription A H) : Renewed A :=
  ⟨who,sub.id,sub.nextChargeUnixDay,sub.package.price,currentUnixDay s⟩

def priceOf (sub : UserPlanSubscription A H) : Nat := sub.package.price

omit [DecidableEq A] in
theorem Aside.today (same : Aside s t log) : currentUnixDay t = currentUnixDay s := by
  obtain ⟨_,_,rfl,_⟩ := same
  rfl

omit [DecidableEq A] in
theorem Aside.renewalOf (same : Aside s t log) (who : A) :
    (Subscriptions.renewalOf t who : UserPlanSubscription A H → Renewed A) = Subscriptions.renewalOf s who := by
  funext sub
  rw [Subscriptions.renewalOf,same.today]
  rfl

omit [DecidableEq A] in
theorem Aside.anchorOf (same : Aside s t log) (sub : UserPlanSubscription A H) :
    Subscriptions.anchorOf t sub = Subscriptions.anchorOf s sub := by
  obtain ⟨_,_,rfl,_⟩ := same
  rfl

-- One subscription is paid, or listed as failed with nothing else changed.
theorem chargeOne_cases (who : A) (p : Charging A H B) (sub : UserPlanSubscription A H) :
    (Pays p.state (chargeOne who p sub).state who (priceOf sub) 0 [renewalOf p.state who sub] ∧
        (chargeOne who p sub).failed = p.failed ∧ (chargeOne who p sub).available = p.available - priceOf sub ∧
        (chargeOne who p sub).state.freeCredits who + priceOf sub = p.state.freeCredits who) ∨
      chargeOne who p sub = {p with failed:=p.failed ++ [(sub.id,p.available)]} := by
  unfold chargeOne
  dsimp only
  split
  · exact .inr rfl
  · cases debit : consumeCredits p.state.usage.market who sub.package.price with
    | error => exact .inr rfl
    | ok market =>
      have charge : chargeCredits p.state who sub.package.price =
          .ok (recordCreditsTransaction (setMarket p.state market) who sub.package.price) := by rw [chargeCredits,debit]
      obtain ⟨pays,taken⟩ := chargeCredits_ok charge
      have noted := noteRenewed_pays (recordCreditsTransaction (setMarket p.state market) who sub.package.price) who sub
        sub.package.price
      exact .inl ⟨pays.trans noted,rfl,rfl,taken⟩

structure Splits (s t : State A H B) (who : A) (due paid unpaid : List (UserPlanSubscription A H)) :
    Prop where
  parts : (paid ++ unpaid).Perm due
  pays : Pays s t who (paid.map priceOf).sum 0 (paid.map (renewalOf s who))
  exactly : t.freeCredits who + (paid.map priceOf).sum = s.freeCredits who

theorem chargeAll_parts (who : A) (rows : List (UserPlanSubscription A H)) (p : Charging A H B) :
    ∃ paid unpaid : List (UserPlanSubscription A H),
      Splits p.state (rows.foldl (chargeOne who) p).state who rows paid unpaid ∧
      (rows.foldl (chargeOne who) p).failed.map Prod.fst = p.failed.map Prod.fst ++ unpaid.map fun sub => sub.id := by
  induction rows generalizing p with
  | nil => exact ⟨[],[],⟨.refl _,.refl p.state who,rfl⟩,(append_nil _).symm⟩
  | cons sub _ ih =>
    obtain ⟨paid,unpaid,splits,failed⟩ := ih (chargeOne who p sub)
    rcases chargeOne_cases who p sub with ⟨pay,same,_,taken⟩ | fails
    · refine ⟨sub :: paid,unpaid,⟨splits.parts.cons sub,?_,?_⟩,?_⟩
      · have pays := splits.pays
        rw [pay.aside.renewalOf] at pays
        exact pay.trans pays
      · have later := splits.exactly
        rw [foldl_cons,map_cons,sum_cons]
        omega
      · rw [foldl_cons,failed,same]
    · rw [fails] at splits failed
      refine ⟨paid,sub :: unpaid,⟨perm_middle.trans (splits.parts.cons sub),?_,?_⟩,?_⟩
      · rw [foldl_cons,fails]
        exact splits.pays
      · rw [foldl_cons,fails]
        exact splits.exactly
      · rw [foldl_cons,fails,failed,map_append,append_assoc]
        rfl

theorem chargeDue_parts (s : State A H B) (who : A) (due : List (UserPlanSubscription A H)) :
    ∃ paid unpaid : List (UserPlanSubscription A H),
      Splits s (chargeDueSubscriptionsIndividually s who due).state who due paid unpaid ∧
      (chargeDueSubscriptionsIndividually s who due).failed.map Prod.fst = unpaid.map fun sub => sub.id := by
  obtain ⟨paid,unpaid,splits,failed⟩ := chargeAll_parts who (due.insertionSort fun one two => one.id ≤ two.id)
    ⟨s,0,s.freeCredits who,[]⟩
  exact ⟨paid,unpaid,⟨splits.parts.trans (perm_insertionSort _ _),splits.pays,splits.exactly⟩,failed⟩

theorem dropFailed_cases (who : A) (one two : Nat) (p : Renewal A H B) (entry : Nat × Nat) :
    (∃ sub rest, deactivate entry.1 p.subs = some (sub,rest) ∧ (dropFailed who one two p entry).subs = rest ∧
      Pays p.state (dropFailed who one two p entry).state who 0 (unusedPrepaidRefundCredits p.state sub) []) ∨
    (deactivate entry.1 p.subs = none ∧ (dropFailed who one two p entry).subs = p.subs ∧
      Pays p.state (dropFailed who one two p entry).state who 0 0 []) ∨
    ((p.subs.find? fun sub => sub.id = entry.1) = none ∧ dropFailed who one two p entry = p) := by
  unfold dropFailed
  cases named : (p.subs.find? fun sub => sub.id = entry.1) with
  | none => exact .inr (.inr ⟨rfl,rfl⟩)
  | some failed =>
    have noted : ∀ (u : State A H B) attempt, Pays u (depositEvent (depositEvent u
        (.subscriptionChargeFailed who failed.package.price attempt))
        (.subscriptionRenewalFailed who entry.1 failed.package.id failed.package.price entry.2)) who 0 0 [] := by
      intro u attempt
      exact (pays_event u who rfl).trans (pays_event _ who rfl)
    cases found : deactivate entry.1 p.subs with
    | none => exact .inr (.inl ⟨rfl,rfl,noted _ _⟩)
    | some drop =>
      obtain ⟨sub,rest⟩ := drop
      obtain ⟨_,ran,pays⟩ := refundCredits_ok p.state who (unusedPrepaidRefundCredits p.state sub)
      refine .inl ⟨sub,rest,rfl,rfl,?_⟩
      dsimp only
      rw [ran]
      exact pays.trans (noted _ _)

theorem dropAll_general (who : A) (one two : Nat) (failed : List (Nat × Nat)) (p : Renewal A H B) :
    ∃ refund, Pays p.state (failed.foldl (dropFailed who one two) p).state who 0 refund [] ∧
      Descends p.subs (failed.foldl (dropFailed who one two) p).subs := by
  induction failed generalizing p with
  | nil => exact ⟨0,.refl p.state who,.refl p.subs⟩
  | cons entry _ ih =>
    obtain ⟨refund,pays,rows⟩ := ih (dropFailed who one two p entry)
    rcases dropFailed_cases who one two p entry with ⟨_,_,found,same,drops⟩ | ⟨_,same,drops⟩ | ⟨_,same⟩
    · rw [same] at rows
      exact ⟨_,drops.trans pays,(deactivate_descends found).trans rows⟩
    · rw [same] at rows
      exact ⟨_,drops.trans pays,rows⟩
    · rw [foldl_cons]
      rw [same] at pays rows ⊢
      exact ⟨refund,pays,rows⟩

theorem renewFree_pays (who : A) (today now : Nat) (p : Renewal A H B) :
    Pays p.state (renewFree who today now p).state who 0 0
      ((p.subs.filter (charges today)).map fun sub => {renewalOf p.state who sub with price:=0}) := by
  change Pays p.state ((p.subs.filter (charges today)).foldl (fun s sub => noteRenewed s who sub 0) p.state) who 0 0 _
  generalize p.subs.filter (charges today) = due
  generalize p.state = s
  induction due generalizing s with
  | nil => exact .refl s who
  | cons sub _ ih =>
    have noted := noteRenewed_pays s who sub 0
    have later := ih (noteRenewed s who sub 0)
    exact noted.trans later

theorem payRenewalCommission_quiet (cfg : Config A H B) (s : State A H B) (who : A)
    (charged : Nat) : ∃ market, Quiet s.usage.market market ∧ payRenewalCommission cfg s who charged = setMarket s market := by
  unfold payRenewalCommission
  split
  · exact ⟨s.usage.market,.refl _,rfl⟩
  · split
    · exact ⟨s.usage.market,.refl _,rfl⟩
    · exact ⟨_,tryPay_quiet cfg.usage.market s.usage.market _ _,rfl⟩

theorem renewPaid_parts (cfg : Config A H B) (who : A) (today now : Nat) (p : Renewal A H B) :
    ∃ (paid unpaid : List (UserPlanSubscription A H)) (failed : List (Nat × Nat)) (one two : Nat)
      (charged settled : State A H B),
      failed.map Prod.fst = unpaid.map (fun sub => sub.id) ∧ Aside p.state charged (paid.map (renewalOf p.state who)) ∧
      Splits p.state settled who (p.subs.filter (charges today)) paid unpaid ∧
      renewPaid cfg who today now p =
        failed.foldl (dropFailed who one two) ⟨settled,settleRows charged today now failed p.subs⟩ := by
  unfold renewPaid
  dsimp only
  have storageParts := chargeDue_parts p.state who ((p.subs.filter (charges today)).filter fun sub => sub.package.isAnyStorage)
  generalize chargeDueSubscriptionsIndividually p.state who _ = storage at storageParts ⊢
  have computeParts := chargeDue_parts storage.state who ((p.subs.filter (charges today)).filter fun sub => !sub.package.isAnyStorage)
  generalize chargeDueSubscriptionsIndividually storage.state who _ = compute at computeParts ⊢
  obtain ⟨paidS,unpaidS,splitsS,failedS⟩ := storageParts
  obtain ⟨paidC,unpaidC,splitsC,failedC⟩ := computeParts
  obtain ⟨market,quiet,settled⟩ := payRenewalCommission_quiet cfg compute.state who (saturatingAdd 128 storage.charged compute.charged)
  have paysC := splitsC.pays
  rw [splitsS.pays.aside.renewalOf] at paysC
  have pays := splitsS.pays.trans paysC
  rw [← sum_append,← map_append,← map_append] at pays
  have commission := pays.trans (pays_quiet compute.state who quiet)
  rw [append_nil] at commission
  refine ⟨paidS ++ paidC,unpaidS ++ unpaidC,_,_,_,_,_,?_,pays.aside,⟨?_,commission,?_⟩,by rw [settled]⟩
  · rw [map_append,map_append,failedS,failedC]
  · refine Perm.trans ?_ ((splitsS.parts.append splitsC.parts).trans (filter_append_perm _ _))
    rw [append_assoc,append_assoc]
    refine Perm.append_left paidS ?_
    rw [← append_assoc,← append_assoc]
    exact perm_append_comm.append_right unpaidC
  · have one := splitsS.exactly
    have two := splitsC.exactly
    have same : (setMarket compute.state market).freeCredits who = compute.state.freeCredits who := congrFun quiet.freeCredits who
    rw [map_append,sum_append]
    omega

theorem round_general (cfg : Config A H B) (who : A) (today now : Nat) (p : Renewal A H B) :
    ∃ charge refund log, Pays p.state (round cfg who today now p).state who charge refund log ∧
      Descends p.subs (round cfg who today now p).subs := by
  unfold round
  dsimp only
  split
  · exact ⟨0,0,[],.refl p.state who,.refl p.subs⟩
  · split
    · exact ⟨_,_,_,renewFree_pays who today now p,renewFree_descends who today now p⟩
    · obtain ⟨_,_,failed,one,two,charged,settled,_,_,splits,same⟩ := renewPaid_parts cfg who today now p
      obtain ⟨_,drops,rows⟩ := dropAll_general who one two failed ⟨settled,settleRows charged today now failed p.subs⟩
      rw [same]
      exact ⟨_,_,_,splits.pays.trans drops,(settleRows_descends charged today now failed p.subs).trans rows⟩

theorem catchUp_general (cfg : Config A H B) (who : A) (today now rounds : Nat)
    (p : Renewal A H B) :
    ∃ charge refund log, Pays p.state (catchUp cfg who today now rounds p).state who charge refund log ∧
      Descends p.subs (catchUp cfg who today now rounds p).subs := by
  induction rounds generalizing p with
  | zero => exact ⟨0,0,[],.refl p.state who,.refl p.subs⟩
  | succ _ ih =>
    obtain ⟨_,_,_,pays,rows⟩ := round_general cfg who today now p
    obtain ⟨_,_,_,paysLater,rowsLater⟩ := ih (round cfg who today now p)
    exact ⟨_,_,_,pays.trans paysLater,rows.trans rowsLater⟩

variable [DecidableEq H]

theorem chargeAccountDue_general (cfg : Config A H B) (s : State A H B) (who : A) (now : Nat) :
    (chargeAccountDue cfg s who now = s ∧ ∀ sub ∈ subscriptionsOf s who, sub.active = false) ∨
    ∃ rows charge refund log, Descends (subscriptionsOf s who) rows ∧
      Transacts s (chargeAccountDue cfg s who now) who (rows.filter fun sub => sub.active) false charge refund log := by
  unfold chargeAccountDue
  dsimp only
  split
  · obtain ⟨_,_,_,pays,rows⟩ := catchUp_general cfg who (currentUnixDay s) now maxCatchupMonths ⟨s,subscriptionsOf s who⟩
    exact .inr ⟨_,_,_,_,rows,pays.before (commit_committed _ who _ _ (pays.aside.rows who)).transacts⟩
  next inactive =>
    refine .inl ⟨rfl,?_⟩
    intro sub mem
    by_contra active
    exact inactive (any_eq_true.mpr ⟨sub,mem,Bool.of_not_eq_false active⟩)

-- The turns of a drain suffice: each of them probes a day or sees an account, and both
-- are counted up to a limit.

theorem visited (cfg : Config A H B) (now : Nat) (batch : List A) (d : Drain A H B)
    (small : d.seen + batch.length < 2 ^ 64) :
    (batch.foldl (visit cfg now) d).seen = d.seen + batch.length ∧ (batch.foldl (visit cfg now) d).probes = d.probes := by
  induction batch generalizing d with
  | nil => exact ⟨rfl,rfl⟩
  | cons who _ ih =>
    rw [length_cons] at small ⊢
    have one : (visit cfg now d who).seen = d.seen + 1 := saturatingAdd_exact (by omega)
    obtain ⟨_,probes⟩ := ih (visit cfg now d who) (by omega)
    rw [foldl_cons]
    exact ⟨by omega,probes⟩

theorem drain_enough (cfg : Config A H B) (limit : Weight) (today now turns extra : Nat)
    (d : Drain A H B) (enough : cfg.maxSubscriptionChargesPerRun - d.seen + (maxDayProbes - d.probes) ≤ turns) :
    drain cfg limit today now (turns + extra) d = drain cfg limit today now turns d := by
  induction turns generalizing d with
  | zero =>
    cases extra with
    | zero => rfl
    | succ =>
      rw [Nat.zero_add,drain,drain]
      have past : ¬(d.cursor ≤ today ∧ d.seen < cfg.maxSubscriptionChargesPerRun ∧ d.probes < maxDayProbes) := by omega
      rw [if_pos past]
  | succ _ ih =>
    rw [Nat.add_right_comm,drain,drain]
    split
    · rfl
    next going =>
      split
      · rfl
      · split
        · split
          · rfl
          · refine ih _ ?_
            dsimp only
            omega
        next busy =>
          refine ih _ ?_
          have sized : (dueBatch cfg limit d).length ≤ cfg.maxSubscriptionChargesPerRun - d.seen :=
            (length_take_le _ _).trans (Nat.min_le_left _ _)
          have some : 0 < (dueBatch cfg limit d).length := length_pos_iff.mpr busy
          have published : (publish cfg d).seen = d.seen ∧ (publish cfg d).probes = d.probes := by
            unfold publish
            split
            · exact ⟨rfl,rfl⟩
            · exact ⟨rfl,rfl⟩
          obtain ⟨_,_⟩ := visited cfg now (dueBatch cfg limit d) (publish cfg d) (by omega)
          omega

theorem onInitialize_keeps (cfg : Config A H B) (inv : State A H B → Prop) (now : Nat)
    (credits : ∀ u market, Quiet u.usage.market market → inv u → inv (setMarket u market))
    (prices : ∀ u, inv u → inv (processPendingRepricing cfg u))
    (backfill : ∀ u limit consumed, inv u → inv (backfillDueIndex cfg u limit consumed).1)
    (charging : ∀ u limit consumed, inv u → inv (handleAllSubscriptionCharging cfg u now limit consumed)) (start : inv s) :
    inv (onInitialize cfg s now) := by
  unfold onInitialize
  dsimp only
  have opened : inv (setMarket s (if now % 15 = 0 then
      {s.usage.market with bank:={s.usage.market.bank with blockNumber:=now},userRequestsCount:=fun _ => 0}
      else {s.usage.market with bank:={s.usage.market.bank with blockNumber:=now}})) := by
    refine credits s _ ?_ start
    split
    · exact quiet_same {} rfl
    · exact quiet_same {} rfl
  have repriced := prices _ opened
  generalize processPendingRepricing cfg (setMarket s _) = u at repriced ⊢
  have swept : inv (if now % cfg.usage.market.referralPayoutInterval = 0 then
      setMarket u (sweepReferralCommissions cfg.usage.market u.usage.market) else u) := by
    split
    · exact credits _ _ (sweep_quiet cfg.usage.market _) repriced
    · exact repriced
  split
  · refine credits _ _ (release_quiet cfg.usage.market _ now) ?_
    exact charging _ _ _ (backfill _ _ _ swept)
  · exact swept

end

-- A runtime that works on subscriptions in every block, and its storage before anything
-- was sold. The plans have the length of their name for an id.
def plainConfig : Config Nat Nat (Nat → Nat) where
  usage := {
    market:={Marketplace.plainConfig with maxRequestsPerBlock:=maxOf 32,blockChargeCheckInterval:=1}
    maxComputeUsageRowsPerCall:=10
    maxComputeBillingLag:=100
    computeUsageRetention:=1000
    usizeBits:=64
    retained:=by decide}
  hashOf := List.length
  maxActiveSubscriptions := 5
  minSubscriptionBlocks := 0
  maxSubscriptionChargesPerRun := 10
  maxBackfillAccountsPerRun := 10
  maxRepricedAccountsPerBlock := 1
  renewalBudget := ⟨1000000,1000000⟩
  chargeAccountDue := ⟨1,1⟩
  dayProbe := ⟨1,1⟩
  drainOverhead := ⟨1,1⟩
  backfillAccount := ⟨1,1⟩
  ranked := fun _ _ same => same

def plainSettings : Settings Nat := ⟨[5],true,false,false,fun _ => false,fun _ => false⟩

def unsold : State Nat Nat (Nat → Nat) := genesis (Usage.genesis (Marketplace.genesis Bank.opened) msPerDay) plainSettings

open Relation

-- The block hook and the calls as chains of moves, so that an invariant is proved for one
-- move at a time.

section
variable {A H B : Type} [DecidableEq A]
variable {cfg : Config A H B} {s t : State A H B}

theorem backfillOne_rows (start : Nat) (stored : subscriptionsOf s who = rows) (other : A) :
    subscriptionsOf (backfillOne start s (who,rows)) other =
      if other = who then rows.map (normalise start) else subscriptionsOf s other := by
  change ((backfillOne start s (who,rows)).userAllSubscriptionPlans.lookup other).getD [] = _
  rw [backfillOne]
  dsimp only
  split
  · rw [StorageMap.lookup_insert_if]
    split
    · rfl
    · rfl
  next complete =>
    split
    next same =>
      subst same
      refine stored.trans ?_
      conv_lhs => rw [← map_id rows]
      refine map_congr_left fun sub mem => ?_
      rw [normalise,if_neg]
      · rfl
      · rintro ⟨active,absent⟩
        refine complete (any_eq_true.mpr ⟨sub,mem,?_⟩)
        rw [active,absent]
        rfl
    · rfl

theorem backfill_rows (start : Nat) (batch : List (A × List (UserPlanSubscription A H)))
    (distinct : (batch.map Prod.fst).Nodup) (stored : ∀ entry ∈ batch, subscriptionsOf s entry.1 = entry.2) (who : A) :
    subscriptionsOf (batch.foldl (backfillOne start) s) who =
      if who ∈ batch.map Prod.fst then (subscriptionsOf s who).map (normalise start) else subscriptionsOf s who := by
  induction batch generalizing s with
  | nil => rfl
  | cons entry batch ih =>
    obtain ⟨fresh,distinct⟩ := nodup_cons.mp distinct
    have here := stored entry mem_cons_self
    have first := backfillOne_rows start here
    have later := ih (s := backfillOne start s entry) distinct (by
      intro other mem
      rw [first,if_neg]
      · exact stored other (mem_cons_of_mem _ mem)
      · intro same
        exact fresh (same ▸ mem_map_of_mem mem))
    rw [foldl_cons,later,first,map_cons]
    by_cases same : who = entry.1
    · subst same
      rw [if_neg fresh,if_pos rfl,if_pos mem_cons_self,here]
    · rw [if_neg same]
      by_cases listed : who ∈ batch.map Prod.fst
      · rw [if_pos listed,if_pos (mem_cons_of_mem _ listed)]
      · rw [if_neg listed,if_neg fun present => (mem_cons.mp present).elim same listed]

theorem backfill_frame (start : Nat) (batch : List (A × List (UserPlanSubscription A H)))
    (s : State A H B) :
    ∃ due plans, batch.foldl (backfillOne start) s = {s with dueAccounts:=due,userAllSubscriptionPlans:=plans} := by
  refine foldl_keeps (fun t : State A H B => ∃ due plans, t = {s with
    dueAccounts:=due
    userAllSubscriptionPlans:=plans}) ?_ batch ⟨_,_,rfl⟩
  rintro u entry ⟨_,_,rfl⟩
  exact ⟨_,_,rfl⟩

variable [DecidableEq H]

inductive Work (cfg : Config A H B) (s : State A H B) : State A H B → Prop where
  | visited (who : A) (now : Nat) : Work cfg s (chargeAccountDue cfg s who now)
  | backfilled (start : Nat) (plans : StorageMap A (List (UserPlanSubscription A H)))
      (rows : ∀ who, (plans.lookup who).getD [] = (subscriptionsOf s who).map (normalise start) ∨
        (plans.lookup who).getD [] = subscriptionsOf s who) : Work cfg s {s with userAllSubscriptionPlans:=plans}
  | indexed (due : StorageMap (Nat × A) Unit) (cursor backfill : Option Nat) (done : Bool) (scan : Option Nat) :
      Work cfg s {s with
        dueAccounts:=due
        dueDayCursor:=cursor
        backfillCursor:=backfill
        backfillDone:=done
        fullScanCursor:=scan}
  | repriced : Work cfg s (processPendingRepricing cfg s)
  | quiet (market : Marketplace.State A B) (silent : Quiet s.usage.market market) : Work cfg s (setMarket s market)

theorem backfillDueIndex_works (cfg : Config A H B) (s : State A H B) (limit consumed : Weight) :
    ReflTransGen (Work cfg) s (backfillDueIndex cfg s limit consumed).1 := by
  unfold backfillDueIndex
  split
  · exact .refl
  · dsimp only
    generalize min cfg.maxBackfillAccountsPerRun (Usage.accountsAffordable cfg.usage limit consumed cfg.backfillAccount) = size
    split
    · exact .refl
    · generalize s.dueDayCursor.getD (unixDayOfFirstOfMonthIn s.usage.nowMs 0) = start
      have stored := fun entry (mem : entry ∈ page cfg {s with dueDayCursor:=some start} s.backfillCursor size) =>
        page_stored mem
      have distinct := page_distinct cfg {s with dueDayCursor:=some start} s.backfillCursor size
      generalize page cfg {s with dueDayCursor:=some start} s.backfillCursor size = batch at stored distinct ⊢
      split
      · exact .single (.indexed s.dueAccounts (some start) none true s.fullScanCursor)
      next last ends =>
        have rows := backfill_rows start batch distinct stored
        obtain ⟨due,plans,filled⟩ := backfill_frame start batch {s with dueDayCursor:=some start}
        rw [filled] at rows ⊢
        have first : Work cfg s {s with userAllSubscriptionPlans:=plans} := by
          refine .backfilled start plans fun who => ?_
          by_cases listed : who ∈ batch.map Prod.fst
          · exact .inl ((rows who).trans (if_pos listed))
          · exact .inr ((rows who).trans (if_neg listed))
        exact ReflTransGen.tail (.single first) (.indexed due (some start) _ _ s.fullScanCursor)

theorem fullScan_works (cfg : Config A H B) (s : State A H B) (now : Nat) (limit consumed : Weight) :
    ReflTransGen (Work cfg) s (fullScanSubscriptionCharging cfg s now limit consumed) := by
  unfold fullScanSubscriptionCharging
  split
  · exact .refl
  · dsimp only
    split
    · exact .refl
    · split
      · exact .single (.indexed s.dueAccounts s.dueDayCursor s.backfillCursor s.backfillDone none)
      · have visits : ∀ batch : List A,
            ReflTransGen (Work cfg) s (batch.foldl (fun s who => chargeAccountDue cfg s who now) s) := fun batch =>
          foldl_keeps (ReflTransGen (Work cfg) s) (fun u who path => path.tail (.visited who now)) batch .refl
        exact (visits _).tail (.indexed _ _ _ _ _)

theorem drain_works (cfg : Config A H B) (limit : Weight) (today now turns : Nat) (d : Drain A H B) :
    ReflTransGen (Work cfg) d.state (drain cfg limit today now turns d).state := by
  induction turns generalizing d with
  | zero => exact .refl
  | succ _ ih =>
    rw [drain]
    split
    · exact .refl
    · split
      · exact .refl
      · split
        · split
          · exact .refl
          · next consumed _ => exact ih {d with consumed:=consumed,probes:=d.probes + 1,cursor:=saturatingAdd 32 d.cursor 1}
        · refine ReflTransGen.trans ?_ (ih _)
          have published : ReflTransGen (Work cfg) d.state (publish cfg d).state := by
            unfold publish
            split
            · exact .refl
            · exact .single (.indexed _ (some d.cursor) _ _ _)
          refine foldl_keeps (fun e : Drain A H B => ReflTransGen (Work cfg) d.state e.state) ?_ _ published
          intro e who path
          exact (path.tail (.indexed (e.state.dueAccounts.erase (e.cursor,who)) _ _ _ _)).tail (.visited who now)

theorem handleAll_works (cfg : Config A H B) (s : State A H B) (now : Nat) (limit consumed : Weight) :
    ReflTransGen (Work cfg) s (handleAllSubscriptionCharging cfg s now limit consumed) := by
  unfold handleAllSubscriptionCharging
  dsimp only
  split
  · exact .refl
  · split
    · exact fullScan_works cfg s now limit consumed
    · split
      · exact .refl
      next left _ =>
        have drained := drain_works cfg limit (currentUnixDay s) now (cfg.maxSubscriptionChargesPerRun + maxDayProbes)
          ⟨s,left,s.dueDayCursor.getD (currentUnixDay s),s.dueDayCursor,0,0⟩
        exact drained.tail (.indexed _ _ _ _ _)

theorem onInitialize_works (cfg : Config A H B) (s : State A H B) (now : Nat) :
    ReflTransGen (Work cfg) s (onInitialize cfg s now) :=
  onInitialize_keeps cfg (ReflTransGen (Work cfg) s) now
    (fun _ market silent path => path.tail (.quiet market silent))
    (fun _ path => path.tail .repriced)
    (fun u limit consumed path => path.trans (backfillDueIndex_works cfg u limit consumed))
    (fun u limit consumed path => path.trans (handleAll_works cfg u now limit consumed)) .refl

inductive Move (cfg : Config A H B) (s t : State A H B) : Prop where
  | work (works : Work cfg s t)
  | opened (who : A) (key : H) (plan : Plan H) (cycles : Nat) (locationId : Option Nat) (image : Option Bytes)
      (known : s.plans key = some plan) (bounded : 1 ≤ cycles ∧ cycles ≤ 24)
      (ran : openSubscription cfg s who plan cycles locationId image = .ok t)
  | cancelled (who : A) (key : Nat) (ran : doCancelSubscriptionById s who key = .ok t)
  | deleted (who : A) (ran : doDeleteStorageSubscriptionWithRefund s who = .ok t)
  | changed (who : A) (flavour : StorageFlavour) (newPlanId : H)
      (ran : doChangePlanOfFlavour cfg s who flavour newPlanId = .ok t)
  | suspended (origin : Origin A) (planId : H) (isSuspended : Bool)
      (ran : setPackageSuspension s origin planId isSuspended = .ok t)
  | added (origin : Origin A) (planName : Bytes) (price : Word 128) (isStoragePlan isS3Plan : Bool)
      (ran : addNewPlan cfg s origin planName price isStoragePlan isS3Plan = .ok t)
  | priced (origin : Origin A) (planId : H) (newPrice : Word 128) (ran : setPlanPrice s origin planId newPrice = .ok t)
  | removed (origin : Origin A) (planId : H) (ran : removePlan s origin planId = .ok t)
  | configured (settings : Settings A) (same : t = {s with settings:=settings})
  | noted (event : Event A H) (quiet : event.quiet = true) (same : t = depositEvent s event)

theorem cyclesPaid_bounds (upfront : ∀ n ∈ payUpfront, 1 ≤ n ∧ n ≤ 24) : 1 ≤ cyclesPaid payUpfront ∧ cyclesPaid payUpfront ≤ 24 := by
  unfold cyclesPaid
  cases payUpfront with
  | none => decide
  | some n =>
    have bounds := upfront n rfl
    rw [Option.getD_some]
    omega

theorem purchasePlan_moves (ran : purchasePlan cfg s origin owner planIds locationIds images cids payUpfront = .ok t) :
    ReflTransGen (Move cfg) s t := by
  have upfront : ∀ n ∈ payUpfront, 1 ≤ n ∧ n ≤ 24 := by
    simp only [purchasePlan,passes] at ran
    exact ran.2.1
  refine purchasePlan_keeps (ReflTransGen (Move cfg) s) ?_ ?_ ran
  · intro count
    exact .single (.work (.quiet _ (quiet_same {} rfl)))
  · intro u order v path bought
    obtain ⟨plan,locationId,image,_,_,known,opens,rfl⟩ := purchaseOne_ok bought
    exact (path.tail (.opened owner order.1 plan _ locationId image known (cyclesPaid_bounds upfront) opens)).tail
      (.noted _ rfl rfl)

theorem dispatchPlanChange_moves (ran : dispatchPlanChange cfg s origin user flavour newPlanId = .ok t) :
    ReflTransGen (Move cfg) s t := by
  simp only [dispatchPlanChange,passes] at ran
  obtain ⟨_,_,changes⟩ := ran
  have counted : Move cfg s (setRequests s user (saturatingAdd 32 (s.usage.market.userRequestsCount user) 1)) :=
    .work (.quiet _ (quiet_same {} rfl))
  exact ReflTransGen.tail (.single counted) (.changed user flavour newPlanId changes)

theorem dispatch_moves (own : ∀ c, call ≠ .usage c) (ran : dispatch cfg s call = .ok t) : ReflTransGen (Move cfg) s t := by
  cases call with
  | purchasePlan => exact purchasePlan_moves ran
  | cancelUserSubscription _ user subscriptionId =>
    simp only [dispatch,cancelUserSubscription,passes] at ran
    obtain ⟨_,cancels⟩ := ran
    cases subscriptionId with
    | some key => exact .single (.cancelled user key cancels)
    | none => exact .single (.deleted user cancels)
  | changeStoragePlan | changeS3Plan => exact dispatchPlanChange_moves ran
  | setPackageSuspension origin planId isSuspended => exact .single (.suspended origin planId isSuspended ran)
  | addNewPlan origin planName price isStoragePlan isS3Plan => exact .single (.added origin planName price isStoragePlan isS3Plan ran)
  | setPlanPrice origin planId newPrice => exact .single (.priced origin planId newPrice ran)
  | removePlan origin planId => exact .single (.removed origin planId ran)
  | configure settings =>
    cases ran
    exact .single (.configured settings rfl)
  | nextBlock =>
    cases ran
    exact ReflTransGen.mono (fun _ _ works => Move.work works) s _ (onInitialize_works cfg s _)
  | usage call => exact absurd rfl (own call)

theorem step_keeps (inv : State A H B → Prop) (moves : ∀ u v, Move cfg u v → inv u → inv v)
    (usage : ∀ u c, inv u → inv {u with usage:=Usage.step cfg.usage u.usage c}) (call : Call A H B)
    (start : inv s) : inv (step cfg s call) := by
  refine commit_inv inv start ?_
  intro t ran
  by_cases own : ∃ c, call = .usage c
  · obtain ⟨c,rfl⟩ := own
    cases ran
    exact usage s c start
  · exact path_keeps inv moves (dispatch_moves (not_exists.mp own) ran) start

end
end TheBrain.Marketplace.Subscriptions
