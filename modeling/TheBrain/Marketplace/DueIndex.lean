import TheBrain.Marketplace.SubscriptionMoves

-- The index of due days reaches every active subscription once it has been built.
namespace TheBrain.Marketplace.Subscriptions
open Library Machine Words Calendar List StorageMap

section
variable {A H B : Type}
variable {s t : State A H B}

theorem normalise_dated (start : Nat) (sub : UserPlanSubscription A H) (active : (normalise start sub).active = true) :
    (normalise start sub).nextChargeUnixDay.isSome = true := by
  unfold normalise at active ⊢
  split
  · rfl
  next kept =>
    rw [if_neg kept] at active
    rw [Option.isSome_iff_ne_none]
    exact fun absent => kept ⟨active,absent⟩

structure Index (A H : Type) where
  rows : StorageMap A (List (UserPlanSubscription A H))
  due : StorageMap (Nat × A) Unit
  cursor : Option Nat
  backfill : Option Nat
  done : Bool

def State.index (s : State A H B) : Index A H :=
  ⟨s.userAllSubscriptionPlans,s.dueAccounts,s.dueDayCursor,s.backfillCursor,s.backfillDone⟩

theorem Lists.index (lists : Lists s t) : t.index = s.index := by
  rw [lists.frame]
  rfl

variable [DecidableEq A] {cfg : Config A H B}

def Index.rowsOf (i : Index A H) (who : A) : List (UserPlanSubscription A H) :=
  (i.rows.lookup who).getD []

def AllFiled (i : Index A H) (floor : Nat) (who : A) : Prop :=
  ∀ sub ∈ i.rowsOf who, sub.active = true → Filed i.due floor who sub

def Covered (cfg : Config A H B) (i : Index A H) (who : A) : Prop :=
  i.done = true ∨ ∃ last, i.backfill = some last ∧ cfg.usage.market.accountRank who ≤ last

structure Indexed (cfg : Config A H B) (i : Index A H) : Prop where
  started : i.done = true ∨ i.backfill.isSome = true → i.cursor.isSome = true
  filed : ∀ who, Covered cfg i who → AllFiled i (i.cursor.getD 0) who

theorem fresh_indexed (fresh : s.backfillDone = false ∧ s.backfillCursor = none) : Indexed cfg s.index := by
  have unbuilt : ¬ s.index.done = true := by
    change ¬ s.backfillDone = true
    rw [fresh.1]
    decide
  have unread : s.index.backfill = none := fresh.2
  refine ⟨?_,?_⟩
  · rintro (done | reading)
    · exact absurd done unbuilt
    · rw [unread] at reading
      cases reading
  · rintro who (done | ⟨_,reading,_⟩)
    · exact absurd done unbuilt
    · rw [unread] at reading
      cases reading

section
omit [DecidableEq A]

theorem reprice_day [DecidableEq H] (planId : H) (price : Word 128) (sub : UserPlanSubscription A H) :
    (reprice planId price sub).active = sub.active ∧ (reprice planId price sub).nextChargeUnixDay = sub.nextChargeUnixDay := by
  unfold reprice
  split
  · exact ⟨rfl,rfl⟩
  · exact ⟨rfl,rfl⟩

end

theorem Transacts.indexed (acts : Transacts s t who rows issued charge refund log)
    (started : s.index.done = true ∨ s.index.backfill.isSome = true → s.index.cursor.isSome = true)
    (others : ∀ other, other ≠ who → Covered cfg s.index other → AllFiled s.index (s.dueDayCursor.getD 0) other)
    (own : Covered cfg s.index who → ∀ sub ∈ subscriptionsOf s who, sub.active = true →
      Waiting s.dueAccounts (s.dueDayCursor.getD 0) who sub)
    (dated : Covered cfg s.index who → ∀ sub ∈ rows, sub.nextChargeUnixDay.isSome = true) : Indexed cfg t.index := by
  have frame : t.index.cursor = s.index.cursor ∧ t.index.backfill = s.index.backfill ∧ t.index.done = s.index.done := by
    obtain ⟨_,_,_,_,_,_,due,rfl,_⟩ := acts.only
    exact ⟨rfl,rfl,rfl⟩
  obtain ⟨cursor,backfill,done⟩ := frame
  refine ⟨?_,?_⟩
  · rw [cursor,backfill,done]
    exact started
  · intro other covered sub mem active
    rw [Covered,done,backfill] at covered
    rw [cursor]
    by_cases same : other = who
    · subst same
      have listed : sub ∈ subscriptionsOf t other := mem
      rw [acts.stored] at listed
      exact acts.filed (own covered) sub listed (dated covered sub listed)
    · have before : sub ∈ subscriptionsOf t other := mem
      rw [acts.others other same] at before
      obtain ⟨day,due,entry⟩ := others other same covered sub before active
      exact ⟨day,due,(congrArg Option.isSome (acts.otherDue other same _)).trans entry⟩

theorem Indexed.transacts (indexed : Indexed cfg s.index) (acts : Transacts s t who rows issued charge refund log)
    (dated : (∀ sub ∈ subscriptionsOf s who, sub.active = true → sub.nextChargeUnixDay.isSome = true) →
      ∀ sub ∈ rows, sub.nextChargeUnixDay.isSome = true) : Indexed cfg t.index := by
  refine acts.indexed indexed.started ?_ ?_ ?_
  · intro other _ covered
    exact indexed.filed other covered
  · intro covered sub mem active
    exact (indexed.filed who covered sub mem active).waiting
  · intro covered
    refine dated fun sub mem active => ?_
    exact (indexed.filed who covered sub mem active).dated

-- The drain works with a cursor of its own, which is stored before a day is worked on.
structure Draining (d : Drain A H B) : Prop where
  done : d.state.backfillDone = true
  stored : d.state.dueDayCursor = d.published
  filed : ∀ who, AllFiled d.state.index d.cursor who

theorem publish_draining (draining : Draining d) :
    Draining (publish cfg d) ∧ (publish cfg d).published = some (publish cfg d).cursor := by
  unfold publish
  split
  · next already => exact ⟨draining,already⟩
  · exact ⟨⟨draining.done,rfl,draining.filed⟩,rfl⟩

theorem AllFiled.advance {i : Index A H} (filed : AllFiled i floor who) (empty : i.due.lookup (floor,who) = none) :
    AllFiled i (floor + 1) who := by
  intro sub mem active
  obtain ⟨day,known,entry⟩ := filed sub mem active
  refine ⟨day,known,?_⟩
  rcases Nat.lt_or_ge floor day with later | past
  · rw [Nat.max_eq_left later]
    rw [Nat.max_eq_left (Nat.le_of_lt later)] at entry
    exact entry
  · rw [Nat.max_eq_right past,empty] at entry
    cases entry

theorem dueBatch_empty (sized : batchSize cfg limit d ≠ 0) (empty : dueBatch cfg limit d = []) (who : A) :
    d.state.dueAccounts.lookup (d.cursor,who) = none := by
  have none : (d.state.dueAccounts.keysUnder cfg.usage.market.accountRank d.cursor).map Prod.snd = [] :=
    (take_eq_nil_iff.mp empty).resolve_left sized
  cases found : d.state.dueAccounts.lookup (d.cursor,who) with
  | none => rfl
  | some =>
    have listed := (mem_keysUnder cfg.usage.market.accountRank d.cursor d.state.dueAccounts (d.cursor,who)).mpr
      ⟨rfl,by rw [found]; rfl⟩
    rw [map_eq_nil_iff.mp none] at listed
    cases listed

theorem backfillOne_filed (start : Nat) (s : State A H B) (who : A)
    (rows : List (UserPlanSubscription A H)) :
    (∀ key, (s.dueAccounts.lookup key).isSome = true → ((backfillOne start s (who,rows)).dueAccounts.lookup key).isSome = true) ∧
    ∀ sub ∈ rows.map (normalise start), sub.active = true → Filed (backfillOne start s (who,rows)).dueAccounts start who sub := by
  have filing := file_days (fun _ => True) who
    (((rows.map (normalise start)).filter fun sub => sub.active).map fun sub => max (effectiveDueDay s sub) start) s.dueAccounts
  simp only [foldl_map] at filing
  refine ⟨filing.1,?_⟩
  intro sub mem active
  obtain ⟨origin,_,rfl⟩ := mem_map.mp mem
  obtain ⟨day,known⟩ := Option.isSome_iff_exists.mp (normalise_dated start origin active)
  refine ⟨day,known,?_⟩
  have effective : effectiveDueDay s (normalise start origin) = day := by
    rw [effectiveDueDay,known,Option.getD_some]
  exact filing.2 _ (mem_map.mpr ⟨_,mem_filter.mpr ⟨mem,active⟩,by rw [effective]⟩) trivial

theorem backfill_page (start : Nat) (batch : List (A × List (UserPlanSubscription A H)))
    (distinct : (batch.map Prod.fst).Nodup) (stored : ∀ entry ∈ batch, subscriptionsOf s entry.1 = entry.2) :
    (∀ who, who ∉ batch.map Prod.fst → subscriptionsOf (batch.foldl (backfillOne start) s) who = subscriptionsOf s who) ∧
    (∀ key, (s.dueAccounts.lookup key).isSome = true →
      ((batch.foldl (backfillOne start) s).dueAccounts.lookup key).isSome = true) ∧
    ∀ who ∈ batch.map Prod.fst, ∀ sub ∈ subscriptionsOf (batch.foldl (backfillOne start) s) who, sub.active = true →
      Filed (batch.foldl (backfillOne start) s).dueAccounts start who sub := by
  induction batch generalizing s with
  | nil => exact ⟨fun _ _ => rfl,fun _ present => present,nofun⟩
  | cons entry _ ih =>
    obtain ⟨who,rows⟩ := entry
    obtain ⟨fresh,distinct⟩ := nodup_cons.mp distinct
    have first := backfillOne_rows start (stored (who,rows) (mem_cons_self ..))
    obtain ⟨grows,files⟩ := backfillOne_filed start s who rows
    obtain ⟨kept,growsLater,filesLater⟩ := ih (s := backfillOne start s (who,rows)) distinct (by
      intro entry mem
      rw [first,if_neg]
      · exact stored entry (mem_cons_of_mem _ mem)
      · intro same
        exact fresh (same ▸ mem_map_of_mem mem))
    refine ⟨?_,fun key present => growsLater key (grows key present),?_⟩
    · intro other absent
      obtain ⟨apart,absent⟩ := not_or.mp (mt mem_cons.mpr absent)
      exact (kept other absent).trans ((first other).trans (if_neg apart))
    · intro other listed sub mem active
      rcases mem_cons.mp listed with rfl | later
      · have early : sub ∈ rows.map (normalise start) := by
          rw [foldl_cons,kept _ fresh,first,if_pos rfl] at mem
          exact mem
        obtain ⟨day,known,entry⟩ := files sub early active
        exact ⟨day,known,growsLater _ entry⟩
      · exact filesLater other later sub mem active

theorem backfillDueIndex_indexed (indexed : Indexed cfg s.index) (limit consumed : Weight) :
    Indexed cfg (backfillDueIndex cfg s limit consumed).1.index := by
  unfold backfillDueIndex
  split
  · exact indexed
  next unfinished =>
    dsimp only
    generalize min cfg.maxBackfillAccountsPerRun (Usage.accountsAffordable cfg.usage limit consumed cfg.backfillAccount) = size
    split
    · exact indexed
    next sized =>
      obtain ⟨_,positive⟩ := not_or.mp sized
      generalize starts : s.dueDayCursor.getD (unixDayOfFirstOfMonthIn s.usage.nowMs 0) = start
      -- The floor is fixed before the first page.
      have before : ∀ who, (∃ last, s.backfillCursor = some last ∧ cfg.usage.market.accountRank who ≤ last) →
          AllFiled s.index start who := by
        rintro who ⟨last,known,passed⟩
        obtain ⟨cursor,stored⟩ := Option.isSome_iff_exists.mp (indexed.started (.inr (congrArg Option.isSome known)))
        have filed := indexed.filed who (.inr ⟨last,known,passed⟩)
        have same : cursor = start := by
          rw [← starts,show s.dueDayCursor = some cursor from stored,Option.getD_some]
        rw [stored,same] at filed
        exact filed
      have covers := page_covers cfg {s with dueDayCursor:=some start} s.backfillCursor size
      have stored := fun entry (mem : entry ∈ page cfg {s with dueDayCursor:=some start} s.backfillCursor size) =>
        page_stored mem
      have distinct := page_distinct cfg {s with dueDayCursor:=some start} s.backfillCursor size
      generalize page cfg {s with dueDayCursor:=some start} s.backfillCursor size = batch at covers stored distinct ⊢
      split
      next empty =>
        rw [getLast?_eq_none_iff.mp empty] at covers
        refine ⟨fun _ => rfl,?_⟩
        intro who _ sub mem active
        rcases covers who with none | passed | listed | full
        · have listed : sub ∈ subscriptionsOf s who := mem
          rw [show subscriptionsOf s who = [] from none] at listed
          cases listed
        · exact before who passed sub mem active
        · cases listed
        · exact absurd full.1 (Nat.not_le_of_lt (Nat.pos_of_ne_zero positive))
      next last ends =>
        obtain ⟨kept,grows,files⟩ := backfill_page (s := {s with dueDayCursor:=some start}) start batch distinct stored
        have cursor : (batch.foldl (backfillOne start) {s with dueDayCursor:=some start}).dueDayCursor = some start :=
          foldl_keeps (fun u : State A H B => u.dueDayCursor = some start) (f := backfillOne start)
            (fun _ _ same => same) batch rfl
        generalize batch.foldl (backfillOne start) {s with dueDayCursor:=some start} = filled at kept grows files cursor ⊢
        refine ⟨fun _ => congrArg Option.isSome cursor,?_⟩
        intro who covered sub mem active
        change Filed filled.dueAccounts (filled.dueDayCursor.getD 0) who sub
        rw [cursor]
        have listed : sub ∈ subscriptionsOf filled who := mem
        by_cases paged : who ∈ batch.map Prod.fst
        · exact files who paged sub listed active
        · rw [kept who paged] at listed
          rcases covers who with none | passed | present | full
          · rw [none] at listed
            cases listed
          · obtain ⟨day,known,entry⟩ := before who passed sub listed active
            exact ⟨day,known,grows _ entry⟩
          · exact absurd present paged
          · rcases covered with done | ⟨bound,known,passed⟩
            · exact absurd full.1 (Nat.not_le_of_lt (of_decide_eq_true done))
            · have resumes : nextCursor cfg size batch.length last.1 = some bound := known
              rw [nextCursor,if_neg (Nat.not_lt_of_le full.1)] at resumes
              cases resumes
              exact absurd passed (Nat.not_le_of_lt (full.2 last (List.mem_of_getLast? ends)))

section
variable [DecidableEq H]
variable (indexed : Indexed cfg s.index)
include indexed

theorem openSubscription_indexed
    (ran : openSubscription cfg s who plan cycles locationId image = .ok t) : Indexed cfg t.index := by
  refine indexed.transacts (openSubscription_transacts ran) ?_
  intro dated sub mem
  obtain ⟨listed,active⟩ := mem_filter.mp mem
  rcases mem_append.mp listed with old | new
  · exact dated sub old active
  · rw [mem_singleton.mp new]
    rfl

theorem purchasePlan_indexed
    (ran : purchasePlan cfg s origin owner planIds locationIds images cids payUpfront = .ok t) : Indexed cfg t.index := by
  refine purchasePlan_keeps (fun u => Indexed cfg u.index) (fun _ => indexed) ?_ ran
  intro u order v fine bought
  obtain ⟨_,_,_,_,_,_,opens,rfl⟩ := purchaseOne_ok bought
  have kept := openSubscription_indexed fine opens
  exact kept

theorem doCancel_indexed (ran : doCancelSubscriptionById s who key = .ok t) :
    Indexed cfg t.index := by
  obtain ⟨_,_,found,acts⟩ := doCancelSubscriptionById_ok ran
  refine indexed.transacts acts ?_
  intro dated row mem
  obtain ⟨listed,active⟩ := mem_filter.mp mem
  obtain ⟨old,origin,kin⟩ := (deactivate_descends found).kin row listed
  rcases kin.dated with same | known
  · rw [same]
    exact dated old origin (kin.active active)
  · exact known

theorem doDelete_indexed (ran : doDeleteStorageSubscriptionWithRefund s who = .ok t) :
    Indexed cfg t.index := by
  refine indexed.transacts (doDelete_transacts ran) ?_
  intro dated row mem
  obtain ⟨listed,active⟩ := mem_filter.mp mem
  exact dated row (mem_of_mem_filter listed) active

theorem doChange_indexed (ran : doChangePlanOfFlavour cfg s who flavour newPlanId = .ok t) :
    Indexed cfg t.index := by
  obtain ⟨_,_,_,sole,_,acts⟩ := doChangePlanOfFlavour_ok ran
  obtain ⟨_,_,_,_,split,replaced⟩ := soleActive_ok sole
  refine indexed.transacts acts ?_
  intro dated row mem
  obtain ⟨listed,active⟩ := mem_filter.mp mem
  rw [replaced] at listed
  rw [split] at dated
  rcases mem_append.mp listed with early | late
  · exact dated row (mem_append_left _ early) active
  · rcases mem_cons.mp late with rfl | late
    · rfl
    · exact dated row (mem_append_right _ (mem_cons_of_mem _ late)) active

end

variable [DecidableEq H]

theorem chargeAccountDue_frame (cfg : Config A H B) (s : State A H B) (who : A) (now : Nat) :
    (chargeAccountDue cfg s who now).dueDayCursor = s.dueDayCursor ∧
      (chargeAccountDue cfg s who now).backfillDone = s.backfillDone := by
  rcases chargeAccountDue_general cfg s who now with ⟨same,_⟩ | ⟨_,_,_,_,_,acts⟩
  · rw [same]
    exact ⟨rfl,rfl⟩
  · obtain ⟨_,_,_,_,_,_,_,same,_⟩ := acts.only
    rw [same]
    exact ⟨rfl,rfl⟩

theorem chargeAccountDue_indexed (now : Nat)
    (started : s.index.done = true ∨ s.index.backfill.isSome = true → s.index.cursor.isSome = true)
    (others : ∀ other, other ≠ who → Covered cfg s.index other → AllFiled s.index (s.dueDayCursor.getD 0) other)
    (own : Covered cfg s.index who → ∀ sub ∈ subscriptionsOf s who, sub.active = true →
      Waiting s.dueAccounts (s.dueDayCursor.getD 0) who sub) : Indexed cfg (chargeAccountDue cfg s who now).index := by
  rcases chargeAccountDue_general cfg s who now with ⟨same,inactive⟩ | ⟨_,_,_,_,descends,acts⟩
  · rw [same]
    refine ⟨started,?_⟩
    intro other covered sub mem active
    by_cases equal : other = who
    · subst equal
      rw [inactive sub mem] at active
      cases active
    · exact others other equal covered sub mem active
  · refine acts.indexed started others own ?_
    intro covered sub mem
    obtain ⟨listed,active⟩ := mem_filter.mp mem
    obtain ⟨old,origin,kin⟩ := descends.kin sub listed
    rcases kin.dated with same | dated
    · obtain ⟨_,known,_⟩ := own covered old origin (kin.active active)
      rw [same,known]
      rfl
    · exact dated

theorem Indexed.visit (indexed : Indexed cfg s.index) (who : A) (now : Nat) :
    Indexed cfg (chargeAccountDue cfg s who now).index := by
  refine chargeAccountDue_indexed now indexed.started ?_ ?_
  · intro other _ covered
    exact indexed.filed other covered
  · intro covered sub mem active
    exact (indexed.filed who covered sub mem active).waiting

theorem fullScan_indexed (indexed : Indexed cfg s.index) (now : Nat) (limit consumed : Weight) :
    Indexed cfg (fullScanSubscriptionCharging cfg s now limit consumed).index := by
  unfold fullScanSubscriptionCharging
  split
  · exact indexed
  · dsimp only
    split
    · exact indexed
    · split
      · exact indexed
      · exact foldl_keeps (fun u : State A H B => Indexed cfg u.index)
          (fun u who fine => fine.visit who now) _ indexed

theorem visit_draining (now : Nat) (who : A) (draining : Draining d) (published : d.published = some d.cursor) :
    Draining (visit cfg now d who) := by
  have cursor : d.state.dueDayCursor = some d.cursor := draining.stored.trans published
  have floor : d.state.dueDayCursor.getD 0 = d.cursor := by rw [cursor,Option.getD_some]
  have visited : Indexed cfg (visit cfg now d who).state.index := by
    refine chargeAccountDue_indexed now ?_ ?_ ?_
    · intro _
      exact congrArg Option.isSome cursor
    · intro other apart _ sub mem active
      obtain ⟨day,known,entry⟩ := draining.filed other sub mem active
      refine ⟨day,known,?_⟩
      change ((d.state.dueAccounts.erase (d.cursor,who)).lookup (max day (d.state.dueDayCursor.getD 0),other)).isSome = true
      rw [floor,lookup_erase_if,if_neg fun equal => apart (congrArg Prod.snd equal)]
      exact entry
    · intro _ sub mem active
      obtain ⟨day,known,entry⟩ := draining.filed who sub mem active
      refine ⟨day,known,?_⟩
      change day ≤ d.state.dueDayCursor.getD 0 ∨
        ((d.state.dueAccounts.erase (d.cursor,who)).lookup (max day (d.state.dueDayCursor.getD 0),who)).isSome = true
      rw [floor]
      rcases Nat.lt_or_ge d.cursor day with later | past
      · refine .inr ?_
        rw [lookup_erase_if,if_neg]
        · exact entry
        · intro equal
          have same := congrArg Prod.fst equal
          omega
      · exact .inl past
  have frame := chargeAccountDue_frame cfg {d.state with dueAccounts:=d.state.dueAccounts.erase (d.cursor,who)} who now
  have done : (visit cfg now d who).state.backfillDone = true := frame.2.trans draining.done
  have stored : (visit cfg now d who).state.dueDayCursor = d.state.dueDayCursor := frame.1
  refine ⟨done,stored.trans draining.stored,?_⟩
  intro other
  have filed := visited.filed other (.inl done)
  rw [show (visit cfg now d who).state.index.cursor = d.state.dueDayCursor from stored,floor] at filed
  exact filed

theorem batch_draining (now : Nat) (batch : List A) (draining : Draining d) (published : d.published = some d.cursor) :
    Draining (batch.foldl (visit cfg now) d) :=
  (foldl_keeps (fun e : Drain A H B => Draining e ∧ e.published = some e.cursor) (f := visit cfg now)
    (fun _ who fine => ⟨visit_draining now who fine.1 fine.2,fine.2⟩) batch ⟨draining,published⟩).1

theorem drain_draining (cfg : Config A H B) (limit : Weight) (today now turns : Nat) (within : today < 2 ^ 32) (draining : Draining d) :
    Draining (drain cfg limit today now turns d) := by
  induction turns generalizing d with
  | zero => exact draining
  | succ _ ih =>
    rw [drain]
    split
    · exact draining
    next going =>
      split
      · exact draining
      next sized =>
        split
        next empty =>
          split
          · exact draining
          · refine ih ⟨draining.done,draining.stored,?_⟩
            intro who
            rcases Nat.lt_or_ge (d.cursor + 1) (2 ^ 32) with small | last
            · rw [saturatingAdd_exact small]
              exact (draining.filed who).advance (dueBatch_empty sized empty who)
            · have same : saturatingAdd 32 d.cursor 1 = d.cursor := by
                unfold saturatingAdd maxOf
                omega
              rw [same]
              exact draining.filed who
        · obtain ⟨published,here⟩ := publish_draining draining
          exact ih (batch_draining now _ published here)

theorem handleAll_indexed (indexed : Indexed cfg s.index) (now : Nat) (limit consumed : Weight) :
    Indexed cfg (handleAllSubscriptionCharging cfg s now limit consumed).index := by
  unfold handleAllSubscriptionCharging
  dsimp only
  split
  · exact indexed
  · split
    · exact fullScan_indexed indexed now limit consumed
    next built =>
      split
      · exact indexed
      next left _ =>
        have done : s.backfillDone = true := Bool.of_not_eq_false built
        obtain ⟨cursor,stored⟩ := Option.isSome_iff_exists.mp (indexed.started (.inl done))
        change s.dueDayCursor = some cursor at stored
        have begins : Draining ⟨s,left,s.dueDayCursor.getD (currentUnixDay s),s.dueDayCursor,0,0⟩ := by
          refine ⟨done,rfl,?_⟩
          intro who
          have filed := indexed.filed who (.inl done)
          rw [show s.index.cursor = some cursor from stored] at filed
          rw [stored]
          exact filed
        have drained := drain_draining cfg limit (currentUnixDay s) now
          (cfg.maxSubscriptionChargesPerRun + maxDayProbes) (Nat.mod_lt _ (by decide)) begins
        exact ⟨fun _ => rfl,fun who _ => drained.filed who⟩

theorem AllFiled.repriced {i : Index A H} (filed : AllFiled i floor who) (rows : StorageMap A _)
    (each : (rows.lookup who).getD [] = (i.rowsOf who).map (reprice planId price) ∨ (rows.lookup who).getD [] = i.rowsOf who) :
    AllFiled {i with rows:=rows} floor who := by
  intro sub mem active
  change sub ∈ (rows.lookup who).getD [] at mem
  rcases each with changed | same
  · rw [changed] at mem
    obtain ⟨old,listed,rfl⟩ := mem_map.mp mem
    obtain ⟨stays,due⟩ := reprice_day planId price old
    obtain ⟨day,known,entry⟩ := filed old listed (stays ▸ active)
    exact ⟨day,due.trans known,entry⟩
  · rw [same] at mem
    exact filed sub mem active

theorem repricing_indexed (indexed : Indexed cfg s.index) : Indexed cfg (processPendingRepricing cfg s).index := by
  have job := processPendingRepricing_cases cfg s
  generalize processPendingRepricing cfg s = t at job ⊢
  cases job with
  | idle | retired => exact indexed
  | completed _ _ plans _ _ _ rows | walked _ _ plans _ _ _ _ rows =>
    refine ⟨indexed.started,?_⟩
    intro who covered
    exact (indexed.filed who covered).repriced plans ((rows who).imp_right And.left)

theorem dispatch_indexed (indexed : Indexed cfg s.index) (ran : dispatch cfg s call = .ok t) : Indexed cfg t.index := by
  cases call with
  | purchasePlan => exact purchasePlan_indexed indexed ran
  | cancelUserSubscription _ _ subscriptionId =>
    simp only [dispatch,cancelUserSubscription,passes] at ran
    obtain ⟨_,cancels⟩ := ran
    cases subscriptionId with
    | some => exact doCancel_indexed indexed cancels
    | none => exact doDelete_indexed indexed cancels
  | changeStoragePlan _ user =>
    simp only [dispatch,changeStoragePlan,dispatchPlanChange,passes] at ran
    obtain ⟨_,_,changes⟩ := ran
    exact doChange_indexed (s := setRequests s user _) indexed changes
  | changeS3Plan _ user =>
    simp only [dispatch,changeS3Plan,dispatchPlanChange,passes] at ran
    obtain ⟨_,_,changes⟩ := ran
    exact doChange_indexed (s := setRequests s user _) indexed changes
  | setPackageSuspension => exact (setPackageSuspension_lists ran).index ▸ indexed
  | addNewPlan => exact (addNewPlan_lists ran).index ▸ indexed
  | setPlanPrice => exact (setPlanPrice_lists ran).index ▸ indexed
  | removePlan => exact (removePlan_lists ran).index ▸ indexed
  | configure | usage =>
    cases ran
    exact indexed
  | nextBlock =>
    cases ran
    exact onInitialize_keeps cfg (fun u => Indexed cfg u.index) _ (fun _ _ _ fine => fine) (fun _ fine => repricing_indexed fine)
      (fun _ limit consumed fine => backfillDueIndex_indexed fine limit consumed)
      (fun _ limit consumed fine => handleAll_indexed fine _ limit consumed) indexed

theorem subscriptions_indexed (cfg : Config A H B) (start : State A H B)
    (fresh : start.backfillDone = false ∧ start.backfillCursor = none) (calls : List (Call A H B)) :
    let s := run (step cfg) start calls
    s.backfillDone = true → ∃ cursor, s.dueDayCursor = some cursor ∧
      ∀ who, ∀ sub ∈ subscriptionsOf s who, sub.active = true →
        ∃ day, sub.nextChargeUnixDay = some day ∧ (s.dueAccounts.lookup (max day cursor,who)).isSome = true := by
  intro s done
  have indexed : Indexed cfg s.index :=
    run_always (fun u : State A H B => Indexed cfg u.index)
      (fun u call fine => commit_inv (fun t => Indexed cfg t.index) fine fun t ran => dispatch_indexed fine ran)
      (fresh_indexed fresh)
  obtain ⟨cursor,stored⟩ := Option.isSome_iff_exists.mp (indexed.started (.inl done))
  refine ⟨cursor,stored,?_⟩
  intro who sub mem active
  obtain ⟨day,known,entry⟩ := indexed.filed who (.inl done) sub mem active
  rw [stored] at entry
  exact ⟨day,known,entry⟩

end

def legacy : State Nat Nat (Nat → Nat) :=
  {unsold with userAllSubscriptionPlans:=
    AList.insert 1 [⟨0,1,⟨3,false,0,true,false⟩,none,true,0,none,none,0⟩] ∅}

theorem subscriptions_indexed_legacy :
    (run (step plainConfig) legacy [.nextBlock]).backfillDone = true ∧
      (subscriptionsOf (run (step plainConfig) legacy [.nextBlock]) 1).length = 1 ∧
      ∃ cursor, (run (step plainConfig) legacy [.nextBlock]).dueDayCursor = some cursor ∧
        ∀ who, ∀ sub ∈ subscriptionsOf (run (step plainConfig) legacy [.nextBlock]) who, sub.active = true →
          ∃ day, sub.nextChargeUnixDay = some day ∧
            ((run (step plainConfig) legacy [.nextBlock]).dueAccounts.lookup (max day cursor,who)).isSome = true :=
  ⟨by decide +kernel,by decide +kernel,subscriptions_indexed plainConfig legacy ⟨rfl,rfl⟩ [.nextBlock] (by decide +kernel)⟩

end TheBrain.Marketplace.Subscriptions
