import TheBrain.Marketplace.SubscriptionMoves

namespace TheBrain.Marketplace.Subscriptions
open Library Machine Words Calendar Relation List

section
variable {A H B : Type}
variable {s t : State A H B}

theorem descends_sublist {subs rows : List (UserPlanSubscription A H)} (descends : Descends subs rows) :
    ((rows.filter fun sub => sub.active).map fun sub => sub.id).Sublist (subs.map fun sub => sub.id) := by
  rw [← descends.ids]
  exact filter_sublist.map _

structure SameCycles (one two : UserPlanSubscription A H) : Prop where
  id : two.id = one.id
  active : two.active = one.active
  paidPerMonth : two.paidPerMonth = one.paidPerMonth
  dated : one.nextChargeUnixDay.isSome = true → two.nextChargeUnixDay = one.nextChargeUnixDay

theorem SameCycles.refl (sub : UserPlanSubscription A H) : SameCycles sub sub := ⟨rfl,rfl,rfl,fun _ => rfl⟩

variable [DecidableEq A] {cfg : Config A H B}

-- Ids are distinct, within an account and between accounts, and were handed out before.
structure Numbered (s : State A H B) : Prop where
  distinct : ∀ who, ((subscriptionsOf s who).map fun sub => sub.id).Nodup
  apart : ∀ one two, one ≠ two → ∀ sub ∈ subscriptionsOf s one, ∀ other ∈ subscriptionsOf s two, sub.id ≠ other.id
  below : ∀ who, ∀ sub ∈ subscriptionsOf s who, sub.id < s.nextSubscriptionId

theorem Numbered.sameIds (numbered : Numbered s)
    (ids : ∀ who, (subscriptionsOf t who).map (fun sub => sub.id) = (subscriptionsOf s who).map fun sub => sub.id)
    (next : t.nextSubscriptionId = s.nextSubscriptionId) : Numbered t := by
  have origin : ∀ who, ∀ sub ∈ subscriptionsOf t who, ∃ old ∈ subscriptionsOf s who, old.id = sub.id := by
    intro who sub mem
    have listed : sub.id ∈ (subscriptionsOf t who).map fun sub => sub.id := mem_map_of_mem mem
    rw [ids] at listed
    exact mem_map.mp listed
  refine ⟨?_,?_,?_⟩
  · intro who
    rw [ids]
    exact numbered.distinct who
  · intro one two different sub mem other listed
    obtain ⟨first,here,same⟩ := origin one sub mem
    obtain ⟨second,there,equal⟩ := origin two other listed
    rw [← same,← equal]
    exact numbered.apart one two different first here second there
  · intro who sub mem
    obtain ⟨old,here,same⟩ := origin who sub mem
    rw [← same,next]
    exact numbered.below who old here

theorem Transacts.numbered (acts : Transacts s t who rows issued charge refund log) (numbered : Numbered s)
    (room : t.nextSubscriptionId < maxOf 32) (distinct : (rows.map fun sub => sub.id).Nodup)
    (each : ∀ row ∈ rows, (∃ sub ∈ subscriptionsOf s who, sub.id = row.id) ∨ issued = true ∧ row.id = s.nextSubscriptionId) :
    Numbered t := by
  have next := acts.next
  have moved : s.nextSubscriptionId ≤ t.nextSubscriptionId ∧ (issued = true → s.nextSubscriptionId < t.nextSubscriptionId) := by
    cases issued with
    | false => exact ⟨Nat.le_of_eq next.symm,fun never => Bool.noConfusion never⟩
    | true =>
      rw [if_pos rfl] at next
      unfold saturatingAdd at next
      exact ⟨by omega,fun _ => by omega⟩
  have apart : ∀ row ∈ rows, ∀ other, other ≠ who → ∀ sub ∈ subscriptionsOf s other, row.id ≠ sub.id := by
    intro row mem other different sub listed
    rcases each row mem with ⟨old,here,same⟩ | ⟨_,fresh⟩
    · rw [← same]
      exact numbered.apart who other (Ne.symm different) old here sub listed
    · rw [fresh]
      exact Nat.ne_of_gt (numbered.below other sub listed)
  refine ⟨?_,?_,?_⟩
  · intro account
    by_cases own : account = who
    · subst own
      rw [acts.stored]
      exact distinct
    · rw [acts.others account own]
      exact numbered.distinct account
  · intro one two different sub mem other listed
    by_cases first : one = who
    · subst first
      rw [acts.stored] at mem
      rw [acts.others two (Ne.symm different)] at listed
      exact apart sub mem two (Ne.symm different) other listed
    · rw [acts.others one first] at mem
      by_cases second : two = who
      · subst second
        rw [acts.stored] at listed
        exact (apart other listed one first sub mem).symm
      · rw [acts.others two second] at listed
        exact numbered.apart one two different sub mem other listed
  · intro account sub mem
    by_cases own : account = who
    · subst own
      rw [acts.stored] at mem
      rcases each sub mem with ⟨old,here,same⟩ | ⟨issues,fresh⟩
      · rw [← same]
        exact Nat.lt_of_lt_of_le (numbered.below account old here) moved.1
      · rw [fresh]
        exact moved.2 issues
    · rw [acts.others account own] at mem
      exact Nat.lt_of_lt_of_le (numbered.below account sub mem) moved.1

theorem Transacts.room (acts : Transacts s t who rows issued charge refund log) (room : t.nextSubscriptionId < maxOf 32) :
    s.nextSubscriptionId < maxOf 32 := by
  have next := acts.next
  cases issued with
  | false =>
    rw [if_neg Bool.false_ne_true] at next
    omega
  | true =>
    rw [if_pos rfl] at next
    unfold saturatingAdd at next
    omega

structure Retains (s t : State A H B) : Prop where
  renewals : t.renewals = s.renewals
  next : t.nextSubscriptionId = s.nextSubscriptionId
  anchors : t.subscriptionAnchorDay = s.subscriptionAnchorDay
  rows : ∀ who, ∃ f, subscriptionsOf t who = (subscriptionsOf s who).map f ∧
    ∀ sub : UserPlanSubscription A H, SameCycles sub (f sub)

theorem retains_plans (same : t.userAllSubscriptionPlans = s.userAllSubscriptionPlans) (renewals : t.renewals = s.renewals)
    (next : t.nextSubscriptionId = s.nextSubscriptionId) (anchors : t.subscriptionAnchorDay = s.subscriptionAnchorDay) :
    Retains s t := by
  refine ⟨renewals,next,anchors,?_⟩
  intro who
  refine ⟨id,?_,fun sub => .refl sub⟩
  rw [map_id,subscriptionsOf,subscriptionsOf,same]

theorem Retains.numbered (retains : Retains s t) (numbered : Numbered s) : Numbered t := by
  refine numbered.sameIds ?_ retains.next
  intro who
  obtain ⟨_,rows,each⟩ := retains.rows who
  rw [rows,List.map_map]
  exact List.map_congr_left fun sub _ => (each sub).id

structure Idle (s t : State A H B) : Prop where
  retains : Retains s t
  clock : t.usage.nowMs = s.usage.nowMs
  free : t.usage.market.freeCredits = s.usage.market.freeCredits
  charged : ∀ who, chargedTo t who = chargedTo s who
  refunded : ∀ who, refundedTo t who = refundedTo s who

theorem Lists.idle (lists : Lists s t) : Idle s t := by
  obtain ⟨_,logged,quiet⟩ := lists.logged
  have silent : ∀ who, chargesFor t.events who = chargesFor s.events who := by
    intro who
    rw [logged,chargesFor,map_append,sum_append]
    refine Nat.add_eq_left.mpr (sum_eq_zero ?_)
    intro amount mem
    obtain ⟨event,listed,rfl⟩ := mem_map.mp mem
    have still := quiet event listed
    cases event with
    | pointTransactionRecorded => cases still
    | _ => rfl
  rw [lists.frame]
  exact ⟨retains_plans rfl rfl rfl rfl,rfl,rfl,silent,fun _ => rfl⟩

variable [DecidableEq H]

-- A move keeps the rows of all accounts, edits those of one, or is a visit of one.
inductive Turn (cfg : Config A H B) (s t : State A H B) : Prop where
  | retains (retains : Retains s t)
  | edits (who : A) (rows : List (UserPlanSubscription A H)) (issued : Bool) (charge refund : Nat)
      (acts : Transacts s t who rows issued charge refund [])
      (each : ∀ row ∈ rows, row ∈ subscriptionsOf s who ∨ issued = true ∧ row.id = s.nextSubscriptionId)
      (distinct : Numbered s → (rows.map fun sub => sub.id).Nodup)
  | visits (who : A) (now : Nat) (same : t = chargeAccountDue cfg s who now)

theorem work_idle (works : Work cfg s t) : Idle s t ∨ ∃ who now, t = chargeAccountDue cfg s who now := by
  have rewritten : ∀ (plans : StorageMap A _) f who,
      (∀ sub : UserPlanSubscription A H, SameCycles sub (f sub)) →
      ((plans.lookup who).getD [] = (subscriptionsOf s who).map f ∨ (plans.lookup who).getD [] = subscriptionsOf s who) →
      ∃ f, (plans.lookup who).getD [] = (subscriptionsOf s who).map f ∧
        ∀ sub : UserPlanSubscription A H, SameCycles sub (f sub) := by
    intro plans f who each rows
    rcases rows with filled | same
    · exact ⟨f,filled,each⟩
    · exact ⟨id,same.trans (map_id _).symm,fun sub => .refl sub⟩
  have reprices : ∀ (planId : H) price (sub : UserPlanSubscription A H), SameCycles sub (reprice planId price sub) := by
    intro planId price sub
    rw [reprice]
    split
    · exact ⟨rfl,rfl,rfl,fun _ => rfl⟩
    · exact .refl sub
  cases works with
  | visited who now => exact .inr ⟨who,now,rfl⟩
  | backfilled start plans rows =>
    refine .inl ⟨⟨rfl,rfl,rfl,fun who => rewritten plans (normalise start) who ?_ (rows who)⟩,rfl,rfl,fun _ => rfl,fun _ => rfl⟩
    intro sub
    rw [normalise]
    split
    next legacy =>
      refine ⟨rfl,rfl,rfl,?_⟩
      intro dated
      rw [legacy.2] at dated
      cases dated
    · exact .refl sub
  | indexed => exact .inl ⟨retains_plans rfl rfl rfl rfl,rfl,rfl,fun _ => rfl,fun _ => rfl⟩
  | quiet _ silent =>
    exact .inl ⟨retains_plans rfl rfl rfl rfl,rfl,silent.freeCredits,fun _ => rfl,silent.refunds⟩
  | repriced =>
    have job := processPendingRepricing_cases cfg s
    generalize processPendingRepricing cfg s = t at job ⊢
    cases job with
    | idle | retired => exact .inl ⟨retains_plans rfl rfl rfl rfl,rfl,rfl,fun _ => rfl,fun _ => rfl⟩
    | completed planId sold plans _ _ _ rows =>
      exact .inl ⟨⟨rfl,rfl,rfl,fun who => rewritten plans _ who (reprices planId sold.price) ((rows who).imp_right And.left)⟩,
        rfl,rfl,fun who => chargesFor_event s.events _ who,fun _ => rfl⟩
    | walked planId sold plans _ _ _ _ rows =>
      exact .inl ⟨⟨rfl,rfl,rfl,fun who => rewritten plans _ who (reprices planId sold.price) ((rows who).imp_right And.left)⟩,
        rfl,rfl,fun _ => rfl,fun _ => rfl⟩

theorem work_turns (works : Work cfg s t) : Turn cfg s t := by
  rcases work_idle works with idle | ⟨who,now,same⟩
  · exact .retains idle.retains
  · exact .visits who now same

theorem move_turns (move : Move cfg s t) : Turn cfg s t := by
  have listed : Lists s t → Turn cfg s t := fun lists => .retains lists.idle.retains
  cases move with
  | work works => exact work_turns works
  | opened who _ _ _ _ _ _ _ ran =>
    refine .edits who _ true _ 0 (openSubscription_transacts ran) ?_ ?_
    · intro row mem
      rcases mem_append.mp (mem_of_mem_filter mem) with old | new
      · exact .inl old
      · rw [mem_singleton.mp new]
        exact .inr ⟨rfl,rfl⟩
    · intro numbered
      refine (filter_sublist.map fun sub : UserPlanSubscription A H => sub.id).nodup ?_
      rw [map_append]
      refine nodup_append.mpr ⟨numbered.distinct who,nodup_singleton _,?_⟩
      intro id listed fresh single
      obtain ⟨sub,mem,rfl⟩ := mem_map.mp listed
      rw [mem_singleton.mp single]
      exact Nat.ne_of_lt (numbered.below who sub mem)
  | cancelled who _ ran =>
    obtain ⟨sub,_,found,acts⟩ := doCancelSubscriptionById_ok ran
    refine .edits who _ false _ _ acts ?_ ?_
    · intro row mem
      obtain ⟨_,_,before,after,split,dropped⟩ := deactivate_some found
      obtain ⟨listed,active⟩ := mem_filter.mp mem
      rw [dropped] at listed
      rw [split]
      rcases mem_append.mp listed with early | late
      · exact .inl (mem_append_left _ early)
      · rcases mem_cons.mp late with rfl | late
        · cases active
        · exact .inl (mem_append_right _ (mem_cons_of_mem _ late))
    · intro numbered
      exact (descends_sublist (deactivate_descends found)).nodup (numbered.distinct who)
  | deleted who ran =>
    refine .edits who _ false _ _ (doDelete_transacts ran) ?_ ?_
    · intro row mem
      exact .inl (mem_of_mem_filter (mem_of_mem_filter mem))
    · intro numbered
      exact ((filter_sublist.trans filter_sublist).map _).nodup (numbered.distinct who)
  | changed who _ _ ran =>
    obtain ⟨old,_,_,sole,_,acts⟩ := doChangePlanOfFlavour_ok ran
    obtain ⟨_,_,before,after,split,replaced⟩ := soleActive_ok sole
    refine .edits who _ true _ _ acts ?_ ?_
    · intro row mem
      rcases mem_or_eq_of_mem_set (mem_of_mem_filter mem) with old | rfl
      · exact .inl old
      · exact .inr ⟨rfl,rfl⟩
    · intro numbered
      have distinct := numbered.distinct who
      have below := numbered.below who
      refine (filter_sublist.map fun sub : UserPlanSubscription A H => sub.id).nodup ?_
      rw [replaced]
      rw [split] at distinct below
      rw [map_append] at distinct ⊢
      obtain ⟨first,second,disjoint⟩ := nodup_append.mp distinct
      have fresh : ∀ sub ∈ before ++ after, sub.id ≠ s.nextSubscriptionId := by
        intro sub mem
        refine Nat.ne_of_lt (below sub ?_)
        rcases mem_append.mp mem with early | late
        · exact mem_append_left _ early
        · exact mem_append_right _ (mem_cons_of_mem _ late)
      refine nodup_append.mpr ⟨first,nodup_cons.mpr ⟨?_,(nodup_cons.mp second).2⟩,?_⟩
      · intro listed
        obtain ⟨sub,mem,same⟩ := mem_map.mp listed
        exact fresh sub (mem_append_right _ mem) same
      · intro one early two late
        rcases mem_cons.mp late with rfl | late
        · obtain ⟨sub,mem,rfl⟩ := mem_map.mp early
          exact fresh sub (mem_append_left _ mem)
        · exact disjoint one early two (mem_cons_of_mem _ late)
  | suspended _ _ _ ran => exact listed (setPackageSuspension_lists ran)
  | added _ _ _ _ _ ran => exact listed (addNewPlan_lists ran)
  | priced _ _ _ ran => exact listed (setPlanPrice_lists ran)
  | removed _ _ ran => exact listed (removePlan_lists ran)
  | configured _ same | noted _ _ same =>
    subst same
    exact .retains (retains_plans rfl rfl rfl rfl)

theorem usage_turns (s : State A H B) (call : Usage.Call A H B) :
    Turn cfg s {s with usage:=Usage.step cfg.usage s.usage call} :=
  .retains (retains_plans rfl rfl rfl rfl)

theorem Turn.numbered (turn : Turn cfg s t) (room : t.nextSubscriptionId < maxOf 32) :
    s.nextSubscriptionId < maxOf 32 ∧ (Numbered s → Numbered t) := by
  cases turn with
  | retains retains => exact ⟨retains.next ▸ room,retains.numbered⟩
  | edits _ _ _ _ _ acts each distinct =>
    refine ⟨acts.room room,fun numbered => acts.numbered numbered room (distinct numbered) ?_⟩
    intro row mem
    rcases each row mem with old | fresh
    · exact .inl ⟨row,old,rfl⟩
    · exact .inr fresh
  | visits who now same =>
    subst same
    rcases chargeAccountDue_general cfg s who now with ⟨same,_⟩ | ⟨_,_,_,_,descends,acts⟩
    · rw [same] at room ⊢
      exact ⟨room,fun numbered => numbered⟩
    · have kept := descends_sublist descends
      refine ⟨acts.room room,fun numbered => acts.numbered numbered room (kept.nodup (numbered.distinct who)) ?_⟩
      intro row mem
      obtain ⟨sub,listed,same⟩ := mem_map.mp (kept.subset (mem_map_of_mem mem))
      exact .inl ⟨sub,listed,same⟩

inductive Hop (cfg : Config A H B) (s t : State A H B) : Prop where
  | move (moves : Move cfg s t)
  | usage (call : Usage.Call A H B) (same : t = {s with usage:=Usage.step cfg.usage s.usage call})

theorem run_hops (calls : List (Call A H B)) : ReflTransGen (Hop cfg) s (run (step cfg) s calls) := by
  refine run_always (ReflTransGen (Hop cfg) s) ?_ .refl
  intro u call path
  refine step_keeps (ReflTransGen (Hop cfg) s) ?_ ?_ call path
  · exact fun v w moves reached => reached.tail (.move moves)
  · exact fun v c reached => reached.tail (.usage c rfl)

theorem Hop.turns (hop : Hop cfg s t) : Turn cfg s t := by
  cases hop with
  | move moves => exact move_turns moves
  | usage call same =>
    subst same
    exact usage_turns s call

theorem hops_numbered (path : ReflTransGen (Hop cfg) s t) :
    t.nextSubscriptionId < maxOf 32 → s.nextSubscriptionId < maxOf 32 ∧ (Numbered s → Numbered t) := by
  induction path with
  | refl => exact fun room => ⟨room,fun numbered => numbered⟩
  | tail _ hop ih =>
    intro room
    obtain ⟨before,keeps⟩ := hop.turns.numbered room
    obtain ⟨start,earlier⟩ := ih before
    exact ⟨start,fun numbered => keeps (earlier numbered)⟩

end

section
variable {A H B : Type} {subs : List (UserPlanSubscription A H)}

theorem same_row (distinct : (subs.map fun sub => sub.id).Nodup) (one : sub ∈ subs) (two : other ∈ subs) (same : sub.id = other.id) :
    sub = other := inj_on_of_nodup_map distinct one two same

def switchOff (ids : List Nat) (sub : UserPlanSubscription A H) : UserPlanSubscription A H :=
  if sub.id ∈ ids then {sub with active:=false} else sub

theorem deactivate_found (distinct : (subs.map fun sub => sub.id).Nodup) (mem : sub ∈ subs) (active : sub.active = true) :
    deactivate sub.id subs = some (sub,subs.map (switchOff [sub.id])) := by
  induction subs with
  | nil => cases mem
  | cons first subs ih =>
    obtain ⟨fresh,distinct⟩ := nodup_cons.mp distinct
    rw [deactivate,map_cons]
    rcases mem_cons.mp mem with rfl | later
    · rw [if_pos ⟨rfl,active⟩,switchOff,if_pos mem_cons_self]
      congr
      symm
      refine (map_congr_left ?_).trans (map_id subs)
      intro other listed
      rw [switchOff,if_neg]
      · rfl
      · intro same
        exact fresh (mem_map.mpr ⟨other,listed,mem_singleton.mp same⟩)
    · have apart : first.id ≠ sub.id := by
        intro same
        exact fresh (mem_map.mpr ⟨sub,later,same.symm⟩)
      rw [if_neg fun both => apart both.1,ih distinct later,switchOff,if_neg fun same => apart (mem_singleton.mp same)]
      rfl

theorem find_row (mem : sub ∈ subs) : ∃ found, subs.find? (fun other => other.id = sub.id) = some found := by
  have named : (subs.find? fun other => other.id = sub.id).isSome = true :=
    List.find?_isSome.mpr ⟨sub,mem,decide_eq_true rfl⟩
  exact Option.isSome_iff_exists.mp named

theorem unused_due {s : State A H B} {sub : UserPlanSubscription A H}
    (due : isDue (currentUnixDay s) sub = true) : unusedPrepaidRefundCredits s sub = 0 := by
  rw [unusedPrepaidRefundCredits,cyclePosition]
  rw [isDue] at due
  cases known : sub.nextChargeUnixDay with
  | none => rfl
  | some =>
    rw [known] at due
    dsimp only
    rw [if_pos (of_decide_eq_true due)]

theorem switchOff_cons (id : Nat) (ids : List Nat) (sub : UserPlanSubscription A H) :
    switchOff ids (switchOff [id] sub) = switchOff (id :: ids) sub := by
  by_cases same : sub.id = id
  · have first : switchOff [id] sub = {sub with active:=false} := if_pos (mem_singleton.mpr same)
    rw [first,switchOff,switchOff,if_pos (mem_cons.mpr (.inl same)),ite_self]
  · have first : switchOff [id] sub = sub := if_neg fun listed => same (mem_singleton.mp listed)
    rw [first,switchOff,switchOff]
    simp only [mem_cons,same,false_or]

theorem totalCharge_zero (due : List (UserPlanSubscription A H)) (zero : totalCharge due = 0) :
    ∀ sub ∈ due, priceOf sub = 0 := by
  have folded : ∀ (due : List (UserPlanSubscription A H)) (total : Nat),
      due.foldl (fun total sub => saturatingAdd 128 total sub.package.price) total = 0 → total = 0 ∧ ∀ sub ∈ due, priceOf sub = 0 := by
    intro due
    induction due with
    | nil => exact fun total zero => ⟨zero,nofun⟩
    | cons first _ ih =>
      intro total zero
      obtain ⟨none,rest⟩ := ih _ zero
      have sum : saturatingAdd 128 total first.package.price = 0 := none
      have positive : 0 < maxOf 128 := by decide
      unfold saturatingAdd at sum
      refine ⟨by omega,?_⟩
      intro sub mem
      rcases mem_cons.mp mem with rfl | later
      · rw [priceOf]
        omega
      · exact rest sub later
  exact (folded due 0 zero).2

variable [DecidableEq A]

theorem dropFailed_due (who : A) (one two : Nat) (p : Renewal A H B) (entry : Nat × Nat)
    (distinct : (p.subs.map fun sub => sub.id).Nodup) (mem : sub ∈ p.subs) (named : sub.id = entry.1)
    (due : charges (currentUnixDay p.state) sub = true) :
    (dropFailed who one two p entry).subs = p.subs.map (switchOff [entry.1]) ∧
      (dropFailed who one two p entry).state.usage = p.state.usage ∧
      Pays p.state (dropFailed who one two p entry).state who 0 0 [] := by
  obtain ⟨active,due⟩ := (Bool.and_eq_true _ _).mp due
  obtain ⟨_,found⟩ := find_row mem
  have dropped := deactivate_found distinct mem active
  have nothing : refundCredits p.state who (unusedPrepaidRefundCredits p.state sub) = .ok p.state := by
    rw [unused_due due]
    rfl
  rw [named] at found dropped
  unfold dropFailed
  rw [found]
  rw [dropped]
  dsimp only
  rw [nothing]
  exact ⟨rfl,rfl,(pays_event p.state who rfl).trans (pays_event _ who rfl)⟩

theorem dropAll_due (who : A) (one two today : Nat) (failed : List (Nat × Nat)) (p : Renewal A H B)
    (day : currentUnixDay p.state = today) (distinct : (p.subs.map fun sub => sub.id).Nodup)
    (each : ∀ entry ∈ failed, ∃ sub ∈ p.subs, sub.id = entry.1 ∧ charges today sub = true) (once : (failed.map Prod.fst).Nodup) :
    (failed.foldl (dropFailed who one two) p).subs = p.subs.map (switchOff (failed.map Prod.fst)) ∧
      (failed.foldl (dropFailed who one two) p).state.usage = p.state.usage ∧
      Pays p.state (failed.foldl (dropFailed who one two) p).state who 0 0 [] := by
  induction failed generalizing p with
  | nil =>
    refine ⟨?_,rfl,.refl p.state who⟩
    exact ((List.map_congr_left fun sub _ => if_neg List.not_mem_nil).trans (List.map_id p.subs)).symm
  | cons entry _ ih =>
    obtain ⟨sub,mem,named,due⟩ := each entry List.mem_cons_self
    obtain ⟨fresh,once⟩ := List.nodup_cons.mp once
    obtain ⟨rows,usage,pays⟩ := dropFailed_due who one two p entry distinct mem named (day ▸ due)
    have ids : ((dropFailed who one two p entry).subs.map fun sub => sub.id) = p.subs.map fun sub => sub.id := by
      rw [rows,List.map_map]
      refine List.map_congr_left fun sub _ => ?_
      rw [Function.comp_apply,switchOff]
      split
      · rfl
      · rfl
    obtain ⟨later,usageLater,paysLater⟩ := ih (dropFailed who one two p entry) (pays.aside.today.trans day) (ids ▸ distinct) (by
      intro other listed
      obtain ⟨row,stored,called,dueRow⟩ := each other (List.mem_cons_of_mem _ listed)
      refine ⟨row,?_,called,dueRow⟩
      rw [rows]
      refine List.mem_map.mpr ⟨row,stored,if_neg ?_⟩
      intro same
      exact fresh (List.mem_map.mpr ⟨other,listed,called.symm.trans (List.mem_singleton.mp same)⟩)) once
    refine ⟨?_,usageLater.trans usage,pays.trans paysLater⟩
    rw [List.foldl_cons,later,rows,List.map_map]
    exact List.map_congr_left fun sub _ => switchOff_cons entry.1 _ sub

variable [DecidableEq H]

-- What a round makes of a row: the paid ones move on by a cycle, the unpaid ones end.
def billedRow (s : State A H B) (today now : Nat) (paid unpaid : List (UserPlanSubscription A H))
    (sub : UserPlanSubscription A H) : UserPlanSubscription A H :=
  if sub ∈ paid then advanceSubscriptionCycle s today now sub else if sub ∈ unpaid then {sub with active:=false} else sub

structure Billed (who : A) (today now : Nat) (p q : Renewal A H B)
    (paid unpaid : List (UserPlanSubscription A H)) : Prop
    extends Splits p.state q.state who (p.subs.filter (charges today)) paid unpaid where
  distinct : (paid ++ unpaid).Nodup
  rows : q.subs = p.subs.map (billedRow p.state today now paid unpaid)

theorem renewFree_billed (who : A) (now : Nat) (p : Renewal A H B)
    (distinct : (p.subs.map fun sub => sub.id).Nodup)
    (free : ∀ sub ∈ p.subs.filter (charges (currentUnixDay p.state)), priceOf sub = 0) :
    Billed who (currentUnixDay p.state) now p (renewFree who (currentUnixDay p.state) now p)
      (p.subs.filter (charges (currentUnixDay p.state))) [] := by
  have pays := renewFree_pays who (currentUnixDay p.state) now p
  have nothing : ((p.subs.filter (charges (currentUnixDay p.state))).map priceOf).sum = 0 := by
    refine sum_eq_zero ?_
    intro price mem
    obtain ⟨sub,listed,rfl⟩ := mem_map.mp mem
    exact free sub listed
  have log : ((p.subs.filter (charges (currentUnixDay p.state))).map fun sub => {renewalOf p.state who sub with price:=0}) =
      (p.subs.filter (charges (currentUnixDay p.state))).map (renewalOf p.state who) := by
    refine map_congr_left fun sub listed => ?_
    rw [← free sub listed]
    rfl
  rw [log] at pays
  have same : (renewFree who (currentUnixDay p.state) now p).state.usage = p.state.usage := by
    refine foldl_keeps (fun s : State A H B => s.usage = p.state.usage) ?_ _ rfl
    exact fun u sub same => same
  refine ⟨⟨by rw [append_nil],by rwa [nothing],?_⟩,?_,?_⟩
  · rw [nothing,State.freeCredits,same]
    rfl
  · rw [append_nil]
    exact (Nodup.of_map _ distinct).filter _
  · refine map_congr_left fun sub mem => ?_
    rw [billedRow]
    simp only [mem_filter,mem,true_and,not_mem_nil,if_false]

theorem settleRows_paid {s charged : State A H B} {paid unpaid : List (UserPlanSubscription A H)}
    (aside : Aside s charged log)
    (due : ∀ sub ∈ subs, charges today sub = true ↔ sub ∈ paid ∨ sub ∈ unpaid) (apart : ∀ sub ∈ paid, sub ∉ unpaid)
    (failing : ∀ sub ∈ subs, sub.id ∈ failed.map Prod.fst ↔ sub ∈ unpaid) (now : Nat) :
    settleRows charged today now failed subs = subs.map fun sub =>
      if sub ∈ paid then advanceSubscriptionCycle s today now sub else sub := by
  refine map_congr_left fun sub mem => ?_
  have moves : (charges today sub && !(failed.any fun entry => entry.1 = sub.id)) = true ↔ sub ∈ paid := by
    have named : (failed.any fun entry => entry.1 = sub.id) = true ↔ sub ∈ unpaid := by
      rw [← failing sub mem,any_eq_true,mem_map]
      simp only [decide_eq_true_eq]
    rw [Bool.and_eq_true,due sub mem,Bool.not_eq_true',← Bool.not_eq_true,named]
    constructor
    · rintro ⟨pays | fails,without⟩
      · exact pays
      · exact absurd fails without
    · intro pays
      exact ⟨.inl pays,apart sub pays⟩
  have same : advanceSubscriptionCycle charged today now sub = advanceSubscriptionCycle s today now sub := by
    rw [advanceSubscriptionCycle,aside.anchorOf]
    rfl
  rw [same]
  exact if_congr moves rfl rfl

theorem renewPaid_billed (cfg : Config A H B) (who : A) (now : Nat) (p : Renewal A H B)
    (distinct : (p.subs.map fun sub => sub.id).Nodup) :
    ∃ paid unpaid, Billed who (currentUnixDay p.state) now p (renewPaid cfg who (currentUnixDay p.state) now p) paid unpaid := by
  obtain ⟨paid,unpaid,failed,one,two,charged,settled,ids,aside,splits,same⟩ :=
    renewPaid_parts cfg who (currentUnixDay p.state) now p
  -- Whoever is in a part is a due row, and its id is in no other place.
  have due : ∀ sub, sub ∈ paid ∨ sub ∈ unpaid ↔ sub ∈ p.subs ∧ charges (currentUnixDay p.state) sub = true := by
    intro sub
    rw [← List.mem_append,splits.parts.mem_iff,List.mem_filter]
  have once : ((paid ++ unpaid).map fun sub => sub.id).Nodup :=
    (splits.parts.map _).nodup_iff.mpr ((List.filter_sublist.map _).nodup distinct)
  have apart : ∀ sub ∈ paid, sub ∉ unpaid := by
    intro sub one two
    exact (List.nodup_append.mp (List.Nodup.of_map _ once)).2.2 sub one sub two rfl
  have failing : ∀ sub ∈ p.subs, sub.id ∈ failed.map Prod.fst ↔ sub ∈ unpaid := by
    intro sub mem
    rw [ids]
    constructor
    · intro listed
      obtain ⟨other,without,named⟩ := List.mem_map.mp listed
      rw [← same_row distinct ((due other).mp (.inr without)).1 mem named]
      exact without
    · exact List.mem_map_of_mem
  have chargeable : ∀ sub ∈ p.subs, charges (currentUnixDay p.state) sub = true ↔ sub ∈ paid ∨ sub ∈ unpaid := by
    intro sub mem
    rw [due,and_iff_right mem]
  have settles := settleRows_paid aside chargeable apart failing now
  have dropped := dropAll_due who one two (currentUnixDay p.state) failed
    ⟨settled,settleRows charged (currentUnixDay p.state) now failed p.subs⟩ splits.pays.aside.today (by
      rw [(settleRows_descends charged (currentUnixDay p.state) now failed p.subs).ids]
      exact distinct) (by
      intro entry mem
      have listed : entry.1 ∈ failed.map Prod.fst := List.mem_map_of_mem mem
      rw [ids] at listed
      obtain ⟨sub,without,named⟩ := List.mem_map.mp listed
      obtain ⟨stored,charges⟩ := (due sub).mp (.inr without)
      refine ⟨sub,?_,named,charges⟩
      rw [settles]
      exact List.mem_map.mpr ⟨sub,stored,if_neg fun pays => apart sub pays without⟩) (by
      rw [ids]
      rw [List.map_append] at once
      exact (List.nodup_append.mp once).2.1)
  obtain ⟨rows,usage,pays⟩ := dropped
  rw [← same] at rows usage pays
  refine ⟨paid,unpaid,⟨splits.parts,?_,?_⟩,List.Nodup.of_map _ once,?_⟩
  · simpa only [List.append_nil,Nat.add_zero] using splits.pays.trans pays
  · rw [State.freeCredits,usage]
    exact splits.exactly
  · rw [rows,settles,List.map_map]
    refine List.map_congr_left fun sub mem => ?_
    rw [Function.comp_apply,billedRow]
    by_cases pays : sub ∈ paid
    · rw [if_pos pays,if_pos pays]
      exact if_neg fun failed => apart sub pays ((failing sub mem).mp failed)
    · rw [if_neg pays,if_neg pays]
      exact if_congr (failing sub mem) rfl rfl

-- Distinct ids suffice for every due row to be paid or ended, and no other is touched.
theorem round_billed (cfg : Config A H B) (who : A) (now : Nat) (p : Renewal A H B)
    (distinct : (p.subs.map fun sub => sub.id).Nodup) :
    ∃ paid unpaid, Billed who (currentUnixDay p.state) now p (round cfg who (currentUnixDay p.state) now p) paid unpaid := by
  unfold round
  dsimp only
  split
  next none =>
    refine ⟨[],[],⟨by rw [none]; rfl,.refl p.state who,rfl⟩,nodup_nil,?_⟩
    exact ((map_congr_left fun sub _ => rfl).trans (map_id p.subs)).symm
  · split
    next free =>
      refine ⟨_,_,renewFree_billed who now p distinct ?_⟩
      intro sub mem
      cases kind : sub.package.isAnyStorage with
      | true => exact totalCharge_zero _ free.1 sub (mem_filter.mpr ⟨mem,kind⟩)
      | false => exact totalCharge_zero _ free.2 sub (mem_filter.mpr ⟨mem,by rw [kind]; rfl⟩)
    · exact renewPaid_billed cfg who now p distinct

end
end TheBrain.Marketplace.Subscriptions
