import TheBrain.Marketplace.SubscriptionMoves

-- A finished walk over the accounts has left no copy of a plan at another price.
namespace TheBrain.Marketplace.Subscriptions
open Library Machine Words Relation Function List

section
variable {A H B : Type}
variable {s t u : State A H B}

def PricedAt (rows : List (UserPlanSubscription A H)) (key : H) (price : Word 128) : Prop :=
  ∀ sub ∈ rows, sub.package.id = key → sub.package.price = price

theorem PricedAt.kin {rows later : List (UserPlanSubscription A H)} (priced : PricedAt rows key price)
    (kin : ∀ row ∈ later, ∃ sub ∈ rows, row.package = sub.package) : PricedAt later key price := by
  intro row mem named
  obtain ⟨sub,listed,same⟩ := kin row mem
  rw [same] at named ⊢
  exact priced sub listed named

theorem normalise_package (start : Nat) (sub : UserPlanSubscription A H) : (normalise start sub).package = sub.package := by
  unfold normalise
  split
  · rfl
  · rfl

theorem descends_packages {subs rows : List (UserPlanSubscription A H)} (descends : Descends subs rows) :
    ∀ row ∈ rows.filter (fun sub => sub.active), ∃ sub ∈ subs, row.package = sub.package := by
  intro row mem
  obtain ⟨sub,listed,kin⟩ := descends.kin row (mem_of_mem_filter mem)
  exact ⟨sub,listed,kin.package⟩

def Keyed (s : State A H B) : Prop := ∀ key plan, s.plans key = some plan → plan.id = key

theorem keyed_update [DecidableEq H] (keyed : Keyed s) (named : ∀ plan, value = some plan → plan.id = planId)
    (same : t.plans = update s.plans planId value) : Keyed t := by
  intro key plan found
  rw [same] at found
  by_cases own : key = planId
  · subst own
    rw [update_self] at found
    exact named plan found
  · rw [update_of_ne own] at found
    exact keyed key plan found

theorem quiet_incomplete {event : Event A H} (quiet : event.quiet = true) : event.completes = false := by
  cases event with
  | planRepricingCompleted => cases quiet
  | _ => rfl

def Silent (s t : State A H B) : Prop :=
  ∃ more, t.events = s.events ++ more ∧ ∀ event ∈ more, event.completes = false

theorem Silent.trans (one : Silent s t) (two : Silent t u) : Silent s u := by
  obtain ⟨more,first,silent⟩ := one
  obtain ⟨later,second,quiet⟩ := two
  refine ⟨more ++ later,?_,?_⟩
  · rw [second,first,append_assoc]
  · intro event mem
    exact (mem_append.mp mem).elim (silent event) (quiet event)

theorem silent_same (same : t.events = s.events) : Silent s t :=
  ⟨[],same.trans (append_nil _).symm,nofun⟩

theorem Lists.silent (lists : Lists s t) : Silent s t := by
  obtain ⟨more,logged,quiet⟩ := lists.logged
  exact ⟨more,logged,fun event mem => quiet_incomplete (quiet event mem)⟩

variable [DecidableEq A] {cfg : Config A H B}

theorem Transacts.priced (acts : Transacts s t who rows issued charge refund log) (keyed : Keyed s) (known : s.plans key = some plan)
    (each : ∀ row ∈ rows, (∃ sub ∈ subscriptionsOf s who, row.package = sub.package) ∨ ∃ other, s.plans other = some row.package)
    (priced : PricedAt (subscriptionsOf s account) key plan.price) : PricedAt (subscriptionsOf t account) key plan.price := by
  by_cases own : account = who
  · subst own
    rw [acts.stored]
    intro row mem named
    rcases each row mem with ⟨sub,listed,same⟩ | ⟨other,sold⟩
    · rw [same] at named ⊢
      exact priced sub listed named
    · have same : other = key := (keyed other row.package sold).symm.trans named
      rw [same,known] at sold
      cases sold
      rfl
  · rw [acts.others account own]
    exact priced

-- The accounts behind the cursor have the price of the plan that is first in the queue.
structure Walking (cfg : Config A H B) (s : State A H B) : Prop where
  keyed : Keyed s
  walk : ∀ who, Passed cfg s who → ∃ key plan, s.repricingQueue.head? = some key ∧ s.plans key = some plan ∧
    PricedAt (subscriptionsOf s who) key plan.price

theorem Transacts.walking (acts : Transacts s t who rows issued charge refund log) (walking : Walking cfg s)
    (each : ∀ row ∈ rows, (∃ sub ∈ subscriptionsOf s who, row.package = sub.package) ∨ ∃ other, s.plans other = some row.package) :
    Walking cfg t := by
  have frame : t.plans = s.plans ∧ t.repricingQueue = s.repricingQueue ∧ t.repricingCursor = s.repricingCursor := by
    obtain ⟨_,_,plans,_,_,_,_,rfl,_⟩ := acts.only
    exact ⟨rfl,rfl,rfl⟩
  obtain ⟨plans,queue,cursor⟩ := frame
  refine ⟨?_,?_⟩
  · rw [Keyed,plans]
    exact walking.keyed
  · intro account passed
    rw [Passed,cursor] at passed
    obtain ⟨key,plan,head,known,priced⟩ := walking.walk account passed
    rw [queue,plans]
    exact ⟨key,plan,head,known,acts.priced walking.keyed known each priced⟩

theorem Walking.catalogue (walking : Walking cfg s) (lists : Lists s t) (keyed : Keyed t)
    (cursor : ∀ start, t.repricingCursor = some start → s.repricingCursor = some start)
    (first : ∀ start key plan, t.repricingCursor = some start → s.repricingQueue.head? = some key → s.plans key = some plan →
      t.repricingQueue.head? = some key ∧ ∃ sold, t.plans key = some sold ∧ sold.price = plan.price) : Walking cfg t := by
  refine ⟨keyed,?_⟩
  rintro who ⟨start,here,behind⟩
  obtain ⟨key,plan,head,known,priced⟩ := walking.walk who ⟨start,cursor start here,behind⟩
  obtain ⟨still,sold,found,price⟩ := first start key plan here head known
  have rows : subscriptionsOf t who = subscriptionsOf s who := by
    rw [lists.frame]
    rfl
  refine ⟨key,sold,still,found,?_⟩
  rw [rows,price]
  exact priced

section
omit [DecidableEq A]
variable [DecidableEq H]

theorem reprice_package (planId : H) (price : Word 128) (sub : UserPlanSubscription A H) :
    (reprice planId price sub).package.id = sub.package.id ∧
      (sub.package.id = planId → (reprice planId price sub).package.price = price) ∧
      (sub.package.id ≠ planId → (reprice planId price sub).package.price = sub.package.price) := by
  unfold reprice reprices
  split
  next changed =>
    have own : sub.package.id = planId := of_decide_eq_true ((Bool.and_eq_true _ _).mp changed).1
    exact ⟨rfl,fun _ => rfl,fun other => absurd own other⟩
  next kept =>
    refine ⟨rfl,?_,fun _ => rfl⟩
    intro own
    by_contra other
    exact kept ((Bool.and_eq_true _ _).mpr ⟨decide_eq_true own,decide_eq_true other⟩)

theorem PricedAt.repriced {rows : List (UserPlanSubscription A H)} (priced : PricedAt rows key price) (planId : H)
    (other : Word 128) (same : planId = key → other = price) : PricedAt (rows.map (reprice planId other)) key price := by
  intro row mem named
  obtain ⟨sub,listed,rfl⟩ := mem_map.mp mem
  obtain ⟨id,changed,kept⟩ := reprice_package planId other sub
  rw [id] at named
  by_cases own : sub.package.id = planId
  · rw [changed own]
    exact same (own.symm.trans named)
  · rw [kept own]
    exact priced sub listed named

theorem pricedAt_reprice (rows : List (UserPlanSubscription A H)) (planId : H) (price : Word 128) :
    PricedAt (rows.map (reprice planId price)) planId price := by
  intro row mem named
  obtain ⟨sub,_,rfl⟩ := mem_map.mp mem
  obtain ⟨id,changed,_⟩ := reprice_package planId price sub
  exact changed (id ▸ named)

end

theorem Transacts.silent (acts : Transacts s t who rows issued charge refund log) : Silent s t := by
  obtain ⟨_,more,_,_,_,_,_,rfl,quiet⟩ := acts.only
  exact ⟨more,rfl,quiet⟩

def Settled (s : State A H B) (key : H) (price : Nat) : Prop :=
  (∃ plan, s.plans key = some plan ∧ plan.price = price) ∧
    ∀ who, ∀ sub ∈ subscriptionsOf s who, sub.package.id = key → sub.package.price = price

def Told (old : List (Event A H)) (s : State A H B) : Prop :=
  ∃ more, s.events = old ++ more ∧
    ∀ planId newPrice updated, .planRepricingCompleted planId newPrice updated ∈ more → Settled s planId newPrice

theorem Told.later (told : Told old s) (silent : Silent s t)
    (settled : ∀ key price, Settled s key price → Settled t key price) : Told old t := by
  obtain ⟨more,logged,all⟩ := told
  obtain ⟨later,next,quiet⟩ := silent
  refine ⟨more ++ later,?_,?_⟩
  · rw [next,logged,append_assoc]
  · intro planId newPrice updated mem
    rcases mem_append.mp mem with early | late
    · exact settled planId newPrice (all planId newPrice updated early)
    · cases quiet _ late

variable [DecidableEq H]

theorem work_plans (works : Work cfg s t) : t.plans = s.plans := by
  cases works with
  | visited who now =>
    rcases chargeAccountDue_general cfg s who now with ⟨same,_⟩ | ⟨_,_,_,_,_,acts⟩
    · rw [same]
    · obtain ⟨_,_,_,_,_,_,_,same,_⟩ := acts.only
      rw [same]
  | backfilled | indexed | quiet => rfl
  | repriced =>
    have job := processPendingRepricing_cases cfg s
    generalize processPendingRepricing cfg s = t at job ⊢
    cases job with
    | idle | retired | completed | walked => rfl

theorem work_priced (works : Work cfg s t) (keyed : Keyed s) (known : s.plans key = some plan)
    (priced : PricedAt (subscriptionsOf s account) key plan.price) : PricedAt (subscriptionsOf t account) key plan.price := by
  cases works with
  | visited who now =>
    rcases chargeAccountDue_general cfg s who now with ⟨same,_⟩ | ⟨rows,_,_,_,descends,acts⟩
    · rw [same]
      exact priced
    · exact acts.priced keyed known (fun row mem => .inl (descends_packages descends row mem)) priced
  | backfilled start plans rows =>
    change PricedAt ((plans.lookup account).getD []) key plan.price
    rcases rows account with filled | same
    · rw [filled]
      refine priced.kin ?_
      intro row mem
      obtain ⟨sub,listed,rfl⟩ := mem_map.mp mem
      exact ⟨sub,listed,normalise_package start sub⟩
    · rw [same]
      exact priced
  | indexed | quiet => exact priced
  | repriced =>
    have job := processPendingRepricing_cases cfg s
    generalize processPendingRepricing cfg s = t at job ⊢
    have each : ∀ (plans : StorageMap A _) planId (sold : Plan H), s.plans planId = some sold →
        ((plans.lookup account).getD [] = (subscriptionsOf s account).map (reprice planId sold.price) ∨
          (plans.lookup account).getD [] = subscriptionsOf s account) → PricedAt ((plans.lookup account).getD []) key plan.price := by
      intro plans planId sold found rows
      rcases rows with changed | same
      · rw [changed]
        refine priced.repriced planId sold.price ?_
        rintro rfl
        cases known.symm.trans found
        rfl
      · rw [same]
        exact priced
    cases job with
    | idle | retired => exact priced
    | completed planId sold plans _ _ found rows | walked planId sold plans _ _ _ found rows => exact each plans planId sold found ((rows account).imp_right And.left)

theorem work_walking (works : Work cfg s t) (walking : Walking cfg s) : Walking cfg t := by
  have plans := work_plans works
  refine ⟨?_,?_⟩
  · rw [Keyed,plans]
    exact walking.keyed
  · intro who passed
    rw [plans]
    have before : t.repricingQueue = s.repricingQueue → Passed cfg s who → ∃ key plan, t.repricingQueue.head? = some key ∧
        s.plans key = some plan ∧ PricedAt (subscriptionsOf t who) key plan.price := by
      intro queue behind
      obtain ⟨key,plan,head,known,priced⟩ := walking.walk who behind
      exact ⟨key,plan,by rw [queue]; exact head,known,work_priced works walking.keyed known priced⟩
    cases works with
    | visited account now =>
      rcases chargeAccountDue_general cfg s account now with ⟨same,_⟩ | ⟨rows,_,_,_,_,acts⟩
      · rw [same] at passed before ⊢
        exact before rfl passed
      · obtain ⟨_,_,plans,_,_,_,_,same,_⟩ := acts.only
        refine before ?_ ?_
        · rw [same]
        · rw [same] at passed
          exact passed
    | backfilled | indexed | quiet => exact before rfl passed
    | repriced =>
      have job := processPendingRepricing_cases cfg s
      generalize processPendingRepricing cfg s = t at job passed before ⊢
      cases job with
      | idle => exact before rfl passed
      | retired | completed =>
        obtain ⟨start,none,_⟩ := passed
        cases none
      | walked planId plan plans _ _ head known rows =>
        obtain ⟨_,here,behind⟩ := passed
        cases here
        rcases rows who with changed | ⟨_,old | ahead⟩
        · refine ⟨planId,plan,head,known,?_⟩
          change PricedAt ((plans.lookup who).getD []) planId plan.price
          rw [changed]
          exact pricedAt_reprice _ planId plan.price
        · exact before rfl old
        · exact absurd behind (Nat.not_le_of_lt ahead)

section
variable (walking : Walking cfg s)
include walking

theorem setPackageSuspension_walking (ran : setPackageSuspension s origin planId isSuspended = .ok t) :
    Walking cfg t := by
  have lists := setPackageSuspension_lists ran
  simp only [setPackageSuspension,passes] at ran
  obtain ⟨_,plan,known,same⟩ := ran
  cases same
  refine walking.catalogue lists ?_ (fun _ here => here) ?_
  · refine keyed_update walking.keyed ?_ rfl
    intro other equal
    cases equal
    exact walking.keyed planId plan known
  · intro start key sold _ head found
    refine ⟨head,?_⟩
    change ∃ sold', update s.plans planId (some {plan with isSuspended:=isSuspended}) key = some sold' ∧ _
    by_cases own : key = planId
    · subst own
      cases known.symm.trans found
      rw [update_self]
      exact ⟨_,rfl,rfl⟩
    · rw [update_of_ne own]
      exact ⟨sold,found,rfl⟩

theorem addNewPlan_walking (ran : addNewPlan cfg s origin planName price isStoragePlan isS3Plan = .ok t) : Walking cfg t := by
  have lists := addNewPlan_lists ran
  simp only [addNewPlan,passes] at ran
  obtain ⟨_,_,absent,same⟩ := ran
  cases same
  refine walking.catalogue lists ?_ (fun _ here => here) ?_
  · refine keyed_update walking.keyed ?_ rfl
    intro other equal
    cases equal
    rfl
  · intro start key sold _ head found
    have apart : key ≠ cfg.hashOf planName := by
      rintro rfl
      rw [absent] at found
      cases found
    exact ⟨head,sold,(update_of_ne apart _ _).trans found,rfl⟩

theorem setPlanPrice_walking (ran : setPlanPrice s origin planId newPrice = .ok t) :
    Walking cfg t := by
  have lists := setPlanPrice_lists ran
  simp only [setPlanPrice,passes] at ran
  obtain ⟨_,plan,known,same⟩ := ran
  have named : ∀ other, some {plan with price:=newPrice} = some other → other.id = planId := by
    intro other equal
    cases equal
    exact walking.keyed planId plan known
  have apart : ∀ key sold, key ≠ planId → s.plans key = some sold →
      ∃ sold', update s.plans planId (some {plan with price:=newPrice}) key = some sold' ∧ sold'.price = sold.price := by
    intro key sold other found
    rw [update_of_ne other]
    exact ⟨sold,found,rfl⟩
  split at same
  · split at same
    · cases same
      refine walking.catalogue lists (keyed_update walking.keyed named rfl) ?_ ?_
      · intro start never
        cases never
      · intro start key sold never
        cases never
    next other =>
      cases same
      refine walking.catalogue lists (keyed_update walking.keyed named rfl) (fun _ here => here) ?_
      intro start key sold _ head found
      refine ⟨head,apart key sold ?_ found⟩
      rintro rfl
      exact other head
  next unlisted =>
    cases same
    refine walking.catalogue lists (keyed_update walking.keyed named rfl) (fun _ here => here) ?_
    intro start key sold _ head found
    refine ⟨?_,apart key sold ?_ found⟩
    · change (s.repricingQueue ++ [planId]).head? = some key
      rw [head?_append,head]
      rfl
    · rintro rfl
      exact unlisted (List.mem_of_head? head)

theorem removePlan_walking (ran : removePlan s origin planId = .ok t) : Walking cfg t := by
  have lists := removePlan_lists ran
  simp only [removePlan,passes] at ran
  obtain ⟨_,_,same⟩ := ran
  have named : ∀ other : Plan H, none = some other → other.id = planId := by rintro _ ⟨⟩
  split at same
  · cases same
    refine walking.catalogue lists (keyed_update walking.keyed named rfl) ?_ ?_
    · intro start never
      cases never
    · intro start key sold never
      cases never
  next other =>
    cases same
    refine walking.catalogue lists (keyed_update walking.keyed named rfl) (fun _ here => here) ?_
    intro start key sold _ head found
    have apart : key ≠ planId := by
      rintro rfl
      exact other head
    refine ⟨?_,sold,(update_of_ne apart _ _).trans found,rfl⟩
    change (s.repricingQueue.filter fun queued => queued ≠ planId).head? = some key
    obtain ⟨_,queue⟩ := head?_eq_some_iff.mp head
    rw [queue,filter_cons,if_pos (decide_eq_true apart)]
    rfl

end

theorem move_walking (move : Move cfg s t) (walking : Walking cfg s) : Walking cfg t := by
  cases move with
  | work works => exact work_walking works walking
  | opened _ key _ _ _ _ known _ ran =>
    refine (openSubscription_transacts ran).walking walking ?_
    intro row mem
    rcases mem_append.mp (mem_of_mem_filter mem) with old | new
    · exact .inl ⟨row,old,rfl⟩
    · rw [mem_singleton.mp new]
      exact .inr ⟨key,known⟩
  | cancelled _ _ ran =>
    obtain ⟨_,_,found,acts⟩ := doCancelSubscriptionById_ok ran
    exact acts.walking walking fun row mem => .inl (descends_packages (deactivate_descends found) row mem)
  | deleted _ ran =>
    refine (doDelete_transacts ran).walking walking ?_
    intro row mem
    exact .inl ⟨row,mem_of_mem_filter (mem_of_mem_filter mem),rfl⟩
  | changed _ _ newPlanId ran =>
    obtain ⟨old,_,_,_,known,acts⟩ := doChangePlanOfFlavour_ok ran
    refine acts.walking walking ?_
    intro row mem
    rcases mem_or_eq_of_mem_set (mem_of_mem_filter mem) with old | rfl
    · exact .inl ⟨row,old,rfl⟩
    · exact .inr ⟨newPlanId,known⟩
  | suspended _ _ _ ran => exact setPackageSuspension_walking walking ran
  | added _ _ _ _ _ ran => exact addNewPlan_walking walking ran
  | priced _ _ _ ran => exact setPlanPrice_walking walking ran
  | removed _ _ ran => exact removePlan_walking walking ran
  | configured _ same | noted _ _ same =>
    subst same
    exact ⟨walking.keyed,walking.walk⟩

theorem purchasePlan_silent (ran : purchasePlan cfg s origin owner planIds locationIds images cids payUpfront = .ok t) :
    Silent s t := by
  refine purchasePlan_keeps (Silent s) (fun _ => silent_same rfl) ?_ ran
  intro u order v silent bought
  obtain ⟨_,_,_,_,_,_,opens,rfl⟩ := purchaseOne_ok bought
  refine (silent.trans (openSubscription_transacts opens).silent).trans ⟨[_],rfl,?_⟩
  intro event mem
  rw [mem_singleton.mp mem]
  rfl

theorem dispatch_silent (asleep : call ≠ .nextBlock) (ran : dispatch cfg s call = .ok t) : Silent s t := by
  cases call with
  | purchasePlan => exact purchasePlan_silent ran
  | cancelUserSubscription _ _ subscriptionId =>
    simp only [dispatch,cancelUserSubscription,passes] at ran
    obtain ⟨_,cancels⟩ := ran
    cases subscriptionId with
    | some =>
      obtain ⟨_,_,_,acts⟩ := doCancelSubscriptionById_ok cancels
      exact acts.silent
    | none => exact (doDelete_transacts cancels).silent
  | changeStoragePlan | changeS3Plan =>
    simp only [dispatch,changeStoragePlan,changeS3Plan,dispatchPlanChange,passes] at ran
    obtain ⟨_,_,changes⟩ := ran
    obtain ⟨_,_,_,_,_,acts⟩ := doChangePlanOfFlavour_ok changes
    exact acts.silent
  | setPackageSuspension => exact (setPackageSuspension_lists ran).silent
  | addNewPlan => exact (addNewPlan_lists ran).silent
  | setPlanPrice => exact (setPlanPrice_lists ran).silent
  | removePlan => exact (removePlan_lists ran).silent
  | configure | usage =>
    cases ran
    exact silent_same rfl
  | nextBlock => exact absurd rfl asleep

theorem Settled.work (settled : Settled s key price) (keyed : Keyed s) (works : Work cfg s t) : Settled t key price := by
  obtain ⟨⟨plan,known,rfl⟩,priced⟩ := settled
  refine ⟨⟨plan,by rw [work_plans works]; exact known,rfl⟩,?_⟩
  intro who sub mem named
  have before : PricedAt (subscriptionsOf s who) key plan.price := fun row listed own => Fin.ext (priced who row listed own)
  rw [work_priced works keyed known before sub mem named]

theorem completed_settled (walking : Walking cfg s) (head : s.repricingQueue.head? = some planId) (known : s.plans planId = some plan)
    (rows : ∀ who, (plans.lookup who).getD [] = (subscriptionsOf s who).map (reprice planId plan.price) ∨
      (plans.lookup who).getD [] = subscriptionsOf s who ∧ Passed cfg s who) (updated : Nat) :
    Settled (finishRepricingJob {s with userAllSubscriptionPlans:=plans} planId plan.price updated) planId plan.price := by
  refine ⟨⟨plan,known,rfl⟩,?_⟩
  intro who sub mem named
  change sub ∈ (plans.lookup who).getD [] at mem
  rcases rows who with changed | ⟨same,passed⟩
  · rw [changed] at mem
    rw [pricedAt_reprice _ planId plan.price sub mem named]
  · rw [same] at mem
    obtain ⟨_,_,first,found,priced⟩ := walking.walk who passed
    cases head.symm.trans first
    cases known.symm.trans found
    rw [priced sub mem named]

theorem work_told (works : Work cfg s t) (walking : Walking cfg s) (told : Told old s) : Told old t := by
  have keeps := fun key price (settled : Settled s key price) => settled.work walking.keyed works
  cases works with
  | visited who now =>
    refine told.later ?_ keeps
    rcases chargeAccountDue_general cfg s who now with ⟨same,_⟩ | ⟨rows,_,_,_,_,acts⟩
    · rw [same]
      exact silent_same rfl
    · exact acts.silent
  | backfilled | indexed | quiet => exact told.later (silent_same rfl) keeps
  | repriced =>
    have job := processPendingRepricing_cases cfg s
    generalize processPendingRepricing cfg s = t at job keeps ⊢
    cases job with
    | idle | retired | walked => exact told.later (silent_same rfl) keeps
    | completed planId plan _ updated head known rows =>
      obtain ⟨more,logged,all⟩ := told
      refine ⟨more ++ [.planRepricingCompleted planId plan.price updated],?_,?_⟩
      · change s.events ++ [_] = _
        rw [logged,append_assoc]
      · intro key price count mem
        rcases mem_append.mp mem with early | late
        · exact keeps key price (all key price count early)
        · cases mem_singleton.mp late
          exact completed_settled walking head known rows updated

-- When the end of a repricing is announced, the plan and every stored copy of it have the
-- announced price.
theorem repricing_settled (cfg : Config A H B) (start : State A H B)
    (fresh : start.repricingQueue = [] ∧ start.repricingCursor = none ∧ ∀ key plan, start.plans key = some plan → plan.id = key)
    (calls : List (Call A H B)) (call : Call A H B) :
    let s := run (step cfg) start calls
    let t := step cfg s call
    ∃ more, t.events = s.events ++ more ∧
      ∀ (planId : H) (newPrice updated : Nat), .planRepricingCompleted planId newPrice updated ∈ more →
        (∃ plan, t.plans planId = some plan ∧ plan.price = newPrice) ∧
          ∀ who, ∀ sub ∈ subscriptionsOf t who, sub.package.id = planId → sub.package.price = newPrice := by
  intro s t
  have walking : Walking cfg s := by
    refine run_always (Walking cfg) (fun u c fine => step_keeps (Walking cfg) (fun _ _ move fine => move_walking move fine)
      (fun v _ kept => ⟨kept.keyed,kept.walk⟩) c fine) ⟨fresh.2.2,?_⟩
    rintro who ⟨first,here,_⟩
    rw [fresh.2.1] at here
    cases here
  have untold : Told s.events s := ⟨[],(append_nil _).symm,nofun⟩
  refine commit_inv (Told s.events) untold ?_
  intro next ran
  by_cases block : call = .nextBlock
  · subst block
    cases ran
    exact (path_keeps (fun u => Walking cfg u ∧ Told s.events u)
      (fun _ _ works both => ⟨work_walking works both.1,work_told works both.1 both.2⟩) (onInitialize_works cfg s _)
      ⟨walking,untold⟩).2
  · obtain ⟨more,logged,quiet⟩ := dispatch_silent block ran
    refine ⟨more,logged,?_⟩
    intro planId newPrice updated mem
    cases quiet _ mem

end

def walked : List (Call Nat Nat (Nat → Nat)) :=
  [ .addNewPlan .root [1,2,3] 0 false false,.purchasePlan (.signed 5) 1 [3] none none none none,
    .purchasePlan (.signed 5) 2 [3] none none none none,.setPlanPrice .root 3 20,.nextBlock,.nextBlock]

theorem repricing_settled_walked :
    (step plainConfig (run (step plainConfig) unsold walked) .nextBlock).events.getLast? = some (.planRepricingCompleted 3 20 2) ∧
      ∃ more, (step plainConfig (run (step plainConfig) unsold walked) .nextBlock).events =
          (run (step plainConfig) unsold walked).events ++ more ∧
        ∀ (planId newPrice updated : Nat), .planRepricingCompleted planId newPrice updated ∈ more →
          (∃ plan, (step plainConfig (run (step plainConfig) unsold walked) .nextBlock).plans planId = some plan ∧
            plan.price = newPrice) ∧
          ∀ who, ∀ sub ∈ subscriptionsOf (step plainConfig (run (step plainConfig) unsold walked) .nextBlock) who,
            sub.package.id = planId → sub.package.price = newPrice :=
  ⟨by decide +kernel,repricing_settled plainConfig unsold ⟨rfl,rfl,nofun⟩ walked .nextBlock⟩

end TheBrain.Marketplace.Subscriptions
