import TheBrain.Marketplace.BillingCycles

-- The counter of subscription ids stops at its maximum, and a run gets it there.
namespace TheBrain.Marketplace.Subscriptions
open Library Machine Words Calendar List

section
variable {A H B : Type} [DecidableEq A]
variable {s t : State A H B}
variable {cfg : Config A H B}

theorem chargeCredits_covered (ran : chargeCredits s who amount = .ok t) (fine : Marketplace.Covered s.usage.market) :
    Marketplace.Covered t.usage.market := by
  unfold chargeCredits at ran
  split at ran
  next market consumed =>
    cases ran
    exact consumeCredits_covered consumed fine
  · cases ran

section
variable [DecidableEq H]

structure OnSale (s : State A H B) (caller : A) (key : H) (plan : Plan H) : Prop where
  allowed : caller ∈ s.settings.whitelistedCallers
  known : s.plans key = some plan
  compute : plan.isAnyStorage = false
  offered : plan.isSuspended = false
  enabled : s.settings.computeMinerDisabled = false

def purchase (caller owner : A) (key : H) : Call A H B :=
  .purchasePlan (.signed caller) owner [key] none none none none

structure Bought (s t : State A H B) (owner : A) (plan : Plan H) : Prop where
  acts : ∃ requests, Transacts (setRequests s owner requests) t owner
    ((subscriptionsOf s owner ++ [newSubscription s owner plan 1 none none]).filter fun sub => sub.active) true
    (purchaseCharge s owner plan 1).1 0 []
  paid : t.freeCredits owner + (purchaseCharge s owner plan 1).1 = s.freeCredits owner
  cooled : t.lastSubscriptionCancelledAt = s.lastSubscriptionCancelledAt
  covered : Marketplace.Covered s.usage.market → Marketplace.Covered t.usage.market

theorem openSubscription_frame (ran : openSubscription cfg s who plan cycles locationId image = .ok t) :
    t.freeCredits who + (purchaseCharge s who plan cycles).1 = s.freeCredits who ∧
      t.lastSubscriptionCancelledAt = s.lastSubscriptionCancelledAt ∧
      (Marketplace.Covered s.usage.market → Marketplace.Covered t.usage.market) := by
  simp only [openSubscription,bind_ok] at ran
  obtain ⟨charged,charges,same⟩ := ran
  cases same
  have covered := chargeCredits_covered charges
  obtain ⟨pays,taken⟩ := chargeCredits_ok charges
  have aside := pays.aside
  have cooled : charged.lastSubscriptionCancelledAt = s.lastSubscriptionCancelledAt := by
    obtain ⟨_,_,rfl,_⟩ := aside
    rfl
  cases (purchaseCharge s who plan cycles).2 with
  | none => exact ⟨taken,cooled,covered⟩
  | some owner =>
    have same := tryPay_sameBatches cfg.usage.market charged.usage.market owner (referralCommissionCredits charged.usage.market
      (purchaseCharge s who plan cycles).1)
    refine ⟨?_,cooled,fun fine => same.covered (covered fine)⟩
    refine Eq.trans ?_ taken
    exact congrArg (· + _) (congrFun same.freeCredits who)

theorem openSubscription_succeeds (cfg : Config A H B) (cycles : Nat) (locationId : Option Nat) (image : Option Bytes)
    (covered : Marketplace.Covered s.usage.market) (funded : (purchaseCharge s who plan cycles).1 ≤ s.freeCredits who) :
    ∃ t, openSubscription cfg s who plan cycles locationId image = .ok t := by
  obtain ⟨market,consumed⟩ := consumeCredits_succeeds covered.toListing (covered.covered who) funded
  have charges : chargeCredits (issueSubscription s) who (purchaseCharge s who plan cycles).1 =
      .ok (recordCreditsTransaction (setMarket (issueSubscription s) market) who (purchaseCharge s who plan cycles).1) := by
    have same : (issueSubscription s).usage.market = s.usage.market := rfl
    rw [chargeCredits,same,consumed]
  rw [openSubscription,charges]
  exact ⟨_,rfl⟩

theorem purchase_bought (cfg : Config A H B) (owner : A) (sale : OnSale s caller key plan)
    (requests : cfg.usage.market.maxRequestsPerBlock = maxOf 32)
    (space : activeCount (subscriptionsOf s owner) < cfg.maxActiveSubscriptions) (cooled : s.lastSubscriptionCancelledAt owner = none)
    (covered : Marketplace.Covered s.usage.market) (funded : (purchaseCharge s owner plan 1).1 ≤ s.freeCredits owner) :
    Bought s (step cfg s (purchase caller owner key)) owner plan := by
  obtain ⟨count,counted⟩ : ∃ count, (s.usage.market.userRequestsCount owner + [key].length) % 2 ^ 32 = count := ⟨_,rfl⟩
  have few : count ≤ cfg.usage.market.maxRequestsPerBlock := by
    rw [requests,← counted]
    exact Nat.le_sub_one_of_lt (Nat.mod_lt _ (by decide))
  have fine : Marketplace.Covered (setRequests s owner count).usage.market := {covered with}
  have paid : (purchaseCharge (setRequests s owner count) owner plan 1).1 ≤ (setRequests s owner count).freeCredits owner := funded
  obtain ⟨bought,opened⟩ := openSubscription_succeeds cfg 1 none none fine paid
  have purchasable : ensurePurchasable cfg (setRequests s owner count) owner
      (purchaseCharge (setRequests s owner count) owner plan 1).1 = .ok () := by
    simp only [ensurePurchasable,passes]
    refine ⟨paid,?_⟩
    intro cancelled known
    rw [show (setRequests s owner count).lastSubscriptionCancelledAt owner = none from cooled] at known
    cases known
  have computes : doPurchaseComputePlan cfg (setRequests s owner count) owner key none none none = .ok bought := by
    simp only [doPurchaseComputePlan,passes]
    refine ⟨sale.enabled,ensure_ok.mpr space,plan,sale.known,sale.offered,?_,purchasable,?_,opened⟩
    · rintro _ ⟨⟩
    · rintro _ ⟨⟩
  have single : purchaseOne cfg owner none (setRequests s owner count) (key,none,none,none) =
      .ok (depositEvent bought (.planPurchased owner owner key none none none)) := by
    simp only [purchaseOne,passes]
    refine ⟨plan,sale.known,sale.offered,?_⟩
    simp only [sale.compute]
    exact bind_ok.mpr ⟨bought,computes,rfl⟩
  have buys : dispatch cfg s (purchase caller owner key) =
      .ok (depositEvent bought (.planPurchased owner owner key none none none)) := by
    simp only [dispatch,purchase,purchasePlan,passes,ensureWhitelisted,counted]
    refine ⟨sale.allowed,?_,few,?_,?_,?_,bind_ok.mpr ⟨_,single,rfl⟩⟩
    all_goals rintro _ ⟨⟩
  have frame := openSubscription_frame opened
  have same : step cfg s (purchase caller owner key) = depositEvent bought (.planPurchased owner owner key none none none) :=
    congrArg (commit s) buys
  rw [same]
  refine ⟨⟨count,?_⟩,frame.1,frame.2.1,fun _ => frame.2.2 fine⟩
  have noted : Pays bought (depositEvent bought (.planPurchased owner owner key none none none)) owner 0 0 [] :=
    pays_event bought owner rfl
  have acts := (openSubscription_transacts opened).pays noted
  exact acts

end

theorem Bought.frame (bought : Bought s t owner plan) :
    t.plans = s.plans ∧ t.settings = s.settings ∧ t.usage.nowMs = s.usage.nowMs := by
  obtain ⟨_,acts⟩ := bought.acts
  obtain ⟨_,_,_,_,_,_,_,rfl,_⟩ := acts.only
  exact ⟨rfl,rfl,rfl⟩

theorem Bought.rows (bought : Bought s t owner plan) (before : ∀ sub ∈ subscriptionsOf s owner, sub.active = true) :
    subscriptionsOf t owner = subscriptionsOf s owner ++ [newSubscription s owner plan 1 none none] := by
  obtain ⟨_,acts⟩ := bought.acts
  rw [acts.stored,filter_eq_self]
  intro sub mem
  rcases mem_append.mp mem with old | new
  · exact before sub old
  · rw [mem_singleton.mp new]
    rfl

theorem Bought.anchor (bought : Bought s t owner plan) : t.subscriptionAnchorDay s.nextSubscriptionId = freshAnchor s := by
  obtain ⟨_,acts⟩ := bought.acts
  have listed : newSubscription s owner plan 1 none none ∈
      (subscriptionsOf s owner ++ [newSubscription s owner plan 1 none none]).filter fun sub => sub.active :=
    mem_filter.mpr ⟨mem_append_right _ (mem_cons_self),rfl⟩
  exact (acts.anchors s.nextSubscriptionId (.inl ⟨_,listed,rfl⟩)).trans (if_pos ⟨rfl,rfl⟩)

theorem Bought.next (bought : Bought s t owner plan) : t.nextSubscriptionId = saturatingAdd 32 s.nextSubscriptionId 1 := by
  obtain ⟨_,acts⟩ := bought.acts
  exact acts.next.trans (if_pos rfl)

theorem Bought.others (bought : Bought s t owner plan) (apart : who ≠ owner) :
    subscriptionsOf t who = subscriptionsOf s who ∧ t.freeCredits who = s.freeCredits who := by
  obtain ⟨_,acts⟩ := bought.acts
  exact ⟨acts.others who apart,acts.otherCredits who apart⟩

section
omit [DecidableEq A]

theorem OnSale.still (sale : OnSale s caller key plan) (plans : t.plans = s.plans) (settings : t.settings = s.settings) :
    OnSale t caller key plan :=
  ⟨settings ▸ sale.allowed,plans ▸ sale.known,sale.compute,sale.offered,settings ▸ sale.enabled⟩

structure Sold (s t : State A H B) (owners : Nat → A) (count : Nat) : Prop where
  next : t.nextSubscriptionId = s.nextSubscriptionId + count
  others : ∀ who, (∀ n < count, who ≠ owners n) → subscriptionsOf t who = subscriptionsOf s who ∧ t.freeCredits who = s.freeCredits who
  plans : t.plans = s.plans
  settings : t.settings = s.settings
  nowMs : t.usage.nowMs = s.usage.nowMs
  cooled : t.lastSubscriptionCancelledAt = s.lastSubscriptionCancelledAt
  covered : Marketplace.Covered t.usage.market

theorem purchaseCharge_cases (s : State A H B) (who : A) (plan : Plan H) (cycles : Nat) :
    (purchaseCharge s who plan cycles).1 = PaymentMath.times plan.price cycles ∨
      (purchaseCharge s who plan cycles).1 =
        PaymentMath.times plan.price cycles - (PaymentMath.split (PaymentMath.times plan.price cycles) 500).1 := by
  rw [purchaseCharge,referralDiscountAndOwner]
  cases s.usage.market.referredUsers who with
  | none => exact .inl rfl
  | some => exact .inr rfl

theorem purchaseCharge_free (s : State A H B) (who : A) (free : (plan.price : Nat) = 0) (cycles : Nat) :
    (purchaseCharge s who plan cycles).1 = 0 := by
  have nothing : PaymentMath.times plan.price cycles = 0 := by
    rw [free,PaymentMath.times,saturatingMul,Nat.zero_mul,Nat.zero_min]
  rw [purchaseCharge,nothing]
  exact Nat.zero_sub _

end

variable [DecidableEq H]

def Selling (cfg : Config A H B) (s : State A H B) (caller : A) (key : H) (u : State A H B) (call : Call A H B) : Prop :=
  u.plans = s.plans ∧ u.usage.nowMs = s.usage.nowMs ∧ (step cfg u call).usage.nowMs = s.usage.nowMs ∧
    ∃ owner, call = purchase caller owner key

theorem purchases_exhaust (cfg : Config A H B) (sale : OnSale s caller key plan) (free : (plan.price : Nat) = 0)
    (requests : cfg.usage.market.maxRequestsPerBlock = maxOf 32) (space : 0 < cfg.maxActiveSubscriptions)
    (owners : Nat → A) (apart : Function.Injective owners) (newcomers : ∀ n, subscriptionsOf s (owners n) = [])
    (cooled : ∀ who, s.lastSubscriptionCancelledAt who = none) (fine : Marketplace.Covered s.usage.market)
    (count : Nat) (ids : s.nextSubscriptionId + count ≤ maxOf 32) :
    ∃ calls, Sold s (run (step cfg) s calls) owners count ∧ Throughout (step cfg) (Selling cfg s caller key) s calls := by
  induction count with
  | zero => exact ⟨[],⟨rfl,fun _ _ => ⟨rfl,rfl⟩,rfl,rfl,rfl,rfl,fine⟩,trivial⟩
  | succ count ih =>
    obtain ⟨calls,sold,selling⟩ := ih (by omega)
    generalize reached : run (step cfg) s calls = t at sold
    have fresh : subscriptionsOf t (owners count) = [] := by
      rw [(sold.others (owners count) fun n before same => Nat.ne_of_gt before (apart same)).1,newcomers]
    have bought := purchase_bought cfg (owners count) (sale.still sold.plans sold.settings) requests
      (by rw [fresh]; exact space) (by rw [sold.cooled]; exact cooled _) sold.covered
      (by rw [purchaseCharge_free t _ free]; exact Nat.zero_le _)
    obtain ⟨plans,settings,nowMs⟩ := bought.frame
    refine ⟨calls ++ [purchase caller (owners count) key],?_,?_⟩
    · rw [run_append,reached,run_cons,run_nil]
      refine ⟨?_,?_,plans.trans sold.plans,settings.trans sold.settings,nowMs.trans sold.nowMs,bought.cooled.trans sold.cooled,
        bought.covered sold.covered⟩
      · rw [bought.next,sold.next]
        exact saturatingAdd_exact (Nat.lt_of_le_of_lt ids (by decide))
      · intro who other
        obtain ⟨rows,credits⟩ := bought.others (other count (Nat.lt_succ_self count))
        obtain ⟨before,earlier⟩ := sold.others who fun n less => other n (Nat.lt_succ_of_lt less)
        exact ⟨rows.trans before,credits.trans earlier⟩
    · refine throughout_append.mpr ⟨selling,?_,trivial⟩
      rw [reached]
      exact ⟨sold.plans,sold.nowMs,nowMs.trans sold.nowMs,owners count,rfl⟩

def deposit (authority account : A) (credits : Word 128) : Call A H B :=
  .usage (.market (.deposit (.signed authority) account credits 0 false none))

end
end TheBrain.Marketplace.Subscriptions
