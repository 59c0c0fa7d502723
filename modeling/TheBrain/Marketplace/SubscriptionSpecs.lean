import TheBrain.Marketplace.Subscriptions
import TheBrain.Marketplace.Spending

-- What the parts of the subscription code do: the movements of credits, the rows and the
-- index of due days.
namespace TheBrain.Marketplace.Subscriptions
open Library Machine Words PaymentMath Calendar Function List StorageMap

section
variable {A H B : Type} [DecidableEq A]
variable {m n : Marketplace.State A B}

def refundOf (who : A) : Marketplace.Event A → Nat
  | .refundRecorded other amount => if other = who then amount else 0
  | _ => 0

def refundsFor (events : List (Marketplace.Event A)) (who : A) : Nat := (events.map (refundOf who)).sum

theorem refundsFor_append (one two : List (Marketplace.Event A)) (who : A) :
    refundsFor (one ++ two) who = refundsFor one who + refundsFor two who := by
  rw [refundsFor,map_append,sum_append,← refundsFor,← refundsFor]

theorem refundsFor_silent (events : List (Marketplace.Event A)) (silent : refundOf who event = 0) :
    refundsFor (events ++ [event]) who = refundsFor events who := by
  rw [refundsFor_append,refundsFor,refundsFor,map_singleton,silent]
  rfl

structure Quiet (m n : Marketplace.State A B) : Prop where
  freeCredits : n.freeCredits = m.freeCredits
  refunds : ∀ who, refundsFor n.events who = refundsFor m.events who

theorem Quiet.refl (m : Marketplace.State A B) : Quiet m m := ⟨rfl,fun _ => rfl⟩

theorem Quiet.trans (one : Quiet m n) (two : Quiet n l) : Quiet m l :=
  ⟨two.freeCredits.trans one.freeCredits,fun who => (two.refunds who).trans (one.refunds who)⟩

theorem quiet_same (same : SameBatches m n) (events : n.events = m.events) : Quiet m n := by
  refine ⟨same.freeCredits,?_⟩
  intro who
  rw [events]

theorem tryPay_quiet (cfg : Marketplace.Config A B) (m : Marketplace.State A B) (referrer : A)
    (credits : Nat) : Quiet m (tryPayReferralCommissionTokens cfg m referrer credits).1 := by
  have same := tryPay_sameBatches cfg m referrer credits
  refine ⟨same.freeCredits,?_⟩
  intro who
  simp only [tryPayReferralCommissionTokens]
  split
  · rfl
  · split
    · exact refundsFor_silent m.events rfl
    · exact refundsFor_silent m.events rfl

theorem sweep_quiet (cfg : Marketplace.Config A B) (m : Marketplace.State A B) : Quiet m (sweepReferralCommissions cfg m) := by
  refine sweepReferralCommissions_keeps cfg (Quiet m) ?_ ?_ (.refl m)
  · intro n value accrued same
    exact same.trans (quiet_same {} rfl)
  · intro n referrer credits same
    exact same.trans (tryPay_quiet cfg n referrer credits)

theorem releaseMatured_quiet (now : Nat) (m : Marketplace.State A B) (entry : Nat × Batch A) : Quiet m (releaseMatured now m entry) := by
  rcases releaseMatured_ok now m entry with same | ⟨_,same,_⟩
  · rw [same]
    exact .refl m
  · rw [same]
    exact ⟨rfl,fun _ => rfl⟩

theorem release_quiet (cfg : Marketplace.Config A B) (m : Marketplace.State A B) (now : Nat) :
    Quiet m (releaseMaturedPendingAlpha cfg m now) := by
  refine releaseMaturedPendingAlpha_keeps cfg (Quiet m) now ?_ ?_ (.refl m)
  · intro n value same
    exact same.trans (quiet_same {} rfl)
  · intro n entry same _
    exact same.trans (releaseMatured_quiet now n entry)

theorem consumeCredits_refunds (ran : consumeCredits m sender credits = .ok n) (who : A) :
    refundsFor n.events who = refundsFor m.events who := by
  refine consumeCredits_keeps (fun l => refundsFor l.events who = refundsFor m.events who) ?_ (fun _ _ same => same) ?_ rfl ran
  · intro w batchId next same visited
    cases visited with
    | passed =>
      rw [file_state]
      exact same
    | took =>
      rw [file_state]
      exact (refundsFor_silent w.state.events rfl).trans same
  · exact fun l same => (refundsFor_silent l.events rfl).trans same

theorem refundCreditsWithBatch_eq (m : Marketplace.State A B) (who : A) (positive : amount ≠ 0) :
    refundCreditsWithBatch m who amount = .ok (Marketplace.depositEvent (Marketplace.depositEvent
      (mintCredits (fileBatch m ⟨who,amount,0,amount,0,0,false,m.blockNumber⟩) who amount)
      (.mintedAccountCredits who amount)) (.refundRecorded who amount)) := by
  rw [refundCreditsWithBatch,if_neg positive]
  rfl

end

section
variable {A H B : Type} [DecidableEq A] {s t u : State A H B}

def chargeOf (who : A) : Event A H → Nat
  | .pointTransactionRecorded other amount => if other = who then amount else 0
  | _ => 0

def chargesFor (events : List (Event A H)) (who : A) : Nat := (events.map (chargeOf who)).sum

def chargedTo (s : State A H B) (who : A) : Nat := chargesFor s.events who

def refundedTo (s : State A H B) (who : A) : Nat := refundsFor s.usage.market.events who

def Event.completes : Event A H → Bool
  | .planRepricingCompleted _ _ _ => true
  | _ => false

def Aside (s t : State A H B) (log : List (Renewed A)) : Prop :=
  ∃ market more, t = {s with
    usage:={s.usage with market:=market}
    events:=s.events ++ more
    renewals:=s.renewals ++ log} ∧ ∀ event ∈ more, event.completes = false

structure Charges (s t : State A H B) (who : A) (charge refund : Nat) : Prop where
  free : t.freeCredits who + charge ≤ s.freeCredits who + refund
  otherCredits : ∀ other, other ≠ who → t.freeCredits other = s.freeCredits other
  charged : ∀ other, chargedTo t other = chargedTo s other + if other = who then charge else 0
  refunded : ∀ other, refundedTo t other = refundedTo s other + if other = who then refund else 0

theorem Charges.trans (one : Charges s t who charge refund) (two : Charges t u who later refundLater) :
    Charges s u who (charge + later) (refund + refundLater) := by
  refine ⟨?_,?_,?_,?_⟩
  · have first := one.free
    have second := two.free
    omega
  · intro other apart
    rw [two.otherCredits other apart,one.otherCredits other apart]
  · intro other
    rw [two.charged other,one.charged other]
    split <;> omega
  · intro other
    rw [two.refunded other,one.refunded other]
    split <;> omega

section
omit [DecidableEq A]

structure Pays (s t : State A H B) (who : A) (charge refund : Nat) (log : List (Renewed A)) : Prop
    extends Charges s t who charge refund where
  aside : Aside s t log

theorem Aside.refl (s : State A H B) : Aside s s [] := by
  refine ⟨s.usage.market,[],?_,nofun⟩
  rw [append_nil,append_nil]

theorem Aside.trans (one : Aside s t log) (two : Aside t u logLater) : Aside s u (log ++ logLater) := by
  obtain ⟨_,more,rfl,silent⟩ := one
  obtain ⟨next,later,rfl,quiet⟩ := two
  refine ⟨next,more ++ later,?_,?_⟩
  · rw [← append_assoc,← append_assoc]
  · intro event mem
    rcases mem_append.mp mem with early | late
    · exact silent event early
    · exact quiet event late

theorem aside_market (s : State A H B) (market : Marketplace.State A B) : Aside s (setMarket s market) [] := by
  refine ⟨market,[],?_,nofun⟩
  rw [append_nil,append_nil]
  rfl

theorem aside_event (s : State A H B) (incomplete : event.completes = false) : Aside s (depositEvent s event) [] := by
  refine ⟨s.usage.market,[event],?_,?_⟩
  · rw [append_nil]
    rfl
  · intro other mem
    rw [mem_singleton.mp mem]
    exact incomplete

end

theorem charges_still (who : A) (free : t.freeCredits = s.freeCredits) (charged : ∀ other, chargedTo t other = chargedTo s other)
    (refunded : ∀ other, refundedTo t other = refundedTo s other) : Charges s t who 0 0 := by
  refine ⟨?_,fun other _ => congrFun free other,?_,?_⟩
  · rw [free]
  · intro other
    rw [ite_self,charged,Nat.add_zero]
  · intro other
    rw [ite_self,refunded,Nat.add_zero]

theorem Pays.refl (s : State A H B) (who : A) : Pays s s who 0 0 [] :=
  ⟨charges_still who rfl (fun _ => rfl) fun _ => rfl,.refl s⟩

theorem Pays.trans (one : Pays s t who charge refund log) (two : Pays t u who later refundLater logLater) :
    Pays s u who (charge + later) (refund + refundLater) (log ++ logLater) :=
  ⟨one.toCharges.trans two.toCharges,one.aside.trans two.aside⟩

theorem chargesFor_event (events : List (Event A H)) (event : Event A H) (who : A) :
    chargesFor (events ++ [event]) who = chargesFor events who + chargeOf who event := by
  rw [chargesFor,map_append,sum_append,map_singleton,sum_singleton,← chargesFor]

def Event.quiet : Event A H → Bool
  | .pointTransactionRecorded _ _ => false
  | .planRepricingCompleted _ _ _ => false
  | _ => true

theorem pays_event (s : State A H B) (who : A) (quiet : event.quiet = true) : Pays s (depositEvent s event) who 0 0 [] := by
  refine ⟨charges_still who rfl ?_ fun _ => rfl,aside_event s ?_⟩
  · intro other
    refine (chargesFor_event s.events event other).trans ?_
    cases event with
    | pointTransactionRecorded => cases quiet
    | _ => rfl
  · cases event with
    | planRepricingCompleted => cases quiet
    | _ => rfl

theorem pays_quiet (s : State A H B) (who : A) (quiet : Quiet s.usage.market market) :
    Pays s (setMarket s market) who 0 0 [] :=
  ⟨charges_still who quiet.freeCredits (fun _ => rfl) quiet.refunds,aside_market s market⟩

theorem noteRenewed_pays (s : State A H B) (who : A) (sub : UserPlanSubscription A H)
    (amount : Nat) : Pays s (noteRenewed s who sub amount) who 0 0
      [⟨who,sub.id,sub.nextChargeUnixDay,amount,currentUnixDay s⟩] := by
  refine ⟨charges_still who rfl (chargesFor_event s.events _) fun _ => rfl,s.usage.market,[_],rfl,?_⟩
  intro other mem
  rw [mem_singleton.mp mem]
  rfl

theorem chargeCredits_ok (ran : chargeCredits s who amount = .ok t) :
    Pays s t who amount 0 [] ∧ t.freeCredits who + amount = s.freeCredits who := by
  unfold chargeCredits at ran
  split at ran
  next market consumed =>
    cases ran
    obtain ⟨_,_,taken,others⟩ := consumeCredits_ok consumed
    refine ⟨⟨⟨Nat.le_of_eq taken,others,?_,?_⟩,(aside_market s market).trans (aside_event _ rfl)⟩,taken⟩
    · intro other
      refine (chargesFor_event s.events _ other).trans ?_
      rw [chargeOf]
      by_cases same : who = other
      · rw [if_pos same,if_pos same.symm]
        rfl
      · rw [if_neg same,if_neg (Ne.symm same)]
        rfl
    · intro other
      rw [ite_self]
      exact consumeCredits_refunds consumed other
  · cases ran

theorem refundCredits_ok (s : State A H B) (who : A) (amount : Nat) :
    ∃ t, refundCredits s who amount = .ok t ∧ Pays s t who 0 amount [] := by
  by_cases zero : amount = 0
  · subst zero
    refine ⟨s,?_,.refl s who⟩
    rfl
  · have ran := refundCreditsWithBatch_eq s.usage.market who zero
    generalize refunds : Marketplace.depositEvent _ (Marketplace.Event.refundRecorded who amount) = market at ran
    refine ⟨setMarket s market,?_,?_⟩
    · rw [refundCredits,ran]
    · subst refunds
      refine ⟨⟨?_,?_,?_,?_⟩,aside_market s _⟩
      · change update s.usage.market.freeCredits who (saturatingAdd 128 (s.freeCredits who) amount) who + 0 ≤ _
        rw [update_self]
        exact saturatingAdd_le
      · intro other apart
        exact update_of_ne apart _ _
      · intro other
        rw [ite_self]
        rfl
      · intro other
        change refundsFor ((s.usage.market.events ++ [.mintedAccountCredits who amount]) ++ [.refundRecorded who amount]) other = _
        rw [refundsFor_append,refundsFor_silent s.usage.market.events rfl]
        change _ + ([refundOf other (.refundRecorded who amount)]).sum = _
        rw [refundOf]
        by_cases same : who = other
        · rw [if_pos same,if_pos same.symm]
          rfl
        · rw [if_neg same,if_neg (Ne.symm same)]
          rfl

theorem payCommission_pays (cfg : Config A H B) (s : State A H B) (who owner : A)
    (charged : Nat) : Pays s (payCommission cfg s owner charged) who 0 0 [] :=
  pays_quiet s who (tryPay_quiet cfg.usage.market s.usage.market owner _)

end

section
variable {A H B : Type}

theorem deactivate_some {subs : List (UserPlanSubscription A H)} (found : deactivate key subs = some (sub,rest)) :
    sub.id = key ∧ sub.active = true ∧
      ∃ before after, subs = before ++ sub :: after ∧ rest = before ++ {sub with active:=false} :: after := by
  induction subs generalizing rest with
  | nil => cases found
  | cons first subs ih =>
    rw [deactivate] at found
    split at found
    next this =>
      cases found
      exact ⟨this.1,this.2,[],subs,rfl,rfl⟩
    · obtain ⟨⟨_,_⟩,mem,same⟩ := Option.map_eq_some_iff.mp found
      cases same
      obtain ⟨named,active,before,after,split,result⟩ := ih mem
      refine ⟨named,active,first :: before,after,?_,?_⟩
      · rw [split]
        rfl
      · rw [result]
        rfl

theorem soleActive_ok {subs : List (UserPlanSubscription A H)} (ran : soleActive flavour subs = .ok (old,place)) :
    old.active = true ∧ old.package.storageFlavour = some flavour ∧
      ∃ before after, subs = before ++ old :: after ∧ ∀ new, subs.set place new = before ++ new :: after := by
  unfold soleActive at ran
  split at ran
  · cases ran
  next found only =>
    cases ran
    have mem : (old,place) ∈ subs.zipIdx.filter fun entry =>
        entry.1.active && entry.1.package.storageFlavour = some flavour := by
      rw [only]
      exact mem_cons_self
    obtain ⟨listed,chosen⟩ := mem_filter.mp mem
    obtain ⟨active,kind⟩ := (Bool.and_eq_true _ _).mp chosen
    refine ⟨active,of_decide_eq_true kind,subs.take place,subs.drop (place + 1),?_,?_⟩
    · have stored := List.mk_mem_zipIdx_iff_getElem?.mp listed
      obtain ⟨short,value⟩ := List.getElem?_eq_some_iff.mp stored
      rw [← value,← drop_eq_getElem_cons short,take_append_drop]
    · intro new
      have stored := List.mk_mem_zipIdx_iff_getElem?.mp listed
      obtain ⟨short,_⟩ := List.getElem?_eq_some_iff.mp stored
      exact set_eq_take_append_cons_drop ▸ if_pos short
  · cases ran

variable (s : State A H B) (who : A) (before after : List (UserPlanSubscription A H))

theorem dropAnchors_kept (kept : (∃ sub ∈ after, sub.id = key) ∨ ∀ sub ∈ before, sub.id ≠ key) :
    (dropAnchors s before after).subscriptionAnchorDay key = s.subscriptionAnchorDay key := by
  change before.foldl _ s.subscriptionAnchorDay key = _
  generalize s.subscriptionAnchorDay = anchors
  induction before generalizing anchors with
  | nil => rfl
  | cons first _ ih =>
    rw [foldl_cons,ih (kept.imp_right fun apart sub mem => apart sub (mem_cons_of_mem _ mem))]
    split
    · rfl
    next lost =>
      refine update_of_ne ?_ _ _
      rintro rfl
      rcases kept with ⟨sub,mem,same⟩ | apart
      · exact lost (any_eq_true.mpr ⟨sub,mem,decide_eq_true same⟩)
      · exact apart first (mem_cons_self ..) rfl

theorem mem_dueDaysOf (subs : List (UserPlanSubscription A H)) (floor day : Nat) :
    day ∈ dueDaysOf s subs floor ↔ ∃ sub ∈ subs, sub.active = true ∧ max (effectiveDueDay s sub) floor = day := by
  refine (foldl_gathers (P := fun sub => max (effectiveDueDay s sub) floor = day) ?_ _ []).trans ?_
  · intro days sub
    dsimp only
    split
    next known =>
      refine (or_iff_left_of_imp ?_).symm
      rintro rfl
      exact known
    · rw [mem_append,mem_singleton,eq_comm]
  · simp only [not_mem_nil,false_or,mem_filter,and_assoc]

variable [DecidableEq A]

theorem reindex_other (apart : other ≠ who) (day : Nat) :
    (reindex s who before after).dueAccounts.lookup (day,other) = s.dueAccounts.lookup (day,other) := by
  refine foldl_keeps (fun due : StorageMap (Nat × A) Unit => due.lookup (day,other) = s.dueAccounts.lookup (day,other)) ?_ _ ?_
  · intro due key same
    split
    · rw [lookup_insert_if,if_neg fun equal => apart (congrArg Prod.snd equal)]
      exact same
    · exact same
  · refine foldl_keeps (fun due : StorageMap (Nat × A) Unit => due.lookup (day,other) = s.dueAccounts.lookup (day,other)) ?_ _ rfl
    intro due key same
    split
    · exact same
    · rw [lookup_erase_if,if_neg fun equal => apart (congrArg Prod.snd equal)]
      exact same

theorem file_days (condition : Nat → Prop) [DecidablePred condition] (who : A) (days : List Nat)
    (due : StorageMap (Nat × A) Unit) :
    (∀ key, (due.lookup key).isSome = true → ((days.foldl (fun due day =>
      if condition day then due.insert (day,who) () else due) due).lookup key).isSome = true) ∧
    ∀ day ∈ days, condition day → ((days.foldl (fun due day =>
      if condition day then due.insert (day,who) () else due) due).lookup (day,who)).isSome = true := by
  refine foldl_establishes (fun _ => True)
    (fun one two : StorageMap (Nat × A) Unit => ∀ key, (one.lookup key).isSome = true → (two.lookup key).isSome = true)
    (fun day (due : StorageMap (Nat × A) Unit) => condition day → (due.lookup (day,who)).isSome = true)
    (fun _ _ _ present => present) ?_ ?_ ?_ days trivial
  · intro one two three first second key present
    exact second key (first key present)
  · intro day one two grows filed holds
    exact grows _ (filed holds)
  · intro due day _
    refine ⟨trivial,?_,?_⟩
    · intro key present
      split
      · rw [lookup_insert_if]
        split
        · rfl
        · exact present
      · exact present
    · intro holds
      rw [if_pos holds,lookup_insert_if,if_pos rfl]
      rfl

-- A day of the rows is in the index afterwards: it is the cursor's own, it is new, or it
-- was there before.
theorem reindex_filed (floor : Nat) (here : s.dueDayCursor.getD 0 = floor) (listed : day ∈ dueDaysOf s after floor)
    (known : day ∈ dueDaysOf s before floor → day = floor ∨ (s.dueAccounts.lookup (day,who)).isSome = true) :
    ((reindex s who before after).dueAccounts.lookup (day,who)).isSome = true := by
  subst here
  have filing := file_days (fun day => day = s.dueDayCursor.getD 0 ∨ day ∉ dueDaysOf s before (s.dueDayCursor.getD 0)) who
    (dueDaysOf s after (s.dueDayCursor.getD 0))
  by_cases fresh : day = s.dueDayCursor.getD 0 ∨ day ∉ dueDaysOf s before (s.dueDayCursor.getD 0)
  · exact (filing _).2 day listed fresh
  · obtain ⟨later,old⟩ := not_or.mp fresh
    refine (filing _).1 (day,who) ?_
    have stays : ∀ (days : List Nat), ((days.foldl (fun due other => if other ∈ dueDaysOf s after (s.dueDayCursor.getD 0) then due
        else due.erase (other,who)) s.dueAccounts).lookup (day,who)) = s.dueAccounts.lookup (day,who) := by
      intro days
      refine foldl_keeps (fun due : StorageMap (Nat × A) Unit => due.lookup (day,who) = s.dueAccounts.lookup (day,who))
        ?_ days rfl
      intro due other same
      split
      · exact same
      next dropped =>
        rw [lookup_erase_if,if_neg]
        · exact same
        · rintro equal
          cases equal
          exact dropped listed
    rw [stays]
    exact (known (not_not.mp old)).resolve_left later

-- A subscription that the index reaches: it is filed under its due day or, if that is
-- past, under the cursor's.
def Filed (due : StorageMap (Nat × A) Unit) (floor : Nat) (who : A) (sub : UserPlanSubscription A H) :
    Prop := ∃ day, sub.nextChargeUnixDay = some day ∧ (due.lookup (max day floor,who)).isSome = true

def Waiting (due : StorageMap (Nat × A) Unit) (floor : Nat) (who : A) (sub : UserPlanSubscription A H) :
    Prop := ∃ day, sub.nextChargeUnixDay = some day ∧ (day ≤ floor ∨ (due.lookup (max day floor,who)).isSome = true)

theorem Filed.waiting {due : StorageMap (Nat × A) Unit} {sub : UserPlanSubscription A H}
    (filed : Filed due floor who sub) : Waiting due floor who sub := by
  obtain ⟨day,known,entry⟩ := filed
  exact ⟨day,known,.inr entry⟩

theorem Filed.dated {due : StorageMap (Nat × A) Unit} {sub : UserPlanSubscription A H}
    (filed : Filed due floor who sub) : sub.nextChargeUnixDay.isSome = true := by
  obtain ⟨_,known,_⟩ := filed
  rw [known]
  rfl

variable [DecidableEq H]

structure Rewrites (s t : State A H B) (who : A) (rows : List (UserPlanSubscription A H)) : Prop where
  stored : subscriptionsOf t who = rows
  others : ∀ other, other ≠ who → subscriptionsOf t other = subscriptionsOf s other
  otherDue : ∀ other, other ≠ who → ∀ day, t.dueAccounts.lookup (day,other) = s.dueAccounts.lookup (day,other)
  filed : (∀ sub ∈ subscriptionsOf s who, sub.active = true → Waiting s.dueAccounts (s.dueDayCursor.getD 0) who sub) →
    ∀ sub ∈ rows, sub.nextChargeUnixDay.isSome = true → Filed t.dueAccounts (s.dueDayCursor.getD 0) who sub

structure Committed (s t : State A H B) (who : A) (rows : List (UserPlanSubscription A H)) : Prop extends Rewrites s t who rows where
  only : ∃ plans anchors due, t = {s with userAllSubscriptionPlans:=plans,subscriptionAnchorDay:=anchors,dueAccounts:=due}
  anchors : ∀ key, (∃ sub ∈ rows, sub.id = key) ∨ (∀ sub ∈ subscriptionsOf s who, sub.id ≠ key) →
    t.subscriptionAnchorDay key = s.subscriptionAnchorDay key

theorem storeSubscriptions_rows (stored : subscriptionsOf s who = before) (other : A) :
    subscriptionsOf (storeSubscriptions s who before after) other = if other = who then after else subscriptionsOf s other := by
  change ((storeSubscriptions s who before after).userAllSubscriptionPlans.lookup other).getD [] = _
  rw [storeSubscriptions]
  dsimp only
  by_cases same : other = who
  · subst same
    rw [if_pos rfl]
    split
    next none =>
      rw [none]
      split
      · next empty => exact stored.trans empty
      · rw [AList.lookup_erase]
        rfl
    · split
      · next kept => exact stored.trans kept.symm
      · rw [AList.lookup_insert]
        rfl
  · split
    · split
      · rfl
      · rw [AList.lookup_erase_ne same]
        rfl
    · split
      · rfl
      · rw [AList.lookup_insert_ne same]
        rfl

theorem commit_committed (stored : subscriptionsOf s who = before) :
    Committed s (commitSubscriptions s who before after) who (after.filter fun sub => sub.active) := by
  have rows := storeSubscriptions_rows (reindex (dropAnchors s before (after.filter fun sub => sub.active)) who before
    (after.filter fun sub => sub.active)) who before (after.filter fun sub => sub.active) stored
  refine ⟨⟨?_,?_,?_,?_⟩,⟨_,_,_,rfl⟩,?anchors⟩
  case anchors =>
    intro key kept
    rw [stored] at kept
    exact dropAnchors_kept s before _ kept
  · exact (rows who).trans (if_pos rfl)
  · intro other apart
    exact (rows other).trans (if_neg apart)
  · intro other apart day
    exact reindex_other (dropAnchors s before _) who before _ apart day
  · intro waiting sub mem dated
    rw [stored] at waiting
    obtain ⟨day,due⟩ := Option.isSome_iff_exists.mp dated
    have effective : ∀ (row : UserPlanSubscription A H) d, row.nextChargeUnixDay = some d →
        effectiveDueDay (dropAnchors s before (after.filter fun sub => sub.active)) row = d := by
      intro row d known
      rw [effectiveDueDay,known,Option.getD_some]
    refine ⟨day,due,reindex_filed _ who before _ (s.dueDayCursor.getD 0) rfl ?_ ?_⟩
    · refine (mem_dueDaysOf _ _ _ _).mpr ⟨sub,mem,(mem_filter.mp mem).2,?_⟩
      rw [effective sub day due]
    · intro listed
      obtain ⟨old,present,active,same⟩ := (mem_dueDaysOf _ _ _ _).mp listed
      obtain ⟨d,known,place⟩ := waiting old present active
      rw [effective old d known] at same
      rcases place with past | entry
      · exact .inl (same.symm.trans (Nat.max_eq_right past))
      · exact .inr (same ▸ entry)

end

section
variable {A H B : Type} [DecidableEq A] {s t u : State A H B}

def freshAnchor (s : State A H B) : Option Nat :=
  if 28 < max (dayOfMonth (currentUnixDay s)) 1 then some (max (dayOfMonth (currentUnixDay s)) 1) else none

structure Transacts (s t : State A H B) (who : A) (rows : List (UserPlanSubscription A H))
    (issued : Bool) (charge refund : Nat) (log : List (Renewed A)) : Prop extends Rewrites s t who rows, Charges s t who charge refund where
  only : ∃ market more plans next anchors cancelled due, t = {s with
    usage:={s.usage with market:=market}
    events:=s.events ++ more
    renewals:=s.renewals ++ log
    userAllSubscriptionPlans:=plans
    nextSubscriptionId:=next
    subscriptionAnchorDay:=anchors
    lastSubscriptionCancelledAt:=cancelled
    dueAccounts:=due} ∧ ∀ event ∈ more, event.completes = false
  next : t.nextSubscriptionId = if issued then saturatingAdd 32 s.nextSubscriptionId 1 else s.nextSubscriptionId
  anchors : ∀ key, (∃ sub ∈ rows, sub.id = key) ∨ (∀ sub ∈ subscriptionsOf s who, sub.id ≠ key) →
    t.subscriptionAnchorDay key = if issued ∧ key = s.nextSubscriptionId then freshAnchor s else s.subscriptionAnchorDay key

theorem Committed.transacts (committed : Committed s t who rows) : Transacts s t who rows false 0 0 [] := by
  obtain ⟨plans,anchors,due,rfl⟩ := committed.only
  refine ⟨committed.toRewrites,charges_still who rfl (fun _ => rfl) fun _ => rfl,?_,rfl,?_⟩
  · refine ⟨s.usage.market,[],plans,s.nextSubscriptionId,anchors,s.lastSubscriptionCancelledAt,due,?_,nofun⟩
    rw [append_nil,append_nil]
  · intro key kept
    rw [committed.anchors key kept,if_neg fun both => Bool.false_ne_true both.1]

theorem Pays.before (pays : Pays s t who charge refund log) (later : Transacts t u who rows issued extra refundExtra logExtra) :
    Transacts s u who rows issued (charge + extra) (refund + refundExtra) (log ++ logExtra) := by
  have same := pays.aside
  obtain ⟨_,more,rfl,silent⟩ := same
  obtain ⟨last,tail,plans,issue,anchors,cancelled,due,rfl,quiet⟩ := later.only
  refine {later with toCharges:=pays.toCharges.trans later.toCharges,only:=⟨last,more ++ tail,plans,issue,anchors,cancelled,due,?_,?_⟩}
  · rw [← append_assoc,← append_assoc]
  · intro event mem
    exact (mem_append.mp mem).elim (silent event) (quiet event)

theorem Transacts.pays (first : Transacts s t who rows issued charge refund log) (later : Pays t u who extra refundExtra logExtra) :
    Transacts s u who rows issued (charge + extra) (refund + refundExtra) (log ++ logExtra) := by
  have same := later.aside
  obtain ⟨last,tail,rfl,quiet⟩ := same
  obtain ⟨_,more,plans,issue,anchors,cancelled,due,rfl,silent⟩ := first.only
  refine {first with toCharges:=first.toCharges.trans later.toCharges,only:=⟨last,more ++ tail,plans,issue,anchors,cancelled,due,?_,?_⟩}
  · rw [← append_assoc,← append_assoc]
  · intro event mem
    exact (mem_append.mp mem).elim (silent event) (quiet event)

theorem Transacts.issues (later : Transacts (issueSubscription s) t who rows false charge refund log) :
    Transacts s t who rows true charge refund log := by
  obtain ⟨market,more,plans,issue,anchors,cancelled,due,rfl,quiet⟩ := later.only
  refine {later with only:=⟨market,more,plans,issue,anchors,cancelled,due,rfl,quiet⟩,next:=later.next,anchors:=?_}
  intro key kept
  rw [later.anchors key kept]
  change update s.subscriptionAnchorDay s.nextSubscriptionId (freshAnchor s) key = _
  by_cases same : key = s.nextSubscriptionId
  · rw [same,update_self,if_pos ⟨rfl,rfl⟩]
  · rw [update_of_ne same,if_neg fun both => same both.2]

theorem Transacts.cancels (first : Transacts s t who rows issued charge refund log) (user : A) :
    Transacts s (noteCancelled t user) who rows issued charge refund log := by
  obtain ⟨market,more,plans,issue,anchors,_,due,rfl,silent⟩ := first.only
  exact {first with only:=⟨market,more,plans,issue,anchors,_,due,rfl,silent⟩}

theorem Aside.rows (same : Aside s t log) (who : A) : subscriptionsOf t who = subscriptionsOf s who := by
  obtain ⟨_,_,rfl,_⟩ := same
  rfl

theorem chargeNet_pays (ran : chargeNet s who amount = .ok t) : Pays s t who amount 0 [] := by
  unfold chargeNet at ran
  split at ran
  · exact (chargeCredits_ok ran).1
  next zero =>
    cases ran
    rw [Nat.eq_zero_of_not_pos zero]
    exact .refl s who

variable {cfg : Config A H B}
variable [DecidableEq H]

theorem openSubscription_transacts (ran : openSubscription cfg s who plan cycles locationId image = .ok t) :
    Transacts s t who ((subscriptionsOf s who ++ [newSubscription s who plan cycles locationId image]).filter fun sub => sub.active)
      true (purchaseCharge s who plan cycles).1 0 [] := by
  simp only [openSubscription,bind_ok] at ran
  obtain ⟨charged,charges,same⟩ := ran
  cases same
  have pays : Pays (issueSubscription s) ((purchaseCharge s who plan cycles).2.elim charged fun owner =>
      payCommission cfg charged owner (purchaseCharge s who plan cycles).1) who (purchaseCharge s who plan cycles).1 0 [] := by
    cases (purchaseCharge s who plan cycles).2 with
    | none => exact (chargeCredits_ok charges).1
    | some owner => exact (chargeCredits_ok charges).1.trans (payCommission_pays cfg charged who owner _)
  exact (pays.before (commit_committed _ who _ _ (pays.aside.rows who)).transacts).issues

theorem purchaseOne_ok (ran : purchaseOne cfg owner payUpfront s order = .ok t) :
    ∃ plan locationId image shown bought, s.plans order.1 = some plan ∧
      openSubscription cfg s owner plan (cyclesPaid payUpfront) locationId image = .ok bought ∧
      t = depositEvent bought (.planPurchased owner owner order.1 order.2.1 shown order.2.2.2) := by
  obtain ⟨_,locationId,_,_⟩ := order
  simp only [purchaseOne,passes] at ran
  obtain ⟨plan,found,_,purchase⟩ := ran
  split at purchase
  next storage =>
    simp only [doPurchaseStoragePlan,passes] at purchase
    obtain ⟨bought,⟨_,_,again,known,_,_,_,_,opened⟩,same⟩ := purchase
    cases found.symm.trans known
    cases same
    exact ⟨plan,none,none,_,bought,found,opened,rfl⟩
  next compute =>
    simp only [doPurchaseComputePlan,passes] at purchase
    obtain ⟨bought,⟨_,_,_,known,_,_,_,_,opened⟩,same⟩ := purchase
    cases found.symm.trans known
    cases same
    exact ⟨plan,locationId,_,_,bought,found,opened,rfl⟩

theorem purchasePlan_keeps (inv : State A H B → Prop)
    (requests : ∀ count, inv (setRequests s owner count))
    (each : ∀ u order v, inv u → purchaseOne cfg owner payUpfront u order = .ok v → inv v)
    (ran : purchasePlan cfg s origin owner planIds locationIds images cids payUpfront = .ok t) : inv t := by
  simp only [purchasePlan,passes] at ran
  obtain ⟨_,_,_,_,_,_,bought⟩ := ran
  exact foldlM_keeps inv each _ (requests _) bought

theorem doCancelSubscriptionById_ok (ran : doCancelSubscriptionById s who key = .ok t) :
    ∃ sub rest, deactivate key (subscriptionsOf s who) = some (sub,rest) ∧
      Transacts s t who (rest.filter fun sub => sub.active) false 0 (unusedPrepaidRefundCredits s sub) [] := by
  simp only [doCancelSubscriptionById,passes] at ran
  obtain ⟨⟨sub,rest⟩,found,_,refunds,same⟩ := ran
  cases same
  refine ⟨sub,rest,found,?_⟩
  have committed := (commit_committed s who (subscriptionsOf s who) rest rfl).transacts
  obtain ⟨_,succeeds,pays⟩ := refundCredits_ok (commitSubscriptions s who (subscriptionsOf s who) rest) who
    (unusedPrepaidRefundCredits s sub)
  cases succeeds.symm.trans refunds
  have settled := committed.pays pays
  have quiet : (if sub.package.isAnyStorage then Event.storageSubscriptionCancelled who else .computeSubscriptionCancelled who :
      Event A H).quiet = true := by
    split <;> rfl
  split
  · simpa only [Nat.zero_add,Nat.add_zero,append_nil] using settled.pays (pays_event _ who quiet)
  · simpa only [Nat.zero_add,Nat.add_zero,append_nil] using (settled.cancels who).pays (pays_event _ who quiet)

theorem doDelete_transacts (ran : doDeleteStorageSubscriptionWithRefund s who = .ok t) :
    Transacts s t who (((subscriptionsOf s who).filter fun sub => !sub.package.isAnyStorage).filter fun sub => sub.active) false 0
      (bulkRefund s (subscriptionsOf s who)) [] := by
  simp only [doDeleteStorageSubscriptionWithRefund,passes] at ran
  obtain ⟨_,_,refunds,same⟩ := ran
  cases same
  obtain ⟨_,succeeds,pays⟩ := refundCredits_ok (commitSubscriptions s who (subscriptionsOf s who)
    ((subscriptionsOf s who).filter fun sub => !sub.package.isAnyStorage)) who (bulkRefund s (subscriptionsOf s who))
  cases succeeds.symm.trans refunds
  have settled := (commit_committed s who (subscriptionsOf s who) _ rfl).transacts.pays pays
  have quiet : (Event.storageSubscriptionCancelled who : Event A H).quiet = true := rfl
  simpa only [Nat.zero_add,Nat.add_zero,append_nil] using (settled.cancels who).pays (pays_event _ who quiet)

theorem doChangePlanOfFlavour_ok (ran : doChangePlanOfFlavour cfg s who flavour newPlanId = .ok t) :
    ∃ old place newPlan, soleActive flavour (subscriptionsOf s who) = .ok (old,place) ∧ s.plans newPlanId = some newPlan ∧
      Transacts s t who (((subscriptionsOf s who).set place (newSubscription s who newPlan 1 none none)).filter fun sub => sub.active)
        true (changeCharge s who newPlan old - unusedPrepaidRefundCredits s old)
        (unusedPrepaidRefundCredits s old - changeCharge s who newPlan old) [] := by
  simp only [doChangePlanOfFlavour,passes] at ran
  obtain ⟨_,_,⟨old,place⟩,sole,_,newPlan,known,_,_,_,charged,charges,settled,refunds,same⟩ := ran
  cases same
  refine ⟨old,place,newPlan,sole,known,?_⟩
  generalize changeCharge s who newPlan old - unusedPrepaidRefundCredits s old = netCharge at charges ⊢
  generalize unusedPrepaidRefundCredits s old - changeCharge s who newPlan old = netRefund at refunds ⊢
  have first := chargeNet_pays charges
  obtain ⟨_,succeeds,second⟩ := refundCredits_ok charged who netRefund
  cases succeeds.symm.trans refunds
  have third : Pays settled ((referralDiscountAndOwner s who newPlan.price).2.elim settled fun owner =>
      payCommission cfg settled owner netCharge) who 0 0 [] := by
    cases (referralDiscountAndOwner s who newPlan.price).2 with
    | none => exact .refl settled who
    | some owner => exact payCommission_pays cfg settled who owner netCharge
  generalize ((referralDiscountAndOwner s who newPlan.price).2.elim settled fun owner =>
    payCommission cfg settled owner netCharge) = paid at third ⊢
  have pays := (first.trans second).trans third
  have opened := (commit_committed (issueSubscription paid) who (subscriptionsOf s who)
    ((subscriptionsOf s who).set place (newSubscription s who newPlan 1 none none)) (pays.aside.rows who)).transacts
  have quiet : (planChanged flavour who old.package.id newPlanId s.nextSubscriptionId netCharge netRefund).quiet = true := by
    cases flavour <;> rfl
  simpa only [Nat.zero_add,Nat.add_zero,append_nil] using (pays.before opened.issues).pays (pays_event _ who quiet)

end

section
variable {A H B : Type} {s t : State A H B}

structure Lists (s t : State A H B) : Prop where
  frame : t = {s with
    plans:=t.plans
    repricingQueue:=t.repricingQueue
    repricingCursor:=t.repricingCursor
    repricedSoFar:=t.repricedSoFar
    events:=t.events}
  logged : ∃ more, t.events = s.events ++ more ∧ ∀ event ∈ more, event.quiet = true

theorem quiet_alone (event : Event A H) (silent : event.quiet = true) : ∀ e ∈ [event], e.quiet = true := by
  intro e mem
  rwa [mem_singleton.mp mem]

variable [DecidableEq A] [DecidableEq H]

theorem setPackageSuspension_lists (ran : setPackageSuspension s origin planId isSuspended = .ok t) : Lists s t := by
  simp only [setPackageSuspension,passes] at ran
  obtain ⟨_,_,_,same⟩ := ran
  cases same
  exact ⟨rfl,[_],rfl,quiet_alone _ rfl⟩

theorem addNewPlan_lists (ran : addNewPlan cfg s origin planName price isStoragePlan isS3Plan = .ok t) : Lists s t := by
  simp only [addNewPlan,passes] at ran
  obtain ⟨_,_,_,same⟩ := ran
  cases same
  exact ⟨rfl,[],(append_nil _).symm,nofun⟩

theorem setPlanPrice_lists (ran : setPlanPrice s origin planId newPrice = .ok t) : Lists s t := by
  simp only [setPlanPrice,passes] at ran
  obtain ⟨_,_,_,same⟩ := ran
  cases same
  split
  · split
    · exact ⟨rfl,[_],rfl,quiet_alone _ rfl⟩
    · exact ⟨rfl,[_],rfl,quiet_alone _ rfl⟩
  · exact ⟨rfl,[_],rfl,quiet_alone _ rfl⟩

theorem removePlan_lists (ran : removePlan s origin planId = .ok t) : Lists s t := by
  simp only [removePlan,passes] at ran
  obtain ⟨_,_,same⟩ := ran
  cases same
  split
  · exact ⟨rfl,[_],rfl,quiet_alone _ rfl⟩
  · exact ⟨rfl,[_],rfl,quiet_alone _ rfl⟩

end

section
variable {A H B : Type}
variable {s : State A H B}

theorem reprice_kept [DecidableEq H] (planId : H) (price : Word 128) (rows : List (UserPlanSubscription A H))
    (none : rows.any (reprices planId price) = false) : rows.map (reprice planId price) = rows := by
  conv_rhs => rw [← map_id rows]
  refine map_congr_left fun sub mem => ?_
  rw [reprice,if_neg]
  · rfl
  · intro changed
    rw [any_eq_true.mpr ⟨sub,mem,changed⟩] at none
    cases none

variable [DecidableEq A] {cfg : Config A H B}

theorem page_stored (mem : entry ∈ page cfg s cursor limit) : subscriptionsOf s entry.1 = entry.2 := by
  have listed := mem_of_mem_filter (mem_of_mem_take mem)
  rw [subscriptionsOf,(mem_iter _ s.userAllSubscriptionPlans).mp listed,Option.getD_some]

theorem page_distinct (cfg : Config A H B) (s : State A H B) (cursor : Option Nat) (limit : Nat) :
    ((page cfg s cursor limit).map Prod.fst).Nodup := by
  have shorter : (page cfg s cursor limit).Sublist (s.userAllSubscriptionPlans.iter cfg.usage.market.accountRank) :=
    (take_sublist _ _).trans filter_sublist
  exact (shorter.map Prod.fst).nodup (iter_keys_nodup _ _)

-- An account with rows is before the cursor, on the page, or behind a full page.
theorem page_covers (cfg : Config A H B) (s : State A H B) (cursor : Option Nat) (limit : Nat)
    (who : A) : subscriptionsOf s who = [] ∨ (∃ start, cursor = some start ∧ cfg.usage.market.accountRank who ≤ start) ∨
      who ∈ (page cfg s cursor limit).map Prod.fst ∨ limit ≤ (page cfg s cursor limit).length ∧
        ∀ entry ∈ page cfg s cursor limit, cfg.usage.market.accountRank entry.1 < cfg.usage.market.accountRank who := by
  cases found : s.userAllSubscriptionPlans.lookup who with
  | none =>
    refine .inl ?_
    rw [subscriptionsOf,found]
    rfl
  | some =>
    cases behind : (cursor.all fun start => start < cfg.usage.market.accountRank who) with
    | true =>
      refine .inr (.inr ?_)
      rcases mem_page cfg.ranked (fun entry => cursor.all fun start => start < cfg.usage.market.accountRank entry.1)
        limit found behind with listed | full
      · exact .inl (mem_map_of_mem listed)
      · exact .inr full
    | false =>
      refine .inr (.inl ?_)
      cases cursor with
      | none => cases behind
      | some start => exact ⟨start,rfl,Nat.le_of_not_lt (of_decide_eq_false behind)⟩

variable [DecidableEq H]

theorem repriceOne_rows (planId : H) (price : Word 128) (plans : StorageMap A (List (UserPlanSubscription A H)))
    (stored : (plans.lookup entry.1).getD [] = entry.2) (other : A) :
    ((repriceOne planId price plans entry).lookup other).getD [] =
      if other = entry.1 then entry.2.map (reprice planId price) else (plans.lookup other).getD [] := by
  rw [repriceOne]
  split
  · rw [lookup_insert_if]
    split
    · rfl
    · rfl
  next none =>
    rw [reprice_kept planId price entry.2 (Bool.of_not_eq_true none)]
    split
    next same =>
      rw [same]
      exact stored
    · rfl

theorem reprice_page (planId : H) (price : Word 128) (batch : List (A × List (UserPlanSubscription A H)))
    (plans : StorageMap A (List (UserPlanSubscription A H))) (distinct : (batch.map Prod.fst).Nodup)
    (stored : ∀ entry ∈ batch, (plans.lookup entry.1).getD [] = entry.2) (who : A) :
    ((batch.foldl (repriceOne planId price) plans).lookup who).getD [] =
      if who ∈ batch.map Prod.fst then ((plans.lookup who).getD []).map (reprice planId price) else (plans.lookup who).getD [] := by
  induction batch generalizing plans with
  | nil => rfl
  | cons entry batch ih =>
    obtain ⟨fresh,distinct⟩ := nodup_cons.mp distinct
    have first := repriceOne_rows planId price plans (stored entry (mem_cons_self ..))
    rw [foldl_cons,ih _ distinct,first,map_cons]
    · by_cases same : who = entry.1
      · subst same
        rw [if_neg fresh,if_pos rfl,if_pos (mem_cons_self ..),stored entry (mem_cons_self ..)]
      · rw [if_neg same]
        by_cases later : who ∈ batch.map Prod.fst
        · rw [if_pos later,if_pos (mem_cons_of_mem _ later)]
        · rw [if_neg later,if_neg fun listed => (mem_cons.mp listed).elim same later]
    · intro other mem
      rw [first,if_neg]
      · exact stored other (mem_cons_of_mem _ mem)
      · intro same
        exact fresh (same ▸ mem_map_of_mem mem)

def Passed (cfg : Config A H B) (s : State A H B) (who : A) : Prop :=
  ∃ start, s.repricingCursor = some start ∧ cfg.usage.market.accountRank who ≤ start

-- What a block does about pending prices: nothing, it retires a job whose plan is gone,
-- or it rewrites a page and ends the job when the page is the last.
inductive Reprices (cfg : Config A H B) (s : State A H B) : State A H B → Prop where
  | idle : Reprices cfg s s
  | retired (planId : H) (head : s.repricingQueue.head? = some planId) (gone : s.plans planId = none) :
      Reprices cfg s {s with repricingQueue:=s.repricingQueue.tail,repricingCursor:=none,repricedSoFar:=0}
  | completed (planId : H) (plan : Plan H) (plans : StorageMap A (List (UserPlanSubscription A H)))
      (updated : Nat) (head : s.repricingQueue.head? = some planId) (known : s.plans planId = some plan)
      (rows : ∀ who, (plans.lookup who).getD [] = (subscriptionsOf s who).map (reprice planId plan.price) ∨
        (plans.lookup who).getD [] = subscriptionsOf s who ∧ Passed cfg s who) :
      Reprices cfg s (finishRepricingJob {s with userAllSubscriptionPlans:=plans} planId plan.price updated)
  | walked (planId : H) (plan : Plan H) (plans : StorageMap A (List (UserPlanSubscription A H)))
      (updated last : Nat) (head : s.repricingQueue.head? = some planId) (known : s.plans planId = some plan)
      (rows : ∀ who, (plans.lookup who).getD [] = (subscriptionsOf s who).map (reprice planId plan.price) ∨
        (plans.lookup who).getD [] = subscriptionsOf s who ∧ (Passed cfg s who ∨ last < cfg.usage.market.accountRank who)) :
      Reprices cfg s {s with userAllSubscriptionPlans:=plans,repricingCursor:=some last,repricedSoFar:=updated}

theorem processPendingRepricing_cases (cfg : Config A H B) (s : State A H B) :
    Reprices cfg s (processPendingRepricing cfg s) := by
  unfold processPendingRepricing
  dsimp only
  split
  · exact .idle
  next positive =>
    split
    · exact .idle
    next planId head =>
      split
      · next gone => exact .retired planId head gone
      next plan known =>
        have covers := page_covers cfg s s.repricingCursor cfg.maxRepricedAccountsPerBlock
        have stored := fun entry (mem : entry ∈ page cfg s s.repricingCursor cfg.maxRepricedAccountsPerBlock) => page_stored mem
        have rewritten := reprice_page planId plan.price _ s.userAllSubscriptionPlans
          (page_distinct cfg s s.repricingCursor cfg.maxRepricedAccountsPerBlock) stored
        generalize page cfg s s.repricingCursor cfg.maxRepricedAccountsPerBlock = batch at covers rewritten ⊢
        split
        next empty =>
          rw [getLast?_eq_none_iff.mp empty] at covers
          refine .completed planId plan s.userAllSubscriptionPlans _ head known ?_
          intro who
          rcases covers who with none | passed | listed | full
          · refine .inl ?_
            rw [none]
            exact none
          · exact .inr ⟨rfl,passed⟩
          · cases listed
          · exact absurd full.1 (Nat.not_le_of_lt (Nat.pos_of_ne_zero positive))
        next last ends =>
          have each : ∀ who, ((batch.foldl (repriceOne planId plan.price) s.userAllSubscriptionPlans).lookup who).getD [] =
                (subscriptionsOf s who).map (reprice planId plan.price) ∨
              ((batch.foldl (repriceOne planId plan.price) s.userAllSubscriptionPlans).lookup who).getD [] =
                subscriptionsOf s who ∧ (Passed cfg s who ∨ cfg.maxRepricedAccountsPerBlock ≤ batch.length ∧
                  cfg.usage.market.accountRank last.1 < cfg.usage.market.accountRank who) := by
            intro who
            rw [rewritten who]
            split
            · exact .inl rfl
            next absent =>
              rcases covers who with none | passed | listed | full
              · refine .inl ?_
                rw [none]
                exact none
              · exact .inr ⟨rfl,.inl passed⟩
              · exact absurd listed absent
              · exact .inr ⟨rfl,.inr ⟨full.1,full.2 last (List.mem_of_getLast? ends)⟩⟩
          split
          next short =>
            refine .completed planId plan _ _ head known fun who => ?_
            rcases each who with done | ⟨same,passed | full⟩
            · exact .inl done
            · exact .inr ⟨same,passed⟩
            · exact absurd full.1 (Nat.not_le_of_lt short)
          · refine .walked planId plan _ _ _ head known fun who => ?_
            rcases each who with done | ⟨same,passed | full⟩
            · exact .inl done
            · exact .inr ⟨same,.inl passed⟩
            · exact .inr ⟨same,.inr full.2⟩

end
end TheBrain.Marketplace.Subscriptions
