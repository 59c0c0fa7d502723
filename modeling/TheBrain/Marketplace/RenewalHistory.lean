import TheBrain.Marketplace.IdExhaustion

-- The renewals of a subscription are for its successive due days, each at the price and on
-- the day of the visit that charged it.
namespace TheBrain.Marketplace.Subscriptions
open Library Machine Words Calendar Relation Function List

section
variable {A H B : Type}
variable {s t : State A H B} {sub row : UserPlanSubscription A H}

def cycleDay (s : State A H B) (sub : UserPlanSubscription A H) (n : Nat) : Option Nat :=
  ((advanceSubscriptionCycle s 0 0)^[n] sub).nextChargeUnixDay

theorem cycleDay_dated (dated : sub.nextChargeUnixDay.isSome = true) (n : Nat) : (cycleDay s sub n).isSome = true := by
  cases n with
  | zero => exact dated
  | succ =>
    rw [cycleDay,iterate_succ_apply']
    rfl

theorem advanced_id (s : State A H B) (sub : UserPlanSubscription A H) (n : Nat) :
    ((advanceSubscriptionCycle s 0 0)^[n] sub).id = sub.id := by
  induction n with
  | zero => rfl
  | succ _ ih =>
    rw [iterate_succ_apply']
    exact ih

theorem advance_cycleDay (anchor : t.subscriptionAnchorDay sub.id = s.subscriptionAnchorDay sub.id) (named : row.id = sub.id)
    (dated : sub.nextChargeUnixDay.isSome = true) (due : row.nextChargeUnixDay = cycleDay s sub n) (today now : Nat) :
    (advanceSubscriptionCycle t today now row).nextChargeUnixDay = cycleDay s sub (n + 1) := by
  obtain ⟨day,known⟩ := Option.isSome_iff_exists.mp (cycleDay_dated (s := s) dated n)
  have here : ((advanceSubscriptionCycle s 0 0)^[n] sub).nextChargeUnixDay = some day := known
  have same : anchorOf t row = anchorOf s ((advanceSubscriptionCycle s 0 0)^[n] sub) := by
    rw [anchorOf,anchorOf,due,known,here,advanced_id,named,anchor]
  rw [cycleDay,iterate_succ_apply',advanceSubscriptionCycle,advanceSubscriptionCycle,same,due,known,here]
  rfl

structure Charged (rows : List (UserPlanSubscription A H)) (today : Nat) (who : A) (entry : Renewed A) : Prop where
  account : entry.who = who
  stored : ∃ row ∈ rows, row.id = entry.subscriptionId ∧ entry.price = row.package.price
  day : entry.day = today
  reached : ∀ due ∈ entry.dueDay, due ≤ today

theorem Charged.descends {subs rows : List (UserPlanSubscription A H)} (charged : Charged rows today who entry)
    (descends : Descends subs rows) : Charged subs today who entry := by
  refine ⟨charged.account,?_,charged.day,charged.reached⟩
  obtain ⟨row,mem,named,price⟩ := charged.stored
  obtain ⟨sub,listed,kin⟩ := descends.kin row mem
  exact ⟨sub,listed,kin.id.symm.trans named,by rw [price,kin.package]⟩

theorem Aside.stored (same : Aside s t log) : t.subscriptionAnchorDay = s.subscriptionAnchorDay ∧ t.renewals = s.renewals ++ log := by
  obtain ⟨_,_,rfl,_⟩ := same
  exact ⟨rfl,rfl⟩

variable [DecidableEq A]

-- A stretch of renewals of one subscription: they are for its due days from the n-th on,
-- and the rows afterwards are due on the day behind them.
structure Stretch (who : A) (key : Nat) (due : Nat → Option Nat) (n k : Nat) (log : List (Renewed A))
    (rows : List (UserPlanSubscription A H)) : Prop where
  days : (log.filter fun entry => entry.who = who ∧ entry.subscriptionId = key).map (fun entry => entry.dueDay) =
    (List.range k).map fun i => due (n + i)
  rows : ∀ row ∈ rows, row.id = key → row.nextChargeUnixDay = due (n + k)

theorem Stretch.append {middle rows : List (UserPlanSubscription A H)} (first : Stretch who key due n k log middle)
    (later : Stretch who key due (n + k) l logLater rows) : Stretch who key due n (k + l) (log ++ logLater) rows := by
  refine ⟨?_,?_⟩
  · rw [List.filter_append,List.map_append,first.days,later.days,List.range_add,List.map_append,List.map_map]
    refine congrArg _ (List.map_congr_left fun i _ => ?_)
    rw [comp_apply,Nat.add_assoc]
  · rw [← Nat.add_assoc]
    exact later.rows

theorem Stretch.none {rows : List (UserPlanSubscription A H)}
    (silent : ∀ entry ∈ log, ¬(entry.who = who ∧ entry.subscriptionId = key))
    (due : ∀ row ∈ rows, row.id = key → row.nextChargeUnixDay = day n) : Stretch who key day n 0 log rows := by
  refine ⟨?_,due⟩
  have empty : (log.filter fun entry => entry.who = who ∧ entry.subscriptionId = key) = [] :=
    filter_eq_nil_iff.mpr fun entry mem holds => silent entry mem (of_decide_eq_true holds)
  rw [empty]
  rfl

variable [DecidableEq H]

theorem billed_stretch {p q : Renewal A H B} {paid unpaid : List (UserPlanSubscription A H)}
    (billed : Billed who today now p q paid unpaid) (distinct : (p.subs.map fun sub => sub.id).Nodup)
    (anchor : p.state.subscriptionAnchorDay sub.id = s.subscriptionAnchorDay sub.id) (dated : sub.nextChargeUnixDay.isSome = true)
    (due : ∀ row ∈ p.subs, row.id = sub.id → row.nextChargeUnixDay = cycleDay s sub n) :
    ∃ k, Stretch who sub.id (cycleDay s sub) n k (paid.map (renewalOf p.state who)) q.subs := by
  have paidRows : ∀ row ∈ paid, row ∈ p.subs := by
    intro row mem
    exact mem_of_mem_filter (billed.parts.mem_iff.mp (mem_append_left _ mem))
  have origin : ∀ row ∈ q.subs, row.id = sub.id → ∃ old ∈ p.subs, old.id = sub.id ∧ billedRow p.state today now paid unpaid old = row := by
    intro row mem named
    rw [billed.rows] at mem
    obtain ⟨old,listed,rfl⟩ := mem_map.mp mem
    refine ⟨old,listed,?_,rfl⟩
    rw [← named,billedRow]
    split
    · rfl
    · split
      · rfl
      · rfl
  by_cases charged : ∃ row ∈ paid, row.id = sub.id
  · obtain ⟨row,pays,named⟩ := charged
    have once : (paid.filter fun other => other.id = sub.id) = [row] := by
      refine perm_singleton.mp ((perm_ext_iff_of_nodup ?_ (nodup_singleton row)).mpr ?_)
      · exact (nodup_append.mp billed.distinct).1.filter _
      · intro other
        rw [mem_filter,mem_singleton]
        constructor
        · rintro ⟨mem,same⟩
          exact same_row distinct (paidRows other mem) (paidRows row pays) ((of_decide_eq_true same).trans named.symm)
        · rintro rfl
          exact ⟨pays,decide_eq_true named⟩
    refine ⟨1,?_,?_⟩
    · rw [filter_map]
      have own : (paid.filter ((fun entry : Renewed A => decide (entry.who = who ∧ entry.subscriptionId = sub.id)) ∘
          renewalOf p.state who)) = [row] := by
        rw [← once]
        refine filter_congr fun other _ => ?_
        simp only [comp_apply,renewalOf,true_and]
      rw [own]
      exact congrArg (fun day => [day]) (due row (paidRows row pays) named)
    · intro after mem same
      obtain ⟨old,listed,known,rfl⟩ := origin after mem same
      have single : old = row := same_row distinct listed (paidRows row pays) (known.trans named.symm)
      rw [billedRow,if_pos (single ▸ pays)]
      exact advance_cycleDay anchor known dated (due old listed known) today now
  · refine ⟨0,Stretch.none ?_ ?_⟩
    · intro entry mem both
      obtain ⟨row,pays,rfl⟩ := mem_map.mp mem
      exact charged ⟨row,pays,both.2⟩
    · intro after mem same
      obtain ⟨old,listed,known,rfl⟩ := origin after mem same
      rw [billedRow,if_neg fun pays => charged ⟨old,pays,known⟩]
      split
      · exact due old listed known
      · exact due old listed known

theorem billed_charged {p q : Renewal A H B} {paid unpaid : List (UserPlanSubscription A H)}
    (billed : Billed who (currentUnixDay p.state) now p q paid unpaid) :
    ∀ entry ∈ paid.map (renewalOf p.state who), Charged p.subs (currentUnixDay p.state) who entry := by
  intro entry mem
  obtain ⟨row,pays,rfl⟩ := mem_map.mp mem
  obtain ⟨listed,charges⟩ := mem_filter.mp (billed.parts.mem_iff.mp (mem_append_left _ pays))
  refine ⟨rfl,⟨row,listed,rfl,rfl⟩,rfl,?_⟩
  intro due known
  have reached := ((Bool.and_eq_true _ _).mp charges).2
  rw [isDue,show row.nextChargeUnixDay = some due from known] at reached
  exact of_decide_eq_true reached

theorem billed_descends {p q : Renewal A H B} {paid unpaid : List (UserPlanSubscription A H)}
    (billed : Billed who today now p q paid unpaid) : Descends p.subs q.subs := by
  rw [billed.rows]
  refine descends_map _ ?_
  intro sub
  rw [billedRow]
  split
  · exact advance_kin p.state today now sub
  · split
    · exact ⟨rfl,rfl,fun never => Bool.noConfusion never,.inl rfl⟩
    · exact .refl sub

theorem catchUp_stretch (cfg : Config A H B) (who : A) (now rounds : Nat) (p : Renewal A H B)
    (day : currentUnixDay p.state = today) (distinct : (p.subs.map fun sub => sub.id).Nodup) :
    ∃ log, (catchUp cfg who today now rounds p).state.renewals = p.state.renewals ++ log ∧
      (∀ entry ∈ log, Charged p.subs today who entry) ∧
      ∀ s sub n, p.state.subscriptionAnchorDay sub.id = s.subscriptionAnchorDay sub.id → sub.nextChargeUnixDay.isSome = true →
        (∀ row ∈ p.subs, row.id = sub.id → row.nextChargeUnixDay = cycleDay s sub n) →
        ∃ k, Stretch who sub.id (cycleDay (s : State A H B) sub) n k log (catchUp cfg who today now rounds p).subs := by
  induction rounds generalizing p with
  | zero =>
    refine ⟨[],(append_nil _).symm,nofun,?_⟩
    intro s sub n _ _ due
    exact ⟨0,Stretch.none nofun due⟩
  | succ _ ih =>
    subst day
    obtain ⟨paid,_,billed⟩ := round_billed cfg who now p distinct
    have descends := billed_descends billed
    obtain ⟨anchors,renewals⟩ := billed.pays.aside.stored
    obtain ⟨log,later,charged,stretch⟩ := ih (round cfg who (currentUnixDay p.state) now p) billed.pays.aside.today (by
      rw [descends.ids]
      exact distinct)
    rw [catchUp,iterate_succ_apply,← catchUp]
    refine ⟨paid.map (renewalOf p.state who) ++ log,?_,?_,?_⟩
    · rw [later,renewals,append_assoc]
    · intro entry mem
      rcases mem_append.mp mem with early | late
      · exact billed_charged billed entry early
      · exact (charged entry late).descends descends
    · intro s sub n anchor dated due
      obtain ⟨k,first⟩ := billed_stretch billed distinct anchor dated due
      obtain ⟨l,rest⟩ := stretch s sub (n + k) (by rw [anchors]; exact anchor) dated first.rows
      exact ⟨k + l,first.append rest⟩

theorem visit_stretch (cfg : Config A H B) (u : State A H B) (who : A) (now : Nat)
    (distinct : ((subscriptionsOf u who).map fun sub => sub.id).Nodup) :
    ∃ log, (chargeAccountDue cfg u who now).renewals = u.renewals ++ log ∧
      (∀ entry ∈ log, Charged (subscriptionsOf u who) (currentUnixDay u) who entry) ∧
      ∀ s sub n, u.subscriptionAnchorDay sub.id = s.subscriptionAnchorDay sub.id → sub.nextChargeUnixDay.isSome = true →
        (∀ row ∈ subscriptionsOf u who, row.id = sub.id → row.nextChargeUnixDay = cycleDay s sub n) →
        ∃ k, Stretch who sub.id (cycleDay (s : State A H B) sub) n k log
          (subscriptionsOf (chargeAccountDue cfg u who now) who) := by
  unfold chargeAccountDue
  dsimp only
  split
  · obtain ⟨log,renewals,charged,stretch⟩ := catchUp_stretch cfg who now maxCatchupMonths ⟨u,subscriptionsOf u who⟩ rfl distinct
    obtain ⟨_,_,_,pays,_⟩ := catchUp_general cfg who (currentUnixDay u) now maxCatchupMonths ⟨u,subscriptionsOf u who⟩
    have here : subscriptionsOf (catchUp cfg who (currentUnixDay u) now maxCatchupMonths ⟨u,subscriptionsOf u who⟩).state who =
        subscriptionsOf u who := pays.aside.rows who
    generalize catchUp cfg who (currentUnixDay u) now maxCatchupMonths ⟨u,subscriptionsOf u who⟩ = p at renewals stretch here ⊢
    have committed := commit_committed p.state who _ p.subs here
    have kept : (commitSubscriptions p.state who (subscriptionsOf u who) p.subs).renewals = p.state.renewals := by
      obtain ⟨_,_,_,same⟩ := committed.only
      rw [same]
    refine ⟨log,kept.trans renewals,charged,?_⟩
    intro s sub n anchor dated due
    obtain ⟨k,first⟩ := stretch s sub n anchor dated due
    refine ⟨k,first.days,?_⟩
    intro row mem
    rw [committed.stored] at mem
    exact first.rows row (mem_of_mem_filter mem)
  · refine ⟨[],(append_nil _).symm,nofun,?_⟩
    intro s sub n _ _ due
    exact ⟨0,Stretch.none nofun due⟩

variable {cfg : Config A H B}

section
omit [DecidableEq H]

-- An entry is fair if some state on the way had the row, the price and the day.
def Fair (cfg : Config A H B) (s t : State A H B) (entry : Renewed A) : Prop :=
  ∃ u, ReflTransGen (Hop cfg) s u ∧ ReflTransGen (Hop cfg) u t ∧
    Charged (subscriptionsOf u entry.who) (currentUnixDay u) entry.who entry

structure Tracked (cfg : Config A H B) (s : State A H B) (who : A)
    (sub : UserPlanSubscription A H) (u : State A H B) (n : Nat) (log : List (Renewed A)) : Prop where
  renewals : u.renewals = s.renewals ++ log
  stretch : Stretch who sub.id (cycleDay s sub) 0 n log (subscriptionsOf u who)
  fair : ∀ entry ∈ log, Fair cfg s u entry
  old : sub.id < u.nextSubscriptionId
  anchor : ∀ row ∈ subscriptionsOf u who, row.id = sub.id → u.subscriptionAnchorDay sub.id = s.subscriptionAnchorDay sub.id

theorem Transacts.renewed (acts : Transacts s t who rows issued charge refund log) : t.renewals = s.renewals ++ log := by
  obtain ⟨_,_,_,_,_,_,_,rfl,_⟩ := acts.only
  rfl

theorem Transacts.older (acts : Transacts s t who rows issued charge refund log) (room : t.nextSubscriptionId < maxOf 32) :
    s.nextSubscriptionId ≤ t.nextSubscriptionId := by
  have next := acts.next
  cases issued with
  | false => exact Nat.le_of_eq next.symm
  | true =>
    rw [if_pos rfl] at next
    unfold saturatingAdd at next
    omega

theorem Transacts.kept (acts : Transacts s t who rows issued charge refund log) (numbered : Numbered s) (old : key < s.nextSubscriptionId)
    (mem : row ∈ subscriptionsOf t other) (named : row.id = key) : t.subscriptionAnchorDay key = s.subscriptionAnchorDay key := by
  have present : (∃ sub ∈ rows, sub.id = key) ∨ ∀ sub ∈ subscriptionsOf s who, sub.id ≠ key := by
    by_cases own : other = who
    · subst own
      rw [acts.stored] at mem
      exact .inl ⟨row,mem,named⟩
    · rw [acts.others other own] at mem
      refine .inr fun sub listed => ?_
      rw [← named]
      exact numbered.apart who other (Ne.symm own) sub listed row mem
  rw [acts.anchors key present,if_neg fun both => Nat.ne_of_lt old both.2]

end

section
variable {u v : State A H B}

theorem Fair.tail (fair : Fair cfg s u entry) (hop : Hop cfg u v) : Fair cfg s v entry := by
  obtain ⟨w,before,after,charged⟩ := fair
  exact ⟨w,before,after.tail hop,charged⟩

theorem Tracked.retains (tracked : Tracked cfg s who sub u n log) (dated : sub.nextChargeUnixDay.isSome = true) (hop : Hop cfg u v)
    (retains : Retains u v) : Tracked cfg s who sub v n log := by
  obtain ⟨_,rows,each⟩ := retains.rows who
  refine ⟨retains.renewals.trans tracked.renewals,⟨tracked.stretch.days,?_⟩,fun entry mem => (tracked.fair entry mem).tail hop,
    retains.next ▸ tracked.old,?_⟩
  · intro row mem named
    rw [rows] at mem
    obtain ⟨old,listed,rfl⟩ := mem_map.mp mem
    have due := tracked.stretch.rows old listed ((each old).id.symm.trans named)
    rw [(each old).dated (by rw [due]; exact cycleDay_dated dated _),due]
  · intro row mem named
    rw [rows] at mem
    obtain ⟨old,listed,rfl⟩ := mem_map.mp mem
    rw [retains.anchors]
    exact tracked.anchor old listed ((each old).id.symm.trans named)

theorem Tracked.edits (tracked : Tracked cfg s who sub u n log) (hop : Hop cfg u v)
    (acts : Transacts u v other rows issued charge refund []) (numbered : Numbered u) (room : v.nextSubscriptionId < maxOf 32)
    (each : ∀ row ∈ rows, row ∈ subscriptionsOf u other ∨ issued = true ∧ row.id = u.nextSubscriptionId) :
    Tracked cfg s who sub v n log := by
  have old : ∀ row ∈ subscriptionsOf v who, row.id = sub.id → row ∈ subscriptionsOf u who := by
    intro row mem named
    by_cases own : who = other
    · subst own
      rw [acts.stored] at mem
      rcases each row mem with old | ⟨_,fresh⟩
      · exact old
      · exact absurd (named.symm.trans fresh) (Nat.ne_of_lt tracked.old)
    · rw [acts.others who own] at mem
      exact mem
  refine ⟨?_,⟨tracked.stretch.days,?_⟩,fun entry mem => (tracked.fair entry mem).tail hop,
    Nat.lt_of_lt_of_le tracked.old (acts.older room),?_⟩
  · rw [acts.renewed,append_nil]
    exact tracked.renewals
  · intro row mem named
    exact tracked.stretch.rows row (old row mem named) named
  · intro row mem named
    rw [acts.kept numbered tracked.old mem named]
    exact tracked.anchor row (old row mem named) named

theorem Tracked.visits (tracked : Tracked cfg s who sub u n log) (dated : sub.nextChargeUnixDay.isSome = true)
    (path : ReflTransGen (Hop cfg) s u) (numbered : Numbered u) (other : A) (now : Nat)
    (room : (chargeAccountDue cfg u other now).nextSubscriptionId < maxOf 32) :
    ∃ m more, Tracked cfg s who sub (chargeAccountDue cfg u other now) m more := by
  have hop : Hop cfg u (chargeAccountDue cfg u other now) := .move (.work (.visited other now))
  obtain ⟨logged,renewals,charged,stretch⟩ := visit_stretch cfg u other now (numbered.distinct other)
  rcases chargeAccountDue_general cfg u other now with ⟨same,_⟩ | ⟨_,_,_,_,descends,acts⟩
  · rw [same] at hop ⊢
    exact ⟨n,log,tracked⟩
  · -- A row that is there afterwards comes from one of the same id.
    have origin : ∀ row ∈ subscriptionsOf (chargeAccountDue cfg u other now) who, row.id = sub.id →
        ∃ old ∈ subscriptionsOf u who, old.id = sub.id := by
      intro row mem named
      by_cases own : who = other
      · subst own
        rw [acts.stored] at mem
        obtain ⟨old,listed,kin⟩ := descends.kin row (mem_of_mem_filter mem)
        exact ⟨old,listed,kin.id.symm.trans named⟩
      · rw [acts.others who own] at mem
        exact ⟨row,mem,named⟩
    have later : ∃ k, Stretch who sub.id (cycleDay s sub) (0 + n) k logged (subscriptionsOf (chargeAccountDue cfg u other now) who) := by
      by_cases own : who = other
      · subst own
        by_cases present : ∃ row ∈ subscriptionsOf u who, row.id = sub.id
        · obtain ⟨row,mem,named⟩ := present
          exact stretch s sub (0 + n) (tracked.anchor row mem named) dated tracked.stretch.rows
        · refine ⟨0,Stretch.none ?_ ?_⟩
          · intro entry mem both
            obtain ⟨row,listed,named,_⟩ := (charged entry mem).stored
            exact present ⟨row,listed,named.trans both.2⟩
          · intro row mem named
            exact absurd (origin row mem named) present
      · refine ⟨0,Stretch.none ?_ ?_⟩
        · intro entry mem both
          exact own (both.1.symm.trans (charged entry mem).account)
        · rw [acts.others who own]
          exact tracked.stretch.rows
    obtain ⟨k,later⟩ := later
    refine ⟨n + k,log ++ logged,?_,tracked.stretch.append later,?_,Nat.lt_of_lt_of_le tracked.old (acts.older room),?_⟩
    · rw [renewals,tracked.renewals,append_assoc]
    · intro entry mem
      rcases mem_append.mp mem with early | late
      · exact (tracked.fair entry early).tail hop
      · have here := charged entry late
        refine ⟨u,path,.single hop,?_⟩
        rw [here.account]
        exact here
    · intro row mem named
      obtain ⟨old,listed,known⟩ := origin row mem named
      rw [acts.kept numbered tracked.old mem named]
      exact tracked.anchor old listed known

theorem hops_tracked (path : ReflTransGen (Hop cfg) s t) (fresh : Numbered s) (mem : sub ∈ subscriptionsOf s who)
    (dated : sub.nextChargeUnixDay.isSome = true) : t.nextSubscriptionId < maxOf 32 → ∃ n log, Tracked cfg s who sub t n log := by
  induction path with
  | refl =>
    intro room
    have single : ∀ row ∈ subscriptionsOf s who, row.id = sub.id → row.nextChargeUnixDay = cycleDay s sub 0 := by
      intro row listed named
      rw [same_row (fresh.distinct who) listed mem named]
      rfl
    exact ⟨0,[],(append_nil _).symm,Stretch.none nofun single,nofun,
      fresh.below who sub mem,fun _ _ _ => rfl⟩
  | tail before hop ih =>
    intro room
    obtain ⟨earlier,_⟩ := hop.turns.numbered room
    have numbered := (hops_numbered before earlier).2 fresh
    obtain ⟨n,log,tracked⟩ := ih earlier
    cases hop.turns with
    | retains retains => exact ⟨n,log,tracked.retains dated hop retains⟩
    | edits _ _ _ _ _ acts each =>
      exact ⟨n,log,tracked.edits hop acts numbered room each⟩
    | visits other now same =>
      subst same
      exact tracked.visits dated before numbered other now room

end

theorem catchUp_ready (cfg : Config A H B) (numbered : Numbered t) (who : A) (now rounds : Nat) :
    let p := catchUp cfg who (currentUnixDay t) now rounds ⟨t,subscriptionsOf t who⟩
    (p.subs.map fun sub => sub.id).Nodup ∧ currentUnixDay p.state = currentUnixDay t := by
  induction rounds with
  | zero => exact ⟨numbered.distinct who,rfl⟩
  | succ rounds ih =>
    obtain ⟨distinct,day⟩ := ih
    rw [catchUp,iterate_succ_apply',← catchUp]
    generalize catchUp cfg who (currentUnixDay t) now rounds ⟨t,subscriptionsOf t who⟩ = p at distinct day ⊢
    rw [← day]
    obtain ⟨_,_,billed⟩ := round_billed cfg who now p distinct
    refine ⟨?_,billed.pays.aside.today⟩
    rw [(billed_descends billed).ids]
    exact distinct

theorem cycles_charged_once (cfg : Config A H B) (start s t : State A H B) (numbered : Numbered start)
    (reached : ReflTransGen (Hop cfg) start s) (later : ReflTransGen (Hop cfg) s t) (room : t.nextSubscriptionId < maxOf 32) :
    (∀ calls, ReflTransGen (Hop cfg) start (run (step cfg) start calls)) ∧
    (∀ who, ∀ sub ∈ subscriptionsOf s who, sub.nextChargeUnixDay.isSome = true →
      ∃ n log, t.renewals = s.renewals ++ log ∧
        (log.filter fun entry => entry.who = who ∧ entry.subscriptionId = sub.id).map (fun entry => entry.dueDay) =
          (List.range n).map (cycleDay s sub) ∧
        (∀ entry ∈ log, Fair cfg s t entry) ∧
        ∀ row ∈ subscriptionsOf t who, row.id = sub.id → row.nextChargeUnixDay = cycleDay s sub n) ∧
    ∀ who now rounds,
      let today := currentUnixDay t
      let p := catchUp cfg who today now rounds ⟨t,subscriptionsOf t who⟩
      let q := round cfg who today now p
      ∃ paid unpaid, Billed who today now p q paid unpaid ∧
        q.state.freeCredits who + (paid.map priceOf).sum = p.state.freeCredits who := by
  refine ⟨run_hops,?_,?_⟩
  · intro who sub mem dated
    obtain ⟨before,_⟩ := hops_numbered later room
    obtain ⟨n,log,tracked⟩ := hops_tracked later ((hops_numbered reached before).2 numbered) mem dated room
    have days := tracked.stretch.days
    have rows := tracked.stretch.rows
    simp only [Nat.zero_add] at days rows
    exact ⟨n,log,tracked.renewals,days,tracked.fair,rows⟩
  · intro who now rounds today p q
    have ends := (hops_numbered (reached.trans later) room).2 numbered
    obtain ⟨distinct,day⟩ := catchUp_ready cfg ends who now rounds
    obtain ⟨paid,unpaid,billed⟩ := round_billed cfg who now p distinct
    rw [day] at billed
    exact ⟨paid,unpaid,billed,billed.exactly⟩

section
omit [DecidableEq H]

theorem round_compute (cfg : Config A H B) (who : A) (now : Nat) {rows : List (UserPlanSubscription A H)}
    (due : ∀ sub ∈ rows, charges today sub = true) (compute : ∀ sub ∈ rows, sub.package.isAnyStorage = false)
    (mem : sub ∈ rows) (costs : priceOf sub ≠ 0) :
    round cfg who today now ⟨s,rows⟩ =
      let paid := chargeDueSubscriptionsIndividually s who rows
      paid.failed.foldl (dropFailed who (s.freeCredits who) (s.freeCredits who))
        ⟨payRenewalCommission cfg paid.state who (saturatingAdd 128 0 paid.charged),
          settleRows paid.state today now paid.failed rows⟩ := by
  have all : rows.filter (charges today) = rows := filter_eq_self.mpr due
  have storage : rows.filter (fun sub => sub.package.isAnyStorage) = [] :=
    filter_eq_nil_iff.mpr fun sub listed never => Bool.false_ne_true ((compute sub listed).symm.trans never)
  have others : rows.filter (fun sub => !sub.package.isAnyStorage) = rows :=
    filter_eq_self.mpr fun sub listed => by rw [compute sub listed]; rfl
  have some : rows ≠ [] := ne_nil_of_mem mem
  have total : totalCharge rows ≠ 0 := fun zero => costs (totalCharge_zero rows zero sub mem)
  rw [round]
  dsimp only
  rw [all,if_neg some,storage,others,if_neg fun both => total both.2,renewPaid]
  dsimp only
  rw [all,storage,others]
  rfl

theorem chargeOne_affordable {p : Charging A H B} (covered : Marketplace.Covered p.state.usage.market)
    (available : priceOf sub ≤ p.available) (funded : priceOf sub ≤ p.state.freeCredits who) :
    (chargeOne who p sub).failed = p.failed := by
  obtain ⟨_,consumed⟩ := consumeCredits_succeeds covered.toListing (covered.covered who) funded
  have enough : ¬p.available < (sub.package.price : Nat) := Nat.not_lt.mpr available
  unfold chargeOne
  dsimp only
  rw [if_neg enough,show consumeCredits _ _ (sub.package.price : Nat) = _ from consumed]

end

theorem shared_id_round (cfg : Config A H B) (who : A) (now : Nat)
    {one two : UserPlanSubscription A H} (same : one.id = two.id) (due : ∀ sub ∈ [one,two], charges (currentUnixDay s) sub = true)
    (compute : ∀ sub ∈ [one,two], sub.package.isAnyStorage = false) (covered : Marketplace.Covered s.usage.market)
    (affordable : priceOf one ≤ s.freeCredits who) (short : s.freeCredits who < priceOf one + priceOf two) :
    let q := round cfg who (currentUnixDay s) now ⟨s,[one,two]⟩
    q.subs = [{one with active:=false},two] ∧ q.state.renewals = s.renewals ++ [renewalOf s who one] := by
  have pass : chargeDueSubscriptionsIndividually s who [one,two] = chargeOne who (chargeOne who ⟨s,0,s.freeCredits who,[]⟩ one) two := by
    have order : [one,two].insertionSort (fun one two => one.id ≤ two.id) = [one,two] := by
      rw [insertionSort_cons,insertionSort_cons,insertionSort_nil,orderedInsert_nil,orderedInsert_cons,
        if_pos (Nat.le_of_eq same)]
    rw [chargeDueSubscriptionsIndividually,order]
    rfl
  have active : one.active = true := ((Bool.and_eq_true _ _).mp (due one mem_cons_self)).1
  intro q
  have ends : q = _ := round_compute cfg who now due compute (mem_cons_of_mem _ (mem_cons_self)) (by omega)
  dsimp only at ends
  rw [pass] at ends
  have dropped : deactivate two.id [one,two] = some (one,[{one with active:=false},two]) := if_pos ⟨same,active⟩
  obtain ⟨payOne,keptOne,_,takenOne⟩ | fails := chargeOne_cases who ⟨s,0,s.freeCredits who,[]⟩ one
  · generalize chargeOne who ⟨s,0,s.freeCredits who,[]⟩ one = first at payOne keptOne takenOne ends
    obtain ⟨_,_,_,_⟩ | fails := chargeOne_cases who first two
    · dsimp only at takenOne
      omega
    · rw [fails] at ends
      dsimp only at ends
      rw [keptOne,nil_append] at ends
      have still : settleRows first.state (currentUnixDay s) now [(two.id,first.available)] [one,two] = [one,two] := by
        simp only [settleRows,map_cons,map_nil,any_cons,any_nil,same,decide_true,Bool.or_false,
          Bool.not_true,Bool.and_false,Bool.false_eq_true,if_false]
      rw [still,foldl_cons,foldl_nil] at ends
      obtain ⟨market,_,commission⟩ := payRenewalCommission_quiet cfg first.state who (saturatingAdd 128 0 first.charged)
      rw [commission] at ends
      have renewals : (setMarket first.state market).renewals = s.renewals ++ [renewalOf s who one] := payOne.aside.stored.2
      rcases dropFailed_cases who (s.freeCredits who) (s.freeCredits who) ⟨setMarket first.state market,[one,two]⟩
        (two.id,first.available) with ⟨_,_,found,rows,pays⟩ | ⟨absent,_,_⟩ | ⟨absent,_⟩
      · cases dropped.symm.trans found
        rw [ends]
        refine ⟨rows,?_⟩
        rw [pays.aside.stored.2,append_nil]
        exact renewals
      · cases dropped.symm.trans absent
      · exact absurd (decide_eq_true same) (List.find?_eq_none.mp absent one mem_cons_self)
  · have none := chargeOne_affordable (p := ⟨s,0,s.freeCredits who,[]⟩) covered affordable affordable
    rw [fails] at none
    exact absurd none (append_ne_nil_of_right_ne_nil _ (cons_ne_nil _ _))

end

theorem unsold_numbered : Numbered unsold := ⟨fun _ => nodup_nil,nofun,nofun⟩

def forty : Call Nat Nat (Nat → Nat) := .usage (.advanceClock (40 * msPerDay))

theorem forty_days (s : State Nat Nat (Nat → Nat)) (clock : s.usage.nowMs = msPerDay) :
    currentUnixDay (step plainConfig s forty) = 41 ∧ (step plainConfig s forty).usage.market = s.usage.market ∧
      ∀ who, subscriptionsOf (step plainConfig s forty) who = subscriptionsOf s who := by
  refine ⟨?_,rfl,fun _ => rfl⟩
  change (s.usage.nowMs + 40 * msPerDay) / msPerDay % 2 ^ 32 = 41
  rw [clock]
  decide

theorem bought_due (s : State Nat Nat (Nat → Nat)) (who : Nat) (plan : Plan Nat) (clock : s.usage.nowMs = msPerDay) :
    charges 41 (newSubscription s who plan 1 none none) = true := by
  have day : currentUnixDay s = 1 := by
    rw [currentUnixDay,clock]
    decide
  change (true && decide (advanceCycles (currentUnixDay s) (max (dayOfMonth (currentUnixDay s)) 1) 1 ≤ 41)) = true
  rw [day]
  decide +kernel

def stocking : List (Call Nat Nat (Nat → Nat)) :=
  [ .usage (.market (.addAuthority .root 5)),deposit 5 1 100,.addNewPlan .root [0,0,0] 0 false false,
    .addNewPlan .root [0,0,0,0] 100 false false]

def stocked : State Nat Nat (Nat → Nat) := run (step plainConfig) unsold stocking

theorem stocked_facts : Marketplace.Covered stocked.usage.market ∧ stocked.nextSubscriptionId = 0 ∧ stocked.freeCredits 1 = 100 ∧
    OnSale stocked 5 3 ⟨3,false,0,false,false⟩ ∧ OnSale stocked 5 4 ⟨4,false,100,false,false⟩ ∧ stocked.usage.nowMs = msPerDay := by
  refine ⟨?_,by decide +kernel,by decide +kernel,?_,?_,by decide +kernel⟩
  · let calls : List (Marketplace.Call Nat (Nat → Nat)) := [.addAuthority .root 5,.deposit (.signed 5) 1 100 0 false none]
    have market : stocked.usage.market = run (Marketplace.step plainConfig.usage.market) (Marketplace.genesis Bank.opened) calls := rfl
    rw [market]
    exact run_invariant Marketplace.Covered step_covered ⟨genesis_listing _,fun _ => Nat.le_refl 0⟩ (by decide +kernel)
  · exact ⟨by decide +kernel,by decide +kernel,rfl,rfl,by decide +kernel⟩
  · exact ⟨by decide +kernel,by decide +kernel,rfl,rfl,by decide +kernel⟩

theorem stocked_empty : (∀ who, subscriptionsOf stocked who = []) ∧ ∀ who, stocked.lastSubscriptionCancelledAt who = none := by
  refine ⟨?_,?_⟩
  · intro who
    rfl
  · intro who
    rfl

theorem cycles_confused :
    ∃ (calls : List (Call Nat Nat (Nat → Nat))) (paid unpaid : UserPlanSubscription Nat Nat),
      let s := run (step plainConfig) unsold calls
      let q := round plainConfig 1 (currentUnixDay s) s.blockNumber ⟨s,subscriptionsOf s 1⟩
      subscriptionsOf s 1 = [paid,unpaid] ∧ (∀ sub ∈ [paid,unpaid], charges (currentUnixDay s) sub = true) ∧
        q.state.renewals = s.renewals ++ [renewalOf s 1 paid] ∧ q.subs = [{paid with active:=false},unpaid] := by
  obtain ⟨funded,first,credits,free,priced,clock⟩ := stocked_facts
  obtain ⟨empty,cooled⟩ := stocked_empty
  obtain ⟨calls,sold,_⟩ := purchases_exhaust plainConfig free rfl rfl (by decide) (fun n => n + 10)
    (fun _ _ same => Nat.add_right_cancel same) (fun n => empty _) cooled funded (maxOf 32)
    (by rw [first,Nat.zero_add])
  generalize reached : run (step plainConfig) stocked calls = s at sold
  obtain ⟨rows,balance⟩ := sold.others 1 fun n _ => by omega
  rw [empty] at rows
  have last : s.nextSubscriptionId = maxOf 32 := by rw [sold.next,first,Nat.zero_add]
  have one := purchase_bought plainConfig 1 (free.still sold.plans sold.settings) rfl (by rw [rows]; decide)
    (by rw [sold.cooled]; exact cooled 1) sold.covered (by rw [purchaseCharge_free s 1 rfl]; exact Nat.zero_le _)
  generalize buysOne : step plainConfig s (purchase 5 1 3) = t at one
  have rowsOne := one.rows (by rw [rows]; exact nofun)
  have paidOne := one.paid
  obtain ⟨plansOne,settingsOne,clockOne⟩ := one.frame
  rw [rows] at rowsOne
  rw [purchaseCharge_free s 1 rfl,balance,Nat.add_zero] at paidOne
  have price : 95 ≤ (purchaseCharge t 1 ⟨4,false,100,false,false⟩ 1).1 ∧ (purchaseCharge t 1 ⟨4,false,100,false,false⟩ 1).1 ≤ 100 := by
    rcases purchaseCharge_cases t 1 ⟨4,false,100,false,false⟩ 1 with face | discounted
    · rw [face]
      decide
    · rw [discounted]
      decide
  have two := purchase_bought plainConfig 1 (priced.still (plansOne.trans sold.plans) (settingsOne.trans sold.settings)) rfl
    (by rw [rowsOne]; exact (show 1 % 2 ^ 32 < 5 by decide)) (by rw [one.cooled,sold.cooled]; exact cooled 1) (one.covered sold.covered)
    (by rw [paidOne]; exact price.2)
  generalize buysTwo : step plainConfig t (purchase 5 1 4) = u at two
  have rowsTwo := two.rows (by rw [rowsOne]; exact fun sub mem => mem_singleton.mp mem ▸ rfl)
  have paidTwo := two.paid
  obtain ⟨_,_,clockTwo⟩ := two.frame
  rw [rowsOne] at rowsTwo
  have fine := two.covered (one.covered sold.covered)
  obtain ⟨evening,market,rowsLater⟩ := forty_days u (clockTwo.trans (clockOne.trans (sold.nowMs.trans clock)))
  refine ⟨stocking ++ (calls ++ [purchase 5 1 3,purchase 5 1 4,forty]),newSubscription s 1 ⟨3,false,0,false,false⟩ 1 none none,
    newSubscription t 1 ⟨4,false,100,false,false⟩ 1 none none,?_⟩
  have ends : run (step plainConfig) unsold (stocking ++ (calls ++ [purchase 5 1 3,purchase 5 1 4,forty])) =
      step plainConfig u forty := by
    rw [run_append,run_append]
    change run (step plainConfig) (run (step plainConfig) stocked calls) _ = _
    rw [reached,run_cons,run_cons,run_cons,run_nil,buysOne,buysTwo]
  rw [ends]
  generalize step plainConfig u forty = v at evening market rowsLater
  have same : s.nextSubscriptionId = t.nextSubscriptionId := by
    rw [one.next,last]
    decide
  have both : ∀ sub ∈ [newSubscription s 1 ⟨3,false,0,false,false⟩ 1 none none,newSubscription t 1 ⟨4,false,100,false,false⟩ 1 none none],
      charges (currentUnixDay v) sub = true ∧ sub.package.isAnyStorage = false := by
    intro sub mem
    rw [evening]
    rcases mem_cons.mp mem with rfl | mem
    · exact ⟨bought_due s 1 _ (sold.nowMs.trans clock),rfl⟩
    · rw [mem_singleton.mp mem]
      exact ⟨bought_due t 1 _ (clockOne.trans (sold.nowMs.trans clock)),rfl⟩
  have little : v.freeCredits 1 < 0 + 100 := by
    rw [State.freeCredits,market]
    change u.freeCredits 1 < _
    omega
  have ended := shared_id_round plainConfig 1 v.blockNumber same (fun sub mem => (both sub mem).1)
    (fun sub mem => (both sub mem).2) (market ▸ fine) (Nat.zero_le _) little
  dsimp only
  rw [rowsLater,rowsTwo]
  exact ⟨rfl,fun sub mem => (both sub mem).1,ended.2,ended.1⟩

def renting : List (Call Nat Nat (Nat → Nat)) :=
  [ .usage (.market (.addAuthority .root 5)),deposit 5 2 8,.addNewPlan .root [0,0,0] 8 false false,purchase 5 2 3]

def rented : State Nat Nat (Nat → Nat) := run (step plainConfig) unsold renting

def rental : UserPlanSubscription Nat Nat := ⟨0,2,⟨3,false,8,false,false⟩,none,true,0,none,some 32,8⟩

theorem rented_rows : subscriptionsOf rented 2 = [rental] := by decide +kernel

def renewing : List (Call Nat Nat (Nat → Nat)) := [deposit 5 2 20,forty,.nextBlock]

theorem cycles_charged_once_rented :
    (run (step plainConfig) rented renewing).renewals = [⟨2,0,some 32,8,41⟩] ∧
      ∃ n log, (run (step plainConfig) rented renewing).renewals = rented.renewals ++ log ∧
        (log.filter fun entry => entry.who = 2 ∧ entry.subscriptionId = rental.id).map (fun entry => entry.dueDay) =
          (List.range n).map (cycleDay rented rental) := by
  obtain ⟨_,history,_⟩ := cycles_charged_once plainConfig unsold rented (run (step plainConfig) rented renewing)
    unsold_numbered (run_hops renting) (run_hops renewing) (by decide +kernel)
  obtain ⟨n,log,renewals,days,_⟩ := history 2 rental (by rw [rented_rows]; exact mem_cons_self) rfl
  exact ⟨by decide +kernel,n,log,renewals,days⟩

end TheBrain.Marketplace.Subscriptions
