import TheBrain.ComputeScoring.Families

namespace TheBrain.ComputeScoring
open Library Machine Words Function List StorageMap

section
variable {A H W : Type} [DecidableEq A]
variable {cfg : Config A H W} {s t : State A H W} {reserved : W → ReserveId → A → Nat}

structure Taken (reserved : W → ReserveId → A → Nat) (reserve : ReserveId) (who : A) (amount : Nat) (before : W)
    (outcome : W × Nat) : Prop where
  rest : outcome.2 ≤ amount
  moved : ∀ id a, reserved outcome.1 id a + (if id = reserve ∧ a = who then amount - outcome.2 else 0) = reserved before id a

-- What the currency promises: balances are u128, a reserve moves exactly the amount, a release
-- as much of it as is there, a slash and a repatriation what they say. Rankings move no reserve.
structure NamedReserving (cfg : Config A H W) (reserved : W → ReserveId → A → Nat) : Prop where
  balance : ∀ world id a, reserved world id a < 2 ^ 128
  reserve : ∀ world id who amount next, cfg.reserveNamed world id who amount = some next →
    ∀ i a, reserved next i a = reserved world i a + if i = id ∧ a = who then amount else 0
  unreserve : ∀ world id who amount, Taken reserved id who amount world (cfg.unreserveNamed world id who amount)
  released : ∀ world id who amount, (cfg.unreserveNamed world id who amount).2 = amount - reserved world id who
  slash : ∀ world id who amount, Taken reserved id who amount world (cfg.slashReservedNamed world id who amount)
  repatriate : ∀ world id who heir amount outcome, cfg.repatriateReservedNamed world id who heir amount = some outcome →
    Taken reserved id who amount world outcome
  rankings : ∀ world epoch weights id a, reserved (cfg.pushRankings world epoch weights) id a = reserved world id a

def depositFor (family : A) (_ : A) (reg : ChildRegistration A H) : Nat :=
  if family = reg.family then reg.deposit else 0

def Roster.deposits (r : Roster A H) (family : A) : Nat := StorageMap.total (depositFor family) r.registrations

def Ledger.holds (l : Ledger A) (a : A) : Nat := l.staked a + (l.unbonding a).elim 0 Prod.fst

structure Backed (reserved : W → ReserveId → A → Nat) (s : State A H W) : Prop where
  stake : ∀ a, reserved s.world .stake a = (ledgerOf s.stakes).holds a
  deposit : ∀ a, reserved s.world .deposit a = (rosterOf s.registry).deposits a

theorem Backed.unmoved (backed : Backed reserved s) (roster : rosterOf t.registry = rosterOf s.registry)
    (ledger : ledgerOf t.stakes = ledgerOf s.stakes) (outside : ∀ id a, reserved t.world id a = reserved s.world id a) :
    Backed reserved t where
  stake a := by rw [outside,ledger,backed.stake]
  deposit a := by rw [outside,roster,backed.deposit]

theorem registers_backed [DecidableEq H] (laws : NamedReserving cfg reserved) (backed : Backed reserved s)
    (change : Registers cfg family child nodeId deposit s t) : Backed reserved t := by
  have moved : ∀ id a, reserved t.world id a = reserved s.world id a + if id = .deposit ∧ a = family then deposit else 0 := by
    intro id a
    rcases change.reserves with ⟨free,same⟩ | taken
    · rw [same,free,ite_self,Nat.add_zero]
    · exact laws.reserve _ _ _ _ _ taken id a
  constructor
  case stake =>
    intro a
    rw [moved,if_neg (fun both => nomatch both.1),Nat.add_zero,change.ledger,backed.stake]
  case deposit =>
    intro a
    obtain ⟨block,roster⟩ := change.roster
    have recorded := total_create (v := ⟨family,nodeId,.active,deposit,block⟩) (depositFor a) _ change.fresh
    rw [moved,roster,backed.deposit]
    dsimp only [Roster.deposits,Roster.join,rosterOf]
    rw [recorded,depositFor]
    simp only [true_and]

theorem retires_backed [DecidableEq H] (backed : Backed reserved s) (change : Retires child reg s t) : Backed reserved t := by
  constructor
  case stake =>
    intro a
    rw [change.world,change.ledger,backed.stake]
  case deposit =>
    intro a
    obtain ⟨unbondingEnd,roster⟩ := change.roster
    have recorded := total_replace (v := {reg with status:=.unbonding,unbondingEnd:=unbondingEnd}) (depositFor a) _
      change.found
    rw [change.world,roster,backed.deposit]
    dsimp only [Roster.deposits,Roster.leave,rosterOf]
    dsimp only [depositFor] at recorded ⊢
    omega

section
variable (laws : NamedReserving cfg reserved)
include laws

theorem claims_backed (backed : Backed reserved s) (change : Claims cfg child reg s t) :
    Backed reserved t := by
  have moved : ∀ id a, reserved t.world id a + (if id = .deposit ∧ a = reg.family then reg.deposit else 0) =
      reserved s.world id a := by
    intro id a
    rcases change.releases with ⟨free,same⟩ | given
    · rw [same,free,ite_self,Nat.add_zero]
    · have taken := (laws.unreserve s.world .deposit reg.family reg.deposit).moved id a
      rwa [given] at taken
  constructor
  case stake =>
    intro a
    have still := moved .stake a
    rw [if_neg (fun both => nomatch both.1),Nat.add_zero] at still
    rw [still,change.ledger,backed.stake]
  case deposit =>
    intro a
    have still := moved .deposit a
    have recorded := total_erase (depositFor a) _ change.found
    have before := backed.deposit a
    rw [change.roster]
    dsimp only [Roster.deposits,rosterOf] at before ⊢
    simp only [true_and] at still
    dsimp only [depositFor] at recorded before ⊢
    omega

theorem topsUp_backed (backed : Backed reserved s) (change : TopsUp cfg who amount s t) :
    Backed reserved t := by
  have moved := laws.reserve _ _ _ _ _ change.reserves
  have fits := laws.balance t.world .stake who
  rw [moved,if_pos ⟨rfl,rfl⟩,backed.stake,Ledger.holds] at fits
  have unsaturated : saturatingAdd 128 (s.stakes.stakedAmount who) amount = s.stakes.stakedAmount who + amount := by
    refine saturatingAdd_exact ?_
    dsimp only [ledgerOf] at fits
    omega
  constructor
  case stake =>
    intro a
    have before := backed.stake a
    rw [moved,change.ledger,unsaturated]
    dsimp only [Ledger.holds,ledgerOf] at before ⊢
    rw [update_apply]
    simp only [true_and]
    split
    next own =>
      rw [own] at before ⊢
      omega
    · exact before
  case deposit =>
    intro a
    rw [moved,if_neg (fun both => nomatch both.1),Nat.add_zero,change.roster,backed.deposit]

theorem unstakes_backed (backed : Backed reserved s) (change : Unstakes who amount s t) :
    Backed reserved t := by
  obtain ⟨_,ledger⟩ := change.ledger
  have fits := laws.balance s.world .stake who
  have covered := change.covered
  have unsaturated : saturatingAdd 128 (unbondingOf s who) amount = unbondingOf s who + amount := by
    refine saturatingAdd_exact ?_
    rw [backed.stake,Ledger.holds] at fits
    dsimp only [ledgerOf] at fits
    unfold unbondingOf
    omega
  constructor
  case stake =>
    intro a
    have before := backed.stake a
    rw [change.world,ledger,unsaturated]
    dsimp only [Ledger.holds,ledgerOf] at before ⊢
    rw [update_apply,update_apply]
    split
    next own =>
      rw [own] at before ⊢
      dsimp only [Option.elim]
      unfold unbondingOf
      omega
    · exact before
  case deposit =>
    intro a
    rw [change.world,change.roster,backed.deposit]

theorem withdraws_backed (backed : Backed reserved s)
    (change : Withdraws cfg who chunk s t) : Backed reserved t := by
  have moved := (laws.unreserve s.world .stake who chunk.1).moved
  rw [change.releases] at moved
  dsimp only [Nat.sub_zero] at moved
  constructor
  case stake =>
    intro a
    have taken := moved .stake a
    have before := backed.stake a
    rw [change.ledger]
    dsimp only [Ledger.holds,ledgerOf] at before ⊢
    rw [update_apply]
    split
    next own =>
      rw [if_pos ⟨rfl,own⟩] at taken
      rw [own] at taken before ⊢
      rw [change.found] at before
      dsimp only [Option.elim] at before ⊢
      omega
    next other =>
      rw [if_neg (fun both => other both.2)] at taken
      omega
  case deposit =>
    intro a
    have still := moved .deposit a
    rw [if_neg (fun both => nomatch both.1),Nat.add_zero] at still
    rw [still,change.roster,backed.deposit]

theorem takeStake_taken (s : State A H W) (owner : A) (amount : Nat) :
    (takeStake cfg s owner amount).2 ≤ amount ∧ ∀ id a, reserved (takeStake cfg s owner amount).1 id a +
      (if id = .stake ∧ a = owner then (takeStake cfg s owner amount).2 else 0) = reserved s.world id a := by
  unfold takeStake
  split
  next beneficiary _ =>
    have repatriated : Taken reserved .stake owner amount s.world
        ((cfg.repatriateReservedNamed s.world .stake owner beneficiary amount).getD (s.world,amount)) := by
      cases outcome : cfg.repatriateReservedNamed s.world .stake owner beneficiary amount with
      | none =>
        refine ⟨le_rfl,?_⟩
        intro id a
        dsimp only [Option.getD]
        rw [Nat.sub_self,ite_self,Nat.add_zero]
      | some => exact laws.repatriate _ _ _ _ _ _ outcome
    dsimp only
    generalize (cfg.repatriateReservedNamed s.world .stake owner beneficiary amount).getD (s.world,amount) = first at repatriated
    have burned := laws.slash first.1 .stake owner first.2
    generalize cfg.slashReservedNamed first.1 .stake owner first.2 = second at burned
    have start := repatriated.rest
    have rest := burned.rest
    have fits := laws.balance s.world .stake owner
    have taken : saturatingAdd 128 (amount - first.2) (first.2 - second.2) = amount - second.2 := by
      have one := repatriated.moved .stake owner
      have two := burned.moved .stake owner
      rw [if_pos ⟨rfl,rfl⟩] at one two
      rw [saturatingAdd_exact (by omega)]
      omega
    rw [taken]
    refine ⟨Nat.sub_le _ _,?_⟩
    intro id a
    have one := repatriated.moved id a
    have two := burned.moved id a
    split
    next own =>
      rw [if_pos own] at one two
      omega
    next other =>
      rw [if_neg other] at one two
      omega
  · have burned := laws.slash s.world .stake owner amount
    exact ⟨Nat.sub_le _ _,burned.moved⟩

end

theorem slashedChunk_fst (chunk : Option (Nat × Nat)) (fromUnbond : Nat) :
    (slashedChunk chunk fromUnbond).elim 0 Prod.fst = chunk.elim 0 Prod.fst - fromUnbond := by
  unfold slashedChunk
  split
  · next none => rw [none,Nat.sub_zero]
  · cases chunk with
    | none => exact (Nat.zero_sub _).symm
    | some chunk =>
      rw [Option.bind_some]
      by_cases gone : chunk.1 - fromUnbond = 0
      · rw [if_pos gone]
        exact gone.symm
      · rw [if_neg gone]
        rfl

theorem slash_holds (l : Ledger A) (owner : A) (slashed : Nat) (bounded : slashed ≤ l.holds owner) (a : A) :
    (l.slash owner slashed).holds a + (if a = owner then slashed else 0) = l.holds a := by
  unfold Ledger.holds at bounded ⊢
  dsimp only [Ledger.slash]
  rw [update_apply,update_apply]
  split
  next own =>
    rw [own,slashedChunk_fst]
    omega
  · rfl

theorem slashes_deposits (laws : NamedReserving cfg reserved) (change : Slashes cfg owner amount s t) (a : A) :
    reserved t.world .deposit a = reserved s.world .deposit a := by
  have still := (takeStake_taken laws s owner amount).2 .deposit a
  rwa [← change.world] at still

theorem slashes_backed (laws : NamedReserving cfg reserved) (backed : Backed reserved s) (change : Slashes cfg owner amount s t) :
    Backed reserved t := by
  obtain ⟨most,moved⟩ := takeStake_taken laws s owner amount
  rw [← change.world] at moved
  have bounded : amount ≤ (ledgerOf s.stakes).holds owner := change.bounded.trans saturatingAdd_le
  have ledger := change.ledger
  generalize (takeStake cfg s owner amount).2 = slashed at most moved ledger
  have holds : ∀ a, (ledgerOf t.stakes).holds a + (if a = owner then slashed else 0) = (ledgerOf s.stakes).holds a := by
    intro a
    rcases ledger with ⟨nothing,same⟩ | taken
    · rw [same,nothing,ite_self,Nat.add_zero]
    · rw [taken]
      exact slash_holds _ owner slashed (most.trans bounded) a
  constructor
  case stake =>
    intro a
    have outside := moved .stake a
    have mem := holds a
    have before := backed.stake a
    simp only [true_and] at outside
    omega
  case deposit =>
    intro a
    rw [slashes_deposits laws change,change.roster,backed.deposit]

section
variable [DecidableEq H]

def Undisturbed (reserved : W → ReserveId → A → Nat) (s : State A H W) (call : Call A H W) :
    Prop := ∀ world, call = .elsewhere world → ∀ id a, reserved world id a = reserved s.world id a

theorem change_backed (laws : NamedReserving cfg reserved) (backed : Backed reserved s) (undisturbed : Undisturbed reserved s call)
    (change : Change cfg s call t) : Backed reserved t := by
  cases change with
  | registers change => exact registers_backed laws backed change
  | retires change | forces change => exact retires_backed backed change
  | claims change => exact claims_backed laws backed change
  | topsUp change => exact topsUp_backed laws backed change
  | unstakes change => exact unstakes_backed laws backed change
  | withdraws change => exact withdraws_backed laws backed change
  | slashes change => exact slashes_backed laws backed change
  | closes change =>
    refine backed.unmoved change.roster change.ledger ?_
    intro id a
    obtain ⟨_,_,world⟩ := change.rankings
    rw [world]
    exact laws.rankings _ _ _ _ _
  | outside world => exact backed.unmoved rfl rfl (undisturbed world rfl)
  | aside _ same =>
    refine backed.unmoved same.roster same.ledger ?_
    intro id a
    rw [same.world]

theorem step_backed (laws : NamedReserving cfg reserved) (call : Call A H W) (backed : Backed reserved s)
    (undisturbed : Undisturbed reserved s call) : Backed reserved (step cfg s call) :=
  commit_inv (Backed reserved) backed fun _ ran => change_backed laws backed undisturbed (dispatch_change call ran)

def slashMoves (reserved : W → ReserveId → A → Nat) (cfg : Config A H W) (s : State A H W) :
    Call A H W → List (A × Nat)
  | .slashStake origin owner amount reason =>
    [(owner,reserved s.world .stake owner - reserved (step cfg s (.slashStake origin owner amount reason)).world .stake owner)]
  | _ => []

def slashedTotal (log : List (A × Nat)) (a : A) : Nat := (log.map fun entry => if a = entry.1 then entry.2 else 0).sum

end

theorem slashedTotal_append (one two : List (A × Nat)) (a : A) :
    slashedTotal (one ++ two) a = slashedTotal one a + slashedTotal two a := by
  unfold slashedTotal
  rw [map_append,sum_append]

def Records (reserved : W → ReserveId → A → Nat) (owner : A) (s t : State A H W) : Prop :=
  ∀ a, t.stakes.slashRecord a = saturatingAdd 128 (s.stakes.slashRecord a)
    (if a = owner then reserved s.world .stake owner - reserved t.world .stake owner else 0)

theorem unmoved_records (owner : A) (bounded : ∀ a, s.stakes.slashRecord a ≤ maxOf 128) (same : Unmoved s t) :
    Records reserved owner s t := by
  intro a
  have record : t.stakes.slashRecord = s.stakes.slashRecord := congrArg Ledger.slashed same.ledger
  rw [record,same.world,Nat.sub_self,ite_self]
  exact (Nat.min_eq_left (bounded a)).symm

theorem slashes_records (laws : NamedReserving cfg reserved) (bounded : ∀ a, s.stakes.slashRecord a ≤ maxOf 128)
    (change : Slashes cfg owner amount s t) : Records reserved owner s t := by
  intro a
  have taken := (takeStake_taken laws s owner amount).2 .stake owner
  rw [if_pos ⟨rfl,rfl⟩,← change.world] at taken
  have gone : reserved s.world .stake owner - reserved t.world .stake owner = (takeStake cfg s owner amount).2 := by omega
  rw [gone]
  rcases change.ledger with ⟨nothing,same⟩ | slashed
  · have record : t.stakes.slashRecord = s.stakes.slashRecord := congrArg Ledger.slashed same
    rw [record,nothing,ite_self]
    exact (Nat.min_eq_left (bounded a)).symm
  · have record : t.stakes.slashRecord = _ := congrArg Ledger.slashed slashed
    rw [record]
    dsimp only [Ledger.slash,ledgerOf]
    rw [update_apply]
    split
    · next own => rw [own]
    · exact (Nat.min_eq_left (bounded a)).symm

section
variable [DecidableEq H]

theorem slashStake_records (laws : NamedReserving cfg reserved) (origin : Origin A) (owner : A) (amount : Word 128)
    (reason : SlashReason) (bounded : ∀ a, s.stakes.slashRecord a ≤ maxOf 128) :
    Records reserved owner s (step cfg s (.slashStake origin owner amount reason)) := by
  refine commit_inv (Records reserved owner s) (unmoved_records owner bounded ⟨rfl,rfl,rfl⟩) ?_
  intro t ran
  have change := dispatch_change _ ran
  cases change with
  | aside _ same => exact unmoved_records owner bounded same
  | slashes change => exact slashes_records laws bounded change

theorem change_record (change : Change cfg s call t) (other : ∀ origin owner amount reason, call ≠ .slashStake origin owner amount reason) :
    t.stakes.slashRecord = s.stakes.slashRecord := by
  cases change with
  | registers change | retires change | forces change | claims change | topsUp change | withdraws change
  | closes change => exact congrArg Ledger.slashed change.ledger
  | unstakes change =>
    obtain ⟨_,ledger⟩ := change.ledger
    exact congrArg Ledger.slashed ledger
  | slashes => exact absurd rfl (other _ _ _ _)
  | outside => rfl
  | aside _ same => exact congrArg Ledger.slashed same.ledger

def Recorded (p : State A H W × List (A × Nat)) : Prop :=
  ∀ a, p.1.stakes.slashRecord a = min (slashedTotal p.2 a) (maxOf 128)

theorem recording_recorded (laws : NamedReserving cfg reserved) (p : State A H W × List (A × Nat))
    (call : Call A H W) (recorded : Recorded p) :
    Recorded (recording (step cfg) (slashMoves reserved cfg) p call) := by
  intro a
  have before := recorded a
  dsimp only [recording]
  rw [slashedTotal_append]
  by_cases slash : ∃ origin owner amount reason, call = .slashStake origin owner amount reason
  · obtain ⟨origin,owner,amount,reason,rfl⟩ := slash
    have grows := slashStake_records laws origin owner amount reason (fun a => recorded a ▸ Nat.min_le_right _ _) a
    rw [grows,before]
    simp only [slashedTotal,slashMoves,map_cons,map_nil,sum_cons,sum_nil,Nat.add_zero,saturatingAdd]
    omega
  · have silent : slashMoves reserved cfg p.1 call = [] := by
      unfold slashMoves
      split
      · exact absurd ⟨_,_,_,_,rfl⟩ slash
      · rfl
    have same : (step cfg p.1 call).stakes.slashRecord = p.1.stakes.slashRecord :=
      commit_inv (fun t : State A H W => t.stakes.slashRecord = p.1.stakes.slashRecord) rfl fun t ran =>
        change_record (dispatch_change call ran) fun origin owner amount reason own => slash ⟨origin,owner,amount,reason,own⟩
    rw [silent,same,before]
    rfl

end

theorem deposit_le (found : s.registry.childRegistrations.lookup child = some reg) :
    reg.deposit ≤ (rosterOf s.registry).deposits reg.family := by
  have mem := StorageMap.le_total (depositFor reg.family) _ found
  rwa [depositFor,if_pos rfl] at mem

section
variable (laws : NamedReserving cfg reserved)
include laws

theorem claimUnbonded_whole (backed : Backed reserved s) (origin : Origin A)
    (child : A) : claimUnbonded cfg s origin child ≠ .error .partialUnreserve := by
  intro failed
  simp only [claimUnbonded,bind_error,okOr_error,okOr_ok,ensure_error,ensure_ok,exists_unit,reduceCtorEq,and_false,false_or,
    or_false,exists_false] at failed
  obtain ⟨_,_,reg,found,_,_,_,short⟩ := failed
  have whole : (cfg.unreserveNamed s.world .deposit reg.family reg.deposit).2 = 0 := by
    rw [laws.released,backed.deposit]
    exact Nat.sub_eq_zero_of_le (deposit_le found)
  unfold releaseDeposit at short
  split at short
  · cases short
  · rw [if_pos whole] at short
    cases short

theorem claimUnstaked_whole (backed : Backed reserved s) (origin : Origin A) :
    claimUnstaked cfg s origin ≠ .error .partialUnreserve := by
  intro failed
  simp only [claimUnstaked,bind_error,okOr_error,okOr_ok,ensure_error,exists_unit,reduceCtorEq,and_false,false_or,
    or_false,and_true] at failed
  obtain ⟨_,_,_,found,_,short⟩ := failed
  refine short ?_
  rw [laws.released,backed.stake]
  refine Nat.sub_eq_zero_of_le ?_
  unfold Ledger.holds
  dsimp only [ledgerOf]
  rw [found]
  exact Nat.le_add_left _ _

theorem slashStake_deposits [DecidableEq H] (s : State A H W) (origin : Origin A)
    (owner : A) (amount : Word 128) (reason : SlashReason) (a : A) :
    reserved (step cfg s (.slashStake origin owner amount reason)).world .deposit a = reserved s.world .deposit a := by
  refine commit_inv (fun t : State A H W => reserved t.world .deposit a = reserved s.world .deposit a) rfl ?_
  intro t ran
  have change := dispatch_change _ ran
  cases change with
  | aside _ same => rw [same.world]
  | slashes change => exact slashes_deposits laws change a

end

theorem collateral_reserved [DecidableEq H] (cfg : Config A H W) (reserved : W → ReserveId → A → Nat)
    (laws : NamedReserving cfg reserved) (world : W) (unreserved : ∀ id a, reserved world id a = 0)
    (calls : List (Call A H W)) (undisturbed : Throughout (step cfg) (Undisturbed reserved) (genesis world) calls) :
    let p := run (recording (step cfg) (slashMoves reserved cfg)) (genesis world,[]) calls
    p.1 = run (step cfg) (genesis world) calls ∧
    (∀ a, reserved p.1.world .stake a = p.1.stakes.stakedAmount a + unbondingOf p.1 a) ∧
    (∀ a, reserved p.1.world .deposit a = total (depositFor a) p.1.registry.childRegistrations) ∧
    (∀ a, p.1.stakes.slashRecord a = min (slashedTotal p.2 a) (maxOf 128)) ∧
    (∀ origin owner amount reason a, reserved (step cfg p.1 (.slashStake origin owner amount reason)).world .deposit a =
      reserved p.1.world .deposit a) ∧
    (∀ origin child, dispatch cfg p.1 (.claimUnbonded origin child) ≠ .error .partialUnreserve) ∧
    ∀ origin, dispatch cfg p.1 (.claimUnstaked origin) ≠ .error .partialUnreserve := by
  intro p
  have same : p.1 = run (step cfg) (genesis world) calls := run_recording_fst _ _ _ calls
  have backed : Backed reserved p.1 := by
    rw [same]
    exact run_invariant (Backed reserved) (fun _ call => step_backed laws call) ⟨unreserved .stake,unreserved .deposit⟩ undisturbed
  have recorded : Recorded p := run_always Recorded (recording_recorded laws) fun _ => rfl
  exact ⟨same,backed.stake,backed.deposit,recorded,slashStake_deposits laws p.1,claimUnbonded_whole laws backed,
    claimUnstaked_whole laws backed⟩

end

structure Vault where
  free : Nat → Nat
  held : ReserveId → Nat → Word 128

def Vault.heldBy (vault : Vault) (id : ReserveId) (a : Nat) : Nat := vault.held id a

def Vault.hold (vault : Vault) (id : ReserveId) (who : Nat) (amount : Word 128) : Vault :=
  {vault with held:=fun i => if i = id then update (vault.held i) who amount else vault.held i}

def Vault.credit (vault : Vault) (who amount : Nat) : Vault :=
  {vault with free:=update vault.free who (vault.free who + amount)}

def Vault.take (vault : Vault) (id : ReserveId) (who : Nat) (heir : Option Nat) (amount : Nat) : Vault × Nat :=
  let taken := min amount (vault.held id who)
  let left := vault.hold id who (subSaturating (vault.held id who) taken)
  (heir.elim left fun heir => left.credit heir taken,amount - taken)

def Vault.reserve (vault : Vault) (id : ReserveId) (who amount : Nat) : Option Vault :=
  if amount ≤ vault.free who ∧ vault.held id who + amount < 2 ^ 128 then
    some ({vault with free:=update vault.free who (vault.free who - amount)}.hold id who
      (addSaturating (vault.held id who) amount))
  else none

def vaultConfig : Config Nat Short Vault :=
  {plainConfig with
    isRegisteredFamily:=fun _ _ => true
    ownerHasValidatorNode:=fun _ _ => true
    canRegisterChild:=fun _ _ _ => true
    isNodeRegistered:=fun _ _ => true
    pushRankings:=fun vault _ _ => vault
    reserveNamed:=Vault.reserve
    unreserveNamed:=fun vault id who amount => vault.take id who (some who) amount
    slashReservedNamed:=fun vault id who amount => vault.take id who none amount
    repatriateReservedNamed:=fun vault id who heir amount => some (vault.take id who (some heir) amount)}

theorem hold_heldBy (vault : Vault) (id i : ReserveId) (who a : Nat) (amount : Word 128) :
    (vault.hold id who amount).heldBy i a = if i = id ∧ a = who then amount.val else vault.heldBy i a := by
  unfold Vault.heldBy Vault.hold
  dsimp only
  by_cases same : i = id
  · rw [if_pos same,update_apply]
    by_cases own : a = who
    · rw [if_pos own,if_pos ⟨same,own⟩]
    · rw [if_neg own,if_neg fun both => own both.2]
  · rw [if_neg same,if_neg fun both => same both.1]

theorem take_taken (vault : Vault) (id : ReserveId) (who : Nat) (heir : Option Nat) (amount : Nat) :
    Taken Vault.heldBy id who amount vault (vault.take id who heir amount) := by
  refine ⟨Nat.sub_le _ _,?_⟩
  intro i a
  have left : (vault.take id who heir amount).1.heldBy i a =
      (vault.hold id who (subSaturating (vault.held id who) (min amount (vault.held id who)))).heldBy i a := by
    cases heir with
    | none | some => rfl
  have rest : (vault.take id who heir amount).2 = amount - min amount (vault.held id who) := rfl
  rw [left,hold_heldBy]
  split
  next own =>
    rw [own.1,own.2,subSaturating_val]
    unfold Vault.heldBy
    omega
  · rfl

theorem vaultConfig_reserving : NamedReserving vaultConfig Vault.heldBy where
  balance vault id a := (vault.held id a).isLt
  reserve := by
    intro vault id who amount next taken i a
    change vault.reserve id who amount = some next at taken
    unfold Vault.reserve at taken
    split at taken
    next fits =>
      cases taken
      rw [hold_heldBy]
      split
      next own =>
        rw [own.1,own.2,addSaturating_val,saturatingAdd_exact fits.2]
        rfl
      · rfl
    · cases taken
  unreserve vault id who amount := take_taken vault id who (some who) amount
  released vault id who amount := by
    change amount - min amount (vault.held id who).val = amount - (vault.held id who).val
    omega
  slash vault id who amount := take_taken vault id who none amount
  repatriate vault id who heir amount outcome given := by
    cases given
    exact take_taken vault id who (some heir) amount
  rankings _ _ _ _ _ := rfl

def half : Word 128 := ⟨2 ^ 128 / 2,by decide⟩

def halfFree : Vault := ⟨fun _ => half,fun _ _ => 0⟩

-- The owner is also the beneficiary, and stakes again what a slash gave back.
def slashedAgain : List (Call Nat Short Vault) :=
  [.setSlashingEnabled .root true,.setSlashBeneficiary .root (some 1),
   .topUpStake (.signed 1) half,.slashStake .root 1 half .manual,.topUpStake (.signed 1) half,.slashStake .root 1 half .manual,
   .topUpStake (.signed 1) half,.slashStake .root 1 half .manual]

theorem slashRecord_saturates :
    let p := run (recording (step vaultConfig) (slashMoves Vault.heldBy vaultConfig)) (genesis halfFree,[]) slashedAgain
    NamedReserving vaultConfig Vault.heldBy ∧ Throughout (step vaultConfig) (Undisturbed Vault.heldBy) (genesis halfFree) slashedAgain ∧
      slashedTotal p.2 1 = 3 * 2 ^ 127 ∧ p.1.stakes.slashRecord 1 = 2 ^ 128 - 1 := by
  refine ⟨vaultConfig_reserving,?_,by decide +kernel,by decide +kernel⟩
  refine throughout_of_mem _ _ ?_
  intro call mem s world own
  subst own
  simp [slashedAgain] at mem

def slashedUnbonding : List (Call Nat Short Vault) :=
  [.setLockupEnabled .root true,.registerChild (.signed 1) 1 11 (shorten [5]) [],.registerChild (.signed 1) 1 12 (shorten [6]) [],
   .topUpStake (.signed 1) 100,.requestUnstake (.signed 1) 50,.setSlashingEnabled .root true,.slashStake .root 1 70 .sla]

theorem collateral_reserved_slashed :
    let p := run (recording (step vaultConfig) (slashMoves Vault.heldBy vaultConfig)) (genesis halfFree,[]) slashedUnbonding
    unbondingOf p.1 1 = 30 ∧ p.1.stakes.slashRecord 1 = 70 ∧ p.1.world.heldBy .deposit 1 = 10 ∧
      p.1.world.heldBy .stake 1 = p.1.stakes.stakedAmount 1 + unbondingOf p.1 1 := by
  refine ⟨by decide +kernel,by decide +kernel,by decide +kernel,?_⟩
  refine (collateral_reserved vaultConfig Vault.heldBy vaultConfig_reserving halfFree (fun _ _ => rfl) slashedUnbonding ?_).2.1 1
  refine throughout_of_mem _ _ ?_
  intro call mem s world own
  subst own
  simp [slashedUnbonding] at mem

section
variable {A H W : Type}
variable {cfg : Config A H W} {s t : State A H W}

variable [DecidableEq A]

variable [DecidableEq H]

end

end TheBrain.ComputeScoring
