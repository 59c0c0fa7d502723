import TheBrain.Registration.Challenges

namespace TheBrain.Registration
open Library Machine Words List StorageMap

-- A report against a node, by the account and on behalf of the validator node it has, with
-- what is registered under that node at the time.
structure Vote (A : Type) where
  account : A
  validator : Bytes
  row : Option (ColdkeyNodeInfoLite A)
  target : Bytes
  block : Nat

section
variable {A H W : Type}
variable {cfg : Config A H W} {s t : State A H W}

def OwnRows (s : State A H W) : Prop :=
  ∀ nodeId info, s.coldkeyNodeRegistrationV2.lookup nodeId = some info → info.nodeId = nodeId

theorem OwnRows.thinned (own : OwnRows s) (thinned : Thinned s t) : OwnRows t := by
  intro nodeId info found
  obtain ⟨old,held,same,_⟩ := thinned nodeId info found
  exact same.trans (own nodeId old held)

theorem OwnRows.insert (own : OwnRows s) (named : info.nodeId = nodeId)
    (rows : t.coldkeyNodeRegistrationV2 = s.coldkeyNodeRegistrationV2.insert nodeId info) : OwnRows t := by
  intro other row found
  rw [rows] at found
  rcases insert_cases found with ⟨rfl,rfl⟩ | ⟨_,found⟩
  · exact named
  · exact own other row found

theorem getRegisteredNodeForOwner_stored (own : OwnRows s) (registered : getRegisteredNodeForOwner s owner = some info) :
    s.coldkeyNodeRegistrationV2.lookup info.nodeId = some info := by
  obtain ⟨_,_,listed⟩ := Option.bind_eq_some_iff.mp registered
  obtain ⟨nodeId,_,filtered⟩ := List.exists_of_findSome?_eq_some listed
  have stored := (Option.filter_eq_some_iff.mp filtered).1
  rw [own nodeId info stored]
  exact stored

variable [DecidableEq A]

def castBy (cfg : Config A H W) (s : State A H W) (who : A) (nodeIds : List Bytes) : List (Vote A) :=
  let account := resolveDeregistrationReporter cfg s who
  match getRegisteredNodeForOwner s account with
  | some info => nodeIds.map fun target =>
    ⟨account,info.nodeId,s.coldkeyNodeRegistrationV2.lookup info.nodeId,target,s.blockNumber⟩
  | none => []

theorem castBy_reports (change : Reports (resolveDeregistrationReporter cfg s who) info nodeIds s t) :
    castBy cfg s who nodeIds = nodeIds.map fun target =>
      ⟨resolveDeregistrationReporter cfg s who,info.nodeId,s.coldkeyNodeRegistrationV2.lookup info.nodeId,target,s.blockNumber⟩ := by
  unfold castBy
  dsimp only
  rw [change.registered]

-- Reports are collected from one clearing to the next; windows are counted by clearings.
def windowOf (cfg : Config A H W) : Nat → Nat
  | 0 => 0
  | block + 1 => windowOf cfg block + (if clearsReports cfg (block + 1) = true then 1 else 0)

def Filed (cfg : Config A H W) (s : State A H W) (log : List (Vote A)) : Prop :=
  ∀ account reports, s.temporaryDeregistrationReports.lookup account = some reports → ∀ report ∈ reports,
    ∃ vote ∈ log, vote.account = account ∧ vote.target = report.nodeId ∧ windowOf cfg vote.block = windowOf cfg s.blockNumber

theorem Filed.still (filed : Filed cfg s log) (reports : t.temporaryDeregistrationReports = s.temporaryDeregistrationReports)
    (window : windowOf cfg t.blockNumber = windowOf cfg s.blockNumber) : Filed cfg t log := by
  unfold Filed
  rw [reports,window]
  exact filed

theorem Filed.block (filed : Filed cfg s log) (change : Block cfg s t) : Filed cfg t log := by
  have reports := change.reports
  by_cases clears : clearsReports cfg (s.blockNumber + 1) = true
  · rw [if_pos clears] at reports
    intro account listed stored
    rw [reports] at stored
    cases stored
  · rw [if_neg clears] at reports
    refine filed.still reports ?_
    rw [change.block,windowOf,if_neg clears,Nat.add_zero]

structure Polled (cfg : Config A H W) (p : State A H W × List (Vote A)) : Prop where
  own : OwnRows p.1
  filed : Filed cfg p.1 p.2
  single : ∀ one ∈ p.2, ∀ two ∈ p.2, one.validator = two.validator → windowOf cfg one.block = windowOf cfg two.block →
    one.account = two.account
  validators : ∀ vote ∈ p.2, ∃ info, vote.row = some info ∧ info.nodeId = vote.validator ∧ info.nodeType = .validator

theorem polled_start (world : W) : Polled cfg (genesis world,[]) where
  own := nofun
  filed := nofun
  single := nofun
  validators := nofun

theorem Filed.later (filed : Filed cfg s log) (more : List (Vote A)) : Filed cfg s (log ++ more) := by
  intro account reports stored report mem
  obtain ⟨vote,cast,facts⟩ := filed account reports stored report mem
  exact ⟨vote,mem_append_left more cast,facts⟩

theorem Filed.reports (filed : Filed cfg s log) (change : Reports (resolveDeregistrationReporter cfg s who) info nodeIds s t) :
    Filed cfg t (log ++ castBy cfg s who nodeIds) := by
  intro account listed stored report mem
  rw [change.reports,lookup_insert_if] at stored
  rw [change.block]
  split at stored
  next same =>
    cases stored
    rcases mem_append.mp mem with before | new
    · cases held : s.temporaryDeregistrationReports.lookup (resolveDeregistrationReporter cfg s who) with
      | none =>
        rw [held] at before
        cases before
      | some earlier =>
        rw [held] at before
        subst same
        exact filed.later _ _ earlier held report before
    · obtain ⟨target,named,rfl⟩ := mem_map.mp new
      rw [castBy_reports change]
      exact ⟨_,mem_append_right log (mem_map.mpr ⟨target,named,rfl⟩),same.symm,rfl,rfl⟩
  · exact filed.later _ account listed stored report mem

theorem Filed.counted (filed : Filed cfg s log)
    (counted : account ∈ reportersOf (s.temporaryDeregistrationReports.iter cfg.accountRank) nodeId) :
    ∃ vote ∈ log, vote.account = account ∧ vote.target = nodeId ∧ windowOf cfg vote.block = windowOf cfg s.blockNumber := by
  obtain ⟨⟨owner,reports⟩,stored,named⟩ := mem_flatMap.mp counted
  obtain ⟨report,matching,rfl⟩ := mem_map.mp named
  obtain ⟨mem,against⟩ := mem_filter.mp matching
  rw [← of_decide_eq_true against]
  exact filed owner reports ((mem_iter cfg.accountRank _).mp stored) report mem

variable [DecidableEq H]

def votesCast (cfg : Config A H W) (s : State A H W) (call : Call A W) : List (Vote A) :=
  match call,dispatch cfg s call with
  | .submitDeregistrationReport origin nodeIds,.ok _ => origin.signer.elim [] fun who => castBy cfg s who nodeIds
  | _,_ => []

def decisions (cfg : Config A H W) (s : State A H W) (call : Call A W) : List Bytes :=
  (reachedNodes (step cfg s call)).drop (reachedNodes s).length

-- No validator node reports for a second account in one window.
def OneAccount (cfg : Config A H W) (p : State A H W × List (Vote A)) (call : Call A W) : Prop :=
  ∀ vote ∈ votesCast cfg p.1 call, ∀ old ∈ p.2, old.validator = vote.validator →
    windowOf cfg old.block = windowOf cfg vote.block → old.account = vote.account

instance (cfg : Config A H W) (p : State A H W × List (Vote A))
    (call : Call A W) : Decidable (OneAccount cfg p call) :=
  inferInstanceAs (Decidable (∀ vote ∈ votesCast cfg p.1 call, ∀ old ∈ p.2, old.validator = vote.validator →
    windowOf cfg old.block = windowOf cfg vote.block → old.account = vote.account))

theorem change_ownRows (change : Change cfg s call t) (own : OwnRows s) : OwnRows t := by
  cases change with
  | registers change =>
    obtain ⟨_,named,rows⟩ := change.row
    exact own.insert named rows
  | forces _ _ named rows => exact own.insert named rows
  | reports _ change => exact own.thinned (thinned_same change.rows)
  | block change => exact own.thinned change.thinned
  | aside _ thinned => exact own.thinned thinned

structure Ballot (account : A) (info : ColdkeyNodeInfoLite A) (block : Nat) (vote : Vote A) : Prop where
  account : vote.account = account
  validator : vote.validator = info.nodeId
  row : vote.row = some info
  kind : info.nodeType = .validator
  block : vote.block = block

theorem votesCast_accepted (ran : dispatch cfg s (.submitDeregistrationReport origin nodeIds) = .ok t)
    (signed : origin.signer = some who) :
    votesCast cfg s (.submitDeregistrationReport origin nodeIds) = castBy cfg s who nodeIds := by
  unfold votesCast
  rw [ran]
  dsimp only
  rw [signed]
  rfl

theorem votesCast_ballot (cfg : Config A H W) (own : OwnRows s) (call : Call A W) :
    votesCast cfg s call = [] ∨ ∃ account info, ∀ vote ∈ votesCast cfg s call, Ballot account info s.blockNumber vote := by
  cases call with
  | submitDeregistrationReport origin nodeIds =>
    cases ran : submitDeregistrationReport cfg s origin nodeIds with
    | error =>
      refine .inl ?_
      dsimp only [votesCast,dispatch]
      rw [ran]
    | ok =>
      obtain ⟨who,info,signed,change⟩ := submitDeregistrationReport_ok ran
      refine .inr ⟨resolveDeregistrationReporter cfg s who,info,?_⟩
      intro vote mem
      rw [votesCast_accepted ran signed,castBy_reports change] at mem
      obtain ⟨_,_,rfl⟩ := mem_map.mp mem
      exact ⟨rfl,rfl,getRegisteredNodeForOwner_stored own change.registered,change.validator,rfl⟩
  | _ => exact .inl rfl

theorem change_filed (ran : dispatch cfg s call = .ok t) (filed : Filed cfg s log) :
    Filed cfg t (log ++ votesCast cfg s call) := by
  have change := dispatch_change call ran
  cases change with
  | registers change => exact (filed.still change.reports (by rw [change.block])).later _
  | forces kept | aside kept => exact (filed.still kept.reports (by rw [kept.block])).later _
  | reports signed change =>
    rw [votesCast_accepted ran signed]
    exact filed.reports change
  | block change => exact (filed.block change).later _

theorem Polled.single_later (polled : Polled cfg p) (oneAccount : OneAccount cfg p call) :
    ∀ one ∈ p.2 ++ votesCast cfg p.1 call, ∀ two ∈ p.2 ++ votesCast cfg p.1 call, one.validator = two.validator →
      windowOf cfg one.block = windowOf cfg two.block → one.account = two.account := by
  intro one first two second validator window
  rcases mem_append.mp first with old | new
  · rcases mem_append.mp second with old' | new'
    · exact polled.single one old two old' validator window
    · exact oneAccount two new' one old validator window
  · rcases mem_append.mp second with old' | new'
    · exact (oneAccount one new two old' validator.symm window.symm).symm
    · rcases votesCast_ballot cfg polled.own call with none | ⟨_,_,ballot⟩
      · rw [none] at new
        cases new
      · exact (ballot one new).account.trans (ballot two new').account.symm

theorem Polled.validators_later (polled : Polled cfg p) (call : Call A W) :
    ∀ vote ∈ p.2 ++ votesCast cfg p.1 call, ∃ info, vote.row = some info ∧ info.nodeId = vote.validator ∧
      info.nodeType = .validator := by
  intro vote mem
  rcases mem_append.mp mem with old | new
  · exact polled.validators vote old
  · rcases votesCast_ballot cfg polled.own call with none | ⟨_,info,ballot⟩
    · rw [none] at new
      cases new
    · exact ⟨info,(ballot vote new).row,(ballot vote new).validator.symm,(ballot vote new).kind⟩

theorem recording_polled (p : State A H W × List (Vote A)) (call : Call A W)
    (polled : Polled cfg p) (oneAccount : OneAccount cfg p call) : Polled cfg (recording (step cfg) (votesCast cfg) p call) where
  own := commit_inv OwnRows polled.own fun _ ran => change_ownRows (dispatch_change call ran) polled.own
  filed := commit_inv (fun t => Filed cfg t (p.2 ++ votesCast cfg p.1 call)) (polled.filed.later _)
    fun _ ran => change_filed ran polled.filed
  single := polled.single_later oneAccount
  validators := polled.validators_later call

theorem decisions_outvoted (cfg : Config A H W) (s : State A H W) (call : Call A W) :
    ∀ nodeId ∈ decisions cfg s call, Outvoted cfg (s.temporaryDeregistrationReports.iter cfg.accountRank) nodeId := by
  have decides : Decides cfg (s.temporaryDeregistrationReports.iter cfg.accountRank) s (step cfg s call) := by
    refine commit_inv (Decides cfg (s.temporaryDeregistrationReports.iter cfg.accountRank) s) (decides_none rfl) ?_
    intro t ran
    have change := dispatch_change call ran
    cases change with
    | registers change | reports _ change => exact decides_none change.reached
    | forces kept | aside kept => exact decides_none kept.reached
    | block change => exact change.reached
  obtain ⟨_,grown,outvoted⟩ := decides
  unfold decisions
  rw [grown,drop_left]
  exact outvoted

theorem consensus_distinct_validators (world : W) (calls : List (Call A W)) (call : Call A W)
    (oneAccount : Throughout (recording (step cfg) (votesCast cfg)) (OneAccount cfg) (genesis world,[]) calls) :
    let p := run (recording (step cfg) (votesCast cfg)) (genesis world,[]) calls
    ∀ nodeId ∈ decisions cfg p.1 call, ∃ votes, votes ⊆ p.2 ∧ (votes.map Vote.validator).Nodup ∧
      cfg.consensusThreshold ≤ votes.length ∧ ∀ vote ∈ votes, vote.target = nodeId ∧
        ∃ info, vote.row = some info ∧ info.nodeId = vote.validator ∧ info.nodeType = .validator := by
  intro p nodeId decided
  have polled : Polled cfg p := run_invariant (Polled cfg) recording_polled (polled_start world) oneAccount
  have enough := decisions_outvoted cfg p.1 call nodeId decided
  unfold Outvoted at enough
  have voted : ∀ account ∈ reportersOf (p.1.temporaryDeregistrationReports.iter cfg.accountRank) nodeId, ∃ vote ∈ p.2,
      vote.account = account ∧ vote.target = nodeId ∧ windowOf cfg vote.block = windowOf cfg p.1.blockNumber :=
    fun account counted => polled.filed.counted counted
  generalize reportersOf (p.1.temporaryDeregistrationReports.iter cfg.accountRank) nodeId = reporters at enough voted
  -- One vote for each reporter; in one window no two of them are on behalf of one validator.
  choose pick cast byAccount against window using
    fun account : {account // account ∈ reporters.dedup} => voted account.1 (mem_dedup.mp account.2)
  refine ⟨reporters.dedup.attach.map pick,?_,?_,?_,?_⟩
  · intro vote mem
    obtain ⟨account,_,rfl⟩ := mem_map.mp mem
    exact cast account
  · rw [map_map]
    refine (nodup_attach.mpr reporters.nodup_dedup).map ?_
    intro one two same
    have account := polled.single _ (cast one) _ (cast two) same ((window one).trans (window two).symm)
    rw [byAccount one,byAccount two] at account
    exact Subtype.ext account
  · rw [length_map,length_attach]
    exact enough
  · intro vote mem
    obtain ⟨account,_,rfl⟩ := mem_map.mp mem
    exact ⟨against account,polled.validators _ (cast account)⟩

end

-- Account 1 reports, hands its validator over to account 2 and reports again through it.
def handOver : List (Call Nat Unit) :=
  [.setDeregistrationEnabled .root true,testRegister 1 .validator [1] 1 9 7,testRegister 3 .computeMiner [3] 3 9 8,
    .submitDeregistrationReport (.signed 1) [[3]],.swapNodeOwner (.signed 1) [1] 2,.submitDeregistrationReport (.signed 2) [[3]]] ++
    List.replicate 9 .nextBlock

theorem validator_votes_twice :
    let p := run (recording (step testConfig) (votesCast testConfig)) (genesis (),[]) handOver
    (p.1.coldkeyNodeRegistrationV2.lookup [3]).isSome = true ∧
    (step testConfig p.1 .nextBlock).coldkeyNodeRegistrationV2.lookup [3] = none ∧
    decisions testConfig p.1 .nextBlock = [[3]] ∧ testConfig.consensusThreshold = 2 ∧
    p.2.map Vote.validator = [[1],[1]] := by
  decide +kernel

def twoValidators : List (Call Nat Unit) :=
  [.setDeregistrationEnabled .root true,testRegister 1 .validator [1] 1 9 7,testRegister 2 .validator [2] 2 9 6,
    testRegister 3 .computeMiner [3] 3 9 8,
    .submitDeregistrationReport (.signed 1) [[3]],.submitDeregistrationReport (.signed 2) [[3]]] ++ List.replicate 9 .nextBlock

theorem consensus_distinct_validators_twoValidators :
    let p := run (recording (step testConfig) (votesCast testConfig)) (genesis (),[]) twoValidators
    Throughout (recording (step testConfig) (votesCast testConfig)) (OneAccount testConfig) (genesis (),[]) twoValidators ∧
    decisions testConfig p.1 .nextBlock = [[3]] ∧
    ∃ votes, votes ⊆ p.2 ∧ (votes.map Vote.validator).Nodup ∧ 2 ≤ votes.length ∧ ∀ vote ∈ votes, vote.target = [3] ∧
      ∃ info, vote.row = some info ∧ info.nodeId = vote.validator ∧ info.nodeType = .validator := by
  have oneAccount : Throughout (recording (step testConfig) (votesCast testConfig)) (OneAccount testConfig) (genesis (),[])
      twoValidators := by
    decide +kernel
  have decided : decisions testConfig (run (recording (step testConfig) (votesCast testConfig)) (genesis (),[]) twoValidators).1
      .nextBlock = [[3]] := by
    decide +kernel
  refine ⟨oneAccount,decided,?_⟩
  refine consensus_distinct_validators () twoValidators .nextBlock oneAccount [3] ?_
  rw [decided]
  exact mem_singleton_self _

end TheBrain.Registration
