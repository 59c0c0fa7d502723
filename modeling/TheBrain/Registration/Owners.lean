import TheBrain.Library.Pairing
import TheBrain.Registration.Specs

namespace TheBrain.Registration
open Library Machine Words Pairing Function List StorageMap

variable {A H W : Type}
variable {cfg : Config A H W} {s t : State A H W}

def Owned (s : State A H W) : Prop :=
  ∀ id info, s.coldkeyNodeRegistrationV2.lookup id = some info → s.ownerToNode info.owner = some [id]

def ownerOf (s : State A H W) (id : Bytes) : Option A := (s.coldkeyNodeRegistrationV2.lookup id).map ColdkeyNodeInfoLite.owner

-- The stored index is the inverse of the owner of each node, every list of it one node long.
def Indexed (s : State A H W) : Prop :=
  ∃ node, Inverse (ownerOf s) node ∧ s.ownerToNode = fun owner => (node owner).map fun id => [id]

theorem ownerOf_insert (s : State A H W) (id : Bytes) (info : ColdkeyNodeInfoLite A) :
    ownerOf {s with coldkeyNodeRegistrationV2:=s.coldkeyNodeRegistrationV2.insert id info} = update (ownerOf s) id (some info.owner) := by
  funext key
  simp only [ownerOf,lookup_insert_if,update_apply]
  split <;> rfl

theorem ownerOf_erase (s : State A H W) (id : Bytes) :
    ownerOf {s with coldkeyNodeRegistrationV2:=s.coldkeyNodeRegistrationV2.erase id} = update (ownerOf s) id none := by
  funext key
  simp only [ownerOf,lookup_erase_if,update_apply]
  split <;> rfl

theorem ownerOf_remove [DecidableEq A] (s : State A H W) (owner : A) (nodeId : Bytes) : ownerOf (ownerToNodeRemove s owner nodeId) = ownerOf s := by
  unfold ownerToNodeRemove
  split <;> rfl

theorem ownerOf_found (found : s.coldkeyNodeRegistrationV2.lookup nodeId = some info) : ownerOf s nodeId = some info.owner := by
  simp [ownerOf,found]

section
variable (indexed : Indexed s)
include indexed

theorem indexed_iff (owner : A) (nodes : List Bytes) : s.ownerToNode owner = some nodes ↔
    ∃ id info, s.coldkeyNodeRegistrationV2.lookup id = some info ∧ info.owner = owner ∧ nodes = [id] := by
  obtain ⟨_,inverse,index⟩ := indexed
  rw [index]
  constructor
  · intro listed
    obtain ⟨id,held,rfl⟩ := Option.map_eq_some_iff.mp listed
    obtain ⟨info,found,own⟩ := Option.map_eq_some_iff.mp ((inverse id owner).mpr held)
    exact ⟨id,info,found,own,rfl⟩
  · rintro ⟨id,_,found,rfl,rfl⟩
    exact Option.map_eq_some_iff.mpr ⟨id,(inverse id _).mp (ownerOf_found found),rfl⟩

theorem Indexed.owned : Owned s := fun id info found => (indexed_iff indexed _ _).mpr ⟨id,info,found,rfl,rfl⟩

theorem Indexed.keeps (rows : ownerOf t = ownerOf s) (index : t.ownerToNode = s.ownerToNode) : Indexed t := by
  unfold Indexed
  rw [rows,index]
  exact indexed

section
variable [DecidableEq A]

theorem Indexed.enters (absent : ownerOf s nodeId = none) (free : isOwnerNodeRegistered s owner = false)
    (rows : ownerOf t = update (ownerOf s) nodeId (some owner)) (index : t.ownerToNode = s.ownerToNode) :
    Indexed (ownerToNodeAdd t owner nodeId) := by
  obtain ⟨node,inverse,stored⟩ := indexed
  have idle : node owner = none := by simpa [isOwnerNodeRegistered,stored] using free
  refine ⟨_,rows ▸ inverse.bind absent idle,?_⟩
  funext other
  by_cases own : other = owner <;> simp [ownerToNodeAdd,index,stored,own,idle]

theorem Indexed.leaves (held : ownerOf s nodeId = some owner) (rows : ownerOf t = update (ownerOf s) nodeId none)
    (index : t.ownerToNode = s.ownerToNode) : Indexed (ownerToNodeRemove t owner nodeId) := by
  obtain ⟨_,inverse,stored⟩ := indexed
  have listed : t.ownerToNode owner = some [nodeId] := by simp [index,stored,(inverse _ _).mp held]
  unfold ownerToNodeRemove
  rw [listed]
  refine ⟨_,rows ▸ inverse.release held,?_⟩
  funext other
  by_cases own : other = owner <;> simp [index,stored,own]

theorem Indexed.registers (info : ColdkeyNodeInfoLite A) (free : isOwnerNodeRegistered s info.owner = false)
    (absent : (s.coldkeyNodeRegistrationV2.lookup info.nodeId).isNone = true) : Indexed (registerColdkeyNode s info) :=
  indexed.enters (by simpa [ownerOf] using absent) free (ownerOf_insert _ _ _) rfl

theorem Indexed.unregisters (cfg : Config A H W) (nodeId : Bytes) : Indexed (doUnregisterMainNode cfg s nodeId) := by
  unfold doUnregisterMainNode
  cases held : s.coldkeyNodeRegistrationV2.lookup nodeId with
  | some =>
    have gone := indexed.leaves (ownerOf_found held) (ownerOf_erase s nodeId) rfl
    exact gone.keeps rfl rfl
  | none =>
    refine indexed.keeps ((ownerOf_erase s nodeId).trans (update_eq_self_iff.mpr ?_)) rfl
    simp [ownerOf,held]

end

theorem Indexed.degrades (found : s.coldkeyNodeRegistrationV2.lookup nodeId = some info) :
    Indexed {s with coldkeyNodeRegistrationV2:=s.coldkeyNodeRegistrationV2.insert nodeId {info with status:=.degraded}} :=
  indexed.keeps ((ownerOf_insert s _ _).trans (update_eq_self_iff.mpr (ownerOf_found found).symm)) rfl

section
variable [DecidableEq A]

theorem Indexed.degradesOrUnregisters (cfg : Config A H W) (nodeId : Bytes) :
    Indexed (doSetNodeStatusDegradedOrUnregister cfg s nodeId) := by
  unfold doSetNodeStatusDegradedOrUnregister
  split
  · exact indexed
  next info found =>
    split
    · exact indexed.degrades found
    · exact indexed.unregisters cfg nodeId

-- The node leaves its owner and enters the new one; the row in between is never stored.
theorem Indexed.swaps (found : s.coldkeyNodeRegistrationV2.lookup nodeId = some info) (newOwner : A)
    (free : isOwnerNodeRegistered s newOwner = false) :
    Indexed (ownerToNodeAdd (ownerToNodeRemove
      {s with coldkeyNodeRegistrationV2:=s.coldkeyNodeRegistrationV2.insert nodeId {info with owner:=newOwner}} info.owner nodeId)
      newOwner nodeId) := by
  have listed := indexed.owned nodeId info found
  refine (indexed.leaves (ownerOf_found found) (ownerOf_erase s nodeId) rfl).enters ?_ ?_ ?_ ?_
  · rw [ownerOf_remove,ownerOf_erase,update_self]
  · have other : newOwner ≠ info.owner := by
      rintro rfl
      simp [isOwnerNodeRegistered,listed] at free
    simpa [isOwnerNodeRegistered,ownerToNodeRemove,listed,other] using free
  · rw [ownerOf_remove,ownerOf_remove,ownerOf_insert,ownerOf_erase,update_idem]
  · simp only [ownerToNodeRemove,listed]

theorem consensusOn_indexed (cfg : Config A H W) (reports : List (A × List DeregistrationReport)) (nodeId : Bytes) :
    Indexed (consensusOn cfg s reports nodeId) := by
  unfold consensusOn
  dsimp only
  split
  · exact indexed.unregisters cfg nodeId
  · exact indexed

theorem tallyReports_indexed (cfg : Config A H W) (now : Nat) : Indexed (tallyReports cfg {s with blockNumber:=now} now) := by
  unfold tallyReports
  have priced : Indexed (initializeNodeTypeFees cfg {s with blockNumber:=now}) := by
    unfold initializeNodeTypeFees
    split <;> exact indexed
  generalize initializeNodeTypeFees cfg {s with blockNumber:=now} = u at priced ⊢
  have cleared : Indexed (if now % cfg.reportRequestsClearInterval = 0 then {u with reportSubmissionCount:=fun _ => 0} else u) := by
    split <;> exact priced
  dsimp only
  split
  · exact foldl_keeps Indexed (fun _ nodeId fine => consensusOn_indexed fine cfg _ nodeId) _ cleared
  · exact cleared

-- Rows of one owner are one row, so no list of an owner's nodes is longer than one.
theorem duplicates_nil (cfg : Config A H W) : duplicates cfg s = [] := by
  apply filter_eq_nil_iff.mpr
  rintro ⟨id,owner⟩ mem
  have owned : ∀ entry ∈ (s.coldkeyNodeRegistrationV2.iter cfg.nodeRank).map (fun entry => (entry.1,entry.2.owner)),
      s.ownerToNode entry.2 = some [entry.1] := by
    intro entry mem
    obtain ⟨⟨key,info⟩,row,rfl⟩ := mem_map.mp mem
    exact indexed.owned key info ((mem_iter _ _).mp row)
  have distinct : ((s.coldkeyNodeRegistrationV2.iter cfg.nodeRank).map (fun entry => (entry.1,entry.2.owner))).Nodup := by
    apply Nodup.of_map Prod.fst
    rw [map_map]
    exact iter_keys_nodup _ _
  generalize (s.coldkeyNodeRegistrationV2.iter cfg.nodeRank).map (fun entry => (entry.1,entry.2.owner)) = rows at mem owned distinct ⊢
  have same : ∀ entry ∈ rows.filter (fun other => other.2 = owner), entry = (id,owner) := by
    rintro ⟨_,other⟩ listed
    obtain ⟨present,own⟩ := mem_filter.mp listed
    have first := owned _ present
    rw [of_decide_eq_true own,owned _ mem] at first
    simpa [eq_comm] using And.intro first (of_decide_eq_true own)
  have few := distinct.filter (fun other => other.2 = owner)
  rw [eq_replicate_iff.mpr ⟨rfl,same⟩] at few
  simpa using few

theorem onInitialize_rows (cfg : Config A H W) (now : Nat) :
    let swept := tallyReports cfg {s with blockNumber:=now} now
    ownerOf (onInitialize cfg s now) = ownerOf swept ∧ (onInitialize cfg s now).ownerToNode = swept.ownerToNode := by
  have tallied := tallyReports_indexed indexed cfg now
  unfold onInitialize
  generalize tallyReports cfg {s with blockNumber:=now} now = u at tallied ⊢
  have still : duplicates cfg (if clearsReports cfg now then {u with temporaryDeregistrationReports:=∅} else u) = [] := by
    apply duplicates_nil
    split <;> exact tallied
  dsimp only
  rw [removeDuplicates,still,foldl_nil,ite_self]
  split <;> exact ⟨rfl,rfl⟩

end
end

theorem dispatch_indexed [DecidableEq A] [DecidableEq H] (call : Call A W) (ran : dispatch cfg s call = .ok t) (indexed : Indexed s) : Indexed t := by
  cases call with
  | forceRegisterColdkeyNode =>
    simp only [dispatch,forceRegisterColdkeyNode,passes] at ran
    obtain ⟨_,_,free,absent,rfl⟩ := ran
    exact indexed.registers _ free absent
  | registerNodeWithColdkey =>
    simp only [dispatch,registerNodeWithColdkey,admitNode,passes] at ran
    obtain ⟨_,_,_,_,_,_,⟨_,free,_,absent,_⟩,_,charged,rfl⟩ := ran
    obtain ⟨_,_,_,rfl⟩ := chargeFee_ok charged
    exact Indexed.registers indexed _ free absent
  | setNodeStatusToDegraded =>
    simp only [dispatch,setNodeStatusToDegraded,passes] at ran
    obtain ⟨_,info,found,_,rfl⟩ := ran
    exact indexed.degrades found
  | forceUnregisterColdkeyNode _ nodeId | unregisterMainNode _ nodeId =>
    revert ran
    simp only [dispatch,forceUnregisterColdkeyNode,unregisterMainNode,passes,forall_exists_index,and_imp]
    intros
    subst_vars
    exact indexed.degradesOrUnregisters cfg nodeId
  | swapNodeOwner _ _ newOwner =>
    simp only [dispatch,swapNodeOwner,passes] at ran
    obtain ⟨_,_,_,found,_,_,free,rfl⟩ := ran
    exact indexed.swaps found newOwner free
  | doUnregisterMainNode nodeId =>
    cases ran
    exact indexed.unregisters cfg nodeId
  | nextBlock =>
    cases ran
    obtain ⟨rows,index⟩ := onInitialize_rows indexed cfg (s.blockNumber + 1)
    exact (tallyReports_indexed indexed cfg _).keeps rows index
  | setFeeCharging | setNodeTypeFeeFloor | setNodeTypeDisabled | setAccountBanStatus | setDeregistrationEnabled
  | submitDeregistrationReport | elsewhere =>
    revert ran
    simp only [dispatch,setFeeCharging,setNodeTypeFeeFloor,setNodeTypeDisabled,setAccountBanStatus,setDeregistrationEnabled,submitDeregistrationReport,passes,forall_exists_index,and_imp]
    intros
    subst_vars
    exact indexed

theorem genesis_indexed (world : W) : Indexed (genesis world : State A H W) :=
  ⟨fun _ => none,fun _ _ => ⟨(nomatch ·),(nomatch ·)⟩,rfl⟩

theorem owners_indexed [DecidableEq A] [DecidableEq H] (cfg : Config A H W) (world : W) (calls : List (Call A W)) :
    let s := run (step cfg) (genesis world) calls
    (∀ owner nodes, s.ownerToNode owner = some nodes ↔
      ∃ id info, s.coldkeyNodeRegistrationV2.lookup id = some info ∧ info.owner = owner ∧ nodes = [id]) ∧
    (∀ one two info row, s.coldkeyNodeRegistrationV2.lookup one = some info → s.coldkeyNodeRegistrationV2.lookup two = some row →
      info.owner = row.owner → one = two) ∧
    ∀ now, let u := tallyReports cfg {s with blockNumber:=now} now
      let swept := if clearsReports cfg now then {u with temporaryDeregistrationReports:=∅} else u
      removeDuplicates cfg swept = swept := by
  intro s
  have indexed : Indexed s :=
    run_always Indexed (fun s call fine => commit_inv Indexed fine fun _ ran => dispatch_indexed call ran fine) (genesis_indexed world)
  refine ⟨indexed_iff indexed,?_,?_⟩
  · intro one two info row first second same
    have listed := indexed.owned one info first
    rw [same,indexed.owned two row second] at listed
    cases listed
    rfl
  · intro now u swept
    have fine : Indexed swept := by
      have tallied := tallyReports_indexed indexed cfg now
      dsimp only [swept]
      split <;> exact tallied
    rw [removeDuplicates,duplicates_nil fine cfg]
    rfl

theorem Owned.registered (owned : Owned s) (found : s.coldkeyNodeRegistrationV2.lookup nodeId = some info)
    (online : info.status ≠ .degraded) : getRegisteredNodeForOwner s info.owner = some info := by
  simp [getRegisteredNodeForOwner,owned nodeId info found,found,online]

theorem Indexed.stored (indexed : Indexed s) (registered : getRegisteredNodeForOwner s owner = some info) :
    ∃ id, s.coldkeyNodeRegistrationV2.lookup id = some info ∧ info.owner = owner ∧ info.status ≠ .degraded := by
  obtain ⟨node,inverse,index⟩ := indexed
  rw [getRegisteredNodeForOwner,index] at registered
  cases held : node owner with
  | none => simp [held] at registered
  | some id =>
    simp only [held,Option.map_some,Option.bind_some,List.findSome?_singleton,Option.filter_eq_some_iff,decide_eq_true_eq] at registered
    obtain ⟨found,online⟩ := registered
    have owns : ownerOf s id = some owner := (inverse id owner).mpr held
    rw [ownerOf,found,Option.map_some,Option.some_inj] at owns
    exact ⟨id,found,owns,online⟩

theorem resolve_self [DecidableEq A] (cfg : Config A H W) (alone : ∀ other, who ∈ cfg.delegates s.world other → other = who) :
    resolveDeregistrationReporter cfg s who = who := by
  unfold resolveDeregistrationReporter getPrimaryAccount
  split
  · rfl
  · cases found : (getAllNodesByNodeType cfg s .validator).find? fun info => who ∈ cfg.delegates s.world info.owner with
    | none => rfl
    | some info =>
      have proxied := List.find?_some found
      exact alone info.owner (of_decide_eq_true proxied)

end TheBrain.Registration
