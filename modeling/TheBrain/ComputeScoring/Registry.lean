import TheBrain.ComputeScoring.Families

namespace TheBrain.ComputeScoring
open Library Machine Words HippiusTypes Function StorageMap

section
variable {A H W : Type}
variable {cfg : Config A H W} {s t u : State A H W}

theorem quarantined_before [DecidableEq H] (s : State A H W) (quarantined : H) (now : Nat) (epoch : Word 64)
    (active : statusOf (transitionNodeStatus s quarantined .quarantined now epoch).1 nodeId = .active) : statusOf s nodeId = .active := by
  simp only [transitionNodeStatus] at active
  split at active
  · exact active
  split at active
  · exact active
  · by_cases same : nodeId = quarantined
    · simp [statusOf,depositEvent,recordStatus,same] at active
    · simpa [statusOf,depositEvent,recordStatus,same] using active

variable [DecidableEq A]

def familyOf (s : State A H W) (nodeId : H) : Option A :=
  match s.registry.nodeIdToChild nodeId with
  | none => none
  | some child =>
    match s.registry.childRegistrations.lookup child with
    | none => none
    | some reg => if reg.status = .active then some reg.family else none

theorem familyOf_some : familyOf s nodeId = some family ↔ ∃ child reg, s.registry.nodeIdToChild nodeId = some child ∧
    s.registry.childRegistrations.lookup child = some reg ∧ reg.status = .active ∧ reg.family = family := by
  unfold familyOf
  cases mapped : s.registry.nodeIdToChild nodeId with
  | none => simp
  | some child =>
    cases found : s.registry.childRegistrations.lookup child with
    | none | some => simp [found]

variable [DecidableEq H]

def Roster.Mapped (r : Roster A H) : Prop :=
  ∀ nodeId child, r.nodes nodeId = some child →
    ∃ reg, r.registrations.lookup child = some reg ∧ reg.status = .active ∧ reg.nodeId = nodeId

theorem change_mapped (change : Change cfg s call t) (mapped : (rosterOf s.registry).Mapped) : (rosterOf t.registry).Mapped := by
  refine change_roster Roster.Mapped ?_ ?_ ?_ change mapped
  · intro r family newcomer fresh deposit block mapped absent _ _ _ nodeId child node
    simp only [Roster.join,update_apply] at node ⊢
    split at node
    next same =>
      cases node
      exact ⟨_,AList.lookup_insert _,rfl,same.symm⟩
    · obtain ⟨reg,found,rest⟩ := mapped nodeId child node
      have apart : child ≠ newcomer := fun same => nomatch (same ▸ found).symm.trans absent
      exact ⟨reg,(AList.lookup_insert_ne apart).trans found,rest⟩
  · intro r leaver gone unbondingEnd mapped held _ nodeId child node
    simp only [Roster.leave,update_apply] at node ⊢
    split at node
    · cases node
    next other =>
      obtain ⟨reg,found,active,named⟩ := mapped nodeId child node
      have apart : child ≠ leaver := by
        rintro rfl
        rw [held] at found
        cases found
        exact other named.symm
      exact ⟨reg,(AList.lookup_insert_ne apart).trans found,active,named⟩
  · intro r leaver gone mapped held unbonding nodeId child node
    obtain ⟨reg,found,active,named⟩ := mapped nodeId child node
    have apart : child ≠ leaver := fun same => unbonding_idle held unbonding reg (same ▸ found) active
    exact ⟨reg,(AList.lookup_erase_ne apart).trans found,active,named⟩

theorem familyOf_before (mapped : (rosterOf s.registry).Mapped) (change : Change cfg s call t) (held : familyOf t nodeId = some family)
    (older : ∀ origin joined child nodeSig, call ≠ .registerChild origin joined child nodeId nodeSig) : familyOf s nodeId = some family := by
  obtain ⟨child,reg,node,found,active,mine⟩ := familyOf_some.mp held
  refine familyOf_some.mpr ⟨child,reg,?_⟩
  change (rosterOf t.registry).nodes nodeId = some child at node
  change (rosterOf t.registry).registrations.lookup child = some reg at found
  cases change with
  | registers change =>
    obtain ⟨_,roster⟩ := change.roster
    rw [roster] at node found
    simp only [Roster.join,update_apply] at node
    split at node
    next same =>
      subst same
      exact absurd rfl (older _ _ _ _)
    rcases insert_cases found with ⟨rfl,_⟩ | ⟨_,found⟩
    · obtain ⟨_,there,_⟩ := mapped nodeId child node
      cases there.symm.trans change.fresh
    · exact ⟨node,found,active,mine⟩
  | retires change | forces change =>
    obtain ⟨_,roster⟩ := change.roster
    rw [roster] at node found
    simp only [Roster.leave,update_apply] at node
    split at node
    · cases node
    rcases insert_cases found with ⟨_,rfl⟩ | ⟨_,found⟩
    · cases active
    · exact ⟨node,found,active,mine⟩
  | claims change =>
    rw [change.roster,lookup_erase_if] at found
    rw [change.roster] at node
    split at found
    · cases found
    · exact ⟨node,found,active,mine⟩
  | topsUp change | unstakes change | withdraws change | slashes change | closes change =>
    rw [change.roster] at node found
    exact ⟨node,found,active,mine⟩
  | outside => exact ⟨node,found,active,mine⟩
  | aside _ same =>
    rw [same.roster] at node found
    exact ⟨node,found,active,mine⟩

theorem requestUnstake_before (ran : requestUnstake cfg s origin amount = .ok t) (active : statusOf t nodeId = .active) :
    statusOf s nodeId = .active := by
  simp only [requestUnstake,passes] at ran
  obtain ⟨who,_,_,_,rfl⟩ := ran
  revert active
  refine quarantineOwner_keeps (fun t => statusOf t nodeId = .active → statusOf s nodeId = .active) who ?_ (fun _ _ before => before) id
  intro t quarantined now epoch before after
  exact before (quarantined_before _ _ _ _ after)

theorem Deregistered.status (left : Deregistered cfg child reg s t) (apart : nodeId ≠ reg.nodeId) : statusOf t nodeId = statusOf s nodeId := by
  rw [statusOf,statusOf,left.epochs,forgetStatus]
  split
  · rfl
  · simp [recordStatus,apart]

theorem status_before (running : familyOf t nodeId = some family) (ran : dispatch cfg s call = .ok t)
    (between : ∀ origin epoch updates, call ≠ .valiSubmitEpochClose origin epoch updates) (active : statusOf t nodeId = .active) :
    statusOf s nodeId = .active := by
  have node : t.registry.nodeIdToChild nodeId ≠ none := by
    intro none
    simp only [familyOf,none,reduceCtorEq] at running
  have unmapped : ∀ {child reg}, Deregistered cfg child reg s t → statusOf s nodeId = .active := by
    intro child reg left
    have apart : nodeId ≠ reg.nodeId := by
      rintro rfl
      exact node (left.unmapped ▸ update_self ..)
    rwa [← left.status apart]
  rcases dispatch_moves ran with ⟨_,rfl,rfl⟩ | moved
  · exact active
  by_cases touched : Part.epochs ∈ call.parts
  · cases call with
    | deregisterChild =>
      obtain ⟨reg,left⟩ := deregisterChild_ok ran
      exact unmapped left
    | forceDeregisterChild =>
      obtain ⟨_,left⟩ := forceDeregisterChild_ok ran
      exact unmapped left
    | valiSubmitEpochClose origin epoch updates => exact absurd rfl (between origin epoch updates)
    | requestUnstake => exact requestUnstake_before ran active
    | _ => simp [Call.parts] at touched
  · rwa [statusOf,moved.epochs touched] at active

end
end TheBrain.ComputeScoring
