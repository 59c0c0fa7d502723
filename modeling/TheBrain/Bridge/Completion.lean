import TheBrain.Bridge.Quorum

namespace TheBrain.Bridge.Pallet
open Library Machine Words List StorageMap

variable {A H B : Type} [DecidableEq A] [DecidableEq H]
variable {cfg : Config A H B} {s t : State A H B}
variable {id : H} {deposit : Deposit A H}

-- What the stored record must be for an attestation to reach it: its id is the one that
-- some u64 nonce gives its recipient and amount.
def Addressed (cfg : Config A H B) (id : H) (deposit : Deposit A H) : Prop :=
  ∃ (amount : Word 128) (nonce : Word 64), deposit.amount = amount ∧ depositRequestId cfg deposit.recipient amount nonce = id

structure Reachable (cfg : Config A H B) (s : State A H B) : Prop where
  capped : s.globalMintCap < 2 ^ 128
  addressed : ∀ id deposit, s.deposits.lookup id = some deposit → Addressed cfg id deposit

theorem genesis_reachable (accounts : B) : Reachable cfg (genesis accounts) where
  capped := by
    show 0 < 2 ^ 128
    decide
  addressed := nofun

theorem insert_addressed (known : ∀ id deposit, s.deposits.lookup id = some deposit → Addressed cfg id deposit)
    (stored : t.deposits = s.deposits.insert id deposit) (addressed : Addressed cfg id deposit) :
    ∀ id deposit, t.deposits.lookup id = some deposit → Addressed cfg id deposit := by
  intro other record found
  rw [stored] at found
  rcases insert_cases found with ⟨rfl,rfl⟩ | ⟨_,found⟩
  · exact addressed
  · exact known other record found

theorem attested_addressed {amount : Word 128} {nonce : Word 64} (guardian : A)
    (known : ∀ id deposit, s.deposits.lookup id = some deposit → Addressed cfg id deposit)
    (named : depositRequestId cfg recipient amount nonce = id) :
    Addressed cfg id (attested s guardian id recipient amount) := by
  unfold attested
  cases found : s.deposits.lookup id with
  | none => exact ⟨amount,nonce,rfl,named⟩
  | some deposit => exact known id deposit found

theorem reevaluation_addressed (cfg : Config A H B) (guardians : List A) (threshold : Nat)
    (entries : List (H × Deposit A H)) (s : State A H B)
    (known : ∀ entry ∈ entries, Addressed cfg entry.1 entry.2)
    (stored : ∀ id deposit, s.deposits.lookup id = some deposit → Addressed cfg id deposit) :
    ∀ id deposit, (entries.foldl (reevaluate cfg guardians threshold) s).deposits.lookup id = some deposit →
      Addressed cfg id deposit := by
  induction entries generalizing s with
  | nil => exact stored
  | cons entry _ ih =>
    refine ih _ (fun later mem => known later (mem_cons_of_mem _ mem)) ?_
    rcases reevaluate_cases cfg guardians threshold s entry with eq | ⟨_,_,_,eq⟩
    · rw [eq]
      exact stored
    · rw [eq]
      exact insert_addressed stored rfl (known entry (mem_cons_self ..))

theorem step_cap (cfg : Config A H B) (s : State A H B) (call : Call A H B)
    (capped : s.globalMintCap < 2 ^ 128) : (step cfg s call).globalMintCap < 2 ^ 128 := by
  refine commit_inv (fun t : State A H B => t.globalMintCap < 2 ^ 128) capped ?_
  intro t ran
  by_cases sets : call.setsLimits = true
  · cases call with
    | setGlobalMintCap _ cap =>
      simp only [dispatch,setGlobalMintCap,passes] at ran
      obtain ⟨_,_,rfl⟩ := ran
      exact cap.isLt
    | setCleanupTTL =>
      simp only [dispatch,setCleanupTTL,passes] at ran
      obtain ⟨_,_,rfl⟩ := ran
      exact capped
    | setMaxMintPerEra =>
      simp only [dispatch,setMaxMintPerEra,passes] at ran
      obtain ⟨_,_,rfl⟩ := ran
      exact capped
    | initializeBlock =>
      cases ran
      split
      · exact capped
      · exact capped
    | startEra =>
      cases ran
      exact capped
    | _ => cases sets
  · have kept := (dispatch_limits call (Bool.not_eq_true _ ▸ sets) ran).1.cap
    rw [kept]
    exact capped

theorem step_reachable (s : State A H B) (call : Call A H B) (reachable : Reachable cfg s) : Reachable cfg (step cfg s call) := by
  refine ⟨step_cap cfg s call reachable.capped,?_⟩
  obtain ⟨_,known⟩ := reachable
  refine commit_inv (fun t : State A H B => ∀ id deposit, t.deposits.lookup id = some deposit → Addressed cfg id deposit) known ?_
  intro t ran
  by_cases touches : call.TouchesDeposits
  · cases call with
    | attestDeposit _ id =>
      obtain ⟨guardian,_,_,_,named,_,counted⟩ := attestDeposit_ok.mp ran
      have addressed := attested_addressed guardian known named
      rcases countVote_ok.mp counted with ⟨_,finalized⟩ | ⟨_,rfl⟩
      · obtain ⟨_,_,_,_,rfl⟩ := finalizeDeposit_ok.mp finalized
        exact insert_addressed known rfl addressed
      · exact insert_addressed known rfl addressed
    | setGuardiansAndThreshold _ guardians threshold =>
      obtain ⟨_,_,_,_,rfl⟩ := setGuardiansAndThreshold_ok.mp ran
      refine reevaluation_addressed cfg guardians threshold _ _ ?_ known
      intro entry mem
      exact known entry.1 entry.2 ((mem_iter _ _).mp (mem_filter.mp mem).1)
    | cleanupDeposit =>
      obtain ⟨_,_,_,_,_,_,_,_,_,rfl⟩ := cleanupDeposit_ok.mp ran
      exact fun id deposit found => known id deposit (erase_found found).2
    | adminCancelDeposit =>
      obtain ⟨deposit,_,found,_,rfl⟩ := adminCancelDeposit_ok.mp ran
      exact insert_addressed known rfl (known _ deposit found)
    | _ => cases touches
  · rw [(dispatch_untouched call touches ran).deposits]
    exact known

def AttestedBy (guardians : List A) (id : H) (call : Call A H B) : Prop :=
  ∃ guardian ∈ guardians, ∃ recipient amount nonce, call = .attestDeposit (.signed guardian) id recipient amount nonce

theorem attestDeposit_voted (member : guardian ∈ s.guardians) (unpaused : s.paused = false)
    (named : depositRequestId cfg recipient amount nonce = id) (found : s.deposits.lookup id = some deposit)
    (pending : deposit.status = .pending) (fresh : guardian ∉ deposit.votes) :
    attestDeposit cfg s (.signed guardian) id recipient amount nonce =
      countVote cfg (depositEvent s (.depositAttested id guardian)) id {deposit with votes:=insert guardian deposit.votes} := by
  simp [attestDeposit,ensureSigned,ensureGuardian,ensureNotPaused,ensure,bind,Except.bind,member,unpaused,named,found,pending,fresh]

theorem countVote_completes (reached : s.approveThreshold ≤ deposit.votes.card) (capped : s.globalMintCap < 2 ^ 128)
    (room : s.totalMintedByBridge + deposit.amount ≤ s.globalMintCap)
    (minted : cfg.mintInto s.accounts deposit.recipient deposit.amount = some accounts) :
    countVote cfg s id deposit = .ok (credited s id deposit accounts) :=
  countVote_ok.mpr (.inl ⟨reached,finalizeDeposit_ok.mpr ⟨Nat.lt_of_le_of_lt room capped,room,accounts,minted,rfl⟩⟩)

def voted (s : State A H B) (guardian : A) (id : H) (deposit : Deposit A H) : State A H B :=
  {depositEvent s (.depositAttested id guardian) with
    deposits:=s.deposits.insert id {deposit with votes:=insert guardian deposit.votes}}

theorem attestation_progress (member : guardian ∈ s.guardians) (unpaused : s.paused = false) (capped : s.globalMintCap < 2 ^ 128)
    (found : s.deposits.lookup id = some deposit) (pending : deposit.status = .pending) (fresh : guardian ∉ deposit.votes)
    (addressed : Addressed cfg id deposit) (room : s.totalMintedByBridge + deposit.amount ≤ s.globalMintCap)
    (minted : cfg.mintInto s.accounts deposit.recipient deposit.amount = some accounts) :
    ∃ call, AttestedBy s.guardians id call ∧ (Completed (step cfg s call) id ∨
      (insert guardian deposit.votes).card < s.approveThreshold ∧ step cfg s call = voted s guardian id deposit) := by
  obtain ⟨amount,nonce,_,named⟩ := addressed
  refine ⟨.attestDeposit (.signed guardian) id deposit.recipient amount nonce,⟨guardian,member,_,_,_,rfl⟩,?_⟩
  rw [step,dispatch,attestDeposit_voted member unpaused named found pending fresh]
  by_cases reached : s.approveThreshold ≤ (insert guardian deposit.votes).card
  · left
    have counted : countVote cfg (depositEvent s (.depositAttested id guardian)) id
        {deposit with votes:=insert guardian deposit.votes} = .ok (credited _ id _ accounts) :=
      countVote_completes reached capped room minted
    rw [counted]
    exact ⟨_,AList.lookup_insert _,rfl⟩
  · right
    have counted : countVote cfg (depositEvent s (.depositAttested id guardian)) id
        {deposit with votes:=insert guardian deposit.votes} = .ok (voted s guardian id deposit) := if_neg reached
    rw [counted]
    exact ⟨Nat.not_le.mp reached,rfl⟩

-- Some guardian has not voted, and the votes there are reach the threshold with theirs.
def Attestable (s : State A H B) (deposit : Deposit A H) : Prop :=
  (∃ guardian ∈ s.guardians, guardian ∉ deposit.votes) ∧ s.approveThreshold ≤ (deposit.votes ∪ s.guardians.toFinset).card

-- The induction is on the guardians that have not voted: one of them can always attest,
-- and the record either settles or has one of them fewer.
theorem attestations_complete (remaining : Nat) (s : State A H B) (deposit : Deposit A H)
    (counts : (s.guardians.toFinset \ deposit.votes).card = remaining) (unpaused : s.paused = false)
    (attestable : Attestable s deposit) (capped : s.globalMintCap < 2 ^ 128)
    (found : s.deposits.lookup id = some deposit) (pending : deposit.status = .pending) (addressed : Addressed cfg id deposit)
    (room : s.totalMintedByBridge + deposit.amount ≤ s.globalMintCap)
    (minted : cfg.mintInto s.accounts deposit.recipient deposit.amount = some accounts) :
    ∃ calls, (∀ call ∈ calls, AttestedBy s.guardians id call) ∧ Completed (run (step cfg) s calls) id := by
  induction remaining using Nat.strong_induction_on generalizing s deposit with
  | _ remaining ih =>
    obtain ⟨⟨guardian,mem,fresh⟩,enough⟩ := attestable
    have member : guardian ∈ s.guardians.toFinset := mem_toFinset.mpr mem
    obtain ⟨call,attests,completed | ⟨few,taken⟩⟩ :=
      attestation_progress mem unpaused capped found pending fresh addressed room minted
    · refine ⟨[call],?_,completed⟩
      intro other only
      exact mem_singleton.mp only ▸ attests
    · have fewer : (s.guardians.toFinset \ insert guardian deposit.votes).card < remaining := by
        rw [← counts]
        refine Finset.card_lt_card (Finset.ssubset_iff_of_subset ?_ |>.mpr ⟨guardian,?_,?_⟩)
        · exact Finset.sdiff_subset_sdiff (Finset.Subset.refl _) (Finset.subset_insert _ _)
        · exact Finset.mem_sdiff.mpr ⟨member,fresh⟩
        · exact fun still => (Finset.mem_sdiff.mp still).2 (Finset.mem_insert_self _ _)
      have whole : insert guardian deposit.votes ∪ s.guardians.toFinset = deposit.votes ∪ s.guardians.toFinset := by
        rw [Finset.insert_union,Finset.insert_eq_of_mem (Finset.mem_union_right _ member)]
      have still : Attestable (voted s guardian id deposit) {deposit with votes:=insert guardian deposit.votes} := by
        refine ⟨?_,whole ▸ enough⟩
        obtain ⟨other,there,absent⟩ := Finset.exists_mem_notMem_of_card_lt_card (few.trans_le enough)
        have unvoted := (Finset.mem_union.mp there).resolve_left fun old => absent (Finset.mem_insert_of_mem old)
        exact ⟨other,mem_toFinset.mp unvoted,absent⟩
      obtain ⟨calls,all,completed⟩ := ih _ fewer (voted s guardian id deposit)
        {deposit with votes:=insert guardian deposit.votes} rfl unpaused still capped (AList.lookup_insert _) pending addressed room minted
      refine ⟨call :: calls,?_,?_⟩
      · intro other listed
        rcases mem_cons.mp listed with rfl | later
        · exact attests
        · exact all other later
      · rw [run_cons,taken]
        exact completed

-- Attestations only add votes of guardians to the record.
def Voting (s : State A H B) (id : H) (deposit : Deposit A H) (t : State A H B) : Prop :=
  t.guardians = s.guardians ∧ t.approveThreshold = s.approveThreshold ∧ ∃ votes, deposit.votes ⊆ votes ∧
    votes ⊆ deposit.votes ∪ s.guardians.toFinset ∧ t.deposits.lookup id = some {deposit with votes:=votes}

theorem attestation_stuck (stuck : ¬ Attestable s deposit) (t : State A H B) (call : Call A H B) (voting : Voting s id deposit t)
    (attests : call.attestedDeposit.isSome = true) : Voting s id deposit (step cfg t call) := by
  refine commit_inv (Voting s id deposit) voting ?_
  obtain ⟨guardians,threshold,votes,grown,inside,found⟩ := voting
  intro u ran
  cases call with
  | attestDeposit _ other recipient amount =>
    obtain ⟨guardian,_,member,_,_,opened,counted⟩ := attestDeposit_ok.mp ran
    by_cases same : id = other
    · subst same
      have fresh := (opened _ found).2
      rw [guardians] at member
      have more : insert guardian votes ⊆ deposit.votes ∪ s.guardians.toFinset :=
        Finset.insert_subset (Finset.mem_union_right _ (mem_toFinset.mpr member)) inside
      have record : attested t guardian id recipient amount = {deposit with votes:=insert guardian votes} := by
        rw [attested,found]
      rw [record] at counted
      rcases countVote_ok.mp counted with ⟨reached,_⟩ | ⟨_,rfl⟩
      · refine absurd ⟨⟨guardian,member,fun old => fresh (grown old)⟩,?_⟩ stuck
        exact threshold ▸ reached.trans (Finset.card_le_card more)
      · exact ⟨guardians,threshold,_,grown.trans (Finset.subset_insert _ _),more,AList.lookup_insert _⟩
    · rcases countVote_ok.mp counted with ⟨_,finalized⟩ | ⟨_,rfl⟩
      · obtain ⟨_,_,_,_,rfl⟩ := finalizeDeposit_ok.mp finalized
        exact ⟨guardians,threshold,votes,grown,inside,(AList.lookup_insert_ne same).trans found⟩
      · exact ⟨guardians,threshold,votes,grown,inside,(AList.lookup_insert_ne same).trans found⟩
  | _ => cases attests

theorem attestations_stuck (cfg : Config A H B) (s : State A H B) (found : s.deposits.lookup id = some deposit)
    (pending : deposit.status = .pending) (stuck : ¬ Attestable s deposit) (calls : List (Call A H B))
    (attests : ∀ call ∈ calls, call.attestedDeposit.isSome = true) : ¬ Completed (run (step cfg) s calls) id := by
  have voting : Voting s id deposit (run (step cfg) s calls) := run_invariant _ (attestation_stuck stuck)
    ⟨rfl,rfl,deposit.votes,Finset.Subset.refl _,Finset.subset_union_left,found⟩
    (throughout_of_mem s calls fun call mem _ => attests call mem)
  rintro ⟨_,stored,completed⟩
  obtain ⟨_,_,_,_,_,kept⟩ := voting
  cases kept.symm.trans stored
  cases pending.symm.trans completed

theorem deposits_completable (cfg : Config A H B) (accounts : B) (calls : List (Call A H B)) (id : H) (deposit : Deposit A H) :
    let s := run (step cfg) (genesis accounts) calls
    s.paused = false → s.deposits.lookup id = some deposit → deposit.status = .pending →
      s.totalMintedByBridge + deposit.amount ≤ s.globalMintCap →
      (cfg.mintInto s.accounts deposit.recipient deposit.amount).isSome →
      ((∃ attestations, (∀ call ∈ attestations, AttestedBy s.guardians id call) ∧ Completed (run (step cfg) s attestations) id) ↔
        (∃ guardian ∈ s.guardians, guardian ∉ deposit.votes) ∧ s.approveThreshold ≤ (deposit.votes ∪ s.guardians.toFinset).card) := by
  intro s unpaused found pending room mints
  constructor
  · rintro ⟨attestations,attested,completed⟩
    by_contra stuck
    refine attestations_stuck cfg s found pending stuck attestations ?_ completed
    intro call mem
    obtain ⟨_,_,_,_,_,rfl⟩ := attested call mem
    rfl
  · intro attestable
    obtain ⟨capped,addressed⟩ : Reachable cfg s := run_always (Reachable cfg) step_reachable (genesis_reachable accounts)
    obtain ⟨minted,succeeds⟩ := Option.isSome_iff_exists.mp mints
    exact attestations_complete _ s deposit rfl unpaused attestable capped found pending (addressed id deposit found) room succeeds

def fiveForSeven (votes : Finset Nat) : Deposit Nat (List UInt8) :=
  ⟨depositRequestId plainConfig 7 5 0,7,5,votes,.pending,0,none⟩

def doubled : List (Call Nat (List UInt8) (Nat × (Nat → Nat))) :=
  [.setGlobalMintCap .root 1000,.setGuardiansAndThreshold .root [1,1] 2,
    .attestDeposit (.signed 1) (depositRequestId plainConfig 7 5 0) 7 5 0]

-- Guardians 1 and 2 of three have voted when the set shrinks to the two of them. The cap
-- has no room at that moment, so the re-evaluation leaves the deposit pending, and when
-- the cap is raised nobody is left to attest.
def outgrown : List (Call Nat (List UInt8) (Nat × (Nat → Nat))) :=
  let id := depositRequestId plainConfig 7 5 0
  [.setGuardiansAndThreshold .root [1,2,3] 3,.attestDeposit (.signed 1) id 7 5 0,.attestDeposit (.signed 2) id 7 5 0,
    .setGuardiansAndThreshold .root [1,2] 2,.setGlobalMintCap .root 1000]

-- What a stuck deposit looks like: everything asked of the state holds and no sequence of
-- attestations completes the deposit.
def Stuck (cfg : Config A H B) (s : State A H B) (id : H) : Prop :=
  s.paused = false ∧ ∃ deposit, s.deposits.lookup id = some deposit ∧ deposit.status = .pending ∧
    s.totalMintedByBridge + deposit.amount ≤ s.globalMintCap ∧
    (cfg.mintInto s.accounts deposit.recipient deposit.amount).isSome ∧
    ∀ attestations : List (Call A H B), (∀ call ∈ attestations, call.attestedDeposit.isSome = true) →
      ¬ Completed (run (step cfg) s attestations) id

theorem deposits_stuck :
    Stuck plainConfig (run (step plainConfig) (genesis (0,fun _ => 0)) doubled) (depositRequestId plainConfig 7 5 0) ∧
      Stuck plainConfig (run (step plainConfig) (genesis (0,fun _ => 0)) outgrown) (depositRequestId plainConfig 7 5 0) := by
  constructor
  · refine ⟨rfl,fiveForSeven {1},by rfl,rfl,by decide,rfl,?_⟩
    exact attestations_stuck plainConfig _ (by rfl) rfl (fun attestable => absurd attestable.1 (by decide))
  · refine ⟨rfl,fiveForSeven {2,1},by rfl,rfl,by decide,rfl,?_⟩
    exact attestations_stuck plainConfig _ (by rfl) rfl (fun attestable => absurd attestable.1 (by decide))

def replaced : List (Call Nat (List UInt8) (Nat × (Nat → Nat))) :=
  let id := depositRequestId plainConfig 7 5 0
  [.setGlobalMintCap .root 1000,.setGuardiansAndThreshold .root [1,2,3] 3,.attestDeposit (.signed 1) id 7 5 0,
    .attestDeposit (.signed 2) id 7 5 0,.setGuardiansAndThreshold .root [1,4] 2]

theorem deposits_completable_replaced :
    let s := run (step plainConfig) (genesis (0,fun _ => 0)) replaced
    let id := depositRequestId plainConfig 7 5 0
    s.deposits.lookup id = some (fiveForSeven {2,1}) ∧
      ∃ attestations, (∀ call ∈ attestations, AttestedBy [1,4] id call) ∧ Completed (run (step plainConfig) s attestations) id :=
  ⟨by rfl,(deposits_completable plainConfig (0,fun _ => 0) replaced (depositRequestId plainConfig 7 5 0)
    (fiveForSeven {2,1}) rfl (by rfl) rfl (by decide +kernel) rfl).mpr ⟨⟨4,by decide,by decide⟩,by decide +kernel⟩⟩

end TheBrain.Bridge.Pallet
