import TheBrain.Arion.Settlement
import TheBrain.Marketplace.Reserves

namespace TheBrain.Mainnet
open Library Machine Words PaymentMath

-- The runtime behind Arion: its payout source is the bank, its token price is the
-- price of the credits pallet, and staking locks the payout on the family's account.
structure Config (A N B : Type) [DecidableEq A] where
  marketplace : Marketplace.Config A B
  arion : Arion.Config A N (Marketplace.State A B)
  bond : B → A → Nat → B × Bool
  bond_keeps : ∀ accounts family amount,
    marketplace.bank.freeBalance (bond accounts family amount).1 marketplace.bank.accountId =
      marketplace.bank.freeBalance accounts marketplace.bank.accountId

abbrev State (A N B : Type) := Arion.State A N (Marketplace.State A B)

section
variable {A N B : Type} [DecidableEq A]
variable (cfg : Config A N B)

def requestPayment (world : Marketplace.State A B) (requester dest : A) (amount : Nat) : Marketplace.State A B × Nat :=
  match Bank.requestPayment cfg.marketplace.bank world.bank requester dest amount with
  | .ok (bank,paid) => ({world with bank:=bank},paid)
  | .error _ => (world,0)

def available (world : Marketplace.State A B) : Nat :=
  Bank.availableForPayout cfg.marketplace.bank world.bank - world.totalUndistributedBacking - world.pendingSudoRefunds -
    Bank.emissionAvailable world.bank - Bank.computeEmissionAvailable world.bank

theorem requestPayment_le (world : Marketplace.State A B) (requester dest : A) (amount : Nat) :
    (requestPayment cfg world requester dest amount).2 ≤ amount := by
  unfold requestPayment
  split
  · next ran => exact (Bank.requestPayment_ok ran).1
  · exact Nat.zero_le _

def arionConfig : Arion.Config A N (Marketplace.State A B) :=
  {cfg.arion with
    tokenPriceUsd:=fun world => world.alphaPrice
    available:=available cfg
    requestPayment:=requestPayment cfg
    requestPayment_le:=requestPayment_le cfg
    bond:=fun world family amount =>
      let bonded := cfg.bond world.bank.accounts family amount
      ({world with bank:={world.bank with accounts:=bonded.1}},bonded.2)}

end

-- The calls of the marketplace, the credits pallet and the bank, the settlement, and any
-- change of Arion's own storage between settlements.
inductive Call (A N B : Type) where
  | marketplace (call : Marketplace.Call A B)
  | settleMinerPayments
  | arion (storage : State A N B)

variable {A N B : Type} [DecidableEq A]

def step (cfg : Config A N B) (s : State A N B) :
    Call A N B → State A N B
  | .marketplace call => {s with world:=Marketplace.step cfg.marketplace s.world call}
  | .settleMinerPayments => Arion.settleMinerPayments (arionConfig cfg) s s.blockNumber
  | .arion storage => {storage with world:=s.world}

variable {cfg : Config A N B} {s : State A N B}

def Pays (cfg : Config A N B) (reserve : Nat) (before after : Marketplace.State A B) : Prop :=
  ∃ bank, after = {before with bank:=bank} ∧ Bank.Covers cfg.marketplace.bank reserve bank

theorem Pays.trans (one : Pays cfg more before middle) (two : Bank.Covers cfg.marketplace.bank more middle.bank → Pays cfg reserve middle after) :
    Pays cfg reserve before after := by
  obtain ⟨_,rfl,covers⟩ := one
  obtain ⟨later,rfl,kept⟩ := two covers
  exact ⟨later,rfl,kept⟩

theorem payOut_pays (family : A) (pay : Nat) (covers : Bank.Covers cfg.marketplace.bank (reserve + pay) s.world.bank) :
    Pays cfg reserve s.world (Arion.payOut (arionConfig cfg) s family pay).1.world := by
  unfold Arion.payOut
  split
  · exact ⟨s.world.bank,rfl,Marketplace.covers_mono covers (Nat.le_add_right _ _)⟩
  · change Pays cfg reserve s.world (requestPayment cfg s.world _ family pay).1
    unfold requestPayment
    split
    next bank paid ran =>
      exact ⟨bank,rfl,Marketplace.covers_mono (Bank.requestPayment_covers covers ran) (Nat.le_add_right _ _)⟩
    · exact ⟨s.world.bank,rfl,Marketplace.covers_mono covers (Nat.le_add_right _ _)⟩

theorem bond_pays (world : Marketplace.State A B) (family : A) (amount : Nat)
    (covers : Bank.Covers cfg.marketplace.bank reserve world.bank) :
    Pays cfg reserve world ((arionConfig cfg).bond world family amount).1 := by
  refine ⟨_,rfl,Bank.covers_untouched covers ⟨rfl,rfl,rfl,rfl⟩ ?_⟩
  exact (cfg.bond_keeps world.bank.accounts family amount).ge

theorem payFamily_pays (pool totalDue : Nat) (p : Arion.Payments A N (Marketplace.State A B))
    (entry : A × Word 128)
    (covers : Bank.Covers cfg.marketplace.bank (reserve + proRataWide entry.2 pool totalDue) p.state.world.bank) :
    Pays cfg reserve p.state.world (Arion.payFamily (arionConfig cfg) pool totalDue p entry).state.world := by
  have paid := payOut_pays entry.1 (proRataWide entry.2 pool totalDue) covers
  simp only [Arion.payFamily]
  split
  · exact paid
  · exact paid.trans fun kept => bond_pays _ entry.1 _ kept

theorem payFamilies_pays (pool totalDue : Nat) (entries : List (A × Word 128))
    (p : Arion.Payments A N (Marketplace.State A B))
    (covers : Bank.Covers cfg.marketplace.bank (reserve + (entries.map fun entry => proRataWide entry.2 pool totalDue).sum)
      p.state.world.bank) :
    Pays cfg reserve p.state.world (entries.foldl (Arion.payFamily (arionConfig cfg) pool totalDue) p).state.world := by
  induction entries generalizing p with
  | nil => exact ⟨p.state.world.bank,rfl,covers⟩
  | cons entry _ ih =>
    rw [List.map_cons,List.sum_cons,Nat.add_comm (proRataWide _ _ _),← Nat.add_assoc] at covers
    exact (payFamily_pays pool totalDue p entry covers).trans fun kept => ih _ kept

theorem settleChildren_world (price tokenPrice now : Nat) (entries : List (A × Arion.ChildRegistration A N)) :
    (entries.foldl (Arion.settleChild price tokenPrice now) (s,∅)).1.world = s.world := by
  refine foldl_keeps (fun p : State A N B × StorageMap A (Word 128) => p.1.world = s.world) ?_ entries rfl
  intro p entry same
  rw [Arion.settleChild_eq]
  split
  · exact same
  · exact same

theorem settleMinerPayments_pays (now : Nat) (reserved : Marketplace.Reserved cfg.marketplace s.world) :
    Pays cfg (Marketplace.owedOut s.world) s.world (Arion.settleMinerPayments (arionConfig cfg) s now).world := by
  simp only [Arion.settleMinerPayments]
  split
  · exact ⟨s.world.bank,rfl,reserved.covers⟩
  split
  · exact ⟨s.world.bank,rfl,reserved.covers⟩
  have world := settleChildren_world (s := s) s.minerPriceUsdPerGbBlock ((arionConfig cfg).tokenPriceUsd s.world) now
    (s.childRegistrations.iter (arionConfig cfg).registrationRank)
  generalize List.foldl (Arion.settleChild s.minerPriceUsdPerGbBlock ((arionConfig cfg).tokenPriceUsd s.world) now) (s,∅)
    (s.childRegistrations.iter (arionConfig cfg).registrationRank) = settled at world ⊢
  generalize StorageMap.iter (arionConfig cfg).accountRank (List.foldl Arion.addArrears settled.2
    (settled.1.familyArrears.iter (arionConfig cfg).arrearsRank)) = families
  split
  · rw [world]
    exact ⟨s.world.bank,rfl,reserved.covers⟩
  · have funded : Bank.Covers cfg.marketplace.bank (Marketplace.owedOut s.world + available cfg s.world) settled.1.world.bank := by
      have covers := reserved.covers
      rw [world]
      simp only [Bank.Covers,Marketplace.owedOut,available,Bank.availableForPayout,PaymentMath.available] at covers ⊢
      omega
    have shares := proRataShares_le (families.map fun entry => entry.2.val) (min (available cfg s.world) (maxOf 128)) (by
      intro due mem
      obtain ⟨entry,_,rfl⟩ := List.mem_map.mp mem
      exact entry.2.isLt) (by
      unfold maxOf
      omega)
    rw [List.map_map] at shares
    rw [← world] at shares funded ⊢
    exact payFamilies_pays _ _ families _ (Marketplace.covers_mono funded (Nat.add_le_add_left (shares.trans (Nat.min_le_left _ _)) _))

theorem settle_reserved (now : Nat) (reserved : Marketplace.Reserved cfg.marketplace s.world) :
    Marketplace.Reserved cfg.marketplace (Arion.settleMinerPayments (arionConfig cfg) s now).world := by
  obtain ⟨_,same,covers⟩ := settleMinerPayments_pays now reserved
  rw [same]
  exact ⟨covers,reserved.counted⟩

def Permitted (cfg : Config A N B) (s : State A N B) : Call A N B → Prop
  | .marketplace call => Marketplace.Permitted cfg.marketplace s.world call
  | .settleMinerPayments | .arion _ => True

theorem step_reserved (s : State A N B) (call : Call A N B)
    (reserved : Marketplace.Reserved cfg.marketplace s.world) (permitted : Permitted cfg s call) :
    Marketplace.Reserved cfg.marketplace (step cfg s call).world := by
  cases call with
  | marketplace call => exact Marketplace.step_reserved call permitted reserved
  | settleMinerPayments => exact settle_reserved s.blockNumber reserved
  | arion => exact reserved

theorem bank_solvent (cfg : Config A N B) (s : State A N B)
    (calls : List (Call A N B)) (solvent : Marketplace.Solvent cfg.marketplace s.world)
    (counted : Marketplace.BackingCounted s.world) (permitted : Throughout (step cfg) (Permitted cfg) s calls) :
    Marketplace.Solvent cfg.marketplace (run (step cfg) s calls).world := by
  have start : Marketplace.Reserved cfg.marketplace s.world := ⟨Marketplace.solvent_iff.mp solvent,counted⟩
  have kept := run_invariant (fun s => Marketplace.Reserved cfg.marketplace s.world) step_reserved start permitted
  exact Marketplace.solvent_iff.mpr kept.covers

def plainConfig : Config Nat Nat (Nat → Nat) where
  marketplace := Marketplace.plainConfig
  arion := {Arion.plainConfig with
    accountId:=9
    isRegisteredFamily:=fun _ _ => true
    canRegisterChild:=fun _ _ _ => true
    primaryAccount:=fun _ _ => none
    registeredNodeType:=fun _ _ => some .validator
    unregisterMainNode:=fun world _ => world
    reserve:=fun world _ _ => some world
    unreserve:=fun world _ _ => (world,0)
    tokenPriceUsd:=fun _ => 0
    available:=fun _ => 0
    requestPayment:=fun world _ _ _ => (world,0)
    requestPayment_le:=fun _ _ _ amount => Nat.zero_le amount
    bond:=fun world _ _ => (world,true)}
  bond := fun accounts _ _ => (accounts,true)
  bond_keeps := fun _ _ _ => rfl

-- A frozen deposit backed by the sudo account 7, an emission deposit, a settlement that
-- owes a family far more than the bank may spend, and a chargeback of the deposit.
def overdrawn : List (Call Nat Nat (Nat → Nat)) :=
  [ .marketplace (.addAuthority .root 5),.marketplace (.setSudoKey .root 7),
    .marketplace (.setAlphaPrice (.signed 5) 1000000000000000000),
    .marketplace (.deposit (.signed 5) 1 100 40 true none),.marketplace (.bank (.deposit (.signed 7) 30 .emission)),
    .arion {Arion.genesis (Marketplace.genesis Bank.opened) with
      minerPriceUsdPerGbBlock:=1,familyArrears:=AList.insert 1 1000 ∅},
    .settleMinerPayments,.marketplace (.chargeback .root 0)]

theorem bank_solvent_overdrawn :
    Marketplace.Solvent plainConfig.marketplace (Marketplace.genesis Bank.opened) ∧
      Bank.balance Bank.plainConfig (run (step plainConfig) (Arion.genesis (Marketplace.genesis Bank.opened)) overdrawn).world.bank = 31 ∧
      Marketplace.Solvent plainConfig.marketplace
        (run (step plainConfig) (Arion.genesis (Marketplace.genesis Bank.opened)) overdrawn).world := by
  have start : Marketplace.Solvent plainConfig.marketplace (Marketplace.genesis Bank.opened) := by
    unfold Marketplace.Solvent
    decide +kernel
  refine ⟨start,by decide +kernel,bank_solvent plainConfig _ overdrawn start (Nat.le_refl 0) ?_⟩
  refine ⟨trivial,trivial,trivial,?_,?_,trivial,trivial,trivial,trivial⟩
  · exact ⟨by decide +kernel,by decide +kernel⟩
  · exact (by decide : (Origin.signed 7 : Origin Nat) ≠ .signed 0)

def uncounted : Marketplace.State Nat (Nat → Nat) :=
  {Marketplace.genesis (Bank.genesis (fun who => if who = 0 then 1 else 0) ∅) with
    batches:=AList.insert 0 ⟨1,0,100,0,100,0,true,10⟩ ∅,nextBatchId:=1}

theorem bank_insolvent :
    Marketplace.Solvent plainConfig.marketplace uncounted ∧
      Throughout (step plainConfig) (Permitted plainConfig) (Arion.genesis uncounted) [.marketplace (.chargeback .root 0)] ∧
      ¬ Marketplace.Solvent plainConfig.marketplace
        (run (step plainConfig) (Arion.genesis uncounted) [.marketplace (.chargeback .root 0)]).world := by
  refine ⟨?_,⟨trivial,trivial⟩,?_⟩ <;> unfold Marketplace.Solvent <;> decide +kernel

end TheBrain.Mainnet
