import TheBrain.Arion.Enrolment
import TheBrain.Arion.Settlement
import TheBrain.Library.Groups

namespace TheBrain.Arion
open Library Machine Words Groups Function List

variable {A N W : Type} [DecidableEq A]
variable {cfg : Config A N W} {s t u : State A N W}

theorem swapRemove_perm (children : List A) (child : A) : (swapRemove children child).Perm (children.erase child) := by
  rw [erase_eq_eraseIdx]
  unfold swapRemove
  cases found : children.idxOf? child with
  | none => exact .refl _
  | some =>
    obtain ⟨mem,_⟩ := idxOf?_eq_some_iff.mp found
    rcases eq_nil_or_concat children with rfl | ⟨front,last,rfl⟩
    · cases mem
    · rw [concat_eq_append] at mem ⊢
      rw [getLast?_concat]
      exact setLast_perm front last mem

def familyOf (reg : ChildRegistration A N) : Option A :=
  if reg.status = .active then some reg.family else none

def nodeOf (reg : ChildRegistration A N) : Option N := if reg.status = .active then some reg.nodeId else none

structure FamiliesConsistent (cfg : Config A N W) (v : RegistryView A N) : Prop where
  kept : Kept familyOf nodeOf v.registrations v.children v.nodes v.count v.total
  active : ∀ f, (v.active f).getD 0 = (v.children f).length
  total : v.total ≤ cfg.maxChildrenTotal
  families : v.count ≤ cfg.maxFamilies

theorem genesis_families (cfg : Config A N W) (world : W) :
    FamiliesConsistent cfg (registryOf (genesis world : State A N W)) where
  kept := kept_empty familyOf nodeOf
  active _ := rfl
  total := Nat.zero_le _
  families := Nat.zero_le _

theorem registers_consistent [DecidableEq N] (narrow : cfg.maxChildrenTotal < 2 ^ 32) (change : Registers cfg family child nodeId deposit s t)
    (consistent : FamiliesConsistent cfg (registryOf s)) : FamiliesConsistent cfg (registryOf t) := by
  obtain ⟨kept,active,total,families⟩ := consistent
  dsimp only [registryOf] at kept active total families
  have size : activeChildrenOf s family = (s.familyChildren family).length := active family
  have room := change.room
  have shares := kept.counted.le family
  have groups := kept.counted.groups_le
  have totalled : t.totalActiveChildren = s.totalActiveChildren + 1 := by
    rw [change.total]
    exact saturatingAdd_exact (by omega)
  have numbered : t.familyCount = if s.familyChildren family = [] then s.familyCount + 1 else s.familyCount := by
    rw [change.count,size,saturatingAdd_exact (by omega)]
    simp only [length_eq_zero_iff]
  constructor
  case kept =>
    dsimp only [registryOf]
    rw [change.registrations,change.children,change.nodes,numbered,totalled]
    exact kept.join change.fresh change.unmapped (if_pos rfl) (if_pos rfl)
  case active =>
    intro f
    dsimp only [registryOf]
    rw [change.active,change.children,update_apply,update_apply]
    split
    · rw [length_append,size]
      exact saturatingAdd_exact (by omega)
    · exact active f
  case total =>
    dsimp only [registryOf]
    omega
  case families =>
    dsimp only [registryOf]
    rw [numbered]
    split
    next empty =>
      have none : activeChildrenOf s family = 0 := by rw [size,empty,length_nil]
      exact change.roomForFamily.resolve_left (not_not.mpr none)
    · exact families

theorem retires_consistent [DecidableEq N] (change : Retires child reg s t) (consistent : FamiliesConsistent cfg (registryOf s)) :
    FamiliesConsistent cfg (registryOf t) := by
  obtain ⟨kept,active,total,families⟩ := consistent
  dsimp only [registryOf] at kept active total families
  obtain ⟨unbondingEnd,registrations⟩ := change.registrations
  have belongs : familyOf reg = some reg.family := if_pos change.status
  have size : activeChildrenOf s reg.family = (s.familyChildren reg.family).length := active reg.family
  have mem : child ∈ s.familyChildren reg.family := (kept.listed.member reg.family child).mpr ⟨reg,change.found,belongs⟩
  have shrinks := length_erase_of_mem mem
  obtain ⟨rest,perm,children⟩ : ∃ rest, rest.Perm ((s.familyChildren reg.family).erase child) ∧
      t.familyChildren = update s.familyChildren reg.family rest := by
    refine ⟨_,?_,change.children⟩
    split
    next last =>
      rw [size,← shrinks,length_eq_zero_iff] at last
      rw [last]
    · exact swapRemove_perm _ child
  have left : rest.length = activeChildrenOf s reg.family - 1 := by rw [perm.length_eq,shrinks,size]
  constructor
  case kept =>
    have leaves := kept.leave change.found belongs (if_pos change.status)
      (vacates_insert (w := {reg with status:=.unbonding,unbondingEnd:=unbondingEnd}) child _ rfl) (vacates_insert child _ rfl) perm
    simp only [← length_eq_zero_iff (l := rest),left] at leaves
    dsimp only [registryOf]
    rw [registrations,children,change.nodes,change.count,change.total]
    exact leaves
  case active =>
    intro f
    dsimp only [registryOf]
    rw [change.active,children,update_apply,update_apply]
    split
    · rw [left]
      split
      · next last => exact last.symm
      · rfl
    · exact active f
  case total =>
    dsimp only [registryOf]
    rw [change.total]
    omega
  case families =>
    dsimp only [registryOf]
    rw [change.count]
    split
    · omega
    · exact families

theorem claims_consistent (change : Claims cfg child reg s t) (consistent : FamiliesConsistent cfg (registryOf s)) :
    FamiliesConsistent cfg (registryOf t) := by
  obtain ⟨kept,active,total,families⟩ := consistent
  have idle : ∀ row, s.childRegistrations.lookup child = some row → row.status ≠ .active := by
    intro row held
    rw [change.found] at held
    cases held
    rw [change.status]
    exact nofun
  rw [show registryOf t = _ from change.registry]
  refine ⟨kept.forget (vacates_erase _ child _) (vacates_erase _ child _) ?_,active,total,families⟩
  intro row held
  exact ⟨if_neg (idle row held),if_neg (idle row held)⟩

-- Removing a family: in the loop its list is what is still to be removed.
structure Rostered (v : RegistryView A N) (lists : A → List A) : Prop where
  listed : Listed familyOf v.registrations lists
  named : Named nodeOf v.registrations v.nodes

theorem FamiliesConsistent.rostered (consistent : FamiliesConsistent cfg (registryOf s)) :
    Rostered (registryOf s) s.familyChildren := ⟨consistent.kept.listed,consistent.kept.named⟩

structure Emptying (s : State A N W) (family : A) (rest : List A)
    (u : State A N W) : Prop where
  rostered : Rostered (registryOf u) (update s.familyChildren family rest)
  children : u.familyChildren = update s.familyChildren family []
  active : u.familyActiveChildren = s.familyActiveChildren
  count : u.familyCount = s.familyCount
  total : u.totalActiveChildren - rest.length = s.totalActiveChildren - (s.familyChildren family).length

theorem emptying_start (rostered : Rostered (registryOf s) s.familyChildren) (family : A) :
    Emptying s family (s.familyChildren family) {s with familyChildren:=update s.familyChildren family []} where
  rostered := by
    rw [update_eq_self]
    exact ⟨rostered.listed,rostered.named⟩
  children := rfl
  active := rfl
  count := rfl
  total := rfl

theorem Emptying.registered (emptying : Emptying s family (miner :: rest) u) :
    ∃ reg, u.childRegistrations.lookup miner = some reg ∧ reg.status = .active ∧ reg.family = family := by
  have mem : miner ∈ update s.familyChildren family (miner :: rest) family := by
    rw [update_self]
    exact mem_cons_self ..
  obtain ⟨reg,found,belongs⟩ := (emptying.rostered.listed.member family miner).mp mem
  simp only [familyOf,Option.ite_none_right_eq_some,Option.some.injEq] at belongs
  exact ⟨reg,found,belongs⟩

variable [DecidableEq N]

theorem Emptying.removes (emptying : Emptying s family (miner :: rest) u) (ran : removeMiner cfg family u miner = .ok t) :
    Emptying s family rest t := by
  obtain ⟨_,change⟩ := removeMiner_ok ran
  obtain ⟨_,found,active,belongs⟩ := emptying.registered
  rw [change.found] at found
  cases found
  have kept : rest.Perm ((update s.familyChildren family (miner :: rest) family).erase miner) := by
    rw [update_self,erase_cons_head]
  have listed := emptying.rostered.listed.leave change.found (belongs ▸ if_pos active)
    (vacates_erase _ miner _) kept
  constructor
  case rostered =>
    constructor
    · rw [update_idem] at listed
      dsimp only [registryOf] at listed ⊢
      rw [change.registrations]
      exact listed
    · have named := emptying.rostered.named.leave change.found (if_pos active) (vacates_erase _ miner _)
      dsimp only [registryOf] at named ⊢
      rw [change.registrations,change.nodes]
      exact named
  case children => exact change.children.trans emptying.children
  case active => exact change.active.trans emptying.active
  case count => exact change.count.trans emptying.count
  case total =>
    have total := emptying.total
    rw [length_cons] at total
    rw [change.total]
    omega

theorem removes_consistent (known : s.familyActiveChildren family = some active)
    (loop : (s.familyChildren family).foldlM (removeMiner cfg family)
      {s with familyChildren:=update s.familyChildren family []} = .ok removed)
    (consistent : FamiliesConsistent cfg (registryOf s)) : FamiliesConsistent cfg (registryOf (closeFamily removed family active)) := by
  have emptied := foldlM_down (Emptying s family) (fun _ _ _ _ emptying ran => emptying.removes ran) _
    (emptying_start consistent.rostered family) loop
  obtain ⟨kept,size,total,families⟩ := consistent
  dsimp only [registryOf] at kept size total families
  have lists : (closeFamily removed family active).familyChildren = update s.familyChildren family [] := by
    dsimp only [closeFamily]
    rw [emptied.children,update_idem]
  have remaining : removed.totalActiveChildren = s.totalActiveChildren - (s.familyChildren family).length := by
    have total := emptied.total
    rwa [length_nil] at total
  have own : active = (s.familyChildren family).length := by
    have own := size family
    rwa [known] at own
  have closes := kept.counted.close family
  constructor
  case kept =>
    have numbered : (closeFamily removed family active).familyCount =
        if s.familyChildren family = [] then s.familyCount else s.familyCount - 1 := by
      dsimp only [closeFamily]
      rw [emptied.count,own]
      by_cases empty : s.familyChildren family = []
      · rw [if_pos empty,if_neg (by rw [empty]; exact Nat.lt_irrefl 0)]
      · rw [if_neg empty,if_pos (length_pos_iff.mpr empty)]
    dsimp only [registryOf]
    rw [lists,numbered]
    exact ⟨emptied.rostered.listed,emptied.rostered.named,remaining ▸ closes⟩
  case active =>
    intro f
    dsimp only [registryOf]
    rw [lists]
    dsimp only [closeFamily]
    rw [emptied.active,update_apply,update_apply]
    split
    · rfl
    · exact size f
  case total =>
    have left : removed.totalActiveChildren ≤ s.totalActiveChildren := remaining ▸ Nat.sub_le _ _
    exact left.trans total
  case families =>
    dsimp only [registryOf,closeFamily]
    rw [emptied.count]
    split
    · omega
    · exact families

section
variable (narrow : cfg.maxChildrenTotal < 2 ^ 32)
include narrow

theorem change_consistent (change : Change cfg s call t)
    (consistent : FamiliesConsistent cfg (registryOf s)) : FamiliesConsistent cfg (registryOf t) := by
  cases change with
  | registers change => exact registers_consistent narrow change consistent
  | retires change | forces change => exact retires_consistent change consistent
  | claims change => exact claims_consistent change consistent
  | absent => exact consistent
  | removes known loop => exact removes_consistent known loop consistent
  | aside _ same =>
    rw [show registryOf t = registryOf s from same]
    exact consistent

theorem step_consistent (call : Call A N W)
    (consistent : FamiliesConsistent cfg (registryOf s)) : FamiliesConsistent cfg (registryOf (step cfg s call)) :=
  commit_inv (fun t => FamiliesConsistent cfg (registryOf t)) consistent
    fun _ ran => change_consistent narrow (dispatch_change call ran) consistent

theorem run_consistent (world : W) (calls : List (Call A N W)) :
    FamiliesConsistent cfg (registryOf (run (step cfg) (genesis world) calls)) :=
  run_always (fun s => FamiliesConsistent cfg (registryOf s)) (fun _ call => step_consistent narrow call)
    (genesis_families cfg world)

end

theorem deregisterFamily_error (rostered : Rostered (registryOf s) s.familyChildren)
    (failed : deregisterFamily cfg s family = .error e) : e = .partialUnreserve := by
  have each : ∀ u miner rest t, Emptying s family (miner :: rest) u → removeMiner cfg family u miner = .ok t →
      Emptying s family rest t := fun _ _ _ _ emptying ran => emptying.removes ran
  have errs : ∀ u miner rest e, Emptying s family (miner :: rest) u → removeMiner cfg family u miner = .error e →
      e = .partialUnreserve := by
    intro u miner rest e emptying failed
    obtain ⟨_,found,_⟩ := emptying.registered
    rcases removeMiner_error failed with ⟨_,missing⟩ | ⟨_,_,short,_⟩
    · rw [missing] at found
      cases found
    · exact short
  unfold deregisterFamily at failed
  split at failed
  · cases failed
  · simp only [bind_error] at failed
    rcases failed with loop | ⟨_,_,impossible⟩
    · exact foldlM_fails (Emptying s family) each (· = .partialUnreserve) errs _ (emptying_start rostered family) loop
    · cases impossible

theorem families_consistent (cfg : Config A N W) (narrow : cfg.maxChildrenTotal < 2 ^ 32) (world : W)
    (calls : List (Call A N W)) :
    let s := run (step cfg) (genesis world) calls
    (∀ f, activeChildrenOf s f = (s.familyChildren f).length ∧ (s.familyChildren f).Nodup ∧
      ∀ child, child ∈ s.familyChildren f ↔
        ∃ reg, s.childRegistrations.lookup child = some reg ∧ reg.status = .active ∧ reg.family = f) ∧
    (∃ present : List A, present.Nodup ∧ (∀ f, f ∈ present ↔ s.familyChildren f ≠ []) ∧
      s.familyCount = present.length ∧ s.totalActiveChildren = (present.map fun f => (s.familyChildren f).length).sum) ∧
    s.totalActiveChildren ≤ cfg.maxChildrenTotal ∧ s.familyCount ≤ cfg.maxFamilies ∧
    (∀ node child, s.nodeIdToChild node = some child ↔
      ∃ reg, s.childRegistrations.lookup child = some reg ∧ reg.status = .active ∧ reg.nodeId = node) ∧
    ∀ family, dispatch cfg s (.deregisterFamily family) ≠ .error .childNotRegistered := by
  intro s
  have consistent : FamiliesConsistent cfg (registryOf s) := run_consistent narrow world calls
  refine ⟨?_,consistent.kept.counted,consistent.total,consistent.families,?_,?_⟩
  · intro f
    refine ⟨consistent.active f,consistent.kept.listed.distinct f,?_⟩
    intro child
    have member := consistent.kept.listed.member f child
    simp only [familyOf,Option.ite_none_right_eq_some,Option.some.injEq] at member
    exact member
  · intro node child
    have named := consistent.kept.named node child
    simp only [nodeOf,Option.ite_none_right_eq_some,Option.some.injEq] at named
    exact named
  · intro family failed
    have short := deregisterFamily_error consistent.rostered failed
    cases short

def twoFamilies : List (Call Nat Nat Nat) :=
  [.registerChild (.signed 1) 1 11 5 [],.registerChild (.signed 2) 2 21 6 [],.deregisterChild (.signed 1) 11]

theorem families_consistent_two :
    (run (step plainConfig) (genesis 0) twoFamilies).familyChildren 2 = [21] ∧
      (run (step plainConfig) (genesis 0) twoFamilies).familyCount ≤ plainConfig.maxFamilies :=
  ⟨by decide +kernel,(families_consistent plainConfig (by decide) 0 twoFamilies).2.2.2.1⟩

open StorageMap
variable {reserved : W → A → Nat} {after : W}

section
omit [DecidableEq N]

-- What the currency promises: a reserve moves exactly the amount, a release as much of it
-- as is there, and it returns the rest. Unregistering a node moves no reserve.
structure Reserving (cfg : Config A N W) (reserved : W → A → Nat) : Prop where
  reserve : ∀ world who amount next, cfg.reserve world who amount = some next →
    ∀ a, reserved next a = reserved world a + if a = who then amount else 0
  unreserve : ∀ world who amount a, reserved (cfg.unreserve world who amount).1 a = reserved world a - if a = who then amount else 0
  remainder : ∀ world who amount, (cfg.unreserve world who amount).2 = amount - reserved world who
  unregister : ∀ world who a, reserved (cfg.unregisterMainNode world who) a = reserved world a

def depositFor (family : A) (_ : A) (reg : ChildRegistration A N) : Nat :=
  if family = reg.family then reg.deposit else 0

def depositsOf (s : State A N W) (family : A) : Nat :=
  StorageMap.total (depositFor family) s.childRegistrations

def Balanced (reserved : W → A → Nat) (s t : State A N W) : Prop :=
  ∀ a, reserved t.world a + depositsOf s a = reserved s.world a + depositsOf t a

theorem Balanced.trans (one : Balanced reserved s t) (two : Balanced reserved t u) : Balanced reserved s u := by
  intro a
  have first := one a
  have second := two a
  omega

theorem reserves_moves (laws : Reserving cfg reserved) (reserves : Reserves cfg family deposit before after) (a : A) :
    reserved after a = reserved before a + if a = family then deposit else 0 := by
  rcases reserves with ⟨rfl,rfl⟩ | taken
  · rw [ite_self,Nat.add_zero]
  · exact laws.reserve before family deposit after taken a

theorem releases_moves (laws : Reserving cfg reserved) (releases : Releases cfg family deposit before after) (a : A) :
    reserved after a + (if a = family then deposit else 0) = reserved before a := by
  rcases releases with ⟨rfl,rfl⟩ | given
  · rw [ite_self,Nat.add_zero]
  · have moved := laws.unreserve before family deposit a
    have whole := laws.remainder before family deposit
    rw [given] at moved whole
    rw [moved]
    split
    next own =>
      subst own
      omega
    · exact Nat.sub_zero _

theorem claims_balanced (laws : Reserving cfg reserved) (change : Claims cfg child reg s t) : Balanced reserved s t := by
  intro a
  have moved := releases_moves laws change.releases a
  have recorded := total_erase (depositFor a) _ change.found
  unfold depositsOf
  rw [change.registry.registrations]
  dsimp only [depositFor] at recorded ⊢
  omega

def EmptyingBalanced (reserved : W → A → Nat) (s : State A N W) (family : A)
    (rest : List A) (u : State A N W) : Prop := Emptying s family rest u ∧ Balanced reserved s u

theorem emptyingBalanced_start (rostered : Rostered (registryOf s) s.familyChildren) (family : A) :
    EmptyingBalanced reserved s family (s.familyChildren family)
      {s with familyChildren:=update s.familyChildren family []} := ⟨emptying_start rostered family,fun _ => rfl⟩

end

theorem registers_balanced (laws : Reserving cfg reserved) (change : Registers cfg family child nodeId deposit s t) :
    Balanced reserved s t := by
  intro a
  have moved := reserves_moves laws change.reserves a
  have recorded : depositsOf t a = depositsOf s a + if a = family then deposit else 0 := by
    unfold depositsOf
    rw [change.registrations,total_create _ _ change.fresh]
    rfl
  omega

theorem retires_balanced (change : Retires child reg s t) (outside : ∀ a, reserved t.world a = reserved s.world a) :
    Balanced reserved s t := by
  intro a
  obtain ⟨unbondingEnd,registrations⟩ := change.registrations
  have recorded := total_replace (v := {reg with status:=.unbonding,unbondingEnd:=unbondingEnd}) (depositFor a) _
    change.found
  rw [outside a]
  unfold depositsOf
  rw [registrations]
  dsimp only [depositFor] at recorded ⊢
  omega

theorem removeMiner_balanced (laws : Reserving cfg reserved) (emptying : Emptying s family (miner :: rest) u)
    (ran : removeMiner cfg family u miner = .ok t) : Balanced reserved u t := by
  intro a
  obtain ⟨_,change⟩ := removeMiner_ok ran
  obtain ⟨_,found,_,rfl⟩ := emptying.registered
  rw [change.found] at found
  cases found
  have moved := releases_moves laws change.releases a
  have recorded := total_erase (depositFor a) _ change.found
  unfold depositsOf
  rw [change.registrations]
  dsimp only [depositFor] at recorded ⊢
  omega

theorem emptyingBalanced_removes (laws : Reserving cfg reserved) (u : State A N W) (miner : A)
    (rest : List A) (t : State A N W) (before : EmptyingBalanced reserved s family (miner :: rest) u)
    (ran : removeMiner cfg family u miner = .ok t) : EmptyingBalanced reserved s family rest t :=
  ⟨before.1.removes ran,before.2.trans (removeMiner_balanced laws before.1 ran)⟩

theorem change_balanced (laws : Reserving cfg reserved) (rostered : Rostered (registryOf s) s.familyChildren)
    (change : Change cfg s call t) (own : enrols call = true) : Balanced reserved s t := by
  cases change with
  | registers change => exact registers_balanced laws change
  | retires change outside =>
    refine retires_balanced change ?_
    intro a
    rw [outside]
  | forces change outside =>
    refine retires_balanced change ?_
    intro a
    rcases outside with same | unregistered
    · rw [same]
    · rw [unregistered]
      exact laws.unregister _ _ a
  | claims change => exact claims_balanced laws change
  | absent =>
    intro a
    rfl
  | removes _ loop =>
    exact (foldlM_down _ (emptyingBalanced_removes laws) _ (emptyingBalanced_start rostered _) loop).2
  | aside other =>
    rw [own] at other
    cases other

theorem aside_deposits (change : Change cfg s call t) (other : enrols call = false) (a : A) :
    depositsOf t a = depositsOf s a := by
  cases change with
  | aside _ same => exact congrArg (total (depositFor a)) same.registrations
  | registers | retires | forces | claims | absent | removes => cases other

section
omit [DecidableEq A] [DecidableEq N]

def reserveMoves (reserved : W → A → Nat) (cfg : Config A N W) (s : State A N W) (call : Call A N W) : List (A → Int) :=
  if enrols call then [fun a => (reserved (step cfg s call).world a : Int) - reserved s.world a] else []

def heldFor (log : List (A → Int)) (family : A) : Int := (log.map fun moved => moved family).sum

theorem heldFor_append (one two : List (A → Int)) (family : A) :
    heldFor (one ++ two) family = heldFor one family + heldFor two family := by
  rw [heldFor,List.map_append,List.sum_append]
  rfl

def Held (cfg : Config A N W) (p : State A N W × List (A → Int)) : Prop :=
  FamiliesConsistent cfg (registryOf p.1) ∧ ∀ family, heldFor p.2 family = depositsOf p.1 family

end

theorem step_balanced (laws : Reserving cfg reserved) (rostered : Rostered (registryOf s) s.familyChildren)
    (call : Call A N W) (own : enrols call = true) : Balanced reserved s (step cfg s call) :=
  commit_inv (Balanced reserved s) (fun _ => rfl) fun _ ran => change_balanced laws rostered (dispatch_change call ran) own

theorem step_aside (call : Call A N W) (other : enrols call = false) (a : A) :
    depositsOf (step cfg s call) a = depositsOf s a :=
  commit_inv (fun t => depositsOf t a = depositsOf s a) rfl fun _ ran => aside_deposits (dispatch_change call ran) other a

theorem recording_held (laws : Reserving cfg reserved) (narrow : cfg.maxChildrenTotal < 2 ^ 32)
    (p : State A N W × List (A → Int)) (call : Call A N W) (before : Held cfg p) :
    Held cfg (recording (step cfg) (reserveMoves reserved cfg) p call) := by
  obtain ⟨consistent,held⟩ := before
  refine ⟨step_consistent narrow call consistent,?_⟩
  intro family
  dsimp only [recording,reserveMoves]
  rw [heldFor_append,held family]
  cases own : enrols call with
  | true =>
    have balanced := step_balanced laws consistent.rostered call own family
    simp only [if_true,heldFor,List.map_cons,List.map_nil,List.sum_cons,List.sum_nil]
    omega
  | false =>
    rw [step_aside call own family]
    exact Int.add_zero _

section
omit [DecidableEq N]

def Undisturbed (reserved : W → A → Nat) (cfg : Config A N W) (s : State A N W) (call : Call A N W) : Prop :=
  enrols call = false → ∀ a, reserved s.world a ≤ reserved (step cfg s call).world a

structure Covered (reserved : W → A → Nat) (cfg : Config A N W)
    (s : State A N W) : Prop where
  consistent : FamiliesConsistent cfg (registryOf s)
  covered : ∀ a, depositsOf s a ≤ reserved s.world a

theorem Balanced.covers (balanced : Balanced reserved s t) (covered : ∀ a, depositsOf s a ≤ reserved s.world a) (a : A) :
    depositsOf t a ≤ reserved t.world a := by
  have before := covered a
  have moved := balanced a
  omega

end

theorem step_covered (laws : Reserving cfg reserved) (narrow : cfg.maxChildrenTotal < 2 ^ 32)
    (call : Call A N W) (before : Covered reserved cfg s) (undisturbed : Undisturbed reserved cfg s call) :
    Covered reserved cfg (step cfg s call) := by
  refine ⟨step_consistent narrow call before.consistent,?_⟩
  cases own : enrols call with
  | true => exact (step_balanced laws before.consistent.rostered call own).covers before.covered
  | false =>
    intro a
    rw [step_aside call own a]
    exact (before.covered a).trans (undisturbed own a)

section
omit [DecidableEq N]

theorem deposit_le (found : s.childRegistrations.lookup child = some reg) : reg.deposit ≤ depositsOf s reg.family := by
  have mem := StorageMap.le_total (depositFor reg.family) _ found
  rwa [depositFor,if_pos rfl] at mem

theorem release_whole (laws : Reserving cfg reserved) (covered : ∀ a, depositsOf s a ≤ reserved s.world a)
    (found : s.childRegistrations.lookup child = some reg) : (cfg.unreserve s.world reg.family reg.deposit).2 = 0 := by
  rw [laws.remainder]
  exact Nat.sub_eq_zero_of_le ((deposit_le found).trans (covered reg.family))

end

theorem deregisterFamily_covered (laws : Reserving cfg reserved) (before : Covered reserved cfg s) (family : A) :
    deregisterFamily cfg s family ≠ .error .partialUnreserve := by
  have errs : ∀ u miner rest e, EmptyingBalanced reserved s family (miner :: rest) u →
      removeMiner cfg family u miner = .error e → e = .childNotRegistered := by
    intro u miner rest e ⟨emptying,balanced⟩ failed
    obtain ⟨_,found,_,rfl⟩ := emptying.registered
    rcases removeMiner_error failed with ⟨missing,_⟩ | ⟨_,same,_,_,short⟩
    · exact missing
    · rw [found] at same
      cases same
      exact absurd (release_whole laws (balanced.covers before.covered) found) short
  intro failed
  unfold deregisterFamily at failed
  split at failed
  · cases failed
  · simp only [bind_error] at failed
    rcases failed with loop | ⟨_,_,impossible⟩
    · have other := foldlM_fails _ (emptyingBalanced_removes laws) (· = .childNotRegistered) errs _
        (emptyingBalanced_start before.consistent.rostered family) loop
      cases other
    · cases impossible

section
omit [DecidableEq N]

theorem claimUnbonded_covered (laws : Reserving cfg reserved) (before : Covered reserved cfg s) (origin : Origin A)
    (child : A) : claimUnbonded cfg s origin child ≠ .error .partialUnreserve := by
  intro failed
  simp only [claimUnbonded,bind_error,okOr_error,okOr_ok,ensure_error,ensure_ok,exists_unit,reduceCtorEq,and_false,false_or,
    or_false,exists_false] at failed
  obtain ⟨_,_,_,found,_,_,_,short⟩ := failed
  exact (releaseDeposit_error short).2.2 (release_whole laws before.covered found)

theorem depositsOf_none (none : ∀ child reg, s.childRegistrations.lookup child = some reg → reg.family ≠ family) :
    depositsOf s family = 0 := by
  have same := total_congr (depositFor family) (fun _ _ => 0) s.childRegistrations
    fun child reg found => if_neg (Ne.symm (none child reg found))
  rw [depositsOf,same,total,List.map_const',List.sum_replicate]
  rfl

end

theorem deposits_reserved (cfg : Config A N W) (reserved : W → A → Nat) (laws : Reserving cfg reserved)
    (narrow : cfg.maxChildrenTotal < 2 ^ 32) (world : W) (calls : List (Call A N W)) :
    let p := run (recording (step cfg) (reserveMoves reserved cfg)) (genesis world,[]) calls
    p.1 = run (step cfg) (genesis world) calls ∧
    (∀ family, heldFor p.2 family = depositsOf p.1 family) ∧
    (∀ family, (∀ child reg, p.1.childRegistrations.lookup child = some reg → reg.family ≠ family) → heldFor p.2 family = 0) ∧
    (∀ origin child t, dispatch cfg p.1 (.claimUnbonded origin child) = .ok t →
      ∃ reg, p.1.childRegistrations.lookup child = some reg ∧ t.childRegistrations.lookup child = none ∧
        reserved t.world reg.family + reg.deposit = reserved p.1.world reg.family) ∧
    (Throughout (step cfg) (Undisturbed reserved cfg) (genesis world) calls →
      (∀ family, depositsOf p.1 family ≤ reserved p.1.world family) ∧
      (∀ origin child, dispatch cfg p.1 (.claimUnbonded origin child) ≠ .error .partialUnreserve) ∧
      ∀ family, dispatch cfg p.1 (.deregisterFamily family) ≠ .error .partialUnreserve) := by
  intro p
  have same : p.1 = run (step cfg) (genesis world) calls := run_recording_fst _ _ _ calls
  have held : Held cfg p := run_always (Held cfg) (recording_held laws narrow) ⟨genesis_families cfg world,fun _ => rfl⟩
  refine ⟨same,held.2,?_,?_,?_⟩
  · intro family none
    rw [held.2 family,depositsOf_none none]
    rfl
  · intro origin child t ran
    obtain ⟨reg,change⟩ := claimUnbonded_ok ran
    refine ⟨reg,change.found,?_,?_⟩
    · rw [change.registry.registrations]
      exact AList.lookup_erase _ _
    · have moved := releases_moves laws change.releases reg.family
      rwa [if_pos rfl] at moved
  · intro undisturbed
    have covered : Covered reserved cfg p.1 := by
      rw [same]
      exact run_invariant (Covered reserved cfg) (fun s call => step_covered laws narrow call)
        ⟨genesis_families cfg world,fun a => Nat.zero_le _⟩ undisturbed
    exact ⟨covered.covered,claimUnbonded_covered laws covered,deregisterFamily_covered laws covered⟩

def vaultConfig : Config Nat Nat (Nat → Nat) :=
  {plainConfig with
    isRegisteredFamily:=fun _ _ => true
    canRegisterChild:=fun _ _ _ => true
    primaryAccount:=fun _ _ => none
    registeredNodeType:=fun _ _ => some .validator
    unregisterMainNode:=fun vault _ => vault
    reserve:=fun vault who amount => some (update vault who (vault who + amount))
    unreserve:=fun vault who amount => (update vault who (vault who - amount),amount - vault who)
    tokenPriceUsd:=fun _ => 0
    available:=fun _ => 0
    requestPayment:=fun vault _ _ _ => (vault,0)
    requestPayment_le:=fun _ _ _ _ => Nat.zero_le _
    bond:=fun vault _ _ => (vault,true)}

theorem vaultConfig_reserving : Reserving vaultConfig fun vault a => vault a where
  reserve := by
    intro vault who amount next taken a
    cases taken
    rw [update_apply]
    split
    · next own => rw [own]
    · rfl
  unreserve := by
    intro vault who amount a
    dsimp only [vaultConfig]
    rw [update_apply]
    split
    · next own => rw [own]
    · rfl
  remainder _ _ _ := rfl
  unregister _ _ _ := rfl

def paidChild : List (Call Nat Nat (Nat → Nat)) :=
  [.setLockupEnabled .root true,.registerChild (.signed 1) 1 11 5 [],.registerChild (.signed 1) 1 12 6 [],
   .setLockupEnabled .root false,.deregisterChild (.signed 1) 12]

theorem deposits_reserved_paid :
    let p := run (recording (step vaultConfig) (reserveMoves (fun vault a => vault a) vaultConfig)) (genesis fun _ => 0,[]) paidChild
    depositsOf p.1 1 = 10 ∧ heldFor p.2 1 = depositsOf p.1 1 :=
  ⟨by decide +kernel,(deposits_reserved vaultConfig _ vaultConfig_reserving (by decide) (fun _ => 0) paidChild).2.1 1⟩

end TheBrain.Arion
