import TheBrain.Library.Machine
import TheBrain.Library.Pairing
import TheBrain.Library.Words
import TheBrain.Runtime
import Mathlib.Data.Fintype.EquivFin

namespace TheBrain.Ip
open Library Machine Words Pairing Function

abbrev Bytes := List UInt8

inductive RoleType (A : Type) where
  | hypervisor (nodeId : Bytes)
  | client (userAccountId : A)
  | vm (vmName : Bytes)
  | storageMiner (nodeId : Bytes)
  deriving DecidableEq

structure IpReleaseRequest (A : Type) where
  vmName : Bytes
  ip : Bytes
  createdAt : Nat
  roleType : RoleType A

inductive Event where
  | ipAssigned (ip : Bytes)
  | ipReturned (vmUuid ip : Bytes)
  | ipAdded (ip : Bytes)
  | ipRemoved (ip : Bytes)

inductive Error where
  | badOrigin
  | noAvailableIp
  | vmAlreadyHasIp
  | vmHasNoIp
  | ipAlreadyExists
  | roleAlreadyHasIp

inductive Pool where
  | hypervisor
  | client
  | storageMiner
  | vm
  deriving DecidableEq

-- One free list for each pool; the list of assigned VM addresses holds the VMs' names,
-- that of assigned client addresses the addresses themselves.
structure State (A : Type) where
  blockNumber : Nat
  available : Pool → List Bytes
  assignedVmIps : List Bytes
  assignedClientIps : List Bytes
  ipToRole : Bytes → Option (RoleType A)
  roleToIp : RoleType A → Option Bytes
  ipReleaseRequests : List (IpReleaseRequest A)
  events : List Event

def genesis : State A := ⟨0,fun _ => [],[],[],fun _ => none,fun _ => none,[],[]⟩

variable {A : Type} [DecidableEq A] (ipReleasePeriod : Nat) (s : State A)

def addAvailableIp (pool : Pool) (origin : Origin A) (ip : Bytes) : Except Error (State A) := do
  ensure (origin = .root) .badOrigin
  ensure (¬(s.available pool).contains ip) .ipAlreadyExists
  .ok {s with available:=update s.available pool (s.available pool ++ [ip]),events:=s.events ++ [.ipAdded ip]}

def addAvailableVmIp := addAvailableIp s .vm
def addAvailableHypervisorIp := addAvailableIp s .hypervisor
def addAvailableClientIp := addAvailableIp s .client
def addAvailableStorageMinerIp := addAvailableIp s .storageMiner

def removeAvailableIp (pool : Pool) (origin : Origin A) (ip : Bytes) : Except Error (State A) := do
  ensure (origin = .root) .badOrigin
  ensure ((s.available pool).contains ip) .noAvailableIp
  .ok {s with available:=update s.available pool ((s.available pool).erase ip),events:=s.events ++ [.ipRemoved ip]}

def removeAvailableVmIp := removeAvailableIp s .vm
def removeAvailableHypervisorIp := removeAvailableIp s .hypervisor
def removeAvailableClientIp := removeAvailableIp s .client
def removeAvailableStorageMinerIp := removeAvailableIp s .storageMiner

def generateVmReleaseIpRequestAndUpdateStorage (vmName : Bytes) : Except Error (State A) := do
  let ip ← okOr (s.roleToIp (.vm vmName)) .vmHasNoIp
  ensure (s.assignedVmIps.contains vmName) .vmHasNoIp
  .ok {s with
    assignedVmIps:=s.assignedVmIps.erase vmName
    roleToIp:=update s.roleToIp (.vm vmName) none
    ipToRole:=update s.ipToRole ip none
    ipReleaseRequests:=s.ipReleaseRequests ++ [⟨vmName,ip,s.blockNumber,.vm vmName⟩]
    events:=s.events ++ [.ipReturned vmName ip]}

def assignIp (pool : Pool) (role : RoleType A) (taken : Error) (ip : Bytes) : Except Error (State A) := do
  ensure (s.roleToIp role = none) taken
  ensure ((s.available pool).contains ip) .noAvailableIp
  .ok {s with
    available:=update s.available pool ((s.available pool).erase ip)
    ipToRole:=update s.ipToRole ip (some role)
    roleToIp:=update s.roleToIp role (some ip)
    events:=s.events ++ [.ipAssigned ip]}

def assignIpToVm (vmUuid ip : Bytes) : Except Error (State A) :=
  assignIp {s with assignedVmIps:=s.assignedVmIps ++ [vmUuid]} .vm (.vm vmUuid) .vmAlreadyHasIp ip

def assignIpToClient (clientId : A) (ip : Bytes) : Except Error (State A) :=
  assignIp {s with assignedClientIps:=s.assignedClientIps ++ [ip]} .client (.client clientId) .roleAlreadyHasIp ip

-- The period is cut to 32 bits before it is added to the 64-bit block number.
def due (currentBlock : Nat) (request : IpReleaseRequest A) : Bool :=
  wrappingAdd 64 request.createdAt (ipReleasePeriod % 2 ^ 32) ≤ currentBlock

def handlePendingIpReleaseRequests (currentBlock : Nat) : State A :=
  let due := due ipReleasePeriod currentBlock
  {s with
    available:=update s.available .vm (s.available .vm ++ (s.ipReleaseRequests.filter due).map (·.ip))
    ipReleaseRequests:=s.ipReleaseRequests.filter fun request => !due request}

inductive Call (A : Type) where
  | addAvailable (pool : Pool) (origin : Origin A) (ip : Bytes)
  | removeAvailable (pool : Pool) (origin : Origin A) (ip : Bytes)
  | generateVmReleaseIpRequestAndUpdateStorage (vmName : Bytes)
  | assignIpToVm (vmUuid ip : Bytes)
  | assignIpToClient (clientId : A) (ip : Bytes)
  | onInitialize (currentBlock : Nat)

def dispatch : Call A → Except Error (State A)
  | .addAvailable .vm origin ip => addAvailableVmIp s origin ip
  | .addAvailable .hypervisor origin ip => addAvailableHypervisorIp s origin ip
  | .addAvailable .client origin ip => addAvailableClientIp s origin ip
  | .addAvailable .storageMiner origin ip => addAvailableStorageMinerIp s origin ip
  | .removeAvailable .vm origin ip => removeAvailableVmIp s origin ip
  | .removeAvailable .hypervisor origin ip => removeAvailableHypervisorIp s origin ip
  | .removeAvailable .client origin ip => removeAvailableClientIp s origin ip
  | .removeAvailable .storageMiner origin ip => removeAvailableStorageMinerIp s origin ip
  | .generateVmReleaseIpRequestAndUpdateStorage vmName => generateVmReleaseIpRequestAndUpdateStorage s vmName
  | .assignIpToVm vmUuid ip => assignIpToVm s vmUuid ip
  | .assignIpToClient clientId ip => assignIpToClient s clientId ip
  | .onInitialize currentBlock =>
    .ok (handlePendingIpReleaseRequests ipReleasePeriod {s with blockNumber:=currentBlock} currentBlock)

def step (s : State A) (call : Call A) : State A := commit s (dispatch ipReleasePeriod s call)

-- The pools an address is assigned from, and with `all` the other two as well.
def Pool.counted (all : Bool) : Pool → Bool
  | .client | .vm => true
  | .hypervisor | .storageMiner => all

def stock (all : Bool) (available : Pool → List Bytes) (ip : Bytes) : Nat :=
  (available .client).count ip + (available .vm).count ip +
    if all then (available .hypervisor).count ip + (available .storageMiner).count ip else 0

-- In how many places an address is: free in a pool, waiting for its release, or held.
def places (all : Bool) (s : State A) (ip : Bytes) : Nat :=
  stock all s.available ip + (s.ipReleaseRequests.map (·.ip)).count ip + (s.ipToRole ip).isSome.toNat

theorem stock_update (available : Pool → List Bytes) (ips : List Bytes) (ip : Bytes) (counted : pool.counted all = true) :
    stock all (update available pool ips) ip + (available pool).count ip = stock all available ip + ips.count ip := by
  cases all <;> cases pool <;> simp [stock,Pool.counted] at counted ⊢ <;> omega

theorem stock_uncounted (available : Pool → List Bytes) (ips : List Bytes) (uncounted : ¬pool.counted all = true) :
    stock all (update available pool ips) = stock all available := by
  funext ip
  cases all <;> cases pool <;> simp [stock,Pool.counted] at uncounted ⊢

theorem stock_append (available : Pool → List Bytes) (ips : List Bytes) (ip : Bytes) (counted : pool.counted all = true) :
    stock all (update available pool (available pool ++ ips)) ip = stock all available ip + ips.count ip := by
  have moved := stock_update available (available pool ++ ips) ip counted
  rw [List.count_append] at moved
  omega

theorem stock_erase (available : Pool → List Bytes) (counted : pool.counted all = true) (mem : ip ∈ available pool) (other : Bytes) :
    stock all (update available pool ((available pool).erase ip)) other + (if other = ip then 1 else 0) = stock all available other := by
  have moved := stock_update available ((available pool).erase ip) other counted
  by_cases same : other = ip
  · subst same
    have some := List.count_pos_iff.mpr mem
    rw [List.count_erase_self] at moved
    simp only [if_true]
    omega
  · rw [List.count_erase_of_ne same] at moved
    simp only [same,if_false]
    omega

variable {A : Type} {s t : State A}

structure Exclusive (all : Bool) (s : State A) : Prop where
  inverse : Inverse s.roleToIp s.ipToRole
  once : ∀ ip, places all s ip ≤ 1
  listed : ∀ vmName, s.assignedVmIps.count vmName = (s.roleToIp (.vm vmName)).isSome.toNat

-- The other operations only move addresses: none is lost and none is doubled.
theorem Exclusive.moved (exclusive : Exclusive all s) (same : ∀ ip, places all t ip = places all s ip)
    (inverse : Inverse t.roleToIp t.ipToRole)
    (listed : ∀ vmName, t.assignedVmIps.count vmName = (t.roleToIp (.vm vmName)).isSome.toNat) :
    Exclusive all t ∧ ∀ ip, places all s ip ≤ places all t ip :=
  ⟨⟨inverse,fun ip => (same ip).trans_le (exclusive.once ip),listed⟩,fun ip => (same ip).ge⟩

theorem genesis_exclusive (all : Bool) : Exclusive all (genesis : State A) :=
  ⟨by simp [Inverse,genesis],by simp [places,stock,genesis],by simp [genesis]⟩

def HeldOnce (s : State A) : Prop :=
  Inverse s.roleToIp s.ipToRole ∧ ∀ role ip, s.roleToIp role = some ip →
    ip ∉ s.available .client ∧ ip ∉ s.available .vm ∧ ip ∉ s.ipReleaseRequests.map (·.ip)

theorem Exclusive.heldOnce (exclusive : Exclusive false s) : HeldOnce s := by
  refine ⟨exclusive.inverse,?_⟩
  intro role ip held
  have single := exclusive.once ip
  simp only [places,stock,(exclusive.inverse role ip).mp held,Option.isSome_some,Bool.toNat_true] at single
  refine ⟨?_,?_,?_⟩
  all_goals
    apply List.count_eq_zero.mp
    omega

-- A call keeps every address somewhere, but for one that is removed from a pool.
def Keeps (all : Bool) (call : Call A) (s t : State A) : Prop :=
  Exclusive all t ∧ ∀ ip, (∀ pool origin, call ≠ .removeAvailable pool origin ip) → places all s ip ≤ places all t ip

theorem Keeps.of_moved (moved : Exclusive all t ∧ ∀ ip, places all s ip ≤ places all t ip) : Keeps all call s t :=
  moved.imp_right fun kept ip _ => kept ip

theorem Exclusive.initialized (exclusive : Exclusive all s) (currentBlock : Nat) :
    let t := handlePendingIpReleaseRequests ipReleasePeriod {s with blockNumber:=currentBlock} currentBlock
    Exclusive all t ∧ ∀ ip, places all s ip ≤ places all t ip := by
  refine exclusive.moved ?_ exclusive.inverse exclusive.listed
  intro ip
  have parts := ((List.filter_append_perm (due ipReleasePeriod currentBlock) s.ipReleaseRequests).map (·.ip)).count_eq ip
  rw [List.map_append,List.count_append] at parts
  have stocked := stock_append s.available ((s.ipReleaseRequests.filter (due ipReleasePeriod currentBlock)).map (·.ip)) ip
    (rfl : Pool.vm.counted all = true)
  simp only [places,handlePendingIpReleaseRequests,stocked]
  omega

variable [DecidableEq A]

theorem Exclusive.added (exclusive : Exclusive all s) (ran : addAvailableIp s pool origin ip = .ok t)
    (fresh : pool.counted all = true → places all s ip = 0) : Exclusive all t ∧ ∀ ip, places all s ip ≤ places all t ip := by
  simp only [addAvailableIp,passes] at ran
  obtain ⟨_,_,rfl⟩ := ran
  by_cases counted : pool.counted all = true
  · have new := fresh counted
    refine ⟨⟨exclusive.inverse,?_,exclusive.listed⟩,?_⟩
    · intro other
      have single := exclusive.once other
      simp only [places,stock_append _ _ _ counted,List.count_singleton,beq_iff_eq] at single new ⊢
      split
      · subst other
        omega
      · exact single
    · intro other
      simp only [places,stock_append _ _ _ counted]
      omega
  · refine exclusive.moved ?_ exclusive.inverse exclusive.listed
    intro other
    simp only [places,stock_uncounted _ _ counted]

theorem Exclusive.removed (exclusive : Exclusive all s) (ran : removeAvailableIp s pool origin ip = .ok t) :
    Exclusive all t ∧ ∀ other ≠ ip, places all s other ≤ places all t other := by
  simp only [removeAvailableIp,passes,List.contains_iff_mem] at ran
  obtain ⟨_,mem,rfl⟩ := ran
  have lowered : ∀ other, stock all (update s.available pool ((s.available pool).erase ip)) other ≤ stock all s.available other ∧
      (other ≠ ip → stock all s.available other ≤ stock all (update s.available pool ((s.available pool).erase ip)) other) := by
    intro other
    by_cases counted : pool.counted all = true
    · have lower := stock_erase s.available counted mem other
      refine ⟨by omega,fun apart => ?_⟩
      rw [if_neg apart] at lower
      exact lower.ge
    · rw [stock_uncounted _ _ counted]
      exact ⟨le_rfl,fun _ => le_rfl⟩
  refine ⟨⟨exclusive.inverse,?_,exclusive.listed⟩,?_⟩
  · intro other
    have single := exclusive.once other
    have lower := (lowered other).1
    simp only [places] at single ⊢
    omega
  · intro other apart
    have same := (lowered other).2 apart
    simp only [places]
    omega

theorem Exclusive.assigned (exclusive : Exclusive all s) (counted : pool.counted all = true)
    (ran : assignIp {s with assignedVmIps:=names,assignedClientIps:=ips} pool role taken ip = .ok t)
    (listed : s.roleToIp role = none → ∀ vmName, names.count vmName = (update s.roleToIp role (some ip) (.vm vmName)).isSome.toNat) :
    Exclusive all t ∧ ∀ ip, places all s ip ≤ places all t ip := by
  simp only [assignIp,passes,List.contains_iff_mem] at ran
  obtain ⟨free,mem,rfl⟩ := ran
  have idle : s.ipToRole ip = none := by
    have single := exclusive.once ip
    have lowered := stock_erase s.available counted mem ip
    cases held : s.ipToRole ip with
    | none => rfl
    | some =>
      simp [places,held] at single lowered
      omega
  refine exclusive.moved ?_ (exclusive.inverse.bind free idle) (listed free)
  intro other
  have lowered := stock_erase s.available counted mem other
  by_cases same : other = ip
  · subst same
    simp [places,idle] at lowered ⊢
    omega
  · simp [places,same] at lowered ⊢
    omega

theorem Exclusive.released (exclusive : Exclusive all s) (ran : generateVmReleaseIpRequestAndUpdateStorage s vmName = .ok t) :
    Exclusive all t ∧ ∀ ip, places all s ip ≤ places all t ip := by
  simp only [generateVmReleaseIpRequestAndUpdateStorage,passes] at ran
  obtain ⟨ip,held,_,rfl⟩ := ran
  have back := (exclusive.inverse _ _).mp held
  refine exclusive.moved ?_ (exclusive.inverse.release held) ?_
  · intro other
    by_cases same : other = ip
    · subst same
      simp [places,back,Nat.add_assoc]
    · simp [places,same,Ne.symm same]
  · intro other
    have listed := exclusive.listed other
    by_cases same : other = vmName
    · subst same
      simp_all
    · simp [listed,same,List.count_erase_of_ne]

-- What is added to a counted pool was nowhere before.
def AddsFresh (all : Bool) (s : State A) : Call A → Prop
  | .addAvailable pool origin ip => (addAvailableIp s pool origin ip).isOk = true → pool.counted all = true → places all s ip = 0
  | _ => True

instance (all : Bool) (s : State A) : DecidablePred (AddsFresh all s) := fun call => by
  cases call <;> dsimp only [AddsFresh] <;> infer_instance

theorem step_keeps (call : Call A) (exclusive : Exclusive all s) (fresh : AddsFresh all s call) :
    Keeps all call s (step ipReleasePeriod s call) := by
  refine commit_inv (Keeps all call s) ⟨exclusive,fun _ _ => le_rfl⟩ ?_
  intro t ran
  cases call with
  | addAvailable pool origin ip =>
    have added : addAvailableIp s pool origin ip = .ok t := by cases pool <;> exact ran
    exact .of_moved (exclusive.added added (fresh (congrArg Except.isOk added)))
  | removeAvailable pool origin ip =>
    have removed : removeAvailableIp s pool origin ip = .ok t := by cases pool <;> exact ran
    refine (exclusive.removed removed).imp_right fun kept other spared => kept other ?_
    rintro rfl
    exact spared pool origin rfl
  | generateVmReleaseIpRequestAndUpdateStorage => exact .of_moved (exclusive.released ran)
  | assignIpToVm vmUuid ip =>
    refine .of_moved (exclusive.assigned rfl ran ?_)
    intro free vmName
    have listed := exclusive.listed vmName
    by_cases same : vmName = vmUuid
    · subst same
      simp_all
    · simp [listed,same,Ne.symm same]
  | assignIpToClient clientId ip =>
    refine .of_moved (exclusive.assigned rfl ran ?_)
    intro free vmName
    simp [exclusive.listed vmName]
  | onInitialize currentBlock =>
    cases ran
    exact .of_moved (exclusive.initialized ipReleasePeriod currentBlock)

theorem run_exclusive (exclusive : Exclusive all s) (fresh : Throughout (step ipReleasePeriod) (AddsFresh all) s calls) :
    Exclusive all (run (step ipReleasePeriod) s calls) :=
  run_invariant (Exclusive all) (fun _ call still new => (step_keeps ipReleasePeriod call still new).1) exclusive fresh

theorem addresses_exclusive (calls : List (Call A)) (call : Call A)
    (fresh : Throughout (step ipReleasePeriod) (AddsFresh true) genesis (calls ++ [call])) :
    let s : State A := run (step ipReleasePeriod) genesis calls
    Inverse s.roleToIp s.ipToRole ∧ (∀ ip, places true s ip ≤ 1) ∧
      (∀ ip, (∀ pool origin, call ≠ .removeAvailable pool origin ip) →
        places true s ip ≤ places true (step ipReleasePeriod s call) ip) ∧
      ∀ vmName ip, s.roleToIp (.vm vmName) = some ip → ∃ t, generateVmReleaseIpRequestAndUpdateStorage s vmName = .ok t := by
  intro s
  obtain ⟨before,now⟩ := throughout_append.mp fresh
  have exclusive : Exclusive true s := run_exclusive ipReleasePeriod (genesis_exclusive true) before
  refine ⟨exclusive.inverse,exclusive.once,(step_keeps ipReleasePeriod call exclusive now.1).2,?_⟩
  intro vmName ip held
  have listed : vmName ∈ s.assignedVmIps := by
    apply List.count_pos_iff.mp
    simp [exclusive.listed,held]
  simp [generateVmReleaseIpRequestAndUpdateStorage,okOr,ensure,held,listed,bind,Except.bind]

def assigned : List (Call Nat) := [.addAvailable .vm .root [10],.assignIpToVm [1] [10]]

theorem assigned_address_exclusive :
    Throughout (step 100) (AddsFresh true) genesis (assigned ++ [.onInitialize 5]) ∧
      ∃ t, generateVmReleaseIpRequestAndUpdateStorage (run (step 100) genesis assigned) [1] = .ok t :=
  have fresh : Throughout (step 100) (AddsFresh true) genesis (assigned ++ [.onInitialize 5]) := by decide
  ⟨fresh,(addresses_exclusive 100 _ _ fresh).2.2.2 [1] [10] rfl⟩

theorem assigned_twice (vmName : Bytes) (free : s.roleToIp (.vm vmName) = none) (there : ip ∈ s.available .vm)
    (again : ip ∈ s.available .client ∨ ip ∈ s.ipReleaseRequests.map (·.ip)) :
    ¬HeldOnce (step ipReleasePeriod s (.assignIpToVm vmName ip)) := by
  have ran : assignIpToVm s vmName ip = .ok {s with
      assignedVmIps:=s.assignedVmIps ++ [vmName]
      available:=update s.available .vm ((s.available .vm).erase ip)
      ipToRole:=update s.ipToRole ip (some (.vm vmName))
      roleToIp:=update s.roleToIp (.vm vmName) (some ip)
      events:=s.events ++ [.ipAssigned ip]} := by
    simp [assignIpToVm,assignIp,ensure,free,there,bind,Except.bind]
  intro once
  rw [step,dispatch,ran] at once
  obtain ⟨client,_,pending⟩ := once.2 (.vm vmName) ip (update_self ..)
  exact again.elim client pending

-- An address that is added while it is somewhere else can be given out twice: to a VM that
-- has none yet, from the VM pool, where an outstanding release brings it as well.
theorem Exclusive.doubled (exclusive : Exclusive false s) (ran : addAvailableIp s pool origin ip = .ok t)
    (counted : pool.counted false = true) (somewhere : places false s ip ≠ 0) :
    ∃ more, Throughout (step ipReleasePeriod) (AddsFresh false) t more ∧ ¬HeldOnce (run (step ipReleasePeriod) t more) := by
  simp only [addAvailableIp,passes,List.contains_iff_mem] at ran
  obtain ⟨_,missing,rfl⟩ := ran
  cases held : s.ipToRole ip with
  | some role =>
    refine ⟨[],trivial,?_⟩
    intro once
    obtain ⟨client,vm,_⟩ := once.2 role ip ((exclusive.inverse role ip).mpr held)
    cases pool <;> simp_all [Pool.counted,run]
  | none =>
    obtain ⟨vmName,unused⟩ := Infinite.exists_notMem_finset s.assignedVmIps.toFinset
    have free : s.roleToIp (.vm vmName) = none := by
      have listed := exclusive.listed vmName
      rw [List.count_eq_zero.mpr (List.mem_toFinset.not.mp unused)] at listed
      cases owned : s.roleToIp (.vm vmName) with
      | none => rfl
      | some => simp [owned] at listed
    have waits : ip ∈ s.available .client ∨ ip ∈ s.available .vm ∨ ip ∈ s.ipReleaseRequests.map (·.ip) := by
      simp only [← List.count_pos_iff]
      simp only [places,stock,held,Option.isSome_none,Bool.toNat_false,Bool.false_eq_true,if_false] at somewhere
      omega
    cases pool with
    | vm =>
      refine ⟨[.assignIpToVm vmName ip],⟨trivial,trivial⟩,assigned_twice ipReleasePeriod vmName free ?_ ?_⟩
      · simp
      · rcases waits with client | vm | pending
        · exact .inl client
        · exact absurd vm missing
        · exact .inr pending
    | client =>
      have back : ∃ block, ip ∈ s.available .vm ++ (s.ipReleaseRequests.filter (due ipReleasePeriod block)).map (·.ip) := by
        rcases waits with client | vm | pending
        · exact absurd client missing
        · exact ⟨0,List.mem_append_left _ vm⟩
        · obtain ⟨request,mem,same⟩ := List.mem_map.mp pending
          have ready : due ipReleasePeriod (wrappingAdd 64 request.createdAt (ipReleasePeriod % 2 ^ 32)) request = true :=
            decide_eq_true le_rfl
          exact ⟨_,List.mem_append_right _ (List.mem_map.mpr ⟨request,List.mem_filter.mpr ⟨mem,ready⟩,same⟩)⟩
      obtain ⟨block,back⟩ := back
      refine ⟨[.onInitialize block,.assignIpToVm vmName ip],⟨trivial,trivial,trivial⟩,?_⟩
      refine assigned_twice ipReleasePeriod vmName free ?_ (.inl ?_)
      · exact back
      · simp [step,dispatch,commit,handlePendingIpReleaseRequests]
    | hypervisor | storageMiner => cases counted

theorem address_held_once (calls : List (Call A)) (fresh : Throughout (step ipReleasePeriod) (AddsFresh false) genesis calls) :
    let s : State A := run (step ipReleasePeriod) genesis calls
    HeldOnce s ∧ ∀ call, AddsFresh false s call ↔ ∀ more,
      Throughout (step ipReleasePeriod) (AddsFresh false) (step ipReleasePeriod s call) more →
        HeldOnce (run (step ipReleasePeriod) (step ipReleasePeriod s call) more) := by
  intro s
  have exclusive : Exclusive false s := run_exclusive ipReleasePeriod (genesis_exclusive false) fresh
  refine ⟨exclusive.heldOnce,fun call => ⟨?_,?_⟩⟩
  · intro new more later
    exact (run_exclusive ipReleasePeriod (step_keeps ipReleasePeriod call exclusive new).1 later).heldOnce
  · intro safe
    cases call with
    | addAvailable pool origin ip =>
      intro accepted counted
      by_contra somewhere
      obtain ⟨t,ran⟩ := isOk_ok accepted
      obtain ⟨more,later,doubled⟩ := exclusive.doubled ipReleasePeriod ran counted somewhere
      have taken : step ipReleasePeriod s (.addAvailable pool origin ip) = t := by
        have dispatched : dispatch ipReleasePeriod s (.addAvailable pool origin ip) = .ok t := by cases pool <;> exact ran
        rw [step,dispatched,commit]
      rw [taken] at safe
      exact doubled (safe more later)
    | _ => trivial

theorem address_held_once_assigned :
    Throughout (step 100) (AddsFresh false) genesis assigned ∧ HeldOnce (run (step 100) genesis assigned) :=
  have fresh : Throughout (step 100) (AddsFresh false) genesis assigned := by decide
  ⟨fresh,(address_held_once 100 _ fresh).1⟩

-- Root adds an address again while a VM holds it, and a client gets it as well.
theorem address_held_twice :
    let s := run (step 100) genesis (assigned ++ [.addAvailable .client .root [10],.assignIpToClient 7 [10]])
    s.roleToIp (.vm [1]) = some [10] ∧ s.roleToIp (.client 7) = some [10] ∧ s.ipToRole [10] = some (.client 7) := by
  decide

end TheBrain.Ip
