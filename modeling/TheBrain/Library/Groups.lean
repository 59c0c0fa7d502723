import TheBrain.Library.StorageMap
import Mathlib.Data.List.Perm.Basic

namespace Library.Groups
open StorageMap Function List

-- Rows of a storage map that count for a group each, or for none, next to two indexes
-- kept by hand: the list of keys of every group, and the key that holds a given name.
variable {K V G N : Type} [DecidableEq K]

omit [DecidableEq K] in
theorem setLast_perm (front : List K) (last : K) (mem : pos < (front ++ [last]).length) :
    ((front ++ [last]).set pos last).dropLast.Perm ((front ++ [last]).eraseIdx pos) := by
  rw [set_append,eraseIdx_append]
  split
  next early =>
    rw [dropLast_concat]
    exact (set_perm_cons_eraseIdx early last).trans (perm_append_singleton _ _).symm
  next late =>
    rw [length_append,length_singleton] at mem
    have here : pos - front.length = 0 := by omega
    rw [here,set_cons_zero,dropLast_concat,eraseIdx_cons_zero,append_nil]

theorem replace_perm (a b : K) (l : List K) (mem : a ∈ l) : (l.replace a b).Perm (b :: l.erase a) := by
  induction l with
  | nil => cases mem
  | cons c rest ih =>
    rw [replace_cons,erase_cons]
    by_cases here : c = a
    · rw [here,beq_self_eq_true,if_pos rfl]
    · have later : a ∈ rest := (mem_cons.mp mem).resolve_left (Ne.symm here)
      rw [beq_eq_false_iff_ne.mpr here,beq_eq_false_iff_ne.mpr (Ne.symm here)]
      exact ((ih later).cons c).trans (.swap b c _)

-- A row gives up its place: what is stored under its key afterwards, if anything, no
-- longer counts, and no other row changes.
structure Vacates (counts : V → Bool) (k : K) (rows next : StorageMap K V) : Prop where
  others : ∀ j, j ≠ k → next.lookup j = rows.lookup j
  idle : ∀ v, next.lookup k = some v → counts v = false

theorem vacates_erase (counts : V → Bool) (k : K) (rows : StorageMap K V) : Vacates counts k rows (rows.erase k) where
  others j apart := AList.lookup_erase_ne apart
  idle v held := by
    rw [AList.lookup_erase] at held
    cases held

theorem vacates_insert (k : K) (rows : StorageMap K V) (idle : counts w = false) : Vacates counts k rows (rows.insert k w) where
  others j apart := AList.lookup_insert_ne apart
  idle v held := by
    rw [AList.lookup_insert] at held
    cases held
    exact idle

-- The lists show exactly the keys whose rows count for the group, each of them once.
structure Listed (group : V → Option G) (rows : StorageMap K V) (lists : G → List K) : Prop where
  distinct : ∀ g, (lists g).Nodup
  member : ∀ g k, k ∈ lists g ↔ ∃ v, rows.lookup k = some v ∧ group v = some g

theorem listed_empty (group : V → Option G) : Listed group (∅ : StorageMap K V) fun _ => [] where
  distinct _ := nodup_nil
  member g k := by
    constructor
    · intro mem
      cases mem
    · rintro ⟨_,held,_⟩
      cases held

section
variable [DecidableEq G] {group : V → Option G} {rows next : StorageMap K V} {lists : G → List K}

section
variable (listed : Listed group rows lists)
include listed

theorem Listed.join (absent : rows.lookup k = none) (joins : group v = some g) :
    Listed group (rows.insert k v) (update lists g (lists g ++ [k])) := by
  have missing : ∀ h, k ∉ lists h := by
    intro h mem
    obtain ⟨w,held,_⟩ := (listed.member h k).mp mem
    rw [absent] at held
    cases held
  refine ⟨?_,?_⟩
  · intro h
    rw [update_apply]
    split
    · refine nodup_append.mpr ⟨listed.distinct g,nodup_singleton k,?_⟩
      intro a mem b single same
      rw [same,mem_singleton.mp single] at mem
      exact missing g mem
    · exact listed.distinct h
  · intro h j
    by_cases own : j = k
    · subst own
      rw [AList.lookup_insert,update_apply]
      split
      next same =>
        subst same
        refine ⟨fun _ => ⟨v,rfl,joins⟩,fun _ => ?_⟩
        exact mem_append_right _ (mem_singleton_self j)
      next other =>
        refine ⟨fun mem => absurd mem (missing h),?_⟩
        rintro ⟨_,⟨⟩,belongs⟩
        rw [joins] at belongs
        exact absurd (Option.some.inj belongs).symm other
    · rw [AList.lookup_insert_ne own,← listed.member h j,update_apply]
      split
      next same =>
        subst same
        rw [mem_append,mem_singleton]
        exact ⟨fun either => either.resolve_right own,.inl⟩
      · exact Iff.rfl

theorem Listed.leave (found : rows.lookup k = some v) (joined : group v = some g)
    (vacates : Vacates (fun w => (group w).isSome) k rows next) (perm : rest.Perm ((lists g).erase k)) :
    Listed group next (update lists g rest) := by
  have gone : ∀ h w, next.lookup k = some w → group w ≠ some h := by
    intro h w held belongs
    have idle := vacates.idle w held
    rw [belongs] at idle
    cases idle
  refine ⟨?_,?_⟩
  · intro h
    rw [update_apply]
    split
    · exact perm.nodup_iff.mpr ((listed.distinct g).erase k)
    · exact listed.distinct h
  · intro h j
    have before := listed.member h j
    by_cases own : j = k
    · subst own
      constructor
      · intro mem
        rw [update_apply] at mem
        split at mem
        · exact absurd (perm.mem_iff.mp mem) (listed.distinct g).not_mem_erase
        next other =>
          obtain ⟨w,held,belongs⟩ := before.mp mem
          rw [found] at held
          cases held
          rw [joined] at belongs
          exact absurd (Option.some.inj belongs).symm other
      · rintro ⟨w,held,belongs⟩
        exact absurd belongs (gone h w held)
    · rw [vacates.others j own,← before,update_apply]
      split
      next same =>
        subst same
        rw [perm.mem_iff]
        exact mem_erase_of_ne own
      · exact Iff.rfl

omit [DecidableEq G] in
theorem Listed.forget (vacates : Vacates (fun w => (group w).isSome) k rows next)
    (idle : ∀ v, rows.lookup k = some v → group v = none) : Listed group next lists where
  distinct := listed.distinct
  member g j := by
    rw [listed.member g j]
    by_cases own : j = k
    · subst own
      constructor
      · rintro ⟨v,held,belongs⟩
        rw [idle v held] at belongs
        cases belongs
      · rintro ⟨v,held,belongs⟩
        have none := vacates.idle v held
        rw [belongs] at none
        cases none
    · rw [vacates.others j own]

end

end

-- Which groups have members, how many there are and how many members in all.
def Counted (lists : G → List K) (groups members : Nat) : Prop :=
  ∃ present : List G, present.Nodup ∧ (∀ g, g ∈ present ↔ lists g ≠ []) ∧ groups = present.length ∧
    members = (present.map fun g => (lists g).length).sum

omit [DecidableEq K] in
theorem counted_empty : Counted (fun _ => [] : G → List K) 0 0 := by
  refine ⟨[],nodup_nil,?_,rfl,rfl⟩
  intro g
  constructor
  · intro mem
    cases mem
  · intro some
    exact absurd rfl some

section
variable [DecidableEq G] {lists : G → List K}

omit [DecidableEq K] in
theorem Counted.split (counted : Counted lists groups members) (g : G) :
    ∃ others : List G, others.Nodup ∧ g ∉ others ∧ (∀ h, h ≠ g → (h ∈ others ↔ lists h ≠ [])) ∧
      groups = others.length + (if lists g = [] then 0 else 1) ∧
      members = (others.map fun h => (lists h).length).sum + (lists g).length := by
  obtain ⟨present,distinct,shown,rfl,rfl⟩ := counted
  have apart : ∀ h, h ≠ g → (h ∈ present.erase g ↔ lists h ≠ []) := by
    intro h other
    rw [mem_erase_of_ne other]
    exact shown h
  refine ⟨present.erase g,distinct.erase g,distinct.not_mem_erase,apart,?_,?_⟩
  · by_cases empty : lists g = []
    · rw [if_pos empty,erase_of_not_mem fun mem => (shown g).mp mem empty,Nat.add_zero]
    · have mem := (shown g).mpr empty
      rw [if_neg empty,(perm_cons_erase mem).length_eq,length_cons]
  · by_cases empty : lists g = []
    · rw [empty,erase_of_not_mem fun mem => (shown g).mp mem empty,length_nil,Nat.add_zero]
    · have mem := (shown g).mpr empty
      rw [((perm_cons_erase mem).map _).sum_nat,map_cons,sum_cons,Nat.add_comm]

omit [DecidableEq K] in
theorem Counted.le (counted : Counted lists groups members) (g : G) : (lists g).length ≤ members := by
  obtain ⟨_,_,_,_,_,rfl⟩ := counted.split g
  exact Nat.le_add_left _ _

omit [DecidableEq K] [DecidableEq G] in
theorem Counted.groups_le (counted : Counted lists groups members) : groups ≤ members := by
  obtain ⟨present,distinct,shown,rfl,rfl⟩ := counted
  have each : ∀ g ∈ present, 1 ≤ (lists g).length := fun g mem => length_pos_iff.mpr ((shown g).mp mem)
  clear shown distinct
  induction present with
  | nil => exact le_rfl
  | cons g _ ih =>
    rw [length_cons,map_cons,sum_cons,Nat.add_comm]
    exact Nat.add_le_add (each g (mem_cons_self ..)) (ih fun h mem => each h (mem_cons_of_mem _ mem))

omit [DecidableEq K] in
theorem Counted.replace (counted : Counted lists groups members) (g : G) (list : List K)
    (sized : members' + (lists g).length = members + list.length)
    (numbered : groups' + (if lists g = [] then 0 else 1) = groups + if list = [] then 0 else 1) :
    Counted (update lists g list) groups' members' := by
  obtain ⟨others,distinct,away,shown,rfl,rfl⟩ := counted.split g
  have same : (others.map fun h => (update lists g list h).length) = others.map fun h => (lists h).length := by
    refine map_congr_left fun h mem => ?_
    have other : h ≠ g := fun equal => away (equal ▸ mem)
    rw [update_of_ne other]
  by_cases empty : list = []
  · refine ⟨others,distinct,?_,?_,?_⟩
    · intro h
      by_cases own : h = g
      · subst own
        rw [update_self]
        exact ⟨fun mem => absurd mem away,fun some => absurd empty some⟩
      · rw [update_of_ne own]
        exact shown h own
    · rw [if_pos empty] at numbered
      omega
    · rw [same]
      rw [empty,length_nil] at sized
      omega
  · refine ⟨g :: others,nodup_cons.mpr ⟨away,distinct⟩,?_,?_,?_⟩
    · intro h
      by_cases own : h = g
      · subst own
        rw [update_self]
        exact ⟨fun _ => empty,fun _ => mem_cons_self ..⟩
      · rw [update_of_ne own,mem_cons,← shown h own]
        exact ⟨fun either => either.resolve_left own,.inr⟩
    · rw [if_neg empty] at numbered
      rw [length_cons]
      omega
    · rw [map_cons,sum_cons,same,update_self]
      omega

omit [DecidableEq K] in
theorem Counted.groups_pos (counted : Counted lists groups members) (nonempty : lists g ≠ []) : 0 < groups := by
  obtain ⟨_,_,_,_,rfl,_⟩ := counted.split g
  rw [if_neg nonempty]
  exact Nat.succ_pos _

omit [DecidableEq K] in
theorem Counted.join (counted : Counted lists groups members) (g : G) (k : K) :
    Counted (update lists g (lists g ++ [k])) (if lists g = [] then groups + 1 else groups) (members + 1) := by
  refine counted.replace g _ ?_ ?_
  · rw [length_append,length_singleton]
    omega
  · rw [if_neg (append_ne_nil_of_right_ne_nil _ (cons_ne_nil k []))]
    split
    · rfl
    · rfl

theorem Counted.leave (counted : Counted lists groups members) (mem : k ∈ lists g) (perm : rest.Perm ((lists g).erase k)) :
    Counted (update lists g rest) (if rest = [] then groups - 1 else groups) (members - 1) := by
  have nonempty := ne_nil_of_mem mem
  have shrinks : rest.length = (lists g).length - 1 := perm.length_eq.trans (length_erase_of_mem mem)
  have positive := length_pos_iff.mpr nonempty
  have shares := counted.le g
  have groups := counted.groups_pos nonempty
  refine counted.replace g rest (by omega) ?_
  split
  · omega
  · rfl

omit [DecidableEq K] in
theorem Counted.close (counted : Counted lists groups members) (g : G) :
    Counted (update lists g []) (if lists g = [] then groups else groups - 1) (members - (lists g).length) := by
  have shares := counted.le g
  refine counted.replace g [] ?_ ?_
  · rw [length_nil]
    omega
  · by_cases empty : lists g = []
    · rw [if_pos empty,if_pos empty,if_pos rfl]
    · have groups := counted.groups_pos empty
      rw [if_neg empty,if_neg empty,if_pos rfl]
      omega

end

-- The index by name: a name leads to the one key whose row carries it.
def Named (name : V → Option N) (rows : StorageMap K V) (holder : N → Option K) : Prop :=
  ∀ n k, holder n = some k ↔ ∃ v, rows.lookup k = some v ∧ name v = some n

theorem named_empty (name : V → Option N) : Named name (∅ : StorageMap K V) fun _ => none := by
  intro n k
  constructor
  · intro held
    cases held
  · rintro ⟨_,held,_⟩
    cases held

section
variable [DecidableEq N] {name : V → Option N} {rows next : StorageMap K V} {holder : N → Option K}

section
variable (named : Named name rows holder)
include named

theorem Named.join (absent : rows.lookup k = none) (free : holder n = none)
    (carries : name v = some n) : Named name (rows.insert k v) (update holder n (some k)) := by
  intro m j
  by_cases own : j = k
  · subst own
    rw [AList.lookup_insert,update_apply]
    split
    · next same => exact ⟨fun _ => ⟨v,rfl,same ▸ carries⟩,fun _ => rfl⟩
    next other =>
      constructor
      · intro held
        obtain ⟨w,there,_⟩ := (named m j).mp held
        rw [absent] at there
        cases there
      · rintro ⟨_,⟨⟩,called⟩
        rw [carries] at called
        exact absurd (Option.some.inj called).symm other
  · rw [AList.lookup_insert_ne own,← named m j,update_apply]
    split
    next same =>
      subst same
      rw [free]
      constructor
      · intro held
        exact absurd (Option.some.inj held).symm own
      · intro held
        cases held
    · exact Iff.rfl

theorem Named.leave (found : rows.lookup k = some v) (carried : name v = some n)
    (vacates : Vacates (fun w => (name w).isSome) k rows next) : Named name next (update holder n none) := by
  have held : holder n = some k := (named n k).mpr ⟨v,found,carried⟩
  intro m j
  by_cases own : j = k
  · subst own
    constructor
    · intro leads
      rw [update_apply] at leads
      split at leads
      · cases leads
      next other =>
        obtain ⟨w,there,called⟩ := (named m j).mp leads
        rw [found] at there
        cases there
        rw [carried] at called
        exact absurd (Option.some.inj called).symm other
    · rintro ⟨w,there,called⟩
      have idle := vacates.idle w there
      rw [called] at idle
      cases idle
  · rw [vacates.others j own,← named m j,update_apply]
    split
    next same =>
      subst same
      rw [held]
      constructor
      · intro leads
        cases leads
      · intro leads
        exact absurd (Option.some.inj leads).symm own
    · exact Iff.rfl

omit [DecidableEq N] in
theorem Named.forget (vacates : Vacates (fun w => (name w).isSome) k rows next)
    (idle : ∀ v, rows.lookup k = some v → name v = none) : Named name next holder := by
  intro n j
  rw [named n j]
  by_cases own : j = k
  · subst own
    constructor
    · rintro ⟨v,held,called⟩
      rw [idle v held] at called
      cases called
    · rintro ⟨v,held,called⟩
      have none := vacates.idle v held
      rw [called] at none
      cases none
  · rw [vacates.others j own]

end

end

structure Kept (group : V → Option G) (name : V → Option N) (rows : StorageMap K V) (lists : G → List K) (holder : N → Option K)
    (groups members : Nat) : Prop where
  listed : Listed group rows lists
  named : Named name rows holder
  counted : Counted lists groups members

theorem kept_empty (group : V → Option G) (name : V → Option N) :
    Kept group name (∅ : StorageMap K V) (fun _ => []) (fun _ => none) 0 0 :=
  ⟨listed_empty group,named_empty name,counted_empty⟩

section
variable [DecidableEq G] [DecidableEq N] {group : V → Option G} {name : V → Option N} {rows next : StorageMap K V}
  {lists : G → List K} {holder : N → Option K}

section
variable (kept : Kept group name rows lists holder groups members)
include kept

theorem Kept.join (absent : rows.lookup k = none)
    (free : holder n = none) (joins : group v = some g) (carries : name v = some n) :
    Kept group name (rows.insert k v) (update lists g (lists g ++ [k])) (update holder n (some k))
      (if lists g = [] then groups + 1 else groups) (members + 1) where
  listed := kept.listed.join absent joins
  named := kept.named.join absent free carries
  counted := kept.counted.join g k

theorem Kept.leave (found : rows.lookup k = some v)
    (joined : group v = some g) (carried : name v = some n) (gone : Vacates (fun w => (group w).isSome) k rows next)
    (nameless : Vacates (fun w => (name w).isSome) k rows next) (perm : rest.Perm ((lists g).erase k)) :
    Kept group name next (update lists g rest) (update holder n none)
      (if rest = [] then groups - 1 else groups) (members - 1) where
  listed := kept.listed.leave found joined gone perm
  named := kept.named.leave found carried nameless
  counted := kept.counted.leave ((kept.listed.member g k).mpr ⟨v,found,joined⟩) perm

omit [DecidableEq G] [DecidableEq N] in
theorem Kept.forget
    (gone : Vacates (fun w => (group w).isSome) k rows next) (nameless : Vacates (fun w => (name w).isSome) k rows next)
    (idle : ∀ v, rows.lookup k = some v → group v = none ∧ name v = none) : Kept group name next lists holder groups members where
  listed := kept.listed.forget gone fun v held => (idle v held).1
  named := kept.named.forget nameless fun v held => (idle v held).2
  counted := kept.counted

end

end
end Library.Groups
