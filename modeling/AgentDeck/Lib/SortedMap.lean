import Mathlib.Algebra.Order.BigOperators.Group.List
import Mathlib.Algebra.Order.Ring.Nat
import Mathlib.Data.Finset.Dedup
import Mathlib.Data.Finset.Insert
import Mathlib.Data.List.Forall2
import Mathlib.Data.String.Basic
import Mathlib.Logic.Relation
import Mathlib.Tactic.Common

/-!
# Finite maps with ordered iteration

A `SortedMap` is an association list whose keys strictly increase, so it has one
representation for each finite function (`SortedMap.ext_get?`) and iterates in key order.
Reading goes through `get?`; every operation comes with the equation for `get?` on its result,
and those equations are what later developments rewrite with.

`total` sums a weight over the entries. It is the bookkeeping side of the library: one lemma
for each operation says how the sum moves.
-/

universe u v w

/-- A finite map as an association list with strictly increasing keys. -/
structure SortedMap (κ : Type u) (ν : Type v) [LinearOrder κ] where
  entries : List (κ × ν)
  sorted : entries.Pairwise fun left right => left.1 < right.1

namespace SortedMap

variable {κ : Type u} {ν : Type v} {ω : Type w} [LinearOrder κ]

def empty : SortedMap κ ν := ⟨[], List.Pairwise.nil⟩

instance : Inhabited (SortedMap κ ν) := ⟨empty⟩

def lookup (key : κ) : List (κ × ν) → Option ν
  | [] => none
  | entry :: rest => if entry.1 = key then some entry.2 else lookup key rest

def get? (map : SortedMap κ ν) (key : κ) : Option ν := lookup key map.entries

def keys (map : SortedMap κ ν) : List κ := map.entries.map Prod.fst

/-- Insert or replace one entry of an association list, keeping the order of its keys. -/
def insertEntry (key : κ) (value : ν) : List (κ × ν) → List (κ × ν)
  | [] => [(key, value)]
  | entry :: rest =>
    if key < entry.1 then (key, value) :: entry :: rest
    else if key = entry.1 then (key, value) :: rest
    else entry :: insertEntry key value rest

variable {entries : List (κ × ν)}

theorem lt_of_mem_insertEntry {bound key : κ} {value : ν} (below : bound < key)
    (belowAll : ∀ entry ∈ entries, bound < entry.1) :
    ∀ entry ∈ insertEntry key value entries, bound < entry.1 := by
  induction entries with
  | nil => simpa [insertEntry] using below
  | cons head rest ih =>
    have headBelow := belowAll head List.mem_cons_self
    have restBelow := fun entry mem => belowAll entry (List.mem_cons_of_mem head mem)
    simp only [insertEntry]
    split
    · simpa using ⟨below, headBelow, fun a b mem => restBelow (a, b) mem⟩
    · split
      · simpa using ⟨below, fun a b mem => restBelow (a, b) mem⟩
      · simpa using ⟨headBelow, fun a b mem => ih restBelow (a, b) mem⟩

theorem sorted_insertEntry (key : κ) (value : ν)
    (sorted : entries.Pairwise fun left right => left.1 < right.1) :
    (insertEntry key value entries).Pairwise fun left right => left.1 < right.1 := by
  induction entries with
  | nil => simp [insertEntry]
  | cons head rest ih =>
    rcases List.pairwise_cons.mp sorted with ⟨headLt, restSorted⟩
    simp only [insertEntry]
    split
    · rename_i keyLt
      refine List.pairwise_cons.mpr ⟨?_, sorted⟩
      intro entry mem
      rcases List.mem_cons.mp mem with rfl | mem
      · exact keyLt
      · exact keyLt.trans (headLt entry mem)
    · split
      · rename_i keyEq
        exact List.pairwise_cons.mpr ⟨fun entry mem => keyEq ▸ headLt entry mem, restSorted⟩
      · rename_i notLt notEq
        have headBelow : head.1 < key :=
          lt_of_le_of_ne (not_lt.mp notLt) (Ne.symm notEq)
        exact List.pairwise_cons.mpr
          ⟨lt_of_mem_insertEntry headBelow headLt, ih restSorted⟩

def insert (map : SortedMap κ ν) (key : κ) (value : ν) : SortedMap κ ν :=
  ⟨insertEntry key value map.entries, sorted_insertEntry key value map.sorted⟩

def erase (map : SortedMap κ ν) (key : κ) : SortedMap κ ν :=
  ⟨map.entries.filter fun entry => entry.1 ≠ key, map.sorted.filter _⟩

def map (f : κ → ν → ω) (map : SortedMap κ ν) : SortedMap κ ω :=
  ⟨map.entries.map fun entry => (entry.1, f entry.1 entry.2),
    List.pairwise_map.mpr (map.sorted.imp fun lt => lt)⟩

def filter (keep : κ → ν → Bool) (map : SortedMap κ ν) : SortedMap κ ν :=
  ⟨map.entries.filter fun entry => keep entry.1 entry.2, map.sorted.filter _⟩

def modify (map : SortedMap κ ν) (key : κ) (f : ν → ν) : SortedMap κ ν :=
  map.map fun other value => if other = key then f value else value

def total (weight : κ → ν → ℕ) (map : SortedMap κ ν) : ℕ :=
  (map.entries.map fun entry => weight entry.1 entry.2).sum

/-! ## Reading -/

@[simp]
theorem get?_empty (key : κ) : (empty : SortedMap κ ν).get? key = none := rfl

theorem lookup_eq_none_of_forall_ne {key : κ} (absent : ∀ entry ∈ entries, entry.1 ≠ key) :
    lookup key entries = none := by
  induction entries with
  | nil => rfl
  | cons head rest ih =>
    rw [lookup, if_neg (absent head List.mem_cons_self)]
    exact ih fun entry mem => absent entry (List.mem_cons_of_mem head mem)

theorem lookup_insertEntry (key other : κ) (value : ν) (entries : List (κ × ν)) :
    lookup other (insertEntry key value entries) =
      if other = key then some value else lookup other entries := by
  induction entries with
  | nil => simp [insertEntry, lookup, eq_comm]
  | cons head rest ih =>
    simp only [insertEntry]
    split
    · simp [lookup, eq_comm]
    · split
      · rename_i keyEq
        by_cases same : other = key
        · simp [lookup, same]
        · have headNe : head.1 ≠ other := fun eq => same (eq ▸ keyEq.symm)
          simp [lookup, same, headNe, Ne.symm same]
      · rename_i notEq
        rw [lookup, lookup, ih]
        by_cases same : other = key
        · simp [same, Ne.symm notEq]
        · simp [same]

section

variable (map : SortedMap κ ν)

include map

@[simp]
theorem get?_insert (key other : κ) (value : ν) :
    (map.insert key value).get? other = if other = key then some value else map.get? other :=
  lookup_insertEntry key other value map.entries

omit map in
@[simp]
theorem get?_map (f : κ → ν → ω) (map : SortedMap κ ν) (key : κ) :
    (map.map f).get? key = (map.get? key).map (f key) := by
  rcases map with ⟨entries, sorted⟩
  simp only [get?, SortedMap.map]
  clear sorted
  induction entries with
  | nil => rfl
  | cons head rest ih =>
    simp only [List.map_cons, lookup, ih]
    by_cases same : head.1 = key
    · simp [same]
    · simp [same]

@[simp]
theorem get?_modify (key other : κ) (f : ν → ν) :
    (map.modify key f).get? other =
      if other = key then (map.get? other).map f else map.get? other := by
  rw [modify]
  by_cases same : other = key
  · simp [same]
  · simp [same]

@[simp]
theorem get?_erase (key other : κ) :
    (map.erase key).get? other = if other = key then none else map.get? other := by
  rcases map with ⟨entries, sorted⟩
  simp only [get?, erase]
  clear sorted
  induction entries with
  | nil => simp [lookup]
  | cons head rest ih =>
    by_cases headKey : head.1 = key
    · rw [List.filter_cons_of_neg (by simpa using headKey), ih]
      by_cases same : other = key
      · simp [same]
      · have headNe : head.1 ≠ other := fun eq => same (eq ▸ headKey)
        simp [lookup, headNe]
    · rw [List.filter_cons_of_pos (by simpa using headKey), lookup, lookup, ih]
      by_cases same : other = key
      · simp [same, headKey]
      · simp [same]

omit map in
theorem get?_of_erase {map : SortedMap κ ν} {key other : κ} {value : ν}
    (found : (map.erase key).get? other = some value) : map.get? other = some value := by
  rw [get?_erase] at found
  split at found
  · cases found
  · exact found

theorem get?_eq_some_iff (key : κ) (value : ν) :
    map.get? key = some value ↔ (key, value) ∈ map.entries := by
  rcases map with ⟨entries, sorted⟩
  simp only [get?]
  induction entries with
  | nil => simp [lookup]
  | cons head rest ih =>
    rcases List.pairwise_cons.mp sorted with ⟨headLt, restSorted⟩
    rw [lookup, List.mem_cons]
    split
    · rename_i same
      have notRest : (key, value) ∉ rest := by
        intro mem
        have impossible : head.1 < key := headLt _ mem
        exact absurd same impossible.ne
      constructor
      · intro eq
        left
        exact Prod.ext same.symm (Option.some.inj eq).symm
      · rintro (eq | mem)
        · rw [← eq]
        · exact absurd mem notRest
    · rename_i different
      have headNe : (key, value) ≠ head := fun eq => different (by rw [← eq])
      simp [headNe, ih restSorted]

theorem mem_keys_iff (key : κ) : key ∈ map.keys ↔ ∃ value, map.get? key = some value := by
  simp only [keys, List.mem_map, Prod.exists, exists_and_right, exists_eq_right,
    get?_eq_some_iff]

theorem keys_sorted : map.keys.Pairwise (· < ·) :=
  List.pairwise_map.mpr map.sorted

end

/-- Maps that read the same at every key are the same map. -/
theorem ext_get? {left right : SortedMap κ ν} (agree : ∀ key, left.get? key = right.get? key) :
    left = right := by
  have sameMem : ∀ entry, entry ∈ left.entries ↔ entry ∈ right.entries := by
    rintro ⟨key, value⟩
    rw [← get?_eq_some_iff, ← get?_eq_some_iff, agree]
  have sameEntries : left.entries = right.entries := by
    apply List.Perm.eq_of_pairwise _ left.sorted right.sorted
    · have leftNodup : left.entries.Nodup := left.sorted.imp fun {x y} lt eq =>
        absurd (eq ▸ lt) (lt_irrefl _)
      have rightNodup : right.entries.Nodup := right.sorted.imp fun {x y} lt eq =>
        absurd (eq ▸ lt) (lt_irrefl _)
      exact (List.perm_ext_iff_of_nodup leftNodup rightNodup).mpr sameMem
    · intro x y _ _ lt gt
      exact absurd (lt.trans gt) (lt_irrefl _)
  rcases right with ⟨rightEntries, _⟩
  subst sameEntries
  rfl

/-! ## Sums over the entries -/

@[simp]
theorem total_empty (weight : κ → ν → ℕ) : total weight (empty : SortedMap κ ν) = 0 := rfl

theorem total_map (weight : κ → ω → ℕ) (f : κ → ν → ω) (map : SortedMap κ ν) :
    total weight (map.map f) = total (fun key value => weight key (f key value)) map := by
  simp [total, SortedMap.map, Function.comp_def]

/-- Maps whose entries weigh the same at every key have the same total. -/
theorem total_congr {weight : κ → ν → ℕ} {left right : SortedMap κ ν}
    (agree : ∀ key, (left.get? key).map (weight key) = (right.get? key).map (weight key)) :
    total weight left = total weight right := by
  have same : left.map weight = right.map weight := ext_get? fun key => by simp [agree key]
  have flat : ∀ map : SortedMap κ ν,
      total weight map = total (fun _ value => value) (map.map weight) := by
    intro map
    rw [total_map]
  rw [flat left, flat right, same]

theorem total_erase (weight : κ → ν → ℕ) (map : SortedMap κ ν) (key : κ) :
    total weight (map.erase key) + ((map.get? key).map (weight key)).getD 0 =
      total weight map := by
  rcases map with ⟨entries, sorted⟩
  simp only [total, erase, get?]
  induction entries with
  | nil => simp [lookup]
  | cons head rest ih =>
    rcases List.pairwise_cons.mp sorted with ⟨headLt, restSorted⟩
    have ihRest := ih restSorted
    by_cases headKey : head.1 = key
    · have restNone : lookup key rest = none := lookup_eq_none_of_forall_ne
        fun entry mem => headKey ▸ (headLt entry mem).ne'
      rw [List.filter_cons_of_neg (by simpa using headKey), lookup, if_pos headKey]
      rw [restNone] at ihRest
      simp only [Option.map_none, Option.getD_none, Nat.add_zero] at ihRest
      simp only [ihRest, List.map_cons, List.sum_cons, Option.map_some, Option.getD_some,
        headKey, Nat.add_comm]
    · rw [List.filter_cons_of_pos (by simpa using headKey), lookup, if_neg headKey]
      simp only [List.map_cons, List.sum_cons]
      omega

theorem total_insert (weight : κ → ν → ℕ) (map : SortedMap κ ν) (key : κ) (value : ν) :
    total weight (map.insert key value) + ((map.get? key).map (weight key)).getD 0 =
      total weight map + weight key value := by
  have back : (map.insert key value).erase key = map.erase key := ext_get? fun other => by
    by_cases same : other = key <;> simp [same]
  have grown := total_erase weight (map.insert key value) key
  have shrunk := total_erase weight map key
  rw [back] at grown
  simp only [get?_insert, if_true, Option.map_some, Option.getD_some] at grown
  omega

/-! ## Maps related entry by entry -/

/-- Both maps have the same keys, and the values at each key are related. -/
def Related (R : κ → ν → ν → Prop) (left right : SortedMap κ ν) : Prop :=
  ∀ key, Option.Rel (R key) (left.get? key) (right.get? key)

namespace Related

variable {R S : κ → ν → ν → Prop} {left middle right : SortedMap κ ν}

theorem refl (same : ∀ key value, R key value value) (map : SortedMap κ ν) : Related R map map := by
  intro key
  rcases map.get? key with _ | value
  · exact Option.Rel.none
  · exact Option.Rel.some (same key value)

theorem trans (compose : ∀ key {x y z}, R key x y → R key y z → R key x z)
    (first : Related R left middle) (second : Related R middle right) : Related R left right := by
  intro key
  have firstKey := first key
  have secondKey := second key
  rcases hl : left.get? key with _ | x <;> rcases hm : middle.get? key with _ | y <;>
    rcases hr : right.get? key with _ | z <;> rw [hl, hm] at firstKey <;>
    rw [hm, hr] at secondKey <;> cases firstKey <;> cases secondKey
  · exact Option.Rel.none
  · rename_i first second
    exact Option.Rel.some (compose key first second)

theorem imp (weaken : ∀ key old new, left.get? key = some old → R key old new → S key old new)
    (related : Related R left right) : Related S left right := by
  intro key
  have relatedKey := related key
  rcases hl : left.get? key with _ | x <;> rcases hr : right.get? key with _ | y <;>
    rw [hl, hr] at relatedKey <;> cases relatedKey
  · exact Option.Rel.none
  · rename_i holds
    exact Option.Rel.some (weaken key x y hl holds)

section

variable (related : Related R left right)

include related

theorem left_of_right {key : κ} {new : ν} (found : right.get? key = some new) :
    ∃ old, left.get? key = some old ∧ R key old new := by
  have relatedKey := related key
  rw [found] at relatedKey
  rcases hl : left.get? key with _ | old <;> rw [hl] at relatedKey <;> cases relatedKey
  rename_i holds
  exact ⟨old, rfl, holds⟩

theorem right_of_left {key : κ} {old : ν} (found : left.get? key = some old) :
    ∃ new, right.get? key = some new ∧ R key old new := by
  have relatedKey := related key
  rw [found] at relatedKey
  rcases hr : right.get? key with _ | new <;> rw [hr] at relatedKey <;> cases relatedKey
  rename_i holds
  exact ⟨new, rfl, holds⟩

theorem right_none {key : κ} (absent : left.get? key = none) : right.get? key = none := by
  rcases found : right.get? key with _ | new
  · rfl
  · rcases related.left_of_right found with ⟨old, present, _⟩
    simp [absent] at present

end

theorem map {f : κ → ν → ν} (map : SortedMap κ ν)
    (changed : ∀ key value, map.get? key = some value → R key value (f key value)) :
    Related R map (map.map f) := by
  intro key
  rw [get?_map]
  rcases found : map.get? key with _ | value
  · exact Option.Rel.none
  · exact Option.Rel.some (changed key value found)

theorem modify (same : ∀ key value, R key value value) (map : SortedMap κ ν) (key : κ) {f : ν → ν}
    (changed : ∀ value, map.get? key = some value → R key value (f value)) :
    Related R map (map.modify key f) := by
  apply Related.map
  intro other value found
  split
  · rename_i here
    subst here
    exact changed value found
  · exact same other value

theorem insert (same : ∀ key value, R key value value) (map : SortedMap κ ν) {key : κ} {old new : ν}
    (found : map.get? key = some old) (changed : R key old new) :
    Related R map (map.insert key new) := by
  intro other
  rw [get?_insert]
  split
  · rename_i here
    rw [here, found]
    exact Option.Rel.some changed
  · exact refl same map other

theorem total_eq {weight : κ → ν → ℕ} (related : Related R left right)
    (agree : ∀ key old new, R key old new → weight key new = weight key old) :
    total weight right = total weight left := by
  apply total_congr
  intro key
  have relatedKey := related key
  rcases hl : left.get? key with _ | x <;> rcases hr : right.get? key with _ | y <;>
    rw [hl, hr] at relatedKey <;> cases relatedKey
  rename_i holds
  simp [agree key x y holds]

end Related

end SortedMap
