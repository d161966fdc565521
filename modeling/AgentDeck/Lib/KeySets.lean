import AgentDeck.Lib.SortedMap
import Mathlib.Algebra.BigOperators.Group.Finset.Piecewise
import Mathlib.Algebra.Order.BigOperators.Group.Finset

/-!
# The keys of a sorted map

A total over a map is a sum over the set of its keys. Entries are inserted in any order where their
keys differ.
-/

universe u v

namespace SortedMap

variable {κ : Type u} {ν : Type v} [LinearOrder κ]

def keySet (map : SortedMap κ ν) : Finset κ := map.keys.toFinset

/-- What `weight` gives the entry at `key`, and nothing where there is none. -/
def weigh (weight : κ → ν → ℕ) (map : SortedMap κ ν) (key : κ) : ℕ :=
  ((map.get? key).map (weight key)).getD 0

theorem mem_keySet (map : SortedMap κ ν) (key : κ) : key ∈ map.keySet ↔ (map.get? key).isSome := by
  rw [keySet, List.mem_toFinset, mem_keys_iff, Option.isSome_iff_exists]

theorem not_mem_keySet (map : SortedMap κ ν) (key : κ) :
    key ∉ map.keySet ↔ map.get? key = none := by
  rw [mem_keySet, Bool.not_eq_true, Option.isSome_eq_false_iff, Option.isNone_iff_eq_none]

variable {weight : κ → ν → ℕ} {map : SortedMap κ ν}

theorem weigh_of_get? {key : κ} {value : ν} (here : map.get? key = some value) :
    weigh weight map key = weight key value := by
  rw [weigh, here]
  rfl

theorem weigh_of_none {key : κ} (absent : map.get? key = none) : weigh weight map key = 0 := by
  rw [weigh, absent]
  rfl

theorem total_eq_sum (weight : κ → ν → ℕ) (map : SortedMap κ ν) :
    total weight map = ∑ key ∈ map.keySet, weigh weight map key := by
  have nodup : map.keys.Nodup := map.keys_sorted.imp fun lt => lt.ne
  rw [keySet, List.sum_toFinset _ nodup, keys, List.map_map]
  refine congrArg List.sum (List.map_congr_left fun entry mem => ?_)
  exact (weigh_of_get? ((get?_eq_some_iff map entry.1 entry.2).mpr mem)).symm

/-- A sum over more keys than the map has. -/
theorem total_eq_sum_of_subset (weight : κ → ν → ℕ) (map : SortedMap κ ν) {keys : Finset κ}
    (subset : map.keySet ⊆ keys) : total weight map = ∑ key ∈ keys, weigh weight map key := by
  rw [total_eq_sum]
  refine Finset.sum_subset subset fun key _ absent => ?_
  exact weigh_of_none ((not_mem_keySet map key).mp absent)

theorem total_weight_congr {other : κ → ν → ℕ}
    (agree : ∀ key value, map.get? key = some value → weight key value = other key value) :
    total weight map = total other map :=
  congrArg List.sum (List.map_congr_left fun entry mem =>
    agree entry.1 entry.2 ((get?_eq_some_iff map entry.1 entry.2).mpr mem))

theorem total_add (weight other : κ → ν → ℕ) (map : SortedMap κ ν) :
    total (fun key value => weight key value + other key value) map =
      total weight map + total other map :=
  List.sum_map_add

/-- What one map has at the other's keys, summed over either. -/
theorem sum_weigh_keySet {ω : Type*} (weight : κ → ν → ℕ) (map : SortedMap κ ν)
    (other : SortedMap κ ω) :
    ∑ key ∈ other.keySet, weigh weight map key =
      total (fun key value => if (other.get? key).isSome then weight key value else 0) map := by
  have here : ∀ key,
      weigh (fun key value => if (other.get? key).isSome then weight key value else 0) map key =
        if key ∈ other.keySet then weigh weight map key else 0 := by
    intro key
    simp only [mem_keySet]
    unfold weigh
    cases map.get? key with
    | none => exact (ite_self 0).symm
    | some value => rfl
  have wider : map.keySet ⊆ map.keySet ∪ other.keySet := Finset.subset_union_left
  rw [total_eq_sum_of_subset _ map wider]
  simp only [here]
  rw [Finset.sum_ite_mem, Finset.inter_eq_right.mpr Finset.subset_union_right]

theorem entry_eq {left right : κ × ν} (leftMem : left ∈ map.entries)
    (rightMem : right ∈ map.entries) (same : left.1 = right.1) : left = right := by
  have leftGet := (get?_eq_some_iff map left.1 left.2).mpr leftMem
  have rightGet := (get?_eq_some_iff map right.1 right.2).mpr rightMem
  rw [same, rightGet] at leftGet
  exact Prod.ext same (Option.some.inj leftGet).symm

@[simp]
theorem get?_filter (keep : κ → ν → Bool) (map : SortedMap κ ν) (key : κ) :
    (map.filter keep).get? key = (map.get? key).filter (keep key) := by
  refine Option.ext fun value => ?_
  rw [Option.filter_eq_some_iff, get?_eq_some_iff, get?_eq_some_iff]
  exact List.mem_filter

theorem modify_comm (map : SortedMap κ ν) {left right : κ} (differ : left ≠ right) (f g : ν → ν) :
    (map.modify left f).modify right g = (map.modify right g).modify left f := by
  refine ext_get? fun query => ?_
  simp only [get?_modify]
  by_cases isLeft : query = left
  · rw [if_neg fun isRight => differ (isLeft.symm.trans isRight), if_pos isLeft, if_pos isLeft,
      if_neg fun isRight => differ (isLeft.symm.trans isRight)]
  · rw [if_neg isLeft, if_neg isLeft]

/-- A total splits into the part of the entries that stay and the part of those filtered out. -/
theorem total_filter_add (keep : κ → ν → Bool) (weight : κ → ν → ℕ) (map : SortedMap κ ν) :
    total weight (map.filter keep) +
        total (fun key value => if keep key value then 0 else weight key value) map =
      total weight map := by
  rcases map with ⟨entries, sorted⟩
  simp only [total, filter]
  clear sorted
  induction entries with
  | nil => rfl
  | cons head rest ih =>
    rw [List.filter_cons]
    split
    · rename_i here
      simp only [List.map_cons, List.sum_cons, if_pos here]
      omega
    · rename_i here
      simp only [List.map_cons, List.sum_cons, if_neg here]
      omega

theorem insertEntry_perm {key : κ} {entries : List (κ × ν)} (value : ν)
    (absent : ∀ entry ∈ entries, entry.1 ≠ key) :
    (insertEntry key value entries).Perm ((key, value) :: entries) := by
  induction entries with
  | nil => exact List.Perm.refl _
  | cons head rest ih =>
    rw [List.forall_mem_cons] at absent
    simp only [insertEntry]
    split
    · exact List.Perm.refl _
    · rw [if_neg (Ne.symm absent.1)]
      exact ((ih absent.2).cons head).trans (List.Perm.swap _ _ _)

/-- Inserting items one after the other, where those of one key have one value. -/
theorem get?_foldl_insert {α : Type*} (key : α → κ) (value : α → ν) {items : List α}
    (agree : ∀ x ∈ items, ∀ y ∈ items, key x = key y → value x = value y) (query : κ) (found : ν) :
    (items.foldl (fun map item => map.insert (key item) (value item)) empty).get? query =
        some found ↔
      ∃ item ∈ items, key item = query ∧ value item = found := by
  induction items using List.reverseRecOn with
  | nil => simp
  | append_singleton items last ih =>
    have before := ih fun x xMem y yMem =>
      agree x (List.mem_append_left _ xMem) y (List.mem_append_left _ yMem)
    rw [List.foldl_concat, get?_insert]
    split
    · rename_i here
      constructor
      · intro same
        exact ⟨last, by simp, here.symm, Option.some.inj same⟩
      · rintro ⟨item, mem, atQuery, same⟩
        rw [← same, agree item mem last (by simp) (atQuery.trans here)]
    · rename_i elsewhere
      rw [before]
      constructor
      · rintro ⟨item, mem, rest⟩
        exact ⟨item, List.mem_append_left _ mem, rest⟩
      · rintro ⟨item, mem, atQuery, same⟩
        rcases List.mem_append.mp mem with early | late
        · exact ⟨item, early, atQuery, same⟩
        · rw [List.mem_singleton.mp late] at atQuery
          exact absurd atQuery.symm elsewhere

/-- Rebuilding a map from its entries in any order. -/
theorem foldl_insert_entries {ω : Type*} (f : κ → ν → ω) {entries : List (κ × ν)}
    (perm : entries.Perm map.entries) :
    entries.foldl (fun built entry => built.insert entry.1 (f entry.1 entry.2)) empty =
      map.map f := by
  refine ext_get? fun query => Option.ext fun found => ?_
  have agree : ∀ x ∈ entries, ∀ y ∈ entries, x.1 = y.1 → f x.1 x.2 = f y.1 y.2 := by
    intro x xMem y yMem same
    rw [entry_eq (perm.mem_iff.mp xMem) (perm.mem_iff.mp yMem) same]
  rw [get?_foldl_insert Prod.fst (fun entry => f entry.1 entry.2) agree, get?_map,
    Option.map_eq_some_iff]
  constructor
  · rintro ⟨entry, mem, rfl, same⟩
    exact ⟨entry.2, (get?_eq_some_iff map entry.1 entry.2).mpr (perm.mem_iff.mp mem), same⟩
  · rintro ⟨value, here, same⟩
    exact ⟨(query, value), perm.mem_iff.mpr ((get?_eq_some_iff map query value).mp here), rfl,
      same⟩

/-- A fresh key adds its entry. -/
theorem insert_perm {key : κ} (value : ν) (fresh : map.get? key = none) :
    (map.insert key value).entries.Perm ((key, value) :: map.entries) := by
  refine insertEntry_perm value fun entry mem same => ?_
  have here := (get?_eq_some_iff map entry.1 entry.2).mpr mem
  rw [same, fresh] at here
  cases here

end SortedMap
