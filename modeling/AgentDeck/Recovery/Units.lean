import AgentDeck.Lib.KeySets
import AgentDeck.Recovery.Ledger

/-!
# Evicting units

One pass over the listed units, oldest first, decides each by what the table said of it at the
start: evicting a unit takes its own entries out and no other unit's (`generationsOf_forget`,
`isClaimed_erase`). So a pass evicts a beginning of the removable units.
-/

namespace AgentDeck.Recovery.UnitTable

variable {units : SortedMap Text UnitEntry} {byGeneration : SortedMap Generation Text}
  {guarded : Text → List Generation → Bool} {unit other : Text}

def removable (guarded : Text → List Generation → Bool) (units : SortedMap Text UnitEntry)
    (byGeneration : SortedMap Generation Text) (unit : Text) : Bool :=
  !(isClaimed units unit || guarded unit (generationsOf byGeneration unit))

def forget (byGeneration : SortedMap Generation Text) (unit : Text) : SortedMap Generation Text :=
  byGeneration.filter fun _ indexed => decide (indexed ≠ unit)

theorem entries_foldl_erase (generations : List Generation)
    (byGeneration : SortedMap Generation Text) :
    (generations.foldl (fun map generation => map.erase generation) byGeneration).entries =
      byGeneration.entries.filter fun entry => decide (entry.1 ∉ generations) := by
  induction generations generalizing byGeneration with
  | nil => simp only [List.foldl_nil, List.not_mem_nil, not_false_eq_true, decide_true,
      List.filter_true]
  | cons generation generations ih =>
    rw [List.foldl_cons, ih, SortedMap.erase, List.filter_filter]
    apply List.filter_congr
    intro entry _
    simp only [List.mem_cons, not_or, ← Bool.decide_and, decide_eq_decide]
    exact and_comm

theorem eq_of_entries {left right : SortedMap Generation Text}
    (same : left.entries = right.entries) : left = right := by
  rw [SortedMap.mk.injEq]
  exact same

theorem foldl_erase_generationsOf (byGeneration : SortedMap Generation Text) (unit : Text) :
    (generationsOf byGeneration unit).foldl (fun map generation => map.erase generation)
      byGeneration = forget byGeneration unit := by
  apply eq_of_entries
  rw [entries_foldl_erase]
  apply List.filter_congr
  intro entry mem
  rw [decide_eq_decide, not_iff_not, generationsOf, List.mem_map]
  constructor
  · rintro ⟨named, namedMem, sameKey⟩
    rw [List.mem_filter, decide_eq_true_eq] at namedMem
    rw [← SortedMap.entry_eq namedMem.1 mem sameKey]
    exact namedMem.2
  · intro named
    exact ⟨entry, List.mem_filter.mpr ⟨mem, decide_eq_true named⟩, rfl⟩

theorem generationsOf_forget (different : other ≠ unit) :
    generationsOf (forget byGeneration unit) other = generationsOf byGeneration other := by
  simp only [generationsOf, forget, SortedMap.filter, List.filter_filter]
  congr 1
  apply List.filter_congr
  intro entry _
  by_cases named : entry.2 = other
  · simp only [named, different, ne_eq, not_false_eq_true, Bool.and_self]
  · simp only [named, decide_false, Bool.false_and]

theorem isClaimed_erase (different : other ≠ unit) :
    isClaimed (units.erase unit) other = isClaimed units other := by
  simp only [isClaimed, SortedMap.get?_erase, if_neg different]

theorem removable_forget (different : other ≠ unit) :
    removable guarded (units.erase unit) (forget byGeneration unit) other =
      removable guarded units byGeneration other := by
  simp only [removable, generationsOf_forget different, isClaimed_erase different]

/-- What a sweep of `order` evicts, `waiting` units being listed before it. -/
def evictable (cap : ℕ) (guarded : Text → List Generation → Bool)
    (units : SortedMap Text UnitEntry) (byGeneration : SortedMap Generation Text) (waiting : ℕ)
    (order : List Text) : List Text :=
  (order.filter (removable guarded units byGeneration)).take (order.length + waiting - cap)

/-- The table after the units `gone` are evicted, in the parts a sweep works on. -/
structure Swept (units : SortedMap Text UnitEntry) (byGeneration : SortedMap Generation Text)
    (kept evicted order gone : List Text) (result : Sweep) : Prop where
  evicted : result.evicted = evicted ++ gone
  listed : result.kept ++ result.order = kept ++ order.filter fun unit => decide (unit ∉ gone)
  units : ∀ unit, result.units.get? unit = if unit ∈ gone then none else units.get? unit
  indexed : ∀ generation, result.byGeneration.get? generation =
    (byGeneration.get? generation).filter fun unit => decide (unit ∉ gone)

variable {order : List Text}

theorem filter_not_mem_of_disjoint {gone : List Text} (disjoint : ∀ unit ∈ order, unit ∉ gone) :
    order.filter (fun unit => decide (unit ∉ gone)) = order :=
  List.filter_eq_self.mpr fun unit mem => decide_eq_true (disjoint unit mem)

theorem filter_none_gone (found : Option Text) :
    found.filter (fun unit => decide (unit ∉ ([] : List Text))) = found := by
  cases found with
  | none => rfl
  | some unit => rfl

theorem evictable_cons_kept {cap waiting : ℕ}
    (spared : removable guarded units byGeneration unit = false) :
    evictable cap guarded units byGeneration waiting (unit :: order) =
      evictable cap guarded units byGeneration (waiting + 1) order := by
  simp only [evictable]
  rw [List.filter_cons_of_neg (by rw [spared]; exact Bool.false_ne_true), List.length_cons,
    Nat.add_right_comm, Nat.add_assoc]

theorem evictable_cons_gone {cap waiting : ℕ} (full : cap < order.length + 1 + waiting)
    (goes : removable guarded units byGeneration unit) (fresh : unit ∉ order) :
    evictable cap guarded units byGeneration waiting (unit :: order) =
      unit :: evictable cap guarded (units.erase unit) (forget byGeneration unit)
        waiting order := by
  have same : order.filter (removable guarded (units.erase unit) (forget byGeneration unit)) =
      order.filter (removable guarded units byGeneration) := by
    apply List.filter_congr
    intro other mem
    exact removable_forget fun equal => fresh (equal ▸ mem)
  simp only [evictable, same]
  rw [List.filter_cons_of_pos goes, List.length_cons,
    show order.length + 1 + waiting - cap = (order.length + waiting - cap) + 1 by omega,
    List.take_succ_cons]

theorem sweep_spec (cap : ℕ) (guarded : Text → List Generation → Bool)
    (units : SortedMap Text UnitEntry) (byGeneration : SortedMap Generation Text)
    (listedOnce : order.Nodup) (kept evicted : List Text) :
    Swept units byGeneration kept evicted order
      (evictable cap guarded units byGeneration kept.length order)
      (sweep cap guarded units byGeneration kept evicted order) := by
  induction order generalizing units byGeneration kept evicted with
  | nil =>
    have absent : evictable cap guarded units byGeneration kept.length [] = [] := by
      simp only [evictable, List.filter_nil, List.take_nil]
    rw [absent]
    exact ⟨(List.append_nil _).symm, rfl, fun unit => rfl,
      fun generation => (filter_none_gone _).symm⟩
  | cons unit order ih =>
    rcases List.nodup_cons.mp listedOnce with ⟨fresh, rest⟩
    simp only [sweep, List.length_cons]
    by_cases full : cap < order.length + 1 + kept.length
    · rw [if_pos full]
      by_cases spared : removable guarded units byGeneration unit = false
      · have stays : (isClaimed units unit || guarded unit (generationsOf byGeneration unit)) =
            true := by simpa only [removable, Bool.not_eq_false'] using spared
        rw [if_pos stays, evictable_cons_kept spared]
        have swept := ih units byGeneration rest (kept ++ [unit]) evicted
        rw [List.length_append, List.length_singleton] at swept
        have notGone : unit ∉ evictable cap guarded units byGeneration (kept.length + 1) order :=
          fun gone => fresh (List.mem_of_mem_filter (List.mem_of_mem_take gone))
        refine ⟨swept.evicted, ?_, swept.units, swept.indexed⟩
        rw [swept.listed, List.append_assoc]
        simp only [List.filter_cons, notGone, not_false_eq_true, decide_true, if_true,
          List.singleton_append]
      · rw [Bool.not_eq_false] at spared
        have goes : (isClaimed units unit || guarded unit (generationsOf byGeneration unit)) =
            false := by simpa only [removable, Bool.not_eq_true'] using spared
        rw [if_neg (by rw [goes]; exact Bool.false_ne_true), foldl_erase_generationsOf,
          evictable_cons_gone full spared fresh]
        have swept := ih (units.erase unit) (forget byGeneration unit) rest kept
          (evicted ++ [unit])
        refine ⟨?_, ?_, ?_, ?_⟩
        · rw [swept.evicted, List.append_assoc]
          rfl
        · rw [swept.listed, List.filter_cons_of_neg
            (by simp only [List.mem_cons, true_or, not_true_eq_false, decide_false]
                exact Bool.false_ne_true)]
          congr 1
          apply List.filter_congr
          intro other mem
          have different : other ≠ unit := fun equal => fresh (equal ▸ mem)
          simp only [List.mem_cons, different, false_or]
        · intro other
          rw [swept.units, SortedMap.get?_erase]
          by_cases same : other = unit
          · simp only [same, List.mem_cons, true_or, if_true, ite_self]
          · simp only [same, List.mem_cons, false_or, if_false]
        · intro generation
          rw [swept.indexed, forget, SortedMap.get?_filter]
          cases byGeneration.get? generation with
          | none => rfl
          | some named =>
            by_cases same : named = unit
            · simp [same]
            · simp
    · rw [if_neg full]
      have absent : evictable cap guarded units byGeneration kept.length (unit :: order) = [] := by
        rw [evictable, List.length_cons, Nat.sub_eq_zero_of_le (by omega), List.take_zero]
      rw [absent]
      refine ⟨(List.append_nil _).symm, ?_, fun unit => rfl,
        fun generation => (filter_none_gone _).symm⟩
      rw [filter_not_mem_of_disjoint fun unit _ => List.not_mem_nil]

def evict (table : UnitTable) (guarded : Text → List Generation → Bool) : List Text × UnitTable :=
  let result := sweep table.cap guarded table.units table.byGeneration [] [] table.order
  (result.evicted,
    { units := result.units
      byGeneration := result.byGeneration
      order := result.kept ++ result.order
      cap := table.cap
      listedOnce := by
        have swept := sweep_spec table.cap guarded table.units table.byGeneration
          table.listedOnce [] []
        rw [swept.listed]
        exact table.listedOnce.filter _ })

/-- What an eviction answers and leaves, said of the table it starts from. -/
structure Evicts (table : UnitTable) (guarded : Text → List Generation → Bool)
    (evicted : List Text) (left : UnitTable) : Prop where
  oldest : evicted = (table.order.filter
    (removable guarded table.units table.byGeneration)).take (table.order.length - table.cap)
  survivors : left.order = table.order.filter fun unit => decide (unit ∉ evicted)
  enough : left.order.length ≤ table.cap ∨
    ∀ unit ∈ left.order, removable guarded table.units table.byGeneration unit = false
  units : ∀ unit, left.units.get? unit = if unit ∈ evicted then none else table.units.get? unit
  indexed : ∀ generation, left.byGeneration.get? generation =
    (table.byGeneration.get? generation).filter fun unit => decide (unit ∉ evicted)
  unnamed : ∀ generation unit, left.byGeneration.get? generation = some unit → unit ∉ evicted
  cap : left.cap = table.cap

theorem enough_of_oldest (listedOnce : order.Nodup) (goes : Text → Bool) (cap : ℕ)
    {evicted : List Text} (oldest : evicted = (order.filter goes).take (order.length - cap)) :
    (order.filter fun unit => decide (unit ∉ evicted)).length ≤ cap ∨
      ∀ unit ∈ order.filter (fun unit => decide (unit ∉ evicted)), goes unit = false := by
  by_cases all : (order.filter goes).length ≤ order.length - cap
  · right
    rw [List.take_of_length_le all] at oldest
    intro unit mem
    rw [List.mem_filter, decide_eq_true_eq, oldest, List.mem_filter] at mem
    rw [← Bool.not_eq_true]
    exact fun removable => mem.2 ⟨mem.1, removable⟩
  · have length : evicted.length = order.length - cap := by
      rw [oldest, List.length_take]
      omega
    have sublist : List.Sublist evicted order := by
      rw [oldest]
      exact (List.take_sublist _ _).trans List.filter_sublist
    have split := List.length_eq_length_filter_add (l := order) fun unit => decide (unit ∈ evicted)
    have among : (order.filter fun unit => decide (unit ∈ evicted)).length = evicted.length := by
      apply List.Perm.length_eq
      rw [List.perm_ext_iff_of_nodup (listedOnce.filter _) (sublist.nodup listedOnce)]
      intro unit
      rw [List.mem_filter, decide_eq_true_eq]
      exact ⟨fun mem => mem.2, fun mem => ⟨sublist.subset mem, mem⟩⟩
    have rest : (order.filter fun unit => !decide (unit ∈ evicted)) =
        order.filter fun unit => decide (unit ∉ evicted) :=
      List.filter_congr fun unit _ => (decide_not).symm
    rw [rest] at split
    omega

theorem evict_spec (table : UnitTable) (guarded : Text → List Generation → Bool) :
    Evicts table guarded (table.evict guarded).1 (table.evict guarded).2 := by
  have swept := sweep_spec table.cap guarded table.units table.byGeneration table.listedOnce [] []
  have oldest : (table.evict guarded).1 = (table.order.filter
      (removable guarded table.units table.byGeneration)).take
        (table.order.length - table.cap) := by
    simp only [evict]
    rw [swept.evicted]
    rfl
  have gone : (table.evict guarded).1 =
      evictable table.cap guarded table.units table.byGeneration 0 table.order := oldest
  have survivors : (table.evict guarded).2.order =
      table.order.filter fun unit => decide (unit ∉ (table.evict guarded).1) := by
    rw [gone]
    exact swept.listed
  refine ⟨oldest, survivors, ?_, ?_, ?_, ?_, rfl⟩
  · rw [survivors]
    exact enough_of_oldest table.listedOnce _ _ oldest
  · rw [gone]
    exact swept.units
  · rw [gone]
    exact swept.indexed
  · intro generation unit named
    have filtered := swept.indexed generation
    rw [gone]
    simp only [evict] at named
    rw [filtered, Option.filter_eq_some_iff, decide_eq_true_eq] at named
    exact named.2

end AgentDeck.Recovery.UnitTable
