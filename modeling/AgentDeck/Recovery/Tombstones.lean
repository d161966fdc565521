import AgentDeck.Lib.Recent
import AgentDeck.Recovery.Ledger

/-!
# The tombstones a ledger lists

The ledger keeps its tombstones three times: by id, in one queue for each instance, and in one order
for all. `Lists` says that all three show one list of settlements. Each step of `settle` keeps it,
with the list changed as the step says, and together they admit a settlement as the history's
`admitted` and `rtake` do (`lists_settle`).
-/

namespace AgentDeck.Recovery

open AgentDeck.Recent (inGroup recent admitted)

/-- A settled task as the ledger keeps it: its id, under the instance it was queued for. -/
structure Settlement where
  taskId : Text
  queue : Text
  deriving DecidableEq

/-- The settled ids of one instance, oldest first. -/
def idsOf (store : List Settlement) (key : Text) : List Text :=
  (store.filter (inGroup Settlement.queue key)).map Settlement.taskId

/-- The ledger shows these tombstones, in this order, wherever it keeps them. -/
structure Lists (ledger : TaskLedger) (store : List Settlement) : Prop where
  order : ledger.order = store.map Settlement.taskId
  once : (store.map Settlement.taskId).Nodup
  settled : ∀ entry, entry ∈ store ↔ ∃ task, ledger.settled.get? entry.taskId = some task ∧
    task.instance_ = entry.queue
  known : ∀ taskId, (ledger.settled.get? taskId).isSome = true →
    taskId ∈ store.map Settlement.taskId
  queues : ∀ key, (ledger.byInstance.get? key).getD [] = idsOf store key
  nonempty : ∀ key, ledger.byInstance.get? key ≠ some []

section Store

variable {store older newer : List Settlement} {entry : Settlement} {key : Text}

theorem idsOf_append : idsOf (older ++ newer) key = idsOf older key ++ idsOf newer key := by
  simp only [idsOf, List.filter_append, List.map_append]

theorem idsOf_own (entry : Settlement) : idsOf [entry] entry.queue = [entry.taskId] := by
  simp only [idsOf, inGroup, List.filter_cons, decide_true, if_true, List.filter_nil, List.map_cons,
    List.map_nil]

theorem idsOf_other (entry : Settlement) (different : entry.queue ≠ key) :
    idsOf [entry] key = [] := by
  simp only [idsOf, inGroup, List.filter_cons, different, decide_false, Bool.false_eq_true,
    if_false, List.filter_nil, List.map_nil]

theorem length_idsOf (store : List Settlement) (key : Text) :
    (idsOf store key).length = store.countP (inGroup Settlement.queue key) := by
  rw [idsOf, List.length_map, List.countP_eq_length_filter]

theorem countP_own (entry : Settlement) (rest : List Settlement) :
    (entry :: rest).countP (inGroup Settlement.queue entry.queue) =
      rest.countP (inGroup Settlement.queue entry.queue) + 1 :=
  List.countP_cons_of_pos (decide_eq_true rfl)

theorem idsOf_subset : idsOf store key ⊆ store.map Settlement.taskId := by
  intro taskId mem
  rcases List.mem_map.mp mem with ⟨entry, entryMem, rfl⟩
  exact List.mem_map_of_mem (List.mem_of_mem_filter entryMem)

theorem eq_of_taskId (once : (store.map Settlement.taskId).Nodup) {left right : Settlement}
    (leftMem : left ∈ store) (rightMem : right ∈ store) (same : left.taskId = right.taskId) :
    left = right :=
  List.inj_on_of_nodup_map once leftMem rightMem same

theorem filter_ne_middle {front back : List Text} {id : Text} (once : (front ++ id :: back).Nodup) :
    (front ++ id :: back).filter (fun other => decide (other ≠ id)) = front ++ back := by
  rcases List.nodup_append.mp once with ⟨_, backOnce, apart⟩
  rw [List.filter_append, List.filter_cons_of_neg (by simp)]
  congr 1
  · apply List.filter_eq_self.mpr
    intro other mem
    exact decide_eq_true (apart other mem id List.mem_cons_self)
  · apply List.filter_eq_self.mpr
    intro other mem
    apply decide_eq_true
    intro equal
    exact (List.nodup_cons.mp backOnce).1 (equal ▸ mem)

end Store

namespace Lists

variable {ledger : TaskLedger} {store front back : List Settlement} {entry : Settlement}
    {key : Text}

theorem empty (perInstance : ℕ) : Lists (.new perInstance) [] where
  order := rfl
  once := List.nodup_nil
  settled := by
    intro entry
    constructor
    · intro mem
      cases mem
    · rintro ⟨task, found, _⟩
      cases found
  known := by
    intro taskId known
    cases known
  queues := fun key => rfl
  nonempty := by
    intro key found
    cases found

/-- A listed task is still settled. -/
theorem settled_of_mem (lists : Lists ledger store) {taskId : Text}
    (listed : taskId ∈ store.map Settlement.taskId) : (ledger.settled.get? taskId).isSome := by
  rcases List.mem_map.mp listed with ⟨entry, mem, rfl⟩
  rcases (lists.settled entry).mp mem with ⟨task, found, _⟩
  rw [found]
  rfl

theorem isSome_iff (lists : Lists ledger store) (taskId : Text) :
    (ledger.settled.get? taskId).isSome = true ↔ taskId ∈ ledger.order := by
  rw [lists.order]
  exact ⟨lists.known taskId, lists.settled_of_mem⟩

/-- A settlement goes to the end of the list, under its own instance. -/
theorem entomb (lists : Lists ledger store) {taskId : Text}
    (fresh : taskId ∉ store.map Settlement.taskId) (task : Task) (tombstone : Tombstone) :
    Lists (ledger.entomb taskId task tombstone) (store ++ [⟨taskId, task.binding.queue⟩]) where
  order := by
    simp only [TaskLedger.entomb, lists.order, List.map_append, List.map_cons, List.map_nil]
  once := by
    rw [List.map_append]
    apply List.nodup_append.mpr
    refine ⟨lists.once, List.nodup_singleton _, ?_⟩
    intro other mem id single equal
    have own : id = taskId := List.mem_singleton.mp single
    exact fresh (own ▸ equal ▸ mem)
  settled := by
    intro entry
    simp only [TaskLedger.entomb, SortedMap.get?_insert, List.mem_append, List.mem_singleton]
    by_cases own : entry.taskId = taskId
    · have absent : entry ∉ store := fun mem => fresh (own ▸ List.mem_map_of_mem mem)
      simp only [own, if_true, absent, false_or, Option.some.injEq, exists_eq_left']
      rcases entry with ⟨id, queue⟩
      simp only at own
      simp only [Settlement.mk.injEq, own, true_and]
      exact eq_comm
    · simp only [own, if_false]
      rw [← lists.settled entry]
      constructor
      · rintro (mem | equal)
        · exact mem
        · exact absurd (congrArg Settlement.taskId equal) own
      · exact fun mem => Or.inl mem
  known := by
    intro other known
    simp only [TaskLedger.entomb, SortedMap.get?_insert] at known
    rw [List.map_append, List.mem_append]
    by_cases own : other = taskId
    · right
      rw [own]
      exact List.mem_singleton_self _
    · left
      rw [if_neg own] at known
      exact lists.known other known
  queues := by
    intro other
    simp only [TaskLedger.entomb, SortedMap.get?_insert, idsOf_append]
    by_cases own : other = task.binding.queue
    · rw [if_pos own, own, lists.queues]
      exact congrArg _ (idsOf_own ⟨taskId, task.binding.queue⟩).symm
    · rw [if_neg own, lists.queues, idsOf_other ⟨taskId, task.binding.queue⟩
        (fun equal => own equal.symm), List.append_nil]
  nonempty := by
    intro other
    simp only [TaskLedger.entomb, SortedMap.get?_insert]
    split
    · simp only [ne_eq, Option.some.injEq, List.append_eq_nil_iff, List.cons_ne_self, and_false,
        not_false_eq_true]
    · exact lists.nonempty other

section

variable (lists : Lists ledger (front ++ entry :: back))

include lists

theorem settled_without (other : Settlement) :
    other ∈ front ++ back ↔ ∃ task, (ledger.settled.erase entry.taskId).get? other.taskId =
      some task ∧ task.instance_ = other.queue := by
  have once := lists.once
  rw [List.map_append] at once
  have apart := (List.nodup_middle.mp once)
  rw [← List.map_append] at apart
  have gone := (List.nodup_cons.mp apart).1
  rw [SortedMap.get?_erase]
  by_cases own : other.taskId = entry.taskId
  · rw [if_pos own]
    constructor
    · intro mem
      exact absurd (own ▸ List.mem_map_of_mem mem) gone
    · rintro ⟨task, found, _⟩
      cases found
  · rw [if_neg own, ← lists.settled other, List.mem_append, List.mem_append, List.mem_cons]
    constructor
    · rintro (mem | mem)
      · exact Or.inl mem
      · exact Or.inr (Or.inr mem)
    · rintro (mem | equal | mem)
      · exact Or.inl mem
      · exact absurd (congrArg Settlement.taskId equal) own
      · exact Or.inr mem

theorem known_without {taskId : Text}
    (known : ((ledger.settled.erase entry.taskId).get? taskId).isSome) :
    taskId ∈ (front ++ back).map Settlement.taskId := by
  rw [SortedMap.get?_erase] at known
  split at known
  · cases known
  · rename_i own
    have listed := lists.known taskId known
    rw [List.map_append, List.map_cons, List.mem_append, List.mem_cons] at listed
    rw [List.map_append, List.mem_append]
    rcases listed with mem | equal | mem
    · exact Or.inl mem
    · exact absurd equal own
    · exact Or.inr mem

theorem once_without : ((front ++ back).map Settlement.taskId).Nodup := by
  have once := lists.once
  rw [List.map_append] at once
  rw [List.map_append]
  exact (List.nodup_cons.mp (List.nodup_middle.mp once)).2

/-- The oldest settlement of an instance is forgotten; the others stay listed in order. -/
theorem forget_oldest (first : idsOf front entry.queue = [])
    (others : idsOf back entry.queue ≠ []) :
    Lists (TaskLedger.forget
        { ledger with byInstance := ledger.byInstance.insert entry.queue (idsOf back entry.queue) }
        entry.taskId) (front ++ back) where
  order := by
    have once := lists.once
    simp only [TaskLedger.forget, lists.order]
    rw [List.map_append, List.map_cons] at once ⊢
    rw [filter_ne_middle once, List.map_append]
  once := lists.once_without
  settled := lists.settled_without
  known := fun taskId known => lists.known_without known
  queues := by
    intro other
    simp only [TaskLedger.forget, SortedMap.get?_insert, idsOf_append]
    by_cases own : other = entry.queue
    · rw [if_pos own, Option.getD_some, own, first, List.nil_append]
    · rw [if_neg own, lists.queues, idsOf_append, ← List.singleton_append, idsOf_append,
        idsOf_other entry (fun equal => own equal.symm), List.nil_append]
  nonempty := by
    intro other
    simp only [TaskLedger.forget, SortedMap.get?_insert]
    split
    · rw [ne_eq, Option.some.injEq]
      exact others
    · exact lists.nonempty other

end

theorem get?_queue (lists : Lists ledger store) (key : Text) (listed : idsOf store key ≠ []) :
    ledger.byInstance.get? key = some (idsOf store key) := by
  have queue := lists.queues key
  cases found : ledger.byInstance.get? key with
  | none =>
    rw [found] at queue
    exact absurd queue.symm listed
  | some ids =>
    rw [found, Option.getD_some] at queue
    rw [queue]

/-- The oldest settlement of all is forgotten, and its instance with its last one. -/
theorem unqueue_oldest (lists : Lists ledger (entry :: back)) :
    Lists (TaskLedger.unqueue { ledger with order := back.map Settlement.taskId } entry.taskId)
      back := by
  have whole : Lists ledger ([] ++ entry :: back) := lists
  have single : idsOf (entry :: back) entry.queue = entry.taskId :: idsOf back entry.queue := by
    rw [← List.singleton_append, idsOf_append, idsOf_own, List.singleton_append]
  have queue := lists.get?_queue entry.queue (by rw [single]; exact List.cons_ne_nil _ _)
  have fresh : entry.taskId ∉ back.map Settlement.taskId := (List.nodup_cons.mp lists.once).1
  have ids : (idsOf (entry :: back) entry.queue).filter (fun id => decide (id ≠ entry.taskId)) =
      idsOf back entry.queue := by
    rw [single, List.filter_cons_of_neg (by simp)]
    apply List.filter_eq_self.mpr
    intro id mem
    exact decide_eq_true fun equal => fresh (equal ▸ idsOf_subset mem)
  rcases (lists.settled entry).mp List.mem_cons_self with ⟨task, found, sameQueue⟩
  have read : TaskLedger.unqueue { ledger with order := back.map Settlement.taskId } entry.taskId =
      { ledger with
        order := back.map Settlement.taskId
        settled := ledger.settled.erase entry.taskId
        byInstance :=
          if (idsOf back entry.queue).isEmpty then
            (ledger.byInstance.insert entry.queue (idsOf back entry.queue)).erase entry.queue
          else ledger.byInstance.insert entry.queue (idsOf back entry.queue) } := by
    simp only [TaskLedger.unqueue, found, sameQueue, queue, ids]
  have shown : ∀ other, ((if (idsOf back entry.queue).isEmpty then
      (ledger.byInstance.insert entry.queue (idsOf back entry.queue)).erase entry.queue
      else ledger.byInstance.insert entry.queue (idsOf back entry.queue)).get? other) =
      if other = entry.queue then
        if (idsOf back entry.queue).isEmpty then none else some (idsOf back entry.queue)
      else ledger.byInstance.get? other := by
    intro other
    split <;> simp only [SortedMap.get?_erase, SortedMap.get?_insert] <;> split <;> rfl
  rw [read]
  refine ⟨rfl, ?_, ?_, ?_, ?_, ?_⟩
  · exact whole.once_without
  · exact whole.settled_without
  · exact fun taskId known => whole.known_without known
  · intro other
    simp only [shown]
    by_cases own : other = entry.queue
    · rw [if_pos own, own]
      split
      · rename_i absent
        rw [List.isEmpty_iff.mp absent]
        rfl
      · rfl
    · rw [if_neg own, lists.queues, ← List.singleton_append, idsOf_append,
        idsOf_other entry (fun equal => own equal.symm), List.nil_append]
  · intro other
    simp only [shown]
    by_cases own : other = entry.queue
    · rw [if_pos own]
      split
      · intro found
        cases found
      · rename_i present
        rw [ne_eq, Option.some.injEq]
        exact fun absent => present (List.isEmpty_iff.mpr absent)
    · rw [if_neg own]
      exact lists.nonempty other

end Lists

end AgentDeck.Recovery
