import AgentDeck.Lib.Runs
import AgentDeck.Recovery.Tombstones
import AgentDeck.Recovery.Units

/-!
# The bounds of the ledger and of the unit table

A settlement is queued, and then each loop of `evict` has at most one round to make: the instance's
queue is one over its bound, or the whole is. What is listed after any run is the last `global` of
what the bound for each instance leaves of the history (`Lists.settled_once`, `run_sound`). This is
not the latest of the history: an instance that settles often loses its older tombstones while other
instances keep theirs.
-/

namespace AgentDeck.Recovery

open AgentDeck.Recent (inGroup recent admitted)

namespace TaskLedger

variable {ledger : TaskLedger}

theorem unqueue_kept (ledger : TaskLedger) (oldest : Text) :
    (ledger.unqueue oldest).open_ = ledger.open_ ∧
    (ledger.unqueue oldest).perInstance = ledger.perInstance ∧
    (ledger.unqueue oldest).global = ledger.global := by
  simp only [unqueue]
  split
  · split <;> exact ⟨rfl, rfl, rfl⟩
  · exact ⟨rfl, rfl, rfl⟩

theorem evictInstance_kept (ledger : TaskLedger) (key : Text) (rounds : ℕ) :
    (evictInstance key rounds ledger).open_ = ledger.open_ ∧
      (evictInstance key rounds ledger).perInstance = ledger.perInstance ∧
      (evictInstance key rounds ledger).global = ledger.global := by
  induction rounds generalizing ledger with
  | zero => exact ⟨rfl, rfl, rfl⟩
  | succ rounds ih =>
    simp only [evictInstance]
    split
    · split
      · exact ih _
      · exact ⟨rfl, rfl, rfl⟩
    · exact ⟨rfl, rfl, rfl⟩

theorem evictGlobal_kept (ledger : TaskLedger) (rounds : ℕ) :
    (evictGlobal rounds ledger).open_ = ledger.open_ ∧
      (evictGlobal rounds ledger).perInstance = ledger.perInstance ∧
      (evictGlobal rounds ledger).global = ledger.global := by
  induction rounds generalizing ledger with
  | zero => exact ⟨rfl, rfl, rfl⟩
  | succ rounds ih =>
    simp only [evictGlobal]
    split
    · split
      · rename_i oldest rest _ _
        have kept := unqueue_kept { ledger with order := rest } oldest
        have later := ih ({ ledger with order := rest }.unqueue oldest)
        exact ⟨later.1.trans kept.1, later.2.1.trans kept.2.1, later.2.2.trans kept.2.2⟩
      · exact ⟨rfl, rfl, rfl⟩
    · exact ⟨rfl, rfl, rfl⟩

theorem evict_kept (ledger : TaskLedger) (key : Text) : (ledger.evict key).open_ = ledger.open_ ∧
    (ledger.evict key).perInstance = ledger.perInstance ∧
    (ledger.evict key).global = ledger.global := by
  simp only [evict]
  have first := evictInstance_kept ledger key
    ((ledger.byInstance.get? key).getD []).length
  generalize evictInstance key _ ledger = evicted at first ⊢
  have second := evictGlobal_kept evicted evicted.order.length
  exact ⟨second.1.trans first.1, second.2.1.trans first.2.1, second.2.2.trans first.2.2⟩

end TaskLedger

namespace Lists

open TaskLedger

variable {ledger : TaskLedger} {store front back : List Settlement} {entry : Settlement}
    {key : Text}

variable (lists : Lists ledger store)

include lists

theorem evictInstance_of_room
    (room : store.countP (inGroup Settlement.queue key) ≤ ledger.perInstance) (rounds : ℕ) :
    evictInstance key rounds ledger = ledger := by
  have length : ((ledger.byInstance.get? key).getD []).length ≤ ledger.perInstance := by
    rw [lists.queues, length_idsOf]
    exact room
  cases rounds with
  | zero => rfl
  | succ rounds =>
    simp only [evictInstance]
    split
    · rename_i oldest ids found
      rw [found] at length
      exact if_neg (Nat.not_lt.mpr length)
    · rfl

omit lists in
theorem evictInstance_of_full (lists : Lists ledger (front ++ entry :: back))
    (first : idsOf front entry.queue = [])
    (full : back.countP (inGroup Settlement.queue entry.queue) = ledger.perInstance)
    (positive : 0 < ledger.perInstance) (rounds : ℕ) :
    Lists (evictInstance entry.queue (rounds + 1) ledger) (front ++ back) := by
  have listed : idsOf (front ++ entry :: back) entry.queue =
      entry.taskId :: idsOf back entry.queue := by
    rw [idsOf_append, first, List.nil_append, ← List.singleton_append, idsOf_append, idsOf_own,
      List.singleton_append]
  have queue := lists.get?_queue entry.queue (by rw [listed]; exact List.cons_ne_nil _ _)
  rw [listed] at queue
  have others : idsOf back entry.queue ≠ [] := by
    intro absent
    have length := length_idsOf back entry.queue
    rw [absent, List.length_nil] at length
    omega
  have forgot := lists.forget_oldest first others
  have exceeded : ledger.perInstance < (entry.taskId :: idsOf back entry.queue).length := by
    rw [List.length_cons, length_idsOf]
    omega
  simp only [evictInstance, queue, if_pos exceeded]
  rw [forgot.evictInstance_of_room]
  · exact forgot
  · rw [List.countP_append, ← length_idsOf, first, List.length_nil, full, Nat.zero_add]
    exact le_refl _

theorem evictGlobal_of_room (room : store.length ≤ ledger.global) (rounds : ℕ) :
    evictGlobal rounds ledger = ledger := by
  have length : ledger.order.length ≤ ledger.global := by
    rw [lists.order, List.length_map]
    exact room
  cases rounds with
  | zero => rfl
  | succ rounds =>
    simp only [evictGlobal]
    split
    · rename_i oldest rest found
      rw [found] at length
      exact if_neg (Nat.not_lt.mpr length)
    · rfl

theorem evictGlobal_last (ended : store.length ≤ ledger.global + 1) :
    Lists (evictGlobal ledger.order.length ledger) (store.rtake ledger.global) := by
  by_cases room : store.length ≤ ledger.global
  · rw [Recent.rtake_of_length_le room, lists.evictGlobal_of_room room]
    exact lists
  · cases store with
    | nil => exact absurd (Nat.zero_le _) room
    | cons entry back =>
      rw [List.length_cons] at ended room
      have order : ledger.order = entry.taskId :: back.map Settlement.taskId := lists.order
      have last : (entry :: back).rtake ledger.global = back := by
        rw [← List.singleton_append, Recent.rtake_append_of_le _ (by omega),
          Recent.rtake_of_length_le (by omega)]
      have unqueued := lists.unqueue_oldest
      have exceeded : ledger.global <
          (entry.taskId :: back.map Settlement.taskId).length := by
        rw [List.length_cons, List.length_map]
        omega
      rw [last, order, List.length_cons]
      simp only [evictGlobal, order, if_pos exceeded]
      rw [unqueued.evictGlobal_of_room]
      · exact unqueued
      · rw [(unqueue_kept _ _).2.2]
        show back.length ≤ ledger.global
        omega

omit lists in
theorem evict_admits (lists : Lists ledger (store ++ [entry])) (positive : 0 < ledger.perInstance)
    (bounded : store.countP (inGroup Settlement.queue entry.queue) ≤ ledger.perInstance)
    (within : store.length ≤ ledger.global) :
    Lists (ledger.evict entry.queue)
      ((admitted Settlement.queue ledger.perInstance store entry).rtake ledger.global) := by
  have counted : (store ++ [entry]).countP (inGroup Settlement.queue entry.queue) =
      store.countP (inGroup Settlement.queue entry.queue) + 1 := by
    rw [List.countP_append, countP_own, List.countP_nil]
  have length : ((ledger.byInstance.get? entry.queue).getD []).length =
      store.countP (inGroup Settlement.queue entry.queue) + 1 := by
    rw [lists.queues, length_idsOf, counted]
  have globally (evicted : TaskLedger) (kept : evicted.global = ledger.global)
      (shown : Lists evicted (admitted Settlement.queue ledger.perInstance store entry)) :
      Lists (evictGlobal evicted.order.length evicted)
        ((admitted Settlement.queue ledger.perInstance store entry).rtake ledger.global) := by
    rw [← kept]
    apply shown.evictGlobal_last
    rw [kept, admitted, List.length_append, List.length_singleton]
    split
    · omega
    · exact Nat.succ_le_succ (List.length_eraseP_le.trans within)
  simp only [evict, length]
  apply globally
  · exact (evictInstance_kept _ _ _).2.2
  by_cases room : store.countP (inGroup Settlement.queue entry.queue) < ledger.perInstance
  · rw [lists.evictInstance_of_room (by omega), Recent.admitted_of_room room]
    exact lists
  · rw [Recent.admitted_of_full room]
    rcases List.countP_pos_iff.mp (show 0 < store.countP (inGroup Settlement.queue entry.queue) by
      omega) with ⟨nonempty, mem, own⟩
    rcases List.exists_of_eraseP mem own with ⟨oldest, front, back, before, ofQueue, split, gone⟩
    have queue : oldest.queue = entry.queue := of_decide_eq_true ofQueue
    rw [gone, List.append_assoc]
    rw [split, List.append_assoc, List.cons_append] at lists
    have first : idsOf front oldest.queue = [] := by
      rw [idsOf, queue, List.filter_eq_nil_iff.mpr before, List.map_nil]
    rw [split, ← queue, List.countP_append, ← length_idsOf, first, List.length_nil,
      countP_own] at bounded room
    rw [← queue]
    apply lists.evictInstance_of_full first _ positive
    rw [List.countP_append, queue, countP_own, List.countP_nil]
    rw [queue] at bounded room
    omega

theorem settle (positive : 0 < ledger.perInstance)
    (bounded : ∀ key, store.countP (inGroup Settlement.queue key) ≤ ledger.perInstance)
    (within : store.length ≤ ledger.global) {taskId : Text}
    (fresh : taskId ∉ store.map Settlement.taskId) (task : Task) (tombstone : Tombstone) :
    Lists ((ledger.entomb taskId task tombstone).evict task.binding.queue)
      ((admitted Settlement.queue ledger.perInstance store ⟨taskId, task.binding.queue⟩).rtake
        ledger.global) :=
  (lists.entomb fresh task tombstone).evict_admits positive (bounded task.binding.queue) within

end Lists

/-! ## Runs -/

/-- A call on a ledger. What is done through `open_task_mut` is any change to the task. -/
inductive LedgerOp
  | bind (taskId : Text) (binding : TaskBinding)
  | settle (taskId : Text) (tombstone : Tombstone)
  | openTaskMut (taskId : Text) (change : Task → Task)

/-- A ledger with what was bound and settled so far, oldest first. -/
structure Book where
  ledger : TaskLedger
  bound : List Text
  history : List Settlement

namespace Book

def new (perInstance : ℕ) : Book := ⟨.new perInstance, [], []⟩

def step (book : Book) : LedgerOp → Book
  | .bind taskId binding =>
    match book.ledger.bind taskId binding with
    | some ledger => { book with ledger, bound := book.bound ++ [taskId] }
    | none => book
  | .settle taskId tombstone =>
    match book.ledger.settle taskId tombstone with
    | some (task, ledger) =>
      { book with ledger, history := book.history ++ [⟨taskId, task.binding.queue⟩] }
    | none => book
  | .openTaskMut taskId change =>
    { book with ledger := book.ledger.openTaskMut taskId change }

def run (perInstance : ℕ) (ops : List LedgerOp) : Book := ops.foldl step (new perInstance)

def IsOpen (book : Book) (taskId : Text) : Prop :=
  (book.ledger.open_.get? taskId).isSome = true

instance (book : Book) (taskId : Text) : Decidable (book.IsOpen taskId) :=
  inferInstanceAs (Decidable (_ = true))

def kept (book : Book) : List Settlement :=
  (recent Settlement.queue book.ledger.perInstance book.history).rtake book.ledger.global

structure Sound (book : Book) : Prop where
  positive : 0 < book.ledger.perInstance
  lists : Lists book.ledger book.kept
  apart : ∀ taskId, book.IsOpen taskId → taskId ∉ book.kept.map Settlement.taskId
  once : ∀ taskId, book.bound.count taskId =
    (book.history.map Settlement.taskId).count taskId + if book.IsOpen taskId then 1 else 0

variable {book : Book}

theorem kept_bounded (key : Text) :
    book.kept.countP (inGroup Settlement.queue key) ≤ book.ledger.perInstance := by
  have all := Recent.countP_recent Settlement.queue book.ledger.perInstance
    book.history key
  have last := (Recent.rtake_suffix book.ledger.global (recent Settlement.queue
    book.ledger.perInstance book.history)).sublist.countP_le (p := inGroup Settlement.queue key)
  rw [all] at last
  exact last.trans (Nat.min_le_left _ _)

variable (perInstance : ℕ) (ops : List LedgerOp)

theorem new_sound : (new perInstance).Sound where
  positive := Nat.lt_of_lt_of_le Nat.zero_lt_one (Nat.le_max_right _ _)
  lists := by
    have absent : (new perInstance).kept = [] := List.rtake_nil _
    rw [absent]
    exact .empty perInstance
  apart := by
    intro taskId stands
    cases stands
  once := fun taskId => rfl

theorem isOpen_openTaskMut (taskId other : Text) (change : Task → Task) :
    (book.step (.openTaskMut taskId change)).IsOpen other ↔ book.IsOpen other := by
  simp only [IsOpen, step, TaskLedger.openTaskMut, SortedMap.get?_modify]
  split <;> simp only [Option.isSome_map]

theorem Sound.openTaskMut (sound : book.Sound) (taskId : Text) (change : Task → Task) :
    (book.step (.openTaskMut taskId change)).Sound where
  positive := sound.positive
  lists := ⟨sound.lists.order, sound.lists.once, sound.lists.settled, sound.lists.known,
    sound.lists.queues, sound.lists.nonempty⟩
  apart := by
    intro other stands
    exact sound.apart other ((isOpen_openTaskMut taskId other change).mp stands)
  once := by
    intro other
    simp only [isOpen_openTaskMut]
    exact sound.once other

theorem Sound.bind (sound : book.Sound) (taskId : Text) (binding : TaskBinding) :
    (book.step (.bind taskId binding)).Sound := by
  simp only [step, TaskLedger.bind]
  split
  · rename_i ledger bound
    split at bound
    · cases bound
    · rename_i unknown
      cases bound
      rw [Bool.or_eq_true, not_or] at unknown
      have isOpen : ∀ other, Book.IsOpen ⟨{ book.ledger with
          open_ := book.ledger.open_.insert taskId
            { binding, delivery := .live, state := .open_ 0, exitWalked := false } },
          book.bound ++ [taskId], book.history⟩ other ↔ other = taskId ∨ book.IsOpen other := by
        intro other
        simp only [IsOpen, SortedMap.get?_insert]
        split
        · rename_i own
          exact iff_of_true rfl (Or.inl own)
        · rename_i different
          exact (or_iff_right different).symm
      refine ⟨sound.positive, ⟨sound.lists.order, sound.lists.once, sound.lists.settled,
        sound.lists.known, sound.lists.queues, sound.lists.nonempty⟩, ?_, ?_⟩
      · intro other stands
        rcases (isOpen other).mp stands with own | stands
        · intro listed
          exact unknown.2 (own ▸ sound.lists.settled_of_mem listed)
        · exact sound.apart other stands
      · intro other
        have before := sound.once other
        simp only [isOpen, List.count_append, List.count_singleton]
        by_cases own : other = taskId
        · subst own
          have closed : ¬book.IsOpen other := unknown.1
          rw [if_neg closed] at before
          simp only [true_or, beq_self_eq_true]
          omega
        · have different : (taskId == other) = false := beq_false_of_ne fun equal => own equal.symm
          simp only [own, false_or, different]
          exact before
  · exact sound

theorem Sound.settle (sound : book.Sound) (taskId : Text) (tombstone : Tombstone) :
    (book.step (.settle taskId tombstone)).Sound := by
  simp only [step, TaskLedger.settle]
  cases found : book.ledger.open_.get? taskId with
  | none => exact sound
  | some task =>
    simp only
    have stands : book.IsOpen taskId := by
      simp only [IsOpen, found, Option.isSome_some]
    have fresh := sound.apart taskId stands
    have untouched := TaskLedger.evict_kept
      (book.ledger.entomb taskId task tombstone) task.binding.queue
    have admits := sound.lists.settle sound.positive kept_bounded
      (Recent.length_rtake_le _ _) fresh task tombstone
    have listed : (admitted Settlement.queue book.ledger.perInstance book.kept
        ⟨taskId, task.binding.queue⟩).rtake book.ledger.global =
        (recent Settlement.queue book.ledger.perInstance
          (book.history ++ [⟨taskId, task.binding.queue⟩])).rtake book.ledger.global := by
      rw [Recent.recent_concat _ sound.positive, kept, Recent.rtake_admitted]
      rw [Recent.countP_recent]
      exact Nat.min_le_left _ _
    generalize (book.ledger.entomb taskId task tombstone).evict task.binding.queue = ledger
      at untouched admits
    have isOpen : ∀ other, Book.IsOpen ⟨ledger, book.bound,
        book.history ++ [⟨taskId, task.binding.queue⟩]⟩ other ↔
          other ≠ taskId ∧ book.IsOpen other := by
      intro other
      simp only [IsOpen, untouched.1, TaskLedger.entomb, SortedMap.get?_erase]
      split
      · rename_i own
        constructor
        · intro absent
          cases absent
        · exact fun both => absurd own both.1
      · rename_i different
        exact (and_iff_right different).symm
    have same : Book.kept ⟨ledger, book.bound,
        book.history ++ [⟨taskId, task.binding.queue⟩]⟩ =
        (admitted Settlement.queue book.ledger.perInstance book.kept
          ⟨taskId, task.binding.queue⟩).rtake book.ledger.global := by
      rw [listed, kept, untouched.2.1, untouched.2.2]
      rfl
    refine ⟨?_, ?_, ?_, ?_⟩
    · rw [untouched.2.1]
      exact sound.positive
    · rw [same]
      exact admits
    · intro other stillOpen retained
      rw [isOpen] at stillOpen
      rw [same] at retained
      rcases List.mem_map.mp retained with ⟨entry, mem, rfl⟩
      have among := (Recent.rtake_suffix _ _).subset mem
      rw [admitted, List.mem_append, List.mem_singleton] at among
      rcases among with old | new
      · have listedBefore : entry ∈ book.kept := by
          split at old
          · exact old
          · exact List.mem_of_mem_eraseP old
        exact sound.apart _ stillOpen.2 (List.mem_map_of_mem listedBefore)
      · exact stillOpen.1 (congrArg Settlement.taskId new)
    · intro other
      have before := sound.once other
      simp only [isOpen, List.map_append, List.map_cons, List.map_nil, List.count_append,
        List.count_singleton]
      by_cases own : other = taskId
      · subst own
        rw [if_pos stands] at before
        simp only [ne_eq, beq_self_eq_true]
        exact before
      · have different : (taskId == other) = false := beq_false_of_ne fun equal => own equal.symm
        simp only [ne_eq, own, not_false_eq_true, true_and, different]
        exact before

theorem Sound.step (sound : book.Sound) (op : LedgerOp) : (book.step op).Sound := by
  cases op with
  | bind taskId binding => exact sound.bind taskId binding
  | settle taskId tombstone => exact sound.settle taskId tombstone
  | openTaskMut taskId change => exact sound.openTaskMut taskId change

theorem run_sound : (run perInstance ops).Sound :=
  Runs.run_keeps_always Sound (fun _ op sound => sound.step op) (new_sound perInstance)

structure Bounded (perInstance : ℕ) (book : Book) : Prop where
  apart : ∀ taskId, book.IsOpen taskId → book.ledger.settled.get? taskId = none
  listed : ∀ taskId, (book.ledger.settled.get? taskId).isSome = true ↔ taskId ∈ book.ledger.order
  queued : ∀ taskId, taskId ∈ book.ledger.order ↔
    ∃ key ids, book.ledger.byInstance.get? key = some ids ∧ taskId ∈ ids
  orderOnce : book.ledger.order.Nodup
  queueOnce : ∀ key ids, book.ledger.byInstance.get? key = some ids → ids.Nodup ∧ ids ≠ []
  queuesApart : ∀ key ids other otherIds, book.ledger.byInstance.get? key = some ids →
    book.ledger.byInstance.get? other = some otherIds → key ≠ other → ids.Disjoint otherIds
  queueBound : ∀ key ids, book.ledger.byInstance.get? key = some ids →
    ids.length ≤ max perInstance 1
  orderBound : book.ledger.order.length ≤ min (max perInstance 1 * 16) usizeMax
  queueLatest : ∀ key ids, book.ledger.byInstance.get? key = some ids →
    ids <:+ (book.history.filter (inGroup Settlement.queue key)).map Settlement.taskId
  orderLatest : book.ledger.order =
    ((recent Settlement.queue (max perInstance 1) book.history).rtake
      (min (max perInstance 1 * 16) usizeMax)).map Settlement.taskId
  openStays : ∀ taskId op, book.IsOpen taskId → (∀ tombstone, op ≠ .settle taskId tombstone) →
    (book.step op).IsOpen taskId
  settledOnce : ∀ taskId, book.bound.count taskId =
    (book.history.map Settlement.taskId).count taskId + if book.IsOpen taskId then 1 else 0

theorem isOpen_step {taskId : Text} (op : LedgerOp) (stands : book.IsOpen taskId)
    (other : ∀ tombstone, op ≠ .settle taskId tombstone) : (book.step op).IsOpen taskId := by
  cases op with
  | bind bound binding =>
    simp only [step, TaskLedger.bind]
    split
    · rename_i ledger bounded
      split at bounded
      · cases bounded
      · cases bounded
        simp only [IsOpen, SortedMap.get?_insert]
        split
        · rfl
        · exact stands
    · exact stands
  | settle settled tombstone =>
    have different : taskId ≠ settled := fun equal => other tombstone (equal ▸ rfl)
    simp only [step, TaskLedger.settle]
    cases book.ledger.open_.get? settled with
    | none => exact stands
    | some task =>
      simp only [IsOpen, (TaskLedger.evict_kept _ _).1, TaskLedger.entomb, SortedMap.get?_erase,
        if_neg different]
      exact stands
  | openTaskMut changed change => exact (isOpen_openTaskMut changed taskId change).mpr stands

theorem step_bounds (op : LedgerOp) : (book.step op).ledger.perInstance =
    book.ledger.perInstance ∧ (book.step op).ledger.global = book.ledger.global := by
  cases op with
  | bind taskId binding =>
    simp only [step, TaskLedger.bind]
    split
    · rename_i ledger bound
      split at bound
      · cases bound
      · cases bound
        exact ⟨rfl, rfl⟩
    · exact ⟨rfl, rfl⟩
  | settle taskId tombstone =>
    simp only [step, TaskLedger.settle]
    cases book.ledger.open_.get? taskId with
    | none => exact ⟨rfl, rfl⟩
    | some task => exact (TaskLedger.evict_kept _ _).2
  | openTaskMut taskId change => exact ⟨rfl, rfl⟩

theorem run_bounds :
    (run perInstance ops).ledger.perInstance = max perInstance 1 ∧
      (run perInstance ops).ledger.global = min (max perInstance 1 * 16) usizeMax := by
  refine Runs.run_keeps_always (fun book : Book => book.ledger.perInstance = max perInstance 1 ∧
    book.ledger.global = min (max perInstance 1 * 16) usizeMax) ?_ ?_
  · intro book op bounds
    rw [(step_bounds op).1, (step_bounds op).2]
    exact bounds
  · exact ⟨rfl, rfl⟩

theorem Sound.queue_eq (sound : book.Sound) {key : Text} {ids : List Text}
    (queue : book.ledger.byInstance.get? key = some ids) : ids = idsOf book.kept key := by
  have queued := sound.lists.queues key
  rw [queue] at queued
  exact queued

theorem run_bounded : (run perInstance ops).Bounded perInstance := by
  have sound := run_sound perInstance ops
  have bounds := run_bounds perInstance ops
  generalize run perInstance ops = book at sound bounds
  have listed := sound.lists.isSome_iff
  refine ⟨?_, listed, ?_, ?_, ?_, ?_, ?_, ?_, ?_, ?_, fun _ op => isOpen_step op, sound.once⟩
  · intro taskId stands
    rw [← Option.isNone_iff_eq_none, ← Option.not_isSome, Bool.not_eq_true', ← Bool.not_eq_true]
    exact fun settled => sound.apart taskId stands (sound.lists.known taskId settled)
  · intro taskId
    constructor
    · intro mem
      rw [sound.lists.order] at mem
      rcases List.mem_map.mp mem with ⟨entry, kept, rfl⟩
      have own : entry.taskId ∈ idsOf book.kept entry.queue :=
        List.mem_map_of_mem (List.mem_filter.mpr ⟨kept, decide_eq_true rfl⟩)
      exact ⟨entry.queue, _, sound.lists.get?_queue _ (List.ne_nil_of_mem own), own⟩
    · rintro ⟨key, ids, queue, mem⟩
      rw [sound.queue_eq queue] at mem
      rw [sound.lists.order]
      exact idsOf_subset mem
  · rw [sound.lists.order]
    exact sound.lists.once
  · intro key ids queue
    refine ⟨?_, fun absent => sound.lists.nonempty key (absent ▸ queue)⟩
    rw [sound.queue_eq queue]
    exact (List.filter_sublist.map _).nodup sound.lists.once
  · intro key ids other otherIds queue otherQueue different taskId mem otherMem
    rw [sound.queue_eq queue] at mem
    rw [sound.queue_eq otherQueue] at otherMem
    rcases List.mem_map.mp mem with ⟨entry, entryMem, named⟩
    rcases List.mem_map.mp otherMem with ⟨second, secondMem, alsoNamed⟩
    rcases List.mem_filter.mp entryMem with ⟨entryKept, entryQueue⟩
    rcases List.mem_filter.mp secondMem with ⟨secondKept, secondQueue⟩
    have same := eq_of_taskId sound.lists.once entryKept secondKept (named.trans alsoNamed.symm)
    apply different
    rw [← of_decide_eq_true entryQueue, ← of_decide_eq_true secondQueue, same]
  · intro key ids queue
    rw [sound.queue_eq queue, length_idsOf, ← bounds.1]
    exact kept_bounded key
  · rw [sound.lists.order, List.length_map, ← bounds.2]
    exact Recent.length_rtake_le _ _
  · intro key ids queue
    rw [sound.queue_eq queue]
    have last := (Recent.rtake_suffix book.ledger.global (recent Settlement.queue
      book.ledger.perInstance book.history)).filter (inGroup Settlement.queue key)
    exact (last.trans (Recent.filter_recent_suffix _ _ key)).map _
  · rw [sound.lists.order, ← bounds.2, ← bounds.1]
    rfl

end Book

/-- A ledger after any calls, and a table after any eviction, are within their bounds. -/
theorem tables_bounded :
    (∀ (perInstance : ℕ) (ops : List LedgerOp), (Book.run perInstance ops).Bounded perInstance) ∧
      ∀ (table : UnitTable) (guarded : Text → List Generation → Bool),
        UnitTable.Evicts table guarded (table.evict guarded).1 (table.evict guarded).2 :=
  ⟨Book.run_bounded, UnitTable.evict_spec⟩

def boundIn (key : Char) : TaskBinding where
  workerPane := []
  workerAgent := []
  instance_ := some [key]
  role := []
  orchestrator := none
  armId := none
  seq := none

/-- A task of `b` and then two of `a` settle, each instance keeping one tombstone. -/
def twoOfOne : List LedgerOp :=
  [LedgerOp.bind ['1'] (boundIn 'b'), .settle ['1'] .closed,
    .bind ['2'] (boundIn 'a'), .settle ['2'] .closed,
    .bind ['3'] (boundIn 'a'), .settle ['3'] .closed]

/-- The tombstone that is gone is not the earliest settled. -/
theorem older_of_other_stays : ¬(Book.run 1 twoOfOne).ledger.order <:+
    (Book.run 1 twoOfOne).history.map Settlement.taskId := by
  have order := (Book.run_bounded 1 twoOfOne).orderLatest
  have history : (Book.run 1 twoOfOne).history =
      [⟨['1'], ['b']⟩, ⟨['2'], ['a']⟩, ⟨['3'], ['a']⟩] := by decide +kernel
  rw [order, history]
  unfold usizeMax
  decide

end AgentDeck.Recovery
