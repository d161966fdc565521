import AgentDeck.Time
import AgentDeck.Text
import Mathlib.Data.List.Perm.Basic
import Mathlib.Data.List.Nodup

/-!
# The ledger of saved bodies

`SpillLedger` of `src/inbox_spills.rs`: the files one daemon run tracks, when each settled, and
which of them it stops tracking to remove. A wall time counts the nanoseconds since the Unix epoch.
-/

namespace AgentDeck.Spills

/-- `std::time::SystemTime`. -/
abbrev SystemTime := ℕ

structure TaskHold where
  paneId : Text
  agentId : Option Text
  deriving DecidableEq

/-- One saved body the deck wrote. `message` is `none` for one taken over from an earlier run. -/
structure OwnedSpill (P : Type) where
  path : P
  message : Option Text
  bytes : ℕ
  task : Option TaskHold
  settledAt : Option Instant
  settledWall : Option SystemTime
  failedRemovals : ℕ
  deriving DecidableEq

/-- An entry of an inventory: `settledUnixMs` is `none` while its message had not settled. -/
structure ManifestEntry (P : Type) where
  path : P
  bytes : ℕ
  settledUnixMs : Option ℕ
  deriving DecidableEq

structure SpillLedger (P : Type) where
  owned : List (OwnedSpill P)
  retention : Duration
  protectedGrace : Duration
  maxSettledBytes : ℕ

variable {P : Type}

/-- `as_millis() as u64`. -/
def toMillis (place : SystemTime) : ℕ := place / 1000000 % 2 ^ 64

/-- `UNIX_EPOCH + Duration::from_millis`. -/
def unixMillis (millis : ℕ) : SystemTime := millis * 1000000

theorem toMillis_unixMillis {millis : ℕ} (word : millis < 2 ^ 64) :
    toMillis (unixMillis millis) = millis := by
  rw [toMillis, unixMillis, Nat.mul_div_cancel _ (by decide), Nat.mod_eq_of_lt word]

theorem toMillis_lt (place : SystemTime) : toMillis place < 2 ^ 64 := Nat.mod_lt _ (by decide)

namespace OwnedSpill

def entry (spill : OwnedSpill P) : ManifestEntry P :=
  ⟨spill.path, spill.bytes, spill.settledWall.map toMillis⟩

/-- The pass of `reclaim` over one body: whether it settles now, and whether that is a change. -/
def settle (now : Instant) (wall : SystemTime) (live : Text → Bool) (spill : OwnedSpill P) :
    OwnedSpill P × Bool :=
  if spill.message.any live || spill.task.isSome then
    if spill.settledAt.isSome then ({ spill with settledAt := none, settledWall := none }, true)
    else (spill, false)
  else if spill.settledAt.isNone then
    ({ spill with settledAt := some now, settledWall := some wall }, true)
  else (spill, false)

/-- The body settled at least `age` before `now`. -/
def past (now : Instant) (age : Duration) (spill : OwnedSpill P) : Bool :=
  spill.settledAt.any fun place => decide (age ≤ now - place)

def releaseTask (paneId : Text) (retired : Text → Option Text → Bool) (spill : OwnedSpill P) :
    OwnedSpill P :=
  if spill.task.any fun task =>
      decide (task.paneId = paneId) && retired (spill.message.getD []) task.agentId then
    { spill with task := none }
  else spill

/-- A body taken over: no message and no task hold it, and it has settled. -/
structure Adopted (spill : OwnedSpill P) : Prop where
  message : spill.message = none
  task : spill.task = none
  settled : spill.settledAt.isSome = true

end OwnedSpill

/-- The settled body to give up first: the oldest of those `due`, with its place. -/
def oldest (due : OwnedSpill P → Bool) : List (OwnedSpill P) → Option (Instant × ℕ)
  | [] => none
  | spill :: rest =>
    let later := (oldest due rest).map fun found => (found.1, found.2 + 1)
    match (if due spill then spill.settledAt else none), later with
    | some place, some found => if place ≤ found.1 then some (place, 0) else some found
    | some place, none => some (place, 0)
    | none, later => later

/-- The loop of `reclaim` over the byte bound: it gives up one body in each round. -/
def evict (due : OwnedSpill P → Bool) (maxSettledBytes : ℕ) :
    ℕ → ℕ → List (OwnedSpill P) → List (OwnedSpill P) → List (OwnedSpill P) × List (OwnedSpill P)
  | 0, _, owned, removed => (owned, removed)
  | rounds + 1, settledBytes, owned, removed =>
    if maxSettledBytes < settledBytes then
      match oldest due owned with
      | none => (owned, removed)
      | some (_, index) =>
        match owned[index]? with
        | none => (owned, removed)
        | some spill =>
          evict due maxSettledBytes rounds (settledBytes - spill.bytes)
            (owned.eraseIdx index) (removed ++ [spill])
    else (owned, removed)

def unknown [DecidableEq P] : List P → List (OwnedSpill P) → List (OwnedSpill P)
  | _, [] => []
  | known, spill :: rest =>
    if spill.path ∈ known then unknown known rest
    else spill :: unknown (spill.path :: known) rest

/-- What one `reclaim` answers: the bodies to remove, and whether the inventory changes. -/
structure Reclaim (P : Type) where
  removed : List (OwnedSpill P)
  changed : Bool

namespace SpillLedger

variable (ledger : SpillLedger P)

def own (path : P) (message : Text) (bytes : ℕ) : SpillLedger P :=
  { ledger with
    owned := ledger.owned ++ [⟨path, some message, bytes, none, none, none, 0⟩] }

def ownTask (path : P) (message : Text) (bytes : ℕ) (worker : TaskHold) : SpillLedger P :=
  { ledger with
    owned := ledger.owned ++ [⟨path, some message, bytes, some worker, none, none, 0⟩] }

def releaseTasks (paneId : Text) (retired : Text → Option Text → Bool) : SpillLedger P :=
  { ledger with owned := ledger.owned.map (OwnedSpill.releaseTask paneId retired) }

def adopt [DecidableEq P] (spills : List (OwnedSpill P)) : SpillLedger P :=
  { ledger with owned := ledger.owned ++ unknown (ledger.owned.map OwnedSpill.path) spills }

def restore (failed : List (OwnedSpill P)) : SpillLedger P :=
  { ledger with owned := ledger.owned ++ failed }

def manifestText : List (ManifestEntry P) := ledger.owned.map OwnedSpill.entry

def paths : List P := ledger.owned.map OwnedSpill.path

/-- Settle the bodies nothing holds, then stop tracking those past their retention and the oldest
settled ones over the byte bound. -/
def reclaim (now : Instant) (wall : SystemTime) (live : Text → Bool) :
    SpillLedger P × Reclaim P :=
  let settled := ledger.owned.map (OwnedSpill.settle now wall live)
  let changed := settled.any Prod.snd
  let owned := settled.map Prod.fst
  let expired := owned.filter (OwnedSpill.past now ledger.retention)
  let kept := owned.filter fun spill => !OwnedSpill.past now ledger.retention spill
  let settledBytes := ((kept.filter fun spill => spill.settledAt.isSome).map (·.bytes)).sum
  let out := evict (OwnedSpill.past now ledger.protectedGrace) ledger.maxSettledBytes kept.length
    settledBytes kept expired
  ({ ledger with owned := out.1 }, ⟨out.2, changed || !out.2.isEmpty⟩)

end SpillLedger

/-! ## What the operations do to the tracked bodies -/

theorem OwnedSpill.settle_path (now : Instant) (wall : SystemTime) (live : Text → Bool)
    (spill : OwnedSpill P) : (spill.settle now wall live).1.path = spill.path := by
  simp only [settle]
  split
  · split <;> rfl
  · split <;> rfl

theorem OwnedSpill.settle_message (now : Instant) (wall : SystemTime) (live : Text → Bool)
    (spill : OwnedSpill P) : (spill.settle now wall live).1.message = spill.message := by
  simp only [settle]
  split
  · split <;> rfl
  · split <;> rfl

theorem OwnedSpill.Adopted.settle {spill : OwnedSpill P} (adopted : spill.Adopted) (now : Instant)
    (wall : SystemTime) (live : Text → Bool) : (spill.settle now wall live).1 = spill := by
  have settledNone : spill.settledAt.isNone = false := by
    rw [← Option.not_isSome, adopted.settled]
    rfl
  simp only [OwnedSpill.settle, adopted.message, adopted.task, settledNone, Option.any_none,
    Option.isSome_none, Bool.or_self, Bool.false_eq_true, if_false]

theorem OwnedSpill.releaseTask_path (paneId : Text) (retired : Text → Option Text → Bool)
    (spill : OwnedSpill P) : (spill.releaseTask paneId retired).path = spill.path := by
  simp only [releaseTask]
  split <;> rfl

theorem OwnedSpill.releaseTask_message (paneId : Text) (retired : Text → Option Text → Bool)
    (spill : OwnedSpill P) : (spill.releaseTask paneId retired).message = spill.message := by
  simp only [releaseTask]
  split <;> rfl

theorem OwnedSpill.Adopted.releaseTask {spill : OwnedSpill P} (adopted : spill.Adopted)
    (paneId : Text) (retired : Text → Option Text → Bool) :
    spill.releaseTask paneId retired = spill := by
  simp only [OwnedSpill.releaseTask, adopted.task, Option.any_none, Bool.false_eq_true, if_false]

theorem SpillLedger.releaseTasks_paths (ledger : SpillLedger P) (paneId : Text)
    (retired : Text → Option Text → Bool) :
    (ledger.releaseTasks paneId retired).paths = ledger.paths := by
  simp only [SpillLedger.paths, SpillLedger.releaseTasks, List.map_map]
  apply List.map_congr_left
  intro spill _
  exact spill.releaseTask_path paneId retired

theorem evict_perm (due : OwnedSpill P → Bool) (maxSettledBytes rounds settledBytes : ℕ)
    (owned removed : List (OwnedSpill P)) :
    ((evict due maxSettledBytes rounds settledBytes owned removed).1 ++
      (evict due maxSettledBytes rounds settledBytes owned removed).2).Perm (owned ++ removed) := by
  induction rounds generalizing settledBytes owned removed with
  | zero => exact List.Perm.refl _
  | succ rounds ih =>
    simp only [evict]
    split
    · split
      · exact List.Perm.refl _
      · split
        · exact List.Perm.refl _
        · rename_i spill found
          refine (ih _ _ _).trans ?_
          rw [← List.append_assoc]
          refine (List.perm_append_singleton spill _).trans ?_
          rcases List.getElem?_eq_some_iff.mp found with ⟨bound, same⟩
          subst same
          exact (List.getElem_cons_eraseIdx_perm bound).append_right removed
    · exact List.Perm.refl _

theorem SpillLedger.reclaim_perm (ledger : SpillLedger P) (now : Instant) (wall : SystemTime)
    (live : Text → Bool) :
    ((ledger.reclaim now wall live).1.owned ++ (ledger.reclaim now wall live).2.removed).Perm
      (ledger.owned.map fun spill => (spill.settle now wall live).1) := by
  refine (evict_perm _ _ _ _ _ _).trans ?_
  rw [List.map_map]
  refine List.perm_append_comm.trans ?_
  exact List.filter_append_perm _ _

theorem SpillLedger.reclaim_paths (ledger : SpillLedger P) (now : Instant) (wall : SystemTime)
    (live : Text → Bool) :
    ((ledger.reclaim now wall live).1.paths ++
      (ledger.reclaim now wall live).2.removed.map OwnedSpill.path).Perm ledger.paths := by
  have moved := (ledger.reclaim_perm now wall live).map OwnedSpill.path
  rw [List.map_append, List.map_map] at moved
  have same : (OwnedSpill.path ∘ fun spill : OwnedSpill P => (spill.settle now wall live).1) =
      OwnedSpill.path := by
    funext spill
    exact spill.settle_path now wall live
  rw [same] at moved
  exact moved

section

variable [DecidableEq P]

theorem mem_unknown {known : List P} {spills : List (OwnedSpill P)} {spill : OwnedSpill P}
    (found : spill ∈ unknown known spills) : spill ∈ spills ∧ spill.path ∉ known := by
  induction spills generalizing known with
  | nil => exact absurd found List.not_mem_nil
  | cons first rest ih =>
    simp only [unknown] at found
    split at found
    · rcases ih found with ⟨inside, fresh⟩
      exact ⟨List.mem_cons_of_mem first inside, fresh⟩
    · rename_i new
      rcases List.mem_cons.mp found with same | later
      · subst same
        exact ⟨List.mem_cons_self, new⟩
      · rcases ih later with ⟨inside, fresh⟩
        exact ⟨List.mem_cons_of_mem first inside,
          fun old => fresh (List.mem_cons_of_mem first.path old)⟩

theorem unknown_nodup (known : List P) (spills : List (OwnedSpill P)) :
    ((unknown known spills).map OwnedSpill.path).Nodup := by
  induction spills generalizing known with
  | nil => exact List.nodup_nil
  | cons first rest ih =>
    simp only [unknown]
    split
    · exact ih known
    · rw [List.map_cons, List.nodup_cons]
      refine ⟨?_, ih _⟩
      intro twice
      rcases List.mem_map.mp twice with ⟨spill, later, same⟩
      apply (mem_unknown later).2
      rw [same]
      exact List.mem_cons_self

theorem path_mem_unknown {known : List P} {spills : List (OwnedSpill P)} {path : P}
    (handed : path ∈ spills.map OwnedSpill.path) :
    path ∈ known ∨ path ∈ (unknown known spills).map OwnedSpill.path := by
  induction spills generalizing known with
  | nil => exact absurd handed List.not_mem_nil
  | cons first rest ih =>
    simp only [unknown]
    rw [List.map_cons, List.mem_cons] at handed
    split
    · rename_i old
      rcases handed with same | later
      · exact Or.inl (same ▸ old)
      · exact ih later
    · rcases handed with same | later
      · right
        rw [same]
        exact List.mem_cons_self
      · have found : path ∈ first.path :: known ∨
            path ∈ (unknown (first.path :: known) rest).map OwnedSpill.path := ih later
        rcases found with old | new
        · rcases List.mem_cons.mp old with same | older
          · right
            rw [same]
            exact List.mem_cons_self
          · exact Or.inl older
        · right
          exact List.mem_cons_of_mem _ new

end

/-! ## What is given up -/

/-- The bytes of the settled bodies. -/
def settledBytes (owned : List (OwnedSpill P)) : ℕ :=
  ((owned.filter fun spill => spill.settledAt.isSome).map (·.bytes)).sum

end AgentDeck.Spills
