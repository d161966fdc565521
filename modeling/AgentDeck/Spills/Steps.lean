import AgentDeck.Spills.Manifest

/-!
# What a step of a run does

`System.step_cases` says once what each step changes; the invariants of a run are read off it.
-/

namespace AgentDeck.Spills

variable {P : Type} [DecidableEq P]

namespace Run

/-- Every body the run tracks or still has to remove. -/
def bodies (run : Run P) : List (OwnedSpill P) := run.ledger.owned ++ run.answered ++ run.failed

end Run

/-- The body was taken over at `wall`, and settled when its entry says, or at the takeover. -/
structure Took (wall : SystemTime) (taken : List (ManifestEntry P)) (spill : OwnedSpill P) :
    Prop where
  adopted : spill.Adopted
  source : ∃ entry ∈ taken, entry.path = spill.path ∧
    spill.settledWall = some ((entry.settledUnixMs.map unixMillis).getD wall)

inductive Moved (s : System P) : SpillOp P → System P → Prop where
  | start {unique : ℕ} {order : List ℕ} {now : Instant} {wall : SystemTime}
      {retention protectedGrace : Duration} {maxSettledBytes : ℕ} (idle : s.current = none)
      (unlocked : s.locks unique = false) (unlisted : s.lists unique = none)
      (nodup : order.Nodup) (locked : ∀ source ∈ order, s.locks source = true) :
      Moved s (.start unique order now wall retention protectedGrace maxSettledBytes)
        { s with
          locks := Function.update s.locks unique true
          current := some
            { unique := unique
              now := now
              wall := wall
              ledger := ⟨[], retention, protectedGrace, maxSettledBytes⟩
              sources := order
              phase := .opening (takeOver s.files s.lists order) []
              answered := []
              failed := []
              taken := takeOver s.files s.lists order } }
  | examineRemoved {run : Run P} {entry : ManifestEntry P} {rest : List (ManifestEntry P)}
      {spills : List (OwnedSpill P)} {fails : Bool} (current : s.current = some run)
      (phase : run.phase = .opening (entry :: rest) spills)
      (aged : run.ledger.retention ≤ entryAge run.wall entry) :
      Moved s (.examine fails)
        { s with
          files := Function.update s.files entry.path false
          current := some { run with phase := .opening rest spills } }
  | examineKept {run : Run P} {entry : ManifestEntry P} {rest : List (ManifestEntry P)}
      {spills : List (OwnedSpill P)} {fails : Bool} {failures : ℕ}
      (current : s.current = some run) (phase : run.phase = .opening (entry :: rest) spills) :
      Moved s (.examine fails) (s.put { run with
        phase := .opening rest
          (spills ++ [{ takenSpill run.now run.wall entry with failedRemovals := failures }]) })
  | adopt {run : Run P} {spills : List (OwnedSpill P)} (current : s.current = some run)
      (phase : run.phase = .opening [] spills) :
      Moved s .adopt (s.put { run with
        ledger := run.ledger.adopt spills
        phase := .recording })
  | firstWrite {run : Run P} (current : s.current = some run) (phase : run.phase = .recording) :
      Moved s (.write true)
        { s with
          lists := Function.update s.lists run.unique (some run.ledger.manifestText)
          current := some { run with phase := .releasing run.sources false } }
  | firstWriteFailed {run : Run P} (current : s.current = some run)
      (phase : run.phase = .recording) :
      Moved s (.write false) (s.put { run with phase := .releasing [] false })
  | rewrite {run : Run P} {gone : Bool} (current : s.current = some run)
      (phase : run.phase = .releasing [] gone) :
      Moved s (.write true)
        { s with lists := Function.update s.lists run.unique (some run.ledger.manifestText) }
  | dropList {run : Run P} {source : ℕ} {rest : List ℕ} (current : s.current = some run)
      (phase : run.phase = .releasing (source :: rest) false) :
      Moved s (.dropList true)
        { s with
          lists := Function.update s.lists source none
          current := some { run with phase := .releasing (source :: rest) true } }
  | keepList {run : Run P} {source : ℕ} {rest : List ℕ} (current : s.current = some run)
      (phase : run.phase = .releasing (source :: rest) false) :
      Moved s (.dropList false) (s.put { run with phase := .releasing rest false })
  | dropLock {run : Run P} {source : ℕ} {rest : List ℕ} {removed : Bool}
      (locks : ℕ → Bool) (current : s.current = some run)
      (phase : run.phase = .releasing (source :: rest) true) :
      Moved s (.dropLock removed)
        { s with
          locks := locks
          current := some { run with phase := .releasing rest false } }
  | own {op : SpillOp P} {run : Run P} {gone : Bool} {spill : OwnedSpill P}
      (current : s.current = some run) (phase : run.phase = .releasing [] gone)
      (new : s.minted spill.path = false) (named : spill.message ≠ none) :
      Moved s op
        { s with
          files := Function.update s.files spill.path true
          minted := Function.update s.minted spill.path true
          current := some { run with
            ledger := { run.ledger with owned := run.ledger.owned ++ [spill] } } }
  | releaseTasks {run : Run P} {gone : Bool} {paneId : Text}
      {retired : Text → Option Text → Bool} (current : s.current = some run)
      (phase : run.phase = .releasing [] gone) :
      Moved s (.releaseTasks paneId retired)
        (s.put { run with ledger := run.ledger.releaseTasks paneId retired })
  | reclaim {run : Run P} {gone : Bool} {now : Instant} {wall : SystemTime} {live : Text → Bool}
      (current : s.current = some run) (phase : run.phase = .releasing [] gone) :
      Moved s (.reclaim now wall live) (s.put { run with
        ledger := (run.ledger.reclaim now wall live).1
        answered := run.answered ++ (run.ledger.reclaim now wall live).2.removed })
  | removeFailed {run : Run P} {spill : OwnedSpill P} {rest : List (OwnedSpill P)} {fails : Bool}
      (current : s.current = some run) (answered : run.answered = spill :: rest) :
      Moved s (.remove fails) (s.put { run with
        answered := rest
        failed := run.failed ++ [{ spill with failedRemovals := spill.failedRemovals + 1 }] })
  | removed {run : Run P} {spill : OwnedSpill P} {rest : List (OwnedSpill P)} {fails : Bool}
      (current : s.current = some run) (answered : run.answered = spill :: rest) :
      Moved s (.remove fails)
        { s with
          files := Function.update s.files spill.path false
          current := some { run with answered := rest } }
  | restore {run : Run P} {gone : Bool} (current : s.current = some run)
      (phase : run.phase = .releasing [] gone) :
      Moved s .restore (s.put { run with
        ledger := run.ledger.restore run.failed
        failed := [] })
  | vanish {path : P} :
      Moved s (.vanish path) { s with files := Function.update s.files path false }
  | finish {run : Run P} (current : s.current = some run) :
      Moved s .finish { s with current := none }

omit [DecidableEq P] in
theorem System.served_cases {s : System P} {run : Run P} {next : System P} {p : System P → Prop}
    (unchanged : p s) (served : ∀ gone, run.phase = .releasing [] gone → p next) :
    p (s.served run next) := by
  simp only [System.served]
  split
  · rename_i gone phase
    exact served gone phase
  · exact unchanged

theorem System.start_cases (s : System P) (unique : ℕ) (order : List ℕ) (now : Instant)
    (wall : SystemTime) (retention protectedGrace : Duration) (maxSettledBytes : ℕ) :
    s.start unique order now wall retention protectedGrace maxSettledBytes = s ∨
      Moved s (.start unique order now wall retention protectedGrace maxSettledBytes)
        (s.start unique order now wall retention protectedGrace maxSettledBytes) := by
  simp only [System.start]
  split
  · rename_i guard
    right
    rcases guard with ⟨idle, unlocked, unlisted, nodup, locked⟩
    exact Moved.start (Option.isNone_iff_eq_none.mp idle) unlocked unlisted nodup locked
  · exact Or.inl rfl

variable {s : System P} {run : Run P}

section

variable (current : s.current = some run)

include current

theorem System.examine_cases (fails : Bool) :
    s.examine run fails = s ∨ Moved s (.examine fails) (s.examine run fails) := by
  simp only [System.examine]
  split
  · rename_i entry rest spills phase
    right
    split
    · rename_i aged
      split
      · exact Moved.examineKept current phase
      · exact Moved.examineRemoved current phase aged
    · exact Moved.examineKept current phase
  · exact Or.inl rfl

theorem System.write_cases (written : Bool) :
    s.write run written = s ∨ Moved s (.write written) (s.write run written) := by
  simp only [System.write]
  cases written with
  | false =>
    split
    · rename_i phase
      exact Or.inr (Moved.firstWriteFailed current phase)
    · exact Or.inl rfl
    · exact Or.inl rfl
  | true =>
    split
    · rename_i phase
      exact Or.inr (Moved.firstWrite current phase)
    · rename_i gone phase
      exact Or.inr (Moved.rewrite current phase)
    · exact Or.inl rfl

theorem System.dropList_cases (removed : Bool) :
    s.dropList run removed = s ∨ Moved s (.dropList removed) (s.dropList run removed) := by
  simp only [System.dropList]
  split
  · rename_i source rest phase
    right
    cases removed with
    | false => exact Moved.keepList current phase
    | true => exact Moved.dropList current phase
  · exact Or.inl rfl

theorem System.own_cases (op : SpillOp P) (spill : OwnedSpill P) (named : spill.message ≠ none) :
    s.own run spill.path { run.ledger with owned := run.ledger.owned ++ [spill] } = s ∨
      Moved s op
        (s.own run spill.path { run.ledger with owned := run.ledger.owned ++ [spill] }) := by
  apply System.served_cases (p := fun next => next = s ∨ Moved s op next)
  · exact Or.inl rfl
  · intro gone phase
    split
    · exact Or.inl rfl
    · rename_i new
      exact Or.inr (Moved.own current phase (Bool.eq_false_iff.mpr new) named)

theorem System.remove_cases (fails : Bool) :
    s.remove run fails = s ∨ Moved s (.remove fails) (s.remove run fails) := by
  simp only [System.remove]
  split
  · exact Or.inl rfl
  · rename_i spill rest answered
    right
    split
    · exact Moved.removeFailed current answered
    · exact Moved.removed current answered

theorem System.runStep_cases (op : SpillOp P) :
    s.runStep run op = s ∨ Moved s op (s.runStep run op) := by
  cases op with
  | start => exact Or.inl rfl
  | examine fails => exact System.examine_cases current fails
  | adopt =>
    simp only [System.runStep, System.adopt]
    split
    · rename_i spills phase
      exact Or.inr (Moved.adopt current phase)
    · exact Or.inl rfl
  | write written => exact System.write_cases current written
  | dropList removed => exact System.dropList_cases current removed
  | dropLock removed =>
    simp only [System.runStep, System.dropLock]
    split
    · rename_i source rest phase
      exact Or.inr (Moved.dropLock _ current phase)
    · exact Or.inl rfl
  | own path message bytes =>
    exact System.own_cases current (.own path message bytes)
      ⟨path, some message, bytes, none, none, none, 0⟩ (Option.some_ne_none message)
  | ownTask path message bytes worker =>
    exact System.own_cases current (.ownTask path message bytes worker)
      ⟨path, some message, bytes, some worker, none, none, 0⟩ (Option.some_ne_none message)
  | releaseTasks paneId retired =>
    apply System.served_cases
      (p := fun next => next = s ∨ Moved s (.releaseTasks paneId retired) next)
    · exact Or.inl rfl
    · intro gone phase
      exact Or.inr (Moved.releaseTasks current phase)
  | reclaim now wall live =>
    apply System.served_cases
      (p := fun next => next = s ∨ Moved s (.reclaim now wall live) next)
    · exact Or.inl rfl
    · intro gone phase
      exact Or.inr (Moved.reclaim current phase)
  | remove fails => exact System.remove_cases current fails
  | restore =>
    apply System.served_cases (p := fun next => next = s ∨ Moved s .restore next)
    · exact Or.inl rfl
    · intro gone phase
      exact Or.inr (Moved.restore current phase)
  | vanish path => exact Or.inr Moved.vanish
  | finish => exact Or.inr (Moved.finish current)

end

theorem System.step_cases (s : System P) (op : SpillOp P) :
    s.step op = s ∨ Moved s op (s.step op) := by
  cases current : s.current with
  | some run =>
    simp only [System.step, current]
    exact System.runStep_cases current op
  | none =>
    simp only [System.step, current]
    cases op with
    | start unique order now wall retention protectedGrace maxSettledBytes =>
      exact System.start_cases s unique order now wall retention protectedGrace maxSettledBytes
    | vanish path =>
      right
      have moved := @Moved.vanish P _ s path
      rw [current] at moved
      exact moved
    | examine | adopt | write | dropList | dropLock | own | ownTask | releaseTasks | reclaim
    | remove | restore | finish => exact Or.inl rfl

end AgentDeck.Spills
