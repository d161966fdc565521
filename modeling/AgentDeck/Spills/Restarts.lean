import AgentDeck.Spills.Books

/-!
# Saved bodies across restarts

A body an ended run's inventory lists stays listed until its file is removed or a run answers it for
removal; a takeover removes only what settled a retention ago; and the settlement a takeover records
is kept by every later one.
-/

namespace AgentDeck.Spills

variable {P : Type}

def System.Ended (s : System P) (unique : ℕ) : Prop :=
  ∀ run, s.current = some run → run.unique ≠ unique

/-- Some inventory has a good entry for the body: that of an ended run, or that of the run of the
moment while it tracks the body. -/
def Recorded (p : P) (good : ManifestEntry P → Prop) (s : System P) : Prop :=
  (∃ unique, s.Ended unique ∧ ∃ entry ∈ s.listed unique, entry.path = p ∧ good entry) ∨
    ∃ run, s.current = some run ∧ p ∈ run.ledger.paths ∧
      ∃ entry ∈ s.listed run.unique, entry.path = p ∧ good entry

variable {p : P} {good : ManifestEntry P → Prop} {s next : System P}

theorem Recorded.put {run after : Run P} (recorded : Recorded p good s)
    (current : s.current = some run) (now : next.current = some after)
    (unique : after.unique = run.unique) (tracked : p ∈ run.ledger.paths → p ∈ after.ledger.paths)
    (lists : ∀ unique, next.listed unique = s.listed unique) : Recorded p good next := by
  rcases recorded with ⟨source, ended, entry, found⟩ | ⟨found, same, inside, entry, listed⟩
  · left
    refine ⟨source, ?_, entry, ?_⟩
    · intro other is
      rw [← Option.some.inj (now.symm.trans is), unique]
      exact ended run current
    · rw [lists]
      exact found
  · right
    cases current.symm.trans same
    refine ⟨after, now, tracked inside, entry, ?_⟩
    rw [lists, unique]
    exact listed

theorem Recorded.written {run after : Run P} (recorded : Recorded p good s)
    (fine : ∀ spill ∈ run.ledger.owned, spill.path = p → good spill.entry)
    (current : s.current = some run) (now : next.current = some after)
    (unique : after.unique = run.unique) (ledger : after.ledger = run.ledger)
    (own : next.listed run.unique = run.ledger.manifestText)
    (lists : ∀ unique, unique ≠ run.unique → next.listed unique = s.listed unique) :
    Recorded p good next := by
  rcases recorded with ⟨source, ended, entry, found⟩ | ⟨found, same, inside, _⟩
  · left
    refine ⟨source, ?_, entry, ?_⟩
    · intro other is
      rw [← Option.some.inj (now.symm.trans is), unique]
      exact ended run current
    · rw [lists source (Ne.symm (ended run current))]
      exact found
  · right
    cases current.symm.trans same
    rcases List.mem_map.mp inside with ⟨spill, tracked, path⟩
    refine ⟨after, now, ledger ▸ inside, spill.entry, ?_, path, fine spill tracked path⟩
    rw [unique, own]
    exact List.mem_map_of_mem tracked

theorem Recorded.minted (kept : Kept s) (recorded : Recorded p good s) : s.minted p := by
  rcases recorded with ⟨source, _, entry, found, same, _⟩ | ⟨run, _, _, entry, found, same, _⟩
  · exact same ▸ kept.minted source entry found
  · exact same ▸ kept.minted run.unique entry found

variable [DecidableEq P]

namespace System

def answers (s : System P) : SpillOp P → List P
  | .reclaim now wall live =>
    match s.current with
    | some run => (run.ledger.reclaim now wall live).2.removed.map OwnedSpill.path
    | none => []
  | _ => []

/-- The step leaves the body's file in place and does not answer it for removal. -/
def Spares (p : P) (s : System P) (op : SpillOp P) : Prop :=
  (s.step op).files p = true ∧ p ∉ s.answers op

/-- A run opens only where the inventories give the body one record. -/
def Agrees (p : P) (s : System P) : SpillOp P → Prop
  | .start .. => ∀ unique, ∀ entry ∈ s.listed unique, entry.path = p →
      ∀ other, ∀ entry' ∈ s.listed other, entry'.path = p →
        entry.settledUnixMs = entry'.settledUnixMs
  | _ => True

end System

/-- What is recorded of a body stays recorded while its file is in place and no run answers it for
removal, provided the run of the moment tracks it as recorded. -/
theorem Recorded.moved {op : SpillOp P} (kept : Kept s) (moved : Moved s op next)
    (there : next.files p) (unanswered : p ∉ s.answers op)
    (tracked : ∀ run, s.current = some run → ∀ spill ∈ run.ledger.owned, spill.path = p →
      good spill.entry)
    (recorded : Recorded p good s) : Recorded p good next := by
  cases moved with
  | @start unique order now wall retention protectedGrace maxSettledBytes idle unlocked unlisted =>
    rcases recorded with ⟨source, _, entry, found, is⟩ | ⟨run, current, _⟩
    · left
      refine ⟨source, ?_, entry, found, is⟩
      intro run same
      rw [← Option.some.inj same]
      intro new
      rw [← new, System.listed, unlisted] at found
      cases found
    · rw [idle] at current
      cases current
  | examineRemoved current _ _ | examineKept current _ | firstWriteFailed current _
  | keepList current _ | dropLock locks current _ | removeFailed current _ | removed current _ =>
    exact recorded.put current rfl rfl id fun _ => rfl
  | @adopt run spills current phase =>
    refine recorded.put current rfl rfl ?_ fun _ => rfl
    intro inside
    simp only [SpillLedger.paths, SpillLedger.adopt, List.map_append, List.mem_append]
    exact Or.inl inside
  | @firstWrite run current phase =>
    refine recorded.written (tracked run current) current rfl rfl rfl ?_ ?_
    · exact listed_update_self s run.unique (some run.ledger.manifestText)
    · intro unique apart
      exact listed_update_of_ne s _ apart
  | @rewrite run gone current phase =>
    refine recorded.written (tracked run current) current current rfl rfl ?_ ?_
    · exact listed_update_self s run.unique (some run.ledger.manifestText)
    · intro unique apart
      exact listed_update_of_ne s _ apart
  | @dropList run source rest current phase =>
    rcases kept.phase current phase with ⟨sub, covered, written⟩
    have apart : run.unique ≠ source := by
      intro same
      apply (kept.run run current).apart
      rw [same]
      exact sub.subset List.mem_cons_self
    have own := (listed_update_of_ne s none apart).trans (written (List.cons_ne_nil _ _))
    have again : p ∈ run.ledger.paths → Recorded p good { s with
        lists := Function.update s.lists source none
        current := some { run with phase := .releasing (source :: rest) true } } := by
      intro inside
      rcases List.mem_map.mp inside with ⟨spill, member, path⟩
      right
      refine ⟨_, rfl, inside, spill.entry, ?_, path, tracked run current spill member path⟩
      have listed : spill.entry ∈ run.ledger.manifestText := List.mem_map_of_mem member
      exact own ▸ listed
    rcases recorded with ⟨other, ended, entry, found, is, fine⟩ | ⟨found, same, inside, _⟩
    · by_cases same : other = source
      · subst same
        apply again
        rw [← is]
        apply covered other List.mem_cons_self entry found
        rw [is]
        exact there
      · left
        refine ⟨other, ?_, entry, ?_, is, fine⟩
        · intro found same
          rw [← Option.some.inj same]
          exact ended run current
        · exact (listed_update_of_ne s none same).symm ▸ found
    · have is := Option.some.inj (current.symm.trans same)
      subst is
      exact again inside
  | @own op run gone spill current phase new named =>
    refine recorded.put current rfl rfl ?_ fun _ => rfl
    intro inside
    simp only [SpillLedger.paths, List.map_append, List.mem_append]
    exact Or.inl inside
  | @releaseTasks run gone paneId retired current phase =>
    refine recorded.put current rfl rfl ?_ fun _ => rfl
    intro inside
    rw [SpillLedger.releaseTasks_paths]
    exact inside
  | @reclaim run gone now wall live current phase =>
    refine recorded.put current rfl rfl ?_ fun _ => rfl
    intro inside
    have moved := (run.ledger.reclaim_paths now wall live).mem_iff.mpr inside
    rcases List.mem_append.mp moved with still | answered
    · exact still
    · simp only [System.answers, current] at unanswered
      exact absurd answered unanswered
  | @restore run gone current phase =>
    refine recorded.put current rfl rfl ?_ fun _ => rfl
    intro inside
    simp only [SpillLedger.paths, SpillLedger.restore, List.map_append, List.mem_append]
    exact Or.inl inside
  | vanish => exact recorded
  | @finish run current =>
    left
    have ended : ∀ unique, ({ s with current := none } : System P).Ended unique := by
      intro unique run impossible
      cases impossible
    rcases recorded with ⟨source, _, entry, found⟩ | ⟨run, _, _, entry, found⟩
    · exact ⟨source, ended source, entry, found⟩
    · exact ⟨run.unique, ended run.unique, entry, found⟩

/-! ## The one settlement of a body taken over -/

/-- The run of the moment, where it knows the body, knows it as taken over and settled at `m`. -/
structure Pinned (p : P) (m : ℕ) (s : System P) (run : Run P) : Prop where
  tracked : ∀ spill ∈ run.ledger.owned, spill.path = p →
    spill.message = none ∧ spill.settledWall.map toMillis = some m
  listed : ∀ entry ∈ s.listed run.unique, entry.path = p → entry.settledUnixMs = some m
  kept : p ∉ (run.answered ++ run.failed).map OwnedSpill.path
  opening : ∀ rest spills, run.phase = .opening rest spills →
    (∀ entry ∈ rest, entry.path = p → entry.settledUnixMs = some m) ∧
      ∀ spill ∈ spills, spill.path = p → spill.settledWall.map toMillis = some m

/-- The body is recorded with the settlement `m`, and so the run of the moment knows it. -/
structure Marked (p : P) (m : ℕ) (s : System P) : Prop where
  recorded : Recorded p (fun entry => entry.settledUnixMs = some m) s
  pinned : ∀ run, s.current = some run → Pinned p m s run

section Pinned

variable {m : ℕ} {run : Run P}

omit [DecidableEq P]

theorem Marked.tracked (marked : Marked p m s) {run : Run P} (current : s.current = some run)
    {spill : OwnedSpill P} (inside : spill ∈ run.ledger.owned) (path : spill.path = p) :
    spill.entry.settledUnixMs = some m :=
  ((marked.pinned run current).tracked spill inside path).2

theorem Pinned.served {after : Run P} (pinned : Pinned p m s run)
    (past : ∀ rest spills, after.phase ≠ .opening rest spills)
    (listed : ∀ entry ∈ next.listed after.unique, entry ∈ s.listed run.unique ∨
      ∃ spill ∈ run.ledger.owned, spill.entry = entry)
    (tracked : ∀ spill ∈ after.ledger.owned, spill.path = p → spill ∈ run.ledger.owned)
    (kept : p ∈ (after.answered ++ after.failed).map OwnedSpill.path →
      p ∈ (run.answered ++ run.failed).map OwnedSpill.path) : Pinned p m next after := by
  refine ⟨?_, ?_, fun inside => pinned.kept (kept inside), ?_⟩
  · intro spill inside path
    exact pinned.tracked spill (tracked spill inside path) path
  · intro entry inside path
    rcases listed entry inside with old | ⟨spill, owned, same⟩
    · exact pinned.listed entry old path
    · rw [← same]
      exact (pinned.tracked spill owned ((congrArg ManifestEntry.path same).trans path)).2
  · intro rest spills opening
    exact absurd opening (past rest spills)

theorem Phase.releasing_ne_opening {left : List ℕ} {gone : Bool} (rest : List (ManifestEntry P))
    (spills : List (OwnedSpill P)) : Phase.releasing left gone ≠ .opening rest spills := by
  simp only [ne_eq, reduceCtorEq, not_false_eq_true]

theorem ne_opening {left : List ℕ} {gone : Bool} (phase : run.phase = .releasing left gone)
    (rest : List (ManifestEntry P)) (spills : List (OwnedSpill P)) :
    run.phase ≠ .opening rest spills := by
  rw [phase]
  exact Phase.releasing_ne_opening rest spills

theorem mem_written {lists : ℕ → Option (List (ManifestEntry P))} {entry : ManifestEntry P}
    (listed : entry ∈ (Function.update lists run.unique (some run.ledger.manifestText)
      run.unique).getD []) : ∃ spill ∈ run.ledger.owned, spill.entry = entry := by
  rw [Function.update_self] at listed
  exact List.mem_map.mp listed

section

variable (pinned : Pinned p m s run)

include pinned

theorem Pinned.examine {rest : List (ManifestEntry P)} {spills : List (OwnedSpill P)}
    (lists : next.listed run.unique = s.listed run.unique)
    (remaining : ∀ entry ∈ rest, entry.path = p → entry.settledUnixMs = some m)
    (taken : ∀ spill ∈ spills, spill.path = p → spill.settledWall.map toMillis = some m) :
    Pinned p m next { run with phase := .opening rest spills } := by
  refine ⟨pinned.tracked, lists ▸ pinned.listed, pinned.kept, ?_⟩
  rintro _ _ ⟨⟩
  exact ⟨remaining, taken⟩

theorem Pinned.release {left : List ℕ} {gone : Bool}
    (listed : ∀ entry ∈ next.listed run.unique, entry ∈ s.listed run.unique ∨
      ∃ spill ∈ run.ledger.owned, spill.entry = entry) :
    Pinned p m next { run with phase := .releasing left gone } :=
  pinned.served Phase.releasing_ne_opening listed (fun _ inside _ => inside) id

theorem Pinned.removed {spill : OwnedSpill P} {rest failed : List (OwnedSpill P)}
    (answered : run.answered = spill :: rest)
    (among : ∀ body ∈ failed, body ∈ run.failed ∨ body.path = spill.path)
    (lists : next.listed run.unique = s.listed run.unique) :
    Pinned p m next { run with
      answered := rest
      failed := failed } := by
  refine ⟨pinned.tracked, lists ▸ pinned.listed, fun inside => pinned.kept ?_, pinned.opening⟩
  rcases List.mem_map.mp inside with ⟨body, member, path⟩
  rw [answered, ← path]
  rcases List.mem_append.mp member with later | failed
  · exact List.mem_map_of_mem (List.mem_append_left _ (List.mem_cons_of_mem spill later))
  · rcases among body failed with old | same
    · exact List.mem_map_of_mem (List.mem_append_right _ old)
    · rw [same]
      exact List.mem_map_of_mem List.mem_cons_self

theorem Pinned.adopted (books : RunKept s run) {spill : OwnedSpill P}
    (owned : spill ∈ run.ledger.owned) (path : spill.path = p) : spill.Adopted := by
  have body : spill ∈ run.bodies := List.mem_append_left _ (List.mem_append_left _ owned)
  exact (books.took spill body (pinned.tracked spill owned path).1).adopted

end

theorem Marked.start {unique : ℕ} {order : List ℕ} {now : Instant} {wall : SystemTime}
    {retention protectedGrace : Duration} {maxSettledBytes : ℕ} (marked : Marked p m s)
    (idle : s.current = none)
    (agrees : s.Agrees p (.start unique order now wall retention protectedGrace maxSettledBytes))
    (unlisted : next.lists run.unique = none) (bodies : run.bodies = [])
    (phase : run.phase = .opening (takeOver s.files s.lists order) []) : Pinned p m next run := by
  simp only [Run.bodies, List.append_eq_nil_iff] at bodies
  refine ⟨?_, ?_, ?_, ?_⟩
  · intro spill impossible
    rw [bodies.1.1] at impossible
    cases impossible
  · intro entry listed
    simp only [System.listed, unlisted] at listed
    cases listed
  · rw [bodies.1.2, bodies.2]
    exact List.not_mem_nil
  · intro rest spills opening
    rcases phase.symm.trans opening with ⟨⟩
    refine ⟨?_, ?_⟩
    · intro entry read path
      rcases mem_takeOver.mp read with ⟨source, _, found, _⟩
      rcases marked.recorded with ⟨other, _, first, listed, is, record⟩ | ⟨run, current, _⟩
      · rw [← record]
        exact agrees source entry found path other first listed is
      · rw [idle] at current
        cases current
    · intro spill impossible
      cases impossible

end Pinned

theorem Marked.moved {m : ℕ} (word : m < 2 ^ 64) {op : SpillOp P} (kept : Kept s)
    (moved : Moved s op next) (there : next.files p) (unanswered : p ∉ s.answers op)
    (agrees : s.Agrees p op) (marked : Marked p m s) : Marked p m next := by
  refine ⟨marked.recorded.moved kept moved there unanswered
    (fun run current spill inside path => marked.tracked current inside path), ?_⟩
  intro after now
  cases moved with
  | start idle unlocked unlisted nodup locked =>
    cases now
    exact marked.start idle agrees unlisted rfl rfl
  | @examineRemoved run entry rest spills fails current phase aged =>
    cases now
    have pinned := marked.pinned run current
    exact pinned.examine rfl (fun other inside =>
      (pinned.opening _ _ phase).1 other (List.mem_cons_of_mem entry inside))
      (pinned.opening _ _ phase).2
  | @examineKept run entry rest spills fails failures current phase =>
    cases now
    have pinned := marked.pinned run current
    refine pinned.examine rfl (fun other inside =>
      (pinned.opening _ _ phase).1 other (List.mem_cons_of_mem entry inside)) ?_
    intro spill inside path
    rcases List.mem_append.mp inside with old | new
    · exact (pinned.opening _ _ phase).2 spill old path
    · have same := List.mem_singleton.mp new
      subst same
      have record := (pinned.opening _ _ phase).1 entry List.mem_cons_self path
      simp only [takenSpill, record, Option.map_some, Option.getD_some, toMillis_unixMillis word]
  | @adopt run spills current phase =>
    cases now
    have pinned := marked.pinned run current
    refine ⟨?_, pinned.listed, pinned.kept, ?_⟩
    · intro spill inside path
      rcases List.mem_append.mp inside with old | new
      · exact pinned.tracked spill old path
      · have handed := (mem_unknown new).1
        refine ⟨((kept.phase current phase).2.2.2.2.1 spill handed).adopted.message, ?_⟩
        exact (pinned.opening _ _ phase).2 spill handed path
    · intro remaining others opening
      simp only [reduceCtorEq] at opening
  | @firstWrite run current phase =>
    cases now
    exact (marked.pinned run current).release fun _ listed => Or.inr (mem_written listed)
  | @firstWriteFailed run current phase | @keepList run source rest current phase
  | @dropLock run source rest removed locks current phase =>
    cases now
    exact (marked.pinned run current).release fun _ listed => Or.inl listed
  | @rewrite run gone current phase =>
    cases current.symm.trans now
    exact (marked.pinned after current).served (ne_opening phase)
      (fun _ listed => Or.inr (mem_written listed)) (fun _ inside _ => inside) id
  | @dropList run source rest current phase =>
    cases now
    exact (marked.pinned run current).release fun _ listed => Or.inl (listed_of_drop listed)
  | @own op run gone spill current phase new named =>
    cases now
    refine (marked.pinned run current).served (ne_opening phase)
      (fun _ listed => Or.inl listed) ?_ id
    intro body inside path
    rcases List.mem_append.mp inside with old | fresh
    · exact old
    · rw [← path, List.mem_singleton.mp fresh] at marked
      rw [marked.recorded.minted kept] at new
      cases new
  | @releaseTasks run gone paneId retired current phase =>
    cases now
    have pinned := marked.pinned run current
    refine pinned.served (ne_opening phase) (fun _ listed => Or.inl listed) ?_ id
    intro body inside path
    rcases List.mem_map.mp inside with ⟨old, owned, rfl⟩
    rw [OwnedSpill.releaseTask_path] at path
    rw [(pinned.adopted (kept.run run current) owned path).releaseTask]
    exact owned
  | @reclaim run gone mono wall live current phase =>
    cases now
    have pinned := marked.pinned run current
    refine pinned.served (ne_opening phase) (fun _ listed => Or.inl listed) ?_ ?_
    · intro body inside path
      have moved := (run.ledger.reclaim_perm mono wall live).mem_iff.mp
        (List.mem_append_left _ inside)
      rcases List.mem_map.mp moved with ⟨old, owned, rfl⟩
      rw [OwnedSpill.settle_path] at path
      rw [(pinned.adopted (kept.run run current) owned path).settle]
      exact owned
    · intro inside
      simp only [List.map_append, List.mem_append] at inside ⊢
      rcases inside with (old | answered) | failed
      · exact Or.inl old
      · simp only [System.answers, current] at unanswered
        exact absurd answered unanswered
      · exact Or.inr failed
  | @removeFailed run spill rest fails current answered =>
    cases now
    refine (marked.pinned run current).removed answered ?_ rfl
    intro body failed
    rcases List.mem_append.mp failed with old | new
    · exact Or.inl old
    · rw [List.mem_singleton.mp new]
      exact Or.inr rfl
  | @removed run spill rest fails current answered =>
    cases now
    exact (marked.pinned run current).removed answered (fun _ old => Or.inl old) rfl
  | @restore run gone current phase =>
    cases now
    have pinned := marked.pinned run current
    refine pinned.served (ne_opening phase) (fun _ listed => Or.inl listed) ?_ ?_
    · intro body inside path
      rcases List.mem_append.mp inside with old | failed
      · exact old
      · exfalso
        apply pinned.kept
        rw [← path]
        exact List.mem_map_of_mem (List.mem_append_right _ failed)
    · intro inside
      rw [List.append_nil] at inside
      rw [List.map_append]
      exact List.mem_append_left _ inside
  | vanish =>
    have pinned := marked.pinned after now
    exact ⟨pinned.tracked, pinned.listed, pinned.kept, pinned.opening⟩
  | finish => cases now

/-! ## Runs -/

theorem Recorded.step (kept : Kept s) (op : SpillOp P) (spares : s.Spares p op)
    (recorded : Recorded p (fun _ => True) s) : Recorded p (fun _ => True) (s.step op) := by
  rcases s.step_cases op with same | moved
  · rw [same]
    exact recorded
  · exact recorded.moved kept moved spares.1 spares.2 fun _ _ _ _ _ => trivial

theorem Marked.step {m : ℕ} (word : m < 2 ^ 64) (kept : Kept s) (op : SpillOp P)
    (spares : s.Spares p op) (agrees : s.Agrees p op) (marked : Marked p m s) :
    Marked p m (s.step op) := by
  rcases s.step_cases op with same | moved
  · rw [same]
    exact marked
  · exact marked.moved word kept moved spares.1 spares.2 agrees

theorem Recorded.run (kept : Kept s) {ops : List (SpillOp P)}
    (spared : Runs.Along System.step (System.Spares p) s ops)
    (recorded : Recorded p (fun _ => True) s) : Recorded p (fun _ => True) (s.run ops) := by
  have both := Runs.run_keeps (fun s => Kept s ∧ Recorded p (fun _ => True) s)
    (fun s op spares held => ⟨held.1.step op, held.2.step held.1 op spares⟩) spared
    ⟨kept, recorded⟩
  exact both.2

theorem Marked.run {m : ℕ} (word : m < 2 ^ 64) (kept : Kept s) {ops : List (SpillOp P)}
    (spared : Runs.Along System.step (fun s op => System.Spares p s op ∧
      System.Agrees p s op) s ops) (marked : Marked p m s) : Marked p m (s.run ops) := by
  have both := Runs.run_keeps (fun s => Kept s ∧ Marked p m s)
    (fun s op fine held => ⟨held.1.step op, held.2.step word held.1 op fine.1 fine.2⟩) spared
    ⟨kept, marked⟩
  exact both.2

theorem examine_removes (kept : Kept s) {fails : Bool} (there : s.files p)
    (gone : (s.step (.examine fails)).files p = false) :
    ∃ run entry, s.current = some run ∧ entry.path = p ∧
      (∃ source, s.Ended source ∧ entry ∈ s.listed source) ∧
      run.ledger.retention ≤ entryAge run.wall entry := by
  rcases s.step_cases (.examine fails) with same | moved
  · rw [same, there] at gone
    cases gone
  · generalize s.step (.examine fails) = next at moved gone
    cases moved with
    | @examineRemoved run entry rest spills _ current phase aged =>
      have removed : Function.update s.files entry.path false p = false := gone
      have here : entry.path = p := by
        by_contra other
        rw [Function.update_of_ne (Ne.symm other), there] at removed
        cases removed
      have books := kept.run run current
      have phaseKept := books.phase
      rw [phase] at phaseKept
      rcases phaseKept with ⟨_, _, _, pending, _, sources⟩
      rcases sources entry (pending entry List.mem_cons_self) with ⟨source, member, found⟩
      refine ⟨run, entry, current, here, ⟨source, ?_, found⟩, aged⟩
      intro other is same
      rw [current] at is
      have sameRun := Option.some.inj is
      subst sameRun
      exact books.apart (same ▸ member)
    | examineKept current phase =>
      cases there.symm.trans gone
    | @own _ run left spill current phase new named =>
      have saved : Function.update s.files spill.path true p = false := gone
      by_cases same : p = spill.path
      · rw [same, Function.update_self] at saved
        cases saved
      · rw [Function.update_of_ne same, there] at saved
        cases saved

omit [DecidableEq P] in
theorem eq_of_path {run : Run P} (books : RunKept s run) {one other : OwnedSpill P}
    (first : one ∈ run.ledger.owned) (second : other ∈ run.ledger.owned)
    (same : one.path = other.path) : one = other := by
  have once := books.once
  rw [Run.bodies, List.append_assoc, List.map_append] at once
  exact List.inj_on_of_nodup_map once.of_append_left first second same

theorem Marked.written {run : Run P} (kept : Kept s) (current : s.current = some run)
    (ready : run.phase = .recording ∨ ∃ gone, run.phase = .releasing [] gone) {spill : OwnedSpill P}
    {settled : SystemTime} (owned : spill ∈ run.ledger.owned) (taken : spill.message = none)
    (wall : spill.settledWall = some settled) :
    Marked spill.path (toMillis settled) (s.step (.write true)) := by
  have books := kept.run run current
  have tracked : ∀ body ∈ run.ledger.owned, body.path = spill.path →
      body.message = none ∧ body.settledWall.map toMillis = some (toMillis settled) := by
    intro body inside path
    rw [eq_of_path books inside owned path, wall]
    exact ⟨taken, rfl⟩
  have withdrawn : spill.path ∉ (run.answered ++ run.failed).map OwnedSpill.path := by
    have once := books.once
    rw [Run.bodies, List.append_assoc, List.map_append] at once
    exact fun inside => (List.disjoint_of_nodup_append once)
      (List.mem_map_of_mem owned) inside
  have marked : ∀ after : Run P, after.unique = run.unique → after.ledger = run.ledger →
      after.answered = run.answered → after.failed = run.failed →
      (∀ rest spills, after.phase ≠ .opening rest spills) →
      Marked spill.path (toMillis settled) { s with
        lists := Function.update s.lists run.unique (some run.ledger.manifestText)
        current := some after } := by
    intro after unique ledger answered failed past
    have own : ∀ entry, entry ∈ ({ s with
        lists := Function.update s.lists run.unique (some run.ledger.manifestText)
        current := some after } : System P).listed after.unique ↔
          entry ∈ run.ledger.manifestText := by
      intro entry
      simp only [System.listed, unique, Function.update_self, Option.getD_some]
    refine ⟨Or.inr ⟨after, rfl, ?_, spill.entry, ?_, rfl, ?_⟩, ?_⟩
    · rw [ledger]
      exact List.mem_map_of_mem owned
    · exact (own _).mpr (List.mem_map_of_mem owned)
    · exact (tracked spill owned rfl).2
    · intro found same
      rw [← Option.some.inj same]
      refine ⟨?_, ?_, ?_, fun rest spills opening => absurd opening (past rest spills)⟩
      · rw [ledger]
        exact tracked
      · intro entry listed path
        rcases List.mem_map.mp ((own entry).mp listed) with ⟨body, inside, rfl⟩
        exact (tracked body inside path).2
      · rw [answered, failed]
        exact withdrawn
  rcases ready with phase | ⟨gone, phase⟩
  · have moved : s.step (.write true) = { s with
        lists := Function.update s.lists run.unique (some run.ledger.manifestText)
        current := some { run with phase := .releasing run.sources false } } := by
      simp only [System.step, current, System.runStep, System.write, phase, if_true]
    rw [moved]
    exact marked _ rfl rfl rfl rfl Phase.releasing_ne_opening
  · have moved : s.step (.write true) = { s with
        lists := Function.update s.lists run.unique (some run.ledger.manifestText)
        current := some run } := by
      simp only [System.step, current, System.runStep, System.write, phase, if_true]
    rw [moved]
    exact marked _ rfl rfl rfl rfl (ne_opening phase)

omit [DecidableEq P] in
theorem unixMillis_le_of_age {wall : SystemTime} {retention : Duration} {entry : ManifestEntry P}
    (positive : 0 < retention) (aged : retention ≤ entryAge wall entry) :
    ∃ millis, entry.settledUnixMs = some millis ∧ unixMillis millis + retention ≤ wall := by
  cases settled : entry.settledUnixMs with
  | none =>
    simp only [entryAge, settled, Option.map_none, Option.getD_none, Nat.sub_self] at aged
    cases lt_of_lt_of_le positive aged
  | some millis =>
    refine ⟨millis, rfl, ?_⟩
    simp only [entryAge, settled] at aged
    have reached : unixMillis millis < wall := Nat.lt_of_sub_pos (lt_of_lt_of_le positive aged)
    have shape := Nat.add_sub_of_le (le_of_lt reached)
    calc
      unixMillis millis + retention ≤ unixMillis millis + (wall - unixMillis millis) :=
        Nat.add_le_add_left aged _
      _ = wall := shape

/-- Over any sequence of runs: a body an ended run's inventory lists stays listed while its file is
in place and no run answers it for removal; with a retention, a takeover removes only the file of
an entry that settled a retention ago; and the settlement under which a run tracks a body it took
over, the takeover's where none was recorded, is the one every later takeover tracks it under, once
an inventory records it, as long as no run opens over two records of the body that differ. -/
theorem saved_bodies_survive (ops : List (SpillOp P)) :
    (∀ (p : P) (source : ℕ) (more : List (SpillOp P)), (System.empty.run ops).Ended source →
      p ∈ ((System.empty.run ops).listed source).map ManifestEntry.path →
      Runs.Along System.step (System.Spares p) (System.empty.run ops) more →
      ∃ unique, p ∈ (((System.empty.run ops).run more).listed unique).map ManifestEntry.path) ∧
    (∀ (p : P) (fails : Bool), (System.empty.run ops).files p = true →
      ((System.empty.run ops).step (.examine fails)).files p = false →
      ∃ run entry, (System.empty.run ops).current = some run ∧ entry.path = p ∧
        (∃ source, (System.empty.run ops).Ended source ∧
          entry ∈ (System.empty.run ops).listed source) ∧
        (0 < run.ledger.retention → ∃ millis, entry.settledUnixMs = some millis ∧
          unixMillis millis + run.ledger.retention ≤ run.wall)) ∧
    ∀ (run : Run P) (spill : OwnedSpill P), (System.empty.run ops).current = some run →
      spill ∈ run.ledger.owned → spill.message = none →
      ∃ entry ∈ run.taken, ∃ settled, entry.path = spill.path ∧
        settled = (entry.settledUnixMs.map unixMillis).getD run.wall ∧
        spill.settledWall = some settled ∧
        ((run.phase = .recording ∨ ∃ gone, run.phase = .releasing [] gone) →
          ∀ more, Runs.Along System.step
              (fun s op => System.Spares spill.path s op ∧ System.Agrees spill.path s op)
              ((System.empty.run ops).step (.write true)) more →
            ∀ later, (((System.empty.run ops).step (.write true)).run more).current = some later →
              (∀ body ∈ later.ledger.owned, body.path = spill.path →
                body.settledWall.map toMillis = some (toMillis settled)) ∧
              ∀ entry ∈ (((System.empty.run ops).step (.write true)).run more).listed later.unique,
                entry.path = spill.path → entry.settledUnixMs = some (toMillis settled)) := by
  have kept := kept_run ops
  generalize System.empty.run ops = s at kept
  refine ⟨?_, ?_, ?_⟩
  · intro p source more ended listed spared
    rcases List.mem_map.mp listed with ⟨entry, found, path⟩
    have recorded : Recorded p (fun _ => True) s :=
      Or.inl ⟨source, ended, entry, found, path, trivial⟩
    rcases recorded.run kept spared with ⟨unique, _, there, member, is, _⟩ | ⟨run, _, _, there,
      member, is, _⟩
    · exact ⟨unique, is ▸ List.mem_map_of_mem member⟩
    · exact ⟨run.unique, is ▸ List.mem_map_of_mem member⟩
  · intro p fails there gone
    rcases examine_removes kept there gone with ⟨run, entry, current, path, found, aged⟩
    exact ⟨run, entry, current, path, found, fun positive => unixMillis_le_of_age positive aged⟩
  · intro run spill current owned taken
    have books := kept.run run current
    have took := books.took spill (List.mem_append_left _ (List.mem_append_left _ owned)) taken
    rcases took.source with ⟨entry, read, path, wall⟩
    refine ⟨entry, read, _, path, rfl, wall, ?_⟩
    intro ready more spared later now
    have marked := (Marked.written kept current ready owned taken wall).run (toMillis_lt _)
      (kept.step _) spared
    have pinned := marked.pinned later now
    exact ⟨fun body inside same => (pinned.tracked body inside same).2, pinned.listed⟩

/-- A run that saves the body 7 and ends while its message is live. -/
def saving : List (SpillOp ℕ) :=
  [.start 1 [] 0 0 60000000000 1 1000, .adopt, .write true, .own 7 [] 5, .write true, .finish]

def saved : System ℕ := System.empty.run saving

/-- A takeover of its inventory, up to the write of the run's own. -/
def takingOver (unique : ℕ) (order : List ℕ) (wall : SystemTime) : List (SpillOp ℕ) :=
  [.start unique order 0 wall 60000000000 1 1000, .examine false, .examine false, .adopt,
    .write true]

/-- The takeover goes on to its end and is taken over in turn. -/
def handedOn : List (SpillOp ℕ) :=
  [.dropList true, .dropLock true, .finish] ++ (takingOver 3 [2] 2000000000).take 4

theorem saved_bodies_survive_crash :
    (∃ unique, 7 ∈ ((saved.run (takingOver 2 [1] 1000000000 ++ [SpillOp.finish])).listed
      unique).map ManifestEntry.path) ∧
    ∃ later, (saved.run (takingOver 2 [1] 1000000000 ++ handedOn)).current = some later ∧
      7 ∈ later.ledger.paths ∧ ∀ body ∈ later.ledger.owned, body.path = 7 →
        body.settledWall.map toMillis = some 1000 := by
  refine ⟨?_, ?_⟩
  · have ended : saved.Ended 1 := by
      intro run impossible
      exact absurd impossible.symm (Option.some_ne_none run)
    have survives := (saved_bodies_survive saving).1 7 1
      (takingOver 2 [1] 1000000000 ++ [SpillOp.finish]) ended (by decide)
    exact survives ⟨⟨by decide, by decide⟩, ⟨by decide, by decide⟩, ⟨by decide, by decide⟩,
      ⟨by decide, by decide⟩, ⟨by decide, by decide⟩, ⟨by decide, by decide⟩, trivial⟩
  · have agrees : ∀ unique, ∀ entry ∈ (saved.run (takingOver 2 [1] 1000000000 ++
        handedOn.take 3)).listed unique, entry.settledUnixMs = some 1000 := by
      intro unique
      match unique with
      | 0 | 1 | 2 => decide
      | other + 3 => exact fun _ => nofun
    rcases (saved_bodies_survive (saving ++ (takingOver 2 [1] 1000000000).take 4)).2.2 _ _ rfl
      List.mem_cons_self rfl with ⟨_, _, _, _, _, ⟨⟩, settles⟩
    have held := settles (.inl rfl) handedOn ⟨⟨⟨by decide, by decide⟩, trivial⟩,
      ⟨⟨by decide, by decide⟩, trivial⟩, ⟨⟨by decide, by decide⟩, trivial⟩,
      ⟨⟨by decide, by decide⟩, fun unique entry here _ other entry' there _ =>
        (agrees unique entry here).trans (agrees other entry' there).symm⟩,
      ⟨⟨by decide, by decide⟩, trivial⟩, ⟨⟨by decide, by decide⟩, trivial⟩,
      ⟨⟨by decide, by decide⟩, trivial⟩, trivial⟩
    exact ⟨_, rfl, by decide, (held _ rfl).1⟩

/-- The takeover goes on to its end, gives the body up as long settled and records that. -/
def reclaimed : System ℕ :=
  saved.run (takingOver 2 [1] 1000000000 ++
    [SpillOp.dropList true, .dropLock true, .reclaim 60000000000 61000000000 (fun _ => false),
      .write true])

/-- The takeover is cut off after its write, and another follows. -/
def takenTwice : System ℕ :=
  saved.run (takingOver 2 [1] 1000000000 ++ [SpillOp.finish] ++ takingOver 3 [1, 2] 2000000000)

/-- Where a claim of more would fail: a body a run answered for removal is in no inventory once that
run has written again, though its file is still in place; a run that is cut off between the write
that records its takeover and the release leaves two records of a body, and the next takeover may
give it a settlement of its own; and with no retention a takeover removes a body that never
settled. -/
theorem takeover_limits :
    (7 ∈ (saved.listed 1).map ManifestEntry.path ∧ reclaimed.files 7 = true ∧
      ∀ unique, 7 ∉ (reclaimed.listed unique).map ManifestEntry.path) ∧
    takenTwice.listed 2 = [⟨7, 5, some 1000⟩] ∧ takenTwice.listed 3 = [⟨7, 5, some 2000⟩] ∧
    (saved.listed 1 = [⟨7, 5, none⟩] ∧
      (saved.run [.start 2 [1] 0 0 0 1 1000, .examine false]).files 7 = false) := by
  refine ⟨⟨by decide, by decide, ?_⟩, by decide, by decide, by decide, by decide⟩
  intro unique
  match unique with
  | 0 | 1 | 2 => decide
  | other + 3 => exact List.not_mem_nil

end AgentDeck.Spills
