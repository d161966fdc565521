import AgentDeck.Spills.Steps
import AgentDeck.Lib.Runs

/-!
# The books of a run

What holds in every state: a body is tracked at most once, every body taken over is settled, and as
long as an inventory that was taken is in place, the run has yet to look at each body it lists or
tracks it.
-/

namespace AgentDeck.Spills

variable {P : Type}

def System.listed (s : System P) (unique : ℕ) : List (ManifestEntry P) :=
  (s.lists unique).getD []

/-- Each body these inventories list, if its file is there, is among `paths`. -/
def Covered (s : System P) (sources : List ℕ) (paths : List P) : Prop :=
  ∀ source ∈ sources, ∀ entry ∈ s.listed source, s.files entry.path = true → entry.path ∈ paths

/-- What holds of the takeover while the run is in this phase. -/
def PhaseKept (s : System P) (run : Run P) : Phase P → Prop
  | .opening rest spills =>
    run.bodies = [] ∧ s.listed run.unique = [] ∧
    Covered s run.sources (rest.map ManifestEntry.path ++ spills.map OwnedSpill.path) ∧
    (∀ entry ∈ rest, entry ∈ run.taken) ∧ (∀ spill ∈ spills, Took run.wall run.taken spill) ∧
    ∀ entry ∈ run.taken, ∃ source ∈ run.sources, entry ∈ s.listed source
  | .recording => s.listed run.unique = [] ∧ Covered s run.sources run.ledger.paths
  | .releasing left _ =>
    left.Sublist run.sources ∧ Covered s left run.ledger.paths ∧
    (left ≠ [] → s.listed run.unique = run.ledger.manifestText)

structure RunKept (s : System P) (run : Run P) : Prop where
  apart : run.unique ∉ run.sources
  once : (run.bodies.map OwnedSpill.path).Nodup
  minted : ∀ spill ∈ run.bodies, s.minted spill.path = true
  took : ∀ spill ∈ run.bodies, spill.message = none → Took run.wall run.taken spill
  phase : PhaseKept s run run.phase

structure Kept (s : System P) : Prop where
  minted : ∀ unique, ∀ entry ∈ s.listed unique, s.minted entry.path = true
  run : ∀ run, s.current = some run → RunKept s run

theorem takenSpill_took {now : Instant} {wall : SystemTime} {taken : List (ManifestEntry P)}
    {entry : ManifestEntry P} (read : entry ∈ taken) (failures : ℕ) :
    Took wall taken { takenSpill now wall entry with failedRemovals := failures } :=
  ⟨⟨rfl, rfl, rfl⟩, ⟨entry, read, rfl, rfl⟩⟩

theorem listed_update_self (s : System P) (unique : ℕ) (list : Option (List (ManifestEntry P))) :
    ({ s with lists := Function.update s.lists unique list } : System P).listed unique =
      list.getD [] := by
  simp only [System.listed, Function.update_self]

theorem listed_update_of_ne (s : System P) {unique other : ℕ}
    (list : Option (List (ManifestEntry P))) (apart : other ≠ unique) :
    ({ s with lists := Function.update s.lists unique list } : System P).listed other =
      s.listed other := by
  simp only [System.listed, Function.update_of_ne apart]

theorem mem_takeOver {files : P → Bool} {lists : ℕ → Option (List (ManifestEntry P))}
    {order : List ℕ} {entry : ManifestEntry P} :
    entry ∈ takeOver files lists order ↔
      ∃ source ∈ order, entry ∈ (lists source).getD [] ∧ files entry.path := by
  simp only [takeOver, List.mem_flatMap, List.mem_filter]

variable {s next : System P}

theorem Covered.mono {sources left : List ℕ} {paths more : List P}
    (covered : Covered s sources paths) (fewer : ∀ source ∈ left, source ∈ sources)
    (lists : ∀ source ∈ left, ∀ entry ∈ next.listed source, entry ∈ s.listed source)
    (files : ∀ path, next.files path = true → s.files path)
    (grown : ∀ path ∈ paths, path ∈ more) : Covered next left more := by
  intro source inside entry found there
  apply grown
  exact covered source (fewer source inside) entry (lists source inside entry found)
    (files entry.path there)

theorem Covered.shrink {sources : List ℕ} {paths : List P} (covered : Covered s sources paths)
    (lists : ∀ unique, next.listed unique = s.listed unique)
    (files : ∀ path, next.files path = true → s.files path) : Covered next sources paths := by
  apply covered.mono (fun _ inside => inside) _ files (fun _ inside => inside)
  intro source _ entry found
  rwa [lists source] at found

variable {run : Run P}

/-- What a run's books need of the rest of the system: its own inventory and those it took, the
names that were used and the files that are gone. -/
theorem RunKept.congr (kept : RunKept s run)
    (lists : ∀ unique, next.listed unique = s.listed unique)
    (minted : ∀ path, s.minted path = true → next.minted path)
    (files : ∀ path, next.files path = true → s.files path) : RunKept next run := by
  refine ⟨kept.apart, kept.once, fun spill body => minted _ (kept.minted spill body), kept.took, ?_⟩
  have phaseKept := kept.phase
  cases phase : run.phase with
  | opening rest spills =>
    rw [phase] at phaseKept
    rcases phaseKept with ⟨bodies, unlisted, covered, pending, taken, sources⟩
    refine ⟨bodies, (lists _).trans unlisted, covered.shrink lists files, pending, taken, ?_⟩
    intro entry inside
    rcases sources entry inside with ⟨source, member, found⟩
    exact ⟨source, member, by rwa [lists source]⟩
  | recording =>
    rw [phase] at phaseKept
    exact ⟨(lists _).trans phaseKept.1, phaseKept.2.shrink lists files⟩
  | releasing left gone =>
    rw [phase] at phaseKept
    exact ⟨phaseKept.1, phaseKept.2.1.shrink lists files,
      fun left => (lists _).trans (phaseKept.2.2 left)⟩

/-- What the books read of a body is as it was: a body taken over keeps its settlement. -/
structure SameBody (old body : OwnedSpill P) : Prop where
  path : body.path = old.path
  message : body.message = old.message
  settled : old.Adopted → body.Adopted ∧ body.settledWall = old.settledWall

/-- Every body after the step was one before it, and none is there twice. -/
structure BodiesOf (before after : List (OwnedSpill P)) : Prop where
  once : (before.map OwnedSpill.path).Nodup → (after.map OwnedSpill.path).Nodup
  source : ∀ body ∈ after, ∃ old ∈ before, SameBody old body

theorem BodiesOf.of_subperm {before after : List (OwnedSpill P)} (fewer : after.Subperm before) :
    BodiesOf before after := by
  refine ⟨?_, fun body inside =>
    ⟨body, fewer.subset inside, rfl, rfl, fun adopted => ⟨adopted, rfl⟩⟩⟩
  intro once
  rcases fewer with ⟨others, perm, sub⟩
  rw [← (perm.map OwnedSpill.path).nodup_iff]
  exact once.sublist (sub.map _)

theorem BodiesOf.changed {before after owned rest : List (OwnedSpill P)}
    {f : OwnedSpill P → OwnedSpill P} (same : ∀ body, SameBody body (f body))
    (was : before.Perm (owned ++ rest)) (is : after.Perm (owned.map f ++ rest)) :
    BodiesOf before after := by
  refine ⟨?_, ?_⟩
  · intro once
    rw [(was.map _).nodup_iff, List.map_append] at once
    have paths : owned.map (OwnedSpill.path ∘ f) = owned.map OwnedSpill.path :=
      List.map_congr_left fun body _ => (same body).path
    rwa [(is.map _).nodup_iff, List.map_append, List.map_map, paths]
  · intro body inside
    rcases List.mem_append.mp (is.mem_iff.mp inside) with changed | kept
    · rcases List.mem_map.mp changed with ⟨old, owned, rfl⟩
      exact ⟨old, was.mem_iff.mpr (List.mem_append_left _ owned), same old⟩
    · exact ⟨body, was.mem_iff.mpr (List.mem_append_right _ kept), rfl, rfl,
        fun adopted => ⟨adopted, rfl⟩⟩

/-- A step that leaves the phase alone and no body but those it had. -/
theorem RunKept.follow {after : Run P} (kept : RunKept s run)
    (bodies : BodiesOf run.bodies after.bodies) (unique : after.unique = run.unique)
    (sources : after.sources = run.sources) (wall : after.wall = run.wall)
    (taken : after.taken = run.taken) (minted : next.minted = s.minted)
    (phase : PhaseKept next after after.phase) : RunKept next after := by
  refine ⟨?_, bodies.once kept.once, ?_, ?_, phase⟩
  · rw [sources, unique]
    exact kept.apart
  · intro body inside
    rcases bodies.source body inside with ⟨old, before, same⟩
    rw [same.path, minted]
    exact kept.minted old before
  · intro body inside unnamed
    rcases bodies.source body inside with ⟨old, before, same⟩
    have took := kept.took old before (same.message ▸ unnamed)
    rcases same.settled took.adopted with ⟨adopted, settled⟩
    refine ⟨adopted, ?_⟩
    rw [taken, wall, same.path, settled]
    exact took.source

theorem phaseKept_served {gone : Bool} : PhaseKept s run (.releasing [] gone) := by
  refine ⟨List.nil_sublist _, ?_, fun impossible => absurd rfl impossible⟩
  intro source inside
  cases inside

theorem PhaseKept.withdraw {after : Run P} (phaseKept : PhaseKept s run run.phase)
    (answered : run.answered ≠ []) (sources : after.sources = run.sources)
    (unique : after.unique = run.unique) (ledger : after.ledger = run.ledger)
    (phase : after.phase = run.phase) (lists : ∀ unique, next.listed unique = s.listed unique)
    (files : ∀ path, next.files path = true → s.files path) : PhaseKept next after after.phase := by
  rw [phase]
  cases shape : run.phase with
  | opening rest spills =>
    rw [shape] at phaseKept
    have empty := phaseKept.1
    simp only [Run.bodies, List.append_eq_nil_iff] at empty
    exact absurd empty.1.2 answered
  | recording =>
    rw [shape] at phaseKept
    simp only [PhaseKept, unique, sources, ledger, lists]
    exact ⟨phaseKept.1, phaseKept.2.shrink lists files⟩
  | releasing left gone =>
    rw [shape] at phaseKept
    simp only [PhaseKept, unique, sources, ledger, lists]
    exact ⟨phaseKept.1, phaseKept.2.1.shrink lists files, phaseKept.2.2⟩

theorem Kept.put {after : Run P} (kept : Kept s) (run : RunKept (s.put after) after) :
    Kept (s.put after) := by
  refine ⟨kept.minted, ?_⟩
  rintro found ⟨⟩
  exact run

theorem PhaseKept.tail {source : ℕ} {rest : List ℕ} {gone : Bool}
    (phaseKept : PhaseKept s run (.releasing (source :: rest) gone)) :
    PhaseKept s run (.releasing rest false) := by
  rcases phaseKept with ⟨sub, covered, written⟩
  refine ⟨(List.sublist_cons_self source rest).trans sub, ?_, fun _ =>
    written (List.cons_ne_nil _ _)⟩
  exact covered.mono (fun _ inside => List.mem_cons_of_mem source inside)
    (fun _ _ _ inside => inside) (fun _ there => there) (fun _ inside => inside)

theorem Kept.minted_write (kept : Kept s) (books : RunKept s run) :
    ∀ unique, ∀ entry ∈ ({ s with
        lists := Function.update s.lists run.unique (some run.ledger.manifestText) } :
          System P).listed unique, s.minted entry.path = true := by
  intro unique entry listed
  by_cases same : unique = run.unique
  · rw [same, listed_update_self] at listed
    rcases List.mem_map.mp listed with ⟨spill, tracked, rfl⟩
    apply books.minted spill
    exact List.mem_append_left _ (List.mem_append_left _ tracked)
  · rw [listed_update_of_ne s _ same] at listed
    exact kept.minted unique entry listed

theorem Kept.phase (kept : Kept s) (current : s.current = some run) {phase : Phase P}
    (is : run.phase = phase) : PhaseKept s run phase :=
  is ▸ (kept.run run current).phase

/-- A step that moves the run from one phase to the next. -/
theorem Kept.turn (kept : Kept s) (current : s.current = some run) {phase : Phase P}
    (later : next.current = some { run with phase := phase }) (minted : next.minted = s.minted)
    (listed : ∀ unique, ∀ entry ∈ next.listed unique, s.minted entry.path = true)
    (phaseKept : PhaseKept next run phase) : Kept next := by
  have books := kept.run run current
  refine ⟨fun unique entry found => minted ▸ listed unique entry found, ?_⟩
  intro found is
  rcases later.symm.trans is with ⟨⟩
  exact ⟨books.apart, books.once, minted ▸ books.minted, books.took, phaseKept⟩

theorem RunKept.start (apart : run.unique ∉ run.sources) (unlisted : s.lists run.unique = none)
    (taken : run.taken = takeOver s.files s.lists run.sources)
    (phase : run.phase = .opening run.taken []) (bodies : run.bodies = []) : RunKept s run := by
  refine ⟨apart, ?_, ?_, ?_, ?_⟩
  · rw [bodies]
    exact List.nodup_nil
  · intro spill body
    rw [bodies] at body
    cases body
  · intro spill body
    rw [bodies] at body
    cases body
  · rw [phase]
    refine ⟨bodies, ?_, ?_, fun _ inside => inside, ?_, ?_⟩
    · simp only [System.listed, unlisted, Option.getD_none]
    · intro source inside entry found there
      rw [List.map_nil, List.append_nil, taken]
      exact List.mem_map_of_mem (mem_takeOver.mpr ⟨source, inside, found, there⟩)
    · intro spill impossible
      cases impossible
    · intro entry inside
      rw [taken] at inside
      rcases mem_takeOver.mp inside with ⟨source, member, found, _⟩
      exact ⟨source, member, found⟩

theorem PhaseKept.examineKept {entry : ManifestEntry P} {rest : List (ManifestEntry P)}
    {spills : List (OwnedSpill P)} (phaseKept : PhaseKept s run (.opening (entry :: rest) spills))
    (failures : ℕ) :
    PhaseKept s run (.opening rest
      (spills ++ [{ takenSpill run.now run.wall entry with failedRemovals := failures }])) := by
  rcases phaseKept with ⟨bodies, unlisted, covered, pending, taken, sources⟩
  refine ⟨bodies, unlisted, ?_, ?_, ?_, sources⟩
  · apply covered.mono (fun _ inside => inside) (fun _ _ _ inside => inside)
      (fun _ there => there)
    intro path member
    rw [List.map_cons, List.cons_append, List.mem_cons, List.mem_append] at member
    rw [List.map_append, List.mem_append, List.mem_append]
    rcases member with same | later | tracked
    · exact Or.inr (Or.inr (List.mem_singleton.mpr same))
    · exact Or.inl later
    · exact Or.inr (Or.inl tracked)
  · intro other inside
    exact pending other (List.mem_cons_of_mem entry inside)
  · intro spill inside
    rcases List.mem_append.mp inside with old | new
    · exact taken spill old
    · rw [List.mem_singleton.mp new]
      exact takenSpill_took (pending entry List.mem_cons_self) failures

theorem PhaseKept.write (phaseKept : PhaseKept s run .recording)
    (apart : run.unique ∉ run.sources) :
    PhaseKept { s with
      lists := Function.update s.lists run.unique (some run.ledger.manifestText) } run
      (.releasing run.sources false) := by
  refine ⟨List.Sublist.refl _, ?_, ?_⟩
  · refine phaseKept.2.mono (fun _ inside => inside) ?_ (fun _ there => there)
      (fun _ inside => inside)
    intro source inside entry listed
    have other : source ≠ run.unique := fun same => apart (same ▸ inside)
    exact (listed_update_of_ne s _ other) ▸ listed
  · intro _
    exact listed_update_self s run.unique (some run.ledger.manifestText)

theorem listed_of_drop {source unique : ℕ} {entry : ManifestEntry P}
    (listed : entry ∈ ({ s with
      lists := Function.update s.lists source none } : System P).listed unique) :
    entry ∈ s.listed unique := by
  by_cases same : unique = source
  · rw [same, listed_update_self] at listed
    cases listed
  · exact (listed_update_of_ne s none same) ▸ listed

theorem PhaseKept.dropList {source : ℕ} {rest : List ℕ}
    (phaseKept : PhaseKept s run (.releasing (source :: rest) false))
    (apart : run.unique ∉ run.sources) :
    PhaseKept { s with lists := Function.update s.lists source none } run
      (.releasing (source :: rest) true) := by
  refine ⟨phaseKept.1, ?_, ?_⟩
  · exact phaseKept.2.1.mono (fun _ inside => inside) (fun _ _ _ => listed_of_drop)
      (fun _ there => there) (fun _ inside => inside)
  · intro _
    have other : run.unique ≠ source := by
      intro same
      apply apart
      rw [same]
      exact phaseKept.1.subset List.mem_cons_self
    exact (listed_update_of_ne s none other).trans (phaseKept.2.2 (List.cons_ne_nil _ _))

theorem bodiesOf_reclaim (now : Instant) (wall : SystemTime) (live : Text → Bool) :
    BodiesOf run.bodies (Run.bodies { run with
      ledger := (run.ledger.reclaim now wall live).1
      answered := run.answered ++ (run.ledger.reclaim now wall live).2.removed }) := by
  simp only [Run.bodies, List.append_assoc]
  refine .changed (f := fun body => (body.settle now wall live).1)
    (fun body => ⟨body.settle_path now wall live, body.settle_message now wall live,
      fun adopted => ?_⟩) (.refl _) ?_
  · rw [adopted.settle]
    exact ⟨adopted, rfl⟩
  · refine List.Perm.trans ?_ ((run.ledger.reclaim_perm now wall live).append_right _)
    rw [List.append_assoc]
    refine List.Perm.append_left _ ?_
    rw [← List.append_assoc, ← List.append_assoc]
    exact List.perm_append_comm.append_right _

theorem bodiesOf_removeFailed {spill : OwnedSpill P} {rest : List (OwnedSpill P)}
    (answered : run.answered = spill :: rest) :
    BodiesOf run.bodies (Run.bodies { run with
      answered := rest
      failed := run.failed ++ [{ spill with failedRemovals := spill.failedRemovals + 1 }] }) := by
  have same : ∀ body : OwnedSpill P,
      SameBody body { body with failedRemovals := body.failedRemovals + 1 } :=
    fun body => ⟨rfl, rfl, fun adopted =>
      ⟨⟨adopted.message, adopted.task, adopted.settled⟩, rfl⟩⟩
  have was : run.bodies.Perm ([spill] ++ (run.ledger.owned ++ rest ++ run.failed)) := by
    simp only [Run.bodies, answered, List.append_assoc]
    exact List.perm_middle
  refine .changed same was ?_
  simp only [Run.bodies]
  rw [← List.append_assoc]
  exact List.perm_append_comm

variable [DecidableEq P]

theorem files_of_update {path other : P} (there : Function.update s.files path false other) :
    s.files other := by
  by_cases same : other = path
  · rw [same, Function.update_self] at there
    cases there
  · rwa [Function.update_of_ne same] at there

theorem PhaseKept.examineRemoved {entry : ManifestEntry P} {rest : List (ManifestEntry P)}
    {spills : List (OwnedSpill P)} (phaseKept : PhaseKept s run (.opening (entry :: rest) spills)) :
    PhaseKept { s with files := Function.update s.files entry.path false } run
      (.opening rest spills) := by
  rcases phaseKept with ⟨bodies, unlisted, covered, pending, taken, sources⟩
  refine ⟨bodies, unlisted, ?_, ?_, taken, sources⟩
  · intro source inside other listed there
    have member := covered source inside other listed (files_of_update there)
    rw [List.map_cons, List.cons_append, List.mem_cons] at member
    rcases member with gone | later
    · have removed : Function.update s.files entry.path false other.path := there
      rw [gone, Function.update_self] at removed
      cases removed
    · exact later
  · intro other inside
    exact pending other (List.mem_cons_of_mem entry inside)

theorem RunKept.adopt {spills : List (OwnedSpill P)} (kept : Kept s)
    (current : s.current = some run) (phase : run.phase = .opening [] spills) :
    RunKept s { run with
      ledger := run.ledger.adopt spills
      phase := .recording } := by
  rcases kept.phase current phase with ⟨bodies, unlisted, covered, _, taken, sources⟩
  simp only [Run.bodies, List.append_eq_nil_iff] at bodies
  have owned : (run.ledger.adopt spills).owned = unknown [] spills := by
    simp only [SpillLedger.adopt, bodies.1.1, List.map_nil, List.nil_append]
  have after : Run.bodies { run with
      ledger := run.ledger.adopt spills
      phase := .recording } = unknown [] spills := by
    simp only [Run.bodies, owned, bodies.1.2, bodies.2, List.append_nil]
  refine ⟨(kept.run run current).apart, ?_, ?_, ?_, unlisted, ?_⟩
  · rw [after]
    exact unknown_nodup [] spills
  · intro spill body
    rw [after] at body
    rcases (taken spill (mem_unknown body).1).source with ⟨entry, read, same, _⟩
    rcases sources entry read with ⟨source, _, found⟩
    rw [← same]
    exact kept.minted source entry found
  · intro spill body _
    rw [after] at body
    exact taken spill (mem_unknown body).1
  · apply covered.mono (fun _ inside => inside) (fun _ _ _ inside => inside)
      (fun _ there => there)
    intro path member
    simp only [SpillLedger.paths, owned]
    rcases @path_mem_unknown P _ [] spills path member with impossible | inside
    · cases impossible
    · exact inside

theorem minted_of_update {path other : P} (used : s.minted other = true) :
    Function.update s.minted path true other = true := by
  by_cases same : other = path
  · rw [same, Function.update_self]
  · rw [Function.update_of_ne same]
    exact used

theorem RunKept.own (books : RunKept s run) {gone : Bool} {spill : OwnedSpill P}
    (phase : run.phase = .releasing [] gone) (new : s.minted spill.path = false)
    (named : spill.message ≠ none)
    (minted : next.minted = Function.update s.minted spill.path true) :
    RunKept next { run with
      ledger := { run.ledger with owned := run.ledger.owned ++ [spill] } } := by
  have fresh : spill.path ∉ run.bodies.map OwnedSpill.path := by
    intro old
    rcases List.mem_map.mp old with ⟨body, member, same⟩
    have used := books.minted body member
    rw [same, new] at used
    cases used
  have bodies : (Run.bodies { run with
      ledger := { run.ledger with owned := run.ledger.owned ++ [spill] } }).Perm
        (spill :: run.bodies) := by
    simp only [Run.bodies, List.append_assoc]
    exact List.perm_middle
  refine ⟨books.apart, ?_, ?_, ?_, phase.symm ▸ phaseKept_served⟩
  · rw [(bodies.map OwnedSpill.path).nodup_iff]
    exact List.nodup_cons.mpr ⟨fresh, books.once⟩
  · intro body member
    rw [minted]
    rcases List.mem_cons.mp (bodies.mem_iff.mp member) with same | old
    · rw [same, Function.update_self]
    · exact minted_of_update (books.minted body old)
  · intro body member unnamed
    rcases List.mem_cons.mp (bodies.mem_iff.mp member) with same | old
    · exact absurd (same ▸ unnamed) named
    · exact books.took body old unnamed

theorem Kept.moved {op : SpillOp P} (kept : Kept s) (moved : Moved s op next) : Kept next := by
  cases moved with
  | start idle unlocked unlisted nodup locked =>
    refine ⟨kept.minted, ?_⟩
    rintro run ⟨⟩
    refine RunKept.start (fun inside => ?_) unlisted rfl rfl rfl
    rw [locked _ inside] at unlocked
    cases unlocked
  | examineRemoved current phase aged =>
    exact kept.turn current rfl rfl kept.minted (kept.phase current phase).examineRemoved
  | examineKept current phase =>
    exact kept.turn current rfl rfl kept.minted ((kept.phase current phase).examineKept _)
  | adopt current phase =>
    exact kept.put ((RunKept.adopt kept current phase).congr (fun _ => rfl) (fun _ used => used)
      (fun _ there => there))
  | @firstWrite run current phase =>
    have books := kept.run run current
    exact kept.turn current rfl rfl (kept.minted_write books)
      ((kept.phase current phase).write books.apart)
  | firstWriteFailed current phase =>
    exact kept.turn current rfl rfl kept.minted phaseKept_served
  | @rewrite run gone current phase =>
    have same : run = { run with phase := .releasing [] gone } := by rw [← phase]
    exact kept.turn current (current.trans (congrArg some same)) rfl
      (kept.minted_write (kept.run run current)) phaseKept_served
  | @dropList run source rest current phase =>
    exact kept.turn current rfl rfl
      (fun unique entry listed => kept.minted unique entry (listed_of_drop listed))
      ((kept.phase current phase).dropList (kept.run run current).apart)
  | keepList current phase | dropLock locks current phase =>
    exact kept.turn current rfl rfl kept.minted (kept.phase current phase).tail
  | @own op run gone spill current phase new named =>
    refine ⟨fun unique entry listed => minted_of_update (kept.minted unique entry listed), ?_⟩
    rintro found ⟨⟩
    exact (kept.run run current).own phase new named rfl
  | @releaseTasks run gone paneId retired current phase =>
    apply kept.put
    refine (kept.run run current).follow ?_ rfl rfl rfl rfl rfl (phase.symm ▸ phaseKept_served)
    simp only [Run.bodies, List.append_assoc]
    refine .changed (fun body => ⟨body.releaseTask_path paneId retired,
      body.releaseTask_message paneId retired, fun adopted => ?_⟩) (.refl _) (.refl _)
    rw [adopted.releaseTask]
    exact ⟨adopted, rfl⟩
  | @reclaim run gone now wall live current phase =>
    exact kept.put ((kept.run run current).follow (bodiesOf_reclaim now wall live) rfl rfl rfl rfl
      rfl (phase.symm ▸ phaseKept_served))
  | @removeFailed run spill rest fails current answered =>
    have books := kept.run run current
    exact kept.put (books.follow (bodiesOf_removeFailed answered) rfl rfl rfl rfl rfl
      (books.phase.withdraw (answered ▸ List.cons_ne_nil _ _) rfl rfl rfl rfl (fun _ => rfl)
        (fun _ there => there)))
  | @removed run spill rest fails current answered =>
    refine ⟨kept.minted, ?_⟩
    rintro found ⟨⟩
    have books := kept.run run current
    refine books.follow (.of_subperm (List.Sublist.subperm ?_)) rfl rfl rfl rfl rfl
      (books.phase.withdraw (answered ▸ List.cons_ne_nil _ _) rfl rfl rfl rfl (fun _ => rfl)
        (fun _ => files_of_update))
    simp only [Run.bodies, answered]
    exact ((List.sublist_cons_self spill rest).append_left _).append_right _
  | @restore run gone current phase =>
    apply kept.put
    refine (kept.run run current).follow (.of_subperm (List.Perm.subperm ?_)) rfl rfl rfl rfl rfl
      (phase.symm ▸ phaseKept_served)
    simp only [Run.bodies, SpillLedger.restore, List.append_nil, List.append_assoc]
    exact List.perm_append_comm.append_left _
  | vanish =>
    refine ⟨kept.minted, ?_⟩
    intro run current
    exact (kept.run run current).congr (fun _ => rfl) (fun _ used => used)
      (fun _ => files_of_update)
  | finish =>
    refine ⟨kept.minted, ?_⟩
    intro found impossible
    cases impossible

theorem Kept.step (kept : Kept s) (op : SpillOp P) : Kept (s.step op) := by
  rcases s.step_cases op with same | moved
  · rw [same]
    exact kept
  · exact kept.moved moved

omit [DecidableEq P] in
theorem kept_empty : Kept (System.empty : System P) := by
  refine ⟨?_, ?_⟩
  · intro unique entry impossible
    cases impossible
  · intro run impossible
    cases impossible

theorem kept_run (ops : List (SpillOp P)) : Kept (System.empty.run ops) :=
  Runs.run_keeps_always Kept (fun _ op kept => kept.step op) kept_empty

end AgentDeck.Spills
