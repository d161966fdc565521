import AgentDeck.Retained.Bounds

/-!
# Admission over a whole run

The bounds of `Retained.Bounds` hold in every state of a run where every section finds its room,
and so every inventory such a run writes is one its successor can read: the own files are within
the cap its header names. Where a failed dispatch save takes its room back after another call was
given it, they do not hold, and the inventory names more files than its own cap.
-/

namespace AgentDeck.Retained

/-! ## Inventories -/

/-- The inventory a call is about to write. -/
def Call.text? : Call → Option Text
  | .writeInventory _ text | .renameInventory _ text => some text
  | _ => none

/-- The wall times of an event are times after the epoch. -/
def Event.Walled (event : Event) : Prop :=
  (∀ time ∈ event.walls, IsWall time) ∧
    match event with
    | .write _ _ _ wall _ | .dispatchResult _ _ _ wall _ | .retryHeld _ _ _ wall _ => IsWall wall
    | _ => True

def OwnFile.Walled (file : OwnFile) : Prop :=
  IsWall file.createdAt ∧ ∀ time ∈ file.state.time, IsWall time

section Inventory

variable (headerOf : Text → Option InventoryHeader) (lineOf : Text → Option InventoryLine)

/-- A successor of the run can use the text as the run's inventory. -/
def Readable (run : Text) (config : StoreConfig) (text : Text) : Prop :=
  ∃ entries, readInventory headerOf lineOf run text = .ok (config.maxFiles, entries)

structure Inventoried (run : Text) (config : StoreConfig) (m : Machine) : Prop where
  same : m.run = run
  files : ∀ name file, m.shared.st.own.get? name = some file → file.Walled
  jobs : ∀ call ∈ m.calls, ∀ job ∈ call.job?, IsWall job.wall
  texts : ∀ call ∈ m.calls, ∀ text ∈ call.text?, Readable headerOf lineOf run config text
  inventory : ∀ text ∈ m.shared.inventory, Readable headerOf lineOf run config text

variable {headerOf lineOf}

theorem inventoried_new (run : Text) (config : StoreConfig) :
    Inventoried headerOf lineOf run config (.new run config) :=
  ⟨rfl, fun _ _ found => (of_none found), fun _ mem => absurd mem List.not_mem_nil, fun _ mem =>
    absurd mem List.not_mem_nil,
    fun _ found => (of_none found)⟩

theorem Eases.walled {walls : Set ℤ} {st after : StoreState} (eases : Eases walls st after)
    (times : ∀ time ∈ walls, IsWall time)
    (files : ∀ name file, st.own.get? name = some file → file.Walled) :
    ∀ name file, after.own.get? name = some file → file.Walled := by
  intro name file found
  rcases eases.own name file found with ⟨old, before, eased⟩
  rcases files name old before with ⟨created, timed⟩
  refine ⟨eased.createdAt ▸ created, ?_⟩
  intro time mem
  rcases eased.time time mem with same | new
  · exact timed time same
  · exact times time new

theorem walled_inserted {own : SortedMap Name OwnFile} {name : Name} {new : OwnFile}
    (walled : new.Walled) (files : ∀ name file, own.get? name = some file → file.Walled) :
    ∀ key file, (own.insert name new).get? key = some file → file.Walled := by
  intro key file found
  rw [SortedMap.get?_insert] at found
  split at found
  · cases found
    exact walled
  · exact files key file found

theorem callStep_walled {sh after : Shared} {call : Call} {next : Next}
    (step : CallStep sh call after next) (walls : ∀ job ∈ call.job?, IsWall job.wall)
    (files : ∀ name file, sh.st.own.get? name = some file → file.Walled) :
    ∀ name file, after.st.own.get? name = some file → file.Walled := by
  have absent : ∀ time ∈ (∅ : Set ℤ), IsWall time := fun time mem => absurd mem (by simp)
  cases step with
  | recordedSaved =>
    exact walled_inserted ⟨walls _ rfl, fun _ time => (of_none time)⟩ files
  | recordedFailed =>
    simp only [recordFailed_own]
    split
    · exact files
    · exact walled_inserted ⟨walls _ rfl, fun _ time => (of_none time)⟩ files
  | discardSettled => exact (Eases.settleDiscard ∅ _ _ _).walled absent files
  | sweep swept => exact (Eases.sweep ∅ swept).walled absent files
  | _ => exact files

theorem callStep_text? {sh after : Shared} {call : Call} {next : Next}
    (step : CallStep sh call after next) :
    (∀ later ∈ next.calls, ∀ text ∈ later.text?, text ∈ call.text?) ∧
      ∀ text ∈ after.inventory, text ∈ sh.inventory ∨ text ∈ call.text? := by
  cases step with
  | recordedSaved =>
    rename_i job stray
    rcases job with ⟨room, id, contents, wall, tag, purpose⟩
    cases purpose <;> simp [Job.after, Next.calls, Call.text?]
  | recordedFailed =>
    rename_i job stray removed
    rcases job with ⟨room, id, contents, wall, tag, purpose⟩
    cases purpose <;> simp [Job.after, Next.calls, Call.text?]
  | sweep swept =>
    rename_i later
    have same : after.inventory = sh.inventory := by
      cases swept <;> rfl
    refine ⟨?_, fun _ found => Or.inl (same ▸ found)⟩
    cases later <;> simp [sweepNext, Next.calls, Call.text?]
  | renamed => exact ⟨by simp [Next.calls, Call.text?], fun _ found => Or.inr found⟩
  | _ => exact ⟨by simp [Next.calls, Call.text?], fun _ same => Or.inl same⟩

theorem readable_entries
    (headers : ∀ header : InventoryHeader, Plain header.run → headerOf header.json = some header)
    (reads : ∀ line : InventoryLine, Plain line.n → Plain line.s → lineOf line.json = some line)
    {run : Text} (valid : validRunId run) {config : StoreConfig}
    (cap : config.maxFiles ≤ hardMaxFiles) {m : Machine} (bounded : Bounded config m)
    (files : ∀ name file, m.shared.st.own.get? name = some file → file.Walled) :
    Readable headerOf lineOf run config
      (writeInventoryText run m.shared.st.config.maxFiles m.shared.st.entries) := by
  have few := bounded.limited.slots
  rw [bounded.config] at few ⊢
  refine ⟨m.shared.st.entries, readInventory_writeInventoryText headers reads valid cap ?_ ?_ ?_⟩
  · simp only [StoreState.entries, List.length_map]
    exact (Nat.le_add_right _ _).trans few
  · intro entry mem
    rcases List.mem_map.mp mem with ⟨⟨name, file⟩, inside, rfl⟩
    have found := (m.shared.st.own.get?_eq_some_iff name file).mpr inside
    rcases bounded.named.filed.own name file found with ⟨id, named⟩
    have walled := files name file found
    exact ⟨⟨id.text, id.valid, named⟩, walled.1, walled.2⟩
  · have names : m.shared.st.entries.map InventoryEntry.name = m.shared.st.own.keys := by
      rw [StoreState.entries, List.map_map]
      rfl
    rw [names]
    exact m.shared.st.own.keys_sorted.imp fun below => below.ne

theorem Inventoried.step
    (headers : ∀ header : InventoryHeader, Plain header.run → headerOf header.json = some header)
    (reads : ∀ line : InventoryLine, Plain line.n → Plain line.s → lineOf line.json = some line)
    {run : Text} (valid : validRunId run) {config : StoreConfig}
    (cap : config.maxFiles ≤ hardMaxFiles) {m after : Machine} {event : Event}
    (walled : event.Walled) (bounded : Bounded config m)
    (inventoried : Inventoried headerOf lineOf run config m) (stepped : m.step event = some after) :
    Inventoried headerOf lineOf run config after := by
  by_cases advances : ∃ which outcome pick, event = .advance which outcome pick
  · rcases advances with ⟨which, outcome, pick, rfl⟩
    rcases advance_cases stepped with ⟨before, call, later, shared, next, calls, -, -, step, rfl⟩
    have mem : call ∈ m.calls := calls ▸ List.mem_append_right _ List.mem_cons_self
    have others : ∀ other, other ∈ before ∨ other ∈ later → other ∈ m.calls :=
      fun _ => mem_of_around calls
    rcases callStep_text? step with ⟨texts, written⟩
    refine ⟨inventoried.same, ?_, ?_, ?_, ?_⟩
    · exact callStep_walled step (inventoried.jobs call mem) inventoried.files
    · intro other inside job found
      simp only [List.mem_append] at inside
      rcases inside with inside | inside | inside
      · exact inventoried.jobs other (others other (Or.inl inside)) job found
      · exact inventoried.jobs call mem job (callStep_job? step other inside job found)
      · exact inventoried.jobs other (others other (Or.inr inside)) job found
    · intro other inside text found
      simp only [List.mem_append] at inside
      rcases inside with inside | inside | inside
      · exact inventoried.texts other (others other (Or.inl inside)) text found
      · exact inventoried.texts call mem text (texts other inside text found)
      · exact inventoried.texts other (others other (Or.inr inside)) text found
    · intro text found
      rcases written text found with same | new
      · exact inventoried.inventory text same
      · exact inventoried.texts call mem text new
  · have started := begins_of stepped fun which outcome pick same =>
      advances ⟨which, outcome, pick, same⟩
    rcases started.calls with ⟨new, calls, -, starts⟩
    refine ⟨started.run.trans inventoried.same, started.eases.walled walled.1 inventoried.files,
      ?_, ?_, ?_⟩
    · intro call mem job found
      rw [calls] at mem
      rcases List.mem_append.mp mem with mem | mem
      · cases starts call mem with
        | write taken | dispatch taken | retry taken =>
          cases found
          exact walled.2
        | discard id => cases found
        | sweep now idle => cases found
        | flush => cases found
      · exact inventoried.jobs call mem job found
    · intro call mem text found
      rw [calls] at mem
      rcases List.mem_append.mp mem with mem | mem
      · cases starts call mem with
        | flush =>
          cases found
          rw [inventoried.same]
          exact readable_entries headers reads valid cap bounded inventoried.files
        | _ => cases found
      · exact inventoried.texts call mem text found
    · rw [started.inventory]
      exact inventoried.inventory

end Inventory

/-! ## Admission -/

/-- In a run where every section finds its room, no step but a takeover takes the used bytes above
the budget, the files and the fallback slots stay within their caps in every state, and every
inventory written can be read by the run's successor. -/
theorem admission_keeps_bounds (headerOf : Text → Option InventoryHeader)
    (lineOf : Text → Option InventoryLine)
    (headers : ∀ header : InventoryHeader, Plain header.run → headerOf header.json = some header)
    (reads : ∀ line : InventoryLine, Plain line.n → Plain line.s → lineOf line.json = some line)
    (run : Text) (config : StoreConfig) (events : List Event) (m : Machine)
    (room : (Machine.new run config).Along Machine.WithRoom events)
    (ran : (Machine.new run config).steps events = some m) :
    (∀ event after, m.WithRoom event → m.step event = some after →
        (∀ name contents, event ≠ .adopt name contents) →
          after.shared.st.usedBytes ≤ max m.shared.st.usedBytes config.maxBytes) ∧
      m.shared.st.own.entries.length + m.shared.st.reservedSlots ≤ config.maxFiles ∧
      m.shared.st.inFlight + m.shared.st.unsaved ≤ config.fallbackSlots ∧
      (validRunId run = true → config.maxFiles ≤ hardMaxFiles →
        (∀ event ∈ events, event.Walled) → ∀ text ∈ m.shared.inventory,
          ∃ entries, readInventory headerOf lineOf run text = .ok (config.maxFiles, entries)) := by
  have bounded : Bounded config m := Machine.steps_keep (Bounded config)
    (fun _ _ _ fits stepped kept => (kept.step fits stepped).1) room ran (bounded_new run config)
  refine ⟨?_, ?_, ?_, ?_⟩
  · intro event after fits stepped own
    exact (bounded.step fits stepped).2 own
  · have slots := bounded.limited.slots
    rw [bounded.config] at slots
    exact slots
  · have flights := bounded.limited.flights
    rw [bounded.config] at flights
    exact flights
  · intro valid cap walled
    have both := Machine.steps_keep
      (fun m => Bounded config m ∧ Inventoried headerOf lineOf run config m)
      (fun m event after admissible stepped kept =>
        ⟨(kept.1.step admissible.1 stepped).1,
          kept.2.step headers reads valid cap admissible.2 kept.1 stepped⟩)
      (room.and walled) ran ⟨bounded_new run config, inventoried_new run config⟩
    exact both.2.inventory

def savedAndListed : List Event :=
  [Event.reserve 3, .write 0 reportA [1, 2, 3] 7 zeroTag] ++
    goOn 5 ++ [Event.flush] ++ goOn 3

/-- The bounds and the inventory of a run that saves one report. -/
theorem admission_keeps_bounds_saved :
    ∃ m, (Machine.new (List.replicate 32 'a') ⟨10, 1, 1⟩).steps savedAndListed = some m ∧
      m.shared.st.own.entries.length + m.shared.st.reservedSlots ≤ 1 ∧
      m.shared.st.inFlight + m.shared.st.unsaved ≤ 1 ∧
      ∃ text entries, m.shared.inventory = some text ∧
        readInventory plainHeader plainLine (List.replicate 32 'a') text = .ok (1, entries) := by
  have checked : (Machine.new (List.replicate 32 'a') ⟨10, 1, 1⟩).checks Machine.withRoom
      savedAndListed = true := by decide +kernel
  have ran : (((Machine.new (List.replicate 32 'a') ⟨10, 1, 1⟩).steps savedAndListed).any
      fun m => m.shared.inventory.isSome) = true := by decide +kernel
  rw [Option.any_eq_true] at ran
  rcases ran with ⟨m, ran, listed⟩
  rcases admission_keeps_bounds plainHeader plainLine plainHeader_json plainLine_json _ _ _ m
    (Machine.along_of_checks checked) ran with ⟨-, slots, flights, readable⟩
  have walled : ∀ event ∈ savedAndListed, event.Walled := by
    simp [savedAndListed, goOn, Event.Walled, Event.walls, IsWall]
  rcases Option.isSome_iff_exists.mp listed with ⟨text, found⟩
  rcases readable (by decide) (by decide) walled text found with ⟨entries, read⟩
  exact ⟨m, ran, slots, flights, text, entries, found, read⟩

/-- A dispatch result cannot be saved, and a reservation is given its room before it is taken
back. -/
def roomTaken : List Event :=
  [Event.reserveDispatch,
    .dispatchResult 0 reportA [] 0 zeroTag,
    .advance 0 .failed 0, .advance 0 .done 0, .reserve 1] ++ goOn 1

/-- Both are saved, and the inventory lists them. -/
def bothListed : List Event :=
  goOn 1 ++ [Event.write 0 reportB [] 0 zeroTag] ++ goOn 5 ++
    [Event.retryHeld 0 reportA [] 0 zeroTag] ++ goOn 6 ++
    [Event.flush] ++ goOn 3

/-- A store for one file has two slots in use, and then an inventory that cannot be read. -/
theorem room_taken_back_exceeds_cap :
    (∃ m, (Machine.new (List.replicate 32 'a') ⟨1000000, 1, 1⟩).steps roomTaken = some m ∧
        1 < m.shared.st.own.entries.length + m.shared.st.reservedSlots) ∧
      ∃ m text, (Machine.new (List.replicate 32 'a') ⟨1000000, 1, 1⟩).steps
          (roomTaken ++ bothListed) = some m ∧ m.shared.inventory = some text ∧
        (readInventory plainHeader plainLine (List.replicate 32 'a') text).isOk = false := by
  have slots : (((Machine.new (List.replicate 32 'a') ⟨1000000, 1, 1⟩).steps roomTaken).any
      fun m => decide (1 < m.shared.st.own.entries.length + m.shared.st.reservedSlots)) = true := by
    decide +kernel
  have listed : (((Machine.new (List.replicate 32 'a') ⟨1000000, 1, 1⟩).steps
      (roomTaken ++ bothListed)).any fun m => m.shared.inventory.any fun text =>
        !(readInventory plainHeader plainLine (List.replicate 32 'a') text).isOk) = true := by
    decide +kernel
  simp only [Option.any_eq_true, decide_eq_true_eq, Bool.not_eq_true'] at slots listed
  rcases listed with ⟨m, ran, text, found, refused⟩
  exact ⟨slots, m, text, ran, found, refused⟩

end AgentDeck.Retained
