import AgentDeck.Keymap.Forward
import AgentDeck.Lib.History
import Mathlib.Data.List.Chain

/-!
# Codex's bookkeeping is followed, everything else latches

What each settle does to the last read adopted and to the hold, and what every interleaving of the
checks keeps.
-/

namespace AgentDeck.Keymap

open History

variable {δ : Type}

/-! ## One comparison -/

/-- What a comparison can do: the state after it and its outcome. -/
inductive Compares (toml : Toml δ) (state : CodexReadsState) (ticket : CodexTicket) :
    CodexReadsState → Except Hold Unit → Prop where
  | latched (hold : Hold) (held : state.held = some hold) :
      Compares toml state ticket state (.error hold)
  | same (held : state.held = none) (same : ticket.read = state.last) :
      Compares toml state ticket state (.ok ())
  | adopts (held : state.held = none) (step : StepOn toml state.last ticket.read)
      (left : state.rewrites < codexRewritesPerGeneration) :
      Compares toml state ticket
        { state with rewrites := state.rewrites + 1, last := ticket.read } (.ok ())
  | spent (held : state.held = none) (step : StepOn toml state.last ticket.read)
      (absent : ¬ state.rewrites < codexRewritesPerGeneration) :
      Compares toml state ticket { state with held := some .changed } (.error .changed)
  | behind (held : state.held = none) (began : ticket.adopted < state.rewrites)
      (step : StepOn toml ticket.read state.last) : Compares toml state ticket state (.ok ())
  | fails (held : state.held = none) (differ : ticket.read ≠ state.last)
      (notOn : ¬ StepOn toml state.last ticket.read)
      (notBehind : ¬ (ticket.adopted < state.rewrites ∧ StepOn toml ticket.read state.last)) :
      Compares toml state ticket { state with held := some .changed } (.error .changed)

theorem compared_cases (toml : Toml δ) (state : CodexReadsState) (ticket : CodexTicket) :
    Compares toml state ticket (state.compared toml ticket).1 (state.compared toml ticket).2 := by
  unfold CodexReadsState.compared
  split
  · rename_i hold held
    exact .latched hold held
  · rename_i held
    split
    · rename_i unchanged
      have passed := (codexUnchanged_iff toml _ _).mp unchanged
      split
      · rename_i same
        exact .same held same.symm
      · rename_i differ
        have step := passed.resolve_left differ
        split
        · rename_i left
          exact .adopts held step left
        · rename_i absent
          exact .spent held step absent
    · rename_i hold fails
      have notPassed : ¬ (state.last = ticket.read ∨ StepOn toml state.last ticket.read) := by
        rw [← codexUnchanged_iff, fails]
        nofun
      rw [not_or] at notPassed
      rw [codexUnchanged_error fails]
      split
      · rename_i late
        refine .behind held late.1 ?_
        exact ((codexUnchanged_iff toml _ _).mp late.2).resolve_left (Ne.symm notPassed.1)
      · rename_i notLate
        refine .fails held (Ne.symm notPassed.1) notPassed.2 fun both => notLate ⟨both.1, ?_⟩
        exact (codexUnchanged_iff toml _ _).mpr (.inr both.2)

/-- A comparison passes where nothing is held and the read is the last adopted, or one step on with
a rewrite left, or was begun before the last adoption and is one step behind. -/
theorem passes_iff (toml : Toml δ) (state : CodexReadsState) (ticket : CodexTicket) :
    (state.compared toml ticket).2 = .ok () ↔ state.held = none ∧
      (ticket.read = state.last ∨
        (state.rewrites < codexRewritesPerGeneration ∧ StepOn toml state.last ticket.read) ∨
        (ticket.adopted < state.rewrites ∧ StepOn toml ticket.read state.last)) := by
  have cases := compared_cases toml state ticket
  generalize (state.compared toml ticket).1 = after at cases
  generalize (state.compared toml ticket).2 = outcome at cases ⊢
  cases cases with
  | latched hold held =>
    refine ⟨nofun, fun passes => ?_⟩
    rw [held] at passes
    cases passes.1
  | same held same => exact ⟨fun _ => ⟨held, .inl same⟩, fun _ => rfl⟩
  | adopts held step left => exact ⟨fun _ => ⟨held, .inr (.inl ⟨left, step⟩)⟩, fun _ => rfl⟩
  | spent held step absent =>
    refine ⟨nofun, ?_⟩
    rintro ⟨_, same | ⟨left, _⟩ | ⟨_, back⟩⟩
    · exact absurd (congrArg CodexRead.config same.symm) step.differ
    · exact absurd left absent
    · exact absurd back step.asymm
  | behind held began step => exact ⟨fun _ => ⟨held, .inr (.inr ⟨began, step⟩)⟩, fun _ => rfl⟩
  | fails held differ notOn notBehind =>
    refine ⟨nofun, ?_⟩
    rintro ⟨_, same | ⟨_, step⟩ | behind⟩
    · exact absurd same differ
    · exact absurd step notOn
    · exact absurd behind notBehind

/-! ## The reads adopted -/

/-- The values `last` takes, each once for as long as it stays: the spawn's read first. -/
def lasts (toml : Toml δ) (world : World) : List Event → List CodexRead
  | [] => [world.state.last]
  | event :: events =>
    if (world.step toml event).state.last = world.state.last then
      lasts toml (world.step toml event) events
    else world.state.last :: lasts toml (world.step toml event) events

theorem lasts_concat (toml : Toml δ) (world : World) (events : List Event) (event : Event) :
    lasts toml world (events ++ [event]) =
      if ((events.foldl (World.step toml) world).step toml event).state.last =
          (events.foldl (World.step toml) world).state.last then lasts toml world events
      else lasts toml world events ++
        [((events.foldl (World.step toml) world).step toml event).state.last] := by
  induction events generalizing world with
  | nil =>
    rw [List.nil_append, List.foldl_nil]
    by_cases same : (world.step toml event).state.last = world.state.last
    · simp only [lasts, same, if_true]
    · simp only [lasts, if_neg same]
      rfl
  | cons first events ih =>
    simp only [List.cons_append, lasts, List.foldl_cons, ih]
    split
    · rfl
    · split <;> rfl

/-- A read that differs from the spawn's at most in `config.toml`, which is the spawn's or parses to
the same table less the bookkeeping. -/
structure LikeSpawn (toml : Toml δ) (spawn read : CodexRead) : Prop where
  beside : Beside spawn read
  config : spawn.config = read.config ∨ SameRest toml spawn.config read.config

variable {toml : Toml δ} {spawn : CodexRead}

theorem LikeSpawn.on {read next : CodexRead} (like : LikeSpawn toml spawn read)
    (step : StepOn toml read next) : SameRest toml spawn.config next.config := by
  rcases like.config with same | rest
  · rw [same]
    exact step.rest
  · exact rest.trans step.rest

theorem LikeSpawn.back {read earlier : CodexRead} (like : LikeSpawn toml spawn read)
    (step : StepOn toml earlier read) : LikeSpawn toml spawn earlier := by
  refine ⟨like.beside.trans step.beside.symm, .inr ?_⟩
  rcases like.config with same | rest
  · rw [same]
    exact step.rest.symm
  · exact rest.trans step.rest.symm

/-- What every interleaving keeps of the reads adopted. -/
structure Followed (toml : Toml δ) (spawn : CodexRead) (values : List CodexRead)
    (state : CodexReadsState) : Prop where
  first : values.head? = some spawn
  now : values.getLast? = some state.last
  count : values.length = state.rewrites + 1
  bounded : state.rewrites ≤ codexRewritesPerGeneration
  steps : values.IsChain (StepOn toml)
  like : LikeSpawn toml spawn state.last
  rest : ∀ value ∈ values.tail, SameRest toml spawn.config value.config

theorem followed_new (toml : Toml δ) (spawn : CodexRead) :
    Followed toml spawn [spawn] (.new spawn) :=
  ⟨rfl, rfl, rfl, Nat.zero_le _, .singleton spawn, ⟨⟨rfl, rfl, rfl, rfl⟩, .inl rfl⟩,
    fun _ mem => absurd mem List.not_mem_nil⟩

variable {values : List CodexRead} {state : CodexReadsState}

variable (followed : Followed toml spawn values state)

include followed

theorem followed_held (hold : Option Hold) :
    Followed toml spawn values { state with held := hold } :=
  ⟨followed.first, followed.now, followed.count, followed.bounded, followed.steps, followed.like,
    followed.rest⟩

theorem followed_compares {after : CodexReadsState} {ticket : CodexTicket}
    {outcome : Except Hold Unit} (compares : Compares toml state ticket after outcome) :
    Followed toml spawn (if after.last = state.last then values else values ++
      [after.last]) after := by
  cases compares with
  | latched hold held | same held same | behind held began step =>
    rw [if_pos rfl]
    exact followed
  | spent held step absent =>
    rw [if_pos rfl]
    exact followed_held followed _
  | fails held differ notOn notBehind =>
    rw [if_pos rfl]
    exact followed_held followed _
  | adopts held step left =>
    have differ : ticket.read ≠ state.last := by
      intro same
      exact step.differ (congrArg CodexRead.config same.symm)
    have nonempty : values ≠ [] := by
      intro absent
      have first := followed.first
      rw [absent] at first
      cases first
    rw [if_neg differ]
    refine ⟨?_, List.getLast?_concat, ?_, left, ?_, ?_, ?_⟩
    · rw [List.head?_append_of_ne_nil _ nonempty]
      exact followed.first
    · rw [List.length_append, followed.count]
      rfl
    · refine followed.steps.append (.singleton _) ?_
      intro before beforeLast next nextFirst
      rw [followed.now] at beforeLast
      cases beforeLast
      cases nextFirst
      exact step
    · exact ⟨followed.like.beside.trans step.beside, .inr (followed.like.on step)⟩
    · intro value mem
      rw [List.tail_append_of_ne_nil nonempty] at mem
      rcases List.mem_append.mp mem with early | late
      · exact followed.rest value early
      · rw [List.mem_singleton.mp late]
        exact followed.like.on step

omit followed in
theorem step_state (toml : Toml δ) (world : World) (event : Event) :
    (world.step toml event).state = world.state ∨
      ∃ check precedence ticket, event = .settle check precedence ∧
        world.checks check = .ready ticket ∧
        (world.step toml event).state = (world.state.compared toml ticket).1 := by
  cases event with
  | startRead check => exact .inl rfl
  | finishRead check read =>
    left
    simp only [World.step]
    cases world.checks check <;> rfl
  | settle check precedence =>
    simp only [World.step]
    cases here : world.checks check with
    | ready ticket => exact .inr ⟨check, precedence, ticket, rfl, here, rfl⟩
    | idle => exact .inl rfl
    | reading start => exact .inl rfl

omit followed in
theorem run_followed (toml : Toml δ) (spawn : CodexRead) (events : List Event) :
    Followed toml spawn (lasts toml (.new spawn) events) (World.run toml spawn events).state := by
  induction events using List.reverseRecOn with
  | nil => exact followed_new toml spawn
  | append_singleton events event ih =>
    have folded : events.foldl (World.step toml) (.new spawn) = World.run toml spawn events := rfl
    rw [lasts_concat, run_concat, folded]
    rcases step_state toml (World.run toml spawn events) event with
      same | ⟨check, precedence, ticket, _, _, stepped⟩
    · rw [same, if_pos rfl]
      exact ih
    · have compared := followed_compares ih
        (compared_cases toml (World.run toml spawn events).state ticket)
      rw [← stepped] at compared
      exact compared

theorem Followed.nodup : values.Nodup := by
  have short : values.length ≤ 3 := by
    have bounded := followed.bounded
    have count := followed.count
    simp only [codexRewritesPerGeneration] at bounded
    omega
  have apart : ∀ {before after : CodexRead}, StepOn toml before after → before ≠ after :=
    fun step same => step.differ (congrArg CodexRead.config same)
  have steps := followed.steps
  rcases values with _ | ⟨first, _ | ⟨second, _ | ⟨third, _ | ⟨fourth, more⟩⟩⟩⟩
  · exact List.nodup_nil
  · exact List.nodup_singleton first
  · rw [List.isChain_cons_cons] at steps
    simpa using apart steps.1
  · rw [List.isChain_cons_cons, List.isChain_cons_cons] at steps
    have notBack : first ≠ third := by
      intro same
      exact steps.1.asymm (same ▸ steps.2.1)
    simp only [List.nodup_cons, List.mem_cons, List.not_mem_nil, or_false, not_or]
    exact ⟨⟨apart steps.1, notBack⟩, apart steps.2.1, not_false, List.nodup_nil⟩
  · simp only [List.length_cons] at short
    omega

end AgentDeck.Keymap
