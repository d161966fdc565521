import AgentDeck.Keymap.CodexSources

/-!
# A Codex generation's reads

`CodexReads`: the last read adopted, the hold that latched, and how many rewrites were adopted. Any
number of checks run at once. Each takes the count (`start_read`), reads the files outside the lock
(`finish_read`), and compares under the lock (`settle`). What follows the comparison,
`codex_projects_guard` and `codex_keymap` on the check's own read, is a parameter.
-/

namespace AgentDeck.Keymap

def codexRewritesPerGeneration : ℕ := 2

structure CodexReadsState where
  last : CodexRead
  held : Option Hold
  rewrites : ℕ
  deriving DecidableEq

def CodexReadsState.new (spawn : CodexRead) : CodexReadsState := ⟨spawn, none, 0⟩

structure CodexReadStart where
  adopted : ℕ
  deriving DecidableEq

structure CodexTicket where
  adopted : ℕ
  read : CodexRead
  deriving DecidableEq

variable {δ : Type}

namespace CodexReadsState

def startRead (state : CodexReadsState) : CodexReadStart := ⟨state.rewrites⟩

/-- The part of `settle` under the lock. -/
def compared (toml : Toml δ) (state : CodexReadsState) (ticket : CodexTicket) :
    CodexReadsState × Except Hold Unit :=
  match state.held with
  | some hold => (state, .error hold)
  | none =>
    match codexUnchanged toml state.last ticket.read with
    | .ok () =>
      if state.last = ticket.read then (state, .ok ())
      else if state.rewrites < codexRewritesPerGeneration then
        ({ state with rewrites := state.rewrites + 1, last := ticket.read }, .ok ())
      else ({ state with held := some .changed }, .error .changed)
    | .error hold =>
      if ticket.adopted < state.rewrites ∧
          codexUnchanged toml ticket.read state.last = .ok () then (state, .ok ())
      else ({ state with held := some hold }, .error hold)

def settle (toml : Toml δ) (judged : CodexRead → List KeymapSource → Except Hold Unit)
    (state : CodexReadsState) (ticket : CodexTicket) (precedence : List KeymapSource) :
    CodexReadsState × Except Hold Unit :=
  match state.compared toml ticket with
  | (state, .error hold) => (state, .error hold)
  | (state, .ok ()) => (state, judged ticket.read precedence)

end CodexReadsState

def CodexReadStart.finishRead (start : CodexReadStart) (read : CodexRead) : CodexTicket :=
  ⟨start.adopted, read⟩

/-! ## Concurrent checks -/

inductive Check where
  | idle
  | reading (start : CodexReadStart)
  | ready (ticket : CodexTicket)
  deriving DecidableEq

/-- One call of one check; the files answer `finishRead` with any read. -/
inductive Event where
  | startRead (check : ℕ)
  | finishRead (check : ℕ) (read : CodexRead)
  | settle (check : ℕ) (precedence : List KeymapSource)
  deriving DecidableEq

structure World where
  state : CodexReadsState
  checks : ℕ → Check

namespace World

def new (spawn : CodexRead) : World := ⟨.new spawn, fun _ => .idle⟩

def put (world : World) (check : ℕ) (now : Check) : World :=
  { world with checks := fun other => if other = check then now else world.checks other }

def step (toml : Toml δ) (world : World) : Event → World
  | .startRead check => world.put check (.reading world.state.startRead)
  | .finishRead check read =>
    match world.checks check with
    | .reading start => world.put check (.ready (start.finishRead read))
    | _ => world
  | .settle check _ =>
    match world.checks check with
    | .ready ticket =>
      { world.put check .idle with state := (world.state.compared toml ticket).1 }
    | _ => world

def run (toml : Toml δ) (spawn : CodexRead) (events : List Event) : World :=
  events.foldl (World.step toml) (.new spawn)

/-- What `settle` returns to a check that has its read. -/
def returns (toml : Toml δ) (judged : CodexRead → List KeymapSource → Except Hold Unit)
    (world : World) (check : ℕ) (precedence : List KeymapSource) : Option (Except Hold Unit) :=
  match world.checks check with
  | .ready ticket => some (world.state.settle toml judged ticket precedence).2
  | _ => none

end World

theorem run_concat (toml : Toml δ) (spawn : CodexRead) (events : List Event) (event : Event) :
    World.run toml spawn (events ++ [event]) = (World.run toml spawn events).step toml event :=
  List.foldl_concat _ _ _ _

end AgentDeck.Keymap
