import AgentDeck.Time

/-!
# The input epoch

`InputEpoch` of `src/composer_probe/epoch.rs`: every op that enters the agent's input moves the
epoch, and `observed` is the epoch through which the box was last known to be empty.
-/

namespace AgentDeck.Probe

abbrev DeckJobId := ℕ

structure InputEpoch where
  epoch : ℕ
  observed : ℕ
  lastForeign : ℕ
  owner : Option DeckJobId
  /-- The epoch could not advance. -/
  exhausted : Bool
  deriving DecidableEq

structure Observation where
  probe : DeckJobId
  admittedAt : ℕ
  readEmpty : Bool
  retired : Bool
  deriving DecidableEq

namespace InputEpoch

def default : InputEpoch where
  epoch := 0
  observed := 0
  lastForeign := 0
  owner := none
  exhausted := false

def touched (e : InputEpoch) : Bool :=
  e.exhausted || decide (e.epoch ≠ e.observed)

def record (e : InputEpoch) (owner : Option DeckJobId) : InputEpoch :=
  let e := if e.epoch + 1 < 2 ^ 64 then { e with epoch := e.epoch + 1 }
    else { e with exhausted := true }
  let e := { e with owner := owner }
  if owner = none then { e with lastForeign := e.epoch } else e

def apply (e : InputEpoch) (obs : Observation) : Bool × InputEpoch :=
  let applies := !e.exhausted && decide (obs.admittedAt + 1 < 2 ^ 64) &&
    decide (obs.admittedAt + 1 = e.epoch) && decide (e.owner = some obs.probe) &&
    decide (e.lastForeign ≤ obs.admittedAt) && obs.readEmpty && !obs.retired
  (applies, if applies then { e with observed := e.epoch } else e)

/-- `reconcile_ring`: a ring's reconcile, and whether it applied. -/
def reconcileRing (e : InputEpoch) (ring : DeckJobId) (admittedAt : ℕ) : Bool × InputEpoch :=
  let applies := !e.exhausted && decide (e.owner = some ring) &&
    decide (e.lastForeign ≤ admittedAt) && decide (e.observed = admittedAt)
  (applies, if applies then { e with observed := e.epoch } else e)

end InputEpoch

end AgentDeck.Probe
