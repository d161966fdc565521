import AgentDeck.Retained.Names
import AgentDeck.Time

/-!
# The retained store's state

The in-memory state of `src/retained_store.rs` and what each section under its lock does to it.
Byte and slot counts are natural numbers: a `u64` of bytes is never reached. Subtractions are
truncated, as `saturating_sub` is.
-/

namespace AgentDeck.Retained

structure Now where
  wall : ℤ
  mono : Instant
  deriving DecidableEq, Repr

/-- The whole file of a dispatch result, and what a dispatch reserves for it. -/
def dispatchResultMaxFile : ℕ := 73728

def hardMaxFiles : ℕ := 65536

def ackRetention : Duration := fromSecs (24 * 60 * 60)

def recoveryRetention : Duration := fromSecs (7 * 24 * 60 * 60)

/-! ## Lifetimes -/

/-- Where a retained report, or a result held in memory in its place, is in its lifetime. -/
inductive Lifetime
  | referenced
  | acknowledged (since : Now)
  | recovered (since : Now)
  deriving DecidableEq, Repr

namespace Lifetime

def acknowledge (_ : Lifetime) (now : Now) : Lifetime := acknowledged now

def recover (life : Lifetime) (now : Now) : Lifetime :=
  match life with
  | referenced => recovered now
  | other => other

def ends : Lifetime → Option Instant
  | referenced => none
  | acknowledged since => some (since.mono + ackRetention)
  | recovered since => some (since.mono + recoveryRetention)

end Lifetime

inductive OwnState
  | pinned
  | acknowledged (time : ℤ)
  | recovered (time : ℤ)
  | orphanUnlink
  deriving DecidableEq, Repr

structure OwnFile where
  createdAt : ℤ
  bytes : ℕ
  state : OwnState
  /-- When the state's retention started, in this run. -/
  since : Option Instant
  deriving DecidableEq, Repr

def OwnFile.due (file : OwnFile) (now : Now) : Bool :=
  match file.state, file.since with
  | .orphanUnlink, _ => true
  | .acknowledged _, some since => decide (since + ackRetention ≤ now.mono)
  | .recovered _, some since => decide (since + recoveryRetention ≤ now.mono)
  | _, _ => false

/-! ## The state -/

structure StoreConfig where
  maxBytes : ℕ
  maxFiles : ℕ
  fallbackSlots : ℕ
  deriving DecidableEq, Repr

inductive StoreRefusal
  | bytes
  | files (max : ℕ)
  | slots (inFlight unsaved : ℕ)
  deriving DecidableEq, Repr

structure StoreState where
  config : StoreConfig
  own : SortedMap Name OwnFile
  ownBytes : ℕ
  adoptedBytes : ℕ
  adoptedGeneration : ℕ
  reservedBytes : ℕ
  reservedSlots : ℕ
  inFlight : ℕ
  unsaved : ℕ
  revision : ℕ
  /-- Attempts' temporary files this run could not remove, each charged until a sweep removes it. -/
  stray : SortedMap Name ℕ

namespace StoreState

def new (config : StoreConfig) : StoreState where
  config := config
  own := .empty
  ownBytes := 0
  adoptedBytes := 0
  adoptedGeneration := 0
  reservedBytes := 0
  reservedSlots := 0
  inFlight := 0
  unsaved := 0
  revision := 0
  stray := .empty

variable (st : StoreState)

def strayBytes : ℕ := st.stray.total fun _ bytes => bytes

def usedBytes : ℕ :=
  st.ownBytes + st.adoptedBytes + st.reservedBytes + st.strayBytes

def usedSlots : ℕ := st.own.entries.length + st.reservedSlots

def adopt (bytes : ℕ) : StoreState :=
  { st with
    adoptedBytes := st.adoptedBytes + bytes, adoptedGeneration := st.adoptedGeneration + 1 }

def unadopt (bytes : ℕ) : StoreState :=
  { st with
    adoptedBytes := st.adoptedBytes - bytes, adoptedGeneration := st.adoptedGeneration + 1 }

def release (bytes : ℕ) : StoreState :=
  { st with reservedBytes := st.reservedBytes - bytes, reservedSlots := st.reservedSlots - 1 }

def dropOwn (name : Name) : StoreState :=
  match st.own.get? name with
  | some file =>
    { st with
      own := st.own.erase name, ownBytes := st.ownBytes - file.bytes,
      revision := st.revision + 1 }
  | none => st

/-! ### Admission -/

def admitted (bytes : ℕ) : Except StoreRefusal Unit :=
  if st.config.maxBytes < st.usedBytes + bytes then .error .bytes
  else if st.config.maxFiles < st.usedSlots + 1 then .error (.files st.config.maxFiles)
  else .ok ()

def charge (bytes : ℕ) : StoreState :=
  { st with reservedBytes := st.reservedBytes + bytes, reservedSlots := st.reservedSlots + 1 }

/-- `reserve`: the reservation's bytes, and the state with them charged. -/
def reserve (bytes : ℕ) : Except StoreRefusal (ℕ × StoreState) := do
  let bytes := max bytes 1
  st.admitted bytes
  return (bytes, st.charge bytes)

def enterFlight : StoreState := { st with inFlight := st.inFlight + 1 }

def reserveDispatch : Except StoreRefusal (ℕ × StoreState) := do
  if st.config.fallbackSlots ≤ st.inFlight + st.unsaved then
    .error (.slots st.inFlight st.unsaved)
  else
    st.admitted dispatchResultMaxFile
    return (dispatchResultMaxFile, (st.charge dispatchResultMaxFile).enterFlight)

/-! ### Lifetimes of own files -/

def transition (id : Text) (now : Now) (next : OwnState → Option OwnState) : StoreState :=
  match st.own.get? (ownName id) with
  | some file =>
    match next file.state with
    | some state =>
      { st with
        own := st.own.insert (ownName id) { file with state := state, since := some now.mono },
        revision := st.revision + 1 }
    | none => st
  | none => st

def acknowledged (st : StoreState) (id : Text) (now : Now) : StoreState :=
  st.transition id now fun
    | .orphanUnlink => none
    | _ => some (.acknowledged now.wall)

def recovered (st : StoreState) (id : Text) (now : Now) : StoreState :=
  st.transition id now fun
    | .pinned => some (.recovered now.wall)
    | _ => none

/-- `continue_lifetime`: a file just saved takes the lifetime its body had in memory. -/
def continueLifetime (id : Text) (life : Lifetime) : StoreState :=
  let go (state : OwnState) (since : Instant) : StoreState :=
    match st.own.get? (ownName id) with
    | some file =>
      if file.state = .orphanUnlink then st
      else
        { st with
          own := st.own.insert (ownName id) { file with state := state, since := some since },
          revision := st.revision + 1 }
    | none => st
  match life with
  | .referenced => st
  | .acknowledged since => go (.acknowledged since.wall) since.mono
  | .recovered since => go (.recovered since.wall) since.mono

/-! ### The accounting of a write -/

/-- A saved write: the reservation's slot moves to the file; a kept alias charges at least a
byte. -/
def recordSaved (room : ℕ) (id : Text) (bytes : ℕ) (wall : ℤ) (stray : Option Name) : StoreState :=
  let released := st.release room
  { released with
    own := released.own.insert (ownName id) ⟨wall, bytes, .pinned, none⟩
    ownBytes := released.ownBytes + bytes
    stray := match stray with
      | some temp => released.stray.insert temp (max bytes 1)
      | none => released.stray
    revision := released.revision + 1 }

/-- A failed write: what could not be removed stays charged. -/
def recordFailed (room : ℕ) (id : Text) (wall : ℤ) (stray : Option Name) (removed : Bool) :
    StoreState :=
  let released := st.release room
  let charged := match stray with
    | some temp => { released with stray := released.stray.insert temp room }
    | none => released
  if removed then charged
  else
    { charged with
      own := charged.own.insert (ownName id) ⟨wall, room, .orphanUnlink, none⟩
      ownBytes := charged.ownBytes + room
      revision := charged.revision + 1 }

/-! ### Discards, dispatch results and the sweep -/

def settleDiscard (name : Name) (removed : Bool) : StoreState :=
  if removed then st.dropOwn name
  else
    match st.own.get? name with
    | some file =>
      { st with
        own := st.own.insert name { file with state := .orphanUnlink },
        revision := st.revision + 1 }
    | none => st

/-- The section of `dispatch_result` after its save. -/
def settleDispatch (saved : Bool) : StoreState :=
  { st with
    inFlight := st.inFlight - 1, unsaved := if saved then st.unsaved else st.unsaved + 1 }

/-- The section of `retry_held` after a save, and of `end_held`. -/
def freeSlot : StoreState := { st with unsaved := st.unsaved - 1 }

def endHeld (bytes : ℕ) : StoreState := (st.release bytes).freeSlot

def releaseDispatch (bytes : ℕ) : StoreState :=
  let released := st.release bytes
  { released with inFlight := released.inFlight - 1 }

/-- The claim of a sweep: a file due is marked as being removed. -/
def claim (name : Name) (now : Now) : Bool × StoreState :=
  match st.own.get? name with
  | some file =>
    if file.due now then
      (true, { st with
        own := st.own.insert name { file with state := .orphanUnlink }
        revision := if file.state = .orphanUnlink then st.revision else st.revision + 1 })
    else (false, st)
  | none => (false, st)

def dropStray (temp : Name) : StoreState :=
  { st with stray := st.stray.erase temp }

/-- The recount of a sweep, published only when nothing else changed the sum during the pass. -/
def publishRecount (start ours recount : ℕ) (complete : Bool) : StoreState :=
  if complete = true ∧ st.adoptedGeneration = start + ours then { st with adoptedBytes := recount }
  else st

end StoreState

end AgentDeck.Retained
