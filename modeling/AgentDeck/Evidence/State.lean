import AgentDeck.Lib.Marker
import Mathlib.Algebra.Group.Nat.Defs
import Mathlib.Order.Basic

/-!
# Whether a frame was drawn for the terminal's width

`EvidenceState` of `src/evidence_state.rs`. A layout edge drops the parser of the agent's screen,
and a new one starts only at the profile's redraw marker in the bytes pushed after the edge; its
frames count once one of them shows the profile's width witness. The terminal parser and its price
for each byte (`src/vt_work.rs`) are a parameter.
-/

namespace AgentDeck.Evidence

abbrev Bytes := List UInt8

/-- The parser of `vt100` with its work meter, and how a frame is read off its screen. -/
structure Terminal where
  Parser : Type
  Screen : Type
  Grid : Type
  new : UInt16 → UInt16 → Parser
  price : Parser → UInt8 → ℕ
  process : Parser → UInt8 → Parser
  screen : Parser → Screen
  gridOf : Screen → ℕ → Grid

def u64Max : ℕ := 2 ^ 64 - 1

def saturatingAdd (left right : ℕ) : ℕ := min (left + right) u64Max

def evidenceCellsMax : ℕ := 2 ^ 18

def evidenceWorkPerPush : ℕ := 5000000

def withinBudget (rows cols : UInt16) : Bool :=
  decide (max rows.toNat 1 * max cols.toNat 1 ≤ evidenceCellsMax)

structure WidthsSeen where
  had : UInt16 → Bool

namespace WidthsSeen

def record (seen : WidthsSeen) (cols : UInt16) : WidthsSeen :=
  ⟨fun width => decide (width = cols) || seen.had width⟩

def of_ (cols : UInt16) : WidthsSeen := record ⟨fun _ => false⟩ cols

end WidthsSeen

/-- The measured screen of an agent, as far as its evidence reads it. -/
structure ScreenProfile (T : Terminal) where
  redrawMarker : Bytes
  widthWitness : T.Screen → WidthsSeen → Bool

/-! ## The metered parser -/

structure MeteredParser (T : Terminal) where
  parser : T.Parser
  spent : ℕ

namespace MeteredParser

variable {T : Terminal}

def new (T : Terminal) (rows cols : UInt16) : MeteredParser T :=
  { parser := T.new rows cols, spent := 0 }

def fed (parser : MeteredParser T) (byte : UInt8) : MeteredParser T :=
  { parser := T.process parser.parser byte
    spent := saturatingAdd parser.spent (T.price parser.parser byte) }

/-- `none` where the byte is refused: its price would leave more spent than `limit`. -/
def feedByte (parser : MeteredParser T) (byte : UInt8) (limit : ℕ) : Option (MeteredParser T) :=
  if limit < saturatingAdd parser.spent (T.price parser.parser byte) then none
  else some (parser.fed byte)

/-- Bytes fed in order, or the place of the first that is refused. -/
def feedBytes (limit : ℕ) : MeteredParser T → Bytes → Except ℕ (MeteredParser T)
  | parser, [] => .ok parser
  | parser, byte :: rest =>
    match parser.feedByte byte limit with
    | none => .error 0
    | some parser =>
      match feedBytes limit parser rest with
      | .error refused => .error (refused + 1)
      | .ok parser => .ok parser

def fedWith (parser : MeteredParser T) (bytes : Bytes) : MeteredParser T := bytes.foldl fed parser

theorem fedWith_append (parser : MeteredParser T) (bytes more : Bytes) :
    parser.fedWith (bytes ++ more) = (parser.fedWith bytes).fedWith more :=
  List.foldl_append

theorem feedBytes_ok {limit : ℕ} {bytes : Bytes} {parser parser' : MeteredParser T}
    (fits : feedBytes limit parser bytes = .ok parser') : parser' = parser.fedWith bytes := by
  induction bytes generalizing parser with
  | nil =>
    cases fits
    rfl
  | cons byte rest ih =>
    simp only [feedBytes, feedByte] at fits
    split at fits
    · cases fits
    · rename_i next first
      split at first
      · cases first
      · cases first
        split at fits
        · cases fits
        · rename_i last later
          cases fits
          exact ih later

end MeteredParser

/-! ## The state -/

inductive EdgeReason where
  | resize
  | nudgeShrink
  | nudgeRestore
  | profileLearned
  deriving DecidableEq

inductive EvidenceStatus where
  | unprofiled
  | pending (sinceSeq : ℕ) (afterEdge : Option ℕ)
  | clean (sinceSeq : ℕ)
  | dirty (edgeSeq : ℕ) (reason : EdgeReason)
  | geometryUnknown (sinceSeq : ℕ)
  | overBudget (sinceSeq : ℕ)
  | workOverBudget (sinceSeq : ℕ)
  deriving DecidableEq

namespace EvidenceStatus

def isPending : EvidenceStatus → Bool
  | pending _ _ => true
  | _ => false

def isClean : EvidenceStatus → Bool
  | clean _ => true
  | _ => false

def isGeometryUnknown : EvidenceStatus → Bool
  | geometryUnknown _ => true
  | _ => false

/-- Over the budget for cells or for work. -/
def isRefused : EvidenceStatus → Bool
  | overBudget _ => true
  | workOverBudget _ => true
  | _ => false

end EvidenceStatus

structure Transition where
  was : EvidenceStatus
  becomes : EvidenceStatus
  layoutEpoch : ℕ
  outSeq : ℕ
  markerSeq : Option ℕ

structure FrameMark where
  layoutEpoch : ℕ
  outSeq : ℕ
  deriving DecidableEq

structure EvidenceState (T : Terminal) where
  profile : Option (ScreenProfile T)
  rows : UInt16
  cols : UInt16
  layoutEpoch : ℕ
  outSeq : ℕ
  status : EvidenceStatus
  parser : Option (MeteredParser T)
  widths : WidthsSeen
  tail : Bytes

namespace EvidenceState

variable {T : Terminal}

def new (profile : Option (ScreenProfile T)) (rows cols : UInt16) : EvidenceState T :=
  let start : EvidenceStatus × Option (MeteredParser T) :=
    match profile with
    | some _ =>
      if withinBudget rows cols then (.pending 0 none, some (.new T rows cols))
      else (.overBudget 0, none)
    | none => (.unprofiled, none)
  { profile := profile, rows := rows, cols := cols, layoutEpoch := 0, outSeq := 0,
    status := start.1, parser := start.2, widths := .of_ cols, tail := [] }

variable (s : EvidenceState T)

def cleanFrame : Option T.Grid :=
  match s.status, s.parser with
  | .clean _, some parser => some (T.gridOf (T.screen parser.parser) s.outSeq)
  | _, _ => none

def cleanFrameMarked : Option (T.Grid × FrameMark) :=
  s.cleanFrame.map fun grid => (grid, { layoutEpoch := s.layoutEpoch, outSeq := s.outSeq })

def frameUnchanged (mark : FrameMark) : Bool :=
  s.status.isClean && s.parser.isSome && decide (s.layoutEpoch = mark.layoutEpoch) &&
    decide (s.outSeq = mark.outSeq)

def transition (becomes : EvidenceStatus) (markerSeq : Option ℕ) :
    EvidenceState T × Option Transition :=
  ({ s with status := becomes },
    if s.status ≠ becomes then
      some { was := s.status, becomes := becomes, layoutEpoch := s.layoutEpoch, outSeq := s.outSeq,
             markerSeq := markerSeq }
    else none)

def checkWitness (profile : ScreenProfile T) (sinceSeq : ℕ) (markerSeq : Option ℕ) :
    EvidenceState T × Option Transition :=
  match s.parser with
  | none => (s, none)
  | some parser =>
    if profile.widthWitness (T.screen parser.parser) s.widths then
      s.transition (.clean sinceSeq) markerSeq
    else (s, none)

/-- Feeds one push to the running parser. The second part is `some` once a byte is refused. -/
def feed (bytes : Bytes) : EvidenceState T × Option (Option Transition) :=
  let base := s.outSeq
  let s := { s with outSeq := s.outSeq + bytes.length }
  match s.parser with
  | none => (s, none)
  | some parser =>
    match parser.feedBytes (saturatingAdd parser.spent evidenceWorkPerPush) bytes with
    | .ok parser => ({ s with parser := some parser }, none)
    | .error refused =>
      let (s, ended) := { s with parser := none }.transition (.workOverBudget (base + refused)) none
      (s, some ended)

/-- A push from a layout edge on: the search for the marker, and what starts there. -/
def pushDirty (profile : ScreenProfile T) (edgeSeq : ℕ) (bytes : Bytes) (modesAt : ℕ → Bytes) :
    EvidenceState T × Option Transition :=
  let marker := profile.redrawMarker
  let window := s.tail ++ bytes
  let carried := s.tail.length
  let base := s.outSeq
  let s := { s with tail := [], outSeq := base + bytes.length }
  match Marker.find marker window with
  | none =>
    let keep := min (marker.length - 1) window.length
    ({ s with tail := window.drop (window.length - keep) }, none)
  | some place =>
    let markerSeq := base - carried + place
    let modes := modesAt (place - carried)
    match (MeteredParser.new T s.rows s.cols).feedBytes evidenceWorkPerPush
        (modes ++ window.drop place) with
    | .error refused =>
      s.transition (.workOverBudget (markerSeq + (refused - modes.length))) (some markerSeq)
    | .ok parser =>
      let (s, first) := { s with parser := some parser }.transition
        (.pending markerSeq (some edgeSeq)) (some markerSeq)
      let (s, second) := s.checkWitness profile markerSeq (some markerSeq)
      (s, second.or first)

/-- Bytes the agent wrote, in stream order. `modesAt` gives the terminal modes preamble in force
just before the byte at an index of `bytes`. -/
def push (bytes : Bytes) (modesAt : ℕ → Bytes) : EvidenceState T × Option Transition :=
  match s.profile with
  | none => ({ s with outSeq := s.outSeq + bytes.length }, none)
  | some profile =>
    match s.status with
    | .pending sinceSeq _ =>
      match s.feed bytes with
      | (s, some ended) => (s, ended)
      | (s, none) => s.checkWitness profile sinceSeq none
    | .clean _ =>
      let (s, ended) := s.feed bytes
      (s, ended.join)
    | .dirty edgeSeq _ => s.pushDirty profile edgeSeq bytes modesAt
    | .unprofiled | .geometryUnknown _ | .overBudget _ | .workOverBudget _ =>
      ({ s with outSeq := s.outSeq + bytes.length }, none)

/-- Where a layout edge leaves a state that has a profile. -/
def afterEdge (reason : EdgeReason) : EvidenceStatus :=
  if withinBudget s.rows s.cols then .dirty s.outSeq reason else .overBudget s.outSeq

def edge (reason : EdgeReason) (rows cols : UInt16) : EvidenceState T × Option Transition :=
  let s := { s with
    rows := rows, cols := cols, layoutEpoch := s.layoutEpoch + 1, widths := s.widths.record cols }
  match s.profile with
  | none => (s, none)
  | some _ => { s with parser := none, tail := [] }.transition (s.afterEdge reason) none

def adopt (profile : ScreenProfile T) : EvidenceState T × Option Transition :=
  match s.profile with
  | some _ => (s, none)
  | none =>
    { s with
      profile := some profile, layoutEpoch := s.layoutEpoch + 1, parser := none, tail := []
    }.transition (s.afterEdge .profileLearned) none

/-- A nudge's restore failed: the width is unknown until the next successful ioctl. -/
def geometryUnknown (s : EvidenceState T) : EvidenceState T × Option Transition :=
  let s := { s with layoutEpoch := s.layoutEpoch + 1 }
  match s.profile with
  | none => (s, none)
  | some _ => { s with parser := none, tail := [] }.transition (.geometryUnknown s.outSeq) none

end EvidenceState

/-! ## Runs -/

inductive Call (T : Terminal) where
  | push (bytes : Bytes) (modesAt : ℕ → Bytes)
  | edge (reason : EdgeReason) (rows cols : UInt16)
  | adopt (profile : ScreenProfile T)
  | geometryUnknown

variable {T : Terminal}

def EvidenceState.step (s : EvidenceState T) : Call T → EvidenceState T
  | .push bytes modesAt => (s.push bytes modesAt).1
  | .edge reason rows cols => (s.edge reason rows cols).1
  | .adopt profile => (s.adopt profile).1
  | .geometryUnknown => s.geometryUnknown.1

/-- The state after these calls, for a generation starting at `rows` × `cols`. -/
def run (profile : Option (ScreenProfile T)) (rows cols : UInt16) (calls : List (Call T)) :
    EvidenceState T :=
  calls.foldl EvidenceState.step (.new profile rows cols)

end AgentDeck.Evidence
