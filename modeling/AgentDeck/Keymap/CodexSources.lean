import AgentDeck.Lib.PartialEq
import AgentDeck.Text

/-!
# Codex's key-binding sources

`src/composer_probe/keymap.rs`: one read of a Codex launch's sources, and when a later read is the
same launch's. `config.toml` may differ by Codex's own bookkeeping, one step of it.

The `toml` crate is a parameter: its parser, and `==` on the values the deck does not look into. A
document is kept as deep as the deck looks: its tables, their settings, and the entries of a setting
that is a table.
-/

namespace AgentDeck.Keymap

/-! ## Reads -/

structure Identity where
  dev : ℕ
  ino : ℕ
  size : ℕ
  mtimeNs : ℤ
  ctimeNs : ℤ
  hash : List UInt8
  deriving DecidableEq

inductive Unreadable where
  | notRegular
  | tooLarge
  | unstable
  | io (kind : ℕ)
  | platform
  deriving DecidableEq

inductive SourceRead where
  | absent
  | present (identity : Identity) (contents : List UInt8)
  | unreadable (why : Unreadable)
  deriving DecidableEq

inductive Hold where
  | unmeasured
  | changed
  | unreadable (why : Unreadable)
  | unparsable
  | rebound
  | unknownKey
  | unpinned
  | editor
  | codexHome
  deriving DecidableEq

inductive KeymapSource where
  | codexConfig
  | codexProfile
  | codexProject
  | codexOverride
  | claudeKeybindings
  deriving DecidableEq

structure CodexRead where
  config : SourceRead
  profile : Option SourceRead
  projects : List SourceRead
  overrides : List Text
  dotenv : SourceRead
  deriving DecidableEq

/-! ## Documents -/

inductive Count (δ : Type) where
  | integer (count : ℤ)
  | other (datum : δ)
  deriving DecidableEq

/-- An entry of a table of the document. -/
inductive Setting (δ : Type) where
  | boolean (value : Bool)
  | table (entries : SortedMap Text (Count δ))
  | other (datum : δ)

inductive Part (δ : Type) where
  | table (entries : SortedMap Text (Setting δ))
  | other (datum : δ)

abbrev Table (δ : Type) := SortedMap Text (Setting δ)

abbrev Document (δ : Type) := SortedMap Text (Part δ)

structure Toml (δ : Type) where
  parse : String → Option (Document δ)
  data : PartialEq δ

variable {δ : Type}

def Count.eq (data : PartialEq δ) : PartialEq (Count δ) where
  same
    | .integer count, .integer count' => decide (count = count')
    | .other datum, .other datum' => data.same datum datum'
    | _, _ => false
  symm {x y} same := by
    cases x <;> cases y <;> simp only [decide_eq_true_eq, reduceCtorEq] at same ⊢
    · exact same.symm
    · exact data.symm same
  trans {x y z} same also := by
    cases x <;> cases y <;> cases z <;>
      simp only [decide_eq_true_eq, reduceCtorEq] at same also ⊢
    · exact same.trans also
    · exact data.trans same also

def Setting.eq (data : PartialEq δ) : PartialEq (Setting δ) where
  same
    | .boolean value, .boolean value' => decide (value = value')
    | .table entries, .table others => (PartialEq.map Text (Count.eq data)).same entries others
    | .other datum, .other datum' => data.same datum datum'
    | _, _ => false
  symm {x y} same := by
    cases x <;> cases y <;> simp only [decide_eq_true_eq, reduceCtorEq] at same ⊢
    · exact same.symm
    · exact (PartialEq.map Text (Count.eq data)).symm same
    · exact data.symm same
  trans {x y z} same also := by
    cases x <;> cases y <;> cases z <;>
      simp only [decide_eq_true_eq, reduceCtorEq] at same also ⊢
    · exact same.trans also
    · exact (PartialEq.map Text (Count.eq data)).trans same also
    · exact data.trans same also

def Part.eq (data : PartialEq δ) : PartialEq (Part δ) where
  same
    | .table entries, .table others => (PartialEq.map Text (Setting.eq data)).same entries others
    | .other datum, .other datum' => data.same datum datum'
    | _, _ => false
  symm {x y} same := by
    cases x <;> cases y <;> simp only [reduceCtorEq] at same ⊢
    · exact (PartialEq.map Text (Setting.eq data)).symm same
    · exact data.symm same
  trans {x y z} same also := by
    cases x <;> cases y <;> cases z <;> simp only [reduceCtorEq] at same also ⊢
    · exact (PartialEq.map Text (Setting.eq data)).trans same also
    · exact data.trans same also

def Document.eq (data : PartialEq δ) : PartialEq (Document δ) := PartialEq.map Text (Part.eq data)

/-! ## Bookkeeping -/

def tuiKey : Text := "tui".toList

def markerKey : Text := "screen_reader_detection_done".toList

def countsKey : Text := "model_availability_nux".toList

def codexNuxMaxCount : ℤ := 4

def Count.isU32 : Count δ → Bool
  | .integer count => decide (0 ≤ count) && decide (count < 2 ^ 32)
  | .other _ => false

/-- The marker taken out of `[tui]`, where it is a boolean. -/
def takeMarker (tui : Table δ) : Table δ × Table δ :=
  match tui.get? markerKey with
  | some (.boolean value) =>
    (tui.erase markerKey, SortedMap.empty.insert markerKey (.boolean value))
  | _ => (tui, SortedMap.empty)

/-- The counts taken out of `[tui]`, where they are a table of them. -/
def takeCounts (taken : Table δ × Table δ) : Table δ × Table δ :=
  match taken.1.get? countsKey with
  | some (.table counts) =>
    if counts.entries.all fun entry => entry.2.isU32 then
      (taken.1.erase countsKey, taken.2.insert countsKey (.table counts))
    else taken
  | _ => taken

def takeBookkeeping (table : Document δ) : Document δ × Table δ :=
  match table.get? tuiKey with
  | some (.table tui) =>
    let taken := takeCounts (takeMarker tui)
    (if taken.1.entries.isEmpty then table.erase tuiKey
      else table.insert tuiKey (.table taken.1), taken.2)
  | _ => (table, SortedMap.empty)

/-- `config.toml` parsed, and the bookkeeping taken out of it: the rest and the bookkeeping. -/
def codexConfigSplit (toml : Toml δ) : SourceRead → Option (Document δ × Table δ)
  | .absent => some (takeBookkeeping SortedMap.empty)
  | .present _ contents =>
    ((String.fromUTF8? ⟨⟨contents⟩⟩).bind toml.parse).map takeBookkeeping
  | .unreadable _ => none

def markerOf (kept : Table δ) : Option Bool :=
  match kept.get? markerKey with
  | some (.boolean value) => some value
  | _ => none

def countsOf (kept : Table δ) : Option (SortedMap Text (Count δ)) :=
  match kept.get? countsKey with
  | some (.table counts) => some counts
  | _ => none

/-- A count stays, or rises by one to at most the highest Codex writes; a new one is 1. -/
def countOk (was : SortedMap Text (Count δ)) (entry : Text × Count δ) : Bool :=
  match entry.2 with
  | .other _ => false
  | .integer count =>
    match was.get? entry.1 with
    | none => decide (count = 1)
    | some (.integer prior) =>
      decide (count = prior) || (decide (count = prior + 1) && decide (count ≤ codexNuxMaxCount))
    | some (.other _) => false

def countMoved (data : PartialEq δ) (was : SortedMap Text (Count δ)) (entry : Text × Count δ) :
    Bool :=
  match was.get? entry.1 with
  | none => true
  | some prior => !(Count.eq data).same prior entry.2

/-- The bookkeeping `after` is one Codex could have written over `before`. -/
def codexBookkeepingForward (data : PartialEq δ) (before after : Table δ) : Bool :=
  let markerWas := markerOf before
  let markerNow := markerOf after
  let markerOk := decide (markerWas = markerNow) ||
    ((decide (markerWas = none) || decide (markerWas = some false)) &&
      decide (markerNow = some true))
  let tableKept := (countsOf before).isNone || (countsOf after).isSome
  let was := (countsOf before).getD SortedMap.empty
  let now := (countsOf after).getD SortedMap.empty
  let countsOk := (was.keys.all fun model => (now.get? model).isSome) &&
    now.entries.all (countOk was)
  let countsMoved := (now.entries.filter (countMoved data was)).length
  let moved := decide (markerWas ≠ markerNow) || decide (0 < countsMoved)
  markerOk && tableKept && countsOk && decide (countsMoved ≤ 1) && moved

def codexConfigUnchanged (toml : Toml δ) (before after : SourceRead) : Bool :=
  if before = after then true
  else
    match codexConfigSplit toml before, codexConfigSplit toml after with
    | some (before, keptBefore), some (after, keptAfter) =>
      (Document.eq toml.data).same before after &&
        codexBookkeepingForward toml.data keptBefore keptAfter
    | _, _ => false

/-- Whether `after` is the same launch's sources as `before`. -/
def codexUnchanged (toml : Toml δ) (before after : CodexRead) : Except Hold Unit :=
  if codexConfigUnchanged toml before.config after.config = true ∧ before.profile = after.profile ∧
      before.projects = after.projects ∧ before.overrides = after.overrides ∧
      before.dotenv = after.dotenv then .ok ()
  else .error .changed

end AgentDeck.Keymap
