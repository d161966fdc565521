import AgentDeck.Evidence.State

/-!
# What the evidence parser has been fed

A running parser has been fed with everything since the generation's start, or with the modes
preamble and then everything from the first redraw marker after the last layout edge on, however the
bytes were cut into pushes.
-/

namespace AgentDeck.Evidence

open Marker (First Absent held)

variable {T : Terminal}

namespace Call

def bytes : Call T → Bytes
  | push bytes _ => bytes
  | _ => []

def Still : Call T → Prop
  | push _ _ => True
  | adopt _ => True
  | _ => False

theorem still_push (bytes : Bytes) (modesAt : ℕ → Bytes) : (push bytes modesAt : Call T).Still :=
  trivial

theorem still_adopt (profile : ScreenProfile T) : (adopt profile).Still := trivial

/-- The call starts the evidence over: a layout edge, or the profile's being learned. -/
def StartsOver (known : Option (ScreenProfile T)) : Call T → Prop
  | edge _ _ _ => True
  | adopt _ => known = none
  | _ => False

def learn (known : Option (ScreenProfile T)) : Call T → Option (ScreenProfile T)
  | adopt profile => known.or (some profile)
  | _ => known

def resize (size : UInt16 × UInt16) : Call T → UInt16 × UInt16
  | edge _ rows cols => (rows, cols)
  | _ => size

theorem learn_known {known : Option (ScreenProfile T)} (nonempty : known ≠ none) (call : Call T) :
    call.learn known = known := by
  cases call with
  | adopt profile =>
    cases known with
    | none => exact absurd rfl nonempty
    | some other => rfl
  | push _ _ => rfl
  | edge _ _ _ => rfl
  | geometryUnknown => rfl

theorem bytes_of_startsOver {known : Option (ScreenProfile T)} {call : Call T}
    (startsOver : call.StartsOver known) : call.bytes = [] := by
  cases call with
  | push _ _ => exact startsOver.elim
  | edge _ _ _ => rfl
  | adopt _ => rfl
  | geometryUnknown => rfl

end Call

def pushed (calls : List (Call T)) : Bytes := calls.flatMap Call.bytes

/-- The profile the generation has after these calls. -/
def knownProfile (profile : Option (ScreenProfile T)) (calls : List (Call T)) :
    Option (ScreenProfile T) :=
  calls.foldl Call.learn profile

def geometry (rows cols : UInt16) (calls : List (Call T)) : UInt16 × UInt16 :=
  calls.foldl Call.resize (rows, cols)

theorem pushed_append (calls more : List (Call T)) :
    pushed (calls ++ more) = pushed calls ++ pushed more :=
  List.flatMap_append

theorem pushed_concat (calls : List (Call T)) (call : Call T) :
    pushed (calls ++ [call]) = pushed calls ++ call.bytes := by
  rw [pushed_append]
  exact congrArg _ (List.append_nil _)

theorem knownProfile_concat (profile : Option (ScreenProfile T)) (calls : List (Call T))
    (call : Call T) :
    knownProfile profile (calls ++ [call]) = call.learn (knownProfile profile calls) :=
  List.foldl_concat _ _ _ _

theorem geometry_concat (rows cols : UInt16) (calls : List (Call T)) (call : Call T) :
    geometry rows cols (calls ++ [call]) = call.resize (geometry rows cols calls) :=
  List.foldl_concat _ _ _ _

theorem run_concat (profile : Option (ScreenProfile T)) (rows cols : UInt16) (calls : List (Call T))
    (call : Call T) :
    run profile rows cols (calls ++ [call]) = (run profile rows cols calls).step call :=
  List.foldl_concat _ _ _ _

variable {profile : Option (ScreenProfile T)}

theorem knownProfile_of_known (nonempty : profile ≠ none) (calls : List (Call T)) :
    knownProfile profile calls = profile := by
  induction calls with
  | nil => rfl
  | cons call calls ih =>
    refine Eq.trans ?_ ih
    exact congrArg (fun known => knownProfile known calls) (Call.learn_known nonempty call)

/-! ## Since the last edge -/

/-- `edge` was the last call to start the evidence over. -/
structure SinceEdge (profile : Option (ScreenProfile T)) (calls before : List (Call T))
    (edge : Call T) (after : List (Call T)) : Prop where
  split : calls = before ++ edge :: after
  startsOver : edge.StartsOver (knownProfile profile before)
  known : edge.learn (knownProfile profile before) ≠ none
  still : ∀ call ∈ after, call.Still

namespace SinceEdge

variable {profile : Option (ScreenProfile T)} {calls before after : List (Call T)} {edge : Call T}

variable (since : SinceEdge profile calls before edge after)

include since

theorem pushed_eq : pushed calls = pushed before ++ pushed after := by
  rw [since.split, pushed_append]
  have split : pushed (edge :: after) = edge.bytes ++ pushed after := rfl
  rw [split, Call.bytes_of_startsOver since.startsOver, List.nil_append]

theorem knows : knownProfile profile calls ≠ none := by
  have split : knownProfile profile calls =
      knownProfile (edge.learn (knownProfile profile before)) after := by
    rw [since.split]
    exact List.foldl_append
  rw [split, knownProfile_of_known since.known]
  exact since.known

theorem concat {call : Call T} (still : call.Still) :
    SinceEdge profile (calls ++ [call]) before edge (after ++ [call]) := by
  refine ⟨?_, since.startsOver, since.known, ?_⟩
  · rw [since.split, List.append_assoc]
    rfl
  · intro other among
    rcases List.mem_append.mp among with earlier | last
    · exact since.still other earlier
    · rw [List.mem_singleton.mp last]
      exact still

end SinceEdge

/-- `preamble` is the modes in force before the byte at `m`, as the push gave them in which the
marker ends, or before that push's first byte where the marker began earlier. -/
def Preamble (marker : Bytes) (calls : List (Call T)) (m : ℕ) (preamble : Bytes) : Prop :=
  ∃ earlier bytes modesAt later, calls = earlier ++ Call.push bytes modesAt :: later ∧
    (pushed earlier).length < m + marker.length ∧
    m + marker.length ≤ (pushed earlier).length + bytes.length ∧
    preamble = modesAt (m - (pushed earlier).length)

variable {calls : List (Call T)}

theorem Preamble.append {marker preamble : Bytes} {m : ℕ} (modes : Preamble marker calls m preamble)
    (more : List (Call T)) : Preamble marker (calls ++ more) m preamble := by
  rcases modes with ⟨earlier, bytes, modesAt, later, split, begins, ends, same⟩
  refine ⟨earlier, bytes, modesAt, later ++ more, ?_, begins, ends, same⟩
  rw [split, List.append_assoc]
  rfl

/-- What a running parser of this size has been fed with. -/
inductive Drawn (profile : Option (ScreenProfile T)) (calls : List (Call T)) (rows cols : UInt16)
    (parser : MeteredParser T) : Prop where
  | fromStart (profiled : profile ≠ none) (still : ∀ call ∈ calls, call.Still)
      (fed : parser = (MeteredParser.new T rows cols).fedWith (pushed calls))
  | fromMarker (before : List (Call T)) (edge : Call T) (after : List (Call T))
      (since : SinceEdge profile calls before edge after) (screen : ScreenProfile T)
      (known : knownProfile profile calls = some screen) (marked : screen.redrawMarker ≠ []) (m : ℕ)
      (first : First screen.redrawMarker (pushed calls) (pushed before).length m) (preamble : Bytes)
      (modes : Preamble screen.redrawMarker calls m preamble)
      (fed : parser =
        ((MeteredParser.new T rows cols).fedWith preamble).fedWith ((pushed calls).drop m))

theorem Drawn.known {rows cols : UInt16} {parser : MeteredParser T}
    (drawn : Drawn profile calls rows cols parser) : knownProfile profile calls ≠ none := by
  cases drawn with
  | fromStart profiled still fed =>
    rw [knownProfile_of_known profiled]
    exact profiled
  | fromMarker before edge after since screen known marked m first preamble modes fed =>
    exact since.knows

theorem Drawn.concat {rows cols : UInt16} {parser : MeteredParser T}
    (drawn : Drawn profile calls rows cols parser) {call : Call T} (still : call.Still) :
    Drawn profile (calls ++ [call]) rows cols (parser.fedWith call.bytes) := by
  have sameProfile : knownProfile profile (calls ++ [call]) = knownProfile profile calls := by
    rw [knownProfile_concat, Call.learn_known drawn.known]
  cases drawn with
  | fromStart profiled stills fed =>
    refine .fromStart profiled ?_ ?_
    · intro other among
      rcases List.mem_append.mp among with earlier | last
      · exact stills other earlier
      · rw [List.mem_singleton.mp last]
        exact still
    · rw [fed, pushed_concat, MeteredParser.fedWith_append]
  | fromMarker before edge after since screen known marked m first preamble modes fed =>
    have fits := Marker.length_le_of_prefix_drop marked first.here
    refine .fromMarker before edge (after ++ [call]) (since.concat still) screen
      (sameProfile.trans known) marked m ?_ preamble (modes.append _) ?_
    · rw [pushed_concat]
      exact first.append marked _
    · rw [fed, pushed_concat, List.drop_append_of_le_length (by omega),
        MeteredParser.fedWith_append]

/-- A state that waits for the marker holds the last bytes since the edge, and has seen no
marker. -/
def Waits (profile : Option (ScreenProfile T)) (calls : List (Call T)) (tail : Bytes)
    (edgeSeq : ℕ) : Prop :=
  ∃ before edge after, SinceEdge profile calls before edge after ∧
    edgeSeq = (pushed before).length ∧
    ∀ screen, knownProfile profile calls = some screen →
      tail = held screen.redrawMarker (pushed after) ∧
        (screen.redrawMarker ≠ [] → Absent screen.redrawMarker (pushed after))

section Search

variable {profile : Option (ScreenProfile T)} {calls : List (Call T)} {tail : Bytes} {edgeSeq : ℕ}
  {screen : ScreenProfile T} {bytes : Bytes}

variable (waits : Waits profile calls tail edgeSeq)

include waits

theorem Waits.known : knownProfile profile calls ≠ none := by
  rcases waits with ⟨before, edge, after, since, _⟩
  exact since.knows

theorem Waits.same_known (call : Call T) :
    knownProfile profile (calls ++ [call]) = knownProfile profile calls := by
  rw [knownProfile_concat, Call.learn_known waits.known]

theorem Waits.push (known : knownProfile profile calls = some screen) (modesAt : ℕ → Bytes)
    (finds : Marker.find screen.redrawMarker (tail ++ bytes) = none) :
    Waits profile (calls ++ [Call.push bytes modesAt]) (held screen.redrawMarker (tail ++ bytes))
      edgeSeq := by
  have sameProfile := waits.same_known (.push bytes modesAt)
  rcases waits with ⟨before, edge, after, since, same, waiting⟩
  rcases waiting screen known with ⟨sameTail, absent⟩
  subst sameTail
  refine ⟨before, edge, after ++ [Call.push bytes modesAt],
    since.concat (Call.still_push bytes modesAt), same, ?_⟩
  intro other knownToo
  rw [sameProfile, known] at knownToo
  cases knownToo
  rw [pushed_concat]
  exact ⟨Marker.held_held_append _ _ _, fun marked =>
    Marker.absent_of_find marked (absent marked) finds⟩

theorem Waits.adopt (other : ScreenProfile T) :
    Waits profile (calls ++ [Call.adopt other]) tail edgeSeq := by
  have sameProfile := waits.same_known (.adopt other)
  rcases waits with ⟨before, edge, after, since, same, waiting⟩
  refine ⟨before, edge, after ++ [Call.adopt other],
    since.concat (Call.still_adopt other), same, ?_⟩
  intro screen known
  rw [sameProfile] at known
  rw [pushed_concat]
  simp only [Call.bytes, List.append_nil]
  exact waiting screen known

theorem Waits.found (known : knownProfile profile calls = some screen) (modesAt : ℕ → Bytes)
    {place : ℕ} (finds : Marker.find screen.redrawMarker (tail ++ bytes) = some place)
    (rows cols : UInt16) :
    Drawn profile (calls ++ [Call.push bytes modesAt]) rows cols
      ((MeteredParser.new T rows cols).fedWith
        (modesAt (place - tail.length) ++ (tail ++ bytes).drop place)) := by
  have sameProfile := waits.same_known (.push bytes modesAt)
  rcases waits with ⟨before, edge, after, since, same, waiting⟩
  rcases waiting screen known with ⟨sameTail, absent⟩
  have marked : screen.redrawMarker ≠ [] := by
    intro empty
    rw [empty] at finds
    cases finds
  have long := List.length_pos_of_ne_nil marked
  subst sameTail
  have first := (Marker.first_of_find (absent marked) finds).after_past (pushed before)
  have carried := Marker.length_held screen.redrawMarker (pushed after)
  have all : pushed (calls ++ [Call.push bytes modesAt]) =
      pushed before ++ (pushed after ++ bytes) := by
    rw [pushed_concat, since.pushed_eq, List.append_assoc]
    rfl
  have total : (pushed calls).length = (pushed before).length + (pushed after).length := by
    rw [since.pushed_eq, List.length_append]
  rw [← all] at first
  have fits := Marker.length_le_of_prefix_drop marked first.here
  rw [all, List.length_append, List.length_append] at fits
  generalize (held screen.redrawMarker (pushed after)).length = keep at *
  refine .fromMarker before edge (after ++ [Call.push bytes modesAt])
    (since.concat (Call.still_push bytes modesAt)) screen (sameProfile.trans known) marked _
      first (modesAt (place - keep)) ?_ ?_
  · refine ⟨calls, bytes, modesAt, [], rfl, by omega, by omega, ?_⟩
    congr 1
    omega
  · rw [MeteredParser.fedWith_append, all, Marker.held_append, List.drop_drop, ← carried]
    congr 1
    exact (Marker.drop_past _ _ _).symm

end Search

end AgentDeck.Evidence
