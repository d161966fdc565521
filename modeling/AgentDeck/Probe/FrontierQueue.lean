import AgentDeck.Probe.Record
import AgentDeck.Lib.Runs
import Mathlib.Data.List.Perm.Subperm

/-!
# Frontier requests

A generation's queue of frontier requests, one step for each section that holds its lock and for
each settlement between. A request is settled by whoever sets its outcome first, and that one
reports it. The invariant is on the list of outstanding requests: every request that is taken in and
not settled is on it, so its cap bounds them and a retirement settles them all. A call that was
refused has its request to itself until it has settled it.
-/

namespace AgentDeck.Probe

def maxOutstanding : ℕ := 64

structure Request where
  generation : ℕ
  record : Option RecordKey

inductive Retired
  | wake
  | reader

/-- Where a call that made a request stands after its locked section. -/
inductive Asking
  | refused
  | ringing
  | unrung
  deriving DecidableEq

/-- The queue, with its requests and their outcomes by their numbers, which are from 1. -/
structure FrontierQueue where
  generation : Option ℕ
  retired : Option Retired
  queued : List ℕ
  outstanding : List ℕ
  nextId : ℕ
  requests : ℕ → Request
  outcome : ℕ → Option FrontierOutcome
  asking : ℕ → Option Asking

inductive FrontierOp
  | attach (generation : ℕ)
  | request (generation : ℕ) (record : Option RecordKey)
  | refuse (id : ℕ)
  | ring (id : ℕ) (rung : Bool)
  | giveUp (id : ℕ)
  | takeQueued
  | retire (why : Retired)
  | settle (id : ℕ) (outcome : FrontierOutcome)

/-- What a step returns to its caller. -/
inductive FrontierAnswer
  | nothing
  | settled (id : ℕ) (won : Bool)
  | handed (id : ℕ) (settled : List ℕ)
  | took (ids : List ℕ)
  | retired (settled : List ℕ)

def FrontierAnswer.reported : FrontierAnswer → List ℕ
  | .settled id true => [id]
  | .handed _ ids => ids
  | .retired ids => ids
  | _ => []

namespace FrontierQueue

def new : FrontierQueue where
  generation := none
  retired := none
  queued := []
  outstanding := []
  nextId := 0
  requests := fun _ => ⟨0, none⟩
  outcome := fun _ => none
  asking := fun _ => none

def settle (q : FrontierQueue) (id : ℕ) (outcome : FrontierOutcome) : Bool × FrontierQueue :=
  match q.outcome id with
  | none => (true, { q with outcome := Function.update q.outcome id (some outcome) })
  | some _ => (false, q)

def settleMissing (q : FrontierQueue) : List ℕ → List ℕ × FrontierQueue
  | [] => ([], q)
  | id :: rest =>
    let (won, q) := q.settle id .missing
    let (settled, q) := q.settleMissing rest
    (if won then id :: settled else settled, q)

def retire (q : FrontierQueue) (why : Retired) : List ℕ × FrontierQueue :=
  { q with
    retired := q.retired <|> some why
    queued := []
    outstanding := [] }.settleMissing q.outstanding

def request (q : FrontierQueue) (generation : ℕ) (record : Option RecordKey) :
    FrontierQueue × FrontierAnswer :=
  match record.bind fun key => q.outstanding.find? fun id =>
      decide ((q.requests id).record = some key) && (q.outcome id).isNone with
  | some id => (q, .handed id [])
  | none =>
    let outstanding := q.outstanding.filter fun id => (q.outcome id).isNone
    let id := q.nextId + 1
    let made := { q with
      outstanding := outstanding
      nextId := id
      requests := Function.update q.requests id ⟨generation, record⟩ }
    if q.retired.isSome ∨ q.generation ≠ some generation ∨
        maxOutstanding ≤ outstanding.length then
      ({ made with asking := Function.update q.asking id (some .refused) }, .nothing)
    else
      ({ made with
        queued := q.queued ++ [id]
        outstanding := outstanding ++ [id]
        asking := Function.update q.asking id (some .ringing) }, .nothing)

/-- The call that made the request goes on. -/
def goOn (q : FrontierQueue) (id : ℕ) (next : Option Asking) : FrontierQueue :=
  { q with asking := Function.update q.asking id next }

/-- A call that is not at the step's point, or a request nobody holds, changes nothing. -/
def step (q : FrontierQueue) : FrontierOp → FrontierQueue × FrontierAnswer
  | .attach generation =>
    (if q.generation.isNone then { q with generation := some generation } else q, .nothing)
  | .request generation record => q.request generation record
  | .refuse id =>
    if q.asking id = some .refused then
      let (won, q) := q.settle id .missing
      (q.goOn id none, .handed id (if won then [id] else []))
    else (q, .nothing)
  | .ring id rung =>
    if q.asking id = some .ringing then
      if rung then (q.goOn id none, .handed id []) else (q.goOn id (some .unrung), .nothing)
    else (q, .nothing)
  | .giveUp id =>
    if q.asking id = some .unrung then
      let (settled, q) := q.retire .wake
      (q.goOn id none, .handed id settled)
    else (q, .nothing)
  | .takeQueued => ({ q with queued := [] }, .took q.queued)
  | .retire why =>
    let (settled, q) := q.retire why
    (q, .retired settled)
  | .settle id outcome =>
    if id = 0 ∨ q.nextId < id ∨ q.asking id = some .refused then (q, .nothing)
    else
      let (won, q) := q.settle id outcome
      (q, .settled id won)

/-- A request that was taken in or handed out, and is not settled. -/
structure Open (q : FrontierQueue) (id : ℕ) : Prop where
  numbered : id ≠ 0 ∧ id ≤ q.nextId
  taken : q.asking id ≠ some .refused
  unset : q.outcome id = none

/-! ## What a step does -/

/-- The requests of `won` are settled, and nothing else about requests and outcomes changes. -/
structure Settles (q : FrontierQueue) (won : List ℕ) (q' : FrontierQueue) : Prop where
  outcome : ∀ id, won.count id = 0 ∧ q'.outcome id = q.outcome id ∨
    won.count id = 1 ∧ q.outcome id = none ∧ (q'.outcome id).isSome = true
  frame : q' = { q with outcome := q'.outcome }

variable (q : FrontierQueue)

theorem settle_settles (id : ℕ) (outcome : FrontierOutcome) :
    Settles q (if (q.settle id outcome).1 then [id] else []) (q.settle id outcome).2 := by
  cases unset : q.outcome id with
  | some set =>
    simp only [settle, unset]
    exact ⟨fun _ => .inl ⟨rfl, rfl⟩, rfl⟩
  | none =>
    simp only [settle, unset]
    refine ⟨?_, rfl⟩
    intro other
    by_cases same : other = id
    · subst same
      refine .inr ⟨List.count_singleton_self, unset, ?_⟩
      simp only [Function.update_self, Option.isSome_some]
    · refine .inl ⟨List.count_eq_zero.mpr (mt List.mem_singleton.mp same), ?_⟩
      exact Function.update_of_ne same _ _

theorem Settles.trans {q q₁ q' : FrontierQueue} {won more : List ℕ} (first : Settles q won q₁)
    (later : Settles q₁ more q') : Settles q (won ++ more) q' := by
  refine ⟨?_, ?_⟩
  · intro id
    rw [List.count_append]
    rcases first.outcome id with ⟨none, same⟩ | ⟨one, unset, set⟩
    · rw [none, Nat.zero_add, ← same]
      exact later.outcome id
    · rcases later.outcome id with ⟨none, same⟩ | ⟨_, again, _⟩
      · exact .inr ⟨by rw [one, none], unset, by rw [same, set]⟩
      · rw [again] at set
        cases set
  · refine later.frame.trans ?_
    rw [first.frame]

theorem Settles.stays {q q' : FrontierQueue} {won : List ℕ} (settles : Settles q won q') {id : ℕ}
    {outcome : FrontierOutcome} (set : q.outcome id = some outcome) :
    q'.outcome id = some outcome := by
  rcases settles.outcome id with ⟨_, same⟩ | ⟨_, unset, _⟩
  · exact same.trans set
  · cases set.symm.trans unset

theorem settle_set (id : ℕ) (outcome : FrontierOutcome) :
    ∃ set, (q.settle id outcome).2.outcome id = some set := by
  cases unset : q.outcome id with
  | some set =>
    simp only [settle, unset]
    exact ⟨set, rfl⟩
  | none =>
    simp only [settle, unset, Function.update_self]
    exact ⟨outcome, rfl⟩

theorem settleMissing_cons (id : ℕ) (rest : List ℕ) :
    q.settleMissing (id :: rest) =
      ((if (q.settle id .missing).1 then [id] else []) ++
          ((q.settle id .missing).2.settleMissing rest).1,
        ((q.settle id .missing).2.settleMissing rest).2) := by
  simp only [settleMissing]
  rcases q.settle id .missing with ⟨_ | _, later⟩
  · rfl
  · rfl

theorem settleMissing_settles (ids : List ℕ) :
    Settles q (q.settleMissing ids).1 (q.settleMissing ids).2 ∧
      (∀ id ∈ (q.settleMissing ids).1, id ∈ ids) ∧
      ∀ id ∈ ids, (q.settleMissing ids).2.outcome id ≠ none := by
  induction ids generalizing q with
  | nil =>
    exact ⟨⟨fun _ => .inl ⟨rfl, rfl⟩, rfl⟩, fun _ mem => mem,
      fun _ mem => absurd mem List.not_mem_nil⟩
  | cons id rest ih =>
    rcases ih (q.settle id .missing).2 with ⟨later, within, set⟩
    rw [settleMissing_cons]
    refine ⟨(q.settle_settles id .missing).trans later, ?_, ?_⟩
    · intro other mem
      rcases List.mem_append.mp mem with mine | others
      · split at mine
        · exact List.mem_singleton.mp mine ▸ List.mem_cons_self
        · cases mine
      · exact List.mem_cons_of_mem id (within other others)
    · intro other mem
      rcases List.mem_cons.mp mem with rfl | mem
      · rcases q.settle_set other .missing with ⟨outcome, set⟩
        rw [later.stays set]
        exact Option.some_ne_none outcome
      · exact set other mem

/-- A step between two asks: some requests are settled, calls that are not refused go on, and what
leaves the outstanding list is settled. -/
structure Moves (q : FrontierQueue) (won : List ℕ) (q' : FrontierQueue) : Prop where
  nextId : q'.nextId = q.nextId
  requests : q'.requests = q.requests
  generation : q'.generation = q.generation
  outcome : ∀ id, won.count id = 0 ∧ q'.outcome id = q.outcome id ∨
    won.count id = 1 ∧ q.outcome id = none ∧ (q'.outcome id).isSome = true
  made : ∀ id ∈ won, id ≤ q.nextId
  refused : ∀ id, q'.asking id = some .refused ↔ q.asking id = some .refused ∧ id ∉ won
  fewer : q'.outstanding.Sublist q.outstanding
  dropped : ∀ id ∈ q.outstanding, id ∈ q'.outstanding ∨ q'.outcome id ≠ none
  cleared : q'.retired.isSome = true → q.retired.isSome = true ∨ q'.outstanding = []

end FrontierQueue

/-- The queue, and the requests that were reported as settled, in order. -/
structure FrontierStory where
  queue : FrontierQueue
  reports : List ℕ

namespace FrontierStory

open FrontierQueue (Moves Settles Open)

def start : FrontierStory := ⟨.new, []⟩

def step (s : FrontierStory) (op : FrontierOp) : FrontierStory :=
  let (queue, answer) := s.queue.step op
  ⟨queue, s.reports ++ answer.reported⟩

/-- What holds between any two steps. -/
structure Sound (s : FrontierStory) : Prop where
  unmade : ∀ id, s.queue.nextId < id → s.queue.outcome id = none
  refused : ∀ id, s.queue.asking id = some .refused →
    id ≤ s.queue.nextId ∧ s.queue.outcome id = none ∧ id ∉ s.queue.outstanding
  listed : ∀ id, s.queue.Open id → id ∈ s.queue.outstanding
  made : ∀ id ∈ s.queue.outstanding, id ≤ s.queue.nextId
  few : s.queue.outstanding.length ≤ maxOutstanding
  keyed : ∀ a ∈ s.queue.outstanding, ∀ b ∈ s.queue.outstanding, s.queue.outcome a = none →
    s.queue.outcome b = none → ∀ key, (s.queue.requests a).record = some key →
      (s.queue.requests b).record = some key → a = b
  attached : ∀ id ∈ s.queue.outstanding,
    s.queue.generation = some (s.queue.requests id).generation
  cleared : s.queue.retired.isSome = true → s.queue.outstanding = []
  once : ∀ id, s.reports.count id = if (s.queue.outcome id).isSome then 1 else 0

theorem sound_start : Sound start := by
  refine ⟨fun _ _ => rfl, ?_, ?_, ?_, Nat.zero_le _, ?_, ?_, fun _ => rfl, fun _ => rfl⟩
  · exact fun _ asking => absurd asking.symm (Option.some_ne_none _)
  · exact fun id opened => absurd (Nat.le_zero.mp opened.numbered.2) opened.numbered.1
  · exact fun _ mem => absurd mem List.not_mem_nil
  · exact fun _ mem => absurd mem List.not_mem_nil
  · exact fun _ mem => absurd mem List.not_mem_nil

variable {s : FrontierStory} {q' : FrontierQueue} {won : List ℕ}

variable (sound : Sound s)

include sound

theorem Sound.moved (moves : Moves s.queue won q') : Sound ⟨q', s.reports ++ won⟩ := by
  have unset : ∀ {id}, q'.outcome id = none → s.queue.outcome id = none := by
    intro id absent
    rcases moves.outcome id with ⟨_, same⟩ | ⟨_, before, _⟩
    · exact same.symm.trans absent
    · exact before
  refine ⟨?_, ?_, ?_, ?_, ?_, ?_, ?_, ?_, ?_⟩
  · intro id later
    rw [moves.nextId] at later
    rcases moves.outcome id with ⟨_, same⟩ | ⟨one, _, _⟩
    · exact same.trans (sound.unmade id later)
    · have mem : id ∈ won := List.count_pos_iff.mp (one ▸ Nat.one_pos)
      exact absurd (moves.made id mem) (Nat.not_le.mpr later)
  · intro id asking
    rcases (moves.refused id).mp asking with ⟨before, apart⟩
    rcases sound.refused id before with ⟨made, none, unlisted⟩
    refine ⟨moves.nextId ▸ made, ?_, fun mem => unlisted (moves.fewer.subset mem)⟩
    rcases moves.outcome id with ⟨_, same⟩ | ⟨one, _, _⟩
    · exact same.trans none
    · exact absurd (List.count_pos_iff.mp (one ▸ Nat.one_pos)) apart
  · intro id opened
    have stands : s.queue.Open id := by
      refine ⟨moves.nextId ▸ opened.numbered, ?_, unset opened.unset⟩
      intro before
      refine opened.taken ((moves.refused id).mpr ⟨before, ?_⟩)
      intro mem
      rcases moves.outcome id with ⟨none, _⟩ | ⟨_, _, set⟩
      · exact absurd mem (List.count_eq_zero.mp none)
      · rw [opened.unset] at set
        exact Bool.false_ne_true set
    rcases moves.dropped id (sound.listed id stands) with kept | set
    · exact kept
    · exact absurd opened.unset set
  · intro id mem
    rw [moves.nextId]
    exact sound.made id (moves.fewer.subset mem)
  · exact moves.fewer.length_le.trans sound.few
  · intro a aMem b bMem aUnset bUnset
    rw [moves.requests]
    exact sound.keyed a (moves.fewer.subset aMem) b (moves.fewer.subset bMem) (unset aUnset)
      (unset bUnset)
  · intro id mem
    rw [moves.generation, moves.requests]
    exact sound.attached id (moves.fewer.subset mem)
  · intro retired
    have absent : s.queue.retired.isSome = true → q'.outstanding = [] := by
      intro before
      have fewer := moves.fewer
      rw [sound.cleared before] at fewer
      exact List.sublist_nil.mp fewer
    exact (moves.cleared retired).elim absent id
  · intro id
    rw [List.count_append, sound.once id]
    rcases moves.outcome id with ⟨none, same⟩ | ⟨one, before, set⟩
    · rw [none, same, Nat.add_zero]
    · rw [one, before, set]
      rfl

/-- A new request, refused or taken in. -/
theorem Sound.asked {generation : ℕ} {record : Option RecordKey}
    (apart : ∀ key, record = some key → ∀ id ∈ s.queue.outstanding, s.queue.outcome id = none →
      (s.queue.requests id).record ≠ some key) {phase : Asking} {taken queued : List ℕ}
    (goes : phase = .refused ∧ taken = [] ∨
      phase = .ringing ∧ taken = [s.queue.nextId + 1] ∧ s.queue.retired.isSome = false ∧
        s.queue.generation = some generation ∧
        (s.queue.outstanding.filter fun id => (s.queue.outcome id).isNone).length <
          maxOutstanding) :
    Sound ⟨{ s.queue with
      queued := queued
      outstanding := (s.queue.outstanding.filter fun id => (s.queue.outcome id).isNone) ++ taken
      nextId := s.queue.nextId + 1
      requests := Function.update s.queue.requests (s.queue.nextId + 1) ⟨generation, record⟩
      asking := Function.update s.queue.asking (s.queue.nextId + 1) (some phase) },
      s.reports⟩ := by
  have split : ∀ {id}, id ∈ (s.queue.outstanding.filter fun id => (s.queue.outcome id).isNone) ++
      taken → id ≠ s.queue.nextId + 1 ∧ id ∈ s.queue.outstanding ∨
        id = s.queue.nextId + 1 ∧ phase = .ringing ∧
          s.queue.generation = some generation := by
    intro id mem
    rcases List.mem_append.mp mem with old | new
    · have old := (List.mem_filter.mp old).1
      exact .inl ⟨Nat.ne_of_lt (Nat.lt_succ_of_le (sound.made id old)), old⟩
    · rcases goes with ⟨_, rfl⟩ | ⟨rings, rfl, _, here, _⟩
      · cases new
      · exact .inr ⟨List.mem_singleton.mp new, rings, here⟩
  refine ⟨?_, ?_, ?_, ?_, ?_, ?_, ?_, ?_, sound.once⟩
  · exact fun id later => sound.unmade id (Nat.lt_of_succ_lt later)
  · intro id asking
    by_cases new : id = s.queue.nextId + 1
    · subst new
      refine ⟨Nat.le_refl _, sound.unmade _ (Nat.lt_succ_self _), ?_⟩
      intro mem
      rcases split mem with ⟨old, _⟩ | ⟨_, rings, _⟩
      · exact old rfl
      · simp only [Function.update_self, rings, Option.some.injEq, reduceCtorEq] at asking
    · simp only [Function.update_of_ne new] at asking
      rcases sound.refused id asking with ⟨made, none, unlisted⟩
      refine ⟨Nat.le_succ_of_le made, none, ?_⟩
      intro mem
      rcases split mem with ⟨_, old⟩ | ⟨same, _⟩
      · exact unlisted old
      · exact new same
  · intro id opened
    have possessed := opened.taken
    by_cases new : id = s.queue.nextId + 1
    · rcases goes with ⟨refused, _⟩ | ⟨_, is, _⟩
      · simp only [new, Function.update_self, refused, ne_eq, not_true_eq_false] at possessed
      · exact List.mem_append_right _ (is ▸ List.mem_singleton.mpr new)
    · simp only [Function.update_of_ne new] at possessed
      have made := Nat.le_of_lt_succ (Nat.lt_of_le_of_ne opened.numbered.2 new)
      have old := sound.listed id ⟨⟨opened.numbered.1, made⟩, possessed, opened.unset⟩
      exact List.mem_append_left _ (List.mem_filter.mpr ⟨old, Option.isNone_iff_eq_none.mpr
        opened.unset⟩)
  · intro id mem
    rcases split mem with ⟨_, old⟩ | ⟨same, _⟩
    · exact Nat.le_succ_of_le (sound.made id old)
    · exact Nat.le_of_eq same
  · have fewer := (List.length_filter_le (fun id => (s.queue.outcome id).isNone)
      s.queue.outstanding).trans sound.few
    rw [List.length_append]
    rcases goes with ⟨_, rfl⟩ | ⟨_, rfl, _, _, room⟩
    · exact fewer
    · exact room
  · intro a aMem b bMem aUnset bUnset key
    rcases split aMem with ⟨aOld, aIn⟩ | ⟨rfl, _⟩
    · simp only [Function.update_of_ne aOld]
      rcases split bMem with ⟨bOld, bIn⟩ | ⟨rfl, _⟩
      · simp only [Function.update_of_ne bOld]
        exact sound.keyed a aIn b bIn aUnset bUnset key
      · simp only [Function.update_self]
        exact fun same is => absurd same (apart key is a aIn aUnset)
    · simp only [Function.update_self]
      rcases split bMem with ⟨bOld, bIn⟩ | ⟨rfl, _⟩
      · simp only [Function.update_of_ne bOld]
        exact fun is same => absurd same (apart key is b bIn bUnset)
      · exact fun _ _ => rfl
  · intro id mem
    rcases split mem with ⟨old, inside⟩ | ⟨rfl, _, here⟩
    · simp only [Function.update_of_ne old]
      exact sound.attached id inside
    · simp only [Function.update_self]
      exact here
  · intro retired
    rcases goes with ⟨_, rfl⟩ | ⟨_, _, fresh, _⟩
    · simp only [sound.cleared retired, List.filter_nil, List.append_nil]
    · cases retired.symm.trans fresh

theorem Sound.request (generation : ℕ) (record : Option RecordKey) :
    Sound (s.step (.request generation record)) := by
  simp only [step, FrontierQueue.step, FrontierQueue.request]
  split
  · simp only [FrontierAnswer.reported, List.append_nil]
    exact sound
  · rename_i missing
    have apart : ∀ key, record = some key → ∀ id ∈ s.queue.outstanding,
        s.queue.outcome id = none → (s.queue.requests id).record ≠ some key := by
      rintro key rfl id mem unset same
      have refuted := List.find?_eq_none.mp missing id mem
      simp only [same, unset, decide_true, Option.isNone_none, Bool.and_self,
        not_true_eq_false] at refuted
    split
    · have later := @Sound.asked s sound generation record apart .refused [] s.queue.queued
        (.inl ⟨rfl, rfl⟩)
      simp only [List.append_nil, FrontierAnswer.reported] at later ⊢
      exact later
    · rename_i goes
      simp only [not_or, not_not, Bool.not_eq_true, Nat.not_le] at goes
      simp only [FrontierAnswer.reported, List.append_nil]
      exact sound.asked apart (.inr ⟨rfl, rfl, goes.1, goes.2.1, goes.2.2⟩)

/-! ## The other steps -/

omit sound in
theorem moves_settled {q : FrontierQueue} (settles : Settles s.queue won q)
    (held : ∀ id ∈ won, id ≤ s.queue.nextId ∧ s.queue.asking id ≠ some .refused) :
    Moves s.queue won q := by
  rw [settles.frame]
  refine ⟨rfl, rfl, rfl, settles.outcome, fun id mem => (held id mem).1, ?_,
    List.Sublist.refl _, fun _ mem => .inl mem, .inl⟩
  exact fun id => ⟨fun asking => ⟨asking, fun mem => (held id mem).2 asking⟩, And.left⟩

omit sound in
theorem moves_goOn {q : FrontierQueue} (moves : Moves s.queue won q) {id : ℕ} {next : Option Asking}
    (passes : next ≠ some .refused) (other : s.queue.asking id ≠ some .refused) :
    Moves s.queue won (q.goOn id next) := by
  refine { moves with refused := ?_ }
  intro asked
  by_cases same : asked = id
  · subst same
    simp only [FrontierQueue.goOn, Function.update_self, passes, other, false_and]
  · simp only [FrontierQueue.goOn, Function.update_of_ne same]
    exact moves.refused asked

theorem moves_retire (why : Retired) :
    Moves s.queue (s.queue.retire why).1 (s.queue.retire why).2 ∧
      (∀ id ∈ (s.queue.retire why).1, id ∈ s.queue.outstanding) ∧
      ∀ id ∈ s.queue.outstanding, (s.queue.retire why).2.outcome id ≠ none := by
  rcases FrontierQueue.settleMissing_settles { s.queue with
      retired := s.queue.retired <|> some why
      queued := []
      outstanding := [] } s.queue.outstanding with ⟨settles, within, set⟩
  refine ⟨?_, within, set⟩
  rw [FrontierQueue.retire, settles.frame]
  refine ⟨rfl, rfl, rfl, settles.outcome, fun id mem => sound.made id (within id mem), ?_,
    List.nil_sublist _, fun id mem => .inr (set id mem), fun _ => .inr rfl⟩
  intro id
  refine ⟨fun asking => ⟨asking, ?_⟩, And.left⟩
  exact fun mem => (sound.refused id asking).2.2 (within id mem)

theorem moves_refuse {id : ℕ} (asking : s.queue.asking id = some .refused) :
    s.queue.step (.refuse id) = (({ s.queue with
        outcome := Function.update s.queue.outcome id (some .missing) }.goOn id none),
      .handed id [id]) ∧
    Moves s.queue [id] (s.queue.step (.refuse id)).1 := by
  rcases sound.refused id asking with ⟨made, unset, unlisted⟩
  have is : s.queue.step (.refuse id) = (({ s.queue with
      outcome := Function.update s.queue.outcome id (some .missing) }.goOn id none),
        .handed id [id]) := by
    simp only [FrontierQueue.step, asking, FrontierQueue.settle, unset, if_true]
  have settles := s.queue.settle_settles id .missing
  simp only [FrontierQueue.settle, unset] at settles
  refine ⟨is, ?_⟩
  rw [is]
  refine ⟨rfl, rfl, rfl, settles.outcome, ?_, ?_, List.Sublist.refl _, fun _ mem => .inl mem,
    .inl⟩
  · exact fun other mem => List.mem_singleton.mp mem ▸ made
  · intro other
    rw [List.mem_singleton]
    by_cases same : other = id
    · simp only [FrontierQueue.goOn, same, Function.update_self, reduceCtorEq, not_true_eq_false,
        and_false]
    · simp only [FrontierQueue.goOn, Function.update_of_ne same, same, not_false_eq_true, and_true]

omit sound in
theorem moves_none : Moves s.queue [] s.queue :=
  moves_settled ⟨fun _ => .inl ⟨rfl, rfl⟩, rfl⟩ fun _ mem => absurd mem List.not_mem_nil

omit sound in
theorem reported_settled (id : ℕ) (won : Bool) :
    (FrontierAnswer.settled id won).reported = if won then [id] else [] := by
  cases won with
  | true => rfl
  | false => rfl

omit sound in
theorem moves_settle {id : ℕ} {outcome : FrontierOutcome}
    (held : ¬(id = 0 ∨ s.queue.nextId < id ∨ s.queue.asking id = some .refused)) :
    Moves s.queue (FrontierAnswer.settled id (s.queue.settle id outcome).1).reported
      (s.queue.settle id outcome).2 := by
  simp only [not_or, Nat.not_lt] at held
  rw [reported_settled]
  apply moves_settled (s.queue.settle_settles id outcome)
  intro other mem
  split at mem
  · rw [List.mem_singleton.mp mem]
    exact held.2
  · cases mem

theorem moves_step (op : FrontierOp) :
    (∃ generation, op = .attach generation) ∨
      (∃ generation record, op = .request generation record) ∨
      Moves s.queue (s.queue.step op).2.reported (s.queue.step op).1 := by
  have passes : ∀ {id : ℕ} {asking : Asking}, s.queue.asking id = some asking →
      asking ≠ .refused → s.queue.asking id ≠ some .refused :=
    fun is other same => other (Option.some.inj (is.symm.trans same))
  cases op with
  | attach generation => exact .inl ⟨generation, rfl⟩
  | request generation record => exact .inr (.inl ⟨generation, record, rfl⟩)
  | refuse id =>
    refine .inr (.inr ?_)
    by_cases asking : s.queue.asking id = some .refused
    · rcases moves_refuse sound asking with ⟨is, moves⟩
      rw [is] at moves ⊢
      exact moves
    · simp only [FrontierQueue.step, if_neg asking]
      exact moves_none
  | ring id rung =>
    refine .inr (.inr ?_)
    simp only [FrontierQueue.step]
    split
    · rename_i asking
      have other := passes asking (Asking.noConfusion)
      split
      · exact moves_goOn moves_none (Option.some_ne_none _).symm other
      · exact moves_goOn moves_none (fun same => Asking.noConfusion (Option.some.inj same)) other
    · exact moves_none
  | giveUp id =>
    refine .inr (.inr ?_)
    simp only [FrontierQueue.step]
    split
    · rename_i asking
      exact moves_goOn (moves_retire sound .wake).1 (Option.some_ne_none _).symm
        (passes asking Asking.noConfusion)
    · exact moves_none
  | takeQueued => exact .inr (.inr { moves_none with })
  | retire why => exact .inr (.inr (moves_retire sound why).1)
  | settle id outcome =>
    refine .inr (.inr ?_)
    simp only [FrontierQueue.step]
    split
    · exact moves_none
    · rename_i held
      exact moves_settle held

theorem Sound.step (op : FrontierOp) : Sound (s.step op) := by
  rcases moves_step sound op with ⟨generation, rfl⟩ | ⟨generation, record, rfl⟩ | moves
  · simp only [FrontierStory.step, FrontierQueue.step, FrontierAnswer.reported, List.append_nil]
    split
    · rename_i free
      refine { sound with
        listed := fun id opened => sound.listed id ⟨opened.numbered, opened.taken, opened.unset⟩
        attached := ?_ }
      intro id mem
      rw [sound.attached id mem] at free
      cases free
    · exact sound
  · exact sound.request generation record
  · exact sound.moved moves

omit sound in
theorem sound_run (ops : List FrontierOp) : Sound (ops.foldl step start) :=
  Runs.run_keeps_always Sound (fun _ op sound => sound.step op) sound_start

/-! ## What a request and a settlement mean later -/

omit sound in
theorem request_leaves (s : FrontierStory) (generation : ℕ) (record : Option RecordKey) :
    (s.step (.request generation record)).queue.outcome = s.queue.outcome ∧
      ∀ id ≤ s.queue.nextId,
        (s.step (.request generation record)).queue.asking id = s.queue.asking id := by
  have other : ∀ {phase : Asking}, ∀ id ≤ s.queue.nextId,
      Function.update s.queue.asking (s.queue.nextId + 1) (some phase) id = s.queue.asking id :=
    fun id made => Function.update_of_ne (Nat.ne_of_lt (Nat.lt_succ_of_le made)) _ _
  simp only [step, FrontierQueue.step, FrontierQueue.request]
  split
  · exact ⟨rfl, fun _ _ => rfl⟩
  · split
    · exact ⟨rfl, other⟩
    · exact ⟨rfl, other⟩

theorem outcome_stays (op : FrontierOp) {id : ℕ} {outcome : FrontierOutcome}
    (set : s.queue.outcome id = some outcome) : (s.step op).queue.outcome id = some outcome := by
  rcases moves_step sound op with ⟨generation, rfl⟩ | ⟨generation, record, rfl⟩ | moves
  · simp only [step, FrontierQueue.step]
    split
    · exact set
    · exact set
  · rw [(request_leaves s generation record).1, set]
  · rcases moves.outcome id with ⟨_, same⟩ | ⟨_, unset, _⟩
    · exact same.trans set
    · cases set.symm.trans unset

theorem refuse_of_reported {op : FrontierOp} {id : ℕ} (asking : s.queue.asking id = some .refused)
    (mem : id ∈ (s.queue.step op).2.reported) : op = .refuse id := by
  have unlisted := (sound.refused id asking).2.2
  cases op with
  | attach generation => exact absurd mem List.not_mem_nil
  | request generation record =>
    simp only [FrontierQueue.step, FrontierQueue.request] at mem
    split at mem
    · cases mem
    · split at mem
      · cases mem
      · cases mem
  | refuse call =>
    by_cases refused : s.queue.asking call = some .refused
    · rw [(moves_refuse sound refused).1] at mem
      rw [List.mem_singleton.mp mem]
    · simp only [FrontierQueue.step, if_neg refused] at mem
      cases mem
  | ring call rung =>
    simp only [FrontierQueue.step] at mem
    split at mem
    · split at mem
      · cases mem
      · cases mem
    · cases mem
  | giveUp call =>
    simp only [FrontierQueue.step] at mem
    split at mem
    · exact absurd ((moves_retire sound .wake).2.1 id mem) unlisted
    · cases mem
  | takeQueued => exact absurd mem List.not_mem_nil
  | retire why => exact absurd ((moves_retire sound why).2.1 id mem) unlisted
  | settle call outcome =>
    simp only [FrontierQueue.step] at mem
    split at mem
    · cases mem
    · rename_i held
      rw [reported_settled] at mem
      split at mem
      · rw [List.mem_singleton.mp mem] at asking
        exact absurd (.inr (.inr asking)) held
      · cases mem

theorem refused_stays {op : FrontierOp} {id : ℕ} (asking : s.queue.asking id = some .refused)
    (other : op ≠ .refuse id) : (s.step op).queue.asking id = some .refused := by
  rcases moves_step sound op with ⟨generation, rfl⟩ | ⟨generation, record, rfl⟩ | moves
  · simp only [step, FrontierQueue.step]
    split
    · exact asking
    · exact asking
  · rw [(request_leaves s generation record).2 id (sound.refused id asking).1, asking]
  · exact (moves.refused id).mpr ⟨asking, fun mem => other (refuse_of_reported sound asking mem)⟩

theorem request_refused {generation : ℕ} {record : Option RecordKey}
    (cannot : s.queue.retired.isSome = true ∨ s.queue.generation ≠ some generation) :
    (∃ id, s.queue.step (.request generation record) = (s.queue, .handed id []) ∧
        s.queue.outcome id = none ∧ record.isSome = true ∧
        (s.queue.requests id).record = record ∧ s.queue.retired = none ∧
        s.queue.generation = some (s.queue.requests id).generation) ∨
      (s.queue.step (.request generation record)).2 = .nothing ∧
        (s.step (.request generation record)).queue.asking (s.queue.nextId + 1) =
          some .refused := by
  simp only [step, FrontierQueue.step, FrontierQueue.request]
  split
  · rename_i id found
    rcases Option.bind_eq_some_iff.mp found with ⟨key, is, first⟩
    have mem := List.mem_of_find?_eq_some first
    have same := List.find?_some first
    simp only [Bool.and_eq_true, decide_eq_true_eq, Option.isNone_iff_eq_none] at same
    refine .inl ⟨id, rfl, same.2, is ▸ rfl, same.1.trans is.symm, ?_, sound.attached id mem⟩
    cases retired : s.queue.retired with
    | none => rfl
    | some why =>
      rw [sound.cleared (by rw [retired]; rfl)] at mem
      cases mem
  · right
    rw [if_pos (cannot.imp_right .inl)]
    exact ⟨rfl, Function.update_self _ _ _⟩

theorem no_open_after_retire {q' : FrontierQueue} (moves : Moves s.queue won q')
    (set : ∀ id ∈ s.queue.outstanding, q'.outcome id ≠ none) (id : ℕ) : ¬q'.Open id := by
  intro opened
  have later := (sound.moved moves).listed id opened
  exact set id (moves.fewer.subset later) opened.unset

theorem few_open {ids : List ℕ} (apart : ids.Nodup) (opened : ∀ id ∈ ids, s.queue.Open id) :
    ids.length ≤ maxOutstanding := by
  have within : ids ⊆ s.queue.outstanding := fun id mem => sound.listed id (opened id mem)
  exact (List.subperm_of_subset apart within).length_le.trans sound.few

end FrontierStory

open FrontierStory

/-- In every interleaving each request is settled by one call, which alone reports it, and the
outcome stays. At most 64 requests that were taken in are unsettled at any moment, and at most one
of a record. A request made after a retirement, before an attachment or for another generation is
held by its own call alone, which settles it before it returns it, or is an unsettled one of its
record, of the attached generation. A retirement leaves no request that anyone holds unsettled. -/
theorem frontier_requests_settle_once (ops : List FrontierOp) {s : FrontierStory}
    (reached : s = ops.foldl FrontierStory.step start) :
    (∀ id, s.reports.count id = if (s.queue.outcome id).isSome then 1 else 0) ∧
    (∀ op id outcome, s.queue.outcome id = some outcome →
      (s.step op).queue.outcome id = some outcome) ∧
    (∀ ids : List ℕ, ids.Nodup → (∀ id ∈ ids, s.queue.Open id) → ids.length ≤ maxOutstanding) ∧
    (∀ a b key, s.queue.Open a → s.queue.Open b → (s.queue.requests a).record = some key →
      (s.queue.requests b).record = some key → a = b) ∧
    (∀ generation record,
      s.queue.retired.isSome = true ∨ s.queue.generation ≠ some generation →
      (∃ id, s.queue.step (.request generation record) = (s.queue, .handed id []) ∧
          s.queue.outcome id = none ∧ record.isSome = true ∧
          (s.queue.requests id).record = record ∧ s.queue.retired = none ∧
          s.queue.generation = some (s.queue.requests id).generation) ∨
        (s.queue.step (.request generation record)).2 = .nothing ∧
          (s.step (.request generation record)).queue.asking (s.queue.nextId + 1) =
            some .refused) ∧
    (∀ id, s.queue.asking id = some .refused →
      s.queue.outcome id = none ∧
      (∀ op, op ≠ .refuse id → (s.step op).queue.asking id = some .refused) ∧
      (s.queue.step (.refuse id)).2 = .handed id [id] ∧
      (s.step (.refuse id)).queue.outcome id = some .missing) ∧
    (∀ why id, ¬(s.step (.retire why)).queue.Open id) ∧
    ∀ call, s.queue.asking call = some .unrung →
      ∀ id, ¬(s.step (.giveUp call)).queue.Open id := by
  have sound : Sound s := reached ▸ sound_run ops
  refine ⟨sound.once, fun op id outcome => outcome_stays sound op, fun ids => few_open sound, ?_,
    fun generation record => request_refused sound, ?_, ?_, ?_⟩
  · intro a b key aOpen bOpen
    exact sound.keyed a (sound.listed a aOpen) b (sound.listed b bOpen) aOpen.unset bOpen.unset key
  · intro id asking
    refine ⟨(sound.refused id asking).2.1, fun op other => refused_stays sound asking other, ?_⟩
    rw [FrontierStory.step, (moves_refuse sound asking).1]
    exact ⟨rfl, Function.update_self _ _ _⟩
  · intro why
    exact no_open_after_retire sound (moves_retire sound why).1 (moves_retire sound why).2.2
  · intro call asking
    rcases moves_step sound (.giveUp call) with ⟨_, is⟩ | ⟨_, _, is⟩ | moves
    · exact FrontierOp.noConfusion is
    · exact FrontierOp.noConfusion is
    · apply no_open_after_retire sound moves
      simp only [FrontierQueue.step, if_pos asking]
      exact (moves_retire sound .wake).2.2

/-- The second request is settled by the reader before the first one's wake fails. -/
def unrung : List FrontierOp :=
  [.attach 1, .request 1 (some 7), .request 1 none, .request 2 none, .settle 2 (.taken 5),
    .ring 1 false, .giveUp 1, .refuse 3]

theorem frontier_requests_settle_once_unrung :
    (unrung.foldl FrontierStory.step start).reports = [2, 1, 3] ∧
      ∀ id, (unrung.foldl FrontierStory.step start).reports.count id =
        if ((unrung.foldl FrontierStory.step start).queue.outcome id).isSome then 1 else 0 :=
  ⟨rfl, (frontier_requests_settle_once unrung rfl).1⟩

/-- A request for another generation gets back the unsettled one of its record, and two refused
requests of one record are unsettled together. -/
theorem frontier_requests_unsettled :
    (∃ s, s = [.attach 1, .request 1 (some 7)].foldl FrontierStory.step start ∧
        (s.queue.step (.request 2 (some 7))).2 = .handed 1 [] ∧
        (s.step (.request 2 (some 7))).queue.outcome 1 = none) ∧
      ∃ s, s = [.request 1 (some 7), .request 1 (some 7)].foldl FrontierStory.step start ∧
        s.queue.nextId = 2 ∧ (s.queue.requests 1).record = some 7 ∧
        (s.queue.requests 2).record = some 7 ∧ s.queue.outcome 1 = none ∧
        s.queue.outcome 2 = none :=
  ⟨⟨_, rfl, rfl, rfl⟩, _, rfl, rfl, rfl, rfl, rfl, rfl⟩

end AgentDeck.Probe
