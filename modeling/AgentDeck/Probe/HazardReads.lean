import AgentDeck.Probe.HazardWatch
import Mathlib.Data.List.Forall2

/-!
# Reading the hazard clock

`clear` and `entries` bring the clock up to date and let lapsed entries leave, which the next call
would do anyway. What a later call can see of an entry is its number, its acceptance and how long it
has been quiet; the running time itself may count from another start (`Same`). Bringing the clock up
to date twice is the same as once (`advance_advance`), so a reading at an instant between two calls
changes no later answer.
-/

namespace AgentDeck.Probe

inductive EntryView
  | latched (seq : ℕ)
  | quiet (seq : ℕ) (paused : Bool)
  deriving DecidableEq

def Entry.view (paused : Bool) (entry : Entry) : EntryView :=
  match entry.state with
  | .latched => .latched entry.seq
  | .quiet _ => .quiet entry.seq paused

/-- `entries`: the kept candidates still live, oldest first. -/
def HazardFifo.entriesAt (f : HazardFifo) (now : Instant) : List EntryView × HazardFifo :=
  ((f.advance now).entries.map (Entry.view (f.advance now).paused), f.advance now)

structure Reader where
  fifo : HazardFifo
  receipts : ℕ → HazardPop

/-- A call, the ones that only read included. -/
inductive HazardCall
  | op (made : HazardOp)
  | clearAt (now : Instant)
  | extra
  | exhausted

inductive HazardAnswer
  | nothing
  | number (seq : Option ℕ)
  | popped (pop : Pop) (receipt : HazardPop)
  | verdict (holds : Bool)
  | views (entries : List EntryView)
  | count (extra : ℕ)
  deriving DecidableEq

def HazardCall.now? : HazardCall → Option Instant
  | .op made => made.now?
  | .clearAt now => some now
  | .extra | .exhausted => none

def HazardCall.reads : HazardCall → Bool
  | .op (.clear _) | .op (.entries _) => true
  | _ => false

namespace Reader

def start : Reader := ⟨.default, fun _ => .unspent⟩

def popped (r : Reader) (receipt : ℕ) (result : Pop × HazardPop × HazardFifo) :
    HazardAnswer × Reader :=
  (.popped result.1 result.2.1, ⟨result.2.2, Function.update r.receipts receipt result.2.1⟩)

def call (r : Reader) : HazardCall → HazardAnswer × Reader
  | .op .number => (.number r.fifo.number.1, { r with fifo := r.fifo.number.2 })
  | .op (.enter seq now backlog) => (.nothing, { r with fifo := r.fifo.enter seq now backlog })
  | .op (.accept now backlog) =>
    (.number (r.fifo.accept now backlog).1, { r with fifo := (r.fifo.accept now backlog).2 })
  | .op (.latch now) => (.nothing, { r with fifo := r.fifo.latch now })
  | .op (.recordsPending now pending) =>
    (.nothing, { r with fifo := r.fifo.recordsPending now pending })
  | .op (.popReported receipt nativeSeen now) =>
    r.popped receipt (r.fifo.popReported (r.receipts receipt) nativeSeen now)
  | .op (.popAtDrain receipt birthFloor now) =>
    r.popped receipt (r.fifo.popAtDrain (r.receipts receipt) birthFloor now)
  | .op (.clear now) => (.verdict (r.fifo.clear now).1, { r with fifo := (r.fifo.clear now).2 })
  | .op (.entries now) =>
    (.views (r.fifo.entriesAt now).1, { r with fifo := (r.fifo.entriesAt now).2 })
  | .clearAt now => (.verdict (r.fifo.clearAt now), r)
  | .extra => (.count r.fifo.extra, r)
  | .exhausted => (.verdict r.fifo.exhausted, r)

def run (r : Reader) (calls : List HazardCall) : Reader :=
  calls.foldl (fun r call => (r.call call).2) r

end Reader

/-! ## What a call can see -/

/-- Two entries that differ only in where their running time counts from. -/
inductive SameEntry (run other : ℕ) : Entry → Entry → Prop
  | latched (seq : ℕ) (accepted : Instant) :
      SameEntry run other ⟨seq, accepted, .latched⟩ ⟨seq, accepted, .latched⟩
  | quiet (seq : ℕ) (accepted : Instant) {since otherSince : ℕ} (within : since ≤ run)
      (otherWithin : otherSince ≤ other) (age : run - since = other - otherSince) :
      SameEntry run other ⟨seq, accepted, .quiet since⟩ ⟨seq, accepted, .quiet otherSince⟩

namespace SameEntry

variable {run other third : ℕ} {left right last : Entry}

variable (same : SameEntry run other left right)

include same

theorem symm : SameEntry other run right left := by
  cases same with
  | latched seq accepted => exact .latched seq accepted
  | quiet seq accepted within otherWithin age =>
    exact .quiet seq accepted otherWithin within age.symm

omit same in
theorem trans (first : SameEntry run other left right) (second : SameEntry other third right last) :
    SameEntry run third left last := by
  cases first with
  | latched seq accepted =>
    cases second
    exact .latched seq accepted
  | quiet seq accepted within otherWithin age =>
    cases second with
    | quiet _ _ _ lastWithin later =>
      exact .quiet seq accepted within lastWithin (age.trans later)

theorem later (span : ℕ) : SameEntry (run + span) (other + span) left right := by
  cases same with
  | latched seq accepted => exact .latched seq accepted
  | quiet seq accepted within otherWithin age =>
    refine .quiet seq accepted (within.trans (Nat.le_add_right _ _))
      (otherWithin.trans (Nat.le_add_right _ _)) ?_
    omega

theorem live_eq : left.live run = right.live other := by
  cases same with
  | latched seq accepted => rfl
  | quiet seq accepted within otherWithin age => simp only [Entry.live, age]

theorem view_eq (paused : Bool) : left.view paused = right.view paused := by
  cases same <;> rfl

end SameEntry

theorem Entry.live_of_le {run other : ℕ} (grows : run ≤ other) {entry : Entry}
    (live : entry.live other) : entry.live run := by
  rcases entry with ⟨seq, accepted, state⟩
  cases state with
  | latched => rfl
  | quiet since =>
    simp only [Entry.live, decide_eq_true_eq] at live ⊢
    exact (Nat.sub_le_sub_right grows _).trans live

theorem forall₂_filter {run other : Duration} {left right : List Entry}
    (same : List.Forall₂ (SameEntry run other) left right) :
    List.Forall₂ (SameEntry run other) (left.filter (Entry.live run))
      (right.filter (Entry.live other)) := by
  induction same with
  | nil => exact List.Forall₂.nil
  | cons head _ ih =>
    rw [List.filter_cons, List.filter_cons, head.live_eq]
    split
    · exact List.Forall₂.cons head ih
    · exact ih

namespace HazardFifo

variable {f g h : HazardFifo} {now : Instant}

structure Same (f g : HazardFifo) : Prop where
  entries : List.Forall₂ (SameEntry f.run g.run) f.entries g.entries
  extra : f.extra = g.extra
  newestExtra : f.newestExtra = g.newestExtra
  newestExtraAccept : f.newestExtraAccept = g.newestExtraAccept
  nativeSeq : f.nativeSeq = g.nativeSeq
  exhausted : f.exhausted = g.exhausted
  mark : f.mark = g.mark
  latest : f.latest = g.latest
  paused : f.paused = g.paused

theorem Same.symm (same : Same f g) : Same g f :=
  ⟨List.Forall₂.flip (same.entries.imp fun _ _ entry => entry.symm), same.extra.symm,
    same.newestExtra.symm, same.newestExtraAccept.symm, same.nativeSeq.symm, same.exhausted.symm,
    same.mark.symm, same.latest.symm, same.paused.symm⟩

variable {left right : List Entry}

theorem forall₂_trans {run other third : Duration} {last : List Entry}
    (first : List.Forall₂ (SameEntry run other) left right)
    (second : List.Forall₂ (SameEntry other third) right last) :
    List.Forall₂ (SameEntry run third) left last := by
  induction first generalizing last with
  | nil =>
    cases second
    exact List.Forall₂.nil
  | cons head _ ih =>
    cases second with
    | cons next rest => exact List.Forall₂.cons (head.trans next) (ih rest)

theorem Same.trans (first : Same f g) (second : Same g h) : Same f h :=
  ⟨forall₂_trans first.entries second.entries, first.extra.trans second.extra,
    first.newestExtra.trans second.newestExtra,
    first.newestExtraAccept.trans second.newestExtraAccept,
    first.nativeSeq.trans second.nativeSeq, first.exhausted.trans second.exhausted,
    first.mark.trans second.mark, first.latest.trans second.latest,
    first.paused.trans second.paused⟩

theorem Same.runAt (same : Same f g) (now : Instant) :
    ∃ span, f.runAt now = f.run + span ∧ g.runAt now = g.run + span := by
  simp only [HazardFifo.runAt, same.paused, same.mark]
  split
  · exact ⟨_, rfl, rfl⟩
  · exact ⟨0, rfl, rfl⟩

theorem Same.reach (same : Same f g) (now : Instant) : f.reach now = g.reach now := by
  simp only [HazardFifo.reach, same.latest]

theorem Same.advance (same : Same f g) (now : Instant) : Same (f.advance now) (g.advance now) := by
  rcases same.runAt (g.reach now) with ⟨span, left, right⟩
  have entries : List.Forall₂ (SameEntry (f.run + span) (g.run + span)) f.entries g.entries :=
    same.entries.imp fun _ _ entry => entry.later span
  simp only [HazardFifo.advance, same.reach, left, right, same.mark, same.paused]
  exact ⟨forall₂_filter entries, same.extra, same.newestExtra, same.newestExtraAccept,
    same.nativeSeq, same.exhausted, rfl, rfl, rfl⟩

/-- What holds of the clock and of the quiet entries. -/
structure Sane (f : HazardFifo) : Prop where
  within : ∀ entry ∈ f.entries, ∀ since, entry.state = .quiet since → since ≤ f.run
  marked : ∀ mark, f.mark = some mark → ∃ latest, f.latest = some latest ∧ mark ≤ latest
  unmarked : f.mark = none → f.paused = false → f.entries = []

theorem default_sane : Sane default where
  within := by
    intro entry mem
    cases mem
  marked := by
    intro mark marked
    cases marked
  unmarked := fun _ _ => rfl

theorem Sane.same (sane : Sane f) : Same f f := by
  refine ⟨?_, rfl, rfl, rfl, rfl, rfl, rfl, rfl, rfl⟩
  rw [List.forall₂_same]
  intro entry mem
  rcases entry with ⟨seq, accepted, state⟩
  cases state with
  | latched => exact .latched seq accepted
  | quiet since =>
    have within := sane.within _ mem since rfl
    exact .quiet seq accepted within within rfl

theorem run_le_runAt (f : HazardFifo) (now : Instant) : f.run ≤ f.runAt now := by
  simp only [runAt]
  split
  · exact Nat.le_add_right _ _
  · exact le_refl _

theorem Sane.advance (sane : Sane f) (now : Instant) : Sane (f.advance now) where
  within := by
    intro entry mem since quiet
    exact (sane.within entry (List.mem_of_mem_filter mem) since quiet).trans (run_le_runAt f _)
  marked := by
    intro mark marked
    refine ⟨_, rfl, ?_⟩
    simp only [HazardFifo.advance] at marked
    split at marked
    · rcases sane.marked mark marked with ⟨latest, found, before⟩
      simp only [reach, found]
      exact before.trans (le_max_left _ _)
    · cases marked
      exact le_refl _
  unmarked := by
    intro unmarked running
    simp only [HazardFifo.advance] at unmarked running
    rw [running] at unmarked
    cases unmarked

theorem spans_add (run : ℕ) {mark before now : ℕ} (past : mark ≤ before) (onward : before ≤ now) :
    run + (before - mark) + (now - before) = run + (now - mark) := by omega

/-- Bringing the clock up to date on the way changes nothing later. -/
theorem advance_advance (sane : Sane f) {before : Instant} (onward : before ≤ now)
    (reached : ∀ latest, f.latest = some latest → latest ≤ before) :
    Same ((f.advance before).advance now) (f.advance now) := by
  have reachBefore : f.reach before = before := by
    simp only [reach]
    split
    · rename_i latest found
      exact max_eq_right (reached latest found)
    · rfl
  have reachNow : f.reach now = now := by
    simp only [reach]
    split
    · rename_i latest found
      exact max_eq_right ((reached latest found).trans onward)
    · rfl
  have reachAgain : (f.advance before).reach now = now := by
    show max (f.reach before) now = now
    rw [reachBefore]
    exact max_eq_right onward
  by_cases lapsed : f.mark = none ∧ f.paused = false
  · -- The clock has not started: nothing is kept, and it starts at another instant.
    have empty := sane.unmarked lapsed.1 lapsed.2
    have left : ((f.advance before).advance now).entries = [] := by
      simp only [advance, empty, List.filter_nil]
    have right : (f.advance now).entries = [] := by
      simp only [advance, empty, List.filter_nil]
    refine ⟨?_, rfl, rfl, rfl, rfl, rfl, ?_, ?_, rfl⟩
    · rw [left, right]
      exact List.Forall₂.nil
    · show (if f.paused then (f.advance before).mark else some ((f.advance before).reach now)) = _
      rw [reachAgain]
      simp only [advance, reachNow, lapsed.2, Bool.false_eq_true, if_false]
    · show some ((f.advance before).reach now) = some (f.reach now)
      rw [reachAgain, reachNow]
  · have runs : (f.advance before).runAt now = f.runAt now := by
      simp only [runAt, advance, reachBefore]
      cases paused : f.paused with
      | true => rfl
      | false =>
        cases marked : f.mark with
        | none => exact absurd ⟨marked, paused⟩ lapsed
        | some mark =>
          rcases sane.marked mark marked with ⟨latest, found, order⟩
          have past := order.trans (reached latest found)
          exact spans_add f.run past onward
    have grows : f.runAt before ≤ f.runAt now := by
      simp only [runAt]
      split
      · exact Nat.add_le_add_left (Nat.sub_le_sub_right onward _) _
      · exact le_refl _
    have same : (f.advance before).advance now = f.advance now := by
      have entries : ((f.entries.filter (Entry.live (f.runAt before))).filter
          (Entry.live (f.runAt now))) = f.entries.filter (Entry.live (f.runAt now)) := by
        rw [List.filter_filter]
        apply List.filter_congr
        intro entry _
        rw [Bool.and_eq_left_iff_imp]
        exact Entry.live_of_le grows
      simp only [advance, reachBefore] at reachAgain runs
      simp only [advance, reachBefore, reachNow, reachAgain, runs, entries]
      cases f.paused <;> rfl
    rw [same]
    exact (sane.advance now).same

/-! ## What each call does to an advanced clock -/

variable (same : Same (f.advance now) (g.advance now))

include same

theorem Same.enter (seq : ℕ) (backlog : Bool) :
    Same (f.enter seq now backlog) (g.enter seq now backlog) := by
  have length := same.entries.length_eq
  simp only [HazardFifo.enter, same.extra, length]
  split
  · split
    · exact ⟨same.entries, rfl, rfl, rfl, same.nativeSeq, same.exhausted, same.mark, same.latest,
        same.paused⟩
    · exact ⟨same.entries, rfl, rfl, rfl, same.nativeSeq, rfl, same.mark, same.latest,
        same.paused⟩
  · refine ⟨List.rel_append same.entries ?_, rfl, same.newestExtra, same.newestExtraAccept,
      same.nativeSeq, same.exhausted, same.mark, same.latest, same.paused⟩
    apply List.Forall₂.cons _ List.Forall₂.nil
    cases backlog with
    | true => exact .latched seq now
    | false => exact .quiet seq now (le_refl _) (le_refl _) (by rw [Nat.sub_self, Nat.sub_self])

omit same in
theorem forall₂_latch {run other : ℕ} (same : List.Forall₂ (SameEntry run other) left right) :
    List.Forall₂ (SameEntry run other) (left.map fun entry => { entry with state := .latched })
      (right.map fun entry => { entry with state := .latched }) := by
  induction same with
  | nil => exact List.Forall₂.nil
  | cons head _ ih =>
    refine List.Forall₂.cons ?_ ih
    cases head <;> exact .latched _ _

theorem Same.latch : Same (f.latch now) (g.latch now) :=
  ⟨forall₂_latch same.entries, same.extra, same.newestExtra, same.newestExtraAccept,
    same.nativeSeq, same.exhausted, same.mark, same.latest, same.paused⟩

theorem Same.recordsPending (pending : Bool) :
    Same (f.recordsPending now pending) (g.recordsPending now pending) := by
  have reached : f.reach now = g.reach now := Option.some.inj same.latest
  simp only [HazardFifo.recordsPending, same.paused, reached]
  split
  · exact ⟨same.entries, same.extra, same.newestExtra, same.newestExtraAccept, same.nativeSeq,
      same.exhausted, rfl, same.latest, rfl⟩
  · exact same

omit same in
theorem Same.popExtra (same : Same f g) : Same f.popExtra g.popExtra := by
  simp only [HazardFifo.popExtra, same.extra]
  split
  · exact ⟨same.entries, rfl, rfl, rfl, same.nativeSeq, same.exhausted, same.mark, same.latest,
      same.paused⟩
  · exact ⟨same.entries, rfl, same.newestExtra, same.newestExtraAccept, same.nativeSeq,
      same.exhausted, same.mark, same.latest, same.paused⟩

theorem Same.popIf (receipt : HazardPop) {kept : Entry → Bool} {counted : HazardFifo → Bool}
    (keptSame : ∀ run other left right, SameEntry run other left right → kept left = kept right)
    (countedSame : ∀ f g, Same f g → counted f = counted g) :
    (f.popIf receipt now kept counted).1 = (g.popIf receipt now kept counted).1 ∧
      (f.popIf receipt now kept counted).2.1 = (g.popIf receipt now kept counted).2.1 ∧
      Same (f.popIf receipt now kept counted).2.2 (g.popIf receipt now kept counted).2.2 := by
  have counts := countedSame _ _ same
  have entries := same.entries
  simp only [HazardFifo.popIf, counts, same.extra]
  split
  · exact ⟨rfl, rfl, same⟩
  · cases left : (f.advance now).entries with
    | nil =>
      rw [left] at entries
      have right := List.forall₂_nil_left_iff.mp entries
      simp only [right]
      split
      · exact ⟨rfl, rfl, same.popExtra⟩
      · exact ⟨rfl, rfl, same⟩
    | cons entry rest =>
      rw [left] at entries
      rcases List.forall₂_cons_left_iff.mp entries with ⟨other, others, head, tail, right⟩
      simp only [right, keptSame _ _ _ _ head]
      split
      · refine ⟨?_, ?_, ⟨tail, rfl, same.newestExtra, same.newestExtraAccept,
          same.nativeSeq, same.exhausted, same.mark, same.latest, same.paused⟩⟩ <;>
        cases head <;> rfl
      · exact ⟨rfl, rfl, same⟩

theorem Same.clear : (f.clear now).1 = (g.clear now).1 := by
  have empty : (f.advance now).entries.isEmpty = (g.advance now).entries.isEmpty := by
    have length := same.entries.length_eq
    rw [Bool.eq_iff_iff, List.isEmpty_iff_length_eq_zero, List.isEmpty_iff_length_eq_zero, length]
  simp only [HazardFifo.clear, same.exhausted, empty, same.extra]

omit same in
theorem map_view_eq {run other : ℕ} (same : List.Forall₂ (SameEntry run other) left right)
    (paused : Bool) : left.map (Entry.view paused) = right.map (Entry.view paused) := by
  induction same with
  | nil => rfl
  | cons head _ ih => rw [List.map_cons, List.map_cons, head.view_eq, ih]

theorem Same.entriesAt : (f.entriesAt now).1 = (g.entriesAt now).1 := by
  simp only [HazardFifo.entriesAt, same.paused]
  exact map_view_eq same.entries _

end HazardFifo

end AgentDeck.Probe
