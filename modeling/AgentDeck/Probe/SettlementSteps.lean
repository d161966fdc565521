import AgentDeck.Probe.Settlement

/-!
# Each step of the settlement

What a probe's number stands for: an open segment, a parked read, or a settled check. Every step
keeps a probe in one of them only, and counts no failure of it twice.
-/

namespace AgentDeck.Probe

open Serial (Ticket Queue Chain Sound Origin)

namespace Segments

/-- The endings only grow, and a probe that newly completed has one. -/
structure Books (s s' : Segments) : Prop where
  ended : ∀ e ∈ s.ended, e ∈ s'.ended
  completed : ∀ x ∈ s'.completed, x ∈ s.completed ∨ ∃ e ∈ s'.ended, e.number = some x.1

theorem Books.of_same {s s' : Segments} (completed : s'.completed = s.completed)
    (ended : ∃ fresh, s'.ended = s.ended ++ fresh) : Books s s' := by
  rcases ended with ⟨fresh, is⟩
  refine ⟨fun e mem => is ▸ List.mem_append_left _ mem, ?_⟩
  intro x mem
  rw [completed] at mem
  exact .inl mem

theorem Books.of_eq {s s' : Segments} (completed : s'.completed = s.completed)
    (ended : s'.ended = s.ended) : Books s s' :=
  .of_same completed ⟨[], by rw [ended, List.append_nil]⟩

theorem Books.trans {s s₁ s' : Segments} (first : Books s s₁) (second : Books s₁ s') :
    Books s s' := by
  refine ⟨fun e mem => second.ended e (first.ended e mem), ?_⟩
  intro x mem
  rcases second.completed x mem with mem | new
  · rcases first.completed x mem with mem | ⟨e, ended, number⟩
    · exact .inl mem
    · exact .inr ⟨e, second.ended e ended, number⟩
  · exact .inr new

theorem settleAll_books (runs : RecordKey → Bool) (now : Instant) (segs : List Segment)
    (s : Segments) (records : Records) (fifo : HazardFifo) :
    Books s (settleAll runs now segs s records fifo).1 := by
  induction segs generalizing s records fifo with
  | nil => exact .of_eq rfl rfl
  | cons seg rest ih =>
    unfold settleAll
    split
    · rename_i number offset time isNumber isWritten
      have ticket := ticket_matchFront s records seg number time
      generalize s.matchFront records seg number time = matched at ticket
      rcases matched with ⟨matched, editors, records'⟩
      simp only at ticket ⊢
      have settled := ticket_settleFront { s with editors := editors } runs now records' fifo
        matched number
      split
      · exact .of_eq rfl rfl
      · rename_i settled' key records'' fifo'' settles
        rw [settles] at settled
        refine .trans ?_ (ih _ _ _)
        refine ⟨fun e mem => List.mem_append_left _ mem, ?_⟩
        intro x mem
        split at mem
        · rcases List.mem_append.mp mem with mem | mem
          · exact .inl mem
          · refine .inr ⟨settled'.end_ .written, ?_, ?_⟩
            · exact List.mem_append_right _ (List.mem_singleton_self _)
            · rcases ticket with ⟨mark, _, is⟩
              have same : settled'.number = seg.number :=
                congrArg Ticket.number (settled.trans is)
              rw [List.mem_singleton.mp mem]
              exact same.trans isNumber
        · exact .inl mem
    · exact .of_eq rfl rfl

theorem evaluate_books (s : Segments) (runs : RecordKey → Bool) (records : Records)
    (fifo : HazardFifo) (now : Instant) : Books s (s.evaluate runs records fifo now).1 :=
  settleAll_books runs now _ s records fifo

theorem onOutput_books (runs : ℕ → RecordKey → Bool) (now : Instant) (seen : List Seen) (place : ℕ)
    (s : Segments) (records : Records) (fifo : HazardFifo) :
    Books s (onOutput runs now place seen s records fifo).1 := by
  induction seen generalizing place s records fifo with
  | nil => exact .of_eq rfl rfl
  | cons marker rest ih =>
    unfold onOutput
    split
    · exact .of_eq rfl rfl
    · refine .trans ?_ (ih _ _ _ _)
      refine .trans ?_ (evaluate_books _ (runs place) records fifo now)
      unfold noteMarker
      split
      · exact .of_eq rfl rfl
      · exact .of_eq rfl rfl

theorem endWhere_books (s : Segments) (which : Segment → Bool) (outcome : SegmentOutcome) :
    Books s (s.endWhere which outcome).2 :=
  .of_same rfl ⟨_, rfl⟩

end Segments

/-- What the generation's input calls in steps of its own. -/
def SegmentsOp.stepped : SegmentsOp → Bool
  | .openProbe _ _ => false
  | .undecide _ => false
  | .takeDecidedProbes => false
  | .takeCompletedProbes => false
  | .takeEnded => false
  | .retire => false
  | _ => true

open Segments in
/-- Every stepped operation keeps the books. -/
theorem SegmentsOp.run_books (op : SegmentsOp) (stepped : op.stepped) (s : Segments)
    (records : Records) (fifo : HazardFifo) : Books s (op.run s records fifo).2.1 := by
  cases op with
  | openHumanG op =>
    simp only [run, Segments.openHumanG]
    repeat' split
    all_goals exact .of_eq rfl rfl
  | openCut =>
    simp only [run, Segments.openCut]
    repeat' split
    all_goals exact .of_eq rfl rfl
  | openHeldTrigger =>
    simp only [run, Segments.openHeldTrigger]
    repeat' split
    all_goals exact .of_eq rfl rfl
  | nextTrigger =>
    simp only [run, Segments.nextTrigger]
    repeat' split
    all_goals exact .of_eq rfl rfl
  | written runs number offset time now =>
    simp only [run, Segments.written]
    split
    · exact .of_eq rfl rfl
    · refine .trans ?_ (evaluate_books _ runs records fifo now)
      exact .of_eq rfl rfl
  | writeFailed number =>
    simp only [run, Segments.writeFailed]
    split
    · exact .of_eq rfl rfl
    · rename_i place seg _
      have first : Books s (s.endAt place seg .writeFailed) := .of_same rfl ⟨_, rfl⟩
      split
      · exact first.trans (endWhere_books _ _ _)
      · exact first
  | withdrawn number =>
    simp only [run, Segments.withdrawn]
    split
    · exact .of_eq rfl rfl
    · exact .of_same rfl ⟨_, rfl⟩
  | cancelled op => exact endWhere_books s _ _
  | onOutput runs seen now => exact onOutput_books runs now seen 0 s records fifo
  | settle runs now =>
    simp only [run, Segments.settle]
    split
    · exact .of_eq rfl rfl
    · exact evaluate_books s runs records fifo now
  | drained runs again fact now =>
    simp only [run, Segments.drained]
    split
    · exact .of_eq rfl rfl
    · split
      · exact .of_eq rfl rfl
      · refine .trans (evaluate_books s runs records fifo now) ?_
        refine .trans ?_ (evaluate_books _ again _ _ now)
        exact .of_eq rfl rfl
  | editorReport runs again key editor now =>
    simp only [run, Segments.editorReport]
    split
    · exact .of_eq rfl rfl
    · refine .trans (evaluate_books s runs records fifo now) ?_
      split
      · refine .trans ?_ (evaluate_books _ again _ _ now)
        exact .of_eq rfl rfl
      · unfold noteEditor
        split
        · exact .of_eq rfl rfl
        · exact .of_eq rfl rfl
  | noteCookedLine number run => exact .of_eq rfl rfl
  | refuseBehind =>
    simp only [run, Segments.refuseBehind]
    split
    · exact .of_same rfl ⟨_, rfl⟩
    · exact .of_eq rfl rfl
  | refuseSignalBehind =>
    simp only [run, Segments.refuseSignalBehind]
    split
    · exact .of_eq rfl rfl
    · exact .of_same rfl ⟨_, rfl⟩
  | _ => exact absurd stepped Bool.false_ne_true

namespace Checks

def waiting (c : Checks) : List ℕ := c.parked.map fun p => p.probe.number

/-- The numbers of the open probes, the parked reads and the settled checks. -/
def known (c : Checks) : List ℕ := c.probes.map LiveProbe.number ++ c.waiting ++ c.settled

/-- A number that no open segment has, unless it matched. -/
def Matched (c : Checks) (number : ℕ) : Prop :=
  ∀ seg ∈ c.segments.segments, seg.number = some number → seg.record.isSome = true

/-- A number of an open segment, or of one whose ending is not taken yet. -/
def Tracked (c : Checks) (number : ℕ) : Prop :=
  (∃ seg ∈ c.segments.segments, seg.number = some number) ∨
    ∃ e ∈ c.segments.ended, e.number = some number

def Pending (c : Checks) (number : ℕ) : Prop :=
  number ∈ c.probes.map LiveProbe.number ∨ number ∈ c.waiting ∨
    ∃ seg ∈ c.segments.segments, seg.number = some number

structure Kept (c : Checks) : Prop where
  queue : ∃ taken handed wrote,
    Sound segmentCap Entitled (c.segments.queue taken handed wrote) ∧
    ∀ x ∈ c.segments.completed, ∃ e ∈ taken ++ c.segments.ended, e.number = some x.1
  bound : ∀ n ∈ c.known, n ≤ c.segments.last
  failedBound : ∀ n ∈ c.failures, n ≤ c.segments.last
  once : c.known.Nodup
  tracked : ∀ n ∈ c.probes.map LiveProbe.number, c.Tracked n
  outstanding : ∀ seg ∈ c.segments.segments, seg.kind = .probe →
    ∀ n ∈ c.probes.map LiveProbe.number ++ c.waiting, seg.number = some n
  matched : ∀ n ∈ c.waiting ++ c.settled, c.Matched n
  counted : ∀ n ∈ c.failures, n ∉ c.settled → c.Pending n → c.lapseCounted = some n
  failures : c.failures.Nodup

theorem new_kept (generation : ℕ) (agent : Agent) : (new generation agent).Kept where
  queue := ⟨[], [], [], Serial.empty_sound, fun _ mem => absurd mem List.not_mem_nil⟩
  bound _ mem := absurd mem List.not_mem_nil
  failedBound _ mem := absurd mem List.not_mem_nil
  once := List.nodup_nil
  tracked _ mem := absurd mem List.not_mem_nil
  outstanding _ mem := absurd mem List.not_mem_nil
  matched _ mem := absurd mem List.not_mem_nil
  counted _ mem := absurd mem List.not_mem_nil
  failures := List.nodup_nil

namespace Kept

variable {c : Checks}

theorem was_open {s s' : Segments} {taken taken' : List Ended}
    {handed handed' wrote wrote' : List ℕ}
    (chain : Chain segmentCap Human Plain (s.queue taken handed wrote)
      (s'.queue taken' handed' wrote')) {seg' : Segment} (mem : seg' ∈ s'.segments) :
    (∃ seg ∈ s.segments, seg.ticket.Ages seg'.ticket ∧
      ∀ n, seg'.number = some n → n ≤ s.last → seg.number = some n) ∨
    seg'.kind = .humanG ∧ ∀ n, seg'.number = some n → ¬n ≤ s.last := by
  rcases chain.origin.2 seg'.ticket (List.mem_map_of_mem mem) with
    ⟨was, there, ages, number⟩ | ⟨⟨mark, fresh, grows⟩, later⟩
  · rcases List.mem_map.mp there with ⟨seg, stands, rfl⟩
    refine .inl ⟨seg, stands, ages, ?_⟩
    intro n is below
    rcases number n is with same | new
    · exact same
    · exact absurd new (Nat.not_lt.mpr below)
  · refine .inr ⟨grows.1.trans fresh.1, ?_⟩
    intro n is
    exact Nat.not_le.mpr (later n is)

theorem tracked_of_chain {s s' : Segments} {taken : List Ended}
    {handed handed' wrote wrote' : List ℕ}
    (sound : Sound segmentCap Entitled (s.queue taken handed wrote))
    (chain : Chain segmentCap Human Plain (s.queue taken handed wrote)
      (s'.queue taken handed' wrote')) {seg : Segment} (mem : seg ∈ s.segments) {n : ℕ}
    (is : seg.number = some n) :
    (∃ seg' ∈ s'.segments, seg'.number = some n) ∨ ∃ e ∈ s'.ended, e.number = some n := by
  have here : Serial.Remains Plain seg.ticket (s.queue taken handed wrote) :=
    .inl ⟨seg.ticket, List.mem_map_of_mem mem, Ticket.Ages.refl _⟩
  rcases here.chain chain with ⟨t', stands, ages⟩ | ⟨t', ages, label, _, closed⟩
  · rcases List.mem_map.mp stands with ⟨seg', there, rfl⟩
    exact .inl ⟨seg', there, ages.number n is⟩
  · rcases List.mem_map.mp closed with ⟨e, ended, same⟩
    have number : e.number = some n := (congrArg Serial.Closed.number same).trans (ages.number n is)
    rcases List.mem_append.mp ended with old | new
    · -- a ticket that was open has no ending before
      have tag : e.tag = seg.tag := (congrArg Serial.Closed.tag same).trans ages.tag
      have before : e.tag ∈ (s.queue taken handed wrote).log.map Serial.Closed.tag := by
        refine List.mem_map.mpr ⟨e.closed, ?_, rfl⟩
        exact List.mem_map_of_mem (List.mem_append_left _ old)
      have stands : seg.tag ∈ (s.queue taken handed wrote).waiting.map Ticket.tag :=
        List.mem_map.mpr ⟨seg.ticket, List.mem_map_of_mem mem, rfl⟩
      exact absurd tag ((List.nodup_append.mp sound.tags_nodup).2.2 _ before _ stands)
    · exact .inr ⟨e, new, number⟩

theorem of_chain (kept : c.Kept) {s' : Segments}
    (chain : ∀ taken handed wrote,
      Sound segmentCap Entitled (c.segments.queue taken handed wrote) → ∃ handed' wrote',
        Chain segmentCap Human Plain (c.segments.queue taken handed wrote)
          (s'.queue taken handed' wrote'))
    (books : Segments.Books c.segments s') : Kept { c with segments := s' } := by
  rcases kept.queue with ⟨taken, handed, wrote, sound, completed⟩
  rcases chain taken handed wrote sound with ⟨handed', wrote', chain⟩
  have last : c.segments.last ≤ s'.last := chain.origin.1
  -- an open segment with a known number had it before
  have before : ∀ seg' ∈ s'.segments, ∀ n, seg'.number = some n → n ≤ c.segments.last →
      ∃ seg ∈ c.segments.segments, seg.number = some n ∧ seg.ticket.Ages seg'.ticket := by
    intro seg' mem n is below
    rcases was_open chain mem with ⟨seg, there, ages, number⟩ | ⟨_, later⟩
    · exact ⟨seg, there, number n is below, ages⟩
    · exact absurd below (later n is)
  refine ⟨⟨taken, handed', wrote', ?_, ?_⟩, ?_, ?_, kept.once, ?_, ?_, ?_, ?_, kept.failures⟩
  · exact sound.chain (chain.mono (fun _ fresh => fresh) fun _ _ allowed => allowed.1)
  · intro x mem
    rcases books.completed x mem with mem | ⟨e, ended, number⟩
    · rcases completed x mem with ⟨e, ended, number⟩
      refine ⟨e, ?_, number⟩
      rcases List.mem_append.mp ended with mem | mem
      · exact List.mem_append_left _ mem
      · exact List.mem_append_right _ (books.ended e mem)
    · exact ⟨e, List.mem_append_right _ ended, number⟩
  · intro n mem
    exact Nat.le_trans (kept.bound n mem) last
  · intro n mem
    exact Nat.le_trans (kept.failedBound n mem) last
  · intro n mem
    rcases kept.tracked n mem with ⟨seg, there, is⟩ | ⟨e, ended, is⟩
    · exact tracked_of_chain sound chain there is
    · exact .inr ⟨e, books.ended e ended, is⟩
  · intro seg' mem isProbe n known
    rcases was_open chain mem with ⟨seg, there, ages, _⟩ | ⟨human, _⟩
    · have kind : seg'.kind = seg.kind := ages.mark.1
      have number := kept.outstanding seg there (kind ▸ isProbe) n known
      exact ages.number n number
    · rw [human] at isProbe
      exact SegmentKind.noConfusion isProbe
  · intro n known seg' mem is
    have below : n ≤ c.segments.last := by
      refine kept.bound n ?_
      simp only [Checks.known, List.append_assoc]
      exact List.mem_append_right _ known
    rcases before seg' mem n is below with ⟨seg, there, number, ages⟩
    have had := kept.matched n known seg there number
    rcases Option.isSome_iff_exists.mp had with ⟨key, record⟩
    exact Option.isSome_iff_exists.mpr ⟨key, ages.mark.2 key record⟩
  · intro n failed notSettled pending
    refine kept.counted n failed notSettled ?_
    rcases pending with probe | parked | ⟨seg', mem, is⟩
    · exact .inl probe
    · exact .inr (.inl parked)
    · rcases before seg' mem n is (kept.failedBound n failed) with ⟨seg, there, number, _⟩
      exact .inr (.inr ⟨seg, there, number⟩)

/-- The numbers move on or go, and at most one failure is counted, of a check that settles. -/
theorem moved (kept : c.Kept) {c' : Checks} (segments : c'.segments = c.segments)
    (known : ∃ gone, (c'.known ++ gone).Perm c.known)
    (probes : ∀ n ∈ c'.probes.map LiveProbe.number, n ∈ c.probes.map LiveProbe.number)
    (waiting : ∀ n ∈ c'.waiting, n ∈ c.probes.map LiveProbe.number ++ c.waiting)
    (matched : ∀ n ∈ c'.waiting ++ c'.settled, n ∈ c.waiting ++ c.settled ∨ c.Matched n)
    (settled : ∀ n ∈ c.settled, n ∈ c'.settled) (lapse : c'.lapseCounted = c.lapseCounted)
    (failures : c'.failures = c.failures ∨ ∃ n ∈ c'.settled,
      n ∈ c.known ∧ n ∉ c.failures ∧ c'.failures = c.failures ++ [n]) : c'.Kept := by
  rcases known with ⟨gone, perm⟩
  have mem_known : ∀ n ∈ c'.known, n ∈ c.known :=
    fun n mem => perm.mem_iff.mp (List.mem_append_left _ mem)
  have outstanding : ∀ n ∈ c'.probes.map LiveProbe.number ++ c'.waiting,
      n ∈ c.probes.map LiveProbe.number ++ c.waiting := by
    intro n mem
    rcases List.mem_append.mp mem with mem | mem
    · exact List.mem_append_left _ (probes n mem)
    · exact waiting n mem
  refine ⟨?_, ?_, ?_, ?_, ?_, ?_, ?_, ?_, ?_⟩
  · rw [segments]
    exact kept.queue
  · intro n mem
    rw [segments]
    exact kept.bound n (mem_known n mem)
  · intro n mem
    rw [segments]
    rcases failures with same | ⟨m, _, isKnown, _, new⟩
    · rw [same] at mem
      exact kept.failedBound n mem
    · rw [new] at mem
      rcases List.mem_append.mp mem with mem | mem
      · exact kept.failedBound n mem
      · rw [List.mem_singleton.mp mem]
        exact kept.bound m isKnown
  · exact (List.nodup_append.mp (perm.nodup_iff.mpr kept.once)).1
  · intro n mem
    unfold Tracked
    rw [segments]
    exact kept.tracked n (probes n mem)
  · intro seg mem isProbe n stands
    rw [segments] at mem
    exact kept.outstanding seg mem isProbe n (outstanding n stands)
  · intro n mem
    unfold Matched
    rw [segments]
    rcases matched n mem with old | new
    · exact kept.matched n old
    · exact new
  · intro n mem notSettled pending
    have failed : n ∈ c.failures := by
      rcases failures with same | ⟨m, isSettled, _, _, new⟩
      · rw [same] at mem
        exact mem
      · rw [new] at mem
        rcases List.mem_append.mp mem with mem | mem
        · exact mem
        · rw [List.mem_singleton.mp mem] at notSettled
          exact absurd isSettled notSettled
    rw [lapse]
    refine kept.counted n failed (fun is => notSettled (settled n is)) ?_
    rcases pending with probe | parked | ⟨seg, stands, is⟩
    · exact .inl (probes n probe)
    · rcases List.mem_append.mp (waiting n parked) with probe | parked
      · exact .inl probe
      · exact .inr (.inl parked)
    · rw [segments] at stands
      exact .inr (.inr ⟨seg, stands, is⟩)
  · rcases failures with same | ⟨m, _, _, fresh, new⟩
    · rw [same]
      exact kept.failures
    · rw [new]
      exact List.nodup_append.mpr ⟨kept.failures, List.nodup_singleton m, by
        intro n mem other single is
        rw [List.mem_singleton.mp single] at is
        exact fresh (is ▸ mem)⟩

theorem not_failed (kept : c.Kept) {n : ℕ} (known : n ∈ c.probes.map LiveProbe.number ++ c.waiting)
    (notCounted : c.lapseCounted ≠ some n) : n ∉ c.failures := by
  intro failed
  have once := kept.once
  have notSettled : n ∉ c.settled :=
    fun settled => (List.nodup_append.mp once).2.2 n known n settled rfl
  refine notCounted (kept.counted n failed notSettled ?_)
  rcases List.mem_append.mp known with probe | parked
  · exact .inl probe
  · exact .inr (.inl parked)

end Kept

theorem find_split {probes : List LiveProbe} {number : ℕ} {probe : LiveProbe}
    (found : probes.find? (fun p => decide (p.number = number)) = some probe) :
    probe.number = number ∧ ((probes.eraseP fun p => decide (p.number = number)).map
      LiveProbe.number ++ [number]).Perm (probes.map LiveProbe.number) := by
  rcases List.find?_eq_some_iff_append.mp found with ⟨holds, before, after, shape, absent⟩
  have is : probe.number = number := of_decide_eq_true holds
  refine ⟨is, ?_⟩
  have erased : (probes.eraseP fun p => decide (p.number = number)) = before ++ after := by
    rw [shape, List.eraseP_append_right]
    · have first := List.eraseP_cons_of_pos (l := after)
        (p := fun p : LiveProbe => decide (p.number = number)) holds
      rw [first]
    · intro p mem positive
      have negative := absent p mem
      rw [positive] at negative
      cases negative
  rw [erased, shape, List.map_append, List.map_append, List.map_cons, is, List.append_assoc]
  exact (List.perm_append_singleton _ _).append_left _

theorem waiting_park (c : Checks) (probe : LiveProbe) :
    (c.park probe).waiting = c.waiting ++ [probe.number] := by
  simp only [waiting, park, List.map_append, List.map_cons, List.map_nil]

theorem swap_last (first second third : List ℕ) :
    (first ++ second ++ third).Perm (first ++ third ++ second) := by
  rw [List.append_assoc, List.append_assoc]
  exact List.perm_append_comm.append_left _

namespace Kept

variable {c : Checks}

/-- A probe that leaves the open ones is parked or settled. -/
theorem settleProbe (kept : c.Kept) (epoch : InputEpoch) (records : Records)
    {probe : ℕ × RecordKey × Option Decision} (matched : c.Matched probe.1) (now : Instant) :
    (c.settleProbe epoch records probe now).1.Kept := by
  rcases probe with ⟨number, key, decision⟩
  unfold Checks.settleProbe
  simp only
  split
  · exact kept
  · rename_i stands found
    rcases find_split found with ⟨is, perm⟩
    generalize (c.probes.eraseP fun p => decide (p.number = number)) = left at perm
    have here : number ∈ c.probes.map LiveProbe.number :=
      perm.mem_iff.mp (List.mem_append_right _ (List.mem_singleton_self _))
    have stays : ∀ n ∈ left.map LiveProbe.number, n ∈ c.probes.map LiveProbe.number :=
      fun n mem => perm.mem_iff.mp (List.mem_append_left _ mem)
    -- the number is parked, or it is settled
    have parks : Kept ({ c with probes := left }.park stands) := by
      have waits : ({ c with probes := left }.park stands).waiting = c.waiting ++ [number] := by
        rw [waiting_park, is]
        rfl
      refine kept.moved rfl ⟨[], ?_⟩ stays ?_ ?_ (fun _ mem => mem) rfl (.inl rfl)
      · simp only [Checks.known, waits, List.append_nil]
        refine List.Perm.append_right _ ?_
        rw [← List.append_assoc]
        exact (swap_last _ _ _).trans (perm.append_right _)
      · intro n mem
        rw [waits] at mem
        simp only [List.mem_append, List.mem_singleton] at mem ⊢
        rcases mem with mem | mem
        · exact .inr mem
        · exact .inl (mem ▸ here)
      · intro n mem
        rw [waits] at mem
        simp only [List.mem_append, List.mem_singleton] at mem ⊢
        rcases mem with (mem | mem) | mem
        · exact .inl (.inl mem)
        · exact .inr (mem ▸ matched)
        · exact .inl (.inr mem)
    have settles : ∀ c' : Checks, c'.segments = c.segments → c'.probes = left →
        c'.parked = c.parked → c'.settled = c.settled ++ [number] →
        c'.lapseCounted = c.lapseCounted →
        (c'.failures = c.failures ∨ c.lapseCounted ≠ some number ∧
          c'.failures = c.failures ++ [number]) → c'.Kept := by
      intro c' segments probes parked settled lapse failures
      have waits : c'.waiting = c.waiting := by
        simp only [Checks.waiting, parked]
      refine kept.moved segments ⟨[], ?_⟩ ?_ ?_ ?_ ?_ lapse ?_
      · simp only [Checks.known, waits, probes, settled, List.append_nil, ← List.append_assoc]
        refine (swap_last _ _ _).trans (List.Perm.append_right _ ?_)
        exact (swap_last _ _ _).trans (perm.append_right _)
      · intro n mem
        rw [probes] at mem
        exact stays n mem
      · intro n mem
        rw [waits] at mem
        exact List.mem_append_right _ mem
      · intro n mem
        rw [waits, settled, ← List.append_assoc] at mem
        rcases List.mem_append.mp mem with mem | mem
        · exact .inl mem
        · exact .inr (List.mem_singleton.mp mem ▸ matched)
      · intro n mem
        rw [settled]
        exact List.mem_append_left _ mem
      · rcases failures with same | ⟨notCounted, counted⟩
        · exact .inl same
        · refine .inr ⟨number, ?_, ?_, ?_, counted⟩
          · rw [settled]
            exact List.mem_append_right _ (List.mem_singleton_self _)
          · simp only [Checks.known, List.append_assoc]
            exact List.mem_append_left _ here
          · exact kept.not_failed (List.mem_append_left _ here) notCounted
    split
    · split
      · split
        · exact parks
        · exact settles _ rfl rfl rfl (by rw [← is]; rfl) rfl (.inl rfl)
      · exact settles _ rfl rfl rfl (by rw [← is]; rfl) rfl (.inl rfl)
    · unfold fail
      split
      · exact settles _ rfl rfl rfl rfl rfl (.inl rfl)
      · rename_i notCounted
        exact settles _ rfl rfl rfl rfl rfl (.inr ⟨notCounted, rfl⟩)

end Kept

theorem Matched.of_tickets {c c' : Checks} {n : ℕ} (matched : c.Matched n)
    (tickets : c'.segments.segments.map Segment.ticket = c.segments.segments.map Segment.ticket) :
    c'.Matched n := by
  intro seg' mem is
  have there : seg'.ticket ∈ c.segments.segments.map Segment.ticket := by
    rw [← tickets]
    exact List.mem_map_of_mem mem
  rcases List.mem_map.mp there with ⟨seg, stands, same⟩
  have number : seg.number = seg'.number := congrArg Ticket.number same
  have record : seg.record = seg'.record := congrArg (fun t => t.mark.record) same
  rw [← record]
  exact matched seg stands (number.trans is)

theorem settleProbe_segments (c : Checks) (epoch : InputEpoch) (records : Records)
    (probe : ℕ × RecordKey × Option Decision) (now : Instant) :
    (c.settleProbe epoch records probe now).1.segments = c.segments := by
  unfold settleProbe
  simp only
  split
  · rfl
  · split
    · split
      · split
        · rfl
        · rfl
      · rfl
    · unfold fail
      split
      · rfl
      · rfl

namespace Kept

variable {c : Checks}

theorem head_of_number (kept : c.Kept) {seg : Segment} (mem : seg ∈ c.segments.segments) {n : ℕ}
    (is : seg.number = some n) : c.segments.segments.head? = some seg := by
  rcases kept.queue with ⟨taken, handed, wrote, sound, _⟩
  cases segments : c.segments.segments with
  | nil =>
    rw [segments] at mem
    cases mem
  | cons first rest =>
    rw [segments] at mem
    rcases List.mem_cons.mp mem with rfl | mem
    · rfl
    · have behind := sound.behind seg.ticket (by
        simp only [Segments.queue, segments]
        exact List.mem_map_of_mem mem)
      have absent : seg.number = none := behind
      rw [is] at absent
      cases absent

theorem matched_of_decided (kept : c.Kept) {records : Records} {seg : Segment}
    (mem : seg ∈ c.segments.segments) {probe : ℕ × RecordKey × Decision}
    (decided : Segments.decidedNow records seg = some probe) : c.Matched probe.1 := by
  unfold Segments.decidedNow at decided
  split at decided
  · simp only [reduceCtorEq] at decided
  · split at decided
    · rename_i number key isNumber isRecord
      rw [Option.map_eq_some_iff] at decided
      intro other there is
      have same := (kept.head_of_number there is).symm.trans (kept.head_of_number mem isNumber)
      rw [Option.some.inj same, isRecord]
      rfl
    · simp only [reduceCtorEq] at decided

theorem matched_of_completed (kept : c.Kept) {probe : ℕ × RecordKey × Option Decision}
    (mem : probe ∈ c.segments.completed) : c.Matched probe.1 := by
  rcases kept.queue with ⟨taken, handed, wrote, sound, completed⟩
  rcases completed probe mem with ⟨e, ended, number⟩
  intro seg stands is
  have atFront := sound.front seg.ticket (List.mem_map_of_mem stands) probe.1 is
  have below := atFront.2.2 e.closed (List.mem_map_of_mem ended) probe.1 number
  exact absurd below (Nat.lt_irrefl _)

theorem settleDecided_fold (records : Records) (now : Instant)
    (decided : List (ℕ × RecordKey × Decision)) {c : Checks} (kept : c.Kept) (epoch : InputEpoch)
    (matched : ∀ probe ∈ decided, c.Matched probe.1) :
    (decided.foldl (Input.settleDecided records now) (c, epoch)).1.Kept := by
  induction decided generalizing c epoch with
  | nil => exact kept
  | cons probe decided ih =>
    rw [List.forall_mem_cons] at matched
    rw [List.foldl_cons]
    rcases probe with ⟨number, key, decision⟩
    unfold Input.settleDecided
    simp only
    split
    · have tickets : (c.segments.undecide number).segments.map Segment.ticket =
          c.segments.segments.map Segment.ticket := by
        refine Segments.map_ticket_changeFirst _ ?_ _
        exact fun _ => rfl
      refine ih (c := { c with segments := c.segments.undecide number }) ?_ epoch ?_
      · refine kept.of_chain ?_ (.of_eq rfl rfl)
        exact fun taken handed wrote _ => ⟨handed, wrote, Segments.undecide_chain number⟩
      · exact fun other mem => (matched.2 other mem).of_tickets tickets
    · have settled : (c.settleProbe epoch records (number, key, some decision) now).1.Kept :=
        kept.settleProbe epoch records matched.1 now
      have segments := c.settleProbe_segments epoch records (number, key, some decision) now
      refine ih settled _ ?_
      intro other mem
      refine (matched.2 other mem).of_tickets ?_
      rw [segments]

theorem settleCompleted_fold (records : Records) (now : Instant)
    (completed : List (ℕ × RecordKey × Option Decision)) {c : Checks} (kept : c.Kept)
    (epoch : InputEpoch) (matched : ∀ probe ∈ completed, c.Matched probe.1) :
    (completed.foldl (Input.settleCompleted records now) (c, epoch)).1.Kept := by
  induction completed generalizing c epoch with
  | nil => exact kept
  | cons probe completed ih =>
    rw [List.forall_mem_cons] at matched
    have settled := kept.settleProbe epoch records matched.1 now
    have segments := c.settleProbe_segments epoch records probe now
    refine ih settled _ ?_
    intro other mem
    refine (matched.2 other mem).of_tickets ?_
    exact congrArg (fun s => s.segments.map Segment.ticket) segments

theorem mem_of_filter {probes : List LiveProbe} {stays : LiveProbe → Bool} {n : ℕ}
    (mem : n ∈ (probes.filter stays).map LiveProbe.number) :
    ∃ p ∈ probes, stays p = true ∧ p.number = n := by
  rcases List.mem_map.mp mem with ⟨p, there, is⟩
  exact ⟨p, (List.mem_filter.mp there).1, (List.mem_filter.mp there).2, is⟩

theorem dropEnded (kept : c.Kept) : (Input.dropEnded c).Kept := by
  -- the probes that stay have no ending
  have stays : ∀ n ∈ (Input.dropEnded c).probes.map LiveProbe.number,
      n ∈ c.probes.map LiveProbe.number ∧ ∀ e ∈ c.segments.ended, e.number ≠ some n := by
    intro n mem
    rcases mem_of_filter mem with ⟨p, there, left, is⟩
    refine ⟨List.mem_map.mpr ⟨p, there, is⟩, ?_⟩
    intro e ended number
    rw [Bool.not_eq_true', List.any_eq_false] at left
    exact left e ended (decide_eq_true (number.trans (congrArg some is.symm)))
  have sub : ((Input.dropEnded c).probes.map LiveProbe.number).Sublist
      (c.probes.map LiveProbe.number) := List.filter_sublist.map _
  rcases kept.queue with ⟨taken, handed, wrote, sound, completed⟩
  have same : c.segments.takeEnded.2.queue (taken ++ c.segments.ended) handed wrote =
      c.segments.queue taken handed wrote := by
    simp only [Segments.takeEnded, Segments.queue, List.append_nil]
  have known : (Input.dropEnded c).known.Sublist c.known := (sub.append_right _).append_right _
  refine ⟨⟨taken ++ c.segments.ended, handed, wrote, ?_, ?_⟩, ?_, kept.failedBound, ?_, ?_, ?_,
    kept.matched, ?_, kept.failures⟩
  · exact same ▸ sound
  · intro x mem
    rcases completed x mem with ⟨e, ended, number⟩
    exact ⟨e, List.mem_append_left _ ended, number⟩
  · exact fun n mem => kept.bound n (known.subset mem)
  · exact known.nodup kept.once
  · intro n mem
    rcases stays n mem with ⟨was, noEnding⟩
    rcases kept.tracked n was with stands | ⟨e, ended, number⟩
    · exact .inl stands
    · exact absurd number (noEnding e ended)
  · intro seg mem isProbe n stands
    refine kept.outstanding seg mem isProbe n ?_
    rcases List.mem_append.mp stands with stands | parked
    · exact List.mem_append_left _ (stays n stands).1
    · exact List.mem_append_right _ parked
  · intro n mem notSettled pending
    refine kept.counted n mem notSettled ?_
    rcases pending with probe | rest
    · exact .inl (stays n probe).1
    · exact .inr rest

end Kept

end Checks

theorem Segments.openProbe_ok {s s' : Segments} {held : Bool} {now : Instant} {number : ℕ}
    (opened : s.openProbe held now = (.ok number, s')) :
    number = s.last + 1 ∧ s'.segments = [.new .probe none (some number) s.opened] ∧
    s'.last = number ∧ s'.completed = s.completed ∧ (∀ e ∈ s.ended, e ∈ s'.ended) ∧
    ∀ seg ∈ s.segments, ∃ e ∈ s'.ended, e.number = seg.number := by
  unfold openProbe at opened
  split at opened
  · simp only [Prod.mk.injEq, reduceCtorEq, false_and] at opened
  · simp only at opened
    split at opened
    · simp only [Prod.mk.injEq, reduceCtorEq, false_and] at opened
    · rename_i cleared retry
      split at opened
      · simp only [Prod.mk.injEq, reduceCtorEq, false_and] at opened
      · rename_i given is
        rcases opened with ⟨rfl, rfl⟩
        refine ⟨nextNumber_ok is, ?_⟩
        split at retry
        · rename_i empty
          rw [← Option.some.inj retry]
          refine ⟨?_, rfl, rfl, fun _ mem => mem, ?_⟩
          · simp only [push, empty, List.nil_append]
          · rw [empty]
            exact fun _ mem => absurd mem List.not_mem_nil
        · rename_i old alone
          split at retry
          · rw [← Option.some.inj retry]
            refine ⟨rfl, rfl, rfl, fun _ mem => List.mem_append_left _ mem, ?_⟩
            intro seg mem
            rw [alone] at mem
            rw [List.mem_singleton.mp mem]
            exact ⟨_, List.mem_append_right _ (List.mem_singleton_self _), rfl⟩
          · simp only [reduceCtorEq] at retry
        · simp only [reduceCtorEq] at retry

namespace Checks.Kept

variable {c : Checks}

/-- A probe is opened while no read is parked. -/
theorem openProbe (kept : c.Kept) (idle : c.parked = []) {held : Bool} {now : Instant} {number : ℕ}
    {segments : Segments} (opened : c.segments.openProbe held now = (.ok number, segments)) :
    (Input.dropEnded { c with
      segments := segments
      probes := c.probes ++ [⟨number, number, none⟩] }).Kept := by
  rcases Segments.openProbe_ok opened with ⟨next, alone, last, finished, old, allEnded⟩
  rcases kept.queue with ⟨taken, handed, wrote, sound, completed⟩
  have chain : Chain segmentCap Unmatched Entitled (c.segments.queue taken handed wrote) _ :=
    Segments.openProbe_chain held now
  rw [opened] at chain
  have sound' := sound.chain chain
  have waits : c.waiting = [] := by
    simp only [Checks.waiting, idle, List.map_nil]
  have above : ∀ n ≤ c.segments.last, n ≠ number := by
    omega
  -- of the probes only the new one stays
  have stays : ∀ n ∈ (Input.dropEnded { c with
      segments := segments
      probes := c.probes ++ [⟨number, number, none⟩] }).probes.map LiveProbe.number,
      n = number := by
    intro n mem
    rcases mem_of_filter mem with ⟨p, there, left, is⟩
    rcases List.mem_append.mp there with there | there
    · rw [Bool.not_eq_true', List.any_eq_false] at left
      have ending : ∃ e ∈ segments.ended, e.number = some p.number := by
        rcases kept.tracked p.number (List.mem_map_of_mem there) with
          ⟨seg, stands, is⟩ | ⟨e, ended, is⟩
        · rcases allEnded seg stands with ⟨e, ended, same⟩
          exact ⟨e, ended, same.trans is⟩
        · exact ⟨e, old e ended, is⟩
      rcases ending with ⟨e, ended, same⟩
      exact absurd (decide_eq_true same) (left e ended)
    · rw [← is, List.mem_singleton.mp there]
  have sub : (Input.dropEnded { c with
      segments := segments
      probes := c.probes ++ [⟨number, number, none⟩] }).known.Sublist
        (c.probes.map LiveProbe.number ++ [number] ++ c.waiting ++ c.settled) := by
    refine ((List.Sublist.append_right ?_ _).append_right _)
    have filtered := (List.filter_sublist
      (p := fun p : LiveProbe => !segments.ended.any fun e => decide (e.number = some p.number))
      (l := c.probes ++ [⟨number, number, none⟩])).map LiveProbe.number
    rw [List.map_append] at filtered
    exact filtered
  have perm : (c.probes.map LiveProbe.number ++ [number] ++ c.waiting ++ c.settled).Perm
      (c.known ++ [number]) := by
    refine ((swap_last _ _ _).append_right _).trans ?_
    exact swap_last _ _ _
  have unknown : number ∉ c.known := by
    intro mem
    exact above number (kept.bound number mem) rfl
  have same : segments.takeEnded.2.queue (taken ++ segments.ended)
      (handed ++ (SegmentsAnswer.number (.ok number)).handed) wrote =
      segments.queue taken (handed ++ (SegmentsAnswer.number (.ok number)).handed) wrote := by
    simp only [Segments.takeEnded, Segments.queue, List.append_nil]
  refine ⟨⟨taken ++ segments.ended, _, wrote, same ▸ sound', ?_⟩, ?_, ?_, ?_, ?_, ?_, ?_, ?_,
    kept.failures⟩
  · intro x mem
    have before : x ∈ c.segments.completed := finished ▸ mem
    rcases completed x before with ⟨e, ended, is⟩
    refine ⟨e, List.mem_append_left _ ?_, is⟩
    rcases List.mem_append.mp ended with ended | ended
    · exact List.mem_append_left _ ended
    · exact List.mem_append_right _ (old e ended)
  · intro n mem
    have below : n ≤ segments.last := by
      rcases List.mem_append.mp (perm.mem_iff.mp (sub.subset mem)) with mem | mem
      · have bound := kept.bound n mem
        omega
      · rw [List.mem_singleton.mp mem, last]
    exact below
  · intro n mem
    have bound := kept.failedBound n mem
    have below : n ≤ segments.last := by omega
    exact below
  · refine sub.nodup (perm.nodup_iff.mpr ?_)
    refine List.nodup_append.mpr ⟨kept.once, List.nodup_singleton _, ?_⟩
    intro n mem other single is
    rw [List.mem_singleton.mp single] at is
    exact unknown (is ▸ mem)
  · intro n mem
    refine .inl ⟨.new .probe none (some number) c.segments.opened, ?_, ?_⟩
    · have here : segments.takeEnded.2.segments =
          [.new .probe none (some number) c.segments.opened] := alone
      exact here ▸ List.mem_singleton_self _
    · rw [stays n mem]
      rfl
  · intro seg mem _ n stands
    have here : seg ∈ segments.segments := mem
    rw [alone] at here
    rw [List.mem_singleton.mp here]
    rcases List.mem_append.mp stands with stands | parked
    · rw [stays n stands]
      rfl
    · have absent : n ∈ c.waiting := parked
      rw [waits] at absent
      cases absent
  · intro n mem seg stands is
    have here : seg ∈ segments.segments := stands
    rw [alone] at here
    rw [List.mem_singleton.mp here] at is
    have known : n ∈ c.known := by
      simp only [Checks.known, List.append_assoc]
      exact List.mem_append_right _ mem
    exact absurd (Option.some.inj is).symm (above n (kept.bound n known))
  · intro n mem notSettled pending
    have notNew := above n (kept.failedBound n mem)
    rcases pending with probe | parked | ⟨seg, stands, is⟩
    · exact absurd (stays n probe) notNew
    · have absent : n ∈ c.waiting := parked
      rw [waits] at absent
      cases absent
    · have here : seg ∈ segments.segments := stands
      rw [alone] at here
      rw [List.mem_singleton.mp here] at is
      exact absurd (Option.some.inj is).symm notNew

end Checks.Kept

theorem Segments.lapsedNumber_some {s : Segments} {now : Instant} {number : ℕ}
    (lapses : s.lapsedNumber now = some number) :
    ∃ seg, s.segments = [seg] ∧ seg.number = some number ∧ seg.kind = .probe ∧
      seg.record = none := by
  unfold lapsedNumber at lapses
  split at lapses
  · rename_i seg alone
    split at lapses
    · rename_i lapsed
      simp only [Segments.lapsed, Bool.and_eq_true, decide_eq_true_eq,
        Option.isNone_iff_eq_none] at lapsed
      rcases lapsed with ⟨⟨⟨⟨_, isProbe⟩, unmatched⟩, _⟩, _⟩
      exact ⟨seg, alone, lapses, isProbe, unmatched⟩
    · simp only [reduceCtorEq] at lapses
  · simp only [reduceCtorEq] at lapses

namespace Checks.Kept

variable {c : Checks}

theorem lapseDue (kept : c.Kept) {now : Instant} {number : ℕ}
    (lapses : c.segments.lapsedNumber now = some number)
    (notCounted : c.lapseCounted ≠ some number) :
    Kept { c with
      lapseCounted := some number
      schedule := c.schedule.failed now
      failures := c.failures ++ [number] } := by
  rcases Segments.lapsedNumber_some lapses with ⟨seg, alone, isNumber, isProbe, unmatched⟩
  have stands : seg ∈ c.segments.segments := alone ▸ List.mem_singleton_self _
  rcases kept.queue with ⟨taken, handed, wrote, sound, _⟩
  have isLast : number = c.segments.last :=
    (sound.front seg.ticket (List.mem_map_of_mem stands) number isNumber).1
  -- what is outstanding is the lapsed probe
  have only : ∀ n, c.Pending n → n = number := by
    intro n pending
    have same : seg.number = some n := by
      rcases pending with probe | parked | ⟨other, there, is⟩
      · exact kept.outstanding seg stands isProbe n (List.mem_append_left _ probe)
      · exact kept.outstanding seg stands isProbe n (List.mem_append_right _ parked)
      · rw [alone] at there
        rw [← List.mem_singleton.mp there]
        exact is
    exact Option.some.inj (same.symm.trans isNumber)
  have notSettled : number ∉ c.settled := by
    intro settled
    have matched := kept.matched number (List.mem_append_right _ settled) seg stands isNumber
    rw [unmatched] at matched
    exact Bool.false_ne_true matched
  have fresh : number ∉ c.failures := by
    intro failed
    exact notCounted (kept.counted number failed notSettled (.inr (.inr ⟨seg, stands, isNumber⟩)))
  refine ⟨kept.queue, kept.bound, ?_, kept.once, kept.tracked, kept.outstanding, kept.matched,
    ?_, ?_⟩
  · intro n mem
    rcases List.mem_append.mp mem with mem | mem
    · exact kept.failedBound n mem
    · rw [List.mem_singleton.mp mem]
      exact Nat.le_of_eq isLast
  · intro n _ _ pending
    exact congrArg some (only n pending).symm
  · refine List.nodup_append.mpr ⟨kept.failures, List.nodup_singleton _, ?_⟩
    intro n mem other single is
    rw [List.mem_singleton.mp single] at is
    exact fresh (is ▸ mem)

theorem settleParked (kept : c.Kept) {before after : List Parked} {p : Parked}
    (place : c.parked = before ++ p :: after) {c' : Checks} (segments : c'.segments = c.segments)
    (probes : c'.probes = c.probes) (parked : c'.parked = before ++ after)
    (settled : c'.settled = c.settled ++ [p.probe.number])
    (lapse : c'.lapseCounted = c.lapseCounted)
    (failures : c'.failures = c.failures ∨ c.lapseCounted ≠ some p.probe.number ∧
      c'.failures = c.failures ++ [p.probe.number]) : c'.Kept := by
  have waits : (c'.waiting ++ [p.probe.number]).Perm c.waiting := by
    simp only [Checks.waiting, parked, place, List.map_append, List.append_assoc]
    exact (List.perm_append_singleton _ _).append_left _
  have here : p.probe.number ∈ c.waiting :=
    waits.mem_iff.mp (List.mem_append_right _ (List.mem_singleton_self _))
  have stays : ∀ n ∈ c'.waiting, n ∈ c.waiting :=
    fun n mem => waits.mem_iff.mp (List.mem_append_left _ mem)
  refine kept.moved segments ⟨[], ?_⟩ ?_ ?_ ?_ ?_ lapse ?_
  · simp only [Checks.known, probes, settled, List.append_nil, ← List.append_assoc]
    refine (swap_last _ _ _).trans (List.Perm.append_right _ ?_)
    rw [List.append_assoc]
    exact waits.append_left _
  · intro n mem
    exact probes ▸ mem
  · intro n mem
    exact List.mem_append_right _ (stays n mem)
  · intro n mem
    rw [settled, ← List.append_assoc] at mem
    refine .inl ?_
    rcases List.mem_append.mp mem with mem | mem
    · rcases List.mem_append.mp mem with mem | mem
      · exact List.mem_append_left _ (stays n mem)
      · exact List.mem_append_right _ mem
    · rw [List.mem_singleton.mp mem]
      exact List.mem_append_left _ here
  · intro n mem
    rw [settled]
    exact List.mem_append_left _ mem
  · rcases failures with same | ⟨notCounted, counted⟩
    · exact .inl same
    · refine .inr ⟨p.probe.number, ?_, ?_, ?_, counted⟩
      · rw [settled]
        exact List.mem_append_right _ (List.mem_singleton_self _)
      · simp only [Checks.known, List.append_assoc]
        exact List.mem_append_right _ (List.mem_append_left _ here)
      · exact kept.not_failed (List.mem_append_right _ here) notCounted

end Checks.Kept

end AgentDeck.Probe
