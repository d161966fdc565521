import AgentDeck.Probe.EpochRuns
import AgentDeck.Probe.SettlementSteps

/-!
# Runs of the settlement

A run of a generation's input: its probes open and settle while records, segments, ops and keymap
re-reads come in any order. A probe is settled once, and counts one failure at most.
-/

namespace AgentDeck.Probe

open Serial (Ticket Chain Sound)

/-- One step of the input, under its lock. -/
inductive InputOp
  | openProbe (held : Bool) (now : Instant)
  | segments (op : SegmentsOp)
  | records (op : RecordsOp)
  | settleLive (runs : RecordKey → Bool) (now : Instant)
  | enter (writer : Writer) (bytes : ℕ)
  | externalEdit
  | apply (obs : Observation)
  | reconcileRing (ring : DeckJobId) (admittedAt : ℕ)
  | noteBoxRead (key : RecordKey) (read : BoxRead)
  | recheckKeymapAtSettlement
  | settleKeymapRecheck (through : ℕ) (allowed : Bool) (now : Instant)
  | lapseDue (heldOps : ℕ) (now : Instant)
  | probeFailed (now : Instant)
  | probeMoved (now : Instant)
  | retire

namespace Input

def step (t : Input) : InputOp → Input
  | .openProbe held now => (t.openProbe held now).2
  | .segments op =>
    if t.retired || !op.stepped then t
    else
      let (_, segments, records, fifo) := op.run t.checks.segments t.records t.fifo
      { t with
        records := records
        fifo := fifo
        checks := { t.checks with segments := segments } }
  | .records op =>
    if t.retired then t
    else
      let (_, records, fifo) := op.run t.records t.fifo
      { t with
        records := records
        fifo := fifo }
  | .settleLive runs now => t.settleLive runs now
  | .enter writer bytes => t.enter writer bytes
  | .externalEdit => { t with epoch := t.epoch.record none }
  | .apply obs =>
    { t with epoch := (t.epoch.apply { obs with retired := obs.retired || t.retired }).2 }
  | .reconcileRing ring admittedAt =>
    if t.retired then t else { t with epoch := (t.epoch.reconcileRing ring admittedAt).2 }
  | .noteBoxRead key read => { t with checks := t.checks.noteBoxRead key read }
  | .recheckKeymapAtSettlement =>
    if t.retired then t else { t with checks := { t.checks with recheck := true } }
  | .settleKeymapRecheck through allowed now => (t.settleKeymapRecheck through allowed now).2
  | .lapseDue heldOps now => (t.lapseDue heldOps now).2
  | .probeFailed now =>
    { t with checks := { t.checks with schedule := t.checks.schedule.failed now } }
  | .probeMoved now =>
    { t with checks := { t.checks with schedule := t.checks.schedule.onMoved now } }
  | .retire => t.retire

def Asks (t : Input) : InputOp → Prop
  | .openProbe _ _ => t.checks.parked = []
  | _ => True

end Input

namespace SegmentsOp

theorem stepped_fresh (op : SegmentsOp) (stepped : op.stepped) : op.fresh = Human := by
  cases op with
  | openProbe held now => exact absurd stepped Bool.false_ne_true
  | _ => rfl

theorem stepped_allowed (op : SegmentsOp) (stepped : op.stepped) : op.allowed = Plain := by
  cases op with
  | openProbe held now => exact absurd stepped Bool.false_ne_true
  | _ => rfl

theorem stepped_taken (op : SegmentsOp) (stepped : op.stepped) {s : Segments}
    {records : Records} {fifo : HazardFifo} : (op.run s records fifo).1.taken = [] := by
  cases op with
  | takeEnded => exact absurd stepped Bool.false_ne_true
  | _ => rfl

end SegmentsOp

theorem Segments.openProbe_error {s s' : Segments} {held : Bool} {now : Instant}
    {refusal : SegmentRefusal} (refused : s.openProbe held now = (.error refusal, s')) :
    s' = s := by
  unfold openProbe at refused
  split at refused
  · exact (Prod.mk.inj refused).2.symm
  · simp only at refused
    split at refused
    · exact (Prod.mk.inj refused).2.symm
    · split at refused
      · exact (Prod.mk.inj refused).2.symm
      · simp only [Prod.mk.injEq, reduceCtorEq, false_and] at refused

namespace Checks.Kept

variable {c : Checks}

theorem map_number_changeFirst (which : LiveProbe → Bool) {f : LiveProbe → LiveProbe}
    (same : ∀ p, (f p).number = p.number) (probes : List LiveProbe) :
    (changeFirst which f probes).map LiveProbe.number = probes.map LiveProbe.number := by
  induction probes with
  | nil => rfl
  | cons p probes ih =>
    unfold changeFirst
    split
    · rw [List.map_cons, List.map_cons, same]
    · rw [List.map_cons, List.map_cons, ih]

theorem of_same (kept : c.Kept) {c' : Checks} (segments : c'.segments = c.segments)
    (probes : c'.probes.map LiveProbe.number = c.probes.map LiveProbe.number)
    (parked : c'.parked = c.parked) (settled : c'.settled = c.settled)
    (lapse : c'.lapseCounted = c.lapseCounted) (failures : c'.failures = c.failures) : c'.Kept := by
  have waits : c'.waiting = c.waiting := by
    simp only [Checks.waiting, parked]
  refine kept.moved segments ⟨[], ?_⟩ ?_ ?_ ?_ ?_ lapse (.inl failures)
  · simp only [Checks.known, probes, waits, settled, List.append_nil]
    exact List.Perm.refl _
  · exact fun n mem => probes ▸ mem
  · exact fun n mem => List.mem_append_right _ (waits ▸ mem)
  · intro n mem
    rw [waits, settled] at mem
    exact .inl mem
  · exact fun n mem => settled ▸ mem

theorem retire (kept : c.Kept) : Kept { c with
    segments := c.segments.retire.takeEnded.2
    probes := []
    parked := [] } := by
  have sub : ({ c with probes := [], parked := [] } : Checks).Kept := by
    refine kept.moved rfl ⟨c.probes.map LiveProbe.number ++ c.waiting, ?_⟩ ?_ ?_ ?_
      (fun _ mem => mem) rfl (.inl rfl)
    · exact List.perm_append_comm
    · exact fun _ mem => absurd mem List.not_mem_nil
    · exact fun _ mem => absurd mem List.not_mem_nil
    · intro n mem
      exact .inl (List.mem_append_right _ mem)
  have retired : Kept { c with
      segments := c.segments.retire
      probes := []
      parked := [] } := sub.of_chain
    (fun taken handed wrote _ => ⟨handed, wrote, Segments.retire_chain⟩) (by
      unfold Segments.retire
      split
      · exact .of_eq rfl rfl
      · exact .of_same rfl ⟨_, rfl⟩)
  exact retired.dropEnded

theorem of_perm (kept : c.Kept) {parked : List Parked} (perm : parked.Perm c.parked) :
    Kept { c with parked := parked } := by
  have waits : (({ c with parked := parked } : Checks).waiting).Perm c.waiting := perm.map _
  refine kept.moved rfl ⟨[], ?_⟩ (fun _ mem => mem) ?_ ?_ (fun _ mem => mem) rfl (.inl rfl)
  · simp only [List.append_nil]
    exact (waits.append_left _).append_right _
  · exact fun n mem => List.mem_append_right _ (waits.mem_iff.mp mem)
  · intro n mem
    refine .inl ?_
    rcases List.mem_append.mp mem with mem | mem
    · exact List.mem_append_left _ (waits.mem_iff.mp mem)
    · exact List.mem_append_right _ mem

/-- One parked read settles, as the keymap says. -/
def settleOne (allowed : Bool) (now : Instant) (state : Checks × InputEpoch) (p : Parked) :
    Checks × InputEpoch :=
  if allowed then state.1.applyEmpty state.2 p.probe
  else (state.1.fail p.probe.number now, state.2)

theorem settleOne_kept {allowed : Bool} {now : Instant} {epoch : InputEpoch} {p : Parked}
    {rest : List Parked} (kept : Kept { c with parked := p :: rest }) :
    Kept { (settleOne allowed now (c, epoch) p).1 with parked := rest } := by
  have place : ({ c with parked := p :: rest } : Checks).parked = [] ++ p :: rest := rfl
  unfold settleOne
  split
  · exact kept.settleParked place rfl rfl rfl rfl rfl (.inl rfl)
  · unfold fail
    split
    · exact kept.settleParked place rfl rfl rfl rfl rfl (.inl rfl)
    · rename_i notCounted
      exact kept.settleParked place rfl rfl rfl rfl rfl (.inr ⟨notCounted, rfl⟩)

theorem settleOne_parked (allowed : Bool) (now : Instant) (state : Checks × InputEpoch)
    (p : Parked) : (settleOne allowed now state p).1.parked = state.1.parked := by
  unfold settleOne
  split
  · rfl
  · unfold fail
    split
    · rfl
    · rfl

theorem settleDue_kept (allowed : Bool) (now : Instant) (due : List Parked) {c : Checks}
    (epoch : InputEpoch) (kept : Kept { c with parked := due ++ c.parked }) :
    (due.foldl (settleOne allowed now) (c, epoch)).1.Kept := by
  induction due generalizing c epoch with
  | nil => exact kept
  | cons p due ih =>
    have parked := settleOne_parked allowed now (c, epoch) p
    have next : Kept { (settleOne allowed now (c, epoch) p).1 with
        parked := due ++ (settleOne allowed now (c, epoch) p).1.parked } := by
      rw [parked]
      exact settleOne_kept kept
    exact ih _ next

theorem settleKeymapRecheck {t : Input} (kept : t.checks.Kept) (through : ℕ) (allowed : Bool)
    (now : Instant) : (t.settleKeymapRecheck through allowed now).2.checks.Kept := by
  unfold Input.settleKeymapRecheck
  split
  · exact kept
  · have perm := List.filter_append_perm (fun p : Parked => decide (p.ticket ≤ through))
      t.checks.parked
    exact settleDue_kept allowed now _ t.epoch (kept.of_perm perm)

theorem settleLive {t : Input} (kept : t.checks.Kept) (runs : RecordKey → Bool) (now : Instant) :
    (t.settleLive runs now).checks.Kept := by
  unfold Input.settleLive
  split
  · exact kept
  · have settled : Kept { t.checks with
        segments := (t.checks.segments.settle runs t.records t.fifo now).1 } := by
      refine kept.of_chain ?_ ?_
      · exact fun taken handed wrote _ =>
          ⟨handed, wrote, Segments.settle_chain runs t.records t.fifo now⟩
      · exact SegmentsOp.run_books (.settle runs now) rfl t.checks.segments t.records t.fifo
    generalize t.checks.segments.settle runs t.records t.fifo now = segments at settled
    rcases segments with ⟨segments, records, fifo⟩
    simp only at settled ⊢
    have decided : Kept { t.checks with segments := (segments.takeDecidedProbes records).2 } := by
      refine settled.of_chain ?_ (.of_eq rfl rfl)
      exact fun taken handed wrote _ => ⟨handed, wrote, Segments.takeDecidedProbes_chain records⟩
    have tickets : (segments.takeDecidedProbes records).2.segments.map Segment.ticket =
        segments.segments.map Segment.ticket := by
      refine Segments.map_ticket_map ?_ _
      intro seg
      split
      · rfl
      · rfl
    have folded := settleDecided_fold records now (segments.takeDecidedProbes records).1 decided
      t.epoch (by
        intro probe mem
        rcases List.mem_filterMap.mp mem with ⟨seg, there, is⟩
        exact (settled.matched_of_decided there is).of_tickets tickets)
    generalize ((segments.takeDecidedProbes records).1.foldl
      (Input.settleDecided records now) _) = after at folded
    rcases after with ⟨c, epoch⟩
    have taken : Kept { c with segments := c.segments.takeCompletedProbes.2 } := by
      refine folded.of_chain ?_ ?_
      · exact fun taken handed wrote _ => ⟨handed, wrote, .refl⟩
      · exact ⟨fun _ mem => mem, fun _ mem => absurd mem List.not_mem_nil⟩
    have completed := settleCompleted_fold records now c.segments.takeCompletedProbes.1 taken
      epoch (by
        intro probe mem
        exact (folded.matched_of_completed mem).of_tickets rfl)
    exact completed.dropEnded

theorem step {t : Input} (kept : t.checks.Kept) {op : InputOp} (asks : t.Asks op) :
    (t.step op).checks.Kept := by
  cases op with
  | openProbe held now =>
    simp only [Input.step, Input.openProbe]
    split
    · exact kept
    · split
      · rename_i refusal segments opened
        rw [Segments.openProbe_error opened]
        exact kept
      · rename_i number segments opened
        exact kept.openProbe asks opened
  | segments op =>
    simp only [Input.step]
    split
    · exact kept
    · rename_i live
      rw [Bool.or_eq_true, Bool.not_eq_true', not_or, Bool.not_eq_false] at live
      refine kept.of_chain ?_ (op.run_books live.2 _ _ _)
      intro taken handed wrote sound
      have chain := op.run_chain sound t.records t.fifo
      rw [op.stepped_fresh live.2, op.stepped_allowed live.2, op.stepped_taken live.2,
        List.append_nil] at chain
      exact ⟨_, _, chain⟩
  | records op | reconcileRing ring admittedAt =>
    simp only [Input.step]
    split
    · exact kept
    · exact kept
  | settleLive runs now => exact kept.settleLive runs now
  | enter writer bytes =>
    cases writer with
    | deck job =>
      refine kept.of_same rfl ?_ rfl rfl rfl rfl
      refine map_number_changeFirst _ ?_ _
      exact fun _ => rfl
    | unnamedDeck | human | answer => exact kept.of_same rfl rfl rfl rfl rfl rfl
  | externalEdit => exact kept
  | apply obs => exact kept
  | noteBoxRead key read | probeFailed now | probeMoved now =>
    exact kept.of_same rfl rfl rfl rfl rfl rfl
  | recheckKeymapAtSettlement =>
    simp only [Input.step]
    split
    · exact kept
    · exact kept.of_same rfl rfl rfl rfl rfl rfl
  | settleKeymapRecheck through allowed now => exact kept.settleKeymapRecheck through allowed now
  | lapseDue heldOps now =>
    simp only [Input.step, Input.lapseDue]
    split
    · exact kept
    · split
      · exact kept
      · rename_i number lapses
        split
        · exact kept
        · rename_i notCounted
          exact kept.lapseDue lapses notCounted
  | retire => exact kept.retire

end Checks.Kept

theorem Input.run_kept {t : Input} (kept : t.checks.Kept) {ops : List InputOp}
    (asks : Runs.Along Input.step Input.Asks t ops) : (ops.foldl Input.step t).checks.Kept :=
  Runs.run_keeps (fun t : Input => t.checks.Kept) (fun _ _ asks kept => kept.step asks) asks kept

/-- The epoch calls the box untouched only on evidence newer than every foreign op, and a probe is
settled once. -/
theorem untouched_on_evidence :
    (∀ (ops : List EpochOp) (t : EpochStory), t = ops.foldl EpochStory.step EpochStory.start →
      t.epoch.observed ≤ t.epoch.epoch ∧
      (t.epoch.exhausted = true → ∀ op, (t.step op).epoch.exhausted = true ∧
        t.epoch.touched = true ∧ (∀ obs, (t.epoch.apply obs).1 = false) ∧
        ∀ ring admittedAt, (t.epoch.reconcileRing ring admittedAt).1 = false) ∧
      (t.epoch.touched = false →
        (EpochStory.Quiet t.events ∨ ∃ after job epoch before,
          t.events = after ++ EpochEvent.entered (some job) epoch :: before ∧
            EpochStory.Quiet after ∧
          EpochStory.Settles job epoch after) ∧
        ∀ after epoch before, t.events = after ++ EpochEvent.entered none epoch :: before →
          EpochStory.Reads epoch after)) ∧
    ∀ (generation : ℕ) (agent : Agent) (records : Records) (fifo : HazardFifo)
      (epoch : InputEpoch) (ops : List InputOp),
      Runs.Along Input.step Input.Asks (Input.start generation agent records fifo epoch) ops →
      let t := ops.foldl Input.step (Input.start generation agent records fifo epoch)
      t.checks.settled.Nodup ∧ t.checks.failures.Nodup ∧
      ∀ n ∈ t.checks.settled, n ∉ t.checks.probes.map LiveProbe.number ∧ n ∉ t.checks.waiting := by
  refine ⟨?_, ?_⟩
  · intro ops t reached
    have kept : t.Kept := by
      rw [reached]
      exact EpochStory.run_kept ops EpochStory.start_kept
    exact ⟨kept.observed, fun exhausted op => EpochStory.exhausted_step exhausted op,
      fun untouched => kept.evidence untouched⟩
  · intro generation agent records fifo epoch ops asks
    have kept := Input.run_kept (Checks.new_kept generation agent) asks
    have once := kept.once
    unfold Checks.known at once
    rcases List.nodup_append.mp once with ⟨_, settled, apart⟩
    refine ⟨settled, kept.failures, ?_⟩
    intro n mem
    refine ⟨?_, ?_⟩
    · intro stands
      exact apart n (List.mem_append_left _ stands) n mem rfl
    · intro parked
      exact apart n (List.mem_append_right _ parked) n mem rfl

theorem untouched_on_evidence_after_probe :
    (let t := [EpochOp.record (some 1), .apply ⟨1, 0, true, false⟩].foldl EpochStory.step
        EpochStory.start;
      t.epoch.touched = false ∧ t.epoch.observed ≤ t.epoch.epoch) ∧
    let t := [InputOp.openProbe false 0].foldl Input.step
      (Input.start 1 .claude (.new 1 .hold 0 recordCap) .default .default)
    t.checks.probes.map LiveProbe.number = [1] ∧ t.checks.settled.Nodup :=
  ⟨⟨by decide, (untouched_on_evidence.1 _ _ rfl).1⟩,
    by decide, (untouched_on_evidence.2 1 .claude (.new 1 .hold 0 recordCap) .default .default
      [.openProbe false 0] ⟨rfl, trivial⟩).1⟩

end AgentDeck.Probe
