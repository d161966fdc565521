import AgentDeck.Attempts.Identity

/-!
# Evidence accounting

Each hand-out reserves spool files and `reclaim` returns them. The balance of a trace says that
the reservation of every triple handed out is either still held by its retained attempt or was
returned by exactly one `Reclaimed` effect.
-/

namespace AgentDeck.Attempts

namespace Delivery

/-- The reservations of `(a, e)` still held, as a count. -/
def heldCount (msg : Delivery) (a e : ℕ) : ℕ := msg.reservations.count ⟨a, e, false⟩

theorem count_tags (msg : Delivery) (a e : ℕ) :
    msg.tags.count (a, e) = msg.reservations.count ⟨a, e, true⟩ + msg.heldCount a e := by
  simp only [tags, heldCount, reservations, List.count, List.countP_map]
  induction msg.attempts with
  | nil => rfl
  | cons head rest ih =>
    simp only [List.countP_cons, Function.comp_apply, Attempt.reservation]
    by_cases reclaimed : head.reclaimed = true
    · simp [reclaimed]
      omega
    · simp [reclaimed]
      omega

theorem heldCount_eq_zero {msg : Delivery} {a e : ℕ}
    (reclaimed : ∀ attempt ∈ msg.attempts, attempt.a = a → attempt.e = e →
      attempt.reclaimed = true) : msg.heldCount a e = 0 := by
  apply List.count_eq_zero.mpr
  intro mem
  rcases List.mem_map.mp mem with ⟨attempt, attemptMem, same⟩
  simp only [Attempt.reservation, Reservation.mk.injEq] at same
  simp [reclaimed attempt attemptMem same.1 same.2.1] at same

theorem heldCount_handOut (msg : Delivery) (now : Instant) (rx : Rx) (d : ℕ) (slot : Slot)
    (kind : IssueKind) (a e : ℕ) :
    (msg.handOut now rx d slot kind).heldCount a e = msg.heldCount a e +
      if a = msg.a ∧ e = msg.attempts.length + 1 then 1 else 0 := by
  have same : (msg.handOut now rx d slot kind).reservations =
      msg.reservations ++ [⟨msg.a, msg.attempts.length + 1, false⟩] := by
    simp only [reservations, handOut, List.map_append, List.map_map]
    congr 1
    apply List.map_congr_left
    intro attempt _
    simp only [Function.comp_apply]
    split <;> rfl
  rw [heldCount, same, List.count_append]
  congr 1
  by_cases here : a = msg.a ∧ e = msg.attempts.length + 1
  · simp [here.1, here.2]
  · rw [if_neg here]
    apply List.count_eq_zero.mpr
    simpa using here

theorem Counted.heldCount_eq {limits : Limits} {msg : Delivery} (counted : msg.Counted limits)
    {attempt : Attempt} (mem : attempt ∈ msg.attempts) :
    msg.heldCount attempt.a attempt.e = if attempt.reclaimed then 0 else 1 := by
  split
  · rename_i reclaimed
    apply heldCount_eq_zero
    intro other otherMem _ sameE
    rw [counted.eq_of_e otherMem mem sameE]
    exact reclaimed
  · rename_i unreclaimed
    have nodup : msg.reservations.Nodup := by
      have numbers := counted.nodup_e
      have mapped : msg.attempts.map (fun attempt => attempt.e) =
          msg.reservations.map Reservation.e := by
        simp [reservations, Attempt.reservation]
      rw [mapped] at numbers
      exact numbers.of_map
    apply List.count_eq_one_of_mem nodup
    exact List.mem_map.mpr ⟨attempt, mem, by simp [Attempt.reservation, unreclaimed]⟩

end Delivery

namespace AttemptModel

variable {model later : AttemptModel}

def heldCount (model : AttemptModel) (id : String) (a e : ℕ) : ℕ :=
  ((model.messages.get? id).map fun msg => msg.heldCount a e).getD 0

theorem held_balance {powers : Powers} (moves : Moves powers model later) (id : String) (a e : ℕ) :
    later.effects.count (.reclaimed id a e) + later.heldCount id a e =
      model.effects.count (.reclaimed id a e) + model.heldCount id a e := by
  have ledger := Ledgered.moves moves id a e
  simp only [reclaimedCount, heldCount] at ledger ⊢
  rcases found : model.messages.get? id with _ | msg
  · rw [(Evolves.moves moves).records.right_none found]
    rw [(Evolves.moves moves).records.right_none found, found] at ledger
    simpa using ledger
  · rcases (Evolves.moves moves).records.right_of_left found with ⟨after, foundAfter, evolves⟩
    rw [found] at ledger
    have before := msg.count_tags a e
    have now := after.count_tags a e
    rw [evolves.tags] at now
    simp only [foundAfter, Option.map_some, Option.getD_some] at ledger ⊢
    omega

theorem Change.balance {op : Op} (change : Change model op later) (notExit : op ≠ .exit)
    (notDrain : op ≠ .drainEffects) (id : String) (a e : ℕ) :
    later.effects.count (.reclaimed id a e) + later.heldCount id a e =
      model.effects.count (.reclaimed id a e) + model.heldCount id a e +
        (newTags (model.issuedBy op) id).count (a, e) := by
  cases change with
  | moves silent moves =>
    rw [held_balance moves id a e, silent]
    rfl
  | post other offer absent =>
    by_cases here : id = other
    · subst here
      simp [heldCount, absent, issuedBy, newTags, Delivery.new, Delivery.heldCount,
        Delivery.reservations]
    · simp [heldCount, here, issuedBy, newTags]
  | handOut now other rx receiver msg kind hands told =>
    have balance := held_balance
      (moves_finalize (model.handTo now other rx receiver msg kind) now other :
        Moves Powers.none _ _) id a e
    rw [balance, told]
    simp only [handTo, heldCount, newTags, SortedMap.get?_insert]
    by_cases here : id = other
    · subst here
      simp only [if_true, hands.record, Option.map_some, Option.getD_some,
        Delivery.heldCount_handOut]
      by_cases same : a = msg.a ∧ e = msg.attempts.length + 1
      · simp [same.1, same.2, Nat.add_assoc]
      · rw [if_neg same]
        have absent : (a, e) ∉ [(msg.a, msg.attempts.length + 1)] := by simpa using same
        rw [List.count_eq_zero.mpr absent]
        omega
    · have different : other ≠ id := fun same => here same.symm
      simp [here, different]
  | forget other msg record _ reclaimed =>
    by_cases here : id = other
    · subst here
      have returned : msg.heldCount a e = 0 :=
        Delivery.heldCount_eq_zero fun attempt mem _ _ => reclaimed attempt mem
      simp [heldCount, record, returned, issuedBy, newTags]
    · simp [heldCount, here, issuedBy, newTags]
  | drain => exact absurd rfl notDrain
  | exit => exact absurd rfl notExit

end AttemptModel

namespace Trace

open AttemptModel (Op)

variable {trace : Trace}

/-- Every effect of the run, those still to be drained last. -/
def emitted (trace : Trace) : List Effect := trace.drained ++ trace.model.effects

/-- Every triple handed out holds its reservation or has returned it once. -/
def Balanced (trace : Trace) : Prop :=
  ∀ id a e, trace.emitted.count (.reclaimed id a e) + trace.model.heldCount id a e =
    trace.handed.count (id, a, e)

theorem Balanced.start (limits : Limits) (generation : ℕ) :
    (Trace.start limits generation).Balanced := by
  intro id a e
  simp [Trace.start, emitted, AttemptModel.new, AttemptModel.heldCount]

theorem count_handed_step (op : Op) (id : String) (a e : ℕ) :
    (trace.step op).handed.count (id, a, e) = trace.handed.count (id, a, e) +
      (AttemptModel.newTags (trace.model.issuedBy op) id).count (a, e) := by
  simp only [Trace.step, AttemptModel.newTags]
  rcases trace.model.issuedBy op with _ | ⟨other, issued⟩
  · simp
  · by_cases here : other = id
    · simp [here, List.count_cons]
    · simp [here]

theorem Balanced.step (balanced : trace.Balanced) (valid : trace.model.Valid) {op : Op}
    (notExit : op ≠ .exit) : (trace.step op).Balanced := by
  intro id a e
  rw [count_handed_step, ← balanced id a e]
  by_cases isDrain : op = .drainEffects
  · subst isDrain
    simp [Trace.step, emitted, drainedBy, AttemptModel.apply, AttemptModel.drainEffects,
      AttemptModel.issuedBy, AttemptModel.newTags, AttemptModel.heldCount]
  · have balance := (valid.change op).balance notExit isDrain id a e
    have nothing : drainedBy trace.model op = [] := by
      cases op <;> first | rfl | exact absurd rfl isDrain
    simp only [Trace.step, emitted, nothing, List.append_nil, List.count_append]
    omega

theorem Balanced.run (balanced : trace.Balanced) (valid : trace.model.Valid) {ops : List Op}
    (running : .exit ∉ ops) : (trace.run ops).Balanced := by
  induction ops generalizing trace with
  | nil => exact balanced
  | cons op rest ih =>
    rw [List.mem_cons, not_or] at running
    exact ih (balanced.step valid (Ne.symm running.1)) (valid.apply op) running.2

end Trace

namespace AttemptModel

variable {model : AttemptModel}

variable {id : String} {msg : Delivery} {attempt : Attempt}

theorem reclaimed_of_withhold {now : Instant} {other : String} {a e : ℕ} {after : Delivery}
    (record : model.messages.get? id = some msg)
    (found : (model.withhold now other a e).messages.get? id = some after)
    (mem : attempt ∈ after.attempts) (reclaimed : attempt.reclaimed) :
    ∃ before ∈ msg.attempts, before.a = attempt.a ∧ before.e = attempt.e ∧
      before.reclaimed = true := by
  have same : SortedMap.Related (fun _ => Delivery.SameReservations) model.messages
      (model.withhold now other a e).messages :=
    updateAttempt_related Delivery.SameReservations Delivery.SameReservations.refl other a e
      fun msg _ => Delivery.updateAttempt_map msg a e fun _ => rfl
  rcases same.left_of_right found with ⟨old, oldFound, reservations⟩
  cases Option.some.inj (oldFound.symm.trans record)
  have listed : attempt.reservation ∈ msg.reservations := by
    rw [← reservations]
    exact List.mem_map.mpr ⟨attempt, mem, rfl⟩
  rcases List.mem_map.mp listed with ⟨before, beforeMem, sameReservation⟩
  simp only [Attempt.reservation, Reservation.mk.injEq] at sameReservation
  exact ⟨before, beforeMem, sameReservation.1, sameReservation.2.1,
    sameReservation.2.2.trans reclaimed⟩

theorem Valid.quiescent_of_reclaims (valid : model.Valid) {op : Op} (notExit : op ≠ .exit)
    {after : Delivery} (record : model.messages.get? id = some msg)
    (found : (model.apply op).messages.get? id = some after) (mem : attempt ∈ after.attempts)
    (reclaimed : attempt.reclaimed) :
    (∃ before ∈ msg.attempts, before.a = attempt.a ∧ before.e = attempt.e ∧
      before.reclaimed = true) ∨ (after.state.isTerminal = true ∧ attempt.Quiescent) := by
  by_cases powerless : op.powers.withholds = false
  · rcases (valid.change op).grows notExit record with ⟨_, gone⟩ | ⟨same, sameFound, grows⟩
    · simp [gone] at found
    · cases Option.some.inj (sameFound.symm.trans found)
      rcases grows.attempts with ⟨kept, extra, split, related, fresh⟩
      rw [split, List.mem_append] at mem
      rcases mem with isKept | isExtra
      · rcases Delivery.exists_left_of_forall₂ related isKept with ⟨before, beforeMem, evolved⟩
        rcases evolved.reclaims powerless reclaimed with already | ended
        · exact Or.inl ⟨before, beforeMem, evolved.a.symm, evolved.e.symm, already⟩
        · exact Or.inr ended
      · exact Or.inr (fresh attempt isExtra reclaimed)
  · cases op with
    | withhold => exact Or.inl (reclaimed_of_withhold record found mem reclaimed)
    | _ => exact absurd rfl powerless

theorem forget_unreclaimed (record : model.messages.get? id = some msg)
    (mem : attempt ∈ msg.attempts) (unreclaimed : attempt.reclaimed = false) :
    model.forget id = (false, model) := by
  have unspent : model.spent id = false := by
    have notAll : msg.attempts.all Attempt.reclaimed = false := by
      rw [← Bool.not_eq_true, List.all_eq_true]
      intro all
      simp [all attempt mem] at unreclaimed
    simp [spent, record, notAll]
  simp [forget, unspent]

theorem Accounted.reclaimable_le (accounted : model.Accounted)
    (record : model.messages.get? id = some msg) :
    evidencePerAttempt * msg.reclaimable.length ≤ model.evidenceReserved := by
  have total := SortedMap.total_erase (fun _ msg => Delivery.unreclaimed msg) model.messages id
  rw [record, Option.map_some, Option.getD_some] at total
  have listed := msg.unreclaimed_reclaim
  rw [accounted.reserved, unreclaimed]
  apply Nat.mul_le_mul_left
  omega

end AttemptModel

structure Trace.EvidenceExact (limits : Limits) (trace : Trace) : Prop where
  reserved : trace.model.evidenceReserved = evidencePerAttempt * trace.model.unreclaimed
  affordable : trace.model.evidenceReserved ≤ limits.evidenceLimit
  /-- An attempt is reclaimed once its message has ended and nothing of it is pending. -/
  quiescent : ∀ op, op ≠ .exit → ∀ id msg after, trace.model.messages.get? id = some msg →
    (trace.model.apply op).messages.get? id = some after →
    ∀ attempt ∈ after.attempts, attempt.reclaimed = true →
      (∃ before ∈ msg.attempts, before.a = attempt.a ∧ before.e = attempt.e ∧
        before.reclaimed = true) ∨
      (after.state.isTerminal = true ∧ attempt.stage.isFinal = true ∧
        attempt.resumePending = false ∧ attempt.verifier = false ∧ attempt.withheld = false)
  /-- A retained attempt has one `Reclaimed` effect if it is reclaimed and none if it is not. -/
  retained : ∀ id msg, trace.model.messages.get? id = some msg → ∀ attempt ∈ msg.attempts,
    trace.emitted.count (.reclaimed id attempt.a attempt.e) = if attempt.reclaimed then 1 else 0
  /-- An attempt whose record was forgotten had its one effect. -/
  forgotten : ∀ id a e, (id, a, e) ∈ trace.handed →
    (∀ msg, trace.model.messages.get? id = some msg → (a, e) ∉ msg.tags) →
    trace.emitted.count (.reclaimed id a e) = 1
  unissued : ∀ id a e, (id, a, e) ∉ trace.handed → trace.emitted.count (.reclaimed id a e) = 0
  kept : ∀ id msg, trace.model.messages.get? id = some msg → ∀ attempt ∈ msg.attempts,
    attempt.reclaimed = false → trace.model.forget id = (false, trace.model)
  unsaturated : ∀ id msg, trace.model.messages.get? id = some msg →
    evidencePerAttempt * msg.reclaimable.length ≤ trace.model.evidenceReserved

/-- Evidence accounting is exact in every run before `exit`. -/
theorem evidence_exact (limits : Limits) (generation : ℕ) (ops : List AttemptModel.Op)
    (running : .exit ∉ ops) : ((Trace.start limits generation).run ops).EvidenceExact limits := by
  have fresh := Trace.fresh_run limits generation ops
  have balanced := (Trace.Balanced.start limits generation).run
    (AttemptModel.Valid.new limits generation) running
  have valid := Trace.valid_run limits generation ops
  have sameLimits := Trace.run_limits limits generation ops
  generalize (Trace.start limits generation).run ops = trace at *
  refine ⟨valid.accounted.reserved, ?_, ?_, ?_, ?_, ?_, ?_, ?_⟩
  · rw [← sameLimits]
    exact valid.accounted.affordable
  · intro op notExit id msg after record found attempt mem reclaimed
    exact valid.quiescent_of_reclaims notExit record found mem reclaimed
  · intro id msg record attempt mem
    have balance := balanced id attempt.a attempt.e
    have listed : (id, attempt.a, attempt.e) ∈ trace.handed :=
      fresh.retained record (attempt.a, attempt.e) (List.mem_map.mpr ⟨attempt, mem, rfl⟩)
    have once := List.count_eq_one_of_mem fresh.nodup listed
    have held := (valid.recorded.counted record).heldCount_eq mem
    simp only [AttemptModel.heldCount, record, Option.map_some, Option.getD_some, held,
      once] at balance
    split at balance
    · rename_i reclaimed
      rw [if_pos reclaimed]
      omega
    · rename_i unreclaimed
      rw [if_neg unreclaimed]
      omega
  · intro id a e listed gone
    have balance := balanced id a e
    have once := List.count_eq_one_of_mem fresh.nodup listed
    have released : trace.model.heldCount id a e = 0 := by
      simp only [AttemptModel.heldCount]
      rcases record : trace.model.messages.get? id with _ | msg
      · rfl
      · apply Delivery.heldCount_eq_zero
        intro attempt mem isA isE
        refine absurd (List.mem_map.mpr ⟨attempt, mem, ?_⟩) (gone msg record)
        rw [isA, isE]
    omega
  · intro id a e unlisted
    have balance := balanced id a e
    rw [List.count_eq_zero.mpr unlisted] at balance
    omega
  · intro id msg record attempt mem unreclaimed
    exact AttemptModel.forget_unreclaimed record mem unreclaimed
  · intro id msg record
    exact valid.accounted.reclaimable_le record

/-- The forgotten attempt of `repostedRun` was returned by one effect, and the one its id was
handed out under again still holds its evidence. -/
theorem evidence_exact_repostedRun :
    ((Trace.start Limits.default 1).run repostedRun).emitted.count
      (.reclaimed "m" 1 1) = 1 ∧
    ((Trace.start Limits.default 1).run repostedRun).model.evidenceReserved =
      evidencePerAttempt *
        ((Trace.start Limits.default 1).run repostedRun).model.unreclaimed ∧
    ((Trace.start Limits.default 1).run repostedRun).model.unreclaimed = 1 := by
  have accounted := evidence_exact Limits.default 1 repostedRun (by simp [repostedRun])
  exact ⟨by decide, accounted.reserved, by decide⟩

end AgentDeck.Attempts
