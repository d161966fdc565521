import AgentDeck.Attempts.Runs

/-!
# Attempt identities

A late commit names its attempt by `(id, a, e)` alone, so no two hand-outs of a run may carry the
same triple, also when a record is forgotten and its id posted again. A `Trace` keeps beside the
model what its callers have seen of it: the triples handed out and the effects drained.
-/

namespace AgentDeck.Attempts

namespace Delivery

/-- The `(a, e)` of the attempts, in order. -/
def tags (msg : Delivery) : List (ℕ × ℕ) := msg.attempts.map fun attempt => (attempt.a, attempt.e)

theorem Evolves.tags {powers : Powers} {old new : Delivery} (evolves : old.Evolves powers new) :
    new.tags = old.tags :=
  map_eq_of_forall₂ (evolves.attempts.imp fun _ _ evolved => by rw [evolved.a, evolved.e])

theorem tags_handOut (msg : Delivery) (now : Instant) (rx : Rx) (d : ℕ) (slot : Slot)
    (kind : IssueKind) : (msg.handOut now rx d slot kind).tags =
      msg.tags ++ [(msg.a, msg.attempts.length + 1)] := by
  simp only [tags, handOut, List.map_append, List.map_map]
  congr 1
  apply List.map_congr_left
  intro attempt _
  simp only [Function.comp_apply]
  split <;> rfl

theorem tags_exited (msg : Delivery) : msg.exited.tags = msg.tags := by
  simp only [tags, exited_attempts]
  apply map_map_eq
  intro attempt
  have binding := exitAttempt_binding attempt
  rw [Prod.mk.injEq]
  exact ⟨congrArg Binding.a binding, congrArg Binding.e binding⟩

namespace Counted

variable {limits : Limits} {msg : Delivery}

variable (counted : msg.Counted limits)

include counted

theorem map_e :
    msg.attempts.map (fun attempt => attempt.e) = List.range' 1 msg.attempts.length := by
  simpa [identities, Function.comp_def] using counted.numbered

theorem tag_lt {tag : ℕ × ℕ} (mem : tag ∈ msg.tags) : tag.2 < msg.attempts.length + 1 := by
  rcases List.mem_map.mp mem with ⟨attempt, attemptMem, rfl⟩
  have numbered : attempt.e ∈ msg.attempts.map fun attempt => attempt.e :=
    List.mem_map.mpr ⟨attempt, attemptMem, rfl⟩
  rw [counted.map_e, List.mem_range'_1] at numbered
  omega

theorem tag_le {tag : ℕ × ℕ} (mem : tag ∈ msg.tags) : tag.1 ≤ msg.a := by
  rcases List.mem_map.mp mem with ⟨attempt, attemptMem, rfl⟩
  exact counted.assigned_attempts attempt attemptMem

end Counted

end Delivery

namespace AttemptModel

variable {model later : AttemptModel}

/-- The `(a, e)` a hand-out adds to the record `id`. -/
def newTags (issued : Option (String × Issued)) (id : String) : List (ℕ × ℕ) :=
  match issued with
  | some (other, issued) => if other = id then [(issued.a, issued.e)] else []
  | none => []

variable {op : Op}

variable (change : Change model op later)

include change

theorem Change.tags {id : String} {msg : Delivery} (record : model.messages.get? id = some msg) :
    (later.messages.get? id = none ∧ msg.a ≤ later.forgottenA) ∨
      ∃ after, later.messages.get? id = some after ∧ msg.a ≤ after.a ∧
        after.tags = msg.tags ++ newTags (model.issuedBy op) id ∧
        ∀ tag ∈ newTags (model.issuedBy op) id, tag = (msg.a, msg.attempts.length + 1) := by
  cases change with
  | moves silent moves =>
    rcases (Evolves.moves moves).records.right_of_left record with ⟨after, found, evolves⟩
    exact Or.inr ⟨after, found, evolves.assignment, by simp [silent, newTags, evolves.tags],
      by simp [silent, newTags]⟩
  | post other offer absent =>
    have different : id ≠ other := by
      rintro rfl
      simp [absent] at record
    exact Or.inr ⟨msg, by simp [different, record], le_rfl, by simp [issuedBy, newTags],
      by simp [issuedBy, newTags]⟩
  | handOut now other rx receiver handed kind hands told =>
    rw [told]
    by_cases here : id = other
    · subst here
      have same : msg = handed := Option.some.inj (record.symm.trans hands.record)
      subst same
      have recordAfter : ∃ after, _ ∧ Delivery.Evolves Powers.none _ after :=
        hands.record_after
      rcases recordAfter with ⟨after, found, evolves⟩
      refine Or.inr ⟨after, found, evolves.assignment, ?_, by simp [newTags]⟩
      rw [evolves.tags, Delivery.tags_handOut]
      simp [newTags]
    · have otherAfter : ∃ after, _ ∧ Delivery.Evolves Powers.none msg after :=
        hands.other_after here record
      rcases otherAfter with ⟨after, found, evolves⟩
      have untold : other ≠ id := fun same => here same.symm
      exact Or.inr ⟨after, found, evolves.assignment, by simp [newTags, untold, evolves.tags],
        by simp [newTags, untold]⟩
  | forget other forgotten forgottenRecord =>
    by_cases here : id = other
    · subst here
      have same : msg = forgotten := Option.some.inj (record.symm.trans forgottenRecord)
      subst same
      exact Or.inl ⟨by simp, le_max_right _ _⟩
    · exact Or.inr ⟨msg, by simp [here, record], le_rfl, by simp [issuedBy, newTags],
        by simp [issuedBy, newTags]⟩
  | drain =>
    exact Or.inr ⟨msg, record, le_rfl, by simp [issuedBy, newTags], by simp [issuedBy, newTags]⟩
  | exit =>
    exact Or.inr ⟨msg.exited, by simp [AttemptModel.exit, record], by simp,
      by simp [issuedBy, newTags, Delivery.tags_exited], by simp [issuedBy, newTags]⟩

theorem Change.forgottenA_le : model.forgottenA ≤ later.forgottenA := by
  cases change with
  | moves _ moves => exact (Evolves.moves moves).forgottenA.ge
  | post => exact le_rfl
  | handOut now id rx receiver msg kind =>
    have evolves : (model.handTo now id rx receiver msg kind).Evolves Powers.none _ :=
      Evolves.finalize _ now id
    exact evolves.forgottenA.ge
  | forget => exact le_max_left _ _
  | drain => exact le_rfl
  | exit => exact le_rfl

theorem Change.limits_eq : later.limits = model.limits := by
  cases change with
  | moves _ moves => exact (Evolves.moves moves).limits
  | handOut now id rx receiver msg kind =>
    have evolves : (model.handTo now id rx receiver msg kind).Evolves Powers.none _ :=
      Evolves.finalize _ now id
    exact evolves.limits
  | _ => rfl

theorem Change.exited_eq (stays : op ≠ .exit) : later.exited = model.exited := by
  cases change with
  | moves _ moves => exact (Evolves.moves moves).exited
  | handOut now id rx receiver msg kind => exact finalize_exited now id
  | exit => exact absurd rfl stays
  | _ => rfl

omit change in
theorem Valid.run_exited (valid : model.Valid) (ops : List Op) (stays : Op.exit ∉ ops) :
    (model.run ops).exited = model.exited := by
  induction ops generalizing model with
  | nil => rfl
  | cons op rest ih =>
    rw [List.mem_cons, not_or] at stays
    exact (ih (valid.apply op) stays.2).trans
      ((valid.change op).exited_eq fun isExit => stays.1 isExit.symm)

omit change in
theorem Valid.run_limits (valid : model.Valid) (ops : List Op) :
    (model.run ops).limits = model.limits := by
  induction ops generalizing model with
  | nil => rfl
  | cons op rest ih => exact (ih (valid.apply op)).trans (valid.change op).limits_eq

theorem Change.record_of_issued {id : String} {issued : Issued}
    (told : model.issuedBy op = some (id, issued)) :
    ∃ msg, model.messages.get? id = some msg ∧ issued.a = msg.a ∧
      issued.e = msg.attempts.length + 1 := by
  cases change with
  | moves silent => simp [silent] at told
  | handOut now other rx receiver msg kind hands toldOut =>
    rw [toldOut] at told
    cases told
    exact ⟨msg, hands.record, rfl, rfl⟩
  | _ => simp [issuedBy] at told

end AttemptModel

/-! ## Traces -/

/-- The model with the triples it has handed out and the effects its hub has drained. -/
structure Trace where
  model : AttemptModel
  handed : List (String × ℕ × ℕ)
  drained : List Effect

namespace Trace

open AttemptModel (Op)

def start (limits : Limits) (generation : ℕ) : Trace := ⟨.new limits generation, [], []⟩

def drainedBy (model : AttemptModel) : Op → List Effect
  | .drainEffects => model.effects
  | _ => []

def step (trace : Trace) (op : Op) : Trace where
  model := trace.model.apply op
  handed := trace.handed ++
    ((trace.model.issuedBy op).map fun issued => (issued.1, issued.2.a, issued.2.e)).toList
  drained := trace.drained ++ drainedBy trace.model op

def run (trace : Trace) (ops : List Op) : Trace := ops.foldl step trace

@[simp]
theorem run_model (trace : Trace) (ops : List Op) :
    (trace.run ops).model = trace.model.run ops := by
  induction ops generalizing trace with
  | nil => rfl
  | cons op rest ih => exact ih (trace.step op)

theorem valid_run (limits : Limits) (generation : ℕ) (ops : List Op) :
    ((start limits generation).run ops).model.Valid := by
  rw [run_model]
  exact AttemptModel.valid_run limits generation ops

theorem run_limits (limits : Limits) (generation : ℕ) (ops : List Op) :
    ((start limits generation).run ops).model.limits = limits := by
  rw [run_model]
  exact (AttemptModel.Valid.new limits generation).run_limits ops

/-- Every triple handed out is distinct, retained, or below everything its id may still get. -/
structure Fresh (trace : Trace) : Prop where
  nodup : trace.handed.Nodup
  retained : ∀ {id msg}, trace.model.messages.get? id = some msg → ∀ tag ∈ msg.tags,
    (id, tag.1, tag.2) ∈ trace.handed
  used : ∀ {id msg a e}, (id, a, e) ∈ trace.handed → trace.model.messages.get? id = some msg →
    (a, e) ∈ msg.tags ∨ (a < msg.a ∧ ∀ tag ∈ msg.tags, a < tag.1)
  forgotten : ∀ {id a e}, (id, a, e) ∈ trace.handed → trace.model.messages.get? id = none →
    a ≤ trace.model.forgottenA

variable {trace : Trace}

theorem Fresh.start (limits : Limits) (generation : ℕ) : (Trace.start limits generation).Fresh := by
  constructor <;> simp [Trace.start, AttemptModel.new]

theorem mem_handed_step {op : Op} {id : String} {a e : ℕ} :
    (id, a, e) ∈ (trace.step op).handed ↔ (id, a, e) ∈ trace.handed ∨
      (a, e) ∈ AttemptModel.newTags (trace.model.issuedBy op) id := by
  simp only [step, AttemptModel.newTags]
  rcases trace.model.issuedBy op with _ | ⟨other, issued⟩
  · simp
  · by_cases here : other = id
    · simp [here]
    · have different : id ≠ other := fun same => here same.symm
      simp [here, different]

theorem Fresh.step (fresh : trace.Fresh) (valid : trace.model.Valid) (op : Op) :
    (trace.step op).Fresh := by
  have change := valid.change op
  constructor
  · simp only [Trace.step]
    rcases told : trace.model.issuedBy op with _ | ⟨id, issued⟩
    · simpa using fresh.nodup
    · rcases change.record_of_issued told with ⟨msg, record, isA, isE⟩
      have counted := valid.recorded.counted record
      simp only [Option.map_some, Option.toList_some]
      refine List.nodup_append'.mpr ⟨fresh.nodup, by simp, ?_⟩
      simp only [List.disjoint_singleton]
      intro mem
      rw [isA, isE] at mem
      rcases fresh.used mem record with retained | ⟨below, _⟩
      · exact absurd (counted.tag_lt retained) (lt_irrefl _)
      · exact absurd below (lt_irrefl _)
  · intro id after found tag mem
    apply mem_handed_step.mpr
    rcases record : trace.model.messages.get? id with _ | msg
    · rcases change.appears record found with ⟨offer, _, rfl⟩
      simp [Delivery.tags, Delivery.new] at mem
    · rcases change.tags record with ⟨gone, _⟩ | ⟨same, sameFound, _, tags, _⟩
      · simp [Trace.step, gone] at found
      · cases Option.some.inj (sameFound.symm.trans found)
        rw [tags, List.mem_append] at mem
        exact mem.imp_left (fresh.retained record tag)
  · intro id after a e mem found
    rcases record : trace.model.messages.get? id with _ | msg
    · rcases change.appears record found with ⟨offer, isPost, rfl⟩
      rcases mem_handed_step.mp mem with before | new
      · have below := fresh.forgotten before record
        simp only [Delivery.new, Delivery.tags]
        simp
        omega
      · simp [isPost, AttemptModel.issuedBy, AttemptModel.newTags] at new
    · rcases change.tags record with ⟨gone, _⟩ | ⟨same, sameFound, grown, tags, new⟩
      · simp [Trace.step, gone] at found
      · cases Option.some.inj (sameFound.symm.trans found)
        rw [tags]
        rcases mem_handed_step.mp mem with before | isNew
        · rcases fresh.used before record with retained | ⟨below, belowAll⟩
          · exact Or.inl (List.mem_append_left _ retained)
          · refine Or.inr ⟨by omega, ?_⟩
            intro tag tagMem
            rcases List.mem_append.mp tagMem with old | isNew
            · exact belowAll tag old
            · rw [new tag isNew]
              exact below
        · exact Or.inl (List.mem_append_right _ isNew)
  · intro id a e mem gone
    have grown := change.forgottenA_le
    rcases mem_handed_step.mp mem with before | isNew
    · rcases record : trace.model.messages.get? id with _ | msg
      · exact (fresh.forgotten before record).trans grown
      · have counted := valid.recorded.counted record
        rcases change.tags record with ⟨_, covered⟩ | ⟨after, found, _⟩
        · rcases fresh.used before record with retained | ⟨below, _⟩
          · exact (counted.tag_le retained).trans covered
          · exact below.le.trans covered
        · simp [Trace.step, found] at gone
    · rcases told : trace.model.issuedBy op with _ | ⟨other, issued⟩
      · simp [told, AttemptModel.newTags] at isNew
      · rcases change.record_of_issued told with ⟨msg, record, _⟩
        by_cases here : other = id
        · subst here
          rcases change.tags record with ⟨_, covered⟩ | ⟨after, found, _⟩
          · rw [told] at isNew
            simp only [AttemptModel.newTags, if_true, List.mem_singleton, Prod.mk.injEq] at isNew
            rcases change.record_of_issued told with ⟨same, sameRecord, isA, _⟩
            simp only [Trace.step]
            omega
          · simp [Trace.step, found] at gone
        · simp [told, AttemptModel.newTags, here] at isNew

theorem Fresh.run (fresh : trace.Fresh) (valid : trace.model.Valid) (ops : List Op) :
    (trace.run ops).Fresh := by
  induction ops generalizing trace with
  | nil => exact fresh
  | cons op rest ih => exact ih (fresh.step valid op) (valid.apply op)

theorem fresh_run (limits : Limits) (generation : ℕ) (ops : List Op) :
    ((Trace.start limits generation).run ops).Fresh :=
  (Fresh.start limits generation).run (AttemptModel.Valid.new limits generation) ops

end Trace

namespace AttemptModel

variable {model : AttemptModel}

theorem Valid.delivery_le (valid : model.Valid) {id : String} {msg : Delivery}
    (record : model.messages.get? id = some msg) {attempt : Attempt} (mem : attempt ∈ msg.attempts)
    {receiver : Receiver} (registered : model.receivers.get? attempt.rx = some receiver) :
    attempt.d ≤ receiver.nextD :=
  ((valid.linked.bound ⟨msg, record, List.mem_map.mpr ⟨attempt, mem, rfl⟩⟩).2 receiver
    registered).2

theorem Valid.eq_of_delivery (valid : model.Valid) {id other : String} {msg otherMsg : Delivery}
    (record : model.messages.get? id = some msg)
    (otherRecord : model.messages.get? other = some otherMsg) {left right : Attempt}
    (leftMem : left ∈ msg.attempts) (rightMem : right ∈ otherMsg.attempts)
    (sameRx : left.rx = right.rx) (sameD : left.d = right.d) : id = other ∧ left = right := by
  rcases valid.linked.distinct ⟨msg, record, List.mem_map.mpr ⟨left, leftMem, rfl⟩⟩
    ⟨otherMsg, otherRecord, List.mem_map.mpr ⟨right, rightMem, rfl⟩⟩ sameRx sameD with
    ⟨rfl, _, sameE⟩
  cases Option.some.inj (record.symm.trans otherRecord)
  exact ⟨rfl, (valid.recorded.counted record).eq_of_e leftMem rightMem sameE⟩

end AttemptModel

/-- The numbering of a run's attempts and deliveries. -/
structure Trace.IdentitiesFresh (limits : Limits) (trace : Trace) : Prop where
  numbered : ∀ id msg, trace.model.messages.get? id = some msg →
    msg.attempts.map (fun attempt => attempt.e) = List.range' 1 msg.attempts.length ∧
    msg.issued = msg.attempts.length ∧ msg.issued ≤ limits.maxAttempts ∧
    msg.autoRepeats = msg.attempts.countP (fun attempt => attempt.kind = .autoRepeat) ∧
    msg.autoRepeats ≤ limits.maxAutoRepeats ∧ msg.requeues ≤ limits.maxDeliver
  assigned : ∀ id msg, trace.model.messages.get? id = some msg →
    msg.attempts.Pairwise (fun earlier later => earlier.a ≤ later.a) ∧
    ∀ attempt ∈ msg.attempts, attempt.a ≤ msg.a
  /-- `handed` lists the triple of every successful `issue` of the run. -/
  unique : trace.handed.Nodup
  distinct : ∀ id other msg otherMsg, trace.model.messages.get? id = some msg →
    trace.model.messages.get? other = some otherMsg →
    ∀ left ∈ msg.attempts, ∀ right ∈ otherMsg.attempts, left.rx = right.rx →
      left.d = right.d → id = other ∧ left = right
  delivered : ∀ id msg, trace.model.messages.get? id = some msg → ∀ attempt ∈ msg.attempts,
    ∀ receiver, trace.model.receivers.get? attempt.rx = some receiver →
      attempt.d ≤ receiver.nextD

/-- Attempts are numbered in order within their budgets, no triple is handed out twice, and a
receiver's delivery numbers are distinct. -/
theorem identities_never_reused (limits : Limits) (generation : ℕ) (ops : List AttemptModel.Op)
    (positive : 1 ≤ limits.maxDeliver) :
    ((Trace.start limits generation).run ops).IdentitiesFresh limits := by
  have fresh := Trace.fresh_run limits generation ops
  have valid := Trace.valid_run limits generation ops
  have sameLimits := Trace.run_limits limits generation ops
  generalize (Trace.start limits generation).run ops = trace at *
  refine ⟨?_, ?_, fresh.nodup, ?_, ?_⟩
  · intro id msg record
    have counted := valid.recorded.counted record
    rw [sameLimits] at counted
    have length : msg.identities.length = msg.attempts.length := by simp [Delivery.identities]
    refine ⟨counted.map_e, counted.issued.trans length, counted.issuedLe, ?_, counted.repeatsLe, ?_⟩
    · rw [counted.repeats, Delivery.identities, List.countP_map]
      rfl
    · have room := counted.requeues positive
      omega
  · intro id msg record
    have counted := valid.recorded.counted record
    refine ⟨?_, counted.assigned_attempts⟩
    have ordered := counted.ordered
    rw [Delivery.identities, List.pairwise_map] at ordered
    exact ordered
  · intro id other msg otherMsg record otherRecord left leftMem right rightMem
    exact valid.eq_of_delivery record otherRecord leftMem rightMem
  · intro id msg record attempt mem receiver registered
    exact valid.delivery_le record mem registered

/-- A message commits, is forgotten, and its id is posted and handed out again. -/
def repostedRun : List AttemptModel.Op :=
  [.post "m" false, .register 0 .onceWaiter false, .issue 0 "m" 1, .stage 1 "m" 1 1 .committed none,
    .forget "m", .post "m" false, .issue 2 "m" 1]

theorem identities_never_reused_repostedRun :
    ((Trace.start Limits.default 1).run repostedRun).handed = [("m", 1, 1), ("m", 2, 1)] ∧
      ((Trace.start Limits.default 1).run repostedRun).handed.Nodup :=
  ⟨by decide, (identities_never_reused Limits.default 1 repostedRun (by decide)).unique⟩

end AgentDeck.Attempts
