import AgentDeck.Probe.LineSteps
import Mathlib.Data.List.Nodup
import Mathlib.Logic.Relation

/-!
# Fairness at the gate

In every interleaving the queue holds the waiters that were not dropped, oldest first; an op that
was answered full at the version the gate still has is full again; and a waiter that sleeps has
seen that version. So nothing offered later is taken before an op that waits, and no waiter sleeps
while it could be admitted.
-/

namespace AgentDeck.Probe

variable {T : Type}

namespace Line

def Below (l : Line T) : Prop := l.gate.version + 1 < 2 ^ 64 ∧ l.gate.nextWaiter + 1 < 2 ^ 64

structure Fair (l : Line T) : Prop where
  queue : l.gate.waiters = l.live.map Place.id
  order : (l.live.map Place.id).Pairwise (· < ·)
  fresh : ∀ p ∈ l.live, p.id < l.gate.nextWaiter
  seen : ∀ p ∈ l.live, p.waiter.seen ≤ l.gate.version
  answered : ∀ p ∈ l.live, p.answeredAt ≤ l.gate.version
  waits : ∀ p ∈ l.live, p.stand = .checking ∨ p.stand = .asleep → p.waiter.seen ≤ p.answeredAt
  asleep : ∀ p ∈ l.live, p.stand = .asleep → p.waiter.seen = l.gate.version
  blocked : ∀ p ∈ l.live, p.stand ≠ .answered → p.answeredAt = l.gate.version →
    l.gate.waiters.head? = some p.id → l.gate.Blocked p.op p.len p.passes
  gone : ∀ id < l.gate.nextWaiter, id ∈ l.live.map Place.id ∨ id ∈ l.cancelled ∨
    ∃ v, (id, v) ∈ l.answers
  left : ∀ p ∈ l.live, p.stand = .answered → ∃ v, (p.id, v) ∈ l.answers
  answers : ∀ answer ∈ l.answers, answer.2 ≠ .full ∧ (answer.2 = .retired → l.gate.retired = true)

theorem fair_start : (start : Line T).Fair where
  queue := rfl
  order := List.Pairwise.nil
  fresh _ mem := absurd mem List.not_mem_nil
  seen _ mem := absurd mem List.not_mem_nil
  answered _ mem := absurd mem List.not_mem_nil
  waits _ mem := absurd mem List.not_mem_nil
  asleep _ mem := absurd mem List.not_mem_nil
  blocked _ mem := absurd mem List.not_mem_nil
  gone _ below := absurd below (Nat.not_lt_zero _)
  left _ mem := absurd mem List.not_mem_nil
  answers _ mem := absurd mem List.not_mem_nil

namespace Fair

variable {l : Line T}

variable {p : Place T}

theorem eq_of_id (fair : l.Fair) {other : Place T} (mem : p ∈ l.live) (there : other ∈ l.live)
    (same : other.id = p.id) : other = p := by
  have nodup : (l.live.map Place.id).Nodup := fair.order.imp fun less => Nat.ne_of_lt less
  exact List.inj_on_of_nodup_map nodup there mem same

theorem wake_mem {gate : Gate T} {p' : Place T} (mem : p' ∈ l.wake gate) :
    ∃ p ∈ l.live, p'.waiter = p.waiter ∧ p'.op = p.op ∧ p'.len = p.len ∧ p'.passes = p.passes ∧
      p'.answeredAt = p.answeredAt ∧ (p'.stand = .answered ↔ p.stand = .answered) ∧
      ((p'.stand = .checking ∨ p'.stand = .asleep) → p.stand = .checking ∨ p.stand = .asleep) ∧
      (gate.version ≠ l.gate.version → p'.stand ≠ .asleep) ∧
      (gate.version = l.gate.version → p' = p) := by
  unfold wake at mem
  split at mem
  · rename_i moved
    rcases List.mem_map.mp mem with ⟨p, there, is⟩
    refine ⟨p, there, ?_⟩
    split at is
    · rename_i asleep
      subst is
      refine ⟨rfl, rfl, rfl, rfl, rfl, ?_, ?_, ?_, ?_⟩
      · rw [asleep]
        exact ⟨Stand.noConfusion, Stand.noConfusion⟩
      · exact fun _ => .inr asleep
      · exact fun _ => Stand.noConfusion
      · exact fun same => absurd same moved
    · rename_i awake
      subst is
      refine ⟨rfl, rfl, rfl, rfl, rfl, Iff.rfl, id, fun _ => awake, ?_⟩
      exact fun _ => rfl
  · rename_i same
    rw [not_not] at same
    refine ⟨p', mem, rfl, rfl, rfl, rfl, rfl, Iff.rfl, id, ?_, fun _ => rfl⟩
    exact fun moved => absurd same moved

theorem wake_ids (gate : Gate T) : (l.wake gate).map Place.id = l.live.map Place.id := by
  unfold wake
  split
  · rw [List.map_map]
    refine List.map_congr_left fun p _ => ?_
    simp only [Function.comp_apply]
    split
    · rfl
    · rfl
  · rfl

variable (fair : l.Fair)

include fair

theorem shift (below : l.Below) {rest : Line T} {gate : Gate T} (sub : rest.live.Sublist l.live)
    (same : rest.gate = l.gate) (answers : rest.answers = l.answers)
    (queue : gate.waiters = rest.live.map Place.id) (next : gate.nextWaiter = l.gate.nextWaiter)
    (retired : l.gate.retired = true → gate.retired)
    (version : gate.version = (l.gate.version + 1) % 2 ^ 64 ∨
      gate.version = l.gate.version ∧ Gate.Steady l.gate gate ∧ rest.live = l.live)
    (gone : ∀ id < l.gate.nextWaiter, id ∈ rest.live.map Place.id ∨ id ∈ rest.cancelled ∨
      ∃ v, (id, v) ∈ l.answers) : (rest.moves gate).Fair := by
  have later : gate.version = l.gate.version ∨ gate.version = l.gate.version + 1 := by
    rcases version with moved | ⟨still, _, _⟩
    · rw [Nat.mod_eq_of_lt below.1] at moved
      exact .inr moved
    · exact .inl still
  have grows : l.gate.version ≤ gate.version := by omega
  refine ⟨?_, ?_, ?_, ?_, ?_, ?_, ?_, ?_, ?_, ?_, ?_⟩
  · exact queue.trans (wake_ids gate).symm
  · simp only [moves, wake_ids]
    exact List.Pairwise.sublist (sub.map Place.id) fair.order
  · intro p' mem
    rcases wake_mem mem with ⟨p, there, waiter, _⟩
    simp only [moves, Place.id, waiter, next]
    exact fair.fresh p (sub.subset there)
  · intro p' mem
    rcases wake_mem mem with ⟨p, there, waiter, _⟩
    rw [waiter]
    exact Nat.le_trans (fair.seen p (sub.subset there)) grows
  · intro p' mem
    rcases wake_mem mem with ⟨p, there, _, _, _, _, answered, _⟩
    rw [answered]
    exact Nat.le_trans (fair.answered p (sub.subset there)) grows
  · intro p' mem waits
    rcases wake_mem mem with ⟨p, there, waiter, _, _, _, answered, _, stands, _⟩
    rw [waiter, answered]
    exact fair.waits p (sub.subset there) (stands waits)
  · intro p' mem asleep
    rcases wake_mem mem with ⟨p, there, _, _, _, _, _, _, _, awake, still⟩
    rw [same] at awake still
    have unmoved : gate.version = l.gate.version := by
      by_contra moved
      exact awake moved asleep
    rw [still unmoved] at asleep ⊢
    exact (fair.asleep p (sub.subset there) asleep).trans unmoved.symm
  · intro p' mem waiting current head
    rcases wake_mem mem with ⟨p, there, waiter, op, len, passes, answered, stands, _⟩
    rw [answered] at current
    have before := fair.answered p (sub.subset there)
    rcases version with moved | ⟨still, steady, whole⟩
    · simp only [moves] at current
      omega
    · simp only [moves, Place.id, waiter, queue, whole, ← fair.queue] at head
      rw [op, len, passes]
      refine (fair.blocked p (sub.subset there) ?_ (current.trans still) head).steady steady
      exact fun left => waiting (stands.mpr left)
  · intro id known
    simp only [moves, wake_ids, answers]
    simp only [moves, next] at known
    exact gone id known
  · intro p' mem left
    rcases wake_mem mem with ⟨p, there, waiter, _, _, _, _, stands, _⟩
    simp only [moves, Place.id, waiter, answers]
    exact fair.left p (sub.subset there) (stands.mp left)
  · intro answer mem
    simp only [moves, answers] at mem ⊢
    have before := fair.answers answer mem
    exact ⟨before.1, fun is => retired (before.2 is)⟩

theorem moves (below : l.Below) {gate : Gate T} (shifts : Gate.Shifts l.gate gate) :
    (l.moves gate).Fair := by
  refine fair.shift below (List.Sublist.refl _) rfl rfl ?_ shifts.nextWaiter shifts.retired ?_ ?_
  · exact shifts.waiters.trans fair.queue
  · rcases shifts.version with moved | ⟨still, steady⟩
    · exact .inl moved
    · exact .inr ⟨still, steady, rfl⟩
  · exact fair.gone

theorem drop (below : l.Below) (mem : p ∈ l.live) : (l.drop p).Fair := by
  have queued : p.id ∈ l.gate.waiters := by
    rw [fair.queue]
    exact List.mem_map_of_mem mem
  have nodup : (l.live.map Place.id).Nodup := fair.order.imp fun less => Nat.ne_of_lt less
  have erased : (l.gate.dropWaiter p.id).waiters =
      (l.live.filter fun other => decide (other.id ≠ p.id)).map Place.id := by
    unfold Gate.dropWaiter
    rw [if_pos queued]
    rw [fair.queue, List.Nodup.erase_eq_filter nodup, List.filter_map]
    simp only [decide_not]
    rfl
  have moved : (l.gate.dropWaiter p.id).version = (l.gate.version + 1) % 2 ^ 64 := by
    unfold Gate.dropWaiter
    rw [if_pos queued]
    rfl
  have frame : (l.gate.dropWaiter p.id).nextWaiter = l.gate.nextWaiter ∧
      (l.gate.dropWaiter p.id).retired = l.gate.retired := by
    unfold Gate.dropWaiter
    rw [if_pos queued]
    exact ⟨rfl, rfl⟩
  have stays : ∀ id ∈ l.live.map Place.id, id ≠ p.id →
      id ∈ (l.live.filter fun other => decide (other.id ≠ p.id)).map Place.id := by
    intro id live other
    rcases List.mem_map.mp live with ⟨place, there, rfl⟩
    refine List.mem_map_of_mem (List.mem_filter.mpr ⟨there, ?_⟩)
    exact decide_eq_true other
  unfold Line.drop
  split
  · rename_i left
    refine fair.shift below List.filter_sublist rfl rfl erased frame.1 ?_ (.inl moved) ?_
    · exact fun is => frame.2.trans is
    · intro id known
      rcases fair.gone id known with live | cancelled | answered
      · by_cases is : id = p.id
        · rw [is]
          exact .inr (.inr (fair.left p mem left))
        · exact .inl (stays id live is)
      · exact .inr (.inl cancelled)
      · exact .inr (.inr answered)
  · refine fair.shift below List.filter_sublist rfl rfl erased frame.1 ?_ (.inl moved) ?_
    · exact fun is => frame.2.trans is
    · intro id known
      rcases fair.gone id known with live | cancelled | answered
      · by_cases is : id = p.id
        · rw [is]
          exact .inr (.inl (List.mem_append_right _ (List.mem_singleton.mpr rfl)))
        · exact .inl (stays id live is)
      · exact .inr (.inl (List.mem_append_left _ cancelled))
      · exact .inr (.inr answered)

theorem steady (gate : Gate T) (waiters : gate.waiters = l.gate.waiters)
    (next : gate.nextWaiter = l.gate.nextWaiter) (version : gate.version = l.gate.version)
    (steady : Gate.Steady l.gate gate) (claim : Doorbell.ClaimState) :
    ({ l with gate := gate, claim := claim } : Line T).Fair where
  queue := waiters.trans fair.queue
  order := fair.order
  fresh p mem := by
    rw [next]
    exact fair.fresh p mem
  seen p mem := by
    rw [version]
    exact fair.seen p mem
  answered p mem := by
    rw [version]
    exact fair.answered p mem
  waits := fair.waits
  asleep p mem is := by
    rw [version]
    exact fair.asleep p mem is
  blocked p mem waiting current head := by
    refine (fair.blocked p mem waiting ?_ ?_).steady steady
    · exact current.trans version
    · rw [← waiters]
      exact head
  gone id known := by
    rw [next] at known
    exact fair.gone id known
  left := fair.left
  answers answer mem := by
    rw [steady.retired]
    exact fair.answers answer mem

/-- A place whose holder stands elsewhere. -/
theorem restand (mem : p ∈ l.live) {f : Place T → Place T}
    (id : (f p).id = p.id) (seen : (f p).waiter.seen ≤ l.gate.version)
    (answered : (f p).answeredAt ≤ l.gate.version)
    (waits : (f p).stand = .checking ∨ (f p).stand = .asleep →
      (f p).waiter.seen ≤ (f p).answeredAt)
    (asleep : (f p).stand = .asleep → (f p).waiter.seen = l.gate.version)
    (blocked : (f p).stand ≠ .answered → (f p).answeredAt = l.gate.version →
      l.gate.waiters.head? = some p.id → l.gate.Blocked (f p).op (f p).len (f p).passes)
    {answers : List (ℕ × Verdict)} (more : ∃ extra, answers = l.answers ++ extra)
    (left : (f p).stand = .answered → ∃ v, (p.id, v) ∈ answers)
    (verdicts : ∀ answer ∈ answers, answer.2 ≠ .full ∧
      (answer.2 = .retired → l.gate.retired = true)) :
    ({ l.update p.id f with answers := answers } : Line T).Fair := by
  have places : ∀ p' ∈ (l.update p.id f).live, p' = f p ∨ p' ∈ l.live := by
    intro p' there
    rcases List.mem_map.mp there with ⟨place, before, rfl⟩
    split
    · rename_i same
      rw [fair.eq_of_id mem before same]
      exact .inl rfl
    · exact .inr before
  have ids : (l.update p.id f).live.map Place.id = l.live.map Place.id := by
    unfold update
    rw [List.map_map]
    refine List.map_congr_left fun place before => ?_
    simp only [Function.comp_apply]
    split
    · rename_i same
      rw [fair.eq_of_id mem before same]
      exact id
    · rfl
  rcases more with ⟨extra, rfl⟩
  refine ⟨fair.queue.trans ids.symm, ?_, ?_, ?_, ?_, ?_, ?_, ?_, ?_, ?_, verdicts⟩
  · rw [ids]
    exact fair.order
  · intro p' there
    rcases places p' there with rfl | before
    · rw [id]
      exact fair.fresh p mem
    · exact fair.fresh p' before
  · intro p' there
    rcases places p' there with rfl | before
    · exact seen
    · exact fair.seen p' before
  · intro p' there
    rcases places p' there with rfl | before
    · exact answered
    · exact fair.answered p' before
  · intro p' there
    rcases places p' there with rfl | before
    · exact waits
    · exact fair.waits p' before
  · intro p' there
    rcases places p' there with rfl | before
    · exact asleep
    · exact fair.asleep p' before
  · intro p' there
    rcases places p' there with rfl | before
    · rw [id]
      exact blocked
    · exact fair.blocked p' before
  · intro known is
    rw [ids]
    rcases fair.gone known is with live | cancelled | ⟨v, answer⟩
    · exact .inl live
    · exact .inr (.inl cancelled)
    · exact .inr (.inr ⟨v, List.mem_append_left _ answer⟩)
  · intro p' there
    rcases places p' there with rfl | before
    · rw [id]
      exact left
    · intro is
      rcases fair.left p' before is with ⟨v, answer⟩
      exact ⟨v, List.mem_append_left _ answer⟩

theorem check (mem : p ∈ l.live) (checking : p.stand = .checking) : (l.check p).Fair := by
  unfold Line.check
  split
  · refine fair.restand mem rfl (Nat.le_refl _) (fair.answered p mem) ?_ ?_ ?_ ⟨[], ?_⟩ ?_ ?_
    · rintro (is | is) <;> exact Stand.noConfusion is
    · exact fun is => Stand.noConfusion is
    · intro _
      exact fair.blocked p mem (by rw [checking]; exact Stand.noConfusion)
    · rw [List.append_nil]
    · exact fun is => Stand.noConfusion is
    · exact fair.answers
  · rename_i same
    rw [not_not] at same
    refine fair.restand mem rfl (fair.seen p mem) (fair.answered p mem) ?_ ?_ ?_ ⟨[], ?_⟩ ?_ ?_
    · exact fun _ => fair.waits p mem (.inl checking)
    · exact fun _ => same.symm
    · intro _
      exact fair.blocked p mem (by rw [checking]; exact Stand.noConfusion)
    · rw [List.append_nil]
    · exact fun is => Stand.noConfusion is
    · exact fair.answers

/-- A full op gets a place at the end of the queue. -/
theorem join (below : l.Below) {op : T} {len : ℕ} {passes : T → ℕ → Bool}
    (stuck : l.gate.waiters = [] → l.gate.Blocked op len passes) (claim : Doorbell.ClaimState) :
    ({ l with
      gate := l.gate.waitIn.2
      claim := claim
      live := l.live ++ [⟨l.gate.waitIn.1, op, len, passes, l.gate.version, .checking⟩] } :
        Line T).Fair := by
  have next : l.gate.waitIn.2.nextWaiter = l.gate.nextWaiter + 1 := Nat.mod_eq_of_lt below.2
  have places : ∀ p' ∈ l.live ++ [⟨l.gate.waitIn.1, op, len, passes, l.gate.version, .checking⟩],
      p' ∈ l.live ∨ p' = ⟨l.gate.waitIn.1, op, len, passes, l.gate.version, .checking⟩ := by
    intro p' mem
    rcases List.mem_append.mp mem with before | new
    · exact .inl before
    · exact .inr (List.mem_singleton.mp new)
  have steady : Gate.Steady l.gate l.gate.waitIn.2 := Gate.Steady.of_fence rfl rfl
  refine ⟨?_, ?_, ?_, ?_, ?_, ?_, ?_, ?_, ?_, ?_, fair.answers⟩
  · simp only [List.map_append, ← fair.queue]
    rfl
  · simp only [List.map_append, List.pairwise_append]
    refine ⟨fair.order, List.pairwise_singleton _ _, ?_⟩
    intro id before new is
    rcases List.mem_map.mp before with ⟨p, mem, rfl⟩
    rw [List.mem_singleton.mp is]
    exact fair.fresh p mem
  · intro p' mem
    rw [next]
    rcases places p' mem with before | rfl
    · exact Nat.lt_succ_of_lt (fair.fresh p' before)
    · exact Nat.lt_succ_self _
  · intro p' mem
    rcases places p' mem with before | rfl
    · exact fair.seen p' before
    · exact Nat.le_refl _
  · intro p' mem
    rcases places p' mem with before | rfl
    · exact fair.answered p' before
    · exact Nat.le_refl _
  · intro p' mem
    rcases places p' mem with before | rfl
    · exact fair.waits p' before
    · exact fun _ => Nat.le_refl _
  · intro p' mem
    rcases places p' mem with before | rfl
    · exact fair.asleep p' before
    · exact fun is => Stand.noConfusion is
  · intro p' mem waiting current head
    have first : l.gate.waiters ≠ [] → l.gate.waiters.head? = some p'.id := by
      intro nonempty
      rw [← head]
      exact (List.head?_append_of_ne_nil _ nonempty).symm
    rcases places p' mem with before | rfl
    · refine (fair.blocked p' before waiting current (first ?_)).steady steady
      rw [fair.queue]
      exact List.ne_nil_of_mem (List.mem_map_of_mem before)
    · refine Gate.Blocked.steady (stuck ?_) steady
      by_contra some
      have queued : l.gate.nextWaiter ∈ l.gate.waiters := List.mem_of_mem_head? (first some)
      rw [fair.queue] at queued
      rcases List.mem_map.mp queued with ⟨p, there, is⟩
      exact absurd is (Nat.ne_of_lt (fair.fresh p there))
  · intro id known
    rw [next] at known
    rcases Nat.lt_succ_iff_lt_or_eq.mp known with before | rfl
    · rcases fair.gone id before with live | gone
      · refine .inl ?_
        rw [List.map_append]
        exact List.mem_append_left _ live
      · exact .inr gone
    · refine .inl ?_
      rw [List.map_append]
      exact List.mem_append_right _ (List.mem_singleton.mpr rfl)
  · intro p' mem
    rcases places p' mem with before | rfl
    · exact fair.left p' before
    · exact fun is => Stand.noConfusion is

theorem offer (below : l.Below) (op : T) (len : ℕ) (passes : T → ℕ → Bool) (hold : T → Bool × T) :
    (l.offer op len passes hold).Fair := by
  have answers := l.gate.admitUnless_answers op len none passes hold
  by_cases full : (l.offered op len passes hold).1.verdict = .full
  · rcases answers.stuck full with ⟨is, stuck⟩
    unfold Line.offer Line.offered
    rw [is]
    refine fair.join below ?_ _
    intro absent
    refine stuck ?_
    intro head first
    rw [absent] at first
    cases first
  · rcases answers.steady full with ⟨waiters, next, version, steady⟩
    have same : l.offer op len passes hold = { l with
        gate := (l.offered op len passes hold).2.2
        claim := l.takeBack (l.offered op len passes hold).2.1 } := by
      unfold Line.offer
      generalize l.offered op len passes hold = out at full
      rcases out with ⟨answer, taken, gate⟩
      cases answer with
      | full => exact absurd rfl full
      | _ => rfl
    rw [same]
    exact fair.steady _ waiters next version steady _

theorem again (mem : p ∈ l.live) (passes : T → ℕ → Bool) (hold : T → Bool × T) :
    (l.again p passes hold).Fair := by
  have answers := l.gate.admitUnless_answers p.op p.len (some p.waiter) passes hold
  by_cases full : (l.offeredAgain p passes hold).1.verdict = .full
  · rcases answers.stuck full with ⟨is, stuck⟩
    have same : l.again p passes hold = l.update p.id fun p' => { p' with
        waiter := p.waiter, op := p.op, passes := passes, answeredAt := l.gate.version,
        stand := .checking } := by
      unfold Line.again Line.offeredAgain
      rw [is]
      rfl
    rw [same]
    refine fair.restand mem rfl (fair.seen p mem) (Nat.le_refl _) ?_ ?_ ?_ ⟨[], ?_⟩ ?_ ?_
    · exact fun _ => fair.seen p mem
    · exact fun is => Stand.noConfusion is
    · intro _ _ head
      refine stuck ?_
      intro first is
      rw [head] at is
      rw [← is]
      rfl
    · rw [List.append_nil]
    · exact fun is => Stand.noConfusion is
    · exact fair.answers
  · rcases answers.steady full with ⟨waiters, next, version, steady⟩
    have moved := fair.steady _ waiters next version steady
      (l.takeBack (l.offeredAgain p passes hold).2.1)
    have same : l.again p passes hold = { ({ l with
        gate := (l.offeredAgain p passes hold).2.2
        claim := l.takeBack (l.offeredAgain p passes hold).2.1 } : Line T).update p.id fun p =>
          { p with stand := .answered } with
        answers := l.answers ++ [(p.id, (l.offeredAgain p passes hold).1.verdict)] } := by
      unfold Line.again
      generalize l.offeredAgain p passes hold = out at full
      rcases out with ⟨answer, taken, gate⟩
      cases answer with
      | full => exact absurd rfl full
      | _ => rfl
    rw [same]
    refine moved.restand mem rfl (moved.seen p mem) (moved.answered p mem) ?_ ?_ ?_ ⟨_, rfl⟩ ?_ ?_
    · rintro (is | is) <;> exact Stand.noConfusion is
    · exact fun is => Stand.noConfusion is
    · exact fun waiting => absurd rfl waiting
    · intro _
      exact ⟨_, List.mem_append_right _ (List.mem_singleton.mpr rfl)⟩
    · intro answer there
      rcases List.mem_append.mp there with before | new
      · exact moved.answers answer before
      · rw [List.mem_singleton] at new
        subst new
        refine ⟨full, ?_⟩
        exact fun retired => steady.retired.trans (answers.retires retired)

theorem step (below : l.Below) {op : LineOp T} {l' : Line T} (steps : l.step op = some l') :
    l'.Fair := by
  cases op with
  | offer op len passes hold =>
    rw [← Option.some.inj steps]
    exact fair.offer below op len passes hold
  | again id passes hold =>
    rw [Line.step] at steps
    split at steps
    · rename_i p found
      rw [← Option.some.inj steps]
      split
      · exact fair
      · exact fair.again (List.mem_of_find?_eq_some found) passes hold
    · rw [← Option.some.inj steps]
      exact fair
  | check id =>
    rw [Line.step] at steps
    split at steps
    · rename_i p found
      rw [← Option.some.inj steps]
      split
      · rename_i checking
        exact fair.check (List.mem_of_find?_eq_some found) checking
      · exact fair
    · rw [← Option.some.inj steps]
      exact fair
  | drop id =>
    rw [Line.step] at steps
    split at steps
    · rename_i p found
      rw [← Option.some.inj steps]
      exact fair.drop below (List.mem_of_find?_eq_some found)
    · rw [← Option.some.inj steps]
      exact fair
  | probeQueued =>
    rw [← Option.some.inj steps]
    exact fair.steady (l.gate.probeQueued probeClaim) rfl rfl rfl (Gate.Steady.of_fence rfl rfl) _
  | armSection armed trigger =>
    rw [← Option.some.inj steps]
    exact fair.moves below (l.gate.armSection_shifts _ _ _ _ _ _)
  | claimEnds state =>
    rw [← Option.some.inj steps]
    exact fair.steady l.gate rfl rfl rfl (Gate.Steady.refl _) _
  | other op =>
    rw [Line.step] at steps
    split at steps
    · rename_i plain
      rw [Option.map_eq_some_iff] at steps
      rcases steps with ⟨⟨traffic, gate⟩, is, same⟩
      rw [← same]
      exact fair.moves below (Gate.step_plain plain is).toShifts
    · rw [← Option.some.inj steps]
      exact fair

end Fair

/-- A step of an allowed operation, with neither counter about to wrap. -/
def Steps (allowed : LineOp T → Prop) (l l' : Line T) : Prop :=
  ∃ op, allowed op ∧ l.Below ∧ l.step op = some l'

abbrev Reaches (allowed : LineOp T → Prop) : Line T → Line T → Prop :=
  Relation.ReflTransGen (Steps allowed)

variable {l l' : Line T}

theorem Reaches.keeps {allowed : LineOp T → Prop} (reaches : Reaches allowed l l')
    (holds : Line T → Prop)
    (keeps : ∀ l op l', allowed op → l.Below → l.step op = some l' → holds l → holds l')
    (start : holds l) : holds l' := by
  induction reaches with
  | refl => exact start
  | tail _ step ih =>
    rcases step with ⟨op, allows, below, is⟩
    exact keeps _ op _ allows below is ih

theorem Reaches.fair {allowed : LineOp T → Prop} (reaches : Reaches allowed l l') (fair : l.Fair) :
    l'.Fair :=
  reaches.keeps Fair (fun _ _ _ _ below is fair => fair.step below is) fair

inductive Moves (l : Line T) : LineOp T → Gate T → Doorbell.ClaimState → Prop
  | admits (via : LineOp T) (op : T) (len : ℕ) (waiter : Option Waiter) (passes : T → ℕ → Bool)
      (out : Admission T × Option ClaimId × Gate T)
      (answers : Gate.Answers l.gate op len waiter passes out) :
      Moves l via out.2.2 (l.takeBack out.2.1)
  | still (via : LineOp T) : Moves l via l.gate l.claim
  | drops (id : ℕ) : Moves l (.drop id) (l.gate.dropWaiter id) l.claim
  | queues : Moves l .probeQueued (l.gate.probeQueued probeClaim) l.claim
  | arms (armed : GateStatus → Except ArmRefusal Unit) (trigger : ℕ) :
      Moves l (.armSection armed trigger) (l.armed armed trigger).2 l.claim
  | ends (state : Doorbell.ClaimState) :
      Moves l (.claimEnds state) l.gate (if l.claim = .queued then state else l.claim)
  | plain (op : GateOp T) (plain : op.plain = true) (traffic : Traffic T) (gate : Gate T)
      (is : l.gate.step op = some (traffic, gate)) : Moves l (.other op) gate l.claim

theorem offer_frame (l : Line T) (op : T) (len : ℕ) (passes : T → ℕ → Bool) (hold : T → Bool × T) :
    (l.offer op len passes hold).gate = (l.offered op len passes hold).2.2 ∧
      (l.offer op len passes hold).claim = l.takeBack (l.offered op len passes hold).2.1 := by
  unfold offer
  generalize l.offered op len passes hold = out
  rcases out with ⟨answer, taken, gate⟩
  cases answer with
  | _ => exact ⟨rfl, rfl⟩

theorem again_frame (l : Line T) (p : Place T) (passes : T → ℕ → Bool) (hold : T → Bool × T) :
    (l.again p passes hold).gate = (l.offeredAgain p passes hold).2.2 ∧
      (l.again p passes hold).claim = l.takeBack (l.offeredAgain p passes hold).2.1 := by
  unfold again
  generalize l.offeredAgain p passes hold = out
  rcases out with ⟨answer, taken, gate⟩
  cases answer with
  | _ => exact ⟨rfl, rfl⟩

variable {op : LineOp T}

theorem step_moves (steps : l.step op = some l') : Moves l op l'.gate l'.claim := by
  cases op with
  | offer op len passes hold =>
    rw [← Option.some.inj steps, (l.offer_frame op len passes hold).1,
      (l.offer_frame op len passes hold).2]
    exact .admits _ op len none passes _ (l.gate.admitUnless_answers op len none passes hold)
  | again id passes hold =>
    rw [step] at steps
    split at steps
    · rename_i p found
      rw [← Option.some.inj steps]
      split
      · exact .still _
      · rw [(l.again_frame p passes hold).1, (l.again_frame p passes hold).2]
        exact .admits _ p.op p.len (some p.waiter) passes _
          (l.gate.admitUnless_answers p.op p.len (some p.waiter) passes hold)
    · rw [← Option.some.inj steps]
      exact .still _
  | check id =>
    rw [step] at steps
    split at steps
    · rw [← Option.some.inj steps]
      split
      · unfold check
        split
        · exact .still _
        · exact .still _
      · exact .still _
    · rw [← Option.some.inj steps]
      exact .still _
  | drop id =>
    rw [step] at steps
    split at steps
    · rename_i p found
      have is : p.id = id := by
        have same := List.find?_some found
        exact of_decide_eq_true same
      rw [← Option.some.inj steps, ← is]
      unfold drop
      split
      · exact .drops p.id
      · exact .drops p.id
    · rw [← Option.some.inj steps]
      exact .still _
  | probeQueued =>
    rw [← Option.some.inj steps]
    exact .queues
  | armSection armed trigger =>
    rw [← Option.some.inj steps]
    exact .arms armed trigger
  | claimEnds state =>
    rw [← Option.some.inj steps]
    exact .ends state
  | other op =>
    rw [step] at steps
    split at steps
    · rename_i plain
      rw [Option.map_eq_some_iff] at steps
      rcases steps with ⟨⟨traffic, gate⟩, is, same⟩
      rw [← same]
      exact .plain op plain traffic gate is
    · rw [← Option.some.inj steps]
      exact .still _

theorem nextWaiter_le (below : l.Below) (steps : l.step op = some l') :
    l.gate.nextWaiter ≤ l'.gate.nextWaiter := by
  have moves := step_moves steps
  generalize l'.gate = gate at moves
  generalize l'.claim = claim at moves
  cases moves with
  | admits _ op len waiter passes out answers =>
    by_cases full : out.1.verdict = .full
    · rw [(answers.stuck full).1]
      cases waiter with
      | none =>
        refine Nat.le_trans (Nat.le_succ _) ?_
        exact (Nat.mod_eq_of_lt below.2).symm.le
      | some waiter => exact Nat.le_refl _
    · exact (answers.steady full).2.1.symm.le
  | still => exact Nat.le_refl _
  | drops id =>
    unfold Gate.dropWaiter
    split
    · exact Nat.le_refl _
    · exact Nat.le_refl _
  | queues => exact Nat.le_refl _
  | arms armed trigger => exact (l.gate.armSection_shifts _ _ _ _ _ _).nextWaiter.symm.le
  | ends state => exact Nat.le_refl _
  | plain op plain traffic gate is => exact (Gate.step_plain plain is).nextWaiter.symm.le

/-- The probe's claim is out of the queue for good, or the gate is retired. -/
def Withdrawn (l : Line T) : Prop := l.claim ≠ .queued ∨ l.gate.retired = true

def Pending (l : Line T) : Prop := l.gate.probe = some probeClaim ∨ l.Withdrawn

def LineOp.unarmed : LineOp T → Prop
  | .armSection .. => False
  | _ => True

theorem withdraw_ne_queued (state : Doorbell.ClaimState) : withdraw state ≠ .queued := by
  cases state with
  | _ => exact Doorbell.ClaimState.noConfusion

theorem takeBack_ne_queued (left : l.claim ≠ .queued) (taken : Option ClaimId) :
    l.takeBack taken ≠ .queued := by
  unfold takeBack
  split
  · exact withdraw_ne_queued _
  · exact left

theorem takeBack_of_answers {op : T} {len : ℕ} {waiter : Option Waiter} {passes : T → ℕ → Bool}
    {out : Admission T × Option ClaimId × Gate T}
    (answers : Gate.Answers l.gate op len waiter passes out) :
    out.2.2.retired = l.gate.retired ∧
      (out.2.2.probe = l.gate.probe ∨ out.2.1 = l.gate.probe) := by
  have full : (l.gate.answerFull op waiter).2.2.retired = l.gate.retired ∧
      (l.gate.answerFull op waiter).2.2.probe = l.gate.probe := by
    cases waiter with
    | none => exact ⟨rfl, rfl⟩
    | some waiter => exact ⟨rfl, rfl⟩
  cases answers with
  | behind => exact ⟨full.1, .inl full.2⟩
  | full => exact ⟨full.1, .inl full.2⟩
  | opened first active opens taken gate some empty =>
    by_cases is : len = 0
    · rw [(empty is).2]
      exact ⟨rfl, .inl rfl⟩
    · rcases some (Nat.pos_of_ne_zero is) with ⟨takes, rest⟩
      rw [rest]
      exact ⟨rfl, .inr takes⟩
  | _ => exact ⟨rfl, .inl rfl⟩

theorem Withdrawn.step (withdrawn : l.Withdrawn) (steps : l.step op = some l') : l'.Withdrawn := by
  have moves := step_moves steps
  unfold Withdrawn at withdrawn ⊢
  generalize l'.gate = gate at moves ⊢
  generalize l'.claim = claim at moves ⊢
  cases moves with
  | admits _ op len waiter passes out answers =>
    rw [(takeBack_of_answers answers).1]
    exact withdrawn.imp_left fun left => takeBack_ne_queued left _
  | still => exact withdrawn
  | drops id =>
    unfold Gate.dropWaiter
    split
    · exact withdrawn
    · exact withdrawn
  | queues => exact withdrawn
  | arms armed trigger =>
    exact withdrawn.imp_right (l.gate.armSection_shifts _ _ _ _ _ _).retired
  | ends state =>
    refine withdrawn.imp_left fun left => ?_
    rw [if_neg left]
    exact left
  | plain op plain traffic gate is =>
    exact withdrawn.imp_right (Gate.step_plain plain is).retired

theorem Pending.step (pending : l.Pending) (unarmed : LineOp.unarmed op)
    (steps : l.step op = some l') : l'.Pending := by
  rcases pending with queued | withdrawn
  · have moves := step_moves steps
    unfold Pending Withdrawn
    generalize l'.gate = gate at moves ⊢
    generalize l'.claim = claim at moves ⊢
    cases moves with
    | admits _ op len waiter passes out answers =>
      rcases (takeBack_of_answers answers).2 with same | taken
      · exact .inl (same.trans queued)
      · refine .inr (.inl ?_)
        unfold takeBack
        rw [if_pos (taken.trans queued)]
        exact withdraw_ne_queued _
    | still => exact .inl queued
    | drops id =>
      refine .inl ?_
      unfold Gate.dropWaiter
      split
      · exact queued
      · exact queued
    | queues => exact .inl rfl
    | arms armed trigger => exact unarmed.elim
    | ends state => exact .inl queued
    | plain op plain traffic gate is =>
      rcases (Gate.step_plain plain is).probe with same | retired
      · exact .inl (same.trans queued)
      · exact .inr (.inr retired)
  · exact .inr (withdrawn.step steps)

/-- A non-empty op is answered open in this step. -/
def LetsThrough (l : Line T) : LineOp T → Prop
  | .offer op len passes hold => 0 < len ∧ (l.offered op len passes hold).1.verdict = .opened
  | .again id passes hold => ∃ p, l.find id = some p ∧ p.stand ≠ .answered ∧ 0 < p.len ∧
      (l.offeredAgain p passes hold).1.verdict = .opened
  | _ => False

end Line

namespace Gate

theorem Answers.opens {g : Gate T} {op : T} {len : ℕ} {waiter : Option Waiter}
    {passes : T → ℕ → Bool} {out : Admission T × Option ClaimId × Gate T}
    (answers : Answers g op len waiter passes out) (nonempty : 0 < len)
    (is : out.1.verdict = .opened) : out.2.1 = g.probe := by
  cases answers with
  | opened first active opens taken gate takes empty => exact (takes nonempty).1
  | behind | full =>
    cases waiter with
    | none => exact Verdict.noConfusion is
    | some waiter => exact Verdict.noConfusion is
  | _ => exact Verdict.noConfusion is

end Gate

namespace Line

variable {l : Line T}

theorem Pending.letsThrough {l' : Line T} {op : LineOp T} (pending : l.Pending)
    (lets : l.LetsThrough op) (steps : l.step op = some l') : l'.Withdrawn := by
  rcases pending with queued | withdrawn
  · cases op with
    | offer op len passes hold =>
      rw [← Option.some.inj steps]
      refine .inl ?_
      rw [(l.offer_frame op len passes hold).2]
      have answers := l.gate.admitUnless_answers op len none passes hold
      have taken : (l.offered op len passes hold).2.1 = some probeClaim :=
        (answers.opens lets.1 lets.2).trans queued
      unfold takeBack
      rw [if_pos taken]
      exact withdraw_ne_queued _
    | again id passes hold =>
      rcases lets with ⟨p, found, waiting, nonempty, opened⟩
      rw [Line.step, found] at steps
      simp only [if_neg waiting] at steps
      rw [← Option.some.inj steps]
      refine .inl ?_
      rw [(l.again_frame p passes hold).2]
      have answers := l.gate.admitUnless_answers p.op p.len (some p.waiter) passes hold
      have taken : (l.offeredAgain p passes hold).2.1 = some probeClaim :=
        (answers.opens nonempty opened).trans queued
      unfold takeBack
      rw [if_pos taken]
      exact withdraw_ne_queued _
    | _ => exact lets.elim
  · exact withdrawn.step steps

theorem Withdrawn.armed (withdrawn : l.Withdrawn) (critical : GateStatus → Except ArmRefusal Unit)
    (trigger : ℕ) :
    (l.armed critical trigger).1 =
      .error (if l.gate.retired then ArmRefusal.retired else .takenBack) := by
  unfold Line.armed Gate.armSection
  simp only
  split
  · rfl
  · rename_i active
    rcases withdrawn with left | retired
    · rw [decide_eq_false left]
      rfl
    · exact absurd retired active

/-- The operations that open no fence. -/
def LineOp.closing : LineOp T → Prop
  | .other .release => False
  | .other (.releaseCut _ _) => False
  | .other (.releaseUntilIf _ _ _ _) => False
  | .other .openIfEmpty => False
  | .other .retireCounted => False
  | _ => True

def Fenced (l : Line T) : Prop := l.gate.fence.isSome = true ∧ l.gate.retired = false

theorem fence_of_steady {g g' : Gate T} (steady : Gate.Steady g g')
    (closed : g.fence.isSome) : g'.fence.isSome := by
  rcases Option.isSome_iff_exists.mp closed with ⟨fence, is⟩
  rcases steady.fence fence is with ⟨fence', is', _⟩
  rw [is']
  rfl

theorem plain_fenced {g gate : Gate T} {op : GateOp T} (plain : op.plain)
    (closing : LineOp.closing (.other op)) (closed : g.fence.isSome)
    (active : g.retired = false) {traffic : Traffic T} (is : g.step op = some (traffic, gate)) :
    gate.fence.isSome = true ∧ gate.retired = false := by
  rcases Option.isSome_iff_exists.mp closed with ⟨fence, there⟩
  have used := Bool.eq_false_iff.mp active
  cases op with
  | fence trigger =>
    rw [← (Prod.mk.inj (Option.some.inj is)).2]
    unfold Gate.close
    rw [if_neg used, there]
    exact ⟨closed, active⟩
  | refuseHeldIf authority candidate =>
    rw [Gate.step, Option.map_eq_some_iff] at is
    rcases is with ⟨⟨out, after⟩, is, same⟩
    rw [← (Prod.mk.inj same).2]
    unfold Gate.refuseHeldIf at is
    rw [there] at is
    simp only at is
    split at is
    · rw [← (Prod.mk.inj (Option.some.inj is)).2]
      exact ⟨closed, active⟩
    · split at is
      · rw [← (Prod.mk.inj (Option.some.inj is)).2]
        exact ⟨closed, active⟩
      · rw [Option.map_eq_some_iff] at is
        rcases is with ⟨heldBytes, _, is⟩
        rw [← (Prod.mk.inj is).2]
        exact ⟨rfl, active⟩
  | cutOpen op len trigger split =>
    rw [Gate.step, Gate.cutOpen, if_neg used, there] at is
    rw [← (Prod.mk.inj (Option.some.inj is)).2]
    exact ⟨rfl, active⟩
  | cutHold op len trigger =>
    rw [Gate.step, Gate.cutHold, if_neg used] at is
    rw [← (Prod.mk.inj (Option.some.inj is)).2]
    exact ⟨rfl, active⟩
  | admitUnless | armSection | probeQueued | dropWaiter => exact absurd plain Bool.false_ne_true
  | _ => exact closing.elim

theorem Fenced.step {l' : Line T} {op : LineOp T} (fenced : l.Fenced) (closing : LineOp.closing op)
    (steps : l.step op = some l') : l'.Fenced := by
  rcases fenced with ⟨closed, active⟩
  have moves := step_moves steps
  unfold Fenced
  generalize l'.gate = gate at moves ⊢
  generalize l'.claim = claim at moves
  cases moves with
  | admits _ op len waiter passes out answers =>
    refine ⟨?_, (takeBack_of_answers answers).1.trans active⟩
    by_cases full : out.1.verdict = .full
    · rw [(answers.stuck full).1]
      cases waiter with
      | none => exact closed
      | some waiter => exact closed
    · exact fence_of_steady (answers.steady full).2.2.2 closed
  | still => exact ⟨closed, active⟩
  | drops id =>
    unfold Gate.dropWaiter
    split
    · exact ⟨closed, active⟩
    · exact ⟨closed, active⟩
  | queues => exact ⟨closed, active⟩
  | arms armed trigger =>
    unfold Line.armed Gate.armSection
    rw [if_neg (Bool.eq_false_iff.mp active)]
    split
    · exact ⟨closed, active⟩
    · split
      · exact ⟨closed, active⟩
      · exact ⟨rfl, active⟩
  | ends state => exact ⟨closed, active⟩
  | plain op plain traffic gate is => exact plain_fenced plain closing closed active is

theorem fenced_of_armed {critical : GateStatus → Except ArmRefusal Unit} {trigger : ℕ}
    (ran : (l.armed critical trigger).1 = .ok ()) :
    (l.moves (l.armed critical trigger).2).Fenced := by
  unfold Fenced moves
  unfold Line.armed Gate.armSection at ran ⊢
  simp only at ran ⊢
  split at ran
  · simp only [reduceCtorEq] at ran
  · rename_i active
    rw [if_neg active]
    split at ran
    · simp only [reduceCtorEq] at ran
    · rename_i pending
      rw [if_neg pending]
      split at ran
      · simp only [reduceCtorEq] at ran
      · exact ⟨rfl, Bool.eq_false_iff.mpr active⟩

theorem Fenced.answers (fenced : l.Fenced) {op : T} {len : ℕ} (nonempty : 0 < len)
    {waiter : Option Waiter} {passes : T → ℕ → Bool} {out : Admission T × Option ClaimId × Gate T}
    (answers : Gate.Answers l.gate op len waiter passes out) :
    out.1.verdict = .passAhead ∨ out.1.verdict = .held ∨ out.1.verdict = .full ∨
      out.1.verdict = .refused := by
  have full : (l.gate.answerFull op waiter).1.verdict = .full := by
    cases waiter with
    | none => rfl
    | some waiter => rfl
  cases answers with
  | retired retired => exact absurd (fenced.2.symm.trans retired) Bool.false_ne_true
  | passAhead => exact .inl rfl
  | settled closed empty => exact absurd empty (Nat.pos_iff_ne_zero.mp nonempty)
  | behind => exact .inr (.inr (.inl full))
  | full => exact .inr (.inr (.inl full))
  | opened first active opens =>
    have closed := fenced.1
    rw [opens] at closed
    cases closed
  | held => exact .inr (.inl rfl)
  | refused => exact .inr (.inr (.inr rfl))

theorem Fair.taken_after {l' : Line T} (later : Reaches (fun _ => True) l l') (fair : l.Fair)
    {p : Place T} (mem : p ∈ l.live) (kept : p.id ∉ l'.cancelled) {op : T} {len : ℕ}
    {waiter : Option Waiter} {passes : T → ℕ → Bool} {out : Admission T × Option ClaimId × Gate T}
    (answers : Gate.Answers l'.gate op len waiter passes out)
    (young : ∀ w ∈ waiter, l.gate.nextWaiter ≤ w.id) (taken : out.1.verdict.taken) :
    ∃ v, (p.id, v) ∈ l'.answers ∧ (v.taken = true ∨ v = .passAhead ∨ v = .settled) := by
  have fair' := later.fair fair
  have old := fair.fresh p mem
  have grows : l.gate.nextWaiter ≤ l'.gate.nextWaiter :=
    later.keeps (fun m => l.gate.nextWaiter ≤ m.gate.nextWaiter)
      (fun _ _ _ _ below is before => Nat.le_trans before (nextWaiter_le below is)) (Nat.le_refl _)
  rcases answers.taken taken with ⟨first, active⟩
  rcases fair'.gone p.id (Nat.lt_of_lt_of_le old grows) with live | cancelled | ⟨v, answered⟩
  · -- The head of the queue is no younger than this waiter, and so is not the one who offers.
    cases ids : l'.live.map Place.id with
    | nil =>
      rw [ids] at live
      cases live
    | cons head rest =>
      have is := first head (by rw [fair'.queue, ids]; rfl)
      have order := fair'.order
      rw [ids] at live order
      have before : head ≤ p.id := by
        rcases List.mem_cons.mp live with same | after
        · exact same.symm.le
        · exact Nat.le_of_lt (List.rel_of_pairwise_cons order after)
      cases made : waiter with
      | none =>
        rw [made] at is
        cases is
      | some w =>
        rw [made] at is young
        have same : head = w.id := Option.some.inj is
        have after := young w rfl
        omega
  · exact absurd cancelled kept
  · refine ⟨v, answered, ?_⟩
    have not := fair'.answers _ answered
    cases v with
    | retired => exact absurd (active.symm.trans (not.2 rfl)) Bool.false_ne_true
    | full => exact absurd rfl not.1
    | passAhead => exact .inr (.inl rfl)
    | settled => exact .inr (.inr rfl)
    | _ => exact .inl rfl

end Line

open Line in
/-- The gate is fair, wakes who could be admitted, and an op and a probe's arm section exclude each
other. -/
theorem gate_is_fair {l : Line T} (reached : Reaches (fun _ => True) Line.start l) :
    (l.gate.waiters = l.live.map Place.id ∧ (l.live.map Place.id).Pairwise (· < ·)) ∧
    (∀ l', Reaches (fun _ => True) l l' → ∀ p ∈ l.live, p.id ∉ l'.cancelled →
      ∀ op len waiter passes hold, (∀ w ∈ waiter, l.gate.nextWaiter ≤ w.id) →
        (l'.gate.admitUnless op len waiter passes hold).1.verdict.taken = true →
        ∃ v, (p.id, v) ∈ l'.answers ∧ (v.taken = true ∨ v = .passAhead ∨ v = .settled)) ∧
    (∀ p ∈ l.live, p.stand ≠ .answered → l.gate.waiters.head? = some p.id → ∀ hold,
      (l.gate.admitUnless p.op p.len (some p.waiter) p.passes hold).1.verdict ≠ .full →
        p.stand ≠ .asleep ∧ (l.gate.version ≠ p.waiter.seen ∨ p.answeredAt < l.gate.version)) ∧
    (∀ l₁ op l₂ l₃, Reaches LineOp.unarmed { l with gate := l.gate.probeQueued probeClaim } l₁ →
      l₁.LetsThrough op → l₁.step op = some l₂ → Reaches LineOp.unarmed l₂ l₃ →
        ∀ run trigger, (l₃.armed run trigger).1 =
          .error (if l₃.gate.retired then ArmRefusal.retired else .takenBack)) ∧
    (∀ run trigger, (l.armed run trigger).1 = .ok () →
      ∀ l', Reaches LineOp.closing (l.moves (l.armed run trigger).2) l' →
        ∀ op len waiter passes hold, 0 < len →
          (l'.gate.admitUnless op len waiter passes hold).1.verdict ∈
            [Verdict.passAhead, .held, .full, .refused]) := by
  have fair := reached.fair fair_start
  refine ⟨⟨fair.queue, fair.order⟩, ?_, ?_, ?_, ?_⟩
  · intro l' later p mem kept op len waiter passes hold young taken
    exact fair.taken_after later mem kept (l'.gate.admitUnless_answers op len waiter passes hold)
      young taken
  · intro p mem waiting head hold free
    have answered : p.answeredAt < l.gate.version := by
      refine Nat.lt_of_le_of_ne (fair.answered p mem) ?_
      intro current
      refine free ?_
      rw [(fair.blocked p mem waiting current head).full]
      rfl
    refine ⟨?_, .inr answered⟩
    intro asleep
    have seen := fair.waits p mem (.inr asleep)
    rw [fair.asleep p mem asleep] at seen
    omega
  · intro l₁ op l₂ l₃ before lets steps after run trigger
    have pending : l₁.Pending :=
      before.keeps Pending (fun _ _ _ unarmed _ is pending => pending.step unarmed is) (.inl rfl)
    have withdrawn : l₃.Withdrawn :=
      after.keeps Withdrawn (fun _ _ _ _ _ is withdrawn => withdrawn.step is)
        (pending.letsThrough lets steps)
    exact withdrawn.armed run trigger
  · intro run trigger ran l' later op len waiter passes hold nonempty
    have fenced : l'.Fenced :=
      later.keeps Fenced (fun _ _ _ closing _ is fenced => fenced.step closing is)
        (fenced_of_armed ran)
    have answers := fenced.answers nonempty (l'.gate.admitUnless_answers op len waiter passes hold)
    simp only [List.mem_cons, List.not_mem_nil, or_false]
    exact answers

namespace Line

def after (l : Line T) (op : LineOp T) : Line T := (l.step op).getD l

theorem Reaches.after {l₀ l : Line T} (reaches : Reaches (fun _ => True) l₀ l) (below : l.Below)
    (op : LineOp T) (steps : (l.step op).isSome) : Reaches (fun _ => True) l₀ (l.after op) := by
  refine reaches.tail ⟨op, trivial, below, ?_⟩
  rcases Option.isSome_iff_exists.mp steps with ⟨l', is⟩
  rw [Line.after, is]
  rfl

/-- A fence full of one op, and an op that waits behind it. -/
def crowded : Line ℕ :=
  ((start.after (.other (.fence 5))).after
    (.offer 1 fenceCap (fun _ _ => false) fun op => (true, op))).after
      (.offer 2 1 (fun _ _ => false) fun op => (true, op))

theorem crowded_reached : Reaches (fun _ => True) start crowded := by
  refine Reaches.after (Reaches.after (Reaches.after .refl ?_ _ ?_) ?_ _ ?_) ?_ _ ?_
  · exact ⟨by decide, by decide⟩
  · decide
  · exact ⟨by decide, by decide⟩
  · decide
  · exact ⟨by decide, by decide⟩
  · decide

end Line

open Line in
theorem gate_is_fair_crowded :
    crowded.live.map Place.id = [0] ∧ crowded.gate.waiters = crowded.live.map Place.id :=
  ⟨by decide, (gate_is_fair crowded_reached).1.1⟩

namespace Line

/-- The holder of the op that waits has gone to sleep. -/
def sleeping : Line ℕ := crowded.after (.check 0)

/-- The op that waits passes ahead on its next offer, its waiter is dropped, and the fence opens. -/
def passedAhead : Line ℕ :=
  ((crowded.after (.again 0 (fun _ _ => true) fun op => (true, op))).after (.drop 0)).after
    (.other .release)

theorem passedAhead_reached : Reaches (fun _ => True) crowded passedAhead := by
  refine Reaches.after (Reaches.after (Reaches.after .refl ?_ _ ?_) ?_ _ ?_) ?_ _ ?_
  · exact ⟨by decide, by decide⟩
  · decide
  · exact ⟨by decide, by decide⟩
  · decide
  · exact ⟨by decide, by decide⟩
  · decide

end Line

open Line in
/-- A sleeper that was answered full at the gate's version could pass ahead under another closure,
and an op that passed ahead is never taken, though a later one is. -/
theorem waiter_passes_ahead :
    (Reaches (fun _ => True) crowded sleeping ∧ ∃ p ∈ sleeping.live, p.stand = .asleep ∧
      sleeping.gate.waiters.head? = some p.id ∧ sleeping.gate.version = p.waiter.seen ∧
        p.answeredAt = sleeping.gate.version ∧
          (sleeping.gate.admitUnless p.op p.len (some p.waiter) (fun _ _ => true)
            fun op => (true, op)).1.verdict = .passAhead) ∧
      Reaches (fun _ => True) crowded passedAhead ∧ 0 ∉ passedAhead.cancelled ∧
        passedAhead.answers = [(0, .passAhead)] ∧
          (passedAhead.gate.admitUnless 3 1 none (fun _ _ => false)
            fun op => (true, op)).1.verdict = .opened := by
  refine ⟨⟨?_, ?_⟩, passedAhead_reached, by decide, by decide, by decide⟩
  · exact Reaches.after .refl ⟨by decide, by decide⟩ _ (by decide)
  · exact ⟨_, List.mem_of_getElem? (i := 0) rfl, by decide, by decide, by decide, by decide,
      by decide⟩

end AgentDeck.Probe
