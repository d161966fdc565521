import AgentDeck.Inbox.Rate

/-!
# The rate limit along a run

Along a run at non-decreasing instants the inbox recalls, for each agent, every accepted post that
may still count, so the check counts accepted posts and nothing else. A tick forgets only what no
longer counts: it never changes what the check decides. It may still change whether a post is
accepted, since it ends claims and offers that are due and so makes room.
-/

namespace AgentDeck.Inbox

open SlidingWindow (Recalls counts within)

variable {inbox : Inbox} {agent : String}

theorem acceptedFrom_cons (op : Op) (rest : List Op) :
    acceptedFrom agent inbox (op :: rest) =
      acceptedFrom agent inbox [op] ++ acceptedFrom agent (inbox.apply op) rest := by
  simp only [acceptedFrom]
  cases op.counted inbox with
  | none => rfl
  | some counted => simp only [List.append_nil]

theorem acceptedFrom_append (past rest : List Op) : acceptedFrom agent inbox (past ++ rest) =
    acceptedFrom agent inbox past ++ acceptedFrom agent (inbox.run past) rest := by
  induction past generalizing inbox with
  | nil => rfl
  | cons op past ih =>
    rw [List.cons_append, acceptedFrom_cons, ih, acceptedFrom_cons op past, List.append_assoc]
    rfl

variable {now : Instant} {sender : Sender}

theorem instant_of_quota {op : Op} (quota : op.quota = some (now, sender)) :
    op.instant = some now := by
  cases op <;> cases quota <;> rfl

theorem acceptedFrom_accepted {op : Op} (quota : op.quota = some (now, sender))
    (accepted : (op.posted inbox).isSome) :
    acceptedFrom agent inbox [op] = if sender.agentId = some agent then [now] else [] := by
  simp only [acceptedFrom, Op.counted, quota, accepted, if_true]
  cases sender.agentId with
  | none => rfl
  | some other =>
    simp only [Option.map_some, Option.some.injEq, List.append_nil]

theorem acceptedFrom_quiet {op : Op}
    (quiet : ∀ now sender, op.quota = some (now, sender) → op.posted inbox = none) :
    acceptedFrom agent inbox [op] = [] := by
  simp only [acceptedFrom, Op.counted]
  cases quota : op.quota with
  | none => rfl
  | some call =>
    simp only [quiet call.1 call.2 quota]
    rfl

theorem recorded_get? (now : Instant) (sender : Sender) (rate : SortedMap String (List Instant)) :
    ((recorded now sender rate).get? agent).getD [] =
      (rate.get? agent).getD [] ++ if sender.agentId = some agent then [now] else [] := by
  simp only [recorded]
  cases sender.agentId with
  | none => exact (List.append_nil _).symm
  | some other =>
    simp only [SortedMap.get?_insert, Option.some.injEq]
    by_cases own : agent = other
    · rw [if_pos own, if_pos own.symm, own, Option.getD_some]
    · rw [if_neg own, if_neg fun equal => own equal.symm, List.append_nil]

theorem expiredRate_get? (now : Instant) (rate : SortedMap String (List Instant)) :
    ((expiredRate now rate).get? agent).getD [] = ((rate.get? agent).getD []).dropWhile
      fun time => decide (rateWindow ≤ now - time) := by
  simp only [expiredRate, SortedMap.get?_filter, SortedMap.get?_map]
  cases rate.get? agent with
  | none => rfl
  | some times =>
    simp only [Option.map_some, Option.getD_some]
    generalize times.dropWhile _ = left
    cases left <;> rfl

/-- What the inbox recalls of the posts it accepted from `agent`. -/
structure Remembered (limit : ℕ) (agent : String) (accepted : List Instant) (clock : Instant)
    (inbox : Inbox) : Prop where
  recalls : Recalls rateWindow clock accepted ((inbox.rate.get? agent).getD [])
  limited : SlidingWindow.Limited rateWindow limit accepted

namespace Remembered

variable {limit : ℕ} {accepted : List Instant} {clock now : Instant}

theorem later (tracks : Remembered limit agent accepted clock inbox) (onward : clock ≤ now) :
    Remembered limit agent accepted now inbox :=
  ⟨tracks.recalls.later onward, tracks.limited⟩

theorem recentFrom_eq (tracks : Remembered limit agent accepted clock inbox)
    (onward : clock ≤ now) : inbox.recentFrom now agent = accepted.countP (counts rateWindow now) :=
  tracks.recalls.countP_recent onward

theorem step {op : Op} (tracks : Remembered limit agent accepted now inbox)
    (bound : inbox.limits.ratePerMinute = limit)
    (made : ∀ time, op.instant = some time → time = now) :
    Remembered limit agent (accepted ++ acceptedFrom agent inbox [op]) now (inbox.apply op) := by
  cases apply_rate inbox op with
  | counts time sender quota posted counts =>
    have same : time = now := made time (instant_of_quota quota)
    subst same
    rw [acceptedFrom_accepted quota posted]
    refine ⟨?_, ?_⟩
    · rw [counts.recorded, recorded_get?]
      split
      · exact tracks.recalls.add (le_refl _)
      · rw [List.append_nil, List.append_nil]
        exact tracks.recalls
    · split
      · rename_i own
        apply tracks.limited.add
        rw [← tracks.recentFrom_eq (le_refl _), ← bound]
        exact (checkRate_ok time sender).mp counts.checked agent own
      · rw [List.append_nil]
        exact tracks.limited
  | expires time tick expired =>
    have same : time = now := made time (by rw [tick]; rfl)
    subst same
    subst tick
    have quiet : acceptedFrom agent inbox [Op.tick time] = [] := rfl
    rw [quiet, List.append_nil]
    refine ⟨?_, tracks.limited⟩
    rw [expired, expiredRate_get?]
    exact tracks.recalls.expire (le_refl _)
  | same quiet same =>
    rw [acceptedFrom_quiet quiet, List.append_nil]
    refine ⟨?_, tracks.limited⟩
    rw [same]
    exact tracks.recalls

end Remembered

theorem run_concat (inbox : Inbox) (past : List Op) (op : Op) :
    inbox.run (past ++ [op]) = (inbox.run past).apply op := by
  simp only [run, List.foldl_append, List.foldl_cons, List.foldl_nil]

variable (deck : String) (limits : InboxLimits)

theorem run_limits (ops : List Op) : ((new deck limits).run ops).limits = limits :=
  (run_reaches (new_sound deck limits) ops).limits_eq

def InOrder (ops : List Op) : Prop := (ops.filterMap Op.instant).Pairwise (· ≤ ·)

instance (ops : List Op) : Decidable (InOrder ops) :=
  inferInstanceAs (Decidable (List.Pairwise _ _))

theorem run_tracks (agent : String) {ops : List Op} (inOrder : InOrder ops) {clock : Instant}
    (reached : ∀ time ∈ ops.filterMap Op.instant, time ≤ clock) :
    Remembered limits.ratePerMinute agent (acceptedFrom agent (new deck limits) ops) clock
      ((new deck limits).run ops) := by
  induction ops using List.reverseRecOn generalizing clock with
  | nil =>
    refine ⟨⟨[], rfl, ?_⟩, .nil⟩
    intro time mem
    cases mem
  | append_singleton past op ih =>
    simp only [InOrder, List.filterMap_append, List.pairwise_append] at inOrder
    simp only [List.filterMap_append, List.mem_append] at reached
    rw [run_concat, acceptedFrom_append]
    have bound := congrArg InboxLimits.ratePerMinute (run_limits deck limits past)
    cases made : op.instant with
    | none =>
      have tracks := ih inOrder.1 fun time mem => reached time (Or.inl mem)
      apply tracks.step bound
      intro time timed
      rw [made] at timed
      cases timed
    | some now =>
      have single : [op].filterMap Op.instant = [now] := by
        simp only [List.filterMap_cons, made, List.filterMap_nil]
      rw [single] at inOrder reached
      have tracks := ih inOrder.1 fun time mem =>
        inOrder.2.2 time mem now List.mem_cons_self
      refine (tracks.step bound ?_).later (reached now (Or.inr List.mem_cons_self))
      intro time timed
      rw [made] at timed
      exact (Option.some.inj timed).symm

/-! ## The limit -/

theorem checkRate_tick (inbox : Inbox) {before : Instant} (onward : before ≤ now) (sender : Sender)
    (same : (inbox.tick before).limits = inbox.limits) :
    (inbox.tick before).checkRate now sender = inbox.checkRate now sender := by
  have recent (agent : String) :
      (inbox.tick before).recentFrom now agent = inbox.recentFrom now agent := by
    simp only [recentFrom, tick_rate, expiredRate_get?]
    have whole : Recalls rateWindow before ((inbox.rate.get? agent).getD [])
        ((inbox.rate.get? agent).getD []) := by
      refine ⟨[], rfl, ?_⟩
      intro time mem
      cases mem
    exact (whole.expire (le_refl _)).countP_recent onward
  cases agentId : sender.agentId with
  | none => simp only [checkRate, agentId]
  | some agent =>
    have again : (((inbox.tick before).rate.get? agent).getD []).countP
        (fun time => decide (now - time < rateWindow)) =
          ((inbox.rate.get? agent).getD []).countP fun time => decide (now - time < rateWindow) :=
      recent agent
    simp only [checkRate, agentId, again, same]

theorem checkRate_iff {past : List Op} (inOrder : InOrder past)
    (reached : ∀ time ∈ past.filterMap Op.instant, time ≤ now) (sender : Sender) :
    ((new deck limits).run past).checkRate now sender = .ok () ↔
      ∀ agent, sender.agentId = some agent →
        (acceptedFrom agent (new deck limits) past).countP (counts rateWindow now) <
          limits.ratePerMinute := by
  rw [checkRate_ok, run_limits]
  constructor <;>
  · intro below agent named
    have counted := (run_tracks deck limits agent inOrder reached).recentFrom_eq (le_refl now)
    have fewer := below agent named
    omega

theorem checkRate_ticks {past : List Op} (ticks : List Instant)
    (onward : ∀ time ∈ ticks, time ≤ now) (sender : Sender) :
    ((new deck limits).run (past ++ ticks.map Op.tick)).checkRate now sender =
      ((new deck limits).run past).checkRate now sender := by
  induction ticks using List.reverseRecOn with
  | nil => rw [List.map_nil, List.append_nil]
  | append_singleton ticks time ih =>
    rw [List.map_append, ← List.append_assoc, List.map_cons, List.map_nil, run_concat]
    rw [← ih fun other mem => onward other (List.mem_append_left _ mem)]
    apply checkRate_tick _ (onward time (List.mem_append_right _ List.mem_cons_self))
    have limitsEq := run_limits deck limits ((past ++ ticks.map Op.tick) ++ [.tick time])
    rw [run_concat] at limitsEq
    exact limitsEq.trans (run_limits deck limits (past ++ ticks.map Op.tick)).symm

/-- What holds of one counted call in a run: `past` is what came before it. -/
structure Metered (deck : String) (limits : InboxLimits) (past : List Op) (op : Op)
    (now : Instant) (sender : Sender) : Prop where
  accepted : (op.posted ((new deck limits).run past)).isSome = true →
    ((new deck limits).run past).checkRate now sender = .ok ()
  refused : op.posted ((new deck limits).run past) = none →
    ((new deck limits).run (past ++ [op])).rate = ((new deck limits).run past).rate
  decided : ((new deck limits).run past).checkRate now sender = .ok () ↔
    ∀ agent, sender.agentId = some agent →
      (acceptedFrom agent (new deck limits) past).countP (counts rateWindow now) <
        limits.ratePerMinute
  ticked : ∀ ticks : List Instant, (∀ time ∈ ticks, time ≤ now) →
    ((new deck limits).run (past ++ ticks.map Op.tick)).checkRate now sender =
      ((new deck limits).run past).checkRate now sender

theorem metered {past rest : List Op} {op : Op} (inOrder : InOrder (past ++ op :: rest))
    (quota : op.quota = some (now, sender)) : Metered deck limits past op now sender := by
  simp only [InOrder, List.filterMap_append, List.pairwise_append] at inOrder
  have own : now ∈ (op :: rest).filterMap Op.instant :=
    List.mem_filterMap.mpr ⟨op, List.mem_cons_self, instant_of_quota quota⟩
  have reached : ∀ time ∈ past.filterMap Op.instant, time ≤ now :=
    fun time mem => inOrder.2.2 time mem now own
  have writes := apply_rate ((new deck limits).run past) op
  refine ⟨?_, ?_, checkRate_iff deck limits inOrder.1 reached sender,
    fun ticks onward => checkRate_ticks deck limits ticks onward sender⟩
  · intro accepted
    cases writes with
    | counts other otherSender otherQuota _ counts =>
      rw [quota, Option.some.injEq, Prod.mk.injEq] at otherQuota
      rw [otherQuota.1, otherQuota.2]
      exact counts.checked
    | expires time tick _ =>
      rw [tick] at quota
      cases quota
    | same quiet _ =>
      rw [quiet now sender quota] at accepted
      cases accepted
  · intro refused
    rw [run_concat]
    cases writes with
    | counts _ _ _ accepted _ =>
      rw [refused] at accepted
      cases accepted
    | expires time tick _ =>
      rw [tick] at quota
      cases quota
    | same _ same => exact same

/-- In every half-open window of the rate's length at most `rate_per_minute` posts of one agent are
accepted, and whatever ticks come between, the check decides by these posts. -/
theorem rate_limited (deck : String) (limits : InboxLimits) {ops : List Op}
    (inOrder : InOrder ops) :
    (∀ agent start, (acceptedFrom agent (new deck limits) ops).countP (within rateWindow start) ≤
      limits.ratePerMinute) ∧
      ∀ past op rest now sender, ops = past ++ op :: rest → op.quota = some (now, sender) →
        Metered deck limits past op now sender := by
  constructor
  · intro agent
    have last : ∀ time ∈ ops.filterMap Op.instant, time ≤ (ops.filterMap Op.instant).sum :=
      fun time mem => List.le_sum_of_mem mem
    exact (run_tracks deck limits agent inOrder last).limited
  · intro past op rest now sender split quota
    rw [split] at inOrder
    exact metered deck limits inOrder quota

/-- One message for the whole deck, and one delivery for an offer. -/
def oneSlot : InboxLimits := { InboxLimits.default with maxMessages := 1, maxDeliver := 1 }

def jobFrom (agentId : String) : Content where
  sender := .agent "1" agentId none none
  subject := []
  body := []
  bodyTrust := .trusted
  spillPath := none
  id := none
  preface := none
  provenance := none

def pushedOffer : Op :=
  .offer 0 (.dispatch "1") "pool" none (jobFrom "a") [.bound "2" "b"] "m1"

def laterPublish : Op :=
  .publish (fromSecs 300) (.dispatch "1") "topic" (jobFrom "a") [.bound "2" "b"] "m2"

theorem rate_limited_pushed :
    InOrder [pushedOffer, laterPublish] ∧
      (acceptedFrom "a" (new "deck" oneSlot) [pushedOffer, laterPublish]).countP
        (within rateWindow 0) ≤ oneSlot.ratePerMinute :=
  have inOrder : InOrder [pushedOffer, laterPublish] := by decide +kernel
  ⟨inOrder, (rate_limited "deck" oneSlot inOrder).1 "a" 0⟩

/-- A tick at the instant of a post lets it in: it ends the offer whose time ran out, and the deck
has room again. -/
theorem tick_makes_room :
    laterPublish.posted ((new "deck" oneSlot).run [pushedOffer]) = none ∧
      laterPublish.posted ((new "deck" oneSlot).run [pushedOffer, .tick (fromSecs 300)]) =
        some "m2" := by
  decide +kernel

end AgentDeck.Inbox
