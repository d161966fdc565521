import AgentDeck.Inbox.Bounds

/-!
# Duplicate suppression

The inbox remembers the ids it has posted in a queue and the last state of each in a map. Both
forget the same ids: the oldest ones, either because their window has passed or because newer ids
have taken their place. So an id stays remembered for its window unless `dedup_max_ids` newer ones
came, and an id the inbox still holds is refused whether it is remembered or not.
-/

namespace AgentDeck.Inbox

variable {clock : Option Instant} {inbox later : Inbox}

/-! ## Forgetting the oldest ids -/

/-- The ids of the queue, oldest first. -/
def remembered (dedup : List (Instant × MessageId)) : List MessageId := dedup.map Prod.snd

/-- The queue and the map without the ids `dropped`, which were the oldest. -/
structure Forgets (dropped dedup : List (Instant × MessageId))
    (states : SortedMap MessageId StateName)
    (left : List (Instant × MessageId) × SortedMap MessageId StateName) : Prop where
  queue : dedup = dropped ++ left.1
  states : ∀ id, left.2.get? id =
    if id ∈ remembered dropped then none else states.get? id

theorem Forgets.none (dedup : List (Instant × MessageId)) (states : SortedMap MessageId StateName) :
    Forgets [] dedup states (dedup, states) :=
  ⟨rfl, fun id => by simp [remembered]⟩

variable {dropped dedup : List (Instant × MessageId)} {states : SortedMap MessageId StateName}

theorem Forgets.one {left : List (Instant × MessageId) × SortedMap MessageId StateName}
    (oldest : Instant × MessageId) (forgets : Forgets dropped dedup (states.erase oldest.2) left) :
    Forgets (oldest :: dropped) (oldest :: dedup) states left := by
  constructor
  · rw [forgets.queue, List.cons_append]
  · intro id
    have either : id ∈ remembered (oldest :: dropped) ↔ id = oldest.2 ∨
      id ∈ remembered dropped := by
      simp [remembered]
    rw [forgets.states, SortedMap.get?_erase]
    by_cases old : id ∈ remembered dropped
    · rw [if_pos old, if_pos (either.mpr (Or.inr old))]
    · rw [if_neg old]
      by_cases first : id = oldest.2
      · rw [if_pos first, if_pos (either.mpr (Or.inl first))]
      · rw [if_neg first, if_neg (fun inside => (either.mp inside).elim first old)]

theorem expiredDedup_forgets (now : Instant) (window : Duration)
    (dedup : List (Instant × MessageId)) (states : SortedMap MessageId StateName) :
    ∃ dropped, Forgets dropped dedup states (expiredDedup now window dedup states) ∧
      ∀ entry ∈ dropped, window ≤ now - entry.1 := by
  induction dedup generalizing states with
  | nil => exact ⟨[], .none [] states, by simp⟩
  | cons oldest rest ih =>
    simp only [expiredDedup]
    split
    · exact ⟨[], .none _ states, by simp⟩
    · rename_i passed
      rcases ih (states.erase oldest.2) with ⟨dropped, forgets, old⟩
      refine ⟨oldest :: dropped, forgets.one oldest, ?_⟩
      intro entry mem
      rcases List.mem_cons.mp mem with rfl | mem
      · exact Nat.le_of_not_lt passed
      · exact old entry mem

theorem trimDedup_forgets (limit : ℕ) (dedup : List (Instant × MessageId))
    (states : SortedMap MessageId StateName) :
    ∃ dropped, Forgets dropped dedup states (trimDedup limit dedup states) ∧
      dropped.length = dedup.length - limit := by
  induction dedup generalizing states with
  | nil => exact ⟨[], .none [] states, by simp⟩
  | cons oldest rest ih =>
    simp only [trimDedup]
    split
    · rename_i beyond
      rcases ih (states.erase oldest.2) with ⟨dropped, forgets, length⟩
      refine ⟨oldest :: dropped, forgets.one oldest, ?_⟩
      simp only [List.length_cons] at beyond ⊢
      omega
    · refine ⟨[], .none _ states, ?_⟩
      simp only [List.length_nil]
      omega

/-! ## The queue and the map agree -/

/-- No id is remembered twice, and the map has a state for each and for no other. -/
structure Synced (dedup : List (Instant × MessageId))
    (states : SortedMap MessageId StateName) : Prop where
  apart : (remembered dedup).Nodup
  keys : ∀ id, (states.get? id).isSome = true ↔ id ∈ remembered dedup

theorem Forgets.synced {left : List (Instant × MessageId) × SortedMap MessageId StateName}
    (forgets : Forgets dropped dedup states left) (synced : Synced dedup states) :
    Synced left.1 left.2 := by
  have split : remembered dedup = remembered dropped ++ remembered left.1 := by
    rw [forgets.queue, remembered, List.map_append]
    rfl
  have apart := synced.apart
  rw [split] at apart
  rcases List.nodup_append.mp apart with ⟨_, newer, disjoint⟩
  refine ⟨newer, ?_⟩
  intro id
  have keys := synced.keys id
  rw [split, List.mem_append] at keys
  rw [forgets.states]
  split
  · rename_i old
    constructor
    · intro nonempty
      cases nonempty
    · intro new
      exact absurd rfl (disjoint id old id new)
  · rename_i kept
    rw [keys]
    exact ⟨fun either => either.resolve_left kept, Or.inr⟩

variable {id : MessageId}

theorem Synced.insert (synced : Synced dedup states) (now : Instant)
    (unused : states.get? id = none) (state : StateName) :
    Synced (dedup ++ [(now, id)]) (states.insert id state) := by
  have absent : id ∉ remembered dedup := by
    intro mem
    have nonempty := (synced.keys id).mpr mem
    rw [unused] at nonempty
    cases nonempty
  have split : remembered (dedup ++ [(now, id)]) = remembered dedup ++ [id] := by
    simp [remembered]
  constructor
  · rw [split]
    refine List.nodup_append.mpr ⟨synced.apart, List.nodup_singleton id, ?_⟩
    rintro other mem same only rfl
    exact absent (List.mem_singleton.mp only ▸ mem)
  · intro other
    rw [SortedMap.get?_insert, split, List.mem_append, List.mem_singleton]
    split
    · rename_i same
      simp [same]
    · rename_i different
      rw [synced.keys]
      exact ⟨Or.inl, fun either => either.resolve_right different⟩

theorem Synced.modify (synced : Synced dedup states) (id : MessageId) (f : StateName → StateName) :
    Synced dedup (states.modify id f) := by
  refine ⟨synced.apart, ?_⟩
  intro other
  rw [SortedMap.get?_modify, ← synced.keys]
  split
  · simp
  · rfl

/-- The inbox's ids agree, and it remembers no more of them than it may. -/
structure Remembers (inbox : Inbox) : Prop extends Synced inbox.dedup inbox.dedupState where
  few : inbox.dedup.length ≤ inbox.limits.dedupMaxIds

theorem expireDedup_forgets (inbox : Inbox) (now : Instant) :
    ∃ dropped, Forgets dropped inbox.dedup inbox.dedupState
        ((inbox.expireDedup now).dedup, (inbox.expireDedup now).dedupState) ∧
      ∀ entry ∈ dropped, inbox.limits.dedupWindow ≤ now - entry.1 :=
  expiredDedup_forgets now inbox.limits.dedupWindow inbox.dedup inbox.dedupState

theorem Remembers.expireDedup (remembers : Remembers inbox) (now : Instant) :
    Remembers (inbox.expireDedup now) := by
  rcases expireDedup_forgets inbox now with ⟨dropped, forgets, _⟩
  refine ⟨forgets.synced remembers.toSynced, ?_⟩
  have few := remembers.few
  rw [forgets.queue, List.length_append] at few
  exact Nat.le_trans (Nat.le_add_left _ _) few

theorem Remembers.effect (remembers : Remembers inbox) (effect : Effect clock inbox later) :
    Remembers later := by
  rcases effect.outcome with ⟨index, now, msg, after, back, found, turn, turned, _⟩ |
    ⟨index, msg, found, _, _, rfl⟩ | ⟨now, _, rfl⟩ | ⟨rate, rfl⟩
  · constructor
    · rw [turned.dedup, turned.dedupState]
      exact remembers.toSynced.modify _ _
    · rw [turned.dedup, turned.limits]
      exact remembers.few
  · exact ⟨remembers.toSynced, remembers.few⟩
  · exact remembers.expireDedup now
  · exact ⟨remembers.toSynced, remembers.few⟩

theorem Remembers.effects (remembers : Remembers inbox) (effects : Effects clock inbox later) :
    Remembers later := by
  induction effects with
  | refl => exact remembers
  | tail _ effect ih => exact ih.effect effect

theorem Remembers.act (remembers : Remembers inbox) (act : Act clock inbox later) :
    Remembers later := by
  cases act with
  | quiet effects same => exact remembers.effects effects
  | trim effects now =>
    rcases remembers.effects effects with ⟨synced, few⟩
    exact ⟨synced, few⟩

variable {now : Instant} {copies : List Message}

theorem Remembers.posted (remembers : Remembers inbox) (posted : Posted inbox now id copies later)
    (unused : Unused inbox now id) : Remembers later := by
  have synced := (remembers.expireDedup now).toSynced.insert now unused.remembered .queued
  rcases trimDedup_forgets inbox.limits.dedupMaxIds ((inbox.expireDedup now).dedup ++ [(now, id)])
    ((inbox.expireDedup now).dedupState.insert id .queued) with ⟨dropped, forgets, length⟩
  constructor
  · rw [posted.dedup, posted.dedupState]
    exact forgets.synced synced
  · have total := congrArg List.length forgets.queue
    simp only [List.length_append] at total length
    rw [posted.dedup, posted.limits]
    omega

/-! ## What a step does to the ids -/

def Op.publishes : Op → Bool
  | .publish _ _ _ _ _ _ => true
  | _ => false

/-- A call as the ids see it: an accepted post, or an act with what does not touch them. -/
inductive Outcome (inbox : Inbox) (op : Op) (later : Inbox) : Prop
  | posted {between : Inbox} {copies : List Message} (now : Instant) (id : MessageId)
      (answers : op.posted inbox = some id) (made : op.instant = some now)
      (unused : Unused inbox now id) (post : Posted inbox now id copies between)
      (copied : ∀ msg ∈ copies, msg.id = id)
      (single : 2 ≤ copies.length → op.publishes = true) (act : Act op.instant between later)
  | quiet {between : Inbox} (unposted : op.posted inbox = none) (act : Act op.instant inbox between)
      (messages : later.messages.Sublist between.messages) (dedup : later.dedup = between.dedup)
      (dedupState : later.dedupState = between.dedupState) (limits : later.limits = between.limits)
      (events : later.events = between.events ∨ later.events = [] ∧ between = inbox)

variable {op : Op}

theorem Step.outcome (step : Step inbox op later) (fresh : op.Fresh inbox) :
    Outcome inbox op later := by
  cases step with
  | act act other =>
    exact .quiet (Op.posted_eq_none other) act (.refl _) rfl rfl rfl (Or.inl rfl)
  | refused same none =>
    exact .quiet none (act_of_refused same) (.refl _) rfl rfl rfl (Or.inl rfl)
  | forget paneId => exact .quiet rfl .same List.filter_sublist rfl rfl rfl (Or.inl rfl)
  | drain => exact .quiet rfl .same (.refl _) rfl rfl rfl (Or.inr ⟨rfl, rfl⟩)
  | reserve room => exact .quiet rfl .same (.refl _) rfl rfl rfl (Or.inl rfl)
  | delegate now paneId content replacing accepted room =>
    exact .quiet rfl (act_of_refused (Or.inr ⟨now, rfl, rfl⟩)) (.refl _) rfl rfl rfl (Or.inl rfl)
  | giveUp => exact .quiet rfl .same (.refl _) rfl rfl rfl (Or.inl rfl)
  | direct now recipient content minted plain answers vacant room place posted reserved =>
    have facts : op.instant = some now ∧ Unused inbox now (content.id.getD minted) := by
      rcases plain with rfl | rfl
      · exact ⟨rfl, unused_of_checkId vacant fresh⟩
      · exact ⟨rfl, unused_of_checkId vacant fresh⟩
    exact .posted now _ answers facts.1 facts.2 posted (List.forall_mem_singleton.mpr rfl)
      (by simp) (.trim .same now)
  | reserved now recipient content minted answers vacant posted reserved =>
    exact .posted now _ answers rfl (unused_of_checkId vacant fresh) posted
      (List.forall_mem_singleton.mpr rfl) (by simp) (.trim .same now)
  | publish now scope topic content recipients minted answers vacant room posted reserved =>
    exact .posted now _ answers rfl (unused_of_checkId vacant fresh) posted
      (List.forall_mem_map.mpr fun _ _ => rfl) (fun _ => rfl) (.trim .same now)
  | offer now scope pool claimTtl content candidates minted answers vacant room few posted
      reserved assigned =>
      exact .posted now _ answers rfl (unused_of_checkId vacant fresh) posted
        (List.forall_mem_singleton.mpr rfl) (by simp) assigned

theorem Outcome.remembers (outcome : Outcome inbox op later) (remembers : Remembers inbox) :
    Remembers later := by
  cases outcome with
  | posted now id answers made unused post copied single act =>
    exact (remembers.posted post unused).act act
  | quiet none act messages dedup dedupState limits events =>
    rcases remembers.act act with ⟨synced, few⟩
    constructor
    · rw [dedup, dedupState]
      exact synced
    · rw [dedup, limits]
      exact few

/-! ## An id stays remembered -/

/-- The id is remembered since `since`, with fewer than `newer` ids behind it. -/
def Recent (inbox : Inbox) (since : Instant) (id : MessageId) (newer : ℕ) : Prop :=
  ∃ older younger, inbox.dedup = older ++ (since, id) :: younger ∧ younger.length ≤ newer

theorem recent_of_forgets {left older younger : List (Instant × MessageId)}
    {entry : Instant × MessageId} (queue : dedup = dropped ++ left)
    (place : dedup = older ++ entry :: younger)
    (outside : entry ∉ dropped ∨ dropped.length ≤ older.length) :
    ∃ rest, left = rest ++ entry :: younger := by
  rw [place] at queue
  rcases List.append_eq_append_iff.mp queue with ⟨rest, longer, same⟩ | ⟨rest, _, same⟩
  · cases rest with
    | nil => exact ⟨[], same.symm⟩
    | cons head tail =>
      rcases outside with outside | short
      · simp only [List.cons_append, List.cons.injEq] at same
        rw [longer, same.1] at outside
        simp at outside
      · rw [longer, List.length_append, List.length_cons] at short
        omega
  · exact ⟨rest, same⟩

variable {since : Instant} {newer : ℕ}

theorem Recent.expireDedup (recent : Recent inbox since id newer)
    (within : now - since < inbox.limits.dedupWindow) :
    Recent (inbox.expireDedup now) since id newer := by
  rcases recent with ⟨older, younger, place, few⟩
  rcases expireDedup_forgets inbox now with ⟨dropped, forgets, old⟩
  have outside : (since, id) ∉ dropped := fun mem => absurd (old _ mem) (Nat.not_le.mpr within)
  rcases recent_of_forgets forgets.queue place (Or.inl outside) with ⟨rest, left⟩
  exact ⟨rest, younger, left, few⟩

/-- No instant of the clock is past the window of the id. -/
def InWindow (clock : Option Instant) (since : Instant) (window : Duration) : Prop :=
  ∀ now, clock = some now → now - since < window

theorem Recent.effects (recent : Recent inbox since id newer)
    (within : InWindow clock since inbox.limits.dedupWindow) (effects : Effects clock inbox later) :
    Recent later since id newer := by
  induction effects with
  | refl => exact recent
  | tail first effect ih =>
    have limits := (show Effects clock inbox _ from first).calls.limits_eq
    rcases effect.outcome with ⟨_, _, _, _, _, _, _, turned, _⟩ | ⟨_, _, _, _, _, rfl⟩ |
      ⟨now, made, rfl⟩ | ⟨_, rfl⟩
    · rcases ih with ⟨older, younger, place, few⟩
      exact ⟨older, younger, turned.dedup.trans place, few⟩
    · exact ih
    · exact ih.expireDedup (limits ▸ within now made)
    · exact ih

theorem Recent.act (recent : Recent inbox since id newer)
    (within : InWindow clock since inbox.limits.dedupWindow) (act : Act clock inbox later) :
    Recent later since id newer := by
  cases act with
  | quiet effects same => exact recent.effects within effects
  | trim effects now =>
    have kept := recent.effects within effects
    exact kept

theorem Recent.posted {other : MessageId} (recent : Recent inbox since id newer)
    (within : now - since < inbox.limits.dedupWindow) (posted : Posted inbox now other copies later)
    (room : newer + 1 < inbox.limits.dedupMaxIds) : Recent later since id (newer + 1) := by
  rcases recent.expireDedup within with ⟨older, younger, place, few⟩
  rcases trimDedup_forgets inbox.limits.dedupMaxIds
    ((inbox.expireDedup now).dedup ++ [(now, other)])
    ((inbox.expireDedup now).dedupState.insert other .queued) with ⟨dropped, forgets, length⟩
  have longer : (inbox.expireDedup now).dedup ++ [(now, other)] =
      older ++ (since, id) :: (younger ++ [(now, other)]) := by
    rw [place, List.append_assoc, List.cons_append]
  have total := congrArg List.length longer
  simp only [List.length_append, List.length_cons, List.length_nil] at total length
  rcases recent_of_forgets forgets.queue longer (Or.inr (by omega)) with ⟨rest, left⟩
  refine ⟨rest, younger ++ [(now, other)], posted.dedup.trans left, ?_⟩
  simp only [List.length_append, List.length_singleton]
  omega

theorem recent_of_posted (posted : Posted inbox now id copies later)
    (nonempty : 0 < inbox.limits.dedupMaxIds) : Recent later now id 0 := by
  rcases trimDedup_forgets inbox.limits.dedupMaxIds
    ((inbox.expireDedup now).dedup ++ [(now, id)])
    ((inbox.expireDedup now).dedupState.insert id .queued) with ⟨dropped, forgets, length⟩
  simp only [List.length_append, List.length_singleton] at length
  have short : dropped.length ≤ (inbox.expireDedup now).dedup.length := by omega
  rcases recent_of_forgets forgets.queue rfl (Or.inr short) with ⟨rest, left⟩
  exact ⟨rest, [], posted.dedup.trans left, Nat.le_refl 0⟩

def registered (inbox : Inbox) : List Op → ℕ
  | [] => 0
  | op :: rest => (if (op.posted inbox).isSome then 1 else 0) + registered (inbox.apply op) rest

theorem Outcome.recent (outcome : Outcome inbox op later) (recent : Recent inbox since id newer)
    (within : InWindow op.instant since inbox.limits.dedupWindow)
    (room : newer + (if (op.posted inbox).isSome then 1 else 0) < inbox.limits.dedupMaxIds) :
    Recent later since id (newer + if (op.posted inbox).isSome then 1 else 0) := by
  cases outcome with
  | posted now other answers made unused post copied single act =>
    simp only [answers] at room ⊢
    refine (recent.posted (within now made) post room).act ?_ act
    rw [post.limits]
    exact within
  | quiet none act messages dedup dedupState limits events =>
    simp only [none]
    rcases recent.act within act with ⟨older, younger, place, few⟩
    exact ⟨older, younger, dedup.trans place, few⟩

variable (ops : List Op)

theorem run_recent (sound : inbox.Sound) (fresh : Along Op.Fresh inbox ops) (newer : ℕ)
    (recent : Recent inbox since id newer)
    (within : ∀ op ∈ ops, InWindow op.instant since inbox.limits.dedupWindow)
    (room : newer + registered inbox ops < inbox.limits.dedupMaxIds) :
    ∃ newer, Recent (inbox.run ops) since id newer := by
  induction ops generalizing inbox newer with
  | nil => exact ⟨newer, recent⟩
  | cons op rest ih =>
    have outcome := (apply_step sound op).outcome fresh.1
    have limits := (apply_reaches sound op).limits_eq
    simp only [registered] at room
    have first := outcome.recent recent (within op List.mem_cons_self) (by omega)
    refine ih (apply_sound sound op) fresh.2 _ first ?_ ?_
    · intro later mem
      rw [limits]
      exact within later (List.mem_cons_of_mem op mem)
    · rw [limits]
      omega

/-! ## The state of the last transition -/

def stateAfter (id : MessageId) (new : List InboxEvent) (before : StateName) : StateName :=
  new.foldl (fun state event => if event.messageId = id then event.state else state) before

/-- The state of each id's last transition after one more call; an id that was just posted
starts as queued. -/
def Op.lastState (inbox : Inbox) (known : MessageId → StateName) (op : Op) (id : MessageId) :
    StateName :=
  stateAfter id ((inbox.apply op).events.drop inbox.events.length)
    (if op.posted inbox = some id then .queued else known id)

/-- The state of each id's last transition in a run. -/
def lastState (inbox : Inbox) (known : MessageId → StateName) : List Op → MessageId → StateName
  | [] => known
  | op :: rest => lastState (inbox.apply op) (op.lastState inbox known) rest

/-- Every id the map of `later` still has went through the events `new`. -/
structure Tracks (inbox : Inbox) (new : List InboxEvent) (later : Inbox) : Prop where
  events : later.events = inbox.events ++ new
  states : ∀ id state, later.dedupState.get? id = some state →
    ∃ before, inbox.dedupState.get? id = some before ∧ state = stateAfter id new before

theorem Tracks.same (inbox : Inbox) : Tracks inbox [] inbox :=
  ⟨(List.append_nil _).symm, fun _ state known => ⟨state, known, rfl⟩⟩

theorem Tracks.trans {between : Inbox} {first second : List InboxEvent}
    (left : Tracks inbox first between) (right : Tracks between second later) :
    Tracks inbox (first ++ second) later := by
  constructor
  · rw [right.events, left.events, List.append_assoc]
  · intro id state known
    rcases right.states id state known with ⟨middle, halfway, rfl⟩
    rcases left.states id middle halfway with ⟨before, start, rfl⟩
    exact ⟨before, start, by simp only [stateAfter, List.foldl_append]⟩

theorem expireDedup_tracks (inbox : Inbox) (now : Instant) :
    Tracks inbox [] (inbox.expireDedup now) := by
  rcases expireDedup_forgets inbox now with ⟨dropped, forgets, _⟩
  refine ⟨(List.append_nil _).symm, ?_⟩
  intro id state known
  rw [forgets.states] at known
  split at known
  · cases known
  · exact ⟨state, known, rfl⟩

theorem Turned.tracks {index : ℕ} {msg after : Message}
    (turned : Turned inbox index msg after later) : ∃ new, Tracks inbox new later := by
  rcases turned.event with ⟨event, emitted, named, reached⟩
  refine ⟨[event], emitted, ?_⟩
  intro id state known
  rw [turned.dedupState, SortedMap.get?_modify] at known
  simp only [stateAfter, List.foldl_cons, List.foldl_nil, named, reached]
  split at known
  · rename_i same
    subst same
    rcases Option.map_eq_some_iff.mp known with ⟨before, start, rfl⟩
    exact ⟨before, start, by simp⟩
  · rename_i different
    exact ⟨state, known, by rw [if_neg (Ne.symm different)]⟩

theorem Effects.tracks (effects : Effects clock inbox later) : ∃ new, Tracks inbox new later := by
  induction effects with
  | refl => exact ⟨[], .same inbox⟩
  | tail _ effect ih =>
    rcases ih with ⟨new, tracks⟩
    rcases effect.outcome with ⟨_, _, _, _, _, _, _, turned, _⟩ | ⟨_, _, _, _, _, rfl⟩ |
      ⟨now, _, rfl⟩ | ⟨_, rfl⟩
    · rcases turned.tracks with ⟨more, further⟩
      exact ⟨new ++ more, tracks.trans further⟩
    · exact ⟨new, tracks.events, tracks.states⟩
    · exact ⟨new ++ [], tracks.trans (expireDedup_tracks _ now)⟩
    · exact ⟨new, tracks.events, tracks.states⟩

theorem Act.tracks (act : Act clock inbox later) : ∃ new, Tracks inbox new later := by
  cases act with
  | quiet effects same => exact effects.tracks
  | trim effects now =>
    rcases effects.tracks with ⟨new, tracks⟩
    exact ⟨new, tracks.events, tracks.states⟩

theorem stateAfter_posted {new : List InboxEvent}
    (all : ∀ event ∈ new, event.messageId = id ∧ event.state = .queued) (other : MessageId)
    (before : StateName) (queued : other = id → before = .queued) :
    stateAfter other new before = before := by
  simp only [stateAfter]
  induction new with
  | nil => rfl
  | cons event rest ih =>
    rcases all event List.mem_cons_self with ⟨named, state⟩
    have first : (if event.messageId = other then event.state else before) = before := by
      split
      · rename_i same
        rw [state, queued (same.symm.trans named)]
      · rfl
    rw [List.foldl_cons, first]
    exact ih (fun event mem => all event (List.mem_cons_of_mem _ mem))

/-- The map records the state of the last transition of each id it has. -/
def Records (inbox : Inbox) (known : MessageId → StateName) : Prop :=
  ∀ id state, inbox.dedupState.get? id = some state → state = known id

theorem Outcome.records (outcome : Outcome inbox op (inbox.apply op))
    {known : MessageId → StateName} (records : Records inbox known) :
    Records (inbox.apply op) (op.lastState inbox known) := by
  intro id state remembered
  simp only [Op.lastState]
  cases outcome with
  | posted now other answers made unused post copied single act =>
    rcases act.tracks with ⟨new, tracks⟩
    rcases post.events with ⟨posts, emitted, all⟩
    rcases tracks.states id state remembered with ⟨before, placed, rfl⟩
    rw [tracks.events, emitted, List.append_assoc, List.drop_left]
    simp only [stateAfter, List.foldl_append]
    have start : stateAfter id posts (if op.posted inbox = some id then .queued else known id) =
        before := by
      rw [post.dedupState] at placed
      have inserted : ((inbox.expireDedup now).dedupState.insert other .queued).get? id =
          some before := by
        rcases trimDedup_get? inbox.limits.dedupMaxIds
          ((inbox.expireDedup now).dedup ++ [(now, other)])
          ((inbox.expireDedup now).dedupState.insert other .queued) id with gone | same
        · rw [gone] at placed
          cases placed
        · rw [← same]
          exact placed
      rw [SortedMap.get?_insert] at inserted
      by_cases same : id = other
      · subst same
        simp only [↓reduceIte, Option.some.injEq] at inserted
        simp only [answers, inserted]
        exact stateAfter_posted all id before fun _ => inserted.symm
      · rw [if_neg same] at inserted
        have different : ¬ (other = id) := fun eq => same eq.symm
        simp only [answers, Option.some.injEq, different, ↓reduceIte]
        rcases (expireDedup_tracks inbox now).states id before inserted with
          ⟨old, kept, unchanged⟩
        rw [stateAfter_posted all id (known id) fun eq => absurd eq same, unchanged]
        exact (records id old kept).symm
    simp only [stateAfter] at start
    rw [start]
  | quiet none act messages dedup dedupState limits events =>
    simp only [none, reduceCtorEq, ↓reduceIte]
    rw [dedupState] at remembered
    rcases act.tracks with ⟨new, tracks⟩
    rcases events with same | ⟨drained, rfl⟩
    · rcases tracks.states id state remembered with ⟨before, start, rfl⟩
      rw [same, tracks.events, List.drop_left, records id before start]
    · rw [drained, List.drop_nil]
      exact records id state remembered

/-! ## Messages that share an id -/

def holds (inbox : Inbox) (id : MessageId) : ℕ :=
  inbox.messages.countP fun msg => decide (msg.id = id)

theorem sameMessages_ids {before after : List Message}
    (same : List.Forall₂ SameMessage before after) :
    after.map Message.id = before.map Message.id := by
  induction same with
  | nil => rfl
  | cons head _ ih => rw [List.map_cons, List.map_cons, head.1, ih]

theorem Kept.ids {before after : List Message} (kept : Kept before after) :
    (after.map Message.id).Sublist (before.map Message.id) := by
  induction kept with
  | nil => exact .slnil
  | drop _ _ ih => exact ih.cons _
  | empty _ _ ih => exact ih.cons_cons _
  | keep _ _ ih => exact ih.cons_cons _

theorem holds_eq_count (inbox : Inbox) (id : MessageId) :
    inbox.holds id = (inbox.messages.map Message.id).count id := by
  simp only [List.count_eq_countP, List.countP_map]
  apply List.countP_congr
  simp

theorem Act.holds_le (act : Act clock inbox later) (id : MessageId) :
    later.holds id ≤ inbox.holds id := by
  rw [holds_eq_count, holds_eq_count]
  cases act with
  | quiet effects same => rw [sameMessages_ids effects.sameMessages]
  | trim effects now =>
    rw [← sameMessages_ids effects.sameMessages]
    exact (trimHistory_kept now).ids.count_le id

/-- Copies of one publish under `id`, and of no post since. -/
def OnePublish (inbox : Inbox) (ops : List Op) (id : MessageId) : Prop :=
  ∃ before op after, ops = before ++ op :: after ∧ op.publishes = true ∧
    op.posted (inbox.run before) = some id ∧ (inbox.run before).holds id = 0 ∧
    Along (fun inbox later => later.posted inbox ≠ some id) (inbox.run (before ++ [op])) after

theorem along_append {P : Inbox → Op → Prop} (inbox : Inbox) (first second : List Op) :
    Along P inbox (first ++ second) ↔ Along P inbox first ∧ Along P (inbox.run first) second := by
  induction first generalizing inbox with
  | nil => simp [Along, run]
  | cons op rest ih => simp only [List.cons_append, Along, ih, and_assoc, run, List.foldl_cons]

theorem run_append (inbox : Inbox) (first second : List Op) :
    inbox.run (first ++ second) = (inbox.run first).run second := by
  simp only [run, List.foldl_append]

theorem Outcome.holds (outcome : Outcome inbox op later) (id : MessageId) :
    (op.posted inbox ≠ some id ∧ later.holds id ≤ inbox.holds id) ∨
      (op.posted inbox = some id ∧ inbox.holds id = 0 ∧
        (2 ≤ later.holds id → op.publishes = true)) := by
  cases outcome with
  | posted now other answers made unused post copied single act =>
    rename_i between copies
    have less := act.holds_le id
    have split : between.holds id = inbox.holds id +
        copies.countP fun msg => decide (msg.id = id) := by
      simp only [Inbox.holds, post.messages, List.countP_append]
    by_cases same : other = id
    · subst same
      have absent : inbox.holds other = 0 := by
        apply List.countP_eq_zero.mpr
        intro msg mem
        simpa using unused.held msg mem
      refine Or.inr ⟨answers, absent, ?_⟩
      intro two
      have few : copies.countP (fun msg => decide (msg.id = other)) ≤ copies.length :=
        List.countP_le_length
      exact single (by omega)
    · refine Or.inl ⟨fun eq => same (Option.some.inj (answers.symm.trans eq)), ?_⟩
      have absent : copies.countP (fun msg => decide (msg.id = id)) = 0 := by
        apply List.countP_eq_zero.mpr
        intro msg mem
        simpa [copied msg mem] using same
      omega
  | quiet none act messages dedup dedupState limits events =>
    refine Or.inl ⟨by simp [none], ?_⟩
    exact Nat.le_trans messages.countP_le (act.holds_le id)

theorem run_onePublish (sound : inbox.Sound) (fresh : Along Op.Fresh inbox ops)
    (absent : inbox.holds id = 0) (two : 2 ≤ (inbox.run ops).holds id) :
    OnePublish inbox ops id := by
  induction ops using List.reverseRecOn with
  | nil =>
    have same : (inbox.run []).holds id = inbox.holds id := rfl
    omega
  | append_singleton before op ih =>
    rcases (along_append inbox before [op]).mp fresh with ⟨freshBefore, freshOp, _⟩
    have reached := (run_reaches sound before).sound sound
    have result : inbox.run (before ++ [op]) = (inbox.run before).apply op :=
      run_append inbox before [op]
    have outcome := (apply_step reached op).outcome freshOp
    rw [result] at two
    rcases outcome.holds id with ⟨other, less⟩ | ⟨posted, vacant, several⟩
    · rcases ih freshBefore (by omega) with
        ⟨first, publish, rest, split, publishes, posted, vacant, since⟩
      refine ⟨first, publish, rest ++ [op], by simp [split], publishes, posted, vacant, ?_⟩
      refine (along_append _ rest [op]).mpr ⟨since, ?_, trivial⟩
      rw [← run_append, List.append_assoc, List.singleton_append, ← split]
      exact other
    · exact ⟨before, op, [], rfl, several two, posted, vacant, trivial⟩

/-! ## Refusals -/

/-- The id the sender of a post chose. -/
def Op.wants : Op → Option MessageId
  | .postDirect _ _ content _ | .postAgentDirect _ _ content _ | .postReservedReply _ _ content _
  | .publish _ _ _ content _ _ | .offer _ _ _ _ content _ _ => content.id
  | _ => none

def refusal {α : Type} : Except PostError α → Option PostError
  | .error refusal => some refusal
  | .ok _ => none

def Op.refusal (inbox : Inbox) : Op → Option PostError
  | .postDirect now recipient content minted =>
    Inbox.refusal (inbox.postDirect now recipient content minted).1
  | .postAgentDirect now recipient content minted =>
    Inbox.refusal (inbox.postAgentDirect now recipient content minted).1
  | .postReservedReply now recipient content minted =>
    Inbox.refusal (inbox.postReservedReply now recipient content minted).1
  | .publish now scope topic content recipients minted =>
    Inbox.refusal (inbox.publish now scope topic content recipients minted).1
  | .offer now scope pool claimTtl content candidates minted =>
    Inbox.refusal (inbox.offer now scope pool claimTtl content candidates minted).1
  | _ => none

def Op.precheck (inbox : Inbox) : Op → Except PostError Unit
  | .postDirect _ _ content _ | .postReservedReply _ _ content _ => inbox.checkBody content
  | .postAgentDirect now _ content _ => do
      inbox.checkRate now content.sender
      inbox.checkBody content
  | .publish now _ _ content _ _ => do
      inbox.checkBody content
      inbox.checkRate now content.sender
  | .offer now scope _ claimTtl content _ _ => do
      inbox.checkBody content
      let claimTtl := claimTtl.getD inbox.limits.defaultClaimTtl
      if claimTtl < inbox.limits.minClaimTtl ∨ inbox.limits.maxClaimTtl < claimTtl then
        .error (.claimTtlOutOfRange (millis inbox.limits.minClaimTtl)
          (millis inbox.limits.maxClaimTtl))
      else .ok ()
      inbox.checkRate now content.sender
      if inbox.limits.maxOffersPerScope ≤ inbox.openOffers scope then
        .error (.tooManyOffers inbox.limits.maxOffersPerScope)
      else .ok ()
  | _ => .ok ()

/-- The id is held, or remembered once the window has moved on to `now`. -/
def Taken (inbox : Inbox) (now : Instant) (id : MessageId) : Prop :=
  (∃ msg ∈ inbox.messages, msg.id = id) ∨ (inbox.expireDedup now).dedupState.get? id ≠ none

theorem checkId_taken (taken : Taken inbox now id) :
    ∃ state, (inbox.expireDedup now).checkId (some id) = .error (.duplicate id state) := by
  rcases checks : (inbox.expireDedup now).checkId (some id) with refusal | _
  · simp only [checkId] at checks
    split at checks
    · cases checks
      exact ⟨_, rfl⟩
    · cases checks
  · rcases checkId_ok checks rfl with ⟨held, remembered⟩
    rcases taken with ⟨msg, mem, same⟩ | taken
    · exact absurd same (held msg mem)
    · exact absurd remembered taken

theorem ok_bind {ε α β : Type} (value : α) (rest : α → Except ε β) :
    (Except.ok value >>= rest) = rest value := rfl

theorem error_bind {ε α β : Type} (error : ε) (rest : α → Except ε β) :
    (Except.error error >>= rest) = .error error := rfl

def Op.admission (inbox : Inbox) : Op → Except PostError Unit
  | .postDirect now recipient content _ => (inbox.admitDirect now recipient content).1
  | .postAgentDirect now recipient content _ => (inbox.admitAgentDirect now recipient content).1
  | .postReservedReply now _ content _ => (inbox.admitReservedReply now content).1
  | .publish now _ _ content recipients _ => (inbox.admitPublish now content recipients).1
  | .offer now scope _ claimTtl content _ _ =>
    (inbox.admitOffer now scope claimTtl content).1 >>= fun _ => .ok ()
  | _ => .ok ()

theorem refusal_of_admission {error : PostError} (refused : op.admission inbox = .error error) :
    op.refusal inbox = some error := by
  cases op with
  | postDirect now recipient content minted =>
    rcases admits : inbox.admitDirect now recipient content with ⟨answer, admitted⟩
    simp only [Op.admission, admits] at refused
    simp only [Op.refusal, postDirect, admits, refused, refusal]
  | postAgentDirect now recipient content minted =>
    rcases admits : inbox.admitAgentDirect now recipient content with ⟨answer, admitted⟩
    simp only [Op.admission, admits] at refused
    simp only [Op.refusal, postAgentDirect, admits, refused, refusal]
  | postReservedReply now recipient content minted =>
    rcases admits : inbox.admitReservedReply now content with ⟨answer, admitted⟩
    simp only [Op.admission, admits] at refused
    simp only [Op.refusal, postReservedReply, admits, refused, refusal]
  | publish now scope topic content recipients minted =>
    rcases admits : inbox.admitPublish now content recipients with ⟨answer, admitted⟩
    simp only [Op.admission, admits] at refused
    simp only [Op.refusal, publish, admits, refused, refusal]
  | offer now scope pool claimTtl content candidates minted =>
    rcases admits : inbox.admitOffer now scope claimTtl content with ⟨answer, admitted⟩
    cases answer with
    | error reason =>
      simp only [Op.admission, admits, error_bind, Except.error.injEq] at refused
      simp only [Op.refusal, offer, admits, refusal, refused]
    | ok ttl =>
      simp only [Op.admission, admits, ok_bind, reduceCtorEq] at refused
  | _ => cases refused

theorem admission_eq (inbox : Inbox) (wants : op.wants = some id) (made : op.instant = some now) :
    ∃ rest, op.admission inbox = (op.precheck inbox >>= fun _ =>
      (inbox.expireDedup now).checkId (some id) >>= rest) := by
  cases op with
  | postDirect _ recipient content minted =>
    cases made
    rw [← wants]
    refine ⟨fun _ => inbox.checkRoom 1 >>= fun _ =>
      if inbox.hasRoomFor recipient.paneId then .ok ()
      else .error (.inboxFull recipient.paneId inbox.limits.maxPerRecipient), ?_⟩
    simp only [Op.admission, admitDirect, admitReply, bind_assoc]
    rfl
  | postAgentDirect _ recipient content minted =>
    cases made
    rw [← wants]
    refine ⟨fun _ => inbox.checkRoom 1 >>= fun _ =>
      if inbox.hasRoomFor recipient.paneId then .ok ()
      else .error (.inboxFull recipient.paneId inbox.limits.maxPerRecipient), ?_⟩
    simp only [Op.admission, admitAgentDirect, Op.precheck]
    rcases inbox.checkRate now content.sender with limited | _
    · rfl
    · simp only [admitDirect, admitReply, bind_assoc]
      rfl
  | postReservedReply _ recipient content minted =>
    cases made
    rw [← wants]
    refine ⟨fun _ => .ok (), ?_⟩
    simp only [Op.admission, admitReservedReply, Op.wants]
    rcases (inbox.expireDedup now).checkId content.id with duplicate | _
    · rfl
    · rfl
  | publish _ scope topic content recipients minted =>
    cases made
    rw [← wants]
    refine ⟨fun _ => inbox.checkRoom (recipients.countP fun recipient =>
      inbox.hasRoomFor recipient.paneId), ?_⟩
    simp only [Op.precheck, bind_assoc]
    rfl
  | offer _ scope pool claimTtl content candidates minted =>
    cases made
    rw [← wants]
    refine ⟨fun _ => inbox.checkRoom 1 >>= fun _ => .ok (), ?_⟩
    simp only [Op.admission, admitOffer, Op.precheck]
    have sameBody : (inbox.expireDedup now).checkBody content = inbox.checkBody content := rfl
    have sameRate : (inbox.expireDedup now).checkRate now content.sender =
      inbox.checkRate now content.sender := rfl
    have sameLimits : (inbox.expireDedup now).limits = inbox.limits := rfl
    have sameOpen : (inbox.expireDedup now).openOffers scope = inbox.openOffers scope := rfl
    rw [sameBody, sameRate, sameLimits, sameOpen]
    rcases inbox.checkBody content with large | _
    · rfl
    · split
      · rfl
      · rcases inbox.checkRate now content.sender with limited | _
        · rfl
        · split
          · rfl
          · simp only [bind_assoc]
            rfl
  | _ => cases wants

theorem refusal_of_taken (wants : op.wants = some id) (made : op.instant = some now)
    (taken : Taken inbox now id) :
    (∀ error, op.precheck inbox = .error error → op.refusal inbox = some error) ∧
      (op.precheck inbox = .ok () →
        ∃ state, op.refusal inbox = some (.duplicate id state)) := by
  rcases checkId_taken taken with ⟨state, duplicate⟩
  rcases admission_eq inbox wants made with ⟨rest, admission⟩
  constructor
  · intro error refused
    apply refusal_of_admission
    rw [admission, refused, error_bind]
  · intro passed
    refine ⟨state, refusal_of_admission ?_⟩
    rw [admission, passed, ok_bind, duplicate, error_bind]

/-! ## Every run -/

theorem remembers_new (deck : String) (limits : InboxLimits) : Remembers (new deck limits) where
  apart := List.nodup_nil
  keys id := by simp [new, remembered]
  few := Nat.zero_le _

theorem run_remembers (sound : inbox.Sound) (fresh : Along Op.Fresh inbox ops)
    (remembers : Remembers inbox) : Remembers (inbox.run ops) := by
  induction ops generalizing inbox with
  | nil => exact remembers
  | cons op rest ih =>
    have outcome := (apply_step sound op).outcome fresh.1
    exact ih (apply_sound sound op) fresh.2 (outcome.remembers remembers)

theorem run_records (sound : inbox.Sound) (fresh : Along Op.Fresh inbox ops)
    {known : MessageId → StateName} (records : Records inbox known) :
    Records (inbox.run ops) (lastState inbox known ops) := by
  induction ops generalizing inbox known with
  | nil => exact records
  | cons op rest ih =>
    have outcome := (apply_step sound op).outcome fresh.1
    exact ih (apply_sound sound op) fresh.2 (outcome.records records)

theorem taken_of_recent (remembers : Remembers inbox) (recent : Recent inbox since id newer)
    (within : now - since < inbox.limits.dedupWindow) : Taken inbox now id := by
  rcases recent.expireDedup within with ⟨older, younger, place, _⟩
  have mem : id ∈ remembered (inbox.expireDedup now).dedup := by simp [place, remembered]
  have nonempty := ((remembers.expireDedup now).keys id).mpr mem
  refine Or.inr ?_
  intro absent
  rw [absent] at nonempty
  cases nonempty

theorem run_taken {before after : List Op} (sound : inbox.Sound) (remembers : Remembers inbox)
    (fresh : Along Op.Fresh inbox (before ++ op :: after))
    (posted : op.posted (inbox.run before) = some id) (made : op.instant = some since)
    (clock : ∀ later ∈ after, ∀ time, later.instant = some time → time ≤ now)
    (within : now - since < inbox.limits.dedupWindow)
    (few : registered (inbox.run (before ++ [op])) after < inbox.limits.dedupMaxIds) :
    Taken (inbox.run (before ++ op :: after)) now id := by
  rcases (along_append _ before (op :: after)).mp fresh with ⟨_, freshOp, freshAfter⟩
  have reached := run_reaches sound before
  have limits := reached.limits_eq
  have soundBefore := reached.sound sound
  have soundOp := apply_sound soundBefore op
  have limitsOp := (apply_reaches soundBefore op).limits_eq.trans limits
  have split : inbox.run (before ++ op :: after) = ((inbox.run before).apply op).run after := by
    rw [run_append]
    rfl
  have first : inbox.run (before ++ [op]) = (inbox.run before).apply op := run_append _ _ _
  rw [first] at few
  have recent : Recent ((inbox.run before).apply op) since id 0 := by
    have outcome := (apply_step soundBefore op).outcome freshOp
    cases outcome with
    | posted since' other answers made' unused post copied single act =>
      have sameId : other = id := Option.some.inj (answers.symm.trans posted)
      have sameTime : since' = since := Option.some.inj (made'.symm.trans made)
      subst sameId sameTime
      have placed := recent_of_posted post (by rw [limits]; omega)
      refine placed.act ?_ act
      intro time same
      rw [Option.some.inj (same.symm.trans made), post.limits, limits, Nat.sub_self]
      exact Nat.zero_lt_of_lt within
    | quiet none => exact absurd (none.symm.trans posted) (by simp)
  have kept := run_recent after soundOp freshAfter 0 recent (by
    intro later mem time same
    have early := clock later mem time same
    rw [limitsOp]
    exact Nat.lt_of_le_of_lt (Nat.sub_le_sub_right early since) within) (by rw [limitsOp]; omega)
  rcases kept with ⟨newer, recent⟩
  rw [split]
  refine taken_of_recent ?_ recent ?_
  · rw [← split]
    exact run_remembers _ sound fresh remembers
  · rw [← split, (run_reaches sound _).limits_eq]
    exact within

theorem Step.refused_eq (step : Step inbox op later) (post : op.posts)
    (refused : op.posted inbox = none) :
    later = inbox ∨ ∃ now, op.instant = some now ∧ later = inbox.expireDedup now := by
  cases step with
  | act act other => exact absurd (other.symm.trans post) Bool.false_ne_true
  | refused same none => exact same
  | direct _ _ _ _ _ answers | reserved _ _ _ _ answers | publish _ _ _ _ _ _ answers
  | offer _ _ _ _ _ _ _ answers => exact absurd (refused.symm.trans answers) (by simp)
  | _ => cases post

/-- What the inbox remembers of its posts, in every run. -/
theorem duplicates_suppressed (deck : String) (limits : InboxLimits) (ops : List Op)
    (fresh : Along Op.Fresh (new deck limits) ops) :
    let start := new deck limits
    let inbox := start.run ops
    (remembered inbox.dedup).Nodup ∧
      (∀ id, id ∈ inbox.dedupState.keys ↔ id ∈ remembered inbox.dedup) ∧
      (∀ id state, inbox.dedupState.get? id = some state →
        state = lastState start (fun _ => .queued) ops id) ∧
      inbox.dedup.length ≤ limits.dedupMaxIds ∧
      (∀ (before : List Op) (op : Op) (after : List Op) (since : Instant) (id : MessageId)
          (later : Op) (now : Instant), ops = before ++ op :: after →
        op.posted (start.run before) = some id → op.instant = some since →
        (∀ other ∈ after, ∀ time, other.instant = some time → time ≤ now) →
        later.wants = some id → later.instant = some now →
        ((∃ msg ∈ inbox.messages, msg.id = id) ∨ (now - since < limits.dedupWindow ∧
          registered (start.run (before ++ [op])) after < limits.dedupMaxIds)) →
        (∀ error, later.precheck inbox = .error error → later.refusal inbox = some error) ∧
          (later.precheck inbox = .ok () →
            ∃ state, later.refusal inbox = some (.duplicate id state))) ∧
      (∀ id, 2 ≤ inbox.holds id → OnePublish start ops id) ∧
      (∀ op, op.posts = true → op.posted inbox = none →
        let later := inbox.apply op
        later.messages = inbox.messages ∧ later.rate = inbox.rate ∧
          later.reservedReplies = inbox.reservedReplies ∧ later.events = inbox.events ∧
          ∃ dropped, inbox.dedup = dropped ++ later.dedup ∧
            ∀ entry ∈ dropped, ∃ now, op.instant = some now ∧
              limits.dedupWindow ≤ now - entry.1) := by
  intro start inbox
  have sound := new_sound deck limits
  have remembers := run_remembers ops sound fresh (remembers_new deck limits)
  have limitsEq : inbox.limits = limits := (run_reaches sound ops).limits_eq
  refine ⟨remembers.apart, ?_, ?_, limitsEq ▸ remembers.few, ?_, ?_, ?_⟩
  · intro id
    rw [SortedMap.mem_keys_iff, ← remembers.keys id, Option.isSome_iff_exists]
  · apply run_records ops sound fresh
    intro id state absent
    cases absent
  · rintro before op after since id later now rfl posted made clock wants now' (held | recent)
    · exact refusal_of_taken wants now' (Or.inl held)
    · refine refusal_of_taken wants now' ?_
      exact run_taken sound (remembers_new deck limits) fresh posted made clock recent.1 recent.2
  · intro id two
    exact run_onePublish ops sound fresh rfl two
  · intro op post refused
    have step := apply_step ((run_reaches sound ops).sound sound) op
    rcases step.refused_eq post refused with same | ⟨now, made, same⟩
    · have same : inbox.apply op = inbox := same
      simp only [same]
      exact ⟨trivial, trivial, trivial, trivial, [], rfl, by simp⟩
    · have same : inbox.apply op = inbox.expireDedup now := same
      simp only [same]
      rcases expireDedup_forgets inbox now with ⟨dropped, forgets, old⟩
      refine ⟨rfl, rfl, rfl, rfl, dropped, forgets.queue, ?_⟩
      intro entry mem
      exact ⟨now, made, limitsEq ▸ old entry mem⟩

/-- The content the witnesses below post, under the id its sender chose. -/
def plainContent (body : Text) : Content :=
  ⟨.deck [], [], body, .trusted, none, some "d-1", none, none⟩

/-- One message posted, then posted again within the window. -/
theorem duplicates_suppressed_again :
    let limits := InboxLimits.default
    let op : Op := .postDirect 0 (.bound "p1" "a1") (plainContent []) "d-2"
    let inbox := (new "deck" limits).run [op]
    ∃ state, op.refusal inbox = some (.duplicate "d-1" state) := by
  intro limits op inbox
  have fresh : Along Op.Fresh (new "deck" limits) [op] :=
    ⟨fun unset => absurd unset (Option.some_ne_none "d-1"), trivial⟩
  have all := duplicates_suppressed "deck" limits [op] fresh
  refine (all.2.2.2.2.1 [] op [] 0 "d-1" op 0 rfl ?_ rfl (by simp) rfl rfl (Or.inr ⟨?_, ?_⟩)).2 ?_
  · decide +kernel
  · decide
  · decide
  · decide +kernel

/-- A post that is too large is refused for that, whatever its id. -/
theorem not_always_duplicate :
    let limits := { InboxLimits.default with maxBodyBytes := 0 }
    let recipient := Recipient.bound "p1" "a1"
    let inbox := ((new "deck" limits).postDirect 0 recipient (plainContent []) "d-2").2
    ((new "deck" limits).postDirect 0 recipient (plainContent []) "d-2").1 = .ok "d-1" ∧
      (∃ msg ∈ inbox.messages, msg.id = "d-1") ∧
      (inbox.postDirect 1 recipient (plainContent ['x']) "d-3").1 =
        .error (.bodyTooLarge 1 0) := by
  decide +kernel

end AgentDeck.Inbox
