import AgentDeck.OneShot.Fenced

/-!
# What a check that passes has ruled out

Whatever the order in which lines arrive, and however late the approval's reads are, a check passes
only on a grant that covers it, with every line queued before it taken in, and no check passes once
one has been refused for the connection.
-/

namespace AgentDeck.OneShot

open Inbox (InboxAttemptRef)
open History

theorem get?_askedOf {blocks : List Block} {firstQ q : ℕ} {asked : SortedMap ℕ Key} {k : Key}
    (found : (askedOf firstQ blocks asked).get? q = some k) :
    (∃ i block, blocks[i]? = some block ∧ q = firstQ + i ∧ k = key block.at_) ∨
      asked.get? q = some k := by
  induction blocks generalizing firstQ asked with
  | nil => exact .inr found
  | cons block blocks ih =>
    rcases ih found with ⟨i, other, at_i, numbered, same⟩ | earlier
    · exact .inl ⟨i + 1, other, at_i, by omega, same⟩
    · rw [SortedMap.get?_insert] at earlier
      split at earlier
      · rename_i same
        exact .inl ⟨0, block, rfl, same, (Option.some.inj earlier).symm⟩
      · exact .inr earlier

theorem asked_of_ask {batch : OneShotBatch} {firstQ q : ℕ} {k : Key}
    (found : (askedOf firstQ batch.blocks .empty).get? q = some k) :
    ∃ i block, batch.blocks[i]? = some block ∧ q = firstQ + i ∧ k = key block.at_ := by
  rcases get?_askedOf found with asked | clash
  · exact asked
  · cases clash

/-- A grant, received in time, for a question that asked about this attempt. -/
def GrantedBy (batch : OneShotBatch) (firstQ : ℕ) (validUntil : Instant) (past : List Happened)
    (ref : InboxAttemptRef) : Prop :=
  ∃ i block grant time, batch.blocks[i]? = some block ∧ block.at_ = ref ∧
    .answered grant time ∈ past ∧ grant.q = firstQ + i ∧ grant.ok = true ∧ time < validUntil

theorem GrantedBy.older {batch : OneShotBatch} {firstQ : ℕ} {validUntil : Instant}
    {past : List Happened} {ref : InboxAttemptRef} (event : Happened)
    (granted : GrantedBy batch firstQ validUntil past ref) :
    GrantedBy batch firstQ validUntil (event :: past) ref := by
  rcases granted with ⟨i, block, grant, time, at_i, same, answered, rest⟩
  exact ⟨i, block, grant, time, at_i, same, List.mem_cons_of_mem event answered, rest⟩

/-- What holds when a check passes. -/
structure Cleared (batch : OneShotBatch) (firstQ : ℕ) (validUntil : Instant)
    (past : List Happened) (ref : InboxAttemptRef) (now : Instant) : Prop where
  granted : GrantedBy batch firstQ validUntil past ref
  unexpired : now < validUntil
  unrevoked : ∀ line, .queued (some line) ∈ past → ref ∉ line.revoke
  unended : ∀ line, .queued (some line) ∈ past → terminal line = none
  open_ : .queued none ∉ past

/-- A check that passes is clear, and none passes after one that was refused for the connection. -/
def Unmissed (batch : OneShotBatch) (firstQ : ℕ) (validUntil : Instant) (past : List Happened) :
    Happened → Prop
  | .checked ref now result =>
    (result = .ok () → Cleared batch firstQ validUntil past ref now) ∧
      ∀ other time refusal, .checked other time (.error refusal) ∈ past → refusal.IsEnd →
        result = .error refusal ∨ result = .error .notGranted ∨ result = .error .expired
  | _ => True

namespace Asker

/-- The lines the check under way has taken in. -/
def taking (s : Asker) : List InboxWaitReply :=
  match s.phase with
  | .draining _ _ lines => lines
  | _ => []

def Accounted (s : Asker) (line : InboxWaitReply) : Prop :=
  (s.connection.Pending line ∨ line ∈ s.taking) ∨ isForTheFence line = false ∨ s.fence.Saw line

/-- What every move keeps. `taken` is a line that has been read and not yet dealt with. -/
structure Kept (batch : OneShotBatch) (firstQ : ℕ) (validUntil : Instant)
    (taken : Option InboxWaitReply) (s : Asker) : Prop where
  lines : ∀ line, .queued (some line) ∈ s.past → s.Accounted line ∨ taken = some line
  closing : .queued none ∈ s.past → s.connection.Closing
  asked : s.approval.asked = askedOf firstQ batch.blocks .empty
  lasts : s.approval.validUntil = validUntil
  granted : ∀ ref, key ref ∈ s.approval.granted → GrantedBy batch firstQ validUntil s.past ref
  draining : ∀ ref now lines, s.phase = .draining ref now lines →
    Fence.unapproved s.approval ref now = none ∧ s.connection.kept = []
  stopped : ∀ ref now refusal, .checked ref now (.error refusal) ∈ s.past → refusal.IsEnd →
    s.fence.ended = some refusal
  told : Everywhere (Unmissed batch firstQ validUntil) s.past

section Kept

variable {batch : OneShotBatch} {firstQ : ℕ} {validUntil : Instant} {s : Asker}
  {taken : Option InboxWaitReply}

section

variable (kept : Kept batch firstQ validUntil taken s)

include kept

theorem Kept.moved {s' : Asker} {left : Option InboxWaitReply} (approval : s'.approval = s.approval)
    (fence : s'.fence = s.fence) (past : s'.past = s.past)
    (pending : ∀ line, s.connection.Pending line ∨ line ∈ s.taking →
      (s'.connection.Pending line ∨ line ∈ s'.taking) ∨ left = some line)
    (still : ∀ line, taken = some line → s'.Accounted line ∨ left = some line)
    (closing : s.connection.Closing → s'.connection.Closing)
    (draining : ∀ ref now lines, s'.phase = .draining ref now lines →
      Fence.unapproved s.approval ref now = none ∧ s'.connection.kept = []) :
    Kept batch firstQ validUntil left s' := by
  refine ⟨?_, ?_, ?_, ?_, ?_, ?_, ?_, ?_⟩
  · intro line queued
    rw [past] at queued
    rcases kept.lines line queued with (waiting | handled) | same
    · rcases pending line waiting with waits | same
      · exact .inl (.inl waits)
      · exact .inr same
    · refine .inl (.inr ?_)
      rw [fence]
      exact handled
    · exact still line same
  · rw [past]
    exact fun queued => closing (kept.closing queued)
  · rw [approval]
    exact kept.asked
  · rw [approval]
    exact kept.lasts
  · rw [approval, past]
    exact kept.granted
  · rw [approval]
    exact draining
  · rw [past, fence]
    exact kept.stopped
  · rw [past]
    exact kept.told

omit kept in
theorem taking_of_not_draining (idle : ∀ ref now lines, s.phase ≠ .draining ref now lines) :
    s.taking = [] := by
  unfold taking
  split
  · rename_i ref now lines phase
    exact absurd phase (idle ref now lines)
  · rfl

theorem Kept.turns {phase : Phase} (was : ∀ ref now lines, s.phase ≠ .draining ref now lines)
    (is : ∀ ref now lines, phase ≠ .draining ref now lines) :
    Kept batch firstQ validUntil taken { s with phase := phase } := by
  refine kept.moved rfl rfl rfl ?_ (fun line same => .inr same) id
    (fun ref now lines same => absurd same (is ref now lines))
  intro line waiting
  rw [taking_of_not_draining was] at waiting
  rcases waiting with pending | clash
  · exact .inl (.inl pending)
  · cases clash

theorem Kept.arrive (line : Option InboxWaitReply) :
    Kept batch firstQ validUntil taken (s.arrive line) := by
  unfold Asker.arrive
  split
  · exact kept
  · rename_i stands
    have running : s.connection.readerDone = false := Bool.eq_false_iff.mpr stands
    have still : ∀ other, s.Accounted other → Accounted
        { s with connection := s.connection.reads line, past := .queued line :: s.past } other := by
      intro other accounted
      rcases accounted with (pending | took) | handled
      · exact .inl (.inl (Connection.pending_reads line pending))
      · exact .inl (.inr took)
      · exact .inr handled
    refine ⟨?_, ?_, kept.asked, kept.lasts,
      fun ref granted => (kept.granted ref granted).older _, ?_, ?_, ?_⟩
    · intro other queued
      rcases List.mem_cons.mp queued with same | queued
      · simp only [Happened.queued.injEq] at same
        refine .inl (.inl (.inl (.inl ?_)))
        rw [same]
        exact Connection.mem_reads running line
      · rcases kept.lines other queued with accounted | same
        · exact .inl (still other accounted)
        · exact .inr same
    · intro queued
      rcases List.mem_cons.mp queued with same | queued
      · simp only [Happened.queued.injEq] at same
        rw [← same]
        exact .inl (Connection.mem_reads running none)
      · exact Connection.closing_reads line (kept.closing queued)
    · intro ref now lines same
      rcases kept.draining ref now lines same with ⟨approved, absent⟩
      refine ⟨approved, ?_⟩
      rw [← absent]
      simp only [Connection.kept, Connection.reads, running, Bool.false_eq_true, if_false]
    · intro ref now refusal checked
      exact kept.stopped ref now refusal ((List.mem_cons.mp checked).resolve_left (by simp))
    · exact everywhere_cons.mpr ⟨trivial, kept.told⟩

theorem Kept.send {left asks : ℕ} (phase : s.phase = .sending left asks) (ok : Bool) :
    Kept batch firstQ validUntil taken (s.send left asks ok) := by
  have was : ∀ ref now lines, s.phase ≠ .draining ref now lines := by simp [phase]
  unfold Asker.send
  split
  · exact kept.turns was (by simp)
  · split
    · exact kept.turns was (by simp)
    · exact kept.turns was (by simp)

end

/-! ### The approval's reads -/

variable {unanswered : ℕ}

theorem Kept.nextBy (kept : Kept batch firstQ validUntil none s)
    (phase : s.phase = .reading unanswered) (before after : Instant) :
    Kept batch firstQ validUntil (s.connection.nextBy s.approval.validUntil before after).1
      { s with connection := (s.connection.nextBy s.approval.validUntil before after).2 } := by
  have was : ∀ ref now lines, s.phase ≠ .draining ref now lines := by simp [phase]
  refine kept.moved rfl rfl rfl ?_ (fun line same => absurd same.symm (Option.some_ne_none line))
    (Connection.closing_nextBy _ before after)
    (fun ref now lines same => absurd same (was ref now lines))
  intro line waiting
  rw [taking_of_not_draining was] at waiting
  rcases waiting with pending | clash
  · rcases Connection.pending_nextBy s.approval.validUntil before after pending with still | read
    · exact .inl (.inl still)
    · exact .inr read
  · cases clash

theorem Kept.drops {reply : InboxWaitReply} (kept : Kept batch firstQ validUntil (some reply) s)
    (other : isForTheFence reply = false) : Kept batch firstQ validUntil none s := by
  refine kept.moved rfl rfl rfl (fun line waiting => .inl waiting) ?_ id ?_
  · intro line same
    cases same
    exact .inl (.inr (.inl other))
  · exact kept.draining

theorem Kept.holds {reply : InboxWaitReply} (kept : Kept batch firstQ validUntil (some reply) s)
    (was : ∀ ref now lines, s.phase ≠ .draining ref now lines) :
    Kept batch firstQ validUntil none (s.holdForTheFence reply) := by
  unfold holdForTheFence
  split
  · refine kept.moved rfl rfl rfl ?_ ?_ id ?_
    · intro line waiting
      rcases waiting with pending | took
      · exact .inl (.inl (Connection.pending_hold reply (.inl pending)))
      · exact .inl (.inr took)
    · intro line same
      cases same
      exact .inl (.inl (.inl (Connection.pending_hold reply (.inr rfl))))
    · exact fun ref now lines same => absurd same (was ref now lines)
  · rename_i other
    exact kept.drops (Bool.eq_false_iff.mpr other)

variable {approval : Approval} {now : Instant}

theorem granted_answer {grant : InboxGrant} {k : Key}
    (granted : k ∈ (approval.answer grant now).granted) :
    k ∈ approval.granted ∨
      (grant.ok = true ∧ now < approval.validUntil ∧ approval.asked.get? grant.q = some k) := by
  unfold Approval.answer at granted
  split at granted
  · rename_i good
    split at granted
    · rename_i asked found
      rcases Finset.mem_insert.mp granted with same | granted
      · rw [same]
        exact .inr ⟨good.1, good.2, found⟩
      · exact .inl granted
    · exact .inl granted
  · exact .inl granted

theorem asked_answer (approval : Approval) (grant : InboxGrant) (now : Instant) :
    (approval.answer grant now).asked = approval.asked ∧
      (approval.answer grant now).validUntil = approval.validUntil := by
  unfold Approval.answer
  split
  · split
    · exact ⟨rfl, rfl⟩
    · exact ⟨rfl, rfl⟩
  · exact ⟨rfl, rfl⟩

theorem Kept.waiting (kept : Kept batch firstQ validUntil taken s) (idle : s.taking = [])
    {line : InboxWaitReply} (queued : Happened.queued (some line) ∈ s.past) :
    (s.connection.Pending line ∨ isForTheFence line = false ∨ s.fence.Saw line) ∨
      taken = some line := by
  have accounted := kept.lines line queued
  rw [Accounted, idle, List.mem_nil_iff, or_false] at accounted
  exact accounted

theorem Kept.answer (kept : Kept batch firstQ validUntil taken s)
    (phase : s.phase = .reading unanswered) (grant : InboxGrant) (now : Instant) :
    Kept batch firstQ validUntil taken (s.answer grant now unanswered) := by
  rcases asked_answer s.approval grant now with ⟨asked, same⟩
  have idle : s.taking = [] := taking_of_not_draining (by simp [phase])
  refine ⟨?_, ?_, ?_, ?_, ?_, ?_, ?_, ?_⟩
  · intro line queued
    rcases kept.waiting idle ((List.mem_cons.mp queued).resolve_left (by simp)) with
      (pending | handled) | taken
    · exact .inl (.inl (.inl pending))
    · exact .inl (.inr handled)
    · exact .inr taken
  · intro queued
    exact kept.closing ((List.mem_cons.mp queued).resolve_left (by simp))
  · exact asked.trans kept.asked
  · exact same.trans kept.lasts
  · intro ref granted
    rcases granted_answer granted with earlier | ⟨ok, inTime, found⟩
    · exact (kept.granted ref earlier).older _
    · rw [kept.asked] at found
      rw [kept.lasts] at inTime
      rcases asked_of_ask found with ⟨i, block, at_i, numbered, sameKey⟩
      exact ⟨i, block, grant, now, at_i, (key_injective sameKey).symm,
        List.mem_cons_self, numbered, ok, inTime⟩
  · intro ref now lines clash
    cases clash
  · intro ref now refusal checked
    exact kept.stopped ref now refusal ((List.mem_cons.mp checked).resolve_left (by simp))
  · exact everywhere_cons.mpr ⟨trivial, kept.told⟩

theorem Kept.readTurn (kept : Kept batch firstQ validUntil none s)
    (phase : s.phase = .reading unanswered) (before after now : Instant) :
    Kept batch firstQ validUntil none (s.readTurn unanswered before after now) := by
  have was : ∀ ref now lines, s.phase ≠ .draining ref now lines := by simp [phase]
  have next := kept.nextBy phase before after
  unfold Asker.readTurn
  split
  · exact kept.turns was (by simp)
  · split
    · rename_i connection read
      rw [read] at next
      exact next.turns was (by simp)
    · rename_i reply connection read
      rw [read] at next
      split
      · rename_i keepalive
        exact next.drops (not_forTheFence_of_keepalive keepalive)
      · split
        · rename_i grant granted
          exact (next.answer phase grant now).holds (by simp [Asker.answer])
        · exact next.holds was

/-! ### The checks -/

variable {ref : InboxAttemptRef}

theorem Kept.checks (kept : Kept batch firstQ validUntil none s) {result : Except FenceRefusal Unit}
    (idle : s.taking = [])
    (clear : Unmissed batch firstQ validUntil s.past (.checked ref now result))
    (ends : ∀ refusal, result = .error refusal → refusal.IsEnd → s.fence.ended = some refusal) :
    Kept batch firstQ validUntil none (s.checks ref now result) := by
  refine ⟨?_, ?_, kept.asked, kept.lasts,
    fun other granted => (kept.granted other granted).older _, ?_, ?_,
    everywhere_cons.mpr ⟨clear, kept.told⟩⟩
  · intro line queued
    rcases kept.waiting idle ((List.mem_cons.mp queued).resolve_left (by simp)) with
      (pending | handled) | taken
    · exact .inl (.inl (.inl pending))
    · exact .inl (.inr handled)
    · exact .inr taken
  · intro queued
    exact kept.closing ((List.mem_cons.mp queued).resolve_left (by simp))
  · intro ref now lines clash
    cases clash
  · intro other time refusal checked final
    rcases List.mem_cons.mp checked with same | earlier
    · simp only [Happened.checked.injEq] at same
      exact ends refusal same.2.2.symm final
    · exact kept.stopped other time refusal earlier final

theorem unapproved_refusal {refusal : FenceRefusal}
    (refused : Fence.unapproved approval ref now = some refusal) :
    refusal = .notGranted ∨ refusal = .expired := by
  unfold Fence.unapproved at refused
  split at refused
  · exact .inl (Option.some.inj refused).symm
  · split at refused
    · exact .inr (Option.some.inj refused).symm
    · cases refused

theorem approved_of_unapproved (approved : Fence.unapproved approval ref now = none) :
    key ref ∈ approval.granted ∧ now < approval.validUntil := by
  unfold Fence.unapproved at approved
  split at approved
  · cases approved
  · rename_i granted
    split at approved
    · cases approved
    · rename_i inTime
      exact ⟨of_decide_eq_true (Bool.of_not_eq_false granted), Nat.lt_of_not_le inTime⟩

theorem Kept.beginCheck (kept : Kept batch firstQ validUntil none s) (phase : s.phase = .fencing)
    (ref : InboxAttemptRef) (now : Instant) :
    Kept batch firstQ validUntil none (s.beginCheck ref now) := by
  have idle : s.taking = [] := taking_of_not_draining (by simp [phase])
  unfold Asker.beginCheck
  split
  · rename_i refusal refused
    have early := unapproved_refusal refused
    refine kept.checks idle ⟨fun clash => absurd clash (by simp), ?_⟩ ?_
    · intro other time earlier _ _
      rcases early with same | same
      · exact .inr (.inl (congrArg _ same))
      · exact .inr (.inr (congrArg _ same))
    · intro other same final
      cases same
      rcases early with same | same
      · subst same
        exact final.elim
      · subst same
        exact final.elim
  · rename_i approved
    refine kept.moved rfl rfl rfl ?_ (fun line clash => absurd clash.symm (Option.some_ne_none _))
      id ?_
    · intro line waiting
      rw [idle] at waiting
      rcases waiting with (queued | left) | clash
      · exact .inl (.inl (.inl queued))
      · exact .inl (.inr left)
      · cases clash
    · intro other time lines same
      cases same
      exact ⟨approved, rfl⟩

variable {lines : List InboxWaitReply}

theorem Kept.saw (kept : Kept batch firstQ validUntil none s) (takes : s.taking = lines)
    (absent : s.connection.kept = []) (empty : s.connection.lines = []) {line : InboxWaitReply}
    (queued : .queued (some line) ∈ s.past) (eof : Bool) :
    isForTheFence line = false ∨ (s.fence.see { lines := lines, eof := eof }).Saw line := by
  rcases kept.lines line queued with ((pending | took) | handled) | clash
  · rcases pending with waits | left
    · rw [empty] at waits
      cases waits
    · rw [absent] at left
      cases left
  · rw [takes] at took
    exact .inr (Fence.saw_see s.fence took)
  · rcases handled with other | saw
    · exact .inl other
    · exact .inr (saw.later (Fence.grows_see s.fence _))
  · cases clash

variable (kept : Kept batch firstQ validUntil none s)

include kept

section

variable (phase : s.phase = .draining ref now lines)

include phase

theorem Kept.cleared {marker : Option RevokeState}
    (finished : s.connection.ended = true ∨ s.connection.lines = [])
    (passed : (s.fence.see { lines := lines, eof := s.connection.ended }).settle ref marker =
      .ok ()) :
    Cleared batch firstQ validUntil s.past ref now := by
  rcases kept.draining ref now lines phase with ⟨approved, absent⟩
  rcases approved_of_unapproved approved with ⟨granted, inTime⟩
  rcases Fence.settle_ok passed with ⟨stands, unrevoked⟩
  have running : s.connection.ended = false := by
    rw [← Bool.not_eq_true]
    exact fun ended => Fence.ended_see s.fence ended stands
  have empty : s.connection.lines = [] :=
    finished.resolve_left (fun ended => Bool.false_ne_true (running.symm.trans ended))
  have takes : s.taking = lines := by simp only [taking, phase]
  refine ⟨kept.granted ref granted, ?_, ?_, ?_, ?_⟩
  · rw [← kept.lasts]
    exact inTime
  · intro line queued named
    rcases kept.saw takes absent empty queued s.connection.ended with other | saw
    · rw [(terminal_of_not_forTheFence other).1] at named
      cases named
    · exact unrevoked (saw.1 ref named)
  · intro line queued
    rcases kept.saw takes absent empty queued s.connection.ended with other | saw
    · exact (terminal_of_not_forTheFence other).2
    · exact Classical.byContradiction (fun ends => saw.2 ends stands)
  · intro queued
    rcases kept.closing queued with waits | ended
    · rw [empty] at waits
      cases waits
    · exact Bool.false_ne_true (running.symm.trans ended)

theorem Kept.takesIn (eof : Bool) :
    Kept batch firstQ validUntil none
      { s with fence := s.fence.see { lines := lines, eof := eof }, phase := .fencing } := by
  have grows := Fence.grows_see s.fence { lines := lines, eof := eof }
  have takes : s.taking = lines := by simp only [taking, phase]
  refine ⟨?_, kept.closing, kept.asked, kept.lasts, kept.granted, ?_, ?_, kept.told⟩
  · intro line queued
    rcases kept.lines line queued with ((pending | took) | handled) | clash
    · exact .inl (.inl (.inl pending))
    · rw [takes] at took
      exact .inl (.inr (.inr (Fence.saw_see s.fence took)))
    · rcases handled with other | saw
      · exact .inl (.inr (.inl other))
      · exact .inl (.inr (.inr (saw.later grows)))
    · cases clash
  · intro other time more clash
    cases clash
  · intro other time refusal checked final
    exact grows.2 refusal (kept.stopped other time refusal checked final)

theorem Kept.endCheck (finished : s.connection.ended = true ∨ s.connection.lines = [])
    (marker : Option RevokeState) :
    Kept batch firstQ validUntil none (s.endCheck ref now lines marker) := by
  have takesIn := kept.takesIn phase s.connection.ended
  refine takesIn.checks rfl ⟨fun passed => kept.cleared phase finished passed, ?_⟩ ?_
  · intro other time refusal checked final
    exact .inl (Fence.settle_ended (takesIn.stopped other time refusal checked final))
  · exact fun refusal settled final => Fence.ended_of_settle settled final

theorem Kept.drain (marker : Option RevokeState) :
    Kept batch firstQ validUntil none (s.drain ref now lines marker) := by
  have takes : s.taking = lines := by simp only [taking, phase]
  rcases kept.draining ref now lines phase with ⟨approved, absent⟩
  unfold Asker.drain
  split
  · rename_i connection more looked
    refine kept.moved rfl rfl rfl ?_ (fun line clash => absurd clash.symm (Option.some_ne_none _))
      ?_ ?_
    · intro line waiting
      rw [takes] at waiting
      have still := Connection.pending_tryRecv waiting
      rw [looked] at still
      exact .inl still
    · intro closing
      have still := Connection.closing_tryRecv lines closing
      rw [looked] at still
      exact still
    · intro other time taken same
      cases same
      have still := Connection.kept_tryRecv s.connection lines
      rw [looked] at still
      exact ⟨approved, still.trans absent⟩
  · rename_i connection more looked
    have done : (s.connection.tryRecv lines).2.2 := by rw [looked]
    have same := Connection.tryRecv_over done
    rw [looked] at same
    rcases same with ⟨sameConnection, sameLines, ended⟩
    subst sameConnection sameLines
    exact kept.endCheck phase ended marker

end

theorem Kept.step (move : Move) : Kept batch firstQ validUntil none (s.step move) := by
  cases move with
  | arrive line => exact kept.arrive line
  | sent ok =>
    simp only [Asker.step]
    split
    · rename_i left asks phase
      exact kept.send phase ok
    · exact kept
  | read before after now =>
    simp only [Asker.step]
    split
    · rename_i unanswered phase
      exact kept.readTurn phase before after now
    · exact kept
  | check ref now =>
    simp only [Asker.step]
    split
    · rename_i phase
      exact kept.beginCheck phase ref now
    · exact kept
  | recv marker =>
    simp only [Asker.step]
    split
    · rename_i ref now lines phase
      exact kept.drain phase marker
    · exact kept

end Kept

theorem kept_begins (connection : Connection) (batch : OneShotBatch) (sentAt : Instant)
    (grantTtl : Duration) :
    Kept batch connection.nextQ (sentAt + grantTtl) none
      (begins connection batch sentAt grantTtl) := by
  refine ⟨?_, ?_, rfl, rfl, ?_, ?_, ?_, everywhere_nil _⟩
  · exact fun line queued => absurd queued List.not_mem_nil
  · exact fun queued => absurd queued List.not_mem_nil
  · exact fun ref granted => absurd granted (Finset.notMem_empty _)
  · exact fun ref now lines clash => by cases clash
  · exact fun ref now refusal checked => absurd checked List.not_mem_nil

end Asker

/-- Whatever the moves, a check that passes is covered by a grant received in time and has missed no
line queued before it, and none passes once one has been refused for the connection. -/
theorem fence_misses_nothing (connection : Connection) (batch : OneShotBatch) (sentAt : Instant)
    (grantTtl : Duration) (moves : List Move) :
    Everywhere (Unmissed batch connection.nextQ (sentAt + grantTtl))
      (moves.foldl Asker.step (Asker.begins connection batch sentAt grantTtl)).past :=
  (Runs.run_keeps_always (Asker.Kept batch connection.nextQ (sentAt + grantTtl) none)
    (fun _ move kept => kept.step move)
    (Asker.kept_begins connection batch sentAt grantTtl)).told

/-! A grant in time passes a check; a revoke that arrives afterwards stops the next one. -/

section Example

def oneBlock : OneShotBatch := { blocks := [{ at_ := ⟨[], 1, 1⟩, text := [], caps := none }] }

def freshConnection : Connection :=
  { lines := [], readerDone := false, held := [], unread := none, ended := false, nextQ := 1 }

def grantsFirst : InboxWaitReply :=
  { superseded := false, notInDeck := false, refused := none, keepalive := false,
    grant := some { q := 1, ok := true, refusal := none }, revoke := [], alone := by decide }

def revokesFirst : InboxWaitReply :=
  { superseded := false, notInDeck := false, refused := none, keepalive := false, grant := none,
    revoke := [⟨[], 1, 1⟩], alone := by decide }

def resultOf : Happened → Option (Option FenceRefusal)
  | .checked _ _ (.ok _) => some none
  | .checked _ _ (.error refusal) => some (some refusal)
  | _ => none

example :
    (([.sent true, .sent true, .arrive (some grantsFirst), .read 1 2 3, .read 3 3 3,
        .check ⟨[], 1, 1⟩ 5, .recv none, .arrive (some revokesFirst), .check ⟨[], 1, 1⟩ 6,
        .recv none, .recv none] : List Move).foldl Asker.step
      (Asker.begins freshConnection oneBlock 0 10)).past.filterMap resultOf =
      [some .revoked, none] := by
  decide

end Example

end AgentDeck.OneShot
