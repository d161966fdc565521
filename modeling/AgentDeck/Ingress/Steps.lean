import AgentDeck.Ingress.Ledger
import AgentDeck.Lib.Runs

/-!
# What a ticket owes

What a step changes, and why a ticket is reported once: at every moment exactly one of its caller,
its job's flag, a report under way and a report made stands for its outcome.
-/

namespace AgentDeck.Ingress

def Caller.holds : Caller → Bool
  | .enqueueing | .enqueued | .unarmed | .decided _ => true
  | _ => false

/-- Its `queue_with` has not come to the flag. -/
def Caller.beforeExchange : Caller → Bool
  | .enqueueing | .enqueued => true
  | _ => false

def Caller.young : Caller → Bool
  | .absent | .guard | .settling _ | .entering => true
  | _ => false

/-- The steps that settle nothing. -/
inductive Ticket.Acts (x : Ticket) : Ticket → Prop where
  | endGuard (guard : x.caller = .guard) (how : Outcome) : Acts x { x with caller := .settling how }
  | intoJob (guard : x.caller = .guard) : Acts x { x with caller := .entering }
  | send (caller : x.caller = .enqueueing) (held : x.job = .held) : Acts x { x with sent := true }
  | enqueueReturns (caller : x.caller = .enqueueing) (left : x.sent = true ∨ x.job = .gone)
      (untaken : x.sent = true ∨ x.flag ≠ .reported) : Acts x { x with caller := .enqueued }
  | arm (caller : x.caller = .enqueued) (sent : x.sent = true) (flag : x.flag = .unqueued) :
      Acts x { x with
        flag := .queued
        caller := .decided true }
  | armReported (caller : x.caller = .enqueued) (sent : x.sent = true) (flag : x.flag = .reported) :
      Acts x { x with caller := .decided true }
  | unarm (caller : x.caller = .enqueued)
      (why : x.sent = false ∨ x.flag = .queued ∨ x.flag = .disposed) :
      Acts x { x with caller := .unarmed }
  | store (caller : x.caller = .unarmed) :
      Acts x { x with
        flag := .reported
        caller := .decided false }
  | report (held : x.job = .held) (sent : x.sent = true) (flag : x.flag ≠ .reported)
    (how : Outcome) :
      Acts x { x with
        flag := .reported
        job := .reporting how }
  | late (held : x.job = .held) (sent : x.sent = true) (flag : x.flag = .reported) :
      Acts x { x with job := .leaving }
  | look (job : x.job = .held ∨ x.job = .leaving) : Acts x { x with job := .looked x.flag }
  | dropQueued (job : x.job = .looked .queued) (flag : x.flag = .queued) (how : Outcome) :
      Acts x { x with
        flag := .reported
        job := .dropping how }
  | dropUnqueued (job : x.job = .looked .unqueued) (flag : x.flag = .unqueued) :
      Acts x { x with
        flag := .disposed
        job := .gone
        disposed := true }
  | lookAgain {seen : Flag} (job : x.job = .looked seen) (moved : x.flag ≠ seen) :
      Acts x { x with job := .looked x.flag }
  | leave {seen : Flag} (job : x.job = .looked seen) (ended : seen = .reported ∨ seen = .disposed) :
      Acts x { x with job := .gone }
  | takeBack (made : x.job ≠ .absent) (unreported : x.flag ≠ .reported)
      (flag : x.flag ≠ .disposed) :
      Acts x { x with
        flag := .reported
        taking := x.taking + 1 }

/-- What a call of `settle` changes in its ticket, but for its record. -/
inductive Ticket.Settles (x : Ticket) : Outcome → Ticket → Prop where
  | guard {how : Outcome} (caller : x.caller = .settling how) :
      Settles x how { x with caller := .done }
  | job {how : Outcome} (job : x.job = .reporting how) : Settles x how { x with job := .leaving }
  | drop {how : Outcome} (job : x.job = .dropping how) : Settles x how { x with job := .gone }
  | takeBack {taking : ℕ} (was : x.taking = taking + 1) :
      Settles x .cancelled { x with taking := taking }

/-- The steps of the system, each with what it asks of the state. -/
inductive Moved (s : System) : IngressOp → System → Prop where
  | admitted (free : s.hold = none) : Moved s .admitTicket
      { s with
        inner := s.inner.admitTicket
        tickets :=
          Function.update s.tickets (s.inner.nextTicket + 1) (Ticket.admitted !s.inner.closed) }
  | closed (free : s.hold = none) : Moved s .close { s with inner := s.inner.close }
  | acts {op : IngressOp} {t : ℕ} {x : Ticket} (acts : (s.tickets t).Acts x) :
    Moved s op (s.put t x)
  | locked {t : ℕ} (caller : (s.tickets t).caller = .entering) (free : s.hold = none) :
      Moved s (.lock t)
        { s.put t { s.tickets t with caller := .enqueueing, job := .held } with hold := some t }
  | settled {op : IngressOp} {t : ℕ} {how : Outcome} {x : Ticket} (free : s.hold = none)
      (settles : (s.tickets t).Settles how x) : Moved s op (s.settle t x how)
  | booked {t prior : ℕ} {armedNow : Bool} (caller : (s.tickets t).caller = .decided armedNow) :
      Moved s (.book t prior) (s.book t prior armedNow)

/-- No take-back finds its job's flag `DISPOSED`, and `enqueue` does not give up a job that was
taken back. -/
def Uncrossed (s : System) : IngressOp → Prop
  | .takeBack t => (s.tickets t).flag ≠ .disposed
  | .enqueueReturns t => (s.tickets t).sent = true ∨ (s.tickets t).flag ≠ .reported
  | _ => True

theorem Ticket.exchange_acts {x : Ticket} (caller : x.caller = .enqueued) : x.Acts x.exchange := by
  simp only [Ticket.exchange]
  split
  · rename_i sent flag
    exact Acts.arm caller sent flag
  · rename_i sent flag
    exact Acts.armReported caller sent flag
  · rename_i unarmed reported
    refine Acts.unarm caller ?_
    cases sent : x.sent with
    | false => exact Or.inl rfl
    | true =>
      cases flag : x.flag with
      | unqueued => exact absurd flag (unarmed sent)
      | reported => exact absurd flag (reported sent)
      | queued => exact Or.inr (Or.inl rfl)
      | disposed => exact Or.inr (Or.inr rfl)

theorem Ticket.move_acts {x : Ticket} {seen : Flag} (job : x.job = .looked seen) (prior : ℕ) :
    x.Acts (x.move seen prior) := by
  cases seen with
  | queued =>
    simp only [Ticket.move]
    split
    · rename_i flag
      exact Acts.dropQueued job flag _
    · rename_i moved
      exact Acts.lookAgain job moved
  | unqueued =>
    simp only [Ticket.move]
    split
    · rename_i flag
      exact Acts.dropUnqueued job flag
    · rename_i moved
      exact Acts.lookAgain job moved
  | reported => exact Acts.leave job (Or.inl rfl)
  | disposed => exact Acts.leave job (Or.inr rfl)

namespace System

/-- A step does nothing or is one of `Moved`. -/
theorem step_cases (s : System) {op : IngressOp} (uncrossed : Uncrossed s op) :
    s.step op = s ∨ Moved s op (s.step op) := by
  cases op with
  | admitTicket =>
    simp only [step]
    split
    · rename_i free
      exact Or.inr (Moved.admitted free)
    · exact Or.inl rfl
  | close =>
    simp only [step]
    split
    · rename_i free
      exact Or.inr (Moved.closed free)
    · exact Or.inl rfl
  | endGuard t cause =>
    simp only [step]
    split
    · rename_i guard
      exact Or.inr (Moved.acts (Ticket.Acts.endGuard guard _))
    · exact Or.inl rfl
  | settleGuard t =>
    simp only [step]
    split
    · rename_i caller free
      exact Or.inr (Moved.settled free (Ticket.Settles.guard caller))
    · exact Or.inl rfl
  | intoJob t =>
    simp only [step]
    split
    · rename_i guard
      exact Or.inr (Moved.acts (Ticket.Acts.intoJob guard))
    · exact Or.inl rfl
  | lock t =>
    simp only [step]
    split
    · rename_i caller free
      exact Or.inr (Moved.locked caller free)
    · exact Or.inl rfl
  | send t =>
    simp only [step]
    split
    · rename_i caller held
      exact Or.inr (Moved.acts (Ticket.Acts.send caller held))
    · exact Or.inl rfl
  | enqueueReturns t =>
    simp only [step]
    split
    · rename_i caller
      split
      · rename_i left
        exact Or.inr (Moved.acts (Ticket.Acts.enqueueReturns caller left uncrossed))
      · exact Or.inl rfl
    · exact Or.inl rfl
  | exchange t =>
    simp only [step]
    split
    · rename_i caller
      exact Or.inr (Moved.acts (Ticket.exchange_acts caller))
    · exact Or.inl rfl
  | store t =>
    simp only [step]
    split
    · rename_i caller
      exact Or.inr (Moved.acts (Ticket.Acts.store caller))
    · exact Or.inl rfl
  | book t prior =>
    simp only [step]
    split
    · rename_i caller
      exact Or.inr (Moved.booked caller)
    · exact Or.inl rfl
  | endJob t cause =>
    simp only [step]
    split
    · rename_i held sent
      refine Or.inr (Moved.acts ?_)
      by_cases flag : (s.tickets t).flag = .reported
      · rw [if_pos flag, ← flag]
        exact Ticket.Acts.late held sent flag
      · rw [if_neg flag]
        exact Ticket.Acts.report held sent flag _
    · exact Or.inl rfl
  | settleJob t =>
    simp only [step]
    split
    · rename_i job free
      exact Or.inr (Moved.settled free (Ticket.Settles.job job))
    · exact Or.inl rfl
  | look t =>
    simp only [step]
    split
    · rename_i held
      exact Or.inr (Moved.acts (Ticket.Acts.look (Or.inl held)))
    · rename_i leaving
      exact Or.inr (Moved.acts (Ticket.Acts.look (Or.inr leaving)))
    · exact Or.inl rfl
  | move t prior =>
    simp only [step]
    split
    · rename_i job
      exact Or.inr (Moved.acts (Ticket.move_acts job prior))
    · exact Or.inl rfl
  | settleDrop t =>
    simp only [step]
    split
    · rename_i job free
      exact Or.inr (Moved.settled free (Ticket.Settles.drop job))
    · exact Or.inl rfl
  | takeBack t =>
    simp only [step]
    split
    · rename_i stands
      exact Or.inr (Moved.acts (Ticket.Acts.takeBack stands.1 stands.2 uncrossed))
    · exact Or.inl rfl
  | settleTakeBack t =>
    simp only [step]
    split
    · rename_i was free
      exact Or.inr (Moved.settled free (Ticket.Settles.takeBack was))
    · exact Or.inl rfl

end System

def Flag.unarmed : Flag → ℕ
  | .unqueued | .disposed => 1
  | _ => 0

/-- What a flag owes by itself: an armed job that was not reported. -/
def Flag.owes : Flag → ℕ
  | .queued => 1
  | _ => 0

def Caller.owes (flag : Flag) : Caller → ℕ
  | .guard | .settling _ | .entering | .unarmed | .decided false => 1
  | .enqueueing | .enqueued => flag.unarmed
  | _ => 0

def Job.owes : Job → ℕ
  | .reporting _ | .dropping _ => 1
  | _ => 0

/-- It is reported, or reports now. -/
def Job.past : Job → Bool
  | .reporting _ | .leaving | .dropping _ | .looked .reported | .looked .disposed => true
  | _ => false

theorem Job.past_looked {seen : Flag} (past : (Job.looked seen).past) :
    seen = .reported ∨ seen = .disposed := by
  cases seen with
  | unqueued | queued => exact Bool.noConfusion past
  | reported => exact Or.inl rfl
  | disposed => exact Or.inr rfl

namespace Ticket

/-- How many stand for the ticket's outcome. -/
def owed (x : Ticket) : ℕ :=
  x.caller.owes x.flag + x.flag.owes + x.job.owes + x.taking + x.reports.length

/-- The invariant of one ticket, at every point of its exchange with the job. -/
structure Sound (x : Ticket) : Prop where
  owed : x.owed = if x.caller = .absent then 0 else 1
  young : x.caller.young = true →
    x.flag = .unqueued ∧ x.job = .absent ∧ x.taking = 0 ∧ x.sent = false ∧ x.disposed = false
  unqueued : x.flag = .unqueued → x.job ≠ .absent → x.caller.beforeExchange = true
  early : x.caller.beforeExchange = true → x.flag ≠ .queued
  gone : x.flag = .disposed →
    x.job = .gone ∧ x.disposed = true ∧ (x.caller.beforeExchange = true ∨ x.caller = .unarmed)
  stays : x.disposed = true → x.caller.beforeExchange = true → x.flag = .disposed
  unarmed : x.caller = .unarmed → x.flag = .disposed
  unsent : x.sent = false →
    x.job = .absent ∨ (x.job = .held ∨ x.job = .looked .unqueued) ∧ x.flag = .unqueued ∨
      x.job = .gone ∧ x.disposed = true ∨ x.caller = .enqueueing ∧ x.flag = .reported
  enqueued : x.caller = .enqueued → x.sent = true ∨ x.job = .gone
  made : x.caller.holds = true ∨ x.sent = true → x.job ≠ .absent
  armed : x.caller = .decided true → x.sent = true ∧ x.disposed = false
  refused : x.caller = .decided false → x.disposed = true
  waiting : x.caller.holds = true → x.reports = []
  told : x.caller = .done → x.disposed = true → x.reports ≠ []
  past : x.job.past = true → x.flag = .reported
  left : x.job = .gone → x.flag = .reported ∨ x.flag = .disposed
  queued : x.flag = .queued → x.sent = true

variable {x : Ticket}

theorem Sound.taken_over (sound : x.Sound) (made : x.job ≠ .absent)
    (unreported : x.flag ≠ .reported) (undisposed : x.flag ≠ .disposed) :
    x.caller.owes x.flag + x.flag.owes = x.caller.owes .reported + 1 := by
  cases flag : x.flag with
  | unqueued =>
    have before := sound.unqueued flag made
    cases caller : x.caller <;> simp_all [Caller.beforeExchange, Caller.owes,
      Flag.unarmed, Flag.owes]
  | queued => cases caller : x.caller <;> simp_all [Caller.owes, Flag.unarmed, Flag.owes]
  | reported => exact absurd flag unreported
  | disposed => exact absurd flag undisposed

theorem Sound.disposed_of (sound : x.Sound) (caller : x.caller = .enqueued)
    (why : x.sent = false ∨ x.flag = .queued ∨ x.flag = .disposed) : x.flag = .disposed := by
  have before : x.caller.beforeExchange := by rw [caller]; rfl
  rcases why with unsent | queued | disposed
  · apply sound.stays _ before
    rcases sound.enqueued caller with sent | gone
    · cases sent.symm.trans unsent
    · have job := sound.unsent unsent
      simp only [gone, caller, reduceCtorEq, false_or, false_and, true_and, or_false] at job
      exact job
  · exact absurd queued (sound.early before)
  · exact disposed

variable {x' : Ticket}

theorem Acts.owed (sound : x.Sound) (acts : x.Acts x') :
    x'.owed = if x'.caller = .absent then 0 else 1 := by
  have owed := sound.owed
  simp only [Ticket.owed] at owed ⊢
  cases acts with
  | endGuard guard how | intoJob guard => simpa [guard, Caller.owes] using owed
  | send caller held => exact owed
  | enqueueReturns caller => simpa [caller, Caller.owes] using owed
  | arm caller sent flag | armReported caller sent flag =>
    simpa [caller, flag, Caller.owes, Flag.unarmed, Flag.owes] using owed
  | unarm caller why =>
    have flag := sound.disposed_of caller why
    simpa [caller, flag, Caller.owes, Flag.unarmed, Flag.owes] using owed
  | store caller =>
    have flag := sound.unarmed caller
    simpa [caller, flag, Caller.owes, Flag.owes] using owed
  | report held sent flag how =>
    have undisposed : x.flag ≠ .disposed := by
      intro disposed
      have gone := (sound.gone disposed).1
      rw [held] at gone
      exact Job.noConfusion gone
    have ended := sound.taken_over (sound.made (Or.inr sent)) flag undisposed
    simp only [held, Job.owes, Flag.owes] at owed ⊢
    simp only [Flag.owes] at ended
    omega
  | late held sent flag => simpa [held, Job.owes] using owed
  | look job =>
    rcases job with held | leaving
    · simpa [held, Job.owes] using owed
    · simpa [leaving, Job.owes] using owed
  | dropQueued job flag how =>
    have made : x.job ≠ .absent := by rw [job]; exact Job.noConfusion
    have ended := sound.taken_over made (by rw [flag]; exact Flag.noConfusion)
      (by rw [flag]; exact Flag.noConfusion)
    simp only [job, Job.owes, Flag.owes] at owed ended ⊢
    omega
  | dropUnqueued job flag =>
    simp only [job, flag, Job.owes, Flag.owes] at owed ⊢
    cases caller : x.caller <;> simpa [caller, Caller.owes, Flag.unarmed] using owed
  | lookAgain job moved | leave job ended => simpa [job, Job.owes] using owed
  | takeBack made unreported flag =>
    have ended := sound.taken_over made unreported flag
    simp only [Flag.owes] at owed ended ⊢
    omega

theorem Acts.young (sound : x.Sound) (acts : x.Acts x') :
    x'.caller.young = true →
    x'.flag = .unqueued ∧ x'.job = .absent ∧ x'.taking = 0 ∧ x'.sent = false ∧
      x'.disposed = false := by
  have young := sound.young
  clear sound
  cases acts <;>
    first
    | assumption
    | grind -ring -linarith [Caller.young]

theorem Acts.unqueued (sound : x.Sound) (acts : x.Acts x') :
    x'.flag = .unqueued → x'.job ≠ .absent → x'.caller.beforeExchange := by
  have unqueued := sound.unqueued
  have enqueued := sound.enqueued
  have left := sound.left
  clear sound
  cases acts <;>
    first
    | assumption
    | grind -ring -linarith [Caller.beforeExchange]

theorem Acts.early (sound : x.Sound) (acts : x.Acts x') :
    x'.caller.beforeExchange = true → x'.flag ≠ .queued := by
  have early := sound.early
  clear sound
  cases acts <;>
    first
    | assumption
    | grind -ring -linarith [Caller.beforeExchange]

theorem Acts.gone (sound : x.Sound) (acts : x.Acts x') :
    x'.flag = .disposed →
    x'.job = .gone ∧ x'.disposed = true ∧
      (x'.caller.beforeExchange = true ∨ x'.caller = .unarmed) := by
  have unqueued := sound.unqueued
  have gone := sound.gone
  clear sound
  cases acts <;>
    first
    | assumption
    | grind -ring -linarith [Caller.beforeExchange]

theorem Acts.stays (sound : x.Sound) (acts : x.Acts x') :
    x'.disposed = true → x'.caller.beforeExchange = true → x'.flag = .disposed := by
  have gone := sound.gone
  have stays := sound.stays
  clear sound
  cases acts <;>
    first
    | assumption
    | grind -ring -linarith [Caller.beforeExchange]

theorem Acts.unarmed (sound : x.Sound) (acts : x.Acts x') :
    x'.caller = .unarmed → x'.flag = .disposed := by
  have early := sound.early
  have gone := sound.gone
  have stays := sound.stays
  have unarmed := sound.unarmed
  have unsent := sound.unsent
  have enqueued := sound.enqueued
  clear sound
  cases acts <;>
    first
    | assumption
    | grind -ring -linarith [Caller.beforeExchange]

theorem Acts.unsent (sound : x.Sound) (acts : x.Acts x') :
    x'.sent = false →
    x'.job = .absent ∨ (x'.job = .held ∨ x'.job = .looked .unqueued) ∧ x'.flag = .unqueued ∨
      x'.job = .gone ∧ x'.disposed = true ∨ x'.caller = .enqueueing ∧ x'.flag = .reported := by
  have unarmed := sound.unarmed
  have unsent := sound.unsent
  have unqueued := sound.unqueued
  have enqueued := sound.enqueued
  clear sound
  cases acts <;>
    first
    | assumption
    | grind -ring -linarith [Caller.beforeExchange]

theorem Acts.enqueued (sound : x.Sound) (acts : x.Acts x') :
    x'.caller = .enqueued → x'.sent = true ∨ x'.job = .gone := by
  have enqueued := sound.enqueued
  clear sound
  cases acts <;>
    first
    | assumption
    | grind -ring -linarith

theorem Acts.made (sound : x.Sound) (acts : x.Acts x') :
    x'.caller.holds = true ∨ x'.sent = true → x'.job ≠ .absent := by
  have made := sound.made
  clear sound
  cases acts <;>
    first
    | assumption
    | grind -ring -linarith [Caller.holds]

theorem Acts.armed (sound : x.Sound) (acts : x.Acts x') :
    x'.caller = .decided true → x'.sent = true ∧ x'.disposed = false := by
  have unqueued := sound.unqueued
  have stays := sound.stays
  have armed := sound.armed
  clear sound
  cases acts <;>
    first
    | assumption
    | grind -ring -linarith [Caller.beforeExchange]

theorem Acts.refused (sound : x.Sound) (acts : x.Acts x') :
    x'.caller = .decided false → x'.disposed := by
  have gone := sound.gone
  have unarmed := sound.unarmed
  have refused := sound.refused
  clear sound
  cases acts <;>
    first
    | assumption
    | grind -ring -linarith

theorem Acts.waiting (sound : x.Sound) (acts : x.Acts x') :
    x'.caller.holds = true → x'.reports = [] := by
  have waiting := sound.waiting
  clear sound
  cases acts <;>
    first
    | assumption
    | grind -ring -linarith [Caller.holds]

theorem Acts.told (sound : x.Sound) (acts : x.Acts x') :
    x'.caller = .done → x'.disposed = true → x'.reports ≠ [] := by
  have unqueued := sound.unqueued
  have told := sound.told
  clear sound
  cases acts <;>
    first
    | assumption
    | grind -ring -linarith [Caller.beforeExchange]

theorem Acts.past (sound : x.Sound) (acts : x.Acts x') :
    x'.job.past = true → x'.flag = .reported := by
  have gone := sound.gone
  have past := sound.past
  clear sound
  cases acts <;>
    first
    | assumption
    | grind -ring -linarith [Job.past, Job.past_looked]

theorem Acts.left (sound : x.Sound) (acts : x.Acts x') :
    x'.job = .gone → x'.flag = .reported ∨ x'.flag = .disposed := by
  have past := sound.past
  have left := sound.left
  clear sound
  cases acts <;>
    first
    | assumption
    | grind -ring -linarith [Job.past]

theorem Acts.queued (sound : x.Sound) (acts : x.Acts x') : x'.flag = .queued → x'.sent := by
  have queued := sound.queued
  clear sound
  cases acts <;>
    first
    | assumption
    | grind -ring -linarith

/-- Every step that settles nothing keeps it, field by field. -/
theorem Acts.sound (sound : x.Sound) (acts : x.Acts x') : x'.Sound where
  owed := acts.owed sound
  young := acts.young sound
  unqueued := acts.unqueued sound
  early := acts.early sound
  gone := acts.gone sound
  stays := acts.stays sound
  unarmed := acts.unarmed sound
  unsent := acts.unsent sound
  enqueued := acts.enqueued sound
  made := acts.made sound
  armed := acts.armed sound
  refused := acts.refused sound
  waiting := acts.waiting sound
  told := acts.told sound
  past := acts.past sound
  left := acts.left sound
  queued := acts.queued sound

variable {how : Outcome}

theorem Settles.owed (sound : x.Sound) (settles : x.Settles how x') :
    (x'.report how).owed = if x'.caller = .absent then 0 else 1 := by
  have owed := sound.owed
  simp only [Ticket.owed, report, List.length_append, List.length_singleton] at owed ⊢
  cases settles with
  | guard caller =>
    simp only [caller, Caller.owes, reduceCtorEq] at owed ⊢
    omega
  | job job | drop job =>
    simp only [job, Job.owes] at owed ⊢
    omega
  | takeBack was =>
    dsimp only
    omega

theorem Sound.reported (sound : x.Sound) (free : x.caller.holds = false)
    (old : x.caller.young = false) {job : Job} {taking : ℕ}
    (owed : (Ticket.report { x with job := job, taking := taking } how).owed =
      if x.caller = .absent then 0 else 1) (made : x.job ≠ .absent → job ≠ .absent)
    (unsent : x.sent = false → job = x.job) (past : job.past = true → x.flag = .reported)
    (left : job = .gone → x.flag = .reported ∨ x.flag = .disposed) :
    (Ticket.report { x with job := job, taking := taking } how).Sound where
  owed := owed
  young young := absurd (young.symm.trans old) Bool.noConfusion
  unqueued flag present := by
    apply sound.unqueued flag
    intro absent
    by_cases sent : x.sent = true
    · exact sound.made (Or.inr sent) absent
    · exact present ((unsent (Bool.eq_false_iff.mpr sent)).trans absent)
  early := sound.early
  gone flag := by
    have caller := (sound.gone flag).2.2
    cases is : x.caller <;> simp_all [Caller.holds, Caller.beforeExchange]
  stays := sound.stays
  unarmed := sound.unarmed
  unsent is := by
    rw [unsent is]
    exact sound.unsent is
  enqueued caller := by
    rw [show x.caller = .enqueued from caller] at free
    exact Bool.noConfusion free
  made is := made (sound.made is)
  armed := sound.armed
  refused := sound.refused
  waiting holds := absurd (holds.symm.trans free) Bool.noConfusion
  told _ _ := by simp only [report, ne_eq, List.append_eq_nil_iff, List.cons_ne_self, and_false,
    not_false_eq_true]
  past := past
  left := left
  queued := sound.queued

theorem Sound.sent_of (sound : x.Sound) (free : x.caller.holds = false) (absent : x.job ≠ .absent)
    (held : x.job ≠ .held) (looked : x.job ≠ .looked .unqueued) (gone : x.job ≠ .gone) :
    x.sent := by
  cases sent : x.sent with
  | true => rfl
  | false =>
    rcases sound.unsent sent with is | ⟨is | is, _⟩ | ⟨is, _⟩ | ⟨is, _⟩
    · exact absurd is absent
    · exact absurd is held
    · exact absurd is looked
    · exact absurd is gone
    · rw [is] at free
      exact Bool.noConfusion free

theorem Sound.old_of_sent (sound : x.Sound) (sent : x.sent) : x.caller.young = false := by
  cases young : x.caller.young with
  | false => rfl
  | true => exact absurd (sent.symm.trans (sound.young young).2.2.2.1) Bool.noConfusion

/-- So does a settlement, which pays one that was owed. -/
theorem Settles.sound (sound : x.Sound)
    (free : x.caller.holds = false) (settles : x.Settles how x') : (x'.report how).Sound := by
  have owed := settles.owed sound
  cases settles with
  | guard caller =>
    rcases sound.young (by rw [caller]; rfl) with ⟨flag, job, taking, unsent, undisposed⟩
    constructor <;> simp_all [report, Caller.young, Caller.beforeExchange, Caller.holds, Job.past]
  | job job | drop job =>
    have sent : x.sent := by
      apply sound.sent_of free <;> rw [job] <;> exact Job.noConfusion
    have flag := sound.past (by rw [job]; rfl)
    refine sound.reported free (sound.old_of_sent sent) owed (fun _ => Job.noConfusion) ?_
      (fun _ => flag) (fun _ => Or.inl flag)
    intro unsent
    cases sent.symm.trans unsent
  | takeBack was =>
    have old : x.caller.young = false := by
      cases young : x.caller.young with
      | false => rfl
      | true =>
        have absent := (sound.young young).2.2.1
        omega
    exact sound.reported free old owed (fun made => made) (fun _ => rfl) sound.past sound.left

theorem Sound.locked (sound : x.Sound) (caller : x.caller = .entering) :
    Sound { x with caller := .enqueueing, job := .held } := by
  rcases sound.young (by rw [caller]; rfl) with ⟨flag, job, taking, unsent, undisposed⟩
  have owed := sound.owed
  constructor <;> simp_all [Ticket.owed, Caller.owes, Flag.unarmed, Flag.owes,
    Job.owes, Caller.young,
    Caller.beforeExchange, Caller.holds, Job.past]

theorem Sound.ended {armedNow : Bool} (sound : x.Sound) (caller : x.caller = .decided armedNow)
    {reports : List Outcome} (owed : Ticket.owed { x with caller := .done, reports := reports } = 1)
    (told : x.disposed = true → reports ≠ []) :
    Sound { x with caller := .done, reports := reports } where
  owed := owed
  young := Bool.noConfusion
  unqueued flag present := by
    have before := sound.unqueued flag present
    rw [caller] at before
    exact before
  early := Bool.noConfusion
  gone flag := by
    have before := (sound.gone flag).2.2
    rw [caller] at before
    exact before.elim Bool.noConfusion Caller.noConfusion
  stays _ := Bool.noConfusion
  unarmed := Caller.noConfusion
  unsent unsent := by
    rcases sound.unsent unsent with absent | held | gone | ⟨is, _⟩
    · exact Or.inl absent
    · exact Or.inr (Or.inl held)
    · exact Or.inr (Or.inr (Or.inl gone))
    · cases caller.symm.trans is
  enqueued := Caller.noConfusion
  made is := sound.made (is.imp Bool.noConfusion id)
  armed := Caller.noConfusion
  refused := Caller.noConfusion
  waiting := Bool.noConfusion
  told _ := told
  past := sound.past
  left := sound.left
  queued := sound.queued

theorem Sound.armed_done (sound : x.Sound) (caller : x.caller = .decided true) :
    Sound { x with caller := .done } := by
  have owed := sound.owed
  have undisposed := (sound.armed caller).2
  simp only [Ticket.owed, caller] at owed
  exact sound.ended caller owed fun disposed =>
    absurd (disposed.symm.trans undisposed) Bool.noConfusion

theorem Sound.unarmed_done (sound : x.Sound) (caller : x.caller = .decided false) (how : Outcome) :
    (Ticket.report { x with caller := .done } how).Sound := by
  have owed := sound.owed
  simp only [Ticket.owed, caller, Caller.owes, reduceCtorEq, if_false] at owed
  refine sound.ended caller ?_ fun _ => by
    simp only [ne_eq, List.append_eq_nil_iff, List.cons_ne_self, and_false, not_false_eq_true]
  simp only [Ticket.owed, Caller.owes, List.length_append, List.length_singleton]
  omega

theorem admitted_sound (early : Bool) : (admitted early).Sound := by
  constructor <;> simp [admitted, Ticket.owed, Caller.owes, Flag.owes, Job.owes, Caller.young,
    Caller.holds, Caller.beforeExchange, Job.past]

theorem absent_sound : absent.Sound := by
  constructor <;> simp [absent, Ticket.owed, Caller.owes, Flag.owes, Job.owes, Caller.young,
    Caller.holds, Caller.beforeExchange, Job.past]

def armed (x : Ticket) : Bool := x.caller = .done ∧ x.sent = true ∧ x.disposed = false

structure Same (x x' : Ticket) : Prop where
  early : x'.early = x.early
  reports : x'.reports = x.reports
  armed : x'.armed = x.armed
  present : x'.caller = .absent ↔ x.caller = .absent

theorem Acts.same (sound : x.Sound) (acts : x.Acts x') : x.Same x' := by
  have unqueued := sound.unqueued
  constructor <;> cases acts <;>
    first
    | rfl
    | grind -ring -linarith [Ticket.armed, Caller.beforeExchange]

theorem Sound.of_absent (sound : x.Sound) (absent : x.caller = .absent) :
    x.flag = .unqueued ∧ x.job = .absent ∧ x.taking = 0 ∧ x.sent = false ∧ x.disposed = false :=
  sound.young (by rw [absent]; rfl)

theorem Acts.present (sound : x.Sound) (acts : x.Acts x') : x.caller ≠ .absent := by
  intro absent
  rcases sound.of_absent absent with ⟨_, job, _, sent, _⟩
  cases acts <;> simp_all

theorem Settles.present (sound : x.Sound) (settles : x.Settles how x') :
    x.caller ≠ .absent ∧ x'.caller ≠ .absent := by
  have present : x.caller ≠ .absent := by
    intro absent
    rcases sound.of_absent absent with ⟨_, job, taking, _, _⟩
    cases settles <;> simp_all
  refine ⟨present, ?_⟩
  cases settles with
  | guard caller => exact Caller.noConfusion
  | job job | drop job | takeBack was => exact present

theorem Acts.holds (acts : x.Acts x') : x'.caller.holds = x.caller.holds := by
  cases acts with
  | endGuard caller _ | intoJob caller | enqueueReturns caller _ | arm caller _ _
  | armReported caller _ _ | unarm caller _ | store caller => rw [caller]; rfl
  | send | report | late | look | dropQueued | dropUnqueued | lookAgain | leave | takeBack => rfl

theorem Settles.holds (settles : x.Settles how x') : x'.caller.holds = x.caller.holds := by
  cases settles with
  | guard caller => rw [caller]; rfl
  | job | drop | takeBack => rfl

theorem Settles.same (sound : x.Sound) (settles : x.Settles how x') :
    x'.early = x.early ∧ x'.reports = x.reports ∧ x'.armed = x.armed := by
  cases settles with
  | guard caller =>
    rcases sound.young (by rw [caller]; rfl) with ⟨_, _, _, unsent, _⟩
    exact ⟨rfl, rfl, by simp [armed, unsent]⟩
  | job | drop | takeBack => exact ⟨rfl, rfl, rfl⟩

end Ticket

end AgentDeck.Ingress
