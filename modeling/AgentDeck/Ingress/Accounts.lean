import AgentDeck.Ingress.Steps
import Mathlib.Algebra.BigOperators.Group.Finset.Piecewise

/-!
# Accounts

What the ledger records of each ticket, and the accounts a run keeps: one physical outcome a ticket,
exact sets and marks whenever no call is under way, and a log that tells no outcome twice.
-/

namespace AgentDeck.Ingress

namespace LedgerInner

variable {inner : LedgerInner} {ticket other : ℕ} {how : Settlement} {x : Ticket}

def entriesOf (settled : List (ℕ × Settlement)) (ticket : ℕ) : List (ℕ × Settlement) :=
  settled.filter fun entry => entry.1 = ticket

def told (closed : Bool) (ticket : ℕ) (reports : List Outcome) : List (ℕ × Settlement) :=
  (if closed then [(ticket, .retired)] else []) ++ reports.map fun how => (ticket, how.val)

structure Shows (inner : LedgerInner) (ticket : ℕ) (x : Ticket) : Prop where
  outstanding : inner.outstanding.get? ticket =
    if inner.closed = false ∧ x.early = true ∧ x.reports = [] then some x.armed else none
  unreported : ticket ∈ inner.unreported ↔ x.armed = true ∧ x.reports = []
  settled : (entriesOf inner.settled ticket).Sublist (told inner.closed ticket x.reports)

theorem Shows.same {x' : Ticket} (showing : inner.Shows ticket x) (same : x.Same x') :
    inner.Shows ticket x' := by
  constructor
  · rw [same.early, same.reports, same.armed]
    exact showing.outstanding
  · rw [same.reports, same.armed]
    exact showing.unreported
  · rw [same.reports]
    exact showing.settled

theorem pushSettled_settled :
    (inner.pushSettled ticket how).settled.Sublist (inner.settled ++ [(ticket, how)]) :=
  List.drop_sublist _ _

theorem pushSettled_length : (inner.pushSettled ticket how).settled.length ≤ settledKept := by
  simp only [pushSettled, List.length_drop]
  omega

theorem finish_outstanding :
    (inner.finish ticket how).outstanding = inner.outstanding.erase ticket := by
  simp only [finish]
  split <;> rfl

theorem finish_same :
    (inner.finish ticket how).unreported = inner.unreported ∧
      (inner.finish ticket how).closed = inner.closed ∧
      (inner.finish ticket how).jobMark = inner.jobMark ∧
      (inner.finish ticket how).watermark = inner.watermark ∧
      (inner.finish ticket how).nextTicket = inner.nextTicket := by
  simp only [finish]
  split <;> exact ⟨rfl, rfl, rfl, rfl, rfl⟩

theorem finish_settled :
    (inner.finish ticket how).settled.Sublist (inner.settled ++ [(ticket, how)]) := by
  simp only [finish]
  split
  · exact pushSettled_settled
  · exact List.sublist_append_left _ _

theorem finish_length (kept : inner.settled.length ≤ settledKept) :
    (inner.finish ticket how).settled.length ≤ settledKept := by
  simp only [finish]
  split
  · exact pushSettled_length
  · exact kept

theorem entriesOf_mono {left right : List (ℕ × Settlement)} (sublist : left.Sublist right) :
    (entriesOf left ticket).Sublist (entriesOf right ticket) :=
  sublist.filter _

theorem entriesOf_append_self (settled : List (ℕ × Settlement)) :
    entriesOf (settled ++ [(ticket, how)]) ticket =
      entriesOf settled ticket ++ [(ticket, how)] := by
  simp [entriesOf]

theorem entriesOf_append_other (settled : List (ℕ × Settlement)) (differ : ticket ≠ other) :
    entriesOf (settled ++ [(ticket, how)]) other = entriesOf settled other := by
  simp [entriesOf, differ]

theorem finish_shows {outcome : Outcome}
    (settled : (entriesOf inner.settled ticket).Sublist (told inner.closed ticket x.reports))
    (unreported : ticket ∉ inner.unreported) :
    (inner.finish ticket outcome.val).Shows ticket (x.report outcome) := by
  rcases @finish_same inner ticket outcome.val with ⟨same, closed, _, _, _⟩
  have reported : (x.report outcome).reports ≠ [] := by simp [Ticket.report]
  constructor
  · rw [finish_outstanding, SortedMap.get?_erase, if_pos rfl, if_neg]
    intro stands
    exact reported stands.2.2
  · rw [same]
    exact ⟨fun mem => absurd mem unreported, fun is => absurd is.2 reported⟩
  · rw [closed]
    refine (entriesOf_mono finish_settled).trans ?_
    rw [entriesOf_append_self]
    simp only [told, Ticket.report, List.map_append, ← List.append_assoc]
    exact settled.append_right _

theorem Shows.finish_other (showing : inner.Shows other x) (differ : ticket ≠ other) :
    (inner.finish ticket how).Shows other x := by
  rcases @finish_same inner ticket how with ⟨same, closed, _, _, _⟩
  constructor
  · rw [finish_outstanding, SortedMap.get?_erase, if_neg (Ne.symm differ), closed]
    exact showing.outstanding
  · rw [same]
    exact showing.unreported
  · rw [closed]
    refine (entriesOf_mono finish_settled).trans ?_
    rw [entriesOf_append_other _ differ]
    exact showing.settled

theorem Shows.settle {outcome : Outcome} (showing : inner.Shows ticket x) :
    (inner.settle ticket outcome.val).Shows ticket (x.report outcome) :=
  finish_shows showing.settled (Finset.notMem_erase ticket inner.unreported)

theorem Shows.settle_other (showing : inner.Shows other x) (differ : ticket ≠ other) :
    (inner.settle ticket how).Shows other x := by
  apply Shows.finish_other _ differ
  refine ⟨showing.outstanding, ?_, showing.settled⟩
  rw [← showing.unreported]
  exact ⟨fun mem => Finset.mem_of_mem_erase mem, fun mem => Finset.mem_erase.mpr
    ⟨Ne.symm differ, mem⟩⟩

theorem Shows.arm (showing : inner.Shows ticket x) {x' : Ticket} (armed : x'.armed)
    (early : x'.early = x.early) (reports : x'.reports = x.reports) (unreported : x.reports = []) :
    (inner.arm ticket).Shows ticket x' := by
  constructor
  · have modified : (inner.arm ticket).outstanding.get? ticket =
        (inner.outstanding.get? ticket).map fun _ => true := by
      simp only [LedgerInner.arm, SortedMap.get?_modify, if_true]
    rw [modified, showing.outstanding, early, reports, armed,
      show (inner.arm ticket).closed = inner.closed from rfl]
    split <;> rfl
  · simp only [LedgerInner.arm, Finset.mem_insert, true_or, true_iff]
    exact ⟨armed, reports.trans unreported⟩
  · rw [reports]
    exact showing.settled

theorem Shows.arm_other (showing : inner.Shows other x) (differ : ticket ≠ other) :
    (inner.arm ticket).Shows other x := by
  constructor
  · simp only [LedgerInner.arm, SortedMap.get?_modify, if_neg (Ne.symm differ)]
    exact showing.outstanding
  · simp only [LedgerInner.arm, Finset.mem_insert, Ne.symm differ, false_or]
    exact showing.unreported
  · exact showing.settled

theorem Shows.admitTicket (showing : inner.Shows (inner.nextTicket + 1) Ticket.absent) :
    inner.admitTicket.Shows (inner.nextTicket + 1) (Ticket.admitted !inner.closed) := by
  have empty := showing.outstanding
  rw [if_neg fun is => Bool.noConfusion (show false = true from is.2.1)] at empty
  constructor
  · simp only [LedgerInner.admitTicket, Ticket.admitted]
    cases closed : inner.closed with
    | true => exact empty
    | false => simp [SortedMap.get?_insert, Ticket.armed]
  · have missing := showing.unreported
    exact ⟨fun mem => Bool.noConfusion (show false = true from (missing.mp mem).1),
      fun is => Bool.noConfusion (show false = true from is.1)⟩
  · exact showing.settled

theorem Shows.admitTicket_other (showing : inner.Shows other x)
    (differ : other ≠ inner.nextTicket + 1) : inner.admitTicket.Shows other x := by
  refine ⟨?_, showing.unreported, showing.settled⟩
  refine Eq.trans ?_ showing.outstanding
  simp only [LedgerInner.admitTicket]
  split
  · rfl
  · rw [SortedMap.get?_insert, if_neg differ]

theorem retire_all (tickets : List ℕ) (inner : LedgerInner) :
    (tickets.foldl (fun inner ticket => inner.pushSettled ticket .retired) inner).settled.Sublist
        (inner.settled ++ tickets.map fun ticket => (ticket, .retired)) ∧
      (inner.settled.length ≤ settledKept →
        (tickets.foldl (fun inner ticket => inner.pushSettled ticket .retired)
          inner).settled.length ≤
          settledKept) ∧
      ∃ settled, tickets.foldl (fun inner ticket => inner.pushSettled ticket .retired) inner =
        { inner with settled := settled } := by
  induction tickets generalizing inner with
  | nil => exact ⟨by simp, fun kept => kept, inner.settled, rfl⟩
  | cons ticket rest hypothesis =>
    rcases hypothesis (inner.pushSettled ticket .retired) with ⟨settled, kept, log, same⟩
    refine ⟨settled.trans ?_, fun _ => kept pushSettled_length, log, same⟩
    rw [List.map_cons, List.append_cons]
    exact pushSettled_settled.append_right _

theorem close_same : inner.close.jobMark = inner.jobMark ∧ inner.close.watermark = inner.watermark ∧
    inner.close.nextTicket = inner.nextTicket ∧ inner.close.unreported = inner.unreported ∧
    (inner.settled.length ≤ settledKept → inner.close.settled.length ≤ settledKept) := by
  simp only [close]
  split
  · exact ⟨rfl, rfl, rfl, rfl, fun kept => kept⟩
  · rcases retire_all inner.outstanding.keys
      { inner with closed := true, outstanding := SortedMap.empty } with ⟨_, kept, settled, same⟩
    rw [same] at kept ⊢
    exact ⟨rfl, rfl, rfl, rfl, kept⟩

theorem entriesOf_retired (tickets : List ℕ) (nodup : tickets.Nodup) :
    (entriesOf (tickets.map fun ticket => (ticket, Settlement.retired)) ticket).Sublist
      [(ticket, .retired)] := by
  have filtered : entriesOf (tickets.map fun ticket => (ticket, Settlement.retired)) ticket =
      List.replicate (tickets.count ticket) (ticket, .retired) := by
    induction tickets with
    | nil => rfl
    | cons head rest hypothesis =>
      have rest_eq := hypothesis nodup.of_cons
      simp only [entriesOf] at rest_eq ⊢
      by_cases same : head = ticket
      · subst same
        simp [rest_eq, List.replicate_succ]
      · simp [rest_eq, same]
  rw [filtered]
  exact List.replicate_sublist_replicate _ |>.mpr (List.nodup_iff_count_le_one.mp nodup ticket)

theorem Shows.close (showing : inner.Shows ticket x) : inner.close.Shows ticket x := by
  simp only [LedgerInner.close]
  split
  · exact showing
  · rename_i opened
    have opened := Bool.eq_false_iff.mpr opened
    rcases retire_all inner.outstanding.keys
      { inner with closed := true, outstanding := SortedMap.empty } with ⟨retired, _, settled, same⟩
    rw [same] at retired ⊢
    refine ⟨?_, showing.unreported, ?_⟩
    · rfl
    · refine (entriesOf_mono retired).trans ?_
      simp only [entriesOf, List.filter_append]
      have past := showing.settled
      rw [opened] at past
      have nodup : inner.outstanding.keys.Nodup :=
        inner.outstanding.keys_sorted.imp fun less => less.ne
      by_cases mem : ticket ∈ inner.outstanding.keys
      · rcases (SortedMap.mem_keys_iff _ _).mp mem with ⟨value, is⟩
        rw [showing.outstanding] at is
        -- An outstanding ticket has no outcome, so the log has nothing of it yet.
        have absent : x.reports = [] := by
          by_cases stands : inner.closed = false ∧ x.early = true ∧ x.reports = []
          · exact stands.2.2
          · rw [if_neg stands] at is
            cases is
        rw [absent] at past ⊢
        rw [show List.filter _ inner.settled = [] from List.sublist_nil.mp past]
        exact entriesOf_retired _ nodup
      · have gone :
          entriesOf (inner.outstanding.keys.map fun ticket => (ticket, Settlement.retired))
            ticket = [] := by
          simp only [entriesOf, List.filter_eq_nil_iff, List.mem_map, forall_exists_index, and_imp,
            decide_eq_true_eq]
          intro entry key keyMem is same
          rw [← is] at same
          exact mem (same ▸ keyMem)
        simp only [entriesOf] at gone
        rw [gone, List.append_nil]
        exact past.trans (List.sublist_append_right _ _)

end LedgerInner

structure Kept (s : System) : Prop where
  sound : ∀ t, (s.tickets t).Sound
  stranger : ∀ t, t = 0 ∨ s.inner.nextTicket < t → s.tickets t = Ticket.absent
  present : ∀ t, 1 ≤ t → t ≤ s.inner.nextTicket → (s.tickets t).caller ≠ .absent
  held : ∀ t, (s.tickets t).caller.holds = true → s.hold = some t
  showing : ∀ t, s.inner.Shows t (s.tickets t)
  watermark : s.inner.watermark = s.inner.nextTicket
  jobMark : s.inner.jobMark =
    ((Finset.range (s.inner.nextTicket + 1)).filter fun t => (s.tickets t).armed = true).card
  log : s.inner.settled.length ≤ settledKept

theorem kept_new : Kept System.new where
  sound _ := Ticket.absent_sound
  stranger _ _ := rfl
  present t first last := absurd (le_trans first last) (Nat.not_succ_le_zero 0)
  held _ holds := Bool.noConfusion holds
  showing t := by
    refine ⟨rfl, ?_, List.Sublist.refl _⟩
    exact ⟨fun mem => absurd mem (Finset.notMem_empty t),
      fun is => Bool.noConfusion (show false = true from is.1)⟩
  watermark := rfl
  jobMark := rfl
  log := Nat.zero_le _

namespace Kept

variable {s : System}

variable (kept : Kept s)

include kept

theorem free (unheld : s.hold = none) (t : ℕ) : (s.tickets t).caller.holds = false := by
  cases holds : (s.tickets t).caller.holds with
  | false => rfl
  | true => exact absurd ((kept.held t holds).symm.trans unheld) (Option.some_ne_none t)

theorem fresh : s.tickets (s.inner.nextTicket + 1) = Ticket.absent :=
  kept.stranger _ (Or.inr (Nat.lt_succ_self _))

theorem known {t : ℕ} (present : (s.tickets t).caller ≠ .absent) :
    1 ≤ t ∧ t ≤ s.inner.nextTicket := by
  by_contra out
  have stranger := kept.stranger t (by omega)
  rw [stranger] at present
  exact present rfl

theorem update {s' : System} {t : ℕ} {x : Ticket}
    (tickets : s'.tickets = Function.update s.tickets t x)
    (present : (s.tickets t).caller ≠ .absent) (still : x.caller ≠ .absent) (sound : x.Sound)
    (held : ∀ u, (s'.tickets u).caller.holds = true → s'.hold = some u) (self : s'.inner.Shows t x)
    (others : ∀ u, t ≠ u → s'.inner.Shows u (s.tickets u))
    (next : s'.inner.nextTicket = s.inner.nextTicket)
    (watermark : s'.inner.watermark = s.inner.watermark)
    (jobMark : s'.inner.jobMark + (s.tickets t).armed.toNat = s.inner.jobMark + x.armed.toNat)
    (log : s'.inner.settled.length ≤ settledKept) : Kept s' := by
  have other : ∀ u, u ≠ t → s'.tickets u = s.tickets u := by
    intro u differ
    rw [tickets, Function.update_of_ne differ]
  have this : s'.tickets t = x := by rw [tickets, Function.update_self]
  have known := kept.known present
  refine ⟨?_, ?_, ?_, held, ?_, ?_, ?_, log⟩
  · intro u
    by_cases same : u = t
    · rw [same, this]
      exact sound
    · rw [other u same]
      exact kept.sound u
  · intro u out
    rw [next] at out
    rw [other u (by omega)]
    exact kept.stranger u out
  · intro u first last
    rw [next] at last
    by_cases same : u = t
    · rw [same, this]
      exact still
    · rw [other u same]
      exact kept.present u first last
  · intro u
    by_cases same : u = t
    · rw [same, this]
      exact self
    · rw [other u same]
      exact others u (Ne.symm same)
  · rw [watermark, next]
    exact kept.watermark
  · have mem : t ∈ Finset.range (s.inner.nextTicket + 1) := Finset.mem_range.mpr (by omega)
    have rest : ∑ u ∈ (Finset.range (s.inner.nextTicket + 1)).erase t,
          (if (s'.tickets u).armed = true then 1 else 0) =
        ∑ u ∈ (Finset.range (s.inner.nextTicket + 1)).erase t,
          (if (s.tickets u).armed = true then 1 else 0) := by
      refine Finset.sum_congr rfl fun u memU => ?_
      rw [other u (Finset.ne_of_mem_erase memU)]
    have before := kept.jobMark
    rw [Finset.card_filter, ← Finset.add_sum_erase _ _ mem] at before
    rw [next, Finset.card_filter, ← Finset.add_sum_erase _ _ mem, this]
    cases old : (s.tickets t).armed <;> cases new : x.armed <;>
      simp only [old, new, Bool.toNat_true, Bool.toNat_false, if_true, Bool.false_eq_true,
        if_false] at jobMark before ⊢ <;> omega

theorem acts {t : ℕ} {x : Ticket} (acts : (s.tickets t).Acts x) : Kept (s.put t x) := by
  have sound := kept.sound t
  have same := acts.same sound
  have present := acts.present sound
  refine kept.update (t := t) (x := x) rfl present (fun absent => present (same.present.mp absent))
    (acts.sound sound) ?_ ((kept.showing t).same same) (fun u _ => kept.showing u) rfl
      rfl ?_ kept.log
  · intro u holds
    refine kept.held u ?_
    by_cases is : u = t
    · rw [is]
      rw [is, show (s.put t x).tickets t = x from Function.update_self _ _ _] at holds
      exact acts.holds.symm.trans holds
    · rw [show (s.put t x).tickets u = s.tickets u from Function.update_of_ne is _ _] at holds
      exact holds
  · rw [same.armed]
    rfl

theorem settle {t : ℕ} {how : Outcome} {x : Ticket} (free : s.hold = none)
    (settles : (s.tickets t).Settles how x) : Kept (s.settle t x how) := by
  have sound := kept.sound t
  have unheld := kept.free free
  rcases settles.present sound with ⟨present, still⟩
  rcases settles.same sound with ⟨early, reports, armed⟩
  rcases @LedgerInner.finish_same
    { s.inner with unreported := s.inner.unreported.erase t } t how.val
    with ⟨_, _, jobMark, watermark, next⟩
  have shown : (s.inner.settle t how.val).Shows t ((s.tickets t).report how) :=
    (kept.showing t).settle
  refine kept.update (t := t) (x := x.report how) rfl present still
    (settles.sound sound (unheld t)) ?_
    (shown.same ⟨early, congrArg (· ++ [how]) reports, armed, ?_⟩)
    (fun u differ => (kept.showing u).settle_other differ) next watermark ?_
    (LedgerInner.finish_length kept.log)
  · intro u holds
    by_cases is : u = t
    · rw [is, show (s.settle t x how).tickets t =
        x.report how from Function.update_self _ _ _] at holds
      cases (settles.holds.symm.trans holds).symm.trans (unheld t)
    · rw [show (s.settle t x how).tickets u =
        s.tickets u from Function.update_of_ne is _ _] at holds
      cases holds.symm.trans (unheld u)
  · exact ⟨fun absent => absurd absent still, fun absent => absurd absent present⟩
  · rw [show (x.report how).armed = x.armed from rfl, armed]
    exact congrArg (· + _) jobMark

theorem locked {t : ℕ} (caller : (s.tickets t).caller = .entering) (free : s.hold = none) :
    Kept { s.put t { s.tickets t with caller := .enqueueing, job := .held } with
      hold := some t } := by
  have sound := kept.sound t
  have unarmed : ∀ x : Ticket, x.caller ≠ .done → x.armed = false := by
    intro x other
    simp [Ticket.armed, other]
  have same : (s.tickets t).Same { s.tickets t with caller := .enqueueing, job := .held } := by
    refine ⟨rfl, rfl, ?_, ?_⟩
    · rw [unarmed _ Caller.noConfusion, unarmed _ (by rw [caller]; exact Caller.noConfusion)]
    · rw [caller]
      exact ⟨fun is => Caller.noConfusion is, fun is => Caller.noConfusion is⟩
  refine kept.update (t := t) rfl (by rw [caller]; exact Caller.noConfusion) Caller.noConfusion
    (sound.locked caller) ?_ ((kept.showing t).same same) (fun u _ => kept.showing u) rfl
      rfl ?_ kept.log
  · intro u holds
    by_cases is : u = t
    · rw [is]
    · simp only [System.put, Function.update_of_ne is] at holds
      cases holds.symm.trans (kept.free free u)
  · rw [same.armed]
    rfl

theorem booked {t prior : ℕ} {armedNow : Bool} (caller : (s.tickets t).caller = .decided armedNow) :
    Kept (s.book t prior armedNow) := by
  have sound := kept.sound t
  have hold := kept.held t (by rw [caller]; rfl)
  have present : (s.tickets t).caller ≠ .absent := by
    rw [caller]
    exact Caller.noConfusion
  have unarmed : (s.tickets t).armed = false := by simp [Ticket.armed, caller]
  have waiting := sound.waiting (by rw [caller]; rfl)
  have still : ∀ x : Ticket, x.caller = .done → ∀ u,
      (Function.update s.tickets t x u).caller.holds = true → (none : Option ℕ) = some u := by
    intro x done u holds
    by_cases is : u = t
    · rw [is, Function.update_self, done] at holds
      exact Bool.noConfusion holds
    · rw [Function.update_of_ne is] at holds
      have other := kept.held u holds
      rw [hold] at other
      exact absurd (Option.some.inj other).symm is
  cases armedNow with
  | true =>
    have queued := sound.armed caller
    have armed : Ticket.armed { s.tickets t with caller := .done } = true := by
      simp [Ticket.armed, queued]
    refine kept.update (t := t) rfl present Caller.noConfusion (sound.armed_done caller)
      (still { s.tickets t with caller := .done } rfl) ((kept.showing t).arm armed rfl rfl waiting)
      (fun u differ => (kept.showing u).arm_other differ) rfl rfl ?_ kept.log
    rw [unarmed, armed]
    rfl
  | false =>
    have disposed := sound.refused caller
    have armed : Ticket.armed { s.tickets t with caller := .done } = false := by
      simp [Ticket.armed, disposed]
    have unreported : t ∉ s.inner.unreported := by
      intro mem
      cases ((kept.showing t).unreported.mp mem).1.symm.trans unarmed
    rcases @LedgerInner.finish_same s.inner t (failedAfter prior).val
      with ⟨_, _, jobMark, watermark, next⟩
    refine kept.update (t := t) rfl present Caller.noConfusion (sound.unarmed_done caller _)
      (still (Ticket.report { s.tickets t with caller := .done } (failedAfter prior)) rfl)
      (LedgerInner.finish_shows (x := { s.tickets t with caller := .done }) (kept.showing t).settled
        unreported)
      (fun u differ => (kept.showing u).finish_other differ) next watermark ?_
      (LedgerInner.finish_length kept.log)
    rw [unarmed,
      show (Ticket.report { s.tickets t with caller := .done } (failedAfter prior)).armed =
      false from armed]
    exact congrArg (· + 0) jobMark

theorem closed : Kept { s with inner := s.inner.close } := by
  rcases @LedgerInner.close_same s.inner with ⟨jobMark, watermark, next, _, log⟩
  refine ⟨kept.sound, ?_, ?_, kept.held, fun t => (kept.showing t).close, ?_, ?_, log kept.log⟩
  · rw [next]
    exact kept.stranger
  · rw [next]
    exact kept.present
  · rw [watermark, next]
    exact kept.watermark
  · rw [jobMark, next]
    exact kept.jobMark

theorem admitted :
    Kept { s with
      inner := s.inner.admitTicket
      tickets :=
        Function.update s.tickets (s.inner.nextTicket + 1) (Ticket.admitted !s.inner.closed) } := by
  have self :=
    Function.update_self (s.inner.nextTicket + 1) (Ticket.admitted !s.inner.closed) s.tickets
  have other : ∀ u, u ≠ s.inner.nextTicket + 1 → Function.update s.tickets (s.inner.nextTicket + 1)
      (Ticket.admitted !s.inner.closed) u = s.tickets u := fun u differ =>
    Function.update_of_ne differ _ _
  have fresh := kept.fresh
  refine ⟨?_, ?_, ?_, ?_, ?_, ?_, ?_, kept.log⟩
  · intro u
    by_cases is : u = s.inner.nextTicket + 1
    · dsimp only
      rw [is, self]
      exact Ticket.admitted_sound _
    · dsimp only
      rw [other u is]
      exact kept.sound u
  · intro u out
    dsimp only [LedgerInner.admitTicket] at out ⊢
    rw [other u (by omega)]
    exact kept.stranger u (by omega)
  · intro u first last
    dsimp only [LedgerInner.admitTicket] at last ⊢
    by_cases is : u = s.inner.nextTicket + 1
    · rw [is, self]
      exact Caller.noConfusion
    · rw [other u is]
      exact kept.present u first (by omega)
  · intro u holds
    dsimp only at holds
    by_cases is : u = s.inner.nextTicket + 1
    · rw [is, self] at holds
      exact Bool.noConfusion holds
    · rw [other u is] at holds
      exact kept.held u holds
  · intro u
    dsimp only
    by_cases is : u = s.inner.nextTicket + 1
    · rw [is, self]
      have shown := kept.showing (s.inner.nextTicket + 1)
      rw [fresh] at shown
      exact shown.admitTicket
    · rw [other u is]
      exact (kept.showing u).admitTicket_other is
  · exact congrArg (· + 1) kept.watermark
  · dsimp only [LedgerInner.admitTicket]
    have unarmed : ¬ (Function.update s.tickets (s.inner.nextTicket + 1)
        (Ticket.admitted !s.inner.closed) (s.inner.nextTicket + 1)).armed = true := by
      rw [self]
      exact Bool.false_ne_true
    rw [kept.jobMark, Finset.range_add_one (n := s.inner.nextTicket + 1), Finset.filter_insert,
      if_neg unarmed]
    refine congrArg Finset.card (Finset.filter_congr fun u mem => ?_)
    rw [other u (Finset.mem_range.mp mem).ne]

theorem step {op : IngressOp} (uncrossed : Uncrossed s op) : Kept (s.step op) := by
  rcases s.step_cases uncrossed with same | moved
  · rw [same]
    exact kept
  · generalize s.step op = s' at moved
    cases moved with
    | admitted free => exact kept.admitted
    | closed free => exact kept.closed
    | acts acts => exact kept.acts acts
    | locked caller free => exact kept.locked caller free
    | settled free settles => exact kept.settle free settles
    | booked caller => exact kept.booked caller

end Kept

/-- The guard, the job and every take-back of the ticket are over. -/
def Ticket.Ended (x : Ticket) : Prop :=
  x.caller = .done ∧ (x.job = .absent ∨ x.job = .gone) ∧ x.taking = 0

/-- No call is under way. -/
structure System.Quiet (s : System) : Prop where
  callers : ∀ t, (s.tickets t).caller = .absent ∨ (s.tickets t).caller = .guard ∨
    (s.tickets t).caller = .done
  jobs : ∀ t, (s.tickets t).job = .absent ∨ (s.tickets t).job = .held ∨ (s.tickets t).job = .gone
  takeBacks : ∀ t, (s.tickets t).taking = 0

/-- Every operation is accounted for: one physical outcome a ticket, the sets and marks exact
between calls, and the log's last entries for a ticket, its retirement before its outcome. -/
structure Accounted (s : System) : Prop where
  once : ∀ t, (s.tickets t).reports.length ≤ 1
  ended : ∀ t, (s.tickets t).Ended → (s.tickets t).reports.length = 1
  outstanding : s.Quiet → ∀ t, t ∈ s.inner.outstanding.keys ↔
    s.inner.closed = false ∧ (s.tickets t).early = true ∧ (s.tickets t).reports = []
  unreported : s.Quiet → ∀ t, t ∈ s.inner.unreported ↔
    (s.tickets t).sent = true ∧ (s.tickets t).reports = []
  watermark : ∀ t, (s.tickets t).caller ≠ .absent ↔ 1 ≤ t ∧ t ≤ s.inner.watermark
  jobMark : s.Quiet → s.inner.jobMark = ((Finset.range (s.inner.watermark + 1)).filter fun t =>
    (s.tickets t).sent = true ∧ (s.tickets t).disposed = false).card
  settled : ∀ t, (LedgerInner.entriesOf s.inner.settled t).Sublist
    (LedgerInner.told s.inner.closed t (s.tickets t).reports)
  log : s.inner.settled.length ≤ settledKept

theorem Ticket.Sound.reports_length {x : Ticket} (sound : x.Sound) : x.reports.length ≤ 1 := by
  have owed := sound.owed
  simp only [Ticket.owed] at owed
  split at owed <;> omega

theorem Ticket.Sound.reported_once {x : Ticket} (sound : x.Sound) (ended : x.Ended) :
    x.reports.length = 1 := by
  rcases ended with ⟨caller, job, taking⟩
  have owed := sound.owed
  have flag : x.flag.owes = 0 := by
    cases flag : x.flag with
    | unqueued | reported | disposed => rfl
    | queued =>
      rcases job with absent | gone
      · exact absurd absent (sound.made (Or.inr (sound.queued flag)))
      · rcases sound.left gone with is | is
        · exact Flag.noConfusion (flag.symm.trans is)
        · exact Flag.noConfusion (flag.symm.trans is)
  have missing : x.job.owes = 0 := by
    rcases job with is | is <;> rw [is] <;> rfl
  simp only [Ticket.owed, caller, Caller.owes, reduceCtorEq, if_false] at owed
  omega

theorem Ticket.Sound.armed_iff {x : Ticket} (sound : x.Sound)
    (quiet : x.caller = .absent ∨ x.caller = .guard ∨ x.caller = .done) :
    x.armed = true ↔ x.sent = true ∧ x.disposed = false := by
  simp only [Ticket.armed, decide_eq_true_eq]
  refine ⟨fun is => is.2, fun is => ⟨?_, is⟩⟩
  have old := sound.old_of_sent is.1
  rcases quiet with absent | guard | done
  · rw [absent] at old
    exact Bool.noConfusion old
  · rw [guard] at old
    exact Bool.noConfusion old
  · exact done

theorem Kept.accounted {s : System} (kept : Kept s) : Accounted s where
  once t := (kept.sound t).reports_length
  ended t := (kept.sound t).reported_once
  outstanding _ t := by
    rw [SortedMap.mem_keys_iff, (kept.showing t).outstanding]
    constructor
    · intro present
      rcases present with ⟨value, is⟩
      by_contra out
      rw [if_neg out] at is
      cases is
    · intro stands
      exact ⟨_, if_pos stands⟩
  unreported quiet t := by
    have sound := kept.sound t
    rw [(kept.showing t).unreported, sound.armed_iff (quiet.callers t), and_assoc]
    refine and_congr_right fun sent => ⟨fun is => is.2, fun empty => ⟨?_, empty⟩⟩
    have old := sound.old_of_sent sent
    rw [← Bool.not_eq_true]
    intro disposed
    rcases quiet.callers t with absent | guard | done
    · rw [absent] at old
      exact Bool.noConfusion old
    · rw [guard] at old
      exact Bool.noConfusion old
    · exact sound.told done disposed empty
  watermark t := by
    rw [kept.watermark]
    exact ⟨kept.known, fun is => kept.present t is.1 is.2⟩
  jobMark quiet := by
    rw [kept.jobMark, kept.watermark]
    refine congrArg Finset.card (Finset.filter_congr fun t _ => ?_)
    exact (kept.sound t).armed_iff (quiet.callers t)
  settled t := (kept.showing t).settled
  log := kept.log

theorem marks_grow (s : System) {op : IngressOp} (uncrossed : Uncrossed s op) :
    s.inner.watermark ≤ (s.step op).inner.watermark ∧
      s.inner.jobMark ≤ (s.step op).inner.jobMark := by
  rcases s.step_cases uncrossed with same | moved
  · rw [same]
    exact ⟨le_refl _, le_refl _⟩
  · generalize s.step op = s' at moved
    cases moved with
    | admitted _ => exact ⟨Nat.le_succ _, le_refl _⟩
    | closed _ =>
      rcases @LedgerInner.close_same s.inner with ⟨jobMark, watermark, _⟩
      exact ⟨watermark.ge, jobMark.ge⟩
    | acts _ | locked _ _ => exact ⟨le_refl _, le_refl _⟩
    | @settled _ t how _ free settles =>
      rcases @LedgerInner.finish_same { s.inner with unreported := s.inner.unreported.erase t } t
        how.val with ⟨_, _, jobMark, watermark, _⟩
      exact ⟨watermark.ge, jobMark.ge⟩
    | @booked t prior armedNow caller =>
      cases armedNow with
      | true => exact ⟨le_refl _, Nat.le_succ _⟩
      | false =>
        rcases @LedgerInner.finish_same s.inner t (failedAfter prior).val
          with ⟨_, _, jobMark, watermark, _⟩
        exact ⟨watermark.ge, jobMark.ge⟩

theorem marks_never_decrease {s : System} {ops : List IngressOp}
    (uncrossed : Runs.Along System.step Uncrossed s ops) :
    s.inner.watermark ≤ (s.run ops).inner.watermark ∧ s.inner.jobMark ≤ (s.run ops).inner.jobMark :=
  Runs.run_keeps
    (fun s' : System =>
      s.inner.watermark ≤ s'.inner.watermark ∧ s.inner.jobMark ≤ s'.inner.jobMark)
    (fun s' _ uncrossed grown =>
      ⟨le_trans grown.1 (marks_grow s' uncrossed).1, le_trans grown.2 (marks_grow s' uncrossed).2⟩)
    uncrossed ⟨le_refl _, le_refl _⟩

/-- Every run in which no take-back finds a job already disposed of, and no `enqueue` gives up a job
that was taken back. -/
theorem tickets_settle_once (ops more : List IngressOp)
    (uncrossed : Runs.Along System.step Uncrossed System.new (ops ++ more)) :
    Accounted (System.new.run ops) ∧
      (System.new.run ops).inner.watermark ≤ (System.new.run (ops ++ more)).inner.watermark ∧
      (System.new.run ops).inner.jobMark ≤ (System.new.run (ops ++ more)).inner.jobMark := by
  have kept : Kept (System.new.run ops) :=
    Runs.run_keeps Kept (fun _ _ uncrossed kept => kept.step uncrossed) uncrossed.left kept_new
  have later : Runs.Along System.step Uncrossed (System.new.run ops) more := uncrossed.right
  have grown := marks_never_decrease later
  rw [show (System.new.run ops).run more = System.new.run (ops ++ more) from
    (List.foldl_append ..).symm] at grown
  exact ⟨kept.accounted, grown⟩

/-- A queued job is taken back before its hold arms it. -/
def takenBack : List IngressOp :=
  [.admitTicket, .intoJob 1, .lock 1, .send 1, .enqueueReturns 1, .takeBack 1, .exchange 1,
    .book 1 0, .settleTakeBack 1, .look 1, .move 1 0]

theorem tickets_settle_once_taken_back :
    Accounted (System.new.run takenBack) ∧ ((System.new.run takenBack).tickets 1).Ended ∧
      ((System.new.run takenBack).tickets 1).reports = [.cancelled] := by
  refine ⟨(tickets_settle_once takenBack [.close] ?_).1, ⟨?_, ?_, ?_⟩, ?_⟩
  · simp only [takenBack, Runs.Along, List.cons_append, List.nil_append, Uncrossed, true_and,
      and_true]
    decide
  · decide
  · decide
  · decide
  · decide

/-- The writer's queue drops the job before its hold arms it, and it is taken back between the
hold's compare-exchange and its store. -/
def disposedThenTaken : List IngressOp :=
  [.admitTicket, .intoJob 1, .lock 1, .send 1, .look 1, .move 1 0, .enqueueReturns 1, .exchange 1,
    .takeBack 1, .store 1, .book 1 0, .settleTakeBack 1]

/-- The same before the compare-exchange. -/
def disposedThenArmed : List IngressOp :=
  [.admitTicket, .intoJob 1, .lock 1, .send 1, .look 1, .move 1 0, .takeBack 1, .enqueueReturns 1,
    .exchange 1, .book 1 0, .settleTakeBack 1]

/-- A job is taken back inside `enqueue`, which then cannot queue it. -/
def takenThenRefused : List IngressOp :=
  [.admitTicket, .intoJob 1, .lock 1, .takeBack 1, .look 1, .move 1 0, .enqueueReturns 1,
    .exchange 1, .store 1, .book 1 0, .settleTakeBack 1]

/-- A job's take-back and its hold both report it, or the job mark counts a job disposed of. -/
theorem taken_back_disposed :
    ((System.new.run disposedThenTaken).tickets 1).reports = [.failed .brokenPipe, .cancelled] ∧
      ¬ Accounted (System.new.run disposedThenTaken) ∧
      ((System.new.run disposedThenArmed).tickets 1).disposed = true ∧
      (System.new.run disposedThenArmed).inner.jobMark = 1 ∧
      ((System.new.run takenThenRefused).tickets 1).reports = [.failed .brokenPipe, .cancelled] ∧
      ¬ Accounted (System.new.run takenThenRefused) := by
  refine ⟨by decide, ?_, by decide, by decide, by decide, ?_⟩
  · intro accounted
    exact absurd (accounted.once 1) (by decide)
  · intro accounted
    exact absurd (accounted.once 1) (by decide)

end AgentDeck.Ingress
