import AgentDeck.Collector.Reaping

/-!
# The balance of one sample

What is credited, and what is taken back, against the totals of two samples: the increases and the
totals of the first come to the totals of the second and of the processes that vanished.
-/

namespace AgentDeck.Collector

open SortedMap Debts

def totalOf (processes : List ProcessSample) : ℕ :=
  (processes.map fun p => p.stat.totalTicks).sum

def goneOf (before now : List ProcessSample) : ℕ :=
  (before.map fun p => if Has now p.key then 0 else p.stat.totalTicks).sum

/-- A process's own and children counters do not decrease from one sample to the next. -/
def NeverDecrease (before now : List ProcessSample) : Prop :=
  ∀ p ∈ before, ∀ q ∈ now, p.key = q.key →
    p.stat.utime + p.stat.stime ≤ q.stat.utime + q.stat.stime ∧
      p.stat.childrenTicks ≤ q.stat.childrenTicks

/-- Every process that vanished had, through fewer than `limit` parents that vanished too, an
ancestor present in both samples whose children time grew by at least the last-seen totals of all
vanished processes leading to it. -/
def RepaidWithin (limit : ℕ) (before now : List ProcessSample) : Prop :=
  ∀ p ∈ before, ¬ Has now p.key →
    ∃ passed < limit, ∃ ancestor, LeadsTo before now ancestor passed p ∧
      ∀ q ∈ now, q.key = ancestor.key →
        ledTo before now ancestor + ancestor.stat.childrenTicks ≤ q.stat.childrenTicks

section Balance

variable {agg : Aggregator} {before now : List ProcessSample}

section

variable (follows : agg.Follows before)

include follows

theorem attributed_tracks (distinct : DistinctPids now) : Tracks (agg.attributed now).current now :=
  (agg.attributed_sample follows.known distinct).tracks.trans ((sorted_perm now).map _)

omit follows in
theorem Tracks.total_eq {tracked : SortedMap Key Tracked} {processes : List ProcessSample}
    (tracks : Tracks tracked processes) :
    SortedMap.total (fun _ t => t.total) tracked = totalOf processes :=
  tracks.sum_eq Kept.total

/-! ## What is owed -/

theorem entry_process {entry : Key × Tracked} (mem : entry ∈ agg.tracked.entries) :
    ∃ p ∈ before, p.key = entry.1 ∧ Tracked.kept (p.key, entry.2) = p.kept := by
  rcases follows.tracks.only ((get?_eq_some_iff agg.tracked entry.1 entry.2).mpr mem) with
    ⟨p, pMem, same, kept⟩
  refine ⟨p, pMem, same, ?_⟩
  rw [same]
  exact kept

variable (distinct : DistinctPids now)

include distinct

/-- The debts are at most what the gone processes had. -/
theorem sum_debts_le : ((agg.debts now).map Prod.snd).sum ≤ goneOf before now := by
  have goneSum := follows.tracks.sum_eq fun kept => if Has now kept.key then 0 else kept.total
  change _ = goneOf before now at goneSum
  rw [← goneSum, Aggregator.debts, Ancestry.debts, sum_map_filterMap]
  refine List.sum_le_sum fun entry mem => ?_
  rcases entry_process follows mem with ⟨p, _, same, kept⟩
  cases owes : (agg.ancestry now).debt entry with
  | none => exact Nat.zero_le _
  | some debt =>
    rcases (debt_some_iff follows distinct kept debt).mp (by rwa [same]) with ⟨gone, amount, _⟩
    change debt.2 ≤ if Has now entry.1 then 0 else entry.2.total
    rw [← same, if_neg gone, amount]
    exact (congrArg Kept.total kept).ge

/-- They are all of it where every gone process leads to one that stays. -/
theorem sum_debts_eq (repaid : RepaidWithin maxAncestry before now) :
    ((agg.debts now).map Prod.snd).sum = goneOf before now := by
  have goneSum := follows.tracks.sum_eq fun kept => if Has now kept.key then 0 else kept.total
  change _ = goneOf before now at goneSum
  rw [← goneSum, Aggregator.debts, Ancestry.debts, sum_map_filterMap]
  refine congrArg List.sum (List.map_congr_left fun entry mem => ?_)
  rcases entry_process follows mem with ⟨p, pMem, same, kept⟩
  change _ = if Has now entry.1 then 0 else entry.2.total
  rw [← same]
  by_cases gone : Has now p.key
  · rw [if_pos gone]
    cases owes : (agg.ancestry now).debt entry with
    | none => rfl
    | some debt =>
      exact absurd gone ((debt_some_iff follows distinct kept debt).mp (by rwa [same])).1
  · rw [if_neg gone]
    rcases repaid p pMem gone with ⟨passed, fewer, ancestor, leads, _⟩
    have owes := (debt_some_iff follows distinct kept (ancestor.key, p.stat.totalTicks)).mpr
      ⟨gone, rfl, passed, fewer, ancestor, leads, rfl⟩
    rw [same] at owes
    rw [owes]
    exact (congrArg Kept.total kept).symm

theorem owed_le_ledTo {ancestor : ProcessSample} (mem : ancestor ∈ before) :
    owed (agg.debts now) ancestor.key ≤ ledTo before now ancestor := by
  classical
  have ledSum := follows.tracks.sum_eq fun kept =>
    if ∃ p ∈ before, p.key = kept.key ∧ ¬ Has now p.key ∧
      ∃ passed, LeadsTo before now ancestor passed p then kept.total else 0
  have ledEq : (before.map fun p =>
      if ∃ q ∈ before, q.key = p.kept.key ∧ ¬ Has now q.key ∧
        ∃ passed, LeadsTo before now ancestor passed q then p.kept.total else 0).sum =
      ledTo before now ancestor := by
    refine congrArg List.sum (List.map_congr_left fun p pMem => if_congr ?_ rfl rfl)
    constructor
    · rintro ⟨q, qMem, same, led⟩
      rw [follows.distinct.eq_of_pid qMem pMem (congrArg Key.pid same)] at led
      exact led
    · intro led
      exact ⟨p, pMem, rfl, led⟩
  rw [← ledEq, ← ledSum, owed, Aggregator.debts, Ancestry.debts, sum_map_filterMap]
  refine List.sum_le_sum fun entry entryMem => ?_
  rcases entry_process follows entryMem with ⟨p, pMem, same, kept⟩
  cases owes : (agg.ancestry now).debt entry with
  | none => exact Nat.zero_le _
  | some debt =>
    rcases (debt_some_iff follows distinct kept debt).mp (by rwa [same]) with
      ⟨gone, amount, passed, _, found, leads, foundKey⟩
    simp only [Option.map_some]
    by_cases reached : debt.1 = ancestor.key
    · have same' := follows.distinct.eq_of_pid leads.mem mem
        (congrArg Key.pid (foundKey.trans reached))
      rw [same'] at leads
      rw [if_pos reached, if_pos ⟨p, pMem, same, gone, passed, leads⟩, amount]
      exact (congrArg Kept.total kept).ge
    · rw [if_neg reached]
      exact Nat.zero_le _

/-! ## What is gained -/

variable (never : NeverDecrease before now)

include never

theorem prev_le {key : Key} {prev t : Tracked} (was : agg.tracked.get? key = some prev)
    (is : (agg.attributed now).current.get? key = some t) :
    prev.children ≤ t.children ∧ prev.total + t.children ≤ t.total + prev.children := by
  rcases follows.tracks.only was with ⟨p, pMem, pKey, pKept⟩
  rcases (attributed_tracks follows distinct).only is with ⟨q, qMem, qKey, qKept⟩
  rcases never p pMem q qMem (pKey.trans qKey.symm) with ⟨own, children⟩
  have pTotal : prev.total = p.stat.totalTicks := congrArg Kept.total pKept
  have qTotal : t.total = q.stat.totalTicks := congrArg Kept.total qKept
  have pChildren : prev.children = p.stat.childrenTicks := congrArg Kept.children pKept
  have qChildren : t.children = q.stat.childrenTicks := congrArg Kept.children qKept
  simp only [ProcStat.totalTicks, ProcStat.childrenTicks]
    at pTotal qTotal pChildren qChildren children
  omega

theorem growth_le_gain {key : Key} {t : Tracked}
    (is : (agg.attributed now).current.get? key = some t) :
    growth agg.tracked key t ≤ gain agg.tracked key t := by
  unfold growth gain
  split
  · rename_i prev was
    have rises := prev_le follows distinct never was is
    omega
  · exact Nat.zero_le _

/-- What was gained and what there was make what there is and what is gone. -/
theorem gain_balance :
    SortedMap.total (gain agg.tracked) (agg.attributed now).current + totalOf before =
      totalOf now + goneOf before now := by
  have survived : ∑ key ∈ (agg.attributed now).current.keySet,
      weigh (fun _ t => t.total) agg.tracked key =
        SortedMap.total (fun key t =>
          if ((agg.attributed now).current.get? key).isSome then t.total else 0) agg.tracked :=
    sum_weigh_keySet _ _ _
  have risen : totalOf now = SortedMap.total (gain agg.tracked) (agg.attributed now).current +
      ∑ key ∈ (agg.attributed now).current.keySet,
        weigh (fun _ t => t.total) agg.tracked key := by
    rw [← (attributed_tracks follows distinct).total_eq, total_eq_sum, total_eq_sum,
      ← Finset.sum_add_distrib]
    refine Finset.sum_congr rfl fun key mem => ?_
    rcases Option.isSome_iff_exists.mp ((mem_keySet _ _).mp mem) with ⟨t, is⟩
    rw [weigh_of_get? is, weigh_of_get? is]
    unfold gain
    cases was : agg.tracked.get? key with
    | none => rw [weigh_of_none was, Nat.add_zero]
    | some prev =>
      have rises := prev_le follows distinct never was is
      simp only [weigh_of_get? was]
      omega
  have gone : SortedMap.total (fun key t =>
      if ((agg.attributed now).current.get? key).isSome then 0 else t.total) agg.tracked =
        goneOf before now := by
    have goneSum := follows.tracks.sum_eq fun kept => if Has now kept.key then 0 else kept.total
    refine Eq.trans (congrArg List.sum (List.map_congr_left fun entry _ => ?_)) goneSum
    exact if_congr (current_isSome follows distinct entry.1) rfl rfl
  have split : totalOf before = SortedMap.total (fun key t =>
      if ((agg.attributed now).current.get? key).isSome then t.total else 0) agg.tracked +
        SortedMap.total (fun key t =>
          if ((agg.attributed now).current.get? key).isSome then 0 else t.total) agg.tracked := by
    rw [← follows.tracks.total_eq, ← total_add]
    refine congrArg (fun weight => SortedMap.total weight agg.tracked) ?_
    funext key t
    split
    · rfl
    · exact (Nat.zero_add _).symm
  omega

end

/-! ## What is taken -/

def taken (agg : Aggregator) (now : List ProcessSample) : ℕ :=
  SortedMap.total (fun key t => min (growth agg.tracked key t) (owed (agg.debts now) key))
    (agg.attributed now).current

theorem taken_eq_sum (agg : Aggregator) (now : List ProcessSample) :
    taken agg now = ∑ key ∈ (agg.attributed now).current.keySet,
      min (weigh (growth agg.tracked) (agg.attributed now).current key)
        (owed (agg.debts now) key) := by
  rw [taken, total_eq_sum]
  refine Finset.sum_congr rfl fun key mem => ?_
  rcases Option.isSome_iff_exists.mp ((mem_keySet _ _).mp mem) with ⟨t, is⟩
  rw [weigh_of_get? is, weigh_of_get? is]

variable (follows : agg.Follows before)

include follows

variable (distinct : DistinctPids now)

include distinct

/-- No more is taken off than has gone. -/
theorem taken_le : taken agg now ≤ goneOf before now := by
  rw [taken_eq_sum]
  exact (sum_paid_le _ _ _).trans (sum_debts_le follows distinct)

theorem taken_eq (repaid : RepaidWithin maxAncestry before now) :
    taken agg now = goneOf before now := by
  rw [taken_eq_sum, ← sum_debts_eq follows distinct repaid]
  refine sum_paid_eq ?_ ?_
  · intro debt mem
    rcases mem_debts follows distinct mem with ⟨_, _, _, _, _, ancestor, leads, same⟩
    rw [mem_keySet, ← same]
    exact (current_isSome follows distinct ancestor.key).mpr leads.survived
  · intro debt mem
    rcases mem_debts follows distinct mem with ⟨p, pMem, gone, _, _, ancestor, leads, same⟩
    rcases repaid p pMem gone with ⟨_, _, paying, paysFor, enough⟩
    have sameAncestor : paying = ancestor := paysFor.unique follows.distinct leads
    rw [sameAncestor] at enough
    rcases leads.survived with ⟨q, qMem, qKey⟩
    have budget := enough q qMem qKey
    rcases (attributed_tracks follows distinct).found qMem with ⟨t, is, tKept⟩
    rcases follows.tracks.found leads.mem with ⟨prev, was, prevKept⟩
    rw [← same]
    rw [qKey] at is
    rw [weigh_of_get? is]
    refine (owed_le_ledTo follows distinct leads.mem).trans ?_
    have tChildren : t.children = q.stat.childrenTicks := congrArg Kept.children tKept
    have prevChildren : prev.children = ancestor.stat.childrenTicks :=
      congrArg Kept.children prevKept
    unfold growth
    simp only [was]
    omega

/-! ## What is credited -/

theorem creditOf_nonneg (never : NeverDecrease before now) {key : Key} {t : Tracked}
    (is : (agg.attributed now).current.get? key = some t) : 0 ≤ agg.creditOf now key t := by
  have small := growth_le_gain follows distinct never is
  unfold Aggregator.creditOf
  omega

theorem clamped_add_taken (never : NeverDecrease before now) :
    SortedMap.total (fun key t => (agg.creditOf now key t).toNat) (agg.attributed now).current +
      taken agg now = SortedMap.total (gain agg.tracked) (agg.attributed now).current := by
  rw [taken, ← total_add]
  refine total_weight_congr fun key t is => ?_
  have small := growth_le_gain follows distinct never is
  unfold Aggregator.creditOf
  omega

end Balance

end AgentDeck.Collector
