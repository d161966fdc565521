import AgentDeck.Collector.Orders

/-!
# Who reaped a vanished process

A process of one sample that is not in the next leads to an ancestor present in both, through
parents that vanished with it. The walk over the maps finds that ancestor where it passes few enough
parents.
-/

namespace AgentDeck.Collector

open SortedMap Debts

def Has (processes : List ProcessSample) (key : Key) : Prop := ∃ p ∈ processes, p.key = key

instance (processes : List ProcessSample) (key : Key) : Decidable (Has processes key) :=
  inferInstanceAs (Decidable (∃ p ∈ processes, p.key = key))

/-- `p` leads to `ancestor`, which is in both samples, through `passed` parents that are only in the
first. -/
inductive LeadsTo (before now : List ProcessSample) (ancestor : ProcessSample) :
    ℕ → ProcessSample → Prop where
  | parent {p : ProcessSample} (mem : ancestor ∈ before) (survived : Has now ancestor.key)
      (parent : ancestor.pid = p.stat.ppid) : LeadsTo before now ancestor 0 p
  | through {p between : ProcessSample} {passed : ℕ} (mem : between ∈ before)
      (vanished : ¬ Has now between.key) (parent : between.pid = p.stat.ppid)
      (leads : LeadsTo before now ancestor passed between) :
      LeadsTo before now ancestor (passed + 1) p

variable {before now : List ProcessSample} {ancestor p : ProcessSample}

theorem LeadsTo.mem {passed : ℕ} (leads : LeadsTo before now ancestor passed p) :
    ancestor ∈ before := by
  induction leads with
  | parent mem _ _ => exact mem
  | through _ _ _ _ ih => exact ih

theorem LeadsTo.survived {passed : ℕ} (leads : LeadsTo before now ancestor passed p) :
    Has now ancestor.key := by
  induction leads with
  | parent _ survived _ => exact survived
  | through _ _ _ _ ih => exact ih

theorem LeadsTo.unique {other : ProcessSample} {passed passedToo : ℕ}
    (leads : LeadsTo before now ancestor passed p) (distinct : DistinctPids before)
    (leadsToo : LeadsTo before now other passedToo p) : ancestor = other := by
  induction leads generalizing passedToo with
  | parent mem survived parent =>
    cases leadsToo with
    | parent otherMem _ otherParent =>
      exact distinct.eq_of_pid mem otherMem (parent.trans otherParent.symm)
    | through betweenMem vanished betweenParent _ =>
      have same := distinct.eq_of_pid mem betweenMem (parent.trans betweenParent.symm)
      exact absurd (same ▸ survived) vanished
  | through mem vanished parent _ ih =>
    cases leadsToo with
    | parent otherMem survived otherParent =>
      have same := distinct.eq_of_pid mem otherMem (parent.trans otherParent.symm)
      exact absurd survived (same ▸ vanished)
    | through betweenMem _ betweenParent leadsToo =>
      rw [← distinct.eq_of_pid mem betweenMem (parent.trans betweenParent.symm)] at leadsToo
      exact ih leadsToo

open Classical in
/-- The last-seen totals of all vanished processes leading to `ancestor`. -/
noncomputable def ledTo (before now : List ProcessSample) (ancestor : ProcessSample) : ℕ :=
  (before.map fun p =>
    if ¬ Has now p.key ∧ ∃ passed, LeadsTo before now ancestor passed p then p.stat.totalTicks
    else 0).sum

/-! ## The walk -/

section Walk

variable {agg : Aggregator} {before now : List ProcessSample}

variable (follows : agg.Follows before)

include follows

variable (distinct : DistinctPids now)

include distinct

theorem current_isSome (key : Key) :
    ((agg.attributed now).current.get? key).isSome ↔ Has now key := by
  rw [(agg.attributed_sample follows.known distinct).tracks.isSome_iff]
  simp only [Has, (sorted_perm now).mem_iff]

theorem survivor_iff (pid : ℕ) (key : Key) :
    (((agg.ancestry now).byPid.get? pid).filter fun pk =>
        ((agg.ancestry now).tracked.get? pk).isSome) = some key ↔
      ∃ p ∈ before, Has now p.key ∧ p.pid = pid ∧ p.key = key := by
  have byPid := (agg.attributed_sample follows.known distinct).byPid pid key
  rw [Option.filter_eq_some_iff]
  change ((agg.attributed now).byPid.get? pid = some key ∧ (agg.tracked.get? key).isSome) ↔ _
  rw [byPid, follows.tracks.isSome_iff]
  constructor
  · rintro ⟨⟨q, qMem, qPid, qKey⟩, p, pMem, pKey⟩
    refine ⟨p, pMem, ⟨q, (sorted_perm now).mem_iff.mp qMem, qKey.trans pKey.symm⟩, ?_, pKey⟩
    rw [← qPid]
    exact congrArg Key.pid (pKey.trans qKey.symm)
  · rintro ⟨p, pMem, ⟨q, qMem, qKey⟩, pPid, pKey⟩
    refine ⟨⟨q, (sorted_perm now).mem_iff.mpr qMem, ?_, qKey.trans pKey⟩, p, pMem, pKey⟩
    rw [← pPid]
    exact congrArg Key.pid qKey

omit distinct in
theorem previous_iff (pid : ℕ) (key : Key) :
    (agg.ancestry now).prevByPid.get? pid = some key ↔ ∃ p ∈ before, p.pid = pid ∧ p.key = key := by
  have looked := get?_foldl_insert (fun entry : Key × Tracked => entry.1.pid)
    (fun entry => entry.1) follows.apart pid key
  refine Iff.trans looked ?_
  constructor
  · rintro ⟨entry, mem, entryPid, entryKey⟩
    have here := (get?_eq_some_iff agg.tracked entry.1 entry.2).mpr mem
    rcases follows.tracks.only here with ⟨p, pMem, same, _⟩
    refine ⟨p, pMem, ?_, same.trans entryKey⟩
    rw [← entryPid]
    exact congrArg Key.pid same
  · rintro ⟨p, pMem, pPid, pKey⟩
    rcases follows.tracks.found pMem with ⟨t, here, _⟩
    exact ⟨(p.key, t), (get?_eq_some_iff agg.tracked p.key t).mp here, pPid, pKey⟩

/-- The walk finds the ancestor a process leads to through fewer parents than there are tries. -/
theorem reaper_iff (tries : ℕ) {node : Tracked} {p : ProcessSample} (ppid : node.ppid = p.stat.ppid)
    (key : Key) :
    (agg.ancestry now).reaper tries node = some key ↔
      ∃ passed < tries, ∃ ancestor, LeadsTo before now ancestor passed p ∧ ancestor.key = key := by
  induction tries generalizing node p with
  | zero => simp [Ancestry.reaper]
  | succ tries ih =>
    unfold Ancestry.reaper
    rw [ppid]
    split
    · rename_i pk found
      rcases (survivor_iff follows distinct _ pk).mp found with
        ⟨parent, mem, survived, parentPid, parentKey⟩
      constructor
      · intro same
        cases same
        exact ⟨0, Nat.succ_pos tries, parent, .parent mem survived parentPid, parentKey⟩
      · rintro ⟨passed, _, ancestor, leads, rfl⟩
        cases leads with
        | parent ancestorMem _ ancestorPid =>
          have same := follows.distinct.eq_of_pid mem ancestorMem
            (parentPid.trans ancestorPid.symm)
          rw [← parentKey, same]
        | through betweenMem vanished betweenPid _ =>
          have same := follows.distinct.eq_of_pid mem betweenMem
            (parentPid.trans betweenPid.symm)
          exact absurd (same ▸ survived) vanished
    · rename_i absent
      have noSurvivor : ∀ parent ∈ before, parent.pid = p.stat.ppid → ¬ Has now parent.key := by
        intro parent mem parentPid survived
        have found := (survivor_iff follows distinct p.stat.ppid parent.key).mpr
          ⟨parent, mem, survived, parentPid, rfl⟩
        rw [absent] at found
        cases found
      split
      · rename_i noParent
        constructor
        · nofun
        · rintro ⟨passed, _, ancestor, leads, rfl⟩
          cases leads with
          | parent mem survived ancestorPid =>
            exact absurd survived (noSurvivor ancestor mem ancestorPid)
          | @through _ between _ mem _ betweenPid _ =>
            have found : (agg.ancestry now).prevByPid.get? p.stat.ppid = some between.key :=
              (previous_iff follows p.stat.ppid between.key).mpr ⟨between, mem, betweenPid, rfl⟩
            rw [noParent] at found
            cases found
      · rename_i vk found
        rcases (previous_iff follows p.stat.ppid vk).mp found with
          ⟨parent, mem, parentPid, parentKey⟩
        have vanished := noSurvivor parent mem parentPid
        rw [if_neg]
        · rcases follows.tracks.found mem with ⟨t, here, kept⟩
          have tracked : (agg.ancestry now).tracked.get? vk = some t := parentKey ▸ here
          rw [tracked, Option.bind_some, ih (congrArg Kept.ppid kept)]
          constructor
          · rintro ⟨passed, fewer, ancestor, leads, same⟩
            exact ⟨passed + 1, Nat.succ_lt_succ fewer, ancestor,
              .through mem vanished parentPid leads, same⟩
          · rintro ⟨passed, fewer, ancestor, leads, same⟩
            cases leads with
            | parent ancestorMem survived ancestorPid =>
              exact absurd survived (noSurvivor ancestor ancestorMem ancestorPid)
            | through betweenMem _ betweenPid leads =>
              rw [follows.distinct.eq_of_pid betweenMem mem
                (betweenPid.trans parentPid.symm)] at leads
              exact ⟨_, Nat.lt_of_succ_lt_succ fewer, ancestor, leads, same⟩
        · intro here
          rw [← parentKey] at here
          exact vanished ((current_isSome follows distinct parent.key).mp here)

/-! ## What is owed -/

theorem debt_some_iff {p : ProcessSample} {t : Tracked} (kept : Tracked.kept (p.key, t) = p.kept)
    (debt : Key × ℕ) :
    (agg.ancestry now).debt (p.key, t) = some debt ↔
      ¬ Has now p.key ∧ debt.2 = p.stat.totalTicks ∧
        ∃ passed < maxAncestry, ∃ ancestor, LeadsTo before now ancestor passed p ∧
          ancestor.key = debt.1 := by
  unfold Ancestry.debt
  have present : ((agg.ancestry now).current.get? p.key).isSome ↔ Has now p.key :=
    current_isSome follows distinct p.key
  split
  · rename_i here
    constructor
    · nofun
    · rintro ⟨gone, _⟩
      exact absurd (present.mp here) gone
  · rename_i gone
    rw [present] at gone
    have total : t.total = p.stat.totalTicks := congrArg Kept.total kept
    rw [Option.map_eq_some_iff]
    constructor
    · rintro ⟨pk, found, rfl⟩
      exact ⟨gone, total,
        (reaper_iff follows distinct maxAncestry (congrArg Kept.ppid kept) pk).mp found⟩
    · rintro ⟨_, amount, walk⟩
      refine ⟨debt.1,
        (reaper_iff follows distinct maxAncestry (congrArg Kept.ppid kept) debt.1).mpr walk, ?_⟩
      exact Prod.ext rfl (total.trans amount.symm)

theorem mem_debts {debt : Key × ℕ} (mem : debt ∈ agg.debts now) :
    ∃ p ∈ before, ¬ Has now p.key ∧ ∃ passed < maxAncestry, ∃ ancestor,
      LeadsTo before now ancestor passed p ∧ ancestor.key = debt.1 := by
  rcases List.mem_filterMap.mp mem with ⟨entry, entryMem, owes⟩
  have here := (get?_eq_some_iff agg.tracked entry.1 entry.2).mpr entryMem
  rcases follows.tracks.only here with ⟨p, pMem, same, kept⟩
  have rewritten : Tracked.kept (p.key, entry.2) = p.kept := by
    rw [same]
    exact kept
  have owed : (agg.ancestry now).debt (p.key, entry.2) = some debt := by
    rw [same]
    exact owes
  rcases (debt_some_iff follows distinct rewritten debt).mp owed with ⟨gone, _, walk⟩
  exact ⟨p, pMem, gone, walk⟩

end Walk

end AgentDeck.Collector
