import AgentDeck.Probe.HazardWatch

/-!
# The hazard FIFO along a run

Every run in which candidates enter in the order of their numbers keeps `Watched`. From it follow
what the FIFO remembers of all that entered, and what its `clear` means.
-/

namespace AgentDeck.Probe

namespace HazardFifo

variable (f : HazardFifo)

include f

theorem number_cases :
    f.number.1 = none ∨
      f.number.1 = some (f.nativeSeq + 1) ∧ f.number.2.nativeSeq = f.nativeSeq + 1 := by
  simp only [number]
  split
  · exact .inl rfl
  · split
    · exact .inr ⟨rfl, rfl⟩
    · exact .inl rfl

theorem accept_none {now : Instant} {backlog : Bool} (absent : f.number.1 = none) :
    f.accept now backlog = (.none, f.number.2) := by
  rw [accept, ← Prod.eta f.number, absent]

theorem accept_some {now : Instant} {backlog : Bool} {seq : ℕ} (next : f.number.1 = some seq) :
    f.accept now backlog = (some seq, f.number.2.enter seq now backlog) := by
  rw [accept, ← Prod.eta f.number, next]

theorem enter_cases (seq : ℕ) (now : Instant) (backlog : Bool) :
    f.enter seq now backlog =
        { f.advance now with
          extra := (f.advance now).extra + 1
          newestExtra := seq
          newestExtraAccept := some now } ∨
      f.enter seq now backlog =
        { f.advance now with
          exhausted := true
          newestExtra := seq
          newestExtraAccept := some now } ∨
      (f.advance now).extra = 0 ∧ (f.advance now).entries.length ≠ hazardSlots ∧
        ∃ state, (state = if backlog then .latched else .quiet (f.advance now).run) ∧
          f.enter seq now backlog =
            { f.advance now with entries := (f.advance now).entries ++ [⟨seq, now, state⟩] } := by
  simp only [enter]
  split
  · split
    · exact .inl rfl
    · exact .inr (.inl rfl)
  · rename_i free
    rw [not_or] at free
    exact .inr (.inr ⟨Nat.eq_zero_of_not_pos free.1, free.2, _, rfl, rfl⟩)

theorem popIf_cases (receipt : HazardPop) (now : Instant) (kept : Entry → Bool)
    (counted : HazardFifo → Bool) :
    (∃ receipt', (receipt = receipt' ∨ receipt = .unspent) ∧
        f.popIf receipt now kept counted = (.nothing, receipt', f.advance now)) ∨
      (∃ entry rest, (f.advance now).entries = entry :: rest ∧ receipt = .unspent ∧
        kept entry = true ∧ f.popIf receipt now kept counted =
          (.entry entry.seq, .spent (.entry entry.seq), { f.advance now with entries := rest })) ∨
      (0 < (f.advance now).extra ∧ receipt = .unspent ∧ counted (f.advance now) = true ∧
        f.popIf receipt now kept counted = (.extra, .spent .extra, (f.advance now).popExtra)) := by
  simp only [popIf]
  by_cases unspent : receipt = .unspent
  · rw [if_neg (not_not_intro unspent)]
    split
    · rename_i entry rest entries
      split
      · rename_i takes
        exact .inr (.inl ⟨entry, rest, entries, unspent, takes, rfl⟩)
      · exact .inl ⟨_, .inr unspent, rfl⟩
    · split
      · rename_i takes
        exact .inr (.inr ⟨takes.1, unspent, takes.2, rfl⟩)
      · exact .inl ⟨_, .inr unspent, rfl⟩
  · rw [if_pos unspent]
    exact .inl ⟨receipt, .inl rfl, rfl⟩

end HazardFifo

namespace Watch

variable {w : Watch} {candidate : Candidate} {fifo : HazardFifo}

theorem file_kept (mem : candidate.seq ∈ fifo.entries.map Entry.seq) :
    w.file candidate fifo = { w with
      entered := w.entered ++ [candidate.seq]
      fifo := fifo
      kept := w.kept ++ [candidate] } :=
  if_pos mem

variable (fresh : candidate.seq ∉ fifo.entries.map Entry.seq)

include fresh

theorem file_counted (more : w.fifo.extra < fifo.extra) :
    w.file candidate fifo = { w with
      entered := w.entered ++ [candidate.seq]
      fifo := fifo
      counted := w.counted ++ [candidate] } := by
  simp only [file, if_neg fresh, if_pos more]

theorem file_uncounted (same : fifo.extra = w.fifo.extra) :
    w.file candidate fifo = { w with
      entered := w.entered ++ [candidate.seq]
      fifo := fifo
      uncounted := w.uncounted ++ [candidate] } := by
  simp only [file, if_neg fresh, same, lt_irrefl, ↓reduceIte]

end Watch

theorem lapsed_candidates (candidates : List Candidate) :
    (candidates.map fun candidate => (⟨candidate, [], .lapsed⟩ : Departure)).map
      Departure.candidate = candidates := by
  rw [List.map_map]
  exact List.map_id candidates

namespace Watched

variable {w : Watch} {now : Instant}

section

variable (watched : Watched w)

include watched

theorem reach_eq (order : ∀ clock ∈ w.clock, clock ≤ now) : w.fifo.reach now = now := by
  simp only [HazardFifo.reach, watched.latest]
  cases clock : w.clock with
  | none => rfl
  | some last => exact max_eq_right (order last clock)

theorem runAt_eq : w.fifo.runAt now = w.fifo.run + w.gap now := by
  simp only [HazardFifo.runAt, Watch.gap, watched.pending]
  cases pending : w.pending with
  | true => rfl
  | false =>
    rw [watched.mark pending]
    cases w.clock with
    | none => rfl
    | some clock => rfl

/-- Time passing changes only the clock and the kept candidates, and lets the lapsed ones leave. -/
theorem tick (order : ∀ clock ∈ w.clock, clock ≤ now) : Watched (w.tick now) := by
  have older : List.Forall₂ (Tracks (w.fifo.run + w.gap now)) w.fifo.entries
      (w.kept.map (Candidate.later (w.gap now))) := by
    rw [List.forall₂_map_right_iff]
    exact watched.tracks.imp fun _ _ tracks => tracks.later _
  have seqs : (w.kept.map (Candidate.later (w.gap now))).map Candidate.seq =
      w.kept.map Candidate.seq := by
    rw [List.map_map]
    rfl
  constructor
  case tracks =>
    simp only [Watch.tick, HazardFifo.advance, watched.reach_eq order, watched.runAt_eq]
    exact List.rel_filter (fun _ _ tracks => tracks.live_iff) older
  case few =>
    apply le_trans (List.length_filter_le _ _)
    rw [List.length_map]
    exact watched.few
  case pending => exact watched.pending
  case latest =>
    simp only [Watch.tick, HazardFifo.advance, watched.reach_eq order]
  case mark =>
    intro pending
    simp only [Watch.tick, HazardFifo.advance, watched.reach_eq order, watched.pending] at pending ⊢
    rw [pending]
    rfl
  case extra => exact watched.extra
  case newest => exact watched.newest
  case newestAccept => exact watched.newestAccept
  case past =>
    intro accepted mem
    rcases watched.past accepted mem with ⟨clock, clockMem, le⟩
    exact ⟨now, rfl, le_trans le (order clock clockMem)⟩
  case rising =>
    have sublist : (((w.tick now).kept ++ (w.tick now).counted).map Candidate.seq).Sublist
        ((w.kept ++ w.counted).map Candidate.seq) := by
      rw [List.map_append, List.map_append, ← seqs]
      exact (List.filter_sublist.map _).append_right _
    exact List.Pairwise.sublist sublist watched.rising
  case enteredRising => exact watched.enteredRising
  case numbered => exact watched.numbered
  case parts =>
    have split := (List.filter_append_perm Candidate.stays
      (w.kept.map (Candidate.later (w.gap now)))).map Candidate.seq
    rw [seqs] at split
    apply watched.parts.trans
    rw [List.perm_iff_count]
    intro seq
    have same := split.count_eq seq
    simp only [Watch.tick, List.map_append, List.count_append, lapsed_candidates] at same ⊢
    omega
  case uncounted => exact watched.uncounted
  case handed => exact watched.handed
  case allowed =>
    intro departure mem
    simp only [Watch.tick, List.mem_append] at mem
    rcases mem with old | lapsed
    · exact watched.allowed departure old
    · rcases List.mem_map.mp lapsed with ⟨candidate, mem, rfl⟩
      have gone : candidate.stays = false := by
        simpa only [Bool.not_eq_true'] using (List.mem_filter.mp mem).2
      simpa only [Departure.Allowed, Candidate.stays, Bool.or_eq_false_iff, decide_eq_false_iff_not,
        not_le] using gone
  case once =>
    simp only [Watch.tick, List.filterMap_append, List.filterMap_map, Function.comp_def,
      Reason.receipt?, List.filterMap_none, List.append_nil]
    exact watched.once
  case spent =>
    intro departure mem receipt receiptMem
    simp only [Watch.tick, List.mem_append] at mem
    rcases mem with old | lapsed
    · exact watched.spent departure old receipt receiptMem
    · rcases List.mem_map.mp lapsed with ⟨candidate, _, rfl⟩
      cases receiptMem

theorem number : Watched w.number := by
  simp only [Watch.number, HazardFifo.number]
  split
  · rw [Option.toList_none, List.append_nil]
    exact watched
  · split
    · refine { watched with numbered := ?_, handed := ?_ }
      · intro seq mem
        exact le_trans (watched.numbered seq mem) (Nat.le_succ _)
      · simp only [Option.toList_some, watched.handed]
        rw [List.range'_concat, Nat.one_mul, Nat.add_comm 1]
    · rw [Option.toList_none, List.append_nil]
      exact { watched with uncounted := fun _ => rfl }

theorem entries_seq : w.fifo.entries.map Entry.seq = w.kept.map Candidate.seq := by
  have same : List.Forall₂ (· = ·) (w.fifo.entries.map Entry.seq) (w.kept.map Candidate.seq) := by
    rw [List.forall₂_map_left_iff, List.forall₂_map_right_iff]
    exact watched.tracks.imp fun _ _ tracks => tracks.seq
  exact List.forall₂_eq_eq_eq ▸ same

theorem entered_of_held {candidate : Candidate} (mem : candidate ∈ w.kept ++ w.counted) :
    candidate.seq ∈ w.entered := by
  apply watched.parts.mem_iff.mpr
  rw [List.append_assoc, List.map_append]
  exact List.mem_append_left _ (List.mem_map_of_mem mem)

end

section Entering

variable (candidate : Candidate)

variable (watched : Watched w)

include watched

section

variable (newer : ∀ earlier ∈ w.entered, earlier < candidate.seq)

include newer

theorem enteredRising_snoc : (w.entered ++ [candidate.seq]).Pairwise (· < ·) := by
  rw [List.pairwise_append]
  refine ⟨watched.enteredRising, List.pairwise_singleton _ _, ?_⟩
  intro earlier mem seq seqMem
  rw [List.mem_singleton.mp seqMem]
  exact newer earlier mem

omit newer in
theorem numbered_snoc (numbered : candidate.seq ≤ w.fifo.nativeSeq) :
    ∀ seq ∈ w.entered ++ [candidate.seq], seq ≤ w.fifo.nativeSeq := by
  intro seq mem
  rcases List.mem_append.mp mem with old | new
  · exact watched.numbered seq old
  · rw [List.mem_singleton.mp new]
    exact numbered

theorem rising_snoc :
    ((w.kept ++ w.counted ++ [candidate]).map Candidate.seq).Pairwise (· < ·) := by
  rw [List.map_append, List.pairwise_append]
  refine ⟨watched.rising, List.pairwise_singleton _ _, ?_⟩
  intro earlier mem seq seqMem
  rw [List.map_singleton, List.mem_singleton] at seqMem
  rcases List.mem_map.mp mem with ⟨held, heldMem, rfl⟩
  rw [seqMem]
  exact newer _ (watched.entered_of_held heldMem)

/-- A candidate takes a slot of its own. -/
theorem keep {entry : Entry} (numbered : candidate.seq ≤ w.fifo.nativeSeq) (alone : w.counted = [])
    (room : w.kept.length < hazardSlots) (tracks : Tracks w.fifo.run entry candidate) :
    Watched { w with
      entered := w.entered ++ [candidate.seq]
      fifo := { w.fifo with entries := w.fifo.entries ++ [entry] }
      kept := w.kept ++ [candidate] } := by
  refine { watched with
    tracks := ?_, few := ?_, rising := ?_, parts := ?_,
    enteredRising := watched.enteredRising_snoc candidate newer,
    numbered := watched.numbered_snoc candidate numbered }
  · exact List.rel_append watched.tracks (.cons tracks .nil)
  · rw [List.length_append]
    exact room
  · have rising := watched.rising_snoc candidate newer
    simpa only [alone, List.append_nil] using rising
  · rw [List.perm_iff_count]
    intro seq
    have same := watched.parts.count_eq seq
    simp only [List.map_append, List.count_append, List.map_singleton] at same ⊢
    omega

end

variable (clock : w.clock = some candidate.accepted)

include clock

variable (newer : ∀ earlier ∈ w.entered, earlier < candidate.seq)

include newer

theorem renew :
    (∀ other ∈ w.counted, other.seq ≤ candidate.seq) ∧
      ∀ other ∈ w.counted, other.accepted ≤ candidate.accepted := by
  constructor
  · intro other mem
    exact le_of_lt (newer _ (watched.entered_of_held (List.mem_append_right _ mem)))
  · intro other mem
    rcases watched.newestAccept other mem with ⟨newest, newestMem, le⟩
    rcases watched.past newest newestMem with ⟨last, lastMem, lastLe⟩
    have same : candidate.accepted = last := Option.some.inj (clock.symm.trans lastMem)
    rw [same]
    exact le_trans le lastLe

/-- A candidate beyond the slots is counted. -/
theorem count (numbered : candidate.seq ≤ w.fifo.nativeSeq) :
    Watched { w with
      entered := w.entered ++ [candidate.seq]
      fifo := { w.fifo with
        extra := w.fifo.extra + 1
        newestExtra := candidate.seq
        newestExtraAccept := some candidate.accepted }
      counted := w.counted ++ [candidate] } := by
  rcases watched.renew candidate clock newer with ⟨newest, newestAccept⟩
  refine { watched with
    extra := ?_, newest := ?_, newestAccept := ?_, past := ?_, rising := ?_, parts := ?_,
    enteredRising := watched.enteredRising_snoc candidate newer,
    numbered := watched.numbered_snoc candidate numbered }
  · simp only [List.length_append, List.length_singleton, watched.extra]
  · rw [List.forall_mem_append]
    exact ⟨newest, List.forall_mem_singleton.mpr le_rfl⟩
  · rw [List.forall_mem_append]
    refine ⟨?_, List.forall_mem_singleton.mpr ⟨candidate.accepted, rfl, le_rfl⟩⟩
    intro other mem
    exact ⟨candidate.accepted, rfl, newestAccept other mem⟩
  · rintro accepted ⟨⟩
    exact ⟨candidate.accepted, clock, le_rfl⟩
  · rw [← List.append_assoc]
    exact watched.rising_snoc candidate newer
  · rw [List.perm_iff_count]
    intro seq
    have same := watched.parts.count_eq seq
    simp only [List.map_append, List.count_append, List.map_singleton] at same ⊢
    omega

/-- A candidate that cannot even be counted exhausts the ledger. -/
theorem overflow (numbered : candidate.seq ≤ w.fifo.nativeSeq) :
    Watched { w with
      entered := w.entered ++ [candidate.seq]
      fifo := { w.fifo with
        exhausted := true
        newestExtra := candidate.seq
        newestExtraAccept := some candidate.accepted }
      uncounted := w.uncounted ++ [candidate] } := by
  rcases watched.renew candidate clock newer with ⟨newest, newestAccept⟩
  refine { watched with
    newest := newest, newestAccept := ?_, past := ?_, parts := ?_, uncounted := fun _ => rfl,
    enteredRising := watched.enteredRising_snoc candidate newer,
    numbered := watched.numbered_snoc candidate numbered }
  · intro other mem
    exact ⟨candidate.accepted, rfl, newestAccept other mem⟩
  · rintro accepted ⟨⟩
    exact ⟨candidate.accepted, clock, le_rfl⟩
  · rw [List.perm_iff_count]
    intro seq
    have same := watched.parts.count_eq seq
    simp only [List.map_append, List.count_append, List.map_singleton] at same ⊢
    omega

end Entering

section

variable (watched : Watched w)

include watched

theorem not_mem_entries {seq : ℕ} (newer : ∀ earlier ∈ w.entered, earlier < seq) :
    seq ∉ w.fifo.entries.map Entry.seq := by
  rw [watched.entries_seq]
  intro mem
  rcases List.mem_map.mp mem with ⟨candidate, candidateMem, rfl⟩
  exact absurd (newer _ (watched.entered_of_held (List.mem_append_left _ candidateMem)))
    (lt_irrefl _)

theorem length_entries : w.fifo.entries.length = w.kept.length :=
  watched.tracks.length_eq

theorem enter {seq : ℕ} {backlog : Bool} (order : ∀ clock ∈ w.clock, clock ≤ now)
    (newer : ∀ earlier ∈ w.entered, earlier < seq) (numbered : seq ≤ w.fifo.nativeSeq) :
    Watched (w.enter seq now backlog) := by
  have ticked := watched.tick order
  have fresh : seq ∉ (w.fifo.advance now).entries.map Entry.seq := ticked.not_mem_entries newer
  rw [Watch.enter]
  rcases w.fifo.enter_cases seq now backlog with
    counted | overflowed | ⟨alone, room, state, is, kept⟩
  · rw [counted, Watch.file_counted]
    · exact ticked.count ⟨seq, now, backlog, 0⟩ rfl newer numbered
    · exact fresh
    · exact Nat.lt_succ_self _
  · rw [overflowed, Watch.file_uncounted]
    · exact ticked.overflow ⟨seq, now, backlog, 0⟩ rfl newer numbered
    · exact fresh
    · rfl
  · have tracks : Tracks (w.tick now).fifo.run ⟨seq, now, state⟩ ⟨seq, now, backlog, 0⟩ := by
      refine ⟨rfl, rfl, ?_, ?_⟩
      · intro latched
        cases backlog with
        | true => rfl
        | false => exact EntryState.noConfusion (is.symm.trans latched)
      · intro runAtEntry quiet
        cases backlog with
        | true => exact EntryState.noConfusion (is.symm.trans quiet)
        | false => exact ⟨rfl, EntryState.quiet.inj (quiet.symm.trans is)⟩
    have empty : (w.tick now).counted = [] := by
      apply List.length_eq_zero_iff.mp
      rw [← ticked.extra]
      exact alone
    have few : (w.tick now).kept.length < hazardSlots := by
      apply lt_of_le_of_ne ticked.few
      rw [← ticked.length_entries]
      exact room
    rw [kept, Watch.file_kept]
    · exact ticked.keep ⟨seq, now, backlog, 0⟩ newer numbered empty few tracks
    · rw [List.map_append]
      exact List.mem_append_right _ (List.mem_singleton_self _)

theorem receipt_fresh {receipt : ℕ} (unspent : w.receipts receipt = .unspent) :
    receipt ∉ w.left.filterMap fun departure => departure.reason.receipt? := by
  intro mem
  rcases List.mem_filterMap.mp mem with ⟨departure, departureMem, is⟩
  rcases watched.spent departure departureMem receipt is with entry | extra
  · exact HazardPop.noConfusion (unspent.symm.trans entry)
  · exact HazardPop.noConfusion (unspent.symm.trans extra)

end

section Popping

variable {receipt : ℕ} {departure : Departure}

/-- A receipt that is unspent has taken no one out yet. -/
theorem once_snoc (watched : Watched w) (unspent : w.receipts receipt = .unspent)
    (named : departure.reason.receipt? = some receipt) :
    ((w.left ++ [departure]).filterMap fun departure => departure.reason.receipt?).Nodup := by
  simp only [List.filterMap_append, List.filterMap_cons, named, List.filterMap_nil]
  rw [List.nodup_append]
  refine ⟨watched.once, List.pairwise_singleton _ _, ?_⟩
  intro earlier mem last lastMem same
  rw [List.mem_singleton] at lastMem
  subst lastMem same
  exact watched.receipt_fresh unspent mem

theorem spent_snoc (watched : Watched w) (unspent : w.receipts receipt = .unspent)
    (named : departure.reason.receipt? = some receipt) {pop : Pop}
    (took : pop = .entry departure.candidate.seq ∨ pop = .extra) :
    ∀ gone ∈ w.left ++ [departure], ∀ name ∈ gone.reason.receipt?,
      Function.update w.receipts receipt (.spent pop) name = .spent (.entry gone.candidate.seq) ∨
        Function.update w.receipts receipt (.spent pop) name = .spent .extra := by
  intro gone mem name is
  rcases List.mem_append.mp mem with old | new
  · have other : name ≠ receipt := by
      intro same
      subst same
      exact watched.receipt_fresh unspent (List.mem_filterMap.mpr ⟨gone, old, is⟩)
    rw [Function.update_of_ne other]
    exact watched.spent gone old name is
  · rw [List.mem_singleton] at new
    subst new
    have same : receipt = name := Option.some.inj (named.symm.trans is)
    subst same
    rw [Function.update_self]
    rcases took with rfl | rfl
    · exact .inl rfl
    · exact .inr rfl

theorem allowed_snoc (watched : Watched w) (allowed : departure.Allowed) :
    ∀ gone ∈ w.left ++ [departure], gone.Allowed := by
  rw [List.forall_mem_append]
  exact ⟨watched.allowed, List.forall_mem_singleton.mpr allowed⟩

variable {reason : Reason}

theorem popped_entry (watched : Watched w) {entry : Entry} {rest : List Entry}
    (entries : w.fifo.entries = entry :: rest)
    (unspent : w.receipts receipt = .unspent) (named : reason.receipt? = some receipt)
    (allowed : ∀ candidate, Tracks w.fifo.run entry candidate →
      (⟨candidate, [], reason⟩ : Departure).Allowed) :
    Watched (w.popped receipt reason
      (.entry entry.seq, .spent (.entry entry.seq), { w.fifo with entries := rest })) := by
  have tracks := watched.tracks
  rw [entries] at tracks
  rcases List.forall₂_cons_left_iff.mp tracks with ⟨candidate, others, first, tail, kept⟩
  have few := watched.few
  have rising := watched.rising
  have parts := watched.parts
  rw [kept] at few rising parts
  simp only [Watch.popped, Watch.take, kept]
  refine { watched with
    tracks := tail, few := ?_, rising := ?_, parts := ?_,
    allowed := watched.allowed_snoc (allowed candidate first),
    once := watched.once_snoc unspent named,
    spent := watched.spent_snoc unspent named (.inl (by rw [first.seq])) }
  · exact le_trans (Nat.le_succ _) few
  · exact (List.pairwise_cons.mp rising).2
  · rw [List.perm_iff_count] at parts ⊢
    intro seq
    have same := parts seq
    simp only [List.map_append, List.map_cons, List.map_nil, List.count_append, List.count_cons,
      List.count_nil] at same ⊢
    omega

theorem popped_extra (watched : Watched w) (more : 0 < w.fifo.extra)
    (unspent : w.receipts receipt = .unspent) (named : reason.receipt? = some receipt)
    (allowed : ∀ candidate ∈ w.counted, (⟨candidate, w.counted, reason⟩ : Departure).Allowed) :
    Watched (w.popped receipt reason (.extra, .spent .extra, w.fifo.popExtra)) := by
  have extra := watched.extra
  cases counted : w.counted with
  | nil =>
    rw [extra, counted] at more
    cases more
  | cons candidate rest =>
    have rising := watched.rising
    have parts := watched.parts
    have newest := watched.newest
    have newestAccept := watched.newestAccept
    rw [counted] at extra rising parts newest newestAccept allowed
    have departure := allowed candidate List.mem_cons_self
    have left : ((w.kept ++ rest).map Candidate.seq).Pairwise (· < ·) := by
      apply List.Pairwise.sublist _ rising
      exact ((List.sublist_cons_self candidate rest).append_left w.kept).map _
    have same : w.entered.Perm ((w.kept ++ rest ++ w.uncounted ++
        (w.left ++ [(⟨candidate, candidate :: rest, reason⟩ : Departure)]).map
          Departure.candidate).map Candidate.seq) := by
      rw [List.perm_iff_count] at parts ⊢
      intro seq
      have same := parts seq
      simp only [List.map_append, List.map_cons, List.map_nil, List.count_append,
        List.count_cons, List.count_nil] at same ⊢
      omega
    simp only [Watch.popped, Watch.take, counted, HazardFifo.popExtra]
    split
    · rename_i last
      have absent : rest = [] := by
        apply List.length_eq_zero_iff.mp
        rw [extra] at last
        exact last
      subst absent
      exact { watched with
        extra := last
        newest := fun _ mem => absurd mem List.not_mem_nil
        newestAccept := fun _ mem => absurd mem List.not_mem_nil
        past := fun _ mem => absurd mem (Option.not_mem_none _)
        rising := left
        parts := same
        allowed := watched.allowed_snoc departure
        once := watched.once_snoc unspent named
        spent := watched.spent_snoc unspent named (.inr rfl) }
    · exact { watched with
        extra := by rw [extra]; rfl
        newest := fun other mem => newest other (List.mem_cons_of_mem _ mem)
        newestAccept := fun other mem => newestAccept other (List.mem_cons_of_mem _ mem)
        rising := left
        parts := same
        allowed := watched.allowed_snoc departure
        once := watched.once_snoc unspent named
        spent := watched.spent_snoc unspent named (.inr rfl) }

theorem popped_nothing (watched : Watched w) {spent : HazardPop}
    (kept : w.receipts receipt = spent ∨ w.receipts receipt = .unspent) :
    Watched (w.popped receipt reason (.nothing, spent, w.fifo)) := by
  refine { watched with spent := ?_ }
  intro departure mem name is
  have same : Function.update w.receipts receipt spent name = w.receipts name := by
    by_cases own : name = receipt
    · subst own
      rw [Function.update_self]
      rcases kept with same | unspent
      · exact same.symm
      · exact absurd (List.mem_filterMap.mpr ⟨departure, mem, is⟩) (watched.receipt_fresh unspent)
    · exact Function.update_of_ne own _ _
  simp only [Watch.popped, same]
  exact watched.spent departure mem name is

end Popping

variable (watched : Watched w)

include watched

section

variable (order : ∀ clock ∈ w.clock, clock ≤ now)

include order

theorem popped {receipt : ℕ} {reason : Reason} {kept : Entry → Bool} {counted : HazardFifo → Bool}
    (named : reason.receipt? = some receipt)
    (keptAllowed : ∀ entry candidate run, kept entry = true → Tracks run entry candidate →
      (⟨candidate, [], reason⟩ : Departure).Allowed)
    (countedAllowed : counted (w.tick now).fifo = true → ∀ candidate ∈ (w.tick now).counted,
      (⟨candidate, (w.tick now).counted, reason⟩ : Departure).Allowed) :
    Watched ((w.tick now).popped receipt reason
      (w.fifo.popIf (w.receipts receipt) now kept counted)) := by
  have ticked := watched.tick order
  rcases w.fifo.popIf_cases (w.receipts receipt) now kept counted with
    ⟨spent, same, is⟩ | ⟨entry, rest, entries, unspent, takes, is⟩ | ⟨more, unspent, takes, is⟩
  · rw [is]
    exact ticked.popped_nothing same
  · rw [is]
    exact ticked.popped_entry entries unspent named fun candidate tracks =>
      keptAllowed entry candidate _ takes tracks
  · rw [is]
    exact ticked.popped_extra more unspent named (countedAllowed takes)

theorem popReported (receipt nativeSeen : ℕ) :
    Watched (w.step (.popReported receipt nativeSeen now)) := by
  apply watched.popped order rfl
  · intro entry candidate run takes tracks
    have le : entry.seq ≤ nativeSeen := of_decide_eq_true takes
    rw [tracks.seq] at le
    exact le
  · intro takes candidate mem
    exact le_trans ((watched.tick order).newest candidate mem) (of_decide_eq_true takes)

theorem popAtDrain (receipt : ℕ) (birthFloor : Instant) :
    Watched (w.step (.popAtDrain receipt birthFloor now)) := by
  apply watched.popped order rfl
  · intro entry candidate run takes tracks
    have before : entry.accepted < birthFloor := of_decide_eq_true takes
    rw [tracks.accepted] at before
    exact ⟨before, fun _ mem => absurd mem List.not_mem_nil⟩
  · intro takes candidate mem
    have before : ∀ other ∈ (w.tick now).counted, other.accepted < birthFloor := by
      intro other otherMem
      rcases (watched.tick order).newestAccept other otherMem with ⟨newest, is, le⟩
      rw [is] at takes
      exact lt_of_le_of_lt le (of_decide_eq_true takes)
    exact ⟨before candidate mem, before⟩

theorem latch : Watched (w.step (.latch now)) := by
  have ticked := watched.tick order
  have seqs : ((w.tick now).kept.map fun candidate => { candidate with latched := true }).map
      Candidate.seq = (w.tick now).kept.map Candidate.seq := by
    rw [List.map_map]
    rfl
  refine { ticked with tracks := ?_, few := ?_, rising := ?_, parts := ?_ }
  · simp only [Watch.step, HazardFifo.latch]
    rw [List.forall₂_map_left_iff, List.forall₂_map_right_iff]
    apply ticked.tracks.imp
    intro entry candidate tracks
    exact ⟨tracks.seq, tracks.accepted, fun _ => rfl, fun _ quiet => EntryState.noConfusion quiet⟩
  · simp only [Watch.step, List.length_map]
    exact ticked.few
  · simp only [Watch.step, List.map_append, seqs]
    simpa only [List.map_append] using ticked.rising
  · simp only [Watch.step, List.map_append, seqs]
    simpa only [List.map_append] using ticked.parts

theorem recordsPending (pending : Bool) : Watched (w.step (.recordsPending now pending)) := by
  have ticked := watched.tick order
  have same : (w.fifo.advance now).paused = w.pending := ticked.pending
  simp only [Watch.step, HazardFifo.recordsPending, same, watched.reach_eq order]
  split
  · refine { ticked with pending := rfl, mark := ?_ }
    intro running
    subst running
    rfl
  · rename_i unchanged
    rw [not_not] at unchanged
    subst unchanged
    exact ticked

omit order in
theorem mem_handed {seq : ℕ} : seq ∈ w.handed ↔
    1 ≤ seq ∧ seq ≤ w.fifo.nativeSeq := by
  rw [watched.handed, List.mem_range'_1]
  omega

theorem accept (backlog : Bool) : Watched (w.step (.accept now backlog)) := by
  have numbered := watched.number
  rcases w.fifo.number_cases with none | ⟨next, native⟩
  · have same : w.number.fifo = w.fifo.number.2 := rfl
    rw [Watch.step, w.fifo.accept_none none]
    exact numbered
  · rw [Watch.step, w.fifo.accept_some next]
    refine numbered.enter order ?_ ?_
    · intro earlier mem
      exact Nat.lt_succ_of_le (watched.numbered earlier mem)
    · exact le_of_eq native.symm

end

/-- Every operation keeps the invariant: one case per operation. -/
theorem step {op : HazardOp} (inOrder : op.inOrder w) : Watched (w.step op) := by
  simp only [HazardOp.inOrder, Bool.and_eq_true] at inOrder
  rcases inOrder with ⟨time, entering⟩
  have order : ∀ now ∈ op.now?, ∀ clock ∈ w.clock, clock ≤ now := by
    intro now nowMem clock clockMem
    rw [nowMem, clockMem] at time
    exact of_decide_eq_true time
  cases op with
  | number => exact watched.number
  | enter seq now backlog =>
    simp only [Bool.and_eq_true, decide_eq_true_eq, List.all_eq_true] at entering
    exact watched.enter (order now rfl) entering.2 (watched.mem_handed.mp entering.1).2
  | accept now backlog => exact watched.accept (order now rfl) backlog
  | latch now => exact watched.latch (order now rfl)
  | recordsPending now pending => exact watched.recordsPending (order now rfl) pending
  | popReported receipt nativeSeen now =>
    exact watched.popReported (order now rfl) receipt nativeSeen
  | popAtDrain receipt birthFloor now =>
    exact watched.popAtDrain (order now rfl) receipt birthFloor
  | clear now => exact watched.tick (order now rfl)
  | entries now => exact watched.tick (order now rfl)

theorem run {ops : List HazardOp}
    (inOrder : Runs.Along Watch.step (fun w op => op.inOrder w = true) w ops) :
    Watched (ops.foldl Watch.step w) :=
  Runs.run_keeps Watched (fun _ _ inOrder watched => watched.step inOrder) inOrder watched

end Watched

namespace HazardFifo

variable {f : HazardFifo}

variable (exhausted : f.exhausted = true)

include exhausted

theorem number_exhausted : f.number.2.exhausted := by
  simp only [number, exhausted, ↓reduceIte]

theorem enter_exhausted {seq : ℕ} {now : Instant} {backlog : Bool} :
    (f.enter seq now backlog).exhausted := by
  rcases f.enter_cases seq now backlog with is | is | ⟨_, _, _, _, is⟩
  · rw [is]
    exact exhausted
  · rw [is]
  · rw [is]
    exact exhausted

theorem recordsPending_exhausted {now : Instant} {pending : Bool} :
    (f.recordsPending now pending).exhausted := by
  simp only [recordsPending]
  split
  · exact exhausted
  · exact exhausted

theorem popIf_exhausted {receipt : HazardPop} {now : Instant} {kept : Entry → Bool}
    {counted : HazardFifo → Bool} : (f.popIf receipt now kept counted).2.2.exhausted := by
  rcases f.popIf_cases receipt now kept counted with
    ⟨_, _, is⟩ | ⟨_, _, _, _, _, is⟩ | ⟨_, _, _, is⟩
  · rw [is]
    exact exhausted
  · rw [is]
    exact exhausted
  · rw [is]
    simp only [popExtra]
    split
    · exact exhausted
    · exact exhausted

end HazardFifo

namespace Watch

variable (w : Watch)

include w

theorem file_fifo (candidate : Candidate) (fifo : HazardFifo) :
    (w.file candidate fifo).fifo = fifo := by
  simp only [file]
  split
  · rfl
  · split
    · rfl
    · rfl

theorem file_left (candidate : Candidate) (fifo : HazardFifo) :
    (w.file candidate fifo).left = w.left := by
  simp only [file]
  split
  · rfl
  · split
    · rfl
    · rfl

theorem take_left (pop : Pop) (reason : Reason) : w.left <+: (w.take pop reason).left := by
  simp only [take]
  split
  · exact List.prefix_append _ _
  · exact List.prefix_append _ _
  · exact List.prefix_rfl

/-- No operation undoes exhaustion. -/
theorem step_exhausted (op : HazardOp) (exhausted : w.fifo.exhausted) :
    (w.step op).fifo.exhausted := by
  cases op with
  | number => exact HazardFifo.number_exhausted exhausted
  | enter seq now backlog =>
    rw [step, enter, file_fifo]
    exact HazardFifo.enter_exhausted exhausted
  | accept now backlog =>
    have numbered := HazardFifo.number_exhausted exhausted
    rcases w.fifo.number_cases with none | ⟨next, _⟩
    · rw [step, w.fifo.accept_none none]
      exact numbered
    · rw [step, w.fifo.accept_some next, file_fifo]
      exact HazardFifo.enter_exhausted numbered
  | latch now => exact exhausted
  | recordsPending now pending => exact HazardFifo.recordsPending_exhausted exhausted
  | popReported receipt nativeSeen now => exact HazardFifo.popIf_exhausted exhausted
  | popAtDrain receipt birthFloor now => exact HazardFifo.popIf_exhausted exhausted
  | clear now => exact exhausted
  | entries now => exact exhausted

theorem tick_left (now : Instant) : w.left <+: (w.tick now).left :=
  List.prefix_append _ _

/-- Who left stays gone. -/
theorem step_left (op : HazardOp) : w.left <+: (w.step op).left := by
  cases op with
  | number => exact List.prefix_rfl
  | enter seq now backlog =>
    rw [step, enter, file_left]
    exact w.tick_left now
  | accept now backlog =>
    rcases w.fifo.number_cases with none | ⟨next, _⟩
    · rw [step, w.fifo.accept_none none]
      exact List.prefix_rfl
    · rw [step, w.fifo.accept_some next, file_left]
      exact w.number.tick_left now
  | latch now => exact w.tick_left now
  | recordsPending now pending => exact w.tick_left now
  | popReported receipt nativeSeen now => exact (w.tick_left now).trans (take_left _ _ _)
  | popAtDrain receipt birthFloor now => exact (w.tick_left now).trans (take_left _ _ _)
  | clear now => exact w.tick_left now
  | entries now => exact w.tick_left now

end Watch

/-- What the FIFO holds and has let go, beside all that entered it. -/
structure Remembers (w : Watch) : Prop where
  /-- The entries stand for the kept candidates, and the count is that of the counted ones. -/
  kept : w.fifo.entries.map Entry.seq = w.kept.map Candidate.seq
  counted : w.fifo.extra = w.counted.length
  few : w.fifo.entries.length ≤ hazardSlots
  rising : (w.fifo.entries.map Entry.seq).Pairwise (· < ·)
  older : ∀ seq ∈ w.fifo.entries.map Entry.seq, ∀ candidate ∈ w.counted, seq < candidate.seq
  /-- Each candidate that entered is in one place, or has left once. -/
  different : w.entered.Nodup
  parts : w.entered.Perm
    ((w.kept ++ w.counted ++ w.uncounted ++ w.left.map Departure.candidate).map Candidate.seq)
  uncounted : w.uncounted ≠ [] → w.fifo.exhausted = true
  allowed : ∀ departure ∈ w.left, departure.Allowed
  once : (w.left.filterMap fun departure => departure.reason.receipt?).Nodup
  handed : w.handed.Nodup

theorem Watched.remembers {w : Watch} (watched : Watched w) : Remembers w := by
  have rising := watched.rising
  rw [List.map_append, ← watched.entries_seq, List.pairwise_append] at rising
  refine {
    kept := watched.entries_seq, counted := watched.extra, few := ?_, rising := rising.1,
    older := ?_, different := watched.enteredRising.imp ne_of_lt, parts := watched.parts,
    uncounted := watched.uncounted, allowed := watched.allowed, once := watched.once,
    handed := ?_ }
  · rw [watched.length_entries]
    exact watched.few
  · intro seq mem candidate candidateMem
    exact rising.2.2 seq mem candidate.seq (List.mem_map_of_mem candidateMem)
  · rw [watched.handed]
    exact List.nodup_range'

theorem Watched.clear {w : Watch} {now : Instant} (watched : Watched w)
    (order : ∀ clock ∈ w.clock, clock ≤ now) (clear : (w.fifo.clear now).1) :
    w.fifo.exhausted = false ∧
      w.entered.Perm (((w.tick now).left.map Departure.candidate).map Candidate.seq) := by
  have ticked := watched.tick order
  simp only [HazardFifo.clear, Bool.and_eq_true, Bool.not_eq_true', List.isEmpty_iff,
    decide_eq_true_eq] at clear
  rcases clear with ⟨⟨running, noEntries⟩, noExtra⟩
  have kept : (w.tick now).kept = [] := by
    apply List.length_eq_zero_iff.mp
    rw [← ticked.length_entries]
    exact List.length_eq_zero_iff.mpr noEntries
  have counted : (w.tick now).counted = [] := by
    apply List.length_eq_zero_iff.mp
    rw [← ticked.extra]
    exact noExtra
  have uncounted : (w.tick now).uncounted = [] := by
    by_contra some
    exact absurd (ticked.uncounted some) (Bool.eq_false_iff.mp running)
  have parts := ticked.parts
  rw [kept, counted, uncounted] at parts
  exact ⟨running, parts⟩

/-- The FIFO forgets no candidate that was not read. -/
theorem hazardFifo_forgets_none (ops : List HazardOp)
    (inOrder : Runs.Along Watch.step (fun w op => op.inOrder w = true) Watch.start ops) :
    Remembers (Watch.after ops) ∧
      (∀ past rest, ops = past ++ rest →
        (Watch.after past).left <+: (Watch.after ops).left ∧
        ((Watch.after past).fifo.exhausted = true → (Watch.after ops).fifo.exhausted = true)) ∧
      ∀ now, (∀ clock ∈ (Watch.after ops).clock, clock ≤ now) →
        ((Watch.after ops).fifo.clear now).1 = true →
        (Watch.after ops).fifo.exhausted = false ∧
          (Watch.after ops).entered.Perm
            ((((Watch.after ops).step (.clear now)).left.map Departure.candidate).map
              Candidate.seq) := by
  have watched : Watched (Watch.after ops) := watched_start.run inOrder
  refine ⟨watched.remembers, ?_, fun now order clear => watched.clear order clear⟩
  intro past rest split
  subst split
  rw [Watch.after, Watch.after, List.foldl_append]
  constructor
  · exact Runs.run_keeps_always (fun w : Watch => (Watch.after past).left <+: w.left)
      (fun w op was => was.trans (w.step_left op)) List.prefix_rfl
  · exact Runs.run_keeps_always (fun w : Watch => w.fifo.exhausted = true) Watch.step_exhausted

/-- Two candidates: a report pops the first, and the second lapses. -/
def poppedThenLapsed : List HazardOp :=
  [.accept 1 false, .accept 2 false, .popReported 0 1 3, .recordsPending 4 true,
    .recordsPending 5 false]

theorem hazardFifo_clears_after_ten_seconds :
    ((Watch.after poppedThenLapsed).fifo.clear (fromSecs 11)).1 = true ∧
      (Watch.after poppedThenLapsed).fifo.exhausted = false ∧
      (Watch.after poppedThenLapsed).entered.Perm
        ((((Watch.after poppedThenLapsed).step (.clear (fromSecs 11))).left.map
          Departure.candidate).map Candidate.seq) :=
  have clear : ((Watch.after poppedThenLapsed).fifo.clear (fromSecs 11)).1 = true := by decide
  ⟨clear, (hazardFifo_forgets_none poppedThenLapsed
    (Runs.along_of_checks (by decide))).2.2 _ (by decide) clear⟩

end AgentDeck.Probe
