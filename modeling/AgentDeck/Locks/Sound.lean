import AgentDeck.Lib.Runs
import AgentDeck.Lib.WaitFor
import AgentDeck.Locks.Ranked
import Mathlib.Data.List.Nodup

/-!
# What a thread holds

The ranks a thread has pushed are those of its guards, in rising order, and a mutex is held by the
thread that has a guard of it or is about to make or drop one. A thread that waits wants a rank
above every one it holds, so no wait leads back to itself.
-/

namespace AgentDeck.Locks

section

variable {T M : Type}

def Guard.entry (rank : M → Rank) (guard : Guard M) : Rank × Token :=
  (rank guard.mutex, guard.token)

namespace Phase

/-- The mutex whose `check` passed, and the token given out, while no guard of it is made. -/
def admitted : Phase M → Option (M × Token)
  | calling mutex token _ | taken mutex token _ _ _ => some (mutex, token)
  | running | lettingGo _ _ => none

end Phase

/-! ## The stack -/

/-- `pop` removes the last entry of its token. -/
theorem pop_middle {first last : List (Rank × Token)} {rank : Rank} {token : Token}
    (after : ∀ entry ∈ last, entry.2 ≠ token) :
    pop (first ++ (rank, token) :: last) token = first ++ last := by
  have absent : ∀ entry ∈ last.reverse, ¬ decide (entry.2 = token) = true := by
    intro entry mem same
    exact after entry (List.mem_reverse.mp mem) (of_decide_eq_true same)
  have removed : (last.reverse ++ (rank, token) :: first.reverse).eraseP
      (fun entry => decide (entry.2 = token)) = last.reverse ++ first.reverse := by
    rw [List.eraseP_append_right _ absent]
    simp only [List.eraseP_cons, decide_true, cond_true]
  rw [pop, List.reverse_append, List.reverse_cons, List.append_assoc,
    List.singleton_append, removed,
    List.reverse_append, List.reverse_reverse, List.reverse_reverse]

theorem check_above {held : List (Rank × Token)} {rank : Rank} (passes : check held rank) :
    ∀ entry ∈ held, entry.1 < rank := by
  unfold check at passes
  split at passes
  · rw [List.isEmpty_iff.mp passes]
    intro entry mem
    cases mem
  · intro entry mem
    exact of_decide_eq_true (List.all_eq_true.mp passes entry mem)

/-- A leaf is taken with nothing held. -/
theorem check_leaf {held : List (Rank × Token)} (passes : check held leaf) : held = [] := by
  exact List.isEmpty_iff.mp passes

theorem leaf_not_below {rank : Rank} : ¬ leaf < rank := by
  intro less
  have most := rank.toNat_lt
  have above : (255 : ℕ) < rank.toNat := UInt8.lt_iff_toNat_lt.mp less
  omega

/-! ## A thread -/

namespace Thread

structure Sound (rank : M → Rank) (thread : Thread M) : Prop where
  held : thread.held = thread.live.map (Guard.entry rank)
  rising : thread.held.Pairwise fun lower higher => lower.1 < higher.1
  tokens : (thread.live.map Guard.token).Nodup
  apart : thread.holds.Nodup
  alone : ∀ mutex ∈ thread.holds, rank mutex = leaf → thread.holds = [mutex]
  admitted : ∀ mutex token, thread.phase.admitted = some (mutex, token) →
    check thread.held (rank mutex) = true ∧ token ∉ thread.live.map Guard.token

variable {rank : M → Rank} {thread : Thread M}

theorem new_sound : (new : Thread M).Sound rank where
  held := rfl
  rising := List.Pairwise.nil
  tokens := List.nodup_nil
  apart := List.nodup_nil
  alone := by
    intro mutex mem
    cases mem
  admitted := by
    intro mutex token absent
    cases absent

namespace Sound

theorem moved (sound : thread.Sound rank) {next : Token} {phase : Phase M} {panicking : Bool}
    (has : phase.has = thread.phase.has)
    (admitted : ∀ mutex token, phase.admitted = some (mutex, token) →
      check thread.held (rank mutex) = true ∧ token ∉ thread.live.map Guard.token) :
    Sound rank { thread with nextToken := next, phase := phase, panicking := panicking } := by
  have same :
    Thread.holds { thread with nextToken := next, phase := phase, panicking := panicking } =
      thread.holds := by
    simp only [holds, has]
  refine ⟨sound.held, sound.rising, sound.tokens, ?_, ?_, admitted⟩
  · rw [same]
    exact sound.apart
  · rw [same]
    exact sound.alone

variable {mutex : M}

theorem not_live (sound : thread.Sound rank) (passes : check thread.held (rank mutex)) :
    mutex ∉ thread.live.map Guard.mutex := by
  intro mem
  rcases List.mem_map.mp mem with ⟨guard, live, same⟩
  have entry : guard.entry rank ∈ thread.held := by
    rw [sound.held]
    exact List.mem_map_of_mem live
  have above := check_above passes _ entry
  rw [Guard.entry, same] at above
  exact UInt8.lt_irrefl _ above

theorem not_leaf_live (sound : thread.Sound rank) {other : M}
    (passes : check thread.held (rank mutex)) (live : other ∈ thread.live.map Guard.mutex) :
    rank other ≠ leaf := by
  intro isLeaf
  rcases List.mem_map.mp live with ⟨guard, mem, same⟩
  have entry : guard.entry rank ∈ thread.held := by
    rw [sound.held]
    exact List.mem_map_of_mem mem
  have above := check_above passes _ entry
  rw [Guard.entry, same, isLeaf] at above
  exact leaf_not_below above

theorem live_nil (sound : thread.Sound rank) (passes : check thread.held (rank mutex))
    (isLeaf : rank mutex = leaf) : thread.live = [] := by
  rw [isLeaf] at passes
  have empty := check_leaf passes
  rw [sound.held, List.map_eq_nil_iff] at empty
  exact empty

variable {panicked : Bool}

variable (sound : thread.Sound rank)

include sound

theorem acquired {token : Token} {form : Form} {poisoned : Bool}
    (calling : thread.phase = .calling mutex token form) :
    Sound rank { thread with phase := .taken mutex token form poisoned panicked } := by
  have admitted := sound.admitted mutex token (by rw [calling]; rfl)
  have notLive := sound.not_live admitted.1
  have before : thread.holds = thread.live.map Guard.mutex := by
    rw [Thread.holds, calling]
    exact List.append_nil _
  have apart := sound.apart
  rw [before] at apart
  refine ⟨sound.held, sound.rising, sound.tokens, ?_, ?_, ?_⟩
  · refine List.nodup_append.mpr ⟨apart, List.nodup_singleton _, ?_⟩
    intro other live single isMutex same
    rw [List.mem_singleton.mp isMutex] at same
    rw [same] at live
    exact notLive live
  · intro other mem isLeaf
    rcases List.mem_append.mp mem with live | single
    · exact absurd isLeaf (sound.not_leaf_live admitted.1 live)
    · rw [List.mem_singleton.mp single] at isLeaf ⊢
      rw [sound.live_nil admitted.1 isLeaf]
      rfl
  · intro other otherToken same
    cases same
    exact admitted

theorem made {token : Token} {form : Form} {poisoned : Bool}
    (taken : thread.phase = .taken mutex token form poisoned panicked) :
    Sound rank { thread with
      held := push thread.held (rank mutex) token
      live := thread.live ++ [⟨mutex, token, panicked⟩]
      phase := .running } := by
  have admitted := sound.admitted mutex token (by rw [taken]; rfl)
  have same : Thread.holds { thread with
      held := push thread.held (rank mutex) token
      live := thread.live ++ [⟨mutex, token, panicked⟩]
      phase := .running } = thread.holds := by
    simp only [Thread.holds, taken, Phase.has, List.map_append, List.map_cons, List.map_nil,
      Option.toList_none, Option.toList_some, List.append_nil]
  refine ⟨?_, ?_, ?_, ?_, ?_, ?_⟩
  · simp only [push, sound.held, List.map_append, List.map_cons, List.map_nil, Guard.entry]
  · refine List.pairwise_append.mpr ⟨sound.rising, List.pairwise_singleton _ _, ?_⟩
    intro entry mem last isLast
    rw [List.mem_singleton.mp isLast]
    exact check_above admitted.1 entry mem
  · rw [List.map_append]
    refine List.nodup_append.mpr ⟨sound.tokens, List.nodup_singleton _, ?_⟩
    intro other mem last isLast same
    rw [List.mem_singleton.mp isLast] at same
    rw [same] at mem
    exact admitted.2 mem
  · rw [same]
    exact sound.apart
  · rw [same]
    exact sound.alone
  · intro other otherToken absent
    cases absent

theorem dropped {i : ℕ} {guard : Guard M} (here : thread.live[i]? = some guard)
    (running : thread.phase = .running) :
    Sound rank { thread with
      held := pop thread.held guard.token
      live := thread.live.eraseIdx i
      phase := .lettingGo guard.mutex guard.panicked } ∧
    (Thread.holds { thread with
      held := pop thread.held guard.token
      live := thread.live.eraseIdx i
      phase := .lettingGo guard.mutex guard.panicked }).Perm thread.holds := by
  rcases List.getElem?_eq_some_iff.mp here with ⟨bound, isGuard⟩
  have split : thread.live = thread.live.take i ++ guard :: thread.live.drop (i + 1) := by
    rw [← isGuard, List.getElem_cons_drop, List.take_append_drop]
  have erased : thread.live.eraseIdx i = thread.live.take i ++ thread.live.drop (i + 1) :=
    List.eraseIdx_eq_take_drop_succ _ _
  have after : ∀ entry ∈ (thread.live.drop (i + 1)).map (Guard.entry rank),
    entry.2 ≠ guard.token := by
    intro entry mem same
    rcases List.mem_map.mp mem with ⟨other, otherMem, rfl⟩
    have tokens := sound.tokens
    rw [split, List.map_append] at tokens
    have apart := (List.nodup_append.mp tokens).2.1
    exact (List.nodup_cons.mp apart).1 (same ▸ List.mem_map_of_mem otherMem)
  have popped : pop thread.held guard.token = (thread.live.eraseIdx i).map (Guard.entry rank) := by
    rw [sound.held, erased, List.map_append]
    conv_lhs => rw [split, List.map_append, List.map_cons]
    exact pop_middle after
  have shrinks : (thread.live.eraseIdx i).Sublist thread.live := List.eraseIdx_sublist _ _
  have perm : (Thread.holds { thread with
      held := pop thread.held guard.token
      live := thread.live.eraseIdx i
      phase := .lettingGo guard.mutex guard.panicked }).Perm thread.holds := by
    have before : thread.holds = thread.live.map Guard.mutex := by
      rw [Thread.holds, running]
      exact List.append_nil _
    have whole : thread.live.map Guard.mutex = (thread.live.take i).map Guard.mutex ++
        guard.mutex :: (thread.live.drop (i + 1)).map Guard.mutex := by
      conv_lhs => rw [split, List.map_append, List.map_cons]
    rw [before, whole]
    simp only [Thread.holds]
    rw [erased, List.map_append, List.append_assoc]
    exact List.Perm.append_left _ (List.perm_append_singleton _ _)
  refine ⟨⟨popped, ?_, ?_, ?_, ?_, ?_⟩, perm⟩
  · have rising := sound.rising
    rw [sound.held] at rising
    simp only [popped]
    exact rising.sublist (shrinks.map _)
  · exact sound.tokens.sublist (shrinks.map _)
  · exact perm.nodup_iff.mpr sound.apart
  · intro mutex mem isLeaf
    have single := sound.alone mutex (perm.mem_iff.mp mem) isLeaf
    rw [single] at perm
    exact List.perm_singleton.mp perm
  · intro other otherToken absent
    cases absent

theorem released (letting : thread.phase = .lettingGo mutex panicked) :
    Sound rank { thread with phase := .running } ∧ mutex ∉ thread.live.map Guard.mutex := by
  have before : thread.holds = thread.live.map Guard.mutex ++ [mutex] := by
    rw [Thread.holds, letting]
    rfl
  have holds : Thread.holds { thread with phase := .running } = thread.live.map Guard.mutex :=
    List.append_nil _
  have apart := sound.apart
  rw [before] at apart
  refine ⟨⟨sound.held, sound.rising, sound.tokens, ?_, ?_, ?_⟩, ?_⟩
  · rw [holds]
    exact (List.nodup_append.mp apart).1
  · intro other mem isLeaf
    rw [holds] at mem ⊢
    have single := sound.alone other (by rw [before]; exact List.mem_append_left _ mem) isLeaf
    rw [before] at single
    have shape := congrArg List.length single
    rw [List.length_append, List.length_singleton, List.length_singleton] at shape
    have empty : thread.live.map Guard.mutex = [] := List.length_eq_zero_iff.mp (by omega)
    rw [empty] at mem
    cases mem
  · intro other otherToken absent
    cases absent
  · intro mem
    exact (List.nodup_append.mp apart).2.2 mutex mem mutex (List.mem_singleton_self _) rfl

end Sound

end Thread

/-! ## The system -/

namespace System

structure Sound (rank : M → Rank) (s : System T M) : Prop where
  threads : ∀ t, (s.threads t).Sound rank
  owned : ∀ t mutex, s.owner mutex = some t ↔ mutex ∈ (s.threads t).holds

theorem new_sound (rank : M → Rank) : (new : System T M).Sound rank where
  threads _ := Thread.new_sound
  owned t mutex := by
    constructor
    · intro owned
      cases owned
    · intro mem
      cases mem

variable {rank : M → Rank} {s : System T M}

section

variable [DecidableEq T]

theorem put_self (t : T) (thread : Thread M) : (s.put t thread).threads t = thread :=
  Function.update_self _ _ _

theorem put_other {t u : T} (other : u ≠ t) (thread : Thread M) :
    (s.put t thread).threads u = s.threads u :=
  Function.update_of_ne other _ _

namespace Sound

variable {thread : Thread M}

theorem put_threads (sound : s.Sound rank) {t : T} (next : thread.Sound rank) (u : T) :
    ((s.put t thread).threads u).Sound rank := by
  by_cases here : u = t
  · rw [here, put_self]
    exact next
  · rw [put_other here]
    exact sound.threads u

theorem put (sound : s.Sound rank) {t : T} (next : thread.Sound rank)
    (same : ∀ mutex, mutex ∈ thread.holds ↔ mutex ∈ (s.threads t).holds) :
    (s.put t thread).Sound rank where
  threads := sound.put_threads next
  owned u mutex := by
    by_cases here : u = t
    · rw [here, put_self, same]
      exact sound.owned t mutex
    · rw [put_other here]
      exact sound.owned u mutex

variable [DecidableEq M]

theorem handed (sound : s.Sound rank) {t : T} (next : thread.Sound rank) {mutex : M}
    {owner : Option T} {poisoned : M → Bool} (others : ∀ u, u ≠ t → mutex ∉ (s.threads u).holds)
    (only : ∀ u, owner = some u → u = t) (own : owner = some t ↔ mutex ∈ thread.holds)
    (same : ∀ other, other ≠ mutex → (other ∈ thread.holds ↔ other ∈ (s.threads t).holds)) :
    ({ s.put t thread with
        owner := Function.update s.owner mutex owner
        poisoned := poisoned } : System T M).Sound rank where
  threads := sound.put_threads next
  owned u other := by
    simp only
    by_cases this : other = mutex
    · rw [this, Function.update_self]
      by_cases here : u = t
      · rw [here, put_self]
        exact own
      · rw [put_other here]
        exact iff_of_false (fun is => here (only u is)) (others u here)
    · rw [Function.update_of_ne this]
      by_cases here : u = t
      · rw [here, put_self, same other this]
        exact sound.owned t other
      · rw [put_other here]
        exact sound.owned u other

theorem step (sound : s.Sound rank) {op : Op T M} (fresh : s.FreshToken rank op) :
    (s.step rank op).Sound rank := by
  cases op with
  | call t mutex form =>
    have thread := sound.threads t
    simp only [System.step]
    split
    · rename_i running
      split
      · rename_i passes
        refine sound.put (thread.moved (by rw [running]; rfl) ?_) ?_
        · intro other token same
          cases same
          refine ⟨passes, ?_⟩
          intro mem
          rcases List.mem_map.mp mem with ⟨guard, live, same⟩
          exact fresh passes guard live same
        · intro other
          simp only [Thread.holds, running, Phase.has]
      · refine sound.put (thread.moved rfl thread.admitted) ?_
        intro other
        rfl
    · exact sound
  | acquire t =>
    have thread := sound.threads t
    simp only [System.step]
    split
    · rename_i mutex token form calling
      split
      · rename_i free
        have holds : (s.threads t).holds = (s.threads t).live.map Guard.mutex := by
          rw [Thread.holds, calling]
          exact List.append_nil _
        refine sound.handed (thread.acquired calling) ?_ ?_ ?_ ?_
        · intro u _ mem
          have owned := (sound.owned u mutex).mpr mem
          rw [free] at owned
          cases owned
        · intro u same
          exact (Option.some.inj same).symm
        · exact iff_of_true rfl (List.mem_append_right _ (List.mem_singleton_self _))
        · intro other apart
          rw [holds]
          simp only [Thread.holds, Phase.has, Option.toList_some, List.mem_append,
            List.mem_singleton, apart, or_false]
      · exact sound
    · exact sound
  | wouldBlock t =>
    have thread := sound.threads t
    simp only [System.step]
    split
    · rename_i mutex token form calling
      split
      · refine sound.put (thread.moved (by rw [calling]; rfl) ?_) ?_
        · intro other otherToken absent
          cases absent
        · intro other
          simp only [Thread.holds, calling, Phase.has]
      · exact sound
    · exact sound
  | settle t =>
    have thread := sound.threads t
    simp only [System.step]
    split
    · rename_i mutex token form poisoned panicked taken
      split
      · refine sound.put (thread.moved (by rw [taken]; rfl) ?_) ?_
        · intro other otherToken absent
          cases absent
        · intro other
          simp only [Thread.holds, taken, Phase.has]
      · refine sound.put (thread.made taken) ?_
        intro other
        simp only [Thread.holds, taken, Phase.has, List.map_append, List.map_cons, List.map_nil,
          Option.toList_none, Option.toList_some, List.append_nil]
    · exact sound
  | drop t i =>
    have thread := sound.threads t
    simp only [System.step]
    split
    · rename_i guard running here
      refine sound.put (thread.dropped here running).1 ?_
      intro other
      exact (thread.dropped here running).2.mem_iff
    · exact sound
  | release t =>
    have thread := sound.threads t
    simp only [System.step]
    split
    · rename_i mutex panicked letting
      rcases thread.released letting with ⟨next, gone⟩
      have owns : s.owner mutex = some t := by
        apply (sound.owned t mutex).mpr
        rw [Thread.holds, letting]
        exact List.mem_append_right _ (List.mem_singleton_self _)
      refine sound.handed next ?_ ?_ ?_ ?_
      · intro u apart mem
        have owned := (sound.owned u mutex).mpr mem
        rw [owns] at owned
        exact apart (Option.some.inj owned).symm
      · intro u absent
        cases absent
      · refine iff_of_false (Option.some_ne_none t).symm ?_
        rw [Thread.holds]
        simpa only [Phase.has, Option.toList_none, List.append_nil] using gone
      · intro other apart
        simp only [Thread.holds, letting, Phase.has, Option.toList_none, Option.toList_some,
          List.append_nil, List.mem_append, List.mem_singleton, apart, or_false]
    · exact sound
  | panic t | caught t =>
    have thread := sound.threads t
    simp only [System.step]
    split
    · refine sound.put (thread.moved rfl thread.admitted) ?_
      intro other
      rfl
    · exact sound

theorem run {ops : List (Op T M)}
    (fresh : Runs.Along (System.step rank) (FreshToken rank) System.new ops) :
    (System.run rank ops).Sound rank :=
  Runs.run_keeps (System.Sound rank) (fun _ _ fresh sound => sound.step fresh) fresh
    (new_sound rank)

end Sound

end

/-! ## Waiting -/

/-- How far up the ranks a thread waits. -/
def wanted (rank : M → Rank) (s : System T M) (t : T) : ℕ :=
  match (s.threads t).phase with
  | .calling mutex _ _ => (rank mutex).toNat
  | _ => 0

theorem Blocked.wanted {t : T} {mutex : M} (blocked : s.Blocked t mutex) :
    s.wanted rank t = (rank mutex).toNat := by
  rcases blocked.1 with ⟨token, form, calling, _⟩
  simp only [System.wanted, calling]

theorem Sound.grows (sound : s.Sound rank) : WaitFor.Grows s.WaitsFor (s.wanted rank) := by
  rintro first second third ⟨mutex, blocked, owned⟩ ⟨other, otherBlocked, _⟩
  rw [blocked.wanted, otherBlocked.wanted]
  rcases otherBlocked.1 with ⟨token, form, calling, _⟩
  have holds := (sound.owned second mutex).mp owned
  rw [Thread.holds, calling] at holds
  have live : mutex ∈ (s.threads second).live.map Guard.mutex := by
    simpa only [Phase.has, Option.toList_none, List.append_nil] using holds
  rcases List.mem_map.mp live with ⟨guard, mem, same⟩
  have thread := sound.threads second
  have entry : guard.entry rank ∈ (s.threads second).held := by
    rw [thread.held]
    exact List.mem_map_of_mem mem
  have admitted := thread.admitted other token (by rw [calling]; rfl)
  have above := check_above admitted.1 _ entry
  rw [Guard.entry, same] at above
  exact UInt8.lt_iff_toNat_lt.mp above

theorem wanted_le (t : T) : s.wanted rank t ≤ 255 := by
  unfold wanted
  split
  · rename_i mutex _ _ _
    have most := (rank mutex).toNat_lt
    omega
  · exact Nat.zero_le _

/-- What holds of the stacks and the waits in a state. -/
structure Orderly (rank : M → Rank) (s : System T M) : Prop where
  guards : ∀ t, (s.threads t).held.Perm ((s.threads t).live.map (Guard.entry rank))
  distinct : ∀ t, ((s.threads t).held.map Prod.fst).Nodup
  alone : ∀ t mutex, mutex ∈ (s.threads t).holds → rank mutex = leaf →
    (s.threads t).holds = [mutex]
  progress : ∀ t mutex, s.Blocked t mutex → ∃ u v, s.WaitsFor u v ∧ ∀ other, ¬ s.Blocked v other
  acyclic : ∀ t, ¬ Relation.TransGen s.WaitsFor t t

theorem Blocked.waitsFor {t : T} {mutex : M} (blocked : s.Blocked t mutex) :
    ∃ u, s.WaitsFor t u := by
  rcases Option.ne_none_iff_exists'.mp blocked.2 with ⟨u, owned⟩
  exact ⟨u, mutex, blocked, owned⟩

theorem Sound.orderly (sound : s.Sound rank) : s.Orderly rank where
  guards t := by rw [(sound.threads t).held]
  distinct t := by
    have rising := (sound.threads t).rising
    refine List.pairwise_map.mpr (rising.imp fun less same => ?_)
    rw [same] at less
    exact UInt8.lt_irrefl _ less
  alone t := (sound.threads t).alone
  progress t mutex blocked := by
    rcases blocked.waitsFor with ⟨u, waits⟩
    rcases WaitFor.comes_to_an_end sound.grows (fun first _ _ => wanted_le first) waits with
      ⟨last, idle, waitsOn, still⟩
    refine ⟨last, idle, waitsOn, ?_⟩
    intro other blocked
    rcases blocked.waitsFor with ⟨next, goesOn⟩
    exact still next goesOn
  acyclic := WaitFor.acyclic sound.grows

end System

end

end AgentDeck.Locks
