import AgentDeck.Lib.History
import AgentDeck.Lib.Runs
import AgentDeck.OneShot.Connection

/-!
# The fence misses nothing

A line that is queued stays in the queue, is kept by a read that came too late or held by the
approval, or is taken in by the fence, unless it carries nothing for the fence. A check that passes
has taken in everything queued before it.
-/

namespace AgentDeck.OneShot

open Inbox (InboxAttemptRef)
open History

/-! ## Lines on the connection -/

namespace Connection

def Pending (connection : Connection) (line : InboxWaitReply) : Prop :=
  some line ∈ connection.lines ∨ line ∈ connection.kept

/-- The end of the connection is in the queue, or has been read. -/
def Closing (connection : Connection) : Prop :=
  none ∈ connection.lines ∨ connection.ended = true

variable {connection : Connection} {line : InboxWaitReply}

theorem mem_kept :
    line ∈ connection.kept ↔ line ∈ connection.held ∨ connection.unread = some line := by
  simp only [kept, List.mem_append, Option.mem_toList]

theorem pending_reads (next : Option InboxWaitReply) (pending : connection.Pending line) :
    (connection.reads next).Pending line := by
  simp only [reads]
  split
  · exact pending
  · rcases pending with queued | kept
    · exact .inl (List.mem_append_left _ queued)
    · exact .inr kept

theorem closing_reads (next : Option InboxWaitReply) (closing : connection.Closing) :
    (connection.reads next).Closing := by
  simp only [reads]
  split
  · exact closing
  · rcases closing with queued | ended
    · exact .inl (List.mem_append_left _ queued)
    · exact .inr ended

theorem mem_reads (stands : connection.readerDone = false) (next : Option InboxWaitReply) :
    next ∈ (connection.reads next).lines := by
  simp only [reads, stands]
  exact List.mem_append_right _ (List.mem_singleton_self next)

theorem pending_hold (reply : InboxWaitReply) (pending : connection.Pending line ∨ line = reply) :
    (connection.hold reply).Pending line := by
  simp only [Pending, mem_kept, hold, List.mem_append, List.mem_singleton] at pending ⊢
  rcases pending with (queued | held | unread) | same
  · exact .inl queued
  · exact .inr (.inl (.inl held))
  · exact .inr (.inr unread)
  · exact .inr (.inl (.inr same))

theorem pending_nextBy (deadline before after : Instant) (pending : connection.Pending line) :
    (connection.nextBy deadline before after).2.Pending line ∨
      (connection.nextBy deadline before after).1 = some line := by
  simp only [Pending, mem_kept] at pending ⊢
  unfold nextBy
  split
  · rename_i reply left
    split
    · exact .inl pending
    · rcases pending with queued | held | unread
      · exact .inl (.inl queued)
      · exact .inl (.inr (.inl held))
      · rw [left] at unread
        exact .inr unread
  · rename_i unread
    split
    · exact .inl pending
    · split
      · exact .inl pending
      · split
        · split
          · exact .inl pending
          · exact .inl pending
        · rename_i rest queue
          rcases pending with queued | others
          · rw [queue] at queued
            rcases List.mem_cons.mp queued with clash | queued
            · cases clash
            · exact .inl (.inl queued)
          · exact .inl (.inr others)
        · rename_i reply rest queue
          rw [queue, unread] at pending
          rcases pending with queued | held | clash
          · rcases List.mem_cons.mp queued with same | queued
            · split
              · exact .inl (.inr (.inr same.symm))
              · exact .inr same.symm
            · split
              · exact .inl (.inl queued)
              · exact .inl (.inl queued)
          · split
            · exact .inl (.inr (.inl held))
            · exact .inl (.inr (.inl held))
          · cases clash

theorem closing_nextBy (deadline before after : Instant) (closing : connection.Closing) :
    (connection.nextBy deadline before after).2.Closing := by
  unfold nextBy
  split
  · split
    · exact closing
    · exact closing
  · split
    · exact closing
    · split
      · exact closing
      · split
        · split
          · exact .inr rfl
          · exact closing
        · exact .inr rfl
        · rename_i reply rest queue
          have still : none ∈ rest ∨ connection.ended := by
            rcases closing with queued | ended
            · rw [queue] at queued
              rcases List.mem_cons.mp queued with clash | queued
              · cases clash
              · exact .inl queued
            · exact .inr ended
          split
          · exact still
          · exact still

theorem pending_tryRecv {lines : List InboxWaitReply}
    (pending : connection.Pending line ∨ line ∈ lines) :
    (connection.tryRecv lines).1.Pending line ∨ line ∈ (connection.tryRecv lines).2.1 := by
  unfold tryRecv
  split
  · exact pending
  · split
    · rename_i reply rest queue
      rcases pending with (queued | kept) | taken
      · rw [queue] at queued
        rcases List.mem_cons.mp queued with same | queued
        · cases same
          exact .inr (List.mem_append_right _ (List.mem_singleton_self _))
        · exact .inl (.inl queued)
      · exact .inl (.inr kept)
      · exact .inr (List.mem_append_left _ taken)
    · rename_i rest queue
      rcases pending with (queued | kept) | taken
      · rw [queue] at queued
        rcases List.mem_cons.mp queued with clash | queued
        · cases clash
        · exact .inl (.inl queued)
      · exact .inl (.inr kept)
      · exact .inr taken
    · split
      · exact pending
      · exact pending

theorem closing_tryRecv (lines : List InboxWaitReply) (closing : connection.Closing) :
    (connection.tryRecv lines).1.Closing := by
  unfold tryRecv
  split
  · exact closing
  · split
    · rename_i reply rest queue
      rcases closing with queued | ended
      · rw [queue] at queued
        rcases List.mem_cons.mp queued with clash | queued
        · cases clash
        · exact .inl queued
      · exact .inr ended
    · exact .inr rfl
    · split
      · exact .inr rfl
      · exact closing

theorem kept_tryRecv (connection : Connection) (lines : List InboxWaitReply) :
    (connection.tryRecv lines).1.kept = connection.kept := by
  unfold tryRecv
  split
  · rfl
  · split
    · rfl
    · rfl
    · split
      · rfl
      · rfl

theorem tryRecv_over {lines : List InboxWaitReply} (done : (connection.tryRecv lines).2.2) :
    (connection.tryRecv lines).1 = connection ∧ (connection.tryRecv lines).2.1 = lines ∧
      (connection.ended = true ∨ connection.lines = []) := by
  unfold tryRecv at done ⊢
  split at done
  · rename_i ended
    simp only [ended, if_true, true_and, true_or]
  · rename_i running
    split at done
    · cases done
    · cases done
    · rename_i empty
      split at done
      · cases done
      · rename_i stands
        simp only [running, stands, empty, Bool.false_eq_true, if_false, true_and, or_true]

end Connection

/-! ## What the fence has taken in -/

theorem terminal_of_not_forTheFence {line : InboxWaitReply}
    (other : Asker.isForTheFence line = false) : line.revoke = [] ∧ terminal line = none := by
  simp only [Asker.isForTheFence, Bool.or_eq_false_iff, Bool.not_eq_false', List.isEmpty_iff,
    Option.isSome_eq_false_iff, Option.isNone_iff_eq_none] at other
  rcases other with ⟨⟨⟨unrevoked, superseded⟩, notInDeck⟩, refused⟩
  refine ⟨unrevoked, ?_⟩
  simp only [terminal, superseded, notInDeck, refused, Bool.false_eq_true, if_false,
    Option.map_none]

theorem not_forTheFence_of_keepalive {line : InboxWaitReply} (keepalive : line.keepalive) :
    Asker.isForTheFence line = false := by
  rcases line.alone keepalive with ⟨superseded, notInDeck, refused, grant, revoke⟩
  simp only [Asker.isForTheFence, superseded, notInDeck, refused, revoke, List.isEmpty_nil,
    Bool.not_true, Option.isSome_none, Bool.or_self]

namespace Fence

/-- The line's revokes are noted, and where it ends the connection's use, an end is. -/
def Saw (fence : Fence) (line : InboxWaitReply) : Prop :=
  (∀ ref ∈ line.revoke, key ref ∈ fence.revoked) ∧
    (terminal line ≠ none → fence.ended ≠ none)

/-- Everything the first fence has noted, the second has. -/
def Grows (fence later : Fence) : Prop :=
  fence.revoked ⊆ later.revoked ∧ ∀ refusal, fence.ended = some refusal → later.ended = some refusal

variable (fence : Fence)

theorem Grows.refl : fence.Grows fence :=
  ⟨Finset.Subset.refl _, fun _ same => same⟩

theorem Grows.trans {first second third : Fence} (early : first.Grows second)
    (late : second.Grows third) : first.Grows third :=
  ⟨early.1.trans late.1, fun refusal same => late.2 refusal (early.2 refusal same)⟩

variable {line : InboxWaitReply}

theorem Saw.later {fence later : Fence} (saw : fence.Saw line) (grows : fence.Grows later) :
    later.Saw line := by
  refine ⟨fun ref named => grows.1 (saw.1 ref named), fun ends => ?_⟩
  rcases Option.ne_none_iff_exists'.mp (saw.2 ends) with ⟨refusal, same⟩
  rw [grows.2 refusal same]
  exact Option.some_ne_none refusal

theorem grows_seeLine (line : InboxWaitReply) : fence.Grows (fence.seeLine line) := by
  refine ⟨Finset.subset_union_left, fun refusal same => ?_⟩
  simp only [seeLine, same, Option.isNone_some, Bool.false_eq_true, if_false]

theorem saw_seeLine (line : InboxWaitReply) : (fence.seeLine line).Saw line := by
  constructor
  · intro ref named
    refine Finset.mem_union_right _ ?_
    rw [List.mem_toFinset]
    exact List.mem_map_of_mem named
  · intro ends
    simp only [seeLine]
    split
    · exact ends
    · rename_i already
      intro absent
      exact already (by rw [absent]; rfl)

theorem grows_foldl (lines : List InboxWaitReply) (fence : Fence) :
    fence.Grows (lines.foldl seeLine fence) := by
  induction lines generalizing fence with
  | nil => exact Grows.refl fence
  | cons line lines ih => exact (grows_seeLine fence line).trans (ih _)

theorem saw_foldl {lines : List InboxWaitReply} (arrived : line ∈ lines) :
    (lines.foldl seeLine fence).Saw line := by
  induction lines generalizing fence with
  | nil => exact absurd arrived List.not_mem_nil
  | cons first lines ih =>
    rcases List.mem_cons.mp arrived with same | arrived
    · subst same
      exact (saw_seeLine fence line).later (grows_foldl lines _)
    · exact ih _ arrived

theorem grows_close (eof : Bool) :
    fence.Grows (if eof ∧ fence.ended.isNone then { fence with ended := some .closed }
      else fence) := by
  split
  · rename_i closed
    refine ⟨Finset.Subset.refl _, fun refusal same => ?_⟩
    rw [same] at closed
    cases closed.2
  · exact Grows.refl fence

theorem grows_see (arrived : Arrived) : fence.Grows (fence.see arrived) :=
  (grows_foldl arrived.lines fence).trans (grows_close _ _)

theorem saw_see {arrived : Arrived} (among : line ∈ arrived.lines) : (fence.see arrived).Saw line :=
  (saw_foldl fence among).later (grows_close _ _)

theorem ended_see {arrived : Arrived} (eof : arrived.eof) : (fence.see arrived).ended ≠ none := by
  simp only [see, eof, true_and]
  split
  · exact Option.some_ne_none _
  · rename_i already
    intro absent
    exact already (by rw [absent]; rfl)

theorem settle_ok {fence : Fence} {ref : InboxAttemptRef} {marker : Option RevokeState}
    (passed : fence.settle ref marker = .ok ()) : fence.ended = none ∧ key ref ∉ fence.revoked := by
  unfold settle at passed
  split at passed
  · cases passed
  · rename_i stands
    split at passed
    · cases passed
    · rename_i unrevoked
      exact ⟨stands, unrevoked⟩

theorem settle_ended {fence : Fence} {ref : InboxAttemptRef} {marker : Option RevokeState}
    {refusal : FenceRefusal} (ended : fence.ended = some refusal) :
    fence.settle ref marker = .error refusal := by
  simp only [settle, ended]

end Fence

namespace FenceRefusal

/-- The refusal is for a terminal line or for the end of the connection. -/
def IsEnd : FenceRefusal → Prop
  | closed => True
  | superseded => True
  | refused _ => True
  | _ => False

end FenceRefusal

theorem Fence.ended_of_settle {fence : Fence} {ref : InboxAttemptRef} {marker : Option RevokeState}
    {refusal : FenceRefusal} (settled : fence.settle ref marker = .error refusal)
    (final : refusal.IsEnd) : fence.ended = some refusal := by
  unfold Fence.settle at settled
  split at settled
  · rename_i ended same
    cases settled
    exact same
  · split at settled
    · cases settled
      exact final.elim
    · split at settled
      · cases settled
      · cases settled
      · cases settled
        exact final.elim
      · cases settled
        exact final.elim

end AgentDeck.OneShot
