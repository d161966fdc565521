import AgentDeck.Attempts.Safety

/-!
# Records only move onward

What a call leaves of a record, composed over a run.
-/

namespace AgentDeck.Attempts

/-- What no later call undoes of an attempt. -/
structure Attempt.Onward (old new : Attempt) : Prop where
  a : new.a = old.a
  e : new.e = old.e
  slot : new.slot = old.slot
  committed : old.stage = .committed → new.stage = .committed
  notHanded : old.stage = .notHanded → new.stage = .notHanded ∨ new.stage = .committed
  final : old.stage.isFinal = true → new.stage.isFinal = true
  reclaimed : old.reclaimed = true → new.reclaimed = true
  mark : old.mark ≤ new.mark

theorem Attempt.Onward.trans {old middle new : Attempt} (first : old.Onward middle)
    (second : middle.Onward new) : old.Onward new := by
  refine ⟨second.a.trans first.a, second.e.trans first.e, second.slot.trans first.slot,
    second.committed ∘ first.committed, ?_, second.final ∘ first.final,
    second.reclaimed ∘ first.reclaimed, first.mark.trans second.mark⟩
  intro notHanded
  rcases first.notHanded notHanded with still | committed
  · exact second.notHanded still
  · exact .inr (second.committed committed)

structure Delivery.Onward (old new : Delivery) : Prop where
  attempts : ∃ kept extra, new.attempts = kept ++ extra ∧
    List.Forall₂ Attempt.Onward old.attempts kept
  assignment : old.a ≤ new.a
  terminal : old.state.isTerminal = true → new.state.isTerminal = true ∧ new.a = old.a

theorem Delivery.Onward.refl (msg : Delivery) : msg.Onward msg := by
  refine ⟨⟨msg.attempts, [], (List.append_nil _).symm, ?_⟩, le_rfl, fun ended => ⟨ended, rfl⟩⟩
  apply List.forall₂_same.mpr
  intro attempt _
  exact ⟨rfl, rfl, rfl, id, Or.inl, id, id, le_rfl⟩

theorem Delivery.Onward.trans {old middle new : Delivery} (first : old.Onward middle)
    (second : middle.Onward new) : old.Onward new := by
  rcases first.attempts with ⟨kept, extra, split, onward⟩
  rcases second.attempts with ⟨later, added, laterSplit, laterOnward⟩
  rw [split] at laterOnward
  rcases exists_append_of_forall₂ laterOnward with ⟨still, after, is, stillOnward, _⟩
  refine ⟨⟨still, after ++ added, ?_, ?_⟩, first.assignment.trans second.assignment, ?_⟩
  · rw [laterSplit, is, List.append_assoc]
  · exact forall₂_trans onward stillOnward fun one other => one.trans other
  · intro ended
    rcases first.terminal ended with ⟨ended, same⟩
    exact ⟨(second.terminal ended).1, (second.terminal ended).2.trans same⟩

namespace AttemptModel

theorem Grows.onward {powers : Powers} {old new : Delivery} (grows : Grows powers old new) :
    old.Onward new := by
  rcases grows.attempts with ⟨kept, extra, split, evolves, _⟩
  refine ⟨⟨kept, extra, split, evolves.imp ?_⟩, grows.assignment, grows.terminal⟩
  intro _ _ evolves
  exact ⟨evolves.a, evolves.e, evolves.slot, evolves.committed, evolves.notHanded, evolves.final,
    evolves.reclaimed, evolves.mark⟩

/-- Until exit, a record that is retained keeps its attempts in order, with their numbers and slots,
and adds new ones after them; no commitment, final stage or reclaim is undone, and a message that
has ended stays so, under its assignment. -/
theorem records_move_onward (limits : Limits) (generation : ℕ) (ops more : List Op) (id : String)
    (msg : Delivery)
    (record : ((AttemptModel.new limits generation).run ops).messages.get? id = some msg)
    (running : .exit ∉ more)
    (retains : Retains id ((AttemptModel.new limits generation).run ops) more) :
    ∃ after, (((AttemptModel.new limits generation).run ops).run more).messages.get? id =
      some after ∧ msg.Onward after := by
  have valid := valid_run limits generation ops
  generalize (AttemptModel.new limits generation).run ops = model at *
  induction more generalizing model msg with
  | nil => exact ⟨msg, record, .refl msg⟩
  | cons op rest ih =>
    simp only [List.mem_cons, not_or] at running
    rcases (valid.change op).grows (Ne.symm running.1) record with ⟨_, gone⟩ | ⟨next, found, grows⟩
    · have kept := retains.2.here
      rw [gone] at kept
      cases kept
    · rcases ih next running.2 (model.apply op) found retains.2 (valid.apply op) with
        ⟨after, is, onward⟩
      exact ⟨after, is, grows.onward.trans onward⟩

def handedOut : AttemptModel :=
  (AttemptModel.new Limits.default 1).run [.post "m" false, .register 0 .onceWaiter false,
    .issue 0 "m" 1]

theorem records_move_onward_handedOut :
    ∃ msg after, handedOut.messages.get? "m" = some msg ∧ (handedOut.run
      [.stage 2 "m" 1 1 .committed none]).messages.get? "m" = some after ∧ msg.Onward after := by
  have record : ∃ msg, handedOut.messages.get? "m" = some msg := ⟨_, rfl⟩
  rcases record with ⟨msg, record⟩
  have running : Op.exit ∉ [Op.stage 2 "m" 1 1 .committed none] := by
    intro mem
    cases List.mem_singleton.mp mem
  rcases records_move_onward Limits.default 1 _ _ "m" msg record running
    (by simp only [Retains]; decide) with ⟨after, found, onward⟩
  exact ⟨msg, after, record, found, onward⟩

end AttemptModel

end AgentDeck.Attempts
