import AgentDeck.Probe.Line

/-!
# What the gate does to the line

What an offer can do, said once; and what every other operation of the gate leaves alone when it
does not move the version: the queue, and that a closed fence with no room still has none.
-/

namespace AgentDeck.Probe

variable {T : Type}

namespace Fence

theorem fits_push {fence : Fence T} {len : ℕ} (full : fence.fits len = false) (op : T) (more : ℕ) :
    (fence.push op more).fits len = false := by
  unfold fits at full ⊢
  rw [Bool.or_eq_false_iff] at full ⊢
  refine ⟨?_, ?_⟩
  · rw [List.isEmpty_eq_false_iff]
    exact List.append_ne_nil_of_right_ne_nil _ (List.cons_ne_nil _ _)
  · have no := full.2
    rw [Bool.and_eq_false_iff, decide_eq_false_iff_not, decide_eq_false_iff_not] at no ⊢
    simp only [push, List.length_append]
    omega

end Fence

namespace Gate

def First (g : Gate T) (id : Option ℕ) : Prop := ∀ head ∈ g.waiters.head?, some head = id

def Blocked (g : Gate T) (op : T) (len : ℕ) (passes : T → ℕ → Bool) : Prop :=
  g.retired = false ∧ ∃ fence, g.fence = some fence ∧ passes op fence.trigger = false ∧ len ≠ 0 ∧
    fence.fits len = false

/-- What a change leaves alone that wakes no waiter. -/
structure Steady (g g' : Gate T) : Prop where
  retired : g'.retired = g.retired
  fence : ∀ fence, g.fence = some fence → ∃ fence', g'.fence = some fence' ∧
    fence'.trigger = fence.trigger ∧ ∀ len, fence.fits len = false → fence'.fits len = false

theorem Steady.refl (g : Gate T) : Steady g g :=
  ⟨rfl, fun fence closed => ⟨fence, closed, rfl, fun _ full => full⟩⟩

variable {g g' : Gate T}

theorem Steady.of_fence (retired : g'.retired = g.retired) (fence : g'.fence = g.fence) :
    Steady g g' := by
  refine ⟨retired, ?_⟩
  intro kept closed
  exact ⟨kept, fence.trans closed, rfl, fun _ full => full⟩

variable {op : T} {len : ℕ} {passes : T → ℕ → Bool}

theorem Blocked.steady (blocked : g.Blocked op len passes) (steady : Steady g g') :
    g'.Blocked op len passes := by
  rcases blocked with ⟨active, fence, closed, stays, some, full⟩
  rcases steady.fence fence closed with ⟨fence', closed', trigger, fits⟩
  refine ⟨steady.retired.trans active, fence', closed', ?_, some, fits len full⟩
  rw [trigger]
  exact stays

theorem Blocked.full (blocked : g.Blocked op len passes) (waiter : Option Waiter)
    (hold : T → Bool × T) : g.admitUnless op len waiter passes hold = g.answerFull op waiter := by
  rcases blocked with ⟨active, fence, closed, stays, some, full⟩
  unfold admitUnless
  rw [if_neg (Bool.eq_false_iff.mp active), closed]
  simp only [Option.any_some, stays, Bool.false_eq_true, if_false, some, and_false, full,
    ite_self]

inductive Answers (g : Gate T) (op : T) (len : ℕ) (waiter : Option Waiter)
    (passes : T → ℕ → Bool) : Admission T × Option ClaimId × Gate T → Prop
  | retired (retired : g.retired = true) : Answers g op len waiter passes (.retired op, none, g)
  | passAhead (closed : g.fence.isSome = true) :
      Answers g op len waiter passes (.passAhead op, none, g)
  | settled (closed : g.fence.isSome = true) (empty : len = 0) :
      Answers g op len waiter passes (.settled op, none, g)
  | behind (active : g.retired = false) (later : ¬ g.First (waiter.map Waiter.id)) :
      Answers g op len waiter passes (g.answerFull op waiter)
  | full (first : g.First (waiter.map Waiter.id)) (blocked : g.Blocked op len passes) :
      Answers g op len waiter passes (g.answerFull op waiter)
  | opened (first : g.First (waiter.map Waiter.id)) (active : g.retired = false)
      (opens : g.fence = none) (taken : Option ClaimId) (gate : Gate T)
      (takes : 0 < len → taken = g.probe ∧ gate = { g with probe := none })
      (empty : len = 0 → taken = none ∧ gate = g) :
      Answers g op len waiter passes (.opened op, taken, gate)
  | held (first : g.First (waiter.map Waiter.id)) (active : g.retired = false) (fence : Fence T)
      (closed : g.fence = some fence) (op' : T) :
      Answers g op len waiter passes (.held, none, { g with fence := some (fence.push op' len) })
  | refused (first : g.First (waiter.map Waiter.id)) (active : g.retired = false)
      (closed : g.fence.isSome = true) (op' : T) :
      Answers g op len waiter passes (.refused op', none, g)

theorem admitUnless_answers (g : Gate T) (op : T) (len : ℕ) (waiter : Option Waiter)
    (passes : T → ℕ → Bool) (hold : T → Bool × T) :
    Answers g op len waiter passes (g.admitUnless op len waiter passes hold) := by
  unfold admitUnless
  split
  · rename_i retired
    exact .retired retired
  · rename_i active
    rw [Bool.not_eq_true] at active
    split
    · rename_i passed
      refine .passAhead ?_
      cases closed : g.fence with
      | none =>
        rw [closed] at passed
        cases passed
      | some fence => rfl
    · rename_i stays
      split
      · rename_i empty
        exact .settled empty.1 empty.2
      · rename_i unsettled
        split
        · rename_i behind
          refine .behind active ?_
          intro first
          rw [Option.any_eq_true] at behind
          rcases behind with ⟨head, is, other⟩
          exact of_decide_eq_true other (first head is)
        · rename_i ahead
          have first : g.First (waiter.map Waiter.id) := by
            intro head is
            rw [Option.mem_def] at is
            rw [is, Option.any_some, decide_eq_true_eq, not_not] at ahead
            exact ahead
          split
          · rename_i opens
            split
            · rename_i nonempty
              refine .opened first active opens _ _ (fun _ => ⟨rfl, rfl⟩) ?_
              exact fun empty => absurd empty (Nat.pos_iff_ne_zero.mp nonempty)
            · rename_i absent
              refine .opened first active opens _ _ ?_ (fun _ => ⟨rfl, rfl⟩)
              exact fun filled => absurd filled absent
          · rename_i fence closed
            split
            · split
              · rename_i op' _
                exact .held first active fence closed op'
              · refine .refused first active ?_ _
                rw [closed]
                rfl
            · rename_i full
              refine .full first ⟨active, fence, closed, ?_, ?_, Bool.eq_false_iff.mpr full⟩
              · rw [closed, Bool.not_eq_true] at stays
                exact stays
              · intro absent
                rw [closed] at unsettled
                exact unsettled ⟨rfl, absent⟩

variable {waiter : Option Waiter} {out : Admission T × Option ClaimId × Gate T}

section

variable (answers : Answers g op len waiter passes out)

include answers

theorem Answers.steady (notFull : out.1.verdict ≠ .full) :
    out.2.2.waiters = g.waiters ∧ out.2.2.nextWaiter = g.nextWaiter ∧
      out.2.2.version = g.version ∧ Steady g out.2.2 := by
  have full : (g.answerFull op waiter).1.verdict = .full := by
    cases waiter with
    | none => rfl
    | some waiter => rfl
  cases answers with
  | retired | passAhead | settled | refused => exact ⟨rfl, rfl, rfl, Steady.refl g⟩
  | behind => exact absurd full notFull
  | full => exact absurd full notFull
  | opened first active opens taken gate some empty =>
    by_cases is : len = 0
    · rw [(empty is).2]
      exact ⟨rfl, rfl, rfl, Steady.refl g⟩
    · rw [(some (Nat.pos_of_ne_zero is)).2]
      exact ⟨rfl, rfl, rfl, Steady.of_fence rfl rfl⟩
  | held first active fence closed op' =>
    refine ⟨rfl, rfl, rfl, rfl, ?_⟩
    intro kept is
    rw [Option.some.inj (is.symm.trans closed)]
    exact ⟨_, rfl, rfl, fun _ full => Fence.fits_push full op' len⟩

theorem Answers.stuck (full : out.1.verdict = .full) :
    out = g.answerFull op waiter ∧
      (g.First (waiter.map Waiter.id) → g.Blocked op len passes) := by
  cases answers with
  | behind active later => exact ⟨rfl, fun first => absurd first later⟩
  | full first blocked => exact ⟨rfl, fun _ => blocked⟩
  | _ => exact Verdict.noConfusion full

theorem Answers.retires (is : out.1.verdict = .retired) : g.retired := by
  cases answers with
  | retired retired => exact retired
  | behind | full =>
    cases waiter with
    | none => exact Verdict.noConfusion is
    | some waiter => exact Verdict.noConfusion is
  | _ => exact Verdict.noConfusion is

theorem Answers.taken (is : out.1.verdict.taken) :
    g.First (waiter.map Waiter.id) ∧ g.retired = false := by
  cases answers with
  | opened first active => exact ⟨first, active⟩
  | held first active => exact ⟨first, active⟩
  | refused first active => exact ⟨first, active⟩
  | behind | full =>
    cases waiter with
    | none => exact absurd is Bool.false_ne_true
    | some waiter => exact absurd is Bool.false_ne_true
  | _ => exact absurd is Bool.false_ne_true

end

/-- What an operation that concerns no waiter leaves alone. -/
structure Shifts (g g' : Gate T) : Prop where
  waiters : g'.waiters = g.waiters
  nextWaiter : g'.nextWaiter = g.nextWaiter
  retired : g.retired = true → g'.retired = true
  version : g'.version = (g.version + 1) % 2 ^ 64 ∨ g'.version = g.version ∧ Steady g g'

/-- An operation that does not concern the probe either, unless it retires the gate. -/
structure Plain (g g' : Gate T) : Prop extends Shifts g g' where
  probe : g'.probe = g.probe ∨ g'.retired = true

theorem Plain.refl (g : Gate T) : Plain g g :=
  ⟨⟨rfl, rfl, id, .inr ⟨rfl, Steady.refl g⟩⟩, .inl rfl⟩

theorem Plain.moved (g : Gate T) (fence : Option (Fence T)) :
    Plain g ({ g with fence := fence }.moved) :=
  ⟨⟨rfl, rfl, id, .inl rfl⟩, .inl rfl⟩

theorem close_plain (g : Gate T) (trigger : ℕ) : Plain g (g.close trigger).2 := by
  unfold close
  split
  · exact Plain.refl g
  · split
    · exact Plain.refl g
    · rename_i opens
      refine ⟨⟨rfl, rfl, id, .inr ⟨rfl, rfl, ?_⟩⟩, .inl rfl⟩
      intro fence closed
      cases opens.symm.trans closed

theorem popWhole_nothing {count heldBytes : ℕ} {held rest : List (T × ℕ)} {left : ℕ}
    (is : popWhole count held heldBytes = some ([], rest, left)) :
    rest = held ∧ left = heldBytes := by
  cases count with
  | zero =>
    rw [popWhole, Option.some.injEq] at is
    exact ⟨(Prod.mk.inj (Prod.mk.inj is).2).1.symm, (Prod.mk.inj (Prod.mk.inj is).2).2.symm⟩
  | succ count =>
    cases held with
    | nil =>
      rw [popWhole, Option.some.injEq] at is
      exact ⟨(Prod.mk.inj (Prod.mk.inj is).2).1.symm, (Prod.mk.inj (Prod.mk.inj is).2).2.symm⟩
    | cons front held =>
      rw [popWhole, Option.bind_eq_some_iff] at is
      rcases is with ⟨fewer, _, is⟩
      rw [Option.map_eq_some_iff] at is
      rcases is with ⟨popped, _, is⟩
      exact absurd (Prod.mk.inj is).1 (List.cons_ne_nil _ _)

theorem takeFront_nothing {fence rest : Fence T} {split : T → ℕ → T × T} {whole part : ℕ}
    (is : fence.takeFront split whole part = some ([], rest)) : rest = fence := by
  unfold Fence.takeFront at is
  rw [Option.bind_eq_some_iff] at is
  rcases is with ⟨⟨out, held, heldBytes⟩, popped, is⟩
  have keeps : out = [] → { fence with held := held, heldBytes := heldBytes } = fence := by
    intro absent
    rw [absent] at popped
    rcases popWhole_nothing popped with ⟨rfl, rfl⟩
    rfl
  simp only at is
  split at is
  · split at is
    · rw [Option.bind_eq_some_iff] at is
      rcases is with ⟨len, _, is⟩
      rw [Option.map_eq_some_iff] at is
      rcases is with ⟨left, _, is⟩
      exact absurd (Prod.mk.inj is).1 (List.append_ne_nil_of_right_ne_nil _ (List.cons_ne_nil _ _))
    · rw [← (Prod.mk.inj (Option.some.inj is)).2]
      exact keeps (Prod.mk.inj (Option.some.inj is)).1
  · rw [← (Prod.mk.inj (Option.some.inj is)).2]
    exact keeps (Prod.mk.inj (Option.some.inj is)).1

theorem released_plain (g : Gate T) {out : List T} (fence : Option (Fence T))
    (same : out = [] → ∀ kept, fence = some kept → g.fence = some kept) :
    Plain g (if !out.isEmpty || { g with fence := fence }.fence.isNone then
      { g with fence := fence }.moved else { g with fence := fence }) := by
  split
  · exact Plain.moved g _
  · rename_i still
    rw [Bool.not_eq_true, Bool.or_eq_false_iff, Bool.not_eq_false', List.isEmpty_iff,
      Option.isNone_eq_false_iff, Option.isSome_iff_exists] at still
    rcases still with ⟨none, kept, is⟩
    refine ⟨⟨rfl, rfl, id, .inr ⟨rfl, Steady.of_fence rfl ?_⟩⟩, .inl rfl⟩
    exact is.trans (same none kept is).symm

theorem releaseUntilIf_plain {authority opens : Bool} {measure : ℕ → T → Measure}
    {split : T → ℕ → T × T} {out : List T}
    (is : g.releaseUntilIf authority measure split opens = some (out, g')) : Plain g g' := by
  unfold releaseUntilIf at is
  split at is
  · rw [← (Prod.mk.inj (Option.some.inj is)).2]
    exact Plain.refl g
  · rename_i fence closed
    split at is
    · rw [← (Prod.mk.inj (Option.some.inj is)).2]
      exact Plain.refl g
    · rw [Option.map_eq_some_iff] at is
      rcases is with ⟨⟨out', rest⟩, takes, is⟩
      rw [← (Prod.mk.inj is).2]
      refine released_plain g _ ?_
      intro absent kept is
      rw [absent] at takes
      split at is
      · cases is
      · rw [← is, takeFront_nothing takes]
        exact closed

theorem refuseHeldIf_plain {authority candidate : T → Bool} {out : List T}
    (is : g.refuseHeldIf authority candidate = some (out, g')) : Plain g g' := by
  unfold refuseHeldIf at is
  split at is
  · rw [← (Prod.mk.inj (Option.some.inj is)).2]
    exact Plain.refl g
  · simp only at is
    split at is
    · rw [← (Prod.mk.inj (Option.some.inj is)).2]
      exact Plain.refl g
    · split at is
      · rw [← (Prod.mk.inj (Option.some.inj is)).2]
        exact Plain.refl g
      · rw [Option.map_eq_some_iff] at is
        rcases is with ⟨heldBytes, _, is⟩
        rw [← (Prod.mk.inj is).2]
        exact Plain.moved g _

theorem armSection_shifts {R : Type} (g : Gate T) (claim : ClaimId) (queued : Bool)
    (retired takenBack : R) (armed : GateStatus → Except R Unit) (trigger : ℕ) :
    Shifts g (g.armSection claim queued retired takenBack armed trigger).2 := by
  have same : ∀ probe, Shifts g { g with probe := probe } :=
    fun probe => ⟨rfl, rfl, id, .inr ⟨rfl, Steady.of_fence rfl rfl⟩⟩
  unfold armSection
  simp only
  split
  · exact same none
  · split
    · exact same g.probe
    · split
      · exact same none
      · exact ⟨rfl, rfl, id, .inl rfl⟩

/-- What an operation that concerns no waiter does. -/
theorem step_plain {op : GateOp T} (plain : op.plain) {traffic : Traffic T}
    (is : g.step op = some (traffic, g')) : Plain g g' := by
  cases op with
  | fence trigger =>
    rw [← (Prod.mk.inj (Option.some.inj is)).2]
    exact g.close_plain trigger
  | admitUnless | armSection | probeQueued | dropWaiter id => exact absurd plain Bool.false_ne_true
  | release =>
    rw [← (Prod.mk.inj (Option.some.inj is)).2]
    unfold release
    split
    · exact Plain.moved g none
    · exact Plain.refl g
  | releaseCut trigger split =>
    rw [step, Option.map_eq_some_iff] at is
    rcases is with ⟨⟨out, after⟩, is, same⟩
    rw [← (Prod.mk.inj same).2]
    unfold releaseCut at is
    split at is
    · rw [← (Prod.mk.inj (Option.some.inj is)).2]
      exact Plain.refl g
    · rw [Option.map_eq_some_iff] at is
      rcases is with ⟨rest, _, is⟩
      rw [← (Prod.mk.inj is).2]
      exact Plain.moved g _
  | releaseUntilIf authority measure split opens =>
    rw [step, Option.map_eq_some_iff] at is
    rcases is with ⟨⟨out, after⟩, is, same⟩
    rw [← (Prod.mk.inj same).2]
    exact releaseUntilIf_plain is
  | refuseHeldIf authority candidate =>
    rw [step, Option.map_eq_some_iff] at is
    rcases is with ⟨⟨out, after⟩, is, same⟩
    rw [← (Prod.mk.inj same).2]
    exact refuseHeldIf_plain is
  | openIfEmpty =>
    rw [← (Prod.mk.inj (Option.some.inj is)).2]
    unfold openIfEmpty
    split
    · exact Plain.moved g none
    · exact Plain.refl g
  | cutOpen op len trigger split =>
    rw [step, Option.map_eq_some_iff] at is
    rcases is with ⟨⟨answer, after⟩, is, same⟩
    have goes : Plain g after := by
      unfold cutOpen at is
      split at is
      · rw [← (Prod.mk.inj (Option.some.inj is)).2]
        exact Plain.refl g
      · split at is
        · rw [← (Prod.mk.inj (Option.some.inj is)).2]
          exact Plain.moved g _
        · rw [Option.map_eq_some_iff] at is
          rcases is with ⟨rest, _, is⟩
          rw [← (Prod.mk.inj is).2]
          exact Plain.moved g _
    cases answer with
    | ok out =>
      rw [← (Prod.mk.inj same).2]
      exact goes
    | error back =>
      rw [← (Prod.mk.inj same).2]
      exact goes
  | cutHold op len trigger =>
    have goes : Plain g (g.cutHold op len trigger).2 := by
      unfold cutHold
      split
      · exact Plain.refl g
      · exact Plain.moved g _
    rw [step] at is
    split at is
    · rename_i gate held
      rw [held] at goes
      rw [← (Prod.mk.inj (Option.some.inj is)).2]
      exact goes
    · rename_i gate refused
      rw [refused] at goes
      rw [← (Prod.mk.inj (Option.some.inj is)).2]
      exact goes
  | retireCounted =>
    have goes : Plain g g.retireCounted.2 := by
      unfold retireCounted
      split
      · exact Plain.refl g
      · exact ⟨⟨rfl, rfl, fun _ => rfl, .inl rfl⟩, .inr rfl⟩
    rw [step] at is
    split at is
    · rename_i gate retires
      rw [retires] at goes
      rw [← (Prod.mk.inj (Option.some.inj is)).2]
      exact goes
    · rename_i gate again
      rw [again] at goes
      rw [← (Prod.mk.inj (Option.some.inj is)).2]
      exact goes

end Gate

end AgentDeck.Probe
