import AgentDeck.Lib.Runs
import AgentDeck.Probe.GateBytes

/-!
# The gate along a run

`Effect` says once what an operation of the gate does to the bytes it holds: what was held, then
what it accepted, is what it handed out, then what is held, then what it took back. Along a run the
bytes handed out and those still held are then the bytes accepted, in order, less those taken back.
-/

namespace AgentDeck.Probe

variable {T β : Type} {bytes : T → List β}

def Admission.isHeld : Admission T → Bool
  | .held => true
  | _ => false

namespace Gate

def held (g : Gate T) : List (T × ℕ) :=
  match g.fence with
  | some fence => fence.held
  | none => []

def heldBytes (g : Gate T) : ℕ :=
  match g.fence with
  | some fence => fence.heldBytes
  | none => 0

/-- The count is that of the ops held, each is as long as it says, and a retired gate has no
fence. -/
structure Sound (bytes : T → List β) (g : Gate T) : Prop where
  counted : g.heldBytes = total g.held
  measured : Measured bytes g.held
  retired : g.retired = true → g.fence = none

theorem Sound.fence {g : Gate T} {fence : Fence T} (sound : g.Sound bytes)
    (closed : g.fence = some fence) :
    g.held = fence.held ∧ fence.heldBytes = total fence.held ∧ Measured bytes fence.held ∧
      g.retired = false := by
  have held : g.held = fence.held := by rw [Gate.held, closed]
  have counted : g.heldBytes = fence.heldBytes := by rw [Gate.heldBytes, closed]
  refine ⟨held, ?_, ?_, ?_⟩
  · rw [← counted, ← held]
    exact sound.counted
  · rw [← held]
    exact sound.measured
  · rw [Bool.eq_false_iff]
    intro retired
    exact Option.some_ne_none fence (closed.symm.trans (sound.retired retired))

theorem held_of_none {g : Gate T} (opened : g.fence = none) : g.held = [] := by
  rw [held, opened]

end Gate

def Capped (held : List (T × ℕ)) : Prop :=
  held.length ≤ fenceOpsCap ∧ (total held ≤ fenceCap ∨ held.length = 1)

theorem Capped.of_le {held rest : List (T × ℕ)} (capped : Capped held)
    (fewer : rest.length ≤ held.length) (less : total rest ≤ total held) : Capped rest := by
  refine ⟨le_trans fewer capped.1, ?_⟩
  rcases capped.2 with small | single
  · exact .inl (le_trans less small)
  · rw [single] at fewer
    cases rest with
    | nil => exact .inl (Nat.zero_le _)
    | cons item rest => exact .inr (le_antisymm fewer (Nat.succ_le_succ (Nat.zero_le _)))

/-- A cut comes only while no fence is closed. -/
def GateOp.AtOpen (g : Gate T) : GateOp T → Prop
  | .cutOpen _ _ _ _ => g.fence = none
  | .cutHold _ _ _ => g.fence = none
  | _ => True

def GateOp.Leaves (bytes : T → List β) : GateOp T → Prop
  | .releaseCut _ split => Strict bytes split
  | .cutOpen op _ _ split => bytes op ≠ [] ∧ Strict bytes split
  | .cutHold op _ _ => bytes op ≠ []
  | _ => True

structure Effect (bytes : T → List β) (g : Gate T) (op : GateOp T) (traffic : Traffic T)
    (g' : Gate T) : Prop where
  sound : g'.Sound bytes
  conserves : content bytes g.held ++ bytesOf bytes traffic.accepted =
    bytesOf bytes traffic.released ++ content bytes g'.held ++
      (bytesOf bytes traffic.refused ++ bytesOf bytes traffic.returned)
  retired : g.retired = true → g'.retired = true ∧ traffic = {}
  counts : ∀ count ∈ traffic.counted, count = (bytesOf bytes traffic.returned).length ∧
    traffic.returned = g.held.map Prod.fst ∧ g'.retired = true
  capped : op.AtOpen g → Capped g.held → Capped g'.held
  nonEmpty : op.Leaves bytes → NonEmpty g.held → NonEmpty g'.held

namespace Effect

variable {g g' : Gate T} {op : GateOp T}

theorem still (sound : g.Sound bytes) (held : g'.held = g.held)
    (heldBytes : g'.heldBytes = g.heldBytes) (retired : g'.retired = g.retired)
    (opened : g.retired = true → g'.fence = none) : Effect bytes g op {} g' where
  sound := by
    refine ⟨?_, ?_, ?_⟩
    · rw [heldBytes, held]
      exact sound.counted
    · rw [held]
      exact sound.measured
    · rw [retired]
      exact opened
  conserves := by
    rw [held]
    simp only [bytesOf, List.flatMap_nil, List.nil_append]
  retired is := ⟨retired.trans is, rfl⟩
  counts _ mem := absurd mem (Option.not_mem_none _)
  capped _ capped := by rwa [held]
  nonEmpty _ full := by rwa [held]

theorem nothing (sound : g.Sound bytes) : Effect bytes g op {} g :=
  still sound rfl rfl rfl sound.retired

theorem releases {fence : Fence T} {out : List T} {rest : List (T × ℕ)} (sound : g.Sound bytes)
    (closed : g.fence = some fence) (takes : Takes bytes fence.held out rest)
    (held : g'.held = rest) (heldBytes : g'.heldBytes = total rest)
    (retired : g'.retired = g.retired)
    (full : op.Leaves bytes → NonEmpty fence.held → NonEmpty rest) :
    Effect bytes g op { released := out } g' := by
  rcases sound.fence closed with ⟨was, _, _, active⟩
  have inactive : g.retired ≠ true := Bool.eq_false_iff.mp active
  refine ⟨⟨?_, ?_, ?_⟩, ?_, ?_, ?_, ?_, ?_⟩
  · rw [heldBytes, held]
  · rw [held]
    exact takes.measured
  · rw [retired]
    exact fun is => absurd is inactive
  · rw [was, held, takes.content]
    simp only [bytesOf, List.flatMap_nil, List.append_nil]
  · exact fun is => absurd is inactive
  · exact fun _ mem => absurd mem (Option.not_mem_none _)
  · rw [was, held]
    exact fun _ capped => capped.of_le takes.fewer takes.less
  · rw [was, held]
    exact full

theorem accepts (op' : T) (len : ℕ) (sound : g.Sound bytes) (active : g.retired = false)
    (len_eq : len = (bytes op').length) (held : g'.held = g.held ++ [(op', len)])
    (heldBytes : g'.heldBytes = g.heldBytes + len) (retired : g'.retired = g.retired) {accepted : T}
    (same : bytes accepted = bytes op')
    (capped : op.AtOpen g → Capped g.held → Capped (g.held ++ [(op', len)]))
    (full : op.Leaves bytes → 0 < len) :
    Effect bytes g op { accepted := [accepted] } g' := by
  have inactive : g.retired ≠ true := Bool.eq_false_iff.mp active
  have last : total [(op', len)] = len := by rw [total_cons]; rfl
  refine ⟨⟨?_, ?_, ?_⟩, ?_, ?_, ?_, ?_, ?_⟩
  · rw [heldBytes, held, total_append, last, sound.counted]
  · rw [held, Measured, List.forall_mem_append]
    exact ⟨sound.measured, List.forall_mem_singleton.mpr len_eq⟩
  · rw [retired]
    exact fun is => absurd is inactive
  · rw [held, content_append, bytesOf_singleton, content_cons, same]
    simp only [bytesOf, content, List.flatMap_nil, List.append_nil, List.nil_append]
  · exact fun is => absurd is inactive
  · exact fun _ mem => absurd mem (Option.not_mem_none _)
  · rw [held]
    exact capped
  · intro leaves nonEmpty
    rw [held, NonEmpty, List.forall_mem_append]
    exact ⟨nonEmpty, List.forall_mem_singleton.mpr (full leaves)⟩

theorem cuts {op' : T} {len : ℕ} {out : List T} {rest : List (T × ℕ)} (active : g.retired = false)
    (opened : g.fence = none) (takes : Takes bytes [(op', len)] out rest) (held : g'.held = rest)
    (heldBytes : g'.heldBytes = total rest) (retired : g'.retired = g.retired)
    (full : op.Leaves bytes → NonEmpty rest) :
    Effect bytes g op { accepted := [op'], released := out } g' := by
  have inactive : g.retired ≠ true := Bool.eq_false_iff.mp active
  have was : g.held = [] := Gate.held_of_none opened
  refine ⟨⟨?_, ?_, ?_⟩, ?_, ?_, ?_, ?_, ?_⟩
  · rw [heldBytes, held]
  · rw [held]
    exact takes.measured
  · rw [retired]
    exact fun is => absurd is inactive
  · have content := takes.content
    rw [content_cons] at content
    rw [was, held, bytesOf_singleton, ← content]
    simp only [bytesOf, Probe.content, List.flatMap_nil, List.append_nil, List.nil_append]
  · exact fun is => absurd is inactive
  · exact fun _ mem => absurd mem (Option.not_mem_none _)
  · rw [held]
    intro _ _
    have alone : Capped [(op', len)] := ⟨Nat.succ_le_succ (Nat.zero_le 1023), .inr rfl⟩
    exact alone.of_le takes.fewer takes.less
  · rw [held]
    exact fun leaves _ => full leaves

end Effect

theorem capped_push {fence : Fence T} {op : T} {len : ℕ}
    (counted : fence.heldBytes = total fence.held) (fits : fence.fits len) :
    Capped (fence.held ++ [(op, len)]) := by
  have last : total [(op, len)] = len := by rw [total_cons]; rfl
  simp only [Fence.fits, Bool.or_eq_true, List.isEmpty_iff, Bool.and_eq_true,
    decide_eq_true_eq] at fits
  rcases fits with empty | ⟨few, small⟩
  · rw [empty]
    exact ⟨Nat.succ_le_succ (Nat.zero_le 1023), .inr rfl⟩
  · rw [Capped, List.length_append, total_append, ← counted]
    exact ⟨few, .inl small⟩

namespace Gate

variable {g : Gate T}

theorem admitUnless_cases (g : Gate T) (op : T) (len : ℕ) (waiter : Option Waiter)
    (passes : T → ℕ → Bool) (hold : T → Bool × T) :
    (∃ fence, g.fence = some fence ∧ g.retired = false ∧ 0 < len ∧ fence.fits len = true ∧
        g.admitUnless op len waiter passes hold =
          (.held, none, { g with fence := some (fence.push (hold op).2 len) })) ∨
      (g.admitUnless op len waiter passes hold).1.isHeld = false ∧
        (g.admitUnless op len waiter passes hold).2.2.fence = g.fence ∧
        (g.admitUnless op len waiter passes hold).2.2.retired = g.retired := by
  have full : (g.answerFull op waiter).1.isHeld = false ∧
      (g.answerFull op waiter).2.2.fence = g.fence ∧ (g.answerFull op waiter).2.2.retired =
        g.retired := by
    cases waiter with
    | none => exact ⟨rfl, rfl, rfl⟩
    | some waiter => exact ⟨rfl, rfl, rfl⟩
  unfold admitUnless
  split
  · exact .inr ⟨rfl, rfl, rfl⟩
  · rename_i active
    split
    · exact .inr ⟨rfl, rfl, rfl⟩
    · split
      · exact .inr ⟨rfl, rfl, rfl⟩
      · rename_i unsettled
        split
        · exact .inr full
        · split
          · split
            · exact .inr ⟨rfl, rfl, rfl⟩
            · exact .inr ⟨rfl, rfl, rfl⟩
          · rename_i fence closed
            split
            · rename_i fits
              have nonempty : 0 < len := by
                rw [closed] at unsettled
                exact Nat.pos_of_ne_zero fun empty => unsettled ⟨rfl, empty⟩
              cases answer : hold op with
              | mk taken op' =>
                cases taken with
                | true =>
                  exact .inl ⟨fence, closed, Bool.eq_false_iff.mpr active, nonempty, fits, rfl⟩
                | false => exact .inr ⟨rfl, rfl, rfl⟩
            · exact .inr full

variable (sound : g.Sound bytes)

include sound

theorem admitUnless_effect {op : T} {len : ℕ} {waiter : Option Waiter} {passes : T → ℕ → Bool}
    {hold : T → Bool × T} (lawful : (GateOp.admitUnless op len waiter passes hold).Lawful bytes) :
    ∃ traffic g', g.step (.admitUnless op len waiter passes hold) = some (traffic, g') ∧
      Effect bytes g (.admitUnless op len waiter passes hold) traffic g' := by
  rcases g.admitUnless_cases op len waiter passes hold with
    ⟨fence, closed, active, some, fits, is⟩ | ⟨notHeld, same, retired⟩
  · rcases sound.fence closed with ⟨held, counted, _, _⟩
    rw [step, is]
    refine ⟨_, _, rfl, ?_⟩
    refine Effect.accepts (hold op).2 len sound active ?_ ?_ ?_ ?_ ?_ ?_ ?_
    · rw [lawful.2]
      exact lawful.1
    · rw [held]
      rfl
    · rw [sound.counted, held, ← counted]
      rfl
    · rfl
    · rfl
    · intro _ _
      rw [held]
      exact capped_push counted fits
    · exact fun _ => some
  · refine ⟨{}, (g.admitUnless op len waiter passes hold).2.2, ?_, ?_⟩
    · rw [step]
      split
      · rename_i is
        rw [is] at notHeld
        cases notHeld
      · rename_i is
        rw [is]
    · refine Effect.still sound ?_ ?_ retired ?_
      · rw [Gate.held, Gate.held, same]
      · rw [Gate.heldBytes, Gate.heldBytes, same]
      · rw [same]
        exact sound.retired

theorem close_effect (trigger : ℕ) : Effect bytes g (.fence trigger) {} (g.close trigger).2 := by
  simp only [close]
  split
  · exact Effect.nothing sound
  · rename_i active
    split
    · exact Effect.nothing sound
    · rename_i opened
      refine Effect.still sound ?_ ?_ rfl fun retired => absurd retired active
      · rw [held_of_none opened]
        rfl
      · rw [Gate.heldBytes, Gate.heldBytes, opened]

theorem release_effect :
    Effect bytes g .release { released := g.release.1 } g.release.2 := by
  simp only [release]
  split
  · rename_i fence closed
    rcases sound.fence closed with ⟨_, _, measured, _⟩
    have takes := takes_drop measured fence.held.length
    rw [List.take_length, List.drop_length] at takes
    exact Effect.releases sound closed takes rfl rfl rfl
      fun _ _ _ mem => absurd mem List.not_mem_nil
  · exact Effect.nothing sound

theorem releaseCut_effect {trigger : ℕ} {split : ℕ → T → Cutting T × T}
    (lawful : (GateOp.releaseCut trigger split).Lawful bytes) :
    ∃ traffic g', g.step (.releaseCut trigger split) = some (traffic, g') ∧
      Effect bytes g (.releaseCut trigger split) traffic g' := by
  simp only [step, releaseCut]
  cases closed : g.fence with
  | none => exact ⟨_, _, rfl, Effect.nothing sound⟩
  | some fence =>
    rcases sound.fence closed with ⟨_, counted, measured, _⟩
    rcases throughCut_takes 0 lawful measured with ⟨out, cut, rest, is, takes, opened, full⟩
    simp only [counted, is]
    refine ⟨_, _, rfl, ?_⟩
    cases cut with
    | true =>
      exact Effect.releases sound closed takes rfl rfl rfl fun strict held => full held strict
    | false =>
      rw [opened rfl] at takes full
      exact Effect.releases sound closed takes rfl rfl rfl fun strict held => full held strict

theorem releaseUntilIf_effect {authority opens : Bool} {measure : ℕ → T → Measure}
    {split : T → ℕ → T × T}
    (lawful : (GateOp.releaseUntilIf authority measure split opens).Lawful bytes) :
    ∃ traffic g', g.step (.releaseUntilIf authority measure split opens) = some (traffic, g') ∧
      Effect bytes g (.releaseUntilIf authority measure split opens) traffic g' := by
  simp only [step, releaseUntilIf]
  cases closed : g.fence with
  | none => exact ⟨_, _, rfl, Effect.nothing sound⟩
  | some fence =>
    simp only
    split
    · exact ⟨_, _, rfl, Effect.nothing sound⟩
    · rcases sound.fence closed with ⟨_, counted, measured, _⟩
      rcases Fence.takeFront_takes counted measured lawful (fence.reach_within measure opens) with
        ⟨out, rest, is, takes, full⟩
      simp only [is]
      refine ⟨_, _, rfl, ?_⟩
      by_cases empty : (opens && !(fence.reach measure opens).2 && rest.isEmpty) = true
      · have absent : rest = [] := by
          simp only [Bool.and_eq_true, List.isEmpty_iff] at empty
          exact empty.2
        subst absent
        simp only [empty, ↓reduceIte, Option.isNone_none, Bool.or_true]
        exact Effect.releases sound closed takes rfl rfl rfl fun _ held => full held
      · simp only [empty, Bool.false_eq_true, ↓reduceIte]
        split
        · exact Effect.releases sound closed takes rfl rfl rfl fun _ held => full held
        · exact Effect.releases sound closed takes rfl rfl rfl fun _ held => full held

theorem refuseHeldIf_effect (authority candidate : T → Bool) :
    ∃ traffic g', g.step (.refuseHeldIf authority candidate) = some (traffic, g') ∧
      Effect bytes g (.refuseHeldIf authority candidate) traffic g' := by
  simp only [step, refuseHeldIf]
  cases closed : g.fence with
  | none => exact ⟨_, _, rfl, Effect.nothing sound⟩
  | some fence =>
    rcases sound.fence closed with ⟨was, counted, measured, active⟩
    have inactive : g.retired ≠ true := Bool.eq_false_iff.mp active
    simp only
    generalize fence.held.findIdx (fun item => candidate item.1) = first
    have parts : fence.held.take first ++ fence.held.drop first = fence.held :=
      List.take_append_drop first fence.held
    cases dropped : fence.held.drop first with
    | nil => exact ⟨_, _, rfl, Effect.nothing sound⟩
    | cons item rest =>
      rw [dropped] at parts
      simp only
      split
      · exact ⟨_, _, rfl, Effect.nothing sound⟩
      · have sum : fence.heldBytes = total (fence.held.take first) + total (item :: rest) := by
          rw [counted, ← total_append, parts]
        have drains : drained ((item.1, item.2) :: rest) fence.heldBytes =
            some (total (fence.held.take first)) := by
          rw [sum]
          exact drained_eq (item :: rest) (total (fence.held.take first))
        simp only [drains]
        refine ⟨_, _, rfl, ⟨rfl, ?_, ?_⟩, ?_, ?_, ?_, ?_, ?_⟩
        · exact fun item mem => measured item (List.mem_of_mem_take mem)
        · exact fun retired => absurd retired inactive
        · change content bytes g.held ++ [] = [] ++ content bytes (fence.held.take first) ++
            (bytesOf bytes ((item :: rest).map Prod.fst) ++ [])
          rw [was, bytesOf_map_fst, List.append_nil, List.append_nil, List.nil_append,
            ← content_append, parts]
        · exact fun retired => absurd retired inactive
        · exact fun _ mem => absurd mem (Option.not_mem_none _)
        · rw [was]
          intro _ capped
          refine capped.of_le (List.length_take_le' _ _) ?_
          rw [← counted, sum]
          exact Nat.le_add_right _ _
        · rw [was]
          exact fun _ full item mem => full item (List.mem_of_mem_take mem)

theorem openIfEmpty_effect : Effect bytes g .openIfEmpty {} g.openIfEmpty.2 := by
  simp only [openIfEmpty]
  split
  · rename_i empty
    cases closed : g.fence with
    | none =>
      rw [closed] at empty
      cases empty
    | some fence =>
      rcases sound.fence closed with ⟨held, counted, _, _⟩
      rw [closed] at empty
      have absent : fence.held = [] := List.isEmpty_iff.mp empty
      refine Effect.still sound ?_ ?_ rfl fun _ => rfl
      · rw [held, absent]
        rfl
      · rw [sound.counted, held, absent]
        rfl
  · exact Effect.nothing sound

theorem armSection_effect (claim : ClaimId) (queued : Bool)
    (armed : GateStatus → Except ArmRefusal Unit) (trigger : ℕ) :
    Effect bytes g (.armSection claim queued armed trigger) {}
      (g.armSection claim queued ArmRefusal.retired .takenBack armed trigger).2 := by
  simp only [armSection]
  split
  · exact Effect.still sound rfl rfl rfl sound.retired
  · rename_i active
    split
    · exact Effect.still sound rfl rfl rfl sound.retired
    · split
      · exact Effect.still sound rfl rfl rfl sound.retired
      · refine Effect.still sound ?_ ?_ rfl fun retired => absurd retired active
        · simp only [Gate.held]
          cases g.fence with
          | none => rfl
          | some fence => rfl
        · simp only [Gate.heldBytes]
          cases g.fence with
          | none => rfl
          | some fence => rfl

theorem cutHold_effect {op : T} {len trigger : ℕ}
    (lawful : (GateOp.cutHold op len trigger).Lawful bytes) :
    ∃ traffic g', g.step (.cutHold op len trigger) = some (traffic, g') ∧
      Effect bytes g (.cutHold op len trigger) traffic g' := by
  have len_eq : len = (bytes op).length := lawful
  simp only [step, cutHold]
  by_cases retired : g.retired = true
  · rw [if_pos retired]
    exact ⟨_, _, rfl, Effect.nothing sound⟩
  · rw [if_neg retired]
    refine ⟨_, _, rfl, ?_⟩
    refine Effect.accepts op len sound (Bool.eq_false_iff.mpr retired) len_eq ?_ ?_ ?_ ?_ ?_ ?_
    · simp only [Gate.held]
      cases g.fence with
      | none => rfl
      | some fence => rfl
    · simp only [Gate.heldBytes]
      cases g.fence with
      | none => rfl
      | some fence => rfl
    · rfl
    · rfl
    · intro opened _
      rw [held_of_none opened]
      exact ⟨Nat.succ_le_succ (Nat.zero_le 1023), .inr rfl⟩
    · intro leaves
      rw [len_eq]
      exact List.length_pos_of_ne_nil leaves

omit sound in
theorem retireCounted_eq (active : ¬ g.retired = true) :
    g.retireCounted = (some (g.held.map Prod.fst, g.heldBytes),
      { g with retired := true, probe := none, fence := none }.moved) := by
  simp only [retireCounted, if_neg active, Gate.held, Gate.heldBytes]
  cases g.fence with
  | none => rfl
  | some fence => rfl

theorem retireCounted_effect :
    ∃ traffic g', g.step .retireCounted = some (traffic, g') ∧
      Effect bytes g .retireCounted traffic g' := by
  rw [step]
  by_cases retired : g.retired = true
  · rw [retireCounted, if_pos retired]
    exact ⟨_, _, rfl, Effect.nothing sound⟩
  · rw [retireCounted_eq retired]
    refine ⟨_, _, rfl, ⟨rfl, fun _ mem => absurd mem List.not_mem_nil, fun _ => rfl⟩,
      ?_, ?_, ?_, ?_, ?_⟩
    · change content bytes g.held ++ [] = [] ++ [] ++ ([] ++ bytesOf bytes (g.held.map Prod.fst))
      rw [bytesOf_map_fst, List.append_nil]
      rfl
    · exact fun is => absurd is retired
    · intro count mem
      refine ⟨?_, rfl, rfl⟩
      rw [← Option.some.inj mem, bytesOf_map_fst, length_content sound.measured]
      exact sound.counted
    · exact fun _ _ => ⟨Nat.zero_le _, .inl (Nat.zero_le _)⟩
    · exact fun _ _ _ mem => absurd mem List.not_mem_nil

theorem cutOpen_effect {op : T} {len trigger : ℕ} {split : ℕ → T → Cutting T × T}
    (lawful : (GateOp.cutOpen op len trigger split).Lawful bytes) :
    ∃ traffic g', g.step (.cutOpen op len trigger split) = some (traffic, g') ∧
      Effect bytes g (.cutOpen op len trigger split) traffic g' := by
  simp only [step, cutOpen]
  by_cases retired : g.retired = true
  · rw [if_pos retired]
    exact ⟨_, _, rfl, Effect.nothing sound⟩
  · rw [if_neg retired]
    have active := Bool.eq_false_iff.mpr retired
    cases closed : g.fence with
    | some fence =>
      rcases sound.fence closed with ⟨was, counted, _, _⟩
      refine ⟨_, _, rfl, ?_⟩
      refine Effect.accepts op len sound active lawful.1 ?_ ?_ ?_ ?_ ?_ ?_
      · rw [was]
        rfl
      · rw [sound.counted, was, ← counted]
        rfl
      · rfl
      · rfl
      · intro opened _
        cases closed.symm.trans opened
      · intro leaves
        rw [lawful.1]
        exact List.length_pos_of_ne_nil leaves.1
    | none =>
      have measured : Measured bytes [(op, len)] := List.forall_mem_singleton.mpr lawful.1
      rcases throughCut_takes 0 lawful.2 measured with ⟨out, cut, rest, is, takes, opened, full⟩
      have alone : total [(op, len)] = len := total_cons op len []
      rw [alone] at is
      simp only [is]
      refine ⟨_, _, rfl, ?_⟩
      have kept : (GateOp.cutOpen op len trigger split).Leaves bytes → NonEmpty rest := by
        intro leaves
        refine full ?_ leaves.2
        rw [NonEmpty, List.forall_mem_singleton, lawful.1]
        exact List.length_pos_of_ne_nil leaves.1
      cases cut with
      | true => exact Effect.cuts active closed takes rfl rfl rfl kept
      | false =>
        rw [opened rfl] at takes kept
        exact Effect.cuts active closed takes rfl rfl rfl kept

theorem dropWaiter_effect (id : ℕ) : Effect bytes g (.dropWaiter id) {} (g.dropWaiter id) := by
  simp only [dropWaiter]
  split
  · exact Effect.still sound rfl rfl rfl sound.retired
  · exact Effect.nothing sound

theorem step_effect {op : GateOp T} (lawful : op.Lawful bytes) :
    ∃ traffic g', g.step op = some (traffic, g') ∧ Effect bytes g op traffic g' := by
  cases op with
  | fence trigger => exact ⟨_, _, rfl, close_effect sound trigger⟩
  | admitUnless op len waiter passes hold => exact admitUnless_effect sound lawful
  | release => exact ⟨_, _, rfl, release_effect sound⟩
  | releaseCut trigger split => exact releaseCut_effect sound lawful
  | releaseUntilIf authority measure split opens => exact releaseUntilIf_effect sound lawful
  | refuseHeldIf authority candidate => exact refuseHeldIf_effect sound authority candidate
  | openIfEmpty => exact ⟨_, _, rfl, openIfEmpty_effect sound⟩
  | armSection claim queued armed trigger =>
    exact ⟨_, _, rfl, armSection_effect sound claim queued armed trigger⟩
  | probeQueued claim => exact ⟨_, _, rfl, Effect.still sound rfl rfl rfl sound.retired⟩
  | cutOpen op len trigger split => exact cutOpen_effect sound lawful
  | cutHold op len trigger => exact cutHold_effect sound lawful
  | retireCounted => exact retireCounted_effect sound
  | dropWaiter id => exact ⟨_, _, rfl, dropWaiter_effect sound id⟩

end Gate

/-- The gate, the bytes accepted as held and not taken back since, and the bytes handed out. -/
structure Passage (T β : Type) where
  gate : Gate T
  kept : List β
  handed : List β

namespace Passage

def start : Passage T β where
  gate := .start
  kept := []
  handed := []

variable (bytes)

/-- One operation. What it takes back it takes off the end of what was accepted. -/
def step (p : Passage T β) (op : GateOp T) : Option (Passage T β) :=
  (p.gate.step op).map fun (traffic, gate) =>
    let accepted := p.kept ++ bytesOf bytes traffic.accepted
    let takenBack := bytesOf bytes traffic.refused ++ bytesOf bytes traffic.returned
    { gate := gate
      kept := accepted.take (accepted.length - takenBack.length)
      handed := p.handed ++ bytesOf bytes traffic.released }

def run (p : Passage T β) : List (GateOp T) → Option (Passage T β)
  | [] => some p
  | op :: ops => (p.step bytes op).bind fun p => p.run ops

/-- What was handed out, then what is held, is what was accepted and not taken back. -/
structure Conserves (bytes : T → List β) (p : Passage T β) : Prop where
  sound : p.gate.Sound bytes
  order : p.handed ++ content bytes p.gate.held = p.kept

theorem conserves_start : Conserves bytes (start : Passage T β) where
  sound := ⟨rfl, fun _ mem => absurd mem List.not_mem_nil,
    fun retired => absurd retired Bool.false_ne_true⟩
  order := rfl

/-- What one operation does: its effect on the gate, and on the bytes on either side of it. -/
structure Passes (bytes : T → List β) (p : Passage T β) (op : GateOp T) (traffic : Traffic T)
    (p' : Passage T β) : Prop where
  step : p.step bytes op = some p'
  gate : p.gate.step op = some (traffic, p'.gate)
  effect : Effect bytes p.gate op traffic p'.gate
  kept : p.kept ++ bytesOf bytes traffic.accepted =
    p'.kept ++ (bytesOf bytes traffic.refused ++ bytesOf bytes traffic.returned)
  handed : p'.handed = p.handed ++ bytesOf bytes traffic.released

variable {bytes}

theorem Conserves.step {p : Passage T β} (conserves : Conserves bytes p) {op : GateOp T}
    (lawful : op.Lawful bytes) :
    ∃ traffic p', Passes bytes p op traffic p' ∧ Conserves bytes p' := by
  rcases Gate.step_effect conserves.sound lawful with ⟨traffic, gate, is, effect⟩
  have accepted : p.kept ++ bytesOf bytes traffic.accepted =
      p.handed ++ bytesOf bytes traffic.released ++ content bytes gate.held ++
        (bytesOf bytes traffic.refused ++ bytesOf bytes traffic.returned) := by
    rw [← conserves.order, List.append_assoc, effect.conserves]
    simp only [List.append_assoc]
  have kept : (p.kept ++ bytesOf bytes traffic.accepted).take
      ((p.kept ++ bytesOf bytes traffic.accepted).length -
        (bytesOf bytes traffic.refused ++ bytesOf bytes traffic.returned).length) =
      p.handed ++ bytesOf bytes traffic.released ++ content bytes gate.held := by
    rw [accepted, List.length_append, Nat.add_sub_cancel, List.take_left]
  have next : p.step bytes op = some ⟨gate, p.handed ++ bytesOf bytes traffic.released ++
      content bytes gate.held, p.handed ++ bytesOf bytes traffic.released⟩ := by
    rw [Passage.step, is, Option.map_some]
    simp only [kept]
  exact ⟨traffic, _, ⟨next, is, effect, accepted, rfl⟩, ⟨effect.sound, rfl⟩⟩

/-- Each step of a run, with the states before and after it. -/
def EachStep (bytes : T → List β) (p : Passage T β) (ops : List (GateOp T))
    (holds : Passage T β → GateOp T → Traffic T → Passage T β → Prop) : Prop :=
  ∀ past op rest, ops = past ++ op :: rest → ∃ before traffic after,
    p.run bytes past = some before ∧ before.gate.step op = some (traffic, after.gate) ∧
      before.step bytes op = some after ∧ holds before op traffic after

theorem Conserves.run {p : Passage T β} (conserves : Conserves bytes p) {ops : List (GateOp T)}
    (lawful : ∀ op ∈ ops, op.Lawful bytes) :
    ∃ p', p.run bytes ops = some p' ∧ Conserves bytes p' ∧
      EachStep bytes p ops fun before op traffic after => Passes bytes before op traffic after := by
  induction ops generalizing p with
  | nil =>
    refine ⟨p, rfl, conserves, ?_⟩
    intro past op rest split
    exact absurd split.symm (List.append_ne_nil_of_right_ne_nil past (List.cons_ne_nil op rest))
  | cons first ops ih =>
    rw [List.forall_mem_cons] at lawful
    rcases conserves.step lawful.1 with ⟨traffic, next, passes, conserves'⟩
    rcases ih conserves' lawful.2 with ⟨last, is, final, each⟩
    refine ⟨last, ?_, final, ?_⟩
    · rw [Passage.run, passes.step]
      exact is
    · intro past op rest split
      cases past with
      | nil =>
        rcases List.cons.inj split with ⟨rfl, rfl⟩
        exact ⟨p, traffic, next, rfl, passes.gate, passes.step, passes⟩
      | cons early past =>
        rcases List.cons.inj split with ⟨rfl, rfl⟩
        rcases each past op rest rfl with ⟨before, traffic', after, was, gate, step, holds⟩
        refine ⟨before, traffic', after, ?_, gate, step, holds⟩
        rw [Passage.run, passes.step]
        exact was

theorem run_keeps (holds : Gate T → Prop) (admissible : Passage T β → GateOp T → Prop)
    (keeps : ∀ before op traffic after, Passes bytes before op traffic after →
      admissible before op → holds before.gate → holds after.gate)
    {p : Passage T β} (conserves : Conserves bytes p) {ops : List (GateOp T)}
    (lawful : ∀ op ∈ ops, op.Lawful bytes)
    (along : ∀ past op rest before, ops = past ++ op :: rest → p.run bytes past = some before →
      admissible before op) {p' : Passage T β} (is : p.run bytes ops = some p')
    (start : holds p.gate) : holds p'.gate := by
  induction ops generalizing p with
  | nil =>
    rw [← Option.some.inj is]
    exact start
  | cons first ops ih =>
    rw [List.forall_mem_cons] at lawful
    rcases conserves.step lawful.1 with ⟨traffic, next, passes, conserves'⟩
    rw [Passage.run, passes.step] at is
    refine ih conserves' lawful.2 ?_ is ?_
    · intro past op rest before split was
      refine along (first :: past) op rest before (by rw [split]; rfl) ?_
      rw [Passage.run, passes.step]
      exact was
    · exact keeps p first traffic next passes (along [] first ops p rfl rfl) start

end Passage

/-- The gate neither loses, nor duplicates, nor reorders a byte. -/
theorem gate_keeps_every_byte (bytes : T → List β) (ops : List (GateOp T))
    (lawful : ∀ op ∈ ops, op.Lawful bytes) :
    ∃ p, Passage.start.run bytes ops = some p ∧
      (p.gate.heldBytes = total p.gate.held ∧ Measured bytes p.gate.held) ∧
      p.handed ++ content bytes p.gate.held = p.kept ∧
      (Passage.start.EachStep bytes ops fun before _ traffic after =>
        before.kept ++ bytesOf bytes traffic.accepted =
            after.kept ++ (bytesOf bytes traffic.refused ++ bytesOf bytes traffic.returned) ∧
          after.handed = before.handed ++ bytesOf bytes traffic.released ∧
          (before.gate.retired = true → after.gate.retired = true ∧ traffic = {} ∧
            ∀ op len waiter passes hold,
              (before.gate.admitUnless op len waiter passes hold).1 = .retired op) ∧
          ∀ count ∈ traffic.counted, count = (bytesOf bytes traffic.returned).length ∧
            traffic.returned = before.gate.held.map Prod.fst ∧ after.gate.retired = true) ∧
      ((∀ past op rest before, ops = past ++ op :: rest →
          Passage.start.run bytes past = some before → op.AtOpen before.gate) →
        p.gate.held.length ≤ fenceOpsCap ∧
          (p.gate.heldBytes ≤ fenceCap ∨ p.gate.held.length = 1)) ∧
      ((∀ op ∈ ops, op.Leaves bytes) → ∀ item ∈ p.gate.held, item.2 ≠ 0) := by
  rcases (Passage.conserves_start bytes).run lawful with ⟨p, is, conserves, each⟩
  refine ⟨p, is, ⟨conserves.sound.counted, conserves.sound.measured⟩, conserves.order, ?_, ?_, ?_⟩
  · intro past op rest split
    rcases each past op rest split with ⟨before, traffic, after, was, gate, step, passes⟩
    refine ⟨before, traffic, after, was, gate, step, passes.kept, passes.handed, ?_,
      passes.effect.counts⟩
    intro retired
    rcases passes.effect.retired retired with ⟨stays, nothing⟩
    refine ⟨stays, nothing, ?_⟩
    intro op len waiter passes hold
    rw [Gate.admitUnless, if_pos retired]
  · intro atOpen
    rw [conserves.sound.counted]
    exact Passage.run_keeps (fun gate => Capped gate.held) (fun before op => op.AtOpen before.gate)
      (fun _ _ _ _ passes => passes.effect.capped) (Passage.conserves_start bytes) lawful atOpen is
      ⟨Nat.zero_le _, .inl (Nat.zero_le _)⟩
  · intro leaves item mem
    have full := Passage.run_keeps (fun gate => NonEmpty gate.held)
      (fun _ op => op.Leaves bytes) (fun _ _ _ _ passes => passes.effect.nonEmpty)
      (Passage.conserves_start bytes) lawful (fun past op rest _ split _ => leaves op (by
        rw [split]
        exact List.mem_append_right _ List.mem_cons_self)) is
      (fun _ mem => absurd mem List.not_mem_nil)
    exact Nat.ne_of_gt (full item mem)

/-- A cut op of three bytes, a second op, a release of one byte, a refusal and a retirement. -/
def cutRefusedRetired : List (GateOp (List ℕ)) :=
  [.cutHold [1, 2, 3] 3 0,
    .admitUnless [4, 5] 2 none (fun _ _ => false) fun op => (true, op),
    .releaseCut 9 fun _ op => (.split (op.take 1) 1, op.drop 1),
    .refuseHeldIf (fun _ => true) fun op => op.contains 4,
    .retireCounted]

theorem cutRefusedRetired_lawful : ∀ op ∈ cutRefusedRetired, op.Lawful id := by
  simp only [cutRefusedRetired, List.forall_mem_cons, List.not_mem_nil, false_implies,
    implies_true, and_true]
  exact ⟨rfl, ⟨rfl, fun _ => rfl⟩, fun _ _ => ⟨rfl, rfl⟩, trivial, trivial⟩

theorem gate_keeps_every_byte_to_retirement :
    ∃ p, Passage.start.run id cutRefusedRetired = some p ∧
      p.handed ++ content id p.gate.held = p.kept := by
  rcases gate_keeps_every_byte id cutRefusedRetired cutRefusedRetired_lawful with
    ⟨p, is, _, order, _⟩
  exact ⟨p, is, order⟩

/-- A cut holds the op it is given, also one without a byte. -/
theorem gate_holds_empty_ops :
    ¬ ∀ ops : List (GateOp (List ℕ)), (∀ op ∈ ops, op.Lawful id) →
      ∃ p, Passage.start.run id ops = some p ∧ ∀ item ∈ p.gate.held, item.2 ≠ 0 := by
  intro all
  have lawful : ∀ op ∈ [GateOp.cutHold ([] : List ℕ) 0 0], op.Lawful id :=
    List.forall_mem_singleton.mpr rfl
  rcases all _ lawful with ⟨p, is, full⟩
  have held : p.gate.held = [([], 0)] := by
    rw [← Option.some.inj is]
    rfl
  rw [held] at full
  exact full _ List.mem_cons_self rfl

end AgentDeck.Probe
