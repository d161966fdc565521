import AgentDeck.Probe.Gate
import Mathlib.Algebra.BigOperators.Group.List.Basic
import Mathlib.Algebra.Order.Group.Nat
import Mathlib.Data.List.Basic

/-!
# The bytes that pass the gate

What each operation of the gate does with the bytes it holds. Ops have bytes of an arbitrary type;
an operation is lawful when its closures leave the bytes alone, but for a split, which takes off the
first ones.
-/

namespace AgentDeck.Probe

inductive ArmRefusal
  | retired
  | takenBack
  | refused
  deriving DecidableEq

/-- The operations of the gate, with the closures they are given. -/
inductive GateOp (T : Type)
  | fence (trigger : ℕ)
  | admitUnless (op : T) (len : ℕ) (waiter : Option Waiter) (passes : T → ℕ → Bool)
      (hold : T → Bool × T)
  | release
  | releaseCut (trigger : ℕ) (split : ℕ → T → Cutting T × T)
  | releaseUntilIf (authority : Bool) (measure : ℕ → T → Measure) (split : T → ℕ → T × T)
      (opens : Bool)
  | refuseHeldIf (authority candidate : T → Bool)
  | openIfEmpty
  | armSection (claim : ClaimId) (queued : Bool) (armed : GateStatus → Except ArmRefusal Unit)
      (trigger : ℕ)
  | probeQueued (claim : ClaimId)
  | cutOpen (op : T) (len trigger : ℕ) (split : ℕ → T → Cutting T × T)
  | cutHold (op : T) (len trigger : ℕ)
  | retireCounted
  | dropWaiter (id : ℕ)

/-- The ops an operation accepted as held, handed out, refused, and handed back on retirement. -/
structure Traffic (T : Type) where
  accepted : List T := []
  released : List T := []
  refused : List T := []
  returned : List T := []
  /-- The bytes a retirement counted. -/
  counted : Option ℕ := none

variable {T β : Type}

namespace Gate

def step (g : Gate T) : GateOp T → Option (Traffic T × Gate T)
  | .fence trigger => some ({}, (g.close trigger).2)
  | .admitUnless op len waiter passes hold =>
    match g.admitUnless op len waiter passes hold with
    | (.held, _, g) => some ({ accepted := [(hold op).2] }, g)
    | (_, _, g) => some ({}, g)
  | .release => some ({ released := g.release.1 }, g.release.2)
  | .releaseCut trigger split =>
    (g.releaseCut trigger split).map fun (out, g) => ({ released := out }, g)
  | .releaseUntilIf authority measure split opens =>
    (g.releaseUntilIf authority measure split opens).map fun (out, g) =>
      ({ released := out }, g)
  | .refuseHeldIf authority candidate =>
    (g.refuseHeldIf authority candidate).map fun (out, g) => ({ refused := out }, g)
  | .openIfEmpty => some ({}, g.openIfEmpty.2)
  | .armSection claim queued armed trigger =>
    some ({}, (g.armSection claim queued ArmRefusal.retired .takenBack armed trigger).2)
  | .probeQueued claim => some ({}, g.probeQueued claim)
  | .cutOpen op len trigger split =>
    (g.cutOpen op len trigger split).map fun
      | (.ok out, g) => ({ accepted := [op], released := out }, g)
      | (.error _, g) => ({}, g)
  | .cutHold op len trigger =>
    match g.cutHold op len trigger with
    | (.ok _, g) => some ({ accepted := [op] }, g)
    | (.error _, g) => some ({}, g)
  | .retireCounted =>
    match g.retireCounted with
    | (some (out, count), g) => some ({ returned := out, counted := some count }, g)
    | (none, g) => some ({}, g)
  | .dropWaiter id => some ({}, g.dropWaiter id)

end Gate

variable (bytes : T → List β)

/-- A split that takes off the first bytes of an op and leaves the rest. -/
def Cutting.Lawful (op : T) : Cutting T × T → Prop
  | (.whole, op') => bytes op' = bytes op
  | (.through, op') => bytes op' = bytes op
  | (.split front taken, rest) =>
    bytes front = (bytes op).take taken ∧ bytes rest = (bytes op).drop taken

/-- The lengths given are those of the ops, and the closures leave the bytes alone. -/
def GateOp.Lawful : GateOp T → Prop
  | .admitUnless op len _ _ hold => len = (bytes op).length ∧ ∀ op, bytes (hold op).2 = bytes op
  | .releaseCut _ split => ∀ call op, Cutting.Lawful bytes op (split call op)
  | .releaseUntilIf _ _ split _ => ∀ op count,
      bytes (split op count).1 = (bytes op).take count ∧
        bytes (split op count).2 = (bytes op).drop count
  | .cutOpen op len _ split =>
    len = (bytes op).length ∧ ∀ call op, Cutting.Lawful bytes op (split call op)
  | .cutHold op len _ => len = (bytes op).length
  | _ => True

def bytesOf (ops : List T) : List β := ops.flatMap bytes

def content (held : List (T × ℕ)) : List β := held.flatMap fun item => bytes item.1

def total (held : List (T × ℕ)) : ℕ := (held.map Prod.snd).sum

def Measured (held : List (T × ℕ)) : Prop := ∀ item ∈ held, item.2 = (bytes item.1).length

section Queues

variable {bytes}

theorem total_cons (op : T) (len : ℕ) (held : List (T × ℕ)) :
    total ((op, len) :: held) = len + total held := by
  simp only [total, List.map_cons, List.sum_cons]

theorem total_append (held more : List (T × ℕ)) :
    total (held ++ more) = total held + total more := by
  simp only [total, List.map_append, List.sum_append]

theorem content_append (held more : List (T × ℕ)) :
    content bytes (held ++ more) = content bytes held ++ content bytes more :=
  List.flatMap_append

theorem bytesOf_map_fst (held : List (T × ℕ)) :
    bytesOf bytes (held.map Prod.fst) = content bytes held := by
  simp only [bytesOf, content, List.flatMap_map]

theorem content_cons (op : T) (len : ℕ) (held : List (T × ℕ)) :
    content bytes ((op, len) :: held) = bytes op ++ content bytes held :=
  List.flatMap_cons

theorem bytesOf_cons (op : T) (ops : List T) :
    bytesOf bytes (op :: ops) = bytes op ++ bytesOf bytes ops :=
  List.flatMap_cons

theorem bytesOf_singleton (op : T) : bytesOf bytes [op] = bytes op :=
  List.flatMap_singleton bytes op

theorem bytesOf_append (ops more : List T) :
    bytesOf bytes (ops ++ more) = bytesOf bytes ops ++ bytesOf bytes more :=
  List.flatMap_append

variable {held : List (T × ℕ)}

theorem length_content (measured : Measured bytes held) :
    (content bytes held).length = total held := by
  induction held with
  | nil => rfl
  | cons item held ih =>
    rw [Measured, List.forall_mem_cons] at measured
    rw [total_cons, ← ih measured.2, measured.1, content, List.flatMap_cons, List.length_append]
    rfl

theorem checkedSub_total (len : ℕ) (held : List (T × ℕ)) :
    checkedSub (len + total held) len = some (total held) := by
  rw [checkedSub, if_pos (Nat.le_add_right _ _), Nat.add_sub_cancel_left]

theorem popWhole_eq (count : ℕ) (held : List (T × ℕ)) :
    popWhole count held (total held) =
      some ((held.take count).map Prod.fst, held.drop count, total (held.drop count)) := by
  induction count generalizing held with
  | zero => rfl
  | succ count ih =>
    cases held with
    | nil => rfl
    | cons item held =>
      rw [popWhole, total_cons, checkedSub_total, Option.bind_some, ih held]
      rfl

theorem drained_eq (held : List (T × ℕ)) (before : ℕ) :
    drained held (before + total held) = some before := by
  induction held generalizing before with
  | nil => rfl
  | cons item held ih =>
    have less : checkedSub (before + (item.2 + total held)) item.2 =
      some (before + total held) := by
      rw [checkedSub, if_pos (by omega)]
      congr 1
      omega
    rw [drained, total_cons, less]
    exact ih before

/-- What a release takes off the front of a queue, and what it leaves. -/
structure Takes (bytes : T → List β) (held : List (T × ℕ)) (out : List T)
    (rest : List (T × ℕ)) : Prop where
  content : content bytes held = bytesOf bytes out ++ content bytes rest
  measured : Measured bytes rest
  fewer : rest.length ≤ held.length
  less : total rest ≤ total held

def Strict (bytes : T → List β) (split : ℕ → T → Cutting T × T) : Prop :=
  ∀ call op front taken rest, split call op = (.split front taken, rest) →
    taken < (bytes op).length

def NonEmpty (held : List (T × ℕ)) : Prop := ∀ item ∈ held, 0 < item.2

theorem throughCut_takes {split : ℕ → T → Cutting T × T} (call : ℕ)
    (lawful : ∀ call op, Cutting.Lawful bytes op (split call op)) (measured : Measured bytes held) :
    ∃ out cut rest, throughCut split call held (total held) = some (out, cut, rest, total rest) ∧
      Takes bytes held out rest ∧ (cut = false → rest = []) ∧
      (NonEmpty held → Strict bytes split → NonEmpty rest) := by
  induction held generalizing call with
  | nil =>
    exact ⟨[], false, [], rfl, ⟨rfl, measured, le_rfl, le_rfl⟩, fun _ => rfl, fun full _ => full⟩
  | cons item held ih =>
    rcases item with ⟨op, len⟩
    rw [Measured, List.forall_mem_cons] at measured
    have law := lawful call op
    rw [throughCut, total_cons]
    rcases cut : split call op with ⟨cutting, rest⟩
    rw [cut] at law
    cases cutting with
    | whole =>
      rcases ih (call + 1) measured.2 with ⟨out, cut, left, eq, takes, opened, full⟩
      simp only [checkedSub_total, Option.bind_some, eq]
      refine ⟨rest :: out, cut, left, rfl, ⟨?_, takes.measured, ?_, ?_⟩, opened, ?_⟩
      · have same : bytes rest = bytes op := law
        rw [content_cons, takes.content, bytesOf_cons, same, List.append_assoc]
      · exact Nat.le_succ_of_le takes.fewer
      · exact Nat.le_add_left_of_le takes.less
      · intro nonEmpty strict
        rw [NonEmpty, List.forall_mem_cons] at nonEmpty
        exact full nonEmpty.2 strict
    | through =>
      simp only [checkedSub_total]
      refine ⟨[rest], true, held, rfl, ⟨?_, measured.2, ?_, ?_⟩, ?_, ?_⟩
      · have same : bytes rest = bytes op := law
        rw [content_cons, bytesOf_singleton, same]
      · exact Nat.le_succ _
      · exact Nat.le_add_left _ _
      · exact fun same => absurd same.symm Bool.false_ne_true
      · intro nonEmpty _
        rw [NonEmpty, List.forall_mem_cons] at nonEmpty
        exact nonEmpty.2
    | split front taken =>
      have len_eq : len = (bytes op).length := measured.1
      have within : min taken len ≤ len + total held := by omega
      simp only [checkedSub, within, ↓reduceIte, Option.map_some]
      have left : len + total held - min taken len = (len - min taken len) + total held := by
        omega
      refine ⟨[front], true, (rest, len - min taken len) :: held, ?_, ⟨?_, ?_, le_rfl, ?_⟩,
        ?_, ?_⟩
      · rw [total_cons, left]
      · rw [content_cons, content_cons, bytesOf_singleton, law.1, law.2, ← List.append_assoc,
          List.take_append_drop]
      · rw [Measured, List.forall_mem_cons]
        refine ⟨?_, measured.2⟩
        rw [law.2, List.length_drop, len_eq]
        omega
      · rw [total_cons, total_cons]
        omega
      · exact fun same => absurd same.symm Bool.false_ne_true
      · intro nonEmpty strict
        rw [NonEmpty, List.forall_mem_cons] at nonEmpty ⊢
        have short := strict call op front taken rest cut
        refine ⟨?_, nonEmpty.2⟩
        omega

theorem takes_drop (measured : Measured bytes held) (count : ℕ) :
    Takes bytes held ((held.take count).map Prod.fst) (held.drop count) where
  content := by
    rw [bytesOf_map_fst, ← content_append, List.take_append_drop]
  measured item mem := measured item (List.mem_of_mem_drop mem)
  fewer := by
    rw [List.length_drop]
    exact Nat.sub_le _ _
  less := by
    have whole : total (held.take count ++ held.drop count) = total held := by
      rw [List.take_append_drop]
    rw [total_append] at whole
    omega

theorem Fence.takeFront_takes {fence : Fence T} {split : T → ℕ → T × T} {whole part : ℕ}
    (counted : fence.heldBytes = total fence.held) (measured : Measured bytes fence.held)
    (lawful : ∀ op count, bytes (split op count).1 = (bytes op).take count ∧
      bytes (split op count).2 = (bytes op).drop count)
    (within : ∀ item, fence.held[whole]? = some item → part < item.2 ∨ part = 0) :
    ∃ out rest, fence.takeFront split whole part =
        some (out, { fence with held := rest, heldBytes := total rest }) ∧
      Takes bytes fence.held out rest ∧ (NonEmpty fence.held → NonEmpty rest) := by
  have takes := takes_drop measured whole
  simp only [Fence.takeFront, counted, popWhole_eq]
  have head : (fence.held.drop whole)[0]? = fence.held[whole]? := by
    rw [List.getElem?_drop, Nat.add_zero]
  have kept : NonEmpty fence.held → NonEmpty (fence.held.drop whole) :=
    fun full item mem => full item (List.mem_of_mem_drop mem)
  cases dropped : fence.held.drop whole with
  | nil =>
    rw [dropped] at takes kept
    exact ⟨_, [], rfl, takes, kept⟩
  | cons item rest =>
    rcases item with ⟨op, len⟩
    rw [dropped] at takes kept head
    by_cases cut : 0 < part
    · have short : part < len := by
        rcases within _ head.symm with short | none
        · exact short
        · omega
      have len_eq : len = (bytes op).length := takes.measured _ List.mem_cons_self
      have ofLen : part ≤ len := by omega
      have ofTotal : part ≤ len + total rest := by omega
      simp only [if_pos cut, total_cons, checkedSub, if_pos ofLen, if_pos ofTotal,
        Option.bind_some, Option.map_some]
      refine ⟨(fence.held.take whole).map Prod.fst ++ [(split op part).1],
        ((split op part).2, len - part) :: rest, ?_, ⟨?_, ?_, ?_, ?_⟩, ?_⟩
      · rw [total_cons, Nat.sub_add_comm ofLen]
      · rw [takes.content, bytesOf_append, bytesOf_singleton, content_cons, content_cons,
          (lawful op part).1, (lawful op part).2, List.append_assoc,
          ← List.append_assoc (List.take _ _), List.take_append_drop]
      · rw [Measured, List.forall_mem_cons]
        refine ⟨?_, fun item mem => takes.measured item (List.mem_cons_of_mem _ mem)⟩
        rw [(lawful op part).2, List.length_drop, len_eq]
      · exact takes.fewer
      · have less := takes.less
        rw [total_cons] at less ⊢
        omega
      · intro full
        have full := kept full
        rw [NonEmpty, List.forall_mem_cons] at full ⊢
        exact ⟨Nat.sub_pos_of_lt short, full.2⟩
    · simp only [if_neg cut]
      exact ⟨_, (op, len) :: rest, rfl, takes, kept⟩

theorem Fence.reach_within (fence : Fence T) (measure : ℕ → T → Measure) (opens : Bool) :
    ∀ item, fence.held[(fence.reach measure opens).1.1]? = some item →
      (fence.reach measure opens).1.2 < item.2 ∨ (fence.reach measure opens).1.2 = 0 := by
  intro item
  simp only [Fence.reach]
  split
  · exact fun _ => .inr rfl
  · split
    · rename_i op len is
      split
      · exact fun _ => .inr rfl
      · rename_i short
        intro found
        rw [is] at found
        rw [← Option.some.inj found]
        exact .inl (Nat.lt_of_not_le short)
    · rename_i is
      intro found
      cases is.symm.trans found

end Queues

end AgentDeck.Probe
