import Mathlib.Data.List.Nodup
import Mathlib.Data.List.Perm.Basic
import Mathlib.Data.List.Range
import Mathlib.Logic.Relation
import Mathlib.Order.Basic

/-!
# A serial queue

Tickets join at the back of a queue. Only the one at the front is given a number, the next one; it
is sent at most once, and a ticket closes under a label. `Fresh` says with what mark a ticket may
join, `Allowed` what it must be to close under a label, and its mark only ever grows.
-/

namespace AgentDeck.Serial

variable {γ β : Type*}

/-- A ticket; `tag` counts the ones that joined before it. -/
structure Ticket (γ : Type*) where
  tag : ℕ
  number : Option ℕ
  sent : Bool
  mark : γ

/-- A closed ticket. -/
structure Closed (β : Type*) where
  tag : ℕ
  number : Option ℕ
  label : β

/-- The open tickets, and what became of the others: which closed, in order; which numbers were
handed out and which were sent. -/
structure Queue (γ β : Type*) where
  waiting : List (Ticket γ)
  last : ℕ
  joined : ℕ
  log : List (Closed β)
  handed : List ℕ
  sent : List ℕ

def Ticket.close (t : Ticket γ) (label : β) : Closed β := ⟨t.tag, t.number, label⟩

namespace Queue

def empty : Queue γ β := ⟨[], 0, 0, [], [], []⟩

def join (q : Queue γ β) (mark : γ) : Queue γ β :=
  { q with
    waiting := q.waiting ++ [⟨q.joined, none, false, mark⟩]
    joined := q.joined + 1 }

def hand (q : Queue γ β) (t : Ticket γ) (rest : List (Ticket γ)) : Queue γ β :=
  { q with
    waiting := { t with number := some (q.last + 1) } :: rest
    last := q.last + 1
    handed := q.handed ++ [q.last + 1] }

def send (q : Queue γ β) (before : List (Ticket γ)) (t : Ticket γ) (after : List (Ticket γ))
    (n : ℕ) : Queue γ β :=
  { q with
    waiting := before ++ { t with sent := true } :: after
    sent := q.sent ++ [n] }

def mark (q : Queue γ β) (before : List (Ticket γ)) (t : Ticket γ) (after : List (Ticket γ))
    (mark : γ) : Queue γ β :=
  { q with waiting := before ++ { t with mark := mark } :: after }

def close (q : Queue γ β) (before : List (Ticket γ)) (t : Ticket γ) (after : List (Ticket γ))
    (label : β) : Queue γ β :=
  { q with
    waiting := before ++ after
    log := q.log ++ [t.close label] }

end Queue

section Soundness

variable (cap : ℕ) (Allowed : Ticket γ → β → Prop)

/-- What the queue keeps, move after move. -/
structure Sound (q : Queue γ β) : Prop where
  room : q.waiting.length ≤ cap
  behind : ∀ t ∈ q.waiting.tail, t.number = none
  unsent : ∀ t ∈ q.waiting, t.number = none → t.sent = false
  front : ∀ t ∈ q.waiting, ∀ n ∈ t.number, n = q.last ∧ (t.sent = true ↔ n ∈ q.sent) ∧
    ∀ c ∈ q.log, ∀ k ∈ c.number, k < n
  handed : q.handed = List.range' 1 q.last
  bound : ∀ n ∈ q.sent, n ≤ q.last
  closedBound : ∀ c ∈ q.log, ∀ n ∈ c.number, n ≤ q.last
  tags : (q.log.map Closed.tag ++ q.waiting.map Ticket.tag).Perm (List.range q.joined)
  truthful : ∀ c ∈ q.log, ∃ t : Ticket γ, t.tag = c.tag ∧ t.number = c.number ∧
    Allowed t c.label ∧ (t.sent = true → ∃ n ∈ c.number, n ∈ q.sent) ∧
    (t.sent = false → ∀ n ∈ c.number, n ∉ q.sent)

variable {cap Allowed}

theorem empty_sound : Sound cap Allowed (Queue.empty : Queue γ β) where
  room := Nat.zero_le _
  behind _ mem := absurd mem List.not_mem_nil
  unsent _ mem := absurd mem List.not_mem_nil
  front _ mem := absurd mem List.not_mem_nil
  handed := rfl
  bound _ mem := absurd mem List.not_mem_nil
  closedBound _ mem := absurd mem List.not_mem_nil
  tags := List.Perm.nil
  truthful _ mem := absurd mem List.not_mem_nil

namespace Sound

variable {q : Queue γ β}

theorem join (sound : Sound cap Allowed q) (mark : γ) (room : q.waiting.length < cap) :
    Sound cap Allowed (q.join mark) where
  room := by
    simp only [Queue.join, List.length_append, List.length_singleton]
    omega
  behind t mem := by
    simp only [Queue.join] at mem
    cases waits : q.waiting with
    | nil =>
      rw [waits] at mem
      cases mem
    | cons first rest =>
      rw [waits, List.cons_append, List.tail_cons, List.mem_append, List.mem_singleton] at mem
      rcases mem with mem | rfl
      · exact sound.behind t (by rw [waits]; exact mem)
      · rfl
  unsent t mem unnumbered := by
    rcases List.mem_append.mp mem with mem | mem
    · exact sound.unsent t mem unnumbered
    · rw [List.mem_singleton.mp mem]
  front t mem n is := by
    rcases List.mem_append.mp mem with mem | mem
    · exact sound.front t mem n is
    · rw [List.mem_singleton.mp mem] at is
      cases is
  handed := sound.handed
  bound := sound.bound
  closedBound := sound.closedBound
  tags := by
    simp only [Queue.join, List.map_append, List.range_succ, ← List.append_assoc]
    exact sound.tags.append_right _
  truthful := sound.truthful

variable {t : Ticket γ}

theorem hand (sound : Sound cap Allowed q) {rest : List (Ticket γ)} (front : q.waiting = t :: rest)
    (unnumbered : t.number = none) : Sound cap Allowed (q.hand t rest) := by
  have here : t ∈ q.waiting := by rw [front]; exact List.mem_cons_self
  have behind : ∀ other ∈ rest, other.number = none := by
    intro other mem
    exact sound.behind other (by rw [front]; exact mem)
  have unsent := sound.unsent t here unnumbered
  have fresh : q.last + 1 ∉ q.sent := by
    intro mem
    have := sound.bound _ mem
    omega
  refine ⟨?_, behind, ?_, ?_, ?_, ?_, ?_, ?_, sound.truthful⟩
  · have room := sound.room
    rw [front] at room
    exact room
  · intro other mem absent
    rcases List.mem_cons.mp mem with rfl | mem
    · exact unsent
    · exact sound.unsent other (by rw [front]; exact List.mem_cons_of_mem _ mem) absent
  · intro other mem n is
    rcases List.mem_cons.mp mem with rfl | mem
    · have same : q.last + 1 = n := Option.some.inj is
      subst same
      refine ⟨rfl, ?_, ?_⟩
      · simp only [unsent, Bool.false_eq_true, false_iff]
        exact fresh
      · intro c closed k numbered
        have := sound.closedBound c closed k numbered
        omega
    · rw [behind other mem] at is
      cases is
  · simp only [Queue.hand, sound.handed, List.range'_1_concat]
    rw [Nat.add_comm 1 q.last]
  · intro n mem
    have := sound.bound n mem
    simp only [Queue.hand]
    omega
  · intro c closed n is
    have := sound.closedBound c closed n is
    simp only [Queue.hand]
    omega
  · have tags := sound.tags
    rw [front] at tags
    exact tags

variable {before after : List (Ticket γ)}

theorem send (sound : Sound cap Allowed q) {n : ℕ} (place : q.waiting = before ++ t :: after)
    (number : t.number = some n) : Sound cap Allowed (q.send before t after n) := by
  have here : t ∈ q.waiting := by rw [place]; exact List.mem_append_cons_self
  have atFront := sound.front t here n number
  -- a ticket with a number is the front one
  have first : before = [] := by
    cases before with
    | nil => rfl
    | cons other before =>
      have absent := sound.behind t (by
        rw [place]
        exact List.mem_append_cons_self)
      rw [number] at absent
      cases absent
  subst first
  have behind : ∀ other ∈ after, other.number = none := by
    intro other mem
    exact sound.behind other (by rw [place]; exact mem)
  refine ⟨?_, behind, ?_, ?_, sound.handed, ?_, sound.closedBound, ?_, ?_⟩
  · have room := sound.room
    rw [place] at room
    exact room
  · intro other mem absent
    rcases List.mem_cons.mp mem with rfl | mem
    · rw [number] at absent
      cases absent
    · exact sound.unsent other (by rw [place]; exact List.mem_cons_of_mem _ mem) absent
  · intro other mem k is
    rcases List.mem_cons.mp mem with rfl | mem
    · have same : n = k := Option.some.inj (number.symm.trans is)
      subst same
      refine ⟨atFront.1, ?_, atFront.2.2⟩
      simp only [Queue.send, List.mem_append, List.mem_singleton, or_true]
    · rw [behind other mem] at is
      cases is
  · intro k mem
    rcases List.mem_append.mp mem with mem | mem
    · exact sound.bound k mem
    · rw [List.mem_singleton.mp mem, atFront.1]
      exact Nat.le_refl _
  · have tags := sound.tags
    rw [place] at tags
    exact tags
  · intro c closed
    rcases sound.truthful c closed with ⟨was, tag, same, allowed, sent, unsent⟩
    refine ⟨was, tag, same, allowed, ?_, ?_⟩
    · intro isSent
      rcases sent isSent with ⟨k, numbered, mem⟩
      exact ⟨k, numbered, List.mem_append_left _ mem⟩
    · intro notSent k numbered mem
      rcases List.mem_append.mp mem with mem | mem
      · exact unsent notSent k numbered mem
      · have below := atFront.2.2 c closed k numbered
        rw [List.mem_singleton.mp mem] at below
        exact Nat.lt_irrefl n below

theorem mark (sound : Sound cap Allowed q) (place : q.waiting = before ++ t :: after) (mark : γ) :
    Sound cap Allowed (q.mark before t after mark) := by
  -- each ticket of the new queue has the tag, the number and the sending of one of the old queue
  have similar : ∀ other ∈ (q.mark before t after mark).waiting, ∃ was ∈ q.waiting,
      was.number = other.number ∧ was.sent = other.sent := by
    intro other mem
    rw [place]
    simp only [Queue.mark, List.mem_append, List.mem_cons] at mem ⊢
    rcases mem with mem | rfl | mem
    · exact ⟨other, .inl mem, rfl, rfl⟩
    · exact ⟨t, .inr (.inl rfl), rfl, rfl⟩
    · exact ⟨other, .inr (.inr mem), rfl, rfl⟩
  refine ⟨?_, ?_, ?_, ?_, sound.handed, sound.bound, sound.closedBound, ?_, sound.truthful⟩
  · have room := sound.room
    rw [place] at room
    simp only [Queue.mark, List.length_append] at room ⊢
    exact room
  · intro other mem
    have behind := sound.behind
    rw [place] at behind
    simp only [Queue.mark] at mem
    cases before with
    | nil => exact behind other mem
    | cons first before =>
      rw [List.cons_append, List.tail_cons, List.mem_append, List.mem_cons] at mem
      simp only [List.cons_append, List.tail_cons, List.mem_append, List.mem_cons] at behind
      rcases mem with mem | rfl | mem
      · exact behind other (.inl mem)
      · exact behind t (.inr (.inl rfl))
      · exact behind other (.inr (.inr mem))
  · intro other mem absent
    rcases similar other mem with ⟨was, there, number, sent⟩
    rw [← sent]
    exact sound.unsent was there (number.trans absent)
  · intro other mem n is
    rcases similar other mem with ⟨was, there, number, sent⟩
    rw [← sent]
    rw [← number] at is
    exact sound.front was there n is
  · have tags := sound.tags
    rw [place] at tags
    simp only [Queue.mark, List.map_append] at tags ⊢
    exact tags

theorem close (sound : Sound cap Allowed q) {label : β} (place : q.waiting = before ++ t :: after)
    (allowed : Allowed t label) : Sound cap Allowed (q.close before t after label) := by
  have here : t ∈ q.waiting := by rw [place]; exact List.mem_append_cons_self
  have stays : ∀ other ∈ before ++ after, other ∈ q.waiting := by
    intro other mem
    rw [place]
    simp only [List.mem_append, List.mem_cons] at mem ⊢
    rcases mem with mem | mem
    · exact .inl mem
    · exact .inr (.inr mem)
  -- what stays behind the closed ticket, or in front of it, beside a front one
  have tailStays : ∀ other ∈ (before ++ after).tail, other ∈ q.waiting.tail := by
    intro other mem
    rw [place]
    cases before with
    | nil => exact List.mem_of_mem_tail mem
    | cons first before =>
      simp only [List.cons_append, List.tail_cons, List.mem_append, List.mem_cons] at mem ⊢
      rcases mem with mem | mem
      · exact .inl mem
      · exact .inr (.inr mem)
  refine ⟨?_, ?_, ?_, ?_, sound.handed, sound.bound, ?_, ?_, ?_⟩
  · have room := sound.room
    rw [place] at room
    simp only [Queue.close, List.length_append, List.length_cons] at room ⊢
    omega
  · intro other mem
    exact sound.behind other (tailStays other mem)
  · intro other mem absent
    exact sound.unsent other (stays other mem) absent
  · intro other mem n is
    have atFront := sound.front other (stays other mem) n is
    refine ⟨atFront.1, atFront.2.1, ?_⟩
    intro c closed k numbered
    rcases List.mem_append.mp closed with closed | closed
    · exact atFront.2.2 c closed k numbered
    · -- of two open tickets at most one has a number
      rw [List.mem_singleton.mp closed] at numbered
      exfalso
      cases before with
      | nil =>
        have absent := sound.behind other (by rw [place]; exact mem)
        rw [absent] at is
        exact Option.not_mem_none n is
      | cons first before =>
        have absent := sound.behind t (by
          rw [place]
          exact List.mem_append_cons_self)
        simp only [Ticket.close, absent] at numbered
        exact Option.not_mem_none k numbered
  · intro c closed n is
    rcases List.mem_append.mp closed with closed | closed
    · exact sound.closedBound c closed n is
    · rw [List.mem_singleton.mp closed] at is
      exact Nat.le_of_eq (sound.front t here n is).1
  · have tags := sound.tags
    rw [place] at tags
    refine List.Perm.trans ?_ tags
    simp only [Queue.close, List.map_append, List.map_cons, List.map_nil, List.append_assoc,
      List.singleton_append]
    exact List.perm_middle.symm.append_left _
  · intro c closed
    rcases List.mem_append.mp closed with closed | closed
    · exact sound.truthful c closed
    · rw [List.mem_singleton.mp closed]
      refine ⟨t, rfl, rfl, allowed, ?_, ?_⟩
      · intro isSent
        cases number : t.number with
        | none =>
          have unsent := sound.unsent t here number
          rw [unsent] at isSent
          cases isSent
        | some n => exact ⟨n, number, (sound.front t here n number).2.1.mp isSent⟩
      · intro notSent n is mem
        have isSent := (sound.front t here n is).2.1.mpr mem
        rw [notSent] at isSent
        exact Bool.false_ne_true isSent

/-- Every ticket that joined is open or closed, and once. -/
theorem tags_nodup (sound : Sound cap Allowed q) :
    (q.log.map Closed.tag ++ q.waiting.map Ticket.tag).Nodup :=
  sound.tags.nodup_iff.mpr List.nodup_range

end Sound

end Soundness

section Moves

variable [Preorder γ] (cap : ℕ) (Fresh : γ → Prop) (Allowed : Ticket γ → β → Prop)

/-- One move of the queue. -/
inductive Moves (q : Queue γ β) : Queue γ β → Prop
  | join {mark : γ} (fresh : Fresh mark) (room : q.waiting.length < cap) : Moves q (q.join mark)
  | hand {t : Ticket γ} {rest : List (Ticket γ)} (front : q.waiting = t :: rest)
      (unnumbered : t.number = none) : Moves q (q.hand t rest)
  | send {before after : List (Ticket γ)} {t : Ticket γ} {n : ℕ}
      (place : q.waiting = before ++ t :: after) (number : t.number = some n)
      (unsent : t.sent = false) : Moves q (q.send before t after n)
  | mark {before after : List (Ticket γ)} {t : Ticket γ} {mark : γ}
      (place : q.waiting = before ++ t :: after) (grows : t.mark ≤ mark) :
      Moves q (q.mark before t after mark)
  | close {before after : List (Ticket γ)} {t : Ticket γ} {label : β}
      (place : q.waiting = before ++ t :: after) (allowed : Allowed t label) :
      Moves q (q.close before t after label)

/-- Any number of moves. -/
def Chain : Queue γ β → Queue γ β → Prop := Relation.ReflTransGen (Moves cap Fresh Allowed)

variable {cap : ℕ} {Fresh : γ → Prop} {Allowed : Ticket γ → β → Prop}

namespace Sound

variable {q : Queue γ β}

theorem moves (sound : Sound cap Allowed q) {q' : Queue γ β}
    (moves : Moves cap Fresh Allowed q q') : Sound cap Allowed q' := by
  cases moves with
  | join fresh room => exact sound.join _ room
  | hand front unnumbered => exact sound.hand front unnumbered
  | send place number unsent => exact sound.send place number
  | mark place grows => exact sound.mark place _
  | close place allowed => exact sound.close place allowed

theorem chain (sound : Sound cap Allowed q) {q' : Queue γ β}
    (chain : Chain cap Fresh Allowed q q') : Sound cap Allowed q' := by
  induction chain with
  | refl => exact sound
  | tail _ move ih => exact ih.moves move

end Sound

/-- What a ticket keeps while it is open. -/
structure Ticket.Ages (t t' : Ticket γ) : Prop where
  tag : t'.tag = t.tag
  number : ∀ n ∈ t.number, n ∈ t'.number
  mark : t.mark ≤ t'.mark

theorem Ticket.Ages.refl (t : Ticket γ) : t.Ages t := ⟨rfl, fun _ is => is, le_refl _⟩

variable {t : Ticket γ}

theorem Ticket.Ages.trans {t₁ t' : Ticket γ} (first : t.Ages t₁) (second : t₁.Ages t') :
    t.Ages t' where
  tag := second.tag.trans first.tag
  number n is := second.number n (first.number n is)
  mark := le_trans first.mark second.mark

variable (Allowed) in
/-- What became of a ticket seen before: it is open still, or it closed as it was allowed to. -/
def Remains (t : Ticket γ) (q : Queue γ β) : Prop :=
  (∃ t' ∈ q.waiting, t.Ages t') ∨
    ∃ t' : Ticket γ, t.Ages t' ∧ ∃ label, Allowed t' label ∧ t'.close label ∈ q.log

variable {q : Queue γ β}

theorem remains_of_ages {before after : List (Ticket γ)} {t' changed : Ticket γ}
    (waits : q.waiting = before ++ changed :: after) (ages : t'.Ages changed) {other : Ticket γ}
    (mem : other ∈ before ++ t' :: after) (seen : t.Ages other) : Remains Allowed t q := by
  refine .inl ?_
  rw [waits]
  simp only [List.mem_append, List.mem_cons] at mem
  rcases mem with mem | rfl | mem
  · exact ⟨other, List.mem_append_left _ mem, seen⟩
  · exact ⟨changed, List.mem_append_cons_self, seen.trans ages⟩
  · exact ⟨other, List.mem_append_right _ (List.mem_cons_of_mem _ mem), seen⟩

variable {q' : Queue γ β}

theorem Remains.moves (remains : Remains Allowed t q) (moves : Moves cap Fresh Allowed q q') :
    Remains Allowed t q' := by
  rcases remains with ⟨other, mem, ages⟩ | ⟨t', ages, label, allowed, closed⟩
  · cases moves with
    | join fresh room => exact .inl ⟨other, List.mem_append_left _ mem, ages⟩
    | hand front unnumbered =>
      rw [front] at mem
      refine remains_of_ages (List.nil_append _).symm ?_ mem ages
      refine ⟨rfl, ?_, le_refl _⟩
      intro n is
      rw [unnumbered] at is
      cases is
    | send place number unsent =>
      rw [place] at mem
      refine remains_of_ages rfl ?_ mem ages
      exact ⟨rfl, fun _ is => is, le_refl _⟩
    | mark place grows =>
      rw [place] at mem
      refine remains_of_ages rfl ?_ mem ages
      exact ⟨rfl, fun _ is => is, grows⟩
    | close place allowed =>
      rw [place] at mem
      simp only [List.mem_append, List.mem_cons] at mem
      rcases mem with mem | rfl | mem
      · exact .inl ⟨other, List.mem_append_left _ mem, ages⟩
      · refine .inr ⟨other, ages, _, allowed, ?_⟩
        exact List.mem_append_right _ (List.mem_singleton_self _)
      · exact .inl ⟨other, List.mem_append_right _ mem, ages⟩
  · refine .inr ⟨t', ages, label, allowed, ?_⟩
    cases moves with
    | close place allowed => exact List.mem_append_left _ closed
    | _ => exact closed

theorem Remains.chain (remains : Remains Allowed t q) (chain : Chain cap Fresh Allowed q q') :
    Remains Allowed t q' := by
  induction chain with
  | refl => exact remains
  | tail _ move ih => exact ih.moves move

/-- What was seen of a ticket is what it was when it closed, or less. -/
theorem Remains.closed (remains : Remains Allowed t q) (sound : Sound cap Allowed q) {c : Closed β}
    (closed : c ∈ q.log) (same : c.tag = t.tag) :
    ∃ t' : Ticket γ, t.Ages t' ∧ t'.number = c.number ∧ Allowed t' c.label := by
  have nodup := sound.tags_nodup
  rcases remains with ⟨t', mem, ages⟩ | ⟨t', ages, label, allowed, closed'⟩
  · have here : c.tag ∈ q.log.map Closed.tag := List.mem_map_of_mem closed
    rw [same, ← ages.tag] at here
    exact absurd (List.mem_map_of_mem mem) ((List.nodup_append.mp nodup).2.2 _ here _ · rfl)
  · have sameTag : (t'.close label).tag = c.tag := ages.tag.trans same.symm
    have is := List.inj_on_of_nodup_map (List.nodup_append.mp nodup).1 closed' closed sameTag
    rw [← is]
    exact ⟨t', ages, rfl, allowed⟩

/-- What closed in a chain of moves was allowed to. -/
theorem Chain.closes (chain : Chain cap Fresh Allowed q q') :
    ∃ fresh, q'.log = q.log ++ fresh ∧
      ∀ c ∈ fresh, ∃ t : Ticket γ, t.tag = c.tag ∧ t.number = c.number ∧ Allowed t c.label := by
  induction chain with
  | refl => exact ⟨[], (List.append_nil _).symm, fun _ mem => absurd mem List.not_mem_nil⟩
  | tail _ move ih =>
    rcases ih with ⟨fresh, log, allows⟩
    cases move with
    | close place allowed =>
      rename_i before after t label
      refine ⟨fresh ++ [t.close label], ?_, ?_⟩
      · simp only [Queue.close, log, List.append_assoc]
      · intro c mem
        rcases List.mem_append.mp mem with mem | mem
        · exact allows c mem
        · rw [List.mem_singleton.mp mem]
          exact ⟨t, rfl, rfl, allowed⟩
    | _ => exact ⟨fresh, log, allows⟩

variable (Fresh) in
/-- Where an open ticket comes from: it was open before, or joined since; a number it did not have
is a later one. -/
def Origin (q : Queue γ β) (t' : Ticket γ) : Prop :=
  (∃ t ∈ q.waiting, t.Ages t' ∧ ∀ n ∈ t'.number, n ∈ t.number ∨ q.last < n) ∨
    (∃ mark, Fresh mark ∧ mark ≤ t'.mark) ∧ ∀ n ∈ t'.number, q.last < n

theorem Origin.ages {t' : Ticket γ} (origin : Origin Fresh q t) (ages : t.Ages t')
    (number : ∀ n ∈ t'.number, n ∈ t.number ∨ q.last < n) : Origin Fresh q t' := by
  rcases origin with ⟨was, there, before, known⟩ | ⟨⟨mark, fresh, grows⟩, later⟩
  · refine .inl ⟨was, there, before.trans ages, ?_⟩
    intro n is
    rcases number n is with same | new
    · exact known n same
    · exact .inr new
  · refine .inr ⟨⟨mark, fresh, le_trans grows ages.mark⟩, ?_⟩
    intro n is
    rcases number n is with same | new
    · exact later n same
    · exact new

/-- The open tickets have an origin, and the last number only rises. -/
theorem Chain.origin (chain : Chain cap Fresh Allowed q q') :
    q.last ≤ q'.last ∧ ∀ t' ∈ q'.waiting, Origin Fresh q t' := by
  induction chain with
  | refl =>
    refine ⟨Nat.le_refl _, ?_⟩
    exact fun t' mem => .inl ⟨t', mem, Ticket.Ages.refl t', fun _ is => .inl is⟩
  | @tail q₁ _ _ move ih =>
    rcases ih with ⟨last, origin⟩
    cases move with
    | join fresh room =>
      refine ⟨last, ?_⟩
      intro t' mem
      rcases List.mem_append.mp mem with mem | mem
      · exact origin t' mem
      · rw [List.mem_singleton.mp mem]
        exact .inr ⟨⟨_, fresh, le_refl _⟩, fun n is => absurd is (Option.not_mem_none n)⟩
    | hand front unnumbered =>
      rename_i first rest
      have here : first ∈ q₁.waiting := by
        rw [front]
        exact List.mem_cons_self
      refine ⟨Nat.le_succ_of_le last, ?_⟩
      intro t' mem
      rcases List.mem_cons.mp mem with rfl | mem
      · refine (origin first here).ages ⟨rfl, ?_, le_refl _⟩ ?_
        · intro n is
          rw [unnumbered] at is
          cases is
        · intro n is
          rw [← Option.some.inj is]
          exact .inr (Nat.lt_succ_of_le last)
      · exact origin t' (front ▸ List.mem_cons_of_mem _ mem)
    | send place number unsent =>
      refine ⟨last, ?_⟩
      intro t' mem
      rw [place] at origin
      simp only [Queue.send, List.mem_append, List.mem_cons] at mem
      rcases mem with mem | rfl | mem
      · exact origin t' (List.mem_append_left _ mem)
      · refine (origin _ List.mem_append_cons_self).ages ?_ fun _ is => .inl is
        exact ⟨rfl, fun _ is => is, le_refl _⟩
      · exact origin t' (List.mem_append_right _ (List.mem_cons_of_mem _ mem))
    | mark place grows =>
      refine ⟨last, ?_⟩
      intro t' mem
      rw [place] at origin
      simp only [Queue.mark, List.mem_append, List.mem_cons] at mem
      rcases mem with mem | rfl | mem
      · exact origin t' (List.mem_append_left _ mem)
      · refine (origin _ List.mem_append_cons_self).ages ?_ fun _ is => .inl is
        exact ⟨rfl, fun _ is => is, grows⟩
      · exact origin t' (List.mem_append_right _ (List.mem_cons_of_mem _ mem))
    | close place allowed =>
      refine ⟨last, ?_⟩
      intro t' mem
      rw [place] at origin
      rcases List.mem_append.mp mem with mem | mem
      · exact origin t' (List.mem_append_left _ mem)
      · exact origin t' (List.mem_append_right _ (List.mem_cons_of_mem _ mem))

theorem Chain.mono {Fresh' : γ → Prop} {Allowed' : Ticket γ → β → Prop}
    (joins : ∀ mark, Fresh mark → Fresh' mark)
    (wider : ∀ t label, Allowed t label → Allowed' t label) (chain : Chain cap Fresh Allowed q q') :
    Chain cap Fresh' Allowed' q q' := by
  induction chain with
  | refl => exact .refl
  | tail _ move ih =>
    refine Relation.ReflTransGen.tail ih ?_
    cases move with
    | join fresh room => exact .join (joins _ fresh) room
    | hand front unnumbered => exact .hand front unnumbered
    | send place number unsent => exact .send place number unsent
    | mark place grows => exact .mark place grows
    | close place allowed => exact .close place (wider _ _ allowed)

end Moves

end AgentDeck.Serial
