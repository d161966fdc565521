import AgentDeck.Inbox.Types
import AgentDeck.Lib.SortedMap
import Mathlib.Data.Finset.Card
import Mathlib.Logic.Relation

/-!
# Scopes

Who a publish or an offer reaches: the sender's orchestration instance, widened to its dispatch
tree. A tree is found by climbing from group to group along the recorded callers, but it is named
by a pane, the last caller of the climb. A group at the top of a tree has no caller to climb to and
names its tree by its first dispatching pane. The two names agree exactly when every tree below
that group hangs from the same pane, the first one.
-/

namespace AgentDeck.Inbox

structure RoleFacts where
  token : String
  name : String
  role : String
  deriving DecidableEq

structure PaneFacts where
  paneId : String
  agentId : String
  orchestration : Option RoleFacts
  dispatchCaller : Option String
  deriving DecidableEq

structure ScopeMember where
  recipient : Recipient
  orchestrationName : Option String
  role : Option String
  isDispatchCaller : Bool
  deriving DecidableEq

structure ResolvedScope where
  scope : Scope
  members : List ScopeMember
  deriving DecidableEq

structure RoleSubscriptions where
  subscribe : List String
  takeOffers : List String

structure OrchestrationSubscriptions where
  subscribe : List String
  roles : SortedMap String RoleSubscriptions

structure Subscriptions where
  orchestrations : SortedMap String OrchestrationSubscriptions
  dispatch : List String

inductive Group
  | orchestration (token : String)
  | pane (paneId : String)
  deriving DecidableEq

def Group.of (pane : PaneFacts) : Group :=
  match pane.orchestration with
  | some role => .orchestration role.token
  | none => .pane pane.paneId

/-! ## The climb to the root -/

/-- The caller recorded for a group: that of its first pane that has one. -/
def callerOf (panes : List PaneFacts) (group : Group) : Option String :=
  (panes.filter fun pane => decide (Group.of pane = group)).findSome? PaneFacts.dispatchCaller

/-- The group of a caller, which may have left the panes. -/
def groupOf (panes : List PaneFacts) (paneId : String) : Group :=
  match panes.find? fun pane => decide (pane.paneId = paneId) with
  | some pane => Group.of pane
  | none => .pane paneId

/-- The loop of `dispatch_root`, with as many rounds as `fuel`. -/
def climb (panes : List PaneFacts) : ℕ → List Group → Group → Option String → Option String
  | 0, _, _, root => root
  | fuel + 1, seen, group, root =>
    if group ∈ seen then root
    else
      match callerOf panes group with
      | none => root
      | some caller => climb panes fuel (group :: seen) (groupOf panes caller) (some caller)

/-- The root pane of the dispatch tree `group` sits in. Every round but the last marks a group
that some pane is in, so the loop ends before the rounds do. -/
def dispatchRoot (group : Group) (panes : List PaneFacts) : Option String :=
  climb panes (panes.length + 1) [] group none

/-! ## Resolution -/

def callers (panes : List PaneFacts) : List String := panes.filterMap PaneFacts.dispatchCaller

/-- The first pane of a group that dispatched something. -/
def firstCaller (panes : List PaneFacts) (group : Group) : Option String :=
  (panes.find? fun pane =>
    decide (Group.of pane = group) && decide (pane.paneId ∈ callers panes)).map PaneFacts.paneId

def memberOf (panes : List PaneFacts) (pane : PaneFacts) : ScopeMember where
  recipient := .bound pane.paneId pane.agentId
  orchestrationName := pane.orchestration.map RoleFacts.name
  role := pane.orchestration.map RoleFacts.role
  isDispatchCaller := decide (pane.paneId ∈ callers panes)

/-- The pane is in the dispatch tree named by `root`. -/
def inTree (panes : List PaneFacts) (root : String) (pane : PaneFacts) : Bool :=
  decide (Group.of pane = groupOf panes root) ||
    decide (dispatchRoot (Group.of pane) panes = some root)

def treeRoot (panes : List PaneFacts) (group : Group) : Option String :=
  (dispatchRoot group panes).or (firstCaller panes group)

def resolveScope (senderPane : String) (panes : List PaneFacts) : Option ResolvedScope :=
  match panes.find? fun pane => decide (pane.paneId = senderPane) with
  | none => none
  | some sender =>
    match treeRoot panes (Group.of sender) with
    | some root =>
      some ⟨.dispatch root, (panes.filter (inTree panes root)).map (memberOf panes)⟩
    | none =>
      match sender.orchestration with
      | none => none
      | some role =>
        some ⟨.orchestration role.token, (panes.filter fun pane =>
          pane.orchestration.any fun other => decide (other.token = role.token)).map
            (memberOf panes)⟩

/-- A member receives `topic` through its orchestration, its role, or as a dispatch caller. -/
def subscribed (subscriptions : Subscriptions) (topic : String) (member : ScopeMember) : Bool :=
  let orchestration := member.orchestrationName.bind subscriptions.orchestrations.get?
  let role := orchestration.bind fun found => member.role.bind found.roles.get?
  (orchestration.any fun found => found.subscribe.contains topic) ||
    (role.any fun found => found.subscribe.contains topic) ||
      (member.isDispatchCaller && subscriptions.dispatch.contains topic)

/-- Everyone in `members` subscribed to `topic`, except the sender. -/
def publishRecipients (members : List ScopeMember) (subscriptions : Subscriptions)
    (topic senderPane : String) : List Recipient :=
  ((members.filter fun member => decide (member.recipient.paneId ≠ senderPane)).filter
    (subscribed subscriptions topic)).map ScopeMember.recipient

/-! ## The climb ends at the top -/

variable {panes : List PaneFacts}

/-- A group is below another when one of its panes was dispatched from there. -/
def Below (panes : List PaneFacts) (group above : Group) : Prop :=
  ∃ pane ∈ panes, Group.of pane = group ∧
    ∃ caller, pane.dispatchCaller = some caller ∧ above = groupOf panes caller

/-- No group is below itself, in any number of steps. -/
def Acyclic (panes : List PaneFacts) : Prop :=
  ∀ group, ¬ Relation.TransGen (Below panes) group group

variable {group : Group} {caller : String}

theorem exists_of_callerOf (called : callerOf panes group = some caller) :
    ∃ pane ∈ panes, Group.of pane = group ∧ pane.dispatchCaller = some caller := by
  rcases List.exists_of_findSome?_eq_some called with ⟨pane, mem, found⟩
  rcases List.mem_filter.mp mem with ⟨mem, same⟩
  exact ⟨pane, mem, by simpa using same, found⟩

theorem below_of_callerOf (called : callerOf panes group = some caller) :
    Below panes group (groupOf panes caller) := by
  rcases exists_of_callerOf called with ⟨pane, mem, same, found⟩
  exact ⟨pane, mem, same, caller, found, rfl⟩

/-- Groups that a climb has marked: each once, and each with a pane. -/
structure Marked (panes : List PaneFacts) (seen : List Group) : Prop where
  apart : seen.Nodup
  listed : ∀ other ∈ seen, ∃ pane ∈ panes, Group.of pane = other

variable {seen : List Group}

theorem Marked.length_le (marked : Marked panes seen) : seen.length ≤ panes.length := by
  classical
  have subset : seen.toFinset ⊆ (panes.map Group.of).toFinset := by
    intro other mem
    rcases marked.listed other (List.mem_toFinset.mp mem) with ⟨pane, inPanes, same⟩
    exact List.mem_toFinset.mpr (List.mem_map.mpr ⟨pane, inPanes, same⟩)
  calc seen.length = seen.toFinset.card := (List.toFinset_card_of_nodup marked.apart).symm
    _ ≤ (panes.map Group.of).toFinset.card := Finset.card_le_card subset
    _ ≤ (panes.map Group.of).length := List.toFinset_card_le _
    _ = panes.length := List.length_map _

theorem Marked.cons (marked : Marked panes seen) (new : group ∉ seen)
    (called : callerOf panes group = some caller) : Marked panes (group :: seen) := by
  refine ⟨List.nodup_cons.mpr ⟨new, marked.apart⟩, ?_⟩
  intro other mem
  rcases List.mem_cons.mp mem with rfl | mem
  · rcases exists_of_callerOf called with ⟨pane, inPanes, same, _⟩
    exact ⟨pane, inPanes, same⟩
  · exact marked.listed other mem

/-- The marked groups of a climb without cycles: the climb came through them to `group`. -/
structure Seen (panes : List PaneFacts) (seen : List Group) (group : Group) : Prop
    extends Marked panes seen where
  below : ∀ other ∈ seen, Relation.TransGen (Below panes) other group

theorem Seen.not_mem (acyclic : Acyclic panes) (climbed : Seen panes seen group) : group ∉ seen :=
  fun mem => acyclic group (climbed.below group mem)

theorem Seen.step (acyclic : Acyclic panes) (climbed : Seen panes seen group)
    (called : callerOf panes group = some caller) :
    Seen panes (group :: seen) (groupOf panes caller) := by
  have below := below_of_callerOf called
  refine ⟨climbed.toMarked.cons (climbed.not_mem acyclic) called, ?_⟩
  intro other mem
  rcases List.mem_cons.mp mem with rfl | mem
  · exact .single below
  · exact (climbed.below other mem).tail below

/-- A climb with enough rounds stays where it is when the group has no caller, and else ends at a
caller whose own group has none. -/
theorem climb_ends (acyclic : Acyclic panes) (fuel : ℕ) (climbed : Seen panes seen group)
    (enough : panes.length < fuel + seen.length) (root : Option String) :
    (callerOf panes group = none ∧ climb panes fuel seen group root = root) ∨
      ∃ last, climb panes fuel seen group root = some last ∧
        callerOf panes (groupOf panes last) = none ∧
        ∃ pane ∈ panes, callerOf panes (Group.of pane) = some last := by
  induction fuel generalizing seen group root with
  | zero =>
    have short := climbed.toMarked.length_le
    omega
  | succ fuel ih =>
    simp only [climb, climbed.not_mem acyclic]
    rcases called : callerOf panes group with _ | caller
    · exact Or.inl ⟨rfl, rfl⟩
    · right
      have longer : panes.length < fuel + (group :: seen).length := by
        simp only [List.length_cons]
        omega
      rcases ih (climbed.step acyclic called) longer (some caller) with ⟨top, ends⟩ | further
      · rcases exists_of_callerOf called with ⟨pane, mem, same, _⟩
        exact ⟨caller, ends, top, pane, mem, same ▸ called⟩
      · exact further

theorem seen_nil (panes : List PaneFacts) (group : Group) : Seen panes [] group :=
  ⟨⟨List.nodup_nil, by simp⟩, by simp⟩

theorem dispatchRoot_ends (acyclic : Acyclic panes) (group : Group) :
    (callerOf panes group = none ∧ dispatchRoot group panes = none) ∨
      ∃ last, dispatchRoot group panes = some last ∧
        callerOf panes (groupOf panes last) = none ∧
        ∃ pane ∈ panes, callerOf panes (Group.of pane) = some last :=
  climb_ends acyclic (panes.length + 1) (seen_nil panes group) (by simp) none

theorem dispatchRoot_top (top : callerOf panes group = none) : dispatchRoot group panes = none := by
  simp [dispatchRoot, climb, top]

theorem dispatchRoot_below (called : callerOf panes group = some caller)
    (top : callerOf panes (groupOf panes caller) = none) :
    dispatchRoot group panes = some caller := by
  have apart : groupOf panes caller ∉ [group] := by
    intro mem
    rw [List.mem_singleton.mp mem, called] at top
    cases top
  rcases exists_of_callerOf called with ⟨pane, mem, _, _⟩
  rcases panes with _ | ⟨first, rest⟩
  · cases mem
  · simp only [dispatchRoot, climb, List.not_mem_nil, ↓reduceIte, called, List.length_cons, apart,
      top]

/-! ## Which pane names a tree -/

variable {pane : PaneFacts}

theorem find_pane (apart : (panes.map PaneFacts.paneId).Nodup) (mem : pane ∈ panes) :
    panes.find? (fun other => decide (other.paneId = pane.paneId)) = some pane := by
  induction panes with
  | nil => cases mem
  | cons head rest ih =>
    rcases List.nodup_cons.mp apart with ⟨new, apart⟩
    rcases List.mem_cons.mp mem with rfl | mem
    · simp
    · have other : head.paneId ≠ pane.paneId :=
        fun same => new (same ▸ List.mem_map.mpr ⟨pane, mem, rfl⟩)
      rw [List.find?_cons_of_neg (by simpa using other)]
      exact ih apart mem

theorem groupOf_pane (apart : (panes.map PaneFacts.paneId).Nodup) (mem : pane ∈ panes) :
    groupOf panes pane.paneId = Group.of pane := by
  simp only [groupOf, find_pane apart mem]

theorem listed_of_groupOf (mem : pane ∈ panes) (same : Group.of pane = groupOf panes caller) :
    ∃ listed ∈ panes, listed.paneId = caller := by
  simp only [groupOf] at same
  split at same
  · rename_i listed found
    exact ⟨listed, List.mem_of_find?_eq_some found, by simpa using List.find?_some found⟩
  · simp only [Group.of] at same
    split at same
    · cases same
    · exact ⟨pane, mem, by simpa using same⟩

variable {root : String}

theorem groupOf_firstCaller (apart : (panes.map PaneFacts.paneId).Nodup)
    (first : firstCaller panes group = some root) : groupOf panes root = group := by
  rcases Option.map_eq_some_iff.mp first with ⟨pane, found, rfl⟩
  have matched := List.find?_some found
  simp only [Bool.and_eq_true, decide_eq_true_eq] at matched
  rw [groupOf_pane apart (List.mem_of_find?_eq_some found), matched.1]

theorem treeRoot_top (top : callerOf panes group = none) :
    treeRoot panes group = firstCaller panes group := by
  simp [treeRoot, dispatchRoot_top top]

/-- Every tree that hangs from a listed pane at the top hangs from the first pane of its group that
dispatched anything. -/
def RootedAtFirst (panes : List PaneFacts) : Prop :=
  ∀ pane ∈ panes, ∀ caller, callerOf panes (Group.of pane) = some caller →
    (∃ listed ∈ panes, listed.paneId = caller) →
    callerOf panes (groupOf panes caller) = none →
    firstCaller panes (groupOf panes caller) = some caller

section

variable (apart : (panes.map PaneFacts.paneId).Nodup)

include apart

theorem treeRoot_groupOf (acyclic : Acyclic panes) (rooted : RootedAtFirst panes)
    (resolved : treeRoot panes group = some root) (listed : ∃ pane ∈ panes, pane.paneId = root) :
    treeRoot panes (groupOf panes root) = some root := by
  rcases dispatchRoot_ends acyclic group with ⟨top, none⟩ | ⟨last, climbed, top, pane, mem, called⟩
  · rw [treeRoot_top top] at resolved
    rw [groupOf_firstCaller apart resolved, treeRoot_top top, resolved]
  · have same : last = root := by simpa [treeRoot, climbed] using resolved
    subst same
    rw [treeRoot_top top]
    exact rooted pane mem last called listed top

theorem treeRoot_of_inTree (acyclic : Acyclic panes) (rooted : RootedAtFirst panes)
    (resolved : treeRoot panes group = some root) (mem : pane ∈ panes)
    (member : inTree panes root pane) : treeRoot panes (Group.of pane) = some root := by
  simp only [inTree, Bool.or_eq_true, decide_eq_true_eq] at member
  rcases member with same | below
  · rw [same]
    exact treeRoot_groupOf apart acyclic rooted resolved (listed_of_groupOf mem same)
  · simp [treeRoot, below]

/-! ## Every member resolves the same scope -/

theorem resolveScope_pane (mem : pane ∈ panes)
    (resolved : treeRoot panes (Group.of pane) = some root) :
    resolveScope pane.paneId panes =
      some ⟨.dispatch root, (panes.filter (inTree panes root)).map (memberOf panes)⟩ := by
  simp only [resolveScope, find_pane apart mem, resolved]

theorem resolveScope_role (mem : pane ∈ panes) {role : RoleFacts}
    (held : pane.orchestration = some role) (absent : treeRoot panes (Group.of pane) = none) :
    resolveScope pane.paneId panes =
      some ⟨.orchestration role.token, (panes.filter fun pane =>
        pane.orchestration.any fun other => decide (other.token = role.token)).map
          (memberOf panes)⟩ := by
  simp only [resolveScope, find_pane apart mem, absent, held]

end

/-- Whoever a scope holds resolves the same scope with the same members, and so reaches every
other member that is subscribed to what it publishes. -/
def ScopesShared (panes : List PaneFacts) : Prop :=
  ∀ sender resolved, resolveScope sender panes = some resolved →
    ∀ member ∈ resolved.members, ∃ other,
      resolveScope member.recipient.paneId panes = some other ∧
        other.scope = resolved.scope ∧ other.members = resolved.members ∧
        ∀ subscriptions topic, ∀ receiver ∈ resolved.members,
          receiver.recipient.paneId ≠ member.recipient.paneId →
          subscribed subscriptions topic receiver = true →
          receiver.recipient ∈ publishRecipients other.members subscriptions topic
            member.recipient.paneId

theorem mem_publishRecipients {members : List ScopeMember} (subscriptions : Subscriptions)
    (topic senderPane : String) {receiver : ScopeMember} (mem : receiver ∈ members)
    (other : receiver.recipient.paneId ≠ senderPane)
    (receives : subscribed subscriptions topic receiver) :
    receiver.recipient ∈ publishRecipients members subscriptions topic senderPane := by
  refine List.mem_map.mpr ⟨receiver, List.mem_filter.mpr ⟨List.mem_filter.mpr ⟨mem, ?_⟩, ?_⟩, rfl⟩
  · simpa using other
  · exact receives

theorem scopesShared_of_rootedAtFirst (apart : (panes.map PaneFacts.paneId).Nodup)
    (acyclic : Acyclic panes) (rooted : RootedAtFirst panes) : ScopesShared panes := by
  intro sender resolved resolves member mem
  suffices same : resolveScope member.recipient.paneId panes = some resolved by
    refine ⟨resolved, same, rfl, rfl, ?_⟩
    intro subscriptions topic receiver receives other subscribes
    exact mem_publishRecipients subscriptions topic _ receives other subscribes
  simp only [resolveScope] at resolves
  split at resolves
  · cases resolves
  · rename_i pane found
    split at resolves
    · rename_i root rootOf
      cases resolves
      rcases List.mem_map.mp mem with ⟨other, kept, rfl⟩
      rcases List.mem_filter.mp kept with ⟨inPanes, inside⟩
      exact resolveScope_pane apart inPanes
        (treeRoot_of_inTree apart acyclic rooted rootOf inPanes inside)
    · rename_i absent
      split at resolves
      · cases resolves
      · rename_i role held
        cases resolves
        rcases List.mem_map.mp mem with ⟨other, kept, rfl⟩
        rcases List.mem_filter.mp kept with ⟨inPanes, same⟩
        rcases Option.any_eq_true _ _ |>.mp same with ⟨otherRole, heldToo, same⟩
        simp only [decide_eq_true_eq] at same
        have sameGroup : Group.of other = Group.of pane := by
          simp only [Group.of, held, heldToo, same]
        have result := resolveScope_role apart inPanes heldToo (sameGroup ▸ absent)
        rw [same] at result
        exact result

theorem rootedAtFirst_of_scopesShared (apart : (panes.map PaneFacts.paneId).Nodup)
    (shared : ScopesShared panes) : RootedAtFirst panes := by
  rintro pane mem caller called ⟨listed, inPanes, rfl⟩ top
  have root : treeRoot panes (Group.of pane) = some listed.paneId := by
    simp [treeRoot, dispatchRoot_below called top]
  have own := groupOf_pane apart inPanes
  have member : memberOf panes listed ∈
      (panes.filter (inTree panes listed.paneId)).map (memberOf panes) := by
    refine List.mem_map.mpr ⟨listed, List.mem_filter.mpr ⟨inPanes, ?_⟩, rfl⟩
    simp [inTree, own]
  rcases shared pane.paneId _ (resolveScope_pane apart mem root) _ member with
    ⟨other, resolves, scope, _⟩
  change resolveScope listed.paneId panes = some other at resolves
  rw [own] at top ⊢
  have named := treeRoot_top top
  simp only [resolveScope, find_pane apart inPanes, named] at resolves
  split at resolves
  · rename_i first found
    cases resolves
    simp only [Scope.dispatch.injEq] at scope
    rw [found, scope]
  · split at resolves
    · cases resolves
    · cases resolves
      cases scope

/-- The members of a scope share it exactly when every tree is named after the first dispatching
pane at its top. -/
theorem scopesShared_iff (panes : List PaneFacts) (apart : (panes.map PaneFacts.paneId).Nodup)
    (acyclic : Acyclic panes) : ScopesShared panes ↔ RootedAtFirst panes :=
  ⟨rootedAtFirst_of_scopesShared apart, scopesShared_of_rootedAtFirst apart acyclic⟩

/-- Two roles of one orchestration, each with a unit it dispatched. -/
def twoDispatchers : List PaneFacts :=
  [⟨"1", "a1", some ⟨"tok", "tdd", "orchestrator"⟩, none⟩,
    ⟨"2", "a2", some ⟨"tok", "tdd", "coder"⟩, none⟩,
    ⟨"3", "a3", none, some "1"⟩, ⟨"4", "a4", none, some "2"⟩]

theorem twoDispatchers_apart : (twoDispatchers.map PaneFacts.paneId).Nodup := by
  decide

theorem twoDispatchers_acyclic : Acyclic twoDispatchers := by
  have up {group above : Group} (below : Below twoDispatchers group above) :
      above = .orchestration "tok" ∧ group ≠ .orchestration "tok" := by
    rcases below with ⟨pane, mem, rfl, caller, called, rfl⟩
    simp only [twoDispatchers, List.mem_cons, List.not_mem_nil, or_false] at mem
    rcases mem with rfl | rfl | rfl | rfl
    · cases called
    · cases called
    · cases called
      exact ⟨by decide +kernel, by decide⟩
    · cases called
      exact ⟨by decide +kernel, by decide⟩
  intro group cycle
  have last : group = .orchestration "tok" := by
    cases cycle with
    | single below => exact (up below).1
    | tail _ below => exact (up below).1
  rcases Relation.TransGen.head'_iff.mp cycle with ⟨_, first, _⟩
  exact (up first).2 last

theorem scopesShared_iff_twoDispatchers :
    ScopesShared twoDispatchers ↔ RootedAtFirst twoDispatchers :=
  scopesShared_iff twoDispatchers twoDispatchers_apart twoDispatchers_acyclic

/-- The unit of the second dispatcher has it in its scope; that dispatcher resolves the tree of
the first one. -/
theorem not_scopesShared :
    (twoDispatchers.map PaneFacts.paneId).Nodup ∧ Acyclic twoDispatchers ∧
      ¬ ScopesShared twoDispatchers := by
  refine ⟨twoDispatchers_apart, twoDispatchers_acyclic, ?_⟩
  intro shared
  have unit : ∃ resolved, resolveScope "4" twoDispatchers = some resolved ∧
      resolved.scope = .dispatch "2" ∧
      ∃ member ∈ resolved.members, member.recipient.paneId = "2" := by
    refine ⟨(resolveScope "4" twoDispatchers).get (by decide +kernel), ?_⟩
    decide +kernel
  rcases unit with ⟨resolved, resolves, scope, member, mem, named⟩
  rcases shared "4" resolved resolves member mem with ⟨other, again, same, _⟩
  have first : (resolveScope "2" twoDispatchers).map ResolvedScope.scope =
      some (.dispatch "1") := by decide +kernel
  rw [named] at again
  rw [again, Option.map_some, same, scope] at first
  revert first
  decide

end AgentDeck.Inbox
