import AgentDeck.Keymap.Followed

/-!
# Late reads and the latch

A read that lags was begun before the last adoption, which the count taken by `start_read` tells. A
comparison that failed holds for the rest of the generation.
-/

namespace AgentDeck.Keymap

open History

variable {δ : Type}

/-! ## When a read began -/

/-- The check's own read began after `begun`: it started it there, and no other since. -/
def BeganAfter (past : List Event) (check : ℕ) (begun since : List Event) : Prop :=
  past = begun ++ Event.startRead check :: since ∧ .startRead check ∉ since

def AdoptedIn (toml : Toml δ) (spawn : CodexRead) (earlier later : List Event) : Prop :=
  ∃ before event after, later = before ++ event :: after ∧
    (World.run toml spawn (earlier ++ before ++ [event])).state.last ≠
      (World.run toml spawn (earlier ++ before)).state.last

def BeganBeforeAdoption (toml : Toml δ) (spawn : CodexRead) (past : List Event) (check : ℕ) :
    Prop :=
  ∃ begun since, BeganAfter past check begun since ∧
    AdoptedIn toml spawn (begun ++ [Event.startRead check]) since

variable {state : CodexReadsState} {ticket : CodexTicket}

theorem compares_rewrites {toml : Toml δ} {after : CodexReadsState} {outcome : Except Hold Unit}
    (compares : Compares toml state ticket after outcome) :
    (after.last = state.last ∧ after.rewrites = state.rewrites) ∨
      (after.last ≠ state.last ∧ after.rewrites = state.rewrites + 1) := by
  cases compares with
  | adopts held step left =>
    exact .inr ⟨fun same => step.differ (congrArg CodexRead.config same.symm), rfl⟩
  | latched hold held | same held same | spent held step absent | behind held began step
  | fails held differ notOn notBehind => exact .inl ⟨rfl, rfl⟩

variable (toml : Toml δ) (spawn : CodexRead) (past : List Event)

theorem step_rewrites (world : World) (event : Event) :
    ((world.step toml event).state.last = world.state.last ∧
        (world.step toml event).state.rewrites = world.state.rewrites) ∨
      ((world.step toml event).state.last ≠ world.state.last ∧
        (world.step toml event).state.rewrites = world.state.rewrites + 1) := by
  rcases step_state toml world event with same | ⟨_, _, ticket, _, _, stepped⟩
  · rw [same]
    exact .inl ⟨rfl, rfl⟩
  · rw [stepped]
    exact compares_rewrites (compared_cases toml world.state ticket)

theorem adoptedIn_iff (earlier later : List Event) :
    (World.run toml spawn earlier).state.rewrites ≤
        (World.run toml spawn (earlier ++ later)).state.rewrites ∧
      ((World.run toml spawn earlier).state.rewrites <
          (World.run toml spawn (earlier ++ later)).state.rewrites ↔
        AdoptedIn toml spawn earlier later) := by
  induction later using List.reverseRecOn with
  | nil =>
    rw [List.append_nil]
    refine ⟨le_rfl, fun less => absurd less (lt_irrefl _), ?_⟩
    rintro ⟨before, event, after, split, _⟩
    exact absurd split (by simp)
  | append_singleton later event ih =>
    have moved := step_rewrites toml (World.run toml spawn (earlier ++ later)) event
    unfold AdoptedIn at ih ⊢
    rw [exists_split_concat fun before event _ =>
      (World.run toml spawn (earlier ++ before ++ [event])).state.last ≠
        (World.run toml spawn (earlier ++ before)).state.last]
    rw [← List.append_assoc, run_concat]
    rcases ih with ⟨notLess, lessIff⟩
    rcases moved with ⟨sameLast, sameCount⟩ | ⟨differ, risen⟩
    · rw [sameCount]
      refine ⟨notLess, lessIff.trans ⟨.inr, ?_⟩⟩
      rintro (adopted | adopted)
      · exact absurd sameLast adopted
      · exact adopted
    · exact ⟨by omega, fun _ => .inl differ, fun _ => by omega⟩

/-- A check that reads, or has read, noted the count where its read began. -/
def Noted (toml : Toml δ) (spawn : CodexRead) (past : List Event) (check adopted : ℕ) : Prop :=
  (∃ begun since, BeganAfter past check begun since) ∧
    ∀ begun since, BeganAfter past check begun since →
      adopted = (World.run toml spawn begun).state.rewrites

theorem Noted.concat {toml : Toml δ} {spawn : CodexRead} {past : List Event} {check adopted : ℕ}
    (noted : Noted toml spawn past check adopted) {event : Event}
    (other : event ≠ .startRead check) : Noted toml spawn (past ++ [event]) check adopted := by
  rcases noted with ⟨⟨begun, since, split, absent⟩, counted⟩
  refine ⟨⟨begun, since ++ [event], ?_, ?_⟩, ?_⟩
  · rw [split, List.append_assoc]
    rfl
  · rw [List.mem_append, List.mem_singleton, not_or]
    exact ⟨absent, fun same => other same.symm⟩
  · intro begun' since' ⟨split', none'⟩
    rcases List.eq_nil_or_concat since' with nothing | ⟨earlier, last, concat⟩
    · subst nothing
      rcases List.append_inj' split' rfl with ⟨_, same⟩
      exact absurd (List.singleton_inj.mp same) other
    · rw [List.concat_eq_append] at concat
      subst concat
      have longer : past ++ [event] = (begun' ++ Event.startRead check :: earlier) ++ [last] := by
        rw [split', List.append_assoc]
        rfl
      rcases List.append_inj' longer rfl with ⟨same, _⟩
      exact counted begun' earlier
        ⟨same, fun mem => none' (List.mem_append_left _ mem)⟩

theorem noted_start (check : ℕ) :
    Noted toml spawn (past ++ [Event.startRead check]) check
      (World.run toml spawn past).state.rewrites := by
  refine ⟨⟨past, [], rfl, List.not_mem_nil⟩, ?_⟩
  intro begun since ⟨split, absent⟩
  rcases List.eq_nil_or_concat since with nothing | ⟨earlier, last, concat⟩
  · subst nothing
    rcases List.append_inj' split rfl with ⟨same, _⟩
    rw [same]
  · rw [List.concat_eq_append] at concat
    subst concat
    have longer : past ++ [Event.startRead check] =
        (begun ++ Event.startRead check :: earlier) ++ [last] := by
      rw [split, List.append_assoc]
      rfl
    rcases List.append_inj' longer rfl with ⟨_, same⟩
    exact absurd (by simp [List.singleton_inj.mp same]) absent

/-- The count a check carries, once its read began. -/
def Check.adopted? : Check → Option ℕ
  | .idle => none
  | .reading start => some start.adopted
  | .ready ticket => some ticket.adopted

theorem run_noted (events : List Event) (check : ℕ) {adopted : ℕ}
    (carries : ((World.run toml spawn events).checks check).adopted? = some adopted) :
    Noted toml spawn events check adopted := by
  induction events using List.reverseRecOn generalizing adopted with
  | nil => cases carries
  | append_singleton events event ih =>
    rw [run_concat] at carries
    cases event with
    | startRead other =>
      by_cases same : check = other
      · subst same
        simp only [World.step, World.put, if_true, Check.adopted?, Option.some.injEq] at carries
        subst carries
        exact noted_start toml spawn events check
      · simp only [World.step, World.put, if_neg same] at carries
        exact (ih carries).concat fun eq => same (Event.startRead.inj eq).symm
    | finishRead other read =>
      refine (ih ?_).concat Event.noConfusion
      simp only [World.step] at carries
      cases here : (World.run toml spawn events).checks other with
      | reading start =>
        rw [here] at carries
        by_cases same : check = other
        · subst same
          simp only [World.put] at carries
          rw [here]
          exact carries
        · simp only [World.put, if_neg same] at carries
          exact carries
      | idle =>
        rw [here] at carries
        exact carries
      | ready ticket =>
        rw [here] at carries
        exact carries
    | settle other precedence =>
      refine (ih ?_).concat Event.noConfusion
      simp only [World.step] at carries
      cases here : (World.run toml spawn events).checks other with
      | ready ticket =>
        rw [here] at carries
        by_cases same : check = other
        · subst same
          simp only [World.put] at carries
          cases carries
        · simp only [World.put, if_neg same] at carries
          exact carries
      | idle =>
        rw [here] at carries
        exact carries
      | reading start =>
        rw [here] at carries
        exact carries

theorem beganBeforeAdoption_iff (check : ℕ) {adopted : ℕ}
    (carries : ((World.run toml spawn past).checks check).adopted? = some adopted) :
    adopted < (World.run toml spawn past).state.rewrites ↔
      BeganBeforeAdoption toml spawn past check := by
  rcases run_noted toml spawn past check carries with ⟨⟨begun, since, began⟩, counted⟩
  have started : ∀ begun, (World.run toml spawn (begun ++ [Event.startRead check])).state.rewrites =
      (World.run toml spawn begun).state.rewrites := by
    intro begun
    rw [run_concat]
    rfl
  have bridge : ∀ begun since, BeganAfter past check begun since →
      (adopted < (World.run toml spawn past).state.rewrites ↔
        AdoptedIn toml spawn (begun ++ [Event.startRead check]) since) := by
    intro begun since began
    have split : past = (begun ++ [Event.startRead check]) ++ since := by
      rw [began.1, List.append_assoc]
      rfl
    have adopts := (adoptedIn_iff toml spawn (begun ++ [Event.startRead check]) since).2
    rw [← split, started] at adopts
    rw [counted begun since began]
    exact adopts
  constructor
  · intro less
    exact ⟨begun, since, began, (bridge begun since began).mp less⟩
  · rintro ⟨begun', since', began', adoptedIn⟩
    exact (bridge begun' since' began').mpr adoptedIn

/-! ## The latch -/

variable {hold : Hold}

theorem compared_latched (held : state.held = some hold) (ticket : CodexTicket) :
    state.compared toml ticket = (state, .error hold) := by
  unfold CodexReadsState.compared
  rw [held]

theorem compared_fails {toml : Toml δ} (fails : (state.compared toml ticket).2 = .error hold) :
    (state.compared toml ticket).1.held = some hold ∧
      (state.compared toml ticket).1.last = state.last := by
  have cases := compared_cases toml state ticket
  rw [fails] at cases
  generalize (state.compared toml ticket).1 = after at cases
  cases cases with
  | latched _ held => exact ⟨held, rfl⟩
  | spent held step absent => exact ⟨rfl, rfl⟩
  | fails held differ notOn notBehind => exact ⟨rfl, rfl⟩

theorem latched_run (events : List Event) {world : World} (held : world.state.held = some hold) :
    (events.foldl (World.step toml) world).state = world.state := by
  induction events generalizing world with
  | nil => rfl
  | cons event events ih =>
    have stays : (world.step toml event).state = world.state := by
      rcases step_state toml world event with same | ⟨_, _, ticket, _, _, stepped⟩
      · exact same
      · rw [stepped, compared_latched toml held]
    rw [List.foldl_cons, ih (by rw [stays]; exact held), stays]

theorem run_append (later : List Event) :
    World.run toml spawn (past ++ later) =
      later.foldl (World.step toml) (World.run toml spawn past) :=
  List.foldl_append

theorem latched_after (judged : CodexRead → List KeymapSource → Except Hold Unit)
    (spawn : CodexRead) (past later : List Event) (check : ℕ) (precedence : List KeymapSource)
    (ready : (World.run toml spawn past).checks check = .ready ticket)
    (fails : ((World.run toml spawn past).state.compared toml ticket).2 = .error hold) :
    (World.run toml spawn (past ++ Event.settle check precedence :: later)).state.last =
        (World.run toml spawn past).state.last ∧
      ∀ other otherPrecedence result,
        (World.run toml spawn (past ++ Event.settle check precedence :: later)).returns
          toml judged other
          otherPrecedence = some result → result = .error hold := by
  have stepped : ((World.run toml spawn past).step toml (.settle check precedence)).state =
      ((World.run toml spawn past).state.compared toml ticket).1 := by
    simp only [World.step, ready]
  rcases compared_fails fails with ⟨held, sameLast⟩
  have kept : (World.run toml spawn (past ++ Event.settle check precedence :: later)).state =
      ((World.run toml spawn past).state.compared toml ticket).1 := by
    rw [run_append, List.foldl_cons, latched_run toml later (by rw [stepped]; exact held), stepped]
  refine ⟨by rw [kept, sameLast], ?_⟩
  intro other otherPrecedence result returned
  unfold World.returns at returned
  split at returned
  · cases returned
    unfold CodexReadsState.settle
    rw [kept, compared_latched toml held]
  · cases returned

/-! ## Every interleaving -/

/-- For every interleaving of any number of checks: the values of `last` are the spawn's read and at
most `codexRewritesPerGeneration` steps on from it, each once; a settle passes its comparison
exactly where nothing is held and its read is the last adopted, is one step on and adopted by it, or
began before the last adoption and is one step behind, and then the read is the spawn's but for
bookkeeping; and a settle that fails holds for ever. -/
theorem codex_reads_follow_bookkeeping (toml : Toml δ)
    (judged : CodexRead → List KeymapSource → Except Hold Unit) (spawn : CodexRead)
    (events : List Event) :
    ((lasts toml (.new spawn) events).head? = some spawn ∧
      (lasts toml (.new spawn) events).length ≤ codexRewritesPerGeneration + 1 ∧
      (lasts toml (.new spawn) events).IsChain (StepOn toml) ∧
      (∀ value ∈ (lasts toml (.new spawn) events).tail, SameRest toml spawn.config value.config) ∧
      (lasts toml (.new spawn) events).Nodup) ∧
    (∀ past check precedence later ticket, events = past ++ Event.settle check precedence :: later →
      (World.run toml spawn past).checks check = .ready ticket →
      (((World.run toml spawn past).state.compared toml ticket).2 = .ok () ↔
        (World.run toml spawn past).state.held = none ∧
          (ticket.read = (World.run toml spawn past).state.last ∨
            ((World.run toml spawn past).state.rewrites < codexRewritesPerGeneration ∧
              StepOn toml (World.run toml spawn past).state.last ticket.read ∧
              (World.run toml spawn (past ++ [Event.settle check precedence])).state.last =
                ticket.read) ∨
            (BeganBeforeAdoption toml spawn past check ∧
              StepOn toml ticket.read (World.run toml spawn past).state.last))) ∧
      (((World.run toml spawn past).state.compared toml ticket).2 = .ok () →
        LikeSpawn toml spawn ticket.read) ∧
      (∀ hold, ((World.run toml spawn past).state.compared toml ticket).2 = .error hold →
        (World.run toml spawn events).state.last = (World.run toml spawn past).state.last ∧
        ∀ other otherPrecedence result,
          (World.run toml spawn events).returns toml judged other otherPrecedence = some result →
            result = .error hold)) := by
  have followed := run_followed toml spawn events
  refine ⟨⟨followed.first, ?_, followed.steps, followed.rest, followed.nodup⟩, ?_⟩
  · rw [followed.count]
    exact Nat.succ_le_succ followed.bounded
  · intro past check precedence later ticket split ready
    have carries : ((World.run toml spawn past).checks check).adopted? = some ticket.adopted := by
      rw [ready]
      rfl
    have began := beganBeforeAdoption_iff toml spawn past check carries
    have passes := passes_iff toml (World.run toml spawn past).state ticket
    have before := run_followed toml spawn past
    refine ⟨?_, ?_, ?_⟩
    · rw [passes, ← began]
      refine and_congr_right fun held =>
        or_congr_right (or_congr_left (and_congr_right fun left => ?_))
      refine ⟨fun step => ⟨step, ?_⟩, fun both => both.1⟩
      have outcome := compared_cases toml (World.run toml spawn past).state ticket
      have stepped : (World.run toml spawn (past ++ [Event.settle check precedence])).state =
          ((World.run toml spawn past).state.compared toml ticket).1 := by
        rw [run_concat]
        simp only [World.step, ready]
      rw [stepped]
      generalize ((World.run toml spawn past).state.compared toml ticket).1 = after at outcome ⊢
      generalize ((World.run toml spawn past).state.compared toml ticket).2 = result at outcome
      cases outcome with
      | adopts _ _ _ => rfl
      | latched hold latched =>
        rw [held] at latched
        cases latched
      | same _ same => exact absurd (congrArg CodexRead.config same.symm) step.differ
      | spent _ _ absent => exact absurd left absent
      | behind _ _ back => exact absurd back step.asymm
      | fails _ _ notOn _ => exact absurd step notOn
    · intro passed
      rcases (passes.mp passed).2 with same | ⟨_, step⟩ | ⟨_, step⟩
      · rw [same]
        exact before.like
      · exact ⟨before.like.beside.trans step.beside, .inr (before.like.on step)⟩
      · exact before.like.back step
    · intro hold fails
      rw [split]
      exact latched_after toml judged spawn past later check precedence ready fails

/-! ## A late read and an edit -/

def markedText : String := "[tui]\nscreen_reader_detection_done = true\n"

def reboundText : String := "[tui]\nkeymap = 1\n"

def twoTexts : Toml Unit where
  parse text :=
    if text = markedText then
      some (SortedMap.empty.insert tuiKey
        (.table (SortedMap.empty.insert markerKey (.boolean true))))
    else if text = reboundText then
      some (SortedMap.empty.insert tuiKey
        (.table (SortedMap.empty.insert "keymap".toList (.other ()))))
    else none
  data := .ofEq Unit

def readOf (config : SourceRead) : CodexRead := ⟨config, none, [], [], .absent⟩

def fileOf (text : String) (size : ℕ) : SourceRead :=
  .present ⟨1, 1, size, 0, 0, []⟩ text.toUTF8.data.toList

/-- Two checks begin; the first adopts Codex's marker, the second settles the read it made before.
Then the person rebinds a key. -/
def lateAndEdited : List Event :=
  [.startRead 0, .startRead 1, .finishRead 1 (readOf .absent),
    .finishRead 0 (readOf (fileOf markedText 42)), .settle 0 [], .settle 1 [], .startRead 2,
    .finishRead 2 (readOf (fileOf reboundText 17)), .settle 2 [], .startRead 3,
    .finishRead 3 (readOf (fileOf markedText 42))]

theorem late_read_passes_and_edit_holds :
    BeganBeforeAdoption twoTexts (readOf .absent) (lateAndEdited.take 5) 1 ∧
      (World.run twoTexts (readOf .absent) lateAndEdited).state.last =
        readOf (fileOf markedText 42) ∧
      ∀ other precedence result,
        (World.run twoTexts (readOf .absent) lateAndEdited).returns twoTexts (fun _ _ => .ok ())
          other precedence = some result → result = .error .changed := by
  have all := codex_reads_follow_bookkeeping twoTexts (fun _ _ => .ok ()) (readOf .absent)
    lateAndEdited
  have late := all.2 (lateAndEdited.take 5) 1 [] (lateAndEdited.drop 6) ⟨0, readOf .absent⟩ rfl
    (by decide +kernel)
  have edited := all.2 (lateAndEdited.take 8) 2 [] (lateAndEdited.drop 9)
    ⟨1, readOf (fileOf reboundText 17)⟩ rfl (by decide +kernel)
  refine ⟨?_, ?_⟩
  · have passed : ((World.run twoTexts (readOf .absent) (lateAndEdited.take 5)).state.compared
        twoTexts ⟨0, readOf .absent⟩).2 = .ok () := by decide +kernel
    rcases (late.1.mp passed).2 with same | ⟨_, _, adopted⟩ | ⟨began, _⟩
    · exact absurd same (by decide +kernel)
    · exact absurd adopted (by decide +kernel)
    · exact began
  · have failed : ((World.run twoTexts (readOf .absent) (lateAndEdited.take 8)).state.compared
        twoTexts ⟨1, readOf (fileOf reboundText 17)⟩).2 = .error .changed := by decide +kernel
    have kept := edited.2.2 .changed failed
    refine ⟨?_, kept.2⟩
    rw [kept.1]
    decide +kernel

end AgentDeck.Keymap
