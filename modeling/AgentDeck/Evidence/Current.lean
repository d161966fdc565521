import AgentDeck.Evidence.Drawn

/-!
# Evidence is for the current geometry

What every call keeps, and from it what holds after any calls: where a parser runs and what it has
been fed with, how a state turns Clean, what leaves a state that recognises nothing, and when a
Clean frame still stands.
-/

namespace AgentDeck.Evidence

variable {T : Terminal}

namespace EvidenceState

/-! ## What a push can do -/

theorem checkWitness_cases (s : EvidenceState T) (profile : ScreenProfile T) (sinceSeq : ℕ)
    (markerSeq : Option ℕ) :
    (s.checkWitness profile sinceSeq markerSeq).1 = s ∨
      ((s.checkWitness profile sinceSeq markerSeq).1 = { s with status := .clean sinceSeq } ∧
        ∃ parser, s.parser = some parser ∧
          profile.widthWitness (T.screen parser.parser) s.widths = true) := by
  unfold checkWitness
  split
  · exact .inl rfl
  · rename_i parser running
    split
    · rename_i witness
      exact .inr ⟨rfl, parser, running, witness⟩
    · exact .inl rfl

variable {s : EvidenceState T}

theorem feed_cases {parser : MeteredParser T} (running : s.parser = some parser) (bytes : Bytes) :
    s.feed bytes =
        ({ s with outSeq := s.outSeq + bytes.length, parser := some (parser.fedWith bytes) },
          none) ∨
      ∃ refused ended, s.feed bytes =
        ({ s with
            outSeq := s.outSeq + bytes.length, parser := none, status := .workOverBudget refused },
          some ended) := by
  unfold feed
  simp only [running]
  split
  · rename_i fed fits
    rw [MeteredParser.feedBytes_ok fits]
    exact .inl rfl
  · rename_i refused _
    exact .inr ⟨s.outSeq + refused, _, rfl⟩

theorem pushDirty_cases (s : EvidenceState T) (profile : ScreenProfile T) (edgeSeq : ℕ)
    (bytes : Bytes) (modesAt : ℕ → Bytes) :
    let s' := (s.pushDirty profile edgeSeq bytes modesAt).1
    let window := s.tail ++ bytes
    (Marker.find profile.redrawMarker window = none ∧
      s' = { s with outSeq := s.outSeq + bytes.length,
                    tail := Marker.held profile.redrawMarker window }) ∨
    (∃ refused, s' = { s with
      outSeq := s.outSeq + bytes.length, tail := [], status := .workOverBudget refused }) ∨
    ∃ place sinceSeq, Marker.find profile.redrawMarker window = some place ∧
      s' = (checkWitness { s with
        outSeq := s.outSeq + bytes.length, tail := [],
        parser := some ((MeteredParser.new T s.rows s.cols).fedWith
          (modesAt (place - s.tail.length) ++ window.drop place)),
        status := .pending sinceSeq (some edgeSeq) } profile sinceSeq (some sinceSeq)).1 := by
  intro s' window
  simp only [s']
  unfold pushDirty
  simp only []
  split
  · rename_i absent
    exact .inl ⟨absent, rfl⟩
  · rename_i place found
    split
    · exact .inr (.inl ⟨_, rfl⟩)
    · rename_i parser fits
      rw [MeteredParser.feedBytes_ok fits]
      exact .inr (.inr ⟨place, _, found, rfl⟩)

inductive Pushes (s : EvidenceState T) (bytes : Bytes) (modesAt : ℕ → Bytes) :
    EvidenceState T → Prop where
  | counted (still : s.status.isPending = false ∧ s.status.isClean = false)
      (idle : s.profile = none ∨ ∀ edgeSeq reason, s.status ≠ .dirty edgeSeq reason) :
      Pushes s bytes modesAt { s with outSeq := s.outSeq + bytes.length }
  | fed (parser : MeteredParser T) (running : s.parser = some parser)
      (status : s.status.isPending = true ∨ s.status.isClean = true) :
      Pushes s bytes modesAt
        { s with outSeq := s.outSeq + bytes.length, parser := some (parser.fedWith bytes) }
  | shown (parser : MeteredParser T) (running : s.parser = some parser)
      (status : s.status.isPending = true) (profile : ScreenProfile T)
      (known : s.profile = some profile)
      (witness : profile.widthWitness (T.screen (parser.fedWith bytes).parser) s.widths = true)
      (sinceSeq : ℕ) :
      Pushes s bytes modesAt
        { s with outSeq := s.outSeq + bytes.length, parser := some (parser.fedWith bytes),
                 status := .clean sinceSeq }
  | refused (known : s.profile ≠ none) (recognised : s.status.isRefused = false ∧
      s.status.isGeometryUnknown = false) (tail : Bytes) (refused : ℕ) :
      Pushes s bytes modesAt
        { s with outSeq := s.outSeq + bytes.length, parser := none, tail := tail,
                 status := .workOverBudget refused }
  | unmarked (profile : ScreenProfile T) (known : s.profile = some profile) (edgeSeq : ℕ)
      (reason : EdgeReason) (status : s.status = .dirty edgeSeq reason)
      (absent : Marker.find profile.redrawMarker (s.tail ++ bytes) = none) :
      Pushes s bytes modesAt
        { s with outSeq := s.outSeq + bytes.length,
                 tail := Marker.held profile.redrawMarker (s.tail ++ bytes) }
  | started (profile : ScreenProfile T) (known : s.profile = some profile) (edgeSeq : ℕ)
      (reason : EdgeReason) (status : s.status = .dirty edgeSeq reason) (place : ℕ)
      (found : Marker.find profile.redrawMarker (s.tail ++ bytes) = some place)
      (parser : MeteredParser T)
      (fed : parser = (MeteredParser.new T s.rows s.cols).fedWith
        (modesAt (place - s.tail.length) ++ (s.tail ++ bytes).drop place))
      (becomes : EvidenceStatus)
      (pending : becomes.isPending = true ∨ (becomes.isClean = true ∧
        profile.widthWitness (T.screen parser.parser) s.widths = true)) :
      Pushes s bytes modesAt
        { s with outSeq := s.outSeq + bytes.length, tail := [], parser := some parser,
                 status := becomes }

theorem unrefused_of_running {status : EvidenceStatus}
    (running : status.isPending = true ∨ status.isClean) :
    status.isRefused = false ∧ status.isGeometryUnknown = false := by
  cases status with
  | pending _ _ => exact ⟨rfl, rfl⟩
  | clean _ => exact ⟨rfl, rfl⟩
  | dirty _ _ => exact ⟨rfl, rfl⟩
  | unprofiled => exact ⟨rfl, rfl⟩
  | geometryUnknown _ | workOverBudget _ =>
    exact running.elim (absurd · Bool.false_ne_true) (absurd · Bool.false_ne_true)
  | overBudget _ => exact running.elim (absurd · Bool.false_ne_true) (absurd · Bool.false_ne_true)

theorem pushes_running {parser : MeteredParser T} {profile : ScreenProfile T}
    (known : s.profile = some profile) (running : s.parser = some parser) (bytes : Bytes)
    (modesAt : ℕ → Bytes) (status : s.status.isPending = true ∨ s.status.isClean) :
    Pushes s bytes modesAt (s.push bytes modesAt).1 := by
  have nonempty : s.profile ≠ none := by
    rw [known]
    exact Option.some_ne_none profile
  have unrefused := unrefused_of_running status
  unfold push
  simp only [known]
  split
  · rename_i sinceSeq afterEdge pending
    rcases feed_cases running bytes with fits | ⟨refused, ended, stops⟩
    · rw [fits]
      rcases checkWitness_cases { s with
          outSeq := s.outSeq + bytes.length, parser := some (parser.fedWith bytes) }
        profile sinceSeq none with same | ⟨same, other, running', witness⟩
      · rw [same]
        exact .fed parser running status
      · rw [same]
        cases running'
        refine .shown parser running ?_ profile known witness sinceSeq
        rw [pending]
        rfl
    · rw [stops]
      exact .refused nonempty unrefused s.tail refused
  · rcases feed_cases running bytes with fits | ⟨refused, ended, stops⟩
    · rw [fits]
      exact .fed parser running status
    · rw [stops]
      exact .refused nonempty unrefused s.tail refused
  · rename_i other
    rw [other] at status
    simp [EvidenceStatus.isPending, EvidenceStatus.isClean] at status
  all_goals
    rename_i other
    rw [other] at status
    simp [EvidenceStatus.isPending, EvidenceStatus.isClean] at status

theorem pushes_dirty {profile : ScreenProfile T} {edgeSeq : ℕ} {reason : EdgeReason}
    (known : s.profile = some profile) (bytes : Bytes) (modesAt : ℕ → Bytes)
    (parser : s.parser = none) (status : s.status = .dirty edgeSeq reason) :
    Pushes s bytes modesAt (s.push bytes modesAt).1 := by
  have push : (s.push bytes modesAt).1 = (s.pushDirty profile edgeSeq bytes modesAt).1 := by
    simp only [EvidenceState.push, known, status]
  rw [push]
  rcases pushDirty_cases s profile edgeSeq bytes modesAt with
    ⟨absent, same⟩ | ⟨refused, same⟩ | ⟨place, sinceSeq, found, same⟩
  · rw [same]
    exact .unmarked profile known edgeSeq reason status absent
  · rw [same, parser]
    refine .refused ?_ ?_ [] refused
    · rw [known]
      exact Option.some_ne_none profile
    · rw [status]
      exact ⟨rfl, rfl⟩
  · rw [same]
    rcases checkWitness_cases { s with
        outSeq := s.outSeq + bytes.length, tail := [],
        parser := some ((MeteredParser.new T s.rows s.cols).fedWith
          (modesAt (place - s.tail.length) ++ (s.tail ++ bytes).drop place)),
        status := .pending sinceSeq (some edgeSeq) } profile sinceSeq (some sinceSeq) with
      same | ⟨same, other, running, witness⟩
    · rw [same]
      exact .started profile known edgeSeq reason status place found _ rfl _ (.inl rfl)
    · rw [same]
      cases running
      exact .started profile known edgeSeq reason status place found _ rfl _ (.inr ⟨rfl, witness⟩)

/-- A parser runs exactly where the state is Pending or Clean, and nothing is tracked without a
profile. -/
structure Running (s : EvidenceState T) : Prop where
  parser : s.parser.isSome = (s.status.isPending || s.status.isClean)
  unprofiled : s.profile = none → s.status = .unprofiled

theorem Running.pushes (runs : s.Running) (bytes : Bytes) (modesAt : ℕ → Bytes) :
    Pushes s bytes modesAt (s.push bytes modesAt).1 := by
  cases known : s.profile with
  | none =>
    have push : (s.push bytes modesAt).1 = { s with outSeq := s.outSeq + bytes.length } := by
      simp only [EvidenceState.push, known]
    rw [push]
    refine .counted ?_ (.inl known)
    rw [runs.unprofiled known]
    exact ⟨rfl, rfl⟩
  | some profile =>
    have parser := runs.parser
    cases status : s.status with
    | pending sinceSeq afterEdge =>
      rw [status] at parser
      rcases Option.isSome_iff_exists.mp parser with ⟨running, same⟩
      refine pushes_running known same bytes modesAt (.inl ?_)
      rw [status]
      rfl
    | clean sinceSeq =>
      rw [status] at parser
      rcases Option.isSome_iff_exists.mp parser with ⟨running, same⟩
      refine pushes_running known same bytes modesAt (.inr ?_)
      rw [status]
      rfl
    | dirty edgeSeq reason =>
      rw [status] at parser
      exact pushes_dirty known bytes modesAt (Option.isSome_eq_false_iff.mp parser |>
        Option.isNone_iff_eq_none.mp) status
    | unprofiled | geometryUnknown _ | overBudget _ | workOverBudget _ =>
      have push : (s.push bytes modesAt).1 = { s with outSeq := s.outSeq + bytes.length } := by
        simp only [EvidenceState.push, known, status]
      rw [push]
      refine .counted ?_ (.inr ?_)
      · rw [status]
        exact ⟨rfl, rfl⟩
      · rw [status]
        exact nofun

/-! ## What every call keeps -/

/-- What holds of the state after these calls, for a generation that starts with this profile and
this size. -/
structure Kept (profile : Option (ScreenProfile T)) (rows cols : UInt16) (calls : List (Call T))
    (s : EvidenceState T) : Prop where
  total : s.outSeq = (pushed calls).length
  geometry : (s.rows, s.cols) = geometry rows cols calls
  known : s.profile = knownProfile profile calls
  running : s.Running
  drawn : ∀ parser, s.parser = some parser → Drawn profile calls s.rows s.cols parser
  waits : ∀ edgeSeq reason, s.status = .dirty edgeSeq reason → Waits profile calls s.tail edgeSeq

section Kept

variable {profile : Option (ScreenProfile T)} {rows cols : UInt16} {calls : List (Call T)}
  {s : EvidenceState T}

theorem kept_new (profile : Option (ScreenProfile T)) (rows cols : UInt16) :
    Kept profile rows cols [] (new profile rows cols) := by
  cases profile with
  | none =>
    exact ⟨rfl, rfl, rfl, ⟨rfl, fun _ => rfl⟩, nofun,
      nofun⟩
  | some screen =>
    by_cases within : withinBudget rows cols = true
    · have same : new (some screen) rows cols =
          { profile := some screen, rows := rows, cols := cols, layoutEpoch := 0, outSeq := 0,
            status := .pending 0 none, parser := some (.new T rows cols), widths := .of_ cols,
            tail := [] } := by
        simp only [new, within, if_true]
      rw [same]
      refine ⟨rfl, rfl, rfl, ⟨rfl, nofun⟩, ?_,
        nofun⟩
      intro parser running
      cases running
      exact .fromStart (Option.some_ne_none screen) (fun _ among => absurd among List.not_mem_nil)
        rfl
    · have same : new (some screen) rows cols =
          { profile := some screen, rows := rows, cols := cols, layoutEpoch := 0, outSeq := 0,
            status := .overBudget 0, parser := none, widths := .of_ cols, tail := [] } := by
        simp only [new, within, Bool.false_eq_true, if_false]
      rw [same]
      exact ⟨rfl, rfl, rfl, ⟨rfl, nofun⟩, nofun,
        nofun⟩

theorem Kept.pushed_concat (kept : Kept profile rows cols calls s) (bytes : Bytes)
    (modesAt : ℕ → Bytes) :
    s.outSeq + bytes.length = (pushed (calls ++ [Call.push bytes modesAt])).length ∧
      (s.rows, s.cols) = Evidence.geometry rows cols (calls ++ [Call.push bytes modesAt]) ∧
      s.profile = knownProfile profile (calls ++ [Call.push bytes modesAt]) := by
  rw [Evidence.pushed_concat, geometry_concat, knownProfile_concat,
    List.length_append, ← kept.total,
    ← kept.geometry, ← kept.known]
  exact ⟨rfl, rfl, rfl⟩

theorem Kept.push (kept : Kept profile rows cols calls s) (bytes : Bytes) (modesAt : ℕ → Bytes) :
    Kept profile rows cols (calls ++ [Call.push bytes modesAt]) (s.push bytes modesAt).1 := by
  rcases kept.pushed_concat bytes modesAt with ⟨total, size, known⟩
  have pushes := kept.running.pushes bytes modesAt
  generalize (s.push bytes modesAt).1 = s' at pushes
  have profiled : s.profile ≠ none → ∀ status : EvidenceStatus, s.profile = none →
      status = .unprofiled := fun nonempty _ missing => absurd missing nonempty
  cases pushes with
  | counted still idle =>
    refine ⟨total, size, known, ⟨kept.running.parser, kept.running.unprofiled⟩, ?_, ?_⟩
    · intro parser running
      have missing := kept.running.parser
      simp only [still.1, still.2] at missing
      rw [running] at missing
      cases missing
    · intro edgeSeq reason status
      rcases idle with missing | other
      · rw [kept.running.unprofiled missing] at status
        cases status
      · exact absurd status (other edgeSeq reason)
  | fed parser running status =>
    refine ⟨total, size, known, ⟨?_, kept.running.unprofiled⟩, ?_, ?_⟩
    · rcases status with pending | clean
      · simp only [pending, Bool.true_or, Option.isSome_some]
      · simp only [clean, Bool.or_true, Option.isSome_some]
    · intro other same
      cases same
      exact (kept.drawn parser running).concat (Call.still_push bytes modesAt)
    · intro edgeSeq reason same
      rw [same] at status
      exact status.elim (absurd · Bool.false_ne_true) (absurd · Bool.false_ne_true)
  | shown parser running status screen knownHere witness sinceSeq =>
    refine ⟨total, size, known, ⟨rfl, ?_⟩, ?_, nofun⟩
    · rw [knownHere] at profiled
      exact profiled (Option.some_ne_none screen) _ ∘ knownHere.symm.trans
    · intro other same
      cases same
      exact (kept.drawn parser running).concat (Call.still_push bytes modesAt)
  | refused knownHere recognised tail refused =>
    exact ⟨total, size, known, ⟨rfl, profiled knownHere _⟩, nofun,
      nofun⟩
  | unmarked screen knownHere edgeSeq reason status absent =>
    have waits := kept.waits edgeSeq reason status
    refine ⟨total, size, known, ⟨kept.running.parser, kept.running.unprofiled⟩, ?_, ?_⟩
    · intro parser running
      have missing := kept.running.parser
      rw [running, status] at missing
      cases missing
    · intro other because same
      rw [status] at same
      cases same
      exact waits.push (kept.known.symm.trans knownHere) modesAt absent
  | started screen knownHere edgeSeq reason status place found parser fed becomes pending =>
    have waits := kept.waits edgeSeq reason status
    refine ⟨total, size, known, ⟨?_, ?_⟩, ?_, ?_⟩
    · rcases pending with pending | ⟨clean, _⟩
      · simp only [pending, Bool.true_or, Option.isSome_some]
      · simp only [clean, Bool.or_true, Option.isSome_some]
    · intro missing
      rw [knownHere] at missing
      cases missing
    · intro other same
      cases same
      rw [fed]
      exact waits.found (kept.known.symm.trans knownHere) modesAt found s.rows s.cols
    · intro other because same
      simp only at same
      rw [same] at pending
      exact pending.elim (absurd · Bool.false_ne_true) (absurd ·.1 Bool.false_ne_true)

theorem Kept.startsOver (kept : Kept profile rows cols calls s) (call : Call T)
    (startsOver : call.StartsOver s.profile) {s' : EvidenceState T}
    (total : s'.outSeq = s.outSeq) (size : (s'.rows, s'.cols) = call.resize (s.rows, s.cols))
    (known : s'.profile = call.learn s.profile) (nonempty : s'.profile ≠ none)
    (parser : s'.parser = none) (tail : s'.tail = [])
    (status : s'.status = .dirty s.outSeq .profileLearned ∨
      (∃ reason, s'.status = .dirty s.outSeq reason) ∨ ∃ seq, s'.status = .overBudget seq) :
    Kept profile rows cols (calls ++ [call]) s' := by
  have ended := startsOver
  rw [kept.known] at ended
  have nothing : pushed (calls ++ [call]) = pushed calls := by
    rw [Evidence.pushed_concat, Call.bytes_of_startsOver ended, List.append_nil]
  have waits : Waits profile (calls ++ [call]) s'.tail s.outSeq := by
    refine ⟨calls, call, [], ⟨rfl, ended, ?_, nofun⟩, kept.total, ?_⟩
    · rw [← kept.known, ← known]
      exact nonempty
    · intro screen _
      rw [tail]
      exact ⟨(Marker.held_nil _).symm, fun marked => Marker.absent_nil marked⟩
  refine ⟨?_, ?_, ?_, ⟨?_, fun absent => absurd absent nonempty⟩, ?_, ?_⟩
  · rw [total, nothing]
    exact kept.total
  · rw [size, geometry_concat, kept.geometry]
  · rw [known, knownProfile_concat, kept.known]
  · rw [parser]
    rcases status with same | ⟨reason, same⟩ | ⟨seq, same⟩
    · rw [same]
      rfl
    · rw [same]
      rfl
    · rw [same]
      rfl
  · intro other running
    rw [parser] at running
    cases running
  · intro edgeSeq reason same
    rcases status with other | ⟨because, other⟩ | ⟨seq, other⟩
    · rw [other] at same
      cases same
      exact waits
    · rw [other] at same
      cases same
      exact waits
    · rw [other] at same
      cases same

theorem Kept.unprofiled (kept : Kept profile rows cols calls s) (absent : s.profile = none)
    {call : Call T} {s' : EvidenceState T} (bytes : call.bytes = [])
    (learns : call.learn none = none) (total : s'.outSeq = s.outSeq)
    (size : (s'.rows, s'.cols) = call.resize (s.rows, s.cols)) (known : s'.profile = none)
    (parser : s'.parser = s.parser) (status : s'.status = s.status) :
    Kept profile rows cols (calls ++ [call]) s' := by
  have unprofiled := kept.running.unprofiled absent
  have stopped := kept.running.parser
  rw [unprofiled] at stopped
  have notRunning := Option.isNone_iff_eq_none.mp (Option.isSome_eq_false_iff.mp stopped)
  refine ⟨?_, ?_, ?_, ⟨?_, fun _ => status.trans unprofiled⟩, ?_, ?_⟩
  · rw [total, Evidence.pushed_concat, bytes, List.append_nil]
    exact kept.total
  · rw [size, geometry_concat, kept.geometry]
  · rw [known, knownProfile_concat, ← kept.known, absent, learns]
  · rw [parser, status]
    exact kept.running.parser
  · intro other running
    rw [parser, notRunning] at running
    cases running
  · intro edgeSeq reason same
    rw [status, unprofiled] at same
    cases same

theorem afterEdge_cases (s : EvidenceState T) (reason : EdgeReason) :
    s.afterEdge reason = .dirty s.outSeq reason ∨ s.afterEdge reason = .overBudget s.outSeq := by
  unfold afterEdge
  split
  · exact .inl rfl
  · exact .inr rfl

theorem Kept.edge (kept : Kept profile rows cols calls s) (reason : EdgeReason)
    (newRows newCols : UInt16) :
    Kept profile rows cols (calls ++ [Call.edge reason newRows newCols])
      (s.edge reason newRows newCols).1 := by
  cases known : s.profile with
  | none =>
    refine kept.unprofiled known rfl rfl ?_ ?_ ?_ ?_ ?_
    all_goals simp only [EvidenceState.edge, known, Call.resize]
  | some screen =>
    have edge : (s.edge reason newRows newCols).1 =
        { s with rows := newRows, cols := newCols, layoutEpoch := s.layoutEpoch + 1,
                 widths := s.widths.record newCols, parser := none, tail := [],
                 status := afterEdge { s with rows := newRows, cols := newCols } reason } := by
      simp only [EvidenceState.edge, known, transition, afterEdge]
    rw [edge]
    refine kept.startsOver (.edge reason newRows newCols) trivial rfl rfl rfl ?_ rfl rfl (.inr ?_)
    · rw [known]
      exact Option.some_ne_none screen
    · rcases afterEdge_cases { s with rows := newRows, cols := newCols } reason with same | same
      · exact .inl ⟨reason, same⟩
      · exact .inr ⟨s.outSeq, same⟩

theorem Kept.adopt (kept : Kept profile rows cols calls s) (screen : ScreenProfile T) :
    Kept profile rows cols (calls ++ [Call.adopt screen]) (s.adopt screen).1 := by
  cases known : s.profile with
  | none =>
    have adopt : (s.adopt screen).1 =
        { s with profile := some screen, layoutEpoch := s.layoutEpoch + 1, parser := none,
                 tail := [], status := s.afterEdge .profileLearned } := by
      simp only [EvidenceState.adopt, known, transition]
    rw [adopt]
    refine kept.startsOver (.adopt screen) known rfl rfl ?_ (Option.some_ne_none screen)
      rfl rfl (.inr ?_)
    · rw [known]
      rfl
    · rcases afterEdge_cases s .profileLearned with same | same
      · exact .inl ⟨.profileLearned, same⟩
      · exact .inr ⟨s.outSeq, same⟩
  | some other =>
    have adopt : (s.adopt screen).1 = s := by simp only [EvidenceState.adopt, known]
    have nonempty : s.profile ≠ none := by
      rw [known]
      exact Option.some_ne_none other
    rw [adopt]
    refine ⟨?_, ?_, ?_, kept.running, ?_, ?_⟩
    · rw [Evidence.pushed_concat]
      simp only [Call.bytes, List.append_nil]
      exact kept.total
    · rw [geometry_concat, ← kept.geometry]
      rfl
    · rw [knownProfile_concat, ← kept.known, Call.learn_known nonempty]
    · exact fun parser running => (kept.drawn parser running).concat (Call.still_adopt screen)
    · exact fun edgeSeq reason status => (kept.waits edgeSeq reason status).adopt screen

theorem Kept.geometryUnknown (kept : Kept profile rows cols calls s) :
    Kept profile rows cols (calls ++ [Call.geometryUnknown]) s.geometryUnknown.1 := by
  cases known : s.profile with
  | none =>
    refine kept.unprofiled known rfl rfl ?_ ?_ ?_ ?_ ?_
    all_goals simp only [EvidenceState.geometryUnknown, known, Call.resize]
  | some screen =>
    have unknown : s.geometryUnknown.1 =
        { s with layoutEpoch := s.layoutEpoch + 1, parser := none, tail := [],
                 status := .geometryUnknown s.outSeq } := by
      simp only [EvidenceState.geometryUnknown, known, transition]
    rw [unknown]
    refine ⟨?_, ?_, ?_, ⟨rfl, ?_⟩, nofun, nofun⟩
    · rw [Evidence.pushed_concat]
      simp only [Call.bytes, List.append_nil]
      exact kept.total
    · rw [geometry_concat, ← kept.geometry]
      rfl
    · rw [knownProfile_concat, ← kept.known]
      rfl
    · intro absent
      rw [known] at absent
      cases absent

theorem Kept.step (kept : Kept profile rows cols calls s) (call : Call T) :
    Kept profile rows cols (calls ++ [call]) (s.step call) := by
  cases call with
  | push bytes modesAt => exact kept.push bytes modesAt
  | edge reason newRows newCols => exact kept.edge reason newRows newCols
  | adopt screen => exact kept.adopt screen
  | geometryUnknown => exact kept.geometryUnknown

theorem kept_run (profile : Option (ScreenProfile T)) (rows cols : UInt16) (calls : List (Call T)) :
    Kept profile rows cols calls (run profile rows cols calls) := by
  induction calls using List.reverseRecOn with
  | nil => exact kept_new profile rows cols
  | append_singleton calls call ih =>
    rw [run_concat]
    exact ih.step call

end Kept

end EvidenceState

end AgentDeck.Evidence
