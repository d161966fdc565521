import AgentDeck.Evidence.Current

/-!
# Clean frames

How a state turns Clean, what a state that recognises nothing waits for, and when a frame that was
read still stands.
-/

namespace AgentDeck.Evidence

variable {T : Terminal}

namespace Call

def IsEdge : Call T → Prop
  | edge _ _ _ => True
  | _ => False

def IsUnknown : Call T → Prop
  | geometryUnknown => True
  | _ => False

/-- The call gives a state with a profile nothing: no byte, and no layout edge. -/
def Idle : Call T → Prop
  | push bytes _ => bytes = []
  | adopt _ => True
  | _ => False

end Call

namespace EvidenceState

/-! ## Turning Clean, and recognising nothing -/

variable {s : EvidenceState T} {call : Call T}

theorem Running.clean_entered (runs : s.Running) (clean : (s.step call).status.isClean)
    (was : s.status.isClean = false) :
    ∃ bytes modesAt profile parser, call = .push bytes modesAt ∧
      (s.step call).profile = some profile ∧ (s.step call).parser = some parser ∧
      profile.widthWitness (T.screen parser.parser) (s.step call).widths = true := by
  cases call with
  | push bytes modesAt =>
    have pushes := runs.pushes bytes modesAt
    rw [step] at clean ⊢
    generalize (s.push bytes modesAt).1 = s' at pushes clean
    cases pushes with
    | counted still idle => exact absurd (clean.symm.trans was) (by simp)
    | fed parser running status => exact absurd (clean.symm.trans was) (by simp)
    | shown parser running status profile known witness sinceSeq =>
      exact ⟨bytes, modesAt, profile, _, rfl, known, rfl, witness⟩
    | refused known recognised tail refused => cases clean
    | unmarked profile known edgeSeq reason status absent =>
      cases clean.symm.trans was
    | started profile known edgeSeq reason status place found parser fed becomes pending =>
      rcases pending with pending | ⟨_, witness⟩
      · cases becomes with
        | pending _ _ => cases clean
        | clean _ => cases pending
        | _ => cases clean
      · exact ⟨bytes, modesAt, profile, parser, rfl, known, rfl, witness⟩
  | edge reason rows cols =>
    simp only [step, edge] at clean
    split at clean
    · cases clean.symm.trans was
    · simp only [afterEdge] at clean
      split at clean
      · cases clean
      · cases clean
  | adopt profile =>
    simp only [step, adopt] at clean
    split at clean
    · cases clean.symm.trans was
    · simp only [afterEdge] at clean
      split at clean
      · cases clean
      · cases clean
  | geometryUnknown =>
    simp only [step, geometryUnknown] at clean
    split at clean
    · cases clean.symm.trans was
    · cases clean

theorem Running.stays (runs : s.Running)
    (stopped : s.status.isGeometryUnknown = true ∨ s.status.isRefused) (still : call.Still) :
    (s.step call).status = s.status := by
  cases call with
  | push bytes modesAt =>
    have pushes := runs.pushes bytes modesAt
    rw [step]
    generalize (s.push bytes modesAt).1 = s' at pushes
    cases pushes with
    | counted _ _ => rfl
    | fed _ _ _ => rfl
    | unmarked _ _ _ _ _ _ => rfl
    | shown parser running status profile known witness sinceSeq =>
      rcases unrefused_of_running (.inl status) with ⟨unrefused, known⟩
      exact stopped.elim (absurd · (by simp [known])) (absurd · (by simp [unrefused]))
    | refused known recognised tail refused =>
      exact stopped.elim (absurd · (by simp [recognised.2])) (absurd · (by simp [recognised.1]))
    | started profile known edgeSeq reason status place found parser fed becomes pending =>
      rw [status] at stopped
      exact stopped.elim (absurd · Bool.false_ne_true) (absurd · Bool.false_ne_true)
  | adopt profile =>
    simp only [step, adopt]
    split
    · rfl
    · rename_i absent
      rw [runs.unprofiled absent] at stopped
      exact stopped.elim (absurd · Bool.false_ne_true) (absurd · Bool.false_ne_true)
  | edge reason rows cols => exact still.elim
  | geometryUnknown => exact still.elim

theorem unknown_stays (was : s.status.isGeometryUnknown) :
    (s.step .geometryUnknown).status.isGeometryUnknown := by
  simp only [step, geometryUnknown]
  split
  · exact was
  · rfl

/-! ## Frames -/

theorem cleanFrameMarked_eq {grid : T.Grid} {mark : FrameMark}
    (marked : s.cleanFrameMarked = some (grid, mark)) :
    s.status.isClean = true ∧ s.parser.isSome = true ∧
      mark = { layoutEpoch := s.layoutEpoch, outSeq := s.outSeq } := by
  simp only [cleanFrameMarked, Option.map_eq_some_iff, Prod.mk.injEq] at marked
  rcases marked with ⟨frame, clean, _, same⟩
  unfold cleanFrame at clean
  split at clean
  · rename_i seq parser status running
    rw [status, running]
    exact ⟨rfl, rfl, same.symm⟩
  · cases clean

theorem Pushes.counts {s' : EvidenceState T} {bytes : Bytes} {modesAt : ℕ → Bytes}
    (pushes : Pushes s bytes modesAt s') :
    s'.outSeq = s.outSeq + bytes.length ∧ s'.layoutEpoch = s.layoutEpoch := by
  cases pushes with
  | counted _ _ | fed _ _ _ | shown _ _ _ _ _ _ _ | refused _ _ _ _ | unmarked _ _ _ _ _ _
  | started _ _ _ _ _ _ _ _ _ _ _ => exact ⟨rfl, rfl⟩

def place (s : EvidenceState T) : ℕ := s.layoutEpoch + s.outSeq

theorem Running.place_le (runs : s.Running) (call : Call T) : s.place ≤ (s.step call).place := by
  simp only [place]
  cases call with
  | push bytes modesAt =>
    rcases (runs.pushes bytes modesAt).counts with ⟨more, same⟩
    rw [step]
    omega
  | edge reason rows cols =>
    simp only [step, edge]
    split
    · simp only []
      omega
    · simp only [transition]
      omega
  | adopt profile =>
    simp only [step, adopt]
    split
    · exact le_rfl
    · simp only [transition]
      omega
  | geometryUnknown =>
    simp only [step, geometryUnknown]
    split
    · simp only []
      omega
    · simp only [transition]
      omega

theorem Running.place_lt (runs : s.Running) (busy : ¬ call.Idle) :
    s.place < (s.step call).place := by
  cases call with
  | push bytes modesAt =>
    rcases (runs.pushes bytes modesAt).counts with ⟨more, same⟩
    have nonempty : 0 < bytes.length := List.length_pos_of_ne_nil busy
    rw [step]
    simp only [place]
    omega
  | edge reason rows cols =>
    simp only [place, step, edge]
    split
    · simp only []
      omega
    · simp only [transition]
      omega
  | adopt profile => exact absurd trivial busy
  | geometryUnknown =>
    simp only [place, step, geometryUnknown]
    split
    · simp only []
      omega
    · simp only [transition]
      omega

theorem Running.idle (runs : s.Running) (clean : s.status.isClean) (idle : call.Idle) :
    s.step call = s := by
  have nonempty : s.profile ≠ none := by
    intro absent
    rw [runs.unprofiled absent] at clean
    cases clean
  rcases Option.ne_none_iff_exists'.mp nonempty with ⟨profile, known⟩
  have parser := runs.parser
  rw [clean, Bool.or_true] at parser
  rcases Option.isSome_iff_exists.mp parser with ⟨running, same⟩
  cases call with
  | push bytes modesAt =>
    have nothing : bytes = [] := idle
    subst nothing
    cases status : s.status with
    | clean sinceSeq =>
      simp only [step, push, known, status, feed, same, MeteredParser.feedBytes, List.length_nil,
        Nat.add_zero]
      rw [← known, ← status, ← same]
    | _ =>
      rw [status] at clean
      cases clean
  | adopt other => simp only [step, adopt, known]
  | edge _ _ _ => exact idle.elim
  | geometryUnknown => exact idle.elim

end EvidenceState

/-! ## After any calls -/

variable (profile : Option (ScreenProfile T))

theorem run_append (rows cols : UInt16) (calls later : List (Call T)) :
    run profile rows cols (calls ++ later) =
      later.foldl EvidenceState.step (run profile rows cols calls) :=
  List.foldl_append

theorem place_le_run (rows cols : UInt16) (calls later : List (Call T)) :
    (run profile rows cols calls).place ≤ (run profile rows cols (calls ++ later)).place := by
  induction later using List.reverseRecOn with
  | nil =>
    rw [List.append_nil]
  | append_singleton later call ih =>
    rw [← List.append_assoc, run_concat]
    exact ih.trans ((EvidenceState.kept_run profile rows cols _).running.place_le call)

theorem run_idle {profile : Option (ScreenProfile T)} {rows cols : UInt16}
    {calls later : List (Call T)} (clean : (run profile rows cols calls).status.isClean)
    (idle : ∀ call ∈ later, call.Idle) :
    run profile rows cols (calls ++ later) = run profile rows cols calls := by
  induction later using List.reverseRecOn with
  | nil => rw [List.append_nil]
  | append_singleton later call ih =>
    have same := ih (fun other among => idle other (List.mem_append_left _ among))
    rw [← List.append_assoc, run_concat, same]
    exact (EvidenceState.kept_run profile rows cols calls).running.idle clean
      (idle call (List.mem_append_right _ (List.mem_singleton_self call)))

theorem place_lt_run (rows cols : UInt16) (calls : List (Call T)) {later : List (Call T)}
    {call : Call T} (among : call ∈ later) (busy : ¬ call.Idle) :
    (run profile rows cols calls).place < (run profile rows cols (calls ++ later)).place := by
  rcases List.append_of_mem among with ⟨before, after, split⟩
  have first := place_le_run profile rows cols calls before
  have middle := (EvidenceState.kept_run profile rows cols (calls ++ before)).running.place_lt busy
  have last := place_le_run profile rows cols (calls ++ before ++ [call]) after
  rw [run_concat] at last
  have same : calls ++ later = calls ++ before ++ [call] ++ after := by
    rw [split, List.append_assoc, List.append_assoc]
    rfl
  rw [same]
  omega

theorem frame_unchanged_iff {profile : Option (ScreenProfile T)} {rows cols : UInt16}
    {calls : List (Call T)} {grid : T.Grid} {mark : FrameMark}
    (marked : (run profile rows cols calls).cleanFrameMarked = some (grid, mark))
    (later : List (Call T)) :
    (run profile rows cols (calls ++ later)).frameUnchanged mark = true ↔
      ∀ call ∈ later, call.Idle := by
  rcases EvidenceState.cleanFrameMarked_eq marked with ⟨clean, running, same⟩
  constructor
  · intro unchanged call among
    refine Classical.byContradiction fun busy => ?_
    have moved := place_lt_run profile rows cols calls among busy
    simp only [EvidenceState.frameUnchanged, Bool.and_eq_true, decide_eq_true_eq] at unchanged
    subst same
    simp only [EvidenceState.place] at moved unchanged
    omega
  · intro idle
    rw [run_idle clean idle, same]
    simp only [EvidenceState.frameUnchanged, clean, running, decide_true, Bool.and_self]

/-- What holds after these calls, and of every call and every read that comes next. -/
structure Evidenced (profile : Option (ScreenProfile T)) (rows cols : UInt16)
    (calls : List (Call T)) (s : EvidenceState T) : Prop where
  parser : s.parser.isSome = true ↔ s.status.isPending = true ∨ s.status.isClean = true
  drawn : ∀ parser, s.parser = some parser → Drawn profile calls s.rows s.cols parser
  size : (s.rows, s.cols) = geometry rows cols calls
  total : s.outSeq = (pushed calls).length
  entered : ∀ call, s.status.isClean = false → (s.step call).status.isClean = true →
    ∃ bytes modesAt screen parser, call = .push bytes modesAt ∧
      (s.step call).profile = some screen ∧ (s.step call).parser = some parser ∧
      screen.widthWitness (T.screen parser.parser) (s.step call).widths = true
  unknown : ∀ call, s.status.isGeometryUnknown = true →
    (s.step call).status.isGeometryUnknown = false → call.IsEdge
  refused : ∀ call, s.status.isRefused = true → (s.step call).status ≠ s.status →
    call.IsEdge ∨ call.IsUnknown
  stands : ∀ grid mark (later : List (Call T)), s.cleanFrameMarked = some (grid, mark) →
    ((later.foldl EvidenceState.step s).frameUnchanged mark = true ↔ ∀ call ∈ later, call.Idle)
  same : ∀ grid mark (later : List (Call T)), s.cleanFrameMarked = some (grid, mark) →
    (later.foldl EvidenceState.step s).frameUnchanged mark = true →
      (later.foldl EvidenceState.step s).cleanFrameMarked = some (grid, mark)

/-- Evidence is read only from a parser at the current size, fed from the start or from the first
marker after the last edge, and a frame stands exactly until a byte or a layout edge. -/
theorem evidence_current (profile : Option (ScreenProfile T)) (rows cols : UInt16)
    (calls : List (Call T)) : Evidenced profile rows cols calls (run profile rows cols calls) := by
  have kept := EvidenceState.kept_run profile rows cols calls
  refine ⟨?_, kept.drawn, kept.geometry, kept.total,
    fun call was clean => kept.running.clean_entered clean was, ?_, ?_, ?_, ?_⟩
  · rw [kept.running.parser, Bool.or_eq_true]
  · intro call was left
    cases call with
    | edge _ _ _ => trivial
    | push bytes modesAt =>
      rw [kept.running.stays (.inl was) (Call.still_push bytes modesAt), was] at left
      cases left
    | adopt other =>
      rw [kept.running.stays (.inl was) (Call.still_adopt other), was] at left
      cases left
    | geometryUnknown =>
      rw [EvidenceState.unknown_stays was] at left
      cases left
  · intro call was left
    cases call with
    | edge _ _ _ => exact .inl trivial
    | geometryUnknown => exact .inr trivial
    | push bytes modesAt =>
      exact absurd (kept.running.stays (.inr was) (Call.still_push bytes modesAt)) left
    | adopt other => exact absurd (kept.running.stays (.inr was) (Call.still_adopt other)) left
  · intro grid mark later marked
    rw [← run_append]
    exact frame_unchanged_iff marked later
  · intro grid mark later marked unchanged
    rw [← run_append] at unchanged ⊢
    rw [run_idle (EvidenceState.cleanFrameMarked_eq marked).1
      ((frame_unchanged_iff marked later).mp unchanged)]
    exact marked

/-! ## A geometry over the budget, and then unknown -/

def blankTerminal : Terminal where
  Parser := Unit
  Screen := Unit
  Grid := Unit
  new _ _ := ()
  price _ _ := 1
  process _ _ := ()
  screen _ := ()
  gridOf _ _ := ()

def blankProfile : ScreenProfile blankTerminal :=
  { redrawMarker := [27, 91, 72], widthWitness := fun _ _ => true }

theorem over_budget_left_by_unknown_geometry :
    ¬ ∀ (T : Terminal) (profile : Option (ScreenProfile T)) (rows cols : UInt16)
      (calls : List (Call T)) (call : Call T),
      (run profile rows cols calls).status.isRefused = true →
        ((run profile rows cols calls).step call).status.isRefused = false → call.IsEdge := by
  intro holds
  exact holds blankTerminal (some blankProfile) 1000 1000 [] .geometryUnknown
    (by decide) (by decide)

end AgentDeck.Evidence
