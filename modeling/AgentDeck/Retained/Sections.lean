import AgentDeck.Retained.Rooms

/-!
# What a section does to the store's maps

Most sections only ease the store: they add no file and no stray, raise no sum, and change at most
the state of files that are there. The accounting of a write is the one that adds entries.
-/

namespace AgentDeck.Retained

/-! ## Sizes of maps -/

theorem length_eq_total {κ : Type*} {ν : Type*} [LinearOrder κ] (map : SortedMap κ ν) :
    map.entries.length = map.total fun _ _ => 1 := by
  simp only [SortedMap.total, List.map_const', List.sum_replicate_nat, mul_one]

theorem length_erase_le {κ : Type*} {ν : Type*} [LinearOrder κ] (map : SortedMap κ ν) (key : κ) :
    (map.erase key).entries.length ≤ map.entries.length := by
  have parts := map.total_erase (fun _ _ => 1) key
  rw [length_eq_total, length_eq_total]
  omega

theorem length_insert_le {κ : Type*} {ν : Type*} [LinearOrder κ] (map : SortedMap κ ν) (key : κ)
    (value : ν) : (map.insert key value).entries.length ≤ map.entries.length + 1 := by
  have parts := map.total_insert (fun _ _ => 1) key value
  rw [length_eq_total, length_eq_total]
  omega

theorem length_insert_of_some {κ : Type*} {ν : Type*} [LinearOrder κ] {map : SortedMap κ ν}
    {key : κ} {old : ν} (found : map.get? key = some old) (value : ν) :
    (map.insert key value).entries.length = map.entries.length := by
  have parts := map.total_insert (fun _ _ => 1) key value
  rw [found, Option.map_some, Option.getD_some] at parts
  rw [length_eq_total, length_eq_total]
  omega

/-! ## Sections that ease the store -/

/-- A file after a section that may have set its state at one of the given wall times. -/
structure FileEases (walls : Set ℤ) (old new : OwnFile) : Prop where
  createdAt : new.createdAt = old.createdAt
  bytes : new.bytes = old.bytes
  time : ∀ time ∈ new.state.time, old.state.time = some time ∨ time ∈ walls
  orphaned : old.state = .orphanUnlink → new.state = .orphanUnlink

theorem FileEases.same (walls : Set ℤ) (file : OwnFile) : FileEases walls file file :=
  ⟨rfl, rfl, fun _ found => Or.inl found, id⟩

/-- Nothing is added and no sum grows. -/
structure Eases (walls : Set ℤ) (st after : StoreState) : Prop where
  config : after.config = st.config
  own : ∀ name file, after.own.get? name = some file →
    ∃ old, st.own.get? name = some old ∧ FileEases walls old file
  files : after.own.entries.length ≤ st.own.entries.length
  ownBytes : after.ownBytes ≤ st.ownBytes
  stray : ∀ name bytes, after.stray.get? name = some bytes → st.stray.get? name = some bytes
  strayBytes : after.strayBytes ≤ st.strayBytes

namespace Eases

theorem of_same {walls : Set ℤ} {st after : StoreState} (config : after.config = st.config)
    (own : after.own = st.own) (ownBytes : after.ownBytes = st.ownBytes)
    (stray : after.stray = st.stray) : Eases walls st after := by
  refine ⟨config, ?_, ?_, ownBytes.le, ?_, ?_⟩
  · intro name file found
    rw [own] at found
    exact ⟨file, found, .same walls file⟩
  · rw [own]
  · intro name bytes found
    rw [stray] at found
    exact found
  · rw [StoreState.strayBytes, stray]
    rfl

variable (walls : Set ℤ) (st : StoreState)

theorem refl : Eases walls st st := of_same rfl rfl rfl rfl

/-- A change of one file. -/
theorem of_file {walls : Set ℤ} {st after : StoreState} {name : Name} {old new : OwnFile}
    (found : st.own.get? name = some old) (config : after.config = st.config)
    (own : after.own = st.own.insert name new) (ownBytes : after.ownBytes = st.ownBytes)
    (stray : after.stray = st.stray) (eased : FileEases walls old new) : Eases walls st after := by
  refine ⟨config, ?_, ?_, ownBytes.le, ?_, ?_⟩
  · intro other file got
    rw [own, SortedMap.get?_insert] at got
    split at got
    · rename_i same
      cases got
      exact ⟨old, same ▸ found, eased⟩
    · exact ⟨file, got, .same walls file⟩
  · rw [own, length_insert_of_some found]
  · intro other bytes got
    rw [stray] at got
    exact got
  · rw [StoreState.strayBytes, stray]
    rfl

theorem dropOwn (name : Name) : Eases walls st (st.dropOwn name) := by
  simp only [StoreState.dropOwn]
  split
  · refine ⟨rfl, ?_, length_erase_le _ _, Nat.sub_le _ _, fun _ _ found => found, le_rfl⟩
    intro other file got
    exact ⟨file, SortedMap.get?_of_erase got, .same walls file⟩
  · exact refl walls st

theorem settleDiscard (name : Name) (removed : Bool) :
    Eases walls st (st.settleDiscard name removed) := by
  simp only [StoreState.settleDiscard]
  split
  · exact dropOwn walls st name
  · split
    · rename_i file found
      exact of_file found rfl rfl rfl rfl ⟨rfl, rfl, fun _ time => of_none time, fun _ => rfl⟩
    · exact refl walls st

theorem claim (name : Name) (now : Now) : Eases walls st (st.claim name now).2 := by
  simp only [StoreState.claim]
  split
  · rename_i file found
    split
    · exact of_file found rfl rfl rfl rfl ⟨rfl, rfl, fun _ time => of_none time, fun _ => rfl⟩
    · exact refl walls st
  · exact refl walls st

theorem dropStray (temp : Name) : Eases walls st (st.dropStray temp) := by
  refine ⟨rfl, fun name file found => ⟨file, found, .same walls file⟩, le_rfl, le_rfl, ?_, ?_⟩
  · exact fun name bytes found => SortedMap.get?_of_erase found
  · have parts := st.stray.total_erase (fun _ bytes => bytes) temp
    simp only [StoreState.strayBytes, StoreState.dropStray]
    omega

theorem publishRecount (start ours recount : ℕ) (complete : Bool) :
    Eases walls st (st.publishRecount start ours recount complete) := by
  simp only [StoreState.publishRecount]
  split
  · exact of_same rfl rfl rfl rfl
  · exact refl walls st

theorem transition {walls : Set ℤ} (id : Text) (now : Now) (next : OwnState → Option OwnState)
    (timed : ∀ state after, next state = some after → ∀ time ∈ after.time, time ∈ walls)
    (orphans : next .orphanUnlink = none) : Eases walls st (st.transition id now next) := by
  simp only [StoreState.transition]
  split
  · rename_i file found
    split
    · rename_i state set
      refine of_file found rfl rfl rfl rfl
        ⟨rfl, rfl, fun time mem => Or.inr (timed _ _ set time mem), ?_⟩
      intro orphan
      rw [orphan, orphans] at set
      cases set
    · exact refl walls st
  · exact refl walls st

theorem acknowledged (id : Text) (now : Now) : Eases {now.wall} st (st.acknowledged id now) := by
  refine transition st id now _ ?_ rfl
  intro state after set time mem
  cases state <;> cases set <;> cases mem <;> rfl

theorem recovered (id : Text) (now : Now) : Eases {now.wall} st (st.recovered id now) := by
  refine transition st id now _ ?_ rfl
  intro state after set time mem
  cases state <;> cases set
  cases mem
  rfl

/-- The wall times a lifetime brings into the store. -/
def lifetimeWalls : Lifetime → Set ℤ
  | .referenced => ∅
  | .acknowledged since | .recovered since => {since.wall}

theorem continueLifetime (id : Text) (life : Lifetime) :
    Eases (lifetimeWalls life) st (st.continueLifetime id life) := by
  cases life with
  | referenced => exact refl _ st
  | acknowledged since | recovered since =>
    simp only [StoreState.continueLifetime]
    split
    · rename_i file found
      split
      · exact refl _ st
      · rename_i alive
        exact of_file found rfl rfl rfl rfl
          ⟨rfl, rfl, fun time mem => Or.inr (Option.some.inj mem).symm,
            fun orphan => absurd orphan alive⟩
    · exact refl _ st

/-- What a sweep writes into the store only eases it. -/
theorem sweep {sh after : Shared} {now : Now} {start : ℕ} {point : SweepPoint}
    {later : Option SweepPoint} (step : SweepStep now start sh point after later) :
    Eases walls sh.st after.st := by
  cases step with
  | claimed found due => exact claim walls _ _ _
  | ownDropped => exact dropOwn walls _ _
  | strayDropped => exact dropStray walls _ _
  | recounted => exact publishRecount walls _ _ _ _ _
  | _ => exact of_same rfl rfl rfl rfl

end Eases

/-! ## The accounting of a write -/

variable (st : StoreState) (room : ℕ)

theorem recordSaved_own (id : Text) (bytes : ℕ) (wall : ℤ) (stray : Option Name) :
    (st.recordSaved room id bytes wall stray).own =
      st.own.insert (ownName id) ⟨wall, bytes, .pinned, none⟩ := rfl

/-- A failed save leaves its file as an orphan where it could not be removed. -/
theorem recordFailed_own (id : Text) (wall : ℤ) (stray : Option Name) (removed : Bool) :
    (st.recordFailed room id wall stray removed).own =
      if removed then st.own else st.own.insert (ownName id) ⟨wall, room, .orphanUnlink, none⟩ := by
  cases stray <;> cases removed <;> rfl

/-- A temporary file left behind is charged. -/
def chargeStray (stray : SortedMap Name ℕ) (temp : Option Name) (bytes : ℕ) : SortedMap Name ℕ :=
  match temp with
  | some temp => stray.insert temp bytes
  | none => stray

theorem recordSaved_stray (id : Text) (bytes : ℕ) (wall : ℤ) (stray : Option Name) :
    (st.recordSaved room id bytes wall stray).stray = chargeStray st.stray stray (max bytes 1) := by
  cases stray <;> rfl

theorem recordFailed_stray (id : Text) (wall : ℤ) (stray : Option Name) (removed : Bool) :
    (st.recordFailed room id wall stray removed).stray = chargeStray st.stray stray room := by
  cases stray <;> cases removed <;> rfl

theorem get?_chargeStray {stray : SortedMap Name ℕ} {temp : Option Name} {bytes : ℕ} {name : Name}
    {charged : ℕ} (found : (chargeStray stray temp bytes).get? name = some charged) :
    stray.get? name = some charged ∨ (temp = some name ∧ charged = bytes) := by
  cases temp with
  | none => exact Or.inl found
  | some temp =>
    rw [chargeStray, SortedMap.get?_insert] at found
    split at found
    · rename_i same
      cases found
      exact Or.inr ⟨by rw [same], rfl⟩
    · exact Or.inl found

end AgentDeck.Retained
