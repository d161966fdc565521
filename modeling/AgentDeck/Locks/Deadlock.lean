import AgentDeck.Locks.Sound

/-!
# No deadlock

In every run in which no token comes round while the guard it was given to is there, the stacks are
those of the guards and no wait leads back to itself. With a token that does come round a thread
waits for itself.
-/

namespace AgentDeck.Locks

/-- In every state such a run reaches each thread's stack holds its guards' ranks, all different,
nothing is held beside a leaf, and whoever waits waits at the start of a chain that ends at a thread
that does not. -/
theorem locks_orderly {T M : Type} [DecidableEq T] [DecidableEq M] (rank : M → Rank)
    (ops : List (Op T M))
    (fresh : Runs.Along (System.step rank) (System.FreshToken rank) System.new ops) :
    (System.run rank ops).Orderly rank :=
  (System.Sound.run fresh).orderly

/-- Two locks, the second ranked above the first. -/
def twoRanks (mutex : Bool) : Rank := if mutex then 2 else 1

/-- One thread takes both locks, the other waits for the first. -/
def oneWaits : List (Op Bool Bool) :=
  [.call true false .lock, .acquire true, .settle true, .call false false .lock,
    .call true true .tryLock, .acquire true, .settle true, .drop true 0]

def isFresh (s : System Bool Bool) : Op Bool Bool → Bool
  | .call t mutex _ => !check (s.threads t).held (twoRanks mutex) ||
      (s.threads t).live.all fun guard => decide (guard.token ≠ (s.threads t).nextToken)
  | _ => true

theorem locks_orderly_oneWaits :
    (System.run twoRanks oneWaits).Blocked false false ∧
      (System.run twoRanks oneWaits).Orderly twoRanks := by
  have checked : Runs.checks (System.step twoRanks) isFresh System.new oneWaits = true := by decide
  have fresh : Runs.Along (System.step twoRanks) (System.FreshToken twoRanks) System.new
    oneWaits := by
    refine Runs.Along.imp ?_ (Runs.along_of_checks checked)
    intro s op newTokens
    cases op with
    | call t mutex form =>
      intro passes guard mem
      simp only [isFresh, passes, Bool.not_true, Bool.false_or] at newTokens
      exact of_decide_eq_true (List.all_eq_true.mp newTokens guard mem)
    | _ => trivial
  exact ⟨⟨⟨1, .lock, rfl, rfl⟩, by decide⟩, locks_orderly twoRanks oneWaits fresh⟩

/-! ## A token that comes round -/

/-- A thread has a guard of the first lock, and its next token is `next`. -/
def spun (next : Token) : System Unit Bool :=
  { threads := fun _ =>
      { held := [(1, 1)], nextToken := next, live := [⟨false, 1, false⟩], phase := .running,
        panicking := false }
    owner := fun mutex => if mutex then none else some ()
    poisoned := fun _ => false }

/-- Both locks are held, the second by token `token`. -/
def both (token : Token) : System Unit Bool :=
  { threads := fun _ =>
      { held := [(1, 1), (2, token)], nextToken := token + 1,
        live := [⟨false, 1, false⟩, ⟨true, token, false⟩], phase := .running, panicking := false }
    owner := fun _ => some ()
    poisoned := fun _ => false }

def takeSecond : List (Op Unit Bool) := [.call () true .lock, .acquire (), .settle ()]

variable (token : Token)

theorem takeSecond_spun : takeSecond.foldl (System.step twoRanks) (spun token) = both token := by
  apply System.ext
  · rfl
  · funext mutex
    cases mutex
    · rfl
    · rfl
  · rfl

theorem pop_second : pop [(1, 1), (2, token)] token = [(1, 1)] := by
  have popped : pop ([(1, 1)] ++ (2, token) :: []) token = [(1, 1)] ++ [] := by
    apply pop_middle
    intro entry absent
    cases absent
  exact popped

theorem dropSecond_both :
    [Op.drop () 1, .release ()].foldl (System.step twoRanks) (both token) = spun (token + 1) := by
  have popped : [Op.drop () 1, .release ()].foldl (System.step twoRanks) (both token) =
      { spun (token + 1) with
        threads := fun _ =>
          { (spun (token + 1)).threads () with held := pop [(1, 1), (2, token)] token } } := by
    apply System.ext
    · rfl
    · funext mutex
      cases mutex
      · rfl
      · rfl
    · funext mutex
      cases mutex
      · rfl
      · rfl
  rw [popped, pop_second]
  rfl

def round : List (Op Unit Bool) := takeSecond ++ [.drop () 1, .release ()]

theorem round_spun : round.foldl (System.step twoRanks) (spun token) = spun (token + 1) := by
  rw [round, List.foldl_append, takeSecond_spun, dropSecond_both]

theorem rounds_spun (count : ℕ) (token : Token) :
    (List.replicate count round).flatten.foldl (System.step twoRanks) (spun token) =
      spun (token + UInt64.ofNat count) := by
  induction count generalizing token with
  | zero =>
    have same : token + UInt64.ofNat 0 = token := UInt64.add_zero token
    rw [same]
    rfl
  | succ count ih =>
    rw [List.replicate_succ, List.flatten_cons, List.foldl_append, round_spun, ih, UInt64.add_assoc,
      UInt64.add_comm 1, UInt64.ofNat_add]
    rfl

def takeFirst : List (Op Unit Bool) := [.call () false .lock, .acquire (), .settle ()]

theorem takeFirst_spun : takeFirst.foldl (System.step twoRanks) System.new = spun 2 := by
  apply System.ext
  · rfl
  · funext mutex
    cases mutex
    · rfl
    · rfl
  · rfl

/-- The first lock is held while the second is taken and dropped until the token of the first comes
round. The second is taken with it, the first dropped and the second asked for again. -/
def wrapped : List (Op Unit Bool) :=
  takeFirst ++ (List.replicate (18446744073709551615) round).flatten ++ takeSecond ++
    [.drop () 0, .release (), .call () true .lock]

theorem wrapped_waits_for_itself :
    (System.run twoRanks wrapped).WaitsFor () () ∧
      ¬ (System.run twoRanks wrapped).Orderly twoRanks := by
  have reached : System.run twoRanks wrapped =
      [Op.drop () 0, .release (), .call () true .lock].foldl (System.step twoRanks) (both 1) := by
    have wraps : (2 : Token) + UInt64.ofNat (18446744073709551615) = 1 := by decide
    rw [System.run, wrapped, List.foldl_append, List.foldl_append, List.foldl_append,
      takeFirst_spun,
      rounds_spun, wraps, takeSecond_spun]
  have waits : (System.run twoRanks wrapped).WaitsFor () () := by
    rw [reached]
    exact ⟨true, ⟨⟨2, .lock, rfl, rfl⟩, by decide⟩, by decide⟩
  exact ⟨waits, fun orderly => orderly.acyclic () (.single waits)⟩

end AgentDeck.Locks
