import Mathlib.Data.List.Basic
import Mathlib.Logic.Function.Basic

/-!
# Ranked locks

`RankedMutex`, `RankedGuard` and the rank checker of `src/lock_rank.rs`, as a debug build has them.
A thread checks the ranks it holds before it takes a mutex, pushes its own rank once it has it and
removes it again, by its token, when the guard is dropped.
-/

namespace AgentDeck.Locks

abbrev Rank := UInt8

abbrev Token := UInt64

def leaf : Rank := 255

inductive OnPoison where
  | recover
  | skip
  deriving DecidableEq

inductive Form where
  | lock
  | lockRecovering
  | tryLock
  | tryLockNow (onPoison : OnPoison)
  | lockInDrop (onPoison : OnPoison)
  deriving DecidableEq

namespace Form

def panicsOnViolation : Form → Bool
  | lock | lockRecovering => true
  | _ => false

def panicsOnPoison : Form → Bool
  | lock => true
  | _ => false

/-- A poisoned lock is gone on with. -/
def recovers : Form → Bool
  | lock | tryLock => false
  | lockRecovering => true
  | tryLockNow onPoison | lockInDrop onPoison => decide (onPoison = .recover)

def blocks : Form → Bool
  | tryLockNow _ => false
  | _ => true

end Form

section

variable {T M : Type}

/-- A `RankedGuard`; `panicked` is what `MutexGuard` keeps of the thread that took it. -/
structure Guard (M : Type) where
  mutex : M
  token : Token
  panicked : Bool

inductive Phase (M : Type) where
  | running
  /-- `check` passed, and `Mutex::lock` has not returned. -/
  | calling (mutex : M) (token : Token) (form : Form)
  /-- `Mutex::lock` returned, and no guard is made. -/
  | taken (mutex : M) (token : Token) (form : Form) (poisoned panicked : Bool)
  /-- The mutex is not released yet. -/
  | lettingGo (mutex : M) (panicked : Bool)

/-- A thread: `HELD` and `NEXT_TOKEN`, and the guards it has. -/
structure Thread (M : Type) where
  held : List (Rank × Token)
  nextToken : Token
  live : List (Guard M)
  phase : Phase M
  panicking : Bool

namespace Thread

def new : Thread M :=
  { held := [], nextToken := 1, live := [], phase := .running, panicking := false }

end Thread

def check (held : List (Rank × Token)) (rank : Rank) : Bool :=
  if rank = leaf then held.isEmpty else held.all fun entry => decide (entry.1 < rank)

def push (held : List (Rank × Token)) (rank : Rank) (token : Token) : List (Rank × Token) :=
  held ++ [(rank, token)]

def pop (held : List (Rank × Token)) (token : Token) : List (Rank × Token) :=
  (held.reverse.eraseP fun entry => decide (entry.2 = token)).reverse

/-- The threads, and of each mutex who holds it and whether it is poisoned. -/
@[ext]
structure System (T M : Type) where
  threads : T → Thread M
  owner : M → Option T
  poisoned : M → Bool

/-- What the threads do. `drop` drops the guard at an index among those the thread has. -/
inductive Op (T M : Type) where
  | call (t : T) (mutex : M) (form : Form)
  | acquire (t : T)
  | wouldBlock (t : T)
  | settle (t : T)
  | drop (t : T) (i : ℕ)
  | release (t : T)
  | panic (t : T)
  | caught (t : T)

namespace System

def new : System T M :=
  { threads := fun _ => .new, owner := fun _ => none, poisoned := fun _ => false }

variable [DecidableEq T] [DecidableEq M]

def put (s : System T M) (t : T) (thread : Thread M) : System T M :=
  { s with threads := Function.update s.threads t thread }

def step (rank : M → Rank) (s : System T M) : Op T M → System T M
  | .call t mutex form =>
    let thread := s.threads t
    match thread.phase with
    | .running =>
      if check thread.held (rank mutex) then
        s.put t { thread with
          nextToken := thread.nextToken + 1
          phase := .calling mutex thread.nextToken form }
      else s.put t { thread with panicking := thread.panicking || form.panicsOnViolation }
    | _ => s
  | .acquire t =>
    let thread := s.threads t
    match thread.phase with
    | .calling mutex token form =>
      if s.owner mutex = none then
        { s.put t { thread with
            phase := .taken mutex token form (s.poisoned mutex) thread.panicking } with
          owner := Function.update s.owner mutex (some t) }
      else s
    | _ => s
  | .wouldBlock t =>
    let thread := s.threads t
    match thread.phase with
    | .calling mutex _ form =>
      if s.owner mutex ≠ none ∧ form.blocks = false then s.put t { thread with phase := .running }
      else s
    | _ => s
  | .settle t =>
    let thread := s.threads t
    match thread.phase with
    | .taken mutex token form poisoned panicked =>
      if poisoned && !form.recovers then
        s.put t { thread with
          phase := .lettingGo mutex panicked
          panicking := thread.panicking || form.panicsOnPoison }
      else
        s.put t { thread with
          held := push thread.held (rank mutex) token
          live := thread.live ++ [⟨mutex, token, panicked⟩]
          phase := .running }
    | _ => s
  | .drop t i =>
    let thread := s.threads t
    match thread.phase, thread.live[i]? with
    | .running, some guard =>
      s.put t { thread with
        held := pop thread.held guard.token
        live := thread.live.eraseIdx i
        phase := .lettingGo guard.mutex guard.panicked }
    | _, _ => s
  | .release t =>
    let thread := s.threads t
    match thread.phase with
    | .lettingGo mutex panicked =>
      { s.put t { thread with phase := .running } with
        owner := Function.update s.owner mutex none
        -- A guard dropped by a panic that began after it was taken poisons.
        poisoned := Function.update s.poisoned mutex
          (s.poisoned mutex || (!panicked && thread.panicking)) }
    | _ => s
  | .panic t =>
    let thread := s.threads t
    match thread.phase with
    | .running => s.put t { thread with panicking := true }
    | _ => s
  | .caught t =>
    let thread := s.threads t
    match thread.phase with
    | .running => s.put t { thread with panicking := false }
    | _ => s

def run (rank : M → Rank) (ops : List (Op T M)) : System T M := ops.foldl (step rank) new

end System

/-! ## Waiting -/

namespace Phase

def has : Phase M → Option M
  | taken mutex _ _ _ _ | lettingGo mutex _ => some mutex
  | running | calling _ _ _ => none

end Phase

namespace Thread

def holds (thread : Thread M) : List M := thread.live.map Guard.mutex ++ thread.phase.has.toList

end Thread

namespace System

/-- The thread waits in `Mutex::lock` for a mutex that is held. -/
def Blocked (s : System T M) (t : T) (mutex : M) : Prop :=
  (∃ token form, (s.threads t).phase = .calling mutex token form ∧ form.blocks = true) ∧
    s.owner mutex ≠ none

/-- The first waits for a mutex the second holds. -/
def WaitsFor (s : System T M) (t u : T) : Prop :=
  ∃ mutex, s.Blocked t mutex ∧ s.owner mutex = some u

/-- A token that is given out is not that of a guard its thread has: no thread passes as many checks
as there are tokens while it has one guard. -/
def FreshToken (rank : M → Rank) (s : System T M) : Op T M → Prop
  | .call t mutex _ => check (s.threads t).held (rank mutex) = true →
      ∀ guard ∈ (s.threads t).live, guard.token ≠ (s.threads t).nextToken
  | _ => True

end System

end

end AgentDeck.Locks
