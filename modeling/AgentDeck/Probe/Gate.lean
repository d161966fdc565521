import AgentDeck.Time

/-!
# The input gate

`Gate` of `src/composer_probe/gate.rs`: while a fence is closed, a person's ops are held in the
order in which they were accepted, until a release takes them, whole or through a cut. The closures
an operation is given are arguments of it; one that is called several times may answer by the number
of the call. A subtraction that would underflow ends the operation with `none`.
-/

namespace AgentDeck.Probe

/-- The most bytes a fence holds, unless one op alone is larger. -/
def fenceCap : ℕ := 1024 * 1024

def fenceOpsCap : ℕ := 1024

abbrev ClaimId := ℕ

inductive Cutting (T : Type)
  | whole
  | through
  | split (front : T) (taken : ℕ)

/-- A full op's place in the queue, with the version of the gate when it last looked. -/
structure Waiter where
  id : ℕ
  seen : ℕ
  deriving DecidableEq

inductive Admission (T : Type)
  | opened (op : T)
  | passAhead (op : T)
  | held
  | settled (op : T)
  | full (op : T) (waiter : Waiter)
  | retired (op : T)
  | refused (op : T)

structure Measure where
  ground : Option ℕ
  candidate : Bool

/-- The counts an arm section reads. -/
structure GateStatus where
  fenced : Bool
  heldOps : ℕ
  heldBytes : ℕ
  fullWaiters : ℕ
  deriving DecidableEq

structure Fence (T : Type) where
  trigger : ℕ
  /-- The held ops with their lengths, oldest first. -/
  held : List (T × ℕ)
  heldBytes : ℕ
  segmented : Bool

structure Gate (T : Type) where
  fence : Option (Fence T)
  retired : Bool
  /-- The claim of a probe's job that is queued and not yet at its arm section. -/
  probe : Option ClaimId
  waiters : List ℕ
  nextWaiter : ℕ
  version : ℕ

def checkedSub (total less : ℕ) : Option ℕ :=
  if less ≤ total then some (total - less) else none

variable {T : Type}

/-- The first ops of a queue, popped whole. -/
def popWhole : ℕ → List (T × ℕ) → ℕ → Option (List T × List (T × ℕ) × ℕ)
  | 0, held, heldBytes => some ([], held, heldBytes)
  | _ + 1, [], heldBytes => some ([], [], heldBytes)
  | count + 1, (op, len) :: held, heldBytes =>
    (checkedSub heldBytes len).bind fun heldBytes =>
      (popWhole count held heldBytes).map fun (out, rest) => (op :: out, rest)

/-- `through_cut`: the held ops through the first one `split` cuts, and whether one did. -/
def throughCut (split : ℕ → T → Cutting T × T) :
    ℕ → List (T × ℕ) → ℕ → Option (List T × Bool × List (T × ℕ) × ℕ)
  | _, [], heldBytes => some ([], false, [], heldBytes)
  | call, (op, len) :: held, heldBytes =>
    match split call op with
    | (.whole, op) =>
      (checkedSub heldBytes len).bind fun heldBytes =>
        (throughCut split (call + 1) held heldBytes).map fun (out, rest) => (op :: out, rest)
    | (.through, op) =>
      (checkedSub heldBytes len).map fun heldBytes => ([op], true, held, heldBytes)
    | (.split front taken, op) =>
      (checkedSub heldBytes (min taken len)).map fun heldBytes =>
        ([front], true, (op, len - min taken len) :: held, heldBytes)

/-- Where a release stops: the last ground point before the first candidate, and whether there is
one. -/
def lastGround (measure : ℕ → T → Measure) : ℕ → List (T × ℕ) → ℕ × ℕ → (ℕ × ℕ) × Bool
  | _, [], stop => (stop, false)
  | place, (op, _) :: held, stop =>
    let measured := measure place op
    let stop := match measured.ground with
      | some ground => (place, ground)
      | none => stop
    if measured.candidate then (stop, true) else lastGround measure (place + 1) held stop

/-- The drain of a refusal takes the length of each op it takes off the count. -/
def drained : List (T × ℕ) → ℕ → Option ℕ
  | [], heldBytes => some heldBytes
  | (_, len) :: held, heldBytes => (checkedSub heldBytes len).bind (drained held)

namespace Fence

def fits (fence : Fence T) (len : ℕ) : Bool :=
  fence.held.isEmpty ||
    (decide (fence.held.length < fenceOpsCap) && decide (fence.heldBytes + len ≤ fenceCap))

def push (fence : Fence T) (op : T) (len : ℕ) : Fence T :=
  { fence with heldBytes := fence.heldBytes + len, held := fence.held ++ [(op, len)] }

/-- How many ops a release takes whole, and how many bytes of the next. -/
def reach (fence : Fence T) (measure : ℕ → T → Measure) (opens : Bool) : (ℕ × ℕ) × Bool :=
  let (stop, candidate) := lastGround measure 0 fence.held (0, 0)
  (if opens && !candidate then (fence.held.length, 0)
    else match fence.held[stop.1]? with
      | some (_, len) => if len ≤ stop.2 then (stop.1 + 1, 0) else stop
      | none => stop,
    candidate)

/-- What a release takes off the front of the queue: `whole` ops, then `part` bytes of the next. -/
def takeFront (fence : Fence T) (split : T → ℕ → T × T) (whole part : ℕ) :
    Option (List T × Fence T) :=
  (popWhole whole fence.held fence.heldBytes).bind fun (out, held, heldBytes) =>
    match held with
    | (op, len) :: rest =>
      if 0 < part then
        let (front, op) := split op part
        (checkedSub len part).bind fun len =>
          (checkedSub heldBytes part).map fun heldBytes =>
            (out ++ [front], { fence with held := (op, len) :: rest, heldBytes := heldBytes })
      else some (out, { fence with held := held, heldBytes := heldBytes })
    | [] => some (out, { fence with held := held, heldBytes := heldBytes })

end Fence

namespace Gate

def start : Gate T where
  fence := none
  retired := false
  probe := none
  waiters := []
  nextWaiter := 0
  version := 0

variable (g : Gate T)

def moved : Gate T :=
  { g with version := (g.version + 1) % 2 ^ 64 }

/-- `fence`: close the fence. A fence already closed keeps its own trigger. -/
def close (trigger : ℕ) : Bool × Gate T :=
  if g.retired then (false, g)
  else
    match g.fence with
    | some _ => (true, g)
    | none => (true, { g with fence := some ⟨trigger, [], 0, false⟩ })

def waitIn : Waiter × Gate T :=
  (⟨g.nextWaiter, g.version⟩,
    { g with nextWaiter := (g.nextWaiter + 1) % 2 ^ 64, waiters := g.waiters ++ [g.nextWaiter] })

/-- The op is handed back with the place it had, or with a new one. -/
def answerFull (op : T) (waiter : Option Waiter) : Admission T × Option ClaimId × Gate T :=
  match waiter with
  | some waiter => (.full op waiter, none, g)
  | none =>
    let (waiter, g) := g.waitIn
    (.full op waiter, none, g)

/-- `admit_unless`: the answer, and the claim of the probe's job it took back. -/
def admitUnless (op : T) (len : ℕ) (waiter : Option Waiter) (passes : T → ℕ → Bool)
    (hold : T → Bool × T) : Admission T × Option ClaimId × Gate T :=
  if g.retired then (.retired op, none, g)
  else if g.fence.any fun fence => passes op fence.trigger then (.passAhead op, none, g)
  else if g.fence.isSome ∧ len = 0 then (.settled op, none, g)
  else if g.waiters.head?.any fun head => decide (some head ≠ waiter.map Waiter.id) then
    g.answerFull op waiter
  else
    match g.fence with
    | none =>
      if 0 < len then (.opened op, g.probe, { g with probe := none }) else (.opened op, none, g)
    | some fence =>
      if fence.fits len then
        match hold op with
        | (true, op) => (.held, none, { g with fence := some (fence.push op len) })
        | (false, op) => (.refused op, none, g)
      else g.answerFull op waiter

def release : List T × Gate T :=
  match g.fence with
  | some fence => (fence.held.map Prod.fst, { g with fence := none }.moved)
  | none => ([], g)

/-- `release_cut`: open the fence as far as the first cut. -/
def releaseCut (trigger : ℕ) (split : ℕ → T → Cutting T × T) : Option (List T × Gate T) :=
  match g.fence with
  | none => some ([], g)
  | some fence =>
    (throughCut split 0 fence.held fence.heldBytes).map fun (out, cut, held, heldBytes) =>
      let rest := { fence with held := held, heldBytes := heldBytes, trigger := trigger }
      (out, { g with fence := if cut then some rest else none }.moved)

/-- `release_until_if`: release as far as the last ground point before the next candidate. -/
def releaseUntilIf (authority : Bool) (measure : ℕ → T → Measure) (split : T → ℕ → T × T)
    (opens : Bool) : Option (List T × Gate T) :=
  match g.fence with
  | none => some ([], g)
  | some fence =>
    if !authority then some ([], g)
    else
      let ((whole, part), candidate) := fence.reach measure opens
      (fence.takeFront split whole part).map fun (out, fence) =>
        let rest := if opens && !candidate && fence.held.isEmpty then none else some fence
        let g := { g with fence := rest }
        (out, if !out.isEmpty || g.fence.isNone then g.moved else g)

/-- `refuse_held_if`: take back the held ops from the first candidate on. -/
def refuseHeldIf (authority candidate : T → Bool) : Option (List T × Gate T) :=
  match g.fence with
  | none => some ([], g)
  | some fence =>
    let first := fence.held.findIdx fun (op, _) => candidate op
    match fence.held.drop first with
    | [] => some ([], g)
    | (op, len) :: rest =>
      if !authority op then some ([], g)
      else
        (drained ((op, len) :: rest) fence.heldBytes).map fun heldBytes =>
          let kept := { fence with held := fence.held.take first, heldBytes := heldBytes }
          (((op, len) :: rest).map Prod.fst, { g with fence := some kept }.moved)

def openIfEmpty : Bool × Gate T :=
  if g.fence.any fun fence => fence.held.isEmpty then (true, { g with fence := none }.moved)
  else (false, g)

def status : GateStatus where
  fenced := g.fence.isSome
  heldOps := match g.fence with
    | some fence => fence.held.length
    | none => 0
  heldBytes := match g.fence with
    | some fence => fence.heldBytes
    | none => 0
  fullWaiters := g.waiters.length

def armSection {R : Type} (claim : ClaimId) (queued : Bool) (retired takenBack : R)
    (armed : GateStatus → Except R Unit) (trigger : ℕ) : Except R Unit × Gate T :=
  let pending := g.probe
  let g := { g with probe := none }
  if g.retired then (.error retired, g)
  else if !queued || pending.any fun probe => decide (probe ≠ claim) then
    (.error takenBack, { g with probe := pending })
  else
    match armed g.status with
    | .error refusal => (.error refusal, g)
    | .ok () =>
      let fence := match g.fence with
        | some fence => { fence with segmented := true }
        | none => ⟨trigger, [], 0, true⟩
      (.ok (), { g with fence := some fence }.moved)

def probeQueued (claim : ClaimId) : Gate T :=
  { g with probe := some claim }

/-- `cut_open`: an op let through with no fence closes one at its cut. -/
def cutOpen (op : T) (len trigger : ℕ) (split : ℕ → T → Cutting T × T) :
    Option (Except T (List T) × Gate T) :=
  if g.retired then some (.error op, g)
  else
    match g.fence with
    | some fence => some (.ok [], { g with fence := some (fence.push op len) }.moved)
    | none =>
      (throughCut split 0 [(op, len)] len).map fun (out, cut, held, heldBytes) =>
        let rest := if cut then some ⟨trigger, held, heldBytes, false⟩ else none
        (.ok out, { g with fence := rest }.moved)

/-- `cut_hold`: the op is held whole, behind a segmented fence if none was closed. -/
def cutHold (op : T) (len trigger : ℕ) : Except T Bool × Gate T :=
  if g.retired then (.error op, g)
  else
    let fence := match g.fence with
      | some fence => fence
      | none => ⟨trigger, [], 0, true⟩
    (.ok g.fence.isNone, { g with fence := some (fence.push op len) }.moved)

/-- `retire_counted`: what was held and its bytes, the first time. -/
def retireCounted : Option (List T × ℕ) × Gate T :=
  if g.retired then (none, g)
  else
    let held := match g.fence with
      | some fence => (fence.held.map Prod.fst, fence.heldBytes)
      | none => ([], 0)
    (some held, { g with retired := true, probe := none, fence := none }.moved)

def dropWaiter (id : ℕ) : Gate T :=
  if id ∈ g.waiters then { g with waiters := g.waiters.erase id }.moved else g

end Gate

end AgentDeck.Probe
