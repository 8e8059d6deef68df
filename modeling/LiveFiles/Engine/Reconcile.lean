/-
Reconciliation: bringing a cache entry in line with the disk. Any number of requests may be made in quick succession.
Each takes a fresh number and becomes the only one that may change the entry; one whose number is no longer current
when it gets the lock is stale and ends without touching anything. The current one looks at the file's date, reads the
file if the date is new, changes the entry, releases those who wait for it and shows the change to the subscribers, in
this order.
-/
import LiveFiles.Engine.World

namespace LiveFiles.Engine

/-- with what a reconciliation ends: whether the entry changed, or a failure of the disk -/
abbrev Refreshed := Except Problem Bool

namespace World

/-- End a reconciliation that holds the lock. -/
def endLook (w : World) (look : Look) (r : Refreshed) : World × Section Refresh Refreshed :=
  ((w.giveIf look.signal).giveBack look.turn, .ended r)

/-- Put an observation into the entry and show the change, if it is one. -/
def conclude (w : World) (look : Look) (o : Observation) : World × Section Refresh Refreshed :=
  match w.entry? look.path with
  | none => w.endLook look (.ok false)
  | some e =>
    let (e, news) := Entry.commit { e with runningSignal := none } o
    let w := (w.setEntry look.path e).giveIf look.signal
    let w := if news then w.broadcast (e.snapshot look.path) else w
    (w.giveBack look.turn, .ended (.ok news))

/-- Take a reserved and queued turn up as a reconciliation. -/
def startRefresh (w : World) (p : Path) (query : QueryId) (turn : Turn) : World × Refresh :=
  (w.queueUp turn, .queued p query turn)

/-- Request a reconciliation; of a path that is not tracked there is nothing to reconcile. -/
def requestRefresh (w : World) (p : Path) : World × Section Refresh Refreshed :=
  match w.entry? p with
  | none => (w, .ended (.ok false))
  | some e =>
    let (query, e, w) := w.beginQuery e
    let (turn, w) := (w.setEntry p e).reserve p
    let (w, r) := w.startRefresh p query turn
    (w, .go r)

/-- The turn of a reconciliation has come: it goes on if it is still the current one. -/
def enterRefresh (w : World) (p : Path) (query : QueryId) (turn : Turn) : World × Section Refresh Refreshed :=
  match w.entry? p with
  | none => (w.giveBack turn, .ended (.ok false))
  | some e =>
    if e.pendingQuery ≠ some query then (w.giveBack turn, .ended (.ok false))
    else
      let signal := e.pendingSignal
      let w := w.setEntry p { e with pendingQuery := none, pendingSignal := none, runningSignal := signal }
      w.beginCall .stat p (.looking ⟨p, turn, signal, e.contents.isSome, e.modified⟩)

/-- the file's date is known, or that it does not exist -/
def haveLooked (w : World) (look : Look) : Except Failure (Option FileStat) → World × Section Refresh Refreshed
  | .error f => w.endLook look (.error (.other f))
  | .ok none => w.conclude look (.absent look.had)
  | .ok (some st) =>
    if look.had && st.modified = look.last then w.conclude look .unchanged
    else w.beginCall .read look.path (.reading look st.modified)

/-- the file has been read, or reading it failed -/
def haveRead (w : World) (look : Look) (modified : Instant) : Except Failure String → World × Section Refresh Refreshed
  | .ok contents => w.conclude look (.changed contents modified)
  | .error f => w.beginCall .stat look.path (.lookingAgain look f)

/-- after reading failed: the failure counts only if the file is still there -/
def haveLookedAgain (w : World) (look : Look) (f : Failure) :
    Except Failure (Option FileStat) → World × Section Refresh Refreshed
  | .error f' => w.endLook look (.error (.other f'))
  | .ok none => w.conclude look (.absent look.had)
  | .ok (some _) => w.endLook look (.error (.other f))

/-- one section of a reconciliation -/
def stepRefresh (w : World) : Refresh → World × Section Refresh Refreshed
  | .queued p query turn => if w.turns.holds turn then w.enterRefresh p query turn else (w, .wait (.queued p query turn))
  | .looking look (.held g) => w.atGate g (.looking look)
  | .looking look .due => (w.leaveDisk look.path).haveLooked look (w.disk.stat look.path)
  | .reading look m (.held g) => w.atGate g (.reading look m)
  | .reading look m .due => (w.leaveDisk look.path).haveRead look m (w.disk.read look.path)
  | .lookingAgain look f (.held g) => w.atGate g (.lookingAgain look f)
  | .lookingAgain look f .due => (w.leaveDisk look.path).haveLookedAgain look f (w.disk.stat look.path)

/-- Abandon a reconciliation: the call to the disk, if one is under way, then the signal, then the turn. -/
def dropRefresh (w : World) : Refresh → World
  | .queued _ _ turn => w.giveBack turn
  | .looking look _ => ((w.leaveDisk look.path).giveIf look.signal).giveBack look.turn
  | .reading look _ _ => ((w.leaveDisk look.path).giveIf look.signal).giveBack look.turn
  | .lookingAgain look _ _ => ((w.leaveDisk look.path).giveIf look.signal).giveBack look.turn

end World

end LiveFiles.Engine
