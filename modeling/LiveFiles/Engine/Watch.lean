/-
Watching and leaving. The first subscriber of a path makes its cache entry, arms the watcher and runs the first
reconciliation itself; later ones wait until no reconciliation is pending. A call to watch takes a place, which counts
as a subscriber from then on, and ends in one of three ways: the subscriber is registered in that place, the first
reconciliation fails and the place is given back, or the call is cancelled and background work gives the place back.
When the last place is given back, the watcher is disarmed, and the entry is dropped once nobody has a turn at the
path.
-/
import LiveFiles.Engine.Reconcile

namespace LiveFiles.Engine

namespace World

/-! ### Giving places back -/

/-- the call that holds a place is over: it no longer counts as joining, and others for the same subscriber go on -/
def endSeat (w : World) (s : Seat) : World :=
  (w.modifyEntry s.path fun e =>
    if e.joining.get? s.subscriber = some s.joined then { e with joining := e.joining.erase s.subscriber } else e).give
      s.joined

/-- what remains to be done after a place has been given back -/
def endLeaving (w : World) : Leaving → World × Section Activity Outcome
  | .unwatched => (w, .ended (.ok (.flag true)))
  | .failed seat e => (w.endSeat seat, .ended (.error e))
  | .abandoned => (w, .ended (.ok .nothing))

/-- Give one place back; with the last one the watcher is disarmed and the entry is to be dropped. -/
def releasePlace (w : World) (p : Path) (l : Leaving) : World × Section Activity Outcome :=
  match w.entry? p with
  | none => w.endLeaving l
  | some e =>
    let e := { e with count := e.count - 1 }
    if e.count = 0 then
      let w := if e.armed then { w with watcher := w.watcher.disarm p } else w
      (w.setEntry p { e with armed := false }, .go (.tearingDown p none l))
    else (w.setEntry p e).endLeaving l

/-- Wait until nobody has a turn at the path, then drop the entry unless somebody has come back. -/
def stepTearingDown (w : World) (p : Path) (turn : Option Turn) (l : Leaving) : World × Section Activity Outcome :=
  match w.awaitIdle p turn with
  | (w, .go turn) => (w, .go (.tearingDown p turn l))
  | (w, .wait turn) => (w, .wait (.tearingDown p turn l))
  | (w, .pause turn) => (w, .pause (.tearingDown p turn l))
  | (w, .ended _) =>
    match w.entry? p with
    | some e => (if e.count = 0 then w.dropEntry p else w).endLeaving l
    | none => w.endLeaving l

def unwatch (w : World) (p : Path) (id : SubscriberId) : World × Section Activity Outcome :=
  match w.entry? p with
  | none => (w, .ended (.ok (.flag false)))
  | some e =>
    match e.registered.get? id with
    | none => (w, .ended (.ok (.flag false)))
    | some r =>
      ((w.setEntry p { e with registered := e.registered.erase id }).cancelIf r.listener).releasePlace p .unwatched

/-! ### Taking places -/

/-- arm the watcher for an entry that is to be watched; a refusal is put up with -/
def armEntry (w : World) (p : Path) (e : Entry) : World × Entry :=
  if e.armed then (w, e)
  else ({ w with watcher := w.watcher.tryToArm p }, { e with armed := !w.watcher.refuses p })

/-- Take a place at a path whose entry is `e`: the first place comes with the first reconciliation. -/
def takePlace (w : World) (s : Seat) (e : Entry) : World × Section Activity Outcome :=
  let e := { e with joining := e.joining.insert s.subscriber s.joined, count := e.count + 1 }
  if e.count > 1 then (w.setEntry s.path e, .go (.settling s none))
  else
    let (w, e) := w.armEntry s.path e
    let (query, e, w) := w.beginQuery e
    let (turn, w) := (w.setEntry s.path e).reserve s.path
    let (w, r) := w.startRefresh s.path query turn
    (w, .go (.synchronizing s r))

/-- Look for a place: a subscriber that is registered needs none, and one for which another call is looking waits for that
call to end. -/
def stepJoining (w : World) (p : Path) (id : SubscriberId) (joined : SignalId) (other : Option SignalId) :
    World × Section Activity Outcome :=
  if other.any fun s => !w.signals.isGiven s then (w, .wait (.joining p id joined other))
  else
    let e := (w.entry? p).getD { spelling := p }
    if e.registered.contains id then (w, .ended (.ok (.snapshot (e.snapshot p))))
    else match e.joining.get? id with
      | some other => (w.setEntry p e, .go (.joining p id joined (some other)))
      | none => w.takePlace ⟨p, id, joined⟩ e

def requestWatch (w : World) (p : Path) (id : SubscriberId) : World × Section Activity Outcome :=
  if w.isShutDown then (w, .ended (.error .shutDown))
  else
    let (joined, w) := w.freshSignal
    (w, .go (.joining p id joined none))

/-- the entry of a path went away while a subscriber was about to be registered -/
def lostEntry (p : Path) : Problem := .other ⟨s!"cache entry for {p.quoted} vanished while subscribing", []⟩

/-- start listening for a subscriber's leaving, unless the pool is closed -/
def listen (w : World) (p : Path) (id : SubscriberId) : Option TaskId × World :=
  if w.pool.closed then (none, w)
  else
    let (t, w) := w.spawn .service (.listening p id)
    (some t, w)

/-- Turn a place into a registration. -/
def register (w : World) (s : Seat) : World × Section Activity Outcome :=
  match w.entry? s.path with
  | none => (w.endSeat s, .ended (.error (lostEntry s.path)))
  | some e =>
    let (listener, w) := w.listen s.path s.subscriber
    let replaced := e.registered.get? s.subscriber
    let w := match replaced with
      | some r => w.cancelIf r.listener
      | none => w
    let e := { e with
      registered := e.registered.insert s.subscriber ⟨listener⟩
      count := if replaced.isSome then e.count - 1 else e.count }
    ((w.setEntry s.path e).endSeat s, .ended (.ok (.snapshot (e.snapshot s.path))))

/-- Wait until no reconciliation is pending, then register. -/
def stepSettling (w : World) (s : Seat) (signal : Option SignalId) : World × Section Activity Outcome :=
  if signal.any fun x => !w.signals.isGiven x then (w, .wait (.settling s signal))
  else match (w.entry? s.path).bind (·.unsettled w.signals) with
    | some x => (w, .go (.settling s (some x)))
    | none => w.register s

/-- the first reconciliation of a path, run by its first subscriber -/
def stepSynchronizing (w : World) (s : Seat) (r : Refresh) : World × Section Activity Outcome :=
  match w.stepRefresh r with
  | (w, .go r) => (w, .go (.synchronizing s r))
  | (w, .wait r) => (w, .wait (.synchronizing s r))
  | (w, .pause r) => (w, .pause (.synchronizing s r))
  | (w, .ended (.ok _)) => (w, .go (.settling s none))
  | (w, .ended (.error e)) => w.releasePlace s.path (.failed s e)

/-- Give a place back that its call has abandoned; the work of it is left to the background. -/
def abandonSeat (w : World) (s : Seat) : World := (w.endSeat s).inBackground (.release s.path)

/-- a subscriber's leaving: background work unwatches the path for it -/
def stepListening (w : World) (p : Path) (id : SubscriberId) : World × Section Activity Outcome :=
  if (w.channels.get? id).any fun c => !c.isOpen then (w.inBackground (.unwatch p id), .ended (.ok .nothing))
  else (w, .wait (.listening p id))

end World

end LiveFiles.Engine
