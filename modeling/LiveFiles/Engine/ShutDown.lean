/-
The end of the engine, and the streams of events that drive it. Shutting down refuses new work, stops the pump,
removes all subscribers and disarms the watcher, entry by entry in the order of their ranks (`World.inOrder`), lets
background work finish, waits until nobody has a turn at any path that was tracked, and forgets all entries.
-/
import LiveFiles.Engine.World

namespace LiveFiles.Engine

namespace World

/-- stop listening for all subscribers of an entry -/
def stopListeners (w : World) (e : Entry) : World := e.registered.values.foldl (fun w r => w.cancelIf r.listener) w

/-- remove all subscribers of an entry -/
def retire (w : World) (e : Entry) : World :=
  let w := w.stopListeners e
  if e.armed then { w with watcher := w.watcher.disarm e.spelling } else w

/-- put an entry behind those of its rank and of lower ranks -/
def putByRank (rank : Path.Key → Nat) (e : Entry) : List Entry → List Entry
  | [] => [e]
  | x :: xs => if rank x.spelling.key ≤ rank e.spelling.key then x :: putByRank rank e xs else e :: x :: xs

/-- all entries, in the order in which they are gone through -/
def inOrder (w : World) : List Entry := w.entries.values.foldl (fun es e => putByRank w.rank e es) []

theorem perm_putByRank (rank : Path.Key → Nat) (e : Entry) (es : List Entry) : (putByRank rank e es).Perm (e :: es) := by
  induction es with
  | nil => exact .refl _
  | cons x xs ih =>
    unfold putByRank
    split
    · exact (ih.cons x).trans (.swap e x xs)
    · exact .refl _

/-- no entry is left out, and none comes twice -/
theorem perm_inOrder (w : World) : w.inOrder.Perm w.entries.values := by
  have key : ∀ es acc : List Entry, (es.foldl (fun es e => putByRank w.rank e es) acc).Perm (es ++ acc) := by
    intro es
    induction es with
    | nil => exact fun acc => .refl acc
    | cons e es ih =>
      intro acc
      exact (ih _).trans (((perm_putByRank w.rank e acc).append_left es).trans List.perm_middle)
  exact (key w.entries.values []).trans (.of_eq (List.append_nil _))

def Entry.retired (e : Entry) : Entry := { e with registered := .empty, count := 0, armed := false }

def requestShutDown (w : World) : World × Section Activity Outcome :=
  let w := { w with isShutDown := true }
  let w := { w.cancelIf w.pump with pump := none }
  let entries := w.inOrder
  let w := entries.foldl retire w
  let w := { w with entries := w.entries.map fun _ e => Entry.retired e, pool := w.pool.close }
  (w, .go (.closing (entries.map (·.spelling))))

/-- The paths are waited for one after the other; after the last one all entries are forgotten. -/
def drainNext (w : World) : List Path → World × Section Activity Outcome
  | [] => ({ w with entries := .empty }, .ended (.ok .nothing))
  | p :: rest => (w, .go (.draining p none rest))

def stepClosing (w : World) (paths : List Path) : World × Section Activity Outcome :=
  if w.pool.active = 0 then w.drainNext paths else (w, .wait (.closing paths))

def stepDraining (w : World) (p : Path) (turn : Option Turn) (rest : List Path) : World × Section Activity Outcome :=
  match w.awaitIdle p turn with
  | (w, .go turn) => (w, .go (.draining p turn rest))
  | (w, .wait turn) => (w, .wait (.draining p turn rest))
  | (w, .pause turn) => (w, .pause (.draining p turn rest))
  | (w, .ended _) => w.drainNext rest

/-- wait until there is no background work -/
def stepAwaitingQuiet (w : World) : World × Section Activity Outcome :=
  if w.pool.active = 0 then (w, .ended (.ok .nothing)) else (w, .wait .awaitingQuiet)

/-! ### Streams of events -/

/-- the receiving end of a stream is gone -/
def closeReceiver (w : World) (s : StreamId) : World :=
  { w with streams := w.streams.modify s fun c => c.dropReceiver }

/-- each event becomes a reconciliation in the background, in the order of arrival -/
def stepPumping (w : World) (s : StreamId) : World × Section Activity Outcome :=
  match (w.streams.getD s {}).read with
  | (.message ev, c) =>
    ({ w with streams := w.streams.insert s c }.inBackground (.reconcile ev.path), .go (.pumping s))
  | (.ended, _) => (w.closeReceiver s, .ended (.ok .nothing))
  | (.nothing, _) => (w, .wait (.pumping s))

end World

end LiveFiles.Engine
