/-
Going on to watch. A follower drives an engine by moves (`Follower.look`): whenever the tree is looked at again, what has
changed there is put on the engine's disk and reported, as the system does it, and what the engine then sends is shown.
The engine's disk has a clock of its own, so snapshots get the dates of the tree before they are shown.
-/
import LiveFiles.Engine.Run
import LiveFiles.Snapshot
import LiveFiles.Tree

namespace LiveFiles

/-- the same snapshot with another date; both dates are of the last change, where nothing is written through the engine -/
def Snapshot.dated (s : Snapshot) (date : Instant) : Snapshot :=
  { s with version := s.version.map fun v => ⟨v.contents, date, date⟩ }

namespace Command

open Engine

structure Follower where
  world : World
  subscriber : SubscriberId
  /-- the paths that are watched, and what was there when the tree was looked at last -/
  seen : List (Path × Option StoredFile)

/-- put what is at a path of the tree on the engine's disk -/
def put (w : World) (p : Path) : Option StoredFile → World
  | some f => w.move (.putFile p f.bytes)
  | none => w.move (.removeFile p)

/-- what is at a path now; if that cannot be told, what was there before -/
def lookAgain (t : Tree) (r : Path × Option StoredFile) : Path × Option StoredFile :=
  (r.1, (t.stored? r.1).toOption.getD r.2)

/-- watch one more path for a subscriber -/
def watchFor (x : SubscriberId) (w : World) (r : Path × Option StoredFile) : World :=
  Machine.settle ((put w r.1 r.2).move (.call (.watch r.1 x)))

/-- report what is at a path now, if that is not what was there before -/
def report (t : Tree) (w : World) (r : Path × Option StoredFile) : World :=
  let now := (lookAgain t r).2
  if now = r.2 then w else (put w r.1 now).move (.notifyChange r.1)

namespace Follower

/-- watch the paths of a tree -/
def start (policy : WritePolicy) (t : Tree) (paths : List Path) : Follower :=
  let (x, w) := (World.start policy).newSubscriber
  let seen := paths.map fun p => lookAgain t (p, none)
  ⟨seen.foldl (watchFor x) w, x, seen⟩

/-- Look at the tree again. Snapshots of what has changed are shown with the dates of the tree. -/
def look (f : Follower) (t : Tree) : List Snapshot × Follower :=
  let seen := f.seen.map (lookAgain t)
  let (news, world) := (Machine.settle (f.seen.foldl (report t) f.world)).drain f.subscriber
  let dated := news.map fun s => match (seen.find? fun r => r.1.same s.path).bind Prod.snd with
    | some g => s.dated g.modified
    | none => s
  (dated, { f with world, seen })

end Follower

end Command

end LiveFiles
