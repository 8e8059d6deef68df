/-
The program on the command line and the engine. What the program prints of a path at first is what an engine would return for it
that has the same file on its disk, and when the program goes on to watch it makes moves of an engine, no more.
- `firstSnapshot_ok`: the first snapshot of a path shows the file that is there, or that there is none.
- **`FairCrowd.first_snapshot`**: every call to watch the path returns just that, whatever calls there are beside it and in whatever
  order tasks are served, as long as whoever can go on gets the floor sooner or later.
- **`Follower.reachable_look`**: however often a follower looks at its tree, its engine is in a state that runs lead to.
-/
import LiveFiles.Command.Follow
import LiveFiles.Command.Run
import LiveFiles.Proofs.Resting

namespace LiveFiles

open Engine

variable {w : World} {p q : Path} {t : Tree} {x : SubscriberId} {s : Snapshot}

/-! ## The first snapshot of a path -/

/-- **The first snapshot of a path shows the file that the path leads to.** -/
theorem Command.firstSnapshot_ok (h : firstSnapshot t p = .ok s) :
    ∃ f, t.stored? p = .ok f ∧ s = (Known.found f).shown p := by
  unfold firstSnapshot Tree.stat Tree.stat? Tree.read Tree.readText at h
  unfold Tree.stored?
  rcases hp : t.locate p with e | ⟨place, node⟩
  · rw [hp] at h
    cases e <;> cases h
    exact ⟨none, rfl, rfl⟩
  · rw [hp] at h
    cases node with
    | directory modified => cases h
    | link target =>
      cases h
      exact ⟨none, rfl, rfl⟩
    | file bytes modified =>
      refine ⟨some ⟨bytes, modified⟩, rfl, ?_⟩
      cases hd : Text.Utf8.decode bytes with
      | error e => simp [hd, bind, Except.bind, Except.mapError, throw, throwThe, MonadExceptOf.throw] at h
      | ok text =>
        simp [hd, bind, Except.bind, Except.mapError, pure, Except.pure] at h
        rw [← h, Known.found, Known.shown, Text.Utf8.decodeLossy_of_decode hd]

/-- **The engine returns what the program prints**: a call to watch returns the first snapshot of its path, if the disk has the file
that the tree has. -/
theorem Engine.FairCrowd.first_snapshot {policy : WritePolicy} {moves : Nat → Move} {n N d : Nat}
    (hf : FairCrowd (World.start policy) moves p n N) (hd : d ∈ watchCalls moves p n N) (hm : moves d = .call (.watch q x))
    (hfile : t.stored? q = .ok (((World.start policy).trace moves n).disk.file? p))
    (hs : Command.firstSnapshot t q = .ok s) : ∃ L, ∀ l, L ≤ l →
      ((World.start policy).taskOf moves d, Ending.returned (.ok (.snapshot s))) ∈ ((World.start policy).trace moves l).endings := by
  obtain ⟨f, hstored, rfl⟩ := Command.firstSnapshot_ok hs
  cases hfile.symm.trans hstored
  obtain ⟨L, hL⟩ := hf.synchronizes_once
  refine ⟨max L N, fun l hl => (hL l ((le_max_left _ _).trans hl)).returned d ?_ q x hm⟩
  exact watchCalls_mono hd ((le_max_right _ _).trans hl)

/-- a tree with one file -/
def oneFile : Tree := (Tree.initial []).set ["a"] (.file ⟨#[49]⟩ (Instant.ofMillis 1001))

example : ∃ L, ∀ l, L ≤ l → ((World.start .allow).taskOf (along gathering) 3,
    Ending.returned (.ok (.snapshot (.present ⟨"/a"⟩ ⟨"1", Instant.ofMillis 1001, Instant.ofMillis 1001⟩)))) ∈
      ((World.start .allow).trace (along gathering) l).endings :=
  fairCrowd_gathering.first_snapshot (t := oneFile) (q := ⟨"/a"⟩) (x := ⟨1⟩) (by decide +kernel) rfl (by cbv) (by cbv)

/-! ## Followers -/

theorem Engine.Reachable.settle (h : Reachable w) : Reachable (Machine.settle w) := by
  have hwithin : ∀ k, ∀ w : World, Reachable w → Reachable (Machine.settleWithin k w) := by
    intro k
    induction k with
    | zero => exact fun w h => h
    | succ k ih =>
      intro w h
      rw [Machine.settleWithin]
      split
      · exact h
      · obtain ⟨m, hm⟩ := w.tick_eq_move
        exact ih _ (hm ▸ .move m h)
  exact hwithin _ w h

namespace Command

theorem reachable_put (h : Reachable w) (p : Path) (f : Option StoredFile) : Reachable (put w p f) := by
  cases f with
  | some f => exact .move (.putFile p f.bytes) h
  | none => exact .move (.removeFile p) h

theorem reachable_report (h : Reachable w) (t : Tree) (r : Path × Option StoredFile) : Reachable (report t w r) := by
  unfold report
  dsimp only
  split
  · exact h
  · exact .move (.notifyChange r.1) (reachable_put h _ _)

theorem reachable_foldl {α : Type} {g : World → α → World} (hg : ∀ w a, Reachable w → Reachable (g w a)) (xs : List α)
    (h : Reachable w) : Reachable (xs.foldl g w) := by
  induction xs generalizing w with
  | nil => exact h
  | cons a xs ih => exact ih (hg w a h)

/-- a follower begins with an engine in a state that runs lead to -/
theorem Follower.reachable_start (policy : WritePolicy) (t : Tree) (paths : List Path) :
    Reachable (Follower.start policy t paths).world := by
  refine reachable_foldl (fun w r h => ?_) _ (.move .newSubscriber (.start policy))
  exact (Reachable.move (.call (.watch r.1 _)) (reachable_put h _ _)).settle

/-- **However often a follower looks at its tree, its engine goes on with its run.** -/
theorem Follower.reachable_look {f : Follower} (h : Reachable f.world) (t : Tree) : Reachable (f.look t).2.world := by
  have hsettled := (reachable_foldl (fun w r h => reachable_report h t r) f.seen h).settle
  exact .move (.drain f.subscriber) hsettled

end Command

end LiveFiles
