/-
Calls to the disk. The disk counts the calls that are under way at each path, and the most that have been (`Traffic`). A
task makes one call at a time (`Activity.call?`); users of the disk may make calls of their own beside the engine's
(`Activity.isDirect`).
- **`calling_step`**: a section of a task begins a call, ends one, ends one and begins the next at the same path, or leaves
  the traffic alone (`Passes`), and the engine makes no calls for users of the disk.
- `passes_abandon`: a cancelled task leaves no call behind.
-/
import LiveFiles.Proofs.Outcomes
import LiveFiles.Proofs.Places

namespace LiveFiles

/-- how many calls are under way at each path, and the most that have been -/
structure Traffic where
  now : Path.Key → Nat
  most : Path.Key → Nat

namespace Traffic

def enter (v : Traffic) (k : Path.Key) : Traffic :=
  ⟨Function.update v.now k (v.now k + 1), Function.update v.most k (max (v.most k) (v.now k + 1))⟩

def leave (v : Traffic) (k : Path.Key) : Traffic := { v with now := Function.update v.now k (v.now k - 1) }

end Traffic

namespace Disk

def traffic (d : Disk) : Traffic := ⟨fun k => d.underWay.getD k 0, fun k => d.mostUnderWay.getD k 0⟩

theorem getD_insert (t : Table Path.Key Nat) (k : Path.Key) (n : Nat) :
    (fun k' => (t.insert k n).getD k' 0) = Function.update (fun k' => t.getD k' 0) k n := by
  funext k'
  simp only [Table.getD, Table.get?_insert, Function.update_apply, eq_comm (a := k')]
  split <;> rfl

theorem traffic_enter (d : Disk) (op : DiskOp) (p : Path) : (d.enter op p).1.traffic = d.traffic.enter p.key :=
  congrArg₂ Traffic.mk (getD_insert d.underWay p.key _) (getD_insert d.mostUnderWay p.key _)

theorem traffic_leave (d : Disk) (p : Path) : (d.leave p).traffic = d.traffic.leave p.key := by
  refine congrArg (Traffic.mk · d.traffic.most) (funext fun k' => ?_)
  simp only [leave, Table.getD, Table.get?_modify, Function.update_apply, eq_comm (a := k'), traffic]
  split
  · rename_i h
    subst h
    cases d.underWay.get? p.key <;> rfl
  · rfl

theorem traffic_write (d : Disk) (p : Path) (bytes : ByteArray) : (d.write p bytes).1.traffic = d.traffic := by
  unfold write
  split <;> rfl

end Disk

namespace Engine

/-! ## The calls of a task -/

/-- the path at which a reconciliation has a call under way -/
def Refresh.call? (r : Refresh) : Option Path.Key := r.look?.map fun l => l.path.key

def Save.call? : Save → Option Path.Key
  | .queued _ => none
  | .writing job _ | .looking job _ => some job.path.key

/-- the path at which a task has a call to the disk under way -/
def Activity.call? : Activity → Option Path.Key
  | .refreshing r | .synchronizing _ r => r.call?
  | .saving s => s.call?
  | .diskStat p _ | .diskRead p _ | .diskWrite p _ _ => some p.key
  | .starting _ | .joining .. | .settling .. | .tearingDown .. | .awaitingQuiet | .closing _ | .draining .. | .listening ..
  | .pumping _ => none

/-- a call to the disk that is not the engine's -/
def Request.isDirect : Request → Bool
  | .diskStat _ | .diskRead _ | .diskWrite .. => true
  | .watch .. | .unwatch .. | .write .. | .reconcile _ | .release _ | .waitIdle | .shutDown => false

def Activity.isDirect : Activity → Bool
  | .starting r => r.isDirect
  | .diskStat .. | .diskRead .. | .diskWrite .. => true
  | .refreshing _ | .saving _ | .joining .. | .synchronizing .. | .settling .. | .tearingDown .. | .awaitingQuiet
  | .closing _ | .draining .. | .listening .. | .pumping _ => false

/-- what a section of a task with a call under way at `x`, if any, does to the traffic; `x'` is where it has one then -/
inductive Passes (v : Traffic) : Option Path.Key → Traffic → Option Path.Key → Prop
  | stay (x : Option Path.Key) : Passes v x v x
  | begins (k : Path.Key) : Passes v none (v.enter k) (some k)
  | ends (k : Path.Key) : Passes v (some k) (v.leave k) none
  | next (k : Path.Key) : Passes v (some k) ((v.leave k).enter k) (some k)

/-- what a section of a task that is not a direct call does -/
structure Calling (w : World) (a : Activity) (r : World × Section Activity Outcome) : Prop where
  passes : Passes w.disk.traffic a.call? r.1.disk.traffic (r.2.next.bind Activity.call?)
  direct : ∀ b, r.2.next = some b → b.isDirect = false

/-- a section that has nothing to do with the disk -/
structure Offline (w : World) (r : World × Section Activity Outcome) : Prop where
  disk : r.1.disk = w.disk
  next : ∀ b, r.2.next = some b → b.call? = none ∧ b.isDirect = false

variable {w w' : World} {a : Activity} {r : World × Section Activity Outcome} {p : Path} {σ α : Type}

theorem Offline.calling (h : Offline w r) (ha : a.call? = none) : Calling w a r where
  passes := by
    have hnone : r.2.next.bind Activity.call? = none := Option.bind_eq_none_iff.2 fun b hb => (h.next b hb).1
    rw [h.disk, ha, hnone]
    exact .stay none
  direct b hb := (h.next b hb).2

theorem Offline.of_ended (hd : r.1.disk = w.disk) (hn : r.2.next = none) : Offline w r := ⟨hd, by simp [hn]⟩

theorem Offline.of_next {b : Activity} (hd : r.1.disk = w.disk) (hn : r.2.next = some b)
    (hb : b.call? = none ∧ b.isDirect = false) : Offline w r := ⟨hd, fun b' hb' => by cases hn.symm.trans hb'; exact hb⟩

theorem Offline.of_disk (h : Offline w' r) (hd : w'.disk = w.disk) : Offline w r := ⟨h.disk.trans hd, h.next⟩

/-! ### Beginning and ending calls -/

theorem disk_beginCall (w : World) (op : DiskOp) (p : Path) (k : Call → σ) :
    (w.beginCall (α := α) op p k).1.disk = (w.disk.enter op p).1 := by
  unfold World.beginCall
  dsimp only
  split
  · split <;> rfl
  · rfl

theorem passes_beginCall (call : σ → Option Path.Key) (k : Call → σ) (w : World) (op : DiskOp)
    (hk : ∀ c, call (k c) = some p.key) :
    Passes w.disk.traffic none (w.beginCall (α := α) op p k).1.disk.traffic
      ((w.beginCall (α := α) op p k).2.next.bind call) := by
  obtain ⟨c, hc⟩ := next_beginCall (α := α) w op p k
  rw [disk_beginCall, Disk.traffic_enter, hc, Option.bind_some, hk]
  exact .begins p.key

/-- a call is over, and the next one begins -/
theorem passes_again (call : σ → Option Path.Key) (k : Call → σ) (w : World) (op : DiskOp)
    (hk : ∀ c, call (k c) = some p.key) :
    Passes w.disk.traffic (some p.key) ((w.leaveDisk p).beginCall (α := α) op p k).1.disk.traffic
      (((w.leaveDisk p).beginCall (α := α) op p k).2.next.bind call) := by
  obtain ⟨c, hc⟩ := next_beginCall (α := α) (w.leaveDisk p) op p k
  rw [disk_beginCall, Disk.traffic_enter, hc, Option.bind_some, hk, World.leaveDisk, Disk.traffic_leave]
  exact .next p.key

/-- a call is over, and so is the operation -/
theorem passes_over {call : σ → Option Path.Key} {r : World × Section σ α} (hd : r.1.disk = (w.leaveDisk p).disk)
    (hn : r.2.next = none) : Passes w.disk.traffic (some p.key) r.1.disk.traffic (r.2.next.bind call) := by
  rw [hd, hn, World.leaveDisk, Disk.traffic_leave]
  exact .ends p.key

theorem passes_atGate (call : σ → Option Path.Key) (k : Call → σ) {x : Option Path.Key} (w : World) (g : GateId)
    (hk : ∀ c, call (k c) = x) :
    Passes w.disk.traffic x (w.atGate (α := α) g k).1.disk.traffic ((w.atGate (α := α) g k).2.next.bind call) := by
  obtain ⟨c, hc⟩ := next_atGate (α := α) w g k
  have hd : (w.atGate (α := α) g k).1.disk = w.disk := by
    unfold World.atGate
    split <;> rfl
  rw [hd, hc, Option.bind_some, hk]
  exact .stay x

/-! ### Reconciliations and writes -/

theorem disk_endLook (w : World) (l : Look) (x : Refreshed) :
    (w.endLook l x).1.disk = w.disk ∧ (w.endLook l x).2.next = none := ⟨(aside_endLook w l x).disk, rfl⟩

theorem disk_conclude (w : World) (l : Look) (o : Observation) :
    (w.conclude l o).1.disk = w.disk ∧ (w.conclude l o).2.next = none := by
  unfold World.conclude
  cases w.entry? l.path with
  | none => exact disk_endLook w l _
  | some e =>
    dsimp only
    split <;> exact ⟨by simp [World.setEntry], rfl⟩

theorem passes_stepRefresh (w : World) (x : Refresh) :
    Passes w.disk.traffic x.call? (w.stepRefresh x).1.disk.traffic ((w.stepRefresh x).2.next.bind Refresh.call?) := by
  have hend : ∀ (l : Look) (y : Refreshed), Passes w.disk.traffic (some l.path.key)
      ((w.leaveDisk l.path).endLook l y).1.disk.traffic
      (((w.leaveDisk l.path).endLook l y).2.next.bind Refresh.call?) := fun l y =>
    passes_over (disk_endLook _ l y).1 (disk_endLook _ l y).2
  have hconclude : ∀ (l : Look) (o : Observation), Passes w.disk.traffic (some l.path.key)
      ((w.leaveDisk l.path).conclude l o).1.disk.traffic
      (((w.leaveDisk l.path).conclude l o).2.next.bind Refresh.call?) := fun l o =>
    passes_over (disk_conclude _ l o).1 (disk_conclude _ l o).2
  match x with
  | .queued p q τ =>
    have hback : Passes w.disk.traffic none (w.giveBack τ).disk.traffic none := by
      rw [disk_giveBack]
      exact .stay none
    simp only [World.stepRefresh]
    split
    · unfold World.enterRefresh
      split
      · exact hback
      · split
        · exact hback
        · exact passes_beginCall Refresh.call? (.looking _) (w.setEntry p _) .stat fun _ => rfl
    · exact .stay none
  | .looking l (.held g) => exact passes_atGate Refresh.call? (.looking l) w g fun _ => rfl
  | .looking l .due =>
    simp only [World.stepRefresh, World.haveLooked]
    split
    · exact hend l _
    · exact hconclude l _
    · split
      · exact hconclude l _
      · exact passes_again Refresh.call? (.reading l _) w .read fun _ => rfl
  | .reading l m (.held g) => exact passes_atGate Refresh.call? (.reading l m) w g fun _ => rfl
  | .reading l m .due =>
    simp only [World.stepRefresh, World.haveRead]
    split
    · exact hconclude l _
    · exact passes_again Refresh.call? (.lookingAgain l _) w .stat fun _ => rfl
  | .lookingAgain l f (.held g) => exact passes_atGate Refresh.call? (.lookingAgain l f) w g fun _ => rfl
  | .lookingAgain l f .due =>
    simp only [World.stepRefresh, World.haveLookedAgain]
    split
    · exact hend l _
    · exact hconclude l _
    · exact hend l _

theorem passes_requestRefresh (w : World) (p : Path) :
    Passes w.disk.traffic none (w.requestRefresh p).1.disk.traffic ((w.requestRefresh p).2.next.bind Refresh.call?) := by
  unfold World.requestRefresh
  split
  · exact .stay none
  · rename_i e _
    obtain ⟨signal, signals, hq, -⟩ := beginQuery_eq w e
    rw [hq]
    exact .stay none

theorem passes_dropRefresh (w : World) (x : Refresh) :
    Passes w.disk.traffic x.call? (w.dropRefresh x).disk.traffic none := by
  have hlook : ∀ l : Look, Passes w.disk.traffic (some l.path.key)
      (((w.leaveDisk l.path).giveIf l.signal).giveBack l.turn).disk.traffic none := fun l => by
    rw [disk_giveBack, disk_giveIf, World.leaveDisk, Disk.traffic_leave]
    exact .ends l.path.key
  cases x with
  | queued p q τ =>
    rw [World.dropRefresh, disk_giveBack]
    exact .stay none
  | looking l c => exact hlook l
  | reading l m c => exact hlook l
  | lookingAgain l f c => exact hlook l

@[simp] theorem disk_inBackground (w : World) (x : Request) : (w.inBackground x).disk = w.disk := by
  unfold World.inBackground
  split <;> rfl

theorem disk_failSave (w : World) (job : SaveJob) (e : Problem) :
    (w.failSave job e).1.disk = w.disk ∧ (w.failSave job e).2.next = none := by
  unfold World.failSave
  dsimp only
  split <;> exact ⟨by simp [World.forgetRevoked, World.modifyEntry], rfl⟩

theorem disk_commitSave (w : World) (job : SaveJob) (m : Instant) :
    (w.commitSave job m).1.disk = w.disk ∧ (w.commitSave job m).2.next = none := by
  unfold World.commitSave
  cases w.entry? job.path <;> dsimp only [Option.map] <;> split <;>
    exact ⟨by simp [World.forgetRevoked, World.modifyEntry, World.setEntry], rfl⟩

theorem passes_stepSave (w : World) (x : Save) :
    Passes w.disk.traffic x.call? (w.stepSave x).1.disk.traffic ((w.stepSave x).2.next.bind Save.call?) := by
  match x with
  | .queued job =>
    simp only [World.stepSave]
    split
    · exact passes_beginCall Save.call? (.writing job) w .write fun _ => rfl
    · exact .stay none
  | .writing job (.held g) => exact passes_atGate Save.call? (.writing job) w g fun _ => rfl
  | .writing job .due =>
    simp only [World.stepSave, World.haveWritten]
    rw [← Disk.traffic_write w.disk job.path job.bytes]
    split
    · exact passes_over (w := { w with disk := (w.disk.write job.path job.bytes).1 }) (disk_failSave _ job _).1
        (disk_failSave _ job _).2
    · exact passes_again Save.call? (.looking job) { w with disk := (w.disk.write job.path job.bytes).1 } .stat fun _ => rfl
  | .looking job (.held g) => exact passes_atGate Save.call? (.looking job) w g fun _ => rfl
  | .looking job .due =>
    simp only [World.stepSave, World.haveLookedUp]
    split
    · exact passes_over (disk_failSave _ job _).1 (disk_failSave _ job _).2
    · exact passes_over (disk_failSave _ job _).1 (disk_failSave _ job _).2
    · exact passes_over (disk_commitSave _ job _).1 (disk_commitSave _ job _).2

theorem passes_requestSave (w : World) (p : Path) (bytes : ByteArray) :
    Passes w.disk.traffic none (w.requestSave p bytes).1.disk.traffic
      ((w.requestSave p bytes).2.next.bind Save.call?) := by
  unfold World.requestSave
  split
  · exact .stay none
  · split
    · split <;> exact .stay none
    · exact .stay none

theorem passes_dropSave (w : World) (x : Save) : Passes w.disk.traffic x.call? (w.dropSave x).disk.traffic none := by
  have hleave : ∀ job : SaveJob, Passes w.disk.traffic (some job.path.key)
      (((w.leaveDisk job.path).giveBack job.turn).giveIf job.waiters).disk.traffic none := fun job => by
    rw [disk_giveIf, disk_giveBack, World.leaveDisk, Disk.traffic_leave]
    exact .ends job.path.key
  cases x with
  | queued job =>
    rw [World.dropSave, disk_giveIf, disk_giveBack]
    exact .stay none
  | writing job c => exact hleave job
  | looking job c => exact hleave job

/-- a part of a task that makes calls -/
theorem calling_ofPart {phase : σ → Activity} {answer : α → Answer} {call : σ → Option Path.Key}
    {x : World × Section σ (Except Problem α)} (hx : Passes w.disk.traffic a.call? x.1.disk.traffic (x.2.next.bind call))
    (hphase : ∀ s, (phase s).call? = call s ∧ (phase s).isDirect = false) : Calling w a (ofPart phase answer x) := by
  have hgo : ∀ s, Passes w.disk.traffic a.call? x.1.disk.traffic (call s) →
      Passes w.disk.traffic a.call? x.1.disk.traffic ((phase s).call?) := fun s h => by rwa [(hphase s).1]
  have hdirect : ∀ s b, some (phase s) = some b → b.isDirect = false := fun s b hb => by
    cases hb
    exact (hphase s).2
  rcases x with ⟨w', s | s | s | o⟩
  · exact ⟨hgo s hx, hdirect s⟩
  · exact ⟨hgo s hx, hdirect s⟩
  · exact ⟨hgo s hx, hdirect s⟩
  · exact ⟨hx, by simp [ofPart, Section.next]⟩

/-! ### Whatever else a task does -/

@[simp] theorem disk_cancelIf (w : World) (id : Option TaskId) : (w.cancelIf id).disk = w.disk := (aside_cancelIf w id).disk

@[simp] theorem disk_endSeat (w : World) (seat : Seat) : (w.endSeat seat).disk = w.disk := disk_giveIf _ (some seat.joined)

theorem offline_endLeaving (w : World) (l : Leaving) : Offline w (w.endLeaving l) :=
  .of_ended (by cases l <;> simp [World.endLeaving]) (next_endLeaving w l)

theorem offline_releasePlace (w : World) (p : Path) (l : Leaving) : Offline w (w.releasePlace p l) := by
  unfold World.releasePlace
  split
  · exact offline_endLeaving w l
  · dsimp only
    split
    · refine ⟨?_, fun b hb => by cases hb; exact ⟨rfl, rfl⟩⟩
      split <;> rfl
    · exact (offline_endLeaving _ l).of_disk rfl

theorem offline_unwatch (w : World) (p : Path) (id : SubscriberId) : Offline w (w.unwatch p id) := by
  unfold World.unwatch
  split
  · exact .of_ended rfl rfl
  · split
    · exact .of_ended rfl rfl
    · exact (offline_releasePlace _ p .unwatched).of_disk (by simp [World.setEntry])

theorem offline_stepTearingDown (w : World) (p : Path) (turn : Option Turn) (l : Leaving) :
    Offline w (w.stepTearingDown p turn l) := by
  have h := (aside_awaitIdle w p turn).disk
  unfold World.stepTearingDown
  rcases hx : w.awaitIdle p turn with ⟨w', t | t | t | u⟩ <;> rw [hx] at h <;> dsimp only at h ⊢
  · exact .of_next h rfl ⟨rfl, rfl⟩
  · exact .of_next h rfl ⟨rfl, rfl⟩
  · exact .of_next h rfl ⟨rfl, rfl⟩
  · split
    · split
      · exact (offline_endLeaving _ l).of_disk h
      · exact (offline_endLeaving _ l).of_disk h
    · exact (offline_endLeaving _ l).of_disk h

theorem offline_takePlace (w : World) (seat : Seat) (e : Entry) : Offline w (w.takePlace seat e) := by
  rcases takePlace_cases w seat e with ⟨-, htake⟩ | ⟨-, x, armed, signal, signals, v, -, -, rfl, htake⟩
  · rw [htake]
    exact .of_next rfl rfl ⟨rfl, rfl⟩
  · rw [htake]
    exact .of_next rfl rfl ⟨rfl, rfl⟩

theorem offline_stepJoining (w : World) (p : Path) (id : SubscriberId) (joined : SignalId) (other : Option SignalId) :
    Offline w (w.stepJoining p id joined other) := by
  unfold World.stepJoining
  split
  · exact .of_next rfl rfl ⟨rfl, rfl⟩
  · dsimp only
    split
    · exact .of_ended rfl rfl
    · split
      · exact .of_next rfl rfl ⟨rfl, rfl⟩
      · exact offline_takePlace w _ _

theorem offline_requestWatch (w : World) (p : Path) (id : SubscriberId) : Offline w (w.requestWatch p id) := by
  unfold World.requestWatch
  split
  · exact .of_ended rfl rfl
  · exact .of_next rfl rfl ⟨rfl, rfl⟩

theorem offline_register (w : World) (seat : Seat) : Offline w (w.register seat) := by
  have hlisten : (w.listen seat.path seat.subscriber).2.disk = w.disk := by
    unfold World.listen
    split <;> rfl
  unfold World.register
  split
  · exact .of_ended (disk_endSeat w seat) rfl
  · dsimp only
    refine .of_ended ?_ rfl
    split
    · simp [World.setEntry, hlisten]
    · simp [World.setEntry, hlisten]

theorem offline_stepSettling (w : World) (seat : Seat) (x : Option SignalId) : Offline w (w.stepSettling seat x) := by
  unfold World.stepSettling
  split
  · exact .of_next rfl rfl ⟨rfl, rfl⟩
  · split
    · exact .of_next rfl rfl ⟨rfl, rfl⟩
    · exact offline_register w seat

theorem disk_foldl_retire (es : List Entry) (w : World) : (es.foldl World.retire w).disk = w.disk := by
  induction es generalizing w with
  | nil => rfl
  | cons e es ih =>
    refine (ih (w.retire e)).trans ?_
    unfold World.retire
    dsimp only
    split <;> exact (aside_stopListeners w e).disk

theorem offline_requestShutDown (w : World) : Offline w w.requestShutDown where
  disk := (disk_foldl_retire _ _).trans (disk_cancelIf _ _)
  next b hb := by
    cases hb
    exact ⟨rfl, rfl⟩

theorem offline_drainNext (w : World) (paths : List Path) : Offline w (w.drainNext paths) := by
  cases paths with
  | nil => exact .of_ended rfl rfl
  | cons p rest => exact .of_next rfl rfl ⟨rfl, rfl⟩

theorem offline_stepClosing (w : World) (paths : List Path) : Offline w (w.stepClosing paths) := by
  unfold World.stepClosing
  split
  · exact offline_drainNext w paths
  · exact .of_next rfl rfl ⟨rfl, rfl⟩

theorem offline_stepDraining (w : World) (p : Path) (turn : Option Turn) (rest : List Path) :
    Offline w (w.stepDraining p turn rest) := by
  have h := (aside_awaitIdle w p turn).disk
  unfold World.stepDraining
  rcases hx : w.awaitIdle p turn with ⟨w', t | t | t | u⟩ <;> rw [hx] at h <;> dsimp only at h ⊢
  · exact .of_next h rfl ⟨rfl, rfl⟩
  · exact .of_next h rfl ⟨rfl, rfl⟩
  · exact .of_next h rfl ⟨rfl, rfl⟩
  · exact (offline_drainNext w' rest).of_disk h

theorem offline_stepListening (w : World) (p : Path) (id : SubscriberId) : Offline w (w.stepListening p id) := by
  unfold World.stepListening
  split
  · exact .of_ended (disk_inBackground w _) rfl
  · exact .of_next rfl rfl ⟨rfl, rfl⟩

theorem offline_stepPumping (w : World) (x : StreamId) : Offline w (w.stepPumping x) := by
  unfold World.stepPumping
  split
  · exact .of_next (disk_inBackground _ _) rfl ⟨rfl, rfl⟩
  · exact .of_ended rfl rfl
  · exact .of_next rfl rfl ⟨rfl, rfl⟩

theorem offline_stepAwaitingQuiet (w : World) : Offline w w.stepAwaitingQuiet := by
  unfold World.stepAwaitingQuiet
  split
  · exact .of_ended rfl rfl
  · exact .of_next rfl rfl ⟨rfl, rfl⟩

theorem calling_stepSynchronizing (w : World) (seat : Seat) (x : Refresh) :
    Calling w (.synchronizing seat x) (w.stepSynchronizing seat x) := by
  have h := passes_stepRefresh w x
  unfold World.stepSynchronizing
  rcases hx : w.stepRefresh x with ⟨w', y | y | y | o⟩ <;> rw [hx] at h
  · exact ⟨h, fun b hb => by cases hb; rfl⟩
  · exact ⟨h, fun b hb => by cases hb; rfl⟩
  · exact ⟨h, fun b hb => by cases hb; rfl⟩
  · cases o with
    | ok b => exact ⟨h, fun b hb => by cases hb; rfl⟩
    | error e =>
      have hoff := offline_releasePlace w' seat.path (.failed seat e)
      refine ⟨?_, fun b hb => (hoff.next b hb).2⟩
      dsimp only
      rw [hoff.disk, Option.bind_eq_none_iff.2 fun b hb => (hoff.next b hb).1]
      exact h

theorem calling_begin (w : World) {x : Request} (hx : x.isDirect = false) : Calling w (.starting x) (w.begin x) := by
  cases x with
  | watch p id => exact (offline_requestWatch w p id).calling rfl
  | unwatch p id => exact (offline_unwatch w p id).calling rfl
  | write p bytes => exact calling_ofPart (passes_requestSave w p bytes) fun _ => ⟨rfl, rfl⟩
  | reconcile p => exact calling_ofPart (passes_requestRefresh w p) fun _ => ⟨rfl, rfl⟩
  | release p => exact (offline_releasePlace w p .abandoned).calling rfl
  | waitIdle => exact ⟨.stay none, fun b hb => by cases hb; rfl⟩
  | shutDown => exact (offline_requestShutDown w).calling rfl
  | diskStat p => cases hx
  | diskRead p => cases hx
  | diskWrite p bytes => cases hx

/-- **What a section of a task does to the traffic.** -/
theorem calling_step (w : World) (ha : a.isDirect = false) : Calling w a (w.step a) := by
  cases a with
  | starting x => exact calling_begin w ha
  | refreshing x => exact calling_ofPart (passes_stepRefresh w x) fun _ => ⟨rfl, rfl⟩
  | saving x => exact calling_ofPart (passes_stepSave w x) fun _ => ⟨rfl, rfl⟩
  | joining p id joined other => exact (offline_stepJoining w p id joined other).calling rfl
  | synchronizing seat x => exact calling_stepSynchronizing w seat x
  | settling seat x => exact (offline_stepSettling w seat x).calling rfl
  | tearingDown p turn l => exact (offline_stepTearingDown w p turn l).calling rfl
  | awaitingQuiet => exact (offline_stepAwaitingQuiet w).calling rfl
  | closing paths => exact (offline_stepClosing w paths).calling rfl
  | draining p turn rest => exact (offline_stepDraining w p turn rest).calling rfl
  | listening p id => exact (offline_stepListening w p id).calling rfl
  | pumping x => exact (offline_stepPumping w x).calling rfl
  | diskStat p c => cases ha
  | diskRead p c => cases ha
  | diskWrite p bytes c => cases ha

/-- **A cancelled task leaves no call behind.** -/
theorem passes_abandon (w : World) (a : Activity) : Passes w.disk.traffic a.call? (w.abandon a).disk.traffic none := by
  have hleave : ∀ p, Passes w.disk.traffic (some (Path.key p)) (w.leaveDisk p).disk.traffic none := fun p => by
    rw [World.leaveDisk, Disk.traffic_leave]
    exact .ends p.key
  have hstay : ∀ turn, Passes w.disk.traffic none (w.giveBackIf turn).disk.traffic none := fun turn => by
    rw [(aside_giveBackIf w turn).disk]
    exact .stay none
  cases a with
  | refreshing x => exact passes_dropRefresh w x
  | saving x => exact passes_dropSave w x
  | synchronizing seat x =>
    rw [World.abandon, World.abandonSeat, disk_inBackground, disk_endSeat]
    exact passes_dropRefresh w x
  | settling seat x =>
    rw [World.abandon, World.abandonSeat, disk_inBackground, disk_endSeat]
    exact .stay none
  | tearingDown p turn l =>
    cases l with
    | failed seat e =>
      rw [World.abandon, disk_endSeat]
      exact hstay turn
    | unwatched => exact hstay turn
    | abandoned => exact hstay turn
  | draining p turn rest => exact hstay turn
  | diskStat p c => exact hleave p
  | diskRead p c => exact hleave p
  | diskWrite p bytes c => exact hleave p
  | pumping x => exact .stay none
  | starting x => exact .stay none
  | joining p id joined other => exact .stay none
  | awaitingQuiet => exact .stay none
  | closing paths => exact .stay none
  | listening p id => exact .stay none

end Engine

end LiveFiles
