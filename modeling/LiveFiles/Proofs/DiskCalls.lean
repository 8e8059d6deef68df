/-
What a section does to the disk as a whole. A task has one call under way at most (`DiskCall`), held at a gate or due, and what a
section of it may do is one of six things (`Handles`): nothing, wait at the gate, pass the gate that has been opened, begin a
call, end one, or end one and begin another at the same path. A call that ends has been carried out (`CarriesOut`), and only a
write changes anything then.
- **`handles_step`**: every section of every task does one of these.
- `drops_abandon`: a task that is cancelled leaves the disk, whatever its call was at, and does nothing else to it.
-/
import LiveFiles.Proofs.CallCounts

namespace LiveFiles

/-- a call to the disk that has been begun and is not over -/
structure DiskCall where
  op : DiskOp
  path : Path
  stage : Call
  deriving DecidableEq, Repr

namespace Disk

/-- where a call stands that is begun now -/
def stage (d : Disk) (op : DiskOp) (p : Path) : Call :=
  match d.gateFor.get? (op, p.key) with
  | some g => if d.isOpen g then .due else .held g
  | none => .due

end Disk

/-- a call is carried out, with success or without: only a write changes the disk -/
inductive CarriesOut (d : Disk) : DiskOp → Path → Disk → Prop
  | stat (p : Path) : CarriesOut d .stat p d
  | read (p : Path) : CarriesOut d .read p d
  | write (p : Path) (bytes : ByteArray) : CarriesOut d .write p (d.write p bytes).1

/-- what a section of a task makes of the disk, and of the call that the task has under way -/
inductive Handles (d : Disk) : Option DiskCall → Disk → Option DiskCall → Prop
  | idle : Handles d none d none
  | waits (op : DiskOp) (p : Path) (g : GateId) (hg : d.isOpen g = false) :
      Handles d (some ⟨op, p, .held g⟩) d (some ⟨op, p, .held g⟩)
  | passes (op : DiskOp) (p : Path) (g : GateId) (hg : d.isOpen g = true) :
      Handles d (some ⟨op, p, .held g⟩) d (some ⟨op, p, .due⟩)
  | begins (op : DiskOp) (p : Path) : Handles d none (d.enter op p).1 (some ⟨op, p, d.stage op p⟩)
  | ends (op : DiskOp) (p : Path) {d' : Disk} (h : CarriesOut d op p d') : Handles d (some ⟨op, p, .due⟩) (d'.leave p) none
  /-- the next call is of another kind -/
  | next (op op' : DiskOp) (p : Path) {d' : Disk} (hne : op ≠ op') (h : CarriesOut d op p d') :
      Handles d (some ⟨op, p, .due⟩) ((d'.leave p).enter op' p).1 (some ⟨op', p, (d'.leave p).stage op' p⟩)

/-- what becomes of the disk when a task that has a call under way, or none, is dropped -/
def Disk.drop (d : Disk) : Option DiskCall → Disk
  | none => d
  | some c => d.leave c.path

theorem Disk.isOpen_enter (d : Disk) (op : DiskOp) (p : Path) (g : GateId) : (d.enter op p).1.isOpen g = d.isOpen g := by
  simp only [enter, isOpen, Table.getD]
  split
  · rw [Table.get?_modify]
    split
    · rename_i h
      subst h
      cases d.gates.get? _ <;> rfl
    · rfl
  · rfl

namespace Engine

/-! ## The call of a task -/

def Refresh.diskCall? : Refresh → Option DiskCall
  | .queued .. => none
  | .looking l c => some ⟨.stat, l.path, c⟩
  | .reading l _ c => some ⟨.read, l.path, c⟩
  | .lookingAgain l _ c => some ⟨.stat, l.path, c⟩

def Save.diskCall? : Save → Option DiskCall
  | .queued _ => none
  | .writing job c => some ⟨.write, job.path, c⟩
  | .looking job c => some ⟨.stat, job.path, c⟩

/-- the call that a task has under way, and where it stands -/
def Activity.diskCall? : Activity → Option DiskCall
  | .refreshing r | .synchronizing _ r => r.diskCall?
  | .saving s => s.diskCall?
  | .diskStat p c => some ⟨.stat, p, c⟩
  | .diskRead p c => some ⟨.read, p, c⟩
  | .diskWrite p _ c => some ⟨.write, p, c⟩
  | .starting _ | .joining .. | .settling .. | .tearingDown .. | .awaitingQuiet | .closing _ | .draining .. | .listening ..
  | .pumping _ => none

variable {w w' : World} {a b : Activity} {p : Path} {σ α : Type}

/-- the path of the call -/
theorem call?_eq_diskCall? (a : Activity) : a.call? = a.diskCall?.map fun c => c.path.key := by
  have hrefresh : ∀ r : Refresh, r.call? = r.diskCall?.map fun c => c.path.key := fun r => by cases r <;> rfl
  cases a with
  | refreshing r => exact hrefresh r
  | synchronizing seat r => exact hrefresh r
  | saving s => cases s <;> rfl
  | _ => rfl

theorem diskCall?_of_call? (h : a.call? = none) : a.diskCall? = none := by
  rwa [call?_eq_diskCall?, Option.map_eq_none_iff] at h

/-- a section that has nothing to do with the disk -/
theorem Offline.handles {r : World × Section Activity Outcome} (h : Offline w r) (ha : a.diskCall? = none) :
    Handles w.disk a.diskCall? r.1.disk (r.2.next.bind Activity.diskCall?) := by
  have hnone : r.2.next.bind Activity.diskCall? = none :=
    Option.bind_eq_none_iff.2 fun b hb => diskCall?_of_call? (h.next b hb).1
  rw [h.disk, ha, hnone]
  exact .idle

/-! ## Sections -/

theorem next_beginCall_stage (w : World) (op : DiskOp) (p : Path) (k : Call → σ) :
    (w.beginCall (α := α) op p k).2.next = some (k (w.disk.stage op p)) := by
  have hgate : (w.disk.enter op p).2 = w.disk.gateFor.get? (op, p.key) := rfl
  simp only [World.beginCall, Disk.stage, hgate, Disk.isOpen_enter]
  cases w.disk.gateFor.get? (op, p.key) with
  | none => rfl
  | some g =>
    dsimp only
    split <;> rfl

theorem handles_beginCall (call : σ → Option DiskCall) (k : Call → σ) (w : World) (op : DiskOp) (p : Path)
    (hk : ∀ c, call (k c) = some ⟨op, p, c⟩) :
    Handles w.disk none (w.beginCall (α := α) op p k).1.disk ((w.beginCall (α := α) op p k).2.next.bind call) := by
  rw [disk_beginCall, next_beginCall_stage, Option.bind_some, hk]
  exact .begins op p

/-- a call is carried out, and the next one begins -/
theorem handles_again (call : σ → Option DiskCall) (k : Call → σ) (w : World) {op op' : DiskOp} (hne : op ≠ op') {d : Disk}
    (h : CarriesOut d op p w.disk) (hk : ∀ c, call (k c) = some ⟨op', p, c⟩) :
    Handles d (some ⟨op, p, .due⟩) ((w.leaveDisk p).beginCall (α := α) op' p k).1.disk
      (((w.leaveDisk p).beginCall (α := α) op' p k).2.next.bind call) := by
  rw [disk_beginCall, next_beginCall_stage, Option.bind_some, hk]
  exact .next op op' p hne h

/-- a call is carried out, and the operation is over -/
theorem handles_over {call : σ → Option DiskCall} {r : World × Section σ α} {op : DiskOp} {d : Disk}
    (h : CarriesOut d op p w.disk) (hd : r.1.disk = (w.leaveDisk p).disk) (hn : r.2.next = none) :
    Handles d (some ⟨op, p, .due⟩) r.1.disk (r.2.next.bind call) := by
  rw [hd, hn]
  exact .ends op p h

theorem handles_atGate (call : σ → Option DiskCall) (k : Call → σ) (w : World) (op : DiskOp) (g : GateId)
    (hk : ∀ c, call (k c) = some ⟨op, p, c⟩) :
    Handles w.disk (some ⟨op, p, .held g⟩) (w.atGate (α := α) g k).1.disk ((w.atGate (α := α) g k).2.next.bind call) := by
  unfold World.atGate
  split
  · rename_i hg
    change Handles w.disk _ w.disk (call (k .due))
    rw [hk]
    exact .passes op p g hg
  · rename_i hg
    change Handles w.disk _ w.disk (call (k (.held g)))
    rw [hk]
    exact .waits op p g (Bool.eq_false_iff.2 hg)

theorem handles_stepRefresh (w : World) (x : Refresh) :
    Handles w.disk x.diskCall? (w.stepRefresh x).1.disk ((w.stepRefresh x).2.next.bind Refresh.diskCall?) := by
  -- what is looked at or read is left as it is, so all calls end alike
  have hend : ∀ (l : Look) (y : Refreshed) (op : DiskOp), CarriesOut w.disk op l.path w.disk →
      Handles w.disk (some ⟨op, l.path, .due⟩) ((w.leaveDisk l.path).endLook l y).1.disk
        (((w.leaveDisk l.path).endLook l y).2.next.bind Refresh.diskCall?) := fun l y op h =>
    handles_over h (disk_endLook _ l y).1 (disk_endLook _ l y).2
  have hconclude : ∀ (l : Look) (o : Observation) (op : DiskOp), CarriesOut w.disk op l.path w.disk →
      Handles w.disk (some ⟨op, l.path, .due⟩) ((w.leaveDisk l.path).conclude l o).1.disk
        (((w.leaveDisk l.path).conclude l o).2.next.bind Refresh.diskCall?) := fun l o op h =>
    handles_over h (disk_conclude _ l o).1 (disk_conclude _ l o).2
  match x with
  | .queued p q τ =>
    have hback : Handles w.disk none (w.giveBack τ).disk none := by
      rw [disk_giveBack]
      exact .idle
    simp only [World.stepRefresh]
    split
    · unfold World.enterRefresh
      split
      · exact hback
      · split
        · exact hback
        · exact handles_beginCall Refresh.diskCall? (.looking _) (w.setEntry p _) .stat p fun _ => rfl
    · exact .idle
  | .looking l (.held g) => exact handles_atGate Refresh.diskCall? (.looking l) w .stat g fun _ => rfl
  | .looking l .due =>
    simp only [World.stepRefresh, World.haveLooked]
    split
    · exact hend l _ .stat (.stat l.path)
    · exact hconclude l _ .stat (.stat l.path)
    · split
      · exact hconclude l _ .stat (.stat l.path)
      · exact handles_again Refresh.diskCall? (.reading l _) w (by decide) (.stat l.path) fun _ => rfl
  | .reading l m (.held g) => exact handles_atGate Refresh.diskCall? (.reading l m) w .read g fun _ => rfl
  | .reading l m .due =>
    simp only [World.stepRefresh, World.haveRead]
    split
    · exact hconclude l _ .read (.read l.path)
    · exact handles_again Refresh.diskCall? (.lookingAgain l _) w (by decide) (.read l.path) fun _ => rfl
  | .lookingAgain l f (.held g) => exact handles_atGate Refresh.diskCall? (.lookingAgain l f) w .stat g fun _ => rfl
  | .lookingAgain l f .due =>
    simp only [World.stepRefresh, World.haveLookedAgain]
    split
    · exact hend l _ .stat (.stat l.path)
    · exact hconclude l _ .stat (.stat l.path)
    · exact hend l _ .stat (.stat l.path)

theorem handles_stepSave (w : World) (x : Save) :
    Handles w.disk x.diskCall? (w.stepSave x).1.disk ((w.stepSave x).2.next.bind Save.diskCall?) := by
  match x with
  | .queued job =>
    simp only [World.stepSave]
    split
    · exact handles_beginCall Save.diskCall? (.writing job) w .write job.path fun _ => rfl
    · exact .idle
  | .writing job (.held g) => exact handles_atGate Save.diskCall? (.writing job) w .write g fun _ => rfl
  | .writing job .due =>
    have hwrite : CarriesOut w.disk .write job.path (w.disk.write job.path job.bytes).1 := .write job.path job.bytes
    simp only [World.stepSave, World.haveWritten]
    split
    · exact handles_over (w := { w with disk := (w.disk.write job.path job.bytes).1 }) hwrite (disk_failSave _ job _).1
        (disk_failSave _ job _).2
    · exact handles_again Save.diskCall? (.looking job) { w with disk := (w.disk.write job.path job.bytes).1 } (by decide)
        hwrite fun _ => rfl
  | .looking job (.held g) => exact handles_atGate Save.diskCall? (.looking job) w .stat g fun _ => rfl
  | .looking job .due =>
    have hstat : CarriesOut w.disk .stat job.path w.disk := .stat job.path
    simp only [World.stepSave, World.haveLookedUp]
    split
    · exact handles_over hstat (disk_failSave _ job _).1 (disk_failSave _ job _).2
    · exact handles_over hstat (disk_failSave _ job _).1 (disk_failSave _ job _).2
    · exact handles_over hstat (disk_commitSave _ job _).1 (disk_commitSave _ job _).2

/-- a part of a task that makes calls -/
theorem handles_ofPart {phase : σ → Activity} {answer : α → Answer} (call : σ → Option DiskCall) {c : Option DiskCall}
    {d : Disk} {x : World × Section σ (Except Problem α)} (hx : Handles d c x.1.disk (x.2.next.bind call))
    (hphase : ∀ s, (phase s).diskCall? = call s) :
    Handles d c (ofPart phase answer x).1.disk ((ofPart phase answer x).2.next.bind Activity.diskCall?) := by
  have hbind : (ofPart phase answer x).2.next.bind Activity.diskCall? = x.2.next.bind call := by
    rw [next_ofPart, Option.bind_map]
    exact congrArg _ (funext hphase)
  rw [hbind, fst_ofPart]
  exact hx

theorem handles_stepSynchronizing (w : World) (seat : Seat) (r : Refresh) :
    Handles w.disk r.diskCall? (w.stepSynchronizing seat r).1.disk
      ((w.stepSynchronizing seat r).2.next.bind Activity.diskCall?) := by
  have h := handles_stepRefresh w r
  unfold World.stepSynchronizing
  rcases hx : w.stepRefresh r with ⟨w', y | y | y | (e | b)⟩ <;> rw [hx] at h
  · exact h
  · exact h
  · exact h
  · have hoff := offline_releasePlace w' seat.path (.failed seat e)
    dsimp only
    rw [hoff.disk, Option.bind_eq_none_iff.2 fun b hb => diskCall?_of_call? (hoff.next b hb).1]
    exact h
  · exact h

theorem handles_begin (w : World) (x : Request) :
    Handles w.disk none (w.begin x).1.disk ((w.begin x).2.next.bind Activity.diskCall?) := by
  cases x with
  | watch p id => exact (offline_requestWatch w p id).handles (a := .starting (.watch p id)) rfl
  | unwatch p id => exact (offline_unwatch w p id).handles (a := .starting (.unwatch p id)) rfl
  | write p bytes =>
    refine handles_ofPart Save.diskCall? ?_ fun _ => rfl
    unfold World.requestSave
    split
    · exact .idle
    · split
      · split <;> exact .idle
      · exact .idle
  | reconcile p =>
    refine handles_ofPart Refresh.diskCall? ?_ fun _ => rfl
    unfold World.requestRefresh
    split
    · exact .idle
    · rename_i e _
      obtain ⟨signal, signals, hq, -⟩ := beginQuery_eq w e
      rw [hq]
      exact .idle
  | release p => exact (offline_releasePlace w p .abandoned).handles (a := .starting (.release p)) rfl
  | waitIdle => exact .idle
  | shutDown => exact (offline_requestShutDown w).handles (a := .starting .shutDown) rfl
  | diskStat p => exact handles_beginCall Activity.diskCall? (.diskStat p) w .stat p fun _ => rfl
  | diskRead p => exact handles_beginCall Activity.diskCall? (.diskRead p) w .read p fun _ => rfl
  | diskWrite p bytes => exact handles_beginCall Activity.diskCall? (.diskWrite p bytes) w .write p fun _ => rfl

/-- **What a section of a task makes of the disk.** -/
theorem handles_step (w : World) (a : Activity) :
    Handles w.disk a.diskCall? (w.step a).1.disk ((w.step a).2.next.bind Activity.diskCall?) := by
  match a with
  | .starting x => exact handles_begin w x
  | .refreshing x => exact handles_ofPart Refresh.diskCall? (handles_stepRefresh w x) fun _ => rfl
  | .saving x => exact handles_ofPart Save.diskCall? (handles_stepSave w x) fun _ => rfl
  | .joining p id joined other => exact (offline_stepJoining w p id joined other).handles (a := .joining p id joined other) rfl
  | .synchronizing seat x => exact handles_stepSynchronizing w seat x
  | .settling seat x => exact (offline_stepSettling w seat x).handles (a := .settling seat x) rfl
  | .tearingDown p turn l => exact (offline_stepTearingDown w p turn l).handles (a := .tearingDown p turn l) rfl
  | .awaitingQuiet => exact (offline_stepAwaitingQuiet w).handles (a := .awaitingQuiet) rfl
  | .closing paths => exact (offline_stepClosing w paths).handles (a := .closing paths) rfl
  | .draining p turn rest => exact (offline_stepDraining w p turn rest).handles (a := .draining p turn rest) rfl
  | .listening p id => exact (offline_stepListening w p id).handles (a := .listening p id) rfl
  | .pumping x => exact (offline_stepPumping w x).handles (a := .pumping x) rfl
  | .diskStat p (.held g) => exact handles_atGate Activity.diskCall? (.diskStat p) w .stat g fun _ => rfl
  | .diskRead p (.held g) => exact handles_atGate Activity.diskCall? (.diskRead p) w .read g fun _ => rfl
  | .diskWrite p bytes (.held g) => exact handles_atGate Activity.diskCall? (.diskWrite p bytes) w .write g fun _ => rfl
  | .diskStat p .due => exact .ends .stat p (.stat p)
  | .diskRead p .due => exact .ends .read p (.read p)
  | .diskWrite p bytes .due => exact .ends .write p (.write p bytes)

/-! ## Cancelled tasks -/

theorem drops_dropRefresh (w : World) (x : Refresh) : (w.dropRefresh x).disk = w.disk.drop x.diskCall? := by
  cases x <;> simp [World.dropRefresh, Refresh.diskCall?, Disk.drop, World.leaveDisk]

theorem drops_dropSave (w : World) (x : Save) : (w.dropSave x).disk = w.disk.drop x.diskCall? := by
  cases x <;> simp [World.dropSave, Save.diskCall?, Disk.drop, World.leaveDisk]

/-- **A cancelled task leaves the disk, and that is all it does to it.** -/
theorem drops_abandon (w : World) (a : Activity) : (w.abandon a).disk = w.disk.drop a.diskCall? := by
  have hback : ∀ turn, (w.giveBackIf turn).disk = w.disk := fun turn => (aside_giveBackIf w turn).disk
  cases a with
  | refreshing x => exact drops_dropRefresh w x
  | saving x => exact drops_dropSave w x
  | synchronizing seat x =>
    rw [World.abandon, World.abandonSeat, disk_inBackground, disk_endSeat]
    exact drops_dropRefresh w x
  | settling seat x =>
    rw [World.abandon, World.abandonSeat, disk_inBackground, disk_endSeat]
    rfl
  | tearingDown p turn l =>
    cases l with
    | failed seat e =>
      rw [World.abandon, disk_endSeat]
      exact hback turn
    | unwatched => exact hback turn
    | abandoned => exact hback turn
  | draining p turn rest => exact hback turn
  | _ => rfl

end Engine

end LiveFiles
