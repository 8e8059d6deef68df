/-
How often the disk is called. A section begins one call at most, and whoever has begun one has it under way then
(`Activity.calling?`).
- `begins_step`: a section leaves the number of calls alone, or counts the call that its task has under way afterwards.
- **`begins_move`**: so does a move.
- `Begins.callCount`: what that means for the calls of one kind at a path.
-/
import LiveFiles.Proofs.Convergence

namespace LiveFiles

/-- the calls of disk `d'` are those of `d`, or one more, which is under way then -/
inductive Begins (d d' : Disk) (call : Option (DiskOp × Path)) : Prop
  | nothing (h : d'.calls = d.calls)
  | one (op : DiskOp) (p : Path) (hcall : call = some (op, p))
      (h : d'.calls = d.calls.insert (op, p.key) (d.callCount op p + 1))

theorem callCount_of_calls {d d' : Disk} (h : d'.calls = d.calls) (op : DiskOp) (p : Path) :
    d'.callCount op p = d.callCount op p := by
  rw [Disk.callCount, Disk.callCount, h]

/-- the number of calls of one kind at a path stays, or one is under way that has not been counted -/
theorem Begins.callCount {d d' : Disk} {call : Option (DiskOp × Path)} (h : Begins d d' call) (op : DiskOp) (p : Path) :
    d'.callCount op p = d.callCount op p ∨
      d'.callCount op p = d.callCount op p + 1 ∧ ∃ q, call = some (op, q) ∧ q.key = p.key := by
  cases h with
  | nothing h => exact Or.inl (callCount_of_calls h op p)
  | one op' q hcall h =>
    have hget : d'.callCount op p = if (op', q.key) = (op, p.key) then d.callCount op' q + 1 else d.callCount op p := by
      rw [Disk.callCount, h, Table.getD, Table.get?_insert]
      split
      · rfl
      · rfl
    by_cases hkey : (op', q.key) = (op, p.key)
    · obtain ⟨rfl, hk⟩ := Prod.mk.inj hkey
      have hsame : d.callCount op' q = d.callCount op' p := by rw [Disk.callCount, Disk.callCount, hk]
      rw [if_pos hkey, hsame] at hget
      exact Or.inr ⟨hget, q, hcall, hk⟩
    · rw [if_neg hkey] at hget
      exact Or.inl hget

theorem Begins.of_calls {d d₁ d' : Disk} {call : Option (DiskOp × Path)} (h : Begins d₁ d' call) (hd : d₁.calls = d.calls) :
    Begins d d' call := by
  cases h with
  | nothing h => exact .nothing (h.trans hd)
  | one op p hcall h => exact .one op p hcall (by rw [h, hd, callCount_of_calls hd])

namespace Engine

/-! ## The call that is under way -/

def Refresh.calling? : Refresh → Option (DiskOp × Path)
  | .queued .. => none
  | .looking l _ => some (.stat, l.path)
  | .reading l _ _ => some (.read, l.path)
  | .lookingAgain l _ _ => some (.stat, l.path)

def Save.calling? : Save → Option (DiskOp × Path)
  | .queued _ => none
  | .writing job _ => some (.write, job.path)
  | .looking job _ => some (.stat, job.path)

/-- the call that a task has under way -/
def Activity.calling? : Activity → Option (DiskOp × Path)
  | .refreshing r | .synchronizing _ r => r.calling?
  | .saving s => s.calling?
  | .diskStat p _ => some (.stat, p)
  | .diskRead p _ => some (.read, p)
  | .diskWrite p _ _ => some (.write, p)
  | .starting _ | .joining .. | .settling .. | .tearingDown .. | .awaitingQuiet | .closing _ | .draining .. | .listening ..
  | .pumping _ => none

variable {w w' : World} {m : Move} {id : TaskId} {t : Task Phase} {a b : Activity} {p : Path} {σ α : Type}

/-! ## One section -/

theorem begins_beginCall (calling : σ → Option (DiskOp × Path)) (k : Call → σ) (w : World) (op : DiskOp) (p : Path)
    (hk : ∀ c, calling (k c) = some (op, p)) :
    Begins w.disk (w.beginCall (α := α) op p k).1.disk ((w.beginCall (α := α) op p k).2.next.bind calling) := by
  obtain ⟨c, hc⟩ := next_beginCall (α := α) w op p k
  rw [disk_beginCall, hc, Option.bind_some, hk]
  exact .one op p rfl rfl

theorem disk_atGate (w : World) (g : GateId) (k : Call → σ) : (w.atGate (α := α) g k).1.disk = w.disk := by
  unfold World.atGate
  split <;> rfl

theorem begins_stepRefresh (w : World) (r : Refresh) :
    Begins w.disk (w.stepRefresh r).1.disk ((w.stepRefresh r).2.next.bind Refresh.calling?) := by
  have hend : ∀ (l : Look) y {c}, Begins w.disk ((w.leaveDisk l.path).endLook l y).1.disk c := fun l y _ =>
    .nothing ((congrArg Disk.calls (disk_endLook (w.leaveDisk l.path) l y).1).trans rfl)
  have hconclude : ∀ (l : Look) o {c}, Begins w.disk ((w.leaveDisk l.path).conclude l o).1.disk c := fun l o _ =>
    .nothing ((congrArg Disk.calls (disk_conclude (w.leaveDisk l.path) l o).1).trans rfl)
  have hgate : ∀ g (k : Call → Refresh) {c}, Begins w.disk (w.atGate (α := Refreshed) g k).1.disk c := fun g k _ =>
    .nothing (congrArg Disk.calls (disk_atGate w g k))
  match r with
  | .queued p q τ =>
    have hback : ∀ {c}, Begins w.disk (w.giveBack τ).disk c := .nothing (congrArg Disk.calls (disk_giveBack w τ))
    simp only [World.stepRefresh]
    split
    · unfold World.enterRefresh
      split
      · exact hback
      · split
        · exact hback
        · exact begins_beginCall Refresh.calling? (.looking _) (w.setEntry p _) .stat p fun _ => rfl
    · exact .nothing rfl
  | .looking l (.held g) => exact hgate g (.looking l)
  | .looking l .due =>
    simp only [World.stepRefresh, World.haveLooked]
    split
    · exact hend l _
    · exact hconclude l _
    · split
      · exact hconclude l _
      · exact (begins_beginCall Refresh.calling? (.reading l _) (w.leaveDisk l.path) .read l.path fun _ => rfl).of_calls rfl
  | .reading l m (.held g) => exact hgate g (.reading l m)
  | .reading l m .due =>
    simp only [World.stepRefresh, World.haveRead]
    split
    · exact hconclude l _
    · exact (begins_beginCall Refresh.calling? (.lookingAgain l _) (w.leaveDisk l.path) .stat l.path fun _ => rfl).of_calls
        rfl
  | .lookingAgain l f (.held g) => exact hgate g (.lookingAgain l f)
  | .lookingAgain l f .due =>
    simp only [World.stepRefresh, World.haveLookedAgain]
    split
    · exact hend l _
    · exact hconclude l _
    · exact hend l _

theorem begins_stepSave (w : World) (x : Save) :
    Begins w.disk (w.stepSave x).1.disk ((w.stepSave x).2.next.bind Save.calling?) := by
  have hgate : ∀ g (k : Call → Save) {c}, Begins w.disk (w.atGate (α := Saved) g k).1.disk c := fun g k _ =>
    .nothing (congrArg Disk.calls (disk_atGate w g k))
  match x with
  | .queued job =>
    simp only [World.stepSave]
    split
    · exact begins_beginCall Save.calling? (.writing job) w .write job.path fun _ => rfl
    · exact .nothing rfl
  | .writing job (.held g) => exact hgate g (.writing job)
  | .writing job .due =>
    have hcalls : (w.disk.write job.path job.bytes).1.calls = w.disk.calls := by
      unfold Disk.write
      split <;> rfl
    simp only [World.stepSave, World.haveWritten]
    split
    · exact .nothing ((congrArg Disk.calls (disk_failSave _ job _).1).trans hcalls)
    · exact (begins_beginCall Save.calling? (.looking job)
        ({ w with disk := (w.disk.write job.path job.bytes).1 }.leaveDisk job.path) .stat job.path fun _ => rfl).of_calls hcalls
  | .looking job (.held g) => exact hgate g (.looking job)
  | .looking job .due =>
    simp only [World.stepSave, World.haveLookedUp]
    split
    · exact .nothing ((congrArg Disk.calls (disk_failSave (w.leaveDisk job.path) job _).1).trans rfl)
    · exact .nothing ((congrArg Disk.calls (disk_failSave (w.leaveDisk job.path) job _).1).trans rfl)
    · exact .nothing ((congrArg Disk.calls (disk_commitSave (w.leaveDisk job.path) job _).1).trans rfl)

theorem begins_ofPart {phase : σ → Activity} {answer : α → Answer} {calling : σ → Option (DiskOp × Path)}
    {x : World × Section σ (Except Problem α)} (hx : Begins w.disk x.1.disk (x.2.next.bind calling))
    (hphase : ∀ s, (phase s).calling? = calling s) :
    Begins w.disk (ofPart phase answer x).1.disk ((ofPart phase answer x).2.next.bind Activity.calling?) := by
  have hbind : (ofPart phase answer x).2.next.bind Activity.calling? = x.2.next.bind calling := by
    rw [next_ofPart, Option.bind_map]
    exact congrArg _ (funext hphase)
  rw [hbind, fst_ofPart]
  exact hx

theorem begins_stepSynchronizing (w : World) (seat : Seat) (r : Refresh) :
    Begins w.disk (w.stepSynchronizing seat r).1.disk ((w.stepSynchronizing seat r).2.next.bind Activity.calling?) := by
  have h := begins_stepRefresh w r
  unfold World.stepSynchronizing
  rcases hx : w.stepRefresh r with ⟨w', y | y | y | (e | b)⟩ <;> rw [hx] at h
  · exact h
  · exact h
  · exact h
  · have hoff := offline_releasePlace w' seat.path (.failed seat e)
    cases h with
    | nothing h => exact .nothing ((congrArg Disk.calls hoff.disk).trans h)
    | one op p hcall h => cases hcall
  · cases h with
    | nothing h => exact .nothing h
    | one op p hcall h => cases hcall

theorem Offline.begins {r : World × Section Activity Outcome} (h : Offline w r) {c : Option (DiskOp × Path)} :
    Begins w.disk r.1.disk c := .nothing (congrArg Disk.calls h.disk)

theorem disk_requestSave (w : World) (p : Path) (bytes : ByteArray) : (w.requestSave p bytes).1.disk = w.disk := by
  obtain ⟨turns, entries, h⟩ := frame_requestSave w p bytes
  rw [h]

theorem begins_begin (w : World) (x : Request) :
    Begins w.disk (w.begin x).1.disk ((w.begin x).2.next.bind Activity.calling?) := by
  cases x with
  | watch p id => exact (offline_requestWatch w p id).begins
  | unwatch p id => exact (offline_unwatch w p id).begins
  | write p bytes =>
    refine .nothing ?_
    simp only [World.begin, fst_ofPart, disk_requestSave]
  | reconcile p =>
    refine .nothing ?_
    simp only [World.begin, fst_ofPart, (requestRefresh_cases w p).1]
  | release p => exact (offline_releasePlace w p .abandoned).begins
  | waitIdle => exact .nothing rfl
  | shutDown => exact (offline_requestShutDown w).begins
  | diskStat p => exact begins_beginCall Activity.calling? (.diskStat p) w .stat p fun _ => rfl
  | diskRead p => exact begins_beginCall Activity.calling? (.diskRead p) w .read p fun _ => rfl
  | diskWrite p bytes => exact begins_beginCall Activity.calling? (.diskWrite p bytes) w .write p fun _ => rfl

/-- **A section counts no call but the one that its task has under way afterwards.** -/
theorem begins_step (w : World) (a : Activity) :
    Begins w.disk (w.step a).1.disk ((w.step a).2.next.bind Activity.calling?) := by
  have hgate : ∀ g (k : Call → Activity) {c}, Begins w.disk (w.atGate (α := Outcome) g k).1.disk c := fun g k _ =>
    .nothing (congrArg Disk.calls (disk_atGate w g k))
  match a with
  | .starting x => exact begins_begin w x
  | .refreshing x => exact begins_ofPart (begins_stepRefresh w x) fun _ => rfl
  | .saving x => exact begins_ofPart (begins_stepSave w x) fun _ => rfl
  | .joining p id joined other => exact (offline_stepJoining w p id joined other).begins
  | .synchronizing seat x => exact begins_stepSynchronizing w seat x
  | .settling seat x => exact (offline_stepSettling w seat x).begins
  | .tearingDown p turn l => exact (offline_stepTearingDown w p turn l).begins
  | .awaitingQuiet => exact (offline_stepAwaitingQuiet w).begins
  | .closing paths => exact (offline_stepClosing w paths).begins
  | .draining p turn rest => exact (offline_stepDraining w p turn rest).begins
  | .listening p id => exact (offline_stepListening w p id).begins
  | .pumping x => exact (offline_stepPumping w x).begins
  | .diskStat p (.held g) => exact hgate g (.diskStat p)
  | .diskStat p .due => exact .nothing rfl
  | .diskRead p (.held g) => exact hgate g (.diskRead p)
  | .diskRead p .due => exact .nothing rfl
  | .diskWrite p bytes (.held g) => exact hgate g (.diskWrite p bytes)
  | .diskWrite p bytes .due =>
    refine .nothing ?_
    simp only [World.step, Disk.write]
    split <;> rfl

/-! ## One move -/

theorem calls_dropRefresh (w : World) (r : Refresh) : (w.dropRefresh r).disk.calls = w.disk.calls := by
  cases r <;> simp [World.dropRefresh, World.leaveDisk, Disk.leave]

theorem calls_dropSave (w : World) (x : Save) : (w.dropSave x).disk.calls = w.disk.calls := by
  cases x <;> simp [World.dropSave, World.leaveDisk, Disk.leave]

/-- a cancelled task begins no call -/
theorem calls_abandon (w : World) (a : Activity) : (w.abandon a).disk.calls = w.disk.calls := by
  cases a with
  | refreshing r => exact calls_dropRefresh w r
  | saving x => exact calls_dropSave w x
  | synchronizing seat r =>
    rw [World.abandon, World.abandonSeat, disk_inBackground, disk_endSeat]
    exact calls_dropRefresh w r
  | settling seat signal => rw [World.abandon, World.abandonSeat, disk_inBackground, disk_endSeat]
  | tearingDown p turn l =>
    cases l with
    | failed seat e =>
      rw [World.abandon, disk_endSeat]
      exact congrArg Disk.calls (aside_giveBackIf w turn).disk
    | unwatched => exact congrArg Disk.calls (aside_giveBackIf w turn).disk
    | abandoned => exact congrArg Disk.calls (aside_giveBackIf w turn).disk
  | draining p turn rest => exact congrArg Disk.calls (aside_giveBackIf w turn).disk
  | _ => rfl

theorem calls_onDisk (m : Move) (d : Disk) : (m.onDisk d).calls = d.calls := by cases m <;> rfl

/-- nor does what happens from outside -/
theorem calls_outside (w : World) (hm : ∀ id, m ≠ .turn id) : (w.move m).disk.calls = w.disk.calls := by
  rw [(outside w hm).disk, calls_onDisk]

/-- the disk after the turn of a task that has ended, or cannot go on -/
theorem disk_nobody (hs : w.served? id = none) : (serve w id).disk = w.disk := by
  obtain ⟨ready, floor, hserve⟩ := serve_of_nobody hs
  rw [hserve]

/-- **A move counts no call but the one that the task has under way whose section it is.** -/
theorem begins_move (w : World) (m : Move) :
    (w.move m).disk.calls = w.disk.calls ∨ ∃ id a b, w.carried? m = some (id, a) ∧
      ((floorTo w id).step a).2.next = some b ∧ Begins w.disk (w.move m).disk b.calling? := by
  by_cases hm : ∀ id, m ≠ .turn id
  · exact Or.inl (calls_outside w hm)
  · push Not at hm
    obtain ⟨id, rfl⟩ := hm
    rw [World.move]
    cases hs : w.served? id with
    | none => exact Or.inl (congrArg Disk.calls (disk_nobody hs))
    | some t =>
      cases hc : t.cancelled with
      | true =>
        rw [serve_of_cancelled hs hc, disk_finish, calls_abandon]
        exact Or.inl (congrArg Disk.calls (disk_floorTo w id))
      | false =>
        have hbegins := begins_step (floorTo w id) t.phase.activity
        rw [disk_floorTo, ← (core_serve_of_section hs hc).2] at hbegins
        cases hb : ((floorTo w id).step t.phase.activity).2.next with
        | some b =>
          rw [hb] at hbegins
          exact Or.inr ⟨id, _, b, carried?_of_served hs hc, hb, hbegins⟩
        | none =>
          rw [hb] at hbegins
          cases hbegins with
          | nothing h => exact Or.inl h
          | one op p hcall h => cases hcall

end Engine

end LiveFiles
