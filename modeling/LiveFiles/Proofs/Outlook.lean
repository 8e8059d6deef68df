/-
What keeps tasks waiting besides turns and signals. Gates are opened from outside only, and the streams of events are read by the
pump only: no other section changes how they are (`World.outlook`), and one that ends at a gate ends at one that is closed (`Tame`).
There is one lemma for each function of the engine.
- **`tame_step`**: a section of a task, the pump's apart.
- `outlook_abandon`: what a cancelled task lets go of.
-/
import LiveFiles.Proofs.Listeners
import LiveFiles.Proofs.Operations

namespace LiveFiles.Engine

variable {w w' : World} {σ α : Type} {awaits : σ → Await} {p : Path} {a : Activity}

/-! ## Gates and streams -/

/-- how gates and streams are -/
structure Outlook where
  isOpen : GateId → Bool
  streams : Table StreamId (Channel Event)
  nextStream : StreamId

def World.outlook (w : World) : Outlook := ⟨w.disk.isOpen, w.streams, w.nextStream⟩

@[simp] theorem outlook_wake (w : World) (x : Await) : (w.wake x).outlook = w.outlook := rfl

@[simp] theorem outlook_cancelIf (w : World) (x : Option TaskId) : (w.cancelIf x).outlook = w.outlook := by
  cases x <;> rfl

@[simp] theorem outlook_giveIf (w : World) (x : Option SignalId) : (w.giveIf x).outlook = w.outlook := by cases x <;> rfl

@[simp] theorem outlook_giveBack (w : World) (τ : Turn) : (w.giveBack τ).outlook = w.outlook := by
  unfold World.giveBack
  dsimp only
  split <;> rfl

@[simp] theorem outlook_giveBackIf (w : World) (turn : Option Turn) : (w.giveBackIf turn).outlook = w.outlook := by
  cases turn with
  | none => rfl
  | some τ => exact outlook_giveBack w τ

@[simp] theorem outlook_reserve (w : World) (p : Path) : (w.reserve p).2.outlook = w.outlook := rfl

@[simp] theorem outlook_queueUp (w : World) (τ : Turn) : (w.queueUp τ).outlook = w.outlook := rfl

@[simp] theorem outlook_setEntry (w : World) (p : Path) (e : Entry) : (w.setEntry p e).outlook = w.outlook := rfl

@[simp] theorem outlook_dropEntry (w : World) (p : Path) : (w.dropEntry p).outlook = w.outlook := rfl

@[simp] theorem outlook_forgetRevoked (w : World) (p : Path) : (w.forgetRevoked p).outlook = w.outlook := rfl

@[simp] theorem outlook_leaveDisk (w : World) (p : Path) : (w.leaveDisk p).outlook = w.outlook := rfl

@[simp] theorem outlook_endSeat (w : World) (seat : Seat) : (w.endSeat seat).outlook = w.outlook := rfl

@[simp] theorem outlook_broadcast (w : World) (x : Snapshot) : (w.broadcast x).outlook = w.outlook := by
  unfold World.broadcast
  split <;> rfl

@[simp] theorem outlook_inBackground (w : World) (r : Request) : (w.inBackground r).outlook = w.outlook := by
  unfold World.inBackground
  split <;> rfl

@[simp] theorem outlook_listen (w : World) (p : Path) (x : SubscriberId) : (w.listen p x).2.outlook = w.outlook := by
  unfold World.listen
  split <;> rfl

@[simp] theorem outlook_beginQuery (w : World) (e : Entry) : (w.beginQuery e).2.2.outlook = w.outlook := by
  unfold World.beginQuery
  dsimp only
  split <;> rfl

@[simp] theorem outlook_armEntry (w : World) (p : Path) (e : Entry) : (w.armEntry p e).1.outlook = w.outlook := by
  unfold World.armEntry
  split <;> rfl

theorem outlook_finish (w : World) (id : TaskId) (role : Role) (e : Ending) : (w.finish id role e).outlook = w.outlook := by
  cases role <;> rfl

theorem outlook_floorTo (w : World) (id : TaskId) : (floorTo w id).outlook = w.outlook := by
  unfold floorTo
  split <;> rfl

/-- a call that comes to a gate leaves it as open as it is -/
theorem isOpen_enter (d : Disk) (op : DiskOp) (p : Path) : (d.enter op p).1.isOpen = d.isOpen := by
  funext g
  unfold Disk.isOpen Table.getD
  rw [gates_enter]
  cases (d.enter op p).2 with
  | none => rfl
  | some i =>
    dsimp only
    rw [Table.get?_modify]
    split
    · cases d.gates.get? g <;> rfl
    · rfl

theorem outlook_enter (w : World) (op : DiskOp) (p : Path) : World.outlook { w with disk := (w.disk.enter op p).1 } = w.outlook :=
  congrArg (Outlook.mk · w.streams w.nextStream) (isOpen_enter w.disk op p)

theorem outlook_write (w : World) (p : Path) (bytes : ByteArray) :
    World.outlook { w with disk := (w.disk.write p bytes).1 } = w.outlook := by
  unfold Disk.write
  split <;> rfl

/-! ## Sections that leave them alone -/

/-- Gates and streams are as they were, and a task that waits at a gate does so at a closed one. -/
structure Tame (awaits : σ → Await) (w : World) (x : World × Section σ α) : Prop where
  outlook : x.1.outlook = w.outlook
  closed : ∀ s g, x.2 = .wait s → awaits s = .gate g → x.1.disk.isOpen g = false

theorem Tame.go {s : σ} (h : w'.outlook = w.outlook) : Tame (α := α) awaits w (w', .go s) := ⟨h, nofun⟩

theorem Tame.ended {x : α} (h : w'.outlook = w.outlook) : Tame awaits w (w', .ended x) := ⟨h, nofun⟩

theorem Tame.wait {s : σ} (h : w'.outlook = w.outlook) (hs : ∀ g, awaits s ≠ .gate g) : Tame (α := α) awaits w (w', .wait s) :=
  ⟨h, fun _ g hw hg => by cases hw; exact absurd hg (hs g)⟩

theorem Tame.after {x : World × Section σ α} (h : w'.outlook = w.outlook) (hx : Tame awaits w' x) : Tame awaits w x :=
  ⟨hx.outlook.trans h, hx.closed⟩

theorem tame_beginCall (w : World) (op : DiskOp) (p : Path) {k : Call → σ} (hk : ∀ c, awaits (k c) = Call.awaits c) :
    Tame (α := α) awaits w (w.beginCall op p k) := by
  have henter := outlook_enter w op p
  unfold World.beginCall
  dsimp only
  split
  · next g _ =>
    split
    · exact ⟨henter, nofun⟩
    · next hg =>
      refine ⟨henter, fun s i hs hi => ?_⟩
      cases hs
      rw [hk] at hi
      cases hi
      exact Bool.eq_false_iff.2 hg
  · exact ⟨henter, nofun⟩

theorem tame_atGate (w : World) (g : GateId) {k : Call → σ} (hk : ∀ c, awaits (k c) = Call.awaits c) :
    Tame (α := α) awaits w (w.atGate g k) := by
  unfold World.atGate
  split
  · exact ⟨rfl, nofun⟩
  · next hg =>
    refine ⟨rfl, fun s i hs hi => ?_⟩
    cases hs
    rw [hk] at hi
    cases hi
    exact Bool.eq_false_iff.2 hg

theorem tame_awaitIdle (w : World) (p : Path) (turn : Option Turn) : Tame awaitTurn w (w.awaitIdle p turn) := by
  cases turn with
  | some τ =>
    simp only [World.awaitIdle]
    split
    · exact .go (outlook_giveBack w τ)
    · exact .wait rfl fun _ hg => by cases hg
  | none =>
    simp only [World.awaitIdle]
    split
    · exact .ended rfl
    · exact .go rfl

/-! ### Reconciliations -/

theorem tame_endLook (w : World) (l : Look) (x : Refreshed) : Tame Refresh.awaits w (w.endLook l x) := .ended (by simp)

theorem tame_conclude (w : World) (l : Look) (o : Observation) : Tame Refresh.awaits w (w.conclude l o) := by
  unfold World.conclude
  split
  · exact tame_endLook w l _
  · refine .ended ?_
    split <;> simp

theorem tame_requestRefresh (w : World) (p : Path) : Tame Refresh.awaits w (w.requestRefresh p) := by
  unfold World.requestRefresh
  split
  · exact .ended rfl
  · exact .go (outlook_beginQuery w _)

theorem tame_enterRefresh (w : World) (p : Path) (q : QueryId) (τ : Turn) : Tame Refresh.awaits w (w.enterRefresh p q τ) := by
  unfold World.enterRefresh
  split
  · exact .ended (by simp)
  · split
    · exact .ended (by simp)
    · exact .after (outlook_setEntry w p _) (tame_beginCall _ _ _ fun _ => rfl)

theorem tame_haveLooked (w : World) (l : Look) (x : Except Failure (Option FileStat)) :
    Tame Refresh.awaits w (w.haveLooked l x) := by
  unfold World.haveLooked
  split
  · exact tame_endLook w l _
  · exact tame_conclude w l _
  · split
    · exact tame_conclude w l _
    · exact tame_beginCall _ _ _ fun _ => rfl

theorem tame_haveRead (w : World) (l : Look) (date : Instant) (x : Except Failure String) :
    Tame Refresh.awaits w (w.haveRead l date x) := by
  unfold World.haveRead
  split
  · exact tame_conclude w l _
  · exact tame_beginCall _ _ _ fun _ => rfl

theorem tame_haveLookedAgain (w : World) (l : Look) (f : Failure) (x : Except Failure (Option FileStat)) :
    Tame Refresh.awaits w (w.haveLookedAgain l f x) := by
  unfold World.haveLookedAgain
  split
  · exact tame_endLook w l _
  · exact tame_conclude w l _
  · exact tame_endLook w l _

theorem tame_stepRefresh (w : World) (r : Refresh) : Tame Refresh.awaits w (w.stepRefresh r) := by
  cases r with
  | queued p q τ =>
    unfold World.stepRefresh
    dsimp only
    split
    · exact tame_enterRefresh w p q τ
    · exact .wait rfl nofun
  | looking l c =>
    cases c with
    | held g => exact tame_atGate w g fun _ => rfl
    | due => exact .after (outlook_leaveDisk w l.path) (tame_haveLooked _ l _)
  | reading l date c =>
    cases c with
    | held g => exact tame_atGate w g fun _ => rfl
    | due => exact .after (outlook_leaveDisk w l.path) (tame_haveRead _ l date _)
  | lookingAgain l f c =>
    cases c with
    | held g => exact tame_atGate w g fun _ => rfl
    | due => exact .after (outlook_leaveDisk w l.path) (tame_haveLookedAgain _ l f _)

theorem outlook_dropRefresh (w : World) (r : Refresh) : (w.dropRefresh r).outlook = w.outlook := by
  cases r <;> simp [World.dropRefresh]

/-! ### Writes -/

theorem tame_requestSave (w : World) (p : Path) (bytes : ByteArray) : Tame Save.awaits w (w.requestSave p bytes) := by
  unfold World.requestSave
  split
  · exact .ended rfl
  · split
    · split
      · exact .ended rfl
      · exact .go rfl
    · exact .go rfl

theorem tame_failSave (w : World) (job : SaveJob) (x : Problem) : Tame Save.awaits w (w.failSave job x) := by
  refine .ended ?_
  split <;> simp

theorem tame_commitSave (w : World) (job : SaveJob) (date : Instant) : Tame Save.awaits w (w.commitSave job date) := by
  refine .ended ?_
  cases w.entry? job.path <;> dsimp only [Option.map] <;> split <;> simp

theorem tame_haveWritten (w : World) (job : SaveJob) (x : Except Failure Unit) :
    Tame Save.awaits w (w.haveWritten job x) := by
  unfold World.haveWritten
  split
  · exact tame_failSave w job _
  · exact tame_beginCall _ _ _ fun _ => rfl

theorem tame_haveLookedUp (w : World) (job : SaveJob) (x : Except Failure (Option FileStat)) :
    Tame Save.awaits w (w.haveLookedUp job x) := by
  unfold World.haveLookedUp
  split
  · exact tame_failSave w job _
  · exact tame_failSave w job _
  · exact tame_commitSave w job _

theorem tame_stepSave (w : World) (x : Save) : Tame Save.awaits w (w.stepSave x) := by
  cases x with
  | queued job =>
    unfold World.stepSave
    dsimp only
    split
    · exact tame_beginCall _ _ _ fun _ => rfl
    · exact .wait rfl nofun
  | writing job c =>
    cases c with
    | held g => exact tame_atGate w g fun _ => rfl
    | due =>
      have hwritten : (World.leaveDisk { w with disk := (w.disk.write job.path job.bytes).1 } job.path).outlook = w.outlook :=
        outlook_write w job.path job.bytes
      exact .after hwritten (tame_haveWritten _ job _)
  | looking job c =>
    cases c with
    | held g => exact tame_atGate w g fun _ => rfl
    | due => exact .after (outlook_leaveDisk w job.path) (tame_haveLookedUp _ job _)

theorem outlook_dropSave (w : World) (x : Save) : (w.dropSave x).outlook = w.outlook := by
  cases x <;> simp [World.dropSave]

/-! ### Places -/

theorem tame_endLeaving (w : World) (l : Leaving) : Tame Activity.awaits w (w.endLeaving l) := by
  cases l <;> exact .ended rfl

theorem tame_releasePlace (w : World) (p : Path) (l : Leaving) : Tame Activity.awaits w (w.releasePlace p l) := by
  unfold World.releasePlace
  split
  · exact tame_endLeaving w l
  · dsimp only
    split
    · refine .go ?_
      split <;> rfl
    · exact .after (outlook_setEntry w p _) (tame_endLeaving _ l)

theorem tame_stepTearingDown (w : World) (p : Path) (turn : Option Turn) (l : Leaving) :
    Tame Activity.awaits w (w.stepTearingDown p turn l) := by
  have h := tame_awaitIdle w p turn
  unfold World.stepTearingDown
  generalize w.awaitIdle p turn = x at h
  obtain ⟨w', x⟩ := x
  cases x with
  | go | pause => exact ⟨h.outlook, nofun⟩
  | wait o =>
    refine .wait h.outlook fun g hg => ?_
    cases o <;> cases hg
  | ended =>
    refine .after h.outlook ?_
    dsimp only
    split
    · split
      · exact .after (outlook_dropEntry w' p) (tame_endLeaving _ l)
      · exact tame_endLeaving w' l
    · exact tame_endLeaving w' l

theorem tame_unwatch (w : World) (p : Path) (x : SubscriberId) : Tame Activity.awaits w (w.unwatch p x) := by
  unfold World.unwatch
  split
  · exact .ended rfl
  · split
    · exact .ended rfl
    · next e _ _ r _ =>
      exact .after (outlook_cancelIf (w.setEntry p { e with registered := e.registered.erase x }) r.listener)
        (tame_releasePlace _ p _)

theorem tame_takePlace (w : World) (seat : Seat) (e : Entry) : Tame Activity.awaits w (w.takePlace seat e) := by
  unfold World.takePlace
  dsimp only
  split
  · exact .go rfl
  · exact .go ((outlook_beginQuery _ _).trans (outlook_armEntry _ _ _))

theorem tame_stepJoining (w : World) (p : Path) (x : SubscriberId) (joined : SignalId) (other : Option SignalId) :
    Tame Activity.awaits w (w.stepJoining p x joined other) := by
  unfold World.stepJoining
  split
  · refine .wait rfl fun g hg => ?_
    cases other <;> cases hg
  · dsimp only
    split
    · exact .ended rfl
    · split
      · exact .go rfl
      · exact tame_takePlace w _ _

theorem tame_register (w : World) (seat : Seat) : Tame Activity.awaits w (w.register seat) := by
  unfold World.register
  split
  · exact .ended rfl
  · have hlisten := outlook_listen w seat.path seat.subscriber
    refine .ended ?_
    split
    · exact (outlook_cancelIf _ _).trans hlisten
    · exact hlisten

theorem tame_stepSettling (w : World) (seat : Seat) (x : Option SignalId) : Tame Activity.awaits w (w.stepSettling seat x) := by
  unfold World.stepSettling
  split
  · refine .wait rfl fun g hg => ?_
    cases x <;> cases hg
  · split
    · exact .go rfl
    · exact tame_register w seat

theorem tame_stepSynchronizing (w : World) (seat : Seat) (r : Refresh) : Tame Activity.awaits w (w.stepSynchronizing seat r) := by
  have h := tame_stepRefresh w r
  unfold World.stepSynchronizing
  generalize w.stepRefresh r = x at h
  obtain ⟨w', x⟩ := x
  cases x with
  | go | pause => exact ⟨h.outlook, nofun⟩
  | wait s =>
    refine ⟨h.outlook, fun b g hb hg => ?_⟩
    cases hb
    exact h.closed s g rfl hg
  | ended result =>
    cases result with
    | ok => exact .go h.outlook
    | error e => exact .after h.outlook (tame_releasePlace w' _ _)

/-! ### Shutting down -/

theorem outlook_retire (w : World) (e : Entry) : (w.retire e).outlook = w.outlook := by
  have hstop : (w.stopListeners e).outlook = w.outlook := by
    unfold World.stopListeners
    generalize e.registered.values = rs
    induction rs generalizing w with
    | nil => rfl
    | cons r rs ih => exact (ih _).trans (outlook_cancelIf w r.listener)
  unfold World.retire
  dsimp only
  split <;> exact hstop

theorem tame_requestShutDown (w : World) : Tame Activity.awaits w w.requestShutDown := by
  have hretire : ∀ (es : List Entry) (w : World), (es.foldl World.retire w).outlook = w.outlook := by
    intro es
    induction es with
    | nil => exact fun _ => rfl
    | cons e es ih => exact fun w => (ih _).trans (outlook_retire w e)
  exact .go ((hretire _ _).trans (outlook_cancelIf { w with isShutDown := true } w.pump))

theorem tame_drainNext (w : World) (paths : List Path) : Tame Activity.awaits w (w.drainNext paths) := by
  cases paths with
  | nil => exact .ended rfl
  | cons p rest => exact .go rfl

theorem tame_stepClosing (w : World) (paths : List Path) : Tame Activity.awaits w (w.stepClosing paths) := by
  unfold World.stepClosing
  split
  · exact tame_drainNext w paths
  · exact .wait rfl fun _ hg => by cases hg

theorem tame_stepDraining (w : World) (p : Path) (turn : Option Turn) (rest : List Path) :
    Tame Activity.awaits w (w.stepDraining p turn rest) := by
  have h := tame_awaitIdle w p turn
  unfold World.stepDraining
  generalize w.awaitIdle p turn = x at h
  obtain ⟨w', x⟩ := x
  cases x with
  | go | pause => exact ⟨h.outlook, nofun⟩
  | wait o =>
    refine .wait h.outlook fun g hg => ?_
    cases o <;> cases hg
  | ended => exact .after h.outlook (tame_drainNext w' rest)

/-! ### Any task -/

theorem Tame.ofPart {x : World × Section σ (Except Problem α)} (h : Tame awaits w x) {phase : σ → Activity} {answer : α → Answer}
    (hphase : ∀ s, (phase s).awaits = awaits s) : Tame Activity.awaits w (Engine.ofPart phase answer x) := by
  obtain ⟨w', x⟩ := x
  cases x with
  | go | pause => exact ⟨h.outlook, nofun⟩
  | wait s =>
    refine ⟨h.outlook, fun b g hb hg => ?_⟩
    cases hb
    rw [hphase] at hg
    exact h.closed s g rfl hg
  | ended => exact ⟨h.outlook, nofun⟩

theorem tame_begin (w : World) (r : Request) : Tame Activity.awaits w (w.begin r) := by
  cases r with
  | watch p x =>
    unfold World.begin World.requestWatch
    dsimp only
    split
    · exact .ended rfl
    · exact .go rfl
  | unwatch p x => exact tame_unwatch w p x
  | write p bytes => exact (tame_requestSave w p bytes).ofPart fun _ => rfl
  | reconcile p => exact (tame_requestRefresh w p).ofPart fun _ => rfl
  | release p => exact tame_releasePlace w p _
  | waitIdle => exact .go rfl
  | shutDown => exact tame_requestShutDown w
  | diskStat p => exact tame_beginCall _ _ _ fun _ => rfl
  | diskRead p => exact tame_beginCall _ _ _ fun _ => rfl
  | diskWrite p bytes => exact tame_beginCall _ _ _ fun _ => rfl

/-- **No section of a task opens a gate or touches a stream, the pump's apart**; and a task that waits at a gate does so at a closed
one. -/
theorem tame_step (w : World) (hpump : ∀ s, a ≠ .pumping s) : Tame Activity.awaits w (w.step a) := by
  cases a with
  | starting r => exact tame_begin w r
  | refreshing r => exact (tame_stepRefresh w r).ofPart fun _ => rfl
  | saving x => exact (tame_stepSave w x).ofPart fun _ => rfl
  | joining p x joined other => exact tame_stepJoining w p x joined other
  | synchronizing seat r => exact tame_stepSynchronizing w seat r
  | settling seat x => exact tame_stepSettling w seat x
  | tearingDown p turn l => exact tame_stepTearingDown w p turn l
  | awaitingQuiet =>
    unfold World.step World.stepAwaitingQuiet
    dsimp only
    split
    · exact .ended rfl
    · exact .wait rfl fun _ hg => by cases hg
  | closing paths => exact tame_stepClosing w paths
  | draining p turn rest => exact tame_stepDraining w p turn rest
  | diskStat p c =>
    cases c with
    | held g => exact tame_atGate w g fun _ => rfl
    | due => exact .ended rfl
  | diskRead p c =>
    cases c with
    | held g => exact tame_atGate w g fun _ => rfl
    | due => exact .ended rfl
  | diskWrite p bytes c =>
    cases c with
    | held g => exact tame_atGate w g fun _ => rfl
    | due => exact .ended (outlook_write w p bytes)
  | listening p x =>
    unfold World.step World.stepListening
    dsimp only
    split
    · exact .ended (outlook_inBackground w _)
    · exact .wait rfl fun _ hg => by cases hg
  | pumping s => exact absurd rfl (hpump s)

theorem outlook_abandonSeat (w : World) (seat : Seat) : (w.abandonSeat seat).outlook = w.outlook := by
  simp [World.abandonSeat]

theorem outlook_abandon (w : World) (hpump : ∀ s, a ≠ .pumping s) : (w.abandon a).outlook = w.outlook := by
  cases a with
  | refreshing r => exact outlook_dropRefresh w r
  | saving x => exact outlook_dropSave w x
  | synchronizing seat r => exact (outlook_abandonSeat _ seat).trans (outlook_dropRefresh w r)
  | settling seat x => exact outlook_abandonSeat w seat
  | tearingDown p turn l => cases l <;> simp [World.abandon]
  | draining p turn rest => exact outlook_giveBackIf w turn
  | pumping s => exact absurd rfl (hpump s)
  | _ => rfl

end LiveFiles.Engine
