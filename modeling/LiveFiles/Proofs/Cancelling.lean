/-
Who is cancelled. Tasks are cancelled from outside; the engine itself cancels those that listen for a subscriber who has left,
and the pump of a stream that has been replaced.
- `spares_step`, `spares_abandon`: of the tasks that there are, a section cancels nobody but listeners of registered
  subscribers, unless it shuts the engine down.
- **`cancelled_from_outside`**: so in a run without shutting down, a task that has not begun and has been cancelled was cancelled
  by a move.
-/
import LiveFiles.Proofs.Faces
import LiveFiles.Proofs.Leaks

namespace LiveFiles.Engine

/-! ## The roll of tasks -/

/-- the tasks with their phases and whether they have been cancelled, the number of the next one, and which is the pump -/
structure Roll where
  live : Table TaskId (Task Phase)
  next : TaskId
  pump : Option TaskId

/-- the queue of tasks does not matter -/
def World.roll (w : World) : Roll := ⟨w.tasks.live, w.tasks.next, w.pump⟩

variable {w w' w'' : World} {σ α : Type} {X : TaskId → Prop}

@[simp] theorem roll_wake (w : World) (a : Await) : (w.wake a).roll = w.roll := by
  simp only [World.roll, World.wake, Tasks.live_wake, Tasks.next_wake]

@[simp] theorem roll_giveIf (w : World) (x : Option SignalId) : (w.giveIf x).roll = w.roll := by
  cases x with
  | none => rfl
  | some x => exact roll_wake { w with signals := w.signals.give x } _

@[simp] theorem roll_giveBack (w : World) (τ : Turn) : (w.giveBack τ).roll = w.roll := by
  unfold World.giveBack
  dsimp only
  split
  · exact roll_wake { w with turns := (w.turns.giveBack τ).1 } _
  · rfl

@[simp] theorem roll_giveBackIf (w : World) (turn : Option Turn) : (w.giveBackIf turn).roll = w.roll := by
  cases turn with
  | none => rfl
  | some τ => exact roll_giveBack w τ

@[simp] theorem roll_leaveDisk (w : World) (p : Path) : (w.leaveDisk p).roll = w.roll := rfl

@[simp] theorem roll_setEntry (w : World) (p : Path) (e : Entry) : (w.setEntry p e).roll = w.roll := rfl

@[simp] theorem roll_forgetRevoked (w : World) (p : Path) : (w.forgetRevoked p).roll = w.roll := rfl

@[simp] theorem roll_broadcast (w : World) (x : Snapshot) : (w.broadcast x).roll = w.roll := by
  unfold World.broadcast
  split <;> rfl

@[simp] theorem roll_beginCall (w : World) (op : DiskOp) (p : Path) (k : Call → σ) :
    (w.beginCall (α := α) op p k).1.roll = w.roll := by
  unfold World.beginCall
  dsimp only
  split
  · split <;> rfl
  · rfl

@[simp] theorem roll_atGate (w : World) (g : GateId) (k : Call → σ) : (w.atGate (α := α) g k).1.roll = w.roll := by
  unfold World.atGate
  split <;> rfl

@[simp] theorem roll_awaitIdle (w : World) (p : Path) (turn : Option Turn) : (w.awaitIdle p turn).1.roll = w.roll := by
  cases turn with
  | some τ =>
    simp only [World.awaitIdle]
    split
    · exact roll_giveBack w τ
    · rfl
  | none =>
    simp only [World.awaitIdle]
    split <;> rfl

@[simp] theorem roll_endSeat (w : World) (seat : Seat) : (w.endSeat seat).roll = w.roll := roll_giveIf _ (some seat.joined)

@[simp] theorem roll_endLeaving (w : World) (l : Leaving) : (w.endLeaving l).1.roll = w.roll := by
  cases l <;> simp [World.endLeaving]

/-! ### Reconciliations and writes -/

@[simp] theorem roll_endLook (w : World) (l : Look) (x : Refreshed) : (w.endLook l x).1.roll = w.roll := by
  simp [World.endLook]

@[simp] theorem roll_conclude (w : World) (l : Look) (o : Observation) : (w.conclude l o).1.roll = w.roll := by
  unfold World.conclude
  split
  · simp
  · dsimp only
    split <;> simp

theorem roll_beginQuery (w : World) (e : Entry) : (w.beginQuery e).2.2.roll = w.roll := by
  unfold World.beginQuery
  dsimp only
  split <;> rfl

@[simp] theorem roll_requestRefresh (w : World) (p : Path) : (w.requestRefresh p).1.roll = w.roll := by
  unfold World.requestRefresh
  split
  · rfl
  · exact roll_beginQuery w _

@[simp] theorem roll_stepRefresh (w : World) (r : Refresh) : (w.stepRefresh r).1.roll = w.roll := by
  match r with
  | .queued p q τ =>
    simp only [World.stepRefresh, World.enterRefresh]
    split
    · split
      · simp
      · split <;> simp
    · rfl
  | .looking l (.held g) => exact roll_atGate w g _
  | .looking l .due =>
    simp only [World.stepRefresh, World.haveLooked]
    split
    · simp
    · simp
    · split <;> simp
  | .reading l m (.held g) => exact roll_atGate w g _
  | .reading l m .due =>
    simp only [World.stepRefresh, World.haveRead]
    split <;> simp
  | .lookingAgain l f (.held g) => exact roll_atGate w g _
  | .lookingAgain l f .due =>
    simp only [World.stepRefresh, World.haveLookedAgain]
    split <;> simp

@[simp] theorem roll_dropRefresh (w : World) (r : Refresh) : (w.dropRefresh r).roll = w.roll := by
  cases r <;> simp [World.dropRefresh]

@[simp] theorem roll_dropSave (w : World) (x : Save) : (w.dropSave x).roll = w.roll := by
  cases x <;> simp [World.dropSave]

theorem roll_requestSave (w : World) (p : Path) (bytes : ByteArray) : (w.requestSave p bytes).1.roll = w.roll := by
  obtain ⟨turns, entries, h⟩ := frame_requestSave w p bytes
  rw [h]
  rfl

/-! ## Who is cancelled -/

/-- Nobody but `X` is cancelled: tasks that are there afterwards and have been cancelled had been before, and new ones have new
numbers. -/
structure Spares (X : TaskId → Prop) (w w' : World) : Prop where
  next : w.tasks.next ≤ w'.tasks.next
  cancelled : ∀ j t', w'.tasks.live.get? j = some t' → t'.cancelled = true →
    X j ∨ ∃ t, w.tasks.live.get? j = some t ∧ t.cancelled = true
  gone : ∀ j < w.tasks.next, w.tasks.live.get? j = none → w'.tasks.live.get? j = none
  pump : w'.pump = w.pump

theorem Spares.of_roll (h : w'.roll = w.roll) : Spares X w w' := by
  have hlive : w'.tasks.live = w.tasks.live := congrArg Roll.live h
  have hnext : w'.tasks.next = w.tasks.next := congrArg Roll.next h
  exact ⟨hnext.ge, fun j t' ht' hc => Or.inr ⟨t', hlive ▸ ht', hc⟩, fun j _ hj => hlive ▸ hj, congrArg Roll.pump h⟩

theorem Spares.refl (w : World) : Spares X w w := .of_roll rfl

theorem Spares.trans (h : Spares X w w') (h' : Spares X w' w'') : Spares X w w'' where
  next := h.next.trans h'.next
  cancelled j t' ht' hc := by
    rcases h'.cancelled j t' ht' hc with hX | ⟨t, ht, hc⟩
    · exact Or.inl hX
    · exact h.cancelled j t ht hc
  gone j hj hnone := h'.gone j (lt_of_lt_of_le hj h.next) (h.gone j hj hnone)
  pump := h'.pump.trans h.pump

theorem spares_spawn (w : World) (role : Role) (a : Activity) : Spares X w (w.spawn role a).2 where
  next := Nat.le_succ _
  cancelled j t' ht' hc := by
    simp only [World.spawn, Tasks.spawn, Table.get?_insert] at ht'
    split at ht'
    · cases ht'
      cases hc
    · exact Or.inr ⟨t', ht', hc⟩
  gone j hj hnone := by
    simp only [World.spawn, Tasks.spawn, Table.get?_insert]
    rw [if_neg hj.ne', hnone]
  pump := rfl

theorem spares_inBackground (w : World) (r : Request) : Spares X w (w.inBackground r) := by
  unfold World.inBackground
  split
  · exact .refl w
  · rename_i pool _
    have h1 : Spares X w ({ w with pool }.wake .quiet) := .of_roll (roll_wake { w with pool } .quiet)
    exact h1.trans (spares_spawn _ _ _)

theorem spares_cancel {id : TaskId} (hX : X id) (w : World) : Spares X w (w.cancel id) := by
  unfold World.cancel Tasks.cancel
  split
  · refine ⟨?_, fun j t' ht' hc => ?_, fun j _ hnone => ?_, rfl⟩
    · rw [Tasks.next_enqueue]
    · rw [Tasks.live_enqueue, Table.get?_modify] at ht'
      split at ht'
      · rename_i h
        exact Or.inl (h ▸ hX)
      · exact Or.inr ⟨t', ht', hc⟩
    · rw [Tasks.live_enqueue, Table.get?_modify]
      split
      · simp [hnone]
      · exact hnone
  · exact .refl w

theorem spares_cancelIf {id : Option TaskId} (hX : ∀ j, id = some j → X j) (w : World) : Spares X w (w.cancelIf id) := by
  cases id with
  | none => exact .refl w
  | some id => exact spares_cancel (hX id rfl) w

/-! ### Sections -/

/-- the task listens for a registered subscriber's leaving -/
def World.Listens (w : World) (j : TaskId) : Prop :=
  ∃ k e id x, w.entries.get? k = some e ∧ e.registered.get? id = some x ∧ x.listener = some j

theorem spares_failSave (w : World) (job : SaveJob) (x : Problem) : Spares X w (w.failSave job x).1 := by
  have h : Spares X w ((w.giveBack job.turn).giveIf job.waiters) := .of_roll (by simp)
  unfold World.failSave
  dsimp only
  split
  · exact h.trans ((Spares.of_roll (roll_forgetRevoked _ _)).trans (spares_inBackground _ _))
  · exact h

theorem roll_commitSave (w : World) (job : SaveJob) (m : Instant) : (w.commitSave job m).1.roll = w.roll := by
  unfold World.commitSave
  cases w.entry? job.path with
  | none =>
    simp only [Option.map_none, roll_giveBack]
    split <;> simp
  | some e =>
    simp only [Option.map_some, roll_giveBack, roll_broadcast]
    split <;> simp

theorem spares_stepSave (w : World) (x : Save) : Spares X w (w.stepSave x).1 := by
  match x with
  | .queued job =>
    simp only [World.stepSave]
    split
    · exact .of_roll (roll_beginCall _ _ _ _)
    · exact .refl w
  | .writing job (.held g) => exact .of_roll (roll_atGate w g _)
  | .writing job .due =>
    have h : ∀ d : Disk, Spares X w ({ w with disk := d }.leaveDisk job.path) := fun _ => .of_roll rfl
    simp only [World.stepSave, World.haveWritten]
    split
    · exact (h _).trans (spares_failSave _ job _)
    · exact (h _).trans (.of_roll (roll_beginCall _ _ _ _))
  | .looking job (.held g) => exact .of_roll (roll_atGate w g _)
  | .looking job .due =>
    have h : Spares X w (w.leaveDisk job.path) := .of_roll rfl
    simp only [World.stepSave, World.haveLookedUp]
    split
    · exact h.trans (spares_failSave _ job _)
    · exact h.trans (spares_failSave _ job _)
    · exact h.trans (.of_roll (roll_commitSave _ job _))

theorem roll_releasePlace (w : World) (p : Path) (l : Leaving) : (w.releasePlace p l).1.roll = w.roll := by
  unfold World.releasePlace
  split
  · exact roll_endLeaving w l
  · dsimp only
    split
    · split <;> rfl
    · exact roll_endLeaving _ l

theorem roll_takePlace (w : World) (seat : Seat) (e : Entry) : (w.takePlace seat e).1.roll = w.roll := by
  rcases takePlace_cases w seat e with ⟨-, htake⟩ | ⟨-, x, armed, signal, signals, v, -, -, rfl, htake⟩
  · rw [htake]
    rfl
  · rw [htake]
    rfl

theorem roll_stepJoining (w : World) (p : Path) (id : SubscriberId) (joined : SignalId) (other : Option SignalId) :
    (w.stepJoining p id joined other).1.roll = w.roll := by
  unfold World.stepJoining
  split
  · rfl
  · dsimp only
    split
    · rfl
    · split
      · rfl
      · exact roll_takePlace w _ _

theorem roll_stepTearingDown (w : World) (p : Path) (turn : Option Turn) (l : Leaving) :
    (w.stepTearingDown p turn l).1.roll = w.roll := by
  have h := roll_awaitIdle w p turn
  unfold World.stepTearingDown
  rcases hx : w.awaitIdle p turn with ⟨w', t | t | t | u⟩ <;> rw [hx] at h <;> dsimp only at h ⊢
  · exact h
  · exact h
  · exact h
  · split
    · split
      · exact (roll_endLeaving _ l).trans h
      · exact (roll_endLeaving _ l).trans h
    · exact (roll_endLeaving _ l).trans h

theorem spares_stepSynchronizing (w : World) (seat : Seat) (r : Refresh) : Spares X w (w.stepSynchronizing seat r).1 := by
  have h := roll_stepRefresh w r
  refine .of_roll ?_
  unfold World.stepSynchronizing
  rcases hx : w.stepRefresh r with ⟨w', x | x | x | (e | b)⟩ <;> rw [hx] at h
  · exact h
  · exact h
  · exact h
  · exact (roll_releasePlace w' _ _).trans h
  · exact h

theorem spares_unwatch (w : World) (p : Path) (id : SubscriberId) : Spares w.Listens w (w.unwatch p id).1 := by
  unfold World.unwatch
  split
  · exact .refl w
  · rename_i e he
    split
    · exact .refl w
    · rename_i x hx
      have h1 : Spares w.Listens w (w.setEntry p { e with registered := e.registered.erase id }) := .of_roll rfl
      have hlistener : ∀ j, x.listener = some j → w.Listens j := fun j hj => ⟨p.key, e, id, x, he, hx, hj⟩
      have h2 := spares_cancelIf hlistener (w.setEntry p { e with registered := e.registered.erase id })
      exact (h1.trans h2).trans (.of_roll (roll_releasePlace _ p _))

theorem spares_register (w : World) (seat : Seat) : Spares w.Listens w (w.register seat).1 := by
  unfold World.register
  split
  · exact .of_roll (roll_endSeat w seat)
  · rename_i e he
    have hlisten : Spares w.Listens w (w.listen seat.path seat.subscriber).2 := by
      unfold World.listen
      split
      · exact .refl w
      · exact spares_spawn w _ _
    dsimp only
    split
    · rename_i x hx
      have hlistener : ∀ j, x.listener = some j → w.Listens j := fun j hj =>
        ⟨seat.path.key, e, seat.subscriber, x, he, hx, hj⟩
      have hcancel := spares_cancelIf hlistener (w.listen seat.path seat.subscriber).2
      exact (hlisten.trans hcancel).trans (.of_roll ((roll_endSeat _ seat).trans (roll_setEntry _ _ _)))
    · exact hlisten.trans (.of_roll ((roll_endSeat _ seat).trans (roll_setEntry _ _ _)))

theorem spares_stepSettling (w : World) (seat : Seat) (signal : Option SignalId) :
    Spares w.Listens w (w.stepSettling seat signal).1 := by
  unfold World.stepSettling
  split
  · exact .refl w
  · split
    · exact .refl w
    · exact spares_register w seat

theorem roll_drainNext (w : World) (paths : List Path) : (w.drainNext paths).1.roll = w.roll := by
  cases paths <;> rfl

/-- **A section cancels nobody but listeners of registered subscribers**, unless it shuts the engine down. -/
theorem spares_step (w : World) {a : Activity} (ha : a ≠ .starting .shutDown) : Spares w.Listens w (w.step a).1 := by
  have hcall : ∀ op p (f : Call → Activity), Spares w.Listens w (w.beginCall (α := Outcome) op p f).1 := fun op p f =>
    .of_roll (roll_beginCall w op p f)
  cases a with
  | starting x =>
    cases x with
    | watch p id =>
      simp only [World.step, World.begin, World.requestWatch]
      split
      · exact .refl w
      · exact .of_roll rfl
    | unwatch p id => exact spares_unwatch w p id
    | write p bytes => exact .of_roll ((congrArg World.roll (fst_ofPart _ _ _)).trans (roll_requestSave w p bytes))
    | reconcile p => exact .of_roll ((congrArg World.roll (fst_ofPart _ _ _)).trans (roll_requestRefresh w p))
    | release p => exact .of_roll (roll_releasePlace w p _)
    | waitIdle => exact .refl w
    | shutDown => exact absurd rfl ha
    | diskStat p => exact hcall _ _ _
    | diskRead p => exact hcall _ _ _
    | diskWrite p bytes => exact hcall _ _ _
  | refreshing x => exact .of_roll ((congrArg World.roll (fst_ofPart _ _ _)).trans (roll_stepRefresh w x))
  | saving x =>
    simp only [World.step, fst_ofPart]
    exact spares_stepSave w x
  | joining p id joined other => exact .of_roll (roll_stepJoining w p id joined other)
  | synchronizing seat x => exact spares_stepSynchronizing w seat x
  | settling seat x => exact spares_stepSettling w seat x
  | tearingDown p turn l => exact .of_roll (roll_stepTearingDown w p turn l)
  | awaitingQuiet =>
    simp only [World.step, World.stepAwaitingQuiet]
    split <;> exact .refl w
  | closing paths =>
    simp only [World.step, World.stepClosing]
    split
    · exact .of_roll (roll_drainNext w paths)
    · exact .refl w
  | draining p turn rest =>
    have h := roll_awaitIdle w p turn
    refine .of_roll ?_
    simp only [World.step, World.stepDraining]
    rcases hx : w.awaitIdle p turn with ⟨w', t | t | t | u⟩ <;> rw [hx] at h
    · exact h
    · exact h
    · exact h
    · exact (roll_drainNext w' rest).trans h
  | diskStat p c => cases c <;> first | exact .of_roll (roll_atGate w _ _) | exact .of_roll rfl
  | diskRead p c => cases c <;> first | exact .of_roll (roll_atGate w _ _) | exact .of_roll rfl
  | diskWrite p bytes c => cases c <;> first | exact .of_roll (roll_atGate w _ _) | exact .of_roll rfl
  | listening p id =>
    simp only [World.step, World.stepListening]
    split
    · exact spares_inBackground w _
    · exact .refl w
  | pumping x =>
    simp only [World.step, World.stepPumping]
    split
    · rename_i ev c _
      have h : Spares w.Listens w { w with streams := w.streams.insert x c } := .of_roll rfl
      exact h.trans (spares_inBackground _ _)
    · exact .of_roll rfl
    · exact .refl w

/-- **Nor does the end of a cancelled task.** -/
theorem spares_abandon (w : World) (a : Activity) : Spares X w (w.abandon a) := by
  cases a with
  | refreshing x => exact .of_roll (roll_dropRefresh w x)
  | saving x => exact .of_roll (roll_dropSave w x)
  | synchronizing seat x =>
    exact (Spares.of_roll ((roll_endSeat _ seat).trans (roll_dropRefresh w x))).trans (spares_inBackground _ _)
  | settling seat x => exact (Spares.of_roll (roll_endSeat w seat)).trans (spares_inBackground _ _)
  | tearingDown p turn l =>
    cases l with
    | failed seat e => exact .of_roll ((roll_endSeat _ seat).trans (roll_giveBackIf w turn))
    | unwatched => exact .of_roll (roll_giveBackIf w turn)
    | abandoned => exact .of_roll (roll_giveBackIf w turn)
  | draining p turn rest => exact .of_roll (roll_giveBackIf w turn)
  | _ => exact .of_roll rfl

/-! ## Services -/

/-- the task listens for a subscriber's leaving, or is the pump of a stream -/
def Activity.isService : Activity → Bool
  | .listening .. | .pumping _ => true
  | _ => false

theorem isService_step {a b : Activity} (ha : a.isService = true) (hb : (w.step a).2.next = some b) : b.isService = true := by
  cases a with
  | listening p id =>
    simp only [World.step, World.stepListening] at hb
    split at hb
    · cases hb
    · cases hb
      rfl
  | pumping x =>
    simp only [World.step, World.stepPumping] at hb
    split at hb <;> cases hb <;> rfl
  | _ => cases ha

/-- a task with this number has been started as a service; it may have ended -/
def World.ServedBy (w : World) (j : TaskId) : Prop :=
  j < w.tasks.next ∧ ∀ ph, w.tasks.phase? j = some ph → ph.activity.isService = true

/-- the number is that of a listener of a registered subscriber, or of the pump -/
def World.Relies (w : World) (j : TaskId) : Prop := w.Listens j ∨ w.pump = some j

/-! ## Moves -/

variable {id j : TaskId} {t : Task Phase} {m : Move}

theorem roll_floorTo (w : World) (id : TaskId) : (floorTo w id).roll = w.roll := by
  unfold floorTo
  split <;> rfl

theorem listens_floorTo (w : World) (id j : TaskId) : (floorTo w id).Listens j = w.Listens j := by
  unfold floorTo
  split <;> rfl

theorem spares_after {r : World × Section Phase Unit} : Spares X r.1 (World.after id r) where
  next := (Tasks.next_record _ id r.2).ge
  cancelled j t' ht' hc := by
    right
    obtain ⟨w₁, x⟩ := r
    cases x <;> simp only [World.after, Tasks.record, Table.get?_modify, Table.get?_erase] at ht' <;> split at ht'
    all_goals first
      | exact ⟨t', ht', hc⟩
      | cases ht'
      | obtain ⟨t, ht, rfl⟩ := Option.map_eq_some_iff.1 ht'; exact ⟨t, ht, hc⟩
  gone j _ hj := by
    obtain ⟨w₁, x⟩ := r
    have hj : w₁.tasks.live.get? j = none := hj
    cases x <;> simp only [World.after, Tasks.record, Table.get?_modify, Table.get?_erase, hj] <;> split <;> rfl
  pump := rfl

theorem roll_finish (w : World) (id : TaskId) (role : Role) (e : Ending) : (w.finish id role e).roll = w.roll := by
  cases role with
  | background => exact roll_wake { w with pool := w.pool.finish } _
  | _ => rfl

theorem roll_advance (w : World) (id : TaskId) (p : Phase) : (w.advance id p).1.roll = (w.step p.activity).1.roll := by
  unfold World.advance
  rcases w.step p.activity with ⟨w', a | a | a | o⟩
  · rfl
  · rfl
  · rfl
  · exact roll_finish w' id p.role (.returned o)

theorem spares_without (w : World) (id : TaskId) : Spares X w (w.without id) where
  next := le_rfl
  cancelled j t' ht' hc := by
    simp only [World.without, Table.get?_erase] at ht'
    split at ht'
    · cases ht'
    · exact Or.inr ⟨t', ht', hc⟩
  gone j _ hj := by
    simp only [World.without, Table.get?_erase, hj]
    split <;> rfl
  pump := rfl

/-- what somebody else may cancel, nobody is cancelled as long as it is spared -/
theorem Spares.mono {Y : TaskId → Prop} (h : Spares X w w') (hXY : ∀ j, X j → Y j) : Spares Y w w' :=
  ⟨h.next, fun j t' ht' hc => (h.cancelled j t' ht' hc).imp_left (hXY j), h.gone, h.pump⟩

theorem spares_serve (hm : ∀ t, w.served? id = some t → t.cancelled = false → t.phase.activity ≠ .starting .shutDown) :
    Spares w.Listens w (serve w id) := by
  have hfloor : Spares w.Listens w (floorTo w id) := .of_roll (roll_floorTo w id)
  cases hs : w.served? id with
  | none =>
    obtain ⟨ready, floor, hserve⟩ := serve_of_nobody hs
    rw [hserve]
    exact .of_roll rfl
  | some t =>
    cases hc : t.cancelled with
    | true =>
      rw [serve_of_cancelled hs hc]
      exact ((hfloor.trans (spares_without _ id)).trans (spares_abandon _ _)).trans (.of_roll (roll_finish _ _ _ _))
    | false =>
      have hstep := (spares_step (floorTo w id) (hm t hs hc)).mono fun j h => listens_floorTo w id j ▸ h
      rw [serve_of_section hs hc]
      refine (hfloor.trans ?_).trans spares_after
      exact hstep.trans (.of_roll (roll_advance (floorTo w id) id t.phase))

/-- **A move cancels nobody but services that the engine relies on, and the task that it says**, unless it shuts the engine
down. What it does to the pump is another matter. -/
theorem spares_move (hm : Continues w m) :
    Spares (fun j => w.Relies j ∨ m = .cancel j) w { w.move m with pump := w.pump } := by
  cases m with
  | turn id =>
    have hserve : Spares w.Listens w (serve w id) := spares_serve fun t hs hc => (hm id t rfl hs hc).1
    have h := hserve.mono fun j hj =>
      (Or.inl (Or.inl hj) : w.Relies j ∨ Move.turn id = .cancel j)
    exact ⟨h.next, h.cancelled, h.gone, rfl⟩
  | call r =>
    simp only [World.move]
    split
    · exact spares_spawn w _ _
    · exact .refl w
  | cancel id => exact spares_cancel (Or.inr rfl) w
  | notifyChange q =>
    have h := spares_inBackground (X := fun j => w.Relies j ∨ Move.notifyChange q = .cancel j) w (.reconcile q)
    exact ⟨h.next, h.cancelled, h.gone, rfl⟩
  | attachStream =>
    have h₁ : Spares (fun j => w.Relies j ∨ Move.attachStream = .cancel j) w
        { w with streams := w.streams.insert w.nextStream {}, nextStream := w.nextStream + 1 } := .of_roll rfl
    have hpump : ∀ j, w.pump = some j → w.Relies j ∨ Move.attachStream = .cancel j := fun j hj => Or.inl (Or.inr hj)
    have h₂ := spares_cancelIf hpump (({ w with
        streams := w.streams.insert w.nextStream {}, nextStream := w.nextStream + 1 } : World).spawn .service
          (.pumping w.nextStream)).2
    have h := (h₁.trans (spares_spawn _ .service (.pumping w.nextStream))).trans h₂
    refine h.trans (.of_roll ?_)
    simp only [World.move, World.attachStream]
    cases w.pump <;> rfl
  | openGate g => exact .of_roll (roll_wake { w with disk := w.disk.openGate g } _)
  | closeSubscriber x => exact .of_roll (roll_wake { w with channels := w.channels.modify x fun c => c.close } _)
  | dropSubscriber x => exact .of_roll (roll_wake { w with channels := w.channels.modify x fun c => c.dropReceiver } _)
  | closeStream x => exact .of_roll (roll_wake { w with streams := w.streams.modify x fun c => c.dropSender } _)
  | sendEvent x ev =>
    simp only [World.move, World.sendEvent]
    split
    · rename_i c _
      split
      · exact .of_roll (roll_wake { w with streams := w.streams.insert x (c.send ev) } _)
      · exact .refl w
    · exact .refl w
  | drain x =>
    simp only [World.move, World.drain]
    split <;> exact .of_roll rfl
  | tryRead x =>
    simp only [World.move, World.tryRead]
    split
    · exact .refl w
    · split <;> exact .of_roll rfl
  | _ => exact .of_roll rfl

theorem pump_outside (w : World) (hm : ∀ i, m ≠ .turn i) (ha : m ≠ .attachStream) : (w.move m).pump = w.pump :=
  ((outside w hm).stream ha).2

/-- a service stays one until it ends -/
theorem servedBy_move (hw : Wf w) (hm : Continues w m) (h : w.ServedBy j) : (w.move m).ServedBy j := by
  have hspares := spares_move hm
  refine ⟨lt_of_lt_of_le h.1 hspares.next, fun ph hph => ?_⟩
  cases hs : w.serves m j with
  | false =>
    rcases phase?_newcomer hw hs with hsame | ⟨hnone, -⟩
    · exact h.2 ph (hsame ▸ hph)
    · have hgone := hspares.gone j h.1 (Tasks.phase?_eq_none_iff.1 hnone)
      rw [Tasks.phase?_eq_none_iff.2 hgone] at hph
      cases hph
  | true =>
    obtain ⟨rfl, hgo⟩ := serves_iff.1 hs
    rw [World.move] at hph
    cases ht : w.served? j with
    | none =>
      rw [phase?_serve_of_nobody ht] at hph
      exact h.2 ph hph
    | some t =>
      cases hc : t.cancelled with
      | true =>
        rw [phase?_serve_of_cancelled hw ht hc] at hph
        cases hph
      | false =>
        rw [phase?_serve hw ht hc] at hph
        obtain ⟨b, hb, rfl⟩ := Option.map_eq_some_iff.1 hph
        exact isService_step (h.2 _ (phase?_of_served ht)) hb

/-- whoever is registered anew is listened for by a new task, if at all -/
theorem listener_register (w : World) (seat : Seat) {f : Face} {x : Registration}
    (hface : (w.register seat).1.front.face? seat.path.key = some f) (hx : f.registered.get? seat.subscriber = some x)
    (hj : x.listener = some j) : j = w.tasks.next ∧ (w.register seat).1.tasks.phase? j =
      some ⟨.service, .listening seat.path seat.subscriber⟩ := by
  unfold World.register at hface ⊢
  cases he₀ : w.entry? seat.path with
  | none =>
    simp only [he₀, front_endSeat, Front.unseat_of_absent (face?_of_absent he₀), face?_of_absent he₀] at hface
    cases hface
  | some e₀ =>
    -- whichever world the registration is put into
    have hput : ∀ (w₁ : World) n r, ((w₁.setEntry seat.path { e₀ with
        registered := e₀.registered.insert seat.subscriber r, count := n }).endSeat seat).front.face? seat.path.key =
          some f → x = r := fun w₁ n r h => by
      rw [front_endSeat, Front.face?_unseat, if_pos rfl, front_setEntry, Front.face?_put, if_pos rfl, Option.map_some] at h
      have hreg := congrArg Face.registered (Option.some.inj h)
      rw [Face.registered_unseat] at hreg
      have hreg : e₀.registered.insert seat.subscriber r = f.registered := hreg
      rw [← hreg, Table.get?_insert, if_pos rfl] at hx
      exact (Option.some.inj hx).symm
    have hphase : ∀ (w₁ : World) e' (y : Option TaskId), w₁.tasks.phase? w.tasks.next =
        some ⟨.service, .listening seat.path seat.subscriber⟩ → (((w₁.cancelIf y).setEntry seat.path e').endSeat
          seat).tasks.phase? w.tasks.next = some ⟨.service, .listening seat.path seat.subscriber⟩ := fun w₁ e' y h => by
      have hlive := congrArg Roll.live ((roll_endSeat _ seat).trans (roll_setEntry (w₁.cancelIf y) seat.path e'))
      rw [Tasks.phase?, show (((w₁.cancelIf y).setEntry seat.path e').endSeat seat).tasks.live = _ from hlive]
      cases y with
      | none => exact h
      | some y => exact (Tasks.phase?_cancel w₁.tasks y _).trans h
    simp only [he₀] at hface ⊢
    unfold World.listen at hface ⊢
    by_cases hclosed : w.pool.closed = true
    · simp only [if_pos hclosed] at hface
      have hxr := hput _ _ _ hface
      rw [hxr] at hj
      cases hj
    · simp only [if_neg hclosed] at hface ⊢
      have hxr := hput _ _ _ hface
      rw [hxr] at hj
      cases hj
      refine ⟨rfl, ?_⟩
      have hnew : (w.spawn .service (.listening seat.path seat.subscriber)).2.tasks.phase? w.tasks.next =
          some ⟨.service, .listening seat.path seat.subscriber⟩ := (Tasks.phase?_spawn _ _ _).trans (if_pos rfl)
      cases e₀.registered.get? seat.subscriber with
      | none => exact hphase _ _ none hnew
      | some y => exact hphase _ _ y.listener hnew

theorem listens_iff {j : TaskId} : w.Listens j ↔
    ∃ k f id x, w.front.face? k = some f ∧ f.registered.get? id = some x ∧ x.listener = some j := by
  constructor
  · rintro ⟨k, e, id, x, he, hx, hj⟩
    exact ⟨k, e.face, id, x, congrArg (Option.map Entry.face) he, hx, hj⟩
  · rintro ⟨k, f, id, x, hf, hx, hj⟩
    obtain ⟨e, he, rfl⟩ := Option.map_eq_some_iff.1 hf
    exact ⟨k, e, id, x, he, hx, hj⟩

/-- what a section of another task has left behind is there after it -/
theorem phase?_after {r : World × Section Phase Unit} (h : j ≠ id) : (World.after id r).tasks.phase? j = r.1.tasks.phase? j :=
  (Tasks.phase?_record _ id j r.2).trans (if_neg (Ne.symm h))

theorem servedBy_of_phase (hw : Wf w) {ph : Phase} (hph : w.tasks.phase? j = some ph)
    (hs : ph.activity.isService = true) : w.ServedBy j := by
  refine ⟨hw.numbered.lt hph, fun ph' hph' => ?_⟩
  cases hph.symm.trans hph'
  exact hs

/-- whoever listens after a section has listened before, or is a service -/
theorem listens_serve (hw : Wf w) (ht : w.served? id = some t) (hc : t.cancelled = false)
    (h : (serve w id).Listens j) : w.Listens j ∨ (serve w id).ServedBy j := by
  obtain ⟨k, f', sub, x, hf', hx, hj⟩ := listens_iff.1 h
  have hold : (∃ f, w.front.face? k = some f ∧ f.registered.get? sub = some x) → w.Listens j := fun ⟨f, hf, hx⟩ =>
    listens_iff.2 ⟨k, f, sub, x, hf, hx, hj⟩
  rcases (dealing_serve hw ht hc).registered hf' hx with hex | ⟨seat, signal, ha, rfl, rfl⟩
  · exact Or.inl (hold hex)
  · rw [front_serve ht hc, ha] at hf'
    have hstep : ((floorTo w id).step (.settling seat signal)).1 = floorTo w id ∨
        ((floorTo w id).step (.settling seat signal)).1 = ((floorTo w id).register seat).1 := by
      simp only [World.step, World.stepSettling]
      split
      · exact Or.inl rfl
      · split
        · exact Or.inl rfl
        · exact Or.inr rfl
    rcases hstep with hstep | hstep
    · rw [hstep, front_floorTo] at hf'
      exact Or.inl (hold ⟨f', hf', hx⟩)
    · rw [hstep] at hf'
      obtain ⟨hnext, hphase⟩ := listener_register (floorTo w id) seat hf' hx hj
      rw [next_floorTo] at hnext
      have hne : j ≠ id := fun hji => Nat.lt_irrefl _ ((hw.numbered.lt (phase?_of_served ht)).trans_eq
        (hnext.symm.trans hji))
      have hlive : ((floorTo w id).advance id t.phase).1.tasks.live = _ :=
        congrArg Roll.live (roll_advance (floorTo w id) id t.phase)
      have hphase' : (serve w id).tasks.phase? j = some ⟨.service, .listening seat.path seat.subscriber⟩ := by
        rw [serve_of_section ht hc, phase?_after hne, Tasks.phase?, hlive, ha]
        rw [← hstep] at hphase
        exact hphase
      exact Or.inr (servedBy_of_phase (wf_move hw (.turn id)) hphase' rfl)

/-- the pump of a new stream is a service -/
theorem servedBy_attachStream (hw : Wf w) (h : w.attachStream.2.pump = some j) : (w.move .attachStream).ServedBy j := by
  have hpump : w.attachStream.2.pump = some w.tasks.next := by
    simp only [World.attachStream]
    cases w.pump <;> rfl
  have hphase : w.attachStream.2.tasks.phase? w.tasks.next = some ⟨.service, .pumping w.nextStream⟩ := by
    simp only [World.attachStream]
    cases w.pump with
    | none => exact (Tasks.phase?_spawn _ _ _).trans (if_pos rfl)
    | some y => exact (Tasks.phase?_cancel _ y _).trans ((Tasks.phase?_spawn _ _ _).trans (if_pos rfl))
  cases h.symm.trans hpump
  exact servedBy_of_phase (wf_move hw .attachStream) hphase rfl

/-- whom the engine relies on after a move it has relied on before, or it is a service -/
theorem relies_move (hw : Wf w) (hm : Continues w m) (h : (w.move m).Relies j) : w.Relies j ∨ (w.move m).ServedBy j := by
  rcases h with hlisten | hpump
  · rcases section_or_not w m with ⟨i, t, rfl, ht, hc⟩ | hidle
    · exact (listens_serve hw ht hc hlisten).imp_left Or.inl
    · obtain ⟨k, f', sub, x, hf', hx, hj⟩ := listens_iff.1 hlisten
      obtain ⟨f, hf, hx⟩ := noNewer_of_no_section hidle k f' sub x hf' hx
      exact Or.inl (Or.inl (listens_iff.2 ⟨k, f, sub, x, hf, hx, hj⟩))
  · by_cases hattach : m = .attachStream
    · subst hattach
      exact Or.inr (servedBy_attachStream hw hpump)
    · left
      by_cases hturn : ∃ i, m = .turn i
      · obtain ⟨i, rfl⟩ := hturn
        have hserve : Spares w.Listens w (serve w i) := spares_serve fun t hs hc => (hm i t rfl hs hc).1
        exact Or.inr (hserve.pump.symm.trans hpump)
      · exact Or.inr ((pump_outside w (fun i e => hturn ⟨i, e⟩) hattach).symm.trans hpump)

/-! ## Along a run -/

variable {policy : WritePolicy} {moves : Nat → Move}

/-- whom the engine relies on is a service, in every state of a run without shutting down -/
theorem servedBy_trace (h : ∀ n, moves n ≠ .call .shutDown) (n : Nat)
    (hj : ((World.start policy).trace moves n).Relies j) : ((World.start policy).trace moves n).ServedBy j := by
  induction n with
  | zero =>
    rcases hj with ⟨k, e, id, x, he, -⟩ | hj
    · cases he
    · cases hj
  | succ n ih =>
    have hw := (reachable_trace policy moves n).wf
    have hm : Continues ((World.start policy).trace moves n) (moves n) := continues_trace h n
    exact (relies_move hw hm hj).elim (fun hj => servedBy_move hw hm (ih hj)) id

/-- **A task that has been cancelled and is no service was cancelled by a move, and has been in its phase ever since**, in a run
without shutting down. -/
theorem cancelled_since (h : ∀ n, moves n ≠ .call .shutDown) {n : Nat} {t : Task Phase}
    (ht : ((World.start policy).trace moves n).tasks.live.get? j = some t) (hc : t.cancelled = true)
    (ha : t.phase.activity.isService = false) :
    ∃ l < n, moves l = .cancel j ∧
      ∀ i, l ≤ i → i ≤ n → ((World.start policy).trace moves i).tasks.phase? j = some t.phase := by
  induction n generalizing t with
  | zero => cases ht
  | succ n ih =>
    have hw := (reachable_trace policy moves n).wf
    have hm : Continues ((World.start policy).trace moves n) (moves n) := continues_trace h n
    have hphase : (((World.start policy).trace moves n).move (moves n)).tasks.phase? j = some t.phase :=
      congrArg (Option.map Task.phase) ht
    rcases (spares_move hm).cancelled j t ht hc with (hrelies | hcancel) | ⟨t₀, ht₀, hc₀⟩
    · have hserved := (servedBy_move hw hm (servedBy_trace h n hrelies)).2 t.phase hphase
      rw [ha] at hserved
      cases hserved
    · refine ⟨n, Nat.lt_succ_self n, hcancel, fun i hni hin => ?_⟩
      rcases Nat.lt_or_eq_of_le hin with hlt | rfl
      · cases Nat.le_antisymm hni (Nat.lt_succ_iff.1 hlt)
        rw [hcancel] at hphase
        exact (Tasks.phase?_cancel _ j j).symm.trans hphase
      · exact hphase
    · have hphase₀ : ((World.start policy).trace moves n).tasks.phase? j = some t₀.phase :=
        congrArg (Option.map Task.phase) ht₀
      have hsame : t₀.phase = t.phase := by
        cases hs : ((World.start policy).trace moves n).serves (moves n) j with
        | false => exact Option.some.inj ((phase?_kept hw hs hphase₀).symm.trans hphase)
        | true =>
          obtain ⟨hmove, hgo⟩ := serves_iff.1 hs
          have hs₀ : ((World.start policy).trace moves n).served? j = some t₀ := by simp [World.served?, hgo, ht₀]
          rw [hmove] at hphase
          cases (phase?_serve_of_cancelled hw hs₀ hc₀).symm.trans hphase
      obtain ⟨l, hl, hcancel, hph⟩ := ih ht₀ hc₀ (hsame ▸ ha)
      refine ⟨l, hl.trans (Nat.lt_succ_self n), hcancel, fun i hli hin => ?_⟩
      rcases Nat.lt_or_eq_of_le hin with hlt | rfl
      · rw [← hsame]
        exact hph i hli (Nat.lt_succ_iff.1 hlt)
      · exact hphase

/-- **A task that has not begun and has been cancelled was cancelled by a move**, in a run without shutting down. -/
theorem cancelled_from_outside (h : ∀ n, moves n ≠ .call .shutDown) {n : Nat} {t : Task Phase} {r : Request}
    (ht : ((World.start policy).trace moves n).tasks.live.get? j = some t) (hc : t.cancelled = true)
    (ha : t.phase.activity = .starting r) :
    ∃ l < n, moves l = .cancel j ∧ ((World.start policy).trace moves l).tasks.phase? j = some t.phase := by
  obtain ⟨l, hl, hcancel, hphase⟩ := cancelled_since h ht hc (by rw [ha]; rfl)
  exact ⟨l, hl, hcancel, hphase l le_rfl hl.le⟩

end LiveFiles.Engine
