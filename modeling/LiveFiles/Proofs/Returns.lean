/-
How calls end. The engine keeps a record of the results that calls have returned, in order.
- `endings_step`: no section writes to the record by itself; the end of the task does (`endings_section`).
- **`endings_move`**: what is in the record after a move was there before, or is the result with which the section of the
  task ends in this move (`Replies`).
- `phase?_cases`: a task after a move is in the phase that it was in, is new, or goes on by its own section.
-/
import LiveFiles.Proofs.Stages

namespace LiveFiles.Engine

variable {w w' : World} {m : Move} {id : TaskId} {t : Task Phase} {a b : Activity} {p : Path} {σ α : Type}

/-! ## The record of endings -/

/-! ### Operations on the world -/

@[simp] theorem endings_wake (w : World) (x : Await) : (w.wake x).endings = w.endings := rfl

@[simp] theorem endings_cancelIf (w : World) (x : Option TaskId) : (w.cancelIf x).endings = w.endings := by
  cases x <;> rfl

@[simp] theorem endings_giveIf (w : World) (x : Option SignalId) : (w.giveIf x).endings = w.endings := by cases x <;> rfl

@[simp] theorem endings_giveBack (w : World) (τ : Turn) : (w.giveBack τ).endings = w.endings := by
  unfold World.giveBack
  dsimp only
  split <;> rfl

@[simp] theorem endings_giveBackIf (w : World) (turn : Option Turn) : (w.giveBackIf turn).endings = w.endings := by
  cases turn with
  | none => rfl
  | some τ => exact endings_giveBack w τ

@[simp] theorem endings_setEntry (w : World) (p : Path) (e : Entry) : (w.setEntry p e).endings = w.endings := rfl

@[simp] theorem endings_dropEntry (w : World) (p : Path) : (w.dropEntry p).endings = w.endings := rfl

@[simp] theorem endings_leaveDisk (w : World) (p : Path) : (w.leaveDisk p).endings = w.endings := rfl

@[simp] theorem endings_forgetRevoked (w : World) (p : Path) : (w.forgetRevoked p).endings = w.endings := rfl

@[simp] theorem endings_endSeat (w : World) (seat : Seat) : (w.endSeat seat).endings = w.endings := rfl

@[simp] theorem endings_broadcast (w : World) (x : Snapshot) : (w.broadcast x).endings = w.endings := by
  unfold World.broadcast
  split <;> rfl

@[simp] theorem endings_inBackground (w : World) (r : Request) : (w.inBackground r).endings = w.endings := by
  unfold World.inBackground
  split <;> rfl

@[simp] theorem endings_beginCall (w : World) (op : DiskOp) (p : Path) (k : Call → σ) :
    (w.beginCall (α := α) op p k).1.endings = w.endings := by
  unfold World.beginCall
  dsimp only
  split
  · split <;> rfl
  · rfl

@[simp] theorem endings_atGate (w : World) (g : GateId) (k : Call → σ) :
    (w.atGate (α := α) g k).1.endings = w.endings := by
  unfold World.atGate
  split <;> rfl

@[simp] theorem endings_awaitIdle (w : World) (p : Path) (turn : Option Turn) :
    (w.awaitIdle p turn).1.endings = w.endings := by
  cases turn with
  | some τ =>
    simp only [World.awaitIdle]
    split
    · exact endings_giveBack w τ
    · rfl
  | none =>
    simp only [World.awaitIdle]
    split <;> rfl

@[simp] theorem endings_listen (w : World) (p : Path) (x : SubscriberId) : (w.listen p x).2.endings = w.endings := by
  unfold World.listen
  split <;> rfl

@[simp] theorem endings_beginQuery (w : World) (e : Entry) : (w.beginQuery e).2.2.endings = w.endings := by
  unfold World.beginQuery
  dsimp only
  split <;> rfl

@[simp] theorem endings_armEntry (w : World) (p : Path) (e : Entry) : (w.armEntry p e).1.endings = w.endings := by
  unfold World.armEntry
  split <;> rfl

@[simp] theorem endings_endLeaving (w : World) (l : Leaving) : (w.endLeaving l).1.endings = w.endings := by
  cases l <;> rfl

/-! ### Sections -/

@[simp] theorem endings_endLook (w : World) (l : Look) (x : Refreshed) : (w.endLook l x).1.endings = w.endings := by
  simp [World.endLook]

@[simp] theorem endings_conclude (w : World) (l : Look) (o : Observation) :
    (w.conclude l o).1.endings = w.endings := by
  unfold World.conclude
  split
  · simp
  · dsimp only
    split <;> simp

theorem endings_requestRefresh (w : World) (p : Path) : (w.requestRefresh p).1.endings = w.endings := by
  unfold World.requestRefresh
  split
  · rfl
  · exact endings_beginQuery w _

theorem endings_enterRefresh (w : World) (p : Path) (q : QueryId) (τ : Turn) :
    (w.enterRefresh p q τ).1.endings = w.endings := by
  unfold World.enterRefresh
  split
  · simp
  · split <;> simp

theorem endings_stepRefresh (w : World) (r : Refresh) : (w.stepRefresh r).1.endings = w.endings := by
  cases r with
  | queued p q τ =>
    simp only [World.stepRefresh]
    split
    · exact endings_enterRefresh w p q τ
    · rfl
  | looking l c =>
    cases c with
    | held g => exact endings_atGate w g _
    | due =>
      simp only [World.stepRefresh, World.haveLooked]
      split
      · simp
      · simp
      · split <;> simp
  | reading l date c =>
    cases c with
    | held g => exact endings_atGate w g _
    | due =>
      simp only [World.stepRefresh, World.haveRead]
      split <;> simp
  | lookingAgain l f c =>
    cases c with
    | held g => exact endings_atGate w g _
    | due =>
      simp only [World.stepRefresh, World.haveLookedAgain]
      split <;> simp

theorem endings_requestSave (w : World) (p : Path) (bytes : ByteArray) :
    (w.requestSave p bytes).1.endings = w.endings := by
  obtain ⟨turns, entries, h⟩ := frame_requestSave w p bytes
  rw [h]

@[simp] theorem endings_failSave (w : World) (job : SaveJob) (x : Problem) :
    (w.failSave job x).1.endings = w.endings := by
  unfold World.failSave
  dsimp only
  split <;> simp

@[simp] theorem endings_commitSave (w : World) (job : SaveJob) (date : Instant) :
    (w.commitSave job date).1.endings = w.endings := by
  unfold World.commitSave
  cases w.entry? job.path <;> dsimp only [Option.map] <;> split <;> simp

theorem endings_stepSave (w : World) (x : Save) : (w.stepSave x).1.endings = w.endings := by
  cases x with
  | queued job =>
    simp only [World.stepSave]
    split <;> simp
  | writing job c =>
    cases c with
    | held g => exact endings_atGate w g _
    | due =>
      simp only [World.stepSave, World.haveWritten]
      split
      · simp
      · exact endings_beginCall _ _ _ _
  | looking job c =>
    cases c with
    | held g => exact endings_atGate w g _
    | due =>
      simp only [World.stepSave, World.haveLookedUp]
      split <;> simp

@[simp] theorem endings_releasePlace (w : World) (p : Path) (l : Leaving) :
    (w.releasePlace p l).1.endings = w.endings := by
  unfold World.releasePlace
  split
  · simp
  · dsimp only
    split
    · split <;> rfl
    · simp

theorem endings_stepTearingDown (w : World) (p : Path) (turn : Option Turn) (l : Leaving) :
    (w.stepTearingDown p turn l).1.endings = w.endings := by
  have h := endings_awaitIdle w p turn
  unfold World.stepTearingDown
  rcases hx : w.awaitIdle p turn with ⟨w₁, x | x | x | x⟩ <;> rw [hx] at h <;> dsimp only at h ⊢
  · exact h
  · exact h
  · exact h
  · split
    · split <;> simp [h]
    · simp [h]

theorem endings_unwatch (w : World) (p : Path) (x : SubscriberId) : (w.unwatch p x).1.endings = w.endings := by
  unfold World.unwatch
  split
  · rfl
  · split
    · rfl
    · simp

theorem endings_takePlace (w : World) (seat : Seat) (e : Entry) : (w.takePlace seat e).1.endings = w.endings := by
  unfold World.takePlace
  dsimp only
  split
  · rfl
  · exact (endings_beginQuery _ _).trans (endings_armEntry _ _ _)

theorem endings_stepJoining (w : World) (p : Path) (x : SubscriberId) (joined : SignalId) (other : Option SignalId) :
    (w.stepJoining p x joined other).1.endings = w.endings := by
  unfold World.stepJoining
  split
  · rfl
  · dsimp only
    split
    · rfl
    · split
      · rfl
      · exact endings_takePlace w _ _

theorem endings_register (w : World) (seat : Seat) : (w.register seat).1.endings = w.endings := by
  unfold World.register
  split
  · rfl
  · dsimp only
    split <;> simp

theorem endings_stepSettling (w : World) (seat : Seat) (x : Option SignalId) :
    (w.stepSettling seat x).1.endings = w.endings := by
  unfold World.stepSettling
  split
  · rfl
  · split
    · rfl
    · exact endings_register w seat

theorem endings_stepSynchronizing (w : World) (seat : Seat) (r : Refresh) :
    (w.stepSynchronizing seat r).1.endings = w.endings := by
  have h := endings_stepRefresh w r
  unfold World.stepSynchronizing
  rcases hx : w.stepRefresh r with ⟨w₁, x | x | x | (x | x)⟩ <;> rw [hx] at h <;> dsimp only at h ⊢ <;> simp [h]

theorem endings_requestShutDown (w : World) : w.requestShutDown.1.endings = w.endings := by
  have hretire : ∀ (es : List Entry) (w : World), (es.foldl World.retire w).endings = w.endings := by
    intro es
    induction es with
    | nil => exact fun _ => rfl
    | cons e es ih =>
      intro w
      have hstop : ∀ (rs : List Registration) (w : World),
          (rs.foldl (fun w r => w.cancelIf r.listener) w).endings = w.endings := by
        intro rs
        induction rs with
        | nil => exact fun _ => rfl
        | cons r rs ih => exact fun w => (ih _).trans (endings_cancelIf w _)
      refine (ih _).trans ?_
      unfold World.retire
      dsimp only
      split <;> exact hstop _ w
  exact (hretire _ _).trans (endings_cancelIf _ _)

theorem endings_stepPumping (w : World) (x : StreamId) : (w.stepPumping x).1.endings = w.endings := by
  unfold World.stepPumping
  split
  · exact endings_inBackground _ _
  · rfl
  · rfl

theorem endings_begin (w : World) (r : Request) : (w.begin r).1.endings = w.endings := by
  cases r with
  | watch p x =>
    simp only [World.begin, World.requestWatch]
    split <;> rfl
  | unwatch p x => exact endings_unwatch w p x
  | write p bytes => rw [World.begin, fst_ofPart, endings_requestSave]
  | reconcile p => rw [World.begin, fst_ofPart, endings_requestRefresh]
  | release p => exact endings_releasePlace w p _
  | waitIdle => rfl
  | shutDown => exact endings_requestShutDown w
  | diskStat p => exact endings_beginCall _ _ _ _
  | diskRead p => exact endings_beginCall _ _ _ _
  | diskWrite p bytes => exact endings_beginCall _ _ _ _

/-- **No section of a task records endings by itself.** -/
theorem endings_step (w : World) (a : Activity) : (w.step a).1.endings = w.endings := by
  cases a with
  | starting r => exact endings_begin w r
  | refreshing r => rw [World.step, fst_ofPart, endings_stepRefresh]
  | saving x => rw [World.step, fst_ofPart, endings_stepSave]
  | joining p x joined other => exact endings_stepJoining w p x joined other
  | synchronizing seat r => exact endings_stepSynchronizing w seat r
  | settling seat x => exact endings_stepSettling w seat x
  | tearingDown p turn l => exact endings_stepTearingDown w p turn l
  | awaitingQuiet =>
    simp only [World.step, World.stepAwaitingQuiet]
    split <;> rfl
  | closing paths =>
    simp only [World.step, World.stepClosing]
    split
    · cases paths <;> rfl
    · rfl
  | draining p turn rest =>
    have h := endings_awaitIdle w p turn
    simp only [World.step, World.stepDraining]
    rcases hx : w.awaitIdle p turn with ⟨w₁, x | x | x | x⟩ <;> rw [hx] at h <;> dsimp only at h ⊢
    · exact h
    · exact h
    · exact h
    · cases rest <;> exact h
  | diskStat p c => cases c <;> first | exact endings_atGate _ _ _ | rfl
  | diskRead p c => cases c <;> first | exact endings_atGate _ _ _ | rfl
  | diskWrite p bytes c => cases c <;> first | exact endings_atGate _ _ _ | rfl
  | listening p x =>
    simp only [World.step, World.stepListening]
    split
    · exact endings_inBackground w _
    · rfl
  | pumping x => exact endings_stepPumping w x

@[simp] theorem endings_abandonSeat (w : World) (seat : Seat) : (w.abandonSeat seat).endings = w.endings := by
  simp [World.abandonSeat]

@[simp] theorem endings_dropRefresh (w : World) (r : Refresh) : (w.dropRefresh r).endings = w.endings := by
  cases r <;> simp [World.dropRefresh]

@[simp] theorem endings_dropSave (w : World) (x : Save) : (w.dropSave x).endings = w.endings := by
  cases x <;> simp [World.dropSave]

theorem endings_abandon (w : World) (a : Activity) : (w.abandon a).endings = w.endings := by
  cases a with
  | tearingDown p turn l => cases l <;> simp [World.abandon]
  | _ => first | rfl | simp [World.abandon]

/-! ### In a move -/

/-- in this move a task ends with an outcome -/
def Replies (w : World) (m : Move) (id : TaskId) (o : Outcome) : Prop :=
  ∃ a, w.carried? m = some (id, a) ∧ ((floorTo w id).step a).2 = .ended o

theorem endings_floorTo (w : World) (id : TaskId) : (floorTo w id).endings = w.endings := by
  unfold floorTo
  split <;> rfl

theorem endings_finish (w : World) (id : TaskId) (role : Role) (e : Ending) :
    (w.finish id role e).endings = if role = .caller then w.endings ++ [(id, e)] else w.endings := by
  cases role <;> rfl

/-- what the section of a task adds to the record -/
theorem endings_section (hs : w.served? id = some t) (hc : t.cancelled = false) :
    (serve w id).endings = w.endings ++
      match ((floorTo w id).step t.phase.activity).2, t.phase.role with
      | .ended o, .caller => [(id, .returned o)]
      | _, _ => [] := by
  have hstep : ((floorTo w id).step t.phase.activity).1.endings = w.endings :=
    (endings_step _ _).trans (endings_floorTo w id)
  rw [serve_of_section hs hc]
  simp only [World.after, World.advance]
  rcases hx : (floorTo w id).step t.phase.activity with ⟨w₁, x | x | x | o⟩ <;> rw [hx] at hstep <;>
    dsimp only at hstep ⊢
  · rw [hstep, List.append_nil]
  · rw [hstep, List.append_nil]
  · rw [hstep, List.append_nil]
  · rw [endings_finish, hstep]
    cases t.phase.role <;> simp

/-- a cancelled task returns nothing -/
theorem endings_cancelled (hs : w.served? id = some t) (hc : t.cancelled = true) :
    (serve w id).endings = w.endings ++ if t.phase.role = .caller then [(id, .cancelled)] else [] := by
  have h : (((floorTo w id).without id).abandon t.phase.activity).endings = w.endings :=
    (endings_abandon _ _).trans (endings_floorTo w id)
  rw [serve_of_cancelled hs hc]
  cases hr : t.phase.role <;> simp [World.finish, h]

/-- where nobody has the floor nothing ends -/
theorem endings_nobody (hs : w.served? id = none) : (serve w id).endings = w.endings := by
  obtain ⟨ready, floor, hserve⟩ := serve_of_nobody hs
  rw [hserve]

/-- what has been recorded stays so -/
theorem endings_kept (w : World) (m : Move) : ∃ xs, (w.move m).endings = w.endings ++ xs := by
  by_cases hm : ∃ j, m = .turn j
  · obtain ⟨j, rfl⟩ := hm
    change ∃ xs, (serve w j).endings = w.endings ++ xs
    cases hs : w.served? j with
    | none => exact ⟨[], by rw [endings_nobody hs, List.append_nil]⟩
    | some t =>
      cases hc : t.cancelled with
      | true => exact ⟨_, endings_cancelled hs hc⟩
      | false => exact ⟨_, endings_section hs hc⟩
  · exact ⟨[], by rw [(outside w fun j hj => hm ⟨j, hj⟩).endings, List.append_nil]⟩

/-- **A call that has returned has done so before, or in this move.** -/
theorem endings_move {o : Outcome} (h : (id, Ending.returned o) ∈ (w.move m).endings) :
    (id, Ending.returned o) ∈ w.endings ∨ Replies w m id o := by
  by_cases hm : ∃ j, m = .turn j
  · obtain ⟨j, rfl⟩ := hm
    change _ ∈ (serve w j).endings at h
    cases hs : w.served? j with
    | none => exact Or.inl (endings_nobody hs ▸ h)
    | some t =>
      cases hc : t.cancelled with
      | true =>
        rw [endings_cancelled hs hc, List.mem_append] at h
        refine h.imp_right fun h => ?_
        split at h <;> simp at h
      | false =>
        rw [endings_section hs hc, List.mem_append] at h
        refine h.imp_right fun h => ?_
        split at h
        · rename_i o' hend hrole
          simp only [List.mem_singleton, Prod.mk.injEq, Ending.returned.injEq] at h
          obtain ⟨rfl, rfl⟩ := h
          exact ⟨_, carried?_of_served hs hc, hend⟩
        · cases h
  · rw [(outside w fun j hj => hm ⟨j, hj⟩).endings] at h
    exact Or.inl h

/-! ### Where tasks come from -/

/-- where a task comes from: it stays in its phase, is new, or goes on by its own section -/
theorem phase?_cases (hw : Wf w) {ph : Phase} (h : (w.move m).tasks.phase? id = some ph) :
    w.tasks.phase? id = some ph ∨ (w.tasks.phase? id = none ∧ Newcomer w m ph) ∨
      ∃ a, w.carried? m = some (id, a) ∧ ((floorTo w id).step a).2.next = some ph.activity := by
  by_cases hm : w.serves m id = true
  · obtain ⟨rfl, hgo⟩ := serves_iff.1 hm
    rw [World.move] at h
    cases hs : w.served? id with
    | none => exact Or.inl ((phase?_serve_of_nobody hs id).symm.trans h)
    | some t =>
      cases hc : t.cancelled with
      | true => cases (phase?_serve_of_cancelled hw hs hc).symm.trans h
      | false =>
        rw [phase?_serve hw hs hc] at h
        obtain ⟨b, hb, rfl⟩ := Option.map_eq_some_iff.1 h
        exact Or.inr (Or.inr ⟨_, carried?_of_served hs hc, hb⟩)
  · rcases phase?_newcomer hw (Bool.eq_false_iff.2 hm) with hsame | ⟨hnone, hnew⟩
    · exact Or.inl (hsame.symm.trans h)
    · exact Or.inr (Or.inl ⟨hnone, hnew ph h⟩)

section Trace

variable {policy : WritePolicy} {moves : Nat → Move} {n : Nat}

/-- whoever has returned has done so in one of the moves -/
theorem replies_of_endings {o : Outcome} (h : (id, Ending.returned o) ∈ ((World.start policy).trace moves n).endings) :
    ∃ k, k < n ∧ Replies ((World.start policy).trace moves k) (moves k) id o := by
  induction n with
  | zero => cases h
  | succ n ih =>
    rcases endings_move h with h | h
    · obtain ⟨k, hk, hr⟩ := ih h
      exact ⟨k, hk.trans (Nat.lt_succ_self n), hr⟩
    · exact ⟨n, Nat.lt_succ_self n, h⟩

end Trace

end LiveFiles.Engine
