/-
What leaves places alone. A call to watch takes a place at a path and keeps it as a registration, until the place is given
back. Of the entries this concerns their `Roster`s, and of the watcher what it is told (`World.places`). Nothing that
happens to signals, turns and channels changes that (`Aside`), and neither do reconciliations and writes, whether they go
on or are abandoned (`Steady`). `Steady P` says as well that the engine is as much shut down as it was, and that new
tasks are in phases of which `P` holds: a write that fails may start one.
-/
import LiveFiles.Proofs.IdleWaits

namespace LiveFiles.Engine

/-! ## Rosters -/

/-- what an entry says of places, and of the watcher -/
structure Roster where
  spelling : Path
  count : Nat
  registered : Table SubscriberId Registration
  armed : Bool

def Entry.roster (e : Entry) : Roster := ⟨e.spelling, e.count, e.registered, e.armed⟩

/-- the roster of a path before anybody has had a place there -/
def Roster.blank (p : Path) : Roster := ⟨p, 0, .empty, false⟩

def Roster.retired (r : Roster) : Roster := { r with count := 0, registered := .empty, armed := false }

/-- the rosters of all entries, and what the watcher has been told -/
structure Places where
  roster? : Path.Key → Option Roster
  calls : List WatcherCall

def World.places (w : World) : Places := ⟨fun k => (w.entries.get? k).map Entry.roster, w.watcher.calls⟩

namespace Places

def put (v : Places) (k : Path.Key) (r : Option Roster) : Places := { v with roster? := Function.update v.roster? k r }

def tell (v : Places) (cs : List WatcherCall) : Places := { v with calls := v.calls ++ cs }

end Places

/-! ## What leaves places alone -/

/-- the task waits for its subscriber to leave -/
def Phase.Listening (p : Phase) : Prop := ∃ x, p.activity.awaits = .farewell x

/-- `w'` differs from `w` in turns, signals, channels and the queue of tasks only, and whoever listens is left alone -/
structure Aside (w w' : World) : Prop where
  entries : w'.entries = w.entries
  watcher : w'.watcher = w.watcher
  disk : w'.disk = w.disk
  isShutDown : w'.isShutDown = w.isShutDown
  closed : w'.pool.closed = w.pool.closed
  tasks : ∀ P, w.tasks.Grows P w'.tasks
  spares : w.tasks.Spares Phase.Listening w'.tasks

/-- The engine is as much shut down as it was, the watcher has been asked to arm as often, new tasks are in phases of which
`P` holds, and whoever listens is left alone. -/
structure Going (P : Phase → Prop) (w w' : World) : Prop where
  isShutDown : w'.isShutDown = w.isShutDown
  closed : w'.pool.closed = w.pool.closed
  attempts : w'.watcher.attempts = w.watcher.attempts
  tasks : w.tasks.Grows P w'.tasks
  spares : w.tasks.Spares Phase.Listening w'.tasks

/-- places are as they were, too -/
structure Steady (P : Phase → Prop) (w w' : World) : Prop extends Going P w w' where
  places : w'.places = w.places

variable {P : Phase → Prop} {w w' w'' : World}

theorem Aside.refl (w : World) : Aside w w := ⟨rfl, rfl, rfl, rfl, rfl, fun _ => .refl _, .refl _⟩

theorem Aside.trans (h : Aside w w') (h' : Aside w' w'') : Aside w w'' :=
  ⟨h'.entries.trans h.entries, h'.watcher.trans h.watcher, h'.disk.trans h.disk, h'.isShutDown.trans h.isShutDown,
    h'.closed.trans h.closed, fun P => (h.tasks P).trans (h'.tasks P), h.spares.trans (h.tasks fun _ => True) h'.spares⟩

theorem spares_wake (w : World) {a : Await} (ha : ∀ x, a ≠ .farewell x) :
    w.tasks.Spares Phase.Listening (w.wake a).tasks := by
  refine Tasks.spares_wake w.tasks (fun p => decide (p.activity.awaits = a)) fun p hp => ?_
  obtain ⟨x, hx⟩ := hp
  exact decide_eq_false fun e => ha x (e.symm.trans hx)

theorem aside_wake (w : World) {a : Await} (ha : ∀ x, a ≠ .farewell x) : Aside w (w.wake a) :=
  ⟨rfl, rfl, rfl, rfl, rfl, fun _ => w.grows_wake a, spares_wake w ha⟩

theorem aside_cancelIf (w : World) (id : Option TaskId) : Aside w (w.cancelIf id) := by
  cases id with
  | none => exact .refl w
  | some id => exact ⟨rfl, rfl, rfl, rfl, rfl, fun _ => Tasks.grows_cancel _ id, Tasks.spares_cancel _ id⟩

theorem aside_giveIf (w : World) (x : Option SignalId) : Aside w (w.giveIf x) := by
  cases x with
  | none => exact .refl w
  | some x =>
    have h : Aside { w with signals := w.signals.give x } _ := aside_wake _ (a := .signal x) (by simp)
    exact ⟨rfl, rfl, rfl, rfl, rfl, h.tasks, h.spares⟩

theorem aside_giveBack (w : World) (τ : Turn) : Aside w (w.giveBack τ) := by
  unfold World.giveBack
  dsimp only
  split
  · rename_i n _
    have h : Aside { w with turns := (w.turns.giveBack τ).1 } _ := aside_wake _ (a := .turn n) (by simp)
    exact ⟨rfl, rfl, rfl, rfl, rfl, h.tasks, h.spares⟩
  · exact ⟨rfl, rfl, rfl, rfl, rfl, fun _ => .refl _, .refl _⟩

theorem aside_giveBackIf (w : World) (turn : Option Turn) : Aside w (w.giveBackIf turn) := by
  cases turn with
  | none => exact .refl w
  | some τ => exact aside_giveBack w τ

theorem aside_broadcast (w : World) (x : Snapshot) : Aside w (w.broadcast x) := by
  unfold World.broadcast
  split
  · exact .refl w
  · exact ⟨rfl, rfl, rfl, rfl, rfl, fun _ => .refl _, .refl _⟩

theorem Aside.steady (h : Aside w w') : Steady P w w' where
  isShutDown := h.isShutDown
  closed := h.closed
  attempts := congrArg Watcher.attempts h.watcher
  tasks := h.tasks P
  spares := h.spares
  places := by rw [World.places, h.entries, h.watcher, World.places]

theorem Going.trans (h : Going P w w') (h' : Going P w' w'') : Going P w w'' :=
  ⟨h'.isShutDown.trans h.isShutDown, h'.closed.trans h.closed, h'.attempts.trans h.attempts, h.tasks.trans h'.tasks,
    h.spares.trans h.tasks h'.spares⟩

theorem Steady.trans (h : Steady P w w') (h' : Steady P w' w'') : Steady P w w'' :=
  ⟨h.toGoing.trans h'.toGoing, h'.places.trans h.places⟩

theorem Steady.then (h : Steady P w w') (h' : Aside w' w'') : Steady P w w'' := h.trans h'.steady

/-- the rest of the world changes -/
theorem Steady.rest (he : w'.entries = w.entries) (hw : w'.watcher = w.watcher) (hs : w'.isShutDown = w.isShutDown)
    (hc : w'.pool.closed = w.pool.closed) (ht : w'.tasks = w.tasks) : Steady P w w' :=
  ⟨⟨hs, hc, congrArg Watcher.attempts hw, by rw [ht]; exact .refl _, by rw [ht]; exact .refl _⟩, by rw [World.places, he, hw, World.places]⟩

theorem Steady.refl (w : World) : Steady P w w := (Aside.refl w).steady

theorem roster?_of_present {p : Path} {e : Entry} (h : w.entry? p = some e) :
    w.places.roster? p.key = some e.roster := congrArg (Option.map Entry.roster) h

theorem roster?_of_absent {p : Path} (h : w.entry? p = none) : w.places.roster? p.key = none :=
  congrArg (Option.map Entry.roster) h

theorem places_setEntry (w : World) (p : Path) (e : Entry) :
    (w.setEntry p e).places = w.places.put p.key (some e.roster) := by
  have h : ∀ k, ((w.setEntry p e).entries.get? k).map Entry.roster =
      Function.update w.places.roster? p.key (some e.roster) k := fun k => by
    simp only [World.setEntry, Table.get?_insert, Function.update_apply, World.places, eq_comm (a := k)]
    split <;> rfl
  exact congrArg (Places.mk · w.watcher.calls) (funext h)

theorem places_dropEntry (w : World) (p : Path) : (w.dropEntry p).places = w.places.put p.key none := by
  have h : ∀ k, ((w.dropEntry p).entries.get? k).map Entry.roster = Function.update w.places.roster? p.key none k :=
    fun k => by
      simp only [World.dropEntry, Table.get?_erase, Function.update_apply, World.places, eq_comm (a := k)]
      split <;> rfl
  exact congrArg (Places.mk · w.watcher.calls) (funext h)

theorem going_setEntry (w : World) (p : Path) (e : Entry) : Going P w (w.setEntry p e) := ⟨rfl, rfl, rfl, .refl _, .refl _⟩

theorem steady_setEntry {p : Path} {e e' : Entry} (he : w.entry? p = some e) (hr : e'.roster = e.roster) :
    Steady P w (w.setEntry p e') := by
  refine ⟨going_setEntry w p e', ?_⟩
  rw [places_setEntry, hr, ← roster?_of_present he, Places.put, Function.update_eq_self]

theorem steady_modifyEntry (w : World) (p : Path) {f : Entry → Entry} (hf : ∀ e, (f e).roster = e.roster) :
    Steady P w (w.modifyEntry p f) := by
  have h : ∀ k, ((w.modifyEntry p f).entries.get? k).map Entry.roster = w.places.roster? k := fun k => by
    simp only [World.modifyEntry, Table.get?_modify, World.places]
    split
    · cases w.entries.get? k with
      | none => rfl
      | some e => exact congrArg some (hf e)
    · rfl
  exact ⟨⟨rfl, rfl, rfl, .refl _, .refl _⟩, congrArg (Places.mk · w.watcher.calls) (funext h)⟩

theorem steady_leaveDisk (w : World) (p : Path) : Steady P w (w.leaveDisk p) := .rest rfl rfl rfl rfl rfl

theorem steady_endSeat (w : World) (seat : Seat) : Steady P w (w.endSeat seat) :=
  (steady_modifyEntry w seat.path fun e => by split <;> rfl).then (aside_giveIf _ (some seat.joined))

theorem steady_inBackground (w : World) {r : Request} (hP : P ⟨.background, .starting r⟩) :
    Steady P w (w.inBackground r) := by
  unfold World.inBackground
  split
  · exact .refl w
  · rename_i n pool hpool
    have hclosed : pool.closed = w.pool.closed := by
      unfold Pool.accept at hpool
      split at hpool <;> cases hpool
      rfl
    have h1 : Steady P w { w with pool } := .rest rfl rfl rfl hclosed rfl
    exact (h1.then (aside_wake _ (by simp))).trans ⟨⟨rfl, rfl, rfl, Tasks.grows_spawn _ hP, Tasks.spares_spawn _ _⟩, rfl⟩

theorem steady_beginCall {σ α : Type} (w : World) (op : DiskOp) (p : Path) (k : Call → σ) :
    Steady P w (w.beginCall (α := α) op p k).1 := by
  unfold World.beginCall
  dsimp only
  split
  · split <;> exact .rest rfl rfl rfl rfl rfl
  · exact .rest rfl rfl rfl rfl rfl

/-- a call that has been begun is waited for in the phase that is given -/
theorem next_beginCall {σ α : Type} (w : World) (op : DiskOp) (p : Path) (k : Call → σ) :
    ∃ c, (w.beginCall (α := α) op p k).2.next = some (k c) := by
  unfold World.beginCall
  dsimp only
  split
  · split <;> exact ⟨_, rfl⟩
  · exact ⟨_, rfl⟩

theorem next_atGate {σ α : Type} (w : World) (g : GateId) (k : Call → σ) :
    ∃ c, (w.atGate (α := α) g k).2.next = some (k c) := by
  unfold World.atGate
  split <;> exact ⟨_, rfl⟩

theorem steady_atGate {σ α : Type} (w : World) (g : GateId) (k : Call → σ) : Steady P w (w.atGate (α := α) g k).1 := by
  unfold World.atGate
  split <;> exact .refl w

/-! ### Reconciliations -/

theorem aside_endLook (w : World) (l : Look) (r : Refreshed) : Aside w (w.endLook l r).1 :=
  (aside_giveIf w l.signal).trans (aside_giveBack _ l.turn)

theorem steady_conclude (w : World) (l : Look) (o : Observation) : Steady P w (w.conclude l o).1 := by
  unfold World.conclude
  cases he : w.entry? l.path with
  | none => exact (aside_endLook w l _).steady
  | some e =>
    have hset : Steady P w (w.setEntry l.path (Entry.commit { e with runningSignal := none } o).1) :=
      steady_setEntry he (by cases o <;> rfl)
    have h := hset.then (aside_giveIf _ l.signal)
    cases hx : Entry.commit { e with runningSignal := none } o with
    | mk e' news =>
      rw [hx] at h
      simp only [hx]
      cases news with
      | true => exact (h.then (aside_broadcast _ _)).then (aside_giveBack _ _)
      | false => exact h.then (aside_giveBack _ _)

/-- making a reconciliation the one that may change the entry -/
theorem steady_ask {p : Path} {e : Entry} (he : w.entry? p = some e) :
    Steady P w (((w.beginQuery e).2.2.setEntry p (w.beginQuery e).2.1).enlist p).2 := by
  obtain ⟨signal, signals, hq, -⟩ := beginQuery_eq w e
  rw [hq]
  have h1 : Steady P w { w with signals, nextQuery := w.nextQuery + 1 } := .rest rfl rfl rfl rfl rfl
  have h2 : Steady P w ({ w with signals, nextQuery := w.nextQuery + 1 }.setEntry p
      { e with pendingQuery := some w.nextQuery, pendingSignal := some signal }) := h1.trans (steady_setEntry he rfl)
  exact h2.trans (.rest rfl rfl rfl rfl rfl)

theorem steady_requestRefresh (w : World) (p : Path) : Steady P w (w.requestRefresh p).1 := by
  unfold World.requestRefresh
  cases he : w.entry? p with
  | none => exact .refl w
  | some e => exact steady_ask he

theorem steady_enterRefresh (w : World) (p : Path) (q : QueryId) (τ : Turn) : Steady P w (w.enterRefresh p q τ).1 := by
  unfold World.enterRefresh
  cases he : w.entry? p with
  | none => exact (aside_giveBack w τ).steady
  | some e =>
    dsimp only
    split
    · exact (aside_giveBack w τ).steady
    · exact (steady_setEntry he (by rfl)).trans (steady_beginCall _ _ _ _)

theorem steady_stepRefresh (w : World) (r : Refresh) : Steady P w (w.stepRefresh r).1 := by
  match r with
  | .queued p q τ =>
    simp only [World.stepRefresh]
    split
    · exact steady_enterRefresh w p q τ
    · exact .refl w
  | .looking l (.held g) => exact steady_atGate w g _
  | .looking l .due =>
    refine (steady_leaveDisk w l.path).trans ?_
    simp only [World.stepRefresh, World.haveLooked]
    split
    · exact (aside_endLook _ l _).steady
    · exact steady_conclude _ l _
    · split
      · exact steady_conclude _ l _
      · exact steady_beginCall _ _ _ _
  | .reading l m (.held g) => exact steady_atGate w g _
  | .reading l m .due =>
    refine (steady_leaveDisk w l.path).trans ?_
    simp only [World.stepRefresh, World.haveRead]
    split
    · exact steady_conclude _ l _
    · exact steady_beginCall _ _ _ _
  | .lookingAgain l f (.held g) => exact steady_atGate w g _
  | .lookingAgain l f .due =>
    refine (steady_leaveDisk w l.path).trans ?_
    simp only [World.stepRefresh, World.haveLookedAgain]
    split
    · exact (aside_endLook _ l _).steady
    · exact steady_conclude _ l _
    · exact (aside_endLook _ l _).steady

theorem steady_dropRefresh (w : World) (r : Refresh) : Steady P w (w.dropRefresh r) := by
  have hlook : ∀ l : Look, Steady P w (((w.leaveDisk l.path).giveIf l.signal).giveBack l.turn) := fun l =>
    ((steady_leaveDisk w l.path).then (aside_giveIf _ _)).then (aside_giveBack _ _)
  cases r with
  | queued p q τ => exact (aside_giveBack w τ).steady
  | looking l c => exact hlook l
  | reading l m c => exact hlook l
  | lookingAgain l f c => exact hlook l

/-! ### Writes -/

theorem steady_forgetRevoked (w : World) (p : Path) : Steady P w (w.forgetRevoked p) :=
  steady_modifyEntry w p fun _ => rfl

theorem steady_queueSave (w : World) (p : Path) (bytes : ByteArray) (b : Bool) (x : Option SignalId) :
    Steady P w (w.queueSave p bytes b x).1 := .rest rfl rfl rfl rfl rfl

theorem steady_requestSave (w : World) (p : Path) (bytes : ByteArray) : Steady P w (w.requestSave p bytes).1 := by
  unfold World.requestSave
  split
  · exact .refl w
  · cases he : w.entry? p with
    | none =>
      dsimp only
      split
      · exact .refl w
      · exact steady_queueSave w p bytes _ _
    | some e =>
      have hr : (World.revoke e).2.2.roster = e.roster := by
        unfold World.revoke
        split <;> rfl
      exact (steady_setEntry he hr).trans (steady_queueSave _ p bytes _ _)

theorem steady_failSave (w : World) {job : SaveJob} (hP : P ⟨.background, .starting (.reconcile job.path)⟩) (e : Problem) :
    Steady P w (w.failSave job e).1 := by
  have h : Steady P w ((w.giveBack job.turn).giveIf job.waiters) :=
    ((aside_giveBack w _).trans (aside_giveIf _ _)).steady
  unfold World.failSave
  dsimp only
  split
  · exact (h.trans (steady_forgetRevoked _ _)).trans (steady_inBackground _ hP)
  · exact h

theorem steady_commitSave (w : World) (job : SaveJob) (m : Instant) : Steady P w (w.commitSave job m).1 := by
  have hforget : ∀ w₁ : World, Steady P w₁ (if job.revoked then w₁.forgetRevoked job.path else w₁) := fun w₁ => by
    split
    · exact steady_forgetRevoked w₁ _
    · exact .refl w₁
  unfold World.commitSave
  cases he : w.entry? job.path with
  | none => exact ((aside_giveIf w job.waiters).steady.trans (hforget _)).then (aside_giveBack _ _)
  | some e =>
    have hset : Steady P w
        (w.setEntry job.path { e with contents := some (Text.Utf8.decodeLossy job.bytes), modified := m }) :=
      steady_setEntry he rfl
    exact (((hset.then (aside_giveIf _ job.waiters)).trans (hforget _)).then (aside_broadcast _ _)).then
      (aside_giveBack _ _)

theorem steady_write (w : World) (p : Path) (bytes : ByteArray) :
    Steady P w { w with disk := (w.disk.write p bytes).1 } := .rest rfl rfl rfl rfl rfl

theorem steady_stepSave (w : World) {s : Save} (hP : P ⟨.background, .starting (.reconcile s.job.path)⟩) :
    Steady P w (w.stepSave s).1 := by
  match s with
  | .queued job =>
    simp only [World.stepSave]
    split
    · exact steady_beginCall _ _ _ _
    · exact .refl w
  | .writing job (.held g) => exact steady_atGate w g _
  | .writing job .due =>
    refine ((steady_write w job.path job.bytes).trans (steady_leaveDisk _ job.path)).trans ?_
    simp only [World.stepSave, World.haveWritten]
    split
    · exact steady_failSave _ hP _
    · exact steady_beginCall _ _ _ _
  | .looking job (.held g) => exact steady_atGate w g _
  | .looking job .due =>
    refine (steady_leaveDisk w job.path).trans ?_
    simp only [World.stepSave, World.haveLookedUp]
    split
    · exact steady_failSave _ hP _
    · exact steady_failSave _ hP _
    · exact steady_commitSave _ _ _

theorem steady_dropSave (w : World) (s : Save) : Steady P w (w.dropSave s) := by
  have hend : ∀ job : SaveJob, Steady P w (((w.leaveDisk job.path).giveBack job.turn).giveIf job.waiters) := fun job =>
    ((steady_leaveDisk w job.path).then (aside_giveBack _ _)).then (aside_giveIf _ _)
  cases s with
  | queued job => exact ((aside_giveBack w _).trans (aside_giveIf _ _)).steady
  | writing job c => exact hend job
  | looking job c => exact hend job

end LiveFiles.Engine
