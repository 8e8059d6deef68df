/-
How sections end. Most of them return no snapshot, and whoever lets the others go first does not wait for a path to be
idle (`Plain`); this holds of all but those in which a call to watch looks for a place or settles (`plain_step`).
- `step_eq_snapshot`: a call to watch returns the entry of its path as it is, and its subscriber is registered there or
  the call has settled; `step_of_settles`: a call that settles does return.
- `pauses_step`: no task that lets the others go first waits for a path to be idle.
-/
import LiveFiles.Proofs.Marks
import LiveFiles.Proofs.Run

namespace LiveFiles.Engine

variable {w : World} {a : Activity} {o : Outcome}

/-! ## Sections without a snapshot -/

/-- the section returns no snapshot, and its task does not wait for an idle path if it lets the others go first -/
structure Plain (r : World × Section Activity Outcome) : Prop where
  wordless : ∀ x, r.2 ≠ .ended (.ok (.snapshot x))
  pauses : ∀ a, r.2 = .pause a → a.drain? = none

theorem Plain.go : Plain (w, .go a) := ⟨by simp, by simp⟩

theorem Plain.wait : Plain (w, .wait a) := ⟨by simp, by simp⟩

theorem Plain.pause (hd : a.drain? = none) : Plain (w, .pause a) := ⟨by simp, by simpa using hd⟩

theorem Plain.ended (ho : ∀ x, o ≠ .ok (.snapshot x)) : Plain (w, .ended o) := ⟨by simpa using ho, by simp⟩

theorem plain_ofPart {σ α : Type} {phase : σ → Activity} (hd : ∀ s, (phase s).drain? = none) {answer : α → Answer}
    (h : ∀ v x, answer v ≠ .snapshot x) (r : World × Section σ (Except Problem α)) : Plain (ofPart phase answer r) := by
  rcases r with ⟨w, s | s | s | (e | v)⟩
  · exact .go
  · exact .wait
  · exact .pause (hd s)
  · exact .ended fun x hx => by cases hx
  · exact .ended fun x hx => h v x (Except.ok.inj hx)

theorem plain_atGate {f : Call → Activity} (hd : ∀ c, (f c).drain? = none) (w : World) (g : GateId) :
    Plain (w.atGate g f) := by
  unfold World.atGate
  split
  · exact .pause (hd _)
  · exact .wait

theorem plain_beginCall {f : Call → Activity} (hd : ∀ c, (f c).drain? = none) (w : World) (op : DiskOp) (p : Path) :
    Plain (w.beginCall op p f) := by
  unfold World.beginCall
  dsimp only
  split
  · split
    · exact .pause (hd _)
    · exact .wait
  · exact .pause (hd _)

theorem plain_answered {α : Type} (w : World) {answer : α → Answer} (h : ∀ v x, answer v ≠ .snapshot x)
    (r : Except Failure α) : Plain (answered w answer r) := by
  cases r with
  | error e => exact .ended fun x hx => by cases hx
  | ok v => exact .ended fun x hx => h v x (Except.ok.inj hx)

theorem plain_endLeaving (w : World) (l : Leaving) : Plain (w.endLeaving l) := by
  cases l <;> exact .ended (by simp)

theorem plain_releasePlace (w : World) (p : Path) (l : Leaving) : Plain (w.releasePlace p l) := by
  unfold World.releasePlace
  split
  · exact plain_endLeaving w l
  · dsimp only
    split
    · exact .go
    · exact plain_endLeaving _ l

theorem plain_unwatch (w : World) (p : Path) (id : SubscriberId) : Plain (w.unwatch p id) := by
  unfold World.unwatch
  split
  · exact .ended (by simp)
  · split
    · exact .ended (by simp)
    · exact plain_releasePlace _ p .unwatched

theorem plain_takePlace (w : World) (seat : Seat) (e : Entry) : Plain (w.takePlace seat e) := by
  unfold World.takePlace
  dsimp only
  split <;> exact .go

theorem awaitIdle_ne_pause (w : World) (p : Path) (turn turn' : Option Turn) : (w.awaitIdle p turn).2 ≠ .pause turn' := by
  cases turn <;> simp only [World.awaitIdle] <;> split <;> simp

theorem plain_stepTearingDown (w : World) (p : Path) (turn : Option Turn) (l : Leaving) :
    Plain (w.stepTearingDown p turn l) := by
  have hno := awaitIdle_ne_pause w p turn
  unfold World.stepTearingDown
  generalize w.awaitIdle p turn = r at hno ⊢
  rcases r with ⟨w', t | t | t | u⟩
  · exact .go
  · exact .wait
  · exact absurd rfl (hno t)
  · dsimp only
    split <;> exact plain_endLeaving _ l

theorem plain_drainNext (w : World) (paths : List Path) : Plain (w.drainNext paths) := by
  cases paths with
  | nil => exact .ended (by simp)
  | cons p rest => exact .go

theorem plain_stepDraining (w : World) (p : Path) (turn : Option Turn) (rest : List Path) :
    Plain (w.stepDraining p turn rest) := by
  have hno := awaitIdle_ne_pause w p turn
  unfold World.stepDraining
  generalize w.awaitIdle p turn = r at hno ⊢
  rcases r with ⟨w', t | t | t | u⟩
  · exact .go
  · exact .wait
  · exact absurd rfl (hno t)
  · exact plain_drainNext _ rest

theorem plain_stepSynchronizing (w : World) (seat : Seat) (r : Refresh) : Plain (w.stepSynchronizing seat r) := by
  unfold World.stepSynchronizing
  rcases w.stepRefresh r with ⟨w', r' | r' | r' | (e | b)⟩
  · exact .go
  · exact .wait
  · exact .pause rfl
  · exact plain_releasePlace w' _ _
  · exact .go

theorem plain_begin (w : World) (r : Request) : Plain (w.begin r) := by
  cases r with
  | watch p id =>
    simp only [World.begin, World.requestWatch]
    split
    · exact .ended (by simp)
    · exact .go
  | unwatch p id => exact plain_unwatch w p id
  | write p bytes => exact plain_ofPart (fun _ => rfl) (by simp) _
  | reconcile p => exact plain_ofPart (fun _ => rfl) (by simp) _
  | release p => exact plain_releasePlace w p _
  | waitIdle => exact .go
  | shutDown =>
    simp only [World.begin, World.requestShutDown]
    exact .go
  | diskStat p => exact plain_beginCall (fun _ => rfl) w _ p
  | diskRead p => exact plain_beginCall (fun _ => rfl) w _ p
  | diskWrite p bytes => exact plain_beginCall (fun _ => rfl) w _ p

/-- all sections are plain but those of a call to watch that looks for a place or settles -/
theorem plain_step (w : World) (a : Activity) :
    Plain (w.step a) ∨ (∃ p id joined other, a = .joining p id joined other) ∨ ∃ seat signal, a = .settling seat signal := by
  cases a with
  | joining p id joined other => exact Or.inr (Or.inl ⟨p, id, joined, other, rfl⟩)
  | settling seat signal => exact Or.inr (Or.inr ⟨seat, signal, rfl⟩)
  | starting r => exact Or.inl (plain_begin w r)
  | refreshing r => exact Or.inl (plain_ofPart (fun _ => rfl) (by simp) _)
  | saving s => exact Or.inl (plain_ofPart (fun _ => rfl) (by simp) _)
  | synchronizing seat r => exact Or.inl (plain_stepSynchronizing w seat r)
  | tearingDown p turn l => exact Or.inl (plain_stepTearingDown w p turn l)
  | awaitingQuiet =>
    left
    simp only [World.step, World.stepAwaitingQuiet]
    split
    · exact .ended (by simp)
    · exact .wait
  | closing paths =>
    left
    simp only [World.step, World.stepClosing]
    split
    · exact plain_drainNext w paths
    · exact .wait
  | draining p turn rest => exact Or.inl (plain_stepDraining w p turn rest)
  | diskStat p c =>
    left
    cases c with
    | held g => exact plain_atGate (fun _ => rfl) w g
    | due => exact plain_answered _ (by simp) _
  | diskRead p c =>
    left
    cases c with
    | held g => exact plain_atGate (fun _ => rfl) w g
    | due => exact plain_answered _ (by simp) _
  | diskWrite p bytes c =>
    left
    cases c with
    | held g => exact plain_atGate (fun _ => rfl) w g
    | due => exact plain_answered _ (by simp) _
  | listening p id =>
    left
    simp only [World.step, World.stepListening]
    split
    · exact .ended (by simp)
    · exact .wait
  | pumping stream =>
    left
    simp only [World.step, World.stepPumping]
    split
    · exact .go
    · exact .ended (by simp)
    · exact .wait

/-! ## Tasks that let the others go first -/

theorem pauses_stepJoining (w : World) (p : Path) (id : SubscriberId) (joined : SignalId) (other : Option SignalId)
    (a : Activity) (h : (w.stepJoining p id joined other).2 = .pause a) : a.drain? = none := by
  unfold World.stepJoining at h
  dsimp only at h
  split at h
  · cases h
  · split at h
    · cases h
    · split at h
      · cases h
      · exact (plain_takePlace w _ _).pauses a h

theorem stepSettling_ne_pause (w : World) (seat : Seat) (signal : Option SignalId) (a : Activity) :
    (w.stepSettling seat signal).2 ≠ .pause a := by
  unfold World.stepSettling World.register
  split
  · simp
  · split
    · simp
    · split <;> simp

/-- no task that lets the others go first waits for a path to be idle -/
theorem pauses_step {a' : Activity} (h : (w.step a).2 = .pause a') : a'.drain? = none := by
  rcases plain_step w a with hp | ⟨p, id, joined, other, rfl⟩ | ⟨seat, signal, rfl⟩
  · exact hp.pauses a' h
  · exact pauses_stepJoining w p id joined other a' h
  · exact absurd h (stepSettling_ne_pause w seat signal a')

/-! ## Calls to watch -/

theorem snapshot_path (e : Entry) (p : Path) : (e.snapshot p).path = p := by
  unfold Entry.snapshot
  split <;> rfl

/-- A call to watch returns its entry as it is: the subscriber is registered there, or the call has settled. -/
theorem step_eq_snapshot {x : Snapshot} (h : (w.step a).2 = .ended (.ok (.snapshot x))) :
    ∃ e, w.entry? x.path = some e ∧ x = e.snapshot x.path ∧
      ((∃ id, e.registered.contains id = true) ∨ ∃ seat, seat.path = x.path ∧ w.settles a seat) := by
  rcases plain_step w a with hp | ⟨p, id, joined, other, rfl⟩ | ⟨seat, signal, rfl⟩
  · exact absurd h (hp.wordless x)
  · simp only [World.step, World.stepJoining] at h
    split at h
    · cases h
    · split at h
      · rename_i hreg
        have hx : ((w.entry? p).getD { spelling := p }).snapshot p = x := by cases h; rfl
        cases he : w.entry? p with
        | none =>
          rw [he] at hreg
          cases hreg
        | some e =>
          rw [he] at hreg hx
          have hp : x.path = p := by rw [← hx]; exact snapshot_path _ p
          exact ⟨e, hp ▸ he, by rw [hp]; exact hx.symm, Or.inl ⟨id, hreg⟩⟩
      · split at h
        · cases h
        · exact absurd h ((plain_takePlace w _ _).wordless x)
  · simp only [World.step, World.stepSettling] at h
    split at h
    · cases h
    · rename_i hgiven
      split at h
      · cases h
      · rename_i hun
        unfold World.register at h
        cases he : w.entry? seat.path with
        | none =>
          rw [he] at h
          cases h
        | some e =>
          rw [he] at h hun
          have hx : e.snapshot seat.path = x := by cases h; rfl
          have hp : x.path = seat.path := by rw [← hx]; exact snapshot_path _ _
          exact ⟨e, hp ▸ he, by rw [hp]; exact hx.symm,
            Or.inr ⟨seat, hp.symm, signal, e, rfl, by simpa using hgiven, he, hun⟩⟩

/-- a call to watch that settles returns its entry as it is -/
theorem step_of_settles {seat : Seat} (h : w.settles a seat) :
    ∃ x, (w.step a).2 = .ended (.ok (.snapshot x)) ∧ x.path = seat.path := by
  obtain ⟨signal, e, rfl, hgiven, he, hun⟩ := h
  simp only [World.step, World.stepSettling, hgiven, Bool.false_eq_true, if_false, he, Option.bind_some, hun,
    World.register]
  exact ⟨_, rfl, snapshot_path _ _⟩

theorem settles_floorTo (w : World) (id : TaskId) (a : Activity) (seat : Seat) :
    (floorTo w id).settles a seat = w.settles a seat := by
  unfold floorTo
  split <;> rfl

end LiveFiles.Engine
