/-
The sections of all tasks as chains of effects.
- **`runs_step`**: a section of any task is a chain of effects, with marks that occur there.
- **`does_abandon`**: so is what a cancelled task lets go of, with marks that are left by being cancelled.
Shutting down and the streams of events come first.
-/
import LiveFiles.Proofs.Watch
import LiveFiles.Proofs.Write

namespace LiveFiles.Engine

variable {E : Mark → Prop} {w w' : World} {s : Stake}

/-! ## Shutting down, streams, the end of a task -/

theorem does_stopListeners (w : World) (e : Entry) (s : Stake) : Does E w s (w.stopListeners e) s := by
  unfold World.stopListeners
  generalize e.registered.values = rs
  induction rs generalizing w with
  | nil => exact .refl w s
  | cons r rs ih => exact .trans (.aside (core_cancelIf w _) (ripple_cancelIf w _)) (ih _)

theorem does_retire (w : World) (e : Entry) (s : Stake) : Does E w s (w.retire e) s := by
  unfold World.retire
  dsimp only
  split
  · exact (does_stopListeners w e s).then rfl (.rest rfl rfl rfl (.refl _))
  · exact does_stopListeners w e s

theorem does_foldl_retire (w : World) (es : List Entry) (s : Stake) : Does E w s (es.foldl World.retire w) s := by
  induction es generalizing w with
  | nil => exact .refl w s
  | cons e es ih => exact (does_retire w e s).trans (ih _)

/-- all entries lose their subscribers -/
theorem does_retireAll (w : World) (s : Stake) :
    Does E w s { w with entries := w.entries.map fun _ e => World.Entry.retired e, pool := w.pool.close } s := by
  refine .effect (.places (w.entries.map fun _ e => World.Entry.retired e) (fun k => ?_) fun k e e' he he' id h => ?_)
    rfl (.rest rfl rfl rfl (.refl _))
  · rw [Table.get?_map]
    simp only [World.core]
    cases w.entries.get? k <;> rfl
  · rw [Table.get?_map] at he'
    obtain ⟨e₁, -, rfl⟩ := Option.map_eq_some_iff.1 he'
    simp [World.Entry.retired, Table.contains] at h

theorem runs_requestShutDown (w : World) : Runs E w { closing := true } Activity.view {} w.requestShutDown := by
  unfold World.requestShutDown
  have h1 : Does E w { closing := true } { w with isShutDown := true } { closing := true } :=
    .aside rfl (.rest rfl rfl rfl (.refl _))
  have h2 := h1.then (core_cancelIf _ w.pump) (ripple_cancelIf _ w.pump)
  have h3 : Does E w { closing := true } { ({ w with isShutDown := true }.cancelIf w.pump) with pump := none }
      { closing := true } := h2.then rfl (.rest rfl rfl rfl (.refl _))
  exact .go ((h3.trans (does_foldl_retire _ _ _)).trans (does_retireAll _ _))

theorem runs_drainNext (w : World) (paths : List Path) :
    Runs E w { closing := true } Activity.view {} (w.drainNext paths) := by
  cases paths with
  | nil =>
    have h1 : Does E w { closing := true } { w with entries := .empty } { closing := true } :=
      .effect (.clear rfl) rfl (.rest rfl rfl rfl (.refl _))
    exact .ended (h1.trans (.effect (.quit rfl) rfl (.refl _)))
  | cons p rest => exact .go (.refl w _)

theorem runs_stepClosing (w : World) (paths : List Path) :
    Runs E w { closing := true } Activity.view {} (w.stepClosing paths) := by
  unfold World.stepClosing
  split
  · exact runs_drainNext w paths
  · exact .wait (.refl w _) (waits_quiet w _)

theorem runs_stepDraining (hw : w.Reserved) (p : Path) (turn : Option Turn) (rest : List Path) :
    Runs E w { errand := drainErrand p turn, closing := true } Activity.view {} (w.stepDraining p turn rest) := by
  have h := runs_awaitIdle (E := E) (s := { errand := drainErrand p turn, closing := true }) hw rfl
  unfold World.stepDraining
  rcases hx : w.awaitIdle p turn with ⟨w', t | t | t | u⟩ <;> rw [hx] at h <;> dsimp only
  · exact .go h.does
  · exact .wait h.does (h.waits t rfl)
  · exact .pause h.does
  · exact .after h.does (runs_drainNext w' rest)

theorem runs_stepPumping (w : World) (x : StreamId) : Runs E w {} Activity.view {} (w.stepPumping x) := by
  unfold World.stepPumping
  split
  · rename_i ev c _
    have h1 : Does E w {} { w with streams := w.streams.insert x c } {} := .aside rfl (.rest rfl rfl rfl (.refl _))
    exact .go (h1.then (core_inBackground _ _) (ripple_inBackground _ _ (by simp)))
  · exact .ended (.aside rfl (.rest rfl rfl rfl (.refl _)))
  · have hno : Waits w (.message x) none := waits_event (by simp) (by simp) (by simp) none
    exact .wait (.refl w _) hno

theorem does_finish (w : World) (id : TaskId) (role : Role) (e : Ending) (s : Stake) :
    Does E w s (w.finish id role e) s := by
  cases role with
  | caller => exact .aside rfl (.rest rfl rfl rfl (.refl _))
  | background =>
    have h1 : Ripple w { w with pool := w.pool.finish } := .rest rfl rfl rfl (.refl _)
    exact .aside rfl (h1.trans (ripple_wake _ _))
  | service => exact .refl w s

/-! ## Any task -/

theorem Runs.ofPart {σ α : Type} {view : View σ} {d : Stake} {x : World × Section σ (Except Problem α)}
    {phase : σ → Activity} {answer : α → Answer} (h : Runs E w s view d x) (hp : ∀ r, (phase r).view = view r)
    (hd : d = {}) : Runs E w s Activity.view {} (Engine.ofPart phase answer x) := by
  subst hd
  have hv : view = fun r => (phase r).view := funext fun r => (hp r).symm
  subst hv
  rcases x with ⟨w', r | r | r | o⟩
  · exact .go h.does
  · exact .wait h.does (h.waits r rfl)
  · exact .pause h.does
  · exact .ended h.does

/-- the first section of a task -/
theorem runs_begin (hw : w.Reserved) (r : Request) :
    Runs E w (Activity.starting r).stake Activity.view {} (w.begin r) := by
  cases r with
  | watch p id => exact runs_requestWatch w p id
  | unwatch p id => exact runs_unwatch w p id
  | write p bytes => exact (runs_requestSave hw rfl p bytes).ofPart (fun _ => rfl) rfl
  | reconcile p => exact (runs_requestRefresh hw rfl p).ofPart (fun _ => rfl) rfl
  | release p => exact runs_releasePlace w p .abandoned
  | waitIdle => exact .go (.refl w _)
  | shutDown => exact runs_requestShutDown w
  | diskStat p => exact runs_beginCall (fun _ => rfl) _ _
  | diskRead p => exact runs_beginCall (fun _ => rfl) _ _
  | diskWrite p bytes => exact runs_beginCall (fun _ => rfl) _ _

/-- **A section of any task is a chain of effects**, with marks that occur there; a task that goes to wait has reason
to. -/
theorem runs_step (hw : w.Reserved) (a : Activity) : Runs (Occurs w a) w a.stake Activity.view {} (w.step a) := by
  cases a with
  | starting r => exact runs_begin hw r
  | refreshing r =>
    exact (runs_stepRefresh (s := { errand := r.errand }) rfl (fun l o hl ho => ⟨r, l, rfl, hl, rfl, ho⟩)
      (fun p st h => ⟨p, st, h, rfl⟩) fun l hl hf => Or.inl ⟨r, l, rfl, hl, rfl, hf⟩).ofPart (fun _ => rfl) rfl
  | saving x =>
    exact (runs_stepSave (s := { errand := x.errand }) rfl (fun m hm he => ⟨x, rfl, rfl, rfl, hm, he⟩)
      fun hw hf => Or.inr ⟨x, rfl, rfl, hw, hf⟩).ofPart (fun _ => rfl) rfl
  | joining p id joined other => exact runs_stepJoining hw (fun h => h) id joined other
  | synchronizing seat r =>
    exact runs_stepSynchronizing (fun l o hl ho => ⟨r, l, rfl, hl, rfl, ho⟩) (fun p st h => ⟨p, st, h, rfl⟩)
      fun l hl hf => Or.inl ⟨r, l, rfl, hl, rfl, hf⟩
  | settling seat signal => exact runs_stepSettling fun h => ⟨seat, h, rfl⟩
  | tearingDown p turn l => exact runs_stepTearingDown hw p turn l
  | awaitingQuiet =>
    simp only [World.step, World.stepAwaitingQuiet]
    split
    · exact .ended (.refl w _)
    · exact .wait (.refl w _) (waits_quiet w _)
  | closing paths => exact runs_stepClosing w paths
  | draining p turn rest => exact runs_stepDraining hw p turn rest
  | diskStat p c =>
    cases c with
    | held g => exact runs_atGate (fun _ => rfl) g
    | due => exact .ended (does_leaveDisk w p {})
  | diskRead p c =>
    cases c with
    | held g => exact runs_atGate (fun _ => rfl) g
    | due => exact .ended (does_leaveDisk w p {})
  | diskWrite p bytes c =>
    cases c with
    | held g => exact runs_atGate (fun _ => rfl) g
    | due =>
      have h1 : ∀ E, Does E w {} { w with disk := (w.disk.write p bytes).1 } {} :=
        fun _ => .aside rfl (.rest rfl rfl rfl (Disk.later_write w.disk p bytes))
      exact .ended ((h1 _).trans (does_leaveDisk _ p {}))
  | listening p id => exact runs_stepListening w p id
  | pumping x => exact runs_stepPumping w x

theorem does_giveBackIf {p : Path} {turn : Option Turn} (hs : s.errand = drainErrand p turn) :
    Does E w s (w.giveBackIf turn) { s with errand := .idle } := by
  cases turn with
  | none => exact .effect (.rest (by rw [hs]; rfl)) rfl (.refl w)
  | some τ => exact .effect (.undrain hs) (core_giveBack w τ) (ripple_giveBack w τ)

/-- **What a cancelled task lets go of is a chain of effects**, with marks that being cancelled leaves. -/
theorem does_abandon (w : World) (a : Activity) : Does (Forgone w a) w a.stake (w.abandon a) {} := by
  have hquit : a.stake.errand.turn? = none → Does (Forgone w a) w a.stake w {} := fun h => .effect (.quit h) rfl (.refl w)
  cases a with
  | refreshing r =>
    exact does_dropRefresh (s := { errand := r.errand }) rfl
      (fun p q τ e hr he hq => ⟨p, q, τ, e, by rw [hr]; rfl, rfl, he, hq⟩) fun l hl => Or.inl ⟨r, l, rfl, hl, rfl⟩
  | saving x => exact does_dropSave (s := { errand := x.errand }) rfl fun hx => Or.inr ⟨x, rfl, rfl, hx⟩
  | synchronizing seat r =>
    exact (does_dropRefresh (s := { errand := r.errand, joined := some seat.joined }) rfl
      (fun p q τ e hr he hq => ⟨p, q, τ, e, by rw [hr]; rfl, rfl, he, hq⟩)
      fun l hl => Or.inl ⟨r, l, rfl, hl, rfl⟩).trans (does_abandonSeat rfl)
  | settling seat signal =>
    have hrest : Does (Forgone w (.settling seat signal)) w
        { errand := settleErrand seat.path signal, joined := some seat.joined } w { joined := some seat.joined } :=
      .effect (.rest (by cases signal <;> rfl)) rfl (.refl w)
    exact hrest.trans (does_abandonSeat rfl)
  | tearingDown p turn l =>
    cases l with
    | failed seat e =>
      exact (does_giveBackIf (s := { errand := drainErrand p turn, joined := some seat.joined }) rfl).trans
        (does_endSeat rfl)
    | unwatched => exact does_giveBackIf (s := { errand := drainErrand p turn }) rfl
    | abandoned => exact does_giveBackIf (s := { errand := drainErrand p turn }) rfl
  | draining p turn rest =>
    exact (does_giveBackIf (s := { errand := drainErrand p turn, closing := true }) rfl).trans
      (.effect (.quit rfl) rfl (.refl _))
  | diskStat p c => exact does_leaveDisk w p {}
  | diskRead p c => exact does_leaveDisk w p {}
  | diskWrite p bytes c => exact does_leaveDisk w p {}
  | pumping x => exact .aside rfl (.rest rfl rfl rfl (.refl _))
  | starting r => exact hquit (by cases r <;> rfl)
  | joining p id joined other => exact hquit rfl
  | awaitingQuiet => exact hquit rfl
  | closing paths => exact hquit rfl
  | listening p id => exact hquit rfl

end LiveFiles.Engine
