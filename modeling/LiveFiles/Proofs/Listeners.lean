/-
Who listens for a subscriber's leaving. A registration comes with a task that waits until the subscriber leaves, and goes with
it: whoever takes the registration away cancels the task.
- `enrols_step`: what a section does to the tasks that there are (`Enrols`).
- `runnable_move`: whoever can go on can do so until it gets the floor.
- `cancelled_move`: who is cancelled in a move (`World.dismissed?`); whoever is, can go on.
-/
import LiveFiles.Proofs.Deliveries
import LiveFiles.Proofs.Standoff
import LiveFiles.Proofs.Watching

namespace LiveFiles.Engine

variable {w w' w'' : World} {m : Move} {id j : TaskId} {t t' : Task Phase} {a b : Activity} {p q : Path} {k : Path.Key}
  {x : SubscriberId} {P : Phase → Prop}

/-! ## Whoever can go on -/

theorem runnable_of_grows (hg : w.tasks.Grows P w'.tasks) (h : w.runnable j = true) : w'.runnable j = true := by
  rw [runnable_iff] at h ⊢
  exact h.imp (fun hr => hg.ready hr) fun hf => hg.floor.trans hf

theorem runnable_serve (hw : Wf w) (hne : j ≠ id) (h : w.runnable j = true) : (serve w id).runnable j = true := by
  by_cases hgo : canGo w id = true
  · -- nobody has the floor, or it is `id` that has it
    have hready : j ∈ (floorTo w id).tasks.ready := by
      refine mem_ready_floorTo hne ?_
      rcases runnable_iff.1 h with hr | hf
      · exact hr
      · simp only [canGo_eq, hf, decide_eq_true_eq] at hgo
        exact absurd hgo hne
    rw [runnable_iff]
    left
    cases hs : w.served? id with
    | none =>
      rw [serve_of_ended hgo (by simpa [World.served?, hgo] using hs)]
      exact hready
    | some t =>
      cases hc : t.cancelled with
      | true => exact (does_cancelled hs hc).ripple.grows.ready hready
      | false =>
        rw [serve_of_section hs hc]
        refine Tasks.ready_record _ _ _ ?_
        exact (runs_advance (wf_floorTo hw hgo).reserved id t.phase).does.ripple.grows.ready hready
  · rw [show serve w id = w by simp [serve, hgo]]
    exact h

theorem runnable_outside (hm : ∀ i, m ≠ .turn i) (h : w.runnable j = true) : (w.move m).runnable j = true := by
  by_cases hcall : ∃ r, m = .call r
  · obtain ⟨r, rfl⟩ := hcall
    simp only [World.move]
    split
    · exact runnable_of_grows (Tasks.grows_spawn (P := fun _ => True) _ trivial) h
    · exact h
  · exact runnable_of_grows (outside_move w hm fun r e => hcall ⟨r, e⟩).2.grows h

/-- **Whoever can go on can do so until it gets the floor.** -/
theorem runnable_move (hw : Wf w) (hs : w.serves m j = false) (h : w.runnable j = true) : (w.move m).runnable j = true := by
  by_cases hturn : ∃ i, m = .turn i
  · obtain ⟨i, rfl⟩ := hturn
    by_cases hij : j = i
    · subst hij
      have hgo : canGo w j = false := by simpa [World.serves] using hs
      rw [World.move, show serve w j = w by simp [serve, hgo]]
      exact h
    · exact runnable_serve hw hij h
  · exact runnable_outside (fun i e => hturn ⟨i, e⟩) h

/-! ## What a section does to the tasks that there are -/

theorem roll_cancelIf {y : Option TaskId} (h : w'.roll = w.roll) : (w'.cancelIf y).roll = (w.cancelIf y).roll := by
  cases y with
  | none => exact h
  | some y =>
    have hlive : w'.tasks.live = w.tasks.live := congrArg Roll.live h
    have hnext : w'.tasks.next = w.tasks.next := congrArg Roll.next h
    have hpump : w'.pump = w.pump := congrArg Roll.pump h
    simp only [World.roll, World.cancelIf, World.cancel, Tasks.cancel, hlive]
    split
    · simp only [Tasks.live_enqueue, Tasks.next_enqueue, hnext, hpump]
    · simp only [hlive, hnext, hpump]

theorem roll_spawn {role : Role} (h : w'.roll = w.roll) : (w'.spawn role a).2.roll = (w.spawn role a).2.roll := by
  have hlive : w'.tasks.live = w.tasks.live := congrArg Roll.live h
  have hnext : w'.tasks.next = w.tasks.next := congrArg Roll.next h
  have hpump : w'.pump = w.pump := congrArg Roll.pump h
  simp only [World.roll, World.spawn, Tasks.spawn, hlive, hnext, hpump]

/-- a task that is cancelled can go on -/
theorem runnable_cancelIf {y : Option TaskId} (hy : y = some j) (hlive : (w.tasks.live.get? j).isSome) :
    (w.cancelIf y).runnable j = true := by
  subst hy
  have hcontains : w.tasks.live.contains j = true := hlive
  rw [runnable_iff]
  simp only [World.cancelIf, World.cancel, Tasks.cancel, hcontains, if_true]
  exact Tasks.mem_ready_enqueue _ _

/-- What a section of a task in phase `a` does to the tasks that there are. -/
inductive Enrols (w : World) (a : Activity) (w' : World) : Prop
  | same (h : w'.roll = w.roll)
  | starts (role : Role) (y : Request) (h : w'.roll = (w.spawn role (.starting y)).2.roll)
  /-- a registration is taken away, and the task that listens is cancelled -/
  | unwatches (p : Path) (x : SubscriberId) (e : Entry) (r : Registration) (ha : a = .starting (.unwatch p x))
      (he : w.entry? p = some e) (hx : e.registered.get? x = some r) (h : w'.roll = (w.cancelIf r.listener).roll)
      (hgo : ∀ j, r.listener = some j → (w.tasks.live.get? j).isSome → w'.runnable j = true)
  /-- a place becomes a registration, with a task that listens; that of a registration which is replaced is cancelled -/
  | registers (seat : Seat) (signal : Option SignalId) (e : Entry) (f : Face) (ha : a = .settling seat signal)
      (he : w.entry? seat.path = some e)
      (h : w'.roll = ((w.listen seat.path seat.subscriber).2.cancelIf
        ((e.registered.get? seat.subscriber).bind Registration.listener)).roll)
      (hgo : ∀ j, (e.registered.get? seat.subscriber).bind Registration.listener = some j →
        ((w.listen seat.path seat.subscriber).2.tasks.live.get? j).isSome → w'.runnable j = true)
      (hf : w'.front.face? seat.path.key = some f)
      (hx : f.registered = e.registered.insert seat.subscriber ⟨(w.listen seat.path seat.subscriber).1⟩)

theorem roll_inBackground (h : w'.roll = w.roll) (r : Request) :
    (w'.inBackground r).roll = w.roll ∨ (w'.inBackground r).roll = (w.spawn .background (.starting r)).2.roll := by
  unfold World.inBackground
  split
  · exact Or.inl h
  · rename_i pool _
    exact Or.inr (roll_spawn ((roll_wake { w' with pool } .quiet).trans h))

theorem enrols_inBackground (h : w'.roll = w.roll) (r : Request) : Enrols w a (w'.inBackground r) :=
  (roll_inBackground h r).elim .same (.starts .background r)

theorem enrols_failSave (h : w'.roll = w.roll) (job : SaveJob) (y : Problem) : Enrols w a (w'.failSave job y).1 := by
  have hroll : ((w'.giveBack job.turn).giveIf job.waiters).roll = w.roll := by simpa using h
  unfold World.failSave
  dsimp only
  split
  · exact enrols_inBackground ((roll_forgetRevoked _ _).trans hroll) _
  · exact .same hroll

theorem enrols_stepSave (w : World) (y : Save) : Enrols w a (w.stepSave y).1 := by
  match y with
  | .queued job =>
    simp only [World.stepSave]
    split
    · exact .same (roll_beginCall _ _ _ _)
    · exact .same rfl
  | .writing job (.held g) => exact .same (roll_atGate w g _)
  | .writing job .due =>
    have h : ∀ d : Disk, ({ w with disk := d }.leaveDisk job.path).roll = w.roll := fun _ => rfl
    simp only [World.stepSave, World.haveWritten]
    split
    · exact enrols_failSave (h _) job _
    · exact .same (roll_beginCall _ _ _ _)
  | .looking job (.held g) => exact .same (roll_atGate w g _)
  | .looking job .due =>
    have h : (w.leaveDisk job.path).roll = w.roll := rfl
    simp only [World.stepSave, World.haveLookedUp]
    split
    · exact enrols_failSave h job _
    · exact enrols_failSave h job _
    · exact .same (roll_commitSave _ job _)

/-- giving a place back on leaving is about the entry and the watcher only -/
theorem tasks_releasePlace (w : World) (p : Path) : (w.releasePlace p .unwatched).1.tasks = w.tasks := by
  unfold World.releasePlace
  split
  · rfl
  · dsimp only
    split
    · split <;> rfl
    · rfl

/-- a subscriber that is registered is not listened for any more when it leaves -/
theorem roll_unwatch {e : Entry} {r : Registration} (he : w.entry? p = some e) (hr : e.registered.get? x = some r) :
    (w.unwatch p x).1.roll = (w.cancelIf r.listener).roll := by
  simp only [World.unwatch, he, hr]
  exact (roll_releasePlace _ p _).trans (roll_cancelIf rfl)

theorem enrols_unwatch (w : World) (p : Path) (x : SubscriberId) :
    Enrols w (.starting (.unwatch p x)) (w.unwatch p x).1 := by
  cases he : w.entry? p with
  | none => exact .same (by simp only [World.unwatch, he])
  | some e =>
    cases hr : e.registered.get? x with
    | none => exact .same (by simp only [World.unwatch, he, hr])
    | some r =>
      refine .unwatches p x e r rfl he hr (roll_unwatch he hr) fun j hj hlive => ?_
      let w₁ := w.setEntry p { e with registered := e.registered.erase x }
      have hrun : (w₁.cancelIf r.listener).runnable j = true := runnable_cancelIf hj hlive
      simp only [World.unwatch, he, hr]
      rw [runnable_iff, tasks_releasePlace]
      exact runnable_iff.1 hrun

/-- what it is to register a subscriber at an entry -/
theorem register_eq {e : Entry} {seat : Seat} (he : w.entry? seat.path = some e) : ∃ e', (w.register seat).1 =
      (((w.listen seat.path seat.subscriber).2.cancelIf
        ((e.registered.get? seat.subscriber).bind Registration.listener)).setEntry seat.path e').endSeat seat ∧
    e'.registered = e.registered.insert seat.subscriber ⟨(w.listen seat.path seat.subscriber).1⟩ ∧ e'.bare = e.bare := by
  simp only [World.register, he]
  cases e.registered.get? seat.subscriber <;> exact ⟨_, rfl, rfl, rfl⟩

theorem roll_register {e : Entry} {seat : Seat} (he : w.entry? seat.path = some e) : (w.register seat).1.roll =
    ((w.listen seat.path seat.subscriber).2.cancelIf
      ((e.registered.get? seat.subscriber).bind Registration.listener)).roll := by
  obtain ⟨e', heq, -⟩ := register_eq he
  rw [heq, roll_endSeat, roll_setEntry]

theorem enrols_register (w : World) (seat : Seat) (signal : Option SignalId) :
    Enrols w (.settling seat signal) (w.register seat).1 := by
  cases he : w.entry? seat.path with
  | none =>
    refine .same ?_
    simp only [World.register, he]
    exact roll_endSeat w seat
  | some e =>
    obtain ⟨e', heq, hx, -⟩ := register_eq he
    refine .registers seat signal e (e'.face.unseat seat.subscriber seat.joined) rfl he (roll_register he) ?_ ?_
      ((Face.registered_unseat _ _ _).trans hx)
    · intro j hj hlive
      have hrun := runnable_cancelIf hj hlive
      rw [heq]
      exact runnable_of_grows (P := fun _ => True) (steady_endSeat _ seat).tasks (runnable_iff.2 (runnable_iff.1 hrun))
    · rw [heq, front_endSeat, Front.face?_unseat, if_pos rfl, front_setEntry, Front.face?_put, if_pos rfl, Option.map_some]

theorem enrols_stepSettling (w : World) (seat : Seat) (signal : Option SignalId) :
    Enrols w (.settling seat signal) (w.stepSettling seat signal).1 := by
  unfold World.stepSettling
  split
  · exact .same rfl
  · split
    · exact .same rfl
    · exact enrols_register w seat signal

theorem enrols_stepSynchronizing (w : World) (seat : Seat) (r : Refresh) : Enrols w a (w.stepSynchronizing seat r).1 := by
  have h := roll_stepRefresh w r
  refine .same ?_
  unfold World.stepSynchronizing
  rcases hx : w.stepRefresh r with ⟨w', y | y | y | (e | b)⟩ <;> rw [hx] at h
  · exact h
  · exact h
  · exact h
  · exact (roll_releasePlace w' _ _).trans h
  · exact h

/-- **What a section does to the tasks that there are**, unless it shuts the engine down. -/
theorem enrols_step (w : World) (ha : a ≠ .starting .shutDown) : Enrols w a (w.step a).1 := by
  have hcall : ∀ op p (f : Call → Activity), Enrols w a (w.beginCall (α := Outcome) op p f).1 := fun op p f =>
    .same (roll_beginCall w op p f)
  cases a with
  | starting y =>
    cases y with
    | watch p id =>
      simp only [World.step, World.begin, World.requestWatch]
      split <;> exact .same rfl
    | unwatch p id => exact enrols_unwatch w p id
    | write p bytes => exact .same ((congrArg World.roll (fst_ofPart _ _ _)).trans (roll_requestSave w p bytes))
    | reconcile p => exact .same ((congrArg World.roll (fst_ofPart _ _ _)).trans (roll_requestRefresh w p))
    | release p => exact .same (roll_releasePlace w p _)
    | waitIdle => exact .same rfl
    | shutDown => exact absurd rfl ha
    | diskStat p => exact hcall _ _ _
    | diskRead p => exact hcall _ _ _
    | diskWrite p bytes => exact hcall _ _ _
  | refreshing r => exact .same ((congrArg World.roll (fst_ofPart _ _ _)).trans (roll_stepRefresh w r))
  | saving y =>
    simp only [World.step, fst_ofPart]
    exact enrols_stepSave w y
  | joining p id joined other => exact .same (roll_stepJoining w p id joined other)
  | synchronizing seat r => exact enrols_stepSynchronizing w seat r
  | settling seat signal => exact enrols_stepSettling w seat signal
  | tearingDown p turn l => exact .same (roll_stepTearingDown w p turn l)
  | awaitingQuiet =>
    simp only [World.step, World.stepAwaitingQuiet]
    split <;> exact .same rfl
  | closing paths =>
    simp only [World.step, World.stepClosing]
    split
    · exact .same (roll_drainNext w paths)
    · exact .same rfl
  | draining p turn rest =>
    have h := roll_awaitIdle w p turn
    refine .same ?_
    simp only [World.step, World.stepDraining]
    rcases hx : w.awaitIdle p turn with ⟨w', y | y | y | u⟩ <;> rw [hx] at h
    · exact h
    · exact h
    · exact h
    · exact (roll_drainNext w' rest).trans h
  | diskStat p c => cases c <;> first | exact .same (roll_atGate w _ _) | exact .same rfl
  | diskRead p c => cases c <;> first | exact .same (roll_atGate w _ _) | exact .same rfl
  | diskWrite p bytes c => cases c <;> first | exact .same (roll_atGate w _ _) | exact .same rfl
  | listening p id =>
    simp only [World.step, World.stepListening]
    split
    · exact enrols_inBackground rfl _
    · exact .same rfl
  | pumping y =>
    simp only [World.step, World.stepPumping]
    split
    · rename_i ev c _
      have h : World.roll { w with streams := w.streams.insert y c } = w.roll := rfl
      exact enrols_inBackground h _
    · exact .same rfl
    · exact .same rfl

/-- the end of a cancelled task starts one at most -/
theorem enrols_abandon (w : World) (b a : Activity) : Enrols w b (w.abandon a) := by
  cases a with
  | refreshing r => exact .same (roll_dropRefresh w r)
  | saving y => exact .same (roll_dropSave w y)
  | synchronizing seat r => exact enrols_inBackground ((roll_endSeat _ seat).trans (roll_dropRefresh w r)) _
  | settling seat signal => exact enrols_inBackground (roll_endSeat w seat) _
  | tearingDown p turn l =>
    cases l with
    | failed seat e => exact .same ((roll_endSeat _ seat).trans (roll_giveBackIf w turn))
    | unwatched => exact .same (roll_giveBackIf w turn)
    | abandoned => exact .same (roll_giveBackIf w turn)
  | draining p turn rest => exact .same (roll_giveBackIf w turn)
  | _ => exact .same rfl

/-! ## Who is cancelled -/

/-- the listener of the registration that a section takes away, or may replace -/
def World.quits? (w : World) : Activity → Option TaskId
  | .starting (.unwatch p x) => ((w.entry? p).bind (·.registered.get? x)).bind (·.listener)
  | .settling seat _ => ((w.entry? seat.path).bind (·.registered.get? seat.subscriber)).bind (·.listener)
  | _ => none

/-- the task that a move may cancel -/
def World.dismissed? (w : World) : Move → Option TaskId
  | .turn id => (w.carried? (.turn id)).bind fun y => w.quits? y.2
  | .cancel id => some id
  | .attachStream => w.pump
  | _ => none

theorem live_of_roll (h : w'.roll = w.roll) : w'.tasks.live = w.tasks.live := congrArg Roll.live h

/-- who is cancelled at once -/
theorem cancelled_cancelIf {y : Option TaskId} (h : (w.cancelIf y).tasks.live.get? j = some t') :
    ∃ t, w.tasks.live.get? j = some t ∧ t'.phase = t.phase ∧ (t'.cancelled = true ↔ y = some j ∨ t.cancelled = true) := by
  cases y with
  | none => exact ⟨t', h, rfl, by simp⟩
  | some y =>
    simp only [World.cancelIf, World.cancel, Tasks.cancel] at h
    split at h
    · rw [Tasks.live_enqueue, Table.get?_modify] at h
      split at h
      · next hj =>
        obtain ⟨t, ht, rfl⟩ := Option.map_eq_some_iff.1 h
        exact ⟨t, ht, rfl, by simp [hj]⟩
      · next hj =>
        exact ⟨t', h, rfl, by simp [hj]⟩
    · next hno =>
      refine ⟨t', h, rfl, ?_⟩
      have hj : y ≠ j := by
        rintro rfl
        exact hno (by simp [Table.contains, h])
      simp [hj]

/-- a new task has not been cancelled -/
theorem cancelled_spawn {role : Role} (h : (w.spawn role b).2.tasks.live.get? j = some t') :
    w.tasks.live.get? j = some t' ∨ j = w.tasks.next ∧ t' = ⟨⟨role, b⟩, false⟩ := by
  simp only [World.spawn, Tasks.spawn, Table.get?_insert] at h
  split at h
  · next hj => exact Or.inr ⟨hj.symm, (Option.some.inj h).symm⟩
  · exact Or.inl h

theorem cancelled_listen (h : (w.listen p x).2.tasks.live.get? j = some t') :
    w.tasks.live.get? j = some t' ∨ (w.listen p x).1 = some j ∧ j = w.tasks.next ∧
      t' = ⟨⟨.service, .listening p x⟩, false⟩ := by
  unfold World.listen at h ⊢
  split at h
  · exact Or.inl h
  · next hopen =>
    refine (cancelled_spawn h).imp_right fun hnew => ⟨?_, hnew⟩
    rw [if_neg hopen, hnew.1]
    rfl

/-! ### Shutting down -/

/-- Tasks are in their phases, and only those of which `X` holds have been cancelled meanwhile. -/
structure Halts (X : TaskId → Prop) (w w' : World) : Prop where
  task : ∀ j t', w'.tasks.live.get? j = some t' → ∃ t, w.tasks.live.get? j = some t ∧ t'.phase = t.phase ∧
    (t.cancelled = true → t'.cancelled = true) ∧ (t'.cancelled = true → t.cancelled = true ∨ X j)
  pump : w'.pump = w.pump

theorem Halts.of_roll {X : TaskId → Prop} (h : w'.roll = w.roll) : Halts X w w' where
  task _ t' ht' := ⟨t', live_of_roll h ▸ ht', rfl, id, Or.inl⟩
  pump := congrArg Roll.pump h

theorem Halts.trans {X : TaskId → Prop} (h : Halts X w w') (h' : Halts X w' w'') : Halts X w w'' where
  task j t'' ht'' := by
    obtain ⟨t', ht', hphase', hkept', hnew'⟩ := h'.task j t'' ht''
    obtain ⟨t, ht, hphase, hkept, hnew⟩ := h.task j t' ht'
    exact ⟨t, ht, hphase'.trans hphase, fun hc => hkept' (hkept hc), fun hc => (hnew' hc).elim hnew Or.inr⟩
  pump := h'.pump.trans h.pump

theorem halts_cancelIf {X : TaskId → Prop} {y : Option TaskId} (hX : ∀ j, y = some j → X j) (w : World) :
    Halts X w (w.cancelIf y) where
  task j t' ht' := by
    obtain ⟨t, ht, hphase, hiff⟩ := cancelled_cancelIf ht'
    exact ⟨t, ht, hphase, fun hc => hiff.2 (Or.inr hc), fun hc => (hiff.1 hc).symm.imp_right (hX j)⟩
  pump := by cases y <;> rfl

theorem halts_stopListeners {X : TaskId → Prop} {e : Entry} (hX : ∀ r ∈ e.registered.values, ∀ j, r.listener = some j → X j)
    (w : World) : Halts X w (w.stopListeners e) := by
  unfold World.stopListeners
  generalize e.registered.values = rs at hX
  induction rs generalizing w with
  | nil => exact .of_roll rfl
  | cons r rs ih =>
    exact (halts_cancelIf (hX r List.mem_cons_self) w).trans (ih _ fun r' hr => hX r' (List.mem_cons_of_mem r hr))

theorem halts_foldl_retire {X : TaskId → Prop} {es : List Entry}
    (hX : ∀ e ∈ es, ∀ r ∈ e.registered.values, ∀ j, r.listener = some j → X j) (w : World) :
    Halts X w (es.foldl World.retire w) := by
  induction es generalizing w with
  | nil => exact .of_roll rfl
  | cons e es ih =>
    have hstop := halts_stopListeners (hX e List.mem_cons_self) w
    have hone : Halts X w (w.retire e) := by
      unfold World.retire
      dsimp only
      split
      · exact hstop.trans (.of_roll rfl)
      · exact hstop
    exact hone.trans (ih (fun e' he => hX e' (List.mem_cons_of_mem e he)) _)

/-- **Shutting down cancels the pump and those who listen**, and nobody else; then there is no pump any more. -/
theorem halts_requestShutDown (w : World) :
    Halts w.Listens { w.cancelIf w.pump with pump := none } w.requestShutDown.1 := by
  have hlisten : ∀ e ∈ w.entries.values, ∀ r ∈ e.registered.values, ∀ j, r.listener = some j → w.Listens j := by
    intro e he r hr j hj
    obtain ⟨⟨k, e'⟩, hrow, rfl⟩ := List.mem_map.1 he
    obtain ⟨⟨x, r'⟩, hrow', rfl⟩ := List.mem_map.1 hr
    exact ⟨k, e', x, r', Table.get?_eq_some_iff.2 hrow, Table.get?_eq_some_iff.2 hrow', hj⟩
  let w₀ : World := { World.cancelIf { w with isShutDown := true } w.pump with pump := none }
  have hentries : w₀.entries = w.entries := (aside_cancelIf { w with isShutDown := true } w.pump).entries
  have hretire : Halts w.Listens w₀ (w₀.inOrder.foldl World.retire w₀) :=
    halts_foldl_retire (fun e he => hlisten e (hentries ▸ (World.perm_inOrder w₀).mem_iff.1 he)) w₀
  have hroll : w₀.roll = World.roll { w.cancelIf w.pump with pump := none } := by
    show World.roll { World.cancelIf { w with isShutDown := true } w.pump with pump := none } = _
    cases w.pump <;> rfl
  exact (Halts.of_roll hroll).trans (hretire.trans (.of_roll rfl))

/-- whoever is the pump when the engine is shut down can go on -/
theorem runnable_requestShutDown (hj : w.pump = some j) (hlive : (w.tasks.live.get? j).isSome) :
    w.requestShutDown.1.runnable j = true := by
  let w₀ : World := { World.cancelIf { w with isShutDown := true } w.pump with pump := none }
  have hrun : w₀.runnable j = true := by
    have hcancel := runnable_cancelIf (w := { w with isShutDown := true }) hj hlive
    exact runnable_iff.2 (runnable_iff.1 hcancel)
  have hgrows := ((foldl_retire w₀.inOrder w₀).2.1 fun _ => True).tasks
  exact runnable_iff.2 (runnable_iff.1 (runnable_of_grows hgrows hrun))

/-! ### Any other section -/

/-- **Whoever is cancelled in a section listens for somebody who leaves there, and can go on.** -/
theorem Enrols.cancelled (h : Enrols w a w') (ht : w'.tasks.live.get? j = some t') (hc : t'.cancelled = true) :
    (∃ t, w.tasks.live.get? j = some t ∧ t.cancelled = true) ∨ w.quits? a = some j ∧ w'.runnable j = true := by
  cases h with
  | same h => exact Or.inl ⟨t', live_of_roll h ▸ ht, hc⟩
  | starts role b h =>
    rcases cancelled_spawn (live_of_roll h ▸ ht) with ht | ⟨-, rfl⟩
    · exact Or.inl ⟨t', ht, hc⟩
    · cases hc
  | unwatches p x e r ha he hx h hgo =>
    obtain ⟨t, ht, -, hiff⟩ := cancelled_cancelIf (live_of_roll h ▸ ht)
    rcases hiff.1 hc with hj | hc
    · refine Or.inr ⟨?_, hgo j hj (by rw [ht]; rfl)⟩
      simp only [ha, World.quits?, he, hx, Option.bind_some, hj]
    · exact Or.inl ⟨t, ht, hc⟩
  | registers seat signal e f ha he h hgo =>
    obtain ⟨t, ht, -, hiff⟩ := cancelled_cancelIf (live_of_roll h ▸ ht)
    rcases hiff.1 hc with hj | hc
    · refine Or.inr ⟨?_, hgo j hj (by rw [ht]; rfl)⟩
      simp only [ha, World.quits?, he, Option.bind_some]
      exact hj
    · rcases cancelled_listen ht with ht | ⟨-, -, rfl⟩
      · exact Or.inl ⟨t, ht, hc⟩
      · cases hc

/-- whoever has been cancelled stays so -/
theorem Enrols.kept (h : Enrols w a w') (hn : w.tasks.Numbered) (ht : w.tasks.live.get? j = some t) (hc : t.cancelled = true)
    (ht' : w'.tasks.live.get? j = some t') : t'.cancelled = true := by
  have hold : j ≠ w.tasks.next := by
    rintro rfl
    rw [hn _ le_rfl] at ht
    cases ht
  cases h with
  | same h =>
    rw [live_of_roll h, ht] at ht'
    cases ht'
    exact hc
  | starts role b h =>
    rcases cancelled_spawn (live_of_roll h ▸ ht') with ht' | ⟨hnew, -⟩
    · cases ht.symm.trans ht'
      exact hc
    · exact absurd hnew hold
  | unwatches p x e r ha he hx h hgo =>
    obtain ⟨t₁, ht₁, -, hiff⟩ := cancelled_cancelIf (live_of_roll h ▸ ht')
    cases ht.symm.trans ht₁
    exact hiff.2 (Or.inr hc)
  | registers seat signal e f ha he h hgo =>
    obtain ⟨t₁, ht₁, -, hiff⟩ := cancelled_cancelIf (live_of_roll h ▸ ht')
    rcases cancelled_listen ht₁ with ht₁ | ⟨-, hnew, -⟩
    · cases ht.symm.trans ht₁
      exact hiff.2 (Or.inr hc)
    · exact absurd hnew hold

/-! ### In a move -/

/-- the tasks after a section, as the section has left them -/
theorem live_section (hs : w.served? id = some t) (hc : t.cancelled = false)
    (ht' : (serve w id).tasks.live.get? j = some t') :
    ∃ t₁, ((floorTo w id).step t.phase.activity).1.tasks.live.get? j = some t₁ ∧ t'.cancelled = t₁.cancelled := by
  rw [serve_of_section hs hc] at ht'
  have hlive : ((floorTo w id).advance id t.phase).1.tasks.live = ((floorTo w id).step t.phase.activity).1.tasks.live :=
    live_of_roll (roll_advance (floorTo w id) id t.phase)
  exact get?_after hlive ht'

theorem live_cancelled (hs : w.served? id = some t) (hc : t.cancelled = true) :
    (serve w id).tasks.live = (((floorTo w id).without id).abandon t.phase.activity).tasks.live := by
  rw [serve_of_cancelled hs hc]
  exact live_of_roll (roll_finish _ _ _ _)

theorem live_nobody (hs : w.served? id = none) : (serve w id).tasks.live = w.tasks.live := by
  obtain ⟨ready, floor, hserve⟩ := serve_of_nobody hs
  rw [hserve]

/-- turns apart, a move starts one task at most, and cancels one at most -/
theorem live_outside (w : World) (hm : ∀ i, m ≠ .turn i) :
    (w.move m).tasks.live = (w.cancelIf (w.dismissed? m)).tasks.live ∨
      ∃ role b, (w.move m).tasks.live = ((w.spawn role b).2.cancelIf (w.dismissed? m)).tasks.live := by
  cases m with
  | turn i => exact absurd rfl (hm i)
  | call r =>
    simp only [World.move]
    split
    · exact Or.inr ⟨.caller, .starting r, rfl⟩
    · exact Or.inl rfl
  | cancel i => exact Or.inl rfl
  | notifyChange q =>
    exact (roll_inBackground (w := w) rfl (.reconcile q)).imp live_of_roll fun h => ⟨.background, _, live_of_roll h⟩
  | attachStream =>
    refine Or.inr ⟨.service, .pumping w.nextStream, ?_⟩
    simp only [World.move, World.attachStream, World.dismissed?]
    cases w.pump <;> rfl
  | openGate g => exact Or.inl (live_of_roll (roll_wake { w with disk := w.disk.openGate g } _))
  | closeSubscriber y =>
    exact Or.inl (live_of_roll (roll_wake { w with channels := w.channels.modify y fun c => c.close } _))
  | dropSubscriber y =>
    exact Or.inl (live_of_roll (roll_wake { w with channels := w.channels.modify y fun c => c.dropReceiver } _))
  | closeStream y =>
    exact Or.inl (live_of_roll (roll_wake { w with streams := w.streams.modify y fun c => c.dropSender } _))
  | sendEvent y ev =>
    left
    simp only [World.move, World.sendEvent]
    split
    · rename_i c _
      split
      · exact live_of_roll (roll_wake { w with streams := w.streams.insert y (c.send ev) } _)
      · rfl
    · rfl
  | drain y =>
    left
    simp only [World.move, World.drain]
    split <;> rfl
  | tryRead y =>
    left
    simp only [World.move, World.tryRead]
    split
    · rfl
    · split <;> rfl
  | _ => exact Or.inl rfl

/-- whoever a move cancels from outside can go on -/
theorem runnable_dismissed (hm : ∀ i, m ≠ .turn i) (hj : w.dismissed? m = some j)
    (hlive : ((w.move m).tasks.live.get? j).isSome) : (w.move m).runnable j = true := by
  cases m with
  | turn i => exact absurd rfl (hm i)
  | cancel i =>
    cases hj
    refine runnable_cancelIf rfl ?_
    obtain ⟨t', ht'⟩ := Option.isSome_iff_exists.1 hlive
    obtain ⟨t, ht, -, -⟩ := cancelled_cancelIf (y := some j) ht'
    rw [ht]
    rfl
  | attachStream =>
    have hpump : w.pump = some j := hj
    have hmove : w.move .attachStream = World.cancelIf
        { (({ w with streams := w.streams.insert w.nextStream {}, nextStream := w.nextStream + 1 } : World).spawn .service
          (.pumping w.nextStream)).2 with pump := some w.tasks.next } w.pump := rfl
    rw [hmove] at hlive ⊢
    refine runnable_cancelIf hpump ?_
    obtain ⟨t', ht'⟩ := Option.isSome_iff_exists.1 hlive
    obtain ⟨t, ht, -, -⟩ := cancelled_cancelIf ht'
    rw [ht]
    rfl
  | _ => cases hj

theorem quits?_floorTo (w : World) (id : TaskId) : (floorTo w id).quits? = w.quits? := by
  unfold floorTo
  split <;> rfl

/-- whom a section may cancel: the task that a registration names -/
theorem quits?_eq_some (h : w.quits? a = some j) : ∃ k f x r, w.front.face? k = some f ∧ f.registered.get? x = some r ∧
    r.listener = some j ∧ ((∃ p, a = .starting (.unwatch p x) ∧ p.key = k) ∨
      ∃ seat signal, a = .settling seat signal ∧ seat.path.key = k ∧ seat.subscriber = x) := by
  cases a with
  | starting y =>
    cases y with
    | unwatch p x =>
      obtain ⟨r, hr, hj⟩ := Option.bind_eq_some_iff.1 h
      obtain ⟨e, he, hx⟩ := Option.bind_eq_some_iff.1 hr
      exact ⟨p.key, e.face, x, r, face?_of_present he, hx, hj, Or.inl ⟨p, rfl, rfl⟩⟩
    | _ => cases h
  | settling seat signal =>
    obtain ⟨r, hr, hj⟩ := Option.bind_eq_some_iff.1 h
    obtain ⟨e, he, hx⟩ := Option.bind_eq_some_iff.1 hr
    exact ⟨seat.path.key, e.face, seat.subscriber, r, face?_of_present he, hx, hj, Or.inr ⟨seat, signal, rfl, rfl, rfl⟩⟩
  | _ => cases h

/-- the engine relies on it, and it is another task -/
theorem listens_of_quits (h : w.quits? a = some j) : w.Listens j ∧ a.isService = false := by
  obtain ⟨k, f, x, r, hf, hx, hj, ha⟩ := quits?_eq_some h
  refine ⟨listens_iff.2 ⟨k, f, x, r, hf, hx, hj⟩, ?_⟩
  rcases ha with ⟨p, rfl, -⟩ | ⟨seat, signal, rfl, -⟩ <;> rfl

/-- what has been put in the queue in a section of another task is there after it -/
theorem runnable_section (hw : Wf w) (hs : w.served? id = some t) (hc : t.cancelled = false) (hne : j ≠ id)
    (h : ((floorTo w id).step t.phase.activity).1.runnable j = true) : (serve w id).runnable j = true := by
  have hgo := (served?_eq_some hs).1
  have hfloor : ((floorTo w id).step t.phase.activity).1.tasks.floor = some id :=
    (runs_step (wf_floorTo hw hgo).reserved t.phase.activity).does.ripple.grows.floor.trans (floor_floorTo hgo)
  have hready : j ∈ ((floorTo w id).step t.phase.activity).1.tasks.ready := by
    rcases runnable_iff.1 h with hr | hf
    · exact hr
    · exact absurd (Option.some.inj (hf.symm.trans hfloor)) hne
  rw [serve_of_section hs hc, runnable_iff]
  left
  refine Tasks.ready_record _ _ _ ?_
  exact (steady_advance (P := fun _ => True) (floorTo w id) id t.phase).tasks.ready hready

/-- **Whoever is cancelled in a move is the one that the move cancels, and can go on.** -/
theorem cancelled_move (hw : Wf w) (hm : Continues w m) (hrel : ∀ j, w.Relies j → w.ServedBy j) (ht : (w.move m).tasks.live.get? j = some t')
    (hc : t'.cancelled = true) : (∃ t, w.tasks.live.get? j = some t ∧ t.cancelled = true) ∨
      w.dismissed? m = some j ∧ (w.move m).runnable j = true := by
  by_cases hturn : ∃ i, m = .turn i
  · obtain ⟨i, rfl⟩ := hturn
    rw [World.move] at ht ⊢
    cases hs : w.served? i with
    | none => exact Or.inl ⟨t', live_nobody hs ▸ ht, hc⟩
    | some u =>
      cases hu : u.cancelled with
      | true =>
        rw [live_cancelled hs hu] at ht
        rcases (enrols_abandon ((floorTo w i).without i) .awaitingQuiet u.phase.activity).cancelled ht hc with ⟨t, ht, hc⟩ | ⟨h, -⟩
        · simp only [World.without, Table.get?_erase] at ht
          split at ht
          · cases ht
          · exact Or.inl ⟨t, live_floorTo w i ▸ ht, hc⟩
        · cases h
      | false =>
        obtain ⟨t₁, ht₁, heq⟩ := live_section hs hu ht
        have hstep := enrols_step (floorTo w i) (hm i u rfl hs hu).1
        rcases hstep.cancelled ht₁ (heq ▸ hc) with ⟨t, ht, hc⟩ | ⟨hq, hrun⟩
        · exact Or.inl ⟨t, live_floorTo w i ▸ ht, hc⟩
        · rw [quits?_floorTo] at hq
          obtain ⟨hlisten, hservice⟩ := listens_of_quits hq
          have hne : j ≠ i := by
            rintro rfl
            rw [(hrel j (Or.inl hlisten)).2 _ (phase?_of_served hs)] at hservice
            cases hservice
          refine Or.inr ⟨?_, runnable_section hw hs hu hne hrun⟩
          rw [World.dismissed?, carried?_of_served hs hu]
          exact hq
  · have hm' : ∀ i, m ≠ .turn i := fun i e => hturn ⟨i, e⟩
    rcases live_outside w hm' with hl | ⟨role, b, hl⟩
    · rw [hl] at ht
      obtain ⟨t, ht₀, -, hiff⟩ := cancelled_cancelIf ht
      rcases hiff.1 hc with hj | hc
      · exact Or.inr ⟨hj, runnable_dismissed hm' hj (by rw [hl, ht]; rfl)⟩
      · exact Or.inl ⟨t, ht₀, hc⟩
    · rw [hl] at ht
      obtain ⟨t, ht₀, -, hiff⟩ := cancelled_cancelIf ht
      rcases hiff.1 hc with hj | hc
      · exact Or.inr ⟨hj, runnable_dismissed hm' hj (by rw [hl, ht]; rfl)⟩
      · rcases cancelled_spawn ht₀ with ht | ⟨-, rfl⟩
        · exact Or.inl ⟨t, ht, hc⟩
        · cases hc

/-- **Whoever has been cancelled stays so.** -/
theorem stays_cancelled (hw : Wf w) (ht : w.tasks.live.get? j = some t) (hc : t.cancelled = true)
    (ht' : (w.move m).tasks.live.get? j = some t') : t'.cancelled = true := by
  by_cases hturn : ∃ i, m = .turn i
  · obtain ⟨i, rfl⟩ := hturn
    rw [World.move] at ht'
    rw [← live_floorTo w i] at ht
    cases hs : w.served? i with
    | none =>
      rw [live_nobody hs, ← live_floorTo w i, ht] at ht'
      cases ht'
      exact hc
    | some u =>
      have hn := numbered_floorTo hw.numbered i
      cases hu : u.cancelled with
      | true =>
        have hroll := enrols_abandon ((floorTo w i).without i) .awaitingQuiet u.phase.activity
        rw [live_cancelled hs hu] at ht'
        by_cases hij : i = j
        · have hgone := phase?_serve_of_cancelled hw hs hu
          rw [Tasks.phase?_eq_none_iff, live_cancelled hs hu] at hgone
          subst hij
          cases ht'.symm.trans hgone
        · have ht₀ : ((floorTo w i).without i).tasks.live.get? j = some t := by
            simp only [World.without, Table.get?_erase, if_neg hij, ht]
          exact hroll.kept (numbered_without hn i) ht₀ hc ht'
      | false =>
        obtain ⟨t₁, ht₁, heq⟩ := live_section hs hu ht'
        rw [heq]
        by_cases hshut : u.phase.activity = .starting .shutDown
        · rw [hshut] at ht₁
          obtain ⟨t₂, ht₂, -, hkept, -⟩ := (halts_requestShutDown (floorTo w i)).task j t₁ ht₁
          obtain ⟨t₃, ht₃, -, hiff⟩ := cancelled_cancelIf (w := floorTo w i) ht₂
          cases ht.symm.trans ht₃
          exact hkept (hiff.2 (Or.inr hc))
        · exact (enrols_step (floorTo w i) hshut).kept hn ht hc ht₁
  · rcases live_outside w fun i e => hturn ⟨i, e⟩ with hl | ⟨role, b, hl⟩
    · rw [hl] at ht'
      obtain ⟨t₁, ht₁, -, hiff⟩ := cancelled_cancelIf ht'
      cases ht.symm.trans ht₁
      exact hiff.2 (Or.inr hc)
    · rw [hl] at ht'
      obtain ⟨t₁, ht₁, -, hiff⟩ := cancelled_cancelIf ht'
      rcases cancelled_spawn ht₁ with ht₁ | ⟨rfl, -⟩
      · cases ht.symm.trans ht₁
        exact hiff.2 (Or.inr hc)
      · rw [hw.numbered _ le_rfl] at ht
        cases ht

/-! ## Phases that tasks are started in -/

/-- no task comes into this phase from another one: it waits for somebody's leaving or for an event, or is to unwatch a path or to
give a place back -/
def Activity.isInitial : Activity → Bool
  | .listening .. | .pumping _ | .starting (.unwatch ..) | .starting (.release _) => true
  | _ => false

theorem Watching.not_initial (h : Watching p x a) : a.isInitial = false := by
  cases h <;> rfl

theorem not_initial_releasePlace {l : Leaving} (hb : (w.releasePlace p l).2.next = some b) : b.isInitial = false := by
  rcases next_releasePlace w p l with h | h <;> cases h.symm.trans hb
  rfl

theorem not_initial_begin {y : Request} (hb : (w.begin y).2.next = some b) : b.isInitial = false := by
  cases y with
  | watch p x =>
    have h : Watching p x b := Watching.starting.next (w := w) hb
    exact h.not_initial
  | unwatch p x =>
    simp only [World.begin, World.unwatch] at hb
    split at hb
    · cases hb
    · split at hb
      · cases hb
      · exact not_initial_releasePlace hb
  | write p bytes =>
    rw [World.begin, next_ofPart] at hb
    obtain ⟨s, -, rfl⟩ := Option.map_eq_some_iff.1 hb
    rfl
  | reconcile p =>
    rw [World.begin, next_ofPart] at hb
    obtain ⟨s, -, rfl⟩ := Option.map_eq_some_iff.1 hb
    rfl
  | release p => exact not_initial_releasePlace hb
  | waitIdle =>
    cases hb
    rfl
  | shutDown =>
    cases hb
    rfl
  | diskStat p =>
    obtain ⟨c, hc⟩ := next_beginCall (α := Outcome) w .stat p (Activity.diskStat p)
    cases hc.symm.trans hb
    rfl
  | diskRead p =>
    obtain ⟨c, hc⟩ := next_beginCall (α := Outcome) w .read p (Activity.diskRead p)
    cases hc.symm.trans hb
    rfl
  | diskWrite p bytes =>
    obtain ⟨c, hc⟩ := next_beginCall (α := Outcome) w .write p (Activity.diskWrite p bytes)
    cases hc.symm.trans hb
    rfl

/-- a task that listens goes on to do so, or has ended -/
theorem next_listening (hb : (w.step (.listening p x)).2.next = some b) : b = .listening p x := by
  simp only [World.step, World.stepListening] at hb
  split at hb <;> cases hb
  rfl

/-- a task that waits for events goes on to do so, or has ended -/
theorem next_pumping {y : StreamId} (hb : (w.step (.pumping y)).2.next = some b) : b = .pumping y := by
  simp only [World.step, World.stepPumping] at hb
  split at hb <;> cases hb <;> rfl

/-- **A task that is in an initial phase after a section has been in it before.** -/
theorem initial_of_next (hb : (w.step a).2.next = some b) (h : b.isInitial = true) : a = b := by
  by_contra hno
  have hfalse : b.isInitial = false := by
    cases a with
    | starting y => exact not_initial_begin hb
    | refreshing r =>
      rw [World.step, next_ofPart] at hb
      obtain ⟨s, -, rfl⟩ := Option.map_eq_some_iff.1 hb
      rfl
    | saving y =>
      rw [World.step, next_ofPart] at hb
      obtain ⟨s, -, rfl⟩ := Option.map_eq_some_iff.1 hb
      rfl
    | joining p x joined other =>
      have h : Watching p x b := (Watching.joining joined other).next hb
      exact h.not_initial
    | synchronizing seat r =>
      simp only [World.step, World.stepSynchronizing] at hb
      rcases hrun : w.stepRefresh r with ⟨w', y | y | y | (e | n)⟩ <;> rw [hrun] at hb
      · cases hb
        rfl
      · cases hb
        rfl
      · cases hb
        rfl
      · exact not_initial_releasePlace hb
      · cases hb
        rfl
    | settling seat signal =>
      have h : Watching seat.path seat.subscriber b := (Watching.settling seat.joined signal).next hb
      exact h.not_initial
    | tearingDown p turn l =>
      simp only [World.step, World.stepTearingDown] at hb
      rcases hrun : w.awaitIdle p turn with ⟨w', y | y | y | u⟩ <;> rw [hrun] at hb
      · cases hb
        rfl
      · cases hb
        rfl
      · cases hb
        rfl
      · dsimp only at hb
        split at hb <;> cases (next_endLeaving _ _).symm.trans hb
    | awaitingQuiet =>
      simp only [World.step, World.stepAwaitingQuiet] at hb
      split at hb <;> cases hb
      rfl
    | closing paths =>
      simp only [World.step, World.stepClosing] at hb
      split at hb
      · cases paths <;> cases hb
        rfl
      · cases hb
        rfl
    | draining p turn rest =>
      simp only [World.step, World.stepDraining] at hb
      rcases hrun : w.awaitIdle p turn with ⟨w', y | y | y | u⟩ <;> rw [hrun] at hb
      · cases hb
        rfl
      · cases hb
        rfl
      · cases hb
        rfl
      · cases rest <;> cases hb
        rfl
    | diskStat p c =>
      cases c with
      | held g =>
        obtain ⟨c, hc⟩ := next_atGate (α := Outcome) w g (Activity.diskStat p)
        cases hc.symm.trans hb
        rfl
      | due => cases hb
    | diskRead p c =>
      cases c with
      | held g =>
        obtain ⟨c, hc⟩ := next_atGate (α := Outcome) w g (Activity.diskRead p)
        cases hc.symm.trans hb
        rfl
      | due => cases hb
    | diskWrite p bytes c =>
      cases c with
      | held g =>
        obtain ⟨c, hc⟩ := next_atGate (α := Outcome) w g (Activity.diskWrite p bytes)
        cases hc.symm.trans hb
        rfl
      | due => cases hb
    | listening p x => exact absurd (next_listening hb).symm hno
    | pumping y => exact absurd (next_pumping hb).symm hno
  rw [hfalse] at h
  cases h

/-- whoever listens after a section has done so before -/
theorem listening_of_next (hb : (w.step a).2.next = some (.listening p x)) : a = .listening p x := initial_of_next hb rfl

/-! ## Registrations -/

section Registrations

variable {v v' : Front} {f g : Face} {r : Registration} {k₀ : Path.Key}

/-- the subscriber has a registration at the path -/
def Front.Lists (v : Front) (k : Path.Key) (x : SubscriberId) (r : Registration) : Prop :=
  ∃ f, v.face? k = some f ∧ f.registered.get? x = some r

/-- a registration stays when the entry of its path keeps it, or when it is another entry that changes -/
theorem Front.Lists.put (h : v.Lists k x r)
    (hg : ∀ f, v.face? k₀ = some f → f.registered.get? x = some r → k = k₀ → g.registered.get? x = some r) :
    (v.put k₀ (some g)).Lists k x r := by
  obtain ⟨f, hf, hx⟩ := h
  rw [Front.Lists, Front.face?_put]
  split
  · next hk =>
    subst hk
    exact ⟨g, rfl, hg f hf hx rfl⟩
  · exact ⟨f, hf, hx⟩

/-- an entry is put in place of one with the same registrations -/
theorem Front.Lists.replace (h : v.Lists k x r) (hf : v.face? k₀ = some f) (hg : g.registered = f.registered) :
    (v.put k₀ (some g)).Lists k x r :=
  h.put fun _ hf' hx _ => by
    cases hf.symm.trans hf'
    exact hg ▸ hx

theorem Front.Lists.unseat (h : v.Lists k x r) (seat : Seat) : (v.unseat seat).Lists k x r := by
  obtain ⟨f, hf, hx⟩ := h
  rw [Front.Lists, Front.face?_unseat, hf]
  split
  · exact ⟨_, rfl, (congrArg (·.get? x) (Face.registered_unseat f _ _)).trans hx⟩
  · exact ⟨f, rfl, hx⟩

theorem Front.Lists.leave (h : v.Lists k x r) (l : Leaving) : (v.leave l).Lists k x r := by
  cases l with
  | failed seat e => exact h.unseat seat
  | unwatched => exact h
  | abandoned => exact h

/-- **A registration stays, unless somebody takes it away or replaces it, or nobody counts there any more.** -/
theorem Dealing.unregisters {next : Option Activity} {c : Option Path} (h : Dealing v a v' next c)
    (hne : a ≠ .starting .shutDown) (hcl : a.closes = false) (hf : v.face? k = some f) (hx : f.registered.get? x = some r) :
    v'.Lists k x r ∨ (∃ p, a = .starting (.unwatch p x) ∧ p.key = k) ∨
      (∃ seat signal, a = .settling seat signal ∧ seat.path.key = k ∧ seat.subscriber = x) ∨ f.count = 0 := by
  have hlists : v.Lists k x r := ⟨f, hf, hx⟩
  cases h with
  | still hv => exact Or.inl (hv ▸ hlists)
  | unseen p hno hv => exact Or.inl (hv ▸ hlists)
  | commit p g y hg hv => exact Or.inl (hv ▸ hlists.replace hg rfl)
  | take seat g other ha hg hr hj hv hn =>
    left
    rw [hv]
    rcases hg with hg | ⟨hno, rfl⟩
    · exact hlists.replace hg rfl
    · exact hlists.put fun _ hf' => by cases hno.symm.trans hf'
  | register seat g y ha hg hv hn =>
    obtain ⟨signal, rfl⟩ := ha
    by_cases hsame : seat.path.key = k ∧ seat.subscriber = x
    · exact Or.inr (Or.inr (Or.inl ⟨seat, signal, rfl, hsame⟩))
    · left
      rw [hv]
      refine (hlists.put fun f' hf' hx' hk => ?_).unseat seat
      cases hg.symm.trans hf'
      rw [Table.get?_insert, if_neg fun he => hsame ⟨hk.symm, he⟩]
      exact hx'
  | lost seat ha hno hv hn => exact Or.inl (hv ▸ hlists)
  | giveUp seat g ha hg hv =>
    left
    rcases hv with ⟨rfl, -⟩ | ⟨rfl, -⟩
    · exact hlists.replace hg rfl
    · refine Front.Lists.unseat ?_ seat
      exact hlists.replace hg rfl
  | release p g ha hg hv => exact Or.inl (hv ▸ hlists.replace hg rfl)
  | unwatch p y g ha hg hr hv =>
    by_cases hsame : p.key = k ∧ y = x
    · exact Or.inr (Or.inl ⟨p, hsame.2 ▸ ha, hsame.1⟩)
    · left
      rw [hv]
      refine hlists.put fun f' hf' hx' hk => ?_
      cases hg.symm.trans hf'
      rw [Table.get?_erase, if_neg fun he => hsame ⟨hk.symm, he⟩]
      exact hx'
  | tearDown p turn l ha hv hn =>
    rcases hv with rfl | ⟨⟨g, hg, hz⟩, rfl⟩
    · exact Or.inl (hlists.leave l)
    · by_cases hk : k = p.key
      · subst hk
        cases hf.symm.trans hg
        exact Or.inr (Or.inr (Or.inr hz))
      · left
        refine Front.Lists.leave ⟨f, ?_, hx⟩ l
        rw [Front.face?_put, if_neg hk]
        exact hf
  | shutDown ha => exact absurd ha hne
  | forget ha => exact absurd (hcl.symm.trans ha) (by simp)

end Registrations

/-! ## Subscribers who have left -/

/-- the subscriber has left: it takes nothing any more -/
def World.hasLeft (w : World) (x : SubscriberId) : Bool := (w.channels.get? x).any fun c => !c.isOpen

theorem hasLeft_congr {v : World} (h : v.channels.get? x = w.channels.get? x) : v.hasLeft x = w.hasLeft x := by
  rw [World.hasLeft, h, World.hasLeft]

/-- no section makes a subscriber leave -/
theorem hasLeft_serve (hw : Wf w) (id : TaskId) (x : SubscriberId) : (serve w id).hasLeft x = w.hasLeft x := by
  rcases publishes_serve hw id with ⟨p, f, y, -, -, hpub⟩ | ⟨-, hsilent⟩
  · have hch : (serve w id).channels.get? x = (w.front.publish p f y).channels.get? x :=
      congrArg (fun v : Front => v.channels.get? x) hpub
    rw [channels_publish] at hch
    split at hch
    · have hsend : ∀ c : Channel Snapshot, (c.send (.ofVersion p y)).isOpen = c.isOpen := by
        intro c
        unfold Channel.send
        split <;> rfl
      rw [World.hasLeft, hch, World.hasLeft, Option.any_map]
      have hch' : w.front.channels = w.channels := rfl
      simp only [hsend, hch']
    · exact hasLeft_congr hch
  · exact hasLeft_congr (congrArg (·.get? x) hsilent.channels)

/-- **Whether a subscriber has left** changes from outside only when it comes or leaves. -/
theorem hasLeft_or (hm : ∀ i, m ≠ .turn i) (x : SubscriberId) : (w.move m).hasLeft x = w.hasLeft x ∨
    m = .newSubscriber ∨ m = .closeSubscriber x ∨ m = .dropSubscriber x := by
  have hsame : (w.move m).channels.get? x = w.channels.get? x → (w.move m).hasLeft x = w.hasLeft x ∨
      m = .newSubscriber ∨ m = .closeSubscriber x ∨ m = .dropSubscriber x := fun he => Or.inl (hasLeft_congr he)
  have hother : ∀ {y : SubscriberId} (f : Channel Snapshot → Channel Snapshot), y ≠ x →
      (w.channels.modify y f).get? x = w.channels.get? x := fun f hy => (Table.get?_modify _ _ _ _).trans (if_neg hy)
  cases m with
  | turn i => exact absurd rfl (hm i)
  | newSubscriber => exact Or.inr (Or.inl rfl)
  | closeSubscriber y =>
    by_cases hy : y = x
    · exact Or.inr (Or.inr (Or.inl (hy ▸ rfl)))
    · exact hsame (hother _ hy)
  | dropSubscriber y =>
    by_cases hy : y = x
    · exact Or.inr (Or.inr (Or.inr (hy ▸ rfl)))
    · exact hsame (hother _ hy)
  | drain y =>
    left
    cases hc : w.channels.get? y with
    | none => simp only [World.move, World.drain, hc]
    | some c =>
      simp only [World.move, World.drain, hc, World.hasLeft, Table.get?_insert]
      split
      · next hy =>
        subst hy
        rw [hc]
        rfl
      · rfl
  | tryRead y =>
    left
    cases hc : w.channels.get? y with
    | none => simp only [World.move, World.tryRead, hc]
    | some c =>
      cases hb : c.buffer with
      | nil => simp only [World.move, tryRead_of_nil hc hb]
      | cons z rest =>
        simp only [World.move, tryRead_of_cons hc hb, World.hasLeft, Table.get?_insert]
        split
        · next hy =>
          subst hy
          rw [hc]
          rfl
        · rfl
  | call r => exact hsame (by simp only [World.move]; split <;> rfl)
  | notifyChange q => exact hsame (congrArg (fun v : Front => v.channels.get? x) (front_inBackground w (.reconcile q)))
  | attachStream => exact hsame (congrArg (fun v : Front => v.channels.get? x) (front_cancelIf _ w.pump))
  | sendEvent y ev =>
    refine hsame ?_
    simp only [World.move, World.sendEvent]
    split
    · split <;> rfl
    · rfl
  | _ => exact hsame rfl

/-- **When a subscriber leaves, whoever listens for that can go on.** -/
theorem hasLeft_outside (hm : ∀ i, m ≠ .turn i) (h : (w.move m).hasLeft x = true) : w.hasLeft x = true ∨
    ∀ j ph q, w.tasks.phase? j = some ph → ph.activity = .listening q x → (w.move m).runnable j = true := by
  have hwakes : ∀ f : Channel Snapshot → Channel Snapshot, ∀ j ph q, w.tasks.phase? j = some ph →
      ph.activity = .listening q x →
        (({ w with channels := w.channels.modify x f } : World).wake (.farewell x)).runnable j = true := by
    intro f j ph q hph hq
    rw [runnable_iff]
    refine World.mem_ready_wake (w := { w with channels := w.channels.modify x f }) hph ?_
    rw [hq]
    rfl
  rcases hasLeft_or hm x with hsame | rfl | rfl | rfl
  · exact Or.inl (hsame ▸ h)
  · left
    simp only [World.move, World.newSubscriber, World.hasLeft, Table.get?_insert] at h
    split at h
    · cases h
    · exact h
  · exact Or.inr (hwakes _)
  · exact Or.inr (hwakes _)

/-! ## Listeners -/

/-- Whoever listens for a subscriber's leaving is put down in its registration, and gets to know of it. -/
structure World.Heeds (w : World) : Prop where
  /-- the task that a registration names listens for the subscriber at the path, as long as it is there -/
  listener : ∀ k f x r j ph, w.front.face? k = some f → f.registered.get? x = some r → r.listener = some j →
    w.tasks.phase? j = some ph → ∃ q, ph.activity = .listening q x ∧ q.key = k
  /-- whoever listens is named by the registration, unless it has been cancelled -/
  registered : ∀ j t q x, w.tasks.live.get? j = some t → t.cancelled = false → t.phase.activity = .listening q x →
    ∃ f, w.front.face? q.key = some f ∧ f.registered.get? x = some ⟨some j⟩
  pump : ∀ j ph, w.pump = some j → w.tasks.phase? j = some ph → ∃ y, ph.activity = .pumping y
  cancelled : ∀ j t, w.tasks.live.get? j = some t → t.cancelled = true → w.runnable j = true
  left : ∀ j ph q x, w.tasks.phase? j = some ph → ph.activity = .listening q x → w.hasLeft x = true → w.runnable j = true

/-- a task that has been there before the move has gone on, if anything has become of it -/
theorem phase?_old (hw : Wf w) (hm : Continues w m) (hj : j < w.tasks.next) {ph : Phase}
    (hph : (w.move m).tasks.phase? j = some ph) : w.tasks.phase? j = some ph ∨
      ∃ u, m = .turn j ∧ w.served? j = some u ∧ u.cancelled = false ∧
        ((floorTo w j).step u.phase.activity).2.next = some ph.activity := by
  rcases phase?_cases hw hph with hsame | ⟨hnone, -⟩ | ⟨a, hcarry, hb⟩
  · exact Or.inl hsame
  · have hgone := (spares_move hm).gone j hj (Tasks.phase?_eq_none_iff.1 hnone)
    have hnone' : (w.move m).tasks.phase? j = none := Tasks.phase?_eq_none_iff.2 hgone
    cases hnone'.symm.trans hph
  · obtain ⟨u, hmove, hserved, hc, rfl⟩ := carried?_eq_some.1 hcarry
    exact Or.inr ⟨u, hmove, hserved, hc, hb⟩

/-- a section of a call that settles leaves everything as it is, or registers the subscriber -/
theorem step_settling_cases (w : World) (seat : Seat) (signal : Option SignalId) :
    (w.step (.settling seat signal)).1 = w ∨ (w.step (.settling seat signal)).1 = (w.register seat).1 := by
  simp only [World.step, World.stepSettling]
  split
  · exact Or.inl rfl
  · split
    · exact Or.inl rfl
    · exact Or.inr rfl

/-- the registration that a subscriber gets names the task that listens -/
theorem registered_register {seat : Seat} {f : Face} (hf : (w.register seat).1.front.face? seat.path.key = some f) :
    f.registered.get? seat.subscriber = some ⟨(w.listen seat.path seat.subscriber).1⟩ := by
  cases he : w.entry? seat.path with
  | none =>
    simp only [World.register, he, front_endSeat, Front.unseat_of_absent (face?_of_absent he), face?_of_absent he] at hf
    cases hf
  | some e =>
    obtain ⟨e', heq, hx, -⟩ := register_eq he
    rw [heq, front_endSeat, Front.face?_unseat, if_pos rfl, front_setEntry, Front.face?_put, if_pos rfl, Option.map_some] at hf
    cases hf
    rw [Face.registered_unseat]
    have hx' : e'.face.registered = e.registered.insert seat.subscriber ⟨(w.listen seat.path seat.subscriber).1⟩ := hx
    rw [hx', Table.get?_insert, if_pos rfl]

/-- **A registration that is there after a section has been there before, or names a new task that listens.** -/
theorem registration_serve (hw : Wf w) (hs : w.served? id = some t) (hc : t.cancelled = false) {f' : Face} {r : Registration}
    (hf' : (serve w id).front.face? k = some f') (hx : f'.registered.get? x = some r) :
    (∃ f, w.front.face? k = some f ∧ f.registered.get? x = some r) ∨ (w.pool.closed = false → r.listener = some w.tasks.next) ∧
      ∀ j, r.listener = some j → ∃ q, (serve w id).tasks.phase? j = some ⟨.service, .listening q x⟩ ∧ q.key = k := by
  rcases (dealing_serve hw hs hc).registered hf' hx with hold | ⟨seat, signal, ha, rfl, rfl⟩
  · exact Or.inl hold
  · rw [front_serve hs hc, ha] at hf'
    rcases step_settling_cases (floorTo w id) seat signal with hstep | hstep
    · rw [hstep, front_floorTo] at hf'
      exact Or.inl ⟨f', hf', hx⟩
    · right
      have hface := hf'
      rw [hstep] at hface
      constructor
      · intro hopen
        cases (registered_register hface).symm.trans hx
        rw [World.listen, if_neg (by rw [closed_floorTo, hopen]; simp)]
        exact congrArg some (next_floorTo w id)
      · intro j hj
        obtain ⟨hnext, hphase⟩ := listener_register (floorTo w id) seat hface hx hj
        rw [next_floorTo] at hnext
        have hne : j ≠ id := by
          rintro rfl
          exact absurd (hw.numbered.lt (phase?_of_served hs)) (by rw [hnext]; exact lt_irrefl _)
        have hlive : ((floorTo w id).advance id t.phase).1.tasks.live = _ :=
          live_of_roll (roll_advance (floorTo w id) id t.phase)
        refine ⟨seat.path, ?_, rfl⟩
        rw [serve_of_section hs hc, phase?_after hne, Tasks.phase?, hlive, ha, hstep]
        exact hphase

theorem listener_move (hw : Wf w) (hm : Continues w m) (hrel : ∀ j, w.Relies j → w.ServedBy j) (h : w.Heeds) {f : Face}
    {r : Registration} {ph : Phase} (hf : (w.move m).front.face? k = some f) (hx : f.registered.get? x = some r)
    (hj : r.listener = some j) (hph : (w.move m).tasks.phase? j = some ph) :
    ∃ q, ph.activity = .listening q x ∧ q.key = k := by
  -- a registration that has been there before: so has its task
  have hold : (∃ f, w.front.face? k = some f ∧ f.registered.get? x = some r) → ∃ q, ph.activity = .listening q x ∧ q.key = k := by
    rintro ⟨f₀, hf₀, hx₀⟩
    have hlisten : w.Listens j := listens_iff.2 ⟨k, f₀, x, r, hf₀, hx₀, hj⟩
    rcases phase?_old hw hm (hrel j (Or.inl hlisten)).1 hph with hsame | ⟨u, -, hserved, -, hb⟩
    · exact h.listener k f₀ x r j ph hf₀ hx₀ hj hsame
    · obtain ⟨q, ha, hk⟩ := h.listener k f₀ x r j u.phase hf₀ hx₀ hj (phase?_of_served hserved)
      rw [ha] at hb
      exact ⟨q, next_listening hb, hk⟩
  rcases section_or_not w m with ⟨i, t, rfl, hs, hc⟩ | hidle
  · rcases registration_serve hw hs hc hf hx with hbefore | ⟨-, hnew⟩
    · exact hold hbefore
    · obtain ⟨q, hphase, hk⟩ := hnew j hj
      cases hphase.symm.trans hph
      exact ⟨q, rfl, hk⟩
  · exact hold (noNewer_of_no_section hidle k f x r hf hx)

theorem pump_move (hw : Wf w) (hm : Continues w m) (hrel : ∀ j, w.Relies j → w.ServedBy j) (h : w.Heeds) {ph : Phase}
    (hj : (w.move m).pump = some j) (hph : (w.move m).tasks.phase? j = some ph) : ∃ y, ph.activity = .pumping y := by
  by_cases hattach : m = .attachStream
  · subst hattach
    have hpump : (w.move .attachStream).pump = some w.tasks.next := by
      simp only [World.move, World.attachStream]
      cases w.pump <;> rfl
    cases hj.symm.trans hpump
    rcases phase?_cases hw hph with hold | ⟨-, y, rfl⟩ | ⟨a, hcarry, -⟩
    · rw [Tasks.phase?, hw.numbered _ le_rfl] at hold
      cases hold
    · exact ⟨y, rfl⟩
    · cases hcarry
  · have hsame : w.pump = some j := by
      by_cases hturn : ∃ i, m = .turn i
      · obtain ⟨i, rfl⟩ := hturn
        have hserve : Spares w.Listens w (serve w i) := spares_serve fun t hs hc => (hm i t rfl hs hc).1
        exact hserve.pump.symm.trans hj
      · exact (pump_outside w (fun i e => hturn ⟨i, e⟩) hattach).symm.trans hj
    rcases phase?_old hw hm (hrel j (Or.inr hsame)).1 hph with hold | ⟨u, -, hserved, -, hb⟩
    · exact h.pump j ph hsame hold
    · obtain ⟨y, ha⟩ := h.pump j u.phase hsame (phase?_of_served hserved)
      rw [ha] at hb
      simp only [World.step, World.stepPumping] at hb
      split at hb
      · exact ⟨y, (Option.some.inj hb).symm⟩
      · cases hb
      · exact ⟨y, (Option.some.inj hb).symm⟩

theorem runnable_cancelled (hw : Wf w) (hm : Continues w m) (hrel : ∀ j, w.Relies j → w.ServedBy j) (h : w.Heeds)
    (ht : (w.move m).tasks.live.get? j = some t') (hc : t'.cancelled = true) : (w.move m).runnable j = true := by
  rcases cancelled_move hw hm hrel ht hc with ⟨t, ht₀, hc₀⟩ | ⟨-, hrun⟩
  · refine runnable_move hw ?_ (h.cancelled j t ht₀ hc₀)
    rw [Bool.eq_false_iff]
    intro hserves
    obtain ⟨rfl, hgo⟩ := serves_iff.1 hserves
    have hs : w.served? j = some t := by simp [World.served?, hgo, ht₀]
    have hgone : (w.move (.turn j)).tasks.phase? j = none := phase?_serve_of_cancelled hw hs hc₀
    rw [Tasks.phase?_eq_none_iff, ht] at hgone
    cases hgone
  · exact hrun

theorem mem_ready_new {φ : Type} {Q : φ → Prop} {ts ts' : Tasks φ} {y : φ} (hg : ts.Grows Q ts') (hn : ts.Numbered)
    (hno : ts.phase? j = none) (hp : ts'.phase? j = some y) : j ∈ ts'.ready := by
  by_cases hj : j < ts.next
  · cases ((hg.phase j hj).trans hno).symm.trans hp
  · exact (hg.fresh hn j y (not_lt.1 hj) hp).2

/-- a new task can go on -/
theorem runnable_new (hw : Wf w) (hno : w.tasks.phase? j = none) {ph : Phase}
    (hph : (w.move m).tasks.phase? j = some ph) : (w.move m).runnable j = true := by
  rw [runnable_iff]
  left
  by_cases hturn : ∃ i, m = .turn i
  · obtain ⟨i, rfl⟩ := hturn
    rw [World.move] at hph ⊢
    cases hs : w.served? i with
    | none => cases ((phase?_serve_of_nobody hs j).trans hno).symm.trans hph
    | some t =>
      have hw₀ := wf_floorTo hw (served?_eq_some hs).1
      have hne : i ≠ j := by
        rintro rfl
        cases (phase?_of_served hs).symm.trans hno
      cases hc : t.cancelled with
      | true =>
        refine mem_ready_new (does_cancelled hs hc).ripple.grows (numbered_without hw₀.numbered i) ?_ hph
        rw [phase?_without, if_neg hne, phase?_floorTo]
        exact hno
      | false =>
        rw [serve_of_section hs hc] at hph ⊢
        rw [phase?_after hne.symm] at hph
        refine Tasks.ready_record _ _ _ ?_
        refine mem_ready_new (runs_advance hw₀.reserved i t.phase).does.ripple.grows hw₀.numbered ?_ hph
        rw [phase?_floorTo]
        exact hno
  · by_cases hcall : ∃ r, m = .call r
    · obtain ⟨r, rfl⟩ := hcall
      simp only [World.move] at hph ⊢
      split at hph
      · next hpub =>
        rw [if_pos hpub]
        exact mem_ready_new (Tasks.grows_spawn (P := fun _ => True) _ trivial) hw.numbered hno hph
      · cases hno.symm.trans hph
    · exact mem_ready_new (outside_move w (fun i e => hturn ⟨i, e⟩) fun r e => hcall ⟨r, e⟩).2.grows hw.numbered hno hph

theorem runnable_left (hw : Wf w) (h : w.Heeds) {ph : Phase}
    (hph : (w.move m).tasks.phase? j = some ph) (ha : ph.activity = .listening q x) (hleft : (w.move m).hasLeft x = true) :
    (w.move m).runnable j = true := by
  by_cases hserves : w.serves m j = true
  · -- it waits only if the subscriber has not left
    obtain ⟨rfl, hgo⟩ := serves_iff.1 hserves
    rw [World.move] at hph hleft
    rw [hasLeft_serve hw] at hleft
    cases hs : w.served? j with
    | none =>
      rw [phase?_serve_of_nobody hs] at hph
      obtain ⟨u, hserved, -⟩ := served?_of_phase hgo hph
      cases hs.symm.trans hserved
    | some u =>
      cases hc : u.cancelled with
      | true => cases (phase?_serve_of_cancelled hw hs hc).symm.trans hph
      | false =>
        rw [phase?_serve hw hs hc] at hph
        obtain ⟨b, hb, rfl⟩ := Option.map_eq_some_iff.1 hph
        cases ha
        rw [listening_of_next hb] at hb
        simp only [World.step, World.stepListening] at hb
        split at hb
        · cases hb
        · next hno =>
          have hch : (floorTo w j).channels = w.channels := congrArg Front.channels (front_floorTo w j)
          rw [hch] at hno
          exact absurd hleft hno
  · rcases phase?_newcomer hw (Bool.eq_false_iff.2 hserves) with hsame | ⟨hno, -⟩
    · have hold := hsame.symm.trans hph
      have hstays : w.hasLeft x = true → (w.move m).runnable j = true := fun h₀ =>
        runnable_move hw (Bool.eq_false_iff.2 hserves) (h.left j ph q x hold ha h₀)
      by_cases hturn : ∃ i, m = .turn i
      · obtain ⟨i, rfl⟩ := hturn
        rw [World.move, hasLeft_serve hw] at hleft
        exact hstays hleft
      · rcases hasLeft_outside (fun i e => hturn ⟨i, e⟩) hleft with h₀ | hall
        · exact hstays h₀
        · exact hall j ph q hold ha
    · exact runnable_new hw hno hph

/-- what becomes of other tasks in a section -/
theorem live_section_of_ne (hs : w.served? id = some t) (hc : t.cancelled = false) (hne : j ≠ id) :
    (serve w id).tasks.live.get? j = ((floorTo w id).step t.phase.activity).1.tasks.live.get? j := by
  have hlive : ((floorTo w id).advance id t.phase).1.tasks.live = ((floorTo w id).step t.phase.activity).1.tasks.live :=
    live_of_roll (roll_advance (floorTo w id) id t.phase)
  rw [serve_of_section hs hc, ← hlive]
  rcases (floorTo w id).advance id t.phase with ⟨w', y | y | y | y⟩ <;>
    simp only [World.after, Tasks.record, Table.get?_modify, Table.get?_erase, if_neg (Ne.symm hne)]

/-- a new task that listens is named by a registration -/
theorem registered_of_new (hw : Wf w) (hno : w.tasks.live.get? j = none) (ht : (w.move m).tasks.live.get? j = some t)
    (ha : t.phase.activity = .listening q x) :
    ∃ f, (w.move m).front.face? q.key = some f ∧ f.registered.get? x = some ⟨some j⟩ := by
  have hph : (w.move m).tasks.phase? j = some t.phase := congrArg (Option.map Task.phase) ht
  rcases phase?_cases hw hph with hold | ⟨-, hnew⟩ | ⟨a, hcarry, -⟩
  · cases (Tasks.phase?_eq_none_iff.2 hno).symm.trans hold
  · cases m with
    | turn i =>
      obtain ⟨u, hs, hstarts⟩ := hnew
      split at hstarts
      · obtain ⟨seat, -, hleaves⟩ := hstarts
        cases (congrArg Phase.activity hleaves).symm.trans ha
      · next hc =>
        rw [Bool.not_eq_true] at hc
        have hne : j ≠ i := by
          rintro rfl
          cases (served?_eq_some hs).2.symm.trans hno
        rw [World.move, live_section_of_ne hs hc hne] at ht
        rw [← live_floorTo w i] at hno
        obtain ⟨seat, signal, hu⟩ : ∃ seat signal, u.phase.activity = .settling seat signal := by
          rcases hstarts with ⟨y, -, hp⟩ | ⟨q', y, -, hp⟩ | ⟨y, q', -, hp⟩ | ⟨seat, signal, hu, -⟩
          · cases (congrArg Phase.activity hp).symm.trans ha
          · cases (congrArg Phase.activity hp).symm.trans ha
          · cases (congrArg Phase.activity hp).symm.trans ha
          · exact ⟨seat, signal, hu⟩
        have henrols : Enrols (floorTo w i) u.phase.activity ((floorTo w i).step u.phase.activity).1 :=
          enrols_step _ (by rw [hu]; simp)
        rw [World.move, front_serve hs hc]
        cases henrols with
        | same h => cases hno.symm.trans (live_of_roll h ▸ ht)
        | starts role y h =>
          rcases cancelled_spawn (live_of_roll h ▸ ht) with hold | ⟨-, rfl⟩
          · cases hno.symm.trans hold
          · cases ha
        | unwatches p y e r ha' he hx h hgo => cases ha'.symm.trans hu
        | registers seat' signal' e f ha' he h hgo hf hx =>
          obtain ⟨t₁, ht₁, hphase, -⟩ := cancelled_cancelIf (live_of_roll h ▸ ht)
          rcases cancelled_listen ht₁ with hold | ⟨hlisten, -, rfl⟩
          · cases hno.symm.trans hold
          · rw [hphase] at ha
            cases ha
            refine ⟨f, hf, ?_⟩
            rw [hx, Table.get?_insert, if_pos rfl, hlisten]
    | call r =>
      obtain ⟨-, hp⟩ := hnew
      cases (congrArg Phase.activity hp).symm.trans ha
    | notifyChange p' =>
      have hp : t.phase = ⟨.background, .starting (.reconcile p')⟩ := hnew
      cases (congrArg Phase.activity hp).symm.trans ha
    | attachStream =>
      obtain ⟨y, hp⟩ := hnew
      cases (congrArg Phase.activity hp).symm.trans ha
    | _ => cases hnew
  · obtain ⟨u, -, hserved, -, -⟩ := carried?_eq_some.1 hcarry
    cases (served?_eq_some hserved).2.symm.trans hno

/-- what is not a section takes no registration away -/
theorem registration_of_no_section {f : Face} {r : Registration}
    (hm : ∀ id t, m = .turn id → w.served? id = some t → t.cancelled = true) (hf : w.front.face? k = some f)
    (hx : f.registered.get? x = some r) : ∃ f', (w.move m).front.face? k = some f' ∧ f'.registered.get? x = some r := by
  by_cases hturn : ∃ i, m = .turn i
  · obtain ⟨i, rfl⟩ := hturn
    rw [World.move]
    cases hs : w.served? i with
    | none => exact ⟨f, by rw [front_nobody hs, hf], hx⟩
    | some t =>
      rw [front_cancelled hs (hm i t rfl hs)]
      split
      · rw [Front.face?_unseat, hf]
        split
        · exact ⟨_, rfl, (congrArg (·.get? x) (Face.registered_unseat f _ _)).trans hx⟩
        · exact ⟨f, rfl, hx⟩
      · exact ⟨f, hf, hx⟩
  · rw [faces_outside w fun i e => hturn ⟨i, e⟩]
    exact ⟨f, hf, hx⟩

/-- where nobody counts, nobody is registered -/
theorem unregistered_of_vacant (ht : Tallied w) {f : Face} (hf : w.front.face? k = some f) (hz : f.count = 0)
    (x : SubscriberId) : f.registered.get? x = none := by
  obtain ⟨e, he, rfl⟩ := Option.map_eq_some_iff.1 hf
  have hroster : w.places.roster? k = some e.roster := congrArg (Option.map Entry.roster) he
  have hle := ht k
  simp only [Places.registered, Places.count, hroster, Option.map_some, Option.getD_some] at hle
  have hcount : e.roster.count = 0 := hz
  have hsize : e.registered.rows.length = 0 := by
    have hs : e.roster.registered.size = 0 := by omega
    exact hs
  have hrows : e.registered.rows = [] := List.length_eq_zero_iff.1 hsize
  have hget : e.registered.get? x = none := by
    rw [Table.get?, hrows]
    rfl
  exact hget

theorem entry_floorTo {f : Face} (hf : w.front.face? p.key = some f) (i : TaskId) :
    ∃ e, World.entry? (floorTo w i) p = some e ∧ e.face = f := by
  obtain ⟨e, he, rfl⟩ := Option.map_eq_some_iff.1 hf
  refine ⟨e, ?_, rfl⟩
  have hentries : (floorTo w i).entries = w.entries := congrArg Core.entries (core_floorTo w i)
  rw [World.entry?, hentries]
  exact he

/-- **A task that listens and has not been cancelled keeps its registration.** -/
theorem registered_of_old (hw : Wf w) (hm : Continues w m) (htally : Tallied w) {f : Face}
    (hf : w.front.face? k = some f) (hx : f.registered.get? x = some ⟨some j⟩) (ht : (w.move m).tasks.live.get? j = some t)
    (ha : t.phase.activity = .listening q x) (hc : t.cancelled = false) :
    ∃ f', (w.move m).front.face? k = some f' ∧ f'.registered.get? x = some ⟨some j⟩ := by
  rcases section_or_not w m with ⟨i, u, rfl, hs, hu⟩ | hidle
  · have hne : u.phase.activity.isService = false → j ≠ i := by
      rintro hservice rfl
      have hph : (serve w j).tasks.phase? j = some t.phase := congrArg (Option.map Task.phase) ht
      rw [phase?_serve hw hs hu] at hph
      obtain ⟨b, hb, hphase⟩ := Option.map_eq_some_iff.1 hph
      rw [← hphase] at ha
      have hb' := hb.trans (congrArg some ha)
      rw [listening_of_next hb'] at hservice
      cases hservice
    -- its registration cannot be taken away without cancelling it
    have hstays : ∀ w₁ : World, u.phase.activity.isService = false →
        ((floorTo w i).step u.phase.activity).1.roll = (w₁.cancelIf (some j)).roll → False := by
      intro w₁ hservice hroll
      rw [World.move, live_section_of_ne hs hu (hne hservice), live_of_roll hroll] at ht
      obtain ⟨t₁, -, -, hiff⟩ := cancelled_cancelIf ht
      rw [hiff.2 (Or.inl rfl)] at hc
      cases hc
    rcases (dealing_serve hw hs hu).unregisters (hm i u rfl hs hu).1 (hm i u rfl hs hu).2 hf hx with
      hkept | ⟨p, hact, rfl⟩ | ⟨seat, signal, hact, rfl, rfl⟩ | hz
    · exact hkept
    · obtain ⟨e, he, rfl⟩ := entry_floorTo hf i
      refine (hstays (floorTo w i) (by rw [hact]; rfl) ?_).elim
      rw [hact]
      exact roll_unwatch he hx
    · obtain ⟨e, he, rfl⟩ := entry_floorTo hf i
      rcases step_settling_cases (floorTo w i) seat signal with hstep | hstep
      · refine ⟨e.face, ?_, hx⟩
        rw [World.move, front_serve hs hu, hact, hstep, front_floorTo]
        exact hf
      · have hx' : e.registered.get? seat.subscriber = some ⟨some j⟩ := hx
        refine (hstays ((floorTo w i).listen seat.path seat.subscriber).2 (by rw [hact]; rfl) ?_).elim
        rw [hact, hstep, roll_register he, hx']
        rfl
    · cases (unregistered_of_vacant htally hf hz x).symm.trans hx
  · exact registration_of_no_section hidle hf hx

/-- **A move leaves those who listen in order.** -/
theorem heeds_move (hw : Wf w) (hm : Continues w m) (hrel : ∀ j, w.Relies j → w.ServedBy j) (htally : Tallied w)
    (h : w.Heeds) : (w.move m).Heeds where
  listener k f x r j ph hf hx hj hph := listener_move hw hm hrel h hf hx hj hph
  registered j t q x ht hc ha := by
    cases hlive : w.tasks.live.get? j with
    | none => exact registered_of_new hw hlive ht ha
    | some t₀ =>
      have hph : (w.move m).tasks.phase? j = some t.phase := congrArg (Option.map Task.phase) ht
      have hph₀ : w.tasks.phase? j = some t₀.phase := congrArg (Option.map Task.phase) hlive
      have hc₀ : t₀.cancelled = false := by
        rw [Bool.eq_false_iff]
        intro hc₀
        rw [stays_cancelled hw hlive hc₀ ht] at hc
        cases hc
      have ha₀ : t₀.phase.activity = .listening q x := by
        rcases phase?_old hw hm (hw.numbered.lt hph₀) hph with hsame | ⟨u, -, hserved, -, hb⟩
        · rw [Option.some.inj (hph₀.symm.trans hsame)]
          exact ha
        · cases (served?_eq_some hserved).2.symm.trans hlive
          rw [ha] at hb
          exact listening_of_next hb
      obtain ⟨f, hf, hx⟩ := h.registered j t₀ q x hlive hc₀ ha₀
      exact registered_of_old hw hm htally hf hx ht ha hc
  pump j ph hj hph := pump_move hw hm hrel h hj hph
  cancelled j t ht hc := runnable_cancelled hw hm hrel h ht hc
  left j ph q x hph ha hleft := runnable_left hw h hph ha hleft

theorem heeds_start (policy : WritePolicy) : (World.start policy).Heeds where
  listener k f x r j ph hf := by cases hf
  registered j t q x ht := by cases ht
  pump j ph hj := by cases hj
  cancelled j t ht := by cases ht
  left j ph q x hph := by cases hph

/-- **In a run without shutting down, whoever listens for a subscriber's leaving is named by its registration and gets to know of
it.** -/
theorem heeds_trace {policy : WritePolicy} {moves : Nat → Move} (h : ∀ n, moves n ≠ .call .shutDown) (n : Nat) :
    ((World.start policy).trace moves n).Heeds := by
  induction n with
  | zero => exact heeds_start policy
  | succ n ih =>
    exact heeds_move (reachable_trace policy moves n).wf (continues_trace h n) (fun j => servedBy_trace h n)
      (tally_trace h n) ih

/-! ## Subscribers who are attended to -/

/-- a task that listens for a subscriber's leaving at the path, or is about to unwatch the path for it -/
def Activity.attends? : Activity → Option (Path × SubscriberId)
  | .listening q x | .starting (.unwatch q x) => some (q, x)
  | _ => none

/-- A task that is nobody's call and has not been cancelled listens for the leaving of a registered subscriber, or is about to
unwatch the path for it. -/
def World.AttendsTo (w : World) (k : Path.Key) (x : SubscriberId) (r : Registration) : Prop :=
  ∃ j t q, w.tasks.live.get? j = some t ∧ t.cancelled = false ∧ q.key = k ∧
    (r.listener = some j ∧ t.phase = ⟨.service, .listening q x⟩ ∨ t.phase = ⟨.background, .starting (.unwatch q x)⟩)

/-- all who are registered at a path are attended to -/
def World.Attentive (w : World) (k : Path.Key) : Prop :=
  ∀ f x r, w.front.face? k = some f → f.registered.get? x = some r → w.AttendsTo k x r

/-- whoever has been unwatched is not registered any more -/
theorem unregistered_unwatch (w : World) (p : Path) (x : SubscriberId) {f : Face}
    (hf : (w.unwatch p x).1.front.face? p.key = some f) : f.registered.get? x = none := by
  cases he : w.entry? p with
  | none =>
    simp only [World.unwatch, he, face?_of_absent he] at hf
    cases hf
  | some e =>
    cases hr : e.registered.get? x with
    | none =>
      simp only [World.unwatch, he, hr, face?_of_present he] at hf
      cases hf
      exact hr
    | some r =>
      simp only [World.unwatch, he, hr] at hf
      have haside := aside_cancelIf (w.setEntry p { e with registered := e.registered.erase x }) r.listener
      have he' : World.entry? ((w.setEntry p { e with registered := e.registered.erase x }).cancelIf r.listener) p =
          some { e with registered := e.registered.erase x } := by
        rw [World.entry?, haside.entries]
        simp [World.setEntry, Table.get?_insert]
      have hface : f.registered = e.registered.erase x := by
        rcases front_releasePlace he' .unwatched with ⟨h, -⟩ | ⟨h, -⟩ <;> rw [h] at hf
        · rw [Front.face?_put, if_pos rfl] at hf
          cases hf
          rfl
        · rw [Front.leave, Front.face?_put, if_pos rfl] at hf
          cases hf
          rfl
      rw [hface, Table.get?_erase, if_pos rfl]

/-- a new task has not been cancelled -/
theorem uncancelled_new (hm : Continues w m) (hrel : ∀ j, w.Relies j → w.ServedBy j)
    (hno : w.tasks.live.get? j = none) (ht : (w.move m).tasks.live.get? j = some t) : t.cancelled = false := by
  rw [Bool.eq_false_iff]
  intro hc
  -- whoever is relied on has been there before, and does not come back
  have hold : ¬ w.Relies j := fun hj => by
    have hgone : (w.move m).tasks.live.get? j = none := (spares_move hm).gone j (hrel j hj).1 hno
    cases hgone.symm.trans ht
  rcases (spares_move hm).cancelled j t ht hc with (hj | hcancel) | ⟨t₀, ht₀, -⟩
  · exact hold hj
  · subst hcancel
    obtain ⟨t₁, ht₁, -, -⟩ := cancelled_cancelIf (y := some j) ht
    cases hno.symm.trans ht₁
  · cases hno.symm.trans ht₀

/-- a task that has the floor, with what its section does to the others -/
theorem phase?_section (hs : w.served? id = some t) (hc : t.cancelled = false) (hne : j ≠ id) :
    (serve w id).tasks.phase? j = ((floorTo w id).step t.phase.activity).1.tasks.phase? j := by
  rw [Tasks.phase?, Tasks.phase?, live_section_of_ne hs hc hne]

/-- **When a subscriber has left, the task that listens for it leaves the rest to the background.** -/
theorem attends_listening (hw : Wf w) (hm : Continues w (.turn j)) (hrel : ∀ j, w.Relies j → w.ServedBy j)
    (hopen : w.pool.closed = false) {r : Registration} (hs : w.served? j = some t) (hc : t.cancelled = false)
    (hphase : t.phase = ⟨.service, .listening q x⟩) (hr : r.listener = some j) : (serve w j).AttendsTo q.key x r := by
  have ha : t.phase.activity = .listening q x := congrArg Phase.activity hphase
  have hch : (floorTo w j).channels = w.channels := congrArg Front.channels (front_floorTo w j)
  by_cases hleft : w.hasLeft x = true
  · have hstep : (floorTo w j).step (.listening q x) = ((floorTo w j).inBackground (.unwatch q x), .ended (.ok .nothing)) := by
      simp only [World.step, World.stepListening, hch]
      exact if_pos hleft
    obtain ⟨i, hi, hnew⟩ := phase?_inBackground ((closed_floorTo w j).trans hopen) (.unwatch q x)
    rw [next_floorTo] at hi
    have hne : i ≠ j := (lt_of_lt_of_le (hw.numbered.lt (phase?_of_served hs)) hi).ne'
    have hstarted : (serve w j).tasks.phase? i = some ⟨.background, .starting (.unwatch q x)⟩ := by
      rw [phase?_section hs hc hne, ha, hstep]
      exact hnew
    obtain ⟨t', ht', hph'⟩ := Option.map_eq_some_iff.1 hstarted
    exact ⟨i, t', q, ht', uncancelled_new hm hrel (hw.numbered i hi) ht', rfl, Or.inr hph'⟩
  · have hstep : (floorTo w j).step (.listening q x) = (floorTo w j, .wait (.listening q x)) := by
      simp only [World.step, World.stepListening, hch]
      exact if_neg hleft
    have hgoes := phase?_serve hw hs hc
    rw [ha, hstep] at hgoes
    obtain ⟨t', ht', hph'⟩ := Option.map_eq_some_iff.1 hgoes
    refine ⟨j, t', q, ht', ?_, rfl, Or.inl ⟨hr, by rw [hph', hphase]⟩⟩
    obtain ⟨t₁, ht₁, hsame⟩ := live_section hs hc ht'
    rw [ha, hstep, live_floorTo, (served?_eq_some hs).2] at ht₁
    cases ht₁
    exact hsame.trans hc

/-- whoever attends to a subscriber goes on to do so if another task gets the floor and it is not cancelled -/
theorem AttendsTo.stays (hw : Wf w) {r : Registration} (ht : w.tasks.live.get? j = some t) (hq : q.key = k)
    (ha : r.listener = some j ∧ t.phase = ⟨.service, .listening q x⟩ ∨ t.phase = ⟨.background, .starting (.unwatch q x)⟩)
    (hserves : w.serves m j = false) (hc : ∀ t', (w.move m).tasks.live.get? j = some t' → t'.cancelled = false) :
    (w.move m).AttendsTo k x r := by
  have hph : w.tasks.phase? j = some t.phase := congrArg (Option.map Task.phase) ht
  obtain ⟨t', ht', hph'⟩ := Option.map_eq_some_iff.1 (phase?_kept hw hserves hph)
  exact ⟨j, t', q, ht', hc t' ht', hq, by rw [hph']; exact ha⟩

/-- whoever attends to a registered subscriber is cancelled only with the registration -/
theorem attending_cancelled (hw : Wf w) (hm : Continues w m) (hrel : ∀ j, w.Relies j → w.ServedBy j) (h : w.Heeds)
    {r : Registration} (ht : w.tasks.live.get? j = some t) (hc : t.cancelled = false)
    (ha : r.listener = some j ∧ t.phase = ⟨.service, .listening q x⟩ ∨ t.phase = ⟨.background, .starting (.unwatch q x)⟩)
    (hspared : m ≠ .cancel j) (ht' : (w.move m).tasks.live.get? j = some t') (hc' : t'.cancelled = true) :
    ∃ i a, w.carried? m = some (i, a) ∧ ((∃ p, a = .starting (.unwatch p x) ∧ p.key = q.key) ∨
      ∃ seat signal, a = .settling seat signal ∧ seat.path.key = q.key ∧ seat.subscriber = x) := by
  have hph : w.tasks.phase? j = some t.phase := congrArg (Option.map Task.phase) ht
  rcases cancelled_move hw hm hrel ht' hc' with ⟨t₀, ht₀, hc₀⟩ | ⟨hd, -⟩
  · cases ht.symm.trans ht₀
    cases hc.symm.trans hc₀
  · cases m with
    | turn i =>
      obtain ⟨⟨i', a⟩, hcarry, hquits⟩ := Option.bind_eq_some_iff.1 hd
      obtain ⟨k', f, y, r', hf, hx, hj, hact⟩ := quits?_eq_some hquits
      obtain ⟨q', hq', rfl⟩ := h.listener k' f y r' j t.phase hf hx hj hph
      rcases ha with ⟨-, ha⟩ | ha <;> rw [ha] at hq' <;> cases hq'
      exact ⟨i', a, hcarry, hact⟩
    | cancel i =>
      cases hd
      exact absurd rfl hspared
    | attachStream =>
      obtain ⟨y, hy⟩ := h.pump j t.phase hd hph
      rcases ha with ⟨-, ha⟩ | ha <;> rw [ha] at hy <;> cases hy
    | _ => cases hd

/-- **Whoever is registered at a path is attended to after a move**, if the move cancels nobody who attends to somebody there,
calls apart. -/
theorem attentive_move (hw : Wf w) (hm : Continues w m) (hrel : ∀ j, w.Relies j → w.ServedBy j)
    (hopen : w.pool.closed = false) (h : w.Heeds) (hk : w.Attentive k)
    (hspared : ∀ j ph q x, m = .cancel j → w.tasks.phase? j = some ph → ph.role ≠ .caller → ph.activity.attends? = some (q, x) →
      q.key ≠ k) :
    (w.move m).Attentive k := by
  intro f' x r hf' hx'
  -- a registration that names a new task, which listens
  have hnew : r.listener = some w.tasks.next → (∃ q, (w.move m).tasks.phase? w.tasks.next =
      some ⟨.service, .listening q x⟩ ∧ q.key = k) → (w.move m).AttendsTo k x r := by
    rintro hj ⟨q, hphase, hq⟩
    obtain ⟨t', ht', hph'⟩ := Option.map_eq_some_iff.1 hphase
    exact ⟨_, t', q, ht', uncancelled_new hm hrel (hw.numbered _ le_rfl) ht', hq, Or.inl ⟨hj, hph'⟩⟩
  -- one that has been there before
  have hold : (∃ f, w.front.face? k = some f ∧ f.registered.get? x = some r) → (w.move m).AttendsTo k x r := by
    rintro ⟨f, hf, hx⟩
    obtain ⟨j, t, q, ht, hc, hq, ha⟩ := hk f x r hf hx
    have hph : w.tasks.phase? j = some t.phase := congrArg (Option.map Task.phase) ht
    -- it is there no more if the path has been unwatched for the subscriber
    have hunwatched : ∀ i p, w.carried? m = some (i, .starting (.unwatch p x)) → p.key = k → False := by
      rintro i p hcarry rfl
      obtain ⟨u, rfl, hs, hu, hact⟩ := carried?_eq_some.1 hcarry
      rw [World.move, front_serve hs hu, hact] at hf'
      cases (unregistered_unwatch _ p x hf').symm.trans hx'
    cases hserves : w.serves m j with
    | true =>
      obtain ⟨rfl, hgo⟩ := serves_iff.1 hserves
      have hs : w.served? j = some t := by simp [World.served?, hgo, ht]
      rcases ha with ⟨hj, ha⟩ | ha
      · rw [← hq]
        exact attends_listening hw hm hrel hopen hs hc ha hj
      · have hcarry := carried?_of_served hs hc
        rw [ha] at hcarry
        exact (hunwatched j q hcarry hq).elim
    | false =>
      refine AttendsTo.stays hw ht hq ha hserves fun t' ht' => ?_
      rw [Bool.eq_false_iff]
      intro hc'
      have hne : m ≠ .cancel j := by
        intro hcancel
        refine hspared j t.phase q x hcancel hph ?_ ?_ hq
        · rcases ha with ⟨-, ha⟩ | ha <;> rw [ha] <;> simp
        · rcases ha with ⟨-, ha⟩ | ha <;> rw [ha] <;> rfl
      obtain ⟨i, a, hcarry, ⟨p, rfl, hp⟩ | ⟨seat, signal, rfl, hp, rfl⟩⟩ := attending_cancelled hw hm hrel h ht hc ha hne ht' hc'
      · exact hunwatched i p hcarry (hp.trans hq)
      · obtain ⟨u, rfl, hs, hu, hact⟩ := carried?_eq_some.1 hcarry
        rw [World.move, front_serve hs hu, hact] at hf'
        rw [World.move] at ht'
        rcases step_settling_cases (floorTo w i) seat signal with hstep | hstep
        · -- nobody has been cancelled
          obtain ⟨t₁, ht₁, hsame⟩ := live_section hs hu ht'
          rw [hact, hstep, live_floorTo, ht] at ht₁
          cases ht₁
          rw [hsame, hc] at hc'
          cases hc'
        · -- the registration is another one
          rw [hstep, ← hq, ← hp] at hf'
          have hr : r.listener = some w.tasks.next := by
            cases (registered_register hf').symm.trans hx'
            rw [World.listen, if_neg (by rw [closed_floorTo, hopen]; simp)]
            exact congrArg some (next_floorTo w i)
          have hlisten : w.Listens w.tasks.next := listens_iff.2 ⟨k, f, _, r, hf, hx, hr⟩
          exact absurd (hrel _ (Or.inl hlisten)).1 (lt_irrefl _)
  rcases section_or_not w m with ⟨i, u, rfl, hs, hu⟩ | hidle
  · rcases registration_serve hw hs hu hf' hx' with hbefore | ⟨hlistener, hphase⟩
    · exact hold hbefore
    · exact hnew (hlistener hopen) (hphase _ (hlistener hopen))
  · exact hold (noNewer_of_no_section hidle k f' x r hf' hx')

end LiveFiles.Engine
