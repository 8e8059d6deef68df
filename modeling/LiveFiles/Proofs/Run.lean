/-
One move of a run. `served? w id` is the task that carries out a section when it is the turn of `id`, and `Marks w m` are
the marks that a move may leave.
- **`move_served`**: a move is a chain of effects of one task, with marks of this move; the other tasks keep what they
  have at stake.
- **`wf_move`**: the engine stays well-formed (`Wf`): tasks are numbered, turns are accounted for, and whoever is neither
  in the queue nor on the floor waits for something that has not happened.
- `serve_of_nobody` and `outside` say what a move can do that is not a section: what happens from outside changes the disk as
  the move says, stirs some tasks (`Stirs`) and leaves alone whatever only sections change (`Outside`).
Every state of a run is `Reachable`, and every reachable state is well-formed (`Reachable.wf`).
-/
import LiveFiles.Engine.Run
import LiveFiles.Proofs.Step

namespace LiveFiles.Engine

namespace World

/-- the task that carries out a section in this turn -/
def served? (w : World) (id : TaskId) : Option (Task Phase) := if canGo w id then w.tasks.live.get? id else none

/-- what a task has at stake; nothing if it has ended -/
def stakes (w : World) (id : TaskId) : Stake := ((w.tasks.phase? id).map fun p => p.activity.stake).getD {}

end World

/-- the marks that a move may leave -/
def Marks (w : World) (m : Move) (x : Mark) : Prop :=
  match m with
  | .turn id => ∃ t, w.served? id = some t ∧ if t.cancelled then Forgone w t.phase.activity x else Occurs w t.phase.activity x
  | .call .shutDown => x = .shutsDown
  | _ => False

/-- shutting down apart, marks are left by the section of a task -/
theorem Marks.served {w : World} {m : Move} {x : Mark} (h : Marks w m x) (hx : x ≠ .shutsDown) :
    ∃ id t, m = .turn id ∧ w.served? id = some t ∧
      if t.cancelled then Forgone w t.phase.activity x else Occurs w t.phase.activity x := by
  cases m with
  | turn id =>
    obtain ⟨t, ht, h⟩ := h
    exact ⟨id, t, rfl, ht, h⟩
  | call r =>
    cases r with
    | shutDown => exact absurd h hx
    | _ => cases h
  | _ => cases h

/-- tasks are numbered, turns are accounted for, and whoever is neither in the queue nor on the floor waits -/
structure Wf (w : World) : Prop where
  numbered : w.tasks.Numbered
  sound : Sound w.core w.stakes
  woken : w.Woken

/-- the states of runs -/
inductive Reachable : World → Prop
  | start (policy : WritePolicy) : Reachable (World.start policy)
  | move {w : World} (m : Move) : Reachable w → Reachable (w.move m)

theorem reachable_trace (policy : WritePolicy) (moves : Nat → Move) (n : Nat) :
    Reachable ((World.start policy).trace moves n) := by
  induction n with
  | zero => exact .start policy
  | succ n ih => exact .move _ ih

variable {w w' : World} {id : TaskId} {t : Task Phase} {E : Mark → Prop}

/-! ## Stakes -/

theorem stakes_of_phase {p : Phase} (h : w.tasks.phase? id = some p) : w.stakes id = p.activity.stake := by
  simp [World.stakes, h]

theorem stakes_of_none (h : w.tasks.phase? id = none) : w.stakes id = {} := by
  simp [World.stakes, h]

theorem Wf.reserved (h : Wf w) : w.Reserved := by
  intro id p τ hp hτ
  exact h.sound.turns.fresh id τ (by rw [held, stakes_of_phase hp]; exact hτ)

/-- whatever the others do, they have the same at stake -/
theorem Ripple.stakes (h : Ripple w w') (hn : w.tasks.Numbered) : w'.stakes = w.stakes := by
  funext id
  by_cases hlt : id < w.tasks.next
  · simp only [World.stakes, h.grows.phase id hlt]
  · have hnone : w.tasks.phase? id = none := Tasks.phase?_eq_none_iff.2 (hn id (not_lt.1 hlt))
    rw [stakes_of_none hnone]
    cases hp : w'.tasks.phase? id with
    | none => exact stakes_of_none hp
    | some p => rw [stakes_of_phase hp, (h.grows.fresh hn id p (not_lt.1 hlt) hp).1.stake]

/-! ## A section -/

theorem canGo_eq (w : World) (id : TaskId) : canGo w id =
    match w.tasks.floor with
    | some x => decide (x = id)
    | none => decide (id ∈ w.tasks.ready) := rfl

theorem floorTo_eq (w : World) (id : TaskId) : floorTo w id =
    match w.tasks.floor with
    | some _ => w
    | none => Machine.giveFloor w id := rfl

theorem core_floorTo (w : World) (id : TaskId) : (floorTo w id).core = w.core := by
  unfold floorTo
  split <;> rfl

theorem live_floorTo (w : World) (id : TaskId) : (floorTo w id).tasks.live = w.tasks.live := by
  unfold floorTo
  split <;> rfl

theorem next_floorTo (w : World) (id : TaskId) : (floorTo w id).tasks.next = w.tasks.next := by
  unfold floorTo
  split <;> rfl

theorem phase?_floorTo (w : World) (id id' : TaskId) : (floorTo w id).tasks.phase? id' = w.tasks.phase? id' := by
  rw [Tasks.phase?, live_floorTo, Tasks.phase?]

theorem floor_floorTo (h : canGo w id = true) : (floorTo w id).tasks.floor = some id := by
  rw [canGo_eq] at h
  rw [floorTo_eq]
  split <;> rename_i hf
  · rw [hf] at h ⊢
    simpa using h
  · rfl

theorem stakes_floorTo (w : World) (id : TaskId) : (floorTo w id).stakes = w.stakes := by
  funext id'
  simp only [World.stakes, phase?_floorTo]

theorem disk_floorTo (w : World) (id : TaskId) : (floorTo w id).disk = w.disk := by
  unfold floorTo
  split <;> rfl

/-- the others stay in the queue when a task gets the floor -/
theorem mem_ready_floorTo {x : TaskId} (hx : x ≠ id) (h : x ∈ w.tasks.ready) : x ∈ (floorTo w id).tasks.ready := by
  unfold floorTo
  split
  · exact h
  · exact (List.mem_erase_of_ne hx).2 h

theorem numbered_floorTo (hn : w.tasks.Numbered) (id : TaskId) : (floorTo w id).tasks.Numbered := by
  intro x hx
  rw [next_floorTo] at hx
  rw [live_floorTo]
  exact hn x hx

/-- giving the floor to a task that can go on leaves nobody asleep who should not be -/
theorem woken_floorTo (hw : w.Woken) (h : canGo w id = true) : (floorTo w id).Woken := by
  intro x p hp
  rw [phase?_floorTo] at hp
  by_cases hx : x = id
  · subst hx
    exact Or.inr (Or.inl (floor_floorTo h))
  · rcases hw x p hp with hr | hf | hb
    · exact Or.inl (mem_ready_floorTo hx hr)
    · have he : floorTo w id = w := by rw [floorTo_eq, hf]
      rw [he]
      exact Or.inr (Or.inl hf)
    · refine Or.inr (Or.inr ?_)
      unfold floorTo
      split
      · exact hb
      · exact hb.mono (fun _ h => h) (fun _ h => h)

theorem wf_floorTo (hw : Wf w) (h : canGo w id = true) : Wf (floorTo w id) where
  numbered := numbered_floorTo hw.numbered id
  sound := by rw [core_floorTo, stakes_floorTo]; exact hw.sound
  woken := woken_floorTo hw.woken h

/-- a task whose turn it is, with the state in which its section begins -/
theorem served?_eq_some (h : w.served? id = some t) : canGo w id = true ∧ w.tasks.live.get? id = some t := by
  unfold World.served? at h
  split at h
  · exact ⟨‹_›, h⟩
  · cases h

theorem phase?_of_served (h : w.served? id = some t) : w.tasks.phase? id = some t.phase := by
  rw [Tasks.phase?, (served?_eq_some h).2]
  rfl

theorem stakes_of_served (h : w.served? id = some t) : w.stakes id = t.phase.activity.stake :=
  stakes_of_phase (phase?_of_served h)

theorem occurs_floorTo (w : World) (id : TaskId) (a : Activity) : Occurs (floorTo w id) a = Occurs w a := by
  unfold floorTo
  split <;> rfl

theorem forgone_floorTo (w : World) (id : TaskId) (a : Activity) : Forgone (floorTo w id) a = Forgone w a := by
  unfold floorTo
  split <;> rfl

/-- a section of a task, with what its end means -/
theorem runs_advance (hw : w.Reserved) (id : TaskId) (p : Phase) :
    Runs (Occurs w p.activity) w p.activity.stake (fun q : Phase => q.activity.view) {} (w.advance id p) := by
  have h := runs_step hw p.activity
  unfold World.advance
  rcases hx : w.step p.activity with ⟨w', a | a | a | o⟩ <;> rw [hx] at h
  · exact .go h.does
  · exact .wait h.does (h.waits a rfl)
  · exact .pause h.does
  · exact .ended (h.does.trans (does_finish w' id p.role (.returned o) {}))

/-- the world after a section has been recorded -/
def World.after (id : TaskId) (r : World × Section Phase Unit) : World :=
  { r.1 with tasks := r.1.tasks.record id r.2 }

theorem serve_of_section (h : w.served? id = some t) (hc : t.cancelled = false) :
    serve w id = World.after id ((floorTo w id).advance id t.phase) := by
  obtain ⟨hgo, ht⟩ := served?_eq_some h
  have ht' : (Machine.tasks (floorTo w id)).live.get? id = some t := by
    rw [← ht, ← live_floorTo w id]
    rfl
  simp only [serve, hgo, if_true, Machine.runSection, ht', hc, Bool.false_eq_true, if_false]
  rfl

/-- core and disk after a section are what the step of the task has made of them -/
theorem core_serve_of_section (h : w.served? id = some t) (hc : t.cancelled = false) :
    (serve w id).core = ((floorTo w id).step t.phase.activity).1.core ∧
      (serve w id).disk = ((floorTo w id).step t.phase.activity).1.disk := by
  rw [serve_of_section h hc]
  unfold World.advance
  rcases (floorTo w id).step t.phase.activity with ⟨w', a | a | a | o⟩
  · exact ⟨rfl, rfl⟩
  · exact ⟨rfl, rfl⟩
  · exact ⟨rfl, rfl⟩
  · cases hr : t.phase.role <;> exact ⟨rfl, rfl⟩

/-- the tasks without one that has been cancelled and is over -/
def World.without (w : World) (id : TaskId) : World :=
  { w with tasks := { w.tasks with live := w.tasks.live.erase id, floor := none } }

theorem serve_of_cancelled (h : w.served? id = some t) (hc : t.cancelled = true) :
    serve w id =
      (((floorTo w id).without id).abandon t.phase.activity).finish id t.phase.role .cancelled := by
  obtain ⟨hgo, ht⟩ := served?_eq_some h
  have ht' : (Machine.tasks (floorTo w id)).live.get? id = some t := by
    rw [← ht, ← live_floorTo w id]
    rfl
  simp only [serve, hgo, if_true, Machine.runSection, ht', hc]
  rfl

theorem stakes_after {r : World × Section Phase Unit} (hid : (r.1.tasks.phase? id).isSome) :
    (World.after id r).stakes =
      Function.update r.1.stakes id (Section.stake (fun q : Phase => q.activity.view) {} r.2) := by
  funext x
  simp only [World.stakes, World.after, Tasks.phase?_record]
  by_cases hx : x = id
  · subst hx
    obtain ⟨p, hp⟩ := Option.isSome_iff_exists.1 hid
    simp only [if_true, hp, Option.bind_some, Function.update_self]
    rfl
  · rw [if_neg (Ne.symm hx), Function.update_of_ne hx]
    rfl

theorem woken_after {r : World × Section Phase Unit} (hr : r.1.Woken) (hf : r.1.tasks.floor = some id)
    (hw : ∀ p, r.2 = .wait p → p.Waits r.1) : (World.after id r).Woken := by
  intro x p hp
  simp only [World.after, Tasks.phase?_record] at hp ⊢
  by_cases hx : x = id
  · subst hx
    rw [if_pos rfl] at hp
    obtain ⟨q, -, hq⟩ := Option.bind_eq_some_iff.1 hp
    cases hs : r.2 with
    | go a => exact Or.inr (Or.inl hf)
    | wait a =>
      rw [hs] at hq
      cases hq
      exact Or.inr (Or.inr ((hw p hs).mono (fun _ h => h) fun _ h => h))
    | pause a => exact Or.inl (by simp [Tasks.record])
    | ended a =>
      rw [hs] at hq
      cases hq
  · rw [if_neg (Ne.symm hx)] at hp
    rcases hr x p hp with h | h | h
    · exact Or.inl (Tasks.ready_record _ _ _ h)
    · exact absurd (Option.some.inj (hf.symm.trans h)).symm hx
    · exact Or.inr (Or.inr (h.mono (fun _ h => h) fun _ h => h))

/-- what a section does, whoever carries it out -/
structure Served (E : Mark → Prop) (w : World) (id : TaskId) (w' : World) : Prop where
  effects : ∃ s', Effects E w.core (w.stakes id) w'.core s' ∧ w'.stakes = Function.update w.stakes id s'
  disk : w.disk.Later w'.disk
  numbered : w'.tasks.Numbered
  woken : w'.Woken

theorem served_section (hw : Wf w) (h : w.served? id = some t) (hc : t.cancelled = false) :
    Served (Occurs w t.phase.activity) w id (serve w id) := by
  obtain ⟨hgo, ht⟩ := served?_eq_some h
  have hw₀ := wf_floorTo hw hgo
  have hp₀ : (floorTo w id).tasks.phase? id = some t.phase := by rw [phase?_floorTo, Tasks.phase?, ht]; rfl
  have hr := runs_advance hw₀.reserved id t.phase
  rw [serve_of_section h hc]
  generalize (floorTo w id).advance id t.phase = r at hr
  have hlive : (r.1.tasks.phase? id).isSome := by rw [hr.does.ripple.grows.phase id (hw₀.numbered.lt hp₀), hp₀]; rfl
  refine ⟨⟨Section.stake (fun q : Phase => q.activity.view) {} r.2, ?_, ?_⟩, ?_, ?_, ?_⟩
  · have he := hr.does.effects
    rw [occurs_floorTo, core_floorTo, ← stakes_of_phase hp₀, stakes_floorTo] at he
    exact he
  · rw [stakes_after hlive, hr.does.ripple.stakes hw₀.numbered, stakes_floorTo]
  · rw [← disk_floorTo w id]
    exact hr.does.ripple.disk
  · exact Tasks.numbered_record (hr.does.ripple.grows.numbered hw₀.numbered) _ _
  · exact woken_after (hr.does.ripple.woken hw₀.numbered hw₀.woken)
      (hr.does.ripple.grows.floor.trans (floor_floorTo hgo)) hr.waits

theorem phase?_without (w : World) (id x : TaskId) :
    (w.without id).tasks.phase? x = if id = x then none else w.tasks.phase? x := by
  simp only [World.without, Tasks.phase?, Table.get?_erase]
  split <;> rfl

theorem woken_without (hw : w.Woken) (hf : w.tasks.floor = some id) : (w.without id).Woken := by
  intro x p hp
  rw [phase?_without] at hp
  split at hp
  · cases hp
  · rename_i hx
    rcases hw x p hp with h | h | h
    · exact Or.inl h
    · exact absurd (Option.some.inj (hf.symm.trans h)) hx
    · exact Or.inr (Or.inr (h.mono (fun _ h => h) fun _ h => h))

theorem numbered_without (hn : w.tasks.Numbered) (id : TaskId) : (w.without id).tasks.Numbered := by
  intro x hx
  simp only [World.without, Table.get?_erase]
  split
  · rfl
  · exact hn x hx

/-- what a cancelled task that gets the floor lets go of -/
theorem does_cancelled (h : w.served? id = some t) (hc : t.cancelled = true) :
    Does (Forgone w t.phase.activity) ((floorTo w id).without id) (w.stakes id) (serve w id) {} := by
  obtain ⟨hgo, ht⟩ := served?_eq_some h
  have hp₀ : w.tasks.phase? id = some t.phase := by rw [Tasks.phase?, ht]; rfl
  have hd := (does_abandon ((floorTo w id).without id) t.phase.activity).trans
    (does_finish _ id t.phase.role .cancelled {})
  have hfor : Forgone ((floorTo w id).without id) t.phase.activity = Forgone w t.phase.activity :=
    forgone_floorTo w id t.phase.activity
  rw [hfor, ← stakes_of_phase hp₀] at hd
  rw [serve_of_cancelled h hc]
  exact hd

/-- it is gone then -/
theorem phase?_serve_of_cancelled (hw : Wf w) (h : w.served? id = some t) (hc : t.cancelled = true) :
    (serve w id).tasks.phase? id = none := by
  have hgo := (served?_eq_some h).1
  have hn := (wf_floorTo hw hgo).numbered
  have hlt : id < ((floorTo w id).without id).tasks.next := by
    refine hn.lt (p := t.phase) ?_
    rw [phase?_floorTo, Tasks.phase?, (served?_eq_some h).2]
    rfl
  rw [(does_cancelled h hc).ripple.grows.phase id hlt, phase?_without, if_pos rfl]

/-- it has nothing at stake then -/
theorem stakes_serve_of_cancelled (hw : Wf w) (h : w.served? id = some t) (hc : t.cancelled = true) :
    (serve w id).stakes = Function.update w.stakes id {} := by
  have hn := numbered_without (wf_floorTo hw (served?_eq_some h).1).numbered id
  rw [(does_cancelled h hc).ripple.stakes hn]
  funext x
  simp only [World.stakes, phase?_without, phase?_floorTo]
  by_cases hx : x = id
  · simp [hx]
  · rw [if_neg (Ne.symm hx), Function.update_of_ne hx]
    rfl

theorem served_cancelled (hw : Wf w) (h : w.served? id = some t) (hc : t.cancelled = true) :
    Served (Forgone w t.phase.activity) w id (serve w id) := by
  have hgo := (served?_eq_some h).1
  have hw₀ := wf_floorTo hw hgo
  have hn := numbered_without hw₀.numbered id
  have hd := does_cancelled h hc
  have hcore : ((floorTo w id).without id).core = w.core := core_floorTo w id
  refine ⟨⟨{}, hcore ▸ hd.effects, stakes_serve_of_cancelled hw h hc⟩, ?_, hd.ripple.grows.numbered hn, ?_⟩
  · rw [← disk_floorTo w id]
    exact hd.ripple.disk
  · exact hd.ripple.woken hn (woken_without hw₀.woken (floor_floorTo hgo))

/-! ## Any move -/

theorem marks_of_section (h : w.served? id = some t) (hc : t.cancelled = false) :
    Marks w (.turn id) = Occurs w t.phase.activity := by
  funext x
  simp [Marks, h, hc]

theorem marks_of_cancelled (h : w.served? id = some t) (hc : t.cancelled = true) :
    Marks w (.turn id) = Forgone w t.phase.activity := by
  funext x
  simp [Marks, h, hc]

/-- what happens from outside, so far as no task comes to have anything at stake -/
theorem served_ripple (hw : Wf w) (id : TaskId) (hc : w'.core = w.core) (hr : Ripple w w') : Served E w id w' := by
  refine ⟨⟨w.stakes id, ?_, ?_⟩, hr.disk, hr.grows.numbered hw.numbered, hr.woken hw.numbered hw.woken⟩
  · rw [hc]
    exact .refl _ _
  · rw [hr.stakes hw.numbered, Function.update_eq_self]

/-- the turn of a task that has ended takes the floor from it -/
theorem serve_of_ended (hgo : canGo w id = true) (ht : w.tasks.live.get? id = none) :
    serve w id = { floorTo w id with tasks := { (floorTo w id).tasks with floor := none } } := by
  have ht' : (Machine.tasks (floorTo w id)).live.get? id = none := by
    rw [← ht, ← live_floorTo w id]
    rfl
  simp only [serve, hgo, if_true, Machine.runSection, ht']
  rfl

/-- Where a task cannot go on, or has ended, its turn concerns the queue and the floor, and nothing else. -/
theorem serve_of_nobody (h : w.served? id = none) :
    ∃ ready floor, serve w id = { w with tasks := { w.tasks with ready, floor } } := by
  by_cases hgo : canGo w id = true
  · rw [serve_of_ended hgo (by simpa [World.served?, hgo] using h)]
    unfold floorTo
    split
    · exact ⟨_, _, rfl⟩
    · exact ⟨_, _, rfl⟩
  · exact ⟨w.tasks.ready, w.tasks.floor, by rw [serve, if_neg hgo]⟩

/-- the turn of a task that cannot go on, or has ended -/
theorem served_nobody (hw : Wf w) (h : w.served? id = none) : Served E w id (serve w id) := by
  by_cases hgo : canGo w id = true
  · have ht : w.tasks.live.get? id = none := by simpa [World.served?, hgo] using h
    have hw₀ := wf_floorTo hw hgo
    rw [serve_of_ended hgo ht]
    refine ⟨⟨w.stakes id, ?_, ?_⟩, ?_, hw₀.numbered, fun x p hp => ?_⟩
    · have hcore : World.core { floorTo w id with tasks := { (floorTo w id).tasks with floor := none } } = w.core :=
        core_floorTo w id
      rw [hcore]
      exact .refl _ _
    · rw [Function.update_eq_self]
      exact stakes_floorTo w id
    · rw [← disk_floorTo w id]
      exact .refl _
    · rcases hw₀.woken x p hp with h | h | h
      · exact Or.inl h
      · have hx : x = id := Option.some.inj (h.symm.trans (floor_floorTo hgo))
        have hnone : (floorTo w id).tasks.phase? x = none := by
          rw [hx, phase?_floorTo]
          exact Tasks.phase?_eq_none_iff.2 ht
        rw [show World.tasks _ = _ from rfl] at hp
        exact absurd (hnone.symm.trans hp) (by simp)
      · exact Or.inr (Or.inr (h.mono (fun _ h => h) fun _ h => h))
  · have he : serve w id = w := by simp [serve, hgo]
    rw [he]
    exact served_ripple hw id rfl (.refl w)

/-- nobody's phase changes in it -/
theorem phase?_serve_of_nobody (h : w.served? id = none) (x : TaskId) :
    (serve w id).tasks.phase? x = w.tasks.phase? x := by
  obtain ⟨ready, floor, hserve⟩ := serve_of_nobody h
  rw [hserve]
  rfl

theorem served_turn (hw : Wf w) (id : TaskId) : Served (Marks w (.turn id)) w id (serve w id) := by
  cases h : w.served? id with
  | none => exact served_nobody hw h
  | some t =>
    cases hc : t.cancelled with
    | false =>
      rw [marks_of_section h hc]
      exact served_section hw h hc
    | true =>
      rw [marks_of_cancelled h hc]
      exact served_cancelled hw h hc

/-- a call is one more task -/
theorem served_call (hw : Wf w) (r : Request) : Served (Marks w (.call r)) w w.tasks.next (w.call r).2 := by
  have hnew : w.stakes w.tasks.next = {} :=
    stakes_of_none (Tasks.phase?_eq_none_iff.2 (hw.numbered _ le_rfl))
  have hg : w.tasks.Grows (fun _ => True) (w.call r).2.tasks := Tasks.grows_spawn _ trivial
  have hphase : ∀ x, (w.call r).2.tasks.phase? x =
      if w.tasks.next = x then some ⟨.caller, .starting r⟩ else w.tasks.phase? x := Tasks.phase?_spawn _ _
  refine ⟨⟨(Activity.starting r).stake, ?_, ?_⟩, .refl _, hg.numbered hw.numbered, fun x p hp => ?_⟩
  · rw [hnew]
    have hcore : (w.call r).2.core = w.core := rfl
    rw [hcore]
    cases r with
    | shutDown => exact .single (.shutDown rfl)
    | _ => exact .refl _ _
  · funext x
    simp only [World.stakes, hphase]
    by_cases hx : x = w.tasks.next
    · simp [hx]
    · rw [if_neg (Ne.symm hx), Function.update_of_ne hx]
      rfl
  · rw [hphase] at hp
    split at hp
    · rename_i hx
      exact Or.inl (by simp [World.call, World.spawn, Tasks.spawn, hx])
    · rcases hw.woken x p hp with h | h | h
      · exact Or.inl (hg.ready h)
      · exact Or.inr (Or.inl h)
      · exact Or.inr (Or.inr (h.mono (fun _ h => h) fun _ h => h))

theorem ripple_onDisk (w : World) {f : Disk → Disk} (h : w.disk.Later (f w.disk)) : Ripple w (w.onDisk f) :=
  .rest rfl rfl rfl h

/-- what happens from outside to anything but the tasks -/
theorem core_drain (w : World) (id : SubscriberId) : (w.drain id).2.core = w.core ∧ Ripple w (w.drain id).2 := by
  unfold World.drain
  split
  · exact ⟨rfl, .refl w⟩
  · exact ⟨rfl, .rest rfl rfl rfl (.refl _)⟩

theorem core_tryRead (w : World) (id : SubscriberId) : (w.tryRead id).2.core = w.core ∧ Ripple w (w.tryRead id).2 := by
  unfold World.tryRead
  split
  · exact ⟨rfl, .refl w⟩
  · split
    · exact ⟨rfl, .rest rfl rfl rfl (.refl _)⟩
    · exact ⟨rfl, .refl w⟩

theorem core_sendEvent (w : World) (x : StreamId) (ev : Event) :
    (w.sendEvent x ev).2.core = w.core ∧ Ripple w (w.sendEvent x ev).2 := by
  unfold World.sendEvent
  split
  · split
    · have h1 : ∀ c, Ripple w { w with streams := w.streams.insert x c } := fun _ => .rest rfl rfl rfl (.refl _)
      exact ⟨rfl, (h1 _).trans (ripple_wake _ _)⟩
    · exact ⟨rfl, .refl w⟩
  · exact ⟨rfl, .refl w⟩

theorem core_attachStream (w : World) : w.attachStream.2.core = w.core ∧ Ripple w w.attachStream.2 := by
  unfold World.attachStream
  have h1 : Ripple w { w with streams := w.streams.insert w.nextStream {}, nextStream := w.nextStream + 1 } :=
    .rest rfl rfl rfl (.refl _)
  have h2 := h1.trans (ripple_spawn _ .service (a := .pumping w.nextStream) rfl rfl)
  have h3 : ∀ {w₁ : World} (pump : Option TaskId), Ripple w₁ { w₁ with pump } := fun _ => .rest rfl rfl rfl (.refl _)
  dsimp only
  exact ⟨core_cancelIf _ _, (h2.trans (h3 (some w.tasks.next))).trans (ripple_cancelIf _ w.pump)⟩

/-! ### What happens from outside -/

/-- what happens from outside to the disk -/
def Move.onDisk : Move → Disk → Disk
  | .putFile p bytes => (·.putFile p bytes)
  | .removeFile p => (·.removeFile p)
  | .touch p => (·.touch p)
  | .orderFailure op p message => (·.orderFailure op p message)
  | .clearFailure op p => (·.clearFailure op p)
  | .hold op p => fun d => (d.hold op p).2
  | .openGate g => (·.openGate g)
  | _ => fun d => d

/-- what a move from outside lets go on -/
def Move.awaited? : Move → Option Await
  | .openGate g => some (.gate g)
  | .closeSubscriber x | .dropSubscriber x => some (.farewell x)
  | .sendEvent s _ | .closeStream s => some (.message s)
  | _ => none

/-- what a move from outside does to the tasks: it leaves them alone, wakes those that wait for something, starts one or cancels
one -/
inductive Stirs (w : World) : Move → Tasks Phase → Prop
  | still {m : Move} : Stirs w m w.tasks
  | wakes {m : Move} (a : Await) (ha : m.awaited? = some a) : Stirs w m (w.tasks.wake fun ph => ph.activity.awaits = a)
  | calls (r : Request) (hr : r.isPublic = true) : Stirs w (.call r) (w.tasks.spawn ⟨.caller, .starting r⟩).2
  | cancels (i : TaskId) : Stirs w (.cancel i) (w.tasks.cancel i)
  | reports (q : Path) : Stirs w (.notifyChange q)
      ((w.tasks.wake fun ph => ph.activity.awaits = .quiet).spawn ⟨.background, .starting (.reconcile q)⟩).2
  | attaches (hpump : w.pump = none) : Stirs w .attachStream (w.tasks.spawn ⟨.service, .pumping w.nextStream⟩).2
  | reattaches (i : TaskId) (hpump : w.pump = some i) :
      Stirs w .attachStream ((w.tasks.spawn ⟨.service, .pumping w.nextStream⟩).2.cancel i)

/-- What happens from outside: the disk changes as the move says, tasks are stirred, and whatever only sections change is as it
was. -/
structure Outside (w : World) (m : Move) (w' : World) : Prop where
  tasks : Stirs w m w'.tasks
  disk : w'.disk = m.onDisk w.disk := by rfl
  calls : w'.watcher.calls = w.watcher.calls := by rfl
  attempts : w'.watcher.attempts = w.watcher.attempts := by rfl
  entries : w'.entries = w.entries := by rfl
  isShutDown : w'.isShutDown = w.isShutDown := by rfl
  closed : w'.pool.closed = w.pool.closed := by rfl
  endings : w'.endings = w.endings := by rfl
  stream : m ≠ .attachStream → w'.nextStream = w.nextStream ∧ w'.pump = w.pump := by exact fun _ => ⟨rfl, rfl⟩

theorem outside (w : World) {m : Move} (hm : ∀ i, m ≠ .turn i) : Outside w m (w.move m) := by
  cases m with
  | turn i => exact absurd rfl (hm i)
  | call r =>
    simp only [World.move]
    split
    · next hr => exact { tasks := .calls r hr }
    · exact { tasks := .still }
  | cancel i => exact { tasks := .cancels i }
  | openGate g | closeSubscriber x | dropSubscriber x | closeStream s => exact { tasks := .wakes _ rfl }
  | notifyChange q =>
    simp only [World.move, World.notifyChange, World.inBackground, Pool.accept]
    split
    · exact { tasks := .still }
    · next pool haccept =>
      split at haccept
      · cases haccept
      · cases haccept
        exact { tasks := .reports q }
  | attachStream =>
    simp only [World.move, World.attachStream]
    cases hpump : w.pump with
    | none => exact { tasks := .attaches hpump, stream := fun h => absurd rfl h }
    | some i => exact { tasks := .reattaches i hpump, stream := fun h => absurd rfl h }
  | sendEvent s ev =>
    simp only [World.move, World.sendEvent]
    split
    · split
      · exact { tasks := .wakes (.message s) rfl }
      · exact { tasks := .still }
    · exact { tasks := .still }
  | drain x =>
    simp only [World.move, World.drain]
    split <;> exact { tasks := .still }
  | tryRead x =>
    simp only [World.move, World.tryRead]
    split
    · exact { tasks := .still }
    · split <;> exact { tasks := .still }
  | _ => exact { tasks := .still }

/-- turns and calls apart, a move changes nothing that the protocol sees -/
theorem outside_move (w : World) {m : Move} (ht : ∀ id, m ≠ .turn id) (hc : ∀ r, m ≠ .call r) :
    (w.move m).core = w.core ∧ Ripple w (w.move m) := by
  have hdisk : ∀ f : Disk → Disk, w.disk.Later (f w.disk) → (w.onDisk f).core = w.core ∧ Ripple w (w.onDisk f) :=
    fun _ h => ⟨rfl, ripple_onDisk w h⟩
  cases m with
  | turn id => exact absurd rfl (ht id)
  | call r => exact absurd rfl (hc r)
  | cancel id => exact ⟨rfl, ripple_cancel w id⟩
  | putFile p bytes => exact hdisk (·.putFile p bytes) (Disk.later_putFile _ p bytes)
  | removeFile p => exact hdisk (·.removeFile p) (Disk.later_removeFile _ p)
  | touch p => exact hdisk (·.touch p) (Disk.later_touch _ p)
  | orderFailure op p message => exact hdisk (·.orderFailure op p message) (.of_same rfl rfl)
  | clearFailure op p => exact hdisk (·.clearFailure op p) (.of_same rfl rfl)
  | hold op p => exact hdisk (fun d => (d.hold op p).2) (.of_same rfl rfl)
  | openGate g =>
    have h1 : Ripple w { w with disk := w.disk.openGate g } := .rest rfl rfl rfl (.of_same rfl rfl)
    exact ⟨rfl, h1.trans (ripple_wake _ _)⟩
  | refuseArming p | permitArming p | rearrange rank => exact ⟨rfl, .rest rfl rfl rfl (.refl _)⟩
  | newSubscriber => exact ⟨rfl, .rest rfl rfl rfl (.refl _)⟩
  | drain id => exact core_drain w id
  | tryRead id => exact core_tryRead w id
  | closeSubscriber id =>
    have h1 : Ripple w { w with channels := w.channels.modify id fun c => c.close } := .rest rfl rfl rfl (.refl _)
    exact ⟨rfl, h1.trans (ripple_wake _ _)⟩
  | dropSubscriber id =>
    have h1 : Ripple w { w with channels := w.channels.modify id fun c => c.dropReceiver } :=
      .rest rfl rfl rfl (.refl _)
    exact ⟨rfl, h1.trans (ripple_wake _ _)⟩
  | notifyChange p => exact ⟨core_inBackground w _, ripple_inBackground w _ (by simp)⟩
  | attachStream => exact core_attachStream w
  | sendEvent x ev => exact core_sendEvent w x ev
  | closeStream x =>
    have h1 : Ripple w { w with streams := w.streams.modify x fun c => c.dropSender } := .rest rfl rfl rfl (.refl _)
    exact ⟨rfl, h1.trans (ripple_wake _ _)⟩

/-- **One move of a run**: a chain of effects of one task, with marks of this move; the other tasks keep their stakes. -/
theorem move_served (hw : Wf w) (m : Move) : ∃ id, Served (Marks w m) w id (w.move m) := by
  cases m with
  | turn id => exact ⟨id, served_turn hw id⟩
  | call r =>
    simp only [World.move]
    split
    · exact ⟨_, served_call hw r⟩
    · exact ⟨0, served_ripple hw 0 rfl (.refl w)⟩
  | _ => refine ⟨0, served_ripple hw 0 (outside_move w ?_ ?_).1 (outside_move w ?_ ?_).2⟩ <;> simp

theorem sound_start (policy : WritePolicy) : Sound (World.start policy).core (World.start policy).stakes :=
  ⟨Turns.sound_empty, fun _ _ h => by cases h⟩

theorem wf_start (policy : WritePolicy) : Wf (World.start policy) where
  numbered _ _ := rfl
  sound := sound_start policy
  woken _ _ h := by cases h

/-- **Every move leaves the engine well-formed.** -/
theorem wf_move (hw : Wf w) (m : Move) : Wf (w.move m) := by
  obtain ⟨id, hs⟩ := move_served hw m
  obtain ⟨s', he, hst⟩ := hs.effects
  refine ⟨hs.numbered, ?_, hs.woken⟩
  rw [hst]
  exact sound_effects hw.sound he

theorem Reachable.wf (h : Reachable w) : Wf w := by
  induction h with
  | start policy => exact wf_start policy
  | move m _ ih => exact wf_move ih m

/-- An invariant of the protocol holds in every state of a run if it holds at the start and every effect keeps it that
leaves no mark of a kind which the run does not have. -/
theorem trace_induction {J : Core → (TaskId → Stake) → Prop} {N : Mark → Prop} {policy : WritePolicy}
    {moves : Nat → Move} (hN : ∀ n x, Marks ((World.start policy).trace moves n) (moves n) x → ¬ N x)
    (start : J (World.start policy).core (World.start policy).stakes)
    (step : ∀ E c st i c' s', (∀ x, E x → ¬ N x) → J c st → Effect E c (st i) c' s' → J c' (Function.update st i s'))
    (n : Nat) : J ((World.start policy).trace moves n).core ((World.start policy).trace moves n).stakes := by
  induction n with
  | zero => exact start
  | succ n ih =>
    obtain ⟨id, hs⟩ := move_served (reachable_trace policy moves n).wf (moves n)
    obtain ⟨s', he, hst⟩ := hs.effects
    have h := he.induction (step _ · · · · · (hN n)) ih
    rw [← hst] at h
    exact h

end LiveFiles.Engine
