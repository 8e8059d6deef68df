/-
Tasks that wait until nobody has a turn at a path, move by move. Such a task takes turns there itself: between two
sections it has a turn, or it has the floor (`Reachable.poised`), so that of two of them at least one has a turn.
- `phase?_unserved`: whoever does not get the floor in a move keeps its phase, and a new task waits for no path.
- `drains_move`: of two tasks that wait for a path neither comes to the end of it, whatever move is made.
- `weight_serve`: alone with the path, a task comes closer to its end with every section.
-/
import LiveFiles.Proofs.Endings

namespace LiveFiles.Engine

/-! ## Who waits, and who works -/

/-- the task waits until nobody has a turn at the path -/
def Activity.drainsAt (a : Activity) (k : Path.Key) : Bool := a.drain?.any fun d => d.1.key = k

/-- how far a task that waits for paths is from its end, if nobody else has turns there -/
def Activity.weight : Activity → Nat
  | .tearingDown _ turn _ => turn.toList.length
  | .draining _ turn rest => 2 * rest.length + turn.toList.length
  | _ => 0

/-- the task as it waits with another turn, or with none -/
def Activity.withTurn (a : Activity) (turn : Option Turn) : Activity :=
  match a with
  | .tearingDown p _ l => .tearingDown p turn l
  | .draining p _ rest => .draining p turn rest
  | a => a

/-- the move lets the task carry out a section -/
def World.serves (w : World) (m : Move) (id : TaskId) : Bool :=
  match m with
  | .turn x => x = id && canGo w id
  | _ => false

namespace World

/-- the task waits until nobody has a turn at the path -/
def drains (w : World) (id : TaskId) (k : Path.Key) : Bool := (w.tasks.phase? id).any fun p => p.activity.drainsAt k

/-- the task has a turn at the path, and does not wait for it to be idle -/
def works (w : World) (id : TaskId) (k : Path.Key) : Bool :=
  !w.drains id k && (w.stakes id).errand.turn?.any fun τ => τ.key = k

/-- the task stands in the queue or has the floor -/
def runnable (w : World) (id : TaskId) : Bool := id ∈ w.tasks.ready || w.tasks.floor = some id

/-- a task that waits for a path without a turn there has the floor -/
def Poised (w : World) : Prop :=
  ∀ id p q, w.tasks.phase? id = some p → p.activity.drain? = some (q, none) → w.tasks.floor = some id

end World

variable {w : World} {m : Move} {id : TaskId} {t : Task Phase} {a : Activity} {p : Path} {τ : Turn} {k : Path.Key}

theorem serves_iff : w.serves m id = true ↔ m = .turn id ∧ canGo w id = true := by
  cases m with
  | turn x => simp only [World.serves, Bool.and_eq_true, decide_eq_true_eq, Move.turn.injEq]
  | _ => simp only [World.serves, Bool.false_eq_true, reduceCtorEq, false_and]

theorem runnable_iff : w.runnable id = true ↔ id ∈ w.tasks.ready ∨ w.tasks.floor = some id := by
  rw [World.runnable, Bool.or_eq_true, decide_eq_true_eq, decide_eq_true_eq]

/-- where nobody can go on, no task can -/
theorem runnable_of_quiet (h : w.tasks.quiet = true) (id : TaskId) : w.runnable id = false := by
  rw [Tasks.quiet, Bool.and_eq_true, List.isEmpty_iff, Option.isNone_iff_eq_none] at h
  rw [Bool.eq_false_iff]
  intro hgo
  rcases runnable_iff.1 hgo with hr | hf
  · rw [h.1] at hr
    cases hr
  · rw [h.2] at hf
    cases hf

/-- whoever is to begin can go on -/
theorem runnable_of_starting (hw : Wf w) {ph : Phase} {r : Request} (hph : w.tasks.phase? id = some ph)
    (ha : ph.activity = .starting r) : w.runnable id = true := by
  rw [runnable_iff]
  rcases hw.woken id ph hph with hready | hfloor | hwaits
  · exact Or.inl hready
  · exact Or.inr hfloor
  · exact absurd (by rw [ha]; rfl) hwaits.something

theorem drains_iff :
    w.drains id k = true ↔ ∃ ph p turn, w.tasks.phase? id = some ph ∧ ph.activity.drain? = some (p, turn) ∧ p.key = k := by
  simp [World.drains, Activity.drainsAt, Option.any_eq_true]

theorem errand_of_drain {turn : Option Turn} (h : a.drain? = some (p, turn)) : a.stake.errand = drainErrand p turn := by
  cases a <;> cases h <;> rfl

theorem drain_withTurn {turn turn' : Option Turn} (h : a.drain? = some (p, turn)) :
    (a.withTurn turn').drain? = some (p, turn') := by
  cases a <;> cases h <;> rfl

theorem withTurn_self {turn : Option Turn} (h : a.drain? = some (p, turn)) : a.withTurn turn = a := by
  cases a <;> cases h <;> rfl

theorem awaits_of_drain {turn : Option Turn} (h : a.drain? = some (p, turn)) : a.awaits = awaitTurn turn := by
  cases a <;> cases h <;> rfl

/-! ## A section of a task that waits -/

theorem step_of_holds (w : World) (h : a.drain? = some (p, some τ)) (hτ : w.turns.holds τ = true) :
    w.step a = (w.giveBack τ, .go (a.withTurn none)) := by
  cases a <;> cases h <;>
    simp [World.step, World.stepTearingDown, World.stepDraining, World.awaitIdle, hτ, Activity.withTurn]

theorem step_of_queued (w : World) (h : a.drain? = some (p, some τ)) (hτ : w.turns.holds τ = false) :
    w.step a = (w, .wait a) := by
  cases a <;> cases h <;> simp [World.step, World.stepTearingDown, World.stepDraining, World.awaitIdle, hτ]

theorem step_of_busy (w : World) (h : a.drain? = some (p, none)) (hp : w.turns.isIdle p.key = false) :
    w.step a = ((w.enlist p).2, .go (a.withTurn (some (w.enlist p).1))) := by
  cases a <;> cases h <;>
    simp [World.step, World.stepTearingDown, World.stepDraining, World.awaitIdle, hp, Activity.withTurn, World.enlist]

theorem next_endLeaving (w : World) (l : Leaving) : (w.endLeaving l).2.next = none := by
  cases l <;> rfl

/-- where nobody has a turn, the task has waited long enough: it ends, or goes on to the next path -/
theorem step_of_idle (w : World) (h : a.drain? = some (p, none)) (hp : w.turns.isIdle p.key = true) :
    ∀ a' ∈ (w.step a).2.next, a'.weight < a.weight := by
  cases a with
  | tearingDown q turn l =>
    cases h
    simp only [World.step, World.stepTearingDown, World.awaitIdle, hp, if_true]
    split <;> simp [next_endLeaving]
  | draining q turn rest =>
    cases h
    simp only [World.step, World.stepDraining, World.awaitIdle, hp, if_true]
    cases rest with
    | nil => simp [World.drainNext, Section.next]
    | cons r rest => simp [World.drainNext, Section.next, Activity.weight]
  | _ => cases h

theorem weight_withTurn (h : a.drain? = some (p, some τ)) : (a.withTurn none).weight < a.weight := by
  cases a <;> cases h <;> simp [Activity.withTurn, Activity.weight]

theorem next_advance (w : World) (id : TaskId) (ph : Phase) :
    (w.advance id ph).2.next = (w.step ph.activity).2.next.map fun a => ⟨ph.role, a⟩ := by
  unfold World.advance
  rcases w.step ph.activity with ⟨w', a | a | a | o⟩ <;> rfl

/-- the phase in which a task that is not cancelled goes on -/
theorem phase?_serve (hw : Wf w) (h : w.served? id = some t) (hc : t.cancelled = false) :
    (serve w id).tasks.phase? id = ((floorTo w id).step t.phase.activity).2.next.map fun a => ⟨t.phase.role, a⟩ := by
  obtain ⟨hgo, ht⟩ := served?_eq_some h
  have hw₀ := wf_floorTo hw hgo
  have hp₀ : (floorTo w id).tasks.phase? id = some t.phase := by rw [phase?_floorTo, Tasks.phase?, ht]; rfl
  have hr := runs_advance hw₀.reserved id t.phase
  rw [serve_of_section h hc, World.after, ← next_advance (floorTo w id) id t.phase]
  simp only [Tasks.phase?_record, if_true, hr.does.ripple.grows.phase id (hw₀.numbered.lt hp₀), hp₀, Option.bind_some]

theorem activity_serve (hw : Wf w) (h : w.served? id = some t) (hc : t.cancelled = false) :
    ((serve w id).tasks.phase? id).map Phase.activity = ((floorTo w id).step t.phase.activity).2.next := by
  rw [phase?_serve hw h hc, Option.map_map]
  exact Option.map_id'

theorem floor_serve_of_go (hw : Wf w) (h : w.served? id = some t) (hc : t.cancelled = false)
    (hs : ((floorTo w id).step t.phase.activity).2 = .go a) : (serve w id).tasks.floor = some id := by
  have hgo := (served?_eq_some h).1
  have hr := runs_advance (wf_floorTo hw hgo).reserved id t.phase
  have hsec : ((floorTo w id).advance id t.phase).2 = .go ⟨t.phase.role, a⟩ := by
    unfold World.advance
    rcases hx : (floorTo w id).step t.phase.activity with ⟨w', b | b | b | o⟩ <;> rw [hx] at hs <;> cases hs
    rfl
  rw [serve_of_section h hc, World.after, hsec]
  exact hr.does.ripple.grows.floor.trans (floor_floorTo hgo)

/-! ## Whoever does not get the floor -/

/-- whoever does not get the floor in a move keeps its phase; a new task has no errand, and waits for no path -/
theorem phase?_unserved (hw : Wf w) (hm : w.serves m id = false) :
    (w.move m).tasks.phase? id = w.tasks.phase? id ∨ w.tasks.phase? id = none ∧
      ∀ ph ∈ (w.move m).tasks.phase? id, ph.activity.stake.errand = .idle ∧ ph.activity.drain? = none := by
  have hfresh : ∀ {w₁ w₂ : World}, Ripple w₁ w₂ → w₁.tasks.Numbered → w₁.tasks.phase? id = w.tasks.phase? id →
      w₂.tasks.phase? id = w.tasks.phase? id ∨ w.tasks.phase? id = none ∧
        ∀ ph ∈ w₂.tasks.phase? id, ph.activity.stake.errand = .idle ∧ ph.activity.drain? = none := by
    intro w₁ w₂ hr hn he
    rw [← he]
    exact (hr.grows.phase_or hn id).imp_right fun h => ⟨h.1, fun ph hph => ⟨by rw [(h.2 ph hph).stake], (h.2 ph hph).drain⟩⟩
  cases m with
  | turn x =>
    have hx : canGo w x = true → x ≠ id := by
      rintro hgo rfl
      simp [World.serves, hgo] at hm
    simp only [World.move]
    cases hs : w.served? x with
    | none => exact Or.inl (phase?_serve_of_nobody hs id)
    | some t =>
      have hgo := (served?_eq_some hs).1
      have hw₀ := wf_floorTo hw hgo
      cases hc : t.cancelled with
      | false =>
        rw [serve_of_section hs hc, World.after]
        simp only [Tasks.phase?_record, if_neg (hx hgo)]
        exact hfresh (runs_advance hw₀.reserved x t.phase).does.ripple hw₀.numbered (phase?_floorTo w x id)
      | true =>
        refine hfresh (does_cancelled hs hc).ripple (numbered_without hw₀.numbered x) ?_
        rw [phase?_without, if_neg (hx hgo), phase?_floorTo]
  | call r =>
    simp only [World.move]
    split
    · have hg : w.tasks.Grows (fun ph : Phase => ph.activity.stake.errand = .idle ∧ ph.activity.drain? = none)
          (w.call r).2.tasks := Tasks.grows_spawn _ ⟨by cases r <;> rfl, rfl⟩
      exact hg.phase_or hw.numbered id
    · exact Or.inl rfl
  | _ =>
    refine hfresh (outside_move w ?_ ?_).2 hw.numbered rfl <;> simp

theorem floor_unserved (hm : w.serves m id = false) (hf : w.tasks.floor = some id) :
    (w.move m).tasks.floor = some id := by
  cases m with
  | turn x =>
    have hx : canGo w x = false := by
      rw [Bool.eq_false_iff]
      intro hgo
      have hid : id = x := by simpa [canGo_eq, hf] using hgo
      simp [World.serves, hid, hgo] at hm
    simpa [World.move, serve, hx] using hf
  | call r =>
    simp only [World.move]
    split
    · exact hf
    · exact hf
  | _ =>
    refine (outside_move w ?_ ?_).2.grows.floor.trans hf <;> simp

/-! ## A task without a turn has the floor -/

/-- a task comes to wait for a path, without a turn there, by going on at once -/
theorem step_eq_go (hw : w.Reserved) {a' : Activity} (hn : (w.step a).2.next = some a') (hd : a'.drain? = some (p, none)) :
    (w.step a).2 = .go a' := by
  have hr := runs_step hw a
  cases hs : (w.step a).2 with
  | go b =>
    rw [hs] at hn
    cases hn
    rfl
  | wait b =>
    rw [hs] at hn
    cases hn
    exact absurd (awaits_of_drain hd) (hr.waits _ hs).something
  | pause b =>
    rw [hs] at hn
    cases hn
    exact absurd (hd.symm.trans (pauses_step hs)) (by simp)
  | ended o =>
    rw [hs] at hn
    cases hn

theorem poised_move (hw : Wf w) (hp : w.Poised) (m : Move) : (w.move m).Poised := by
  intro id ph q hph hd
  cases hm : w.serves m id with
  | false =>
    rcases phase?_unserved hw hm with he | ⟨-, hnew⟩
    · exact floor_unserved hm (hp id ph q (he.symm.trans hph) hd)
    · exact absurd ((hnew ph hph).2.symm.trans hd) (by simp)
  | true =>
    obtain ⟨rfl, hgo⟩ := serves_iff.1 hm
    simp only [World.move] at hph ⊢
    cases hs : w.served? id with
    | none =>
      rw [phase?_serve_of_nobody hs, Tasks.phase?_eq_none_iff.2 (by simpa [World.served?, hgo] using hs)] at hph
      cases hph
    | some t =>
      cases hc : t.cancelled with
      | true =>
        rw [phase?_serve_of_cancelled hw hs hc] at hph
        cases hph
      | false =>
        rw [phase?_serve hw hs hc] at hph
        obtain ⟨a', ha', rfl⟩ := Option.map_eq_some_iff.1 hph
        exact floor_serve_of_go hw hs hc (step_eq_go (wf_floorTo hw hgo).reserved ha' hd)

theorem Reachable.poised (h : Reachable w) : w.Poised := by
  induction h with
  | start policy =>
    intro id ph q hph
    cases hph
  | move m hr ih => exact poised_move hr.wf ih m

/-! ## Several tasks, and one alone -/

theorem turns_floorTo (w : World) (id : TaskId) : (floorTo w id).turns = w.turns := congrArg Core.turns (core_floorTo w id)

theorem served?_of_phase {ph : Phase} (hgo : canGo w id = true) (hph : w.tasks.phase? id = some ph) :
    ∃ t, w.served? id = some t ∧ t.phase = ph := by
  obtain ⟨t, ht, rfl⟩ := Option.map_eq_some_iff.1 hph
  exact ⟨t, by simp [World.served?, hgo, ht], rfl⟩

/-- the turn of a task that waits is at the path -/
theorem held_of_drain {ph : Phase} (hw : Wf w) (hph : w.tasks.phase? id = some ph)
    (hd : ph.activity.drain? = some (p, some τ)) : held w.stakes id = some τ ∧ τ.key = p.key := by
  have he : (w.stakes id).errand = .drain p τ := by rw [stakes_of_phase hph, errand_of_drain hd]; rfl
  exact ⟨by rw [held, he]; rfl, hw.sound.keyed id τ (by rw [he]; rfl) p (by rw [he]; rfl)⟩

/-- of two tasks that wait for a path, one at least has a turn -/
theorem busy_of_drains {ph : Phase} {b : TaskId} (hr : Reachable w) (hne : id ≠ b)
    (hph : w.tasks.phase? id = some ph) (hd : ph.activity.drain? = some (p, none)) (hb : w.drains b p.key = true) :
    w.turns.isIdle p.key = false := by
  obtain ⟨ph', q, turn, hph', hd', hq⟩ := drains_iff.1 hb
  cases turn with
  | none =>
    have hf := hr.poised id ph p hph hd
    exact absurd (Option.some.inj (hf.symm.trans (hr.poised b ph' q hph' hd'))) hne
  | some τ =>
    obtain ⟨hτ, hk⟩ := held_of_drain hr.wf hph' hd'
    rw [Bool.eq_false_iff]
    exact fun hi => hr.wf.sound.turns.isIdle_iff.1 hi b τ hτ (hk.trans hq)

/-- **Two tasks that wait for a path keep each other waiting**: no move ends the wait of one that is not cancelled. -/
theorem drains_move {b : TaskId} (hr : Reachable w) (hne : id ≠ b) (ha : w.drains id k = true) (hb : w.drains b k = true)
    (hkept : ∀ t ∈ w.tasks.live.get? id, t.cancelled = false) (m : Move) : (w.move m).drains id k = true := by
  obtain ⟨ph, p, turn, hph, hd, rfl⟩ := drains_iff.1 ha
  cases hm : w.serves m id with
  | false =>
    rcases phase?_unserved hr.wf hm with he | ⟨hnone, -⟩
    · exact drains_iff.2 ⟨ph, p, turn, he.trans hph, hd, rfl⟩
    · exact absurd (hnone.symm.trans hph) (by simp)
  | true =>
    obtain ⟨rfl, hgo⟩ := serves_iff.1 hm
    obtain ⟨t, hs, rfl⟩ := served?_of_phase hgo hph
    have hphase := phase?_serve hr.wf hs (hkept t (served?_eq_some hs).2)
    -- whatever it does, it goes on waiting, with another turn or with none
    suffices h : ∃ turn', ((floorTo w id).step t.phase.activity).2.next = some (t.phase.activity.withTurn turn') by
      obtain ⟨turn', h⟩ := h
      rw [h] at hphase
      exact drains_iff.2 ⟨_, p, turn', hphase, drain_withTurn hd, rfl⟩
    cases turn with
    | none =>
      have hbusy : (floorTo w id).turns.isIdle p.key = false := by
        rw [turns_floorTo]
        exact busy_of_drains hr hne hph hd hb
      exact ⟨_, by rw [step_of_busy _ hd hbusy]; rfl⟩
    | some τ =>
      cases hτ : (floorTo w id).turns.holds τ with
      | true => exact ⟨none, by rw [step_of_holds _ hd hτ]; rfl⟩
      | false => exact ⟨some τ, by rw [step_of_queued _ hd hτ, withTurn_self hd]; rfl⟩

/-- **A task that is alone with the path comes closer to its end** with every section. -/
theorem weight_serve {turn : Option Turn} (hw : Wf w) (hs : w.served? id = some t) (hc : t.cancelled = false)
    (hd : t.phase.activity.drain? = some (p, turn))
    (halone : ∀ j τ, held w.stakes j = some τ → τ.key = p.key → j = id) :
    ∀ ph ∈ (serve w id).tasks.phase? id, ph.activity.weight < t.phase.activity.weight := by
  intro ph hph
  have hph₀ : w.tasks.phase? id = some t.phase := by rw [Tasks.phase?, (served?_eq_some hs).2]; rfl
  rw [phase?_serve hw hs hc] at hph
  obtain ⟨a, ha, rfl⟩ := Option.map_eq_some_iff.1 hph
  cases turn with
  | none =>
    have hidle : (floorTo w id).turns.isIdle p.key = true := by
      rw [turns_floorTo]
      refine hw.sound.turns.isIdle_iff.2 fun j τ hj hk => ?_
      cases halone j τ hj hk
      rw [held, stakes_of_phase hph₀, errand_of_drain hd] at hj
      cases hj
    exact step_of_idle _ hd hidle a ha
  | some τ =>
    obtain ⟨hτ, hk⟩ := held_of_drain hw hph₀ hd
    have hholds : (floorTo w id).turns.holds τ = true := by
      rw [turns_floorTo]
      exact hw.sound.turns.holds_of_alone hτ fun j σ hj hσ => halone j σ hj (hσ.trans hk)
    rw [step_of_holds _ hd hholds] at ha
    cases ha
    exact weight_withTurn hd

end LiveFiles.Engine
