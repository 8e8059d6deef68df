/-
Two tasks that wait for the same path when nobody else is left (`Standoff`). The one that has the lock gives its turn
back, finds that of the other, takes another turn and waits behind it: after three of its turns the two have changed
places (`Standoff.exchange`), and so on without end.
-/
import LiveFiles.Proofs.IdleWaits

namespace LiveFiles.Engine

/-- the task has a turn that holds its lock -/
def World.holdsTurn (w : World) (id : TaskId) : Prop := ∃ τ, held w.stakes id = some τ ∧ w.turns.holds τ = true

/-- two tasks are left, which both wait for the path -/
structure Standoff (w : World) (k : Path.Key) (a b : TaskId) : Prop where
  reachable : Reachable w
  ne : a ≠ b
  live : ∀ x t, w.tasks.live.get? x = some t → (x = a ∨ x = b) ∧ t.cancelled = false
  ready : ∀ x ∈ w.tasks.ready, x = a ∨ x = b
  first : w.drains a k = true
  second : w.drains b k = true

variable {w : World} {k : Path.Key} {a b id : TaskId} {t : Task Phase} {p : Path} {τ : Turn}

/-! ## The tasks after a section -/

theorem get?_after {r : World × Section Phase Unit} (hl : r.1.tasks.live = w.tasks.live) {x : TaskId} {t' : Task Phase}
    (h : (World.after id r).tasks.live.get? x = some t') :
    ∃ t, w.tasks.live.get? x = some t ∧ t'.cancelled = t.cancelled := by
  obtain ⟨w₁, s⟩ := r
  simp only at hl
  cases s <;> simp only [World.after, Tasks.record, hl, Table.get?_modify, Table.get?_erase] at h <;> split at h
  all_goals first
    | cases h
    | exact ⟨t', h, rfl⟩
    | obtain ⟨t, ht, rfl⟩ := Option.map_eq_some_iff.1 h
      exact ⟨t, ht, rfl⟩

theorem live_giveBack (w : World) (τ : Turn) : (w.giveBack τ).tasks.live = w.tasks.live := by
  cases hn : (w.turns.giveBack τ).2 with
  | none => simp only [World.giveBack, hn]
  | some x =>
    simp only [World.giveBack, hn]
    exact Tasks.live_wake _ _

theorem ready_giveBack (w : World) (τ : Turn) {x : TaskId} (h : x ∈ (w.giveBack τ).tasks.ready) :
    x ∈ w.tasks.ready ∨ (w.tasks.live.get? x).isSome := by
  cases hn : (w.turns.giveBack τ).2 with
  | none =>
    simp only [World.giveBack, hn] at h
    exact Or.inl h
  | some y =>
    simp only [World.giveBack, hn] at h
    exact Tasks.ready_wake h

theorem ready_floorTo {x : TaskId} (h : x ∈ (floorTo w id).tasks.ready) : x ∈ w.tasks.ready := by
  unfold floorTo at h
  split at h
  · exact h
  · exact List.mem_of_mem_erase h

/-- a section of a task that waits starts no task, cancels none, and wakes only tasks that have not ended -/
theorem serve_of_drain {turn : Option Turn} (hs : w.served? id = some t) (hc : t.cancelled = false)
    (hd : t.phase.activity.drain? = some (p, turn)) (hbusy : turn = none → w.turns.isIdle p.key = false) :
    ∃ r, serve w id = World.after id r ∧ r.1.tasks.live = w.tasks.live ∧
      ∀ x ∈ (World.after id r).tasks.ready, x ∈ w.tasks.ready ∨ (w.tasks.live.get? x).isSome := by
  rw [serve_of_section hs hc]
  refine ⟨_, rfl, ?_⟩
  unfold World.advance
  cases turn with
  | none =>
    rw [step_of_busy _ hd (by rw [turns_floorTo]; exact hbusy rfl)]
    exact ⟨live_floorTo w id, fun x hx => Or.inl (ready_floorTo hx)⟩
  | some τ =>
    cases hτ : (floorTo w id).turns.holds τ with
    | true =>
      rw [step_of_holds _ hd hτ]
      refine ⟨(live_giveBack _ τ).trans (live_floorTo w id), fun x hx => ?_⟩
      rcases ready_giveBack _ τ hx with hx | hx
      · exact Or.inl (ready_floorTo hx)
      · exact Or.inr (by rwa [live_floorTo] at hx)
    | false =>
      rw [step_of_queued _ hd hτ]
      exact ⟨live_floorTo w id, fun x hx => Or.inl (ready_floorTo hx)⟩

/-! ## A standoff goes on -/

namespace Standoff

theorem symm (h : Standoff w k a b) : Standoff w k b a :=
  ⟨h.reachable, h.ne.symm, fun x t ht => ⟨(h.live x t ht).1.symm, (h.live x t ht).2⟩, fun x hx => (h.ready x hx).symm,
    h.second, h.first⟩

/-- nobody else has a turn -/
theorem of_held (h : Standoff w k a b) {x : TaskId} {τ : Turn} (hx : held w.stakes x = some τ) : x = a ∨ x = b := by
  cases ht : w.tasks.live.get? x with
  | none =>
    rw [held, stakes_of_none (Tasks.phase?_eq_none_iff.2 ht)] at hx
    cases hx
  | some t => exact (h.live x t ht).1

theorem served (h : Standoff w k a b) (hgo : canGo w a = true) :
    ∃ t p turn, w.served? a = some t ∧ t.cancelled = false ∧ t.phase.activity.drain? = some (p, turn) ∧ p.key = k := by
  obtain ⟨ph, p, turn, hph, hd, hk⟩ := drains_iff.1 h.first
  obtain ⟨t, hs, rfl⟩ := served?_of_phase hgo hph
  exact ⟨t, p, turn, hs, (h.live a t (served?_eq_some hs).2).2, hd, hk⟩

/-- a turn of one of the two leaves both waiting, and nobody else -/
theorem after_serve (h : Standoff w k a b) (hgo : canGo w a = true) : Standoff (w.move (.turn a)) k a b := by
  obtain ⟨t, p, turn, hs, hc, hd, rfl⟩ := h.served hgo
  have hph : w.tasks.phase? a = some t.phase := by rw [Tasks.phase?, (served?_eq_some hs).2]; rfl
  obtain ⟨r, he, hl, hready⟩ := serve_of_drain hs hc hd fun hnone =>
    busy_of_drains h.reachable h.ne hph (hnone ▸ hd) h.second
  have hkept : ∀ {x}, ∀ t ∈ w.tasks.live.get? x, t.cancelled = false := fun t ht => (h.live _ t ht).2
  refine ⟨.move _ h.reachable, h.ne, fun x t' ht' => ?_, fun x hx => ?_,
    drains_move h.reachable h.ne h.first h.second hkept _, drains_move h.reachable h.ne.symm h.second h.first hkept _⟩
  · rw [World.move, he] at ht'
    obtain ⟨t, ht, hc'⟩ := get?_after hl ht'
    exact ⟨(h.live x t ht).1, hc'.trans (h.live x t ht).2⟩
  · rw [World.move, he] at hx
    rcases hready x hx with hx | hx
    · exact h.ready x hx
    · obtain ⟨t, ht⟩ := Option.isSome_iff_exists.1 hx
      exact (h.live x t ht).1

/-- the other one keeps its turn meanwhile -/
theorem held_second (h : Standoff w k a b) (hb : held w.stakes b = some τ) :
    held (w.move (.turn a)).stakes b = some τ := by
  have hm : w.serves (.turn a) b = false := by simp [World.serves, h.ne]
  rw [held] at hb ⊢
  rcases phase?_unserved h.reachable.wf hm with he | ⟨hnone, -⟩
  · simpa only [World.stakes, he] using hb
  · rw [stakes_of_none hnone] at hb
    cases hb

/-- whoever waits without a turn has the floor, so that the other one has a turn -/
theorem held_of_floor (h : Standoff w k a b) (hf : w.tasks.floor = some a) :
    ∃ τ, held w.stakes b = some τ ∧ τ.key = k := by
  obtain ⟨ph, p, turn, hph, hd, rfl⟩ := drains_iff.1 h.second
  cases turn with
  | none => exact absurd (Option.some.inj (hf.symm.trans (h.reachable.poised b ph p hph hd))) h.ne
  | some τ => exact ⟨τ, held_of_drain h.reachable.wf hph hd⟩

theorem canGo_of_holdsTurn (h : Standoff w k a b) (hf : w.tasks.floor = none) (ha : w.holdsTurn a) :
    canGo w a = true := by
  obtain ⟨τ, hτ, hh⟩ := ha
  obtain ⟨ph, p, turn, hph, hd, -⟩ := drains_iff.1 h.first
  have hrun := h.reachable.wf.woken a ph hph
  rw [held, stakes_of_phase hph, errand_of_drain hd] at hτ
  cases turn with
  | none => cases hτ
  | some σ =>
    cases hτ
    rcases hrun with hin | hf' | hwait
    · simpa [canGo_eq, hf] using hin
    · rw [hf] at hf'
      cases hf'
    · have hno := hwait.turn τ (by rw [errand_of_drain hd]; rfl) (awaits_of_drain hd)
      rw [hh] at hno
      cases hno

/-! ### Three turns -/

/-- the lock is given up, and goes to the other one -/
theorem give (h : Standoff w k a b) (hf : w.tasks.floor = none) (ha : w.holdsTurn a) :
    (w.move (.turn a)).tasks.floor = some a ∧ held (w.move (.turn a)).stakes a = none ∧
      (w.move (.turn a)).holdsTurn b := by
  have hgo := h.canGo_of_holdsTurn hf ha
  obtain ⟨t, p, turn, hs, hc, hd, rfl⟩ := h.served hgo
  obtain ⟨τ, hτ, hh⟩ := ha
  rw [held, stakes_of_served hs, errand_of_drain hd] at hτ
  cases turn with
  | none => cases hτ
  | some σ =>
    cases hτ
    have hstep := step_of_holds (floorTo w a) hd ((turns_floorTo w a).symm ▸ hh)
    have hfloor : (w.move (.turn a)).tasks.floor = some a :=
      floor_serve_of_go h.reachable.wf hs hc (congrArg Prod.snd hstep)
    have hphase := phase?_serve h.reachable.wf hs hc
    rw [hstep] at hphase
    have hnone : held (w.move (.turn a)).stakes a = none := by
      rw [World.move, held, stakes_of_phase hphase, errand_of_drain (drain_withTurn hd)]
      rfl
    have h' := h.after_serve hgo
    obtain ⟨σ, hσ, hk⟩ := h'.held_of_floor hfloor
    refine ⟨hfloor, hnone, σ, hσ, h'.reachable.wf.sound.turns.holds_of_alone hσ fun j ρ hj _ => ?_⟩
    rcases h'.of_held hj with rfl | rfl
    · rw [hnone] at hj
      cases hj
    · rfl

/-- another turn is taken, behind that of the other one -/
theorem take (h : Standoff w k a b) (hf : w.tasks.floor = some a) (ha : held w.stakes a = none) (hb : w.holdsTurn b) :
    (w.move (.turn a)).tasks.floor = some a ∧ (∃ τ, held (w.move (.turn a)).stakes a = some τ) ∧
      (w.move (.turn a)).holdsTurn b := by
  obtain ⟨t, p, turn, hs, hc, hd, rfl⟩ := h.served (by simp [canGo_eq, hf])
  have hph : w.tasks.phase? a = some t.phase := by rw [Tasks.phase?, (served?_eq_some hs).2]; rfl
  cases turn with
  | some σ =>
    rw [(held_of_drain h.reachable.wf hph hd).1] at ha
    cases ha
  | none =>
    have hbusy := busy_of_drains h.reachable h.ne hph hd h.second
    have hstep := step_of_busy (floorTo w a) hd ((turns_floorTo w a).symm ▸ hbusy)
    have hphase := phase?_serve h.reachable.wf hs hc
    rw [hstep] at hphase
    refine ⟨floor_serve_of_go h.reachable.wf hs hc (congrArg Prod.snd hstep),
      ⟨((floorTo w a).enlist p).1, ?_⟩, ?_⟩
    · rw [World.move, held, stakes_of_phase hphase, errand_of_drain (drain_withTurn hd)]
      rfl
    · obtain ⟨τ, hτ, hh⟩ := hb
      refine ⟨τ, h.held_second hτ, ?_⟩
      have hcore := (core_serve_of_section hs hc).1
      rw [hstep, core_enlist, core_floorTo] at hcore
      have hturns : (serve w a).turns = (w.turns.enlist p.key).2 := congrArg Core.turns hcore
      rw [World.move, hturns]
      exact (h.reachable.wf.sound.turns.holds_enlist hτ p.key).trans hh

/-- the floor is left to the other one -/
theorem queue (h : Standoff w k a b) (hf : w.tasks.floor = some a) (ha : ∃ τ, held w.stakes a = some τ)
    (hb : w.holdsTurn b) : (w.move (.turn a)).tasks.floor = none ∧ (w.move (.turn a)).holdsTurn b := by
  obtain ⟨t, p, turn, hs, hc, hd, rfl⟩ := h.served (by simp [canGo_eq, hf])
  have hph : w.tasks.phase? a = some t.phase := by rw [Tasks.phase?, (served?_eq_some hs).2]; rfl
  obtain ⟨τ, hτ, hh⟩ := hb
  cases turn with
  | none =>
    rw [held, stakes_of_phase hph, errand_of_drain hd] at ha
    obtain ⟨σ, hσ⟩ := ha
    cases hσ
  | some σ =>
    obtain ⟨hσ, hk⟩ := held_of_drain h.reachable.wf hph hd
    obtain ⟨ρ, hρ, hkρ⟩ := h.held_of_floor hf
    cases hτ.symm.trans hρ
    have hno : w.turns.holds σ = false := by
      rw [Bool.eq_false_iff]
      exact fun hσh => h.ne (h.reachable.wf.sound.turns.holds_unique hσ hτ (hk.trans hkρ.symm) hσh hh)
    have hstep := step_of_queued (floorTo w a) hd ((turns_floorTo w a).symm ▸ hno)
    refine ⟨?_, τ, h.held_second hτ, ?_⟩
    · rw [World.move, serve_of_section hs hc, World.advance, hstep]
      rfl
    · have hcore := (core_serve_of_section hs hc).1
      rw [hstep, core_floorTo] at hcore
      have hturns : (serve w a).turns = w.turns := congrArg Core.turns hcore
      rw [World.move, hturns]
      exact hh

end Standoff

/-- `a` has the lock, and the floor is free -/
structure Standoff.Ready (w : World) (k : Path.Key) (a b : TaskId) : Prop extends Standoff w k a b where
  floor : w.tasks.floor = none
  holds : w.holdsTurn a

/-- **After three turns the two have changed places**, and each time it was the turn of a task that could go on. -/
theorem Standoff.Ready.exchange (h : Standoff.Ready w k a b) :
    canGo w a = true ∧ canGo (w.move (.turn a)) a = true ∧ canGo ((w.move (.turn a)).move (.turn a)) a = true ∧
      Standoff.Ready (((w.move (.turn a)).move (.turn a)).move (.turn a)) k b a := by
  have hgo := h.canGo_of_holdsTurn h.floor h.holds
  have h₁ := h.after_serve hgo
  obtain ⟨hf₁, ha₁, hb₁⟩ := h.give h.floor h.holds
  have hgo₁ : canGo (w.move (.turn a)) a = true := by simp [canGo_eq, hf₁]
  have h₂ := h₁.after_serve hgo₁
  obtain ⟨hf₂, ha₂, hb₂⟩ := h₁.take hf₁ ha₁ hb₁
  have hgo₂ : canGo ((w.move (.turn a)).move (.turn a)) a = true := by simp [canGo_eq, hf₂]
  obtain ⟨hf₃, hb₃⟩ := h₂.queue hf₂ ha₂ hb₂
  exact ⟨hgo, hgo₁, hgo₂, (h₂.after_serve hgo₂).symm, hf₃, hb₃⟩

end LiveFiles.Engine
