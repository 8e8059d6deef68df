/-
Waiting side by side. What holds a task up holds up the task that it stands for (`Alike.heldUp`). So when a task gets the floor, and
the one that it stands for cannot go on, it has nothing to do but to wait on.
- **`Alike.serve_or_wait`**: sections of tasks that stand for each other keep worlds alike, be it that only one of them can go on.
-/
import LiveFiles.Proofs.Bystanders
import LiveFiles.Proofs.HeldUp

namespace LiveFiles.Engine

variable {S : Scope} {O : Tag → Prop} {θ θ' : Pairing} {w v : World} {a b : TaskId} {x x' : Activity}

/-! ## Tasks that wait -/

theorem heldUp_nothing (hx : x.awaits = .nothing) : ¬HeldUp w x := fun h => h.waits.something hx

theorem heldUp_turn {i : TurnId} (hx : x.awaits = .turn i) :
    HeldUp w x ↔ ∀ τ ∈ x.stake.errand.turn?, i = τ.id → w.turns.holds τ = false := by
  constructor
  · exact fun h τ hτ hi => h.waits.turn τ hτ (hi ▸ hx)
  · refine fun h => ⟨⟨by rw [hx]; nofun, fun τ hτ hi => h τ hτ ?_, fun y hy => ?_⟩, fun g hg => ?_, fun hq => ?_, fun s hs => ?_,
      fun y hy => ?_⟩
    · exact Await.turn.inj (hx.symm.trans hi)
    all_goals cases hx.symm.trans ‹_›

theorem heldUp_gate {g : GateId} (hx : x.awaits = .gate g) : HeldUp w x ↔ w.disk.isOpen g = false := by
  constructor
  · exact fun h => h.gate g hx
  · refine fun h => ⟨⟨by rw [hx]; nofun, fun τ _ hi => ?_, fun y hy => ?_⟩, fun i hi => ?_, fun hq => ?_, fun s hs => ?_,
      fun y hy => ?_⟩
    case refine_3 =>
      obtain rfl : g = i := Await.gate.inj (hx.symm.trans hi)
      exact h
    all_goals cases hx.symm.trans ‹_›

theorem heldUp_signal {s : SignalId} (hx : x.awaits = .signal s) : HeldUp w x ↔ w.signals.isGiven s = false := by
  constructor
  · exact fun h => h.waits.signal s hx
  · refine fun h => ⟨⟨by rw [hx]; nofun, fun τ _ hi => ?_, fun y hy => ?_⟩, fun g hg => ?_, fun hq => ?_, fun s hs => ?_,
      fun y hy => ?_⟩
    case refine_2 =>
      obtain rfl : s = y := Await.signal.inj (hx.symm.trans hy)
      exact h
    all_goals cases hx.symm.trans ‹_›

theorem heldUp_message {s : StreamId} (hx : x.awaits = .message s) : HeldUp w x ↔ Channel.Idle (w.streams.getD s {}) := by
  constructor
  · exact fun h => h.message s hx
  · refine fun h => ⟨⟨by rw [hx]; nofun, fun τ _ hi => ?_, fun y hy => ?_⟩, fun g hg => ?_, fun hq => ?_, fun i hi => ?_,
      fun y hy => ?_⟩
    case refine_5 =>
      obtain rfl : s = i := Await.message.inj (hx.symm.trans hi)
      exact h
    all_goals cases hx.symm.trans ‹_›

theorem heldUp_farewell {y : SubscriberId} (hx : x.awaits = .farewell y) : HeldUp w x ↔ w.hasLeft y = false := by
  constructor
  · exact fun h => h.farewell y hx
  · refine fun h => ⟨⟨by rw [hx]; nofun, fun τ _ hi => ?_, fun y hy => ?_⟩, fun g hg => ?_, fun hq => ?_, fun s hs => ?_,
      fun z hz => ?_⟩
    case refine_6 =>
      obtain rfl : y = z := Await.farewell.inj (hx.symm.trans hz)
      exact h
    all_goals cases hx.symm.trans ‹_›

theorem RefreshAlike.turn {r r' : Refresh} (h : RefreshAlike S θ r r') : Option.Rel (TurnAlike S θ) r.errand.turn? r'.errand.turn? := by
  cases h with
  | queued hp hq hτ => exact .some hτ
  | looking hl hc => exact .some hl.turn
  | reading hl ht hc => exact .some hl.turn
  | lookingAgain hl hf hc => exact .some hl.turn

/-- tasks in phases that are alike have turns that are alike -/
theorem ActivityAlike.turn (h : ActivityAlike S θ x x') :
    Option.Rel (TurnAlike S θ) x.stake.errand.turn? x'.stake.errand.turn? := by
  have hdrain : ∀ {p p' : Path} {o o' : Option Turn}, Option.Rel (TurnAlike S θ) o o' →
      Option.Rel (TurnAlike S θ) (drainErrand p o).turn? (drainErrand p' o').turn? := by
    intro p p' o o' ho
    cases ho with
    | none => exact .none
    | some hτ => exact .some hτ
  cases h with
  | starting h => cases h <;> exact .none
  | refreshing h => exact h.turn
  | saving h =>
    cases h with
    | queued h => exact .some h.turn
    | writing h hc => exact .some h.turn
    | looking h hc => exact .some h.turn
  | synchronizing hx h => exact h.turn
  | settling hx ho => cases ho <;> exact .none
  | tearingDown hp hτ hl => exact hdrain hτ
  | draining h hp hτ hps => exact hdrain hτ
  | joining | awaitingQuiet | closing | diskStat | diskRead | diskWrite | listening | pumping => exact .none

/-- only runs that go the same way wait for all background work -/
theorem ActivityAlike.quiet (h : ActivityAlike S θ x x') (hS : ¬S.whole) : x.awaits ≠ .quiet := by
  have hcall : ∀ c, Call.awaits c ≠ .quiet := fun c => by cases c <;> nofun
  have hsignal : ∀ o, awaitSignal o ≠ .quiet := fun o => by cases o <;> nofun
  have hturn : ∀ o, awaitTurn o ≠ .quiet := fun o => by cases o <;> nofun
  have hrefresh : ∀ {r r' : Refresh}, RefreshAlike S θ r r' → r.awaits ≠ .quiet := fun h => by
    cases h <;> first | exact hcall _ | nofun
  cases h with
  | starting | listening | pumping => nofun
  | refreshing h => exact hrefresh h
  | saving h => cases h <;> first | exact hcall _ | nofun
  | joining hp y hj ho => exact hsignal _
  | synchronizing hx h => exact hrefresh h
  | settling hx ho => exact hsignal _
  | tearingDown hp hτ hl => exact hturn _
  | awaitingQuiet hwhole => exact absurd hwhole hS
  | closing hwhole hps => exact absurd hwhole hS
  | draining hwhole hp hτ hps => exact absurd hwhole hS
  | diskStat hp hc => exact hcall _
  | diskRead hp hc => exact hcall _
  | diskWrite bytes hp hc => exact hcall _

/-- **What holds a task up holds up the task that it stands for**, unless there is an event to read that cannot be seen. -/
theorem Alike.heldUp (h : Alike S O θ w v) (hS : ¬S.whole) (hx : ActivityAlike S θ x x')
    (hnext : ∀ s, x = .pumping s → w.NextSeen S s) : HeldUp w x ↔ HeldUp v x' := by
  have hawaits := hx.awaits
  generalize hy : x.awaits = y at hawaits
  generalize hy' : x'.awaits = y' at hawaits
  cases hawaits with
  | nothing => exact ⟨fun hw => absurd hw (heldUp_nothing hy), fun hv => absurd hv (heldUp_nothing hy')⟩
  | @turn i i' hi =>
    rw [heldUp_turn hy, heldUp_turn hy']
    have hturn := hx.turn
    generalize x.stake.errand.turn? = o at hturn
    generalize x'.stake.errand.turn? = o' at hturn
    cases hturn with
    | none =>
      constructor
      · intro _ τ hτ
        cases hτ
      · intro _ τ hτ
        cases hτ
    | @some τ τ' hτ =>
      have hid : i = τ.id ↔ i' = τ'.id := h.fit.eq_iff (fun _ _ h => Tag.turn.inj h) hi hτ.id
      have hholds : w.turns.holds τ = v.turns.holds τ' := h.turns.holds h.fit hτ
      constructor
      · rintro hw _ ⟨⟩ heq
        exact hholds ▸ hw τ rfl (hid.2 heq)
      · rintro hv _ ⟨⟩ heq
        exact hholds.trans (hv τ' rfl (hid.1 heq))
  | gate hg => rw [heldUp_gate hy, heldUp_gate hy', h.isOpen hg]
  | signal hs => rw [heldUp_signal hy, heldUp_signal hy', h.given _ _ hs]
  | quiet => exact absurd hy (hx.quiet hS)
  | message s =>
    rw [heldUp_message hy, heldUp_message hy']
    have hseen := hnext s (pumping_of_awaits hy)
    have hstream := h.streams.getD (k := s) trivial (a := {}) (b := {}) ⟨.nil, rfl, rfl, rfl⟩
    unfold World.NextSeen at hseen
    generalize w.streams.getD s {} = c at hseen hstream
    generalize v.streams.getD s {} = c' at hstream
    obtain ⟨buffer, o, r, y⟩ := c
    obtain ⟨buffer', o', r', y'⟩ := c'
    obtain ⟨hbuffer, rfl, rfl, rfl⟩ := hstream
    constructor
    · rintro ⟨rfl, ho, hy⟩
      cases hbuffer
      exact ⟨rfl, ho, hy⟩
    · rintro ⟨rfl, ho, hy⟩
      cases buffer with
      | nil => exact ⟨rfl, ho, hy⟩
      | cons ev rest =>
        dsimp only at hbuffer
        rw [List.filter_cons, if_pos (hseen ev rfl)] at hbuffer
        cases hbuffer
  | farewell y =>
    have hleft : w.hasLeft y = v.hasLeft y := rel_any (h.channels y trivial) fun _ _ hc => congrArg (! ·) hc.isOpen
    rw [heldUp_farewell hy, heldUp_farewell hy', hleft]

/-- whoever cannot go on has not been cancelled, and is held up -/
def World.Vigilant (w : World) : Prop :=
  ∀ j t, w.tasks.live.get? j = some t → w.runnable j = false → t.phase.activity.awaits ≠ .quiet →
    t.cancelled = false ∧ HeldUp w t.phase.activity

theorem runnable_of_canGo (hgo : canGo v b = false) (hf : v.tasks.floor = none) : v.runnable b = false := by
  rw [Bool.eq_false_iff]
  intro hrun
  rcases runnable_iff.1 hrun with hready | hfloor
  · rw [canGo_eq, hf] at hgo
    exact absurd hready (of_decide_eq_false hgo)
  · cases hf.symm.trans hfloor

theorem heldUp_floorTo (w : World) (a : TaskId) : HeldUp (floorTo w a) x ↔ HeldUp w x := by
  unfold floorTo
  split
  · exact Iff.rfl
  · exact ⟨fun h => ⟨⟨h.waits.something, h.waits.turn, h.waits.signal⟩, h.gate, h.quiet, h.message, h.farewell⟩,
      fun h => ⟨⟨h.waits.something, h.waits.turn, h.waits.signal⟩, h.gate, h.quiet, h.message, h.farewell⟩⟩

/-- the same tasks in another order, while nobody in the second world has the floor -/
theorem Alike.reorder (h : Alike S O θ w v) (hS : ¬S.whole) (hv : v.tasks.floor = none) {ts : Tasks Phase}
    (hnext : ts.next = w.tasks.next) (hlive : ∀ i, ts.live.get? i = w.tasks.live.get? i) : Alike S O θ { w with tasks := ts } v := by
  have hpaired : ∀ i j, θ.on .task i j → Option.Rel (TaskAlike S θ) (ts.live.get? i) (v.tasks.live.get? j) := fun i j hij => by
    rw [hlive]
    exact h.live i j hij
  have hcovered : ∀ i, (ts.live.get? i).isSome → (∃ j, θ.on .task i j) ∨ O (.task i) := fun i hi => by
    rw [hlive] at hi
    exact h.covered.1 i hi
  exact h.withTasks hnext rfl (fun b hb => by cases hv.symm.trans hb) (fun hwhole => absurd hwhole hS) hpaired
    ⟨hcovered, h.covered.2⟩

theorem Alike.floorTo_left (h : Alike S O θ w v) (hS : ¬S.whole) (hv : v.tasks.floor = none) (a : TaskId) :
    Alike S O θ (floorTo w a) v := by
  unfold floorTo
  split
  · exact h
  · exact h.reorder hS hv rfl fun _ => rfl

/-- a task that is held up gets the floor and leaves it again -/
theorem Alike.serve_heldUp (h : Alike S O θ w v) (hS : ¬S.whole) (hv : v.tasks.floor = none) (hgo : canGo w a = true)
    {t : Task Phase} (ht : w.tasks.live.get? a = some t) (hc : t.cancelled = false) (hheld : HeldUp w t.phase.activity) :
    Alike S O θ (serve w a) v := by
  have hphase : (floorTo w a).tasks.phase? a = some t.phase := by
    rw [phase?_floorTo]
    exact congrArg (Option.map Task.phase) ht
  rw [serve_of_section (by rw [World.served?, if_pos hgo, ht]) hc]
  unfold World.advance
  rw [((heldUp_floorTo w a).2 hheld).step]
  exact (h.floorTo_left hS hv a).reorder hS hv rfl (get?_modify_phase hphase)

/-- a task can go on, but the one that it stands for cannot: then nobody has the floor there -/
theorem Alike.floor_of_wait (h : Alike S O θ w v) (hab : θ.on .task a b) (hgo : canGo w a = true) (hvgo : canGo v b = false) :
    v.tasks.floor = none := by
  cases hf : v.tasks.floor with
  | none => rfl
  | some i =>
    obtain ⟨j, hji, hj⟩ := h.floor i hf
    rw [canGo_eq, hj] at hgo
    obtain rfl : j = a := of_decide_eq_true hgo
    obtain rfl : i = b := (h.fit.eq_iff (fun _ _ h => Tag.task.inj h) hji hab).1 rfl
    rw [canGo_eq, hf] at hvgo
    exact absurd rfl (of_decide_eq_false hvgo)

/-- **Sections of tasks that stand for each other keep worlds alike, be it that only one of them can go on.** -/
theorem Alike.serve_or_wait (h : Alike S O θ w v) (hS : ¬S.whole) (hvigilant : v.Vigilant) (hab : θ.on .task a b)
    (hgo : canGo w a = true)
    (hnext : ∀ t s, w.tasks.live.get? a = some t → t.cancelled = false → t.phase.activity = .pumping s → w.NextSeen S s) :
    ∃ θ', θ ≤ θ' ∧ Alike S O θ' (serve w a) (serve v b) := by
  by_cases hvgo : canGo v b = true
  · exact h.after_serve hab hgo hvgo hnext
  rw [show serve v b = v from if_neg hvgo]
  rw [Bool.not_eq_true] at hvgo
  have hfloor := h.floor_of_wait hab hgo hvgo
  refine ⟨θ, le_rfl, ?_⟩
  have hlive := h.live a b hab
  cases ht : w.tasks.live.get? a <;> cases ht' : v.tasks.live.get? b <;> rw [ht, ht'] at hlive
  case none.some => cases hlive
  case some.none => cases hlive
  case none.none =>
    rw [serve_of_ended hgo ht]
    exact (h.floorTo_left hS hfloor a).reorder hS hfloor rfl fun _ => rfl
  case some.some t t' =>
    have htask : TaskAlike S θ t t' := by
      cases hlive with
      | some h => exact h
    have hquiet : t'.phase.activity.awaits ≠ .quiet := fun hq => by
      have hawaits := htask.phase.activity.awaits
      rw [hq] at hawaits
      generalize hy : t.phase.activity.awaits = y at hawaits
      cases hawaits
      exact htask.phase.activity.quiet hS hy
    obtain ⟨hc', hheld⟩ := hvigilant b t' ht' (runnable_of_canGo hvgo hfloor) hquiet
    have hc : t.cancelled = false := htask.cancelled.trans hc'
    refine h.serve_heldUp hS hfloor hgo ht hc ((h.heldUp hS htask.phase.activity fun s hs => ?_).2 hheld)
    exact hnext t s ht hc hs

end LiveFiles.Engine
