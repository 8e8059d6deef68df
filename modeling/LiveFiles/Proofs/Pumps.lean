/-
The pumps of streams of events. Each stream is read by one task, its pump, from when it is attached; another stream that is attached,
or shutting the engine down, stops the pump that there is (`World.stopsPump`), and nothing else does.
- `cancelled_of_move`: whom any move cancels, shutting down included.
- `pumps_of_move`: who is a pump after a move, and whether it has been stopped.
- `unhandled_outside`, `takes_outside`: what happens to a stream from outside.
- `requested_cases`: who requests a reconciliation in the background.
- **`reads_of_carried`**: what a section of the pump does with its stream, and what it requests (`Reads`).
- `ends_refusing`: a stream whose pump has ended takes nothing any more.
-/
import LiveFiles.Proofs.Failures
import LiveFiles.Proofs.HeldUp

namespace LiveFiles.Engine

variable {w : World} {m : Move} {id i j : TaskId} {t t' : Task Phase} {a : Activity} {p q : Path} {x : SubscriberId} {s : StreamId}
  {b : Bool} {ph : Phase} {ev : Event}

/-! ## Stopping the pump -/

/-- the task is the pump of a stream, and has been cancelled or not -/
def World.Pumps (w : World) (j : TaskId) (s : StreamId) (stopped : Bool) : Prop :=
  w.tasks.live.get? j = some ⟨⟨.service, .pumping s⟩, stopped⟩

theorem World.Pumps.phase? (h : w.Pumps j s b) : w.tasks.phase? j = some ⟨.service, .pumping s⟩ :=
  congrArg (Option.map Task.phase) h

theorem exists_pumps (h : w.tasks.phase? j = some ⟨.service, .pumping s⟩) : ∃ b, w.Pumps j s b := by
  obtain ⟨⟨ph, b⟩, ht, rfl⟩ := Option.map_eq_some_iff.1 h
  exact ⟨b, ht⟩

def Activity.shutsDown : Activity → Bool
  | .starting .shutDown => true
  | _ => false

theorem shutsDown_iff : a.shutsDown = true ↔ a = .starting .shutDown := by
  constructor
  · intro h
    cases a with
    | starting r => cases r <;> first | rfl | cases h
    | _ => cases h
  · rintro rfl
    rfl

/-- the move stops the pump that there is: another stream is attached, or the engine is shut down -/
def World.stopsPump (w : World) : Move → Bool
  | .attachStream => true
  | m => (w.carried? m).any fun y => y.2.shutsDown

theorem stopsPump_of_carried (hcarry : w.carried? m = some (id, a)) : w.stopsPump m = a.shutsDown := by
  obtain ⟨t, rfl, -⟩ := carried?_eq_some.1 hcarry
  simp only [World.stopsPump, hcarry, Option.any_some]

/-- the pump is stopped when another stream is attached, or by the section that shuts the engine down -/
theorem stopsPump_cases (h : w.stopsPump m = true) :
    m = .attachStream ∨ ∃ id, w.carried? m = some (id, .starting .shutDown) := by
  by_cases hattach : m = .attachStream
  · exact Or.inl hattach
  · have hany : (w.carried? m).any (fun y => y.2.shutsDown) = true := by
      cases m <;> first | exact h | exact absurd rfl hattach
    obtain ⟨⟨id, a⟩, hcarry, ha⟩ := (Option.any_eq_true _ _).1 hany
    exact Or.inr ⟨id, hcarry.trans (congrArg (fun y => some (id, y)) (shutsDown_iff.1 ha))⟩

theorem pump_attachStream (w : World) : (w.move .attachStream).pump = some w.tasks.next := by
  simp only [World.move, World.attachStream]
  cases w.pump <;> rfl

/-- shutting down stops the pump, and there is none any more -/
theorem pump_of_shutsDown (hcarry : w.carried? m = some (id, .starting .shutDown)) : (w.move m).pump = none := by
  obtain ⟨t, rfl, hs, hc, ha⟩ := carried?_eq_some.1 hcarry
  have hadv : ((floorTo w id).advance id t.phase).1.pump = ((floorTo w id).step t.phase.activity).1.pump :=
    congrArg Roll.pump (roll_advance (floorTo w id) id t.phase)
  rw [World.move, serve_of_section hs hc, World.after]
  refine hadv.trans ?_
  rw [ha]
  exact (halts_requestShutDown (floorTo w id)).pump

/-- **The pump is the one that there was, as long as no move stops it.** -/
theorem pump_of_not_stopped (h : w.stopsPump m = false) : (w.move m).pump = w.pump := by
  by_cases hturn : ∃ i, m = .turn i
  · obtain ⟨i, rfl⟩ := hturn
    refine (spares_serve fun t hs hc hshut => ?_).pump
    rw [stopsPump_of_carried (carried?_of_served hs hc), hshut] at h
    cases h
  · refine pump_outside w (fun i hi => hturn ⟨i, hi⟩) ?_
    rintro rfl
    cases h

/-- there is no other pump after a move than before, unless a stream is attached -/
theorem pump_of_ne (hattach : m ≠ .attachStream) (hj : (w.move m).pump = some j) : w.pump = some j := by
  cases hstops : w.stopsPump m with
  | false => exact (pump_of_not_stopped hstops).symm.trans hj
  | true =>
    obtain ⟨id, hcarry⟩ := (stopsPump_cases hstops).resolve_left hattach
    cases (pump_of_shutsDown hcarry).symm.trans hj

/-- whom the section cancels that shuts the engine down: listeners of registered subscribers, and the pump -/
theorem cancelled_of_shutsDown {u : Task Phase} (hs : w.served? i = some u) (hu : u.cancelled = false)
    (ha : u.phase.activity = .starting .shutDown) (ht : (serve w i).tasks.live.get? j = some t') (hc : t'.cancelled = true) :
    (∃ t, w.tasks.live.get? j = some t ∧ t.cancelled = true) ∨ w.Listens j ∨ w.pump = some j := by
  obtain ⟨t₁, ht₁, hsame⟩ := live_section hs hu ht
  rw [ha] at ht₁
  obtain ⟨t₂, ht₂, -, -, hnew⟩ := (halts_requestShutDown (floorTo w i)).task j t₁ ht₁
  obtain ⟨t₀, ht₀, -, hiff⟩ := cancelled_cancelIf (w := floorTo w i) ht₂
  have hpump : (floorTo w i).pump = w.pump := congrArg Roll.pump (roll_floorTo w i)
  rw [live_floorTo] at ht₀
  rw [hpump] at hiff
  rw [listens_floorTo] at hnew
  rcases hnew (hsame ▸ hc) with hc₂ | hlisten
  · rcases hiff.1 hc₂ with hj | hc₀
    · exact Or.inr (Or.inr hj)
    · exact Or.inl ⟨t₀, ht₀, hc₀⟩
  · exact Or.inr (Or.inl hlisten)

/-- from outside, nobody is cancelled but the task that the move dismisses -/
theorem cancelled_outside (hm : ∀ i, m ≠ .turn i) (ht : (w.move m).tasks.live.get? j = some t') (hc : t'.cancelled = true) :
    (∃ t, w.tasks.live.get? j = some t ∧ t.cancelled = true) ∨ w.dismissed? m = some j := by
  rcases live_outside w hm with hl | ⟨role, y, hl⟩ <;> rw [hl] at ht <;>
    obtain ⟨t₀, ht₀, -, hiff⟩ := cancelled_cancelIf ht <;> rcases hiff.1 hc with hj | hc₀
  · exact Or.inr hj
  · exact Or.inl ⟨t₀, ht₀, hc₀⟩
  · exact Or.inr hj
  · rcases cancelled_spawn ht₀ with hold | ⟨-, rfl⟩
    · exact Or.inl ⟨t₀, hold, hc₀⟩
    · cases hc₀

/-- **Whom a move cancels**: the task that it says, the pump if it stops it, and listeners of registered subscribers. -/
theorem cancelled_of_move (ht : (w.move m).tasks.live.get? j = some t') (hc : t'.cancelled = true) :
    (∃ t, w.tasks.live.get? j = some t ∧ t.cancelled = true) ∨ m = .cancel j ∨ w.Listens j ∨
      w.stopsPump m = true ∧ w.pump = some j := by
  by_cases hturn : ∃ i, m = .turn i
  · obtain ⟨i, rfl⟩ := hturn
    by_cases hshut : ∃ u, w.served? i = some u ∧ u.cancelled = false ∧ u.phase.activity = .starting .shutDown
    · obtain ⟨u, hs, hu, ha⟩ := hshut
      have hstops : w.stopsPump (.turn i) = true := by
        rw [stopsPump_of_carried (carried?_of_served hs hu), ha]
        rfl
      rcases cancelled_of_shutsDown hs hu ha ht hc with hold | hlisten | hpump
      · exact Or.inl hold
      · exact Or.inr (Or.inr (Or.inl hlisten))
      · exact Or.inr (Or.inr (Or.inr ⟨hstops, hpump⟩))
    · have hspares : Spares w.Listens w (serve w i) := spares_serve fun u hs hu ha => hshut ⟨u, hs, hu, ha⟩
      rcases hspares.cancelled j t' ht hc with hlisten | hold
      · exact Or.inr (Or.inr (Or.inl hlisten))
      · exact Or.inl hold
  · refine (cancelled_outside (fun i hi => hturn ⟨i, hi⟩) ht hc).imp_right fun hj => ?_
    cases m with
    | turn i => exact absurd ⟨i, rfl⟩ hturn
    | cancel i =>
      cases hj
      exact Or.inl rfl
    | attachStream => exact Or.inr (Or.inr ⟨rfl, hj⟩)
    | _ => cases hj

/-- **The pump is cancelled in a move that stops it**, and can go on. -/
theorem stopped_of_move (hw : Wf w) (hj : w.pump = some j) (hold : w.Pumps j s b) (hstops : w.stopsPump m = true)
    (ht : (w.move m).tasks.live.get? j = some t') : t'.cancelled = true ∧ (w.move m).runnable j = true := by
  have hrun := Option.isSome_iff_exists.2 ⟨t', ht⟩
  rcases stopsPump_cases hstops with rfl | ⟨id, hcarry⟩
  · refine ⟨?_, runnable_dismissed (fun i => nofun) hj hrun⟩
    rcases live_outside (m := .attachStream) w (fun i => nofun) with hl | ⟨role, y, hl⟩ <;> rw [hl] at ht <;>
      obtain ⟨t₀, -, -, hiff⟩ := cancelled_cancelIf ht <;> exact hiff.2 (Or.inl hj)
  · obtain ⟨u, rfl, hs, hu, hact⟩ := carried?_eq_some.1 hcarry
    have hne : j ≠ id := by
      rintro rfl
      have hph := phase?_of_served hs
      rw [hold.phase?] at hph
      cases (congrArg Phase.activity (Option.some.inj hph)).trans hact
    have hpump : (floorTo w id).pump = some j := (congrArg Roll.pump (roll_floorTo w id)).trans hj
    constructor
    · obtain ⟨t₁, ht₁, hsame⟩ := live_section hs hu ht
      rw [hact] at ht₁
      obtain ⟨t₂, ht₂, -, hkept, -⟩ := (halts_requestShutDown (floorTo w id)).task j t₁ ht₁
      obtain ⟨t₀, -, -, hiff⟩ := cancelled_cancelIf (w := floorTo w id) ht₂
      exact hsame.trans (hkept (hiff.2 (Or.inl hpump)))
    · refine runnable_section hw hs hu hne ?_
      rw [hact]
      refine runnable_requestShutDown hpump ?_
      rw [live_floorTo]
      exact Option.isSome_iff_exists.2 ⟨_, hold⟩

/-! ## Services -/

/-- Tasks that are named by a registration listen, those that read a stream are services, and so is the pump. -/
structure World.Staffed (w : World) : Prop where
  listener : ∀ j, w.Listens j → j < w.tasks.next ∧ ∀ ph, w.tasks.phase? j = some ph → ∃ q x, ph = ⟨.service, .listening q x⟩
  reader : ∀ j ph s, w.tasks.phase? j = some ph → ph.activity = .pumping s → ph.role = .service
  pump : ∀ j, w.pump = some j → j < w.tasks.next ∧ ∀ ph, w.tasks.phase? j = some ph → ph.role = .service

/-- a task keeps its role -/
theorem role_of_move (hw : Wf w) {ph' : Phase} (hph : w.tasks.phase? j = some ph) (hph' : (w.move m).tasks.phase? j = some ph') :
    ph'.role = ph.role := by
  cases fate_move hw hph m with
  | stays h =>
    cases h.symm.trans hph'
    rfl
  | goesOn b _ _ h =>
    cases h.symm.trans hph'
    rfl
  | ends o _ _ h => cases h.symm.trans hph'
  | dropped u _ _ _ h => cases h.symm.trans hph'

theorem exists_phase?_of_old (hw : Wf w) (hj : j < w.tasks.next) (hph : (w.move m).tasks.phase? j = some ph) :
    ∃ ph₀, w.tasks.phase? j = some ph₀ := by
  cases h : w.tasks.phase? j with
  | none => cases ((grows_move hw m).2 j hj h).symm.trans hph
  | some ph₀ => exact ⟨ph₀, rfl⟩

/-- a listener goes on listening -/
theorem listening_kept (hw : Wf w) {role : Role} {ph' : Phase} (hph : w.tasks.phase? j = some ⟨role, .listening q x⟩)
    (hph' : (w.move m).tasks.phase? j = some ph') : ph' = ⟨role, .listening q x⟩ := by
  cases fate_move hw hph m with
  | stays h => exact (Option.some.inj (h.symm.trans hph')).symm
  | goesOn b _ hb h =>
    cases next_listening hb
    exact (Option.some.inj (h.symm.trans hph')).symm
  | ends o _ _ h => cases h.symm.trans hph'
  | dropped u _ _ _ h => cases h.symm.trans hph'

/-- whoever is named by a registration has been so before, or is new and listens -/
theorem listens_of_move (hw : Wf w) (h : (w.move m).Listens j) :
    w.Listens j ∨ ∃ q x, (w.move m).tasks.phase? j = some ⟨.service, .listening q x⟩ := by
  obtain ⟨k, f', x, r, hf', hx, hj⟩ := listens_iff.1 h
  rcases section_or_not w m with ⟨i, t, rfl, hs, hc⟩ | hidle
  · rcases registration_serve hw hs hc hf' hx with ⟨f, hf, hx⟩ | ⟨-, hnew⟩
    · exact Or.inl (listens_iff.2 ⟨k, f, x, r, hf, hx, hj⟩)
    · obtain ⟨q, hph, -⟩ := hnew j hj
      exact Or.inr ⟨q, x, hph⟩
  · obtain ⟨f, hf, hx⟩ := noNewer_of_no_section hidle k f' x r hf' hx
    exact Or.inl (listens_iff.2 ⟨k, f, x, r, hf, hx, hj⟩)

theorem staffed_move (hw : Wf w) (h : w.Staffed) : (w.move m).Staffed where
  listener j hj := by
    have hnext := (grows_move hw m).1
    rcases listens_of_move hw hj with hold | ⟨q, x, hnew⟩
    · obtain ⟨hlt, hlistening⟩ := h.listener j hold
      refine ⟨hlt.trans_le hnext, fun ph' hph' => ?_⟩
      obtain ⟨ph, hph⟩ := exists_phase?_of_old hw hlt hph'
      obtain ⟨q, x, rfl⟩ := hlistening ph hph
      exact ⟨q, x, listening_kept hw hph hph'⟩
    · refine ⟨(wf_move hw m).numbered.lt hnew, fun ph' hph' => ?_⟩
      exact ⟨q, x, (Option.some.inj (hnew.symm.trans hph')).symm⟩
  reader j ph s hph ha := by
    rcases pumping_cases hw hph ha with ⟨ph₀, hph₀, ha₀⟩ | ⟨rfl, rfl, rfl⟩
    · exact (role_of_move hw hph₀ hph).trans (h.reader j ph₀ s hph₀ ha₀)
    · rw [phase?_attachStream, if_pos rfl] at hph
      cases hph
      rfl
  pump j hj := by
    by_cases hattach : m = .attachStream
    · subst hattach
      rw [pump_attachStream] at hj
      cases hj
      have hnew : (w.move .attachStream).tasks.phase? w.tasks.next = some ⟨.service, .pumping w.nextStream⟩ := by
        rw [phase?_attachStream, if_pos rfl]
      refine ⟨(wf_move hw .attachStream).numbered.lt hnew, fun ph hph => ?_⟩
      cases hnew.symm.trans hph
      rfl
    · obtain ⟨hlt, hservice⟩ := h.pump j (pump_of_ne hattach hj)
      refine ⟨hlt.trans_le (grows_move hw m).1, fun ph' hph' => ?_⟩
      obtain ⟨ph, hph⟩ := exists_phase?_of_old hw hlt hph'
      exact (role_of_move hw hph hph').trans (hservice ph hph)

theorem staffed_start (policy : WritePolicy) : (World.start policy).Staffed where
  listener j hj := by
    obtain ⟨k, e, x, r, he, -⟩ := hj
    cases he
  reader j ph s hph := by cases hph
  pump j hj := by cases hj

theorem staffed_trace (policy : WritePolicy) (moves : Nat → Move) (n : Nat) : ((World.start policy).trace moves n).Staffed := by
  induction n with
  | zero => exact staffed_start policy
  | succ n ih => exact staffed_move (reachable_trace policy moves n).wf ih

/-! ## Pumps -/

/-- from outside, the move cancels nobody but a call -/
def World.CancelsCall (w : World) (m : Move) : Prop :=
  ∀ id ph, m = .cancel id → w.tasks.phase? id = some ph → ph.role = .caller

/-- **Who is a pump after a move has been so before, or its stream is new**; it has been stopped if the move stops it. -/
theorem pumps_of_move (hw : Wf w) (hstaff : w.Staffed) (hcancel : w.CancelsCall m) (h : (w.move m).Pumps j s b) :
    (m = .attachStream ∧ j = w.tasks.next ∧ s = w.nextStream ∧ b = false) ∨
      ∃ b₀, w.Pumps j s b₀ ∧ (b = true ↔ b₀ = true ∨ w.stopsPump m = true ∧ w.pump = some j) := by
  rcases pumping_cases hw h.phase? rfl with ⟨⟨role, a⟩, hph, rfl⟩ | ⟨rfl, rfl, rfl⟩
  · right
    cases hstaff.reader j _ s hph rfl
    obtain ⟨b₀, hold⟩ := exists_pumps hph
    refine ⟨b₀, hold, fun hb => ?_, ?_⟩
    · rcases cancelled_of_move h hb with ⟨t, ht, hc⟩ | rfl | hlisten | hstops
      · cases hold.symm.trans ht
        exact Or.inl hc
      · cases hcancel j _ rfl hph
      · obtain ⟨q, x, hlistening⟩ := (hstaff.listener j hlisten).2 _ hph
        cases hlistening
      · exact Or.inr hstops
    · rintro (rfl | ⟨hstops, hpump⟩)
      · exact stays_cancelled hw hold rfl h
      · exact (stopped_of_move hw hpump hold hstops h).1
  · refine Or.inl ⟨rfl, rfl, rfl, Bool.eq_false_iff.2 fun hb => ?_⟩
    rcases cancelled_of_move h hb with ⟨t, ht, -⟩ | hcancel | hlisten | ⟨-, hpump⟩
    · cases (hw.numbered _ le_rfl).symm.trans ht
    · cases hcancel
    · exact lt_irrefl _ (hstaff.listener _ hlisten).1
    · exact lt_irrefl _ (hstaff.pump _ hpump).1

/-- a pump goes on to be one unless it gets the floor -/
theorem pumps_kept (hw : Wf w) (hserves : w.serves m j = false) (h : w.Pumps j s b) : ∃ b', (w.move m).Pumps j s b' :=
  exists_pumps (phase?_kept hw hserves h.phase?)

theorem pumps_attachStream (w : World) : ∃ b, (w.move .attachStream).Pumps w.tasks.next w.nextStream b :=
  exists_pumps (by rw [phase?_attachStream, if_pos rfl])

/-! ## What is in a stream -/

/-- the events that the stream has taken and that have not been handled -/
def World.unhandled (w : World) (s : StreamId) : List Event := (w.streams.getD s {}).buffer

theorem fst_sendEvent (w : World) (s : StreamId) (ev : Event) : (w.sendEvent s ev).1 = w.takes s := by
  unfold World.sendEvent World.takes
  cases w.streams.get? s with
  | none => rfl
  | some c =>
    rw [Option.any_some]
    dsimp only
    split
    · next h => exact h.symm
    · next h => exact (Bool.eq_false_iff.2 h).symm

theorem takes_congr {v : World} (h : v.streams.get? s = w.streams.get? s) : v.takes s = w.takes s := by
  rw [World.takes, h, World.takes]

theorem unhandled_congr {v : World} (h : v.streams.get? s = w.streams.get? s) : v.unhandled s = w.unhandled s := by
  rw [World.unhandled, Table.getD, h, World.unhandled, Table.getD]

/-- the event that a stream takes in a move, if it takes one -/
def World.accepts (w : World) (s : StreamId) : Move → List Event
  | .sendEvent y ev => if y = s ∧ (w.sendEvent y ev).1 = true then [ev] else []
  | _ => []

/-- only streams that have been attached are there -/
def World.Bounded (w : World) : Prop := ∀ s, w.nextStream ≤ s → w.streams.get? s = none

theorem World.Bounded.takes (h : w.Bounded) (hs : w.nextStream ≤ s) : w.takes s = false := by
  rw [World.takes, h s hs, Option.any_none]

theorem World.Bounded.unhandled (h : w.Bounded) (hs : w.nextStream ≤ s) : w.unhandled s = [] := by
  rw [World.unhandled, Table.getD, h s hs, Option.getD_none]

theorem accepts_of_refused (h : ∀ ev, m = .sendEvent s ev → w.takes s = false) : w.accepts s m = [] := by
  cases m with
  | sendEvent y ev =>
    refine if_neg ?_
    rintro ⟨rfl, htakes⟩
    rw [fst_sendEvent, h ev rfl] at htakes
    cases htakes
  | _ => rfl

/-! ### From outside -/

/-- **From outside, a stream gets the events that it takes**, and nothing else happens to those that have not been handled. -/
theorem unhandled_outside (hbounded : w.Bounded) (hm : ∀ i, m ≠ .turn i) (s : StreamId) :
    (w.move m).unhandled s = w.unhandled s ++ w.accepts s m := by
  cases feeds_outside hm s with
  | same h hrefused => rw [unhandled_congr h, accepts_of_refused hrefused, List.append_nil]
  | taken hc hopen =>
    rename_i ev c
    have haccepts : w.accepts s (.sendEvent s ev) = [ev] :=
      if_pos ⟨rfl, (fst_sendEvent w s ev).trans (takes_iff.2 ⟨c, hc, hopen⟩)⟩
    rw [haccepts, World.unhandled, World.unhandled, Table.getD, Table.getD, stream_sendEvent hc hopen, hc, Channel.send, if_pos hopen]
    rfl
  | closed =>
    rw [show w.accepts s (.closeStream s) = [] from rfl, List.append_nil, World.unhandled, World.unhandled, Table.getD, Table.getD,
      stream_closeStream]
    cases w.streams.get? s <;> rfl
  | new hs =>
    subst hs
    rw [hbounded.unhandled le_rfl, World.unhandled, Table.getD, stream_attachStream]
    rfl

/-- from outside, no stream is opened but a new one -/
theorem takes_outside (hm : ∀ i, m ≠ .turn i) (h : (w.move m).takes s = true) :
    w.takes s = true ∨ m = .attachStream ∧ s = w.nextStream := by
  cases feeds_outside (w := w) hm s with
  | same hsame => exact Or.inl ((takes_congr hsame).symm.trans h)
  | taken hc hopen => exact Or.inl (takes_iff.2 ⟨_, hc, hopen⟩)
  | closed =>
    left
    rw [World.takes, stream_closeStream, Option.any_map] at h
    exact h
  | new hs => exact Or.inr ⟨rfl, hs⟩

/-! ### Sections -/

theorem bounded_move (halert : w.Alert) (h : w.Bounded) : (w.move m).Bounded := by
  intro s hs
  have hold : w.streams.get? s = none := h s ((le_nextStream w m).trans hs)
  by_cases hturn : ∃ i, m = .turn i
  · obtain ⟨i, rfl⟩ := hturn
    refine (stream_of_turn fun t ht ha => ?_).trans hold
    exact absurd ((le_nextStream w _).trans hs) (not_le.2 (halert.made i _ s (phase?_of_served ht) ha))
  · cases feeds_outside (w := w) (fun i hi => hturn ⟨i, hi⟩) s with
    | same hsame => exact hsame.trans hold
    | taken hc => cases hold.symm.trans hc
    | closed => rw [stream_closeStream, hold, Option.map_none]
    | new hnew =>
      rw [nextStream_attachStream] at hs
      exact absurd hnew (Nat.lt_of_succ_le hs).ne'

theorem bounded_trace (policy : WritePolicy) (moves : Nat → Move) (n : Nat) :
    ((World.start policy).trace moves n).Bounded := by
  induction n with
  | zero => exact fun _ _ => rfl
  | succ n ih => exact bounded_move (alert_trace policy moves n) ih

/-! ## What is requested -/

/-- the path that a task of the background is to reconcile, if it has not begun -/
def Phase.reconciles? : Phase → Option Path
  | ⟨.background, .starting (.reconcile p)⟩ => some p
  | _ => none

theorem reconciles?_eq_some : ph.reconciles? = some p ↔ ph = ⟨.background, .starting (.reconcile p)⟩ := by
  obtain ⟨role, a⟩ := ph
  constructor
  · intro h
    cases role with
    | background =>
      cases a with
      | starting r =>
        cases r <;> cases h
        rfl
      | _ => cases h
    | _ => cases h
  · intro h
    cases h
    rfl

/-- the reconciliations that a move requests: new tasks of the background, each with its path -/
def World.requested (w : World) (m : Move) : List (TaskId × Path) :=
  (List.range' w.tasks.next ((w.move m).tasks.next - w.tasks.next)).filterMap fun i =>
    (((w.move m).tasks.phase? i).bind Phase.reconciles?).map fun p => (i, p)

theorem mem_requested (hw : Wf w) : (i, p) ∈ w.requested m ↔
    w.tasks.next ≤ i ∧ (w.move m).tasks.phase? i = some ⟨.background, .starting (.reconcile p)⟩ := by
  simp only [World.requested, List.mem_filterMap, List.mem_range'_1, Option.map_eq_some_iff, Option.bind_eq_some_iff,
    reconciles?_eq_some, Prod.mk.injEq]
  constructor
  · rintro ⟨i', hi, p', ⟨ph, hph, rfl⟩, rfl, rfl⟩
    exact ⟨hi.1, hph⟩
  · rintro ⟨hi, hph⟩
    have hlt := (wf_move hw m).numbered.lt hph
    exact ⟨i, ⟨hi, hlt.trans_eq (Nat.add_sub_cancel' (grows_move hw m).1).symm⟩, p, ⟨_, hph, rfl⟩, rfl, rfl⟩

theorem pairwise_requested (w : World) (m : Move) : (w.requested m).Pairwise fun y z => y.1 < z.1 := by
  refine List.pairwise_filterMap.2 ((List.pairwise_lt_range' (s := w.tasks.next)).imp ?_)
  intro i j hij y hy z hz
  obtain ⟨p, -, rfl⟩ := Option.map_eq_some_iff.1 hy
  obtain ⟨q, -, rfl⟩ := Option.map_eq_some_iff.1 hz
  exact hij

theorem requested_of_same (h : (w.move m).tasks.next = w.tasks.next) : w.requested m = [] := by
  rw [World.requested, h, Nat.sub_self]
  rfl

theorem requested_of_one (h : (w.move m).tasks.next = w.tasks.next + 1)
    (hph : (w.move m).tasks.phase? w.tasks.next = some ⟨.background, .starting (.reconcile p)⟩) :
    w.requested m = [(w.tasks.next, p)] := by
  rw [World.requested, h, Nat.add_sub_cancel_left]
  simp only [List.range'_one, List.filterMap_cons, List.filterMap_nil, hph, Option.bind_some, Phase.reconciles?, Option.map_some]

/-- **Who requests a reconciliation in the background**: somebody from outside, a write that has failed, or the pump of a stream. -/
theorem requested_cases (hw : Wf w) (h : (i, p) ∈ w.requested m) : m = .notifyChange p ∨
    (∃ j y, w.carried? m = some (j, .saving y) ∧ y.job.path = p) ∨ ∃ j s, w.carried? m = some (j, .pumping s) := by
  obtain ⟨hi, hph⟩ := (mem_requested hw).1 h
  have hnone : w.tasks.phase? i = none := Tasks.phase?_eq_none_iff.2 (hw.numbered i hi)
  rcases phase?_cases hw hph with hold | ⟨-, hnew⟩ | ⟨a, hcarry, -⟩
  · cases hnone.symm.trans hold
  · cases m with
    | turn id =>
      obtain ⟨t, hs, hstarts⟩ := hnew
      split at hstarts
      · obtain ⟨seat, -, hleaves⟩ := hstarts
        cases hleaves
      · next hc =>
        have hcarry := carried?_of_served hs (Bool.eq_false_iff.2 hc)
        rcases hstarts with ⟨y, ha, hp⟩ | ⟨q, x, -, hp⟩ | ⟨s, q, ha, hp⟩ | ⟨seat, signal, -, hp⟩
        · cases hp
          exact Or.inr (Or.inl ⟨id, y, hcarry.trans (congrArg (fun a => some (id, a)) (Activity.eq_of_save ha)), rfl⟩)
        · cases hp
        · exact Or.inr (Or.inr ⟨id, s, hcarry.trans (congrArg (fun a => some (id, a)) ha)⟩)
        · cases hp
    | call r =>
      obtain ⟨-, hp⟩ := hnew
      cases hp
    | notifyChange q =>
      cases (show _ = _ from hnew)
      exact Or.inl rfl
    | attachStream =>
      obtain ⟨s, hp⟩ := hnew
      cases hp
    | _ => cases hnew
  · obtain ⟨ρ, hold⟩ := phase?_carried hcarry
    cases hnone.symm.trans hold

/-! ## The pump at work -/

/-- What a section of the pump of a stream does. -/
inductive Reads (w : World) (m : Move) (s : StreamId) : Prop
  /-- the next event becomes a request, unless the pool is closed -/
  | handles (ev : Event) (h : w.unhandled s = ev :: (w.move m).unhandled s)
      (hreq : w.requested m = if w.pool.closed then [] else [(w.tasks.next, ev.path)])
  | waits (h : (w.move m).unhandled s = w.unhandled s) (hreq : w.requested m = [])
  /-- no more can come, and the pump ends -/
  | ends (h : w.unhandled s = []) (h' : (w.move m).unhandled s = []) (hrefuses : (w.move m).takes s = false)
      (hreq : w.requested m = [])

theorem unhandled_closeReceiver (w : World) (s : StreamId) :
    (w.closeReceiver s).unhandled s = [] ∧ (w.closeReceiver s).takes s = false := by
  simp only [World.unhandled, World.takes, World.closeReceiver, Table.getD, Table.get?_modify, if_true]
  cases w.streams.get? s <;> exact ⟨rfl, rfl⟩

/-- what is read from a channel has been the first of what was there -/
theorem buffer_of_message {α : Type} {c c' : Channel α} {y : α} (h : c.read = (.message y, c')) : c.buffer = y :: c'.buffer := by
  obtain ⟨buffer, o, r, x⟩ := c
  cases buffer with
  | cons =>
    cases h
    rfl
  | nil => cases o <;> cases x <;> cases h

theorem buffer_eq_nil_of_read {α : Type} {c c' : Channel α} {x : Channel.Reading α} (h : c.read = (x, c'))
    (hx : ∀ y, x ≠ .message y) : c.buffer = [] := by
  obtain ⟨buffer, o, r, y⟩ := c
  cases buffer with
  | cons y rest =>
    cases h
    exact absurd rfl (hx y)
  | nil => rfl

/-- a section leaves streams as the step of the task does -/
theorem streams_of_carried (hcarry : w.carried? m = some (id, a)) :
    (w.move m).streams = ((floorTo w id).step a).1.streams := by
  obtain ⟨t, rfl, hs, hc, rfl⟩ := carried?_eq_some.1 hcarry
  exact congrArg Outlook.streams (outlook_section hs hc)

/-- the pump ends when the stream is over -/
theorem closeReceiver_of_ended {o : Outcome} (h : (w.stepPumping s).2 = .ended o) : (w.stepPumping s).1 = w.closeReceiver s := by
  unfold World.stepPumping at h ⊢
  split at h
  · cases h
  · rfl
  · cases h

/-- **What a section of the pump does.** -/
theorem reads_of_carried (hw : Wf w) (hcarry : w.carried? m = some (id, .pumping s)) : Reads w m s := by
  have hstreams := streams_of_carried hcarry
  have hnext := next_of_carried hcarry
  obtain ⟨t, rfl, hs, hc, ha⟩ := carried?_eq_some.1 hcarry
  have hfloor : (floorTo w id).streams = w.streams := congrArg Outlook.streams (outlook_floorTo w id)
  simp only [World.step, World.stepPumping] at hstreams hnext
  rcases hread : ((floorTo w id).streams.getD s {}).read with ⟨x, c⟩
  rw [hread] at hstreams hnext
  rw [hfloor] at hread
  cases x with
  | message ev =>
    have hother : w.tasks.next ≠ id := (hw.numbered.lt (phase?_of_served hs)).ne'
    have hback := next_inBackground { floorTo w id with streams := (floorTo w id).streams.insert s c } (.reconcile ev.path)
    have hafter : (w.move (.turn id)).unhandled s = c.buffer := by
      have hinsert : (w.move (.turn id)).streams = (floorTo w id).streams.insert s c :=
        hstreams.trans (congrArg Outlook.streams (outlook_inBackground _ _))
      rw [World.unhandled, hinsert, Table.getD, Table.get?_insert, if_pos rfl, Option.getD_some]
    refine .handles ev ((buffer_of_message hread).trans (by rw [hafter])) ?_
    dsimp only at hback
    rw [closed_floorTo, next_floorTo] at hback
    split at hback
    · next hclosed =>
      rw [if_pos hclosed]
      exact requested_of_same (hnext.trans ((congrArg (fun v : World => v.tasks.next) hback).trans (next_floorTo w id)))
    · next hopen =>
      rw [if_neg hopen]
      refine requested_of_one (hnext.trans hback.1) ?_
      rw [World.move, phase?_section hs hc hother, ha]
      simp only [World.step, World.stepPumping, hfloor, hread]
      rw [hfloor] at hback
      exact hback.2
  | ended =>
    have hclosed := unhandled_closeReceiver (floorTo w id) s
    refine .ends (buffer_eq_nil_of_read hread fun _ h => by cases h) ?_ ?_ (requested_of_same (hnext.trans (next_floorTo w id)))
    · exact (unhandled_congr (congrArg (·.get? s) hstreams)).trans hclosed.1
    · exact (takes_congr (congrArg (·.get? s) hstreams)).trans hclosed.2
  | nothing =>
    refine .waits (unhandled_congr ?_) (requested_of_same (hnext.trans (next_floorTo w id)))
    exact congrArg (·.get? s) (hstreams.trans hfloor)

/-- **A stream whose pump has ended takes nothing any more**, and nothing of it is to be handled. -/
theorem ends_refusing (hw : Wf w) (h : w.Pumps j s b) (hends : ∀ b', ¬ (w.move m).Pumps j s b') :
    (w.move m).takes s = false ∧ (w.move m).unhandled s = [] := by
  cases hserves : w.serves m j with
  | false =>
    obtain ⟨b', hb⟩ := pumps_kept hw hserves h
    exact absurd hb (hends b')
  | true =>
    obtain ⟨rfl, -⟩ := serves_iff.1 hserves
    have hclosed : ∀ w₁ : World, (w.move (.turn j)).streams = (w₁.closeReceiver s).streams →
        (w.move (.turn j)).takes s = false ∧ (w.move (.turn j)).unhandled s = [] := fun w₁ hstreams => by
      have hstream := congrArg (·.get? s) hstreams
      exact ⟨(takes_congr hstream).trans (unhandled_closeReceiver w₁ s).2,
        (unhandled_congr hstream).trans (unhandled_closeReceiver w₁ s).1⟩
    have hgoes : (w.move (.turn j)).tasks.phase? j ≠ some ⟨.service, .pumping s⟩ := fun hph => by
      obtain ⟨b', hb⟩ := exists_pumps hph
      exact hends b' hb
    cases fate_move hw h.phase? (.turn j) with
    | stays hsame => exact absurd hsame hgoes
    | goesOn y _ hy hsame =>
      cases next_pumping hy
      exact absurd hsame hgoes
    | ends o hcarry ho =>
      refine hclosed (floorTo w j) ((streams_of_carried hcarry).trans ?_)
      exact congrArg World.streams (closeReceiver_of_ended ho)
    | dropped t _ hs hc =>
      refine hclosed ((floorTo w j).without j) ?_
      rw [World.move, serve_of_cancelled hs hc, show t = ⟨⟨.service, .pumping s⟩, b⟩ from
        Option.some.inj ((served?_eq_some hs).2.symm.trans h)]
      rfl

end LiveFiles.Engine
