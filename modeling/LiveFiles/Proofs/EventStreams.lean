/-
Streams of events along a run. At any time one stream at most is attached: the last one, unless the engine has been shut down since.
- `manned_move`: the attached stream has its pump until it is over, and no other stream has one that goes on (`World.Manned`).
- `handled_trace`: each event that the attached stream has taken has led to a request, or is still to be handled, in order.
- `pumped_of_unattached`: a stream that is not attached leads to no request.
- **`driven_trace`**: so in every run only the attached stream drives the engine (`Driven`).
-/
import LiveFiles.Proofs.Departures
import LiveFiles.Proofs.Pumps

namespace LiveFiles.Engine

variable {w : World} {m : Move} {id i j : TaskId} {p : Path} {s : StreamId} {σ : Option StreamId} {b : Bool}

/-! ## The attached stream -/

/-- the stream that is attached after a move, if `σ` was before: a new one replaces it, and shutting down stops it -/
def World.attachedAfter (w : World) (σ : Option StreamId) (m : Move) : Option StreamId :=
  if w.stopsPump m then
    match m with
    | .attachStream => some w.nextStream
    | _ => none
  else σ

/-- a stream that is attached after a move is new, or was attached before and has not been stopped -/
theorem attachedAfter_cases (h : w.attachedAfter σ m = some s) :
    m = .attachStream ∧ s = w.nextStream ∨ w.stopsPump m = false ∧ σ = some s := by
  unfold World.attachedAfter at h
  split at h
  · cases m <;> cases h
    exact Or.inl ⟨rfl, rfl⟩
  · next hstops => exact Or.inr ⟨Bool.eq_false_iff.2 hstops, h⟩

/-- Of all pumps, only that of the attached stream `σ` goes on, and a stream without a pump has ended. -/
structure World.Manned (w : World) (σ : Option StreamId) : Prop where
  pump : ∀ j s, w.Pumps j s false → σ = some s ∧ w.pump = some j
  kept : ∀ s, σ = some s → s < w.nextStream ∧ ∀ j, ¬ w.Pumps j s true
  ended : ∀ s, s < w.nextStream → (∀ j b, ¬ w.Pumps j s b) → w.takes s = false ∧ w.unhandled s = []
  stopped : ∀ j s, w.Pumps j s true → w.runnable j = true

theorem manned_start (policy : WritePolicy) : (World.start policy).Manned none where
  pump j s h := by cases h
  kept s h := by cases h
  ended s _ _ := ⟨rfl, rfl⟩
  stopped j s h := by cases h

/-- whoever gets the floor to read a stream is its pump -/
theorem pumps_of_served {t : Task Phase} (hstaff : w.Staffed) (hs : w.served? i = some t) (ha : t.phase.activity = .pumping s) :
    w.Pumps i s t.cancelled := by
  obtain ⟨⟨role, a⟩, b⟩ := t
  cases ha
  cases hstaff.reader i _ s (phase?_of_served hs) rfl
  exact (served?_eq_some hs).2

/-- a stream that has ended stays as it is -/
theorem ended_move (hbounded : w.Bounded) (hold : s < w.nextStream) (hno : ∀ j b, ¬ w.Pumps j s b) (hstaff : w.Staffed)
    (h : w.takes s = false ∧ w.unhandled s = []) : (w.move m).takes s = false ∧ (w.move m).unhandled s = [] := by
  by_cases hturn : ∃ i, m = .turn i
  · obtain ⟨i, rfl⟩ := hturn
    have hstream : (w.move (.turn i)).streams.get? s = w.streams.get? s :=
      stream_of_turn fun t hs ha => hno i _ (pumps_of_served hstaff hs ha)
    exact ⟨(takes_congr hstream).trans h.1, (unhandled_congr hstream).trans h.2⟩
  · have hm : ∀ i, m ≠ .turn i := fun i hi => hturn ⟨i, hi⟩
    constructor
    · rw [Bool.eq_false_iff]
      intro htakes
      rcases takes_outside hm htakes with hbefore | ⟨-, hnew⟩
      · cases h.1.symm.trans hbefore
      · exact absurd hnew hold.ne
    · rw [unhandled_outside hbounded hm, h.2, accepts_of_refused fun _ _ => h.1]
      rfl

section Move

variable (hw : Wf w) (hstaff : w.Staffed) (hcancel : w.CancelsCall m) (h : w.Manned σ)
include hw hstaff hcancel h

/-- a pump that goes on after a move reads the stream that is attached then -/
theorem pump_going (hj : (w.move m).Pumps j s false) : w.attachedAfter σ m = some s ∧ (w.move m).pump = some j := by
  rcases pumps_of_move hw hstaff hcancel hj with ⟨rfl, rfl, rfl, -⟩ | ⟨b, hold, hiff⟩
  · exact ⟨rfl, pump_attachStream w⟩
  · obtain ⟨rfl, hstops⟩ : b = false ∧ ¬ (w.stopsPump m = true ∧ w.pump = some j) := by simpa using hiff
    obtain ⟨hσ, hpump⟩ := h.pump j s hold
    have hgoes : w.stopsPump m = false := Bool.eq_false_iff.2 fun hs => hstops ⟨hs, hpump⟩
    exact ⟨(if_neg (Bool.eq_false_iff.1 hgoes)).trans hσ, (pump_of_not_stopped hgoes).trans hpump⟩

/-- the pump of the stream that is attached after a move has not been stopped -/
theorem not_stopped_of_attached (halert : w.Alert) (hs : w.attachedAfter σ m = some s) : ¬ (w.move m).Pumps j s true := by
  intro hj
  rcases pumps_of_move hw hstaff hcancel hj with ⟨-, -, -, hb⟩ | ⟨b, hold, hiff⟩
  · cases hb
  · rcases attachedAfter_cases hs with ⟨rfl, rfl⟩ | ⟨hgoes, hσ⟩
    · exact lt_irrefl _ (halert.made j _ _ hold.phase? rfl)
    · rcases hiff.1 rfl with rfl | ⟨hstops, -⟩
      · exact (h.kept s hσ).2 j hold
      · cases hgoes.symm.trans hstops

/-- a pump that has been stopped can go on, to end -/
theorem runnable_of_stopped (hj : (w.move m).Pumps j s true) : (w.move m).runnable j = true := by
  rcases pumps_of_move hw hstaff hcancel hj with ⟨-, -, -, hb⟩ | ⟨b, hold, hiff⟩
  · cases hb
  · cases b with
    | true =>
      refine runnable_move hw (Bool.eq_false_iff.2 fun hserves => ?_) (h.stopped j s hold)
      -- when it gets the floor, it is gone
      obtain ⟨-, t, hs, hc⟩ := served_of_phase hw hserves hj.phase?
      cases (served?_eq_some hs).2.symm.trans hold
      cases hc
    | false =>
      obtain ⟨hstops, hpump⟩ := (hiff.1 rfl).resolve_left Bool.false_ne_true
      exact (stopped_of_move hw hpump hold hstops hj).2

omit hcancel in
/-- a stream that has no pump after a move has ended, in the move or before -/
theorem ended_of_move (hbounded : w.Bounded) (hs : s < (w.move m).nextStream) (hno : ∀ j b, ¬ (w.move m).Pumps j s b) :
    (w.move m).takes s = false ∧ (w.move m).unhandled s = [] := by
  by_cases hold : ∃ j b, w.Pumps j s b
  · obtain ⟨j, b, hj⟩ := hold
    exact ends_refusing hw hj (hno j)
  · have hno₀ : ∀ j b, ¬ w.Pumps j s b := fun j b hj => hold ⟨j, b, hj⟩
    by_cases hlt : s < w.nextStream
    · exact ended_move hbounded hlt hno₀ hstaff (h.ended s hlt hno₀)
    · -- it is new, and has its pump
      have hattach : m = .attachStream := by
        by_contra hne
        exact hlt (hs.trans_eq (nextStream_of_ne w hne))
      subst hattach
      rw [nextStream_attachStream] at hs
      cases (Nat.lt_succ_iff.1 hs).antisymm (not_lt.1 hlt)
      obtain ⟨b, hb⟩ := pumps_attachStream w
      exact absurd hb (hno _ b)

/-- **Of all pumps, only that of the attached stream goes on**, in every move. -/
theorem manned_move (halert : w.Alert) (hbounded : w.Bounded) : (w.move m).Manned (w.attachedAfter σ m) where
  pump _ _ hj := pump_going hw hstaff hcancel h hj
  kept s hs := by
    refine ⟨?_, fun j => not_stopped_of_attached hw hstaff hcancel h halert hs⟩
    rcases attachedAfter_cases hs with ⟨rfl, rfl⟩ | ⟨-, hσ⟩
    · rw [nextStream_attachStream]
      exact Nat.lt_succ_self _
    · exact (h.kept s hσ).1.trans_le (le_nextStream w m)
  ended _ hs hno := ended_of_move hw hstaff h hbounded hs hno
  stopped _ _ hj := runnable_of_stopped hw hstaff hcancel h hj

end Move

/-! ## Requests -/

/-- the reconciliations that the pump of a stream requests in a move -/
def World.pumped (w : World) (s : StreamId) (m : Move) : List (TaskId × Path) :=
  match w.carried? m with
  | some (_, .pumping y) => if y = s then w.requested m else []
  | _ => []

theorem pumped_of_carried (hcarry : w.carried? m = some (id, .pumping s)) : w.pumped s m = w.requested m := by
  simp only [World.pumped, hcarry, if_true]

/-- what the pump of a stream requests, it does in a section of its own -/
theorem pumped_of_not_carried (h : ∀ j, w.carried? m ≠ some (j, .pumping s)) : w.pumped s m = [] := by
  unfold World.pumped
  split
  · next j y hcarry =>
    refine if_neg ?_
    rintro rfl
    exact h j hcarry
  · rfl

/-- all that is requested in such a section is for an event of the stream -/
theorem pumped_eq_or (w : World) (s : StreamId) (m : Move) : w.pumped s m = w.requested m ∨ w.pumped s m = [] := by
  by_cases hcarry : ∃ j, w.carried? m = some (j, .pumping s)
  · obtain ⟨j, hcarry⟩ := hcarry
    exact Or.inl (pumped_of_carried hcarry)
  · exact Or.inr (pumped_of_not_carried fun j hj => hcarry ⟨j, hj⟩)

theorem mem_requested_of_pumped {y : TaskId × Path} (h : y ∈ w.pumped s m) : y ∈ w.requested m := by
  rcases pumped_eq_or w s m with heq | heq <;> rw [heq] at h
  · exact h
  · cases h

theorem pairwise_pumped (w : World) (s : StreamId) (m : Move) : (w.pumped s m).Pairwise fun y z => y.1 < z.1 := by
  rcases pumped_eq_or w s m with heq | heq <;> rw [heq]
  · exact pairwise_requested w m
  · exact .nil

/-- the move that replaces a stream, or shuts the engine down, requests nothing for an event -/
theorem pumped_of_replaced (hs : w.attachedAfter σ m ≠ σ) : w.pumped s m = [] := by
  refine pumped_of_not_carried fun j hcarry => hs (if_neg ?_)
  rw [stopsPump_of_carried hcarry]
  exact Bool.false_ne_true

theorem pumps_of_carried (hstaff : w.Staffed) (hcarry : w.carried? m = some (j, .pumping s)) : w.Pumps j s false := by
  obtain ⟨t, rfl, hs, hc, ha⟩ := carried?_eq_some.1 hcarry
  exact hc ▸ pumps_of_served hstaff hs ha

/-- **A stream that is not attached leads to no request.** -/
theorem pumped_of_unattached (hstaff : w.Staffed) (h : w.Manned σ) (hs : σ ≠ some s) : w.pumped s m = [] :=
  pumped_of_not_carried fun j hcarry => hs (h.pump j s (pumps_of_carried hstaff hcarry)).1

/-- **As long as the pool takes work, the first of the unhandled events becomes a request when it is taken from the stream**, and the
events that the stream takes come last. -/
theorem unhandled_move (hw : Wf w) (hstaff : w.Staffed) (hbounded : w.Bounded) (h : w.Manned (some s))
    (hopen : w.pool.closed = false) : (w.pumped s m).map Prod.snd ++ ((w.move m).unhandled s).map Event.path =
      (w.unhandled s).map Event.path ++ (w.accepts s m).map Event.path := by
  by_cases hturn : ∃ i, m = .turn i
  · obtain ⟨i, rfl⟩ := hturn
    rw [show w.accepts s (.turn i) = [] from rfl, List.map_nil, List.append_nil]
    by_cases hpump : ∃ t, w.served? i = some t ∧ t.phase.activity = .pumping s
    · obtain ⟨t, hs, ha⟩ := hpump
      have hcarry : w.carried? (.turn i) = some (i, .pumping s) := by
        cases hc : t.cancelled with
        | true => exact absurd (hc ▸ pumps_of_served hstaff hs ha) ((h.kept s rfl).2 i)
        | false => exact (carried?_of_served hs hc).trans (by rw [ha])
      rw [pumped_of_carried hcarry]
      cases reads_of_carried hw hcarry with
      | handles ev hev hreq =>
        rw [hreq, hopen, if_neg Bool.false_ne_true, hev]
        rfl
      | waits hsame hreq =>
        rw [hreq, hsame]
        rfl
      | ends hnil hnil' _ hreq =>
        rw [hreq, hnil, hnil']
        rfl
    · have hno : ∀ t, w.served? i = some t → t.phase.activity ≠ .pumping s := fun t hs ha => hpump ⟨t, hs, ha⟩
      rw [pumped_of_not_carried, World.move, unhandled_congr (stream_of_turn hno)]
      · rfl
      · intro j hcarry
        obtain ⟨t, hmove, hs, -, ha⟩ := carried?_eq_some.1 hcarry
        cases hmove
        exact hno t hs ha
  · have hm : ∀ i, m ≠ .turn i := fun i hi => hturn ⟨i, hi⟩
    rw [pumped_of_not_carried, unhandled_outside hbounded hm, List.map_append]
    · rfl
    · intro j hcarry
      obtain ⟨t, rfl, -⟩ := carried?_eq_some.1 hcarry
      exact hm j rfl

/-! ## Background work is not cancelled -/

/-- no task of the background has been cancelled -/
def World.Spared (w : World) : Prop :=
  ∀ j t, w.tasks.live.get? j = some t → t.phase.role = .background → t.cancelled = false

theorem spared_move (hw : Wf w) (hstaff : w.Staffed) (hcancel : w.CancelsCall m) (h : w.Spared) : (w.move m).Spared := by
  intro j t' ht' hrole
  have hph' : (w.move m).tasks.phase? j = some t'.phase := congrArg (Option.map Task.phase) ht'
  have hold : ∀ {ph}, w.tasks.phase? j = some ph → ph.role = .background := fun hph =>
    (role_of_move hw hph hph').symm.trans hrole
  have hservice : j < w.tasks.next → (∀ ph, w.tasks.phase? j = some ph → ph.role = .service) → False := fun hj hservice => by
    obtain ⟨ph, hph⟩ := exists_phase?_of_old hw hj hph'
    cases (hold hph).symm.trans (hservice ph hph)
  rw [Bool.eq_false_iff]
  intro hc
  rcases cancelled_of_move ht' hc with ⟨t, ht, hct⟩ | rfl | hlisten | ⟨-, hpump⟩
  · cases (h j t ht (hold (congrArg (Option.map Task.phase) ht))).symm.trans hct
  · have hph : w.tasks.phase? j = some t'.phase := (Tasks.phase?_cancel w.tasks j j).symm.trans hph'
    cases (hold hph).symm.trans (hcancel j _ rfl hph)
  · obtain ⟨hj, hlistening⟩ := hstaff.listener j hlisten
    refine hservice hj fun ph hph => ?_
    obtain ⟨q, x, rfl⟩ := hlistening ph hph
    rfl
  · exact hservice (hstaff.pump j hpump).1 (hstaff.pump j hpump).2

/-! ## Along a run -/

namespace World

section Run

variable (w : World) (moves : Nat → Move)

/-- the stream that is attached after the first moves -/
def attached : Nat → Option StreamId
  | 0 => none
  | n + 1 => (w.trace moves n).attachedAfter (attached n) (moves n)

/-- the events that a stream has taken in the first moves, in the order of arrival -/
def accepted (s : StreamId) : Nat → List Event
  | 0 => []
  | n + 1 => accepted s n ++ (w.trace moves n).accepts s (moves n)

/-- the reconciliations that the first moves have requested for events of a stream: the tasks, with the paths -/
def drivenBy (s : StreamId) : Nat → List (TaskId × Path)
  | 0 => []
  | n + 1 => drivenBy s n ++ (w.trace moves n).pumped s (moves n)

end Run

end World

/-- **Only the attached stream of events drives the engine.** -/
structure Driven (w : World) (moves : Nat → Move) : Prop where
  /-- a reconciliation in the background is requested from outside, by a write that has failed, or for an event of the attached
  stream -/
  only : ∀ n i p, (i, p) ∈ (w.trace moves n).requested (moves n) → moves n = .notifyChange p ∨
    (∃ j y, (w.trace moves n).carried? (moves n) = some (j, .saving y) ∧ y.job.path = p) ∨
      ∃ s, w.attached moves n = some s ∧ (i, p) ∈ (w.trace moves n).pumped s (moves n)
  /-- unless the engine has been shut down, each event that the attached stream has taken has led to one request for its path, or is
  still there, in the order of arrival -/
  ordered : ∀ n s, w.attached moves n = some s → (w.trace moves n).isShutDown = false →
    (w.drivenBy moves s n).map Prod.snd ++ ((w.trace moves n).unhandled s).map Event.path =
      (w.accepted moves s n).map Event.path
  /-- where nobody can go on, each has led to one -/
  settled : ∀ n s, w.attached moves n = some s → (w.trace moves n).isShutDown = false → (w.trace moves n).tasks.quiet = true →
    (w.drivenBy moves s n).map Prod.snd = (w.accepted moves s n).map Event.path
  /-- each request is a task of its own, and by then it has begun to reconcile the path -/
  apart : ∀ n s, (w.drivenBy moves s n).Pairwise fun y z => y.1 < z.1
  begun : ∀ n l s i p, n ≤ l → (i, p) ∈ w.drivenBy moves s n → (w.trace moves l).tasks.quiet = true →
    ∃ k < l, (w.trace moves k).carried? (moves k) = some (i, .starting (.reconcile p))
  /-- when a stream is replaced, or the engine is shut down, no event of it leads to a request any more -/
  ignored : ∀ k n s, w.attached moves k = some s → w.attached moves (k + 1) ≠ some s → k ≤ n →
    w.drivenBy moves s n = w.drivenBy moves s k
  /-- and once nobody can go on, it takes no more -/
  refused : ∀ k n s ev, w.attached moves k = some s → w.attached moves (k + 1) ≠ some s → k < n →
    (w.trace moves n).tasks.quiet = true → ((w.trace moves n).sendEvent s ev).1 = false

section Trace

variable {policy : WritePolicy} {moves : Nat → Move} {n l : Nat}

/-- the pool takes work unless the engine has been shut down -/
theorem open_of_running (policy : WritePolicy) (moves : Nat → Move) (n : Nat)
    (h : ((World.start policy).trace moves n).isShutDown = false) : ((World.start policy).trace moves n).pool.closed = false := by
  induction n with
  | zero => rfl
  | succ n ih =>
    rw [World.trace] at h ⊢
    rcases section_or_not ((World.start policy).trace moves n) (moves n) with ⟨id, t, hm, hs, hc⟩ | hno
    · rw [hm, World.move] at h ⊢
      by_cases ha : t.phase.activity = .starting .shutDown
      · cases (isShutDown_serve hs hc ha).symm.trans h
      · obtain ⟨hdown, hclosed⟩ := going_serve hs hc ha
        exact hclosed.trans (ih (hdown.symm.trans h))
    · have hunmoved := unmoved_of_no_section hno
      exact hunmoved.closed.trans (ih (hunmoved.isShutDown.symm.trans h))

/-- every stream that has taken an event has been attached -/
theorem accepted_of_new (policy : WritePolicy) (moves : Nat → Move) (n : Nat)
    (hs : ((World.start policy).trace moves n).nextStream ≤ s) :
    (World.start policy).accepted moves s n = [] ∧ (World.start policy).drivenBy moves s n = [] := by
  induction n with
  | zero => exact ⟨rfl, rfl⟩
  | succ n ih =>
    have hold := (le_nextStream ((World.start policy).trace moves n) (moves n)).trans hs
    have hstaff := staffed_trace policy moves n
    obtain ⟨haccepted, hdriven⟩ := ih hold
    rw [World.accepted, World.drivenBy, haccepted, hdriven]
    constructor
    · exact accepts_of_refused fun _ _ => (bounded_trace policy moves n).takes hold
    · refine pumped_of_not_carried fun j hcarry => ?_
      have hmade := (alert_trace policy moves n).made j _ s (pumps_of_carried hstaff hcarry).phase? rfl
      exact absurd hold (not_le.2 hmade)

variable (h : CancelsCalls (World.start policy) moves)
include h

theorem manned_trace (n : Nat) : ((World.start policy).trace moves n).Manned ((World.start policy).attached moves n) := by
  induction n with
  | zero => exact manned_start policy
  | succ n ih =>
    exact manned_move (reachable_trace policy moves n).wf (staffed_trace policy moves n) (h n) ih (alert_trace policy moves n)
      (bounded_trace policy moves n)

theorem spared_trace (n : Nat) : ((World.start policy).trace moves n).Spared := by
  induction n with
  | zero =>
    intro j t ht
    cases ht
  | succ n ih => exact spared_move (reachable_trace policy moves n).wf (staffed_trace policy moves n) (h n) ih

/-- **Each event that the attached stream has taken has led to a request, or is still to be handled, in order.** -/
theorem handled_trace (n : Nat) (s : StreamId) (hs : (World.start policy).attached moves n = some s)
    (hrun : ((World.start policy).trace moves n).isShutDown = false) :
    ((World.start policy).drivenBy moves s n).map Prod.snd ++ (((World.start policy).trace moves n).unhandled s).map Event.path =
      ((World.start policy).accepted moves s n).map Event.path := by
  induction n with
  | zero => cases hs
  | succ n ih =>
    have hw := (reachable_trace policy moves n).wf
    have hbounded := bounded_trace policy moves n
    have hbefore : ((World.start policy).trace moves n).isShutDown = false := by
      rw [Bool.eq_false_iff]
      intro hdown
      cases (isShutDown_move hdown (moves n)).symm.trans hrun
    rw [World.drivenBy, World.accepted, World.trace, List.map_append, List.map_append, List.append_assoc]
    rcases attachedAfter_cases hs with ⟨hm, rfl⟩ | ⟨-, hσ⟩
    · -- a new stream: nothing has happened yet
      obtain ⟨haccepted, hdriven⟩ := accepted_of_new policy moves n le_rfl
      have houtside : ∀ i, Move.attachStream ≠ .turn i := fun i h => by cases h
      rw [haccepted, hdriven, hm, unhandled_outside hbounded houtside, hbounded.unhandled le_rfl]
      rfl
    · rw [unhandled_move hw (staffed_trace policy moves n) hbounded (hσ ▸ manned_trace h n)
        (open_of_running policy moves n hbefore), ← List.append_assoc, ih hσ hbefore]

/-- **Where nobody can go on, nothing of the attached stream is left to be handled.** -/
theorem unhandled_of_quiet (hquiet : ((World.start policy).trace moves n).tasks.quiet = true)
    (hs : (World.start policy).attached moves n = some s) : ((World.start policy).trace moves n).unhandled s = [] := by
  have hmanned := manned_trace h n
  obtain ⟨hmade, hgoing⟩ := hmanned.kept s hs
  by_cases hpump : ∃ j, ((World.start policy).trace moves n).Pumps j s false
  · obtain ⟨j, hj⟩ := hpump
    by_contra hleft
    have hrun := (alert_trace policy moves n).message j _ s hj.phase? rfl fun hidle => hleft hidle.buffer
    cases (runnable_of_quiet hquiet j).symm.trans hrun
  · refine (hmanned.ended s hmade fun j b hj => ?_).2
    cases b with
    | true => exact hgoing j hj
    | false => exact hpump ⟨j, hj⟩

/-- **There, a stream that is not attached takes nothing.** -/
theorem takes_of_quiet (hquiet : ((World.start policy).trace moves n).tasks.quiet = true)
    (hs : (World.start policy).attached moves n ≠ some s) : ((World.start policy).trace moves n).takes s = false := by
  have hmanned := manned_trace h n
  by_cases hmade : s < ((World.start policy).trace moves n).nextStream
  · refine (hmanned.ended s hmade fun j b hj => ?_).1
    cases b with
    | true => cases (runnable_of_quiet hquiet j).symm.trans (hmanned.stopped j s hj)
    | false => exact hs (hmanned.pump j s hj).1
  · exact (bounded_trace policy moves n).takes (not_lt.1 hmade)

/-- a stream that has been made and is not attached stays so, and leads to no request -/
theorem drivenBy_of_unattached (hnl : n ≤ l) (hmade : s < ((World.start policy).trace moves n).nextStream)
    (hs : (World.start policy).attached moves n ≠ some s) : (World.start policy).attached moves l ≠ some s ∧
      s < ((World.start policy).trace moves l).nextStream ∧
      (World.start policy).drivenBy moves s l = (World.start policy).drivenBy moves s n := by
  induction l, hnl using Nat.le_induction with
  | base => exact ⟨hs, hmade, rfl⟩
  | succ l _ ih =>
    obtain ⟨hs, hmade, hsame⟩ := ih
    refine ⟨fun hnew => ?_, hmade.trans_le (le_nextStream _ _), ?_⟩
    · rcases attachedAfter_cases hnew with ⟨-, rfl⟩ | ⟨-, hσ⟩
      · exact lt_irrefl _ hmade
      · exact hs hσ
    · rw [World.drivenBy, pumped_of_unattached (staffed_trace policy moves l) (manned_trace h l) hs, List.append_nil, hsame]

/-- a task of the background begins, in a section of its own -/
theorem begins_trace {r : Request} (hnl : n ≤ l)
    (hph : ((World.start policy).trace moves n).tasks.phase? i = some ⟨.background, .starting r⟩) :
    ((World.start policy).trace moves l).tasks.phase? i = some ⟨.background, .starting r⟩ ∨
      ∃ k < l, ((World.start policy).trace moves k).carried? (moves k) = some (i, .starting r) := by
  induction l, hnl using Nat.le_induction with
  | base => exact Or.inl hph
  | succ l _ ih =>
    rcases ih with hph | ⟨k, hk, hcarry⟩
    · cases fate_move (reachable_trace policy moves l).wf hph (moves l) with
      | stays hsame => exact Or.inl hsame
      | goesOn _ hcarry => exact Or.inr ⟨l, Nat.lt_succ_self l, hcarry⟩
      | ends _ hcarry => exact Or.inr ⟨l, Nat.lt_succ_self l, hcarry⟩
      | dropped t _ hs hc =>
        have hrole : t.phase.role = .background := by
          rw [← Option.some.inj (hph.symm.trans (phase?_of_served hs))]
        cases (spared_trace h l i t (served?_eq_some hs).2 hrole).symm.trans hc
    · exact Or.inr ⟨k, hk.trans (Nat.lt_succ_self l), hcarry⟩

omit h in
/-- what has been requested for events of a stream is a task of the background that has not begun -/
theorem exists_of_drivenBy {i : TaskId} (hi : (i, p) ∈ (World.start policy).drivenBy moves s n) : ∃ k < n,
    i < ((World.start policy).trace moves n).tasks.next ∧
    ((World.start policy).trace moves (k + 1)).tasks.phase? i = some ⟨.background, .starting (.reconcile p)⟩ := by
  induction n with
  | zero => cases hi
  | succ n ih =>
    have hw := (reachable_trace policy moves n).wf
    rcases List.mem_append.1 hi with hold | hnew
    · obtain ⟨k, hk, hlt, hph⟩ := ih hold
      exact ⟨k, hk.trans (Nat.lt_succ_self n), hlt.trans_le (grows_move hw (moves n)).1, hph⟩
    · obtain ⟨-, hph⟩ := (mem_requested hw).1 (mem_requested_of_pumped hnew)
      exact ⟨n, Nat.lt_succ_self n, (reachable_trace policy moves (n + 1)).wf.numbered.lt hph, hph⟩

omit h in
theorem pairwise_drivenBy (n : Nat) : ((World.start policy).drivenBy moves s n).Pairwise fun y z => y.1 < z.1 := by
  induction n with
  | zero => exact .nil
  | succ n ih =>
    have hw := (reachable_trace policy moves n).wf
    refine List.pairwise_append.2 ⟨ih, pairwise_pumped _ s _, fun y hy z hz => ?_⟩
    obtain ⟨-, -, hlt, -⟩ := exists_of_drivenBy hy
    exact hlt.trans_le ((mem_requested hw).1 (mem_requested_of_pumped hz)).1

/-- **In every run in which only calls are cancelled from outside, only the attached stream drives the engine.** -/
theorem driven_trace : Driven (World.start policy) moves := by
  have hmade : ∀ k s, (World.start policy).attached moves k = some s → s < ((World.start policy).trace moves (k + 1)).nextStream :=
    fun k s hs => ((manned_trace h k).kept s hs).1.trans_le (le_nextStream _ _)
  constructor
  · intro n i p hi
    rcases requested_cases (reachable_trace policy moves n).wf hi with hm | hsave | ⟨j, s, hcarry⟩
    · exact Or.inl hm
    · exact Or.inr (Or.inl hsave)
    · refine Or.inr (Or.inr ⟨s, ?_, (pumped_of_carried hcarry).symm ▸ hi⟩)
      exact ((manned_trace h n).pump j s (pumps_of_carried (staffed_trace policy moves n) hcarry)).1
  · exact handled_trace h
  · intro n s hs hrun hquiet
    have hhandled := handled_trace h n s hs hrun
    rwa [unhandled_of_quiet h hquiet hs, List.map_nil, List.append_nil] at hhandled
  · exact fun n s => pairwise_drivenBy n
  · intro n l s i p hnl hi hquiet
    obtain ⟨k, hk, -, hph⟩ := exists_of_drivenBy hi
    rcases begins_trace h ((Nat.succ_le_of_lt hk).trans hnl) hph with hstays | hbegun
    · have hrun := runnable_of_starting (reachable_trace policy moves l).wf hstays rfl
      cases (runnable_of_quiet hquiet i).symm.trans hrun
    · exact hbegun
  · intro k n s hs hnext hkn
    rcases hkn.eq_or_lt with rfl | hlt
    · rfl
    · obtain ⟨-, -, hsame⟩ := drivenBy_of_unattached h (Nat.succ_le_of_lt hlt) (hmade k s hs) hnext
      rw [hsame, World.drivenBy, pumped_of_replaced fun he => hnext (he.trans hs), List.append_nil]
  · intro k n s ev hs hnext hkn hquiet
    rw [fst_sendEvent]
    exact takes_of_quiet h hquiet (drivenBy_of_unattached h (Nat.succ_le_of_lt hkn) (hmade k s hs) hnext).1

end Trace

/-- Two events of a stream are handled, and it is replaced with a third one unhandled, but takes a fourth before its pump is gone. The
new stream is closed with an event unhandled. -/
def replacing : List Move :=
  [.attachStream, .sendEvent 1 ⟨⟨"/a"⟩, .modified⟩, .sendEvent 1 ⟨⟨"/b"⟩, .created⟩, .turn 1, .turn 1, .turn 1, .turn 2, .turn 3,
    .sendEvent 1 ⟨⟨"/c"⟩, .deleted⟩, .attachStream, .sendEvent 1 ⟨⟨"/d"⟩, .modified⟩, .sendEvent 2 ⟨⟨"/e"⟩, .modified⟩,
    .closeStream 2, .turn 1, .turn 4, .turn 4, .turn 5]

theorem driven_trace_replacing : CancelsCalls (World.start .allow) (along replacing) ∧
    Driven (World.start .allow) (along replacing) ∧
    ((World.start .allow).trace (along replacing) 17).tasks.quiet = true ∧
    ((World.start .allow).trace (along replacing) 17).isShutDown = false ∧
    (World.start .allow).attached (along replacing) 9 = some 1 ∧ (World.start .allow).attached (along replacing) 17 = some 2 ∧
    (World.start .allow).drivenBy (along replacing) 1 9 = [(2, ⟨"/a"⟩), (3, ⟨"/b"⟩)] ∧
    (World.start .allow).drivenBy (along replacing) 1 17 = [(2, ⟨"/a"⟩), (3, ⟨"/b"⟩)] ∧
    ((World.start .allow).accepted (along replacing) 1 17).map Event.path = [⟨"/a"⟩, ⟨"/b"⟩, ⟨"/c"⟩, ⟨"/d"⟩] ∧
    (World.start .allow).drivenBy (along replacing) 2 17 = [(5, ⟨"/e"⟩)] ∧
    (((World.start .allow).trace (along replacing) 17).sendEvent 1 ⟨⟨"/f"⟩, .modified⟩).1 = false := by
  have h : CancelsCalls (World.start .allow) (along replacing) := fun n i ph hm =>
    absurd hm (along_ne replacing (by simp [replacing]) (by simp) n)
  refine ⟨h, driven_trace h, ?_⟩
  decide +kernel

end LiveFiles.Engine
