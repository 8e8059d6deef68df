/-
Whoever cannot go on is held up. A task that neither stands in the queue nor has the floor waits for something that has not happened
(`HeldUp`): given the floor, it would only go on waiting (`HeldUp.step`).
- `alert_move`: whoever waits at a gate that is open, or at a stream with an event, can go on.
- **`heldUp_trace`**: so it is in every run without shutting down.
-/
import LiveFiles.Proofs.Outlook

namespace LiveFiles.Engine

variable {w w' : World} {m : Move} {a b : Activity} {id i j : TaskId} {t : Task Phase} {ph ph' : Phase} {g : GateId} {s : StreamId}

/-! ## What holds a task up -/

/-- there is nothing in the channel, but something may come -/
structure Channel.Idle {α : Type} (c : Channel α) : Prop where
  buffer : c.buffer = []
  isOpen : c.isOpen = true
  sender : c.sender = true

/-- What the task waits for has not happened. -/
structure HeldUp (w : World) (a : Activity) : Prop where
  waits : Waits w a.awaits a.stake.errand.turn?
  gate : ∀ g, a.awaits = .gate g → w.disk.isOpen g = false
  quiet : a.awaits = .quiet → w.pool.active ≠ 0
  message : ∀ s, a.awaits = .message s → Channel.Idle (w.streams.getD s {})
  farewell : ∀ x, a.awaits = .farewell x → w.hasLeft x = false

theorem HeldUp.atGate {α : Type} {k : Call → Activity} (h : HeldUp w a) (ha : a.awaits = .gate g) :
    w.atGate (α := α) g k = (w, .wait (k (.held g))) := by
  rw [World.atGate, h.gate g ha, if_neg Bool.false_ne_true]

theorem HeldUp.stepRefresh {r : Refresh} (h : HeldUp w a) (hr : a.awaits = r.awaits) (hturn : a.stake.errand.turn? = r.errand.turn?) :
    w.stepRefresh r = (w, .wait r) := by
  have hwaits := h.waits
  rw [hr, hturn] at hwaits
  have hgate : ∀ {g}, r.awaits = .gate g → w.disk.isOpen g = false := fun hg => h.gate _ (hr.trans hg)
  cases r with
  | queued p q τ => rw [World.stepRefresh, hwaits.turn τ rfl rfl, if_neg Bool.false_ne_true]
  | looking l c =>
    cases c with
    | held g => rw [World.stepRefresh, World.atGate, hgate rfl, if_neg Bool.false_ne_true]
    | due => exact absurd rfl hwaits.something
  | reading l date c =>
    cases c with
    | held g => rw [World.stepRefresh, World.atGate, hgate rfl, if_neg Bool.false_ne_true]
    | due => exact absurd rfl hwaits.something
  | lookingAgain l f c =>
    cases c with
    | held g => rw [World.stepRefresh, World.atGate, hgate rfl, if_neg Bool.false_ne_true]
    | due => exact absurd rfl hwaits.something

theorem HeldUp.stepSave {x : Save} (h : HeldUp w (.saving x)) : w.stepSave x = (w, .wait x) := by
  cases x with
  | queued job => rw [World.stepSave, h.waits.turn job.turn rfl rfl, if_neg Bool.false_ne_true]
  | writing job c =>
    cases c with
    | held g => rw [World.stepSave, World.atGate, h.gate g rfl, if_neg Bool.false_ne_true]
    | due => exact absurd rfl h.waits.something
  | looking job c =>
    cases c with
    | held g => rw [World.stepSave, World.atGate, h.gate g rfl, if_neg Bool.false_ne_true]
    | due => exact absurd rfl h.waits.something

/-- **A task that is held up goes on waiting.** -/
theorem HeldUp.step (h : HeldUp w a) : w.step a = (w, .wait a) := by
  cases a with
  | starting r => exact absurd rfl h.waits.something
  | refreshing r => rw [World.step, h.stepRefresh rfl rfl, ofPart]
  | saving x => rw [World.step, h.stepSave, ofPart]
  | joining p x joined other =>
    cases other with
    | none => exact absurd rfl h.waits.something
    | some y => simp [World.step, World.stepJoining, h.waits.signal y rfl]
  | synchronizing seat r => rw [World.step, World.stepSynchronizing, h.stepRefresh rfl rfl]
  | settling seat x =>
    cases x with
    | none => exact absurd rfl h.waits.something
    | some y => simp [World.step, World.stepSettling, h.waits.signal y rfl]
  | tearingDown p turn l =>
    cases turn with
    | none => exact absurd rfl h.waits.something
    | some τ => exact step_of_queued w rfl (h.waits.turn τ rfl rfl)
  | awaitingQuiet => rw [World.step, World.stepAwaitingQuiet, if_neg (h.quiet rfl)]
  | closing paths => rw [World.step, World.stepClosing, if_neg (h.quiet rfl)]
  | draining p turn rest =>
    cases turn with
    | none => exact absurd rfl h.waits.something
    | some τ => exact step_of_queued w rfl (h.waits.turn τ rfl rfl)
  | diskStat p c =>
    cases c with
    | held g => exact h.atGate rfl
    | due => exact absurd rfl h.waits.something
  | diskRead p c =>
    cases c with
    | held g => exact h.atGate rfl
    | due => exact absurd rfl h.waits.something
  | diskWrite p bytes c =>
    cases c with
    | held g => exact h.atGate rfl
    | due => exact absurd rfl h.waits.something
  | listening p x =>
    have hstays : ((w.channels.get? x).any fun c => !c.isOpen) = false := h.farewell x rfl
    rw [World.step, World.stepListening, hstays, if_neg Bool.false_ne_true]
  | pumping s =>
    have hidle := h.message s rfl
    have hread : (w.streams.getD s {}).read = (.nothing, w.streams.getD s {}) := by
      generalize w.streams.getD s {} = c at hidle
      obtain ⟨buffer, o, r, y⟩ := c
      obtain ⟨rfl, rfl, rfl⟩ := hidle
      rfl
    rw [World.step, World.stepPumping, hread]

theorem awaits_call_ne (c : Call) : (∀ s, Call.awaits c ≠ .message s) ∧ ∀ x, Call.awaits c ≠ .farewell x := by
  cases c <;> exact ⟨nofun, nofun⟩

/-- only the pump waits for events -/
theorem pumping_of_awaits (h : a.awaits = .message s) : a = .pumping s := by
  have hsignal : ∀ o, awaitSignal o ≠ .message s := fun o => by cases o <;> nofun
  have hturn : ∀ o, awaitTurn o ≠ .message s := fun o => by cases o <;> nofun
  have hrefresh : ∀ r : Refresh, r.awaits ≠ .message s := fun r => by
    cases r <;> first | exact (awaits_call_ne _).1 s | nofun
  cases a with
  | pumping y =>
    cases h
    rfl
  | starting | awaitingQuiet | closing | listening => cases h
  | refreshing r => exact absurd h (hrefresh r)
  | synchronizing seat r => exact absurd h (hrefresh r)
  | saving x => cases x <;> first | exact absurd h ((awaits_call_ne _).1 s) | cases h
  | joining p x joined o => exact absurd h (hsignal o)
  | settling seat o => exact absurd h (hsignal o)
  | tearingDown p o l => exact absurd h (hturn o)
  | draining p o rest => exact absurd h (hturn o)
  | diskStat p c => exact absurd h ((awaits_call_ne c).1 s)
  | diskRead p c => exact absurd h ((awaits_call_ne c).1 s)
  | diskWrite p bytes c => exact absurd h ((awaits_call_ne c).1 s)

/-- only those who listen for it wait for somebody's leaving -/
theorem listening_of_awaits {x : SubscriberId} (h : a.awaits = .farewell x) : ∃ p, a = .listening p x := by
  have hsignal : ∀ o, awaitSignal o ≠ .farewell x := fun o => by cases o <;> nofun
  have hturn : ∀ o, awaitTurn o ≠ .farewell x := fun o => by cases o <;> nofun
  have hrefresh : ∀ r : Refresh, r.awaits ≠ .farewell x := fun r => by
    cases r <;> first | exact (awaits_call_ne _).2 x | nofun
  cases a with
  | listening p y =>
    cases h
    exact ⟨p, rfl⟩
  | starting | awaitingQuiet | closing | pumping => cases h
  | refreshing r => exact absurd h (hrefresh r)
  | synchronizing seat r => exact absurd h (hrefresh r)
  | saving y => cases y <;> first | exact absurd h ((awaits_call_ne _).2 x) | cases h
  | joining p y joined o => exact absurd h (hsignal o)
  | settling seat o => exact absurd h (hsignal o)
  | tearingDown p o l => exact absurd h (hturn o)
  | draining p o rest => exact absurd h (hturn o)
  | diskStat p c => exact absurd h ((awaits_call_ne c).2 x)
  | diskRead p c => exact absurd h ((awaits_call_ne c).2 x)
  | diskWrite p bytes c => exact absurd h ((awaits_call_ne c).2 x)

/-! ## Who is woken -/

/-- Whoever waits at an open gate, or at a stream where there is something to read, can go on. No stream has two readers. -/
structure World.Alert (w : World) : Prop where
  gate : ∀ j ph g, w.tasks.phase? j = some ph → ph.activity.awaits = .gate g → w.disk.isOpen g = true → w.runnable j = true
  message : ∀ j ph s, w.tasks.phase? j = some ph → ph.activity = .pumping s → ¬Channel.Idle (w.streams.getD s {}) → w.runnable j = true
  made : ∀ j ph s, w.tasks.phase? j = some ph → ph.activity = .pumping s → s < w.nextStream
  alone : ∀ i j ph ph' s, w.tasks.phase? i = some ph → w.tasks.phase? j = some ph' → ph.activity = .pumping s →
    ph'.activity = .pumping s → i = j

/-- a stream that is attached gets a task that reads it -/
theorem phase?_attachStream (w : World) (j : TaskId) : (w.move .attachStream).tasks.phase? j =
    if w.tasks.next = j then some ⟨.service, .pumping w.nextStream⟩ else w.tasks.phase? j := by
  have hmove : (w.move .attachStream).tasks.phase? j = (w.spawn .service (.pumping w.nextStream)).2.tasks.phase? j := by
    unfold World.move World.attachStream
    cases w.pump with
    | none => rfl
    | some i => exact Tasks.phase?_cancel _ i j
  exact hmove.trans (Tasks.phase?_spawn _ _ _)

/-- whoever reads a stream has read it before, or the stream is new -/
theorem pumping_cases (hw : Wf w) (hph : (w.move m).tasks.phase? j = some ph) (ha : ph.activity = .pumping s) :
    (∃ ph₀, w.tasks.phase? j = some ph₀ ∧ ph₀.activity = .pumping s) ∨ m = .attachStream ∧ j = w.tasks.next ∧ s = w.nextStream := by
  rcases phase?_cases hw hph with hold | ⟨hnone, hnew⟩ | ⟨b, hcarry, hb⟩
  · exact Or.inl ⟨ph, hold, ha⟩
  · cases m with
    | turn i =>
      obtain ⟨u, -, hstarts⟩ := hnew
      split at hstarts
      · obtain ⟨seat, -, hleaves⟩ := hstarts
        cases (congrArg Phase.activity hleaves).symm.trans ha
      · rcases hstarts with ⟨y, -, hp⟩ | ⟨q', y, -, hp⟩ | ⟨y, q', -, hp⟩ | ⟨seat, signal, -, hp⟩ <;>
          cases (congrArg Phase.activity hp).symm.trans ha
    | call r =>
      obtain ⟨-, hp⟩ := hnew
      cases (congrArg Phase.activity hp).symm.trans ha
    | notifyChange p =>
      have hp : ph = ⟨.background, .starting (.reconcile p)⟩ := hnew
      cases (congrArg Phase.activity hp).symm.trans ha
    | attachStream =>
      rw [phase?_attachStream] at hph
      split at hph
      · next hj =>
        cases hph
        cases ha
        exact Or.inr ⟨rfl, hj.symm, rfl⟩
      · cases hnone.symm.trans hph
    | _ => cases hnew
  · obtain ⟨u, -, hserved, -, rfl⟩ := carried?_eq_some.1 hcarry
    rw [ha] at hb
    exact Or.inl ⟨u.phase, phase?_of_served hserved, initial_of_next hb rfl⟩

/-! ### Sections -/

/-- a section leaves gates and streams as the step of the task does -/
theorem outlook_section (hs : w.served? i = some t) (hc : t.cancelled = false) :
    (serve w i).outlook = ((floorTo w i).step t.phase.activity).1.outlook := by
  rw [serve_of_section hs hc]
  unfold World.advance
  rcases (floorTo w i).step t.phase.activity with ⟨w', b | b | b | o⟩
  · rfl
  · rfl
  · rfl
  · exact outlook_finish w' i t.phase.role (.returned o)

theorem outlook_served (hs : w.served? i = some t) (hpump : ∀ s, t.phase.activity ≠ .pumping s) :
    (serve w i).outlook = w.outlook := by
  cases hc : t.cancelled with
  | true =>
    rw [serve_of_cancelled hs hc, outlook_finish, outlook_abandon _ hpump]
    exact outlook_floorTo w i
  | false =>
    rw [outlook_section hs hc, (tame_step (floorTo w i) hpump).outlook, outlook_floorTo]

theorem outlook_unserved (hs : w.served? i = none) : (serve w i).outlook = w.outlook := by
  obtain ⟨ready, floor, hserve⟩ := serve_of_nobody hs
  rw [hserve]
  rfl

/-- gates are as they were, and all streams but one -/
structure Outlook.But (s : StreamId) (o o' : Outlook) : Prop where
  isOpen : o'.isOpen = o.isOpen
  nextStream : o'.nextStream = o.nextStream
  streams : ∀ y, s ≠ y → o'.streams.get? y = o.streams.get? y

theorem but_closeReceiver (w : World) (s : StreamId) : w.outlook.But s (w.closeReceiver s).outlook :=
  ⟨rfl, rfl, fun _ hy => (Table.get?_modify _ _ _ _).trans (if_neg hy)⟩

theorem but_stepPumping (w : World) (s : StreamId) : w.outlook.But s (w.stepPumping s).1.outlook := by
  unfold World.stepPumping
  split
  · next ev c _ =>
    dsimp only
    rw [outlook_inBackground]
    exact ⟨rfl, rfl, fun _ hy => (Table.get?_insert _ _ _ _).trans (if_neg hy)⟩
  · exact but_closeReceiver w s
  · exact ⟨rfl, rfl, fun _ _ => rfl⟩

/-- the pump leaves gates alone, and all streams but its own -/
theorem but_served (hs : w.served? i = some t) (ha : t.phase.activity = .pumping s) : w.outlook.But s (serve w i).outlook := by
  cases hc : t.cancelled with
  | true =>
    have hclosed := but_closeReceiver ((floorTo w i).without i) s
    rw [serve_of_cancelled hs hc, ha, outlook_finish]
    rw [show ((floorTo w i).without i).outlook = w.outlook from outlook_floorTo w i] at hclosed
    exact hclosed
  | false =>
    have hstep := but_stepPumping (floorTo w i) s
    rw [outlook_floorTo] at hstep
    rw [outlook_section hs hc, ha]
    exact hstep

/-- **No section opens a gate.** -/
theorem isOpen_serve (w : World) (i : TaskId) : (serve w i).disk.isOpen = w.disk.isOpen := by
  cases hs : w.served? i with
  | none => exact congrArg Outlook.isOpen (outlook_unserved hs)
  | some t =>
    by_cases hpump : ∃ s, t.phase.activity = .pumping s
    · obtain ⟨s, ha⟩ := hpump
      exact (but_served hs ha).isOpen
    · exact congrArg Outlook.isOpen (outlook_served hs fun s ha => hpump ⟨s, ha⟩)

/-- a stream is as it was unless its pump gets the floor -/
theorem stream_of_turn (h : ∀ t, w.served? i = some t → t.phase.activity ≠ .pumping s) :
    (serve w i).streams.get? s = w.streams.get? s := by
  cases hs : w.served? i with
  | none => exact congrArg (fun o : Outlook => o.streams.get? s) (outlook_unserved hs)
  | some t =>
    by_cases hpump : ∃ y, t.phase.activity = .pumping y
    · obtain ⟨y, hy⟩ := hpump
      refine (but_served hs hy).streams s ?_
      rintro rfl
      exact h t hs hy
    · exact congrArg (fun o : Outlook => o.streams.get? s) (outlook_served hs fun y hy => hpump ⟨y, hy⟩)

/-- nobody touches a stream that another task reads -/
theorem stream_serve (h : w.Alert) (hph : w.tasks.phase? j = some ph) (ha : ph.activity = .pumping s) (hij : i ≠ j) :
    (serve w i).streams.get? s = w.streams.get? s :=
  stream_of_turn fun _ hs hy => hij (h.alone i j _ _ s (phase?_of_served hs) hph hy ha)

theorem nextStream_serve (w : World) (i : TaskId) : (serve w i).nextStream = w.nextStream := by
  cases hs : w.served? i with
  | none => exact congrArg Outlook.nextStream (outlook_unserved hs)
  | some t =>
    by_cases hpump : ∃ s, t.phase.activity = .pumping s
    · obtain ⟨s, ha⟩ := hpump
      exact (but_served hs ha).nextStream
    · exact congrArg Outlook.nextStream (outlook_served hs fun s ha => hpump ⟨s, ha⟩)

/-! ### What happens from outside -/

theorem isOpen_outside (hm : ∀ i, m ≠ .turn i) (hg : (w.move m).disk.isOpen g = true) : w.disk.isOpen g = true ∨ m = .openGate g := by
  rw [(outside w hm).disk] at hg
  cases m with
  | hold op p =>
    left
    change ((w.disk.gates.insert w.disk.nextGate {}).getD g {}).isOpen = true at hg
    rw [Table.getD, Table.get?_insert] at hg
    split at hg
    · cases hg
    · exact hg
  | openGate g' =>
    by_cases hgg : g' = g
    · exact Or.inr (congrArg Move.openGate hgg)
    · left
      change ((w.disk.gates.modify g' fun x => { x with isOpen := true }).getD g {}).isOpen = true at hg
      rw [Table.getD, Table.get?_modify, if_neg hgg] at hg
      exact hg
  | _ => exact Or.inl hg

/-- the stream takes events -/
def World.takes (w : World) (s : StreamId) : Bool := (w.streams.get? s).any (·.isOpen)

theorem streams_outside (w : World) (hm : ∀ i, m ≠ .turn i) : (w.move m).streams = match m with
    | .sendEvent y ev => if w.takes y = true then w.streams.insert y ((w.streams.getD y {}).send ev) else w.streams
    | .closeStream y => w.streams.modify y fun c => c.dropSender
    | .attachStream => w.streams.insert w.nextStream {}
    | _ => w.streams := by
  cases m with
  | turn i => exact absurd rfl (hm i)
  | call r =>
    simp only [World.move]
    split <;> rfl
  | drain y =>
    simp only [World.move, World.drain]
    split <;> rfl
  | tryRead y =>
    simp only [World.move, World.tryRead]
    split
    · rfl
    · split <;> rfl
  | notifyChange p => exact congrArg Outlook.streams (outlook_inBackground w (.reconcile p))
  | attachStream =>
    simp only [World.move, World.attachStream]
    cases w.pump <;> rfl
  | sendEvent y ev =>
    cases hc : w.streams.get? y with
    | none => simp only [World.move, World.sendEvent, World.takes, hc, Option.any_none, Bool.false_eq_true, if_false]
    | some c =>
      simp only [World.move, World.sendEvent, World.takes, Table.getD, hc, Option.any_some, Option.getD_some]
      split <;> rfl
  | _ => rfl

theorem takes_iff : w.takes s = true ↔ ∃ c, w.streams.get? s = some c ∧ c.isOpen = true := Option.any_eq_true _ _

/-- What a move from outside has to do with a stream: nothing, or the stream takes an event, or no more will be sent, or it is new. -/
inductive Feeds (w : World) (s : StreamId) : Move → Prop where
  | same {m : Move} (h : (w.move m).streams.get? s = w.streams.get? s) (hrefused : ∀ ev, m = .sendEvent s ev → w.takes s = false) :
      Feeds w s m
  | taken {ev : Event} {c : Channel Event} (hc : w.streams.get? s = some c) (hopen : c.isOpen = true) : Feeds w s (.sendEvent s ev)
  | closed : Feeds w s (.closeStream s)
  | new (hs : s = w.nextStream) : Feeds w s .attachStream

theorem feeds_outside (hm : ∀ i, m ≠ .turn i) (s : StreamId) : Feeds w s m := by
  have hstreams := streams_outside w hm
  cases m with
  | turn i => exact absurd rfl (hm i)
  | attachStream =>
    by_cases hs : w.nextStream = s
    · exact .new hs.symm
    · exact .same (by rw [hstreams]; exact (Table.get?_insert _ _ _ _).trans (if_neg hs)) fun _ h => by cases h
  | sendEvent y ev =>
    dsimp only at hstreams
    by_cases hy : y = s
    · subst hy
      cases htakes : w.takes y with
      | true =>
        obtain ⟨c, hc, hopen⟩ := takes_iff.1 htakes
        exact .taken hc hopen
      | false =>
        rw [htakes, if_neg Bool.false_ne_true] at hstreams
        exact .same (by rw [hstreams]) fun _ _ => htakes
    · refine .same ?_ fun _ h => absurd (Move.sendEvent.inj h).1 hy
      rw [hstreams]
      split
      · exact (Table.get?_insert _ _ _ _).trans (if_neg hy)
      · rfl
  | closeStream y =>
    by_cases hy : y = s
    · subst hy
      exact .closed
    · exact .same ((Table.get?_modify _ _ _ _).trans (if_neg hy)) fun _ h => by cases h
  | _ => exact .same (by rw [hstreams]) fun _ h => by cases h

theorem move_sendEvent {ev : Event} {c : Channel Event} (hc : w.streams.get? s = some c) (hopen : c.isOpen = true) :
    w.move (.sendEvent s ev) = { w with streams := w.streams.insert s (c.send ev) }.wake (.message s) := by
  simp only [World.move, World.sendEvent, hc, if_pos hopen]

theorem stream_sendEvent {ev : Event} {c : Channel Event} (hc : w.streams.get? s = some c) (hopen : c.isOpen = true) :
    (w.move (.sendEvent s ev)).streams.get? s = some (c.send ev) := by
  rw [move_sendEvent hc hopen]
  exact (Table.get?_insert _ _ _ _).trans (if_pos rfl)

theorem stream_closeStream (w : World) (s : StreamId) :
    (w.move (.closeStream s)).streams.get? s = (w.streams.get? s).map fun c => c.dropSender :=
  (Table.get?_modify _ _ _ _).trans (if_pos rfl)

theorem stream_attachStream (w : World) : (w.move .attachStream).streams.get? w.nextStream = some {} := by
  rw [streams_outside w fun _ h => by cases h]
  exact (Table.get?_insert _ _ _ _).trans (if_pos rfl)

theorem nextStream_attachStream (w : World) : (w.move .attachStream).nextStream = w.nextStream + 1 := by
  unfold World.move World.attachStream
  cases w.pump <;> rfl

/-- a stream is made only when it is attached -/
theorem nextStream_of_ne (w : World) (hattach : m ≠ .attachStream) : (w.move m).nextStream = w.nextStream := by
  by_cases hturn : ∃ i, m = .turn i
  · obtain ⟨i, rfl⟩ := hturn
    exact nextStream_serve w i
  · exact ((outside w fun i e => hturn ⟨i, e⟩).stream hattach).1

theorem le_nextStream (w : World) (m : Move) : w.nextStream ≤ (w.move m).nextStream := by
  by_cases hattach : m = .attachStream
  · subst hattach
    rw [nextStream_attachStream]
    exact Nat.le_succ _
  · exact (nextStream_of_ne w hattach).ge

/-! ### Any move -/

/-- after its section a task can go on, unless it waits -/
theorem waits_of_served (hw : Wf w) (hs : w.served? j = some t) (hc : t.cancelled = false)
    (hph : (serve w j).tasks.phase? j = some ph) :
    (serve w j).runnable j = true ∨ ((floorTo w j).step t.phase.activity).2 = .wait ph.activity := by
  have hw₀ := wf_floorTo hw (served?_eq_some hs).1
  have hfloor := (runs_advance hw₀.reserved j t.phase).does.ripple.grows.floor.trans (floor_floorTo (served?_eq_some hs).1)
  rw [phase?_serve hw hs hc] at hph
  rw [serve_of_section hs hc, runnable_iff]
  unfold World.advance at hfloor ⊢
  generalize (floorTo w j).step t.phase.activity = x at hph hfloor
  obtain ⟨w', x⟩ := x
  cases x with
  | go b => exact Or.inl (Or.inr hfloor)
  | wait b =>
    cases hph
    exact Or.inr rfl
  | pause b => exact Or.inl (Or.inl (List.mem_append_right _ (List.mem_singleton_self j)))
  | ended o => cases hph

/-- a task that gets the floor and is there afterwards has carried out a section -/
theorem served_of_phase (hw : Wf w) (hm : w.serves m j = true) (hph : (w.move m).tasks.phase? j = some ph) :
    m = .turn j ∧ ∃ t, w.served? j = some t ∧ t.cancelled = false := by
  obtain ⟨rfl, hgo⟩ := serves_iff.1 hm
  refine ⟨rfl, ?_⟩
  rw [World.move] at hph
  cases hs : w.served? j with
  | none =>
    rw [phase?_serve_of_nobody hs] at hph
    obtain ⟨t, ht, -⟩ := served?_of_phase hgo hph
    cases hs.symm.trans ht
  | some t =>
    refine ⟨t, rfl, ?_⟩
    rw [Bool.eq_false_iff]
    intro hc
    cases (phase?_serve_of_cancelled hw hs hc).symm.trans hph

/-- a task that goes to wait at a gate does so at a closed one -/
theorem gate_serve (hw : Wf w) (hs : w.served? j = some t) (hc : t.cancelled = false)
    (hph : (serve w j).tasks.phase? j = some ph) (hg : ph.activity.awaits = .gate g) (hopen : (serve w j).disk.isOpen g = true) :
    (serve w j).runnable j = true := by
  rcases waits_of_served hw hs hc hph with hrun | hwait
  · exact hrun
  · have hpump : ∀ s, t.phase.activity ≠ .pumping s := by
      intro s ha
      rw [ha] at hwait
      have hb : ph.activity = .pumping s := next_pumping (w := floorTo w j) (by rw [hwait]; rfl)
      rw [hb] at hg
      cases hg
    have htame := tame_step (floorTo w j) hpump
    have hclosed := htame.closed ph.activity g hwait hg
    have hsame : (serve w j).disk.isOpen = ((floorTo w j).step t.phase.activity).1.disk.isOpen := by
      rw [isOpen_serve]
      exact congrArg Outlook.isOpen (htame.outlook.trans (outlook_floorTo w j)).symm
    rw [hsame, hclosed] at hopen
    cases hopen

/-- the pump goes to wait at a stream where there is nothing to read -/
theorem idle_of_wait {b : Activity} (h : (w.stepPumping s).2 = .wait b) :
    (w.stepPumping s).1 = w ∧ Channel.Idle (w.streams.getD s {}) := by
  unfold World.stepPumping at h ⊢
  generalize w.streams.getD s {} = c at h ⊢
  obtain ⟨buffer, o, r, y⟩ := c
  cases buffer with
  | cons => cases h
  | nil => cases o <;> cases y <;> first | exact ⟨rfl, rfl, rfl, rfl⟩ | cases h

theorem message_serve (hw : Wf w) (hs : w.served? j = some t) (hc : t.cancelled = false)
    (hph : (serve w j).tasks.phase? j = some ph) (ha : ph.activity = .pumping s)
    (hidle : ¬Channel.Idle ((serve w j).streams.getD s {})) : (serve w j).runnable j = true := by
  rcases waits_of_served hw hs hc hph with hrun | hwait
  · exact hrun
  · rw [ha] at hwait
    have hact : t.phase.activity = .pumping s := initial_of_next (w := floorTo w j) (by rw [hwait]; rfl) rfl
    rw [hact] at hwait
    obtain ⟨hsame, hnothing⟩ := idle_of_wait hwait
    have hstreams : (serve w j).streams = (floorTo w j).streams := by
      refine (congrArg Outlook.streams (outlook_section hs hc)).trans ?_
      rw [hact]
      exact congrArg World.streams hsame
    rw [hstreams] at hidle
    exact absurd hnothing hidle

/-- whoever waits at a gate that is open after a move can go on then -/
theorem gate_move (hw : Wf w) (h : w.Alert) (hph : (w.move m).tasks.phase? j = some ph) (hg : ph.activity.awaits = .gate g)
    (hopen : (w.move m).disk.isOpen g = true) : (w.move m).runnable j = true := by
  by_cases hserves : w.serves m j = true
  · obtain ⟨rfl, t, hs, hc⟩ := served_of_phase hw hserves hph
    exact gate_serve hw hs hc hph hg hopen
  · rw [Bool.not_eq_true] at hserves
    rcases phase?_newcomer hw hserves with hsame | ⟨hnone, -⟩
    · have hold := hsame.symm.trans hph
      have hstays : w.disk.isOpen g = true → (w.move m).runnable j = true := fun hg' =>
        runnable_move hw hserves (h.gate j ph g hold hg hg')
      by_cases hturn : ∃ i, m = .turn i
      · obtain ⟨i, rfl⟩ := hturn
        rw [World.move, isOpen_serve] at hopen
        exact hstays hopen
      · rcases isOpen_outside (fun i hi => hturn ⟨i, hi⟩) hopen with hg' | rfl
        · exact hstays hg'
        · exact runnable_iff.2 (World.mem_ready_wake (w := { w with disk := w.disk.openGate g }) hold hg)
    · exact runnable_new hw hnone hph

/-- whoever waits at a stream where there is something to read after a move can go on then -/
theorem message_move (hw : Wf w) (h : w.Alert) (hph : (w.move m).tasks.phase? j = some ph) (ha : ph.activity = .pumping s)
    (hidle : ¬ Channel.Idle ((w.move m).streams.getD s {})) : (w.move m).runnable j = true := by
  by_cases hserves : w.serves m j = true
  · obtain ⟨rfl, t, hs, hc⟩ := served_of_phase hw hserves hph
    exact message_serve hw hs hc hph ha hidle
  · rw [Bool.not_eq_true] at hserves
    rcases phase?_newcomer hw hserves with hsame | ⟨hnone, -⟩
    · have hold := hsame.symm.trans hph
      have hstays : (w.move m).streams.get? s = w.streams.get? s → (w.move m).runnable j = true := fun hs => by
        refine runnable_move hw hserves (h.message j ph s hold ha ?_)
        rwa [Table.getD, hs] at hidle
      by_cases hturn : ∃ i, m = .turn i
      · obtain ⟨i, rfl⟩ := hturn
        by_cases hij : i = j
        · subst hij
          have hno : serve w i = w := if_neg (by simpa [World.serves] using hserves)
          exact hstays (by rw [World.move, hno])
        · exact hstays (stream_serve h hold ha hij)
      · have hwoken : ∀ w₁ : World, w₁.tasks = w.tasks → (w₁.wake (.message s)).runnable j = true := fun w₁ h₁ =>
          runnable_iff.2 (World.mem_ready_wake (p := ph) (by rw [h₁]; exact hold) (by rw [ha]; rfl))
        cases feeds_outside (w := w) (fun i hi => hturn ⟨i, hi⟩) s with
        | same hs => exact hstays hs
        | taken hc hopen =>
          rw [move_sendEvent hc hopen]
          exact hwoken _ rfl
        | closed => exact hwoken _ rfl
        | new hs => exact absurd hs (h.made j ph s hold ha).ne
    · exact runnable_new hw hnone hph

/-- **Whoever waits at an open gate, or at a stream where there is something to read, can go on after any move.** -/
theorem alert_move (hw : Wf w) (h : w.Alert) : (w.move m).Alert where
  gate _ _ _ hph hg hopen := gate_move hw h hph hg hopen
  message _ _ _ hph ha hidle := message_move hw h hph ha hidle
  made j ph s hph ha := by
    rcases pumping_cases hw hph ha with ⟨ph₀, hph₀, ha₀⟩ | ⟨rfl, -, rfl⟩
    · exact (h.made j ph₀ s hph₀ ha₀).trans_le (le_nextStream w m)
    · rw [nextStream_attachStream]
      exact Nat.lt_succ_self _
  alone i j ph ph' s hi hj ha ha' := by
    rcases pumping_cases hw hi ha with ⟨ph₀, hi₀, ha₀⟩ | ⟨-, hnew, rfl⟩ <;>
      rcases pumping_cases hw hj ha' with ⟨ph₁, hj₁, ha₁⟩ | ⟨-, hnew', hs⟩
    · exact h.alone i j ph₀ ph₁ s hi₀ hj₁ ha₀ ha₁
    · subst hs
      exact absurd (h.made i ph₀ _ hi₀ ha₀) (lt_irrefl _)
    · exact absurd (h.made j ph₁ _ hj₁ ha₁) (lt_irrefl _)
    · exact hnew.trans hnew'.symm

theorem alert_start (policy : WritePolicy) : (World.start policy).Alert where
  gate _ _ _ h := by cases h
  message _ _ _ h := by cases h
  made _ _ _ h := by cases h
  alone _ _ _ _ _ h := by cases h

theorem alert_trace (policy : WritePolicy) (moves : Nat → Move) (n : Nat) : ((World.start policy).trace moves n).Alert := by
  induction n with
  | zero => exact alert_start policy
  | succ n ih => exact alert_move (reachable_trace policy moves n).wf ih

/-- **In a run without shutting down, a task that cannot go on has not been cancelled, and is held up** unless it waits for the
background work. -/
theorem heldUp_trace {policy : WritePolicy} {moves : Nat → Move} (h : ∀ n, moves n ≠ .call .shutDown) (n : Nat) {j : TaskId}
    {t : Task Phase} (ht : ((World.start policy).trace moves n).tasks.live.get? j = some t)
    (hrun : ((World.start policy).trace moves n).runnable j = false) (hquiet : t.phase.activity.awaits ≠ .quiet) :
    t.cancelled = false ∧ HeldUp ((World.start policy).trace moves n) t.phase.activity := by
  have halert : ((World.start policy).trace moves n).Alert := alert_trace policy moves n
  have hheeds : ((World.start policy).trace moves n).Heeds := heeds_trace h n
  have hwf := (reachable_trace policy moves n).wf
  generalize (World.start policy).trace moves n = w at ht hrun halert hheeds hwf ⊢
  have hph : w.tasks.phase? j = some t.phase := congrArg (Option.map Task.phase) ht
  have hno : ¬w.runnable j = true := Bool.eq_false_iff.1 hrun
  refine ⟨Bool.eq_false_iff.2 fun hc => hno (hheeds.cancelled j t ht hc), ?_⟩
  refine ⟨?_, fun g hg => Bool.eq_false_iff.2 fun hopen => hno (halert.gate j _ g hph hg hopen), fun hq => absurd hq hquiet, fun s hs => ?_,
    fun x hx => Bool.eq_false_iff.2 fun hleft => ?_⟩
  · rcases hwf.woken j _ hph with hr | hf | hwaits
    · exact absurd (runnable_iff.2 (Or.inl hr)) hno
    · exact absurd (runnable_iff.2 (Or.inr hf)) hno
    · exact hwaits
  · by_contra hidle
    exact hno (halert.message j _ s hph (pumping_of_awaits hs) hidle)
  · obtain ⟨p, hp⟩ := listening_of_awaits hx
    exact hno (hheeds.left j _ p x hph hp hleft)

end LiveFiles.Engine
