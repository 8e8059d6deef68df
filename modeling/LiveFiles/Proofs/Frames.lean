/-
What a task leaves alone. A task touches the entry of the path that its operation is at, and of no other; a call to watch
has its seat at that path too (`Activity.Coherent`).
- `coherent_next`, `coherent_trace`: the seat of a call to watch is at the path of the call.
- `at?_next`: a task stays at its path.
- `same_step`, `same_abandon`: a section of a task that is elsewhere leaves the entry of a path alone, and so does the end of
  a cancelled one.
- **`entry_elsewhere`**: so does a move, if nobody shuts the engine down.
-/
import LiveFiles.Proofs.Watching

namespace LiveFiles.Engine

variable {w w' w'' : World} {k : Path.Key} {p q : Path} {a b : Activity} {e : Entry} {r : Refresh} {x : Save} {seat : Seat}
  {l : Leaving} {σ α : Type}

/-- the entry of a path is as it was -/
structure SameEntry (k : Path.Key) (w w' : World) : Prop where
  entry : w'.entries.get? k = w.entries.get? k

theorem SameEntry.trans (h : SameEntry k w w') (h' : SameEntry k w' w'') : SameEntry k w w'' := ⟨h'.entry.trans h.entry⟩

theorem SameEntry.of_entries (h : w'.entries = w.entries) : SameEntry k w w' := ⟨by rw [h]⟩

theorem Aside.same (h : Aside w w') : SameEntry k w w' := .of_entries h.entries

/-! ## Operations on the world -/

theorem same_setEntry (hp : p.key ≠ k) (w : World) (e : Entry) : SameEntry k w (w.setEntry p e) := by
  constructor
  simp only [World.setEntry, Table.get?_insert, if_neg hp]

theorem same_modifyEntry (hp : p.key ≠ k) (w : World) (f : Entry → Entry) : SameEntry k w (w.modifyEntry p f) := by
  constructor
  simp only [World.modifyEntry, Table.get?_modify, if_neg hp]

theorem same_dropEntry (hp : p.key ≠ k) (w : World) : SameEntry k w (w.dropEntry p) := by
  constructor
  simp only [World.dropEntry, Table.get?_erase, if_neg hp]

theorem same_endSeat (hp : seat.path.key ≠ k) (w : World) : SameEntry k w (w.endSeat seat) := by
  have hjoining := same_modifyEntry hp w fun e =>
    if e.joining.get? seat.subscriber = some seat.joined then { e with joining := e.joining.erase seat.subscriber } else e
  exact ⟨hjoining.entry⟩

theorem same_forgetRevoked (hp : p.key ≠ k) (w : World) : SameEntry k w (w.forgetRevoked p) := same_modifyEntry hp w _

theorem same_inBackground (w : World) (y : Request) : SameEntry k w (w.inBackground y) := by
  unfold World.inBackground
  split <;> exact .of_entries rfl

theorem same_beginCall (w : World) (op : DiskOp) (p : Path) (f : Call → σ) :
    SameEntry k w (w.beginCall (α := α) op p f).1 := by
  unfold World.beginCall
  dsimp only
  split
  · split <;> exact .of_entries rfl
  · exact .of_entries rfl

theorem same_atGate (w : World) (g : GateId) (f : Call → σ) : SameEntry k w (w.atGate (α := α) g f).1 := by
  unfold World.atGate
  split <;> exact .of_entries rfl

theorem same_listen (w : World) (p : Path) (y : SubscriberId) : SameEntry k w (w.listen p y).2 := by
  unfold World.listen
  split <;> exact .of_entries rfl

theorem same_beginQuery (w : World) (e : Entry) : SameEntry k w (w.beginQuery e).2.2 := by
  unfold World.beginQuery
  dsimp only
  split <;> exact .of_entries rfl

theorem same_armEntry (w : World) (p : Path) (e : Entry) : SameEntry k w (w.armEntry p e).1 := by
  unfold World.armEntry
  split <;> exact .of_entries rfl

theorem same_endLeaving (hl : ∀ seat e, l = .failed seat e → seat.path.key ≠ k) (w : World) :
    SameEntry k w (w.endLeaving l).1 := by
  cases l with
  | failed seat e => exact same_endSeat (hl seat e rfl) w
  | _ => exact .of_entries rfl

/-! ## Sections -/

theorem same_conclude (w : World) {l : Look} (hp : l.path.key ≠ k) (o : Observation) : SameEntry k w (w.conclude l o).1 := by
  unfold World.conclude
  split
  · exact (aside_endLook w l _).same
  · next e _ =>
    have hgive : SameEntry k w ((w.setEntry l.path (Entry.commit { e with runningSignal := none } o).1).giveIf l.signal) :=
      (same_setEntry hp w _).trans (aside_giveIf _ _).same
    dsimp only
    split
    · exact (hgive.trans (aside_broadcast _ _).same).trans (aside_giveBack _ _).same
    · exact hgive.trans (aside_giveBack _ _).same

theorem same_requestRefresh (hp : p.key ≠ k) (w : World) : SameEntry k w (w.requestRefresh p).1 := by
  unfold World.requestRefresh
  split
  · exact .of_entries rfl
  · next e _ =>
    have hset := same_setEntry hp (w.beginQuery e).2.2 (w.beginQuery e).2.1
    exact ⟨((same_beginQuery w e).trans hset).entry⟩

theorem same_enterRefresh (hp : p.key ≠ k) (w : World) (y : QueryId) (τ : Turn) :
    SameEntry k w (w.enterRefresh p y τ).1 := by
  unfold World.enterRefresh
  split
  · exact (aside_giveBack w τ).same
  · split
    · exact (aside_giveBack w τ).same
    · exact (same_setEntry hp w _).trans (same_beginCall _ _ _ _)

theorem same_stepRefresh (hp : r.path.key ≠ k) (w : World) : SameEntry k w (w.stepRefresh r).1 := by
  have hleave : ∀ p, SameEntry k w (w.leaveDisk p) := fun _ => .of_entries rfl
  cases r with
  | queued p y τ =>
    simp only [World.stepRefresh]
    split
    · exact same_enterRefresh hp w y τ
    · exact .of_entries rfl
  | looking l c =>
    cases c with
    | held g => exact same_atGate w g _
    | due =>
      simp only [World.stepRefresh, World.haveLooked]
      refine (hleave l.path).trans ?_
      split
      · exact (aside_endLook _ l _).same
      · exact same_conclude _ hp _
      · split
        · exact same_conclude _ hp _
        · exact same_beginCall _ _ _ _
  | reading l date c =>
    cases c with
    | held g => exact same_atGate w g _
    | due =>
      simp only [World.stepRefresh, World.haveRead]
      refine (hleave l.path).trans ?_
      split
      · exact same_conclude _ hp _
      · exact same_beginCall _ _ _ _
  | lookingAgain l f c =>
    cases c with
    | held g => exact same_atGate w g _
    | due =>
      simp only [World.stepRefresh, World.haveLookedAgain]
      refine (hleave l.path).trans ?_
      split
      · exact (aside_endLook _ l _).same
      · exact same_conclude _ hp _
      · exact (aside_endLook _ l _).same

theorem same_requestSave (hp : p.key ≠ k) (w : World) (bytes : ByteArray) : SameEntry k w (w.requestSave p bytes).1 := by
  unfold World.requestSave
  split
  · exact .of_entries rfl
  · split
    · split <;> exact .of_entries rfl
    · next e _ => exact ⟨(same_setEntry hp w (World.revoke e).2.2).entry⟩

theorem same_failSave (w : World) {job : SaveJob} (hp : job.path.key ≠ k) (y : Problem) :
    SameEntry k w (w.failSave job y).1 := by
  have hgive : SameEntry k w ((w.giveBack job.turn).giveIf job.waiters) :=
    (aside_giveBack w _).same.trans (aside_giveIf _ _).same
  unfold World.failSave
  dsimp only
  split
  · exact hgive.trans ((same_forgetRevoked hp _).trans (same_inBackground _ _))
  · exact hgive

theorem same_commitSave (w : World) {job : SaveJob} (hp : job.path.key ≠ k) (date : Instant) :
    SameEntry k w (w.commitSave job date).1 := by
  have hforget : ∀ w₁ : World, SameEntry k w₁ (if job.revoked then w₁.forgetRevoked job.path else w₁) := by
    intro w₁
    split
    · exact same_forgetRevoked hp w₁
    · exact .of_entries rfl
  unfold World.commitSave
  cases w.entry? job.path with
  | none =>
    have hgive : SameEntry k w (w.giveIf job.waiters) := (aside_giveIf w _).same
    exact (hgive.trans (hforget _)).trans (aside_giveBack _ _).same
  | some e =>
    have hgive : SameEntry k w ((w.setEntry job.path
        { e with contents := some (Text.Utf8.decodeLossy job.bytes), modified := date }).giveIf job.waiters) :=
      (same_setEntry hp w _).trans (aside_giveIf _ _).same
    exact ((hgive.trans (hforget _)).trans (aside_broadcast _ _).same).trans (aside_giveBack _ _).same

theorem same_stepSave (hp : x.job.path.key ≠ k) (w : World) : SameEntry k w (w.stepSave x).1 := by
  cases x with
  | queued job =>
    simp only [World.stepSave]
    split
    · exact same_beginCall _ _ _ _
    · exact .of_entries rfl
  | writing job c =>
    cases c with
    | held g => exact same_atGate w g _
    | due =>
      simp only [World.stepSave]
      have hdisk : SameEntry k w ({ w with disk := (w.disk.write job.path job.bytes).1 }.leaveDisk job.path) := .of_entries rfl
      refine hdisk.trans ?_
      unfold World.haveWritten
      split
      · exact same_failSave _ hp _
      · exact same_beginCall _ _ _ _
  | looking job c =>
    cases c with
    | held g => exact same_atGate w g _
    | due =>
      simp only [World.stepSave]
      have hdisk : SameEntry k w (w.leaveDisk job.path) := .of_entries rfl
      refine hdisk.trans ?_
      unfold World.haveLookedUp
      split
      · exact same_failSave _ hp _
      · exact same_failSave _ hp _
      · exact same_commitSave _ hp _

theorem same_releasePlace (hp : p.key ≠ k) (hl : ∀ seat e, l = .failed seat e → seat.path.key ≠ k) (w : World) :
    SameEntry k w (w.releasePlace p l).1 := by
  unfold World.releasePlace
  split
  · exact same_endLeaving hl w
  · dsimp only
    split
    · split
      · have hdisarm : SameEntry k w { w with watcher := w.watcher.disarm p } := .of_entries rfl
        exact hdisarm.trans (same_setEntry hp _ _)
      · exact same_setEntry hp w _
    · exact (same_setEntry hp w _).trans (same_endLeaving hl _)

theorem same_stepTearingDown (hp : p.key ≠ k) (hl : ∀ seat e, l = .failed seat e → seat.path.key ≠ k) (w : World)
    (turn : Option Turn) : SameEntry k w (w.stepTearingDown p turn l).1 := by
  have haside := aside_awaitIdle w p turn
  unfold World.stepTearingDown
  rcases hx : w.awaitIdle p turn with ⟨w₁, t | t | t | u⟩ <;> rw [hx] at haside <;> dsimp only
  · exact haside.same
  · exact haside.same
  · exact haside.same
  · refine haside.same.trans ?_
    split
    · split
      · exact (same_dropEntry hp w₁).trans (same_endLeaving hl _)
      · exact same_endLeaving hl w₁
    · exact same_endLeaving hl w₁

theorem same_unwatch (hp : p.key ≠ k) (w : World) (y : SubscriberId) : SameEntry k w (w.unwatch p y).1 := by
  unfold World.unwatch
  split
  · exact .of_entries rfl
  · split
    · exact .of_entries rfl
    · refine ((same_setEntry hp w _).trans (aside_cancelIf _ _).same).trans (same_releasePlace hp ?_ _)
      rintro seat e ⟨⟩

theorem same_takePlace (hp : seat.path.key ≠ k) (w : World) (e : Entry) : SameEntry k w (w.takePlace seat e).1 := by
  unfold World.takePlace
  dsimp only
  split
  · exact same_setEntry hp w _
  · generalize { e with joining := e.joining.insert seat.subscriber seat.joined, count := e.count + 1 } = e'
    have harm := same_armEntry (k := k) w seat.path e'
    have hquery := same_beginQuery (k := k) (w.armEntry seat.path e').1 (w.armEntry seat.path e').2
    exact ⟨((harm.trans hquery).trans (same_setEntry hp _ _)).entry⟩

theorem same_stepJoining (hp : p.key ≠ k) (w : World) (y : SubscriberId) (joined : SignalId) (other : Option SignalId) :
    SameEntry k w (w.stepJoining p y joined other).1 := by
  have hseat : (⟨p, y, joined⟩ : Seat).path.key ≠ k := hp
  unfold World.stepJoining
  split
  · exact .of_entries rfl
  · dsimp only
    split
    · exact .of_entries rfl
    · split
      · exact same_setEntry hp w _
      · exact same_takePlace hseat w _

theorem same_register (hp : seat.path.key ≠ k) (w : World) : SameEntry k w (w.register seat).1 := by
  unfold World.register
  split
  · exact same_endSeat hp w
  · have hlisten := same_listen (k := k) w seat.path seat.subscriber
    dsimp only
    split
    · exact (hlisten.trans (aside_cancelIf _ _).same).trans ((same_setEntry hp _ _).trans (same_endSeat hp _))
    · exact hlisten.trans ((same_setEntry hp _ _).trans (same_endSeat hp _))

theorem same_stepSettling (hp : seat.path.key ≠ k) (w : World) (signal : Option SignalId) :
    SameEntry k w (w.stepSettling seat signal).1 := by
  unfold World.stepSettling
  split
  · exact .of_entries rfl
  · split
    · exact .of_entries rfl
    · exact same_register hp w

theorem same_stepSynchronizing (hp : seat.path.key ≠ k) (hr : r.path.key ≠ k) (w : World) :
    SameEntry k w (w.stepSynchronizing seat r).1 := by
  have hstep := same_stepRefresh hr w
  unfold World.stepSynchronizing
  rcases hx : w.stepRefresh r with ⟨w₁, y | y | y | (y | y)⟩ <;> rw [hx] at hstep <;> dsimp only
  · exact hstep
  · exact hstep
  · exact hstep
  · refine SameEntry.trans hstep (same_releasePlace hp ?_ w₁)
    rintro seat e ⟨⟩
    exact hp
  · exact hstep

/-! ## Seats are at the path of their call -/

/-- the seat of a call to watch is at the path of the call -/
def Activity.Coherent (a : Activity) : Prop := ∀ seat, a.seat? = some seat → a.operation? = some seat.path

theorem Watching.coherent {y : SubscriberId} (h : Watching p y a) : a.Coherent := by
  intro seat hs
  cases h with
  | synchronizing joined r hr =>
    cases hs
    exact congrArg some hr
  | starting => cases hs
  | joining joined other => cases hs
  | _ =>
    cases hs
    rfl

theorem Activity.Coherent.watching (h : a.Coherent) (hs : a.seat? = some seat) : Watching seat.path seat.subscriber a := by
  have hop := h seat hs
  cases a with
  | synchronizing seat' r =>
    cases hs
    exact .synchronizing seat.joined r (Option.some.inj hop)
  | settling seat' signal =>
    cases hs
    exact .settling seat.joined signal
  | tearingDown p turn l =>
    cases l with
    | failed seat' e =>
      cases hs
      cases hop
      exact .failing turn seat.joined e
    | _ => cases hs
  | _ => cases hs

/-- whoever has a seat after a section is a call to watch that had it before, or has just taken it -/
theorem coherent_next (h : a.Coherent) (hb : (w.step a).2.next = some b) : b.Coherent := by
  have hseat : ∀ seat, b.seat? = some seat →
      a.seat? = some seat ∨ ∃ other, a = .joining seat.path seat.subscriber seat.joined other := by
    intro seat hs
    have hdealing := dealing_step w a
    rw [hb] at hdealing
    generalize w.commits? a = c at hdealing
    cases hdealing with
    | still hv hsame hh => exact Or.inl (hsame.symm.trans hs)
    | unseen p hf hv hsame hh => exact Or.inl (hsame.symm.trans hs)
    | commit p f x hf hv hsame hh => exact Or.inl (hsame.symm.trans hs)
    | take seat' f other ha hf hr hj hv hn =>
      obtain ⟨b', hb', -, hs'⟩ := hn
      cases hb'
      cases hs.symm.trans hs'
      exact Or.inr ⟨other, ha⟩
    | giveUp seat' f ha hf hv =>
      obtain ⟨r, rfl⟩ := ha
      rcases hv with ⟨-, -, e, hn⟩ | ⟨-, hn⟩
      · cases hn
        exact Or.inl hs
      · cases hn
    | release p f ha hf hv hsame => cases hs.symm.trans hsame
    | unwatch p id f ha hf hr hv hsame => cases hs.symm.trans hsame
    | shutDown ha hv hsame => cases hs.symm.trans hsame
    | register seat' f x ha hf hv hn => cases hn
    | lost seat' ha hf hv hn => cases hn
    | tearDown p turn l ha hv hn => cases hn
    | forget ha hv hn => cases hn
  intro seat hs
  have hwatching : Watching seat.path seat.subscriber b := by
    rcases hseat seat hs with hsame | ⟨other, rfl⟩
    · exact (h.watching hsame).next hb
    · exact (Watching.joining seat.joined other).next hb
  exact hwatching.coherent seat hs

/-- so it is with all tasks of a run -/
theorem coherent_trace (policy : WritePolicy) (moves : Nat → Move) (n : Nat) {id : TaskId} {ph : Phase}
    (hph : ((World.start policy).trace moves n).tasks.phase? id = some ph) : ph.activity.Coherent := by
  induction n generalizing id ph with
  | zero => cases hph
  | succ n ih =>
    rcases phase?_cases (reachable_trace policy moves n).wf hph with hsame | ⟨-, hnew⟩ | ⟨a, hcarry, hb⟩
    · exact ih hsame
    · intro seat hs
      cases hnew.seat?.symm.trans hs
    · obtain ⟨u, -, hserved, -, rfl⟩ := carried?_eq_some.1 hcarry
      exact coherent_next (ih (phase?_of_served hserved)) hb

/-! ## A task stays at its path -/

/-- the path at which a task calls the disk for a user -/
def Activity.direct? : Activity → Option Path
  | .starting (.diskStat p) | .starting (.diskRead p) | .starting (.diskWrite p _) => some p
  | .diskStat p _ | .diskRead p _ | .diskWrite p _ _ => some p
  | _ => none

/-- the path that a task is at -/
def Activity.at? (a : Activity) : Option Path := a.operation?.or a.direct?

theorem Activity.at?_of_operation (h : a.operation? = some q) : a.at? = some q := by
  rw [Activity.at?, h]
  rfl

theorem at?_of_part {phase : σ → Activity} {answer : α → Answer} {y : World × Section σ (Except Problem α)}
    (hat : ∀ s, y.2.next = some s → (phase s).at? = some p) (hb : (ofPart phase answer y).2.next = some b) :
    b.at? = some p := by
  rw [next_ofPart] at hb
  obtain ⟨s, hs, rfl⟩ := Option.map_eq_some_iff.1 hb
  exact hat s hs

theorem at?_releasePlace (hb : (w.releasePlace p l).2.next = some b) : b.at? = some p := by
  rcases next_releasePlace w p l with hn | hn
  · cases hn.symm.trans hb
  · cases hn.symm.trans hb
    rfl

theorem at?_begin {y : Request} (hy : y ≠ .shutDown) (hb : (w.begin y).2.next = some b) (hq : b.at? = some q) :
    (Activity.starting y).at? = some q := by
  cases y with
  | watch p x =>
    cases (Activity.at?_of_operation (Watching.next .starting hb).operation?).symm.trans hq
    rfl
  | unwatch p x =>
    simp only [World.begin, World.unwatch] at hb
    split at hb
    · cases hb
    · split at hb
      · cases hb
      · cases (at?_releasePlace hb).symm.trans hq
        rfl
  | write p bytes =>
    have hat := at?_of_part (p := p) (fun s hs => ?_) hb
    · cases hat.symm.trans hq
      rfl
    · unfold World.requestSave at hs
      split at hs
      · cases hs
      · split at hs
        · split at hs <;> cases hs
          rfl
        · cases hs
          rfl
  | reconcile p =>
    have hat := at?_of_part (p := p) (fun s hs => ?_) hb
    · cases hat.symm.trans hq
      rfl
    · unfold World.requestRefresh at hs
      split at hs <;> cases hs
      rfl
  | release p =>
    cases (at?_releasePlace hb).symm.trans hq
    rfl
  | waitIdle =>
    cases hb
    cases hq
  | shutDown => exact absurd rfl hy
  | diskStat p | diskRead p | diskWrite p _ =>
    obtain ⟨c, hc⟩ := next_beginCall (α := Outcome) w _ p _
    cases hc.symm.trans hb
    exact hq

/-- a call to the disk goes on as one -/
theorem at?_atGate {g : GateId} {f : Call → Activity} (hf : ∀ c c', (f c).at? = (f c').at?) (c : Call)
    (hb : (w.atGate (α := Outcome) g f).2.next = some b) (hq : b.at? = some q) : (f c).at? = some q := by
  obtain ⟨c', hc⟩ := next_atGate (α := Outcome) w g f
  cases hc.symm.trans hb
  exact (hf c c').trans hq

/-- **A task stays at its path**, unless it shuts the engine down. -/
theorem at?_next (h : a.Coherent) (hs : a ≠ .starting .shutDown) (hc : a.closes = false)
    (hb : (w.step a).2.next = some b) (hq : b.at? = some q) : a.at? = some q := by
  have hwatch : ∀ p y, Watching p y a → a.at? = some q := by
    intro p y hw
    cases (Activity.at?_of_operation (hw.next hb).operation?).symm.trans hq
    exact Activity.at?_of_operation hw.operation?
  cases a with
  | starting y => exact at?_begin (fun hy => hs (congrArg _ hy)) hb hq
  | refreshing r =>
    have hat : b.at? = some r.path := by
      apply at?_of_part (fun s hs => ?_) hb
      exact congrArg some (path_stepRefresh hs)
    exact hat.symm.trans hq
  | saving x =>
    have hat : b.at? = some x.job.path := by
      apply at?_of_part (fun s hs => ?_) hb
      exact congrArg (fun j : SaveJob => some j.path) (job_of_stepSave hs)
    exact hat.symm.trans hq
  | joining p y joined other => exact hwatch p y (.joining joined other)
  | synchronizing seat r => exact hwatch _ _ (h.watching rfl)
  | settling seat signal => exact hwatch _ _ (h.watching rfl)
  | tearingDown p turn l =>
    simp only [World.step, World.stepTearingDown] at hb
    rcases hx : w.awaitIdle p turn with ⟨w₁, turn' | turn' | turn' | u⟩ <;> rw [hx] at hb
    · cases hb
      exact hq
    · cases hb
      exact hq
    · cases hb
      exact hq
    · dsimp only at hb
      split at hb <;> cases (next_endLeaving _ _).symm.trans hb
  | awaitingQuiet =>
    simp only [World.step, World.stepAwaitingQuiet] at hb
    split at hb <;> cases hb
    cases hq
  | closing paths | draining p turn rest => cases hc
  | diskStat p c =>
    cases c with
    | held g => exact at?_atGate (fun _ _ => rfl) _ hb hq
    | due => cases hb
  | diskRead p c =>
    cases c with
    | held g => exact at?_atGate (fun _ _ => rfl) _ hb hq
    | due => cases hb
  | diskWrite p bytes c =>
    cases c with
    | held g => exact at?_atGate (f := .diskWrite p bytes) (fun _ _ => rfl) _ hb hq
    | due => cases hb
  | listening p y =>
    simp only [World.step, World.stepListening] at hb
    split at hb <;> cases hb
    cases hq
  | pumping y =>
    simp only [World.step, World.stepPumping] at hb
    split at hb <;> cases hb <;> cases hq

/-! ## Any task -/

theorem same_begin {y : Request} (hp : ∀ q, y.path? = some q → q.key ≠ k) (hy : y ≠ .shutDown) (w : World) :
    SameEntry k w (w.begin y).1 := by
  cases y with
  | watch p x =>
    simp only [World.begin, World.requestWatch]
    split <;> exact .of_entries rfl
  | unwatch p x => exact same_unwatch (hp p rfl) w x
  | write p bytes =>
    rw [World.begin, fst_ofPart]
    exact same_requestSave (hp p rfl) w bytes
  | reconcile p =>
    rw [World.begin, fst_ofPart]
    exact same_requestRefresh (hp p rfl) w
  | release p =>
    refine same_releasePlace (hp p rfl) ?_ w
    rintro seat e ⟨⟩
  | waitIdle => exact .of_entries rfl
  | shutDown => exact absurd rfl hy
  | diskStat p => exact same_beginCall w _ _ _
  | diskRead p => exact same_beginCall w _ _ _
  | diskWrite p bytes => exact same_beginCall w _ _ _

/-- **A task that is elsewhere leaves the entry of a path alone**, unless it shuts the engine down. -/
theorem same_step (hp : ∀ q, a.operation? = some q → q.key ≠ k) (ha : a.Coherent) (hs : a ≠ .starting .shutDown)
    (hc : a.closes = false) (w : World) : SameEntry k w (w.step a).1 := by
  have hseat : ∀ seat, a.seat? = some seat → seat.path.key ≠ k := fun seat h => hp _ (ha seat h)
  cases a with
  | starting y => exact same_begin hp (fun hy => hs (congrArg Activity.starting hy)) w
  | refreshing r =>
    rw [World.step, fst_ofPart]
    exact same_stepRefresh (hp r.path rfl) w
  | saving x =>
    rw [World.step, fst_ofPart]
    exact same_stepSave (hp x.job.path rfl) w
  | joining p y joined other => exact same_stepJoining (hp p rfl) w y joined other
  | synchronizing seat r => exact same_stepSynchronizing (hseat seat rfl) (hp r.path rfl) w
  | settling seat signal => exact same_stepSettling (hseat seat rfl) w signal
  | tearingDown p turn l =>
    refine same_stepTearingDown (hp p rfl) ?_ w turn
    rintro seat e rfl
    exact hseat seat rfl
  | awaitingQuiet =>
    simp only [World.step, World.stepAwaitingQuiet]
    split <;> exact .of_entries rfl
  | closing paths => cases hc
  | draining p turn rest => cases hc
  | diskStat p c => cases c <;> first | exact same_atGate w _ _ | exact .of_entries rfl
  | diskRead p c => cases c <;> first | exact same_atGate w _ _ | exact .of_entries rfl
  | diskWrite p bytes c => cases c <;> first | exact same_atGate w _ _ | exact .of_entries rfl
  | listening p y =>
    simp only [World.step, World.stepListening]
    split
    · exact same_inBackground w _
    · exact .of_entries rfl
  | pumping s =>
    simp only [World.step, World.stepPumping]
    split
    · exact ⟨(same_inBackground { w with streams := _ } _).entry⟩
    · exact .of_entries rfl
    · exact .of_entries rfl

theorem same_dropRefresh (w : World) (r : Refresh) : SameEntry k w (w.dropRefresh r) := by
  have hend : ∀ l : Look, SameEntry k w (((w.leaveDisk l.path).giveIf l.signal).giveBack l.turn) := by
    intro l
    have hleave : SameEntry k w (w.leaveDisk l.path) := .of_entries rfl
    exact (hleave.trans (aside_giveIf _ _).same).trans (aside_giveBack _ _).same
  cases r with
  | queued p y τ => exact (aside_giveBack w τ).same
  | _ => exact hend _

theorem same_dropSave (w : World) (x : Save) : SameEntry k w (w.dropSave x) := by
  have hend : ∀ job : SaveJob, SameEntry k w (((w.leaveDisk job.path).giveBack job.turn).giveIf job.waiters) := by
    intro job
    have hleave : SameEntry k w (w.leaveDisk job.path) := .of_entries rfl
    exact (hleave.trans (aside_giveBack _ _).same).trans (aside_giveIf _ _).same
  cases x with
  | queued job => exact (aside_giveBack w _).same.trans (aside_giveIf _ _).same
  | _ => exact hend _

/-- **Nor does the end of a cancelled task that is elsewhere change the entry.** -/
theorem same_abandon (hp : ∀ q, a.operation? = some q → q.key ≠ k) (ha : a.Coherent) (w : World) :
    SameEntry k w (w.abandon a) := by
  have hseat : ∀ seat, a.seat? = some seat → seat.path.key ≠ k := fun seat h => hp _ (ha seat h)
  have habandon : ∀ (seat : Seat) (w' : World), seat.path.key ≠ k → SameEntry k w' (w'.abandonSeat seat) :=
    fun seat w' h => (same_endSeat h w').trans (same_inBackground _ _)
  cases a with
  | refreshing r => exact same_dropRefresh w r
  | saving x => exact same_dropSave w x
  | synchronizing seat r => exact (same_dropRefresh w r).trans (habandon seat _ (hseat seat rfl))
  | settling seat signal => exact habandon seat w (hseat seat rfl)
  | tearingDown p turn l =>
    cases l with
    | failed seat e => exact (aside_giveBackIf w turn).same.trans (same_endSeat (hseat seat rfl) _)
    | _ => exact (aside_giveBackIf w turn).same
  | draining p turn rest => exact (aside_giveBackIf w turn).same
  | _ => exact .of_entries rfl

/-! ## In a move -/

variable {m : Move} {id : TaskId} {t : Task Phase}

/-- turns apart, a move leaves the entries alone -/
theorem entries_outside (hm : ∀ id, m ≠ .turn id) (w : World) : (w.move m).entries = w.entries := by
  by_cases hcall : ∃ y, m = .call y
  · obtain ⟨y, rfl⟩ := hcall
    simp only [World.move]
    split <;> rfl
  · have hcore := (outside_move w hm fun y hy => hcall ⟨y, hy⟩).1
    exact congrArg Core.entries hcore

theorem entries_nobody (hs : w.served? id = none) : (serve w id).entries = w.entries := by
  obtain ⟨ready, floor, hserve⟩ := serve_of_nobody hs
  rw [hserve]

/-- **A move in which nobody at a path gets the floor leaves the entry of the path alone**, in a run without shutting down. -/
theorem entry_elsewhere (hm : Continues w m) (hcoh : ∀ id ph, w.tasks.phase? id = some ph → ph.activity.Coherent)
    (hp : ∀ id t q, m = .turn id → w.served? id = some t → t.phase.activity.operation? = some q → q.key ≠ p.key) :
    World.entry? (w.move m) p = w.entry? p := by
  by_cases hturn : ∃ id, m = .turn id
  · obtain ⟨id, rfl⟩ := hturn
    cases hs : w.served? id with
    | none => exact congrArg (·.get? p.key) (entries_nobody hs)
    | some t =>
      have hco := hcoh id t.phase (phase?_of_served hs)
      have hfloor : SameEntry p.key w (floorTo w id) := .of_entries (congrArg Core.entries (core_floorTo w id))
      cases hc : t.cancelled with
      | false =>
        obtain ⟨hne, hcl⟩ := hm id t rfl hs hc
        have hstep := same_step (fun q => hp id t q rfl hs) hco hne hcl (floorTo w id)
        have hcore := congrArg Core.entries (core_serve_of_section hs hc).1
        exact ((hfloor.trans hstep).trans (.of_entries hcore)).entry
      | true =>
        have hwithout : SameEntry p.key w ((floorTo w id).without id) := ⟨hfloor.entry⟩
        have habandon := same_abandon (fun q => hp id t q rfl hs) hco ((floorTo w id).without id)
        have hfinish := congrArg Core.entries
          (core_finish (((floorTo w id).without id).abandon t.phase.activity) id t.phase.role .cancelled)
        rw [World.move, serve_of_cancelled hs hc]
        exact ((hwithout.trans habandon).trans (.of_entries hfinish)).entry
  · exact congrArg (·.get? p.key) (entries_outside (fun id h => hturn ⟨id, h⟩) w)

end LiveFiles.Engine
