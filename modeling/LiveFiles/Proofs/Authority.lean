/-
Which reconciliation may change an entry. Each request takes the next number and puts it into the entry, in place of the one
that was pending there; so of the reconciliations that are in line for the lock of a path one has the number that is pending,
and the others are stale. The entries with what is pending in each, and the next number, are the `Docket`.
- `ruling_step`: what a section of any task does to the docket (`Ruling`). Only a request puts a number there, and only the
  reconciliation that has the lock and that number takes it out; a write that is requested strikes it out.
- `Past`: a reconciliation that a later request has overtaken. It stays so, whatever happens to the entry (`past_effect`), and
  its sections do nothing to the disk, the entries or the subscribers (`idle_of_past`).
- **`suppresses_trace`**: in every run a reconciliation that is overtaken in line is stale for good, one that is not overtaken
  looks at the disk when it gets the lock, of those in line at one time only the last can do so, and the numbers of those
  that do rise.
-/
import LiveFiles.Proofs.Faces
import LiveFiles.Proofs.Requests

namespace LiveFiles.Engine

/-! ## The docket -/

/-- the entries that there are with the number that is pending in each, and the next number -/
structure Docket where
  pending? : Path.Key → Option (Option QueryId)
  next : QueryId

def World.docket (w : World) : Docket := ⟨fun k => (w.entries.get? k).map Entry.pendingQuery, w.nextQuery⟩

def Docket.put (d : Docket) (k : Path.Key) (x : Option (Option QueryId)) : Docket :=
  { d with pending? := Function.update d.pending? k x }

theorem Docket.pending?_put (d : Docket) (k k' : Path.Key) (x : Option (Option QueryId)) :
    (d.put k x).pending? k' = if k' = k then x else d.pending? k' := Function.update_apply d.pending? k x k'

theorem Docket.put_self {d : Docket} {k : Path.Key} {x : Option (Option QueryId)} (h : d.pending? k = x) : d.put k x = d := by
  rw [← h, put, Function.update_eq_self]

variable {w w' : World} {p : Path} {e e' : Entry} {σ α : Type}

theorem pending?_of_present (h : w.entry? p = some e) : w.docket.pending? p.key = some e.pendingQuery :=
  congrArg (Option.map Entry.pendingQuery) h

theorem pending?_of_absent (h : w.entry? p = none) : w.docket.pending? p.key = none :=
  congrArg (Option.map Entry.pendingQuery) h

/-! ### Operations on the world -/

@[simp] theorem docket_cancelIf (w : World) (id : Option TaskId) : (w.cancelIf id).docket = w.docket := by cases id <;> rfl

@[simp] theorem docket_giveIf (w : World) (x : Option SignalId) : (w.giveIf x).docket = w.docket := by cases x <;> rfl

@[simp] theorem docket_giveBack (w : World) (τ : Turn) : (w.giveBack τ).docket = w.docket := by
  unfold World.giveBack
  dsimp only
  split <;> rfl

@[simp] theorem docket_giveBackIf (w : World) (turn : Option Turn) : (w.giveBackIf turn).docket = w.docket := by
  cases turn with
  | none => rfl
  | some τ => exact docket_giveBack w τ

@[simp] theorem docket_leaveDisk (w : World) (p : Path) : (w.leaveDisk p).docket = w.docket := rfl

@[simp] theorem docket_beginCall (w : World) (op : DiskOp) (p : Path) (k : Call → σ) :
    (w.beginCall (α := α) op p k).1.docket = w.docket := by
  unfold World.beginCall
  dsimp only
  split
  · split <;> rfl
  · rfl

@[simp] theorem docket_atGate (w : World) (g : GateId) (k : Call → σ) : (w.atGate (α := α) g k).1.docket = w.docket := by
  unfold World.atGate
  split <;> rfl

@[simp] theorem docket_inBackground (w : World) (r : Request) : (w.inBackground r).docket = w.docket := by
  unfold World.inBackground
  split <;> rfl

@[simp] theorem docket_awaitIdle (w : World) (p : Path) (turn : Option Turn) : (w.awaitIdle p turn).1.docket = w.docket := by
  cases turn with
  | some τ =>
    simp only [World.awaitIdle]
    split
    · exact docket_giveBack w τ
    · rfl
  | none =>
    simp only [World.awaitIdle]
    split <;> rfl

@[simp] theorem docket_listen (w : World) (p : Path) (id : SubscriberId) : (w.listen p id).2.docket = w.docket := by
  unfold World.listen
  split <;> rfl

@[simp] theorem docket_broadcast (w : World) (x : Snapshot) : (w.broadcast x).docket = w.docket := by
  unfold World.broadcast
  split <;> rfl

@[simp] theorem docket_setEntry (w : World) (p : Path) (e : Entry) :
    (w.setEntry p e).docket = w.docket.put p.key (some e.pendingQuery) := by
  refine congrArg (Docket.mk · w.nextQuery) (funext fun k => ?_)
  simp only [World.setEntry, Table.get?_insert, Function.update_apply, World.docket, eq_comm (a := k)]
  split <;> rfl

/-- an entry is put in place of one with the same number pending -/
theorem docket_setEntry_of_pending (he : w.entry? p = some e) (h : e'.pendingQuery = e.pendingQuery) :
    (w.setEntry p e').docket = w.docket := by
  rw [docket_setEntry, h]
  exact Docket.put_self (pending?_of_present he)

@[simp] theorem docket_dropEntry (w : World) (p : Path) : (w.dropEntry p).docket = w.docket.put p.key none := by
  refine congrArg (Docket.mk · w.nextQuery) (funext fun k => ?_)
  simp only [World.dropEntry, Table.get?_erase, Function.update_apply, World.docket, eq_comm (a := k)]
  split <;> rfl

theorem docket_modifyEntry (w : World) (p : Path) {f : Entry → Entry} (hf : ∀ e, (f e).pendingQuery = e.pendingQuery) :
    (w.modifyEntry p f).docket = w.docket := by
  refine congrArg (Docket.mk · w.nextQuery) (funext fun k => ?_)
  simp only [World.modifyEntry, Table.get?_modify]
  split
  · cases w.entries.get? k with
    | none => rfl
    | some e => exact congrArg some (hf e)
  · rfl

@[simp] theorem docket_forgetRevoked (w : World) (p : Path) : (w.forgetRevoked p).docket = w.docket :=
  docket_modifyEntry w p fun _ => rfl

@[simp] theorem docket_endSeat (w : World) (seat : Seat) : (w.endSeat seat).docket = w.docket :=
  docket_modifyEntry w seat.path fun e => by split <;> rfl

@[simp] theorem docket_endLeaving (w : World) (l : Leaving) : (w.endLeaving l).1.docket = w.docket := by
  cases l with
  | unwatched => rfl
  | failed seat e => exact docket_endSeat w seat
  | abandoned => rfl

@[simp] theorem docket_endLook (w : World) (l : Look) (x : Refreshed) : (w.endLook l x).1.docket = w.docket := by
  simp [World.endLook]

@[simp] theorem docket_conclude (w : World) (l : Look) (o : Observation) : (w.conclude l o).1.docket = w.docket := by
  unfold World.conclude
  cases he : w.entry? l.path with
  | none => exact docket_endLook w l _
  | some e =>
    have hset : (w.setEntry l.path (Entry.commit { e with runningSignal := none } o).1).docket = w.docket :=
      docket_setEntry_of_pending he (by cases o <;> rfl)
    dsimp only
    split <;> simp only [docket_giveBack, docket_broadcast, docket_giveIf, hset]

/-- a reconciliation that has the lock leaves the docket alone -/
theorem docket_stepRefresh {r : Refresh} {l : Look} (hl : r.look? = some l) (w : World) :
    (w.stepRefresh r).1.docket = w.docket := by
  cases r with
  | queued p q τ => cases hl
  | looking l c =>
    cases c with
    | held g => exact docket_atGate w g _
    | due =>
      simp only [World.stepRefresh, World.haveLooked]
      split
      · simp
      · simp
      · split <;> simp
  | reading l m c =>
    cases c with
    | held g => exact docket_atGate w g _
    | due =>
      simp only [World.stepRefresh, World.haveRead]
      split <;> simp
  | lookingAgain l f c =>
    cases c with
    | held g => exact docket_atGate w g _
    | due =>
      simp only [World.stepRefresh, World.haveLookedAgain]
      split <;> simp

@[simp] theorem docket_failSave (w : World) (job : SaveJob) (x : Problem) : (w.failSave job x).1.docket = w.docket := by
  unfold World.failSave
  dsimp only
  split <;> simp

theorem docket_commitSave (w : World) (job : SaveJob) (m : Instant) : (w.commitSave job m).1.docket = w.docket := by
  unfold World.commitSave
  cases he : w.entry? job.path with
  | none =>
    simp only [Option.map_none, docket_giveBack]
    split <;> simp
  | some e =>
    have hset : (w.setEntry job.path
        { e with contents := some (Text.Utf8.decodeLossy job.bytes), modified := m }).docket = w.docket :=
      docket_setEntry_of_pending he rfl
    simp only [Option.map_some, docket_giveBack, docket_broadcast]
    split <;> simp only [docket_forgetRevoked, docket_giveIf, hset]

/-- a write that is in line or has the lock leaves the docket alone -/
theorem docket_stepSave (w : World) (x : Save) : (w.stepSave x).1.docket = w.docket := by
  cases x with
  | queued job =>
    simp only [World.stepSave]
    split
    · simp
    · rfl
  | writing job c =>
    cases c with
    | held g => exact docket_atGate w g _
    | due =>
      simp only [World.stepSave, World.haveWritten]
      split
      · simp only [docket_failSave]
        rfl
      · simp only [docket_beginCall]
        rfl
  | looking job c =>
    cases c with
    | held g => exact docket_atGate w g _
    | due =>
      simp only [World.stepSave, World.haveLookedUp]
      split
      · simp
      · simp
      · exact docket_commitSave (w.leaveDisk job.path) job _

theorem docket_releasePlace (w : World) (p : Path) (l : Leaving) : (w.releasePlace p l).1.docket = w.docket := by
  unfold World.releasePlace
  cases he : w.entry? p with
  | none => exact docket_endLeaving w l
  | some e =>
    dsimp only
    split
    · split <;> exact docket_setEntry_of_pending he rfl
    · rw [docket_endLeaving]
      exact docket_setEntry_of_pending he rfl

theorem docket_unwatch (w : World) (p : Path) (id : SubscriberId) : (w.unwatch p id).1.docket = w.docket := by
  unfold World.unwatch
  cases he : w.entry? p with
  | none => rfl
  | some e =>
    dsimp only
    split
    · rfl
    · rw [docket_releasePlace, docket_cancelIf]
      exact docket_setEntry_of_pending he rfl

theorem docket_register (w : World) (seat : Seat) : (w.register seat).1.docket = w.docket := by
  unfold World.register
  cases he : w.entry? seat.path with
  | none => exact docket_endSeat w seat
  | some e =>
    have hput : ∀ (w₁ : World) (e' : Entry), w₁.docket = w.docket → e'.pendingQuery = e.pendingQuery →
        ((w₁.setEntry seat.path e').endSeat seat).docket = w.docket := fun w₁ e' hw₁ h => by
      rw [docket_endSeat, docket_setEntry, hw₁, h]
      exact Docket.put_self (pending?_of_present he)
    have hlisten := docket_listen w seat.path seat.subscriber
    dsimp only
    cases e.registered.get? seat.subscriber with
    | none => exact hput _ _ hlisten rfl
    | some r => exact hput _ _ ((docket_cancelIf _ _).trans hlisten) rfl

theorem docket_foldl_retire (es : List Entry) (w : World) : (es.foldl World.retire w).docket = w.docket := by
  induction es generalizing w with
  | nil => rfl
  | cons e es ih =>
    have hstop : (w.stopListeners e).docket = w.docket := by
      unfold World.stopListeners
      generalize e.registered.values = rs
      induction rs generalizing w with
      | nil => rfl
      | cons x rs ih' => exact (ih' (w.cancelIf x.listener)).trans (docket_cancelIf w _)
    refine (ih (w.retire e)).trans ?_
    unfold World.retire
    dsimp only
    split <;> exact hstop

theorem docket_requestShutDown (w : World) : w.requestShutDown.1.docket = w.docket := by
  -- the pump is stopped before the subscribers are removed
  obtain ⟨w₀, hstop, hreq⟩ : ∃ w₀ : World, w₀.docket = w.docket ∧ w.requestShutDown.1 =
      { w₀.inOrder.foldl World.retire w₀ with
        entries := (w₀.inOrder.foldl World.retire w₀).entries.map fun _ e => World.Entry.retired e
        pool := (w₀.inOrder.foldl World.retire w₀).pool.close } :=
    ⟨{ World.cancelIf { w with isShutDown := true } w.pump with pump := none },
      docket_cancelIf { w with isShutDown := true } w.pump, rfl⟩
  rw [hreq, ← hstop, ← docket_foldl_retire w₀.inOrder w₀]
  refine congrArg (Docket.mk · _) (funext fun k => ?_)
  simp only [Table.get?_map, Option.map_map]
  rfl

/-- a cancelled task leaves the docket alone -/
theorem docket_abandon (w : World) (a : Activity) : (w.abandon a).docket = w.docket := by
  have hdrop : ∀ r, (w.dropRefresh r).docket = w.docket := fun r => by cases r <;> simp [World.dropRefresh]
  cases a with
  | refreshing r => exact hdrop r
  | saving x => cases x <;> simp [World.abandon, World.dropSave]
  | synchronizing seat r => simp only [World.abandon, World.abandonSeat, docket_inBackground, docket_endSeat, hdrop]
  | settling seat x => simp [World.abandon, World.abandonSeat]
  | tearingDown q turn l =>
    cases l with
    | failed seat x => simp [World.abandon]
    | unwatched | abandoned => exact docket_giveBackIf w turn
  | draining q turn rest => exact docket_giveBackIf w turn
  | _ => rfl

/-! ## What a section does to the docket -/

/-- The path at which a section of a task requests a reconciliation or a write: a call to reconcile or to write begins, unless
the engine refuses to write because it is shut down, or a call to watch takes the first place there. -/
def World.requests? (w : World) : Activity → Option Path
  | .starting (.reconcile p) => some p
  | .starting (.write p _) => if w.isShutDown then none else some p
  | .joining p id joined other =>
    match (w.stepJoining p id joined other).2 with
    | .go (.synchronizing ..) => some p
    | _ => none
  | _ => none

/-- What a section of a task in phase `a` does to the docket `d`, when turns are as in `t`; it is `d'` afterwards, the task is
in phase `next`, and the section may request an operation at a path. -/
inductive Ruling (d : Docket) (t : Turns) (a : Activity) (d' : Docket) (next : Option Activity) : Option Path → Prop
  | same (hd : d' = d) : Ruling d t a d' next none
  /-- there is nothing that could be pending -/
  | untracked (p : Path) (hp : d.pending? p.key = none) (hd : d' = d) : Ruling d t a d' next (some p)
  | request (p : Path) (τ : Turn) (hd : d' = { d.put p.key (some (some d.next)) with next := d.next + 1 })
      (hn : next.bind Activity.refresh? = some (.queued p d.next τ)) : Ruling d t a d' next (some p)
  /-- a write is requested -/
  | revoke (p : Path) (hp : d.pending? p.key ≠ none) (hd : d' = d.put p.key (some none)) : Ruling d t a d' next (some p)
  /-- the reconciliation that is pending has the lock -/
  | enter (p : Path) (q : QueryId) (τ : Turn) (l : Look) (c : Call) (ha : a.refresh? = some (.queued p q τ))
      (hτ : t.holds τ = true) (hp : d.pending? p.key = some (some q)) (hd : d' = d.put p.key (some none))
      (hn : next.bind Activity.refresh? = some (.looking l c)) (hl : l.path = p ∧ l.turn = τ) : Ruling d t a d' next none
  | vacate (p : Path) (hp : t.isIdle p.key = true) (hd : d' = d.put p.key none) : Ruling d t a d' next none
  | clear (hd : d' = { d with pending? := fun _ => none }) : Ruling d t a d' next none

variable {a : Activity} {next : Option Activity}

theorem ruling_requestRefresh (w : World) (p : Path) :
    Ruling w.docket w.turns (.starting (.reconcile p)) (w.requestRefresh p).1.docket
      ((w.requestRefresh p).2.next.map Activity.refreshing) (some p) := by
  unfold World.requestRefresh
  cases he : w.entry? p with
  | none => exact .untracked p (pending?_of_absent he) rfl
  | some e =>
    obtain ⟨signal, signals, hq, -⟩ := beginQuery_eq w e
    simp only [hq]
    exact .request p _ (docket_setEntry { w with signals, nextQuery := w.nextQuery + 1 } p _) rfl

theorem pendingQuery_revoke (e : Entry) : (World.revoke e).2.2.pendingQuery = none := by
  unfold World.revoke
  split
  · assumption
  · rfl

theorem ruling_requestSave (w : World) (p : Path) (bytes : ByteArray) {next : Option Activity} :
    Ruling w.docket w.turns (.starting (.write p bytes)) (w.requestSave p bytes).1.docket next
      (w.requests? (.starting (.write p bytes))) := by
  simp only [World.requests?, World.requestSave]
  split
  · exact .same rfl
  · cases he : w.entry? p with
    | none =>
      refine .untracked p (pending?_of_absent he) ?_
      dsimp only
      split <;> rfl
    | some e =>
      refine .revoke p (by simp [pending?_of_present he]) ?_
      have hset := docket_setEntry w p (World.revoke e).2.2
      rw [pendingQuery_revoke] at hset
      exact hset

theorem ruling_stepRefresh (w : World) (r : Refresh) (ha : a.refresh? = some r) {d' : Docket}
    (hn : ∀ r', (w.stepRefresh r).2.next = some r' → next.bind Activity.refresh? = some r')
    (hd : d' = (w.stepRefresh r).1.docket) : Ruling w.docket w.turns a d' next none := by
  subst hd
  cases r with
  | queued p q τ =>
    simp only [World.stepRefresh] at hn ⊢
    split at hn
    · rename_i hτ
      rw [if_pos hτ]
      unfold World.enterRefresh at hn ⊢
      cases he : w.entry? p with
      | none => exact .same (docket_giveBack w τ)
      | some e =>
        rw [he] at hn
        dsimp only at hn ⊢
        split at hn
        · rename_i hq
          rw [if_pos hq]
          exact .same (docket_giveBack w τ)
        · rename_i hq
          rw [if_neg hq]
          obtain ⟨c, hc⟩ := next_beginCall (α := Refreshed) (w.setEntry p
            { e with pendingQuery := none, pendingSignal := none, runningSignal := e.pendingSignal }) .stat p
            (Refresh.looking ⟨p, τ, e.pendingSignal, e.contents.isSome, e.modified⟩)
          refine .enter p q τ _ c ha hτ ?_ ?_ (hn _ hc) ⟨rfl, rfl⟩
          · rw [pending?_of_present he, not_not.1 hq]
          · rw [docket_beginCall, docket_setEntry]
    · rename_i hτ
      rw [if_neg hτ]
      exact .same rfl
  | looking l c => exact .same (docket_stepRefresh rfl w)
  | reading l m c => exact .same (docket_stepRefresh rfl w)
  | lookingAgain l f c => exact .same (docket_stepRefresh rfl w)

theorem ruling_stepJoining (w : World) (p : Path) (id : SubscriberId) (joined : SignalId) (other : Option SignalId) :
    Ruling w.docket w.turns (.joining p id joined other) (w.stepJoining p id joined other).1.docket
      (w.stepJoining p id joined other).2.next (w.requests? (.joining p id joined other)) := by
  simp only [World.requests?, World.stepJoining]
  split
  · exact .same rfl
  · have he := entry?_or_new w p
    generalize (w.entry? p).getD { spelling := p } = e at he
    split
    · exact .same rfl
    · split
      · rename_i x hx
        rcases he with he | ⟨-, rfl⟩
        · exact .same (docket_setEntry_of_pending he rfl)
        · cases hx
      · rcases takePlace_cases w ⟨p, id, joined⟩ e with ⟨hpos, htake⟩ | ⟨-, x, armed, signal, signals, v, -, -, rfl, htake⟩
        · rw [htake]
          rcases he with he | ⟨-, rfl⟩
          · exact .same (docket_setEntry_of_pending he rfl)
          · cases hpos
        · rw [htake]
          exact .request p _
            (docket_setEntry { w with watcher := x, signals, nextQuery := w.nextQuery + 1 } p _) rfl

theorem ruling_drainNext {t : Turns} (h : w'.docket = w.docket) (paths : List Path) :
    Ruling w.docket t a (w'.drainNext paths).1.docket next none := by
  cases paths with
  | nil => exact .clear (congrArg (fun d : Docket => { d with pending? := fun _ => none }) h)
  | cons p rest => exact .same h

theorem ruling_stepTearingDown (w : World) (p : Path) (turn : Option Turn) (l : Leaving) :
    Ruling w.docket w.turns a (w.stepTearingDown p turn l).1.docket next none := by
  have h := docket_awaitIdle w p turn
  unfold World.stepTearingDown
  rcases hx : w.awaitIdle p turn with ⟨w', t | t | t | u⟩ <;> rw [hx] at h <;> dsimp only at h ⊢
  · exact .same h
  · exact .same h
  · exact .same h
  · obtain ⟨rfl, -, hidle⟩ := awaitIdle_ended hx
    split
    · split
      · exact .vacate p hidle (by rw [docket_endLeaving, docket_dropEntry])
      · exact .same (docket_endLeaving w' l)
    · exact .same (docket_endLeaving w' l)

theorem ruling_begin (w : World) (x : Request) : Ruling w.docket w.turns (.starting x) (w.begin x).1.docket
    (w.begin x).2.next (w.requests? (.starting x)) := by
  cases x with
  | watch p id =>
    simp only [World.begin, World.requestWatch]
    split <;> exact .same rfl
  | unwatch p id => exact .same (docket_unwatch w p id)
  | write p bytes =>
    simp only [World.begin, fst_ofPart]
    exact ruling_requestSave w p bytes
  | reconcile p =>
    simp only [World.begin, fst_ofPart, next_ofPart]
    exact ruling_requestRefresh w p
  | release p => exact .same (docket_releasePlace w p _)
  | waitIdle => exact .same rfl
  | shutDown => exact .same (docket_requestShutDown w)
  | diskStat p => exact .same (docket_beginCall w _ p _)
  | diskRead p => exact .same (docket_beginCall w _ p _)
  | diskWrite p bytes => exact .same (docket_beginCall w _ p _)

/-- **What a section of any task does to the docket.** -/
theorem ruling_step (w : World) (a : Activity) :
    Ruling w.docket w.turns a (w.step a).1.docket (w.step a).2.next (w.requests? a) := by
  cases a with
  | starting x => exact ruling_begin w x
  | refreshing r =>
    refine ruling_stepRefresh w r rfl (fun r' h => ?_) (congrArg World.docket (fst_ofPart _ _ _))
    simp only [World.step, next_ofPart, h, Option.map_some, Option.bind_some, Activity.refresh?]
  | saving x => exact .same ((congrArg World.docket (fst_ofPart _ _ _)).trans (docket_stepSave w x))
  | joining p id joined other => exact ruling_stepJoining w p id joined other
  | synchronizing seat r =>
    refine ruling_stepRefresh w r rfl (fun r' h => ?_) ?_
    · obtain ⟨b, hb, hr⟩ := next_step_of_refresh (a := .synchronizing seat r) rfl h
      rw [hb]
      exact hr
    · simp only [World.step, World.stepSynchronizing]
      rcases w.stepRefresh r with ⟨w₁, r' | r' | r' | (e | b)⟩
      · rfl
      · rfl
      · rfl
      · exact docket_releasePlace w₁ seat.path _
      · rfl
  | settling seat x =>
    simp only [World.step, World.stepSettling]
    split
    · exact .same rfl
    · split
      · exact .same rfl
      · exact .same (docket_register w seat)
  | tearingDown p turn l => exact ruling_stepTearingDown w p turn l
  | awaitingQuiet =>
    simp only [World.step, World.stepAwaitingQuiet]
    split <;> exact .same rfl
  | closing paths =>
    simp only [World.step, World.stepClosing]
    split
    · exact ruling_drainNext rfl paths
    · exact .same rfl
  | draining p turn rest =>
    have h := docket_awaitIdle w p turn
    simp only [World.step, World.stepDraining]
    rcases hx : w.awaitIdle p turn with ⟨w', t | t | t | u⟩ <;> rw [hx] at h
    · exact .same h
    · exact .same h
    · exact .same h
    · exact ruling_drainNext h rest
  | diskStat p c =>
    cases c with
    | held g => exact .same (docket_atGate w g _)
    | due => exact .same rfl
  | diskRead p c =>
    cases c with
    | held g => exact .same (docket_atGate w g _)
    | due => exact .same rfl
  | diskWrite p bytes c =>
    cases c with
    | held g => exact .same (docket_atGate w g _)
    | due => exact .same rfl
  | listening p id =>
    simp only [World.step, World.stepListening]
    split
    · exact .same (docket_inBackground w _)
    · exact .same rfl
  | pumping x =>
    simp only [World.step, World.stepPumping]
    split
    · exact .same (docket_inBackground _ _)
    · exact .same rfl
    · exact .same rfl

/-! ## What is past -/

/-- At a path a reconciliation is past: whatever is pending there is, or will be, of a later request. -/
def Core.Past (c : Core) (k : Path.Key) (q : QueryId) : Prop := q < c.nextQuery ∧ ∀ q', c.query? k = some q' → q < q'

/-- no reconciliation in line is of a later request than the one that is pending -/
def Trailing (c : Core) (st : TaskId → Stake) : Prop :=
  ∀ i p q τ q', (st i).errand = .query p q τ → c.query? p.key = some q' → q ≤ q'

/-- A reconciliation is past, and never gets beyond the line. -/
structure Stale (c : Core) (st : TaskId → Stake) (i : TaskId) (p : Path) (q : QueryId) (τ : Turn) : Prop where
  past : c.Past p.key q
  known : τ.id < c.turns.nextTurn
  inLine : (st i).errand.turn? = some τ → (st i).errand = .query p q τ

section Effects

variable {E : Mark → Prop} {c c' : Core} {s s' : Stake} {st : TaskId → Stake} {i j : TaskId} {k : Path.Key} {q q' : QueryId}
  {τ : Turn}

/-- what is pending was pending before, or has just been requested by a task that is in line with it -/
theorem Effect.query?_back (h : Effect E c s c' s') (hq : c'.query? k = some q') :
    c.query? k = some q' ∨ q' = c.nextQuery ∧ ∃ p τ, s'.errand = .query p q' τ := by
  obtain ⟨e', he', hq'⟩ := Option.bind_eq_some_iff.1 hq
  have hold : ∀ e, c.entries.get? k = some e → e.pendingQuery = some q' →
      c.query? k = some q' ∨ q' = c.nextQuery ∧ ∃ p τ, s'.errand = .query p q' τ :=
    fun e he h => Or.inl ((Core.query?_of_get? he).trans h)
  cases h.origin he' with
  | same e he hb =>
    obtain ⟨-, -, -, hpend, -⟩ := Entry.bare_eq hb
    exact hold e he (hpend ▸ hq')
  | asked p e signal τ hk he ha hs hs' =>
    cases hq'.symm.trans ha.pending.1
    exact Or.inr ⟨rfl, p, τ, hs'⟩
  | taken p q τ e hs hk he hpend he' =>
    subst he'
    cases hq'
  | concluded l d e o hs hk he ho he' =>
    subst he'
    exact hold e he (by cases o <;> exact hq')
  | revoked p bytes e τ hk he he' =>
    rw [he', pendingQuery_revoke] at hq'
    cases hq'
  | committed job e m hs hk he ho he' =>
    subst he'
    exact hold e he hq'
  | forgotten e he he' =>
    subst he'
    exact hold e he hq'

theorem Effect.query?_prev (h : Effect E c s c' s') (hq : c'.query? k = some q') : c.query? k = some q' ∨ q' = c.nextQuery :=
  (h.query?_back hq).imp_right And.left

/-- a reconciliation that has just been requested is pending -/
theorem Effect.query?_asked (h : Effect E c s c' s') (hs' : s'.errand = .query p q τ) (hs : s.errand ≠ .query p q τ) :
    c'.query? p.key = some q := by
  cases h with
  | ask p' e e' signal signals hidle he ha =>
    cases hs'
    refine (Core.query?_of_get? (e := e') ?_).trans ha.pending.1
    exact (Core.get?_setEntry { c with signals, nextQuery := c.nextQuery + 1 } p e' p.key).trans (if_pos rfl)
  | _ => first | exact absurd hs' hs | cases hs'

/-- a reconciliation in line stays there or leaves, unless it is the pending one -/
theorem Effect.query_on (h : Effect E c s c' s') (hs : s.errand = .query p q τ) :
    s'.errand = .query p q τ ∨ s'.errand.turn? = none ∨ c.query? p.key = some q := by
  rcases h.of_query hs with hs' | ⟨-, hs', -⟩ | ⟨e, he, hq, -, -⟩
  · exact Or.inl hs'
  · exact Or.inr (Or.inl (by rw [hs']; rfl))
  · exact Or.inr (Or.inr ((Core.query?_of_get? he).trans hq))

theorem past_effect (hp : c.Past k q) (h : Effect E c s c' s') : c'.Past k q := by
  refine ⟨hp.1.trans_le h.nextQuery, fun q' hq' => ?_⟩
  rcases h.query?_prev hq' with hq' | rfl
  · exact hp.2 q' hq'
  · exact hp.1

theorem trailing_effect (hn : Counted c st) (ht : Trailing c st) (h : Effect E c (st i) c' s') :
    Trailing c' (Function.update st i s') := by
  intro j p q τ q' hj hq'
  -- whoever was in line before is not of a later request than what was pending then, nor than what is requested now
  have hold : (st j).errand = .query p q τ → q ≤ q' := fun hj => by
    rcases h.query?_prev hq' with hq' | rfl
    · exact ht j p q τ q' hj hq'
    · exact (hn.fresh j p q τ hj).le
  by_cases hji : j = i
  · subst hji
    rw [Function.update_self] at hj
    by_cases hs : (st j).errand = .query p q τ
    · exact hold hs
    · exact (Option.some.inj ((h.query?_asked hj hs).symm.trans hq')).le
  · rw [Function.update_of_ne hji] at hj
    exact hold hj

/-- **A reconciliation that is past stays so, and never gets beyond the line.** -/
theorem stale_effect (hst : Stale c st j p q τ) (h : Effect E c (st i) c' s') :
    Stale c' (Function.update st i s') j p q τ := by
  refine ⟨past_effect hst.past h, ?_, fun hj => ?_⟩
  · rcases h.turns with ⟨e, -⟩ | ⟨k, -, e, -⟩ | ⟨σ, -, e, -⟩ <;> rw [e]
    · exact hst.known
    · rw [Turns.nextTurn_enlist]
      exact hst.known.trans (Nat.lt_succ_self _)
    · rw [Turns.nextTurn_giveBack]
      exact hst.known
  · by_cases hji : j = i
    · subst hji
      rw [Function.update_self] at hj ⊢
      rcases h.turns with ⟨-, e⟩ | ⟨k, -, -, e⟩ | ⟨σ, -, -, e⟩
      · rcases h.query_on (hst.inLine (e.symm.trans hj)) with hs | hs | hs
        · exact hs
        · cases hs.symm.trans hj
        · exact absurd (hst.past.2 q hs) (lt_irrefl q)
      · have hid := congrArg Turn.id (Option.some.inj (e.symm.trans hj))
        rw [Turns.enlist_id] at hid
        exact absurd (hid ▸ hst.known) (lt_irrefl _)
      · cases e.symm.trans hj
    · rw [Function.update_of_ne hji] at hj ⊢
      exact hst.inLine hj

end Effects

variable {d d' : Docket} {t : Turns} {k : Path.Key} {q : QueryId} {τ : Turn} {r : Option Path}

theorem query?_eq_some : w.core.query? k = some q ↔ w.docket.pending? k = some (some q) := by
  simp only [Core.query?, World.core, World.docket]
  cases w.entries.get? k <;> simp

theorem past_iff : w.core.Past k q ↔ q < w.docket.next ∧ ∀ q', w.docket.pending? k = some (some q') → q < q' := by
  simp only [Core.Past, query?_eq_some]
  rfl

/-- **Whoever was in line when an operation is requested is past.** -/
theorem Ruling.overtakes {p : Path} (h : Ruling d t a d' next (some p)) (hq : q < d.next) :
    q < d'.next ∧ ∀ q', d'.pending? p.key = some (some q') → q < q' := by
  have hput : ∀ (d₁ : Docket) {x : Option QueryId}, q < d₁.next → (∀ q', x = some q' → q < q') →
      q < (d₁.put p.key (some x)).next ∧ ∀ q', (d₁.put p.key (some x)).pending? p.key = some (some q') → q < q' :=
    fun d₁ x hq hx => by
    refine ⟨hq, fun q' hq' => hx q' ?_⟩
    rw [Docket.pending?_put, if_pos rfl] at hq'
    exact Option.some.inj hq'
  cases h with
  | untracked _ hp hd =>
    subst hd
    refine ⟨hq, fun q' hq' => ?_⟩
    cases hp.symm.trans hq'
  | request _ _ hd =>
    subst hd
    exact hput { d with next := d.next + 1 } (hq.trans (Nat.lt_succ_self _)) fun q' h => by cases h; exact hq
  | revoke _ _ hd => exact hd ▸ hput d hq fun q' h => by cases h

/-! ## In a move -/

variable {m : Move} {id : TaskId} {u : Task Phase}

/-- in this move a reconciliation or a write is requested at a path -/
def Requests (w : World) (m : Move) (k : Path.Key) : Prop :=
  ∃ id u p, m = .turn id ∧ w.served? id = some u ∧ u.cancelled = false ∧
    (floorTo w id).requests? u.phase.activity = some p ∧ p.key = k

/-- in this move a reconciliation that was in line goes on to look at the file, with the lock -/
def Enters (w : World) (m : Move) (id : TaskId) (p : Path) (q : QueryId) : Prop :=
  ∃ τ l c, m = .turn id ∧ w.Refreshes id (.queued p q τ) ∧ (w.move m).Refreshes id (.looking l c) ∧ l.path = p ∧ l.turn = τ

theorem docket_of_core (h : w'.core = w.core) : w'.docket = w.docket :=
  congrArg (fun c : Core => Docket.mk (fun k => (c.entries.get? k).map Entry.pendingQuery) c.nextQuery) h

theorem ruling_serve (hw : Wf w) (h : w.served? id = some u) (hc : u.cancelled = false) :
    Ruling w.docket w.turns u.phase.activity (serve w id).docket (((serve w id).tasks.phase? id).map Phase.activity)
      ((floorTo w id).requests? u.phase.activity) := by
  have hturns : (floorTo w id).turns = w.turns := congrArg Core.turns (core_floorTo w id)
  rw [activity_serve hw h hc, docket_of_core (core_serve_of_section h hc).1, ← docket_of_core (core_floorTo w id), ← hturns]
  exact ruling_step _ _

/-- whatever happens apart from sections leaves the docket alone -/
theorem docket_of_no_section (hno : ∀ id u, m = .turn id → w.served? id = some u → u.cancelled = true) :
    (w.move m).docket = w.docket := by
  by_cases hturn : ∃ id, m = .turn id
  · obtain ⟨id, rfl⟩ := hturn
    simp only [World.move]
    cases hs : w.served? id with
    | none =>
      obtain ⟨ready, floor, hserve⟩ := serve_of_nobody hs
      rw [hserve]
      rfl
    | some u =>
      rw [serve_of_cancelled hs (hno id u rfl hs), docket_of_core (core_finish _ id _ _), docket_abandon]
      exact docket_of_core (core_floorTo w id)
  · by_cases hcall : ∃ r, m = .call r
    · obtain ⟨r, rfl⟩ := hcall
      simp only [World.move]
      split <;> rfl
    · exact docket_of_core (outside_move w (fun id e => hturn ⟨id, e⟩) fun r e => hcall ⟨r, e⟩).1

/-- what every effect keeps a move keeps -/
theorem kept_move {J : Core → (TaskId → Stake) → Prop} (hw : Wf w) (m : Move)
    (step : ∀ E c st i c' s', J c st → Effect E c (st i) c' s' → J c' (Function.update st i s')) (h : J w.core w.stakes) :
    J (w.move m).core (w.move m).stakes := by
  obtain ⟨id, hs⟩ := move_served hw m
  obtain ⟨s', he, hst⟩ := hs.effects
  rw [hst]
  exact he.induction (step _) h

theorem Requests.overtakes (hw : Wf w) (h : Requests w m k) (hq : q < w.nextQuery) : (w.move m).core.Past k q := by
  obtain ⟨id, u, p, rfl, hs, hc, hp, rfl⟩ := h
  have hr := ruling_serve hw hs hc
  rw [hp] at hr
  exact past_iff.2 (hr.overtakes hq)

/-! ### A reconciliation that is past -/

/-- with the lock, it ends at once -/
theorem stepRefresh_of_past (hp : w.core.Past p.key q) (hτ : w.turns.holds τ = true) :
    w.stepRefresh (.queued p q τ) = (w.giveBack τ, .ended (.ok false)) := by
  simp only [World.stepRefresh, if_pos hτ]
  unfold World.enterRefresh
  cases he : w.entry? p with
  | none => rfl
  | some e =>
    have hq : e.pendingQuery ≠ some q := fun hq =>
      absurd (hp.2 q ((Core.query?_of_get? (c := w.core) he).trans hq)) (lt_irrefl q)
    dsimp only
    rw [if_pos hq]

/-- the entries as the protocol sees them -/
def World.bares (w : World) (k : Path.Key) : Option Entry := (w.entries.get? k).map Entry.bare

theorem bares_of_core (h : w'.core = w.core) : w'.bares = w.bares :=
  congrArg (fun (c : Core) (k : Path.Key) => (c.entries.get? k).map Entry.bare) h

theorem bares_endSeat (w : World) (seat : Seat) : (w.endSeat seat).bares = w.bares := by
  funext k
  simp only [World.bares, World.endSeat, World.give, World.wake, World.modifyEntry, Table.get?_modify]
  split
  · cases w.entries.get? k with
    | none => rfl
    | some e =>
      simp only [Option.map_some, Option.some.injEq]
      split <;> rfl
  · rfl

/-- what a section has left alone if it has come to nothing -/
structure Idle (w w' : World) : Prop where
  disk : w'.disk = w.disk
  channels : w'.channels = w.channels
  bares : w'.bares = w.bares

theorem Idle.refl (w : World) : Idle w w := ⟨rfl, rfl, rfl⟩

theorem Idle.trans {w₁ w₂ : World} (h : Idle w w₁) (h' : Idle w₁ w₂) : Idle w w₂ :=
  ⟨h'.disk.trans h.disk, h'.channels.trans h.channels, h'.bares.trans h.bares⟩

theorem idle_giveBack (w : World) (τ : Turn) : Idle w (w.giveBack τ) where
  disk := (aside_giveBack w τ).disk
  channels := congrArg Front.channels (front_giveBack w τ)
  bares := by
    funext k
    rw [World.bares, (aside_giveBack w τ).entries, World.bares]

theorem idle_floorTo (w : World) (id : TaskId) : Idle w (floorTo w id) where
  disk := disk_floorTo w id
  channels := congrArg Front.channels (front_floorTo w id)
  bares := bares_of_core (core_floorTo w id)

theorem idle_abandonSeat (w : World) (seat : Seat) : Idle w (w.abandonSeat seat) where
  disk := by
    unfold World.abandonSeat World.inBackground
    split <;> rfl
  channels := by
    have h := congrArg Front.channels ((front_inBackground (w.endSeat seat) (.release seat.path)).trans
      (front_endSeat w seat))
    exact h
  bares := by
    have h : (w.abandonSeat seat).bares = (w.endSeat seat).bares :=
      bares_of_core (core_inBackground (w.endSeat seat) (.release seat.path))
    rw [h, bares_endSeat]

/-- a reconciliation that is past waits, or has the lock and ends -/
theorem idle_step_of_past (hp : w.core.Past p.key q) (ha : a.refresh? = some (.queued p q τ)) : Idle w (w.step a).1 := by
  have hrun : w.stepRefresh (.queued p q τ) = (w, .wait (.queued p q τ)) ∨
      w.stepRefresh (.queued p q τ) = (w.giveBack τ, .ended (.ok false)) := by
    by_cases hτ : w.turns.holds τ = true
    · exact Or.inr (stepRefresh_of_past hp hτ)
    · exact Or.inl (by simp only [World.stepRefresh, if_neg hτ])
  cases a <;> cases ha
  · rcases hrun with h | h
    · simp only [World.step, h]
      exact .refl _
    · simp only [World.step, h]
      exact idle_giveBack _ τ
  · rcases hrun with h | h
    · simp only [World.step, World.stepSynchronizing, h]
      exact .refl _
    · simp only [World.step, World.stepSynchronizing, h]
      exact idle_giveBack _ τ

theorem idle_abandon_of_queued (w : World) (ha : a.refresh? = some (.queued p q τ)) : Idle w (w.abandon a) := by
  cases a <;> cases ha
  · exact idle_giveBack _ τ
  · exact (idle_giveBack _ τ).trans (idle_abandonSeat _ _)

/-- **The sections of a reconciliation that is past come to nothing**, until it has ended. -/
theorem idle_of_past (hp : w.core.Past p.key q) (hr : w.Refreshes id (.queued p q τ)) : Idle w (serve w id) := by
  obtain ⟨ph, hph, hq⟩ := hr
  by_cases hgo : canGo w id = true
  · obtain ⟨u, hs, rfl⟩ := served?_of_phase hgo hph
    cases hc : u.cancelled with
    | false =>
      obtain ⟨hcore, hdisk⟩ := core_serve_of_section hs hc
      have hpast : (floorTo w id).core.Past p.key q := (core_floorTo w id).symm ▸ hp
      have hstep := idle_step_of_past hpast hq
      refine (idle_floorTo w id).trans ⟨hdisk.trans hstep.disk, ?_, ?_⟩
      · exact (congrArg Front.channels (front_serve hs hc)).trans hstep.channels
      · rw [← hstep.bares]
        exact bares_of_core hcore
    | true =>
      have hwithout : Idle w ((floorTo w id).without id) := (idle_floorTo w id).trans ⟨rfl, rfl, rfl⟩
      rw [serve_of_cancelled hs hc]
      refine (hwithout.trans (idle_abandon_of_queued _ hq)).trans ⟨disk_finish _ id _ _, ?_, ?_⟩
      · exact congrArg Front.channels (front_finish _ id _ _)
      · exact bares_of_core (core_finish _ id _ _)
  · rw [serve, if_neg hgo]
    exact .refl w

/-! ### A reconciliation that is pending -/

/-- with the lock, the reconciliation that is pending begins to look at the file -/
theorem stepRefresh_of_pending (he : w.entry? p = some e) (hq : e.pendingQuery = some q) (hτ : w.turns.holds τ = true) :
    w.stepRefresh (.queued p q τ) = (w.setEntry p { e with
      pendingQuery := none, pendingSignal := none, runningSignal := e.pendingSignal }).beginCall .stat p
        (.looking ⟨p, τ, e.pendingSignal, e.contents.isSome, e.modified⟩) := by
  simp only [World.stepRefresh, if_pos hτ, World.enterRefresh, he, hq, ne_eq, not_true_eq_false, if_false]

/-- only the one that is pending does -/
theorem pending_of_stepRefresh {l : Look} {c : Call} (h : (w.stepRefresh (.queued p q τ)).2.next = some (.looking l c)) :
    ∃ e, w.entry? p = some e ∧ e.pendingQuery = some q ∧ w.turns.holds τ = true := by
  simp only [World.stepRefresh] at h
  split at h
  · rename_i hτ
    unfold World.enterRefresh at h
    cases he : w.entry? p with
    | none =>
      rw [he] at h
      cases h
    | some e =>
      rw [he] at h
      dsimp only at h
      split at h
      · cases h
      · rename_i hq
        exact ⟨e, rfl, not_not.1 hq, hτ⟩
  · cases h

theorem callCount_beginCall (w : World) (op : DiskOp) (p : Path) (k : Call → σ) :
    (w.beginCall (α := α) op p k).1.disk.callCount op p = w.disk.callCount op p + 1 := by
  rw [disk_beginCall]
  exact Disk.callCount_enter w.disk op p

/-- a section of a task that carries out a reconciliation is a section of the reconciliation, unless that ends -/
theorem step_of_refresh {r : Refresh} (ha : a.refresh? = some r) (h : ∀ x, (w.stepRefresh r).2 ≠ .ended x) :
    (w.step a).1 = (w.stepRefresh r).1 ∧ (w.step a).2.next.bind Activity.refresh? = (w.stepRefresh r).2.next := by
  cases a with
  | refreshing r' =>
    cases ha
    simp only [World.step, fst_ofPart, next_ofPart, true_and]
    cases (w.stepRefresh r).2.next <;> rfl
  | synchronizing seat r' =>
    cases ha
    simp only [World.step, World.stepSynchronizing]
    rcases hx : w.stepRefresh r with ⟨w₁, x | x | x | x⟩
    · exact ⟨rfl, rfl⟩
    · exact ⟨rfl, rfl⟩
    · exact ⟨rfl, rfl⟩
    · exact absurd (congrArg Prod.snd hx) (h x)
  | _ => cases ha

/-- a task whose reconciliation ends goes on without one -/
theorem refresh?_of_ended {r : Refresh} {x : Refreshed} (ha : a.refresh? = some r) (h : (w.stepRefresh r).2 = .ended x) :
    (w.step a).2.next.bind Activity.refresh? = none := by
  cases a with
  | refreshing r' =>
    cases ha
    simp only [World.step, next_ofPart, h]
    rfl
  | synchronizing seat r' =>
    cases ha
    simp only [World.step, World.stepSynchronizing]
    rcases hx : w.stepRefresh r with ⟨w₁, y | y | y | y⟩ <;> rw [hx] at h <;> cases h
    cases x with
    | ok b => rfl
    | error e => rcases next_releasePlace w₁ seat.path (.failed seat e) with h | h <;> simp only [h] <;> rfl
  | _ => cases ha

theorem refreshes_serve (hw : Wf w) (hs : w.served? id = some u) (hc : u.cancelled = false) {r : Refresh} :
    (serve w id).Refreshes id r ↔ ((floorTo w id).step u.phase.activity).2.next.bind Activity.refresh? = some r := by
  rw [World.Refreshes, phase?_serve hw hs hc]
  cases ((floorTo w id).step u.phase.activity).2.next with
  | none => simp
  | some b => simp

/-- **The reconciliation that is pending looks at the file when it gets the lock.** -/
theorem enters_of_pending (hw : Wf w) (hs : w.served? id = some u) (hc : u.cancelled = false)
    (ha : u.phase.activity.refresh? = some (.queued p q τ)) (hτ : w.turns.holds τ = true)
    (hq : w.core.query? p.key = some q) :
    Enters w (.turn id) id p q ∧ (w.move (.turn id)).disk.callCount .stat p = w.disk.callCount .stat p + 1 := by
  rw [← core_floorTo w id] at hq
  obtain ⟨e, he, hpend⟩ := Option.bind_eq_some_iff.1 hq
  have hturns : (floorTo w id).turns = w.turns := congrArg Core.turns (core_floorTo w id)
  have hrun := stepRefresh_of_pending (w := floorTo w id) (p := p) he hpend (hturns.symm ▸ hτ)
  obtain ⟨c, hnext⟩ := next_beginCall (α := Refreshed) ((floorTo w id).setEntry p { e with
    pendingQuery := none, pendingSignal := none, runningSignal := e.pendingSignal }) .stat p
    (Refresh.looking ⟨p, τ, e.pendingSignal, e.contents.isSome, e.modified⟩)
  rw [← hrun] at hnext
  obtain ⟨hworld, hrefresh⟩ := step_of_refresh (w := floorTo w id) ha fun x hx => by
    rw [hx] at hnext
    cases hnext
  refine ⟨⟨τ, _, c, rfl, ⟨_, phase?_of_served hs, ha⟩, (refreshes_serve hw hs hc).2 (hrefresh.trans hnext), rfl, rfl⟩, ?_⟩
  rw [World.move, (core_serve_of_section hs hc).2, hworld, hrun, callCount_beginCall]
  exact congrArg (·.callCount .stat p + 1) (disk_floorTo w id)

/-- whoever looks at the file was pending, and nothing is pending then -/
theorem Enters.pending (hw : Wf w) (h : Enters w m id p q) :
    w.core.query? p.key = some q ∧ (w.move m).core.query? p.key = none := by
  obtain ⟨τ, l, c, rfl, ⟨ph, hph, ha⟩, hlook, -⟩ := h
  rw [World.move] at hlook ⊢
  cases hs : w.served? id with
  | none =>
    obtain ⟨ph', hph', ha'⟩ := hlook
    cases ((phase?_serve_of_nobody hs id).symm.trans hph').symm.trans hph
    cases ha.symm.trans ha'
  | some u =>
    cases (phase?_of_served hs).symm.trans hph
    cases hc : u.cancelled with
    | true =>
      obtain ⟨ph', hph', -⟩ := hlook
      cases (phase?_serve_of_cancelled hw hs hc).symm.trans hph'
    | false =>
      rw [refreshes_serve hw hs hc] at hlook
      have hrun : ∀ x, ((floorTo w id).stepRefresh (.queued p q τ)).2 ≠ .ended x := fun x hx => by
        cases (refresh?_of_ended ha hx).symm.trans hlook
      obtain ⟨hworld, hrefresh⟩ := step_of_refresh ha hrun
      obtain ⟨e, he, hpend, hτ⟩ := pending_of_stepRefresh (hrefresh.symm.trans hlook)
      constructor
      · rw [← core_floorTo w id]
        exact (Core.query?_of_get? (c := (floorTo w id).core) he).trans hpend
      · rw [(core_serve_of_section hs hc).1, hworld, stepRefresh_of_pending he hpend hτ, core_beginCall]
        exact Core.query?_of_get? (e := { e with
          pendingQuery := none, pendingSignal := none, runningSignal := e.pendingSignal })
            (by simp [World.setEntry, World.core, Table.get?_insert])

/-! ## Along a run -/

/-- a reconciliation in line was in line before, or has just been requested, with a new number and a new turn -/
theorem Effect.query_new {E : Mark → Prop} {c c' : Core} {s s' : Stake} (h : Effect E c s c' s')
    (hs : s'.errand = .query p q τ) : s.errand = .query p q τ ∨ q = c.nextQuery ∧ τ.id = c.turns.nextTurn := by
  cases h with
  | ask p' =>
    cases hs
    exact Or.inr ⟨rfl, Turns.enlist_id _ _⟩
  | _ => first | exact Or.inl hs | cases hs

theorem Effects.query_new {E : Mark → Prop} {c c' : Core} {s s' : Stake} (h : Effects E c s c' s') :
    c.nextQuery ≤ c'.nextQuery ∧
      (s'.errand = .query p q τ → s.errand = .query p q τ ∨ c.nextQuery ≤ q ∧ c.turns.nextTurn ≤ τ.id) := by
  induction h with
  | refl => exact ⟨le_rfl, Or.inl⟩
  | tail h he ih =>
    refine ⟨ih.1.trans he.nextQuery, fun hs => ?_⟩
    rcases he.query_new hs with hs | ⟨rfl, hτ⟩
    · exact ih.2 hs
    · exact Or.inr ⟨ih.1, h.turn_fresh.1.trans_eq hτ.symm⟩

theorem query_move (hw : Wf w) (m : Move) : w.nextQuery ≤ (w.move m).nextQuery ∧ ((w.move m).Refreshes id (.queued p q τ) →
    w.Refreshes id (.queued p q τ) ∨ w.nextQuery ≤ q ∧ w.turns.nextTurn ≤ τ.id) := by
  obtain ⟨i, hs⟩ := move_served hw m
  obtain ⟨s', he, hst⟩ := hs.effects
  refine ⟨(he.query_new (p := p) (q := q) (τ := τ)).1, fun h => ?_⟩
  have hquery := errand_of_refreshes h
  rw [hst] at hquery
  by_cases hid : id = i
  · subst hid
    rw [Function.update_self] at hquery
    exact (he.query_new.2 hquery).imp_left refreshes_of_query
  · rw [Function.update_of_ne hid] at hquery
    exact Or.inl (refreshes_of_query hquery)

/-- a reconciliation that has just been requested is pending -/
theorem pending_of_asked (hw : Wf w) (hn : Counted (w.move m).core (w.move m).stakes) (ha : ¬ w.Refreshes id (.queued p q τ))
    (ha' : (w.move m).Refreshes id (.queued p q τ)) : (w.move m).core.query? p.key = some q := by
  have hle : w.nextQuery ≤ q := (((query_move hw m).2 ha').resolve_left ha).1
  have hlt : q < (w.move m).nextQuery := hn.fresh id p q τ (errand_of_refreshes ha')
  have hnew : (w.move m).docket.next ≠ w.docket.next := fun h => absurd (hle.trans_lt (hlt.trans_eq h)) (lt_irrefl _)
  rcases section_or_not w m with ⟨i, u, rfl, hs, hc⟩ | hno
  · have hrule := ruling_serve hw hs hc
    generalize (floorTo w i).requests? u.phase.activity = r at hrule
    cases hrule with
    | request p' τ' hd hnext =>
      have hid : id = i := by
        by_contra hne
        rcases phase?_newcomer (m := .turn i) hw (serves_of_ne hne) with hsame | ⟨-, hfresh⟩
        · obtain ⟨ph, hph, hr⟩ := ha'
          exact ha ⟨ph, hsame.symm.trans hph, hr⟩
        · obtain ⟨ph, hph, hr⟩ := ha'
          rcases (hfresh ph hph).cases with ⟨r, hact, -⟩ | ⟨_, _, hact⟩ | ⟨_, hact⟩ <;> rw [hact] at hr <;> cases hr
      subst hid
      obtain ⟨ph, hph, hr⟩ := ha'
      have hph : (serve w id).tasks.phase? id = some ph := hph
      rw [hph, Option.map_some, Option.bind_some, hr] at hnext
      cases hnext
      rw [query?_eq_some, World.move, hd]
      exact (Docket.pending?_put w.docket p.key p.key _).trans (if_pos rfl)
    | same hd => exact absurd (congrArg Docket.next hd) hnew
    | untracked _ _ hd => exact absurd (congrArg Docket.next hd) hnew
    | revoke _ _ hd => exact absurd (congrArg Docket.next hd) hnew
    | enter _ _ _ _ _ _ _ _ hd => exact absurd (congrArg Docket.next hd) hnew
    | vacate _ _ hd => exact absurd (congrArg Docket.next hd) hnew
    | clear hd => exact absurd (congrArg Docket.next hd) hnew
  · exact absurd (congrArg Docket.next (docket_of_no_section hno)) hnew

/-- Where nobody requests an operation, the reconciliation that is pending stays so as long as it is in line, or the entry is
gone. -/
theorem pending_move (hw : Wf w) (hn : Counted w.core w.stakes) (ha : w.Refreshes id (.queued p q τ))
    (ha' : (w.move m).Refreshes id (.queued p q τ)) (hm : ¬ Requests w m p.key)
    (hp : w.docket.pending? p.key = some (some q) ∨ w.docket.pending? p.key = none) :
    (w.move m).docket.pending? p.key = some (some q) ∨ (w.move m).docket.pending? p.key = none := by
  have hput : ∀ {k : Path.Key} {x : Option (Option QueryId)}, p.key ≠ k →
      (w.docket.put k x).pending? p.key = w.docket.pending? p.key := fun {k x} hne => by
    rw [Docket.pending?_put, if_neg hne]
  rcases section_or_not w m with ⟨i, u, rfl, hs, hc⟩ | hno
  · have hreq : ∀ p', (floorTo w i).requests? u.phase.activity = some p' → p.key ≠ p'.key := fun p' h hk =>
      hm ⟨i, u, p', rfl, hs, hc, h, hk.symm⟩
    have hrule := ruling_serve hw hs hc
    rw [World.move]
    generalize hr : (floorTo w i).requests? u.phase.activity = r at hrule
    cases hrule with
    | same hd => rwa [hd]
    | untracked _ _ hd => rwa [hd]
    | request p' _ hd _ =>
      have h := hput (x := some (some w.docket.next)) (hreq p' hr)
      rw [hd]
      exact (congrArg (fun x => x = some (some q) ∨ x = none) h).mpr hp
    | revoke p' _ hd =>
      rw [hd, hput (hreq p' hr)]
      exact hp
    | enter p' q' τ' l c hact hτ hpend hd hnext =>
      by_cases hk : p.key = p'.key
      · rw [← hk] at hpend
        have hqq : q' = q := by
          rcases hp with hp | hp <;> cases hp.symm.trans hpend
          rfl
        subst hqq
        have hi : (w.stakes i).errand = .query p' q' τ' := by
          rw [stakes_of_served hs, Activity.errand_of_refresh hact]
          rfl
        cases hn.unique id i p p' q' τ τ' (errand_of_refreshes ha) hi
        -- it would be in line no more
        obtain ⟨ph, hph, hr⟩ := ha'
        have hph : (serve w id).tasks.phase? id = some ph := hph
        rw [hph, Option.map_some, Option.bind_some, hr] at hnext
        cases hnext
      · rw [hd, hput hk]
        exact hp
    | vacate p' hidle hd =>
      by_cases hk : p.key = p'.key
      · have hbusy := hw.sound.not_idle (i := id) (τ := τ) (p := p) (by rw [errand_of_refreshes ha]; rfl)
          (by rw [errand_of_refreshes ha]; rfl)
        rw [hk] at hbusy
        cases hidle.symm.trans hbusy
      · rw [hd, hput hk]
        exact hp
    | clear hd => exact Or.inr (by rw [hd])
  · rwa [docket_of_no_section hno]

theorem refreshes_not_requests {r : Refresh} (ha : a.refresh? = some r) : w.requests? a = none := by
  cases a <;> cases ha <;> rfl

/-- whoever is in line stays there when somebody else requests an operation -/
theorem Requests.queued (hw : Wf w) (h : Requests w m k) (ha : w.Refreshes id (.queued p q τ)) :
    (w.move m).Refreshes id (.queued p q τ) := by
  obtain ⟨i, u, p', rfl, hs, hc, hreq, -⟩ := h
  obtain ⟨ph, hph, hr⟩ := ha
  have hne : id ≠ i := by
    rintro rfl
    cases (phase?_of_served hs).symm.trans hph
    cases (refreshes_not_requests hr).symm.trans hreq
  exact ⟨ph, phase?_kept hw (serves_of_ne hne) hph, hr⟩

/-- A reconciliation in line for the lock of a path has been overtaken by a later request. -/
structure World.Superseded (w : World) (a : TaskId) (p : Path) (q : QueryId) (τ : Turn) : Prop where
  /-- it does not get beyond the line -/
  outside : ∀ r l, w.Refreshes a r → r.look? = some l → l.turn ≠ τ
  /-- as long as it is in line, its sections come to nothing -/
  idle : w.Refreshes a (.queued p q τ) → Idle w (serve w a)
  /-- it waits for nothing but the lock -/
  waits : w.Refreshes a (.queued p q τ) → a ∈ w.tasks.ready ∨ w.tasks.floor = some a ∨
    ∃ b σ, b ≠ a ∧ w.HasLock b σ ∧ σ.key = p.key
  /-- with the lock it ends and has changed nothing; a call to watch goes on from there -/
  ends : ∀ u, w.served? a = some u → u.cancelled = false → u.phase.activity.refresh? = some (.queued p q τ) →
    w.turns.holds τ = true →
    u.phase.activity = .refreshing (.queued p q τ) ∧
        ((floorTo w a).step u.phase.activity).2 = .ended (.ok (.flag false)) ∨
      ∃ seat, u.phase.activity = .synchronizing seat (.queued p q τ) ∧
        ((floorTo w a).step u.phase.activity).2 = .go (.settling seat none)

theorem Stale.superseded (hw : Wf w) (h : Stale w.core w.stakes id p q τ) : w.Superseded id p q τ where
  outside r l hr hl hτ := by
    have herrand := errand_of_refreshes hr
    have hturn : (w.stakes id).errand.turn? = some τ := by
      rw [herrand]
      cases r <;> cases hl <;> exact congrArg some hτ
    rw [h.inLine hturn] at herrand
    cases r <;> cases hl <;> cases herrand
  idle := idle_of_past h.past
  waits hr := by
    have hheld : held w.stakes id = some τ := by
      rw [held, errand_of_refreshes hr]
      rfl
    have hkey : τ.key = p.key :=
      hw.sound.keyed id τ (by rw [errand_of_refreshes hr]; rfl) p (by rw [errand_of_refreshes hr]; rfl)
    obtain ⟨ph, hph, hq⟩ := hr
    refine (hw.woken id ph hph).imp_right fun h => h.imp_right fun hwait => ?_
    have hnot : w.turns.holds τ = false := by
      refine hwait.turn τ ?_ ?_
      · rw [← stakes_of_phase hph]
        exact hheld
      · cases ha : ph.activity <;> rw [ha] at hq <;> cases hq <;> rfl
    obtain ⟨b, σ, hb, hk, hσ⟩ := hw.sound.turns.exists_holds hheld
    refine ⟨b, σ, ?_, ⟨hb, hσ⟩, hk.trans hkey⟩
    rintro rfl
    cases hb.symm.trans hheld
    cases hσ.symm.trans hnot
  ends u hs hc ha hτ := by
    have hturns : (floorTo w id).turns = w.turns := congrArg Core.turns (core_floorTo w id)
    have hrun := stepRefresh_of_past (w := floorTo w id) ((core_floorTo w id).symm ▸ h.past) (hturns.symm ▸ hτ)
    cases hact : u.phase.activity <;> rw [hact] at ha <;> cases ha
    · refine Or.inl ⟨rfl, ?_⟩
      simp only [World.step, hrun]
      rfl
    · refine Or.inr ⟨_, rfl, ?_⟩
      simp only [World.step, World.stepSynchronizing, hrun]

/-- What becomes of the reconciliations of a path in a run. -/
structure Suppresses (w : World) (moves : Nat → Move) : Prop where
  /-- one that is in line when another operation is requested is superseded for good -/
  superseded : ∀ n n' a p q τ, n < n' → Requests (w.trace moves n) (moves n) p.key →
    (w.trace moves n).Refreshes a (.queued p q τ) → (w.trace moves n').Superseded a p q τ
  /-- one after which no other operation has been requested looks at the file when it gets the lock, if its entry is there -/
  current : ∀ i n a p q τ u, i < n → Asks (w.trace moves i) (moves i) a τ →
    (∀ j, i < j → j < n → ¬ Requests (w.trace moves j) (moves j) p.key) → (w.trace moves n).served? a = some u →
    u.cancelled = false → u.phase.activity.refresh? = some (.queued p q τ) → (w.trace moves n).turns.holds τ = true →
    (w.trace moves n).isTracked p = true →
    Enters (w.trace moves n) (.turn a) a p q ∧
      ((w.trace moves n).move (.turn a)).disk.callCount .stat p = (w.trace moves n).disk.callCount .stat p + 1
  /-- numbers are given in the order of requests -/
  ordered : ∀ i j a b p p' q q' τ τ', i < j → Asks (w.trace moves i) (moves i) a τ → Asks (w.trace moves j) (moves j) b τ' →
    (w.trace moves (i + 1)).Refreshes a (.queued p q τ) → (w.trace moves (j + 1)).Refreshes b (.queued p' q' τ') → q < q'
  /-- of those in line at one time only the last can come to look at the file -/
  last : ∀ n n' a b p p' q q' τ τ', n ≤ n' → (w.trace moves n).Refreshes a (.queued p q τ) →
    (w.trace moves n).Refreshes b (.queued p' q' τ') → p'.key = p.key → Enters (w.trace moves n') (moves n') a p q → q' ≤ q
  /-- the numbers of those that look at the file rise, whatever becomes of the entry -/
  rising : ∀ i j a b p p' q q', i < j → p'.key = p.key → Enters (w.trace moves i) (moves i) a p q →
    Enters (w.trace moves j) (moves j) b p' q' → q < q'

section Trace

variable {policy : WritePolicy} {moves : Nat → Move} {n n' : Nat}

theorem trailing_trace (policy : WritePolicy) (moves : Nat → Move) (n : Nat) :
    Counted ((World.start policy).trace moves n).core ((World.start policy).trace moves n).stakes ∧
      Trailing ((World.start policy).trace moves n).core ((World.start policy).trace moves n).stakes :=
  trace_induction (J := fun c st => Counted c st ∧ Trailing c st) (N := fun _ => False) (fun _ _ _ h => h)
    ⟨(proper_start policy).counted, fun _ _ _ _ _ h => by cases h⟩
    (fun _ _ _ _ _ _ _ h he => ⟨counted_effect h.1 he, trailing_effect h.1 h.2 he⟩) n

/-- what every effect keeps stays so from some state on -/
theorem kept_trace {J : Core → (TaskId → Stake) → Prop} (hnn : n ≤ n')
    (step : ∀ E c st i c' s', J c st → Effect E c (st i) c' s' → J c' (Function.update st i s'))
    (h : J ((World.start policy).trace moves n).core ((World.start policy).trace moves n).stakes) :
    J ((World.start policy).trace moves n').core ((World.start policy).trace moves n').stakes := by
  induction n', hnn using Nat.le_induction with
  | base => exact h
  | succ l _ ih => exact kept_move (reachable_trace policy moves l).wf (moves l) step ih

theorem past_trace (hnn : n ≤ n') (h : ((World.start policy).trace moves n).core.Past k q) :
    ((World.start policy).trace moves n').core.Past k q :=
  kept_trace (J := fun c _ => c.Past k q) hnn (fun _ _ _ _ _ _ h he => past_effect h he) h

theorem nextQuery_trace (hnn : n ≤ n') :
    ((World.start policy).trace moves n).nextQuery ≤ ((World.start policy).trace moves n').nextQuery :=
  kept_trace (J := fun c _ => ((World.start policy).trace moves n).nextQuery ≤ c.nextQuery) hnn
    (fun _ _ _ _ _ _ h he => h.trans he.nextQuery) le_rfl

/-- a reconciliation in line was in line ever since it got its turn -/
theorem queued_trace (hnn : n ≤ n') (h : ((World.start policy).trace moves n').Refreshes id (.queued p q τ))
    (hτ : τ.id < ((World.start policy).trace moves n).turns.nextTurn) :
    ((World.start policy).trace moves n).Refreshes id (.queued p q τ) := by
  induction n', hnn using Nat.le_induction with
  | base => exact h
  | succ l hl ih =>
    rcases (query_move (reachable_trace policy moves l).wf (moves l)).2 h with h | ⟨-, h⟩
    · exact ih h
    · exact absurd (hτ.trans_le ((nextTurn_trace hl).trans h)) (lt_irrefl _)

/-- nobody is in line with a turn that it asks for now -/
theorem Asks.not_queued (h : Asks w m id τ) : ¬ w.Refreshes id (.queued p q τ) := fun hr =>
  h.1 (by rw [World.HasTurn, held, errand_of_refreshes hr]; rfl)

theorem superseded_trace (hnn : n < n')
    (hreq : Requests ((World.start policy).trace moves n) (moves n) p.key)
    (ha : ((World.start policy).trace moves n).Refreshes id (.queued p q τ)) :
    ((World.start policy).trace moves n').Superseded id p q τ := by
  have hw := (reachable_trace policy moves n).wf
  have hquery := errand_of_refreshes ha
  have hq : q < ((World.start policy).trace moves n).nextQuery := (trailing_trace policy moves n).1.fresh id p q τ hquery
  have hafter := errand_of_refreshes (hreq.queued hw ha)
  have hturn : held ((World.start policy).trace moves (n + 1)).stakes id = some τ := congrArg Errand.turn? hafter
  have hstale : Stale ((World.start policy).trace moves (n + 1)).core ((World.start policy).trace moves (n + 1)).stakes
      id p q τ :=
    ⟨hreq.overtakes hw hq, (reachable_trace policy moves (n + 1)).wf.sound.turns.fresh id τ hturn, fun _ => hafter⟩
  exact (kept_trace (J := fun c st => Stale c st id p q τ) hnn (fun _ _ _ _ _ _ h he => stale_effect h he) hstale).superseded
    (reachable_trace policy moves n').wf

/-- as long as nobody requests an operation, what has been requested last is pending -/
theorem pending_trace {i : Nat} (hin : i < n) (hask : Asks ((World.start policy).trace moves i) (moves i) id τ)
    (hno : ∀ j, i < j → j < n → ¬ Requests ((World.start policy).trace moves j) (moves j) p.key)
    (ha : ((World.start policy).trace moves n).Refreshes id (.queued p q τ)) :
    ((World.start policy).trace moves n).docket.pending? p.key = some (some q) ∨
      ((World.start policy).trace moves n).docket.pending? p.key = none := by
  -- it was in line in all states since it was requested
  have hknown := (hask.fresh (reachable_trace policy moves i).wf).2
  have hline : ∀ j, i < j → j ≤ n → ((World.start policy).trace moves j).Refreshes id (.queued p q τ) := fun j hj hjn =>
    queued_trace hjn ha (hknown.trans_le (nextTurn_trace hj))
  clear ha
  induction n, hin using Nat.le_induction with
  | base =>
    exact Or.inl (query?_eq_some.1 (pending_of_asked (reachable_trace policy moves i).wf
      (trailing_trace policy moves (i + 1)).1 hask.not_queued (hline _ (Nat.lt_succ_self i) le_rfl)))
  | succ l hl ih =>
    exact pending_move (reachable_trace policy moves l).wf (trailing_trace policy moves l).1 (hline l hl (Nat.le_succ l))
      (hline (l + 1) (Nat.lt_succ_of_lt hl) le_rfl) (hno l hl (Nat.lt_succ_self l))
      (ih (fun j h1 h2 => hno j h1 (h2.trans (Nat.lt_succ_self l))) fun j h1 h2 => hline j h1 (h2.trans (Nat.le_succ l)))

/-- **Which reconciliations change the entry of a path**, in every run. -/
theorem suppresses_trace (policy : WritePolicy) (moves : Nat → Move) : Suppresses (World.start policy) moves where
  superseded n n' a p q τ hnn hreq ha := superseded_trace hnn hreq ha
  current i n a p q τ u hin hask hno hs hc ha hτ htracked := by
    have hline : ((World.start policy).trace moves n).Refreshes a (.queued p q τ) := ⟨_, phase?_of_served hs, ha⟩
    refine enters_of_pending (reachable_trace policy moves n).wf hs hc ha hτ (query?_eq_some.2 ?_)
    refine (pending_trace hin hask hno hline).resolve_right fun hgone => ?_
    obtain ⟨e, he⟩ := get?_of_contains htracked
    cases (pending?_of_present he).symm.trans hgone
  ordered i j a b p p' q q' τ τ' hij ha hb hla hlb := by
    have hlt : q < ((World.start policy).trace moves (i + 1)).nextQuery :=
      (trailing_trace policy moves (i + 1)).1.fresh a p q τ (errand_of_refreshes hla)
    have hge := (((query_move (reachable_trace policy moves j).wf (moves j)).2 hlb).resolve_left hb.not_queued).1
    exact hlt.trans_le ((nextQuery_trace hij).trans hge)
  last n n' a b p p' q q' τ τ' hnn ha hb hk henter := by
    by_contra hlt
    have htrail := trailing_trace policy moves n
    have hpast : ((World.start policy).trace moves n).core.Past p.key q :=
      ⟨htrail.1.fresh a p q τ (errand_of_refreshes ha), fun q'' hq'' =>
        (not_le.1 hlt).trans_le (htrail.2 b p' q' τ' q'' (errand_of_refreshes hb) (hk.symm ▸ hq''))⟩
    have hpending := (henter.pending (reachable_trace policy moves n').wf).1
    exact lt_irrefl q ((past_trace hnn hpast).2 q hpending)
  rising i j a b p p' q q' hij hk ha hb := by
    have hwi := (reachable_trace policy moves i).wf
    obtain ⟨τ, -, -, -, hline, -⟩ := id ha
    have hq : q < ((World.start policy).trace moves (i + 1)).nextQuery :=
      ((trailing_trace policy moves i).1.fresh a p q τ (errand_of_refreshes hline)).trans_le (nextQuery_trace (Nat.le_succ i))
    have hpast : ((World.start policy).trace moves (i + 1)).core.Past p.key q :=
      ⟨hq, fun q'' hq'' => by cases (ha.pending hwi).2.symm.trans hq''⟩
    have hpending := (hb.pending (reachable_trace policy moves j).wf).1
    exact (past_trace hij hpast).2 q' (hk ▸ hpending)

end Trace

/-- A watched file is being looked at when two reconciliations are requested, one after the other. -/
def overtakingInLine : List Move :=
  let p : Path := ⟨"/a"⟩
  [Move.newSubscriber, .putFile p ⟨#[49]⟩, .call (.watch p ⟨1⟩)] ++ List.replicate 6 (Move.turn 1) ++
    [Move.turn 2, .hold .stat p, .call (.reconcile p), .turn 3, .turn 3, .call (.reconcile p), .turn 4, .turn 4,
      .call (.reconcile p), .turn 5, .turn 5, .openGate 1, .turn 3, .turn 3, .turn 4, .turn 5, .turn 5]

/-- how many calls to look at a file there have been, and who has found the entry unchanged -/
example : let w := (World.start .allow).trace (along overtakingInLine) 26
    w.disk.callCount .stat ⟨"/a"⟩ = 3 ∧
      w.endings.filterMap (fun x => match x.2 with | .returned (.ok (.flag false)) => some x.1 | _ => none) = [3, 4, 5] := by
  decide +kernel

end LiveFiles.Engine
