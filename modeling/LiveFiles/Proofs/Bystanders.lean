/-
Those who work elsewhere. Whoever works at a path that cannot be seen leaves alone what can be seen (`Resembles`). There is one lemma
for each function of the engine, as there is for sections that are carried out side by side.
- `Resembles.step`, `Resembles.abandon`: a section of a task at such a path, and what the task lets go of when it is cancelled.
- **`Resembles.after_serve`**: so its turn changes nothing that can be seen, nor does that of the pump if it meets an event from elsewhere
  (`Resembles.servePumping`).
- **`Resembles.outside`**: what happens at such a path from outside.
-/
import LiveFiles.Proofs.Bursts
import LiveFiles.Proofs.Elsewhere

namespace LiveFiles.Engine

variable {S T : Scope} {P : Tag → Prop} {θ η : Pairing} {w v : World} {p p' : Path} {l l' : Look} {seat seat' : Seat}
  {job job' : SaveJob} {ts : Tasks Phase}

/-! ## Reconciliations -/

theorem Resembles.endLook (h : Resembles S P θ w v) (hsep : Separate S T P η) (hl : LookAlike T η l l') (r : Refreshed) :
    Resembles S P θ (w.endLook l r).1 v := (h.giveIf hsep hl.signal).giveBack hsep hl.turn

theorem Resembles.conclude (h : Resembles S P θ w v) (hsep : Separate S T P η) (hl : LookAlike T η l l') (o : Observation) :
    Resembles S P θ (w.conclude l o).1 v := by
  unfold World.conclude
  split
  · exact h.endLook hsep hl _
  · rename_i e _
    have hset := (h.setEntry (hsep.path hl.path) (Entry.commit { e with runningSignal := none } o).1).giveIf hsep hl.signal
    refine Resembles.giveBack ?_ hsep hl.turn
    split
    · exact hset.broadcast (by rw [snapshot_path]; exact hsep.path hl.path)
    · exact hset

theorem Resembles.requestRefresh (h : Resembles S P θ w v) (hp : S.seen p.key = false) :
    Resembles S P θ (w.requestRefresh p).1 v := by
  unfold World.requestRefresh
  split
  · exact h
  · obtain ⟨hreserve, hlock⟩ := ((h.beginQuery _).setEntry hp _).reserve hp
    exact hreserve.queueUp hlock

theorem Resembles.enterRefresh (h : Resembles S P θ w v) (hsep : Separate S T P η) (hp : S.seen p.key = false) (q : QueryId)
    {τ τ' : Turn} (hτ : TurnAlike T η τ τ') : Resembles S P θ (w.enterRefresh p q τ).1 v := by
  unfold World.enterRefresh
  split
  · exact h.giveBack hsep hτ
  · split
    · exact h.giveBack hsep hτ
    · exact (h.setEntry hp _).beginCall _ hp _

theorem Resembles.haveLooked (h : Resembles S P θ w v) (hsep : Separate S T P η) (hl : LookAlike T η l l')
    (r : Except Failure (Option FileStat)) : Resembles S P θ (w.haveLooked l r).1 v := by
  unfold World.haveLooked
  split
  · exact h.endLook hsep hl _
  · exact h.conclude hsep hl _
  · split
    · exact h.conclude hsep hl _
    · exact h.beginCall _ (hsep.path hl.path) _

theorem Resembles.haveRead (h : Resembles S P θ w v) (hsep : Separate S T P η) (hl : LookAlike T η l l') (t : Instant)
    (r : Except Failure String) : Resembles S P θ (w.haveRead l t r).1 v := by
  unfold World.haveRead
  split
  · exact h.conclude hsep hl _
  · exact h.beginCall _ (hsep.path hl.path) _

theorem Resembles.haveLookedAgain (h : Resembles S P θ w v) (hsep : Separate S T P η) (hl : LookAlike T η l l') (f : Failure)
    (r : Except Failure (Option FileStat)) : Resembles S P θ (w.haveLookedAgain l f r).1 v := by
  unfold World.haveLookedAgain
  split
  · exact h.endLook hsep hl _
  · exact h.conclude hsep hl _
  · exact h.endLook hsep hl _

theorem Resembles.stepRefresh (h : Resembles S P θ w v) (hsep : Separate S T P η) {r r' : Refresh} (hr : RefreshAlike T η r r') :
    Resembles S P θ (w.stepRefresh r).1 v := by
  cases hr with
  | queued hp hq hτ =>
    unfold World.stepRefresh
    dsimp only
    split
    · exact h.enterRefresh hsep (hsep.path hp) _ hτ
    · exact h
  | looking hl hc =>
    cases hc with
    | held => exact h.atGate _ _
    | due => exact (h.leaveDisk (hsep.path hl.path)).haveLooked hsep hl _
  | reading hl ht hc =>
    cases hc with
    | held => exact h.atGate _ _
    | due => exact (h.leaveDisk (hsep.path hl.path)).haveRead hsep hl _ _
  | lookingAgain hl hf hc =>
    cases hc with
    | held => exact h.atGate _ _
    | due => exact (h.leaveDisk (hsep.path hl.path)).haveLookedAgain hsep hl _ _

theorem Resembles.dropRefresh (h : Resembles S P θ w v) (hsep : Separate S T P η) {r r' : Refresh} (hr : RefreshAlike T η r r') :
    Resembles S P θ (w.dropRefresh r) v := by
  have hlook : ∀ {l l' : Look}, LookAlike T η l l' →
      Resembles S P θ (((w.leaveDisk l.path).giveIf l.signal).giveBack l.turn) v := fun hl =>
    ((h.leaveDisk (hsep.path hl.path)).giveIf hsep hl.signal).giveBack hsep hl.turn
  cases hr with
  | queued hp hq hτ => exact h.giveBack hsep hτ
  | looking hl hc => exact hlook hl
  | reading hl ht hc => exact hlook hl
  | lookingAgain hl hf hc => exact hlook hl

/-! ## Writes -/

theorem Resembles.queueSave (h : Resembles S P θ w v) (hp : S.seen p.key = false) (bytes : ByteArray) (revoked : Bool)
    (o : Option SignalId) : Resembles S P θ (w.queueSave p bytes revoked o).1 v := by
  obtain ⟨hreserve, hlock⟩ := h.reserve hp
  exact hreserve.queueUp hlock

theorem Resembles.requestSave (h : Resembles S P θ w v) (hp : S.seen p.key = false) (bytes : ByteArray) :
    Resembles S P θ (w.requestSave p bytes).1 v := by
  unfold World.requestSave
  split
  · exact h
  · split
    · split
      · exact h
      · exact h.queueSave hp _ _ _
    · exact (h.setEntry hp _).queueSave hp _ _ _

theorem Resembles.failSave (h : Resembles S P θ w v) (hsep : Separate S T P η) (hj : JobAlike T η job job') (e : Problem) :
    Resembles S P θ (w.failSave job e).1 v := by
  have hback := (h.giveBack hsep hj.turn).giveIf hsep hj.waiters
  unfold World.failSave
  dsimp only
  split
  · exact (hback.modifyEntry (hsep.path hj.path) _).inBackground _
  · exact hback

theorem Resembles.commitSave (h : Resembles S P θ w v) (hsep : Separate S T P η) (hj : JobAlike T η job job') (t : Instant) :
    Resembles S P θ (w.commitSave job t).1 v := by
  have hforget : ∀ {x : World}, Resembles S P θ x v →
      Resembles S P θ (if job.revoked then x.forgetRevoked job.path else x) v := by
    intro x hx
    split
    · exact hx.modifyEntry (hsep.path hj.path) _
    · exact hx
  unfold World.commitSave
  refine Resembles.giveBack ?_ hsep hj.turn
  cases w.entry? job.path with
  | none => exact hforget (h.giveIf hsep hj.waiters)
  | some e =>
    have hset := hforget ((h.setEntry (hsep.path hj.path)
      { e with contents := some (Text.Utf8.decodeLossy job.bytes), modified := t }).giveIf hsep hj.waiters)
    exact hset.broadcast (by rw [snapshot_path]; exact hsep.path hj.path)

theorem Resembles.haveWritten (h : Resembles S P θ w v) (hsep : Separate S T P η) (hj : JobAlike T η job job')
    (r : Except Failure Unit) : Resembles S P θ (w.haveWritten job r).1 v := by
  unfold World.haveWritten
  split
  · exact h.failSave hsep hj _
  · exact h.beginCall _ (hsep.path hj.path) _

theorem Resembles.haveLookedUp (h : Resembles S P θ w v) (hsep : Separate S T P η) (hj : JobAlike T η job job')
    (r : Except Failure (Option FileStat)) : Resembles S P θ (w.haveLookedUp job r).1 v := by
  unfold World.haveLookedUp
  split
  · exact h.failSave hsep hj _
  · exact h.failSave hsep hj _
  · exact h.commitSave hsep hj _

theorem Resembles.stepSave (h : Resembles S P θ w v) (hsep : Separate S T P η) {x x' : Save} (hx : SaveAlike T η x x') :
    Resembles S P θ (w.stepSave x).1 v := by
  cases hx with
  | queued hj =>
    unfold World.stepSave
    dsimp only
    split
    · exact h.beginCall _ (hsep.path hj.path) _
    · exact h
  | writing hj hc =>
    cases hc with
    | held => exact h.atGate _ _
    | due => exact ((h.write (hsep.path hj.path) _).leaveDisk (hsep.path hj.path)).haveWritten hsep hj _
  | looking hj hc =>
    cases hc with
    | held => exact h.atGate _ _
    | due => exact (h.leaveDisk (hsep.path hj.path)).haveLookedUp hsep hj _

theorem Resembles.dropSave (h : Resembles S P θ w v) (hsep : Separate S T P η) {x x' : Save} (hx : SaveAlike T η x x') :
    Resembles S P θ (w.dropSave x) v := by
  cases hx with
  | queued hj => exact (h.giveBack hsep hj.turn).giveIf hsep hj.waiters
  | writing hj hc => exact ((h.leaveDisk (hsep.path hj.path)).giveBack hsep hj.turn).giveIf hsep hj.waiters
  | looking hj hc => exact ((h.leaveDisk (hsep.path hj.path)).giveBack hsep hj.turn).giveIf hsep hj.waiters

/-! ## Giving places back -/

theorem Resembles.endSeat (h : Resembles S P θ w v) (hsep : Separate S T P η) (hs : SeatAlike T η seat seat') :
    Resembles S P θ (w.endSeat seat) v :=
  (h.modifyEntry (hsep.path hs.path) _).give (hsep.signal _ _ hs.joined)

/-- a call that has failed held a place which cannot be seen -/
def SeatApart (T : Scope) (η : Pairing) (x : Leaving) : Prop :=
  ∀ seat e, x = .failed seat e → ∃ seat', SeatAlike T η seat seat'

theorem LeavingAlike.apart {x x' : Leaving} (h : LeavingAlike T η x x') : SeatApart T η x := by
  rintro seat e rfl
  cases h with
  | failed hs he => exact ⟨_, hs⟩

theorem Resembles.endLeaving (h : Resembles S P θ w v) (hsep : Separate S T P η) {x : Leaving} (hx : SeatApart T η x) :
    Resembles S P θ (w.endLeaving x).1 v := by
  cases x with
  | unwatched => exact h
  | failed seat e =>
    obtain ⟨seat', hs⟩ := hx seat e rfl
    exact h.endSeat hsep hs
  | abandoned => exact h

theorem Resembles.releasePlace (h : Resembles S P θ w v) (hsep : Separate S T P η) (hp : S.seen p.key = false) {x : Leaving}
    (hx : SeatApart T η x) : Resembles S P θ (w.releasePlace p x).1 v := by
  unfold World.releasePlace
  split
  · exact h.endLeaving hsep hx
  · dsimp only
    split
    · refine Resembles.setEntry ?_ hp _
      split
      · exact h.tell (c := .disarm p) hp
      · exact h
    · exact (h.setEntry hp _).endLeaving hsep hx

theorem Resembles.stepTearingDown (h : Resembles S P θ w v) (hsep : Separate S T P η) (hp : S.seen p.key = false)
    {o o' : Option Turn} (ho : Option.Rel (TurnAlike T η) o o') {x : Leaving} (hx : SeatApart T η x) :
    Resembles S P θ (w.stepTearingDown p o x).1 v := by
  have hidle := h.awaitIdle hsep hp ho
  unfold World.stepTearingDown
  generalize w.awaitIdle p o = y at hidle
  obtain ⟨w', y⟩ := y
  cases y with
  | go | wait | pause => exact hidle
  | ended =>
    dsimp only at hidle ⊢
    split
    · refine Resembles.endLeaving ?_ hsep hx
      split
      · exact hidle.dropEntry hp
      · exact hidle
    · exact hidle.endLeaving hsep hx

/-- whoever listens for subscribers at the path stands for none -/
def ListenersApart (θ : Pairing) (w : World) (p : Path) : Prop :=
  ∀ e x r id, w.entry? p = some e → e.registered.get? x = some r → r.listener = some id → (w.tasks.live.get? id).isSome →
    ∀ b, ¬θ.on .task id b

theorem Resembles.cancelIf (h : Resembles S P θ w v) {o : Option TaskId}
    (ho : ∀ id, o = some id → (w.tasks.live.get? id).isSome → ∀ b, ¬θ.on .task id b) : Resembles S P θ (w.cancelIf o) v := by
  cases o with
  | none => exact h
  | some id => exact h.cancel (ho id rfl)

theorem Resembles.unwatch (h : Resembles S P θ w v) (hsep : Separate S T P η) (hp : S.seen p.key = false) (x : SubscriberId)
    (hlisteners : ListenersApart θ w p) : Resembles S P θ (w.unwatch p x).1 v := by
  unfold World.unwatch
  split
  · exact h
  · rename_i e he
    split
    · exact h
    · rename_i r hr
      exact ((h.setEntry hp _).cancelIf fun id hid hlive => hlisteners e x r id he hr hid hlive).releasePlace hsep hp nofun

/-! ## Taking places -/

theorem Resembles.armEntry (h : Resembles S P θ w v) (hp : S.seen p.key = false) (e : Entry) :
    Resembles S P θ (w.armEntry p e).1 v := by
  unfold World.armEntry
  split
  · exact h
  · exact h.tryToArm hp

theorem Resembles.takePlace (h : Resembles S P θ w v) (hp : S.seen seat.path.key = false) (e : Entry) :
    Resembles S P θ (w.takePlace seat e).1 v := by
  unfold World.takePlace
  dsimp only
  split
  · exact h.setEntry hp _
  · obtain ⟨hreserve, hlock⟩ := (((h.armEntry hp _).beginQuery _).setEntry hp _).reserve hp
    exact hreserve.queueUp hlock

theorem Resembles.stepJoining (h : Resembles S P θ w v) (hp : S.seen p.key = false) (x : SubscriberId) (j : SignalId)
    (o : Option SignalId) : Resembles S P θ (w.stepJoining p x j o).1 v := by
  unfold World.stepJoining
  split
  · exact h
  · dsimp only
    split
    · exact h
    · split
      · exact h.setEntry hp _
      · exact h.takePlace (show S.seen (Seat.mk p x j).path.key = false from hp) _

theorem Resembles.requestWatch (h : Resembles S P θ w v) (p : Path) (x : SubscriberId) :
    Resembles S P θ (w.requestWatch p x).1 v := by
  unfold World.requestWatch
  split
  · exact h
  · exact h.freshSignal

theorem Resembles.listen (h : Resembles S P θ w v) (p : Path) (x : SubscriberId) : Resembles S P θ (w.listen p x).2 v := by
  unfold World.listen
  split
  · exact h
  · exact h.spawn _ _

/-- a new task that listens is none of those that there are -/
theorem live_listen (w : World) (p : Path) (x : SubscriberId) {id : TaskId} (hid : id < w.tasks.next) :
    (w.listen p x).2.tasks.live.get? id = w.tasks.live.get? id := by
  unfold World.listen
  split
  · rfl
  · exact get?_insert_ne hid.ne'

theorem Resembles.register (h : Resembles S P θ w v) (hsep : Separate S T P η) (hs : SeatAlike T η seat seat')
    (hlisteners : ListenersApart θ w seat.path) : Resembles S P θ (w.register seat).1 v := by
  have hmade : ∀ id b, θ.on .task id b → id < w.tasks.next := by
    obtain ⟨-, O, -, h⟩ := h
    exact fun id b hb => (h.made _ _ hb).1
  unfold World.register
  split
  · exact h.endSeat hsep hs
  · rename_i e he
    dsimp only
    refine (Resembles.setEntry ?_ (hsep.path hs.path) _).endSeat hsep hs
    cases hr : e.registered.get? seat.subscriber with
    | none => exact h.listen _ _
    | some r =>
      refine (h.listen _ _).cancelIf fun id hid hlive b hb => ?_
      rw [live_listen w _ _ (hmade id b hb)] at hlive
      exact hlisteners e _ r id he hr hid hlive b hb

theorem Resembles.stepSettling (h : Resembles S P θ w v) (hsep : Separate S T P η) (hs : SeatAlike T η seat seat')
    (o : Option SignalId) (hlisteners : ListenersApart θ w seat.path) : Resembles S P θ (w.stepSettling seat o).1 v := by
  unfold World.stepSettling
  split
  · exact h
  · split
    · exact h
    · exact h.register hsep hs hlisteners

theorem Resembles.stepSynchronizing (h : Resembles S P θ w v) (hsep : Separate S T P η) (hs : SeatAlike T η seat seat')
    {r r' : Refresh} (hr : RefreshAlike T η r r') : Resembles S P θ (w.stepSynchronizing seat r).1 v := by
  have hstep := h.stepRefresh hsep hr
  unfold World.stepSynchronizing
  generalize w.stepRefresh r = y at hstep
  obtain ⟨w', y⟩ := y
  cases y with
  | go | wait | pause => exact hstep
  | ended result =>
    cases result with
    | ok => exact hstep
    | error e =>
      refine Resembles.releasePlace hstep hsep (hsep.path hs.path) ?_
      rintro _ _ ⟨⟩
      exact ⟨seat', hs⟩

theorem Resembles.abandonSeat (h : Resembles S P θ w v) (hsep : Separate S T P η) (hs : SeatAlike T η seat seat') :
    Resembles S P θ (w.abandonSeat seat) v := (h.endSeat hsep hs).inBackground _

theorem Resembles.stepListening (h : Resembles S P θ w v) (p : Path) (x : SubscriberId) :
    Resembles S P θ (w.stepListening p x).1 v := by
  unfold World.stepListening
  split
  · exact h.inBackground _
  · exact h

/-! ## Sections -/

theorem Resembles.begin (h : Resembles S P θ w v) (hsep : Separate S T P η) {y y' : Request} (hy : RequestAlike T y y')
    (hT : ¬T.whole) (hlisteners : ∀ p x, y = .unwatch p x → ListenersApart θ w p) : Resembles S P θ (w.begin y).1 v := by
  cases hy with
  | watch hp x => exact h.requestWatch _ x
  | unwatch hp x => exact h.unwatch hsep (hsep.path hp) x (hlisteners _ _ rfl)
  | write hp bytes =>
    unfold World.begin
    rw [fst_ofPart]
    exact h.requestSave (hsep.path hp) bytes
  | reconcile hp =>
    unfold World.begin
    rw [fst_ofPart]
    exact h.requestRefresh (hsep.path hp)
  | release hp => exact h.releasePlace hsep (hsep.path hp) nofun
  | waitIdle hwhole => exact absurd hwhole hT
  | shutDown hwhole => exact absurd hwhole hT
  | diskStat hp => exact h.beginCall _ (hsep.path hp) _
  | diskRead hp => exact h.beginCall _ (hsep.path hp) _
  | diskWrite hp bytes => exact h.beginCall _ (hsep.path hp) _

/-- **A section of a task at a path that cannot be seen changes nothing that can be seen.** -/
theorem Resembles.step (h : Resembles S P θ w v) (hsep : Separate S T P η) {a a' : Activity} (ha : ActivityAlike T η a a')
    (hT : ¬T.whole) (hpump : ∀ s, a ≠ .pumping s) (hlisteners : ∀ p, S.seen p.key = false → ListenersApart θ w p) :
    Resembles S P θ (w.step a).1 v := by
  cases ha with
  | starting hy =>
    refine h.begin hsep hy hT fun p x hpx => ?_
    subst hpx
    cases hy with
    | unwatch hp x => exact hlisteners _ (hsep.path hp)
  | refreshing hr =>
    unfold World.step
    rw [fst_ofPart]
    exact h.stepRefresh hsep hr
  | saving hx =>
    unfold World.step
    rw [fst_ofPart]
    exact h.stepSave hsep hx
  | joining hp x hj ho => exact h.stepJoining (hsep.path hp) x _ _
  | synchronizing hs hr => exact h.stepSynchronizing hsep hs hr
  | settling hs ho => exact h.stepSettling hsep hs _ (hlisteners _ (hsep.path hs.path))
  | tearingDown hp ho hl => exact h.stepTearingDown hsep (hsep.path hp) ho hl.apart
  | awaitingQuiet hwhole => exact absurd hwhole hT
  | closing hwhole hps => exact absurd hwhole hT
  | draining hwhole hp ho hps => exact absurd hwhole hT
  | diskStat hp hc =>
    cases hc with
    | held => exact h.atGate _ _
    | due => exact h.leaveDisk (hsep.path hp)
  | diskRead hp hc =>
    cases hc with
    | held => exact h.atGate _ _
    | due => exact h.leaveDisk (hsep.path hp)
  | diskWrite bytes hp hc =>
    cases hc with
    | held => exact h.atGate _ _
    | due => exact (h.write (hsep.path hp) bytes).leaveDisk (hsep.path hp)
  | listening hp x => exact h.stepListening _ x
  | pumping s => exact absurd rfl (hpump s)

/-- **What a cancelled task at such a path lets go of cannot be seen.** -/
theorem Resembles.abandon (h : Resembles S P θ w v) (hsep : Separate S T P η) {a a' : Activity} (ha : ActivityAlike T η a a')
    (hT : ¬T.whole) (hpump : ∀ s, a ≠ .pumping s) : Resembles S P θ (w.abandon a) v := by
  cases ha with
  | refreshing hr => exact h.dropRefresh hsep hr
  | saving hx => exact h.dropSave hsep hx
  | synchronizing hs hr => exact (h.dropRefresh hsep hr).abandonSeat hsep hs
  | settling hs ho => exact h.abandonSeat hsep hs
  | tearingDown hp ho hl =>
    have hback := h.giveBackIf hsep ho
    cases hl with
    | failed hs he => exact hback.endSeat hsep hs
    | unwatched => exact hback
    | abandoned => exact hback
  | draining hwhole hp ho hps => exact absurd hwhole hT
  | diskStat hp hc => exact h.leaveDisk (hsep.path hp)
  | diskRead hp hc => exact h.leaveDisk (hsep.path hp)
  | diskWrite bytes hp hc => exact h.leaveDisk (hsep.path hp)
  | pumping s => exact absurd rfl (hpump s)
  | starting | joining | awaitingQuiet | closing | listening => exact h

/-! ## The floor -/

/-- whoever gets the floor, nobody has it in the other world, unless it is the task that has it here -/
theorem Resembles.nobody (h : Resembles S P θ w v) {a : TaskId} (hgo : canGo w a = true) (ha : ∀ b, ¬θ.on .task a b) :
    v.tasks.floor = none := by
  cases hf : v.tasks.floor with
  | none => rfl
  | some b =>
    obtain ⟨i, hi, hif⟩ := h.floor hf
    rw [canGo_eq, hif] at hgo
    obtain rfl : i = a := of_decide_eq_true hgo
    exact absurd hi (ha b)

/-- tasks that differ in what they have of one that stands for none -/
theorem Resembles.withFloor (h : Resembles S P θ w v) (hv : v.tasks.floor = none) {a : TaskId} (ha : ∀ b, ¬θ.on .task a b)
    (hnext : ts.next = w.tasks.next) (hlive : ∀ i, a ≠ i → ts.live.get? i = w.tasks.live.get? i)
    (hgone : (ts.live.get? a).isSome → (w.tasks.live.get? a).isSome) : Resembles S P θ { w with tasks := ts } v := by
  refine h.withTasks hnext (fun b hb => by cases hv.symm.trans hb) (fun i b hb => hlive i ?_) fun i hi => ?_
  · rintro rfl
    exact ha b hb
  · by_cases hai : a = i
    · subst hai
      exact hgone hi
    · rwa [hlive i hai] at hi

theorem Resembles.after_floorTo (h : Resembles S P θ w v) (a : TaskId) (hfloor : ∀ b, v.tasks.floor = some b → θ.on .task a b) : Resembles S P θ (floorTo w a) v := by
  unfold floorTo
  split
  · exact h
  · exact h.withTasks rfl (fun b hb => ⟨a, hfloor b hb, rfl⟩) (fun _ _ _ => rfl) fun _ hi => hi

theorem Resembles.after (h : Resembles S P θ w v) (hv : v.tasks.floor = none) {a : TaskId} (ha : ∀ b, ¬θ.on .task a b)
    (x : Section Phase Unit) : Resembles S P θ (World.after a (w, x)) v := by
  have hmodify : ∀ (f : Task Phase → Task Phase) i, a ≠ i → (w.tasks.live.modify a f).get? i = w.tasks.live.get? i :=
    fun f i hi => get?_modify_ne hi
  have hsome : ∀ (f : Task Phase → Task Phase), ((w.tasks.live.modify a f).get? a).isSome → (w.tasks.live.get? a).isSome :=
    fun f hi => by rwa [isSome_get?_modify] at hi
  cases x with
  | go ph => exact h.withFloor hv ha rfl (hmodify _) (hsome _)
  | wait ph => exact h.withFloor hv ha rfl (hmodify _) (hsome _)
  | pause ph => exact h.withFloor hv ha rfl (hmodify _) (hsome _)
  | ended =>
    refine h.withFloor hv ha rfl (fun i hi => get?_erase_ne hi) fun hi => ?_
    change ((w.tasks.live.erase a).get? a).isSome at hi
    rw [Table.get?_erase, if_pos rfl] at hi
    cases hi

/-- **The turn of a task at a path that cannot be seen changes nothing that can be seen.** -/
theorem Resembles.after_serve (h : Resembles S P θ w v) (hsep : Separate S T P η) (hT : ¬T.whole) {a : TaskId} (hgo : canGo w a = true)
    (haP : P (.task a)) {t : Task Phase} (ht : w.tasks.live.get? a = some t) {x : Activity} (hx : ActivityAlike T η t.phase.activity x)
    (hpump : ∀ s, t.phase.activity ≠ .pumping s) (hlisteners : ∀ p, S.seen p.key = false → ListenersApart θ w p) :
    Resembles S P θ (serve w a) v := by
  have ha : ∀ b, ¬θ.on .task a b := fun b => (h.strange haP).2 _
  have hv := h.nobody hgo ha
  have hfloor := h.after_floorTo a fun b hb => by cases hv.symm.trans hb
  have hserved : w.served? a = some t := by rw [World.served?, if_pos hgo, ht]
  cases hc : t.cancelled with
  | true =>
    rw [serve_of_cancelled hserved hc]
    have hwithout : Resembles S P θ ((floorTo w a).without a) v := by
      refine hfloor.withFloor hv ha rfl (fun i hi => get?_erase_ne hi) fun hi => ?_
      rw [Table.get?_erase, if_pos rfl] at hi
      cases hi
    exact (hwithout.abandon hsep hx hT hpump).finish haP _ _
  | false =>
    rw [serve_of_section hserved hc]
    have hstep := hfloor.step hsep hx hT hpump fun p hp => by
      have happart := hlisteners p hp
      unfold ListenersApart World.entry? at happart ⊢
      rw [live_floorTo, show (floorTo w a).entries = w.entries from congrArg Core.entries (core_floorTo w a)]
      exact happart
    unfold World.advance
    generalize (floorTo w a).step t.phase.activity = y at hstep
    obtain ⟨w', y⟩ := y
    cases y with
    | go b => exact hstep.after hv ha _
    | wait b => exact hstep.after hv ha _
    | pause b => exact hstep.after hv ha _
    | ended o => exact (hstep.finish haP _ _).after hv ha _

/-- the turn of a task that is over -/
theorem Resembles.serve_ended (h : Resembles S P θ w v) {a : TaskId} (ha : ∀ b, ¬θ.on .task a b) (hs : w.served? a = none) :
    Resembles S P θ (serve w a) v := by
  by_cases hgo : canGo w a = true
  · have hv := h.nobody hgo ha
    have hfloor := h.after_floorTo a fun b hb => by cases hv.symm.trans hb
    rw [serve_of_ended hgo (by simpa [World.served?, hgo] using hs)]
    exact hfloor.withFloor hv ha rfl (fun _ _ => rfl) id
  · rw [show serve w a = w from if_neg hgo]
    exact h

/-- a channel without a message that cannot be seen -/
theorem ChannelAlike.skip {α : Type} {visible : α → Bool} {r : α → α → Prop} {c c' : Channel α} (h : ChannelAlike visible r c c')
    {x : α} (hx : c.buffer.head? = some x) (hseen : visible x = false) : ChannelAlike visible r c.read.2 c' := by
  obtain ⟨buffer, o, y, z⟩ := c
  cases buffer with
  | nil => cases hx
  | cons m rest =>
    cases hx
    have hbuffer := h.buffer
    rw [List.filter_cons, if_neg (by rw [hseen]; exact Bool.false_ne_true)] at hbuffer
    exact ⟨hbuffer, h.isOpen, h.receiver, h.sender⟩

theorem read_of_head {α : Type} {c : Channel α} {x : α} (hx : c.buffer.head? = some x) : c.read.1 = .message x := by
  obtain ⟨buffer, o, y, z⟩ := c
  cases buffer with
  | nil => cases hx
  | cons m rest =>
    cases hx
    rfl

/-- the pump meets an event that cannot be seen -/
theorem Resembles.stepPumping (h : Resembles S P θ w v) {s : StreamId} {ev : Event}
    (hev : (w.streams.getD s {}).buffer.head? = some ev) (hseen : S.seen ev.path.key = false) :
    ∃ w₁, Resembles S P θ w₁ v ∧ w₁.tasks = w.tasks ∧
      w.stepPumping s = (w₁.inBackground (.reconcile ev.path), .go (.pumping s)) := by
  refine ⟨{ w with streams := w.streams.insert s (w.streams.getD s {}).read.2 }, ?_, rfl, ?_⟩
  · obtain ⟨hS, O, hP, h⟩ := h
    refine ⟨hS, O, hP, { h with streams := fun i hi => ?_ }⟩
    have hold := h.streams i hi
    by_cases hsi : s = i
    · subst hsi
      have hget : w.streams.get? s = some (w.streams.getD s {}) := by
        unfold Table.getD at hev ⊢
        cases hc : w.streams.get? s with
        | none =>
          rw [hc] at hev
          cases hev
        | some c => rfl
      dsimp only
      rw [Table.get?_insert, if_pos rfl]
      rw [hget] at hold
      cases hc' : v.streams.get? s <;> rw [hc'] at hold
      case none => cases hold
      case some c' =>
        cases hold with
        | some hc => exact .some (hc.skip hev hseen)
    · dsimp only
      rw [get?_insert_ne hsi]
      exact hold
  · have hread := read_of_head hev
    unfold World.stepPumping
    generalize (w.streams.getD s {}).read = y at hread
    obtain ⟨y, c⟩ := y
    obtain rfl : y = .message ev := hread
    rfl

/-- a task that stays in its phase -/
theorem get?_modify_phase {a : TaskId} {ph : Phase} (ha : ts.phase? a = some ph) (i : TaskId) :
    (ts.live.modify a fun t => { t with phase := ph }).get? i = ts.live.get? i := by
  rw [Table.get?_modify]
  split
  · next hai =>
    subst hai
    obtain ⟨t, ht, rfl⟩ := Option.map_eq_some_iff.1 ha
    rw [ht]
    rfl
  · rfl

/-- **When the pump turns an event that cannot be seen into a reconciliation, nothing changes that can be seen.** -/
theorem Resembles.servePumping (h : Resembles S P θ w v) (hn : w.tasks.Numbered) {a : TaskId} (hgo : canGo w a = true)
    {t : Task Phase} (ht : w.tasks.live.get? a = some t) (hc : t.cancelled = false) {s : StreamId}
    (hs : t.phase.activity = .pumping s) {ev : Event} (hev : (w.streams.getD s {}).buffer.head? = some ev)
    (hseen : S.seen ev.path.key = false) : Resembles S P θ (serve w a) v := by
  have hserved : w.served? a = some t := by rw [World.served?, if_pos hgo, ht]
  have hown : ∀ b, v.tasks.floor = some b → θ.on .task a b := by
    intro b hb
    obtain ⟨i, hi, hif⟩ := h.floor hb
    rw [canGo_eq, hif] at hgo
    obtain rfl : i = a := of_decide_eq_true hgo
    exact hi
  have hstreams : (floorTo w a).streams = w.streams := by
    unfold floorTo
    split <;> rfl
  obtain ⟨w₁, hw₁, htasks, hstep⟩ := (h.after_floorTo a hown).stepPumping (hstreams ▸ hev) hseen
  have hpumped := hw₁.inBackground (.reconcile ev.path)
  have hphase : (w₁.inBackground (.reconcile ev.path)).tasks.phase? a = some ⟨t.phase.role, .pumping s⟩ := by
    have hold : w.tasks.phase? a = some t.phase := congrArg (Option.map Task.phase) ht
    have hlt : a < w₁.tasks.next := by
      rw [htasks, next_floorTo]
      exact hn.lt hold
    rw [(ripple_inBackground w₁ (.reconcile ev.path) fun hr => by cases hr).grows.phase a hlt, htasks, phase?_floorTo, hold, ← hs]
  rw [serve_of_section hserved hc]
  unfold World.advance
  rw [hs, World.step, hstep]
  refine hpumped.withTasks rfl (fun b hb => hpumped.floor hb) (fun i _ _ => get?_modify_phase hphase i) fun i hi => ?_
  change ((Table.modify _ a _).get? i).isSome at hi
  rwa [get?_modify_phase hphase] at hi

/-! ## What happens from outside -/

/-- the path of which a move from outside tells -/
def Move.path? : Move → Option Path
  | .call r => (Activity.starting r).about?
  | .putFile p _ | .removeFile p | .touch p | .orderFailure _ p _ | .clearFailure _ p | .hold _ p | .refuseArming p
  | .permitArming p | .notifyChange p => some p
  | .sendEvent _ ev => some ev.path
  | .turn _ | .cancel _ | .openGate _ | .rearrange _ | .newSubscriber | .drain _ | .tryRead _ | .closeSubscriber _
  | .dropSubscriber _ | .attachStream | .closeStream _ => none

theorem leaves_hold (d : Disk) (op : DiskOp) (hp : S.seen p.key = false) : S.Leaves d (d.hold op p).2 := by
  refine { Scope.Leaves.refl S d with gateFor := fun x hx => get?_insert_ne ?_, gates := fun g hg => ?_, nextGate := Nat.le_succ _ }
  · rintro rfl
    exact Bool.false_ne_true (hp.symm.trans hx)
  · change Option.Rel GateAlike ((d.gates.insert d.nextGate {}).get? g) _
    rw [get?_insert_ne hg.ne']
    exact rel_gate_self _

/-- **What happens from outside at a path that cannot be seen changes nothing that can be seen.** -/
theorem Resembles.outside (h : Resembles S P θ w v) {m : Move} (hm : m.path? = some p) (hp : S.seen p.key = false) :
    Resembles S P θ (w.move m) v := by
  have hne : ∀ (op : DiskOp) (x : DiskOp × Path.Key), S.seen x.2 = true → (op, p.key) ≠ x := by
    rintro op x hx rfl
    exact Bool.false_ne_true (hp.symm.trans hx)
  cases m with
  | call r =>
    unfold World.move
    dsimp only
    split
    · exact h.spawn _ _
    · exact h
  | putFile q bytes =>
    cases hm
    exact h.withDisk (leaves_putFile w.disk hp bytes)
  | removeFile q =>
    cases hm
    exact h.withDisk { Scope.Leaves.refl S w.disk with files := fun _ hk => get?_erase_ne (ne_of_seen hp hk) }
  | touch q =>
    cases hm
    exact h.withDisk { Scope.Leaves.refl S w.disk with
      files := fun _ hk => get?_modify_ne (ne_of_seen hp hk)
      clock := Nat.le_succ _ }
  | orderFailure op q message =>
    cases hm
    exact h.withDisk { Scope.Leaves.refl S w.disk with failures := fun x hx => get?_insert_ne (hne op x hx) }
  | clearFailure op q =>
    cases hm
    exact h.withDisk { Scope.Leaves.refl S w.disk with failures := fun x hx => get?_erase_ne (hne op x hx) }
  | hold op q =>
    cases hm
    exact h.withDisk (leaves_hold w.disk op hp)
  | refuseArming q =>
    cases hm
    obtain ⟨hS, O, hP, h⟩ := h
    refine ⟨hS, O, hP, { h with refused := fun k hk => ?_ }⟩
    change k ∈ p.key :: w.watcher.refused ↔ k ∈ v.watcher.refused
    rw [List.mem_cons, or_iff_right (ne_of_seen hp hk).symm]
    exact h.refused k hk
  | permitArming q =>
    cases hm
    obtain ⟨hS, O, hP, h⟩ := h
    refine ⟨hS, O, hP, { h with refused := fun k hk => ?_ }⟩
    change k ∈ w.watcher.refused.filter (· ≠ p.key) ↔ k ∈ v.watcher.refused
    rw [List.mem_filter, and_iff_left (decide_eq_true (ne_of_seen hp hk).symm)]
    exact h.refused k hk
  | notifyChange q => exact h.inBackground _
  | sendEvent s ev =>
    cases hm
    unfold World.move World.sendEvent
    dsimp only
    split
    · next c hc =>
      split
      · have hsent : Resembles S P θ { w with streams := w.streams.insert s (c.send ev) } v := by
          obtain ⟨hS, O, hP, h⟩ := h
          refine ⟨hS, O, hP, { h with streams := fun i hi => ?_ }⟩
          have hold := h.streams i hi
          dsimp only
          by_cases hsi : s = i
          · subst hsi
            rw [Table.get?_insert, if_pos rfl]
            rw [hc] at hold
            cases hc' : v.streams.get? s <;> rw [hc'] at hold
            case none => cases hold
            case some c' =>
              cases hold with
              | some hcc => exact .some (hcc.send_left hp)
          · rw [get?_insert_ne hsi]
            exact hold
        exact hsent.wake _
      · exact h
    · exact h
  | turn | cancel | openGate | rearrange | newSubscriber | drain | tryRead | closeSubscriber | dropSubscriber | attachStream
  | closeStream => cases hm

/-- a gate that stands for none is opened -/
theorem Resembles.openGate (h : Resembles S P θ w v) {g : GateId} (hg : ∀ b, ¬θ.on .gate g b) :
    Resembles S P θ (w.openGate g) v := by
  have hopen : Resembles S P θ { w with disk := w.disk.openGate g } v := by
    obtain ⟨hS, O, hP, h⟩ := h
    refine ⟨hS, O, hP, { h with gateTable := fun hw => absurd hw hS, gates := fun a b hab => ?_ }⟩
    have hne : g ≠ a := by
      rintro rfl
      exact hg b hab
    change Option.Rel GateAlike ((w.disk.gates.modify g _).get? a) _
    rw [get?_modify_ne hne]
    exact h.gates a b hab
  exact hopen.wake _

/-- a snapshot that cannot be seen is read, or none -/
theorem Resembles.tryRead (h : Resembles S P θ w v) {x : SubscriberId}
    (hseen : ∀ s ∈ (w.tryRead x).1, S.seen s.path.key = false) : Resembles S P θ (w.tryRead x).2 v := by
  unfold World.tryRead at hseen ⊢
  split
  · exact h
  · next c hc =>
    obtain ⟨buffer, o, y, z⟩ := c
    cases buffer with
    | nil =>
      cases o <;> cases z <;> exact h
    | cons s rest =>
      rw [hc] at hseen
      have hs : S.seen s.path.key = false := hseen s rfl
      obtain ⟨hS, O, hP, h⟩ := h
      refine ⟨hS, O, hP, { h with channels := fun i hi => ?_ }⟩
      have hold := h.channels i hi
      change Option.Rel _ ((w.channels.insert x ⟨rest, o, y, z⟩).get? i) _
      by_cases hxi : x = i
      · subst hxi
        rw [Table.get?_insert, if_pos rfl]
        rw [hc] at hold
        cases hc' : v.channels.get? x <;> rw [hc'] at hold
        case none => cases hold
        case some c' =>
          cases hold with
          | some hcc => exact .some (hcc.skip rfl hs)
      · rw [get?_insert_ne hxi]
        exact hold

end LiveFiles.Engine
