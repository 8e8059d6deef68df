/-
Sections that are carried out side by side. In worlds that are alike, tasks in phases that are alike do what is alike: the worlds
are alike afterwards, and so are the phases in which the tasks go on, or what they end with. There is one lemma for each function
of the engine, and they follow its code.
- `Alike.stepRefresh`, `Alike.stepSave`, `Alike.releasePlace`, `Alike.takePlace`, `Alike.register`: the operations.
- **`Alike.step`**: a section of any task.
- `Alike.abandon`: what a cancelled task lets go of.
-/
import LiveFiles.Proofs.Operations

namespace LiveFiles.Engine

variable {S : Scope} {O : Tag → Prop} {θ θ' : Pairing} {w v : World} {p p' : Path} {s s' : SignalId} {τ τ' : Turn} {e e' : Entry} {l l' : Look}
  {seat seat' : Seat} {job job' : SaveJob}

/-- reconciliations that go on or end alike -/
abbrev LikeRefresh (S : Scope) (O : Tag → Prop) (θ : Pairing) : World × Section Refresh Refreshed → World × Section Refresh Refreshed → Prop :=
  Like S O θ fun θ' => SectionAlike (RefreshAlike S θ') (ResultAlike (ProblemAlike S) Eq)

/-- writes that go on or end alike -/
abbrev LikeSave (S : Scope) (O : Tag → Prop) (θ : Pairing) : World × Section Save Saved → World × Section Save Saved → Prop :=
  Like S O θ fun θ' => SectionAlike (SaveAlike S θ') (ResultAlike (ProblemAlike S) Eq)

/-- tasks that go on or end alike -/
abbrev LikeTask (S : Scope) (O : Tag → Prop) (θ : Pairing) : World × Section Activity Outcome → World × Section Activity Outcome → Prop :=
  Like S O θ fun θ' => SectionAlike (ActivityAlike S θ') (OutcomeAlike S θ')

theorem Like.of {α β : Type} {r : Pairing → α → β → Prop} (h : Alike S O θ w v) {x : α} {y : β} (hx : r θ x y) :
    Like S O θ r (w, x) (v, y) := ⟨θ, le_rfl, h, hx⟩

theorem Like.larger {α β : Type} {r : Pairing → α → β → Prop} {x : World × α} {y : World × β} (hθ : θ ≤ θ')
    (h : Like S O θ' r x y) : Like S O θ r x y := by
  obtain ⟨θ'', hle, hw, hr⟩ := h
  exact ⟨θ'', hθ.trans hle, hw, hr⟩

/-! ## Reconciliations -/

inductive ObservationAlike (θ : Pairing) : Observation → Observation → Prop
  | unchanged : ObservationAlike θ .unchanged .unchanged
  | missing : ObservationAlike θ .missing .missing
  | changed (text : String) {t t' : Instant} (h : θ.on .date t t') : ObservationAlike θ (.changed text t) (.changed text t')

theorem ObservationAlike.absent (had : Bool) : ObservationAlike θ (.absent had) (.absent had) := by
  cases had
  · exact .unchanged
  · exact .missing

theorem EntryAlike.commit (hθ : θ.Fit S O) (he : EntryAlike S θ e e') {o o' : Observation} (ho : ObservationAlike θ o o') :
    EntryAlike S θ (e.commit o).1 (e'.commit o').1 ∧ (e.commit o).2 = (e'.commit o').2 := by
  cases ho with
  | unchanged => exact ⟨he, rfl⟩
  | missing => exact ⟨{ he with contents := rfl, modified := hθ.epoch, external := hθ.epoch }, rfl⟩
  | changed text ht => exact ⟨{ he with contents := rfl, modified := ht, external := ht }, rfl⟩

theorem Alike.endLook (h : Alike S O θ w v) (hl : LookAlike S θ l l') {r r' : Refreshed}
    (hr : ResultAlike (ProblemAlike S) Eq r r') : LikeRefresh S O θ (w.endLook l r) (v.endLook l' r') :=
  .of ((h.giveIf hl.signal).giveBack hl.turn) (.ended hr)

theorem Alike.conclude (h : Alike S O θ w v) (hl : LookAlike S θ l l') {o o' : Observation} (ho : ObservationAlike θ o o') :
    LikeRefresh S O θ (w.conclude l o) (v.conclude l' o') := by
  have hentry := h.entry? hl.path
  unfold World.conclude
  generalize w.entry? l.path = x at hentry
  generalize v.entry? l'.path = x' at hentry
  cases hentry with
  | none => exact h.endLook hl (.ok rfl)
  | @some e e' he =>
    have hrest : EntryAlike S θ { e with runningSignal := none } { e' with runningSignal := none } :=
      { he with runningSignal := .none }
    obtain ⟨hcommit, hnews⟩ := hrest.commit h.fit ho
    dsimp only
    rw [← hnews]
    have hset := (h.setEntry hl.path hcommit).giveIf hl.signal
    split
    · exact .of ((hset.broadcast (hcommit.snapshot hl.path)).giveBack hl.turn) (.ended (.ok rfl))
    · exact .of (hset.giveBack hl.turn) (.ended (.ok rfl))

theorem Alike.startRefresh (h : Alike S O θ w v) (hp : S.path p p') {q q' : QueryId} (hq : θ.on .query q q')
    (hτ : TurnAlike S θ τ τ') :
    Alike S O θ (w.startRefresh p q τ).1 (v.startRefresh p' q' τ').1 ∧
      RefreshAlike S θ (w.startRefresh p q τ).2 (v.startRefresh p' q' τ').2 :=
  ⟨h.queueUp hτ, .queued hp hq hτ⟩

theorem Alike.requestRefresh (h : Alike S O θ w v) (hp : S.path p p') :
    LikeRefresh S O θ (w.requestRefresh p) (v.requestRefresh p') := by
  have hentry := h.entry? hp
  unfold World.requestRefresh
  generalize w.entry? p = x at hentry
  generalize v.entry? p' = x' at hentry
  cases hentry with
  | none => exact .of h (.ended (.ok rfl))
  | some he =>
    obtain ⟨θ₁, hle₁, h₁, he₁, hq⟩ := h.beginQuery he
    obtain ⟨θ₂, hle₂, h₂, hτ⟩ := (h₁.setEntry hp he₁).reserve hp
    obtain ⟨h₃, hr⟩ := h₂.startRefresh hp (hle₂ _ _ hq) hτ
    exact ⟨θ₂, hle₁.trans hle₂, h₃, .go hr⟩

theorem Alike.enterRefresh (h : Alike S O θ w v) (hp : S.path p p') {q q' : QueryId} (hq : θ.on .query q q')
    (hτ : TurnAlike S θ τ τ') : LikeRefresh S O θ (w.enterRefresh p q τ) (v.enterRefresh p' q' τ') := by
  have hentry := h.entry? hp
  unfold World.enterRefresh
  generalize w.entry? p = x at hentry
  generalize v.entry? p' = x' at hentry
  cases hentry with
  | none => exact .of (h.giveBack hτ) (.ended (.ok rfl))
  | @some e e' he =>
    have hcurrent : e.pendingQuery = some q ↔ e'.pendingQuery = some q' := by
      have hpending := he.pendingQuery
      generalize e.pendingQuery = y at hpending
      generalize e'.pendingQuery = y' at hpending
      cases hpending with
      | none => exact ⟨nofun, nofun⟩
      | some hy =>
        rw [Option.some.injEq, Option.some.injEq]
        exact h.fit.eq_iff (fun _ _ h => Tag.query.inj h) hy hq
    dsimp only
    by_cases hc : e.pendingQuery = some q
    · rw [if_neg (not_not.2 hc), if_neg (not_not.2 (hcurrent.1 hc))]
      have hbegun : EntryAlike S θ { e with pendingQuery := none, pendingSignal := none, runningSignal := e.pendingSignal }
          { e' with pendingQuery := none, pendingSignal := none, runningSignal := e'.pendingSignal } :=
        { he with pendingQuery := .none, pendingSignal := .none, runningSignal := he.pendingSignal }
      exact (h.setEntry hp hbegun).beginCall .stat hp fun c c' hc' =>
        .looking ⟨hp, hτ, he.pendingSignal, congrArg Option.isSome he.contents, he.modified⟩ hc'
    · rw [if_pos hc, if_pos (mt hcurrent.2 hc)]
      exact .of (h.giveBack hτ) (.ended (.ok rfl))

theorem Alike.haveLooked (h : Alike S O θ w v) (hl : LookAlike S θ l l') {r r' : Except Failure (Option FileStat)}
    (hr : ResultAlike (FailureAlike S) (Option.Rel (StatAlike θ)) r r') :
    LikeRefresh S O θ (w.haveLooked l r) (v.haveLooked l' r') := by
  cases hr with
  | error hf => exact h.endLook hl (.error (.other hf))
  | ok hst =>
    cases hst with
    | none =>
      rw [World.haveLooked, World.haveLooked, ← hl.had]
      exact h.conclude hl (.absent l.had)
    | @some st st' hst =>
      have hsame : (l.had && st.modified = l.last) = (l'.had && st'.modified = l'.last) := by
        rw [← hl.had]
        exact congrArg (l.had && ·) (decide_eq_decide.2 (h.fit.eq_iff (fun _ _ h => Tag.date.inj h) hst.modified hl.last))
      unfold World.haveLooked
      dsimp only
      rw [← hsame]
      split
      · exact h.conclude hl .unchanged
      · exact h.beginCall .read hl.path fun c c' hc => .reading hl hst.modified hc

theorem Alike.haveRead (h : Alike S O θ w v) (hl : LookAlike S θ l l') {t t' : Instant} (ht : θ.on .date t t')
    {r r' : Except Failure String} (hr : ResultAlike (FailureAlike S) Eq r r') :
    LikeRefresh S O θ (w.haveRead l t r) (v.haveRead l' t' r') := by
  cases hr with
  | error hf => exact h.beginCall .stat hl.path fun c c' hc => .lookingAgain hl hf hc
  | ok htext =>
    obtain rfl := htext
    exact h.conclude hl (.changed _ ht)

theorem Alike.haveLookedAgain (h : Alike S O θ w v) (hl : LookAlike S θ l l') {f f' : Failure} (hf : FailureAlike S f f')
    {r r' : Except Failure (Option FileStat)} (hr : ResultAlike (FailureAlike S) (Option.Rel (StatAlike θ)) r r') :
    LikeRefresh S O θ (w.haveLookedAgain l f r) (v.haveLookedAgain l' f' r') := by
  cases hr with
  | error hf' => exact h.endLook hl (.error (.other hf'))
  | ok hst =>
    cases hst with
    | none =>
      rw [World.haveLookedAgain, World.haveLookedAgain, ← hl.had]
      exact h.conclude hl (.absent l.had)
    | some => exact h.endLook hl (.error (.other hf))

theorem Alike.stepRefresh (h : Alike S O θ w v) {r r' : Refresh} (hr : RefreshAlike S θ r r') :
    LikeRefresh S O θ (w.stepRefresh r) (v.stepRefresh r') := by
  cases hr with
  | queued hp hq hτ =>
    unfold World.stepRefresh
    dsimp only
    rw [← h.turns.holds h.fit hτ]
    split
    · exact h.enterRefresh hp hq hτ
    · exact .of h (.wait (.queued hp hq hτ))
  | looking hl hc =>
    cases hc with
    | held hg => exact h.atGate hg fun c c' hc => .looking hl hc
    | due => exact (h.leaveDisk hl.path).haveLooked hl (h.stat hl.path)
  | reading hl ht hc =>
    cases hc with
    | held hg => exact h.atGate hg fun c c' hc => .reading hl ht hc
    | due => exact (h.leaveDisk hl.path).haveRead hl ht (h.read hl.path)
  | lookingAgain hl hf hc =>
    cases hc with
    | held hg => exact h.atGate hg fun c c' hc => .lookingAgain hl hf hc
    | due => exact (h.leaveDisk hl.path).haveLookedAgain hl hf (h.stat hl.path)

theorem Alike.dropRefresh (h : Alike S O θ w v) {r r' : Refresh} (hr : RefreshAlike S θ r r') :
    Alike S O θ (w.dropRefresh r) (v.dropRefresh r') := by
  cases hr with
  | queued hp hq hτ => exact h.giveBack hτ
  | looking hl hc => exact ((h.leaveDisk hl.path).giveIf hl.signal).giveBack hl.turn
  | reading hl ht hc => exact ((h.leaveDisk hl.path).giveIf hl.signal).giveBack hl.turn
  | lookingAgain hl hf hc => exact ((h.leaveDisk hl.path).giveIf hl.signal).giveBack hl.turn

/-! ## Writes -/

theorem EntryAlike.revoke (he : EntryAlike S θ e e') :
    (World.revoke e).1 = (World.revoke e').1 ∧ Option.Rel (θ.on .signal) (World.revoke e).2.1 (World.revoke e').2.1 ∧
      EntryAlike S θ (World.revoke e).2.2 (World.revoke e').2.2 := by
  have hpending := he.pendingQuery
  unfold World.revoke
  generalize e.pendingQuery = q at hpending
  generalize e'.pendingQuery = q' at hpending
  cases hpending with
  | none => exact ⟨rfl, .none, he⟩
  | some =>
    exact ⟨rfl, he.pendingSignal,
      { he with
        pendingQuery := .none
        pendingSignal := .none
        revokedSignals := List.rel_append he.revokedSignals (toList_alike he.pendingSignal) }⟩

theorem Alike.queueSave (h : Alike S O θ w v) (hp : S.path p p') (bytes : ByteArray) (revoked : Bool) {o o' : Option SignalId}
    (ho : Option.Rel (θ.on .signal) o o') :
    LikeSave S O θ (w.queueSave p bytes revoked o) (v.queueSave p' bytes revoked o') := by
  obtain ⟨θ', hle, hw, hτ⟩ := h.reserve hp
  exact ⟨θ', hle, hw.queueUp hτ, .go (.queued ⟨hp, rfl, hτ, rfl, rel_mono ho fun _ _ hx => hle _ _ hx⟩)⟩

theorem Alike.requestSave (h : Alike S O θ w v) (hp : S.path p p') (bytes : ByteArray) :
    LikeSave S O θ (w.requestSave p bytes) (v.requestSave p' bytes) := by
  have hentry := h.entry? hp
  unfold World.requestSave
  rw [← h.isShutDown, ← h.policy]
  generalize w.entry? p = x at hentry
  generalize v.entry? p' = x' at hentry
  split
  · exact .of h (.ended (.error (.same _)))
  · cases hentry with
    | none =>
      dsimp only
      split
      · exact .of h (.ended (.error (.unwatchedWrite hp)))
      · exact h.queueSave hp bytes false .none
    | some he =>
      obtain ⟨hrevoked, hwaiters, he'⟩ := he.revoke
      dsimp only
      rw [← hrevoked]
      exact (h.setEntry hp he').queueSave hp bytes _ hwaiters

theorem Alike.failSave (h : Alike S O θ w v) (hj : JobAlike S θ job job') {x x' : Problem} (hx : ProblemAlike S x x') :
    LikeSave S O θ (w.failSave job x) (v.failSave job' x') := by
  have hback := (h.giveBack hj.turn).giveIf hj.waiters
  unfold World.failSave
  rw [← hj.revoked]
  dsimp only
  split
  · obtain ⟨θ', hle, hw⟩ := (hback.forgetRevoked hj.path).inBackground (.reconcile hj.path)
    exact ⟨θ', hle, hw, .ended (.error hx)⟩
  · exact .of hback (.ended (.error hx))

theorem Alike.commitSave (h : Alike S O θ w v) (hj : JobAlike S θ job job') {t t' : Instant} (ht : θ.on .date t t') :
    LikeSave S O θ (w.commitSave job t) (v.commitSave job' t') := by
  have hentry := h.entry? hj.path
  have hforget : ∀ {x y : World}, Alike S O θ x y → Alike S O θ (if job.revoked then x.forgetRevoked job.path else x)
      (if job.revoked then y.forgetRevoked job'.path else y) := by
    intro x y hxy
    split
    · exact hxy.forgetRevoked hj.path
    · exact hxy
  unfold World.commitSave
  rw [← hj.revoked, ← hj.bytes]
  generalize w.entry? job.path = e at hentry
  generalize v.entry? job'.path = e' at hentry
  cases hentry with
  | none => exact .of ((hforget (h.giveIf hj.waiters)).giveBack hj.turn) (.ended (.ok rfl))
  | @some e e' he =>
    have hwritten : EntryAlike S θ { e with contents := some (Text.Utf8.decodeLossy job.bytes), modified := t }
        { e' with contents := some (Text.Utf8.decodeLossy job.bytes), modified := t' } :=
      { he with contents := rfl, modified := ht }
    have hset := hforget ((h.setEntry hj.path hwritten).giveIf hj.waiters)
    exact .of ((hset.broadcast (hwritten.snapshot hj.path)).giveBack hj.turn) (.ended (.ok rfl))

theorem Alike.haveWritten (h : Alike S O θ w v) (hj : JobAlike S θ job job') {r r' : Except Failure Unit}
    (hr : ResultAlike (FailureAlike S) Eq r r') : LikeSave S O θ (w.haveWritten job r) (v.haveWritten job' r') := by
  cases hr with
  | error hf => exact h.failSave hj (.other hf)
  | ok => exact h.beginCall .stat hj.path fun c c' hc => .looking hj hc

theorem Alike.haveLookedUp (h : Alike S O θ w v) (hj : JobAlike S θ job job') {r r' : Except Failure (Option FileStat)}
    (hr : ResultAlike (FailureAlike S) (Option.Rel (StatAlike θ)) r r') :
    LikeSave S O θ (w.haveLookedUp job r) (v.haveLookedUp job' r') := by
  cases hr with
  | error hf => exact h.failSave hj (.other hf)
  | ok hst =>
    cases hst with
    | none => exact h.failSave hj (.vanished hj.path)
    | some hst => exact h.commitSave hj hst.modified

theorem Alike.stepSave (h : Alike S O θ w v) {x x' : Save} (hx : SaveAlike S θ x x') :
    LikeSave S O θ (w.stepSave x) (v.stepSave x') := by
  cases hx with
  | queued hj =>
    unfold World.stepSave
    dsimp only
    rw [← h.turns.holds h.fit hj.turn]
    split
    · exact h.beginCall .write hj.path fun c c' hc => .writing hj hc
    · exact .of h (.wait (.queued hj))
  | @writing j j' c c' hj hc =>
    cases hc with
    | held hg => exact h.atGate hg fun c c' hc => .writing hj hc
    | due =>
      obtain ⟨θ', hle, hw, hr⟩ := h.write hj.path j.bytes
      unfold World.stepSave
      dsimp only
      rw [← hj.bytes]
      exact ((hw.leaveDisk hj.path).haveWritten (hj.mono hle) hr).larger hle
  | looking hj hc =>
    cases hc with
    | held hg => exact h.atGate hg fun c c' hc => .looking hj hc
    | due => exact (h.leaveDisk hj.path).haveLookedUp hj (h.stat hj.path)

theorem Alike.dropSave (h : Alike S O θ w v) {x x' : Save} (hx : SaveAlike S θ x x') :
    Alike S O θ (w.dropSave x) (v.dropSave x') := by
  cases hx with
  | queued hj => exact (h.giveBack hj.turn).giveIf hj.waiters
  | writing hj hc => exact ((h.leaveDisk hj.path).giveBack hj.turn).giveIf hj.waiters
  | looking hj hc => exact ((h.leaveDisk hj.path).giveBack hj.turn).giveIf hj.waiters

/-! ## Giving places back -/

theorem Alike.endSeat (h : Alike S O θ w v) (hs : SeatAlike S θ seat seat') : Alike S O θ (w.endSeat seat) (v.endSeat seat') := by
  refine (h.modifyEntry hs.path fun e e' he => ?_).give hs.joined
  have hiff : e.joining.get? seat.subscriber = some seat.joined ↔ e'.joining.get? seat'.subscriber = some seat'.joined := by
    have hjoining := he.joining.get? seat.subscriber
    rw [← hs.subscriber]
    generalize e.joining.get? seat.subscriber = x at hjoining
    generalize e'.joining.get? seat.subscriber = x' at hjoining
    cases hjoining with
    | none => exact ⟨nofun, nofun⟩
    | some hx =>
      rw [Option.some.injEq, Option.some.injEq]
      exact h.fit.eq_iff (fun _ _ h => Tag.signal.inj h) hx hs.joined
  by_cases hown : e.joining.get? seat.subscriber = some seat.joined
  · rw [if_pos hown, if_pos (hiff.1 hown)]
    rw [← hs.subscriber]
    exact { he with joining := he.joining.erase _ }
  · rw [if_neg hown, if_neg (mt hiff.2 hown)]
    exact he

theorem Alike.endLeaving (h : Alike S O θ w v) {x x' : Leaving} (hx : LeavingAlike S θ x x') :
    LikeTask S O θ (w.endLeaving x) (v.endLeaving x') := by
  cases hx with
  | unwatched => exact .of h (.ended (.ok (.flag true)))
  | failed hs he => exact .of (h.endSeat hs) (.ended (.error he))
  | abandoned => exact .of h (.ended (.ok .nothing))

/-- the watcher is told alike -/
theorem Alike.tell (h : Alike S O θ w v) {c c' : WatcherCall} (hc : WatcherCallAlike S c c') (hseen : S.seen c.path.key = true) :
    Alike S O θ { w with watcher := { w.watcher with calls := w.watcher.calls ++ [c] } }
      { v with watcher := { v.watcher with calls := v.watcher.calls ++ [c'] } } :=
  { h with
    calls := by
      rw [List.filter_append, List.filter_cons, if_pos hseen]
      exact List.rel_append h.calls (.cons hc .nil) }

theorem Alike.releasePlace (h : Alike S O θ w v) (hp : S.path p p') {x x' : Leaving} (hx : LeavingAlike S θ x x') :
    LikeTask S O θ (w.releasePlace p x) (v.releasePlace p' x') := by
  have hentry := h.entry? hp
  unfold World.releasePlace
  generalize w.entry? p = e at hentry
  generalize v.entry? p' = e' at hentry
  cases hentry with
  | none => exact h.endLeaving hx
  | @some e e' he =>
    have hless : ∀ (n : Nat) (b : Bool), EntryAlike S θ { e with count := n, armed := b } { e' with count := n, armed := b } :=
      fun n b => { he with count := rfl, armed := rfl }
    have hdisarm : Alike S O θ (if e.armed then { w with watcher := w.watcher.disarm p } else w)
        (if e.armed then { v with watcher := v.watcher.disarm p' } else v) := by
      split
      · exact h.tell (.disarm hp) (S.visible hp)
      · exact h
    dsimp only
    rw [← he.count, ← he.armed]
    split
    · exact .of (hdisarm.setEntry hp (hless (e.count - 1) false)) (.go (.tearingDown hp .none hx))
    · exact (h.setEntry hp (hless (e.count - 1) e.armed)).endLeaving hx

theorem Alike.stepTearingDown (h : Alike S O θ w v) (hp : S.path p p') {o o' : Option Turn} (ho : Option.Rel (TurnAlike S θ) o o')
    {x x' : Leaving} (hx : LeavingAlike S θ x x') : LikeTask S O θ (w.stepTearingDown p o x) (v.stepTearingDown p' o' x') := by
  obtain ⟨θ', hle, hw, hsection⟩ := h.awaitIdle hp ho
  unfold World.stepTearingDown
  generalize w.awaitIdle p o = y at hw hsection
  generalize v.awaitIdle p' o' = y' at hw hsection
  obtain ⟨w', y⟩ := y
  obtain ⟨v', y'⟩ := y'
  cases hsection with
  | go ho' => exact ⟨θ', hle, hw, .go (.tearingDown hp ho' (hx.mono hle))⟩
  | wait ho' => exact ⟨θ', hle, hw, .wait (.tearingDown hp ho' (hx.mono hle))⟩
  | pause ho' => exact ⟨θ', hle, hw, .pause (.tearingDown hp ho' (hx.mono hle))⟩
  | ended =>
    have hentry := hw.entry? hp
    dsimp only at hentry ⊢
    generalize w'.entry? p = e at hentry
    generalize v'.entry? p' = e' at hentry
    refine Like.larger hle ?_
    cases hentry with
    | none => exact hw.endLeaving (hx.mono hle)
    | some he =>
      dsimp only
      rw [← he.count]
      split
      · exact (hw.dropEntry hp).endLeaving (hx.mono hle)
      · exact hw.endLeaving (hx.mono hle)

theorem Alike.unwatch (h : Alike S O θ w v) (hp : S.path p p') (id : SubscriberId) :
    LikeTask S O θ (w.unwatch p id) (v.unwatch p' id) := by
  have hentry := h.entry? hp
  unfold World.unwatch
  generalize w.entry? p = e at hentry
  generalize v.entry? p' = e' at hentry
  cases hentry with
  | none => exact .of h (.ended (.ok (.flag false)))
  | @some e e' he =>
    have hregistered := he.registered.get? id
    dsimp only
    generalize e.registered.get? id = r at hregistered
    generalize e'.registered.get? id = r' at hregistered
    cases hregistered with
    | none => exact .of h (.ended (.ok (.flag false)))
    | some hr =>
      have herased : EntryAlike S θ { e with registered := e.registered.erase id }
          { e' with registered := e'.registered.erase id } := { he with registered := he.registered.erase id }
      exact ((h.setEntry hp herased).cancelIf hr.listener).releasePlace hp .unwatched

/-! ## Taking places -/

theorem Alike.refuses (h : Alike S O θ w v) (hp : S.path p p') : w.watcher.refuses p = v.watcher.refuses p' := by
  unfold Watcher.refuses
  rw [Bool.eq_iff_iff, List.contains_iff_mem, List.contains_iff_mem, ← S.key hp]
  exact h.refused p.key (S.visible hp)

theorem Alike.tryToArm (h : Alike S O θ w v) (hp : S.path p p') :
    Alike S O θ { w with watcher := w.watcher.tryToArm p } { v with watcher := v.watcher.tryToArm p' } := by
  have hasked : List.Forall₂ S.path ((w.watcher.attempts ++ [p]).filter fun x => S.seen x.key) (v.watcher.attempts ++ [p']) := by
    rw [List.filter_append, List.filter_cons, if_pos (S.visible hp)]
    exact List.rel_append h.attempts (.cons hp .nil)
  unfold Watcher.tryToArm
  rw [← h.refuses hp]
  cases w.watcher.refuses p with
  | true => exact { h with attempts := hasked }
  | false => exact { h.tell (.arm hp) (S.visible hp) with attempts := hasked }

theorem Alike.armEntry (h : Alike S O θ w v) (hp : S.path p p') (he : EntryAlike S θ e e') :
    Alike S O θ (w.armEntry p e).1 (v.armEntry p' e').1 ∧ EntryAlike S θ (w.armEntry p e).2 (v.armEntry p' e').2 := by
  unfold World.armEntry
  rw [← he.armed, ← h.refuses hp]
  split
  · exact ⟨h, he⟩
  · exact ⟨h.tryToArm hp, { he with armed := rfl }⟩

theorem Alike.takePlace (h : Alike S O θ w v) (hs : SeatAlike S θ seat seat') (he : EntryAlike S θ e e') :
    LikeTask S O θ (w.takePlace seat e) (v.takePlace seat' e') := by
  have hmore : EntryAlike S θ { e with joining := e.joining.insert seat.subscriber seat.joined, count := e.count + 1 }
      { e' with joining := e'.joining.insert seat.subscriber seat'.joined, count := e.count + 1 } :=
    { he with joining := he.joining.insert _ hs.joined, count := rfl }
  unfold World.takePlace
  rw [← hs.subscriber, ← he.count]
  dsimp only
  split
  · exact .of (h.setEntry hs.path hmore) (.go (.settling hs .none))
  · obtain ⟨h₁, he₁⟩ := h.armEntry hs.path hmore
    obtain ⟨θ₂, hle₂, h₂, he₂, hq⟩ := h₁.beginQuery he₁
    obtain ⟨θ₃, hle₃, h₃, hτ⟩ := (h₂.setEntry hs.path he₂).reserve hs.path
    obtain ⟨h₄, hr⟩ := h₃.startRefresh hs.path (hle₃ _ _ hq) hτ
    exact ⟨θ₃, hle₂.trans hle₃, h₄, .go (.synchronizing (hs.mono (hle₂.trans hle₃)) hr)⟩

/-- entries that have just been made -/
theorem EntryAlike.fresh (hθ : θ.Fit S O) (hp : S.path p p') : EntryAlike S θ { spelling := p } { spelling := p' } where
  spelling := hp
  contents := rfl
  modified := hθ.epoch
  external := hθ.epoch
  pendingQuery := .none
  pendingSignal := .none
  runningSignal := .none
  revokedSignals := .nil
  count := rfl
  registered := .empty
  joining := .empty
  armed := rfl

theorem Alike.stepJoining (h : Alike S O θ w v) (hp : S.path p p') (id : SubscriberId) {j j' : SignalId}
    (hj : θ.on .signal j j') {o o' : Option SignalId} (ho : Option.Rel (θ.on .signal) o o') :
    LikeTask S O θ (w.stepJoining p id j o) (v.stepJoining p' id j' o') := by
  have he : EntryAlike S θ ((w.entry? p).getD { spelling := p }) ((v.entry? p').getD { spelling := p' }) := by
    have hentry := h.entry? hp
    generalize w.entry? p = e at hentry
    generalize v.entry? p' = e' at hentry
    cases hentry with
    | none => exact .fresh h.fit hp
    | some he => exact he
  unfold World.stepJoining
  rw [← h.any_given ho]
  generalize (w.entry? p).getD { spelling := p } = e at he
  generalize (v.entry? p').getD { spelling := p' } = e' at he
  dsimp only
  rw [← he.registered.contains]
  split
  · exact .of h (.wait (.joining hp id hj ho))
  · split
    · exact .of h (.ended (.ok (.snapshot (he.snapshot hp))))
    · have hjoining := he.joining.get? id
      generalize e.joining.get? id = x at hjoining
      generalize e'.joining.get? id = x' at hjoining
      cases hjoining with
      | some hx => exact .of (h.setEntry hp he) (.go (.joining hp id hj (.some hx)))
      | none => exact h.takePlace ⟨hp, rfl, hj⟩ he

theorem Alike.requestWatch (h : Alike S O θ w v) (hp : S.path p p') (id : SubscriberId) :
    LikeTask S O θ (w.requestWatch p id) (v.requestWatch p' id) := by
  unfold World.requestWatch
  rw [← h.isShutDown]
  split
  · exact .of h (.ended (.error (.same _)))
  · exact ⟨_, θ.le_also _ _, h.freshSignal, .go (.joining hp id (θ.also_self _ _) .none)⟩

theorem Alike.listen (h : Alike S O θ w v) (hp : S.path p p') (id : SubscriberId) :
    ∃ θ', θ ≤ θ' ∧ Alike S O θ' (w.listen p id).2 (v.listen p' id).2 ∧
      Option.Rel (θ'.on .task) (w.listen p id).1 (v.listen p' id).1 := by
  unfold World.listen
  rw [← h.closed]
  split
  · exact ⟨θ, le_rfl, h, .none⟩
  · exact ⟨_, θ.le_also _ _, h.spawn .service (.listening hp id), .some (θ.also_self _ _)⟩

theorem Alike.register (h : Alike S O θ w v) (hs : SeatAlike S θ seat seat') :
    LikeTask S O θ (w.register seat) (v.register seat') := by
  have hentry := h.entry? hs.path
  unfold World.register
  generalize w.entry? seat.path = e at hentry
  generalize v.entry? seat'.path = e' at hentry
  cases hentry with
  | none => exact .of (h.endSeat hs) (.ended (.error (.other (.quoting _ _ hs.path))))
  | @some e e' he =>
    obtain ⟨θ', hle, hw, hlistener⟩ := h.listen hs.path seat.subscriber
    have he' := he.mono hle
    have hreplaced := he'.registered.get? seat.subscriber
    dsimp only
    rw [← hs.subscriber, ← he.count]
    generalize w.listen seat.path seat.subscriber = x at hw hlistener
    generalize v.listen seat'.path seat.subscriber = x' at hw hlistener
    generalize e.registered.get? seat.subscriber = r at hreplaced
    generalize e'.registered.get? seat.subscriber = r' at hreplaced
    have hregistered := he'.registered.insert seat.subscriber (a := ⟨x.1⟩) (b := ⟨x'.1⟩) ⟨hlistener⟩
    have hfinal : ∀ n : Nat, EntryAlike S θ' { e with registered := e.registered.insert seat.subscriber ⟨x.1⟩, count := n }
        { e' with registered := e'.registered.insert seat.subscriber ⟨x'.1⟩, count := n } := fun n =>
      { he' with registered := hregistered, count := rfl }
    cases hreplaced with
    | none =>
      exact ⟨θ', hle, (hw.setEntry hs.path (hfinal _)).endSeat (hs.mono hle),
        .ended (.ok (.snapshot ((hfinal _).snapshot hs.path)))⟩
    | some hr =>
      exact ⟨θ', hle, ((hw.cancelIf hr.listener).setEntry hs.path (hfinal _)).endSeat (hs.mono hle),
        .ended (.ok (.snapshot ((hfinal _).snapshot hs.path)))⟩

theorem Alike.stepSettling (h : Alike S O θ w v) (hs : SeatAlike S θ seat seat') {o o' : Option SignalId}
    (ho : Option.Rel (θ.on .signal) o o') : LikeTask S O θ (w.stepSettling seat o) (v.stepSettling seat' o') := by
  have hunsettled : Option.Rel (θ.on .signal) ((w.entry? seat.path).bind (·.unsettled w.signals))
      ((v.entry? seat'.path).bind (·.unsettled v.signals)) :=
    rel_bind (h.entry? hs.path) fun _ _ he => he.unsettled h
  unfold World.stepSettling
  rw [← h.any_given ho]
  generalize (w.entry? seat.path).bind (·.unsettled w.signals) = x at hunsettled
  generalize (v.entry? seat'.path).bind (·.unsettled v.signals) = x' at hunsettled
  split
  · exact .of h (.wait (.settling hs ho))
  · cases hunsettled with
    | some hx => exact .of h (.go (.settling hs (.some hx)))
    | none => exact h.register hs

theorem Alike.stepSynchronizing (h : Alike S O θ w v) (hs : SeatAlike S θ seat seat') {r r' : Refresh} (hr : RefreshAlike S θ r r') :
    LikeTask S O θ (w.stepSynchronizing seat r) (v.stepSynchronizing seat' r') := by
  obtain ⟨θ', hle, hw, hsection⟩ := h.stepRefresh hr
  unfold World.stepSynchronizing
  generalize w.stepRefresh r = y at hw hsection
  generalize v.stepRefresh r' = y' at hw hsection
  obtain ⟨w', y⟩ := y
  obtain ⟨v', y'⟩ := y'
  cases hsection with
  | go hr' => exact ⟨θ', hle, hw, .go (.synchronizing (hs.mono hle) hr')⟩
  | wait hr' => exact ⟨θ', hle, hw, .wait (.synchronizing (hs.mono hle) hr')⟩
  | pause hr' => exact ⟨θ', hle, hw, .pause (.synchronizing (hs.mono hle) hr')⟩
  | ended hresult =>
    cases hresult with
    | ok => exact ⟨θ', hle, hw, .go (.settling (hs.mono hle) .none)⟩
    | error he => exact (hw.releasePlace hs.path (.failed (hs.mono hle) he)).larger hle

theorem Alike.abandonSeat (h : Alike S O θ w v) (hs : SeatAlike S θ seat seat') :
    ∃ θ', θ ≤ θ' ∧ Alike S O θ' (w.abandonSeat seat) (v.abandonSeat seat') :=
  (h.endSeat hs).inBackground (.release hs.path)

theorem Alike.stepListening (h : Alike S O θ w v) (hp : S.path p p') (id : SubscriberId) :
    LikeTask S O θ (w.stepListening p id) (v.stepListening p' id) := by
  have hleft : (w.channels.get? id).any (fun c => !c.isOpen) = (v.channels.get? id).any fun c => !c.isOpen :=
    rel_any (h.channels id trivial) fun _ _ hc => congrArg (! ·) hc.isOpen
  unfold World.stepListening
  rw [← hleft]
  split
  · obtain ⟨θ', hle, hw⟩ := h.inBackground (.unwatch hp id)
    exact ⟨θ', hle, hw, .ended (.ok .nothing)⟩
  · exact .of h (.wait (.listening hp id))

/-! ## Shutting down -/

theorem Alike.stopListeners (h : Alike S O θ w v) (he : EntryAlike S θ e e') : Alike S O θ (w.stopListeners e) (v.stopListeners e') := by
  have hvalues := he.registered.values
  unfold World.stopListeners
  generalize e.registered.values = rs at hvalues
  generalize e'.registered.values = rs' at hvalues
  induction hvalues generalizing w v with
  | nil => exact h
  | cons hr _ ih => exact ih (h.cancelIf hr.listener)

theorem Alike.retire (h : Alike S O θ w v) (he : EntryAlike S θ e e') : Alike S O θ (w.retire e) (v.retire e') := by
  have hstopped := h.stopListeners he
  unfold World.retire
  rw [← he.armed]
  dsimp only
  split
  · exact hstopped.tell (.disarm he.spelling) (S.visible he.spelling)
  · exact hstopped

theorem Alike.retireAll {es es' : List Entry} (h : Alike S O θ w v) (hes : List.Forall₂ (EntryAlike S θ) es es') :
    Alike S O θ (es.foldl World.retire w) (es'.foldl World.retire v) := by
  induction hes generalizing w v with
  | nil => exact h
  | cons he _ ih => exact ih (h.retire he)

/-- runs that go the same way have the same entries in the same order -/
theorem Alike.rows (h : Alike S O θ w v) (hS : S.whole) : RowsAlike (EntryAlike S θ) w.entries v.entries :=
  .ofAgree (h.keys hS) h.entries fun k => S.all hS k

theorem EntryAlike.retired (he : EntryAlike S θ e e') :
    EntryAlike S θ (World.Entry.retired e) (World.Entry.retired e') :=
  { he with registered := .empty, count := rfl, armed := rfl }

theorem EntryAlike.putByRank {es es' : List Entry} (he : EntryAlike S θ e e') (hes : List.Forall₂ (EntryAlike S θ) es es')
    (rank : Path.Key → Nat) :
    List.Forall₂ (EntryAlike S θ) (World.putByRank rank e es) (World.putByRank rank e' es') := by
  induction hes with
  | nil => exact .cons he .nil
  | cons hx hxs ih =>
    unfold World.putByRank
    rw [← S.key he.spelling, ← S.key hx.spelling]
    split
    · exact .cons hx ih
    · exact .cons he (.cons hx hxs)

/-- entries that are alike are gone through in the same order -/
theorem Alike.inOrder (h : Alike S O θ w v) (hS : S.whole) : List.Forall₂ (EntryAlike S θ) w.inOrder v.inOrder := by
  have key : ∀ {es es' acc acc' : List Entry}, List.Forall₂ (EntryAlike S θ) es es' → List.Forall₂ (EntryAlike S θ) acc acc' →
      List.Forall₂ (EntryAlike S θ) (es.foldl (fun es e => World.putByRank w.rank e es) acc)
        (es'.foldl (fun es e => World.putByRank w.rank e es) acc') := by
    intro es es' acc acc' hes
    induction hes generalizing acc acc' with
    | nil => exact id
    | cons he _ ih => exact fun hacc => ih (he.putByRank hacc w.rank)
  unfold World.inOrder
  rw [← h.rank hS]
  exact key (h.rows hS).values .nil

theorem Alike.requestShutDown (h : Alike S O θ w v) (hS : S.whole) : LikeTask S O θ w.requestShutDown v.requestShutDown := by
  have hover : Alike S O θ { w with isShutDown := true } { v with isShutDown := true } := { h with isShutDown := rfl }
  have hstopped : Alike S O θ { World.cancelIf { w with isShutDown := true } w.pump with pump := none }
      { World.cancelIf { v with isShutDown := true } v.pump with pump := none } :=
    { hover.cancelIf h.pump with pump := .none }
  have hvalues := hstopped.inOrder hS
  have hretired := hstopped.retireAll hvalues
  have hspellings := (List.forall₂_map_left_iff (f := Entry.spelling)).2 ((List.forall₂_map_right_iff (f := Entry.spelling)).2
    (hvalues.imp fun _ _ he => he.spelling))
  refine .of ?_ (.go (.closing hS hspellings))
  exact
    { hretired with
      entries := hretired.entries.map fun _ _ he => he.retired
      keys := fun _ => (keys_map _ _).trans ((hretired.keys hS).trans (keys_map _ _).symm)
      closed := rfl
      active := hretired.active }

theorem Alike.drainNext (h : Alike S O θ w v) (hS : S.whole) {ps ps' : List Path} (hps : List.Forall₂ S.path ps ps') :
    LikeTask S O θ (w.drainNext ps) (v.drainNext ps') := by
  cases hps with
  | nil =>
    refine .of ?_ (.ended (.ok .nothing))
    exact { h with entries := fun _ _ => .none, keys := fun _ => rfl }
  | cons hp hrest => exact .of h (.go (.draining hS hp .none hrest))

theorem Alike.stepClosing (h : Alike S O θ w v) (hS : S.whole) {ps ps' : List Path} (hps : List.Forall₂ S.path ps ps') :
    LikeTask S O θ (w.stepClosing ps) (v.stepClosing ps') := by
  unfold World.stepClosing
  rw [← h.active hS]
  split
  · exact h.drainNext hS hps
  · exact .of h (.wait (.closing hS hps))

theorem Alike.stepDraining (h : Alike S O θ w v) (hS : S.whole) (hp : S.path p p') {o o' : Option Turn}
    (ho : Option.Rel (TurnAlike S θ) o o') {ps ps' : List Path} (hps : List.Forall₂ S.path ps ps') :
    LikeTask S O θ (w.stepDraining p o ps) (v.stepDraining p' o' ps') := by
  obtain ⟨θ', hle, hw, hsection⟩ := h.awaitIdle hp ho
  unfold World.stepDraining
  generalize w.awaitIdle p o = y at hw hsection
  generalize v.awaitIdle p' o' = y' at hw hsection
  obtain ⟨w', y⟩ := y
  obtain ⟨v', y'⟩ := y'
  cases hsection with
  | go ho' => exact ⟨θ', hle, hw, .go (.draining hS hp ho' hps)⟩
  | wait ho' => exact ⟨θ', hle, hw, .wait (.draining hS hp ho' hps)⟩
  | pause ho' => exact ⟨θ', hle, hw, .pause (.draining hS hp ho' hps)⟩
  | ended => exact (hw.drainNext hS hps).larger hle

theorem Alike.stepAwaitingQuiet (h : Alike S O θ w v) (hS : S.whole) : LikeTask S O θ w.stepAwaitingQuiet v.stepAwaitingQuiet := by
  unfold World.stepAwaitingQuiet
  rw [← h.active hS]
  split
  · exact .of h (.ended (.ok .nothing))
  · exact .of h (.wait (.awaitingQuiet hS))

/-! ## Streams of events -/

/-- the next event of a stream, if there is one, can be seen -/
def World.NextSeen (S : Scope) (w : World) (s : StreamId) : Prop :=
  ∀ ev ∈ (w.streams.getD s {}).buffer.head?, S.seen ev.path.key = true

theorem Alike.closeReceiver (h : Alike S O θ w v) (s : StreamId) : Alike S O θ (w.closeReceiver s) (v.closeReceiver s) :=
  { h with streams := h.streams.modify s fun _ _ hc => ⟨.nil, rfl, rfl, hc.sender⟩ }

/-- what is read from channels that are alike -/
inductive ReadingAlike {α : Type} (r : α → α → Prop) : Channel.Reading α → Channel.Reading α → Prop
  | message {x x' : α} (h : r x x') : ReadingAlike r (.message x) (.message x')
  | ended : ReadingAlike r .ended .ended
  | nothing : ReadingAlike r .nothing .nothing

/-- channels that are alike are read alike, if what comes next can be seen -/
theorem ChannelAlike.read {α : Type} {visible : α → Bool} {r : α → α → Prop} {c c' : Channel α} (h : ChannelAlike visible r c c')
    (hnext : ∀ x ∈ c.buffer.head?, visible x = true) :
    ReadingAlike r c.read.1 c'.read.1 ∧ ChannelAlike visible r c.read.2 c'.read.2 := by
  obtain ⟨b, o, x, y⟩ := c
  obtain ⟨b', o', x', y'⟩ := c'
  obtain ⟨hbuffer, rfl, rfl, rfl⟩ := h
  cases b with
  | nil =>
    cases hbuffer
    refine ⟨?_, .nil, rfl, rfl, rfl⟩
    change ReadingAlike r (if o && y then .nothing else .ended) (if o && y then .nothing else .ended)
    split
    · exact .nothing
    · exact .ended
  | cons m rest =>
    dsimp only at hbuffer
    rw [List.filter_cons, if_pos (hnext m rfl)] at hbuffer
    cases hbuffer with
    | cons hm hrest => exact ⟨.message hm, hrest, rfl, rfl, rfl⟩

theorem Alike.stepPumping (h : Alike S O θ w v) (s : StreamId) (hnext : w.NextSeen S s) :
    LikeTask S O θ (w.stepPumping s) (v.stepPumping s) := by
  have hchannel := h.streams.getD (k := s) trivial (a := {}) (b := {}) ⟨.nil, rfl, rfl, rfl⟩
  obtain ⟨hreading, hrest⟩ := hchannel.read hnext
  unfold World.stepPumping
  generalize (w.streams.getD s {}).read = x at hreading hrest
  generalize (v.streams.getD s {}).read = x' at hreading hrest
  obtain ⟨x, c⟩ := x
  obtain ⟨x', c'⟩ := x'
  cases hreading with
  | message hev =>
    have hset : Alike S O θ { w with streams := w.streams.insert s c } { v with streams := v.streams.insert s c' } :=
      { h with streams := h.streams.insert s hrest }
    obtain ⟨θ', hle, hw⟩ := hset.inBackground (.reconcile hev.path)
    exact ⟨θ', hle, hw, .go (.pumping s)⟩
  | ended => exact .of (h.closeReceiver s) (.ended (.ok .nothing))
  | nothing => exact .of h (.wait (.pumping s))

/-! ## Sections -/

theorem Like.ofPart {σ α : Type} {r : Pairing → σ → σ → Prop} {q : α → α → Prop} {x y : World × Section σ (Except Problem α)}
    (h : Like S O θ (fun θ' => SectionAlike (r θ') (ResultAlike (ProblemAlike S) q)) x y) {phase : σ → Activity}
    {answer : α → Answer} (hphase : ∀ {θ' a b}, r θ' a b → ActivityAlike S θ' (phase a) (phase b))
    (hanswer : ∀ {θ' a b}, q a b → AnswerAlike S θ' (answer a) (answer b)) :
    LikeTask S O θ (ofPart phase answer x) (ofPart phase answer y) := by
  obtain ⟨w', x⟩ := x
  obtain ⟨v', y⟩ := y
  obtain ⟨θ', hle, hw, hsection⟩ := h
  cases hsection with
  | go hs => exact ⟨θ', hle, hw, .go (hphase hs)⟩
  | wait hs => exact ⟨θ', hle, hw, .wait (hphase hs)⟩
  | pause hs => exact ⟨θ', hle, hw, .pause (hphase hs)⟩
  | ended hresult =>
    cases hresult with
    | error he => exact ⟨θ', hle, hw, .ended (.error he)⟩
    | ok ha => exact ⟨θ', hle, hw, .ended (.ok (hanswer ha))⟩

theorem Alike.answered {α : Type} {q : α → α → Prop} (h : Alike S O θ w v) {r r' : Except Failure α}
    (hr : ResultAlike (FailureAlike S) q r r') {answer : α → Answer} (hanswer : ∀ {a b}, q a b → AnswerAlike S θ (answer a) (answer b)) :
    LikeTask S O θ (answered w answer r) (answered v answer r') := by
  cases hr with
  | error hf => exact .of h (.ended (.error (.other hf)))
  | ok ha => exact .of h (.ended (.ok (hanswer ha)))

theorem Alike.begin (h : Alike S O θ w v) {y y' : Request} (hy : RequestAlike S y y') : LikeTask S O θ (w.begin y) (v.begin y') := by
  cases hy with
  | watch hp id => exact h.requestWatch hp id
  | unwatch hp id => exact h.unwatch hp id
  | write hp bytes => exact (h.requestSave hp bytes).ofPart (fun hs => .saving hs) fun _ => .nothing
  | reconcile hp =>
    refine (h.requestRefresh hp).ofPart (fun hr => .refreshing hr) ?_
    rintro _ a _ rfl
    exact .flag a
  | release hp => exact h.releasePlace hp .abandoned
  | waitIdle hS => exact .of h (.go (.awaitingQuiet hS))
  | shutDown hS => exact h.requestShutDown hS
  | diskStat hp => exact h.beginCall .stat hp fun c c' hc => .diskStat hp hc
  | diskRead hp => exact h.beginCall .read hp fun c c' hc => .diskRead hp hc
  | diskWrite hp bytes => exact h.beginCall .write hp fun c c' hc => .diskWrite bytes hp hc

/-- **In worlds that are alike, sections of tasks that are alike do what is alike**: a section of the pump, if it meets no event
that cannot be seen. -/
theorem Alike.step (h : Alike S O θ w v) {a a' : Activity} (ha : ActivityAlike S θ a a')
    (hnext : ∀ s, a = .pumping s → w.NextSeen S s) : LikeTask S O θ (w.step a) (v.step a') := by
  cases ha with
  | starting hy => exact h.begin hy
  | refreshing hr =>
    refine (h.stepRefresh hr).ofPart (fun hr => .refreshing hr) ?_
    rintro _ a _ rfl
    exact .flag a
  | saving hx => exact (h.stepSave hx).ofPart (fun hs => .saving hs) fun _ => .nothing
  | joining hp id hj ho => exact h.stepJoining hp id hj ho
  | synchronizing hs hr => exact h.stepSynchronizing hs hr
  | settling hs ho => exact h.stepSettling hs ho
  | tearingDown hp ho hl => exact h.stepTearingDown hp ho hl
  | awaitingQuiet hS => exact h.stepAwaitingQuiet hS
  | closing hS hps => exact h.stepClosing hS hps
  | draining hS hp ho hps => exact h.stepDraining hS hp ho hps
  | diskStat hp hc =>
    cases hc with
    | held hg => exact h.atGate hg fun c c' hc => .diskStat hp hc
    | due => exact (h.leaveDisk hp).answered (h.stat hp) fun hst => .stat hst
  | diskRead hp hc =>
    cases hc with
    | held hg => exact h.atGate hg fun c c' hc => .diskRead hp hc
    | due =>
      refine (h.leaveDisk hp).answered (h.read hp) ?_
      rintro a _ rfl
      exact .text a
  | diskWrite bytes hp hc =>
    cases hc with
    | held hg => exact h.atGate hg fun c c' hc => .diskWrite bytes hp hc
    | due =>
      obtain ⟨θ', hle, hw, hr⟩ := h.write hp bytes
      exact ((hw.leaveDisk hp).answered hr fun _ => .nothing).larger hle
  | listening hp id => exact h.stepListening hp id
  | pumping s => exact h.stepPumping s (hnext s rfl)

/-- **Cancelled tasks that are alike let go of what is alike.** -/
theorem Alike.abandon (h : Alike S O θ w v) {a a' : Activity} (ha : ActivityAlike S θ a a') :
    ∃ θ', θ ≤ θ' ∧ Alike S O θ' (w.abandon a) (v.abandon a') := by
  cases ha with
  | refreshing hr => exact ⟨θ, le_rfl, h.dropRefresh hr⟩
  | saving hx => exact ⟨θ, le_rfl, h.dropSave hx⟩
  | synchronizing hs hr => exact (h.dropRefresh hr).abandonSeat hs
  | settling hs ho => exact h.abandonSeat hs
  | tearingDown hp ho hl =>
    have hback := h.giveBackIf ho
    cases hl with
    | failed hs he => exact ⟨θ, le_rfl, hback.endSeat hs⟩
    | unwatched => exact ⟨θ, le_rfl, hback⟩
    | abandoned => exact ⟨θ, le_rfl, hback⟩
  | draining hS hp ho hps => exact ⟨θ, le_rfl, h.giveBackIf ho⟩
  | diskStat hp hc => exact ⟨θ, le_rfl, h.leaveDisk hp⟩
  | diskRead hp hc => exact ⟨θ, le_rfl, h.leaveDisk hp⟩
  | diskWrite bytes hp hc => exact ⟨θ, le_rfl, h.leaveDisk hp⟩
  | pumping s => exact ⟨θ, le_rfl, h.closeReceiver s⟩
  | starting | joining | awaitingQuiet | closing | listening => exact ⟨θ, le_rfl, h⟩

end LiveFiles.Engine
