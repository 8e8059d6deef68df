/-
What subscribers have to do with. Of an entry that is its `Face`: the version that it has, who is registered or joining, and
the count; beside the faces of all entries there are the channels through which subscribers are shown snapshots
(`World.front`).
- Turns, signals, background work and calls to the disk do not come into it: the equations `front_…` say for each operation
  on the world what it does to the front.
- **`dealing_step`**: what a section of any task does to the front (`Dealing`). A version changes only where a section commits
  (`World.commits?`), and then it is shown in the same section to all who are registered (`Front.publish`).
- `front_abandon`: a cancelled task gives up its seat, and that is all.
- `dealing_serve`, `front_cancelled`, `front_nobody` and `faces_outside` say the same of a move.
-/
import LiveFiles.Proofs.Pending
import LiveFiles.Proofs.Places

namespace LiveFiles

/-- the snapshot of a path that has a version, or none -/
def Snapshot.ofVersion (p : Path) : Option Version → Snapshot
  | some v => .present p v
  | none => .missing p

namespace Engine

theorem contains_of_erase {κ α : Type} [DecidableEq κ] {t : Table κ α} {x y : κ} (h : (t.erase x).contains y = true) :
    t.contains y = true := by
  rw [Table.contains, Table.get?_erase] at h
  split at h
  · cases h
  · exact h

/-! ## Faces -/

/-- what subscribers have to do with in an entry -/
structure Face where
  version : Option Version
  count : Nat
  registered : Table SubscriberId Registration
  joining : Table SubscriberId SignalId

/-- the version of a file that an entry has -/
def Entry.version? (e : Entry) : Option Version := e.contents.map fun text => ⟨text, e.modified, e.external⟩

def Entry.face (e : Entry) : Face := ⟨e.version?, e.count, e.registered, e.joining⟩

theorem snapshot_eq_ofVersion (e : Entry) (p : Path) : e.snapshot p = .ofVersion p e.version? := by
  unfold Entry.snapshot Entry.version?
  cases e.contents <;> rfl

namespace Face

/-- an entry that has just been made -/
def blank : Face := ⟨none, 0, .empty, .empty⟩

/-- a call that was joining is over, unless another one has come in its place -/
def unseat (f : Face) (id : SubscriberId) (joined : SignalId) : Face :=
  if f.joining.get? id = some joined then { f with joining := f.joining.erase id } else f

def retired (f : Face) : Face := { f with registered := .empty, count := 0 }

@[simp] theorem version_unseat (f : Face) (id : SubscriberId) (joined : SignalId) :
    (f.unseat id joined).version = f.version := by
  unfold unseat
  split <;> rfl

@[simp] theorem registered_unseat (f : Face) (id : SubscriberId) (joined : SignalId) :
    (f.unseat id joined).registered = f.registered := by
  unfold unseat
  split <;> rfl

end Face

/-- the faces of all entries, the channels to subscribers, and the number of the next subscriber -/
structure Front where
  face? : Path.Key → Option Face
  channels : Table SubscriberId (Channel Snapshot)
  nextSubscriber : Nat

def World.front (w : World) : Front := ⟨fun k => (w.entries.get? k).map Entry.face, w.channels, w.nextSubscriber⟩

namespace Front

def put (v : Front) (k : Path.Key) (f : Option Face) : Front := { v with face? := Function.update v.face? k f }

def unseat (v : Front) (seat : Seat) : Front :=
  v.put seat.path.key ((v.face? seat.path.key).map (·.unseat seat.subscriber seat.joined))

/-- what is left to do for those who give a place back -/
def leave (v : Front) : Leaving → Front
  | .failed seat _ => v.unseat seat
  | .unwatched | .abandoned => v

def send (v : Front) (x : Snapshot) (ids : List SubscriberId) : Front :=
  { v with channels := ids.foldl (fun cs id => World.deliver cs x id) v.channels }

/-- a version is put into the entry of a path and shown to all who are registered there -/
def publish (v : Front) (p : Path) (f : Face) (x : Option Version) : Front :=
  (v.put p.key (some { f with version := x })).send (.ofVersion p x) f.registered.keys

theorem face?_put (v : Front) (k k' : Path.Key) (f : Option Face) :
    (v.put k f).face? k' = if k' = k then f else v.face? k' := Function.update_apply v.face? k f k'

theorem put_self {v : Front} {k : Path.Key} {f : Option Face} (h : v.face? k = f) : v.put k f = v := by
  rw [← h, put, Function.update_eq_self]

theorem face?_unseat (v : Front) (seat : Seat) (k : Path.Key) :
    (v.unseat seat).face? k =
      if k = seat.path.key then (v.face? k).map (·.unseat seat.subscriber seat.joined) else v.face? k := by
  rw [unseat, face?_put]
  split
  · rename_i h
    rw [h]
  · rfl

theorem unseat_of_absent {v : Front} {seat : Seat} (h : v.face? seat.path.key = none) : v.unseat seat = v := by
  rw [unseat, h]
  exact put_self h

end Front

/-- a subscriber is registered at a path -/
def World.isRegistered (w : World) (p : Path) (id : SubscriberId) : Bool :=
  (w.entry? p).any fun e => e.registered.contains id

/-! ## The path at which a section commits -/

/-- the call to watch that has a seat: one that has a place, or whose first synchronization has failed -/
def Activity.seat? : Activity → Option Seat
  | .synchronizing seat _ | .settling seat _ | .tearingDown _ _ (.failed seat _) => some seat
  | _ => none

/-- the call to watch that has a place -/
def Activity.holder? : Activity → Option Seat
  | .synchronizing seat _ | .settling seat _ => some seat
  | _ => none

/-- a reconciliation ends in its next section, and has changed the entry -/
def Refresh.commits (w : World) (r : Refresh) : Bool :=
  match (w.stepRefresh r).2 with
  | .ended (.ok true) => true
  | _ => false

/-- a write ends in its next section, and has succeeded -/
def Save.commits (w : World) (x : Save) : Bool :=
  match (w.stepSave x).2 with
  | .ended (.ok _) => true
  | _ => false

/-- the path at which a section of a task commits: it ends a reconciliation that has changed the entry, or a write that has
succeeded -/
def World.commits? (w : World) : Activity → Option Path
  | .refreshing r | .synchronizing _ r => if r.commits w then some r.path else none
  | .saving x => if x.commits w then some x.job.path else none
  | _ => none

variable {w w' : World} {p : Path} {e e' : Entry} {σ α : Type}

theorem Refresh.commits_iff {r : Refresh} : r.commits w = true ↔ (w.stepRefresh r).2 = .ended (.ok true) := by
  unfold Refresh.commits
  split
  · simp [*]
  · rename_i h
    simpa using h

theorem Save.commits_iff {x : Save} : x.commits w = true ↔ (w.stepSave x).2 = .ended (.ok ()) := by
  unfold Save.commits
  split
  · simp [*]
  · rename_i h
    simpa using h ()

/-! ## Operations on the world -/

theorem face?_of_present (h : w.entry? p = some e) : w.front.face? p.key = some e.face :=
  congrArg (Option.map Entry.face) h

theorem face?_of_absent (h : w.entry? p = none) : w.front.face? p.key = none := congrArg (Option.map Entry.face) h

theorem isRegistered_iff {id : SubscriberId} : w.isRegistered p id = true ↔
    ∃ f, w.front.face? p.key = some f ∧ f.registered.contains id = true := by
  rw [World.isRegistered, World.front, Option.any_eq_true]
  constructor
  · rintro ⟨e, he, h⟩
    exact ⟨e.face, congrArg (Option.map Entry.face) he, h⟩
  · rintro ⟨f, hf, h⟩
    obtain ⟨e, he, rfl⟩ := Option.map_eq_some_iff.1 hf
    exact ⟨e, he, h⟩

@[simp] theorem front_wake (w : World) (a : Await) : (w.wake a).front = w.front := rfl

@[simp] theorem front_cancelIf (w : World) (id : Option TaskId) : (w.cancelIf id).front = w.front := by cases id <;> rfl

@[simp] theorem front_giveIf (w : World) (x : Option SignalId) : (w.giveIf x).front = w.front := by cases x <;> rfl

@[simp] theorem front_giveBack (w : World) (τ : Turn) : (w.giveBack τ).front = w.front := by
  unfold World.giveBack
  dsimp only
  split <;> rfl

@[simp] theorem front_giveBackIf (w : World) (turn : Option Turn) : (w.giveBackIf turn).front = w.front := by
  cases turn with
  | none => rfl
  | some τ => exact front_giveBack w τ

@[simp] theorem front_leaveDisk (w : World) (p : Path) : (w.leaveDisk p).front = w.front := rfl

@[simp] theorem front_beginCall (w : World) (op : DiskOp) (p : Path) (k : Call → σ) :
    (w.beginCall (α := α) op p k).1.front = w.front := by
  unfold World.beginCall
  dsimp only
  split
  · split <;> rfl
  · rfl

@[simp] theorem front_atGate (w : World) (g : GateId) (k : Call → σ) : (w.atGate (α := α) g k).1.front = w.front := by
  unfold World.atGate
  split <;> rfl

@[simp] theorem front_inBackground (w : World) (r : Request) : (w.inBackground r).front = w.front := by
  unfold World.inBackground
  split <;> rfl

@[simp] theorem front_awaitIdle (w : World) (p : Path) (turn : Option Turn) : (w.awaitIdle p turn).1.front = w.front := by
  cases turn with
  | some τ =>
    simp only [World.awaitIdle]
    split
    · exact front_giveBack w τ
    · rfl
  | none =>
    simp only [World.awaitIdle]
    split <;> rfl

@[simp] theorem front_listen (w : World) (p : Path) (id : SubscriberId) : (w.listen p id).2.front = w.front := by
  unfold World.listen
  split <;> rfl

@[simp] theorem front_setEntry (w : World) (p : Path) (e : Entry) :
    (w.setEntry p e).front = w.front.put p.key (some e.face) := by
  refine congrArg (Front.mk · w.channels w.nextSubscriber) (funext fun k => ?_)
  simp only [World.setEntry, Table.get?_insert, Function.update_apply, World.front, eq_comm (a := k)]
  split <;> rfl

/-- an entry is put in place of one with the same face -/
theorem front_setEntry_of_face (he : w.entry? p = some e) (h : e'.face = e.face) : (w.setEntry p e').front = w.front := by
  rw [front_setEntry, h]
  exact Front.put_self (face?_of_present he)

@[simp] theorem front_dropEntry (w : World) (p : Path) : (w.dropEntry p).front = w.front.put p.key none := by
  refine congrArg (Front.mk · w.channels w.nextSubscriber) (funext fun k => ?_)
  simp only [World.dropEntry, Table.get?_erase, Function.update_apply, World.front, eq_comm (a := k)]
  split <;> rfl

@[simp] theorem front_forgetRevoked (w : World) (p : Path) : (w.forgetRevoked p).front = w.front := by
  refine congrArg (Front.mk · w.channels w.nextSubscriber) (funext fun k => ?_)
  simp only [World.forgetRevoked, World.modifyEntry, Table.get?_modify]
  split
  · cases w.entries.get? k <;> rfl
  · rfl

@[simp] theorem front_endSeat (w : World) (seat : Seat) : (w.endSeat seat).front = w.front.unseat seat := by
  refine congrArg (Front.mk · w.channels w.nextSubscriber) (funext fun k => ?_)
  simp only [World.endSeat, World.give, World.wake, World.modifyEntry, Table.get?_modify, World.front,
    Function.update_apply, eq_comm (a := k)]
  split
  · rename_i hk
    subst hk
    cases w.entries.get? seat.path.key with
    | none => rfl
    | some e =>
      simp only [Option.map_some, Option.some.injEq, Face.unseat]
      have hj : e.face.joining = e.joining := rfl
      rw [hj]
      split <;> rfl
  · rfl

theorem front_broadcast {x : Snapshot} (h : w.entry? x.path = some e) :
    (w.broadcast x).front = w.front.send x e.registered.keys := by
  simp only [World.broadcast, h]
  rfl

/-- what is left of a call that gives a place back -/
@[simp] theorem front_endLeaving (w : World) (l : Leaving) : (w.endLeaving l).1.front = w.front.leave l := by
  cases l with
  | unwatched => rfl
  | failed seat e => exact front_endSeat w seat
  | abandoned => rfl

/-! ## Reconciliations -/

@[simp] theorem front_endLook (w : World) (l : Look) (x : Refreshed) : (w.endLook l x).1.front = w.front := by
  simp [World.endLook]

/-- what the end of a reconciliation or of a write does: nothing that subscribers see, or it commits -/
inductive Commits (v : Front) (p : Path) (v' : Front) (committed : Prop) : Prop
  | not (h : ¬ committed) (hv : v' = v)
  | unseen (hf : v.face? p.key = none) (hv : v' = v)
  | commit (f : Face) (x : Option Version) (h : committed) (hf : v.face? p.key = some f) (hv : v' = v.publish p f x)

/-- a version is put into an entry and shown -/
theorem front_publish (e' : Entry) (hc : e'.count = e.count) (hr : e'.registered = e.registered)
    (hj : e'.joining = e.joining) {w₁ : World} (h₁ : w₁.front = (w.setEntry p e').front)
    (h₂ : ∃ e'', w₁.entry? p = some e'' ∧ e''.registered = e.registered) :
    (w₁.broadcast (e'.snapshot p)).front = w.front.publish p e.face e'.version? := by
  obtain ⟨e'', he'', hr''⟩ := h₂
  have hpath : (e'.snapshot p).path = p := snapshot_path e' p
  rw [front_broadcast (e := e'') (by rw [hpath]; exact he''), h₁, front_setEntry, hr'', snapshot_eq_ofVersion]
  have hface : e'.face = { e.face with version := e'.version? } := by
    simp only [Entry.face, hc, hr, hj]
  rw [hface]
  rfl

theorem commits_conclude (w : World) (l : Look) (o : Observation) :
    Commits w.front l.path (w.conclude l o).1.front ((w.conclude l o).2 = .ended (.ok true)) := by
  unfold World.conclude
  cases he : w.entry? l.path with
  | none => exact .unseen (face?_of_absent he) (front_endLook w l _)
  | some e =>
    have hset : ∀ e', World.entry? ((w.setEntry l.path e').giveIf l.signal) l.path = some e' := fun e' => by
      rw [World.entry?, (aside_giveIf _ l.signal).entries]
      simp [World.setEntry, Table.get?_insert]
    cases o with
    | unchanged =>
      refine .not (by simp [Entry.commit]) ?_
      simp only [Entry.commit, Bool.false_eq_true, if_false, front_giveBack, front_giveIf]
      exact front_setEntry_of_face he rfl
    | missing =>
      refine .commit e.face none rfl (face?_of_present he) ?_
      simp only [Entry.commit, if_true, front_giveBack]
      exact front_publish (Entry.markMissing { e with runningSignal := none }) rfl rfl rfl (front_giveIf _ _)
        ⟨_, hset _, rfl⟩
    | changed text m =>
      refine .commit e.face (some ⟨text, m, m⟩) rfl (face?_of_present he) ?_
      simp only [Entry.commit, if_true, front_giveBack]
      exact front_publish
        { e with runningSignal := none, contents := some text, modified := m, external := m } rfl rfl rfl
        (front_giveIf _ _) ⟨_, hset _, rfl⟩

theorem front_requestRefresh (w : World) (p : Path) : (w.requestRefresh p).1.front = w.front := by
  unfold World.requestRefresh
  cases he : w.entry? p with
  | none => rfl
  | some e =>
    obtain ⟨signal, signals, hq, -⟩ := beginQuery_eq w e
    simp only [hq]
    exact front_setEntry_of_face (w := { w with signals, nextQuery := w.nextQuery + 1 }) he rfl

theorem front_enterRefresh (w : World) (p : Path) (q : QueryId) (τ : Turn) :
    (w.enterRefresh p q τ).1.front = w.front ∧ (w.enterRefresh p q τ).2 ≠ .ended (.ok true) := by
  unfold World.enterRefresh
  cases he : w.entry? p with
  | none => exact ⟨front_giveBack w τ, by simp⟩
  | some e =>
    dsimp only
    split
    · exact ⟨front_giveBack w τ, by simp⟩
    · refine ⟨(front_beginCall _ _ _ _).trans (front_setEntry_of_face he rfl), fun h => ?_⟩
      obtain ⟨c, hc⟩ := next_beginCall (α := Refreshed) (w.setEntry p
        { e with pendingQuery := none, pendingSignal := none, runningSignal := e.pendingSignal }) .stat p
        (Refresh.looking ⟨p, τ, e.pendingSignal, e.contents.isSome, e.modified⟩)
      rw [h] at hc
      cases hc

/-- **What a section of a reconciliation does to the front.** -/
theorem commits_stepRefresh (w : World) (r : Refresh) :
    Commits w.front r.path (w.stepRefresh r).1.front ((w.stepRefresh r).2 = .ended (.ok true)) := by
  have hcall : ∀ (w₁ : World) op p (k : Call → Refresh), w₁.front = w.front → Commits w.front r.path
      (w₁.beginCall (α := Refreshed) op p k).1.front ((w₁.beginCall (α := Refreshed) op p k).2 = .ended (.ok true)) :=
    fun w₁ op p k h => .not (fun h' => by
      obtain ⟨c, hc⟩ := next_beginCall (α := Refreshed) w₁ op p k
      rw [h'] at hc
      cases hc) ((front_beginCall w₁ op p k).trans h)
  have hgate : ∀ g (k : Call → Refresh), Commits w.front r.path (w.atGate (α := Refreshed) g k).1.front
      ((w.atGate (α := Refreshed) g k).2 = .ended (.ok true)) := fun g k => .not (fun h' => by
    obtain ⟨c, hc⟩ := next_atGate (α := Refreshed) w g k
    rw [h'] at hc
    cases hc) (front_atGate w g k)
  match r with
  | .queued p q τ =>
    simp only [World.stepRefresh]
    split
    · exact .not (front_enterRefresh w p q τ).2 (front_enterRefresh w p q τ).1
    · exact .not (by simp) rfl
  | .looking l (.held g) => exact hgate g _
  | .looking l .due =>
    simp only [World.stepRefresh, World.haveLooked]
    split
    · exact .not (by simp [World.endLook]) (front_endLook _ l _)
    · exact commits_conclude (w.leaveDisk l.path) l _
    · split
      · exact commits_conclude (w.leaveDisk l.path) l _
      · exact hcall _ _ _ _ rfl
  | .reading l m (.held g) => exact hgate g _
  | .reading l m .due =>
    simp only [World.stepRefresh, World.haveRead]
    split
    · exact commits_conclude (w.leaveDisk l.path) l _
    · exact hcall _ _ _ _ rfl
  | .lookingAgain l f (.held g) => exact hgate g _
  | .lookingAgain l f .due =>
    simp only [World.stepRefresh, World.haveLookedAgain]
    split
    · exact .not (by simp [World.endLook]) (front_endLook _ l _)
    · exact commits_conclude (w.leaveDisk l.path) l _
    · exact .not (by simp [World.endLook]) (front_endLook _ l _)

@[simp] theorem front_dropRefresh (w : World) (r : Refresh) : (w.dropRefresh r).front = w.front := by
  cases r <;> simp [World.dropRefresh]

/-! ## Writes -/

theorem front_requestSave (w : World) (p : Path) (bytes : ByteArray) : (w.requestSave p bytes).1.front = w.front := by
  unfold World.requestSave
  split
  · rfl
  · cases he : w.entry? p with
    | none =>
      dsimp only
      split <;> rfl
    | some e =>
      have hface : (World.revoke e).2.2.face = e.face := by
        unfold World.revoke
        split <;> rfl
      exact front_setEntry_of_face he hface

@[simp] theorem front_failSave (w : World) (job : SaveJob) (x : Problem) : (w.failSave job x).1.front = w.front := by
  unfold World.failSave
  dsimp only
  split <;> simp

/-- a write that ends well publishes its text where there is an entry -/
theorem front_commitSave {job : SaveJob} (he : w.entry? job.path = some e) (m : Instant) :
    (w.commitSave job m).1.front =
      w.front.publish job.path e.face (some ⟨Text.Utf8.decodeLossy job.bytes, m, e.external⟩) := by
  simp only [World.commitSave, he, Option.map_some, front_giveBack]
  refine front_publish { e with contents := some (Text.Utf8.decodeLossy job.bytes), modified := m } rfl rfl rfl ?_ ?_
  · split <;> simp
  · have hset : World.entry? ((w.setEntry job.path { e with
        contents := some (Text.Utf8.decodeLossy job.bytes), modified := m }).giveIf job.waiters) job.path =
          some { e with contents := some (Text.Utf8.decodeLossy job.bytes), modified := m } := by
      rw [World.entry?, (aside_giveIf _ job.waiters).entries]
      simp [World.setEntry, Table.get?_insert]
    split
    · have hforget := congrArg (Option.map fun e : Entry => e.registered) hset
      refine (Option.map_eq_some_iff.1 (?_ : Option.map (fun e : Entry => e.registered) _ = some e.registered)).imp
        fun e'' h => h
      have hfront := congrArg (fun v : Front => (v.face? job.path.key).map Face.registered) (front_forgetRevoked
        ((w.setEntry job.path { e with
          contents := some (Text.Utf8.decodeLossy job.bytes), modified := m }).giveIf job.waiters) job.path)
      simp only [World.front, Option.map_map] at hfront
      exact hfront.trans hforget
    · exact ⟨_, hset, rfl⟩

/-- and where there is none, it shows nothing -/
theorem front_commitSave_of_absent {job : SaveJob} (hno : w.entry? job.path = none) (m : Instant) :
    (w.commitSave job m).1.front = w.front := by
  simp only [World.commitSave, hno, Option.map_none, front_giveBack]
  split <;> simp

theorem commits_commitSave (w : World) (job : SaveJob) (m : Instant) :
    Commits w.front job.path (w.commitSave job m).1.front ((w.commitSave job m).2 = .ended (.ok ())) := by
  cases he : w.entry? job.path with
  | none => exact .unseen (face?_of_absent he) (front_commitSave_of_absent he m)
  | some e => exact .commit e.face _ rfl (face?_of_present he) (front_commitSave he m)

/-- **What a section of a write does to the front.** -/
theorem commits_stepSave (w : World) (x : Save) :
    Commits w.front x.job.path (w.stepSave x).1.front ((w.stepSave x).2 = .ended (.ok ())) := by
  have hcall : ∀ (w₁ : World) op p (k : Call → Save), w₁.front = w.front → Commits w.front x.job.path
      (w₁.beginCall (α := Saved) op p k).1.front ((w₁.beginCall (α := Saved) op p k).2 = .ended (.ok ())) :=
    fun w₁ op p k h => .not (fun h' => by
      obtain ⟨c, hc⟩ := next_beginCall (α := Saved) w₁ op p k
      rw [h'] at hc
      cases hc) ((front_beginCall w₁ op p k).trans h)
  have hgate : ∀ g (k : Call → Save), Commits w.front x.job.path (w.atGate (α := Saved) g k).1.front
      ((w.atGate (α := Saved) g k).2 = .ended (.ok ())) := fun g k => .not (fun h' => by
    obtain ⟨c, hc⟩ := next_atGate (α := Saved) w g k
    rw [h'] at hc
    cases hc) (front_atGate w g k)
  match x with
  | .queued job =>
    simp only [World.stepSave]
    split
    · exact hcall _ _ _ _ rfl
    · exact .not (by simp) rfl
  | .writing job (.held g) => exact hgate g _
  | .writing job .due =>
    simp only [World.stepSave, World.haveWritten]
    split
    · exact .not (by simp [World.failSave]) (front_failSave _ job _)
    · exact hcall _ _ _ _ rfl
  | .looking job (.held g) => exact hgate g _
  | .looking job .due =>
    simp only [World.stepSave, World.haveLookedUp]
    split
    · exact .not (by simp [World.failSave]) (front_failSave _ job _)
    · exact .not (by simp [World.failSave]) (front_failSave _ job _)
    · exact commits_commitSave (w.leaveDisk job.path) job _

@[simp] theorem front_dropSave (w : World) (x : Save) : (w.dropSave x).front = w.front := by
  cases x <;> simp [World.dropSave]

/-! ## What a section of a task does -/

/-- What a section of a task in phase `a` does to the front `v`; it is `v'` afterwards, the task is in phase `next`, and the
section may commit at a path. -/
inductive Dealing (v : Front) (a : Activity) (v' : Front) (next : Option Activity) : Option Path → Prop
  | still (hv : v' = v) (hs : next.bind Activity.seat? = a.seat?) (hh : next.bind Activity.holder? = a.holder?) :
      Dealing v a v' next none
  /-- a write at a path that is not tracked -/
  | unseen (p : Path) (hf : v.face? p.key = none) (hv : v' = v) (hs : next.bind Activity.seat? = a.seat?)
      (hh : next.bind Activity.holder? = a.holder?) : Dealing v a v' next (some p)
  | commit (p : Path) (f : Face) (x : Option Version) (hf : v.face? p.key = some f) (hv : v' = v.publish p f x)
      (hs : next.bind Activity.seat? = a.seat?) (hh : next.bind Activity.holder? = a.holder?) : Dealing v a v' next (some p)
  /-- a call to watch takes a place -/
  | take (seat : Seat) (f : Face) (other : Option SignalId)
      (ha : a = .joining seat.path seat.subscriber seat.joined other)
      (hf : v.face? seat.path.key = some f ∨ v.face? seat.path.key = none ∧ f = .blank)
      (hr : f.registered.contains seat.subscriber = false) (hj : f.joining.get? seat.subscriber = none)
      (hv : v' = v.put seat.path.key (some { f with
        count := f.count + 1, joining := f.joining.insert seat.subscriber seat.joined }))
      (hn : ∃ b, next = some b ∧ b.holder? = some seat ∧ b.seat? = some seat) : Dealing v a v' next none
  /-- a place becomes a registration -/
  | register (seat : Seat) (f : Face) (x : Registration) (ha : ∃ signal, a = .settling seat signal)
      (hf : v.face? seat.path.key = some f)
      (hv : v' = (v.put seat.path.key (some { f with
        registered := f.registered.insert seat.subscriber x
        count := if f.registered.contains seat.subscriber then f.count - 1 else f.count })).unseat seat)
      (hn : next = none) : Dealing v a v' next none
  /-- there is no entry in which the task could have a place -/
  | lost (seat : Seat) (ha : a.holder? = some seat) (hf : v.face? seat.path.key = none) (hv : v' = v) (hn : next = none) :
      Dealing v a v' next none
  /-- the first synchronization has failed, and the place is given back -/
  | giveUp (seat : Seat) (f : Face) (ha : ∃ r, a = .synchronizing seat r) (hf : v.face? seat.path.key = some f)
      (hv : (v' = v.put seat.path.key (some { f with count := f.count - 1 }) ∧ f.count - 1 = 0 ∧
          ∃ e, next = some (.tearingDown seat.path none (.failed seat e))) ∨
        v' = (v.put seat.path.key (some { f with count := f.count - 1 })).unseat seat ∧ next = none) :
      Dealing v a v' next none
  /-- the place of a call that was cancelled is given back -/
  | release (p : Path) (f : Face) (ha : a = .starting (.release p)) (hf : v.face? p.key = some f)
      (hv : v' = v.put p.key (some { f with count := f.count - 1 })) (hs : next.bind Activity.seat? = none) :
      Dealing v a v' next none
  | unwatch (p : Path) (id : SubscriberId) (f : Face) (ha : a = .starting (.unwatch p id)) (hf : v.face? p.key = some f)
      (hr : f.registered.contains id = true)
      (hv : v' = v.put p.key (some { f with registered := f.registered.erase id, count := f.count - 1 }))
      (hs : next.bind Activity.seat? = none) : Dealing v a v' next none
  /-- an entry is dropped, unless somebody has come back -/
  | tearDown (p : Path) (turn : Option Turn) (l : Leaving) (ha : a = .tearingDown p turn l)
      (hv : v' = v.leave l ∨ (∃ f, v.face? p.key = some f ∧ f.count = 0) ∧ v' = (v.put p.key none).leave l)
      (hn : next = none) : Dealing v a v' next none
  | shutDown (ha : a = .starting .shutDown) (hv : v' = { v with face? := fun k => (v.face? k).map Face.retired })
      (hs : next.bind Activity.seat? = none) : Dealing v a v' next none
  | forget (ha : a.closes = true) (hv : v' = { v with face? := fun _ => none }) (hn : next = none) : Dealing v a v' next none

variable {a : Activity} {r : World × Section Activity Outcome} {v : Front}

/-- a task that has no seat, neither before nor after the section -/
theorem Dealing.plain (hv : r.1.front = v) (ha : a.seat? = none) (hn : ∀ b, r.2.next = some b → b.seat? = none) :
    Dealing v a r.1.front r.2.next none := by
  have hholder : ∀ b : Activity, b.seat? = none → b.holder? = none := fun b hb => by cases b <;> first | rfl | cases hb
  refine .still hv ?_ ?_
  · cases hx : r.2.next with
    | none => exact ha.symm
    | some b => exact (hn b hx).trans ha.symm
  · cases hx : r.2.next with
    | none => exact (hholder a ha).symm
    | some b => exact (hholder b (hn b hx)).trans (hholder a ha).symm

theorem seat?_of_ofPart {phase : σ → Activity} {answer : α → Answer} {x : World × Section σ (Except Problem α)}
    (hphase : ∀ s, (phase s).seat? = none) : ∀ b, (ofPart phase answer x).2.next = some b → b.seat? = none := by
  intro b hb
  rw [next_ofPart] at hb
  obtain ⟨s, -, rfl⟩ := Option.map_eq_some_iff.1 hb
  exact hphase s

/-! ### Reconciliations and writes -/

/-- a section that may commit, of a task whose seat stays as it is -/
theorem Commits.dealing {v' : Front} {next : Option Activity} {committed : Prop} {c : Option Path}
    (h : Commits v p v' committed) (hyes : committed → c = some p) (hno : ¬ committed → c = none)
    (hs : next.bind Activity.seat? = a.seat?) (hh : next.bind Activity.holder? = a.holder?) : Dealing v a v' next c := by
  cases h with
  | not h hv =>
    rw [hno h]
    exact .still hv hs hh
  | unseen hf hv =>
    by_cases h : committed
    · rw [hyes h]
      exact .unseen p hf hv hs hh
    · rw [hno h]
      exact .still hv hs hh
  | commit f x h hf hv =>
    rw [hyes h]
    exact .commit p f x hf hv hs hh

/-- a part of a task that has no seat -/
theorem dealing_ofPart {phase : σ → Activity} {answer : α → Answer} {x : World × Section σ (Except Problem α)}
    {committed : Prop} {c : Option Path} (h : Commits w.front p x.1.front committed) (hyes : committed → c = some p)
    (hno : ¬ committed → c = none) (ha : a.seat? = none ∧ a.holder? = none)
    (hphase : ∀ s, (phase s).seat? = none ∧ (phase s).holder? = none) :
    Dealing w.front a (ofPart phase answer x).1.front (ofPart phase answer x).2.next c := by
  rw [fst_ofPart, next_ofPart]
  refine h.dealing hyes hno ?_ ?_
  · cases x.2.next with
    | none => exact ha.1.symm
    | some s => exact (hphase s).1.trans ha.1.symm
  · cases x.2.next with
    | none => exact ha.2.symm
    | some s => exact (hphase s).2.trans ha.2.symm

theorem dealing_refreshing (w : World) (x : Refresh) :
    Dealing w.front (.refreshing x) (w.step (.refreshing x)).1.front (w.step (.refreshing x)).2.next
      (w.commits? (.refreshing x)) :=
  dealing_ofPart (commits_stepRefresh w x) (fun h => if_pos (Refresh.commits_iff.2 h))
    (fun h => if_neg (mt Refresh.commits_iff.1 h)) ⟨rfl, rfl⟩ fun _ => ⟨rfl, rfl⟩

theorem dealing_saving (w : World) (x : Save) :
    Dealing w.front (.saving x) (w.step (.saving x)).1.front (w.step (.saving x)).2.next (w.commits? (.saving x)) :=
  dealing_ofPart (commits_stepSave w x) (fun h => if_pos (Save.commits_iff.2 h))
    (fun h => if_neg (mt Save.commits_iff.1 h)) ⟨rfl, rfl⟩ fun _ => ⟨rfl, rfl⟩

/-! ### Taking places -/

theorem dealing_takePlace (seat : Seat) {e : Entry} {other : Option SignalId}
    (he : w.entry? seat.path = some e ∨ w.entry? seat.path = none ∧ e = { spelling := seat.path })
    (hr : e.registered.contains seat.subscriber = false) (hj : e.joining.get? seat.subscriber = none) :
    Dealing w.front (.joining seat.path seat.subscriber seat.joined other) (w.takePlace seat e).1.front
      (w.takePlace seat e).2.next none := by
  have hf : w.front.face? seat.path.key = some e.face ∨ w.front.face? seat.path.key = none ∧ e.face = .blank := by
    rcases he with he | ⟨he, rfl⟩
    · exact Or.inl (face?_of_present he)
    · exact Or.inr ⟨face?_of_absent he, rfl⟩
  rcases takePlace_cases w seat e with ⟨-, htake⟩ | ⟨-, x, armed, signal, signals, v, -, -, rfl, htake⟩
  · rw [htake]
    exact .take seat e.face other rfl hf hr hj (front_setEntry w _ _) ⟨_, rfl, rfl, rfl⟩
  · rw [htake]
    exact .take seat e.face other rfl hf hr hj
      (front_setEntry { w with watcher := x, signals, nextQuery := w.nextQuery + 1 } seat.path _) ⟨_, rfl, rfl, rfl⟩

theorem dealing_stepJoining (w : World) (p : Path) (id : SubscriberId) (joined : SignalId) (other : Option SignalId) :
    Dealing w.front (.joining p id joined other) (w.stepJoining p id joined other).1.front
      (w.stepJoining p id joined other).2.next none := by
  unfold World.stepJoining
  split
  · exact .still rfl rfl rfl
  · have he := entry?_or_new w p
    dsimp only
    generalize (w.entry? p).getD { spelling := p } = e at he
    split
    · exact .still rfl rfl rfl
    · rename_i hr
      split
      · rename_i x hx
        rcases he with he | ⟨-, rfl⟩
        · exact .still (front_setEntry_of_face he rfl) rfl rfl
        · simp at hx
      · rename_i hj
        exact dealing_takePlace ⟨p, id, joined⟩ he (by simpa using hr) hj

theorem dealing_requestWatch (w : World) (p : Path) (id : SubscriberId) :
    Dealing w.front (.starting (.watch p id)) (w.requestWatch p id).1.front (w.requestWatch p id).2.next none := by
  unfold World.requestWatch
  split <;> exact .still rfl rfl rfl

theorem dealing_register (w : World) (seat : Seat) (signal : Option SignalId) :
    Dealing w.front (.settling seat signal) (w.register seat).1.front (w.register seat).2.next none := by
  unfold World.register
  cases he : w.entry? seat.path with
  | none =>
    refine .lost seat rfl (face?_of_absent he) ?_ rfl
    exact (front_endSeat w seat).trans (Front.unseat_of_absent (face?_of_absent he))
  | some e =>
    -- whichever world the registration is put into, if the front is as it was there
    have hput : ∀ (w₁ : World) (n : Nat), w₁.front = w.front →
        (n = if e.registered.contains seat.subscriber then e.count - 1 else e.count) → ∀ x,
        ((w₁.setEntry seat.path { e with registered := e.registered.insert seat.subscriber x, count := n }).endSeat
          seat).front = (w.front.put seat.path.key (some { e.face with
            registered := e.face.registered.insert seat.subscriber x
            count := if e.face.registered.contains seat.subscriber then e.face.count - 1 else e.face.count })).unseat
              seat := by
      rintro w₁ n hw₁ rfl x
      rw [front_endSeat, front_setEntry, hw₁]
      rfl
    have hlisten := front_listen w seat.path seat.subscriber
    refine .register seat e.face ⟨(w.listen seat.path seat.subscriber).1⟩ ⟨signal, rfl⟩ (face?_of_present he) ?_ rfl
    dsimp only
    cases hr : e.registered.get? seat.subscriber with
    | none => exact hput _ e.count hlisten (by simp [Table.contains, hr]) _
    | some r => exact hput _ (e.count - 1) ((front_cancelIf _ _).trans hlisten) (by simp [Table.contains, hr]) _

theorem dealing_stepSettling (w : World) (seat : Seat) (signal : Option SignalId) :
    Dealing w.front (.settling seat signal) (w.stepSettling seat signal).1.front (w.stepSettling seat signal).2.next
      none := by
  unfold World.stepSettling
  split
  · exact .still rfl rfl rfl
  · split
    · exact .still rfl rfl rfl
    · exact dealing_register w seat signal

/-! ### Giving places back -/

theorem next_releasePlace (w : World) (p : Path) (l : Leaving) :
    (w.releasePlace p l).2.next = none ∨ (w.releasePlace p l).2.next = some (.tearingDown p none l) := by
  unfold World.releasePlace
  split
  · exact Or.inl (next_endLeaving w l)
  · dsimp only
    split
    · exact Or.inr rfl
    · exact Or.inl (next_endLeaving _ l)

/-- the count goes down by one, and if it is zero then, the entry is to be dropped; otherwise that was all -/
theorem front_releasePlace (he : w.entry? p = some e) (l : Leaving) :
    ((w.releasePlace p l).1.front = w.front.put p.key (some { e.face with count := e.count - 1 }) ∧ e.count - 1 = 0 ∧
        (w.releasePlace p l).2.next = some (.tearingDown p none l)) ∨
      (w.releasePlace p l).1.front = (w.front.put p.key (some { e.face with count := e.count - 1 })).leave l ∧
        (w.releasePlace p l).2.next = none := by
  simp only [World.releasePlace, he]
  split
  · rename_i hz
    refine Or.inl ⟨?_, hz, rfl⟩
    split <;> exact front_setEntry _ p _
  · refine Or.inr ⟨?_, next_endLeaving _ l⟩
    rw [front_endLeaving, front_setEntry]
    rfl

theorem dealing_release (w : World) (p : Path) :
    Dealing w.front (.starting (.release p)) (w.releasePlace p .abandoned).1.front (w.releasePlace p .abandoned).2.next
      none := by
  have hs : (w.releasePlace p .abandoned).2.next.bind Activity.seat? = none := by
    rcases next_releasePlace w p .abandoned with h | h <;> rw [h] <;> rfl
  cases he : w.entry? p with
  | none =>
    simp only [World.releasePlace, he]
    exact .still (front_endLeaving w .abandoned) rfl rfl
  | some e =>
    refine .release p e.face rfl (face?_of_present he) ?_ hs
    rcases front_releasePlace he .abandoned with ⟨h, -⟩ | ⟨h, -⟩ <;> exact h

theorem dealing_unwatch (w : World) (p : Path) (id : SubscriberId) :
    Dealing w.front (.starting (.unwatch p id)) (w.unwatch p id).1.front (w.unwatch p id).2.next none := by
  unfold World.unwatch
  cases he : w.entry? p with
  | none => exact .still rfl rfl rfl
  | some e =>
    dsimp only
    cases hr : e.registered.get? id with
    | none => exact .still rfl rfl rfl
    | some x =>
      dsimp only
      have haside := aside_cancelIf (w.setEntry p { e with registered := e.registered.erase id }) x.listener
      have he' : World.entry? ((w.setEntry p { e with registered := e.registered.erase id }).cancelIf x.listener) p =
          some { e with registered := e.registered.erase id } := by
        rw [World.entry?, haside.entries]
        simp [World.setEntry, Table.get?_insert]
      have hput : ∀ f : Face, (World.front ((w.setEntry p { e with registered := e.registered.erase id }).cancelIf
          x.listener)).put p.key (some f) = w.front.put p.key (some f) := fun f => by
        rw [front_cancelIf, front_setEntry, Front.put, Front.put, Function.update_idem]
        rfl
      refine .unwatch p id e.face rfl (face?_of_present he) (by simp [Entry.face, Table.contains, hr]) ?_ ?_
      · rcases front_releasePlace he' .unwatched with ⟨h, -⟩ | ⟨h, -⟩ <;> exact h.trans (hput _)
      · rcases next_releasePlace ((w.setEntry p { e with registered := e.registered.erase id }).cancelIf x.listener) p
          .unwatched with h | h <;> rw [h] <;> rfl

theorem dealing_stepSynchronizing (w : World) (seat : Seat) (x : Refresh) :
    Dealing w.front (.synchronizing seat x) (w.stepSynchronizing seat x).1.front (w.stepSynchronizing seat x).2.next
      (w.commits? (.synchronizing seat x)) := by
  have h := commits_stepRefresh w x
  have hyes : (w.stepRefresh x).2 = .ended (.ok true) → w.commits? (.synchronizing seat x) = some x.path := fun h =>
    if_pos (Refresh.commits_iff.2 h)
  have hno : ¬ (w.stepRefresh x).2 = .ended (.ok true) → w.commits? (.synchronizing seat x) = none := fun h =>
    if_neg (mt Refresh.commits_iff.1 h)
  unfold World.stepSynchronizing
  rcases hx : w.stepRefresh x with ⟨w', x' | x' | x' | o⟩ <;> rw [hx] at h hyes hno
  · exact h.dealing hyes hno rfl rfl
  · exact h.dealing hyes hno rfl rfl
  · exact h.dealing hyes hno rfl rfl
  · cases o with
    | ok b => exact h.dealing hyes hno rfl rfl
    | error e =>
      have hfront : w'.front = w.front := by
        cases h with
        | not _ hv => exact hv
        | unseen _ hv => exact hv
        | commit _ _ h => cases h
      rw [hno (by simp)]
      dsimp only
      cases he : w'.entry? seat.path with
      | none =>
        have hf := hfront ▸ face?_of_absent he
        simp only [World.releasePlace, he]
        refine .lost seat rfl hf ?_ (next_endLeaving w' _)
        rw [front_endLeaving, hfront]
        exact Front.unseat_of_absent hf
      | some e' =>
        refine .giveUp seat e'.face ⟨x, rfl⟩ (hfront ▸ face?_of_present he) ?_
        rcases front_releasePlace he (.failed seat e) with ⟨h, hz, hn⟩ | ⟨h, hn⟩ <;> rw [hfront] at h
        · exact Or.inl ⟨h, hz, e, hn⟩
        · exact Or.inr ⟨h, hn⟩

theorem seat?_tearingDown (p : Path) (turn turn' : Option Turn) (l : Leaving) :
    (Activity.tearingDown p turn l).seat? = (Activity.tearingDown p turn' l).seat? := by
  cases l <;> rfl

theorem dealing_stepTearingDown (w : World) (p : Path) (turn : Option Turn) (l : Leaving) :
    Dealing w.front (.tearingDown p turn l) (w.stepTearingDown p turn l).1.front (w.stepTearingDown p turn l).2.next
      none := by
  have h := front_awaitIdle w p turn
  unfold World.stepTearingDown
  rcases hx : w.awaitIdle p turn with ⟨w', t | t | t | u⟩ <;> rw [hx] at h <;> dsimp only at h ⊢
  · exact .still h (seat?_tearingDown p t turn l) rfl
  · exact .still h (seat?_tearingDown p t turn l) rfl
  · exact .still h (seat?_tearingDown p t turn l) rfl
  · cases he : w'.entry? p with
    | none => exact .tearDown p turn l rfl (Or.inl (by rw [front_endLeaving, h])) (next_endLeaving w' l)
    | some e =>
      dsimp only
      split
      · rename_i hz
        refine .tearDown p turn l rfl (Or.inr ⟨⟨e.face, h ▸ face?_of_present he, hz⟩, ?_⟩) (next_endLeaving _ l)
        rw [front_endLeaving, front_dropEntry, h]
      · exact .tearDown p turn l rfl (Or.inl (by rw [front_endLeaving, h])) (next_endLeaving w' l)

/-! ### Shutting down -/

theorem front_foldl_retire (es : List Entry) (w : World) : (es.foldl World.retire w).front = w.front := by
  induction es generalizing w with
  | nil => rfl
  | cons e es ih =>
    have hstop : (w.stopListeners e).front = w.front := by
      unfold World.stopListeners
      generalize e.registered.values = rs
      induction rs generalizing w with
      | nil => rfl
      | cons x rs ih' => exact (ih' (w.cancelIf x.listener)).trans (front_cancelIf w _)
    refine (ih (w.retire e)).trans ?_
    unfold World.retire
    dsimp only
    split
    · exact hstop
    · exact hstop

theorem dealing_requestShutDown (w : World) :
    Dealing w.front (.starting .shutDown) w.requestShutDown.1.front w.requestShutDown.2.next none := by
  -- the pump is stopped before the subscribers are removed
  obtain ⟨w₀, hstop, hreq⟩ : ∃ w₀ : World, w₀.front = w.front ∧ w.requestShutDown =
      ({ w₀.inOrder.foldl World.retire w₀ with
          entries := (w₀.inOrder.foldl World.retire w₀).entries.map fun _ e => World.Entry.retired e
          pool := (w₀.inOrder.foldl World.retire w₀).pool.close },
        .go (.closing (w₀.inOrder.map (·.spelling)))) :=
    ⟨{ World.cancelIf { w with isShutDown := true } w.pump with pump := none },
      front_cancelIf { w with isShutDown := true } w.pump, rfl⟩
  have hfold := (front_foldl_retire w₀.inOrder w₀).trans hstop
  rw [hreq]
  refine .shutDown rfl ?_ rfl
  rw [← hfold]
  refine congrArg (Front.mk · _ _) (funext fun k => ?_)
  simp only [World.front, Table.get?_map, Option.map_map]
  rfl

theorem dealing_drainNext (h : w'.front = w.front) (ha : a.closes = true) (hs : a.seat? = none)
    (paths : List Path) : Dealing w.front a (w'.drainNext paths).1.front (w'.drainNext paths).2.next none := by
  cases paths with
  | nil => exact .forget ha (congrArg (fun v : Front => { v with face? := fun _ => none }) h) rfl
  | cons p rest =>
    refine .still h hs.symm ?_
    cases a <;> first | rfl | cases ha

theorem dealing_stepClosing (w : World) (paths : List Path) :
    Dealing w.front (.closing paths) (w.stepClosing paths).1.front (w.stepClosing paths).2.next none := by
  unfold World.stepClosing
  split
  · exact dealing_drainNext rfl rfl rfl paths
  · exact .still rfl rfl rfl

theorem dealing_stepDraining (w : World) (p : Path) (turn : Option Turn) (rest : List Path) :
    Dealing w.front (.draining p turn rest) (w.stepDraining p turn rest).1.front (w.stepDraining p turn rest).2.next
      none := by
  have h := front_awaitIdle w p turn
  unfold World.stepDraining
  rcases hx : w.awaitIdle p turn with ⟨w', t | t | t | u⟩ <;> rw [hx] at h <;> dsimp only at h ⊢
  · exact .still h rfl rfl
  · exact .still h rfl rfl
  · exact .still h rfl rfl
  · exact dealing_drainNext h rfl rfl rest

/-! ### Any task -/

/-- a call to the disk that a user makes -/
theorem dealing_direct {f : Call → Activity} (hv : r.1.front = w.front) (ha : a.seat? = none)
    (hf : ∀ c, (f c).seat? = none) (hn : ∃ c, r.2.next = some (f c)) : Dealing w.front a r.1.front r.2.next none := by
  obtain ⟨c, hc⟩ := hn
  refine .plain hv ha fun b hb => ?_
  cases hc.symm.trans hb
  exact hf c

theorem dealing_begin (w : World) (x : Request) :
    Dealing w.front (.starting x) (w.begin x).1.front (w.begin x).2.next none := by
  cases x with
  | watch p id => exact dealing_requestWatch w p id
  | unwatch p id => exact dealing_unwatch w p id
  | write p bytes =>
    exact .plain ((congrArg World.front (fst_ofPart _ _ _)).trans (front_requestSave w p bytes)) rfl
      (seat?_of_ofPart fun _ => rfl)
  | reconcile p =>
    exact .plain ((congrArg World.front (fst_ofPart _ _ _)).trans (front_requestRefresh w p)) rfl
      (seat?_of_ofPart fun _ => rfl)
  | release p => exact dealing_release w p
  | waitIdle => exact .still rfl rfl rfl
  | shutDown => exact dealing_requestShutDown w
  | diskStat p => exact dealing_direct (f := .diskStat p) (front_beginCall w _ p _) rfl (fun _ => rfl) (next_beginCall w _ p _)
  | diskRead p => exact dealing_direct (f := .diskRead p) (front_beginCall w _ p _) rfl (fun _ => rfl) (next_beginCall w _ p _)
  | diskWrite p bytes =>
    exact dealing_direct (f := .diskWrite p bytes) (front_beginCall w _ p _) rfl (fun _ => rfl) (next_beginCall w _ p _)

/-- **What a section of any task does to the front.** -/
theorem dealing_step (w : World) (a : Activity) :
    Dealing w.front a (w.step a).1.front (w.step a).2.next (w.commits? a) := by
  cases a with
  | starting x => exact dealing_begin w x
  | refreshing x => exact dealing_refreshing w x
  | saving x => exact dealing_saving w x
  | joining p id joined other => exact dealing_stepJoining w p id joined other
  | synchronizing seat x => exact dealing_stepSynchronizing w seat x
  | settling seat x => exact dealing_stepSettling w seat x
  | tearingDown p turn l => exact dealing_stepTearingDown w p turn l
  | awaitingQuiet =>
    simp only [World.step, World.stepAwaitingQuiet]
    split <;> exact .still rfl rfl rfl
  | closing paths => exact dealing_stepClosing w paths
  | draining p turn rest => exact dealing_stepDraining w p turn rest
  | diskStat p c =>
    cases c with
    | held g => exact dealing_direct (f := .diskStat p) (front_atGate w g _) rfl (fun _ => rfl) (next_atGate w g _)
    | due => exact .still rfl rfl rfl
  | diskRead p c =>
    cases c with
    | held g => exact dealing_direct (f := .diskRead p) (front_atGate w g _) rfl (fun _ => rfl) (next_atGate w g _)
    | due => exact .still rfl rfl rfl
  | diskWrite p bytes c =>
    cases c with
    | held g => exact dealing_direct (f := .diskWrite p bytes) (front_atGate w g _) rfl (fun _ => rfl) (next_atGate w g _)
    | due => exact .still rfl rfl rfl
  | listening p id =>
    simp only [World.step, World.stepListening]
    split
    · exact .still (front_inBackground w _) rfl rfl
    · exact .still rfl rfl rfl
  | pumping x =>
    simp only [World.step, World.stepPumping]
    split
    · exact .still (front_inBackground _ _) rfl rfl
    · exact .still rfl rfl rfl
    · exact .still rfl rfl rfl

/-! ### Who gets registered -/

/-- every registration has been there before -/
def Front.NoNewer (v v' : Front) : Prop :=
  ∀ k f' id r, v'.face? k = some f' → f'.registered.get? id = some r →
    ∃ f, v.face? k = some f ∧ f.registered.get? id = some r

variable {v' : Front} {k : Path.Key} {next : Option Activity} {c : Option Path}

theorem Front.NoNewer.refl (v : Front) : v.NoNewer v := fun _ f' _ _ hf' hr => ⟨f', hf', hr⟩

/-- an entry is put in place of one that had all its registrations -/
theorem noNewer_put {f g : Face} (hf : v.face? k = some f)
    (h : ∀ id r, g.registered.get? id = some r → f.registered.get? id = some r) : v.NoNewer (v.put k (some g)) :=
  fun k' f' id r hf' hr => by
  rw [Front.face?_put] at hf'
  split at hf'
  · rename_i hk
    cases hf'
    exact ⟨f, hk ▸ hf, h id r hr⟩
  · exact ⟨f', hf', hr⟩

theorem Front.NoNewer.unseat (h : v.NoNewer v') (seat : Seat) : v.NoNewer (v'.unseat seat) := fun k f' id r hf' hr => by
  rw [Front.face?_unseat] at hf'
  split at hf'
  · obtain ⟨g, hg, rfl⟩ := Option.map_eq_some_iff.1 hf'
    rw [Face.registered_unseat] at hr
    exact h k g id r hg hr
  · exact h k f' id r hf' hr

theorem Front.NoNewer.leave (h : v.NoNewer v') (l : Leaving) : v.NoNewer (v'.leave l) := by
  cases l with
  | failed seat _ => exact h.unseat seat
  | unwatched => exact h
  | abandoned => exact h

/-- **A registration at a path has been there before, or a call to watch settles there.** -/
theorem Dealing.registered {id : SubscriberId} {x : Registration} (h : Dealing v a v' next c) {f' : Face}
    (hf' : v'.face? k = some f') (hx : f'.registered.get? id = some x) :
    (∃ f, v.face? k = some f ∧ f.registered.get? id = some x) ∨
      ∃ seat signal, a = .settling seat signal ∧ seat.path.key = k ∧ seat.subscriber = id := by
  have hold : v.NoNewer v' → (∃ f, v.face? k = some f ∧ f.registered.get? id = some x) ∨
      ∃ seat signal, a = .settling seat signal ∧ seat.path.key = k ∧ seat.subscriber = id := fun h =>
    Or.inl (h k f' id x hf' hx)
  cases h with
  | still hv => exact hold (hv ▸ .refl v)
  | unseen p hf hv => exact hold (hv ▸ .refl v)
  | commit p f y hf hv => exact hold (hv ▸ noNewer_put hf fun _ _ h => h)
  | take seat f other ha hf hr hj hv hn =>
    subst hv
    rcases hf with hf | ⟨-, rfl⟩
    · exact hold (noNewer_put hf fun _ _ h => h)
    · rw [Front.face?_put] at hf'
      split at hf'
      · cases hf'
        cases hx
      · exact Or.inl ⟨f', hf', hx⟩
  | register seat f y ha hf hv hn =>
    subst hv
    obtain ⟨signal, rfl⟩ := ha
    rw [Front.face?_unseat, Front.face?_put] at hf'
    by_cases hk : k = seat.path.key
    · subst hk
      rw [if_pos rfl, if_pos rfl, Option.map_some] at hf'
      cases hf'
      rw [Face.registered_unseat, Table.get?_insert] at hx
      split at hx
      · rename_i hid
        exact Or.inr ⟨seat, signal, rfl, rfl, hid⟩
      · exact Or.inl ⟨f, hf, hx⟩
    · rw [if_neg hk, if_neg hk] at hf'
      exact Or.inl ⟨f', hf', hx⟩
  | lost seat ha hf hv hn => exact hold (hv ▸ .refl v)
  | giveUp seat f ha hf hv =>
    rcases hv with ⟨rfl, -⟩ | ⟨rfl, -⟩
    · exact hold (noNewer_put hf fun _ _ h => h)
    · refine hold (.unseat ?_ seat)
      exact noNewer_put hf fun _ _ h => h
  | release p f ha hf hv => exact hold (hv ▸ noNewer_put hf fun _ _ h => h)
  | unwatch p id' f ha hf hr hv =>
    refine hold (hv ▸ noNewer_put hf fun _ _ h => ?_)
    rw [Table.get?_erase] at h
    split at h
    · cases h
    · exact h
  | tearDown p turn l ha hv hn =>
    rcases hv with rfl | ⟨-, rfl⟩
    · exact hold ((Front.NoNewer.refl v).leave l)
    · refine hold (.leave (fun k' g id r hg hr => ?_) l)
      rw [Front.face?_put] at hg
      split at hg
      · cases hg
      · exact ⟨g, hg, hr⟩
  | shutDown ha hv =>
    subst hv
    obtain ⟨g, -, rfl⟩ := Option.map_eq_some_iff.1 hf'
    cases hx
  | forget ha hv =>
    subst hv
    cases hf'

/-! ### A task that is cancelled -/

/-- **A cancelled task gives up its seat, and that is all that it does to the front.** -/
theorem front_abandon (w : World) (a : Activity) :
    (w.abandon a).front = match a.seat? with
      | some seat => w.front.unseat seat
      | none => w.front := by
  cases a with
  | refreshing x => exact front_dropRefresh w x
  | saving x => exact front_dropSave w x
  | synchronizing seat x =>
    simp only [World.abandon, World.abandonSeat, front_inBackground, front_endSeat, front_dropRefresh]
    rfl
  | settling seat x =>
    simp only [World.abandon, World.abandonSeat, front_inBackground, front_endSeat]
    rfl
  | tearingDown p turn l =>
    cases l with
    | failed seat e =>
      simp only [World.abandon, front_endSeat, front_giveBackIf]
      rfl
    | unwatched => exact front_giveBackIf w turn
    | abandoned => exact front_giveBackIf w turn
  | draining p turn rest => exact front_giveBackIf w turn
  | _ => rfl

/-! ## What a move does -/

variable {id : TaskId} {t : Task Phase} {m : Move}

@[simp] theorem front_floorTo (w : World) (id : TaskId) : (floorTo w id).front = w.front := by
  unfold floorTo
  split <;> rfl

theorem front_finish (w : World) (id : TaskId) (role : Role) (e : Ending) : (w.finish id role e).front = w.front := by
  cases role <;> rfl

theorem front_serve (h : w.served? id = some t) (hc : t.cancelled = false) :
    (serve w id).front = ((floorTo w id).step t.phase.activity).1.front := by
  rw [serve_of_section h hc]
  unfold World.advance
  rcases (floorTo w id).step t.phase.activity with ⟨w', a | a | a | o⟩
  · rfl
  · rfl
  · rfl
  · exact front_finish w' id t.phase.role (.returned o)

/-- **What a section does to the front**, seen from the outside. -/
theorem dealing_serve (hw : Wf w) (h : w.served? id = some t) (hc : t.cancelled = false) :
    Dealing w.front t.phase.activity (serve w id).front (((serve w id).tasks.phase? id).map (·.activity))
      ((floorTo w id).commits? t.phase.activity) := by
  rw [activity_serve hw h hc, front_serve h hc, ← front_floorTo w id]
  exact dealing_step _ _

theorem front_cancelled (h : w.served? id = some t) (hc : t.cancelled = true) :
    (serve w id).front = match t.phase.activity.seat? with
      | some seat => w.front.unseat seat
      | none => w.front := by
  have hfront : World.front ((floorTo w id).without id) = w.front := front_floorTo w id
  rw [serve_of_cancelled h hc, front_finish, front_abandon, hfront]

theorem front_nobody (h : w.served? id = none) : (serve w id).front = w.front := by
  obtain ⟨ready, floor, hserve⟩ := serve_of_nobody h
  rw [hserve]
  rfl

/-- turns apart, a move leaves the faces alone -/
theorem faces_outside (w : World) (hm : ∀ id, m ≠ .turn id) : (w.move m).front.face? = w.front.face? := by
  have he : (w.move m).entries = w.entries := by
    by_cases hcall : ∃ r, m = .call r
    · obtain ⟨r, rfl⟩ := hcall
      simp only [World.move]
      split <;> rfl
    · exact congrArg Core.entries (outside_move w hm fun r e => hcall ⟨r, e⟩).1
  funext k
  simp only [World.front, he]

/-- a move that is not a section of a task registers nobody -/
theorem noNewer_of_no_section (hm : ∀ id t, m = .turn id → w.served? id = some t → t.cancelled = true) :
    w.front.NoNewer (w.move m).front := by
  by_cases hturn : ∃ id, m = .turn id
  · obtain ⟨id, rfl⟩ := hturn
    cases ht : w.served? id with
    | none => exact (congrArg w.front.NoNewer (front_nobody ht)).mpr (.refl _)
    | some t =>
      refine (congrArg w.front.NoNewer (front_cancelled ht (hm id t rfl ht))).mpr ?_
      split
      · exact (Front.NoNewer.refl _).unseat _
      · exact .refl _
  · intro k f' id r hf' hr
    rw [faces_outside w fun i e => hturn ⟨i, e⟩] at hf'
    exact ⟨f', hf', hr⟩

end Engine

end LiveFiles
