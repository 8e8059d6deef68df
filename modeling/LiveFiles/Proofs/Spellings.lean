/-
The spelling of paths does not matter. Take a run and write any of its paths otherwise, with the same parts (`Respelt`): a slash
more, a dot inside. Then nothing changes but the text of paths that snapshots, messages and calls to the watcher show
(`EqualButForSpelling`).
- `Alike.respelt_move`: as long as runs go the same way, every move keeps them alike, be it about a task or a gate that there is
  or not.
- **`spelling_trace`**: so in every run nothing depends on how its paths are written.
-/
import LiveFiles.Proofs.Parallel
import LiveFiles.Proofs.Paths

namespace LiveFiles

namespace Engine

variable {S : Scope} {θ θ' : Pairing} {w v : World} {p p' : Path}

/-! ## Runs that go the same way -/

/-- two spellings of a path stand for each other -/
def Scope.spellings : Scope where
  path p p' := p.key = p'.key
  seen _ := true
  whole := True
  key h := h
  visible _ := rfl
  all _ _ := rfl

/-- the same move, with paths that may be written otherwise -/
inductive Respelt : Move → Move → Prop
  | turn (id : TaskId) : Respelt (.turn id) (.turn id)
  | call {y y' : Request} (h : RequestAlike .spellings y y') : Respelt (.call y) (.call y')
  | cancel (id : TaskId) : Respelt (.cancel id) (.cancel id)
  | putFile {p p' : Path} (h : p.key = p'.key) (bytes : ByteArray) : Respelt (.putFile p bytes) (.putFile p' bytes)
  | removeFile {p p' : Path} (h : p.key = p'.key) : Respelt (.removeFile p) (.removeFile p')
  | touch {p p' : Path} (h : p.key = p'.key) : Respelt (.touch p) (.touch p')
  | orderFailure (op : DiskOp) {p p' : Path} (h : p.key = p'.key) (message : String) :
      Respelt (.orderFailure op p message) (.orderFailure op p' message)
  | clearFailure (op : DiskOp) {p p' : Path} (h : p.key = p'.key) : Respelt (.clearFailure op p) (.clearFailure op p')
  | hold (op : DiskOp) {p p' : Path} (h : p.key = p'.key) : Respelt (.hold op p) (.hold op p')
  | openGate (g : GateId) : Respelt (.openGate g) (.openGate g)
  | refuseArming {p p' : Path} (h : p.key = p'.key) : Respelt (.refuseArming p) (.refuseArming p')
  | permitArming {p p' : Path} (h : p.key = p'.key) : Respelt (.permitArming p) (.permitArming p')
  | rearrange (rank : Path.Key → Nat) : Respelt (.rearrange rank) (.rearrange rank)
  | newSubscriber : Respelt .newSubscriber .newSubscriber
  | drain (x : SubscriberId) : Respelt (.drain x) (.drain x)
  | tryRead (x : SubscriberId) : Respelt (.tryRead x) (.tryRead x)
  | closeSubscriber (x : SubscriberId) : Respelt (.closeSubscriber x) (.closeSubscriber x)
  | dropSubscriber (x : SubscriberId) : Respelt (.dropSubscriber x) (.dropSubscriber x)
  | notifyChange {p p' : Path} (h : p.key = p'.key) : Respelt (.notifyChange p) (.notifyChange p')
  | attachStream : Respelt .attachStream .attachStream
  | sendEvent (s : StreamId) {p p' : Path} (h : p.key = p'.key) (kind : EventKind) :
      Respelt (.sendEvent s ⟨p, kind⟩) (.sendEvent s ⟨p', kind⟩)
  | closeStream (s : StreamId) : Respelt (.closeStream s) (.closeStream s)

/-- runs of which the one has nothing that the other has not -/
abbrev Equal (θ : Pairing) (w v : World) : Prop := Alike .spellings (fun _ => False) θ w v

/-- tasks that there are stand for themselves -/
theorem Alike.self_of_live (h : Equal θ w v) {id : TaskId} {t : Task Phase} (ht : w.tasks.live.get? id = some t) :
    θ.on .task id id := by
  rcases h.covered.1 id (by rw [ht]; rfl) with ⟨b, hb⟩ | hO
  · obtain rfl : id = b := Tag.task.inj (h.fit.same trivial _ _ hb)
    exact hb
  · exact hO.elim

theorem Alike.same_canGo (h : Equal θ w v) (id : TaskId) : canGo w id = canGo v id := by
  have htasks := h.tasks trivial
  rw [canGo_eq w, canGo_eq v, htasks.floor, htasks.ready]

/-- the floor is given to a task that there is not -/
theorem Alike.serve_dead (h : Equal θ w v) {id : TaskId} (hgo : canGo w id = true) (hdead : w.tasks.live.get? id = none)
    (hdead' : v.tasks.live.get? id = none) : Equal θ (serve w id) (serve v id) := by
  have htasks := h.tasks trivial
  rw [serve_of_ended hgo hdead, serve_of_ended ((h.same_canGo id).symm.trans hgo) hdead']
  rw [floorTo_eq w, floorTo_eq v]
  cases hf : w.tasks.floor <;> rw [htasks.floor] at hf <;> rw [hf]
  · exact h.withTasks rfl rfl nofun (fun _ => ⟨htasks.rows, congrArg (List.erase · id) htasks.ready, rfl⟩) h.live h.covered
  · exact h.leaveFloor

/-- **The turn of a task keeps runs alike that go the same way.** -/
theorem Alike.serve_same (h : Equal θ w v) (id : TaskId) :
    ∃ θ', θ ≤ θ' ∧ Equal θ' (serve w id) (serve v id) := by
  have hsame := h.same_canGo id
  by_cases hgo : canGo w id = true
  · have hrow := (h.tasks trivial).rows.get? id
    cases ht : w.tasks.live.get? id <;> cases ht' : v.tasks.live.get? id <;> rw [ht, ht'] at hrow
    case none.some => cases hrow
    case some.none => cases hrow
    case none.none => exact ⟨θ, le_rfl, h.serve_dead hgo ht ht'⟩
    case some.some => exact h.after_serve (h.self_of_live ht) hgo (hsame.symm.trans hgo) fun _ _ _ _ _ _ _ => rfl
  · have hstay : serve w id = w := if_neg hgo
    have hstay' : serve v id = v := if_neg (hsame ▸ hgo)
    rw [hstay, hstay']
    exact ⟨θ, le_rfl, h⟩

theorem Alike.cancel_same (h : Equal θ w v) (id : TaskId) : Equal θ (w.cancel id) (v.cancel id) := by
  have hrow := (h.tasks trivial).rows.get? id
  cases ht : w.tasks.live.get? id <;> cases ht' : v.tasks.live.get? id <;> rw [ht, ht'] at hrow
  case none.some => cases hrow
  case some.none => cases hrow
  case none.none =>
    have hdead : w.tasks.live.contains id = false := Table.contains_eq_false_iff.2 ht
    have hdead' : v.tasks.live.contains id = false := Table.contains_eq_false_iff.2 ht'
    rw [World.cancel, World.cancel, Tasks.cancel, Tasks.cancel, hdead, hdead']
    exact h
  case some.some => exact h.cancel (h.self_of_live ht)

theorem Alike.openGate_same (h : Equal θ w v) (g : GateId) : Equal θ (w.openGate g) (v.openGate g) := by
  have hopen : Equal θ { w with disk := w.disk.openGate g } { v with disk := v.disk.openGate g } :=
    { h with
      gateTable := fun hS => by
        dsimp only [Disk.openGate]
        rw [h.gateTable hS]
      gates := fun a b hab => by
        obtain rfl : a = b := Tag.gate.inj (h.fit.same trivial _ _ hab)
        unfold Disk.openGate
        dsimp only
        rw [Table.get?_modify, Table.get?_modify]
        split
        · exact rel_map (h.gates a a hab) fun _ _ _ => rfl
        · exact h.gates a a hab }
  exact hopen.wakes fun _ => rfl

/-- **A move that is written otherwise has the same effect.** -/
theorem Alike.respelt_move (h : Equal θ w v) {m m' : Move} (hm : Respelt m m') :
    ∃ θ', θ ≤ θ' ∧ Equal θ' (w.move m) (v.move m') := by
  have happen : ∀ {m m' : Move}, Happens .spellings θ w m m' → ∃ θ', θ ≤ θ' ∧ Equal θ' (w.move m) (v.move m') := fun hm =>
    (h.happen hm).imp fun _ hx => ⟨hx.1, hx.2.1⟩
  cases hm with
  | turn id => exact h.serve_same id
  | call hy => exact happen (.call hy)
  | cancel id => exact ⟨θ, le_rfl, h.cancel_same id⟩
  | putFile hp bytes => exact happen (.putFile hp bytes)
  | removeFile hp => exact happen (.removeFile hp)
  | touch hp => exact happen (.touch hp)
  | orderFailure op hp message => exact happen (.orderFailure op hp message)
  | clearFailure op hp => exact happen (.clearFailure op hp)
  | hold op hp => exact happen (.hold op hp)
  | openGate g => exact ⟨θ, le_rfl, h.openGate_same g⟩
  | refuseArming hp => exact happen (.refuseArming hp)
  | permitArming hp => exact happen (.permitArming hp)
  | rearrange rank => exact happen (.rearrange rank)
  | newSubscriber => exact happen .newSubscriber
  | drain x => exact happen (.drain x)
  | tryRead x => exact happen (.tryRead x fun _ _ => rfl)
  | closeSubscriber x => exact happen (.closeSubscriber x)
  | dropSubscriber x => exact happen (.dropSubscriber x)
  | notifyChange hp => exact happen (.notifyChange hp)
  | attachStream => exact happen .attachStream
  | sendEvent s hp kind => exact happen (.sendEvent s ⟨hp, rfl⟩)
  | closeStream s => exact happen (.closeStream s)

/-! ## What is the same -/

/-- **Nothing tells two worlds from each other but the text of paths** that snapshots, messages and calls to the watcher show. -/
structure EqualButForSpelling (w v : World) : Prop where
  /-- the numbers that calls, subscribers, gates and streams get -/
  numbers : w.counts = v.counts ∧ w.nextSubscriber = v.nextSubscriber ∧ w.nextStream = v.nextStream
  running : ∀ id, w.tasks.isLive id = v.tasks.isLive id
  /-- the outcomes of calls -/
  endings : ∀ id, List.Forall₂ (EndingAlike .spellings Eq) (w.endingsOf id) (v.endingsOf id)
  /-- what subscribers have been shown and not read yet -/
  delivered : ∀ x, List.Forall₂ (SnapshotAlike .spellings Eq) (w.drain x).1 (v.drain x).1
  /-- whether events are taken -/
  accepts : ∀ s ev, (w.sendEvent s ev).1 = (v.sendEvent s ev).1
  /-- what the watcher has been told and asked for, for what it is armed, and what it refuses -/
  told : List.Forall₂ (WatcherCallAlike .spellings) w.watcher.calls v.watcher.calls
  armed : List.Forall₂ (fun p p' => p.key = p'.key) w.watcher.armed v.watcher.armed
  attempts : List.Forall₂ (fun p p' => p.key = p'.key) w.watcher.attempts v.watcher.attempts
  refuses : ∀ p, w.watcher.refuses p = v.watcher.refuses p
  /-- the files, with their dates -/
  files : ∀ p, w.disk.file? p = v.disk.file? p
  /-- the calls to the disk, their failures and gates -/
  callCount : ∀ op p, w.disk.callCount op p = v.disk.callCount op p
  underWay : ∀ p, w.disk.underWayAt p = v.disk.underWayAt p ∧ w.disk.mostUnderWayAt p = v.disk.mostUnderWayAt p
  failures : ∀ op p, w.disk.failure? op p = v.disk.failure? op p
  gateFor : ∀ op p, w.disk.gateFor.get? (op, Path.key p) = v.disk.gateFor.get? (op, Path.key p)
  gates : w.disk.gates = v.disk.gates
  /-- the cache -/
  tracked : w.entries.keys = v.entries.keys
  entries : ∀ p, Option.Rel (EntryAlike .spellings Eq) (w.entry? p) (v.entry? p)
  snapshots : ∀ p, w.snapshot? p = v.snapshot? p
  counts : ∀ p, w.subscriberCount p = v.subscriberCount p
  /-- the locks -/
  slots : ∀ p, w.turns.slots.get? (Path.key p) = v.turns.slots.get? (Path.key p)
  active : w.pool.active = v.pool.active

theorem Agree.get?_eq {κ α : Type} [DecidableEq κ] {t t' : Table κ α} {on : κ → Prop} {r : α → α → Prop} (h : Agree on r t t')
    (hr : ∀ a b, r a b → a = b) {k : κ} (hk : on k) : t.get? k = t'.get? k := eq_of_rel (h k hk) hr

/-- the watcher goes by the parts of paths -/
theorem armedAfter_spellings {ps ps' : List Path} (h : List.Forall₂ (fun p p' => p.key = p'.key) ps ps') {c c' : WatcherCall}
    (hc : WatcherCallAlike .spellings c c') :
    List.Forall₂ (fun p p' => p.key = p'.key) (Watcher.armedAfter ps c) (Watcher.armedAfter ps' c') := by
  have hsame : ∀ {a a' b b' : Path}, a.key = a'.key → b.key = b'.key → a.same b = a'.same b' := by
    intro a a' b b' ha hb
    rw [Path.same, Path.same, ha, hb]
  cases hc with
  | @arm p p' hp =>
    have hany : (ps.any fun q => q.same p) = ps'.any fun q => q.same p' := by
      induction h with
      | nil => rfl
      | cons hq _ ih => rw [List.any_cons, List.any_cons, ih, hsame hq hp]
    unfold Watcher.armedAfter
    dsimp only
    rw [hany]
    split
    · exact h
    · exact List.rel_append h (.cons hp .nil)
  | disarm hp =>
    unfold Watcher.armedAfter
    dsimp only
    induction h with
    | nil => exact .nil
    | cons hq _ ih =>
      rw [List.filter_cons, List.filter_cons, hsame hq hp]
      split
      · exact .cons hq ih
      · exact ih

theorem armed_spellings {cs cs' : List WatcherCall} (h : List.Forall₂ (WatcherCallAlike .spellings) cs cs') {ps ps' : List Path}
    (hps : List.Forall₂ (fun p p' => p.key = p'.key) ps ps') :
    List.Forall₂ (fun p p' => p.key = p'.key) (cs.foldl Watcher.armedAfter ps) (cs'.foldl Watcher.armedAfter ps') := by
  induction h generalizing ps ps' with
  | nil => exact hps
  | cons hc _ ih => exact ih (armedAfter_spellings hps hc)

theorem Alike.endings_spellings (h : Equal θ w v) (id : TaskId) :
    List.Forall₂ (EndingAlike .spellings Eq) (w.endingsOf id) (v.endingsOf id) := by
  have hle : θ ≤ Eq := fun x y hxy => h.fit.same trivial x y hxy
  by_cases hid : θ.on .task id id
  · exact (h.endings id id hid).imp fun _ _ he => he.mono hle
  · have hnil : w.endingsOf id = [] := endingsOf_eq_nil fun e he => by
      rintro rfl
      rcases h.ended.1 e he with ⟨b, hb⟩ | hO
      · obtain rfl : e.1 = b := Tag.task.inj (hle _ _ hb)
        exact hid hb
      · exact hO
    have hnil' : v.endingsOf id = [] := endingsOf_eq_nil fun e he => by
      rintro rfl
      obtain ⟨a, ha⟩ := h.ended.2 e he
      obtain rfl : a = e.1 := Tag.task.inj (hle _ _ ha)
      exact hid ha
    rw [hnil, hnil']
    exact .nil

theorem Alike.equalButForSpelling (h : Equal θ w v) : EqualButForSpelling w v := by
  have hle : θ ≤ Eq := fun x y hxy => h.fit.same trivial x y hxy
  have hdate : ∀ {t u : Instant}, θ.on .date t u → t = u := fun htu => Tag.date.inj (hle _ _ htu)
  have hentry : ∀ p, Option.Rel (EntryAlike .spellings Eq) (w.entry? p) (v.entry? p) := fun p =>
    rel_mono (h.entries p.key rfl) fun _ _ he => he.mono hle
  have hcalls : List.Forall₂ (WatcherCallAlike .spellings) w.watcher.calls v.watcher.calls := by
    have hseen : List.Forall₂ (WatcherCallAlike .spellings) (w.watcher.calls.filter fun _ => true) v.watcher.calls := h.calls
    rwa [List.filter_true] at hseen
  have hattempts : List.Forall₂ (fun p p' => p.key = p'.key) w.watcher.attempts v.watcher.attempts := by
    have hseen : List.Forall₂ (fun p p' => p.key = p'.key) (w.watcher.attempts.filter fun _ => true) v.watcher.attempts := h.attempts
    rwa [List.filter_true] at hseen
  exact
    { numbers := ⟨h.counts trivial, h.nextSubscriber, h.nextStream⟩
      running := fun id => rel_isSome ((h.tasks trivial).rows.get? id)
      endings := h.endings_spellings
      delivered := fun x => by
        have hseen : List.Forall₂ (SnapshotAlike .spellings θ) ((w.drain x).1.filter fun _ => true) (v.drain x).1 := (h.drain x).2
        rw [List.filter_true] at hseen
        exact hseen.imp fun _ _ hs => hs.mono hle
      accepts := fun s ev => by
        have hstream := h.streams s trivial
        unfold World.sendEvent
        cases hc : w.streams.get? s <;> cases hc' : v.streams.get? s <;> rw [hc, hc'] at hstream
        case none.some => cases hstream
        case some.none => cases hstream
        case some.some c c' =>
          have hopen : c.isOpen = c'.isOpen := by
            cases hstream with
            | some hc => exact hc.isOpen
          dsimp only
          rw [hopen]
          split <;> rfl
      told := hcalls
      armed := armed_spellings hcalls .nil
      attempts := hattempts
      refuses := fun p => h.refuses (show Scope.spellings.path p p from rfl)
      files := fun p => h.files.get?_eq (fun f f' hf => StoredFile.ext hf.bytes (hdate hf.modified)) rfl
      callCount := fun op p => h.diskCalls.getD_eq rfl 0
      underWay := fun p => ⟨h.underWay.getD_eq rfl 0, h.mostUnderWay.getD_eq rfl 0⟩
      failures := fun op p => congrArg (Option.map _) (h.failures.get?_eq (fun _ _ => id) rfl)
      gateFor := fun op p => h.gateFor.get?_eq (fun _ _ hg => Tag.gate.inj (hle _ _ hg)) rfl
      gates := h.gateTable trivial
      tracked := h.keys trivial
      entries := hentry
      snapshots := fun p => by
        refine eq_of_rel (rel_map (q := Eq) (hentry p) fun e e' he => ?_) fun _ _ => id
        have hmodified : e.modified = e'.modified := Tag.date.inj he.modified
        have hexternal : e.external = e'.external := Tag.date.inj he.external
        rw [Entry.snapshot, Entry.snapshot, he.contents, hmodified, hexternal]
      counts := fun p =>
        congrArg (Option.getD · 0) (eq_of_rel (rel_map (q := Eq) (hentry p) fun _ _ he => he.count) fun _ _ => id)
      slots := fun p => h.slots.get?_eq (fun s s' hs => by
        obtain ⟨l, n⟩ := s
        obtain ⟨l', n'⟩ := s'
        obtain ⟨hl, hn⟩ := hs
        obtain rfl : l = l' := Tag.lock.inj (hle _ _ hl)
        obtain rfl : n = n' := hn
        rfl) rfl
      active := h.active trivial }

variable {policy : WritePolicy} {moves moves' : Nat → Move}

/-- **Spelling invariance.** -/
theorem spelling_trace (policy : WritePolicy) (moves moves' : Nat → Move) (h : ∀ n, Respelt (moves n) (moves' n)) (n : Nat) :
    EqualButForSpelling ((World.start policy).trace moves n) ((World.start policy).trace moves' n) := by
  have halike : ∃ θ, Equal θ ((World.start policy).trace moves n) ((World.start policy).trace moves' n) := by
    induction n with
    | zero => exact ⟨_, .start _ policy⟩
    | succ n ih =>
      obtain ⟨θ, hθ⟩ := ih
      obtain ⟨θ', -, hθ'⟩ := hθ.respelt_move (h n)
      exact ⟨θ', hθ'⟩
  obtain ⟨θ, hθ⟩ := halike
  exact hθ.equalButForSpelling

/-! A path that is written in two ways while its file is watched. -/

theorem Respelt.along {ms ms' : List Move} (h : List.Forall₂ Respelt ms ms') (n : Nat) :
    Respelt (along ms n) (along ms' n) := by
  induction h generalizing n with
  | nil => exact .turn 0
  | cons hm _ ih =>
    cases n with
    | zero => exact hm
    | succ n => exact ih n

/-- somebody puts a file in place and watches it -/
def watchingAs (p : Path) : List Move :=
  [.newSubscriber, .putFile p "x".toUTF8, .call (.watch p ⟨1⟩), .turn 1, .turn 1, .turn 1, .turn 1, .turn 1, .turn 1, .turn 1]

theorem spelling_trace_slashes :
    (∀ n, Respelt (along (watchingAs ⟨"a/b"⟩) n) (along (watchingAs ⟨"a//./b/"⟩) n)) ∧
      EqualButForSpelling ((World.start .allow).trace (along (watchingAs ⟨"a/b"⟩)) 10)
        ((World.start .allow).trace (along (watchingAs ⟨"a//./b/"⟩)) 10) ∧
      ((World.start .allow).trace (along (watchingAs ⟨"a//./b/"⟩)) 10).subscriberCount ⟨"a/b"⟩ = 1 ∧
      (((World.start .allow).trace (along (watchingAs ⟨"a//./b/"⟩)) 10).snapshot? ⟨"a/b"⟩).map Snapshot.contents? =
        some (some "x") := by
  have hkey : Path.key ⟨"a/b"⟩ = Path.key ⟨"a//./b/"⟩ := by decide +kernel
  have h : ∀ n, Respelt (along (watchingAs ⟨"a/b"⟩) n) (along (watchingAs ⟨"a//./b/"⟩) n) :=
    Respelt.along (.cons .newSubscriber (.cons (.putFile hkey _) (.cons (.call (.watch hkey _))
      (List.forall₂_same.2 fun m hm => by
        obtain rfl : m = .turn 1 := by simpa using hm
        exact .turn 1))))
  refine ⟨h, spelling_trace .allow _ _ h 10, ?_⟩
  decide +kernel

end Engine

end LiveFiles
