/-
Worlds that are alike. What the one shows of the paths that can be seen, the other shows too, with other tags and spellings
(`Shown`), and what they have tagged agrees (`Ledger`). The worlds that are compared may have tags of others beside.
- `Alike.also`: new tags can stand for each other if the worlds tell the same of them; so it is with new signals, turns, locks and
  tasks (`Alike.freshSignal`, …, `Alike.spawn`).
- `Alike.wake`, `Alike.give`, `Alike.cancel`: what happens to tasks and signals that stand for each other.
-/
import LiveFiles.Proofs.Arming
import LiveFiles.Proofs.Likeness

namespace LiveFiles.Engine

/-! ## Numbers and dates -/

/-- how a task has ended, if it is a call and has -/
def World.endingsOf (w : World) (id : TaskId) : List Ending := (w.endings.filter fun e => e.1 = id).map Prod.snd

/-- how far a run has got with its numbers and its clock -/
structure Counts where
  task : TaskId
  signal : SignalId
  turn : TurnId
  lock : LockId
  query : QueryId
  gate : GateId
  clock : Nat

def World.counts (w : World) : Counts :=
  ⟨w.tasks.next, w.signals.next, w.turns.nextTurn, w.turns.nextLock, w.nextQuery, w.disk.nextGate, w.disk.clock⟩

/-- the tag has been given away, or is past -/
def Tag.Made (c : Counts) : Tag → Prop
  | .task n => n < c.task
  | .signal n => n < c.signal
  | .turn n => n < c.turn
  | .lock n => n < c.lock
  | .query n => n < c.query
  | .gate n => n < c.gate
  | .date t => t.nanos ≤ (Instant.ofMillis c.clock).nanos

/-- counts go on -/
structure Counts.Later (c c' : Counts) : Prop where
  task : c.task ≤ c'.task
  signal : c.signal ≤ c'.signal
  turn : c.turn ≤ c'.turn
  lock : c.lock ≤ c'.lock
  query : c.query ≤ c'.query
  gate : c.gate ≤ c'.gate
  clock : c.clock ≤ c'.clock

theorem Tag.Made.mono {c c' : Counts} {x : Tag} (h : x.Made c) (hc : c.Later c') : x.Made c' := by
  cases x with
  | task n => exact lt_of_lt_of_le h hc.task
  | signal n => exact lt_of_lt_of_le h hc.signal
  | turn n => exact lt_of_lt_of_le h hc.turn
  | lock n => exact lt_of_lt_of_le h hc.lock
  | query n => exact lt_of_lt_of_le h hc.query
  | gate n => exact lt_of_lt_of_le h hc.gate
  | date t =>
    have hclock := hc.clock
    simp only [Tag.Made, Instant.ofMillis] at h ⊢
    omega

/-! ## Worlds that are alike -/

/-- A pairing of two runs, of which the one has tags for others (`O`) beside. If the runs go the same way, all tags stand for
themselves. Later dates stand for later ones. -/
structure Pairing.Fit (S : Scope) (O : Tag → Prop) (θ : Pairing) : Prop where
  oneToOne : θ.OneToOne
  same : S.whole → ∀ x y, θ x y → x = y
  apart : ∀ x y, θ x y → ¬O x
  epoch : θ.on .date .epoch .epoch
  later : ∀ t t' u u', θ.on .date t u → θ.on .date t' u' → (t.nanos < t'.nanos ↔ u.nanos < u'.nanos)

/-- tags that stand for the same one are the same -/
theorem Pairing.Fit.eq_iff {S : Scope} {O : Tag → Prop} {θ : Pairing} (h : θ.Fit S O) {α : Type} {tag : α → Tag}
    (hinj : ∀ a b, tag a = tag b → a = b) {a a' b b' : α} (hab : θ.on tag a b) (hab' : θ.on tag a' b') : a = a' ↔ b = b' := by
  have htags := h.oneToOne _ _ _ _ hab hab'
  constructor
  · rintro rfl
    exact hinj _ _ (htags.1 rfl)
  · rintro rfl
    exact hinj _ _ (htags.2 rfl)

structure FileAlike (θ : Pairing) (f f' : StoredFile) : Prop where
  bytes : f.bytes = f'.bytes
  modified : θ.on .date f.modified f'.modified

def GateAlike (x x' : Gate) : Prop := x.isOpen = x'.isOpen

/-- runs that go the same way have the same tasks, in the same order -/
structure SameTasks (S : Scope) (θ : Pairing) (ts ts' : Tasks Phase) : Prop where
  rows : RowsAlike (TaskAlike S θ) ts.live ts'.live
  ready : ts.ready = ts'.ready
  floor : ts.floor = ts'.floor

/-- what two worlds show -/
structure Shown (S : Scope) (θ : Pairing) (w v : World) : Prop where
  counts : S.whole → w.counts = v.counts
  files : Agree (S.seen · = true) (FileAlike θ) w.disk.files v.disk.files
  diskCalls : Agree (fun x => S.seen x.2 = true) Eq w.disk.calls v.disk.calls
  failures : Agree (fun x => S.seen x.2 = true) Eq w.disk.failures v.disk.failures
  gateFor : Agree (fun x => S.seen x.2 = true) (θ.on .gate) w.disk.gateFor v.disk.gateFor
  gateTable : S.whole → w.disk.gates = v.disk.gates
  underWay : Agree (S.seen · = true) Eq w.disk.underWay v.disk.underWay
  mostUnderWay : Agree (S.seen · = true) Eq w.disk.mostUnderWay v.disk.mostUnderWay
  refused : ∀ k, S.seen k = true → (k ∈ w.watcher.refused ↔ k ∈ v.watcher.refused)
  calls : List.Forall₂ (WatcherCallAlike S) (w.watcher.calls.filter fun x => S.seen x.path.key) v.watcher.calls
  attempts : List.Forall₂ S.path (w.watcher.attempts.filter fun x => S.seen x.key) v.watcher.attempts
  policy : w.policy = v.policy
  entries : Agree (S.seen · = true) (EntryAlike S θ) w.entries v.entries
  keys : S.whole → w.entries.keys = v.entries.keys
  rank : S.whole → w.rank = v.rank
  slots : Agree (S.seen · = true) (SlotAlike θ) w.turns.slots v.turns.slots
  closed : w.pool.closed = v.pool.closed
  active : S.whole → w.pool.active = v.pool.active
  isShutDown : w.isShutDown = v.isShutDown
  channels : Agree (fun _ => True) (ChannelAlike (fun x : Snapshot => S.seen x.path.key) (SnapshotAlike S θ)) w.channels v.channels
  nextSubscriber : w.nextSubscriber = v.nextSubscriber
  streams : Agree (fun _ => True) (ChannelAlike (fun x : Event => S.seen x.path.key) (EventAlike S)) w.streams v.streams
  nextStream : w.nextStream = v.nextStream
  pump : Option.Rel (θ.on .task) w.pump v.pump
  floor : ∀ b, v.tasks.floor = some b → ∃ a, θ.on .task a b ∧ w.tasks.floor = some a
  tasks : S.whole → SameTasks S θ w.tasks v.tasks

/-- What two worlds have tagged: tags that stand for each other have the same told of them, and all others are new or somebody
else's. -/
structure Ledger (S : Scope) (O : Tag → Prop) (θ : Pairing) (w v : World) : Prop where
  fit : θ.Fit S O
  made : ∀ x y, θ x y → x.Made w.counts ∧ y.Made v.counts
  others : ∀ x, O x → x.Made w.counts
  gates : ∀ a b, θ.on .gate a b → Option.Rel GateAlike (w.disk.gates.get? a) (v.disk.gates.get? b)
  locks : ∀ a b, θ.on .lock a b → LockAlike θ (w.turns.lock a) (v.turns.lock b)
  /-- locks at paths that cannot be seen -/
  elsewhere : ∀ k s, S.seen k = false → w.turns.slots.get? k = some s → s.lock < w.turns.nextLock ∧ ∀ b, ¬θ.on .lock s.lock b
  given : ∀ a b, θ.on .signal a b → w.signals.isGiven a = v.signals.isGiven b
  old : (∀ a ∈ w.signals.given, a < w.signals.next) ∧ ∀ b ∈ v.signals.given, b < v.signals.next
  live : ∀ a b, θ.on .task a b → Option.Rel (TaskAlike S θ) (w.tasks.live.get? a) (v.tasks.live.get? b)
  covered : (∀ id, (w.tasks.live.get? id).isSome → (∃ b, θ.on .task id b) ∨ O (.task id)) ∧
    ∀ id, (v.tasks.live.get? id).isSome → ∃ a, θ.on .task a id
  endings : ∀ a b, θ.on .task a b → List.Forall₂ (EndingAlike S θ) (w.endingsOf a) (v.endingsOf b)
  ended : (∀ e ∈ w.endings, (∃ b, θ.on .task e.1 b) ∨ O (.task e.1)) ∧ ∀ e ∈ v.endings, ∃ a, θ.on .task a e.1

/-- **Two worlds are alike.** -/
structure Alike (S : Scope) (O : Tag → Prop) (θ : Pairing) (w v : World) : Prop extends Shown S θ w v, Ledger S O θ w v

/-- Two worlds with what an operation has returned: all that is alike, under a larger pairing. -/
def Like {α β : Type} (S : Scope) (O : Tag → Prop) (θ : Pairing) (r : Pairing → α → β → Prop) (x : World × α) (y : World × β) :
    Prop :=
  ∃ θ', θ ≤ θ' ∧ Alike S O θ' x.1 y.1 ∧ r θ' x.2 y.2

variable {S : Scope} {O : Tag → Prop} {θ θ' : Pairing} {w v w' v' : World} {p p' : Path} {s s' : SignalId} {τ τ' : Turn}
  {e e' : Entry} {ts ts' : Tasks Phase}

theorem SameTasks.mono (h : SameTasks S θ ts ts') (hθ : θ ≤ θ') : SameTasks S θ' ts ts' :=
  ⟨h.rows.mono fun _ _ hx => hx.mono hθ, h.ready, h.floor⟩

theorem Shown.mono (h : Shown S θ w v) (hθ : θ ≤ θ') : Shown S θ' w v :=
  { h with
    files := h.files.mono fun _ _ hx => ⟨hx.bytes, hθ _ _ hx.modified⟩
    gateFor := h.gateFor.mono fun _ _ hx => hθ _ _ hx
    entries := h.entries.mono fun _ _ hx => hx.mono hθ
    slots := h.slots.mono fun _ _ hx => ⟨hθ _ _ hx.lock, hx.users⟩
    channels := h.channels.mono fun _ _ hx => hx.mono fun _ _ hy => hy.mono hθ
    pump := rel_mono h.pump fun _ _ hx => hθ _ _ hx
    floor := fun b hb => by
      obtain ⟨a, hab, ha⟩ := h.floor b hb
      exact ⟨a, hθ _ _ hab, ha⟩
    tasks := fun hS => (h.tasks hS).mono hθ }

/-! ## Something new -/

/-- what two worlds tell of two new tags -/
def Newcomers (S : Scope) (θ : Pairing) (w v : World) : Tag → Tag → Prop
  | .task a, .task b =>
    Option.Rel (TaskAlike S θ) (w.tasks.live.get? a) (v.tasks.live.get? b) ∧ w.endingsOf a = [] ∧ v.endingsOf b = []
  | .signal a, .signal b => w.signals.isGiven a = v.signals.isGiven b
  | .turn _, .turn _ => True
  | .lock a, .lock b =>
    LockAlike θ (w.turns.lock a) (v.turns.lock b) ∧ ∀ k s, S.seen k = false → w.turns.slots.get? k = some s → s.lock ≠ a
  | .query _, .query _ => True
  | .gate a, .gate b => Option.Rel GateAlike (w.disk.gates.get? a) (v.disk.gates.get? b)
  | .date t, .date u => ∀ t' u', θ.on .date t' u' → t'.nanos < t.nanos ∧ u'.nanos < u.nanos
  | _, _ => False

/-- **New tags can stand for each other**, if the worlds tell the same of them. -/
theorem Alike.also (h : Alike S O θ w v) {x y : Tag} (hmade : x.Made w.counts ∧ y.Made v.counts) (hnew : ∀ a b, θ a b → a ≠ x ∧ b ≠ y)
    (hO : ¬O x) (hsame : S.whole → x = y) (hxy : Newcomers S θ w v x y) : Alike S O (θ.also x y) w v := by
  have hle := θ.le_also x y
  have hshown := h.toShown.mono hle
  refine
    { hshown with
      fit := ⟨?_, ?_, ?_, Or.inl h.fit.epoch, ?_⟩
      made := ?_
      others := h.others
      gates := ?_
      locks := ?_
      elsewhere := ?_
      given := ?_
      old := h.old
      live := ?_
      covered := ⟨fun id hid => (h.covered.1 id hid).imp_left fun ⟨b, hb⟩ => ⟨b, Or.inl hb⟩, fun id hid =>
        (h.covered.2 id hid).imp fun a ha => Or.inl ha⟩
      endings := ?_
      ended := ⟨fun e he => (h.ended.1 e he).imp_left fun ⟨b, hb⟩ => ⟨b, Or.inl hb⟩, fun e he =>
        (h.ended.2 e he).imp fun a ha => Or.inl ha⟩ }
  case refine_1 =>
    rintro a a' b b' (hab | ⟨rfl, rfl⟩) (hab' | ⟨rfl, rfl⟩)
    · exact h.fit.oneToOne a a' b b' hab hab'
    · exact ⟨fun ha => absurd ha (hnew a b hab).1, fun hb => absurd hb (hnew a b hab).2⟩
    · exact ⟨fun ha => absurd ha.symm (hnew a' b' hab').1, fun hb => absurd hb.symm (hnew a' b' hab').2⟩
    · exact ⟨fun _ => rfl, fun _ => rfl⟩
  case refine_2 =>
    rintro hS a b (hab | ⟨rfl, rfl⟩)
    · exact h.fit.same hS a b hab
    · exact hsame hS
  case refine_3 =>
    rintro a b (hab | ⟨rfl, rfl⟩)
    · exact h.fit.apart a b hab
    · exact hO
  case refine_4 =>
    rintro t t' u u' (htu | ⟨rfl, rfl⟩) (htu' | ⟨hx, hy⟩)
    · exact h.fit.later t t' u u' htu htu'
    · subst hx hy
      obtain ⟨hlt, hlt'⟩ := hxy t u htu
      exact ⟨fun _ => hlt', fun _ => hlt⟩
    · obtain ⟨hlt, hlt'⟩ := hxy t' u' htu'
      exact ⟨fun hgt => absurd hgt hlt.asymm, fun hgt => absurd hgt hlt'.asymm⟩
    · cases hx
      cases hy
      exact ⟨fun hlt => absurd hlt (lt_irrefl _), fun hlt => absurd hlt (lt_irrefl _)⟩
  case refine_5 =>
    rintro a b (hab | ⟨rfl, rfl⟩)
    · exact h.made a b hab
    · exact hmade
  case refine_6 =>
    rintro a b (hab | ⟨rfl, rfl⟩)
    · exact h.gates a b hab
    · exact hxy
  case refine_7 =>
    rintro a b (hab | ⟨rfl, rfl⟩)
    · exact (h.locks a b hab).mono hle
    · exact hxy.1.mono hle
  case refine_8 =>
    intro k s hk hs
    refine ⟨(h.elsewhere k s hk hs).1, fun b hb => ?_⟩
    rcases hb with hb | ⟨rfl, rfl⟩
    · exact (h.elsewhere k s hk hs).2 b hb
    · exact hxy.2 k s hk hs rfl
  case refine_9 =>
    rintro a b (hab | ⟨rfl, rfl⟩)
    · exact h.given a b hab
    · exact hxy
  case refine_10 =>
    rintro a b (hab | ⟨rfl, rfl⟩)
    · exact rel_mono (h.live a b hab) fun _ _ ht => ht.mono hle
    · exact rel_mono hxy.1 fun _ _ ht => ht.mono hle
  case refine_11 =>
    rintro a b (hab | ⟨rfl, rfl⟩)
    · exact (h.endings a b hab).imp fun _ _ he => he.mono hle
    · rw [hxy.2.1, hxy.2.2]
      exact .nil

/-- numbers that have not been given away, and dates to come, stand for nothing -/
theorem Alike.fresh (h : Alike S O θ w v) {x y : Tag} (hx : ¬x.Made w.counts) (hy : ¬y.Made v.counts) :
    (∀ a b, θ a b → a ≠ x ∧ b ≠ y) ∧ ¬O x := by
  refine ⟨fun a b hab => ⟨?_, ?_⟩, fun hO => hx (h.others x hO)⟩
  · rintro rfl
    exact hx (h.made _ _ hab).1
  · rintro rfl
    exact hy (h.made _ _ hab).2

theorem Alike.made_mono (h : Alike S O θ w v) {c c' : Counts} (hc : w.counts.Later c) (hc' : v.counts.Later c') :
    ∀ x y, θ x y → x.Made c ∧ y.Made c' := fun x y hxy => ⟨(h.made x y hxy).1.mono hc, (h.made x y hxy).2.mono hc'⟩

theorem Alike.others_mono (h : Alike S O θ w v) {c : Counts} (hc : w.counts.Later c) : ∀ x, O x → x.Made c := fun x hx =>
  (h.others x hx).mono hc

/-- a signal that nobody has had is not given -/
theorem not_given_next {x : Signals} (h : ∀ a ∈ x.given, a < x.next) : x.isGiven x.next = false := by
  rw [Signals.isGiven, decide_eq_false_iff_not]
  exact fun hmem => lt_irrefl _ (h _ hmem)

theorem Alike.freshSignal (h : Alike S O θ w v) :
    Alike S O (θ.also (.signal w.signals.next) (.signal v.signals.next)) w.freshSignal.2 v.freshSignal.2 := by
  have hlater : ∀ x : World, x.counts.Later x.freshSignal.2.counts := fun x => ⟨le_rfl, Nat.le_succ _, le_rfl, le_rfl, le_rfl, le_rfl, le_rfl⟩
  have hcounted : Alike S O θ w.freshSignal.2 v.freshSignal.2 :=
    { h with
      counts := fun hS => congrArg (fun c => { c with signal := c.signal + 1 }) (h.counts hS)
      made := h.made_mono (hlater w) (hlater v)
      others := h.others_mono (hlater w)
      old := ⟨fun a ha => (h.old.1 a ha).trans (Nat.lt_succ_self _), fun b hb => (h.old.2 b hb).trans (Nat.lt_succ_self _)⟩ }
  have hfresh := h.fresh (x := .signal w.signals.next) (y := .signal v.signals.next) (lt_irrefl _) (lt_irrefl _)
  exact hcounted.also ⟨Nat.lt_succ_self _, Nat.lt_succ_self _⟩ hfresh.1 hfresh.2
    (fun hS => congrArg (fun c => Tag.signal c.signal) (h.counts hS)) ((not_given_next h.old.1).trans (not_given_next h.old.2).symm)

theorem Alike.nextQuery (h : Alike S O θ w v) :
    Alike S O (θ.also (.query w.nextQuery) (.query v.nextQuery)) { w with nextQuery := w.nextQuery + 1 }
      { v with nextQuery := v.nextQuery + 1 } := by
  have hlater : ∀ x : World, x.counts.Later { x.counts with query := x.nextQuery + 1 } := fun x =>
    ⟨le_rfl, le_rfl, le_rfl, le_rfl, Nat.le_succ _, le_rfl, le_rfl⟩
  have hcounted : Alike S O θ { w with nextQuery := w.nextQuery + 1 } { v with nextQuery := v.nextQuery + 1 } :=
    { h with
      counts := fun hS => congrArg (fun c => { c with query := c.query + 1 }) (h.counts hS)
      made := h.made_mono (hlater w) (hlater v)
      others := h.others_mono (hlater w) }
  have hfresh := h.fresh (x := .query w.nextQuery) (y := .query v.nextQuery) (lt_irrefl _) (lt_irrefl _)
  exact hcounted.also ⟨Nat.lt_succ_self _, Nat.lt_succ_self _⟩ hfresh.1 hfresh.2
    (fun hS => congrArg (fun c => Tag.query c.query) (h.counts hS)) trivial

/-- the number of the next turn is new -/
theorem Alike.nextTurn (h : Alike S O θ w v) :
    Alike S O (θ.also (.turn w.turns.nextTurn) (.turn v.turns.nextTurn))
      { w with turns := { w.turns with nextTurn := w.turns.nextTurn + 1 } }
      { v with turns := { v.turns with nextTurn := v.turns.nextTurn + 1 } } := by
  have hlater : ∀ x : World, x.counts.Later { x.counts with turn := x.turns.nextTurn + 1 } := fun x =>
    ⟨le_rfl, le_rfl, Nat.le_succ _, le_rfl, le_rfl, le_rfl, le_rfl⟩
  have hcounted : Alike S O θ { w with turns := { w.turns with nextTurn := w.turns.nextTurn + 1 } }
      { v with turns := { v.turns with nextTurn := v.turns.nextTurn + 1 } } :=
    { h with
      counts := fun hS => congrArg (fun c => { c with turn := c.turn + 1 }) (h.counts hS)
      made := h.made_mono (hlater w) (hlater v)
      others := h.others_mono (hlater w) }
  have hfresh := h.fresh (x := .turn w.turns.nextTurn) (y := .turn v.turns.nextTurn) (lt_irrefl _) (lt_irrefl _)
  exact hcounted.also ⟨Nat.lt_succ_self _, Nat.lt_succ_self _⟩ hfresh.1 hfresh.2
    (fun hS => congrArg (fun c => Tag.turn c.turn) (h.counts hS)) trivial

/-- a world with one lock more, which is free -/
def World.withLock (w : World) : World :=
  { w with turns := { w.turns with locks := w.turns.locks.insert w.turns.nextLock {}, nextLock := w.turns.nextLock + 1 } }

theorem lock_withLock (w : World) (b : LockId) :
    w.withLock.turns.lock b = if w.turns.nextLock = b then {} else w.turns.lock b := Turns.lock_insert w.turns w.turns.nextLock b {}

theorem Alike.nextLock (h : Alike S O θ w v) :
    Alike S O (θ.also (.lock w.turns.nextLock) (.lock v.turns.nextLock)) w.withLock v.withLock := by
  have hlater : ∀ x : World, x.counts.Later x.withLock.counts := fun x => ⟨le_rfl, le_rfl, le_rfl, Nat.le_succ _, le_rfl, le_rfl, le_rfl⟩
  have hfresh := h.fresh (x := .lock w.turns.nextLock) (y := .lock v.turns.nextLock) (lt_irrefl _) (lt_irrefl _)
  have hcounted : Alike S O θ w.withLock v.withLock :=
    { h with
      counts := fun hS => congrArg (fun c => { c with lock := c.lock + 1 }) (h.counts hS)
      made := h.made_mono (hlater w) (hlater v)
      others := h.others_mono (hlater w)
      locks := fun a b hab => by
        have hne := hfresh.1 _ _ hab
        rw [lock_withLock, lock_withLock, if_neg fun ha => hne.1 (congrArg Tag.lock ha.symm),
          if_neg fun hb => hne.2 (congrArg Tag.lock hb.symm)]
        exact h.locks a b hab
      elsewhere := fun k s hk hs => ⟨(h.elsewhere k s hk hs).1.trans (Nat.lt_succ_self _), (h.elsewhere k s hk hs).2⟩ }
  refine hcounted.also ⟨Nat.lt_succ_self _, Nat.lt_succ_self _⟩ hfresh.1 hfresh.2
    (fun hS => congrArg (fun c => Tag.lock c.lock) (h.counts hS)) ⟨?_, fun k s hk hs => (h.elsewhere k s hk hs).1.ne⟩
  rw [lock_withLock, lock_withLock, if_pos rfl, if_pos rfl]
  exact ⟨.none, .nil⟩

theorem endingsOf_eq_nil {n : TaskId} (h : ∀ e ∈ w.endings, e.1 ≠ n) : w.endingsOf n = [] := by
  rw [World.endingsOf, List.filter_eq_nil_iff.2]
  · rfl
  · intro e he
    simp only [decide_eq_true_eq]
    exact h e he

/-- calls that have ended have been made -/
theorem Alike.endings_made (h : Alike S O θ w v) :
    (∀ e ∈ w.endings, e.1 < w.tasks.next) ∧ ∀ e ∈ v.endings, e.1 < v.tasks.next := by
  refine ⟨fun e he => ?_, fun e he => ?_⟩
  · rcases h.ended.1 e he with ⟨b, hb⟩ | hO
    · exact (h.made _ _ hb).1
    · exact h.others _ hO
  · obtain ⟨a, ha⟩ := h.ended.2 e he
    exact (h.made _ _ ha).2

/-- no task has a number that has not been given away -/
theorem Alike.dead (h : Alike S O θ w v) :
    w.tasks.live.get? w.tasks.next = none ∧ v.tasks.live.get? v.tasks.next = none := by
  constructor
  · by_contra hlive
    rcases h.covered.1 _ (Option.isSome_iff_ne_none.2 hlive) with ⟨b, hb⟩ | hO
    · exact lt_irrefl _ (h.made _ _ hb).1
    · exact lt_irrefl _ (h.others _ hO)
  · by_contra hlive
    obtain ⟨a, ha⟩ := h.covered.2 _ (Option.isSome_iff_ne_none.2 hlive)
    exact lt_irrefl _ (h.made _ _ ha).2

theorem Alike.nextTask (h : Alike S O θ w v) :
    Alike S O (θ.also (.task w.tasks.next) (.task v.tasks.next)) { w with tasks := { w.tasks with next := w.tasks.next + 1 } }
      { v with tasks := { v.tasks with next := v.tasks.next + 1 } } := by
  have hlater : ∀ x : World, x.counts.Later { x.counts with task := x.tasks.next + 1 } := fun x =>
    ⟨Nat.le_succ _, le_rfl, le_rfl, le_rfl, le_rfl, le_rfl, le_rfl⟩
  have hcounted : Alike S O θ { w with tasks := { w.tasks with next := w.tasks.next + 1 } }
      { v with tasks := { v.tasks with next := v.tasks.next + 1 } } :=
    { h with
      counts := fun hS => congrArg (fun c => { c with task := c.task + 1 }) (h.counts hS)
      tasks := fun hS => { h.tasks hS with }
      made := h.made_mono (hlater w) (hlater v)
      others := h.others_mono (hlater w) }
  have hfresh := h.fresh (x := .task w.tasks.next) (y := .task v.tasks.next) (lt_irrefl _) (lt_irrefl _)
  refine hcounted.also ⟨Nat.lt_succ_self _, Nat.lt_succ_self _⟩ hfresh.1 hfresh.2
    (fun hS => congrArg (fun c => Tag.task c.task) (h.counts hS)) ⟨?_, endingsOf_eq_nil fun e he => (h.endings_made.1 e he).ne, endingsOf_eq_nil fun e he => (h.endings_made.2 e he).ne⟩
  dsimp only
  rw [h.dead.1, h.dead.2]
  exact .none

/-- other tasks instead, with the same numbers to come -/
theorem Alike.withTasks (h : Alike S O θ w v) (hnext : ts.next = w.tasks.next) (hnext' : ts'.next = v.tasks.next)
    (hfloor : ∀ b, ts'.floor = some b → ∃ a, θ.on .task a b ∧ ts.floor = some a) (htasks : S.whole → SameTasks S θ ts ts')
    (hlive : ∀ a b, θ.on .task a b → Option.Rel (TaskAlike S θ) (ts.live.get? a) (ts'.live.get? b))
    (hcovered : (∀ id, (ts.live.get? id).isSome → (∃ b, θ.on .task id b) ∨ O (.task id)) ∧
      ∀ id, (ts'.live.get? id).isSome → ∃ a, θ.on .task a id) :
    Alike S O θ { w with tasks := ts } { v with tasks := ts' } :=
  { h with
    counts := fun hS => by
      unfold World.counts
      dsimp only
      rw [hnext, hnext']
      exact h.counts hS
    floor := hfloor
    tasks := htasks
    made := h.made_mono ⟨hnext.ge, le_rfl, le_rfl, le_rfl, le_rfl, le_rfl, le_rfl⟩
      ⟨hnext'.ge, le_rfl, le_rfl, le_rfl, le_rfl, le_rfl, le_rfl⟩
    others := h.others_mono ⟨hnext.ge, le_rfl, le_rfl, le_rfl, le_rfl, le_rfl, le_rfl⟩
    live := hlive
    covered := hcovered }

/-- **Tasks that are spawned alike stand for each other.** -/
theorem Alike.spawn (h : Alike S O θ w v) (role : Role) {a a' : Activity} (ha : ActivityAlike S θ a a') :
    Alike S O (θ.also (.task w.tasks.next) (.task v.tasks.next)) (w.spawn role a).2 (v.spawn role a').2 := by
  have hnext := h.nextTask
  have hself := θ.also_self (.task w.tasks.next) (.task v.tasks.next)
  have hnew : TaskAlike S (θ.also (.task w.tasks.next) (.task v.tasks.next)) ⟨⟨role, a⟩, false⟩ ⟨⟨role, a'⟩, false⟩ :=
    ⟨⟨rfl, ha.mono (θ.le_also _ _)⟩, rfl⟩
  refine hnext.withTasks rfl rfl hnext.floor (fun hS => ?_) (fun i j hij => ?_) ⟨fun id hid => ?_, fun id hid => ?_⟩
  · have htasks := hnext.tasks hS
    have hsame : w.tasks.next = v.tasks.next := congrArg Counts.task (h.counts hS)
    have hrows := htasks.rows.insert w.tasks.next hnew
    have hright : v.tasks.live.insert w.tasks.next ⟨⟨role, a'⟩, false⟩ = v.tasks.live.insert v.tasks.next ⟨⟨role, a'⟩, false⟩ := by
      rw [hsame]
    dsimp only at hrows
    rw [hright] at hrows
    exact ⟨hrows, congrArg₂ (fun l n => l ++ [n]) htasks.ready hsame, htasks.floor⟩
  · dsimp only
    rw [Table.get?_insert, Table.get?_insert]
    have hiff := hnext.fit.eq_iff (fun _ _ h => Tag.task.inj h) hself hij
    by_cases hi : w.tasks.next = i
    · rw [if_pos hi, if_pos (hiff.1 hi)]
      exact .some hnew
    · rw [if_neg hi, if_neg (mt hiff.2 hi)]
      exact hnext.live i j hij
  · dsimp only at hid
    rw [Table.get?_insert] at hid
    by_cases hi : w.tasks.next = id
    · subst hi
      exact Or.inl ⟨_, hself⟩
    · rw [if_neg hi] at hid
      exact hnext.covered.1 id hid
  · dsimp only at hid
    rw [Table.get?_insert] at hid
    by_cases hi : v.tasks.next = id
    · subst hi
      exact ⟨_, hself⟩
    · rw [if_neg hi] at hid
      exact hnext.covered.2 id hid

/-! ## The queue -/

theorem CallAlike.awaits {c c' : Call} (h : CallAlike θ c c') : AwaitAlike θ (Call.awaits c) (Call.awaits c') := by
  cases h with
  | held h => exact .gate h
  | due => exact .nothing

theorem RefreshAlike.awaits {r r' : Refresh} (h : RefreshAlike S θ r r') : AwaitAlike θ r.awaits r'.awaits := by
  cases h with
  | queued hp hq hτ => exact .turn hτ.id
  | looking hl hc => exact hc.awaits
  | reading hl ht hc => exact hc.awaits
  | lookingAgain hl hf hc => exact hc.awaits

theorem SaveAlike.awaits {x x' : Save} (h : SaveAlike S θ x x') : AwaitAlike θ x.awaits x'.awaits := by
  cases h with
  | queued h => exact .turn h.turn.id
  | writing h hc => exact hc.awaits
  | looking h hc => exact hc.awaits

/-- tasks in phases that are alike wait for events that are alike -/
theorem ActivityAlike.awaits {a a' : Activity} (h : ActivityAlike S θ a a') : AwaitAlike θ a.awaits a'.awaits := by
  have hsignal : ∀ {o o' : Option SignalId}, Option.Rel (θ.on .signal) o o' → AwaitAlike θ (awaitSignal o) (awaitSignal o') := by
    intro o o' ho
    cases ho with
    | some hx => exact .signal hx
    | none => exact .nothing
  have hturn : ∀ {τ τ' : Option Turn}, Option.Rel (TurnAlike S θ) τ τ' → AwaitAlike θ (awaitTurn τ) (awaitTurn τ') := by
    intro τ τ' hτ
    cases hτ with
    | some hx => exact .turn hx.id
    | none => exact .nothing
  cases h with
  | starting h => exact .nothing
  | refreshing h => exact h.awaits
  | saving h => exact h.awaits
  | joining hp x hj ho => exact hsignal ho
  | synchronizing hx h => exact h.awaits
  | settling hx ho => exact hsignal ho
  | tearingDown hp hτ hl => exact hturn hτ
  | awaitingQuiet h => exact .quiet
  | closing h hps => exact .quiet
  | draining h hp hτ hps => exact hturn hτ
  | diskStat hp hc => exact hc.awaits
  | diskRead hp hc => exact hc.awaits
  | diskWrite bytes hp hc => exact hc.awaits
  | listening hp x => exact .farewell x
  | pumping s => exact .message s

theorem AwaitAlike.eq (hθ : ∀ x y, θ x y → x = y) {a a' : Await} (h : AwaitAlike θ a a') : a = a' := by
  cases h with
  | turn h => exact congrArg Await.turn (Tag.turn.inj (hθ _ _ h))
  | gate h => exact congrArg Await.gate (Tag.gate.inj (hθ _ _ h))
  | signal h => exact congrArg Await.signal (Tag.signal.inj (hθ _ _ h))
  | nothing | quiet | message | farewell => rfl

theorem SameTasks.enqueue (h : SameTasks S θ ts ts') (id : TaskId) : SameTasks S θ (ts.enqueue id) (ts'.enqueue id) := by
  refine ⟨?_, ?_, ?_⟩
  · rw [Tasks.live_enqueue, Tasks.live_enqueue]
    exact h.rows
  · unfold Tasks.enqueue
    rw [h.ready, h.floor]
    split
    · exact h.ready
    · rfl
  · rw [Tasks.floor_enqueue, Tasks.floor_enqueue, h.floor]

/-- the same tasks are woken, in the same order -/
theorem SameTasks.wake (hθ : ∀ x y, θ x y → x = y) (h : SameTasks S θ ts ts') (a : Await) :
    SameTasks S θ (ts.wake fun p => p.activity.awaits = a) (ts'.wake fun p => p.activity.awaits = a) := by
  have hrows := h.rows
  unfold RowsAlike at hrows
  unfold Tasks.wake
  generalize ts.live.rows = rows at hrows
  generalize ts'.live.rows = rows' at hrows
  induction hrows generalizing ts ts' with
  | nil => exact h
  | @cons x y xs ys hxy hrest ih =>
    obtain ⟨hid, hx⟩ := hxy
    have hsame : x.2.phase.activity.awaits = y.2.phase.activity.awaits := (hx.phase.activity.awaits).eq hθ
    by_cases hc : y.2.phase.activity.awaits = a
    · rw [List.filter_cons_of_pos (by simpa using hsame.trans hc), List.filter_cons_of_pos (by simpa using hc),
        List.foldl_cons, List.foldl_cons, hid]
      exact ih (h.enqueue y.1)
    · rw [List.filter_cons_of_neg (by simpa using hsame ▸ hc), List.filter_cons_of_neg (by simpa using hc)]
      exact ih h

/-- It does not matter who is woken, unless the runs go the same way. -/
theorem Alike.wakes (h : Alike S O θ w v) {a a' : Await} (ha : S.whole → a = a') : Alike S O θ (w.wake a) (v.wake a') := by
  have hfloor : ∀ (x : World) (b : Await), (x.wake b).tasks.floor = x.tasks.floor := fun x b =>
    (Tasks.grows_wake (P := fun _ => True) x.tasks _).floor
  refine h.withTasks (Tasks.next_wake _ _) (Tasks.next_wake _ _) (fun b hb => ?_) (fun hS => ?_) ?_ ?_
  · obtain ⟨i, hi, hif⟩ := h.floor b ((hfloor v a').symm.trans hb)
    exact ⟨i, hi, (hfloor w a).trans hif⟩
  · obtain rfl := ha hS
    exact (h.tasks hS).wake (h.fit.same hS) a
  · rw [Tasks.live_wake, Tasks.live_wake]
    exact h.live
  · rw [Tasks.live_wake, Tasks.live_wake]
    exact h.covered

theorem Alike.wake (h : Alike S O θ w v) {a a' : Await} (ha : AwaitAlike θ a a') : Alike S O θ (w.wake a) (v.wake a') :=
  h.wakes fun hS => ha.eq (h.fit.same hS)

/-! ## Signals -/

theorem lt_of_mem_give {x : Signals} {a : SignalId} (h : ∀ b ∈ x.given, b < x.next) (ha : a < x.next) :
    ∀ b ∈ (x.give a).given, b < (x.give a).next := by
  intro b hb
  rw [next_give]
  unfold Signals.give at hb
  split at hb
  · exact h b hb
  · rcases List.mem_cons.1 hb with rfl | hb
    · exact ha
    · exact h b hb

theorem Alike.give (h : Alike S O θ w v) (hs : θ.on .signal s s') : Alike S O θ (w.give s) (v.give s') := by
  have hlater : ∀ (x : World) (a : SignalId), x.counts.Later { x.counts with signal := (x.signals.give a).next } := fun x a =>
    ⟨le_rfl, (next_give x.signals a).ge, le_rfl, le_rfl, le_rfl, le_rfl, le_rfl⟩
  have hgiven : Alike S O θ { w with signals := w.signals.give s } { v with signals := v.signals.give s' } :=
    { h with
      counts := fun hS => by
        unfold World.counts
        dsimp only
        rw [next_give, next_give]
        exact h.counts hS
      made := h.made_mono (hlater w s) (hlater v s')
      others := h.others_mono (hlater w s)
      given := fun a b hab => by
        rw [Signals.isGiven_give, Signals.isGiven_give, h.given a b hab]
        exact congrArg (· || _) (decide_eq_decide.2 (h.fit.eq_iff (fun _ _ h => Tag.signal.inj h) hs hab))
      old := ⟨lt_of_mem_give h.old.1 (h.made _ _ hs).1, lt_of_mem_give h.old.2 (h.made _ _ hs).2⟩ }
  exact hgiven.wake (.signal hs)

theorem Alike.giveIf (h : Alike S O θ w v) {o o' : Option SignalId} (ho : Option.Rel (θ.on .signal) o o') :
    Alike S O θ (w.giveIf o) (v.giveIf o') := by
  cases ho with
  | some hs => exact h.give hs
  | none => exact h

/-- signals that are alike have been given alike -/
theorem Alike.any_given (h : Alike S O θ w v) {o o' : Option SignalId} (ho : Option.Rel (θ.on .signal) o o') :
    (o.any fun x => !w.signals.isGiven x) = o'.any fun x => !v.signals.isGiven x :=
  rel_any ho fun a b hab => congrArg (! ·) (h.given a b hab)

/-! ## Cancelling -/

theorem isSome_get?_modify (t : Table TaskId (Task Phase)) (c id : TaskId) (f : Task Phase → Task Phase) :
    ((t.modify c f).get? id).isSome = (t.get? id).isSome := by
  rw [Table.get?_modify]
  split
  · exact Option.isSome_map
  · rfl

/-- a task of each world is changed, alike -/
theorem Alike.modifyTask (h : Alike S O θ w v) {a b : TaskId} (hab : θ.on .task a b) {f g : Task Phase → Task Phase}
    (hfg : ∀ t t', TaskAlike S θ t t' → TaskAlike S θ (f t) (g t')) :
    Alike S O θ { w with tasks := { w.tasks with live := w.tasks.live.modify a f } }
      { v with tasks := { v.tasks with live := v.tasks.live.modify b g } } := by
  refine h.withTasks rfl rfl h.floor (fun hS => ?_) (fun x y hxy => ?_)
    ⟨fun id hid => h.covered.1 id ?_, fun id hid => h.covered.2 id ?_⟩
  · have htasks := h.tasks hS
    obtain rfl : a = b := Tag.task.inj (h.fit.same hS _ _ hab)
    exact ⟨htasks.rows.modify a hfg, htasks.ready, htasks.floor⟩
  · dsimp only
    rw [Table.get?_modify, Table.get?_modify]
    have hiff := h.fit.eq_iff (fun _ _ h => Tag.task.inj h) hab hxy
    by_cases hx : a = x
    · rw [if_pos hx, if_pos (hiff.1 hx)]
      exact rel_map (h.live x y hxy) hfg
    · rw [if_neg hx, if_neg (mt hiff.2 hx)]
      exact h.live x y hxy
  · dsimp only at hid
    rwa [isSome_get?_modify] at hid
  · dsimp only at hid
    rwa [isSome_get?_modify] at hid

/-- a task of each world is over -/
theorem Alike.eraseTask (h : Alike S O θ w v) {a b : TaskId} (hab : θ.on .task a b) :
    Alike S O θ { w with tasks := { w.tasks with live := w.tasks.live.erase a, floor := none } }
      { v with tasks := { v.tasks with live := v.tasks.live.erase b, floor := none } } := by
  have hsome : ∀ {t : Table TaskId (Task Phase)} {c id : TaskId}, ((t.erase c).get? id).isSome → (t.get? id).isSome := by
    intro t c id hid
    rw [Table.get?_erase] at hid
    split at hid
    · cases hid
    · exact hid
  refine h.withTasks rfl rfl (fun _ hb => by cases hb) (fun hS => ?_) (fun x y hxy => ?_)
    ⟨fun id hid => h.covered.1 id (hsome hid), fun id hid => h.covered.2 id (hsome hid)⟩
  · obtain rfl : a = b := Tag.task.inj (h.fit.same hS _ _ hab)
    exact ⟨(h.tasks hS).rows.erase a, (h.tasks hS).ready, rfl⟩
  · dsimp only
    rw [Table.get?_erase, Table.get?_erase]
    have hiff := h.fit.eq_iff (fun _ _ h => Tag.task.inj h) hab hxy
    by_cases hx : a = x
    · rw [if_pos hx, if_pos (hiff.1 hx)]
      exact .none
    · rw [if_neg hx, if_neg (mt hiff.2 hx)]
      exact h.live x y hxy

theorem Alike.enqueue (h : Alike S O θ w v) {a b : TaskId} (hab : θ.on .task a b) :
    Alike S O θ { w with tasks := w.tasks.enqueue a } { v with tasks := v.tasks.enqueue b } := by
  refine h.withTasks (Tasks.next_enqueue _ _) (Tasks.next_enqueue _ _) (fun j hj => ?_) (fun hS => ?_) ?_ ?_
  · rw [Tasks.floor_enqueue] at hj ⊢
    exact h.floor j hj
  · obtain rfl : a = b := Tag.task.inj (h.fit.same hS _ _ hab)
    exact (h.tasks hS).enqueue a
  · rw [Tasks.live_enqueue, Tasks.live_enqueue]
    exact h.live
  · rw [Tasks.live_enqueue, Tasks.live_enqueue]
    exact h.covered

theorem Alike.cancel (h : Alike S O θ w v) {a b : TaskId} (hab : θ.on .task a b) : Alike S O θ (w.cancel a) (v.cancel b) := by
  have hcontains : w.tasks.live.contains a = v.tasks.live.contains b := rel_isSome (h.live a b hab)
  unfold World.cancel Tasks.cancel
  rw [← hcontains]
  split
  · have hmodified := h.modifyTask hab (f := fun t => { t with cancelled := true }) (g := fun t => { t with cancelled := true })
      fun _ _ ht => ⟨ht.phase, rfl⟩
    exact hmodified.enqueue hab
  · exact h

theorem Alike.cancelIf (h : Alike S O θ w v) {o o' : Option TaskId} (ho : Option.Rel (θ.on .task) o o') :
    Alike S O θ (w.cancelIf o) (v.cancelIf o') := by
  cases ho with
  | some hid => exact h.cancel hid
  | none => exact h

end LiveFiles.Engine
