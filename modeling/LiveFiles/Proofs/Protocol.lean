/-
The protocol by which tasks share a path. Of the state of the engine it sees the `Core`: entries, turns, signals and the
number of the next reconciliation; of a task it sees the `Stake`: its errand at a path, the signal that it
gives when its call to watch ends, and whether it shuts the engine down. `Effect E` lists what one task can do to the
core at once, and to its own stake by that; a section of a task is a chain of effects (`Effects`, proved for the sections
in `LiveFiles.Proofs.Step`). What an effect reports of itself is a `Mark`, and `E` says which marks there may be.

Invariants of the engine are proved here for one effect and carried to chains by `Effects.induction`. The first one is
`Sound`: the turns are accounted for, and each errand is at the path of its turn (`sound_effect`).
-/
import LiveFiles.Engine.Step
import LiveFiles.Proofs.Turns

namespace LiveFiles.Engine

/-! ## What the tasks share -/

/-- what the operations at paths contend for -/
structure Core where
  entries : Table Path.Key Entry
  turns : Turns
  signals : Signals
  nextQuery : QueryId

def World.core (w : World) : Core := ⟨w.entries, w.turns, w.signals, w.nextQuery⟩

/-- the entry without what is known of its subscribers and the watcher -/
def Entry.bare (e : Entry) : Entry :=
  { e with spelling := ⟨""⟩, count := 0, registered := .empty, joining := .empty, armed := false }

/-- what the protocol sees of entries that are alike otherwise -/
theorem Entry.bare_eq {e e' : Entry} (h : e.bare = e'.bare) :
    e.contents = e'.contents ∧ e.modified = e'.modified ∧ e.external = e'.external ∧ e.pendingQuery = e'.pendingQuery ∧
      e.pendingSignal = e'.pendingSignal ∧ e.runningSignal = e'.runningSignal ∧ e.revokedSignals = e'.revokedSignals := by
  simpa [Entry.bare] using h

/-- what an entry says of the file -/
structure Known where
  contents : Option String
  modified : Instant
  external : Instant

def Entry.known (e : Entry) : Known := ⟨e.contents, e.modified, e.external⟩

/-- what is said of a file that is not there -/
def Known.nothing : Known := ⟨none, .epoch, .epoch⟩

theorem Entry.known_of_bare {e e' : Entry} (h : e.bare = e'.bare) : e.known = e'.known := by
  obtain ⟨hcont, hmod, hext, -⟩ := Entry.bare_eq h
  rw [known, known, hcont, hmod, hext]

namespace Core

def setEntry (c : Core) (p : Path) (e : Entry) : Core := { c with entries := c.entries.insert p.key e }

def enlist (c : Core) (p : Path) : Core := { c with turns := (c.turns.enlist p.key).2 }

def giveBack (c : Core) (τ : Turn) : Core := { c with turns := (c.turns.giveBack τ).1 }

def giveIf (c : Core) : Option SignalId → Core
  | some s => { c with signals := c.signals.give s }
  | none => c

/-- forget revoked signals that have been given -/
def forget (c : Core) (k : Path.Key) : Core :=
  { c with entries := c.entries.modify k fun e =>
      { e with revokedSignals := e.revokedSignals.filter fun x => !c.signals.isGiven x } }

end Core

/-! ## What a task has at stake -/

/-- what a task is about at a path -/
inductive Errand where
  | idle
  /-- a reconciliation in line for the lock -/
  | query (path : Path) (query : QueryId) (turn : Turn)
  /-- a reconciliation that has the lock, with the date of the version that it reads -/
  | look (look : Look) (date : Option Instant)
  /-- a write, in line for the lock or having it -/
  | save (job : SaveJob) (entered : Bool)
  /-- waiting until nobody has a turn -/
  | drain (path : Path) (turn : Turn)
  /-- a call to watch that waits for a signal -/
  | settle (path : Path) (signal : SignalId)

structure Stake where
  errand : Errand := .idle
  /-- given when a call to watch ends -/
  joined : Option SignalId := none
  /-- the task shuts the engine down -/
  closing : Bool := false

def Errand.turn? : Errand → Option Turn
  | .query _ _ τ => some τ
  | .look l _ => some l.turn
  | .save job _ => some job.turn
  | .drain _ τ => some τ
  | .idle | .settle .. => none

/-- the path of an errand -/
def Errand.path? : Errand → Option Path
  | .query p _ _ => some p
  | .look l _ => some l.path
  | .save job _ => some job.path
  | .drain p _ => some p
  | .settle p _ => some p
  | .idle => none

/-- an errand is at the path of its turn -/
def Errand.Keyed (x : Errand) : Prop := ∀ τ ∈ x.turn?, ∀ p ∈ x.path?, τ.key = p.key

def Refresh.errand : Refresh → Errand
  | .queued p q τ => .query p q τ
  | .looking look _ => .look look none
  | .reading look m _ => .look look (some m)
  | .lookingAgain look _ _ => .look look none

def Save.errand : Save → Errand
  | .queued job => .save job false
  | .writing job _ => .save job true
  | .looking job _ => .save job true

def drainErrand (p : Path) : Option Turn → Errand
  | some τ => .drain p τ
  | none => .idle

def settleErrand (p : Path) : Option SignalId → Errand
  | some s => .settle p s
  | none => .idle

def Leaving.joined : Leaving → Option SignalId
  | .failed seat _ => some seat.joined
  | .unwatched | .abandoned => none

/-- what a task has at stake between two sections -/
def Activity.stake : Activity → Stake
  | .refreshing r => { errand := r.errand }
  | .saving s => { errand := s.errand }
  | .joining _ _ joined _ => { joined := some joined }
  | .synchronizing seat r => { errand := r.errand, joined := some seat.joined }
  | .settling seat signal => { errand := settleErrand seat.path signal, joined := some seat.joined }
  | .tearingDown p turn l => { errand := drainErrand p turn, joined := l.joined }
  | .draining p turn _ => { errand := drainErrand p turn, closing := true }
  | .closing _ => { closing := true }
  | .starting .shutDown => { closing := true }
  | .starting _ | .awaitingQuiet | .diskStat .. | .diskRead .. | .diskWrite .. | .listening .. | .pumping _ => {}

/-! ## What a task can do at once -/

/-- what a section reports of itself -/
inductive Mark where
  /-- a reconciliation has ended with an observation of the disk -/
  | observed (key : Path.Key) (o : Observation)
  /-- a write has ended with its text in the entry -/
  | committed (key : Path.Key) (text : String) (modified : Instant)
  /-- a reconciliation has found the file with a date -/
  | dated (modified : Instant)
  /-- an operation with a signal to give has failed or been abandoned -/
  | cutShort (key : Path.Key)
  /-- the reconciliation that is pending has been abandoned -/
  | orphaned (key : Path.Key)
  /-- an entry has been made -/
  | created (key : Path.Key)
  /-- a subscriber has been registered -/
  | registered (key : Path.Key)
  | shutsDown

/-- An entry `e` of which a reconciliation has been requested becomes `e'`: it waits for the signal that it has, or for a
new one. -/
structure Asked (c : Core) (e e' : Entry) (signal : SignalId) (signals : Signals) : Prop where
  entry : e'.bare = { e.bare with pendingQuery := some c.nextQuery, pendingSignal := some signal }
  registered : ∀ id, e'.registered.contains id = true → e.registered.contains id = true
  signal : (e.pendingQuery.isSome ∧ e.pendingSignal = some signal ∧ signals = c.signals) ∨
    ((e.pendingQuery = none ∨ e.pendingSignal = none) ∧ signal = c.signals.next ∧ signals = c.signals.fresh.2)

theorem Asked.contents {c : Core} {e e' : Entry} {signal : SignalId} {signals : Signals} (h : Asked c e e' signal signals) :
    e'.contents = e.contents ∧ e'.modified = e.modified ∧ e'.runningSignal = e.runningSignal ∧
      e'.revokedSignals = e.revokedSignals := by
  obtain ⟨hcont, hmod, -, -, -, hrun, hrev⟩ :=
    Entry.bare_eq (e := { e with pendingQuery := some c.nextQuery, pendingSignal := some signal }) (h.entry.symm.trans rfl)
  exact ⟨hcont.symm, hmod.symm, hrun.symm, hrev.symm⟩

theorem Asked.known {c : Core} {e e' : Entry} {signal : SignalId} {signals : Signals} (h : Asked c e e' signal signals) :
    e'.known = e.known := by
  have hb : e'.bare = Entry.bare { e with pendingQuery := some c.nextQuery, pendingSignal := some signal } :=
    h.entry.trans rfl
  exact (Entry.known_of_bare hb).trans rfl

theorem Asked.pending {c : Core} {e e' : Entry} {signal : SignalId} {signals : Signals} (h : Asked c e e' signal signals) :
    e'.pendingQuery = some c.nextQuery ∧ e'.pendingSignal = some signal := by
  obtain ⟨-, -, -, hq, hs, -⟩ := Entry.bare_eq (e := { e with pendingQuery := some c.nextQuery, pendingSignal := some signal })
    (h.entry.symm.trans rfl)
  exact ⟨hq.symm, hs.symm⟩

variable (E : Mark → Prop)

/-- what a task with a stake can do at once to the core and to its stake -/
inductive Effect : Core → Stake → Core → Stake → Prop
  /-- subscribers come and go, and the watcher is armed and disarmed -/
  | places {c s} (t : Table Path.Key Entry) (hb : ∀ k, (t.get? k).map Entry.bare = (c.entries.get? k).map Entry.bare)
      (hr : ∀ k e e', c.entries.get? k = some e → t.get? k = some e' →
        ∀ id, e'.registered.contains id = true → e.registered.contains id = true ∨ E (.registered k)) :
      Effect c s { c with entries := t } s
  /-- an entry is dropped at a path where nobody has a turn -/
  | vacate {c s} (k : Path.Key) (h : c.turns.isIdle k = true) : Effect c s { c with entries := c.entries.erase k } s
  | clear {c s} (h : s.closing = true) : Effect c s { c with entries := .empty } s
  | shutDown {c s} (h : E .shutsDown) : Effect c s c { s with closing := true }
  | join {c s} (h : s.joined = none) :
      Effect c s { c with signals := c.signals.fresh.2 } { s with joined := some c.signals.next }
  | unjoin {c s j} (h : s.joined = some j) : Effect c s (c.giveIf (some j)) { s with joined := none }
  | ask {c s} (p : Path) (e e' : Entry) (signal : SignalId) (signals : Signals) (hs : s.errand = .idle)
      (he : c.entries.get? p.key = some e ∨ c.entries.get? p.key = none ∧ e = { spelling := p } ∧ E (.created p.key))
      (ha : Asked c e e' signal signals) :
      Effect c s ({ c with signals, nextQuery := c.nextQuery + 1 }.setEntry p e' |>.enlist p)
        { s with errand := .query p c.nextQuery (c.turns.enlist p.key).1 }
  /-- a reconciliation leaves the line -/
  | withdraw {c s p q τ} (hs : s.errand = .query p q τ)
      (h : (∃ e, c.entries.get? p.key = some e ∧ e.pendingQuery = some q) → E (.orphaned p.key)) :
      Effect c s (c.giveBack τ) { s with errand := .idle }
  | take {c s p q τ e} (hs : s.errand = .query p q τ) (hτ : c.turns.holds τ = true) (he : c.entries.get? p.key = some e)
      (hq : e.pendingQuery = some q) :
      Effect c s
        (c.setEntry p { e with pendingQuery := none, pendingSignal := none, runningSignal := e.pendingSignal })
        { s with errand := .look ⟨p, τ, e.pendingSignal, e.contents.isSome, e.modified⟩ none }
  | date {c s look d d'} (hs : s.errand = .look look d) (h : ∀ m, d' = some m → d = some m ∨ E (.dated m)) :
      Effect c s c { s with errand := .look look d' }
  | conclude {c s look d e} (o : Observation) (hs : s.errand = .look look d) (he : c.entries.get? look.path.key = some e)
      (h : E (.observed look.path.key o)) :
      Effect c s
        (((c.setEntry look.path (Entry.commit { e with runningSignal := none } o).1).giveIf look.signal).giveBack look.turn)
        { s with errand := .idle }
  /-- a reconciliation that has the lock ends without an observation -/
  | endLook {c s look d} (hs : s.errand = .look look d)
      (h : (c.entries.get? look.path.key).isSome → E (.cutShort look.path.key)) :
      Effect c s ((c.giveIf look.signal).giveBack look.turn) { s with errand := .idle }
  /-- a write is requested at a tracked path; it revokes the reconciliation that is pending -/
  | revoke {c s} (p : Path) (bytes : ByteArray) (e : Entry) (hs : s.errand = .idle)
      (he : c.entries.get? p.key = some e) :
      Effect c s ((c.setEntry p (World.revoke e).2.2).enlist p)
        { s with errand := .save ⟨p, bytes, (c.turns.enlist p.key).1, (World.revoke e).1, (World.revoke e).2.1⟩ false }
  | save {c s} (p : Path) (bytes : ByteArray) (hs : s.errand = .idle) :
      Effect c s (c.enlist p) { s with errand := .save ⟨p, bytes, (c.turns.enlist p.key).1, false, none⟩ false }
  | enter {c s job} (hs : s.errand = .save job false) (hτ : c.turns.holds job.turn = true) :
      Effect c s c { s with errand := .save job true }
  | commit {c s job e} (m : Instant) (hs : s.errand = .save job true) (he : c.entries.get? job.path.key = some e)
      (h : E (.committed job.path.key (Text.Utf8.decodeLossy job.bytes) m)) :
      Effect c s
        (((c.setEntry job.path { e with contents := some (Text.Utf8.decodeLossy job.bytes), modified := m }).giveIf
          job.waiters).giveBack job.turn)
        { s with errand := .idle }
  /-- a write ends without a change of the entry -/
  | endSave {c s job b} (hs : s.errand = .save job b)
      (h : (c.entries.get? job.path.key).isSome → job.waiters.isSome → E (.cutShort job.path.key)) :
      Effect c s ((c.giveIf job.waiters).giveBack job.turn) { s with errand := .idle }
  /-- revoked signals that have been given are forgotten -/
  | forget {c s} (k : Path.Key) : Effect c s (c.forget k) s
  | drain {c s} (p : Path) (hs : s.errand = .idle) :
      Effect c s (c.enlist p) { s with errand := .drain p (c.turns.enlist p.key).1 }
  | undrain {c s p τ} (hs : s.errand = .drain p τ) : Effect c s (c.giveBack τ) { s with errand := .idle }
  | settle {c s} (p : Path) (e : Entry) (x : SignalId) (hs : s.errand.turn? = none) (he : c.entries.get? p.key = some e)
      (hx : e.unsettled c.signals = some x) : Effect c s c { s with errand := .settle p x }
  /-- a task that has no turn stands back -/
  | rest {c s} (hs : s.errand.turn? = none) : Effect c s c { s with errand := .idle }
  | quit {c s} (hs : s.errand.turn? = none) : Effect c s c {}

/-- effects of one task, one after the other -/
inductive Effects : Core → Stake → Core → Stake → Prop
  | refl (c s) : Effects c s c s
  | tail {c s c' s' c'' s''} : Effects c s c' s' → Effect E c' s' c'' s'' → Effects c s c'' s''

variable {E} {c c' c'' : Core} {s s' s'' : Stake}

theorem Effects.single (h : Effect E c s c' s') : Effects E c s c' s' := .tail (.refl c s) h

theorem Effects.trans (h : Effects E c s c' s') (h' : Effects E c' s' c'' s'') : Effects E c s c'' s'' := by
  induction h' with
  | refl => exact h
  | tail _ he ih => exact .tail ih he

/-- what a single effect keeps, whichever task has it, a chain keeps -/
theorem Effects.induction {J : Core → (TaskId → Stake) → Prop}
    (step : ∀ c st i c' s', J c st → Effect E c (st i) c' s' → J c' (Function.update st i s'))
    {st : TaskId → Stake} {i : TaskId} (hJ : J c st) (h : Effects E c (st i) c' s') : J c' (Function.update st i s') := by
  suffices ∀ s, Effects E c s c' s' → s = st i → J c' (Function.update st i s') from this _ h rfl
  clear h
  intro s h
  induction h with
  | refl =>
    rintro rfl
    rwa [Function.update_eq_self]
  | tail _ he ih =>
    intro e
    have := step _ _ i _ _ (ih e) (by rwa [Function.update_self])
    rwa [Function.update_idem] at this

/-! ## Turns -/

@[simp] theorem Core.turns_giveIf (c : Core) (x : Option SignalId) : (c.giveIf x).turns = c.turns := by cases x <;> rfl

/-- an effect leaves the turns alone, takes one more turn, or gives one back -/
theorem Effect.turns (h : Effect E c s c' s') :
    (c'.turns = c.turns ∧ s'.errand.turn? = s.errand.turn?) ∨
    (∃ p, s.errand.turn? = none ∧ c'.turns = (c.turns.enlist p).2 ∧ s'.errand.turn? = some (c.turns.enlist p).1) ∨
    (∃ τ, s.errand.turn? = some τ ∧ c'.turns = (c.turns.giveBack τ).1 ∧ s'.errand.turn? = none) := by
  cases h with
  | ask p _ _ _ _ hs => exact .inr (.inl ⟨p.key, by rw [hs]; rfl, rfl, rfl⟩)
  | revoke p _ _ hs => exact .inr (.inl ⟨p.key, by rw [hs]; rfl, rfl, rfl⟩)
  | save p _ hs => exact .inr (.inl ⟨p.key, by rw [hs]; rfl, rfl, rfl⟩)
  | drain p hs => exact .inr (.inl ⟨p.key, by rw [hs]; rfl, rfl, rfl⟩)
  | withdraw hs => exact .inr (.inr ⟨_, by rw [hs]; rfl, rfl, rfl⟩)
  | conclude _ hs => exact .inr (.inr ⟨_, by rw [hs]; rfl, by simp [Core.giveBack, Core.setEntry], rfl⟩)
  | endLook hs => exact .inr (.inr ⟨_, by rw [hs]; rfl, by simp [Core.giveBack], rfl⟩)
  | commit _ hs => exact .inr (.inr ⟨_, by rw [hs]; rfl, by simp [Core.giveBack, Core.setEntry], rfl⟩)
  | endSave hs => exact .inr (.inr ⟨_, by rw [hs]; rfl, by simp [Core.giveBack], rfl⟩)
  | undrain hs => exact .inr (.inr ⟨_, by rw [hs]; rfl, rfl, rfl⟩)
  | take hs => exact .inl ⟨rfl, by rw [hs]; rfl⟩
  | date hs => exact .inl ⟨rfl, by rw [hs]; rfl⟩
  | enter hs => exact .inl ⟨rfl, by rw [hs]; rfl⟩
  | settle _ _ _ hs => exact .inl ⟨rfl, hs.symm⟩
  | rest hs => exact .inl ⟨rfl, hs.symm⟩
  | quit hs => exact .inl ⟨rfl, hs.symm⟩
  | _ => exact .inl ⟨rfl, rfl⟩

theorem Effect.keyed (h : Effect E c s c' s') (hk : s.errand.Keyed) : s'.errand.Keyed := by
  have hτ : ∀ p : Path, ((c.turns.enlist p.key).1).key = p.key := fun p => Turns.enlist_key _ _
  cases h with
  | ask p => simpa [Errand.Keyed, Errand.turn?, Errand.path?] using hτ p
  | revoke p => simpa [Errand.Keyed, Errand.turn?, Errand.path?] using hτ p
  | save p => simpa [Errand.Keyed, Errand.turn?, Errand.path?] using hτ p
  | drain p => simpa [Errand.Keyed, Errand.turn?, Errand.path?] using hτ p
  | take hs => rw [hs] at hk; exact hk
  | date hs => rw [hs] at hk; exact hk
  | enter hs => rw [hs] at hk; exact hk
  | _ => first | exact hk | simp [Errand.Keyed, Errand.turn?, Errand.path?]

/-- the turns that tasks have -/
def held (st : TaskId → Stake) : TaskId → Option Turn := fun i => (st i).errand.turn?

/-- The turns are accounted for, and each errand is at the path of its turn. -/
structure Sound (c : Core) (st : TaskId → Stake) : Prop where
  turns : c.turns.Sound (held st)
  keyed : ∀ i, (st i).errand.Keyed

theorem held_update (st : TaskId → Stake) (i : TaskId) (s : Stake) :
    held (Function.update st i s) = Function.update (held st) i s.errand.turn? := by
  funext j
  by_cases h : j = i
  · subst h; simp [held]
  · simp [held, h]

theorem sound_effect {st : TaskId → Stake} {i : TaskId} (hs : Sound c st) (h : Effect E c (st i) c' s') :
    Sound c' (Function.update st i s') where
  turns := by
    rw [held_update]
    rcases h.turns with ⟨e, e'⟩ | ⟨p, hi, e, e'⟩ | ⟨τ, hi, e, e'⟩
    · rw [e, e', show (st i).errand.turn? = held st i from rfl, Function.update_eq_self]
      exact hs.turns
    · rw [e, e']
      exact hs.turns.enlist hi p
    · rw [e, e']
      exact hs.turns.giveBack hi
  keyed j := by
    by_cases hj : j = i
    · subst hj
      rw [Function.update_self]
      exact h.keyed (hs.keyed j)
    · rw [Function.update_of_ne hj]
      exact hs.keyed j

theorem sound_effects {st : TaskId → Stake} {i : TaskId} (hs : Sound c st) (h : Effects E c (st i) c' s') :
    Sound c' (Function.update st i s') := h.induction (fun _ _ _ _ _ => sound_effect) hs

/-- nobody has a turn at an idle path -/
theorem Sound.not_idle {st : TaskId → Stake} (h : Sound c st) {i : TaskId} {τ : Turn} (hi : (st i).errand.turn? = some τ)
    {p : Path} (hp : (st i).errand.path? = some p) : c.turns.isIdle p.key = false := by
  rw [Bool.eq_false_iff]
  intro hidle
  exact h.turns.isIdle_iff.1 hidle i τ hi (h.keyed i τ hi p hp)

end LiveFiles.Engine
