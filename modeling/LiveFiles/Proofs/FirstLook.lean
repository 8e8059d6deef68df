/-
The first synchronization of a path. The first subscriber makes the entry and looks at the file, and reads it if it is there; what
it finds is what everybody is shown.
- `takePlace_first`: the first subscriber makes an entry of which nothing is known yet (`Entry.Opened`).
- **`fetches_stepRefresh`**: section by section the first reconciliation finds the file, with one look at it and one reading at
  most (`Fetching`, `Fetches`), and leaves an entry that says what has been found (`Entry.Fetched`).
- `stepJoining_counted`, `stepSettling_cases`, `register_tracked`: what calls to watch do beside it.
-/
import LiveFiles.Proofs.Listeners
import LiveFiles.Proofs.ReadYourWrites

namespace LiveFiles.Engine

variable {w : World} {a b : Activity} {p q : Path} {e : Entry} {r : Refresh} {l : Look} {f : Option StoredFile} {s n : Nat} {x : SubscriberId}
  {seat : Seat} {joined : SignalId} {other signal : Option SignalId}

/-! ## What is found -/

/-- what is known of a file when it has been looked at, and read if it is there -/
def Known.found : Option StoredFile → Known
  | none => .nothing
  | some g => ⟨some (Text.Utf8.decodeLossy g.bytes), g.modified, g.modified⟩

/-- what is shown of a path, under the spelling that is asked for -/
def Known.shown (y : Known) (q : Path) : Snapshot :=
  match y.contents with
  | some contents => .present q ⟨contents, y.modified, y.external⟩
  | none => .missing q

theorem snapshot_eq_shown (e : Entry) (q : Path) : e.snapshot q = e.known.shown q := rfl

/-! ## The first reconciliation -/

/-- How far the first reconciliation of a path has come: what it has taken out of the entry `e`, and how often the file `f` has
been looked at and read, `s` and `n` times before it. -/
inductive Fetching (p : Path) (f : Option StoredFile) (s n : Nat) (d : Disk) (e : Entry) : Refresh → Prop
  | queued (q : Path) (y : QueryId) (τ : Turn) (hq : q.key = p.key) (hy : e.pendingQuery = some y)
      (hx : e.pendingSignal.isSome) (hrun : e.runningSignal = none) (hs : d.callCount .stat p = s)
      (hn : d.callCount .read p = n) : Fetching p f s n d e (.queued q y τ)
  | looking (l : Look) (c : Call) (hq : l.path.key = p.key) (hy : e.pendingQuery = none) (hx : e.pendingSignal = none)
      (hrun : e.runningSignal = l.signal) (hsome : l.signal.isSome) (hhad : l.had = false)
      (hs : d.callCount .stat p = s + 1) (hn : d.callCount .read p = n) : Fetching p f s n d e (.looking l c)
  | reading (l : Look) (g : StoredFile) (c : Call) (hq : l.path.key = p.key) (hy : e.pendingQuery = none)
      (hx : e.pendingSignal = none) (hrun : e.runningSignal = l.signal) (hsome : l.signal.isSome) (hf : f = some g)
      (hs : d.callCount .stat p = s + 1) (hn : d.callCount .read p = n + 1) : Fetching p f s n d e (.reading l g.modified c)

/-- An entry that the first reconciliation has left, as it should be after the file `f` has been found. -/
structure Entry.Fetched (e : Entry) (f : Option StoredFile) : Prop where
  known : e.known = .found f
  query : e.pendingQuery = none
  pending : e.pendingSignal = none
  running : e.runningSignal = none
  revoked : e.revokedSignals = []

/-- what has been found leaves no signal to wait for -/
theorem Entry.Fetched.not_stores (h : e.Fetched f) (y : SignalId) : ¬ e.Stores y := by
  rintro (hy | hy | hy)
  · cases hy.symm.trans h.pending
  · cases hy.symm.trans h.running
  · rw [h.revoked] at hy
    cases hy

theorem callCount_congr (h : q.key = p.key) (d : Disk) (op : DiskOp) : d.callCount op q = d.callCount op p := by
  rw [Disk.callCount, Disk.callCount, h]

/-- what a reconciliation that ends with an observation leaves behind -/
theorem core_conclude (he : w.entry? l.path = some e) (o : Observation) :
    (w.conclude l o).1.core =
      ((w.core.setEntry l.path (Entry.commit { e with runningSignal := none } o).1).giveIf l.signal).giveBack l.turn := by
  unfold World.conclude
  rw [he]
  dsimp only
  split <;> simp

/-- The entry that an observation leaves, and the signal that is given by then. -/
theorem fetched_conclude {o : Observation} (he : w.entry? l.path = some e) (hknown : (Entry.commit e o).1.known = .found f)
    (hy : e.pendingQuery = none) (hx : e.pendingSignal = none) (hrev : e.revokedSignals = [])
    (hrun : e.runningSignal = l.signal) :
    (∃ news, (w.conclude l o).2 = .ended (.ok news)) ∧
      ∃ e', World.entry? (w.conclude l o).1 l.path = some e' ∧ e'.Fetched f ∧
        ∀ y, e.Stores y → (w.conclude l o).1.signals.isGiven y = true := by
  have hcore := core_conclude he o
  refine ⟨?_, (Entry.commit { e with runningSignal := none } o).1, ?_, ?_, ?_⟩
  · unfold World.conclude
    rw [he]
    exact ⟨_, rfl⟩
  · have hentries := congrArg Core.entries hcore
    have hget : (w.conclude l o).1.entries.get? l.path.key = some (Entry.commit { e with runningSignal := none } o).1 := by
      rw [show (w.conclude l o).1.entries = _ from hentries]
      cases l.signal <;> simp [Core.giveBack, Core.giveIf, Core.setEntry, Table.get?_insert]
    exact hget
  · cases o with
    | unchanged => exact ⟨hknown, hy, hx, rfl, hrev⟩
    | missing => exact ⟨hknown, hy, hx, rfl, hrev⟩
    | changed text date => exact ⟨hknown, hy, hx, rfl, hrev⟩
  · intro y hstores
    rcases hstores with h | h | h
    · cases h.symm.trans hx
    · have hgiven := congrArg Core.signals hcore
      rw [show (w.conclude l o).1.signals = _ from hgiven, hrun.symm.trans h]
      simp [Core.giveBack, Core.giveIf, Signals.isGiven_give]
    · rw [hrev] at h
      cases h

/-- What a section of the first reconciliation leads to: to the next of its phases, with the signals still stored in the
entry, or to its end. -/
inductive Fetches (w : World) (p : Path) (f : Option StoredFile) (s n : Nat) (e : Entry) (x : World × Section Refresh Refreshed) :
    Prop
  | onward (r' : Refresh) (e' : Entry) (hnext : x.2.next = some r') (he : World.entry? x.1 p = some e')
      (hknown : e'.known = .nothing) (hrev : e'.revokedSignals = []) (hreg : e'.registered = e.registered)
      (hF : Fetching p f s n x.1.disk e' r') (hkeep : ∀ y, e.Stores y → e'.Stores y)
  | ends (news : Bool) (e' : Entry) (hend : x.2 = .ended (.ok news)) (he : World.entry? x.1 p = some e') (hdone : e'.Fetched f)
      (hs : x.1.disk.callCount .stat p = s + 1) (hn : x.1.disk.callCount .read p = n + if f.isSome then 1 else 0)
      (hgiven : ∀ y, e.Stores y → x.1.signals.isGiven y = true)

theorem fetches_queued {y : QueryId} {τ : Turn} (hq : q.key = p.key) (hy : e.pendingQuery = some y)
    (hx : e.pendingSignal.isSome) (hrun : e.runningSignal = none) (hs : w.disk.callCount .stat p = s) (hn : w.disk.callCount .read p = n)
    (he : w.entry? p = some e) (hknown : e.known = .nothing) (hrev : e.revokedSignals = []) :
    Fetches w p f s n e (w.stepRefresh (.queued q y τ)) := by
  by_cases hτ : w.turns.holds τ = true
  · rw [stepRefresh_of_pending ((entry?_congr hq).trans he) hy hτ]
    generalize he' : ({ e with
      pendingQuery := none, pendingSignal := none, runningSignal := e.pendingSignal } : Entry) = e'
    generalize hl : (⟨q, τ, e.pendingSignal, e.contents.isSome, e.modified⟩ : Look) = l
    obtain ⟨c, hc⟩ := next_beginCall (α := Refreshed) (w.setEntry q e') .stat q (Refresh.looking l)
    have hget : World.entry? ((w.setEntry q e').beginCall (α := Refreshed) .stat q (Refresh.looking l)).1 p = some e' := by
      have hcore := congrArg Core.entries (core_beginCall (α := Refreshed) (w.setEntry q e') .stat q (Refresh.looking l))
      rw [World.entry?, ← hq, show World.entries _ = _ from hcore]
      simp [World.core, World.setEntry, Table.get?_insert]
    refine .onward _ e' hc hget ?_ ?_ ?_ ?_ ?_
    · rw [← he']
      exact hknown
    · rw [← he']
      exact hrev
    · rw [← he']
    · have hstat : ((w.setEntry q e').beginCall (α := Refreshed) .stat q (Refresh.looking l)).1.disk.callCount .stat p =
          s + 1 := by
        rw [disk_beginCall, ← callCount_congr hq, Disk.callCount_enter, callCount_congr hq]
        exact congrArg (· + 1) hs
      have hread : ((w.setEntry q e').beginCall (α := Refreshed) .stat q (Refresh.looking l)).1.disk.callCount .read p = n := by
        rw [disk_beginCall, Disk.callCount_enter_of_ne _ (by decide)]
        exact hn
      subst hl he'
      refine .looking _ c hq rfl rfl rfl hx ?_ hstat hread
      rw [show e.contents = none from congrArg Known.contents hknown]
      rfl
    · subst he'
      intro y' hstores
      rcases hstores with h | h | h
      · exact .inr (.inl h)
      · cases hrun.symm.trans h
      · exact .inr (.inr h)
  · rw [show w.stepRefresh (.queued q y τ) = (w, .wait (.queued q y τ)) from if_neg hτ]
    exact .onward _ e rfl he hknown hrev rfl (.queued q y τ hq hy hx hrun hs hn) fun _ h => h

theorem fetches_looking {c : Call} (hF : Fetching p f s n w.disk e (.looking l c)) (he : w.entry? p = some e)
    (hfile : w.disk.file? p = f) (hfails : Refresh.callFails w.disk (.looking l c) = false) (hknown : e.known = .nothing)
    (hrev : e.revokedSignals = []) : Fetches w p f s n e (w.stepRefresh (.looking l c)) := by
  obtain ⟨hq, hy, hx, hrun, hsome, hhad, hs, hn⟩ : l.path.key = p.key ∧ e.pendingQuery = none ∧ e.pendingSignal = none ∧
      e.runningSignal = l.signal ∧ l.signal.isSome ∧ l.had = false ∧ w.disk.callCount .stat p = s + 1 ∧ w.disk.callCount .read p = n := by
    cases hF with
    | looking l c hq hy hx hrun hsome hhad hs hn => exact ⟨hq, hy, hx, hrun, hsome, hhad, hs, hn⟩
  have he' : w.entry? l.path = some e := (entry?_congr hq).trans he
  cases c with
  | held g =>
    obtain ⟨c, hc⟩ := next_atGate (α := Refreshed) w g (Refresh.looking l)
    refine .onward _ e hc ?_ hknown hrev rfl (.looking l c hq hy hx hrun hsome hhad ?_ ?_) fun _ h => h
    · rw [← he]
      exact congrArg (fun c : Core => c.entries.get? p.key) (core_atGate (α := Refreshed) w g (Refresh.looking l))
    · rw [World.stepRefresh, disk_atGate, hs]
    · rw [World.stepRefresh, disk_atGate, hn]
  | due =>
    obtain ⟨st, hst⟩ : ∃ st, w.disk.stat l.path = .ok st := by
      cases hst : w.disk.stat l.path with
      | ok st => exact ⟨st, rfl⟩
      | error f => simp [Refresh.callFails, hst, Except.toOption] at hfails
    have hfile' : w.disk.file? l.path = f := (file?_congr hq _).trans hfile
    rw [show w.stepRefresh (.looking l .due) = (w.leaveDisk l.path).haveLooked l (w.disk.stat l.path) from rfl, hst]
    cases st with
    | none =>
      -- there is no file, and nothing was known of it
      have hnone : f = none := hfile'.symm.trans (Disk.file?_of_stat hst)
      rw [show (w.leaveDisk l.path).haveLooked l (.ok none) = (w.leaveDisk l.path).conclude l (.absent l.had) from rfl,
        hhad, show Observation.absent false = .unchanged from rfl]
      obtain ⟨⟨news, hnews⟩, e', hget, hdone, hgiven⟩ := fetched_conclude (w := w.leaveDisk l.path) (f := f)
        (o := .unchanged) he' (by rw [hnone]; exact hknown) hy hx hrev hrun
      refine .ends news e' hnews ((entry?_congr hq.symm).trans hget) hdone ?_ ?_ hgiven
      · rw [(disk_conclude _ _ _).1]
        exact hs
      · rw [(disk_conclude _ _ _).1, hnone]
        exact hn
    | some st =>
      obtain ⟨g, hg, hdate⟩ := Disk.stat_eq_some hst
      have hreads : (w.leaveDisk l.path).haveLooked l (.ok (some st)) =
          (w.leaveDisk l.path).beginCall .read l.path (.reading l st.modified) := by
        simp [World.haveLooked, hhad]
      rw [hreads, ← hdate]
      obtain ⟨c, hc⟩ := next_beginCall (α := Refreshed) (w.leaveDisk l.path) .read l.path (Refresh.reading l g.modified)
      refine .onward _ e hc ?_ hknown hrev rfl (.reading l g c hq hy hx hrun hsome (hfile'.symm.trans hg) ?_ ?_) fun _ h => h
      · rw [← he]
        exact congrArg (fun c : Core => c.entries.get? p.key)
          (core_beginCall (α := Refreshed) (w.leaveDisk l.path) .read l.path (Refresh.reading l g.modified))
      · rw [disk_beginCall, Disk.callCount_enter_of_ne _ (by decide)]
        exact hs
      · rw [disk_beginCall, ← callCount_congr hq, Disk.callCount_enter, callCount_congr hq]
        exact congrArg (· + 1) hn

theorem fetches_reading {g : StoredFile} {c : Call} (hF : Fetching p f s n w.disk e (.reading l g.modified c))
    (he : w.entry? p = some e) (hfile : w.disk.file? p = f)
    (hfails : Refresh.callFails w.disk (.reading l g.modified c) = false) (hf : f = some g) (hknown : e.known = .nothing)
    (hrev : e.revokedSignals = []) : Fetches w p f s n e (w.stepRefresh (.reading l g.modified c)) := by
  obtain ⟨hq, hy, hx, hrun, hsome, hs, hn⟩ : l.path.key = p.key ∧ e.pendingQuery = none ∧ e.pendingSignal = none ∧
      e.runningSignal = l.signal ∧ l.signal.isSome ∧ w.disk.callCount .stat p = s + 1 ∧ w.disk.callCount .read p = n + 1 := by
    generalize hdate : g.modified = date at hF
    cases hF with
    | reading l g c hq hy hx hrun hsome hf hs hn => exact ⟨hq, hy, hx, hrun, hsome, hs, hn⟩
  have he' : w.entry? l.path = some e := (entry?_congr hq).trans he
  cases c with
  | held g' =>
    obtain ⟨c, hc⟩ := next_atGate (α := Refreshed) w g' (Refresh.reading l g.modified)
    refine .onward _ e hc ?_ hknown hrev rfl (.reading l g c hq hy hx hrun hsome hf ?_ ?_) fun _ h => h
    · rw [← he]
      exact congrArg (fun c : Core => c.entries.get? p.key) (core_atGate (α := Refreshed) w g' (Refresh.reading l g.modified))
    · rw [World.stepRefresh, disk_atGate, hs]
    · rw [World.stepRefresh, disk_atGate, hn]
  | due =>
    obtain ⟨text, hrd⟩ : ∃ text, w.disk.read l.path = .ok text := by
      cases hrd : w.disk.read l.path with
      | ok text => exact ⟨text, rfl⟩
      | error f => simp [Refresh.callFails, hrd, Except.toOption] at hfails
    obtain ⟨g', hg', htext⟩ := Disk.read_eq_ok hrd
    have hsame : g' = g := Option.some.inj (hg'.symm.trans ((file?_congr hq _).trans (hfile.trans hf)))
    rw [show w.stepRefresh (.reading l g.modified .due) =
      (w.leaveDisk l.path).haveRead l g.modified (w.disk.read l.path) from rfl, hrd,
      show (w.leaveDisk l.path).haveRead l g.modified (.ok text) =
        (w.leaveDisk l.path).conclude l (.changed text g.modified) from rfl]
    obtain ⟨⟨news, hnews⟩, e', hget, hdone, hgiven⟩ := fetched_conclude (w := w.leaveDisk l.path) (f := f)
      (o := .changed text g.modified) he' (by rw [hf, ← htext, hsame]; rfl) hy hx hrev hrun
    refine .ends news e' hnews ((entry?_congr hq.symm).trans hget) hdone ?_ ?_ hgiven
    · rw [(disk_conclude _ _ _).1]
      exact hs
    · rw [(disk_conclude _ _ _).1, hf]
      exact hn

/-- **Where no call to the disk fails, the first reconciliation finds the file**: it looks at it once, and reads it once if it
is there. -/
theorem fetches_stepRefresh (hF : Fetching p f s n w.disk e r) (he : w.entry? p = some e) (hfile : w.disk.file? p = f)
    (hfails : r.callFails w.disk = false) (hknown : e.known = .nothing) (hrev : e.revokedSignals = []) :
    Fetches w p f s n e (w.stepRefresh r) := by
  cases hF with
  | queued q y τ hq hy hx hrun hs hn => exact fetches_queued hq hy hx hrun hs hn he hknown hrev
  | looking l c hq hy hx hrun hsome hhad hs hn =>
    exact fetches_looking (.looking l c hq hy hx hrun hsome hhad hs hn) he hfile hfails hknown hrev
  | reading l g c hq hy hx hrun hsome hf hs hn =>
    exact fetches_reading (.reading l g c hq hy hx hrun hsome hf hs hn) he hfile hfails hf hknown hrev

/-! ## Sections of calls to watch -/

/-- an entry that has just been made for the first subscriber -/
structure Entry.Opened (e : Entry) (y : QueryId) : Prop where
  known : e.known = .nothing
  query : e.pendingQuery = some y
  pending : e.pendingSignal.isSome
  running : e.runningSignal = none
  revoked : e.revokedSignals = []
  registered : ∀ x, e.registered.get? x = none
  count : e.count = 1

theorem entry?_setEntry (w : World) (p : Path) (e : Entry) : World.entry? (w.setEntry p e) p = some e := by
  simp [World.entry?, World.setEntry, Table.get?_insert]

/-- **The first subscriber makes the entry**, and goes on with the first reconciliation. -/
theorem takePlace_first (w : World) (seat : Seat) : ∃ e y τ,
    (w.takePlace seat { spelling := seat.path }).2 = .go (.synchronizing seat (.queued seat.path y τ)) ∧
      World.entry? (w.takePlace seat { spelling := seat.path }).1 seat.path = some e ∧ e.Opened y ∧
      (w.takePlace seat { spelling := seat.path }).1.disk = w.disk := by
  rcases takePlace_cases w seat { spelling := seat.path } with ⟨hpos, -⟩ | ⟨-, x, armed, signal, signals, v, -, -, rfl, htake⟩
  · cases hpos
  · refine ⟨?entry, w.nextQuery, _, congrArg Prod.snd htake, ?there, ?opened, congrArg (World.disk ·.1) htake⟩
    case there =>
      rw [htake]
      exact entry?_setEntry { w with watcher := x, signals, nextQuery := w.nextQuery + 1 } seat.path _
    case opened => exact ⟨rfl, rfl, rfl, rfl, rfl, fun _ => rfl, rfl⟩

/-- a call to watch at a path that is not tracked takes the first place, unless it waits for another call -/
theorem stepJoining_untracked (hno : w.entry? q = none) (x : SubscriberId) (joined : SignalId)
    (other : Option SignalId) :
    w.stepJoining q x joined other = (w, .wait (.joining q x joined other)) ∧ (other.any fun s => !w.signals.isGiven s) = true ∨
      w.stepJoining q x joined other = w.takePlace ⟨q, x, joined⟩ { spelling := q } := by
  unfold World.stepJoining
  by_cases hwait : (other.any fun s => !w.signals.isGiven s) = true
  · exact .inl ⟨if_pos hwait, hwait⟩
  · rw [if_neg hwait, hno]
    exact .inr rfl

/-- a call to watch that looks for a place takes one, or finds one that is taken for its subscriber -/
theorem stepJoining_next (hb : (w.stepJoining q x joined none).2.next = some b) : b = .settling ⟨q, x, joined⟩ none ∨
    (∃ r, b = .synchronizing ⟨q, x, joined⟩ r) ∨ ∃ e y, w.entry? q = some e ∧ e.joining.get? x = some y := by
  unfold World.stepJoining at hb
  rw [Option.any_none, if_neg Bool.false_ne_true] at hb
  dsimp only at hb
  split at hb
  · cases hb
  · split at hb
    · next y hy =>
      cases he : w.entry? q with
      | none =>
        rw [he] at hy
        cases hy
      | some e =>
        rw [he] at hy
        exact .inr (.inr ⟨e, y, rfl, hy⟩)
    · unfold World.takePlace at hb
      dsimp only at hb
      split at hb <;> cases hb
      · exact .inl rfl
      · exact .inr (.inl ⟨_, rfl⟩)

/-- a call to watch that has a seat keeps it until it ends -/
theorem seat?_of_next (ha : a ≠ .starting .shutDown) (hc : a.closes = false) (hb : (w.step a).2.next = some b)
    (hs : a.seat? = some seat) : b.seat? = some seat := by
  have hsame : (w.step a).2.next.bind Activity.seat? = a.seat? → b.seat? = some seat := by
    intro h
    rw [hb, hs] at h
    exact h
  have hdealing := dealing_step w a
  generalize w.commits? a = c at hdealing
  cases hdealing with
  | still _ h => exact hsame h
  | unseen _ _ _ h => exact hsame h
  | commit _ _ _ _ _ h => exact hsame h
  | take _ _ _ ha' => rw [ha'] at hs; cases hs
  | register _ _ _ _ _ _ hn => cases hn.symm.trans hb
  | lost _ _ _ _ hn => cases hn.symm.trans hb
  | giveUp _ _ ha' _ hv =>
    obtain ⟨r, rfl⟩ := ha'
    rcases hv with ⟨-, -, e, hn⟩ | ⟨-, hn⟩
    · cases hn.symm.trans hb
      exact hs
    · cases hn.symm.trans hb
  | release _ _ ha' => rw [ha'] at hs; cases hs
  | unwatch _ _ _ ha' => rw [ha'] at hs; cases hs
  | tearDown _ _ _ _ _ hn => cases hn.symm.trans hb
  | shutDown ha' => exact absurd ha' ha
  | forget ha' => cases hc.symm.trans ha'

/-- whoever looks for a place has begun to in this section, or has looked for it before -/
theorem Watching.rejoins {y : SubscriberId} (h : Watching q y a) (hb : (w.step a).2.next = some (.joining q x joined other)) :
    y = x ∧ ((a = .starting (.watch q x) ∧ other = none) ∨ ∃ joined' other', a = .joining q x joined' other') := by
  have hx : y = x := by
    cases h.next hb
    rfl
  subst hx
  refine ⟨rfl, ?_⟩
  have hseat : ∀ seat, a.seat? = some seat → a ≠ .starting .shutDown → a.closes = false → False := fun seat hs ha hc => by
    cases seat?_of_next ha hc hb hs
  cases h with
  | starting =>
    simp only [World.step, World.begin, World.requestWatch] at hb
    split at hb <;> cases hb
    exact .inl ⟨rfl, rfl⟩
  | joining joined' other' => exact .inr ⟨joined', other', rfl⟩
  | synchronizing joined' r hr => exact (hseat _ rfl (by rintro ⟨⟩) rfl).elim
  | settling joined' signal => exact (hseat _ rfl (by rintro ⟨⟩) rfl).elim
  | failing turn joined' z => exact (hseat _ rfl (by rintro ⟨⟩) rfl).elim

/-- a call to watch that finds somebody counted there takes a place without making anything happen, unless its subscriber is
registered already -/
theorem stepJoining_counted (he : w.entry? q = some e) (hpos : 0 < e.count) (x : SubscriberId) (joined : SignalId)
    (other : Option SignalId) :
    (w.stepJoining q x joined other).1.disk = w.disk ∧ (w.stepJoining q x joined other).1.signals = w.signals ∧
      (∃ e', World.entry? (w.stepJoining q x joined other).1 q = some e' ∧ e'.bare = e.bare ∧
        e'.registered = e.registered ∧ 0 < e'.count) ∧
      ((∃ other', (w.stepJoining q x joined other).2.next = some (.joining q x joined other')) ∨
        (w.stepJoining q x joined other).2.next = some (.settling ⟨q, x, joined⟩ none) ∨
        (w.stepJoining q x joined other).2 = .ended (.ok (.snapshot (e.snapshot q))) ∧ e.registered.contains x = true) := by
  unfold World.stepJoining
  split
  · exact ⟨rfl, rfl, ⟨e, he, rfl, rfl, hpos⟩, .inl ⟨other, rfl⟩⟩
  · rw [he, Option.getD_some]
    dsimp only
    split
    · rename_i hreg
      exact ⟨rfl, rfl, ⟨e, he, rfl, rfl, hpos⟩, .inr (.inr ⟨rfl, hreg⟩)⟩
    · split
      · rename_i y hy
        exact ⟨rfl, rfl, ⟨e, entry?_setEntry w q e, rfl, rfl, hpos⟩, .inl ⟨some y, rfl⟩⟩
      · rcases takePlace_cases w ⟨q, x, joined⟩ e with ⟨-, htake⟩ | ⟨hzero, -⟩
        · rw [htake]
          exact ⟨rfl, rfl, ⟨_, entry?_setEntry w q _, rfl, rfl, Nat.succ_pos _⟩, .inr (.inl rfl)⟩
        · exact absurd hzero hpos.ne'

/-- a call to watch that settles waits on, waits for another signal, or registers its subscriber -/
theorem stepSettling_cases (w : World) (seat : Seat) (signal : Option SignalId) :
    w.stepSettling seat signal = (w, .wait (.settling seat signal)) ∨
      (∃ e y, w.entry? seat.path = some e ∧ e.unsettled w.signals = some y ∧
        w.stepSettling seat signal = (w, .go (.settling seat (some y)))) ∨
      (∀ e, w.entry? seat.path = some e → e.unsettled w.signals = none) ∧ w.stepSettling seat signal = w.register seat := by
  unfold World.stepSettling
  split
  · exact .inl rfl
  · cases he : w.entry? seat.path with
    | none =>
      refine .inr (.inr ⟨?_, rfl⟩)
      intro e hsome
      cases hsome
    | some e =>
      rw [Option.bind_some]
      cases hy : e.unsettled w.signals with
      | none =>
        refine .inr (.inr ⟨?_, rfl⟩)
        rintro _ ⟨⟩
        exact hy
      | some y => exact .inr (.inl ⟨e, y, rfl, hy, rfl⟩)

/-- a subscriber that is registered is shown the entry, which the protocol sees no change of -/
theorem register_tracked (he : w.entry? seat.path = some e) :
    (w.register seat).2 = .ended (.ok (.snapshot (e.snapshot seat.path))) ∧ (w.register seat).1.disk = w.disk ∧
      ∃ e', World.entry? (w.register seat).1 seat.path = some e' ∧ e'.bare = e.bare ∧
        e'.registered.contains seat.subscriber = true := by
  refine ⟨?_, ?_, ?_⟩
  · simp only [World.register, he]
    rfl
  · obtain ⟨e', heq, -, -⟩ := register_eq he
    rw [heq, disk_endSeat]
    have hlisten : (w.listen seat.path seat.subscriber).2.disk = w.disk := by
      unfold World.listen
      split <;> rfl
    exact ((aside_cancelIf _ _).disk).trans hlisten
  · obtain ⟨e', heq, hreg, hbare⟩ := register_eq he
    rw [heq]
    simp only [World.entry?, World.endSeat, World.give, World.wake, World.modifyEntry, World.setEntry, Table.get?_modify,
      Table.get?_insert, if_true, Option.map_some]
    have hcontains : e'.registered.contains seat.subscriber = true := by
      rw [hreg, Table.contains, Table.get?_insert, if_pos rfl]
      rfl
    split
    · exact ⟨_, rfl, hbare, hcontains⟩
    · exact ⟨_, rfl, hbare, hcontains⟩

end LiveFiles.Engine
