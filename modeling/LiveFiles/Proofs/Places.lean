/-
Who takes places and who gives them back. A task may account for a place, because its call to watch has it or because it
gives it back (`Activity.place?`); it may be about to drop an entry (`Activity.tears?`), or shut the engine down
(`Activity.closes`).
- **`turnover_step`**: what a section of any task does to places (`Shift`), which tasks it starts (`Starts`), and that it
  shuts the engine down only if it says so. All sections leave places alone but those of a call to watch that takes a
  place or turns it into a registration, of whoever gives a place back or drops the entry, and of shutting down.
- `steady_abandon`: a cancelled task leaves places alone in any case; `Leaves` says which task takes over.
- `shift_serve`, `unmoved_of_no_section` and `phase?_newcomer` say the same of a move.
An operation at a path is unfinished as long as some task carries it out (`Activity.operation?`, `World.isUnused`).
-/
import LiveFiles.Proofs.Steady

namespace LiveFiles.Engine

/-- the path at which a task accounts for a place: its call to watch has it, or it gives it back -/
def Activity.place? : Activity → Option Path.Key
  | .synchronizing seat _ | .settling seat _ => some seat.path.key
  | .starting (.release p) => some p.key
  | _ => none

/-- the path of which a task is about to drop the entry -/
def Activity.tears? : Activity → Option Path.Key
  | .tearingDown p _ _ => some p.key
  | _ => none

/-- the task is shutting the engine down -/
def Activity.closes : Activity → Bool
  | .closing _ | .draining .. => true
  | _ => false

/-! ## Operations -/

/-- the path at which a request starts an operation -/
def Request.path? : Request → Option Path
  | .watch p _ | .unwatch p _ | .write p _ | .reconcile p | .release p => some p
  | .waitIdle | .shutDown | .diskStat _ | .diskRead _ | .diskWrite .. => none

def Refresh.path : Refresh → Path
  | .queued p _ _ => p
  | .looking l _ | .reading l _ _ | .lookingAgain l _ _ => l.path

/-- the path at which a task carries out an operation -/
def Activity.operation? : Activity → Option Path
  | .starting r => r.path?
  | .refreshing r => some r.path
  | .saving s => some s.job.path
  | .joining p .. => some p
  | .synchronizing _ r => some r.path
  | .settling seat _ => some seat.path
  | .tearingDown p .. | .draining p .. => some p
  | .awaitingQuiet | .closing _ | .diskStat .. | .diskRead .. | .diskWrite .. | .listening .. | .pumping _ => none

/-- no operation at the path is unfinished -/
def World.isUnused (w : World) (p : Path) : Bool :=
  w.tasks.live.values.all fun t => t.phase.activity.operation?.all fun q => q.key ≠ p.key

/-- what holds of all tasks that there are -/
theorem forall_live_iff {w : World} {P : Phase → Prop} :
    (∀ t ∈ w.tasks.live.values, P t.phase) ↔ ∀ id ph, w.tasks.phase? id = some ph → P ph := by
  constructor
  · intro h id ph hph
    obtain ⟨t, ht, rfl⟩ := Option.map_eq_some_iff.1 hph
    exact h t (List.mem_map.2 ⟨(id, t), Table.get?_eq_some_iff.1 ht, rfl⟩)
  · intro h t ht
    obtain ⟨⟨id, t⟩, hrow, rfl⟩ := List.mem_map.1 ht
    exact h id t.phase (by rw [Tasks.phase?, Table.get?_eq_some_iff.2 hrow]; rfl)

/-- what holds of all rows of the table of tasks holds of all tasks -/
theorem forall_phase_of_rows {w : World} {P : TaskId → Activity → Prop}
    (h : ∀ r ∈ w.tasks.live.rows, P r.1 r.2.phase.activity) {i : TaskId} {ph : Phase} (hph : w.tasks.phase? i = some ph) :
    P i ph.activity := by
  obtain ⟨t, ht, rfl⟩ := Option.map_eq_some_iff.1 hph
  exact h (i, t) (Table.get?_eq_some_iff.1 ht)

theorem isUnused_iff {w : World} {p : Path} : w.isUnused p = true ↔
    ∀ id ph q, w.tasks.phase? id = some ph → ph.activity.operation? = some q → q.key ≠ p.key := by
  simp only [World.isUnused, List.all_eq_true, Option.all_eq_true, decide_eq_true_eq]
  exact (forall_live_iff (P := fun ph => ∀ q, ph.activity.operation? = some q → q.key ≠ p.key)).trans
    ⟨fun h id ph q hph => h id ph hph q, fun h id ph hph q => h id ph q hph⟩

/-- the task has nothing to do with places, nor with shutting down -/
def Activity.Plain (a : Activity) : Prop := a.place? = none ∧ a.tears? = none ∧ a.closes = false

variable {P : Phase → Prop} {w w' : World}

/-! ## What a section does to places -/

/-- the tasks that a section of a task in a phase may start -/
def Starts (a : Activity) (p : Phase) : Prop :=
  (∃ s, a.save? = some s ∧ p = ⟨.background, .starting (.reconcile s.job.path)⟩) ∨
  (∃ q id, a = .listening q id ∧ p = ⟨.background, .starting (.unwatch q id)⟩) ∨
  (∃ s q, a = .pumping s ∧ p = ⟨.background, .starting (.reconcile q)⟩) ∨
  ∃ seat x, a = .settling seat x ∧ p = ⟨.service, .listening seat.path seat.subscriber⟩

/-- What a section of a task in phase `a` does to places `v`; they are `v'` afterwards, and the task is in phase `next`. -/
inductive Shift (v : Places) (a : Activity) (v' : Places) (next : Option Activity) : Prop
  | steady (ha : a ≠ .starting .shutDown) (hv : v' = v) (hp : next.bind Activity.place? = a.place?)
      (ht : next.bind Activity.tears? = a.tears?) (hc : next.any Activity.closes = a.closes)
  /-- there is no entry in which the task could have a place -/
  | lost (k : Path.Key) (hk : a.place? = some k) (hr : v.roster? k = none) (hv : v' = v) (hn : next = none)
  /-- the entry is not dropped: somebody has come back, or it is gone already -/
  | spared (k : Path.Key) (hk : a.tears? = some k) (hr : ∀ r, v.roster? k = some r → r.count ≠ 0) (hv : v' = v)
      (hn : next = none)
  | drop (k : Path.Key) (r : Roster) (hk : a.tears? = some k) (hr : v.roster? k = some r) (hz : r.count = 0)
      (hv : v' = v.put k none) (hn : next = none)
  /-- a call to watch takes a place; with the first one the watcher is armed, if it can be -/
  | take (p : Path) (r : Roster) (armed : Bool) (ha : ∃ id joined other, a = .joining p id joined other)
      (hr : v.roster? p.key = some r ∨ v.roster? p.key = none ∧ r = .blank p)
      (hv : armed = r.armed ∧ v' = v.put p.key (some { r with count := r.count + 1 }) ∨
        r.count = 0 ∧ r.armed = false ∧ armed = true ∧
          v' = (v.put p.key (some { r with count := r.count + 1, armed := true })).tell [.arm p])
      (hn : ∃ b, next = some b ∧ b.place? = some p.key ∧ b.tears? = none ∧ b.closes = false)
  /-- a place becomes a registration; the one that it replaces, if any, does not count any more -/
  | register (seat : Seat) (r : Roster) (x : Registration) (ha : ∃ signal, a = .settling seat signal)
      (hr : v.roster? seat.path.key = some r)
      (hv : v' = v.put seat.path.key (some { r with
        registered := r.registered.insert seat.subscriber x
        count := if r.registered.contains seat.subscriber then r.count - 1 else r.count })) (hn : next = none)
  /-- a place is given back, or that of a subscriber who leaves -/
  | release (p : Path) (r : Roster) (registered : Table SubscriberId Registration) (hr : v.roster? p.key = some r)
      (ha : a.place? = some p.key ∧ registered = r.registered ∨
        ∃ id, a = .starting (.unwatch p id) ∧ r.registered.contains id = true ∧ registered = r.registered.erase id)
      (hz : r.count - 1 ≠ 0) (hv : v' = v.put p.key (some { r with registered, count := r.count - 1 })) (hn : next = none)
  /-- with the last place the watcher is disarmed -/
  | releaseLast (p : Path) (r : Roster) (registered : Table SubscriberId Registration) (hr : v.roster? p.key = some r)
      (ha : a.place? = some p.key ∧ registered = r.registered ∨
        ∃ id, a = .starting (.unwatch p id) ∧ r.registered.contains id = true ∧ registered = r.registered.erase id)
      (hz : r.count - 1 = 0)
      (hv : v' = (v.put p.key (some { r with registered, count := 0, armed := false })).tell
        (if r.armed then [.disarm p] else []))
      (hn : ∃ l, next = some (.tearingDown p none l))
  /-- all subscribers are removed, and the watcher is disarmed wherever it was armed for them -/
  | shutDown (ds : List Path) (ha : a = .starting .shutDown)
      (hds : ∀ k r, v.roster? k = some r → r.armed = true → r.spelling ∈ ds)
      (hv : v' = ⟨fun k => (v.roster? k).map Roster.retired, v.calls ++ ds.map .disarm⟩)
      (hn : ∃ paths, next = some (.closing paths))
  | forget (ha : a.closes = true) (hv : v' = ⟨fun _ => none, v.calls⟩) (hn : next = none)

/-- what is proved of a section -/
structure Turnover (P : Phase → Prop) (w : World) (a : Activity) (r : World × Section Activity Outcome) : Prop where
  shift : Shift w.places a r.1.places r.2.next
  tasks : w.tasks.Grows P r.1.tasks
  spares : w.tasks.Spares Phase.Listening r.1.tasks
  going : a ≠ .starting .shutDown → r.1.isShutDown = w.isShutDown ∧ r.1.pool.closed = w.pool.closed
  shut : a = .starting .shutDown → r.1.isShutDown = true
  /-- only a call to watch asks the watcher to arm -/
  attempts : (∀ p x joined other, a ≠ .joining p x joined other) → r.1.watcher.attempts = w.watcher.attempts

variable {a : Activity} {r : World × Section Activity Outcome} {l : Leaving}

theorem Turnover.of_going (h : Going P w r.1) (ha : a ≠ .starting .shutDown) (hs : Shift w.places a r.1.places r.2.next) :
    Turnover P w a r := ⟨hs, h.tasks, h.spares, fun _ => ⟨h.isShutDown, h.closed⟩, fun e => absurd e ha, fun _ => h.attempts⟩

/-- a section that leaves places alone, of a task that goes on as far as places are concerned -/
theorem Turnover.steady (h : Steady P w r.1) (ha : a ≠ .starting .shutDown)
    (hp : r.2.next.bind Activity.place? = a.place?) (ht : r.2.next.bind Activity.tears? = a.tears?)
    (hc : r.2.next.any Activity.closes = a.closes) : Turnover P w a r :=
  .of_going h.toGoing ha (.steady ha h.places hp ht hc)

/-- a section of a task that has nothing to do with places, before or after -/
theorem Turnover.plain (h : Steady P w r.1) (ha : a ≠ .starting .shutDown) (hp : a.Plain)
    (hn : ∀ b, r.2.next = some b → b.Plain) : Turnover P w a r := by
  obtain ⟨hplace, htears, hcloses⟩ := hp
  cases hx : r.2.next with
  | none => exact .steady h ha (by rw [hx, hplace]; rfl) (by rw [hx, htears]; rfl) (by rw [hx, hcloses]; rfl)
  | some b =>
    obtain ⟨hplace', htears', hcloses'⟩ := hn b hx
    exact .steady h ha (by rw [hx, hplace]; exact hplace') (by rw [hx, htears]; exact htears')
      (by rw [hx, hcloses]; exact hcloses')

/-- a section that begins a call to the disk, or waits for one -/
theorem Turnover.call {f : Call → Activity} (h : Steady P w r.1) (ha : a ≠ .starting .shutDown) (hp : a.Plain)
    (hn : ∃ c, r.2.next = some (f c)) (hf : ∀ c, (f c).Plain) : Turnover P w a r := by
  obtain ⟨c, hc⟩ := hn
  refine .plain h ha hp fun b hb => ?_
  cases hc.symm.trans hb
  exact hf c

theorem turnover_ofPart {σ α : Type} {phase : σ → Activity} {answer : α → Answer}
    {x : World × Section σ (Except Problem α)} (h : Steady P w x.1) (ha : a ≠ .starting .shutDown) (hp : a.Plain)
    (hphase : ∀ r, (phase r).Plain) : Turnover P w a (ofPart phase answer x) := by
  have hgo : ∀ r b, some (phase r) = some b → b.Plain := fun r b hb => by
    cases hb
    exact hphase r
  rcases x with ⟨w', r | r | r | o⟩
  · exact .plain h ha hp (hgo r)
  · exact .plain h ha hp (hgo r)
  · exact .plain h ha hp (hgo r)
  · exact .plain h ha hp (by simp [ofPart, Section.next])

/-! ### Giving places back -/

theorem steady_endLeaving (w : World) (l : Leaving) : Steady P w (w.endLeaving l).1 := by
  cases l with
  | unwatched => exact .refl w
  | failed seat e => exact steady_endSeat w seat
  | abandoned => exact .refl w

/-- A place is given back at a path that is tracked; `r` is the roster before, and `registered` those who are left. -/
theorem turnover_releasePlace {p : Path} {e : Entry} {registered : Table SubscriberId Registration} {w₀ : World} {r : Roster}
    (hr : w₀.places.roster? p.key = some r)
    (ha : a.place? = some p.key ∧ registered = r.registered ∨
      ∃ id, a = .starting (.unwatch p id) ∧ r.registered.contains id = true ∧ registered = r.registered.erase id)
    (hg : Going P w₀ w) (he : w.entry? p = some e) (her : e.roster = { r with registered })
    (hv : w.places = w₀.places.put p.key (some e.roster)) (l : Leaving) : Turnover P w₀ a (w.releasePlace p l) := by
  have hne : a ≠ .starting .shutDown := by
    rcases ha with ⟨h, -⟩ | ⟨id, rfl, -⟩
    · rintro rfl
      cases h
    · simp
  have hcount : e.count = r.count := congrArg Roster.count her
  have harmed : e.armed = r.armed := congrArg Roster.armed her
  have hreg : e.registered = registered := congrArg Roster.registered her
  have hspell : e.spelling = r.spelling := congrArg Roster.spelling her
  -- what is put into the place of the entry
  have hput : ∀ (w₁ : World) (e' : Entry), w₁.entries = w.entries → (w₁.setEntry p e').places =
      ⟨Function.update w₀.places.roster? p.key (some e'.roster), w₁.watcher.calls⟩ := by
    intro w₁ e' hentries
    have hroster : w₁.places.roster? = w.places.roster? := by simp only [World.places, hentries]
    rw [places_setEntry, Places.put, hroster, hv, Places.put, Function.update_idem]
    rfl
  have hcalls : w.watcher.calls = w₀.watcher.calls := congrArg Places.calls hv
  simp only [World.releasePlace, he]
  split
  · rename_i hz
    rw [hcount] at hz
    cases hb : r.armed with
    | true =>
      refine .of_going (hg.trans ?_) hne (.releaseLast p r registered hr ha hz ?_ ⟨l, rfl⟩)
      · simp only [harmed, hb, if_true]
        exact ⟨rfl, rfl, rfl, .refl _, .refl _⟩
      · simp only [harmed, hb, if_true]
        refine (hput { w with watcher := w.watcher.disarm p } _ rfl).trans ?_
        simp only [Watcher.disarm, hcalls, Entry.roster, hcount, hreg, hspell, hz]
        rfl
    | false =>
      refine .of_going (hg.trans ?_) hne (.releaseLast p r registered hr ha hz ?_ ⟨l, rfl⟩)
      · simp only [harmed, hb]
        exact ⟨rfl, rfl, rfl, .refl _, .refl _⟩
      · simp only [harmed, hb, Bool.false_eq_true, if_false]
        refine (hput w _ rfl).trans ?_
        simp only [hcalls, Entry.roster, hcount, hreg, hspell, hz, Places.tell, Places.put, List.append_nil]
        rfl
  · rename_i hz
    rw [hcount] at hz
    have hend := steady_endLeaving (P := P) (w.setEntry p { e with count := e.count - 1 }) l
    refine .of_going (hg.trans ((going_setEntry w p _).trans hend.toGoing)) hne
      (.release p r registered hr ha hz ?_ (next_endLeaving _ l))
    rw [hend.places, hput w _ rfl]
    simp only [hcalls, Entry.roster, hcount, harmed, hreg, hspell]
    rfl

/-- a task that accounts for a place gives it back -/
theorem turnover_giveUp {p : Path} (ha : a.place? = some p.key) (h : Steady P w w') (l : Leaving) :
    Turnover P w a (w'.releasePlace p l) := by
  cases he : w'.entry? p with
  | none =>
    have hr : w.places.roster? p.key = none := h.places ▸ roster?_of_absent he
    simp only [World.releasePlace, he]
    have hend := h.trans (steady_endLeaving (P := P) w' l)
    refine .of_going hend.toGoing ?_ (.lost p.key ha hr hend.places (next_endLeaving w' l))
    rintro rfl
    cases ha
  | some e =>
    have hr := h.places ▸ roster?_of_present he
    refine turnover_releasePlace hr (Or.inl ⟨ha, rfl⟩) h.toGoing he rfl ?_ l
    rw [h.places, ← hr, Places.put, Function.update_eq_self]

theorem turnover_unwatch (w : World) (p : Path) (id : SubscriberId) :
    Turnover P w (.starting (.unwatch p id)) (w.unwatch p id) := by
  unfold World.unwatch
  cases he : w.entry? p with
  | none => exact .plain (.refl w) (by simp) ⟨rfl, rfl, rfl⟩ (by simp [Section.next])
  | some e =>
    dsimp only
    cases hr : e.registered.get? id with
    | none => exact .plain (.refl w) (by simp) ⟨rfl, rfl, rfl⟩ (by simp [Section.next])
    | some x =>
      have haside := aside_cancelIf (w.setEntry p { e with registered := e.registered.erase id }) x.listener
      have he' : World.entry? ((w.setEntry p { e with registered := e.registered.erase id }).cancelIf x.listener) p =
          some { e with registered := e.registered.erase id } := by
        rw [World.entry?, haside.entries]
        simp [World.setEntry, Table.get?_insert]
      refine turnover_releasePlace (roster?_of_present he)
        (Or.inr ⟨id, rfl, by simp [Entry.roster, Table.contains, hr], rfl⟩)
        ((going_setEntry w p _).trans haside.steady.toGoing) he' rfl ?_ .unwatched
      rw [(haside.steady (P := P)).places, places_setEntry]

theorem aside_awaitIdle (w : World) (p : Path) (turn : Option Turn) : Aside w (w.awaitIdle p turn).1 := by
  cases turn with
  | some τ =>
    simp only [World.awaitIdle]
    split
    · exact aside_giveBack w τ
    · exact .refl w
  | none =>
    simp only [World.awaitIdle]
    split
    · exact .refl w
    · exact ⟨rfl, rfl, rfl, rfl, rfl, fun _ => .refl _, .refl _⟩

theorem turnover_stepTearingDown (w : World) (p : Path) (turn : Option Turn) (l : Leaving) :
    Turnover P w (.tearingDown p turn l) (w.stepTearingDown p turn l) := by
  have h := (aside_awaitIdle w p turn).steady (P := P)
  unfold World.stepTearingDown
  rcases hx : w.awaitIdle p turn with ⟨w', t | t | t | u⟩ <;> rw [hx] at h <;> dsimp only
  · exact .steady h (by simp) rfl rfl rfl
  · exact .steady h (by simp) rfl rfl rfl
  · exact .steady h (by simp) rfl rfl rfl
  · obtain ⟨rfl, -⟩ := awaitIdle_ended hx
    have hspared : (∀ r, w'.places.roster? p.key = some r → r.count ≠ 0) →
        Turnover P w' (.tearingDown p turn l) (w'.endLeaving l) := fun hr =>
      .of_going (steady_endLeaving w' l).toGoing (by simp)
        (.spared p.key rfl hr (steady_endLeaving (P := P) w' l).places (next_endLeaving w' l))
    cases he : w'.entry? p with
    | none => exact hspared fun r hr => by rw [roster?_of_absent he] at hr; cases hr
    | some e =>
      dsimp only
      split
      · rename_i hz
        have hend := steady_endLeaving (P := P) (w'.dropEntry p) l
        have hdrop : Going P w' (w'.dropEntry p) := ⟨rfl, rfl, rfl, .refl _, .refl _⟩
        refine .of_going (hdrop.trans hend.toGoing) (by simp)
          (.drop p.key e.roster rfl (roster?_of_present he) hz ?_ (next_endLeaving _ l))
        rw [hend.places, places_dropEntry]
      · rename_i hz
        refine hspared fun r hr => ?_
        cases (roster?_of_present he).symm.trans hr
        exact hz

/-! ### Taking places -/

theorem turnover_takePlace (seat : Seat) {e : Entry} {other : Option SignalId}
    (he : w.entry? seat.path = some e ∨ w.entry? seat.path = none ∧ e = { spelling := seat.path }) :
    Turnover P w (.joining seat.path seat.subscriber seat.joined other) (w.takePlace seat e) := by
  have hr : w.places.roster? seat.path.key = some e.roster ∨
      w.places.roster? seat.path.key = none ∧ e.roster = .blank seat.path := by
    rcases he with he | ⟨he, rfl⟩
    · exact Or.inl (roster?_of_present he)
    · exact Or.inr ⟨roster?_of_absent he, rfl⟩
  rcases takePlace_cases w seat e with ⟨-, htake⟩ | ⟨hzero, x, armed, signal, signals, v, -, hwatch, rfl, htake⟩
  · rw [htake]
    exact .of_going (going_setEntry w _ _) (by simp) (.take seat.path e.roster e.armed ⟨_, _, _, rfl⟩ hr
      (Or.inl ⟨rfl, places_setEntry w _ _⟩) ⟨_, rfl, rfl, rfl, rfl⟩)
  · rw [htake]
    have hplaces := places_setEntry { w with watcher := x, signals, nextQuery := w.nextQuery + 1 } seat.path
      { e with
        joining := e.joining.insert seat.subscriber seat.joined, count := e.count + 1, armed := armed
        pendingQuery := some w.nextQuery, pendingSignal := some signal }
    refine ⟨.take seat.path e.roster armed ⟨_, _, _, rfl⟩ hr ?_ ⟨_, rfl, rfl, rfl, rfl⟩, .refl _, .refl _, fun _ => ⟨rfl, rfl⟩,
      (by rintro ⟨⟩), fun hno => absurd rfl (hno _ _ _ _)⟩
    rcases hwatch with ⟨rfl, hcalls⟩ | ⟨h0, rfl, hcalls⟩
    · exact Or.inl ⟨rfl, hplaces.trans (congrArg (Places.put · _ _) (congrArg (Places.mk _) hcalls))⟩
    · exact Or.inr ⟨hzero, h0, rfl, hplaces.trans (congrArg (Places.put · _ _) (congrArg (Places.mk _) hcalls))⟩

theorem turnover_stepJoining (w : World) (p : Path) (id : SubscriberId) (joined : SignalId) (other : Option SignalId) :
    Turnover P w (.joining p id joined other) (w.stepJoining p id joined other) := by
  unfold World.stepJoining
  split
  · exact .steady (.refl w) (by simp) rfl rfl rfl
  · have he := entry?_or_new w p
    dsimp only
    generalize (w.entry? p).getD { spelling := p } = e at he
    split
    · exact .steady (.refl w) (by simp) rfl rfl rfl
    · split
      · rename_i x hx
        rcases he with he | ⟨-, rfl⟩
        · exact .steady (steady_setEntry he rfl) (by simp) rfl rfl rfl
        · simp at hx
      · exact turnover_takePlace ⟨p, id, joined⟩ he

theorem turnover_requestWatch (w : World) (p : Path) (id : SubscriberId) :
    Turnover P w (.starting (.watch p id)) (w.requestWatch p id) := by
  unfold World.requestWatch
  split
  · exact .steady (.refl w) (by simp) rfl rfl rfl
  · exact .steady (.rest rfl rfl rfl rfl rfl) (by simp) rfl rfl rfl

theorem steady_listen {p : Path} {id : SubscriberId} (hP : P ⟨.service, .listening p id⟩) (w : World) :
    Steady P w (w.listen p id).2 := by
  unfold World.listen
  split
  · exact .refl w
  · exact ⟨⟨rfl, rfl, rfl, Tasks.grows_spawn _ hP, Tasks.spares_spawn _ _⟩, rfl⟩

theorem turnover_register {seat : Seat} {signal : Option SignalId}
    (hP : P ⟨.service, .listening seat.path seat.subscriber⟩) :
    Turnover P w (.settling seat signal) (w.register seat) := by
  unfold World.register
  cases he : w.entry? seat.path with
  | none =>
    have hend := steady_endSeat (P := P) w seat
    exact .of_going hend.toGoing (by simp) (.lost seat.path.key rfl (roster?_of_absent he) hend.places rfl)
  | some e =>
    have hlisten := steady_listen hP w
    -- whichever world the registration is put into, if places are as they were there
    have hput : ∀ w₁ (n : Nat), Steady P w w₁ →
        (n = if e.registered.contains seat.subscriber then e.count - 1 else e.count) → ∀ x (o : Outcome),
        Turnover P w (.settling seat signal)
          ((w₁.setEntry seat.path { e with registered := e.registered.insert seat.subscriber x, count := n }).endSeat seat,
            .ended o) := by
      rintro w₁ n hsteady rfl x o
      have hend := steady_endSeat (P := P) (w₁.setEntry seat.path { e with
        registered := e.registered.insert seat.subscriber x
        count := if e.registered.contains seat.subscriber then e.count - 1 else e.count }) seat
      refine .of_going (hsteady.toGoing.trans ((going_setEntry w₁ _ _).trans hend.toGoing)) (by simp)
        (.register seat e.roster x ⟨signal, rfl⟩ (roster?_of_present he) ?_ rfl)
      rw [hend.places, places_setEntry, hsteady.places]
      rfl
    dsimp only
    cases hr : e.registered.get? seat.subscriber with
    | none => exact hput _ e.count hlisten (by simp [Table.contains, hr]) _ _
    | some r => exact hput _ (e.count - 1) (hlisten.then (aside_cancelIf _ _)) (by simp [Table.contains, hr]) _ _

theorem turnover_stepSettling {seat : Seat} {signal : Option SignalId}
    (hP : P ⟨.service, .listening seat.path seat.subscriber⟩) :
    Turnover P w (.settling seat signal) (w.stepSettling seat signal) := by
  unfold World.stepSettling
  split
  · exact .steady (.refl w) (by simp) rfl rfl rfl
  · split
    · exact .steady (.refl w) (by simp) rfl rfl rfl
    · exact turnover_register hP

theorem turnover_stepSynchronizing (w : World) (seat : Seat) (r : Refresh) :
    Turnover P w (.synchronizing seat r) (w.stepSynchronizing seat r) := by
  have h := steady_stepRefresh (P := P) w r
  unfold World.stepSynchronizing
  rcases hx : w.stepRefresh r with ⟨w', r' | r' | r' | x⟩ <;> rw [hx] at h
  · exact .steady h (by simp) rfl rfl rfl
  · exact .steady h (by simp) rfl rfl rfl
  · exact .steady h (by simp) rfl rfl rfl
  · cases x with
    | ok b => exact .steady h (by simp) rfl rfl rfl
    | error e => exact turnover_giveUp (p := seat.path) rfl h _

/-! ### Shutting down -/

theorem aside_stopListeners (w : World) (e : Entry) : Aside w (w.stopListeners e) := by
  unfold World.stopListeners
  generalize e.registered.values = rs
  induction rs generalizing w with
  | nil => exact .refl w
  | cons r rs ih => exact (aside_cancelIf w r.listener).trans (ih _)

theorem going_retire (w : World) (e : Entry) : Going P w (w.retire e) := by
  have hstop := (aside_stopListeners w e).steady (P := P).toGoing
  unfold World.retire
  dsimp only
  split
  · exact ⟨hstop.isShutDown, hstop.closed, hstop.attempts, hstop.tasks, hstop.spares⟩
  · exact hstop

/-- what removing the subscribers of entries tells the watcher; the entries stay as they are meanwhile -/
theorem foldl_retire (es : List Entry) (w : World) :
    (es.foldl World.retire w).entries = w.entries ∧ (∀ P, Going P w (es.foldl World.retire w)) ∧
      (es.foldl World.retire w).watcher.calls =
        w.watcher.calls ++ ((es.filter (·.armed)).map (·.spelling)).map .disarm := by
  induction es generalizing w with
  | nil => exact ⟨rfl, fun _ => (Steady.refl w).toGoing, (List.append_nil _).symm⟩
  | cons e es ih =>
    have hstop := aside_stopListeners w e
    have hone : (w.retire e).entries = w.entries ∧
        (w.retire e).watcher.calls = w.watcher.calls ++ if e.armed then [.disarm e.spelling] else [] := by
      unfold World.retire
      dsimp only
      split
      · exact ⟨hstop.entries, by rw [hstop.watcher]; rfl⟩
      · exact ⟨hstop.entries, by rw [hstop.watcher, List.append_nil]⟩
    obtain ⟨he, hg, hw⟩ := ih (w.retire e)
    refine ⟨he.trans hone.1, fun P => (going_retire w e).trans (hg P), ?_⟩
    simp only [List.foldl_cons]
    rw [hw, hone.2, List.filter_cons]
    split <;> simp

theorem turnover_requestShutDown (w : World) : Turnover P w (.starting .shutDown) w.requestShutDown := by
  -- the pump is stopped before the subscribers are removed
  obtain ⟨w₀, hstop, hreq⟩ : ∃ w₀, Aside { w with isShutDown := true } w₀ ∧ w.requestShutDown =
      ({ w₀.inOrder.foldl World.retire w₀ with
          entries := (w₀.inOrder.foldl World.retire w₀).entries.map fun _ e => World.Entry.retired e
          pool := (w₀.inOrder.foldl World.retire w₀).pool.close },
        .go (.closing (w₀.inOrder.map (·.spelling)))) :=
    ⟨{ World.cancelIf { w with isShutDown := true } w.pump with pump := none },
      (aside_cancelIf { w with isShutDown := true } w.pump).trans ⟨rfl, rfl, rfl, rfl, rfl, fun _ => .refl _, .refl _⟩, rfl⟩
  have hentries : w₀.entries = w.entries := hstop.entries
  have hwatcher : w₀.watcher = w.watcher := hstop.watcher
  obtain ⟨he, hretire, hw⟩ := foldl_retire w₀.inOrder w₀
  have hg : Going P { w with isShutDown := true } (w₀.inOrder.foldl World.retire w₀) :=
    hstop.steady.toGoing.trans (hretire P)
  rw [hreq]
  refine ⟨.shutDown ((w₀.inOrder.filter (·.armed)).map (·.spelling)) rfl (fun k r hr harmed => ?_) ?_ ⟨_, rfl⟩,
    hg.tasks, hg.spares, fun h => absurd rfl h, fun _ => hg.isShutDown, fun _ => hg.attempts⟩
  · obtain ⟨e, hk, rfl⟩ := Option.map_eq_some_iff.1 hr
    have hmem : e ∈ w₀.inOrder := by
      rw [(World.perm_inOrder w₀).mem_iff, hentries]
      exact List.mem_map.2 ⟨(k, e), Table.get?_eq_some_iff.1 hk, rfl⟩
    exact List.mem_map.2 ⟨e, List.mem_filter.2 ⟨hmem, harmed⟩, rfl⟩
  · refine congrArg₂ Places.mk (funext fun k => ?_) (hw.trans (by rw [hwatcher]; rfl))
    simp only [he, hentries, Table.get?_map, World.places]
    cases w.entries.get? k <;> rfl

theorem turnover_drainNext (h : Aside w w') (ha : a.closes = true) (hs : a ≠ .starting .shutDown) (hp : a.place? = none)
    (ht : a.tears? = none) (paths : List Path) : Turnover P w a (w'.drainNext paths) := by
  cases paths with
  | nil =>
    have hg : Going P w' { w' with entries := .empty } := ⟨rfl, rfl, rfl, .refl _, .refl _⟩
    refine .of_going (h.steady.toGoing.trans hg) hs (.forget ha ?_ rfl)
    exact congrArg (Places.mk fun _ => none) (congrArg Watcher.calls h.watcher)
  | cons p rest => exact .steady h.steady hs hp.symm ht.symm ha.symm

theorem turnover_stepClosing (w : World) (paths : List Path) : Turnover P w (.closing paths) (w.stepClosing paths) := by
  unfold World.stepClosing
  split
  · exact turnover_drainNext (.refl w) rfl (by simp) rfl rfl paths
  · exact .steady (.refl w) (by simp) rfl rfl rfl

theorem turnover_stepDraining (w : World) (p : Path) (turn : Option Turn) (rest : List Path) :
    Turnover P w (.draining p turn rest) (w.stepDraining p turn rest) := by
  have h := aside_awaitIdle w p turn
  unfold World.stepDraining
  rcases hx : w.awaitIdle p turn with ⟨w', t | t | t | u⟩ <;> rw [hx] at h <;> dsimp only
  · exact .steady h.steady (by simp) rfl rfl rfl
  · exact .steady h.steady (by simp) rfl rfl rfl
  · exact .steady h.steady (by simp) rfl rfl rfl
  · exact turnover_drainNext h rfl (by simp) rfl rfl rest

/-! ### Any task -/

theorem turnover_begin (w : World) (r : Request) : Turnover P w (.starting r) (w.begin r) := by
  cases r with
  | watch p id => exact turnover_requestWatch w p id
  | unwatch p id => exact turnover_unwatch w p id
  | write p bytes => exact turnover_ofPart (steady_requestSave w p bytes) (by simp) ⟨rfl, rfl, rfl⟩ fun _ => ⟨rfl, rfl, rfl⟩
  | reconcile p => exact turnover_ofPart (steady_requestRefresh w p) (by simp) ⟨rfl, rfl, rfl⟩ fun _ => ⟨rfl, rfl, rfl⟩
  | release p => exact turnover_giveUp rfl (.refl w) .abandoned
  | waitIdle => exact .steady (.refl w) (by simp) rfl rfl rfl
  | shutDown => exact turnover_requestShutDown w
  | diskStat p =>
    exact .call (f := .diskStat p) (steady_beginCall w _ p _) (by simp) ⟨rfl, rfl, rfl⟩ (next_beginCall w _ p _) fun _ =>
      ⟨rfl, rfl, rfl⟩
  | diskRead p =>
    exact .call (f := .diskRead p) (steady_beginCall w _ p _) (by simp) ⟨rfl, rfl, rfl⟩ (next_beginCall w _ p _) fun _ =>
      ⟨rfl, rfl, rfl⟩
  | diskWrite p bytes =>
    exact .call (f := .diskWrite p bytes) (steady_beginCall w _ p _) (by simp) ⟨rfl, rfl, rfl⟩ (next_beginCall w _ p _) fun _ =>
      ⟨rfl, rfl, rfl⟩

theorem turnover_stepListening (w : World) (p : Path) (id : SubscriberId) :
    Turnover (Starts (.listening p id)) w (.listening p id) (w.stepListening p id) := by
  unfold World.stepListening
  split
  · exact .plain (steady_inBackground w (Or.inr (Or.inl ⟨p, id, rfl, rfl⟩))) (by simp) ⟨rfl, rfl, rfl⟩ (by simp [Section.next])
  · exact .steady (.refl w) (by simp) rfl rfl rfl

theorem turnover_stepPumping (w : World) (x : StreamId) :
    Turnover (Starts (.pumping x)) w (.pumping x) (w.stepPumping x) := by
  unfold World.stepPumping
  split
  · rename_i ev c _
    have h1 : Steady (Starts (.pumping x)) w { w with streams := w.streams.insert x c } := .rest rfl rfl rfl rfl rfl
    exact .steady (h1.trans (steady_inBackground _ (Or.inr (Or.inr (Or.inl ⟨x, ev.path, rfl, rfl⟩))))) (by simp) rfl rfl rfl
  · exact .plain (.rest rfl rfl rfl rfl rfl) (by simp) ⟨rfl, rfl, rfl⟩ (by simp [Section.next])
  · exact .steady (.refl w) (by simp) rfl rfl rfl

/-- **What a section of any task does to places.** -/
theorem turnover_step (w : World) (a : Activity) : Turnover (Starts a) w a (w.step a) := by
  cases a with
  | starting r => exact turnover_begin w r
  | refreshing r => exact turnover_ofPart (steady_stepRefresh w r) (by simp) ⟨rfl, rfl, rfl⟩ fun _ => ⟨rfl, rfl, rfl⟩
  | saving s =>
    exact turnover_ofPart (steady_stepSave w (Or.inl ⟨s, rfl, rfl⟩)) (by simp) ⟨rfl, rfl, rfl⟩ fun _ => ⟨rfl, rfl, rfl⟩
  | joining p id joined other => exact turnover_stepJoining w p id joined other
  | synchronizing seat r => exact turnover_stepSynchronizing w seat r
  | settling seat x => exact turnover_stepSettling (Or.inr (Or.inr (Or.inr ⟨seat, x, rfl, rfl⟩)))
  | tearingDown p turn l => exact turnover_stepTearingDown w p turn l
  | awaitingQuiet =>
    simp only [World.step, World.stepAwaitingQuiet]
    split
    · exact .plain (.refl w) (by simp) ⟨rfl, rfl, rfl⟩ (by simp [Section.next])
    · exact .steady (.refl w) (by simp) rfl rfl rfl
  | closing paths => exact turnover_stepClosing w paths
  | draining p turn rest => exact turnover_stepDraining w p turn rest
  | diskStat p c =>
    cases c with
    | held g =>
      exact .call (f := .diskStat p) (steady_atGate w g _) (by simp) ⟨rfl, rfl, rfl⟩ (next_atGate w g _) fun _ => ⟨rfl, rfl, rfl⟩
    | due => exact .plain (steady_leaveDisk w p) (by simp) ⟨rfl, rfl, rfl⟩ (by simp [World.step, answered, Section.next])
  | diskRead p c =>
    cases c with
    | held g =>
      exact .call (f := .diskRead p) (steady_atGate w g _) (by simp) ⟨rfl, rfl, rfl⟩ (next_atGate w g _) fun _ => ⟨rfl, rfl, rfl⟩
    | due => exact .plain (steady_leaveDisk w p) (by simp) ⟨rfl, rfl, rfl⟩ (by simp [World.step, answered, Section.next])
  | diskWrite p bytes c =>
    cases c with
    | held g =>
      exact .call (f := .diskWrite p bytes) (steady_atGate w g _) (by simp) ⟨rfl, rfl, rfl⟩ (next_atGate w g _) fun _ =>
        ⟨rfl, rfl, rfl⟩
    | due =>
      exact .plain ((steady_write w p bytes).trans (steady_leaveDisk _ p)) (by simp) ⟨rfl, rfl, rfl⟩
        (by simp [World.step, answered, Section.next])
  | listening p id => exact turnover_stepListening w p id
  | pumping x => exact turnover_stepPumping w x

/-! ### A task that is cancelled -/

/-- the tasks that the end of a cancelled one may start -/
def Leaves (a : Activity) (p : Phase) : Prop :=
  ∃ seat, ((∃ r, a = .synchronizing seat r) ∨ ∃ x, a = .settling seat x) ∧ p = ⟨.background, .starting (.release seat.path)⟩

/-- **What a cancelled task lets go of leaves places alone**; its own place is left to the background. -/
theorem steady_abandon (w : World) (a : Activity) : Steady (Leaves a) w (w.abandon a) := by
  cases a with
  | refreshing r => exact steady_dropRefresh w r
  | saving s => exact steady_dropSave w s
  | synchronizing seat r =>
    exact ((steady_dropRefresh w r).trans (steady_endSeat _ seat)).trans
      (steady_inBackground _ ⟨seat, Or.inl ⟨r, rfl⟩, rfl⟩)
  | settling seat x => exact (steady_endSeat w seat).trans (steady_inBackground _ ⟨seat, Or.inr ⟨x, rfl⟩, rfl⟩)
  | tearingDown p turn l =>
    cases l with
    | failed seat e => exact (aside_giveBackIf w turn).steady.trans (steady_endSeat _ seat)
    | unwatched => exact (aside_giveBackIf w turn).steady
    | abandoned => exact (aside_giveBackIf w turn).steady
  | draining p turn rest => exact (aside_giveBackIf w turn).steady
  | diskStat p c => exact steady_leaveDisk w p
  | diskRead p c => exact steady_leaveDisk w p
  | diskWrite p bytes c => exact steady_leaveDisk w p
  | pumping x => exact .rest rfl rfl rfl rfl rfl
  | starting r => exact .refl w
  | joining p id joined other => exact .refl w
  | awaitingQuiet => exact .refl w
  | closing paths => exact .refl w
  | listening p id => exact .refl w

/-! ## What a move does to places -/

variable {id : TaskId} {t : Task Phase} {m : Move}

theorem places_floorTo (w : World) (id : TaskId) : (floorTo w id).places = w.places := by
  unfold floorTo
  split <;> rfl

theorem isShutDown_floorTo (w : World) (id : TaskId) : (floorTo w id).isShutDown = w.isShutDown := by
  unfold floorTo
  split <;> rfl

theorem watcher_floorTo (w : World) (id : TaskId) : (floorTo w id).watcher = w.watcher := by
  unfold floorTo
  split <;> rfl

theorem closed_floorTo (w : World) (id : TaskId) : (floorTo w id).pool.closed = w.pool.closed := by
  unfold floorTo
  split <;> rfl

theorem steady_finish (w : World) (id : TaskId) (role : Role) (e : Ending) : Steady P w (w.finish id role e) := by
  cases role with
  | caller => exact .rest rfl rfl rfl rfl rfl
  | background =>
    have h1 : Steady P w { w with pool := w.pool.finish } := .rest rfl rfl rfl rfl rfl
    exact h1.then (aside_wake _ (by simp))
  | service => exact .refl w

/-- the end of a task leaves places alone -/
theorem steady_advance (w : World) (id : TaskId) (p : Phase) : Steady P (w.step p.activity).1 (w.advance id p).1 := by
  unfold World.advance
  rcases w.step p.activity with ⟨w', a | a | a | o⟩
  · exact .refl w'
  · exact .refl w'
  · exact .refl w'
  · exact steady_finish w' id p.role (.returned o)

/-- **What a section does to places**, seen from the outside. -/
theorem shift_serve (hw : Wf w) (h : w.served? id = some t) (hc : t.cancelled = false) :
    Shift w.places t.phase.activity (serve w id).places (((serve w id).tasks.phase? id).map (·.activity)) := by
  rw [activity_serve hw h hc, serve_of_section h hc]
  have hplaces : (World.after id ((floorTo w id).advance id t.phase)).places =
      ((floorTo w id).step t.phase.activity).1.places := (steady_advance (P := fun _ => True) _ id t.phase).places
  rw [hplaces, ← places_floorTo w id]
  exact (turnover_step _ _).shift

/-- The engine is shut down by the first section of such a request, and by nothing else. -/
theorem going_serve (h : w.served? id = some t) (hc : t.cancelled = false) (ha : t.phase.activity ≠ .starting .shutDown) :
    (serve w id).isShutDown = w.isShutDown ∧ (serve w id).pool.closed = w.pool.closed := by
  have hadv := steady_advance (P := fun _ => True) (floorTo w id) id t.phase
  obtain ⟨hs, hcl⟩ := (turnover_step (floorTo w id) t.phase.activity).going ha
  rw [serve_of_section h hc]
  exact ⟨(hadv.isShutDown.trans hs).trans (isShutDown_floorTo w id), (hadv.closed.trans hcl).trans (closed_floorTo w id)⟩

theorem isShutDown_serve (h : w.served? id = some t) (hc : t.cancelled = false)
    (ha : t.phase.activity = .starting .shutDown) : (serve w id).isShutDown = true := by
  rw [serve_of_section h hc]
  exact (steady_advance (P := fun _ => True) _ id t.phase).isShutDown.trans ((turnover_step _ _).shut ha)

/-- whatever else happens: `w'` has the places of `w`, is as much shut down, and has asked the watcher to arm as often -/
structure Unmoved (w w' : World) : Prop where
  places : w'.places = w.places
  isShutDown : w'.isShutDown = w.isShutDown
  closed : w'.pool.closed = w.pool.closed
  attempts : w'.watcher.attempts = w.watcher.attempts

theorem unmoved_cancelled (h : w.served? id = some t) (hc : t.cancelled = true) : Unmoved w (serve w id) := by
  rw [serve_of_cancelled h hc]
  have hs := (steady_abandon ((floorTo w id).without id) t.phase.activity).trans
    (steady_finish (P := Leaves t.phase.activity) _ id t.phase.role .cancelled)
  exact ⟨hs.places.trans (places_floorTo w id), hs.isShutDown.trans (isShutDown_floorTo w id),
    hs.closed.trans (closed_floorTo w id), hs.attempts.trans (congrArg Watcher.attempts (watcher_floorTo w id))⟩

theorem unmoved_nobody (h : w.served? id = none) : Unmoved w (serve w id) := by
  obtain ⟨ready, floor, hserve⟩ := serve_of_nobody h
  rw [hserve]
  exact ⟨rfl, rfl, rfl, rfl⟩

/-- turns apart, a move leaves places alone -/
theorem unmoved_outside (w : World) (hm : ∀ id, m ≠ .turn id) : Unmoved w (w.move m) := by
  have h := outside w hm
  refine ⟨?_, h.isShutDown, h.closed, h.attempts⟩
  rw [World.places, h.entries, h.calls, World.places]

/-- a move is a section of a task that has not been cancelled, or none -/
theorem section_or_not (w : World) (m : Move) :
    (∃ id t, m = .turn id ∧ w.served? id = some t ∧ t.cancelled = false) ∨
      ∀ id t, m = .turn id → w.served? id = some t → t.cancelled = true := by
  by_cases h : ∃ id t, m = .turn id ∧ w.served? id = some t ∧ t.cancelled = false
  · exact Or.inl h
  · refine Or.inr fun id t hm ht => ?_
    rw [← Bool.not_eq_false]
    exact fun hc => h ⟨id, t, hm, ht, hc⟩

/-- A move leaves places alone unless it is a section of a task that has not been cancelled. -/
theorem unmoved_of_no_section (hm : ∀ id t, m = .turn id → w.served? id = some t → t.cancelled = true) :
    Unmoved w (w.move m) := by
  by_cases hturn : ∃ id, m = .turn id
  · obtain ⟨id, rfl⟩ := hturn
    cases hs : w.served? id with
    | none => exact unmoved_nobody hs
    | some t => exact unmoved_cancelled hs (hm id t rfl hs)
  · exact unmoved_outside w fun id e => hturn ⟨id, e⟩

/-! ### New tasks -/

/-- the tasks that a move may start -/
def Newcomer (w : World) (m : Move) (p : Phase) : Prop :=
  match m with
  | .turn id => ∃ t, w.served? id = some t ∧ if t.cancelled then Leaves t.phase.activity p else Starts t.phase.activity p
  | .call r => r.isPublic = true ∧ p = ⟨.caller, .starting r⟩
  | .notifyChange q => p = ⟨.background, .starting (.reconcile q)⟩
  | .attachStream => ∃ s, p = ⟨.service, .pumping s⟩
  | _ => False

/-- whoever begins to listen does so for a subscriber that settles -/
theorem Newcomer.listening {p : Phase} {q : Path} {x : SubscriberId} (h : Newcomer w m p) (ha : p.activity = .listening q x) :
    ∃ id t seat signal, w.served? id = some t ∧ t.phase.activity = .settling seat signal ∧ q = seat.path := by
  cases m with
  | turn id =>
    obtain ⟨t, hs, h⟩ := h
    split at h
    · obtain ⟨seat, -, rfl⟩ := h
      cases ha
    · rcases h with ⟨s, -, rfl⟩ | ⟨q', x', -, rfl⟩ | ⟨s, q', -, rfl⟩ | ⟨seat, signal, hact, rfl⟩ <;> cases ha
      exact ⟨id, t, seat, signal, hs, hact, rfl⟩
  | call r =>
    obtain ⟨-, rfl⟩ := h
    cases ha
  | notifyChange q' =>
    cases h
    cases ha
  | attachStream =>
    obtain ⟨s, rfl⟩ := h
    cases ha
  | _ => cases h

/-- a new task begins a request, listens or pumps -/
theorem Newcomer.cases {p : Phase} (h : Newcomer w m p) :
    (∃ r, p.activity = .starting r ∧ (m = .call r ∨ (∃ q, r = .reconcile q) ∨ (∃ q x, r = .unwatch q x) ∨
      ∃ q, r = .release q)) ∨ (∃ q x, p.activity = .listening q x) ∨ ∃ x, p.activity = .pumping x := by
  cases m with
  | turn id =>
    obtain ⟨t, -, h⟩ := h
    split at h
    · obtain ⟨seat, -, rfl⟩ := h
      exact Or.inl ⟨_, rfl, Or.inr (Or.inr (Or.inr ⟨_, rfl⟩))⟩
    · rcases h with ⟨s, -, rfl⟩ | ⟨q, x, -, rfl⟩ | ⟨x, q, -, rfl⟩ | ⟨seat, x, -, rfl⟩
      · exact Or.inl ⟨_, rfl, Or.inr (Or.inl ⟨_, rfl⟩)⟩
      · exact Or.inl ⟨_, rfl, Or.inr (Or.inr (Or.inl ⟨_, _, rfl⟩))⟩
      · exact Or.inl ⟨_, rfl, Or.inr (Or.inl ⟨_, rfl⟩)⟩
      · exact Or.inr (Or.inl ⟨_, _, rfl⟩)
  | call r =>
    obtain ⟨-, rfl⟩ := h
    exact Or.inl ⟨r, rfl, Or.inl rfl⟩
  | notifyChange q =>
    cases h
    exact Or.inl ⟨_, rfl, Or.inr (Or.inl ⟨q, rfl⟩)⟩
  | attachStream =>
    obtain ⟨x, rfl⟩ := h
    exact Or.inr (Or.inr ⟨x, rfl⟩)
  | _ => cases h

theorem grows_cancelled (h : w.served? id = some t) (hc : t.cancelled = true) :
    ((floorTo w id).without id).tasks.Grows (Leaves t.phase.activity) (serve w id).tasks := by
  rw [serve_of_cancelled h hc]
  exact ((steady_abandon _ t.phase.activity).trans (steady_finish _ id t.phase.role .cancelled)).tasks

/-- whoever does not get the floor in a move keeps its phase, or is new -/
theorem phase?_newcomer (hw : Wf w) (hm : w.serves m id = false) :
    (w.move m).tasks.phase? id = w.tasks.phase? id ∨
      w.tasks.phase? id = none ∧ ∀ p ∈ (w.move m).tasks.phase? id, Newcomer w m p := by
  by_cases hturn : ∃ x, m = .turn x
  · obtain ⟨x, rfl⟩ := hturn
    have hx : canGo w x = true → x ≠ id := by
      rintro hgo rfl
      simp [World.serves, hgo] at hm
    simp only [World.move]
    cases hs : w.served? x with
    | none => exact Or.inl (phase?_serve_of_nobody hs id)
    | some t =>
      have hgo := (served?_eq_some hs).1
      have hw₀ := wf_floorTo hw hgo
      cases hc : t.cancelled with
      | false =>
        have hg : (floorTo w x).tasks.Grows (Starts t.phase.activity) ((floorTo w x).advance x t.phase).1.tasks :=
          (turnover_step _ _).tasks.trans (steady_advance _ x t.phase).tasks
        have hphase : (serve w x).tasks.phase? id = ((floorTo w x).advance x t.phase).1.tasks.phase? id := by
          rw [serve_of_section hs hc, World.after]
          simp only [Tasks.phase?_record, if_neg (hx hgo)]
        rw [hphase, ← phase?_floorTo w x id]
        refine (hg.phase_or hw₀.numbered id).imp_right fun h => ⟨h.1, fun p hp => ⟨t, hs, ?_⟩⟩
        rw [if_neg (by simp [hc])]
        exact h.2 p hp
      | true =>
        have hphase : ((floorTo w x).without x).tasks.phase? id = w.tasks.phase? id := by
          rw [phase?_without, if_neg (hx hgo), phase?_floorTo]
        rw [← hphase]
        refine ((grows_cancelled hs hc).phase_or (numbered_without hw₀.numbered x) id).imp_right fun h =>
          ⟨h.1, fun p hp => ⟨t, hs, ?_⟩⟩
        rw [if_pos hc]
        exact h.2 p hp
  · refine Tasks.Grows.phase_or ?_ hw.numbered id
    have hstirs := (outside w fun x e => hturn ⟨x, e⟩).tasks
    generalize (w.move m).tasks = ts at hstirs
    cases hstirs with
    | still => exact .refl _
    | wakes a ha => exact Tasks.grows_wake _ _
    | calls r hr => exact Tasks.grows_spawn _ ⟨hr, rfl⟩
    | cancels i => exact Tasks.grows_cancel _ i
    | reports q => exact (Tasks.grows_wake _ _).trans (Tasks.grows_spawn _ rfl)
    | attaches hpump => exact Tasks.grows_spawn _ ⟨_, rfl⟩
    | reattaches i hpump => exact (Tasks.grows_spawn _ ⟨_, rfl⟩).trans (Tasks.grows_cancel _ i)

theorem serves_of_ne {j : TaskId} (h : j ≠ id) : w.serves (.turn id) j = false := by simp [World.serves, Ne.symm h]

/-- whoever does not get the floor stays in its phase -/
theorem phase?_kept (hw : Wf w) (hm : w.serves m id = false) {ph : Phase} (h : w.tasks.phase? id = some ph) :
    (w.move m).tasks.phase? id = some ph := by
  rcases phase?_newcomer hw hm with h' | ⟨hnone, -⟩
  · rw [h', h]
  · cases hnone.symm.trans h

end LiveFiles.Engine
