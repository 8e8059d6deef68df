/-
What a section does to everybody else. While a task has the floor, the others stay in their phases; files get new dates
only; and whoever waits for an event that happens meanwhile is put in the queue (`Ripple`). `Waits` says of a task that
what it waits for has not happened; so a task that is neither in the queue nor on the floor waits, and `World.Woken`
survives every section.

`Runs` puts together what is proved of a section: the chain of effects that it amounts to, its ripple, and that a task
which goes to wait has reason to. `Runs.ended`, `Runs.go`, `Runs.wait` and `Runs.after` build it up along the code.
-/
import LiveFiles.Proofs.Disk
import LiveFiles.Proofs.Protocol
import LiveFiles.Proofs.Tasks

namespace LiveFiles.Engine

/-- what a task waits for has not happened: its turn has not come, the signal has not been given -/
structure Waits (w : World) (a : Await) (turn : Option Turn) : Prop where
  something : a ≠ .nothing
  turn : ∀ τ ∈ turn, a = .turn τ.id → w.turns.holds τ = false
  signal : ∀ x, a = .signal x → w.signals.isGiven x = false

/-- a phase in which a task waits -/
def Phase.Waits (w : World) (p : Phase) : Prop := Engine.Waits w p.activity.awaits p.activity.stake.errand.turn?

/-- a wait for a path to be idle: the path, and the turn that the task has there meanwhile -/
def Activity.drain? : Activity → Option (Path × Option Turn)
  | .tearingDown p turn _ | .draining p turn _ => some (p, turn)
  | .starting _ | .refreshing _ | .saving _ | .joining .. | .synchronizing .. | .settling .. | .awaitingQuiet | .closing _
  | .diskStat .. | .diskRead .. | .diskWrite .. | .listening .. | .pumping _ => none

/-- a new task has nothing at stake, and waits for no path -/
structure Phase.Fresh (p : Phase) : Prop where
  stake : p.activity.stake = {}
  drain : p.activity.drain? = none

/-- what a section does to everybody else -/
structure Ripple (w w' : World) : Prop where
  grows : w.tasks.Grows Phase.Fresh w'.tasks
  woke : w.tasks.Numbered → ∀ id p, w.tasks.phase? id = some p → p.Waits w →
    p.Waits w' ∨ id ∈ w'.tasks.ready ∨ w'.tasks.floor = some id
  disk : w.disk.Later w'.disk

/-- a task that is neither in the queue nor on the floor waits for something that has not happened -/
def World.Woken (w : World) : Prop :=
  ∀ id p, w.tasks.phase? id = some p → id ∈ w.tasks.ready ∨ w.tasks.floor = some id ∨ p.Waits w

/-- every turn that a task has was reserved before -/
def World.Reserved (w : World) : Prop :=
  ∀ id p τ, w.tasks.phase? id = some p → p.activity.stake.errand.turn? = some τ → τ.id < w.turns.nextTurn

variable {w w' w'' : World}

theorem Ripple.trans (h : Ripple w w') (h' : Ripple w' w'') : Ripple w w'' where
  grows := h.grows.trans h'.grows
  disk := h.disk.trans h'.disk
  woke hn id p hp hw := by
    have hp' : w'.tasks.phase? id = some p := by rw [h.grows.phase id (hn.lt hp), hp]
    rcases h.woke hn id p hp hw with hw | hr | hf
    · exact h'.woke (h.grows.numbered hn) id p hp' hw
    · exact Or.inr (Or.inl (h'.grows.ready hr))
    · exact Or.inr (Or.inr (h'.grows.floor.trans hf))

theorem Ripple.woken (h : Ripple w w') (hn : w.tasks.Numbered) (hw : w.Woken) : w'.Woken := by
  intro id p hp
  by_cases hlt : id < w.tasks.next
  · rw [h.grows.phase id hlt] at hp
    rcases hw id p hp with hr | hf | hb
    · exact Or.inl (h.grows.ready hr)
    · exact Or.inr (Or.inl (h.grows.floor.trans hf))
    · rcases h.woke hn id p hp hb with hb | hr | hf
      · exact Or.inr (Or.inr hb)
      · exact Or.inl hr
      · exact Or.inr (Or.inl hf)
  · exact Or.inl (h.grows.fresh hn id p (not_lt.1 hlt) hp).2

/-! ## Ripples of the small operations -/

theorem Waits.mono {a : Await} {turn : Option Turn} (h : Waits w a turn)
    (ht : ∀ τ, w'.turns.holds τ = true → w.turns.holds τ = true)
    (hs : ∀ x, w'.signals.isGiven x = true → w.signals.isGiven x = true) : Waits w' a turn where
  something := h.something
  turn τ hτ e := by
    have hno := h.turn τ hτ e
    rw [Bool.eq_false_iff] at hno ⊢
    exact fun hh => hno (ht τ hh)
  signal x e := by
    have hno := h.signal x e
    rw [Bool.eq_false_iff] at hno ⊢
    exact fun hh => hno (hs x hh)

/-- nothing happens for which a task could wait -/
theorem Ripple.silent (hg : w.tasks.Grows Phase.Fresh w'.tasks)
    (ht : ∀ τ, w'.turns.holds τ = true → w.turns.holds τ = true)
    (hs : ∀ x, w'.signals.isGiven x = true → w.signals.isGiven x = true) (hd : w.disk.Later w'.disk) : Ripple w w' :=
  ⟨hg, fun _ _ _ _ hw => Or.inl (hw.mono ht hs), hd⟩

/-- the rest of the world changes -/
theorem Ripple.rest (ht : w'.tasks = w.tasks) (hτ : w'.turns = w.turns) (hs : w'.signals = w.signals)
    (hd : w.disk.Later w'.disk) : Ripple w w' :=
  .silent (by rw [ht]; exact .refl _) (fun τ h => by rwa [hτ] at h) (fun x h => by rwa [hs] at h) hd

theorem Ripple.refl (w : World) : Ripple w w := .rest rfl rfl rfl (.refl _)

theorem World.grows_wake {P : Phase → Prop} (w : World) (a : Await) : w.tasks.Grows P (w.wake a).tasks :=
  Tasks.grows_wake w.tasks fun p => p.activity.awaits = a

theorem World.mem_ready_wake {a : Await} {id : TaskId} {p : Phase} (hp : w.tasks.phase? id = some p)
    (ha : p.activity.awaits = a) : id ∈ (w.wake a).tasks.ready ∨ (w.wake a).tasks.floor = some id :=
  Tasks.mem_ready_wake (fun p : Phase => decide (p.activity.awaits = a)) hp (by simpa using ha)

theorem ripple_setEntry (w : World) (p : Path) (e : Entry) : Ripple w (w.setEntry p e) := .rest rfl rfl rfl (.refl _)

theorem ripple_wake (w : World) (a : Await) : Ripple w (w.wake a) :=
  .silent (w.grows_wake a) (fun _ h => h) (fun _ h => h) (.refl _)

theorem ripple_cancel (w : World) (id : TaskId) : Ripple w (w.cancel id) :=
  .silent (Tasks.grows_cancel _ _) (fun _ h => h) (fun _ h => h) (.refl _)

theorem ripple_cancelIf (w : World) (id : Option TaskId) : Ripple w (w.cancelIf id) := by
  cases id with
  | none => exact .refl w
  | some id => exact ripple_cancel w id

theorem ripple_spawn (w : World) (role : Role) {a : Activity} (ha : a.stake = {}) (hd : a.drain? = none) :
    Ripple w (w.spawn role a).2 :=
  .silent (Tasks.grows_spawn _ ⟨ha, hd⟩) (fun _ h => h) (fun _ h => h) (.refl _)

/-- whoever waits for a signal goes on when it is given -/
theorem ripple_give (w : World) (x : SignalId) : Ripple w (w.give x) where
  grows := World.grows_wake { w with signals := w.signals.give x } (.signal x)
  disk := .refl _
  woke _ id p hp hw := by
    by_cases e : p.activity.awaits = .signal x
    · exact Or.inr (World.mem_ready_wake (w := { w with signals := w.signals.give x }) hp e)
    · refine Or.inl ⟨hw.something, hw.turn, fun y hy => ?_⟩
      have hxy : x ≠ y := fun h => e (by rw [hy, h])
      simpa [World.give, World.wake, Signals.isGiven_give, hxy] using hw.signal y hy

theorem ripple_giveIf (w : World) (x : Option SignalId) : Ripple w (w.giveIf x) := by
  cases x with
  | none => exact .refl w
  | some x => exact ripple_give w x

/-- whoever gets the lock goes on when a turn is given back -/
theorem ripple_giveBack (w : World) (τ : Turn) : Ripple w (w.giveBack τ) := by
  cases hn : (w.turns.giveBack τ).2 with
  | none =>
    simp only [World.giveBack, hn]
    refine .silent (.refl _) (fun σ h => ?_) (fun _ h => h) (.refl _)
    exact (Turns.holds_giveBack _ _ _ h).resolve_right (by simp [hn])
  | some x =>
    simp only [World.giveBack, hn]
    refine ⟨World.grows_wake { w with turns := (w.turns.giveBack τ).1 } _, fun _ id p hp hw => ?_, .refl _⟩
    by_cases e : p.activity.awaits = .turn x
    · exact Or.inr (World.mem_ready_wake (w := { w with turns := (w.turns.giveBack τ).1 }) hp e)
    · refine Or.inl ⟨hw.something, fun σ hσ hσ' => ?_, hw.signal⟩
      rw [Bool.eq_false_iff]
      intro hh
      rcases Turns.holds_giveBack _ _ _ hh with h | h
      · exact absurd (hw.turn σ hσ hσ') (by simp [h])
      · rw [hn] at h
        exact e (by rw [hσ', Option.some.inj h])

/-- reserve a turn and queue up with it, at once -/
def World.enlist (w : World) (p : Path) : Turn × World := ((w.reserve p).1, (w.reserve p).2.queueUp (w.reserve p).1)

theorem holds_enlist (t : Turns) (k : Path.Key) {τ : Turn} (hτ : τ.id < t.nextTurn) (h : (t.enlist k).2.holds τ = true) :
    t.holds τ = true := by
  by_cases e : (t.enlist k).1.lock = τ.lock
  · simp only [Turns.holds, decide_eq_true_eq] at *
    rw [← e, Turns.lock_enlist_self] at h
    cases hs : t.slots.get? k with
    | none =>
      rw [hs] at h
      exact absurd (Option.some.inj h) hτ.ne'
    | some s =>
      rw [Turns.enlist_lock, hs] at e
      rw [hs] at h
      simp only [Turns.Lock.holder_join, Option.some.injEq] at h
      cases hl : (t.lock s.lock).holder with
      | none =>
        rw [hl] at h
        exact absurd h hτ.ne'
      | some x =>
        rw [hl] at h
        rw [← e, hl, ← h]
        rfl
  · simp only [Turns.holds] at *
    rwa [Turns.lock_enlist_of_ne t k e] at h

theorem World.Reserved.congr (h : w.Reserved) (ht : w'.tasks = w.tasks) (hτ : w'.turns = w.turns) : w'.Reserved := by
  intro id p τ hp
  rw [ht] at hp
  rw [hτ]
  exact h id p τ hp

theorem ripple_enlist (h : w.Reserved) (p : Path) : Ripple w (w.enlist p).2 := by
  refine ⟨.refl _, fun _ id q hq hw => Or.inl ⟨hw.something, fun τ hτ e => ?_, hw.signal⟩, .refl _⟩
  rw [Bool.eq_false_iff]
  intro hh
  have := holds_enlist w.turns p.key (h id q τ hq hτ) hh
  exact absurd (hw.turn τ hτ e) (by simp [this])

theorem ripple_inBackground (w : World) (r : Request) (hr : r ≠ .shutDown) : Ripple w (w.inBackground r) := by
  unfold World.inBackground
  split
  · exact .refl w
  · rename_i pool _
    have h1 : Ripple w { w with pool } := .rest rfl rfl rfl (.refl _)
    have h2 := h1.trans (ripple_wake _ .quiet)
    exact h2.trans (ripple_spawn _ _ (by cases r <;> first | rfl | exact absurd rfl hr) rfl)

/-! ## The core after the small operations -/

@[simp] theorem core_cancelIf (w : World) (id : Option TaskId) : (w.cancelIf id).core = w.core := by cases id <;> rfl

@[simp] theorem core_giveIf (w : World) (x : Option SignalId) : (w.giveIf x).core = w.core.giveIf x := by cases x <;> rfl

@[simp] theorem core_giveBack (w : World) (τ : Turn) : (w.giveBack τ).core = w.core.giveBack τ := by
  cases hn : (w.turns.giveBack τ).2 <;> simp only [World.giveBack, hn] <;> rfl

@[simp] theorem core_enlist (w : World) (p : Path) : (w.enlist p).2.core = w.core.enlist p := rfl

@[simp] theorem core_setEntry (w : World) (p : Path) (e : Entry) : (w.setEntry p e).core = w.core.setEntry p e := rfl

@[simp] theorem core_inBackground (w : World) (r : Request) : (w.inBackground r).core = w.core := by
  unfold World.inBackground
  split <;> rfl

@[simp] theorem core_broadcast (w : World) (x : Snapshot) : (w.broadcast x).core = w.core := by
  unfold World.broadcast
  split <;> rfl

theorem ripple_broadcast (w : World) (x : Snapshot) : Ripple w (w.broadcast x) := by
  unfold World.broadcast
  split
  · exact .refl w
  · exact .rest rfl rfl rfl (.refl _)

/-! ## Building up a section -/

variable {σ α : Type} {E : Mark → Prop} {s s' s'' : Stake}

/-- what happens in a part of a section: effects of the task, and their ripple -/
structure Does (E : Mark → Prop) (w : World) (s : Stake) (w' : World) (s' : Stake) : Prop where
  effects : Effects E w.core s w'.core s'
  ripple : Ripple w w'

theorem Does.refl (w : World) (s : Stake) : Does E w s w s := ⟨.refl _ _, .refl w⟩

theorem Does.trans (h : Does E w s w' s') (h' : Does E w' s' w'' s'') : Does E w s w'' s'' :=
  ⟨h.effects.trans h'.effects, h.ripple.trans h'.ripple⟩

/-- a single effect -/
theorem Does.effect {c : Core} (h : Effect E w.core s c s') (hc : w'.core = c) (hr : Ripple w w') : Does E w s w' s' :=
  ⟨by rw [hc]; exact .single h, hr⟩

/-- nothing that the protocol sees -/
theorem Does.aside (hc : w'.core = w.core) (hr : Ripple w w') : Does E w s w' s := ⟨by rw [hc]; exact .refl _ _, hr⟩

theorem Does.then (h : Does E w s w' s') (hc : w''.core = w'.core) (hr : Ripple w' w'') : Does E w s w'' s' :=
  h.trans (.aside hc hr)

/-- what the protocol sees of a phase: the event that it waits for, and its stake -/
abbrev View (σ : Type) := σ → Await × Stake

/-- the stake of a task after a section; `d` if it has ended -/
def Section.stake (view : View σ) (d : Stake) (x : Section σ α) : Stake := (x.next.map fun p => (view p).2).getD d

/-- what is proved of a section -/
structure Runs (E : Mark → Prop) (w : World) (s : Stake) (view : View σ) (d : Stake) (r : World × Section σ α) : Prop where
  does : Does E w s r.1 (Section.stake view d r.2)
  waits : ∀ x, r.2 = .wait x → Waits r.1 (view x).1 (view x).2.errand.turn?

variable {view : View σ} {d : Stake}

theorem Runs.ended {a : α} (h : Does E w s w' d) : Runs E w s view d (w', .ended a) := ⟨h, by simp⟩

theorem Runs.go {p : σ} (h : Does E w s w' (view p).2) : Runs (α := α) E w s view d (w', .go p) :=
  ⟨h, by simp⟩

theorem Runs.pause {p : σ} (h : Does E w s w' (view p).2) : Runs (α := α) E w s view d (w', .pause p) :=
  ⟨h, by simp⟩

theorem Runs.wait {p : σ} (h : Does E w s w' (view p).2) (hw : Waits w' (view p).1 (view p).2.errand.turn?) :
    Runs (α := α) E w s view d (w', .wait p) := ⟨h, fun _ e => by cases e; exact hw⟩

theorem Runs.after {r : World × Section σ α} (h : Does E w s w' s') (h' : Runs E w' s' view d r) :
    Runs E w s view d r := ⟨h.trans h'.does, h'.waits⟩

/-- waiting for something that is neither a turn nor a signal -/
theorem waits_event {a : Await} (hn : a ≠ .nothing) (ht : ∀ id, a ≠ .turn id) (hs : ∀ x, a ≠ .signal x)
    (turn : Option Turn) : Waits w a turn :=
  ⟨hn, fun τ _ e => absurd e (ht τ.id), fun x e => absurd e (hs x)⟩

theorem waits_gate (w : World) (g : GateId) (turn : Option Turn) : Waits w (.gate g) turn :=
  waits_event (by simp) (by simp) (by simp) turn

theorem waits_quiet (w : World) (turn : Option Turn) : Waits w .quiet turn :=
  waits_event (by simp) (by simp) (by simp) turn

theorem waits_turn {τ : Turn} (h : w.turns.holds τ = false) : Waits w (.turn τ.id) (some τ) :=
  ⟨by simp, fun _ hσ _ => Option.some.inj hσ ▸ h, by simp⟩

theorem waits_signal {x : SignalId} (h : w.signals.isGiven x = false) (turn : Option Turn) : Waits w (.signal x) turn :=
  ⟨by simp, by simp, fun _ e => Await.signal.inj e ▸ h⟩

/-! ### Calls to the disk -/

theorem runs_atGate {k : Call → σ} (hk : ∀ c, view (k c) = (Call.awaits c, s)) (g : GateId) :
    Runs (α := α) E w s view d (w.atGate g k) := by
  unfold World.atGate
  split
  · exact .pause (by rw [hk]; exact .refl w s)
  · exact .wait (by rw [hk]; exact .refl w s) (by rw [hk]; exact waits_gate w g _)

theorem runs_beginCall {k : Call → σ} (hk : ∀ c, view (k c) = (Call.awaits c, s)) (op : DiskOp) (p : Path) :
    Runs (α := α) E w s view d (w.beginCall op p k) := by
  have hd : Does E w s { w with disk := (w.disk.enter op p).1 } s :=
    .aside rfl (.rest rfl rfl rfl (Disk.later_enter _ op p))
  unfold World.beginCall
  simp only
  split
  · split
    · exact .pause (by rw [hk]; exact hd)
    · exact .wait (by rw [hk]; exact hd) (by rw [hk]; exact waits_gate _ _ _)
  · exact .pause (by rw [hk]; exact hd)

theorem does_leaveDisk (w : World) (p : Path) (s : Stake) : Does E w s (w.leaveDisk p) s :=
  .aside rfl (.rest rfl rfl rfl (Disk.later_leave _ p))

end LiveFiles.Engine
