/-
Writes and reconciliations that fail, or are cancelled. None of their sections has changed what is known of a file, who counts or
what has been delivered (`Intact`), and what they have taken is released when they end (`Released`).
- `Operating.next`, `Operating.keeps`: an operation goes on as one, and keeps what it has taken.
- `Operating.front_onward`, `Operating.front_own`: as long as it has not succeeded, it leaves the front as it is.
- `left_of_section`: a task that has had a turn and has it no more is in line nowhere.
- `World.Fails.intact`, `World.Fails.released`, `World.Fails.untouched`: what the section does with which an operation fails.
- `makesUp_of_carried`: a write that has failed starts a reconciliation if it has revoked one, and nothing else.
- **`failures_trace`**: so in every run, operations that fail leave nothing behind (`FailsCleanly`).
-/
import LiveFiles.Proofs.Gatherings

namespace LiveFiles.Engine

variable {w w' : World} {m : Move} {id i j : TaskId} {t : Task Phase} {a b : Activity} {p q : Path} {e : Problem} {r r' : Refresh}
  {y : Save} {job : SaveJob} {l : Look} {τ : Turn} {s : SignalId} {seat : Seat}

/-! ## What is left as it is -/

/-- what is said of each file is the same, as many subscribers count everywhere, and nothing has been delivered -/
structure Intact (w w' : World) : Prop where
  /-- no entry has been made or dropped, either -/
  known : ∀ p, (w'.entry? p).map Entry.known = (w.entry? p).map Entry.known
  counts : ∀ p, w'.subscriberCount p = w.subscriberCount p
  channels : w'.channels = w.channels

theorem entry?_map_version (w : World) (p : Path) : (w.entry? p).map Entry.version? = (w.front.face? p.key).map Face.version := by
  rw [World.front, Option.map_map]
  rfl

theorem subscriberCount_of_front (w : World) (p : Path) :
    w.subscriberCount p = ((w.front.face? p.key).map Face.count).getD 0 := by
  rw [World.front, Option.map_map]
  rfl

/-- an entry that shows a text says what it shows, and one that shows none says nothing -/
theorem known_of_versions (hd : w.Dateless) (hd' : w'.Dateless)
    (hv : ∀ k, (w'.front.face? k).map Face.version = (w.front.face? k).map Face.version) (p : Path) :
    (w'.entry? p).map Entry.known = (w.entry? p).map Entry.known := by
  have hversions := (entry?_map_version w' p).trans ((hv p.key).trans (entry?_map_version w p).symm)
  cases he : w.entry? p with
  | none =>
    rw [he] at hversions
    rw [Option.map_eq_none_iff.1 hversions]
  | some e =>
    rw [he] at hversions
    obtain ⟨e', he', hversion⟩ := Option.map_eq_some_iff.1 hversions
    rw [he', Option.map_some, Option.map_some]
    congr 1
    cases ht : e.contents with
    | none =>
      have ht' : e'.contents = none := by
        rw [Entry.version?, Entry.version?, ht] at hversion
        exact Option.map_eq_none_iff.1 hversion
      rw [hd p.key e he ht, hd' p.key e' he' ht']
    | some text =>
      rw [Entry.version?, Entry.version?, ht] at hversion
      obtain ⟨text', ht', hsame⟩ := Option.map_eq_some_iff.1 hversion
      obtain ⟨htext, hmodified, hexternal⟩ := Version.mk.inj hsame
      rw [Entry.known, Entry.known, ht, ht', htext, hmodified, hexternal]

/-- **Whatever leaves the front as it is leaves the cache intact.** -/
theorem intact_of_front (hd : w.Dateless) (hd' : w'.Dateless) (hf : w'.front = w.front) : Intact w w' where
  known p := known_of_versions hd hd' (fun k => by rw [hf]) p
  counts p := by rw [subscriberCount_of_front, subscriberCount_of_front, hf]
  channels := congrArg Front.channels hf

/-! ## Operations -/

/-- the phases of a write or a reconciliation: it is a task of its own, or the first reconciliation of a path, which a call to
watch runs -/
inductive Operating (p : Path) : Activity → Prop
  | write (bytes : ByteArray) : Operating p (.starting (.write p bytes))
  | reconcile : Operating p (.starting (.reconcile p))
  | saving (y : Save) (hp : y.job.path = p) : Operating p (.saving y)
  | refreshing (r : Refresh) (hp : r.path = p) : Operating p (.refreshing r)
  | first (seat : Seat) (r : Refresh) (hp : r.path = p) : Operating p (.synchronizing seat r)

/-- a call to watch is past its reconciliation -/
inductive Past : Activity → Prop
  | settling (seat : Seat) (x : Option SignalId) : Past (.settling seat x)
  | tearingDown (q : Path) (turn : Option Turn) (l : Leaving) : Past (.tearingDown q turn l)

theorem Past.not_operating (h : Past a) : ¬ Operating p a := by
  rintro (_ | _ | _ | _ | _) <;> cases h

/-- whoever is past a reconciliation does not come back to it -/
theorem Past.next (h : Past a) (hb : (w.step a).2.next = some b) : Past b := by
  cases h with
  | settling seat x =>
    simp only [World.step, World.stepSettling] at hb
    split at hb
    · cases hb
      exact .settling seat x
    · split at hb
      · cases hb
        exact .settling seat _
      · unfold World.register at hb
        split at hb <;> cases hb
  | tearingDown q turn l =>
    simp only [World.step, World.stepTearingDown] at hb
    rcases hx : w.awaitIdle q turn with ⟨w₁, turn' | turn' | turn' | u⟩ <;> rw [hx] at hb
    · cases hb
      exact .tearingDown q turn' l
    · cases hb
      exact .tearingDown q turn' l
    · cases hb
      exact .tearingDown q turn' l
    · dsimp only at hb
      split at hb <;> cases (next_endLeaving _ l).symm.trans hb

/-- what a first reconciliation goes on to -/
theorem next_stepSynchronizing (hb : (w.stepSynchronizing seat r).2.next = some b) :
    (∃ r', (w.stepRefresh r).2.next = some r' ∧ b = .synchronizing seat r') ∨ Past b := by
  unfold World.stepSynchronizing at hb
  rcases hx : w.stepRefresh r with ⟨w₁, r' | r' | r' | (e | o)⟩ <;> rw [hx] at hb
  · cases hb
    exact Or.inl ⟨r', rfl, rfl⟩
  · cases hb
    exact Or.inl ⟨r', rfl, rfl⟩
  · cases hb
    exact Or.inl ⟨r', rfl, rfl⟩
  · rcases next_releasePlace w₁ seat.path (.failed seat e) with hn | hn <;> cases hn.symm.trans hb
    exact Or.inr (.tearingDown _ _ _)
  · cases hb
    exact Or.inr (.settling seat none)

/-- **An operation goes on as one**, or the task is past it. -/
theorem Operating.next (h : Operating p a) (hb : (w.step a).2.next = some b) :
    (Operating p b ∧ ∀ x, b ≠ .starting x) ∨ Past b := by
  cases h with
  | write bytes =>
    rcases next_write w p bytes with hn | ⟨job, hp, -, hn⟩
    · cases hn.symm.trans hb
    · cases hn.symm.trans hb
      exact Or.inl ⟨.saving (.queued job) hp, fun x hx => by cases hx⟩
  | reconcile =>
    rw [World.step, World.begin, next_ofPart] at hb
    obtain ⟨r, hr, rfl⟩ := Option.map_eq_some_iff.1 hb
    unfold World.requestRefresh at hr
    split at hr <;> cases hr
    exact Or.inl ⟨.refreshing _ rfl, fun x hx => by cases hx⟩
  | saving y hp =>
    rw [World.step, next_ofPart] at hb
    obtain ⟨y', hy', rfl⟩ := Option.map_eq_some_iff.1 hb
    exact Or.inl ⟨.saving y' ((congrArg SaveJob.path (job_of_stepSave hy')).trans hp), fun x hx => by cases hx⟩
  | refreshing r hp =>
    rw [World.step, next_ofPart] at hb
    obtain ⟨r', hr', rfl⟩ := Option.map_eq_some_iff.1 hb
    exact Or.inl ⟨.refreshing r' ((path_stepRefresh hr').trans hp), fun x hx => by cases hx⟩
  | first seat r hp =>
    rcases next_stepSynchronizing hb with ⟨r', hr', rfl⟩ | hpast
    · exact Or.inl ⟨.first seat r' ((path_stepRefresh hr').trans hp), fun x hx => by cases hx⟩
    · exact Or.inr hpast

/-- a section of a reconciliation that does not bring it to a good end leaves the front as it is -/
theorem front_stepRefresh (hno : ∀ x, (w.stepRefresh r).2 ≠ .ended (.ok x)) : (w.stepRefresh r).1.front = w.front := by
  cases commits_stepRefresh w r with
  | not _ hv => exact hv
  | unseen _ hv => exact hv
  | commit f x hchanged hf hv => exact absurd hchanged (hno true)

/-- an operation that is a task of its own and does not succeed in a section leaves the front as it is -/
theorem Operating.front_own (h : Operating p a) (hown : a.seat? = none) (hno : ∀ o, (w.step a).2 ≠ .ended (.ok o)) :
    (w.step a).1.front = w.front := by
  cases h with
  | write bytes => exact (congrArg World.front (fst_ofPart _ _ _)).trans (front_requestSave w p bytes)
  | reconcile => exact (congrArg World.front (fst_ofPart _ _ _)).trans (front_requestRefresh w p)
  | saving y hp =>
    rw [World.step, fst_ofPart]
    cases commits_stepSave w y with
    | not _ hv => exact hv
    | unseen _ hv => exact hv
    | commit f x hsaved hf hv =>
      refine absurd ?_ (hno .nothing)
      rw [World.step]
      generalize w.stepSave y = out at hsaved
      obtain ⟨w₁, sect⟩ := out
      cases hsaved
      rfl
  | refreshing r hp =>
    rw [World.step, fst_ofPart]
    refine front_stepRefresh fun x hx => hno (.flag x) ?_
    rw [World.step]
    generalize w.stepRefresh r = out at hx
    obtain ⟨w₁, sect⟩ := out
    cases hx
    rfl
  | first seat r hp => cases hown

/-- **An operation that goes on leaves the front as it is.** -/
theorem Operating.front_onward (h : Operating p a) (hb : (w.step a).2.next = some b) (hb' : Operating p b) :
    (w.step a).1.front = w.front := by
  by_cases hown : a.seat? = none
  · refine h.front_own hown fun o ho => ?_
    rw [ho] at hb
    cases hb
  · cases h with
    | first seat r hp =>
      rcases next_stepSynchronizing hb with ⟨r', hr', rfl⟩ | hpast
      · have hstep : (w.step (.synchronizing seat r)).1 = (w.stepRefresh r).1 := by
          rw [World.step, World.stepSynchronizing]
          rcases hx : w.stepRefresh r with ⟨w₁, r' | r' | r' | o⟩
          · rfl
          · rfl
          · rfl
          · rw [hx] at hr'
            cases hr'
        rw [hstep]
        refine front_stepRefresh fun x hx => ?_
        rw [hx] at hr'
        cases hr'
      · exact absurd hb' hpast.not_operating
    | _ => exact absurd rfl hown

/-! ## What an operation takes -/

/-- the signal that an operation has taken over: of the reconciliation that it carries out, or of the one that it has revoked -/
def Activity.takes? : Activity → Option SignalId
  | .refreshing r | .synchronizing _ r => r.look?.bind Look.signal
  | .saving y => y.job.waiters
  | _ => none

/-- What the operation of a task in this phase has taken is released: it has no turn any more, and whoever waits for it is told. -/
structure Released (a : Activity) (w : World) : Prop where
  turn : ∀ τ, a.stake.errand.turn? = some τ → ¬ w.turns.InLine τ.key τ
  signal : ∀ s, a.takes? = some s → w.signals.isGiven s = true

/-- what the operation of a task in the one phase has taken, it still has in the other -/
structure Keeps (a b : Activity) : Prop where
  turn : ∀ τ, a.stake.errand.turn? = some τ → b.stake.errand.turn? = some τ
  signal : ∀ s, a.takes? = some s → b.takes? = some s

theorem Keeps.refl (a : Activity) : Keeps a a := ⟨fun _ h => h, fun _ h => h⟩

theorem Keeps.trans {c : Activity} (h : Keeps a b) (h' : Keeps b c) : Keeps a c :=
  ⟨fun τ hτ => h'.turn τ (h.turn τ hτ), fun s hs => h'.signal s (h.signal s hs)⟩

theorem Released.of_keeps (hk : Keeps a b) (h : Released b w) : Released a w :=
  ⟨fun τ hτ => h.turn τ (hk.turn τ hτ), fun s hs => h.signal s (hk.signal s hs)⟩

/-- a reconciliation keeps its turn, and what it has found in the entry -/
theorem taken_stepRefresh (h : (w.stepRefresh r).2.next = some r') :
    r'.errand.turn? = r.errand.turn? ∧ ∀ l, r.look? = some l → r'.look? = some l := by
  cases onward_stepRefresh h with
  | inLine => exact ⟨rfl, fun _ hl => hl⟩
  | taken p q τ l c hp hτ => exact ⟨congrArg some hτ, fun _ hl => by cases hl⟩
  | looking => exact ⟨rfl, fun _ hl => hl⟩
  | reads => exact ⟨rfl, fun _ hl => hl⟩
  | reading => exact ⟨rfl, fun _ hl => hl⟩
  | fails => exact ⟨rfl, fun _ hl => hl⟩
  | lookingAgain => exact ⟨rfl, fun _ hl => hl⟩

theorem keeps_stepRefresh (h : (w.stepRefresh r).2.next = some r') : Keeps (.refreshing r) (.refreshing r') := by
  obtain ⟨hturn, hlook⟩ := taken_stepRefresh h
  constructor
  · exact fun τ hτ => hturn.trans hτ
  · intro s hs
    obtain ⟨l, hl, hsignal⟩ := Option.bind_eq_some_iff.1 hs
    exact Option.bind_eq_some_iff.2 ⟨l, hlook l hl, hsignal⟩

theorem keeps_stepSave {y' : Save} (h : (w.stepSave y).2.next = some y') : Keeps (.saving y) (.saving y') := by
  have hjob := job_of_stepSave h
  have hturn : ∀ z : Save, (Activity.saving z).stake.errand.turn? = some z.job.turn := fun z => by cases z <;> rfl
  constructor
  · intro τ hτ
    rw [hturn] at hτ ⊢
    rw [hjob, hτ]
  · exact fun s hs => (congrArg SaveJob.waiters hjob).trans hs

/-- **An operation that goes on keeps what it has taken.** -/
theorem Operating.keeps (h : Operating p a) (hb : (w.step a).2.next = some b) (hb' : Operating p b) : Keeps a b := by
  cases h with
  | write bytes => exact ⟨fun _ hτ => (by cases hτ), fun _ hs => (by cases hs)⟩
  | reconcile => exact ⟨fun _ hτ => (by cases hτ), fun _ hs => (by cases hs)⟩
  | saving y hp =>
    rw [World.step, next_ofPart] at hb
    obtain ⟨y', hy', rfl⟩ := Option.map_eq_some_iff.1 hb
    exact keeps_stepSave hy'
  | refreshing r hp =>
    rw [World.step, next_ofPart] at hb
    obtain ⟨r', hr', rfl⟩ := Option.map_eq_some_iff.1 hb
    exact keeps_stepRefresh hr'
  | first seat r hp =>
    rcases next_stepSynchronizing hb with ⟨r', hr', rfl⟩ | hpast
    · obtain ⟨hturn, hsignal⟩ := keeps_stepRefresh hr'
      exact ⟨hturn, hsignal⟩
    · exact absurd hb' hpast.not_operating

/-! ## How an operation fails -/

/-- a request to write that has been made revokes the reconciliation that is pending -/
def World.revokes (w : World) (p : Path) : Bool := !w.isShutDown && (w.entry? p).any fun e => e.pendingQuery.isSome

/-- **A write knows whether it has revoked a reconciliation.** -/
theorem requestSave_cases (w : World) (p : Path) (bytes : ByteArray) :
    (∃ e, w.requestSave p bytes = (w, .ended (.error e)) ∧ w.revokes p = false) ∨
      ∃ job : SaveJob, (w.requestSave p bytes).2 = .go (.queued job) ∧ job.path = p ∧ job.revoked = w.revokes p := by
  unfold World.requestSave World.revokes
  split
  · rename_i hdown
    exact Or.inl ⟨_, rfl, by rw [hdown]; rfl⟩
  · rename_i hdown
    rw [Bool.eq_false_iff.2 hdown]
    cases he : w.entry? p with
    | none =>
      dsimp only
      split
      · exact Or.inl ⟨_, rfl, rfl⟩
      · exact Or.inr ⟨_, rfl, rfl, rfl⟩
    | some e =>
      refine Or.inr ⟨_, rfl, rfl, ?_⟩
      have hrevoke : (World.revoke e).1 = e.pendingQuery.isSome := by
        unfold World.revoke
        cases e.pendingQuery <;> rfl
      exact hrevoke

/-- a reconciliation that fails has the lock, and gives back what it has taken -/
theorem core_of_failed (h : (w.stepRefresh r).2 = .ended (.error e)) :
    ∃ l, r.look? = some l ∧ (w.stepRefresh r).1.core = (w.core.giveIf l.signal).giveBack l.turn := by
  obtain ⟨l, f, -, hl, hstep, -⟩ := stepRefresh_of_error h
  refine ⟨l, hl, ?_⟩
  rw [hstep, World.endLook, core_giveBack, core_giveIf]
  rfl

/-- the end of a write that has failed, after whatever the disk has done -/
theorem stepSave_of_failed (h : (w.stepSave y).2 = .ended (.error e)) :
    ∃ d : Disk, (w.stepSave y).1 = ({ w with disk := d }.failSave y.job e).1 := by
  obtain ⟨job, d, hstep, hy⟩ := stepSave_of_error h
  have hjob : y.job = job := by
    rcases hy with ⟨-, -, ⟨rfl, -⟩ | ⟨rfl, -⟩⟩ | ⟨-, rfl, -⟩ <;> rfl
  exact ⟨d, hjob ▸ congrArg Prod.fst hstep⟩

theorem signals_failSave (w : World) (job : SaveJob) (e : Problem) :
    (w.failSave job e).1.core.signals = (w.core.giveIf job.waiters).signals := by
  have hgiven : World.core ((w.giveBack job.turn).giveIf job.waiters) = (w.core.giveBack job.turn).giveIf job.waiters := by
    rw [core_giveIf, core_giveBack]
  have hsame : ((w.core.giveBack job.turn).giveIf job.waiters).signals = (w.core.giveIf job.waiters).signals := by
    cases job.waiters <;> rfl
  unfold World.failSave
  dsimp only
  split
  · rw [core_inBackground]
    exact (congrArg Core.signals hgiven).trans hsame
  · exact (congrArg Core.signals hgiven).trans hsame

theorem given_releasePlace (w : World) (q : Path) (seat : Seat) (e : Problem) (h : w.signals.isGiven s = true) :
    (w.releasePlace q (.failed seat e)).1.signals.isGiven s = true := by
  have hend : ∀ w₁ : World, w₁.signals = w.signals → (w₁.endLeaving (.failed seat e)).1.signals.isGiven s = true := by
    intro w₁ h₁
    change (w₁.signals.give seat.joined).isGiven s = true
    rw [Signals.isGiven_give, h₁, h, Bool.or_true]
  unfold World.releasePlace
  split
  · exact hend w rfl
  · dsimp only
    split
    · split <;> exact h
    · exact hend _ rfl

theorem given_of_failed (he : (w.stepRefresh r).2 = .ended (.error e)) (hs : r.look?.bind Look.signal = some s) :
    (w.stepRefresh r).1.core.signals.isGiven s = true := by
  obtain ⟨l, hl, hcore⟩ := core_of_failed he
  have hsignal : l.signal = some s := by
    rw [hl] at hs
    exact hs
  rw [hcore]
  change (w.core.giveIf l.signal).signals.isGiven s = true
  rw [isGiven_giveIf, hsignal]
  simp

/-- **An operation that is a task of its own and fails gives the signal that it has taken over.** -/
theorem Operating.given (h : Operating p a) (hown : a.seat? = none) (he : (w.step a).2 = .ended (.error e))
    (hs : a.takes? = some s) : (w.step a).1.core.signals.isGiven s = true := by
  cases h with
  | write bytes => cases hs
  | reconcile => cases hs
  | saving y hp =>
    obtain ⟨d, hstep⟩ := stepSave_of_failed (ofPart_eq_error he)
    have hwaiters : y.job.waiters = some s := hs
    rw [World.step, fst_ofPart, hstep, signals_failSave, isGiven_giveIf, hwaiters]
    simp
  | refreshing r hp =>
    rw [World.step, fst_ofPart]
    exact given_of_failed (ofPart_eq_error he) hs
  | first seat r hp => cases hown

/-- what a first reconciliation that fails leaves to the call to watch -/
theorem stepSynchronizing_of_failed (he : (w.stepRefresh r).2 = .ended (.error e)) :
    w.stepSynchronizing seat r = (w.stepRefresh r).1.releasePlace seat.path (.failed seat e) := by
  unfold World.stepSynchronizing
  generalize w.stepRefresh r = out at he
  obtain ⟨w₁, sect⟩ := out
  cases he
  rfl

/-- a task that is cancelled gives the signal that its operation has taken over -/
theorem given_abandon (hs : a.takes? = some s) : (w.abandon a).core.signals.isGiven s = true := by
  have hgive : ∀ (c : Core) (x : Option SignalId), x = some s → (c.giveIf x).signals.isGiven s = true := by
    rintro c x rfl
    rw [isGiven_giveIf]
    simp
  have hdrop : ∀ r : Refresh, r.look?.bind Look.signal = some s → (w.dropRefresh r).core.signals.isGiven s = true := by
    intro r hr
    obtain ⟨l, hl, hsignal⟩ := Option.bind_eq_some_iff.1 hr
    cases r with
    | queued p q τ => cases hl
    | looking l' c =>
      cases hl
      simp only [World.dropRefresh, core_giveBack, core_giveIf, Core.giveBack]
      exact hgive _ _ hsignal
    | reading l' date c =>
      cases hl
      simp only [World.dropRefresh, core_giveBack, core_giveIf, Core.giveBack]
      exact hgive _ _ hsignal
    | lookingAgain l' f c =>
      cases hl
      simp only [World.dropRefresh, core_giveBack, core_giveIf, Core.giveBack]
      exact hgive _ _ hsignal
  cases a with
  | refreshing r => exact hdrop r hs
  | saving y =>
    cases y with
    | queued job =>
      simp only [World.abandon, World.dropSave, core_giveIf]
      exact hgive _ _ hs
    | writing job c =>
      simp only [World.abandon, World.dropSave, core_giveIf]
      exact hgive _ _ hs
    | looking job c =>
      simp only [World.abandon, World.dropSave, core_giveIf]
      exact hgive _ _ hs
  | synchronizing seat r =>
    simp only [World.abandon, World.abandonSeat, core_inBackground]
    have hgiven := hdrop r hs
    change ((w.dropRefresh r).signals.give seat.joined).isGiven s = true
    rw [Signals.isGiven_give]
    change (_ || (w.dropRefresh r).core.signals.isGiven s) = true
    rw [hgiven, Bool.or_true]
  | _ => cases hs

/-- **A task that has had a turn and has ended is in line nowhere.** -/
theorem left_of_section (hw : Wf w) (hw' : Wf (w.move m)) (hm : w.serves m id = true) {ph : Phase}
    (hph : w.tasks.phase? id = some ph) (hτ : ph.activity.stake.errand.turn? = some τ)
    (hafter : ∀ ph', (w.move m).tasks.phase? id = some ph' → ph'.activity.stake.errand.turn? = none) :
    ¬ (w.move m).turns.InLine τ.key τ := by
  rintro ⟨slot, hslot, hlock, hmem⟩
  rw [← hlock] at hmem
  obtain ⟨j, τ', hj, -, hid⟩ := (hw'.sound.turns.mem_line _ _ hslot τ.id).1 hmem
  have hheld : held w.stakes id = some τ := by
    rw [held, stakes_of_phase hph]
    exact hτ
  cases hnew : (w.move m).tasks.phase? j with
  | none =>
    rw [held, stakes_of_none hnew] at hj
    cases hj
  | some ph' =>
    rw [held, stakes_of_phase hnew] at hj
    have hother : j ≠ id := by
      rintro rfl
      cases hj.symm.trans (hafter ph' hnew)
    rcases phase?_cases hw hnew with hsame | ⟨-, hnewcomer⟩ | ⟨a, hcarry, -⟩
    · have hheld' : held w.stakes j = some τ' := by
        rw [held, stakes_of_phase hsame]
        exact hj
      exact hother (hw.sound.turns.inj j id τ' τ hheld' hheld hid)
    · have hnothing : ph'.activity.stake.errand.turn? = none := by
        rcases hnewcomer.cases with ⟨y, ha, -⟩ | ⟨q, x, ha⟩ | ⟨x, ha⟩
        · rw [ha]
          cases y <;> rfl
        · rw [ha]
          rfl
        · rw [ha]
          rfl
      cases hj.symm.trans hnothing
    · obtain ⟨-, hturn, -, -, -⟩ := carried?_eq_some.1 hcarry
      cases hturn.symm.trans (serves_iff.1 hm).1
      exact hother rfl

/-! ## In a move -/

/-- How an operation ends in a move without having succeeded. -/
inductive World.Fails (w : World) (m : Move) (id : TaskId) (p : Path) : Option Problem → Prop
  /-- the task ends with the error -/
  | error (a : Activity) (e : Problem) (ha : Operating p a) (hown : a.seat? = none) (hcarry : w.carried? m = some (id, a))
      (he : ((floorTo w id).step a).2 = .ended (.error e)) : w.Fails m id p (some e)
  /-- the first reconciliation of a path ends with the error, and the call to watch gives its place back -/
  | first (seat : Seat) (r : Refresh) (e : Problem) (hp : r.path = p) (hcarry : w.carried? m = some (id, .synchronizing seat r))
      (he : ((floorTo w id).stepRefresh r).2 = .ended (.error e)) : w.Fails m id p (some e)
  | cancelled (t : Task Phase) (hm : m = .turn id) (ha : Operating p t.phase.activity) (hs : w.served? id = some t)
      (hc : t.cancelled = true) : w.Fails m id p none

/-- a call to watch gives its place back because its reconciliation has failed -/
def World.GivesUp (w : World) (m : Move) (id : TaskId) : Prop :=
  ∃ seat r e, w.carried? m = some (id, .synchronizing seat r) ∧ ((floorTo w id).stepRefresh r).2 = .ended (.error e)

theorem front_of_carried (hcarry : w.carried? m = some (id, a)) : (w.move m).front = ((floorTo w id).step a).1.front := by
  obtain ⟨t, rfl, hs, hc, rfl⟩ := carried?_eq_some.1 hcarry
  exact front_serve hs hc

theorem signals_of_carried (hcarry : w.carried? m = some (id, a)) :
    (w.move m).signals = ((floorTo w id).step a).1.signals :=
  congrArg Core.signals (core_of_carried hcarry)

variable {x : Option Problem}

theorem World.Fails.operating (h : w.Fails m id p x) : ∃ ph, w.tasks.phase? id = some ph ∧ Operating p ph.activity := by
  cases h with
  | error a e ha hown hcarry he =>
    obtain ⟨ρ, hph⟩ := phase?_carried hcarry
    exact ⟨_, hph, ha⟩
  | first seat r e hp hcarry he =>
    obtain ⟨ρ, hph⟩ := phase?_carried hcarry
    exact ⟨_, hph, .first seat r hp⟩
  | cancelled t hm ha hs hc => exact ⟨t.phase, phase?_of_served hs, ha⟩

theorem World.Fails.serves (h : w.Fails m id p x) : w.serves m id = true := by
  cases h with
  | error a e ha hown hcarry he =>
    obtain ⟨t, rfl, hs, -, -⟩ := carried?_eq_some.1 hcarry
    exact serves_iff.2 ⟨rfl, (served?_eq_some hs).1⟩
  | first seat r e hp hcarry he =>
    obtain ⟨t, rfl, hs, -, -⟩ := carried?_eq_some.1 hcarry
    exact serves_iff.2 ⟨rfl, (served?_eq_some hs).1⟩
  | cancelled t hm ha hs hc => exact serves_iff.2 ⟨hm, (served?_eq_some hs).1⟩

/-- giving up its seat, a call to watch leaves versions and counts as they are -/
theorem unseat_face (v : Front) (seat : Seat) (k : Path.Key) :
    ((v.unseat seat).face? k).map Face.version = (v.face? k).map Face.version ∧
      ((v.unseat seat).face? k).map Face.count = (v.face? k).map Face.count := by
  have hsame : ∀ f : Face, (f.unseat seat.subscriber seat.joined).version = f.version ∧
      (f.unseat seat.subscriber seat.joined).count = f.count := by
    intro f
    unfold Face.unseat
    split <;> exact ⟨rfl, rfl⟩
  rw [Front.face?_unseat]
  split
  · cases v.face? k with
    | none => exact ⟨rfl, rfl⟩
    | some f => exact ⟨congrArg some (hsame f).1, congrArg some (hsame f).2⟩
  · exact ⟨rfl, rfl⟩

/-- **A move in which an operation fails leaves the cache intact**, but for the place that a call to watch gives back. -/
theorem World.Fails.intact (hd : w.Dateless) (hd' : (w.move m).Dateless) (h : w.Fails m id p x) (hno : ¬ w.GivesUp m id) :
    Intact w (w.move m) := by
  cases h with
  | error a e ha hown hcarry he =>
    refine intact_of_front hd hd' ((front_of_carried hcarry).trans ?_)
    have hstep := ha.front_own (w := floorTo w id) hown fun o ho => by
      rw [ho] at he
      cases he
    exact hstep.trans (front_floorTo w id)
  | first seat r e hp hcarry he => exact absurd ⟨seat, r, e, hcarry, he⟩ hno
  | cancelled t hm ha hs hc =>
    subst hm
    have hfront := front_cancelled hs hc
    cases hseat : t.phase.activity.seat? with
    | none =>
      rw [hseat] at hfront
      exact intact_of_front hd hd' hfront
    | some seat =>
      rw [hseat] at hfront
      have hfaces : (w.move (.turn id)).front.face? = (w.front.unseat seat).face? := congrArg Front.face? hfront
      refine ⟨known_of_versions hd hd' fun k => ?_, fun q => ?_, congrArg Front.channels hfront⟩
      · rw [hfaces]
        exact (unseat_face w.front seat k).1
      · rw [subscriberCount_of_front, subscriberCount_of_front, hfaces, (unseat_face w.front seat q.key).2]

/-- what a task that goes on has at stake, it has after the section too -/
theorem World.Fails.released (hw : Wf w) (hw' : Wf (w.move m)) (h : w.Fails m id p x) {ph : Phase}
    (hph : w.tasks.phase? id = some ph) : Released ph.activity (w.move m) := by
  have hserves := h.serves
  cases h with
  | error a e ha hown hcarry he =>
    obtain ⟨t, -, hs, -, rfl⟩ := carried?_eq_some.1 hcarry
    cases hph.symm.trans (phase?_of_served hs)
    constructor
    · intro τ hτ
      refine left_of_section hw hw' hserves hph hτ fun ph' hph' => ?_
      have hgone := phase?_of_carried hw hcarry
      rw [he, hph'] at hgone
      cases hgone
    · intro s hs
      rw [signals_of_carried hcarry]
      exact ha.given hown he hs
  | first seat r e hp hcarry he =>
    obtain ⟨t, -, hs, -, ha⟩ := carried?_eq_some.1 hcarry
    cases hph.symm.trans (phase?_of_served hs)
    have hstep : (floorTo w id).step (.synchronizing seat r) = _ := stepSynchronizing_of_failed he
    constructor
    · intro τ hτ
      refine left_of_section hw hw' hserves hph hτ fun ph' hph' => ?_
      have hnext := phase?_of_carried hw hcarry
      rw [hstep, hph'] at hnext
      rcases next_releasePlace ((floorTo w id).stepRefresh r).1 seat.path (.failed seat e) with hn | hn
      · cases hnext.trans hn
      · have hact : ph'.activity = _ := Option.some.inj (hnext.trans hn)
        rw [hact]
        rfl
    · intro s hs
      rw [signals_of_carried hcarry, hstep]
      rw [ha] at hs
      exact given_releasePlace _ _ _ _ (given_of_failed he hs)
  | cancelled t hm ha hs hc =>
    subst hm
    cases hph.symm.trans (phase?_of_served hs)
    constructor
    · intro τ hτ
      refine left_of_section hw hw' hserves hph hτ fun ph' hph' => ?_
      cases (phase?_serve_of_cancelled hw hs hc).symm.trans hph'
    · intro s hs'
      have hcore : (serve w id).core = _ := (congrArg World.core (serve_of_cancelled hs hc)).trans (core_finish _ id _ _)
      have hsignals : (w.move (.turn id)).signals = _ := congrArg Core.signals hcore
      rw [hsignals]
      exact given_abandon hs'

/-- the place that is given back changes nothing that is known of a file -/
theorem known_releasePlace (w : World) (q : Path) (seat : Seat) (e : Problem) (q' : Path) :
    (World.entry? (w.releasePlace q (.failed seat e)).1 q').map Entry.known = (w.entry? q').map Entry.known ∧
      (w.releasePlace q (.failed seat e)).1.channels = w.channels := by
  have hend : ∀ (w₁ : World), (∀ k, (w₁.entries.get? k).map Entry.known = (w.entries.get? k).map Entry.known) →
      w₁.channels = w.channels → (World.entry? (w₁.endLeaving (.failed seat e)).1 q').map Entry.known = (w.entry? q').map Entry.known ∧
        (w₁.endLeaving (.failed seat e)).1.channels = w.channels := by
    intro w₁ h₁ hc
    refine ⟨?_, hc⟩
    refine Eq.trans ?_ (h₁ q'.key)
    change ((w₁.entries.modify seat.path.key _).get? q'.key).map Entry.known = _
    rw [Table.get?_modify]
    split
    · cases w₁.entries.get? q'.key with
      | none => rfl
      | some e₁ =>
        simp only [Option.map_some]
        split <;> rfl
    · rfl
  unfold World.releasePlace
  cases he : w.entry? q with
  | none => exact hend w (fun _ => rfl) rfl
  | some e₁ =>
    have hset : ∀ e₂ : Entry, e₂.known = e₁.known → ∀ k,
        ((w.entries.insert q.key e₂).get? k).map Entry.known = (w.entries.get? k).map Entry.known := by
      intro e₂ h₂ k
      rw [Table.get?_insert]
      split
      · rename_i hk
        have he' : w.entries.get? q.key = some e₁ := he
        rw [← hk, he']
        exact congrArg some h₂
      · rfl
    dsimp only
    split
    · split
      · exact ⟨hset { e₁ with count := e₁.count - 1, armed := false } rfl q'.key, rfl⟩
      · exact ⟨hset { e₁ with count := e₁.count - 1, armed := false } rfl q'.key, rfl⟩
    · exact hend _ (hset _ rfl) rfl

/-- **A reconciliation that fails on behalf of a call to watch changes nothing itself**, and that call then gives its place back. -/
theorem first_of_failed (hd : w.Dateless) (hcarry : w.carried? m = some (id, .synchronizing seat r))
    (he : ((floorTo w id).stepRefresh r).2 = .ended (.error e)) :
    Intact w ((floorTo w id).stepRefresh r).1 ∧
      (∀ q, (World.entry? (w.move m) q).map Entry.known = (w.entry? q).map Entry.known) ∧ (w.move m).channels = w.channels := by
  have hfront : ((floorTo w id).stepRefresh r).1.front = w.front := by
    rw [front_stepRefresh, front_floorTo]
    intro x hx
    rw [he] at hx
    cases hx
  have hcore : World.entries ((floorTo w id).stepRefresh r).1 = w.entries := by
    obtain ⟨l, -, hcore⟩ := core_of_failed he
    have hgive : ∀ (c : Core) (x : Option SignalId), (c.giveIf x).entries = c.entries := fun c x => by cases x <;> rfl
    have hentries : World.entries ((floorTo w id).stepRefresh r).1 = _ := congrArg Core.entries hcore
    refine hentries.trans ((hgive _ _).trans ?_)
    exact congrArg Core.entries (core_floorTo w id)
  have hd₁ : World.Dateless ((floorTo w id).stepRefresh r).1 := fun k e₁ he₁ =>
    hd k e₁ ((congrArg (fun t : Table Path.Key Entry => t.get? k) hcore).symm.trans he₁)
  have hintact := intact_of_front hd hd₁ hfront
  have hstep : (floorTo w id).step (.synchronizing seat r) = _ := stepSynchronizing_of_failed he
  have hreleased := known_releasePlace ((floorTo w id).stepRefresh r).1 seat.path seat e
  refine ⟨hintact, fun q => ?_, ?_⟩
  · rw [entry_of_carried hcarry, hstep]
    exact (hreleased q).1.trans (hintact.known q)
  · have hchannels : (w.move m).channels = _ := congrArg Front.channels (front_of_carried hcarry)
    rw [hchannels, hstep]
    exact (hreleased seat.path).2.trans hintact.channels

/-- **A write that is refused touches neither the disk nor the cache.** -/
theorem World.Fails.untouched (h : w.Fails m id p (some e)) (he : e = .shutDown ∨ ∃ q, e = .unwatchedWrite q) :
    (∃ bytes, w.carried? m = some (id, .starting (.write p bytes))) ∧ (w.move m).disk = w.disk ∧ (w.move m).core = w.core := by
  have hother : ∀ f : Failure, e ≠ .other f := by
    rintro f rfl
    rcases he with he | ⟨q, he⟩ <;> cases he
  cases h with
  | error a e ha hown hcarry hfail =>
    have hblame := blame_step hfail
    cases ha with
    | write bytes =>
      refine ⟨⟨bytes, hcarry⟩, ?_⟩
      have hstep := ofPart_eq_error hfail
      obtain ⟨t, rfl, hs, hc, hact⟩ := carried?_eq_some.1 hcarry
      obtain ⟨hcore, hdisk⟩ := core_serve_of_section hs hc
      rw [hact, World.step, World.begin, fst_ofPart] at hcore hdisk
      rcases requestSave_cases (floorTo w id) p bytes with ⟨e', hreq, -⟩ | ⟨job, hreq, -, -⟩
      · rw [hreq] at hcore hdisk
        refine ⟨hdisk.trans ?_, hcore.trans (core_floorTo w id)⟩
        unfold floorTo
        split <;> rfl
      · cases hreq.symm.trans hstep
    | reconcile => cases hblame with
      | shutDown _ _ =>
        have hstep := ofPart_eq_error hfail
        unfold World.requestRefresh at hstep
        split at hstep <;> cases hstep
      | refresh r f hr => cases hr
      | save y e hy => cases hy
      | direct f ha => cases ha
    | saving y hp =>
      cases hblame with
      | refresh r f hr => cases hr
      | save y e hy _ hwhy =>
        rcases hwhy with ⟨rfl, -⟩ | ⟨f, rfl, -⟩
        · rcases he with he | ⟨q, he⟩ <;> cases he
        · exact absurd rfl (hother f)
      | direct f ha => cases ha
    | refreshing r hp =>
      obtain ⟨-, f, rfl, -⟩ := fails_of_stepRefresh (ofPart_eq_error hfail)
      exact absurd rfl (hother f)
    | first seat r hp => cases hown
  | first seat r e hp hcarry hfail =>
    obtain ⟨-, f, rfl, -⟩ := fails_of_stepRefresh hfail
    exact absurd rfl (hother f)

/-! ## What makes up for a reconciliation -/

theorem next_of_carried (hcarry : w.carried? m = some (id, a)) :
    (w.move m).tasks.next = ((floorTo w id).step a).1.tasks.next := by
  obtain ⟨t, rfl, hs, hc, rfl⟩ := carried?_eq_some.1 hcarry
  rw [World.move, serve_of_section hs hc, World.after, Tasks.next_record]
  exact congrArg Roll.next (roll_advance (floorTo w id) id t.phase)

/-- a write that was to make up for a reconciliation has started a new one in the background; no other task has been started -/
def MakesUp (w w' : World) (p : Path) (revoked : Bool) : Prop :=
  if revoked && !w.pool.closed then
    w'.tasks.next = w.tasks.next + 1 ∧ w'.tasks.phase? w.tasks.next = some ⟨.background, .starting (.reconcile p)⟩
  else w'.tasks.next = w.tasks.next

/-- unless the pool is closed, background work is one more task, and there is no other -/
theorem next_inBackground (w : World) (y : Request) : if w.pool.closed then w.inBackground y = w else
    (w.inBackground y).tasks.next = w.tasks.next + 1 ∧
      (w.inBackground y).tasks.phase? w.tasks.next = some ⟨.background, .starting y⟩ := by
  unfold World.inBackground Pool.accept
  split
  · rfl
  · dsimp only
    have hnext : ({ w with pool := { w.pool with next := w.pool.next + 1, active := w.pool.active + 1 } }.wake .quiet).tasks.next =
        w.tasks.next := Tasks.next_wake _ _
    refine ⟨congrArg (· + 1) hnext, ?_⟩
    rw [World.spawn, Tasks.phase?_spawn, if_pos hnext]

/-- a write that has failed starts a reconciliation if there is one to make up for, and nothing else -/
theorem makesUp_failSave (w : World) (job : SaveJob) (e : Problem) :
    MakesUp w (w.failSave job e).1 job.path job.revoked := by
  have hroll : ((w.giveBack job.turn).giveIf job.waiters).roll = w.roll := by simp
  have hclosed : ((w.giveBack job.turn).giveIf job.waiters).pool.closed = w.pool.closed :=
    ((aside_giveBack w job.turn).trans (aside_giveIf _ job.waiters)).closed
  have hnext : ((w.giveBack job.turn).giveIf job.waiters).tasks.next = w.tasks.next := congrArg Roll.next hroll
  unfold MakesUp World.failSave
  dsimp only
  cases hr : job.revoked with
  | false => exact hnext
  | true =>
    have hback := next_inBackground (((w.giveBack job.turn).giveIf job.waiters).forgetRevoked job.path) (.reconcile job.path)
    rw [show (((w.giveBack job.turn).giveIf job.waiters).forgetRevoked job.path).pool.closed = w.pool.closed from hclosed,
      show (((w.giveBack job.turn).giveIf job.waiters).forgetRevoked job.path).tasks.next = w.tasks.next from hnext] at hback
    cases hc : w.pool.closed with
    | true =>
      rw [hc, if_pos rfl] at hback
      simp only [if_true, hback, Bool.not_true, Bool.and_false, Bool.false_eq_true, if_false]
      exact hnext
    | false =>
      rw [hc, if_neg Bool.false_ne_true] at hback
      exact hback

/-- **The section in which a write fails makes up for the reconciliation that it has revoked.** -/
theorem makesUp_of_carried (hw : Wf w) (hcarry : w.carried? m = some (id, .saving y))
    (he : ((floorTo w id).step (.saving y)).2 = .ended (.error e)) : MakesUp w (w.move m) y.job.path y.job.revoked := by
  obtain ⟨t, rfl, hs, hc, ha⟩ := carried?_eq_some.1 hcarry
  obtain ⟨d, hstep⟩ := stepSave_of_failed (ofPart_eq_error he)
  have hfirst : ((floorTo w id).step (.saving y)).1 = ({ floorTo w id with disk := d }.failSave y.job e).1 :=
    (fst_ofPart _ _ _).trans hstep
  have hmakes := makesUp_failSave { floorTo w id with disk := d } y.job e
  have hother : w.tasks.next ≠ id := (hw.numbered.lt (phase?_of_served hs)).ne'
  unfold MakesUp at hmakes ⊢
  rw [next_of_carried hcarry, World.move, phase?_section hs hc hother, ha, hfirst, ← closed_floorTo w id, ← next_floorTo w id]
  exact hmakes

/-- a section with which a write goes on starts no task -/
theorem next_of_stepSave {y' : Save} (h : (w.stepSave y).2.next = some y') : (w.stepSave y).1.roll = w.roll := by
  have hfail : ∀ (w₁ : World) (job : SaveJob) (e : Problem), (w₁.failSave job e).2.next = none := fun _ _ _ => rfl
  match y with
  | .queued job =>
    simp only [World.stepSave]
    split
    · exact roll_beginCall _ _ _ _
    · rfl
  | .writing job (.held g) => exact roll_atGate w g _
  | .writing job .due =>
    simp only [World.stepSave, World.haveWritten] at h ⊢
    split at h
    · cases h
    · exact roll_beginCall _ _ _ _
  | .looking job (.held g) => exact roll_atGate w g _
  | .looking job .due =>
    simp only [World.stepSave, World.haveLookedUp] at h
    split at h <;> cases h


/-! ## Along a run -/

/-- An operation at `p` that a task carries out in state `n` fails in move `l`: with an error, or because the task has been
cancelled. -/
structure Failing (w : World) (moves : Nat → Move) (p : Path) (id : TaskId) (n l : Nat) (x : Option Problem) : Prop where
  le : n ≤ l
  begun : ∃ ph, (w.trace moves n).tasks.phase? id = some ph ∧ Operating p ph.activity
  fails : (w.trace moves l).Fails (moves l) id p x

/-- **Operations that fail leave nothing behind.** -/
structure FailsCleanly (w : World) (moves : Nat → Move) : Prop where
  /-- no section of an operation that fails has changed what is known or delivered, or who counts; a call to watch gives its
  place back after its reconciliation has failed -/
  intact : ∀ p id n l x, Failing w moves p id n l x → ∀ j, n ≤ j → j ≤ l → (w.trace moves j).serves (moves j) id = true →
    ¬ (w.trace moves j).GivesUp (moves j) id → Intact (w.trace moves j) (w.trace moves (j + 1))
  /-- that reconciliation, too, has itself changed nothing, and nothing but the place is given back -/
  first : ∀ id l seat r e, (w.trace moves l).carried? (moves l) = some (id, .synchronizing seat r) →
    ((floorTo (w.trace moves l) id).stepRefresh r).2 = .ended (.error e) →
    Intact (w.trace moves l) ((floorTo (w.trace moves l) id).stepRefresh r).1 ∧
      (∀ q, (World.entry? (w.trace moves (l + 1)) q).map Entry.known = (World.entry? (w.trace moves l) q).map Entry.known) ∧
      (w.trace moves (l + 1)).channels = (w.trace moves l).channels
  /-- whatever the operation had taken, at whatever stage, is released -/
  released : ∀ p id n l x, Failing w moves p id n l x → ∀ j, n ≤ j → j ≤ l →
    ∀ ph, (w.trace moves j).tasks.phase? id = some ph → Released ph.activity (w.trace moves (l + 1))
  /-- a write that is refused has carried out no other section, and has touched neither the disk nor the cache -/
  refused : ∀ p id n l e, Failing w moves p id n l (some e) → (e = .shutDown ∨ ∃ q, e = .unwatchedWrite q) →
    (∀ j, n ≤ j → j < l → (w.trace moves j).serves (moves j) id = false) ∧
      (w.trace moves (l + 1)).disk = (w.trace moves l).disk ∧ (w.trace moves (l + 1)).core = (w.trace moves l).core
  /-- a write that has revoked a reconciliation and fails starts exactly one in its place, unless the pool is closed -/
  made_up : ∀ p id bytes n l e, (w.trace moves n).carried? (moves n) = some (id, .starting (.write p bytes)) → n ≤ l →
    (w.trace moves l).Fails (moves l) id p (some e) →
    (∀ j, n ≤ j → j < l → (w.trace moves j).serves (moves j) id = true →
      (w.trace moves (j + 1)).tasks.next = (w.trace moves j).tasks.next) ∧
    MakesUp (w.trace moves l) (w.trace moves (l + 1)) p ((w.trace moves n).revokes p)

section Trace

variable {policy : WritePolicy} {moves : Nat → Move} {n l : Nat}

/-- what a failing operation has to do with the phase of its task in some state before it fails -/
theorem Failing.since (h : Failing (World.start policy) moves p id n l x) (hnj : n ≤ j) (hjl : j ≤ l) :
    Failing (World.start policy) moves p id j l x := by
  obtain ⟨ph, hph, hop⟩ := h.begun
  obtain ⟨ph₁, hph₁, hop₁⟩ := h.fails.operating
  -- the operation goes on until the task is past it or has ended; neither may be, since it fails in the end
  have hlater := stays_trace (P := fun ph => Operating p ph.activity ∨ Past ph.activity) hnj hph (Or.inl hop)
    fun _ _ _ _ _ _ _ hP hb => hP.elim (fun h => (h.next hb).imp_left And.left) fun h => Or.inr (h.next hb)
  rcases hlater with ⟨ph', hph', hop' | hpast⟩ | ⟨hnumber, hnone⟩
  · exact ⟨hjl, ⟨ph', hph', hop'⟩, h.fails⟩
  · rcases stays_trace (P := fun ph => Past ph.activity) hjl hph' hpast fun _ _ _ _ _ _ _ hP hb => hP.next hb with
      ⟨ph₂, hph₂, hpast₂⟩ | ⟨-, hnone⟩
    · cases hph₁.symm.trans hph₂
      exact absurd hop₁ hpast₂.not_operating
    · cases hph₁.symm.trans hnone
  · cases hph₁.symm.trans (gone_trace hjl hnumber hnone).2

/-- before it fails, an operation goes on in each of its sections -/
theorem Failing.onward (h : Failing (World.start policy) moves p id n l x) (hnl : n < l)
    (hs : ((World.start policy).trace moves n).serves (moves n) id = true) :
    ∃ a b ρ, ((World.start policy).trace moves n).carried? (moves n) = some (id, a) ∧
      ((World.start policy).trace moves n).tasks.phase? id = some ⟨ρ, a⟩ ∧ Operating p a ∧
      ((floorTo ((World.start policy).trace moves n) id).step a).2.next = some b ∧ Operating p b ∧
      ((World.start policy).trace moves (n + 1)).tasks.phase? id = some ⟨ρ, b⟩ := by
  have hw := (reachable_trace policy moves n).wf
  obtain ⟨ph, hph, hop⟩ := h.begun
  obtain ⟨ph₁, hph₁, hop₁⟩ := (h.since (Nat.le_succ n) hnl).begun
  obtain ⟨hm, hgo⟩ := serves_iff.1 hs
  obtain ⟨t, hserved, rfl⟩ := served?_of_phase hgo hph
  rw [World.trace, hm, World.move] at hph₁
  cases hc : t.cancelled with
  | true => cases (phase?_serve_of_cancelled hw hserved hc).symm.trans hph₁
  | false =>
    rw [phase?_serve hw hserved hc] at hph₁
    obtain ⟨b, hb, rfl⟩ := Option.map_eq_some_iff.1 hph₁
    refine ⟨t.phase.activity, b, t.phase.role, hm ▸ carried?_of_served hserved hc, hph, hop, hb, hop₁, ?_⟩
    rw [World.trace, hm, World.move, phase?_serve hw hserved hc, hb]
    rfl

/-- until it fails, an operation keeps what it has taken -/
theorem Failing.keeps (h : Failing (World.start policy) moves p id n l x) {ph : Phase}
    (hph : ((World.start policy).trace moves n).tasks.phase? id = some ph) :
    ∃ ph', ((World.start policy).trace moves l).tasks.phase? id = some ph' ∧ Keeps ph.activity ph'.activity := by
  obtain ⟨ph₀, hph₀, hop⟩ := h.begun
  cases hph.symm.trans hph₀
  obtain ⟨ph₁, hph₁, hop₁⟩ := h.fails.operating
  have hlater := stays_trace (P := fun ph' => Operating p ph'.activity ∧ Keeps ph.activity ph'.activity ∨ Past ph'.activity)
    h.le hph (Or.inl ⟨hop, .refl _⟩) ?_
  · rcases hlater with ⟨ph', hph', ⟨-, hkeeps⟩ | hpast⟩ | ⟨-, hnone⟩
    · exact ⟨ph', hph', hkeeps⟩
    · cases hph₁.symm.trans hph'
      exact absurd hop₁ hpast.not_operating
    · cases hph₁.symm.trans hnone
  · intro j _ _ ρ a b _ hP hb
    rcases hP with ⟨hop, hkeeps⟩ | hpast
    · rcases hop.next hb with ⟨hop', -⟩ | hpast
      · exact Or.inl ⟨hop', hkeeps.trans (hop.keeps hb hop')⟩
      · exact Or.inr hpast
    · exact Or.inr (hpast.next hb)

theorem Failing.intact (h : Failing (World.start policy) moves p id n l x)
    (hs : ((World.start policy).trace moves n).serves (moves n) id = true)
    (hno : ¬ ((World.start policy).trace moves n).GivesUp (moves n) id) :
    Intact ((World.start policy).trace moves n) ((World.start policy).trace moves (n + 1)) := by
  have hd := dateless_trace policy moves n
  have hd' := dateless_trace policy moves (n + 1)
  rcases h.le.eq_or_lt with rfl | hlt
  · exact h.fails.intact hd hd' hno
  · obtain ⟨a, b, ρ, hcarry, -, hop, hb, hop', -⟩ := h.onward hlt hs
    refine intact_of_front hd hd' ((front_of_carried hcarry).trans ?_)
    rw [hop.front_onward hb hop', front_floorTo]

/-- a write that is refused has not begun before -/
theorem Failing.refused (h : Failing (World.start policy) moves p id n l x) {y : Request}
    (hcarry : ((World.start policy).trace moves l).carried? (moves l) = some (id, .starting y)) (hnl : n < l) :
    ((World.start policy).trace moves n).serves (moves n) id = false := by
  by_contra hs
  obtain ⟨a, b, ρ, -, -, hop, hb, hop', hph⟩ := h.onward hnl (Bool.not_eq_false _ ▸ hs)
  have hbegun : ∀ z, b ≠ .starting z := by
    rcases hop.next hb with ⟨-, hbegun⟩ | hpast
    · exact hbegun
    · exact absurd hop' hpast.not_operating
  obtain ⟨u, -, hserved, -, hu⟩ := carried?_eq_some.1 hcarry
  have hlater := stays_trace (P := fun ph => (Operating p ph.activity ∧ ∀ z, ph.activity ≠ .starting z) ∨ Past ph.activity)
    (Nat.succ_le_of_lt hnl) hph (Or.inl ⟨hop', hbegun⟩) fun _ _ _ _ _ _ _ hP hb =>
      hP.elim (fun h => h.1.next hb) fun h => Or.inr (h.next hb)
  rcases hlater with ⟨ph, hph, ⟨-, hno⟩ | hpast⟩ | ⟨-, hnone⟩
  · cases hph.symm.trans (phase?_of_served hserved)
    exact hno y hu
  · cases hph.symm.trans (phase?_of_served hserved)
    rw [hu] at hpast
    cases hpast
  · cases hnone.symm.trans (phase?_of_served hserved)

/-- a task that saves goes on with the same job -/
theorem saving_trace {job : SaveJob} (hnl : n ≤ l) {ph ph' : Phase}
    (hph : ((World.start policy).trace moves n).tasks.phase? id = some ph)
    (hsave : ∃ y, ph.activity = .saving y ∧ y.job = job)
    (hph' : ((World.start policy).trace moves l).tasks.phase? id = some ph') :
    ∃ y, ph'.activity = .saving y ∧ y.job = job := by
  have hlater := stays_trace (P := fun ph => ∃ y, ph.activity = .saving y ∧ y.job = job) hnl hph hsave ?_
  · rcases hlater with ⟨ph₁, hph₁, hsave₁⟩ | ⟨-, hnone⟩
    · cases hph'.symm.trans hph₁
      exact hsave₁
    · cases hph'.symm.trans hnone
  · intro j _ _ ρ a b _ hP hb
    obtain ⟨y, rfl, hy⟩ := hP
    rw [World.step, next_ofPart] at hb
    obtain ⟨y', hy', rfl⟩ := Option.map_eq_some_iff.1 hb
    exact ⟨y', rfl, (job_of_stepSave hy').trans hy⟩

/-- **A write that fails makes up for the reconciliation that it has revoked.** -/
theorem made_up_trace {bytes : ByteArray}
    (hcarry : ((World.start policy).trace moves n).carried? (moves n) = some (id, .starting (.write p bytes))) (hnl : n ≤ l)
    (hfails : ((World.start policy).trace moves l).Fails (moves l) id p (some e)) :
    (∀ j, n ≤ j → j < l → ((World.start policy).trace moves j).serves (moves j) id = true →
      ((World.start policy).trace moves (j + 1)).tasks.next = ((World.start policy).trace moves j).tasks.next) ∧
    MakesUp ((World.start policy).trace moves l) ((World.start policy).trace moves (l + 1)) p
      (((World.start policy).trace moves n).revokes p) := by
  obtain ⟨t, hm, hserved, hc, hact⟩ := carried?_eq_some.1 hcarry
  have hstart : Failing (World.start policy) moves p id n l (some e) :=
    ⟨hnl, ⟨t.phase, phase?_of_served hserved, hact ▸ .write bytes⟩, hfails⟩
  have hrevokes : (floorTo ((World.start policy).trace moves n) id).revokes p = ((World.start policy).trace moves n).revokes p := by
    unfold floorTo
    split <;> rfl
  rcases hnl.eq_or_lt with rfl | hlt
  · refine ⟨fun j hnj hjn => absurd hjn (Nat.not_lt_of_le hnj), ?_⟩
    have hnext := next_of_carried hcarry
    rw [World.step, World.begin, fst_ofPart] at hnext
    rcases requestSave_cases (floorTo ((World.start policy).trace moves n) id) p bytes with ⟨e', hreq, hno⟩ | ⟨job, hreq, -, -⟩
    · rw [hreq, next_floorTo] at hnext
      rw [← hrevokes, hno]
      exact hnext
    · cases hfails with
      | error a e ha hown hcarry' he =>
        cases hcarry.symm.trans hcarry'
        have hended := ofPart_eq_error he
        cases hreq.symm.trans hended
      | first seat r e hp hcarry' he => cases hcarry.symm.trans hcarry'
  · -- the job with which the write goes on
    obtain ⟨a, b, ρ, hcarry', hph, -, hb, -, hph'⟩ := hstart.onward hlt (serves_iff.2 ⟨hm, (served?_eq_some hserved).1⟩)
    cases hcarry.symm.trans hcarry'
    obtain ⟨job, hjob, hpath, hrevoked⟩ : ∃ job : SaveJob, b = .saving (.queued job) ∧ job.path = p ∧
        job.revoked = ((World.start policy).trace moves n).revokes p := by
      rw [World.step, World.begin, next_ofPart] at hb
      rcases requestSave_cases (floorTo ((World.start policy).trace moves n) id) p bytes with ⟨e', hreq, -⟩ | ⟨job, hreq, hp, hr⟩
      · rw [hreq] at hb
        cases hb
      · rw [hreq] at hb
        cases hb
        exact ⟨job, rfl, hp, hr.trans hrevokes⟩
    have hsaves : ∀ j, n < j → ∀ ph, ((World.start policy).trace moves j).tasks.phase? id = some ph →
        ∃ y, ph.activity = .saving y ∧ y.job = job := fun j hnj ph hph₁ =>
      saving_trace (Nat.succ_le_of_lt hnj) hph' ⟨.queued job, hjob, rfl⟩ hph₁
    constructor
    · intro j hnj hjl hs
      obtain ⟨a, b', ρ', hcarry₁, hph₁, -, hb', -, -⟩ := (hstart.since hnj hjl.le).onward hjl hs
      rw [World.trace, next_of_carried hcarry₁, ← next_floorTo ((World.start policy).trace moves j) id]
      rcases hnj.eq_or_lt with rfl | hnj
      · cases hcarry.symm.trans hcarry₁
        rw [World.step, World.begin, fst_ofPart]
        exact congrArg Roll.next (roll_requestSave _ p bytes)
      · obtain ⟨y, hy, -⟩ := hsaves j hnj _ hph₁
        have hy : a = .saving y := hy
        subst hy
        rw [World.step, next_ofPart] at hb'
        obtain ⟨y', hy', -⟩ := Option.map_eq_some_iff.1 hb'
        rw [World.step, fst_ofPart]
        exact congrArg Roll.next (next_of_stepSave hy')
    · cases hfails with
      | error a e ha hown hcarry₁ he =>
        obtain ⟨u, hm₁, hserved₁, hc₁, rfl⟩ := carried?_eq_some.1 hcarry₁
        obtain ⟨y, hy, hyjob⟩ := hsaves l hlt _ (phase?_of_served hserved₁)
        rw [hy] at he
        have hmakes := makesUp_of_carried (reachable_trace policy moves l).wf (hy ▸ hcarry₁) he
        rwa [hyjob, hpath, hrevoked] at hmakes
      | first seat r e hp hcarry₁ he =>
        obtain ⟨u, -, hserved₁, -, hact₁⟩ := carried?_eq_some.1 hcarry₁
        obtain ⟨y, hy, -⟩ := hsaves l hlt _ (phase?_of_served hserved₁)
        cases hact₁.symm.trans hy

/-- **In every run, operations that fail or are cancelled leave nothing behind.** -/
theorem failures_trace (policy : WritePolicy) (moves : Nat → Move) : FailsCleanly (World.start policy) moves where
  intact p id n l x h j hnj hjl hs hno := (h.since hnj hjl).intact hs hno
  first id l seat r e hcarry he := first_of_failed (dateless_trace policy moves l) hcarry he
  released p id n l x h j hnj hjl ph hph := by
    obtain ⟨ph', hph', hkeeps⟩ := (h.since hnj hjl).keeps hph
    have hreleased := h.fails.released (reachable_trace policy moves l).wf (reachable_trace policy moves (l + 1)).wf hph'
    exact hreleased.of_keeps hkeeps
  refused p id n l e h he := by
    obtain ⟨⟨bytes, hcarry⟩, hdisk, hcore⟩ := h.fails.untouched he
    exact ⟨fun j hnj hjl => (h.since hnj hjl.le).refused hcarry hjl, hdisk, hcore⟩
  made_up p id bytes n l e hcarry hnl hfails := made_up_trace hcarry hnl hfails

end Trace

end LiveFiles.Engine
