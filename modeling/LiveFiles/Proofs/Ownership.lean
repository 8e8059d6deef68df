/-
Who gives the signals that newcomers wait for. Each signal that an entry stores should have an operation at the path that
gives it: the pending one a reconciliation in line that has the pending number, the running one the reconciliation that
has the lock, a revoked one a write (`World.Owned`).
- **`owned_iff`**: in a run without shutting down this holds in every state exactly if the reconciliation that is pending
  is never abandoned while it is in line (`Orphans`). Then, when nobody can go on, each call to watch that still waits
  for a signal waits for an operation at its path.
- `abandoned_reconciliation_orphans_signal`: a run in which it is abandoned. Nobody is at the path any more, and a call to
  watch waits there for good.
The reconciliation gives its signal on each way out once it has the lock, and only then.
-/
import LiveFiles.Proofs.Guards

namespace LiveFiles.Engine

/-! ## Signals that wait in the hands of somebody -/

/-- a signal is pending in the entry of a path, or an operation at the path gives it when it ends -/
inductive InHands (c : Core) (st : TaskId → Stake) (k : Path.Key) (x : SignalId) : Prop
  | pending (e : Entry) (he : c.entries.get? k = some e) (hx : e.pendingSignal = some x)
  | look (i : TaskId) (l : Look) (d : Option Instant) (hi : (st i).errand = .look l d) (hk : l.path.key = k)
      (hx : l.signal = some x)
  | save (i : TaskId) (job : SaveJob) (b : Bool) (hi : (st i).errand = .save job b) (hk : job.path.key = k)
      (hx : job.waiters = some x)

/-- whoever waits is attended to: what is pending has its reconciliation in line, and a call to watch waits for a signal
that somebody has in hand -/
structure Attended (c : Core) (st : TaskId → Stake) : Prop where
  pending : ∀ k e x, c.entries.get? k = some e → e.pendingSignal = some x →
    ∃ i p q τ, (st i).errand = .query p q τ ∧ p.key = k ∧ e.pendingQuery = some q
  settling : ∀ i p x, (st i).errand = .settle p x → c.signals.isGiven x = false → InHands c st p.key x

variable {E : Mark → Prop} {c c' : Core} {s s' : Stake} {st : TaskId → Stake} {i j : TaskId} {k : Path.Key}
  {x : SignalId}

/-- what is pending stays pending, or passes to the operation -/
theorem Origin.pending_next {e e' : Entry} (h : Origin E c s c' s' k e') (he : c.entries.get? k = some e)
    (hp : e.pendingQuery = none ↔ e.pendingSignal = none) (hx : e.pendingSignal = some x) :
    e'.pendingSignal = some x ∨ (∃ l, s'.errand = .look l none ∧ l.path.key = k ∧ l.signal = some x) ∨
      ∃ job, s'.errand = .save job false ∧ job.path.key = k ∧ job.waiters = some x := by
  cases h with
  | same e₁ he₁ hb =>
    cases he.symm.trans he₁
    obtain ⟨-, -, -, -, hsig, -⟩ := Entry.bare_eq hb
    exact Or.inl (hsig.trans hx)
  | asked p e₁ signal τ hk he₁ ha =>
    rcases he₁ with he₁ | ⟨he₁, -⟩ <;> cases he.symm.trans he₁
    rcases ha.signal with ⟨-, hsig, -⟩ | ⟨hno, -⟩
    · exact Or.inl (ha.pending.2.trans (hsig.symm.trans hx))
    · rw [hp, or_self, hx] at hno
      cases hno
  | taken p q τ e₁ hs hk he₁ hq h' hs' =>
    cases he.symm.trans he₁
    exact Or.inr (Or.inl ⟨_, hs', hk, hx⟩)
  | concluded l d e₁ o hs hk he₁ ho h' =>
    cases he.symm.trans he₁
    subst h'
    cases o <;> exact Or.inl hx
  | revoked p bytes e₁ τ hk he₁ h' hs hs' =>
    cases he.symm.trans he₁
    rcases revoke_cases e with ⟨hno, -⟩ | ⟨-, hr⟩
    · rw [hp, hx] at hno
      cases hno
    · rw [hr] at hs'
      exact Or.inr (Or.inr ⟨_, hs', hk, hx⟩)
  | committed job e₁ m hs hk he₁ ho h' =>
    cases he.symm.trans he₁
    subst h'
    exact Or.inl hx
  | forgotten e₁ he₁ h' =>
    cases he.symm.trans he₁
    subst h'
    exact Or.inl hx

/-- what an entry stores is in hand as long as it has not been given -/
theorem Guarded.inHands (hg : Guarded c st) {e : Entry} (he : c.entries.get? k = some e)
    (hx : e.unsettled c.signals = some x) : InHands c st k x := by
  have hng : c.signals.isGiven x = false := by simpa using List.find?_some hx
  have hmem := List.mem_of_find?_eq_some hx
  simp only [List.mem_append, Option.mem_toList] at hmem
  rcases hmem with (hpend | hrun) | hrev
  · exact .pending e he hpend
  · obtain ⟨i, l, d, hi, hk, hl⟩ := hg.running k e x he hrun hng
    exact .look i l d hi hk hl
  · obtain ⟨i, job, b, hi, hk, hl⟩ := hg.revoked k e x he hrev hng
    exact .save i job b hi hk hl

/-- an entry with something pending stays in place -/
theorem Attended.kept (ha : Attended c st) (hs : Sound c st) (hg : Guarded c st) (h : Effect E c (st i) c' s') {e : Entry}
    (he : c.entries.get? k = some e) (hx : e.pendingSignal = some x) : ∃ e', c'.entries.get? k = some e' := by
  rcases h.kept he with h' | hidle | hclose
  · exact h'
  · obtain ⟨j, p, q, τ, hj, hk, -⟩ := ha.pending k e x he hx
    rw [← hk, hs.not_idle (i := j) (τ := τ) (by rw [hj]; rfl) (by rw [hj]; rfl)] at hidle
    cases hidle
  · rw [hg.unclosed i] at hclose
    cases hclose

theorem Attended.inHands_effect (ha : Attended c st) (hs : Sound c st) (hg : Guarded c st)
    (h : Effect E c (st i) c' s') (hh : InHands c st k x) (hng : c'.signals.isGiven x = false) :
    InHands c' (Function.update st i s') k x := by
  cases hh with
  | pending e he hx =>
    obtain ⟨e', he'⟩ := ha.kept hs hg h he hx
    rcases (h.origin he').pending_next he (hg.paired k e he) hx with hx | ⟨l, hs', hk, hl⟩ | ⟨job, hs', hk, hl⟩
    · exact .pending e' he' hx
    · exact .look i l none (by rw [Function.update_self]; exact hs') hk hl
    · exact .save i job false (by rw [Function.update_self]; exact hs') hk hl
  | look j l d hj hk hl =>
    obtain ⟨d', hd'⟩ := look_persists h hj hl hng
    exact .look j l d' hd' hk hl
  | save j job b hj hk hl =>
    obtain ⟨b', hb'⟩ := save_persists h hj hl hng
    exact .save j job b' hb' hk hl

/-- **Whoever waits stays attended to**, as long as the reconciliation that is pending is not abandoned. -/
theorem attended_effect (ha : Attended c st) (hs : Sound c st) (hg : Guarded c st) (hE : ∀ k, ¬ E (.orphaned k))
    (h : Effect E c (st i) c' s') : Attended c' (Function.update st i s') where
  pending k e' x he' hx := by
    rcases (h.origin he').pending hx with ⟨e, he, hx', hq⟩ | ⟨p, τ, hs', hk, hq⟩
    · obtain ⟨j, p, q, τ, hj, hk, hpq⟩ := ha.pending k e x he hx'
      by_cases hji : j = i
      · subst hji
        rcases h.query_next hj with hs' | ⟨-, horph⟩ | ⟨e₁, he₁, hno⟩
        · exact ⟨j, p, q, τ, by rw [Function.update_self]; exact hs', hk, hq ▸ hpq⟩
        · exact absurd (horph ⟨e, hk ▸ he, hpq⟩) (hE p.key)
        · rw [hk, he'] at he₁
          cases he₁
          rw [hx] at hno
          cases hno
      · exact ⟨j, p, q, τ, by rw [Function.update_of_ne hji]; exact hj, hk, hq ▸ hpq⟩
    · exact ⟨i, p, c.nextQuery, τ, by rw [Function.update_self]; exact hs', hk, hq⟩
  settling j p x hj hng := by
    by_cases hji : j = i
    · subst hji
      rw [Function.update_self] at hj
      rcases h.settle_prev hj with hj | ⟨rfl, e, he, hx⟩
      · exact ha.inHands_effect hs hg h (ha.settling j p x hj (h.not_given hng)) hng
      · exact ha.inHands_effect hs hg h (hg.inHands he hx) hng
    · rw [Function.update_of_ne hji] at hj
      exact ha.inHands_effect hs hg h (ha.settling j p x hj (h.not_given hng)) hng

/-! ## In a state of the engine -/

namespace World

/-- a task carries out a reconciliation -/
def Refreshes (w : World) (id : TaskId) (r : Refresh) : Prop :=
  ∃ p, w.tasks.phase? id = some p ∧ p.activity.refresh? = some r

/-- a task carries out a write -/
def Saves (w : World) (id : TaskId) (s : Save) : Prop := ∃ p, w.tasks.phase? id = some p ∧ p.activity.save? = some s

/-- a reconciliation with a number is in line for the lock of a path -/
def QueuesAt (w : World) (id : TaskId) (k : Path.Key) (q : QueryId) : Prop :=
  ∃ p τ, w.Refreshes id (.queued p q τ) ∧ p.key = k ∧ w.turns.InLine k τ

/-- a reconciliation has the lock of a path and gives a signal when it ends -/
def LooksAt (w : World) (id : TaskId) (k : Path.Key) (x : SignalId) : Prop :=
  ∃ r l, w.Refreshes id r ∧ r.look? = some l ∧ l.path.key = k ∧ l.signal = some x ∧ w.turns.holds l.turn = true

/-- a write at a path gives a signal when it ends -/
def WritesAt (w : World) (id : TaskId) (k : Path.Key) (x : SignalId) : Prop :=
  ∃ s, w.Saves id s ∧ s.job.path.key = k ∧ s.job.waiters = some x

/-- an operation at a path that has not ended will give a signal -/
def WillGive (w : World) (id : TaskId) (k : Path.Key) (x : SignalId) : Prop :=
  (∃ e q, w.entries.get? k = some e ∧ e.pendingSignal = some x ∧ e.pendingQuery = some q ∧ w.QueuesAt id k q) ∨
    w.LooksAt id k x ∨ w.WritesAt id k x

/-- every signal that an entry stores and that has not been given has an operation that gives it, so that a call to
watch which waits when nobody can go on waits for an operation at its path -/
structure Owned (w : World) : Prop where
  pending : ∀ k e x, w.entries.get? k = some e → e.pendingSignal = some x → w.signals.isGiven x = false →
    ∃ id q, e.pendingQuery = some q ∧ w.QueuesAt id k q
  running : ∀ k e x, w.entries.get? k = some e → e.runningSignal = some x → w.signals.isGiven x = false →
    ∃ id, w.LooksAt id k x
  revoked : ∀ k e x, w.entries.get? k = some e → x ∈ e.revokedSignals → w.signals.isGiven x = false →
    ∃ id, w.WritesAt id k x
  settling : w.tasks.quiet = true → ∀ id role seat signal, w.tasks.phase? id = some ⟨role, .settling seat signal⟩ →
    ∃ x, signal = some x ∧ w.signals.isGiven x = false ∧ ∃ j, w.WillGive j seat.path.key x

end World

/-- The reconciliation that is pending has been cancelled in line, and is about to leave. -/
def Orphans (w : World) (m : Move) : Prop :=
  ∃ id t p q τ e, m = .turn id ∧ w.served? id = some t ∧ t.cancelled = true ∧
    t.phase.activity.refresh? = some (.queued p q τ) ∧ w.entry? p = some e ∧ e.pendingQuery = some q

variable {w : World}

theorem errand_of_refreshes {r : Refresh} (h : w.Refreshes i r) : (w.stakes i).errand = r.errand := by
  obtain ⟨p, hp, hr⟩ := h
  rw [stakes_of_phase hp, Activity.errand_of_refresh hr]

/-- a task with an errand is alive, and carries it out -/
theorem errand_cases (w : World) (i : TaskId) :
    (∃ r, w.Refreshes i r ∧ (w.stakes i).errand = r.errand) ∨ (∃ s, w.Saves i s ∧ (w.stakes i).errand = s.errand) ∨
      (w.stakes i).errand = .idle ∨ (∃ p τ, (w.stakes i).errand = .drain p τ) ∨ ∃ p x, (w.stakes i).errand = .settle p x := by
  cases hp : w.tasks.phase? i with
  | none => exact Or.inr (Or.inr (Or.inl (by rw [stakes_of_none hp])))
  | some p =>
    rw [stakes_of_phase hp]
    rcases p.activity.errand_cases with ⟨r, hr, h⟩ | ⟨s, hs, h⟩ | h
    · exact Or.inl ⟨r, ⟨p, hp, hr⟩, h⟩
    · exact Or.inr (Or.inl ⟨s, ⟨p, hp, hs⟩, h⟩)
    · exact Or.inr (Or.inr h)

theorem refreshes_of_query {p : Path} {q : QueryId} {τ : Turn} (h : (w.stakes i).errand = .query p q τ) :
    w.Refreshes i (.queued p q τ) := by
  rcases errand_cases w i with ⟨r, hr, e⟩ | ⟨s, -, e⟩ | e | ⟨_, _, e⟩ | ⟨_, _, e⟩ <;> rw [h] at e
  · cases r <;> cases e
    exact hr
  · cases s <;> cases e
  all_goals cases e

theorem refreshes_of_look {l : Look} {d : Option Instant} (h : (w.stakes i).errand = .look l d) :
    ∃ r, w.Refreshes i r ∧ r.look? = some l := by
  rcases errand_cases w i with ⟨r, hr, e⟩ | ⟨s, -, e⟩ | e | ⟨_, _, e⟩ | ⟨_, _, e⟩ <;> rw [h] at e
  · cases r <;> cases e <;> exact ⟨_, hr, rfl⟩
  · cases s <;> cases e
  all_goals cases e

theorem saves_of_save {job : SaveJob} {b : Bool} (h : (w.stakes i).errand = .save job b) :
    ∃ s, w.Saves i s ∧ s.job = job := by
  rcases errand_cases w i with ⟨r, -, e⟩ | ⟨s, hs, e⟩ | e | ⟨_, _, e⟩ | ⟨_, _, e⟩ <;> rw [h] at e
  · cases r <;> cases e
  · cases s <;> cases e <;> exact ⟨_, hs, rfl⟩
  all_goals cases e

theorem Proper.queuesAt (hp : Proper w.core w.stakes) {p : Path} {q : QueryId} {τ : Turn}
    (h : (w.stakes i).errand = .query p q τ) : w.QueuesAt i p.key q := by
  have hk : τ.key = p.key := hp.sound.keyed i τ (by rw [h]; rfl) p (by rw [h]; rfl)
  have hl : w.turns.InLine τ.key τ := hp.sound.turns.inLine (i := i) (by rw [held, h]; rfl)
  exact ⟨p, τ, refreshes_of_query h, rfl, hk ▸ hl⟩

theorem Proper.looksAt (hp : Proper w.core w.stakes) {l : Look} {d : Option Instant}
    (h : (w.stakes i).errand = .look l d) (hx : l.signal = some x) : w.LooksAt i l.path.key x := by
  obtain ⟨r, hr, hl⟩ := refreshes_of_look h
  exact ⟨r, l, hr, hl, rfl, hx, (hp.guarded.look i l d h).1⟩

theorem writesAt_of_save {job : SaveJob} {b : Bool} (h : (w.stakes i).errand = .save job b)
    (hx : job.waiters = some x) : w.WritesAt i job.path.key x := by
  obtain ⟨s, hs, rfl⟩ := saves_of_save h
  exact ⟨s, hs, rfl, hx⟩

theorem Attended.willGive (ha : Attended w.core w.stakes) (hp : Proper w.core w.stakes)
    (h : InHands w.core w.stakes k x) : ∃ j, w.WillGive j k x := by
  cases h with
  | pending e he hx =>
    obtain ⟨j, p, q, τ, hj, rfl, hq⟩ := ha.pending k e x he hx
    exact ⟨j, Or.inl ⟨e, q, he, hx, hq, hp.queuesAt hj⟩⟩
  | look j l d hj hk hx => exact ⟨j, Or.inr (Or.inl (hk ▸ hp.looksAt hj hx))⟩
  | save j job b hj hk hx => exact ⟨j, Or.inr (Or.inr (hk ▸ writesAt_of_save hj hx))⟩

/-- when nobody can go on, whoever settles waits for a signal that has not been given -/
theorem Wf.settling (hw : Wf w) (hq : w.tasks.quiet = true) {role : Role} {seat : Seat} {signal : Option SignalId}
    (h : w.tasks.phase? i = some ⟨role, .settling seat signal⟩) : ∃ x, signal = some x ∧ w.signals.isGiven x = false := by
  simp only [Tasks.quiet, Bool.and_eq_true, List.isEmpty_iff, Option.isNone_iff_eq_none] at hq
  rcases hw.woken i _ h with hr | hf | hb
  · simp [hq.1] at hr
  · simp [hq.2] at hf
  · cases signal with
    | none => exact absurd rfl hb.something
    | some x => exact ⟨x, rfl, hb.signal x rfl⟩

theorem Attended.owned (ha : Attended w.core w.stakes) (hp : Proper w.core w.stakes) (hw : Wf w) : w.Owned where
  pending k e x he hx _ := by
    obtain ⟨j, p, q, τ, hj, rfl, hq⟩ := ha.pending k e x he hx
    exact ⟨j, q, hq, hp.queuesAt hj⟩
  running k e x he hx hng := by
    obtain ⟨j, l, d, hj, rfl, hl⟩ := hp.guarded.running k e x he hx hng
    exact ⟨j, hp.looksAt hj hl⟩
  revoked k e x he hx hng := by
    obtain ⟨j, job, b, hj, rfl, hl⟩ := hp.guarded.revoked k e x he hx hng
    exact ⟨j, writesAt_of_save hj hl⟩
  settling hq id role seat signal h := by
    obtain ⟨x, rfl, hx⟩ := hw.settling hq h
    have hst : (w.stakes id).errand = .settle seat.path x := by rw [stakes_of_phase h]; rfl
    exact ⟨x, rfl, hx, ha.willGive hp (ha.settling id seat.path x hst hx)⟩

/-! ## A reconciliation that leaves the line -/

theorem core_finish (w : World) (id : TaskId) (role : Role) (e : Ending) : (w.finish id role e).core = w.core := by
  cases role <;> rfl

/-- what is pending at a path, with its number -/
def pendingAt (c : Core) (k : Path.Key) : Option (Option QueryId × Option SignalId) :=
  (c.entries.get? k).map fun e => (e.pendingQuery, e.pendingSignal)

theorem pendingAt_modifyEntry (w : World) (p : Path) {f : Entry → Entry} (hf : ∀ e, (f e).bare = e.bare) (k : Path.Key) :
    pendingAt (w.modifyEntry p f).core k = pendingAt w.core k := by
  simp only [pendingAt, World.modifyEntry, World.core, Table.get?_modify]
  split
  · cases w.entries.get? k with
    | none => rfl
    | some e =>
      obtain ⟨-, -, -, hq, hs, -⟩ := Entry.bare_eq (hf e)
      simp [hq, hs]
  · rfl

/-- **A reconciliation that leaves the line takes nothing along**: what is pending stays pending. -/
theorem pendingAt_abandon {a : Activity} {p : Path} {q : QueryId} {τ : Turn} (h : a.refresh? = some (.queued p q τ))
    (w : World) (k : Path.Key) : pendingAt (w.abandon a).core k = pendingAt w.core k := by
  cases a <;> cases h
  · simp only [World.abandon, World.dropRefresh, core_giveBack]
    rfl
  · rename_i seat
    have h1 : pendingAt (w.giveBack τ).core k = pendingAt w.core k := by
      rw [core_giveBack]
      rfl
    simp only [World.abandon, World.dropRefresh, World.abandonSeat, core_inBackground]
    rw [← h1]
    exact pendingAt_modifyEntry (w.giveBack τ) seat.path (fun e => by split <;> rfl) k

theorem pendingAt_orphans {id : TaskId} {t : Task Phase} {p : Path} {q : QueryId} {τ : Turn}
    (h : w.served? id = some t) (hc : t.cancelled = true) (hr : t.phase.activity.refresh? = some (.queued p q τ))
    (k : Path.Key) : pendingAt (serve w id).core k = pendingAt w.core k := by
  rw [serve_of_cancelled h hc, core_finish, pendingAt_abandon hr]
  have hcore : ((floorTo w id).without id).core = w.core := core_floorTo w id
  rw [hcore]

/-- **Abandoning the reconciliation that is pending orphans its signal.** -/
theorem orphans_move {m : Move} (hw : Wf w) (hp : Proper w.core w.stakes) (hp' : Proper (w.move m).core (w.move m).stakes)
    (h : Orphans w m) : ¬ (w.move m).Owned := by
  obtain ⟨id, t, p, q, τ, e, rfl, hserved, hc, hr, he, hq⟩ := h
  have hpend : pendingAt (w.move (.turn id)).core p.key = some (some q, e.pendingSignal) := by
    refine (pendingAt_orphans hserved hc hr p.key).trans ?_
    rw [pendingAt, show w.core.entries.get? p.key = some e from he]
    simp [hq]
  obtain ⟨e', he', heq⟩ := Option.map_eq_some_iff.1 hpend
  have hq' : e'.pendingQuery = some q := congrArg Prod.fst heq
  have hx : ∃ x, e'.pendingSignal = some x := by
    rw [← Option.ne_none_iff_exists', ne_eq, ← hp'.guarded.paired p.key e' he', hq']
    simp
  obtain ⟨x, hx⟩ := hx
  have hng : (w.move (.turn id)).signals.isGiven x = false :=
    hp'.kept.secret (.entry p.key) x (by simp only [keeps, Core.pending?, he']; exact hx)
  intro ho
  obtain ⟨j, q', hqq, p', τ', hj, -⟩ := ho.pending p.key e' x he' hx hng
  cases hq'.symm.trans hqq
  have hj' := errand_of_refreshes hj
  have hst : (w.move (.turn id)).stakes = Function.update w.stakes id {} := stakes_serve_of_cancelled hw hserved hc
  rw [hst] at hj'
  by_cases hji : j = id
  · subst hji
    rw [Function.update_self] at hj'
    cases hj'
  · rw [Function.update_of_ne hji] at hj'
    have hi : (w.stakes id).errand = .query p q τ := by
      rw [stakes_of_served hserved, Activity.errand_of_refresh hr]
      rfl
    exact hji (hp.counted.unique j id p' p q τ' τ hj' hi)

/-! ## Along a run -/

theorem marks_orphaned {m : Move} (h : Marks w m (.orphaned k)) : Orphans w m := by
  obtain ⟨id, t, rfl, ht, h⟩ := h.served (by simp)
  split at h
  · rename_i hc
    obtain ⟨p, q, τ, e, hr, -, he, hq⟩ := h
    exact ⟨id, t, p, q, τ, e, rfl, ht, hc, hr, he, hq⟩
  · cases h

theorem attended_start (policy : WritePolicy) : Attended (World.start policy).core (World.start policy).stakes where
  pending _ _ _ h := by cases h
  settling _ _ _ h := by cases h

theorem attended_trace {policy : WritePolicy} {moves : Nat → Move} (h : ∀ n, moves n ≠ .call .shutDown)
    (ho : ∀ n, ¬ Orphans ((World.start policy).trace moves n) (moves n)) (n : Nat) :
    Attended ((World.start policy).trace moves n).core ((World.start policy).trace moves n).stakes := by
  refine (trace_induction (J := fun c st => Proper c st ∧ Attended c st)
    (N := fun x => x = .shutsDown ∨ ∃ k, x = .orphaned k) (fun n x hx e => ?_)
    ⟨proper_start policy, attended_start policy⟩ (fun E c st i c' s' hE hJ he => ⟨?_, ?_⟩) n).2
  · rcases e with rfl | ⟨k, rfl⟩
    · exact h n (marks_shutsDown hx)
    · exact ho n (marks_orphaned hx)
  · exact proper_effect hJ.1 (fun hd => hE _ hd (Or.inl rfl)) he
  · exact attended_effect hJ.2 hJ.1.sound hJ.1.guarded (fun k hk => hE _ hk (Or.inr ⟨k, rfl⟩)) he

/-- **In a run without shutting down, every signal has its operation in every state exactly if the reconciliation that is
pending is never abandoned in line.** -/
theorem owned_iff {policy : WritePolicy} {moves : Nat → Move} (h : ∀ n, moves n ≠ .call .shutDown) :
    (∀ n, ((World.start policy).trace moves n).Owned) ↔
      ∀ n, ¬ Orphans ((World.start policy).trace moves n) (moves n) := by
  constructor
  · intro hall n ho
    exact orphans_move (reachable_trace policy moves n).wf (proper_trace h n) (proper_trace h (n + 1)) ho (hall (n + 1))
  · intro hnone n
    exact (attended_trace h hnone n).owned (proper_trace h n) (reachable_trace policy moves n).wf

/-! ## A run in which it is abandoned -/

/-- A watched file is being reconciled when another reconciliation is requested and cancelled in line. Then a second
subscriber comes. -/
def abandoning : List Move :=
  let p : Path := ⟨"/a"⟩
  [Move.newSubscriber, .newSubscriber, .putFile p ⟨#[49]⟩, .call (.watch p ⟨1⟩)] ++ List.replicate 6 (Move.turn 1) ++
    [Move.turn 2, .hold .stat p, .call (.reconcile p), .turn 3, .turn 3, .call (.reconcile p), .turn 4, .turn 4, .cancel 4,
      .turn 4, .openGate 1, .turn 3, .turn 3, .call (.watch p ⟨2⟩)] ++ List.replicate 4 (Move.turn 5)

/-- the run does not shut the engine down -/
theorem owned_iff_abandoning :
    (∀ n, along abandoning n ≠ .call .shutDown) ∧
      ((∀ n, ((World.start .allow).trace (along abandoning) n).Owned) ↔
        ∀ n, ¬ Orphans ((World.start .allow).trace (along abandoning) n) (along abandoning n)) := by
  have h : ∀ n, along abandoning n ≠ .call .shutDown := along_ne abandoning (by simp [abandoning]) (by simp)
  exact ⟨h, owned_iff h⟩

/-- nobody has a turn at a path, and a signal is pending there -/
def World.orphaned (w : World) (p : Path) : Bool :=
  w.turns.isIdle p.key && (w.entry? p).any fun e => e.pendingSignal.any fun x => !w.signals.isGiven x

theorem not_owned_of_orphaned {p : Path} (h : w.orphaned p = true) : ¬ w.Owned := by
  intro ho
  simp only [World.orphaned, Bool.and_eq_true] at h
  obtain ⟨e, he, h'⟩ := (Option.any_eq_true _ _).1 h.2
  obtain ⟨x, hx, hng⟩ := (Option.any_eq_true _ _).1 h'
  obtain ⟨-, -, -, -, -, -, -, s, hs, -⟩ := ho.pending p.key e x he hx (by simpa using hng)
  simp only [Turns.isIdle, Bool.not_eq_true', Table.contains_eq_false_iff] at h
  rw [h.1] at hs
  cases hs

/-- Nobody can go on, the path is idle, and the second call to watch waits for what is pending there. -/
theorem abandoned_reconciliation_orphans_signal :
    ((World.start .allow).trace (along abandoning) 28).tasks.quiet = true ∧
      ((World.start .allow).trace (along abandoning) 28).tasks.isLive 5 = true ∧
      ¬ ((World.start .allow).trace (along abandoning) 28).Owned := by
  have h : (((World.start .allow).trace (along abandoning) 28).tasks.quiet &&
      ((World.start .allow).trace (along abandoning) 28).tasks.isLive 5 &&
      ((World.start .allow).trace (along abandoning) 28).orphaned ⟨"/a"⟩) = true := by decide +kernel
  simp only [Bool.and_eq_true] at h
  exact ⟨h.1.1, h.1.2, not_owned_of_orphaned h.2⟩

end LiveFiles.Engine
