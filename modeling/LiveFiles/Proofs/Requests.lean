/-
What becomes of a request to reconcile a path. Later requests take its place, and a write that finds it pending revokes it,
so somebody else may be in charge of it in the end (`World.InCharge`): a request that has not begun, the reconciliation
that is pending, one that has the lock, or a write that makes up for what it has revoked when it fails. Whoever is in
charge has asked for its turn after the request was made.
- `inCharge_move`: as long as the path is tracked, somebody stays in charge until an operation decides the matter
  (`Decides`): it ends with an observation of the disk, with a failure that it reports, or with a committed write.
- **`requests_covered`**: in a run without shutting down, where no operation at the path is unfinished one has decided each
  request with a lock that it got after the request was made, unless the last task in charge has been cancelled
  (`Forsakes`).
- `cancelled_successor_loses_request`: a run in which it is. The request that it has taken the place of finds itself stale
  afterwards, though its own task goes on.
-/
import LiveFiles.Proofs.Exclusion
import LiveFiles.Proofs.Ownership
import LiveFiles.Proofs.Pending

namespace LiveFiles.Engine

/-! ## Tasks in charge -/

/-- A task is in charge of a request to reconcile a path. Whatever turn it has there has a number of at least `T`. -/
inductive World.InCharge (w : World) (k : Path.Key) (T : TurnId) (id : TaskId) : Prop
  /-- a request that has not begun -/
  | request (role : Role) (p : Path) (h : w.tasks.phase? id = some ⟨role, .starting (.reconcile p)⟩) (hk : p.key = k)
  /-- the reconciliation that is pending -/
  | line (p : Path) (q : QueryId) (τ : Turn) (h : w.Refreshes id (.queued p q τ)) (hk : p.key = k) (hT : T ≤ τ.id)
      (hq : w.core.query? k = some q)
  /-- a reconciliation that has the lock -/
  | look (r : Refresh) (l : Look) (h : w.Refreshes id r) (hl : r.look? = some l) (hk : l.path.key = k)
      (hT : T ≤ l.turn.id)
  /-- a write that has revoked a reconciliation -/
  | write (x : Save) (h : w.Saves id x) (hk : x.job.path.key = k) (hT : T ≤ x.job.turn.id) (hr : x.job.revoked = true)

/-- the path that a task has been asked to reconcile, before it begins -/
def World.requested? (w : World) (id : TaskId) : Option Path :=
  (w.tasks.phase? id).bind fun ph =>
    match ph.activity with
    | .starting (.reconcile p) => some p
    | _ => none

/-- An operation at a path decides what the cache holds, or that it is not to be known: a reconciliation ends with an
observation or with a failure that it reports, or a write ends well. It has the lock with turn `τ`. -/
def Decides (w : World) (m : Move) (k : Path.Key) (τ : Turn) : Prop :=
  ∃ id t, m = .turn id ∧ w.served? id = some t ∧ t.cancelled = false ∧
    ((∃ r l, t.phase.activity.refresh? = some r ∧ r.look? = some l ∧ l.path.key = k ∧ l.turn = τ ∧
        ((r.finding w.disk).isSome = true ∨ r.fails w.disk = true)) ∨
      ∃ x, t.phase.activity.save? = some x ∧ x.job.path.key = k ∧ x.job.turn = τ ∧ (x.finding w.disk).isSome = true)

/-- The only task in charge of a request has been cancelled, and gets the floor for the last time. -/
def Forsakes (w : World) (m : Move) (k : Path.Key) (T : TurnId) : Prop :=
  ∃ id t, m = .turn id ∧ w.served? id = some t ∧ t.cancelled = true ∧ w.InCharge k T id ∧
    ∀ j, w.InCharge k T j → j = id

variable {w w' : World} {m : Move} {id : TaskId} {t : Task Phase} {j : TaskId} {k : Path.Key} {T : TurnId} {p : Path} {e : Entry}

theorem World.InCharge.of_requested {p : Path} (h : w.requested? j = some p) : w.InCharge p.key T j := by
  obtain ⟨⟨role, a⟩, hph, ha⟩ := Option.bind_eq_some_iff.1 h
  dsimp only at ha
  split at ha
  · cases ha
    exact .request role p hph rfl
  · cases ha

theorem Charged.inCharge (h : Charged w.core k T (w.stakes j).errand) : w.InCharge k T j := by
  generalize hx : (w.stakes j).errand = x at h
  cases h with
  | line p q τ hk hT hq => exact .line p q τ (refreshes_of_query hx) hk hT hq
  | look l d hk hT =>
    obtain ⟨r, hr, hl⟩ := refreshes_of_look hx
    exact .look r l hr hl hk hT
  | write job b hk hT hr hw =>
    obtain ⟨y, hy, rfl⟩ := saves_of_save hx
    exact .write y hy hk hT hr

theorem World.InCharge.phase (h : w.InCharge k T j) : ∃ ph, w.tasks.phase? j = some ph := by
  cases h with
  | request role p h => exact ⟨_, h⟩
  | line p q τ h => exact ⟨_, h.choose_spec.1⟩
  | look r l h => exact ⟨_, h.choose_spec.1⟩
  | write x h => exact ⟨_, h.choose_spec.1⟩

/-- whoever is in charge stays so while it stays in its phase and what is pending stays pending -/
theorem World.InCharge.congr (h : w.InCharge k T j)
    (hp : ∀ ph, w.tasks.phase? j = some ph → w'.tasks.phase? j = some ph)
    (hq : w'.core.query? k = w.core.query? k) : w'.InCharge k T j := by
  cases h with
  | request role p h hk => exact .request role p (hp _ h) hk
  | line p q τ h hk hT hpq =>
    obtain ⟨ph, hph, hr⟩ := h
    exact .line p q τ ⟨ph, hp ph hph, hr⟩ hk hT (hq.trans hpq)
  | look r l h hl hk hT =>
    obtain ⟨ph, hph, hr⟩ := h
    exact .look r l ⟨ph, hp ph hph, hr⟩ hl hk hT
  | write x h hk hT hr =>
    obtain ⟨ph, hph, hx⟩ := h
    exact .write x ⟨ph, hp ph hph, hx⟩ hk hT hr

/-! ## In a move -/

/-- whatever happens apart from sections, what is pending stays pending -/
theorem query?_of_no_section (hno : ∀ id t, m = .turn id → w.served? id = some t → t.cancelled = true) :
    (w.move m).core.query? = w.core.query? := by
  by_cases hturn : ∃ id, m = .turn id
  · obtain ⟨id, rfl⟩ := hturn
    simp only [World.move]
    cases hs : w.served? id with
    | none =>
      obtain ⟨ready, floor, hserve⟩ := serve_of_nobody hs
      rw [hserve]
      rfl
    | some t =>
      rw [serve_of_cancelled hs (hno id t rfl hs), core_finish, query?_abandon]
      exact congrArg Core.query? (core_floorTo w id)
  · by_cases hcall : ∃ r, m = .call r
    · obtain ⟨r, rfl⟩ := hcall
      simp only [World.move]
      split <;> rfl
    · rw [(outside_move w (fun id e => hturn ⟨id, e⟩) fun r e => hcall ⟨r, e⟩).1]

/-- a reconciliation that has the lock stays in charge until it decides the matter -/
theorem inCharge_look (hw : Wf w) (hs : w.served? id = some t) (hc : t.cancelled = false) {r : Refresh} {l : Look}
    (hr : t.phase.activity.refresh? = some r) (hl : r.look? = some l) (hk : l.path.key = k) (hT : T ≤ l.turn.id) :
    (∃ τ, T ≤ τ.id ∧ Decides w (.turn id) k τ) ∨ (serve w id).InCharge k T id := by
  by_cases hends : (r.finding w.disk).isSome = true ∨ r.fails w.disk = true
  · exact Or.inl ⟨l.turn, hT, id, t, rfl, hs, hc, Or.inl ⟨r, l, hr, hl, hk, rfl, hends⟩⟩
  · rw [not_or, Bool.not_eq_true, Option.isSome_eq_false_iff, Option.isNone_iff_eq_none, Bool.not_eq_true,
      ← disk_floorTo w id] at hends
    obtain ⟨r', hl', hn⟩ := next_stepRefresh hl hends.1 hends.2
    obtain ⟨b, hb, hr'⟩ := next_step_of_refresh hr hn
    exact Or.inr (.look r' l ⟨_, by rw [phase?_serve hw hs hc, hb]; rfl, hr'⟩ hl' hk hT)

/-- a task with a number of its own stays in its phase when another one ends -/
theorem phase?_serve_of_ended_step (hs : w.served? id = some t) (hc : t.cancelled = false) {w₁ : World} {o : Outcome}
    (hstep : (floorTo w id).step t.phase.activity = (w₁, .ended o)) {j : TaskId} (hj : j ≠ id) :
    (serve w id).tasks.phase? j = w₁.tasks.phase? j := by
  have hfinish : (w₁.finish id t.phase.role (.returned o)).tasks.phase? j = w₁.tasks.phase? j := by
    cases t.phase.role with
    | caller => rfl
    | background =>
      simp only [World.finish, World.wake, Tasks.phase?, Tasks.live_wake]
    | service => rfl
  rw [serve_of_section hs hc]
  simp only [World.after, World.advance, hstep, Tasks.phase?_record, if_neg (Ne.symm hj), hfinish]

/-- a write that has revoked a reconciliation stays in charge until it ends well, or requests another one -/
theorem inCharge_write (hw : Wf w) (hopen : w.pool.closed = false) (hs : w.served? id = some t)
    (hc : t.cancelled = false) {x : Save} (hx : t.phase.activity.save? = some x) (hk : x.job.path.key = k)
    (hT : T ≤ x.job.turn.id) (hr : x.job.revoked = true) :
    (∃ τ, T ≤ τ.id ∧ Decides w (.turn id) k τ) ∨ ∃ j, (serve w id).InCharge k T j := by
  have ha : t.phase.activity = .saving x := by
    cases ha : t.phase.activity <;> rw [ha] at hx <;> cases hx
    rfl
  cases hf : (x.finding w.disk).isSome with
  | true => exact Or.inl ⟨x.job.turn, hT, id, t, rfl, hs, hc, Or.inr ⟨x, hx, hk, rfl, hf⟩⟩
  | false =>
    right
    rw [Option.isSome_eq_false_iff, Option.isNone_iff_eq_none, ← disk_floorTo w id] at hf
    cases hn : x.fails (floorTo w id).disk with
    | false =>
      obtain ⟨x', hjob, hnext⟩ := next_stepSave hf hn
      have hph : (serve w id).tasks.phase? id = some ⟨t.phase.role, .saving x'⟩ := by
        rw [phase?_serve hw hs hc, ha]
        simp only [World.step, next_ofPart, hnext, Option.map_some]
      exact ⟨id, .write x' ⟨_, hph, rfl⟩ (hjob ▸ hk) (hjob ▸ hT) (hjob ▸ hr)⟩
    | true =>
      obtain ⟨w₁, e, hsave, htasks, hpool⟩ := stepSave_of_fails hn
      obtain ⟨j, hj, hph⟩ := phase?_failSave (w := w₁) hr (by rw [hpool, closed_floorTo, hopen]) e
      have hlt : id < w₁.tasks.next := by
        rw [htasks, next_floorTo]
        exact hw.numbered.lt (phase?_of_served hs)
      have hstep : (floorTo w id).step t.phase.activity =
          ((w₁.failSave x.job e).1, .ended ((Except.error e : Saved).map fun _ => .nothing)) := by
        rw [ha]
        simp only [World.step, hsave]
        rfl
      refine ⟨j, .request .background x.job.path ?_ hk⟩
      rw [phase?_serve_of_ended_step hs hc hstep (hlt.trans_le hj).ne']
      exact hph

/-- a request at a tracked path stays in charge when it begins -/
theorem inCharge_request (hw : Wf w) (hs : w.served? id = some t) (hc : t.cancelled = false) {role : Role}
    (hph : t.phase = ⟨role, .starting (.reconcile p)⟩) (hk : p.key = k) (he : w.entries.get? k = some e)
    (hT : T ≤ w.turns.nextTurn) : (serve w id).InCharge k T id := by
  have he' : World.entry? (floorTo w id) p = some e := by
    refine (congrArg (fun c : Core => c.entries.get? p.key) (core_floorTo w id)).trans ?_
    rw [hk]
    exact he
  obtain ⟨q, τ, hnext, hτ, hq⟩ := requestRefresh_of_entry he'
  have hturns : (floorTo w id).turns.nextTurn = w.turns.nextTurn :=
    congrArg (fun c : Core => c.turns.nextTurn) (core_floorTo w id)
  have ha : t.phase.activity = .starting (.reconcile p) := by rw [hph]
  refine .line p q τ ⟨⟨t.phase.role, .refreshing (.queued p q τ)⟩, ?_, rfl⟩ hk ?_ ?_
  · rw [phase?_serve hw hs hc, ha]
    simp only [World.step, World.begin, next_ofPart, hnext, Option.map_some]
  · rw [hτ, hturns]
    exact hT
  · rw [(core_serve_of_section hs hc).1, ha]
    simp only [World.step, World.begin, fst_ofPart]
    exact hk ▸ hq

/-- In a section of a task that neither has the lock nor writes, somebody stays in charge. -/
theorem inCharge_unlocked (hw : Wf w) (hp : Proper w.core w.stakes) (hs : w.served? id = some t) (hc : t.cancelled = false)
    (hlook : ∀ r, t.phase.activity.refresh? = some r → r.look? = none) (hsave : t.phase.activity.save? = none)
    (he : w.entries.get? k = some e) (hT : T ≤ w.turns.nextTurn) (hj : w.InCharge k T j) :
    ∃ j', (serve w id).InCharge k T j' := by
  have hkept : ∀ j, j ≠ id → ∀ ph, w.tasks.phase? j = some ph → (serve w id).tasks.phase? j = some ph :=
    fun j hj ph => phase?_kept hw (serves_of_ne hj)
  cases hj with
  | request role p h hk =>
    by_cases hji : j = id
    · subst hji
      exact ⟨j, inCharge_request hw hs hc (Option.some.inj ((phase?_of_served hs).symm.trans h)) hk he hT⟩
    · exact ⟨j, .request role p (hkept j hji _ h) hk⟩
  | line p q τ h hk hT' hq =>
    have hline : Charged w.core k T (w.stakes j).errand := by
      rw [errand_of_refreshes h]
      exact .line p q τ hk hT' hq
    -- no operation ends in the section
    have hno : ¬ Ends (Occurs w t.phase.activity) k := by
      rintro (⟨o, r, l, hr, hl, -⟩ | ⟨_, _, x, hx, -⟩ | ⟨r, l, hr, hl, -⟩ | ⟨x, hx, -⟩)
      · cases (hlook r hr).symm.trans hl
      · cases hsave.symm.trans hx
      · cases (hlook r hr).symm.trans hl
      · cases hsave.symm.trans hx
    obtain ⟨s', heff, hst⟩ := (served_section hw hs hc).effects
    obtain ⟨j', hj'⟩ := charged_effects hp hno (fun h => h) (fun h => h) heff he hline
    exact ⟨j', Charged.inCharge (by rw [hst]; exact hj')⟩
  | look r l h hl hk hT' =>
    obtain ⟨ph, hph, hr⟩ := h
    have hji : j ≠ id := by
      rintro rfl
      cases (phase?_of_served hs).symm.trans hph
      cases (hlook r hr).symm.trans hl
    exact ⟨j, .look r l ⟨ph, hkept j hji ph hph, hr⟩ hl hk hT'⟩
  | write x h hk hT' hr =>
    obtain ⟨ph, hph, hx⟩ := h
    have hji : j ≠ id := by
      rintro rfl
      cases (phase?_of_served hs).symm.trans hph
      cases hsave.symm.trans hx
    exact ⟨j, .write x ⟨ph, hkept j hji ph hph, hx⟩ hk hT' hr⟩

/-- In a section of a task that has the lock, or writes, somebody stays in charge until the matter is decided. -/
theorem inCharge_locked (hw : Wf w) (hopen : w.pool.closed = false) (hs : w.served? id = some t) (hc : t.cancelled = false)
    (ha : (∃ r l, t.phase.activity.refresh? = some r ∧ r.look? = some l) ∨ ∃ x, t.phase.activity.save? = some x)
    (hj : w.InCharge k T j) :
    (∃ τ, T ≤ τ.id ∧ Decides w (.turn id) k τ) ∨ ∃ j', (serve w id).InCharge k T j' := by
  by_cases hji : j = id
  · subst hji
    have hph := phase?_of_served hs
    cases hj with
    | request role p h hk =>
      rw [Option.some.inj (hph.symm.trans h)] at ha
      rcases ha with ⟨r, l, hr, -⟩ | ⟨x, hx⟩
      · cases hr
      · cases hx
    | line p q τ h hk hT hq =>
      obtain ⟨ph, h, hr⟩ := h
      cases hph.symm.trans h
      rcases ha with ⟨r, l, hr', hl⟩ | ⟨x, hx⟩
      · cases hr.symm.trans hr'
        cases hl
      · cases hact : t.phase.activity <;> rw [hact] at hr hx <;> cases hr <;> cases hx
    | look r l h hl hk hT =>
      obtain ⟨ph, h, hr⟩ := h
      cases hph.symm.trans h
      exact (inCharge_look hw hs hc hr hl hk hT).imp_right fun h => ⟨j, h⟩
    | write x h hk hT hr =>
      obtain ⟨ph, h, hx⟩ := h
      cases hph.symm.trans h
      exact inCharge_write hw hopen hs hc hx hk hT hr
  · refine Or.inr ⟨j, hj.congr (fun ph => phase?_kept hw (serves_of_ne hji)) ?_⟩
    rw [(core_serve_of_section hs hc).1, query?_step ha]
    exact congrArg (Core.query? · k) (core_floorTo w id)

/-- **While a path is tracked, somebody stays in charge of a request until an operation decides the matter**, or the last
one in charge is cancelled. -/
theorem inCharge_move (hw : Wf w) (hp : Proper w.core w.stakes) (hopen : w.pool.closed = false)
    (he : w.entries.get? k = some e) (hT : T ≤ w.turns.nextTurn) (hm : ¬ Forsakes w m k T) (hj : w.InCharge k T j) :
    (∃ τ, T ≤ τ.id ∧ Decides w m k τ) ∨ ∃ j', (w.move m).InCharge k T j' := by
  rcases section_or_not w m with ⟨id, t, rfl, hs, hc⟩ | hno
  · by_cases ha : (∃ r l, t.phase.activity.refresh? = some r ∧ r.look? = some l) ∨ ∃ x, t.phase.activity.save? = some x
    · exact inCharge_locked hw hopen hs hc ha hj
    · rw [not_or] at ha
      refine Or.inr (inCharge_unlocked hw hp hs hc (fun r hr => ?_) ?_ he hT hj)
      · rw [Option.eq_none_iff_forall_ne_some]
        exact fun l hl => ha.1 ⟨r, l, hr, hl⟩
      · rw [Option.eq_none_iff_forall_ne_some]
        exact fun x hx => ha.2 ⟨x, hx⟩
  · -- somebody in charge does not get the floor
    have hother : ∃ j', w.InCharge k T j' ∧ w.serves m j' = false := by
      by_cases hsj : w.serves m j = false
      · exact ⟨j, hj, hsj⟩
      · rw [Bool.not_eq_false, serves_iff] at hsj
        obtain ⟨rfl, hgo⟩ := hsj
        obtain ⟨t, ht⟩ : ∃ t, w.served? j = some t := by
          rw [World.served?, if_pos hgo]
          obtain ⟨ph, hph⟩ := hj.phase
          obtain ⟨t, ht, -⟩ := Option.map_eq_some_iff.1 hph
          exact ⟨t, ht⟩
        by_contra hnone
        refine hm ⟨j, t, rfl, ht, hno j t rfl ht, hj, fun j' hj' => ?_⟩
        by_contra hne
        exact hnone ⟨j', hj', serves_of_ne hne⟩
    obtain ⟨j', hj', hsj⟩ := hother
    exact Or.inr ⟨j', hj'.congr (fun ph => phase?_kept hw hsj) (congrFun (query?_of_no_section hno) k)⟩

/-! ## Along a run -/

variable {policy : WritePolicy} {moves : Nat → Move} {n : Nat}

/-- the pool takes work until the engine is shut down -/
theorem open_trace (h : ∀ n, moves n ≠ .call .shutDown) (n : Nat) :
    ((World.start policy).trace moves n).pool.closed = false := by
  induction n with
  | zero => rfl
  | succ n ih =>
    have hp : Proper ((World.start policy).trace moves n).core ((World.start policy).trace moves n).stakes :=
      proper_trace h n
    rcases section_or_not ((World.start policy).trace moves n) (moves n) with ⟨id, t, hm, hs, hc⟩ | hno
    · have ha : t.phase.activity ≠ .starting .shutDown := by
        intro ha
        have hclosing := hp.guarded.unclosed id
        rw [stakes_of_served hs, ha] at hclosing
        cases hclosing
      rw [World.trace, hm]
      exact (going_serve hs hc ha).2.trans ih
    · exact (unmoved_of_no_section hno).closed.trans ih

/-- An operation has decided a matter at a path since a state of the run, with a lock that it has got since. -/
def Decided (w : World) (moves : Nat → Move) (k : Path.Key) (i n : Nat) : Prop :=
  ∃ j τ, i ≤ j ∧ j < n ∧ Decides (w.trace moves j) (moves j) k τ ∧ ∀ id, ¬ (w.trace moves i).HasLock id τ

theorem Activity.operation?_of_refresh {a : Activity} {r : Refresh} (h : a.refresh? = some r) : a.operation? = some r.path := by
  cases a <;> cases h <;> rfl

theorem Activity.operation?_of_save {a : Activity} {x : Save} (h : a.save? = some x) : a.operation? = some x.job.path := by
  cases a <;> cases h
  rfl

/-- whoever is in charge of a request is an operation at the path that has not ended -/
theorem World.InCharge.used {p : Path} (h : w.InCharge p.key T j) : w.isUnused p = false := by
  rw [Bool.eq_false_iff]
  intro hun
  have hno := isUnused_iff.1 hun
  cases h with
  | request role q h hk => exact hno j _ q h rfl hk
  | line q _ τ h hk =>
    obtain ⟨ph, hph, hr⟩ := h
    exact hno j ph q hph (Activity.operation?_of_refresh hr) hk
  | look r l h hl hk =>
    obtain ⟨ph, hph, hr⟩ := h
    refine hno j ph l.path hph ?_ hk
    rw [Activity.operation?_of_refresh hr]
    cases r <;> cases hl <;> rfl
  | write x h hk =>
    obtain ⟨ph, hph, hx⟩ := h
    exact hno j ph x.job.path hph (Activity.operation?_of_save hx) hk

theorem inCharge_trace (h : ∀ n, moves n ≠ .call .shutDown) {i n : Nat} (hin : i ≤ n) {p : Path} {id : TaskId}
    (hreq : ((World.start policy).trace moves i).requested? id = some p)
    (htr : ∀ l, i ≤ l → l ≤ n → ((World.start policy).trace moves l).isTracked p = true)
    (hkeep : ∀ l, i ≤ l → l < n → ¬ Forsakes ((World.start policy).trace moves l) (moves l) p.key
      ((World.start policy).trace moves i).turns.nextTurn) :
    Decided (World.start policy) moves p.key i n ∨
      ∃ j, ((World.start policy).trace moves n).InCharge p.key ((World.start policy).trace moves i).turns.nextTurn j := by
  induction n, hin using Nat.le_induction with
  | base => exact Or.inr ⟨id, .of_requested hreq⟩
  | succ n hin ih =>
    rcases ih (fun l h1 h2 => htr l h1 (h2.trans (Nat.le_succ n))) fun l h1 h2 => hkeep l h1 (h2.trans (Nat.lt_succ_self n))
      with ⟨j, τ, h1, h2, hd⟩ | ⟨j, hj⟩
    · exact Or.inl ⟨j, τ, h1, h2.trans (Nat.lt_succ_self n), hd⟩
    · obtain ⟨e, he⟩ := get?_of_contains (htr n hin (Nat.le_succ n))
      rcases inCharge_move (reachable_trace policy moves n).wf (proper_trace h n) (open_trace h n) he (nextTurn_trace hin)
        (hkeep n hin (Nat.lt_succ_self n)) hj with ⟨τ, hτ, hd⟩ | hj'
      · refine Or.inl ⟨n, τ, hin, Nat.lt_succ_self n, hd, fun x hx => ?_⟩
        exact absurd ((reachable_trace policy moves i).wf.sound.turns.fresh x τ hx.1) (not_lt.2 hτ)
      · exact Or.inr hj'

/-- **In a run without shutting down, each request at a path that stays tracked is decided by an operation which has got
the lock after it**, once no operation is unfinished there, unless the last task in charge of the request has been
cancelled. -/
theorem requests_covered (h : ∀ n, moves n ≠ .call .shutDown) {i n : Nat} (hin : i ≤ n) {p : Path} {id : TaskId}
    (hreq : ((World.start policy).trace moves i).requested? id = some p)
    (htr : ∀ l, i ≤ l → l ≤ n → ((World.start policy).trace moves l).isTracked p = true)
    (hun : ((World.start policy).trace moves n).isUnused p = true)
    (hkeep : ∀ l, i ≤ l → l < n → ¬ Forsakes ((World.start policy).trace moves l) (moves l) p.key
      ((World.start policy).trace moves i).turns.nextTurn) :
    Decided (World.start policy) moves p.key i n := by
  rcases inCharge_trace h hin hreq htr hkeep with hd | ⟨j, hj⟩
  · exact hd
  · cases hun.symm.trans hj.used

/-- the task that gets the floor has not been cancelled, or is a reconciliation which is not the pending one any more -/
def World.spares (w : World) (k : Path.Key) : Move → Bool
  | .turn id => (w.served? id).all fun t => !t.cancelled ||
      match t.phase.activity with
      | .refreshing (.queued _ q _) => decide (w.core.query? k ≠ some q)
      | _ => false
  | _ => true

theorem not_forsakes_of_spares (h : w.spares k m = true) : ¬ Forsakes w m k T := by
  rintro ⟨id, t, rfl, hs, hc, hj, -⟩
  simp only [World.spares, hs, Option.all_some, hc, Bool.not_true, Bool.false_or] at h
  split at h
  · rename_i q _ ha
    have hph := phase?_of_served hs
    cases hj with
    | request role p h' =>
      rw [Option.some.inj (hph.symm.trans h')] at ha
      cases ha
    | line p q' τ' h' hk hT hq =>
      obtain ⟨ph, h', hr⟩ := h'
      cases hph.symm.trans h'
      rw [ha] at hr
      cases hr
      simp [hq] at h
    | look r l h' hl =>
      obtain ⟨ph, h', hr⟩ := h'
      cases hph.symm.trans h'
      rw [ha] at hr
      cases hr
      cases hl
    | write x h' =>
      obtain ⟨ph, h', hx⟩ := h'
      cases hph.symm.trans h'
      rw [ha] at hx
      cases hx
  · cases h

/-- A reconciliation that has taken the place of another one is revoked by a write. The write fails, and so another
reconciliation is requested. -/
def revoking : List Move :=
  let p : Path := ⟨"/a"⟩
  [.newSubscriber, .putFile p ⟨#[49]⟩, .call (.watch p ⟨1⟩), .turn 1, .turn 1, .turn 1, .turn 1, .turn 1, .turn 1,
    .orderFailure .write p "no", .hold .write p, .call (.write p ⟨#[50]⟩), .turn 3, .turn 3, .putFile p ⟨#[51]⟩,
    .notifyChange p, .turn 4, .turn 4, .call (.reconcile p), .turn 5, .turn 5, .cancel 4, .turn 4,
    .call (.write p ⟨#[52]⟩), .turn 6, .turn 6, .openGate 1, .turn 3, .turn 3, .turn 5, .turn 6, .turn 6, .turn 7,
    .turn 7, .turn 7, .turn 7]

/-- the second reconciliation is requested in the state before move 19, and no operation is unfinished at the end -/
theorem requests_covered_revoking :
    (∀ n, along revoking n ≠ .call .shutDown) ∧
      ((World.start .allow).trace (along revoking) 19).requested? 5 = some ⟨"/a"⟩ ∧
      (∀ l, 19 ≤ l → l ≤ 36 → ((World.start .allow).trace (along revoking) l).isTracked ⟨"/a"⟩ = true) ∧
      ((World.start .allow).trace (along revoking) 36).isUnused ⟨"/a"⟩ = true ∧
      (∀ l, 19 ≤ l → l < 36 → ¬ Forsakes ((World.start .allow).trace (along revoking) l) (along revoking l)
        (Path.key ⟨"/a"⟩) ((World.start .allow).trace (along revoking) 19).turns.nextTurn) ∧
      Decided (World.start .allow) (along revoking) (Path.key ⟨"/a"⟩) 19 36 := by
  have h : ∀ n, along revoking n ≠ .call .shutDown := along_ne revoking (by simp [revoking]) (by simp)
  have hreq : ((World.start .allow).trace (along revoking) 19).requested? 5 = some ⟨"/a"⟩ := by decide +kernel
  have htr : ∀ l < 37, 19 ≤ l → ((World.start .allow).trace (along revoking) l).isTracked ⟨"/a"⟩ = true := by
    decide +kernel
  have hun : ((World.start .allow).trace (along revoking) 36).isUnused ⟨"/a"⟩ = true := by decide +kernel
  have hspares : ∀ l < 36, 19 ≤ l →
      ((World.start .allow).trace (along revoking) l).spares (Path.key ⟨"/a"⟩) (along revoking l) = true := by
    decide +kernel
  have htr' : ∀ l, 19 ≤ l → l ≤ 36 → ((World.start .allow).trace (along revoking) l).isTracked ⟨"/a"⟩ = true :=
    fun l h1 h2 => htr l (Nat.lt_succ_of_le h2) h1
  have hkeep : ∀ l, 19 ≤ l → l < 36 → ¬ Forsakes ((World.start .allow).trace (along revoking) l) (along revoking l)
      (Path.key ⟨"/a"⟩) ((World.start .allow).trace (along revoking) 19).turns.nextTurn :=
    fun l h1 h2 => not_forsakes_of_spares (hspares l h2 h1)
  exact ⟨h, hreq, htr', hun, hkeep, requests_covered h (by decide) hreq htr' hun hkeep⟩

/-! ## A run in which the last one in charge is cancelled -/

/-- A file is changed while a write is under way, and the change is reported. Another reconciliation takes the place of the
one that is requested for it, and is cancelled in line. The write fails. -/
def superseding : List Move :=
  let p : Path := ⟨"/a"⟩
  [.newSubscriber, .putFile p ⟨#[49]⟩, .call (.watch p ⟨1⟩), .turn 1, .turn 1, .turn 1, .turn 1, .turn 1, .turn 1, .turn 2,
    .orderFailure .write p "no", .hold .write p, .call (.write p ⟨#[50]⟩), .turn 3, .turn 3, .putFile p ⟨#[51]⟩,
    .notifyChange p, .turn 4, .turn 4, .call (.reconcile p), .turn 5, .turn 5, .cancel 5, .turn 5, .openGate 1, .turn 3,
    .turn 3, .turn 4]

/-- an operation decides a matter in this move -/
def World.decides (w : World) : Move → Bool
  | .turn id =>
    (w.served? id).any fun t =>
      (t.phase.activity.refresh?.any fun r => (r.finding w.disk).isSome || r.fails w.disk) ||
        t.phase.activity.save?.any fun x => (x.finding w.disk).isSome
  | _ => false

theorem Decides.decides {τ : Turn} (h : Decides w m k τ) : w.decides m = true := by
  obtain ⟨id, t, rfl, hs, -, ⟨r, l, hr, -, -, -, hends⟩ | ⟨x, hx, -, -, hf⟩⟩ := h
  · simp [World.decides, hs, hr, hends]
  · simp [World.decides, hs, hx, hf]

/-- The request of task 4 is made before move 17, and its task is not cancelled. The path stays tracked. When nobody can go
on, no operation is unfinished there and none has decided the matter: the cache has the old text. -/
theorem cancelled_successor_loses_request :
    (∀ n, along superseding n ≠ .call .shutDown) ∧
      ((World.start .allow).trace (along superseding) 17).requested? 4 = some ⟨"/a"⟩ ∧
      (∀ n, along superseding n ≠ .cancel 4) ∧
      (∀ l, 17 ≤ l → l ≤ 28 → ((World.start .allow).trace (along superseding) l).isTracked ⟨"/a"⟩ = true) ∧
      ((World.start .allow).trace (along superseding) 28).tasks.quiet = true ∧
      ((World.start .allow).trace (along superseding) 28).isUnused ⟨"/a"⟩ = true ∧
      ¬ Decided (World.start .allow) (along superseding) (Path.key ⟨"/a"⟩) 17 28 := by
  have hreq : ((World.start .allow).trace (along superseding) 17).requested? 4 = some ⟨"/a"⟩ := by decide +kernel
  have htr : ∀ l < 29, 17 ≤ l → ((World.start .allow).trace (along superseding) l).isTracked ⟨"/a"⟩ = true := by
    decide +kernel
  have hend : (((World.start .allow).trace (along superseding) 28).tasks.quiet &&
      ((World.start .allow).trace (along superseding) 28).isUnused ⟨"/a"⟩) = true := by decide +kernel
  have hno : ∀ l < 28, 17 ≤ l →
      ((World.start .allow).trace (along superseding) l).decides (along superseding l) = false := by decide +kernel
  rw [Bool.and_eq_true] at hend
  refine ⟨along_ne superseding (by simp [superseding]) (by simp), hreq,
    along_ne superseding (by simp [superseding]) (by simp), fun l h1 h2 => htr l (Nat.lt_succ_of_le h2) h1, hend.1, hend.2, ?_⟩
  rintro ⟨j, τ, h1, h2, hd, -⟩
  cases (hno j h2 h1).symm.trans hd.decides

end LiveFiles.Engine
