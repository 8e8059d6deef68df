/-
What is pending at a path. An entry has the number of the reconciliation that alone may change it (`Core.query?`). It passes
from one task to another, and whoever takes it over takes care of the request that it stands for (`Charged`).
- `query?_step`, `query?_abandon`: operations that have the lock leave the number alone, and so do cancelled tasks.
- **`charged_effects`**: while no operation ends at the path, and the one that is pending is not abandoned, somebody takes
  care of a request there.
- `next_stepRefresh`, `next_stepSave`, `phase?_failSave`: an operation that does not end goes on as it is, and a write that
  fails requests the reconciliation that it has revoked.
-/
import LiveFiles.Proofs.Loading
import LiveFiles.Proofs.Steady

namespace LiveFiles.Engine

/-! ## What is pending at a path -/

/-- the number of the reconciliation that is pending at a path -/
def Core.query? (c : Core) (k : Path.Key) : Option QueryId := (c.entries.get? k).bind (·.pendingQuery)

variable {c : Core} {p : Path} {e e' : Entry}

theorem Core.query?_of_get? {k : Path.Key} (h : c.entries.get? k = some e) : c.query? k = e.pendingQuery := by
  rw [Core.query?, h, Option.bind_some]

@[simp] theorem Core.query?_giveIf (c : Core) (x : Option SignalId) : (c.giveIf x).query? = c.query? := by cases x <;> rfl

@[simp] theorem Core.query?_giveBack (c : Core) (τ : Turn) : (c.giveBack τ).query? = c.query? := rfl

theorem Core.query?_setEntry (he : c.entries.get? p.key = some e) (hq : e'.pendingQuery = e.pendingQuery) :
    (c.setEntry p e').query? = c.query? := by
  funext k
  simp only [Core.query?, Core.get?_setEntry]
  split
  · rename_i hk
    rw [← hk, he, Option.bind_some, Option.bind_some, hq]
  · rfl

variable {w : World} {σ α : Type}

theorem query?_modifyEntry (w : World) (p : Path) {f : Entry → Entry} (hf : ∀ e, (f e).pendingQuery = e.pendingQuery) :
    (w.modifyEntry p f).core.query? = w.core.query? := by
  funext k
  simp only [Core.query?, World.modifyEntry, World.core, Table.get?_modify]
  split
  · cases w.entries.get? k with
    | none => rfl
    | some e => exact hf e
  · rfl

@[simp] theorem query?_forgetRevoked (w : World) (p : Path) : (w.forgetRevoked p).core.query? = w.core.query? :=
  query?_modifyEntry w p fun _ => rfl

@[simp] theorem query?_endSeat (w : World) (seat : Seat) : (w.endSeat seat).core.query? = w.core.query? :=
  query?_modifyEntry w seat.path fun e => by split <;> rfl

@[simp] theorem core_beginCall (w : World) (op : DiskOp) (p : Path) (k : Call → σ) :
    (w.beginCall (α := α) op p k).1.core = w.core := by
  unfold World.beginCall
  dsimp only
  split
  · split <;> rfl
  · rfl

@[simp] theorem core_atGate (w : World) (g : GateId) (k : Call → σ) : (w.atGate (α := α) g k).1.core = w.core := by
  unfold World.atGate
  split <;> rfl

@[simp] theorem core_leaveDisk (w : World) (p : Path) : (w.leaveDisk p).core = w.core := rfl

/-! ### Operations that have the lock leave it alone -/

@[simp] theorem query?_endLook (w : World) (l : Look) (x : Refreshed) : (w.endLook l x).1.core.query? = w.core.query? := by
  simp [World.endLook]

@[simp] theorem query?_conclude (w : World) (l : Look) (o : Observation) :
    (w.conclude l o).1.core.query? = w.core.query? := by
  unfold World.conclude
  cases he : w.entry? l.path with
  | none => exact query?_endLook w l _
  | some e =>
    have hset : (w.core.setEntry l.path (Entry.commit { e with runningSignal := none } o).1).query? = w.core.query? :=
      Core.query?_setEntry he (by cases o <;> rfl)
    dsimp only
    split <;> simp [hset]

theorem query?_stepRefresh {r : Refresh} {l : Look} (hl : r.look? = some l) (w : World) :
    (w.stepRefresh r).1.core.query? = w.core.query? := by
  cases r with
  | queued p q τ => cases hl
  | looking l c =>
    cases c with
    | held g => simp [World.stepRefresh]
    | due =>
      simp only [World.stepRefresh]
      unfold World.haveLooked
      split
      · simp
      · simp
      · split <;> simp
  | reading l m c =>
    cases c with
    | held g => simp [World.stepRefresh]
    | due =>
      simp only [World.stepRefresh]
      unfold World.haveRead
      split <;> simp
  | lookingAgain l f c =>
    cases c with
    | held g => simp [World.stepRefresh]
    | due =>
      simp only [World.stepRefresh]
      unfold World.haveLookedAgain
      split <;> simp

theorem query?_endLeaving (w : World) (l : Leaving) : (w.endLeaving l).1.core.query? = w.core.query? := by
  cases l with
  | unwatched => rfl
  | failed seat e => exact query?_endSeat w seat
  | abandoned => rfl

theorem query?_releasePlace (w : World) (p : Path) (l : Leaving) :
    (w.releasePlace p l).1.core.query? = w.core.query? := by
  unfold World.releasePlace
  cases he : w.entry? p with
  | none => exact query?_endLeaving w l
  | some e =>
    dsimp only
    split
    · split <;> exact Core.query?_setEntry (c := w.core) he rfl
    · exact (query?_endLeaving _ l).trans (Core.query?_setEntry (c := w.core) he rfl)

theorem query?_failSave (w : World) (job : SaveJob) (x : Problem) :
    (w.failSave job x).1.core.query? = w.core.query? := by
  unfold World.failSave
  dsimp only
  split <;> simp

theorem query?_commitSave (w : World) (job : SaveJob) (m : Instant) :
    (w.commitSave job m).1.core.query? = w.core.query? := by
  unfold World.commitSave
  cases he : w.entry? job.path with
  | none =>
    simp only [Option.map_none, core_giveBack, Core.query?_giveBack]
    split <;> simp
  | some e =>
    have hset : (w.core.setEntry job.path
        { e with contents := some (Text.Utf8.decodeLossy job.bytes), modified := m }).query? = w.core.query? :=
      Core.query?_setEntry he rfl
    simp only [Option.map_some, core_giveBack, Core.query?_giveBack, core_broadcast]
    split <;> simp [hset]

theorem query?_stepSave (w : World) (x : Save) : (w.stepSave x).1.core.query? = w.core.query? := by
  cases x with
  | queued job =>
    simp only [World.stepSave]
    split
    · simp
    · rfl
  | writing job c =>
    cases c with
    | held g => simp [World.stepSave]
    | due =>
      simp only [World.stepSave]
      unfold World.haveWritten
      split
      · exact query?_failSave _ job _
      · simp only [core_beginCall]
        rfl
  | looking job c =>
    cases c with
    | held g => simp [World.stepSave]
    | due =>
      simp only [World.stepSave]
      unfold World.haveLookedUp
      split
      · exact query?_failSave _ job _
      · exact query?_failSave _ job _
      · exact query?_commitSave _ job _

theorem fst_ofPart (phase : σ → Activity) {β : Type} (answer : β → Answer) (x : World × Section σ (Except Problem β)) :
    (ofPart phase answer x).1 = x.1 := by
  rcases x with ⟨w, s | s | s | o⟩ <;> rfl

theorem next_ofPart (phase : σ → Activity) {β : Type} (answer : β → Answer) (x : World × Section σ (Except Problem β)) :
    (ofPart phase answer x).2.next = x.2.next.map phase := by
  rcases x with ⟨w, s | s | s | o⟩ <;> rfl

/-- what is pending is nothing to an operation that has the lock, or to a write -/
theorem query?_step {a : Activity}
    (ha : (∃ r l, a.refresh? = some r ∧ r.look? = some l) ∨ ∃ x, a.save? = some x) (w : World) :
    (w.step a).1.core.query? = w.core.query? := by
  rcases ha with ⟨r, l, hr, hl⟩ | ⟨x, hx⟩
  · cases a <;> cases hr
    · simp only [World.step, fst_ofPart]
      exact query?_stepRefresh hl w
    · rename_i seat
      have hrun := query?_stepRefresh hl w
      simp only [World.step, World.stepSynchronizing]
      generalize w.stepRefresh r = y at hrun
      rcases y with ⟨w', r' | r' | r' | (x | b)⟩
      · exact hrun
      · exact hrun
      · exact hrun
      · exact (query?_releasePlace w' _ _).trans hrun
      · exact hrun
  · cases a <;> cases hx
    simp only [World.step, fst_ofPart]
    exact query?_stepSave w x

theorem query?_dropRefresh (w : World) (r : Refresh) : (w.dropRefresh r).core.query? = w.core.query? := by
  cases r <;> simp [World.dropRefresh]

theorem query?_abandonSeat (w : World) (seat : Seat) : (w.abandonSeat seat).core.query? = w.core.query? := by
  simp [World.abandonSeat]

theorem query?_giveBackIf (w : World) (turn : Option Turn) : (w.giveBackIf turn).core.query? = w.core.query? := by
  cases turn with
  | none => rfl
  | some τ => simp [World.giveBackIf]

/-- nor does a cancelled task take it along -/
theorem query?_abandon (w : World) (a : Activity) : (w.abandon a).core.query? = w.core.query? := by
  cases a with
  | refreshing r => exact query?_dropRefresh w r
  | saving x => cases x <;> simp [World.abandon, World.dropSave]
  | synchronizing seat r => exact (query?_abandonSeat _ seat).trans (query?_dropRefresh w r)
  | settling seat x => exact query?_abandonSeat w seat
  | tearingDown q turn l =>
    cases l with
    | failed seat x => exact (query?_endSeat _ seat).trans (query?_giveBackIf w turn)
    | unwatched | abandoned => exact query?_giveBackIf w turn
  | draining q turn rest => exact query?_giveBackIf w turn
  | _ => rfl

/-! ## Errands that take care of a request -/

/-- The errand takes care of a request at a path: that of the reconciliation which is pending, of one that has the lock, or
of a write that has revoked one and its signal. The turn of the errand has a number of at least `T`. -/
inductive Charged (c : Core) (k : Path.Key) (T : TurnId) : Errand → Prop
  | line (p : Path) (q : QueryId) (τ : Turn) (hk : p.key = k) (hT : T ≤ τ.id) (hq : c.query? k = some q) :
      Charged c k T (.query p q τ)
  | look (l : Look) (d : Option Instant) (hk : l.path.key = k) (hT : T ≤ l.turn.id) : Charged c k T (.look l d)
  | write (job : SaveJob) (b : Bool) (hk : job.path.key = k) (hT : T ≤ job.turn.id) (hr : job.revoked = true)
      (hx : job.waiters.isSome = true) : Charged c k T (.save job b)

variable {E : Mark → Prop} {c' : Core} {s s' : Stake} {st : TaskId → Stake} {i j : TaskId} {k : Path.Key} {T : TurnId}
  {x : Errand}

/-- whoever takes care of a request has a turn at the path -/
theorem Charged.turn (h : Charged c k T x) :
    ∃ τ p, x.turn? = some τ ∧ x.path? = some p ∧ p.key = k ∧ T ≤ τ.id := by
  cases h with
  | line p q τ hk hT hq => exact ⟨τ, p, rfl, rfl, hk, hT⟩
  | look l d hk hT => exact ⟨l.turn, l.path, rfl, rfl, hk, hT⟩
  | write job b hk hT hr hx => exact ⟨job.turn, job.path, rfl, rfl, hk, hT⟩

/-- a task that comes to have a turn has the newest -/
theorem Effect.turn_of_idle (h : Effect E c s c' s') (hs : s.errand = .idle) {τ : Turn} (hτ : s'.errand.turn? = some τ) :
    τ.id = c.turns.nextTurn := by
  have hnone : s.errand.turn? = none := by rw [hs]; rfl
  rcases h.turns with ⟨-, e⟩ | ⟨k, -, -, e⟩ | ⟨σ, hσ, -⟩
  · rw [hτ, hnone] at e
    cases e
  · rw [← Option.some.inj (e.symm.trans hτ), Turns.enlist_id]
  · cases hnone.symm.trans hσ

/-- a reconciliation that has the lock of a tracked path goes on until it ends -/
theorem Effect.look_on (h : Effect E c s c' s') (hE : ¬ Ends E k) {l : Look} {d : Option Instant}
    (hs : s.errand = .look l d) (hk : l.path.key = k) (he : c.entries.get? k = some e) :
    ∃ d', s'.errand = .look l d' := by
  subst hk
  rcases h.of_look hs with hgoes | ⟨-, hobserved | hcut⟩
  · exact hgoes
  · exact absurd (Or.inl hobserved) hE
  · exact absurd (Or.inr (Or.inr (hcut (by rw [he]; rfl)))) hE

/-- so does a write that has a signal to give -/
theorem Effect.save_on (h : Effect E c s c' s') (hE : ¬ Ends E k) {job : SaveJob} {b : Bool}
    (hs : s.errand = .save job b) (hx : job.waiters.isSome = true) (hk : job.path.key = k)
    (he : c.entries.get? k = some e) : ∃ b', s'.errand = .save job b' := by
  subst hk
  rcases h.of_save hs with hgoes | ⟨-, hcommitted | hcut⟩
  · exact hgoes
  · exact absurd (Or.inr (Or.inl hcommitted)) hE
  · exact absurd (Or.inr (Or.inr (hcut (by rw [he]; rfl) hx))) hE

/-- a path where somebody takes care of a request stays tracked -/
theorem Charged.kept (hx : Charged c k T (st j).errand) (hp : Proper c st) (h : Effect E c (st i) c' s')
    (he : c.entries.get? k = some e) : ∃ e', c'.entries.get? k = some e' := by
  obtain ⟨τ, p, hτ, hpath, hk, -⟩ := hx.turn
  rcases h.kept he with h' | hidle | hclose
  · exact h'
  · rw [← hk, hp.sound.not_idle hτ hpath] at hidle
    cases hidle
  · rw [hp.guarded.unclosed i] at hclose
    cases hclose

/-- the reconciliation that is pending takes care of a request until another task does -/
theorem charged_effect_line (hp : Proper c st) (hE : ¬ Ends E k) (ho : ¬ E (.orphaned k)) (hd : ¬ E .shutsDown)
    (h : Effect E c (st i) c' s') (he : c.entries.get? k = some e) (he' : c'.entries.get? k = some e') {q : QueryId}
    {τ : Turn} (hj : (st j).errand = .query p q τ) (hk : p.key = k) (hT : T ≤ τ.id) (hq : e.pendingQuery = some q) :
    ∃ j', Charged c' k T (Function.update st i s' j').errand := by
  have hp' := proper_effect hp hd h
  have hnext : T ≤ c.turns.nextTurn := hT.trans (hp.sound.turns.fresh j τ (by rw [held, hj]; rfl)).le
  -- the entry is as before: so is the errand, whose reconciliation would have been taken up or abandoned otherwise
  have hstay : e'.pendingQuery = some q → ∃ j', Charged c' k T (Function.update st i s' j').errand := by
    intro hq'
    have hline : Charged c' k T (.query p q τ) := .line p q τ hk hT (by rw [Core.query?_of_get? he', hq'])
    by_cases hji : j = i
    · subst hji
      rcases h.query_next hj with hs' | ⟨-, horph⟩ | ⟨e₁, he₁, hno⟩
      · exact ⟨j, by rw [Function.update_self, hs']; exact hline⟩
      · exact absurd (hk ▸ horph ⟨e, hk ▸ he, hq⟩) ho
      · rw [hk, he'] at he₁
        cases he₁
        rw [← hp'.guarded.paired k e' he', hq'] at hno
        cases hno
    · exact ⟨j, by rw [Function.update_of_ne hji, hj]; exact hline⟩
  cases h.origin he' with
  | same e₁ he₁ hb =>
    cases he.symm.trans he₁
    obtain ⟨-, -, -, hpq, -⟩ := Entry.bare_eq hb
    exact hstay (hpq.trans hq)
  | forgotten e₁ he₁ h' =>
    cases he.symm.trans he₁
    subst h'
    exact hstay hq
  | asked p₁ e₁ signal τ₁ hk₁ he₁ ha hs hs' =>
    have hτ₁ := h.turn_of_idle hs (by rw [hs']; rfl)
    refine ⟨i, ?_⟩
    rw [Function.update_self, hs']
    exact .line p₁ _ τ₁ hk₁ (hτ₁ ▸ hnext) (by rw [Core.query?_of_get? he', ha.pending.1])
  | taken p₁ q₁ τ₁ e₁ hs hk₁ he₁ hq₁ h' hs' =>
    cases he.symm.trans he₁
    cases hq.symm.trans hq₁
    cases hp.counted.unique i j _ _ _ _ _ hs hj
    cases hs.symm.trans hj
    refine ⟨i, ?_⟩
    rw [Function.update_self, hs']
    exact .look _ _ hk₁ hT
  | concluded l d e₁ o hs hk₁ he₁ hobs => exact absurd (Or.inl ⟨o, hobs⟩) hE
  | committed job e₁ m hs hk₁ he₁ hm => exact absurd (Or.inr (Or.inl ⟨_, m, hm⟩)) hE
  | revoked p₁ bytes e₁ τ₁ hk₁ he₁ h' hs hs' =>
    cases he.symm.trans he₁
    have hτ₁ := h.turn_of_idle hs (by rw [hs']; rfl)
    have hsignal : e.pendingSignal.isSome = true := by
      rw [← Option.ne_none_iff_isSome, ne_eq, ← hp.guarded.paired k e he, hq]
      simp
    rcases revoke_cases e with ⟨hno, -⟩ | ⟨-, hr⟩
    · cases hq.symm.trans hno
    · rw [hr] at hs'
      refine ⟨i, ?_⟩
      rw [Function.update_self, hs']
      exact .write _ _ hk₁ (hτ₁ ▸ hnext) rfl hsignal

/-- **Somebody takes care of a request until an operation ends at the path, or the pending one is abandoned.** -/
theorem charged_effect (hp : Proper c st) (hE : ¬ Ends E k) (ho : ¬ E (.orphaned k)) (hd : ¬ E .shutsDown)
    (h : Effect E c (st i) c' s') (he : c.entries.get? k = some e) (hj : Charged c k T (st j).errand) :
    (∃ e', c'.entries.get? k = some e') ∧ ∃ j', Charged c' k T (Function.update st i s' j').errand := by
  obtain ⟨e', he'⟩ := hj.kept hp h he
  refine ⟨⟨e', he'⟩, ?_⟩
  generalize hx : (st j).errand = x at hj
  cases hj with
  | line p q τ hk hT hq => exact charged_effect_line hp hE ho hd h he he' hx hk hT (Core.query?_of_get? he ▸ hq)
  | look l d hk hT =>
    refine ⟨j, ?_⟩
    by_cases hji : j = i
    · subst hji
      obtain ⟨d', hs'⟩ := h.look_on hE hx hk he
      rw [Function.update_self, hs']
      exact .look l d' hk hT
    · rw [Function.update_of_ne hji, hx]
      exact .look l d hk hT
  | write job b hk hT hr hw =>
    refine ⟨j, ?_⟩
    by_cases hji : j = i
    · subst hji
      obtain ⟨b', hs'⟩ := h.save_on hE hx hw hk he
      rw [Function.update_self, hs']
      exact .write job b' hk hT hr hw
    · rw [Function.update_of_ne hji, hx]
      exact .write job b hk hT hr hw

theorem charged_effects (hp : Proper c st) (hE : ¬ Ends E k) (ho : ¬ E (.orphaned k)) (hd : ¬ E .shutsDown)
    (h : Effects E c (st i) c' s') (he : c.entries.get? k = some e) (hj : Charged c k T (st j).errand) :
    ∃ j', Charged c' k T (Function.update st i s' j').errand := by
  refine (h.induction (J := fun c st => Proper c st ∧ (∃ e, c.entries.get? k = some e) ∧ ∃ j, Charged c k T (st j).errand)
    (fun c st i c' s' ⟨hp, ⟨e, he⟩, j, hj⟩ h => ?_) ⟨hp, ⟨e, he⟩, j, hj⟩).2.2
  exact ⟨proper_effect hp hd h, charged_effect hp hE ho hd h he hj⟩

/-! ## How operations that have the lock go on -/

/-- a reconciliation that finds nothing and does not fail goes on with what it knows -/
theorem next_stepRefresh {r : Refresh} {l : Look} (hl : r.look? = some l) (hf : r.finding w.disk = none)
    (hn : r.fails w.disk = false) : ∃ r', r'.look? = some l ∧ (w.stepRefresh r).2.next = some r' := by
  cases r with
  | queued p q τ => cases hl
  | looking look c =>
    cases hl
    cases c with
    | held g =>
      obtain ⟨c, hc⟩ := next_atGate (α := Refreshed) w g (Refresh.looking l)
      exact ⟨_, rfl, hc⟩
    | due =>
      simp only [Refresh.finding] at hf
      simp only [Refresh.fails] at hn
      simp only [World.stepRefresh]
      split at hf <;> rename_i hst <;> rw [hst] at hn ⊢
      · cases hf
      · split at hf
        · cases hf
        · rename_i st hsame
          simp only [World.haveLooked, if_neg hsame]
          obtain ⟨c, hc⟩ := next_beginCall (α := Refreshed) (w.leaveDisk l.path) .read l.path (Refresh.reading l st.modified)
          exact ⟨_, rfl, hc⟩
      · cases hn
  | reading look m c =>
    cases hl
    cases c with
    | held g =>
      obtain ⟨c, hc⟩ := next_atGate (α := Refreshed) w g (Refresh.reading l m)
      exact ⟨_, rfl, hc⟩
    | due =>
      simp only [Refresh.finding] at hf
      simp only [World.stepRefresh]
      split at hf <;> rename_i hrd
      · cases hf
      · rename_i f
        rw [hrd]
        obtain ⟨c, hc⟩ := next_beginCall (α := Refreshed) (w.leaveDisk l.path) .stat l.path (Refresh.lookingAgain l f)
        exact ⟨_, rfl, hc⟩
  | lookingAgain look f c =>
    cases hl
    cases c with
    | held g =>
      obtain ⟨c, hc⟩ := next_atGate (α := Refreshed) w g (Refresh.lookingAgain l f)
      exact ⟨_, rfl, hc⟩
    | due =>
      simp only [Refresh.finding] at hf
      simp only [Refresh.fails] at hn
      split at hf <;> rename_i hst <;> rw [hst] at hn
      · cases hf
      · cases hn
      · cases hn

/-- a task whose reconciliation goes on goes on with it -/
theorem next_step_of_refresh {a : Activity} {r r' : Refresh} (hr : a.refresh? = some r)
    (hn : (w.stepRefresh r).2.next = some r') : ∃ b, (w.step a).2.next = some b ∧ b.refresh? = some r' := by
  cases a <;> cases hr
  · exact ⟨.refreshing r', by simp only [World.step, next_ofPart, hn, Option.map_some], rfl⟩
  · rename_i seat
    refine ⟨.synchronizing seat r', ?_, rfl⟩
    simp only [World.step, World.stepSynchronizing]
    rcases hx : w.stepRefresh r with ⟨w₁, x | x | x | x⟩ <;> rw [hx] at hn <;> cases hn <;> rfl

/-- a write that does not end goes on with its job -/
theorem next_stepSave {x : Save} (hf : x.finding w.disk = none) (hn : x.fails w.disk = false) :
    ∃ x', x'.job = x.job ∧ (w.stepSave x).2.next = some x' := by
  cases x with
  | queued job =>
    simp only [World.stepSave]
    split
    · obtain ⟨c, hc⟩ := next_beginCall (α := Saved) w .write job.path (Save.writing job)
      exact ⟨.writing job c, rfl, hc⟩
    · exact ⟨.queued job, rfl, rfl⟩
  | writing job c =>
    cases c with
    | held g =>
      obtain ⟨c, hc⟩ := next_atGate (α := Saved) w g (Save.writing job)
      exact ⟨.writing job c, rfl, hc⟩
    | due =>
      simp only [Save.fails] at hn
      simp only [World.stepSave]
      cases hw : (w.disk.write job.path job.bytes).2 with
      | error f =>
        rw [hw] at hn
        cases hn
      | ok u =>
        obtain ⟨c, hc⟩ := next_beginCall (α := Saved)
          ({ w with disk := (w.disk.write job.path job.bytes).1 }.leaveDisk job.path) .stat job.path (Save.looking job)
        exact ⟨.looking job c, rfl, hc⟩
  | looking job c =>
    cases c with
    | held g =>
      obtain ⟨c, hc⟩ := next_atGate (α := Saved) w g (Save.looking job)
      exact ⟨.looking job c, rfl, hc⟩
    | due =>
      simp only [Save.finding] at hf
      simp only [Save.fails] at hn
      split at hf <;> rename_i hst <;> rw [hst] at hn
      · cases hf
      · cases hn
      · cases hn

/-- a write that fails makes up for what it has revoked -/
theorem stepSave_of_fails {x : Save} (h : x.fails w.disk = true) :
    ∃ (w₁ : World) (e : Problem), w.stepSave x = w₁.failSave x.job e ∧ w₁.tasks = w.tasks ∧ w₁.pool = w.pool := by
  cases x with
  | queued job => cases h
  | writing job c =>
    cases c with
    | held g => cases h
    | due =>
      simp only [Save.fails] at h
      cases hw : (w.disk.write job.path job.bytes).2 with
      | ok u =>
        rw [hw] at h
        cases h
      | error f =>
        refine ⟨{ w with disk := (w.disk.write job.path job.bytes).1 }.leaveDisk job.path, .other f, ?_, rfl, rfl⟩
        simp only [World.stepSave, hw, World.haveWritten, Save.job]
  | looking job c =>
    cases c with
    | held g => cases h
    | due =>
      simp only [Save.fails] at h
      split at h <;> rename_i hst
      · cases h
      · refine ⟨w.leaveDisk job.path, .vanished job.path, ?_, rfl, rfl⟩
        simp only [World.stepSave, hst, World.haveLookedUp, Save.job]
      · rename_i f
        refine ⟨w.leaveDisk job.path, .other f, ?_, rfl, rfl⟩
        simp only [World.stepSave, hst, World.haveLookedUp, Save.job]

theorem phase?_inBackground (h : w.pool.closed = false) (r : Request) :
    ∃ id, w.tasks.next ≤ id ∧ (w.inBackground r).tasks.phase? id = some ⟨.background, .starting r⟩ := by
  cases hp : w.pool.accept with
  | none => simp [Pool.accept, h] at hp
  | some x =>
    obtain ⟨n, pool⟩ := x
    have hnext : w.tasks.next ≤ ({ w with pool }.wake .quiet).tasks.next :=
      (World.grows_wake (P := fun _ => True) { w with pool } .quiet).next
    refine ⟨_, hnext, ?_⟩
    simp only [World.inBackground, hp, World.spawn, Tasks.phase?_spawn, if_true]

/-- unless the pool is closed, a write that fails and has revoked a reconciliation requests another one -/
theorem phase?_failSave {job : SaveJob} (hr : job.revoked = true) (h : w.pool.closed = false) (e : Problem) :
    ∃ id, w.tasks.next ≤ id ∧
      (w.failSave job e).1.tasks.phase? id = some ⟨.background, .starting (.reconcile job.path)⟩ := by
  have hs : Steady (fun _ => True) w (((w.giveBack job.turn).giveIf job.waiters).forgetRevoked job.path) :=
    ((aside_giveBack w job.turn).trans (aside_giveIf _ job.waiters)).steady.trans (steady_forgetRevoked _ job.path)
  obtain ⟨id, hid, hph⟩ := phase?_inBackground (hs.closed.trans h) (.reconcile job.path)
  refine ⟨id, hs.tasks.next.trans hid, ?_⟩
  simpa only [World.failSave, hr, if_true] using hph

/-- a request at a tracked path takes the newest number, and the newest turn -/
theorem requestRefresh_of_entry (he : w.entry? p = some e) :
    ∃ q τ, (w.requestRefresh p).2.next = some (.queued p q τ) ∧ τ.id = w.turns.nextTurn ∧
      (w.requestRefresh p).1.core.query? p.key = some q := by
  obtain ⟨signal, signals, hq, -⟩ := beginQuery_eq w e
  simp only [World.requestRefresh, he, hq]
  refine ⟨_, _, rfl, Turns.enlist_id w.turns p.key, ?_⟩
  refine (Core.query?_of_get? (e := { e with pendingQuery := some w.nextQuery, pendingSignal := some signal }) ?_).trans rfl
  simp [World.startRefresh, World.queueUp, World.reserve, World.setEntry, World.core, Table.get?_insert]

end LiveFiles.Engine
