/-
Who keeps a signal until it is given. A signal is kept by the entry of which it is pending, by the operation that has
taken it over, or by the call to watch that gives it when it ends. Signals pass from an entry to an operation and are
given by whoever keeps them, so that each has one keeper at most, who keeps it from the start until it is given
(`Kept`, `kept_effect`). Giving a signal therefore settles nothing but what its keeper has done.

The numbers of reconciliations in line are all different too (`Counted`, `counted_effect`).
-/
import LiveFiles.Proofs.Inversion

namespace LiveFiles.Engine

/-- whoever can keep a signal -/
inductive Keeper where
  | entry (key : Path.Key)
  /-- a call to watch -/
  | call (id : TaskId)
  | operation (id : TaskId)
  deriving DecidableEq

/-- the signal that an operation gives when it ends -/
def Errand.signal? : Errand → Option SignalId
  | .look l _ => l.signal
  | .save job _ => job.waiters
  | .idle | .query .. | .drain .. | .settle .. => none

/-- the signal that is pending at a path -/
def Core.pending? (c : Core) (k : Path.Key) : Option SignalId := (c.entries.get? k).bind (·.pendingSignal)

/-- the signal that a keeper keeps -/
def keeps (c : Core) (st : TaskId → Stake) : Keeper → Option SignalId
  | .entry k => c.pending? k
  | .call i => (st i).joined
  | .operation i => (st i).errand.signal?

/-- a signal that is kept has not been given, and nobody else keeps it -/
structure Kept (c : Core) (st : TaskId → Stake) : Prop where
  fresh : ∀ κ x, keeps c st κ = some x → x < c.signals.next
  given : ∀ x, c.signals.isGiven x = true → x < c.signals.next
  secret : ∀ κ x, keeps c st κ = some x → c.signals.isGiven x = false
  unique : ∀ κ κ' x, keeps c st κ = some x → keeps c st κ' = some x → κ = κ'

/-- reconciliations in line have different numbers -/
structure Counted (c : Core) (st : TaskId → Stake) : Prop where
  fresh : ∀ i p q τ, (st i).errand = .query p q τ → q < c.nextQuery
  unique : ∀ i j p p' q τ τ', (st i).errand = .query p q τ → (st j).errand = .query p' q τ' → i = j

variable {E : Mark → Prop} {c c' : Core} {s s' : Stake} {st st' : TaskId → Stake} {i : TaskId}

@[simp] theorem next_give (x : Signals) (y : SignalId) : (x.give y).next = x.next := by
  unfold Signals.give
  split <;> rfl

/-! ## What an effect does to the keepers -/

/-- Signals stay where they are or are dropped; one may pass from `κ₁` to `κ₀`. -/
theorem Kept.pass (h : Kept c st) (hs : c'.signals = c.signals) (κ₀ κ₁ : Keeper)
    (hback : ∀ κ x, keeps c' st' κ = some x → κ = κ₀ ∧ keeps c st κ₁ = some x ∨ κ ≠ κ₁ ∧ keeps c st κ = some x) :
    Kept c' st' where
  fresh κ x hx := by
    rw [hs]
    rcases hback κ x hx with ⟨-, hx⟩ | ⟨-, hx⟩ <;> exact h.fresh _ x hx
  given x hx := by
    rw [hs] at hx ⊢
    exact h.given x hx
  secret κ x hx := by
    rw [hs]
    rcases hback κ x hx with ⟨-, hx⟩ | ⟨-, hx⟩ <;> exact h.secret _ x hx
  unique κ κ' x hx hx' := by
    rcases hback κ x hx with ⟨e, hx⟩ | ⟨hne, hx⟩ <;> rcases hback κ' x hx' with ⟨e', hx'⟩ | ⟨hne', hx'⟩
    · rw [e, e']
    · exact absurd (h.unique _ _ x hx' hx) hne'
    · exact absurd (h.unique _ _ x hx hx') hne
    · exact h.unique _ _ x hx hx'

/-- a new signal is kept by `κ₀` -/
theorem Kept.start (h : Kept c st) (hs : c'.signals = c.signals.fresh.2) (κ₀ : Keeper)
    (hback : ∀ κ x, keeps c' st' κ = some x → κ = κ₀ ∧ x = c.signals.next ∨ keeps c st κ = some x) : Kept c' st' where
  fresh κ x hx := by
    rw [hs]
    rcases hback κ x hx with ⟨-, rfl⟩ | hx
    · exact Nat.lt_succ_self _
    · exact (h.fresh _ x hx).trans (Nat.lt_succ_self _)
  given x hx := by
    rw [hs] at hx ⊢
    exact (h.given x hx).trans (Nat.lt_succ_self _)
  secret κ x hx := by
    rw [hs]
    change c.signals.isGiven x = false
    rcases hback κ x hx with ⟨-, rfl⟩ | hx
    · exact Bool.eq_false_iff.2 fun hg => absurd (h.given _ hg) (lt_irrefl _)
    · exact h.secret _ x hx
  unique κ κ' x hx hx' := by
    rcases hback κ x hx with ⟨e, rfl⟩ | hx <;> rcases hback κ' _ hx' with ⟨e', e⟩ | hx'
    · simp_all
    · exact absurd (h.fresh _ _ hx') (lt_irrefl _)
    · exact absurd (h.fresh _ _ hx) (by rw [e]; exact lt_irrefl _)
    · exact h.unique _ _ x hx hx'

/-- `κ₁` gives its signal -/
theorem Kept.give (h : Kept c st) {y : SignalId} (hs : c'.signals = c.signals.give y) (κ₁ : Keeper)
    (hy : keeps c st κ₁ = some y) (hback : ∀ κ x, keeps c' st' κ = some x → κ ≠ κ₁ ∧ keeps c st κ = some x) :
    Kept c' st' where
  fresh κ x hx := by
    rw [hs, next_give]
    exact h.fresh _ x (hback κ x hx).2
  given x hx := by
    rw [hs, Signals.isGiven_give, Bool.or_eq_true, decide_eq_true_eq] at hx
    rw [hs, next_give]
    rcases hx with rfl | hx
    · exact h.fresh _ y hy
    · exact h.given x hx
  secret κ x hx := by
    obtain ⟨hne, hx⟩ := hback κ x hx
    have hxy : y ≠ x := fun e => hne (h.unique _ _ x hx (e ▸ hy))
    rw [hs, Signals.isGiven_give, h.secret _ x hx]
    simpa using hxy
  unique κ κ' x hx hx' := h.unique _ _ x (hback κ x hx).2 (hback κ' x hx').2

/-- what an effect does to those who keep signals, where `s` is the stake of the task that has it -/
inductive Passing (c : Core) (s : Stake) (c' : Core) (s' : Stake) : Prop
  | rest (hs : c'.signals = c.signals) (hp : ∀ k x, c'.pending? k = some x → c.pending? k = some x)
      (hj : ∀ x, s'.joined = some x → s.joined = some x)
      (ho : ∀ x, s'.errand.signal? = some x → s.errand.signal? = some x)
  /-- the operation takes over what is pending at a path -/
  | take (k : Path.Key) (hs : c'.signals = c.signals) (hk : c'.pending? k = none)
      (hp : ∀ k x, c'.pending? k = some x → c.pending? k = some x)
      (hj : ∀ x, s'.joined = some x → s.joined = some x)
      (ho : ∀ x, s'.errand.signal? = some x → c.pending? k = some x)
  | ask (k : Path.Key) (hs : c'.signals = c.signals.fresh.2)
      (hp : ∀ k' x, c'.pending? k' = some x → k' = k ∧ x = c.signals.next ∨ c.pending? k' = some x)
      (hj : ∀ x, s'.joined = some x → s.joined = some x) (ho : s'.errand.signal? = none)
  | join (hs : c'.signals = c.signals.fresh.2) (hp : ∀ k x, c'.pending? k = some x → c.pending? k = some x)
      (hj : s'.joined = some c.signals.next) (ho : ∀ x, s'.errand.signal? = some x → s.errand.signal? = some x)
  | unjoin (y : SignalId) (hs : c'.signals = c.signals.give y) (hy : s.joined = some y)
      (hp : ∀ k x, c'.pending? k = some x → c.pending? k = some x) (hj : s'.joined = none)
      (ho : ∀ x, s'.errand.signal? = some x → s.errand.signal? = some x)
  | release (y : SignalId) (hs : c'.signals = c.signals.give y) (hy : s.errand.signal? = some y)
      (hp : ∀ k x, c'.pending? k = some x → c.pending? k = some x)
      (hj : ∀ x, s'.joined = some x → s.joined = some x) (ho : s'.errand.signal? = none)

theorem pending?_of_eq (h : c'.entries = c.entries) (k : Path.Key) : c'.pending? k = c.pending? k := by
  rw [Core.pending?, h, Core.pending?]

theorem pending?_setEntry (c : Core) (p : Path) (e : Entry) (k : Path.Key) :
    (c.setEntry p e).pending? k = if p.key = k then e.pendingSignal else c.pending? k := by
  rw [Core.pending?, Core.get?_setEntry]
  split <;> rfl

/-- an entry is put in the place of one with the same pending signal -/
theorem pending?_setEntry_of_eq {p : Path} {e e' : Entry} (he : c.entries.get? p.key = some e)
    (h : e'.pendingSignal = e.pendingSignal) (k : Path.Key) : (c.setEntry p e').pending? k = c.pending? k := by
  rw [pending?_setEntry]
  split
  · rename_i hk
    rw [← hk, h, Core.pending?, he]
    rfl
  · rfl

theorem pending?_of_bare {t : Table Path.Key Entry}
    (hb : ∀ k, (t.get? k).map Entry.bare = (c.entries.get? k).map Entry.bare) (k : Path.Key) :
    ({ c with entries := t } : Core).pending? k = c.pending? k := by
  have h : ∀ o : Option Entry, o.bind (·.pendingSignal) = (o.map Entry.bare).bind (·.pendingSignal) := by
    intro o
    cases o <;> rfl
  have hk := congrArg (fun o : Option Entry => o.bind (·.pendingSignal)) (hb k)
  rwa [← h, ← h] at hk

theorem pending?_forget (c : Core) (k k' : Path.Key) : (c.forget k).pending? k' = c.pending? k' := by
  simp only [Core.pending?, Core.forget, Table.get?_modify]
  split
  · cases c.entries.get? k' <;> rfl
  · rfl

/-- an operation ends -/
theorem Passing.ended {o : Option SignalId} (hs : c'.signals = (c.giveIf o).signals) (ho : s.errand.signal? = o)
    (hp : ∀ k, c'.pending? k = c.pending? k) : Passing c s c' { s with errand := .idle } := by
  cases o with
  | none => exact .rest hs (fun k x hx => hp k ▸ hx) (fun _ h => h) fun x h => by cases h
  | some y => exact .release y hs ho (fun k x hx => hp k ▸ hx) (fun _ h => h) rfl

theorem Effect.passing (h : Effect E c s c' s') : Passing c s c' s' := by
  cases h with
  | places t hb => exact .rest rfl (fun k x hx => pending?_of_bare hb k ▸ hx) (fun _ h => h) fun _ h => h
  | vacate k =>
    refine .rest rfl (fun k' x hx => ?_) (fun _ h => h) fun _ h => h
    simp only [Core.pending?, Table.get?_erase] at hx ⊢
    split at hx
    · cases hx
    · exact hx
  | clear => exact .rest rfl (fun _ _ h => by cases h) (fun _ h => h) fun _ h => h
  | join => exact .join rfl (fun _ _ h => h) rfl fun _ h => h
  | unjoin h => exact .unjoin _ rfl h (fun _ _ h => h) rfl fun _ h => h
  | ask p e e' signal signals hs he ha =>
    have hps : e'.pendingSignal = some signal := (ha.pending).2
    rcases ha.signal with ⟨-, he', rfl⟩ | ⟨-, rfl, rfl⟩
    · refine .rest rfl (fun k x hx => ?_) (fun _ h => h) fun x h => by cases h
      rcases he with he | ⟨-, rfl, -⟩
      · exact (pending?_setEntry_of_eq (c := { c with signals := c.signals, nextQuery := _ }) he (hps.trans he'.symm) k).symm.trans hx
      · cases he'
    · refine .ask p.key rfl (fun k x hx => ?_) (fun _ h => h) rfl
      have hx' : (if p.key = k then e'.pendingSignal else c.pending? k) = some x :=
        (pending?_setEntry { c with signals := c.signals.fresh.2, nextQuery := _ } p e' k).symm.trans hx
      split at hx'
      · rename_i hk
        exact Or.inl ⟨hk.symm, Option.some.inj (hx'.symm.trans hps)⟩
      · exact Or.inr hx'
  | @take p q τ e hs hτ he hq =>
    refine .take p.key rfl (by rw [pending?_setEntry, if_pos rfl]) (fun k x hx => ?_) (fun _ h => h) fun x hx => ?_
    · rw [pending?_setEntry] at hx
      split at hx
      · cases hx
      · exact hx
    · rw [Core.pending?, he]
      exact hx
  | @conclude l d e o hs he =>
    have hps : (Entry.commit { e with runningSignal := none } o).1.pendingSignal = e.pendingSignal := by cases o <;> rfl
    refine .ended (o := l.signal) ?_ (by rw [hs]; rfl) fun k => ?_
    · cases l.signal <;> rfl
    · exact (pending?_of_eq (Core.entries_giveIf _ _) k).trans (pending?_setEntry_of_eq he hps k)
  | @endLook l d hs =>
    exact .ended (o := l.signal) rfl (by rw [hs]; rfl) fun k => pending?_of_eq (Core.entries_giveIf _ _) k
  | revoke p bytes e hs he =>
    cases hq : e.pendingQuery with
    | none =>
      have hr : World.revoke e = (false, none, e) := by simp [World.revoke, hq]
      refine .rest rfl (fun k x hx => ?_) (fun _ h => h) fun x h => ?_
      · exact (pending?_setEntry_of_eq he (by rw [hr]) k).symm.trans hx
      · rw [hr] at h
        cases h
    | some q =>
      have hr : (World.revoke e).2.1 = e.pendingSignal ∧ (World.revoke e).2.2.pendingSignal = none := by
        simp [World.revoke, hq]
      refine .take p.key rfl ?_ (fun k x hx => ?_) (fun _ h => h) fun x hx => ?_
      · exact (pending?_setEntry _ _ _ _).trans (by rw [if_pos rfl]; exact hr.2)
      · have hx' := (pending?_setEntry c p (World.revoke e).2.2 k).symm.trans hx
        split at hx'
        · rw [hr.2] at hx'
          cases hx'
        · exact hx'
      · rw [Core.pending?, he]
        exact hr.1.symm.trans hx
  | save p bytes hs => exact .rest rfl (fun _ _ h => h) (fun _ h => h) fun x h => by cases h
  | @enter job hs => exact .rest rfl (fun _ _ h => h) (fun _ h => h) fun x h => by rw [hs]; exact h
  | @commit job e m hs he =>
    refine .ended (o := job.waiters) ?_ (by rw [hs]; rfl) fun k => ?_
    · cases job.waiters <;> rfl
    · exact (pending?_of_eq (Core.entries_giveIf _ _) k).trans (pending?_setEntry_of_eq he (by rfl) k)
  | @endSave job b hs =>
    exact .ended (o := job.waiters) rfl (by rw [hs]; rfl) fun k => pending?_of_eq (Core.entries_giveIf _ _) k
  | forget k => exact .rest rfl (fun k' x hx => pending?_forget c k k' ▸ hx) (fun _ h => h) fun _ h => h
  | shutDown => exact .rest rfl (fun _ _ h => h) (fun _ h => h) fun _ h => h
  | date hs => exact .rest rfl (fun _ _ h => h) (fun _ h => h) fun x h => by rw [hs]; exact h
  | quit => exact .rest rfl (fun _ _ h => h) (fun x h => by cases h) fun x h => by cases h
  | _ => exact .rest rfl (fun _ _ h => h) (fun _ h => h) fun x h => by cases h

/-! ## Every signal has one keeper -/

/-- the keepers after an effect of task `i`: entries, the task itself, and the other tasks as before -/
theorem keeps_update {κ : Keeper} {x : SignalId} (h : keeps c' (Function.update st i s') κ = some x) :
    (∃ k, κ = .entry k ∧ c'.pending? k = some x) ∨ (κ = .call i ∧ s'.joined = some x) ∨
      (κ = .operation i ∧ s'.errand.signal? = some x) ∨
      (∃ j, j ≠ i ∧ (κ = .call j ∨ κ = .operation j) ∧ keeps c st κ = some x) := by
  cases κ with
  | entry k => exact Or.inl ⟨k, rfl, h⟩
  | call j =>
    by_cases hj : j = i
    · subst hj
      exact Or.inr (Or.inl ⟨rfl, by simpa [keeps] using h⟩)
    · exact Or.inr (Or.inr (Or.inr ⟨j, hj, Or.inl rfl, by simpa [keeps, hj] using h⟩))
  | operation j =>
    by_cases hj : j = i
    · subst hj
      exact Or.inr (Or.inr (Or.inl ⟨rfl, by simpa [keeps] using h⟩))
    · exact Or.inr (Or.inr (Or.inr ⟨j, hj, Or.inr rfl, by simpa [keeps, hj] using h⟩))

/-- **Every signal that has not been given has one keeper**: an effect hands it over or gives it. -/
theorem kept_effect (hk : Kept c st) (h : Effect E c (st i) c' s') : Kept c' (Function.update st i s') := by
  cases h.passing with
  | rest hs hp hj ho =>
    refine hk.pass hs (.call i) (.call i) fun κ x hx => ?_
    have hx' : keeps c st κ = some x := by
      rcases keeps_update hx with ⟨k, rfl, hb⟩ | ⟨rfl, hb⟩ | ⟨rfl, hb⟩ | ⟨-, -, -, hb⟩
      · exact hp k x hb
      · exact hj x hb
      · exact ho x hb
      · exact hb
    by_cases e : κ = .call i
    · exact Or.inl ⟨e, e ▸ hx'⟩
    · exact Or.inr ⟨e, hx'⟩
  | take k hs hk' hp hj ho =>
    refine hk.pass hs (.operation i) (.entry k) fun κ x hx => ?_
    rcases keeps_update hx with ⟨k₁, rfl, hb⟩ | ⟨rfl, hb⟩ | ⟨rfl, hb⟩ | ⟨j, -, hκ, hb⟩
    · refine Or.inr ⟨fun e => ?_, hp k₁ x hb⟩
      rw [Keeper.entry.inj e, hk'] at hb
      cases hb
    · exact Or.inr ⟨by simp, hj x hb⟩
    · exact Or.inl ⟨rfl, ho x hb⟩
    · exact Or.inr ⟨by rcases hκ with rfl | rfl <;> simp, hb⟩
  | ask k hs hp hj ho =>
    refine hk.start hs (.entry k) fun κ x hx => ?_
    rcases keeps_update hx with ⟨k₁, rfl, hb⟩ | ⟨rfl, hb⟩ | ⟨rfl, hb⟩ | ⟨-, -, -, hb⟩
    · rcases hp k₁ x hb with ⟨rfl, rfl⟩ | hb
      · exact Or.inl ⟨rfl, rfl⟩
      · exact Or.inr hb
    · exact Or.inr (hj x hb)
    · rw [ho] at hb
      cases hb
    · exact Or.inr hb
  | join hs hp hj ho =>
    refine hk.start hs (.call i) fun κ x hx => ?_
    rcases keeps_update hx with ⟨k, rfl, hb⟩ | ⟨rfl, hb⟩ | ⟨rfl, hb⟩ | ⟨-, -, -, hb⟩
    · exact Or.inr (hp k x hb)
    · exact Or.inl ⟨rfl, Option.some.inj (hb.symm.trans hj)⟩
    · exact Or.inr (ho x hb)
    · exact Or.inr hb
  | unjoin y hs hy hp hj ho =>
    refine hk.give hs (.call i) hy fun κ x hx => ?_
    rcases keeps_update hx with ⟨k, rfl, hb⟩ | ⟨rfl, hb⟩ | ⟨rfl, hb⟩ | ⟨j, hji, hκ, hb⟩
    · exact ⟨by simp, hp k x hb⟩
    · rw [hj] at hb
      cases hb
    · exact ⟨by simp, ho x hb⟩
    · exact ⟨by rcases hκ with rfl | rfl <;> simp [hji], hb⟩
  | release y hs hy hp hj ho =>
    refine hk.give hs (.operation i) hy fun κ x hx => ?_
    rcases keeps_update hx with ⟨k, rfl, hb⟩ | ⟨rfl, hb⟩ | ⟨rfl, hb⟩ | ⟨j, hji, hκ, hb⟩
    · exact ⟨by simp, hp k x hb⟩
    · exact ⟨by simp, hj x hb⟩
    · rw [ho] at hb
      cases hb
    · exact ⟨by rcases hκ with rfl | rfl <;> simp [hji], hb⟩

theorem kept_start : Kept ⟨.empty, {}, {}, 1⟩ fun _ => {} := by
  have hno : ∀ κ, keeps ⟨.empty, {}, {}, 1⟩ (fun _ => {}) κ = none := by
    intro κ
    cases κ <;> rfl
  constructor <;> intros <;> simp_all [Signals.isGiven]

/-! ## Every reconciliation in line has its own number -/

theorem nextQuery_giveIf (c : Core) (x : Option SignalId) : (c.giveIf x).nextQuery = c.nextQuery := by cases x <;> rfl

theorem Effect.nextQuery (h : Effect E c s c' s') : c.nextQuery ≤ c'.nextQuery := by
  cases h with
  | ask => exact Nat.le_succ _
  | unjoin | endLook | endSave | conclude | commit => simp only [Core.giveBack, nextQuery_giveIf]; exact le_rfl
  | _ => exact le_rfl

theorem counted_effect (hk : Counted c st) (h : Effect E c (st i) c' s') : Counted c' (Function.update st i s') := by
  have hprev : ∀ j p q τ, (Function.update st i s' j).errand = .query p q τ →
      (st j).errand = .query p q τ ∨ j = i ∧ q = c.nextQuery ∧ c'.nextQuery = c.nextQuery + 1 := by
    intro j p q τ hj
    by_cases hji : j = i
    · subst hji
      rw [Function.update_self] at hj
      exact (h.query_prev hj).imp_right fun hq => ⟨rfl, hq⟩
    · rw [Function.update_of_ne hji] at hj
      exact Or.inl hj
  constructor
  case fresh =>
    intro j p q τ hj
    rcases hprev j p q τ hj with hj | ⟨-, rfl, e⟩
    · exact lt_of_lt_of_le (hk.fresh j p q τ hj) h.nextQuery
    · exact e ▸ Nat.lt_succ_self _
  case unique =>
    intro j₁ j₂ p₁ p₂ q τ₁ τ₂ h₁ h₂
    rcases hprev j₁ p₁ q τ₁ h₁ with h₁ | ⟨e₁, hq₁, -⟩ <;> rcases hprev j₂ p₂ q τ₂ h₂ with h₂ | ⟨e₂, hq₂, -⟩
    · exact hk.unique j₁ j₂ p₁ p₂ q τ₁ τ₂ h₁ h₂
    · exact absurd (hk.fresh j₁ p₁ q τ₁ h₁) (by rw [hq₂]; exact lt_irrefl _)
    · exact absurd (hk.fresh j₂ p₂ q τ₂ h₂) (by rw [hq₁]; exact lt_irrefl _)
    · rw [e₁, e₂]

end LiveFiles.Engine
