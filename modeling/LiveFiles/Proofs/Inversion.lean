/-
What one effect can do, seen from an entry, from an errand and from a signal. Every invariant of the protocol is proved
from these lemmas, so that the list of effects is gone through once for each of them and not once for each invariant.
- `Effect.origin`: where an entry comes from; `Effect.kept`: how it can go away;
- `Effect.of_query`, `Effect.of_look`, `Effect.of_save`: how an errand goes on;
- `Effect.query_prev`, `Effect.look_prev`, `Effect.save_prev`, `Effect.settle_prev`: how it began;
- `Effect.given`: signals stay given.
-/
import LiveFiles.Proofs.Protocol

namespace LiveFiles.Engine

variable {E : Mark → Prop} {c c' : Core} {s s' : Stake}

@[simp] theorem Core.entries_giveIf (c : Core) (x : Option SignalId) : (c.giveIf x).entries = c.entries := by
  cases x <;> rfl

theorem Core.get?_setEntry (c : Core) (p : Path) (e : Entry) (k : Path.Key) :
    (c.setEntry p e).entries.get? k = if p.key = k then some e else c.entries.get? k := Table.get?_insert _ _ _ _

/-! ## Entries -/

/-- where an entry `e'` at `k` comes from after an effect -/
inductive Origin (E : Mark → Prop) (c : Core) (s : Stake) (c' : Core) (s' : Stake) (k : Path.Key) (e' : Entry) : Prop
  | same (e : Entry) (he : c.entries.get? k = some e) (hb : e'.bare = e.bare)
      (hr : ∀ id, e'.registered.contains id = true → e.registered.contains id = true ∨ E (.registered k))
  | asked (p : Path) (e : Entry) (signal : SignalId) (τ : Turn) (hk : p.key = k)
      (he : c.entries.get? k = some e ∨ c.entries.get? k = none ∧ e = { spelling := p } ∧ E (.created k))
      (ha : Asked c e e' signal c'.signals) (hs : s.errand = .idle) (hs' : s'.errand = .query p c.nextQuery τ)
  | taken (p : Path) (q : QueryId) (τ : Turn) (e : Entry) (hs : s.errand = .query p q τ) (hk : p.key = k)
      (he : c.entries.get? k = some e) (hq : e.pendingQuery = some q)
      (he' : e' = { e with pendingQuery := none, pendingSignal := none, runningSignal := e.pendingSignal })
      (hs' : s'.errand = .look ⟨p, τ, e.pendingSignal, e.contents.isSome, e.modified⟩ none)
  | concluded (l : Look) (d : Option Instant) (e : Entry) (o : Observation) (hs : s.errand = .look l d)
      (hk : l.path.key = k) (he : c.entries.get? k = some e) (ho : E (.observed k o))
      (he' : e' = (Entry.commit { e with runningSignal := none } o).1) (hs' : s'.errand = .idle)
  | revoked (p : Path) (bytes : ByteArray) (e : Entry) (τ : Turn) (hk : p.key = k) (he : c.entries.get? k = some e)
      (he' : e' = (World.revoke e).2.2) (hs : s.errand = .idle)
      (hs' : s'.errand = .save ⟨p, bytes, τ, (World.revoke e).1, (World.revoke e).2.1⟩ false)
  | committed (job : SaveJob) (e : Entry) (m : Instant) (hs : s.errand = .save job true) (hk : job.path.key = k)
      (he : c.entries.get? k = some e) (ho : E (.committed k (Text.Utf8.decodeLossy job.bytes) m))
      (he' : e' = { e with contents := some (Text.Utf8.decodeLossy job.bytes), modified := m })
      (hs' : s'.errand = .idle)
  | forgotten (e : Entry) (he : c.entries.get? k = some e)
      (he' : e' = { e with revokedSignals := e.revokedSignals.filter fun x => !c.signals.isGiven x })

theorem Effect.origin (h : Effect E c s c' s') {k : Path.Key} {e' : Entry} (he : c'.entries.get? k = some e') :
    Origin E c s c' s' k e' := by
  have hrest : c.entries.get? k = some e' → Origin E c s c' s' k e' := fun h => .same e' h rfl fun _ h => Or.inl h
  cases h with
  | places t hb hr =>
    have hk := hb k
    rw [show t.get? k = some e' from he] at hk
    obtain ⟨e, he₀, hbare⟩ := Option.map_eq_some_iff.1 hk.symm
    exact .same e he₀ hbare.symm (hr k e e' he₀ he)
  | vacate k' =>
    simp only [Table.get?_erase] at he
    split at he
    · cases he
    · exact hrest he
  | clear => cases he
  | ask p e e₁ signal signals hs hp ha =>
    simp only [Core.enlist, Core.get?_setEntry] at he
    split at he
    · rename_i hk
      cases he
      exact .asked p e signal _ hk (hk ▸ hp) ha hs rfl
    · exact hrest he
  | @take p q τ e hs hτ hp hq =>
    rw [Core.get?_setEntry] at he
    split at he
    · rename_i hk
      cases he
      exact .taken p q τ e hs hk (hk ▸ hp) hq rfl rfl
    · exact hrest he
  | @conclude l d e o hs hp ho =>
    simp only [Core.giveBack, Core.entries_giveIf, Core.get?_setEntry] at he
    split at he
    · rename_i hk
      cases he
      exact .concluded l d e o hs hk (hk ▸ hp) (hk ▸ ho) rfl rfl
    · exact hrest he
  | revoke p bytes e hs hp =>
    simp only [Core.enlist, Core.get?_setEntry] at he
    split at he
    · rename_i hk
      cases he
      exact .revoked p bytes e _ hk (hk ▸ hp) rfl hs rfl
    · exact hrest he
  | @commit job e m hs hp ho =>
    simp only [Core.giveBack, Core.entries_giveIf, Core.get?_setEntry] at he
    split at he
    · rename_i hk
      cases he
      exact .committed job e m hs hk (hk ▸ hp) (hk ▸ ho) rfl rfl
    · exact hrest he
  | forget k' =>
    simp only [Core.forget, Table.get?_modify] at he
    split at he
    · obtain ⟨e, hp, rfl⟩ := Option.map_eq_some_iff.1 he
      exact .forgotten e hp rfl
    · exact hrest he
  | endLook => exact hrest (by simpa [Core.giveBack] using he)
  | endSave => exact hrest (by simpa [Core.giveBack] using he)
  | unjoin => exact hrest (by simpa using he)
  | _ => exact hrest he

/-- an entry goes away only where nobody has a turn, or when the engine shuts down -/
theorem Effect.kept (h : Effect E c s c' s') {k : Path.Key} {e : Entry} (he : c.entries.get? k = some e) :
    (∃ e', c'.entries.get? k = some e') ∨ c.turns.isIdle k = true ∨ s.closing = true := by
  cases h with
  | places t hb =>
    have hk := hb k
    rw [he] at hk
    obtain ⟨e', he', -⟩ := Option.map_eq_some_iff.1 hk
    exact Or.inl ⟨e', he'⟩
  | vacate k' hi =>
    by_cases hk : k' = k
    · exact Or.inr (Or.inl (hk ▸ hi))
    · exact Or.inl ⟨e, by simp [Table.get?_erase, hk, he]⟩
  | clear hcl => exact Or.inr (Or.inr hcl)
  | forget k' =>
    left
    simp only [Core.forget, Table.get?_modify, he]
    split <;> exact ⟨_, rfl⟩
  | ask | take | revoke =>
    left
    simp only [Core.enlist, Core.get?_setEntry]
    split
    · exact ⟨_, rfl⟩
    · exact ⟨e, he⟩
  | conclude | commit =>
    left
    simp only [Core.giveBack, Core.entries_giveIf, Core.get?_setEntry]
    split
    · exact ⟨_, rfl⟩
    · exact ⟨e, he⟩
  | endLook | endSave => exact Or.inl ⟨e, by simpa [Core.giveBack] using he⟩
  | unjoin => exact Or.inl ⟨e, by simpa using he⟩
  | _ => exact Or.inl ⟨e, he⟩

theorem known_revoke (e : Entry) : (World.revoke e).2.2.known = e.known := by
  unfold World.revoke
  split <;> rfl

/-- what an entry says of the file changes only when the operation that has the lock ends -/
theorem Effect.entry_next (h : Effect E c s c' s') {k : Path.Key} {e : Entry} (he : c.entries.get? k = some e) :
    (∃ e', c'.entries.get? k = some e' ∧ (e'.known = e.known ∨ s'.errand = .idle ∧
      ((∃ l d, s.errand = .look l d ∧ l.path.key = k) ∨ ∃ job, s.errand = .save job true ∧ job.path.key = k))) ∨
    c.turns.isIdle k = true ∨ s.closing = true := by
  refine (h.kept he).imp_left fun ⟨e', he'⟩ => ⟨e', he', ?_⟩
  cases h.origin he' with
  | same e₁ he₁ hb =>
    cases he.symm.trans he₁
    exact Or.inl (Entry.known_of_bare hb)
  | asked p e₁ signal τ hk he₁ ha =>
    rcases he₁ with he₁ | ⟨he₁, -⟩ <;> cases he.symm.trans he₁
    exact Or.inl ha.known
  | taken p q τ e₁ hs hk he₁ hq h' =>
    cases he.symm.trans he₁
    exact Or.inl (by rw [h']; rfl)
  | concluded l d e₁ o hs hk he₁ ho h' hs' => exact Or.inr ⟨hs', Or.inl ⟨l, d, hs, hk⟩⟩
  | revoked p bytes e₁ τ hk he₁ h' =>
    cases he.symm.trans he₁
    exact Or.inl (by rw [h', known_revoke])
  | committed job e₁ m hs hk he₁ ho h' hs' => exact Or.inr ⟨hs', Or.inr ⟨job, hs, hk⟩⟩
  | forgotten e₁ he₁ h' =>
    cases he.symm.trans he₁
    exact Or.inl (by rw [h']; rfl)

/-! ## Signals -/

theorem isGiven_giveIf (c : Core) (x : Option SignalId) (y : SignalId) :
    (c.giveIf x).signals.isGiven y = (decide (x = some y) || c.signals.isGiven y) := by
  cases x with
  | none => simp [Core.giveIf]
  | some x => simp [Core.giveIf, Signals.isGiven_give]

/-- signals stay given -/
theorem Effect.given (h : Effect E c s c' s') {x : SignalId} (hx : c.signals.isGiven x = true) :
    c'.signals.isGiven x = true := by
  cases h with
  | unjoin => rw [isGiven_giveIf, hx, Bool.or_true]
  | ask p e e' signal signals hs he ha =>
    rcases ha.signal with ⟨-, -, e⟩ | ⟨-, -, e⟩
    · exact (show signals.isGiven x = true from e ▸ hx)
    · exact (show signals.isGiven x = true from e ▸ hx)
  | conclude | endLook | commit | endSave =>
    simp only [Core.giveBack, isGiven_giveIf, Core.setEntry, Bool.or_eq_true]
    exact Or.inr hx
  | _ => exact hx

/-! ## Errands -/

/-- what becomes of a reconciliation in line: it stays there, leaves the line, or gets the lock -/
theorem Effect.of_query (h : Effect E c s c' s') {p : Path} {q : QueryId} {τ : Turn} (hs : s.errand = .query p q τ) :
    s'.errand = .query p q τ ∨
    (c' = c.giveBack τ ∧ s'.errand = .idle ∧
      ((∃ e, c.entries.get? p.key = some e ∧ e.pendingQuery = some q) → E (.orphaned p.key))) ∨
    ∃ e, c.entries.get? p.key = some e ∧ e.pendingQuery = some q ∧
      c' = c.setEntry p { e with pendingQuery := none, pendingSignal := none, runningSignal := e.pendingSignal } ∧
      s'.errand = .look ⟨p, τ, e.pendingSignal, e.contents.isSome, e.modified⟩ none := by
  cases h with
  | withdraw hs' hq =>
    rw [hs] at hs'
    cases hs'
    exact Or.inr (Or.inl ⟨rfl, rfl, hq⟩)
  | take hs' hτ he hq =>
    rw [hs] at hs'
    cases hs'
    exact Or.inr (Or.inr ⟨_, he, hq, rfl, rfl⟩)
  | ask _ _ _ _ _ hs' | revoke _ _ _ hs' | save _ _ hs' | drain _ hs' | date hs' | conclude _ hs' | endLook hs' | enter hs'
  | commit _ hs' | endSave hs' | undrain hs' | settle _ _ _ hs' | rest hs' | quit hs' =>
    rw [hs] at hs'
    cases hs'
  | _ => exact Or.inl hs

/-- what becomes of a reconciliation that has the lock: it goes on, or ends with an observation or without one; then its signal
is given -/
theorem Effect.of_look (h : Effect E c s c' s') {l : Look} {d : Option Instant} (hs : s.errand = .look l d) :
    (∃ d', s'.errand = .look l d') ∨
    (∀ x, l.signal = some x → c'.signals.isGiven x = true) ∧
      ((∃ o, E (.observed l.path.key o)) ∨ ((c.entries.get? l.path.key).isSome → E (.cutShort l.path.key))) := by
  cases h with
  | date hs' =>
    rw [hs] at hs'
    cases hs'
    exact Or.inl ⟨_, rfl⟩
  | conclude o hs' _ ho =>
    rw [hs] at hs'
    cases hs'
    exact Or.inr ⟨fun x hx => by simp [Core.giveBack, isGiven_giveIf, hx], Or.inl ⟨o, ho⟩⟩
  | endLook hs' hcut =>
    rw [hs] at hs'
    cases hs'
    exact Or.inr ⟨fun x hx => by simp [Core.giveBack, isGiven_giveIf, hx], Or.inr hcut⟩
  | ask _ _ _ _ _ hs' | withdraw hs' | take hs' | revoke _ _ _ hs' | save _ _ hs' | enter hs' | commit _ hs' | endSave hs'
  | drain _ hs' | undrain hs' | settle _ _ _ hs' | rest hs' | quit hs' =>
    rw [hs] at hs'
    cases hs'
  | _ => exact Or.inl ⟨d, hs⟩

/-- what becomes of a write: it goes on, or ends with a commit or without one; then those who wait for it are released -/
theorem Effect.of_save (h : Effect E c s c' s') {job : SaveJob} {b : Bool} (hs : s.errand = .save job b) :
    (∃ b', s'.errand = .save job b') ∨
    (∀ x, job.waiters = some x → c'.signals.isGiven x = true) ∧
      ((∃ text date, E (.committed job.path.key text date)) ∨
        ((c.entries.get? job.path.key).isSome → job.waiters.isSome → E (.cutShort job.path.key))) := by
  cases h with
  | enter hs' =>
    rw [hs] at hs'
    cases hs'
    exact Or.inl ⟨_, rfl⟩
  | commit m hs' _ hm =>
    rw [hs] at hs'
    cases hs'
    exact Or.inr ⟨fun x hx => by simp [Core.giveBack, isGiven_giveIf, hx], Or.inl ⟨_, m, hm⟩⟩
  | endSave hs' hcut =>
    rw [hs] at hs'
    cases hs'
    exact Or.inr ⟨fun x hx => by simp [Core.giveBack, isGiven_giveIf, hx], Or.inr hcut⟩
  | ask _ _ _ _ _ hs' | withdraw hs' | take hs' | date hs' | conclude _ hs' | endLook hs' | revoke _ _ _ hs' | save _ _ hs'
  | drain _ hs' | undrain hs' | settle _ _ _ hs' | rest hs' | quit hs' =>
    rw [hs] at hs'
    cases hs'
  | _ => exact Or.inl ⟨b, hs⟩

/-- a reconciliation in line stays there, leaves it, or leaves no signal pending -/
theorem Effect.query_next (h : Effect E c s c' s') {p : Path} {q : QueryId} {τ : Turn} (hs : s.errand = .query p q τ) :
    s'.errand = .query p q τ ∨
    (c'.entries = c.entries ∧ ((∃ e, c.entries.get? p.key = some e ∧ e.pendingQuery = some q) → E (.orphaned p.key))) ∨
    ∃ e, c'.entries.get? p.key = some e ∧ e.pendingSignal = none := by
  rcases h.of_query hs with hs' | ⟨rfl, -, hq⟩ | ⟨e, -, -, rfl, -⟩
  · exact Or.inl hs'
  · exact Or.inr (Or.inl ⟨rfl, hq⟩)
  · exact Or.inr (Or.inr ⟨_, by rw [Core.get?_setEntry, if_pos rfl], rfl⟩)

/-- a reconciliation in line was so before, or has just been requested, with a new number -/
theorem Effect.query_prev (h : Effect E c s c' s') {p : Path} {q : QueryId} {τ : Turn} (hs : s'.errand = .query p q τ) :
    s.errand = .query p q τ ∨ q = c.nextQuery ∧ c'.nextQuery = c.nextQuery + 1 := by
  cases h with
  | ask => cases hs; exact Or.inr ⟨rfl, rfl⟩
  | _ => first | exact Or.inl hs | cases hs

/-- a reconciliation that has the lock had it before, or has just taken it -/
theorem Effect.look_prev (h : Effect E c s c' s') {l : Look} {d : Option Instant} (hs : s'.errand = .look l d) :
    (∃ d₀, s.errand = .look l d₀ ∧ c'.turns = c.turns) ∨
    ∃ q e, s.errand = .query l.path q l.turn ∧ c'.turns = c.turns ∧ c.turns.holds l.turn = true ∧
      c.entries.get? l.path.key = some e ∧ l.signal = e.pendingSignal ∧ l.had = e.contents.isSome ∧ l.last = e.modified := by
  cases h with
  | take hs' hτ he => cases hs; exact Or.inr ⟨_, _, hs', rfl, hτ, he, rfl, rfl, rfl⟩
  | date hs' => cases hs; exact Or.inl ⟨_, hs', rfl⟩
  | unjoin => exact Or.inl ⟨d, hs, Core.turns_giveIf _ _⟩
  | _ => first | exact Or.inl ⟨d, hs, rfl⟩ | cases hs

/-- a write that has the lock had it before, or has just entered -/
theorem Effect.save_prev (h : Effect E c s c' s') {job : SaveJob} (hs : s'.errand = .save job true) :
    (s.errand = .save job true ∧ c'.turns = c.turns) ∨
    s.errand = .save job false ∧ c'.turns = c.turns ∧ c.turns.holds job.turn = true := by
  cases h with
  | enter hs' hτ => cases hs; exact Or.inr ⟨hs', rfl, hτ⟩
  | unjoin => exact Or.inl ⟨hs, Core.turns_giveIf _ _⟩
  | _ => first | exact Or.inl ⟨hs, rfl⟩ | cases hs

/-- a call that waits for a signal did so before, or has just found the signal in the entry -/
theorem Effect.settle_prev (h : Effect E c s c' s') {p : Path} {x : SignalId} (hs : s'.errand = .settle p x) :
    s.errand = .settle p x ∨ c' = c ∧ ∃ e, c.entries.get? p.key = some e ∧ e.unsettled c.signals = some x := by
  cases h with
  | settle _ _ _ _ he hx => cases hs; exact Or.inr ⟨rfl, _, he, hx⟩
  | _ => first | exact Or.inl hs | cases hs

end LiveFiles.Engine
