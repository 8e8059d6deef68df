/-
What a call to watch returns. A subscriber should be shown what an operation has found: since the entry was made, a
reconciliation has ended with an observation of the disk or a write has put its text into the entry (`Loads`), and where
the file is reported missing, a reconciliation has found no file (`FindsNothing`).
- **`shown_iff`**: in a run without shutting down every snapshot returned is of this kind exactly if no call to watch
  settles at a path where an operation has been cut short since the entry was made and none has loaded it.
- `cut_short_watch_returns_unloaded`: a run in which this happens. The first call to watch is cancelled during its
  reconciliation, and the second one returns that the file is missing, though it has been there all along.
An operation that is cut short releases those who wait for it like one that ends well.
-/
import LiveFiles.Proofs.Endings
import LiveFiles.Proofs.Guards
import LiveFiles.Proofs.Outcomes

namespace LiveFiles.Engine

/-! ## What happens to an entry -/

/-- an operation ends well: a reconciliation with an observation of the disk, or a write with its text in the entry -/
def Loads (w : World) (m : Move) (k : Path.Key) : Prop :=
  (∃ o, Marks w m (.observed k o)) ∨ ∃ text date, Marks w m (.committed k text date)

/-- an operation with a signal to give fails or is abandoned -/
def CutShort (w : World) (m : Move) (k : Path.Key) : Prop := Marks w m (.cutShort k)

/-- a reconciliation ends because there is no file -/
def FindsNothing (w : World) (m : Move) (k : Path.Key) : Prop :=
  ∃ id t r l, m = .turn id ∧ w.served? id = some t ∧ t.cancelled = false ∧ t.phase.activity.refresh? = some r ∧
    r.look? = some l ∧ l.path.key = k ∧ w.disk.stat l.path = .ok none ∧ r.finding w.disk = some (.absent l.had)

/-- a call to watch settles for the entry of its path as it is -/
def Settles (w : World) (m : Move) (seat : Seat) : Prop :=
  ∃ id t, m = .turn id ∧ w.served? id = some t ∧ t.cancelled = false ∧ w.settles t.phase.activity seat

/-- the snapshot that a call to watch returns in this move -/
def World.returned? (w : World) : Move → Option Snapshot
  | .turn id =>
    (w.served? id).bind fun t =>
      match t.cancelled, ((floorTo w id).step t.phase.activity).2 with
      | false, .ended (.ok (.snapshot x)) => some x
      | _, _ => none
  | _ => none

/-- something has happened at a path, and the entry of the path has been there ever since -/
def Since (P : World → Move → Path.Key → Prop) (w : World) (moves : Nat → Move) (n : Nat) (k : Path.Key) : Prop :=
  ∃ i < n, P (w.trace moves i) (moves i) k ∧ ∀ j, i < j → j ≤ n → (w.trace moves j).entries.contains k = true

variable {P : World → Move → Path.Key → Prop} {w : World} {moves : Nat → Move} {n : Nat} {k : Path.Key}

theorem returned?_eq_some {m : Move} {x : Snapshot} (h : w.returned? m = some x) :
    ∃ id t, m = .turn id ∧ w.served? id = some t ∧ t.cancelled = false ∧
      ((floorTo w id).step t.phase.activity).2 = .ended (.ok (.snapshot x)) := by
  cases m with
  | turn id =>
    obtain ⟨t, ht, h⟩ := Option.bind_eq_some_iff.1 h
    split at h
    · rename_i hc hx
      cases h
      exact ⟨id, t, rfl, ht, hc, hx⟩
    · cases h
  | _ => cases h

theorem Since.succ (h : Since P w moves n k) (ht : (w.trace moves (n + 1)).entries.contains k = true) :
    Since P w moves (n + 1) k := by
  obtain ⟨i, hi, hP, htracked⟩ := h
  refine ⟨i, hi.trans (Nat.lt_succ_self n), hP, fun j hij hj => ?_⟩
  rcases Nat.lt_or_eq_of_le hj with hj | rfl
  · exact htracked j hij (Nat.le_of_lt_succ hj)
  · exact ht

theorem Since.now (h : P (w.trace moves n) (moves n) k) (ht : (w.trace moves (n + 1)).entries.contains k = true) :
    Since P w moves (n + 1) k := by
  refine ⟨n, Nat.lt_succ_self n, h, fun j hij hj => ?_⟩
  cases Nat.le_antisymm hj hij
  exact ht

theorem Since.cases (h : Since P w moves (n + 1) k) :
    P (w.trace moves n) (moves n) k ∨ Since P w moves n k ∧ (w.trace moves n).entries.contains k = true := by
  obtain ⟨i, hi, hP, htracked⟩ := h
  rcases Nat.lt_succ_iff_lt_or_eq.1 hi with hi | rfl
  · exact Or.inr ⟨⟨i, hi, hP, fun j hij hj => htracked j hij (hj.trans (Nat.le_succ n))⟩, htracked n hi (Nat.le_succ n)⟩
  · exact Or.inl hP

theorem contains_of_get? {α : Type} {t : Table Path.Key α} {a : α} (h : t.get? k = some a) : t.contains k = true := by
  rw [← Bool.not_eq_false, Table.contains_eq_false_iff, h]
  simp

/-! ## Signals stored in an entry -/

variable {E : Mark → Prop} {c c' : Core} {s s' : Stake} {st : TaskId → Stake} {i : TaskId} {e e' : Entry} {x : SignalId}

def Entry.Stores (e : Entry) (x : SignalId) : Prop :=
  e.pendingSignal = some x ∨ e.runningSignal = some x ∨ x ∈ e.revokedSignals

/-- there is something to wait for -/
def Entry.Awaited (e : Entry) (signals : Signals) : Prop := ∃ x, e.Stores x ∧ signals.isGiven x = false

theorem not_awaited_of_unsettled {signals : Signals} (h : e.unsettled signals = none) : ¬ e.Awaited signals := by
  rintro ⟨x, hx, hng⟩
  have hall := List.find?_eq_none.1 h x
  simp only [List.mem_append, Option.mem_toList, hng, Bool.not_false, not_true_eq_false, imp_false] at hall
  exact hall (by rcases hx with hx | hx | hx <;> simp [hx])

/-- an operation at a path ends, well or not -/
def Ends (E : Mark → Prop) (k : Path.Key) : Prop :=
  (∃ o, E (.observed k o)) ∨ (∃ text date, E (.committed k text date)) ∨ E (.cutShort k)

/-- a signal is given by the task that keeps it -/
theorem Effect.gives (h : Effect E c s c' s') (hng : c.signals.isGiven x = false) (hg : c'.signals.isGiven x = true) :
    s.joined = some x ∨ s.errand.signal? = some x := by
  have hsame : c.signals.isGiven x ≠ true := by simp [hng]
  cases h.passing with
  | rest hs | take k hs => exact absurd (hs ▸ hg) hsame
  | ask k hs | join hs =>
    rw [hs] at hg
    exact absurd hg hsame
  | unjoin y hs hy =>
    rw [hs, Signals.isGiven_give, hng, Bool.or_false, decide_eq_true_eq] at hg
    exact Or.inl (hg ▸ hy)
  | release y hs hy =>
    rw [hs, Signals.isGiven_give, hng, Bool.or_false, decide_eq_true_eq] at hg
    exact Or.inr (hg ▸ hy)

theorem Effect.look_ends (h : Effect E c s c' s') {l : Look} {d : Option Instant} (hs : s.errand = .look l d)
    (hj : s.joined ≠ some x) (hng : c.signals.isGiven x = false) (hg : c'.signals.isGiven x = true)
    (he : (c.entries.get? l.path.key).isSome) : Ends E l.path.key := by
  have hsame : c.signals.isGiven x ≠ true := by simp [hng]
  cases h with
  | conclude o hs' _ ho =>
    rw [hs] at hs'
    cases hs'
    exact Or.inl ⟨o, ho⟩
  | endLook hs' hcut =>
    rw [hs] at hs'
    cases hs'
    exact Or.inr (Or.inr (hcut he))
  | unjoin hj' =>
    rw [isGiven_giveIf, hng, Bool.or_false, decide_eq_true_eq] at hg
    exact absurd (hj'.trans hg) hj
  | ask _ _ _ _ _ hs' => rw [hs] at hs'; cases hs'
  | commit _ hs' => rw [hs] at hs'; cases hs'
  | endSave hs' => rw [hs] at hs'; cases hs'
  | _ => exact absurd hg hsame

theorem Effect.save_ends (h : Effect E c s c' s') {job : SaveJob} {b : Bool} (hs : s.errand = .save job b)
    (hx : job.waiters = some x) (hj : s.joined ≠ some x) (hng : c.signals.isGiven x = false)
    (hg : c'.signals.isGiven x = true) (he : (c.entries.get? job.path.key).isSome) : Ends E job.path.key := by
  have hsame : c.signals.isGiven x ≠ true := by simp [hng]
  cases h with
  | commit _ hs' _ hm =>
    rw [hs] at hs'
    cases hs'
    exact Or.inr (Or.inl ⟨_, _, hm⟩)
  | endSave hs' hcut =>
    rw [hs] at hs'
    cases hs'
    exact Or.inr (Or.inr (hcut he (by rw [hx]; rfl)))
  | unjoin hj' =>
    rw [isGiven_giveIf, hng, Bool.or_false, decide_eq_true_eq] at hg
    exact absurd (hj'.trans hg) hj
  | ask _ _ _ _ _ hs' => rw [hs] at hs'; cases hs'
  | conclude _ hs' => rw [hs] at hs'; cases hs'
  | endLook hs' => rw [hs] at hs'; cases hs'
  | _ => exact absurd hg hsame

/-- a signal that an entry stores is given only when an operation at its path ends -/
theorem Proper.stored_given (hp : Proper c st) (h : Effect E c (st i) c' s') (he : c.entries.get? k = some e)
    (hx : e.Stores x) (hng : c.signals.isGiven x = false) (hg : c'.signals.isGiven x = true) : Ends E k := by
  have hgiver : keeps c st (.call i) = some x ∨ keeps c st (.operation i) = some x := h.gives hng hg
  have hcall : ∀ κ, κ ≠ .call i → keeps c st κ = some x → (st i).joined ≠ some x :=
    fun κ hκ hx hj => hκ (hp.kept.unique _ _ x hx hj)
  have hop : ∀ κ, κ ≠ .call i → keeps c st κ = some x → κ = .operation i := by
    intro κ hκ hx
    rcases hgiver with hj | ho
    · exact absurd hj (hcall κ hκ hx)
    · exact hp.kept.unique _ _ x hx ho
  rcases hx with hx | hx | hx
  · have hk : keeps c st (.entry k) = some x := by simp only [keeps, Core.pending?, he]; exact hx
    cases hop (.entry k) (by simp) hk
  · obtain ⟨j, l, d, hj, rfl, hl⟩ := hp.guarded.running k e x he hx hng
    have hk : keeps c st (.operation j) = some x := by simp only [keeps, hj]; exact hl
    cases hop (.operation j) (by simp) hk
    exact h.look_ends hj (hcall (.operation _) (by simp) hk) hng hg (by rw [he]; rfl)
  · obtain ⟨j, job, b, hj, rfl, hl⟩ := hp.guarded.revoked k e x he hx hng
    have hk : keeps c st (.operation j) = some x := by simp only [keeps, hj]; exact hl
    cases hop (.operation j) (by simp) hk
    exact h.save_ends hj hl (hcall (.operation _) (by simp) hk) hng hg (by rw [he]; rfl)

/-- what an entry stores after an effect, if no operation ends there: what it stored before, or a signal that is kept -/
theorem Origin.stores (h : Origin E c s c' s' k e') (he : c.entries.get? k = some e)
    (hp : e.pendingQuery = none ↔ e.pendingSignal = none) (hx : e.Stores x) (hng : c.signals.isGiven x = false) :
    Ends E k ∨ e'.Stores x ∨ (∃ y, e'.pendingSignal = some y) ∨ ∃ y, e'.runningSignal = some y ∧ s'.errand.signal? = some y := by
  cases h with
  | same e₁ he₁ hb =>
    cases he.symm.trans he₁
    obtain ⟨-, -, -, -, hpend, hrun, hrev⟩ := Entry.bare_eq hb
    refine Or.inr (Or.inl ?_)
    rw [Entry.Stores, hpend, hrun, hrev]
    exact hx
  | asked p e₁ signal τ hk he₁ ha => exact Or.inr (Or.inr (Or.inl ⟨_, ha.pending.2⟩))
  | taken p q τ e₁ hs hk he₁ hq h' hs' =>
    cases he.symm.trans he₁
    have hne : e.pendingSignal ≠ none := fun hno => absurd (hp.2 hno) (by simp [hq])
    obtain ⟨y, hy⟩ := Option.ne_none_iff_exists'.1 hne
    subst h'
    exact Or.inr (Or.inr (Or.inr ⟨y, hy, by rw [hs']; exact hy⟩))
  | concluded l d e₁ o hs hk he₁ ho => exact Or.inl (Or.inl ⟨o, ho⟩)
  | revoked p bytes e₁ τ hk he₁ h' =>
    cases he.symm.trans he₁
    rcases revoke_cases e with ⟨-, hr⟩ | ⟨-, hr⟩ <;> rw [hr] at h' <;> subst h'
    · exact Or.inr (Or.inl hx)
    · rcases hx with hx | hx | hx
      · exact Or.inr (Or.inl (Or.inr (Or.inr (by simp [hx]))))
      · exact Or.inr (Or.inl (Or.inr (Or.inl hx)))
      · exact Or.inr (Or.inl (Or.inr (Or.inr (List.mem_append_left _ hx))))
  | committed job e₁ m hs hk he₁ ho => exact Or.inl (Or.inr (Or.inl ⟨_, _, ho⟩))
  | forgotten e₁ he₁ h' =>
    cases he.symm.trans he₁
    subst h'
    rcases hx with hx | hx | hx
    · exact Or.inr (Or.inl (Or.inl hx))
    · exact Or.inr (Or.inl (Or.inr (Or.inl hx)))
    · exact Or.inr (Or.inl (Or.inr (Or.inr (List.mem_filter.2 ⟨hx, by simp [hng]⟩))))

theorem Kept.awaited_of_pending (hk : Kept c st) (he : c.entries.get? k = some e) (hx : e.pendingSignal = some x) :
    e.Awaited c.signals :=
  ⟨x, Or.inl hx, hk.secret (.entry k) x (by simp only [keeps, Core.pending?, he]; exact hx)⟩

/-- **An entry is awaited until an operation at its path ends.** -/
theorem Proper.awaited_effect (hp : Proper c st) (hE : ¬ E .shutsDown) (h : Effect E c (st i) c' s')
    (he' : c'.entries.get? k = some e') (ha : ∀ e, c.entries.get? k = some e → e.Awaited c.signals) :
    Ends E k ∨ e'.Awaited c'.signals := by
  have hk' := (proper_effect hp hE h).kept
  cases he : c.entries.get? k with
  | none =>
    -- the entry is new, so that its first reconciliation is pending
    cases h.origin he' with
    | asked p e signal τ hk he₁ hask => exact Or.inr (hk'.awaited_of_pending he' hask.pending.2)
    | same e he₁ => cases he.symm.trans he₁
    | taken p q τ e hs hk he₁ => cases he.symm.trans he₁
    | concluded l d e o hs hk he₁ => cases he.symm.trans he₁
    | revoked p bytes e τ hk he₁ => cases he.symm.trans he₁
    | committed job e m hs hk he₁ => cases he.symm.trans he₁
    | forgotten e he₁ => cases he.symm.trans he₁
  | some e =>
    obtain ⟨x, hx, hng⟩ := ha e he
    rcases (h.origin he').stores he (hp.guarded.paired k e he) hx hng with hend | hx' | ⟨y, hy⟩ | ⟨y, hy, hs'⟩
    · exact Or.inl hend
    · cases hg : c'.signals.isGiven x with
      | false => exact Or.inr ⟨x, hx', hg⟩
      | true => exact Or.inl (hp.stored_given h he hx hng hg)
    · exact Or.inr (hk'.awaited_of_pending he' hy)
    · exact Or.inr ⟨y, Or.inr (Or.inl hy), hk'.secret (.operation i) y (by simpa [keeps] using hs')⟩

/-- a subscriber of an entry was so before, unless one has just been registered -/
theorem Origin.registered (h : Origin E c s c' s' k e') {id : SubscriberId} (hid : e'.registered.contains id = true) :
    (∃ e, c.entries.get? k = some e ∧ e.registered.contains id = true) ∨ E (.registered k) := by
  cases h with
  | same e he hb hr => exact (hr id hid).imp_left fun h => ⟨e, he, h⟩
  | asked p e signal τ hk he ha =>
    rcases he with he | ⟨-, rfl, -⟩
    · exact Or.inl ⟨e, he, ha.registered id hid⟩
    · cases ha.registered id hid
  | taken p q τ e hs hk he hq h' => exact Or.inl ⟨e, he, by rwa [h'] at hid⟩
  | concluded l d e o hs hk he ho h' =>
    subst h'
    cases o <;> exact Or.inl ⟨e, he, hid⟩
  | revoked p bytes e τ hk he h' =>
    rcases revoke_cases e with ⟨-, hr⟩ | ⟨-, hr⟩ <;> rw [h', hr] at hid <;> exact Or.inl ⟨e, he, hid⟩
  | committed job e m hs hk he ho h' => exact Or.inl ⟨e, he, by rwa [h'] at hid⟩
  | forgotten e he h' => exact Or.inl ⟨e, he, by rwa [h'] at hid⟩

/-- an entry without a text had none before, unless its file has just been found missing or it is new -/
theorem Origin.missing (h : Origin E c s c' s' k e') (hno : e'.contents = none) :
    (∃ e, c.entries.get? k = some e ∧ e.contents = none) ∨ E (.observed k .missing) ∨ E (.created k) := by
  cases h with
  | same e he hb => exact Or.inl ⟨e, he, (Entry.bare_eq hb).1.symm.trans hno⟩
  | asked p e signal τ hk he ha =>
    rcases he with he | ⟨-, -, hcreated⟩
    · exact Or.inl ⟨e, he, ha.contents.1.symm.trans hno⟩
    · exact Or.inr (Or.inr hcreated)
  | taken p q τ e hs hk he hq h' => exact Or.inl ⟨e, he, by rwa [h'] at hno⟩
  | concluded l d e o hs hk he ho h' =>
    subst h'
    cases o with
    | unchanged => exact Or.inl ⟨e, he, hno⟩
    | missing => exact Or.inr (Or.inl ho)
    | changed text date => cases hno
  | revoked p bytes e τ hk he h' =>
    rcases revoke_cases e with ⟨-, hr⟩ | ⟨-, hr⟩ <;> rw [h', hr] at hno <;> exact Or.inl ⟨e, he, hno⟩
  | committed job e m hs hk he ho h' =>
    subst h'
    cases hno
  | forgotten e he h' => exact Or.inl ⟨e, he, by rwa [h'] at hno⟩

theorem effects_missing (h : Effects E c s c' s') (he' : c'.entries.get? k = some e') (hno : e'.contents = none) :
    (∃ e, c.entries.get? k = some e ∧ e.contents = none) ∨ E (.observed k .missing) ∨ E (.created k) := by
  induction h generalizing e' with
  | refl => exact Or.inl ⟨e', he', hno⟩
  | tail _ he ih =>
    rcases (he.origin he').missing hno with ⟨e, h, hno⟩ | hmark
    · exact ih h hno
    · exact Or.inr hmark

theorem effects_registered (h : Effects E c s c' s') (he' : c'.entries.get? k = some e') {id : SubscriberId}
    (hid : e'.registered.contains id = true) :
    (∃ e, c.entries.get? k = some e ∧ e.registered.contains id = true) ∨ E (.registered k) := by
  induction h generalizing e' with
  | refl => exact Or.inl ⟨e', he', hid⟩
  | tail _ he ih =>
    rcases (he.origin he').registered hid with ⟨e, h, hid⟩ | hmark
    · exact ih h hid
    · exact Or.inr hmark

/-! ## One move -/

/-- an operation that has just ended well leaves no text only if there is no file -/
theorem Loads.missing {m : Move} (hl : Loads w m k) (hp : Proper w.core w.stakes)
    (he : (w.move m).entries.get? k = some e) (hno : e.contents = none) : FindsNothing w m k := by
  rcases hl with ⟨o, ho⟩ | ⟨text, date, ho⟩
  · obtain ⟨id, t, r, l, rfl, ht, hc, hr, hlook, rfl, hf⟩ := ho.observed
    obtain ⟨d, hd⟩ : ∃ d, (w.stakes id).errand = .look l d := by
      rw [stakes_of_served ht, Activity.errand_of_refresh hr]
      cases r <;> cases hlook <;> exact ⟨_, rfl⟩
    obtain ⟨-, e₀, he₀, hhad, -⟩ := hp.guarded.look id l d hd
    have hafter := entry_of_observed ht hc hr hlook hf he₀
    cases (show (serve w id).entries.get? l.path.key = some e from he).symm.trans hafter
    rcases Refresh.finding_cases hlook hf with ⟨ho', hstat⟩ | ⟨rfl, hhad', -⟩ | ⟨text, date, rfl, -, -⟩
    · exact ⟨id, t, r, l, rfl, ht, hc, hr, hlook, rfl, hstat, ho' ▸ hf⟩
    · rw [hhad', show e₀.contents = none from hno] at hhad
      cases hhad
    · cases hno
  · obtain ⟨id, t, job, st, f, rfl, ht, hc, ha, hent, hst, -, -, rfl, -⟩ := ho.committed
    obtain ⟨e₀, he₀⟩ := Option.isSome_iff_exists.1 hent
    obtain ⟨-, e', hafter, hcont, -⟩ := entry_of_written ht hc ha he₀ hst
    cases (show (serve w id).entries.get? job.path.key = some e from he).symm.trans hafter
    rw [hno] at hcont
    cases hcont

/-- an entry that stays loses its text only if there is no file -/
theorem missing_move {m : Move} {e₀ : Entry} (hw : Wf w) (he₀ : w.entries.get? k = some e₀)
    (he : (w.move m).entries.get? k = some e) (hno : e.contents = none) : e₀.contents = none ∨ FindsNothing w m k := by
  obtain ⟨id, hs⟩ := move_served hw m
  obtain ⟨s', hchain, -⟩ := hs.effects
  rcases effects_missing hchain he hno with ⟨e₁, he₁, hno₁⟩ | ho | hc
  · cases he₀.symm.trans he₁
    exact Or.inl hno₁
  · obtain ⟨id, t, r, l, rfl, ht, hc, hr, hl, hk, hf⟩ := ho.observed
    rcases Refresh.finding_cases hl hf with ⟨ho, hstat⟩ | ⟨ho, -⟩ | ⟨_, _, ho, -⟩
    · exact Or.inr ⟨id, t, r, l, rfl, ht, hc, hr, hl, hk, hstat, ho ▸ hf⟩
    · cases ho
    · cases ho
  · obtain ⟨id, t, rfl, -, hc⟩ := hc.served (by simp)
    split at hc
    · cases hc
    · cases he₀.symm.trans hc

theorem get?_of_contains {α : Type} {t : Table Path.Key α} (h : t.contains k = true) : ∃ a, t.get? k = some a := by
  rw [← Option.ne_none_iff_exists', ne_eq, ← Table.contains_eq_false_iff, h]
  simp

/-! ## Along a run -/

section Run

variable {policy : WritePolicy}

/-- an entry is loaded, has had an operation cut short, or is awaited -/
theorem awaited_trace (h : ∀ n, moves n ≠ .call .shutDown) (n : Nat) (k : Path.Key) (e : Entry)
    (he : ((World.start policy).trace moves n).entries.get? k = some e) :
    Since Loads (World.start policy) moves n k ∨ Since CutShort (World.start policy) moves n k ∨
      e.Awaited ((World.start policy).trace moves n).signals := by
  induction n generalizing e k with
  | zero => cases he
  | succ n ih =>
    obtain ⟨id, hs⟩ := move_served (reachable_trace policy moves n).wf (moves n)
    obtain ⟨s', hchain, -⟩ := hs.effects
    have hE : ¬ Marks ((World.start policy).trace moves n) (moves n) .shutsDown := fun hd => h n (marks_shutsDown hd)
    -- along the chain, an entry that is not awaited has a mark of this move, or is no longer awaited already
    have hJ := hchain.induction (J := fun c st => Proper c st ∧ ∀ k e, c.entries.get? k = some e →
      (Since Loads (World.start policy) moves n k ∨ Since CutShort (World.start policy) moves n k ∨
        Ends (Marks ((World.start policy).trace moves n) (moves n)) k) ∨ e.Awaited c.signals)
      (fun c st i c' s' hJ heff => ⟨proper_effect hJ.1 hE heff, fun k e' he' => ?_⟩)
      ⟨proper_trace h n, fun k e he => ?_⟩
    · have htracked : ((World.start policy).trace moves (n + 1)).entries.contains k = true := contains_of_get? he
      rcases hJ.2 k e he with (hl | hc | ⟨o, ho⟩ | ⟨text, date, ho⟩ | ho) | ha
      · exact Or.inl (hl.succ htracked)
      · exact Or.inr (Or.inl (hc.succ htracked))
      · exact Or.inl (.now (Or.inl ⟨o, ho⟩) htracked)
      · exact Or.inl (.now (Or.inr ⟨text, date, ho⟩) htracked)
      · exact Or.inr (Or.inl (.now ho htracked))
      · exact Or.inr (Or.inr ha)
    · by_cases hdone : Since Loads (World.start policy) moves n k ∨ Since CutShort (World.start policy) moves n k ∨
          Ends (Marks ((World.start policy).trace moves n) (moves n)) k
      · exact Or.inl hdone
      · refine (hJ.1.awaited_effect hE heff he' fun e he => (hJ.2 k e he).resolve_left hdone).imp_left fun hend => ?_
        exact Or.inr (Or.inr hend)
    · rcases ih k e he with hl | hc | ha
      · exact Or.inl (Or.inl hl)
      · exact Or.inl (Or.inr (Or.inl hc))
      · exact Or.inr ha

/-- what is missing where an operation has loaded the entry has been looked for -/
theorem missing_trace (h : ∀ n, moves n ≠ .call .shutDown) (n : Nat) (k : Path.Key) (e : Entry)
    (he : ((World.start policy).trace moves n).entries.get? k = some e) (hno : e.contents = none)
    (hl : Since Loads (World.start policy) moves n k) : Since FindsNothing (World.start policy) moves n k := by
  induction n generalizing e with
  | zero => cases he
  | succ n ih =>
    have htracked : ((World.start policy).trace moves (n + 1)).entries.contains k = true := contains_of_get? he
    rcases hl.cases with hl | ⟨hl, ht⟩
    · exact .now (hl.missing (proper_trace h n) he hno) htracked
    · obtain ⟨e₀, he₀⟩ := get?_of_contains ht
      rcases missing_move (reachable_trace policy moves n).wf he₀ he hno with hno₀ | hfind
      · exact (ih e₀ he₀ hno₀ hl).succ htracked
      · exact .now hfind htracked

/-- a call that settles does so at a path that has been loaded, or where an operation has been cut short -/
theorem settles_trace (h : ∀ n, moves n ≠ .call .shutDown) (n : Nat) {a : Activity} {seat : Seat}
    (hs : ((World.start policy).trace moves n).settles a seat) :
    Since Loads (World.start policy) moves n seat.path.key ∨ Since CutShort (World.start policy) moves n seat.path.key := by
  obtain ⟨x, e, -, -, he, hno⟩ := hs
  rcases awaited_trace h n seat.path.key e he with hl | hcut | ha
  · exact Or.inl hl
  · exact Or.inr hcut
  · exact absurd ha (not_awaited_of_unsettled hno)

/-- a subscriber is registered only at a path that an operation has loaded -/
theorem registered_trace (h : ∀ n, moves n ≠ .call .shutDown)
    (hset : ∀ n seat, Settles ((World.start policy).trace moves n) (moves n) seat →
      Since CutShort (World.start policy) moves n seat.path.key → Since Loads (World.start policy) moves n seat.path.key)
    (n : Nat) (k : Path.Key) (e : Entry) (he : ((World.start policy).trace moves n).entries.get? k = some e)
    (id : SubscriberId) (hid : e.registered.contains id = true) : Since Loads (World.start policy) moves n k := by
  induction n generalizing e k id with
  | zero => cases he
  | succ n ih =>
    have htracked : ((World.start policy).trace moves (n + 1)).entries.contains k = true := contains_of_get? he
    obtain ⟨i, hs⟩ := move_served (reachable_trace policy moves n).wf (moves n)
    obtain ⟨s', hchain, -⟩ := hs.effects
    rcases effects_registered hchain he hid with ⟨e₀, he₀, hid₀⟩ | hreg
    · exact (ih k e₀ he₀ id hid₀).succ htracked
    · obtain ⟨j, t, hm, ht, hreg⟩ := hreg.served (by simp)
      split at hreg
      · cases hreg
      · rename_i hc
        obtain ⟨seat, hsettles, rfl⟩ := hreg
        rcases settles_trace h n hsettles with hl | hcut
        · exact hl.succ htracked
        · exact (hset n seat ⟨j, t, hm, ht, by simpa using hc, hsettles⟩ hcut).succ htracked

/-- **In a run without shutting down, every call to watch returns what an operation has found exactly if none settles at a
path where operations have been cut short and none has ended well since the entry was made.** -/
theorem shown_iff (h : ∀ n, moves n ≠ .call .shutDown) :
    (∀ n x, ((World.start policy).trace moves n).returned? (moves n) = some x →
      Since Loads (World.start policy) moves n x.path.key ∧
        (x.status = .missing → Since FindsNothing (World.start policy) moves n x.path.key)) ↔
    ∀ n seat, Settles ((World.start policy).trace moves n) (moves n) seat →
      Since CutShort (World.start policy) moves n seat.path.key →
        Since Loads (World.start policy) moves n seat.path.key := by
  constructor
  · rintro hall n seat ⟨id, t, hm, ht, hc, hs⟩ -
    obtain ⟨x, hx, hp⟩ := step_of_settles (w := floorTo ((World.start policy).trace moves n) id)
      (settles_floorTo _ id t.phase.activity seat ▸ hs)
    refine hp ▸ (hall n x ?_).1
    rw [hm]
    simp only [World.returned?, ht, Option.bind_some, hc, hx]
  · intro hset n x hx
    obtain ⟨id, t, hm, ht, hc, hx⟩ := returned?_eq_some hx
    obtain ⟨e, he, hxe, hwhy⟩ := step_eq_snapshot hx
    have he' : ((World.start policy).trace moves n).entries.get? x.path.key = some e :=
      (congrArg (fun c : Core => c.entries.get? x.path.key) (core_floorTo _ id)).symm.trans he
    have hl : Since Loads (World.start policy) moves n x.path.key := by
      rcases hwhy with ⟨sub, hreg⟩ | ⟨seat, hp, hs⟩
      · exact registered_trace h hset n x.path.key e he' sub hreg
      · rw [settles_floorTo] at hs
        rw [← hp]
        rcases settles_trace h n hs with hl | hcut
        · exact hl
        · exact hset n seat ⟨id, t, hm, ht, hc, hs⟩ hcut
    refine ⟨hl, fun hmissing => missing_trace h n x.path.key e he' ?_ hl⟩
    rw [hxe, Entry.snapshot] at hmissing
    split at hmissing
    · cases hmissing
    · assumption

end Run

/-! ## A run in which a file is not looked at -/

/-- The first of two calls to watch a file is cancelled while its reconciliation looks at the file. -/
def leavingEarly : List Move :=
  let p : Path := ⟨"/a"⟩
  [Move.newSubscriber, .newSubscriber, .putFile p ⟨#[49]⟩, .hold .stat p, .call (.watch p ⟨1⟩)] ++
    List.replicate 3 (Move.turn 1) ++ [Move.call (.watch p ⟨2⟩)] ++ List.replicate 4 (Move.turn 2) ++
    [Move.cancel 1, .turn 1, .turn 2]

/-- the run does not shut the engine down -/
theorem shown_iff_leavingEarly :
    (∀ n, along leavingEarly n ≠ .call .shutDown) ∧
      ((∀ n x, ((World.start .allow).trace (along leavingEarly) n).returned? (along leavingEarly n) = some x →
        Since Loads (World.start .allow) (along leavingEarly) n x.path.key ∧
          (x.status = .missing → Since FindsNothing (World.start .allow) (along leavingEarly) n x.path.key)) ↔
      ∀ n seat, Settles ((World.start .allow).trace (along leavingEarly) n) (along leavingEarly n) seat →
        Since CutShort (World.start .allow) (along leavingEarly) n seat.path.key →
          Since Loads (World.start .allow) (along leavingEarly) n seat.path.key) := by
  have h : ∀ n, along leavingEarly n ≠ .call .shutDown := along_ne leavingEarly (by simp [leavingEarly]) (by simp)
  exact ⟨h, shown_iff h⟩

/-- an operation ends well in this move -/
def World.loads (w : World) : Move → Bool
  | .turn id =>
    (w.served? id).any fun t => (t.phase.activity.refresh?.bind (·.finding w.disk)).isSome ||
      (t.phase.activity.save?.bind (·.finding w.disk)).isSome
  | _ => false

theorem Loads.loads {m : Move} (h : Loads w m k) : w.loads m = true := by
  rcases h with ⟨o, ho⟩ | ⟨text, date, ho⟩
  · obtain ⟨id, t, r, l, rfl, ht, -, hr, -, -, hf⟩ := ho.observed
    simp [World.loads, ht, hr, hf]
  · obtain ⟨id, t, job, st, f, rfl, ht, -, ha, -, hst, -⟩ := ho.committed
    simp [World.loads, ht, ha, Activity.save?, Save.finding, hst]

/-- The second call returns that the file is missing, which nobody has found. -/
theorem cut_short_watch_returns_unloaded :
    ((World.start .allow).trace (along leavingEarly) 15).returned? (along leavingEarly 15) = some (.missing ⟨"/a"⟩) ∧
      ¬ Since Loads (World.start .allow) (along leavingEarly) 15 (Path.key ⟨"/a"⟩) := by
  refine ⟨by decide +kernel, ?_⟩
  rintro ⟨i, hi, hl, -⟩
  have hno : ∀ i < 15, ((World.start .allow).trace (along leavingEarly) i).loads (along leavingEarly i) = false := by
    decide +kernel
  exact absurd hl.loads (by simp [hno i hi])

end LiveFiles.Engine
