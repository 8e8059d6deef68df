/-
What the lock of a path guards. While the engine is not being shut down, an operation that has the lock has it until it
ends, and the entry of a reconciliation stays in place and keeps what is known of the file until then (`Guarded`). The
signals that an entry stores beside the pending one are those of operations at its path: of the reconciliation that has
the lock, and of writes. An effect that does not shut the engine down keeps all this (`guarded_effect`).
-/
import LiveFiles.Proofs.Run
import LiveFiles.Proofs.Signals

namespace LiveFiles.Engine

/-- what holds while the engine is not being shut down -/
structure Guarded (c : Core) (st : TaskId → Stake) : Prop where
  unclosed : ∀ i, (st i).closing = false
  /-- what is pending has a number and a signal -/
  paired : ∀ k e, c.entries.get? k = some e → (e.pendingQuery = none ↔ e.pendingSignal = none)
  /-- a reconciliation that has been taken up has the lock, and knows of the entry whether it has a text, and its date -/
  look : ∀ i l d, (st i).errand = .look l d → c.turns.holds l.turn = true ∧
    ∃ e, c.entries.get? l.path.key = some e ∧ e.contents.isSome = l.had ∧ e.modified = l.last
  /-- so has a write that has begun -/
  save : ∀ i job, (st i).errand = .save job true → c.turns.holds job.turn = true
  running : ∀ k e x, c.entries.get? k = some e → e.runningSignal = some x → c.signals.isGiven x = false →
    ∃ i l d, (st i).errand = .look l d ∧ l.path.key = k ∧ l.signal = some x
  revoked : ∀ k e x, c.entries.get? k = some e → x ∈ e.revokedSignals → c.signals.isGiven x = false →
    ∃ i job b, (st i).errand = .save job b ∧ job.path.key = k ∧ job.waiters = some x

variable {E : Mark → Prop} {c c' : Core} {s s' : Stake} {st : TaskId → Stake} {i j : TaskId}

/-! ## What the others of a task do -/

theorem Effect.closing (h : Effect E c s c' s') (hE : ¬ E .shutsDown) (hs : s.closing = false) : s'.closing = false := by
  cases h with
  | shutDown hd => exact absurd hd hE
  | quit => rfl
  | _ => exact hs

/-- a turn keeps the lock whatever another task does -/
theorem Effect.holds_other (h : Effect E c (st i) c' s') (hs : Sound c st) (hj : j ≠ i) {τ : Turn}
    (hτ : (st j).errand.turn? = some τ) (hh : c.turns.holds τ = true) : c'.turns.holds τ = true := by
  rcases h.turns with ⟨e, -⟩ | ⟨k, -, e, -⟩ | ⟨σ, hσ, e, -⟩
  · rw [e]
    exact hh
  · rw [e]
    exact (hs.turns.holds_enlist hτ k).trans hh
  · rw [e]
    exact hs.turns.holds_giveBack_of_ne hσ hτ hj hh

/-- two operations that have the lock of one path are one -/
theorem Sound.alone (hs : Sound c st) {τ τ' : Turn} {p p' : Path} (hi : (st i).errand.turn? = some τ)
    (hp : (st i).errand.path? = some p) (hj : (st j).errand.turn? = some τ') (hp' : (st j).errand.path? = some p')
    (hk : p.key = p'.key) (hτ : c.turns.holds τ = true) (hτ' : c.turns.holds τ' = true) : i = j :=
  hs.turns.holds_unique hi hj (by rw [hs.keyed i τ hi p hp, hs.keyed j τ' hj p' hp', hk]) hτ hτ'

/-- the reconciliation with a signal that has not been given goes on, whoever has an effect -/
theorem look_persists (h : Effect E c (st i) c' s') {l : Look} {d : Option Instant} {x : SignalId}
    (hj : (st j).errand = .look l d) (hl : l.signal = some x) (hx : c'.signals.isGiven x = false) :
    ∃ d', (Function.update st i s' j).errand = .look l d' := by
  by_cases hji : j = i
  · subst hji
    rw [Function.update_self]
    rcases h.of_look hj with h | ⟨h, -⟩
    · exact h
    · exact absurd (h x hl) (by simp [hx])
  · rw [Function.update_of_ne hji]
    exact ⟨d, hj⟩

/-- so does a write -/
theorem save_persists (h : Effect E c (st i) c' s') {job : SaveJob} {b : Bool} {x : SignalId}
    (hj : (st j).errand = .save job b) (hl : job.waiters = some x) (hx : c'.signals.isGiven x = false) :
    ∃ b', (Function.update st i s' j).errand = .save job b' := by
  by_cases hji : j = i
  · subst hji
    rw [Function.update_self]
    rcases h.of_save hj with h | ⟨h, -⟩
    · exact h
    · exact absurd (h x hl) (by simp [hx])
  · rw [Function.update_of_ne hji]
    exact ⟨b, hj⟩

/-- what is not given after an effect was not given before -/
theorem Effect.not_given (h : Effect E c s c' s') {x : SignalId} (hx : c'.signals.isGiven x = false) :
    c.signals.isGiven x = false := by
  rw [Bool.eq_false_iff] at hx ⊢
  exact fun hg => hx (h.given hg)

theorem revoke_cases (e : Entry) :
    (e.pendingQuery = none ∧ World.revoke e = (false, none, e)) ∨
    (e.pendingQuery.isSome ∧ World.revoke e = (true, e.pendingSignal,
      { e with pendingQuery := none, pendingSignal := none,
               revokedSignals := e.revokedSignals ++ e.pendingSignal.toList })) := by
  unfold World.revoke
  cases h : e.pendingQuery <;> simp

/-! ## Where the signals of an entry come from -/

/-- a number that is pending with its signal was so before, or has just been asked for -/
theorem Origin.pending {k : Path.Key} {e' : Entry} (h : Origin E c s c' s' k e') {x : SignalId}
    (hx : e'.pendingSignal = some x) :
    (∃ e, c.entries.get? k = some e ∧ e.pendingSignal = some x ∧ e.pendingQuery = e'.pendingQuery) ∨
    ∃ p τ, s'.errand = .query p c.nextQuery τ ∧ p.key = k ∧ e'.pendingQuery = some c.nextQuery := by
  cases h with
  | same e he hb =>
    obtain ⟨-, -, -, hq, hsig, -⟩ := Entry.bare_eq hb
    exact Or.inl ⟨e, he, hsig.symm.trans hx, hq.symm⟩
  | asked p e signal τ hk he ha hs hs' => exact Or.inr ⟨p, τ, hs', hk, ha.pending.1⟩
  | taken p q τ e hs hk he hq h' => subst h'; cases hx
  | concluded l d e o hs hk he ho h' =>
    subst h'
    cases o <;> exact Or.inl ⟨e, he, hx, rfl⟩
  | revoked p bytes e τ hk he h' =>
    rcases revoke_cases e with ⟨-, hr⟩ | ⟨-, hr⟩ <;> rw [hr] at h' <;> subst h'
    · exact Or.inl ⟨_, he, hx, rfl⟩
    · cases hx
  | committed job e m hs hk he ho h' => subst h'; exact Or.inl ⟨e, he, hx, rfl⟩
  | forgotten e he h' => subst h'; exact Or.inl ⟨e, he, hx, rfl⟩

theorem Origin.running {k : Path.Key} {e' : Entry} (h : Origin E c s c' s' k e') {x : SignalId}
    (hx : e'.runningSignal = some x) :
    (∃ e, c.entries.get? k = some e ∧ e.runningSignal = some x) ∨
    ∃ l, s'.errand = .look l none ∧ l.path.key = k ∧ l.signal = some x := by
  cases h with
  | same e he hb =>
    obtain ⟨-, -, -, -, -, hrun, -⟩ := Entry.bare_eq hb
    exact Or.inl ⟨e, he, hrun.symm.trans hx⟩
  | asked p e signal τ hk he ha =>
    rw [ha.contents.2.2.1] at hx
    rcases he with he | ⟨-, rfl, -⟩
    · exact Or.inl ⟨e, he, hx⟩
    · cases hx
  | taken p q τ e hs hk he hq h' hs' => subst h'; exact Or.inr ⟨_, hs', hk, hx⟩
  | concluded l d e o hs hk he ho h' => subst h'; cases o <;> cases hx
  | revoked p bytes e τ hk he h' =>
    rcases revoke_cases e with ⟨-, hr⟩ | ⟨-, hr⟩ <;> rw [hr] at h' <;> subst h' <;> exact Or.inl ⟨_, he, hx⟩
  | committed job e m hs hk he ho h' => subst h'; exact Or.inl ⟨e, he, hx⟩
  | forgotten e he h' => subst h'; exact Or.inl ⟨e, he, hx⟩

theorem Origin.revoking {k : Path.Key} {e' : Entry} (h : Origin E c s c' s' k e') {x : SignalId}
    (hx : x ∈ e'.revokedSignals) :
    (∃ e, c.entries.get? k = some e ∧ x ∈ e.revokedSignals) ∨
    ∃ job, s'.errand = .save job false ∧ job.path.key = k ∧ job.waiters = some x := by
  cases h with
  | same e he hb =>
    obtain ⟨-, -, -, -, -, -, hrev⟩ := Entry.bare_eq hb
    exact Or.inl ⟨e, he, hrev ▸ hx⟩
  | asked p e signal τ hk he ha =>
    rw [ha.contents.2.2.2] at hx
    rcases he with he | ⟨-, rfl, -⟩
    · exact Or.inl ⟨e, he, hx⟩
    · cases hx
  | taken p q τ e hs hk he hq h' => subst h'; exact Or.inl ⟨e, he, hx⟩
  | concluded l d e o hs hk he ho h' => subst h'; cases o <;> exact Or.inl ⟨e, he, hx⟩
  | revoked p bytes e τ hk he h' hs hs' =>
    rcases revoke_cases e with ⟨-, hr⟩ | ⟨-, hr⟩ <;> rw [hr] at h' hs' <;> subst h'
    · exact Or.inl ⟨_, he, hx⟩
    · rcases List.mem_append.1 hx with hx | hx
      · exact Or.inl ⟨e, he, hx⟩
      · exact Or.inr ⟨_, hs', hk, by simpa using hx⟩
  | committed job e m hs hk he ho h' => subst h'; exact Or.inl ⟨e, he, hx⟩
  | forgotten e he h' => subst h'; exact Or.inl ⟨e, he, (List.mem_filter.1 hx).1⟩

theorem Origin.paired {k : Path.Key} {e' : Entry} (h : Origin E c s c' s' k e')
    (hp : ∀ e, c.entries.get? k = some e → (e.pendingQuery = none ↔ e.pendingSignal = none)) :
    e'.pendingQuery = none ↔ e'.pendingSignal = none := by
  cases h with
  | same e he hb =>
    obtain ⟨-, -, -, hq, hsig, -⟩ := Entry.bare_eq hb
    rw [hq, hsig]
    exact hp e he
  | asked p e signal τ hk he ha => simp [ha.pending]
  | taken p q τ e hs hk he hq h' => simp [h']
  | concluded l d e o hs hk he ho h' => subst h'; cases o <;> exact hp e he
  | revoked p bytes e τ hk he h' =>
    rcases revoke_cases e with ⟨-, hr⟩ | ⟨-, hr⟩ <;> rw [hr] at h' <;> subst h'
    · exact hp _ he
    · simp
  | committed job e m hs hk he ho h' => subst h'; exact hp e he
  | forgotten e he h' => subst h'; exact hp e he

/-! ## One effect -/

/-- A reconciliation that has the lock: its entry is still there, and says of the file what it said. -/
theorem Guarded.entry_kept (hg : Guarded c st) (hs : Sound c st) (h : Effect E c (st i) c' s') {l : Look}
    {d : Option Instant} (hj : (st j).errand = .look l d) (hgo : j = i → ∃ d', s'.errand = .look l d') {e : Entry}
    (he : c.entries.get? l.path.key = some e) : ∃ e', c'.entries.get? l.path.key = some e' ∧ e'.known = e.known := by
  have hturn : (st j).errand.turn? = some l.turn := by rw [hj]; rfl
  have hpath : (st j).errand.path? = some l.path := by rw [hj]; rfl
  rcases h.entry_next he with ⟨e', he', hk | ⟨hidle, hother⟩⟩ | hidle | hclose
  · exact ⟨e', he', hk⟩
  · -- the operation that ends has the lock, so it is this one, which goes on
    have hτ := (hg.look j l d hj).1
    have hji : j = i := by
      rcases hother with ⟨l', d', hi, hk⟩ | ⟨job, hi, hk⟩
      · exact hs.alone hturn hpath (by rw [hi]; rfl) (by rw [hi]; rfl) hk.symm hτ (hg.look i l' d' hi).1
      · exact hs.alone hturn hpath (by rw [hi]; rfl) (by rw [hi]; rfl) hk.symm hτ (hg.save i job hi)
    obtain ⟨d', hd'⟩ := hgo hji
    rw [hd'] at hidle
    cases hidle
  · rw [hs.not_idle hturn hpath] at hidle
    cases hidle
  · rw [hg.unclosed i] at hclose
    cases hclose

/-- so it is when the reconciliation has just been taken up -/
theorem Guarded.entry_taken (hg : Guarded c st) (hs : Sound c st) (h : Effect E c (st i) c' s') {l : Look}
    {d : Option Instant} {q : QueryId} (hi : (st i).errand = .query l.path q l.turn) (hs' : s'.errand = .look l d)
    {e : Entry} (he : c.entries.get? l.path.key = some e) :
    ∃ e', c'.entries.get? l.path.key = some e' ∧ e'.known = e.known := by
  rcases h.entry_next he with ⟨e', he', hk | ⟨hidle, -⟩⟩ | hidle | hclose
  · exact ⟨e', he', hk⟩
  · rw [hs'] at hidle
    cases hidle
  · rw [hs.not_idle (i := i) (τ := l.turn) (by rw [hi]; rfl) (p := l.path) (by rw [hi]; rfl)] at hidle
    cases hidle
  · rw [hg.unclosed i] at hclose
    cases hclose

theorem Guarded.look_effect (hg : Guarded c st) (hs : Sound c st) (h : Effect E c (st i) c' s') {l : Look}
    {d : Option Instant} (hj : (Function.update st i s' j).errand = .look l d) :
    c'.turns.holds l.turn = true ∧
      ∃ e, c'.entries.get? l.path.key = some e ∧ e.contents.isSome = l.had ∧ e.modified = l.last := by
  have hentry : ∀ {d₀}, (st j).errand = .look l d₀ → (j = i → ∃ d', s'.errand = .look l d') →
      ∃ e, c'.entries.get? l.path.key = some e ∧ e.contents.isSome = l.had ∧ e.modified = l.last := fun {d₀} hlook hgo => by
    obtain ⟨-, e, he, hhad, hlast⟩ := hg.look j l d₀ hlook
    obtain ⟨e', he', hk⟩ := hg.entry_kept hs h hlook hgo he
    exact ⟨e', he', (congrArg (·.contents.isSome) hk).trans hhad, (congrArg Known.modified hk).trans hlast⟩
  by_cases hji : j = i
  · subst hji
    rw [Function.update_self] at hj
    rcases h.look_prev hj with ⟨d₀, hi, e⟩ | ⟨q, e, hi, ht, hτ, he, hsig, hhad, hlast⟩
    · rw [e]
      exact ⟨(hg.look j l d₀ hi).1, hentry hi fun _ => ⟨d, hj⟩⟩
    · rw [ht]
      obtain ⟨e', he', hk⟩ := hg.entry_taken hs h hi hj he
      exact ⟨hτ, e', he', (congrArg (·.contents.isSome) hk).trans hhad.symm, (congrArg Known.modified hk).trans hlast.symm⟩
  · rw [Function.update_of_ne hji] at hj
    exact ⟨h.holds_other hs hji (by rw [hj]; rfl) (hg.look j l d hj).1, hentry hj fun e => absurd e hji⟩

theorem Guarded.save_effect (hg : Guarded c st) (hs : Sound c st) (h : Effect E c (st i) c' s') {job : SaveJob}
    (hj : (Function.update st i s' j).errand = .save job true) : c'.turns.holds job.turn = true := by
  by_cases hji : j = i
  · subst hji
    rw [Function.update_self] at hj
    rcases h.save_prev hj with ⟨hi, e⟩ | ⟨hi, e, hτ⟩ <;> rw [e]
    · exact hg.save j job hi
    · exact hτ
  · rw [Function.update_of_ne hji] at hj
    exact h.holds_other hs hji (by rw [hj]; rfl) (hg.save j job hj)

/-- **What the lock guards stays guarded.** -/
theorem guarded_effect (hg : Guarded c st) (hs : Sound c st) (hE : ¬ E .shutsDown) (h : Effect E c (st i) c' s') :
    Guarded c' (Function.update st i s') where
  unclosed j := by
    by_cases hji : j = i
    · subst hji
      rw [Function.update_self]
      exact h.closing hE (hg.unclosed j)
    · rw [Function.update_of_ne hji]
      exact hg.unclosed j
  paired k e' he' := (h.origin he').paired (hg.paired k)
  look j l d hj := hg.look_effect hs h hj
  save j job hj := hg.save_effect hs h hj
  running k e' x he' hx hng := by
    rcases (h.origin he').running hx with ⟨e, he, hx⟩ | ⟨l, hs', hk, hl⟩
    · obtain ⟨j, l, d, hj, hk, hl⟩ := hg.running k e x he hx (h.not_given hng)
      obtain ⟨d', hd'⟩ := look_persists h hj hl hng
      exact ⟨j, l, d', hd', hk, hl⟩
    · exact ⟨i, l, none, by rw [Function.update_self]; exact hs', hk, hl⟩
  revoked k e' x he' hx hng := by
    rcases (h.origin he').revoking hx with ⟨e, he, hx⟩ | ⟨job, hs', hk, hl⟩
    · obtain ⟨j, job, b, hj, hk, hl⟩ := hg.revoked k e x he hx (h.not_given hng)
      obtain ⟨b', hb'⟩ := save_persists h hj hl hng
      exact ⟨j, job, b', hb', hk, hl⟩
    · exact ⟨i, job, false, by rw [Function.update_self]; exact hs', hk, hl⟩

/-! ## Along a run -/

/-- all that an operation can rely on while the engine is not being shut down -/
structure Proper (c : Core) (st : TaskId → Stake) : Prop where
  sound : Sound c st
  kept : Kept c st
  counted : Counted c st
  guarded : Guarded c st

theorem proper_effect (hp : Proper c st) (hE : ¬ E .shutsDown) (h : Effect E c (st i) c' s') :
    Proper c' (Function.update st i s') :=
  ⟨sound_effect hp.sound h, kept_effect hp.kept h, counted_effect hp.counted h, guarded_effect hp.guarded hp.sound hE h⟩

theorem proper_start (policy : WritePolicy) : Proper (World.start policy).core (World.start policy).stakes where
  sound := sound_start policy
  kept := kept_start
  counted :=
    { fresh _ _ _ _ h := by cases h
      unique _ _ _ _ _ _ _ h := by cases h }
  guarded :=
    { unclosed _ := rfl
      paired _ _ h := by cases h
      look _ _ _ h := by cases h
      save _ _ h := by cases h
      running _ _ _ h := by cases h
      revoked _ _ _ h := by cases h }

/-- only the call that shuts the engine down says so -/
theorem marks_shutsDown {w : World} {m : Move} (h : Marks w m .shutsDown) : m = .call .shutDown := by
  cases m with
  | turn id =>
    obtain ⟨t, -, h⟩ := h
    split at h <;> cases h
  | call r => cases r <;> first | rfl | cases h
  | _ => cases h

theorem proper_trace {policy : WritePolicy} {moves : Nat → Move} (h : ∀ n, moves n ≠ .call .shutDown) (n : Nat) :
    Proper ((World.start policy).trace moves n).core ((World.start policy).trace moves n).stakes := by
  refine trace_induction (N := (· = .shutsDown)) (fun n x hx e => h n (marks_shutsDown (e ▸ hx))) (proper_start policy)
    (fun E c st i c' s' hE hp he => proper_effect hp (fun hd => hE _ hd rfl) he) n

end LiveFiles.Engine
