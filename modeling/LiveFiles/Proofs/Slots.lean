/-
The three places of an entry that hold signals for newcomers: of the reconciliation that is pending, of the one that has the lock,
and of those that writes have revoked.
- `Origin.stored`: an effect moves signals between the places of an entry, drops some, or puts a new one in; so none is stored
  twice (`tidy_effect`).
- `Begins`: a reconciliation is requested at a path. What is pending there is the last one that has been
  (`query?_begun`, `le_of_begun`).
- `letsGo_of_replies`: the last section of a write that has revoked a reconciliation gives the signal and forgets it.
- **`filed_trace`**: in every run without shutting down the places of every entry are in order (`Filed`), and the signal that a
  write has revoked is given and forgotten once the write has returned.
-/
import LiveFiles.Proofs.Landing

namespace LiveFiles.Engine

/-- the signals that an entry stores, place by place -/
def Entry.stored (e : Entry) : List SignalId := e.pendingSignal.toList ++ e.runningSignal.toList ++ e.revokedSignals

/-! ## No signal is stored twice -/

section Effects

variable {E : Mark → Prop} {c c' : Core} {s s' : Stake} {st : TaskId → Stake} {i : TaskId} {k : Path.Key} {e' : Entry} {x : SignalId}

/-- what the entries store are different signals that there have been -/
def Tidy (c : Core) : Prop :=
  ∀ k e, c.entries.get? k = some e → e.stored.Nodup ∧ ∀ x ∈ e.stored, x < c.signals.next

/-- signals are numbered upwards -/
theorem Effect.next_signal (h : Effect E c s c' s') : c.signals.next ≤ c'.signals.next := by
  cases h.passing with
  | rest hs => rw [hs]
  | take _ hs => rw [hs]
  | ask _ hs => rw [hs]; exact Nat.le_succ _
  | join hs => rw [hs]; exact Nat.le_succ _
  | unjoin _ hs => rw [hs, next_give]
  | release _ hs => rw [hs, next_give]

/-- **Where the signals of an entry come from**: it has stored them before, or one of them is new. -/
theorem Origin.stored (h : Origin E c s c' s' k e') :
    (∃ e, c.entries.get? k = some e ∧ e'.stored.Subperm e.stored) ∨
    ∃ l, e'.stored = c.signals.next :: l ∧ c'.signals = c.signals.fresh.2 ∧
      (l = [] ∨ ∃ e, c.entries.get? k = some e ∧ l.Subperm e.stored) := by
  cases h with
  | same e he hb =>
    obtain ⟨-, -, -, -, hpend, hrun, hrev⟩ := Entry.bare_eq hb
    exact .inl ⟨e, he, by rw [Entry.stored, hpend, hrun, hrev, Entry.stored]⟩
  | asked p e signal τ hk he ha =>
    obtain ⟨-, -, hrun, hrev⟩ := ha.contents
    have hnow : e'.stored = signal :: (e.runningSignal.toList ++ e.revokedSignals) := by
      rw [Entry.stored, ha.pending.2, hrun, hrev]
      rfl
    have hrest : (e.runningSignal.toList ++ e.revokedSignals).Subperm e.stored := by
      rw [Entry.stored, List.append_assoc]
      exact (List.sublist_append_right _ _).subperm
    rcases ha.signal with ⟨-, hsame, -⟩ | ⟨-, rfl, hs⟩
    · rcases he with he | ⟨-, rfl, -⟩
      · refine .inl ⟨e, he, ?_⟩
        rw [hnow, Entry.stored, hsame]
        exact List.Subperm.refl _
      · cases hsame
    · refine .inr ⟨_, hnow, hs, ?_⟩
      rcases he with he | ⟨-, rfl, -⟩
      · exact .inr ⟨e, he, hrest⟩
      · exact .inl rfl
  | taken p q τ e hs hk he hq h' =>
    subst h'
    refine .inl ⟨e, he, ?_⟩
    change ([] ++ e.pendingSignal.toList ++ e.revokedSignals).Subperm _
    rw [List.nil_append, Entry.stored]
    exact ((List.sublist_append_left _ _).append (List.Sublist.refl _)).subperm
  | concluded l d e o hs hk he ho h' =>
    subst h'
    refine .inl ⟨e, he, ?_⟩
    have hnow : (Entry.commit { e with runningSignal := none } o).1.stored = e.pendingSignal.toList ++ [] ++ e.revokedSignals := by
      cases o <;> rfl
    rw [hnow, List.append_nil, Entry.stored]
    exact ((List.sublist_append_left _ _).append (List.Sublist.refl _)).subperm
  | revoked p bytes e τ hk he h' =>
    refine .inl ⟨e, he, ?_⟩
    rcases revoke_cases e with ⟨-, hr⟩ | ⟨-, hr⟩ <;> rw [hr] at h' <;> subst h'
    · exact List.Subperm.refl _
    · change ([] ++ e.runningSignal.toList ++ (e.revokedSignals ++ e.pendingSignal.toList)).Subperm _
      rw [List.nil_append, Entry.stored, List.append_assoc, ← List.append_assoc]
      exact List.perm_append_comm.subperm
  | committed job e m hs hk he ho h' =>
    subst h'
    exact .inl ⟨e, he, List.Subperm.refl _⟩
  | forgotten e he h' =>
    subst h'
    exact .inl ⟨e, he, ((List.Sublist.refl _).append List.filter_sublist).subperm⟩

theorem nodup_of_subperm {l l' : List SignalId} (h : l.Subperm l') (hl : l'.Nodup) : l.Nodup := by
  obtain ⟨l₁, hperm, hsub⟩ := h
  exact hperm.nodup_iff.1 (hsub.nodup hl)

/-- **No effect stores a signal twice.** -/
theorem tidy_effect (ht : Tidy c) (h : Effect E c s c' s') : Tidy c' := by
  intro k e' he'
  rcases (h.origin he').stored with ⟨e, he, hsub⟩ | ⟨l, hl, hs, hrest⟩
  · obtain ⟨hnodup, hold⟩ := ht k e he
    exact ⟨nodup_of_subperm hsub hnodup, fun x hx => (hold x (hsub.subset hx)).trans_le h.next_signal⟩
  · -- the new signal is none of those before
    have hold : l.Nodup ∧ ∀ x ∈ l, x < c.signals.next := by
      rcases hrest with rfl | ⟨e, he, hsub⟩
      · exact ⟨List.nodup_nil, fun x hx => by cases hx⟩
      · obtain ⟨hnodup, hold⟩ := ht k e he
        exact ⟨nodup_of_subperm hsub hnodup, fun x hx => hold x (hsub.subset hx)⟩
    rw [hl, hs]
    refine ⟨List.nodup_cons.2 ⟨fun hmem => lt_irrefl _ (hold.2 _ hmem), hold.1⟩, fun x hx => ?_⟩
    rcases List.mem_cons.1 hx with rfl | hx
    · exact Nat.lt_succ_self _
    · exact (hold.2 x hx).trans (Nat.lt_succ_self _)

/-- a signal has been given, and no entry stores it among those that writes have revoked -/
structure Forgotten (c : Core) (st : TaskId → Stake) (x : SignalId) : Prop where
  kept : Kept c st
  given : c.signals.isGiven x = true
  revoked : ∀ k e, c.entries.get? k = some e → x ∉ e.revokedSignals

/-- what is revoked has not been given, so no signal comes back -/
theorem forgotten_effect (hf : Forgotten c st x) (h : Effect E c (st i) c' s') : Forgotten c' (Function.update st i s') x where
  kept := kept_effect hf.kept h
  given := h.given hf.given
  revoked k e' he' hx := by
    rcases (h.origin he').revoking hx with ⟨e, he, hx⟩ | ⟨job, hs', -, hwaiters⟩
    · exact hf.revoked k e he hx
    · have hkeeps : keeps c' (Function.update st i s') (.operation i) = some x := by
        rw [keeps, Function.update_self, hs']
        exact hwaiters
      cases ((kept_effect hf.kept h).secret _ _ hkeeps).symm.trans (h.given hf.given)

end Effects

variable {w : World} {m : Move} {i j : TaskId} {k : Path.Key} {q q' : QueryId} {x : SignalId} {y : Save} {job : SaveJob} {o : Outcome}

/-! ## What is pending is what has been requested last -/

/-- in this move a reconciliation is requested at a path, with a number -/
def Begins (w : World) (m : Move) (k : Path.Key) (q : QueryId) : Prop :=
  ∃ id p τ, p.key = k ∧ ¬ w.Refreshes id (.queued p q τ) ∧ (w.move m).Refreshes id (.queued p q τ)

theorem begins_of_queued (hn : Counted w.core w.stakes) {p : Path} {τ : Turn}
    (h : (((serve w i).tasks.phase? i).map Phase.activity).bind Activity.refresh? = some (.queued p w.nextQuery τ)) :
    Begins w (.turn i) p.key w.nextQuery := by
  obtain ⟨a, ha, hr⟩ := Option.bind_eq_some_iff.1 h
  obtain ⟨ph, hph, rfl⟩ := Option.map_eq_some_iff.1 ha
  exact ⟨i, p, τ, rfl, fun hbefore => lt_irrefl _ (hn.fresh i p _ τ (errand_of_refreshes hbefore)), ph, hph, hr⟩

/-- what is pending after a move was pending before, or has been requested in the move -/
theorem query?_begun (hw : Wf w) (hn : Counted w.core w.stakes) (h : (w.move m).core.query? k = some q) :
    w.core.query? k = some q ∨ Begins w m k q := by
  rw [query?_eq_some] at h ⊢
  rcases section_or_not w m with ⟨i, u, rfl, hs, hc⟩ | hno
  · have hrule := ruling_serve hw hs hc
    rw [World.move] at h
    generalize (floorTo w i).requests? u.phase.activity = r at hrule
    have hput : ∀ {k' : Path.Key} {z : Option (Option QueryId)} {d : Docket}, d.pending? = w.docket.pending? →
        z ≠ some (some q) → (d.put k' z).pending? k = some (some q) → w.docket.pending? k = some (some q) := by
      intro k' z d hd hz hput
      rw [Docket.pending?_put, hd] at hput
      split at hput
      · exact absurd hput hz
      · exact hput
    cases hrule with
    | same hd => exact .inl (hd ▸ h)
    | untracked _ _ hd => exact .inl (hd ▸ h)
    | revoke _ _ hd => exact .inl (hput rfl (by simp) (hd ▸ h))
    | enter _ _ _ _ _ _ _ _ hd => exact .inl (hput rfl (by simp) (hd ▸ h))
    | vacate _ _ hd => exact .inl (hput rfl (by simp) (hd ▸ h))
    | clear hd =>
      rw [hd] at h
      cases h
    | request p τ hd hnext =>
      rw [hd] at h
      by_cases hk : k = p.key ∧ w.docket.next = q
      · obtain ⟨rfl, rfl⟩ := hk
        exact .inr (begins_of_queued hn hnext)
      · refine .inl ?_
        have h' : (w.docket.put p.key (some (some w.docket.next))).pending? k = some (some q) := h
        rw [Docket.pending?_put] at h'
        split at h'
        · next hkey => exact absurd ⟨hkey, Option.some.inj (Option.some.inj h')⟩ hk
        · exact h'
  · exact .inl (docket_of_no_section hno ▸ h)

section Trace

variable {policy : WritePolicy} {moves : Nat → Move} {n r c : Nat}

/-- what is pending has been requested -/
theorem begun_trace (h : ((World.start policy).trace moves n).core.query? k = some q) :
    ∃ l < n, Begins ((World.start policy).trace moves l) (moves l) k q := by
  induction n with
  | zero => cases h
  | succ n ih =>
    rcases query?_begun (reachable_trace policy moves n).wf (trailing_trace policy moves n).1 h with hbefore | hbegins
    · obtain ⟨l, hl, hbegins⟩ := ih hbefore
      exact ⟨l, hl.trans (Nat.lt_succ_self n), hbegins⟩
    · exact ⟨n, Nat.lt_succ_self n, hbegins⟩

/-- nothing has been requested after it -/
theorem le_of_begun (hrn : r < n) (hbegins : Begins ((World.start policy).trace moves r) (moves r) k q')
    (h : ((World.start policy).trace moves n).core.query? k = some q) : q' ≤ q := by
  obtain ⟨id, p, τ, rfl, hbefore, hafter⟩ := hbegins
  have hcounted := (trailing_trace policy moves (r + 1)).1
  have hpending := pending_of_asked (reachable_trace policy moves r).wf hcounted hbefore hafter
  refine (kept_trace (n := r + 1) (J := fun c _ => q' < c.nextQuery ∧ ∀ q, c.query? p.key = some q → q' ≤ q) hrn
    (fun E c st i c' s' hJ he => ?_) ?_).2 q h
  · refine ⟨hJ.1.trans_le he.nextQuery, fun q hq => ?_⟩
    rcases he.query?_prev hq with hq | rfl
    · exact hJ.2 q hq
    · exact hJ.1.le
  · refine ⟨hcounted.fresh id p q' τ (errand_of_refreshes hafter), fun q hq => ?_⟩
    exact (Option.some.inj (hpending.symm.trans hq)).le

end Trace

/-! ## How a write lets go of what it has revoked -/

/-- the task that requests a write in this move and revokes a reconciliation by that, at which path, and the signal of that -/
def World.revoked? (w : World) (m : Move) : Option (TaskId × Path.Key × SignalId) :=
  match w.carried? m with
  | some (i, .starting (.write p _)) => ((w.entry? p).bind Entry.pendingSignal).map fun x => (i, p.key, x)
  | _ => none

/-- in this move a task requests a write and revokes by that the reconciliation with the signal -/
def Revokes (w : World) (m : Move) (i : TaskId) (k : Path.Key) (x : SignalId) : Prop := w.revoked? m = some (i, k, x)

instance (w : World) (m : Move) (i : TaskId) (k : Path.Key) (x : SignalId) : Decidable (Revokes w m i k x) :=
  inferInstanceAs (Decidable (w.revoked? m = some (i, k, x)))

theorem revokes_iff : Revokes w m i k x ↔
    ∃ p bytes e, w.carried? m = some (i, .starting (.write p bytes)) ∧ p.key = k ∧ w.entry? p = some e ∧ e.pendingSignal = some x := by
  unfold Revokes World.revoked?
  constructor
  · intro h
    split at h
    · next j p bytes hcarry =>
      obtain ⟨y, hy, hsame⟩ := Option.map_eq_some_iff.1 h
      obtain ⟨e, he, hx⟩ := Option.bind_eq_some_iff.1 hy
      cases hsame
      exact ⟨p, bytes, e, hcarry, rfl, he, hx⟩
    · cases h
  · rintro ⟨p, bytes, e, hcarry, rfl, he, hx⟩
    simp [hcarry, he, hx]

/-- it has the signal then, and knows that it has revoked something -/
theorem Revokes.saves (hw : Wf w) (hdown : w.isShutDown = false) (hp : Paired w.core) (h : Revokes w m i k x) :
    ∃ job, (w.move m).Saves i (.queued job) ∧ job.path.key = k ∧ job.waiters = some x ∧ job.revoked = true := by
  obtain ⟨p, bytes, e, hcarry, rfl, he, hx⟩ := revokes_iff.1 h
  have he₀ : World.entry? (floorTo w i) p = some e := (entry?_floorTo w i p).trans he
  obtain ⟨q, hq⟩ := Option.ne_none_iff_exists'.1 fun hno => by cases hx.symm.trans ((hp _ e he).1 hno)
  have hrevokes : (floorTo w i).revokes p = true := by
    rw [World.revokes, isShutDown_floorTo, hdown, he₀]
    simp [hq]
  rcases requestSave_cases (floorTo w i) p bytes with ⟨-, -, hno⟩ | ⟨job, hgo, rfl, hrevoked⟩
  · cases hno.symm.trans hrevokes
  · have hnext := phase?_of_carried hw hcarry
    rw [World.step, World.begin, next_ofPart, hgo] at hnext
    obtain ⟨ph, hph, hact⟩ := Option.map_eq_some_iff.1 hnext
    obtain ⟨-, job', hsame, -, -, hentry⟩ := next_requestSave (congrArg Section.next hgo)
    cases hsame
    refine ⟨job, ⟨ph, hph, by rw [hact]; rfl⟩, rfl, ?_, hrevoked.trans hrevokes⟩
    exact (hentry e he₀).1.trans (revoke_of_pending hq hx).1

/-- a signal is given, and forgotten at a path; elsewhere the entries are as they were -/
structure LetsGo (c c' : Core) (k : Path.Key) (x : SignalId) : Prop where
  given : c'.signals.isGiven x = true
  forgotten : ∀ e, c'.entries.get? k = some e → x ∉ e.revokedSignals
  elsewhere : ∀ k', k' ≠ k → c'.entries.get? k' = c.entries.get? k'

theorem letsGo_forget {c c' : Core} (hgiven : c'.signals.isGiven x = true)
    (helse : ∀ k', k' ≠ k → c'.entries.get? k' = c.entries.get? k') : LetsGo c (c'.forget k) k x where
  given := hgiven
  forgotten e he hx := by
    simp only [Core.forget, Table.get?_modify, if_true] at he
    obtain ⟨e₀, -, rfl⟩ := Option.map_eq_some_iff.1 he
    simpa [hgiven] using (List.mem_filter.1 hx).2
  elsewhere k' hk := by
    rw [← helse k' hk]
    simp only [Core.forget, Table.get?_modify, if_neg hk.symm]

theorem letsGo_failSave (hx : job.waiters = some x) (hr : job.revoked = true) (w : World) (e : Problem) :
    LetsGo w.core (w.failSave job e).1.core job.path.key x := by
  have hcore : (w.failSave job e).1.core = ((w.core.giveBack job.turn).giveIf (some x)).forget job.path.key := by
    simp only [World.failSave, hr, if_true, hx]
    rw [core_inBackground, ← core_giveBack, ← core_giveIf]
    rfl
  rw [hcore]
  refine letsGo_forget ?_ fun _ _ => rfl
  rw [isGiven_giveIf]
  simp

theorem letsGo_commitSave (hx : job.waiters = some x) (hr : job.revoked = true) (w : World) (date : Instant) :
    LetsGo w.core (w.commitSave job date).1.core job.path.key x := by
  have hcore : ∃ w₁ : World, (∀ k', k' ≠ job.path.key → w₁.entries.get? k' = w.entries.get? k') ∧
      (w.commitSave job date).1.core = ((w₁.core.giveIf (some x)).forget job.path.key).giveBack job.turn := by
    cases he : w.entry? job.path with
    | none =>
      refine ⟨w, fun _ _ => rfl, ?_⟩
      simp only [World.commitSave, he, hr, if_true, hx, Option.map_none]
      rw [core_giveBack, ← core_giveIf]
      rfl
    | some e =>
      refine ⟨w.setEntry job.path { e with contents := some (Text.Utf8.decodeLossy job.bytes), modified := date },
        fun k' hk => by simp [World.setEntry, Table.get?_insert, hk.symm], ?_⟩
      simp only [World.commitSave, he, hr, if_true, hx, Option.map_some]
      rw [core_giveBack, core_broadcast, ← core_giveIf]
      rfl
  obtain ⟨w₁, helse, hcore⟩ := hcore
  have hlets : LetsGo w.core ((w₁.core.giveIf (some x)).forget job.path.key) job.path.key x :=
    letsGo_forget (by rw [isGiven_giveIf]; simp) helse
  rw [hcore]
  exact ⟨hlets.given, hlets.forgotten, hlets.elsewhere⟩

/-- **The last section of a write gives the signal of what it has revoked, and forgets it.** -/
theorem letsGo_of_replies (hs : w.Saves i y) (hx : y.job.waiters = some x) (hr : y.job.revoked = true) (h : Replies w m i o) :
    LetsGo w.core (w.move m).core y.job.path.key x := by
  cases o with
  | error e =>
    obtain ⟨a, hcarry, hend⟩ := h
    obtain ⟨ph, hph, hsave⟩ := hs
    obtain ⟨ρ, hbefore⟩ := phase?_carried hcarry
    cases hph.symm.trans hbefore
    cases Activity.eq_of_save hsave
    rw [World.step] at hend
    obtain ⟨d, hfail⟩ := stepSave_of_failed (ofPart_eq_error hend)
    have hlets := letsGo_failSave hx hr { floorTo w i with disk := d } e
    rw [core_of_carried hcarry, World.step, fst_ofPart, hfail]
    exact core_floorTo w i ▸ hlets
  | ok b =>
    obtain ⟨t, job, st, rfl, hserved, hc, hact, rfl, hst⟩ := looking_of_replies hs h
    have hcarry := carried?_of_served hserved hc
    rw [hact] at hcarry
    have hfound : (floorTo w i).disk.stat job.path = .ok (some st) := by
      rw [disk_floorTo]
      exact hst
    have hlets := letsGo_commitSave hx hr ((floorTo w i).leaveDisk job.path) st.modified
    rw [core_of_carried hcarry, step_of_found hfound, fst_ofPart]
    exact core_floorTo w i ▸ hlets

/-- as long as the write goes on, nobody but an entry at its path stores the signal -/
theorem Proper.at_path (hp : Proper w.core w.stakes) (hs : w.Saves i y) (hx : y.job.waiters = some x) {e : Entry}
    (he : w.entries.get? k = some e) (hmem : x ∈ e.revokedSignals) : k = y.job.path.key := by
  have herrand : ∃ b, (w.stakes i).errand = .save y.job b := by
    obtain ⟨ph, hph, hsave⟩ := hs
    rw [stakes_of_phase hph, Activity.eq_of_save hsave]
    cases y <;> exact ⟨_, rfl⟩
  obtain ⟨b, hb⟩ := herrand
  have hkeeps : keeps w.core w.stakes (.operation i) = some x := by
    rw [keeps, hb]
    exact hx
  obtain ⟨j, job, b', hj, rfl, hwaiters⟩ := hp.guarded.revoked k e x he hmem (hp.kept.secret _ _ hkeeps)
  have hkeeps' : keeps w.core w.stakes (.operation j) = some x := by
    rw [keeps, hj]
    exact hwaiters
  cases hp.kept.unique _ _ x hkeeps hkeeps'
  cases hb.symm.trans hj
  rfl

/-! ## Along a run -/

/-- The places of an entry at a path are in order, in state `n` of a run. -/
structure Filed (w : World) (moves : Nat → Move) (n : Nat) (k : Path.Key) (e : Entry) : Prop where
  /-- what is pending has a number and a signal -/
  paired : e.pendingQuery.isSome = e.pendingSignal.isSome
  /-- the signal has not been given -/
  ungiven : ∀ x, e.pendingSignal = some x → (w.trace moves n).signals.isGiven x = false
  /-- the number has been given to a reconciliation of the path, and there has been none with a later one -/
  latest : ∀ q, e.pendingQuery = some q → (∃ l < n, Begins (w.trace moves l) (moves l) k q) ∧
    ∀ l < n, ∀ q', Begins (w.trace moves l) (moves l) k q' → q' ≤ q
  /-- no signal is stored in two places -/
  apart : e.stored.Nodup
  /-- the running signal, if it has not been given, is of the operation that has the lock of the path -/
  running : ∀ x, e.runningSignal = some x → (w.trace moves n).signals.isGiven x = false →
    ∃ id τ, (w.trace moves n).HasLock id τ ∧ τ.key = k ∧ (w.trace moves n).LooksAt id k x

/-- a reconciliation that has the lock of its path -/
theorem Proper.hasLock_of_look (hp : Proper w.core w.stakes) {l : Look} {d : Option Instant}
    (h : (w.stakes i).errand = .look l d) : w.HasLock i l.turn ∧ l.turn.key = l.path.key := by
  refine ⟨⟨?_, (hp.guarded.look i l d h).1⟩, hp.sound.keyed i l.turn (by rw [h]; rfl) l.path (by rw [h]; rfl)⟩
  rw [World.HasTurn, held, h]
  rfl

section Trace

variable {policy : WritePolicy} {moves : Nat → Move} {n r c : Nat}

theorem tidy_trace (policy : WritePolicy) (moves : Nat → Move) (n : Nat) : Tidy ((World.start policy).trace moves n).core :=
  trace_induction (J := fun c _ => Tidy c) (N := fun _ => False) (fun _ _ _ h => h) (fun _ _ h => by cases h)
    (fun _ _ _ _ _ _ _ ht he => tidy_effect ht he) n

/-- a write returns after it has been requested -/
theorem lt_of_replies (hsaves : ((World.start policy).trace moves (r + 1)).Saves i y)
    (hreplies : Replies ((World.start policy).trace moves c) (moves c) i o) : r < c := by
  by_contra hle
  have hw := (reachable_trace policy moves c).wf
  obtain ⟨a, hcarry, hend⟩ := hreplies
  obtain ⟨ρ, hph⟩ := phase?_carried hcarry
  have hgone : ((World.start policy).trace moves (c + 1)).tasks.phase? i = none := by
    have hafter := phase?_of_carried hw hcarry
    rw [hend] at hafter
    exact Option.map_eq_none_iff.1 hafter
  obtain ⟨ph, hph', -⟩ := hsaves
  cases (gone_since hph hgone (Nat.lt_succ_of_le (Nat.le_of_not_lt hle))).symm.trans hph'

/-- once a write has returned, what it has revoked is given and forgotten -/
theorem forgotten_of_returned (h : ∀ n, moves n ≠ .call .shutDown)
    (hrevokes : Revokes ((World.start policy).trace moves r) (moves r) i k x)
    (hreturned : (i, Ending.returned o) ∈ ((World.start policy).trace moves n).endings) :
    Forgotten ((World.start policy).trace moves n).core ((World.start policy).trace moves n).stakes x := by
  obtain ⟨job, hsaves, -, hwaiters, hrevoked⟩ := hrevokes.saves (reachable_trace policy moves r).wf (running_trace h r)
    (kept_paired_trace policy moves r).2
  obtain ⟨c, hcn, hreplies⟩ := replies_of_endings hreturned
  have hrc := lt_of_replies hsaves hreplies
  -- it has gone on with the write until then
  have hlast : ∃ y, ((World.start policy).trace moves c).Saves i y ∧ y.job = job := by
    obtain ⟨a, hcarry, -⟩ := hreplies
    obtain ⟨ρ, hph⟩ := phase?_carried hcarry
    obtain ⟨ph₀, hph₀, hsave⟩ := hsaves
    obtain ⟨y, hact, hjob⟩ := saving_trace hrc hph₀ ⟨_, Activity.eq_of_save hsave, rfl⟩ hph
    exact ⟨y, ⟨_, hph, by rw [hact]; rfl⟩, hjob⟩
  obtain ⟨y, hy, rfl⟩ := hlast
  have hlets := letsGo_of_replies hy hwaiters hrevoked hreplies
  refine kept_trace (J := fun c st => Forgotten c st x) hcn (fun _ _ _ _ _ _ hf he => forgotten_effect hf he)
    ⟨(proper_trace h (c + 1)).kept, hlets.given, fun k e he hmem => ?_⟩
  by_cases hk : k = y.job.path.key
  · exact hlets.forgotten e (hk ▸ he) hmem
  · exact hk ((proper_trace h c).at_path hy hwaiters ((hlets.elsewhere k hk).symm.trans he) hmem)

/-- **The three places of an entry are in order** in every run without shutting down, and once a write has returned, the signal of
the reconciliation that it has revoked is given and revoked no more. -/
theorem filed_trace (h : ∀ n, moves n ≠ .call .shutDown) (n : Nat) :
    (∀ k e, ((World.start policy).trace moves n).entries.get? k = some e → Filed (World.start policy) moves n k e) ∧
    ∀ r i k x o, Revokes ((World.start policy).trace moves r) (moves r) i k x →
      (i, Ending.returned o) ∈ ((World.start policy).trace moves n).endings →
      ((World.start policy).trace moves n).signals.isGiven x = true ∧
        ∀ k' e, ((World.start policy).trace moves n).entries.get? k' = some e → x ∉ e.revokedSignals := by
  have hp : Proper ((World.start policy).trace moves n).core ((World.start policy).trace moves n).stakes := proper_trace h n
  refine ⟨fun k e he => ?_, fun r i k x o hrevokes hreturned => ?_⟩
  · have hquery : ∀ {q}, e.pendingQuery = some q → ((World.start policy).trace moves n).core.query? k = some q := fun hq =>
      (Core.query?_of_get? he).trans hq
    constructor
    case paired =>
      have hpaired := hp.guarded.paired k e he
      cases hq : e.pendingQuery <;> cases hs : e.pendingSignal <;> simp [hq, hs] at hpaired ⊢
    case ungiven =>
      intro x hx
      refine hp.kept.secret (.entry k) x ?_
      exact (congrArg (Option.bind · Entry.pendingSignal) he).trans hx
    case latest => exact fun q hq => ⟨begun_trace (hquery hq), fun l hl q' hbegins => le_of_begun hl hbegins (hquery hq)⟩
    case apart => exact (tidy_trace policy moves n k e he).1
    case running =>
      intro x hx hng
      obtain ⟨i, l, d, hi, rfl, hl⟩ := hp.guarded.running k e x he hx hng
      obtain ⟨hlock, hkey⟩ := hp.hasLock_of_look hi
      exact ⟨i, l.turn, hlock, hkey, hp.looksAt hi hl⟩
  · have hforgotten := forgotten_of_returned h hrevokes hreturned
    exact ⟨hforgotten.given, hforgotten.revoked⟩

end Trace

/-- The call to watch of a first subscriber looks at the file when a reconciliation is requested. A write revokes that, and another
one is requested. -/
def crowding : List Move :=
  let p : Path := ⟨"/a"⟩
  [Move.newSubscriber, .hold .stat p, .call (.watch p ⟨1⟩)] ++ List.replicate 3 (Move.turn 1) ++
    [Move.call (.reconcile p)] ++ List.replicate 2 (Move.turn 2) ++
    [Move.call (.write p ⟨#[49]⟩)] ++ List.replicate 2 (Move.turn 3) ++
    [Move.call (.reconcile p)] ++ List.replicate 2 (Move.turn 4) ++
    [Move.openGate 1] ++ List.replicate 5 (Move.turn 1) ++ [Move.turn 2] ++ List.replicate 3 (Move.turn 3)

/-- all places are taken before the gate is opened; when the write has returned, what it has revoked is forgotten -/
theorem filed_trace_crowding :
    (∀ n, along crowding n ≠ .call .shutDown) ∧
    (∃ e, ((World.start .allow).trace (along crowding) 14).entries.get? (Path.key ⟨"/a"⟩) = some e ∧
      e.pendingQuery = some 3 ∧ e.pendingSignal = some 4 ∧ e.runningSignal = some 2 ∧ e.revokedSignals = [3] ∧
      Filed (World.start .allow) (along crowding) 14 (Path.key ⟨"/a"⟩) e) ∧
    Revokes ((World.start .allow).trace (along crowding) 10) (along crowding 10) 3 (Path.key ⟨"/a"⟩) 3 ∧
    (∃ o, (3, Ending.returned o) ∈ ((World.start .allow).trace (along crowding) 25).endings) ∧
    ((World.start .allow).trace (along crowding) 25).signals.isGiven 3 = true ∧
    ∃ e, ((World.start .allow).trace (along crowding) 25).entries.get? (Path.key ⟨"/a"⟩) = some e ∧ 3 ∉ e.revokedSignals := by
  have h : ∀ n, along crowding n ≠ .call .shutDown := along_ne crowding (by simp [crowding]) (by simp)
  have hcrowded : (((World.start .allow).trace (along crowding) 14).entries.get? (Path.key ⟨"/a"⟩)).map
      (fun e => (e.pendingQuery, e.pendingSignal, e.runningSignal, e.revokedSignals)) = some (some 3, some 4, some 2, [3]) := by
    decide +kernel
  obtain ⟨e, he, hplaces⟩ := Option.map_eq_some_iff.1 hcrowded
  simp only [Prod.mk.injEq] at hplaces
  have hrevokes : Revokes ((World.start .allow).trace (along crowding) 10) (along crowding 10) 3 (Path.key ⟨"/a"⟩) 3 := by
    decide +kernel
  have hreturned : (((World.start .allow).trace (along crowding) 25).endings.any fun x =>
      x.1 = 3 && match x.2 with | .returned _ => true | .cancelled => false) = true := by decide +kernel
  obtain ⟨⟨i, ending⟩, hmem, hx⟩ := List.any_eq_true.1 hreturned
  cases ending with
  | cancelled => simp at hx
  | returned o =>
    obtain rfl : i = 3 := by simpa using hx
    have hsome : ((((World.start .allow).trace (along crowding) 25).entries.get? (Path.key ⟨"/a"⟩))).isSome = true := by
      decide +kernel
    obtain ⟨e', he'⟩ := Option.isSome_iff_exists.1 hsome
    obtain ⟨hgiven, hforgotten⟩ := (filed_trace h 25).2 10 3 (Path.key ⟨"/a"⟩) 3 o hrevokes hmem
    exact ⟨h, ⟨e, he, hplaces.1, hplaces.2.1, hplaces.2.2.1, hplaces.2.2.2, (filed_trace h 14).1 _ e he⟩, hrevokes, ⟨o, hmem⟩,
      hgiven, e', he', hforgotten _ e' he'⟩

end LiveFiles.Engine
