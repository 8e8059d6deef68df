/-
Dates in order. The clock of the disk moves on before a file gets a date, so whoever has seen a date at a path finds there no
file with an earlier one (`Disk.UpTo`), and whoever has put a file in place finds none that is as old as what was known before
(`Disk.Beyond`).
- `chronological_move`: in every state the dates of an entry, what a reconciliation knows of it and the date that it reads are
  those of files that there have been at the path, in this order (`World.Chronological`).
- `externalSource_move`: where the date of the last change from outside comes from. It is the date that a reconciliation has found in
  this move, or the epoch if the entry is new or its file is missing, or else it stays as it is.
-/
import LiveFiles.Proofs.ReadYourWrites

namespace LiveFiles

namespace Disk

/-- the clock, and the file at a path if there is one, have come up to a date -/
structure UpTo (d : Disk) (k : Path.Key) (m : Instant) : Prop where
  clock : m.nanos ≤ (Instant.ofMillis d.clock).nanos
  file : ∀ f, d.files.get? k = some f → m.nanos ≤ f.modified.nanos

/-- the clock has come up to a date, and the file at a path is later than that -/
structure Beyond (d : Disk) (k : Path.Key) (m : Instant) : Prop where
  clock : m.nanos ≤ (Instant.ofMillis d.clock).nanos
  file : ∀ f, d.files.get? k = some f → m.nanos < f.modified.nanos

variable {d d' : Disk} {k : Path.Key} {m m' : Instant}

theorem nanos_ofMillis_le {a b : Nat} (h : a ≤ b) : (Instant.ofMillis a).nanos ≤ (Instant.ofMillis b).nanos := by
  simp only [Instant.ofMillis]
  omega

theorem nanos_ofMillis_lt {a b : Nat} (h : a < b) : (Instant.ofMillis a).nanos < (Instant.ofMillis b).nanos := by
  simp only [Instant.ofMillis]
  omega

theorem Beyond.later (h : d.Beyond k m) (hl : d.Later d') : d'.Beyond k m where
  clock := h.clock.trans (nanos_ofMillis_le hl.clock)
  file f hf := by
    rcases hl.file k f hf with hf | ⟨n, hn, -, hdate⟩
    · exact h.file f hf
    · rw [hdate]
      exact h.clock.trans_lt (nanos_ofMillis_lt hn)

theorem UpTo.later (h : d.UpTo k m) (hl : d.Later d') : d'.UpTo k m where
  clock := h.clock.trans (nanos_ofMillis_le hl.clock)
  file f hf := by
    rcases hl.file k f hf with hf | ⟨n, hn, -, hdate⟩
    · exact h.file f hf
    · rw [hdate]
      exact (h.clock.trans_lt (nanos_ofMillis_lt hn)).le

theorem UpTo.of_le (h : d.UpTo k m') (hm : m.nanos ≤ m'.nanos) : d.UpTo k m :=
  ⟨hm.trans h.clock, fun f hf => hm.trans (h.file f hf)⟩

/-- where there is no file, the next one will be later than the clock -/
theorem beyond_of_absent (h : d.files.get? k = none) (hm : m.nanos ≤ (Instant.ofMillis d.clock).nanos) : d.Beyond k m :=
  ⟨hm, fun f hf => by cases h.symm.trans hf⟩

end Disk

theorem Instant.eq_of_nanos {a b : Instant} (h : a.nanos = b.nanos) : a = b := by
  cases a
  cases b
  exact congrArg Instant.mk h

namespace Engine

variable {E : Mark → Prop} {c c' : Core} {s s' : Stake} {w : World} {m : Move} {k : Path.Key} {id : TaskId} {r r' : Refresh}
  {l : Look} {e' : Entry}

/-! ## The date of the last change from outside -/

/-- where the date of the last change from outside comes from -/
inductive ExternalSource (E : Mark → Prop) (c : Core) (k : Path.Key) (e' : Entry) : Prop
  | kept (e : Entry) (he : c.entries.get? k = some e) (h : e'.external = e.external)
  | created (hE : E (.created k)) (h : e'.external = .epoch)
  | missing (hE : E (.observed k .missing)) (h : e'.external = .epoch)
  | changed (text : String) (date : Instant) (hE : E (.observed k (.changed text date))) (h : e'.external = date)

theorem Effect.external (h : Effect E c s c' s') (hk : c'.entries.get? k = some e') : ExternalSource E c k e' := by
  cases h.origin hk with
  | same e he hb => exact .kept e he (congrArg Known.external (Entry.known_of_bare hb))
  | asked p e signal τ hp he ha =>
    rcases he with he | ⟨-, rfl, hE⟩
    · exact .kept e he (congrArg Known.external ha.known)
    · exact .created hE (congrArg Known.external ha.known)
  | taken p q τ e hs hp he hq he' =>
    subst he'
    exact .kept e he rfl
  | concluded l d e o hs hl he ho he' hs' =>
    subst he'
    cases o with
    | unchanged => exact .kept e he rfl
    | missing => exact .missing ho rfl
    | changed text date => exact .changed text date ho rfl
  | revoked p bytes e τ hp he he' =>
    subst he'
    exact .kept e he (congrArg Known.external (known_revoke e))
  | committed job e date hs hj he ho he' hs' =>
    subst he'
    exact .kept e he rfl
  | forgotten e he he' =>
    subst he'
    exact .kept e he rfl

theorem Effects.external (h : Effects E c s c' s') (hk : c'.entries.get? k = some e') : ExternalSource E c k e' := by
  induction h generalizing e' with
  | refl => exact .kept e' hk rfl
  | tail _ he ih =>
    cases he.external hk with
    | kept e hk' h' =>
      cases ih hk' with
      | kept e₀ he₀ h₀ => exact .kept e₀ he₀ (h'.trans h₀)
      | created hE h₀ => exact .created hE (h'.trans h₀)
      | missing hE h₀ => exact .missing hE (h'.trans h₀)
      | changed text date hE h₀ => exact .changed text date hE (h'.trans h₀)
    | created hE h' => exact .created hE h'
    | missing hE h' => exact .missing hE h'
    | changed text date hE h' => exact .changed text date hE h'

theorem externalSource_move (hw : Wf w) (hk : (w.move m).entries.get? k = some e') :
    ExternalSource (Marks w m) w.core k e' := by
  obtain ⟨id, hs⟩ := move_served hw m
  obtain ⟨s', he, -⟩ := hs.effects
  exact he.external hk

/-- an entry is made only where there was none -/
theorem absent_of_created (h : Marks w m (.created k)) : w.entries.get? k = none := by
  obtain ⟨id, t, rfl, -, ho⟩ := h.served (by simp)
  split at ho
  · cases ho
  · exact ho

/-! ## Dates in order -/

/-- The dates of files are in order with the clock; those of an entry, what a reconciliation knows of it and the date that it
reads are dates of files that there have been at the path. -/
structure World.Chronological (w : World) : Prop where
  file : ∀ k f, w.disk.files.get? k = some f →
    0 ≤ f.modified.nanos ∧ f.modified.nanos ≤ (Instant.ofMillis w.disk.clock).nanos
  entry : ∀ k e, w.entries.get? k = some e → w.disk.UpTo k e.modified ∧ e.external.nanos ≤ e.modified.nanos
  look : ∀ id r l, w.Refreshes id r → r.look? = some l → w.disk.UpTo l.path.key l.last
  reading : ∀ id l date c, w.Refreshes id (.reading l date c) →
    w.disk.UpTo l.path.key date ∧ (l.had = true → l.last.nanos < date.nanos)

theorem upTo_epoch (h : w.Chronological) (k : Path.Key) : w.disk.UpTo k .epoch where
  clock := by
    simp only [Instant.epoch, Instant.ofMillis]
    omega
  file f hf := (h.file k f hf).1

/-- the date of a file at its path -/
theorem upTo_file (h : w.Chronological) {f : StoredFile} (hf : w.disk.files.get? k = some f) : w.disk.UpTo k f.modified where
  clock := (h.file k f hf).2
  file f' hf' := by
    cases hf.symm.trans hf'
    exact le_rfl

/-- a reconciliation that reports a text has the date that it reads -/
theorem reading_of_changed {text : String} {date : Instant} (h : Marks w m (.observed k (.changed text date))) :
    ∃ id l, w.Refreshes id (.reading l date .due) ∧ l.path.key = k := by
  obtain ⟨id, t, r, l, rfl, ht, -, hr, hl, hk, hf⟩ := h.observed
  rcases Refresh.finding_cases hl hf with ⟨ho, -⟩ | ⟨ho, -⟩ | ⟨text', date', ho, rfl, -⟩
  · unfold Observation.absent at ho
    split at ho <;> cases ho
  · cases ho
  · cases ho
    exact ⟨id, l, ⟨t.phase, phase?_of_served ht, hr⟩, hk⟩

/-- a reconciliation that is taken up knows what the entry says -/
theorem look_of_taken {p : Path} {q : QueryId} {τ : Turn} {call : Call}
    (h : (w.stepRefresh (.queued p q τ)).2.next = some (.looking l call)) :
    ∃ e, w.entry? p = some e ∧ l = ⟨p, τ, e.pendingSignal, e.contents.isSome, e.modified⟩ := by
  simp only [World.stepRefresh, World.enterRefresh] at h
  split at h
  · cases he : w.entry? p with
    | none =>
      rw [he] at h
      cases h
    | some e =>
      rw [he] at h
      dsimp only at h
      split at h
      · cases h
      · obtain ⟨c, hc⟩ := next_beginCall (α := Refreshed)
          (w.setEntry p { e with pendingQuery := none, pendingSignal := none, runningSignal := e.pendingSignal }) .stat p
          (Refresh.looking ⟨p, τ, e.pendingSignal, e.contents.isSome, e.modified⟩)
        cases hc.symm.trans h
        exact ⟨e, rfl, rfl⟩
  · cases h

theorem chronological_start (policy : WritePolicy) : (World.start policy).Chronological where
  file _ _ h := by cases h
  entry _ _ h := by cases h
  look _ _ _ h := by
    obtain ⟨ph, hph, -⟩ := h
    cases hph
  reading _ _ _ _ h := by
    obtain ⟨ph, hph, -⟩ := h
    cases hph

/-- the dates of an entry after a move -/
theorem entry_dates_move (hw : Wf w) (h : w.Chronological) (he' : (w.move m).entries.get? k = some e') :
    w.disk.UpTo k e'.modified ∧ e'.external.nanos ≤ e'.modified.nanos := by
  have hnothing : e'.known = .nothing → w.disk.UpTo k e'.modified ∧ e'.external.nanos ≤ e'.modified.nanos := by
    intro hno
    rw [show e'.modified = .epoch from congrArg Known.modified hno, show e'.external = .epoch from congrArg Known.external hno]
    exact ⟨upTo_epoch h k, le_rfl⟩
  cases source_move hw he' with
  | kept e he hknown =>
    rw [show e'.modified = e.modified from congrArg Known.modified hknown,
      show e'.external = e.external from congrArg Known.external hknown]
    exact h.entry k e he
  | created _ hno => exact hnothing hno
  | missing _ hno => exact hnothing hno
  | changed text date ho hknown =>
    obtain ⟨i, l, hr, hk⟩ := reading_of_changed ho
    rw [show e'.modified = date from congrArg Known.modified hknown,
      show e'.external = date from congrArg Known.external hknown, ← hk]
    exact ⟨(h.reading i l date .due hr).1, le_rfl⟩
  | committed text date hc _ hdate =>
    -- the date is that of the file, and no date that is known at the path is later
    obtain ⟨i, t, job, st, f, -, -, -, -, -, -, hf, hm, hk, -⟩ := hc.committed
    have hfile : w.disk.files.get? k = some f := hk ▸ hf
    have hexternal : w.disk.UpTo k e'.external := by
      cases externalSource_move hw he' with
      | kept e he hkept =>
        rw [hkept]
        exact (h.entry k e he).1.of_le (h.entry k e he).2
      | created _ hno =>
        rw [hno]
        exact upTo_epoch h k
      | missing _ hno =>
        rw [hno]
        exact upTo_epoch h k
      | changed text' date' ho hchanged =>
        obtain ⟨i', l, hr, hk'⟩ := reading_of_changed ho
        rw [hchanged, ← hk']
        exact (h.reading i' l date' .due hr).1
    rw [hdate, ← hm]
    exact ⟨upTo_file h hfile, hexternal.file f hfile⟩

/-- what a reconciliation knows after a move -/
theorem look_date_move (hw : Wf w) (h : w.Chronological) (hr : (w.move m).Refreshes id r) (hl : r.look? = some l) :
    w.disk.UpTo l.path.key l.last := by
  rcases refreshes_move hw hr with hr | hno | ⟨a, r₀, hcarry, hr₀, hnext⟩
  · exact h.look id r l hr hl
  · cases hno.symm.trans hl
  · have hbefore : ∀ {r₁ : Refresh}, r₁.look? = some l → w.Refreshes id r₁ → w.disk.UpTo l.path.key l.last :=
      fun hl₁ hr₁ => h.look id _ l hr₁ hl₁
    have hrefreshes := refreshes_of_carried hcarry hr₀
    cases onward_stepRefresh hnext with
    | inLine => cases hl
    | taken p q τ l' c hp hτ =>
      cases hl
      obtain ⟨e, he, rfl⟩ := look_of_taken hnext
      rw [entry?_floorTo] at he
      exact (h.entry p.key e he).1
    | looking l' g c => cases hl; exact hbefore rfl hrefreshes
    | reads l' st c hst hnew => cases hl; exact hbefore rfl hrefreshes
    | reading l' date g c => cases hl; exact hbefore rfl hrefreshes
    | fails l' date f c => cases hl; exact hbefore rfl hrefreshes
    | lookingAgain l' f g c => cases hl; exact hbefore rfl hrefreshes

/-- the date that a reconciliation reads after a move -/
theorem reading_date_move (hw : Wf w) (h : w.Chronological) {date : Instant} {call : Call}
    (hr : (w.move m).Refreshes id (.reading l date call)) :
    w.disk.UpTo l.path.key date ∧ (l.had = true → l.last.nanos < date.nanos) := by
  rcases refreshes_move hw hr with hr | hno | ⟨a, r₀, hcarry, hr₀, hnext⟩
  · exact h.reading id l date call hr
  · cases hno
  · have hrefreshes := refreshes_of_carried hcarry hr₀
    cases onward_stepRefresh hnext with
    | reads l st c hst hnew =>
      -- the date is that of the file, which is not the one that is known
      rw [disk_floorTo] at hst
      obtain ⟨f, hf, hm⟩ := Disk.stat_eq_some hst
      have hlast := (h.look id _ l hrefreshes rfl).file f hf
      rw [← hm]
      refine ⟨upTo_file h hf, fun hhad => lt_of_le_of_ne hlast fun heq => hnew ⟨hhad, ?_⟩⟩
      rw [← hm]
      exact (Instant.eq_of_nanos heq).symm
    | reading l date g c => exact h.reading id l date _ hrefreshes

/-- **Every move keeps dates in order.** -/
theorem chronological_move (hw : Wf w) (h : w.Chronological) (m : Move) : (w.move m).Chronological := by
  have hlater := (move_served hw m).choose_spec.disk
  constructor
  case file =>
    intro k f hf
    rcases hlater.file k f hf with hf | ⟨n, -, hn, hdate⟩
    · exact ⟨(h.file k f hf).1, (h.file k f hf).2.trans (Disk.nanos_ofMillis_le hlater.clock)⟩
    · rw [hdate]
      refine ⟨?_, Disk.nanos_ofMillis_le hn⟩
      simp only [Instant.ofMillis]
      omega
  case entry =>
    intro k e he
    obtain ⟨hmodified, hexternal⟩ := entry_dates_move hw h he
    exact ⟨hmodified.later hlater, hexternal⟩
  case look =>
    intro id r l hr hl
    exact (look_date_move hw h hr hl).later hlater
  case reading =>
    intro id l date c hr
    obtain ⟨hdate, hnew⟩ := reading_date_move hw h hr
    exact ⟨hdate.later hlater, hnew⟩

theorem chronological_trace (policy : WritePolicy) (moves : Nat → Move) (n : Nat) :
    ((World.start policy).trace moves n).Chronological := by
  induction n with
  | zero => exact chronological_start policy
  | succ n ih => exact chronological_move (reachable_trace policy moves n).wf ih (moves n)

end Engine

end LiveFiles
