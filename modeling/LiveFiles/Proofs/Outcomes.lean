/-
What an operation that ends well leaves in the entry. The marks of a move say what it may leave; here it is what the
section of the operation does leave: a write its own text with the date that it has found (`entry_of_written`), a
reconciliation what it has found (`entry_of_observed`).
-/
import LiveFiles.Proofs.Inversion
import LiveFiles.Proofs.Run

namespace LiveFiles.Engine

variable {w : World} {id : TaskId} {t : Task Phase}

/-! ## Marks -/

/-- whoever reports an observation has found it -/
theorem Marks.observed {m : Move} {k : Path.Key} {o : Observation} (h : Marks w m (.observed k o)) :
    ∃ id t r l, m = .turn id ∧ w.served? id = some t ∧ t.cancelled = false ∧ t.phase.activity.refresh? = some r ∧
      r.look? = some l ∧ l.path.key = k ∧ r.finding w.disk = some o := by
  obtain ⟨id, t, rfl, ht, ho⟩ := h.served (by simp)
  split at ho
  · cases ho
  · rename_i hc
    obtain ⟨r, l, hr, hl, hk, hf⟩ := ho
    exact ⟨id, t, r, l, rfl, ht, by simpa using hc, hr, hl, hk, hf⟩

/-- a write that reports a text takes the date that the file has -/
theorem Marks.committed {m : Move} {k : Path.Key} {text : String} {date : Instant} (h : Marks w m (.committed k text date)) :
    ∃ id t job st f, m = .turn id ∧ w.served? id = some t ∧ t.cancelled = false ∧
      t.phase.activity = .saving (.looking job .due) ∧ (w.entry? job.path).isSome ∧
      w.disk.stat job.path = .ok (some st) ∧ w.disk.file? job.path = some f ∧ f.modified = date ∧
      job.path.key = k ∧ text = Text.Utf8.decodeLossy job.bytes := by
  obtain ⟨id, t, rfl, ht, ho⟩ := h.served (by simp)
  split at ho
  · cases ho
  · rename_i hc
    obtain ⟨x, hx, hk, htext, hf, he⟩ := ho
    have ha : t.phase.activity = .saving x := by
      cases ha : t.phase.activity <;> rw [ha] at hx <;> cases hx
      rfl
    cases x with
    | queued job => cases hf
    | writing job c => cases hf
    | looking job c =>
      cases c with
      | held g => cases hf
      | due =>
        simp only [Save.finding] at hf
        split at hf
        · rename_i st hst
          cases hf
          obtain ⟨f, hfile, hm⟩ := Disk.stat_eq_some hst
          exact ⟨id, t, job, st, f, rfl, ht, by simpa using hc, ha, he, hst, hfile, hm, hk, htext⟩
        · cases hf
        · cases hf

/-- A reconciliation finds that there is no file, that the date is the one it knows, or a text. -/
theorem Refresh.finding_cases {d : Disk} {r : Refresh} {l : Look} {o : Observation} (hl : r.look? = some l)
    (h : r.finding d = some o) :
    (o = .absent l.had ∧ d.stat l.path = .ok none) ∨
      (o = .unchanged ∧ l.had = true ∧ ∃ st, d.stat l.path = .ok (some st) ∧ st.modified = l.last) ∨
      ∃ text date, o = .changed text date ∧ r = .reading l date .due ∧ d.read l.path = .ok text := by
  cases r with
  | queued p q τ => cases hl
  | looking look c =>
    cases hl
    cases c with
    | held g => cases h
    | due =>
      simp only [Refresh.finding] at h
      split at h
      · rename_i hst
        exact Or.inl ⟨(Option.some.inj h).symm, hst⟩
      · rename_i st hst
        split at h
        · rename_i hsame
          simp only [Bool.and_eq_true, decide_eq_true_eq] at hsame
          exact Or.inr (Or.inl ⟨(Option.some.inj h).symm, hsame.1, st, hst, hsame.2⟩)
        · cases h
      · cases h
  | reading look m c =>
    cases hl
    cases c with
    | held g => cases h
    | due =>
      simp only [Refresh.finding] at h
      split at h
      · rename_i text hread
        exact Or.inr (Or.inr ⟨text, m, (Option.some.inj h).symm, rfl, hread⟩)
      · cases h
  | lookingAgain look f c =>
    cases hl
    cases c with
    | held g => cases h
    | due =>
      simp only [Refresh.finding] at h
      split at h
      · rename_i hst
        exact Or.inl ⟨(Option.some.inj h).symm, hst⟩
      · cases h
      · cases h

/-! ## A write -/

@[simp] theorem disk_giveIf (w : World) (x : Option SignalId) : (w.giveIf x).disk = w.disk := by cases x <;> rfl

@[simp] theorem disk_giveBack (w : World) (τ : Turn) : (w.giveBack τ).disk = w.disk := by
  unfold World.giveBack
  dsimp only
  split <;> rfl

@[simp] theorem disk_broadcast (w : World) (x : Snapshot) : (w.broadcast x).disk = w.disk := by
  unfold World.broadcast
  split <;> rfl

theorem forgetRevoked_entry {p : Path} {e : Entry} (he : w.core.entries.get? p.key = some e) :
    ∃ e', (w.forgetRevoked p).core.entries.get? p.key = some e' ∧ e'.contents = e.contents ∧ e'.modified = e.modified := by
  have hg := Table.get?_modify w.core.entries p.key p.key fun e =>
    { e with revokedSignals := e.revokedSignals.filter fun x => !w.signals.isGiven x }
  rw [if_pos rfl, he] at hg
  exact ⟨_, hg, rfl, rfl⟩

/-- a write that ends well leaves its own text in the entry, with the date that it has found, and the files alone -/
theorem commitSave_entry {job : SaveJob} {m : Instant} {e : Entry} (he : w.entry? job.path = some e) :
    (w.commitSave job m).1.disk = w.disk ∧ ∃ e', (w.commitSave job m).1.core.entries.get? job.path.key = some e' ∧
      e'.contents = some (Text.Utf8.decodeLossy job.bytes) ∧ e'.modified = m := by
  have hent : ∀ e', ((w.setEntry job.path e').giveIf job.waiters).core.entries.get? job.path.key = some e' := by
    intro e'
    rw [core_giveIf, Core.entries_giveIf]
    simp [Core.setEntry, Table.get?_insert]
  simp only [World.commitSave, he, Option.map_some, disk_giveBack, disk_broadcast, core_giveBack, core_broadcast,
    Core.giveBack]
  split
  · obtain ⟨e', he', ht, hm⟩ := forgetRevoked_entry (hent _)
    exact ⟨(disk_giveIf _ _).trans rfl, e', he', ht, hm⟩
  · exact ⟨(disk_giveIf _ _).trans rfl, _, hent _, rfl, rfl⟩

/-- the entry after the section in which a write ends well; the files are left alone -/
theorem entry_of_written {job : SaveJob} {e : Entry} {st : FileStat} (h : w.served? id = some t)
    (hc : t.cancelled = false) (ha : t.phase.activity = .saving (.looking job .due)) (he : w.entry? job.path = some e)
    (hst : w.disk.stat job.path = .ok (some st)) :
    (∀ p, (serve w id).disk.file? p = w.disk.file? p) ∧ ∃ e', (serve w id).entries.get? job.path.key = some e' ∧
      e'.contents = some (Text.Utf8.decodeLossy job.bytes) ∧ e'.modified = st.modified := by
  obtain ⟨hcore, hdisk⟩ := core_serve_of_section h hc
  have hstep : ((floorTo w id).step t.phase.activity).1 =
      (((floorTo w id).leaveDisk job.path).commitSave job st.modified).1 := by
    rw [ha]
    simp only [World.step, World.stepSave, disk_floorTo, hst, World.haveLookedUp]
    rfl
  have he₀ : World.entry? ((floorTo w id).leaveDisk job.path) job.path = some e :=
    (congrArg (fun c : Core => c.entries.get? job.path.key) (core_floorTo w id)).trans he
  obtain ⟨hd, e', he', ht, hm⟩ := commitSave_entry (m := st.modified) he₀
  rw [hstep] at hcore hdisk
  refine ⟨fun p => ?_, e', (congrArg (fun c : Core => c.entries.get? job.path.key) hcore).trans he', ht, hm⟩
  rw [hdisk, hd]
  exact congrArg (fun d : Disk => (d.leave job.path).file? p) (disk_floorTo w id)

/-! ## A reconciliation -/

/-- a reconciliation that finds something ends with it -/
theorem stepRefresh_of_finding {r : Refresh} {l : Look} {o : Observation} (hl : r.look? = some l)
    (h : r.finding w.disk = some o) : w.stepRefresh r = (w.leaveDisk l.path).conclude l o := by
  cases r with
  | queued p q τ => cases hl
  | looking look c =>
    cases hl
    cases c with
    | held g => cases h
    | due =>
      simp only [Refresh.finding] at h
      simp only [World.stepRefresh]
      split at h <;> rename_i hst <;> rw [hst]
      · cases h
        rfl
      · simp only [World.haveLooked]
        split at h
        · rename_i hsame
          cases h
          rw [if_pos hsame]
        · cases h
      · cases h
  | reading look m c =>
    cases hl
    cases c with
    | held g => cases h
    | due =>
      simp only [Refresh.finding] at h
      simp only [World.stepRefresh]
      split at h <;> rename_i hrd <;> rw [hrd]
      · cases h
        rfl
      · cases h
  | lookingAgain look f c =>
    cases hl
    cases c with
    | held g => cases h
    | due =>
      simp only [Refresh.finding] at h
      simp only [World.stepRefresh]
      split at h <;> rename_i hst <;> rw [hst]
      · cases h
        rfl
      · cases h
      · cases h

theorem conclude_entry {l : Look} {o : Observation} {e : Entry} (he : w.entry? l.path = some e) :
    (w.conclude l o).1.core.entries.get? l.path.key = some (Entry.commit { e with runningSignal := none } o).1 := by
  simp only [World.conclude, he]
  split <;> simp [Core.giveBack, Core.setEntry, Table.get?_insert]

/-- the entry after the section in which a reconciliation finds something -/
theorem entry_of_observed {r : Refresh} {l : Look} {o : Observation} {e : Entry} (h : w.served? id = some t)
    (hc : t.cancelled = false) (hr : t.phase.activity.refresh? = some r) (hl : r.look? = some l)
    (ho : r.finding w.disk = some o) (he : w.entry? l.path = some e) :
    (serve w id).entries.get? l.path.key = some (Entry.commit { e with runningSignal := none } o).1 := by
  obtain ⟨hcore, -⟩ := core_serve_of_section h hc
  have ho' : r.finding (floorTo w id).disk = some o := by rw [disk_floorTo]; exact ho
  have he₀ : World.entry? ((floorTo w id).leaveDisk l.path) l.path = some e :=
    (congrArg (fun c : Core => c.entries.get? l.path.key) (core_floorTo w id)).trans he
  have hstep : ((floorTo w id).step t.phase.activity).1 = (((floorTo w id).leaveDisk l.path).conclude l o).1 := by
    have hrun := stepRefresh_of_finding hl ho'
    have hend : ∃ w₁ b, ((floorTo w id).leaveDisk l.path).conclude l o = (w₁, .ended (.ok b)) := by
      simp only [World.conclude, he₀]
      exact ⟨_, _, rfl⟩
    obtain ⟨w₁, b, hend⟩ := hend
    rw [hend] at hrun ⊢
    cases ha : t.phase.activity <;> rw [ha] at hr <;> cases hr
    · simp only [World.step, hrun, ofPart]
    · simp only [World.step, World.stepSynchronizing, hrun]
  rw [hstep] at hcore
  exact (congrArg (fun c : Core => c.entries.get? l.path.key) hcore).trans (conclude_entry he₀)

end LiveFiles.Engine
