/-
Reading what one has written. When a write has put its bytes in place, nobody at the path has taken up a reconciliation, and
the date of the file is one that no text in the cache has. From then on nobody at the path is misled about the file
(`World.Trusted`), as long as the file stays as it is and no call to the disk fails.
- `trusted_written`, `trusted_move`: how that comes about, and that it lasts.
- `not_cutShort_since`: no operation ends early after the entry that the write may have found has gone.
- `still_after`: so an entry that is used after the write has returned agrees with the file, whether it has been there all the
  time or is a new one.
- **`reads_own_writes`**: every call to watch that is made after the write and returns, returns the text that has been written;
  and while the entry stays nobody reads the file.
- `closed_before_write_not_read`: the engine must not have been shut down before the write either.
-/
import LiveFiles.Proofs.CallCounts
import LiveFiles.Proofs.Watching

namespace LiveFiles.Engine

/-! ## Failing calls -/

/-- the call to the disk that a section of a reconciliation carries out fails -/
def Refresh.callFails (d : Disk) : Refresh → Bool
  | .looking l .due | .lookingAgain l _ .due => (d.stat l.path).toOption.isNone
  | .reading l _ .due => (d.read l.path).toOption.isNone
  | .queued .. | .looking _ (.held _) | .reading _ _ (.held _) | .lookingAgain _ _ (.held _) => false

/-- so does that of a write -/
def Save.callFails (d : Disk) : Save → Bool
  | .writing job .due => (d.write job.path job.bytes).2.toOption.isNone
  | .looking job .due => (d.stat job.path).toOption.isNone
  | .queued _ | .writing _ (.held _) | .looking _ (.held _) => false

/-- an operation at the path carries out a call to the disk in the move, which fails -/
def FailsAt (w : World) (m : Move) (p : Path) : Prop :=
  ∃ id a, w.carried? m = some (id, a) ∧
    ((∃ r, a.refresh? = some r ∧ r.path.key = p.key ∧ r.callFails w.disk = true) ∨
      ∃ x, a.save? = some x ∧ x.job.path.key = p.key ∧ x.callFails w.disk = true)

instance (w : World) (m : Move) (p : Path) : Decidable (FailsAt w m p) :=
  decidable_of_iff ((w.carried? m).any (fun x =>
      (x.2.refresh?.any fun r => decide (r.path.key = p.key) && r.callFails w.disk) ||
      x.2.save?.any fun x => decide (x.job.path.key = p.key) && x.callFails w.disk) = true) (by
    unfold FailsAt
    simp only [Option.any_eq_true, Bool.or_eq_true, Bool.and_eq_true, decide_eq_true_eq]
    constructor
    · rintro ⟨⟨id, a⟩, hcarry, h⟩
      exact ⟨id, a, hcarry, h⟩
    · rintro ⟨id, a, hcarry, h⟩
      exact ⟨⟨id, a⟩, hcarry, h⟩)

/-! ## What operations know of a file -/

/-- At a path nobody has been misled about the file: a cached date stands for the text of the file, whoever looks up the date
of a file that it has written finds its own text there, whoever reads knows the date of what it reads, and nobody looks
again after a failure. -/
structure World.Trusted (w : World) (p : Path) : Prop where
  faithful : w.FaithfulAt p
  written : ∀ id job c f, w.Saves id (.looking job c) → job.path.key = p.key → w.disk.file? p = some f →
    Text.Utf8.decodeLossy f.bytes = Text.Utf8.decodeLossy job.bytes
  read : ∀ id l date c f, w.Refreshes id (.reading l date c) → l.path.key = p.key → w.disk.file? p = some f →
    f.modified = date
  calm : ∀ id l f c, w.Refreshes id (.lookingAgain l f c) → l.path.key ≠ p.key

variable {w : World} {m : Move} {id id' : TaskId} {a : Activity} {p q : Path} {r : Refresh} {l : Look} {job : SaveJob}
  {x x' : Save} {c : Call} {date : Instant}

/-- a write that has begun has the lock -/
theorem lock_of_saves (hg : Guarded w.core w.stakes) (hx : w.Saves id x) (hcall : x.call?.isSome = true) :
    (w.stakes id).errand = .save x.job true ∧ w.turns.holds x.job.turn = true := by
  have herrand : (w.stakes id).errand = .save x.job true := by
    obtain ⟨ph, hph, hs⟩ := hx
    rw [stakes_of_phase hph, Activity.eq_of_save hs]
    cases x with
    | queued job => cases hcall
    | writing job c => rfl
    | looking job c => rfl
  exact ⟨herrand, hg.save id x.job herrand⟩

/-- beside a write that has begun nobody has taken up a reconciliation -/
theorem nobody_looks_beside (hw : Wf w) (hg : Guarded w.core w.stakes) (hx : w.Saves id x) (hcall : x.call?.isSome = true)
    (hr : w.Refreshes id' r) (hl : r.look? = some l) : l.path.key ≠ x.job.path.key := by
  intro hk
  obtain ⟨hsave, hlock⟩ := lock_of_saves hg hx hcall
  obtain ⟨d, hlook⟩ := errand_of_look? hr hl
  have hlock' := (hg.look id' l d hlook).1
  have hsame : id' = id := hw.sound.alone (by rw [hlook]; rfl) (by rw [hlook]; rfl) (by rw [hsave]; rfl)
    (by rw [hsave]; rfl) hk hlock' hlock
  rw [hsame, hsave] at hlook
  cases hlook

/-- nor any other write -/
theorem nobody_writes_beside (hw : Wf w) (hg : Guarded w.core w.stakes) (hx : w.Saves id x) (hcall : x.call?.isSome = true)
    (hx' : w.Saves id' x') (hcall' : x'.call?.isSome = true) (hk : x'.job.path.key = x.job.path.key) : id' = id := by
  obtain ⟨hsave, hlock⟩ := lock_of_saves hg hx hcall
  obtain ⟨hsave', hlock'⟩ := lock_of_saves hg hx' hcall'
  exact hw.sound.alone (by rw [hsave']; rfl) (by rw [hsave']; rfl) (by rw [hsave]; rfl) (by rw [hsave]; rfl) hk hlock'
    hlock

theorem saves_unique (h : w.Saves id x) (h' : w.Saves id x') : x = x' := by
  obtain ⟨ph, hph, hx⟩ := h
  obtain ⟨ph', hph', hx'⟩ := h'
  cases hph.symm.trans hph'
  exact Option.some.inj (hx.symm.trans hx')

/-- what a section of an operation leaves on the disk -/
theorem disk_of_carried (hcarry : w.carried? m = some (id, a)) : (w.move m).disk = ((floorTo w id).step a).1.disk := by
  obtain ⟨t, rfl, hs, hc, rfl⟩ := carried?_eq_some.1 hcarry
  exact (core_serve_of_section hs hc).2

/-- A write that carries out its first call puts its bytes in place with a new date and goes on to look that up, or fails. -/
theorem stepSave_of_writing (w : World) (job : SaveJob) :
    ((w.stepSave (.writing job .due)).1.disk.file? job.path = some ⟨job.bytes, Instant.ofMillis (w.disk.clock + 1)⟩ ∧
      ∃ c, (w.stepSave (.writing job .due)).2.next = some (.looking job c)) ∨
    (w.stepSave (.writing job .due)).2.next = none := by
  simp only [World.stepSave, World.haveWritten]
  cases hfail : w.disk.failure? .write job.path with
  | some f =>
    simp only [Disk.write, hfail]
    exact Or.inr (disk_failSave _ job _).2
  | none =>
    simp only [Disk.write, hfail]
    obtain ⟨c, hc⟩ := next_beginCall (α := Saved) ({ w with disk := w.disk.putFile job.path job.bytes }.leaveDisk job.path)
      .stat job.path (Save.looking job)
    refine Or.inl ⟨?_, c, hc⟩
    rw [disk_beginCall]
    exact (Table.get?_insert _ _ _ _).trans (if_pos rfl)

/-- what goes on after a write has put its bytes in place -/
theorem file_of_written (hcarry : w.carried? m = some (id, .saving (.writing job .due))) (hw : Wf w)
    (hlive : (w.move m).tasks.phase? id ≠ none) :
    (w.move m).disk.file? job.path = some ⟨job.bytes, Instant.ofMillis (w.disk.clock + 1)⟩ ∧
      ∃ c, (w.move m).Saves id (.looking job c) := by
  obtain ⟨t, rfl, hs, hc, hact⟩ := carried?_eq_some.1 hcarry
  have hphase := phase?_serve hw hs hc
  rw [hact, World.step, next_ofPart] at hphase
  rcases stepSave_of_writing (floorTo w id) job with ⟨hfile, c, hnext⟩ | hnext
  · rw [hnext] at hphase
    refine ⟨?_, c, _, hphase, rfl⟩
    rw [disk_of_carried hcarry, World.step, fst_ofPart, hfile, disk_floorTo]
  · rw [hnext] at hphase
    exact absurd hphase hlive

/-- the date of a text after a move is one that no file has been given in the move -/
theorem past_entry (hw : Wf w) (hd : Dated w) {e : Entry} {text : String} (he : World.entry? (w.move m) p = some e)
    (htext : e.contents = some text) : w.disk.Past e.modified := by
  have hno : e.known ≠ .nothing := by
    intro h
    cases (congrArg Known.contents h).symm.trans htext
  cases source_move hw he with
  | kept e₀ he₀ h =>
    have hdate : e.modified = e₀.modified := congrArg Known.modified h
    rw [hdate]
    exact hd.entry p.key e₀ text he₀ ((congrArg Known.contents h).symm.trans htext)
  | created _ h => exact absurd h hno
  | missing _ h => exact absurd h hno
  | changed text' date ho h =>
    obtain ⟨i, l, f₀, hl, -, -, -⟩ := marks_changed ho
    have hdate : e.modified = date := congrArg Known.modified h
    rw [hdate]
    exact hd.look i l _ hl
  | committed text' date hc _ hdate =>
    obtain ⟨i, t, job, st, f₀, -, -, -, -, -, -, hf₀, hm₀, -, -⟩ := hc.committed
    rw [hdate, ← hm₀]
    exact hd.file _ f₀ hf₀

/-- **After a write has put its bytes in place, nobody at the path is misled.** -/
theorem trusted_written (hw : Wf w) (hd : Dated w) (hg : Guarded w.core w.stakes)
    (hcarry : w.carried? m = some (id, .saving (.writing job .due))) (hlive : (w.move m).tasks.phase? id ≠ none) :
    (w.move m).Trusted job.path := by
  have hsave : w.Saves id (.writing job .due) := saves_of_carried hcarry rfl
  obtain ⟨hfile, c, hlooking⟩ := file_of_written hcarry hw hlive
  -- nobody has taken up a reconciliation beside the write, and its own section is none
  have hnobody : ∀ id' r l, (w.move m).Refreshes id' r → r.look? = some l → l.path.key ≠ job.path.key := by
    intro id' r l hr hl
    rcases refreshes_move hw hr with hsame | hno | ⟨a, r₀, ha, hr₀, -⟩
    · exact nobody_looks_beside (x := .writing job .due) hw hg hsave rfl hsame hl
    · cases hno.symm.trans hl
    · cases hcarry.symm.trans ha
      cases hr₀
  constructor
  · -- the date of the file is new
    intro e f text he htext hf hdate
    have hnew : f.modified = Instant.ofMillis (w.disk.clock + 1) :=
      congrArg StoredFile.modified (Option.some.inj (hf.symm.trans hfile))
    exact absurd (hdate.trans hnew).symm (past_entry hw hd he htext _ (Nat.lt_succ_self _))
  · intro id' job' c' f hx hk hf
    have hbytes : f.bytes = job.bytes := congrArg StoredFile.bytes (Option.some.inj (hf.symm.trans hfile))
    rw [hbytes]
    rcases saves_move hw hx with hsame | ⟨job₀, hno⟩ | ⟨a, x₀, ha, hx₀, hnext⟩
    · have hid : id' = id :=
        nobody_writes_beside (x := .writing job .due) hw hg hsave rfl hsame rfl hk
      rw [hid] at hsame
      cases saves_unique hsave hsame
    · cases hno
    · obtain ⟨rfl, -⟩ := Prod.mk.inj (Option.some.inj (hcarry.symm.trans ha))
      cases saves_unique hx hlooking
      rfl
  · intro id' l date c' f hr hk
    exact absurd hk (hnobody id' _ l hr rfl)
  · intro id' l f c' hr
    exact hnobody id' _ l hr rfl

/-- whoever looks again has failed to read the file -/
theorem read_of_lookingAgain {f : Failure} (h : (w.stepRefresh (.reading l date .due)).2.next = some (.lookingAgain l f c)) :
    (w.disk.read l.path).toOption = none := by
  simp only [World.stepRefresh, World.haveRead] at h
  cases hread : w.disk.read l.path with
  | error f' => rfl
  | ok text =>
    rw [hread] at h
    cases (disk_conclude _ l _).2.symm.trans h

/-- where nobody is misled, no write is overtaken -/
theorem World.Trusted.not_overtaken (ht : w.Trusted p) : ¬ OvertakenAt w m p.key := by
  rintro ⟨id, u, job, st, f, ⟨rfl, hs, hc, hact, -, -, hf, hne⟩, hk⟩
  exact hne (ht.written id job .due f ⟨_, phase?_of_served hs, by rw [hact]; rfl⟩ hk ((file?_congr hk _).symm.trans hf))

/-- **Where the file stays as it is and no call fails, nobody is misled.** -/
theorem trusted_move (hw : Wf w) (hd : Dated w) (ht : w.Trusted p) (hfile : (w.move m).disk.file? p = w.disk.file? p)
    (hfails : ¬ FailsAt w m p) : (w.move m).Trusted p := by
  constructor
  · exact faithfulAt_move hw hd ht.faithful ht.not_overtaken
  · intro id job c f hx hk hf
    rcases saves_move hw hx with hsame | ⟨job₀, hno⟩ | ⟨a, x₀, hcarry, hx₀, hnext⟩
    · exact ht.written id job c f hsame hk (hfile.symm.trans hf)
    · cases hno
    · rcases looking_of_stepSave hnext with ⟨c', rfl⟩ | ⟨rfl, g, hg, hbytes⟩
      · exact ht.written id job c' f (saves_of_carried hcarry hx₀) hk (hfile.symm.trans hf)
      · have hdisk := disk_of_carried hcarry
        rw [Activity.eq_of_save hx₀, World.step, fst_ofPart] at hdisk
        rw [← hdisk, file?_congr hk, hf] at hg
        cases hg
        rw [hbytes]
  · intro id l date c f hr hk hf
    rw [hfile] at hf
    rcases refreshes_move hw hr with hsame | hno | ⟨a, r₀, hcarry, hr₀, hnext⟩
    · exact ht.read id l date c f hsame hk hf
    · cases hno
    · cases onward_stepRefresh hnext with
      | reads l st c hst hnew =>
        obtain ⟨g, hg, hm⟩ := Disk.stat_eq_some hst
        rw [disk_floorTo, file?_congr hk, hf] at hg
        cases hg
        exact hm
      | reading l date g c => exact ht.read id l date (.held g) f (refreshes_of_carried hcarry hr₀) hk hf
  · intro id l f c hr hk
    rcases refreshes_move hw hr with hsame | hno | ⟨a, r₀, hcarry, hr₀, hnext⟩
    · exact ht.calm id l f c hsame hk
    · cases hno
    · cases onward_stepRefresh hnext with
      | fails l date f c =>
        have hread := read_of_lookingAgain hnext
        rw [disk_floorTo] at hread
        refine hfails ⟨id, a, hcarry, Or.inl ⟨_, hr₀, hk, ?_⟩⟩
        simp only [Refresh.callFails, hread, Option.isNone_none]
      | lookingAgain l f g c => exact ht.calm id l f (.held g) (refreshes_of_carried hcarry hr₀) hk

/-- a write leaves nobody with a reconciliation taken up when it ends -/
theorem nobody_looks_after (hw : Wf w) (hg : Guarded w.core w.stakes) (hcarry : w.carried? m = some (id, .saving x))
    (hcall : x.call?.isSome = true) (hr : (w.move m).Refreshes id' r) (hl : r.look? = some l) :
    l.path.key ≠ x.job.path.key := by
  rcases refreshes_move hw hr with hsame | hno | ⟨a, r₀, ha, hr₀, -⟩
  · exact nobody_looks_beside hw hg (saves_of_carried hcarry rfl) hcall hsame hl
  · cases hno.symm.trans hl
  · cases hcarry.symm.trans ha
    cases hr₀

/-- **Where nobody is misled, an operation that ends well leaves an entry that agrees with the file.** -/
theorem still_of_loads (hw : Wf w) (hg : Guarded w.core w.stakes) (hd : w.Dateless) (ht : w.Trusted p)
    (hl : Loads w m p.key) (hfile : (w.move m).disk.file? p = w.disk.file? p) : (w.move m).Still p := by
  rcases hl with ⟨o, ho⟩ | ⟨text, date, hc⟩
  · obtain ⟨id, u, r, l, rfl, hs, hcan, hr, hlook, hk, hfind⟩ := ho.observed
    have hcarry := carried?_of_served hs hcan
    have hrefresh := refreshes_of_carried hcarry hr
    obtain ⟨d, herrand⟩ := errand_of_look? hrefresh hlook
    obtain ⟨-, e, he, hhad, hlast⟩ := hg.look id l d herrand
    have hmirrors : (Entry.commit { e with runningSignal := none } o).1.known.Mirrors (w.disk.file? l.path) := by
      refine mirrors_of_finding hhad hlast (hd _ e he) he (ht.faithful.congr hk.symm) hlook ?_ hfind
      rintro date c f rfl hf
      exact ht.read id l date c f hrefresh hk ((file?_congr hk _).symm.trans hf)
    have hentry := entry_of_observed hs hcan hr hlook hfind he
    constructor
    · intro e' he'
      rw [World.entry?, ← hk] at he'
      cases hentry.symm.trans he'
      rw [hfile, ← file?_congr hk]
      exact hmirrors
    · intro id' r' l' hr' hl' hk'
      exact absurd (hk'.trans hk.symm) (nobody_looks hw hg hcarry hr hlook hfind hr' hl')
  · obtain ⟨id, u, job, st, f, rfl, hs, hcan, hact, he, hst, hf, -, hk, -⟩ := hc.committed
    obtain ⟨e, he⟩ := Option.isSome_iff_exists.1 he
    have hcarry : w.carried? (.turn id) = some (id, .saving (.looking job .due)) := hact ▸ carried?_of_served hs hcan
    obtain ⟨-, e', hentry, htext, hdate⟩ := entry_of_written hs hcan hact he hst
    obtain ⟨f', hf', hmod⟩ := Disk.stat_eq_some hst
    cases hf.symm.trans hf'
    have hfp : w.disk.file? p = some f := (file?_congr hk _).symm.trans hf
    constructor
    · intro e₁ he₁
      rw [World.entry?, ← hk] at he₁
      cases hentry.symm.trans he₁
      rw [hfile, hfp]
      refine ⟨?_, hdate.trans hmod.symm⟩
      rw [ht.written id job .due f (saves_of_carried hcarry rfl) hk hfp]
      exact htext
    · intro id' r' l' hr' hl' hk'
      exact absurd (hk'.trans hk.symm) (nobody_looks_after (x := .looking job .due) hw hg hcarry rfl hr' hl')

/-! ## Since the bytes have been put in place -/

/-- Since move `k`, up to state `n`, nobody changes the file of a path, no call to the disk at the path fails, and no task
at the path is cancelled. -/
structure Untouched (w : World) (moves : Nat → Move) (p : Path) (k n : Nat) : Prop where
  /-- nobody else changes the file, and no other write puts its bytes there -/
  file : ∀ j, k < j → j ≤ n → (w.trace moves j).disk.file? p = (w.trace moves (k + 1)).disk.file? p
  calls : ∀ j, k < j → j < n → ¬ FailsAt (w.trace moves j) (moves j) p
  uncancelled : ∀ j, k < j → j < n → ∀ id ph q, moves j = .cancel id → (w.trace moves j).tasks.phase? id = some ph →
    ph.activity.operation? = some q → q.key ≠ p.key

/-- A write puts its bytes in place in move `k`, and has not ended then. -/
def Stores (w : World) (moves : Nat → Move) (id : TaskId) (job : SaveJob) (k : Nat) : Prop :=
  (w.trace moves k).carried? (moves k) = some (id, .saving (.writing job .due)) ∧
    (w.trace moves (k + 1)).tasks.phase? id ≠ none

section Trace

variable {policy : WritePolicy} {moves : Nat → Move} {i j k n : Nat}

theorem Untouched.file_move (h : Untouched w moves p k n) (hkj : k < j) (hjn : j < n) :
    ((w.trace moves j).move (moves j)).disk.file? p = (w.trace moves j).disk.file? p :=
  (h.file (j + 1) (Nat.lt_succ_of_lt hkj) hjn).trans (h.file j hkj hjn.le).symm

theorem trusted_trace (h : ∀ n, moves n ≠ .call .shutDown) (hs : Stores (World.start policy) moves id job k)
    (hu : Untouched (World.start policy) moves job.path k n) (hkj : k < j) (hjn : j ≤ n) :
    ((World.start policy).trace moves j).Trusted job.path := by
  have hproper : Proper ((World.start policy).trace moves k).core ((World.start policy).trace moves k).stakes :=
    proper_trace h k
  induction j, hkj using Nat.le_induction with
  | base =>
    exact trusted_written (reachable_trace policy moves k).wf (reachable_trace policy moves k).dated hproper.guarded hs.1 hs.2
  | succ j hkj ih =>
    have hlt : j < n := Nat.lt_of_succ_le hjn
    exact trusted_move (reachable_trace policy moves j).wf (reachable_trace policy moves j).dated (ih hlt.le)
      (hu.file_move hkj hlt) (hu.calls j hkj hlt)

/-- no operation fails at the path -/
theorem Untouched.unfailing (hu : Untouched w moves p k n) (ht : (w.trace moves j).Trusted p) (hkj : k < j) (hjn : j < n)
    (hcarry : (w.trace moves j).carried? (moves j) = some (id, a)) (hr : a.refresh? = some r) (hk : r.path.key = p.key) :
    r.fails (w.trace moves j).disk = false := by
  by_contra hfails
  rw [Bool.not_eq_false] at hfails
  refine hu.calls j hkj hjn ⟨id, a, hcarry, Or.inl ⟨r, hr, hk, ?_⟩⟩
  match r with
  | .looking l .due => exact hfails
  | .lookingAgain l f .due => exact absurd hk (ht.calm id l f .due (refreshes_of_carried hcarry hr))

/-- where there is a file, a write fails only by a call that fails -/
theorem callFails_of_fails {d : Disk} {f : StoredFile} (hf : d.file? x.job.path = some f) (h : x.fails d = true) :
    x.callFails d = true := by
  match x with
  | .writing job .due => exact h
  | .looking job .due =>
    simp only [Save.fails, Save.callFails] at h ⊢
    rcases d.stat_cases job.path with ⟨g, hst⟩ | ⟨hst, hnone⟩ | ⟨g, st, hst, -, -⟩
    · rw [hst]
      rfl
    · cases hnone.symm.trans hf
    · rw [hst] at h
      cases h

/-- **Nothing is cut short at the path**, once the entry that was there when the bytes were put in place has gone. -/
theorem not_cutShort_since (h : ∀ n, moves n ≠ .call .shutDown) (hs : Stores (World.start policy) moves id job k)
    (hu : Untouched (World.start policy) moves job.path k n) {c : Nat} (hkc : k < c) (hci : c ≤ i) (hin : i < n)
    (hgone : ((World.start policy).trace moves c).isTracked job.path = false) :
    ¬ CutShort ((World.start policy).trace moves i) (moves i) job.path.key := by
  have hki : k < i := lt_of_lt_of_le hkc hci
  have ht := trusted_trace h hs hu hki hin.le
  have hproper : Proper ((World.start policy).trace moves k).core ((World.start policy).trace moves k).stakes :=
    proper_trace h k
  intro hcut
  obtain ⟨id', u, hm, hserved, hmark⟩ := hcut.served (by simp)
  cases hcan : u.cancelled with
  | false =>
    have hcarry : ((World.start policy).trace moves i).carried? (moves i) = some (id', u.phase.activity) :=
      hm ▸ carried?_of_served hserved hcan
    rw [hcan] at hmark
    rcases hmark with ⟨r, l, hr, hl, hk, hfails⟩ | ⟨x, hx, hk, -, hfails⟩
    · have hpath : r.path.key = job.path.key := by
        cases r <;> cases hl <;> exact hk
      rw [hu.unfailing ht hki hin hcarry hr hpath] at hfails
      cases hfails
    · obtain ⟨hfile, -⟩ := file_of_written hs.1 (reachable_trace policy moves k).wf hs.2
      have hthere := (file?_congr hk _).trans ((hu.file i hki hin.le).trans hfile)
      exact hu.calls i hki hin ⟨id', _, hcarry, Or.inr ⟨x, hx, hk, callFails_of_fails hthere hfails⟩⟩
  | true =>
    rw [hcan] at hmark
    -- the task has been in its phase since it was cancelled, which was before the bytes were put in place
    have hbefore : ∀ q, u.phase.activity.isService = false → u.phase.activity.operation? = some q →
        q.key = job.path.key → ∃ l ≤ k, ∀ j, l ≤ j → j ≤ i →
          ((World.start policy).trace moves j).tasks.phase? id' = some u.phase := by
      intro q hno hq hk
      obtain ⟨l, hli, hcancel, hphase⟩ := cancelled_since h (served?_eq_some hserved).2 hcan hno
      refine ⟨l, ?_, hphase⟩
      by_contra hlk
      exact hu.uncancelled l (Nat.lt_of_not_le hlk) (hli.trans hin) id' u.phase q hcancel (hphase l le_rfl hli.le) hq hk
    rcases hmark with ⟨r, l, hr, hl, hk⟩ | ⟨x, hx, hk, hwait⟩
    · have hpath : r.path.key = job.path.key := by
        cases r <;> cases hl <;> exact hk
      have hno : u.phase.activity.isService = false := by
        cases hact : u.phase.activity <;> rw [hact] at hr <;> first | rfl | cases hr
      obtain ⟨lc, hlk, hphase⟩ := hbefore r.path hno (Activity.operation?_of_refresh hr) hpath
      exact nobody_looks_beside (x := .writing job .due) (reachable_trace policy moves k).wf hproper.guarded
        (saves_of_carried hs.1 rfl) rfl ⟨_, hphase k hlk hki.le, hr⟩ hl hk
    · have hno : u.phase.activity.isService = false := by rw [Activity.eq_of_save hx]; rfl
      obtain ⟨lc, hlk, hphase⟩ := hbefore x.job.path hno (Activity.operation?_of_save hx) hk
      have htracked := tracked_of_waiters h (n := c) ⟨_, hphase c (hlk.trans hkc.le) hci, hx⟩ hwait
      rw [World.isTracked, hk] at htracked
      cases hgone.symm.trans htracked

/-! ## What is loaded stays so -/

/-- a path has been tracked in all states since one, or there is a last one in which it has not -/
theorem tracked_or_last (w : World) (moves : Nat → Move) (p : Path) (hkn : k ≤ n) :
    (∀ j, k ≤ j → j ≤ n → (w.trace moves j).isTracked p = true) ∨
      ∃ c, k ≤ c ∧ c ≤ n ∧ (w.trace moves c).isTracked p = false ∧
        ∀ j, c < j → j ≤ n → (w.trace moves j).isTracked p = true := by
  induction n, hkn using Nat.le_induction with
  | base =>
    cases hk : (w.trace moves k).isTracked p with
    | true => exact Or.inl fun j hkj hjk => by cases Nat.le_antisymm hkj hjk; exact hk
    | false => exact Or.inr ⟨k, le_rfl, le_rfl, hk, fun j hkj hjk => absurd hkj (Nat.not_lt_of_le hjk)⟩
  | succ n hkn ih =>
    cases hn : (w.trace moves (n + 1)).isTracked p with
    | false =>
      exact Or.inr ⟨n + 1, hkn.trans (Nat.le_succ n), le_rfl, hn, fun j hj hj' => absurd hj (Nat.not_lt_of_le hj')⟩
    | true =>
      have hlast : ∀ j, j ≤ n + 1 → (j ≤ n → (w.trace moves j).isTracked p = true) →
          (w.trace moves j).isTracked p = true := by
        intro j hj hbefore
        rcases Nat.lt_or_eq_of_le hj with hlt | rfl
        · exact hbefore (Nat.lt_succ_iff.1 hlt)
        · exact hn
      rcases ih with hall | ⟨c, hkc, hcn, hc, hafter⟩
      · exact Or.inl fun j hkj hj => hlast j hj (hall j hkj)
      · exact Or.inr ⟨c, hkc, hcn.trans (Nat.le_succ n), hc, fun j hcj hj => hlast j hj (hafter j hcj)⟩

/-- a subscriber is registered only where an operation has ended since the entry was made, well or not -/
theorem registered_since (h : ∀ n, moves n ≠ .call .shutDown) {κ : Path.Key} {e : Entry} {y : SubscriberId}
    (he : ((World.start policy).trace moves n).entries.get? κ = some e) (hy : e.registered.contains y = true) :
    Since Loads (World.start policy) moves n κ ∨ Since CutShort (World.start policy) moves n κ := by
  induction n generalizing e y with
  | zero => cases he
  | succ n ih =>
    have htracked : ((World.start policy).trace moves (n + 1)).entries.contains κ = true := contains_of_get? he
    obtain ⟨i, hs⟩ := move_served (reachable_trace policy moves n).wf (moves n)
    obtain ⟨s', hchain, -⟩ := hs.effects
    have hbefore : Since Loads (World.start policy) moves n κ ∨ Since CutShort (World.start policy) moves n κ := by
      rcases effects_registered hchain he hy with ⟨e₀, he₀, hy₀⟩ | hreg
      · exact ih he₀ hy₀
      · obtain ⟨j, t, -, -, hmark⟩ := hreg.served (by simp)
        split at hmark
        · cases hmark
        · obtain ⟨seat, hsettles, rfl⟩ := hmark
          exact settles_trace h n hsettles
    exact hbefore.imp (·.succ htracked) (·.succ htracked)

/-- what an operation has loaded since the bytes were put in place agrees with the file, as long as the entry is there -/
theorem still_since (h : ∀ n, moves n ≠ .call .shutDown) (hs : Stores (World.start policy) moves id job k)
    (hu : Untouched (World.start policy) moves job.path k n) (hki : k < i)
    (hl : Loads ((World.start policy).trace moves i) (moves i) job.path.key) (hij : i < j) (hjn : j ≤ n)
    (htracked : ∀ l, i < l → l ≤ j → ((World.start policy).trace moves l).isTracked job.path = true) :
    ((World.start policy).trace moves j).Still job.path := by
  have hguarded : ∀ l, Guarded ((World.start policy).trace moves l).core ((World.start policy).trace moves l).stakes := by
    intro l
    have hproper : Proper ((World.start policy).trace moves l).core ((World.start policy).trace moves l).stakes :=
      proper_trace h l
    exact hproper.guarded
  have hwf := fun l => (reachable_trace policy moves l).wf
  induction j, hij using Nat.le_induction with
  | base =>
    exact still_of_loads (hwf i) (hguarded i) (dateless_trace policy moves i)
      (trusted_trace h hs hu hki (Nat.le_of_succ_le hjn)) hl (hu.file_move hki (Nat.lt_of_succ_le hjn))
  | succ j hij ih =>
    have hlt : j < n := Nat.lt_of_succ_le hjn
    have hkj : k < j := hki.trans (Nat.lt_of_succ_le hij)
    have hstill := ih hlt.le fun l hil hlj => htracked l hil (hlj.trans (Nat.le_succ j))
    refine still_move (hwf j) (hguarded j) hstill (hu.file_move hkj hlt) ?_ ?_
    · exact (trusted_trace h hs hu hkj hlt.le).not_overtaken
    · rintro ⟨hnot, -⟩
      rw [htracked j (Nat.lt_of_succ_le hij) (Nat.le_succ j)] at hnot
      cases hnot

/-- a write that returns at a tracked path has loaded the entry -/
theorem loads_of_returned {o : Answer} (hx : w.Saves id x) (hr : Replies w m id (.ok o)) (ht : w.isTracked x.job.path = true) :
    Loads w m x.job.path.key := by
  obtain ⟨u, job, st, rfl, hs, hc, hact, rfl, hst⟩ := looking_of_replies hx hr
  obtain ⟨e, he⟩ := entry_of_isTracked ht
  have hmark : Marks w (.turn id) (.committed job.path.key (Text.Utf8.decodeLossy job.bytes) st.modified) := by
    refine ⟨u, hs, ?_⟩
    rw [hc]
    refine ⟨.looking job .due, by rw [hact]; rfl, rfl, rfl, ?_, Option.isSome_iff_exists.2 ⟨e, he⟩⟩
    simp only [Save.finding, hst]
  exact Or.inr ⟨_, _, hmark⟩

/-- a write makes no entry -/
theorem places_of_saving (hw : Wf w) (hcarry : w.carried? m = some (id, .saving x)) : (w.move m).places = w.places := by
  obtain ⟨u, rfl, hs, hc, hact⟩ := carried?_eq_some.1 hcarry
  have hshift := shift_serve hw hs hc
  rw [hact] at hshift
  cases hshift with
  | steady _ hv => exact hv
  | lost κ hk => cases hk
  | spared κ hk => cases hk
  | drop κ r hk => cases hk
  | take p r armed ha =>
    obtain ⟨y, joined, other, hjoin⟩ := ha
    cases hjoin
  | register seat r y ha =>
    obtain ⟨signal, hsettle⟩ := ha
    cases hsettle
  | release p r registered hr ha =>
    rcases ha with ⟨hk, -⟩ | ⟨y, hun, -⟩
    · cases hk
    · cases hun
  | releaseLast p r registered hr ha =>
    rcases ha with ⟨hk, -⟩ | ⟨y, hun, -⟩
    · cases hk
    · cases hun
  | shutDown ds ha => cases ha
  | forget ha => cases ha

/-- **Once a write has returned, an entry of its path that an operation has loaded agrees with the file**, or one that has been
there all the time. -/
theorem still_after (h : ∀ n, moves n ≠ .call .shutDown) (hs : Stores (World.start policy) moves id job k)
    (hu : Untouched (World.start policy) moves job.path k n) (hki : k < i) {o : Answer} (hx :
      ((World.start policy).trace moves i).Saves id x) (hjob : x.job = job)
    (hr : Replies ((World.start policy).trace moves i) (moves i) id (.ok o)) (hij : i < j) (hjn : j ≤ n)
    (hloaded : (∀ l, i < l → l ≤ j → ((World.start policy).trace moves l).isTracked job.path = true) ∨
      Since Loads (World.start policy) moves j job.path.key ∨ Since CutShort (World.start policy) moves j job.path.key) :
    ((World.start policy).trace moves j).Still job.path := by
  subst hjob
  have hcommit : ((World.start policy).trace moves i).isTracked x.job.path = true →
      (∀ l, i < l → l ≤ j → ((World.start policy).trace moves l).isTracked x.job.path = true) →
      ((World.start policy).trace moves j).Still x.job.path := by
    intro ht hall
    exact still_since h hs hu hki (loads_of_returned hx hr ht) hij hjn hall
  rcases tracked_or_last (World.start policy) moves x.job.path hij.le with hall | ⟨c, hic, hcj, hgone, hafter⟩
  · exact hcommit (hall i le_rfl hij.le) fun l hil hlj => hall l hil.le hlj
  · rcases hloaded with hall | ⟨l, hlj, hl, hkept⟩ | ⟨l, hlj, hcut, hkept⟩
    · -- the section in which the write returns makes no entry
      obtain ⟨u, job, st, hm, hserved, hcan, hact, -, -⟩ := looking_of_replies hx hr
      have hcarry : ((World.start policy).trace moves i).carried? (moves i) = some (id, .saving (.looking job .due)) :=
        carried?_eq_some.2 ⟨u, hm, hserved, hcan, hact⟩
      have hplaces := places_of_saving (reachable_trace policy moves i).wf hcarry
      have ht : ((World.start policy).trace moves i).isTracked x.job.path = true := by
        by_contra hnot
        rw [Bool.not_eq_true, isTracked_eq_false] at hnot
        obtain ⟨e, he⟩ := entry_of_isTracked (hall (i + 1) (Nat.lt_succ_self i) hij)
        have hroster := roster?_of_absent hnot
        rw [← hplaces] at hroster
        cases hroster.symm.trans (roster?_of_present he)
      exact hcommit ht hall
    · have hcl : c ≤ l := by
        by_contra hlc
        have hthere := hkept c (Nat.lt_of_not_le hlc) hcj
        cases hgone.symm.trans hthere
      exact still_since h hs hu (lt_of_lt_of_le hki (hic.trans hcl)) hl hlj hjn hkept
    · have hcl : c ≤ l := by
        by_contra hlc
        have hthere := hkept c (Nat.lt_of_not_le hlc) hcj
        cases hgone.symm.trans hthere
      exact absurd hcut (not_cutShort_since h hs hu (lt_of_lt_of_le hki hic) hcl (lt_of_lt_of_le hlj hjn) hgone)

/-- an entry that agrees with the file of a write shows its text -/
theorem shows_of_still {text : String} {e : Entry} (hs : Stores (World.start policy) moves id job k)
    (hu : Untouched (World.start policy) moves job.path k n) (hkj : k < j) (hjn : j ≤ n)
    (hstill : ((World.start policy).trace moves j).Still job.path) (hq : q.key = job.path.key)
    (he : World.entry? ((World.start policy).trace moves j) q = some e) (htext : Text.Utf8.decode job.bytes = .ok text) :
    (e.snapshot q).status = .ok ∧ (e.snapshot q).contents? = some text := by
  obtain ⟨hfile, -⟩ := file_of_written hs.1 (reachable_trace policy moves k).wf hs.2
  have hmirrors := hstill.mirrors e ((entry?_congr hq).symm.trans he)
  have hthere := (hu.file j hkj hjn).trans hfile
  rw [hthere] at hmirrors
  have hcontents : e.contents = some text := by
    rw [← Text.Utf8.decodeLossy_of_decode htext]
    exact hmirrors.1
  simp only [Entry.snapshot, hcontents]
  exact ⟨rfl, rfl⟩

/-- the first synchronization of a call to watch that is made later does not fail -/
theorem not_failing_since (h : ∀ n, moves n ≠ .call .shutDown) (hs : Stores (World.start policy) moves id job k)
    (hu : Untouched (World.start policy) moves job.path k n) {d : Nat} (hkd : k < d) {y : SubscriberId}
    (hm : moves d = .call (.watch q y)) (hq : q.key = job.path.key) (hdj : d < j) (hjn : j ≤ n) {ph : Phase}
    (hph : ((World.start policy).trace moves j).tasks.phase? ((World.start policy).trace moves d).tasks.next = some ph) :
    Watching q y ph.activity ∧ ∀ turn seat e, ph.activity ≠ .tearingDown q turn (.failed seat e) := by
  have hstart := phase?_called (w := World.start policy) hm rfl
  have hstep : ∀ l, d + 1 ≤ l → l < j → ∀ (ρ : Role) a b,
      ((World.start policy).trace moves l).carried? (moves l) = some (((World.start policy).trace moves d).tasks.next, a) →
      (Watching q y a ∧ ∀ turn seat e, a ≠ .tearingDown q turn (.failed seat e)) →
      ((floorTo ((World.start policy).trace moves l) ((World.start policy).trace moves d).tasks.next).step a).2.next =
        some b → Watching q y b ∧ ∀ turn seat e, b ≠ .tearingDown q turn (.failed seat e) := by
    intro l hdl hlj ρ a b hcarry hP hb
    refine ⟨hP.1.next hb, ?_⟩
    rintro turn seat e rfl
    rcases next_failed hb with ⟨q', turn', hact⟩ | ⟨r, hact, hfail⟩
    · -- it would have failed before
      have hbefore := hP.1
      rw [hact] at hbefore
      cases hbefore
      exact hP.2 _ _ _ hact
    · have hkl : k < l := hkd.trans hdl
      have hln : l < n := lt_of_lt_of_le hlj hjn
      have hr : a.refresh? = some r := by rw [hact]; rfl
      have hpath : r.path.key = job.path.key := by
        have hbefore := hP.1
        rw [hact] at hbefore
        cases hbefore with
        | synchronizing joined r hr => rw [hr, hq]
      have hnot := hu.unfailing (trusted_trace h hs hu hkl hln.le) hkl hln hcarry hr hpath
      have hfails := (fails_of_stepRefresh hfail).1
      rw [disk_floorTo, hnot] at hfails
      cases hfails
  have hstays := stays_trace (P := fun ph => Watching q y ph.activity ∧
    ∀ turn seat e, ph.activity ≠ .tearingDown q turn (.failed seat e)) (Nat.succ_le_of_lt hdj) hstart
    ⟨.starting, by intro turn seat e hact; cases hact⟩ hstep
  rcases hstays with ⟨ph', hph', hP⟩ | ⟨-, hnone⟩
  · cases hph.symm.trans hph'
    exact hP
  · cases hph.symm.trans hnone

theorem entry?_floorTo (w : World) (id : TaskId) (p : Path) : World.entry? (floorTo w id) p = w.entry? p := by
  unfold floorTo
  split <;> rfl

/-- **A call to watch that is made after the write returns no error.** -/
theorem not_error_since (h : ∀ n, moves n ≠ .call .shutDown) (hs : Stores (World.start policy) moves id job k)
    (hu : Untouched (World.start policy) moves job.path k n) {d : Nat} (hkd : k < d) {y : SubscriberId}
    (hm : moves d = .call (.watch q y)) (hq : q.key = job.path.key) (hdj : d < j) (hjn : j < n) {e : Problem}
    (hr : Replies ((World.start policy).trace moves j) (moves j) ((World.start policy).trace moves d).tasks.next (.error e)) :
    False := by
  obtain ⟨a, hcarry, hend⟩ := hr
  obtain ⟨u, -, hserved, -, rfl⟩ := carried?_eq_some.1 hcarry
  have hkj : k < j := hkd.trans hdj
  obtain ⟨hwatch, hnot⟩ := not_failing_since h hs hu hkd hm hq hdj hjn.le (phase?_of_served hserved)
  have hblame := blame_step hend
  generalize hact : u.phase.activity = a at hblame
  rw [hact] at hwatch hcarry
  cases hblame with
  | shutDown r hdown =>
    rw [isShutDown_floorTo, running_trace h j] at hdown
    cases hdown
  | rejected p bytes => cases hwatch
  | refresh r f hr hfails =>
    have hpath : r.path = q := by
      have hop := Activity.operation?_of_refresh hr
      exact Option.some.inj (hop.symm.trans hwatch.operation?)
    have hclear := hu.unfailing (trusted_trace h hs hu hkj hjn.le) hkj hjn hcarry hr (by rw [hpath, hq])
    rw [disk_floorTo, hclear] at hfails
    cases hfails
  | save x e hx =>
    rw [Activity.eq_of_save hx] at hwatch
    cases hwatch
  | failed p turn seat e =>
    cases hwatch
    exact hnot _ _ _ hact
  | lost seat signal hnone =>
    obtain ⟨e, he, -⟩ := tracked_of_place h (place_of_settling hcarry)
    rw [entry?_floorTo] at hnone
    cases he.symm.trans hnone
  | direct f hdirect =>
    cases hwatch <;> cases hdirect

/-! ## What is read after a write -/

/-- where an entry agrees with the file, the engine begins no reading of the file -/
theorem unread_move (hw : Wf w) (hstill : (w.move m).Still p)
    (hown : ∀ id a, w.carried? m = some (id, a) → a.isDirect = false) :
    (w.move m).disk.callCount .read p = w.disk.callCount .read p := by
  rcases begins_move w m with hsame | ⟨id, a, b, hcarry, hb, hbegins⟩
  · exact callCount_of_calls hsame .read p
  · rcases hbegins.callCount .read p with hsame | ⟨-, q, hcall, hk⟩
    · exact hsame
    · have hdirect := (calling_step (floorTo w id) (hown id a hcarry)).direct b hb
      have hreading : ∃ l date c, b.refresh? = some (.reading l date c) ∧ l.path = q := by
        cases b with
        | refreshing r | synchronizing seat r =>
          cases r with
          | reading l date c =>
            cases hcall
            exact ⟨l, date, c, rfl, rfl⟩
          | _ => cases hcall
        | saving x => cases x <;> cases hcall
        | diskRead q' c => cases hdirect
        | _ => cases hcall
      obtain ⟨l, date, c, hr, rfl⟩ := hreading
      obtain ⟨u, rfl, hs, hc, rfl⟩ := carried?_eq_some.1 hcarry
      have hphase := phase?_serve hw hs hc
      rw [hb] at hphase
      obtain ⟨c', hlooking⟩ := hstill.looking id _ l ⟨_, hphase, hr⟩ rfl hk
      cases hlooking

/-- A call to write, made in move `c`, puts its bytes in place in move `k` and returns well in move `n`. -/
structure Writes (w : World) (moves : Nat → Move) (p : Path) (bytes : ByteArray) (c k n : Nat) : Prop where
  called : moves c = .call (.write p bytes)
  stored : ∃ job, (w.trace moves k).carried? (moves k) = some ((w.trace moves c).tasks.next, .saving (.writing job .due))
  returned : Replies (w.trace moves n) (moves n) (w.trace moves c).tasks.next (.ok .nothing)
  ordered : c < k ∧ k < n

/-- the phases of a call to write -/
inductive Writing (p : Path) (bytes : ByteArray) : Activity → Prop
  | starting : Writing p bytes (.starting (.write p bytes))
  | saving (x : Save) (hp : x.job.path = p) (hb : x.job.bytes = bytes) : Writing p bytes (.saving x)

theorem Writing.next {bytes : ByteArray} {b : Activity} (h : Writing p bytes a) (hb : (w.step a).2.next = some b) :
    Writing p bytes b := by
  cases h with
  | starting =>
    rcases next_write w p bytes with hn | ⟨job, hp, hbytes, hn⟩
    · cases hn.symm.trans hb
    · cases hn.symm.trans hb
      exact .saving (.queued job) hp hbytes
  | saving x hp hbytes =>
    rw [World.step, next_ofPart] at hb
    obtain ⟨x', hx', rfl⟩ := Option.map_eq_some_iff.1 hb
    have hjob := job_of_stepSave hx'
    exact .saving x' (hjob ▸ hp) (hjob ▸ hbytes)

/-- what a call to write is about while it lasts -/
theorem writing_trace {c : Nat} {bytes : ByteArray}
    (hm : moves c = .call (.write p bytes)) (hcj : c < j) {ph : Phase}
    (hph : ((World.start policy).trace moves j).tasks.phase? ((World.start policy).trace moves c).tasks.next = some ph) :
    Writing p bytes ph.activity := by
  have hstart := phase?_called (w := World.start policy) hm rfl
  have hstays := stays_trace (P := fun ph => Writing p bytes ph.activity) (Nat.succ_le_of_lt hcj) hstart .starting
    fun l _ _ ρ a b _ hP hb => hP.next hb
  rcases hstays with ⟨ph', hph', hP⟩ | ⟨-, hnone⟩
  · cases hph.symm.trans hph'
    exact hP
  · cases hph.symm.trans hnone

/-- a task that has put its bytes in place stays with its write until it ends -/
theorem saves_since (hs : Stores (World.start policy) moves id job k) (hkj : k < j)
    {ph : Phase} (hph : ((World.start policy).trace moves j).tasks.phase? id = some ph) :
    ∃ x, ((World.start policy).trace moves j).Saves id x ∧ x.job = job := by
  obtain ⟨-, c, ph₀, hph₀, hlooking⟩ := file_of_written hs.1 (reachable_trace policy moves k).wf hs.2
  have hstays := stays_trace (P := fun ph => ∃ x, ph.activity = .saving x ∧ x.job = job) (Nat.succ_le_of_lt hkj) hph₀
    ⟨_, Activity.eq_of_save hlooking, rfl⟩ ?_
  · rcases hstays with ⟨ph', hph', x, hact, hjob⟩ | ⟨-, hnone⟩
    · exact ⟨x, ⟨ph', hph', by rw [hact]; rfl⟩, hjob⟩
    · cases hph.symm.trans hnone
  · rintro l - - ρ a b - ⟨x, rfl, hjob⟩ hb
    rw [World.step, next_ofPart] at hb
    obtain ⟨x', hx', rfl⟩ := Option.map_eq_some_iff.1 hb
    exact ⟨x', rfl, (job_of_stepSave hx').trans hjob⟩

/-- What follows a write that has returned in move `n`, up to state `l`. -/
structure ReadsBack (w : World) (moves : Nat → Move) (p : Path) (text : String) (n l : Nat) : Prop where
  /-- every call to watch that is made later and returns, returns the text -/
  shown : ∀ d q x o, n < d → d < l → moves d = .call (.watch q x) → q.key = p.key →
    ((w.trace moves d).tasks.next, Ending.returned o) ∈ (w.trace moves l).endings →
    ∃ y, o = .ok (.snapshot y) ∧ y.path = q ∧ y.status = .ok ∧ y.contents? = some text
  /-- as long as the path is tracked, nobody begins to read the file but for users of the disk -/
  unread : ∀ m, m ≤ l → (∀ j, n < j → j ≤ m → (w.trace moves j).isTracked p = true) → ∀ j, n ≤ j → j < m →
    (∀ id a, (w.trace moves j).carried? (moves j) = some (id, a) → a.isDirect = false) →
    (w.trace moves (j + 1)).disk.callCount .read p = (w.trace moves j).disk.callCount .read p

/-- a call to watch that returns a snapshot of a path where everything since the write agrees with the file returns the text -/
theorem shown_since (h : ∀ n, moves n ≠ .call .shutDown) {text : String} {l : Nat}
    (hs : Stores (World.start policy) moves id job k) (hu : Untouched (World.start policy) moves job.path k l)
    (htext : Text.Utf8.decode job.bytes = .ok text) (hkn : k < n) (hx : ((World.start policy).trace moves n).Saves id x)
    (hjob : x.job = job) {o' : Answer} (hr : Replies ((World.start policy).trace moves n) (moves n) id (.ok o'))
    (hnj : n < j) (hjl : j ≤ l) {y : Snapshot} (hy : y.path.key = job.path.key)
    (hreply : Replies ((World.start policy).trace moves j) (moves j) id' (.ok (.snapshot y))) :
    y.status = .ok ∧ y.contents? = some text := by
  obtain ⟨a, hcarry, hend⟩ := hreply
  obtain ⟨e, he, hsnap, hwho⟩ := step_eq_snapshot hend
  rw [entry?_floorTo] at he
  have hloaded : Since Loads (World.start policy) moves j job.path.key ∨
      Since CutShort (World.start policy) moves j job.path.key := by
    rcases hwho with ⟨z, hz⟩ | ⟨seat, hseat, hsettles⟩
    · rw [← hy]
      exact registered_since h he hz
    · rw [settles_floorTo] at hsettles
      rw [← hy, ← hseat]
      exact settles_trace h j hsettles
  have hstill := still_after h hs hu hkn hx hjob hr hnj hjl (Or.inr hloaded)
  have hshows := shows_of_still hs hu (hkn.trans hnj) hjl hstill hy he htext
  rw [← hsnap] at hshows
  exact hshows

/-- whoever writes in a run that is never shut down reads its text back -/
theorem readsBack_of_running (h : ∀ n, moves n ≠ .call .shutDown) {bytes : ByteArray} {text : String} {c l : Nat}
    (hwrite : Writes (World.start policy) moves p bytes c k n) (htext : Text.Utf8.decode bytes = .ok text)
    (hu : Untouched (World.start policy) moves p k l) : ReadsBack (World.start policy) moves p text n l := by
  obtain ⟨hcalled, ⟨job, hcarry⟩, hreturned, hck, hkn⟩ := hwrite
  obtain ⟨u, -, hserved, -, hact⟩ := carried?_eq_some.1 hcarry
  have hwriting := writing_trace hcalled hck (phase?_of_served hserved)
  rw [hact] at hwriting
  obtain ⟨rfl, rfl⟩ : job.path = p ∧ job.bytes = bytes := by
    cases hwriting with
    | saving x hp hb => exact ⟨hp, hb⟩
  have hstores : Stores (World.start policy) moves ((World.start policy).trace moves c).tasks.next job k :=
    ⟨hcarry, live_of_replies hcalled rfl (Nat.lt_succ_of_lt hck) hkn hreturned⟩
  obtain ⟨x, hsaves, hjob⟩ : ∃ x, ((World.start policy).trace moves n).Saves ((World.start policy).trace moves c).tasks.next x ∧
      x.job = job := by
    obtain ⟨a, hcarry', -⟩ := hreturned
    obtain ⟨u', -, hserved', -, -⟩ := carried?_eq_some.1 hcarry'
    exact saves_since hstores hkn (phase?_of_served hserved')
  constructor
  · intro d q y o hnd hdl hm hq hend
    obtain ⟨j, hjl, hreply⟩ := replies_of_endings hend
    have hdj : d < j := later_of_replies hreply
    obtain ⟨a, hcarry', ho⟩ := hreply
    obtain ⟨u', -, hserved', -, rfl⟩ := carried?_eq_some.1 hcarry'
    obtain ⟨hwatching, -⟩ := not_failing_since h hstores hu (hkn.trans hnd) hm hq hdj hjl.le (phase?_of_served hserved')
    rcases hwatching.ended ho with ⟨z, rfl, rfl⟩ | ⟨e, rfl⟩
    · have hshown := shown_since h hstores hu htext hkn hsaves hjob hreturned (hnd.trans hdj) hjl.le hq ⟨_, hcarry', ho⟩
      exact ⟨z, rfl, rfl, hshown⟩
    · exact (not_error_since h hstores hu (hkn.trans hnd) hm hq hdj hjl ⟨_, hcarry', ho⟩).elim
  · intro m hml htracked j hnj hjm hown
    have hstill := still_after h hstores hu hkn hsaves hjob hreturned (Nat.lt_succ_of_le hnj) (Nat.le_trans hjm hml)
      (Or.inl fun i hni hij => htracked i hni (hij.trans hjm))
    exact unread_move (reachable_trace policy moves j).wf hstill hown

/-! ### Runs that go the same way up to a state -/

section Same

variable {moves' : Nat → Move} {bytes : ByteArray} {text : String} {c l : Nat}

theorem Writes.congr (hsame : ∀ j < l, moves j = moves' j) (hnl : n < l) (h : Writes w moves p bytes c k n) :
    Writes w moves' p bytes c k n := by
  have hstate : ∀ j, j < l → w.trace moves j = w.trace moves' j := by
    intro j hj
    exact trace_congr fun i hi => hsame i (hi.trans hj)
  obtain ⟨hcalled, hstored, hreturned, hck, hkn⟩ := h
  have hkl := hkn.trans hnl
  have hcl := hck.trans hkl
  constructor
  · rw [← hsame c hcl, hcalled]
  · rw [← hstate k hkl, ← hstate c hcl, ← hsame k hkl]
    exact hstored
  · rw [← hstate n hnl, ← hstate c hcl, ← hsame n hnl]
    exact hreturned
  · exact ⟨hck, hkn⟩

theorem Untouched.congr (hsame : ∀ j < l, moves j = moves' j) (hkl : k < l) (h : Untouched w moves p k l) :
    Untouched w moves' p k l := by
  have hstate : ∀ j, j ≤ l → w.trace moves j = w.trace moves' j := by
    intro j hj
    exact trace_congr fun i hi => hsame i (lt_of_lt_of_le hi hj)
  constructor
  · intro j hkj hjl
    rw [← hstate j hjl, ← hstate (k + 1) hkl]
    exact h.file j hkj hjl
  · intro j hkj hjl
    rw [← hstate j hjl.le, ← hsame j hjl]
    exact h.calls j hkj hjl
  · intro j hkj hjl
    rw [← hstate j hjl.le, ← hsame j hjl]
    exact h.uncancelled j hkj hjl

theorem ReadsBack.congr (hsame : ∀ j < l, moves j = moves' j) (h : ReadsBack w moves p text n l) :
    ReadsBack w moves' p text n l := by
  have hstate : ∀ j, j ≤ l → w.trace moves j = w.trace moves' j := by
    intro j hj
    exact trace_congr fun i hi => hsame i (lt_of_lt_of_le hi hj)
  constructor
  · intro d q x o hnd hdl
    rw [← hstate d hdl.le, ← hstate l le_rfl, ← hsame d hdl]
    exact h.shown d q x o hnd hdl
  · intro m hml htracked j hnj hjm
    have hjl : j < l := hjm.trans_le hml
    rw [← hstate j hjl.le, ← hstate (j + 1) hjl, ← hsame j hjl]
    refine h.unread m hml ?_ j hnj hjm
    intro i hni him
    rw [hstate i (him.trans hml)]
    exact htracked i hni him

end Same

/-- **Reading one's writes**: after a write has returned, a call to watch returns its text, if nobody has changed the file
since and no call at the path has failed. -/
theorem reads_own_writes {bytes : ByteArray} {text : String} {c l : Nat} (h : ∀ j < l, moves j ≠ .call .shutDown)
    (hwrite : Writes (World.start policy) moves p bytes c k n) (htext : Text.Utf8.decode bytes = .ok text)
    (hu : Untouched (World.start policy) moves p k l) : ReadsBack (World.start policy) moves p text n l := by
  by_cases hnl : n < l
  · -- what comes after state `l` does not matter
    let halted : Nat → Move := fun j => if j < l then moves j else .turn 0
    have hsame : ∀ j < l, moves j = halted j := fun j hj => (if_pos hj).symm
    have hrunning : ∀ j, halted j ≠ .call .shutDown := by
      intro j
      by_cases hj : j < l
      · rw [← hsame j hj]
        exact h j hj
      · rw [show halted j = .turn 0 from if_neg hj]
        rintro ⟨⟩
    have hback := readsBack_of_running hrunning (hwrite.congr hsame hnl) htext
      (hu.congr hsame (hwrite.ordered.2.trans hnl))
    exact hback.congr fun j hj => (hsame j hj).symm
  · constructor
    · intro d q x o hnd hdl
      exact absurd (hnd.trans hdl) hnl
    · intro m hml _ j hnj hjm
      exact absurd (lt_of_le_of_lt hnj (hjm.trans_le hml)) hnl

end Trace

/-- the task that puts the bytes of a write in place in the move -/
def World.stores? (w : World) (m : Move) : Option TaskId :=
  match w.carried? m with
  | some (id, .saving (.writing _ .due)) => some id
  | _ => none

/-- the task that ends well in the move, with nothing to tell -/
def World.endsWell? (w : World) (m : Move) : Option TaskId :=
  match w.carried? m with
  | some (id, a) =>
    match ((floorTo w id).step a).2 with
    | .ended (.ok .nothing) => some id
    | _ => none
  | none => none

/-- whether a call to write has put its bytes in place and returned in given moves can be computed -/
theorem writes_of_check {moves : Nat → Move} {bytes : ByteArray} {c k n : Nat} (hcalled : moves c = .call (.write p bytes))
    (hstored : (w.trace moves k).stores? (moves k) = some (w.trace moves c).tasks.next)
    (hreturned : (w.trace moves n).endsWell? (moves n) = some (w.trace moves c).tasks.next) (hordered : c < k ∧ k < n) :
    Writes w moves p bytes c k n := by
  refine ⟨hcalled, ?_, ?_, hordered⟩
  · unfold World.stores? at hstored
    split at hstored
    · next id job hcarry =>
      cases Option.some.inj hstored
      exact ⟨job, hcarry⟩
    · cases hstored
  · unfold World.endsWell? at hreturned
    split at hreturned
    · next id a hcarry =>
      split at hreturned
      · next hend =>
        cases Option.some.inj hreturned
        exact ⟨a, hcarry, hend⟩
      · cases hreturned
    · cases hreturned

/-- The only subscriber of a file leaves while the file is being written; another one comes after the write, and before the
entry has been torn down. -/
def rereading : List Move :=
  let p : Path := ⟨"/a"⟩
  List.flatten [[.newSubscriber, .newSubscriber, .putFile p ⟨#[49]⟩, .call (.watch p ⟨1⟩)], List.replicate 6 (.turn 1),
    [.turn 2, .hold .write p, .call (.write p ⟨#[50]⟩), .turn 3, .turn 3, .call (.unwatch p ⟨1⟩)],
    List.replicate 3 (.turn 4), [.openGate 1], List.replicate 3 (.turn 3), [.call (.watch p ⟨2⟩)],
    List.replicate 3 (.turn 5), List.replicate 3 (.turn 4), List.replicate 3 (.turn 5)]

/-- the second subscriber is shown what has been written, and the file has been read once, before the write -/
theorem reads_own_writes_rereading :
    (∀ j < 33, along rereading j ≠ .call .shutDown) ∧
      Writes (World.start .allow) (along rereading) ⟨"/a"⟩ ⟨#[50]⟩ 12 21 22 ∧
      Untouched (World.start .allow) (along rereading) ⟨"/a"⟩ 21 33 ∧
      ReadsBack (World.start .allow) (along rereading) ⟨"/a"⟩ "2" 22 33 ∧
      (∀ j, 23 ≤ j → j ≤ 33 → ((World.start .allow).trace (along rereading) j).isTracked ⟨"/a"⟩ = true) ∧
      ((World.start .allow).trace (along rereading) 33).endings.map Prod.fst = [1, 3, 5] ∧
      ((World.start .allow).trace (along rereading) 33).disk.callCount .read ⟨"/a"⟩ = 1 := by
  have h : ∀ j < 33, along rereading j ≠ .call .shutDown :=
    fun j _ => along_ne rereading (by simp [rereading]) (by simp) j
  have hwrites : Writes (World.start .allow) (along rereading) ⟨"/a"⟩ ⟨#[50]⟩ 12 21 22 :=
    writes_of_check rfl (by decide +kernel) (by decide +kernel) (by decide)
  have hu : Untouched (World.start .allow) (along rereading) ⟨"/a"⟩ 21 33 := by
    have hfile : ∀ j, 22 ≤ j → j ≤ 33 → ((World.start .allow).trace (along rereading) j).disk.file? ⟨"/a"⟩ =
        ((World.start .allow).trace (along rereading) 22).disk.file? ⟨"/a"⟩ := by decide +kernel
    have hcalls : ∀ j, 22 ≤ j → j < 33 →
        ¬ FailsAt ((World.start .allow).trace (along rereading) j) (along rereading j) ⟨"/a"⟩ := by decide +kernel
    refine ⟨hfile, hcalls, ?_⟩
    intro j _ _ id ph q hm
    exact absurd hm (along_ne rereading (by simp [rereading]) (by simp) j)
  exact ⟨h, hwrites, hu, reads_own_writes h hwrites (by decide +kernel) hu, by decide +kernel, by decide +kernel,
    by decide +kernel⟩

/-- The engine is shut down while a call to write waits for the disk, and a call to watch is made after the write. -/
def closedMeanwhile : List Move :=
  let p : Path := ⟨"/a"⟩
  [.hold .write p, .newSubscriber, .call (.write p ⟨#[50]⟩), .turn 1, .turn 1, .call .shutDown, .turn 2, .turn 2, .openGate 1,
    .turn 1, .turn 1, .turn 1, .call (.watch p ⟨1⟩), .turn 3]

/-- a call has ended with an error -/
def Ending.isError : Ending → Bool
  | .returned (.error _) => true
  | .returned (.ok _) | .cancelled => false

/-- it is not enough that nobody shuts the engine down after the bytes have been put in place -/
theorem closed_before_write_not_read :
    ¬ ∀ (policy : WritePolicy) (moves : Nat → Move) (p : Path) (bytes : ByteArray) (text : String) (c k n l : Nat),
      (∀ j, k ≤ j → j < l → moves j ≠ .call .shutDown) → Writes (World.start policy) moves p bytes c k n →
      Text.Utf8.decode bytes = .ok text → Untouched (World.start policy) moves p k l →
      ReadsBack (World.start policy) moves p text n l := by
  intro hall
  have hno : ∀ j, 10 ≤ j → j < 14 → along closedMeanwhile j ≠ .call .shutDown := by
    intro j hj hj'
    interval_cases j <;> rintro ⟨⟩
  have hwrites : Writes (World.start .allow) (along closedMeanwhile) ⟨"/a"⟩ ⟨#[50]⟩ 2 10 11 :=
    writes_of_check rfl (by decide +kernel) (by decide +kernel) (by decide)
  have hu : Untouched (World.start .allow) (along closedMeanwhile) ⟨"/a"⟩ 10 14 := by
    have hfile : ∀ j, 11 ≤ j → j ≤ 14 → ((World.start .allow).trace (along closedMeanwhile) j).disk.file? ⟨"/a"⟩ =
        ((World.start .allow).trace (along closedMeanwhile) 11).disk.file? ⟨"/a"⟩ := by decide +kernel
    have hcalls : ∀ j, 11 ≤ j → j < 14 →
        ¬ FailsAt ((World.start .allow).trace (along closedMeanwhile) j) (along closedMeanwhile j) ⟨"/a"⟩ := by
      decide +kernel
    refine ⟨hfile, hcalls, ?_⟩
    intro j _ _ id ph q hm
    exact absurd hm (along_ne closedMeanwhile (by simp [closedMeanwhile]) (by simp) j)
  have hback := hall .allow (along closedMeanwhile) ⟨"/a"⟩ ⟨#[50]⟩ "2" 2 10 11 14 hno hwrites (by decide +kernel) hu
  have hrefused : ((World.start .allow).trace (along closedMeanwhile) 14).endings.any (fun x =>
      decide (x.1 = ((World.start .allow).trace (along closedMeanwhile) 12).tasks.next) && x.2.isError) = true := by
    decide +kernel
  obtain ⟨⟨id, ending⟩, hmem, hx⟩ := List.any_eq_true.1 hrefused
  simp only [Bool.and_eq_true, decide_eq_true_eq] at hx
  obtain ⟨rfl, hx⟩ := hx
  cases ending with
  | cancelled => cases hx
  | returned o =>
    obtain ⟨y, rfl, -⟩ := hback.shown 12 ⟨"/a"⟩ ⟨1⟩ o (by decide) (by decide) rfl rfl hmem
    cases hx

end LiveFiles.Engine
