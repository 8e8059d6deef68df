/-
Convergence: when the cache holds what the file holds. `Known.Mirrors` says that an entry agrees with the file, and
`World.Settled` that it does so for good: whoever reconciles the path then finds nothing new.
- `mirrors_of_finding`: the observation of a reconciliation is true of the file, provided that a known date stands for the
  text of the file (`World.FaithfulAt`) and the reconciliation has read the version whose date it found.
- `still_move`: as long as the file stays as it is, so does the entry, and no reconciliation reads.
- **`converges_trace`**: in a run without shutting down, in which nobody puts another version in place between a write and
  the look at its date (`Interposed`), a path is settled from the move on in which a reconciliation completes its calls to
  the disk (`Completes`), until the file changes or a new entry is made (`Renews`).
- `renewed_entry_is_read_again`: a run in which a new entry is made. The file is read once more and reported as a change;
  and a look at the file that fails is reported.
- `changed_after_look_not_settled`: a run in which the file changes between the look at its date and the reading. The entry
  keeps the earlier date with the later text, so the file has to stay as it is from the look on.
-/
import LiveFiles.Proofs.Deliveries
import LiveFiles.Proofs.Freshness
import LiveFiles.Proofs.Stages

namespace LiveFiles

/-- the result with which a task ends in a section -/
def Section.result? {σ α : Type} : Section σ α → Option α
  | .ended x => some x
  | .go _ | .wait _ | .pause _ => none

namespace Engine

/-- What an entry says is so: nothing of a file that is not there, else its text and its date. -/
def Known.Mirrors (x : Known) : Option StoredFile → Prop
  | none => x = .nothing
  | some f => x.contents = some (Text.Utf8.decodeLossy f.bytes) ∧ x.modified = f.modified

/-! ## What converges -/

/-- Somebody puts another version of a file in place, or takes it away, after a write has put its bytes there and before
the write looks up the date. -/
def Interposed (w : World) (moves : Nat → Move) (p : Path) : Prop :=
  ∃ k l n id job, k < l ∧ l < n ∧ job.path.key = p.key ∧
    (w.trace moves k).carried? (moves k) = some (id, .saving (.writing job .due)) ∧
    (w.trace moves n).carried? (moves n) = some (id, .saving (.looking job .due)) ∧
    (w.trace moves (l + 1)).disk.file? p ≠ (w.trace moves l).disk.file? p

/-- the reconciliation whose first call to the disk, the look at the date, is carried out in a move -/
def World.looks? (w : World) (m : Move) : Option (TaskId × Look) :=
  (w.carried? m).bind fun x =>
    match x.2.refresh? with
    | some (.looking l .due) => some (x.1, l)
    | _ => none

/-- the reconciliation that knows what has become of the file with the call to the disk that is carried out in a move -/
def World.finds? (w : World) (m : Move) : Option (TaskId × Look) :=
  (w.carried? m).bind fun x => (x.2.refresh?.filter fun r => (r.finding w.disk).isSome).bind fun r =>
    r.look?.map fun l => (x.1, l)

/-- A reconciliation of a path looks at the file in move `i`, and completes its calls to the disk in move `j`. -/
def Completes (w : World) (moves : Nat → Move) (p : Path) (i j : Nat) : Prop :=
  i ≤ j ∧ ∃ id l, l.path.key = p.key ∧ (w.trace moves i).looks? (moves i) = some (id, l) ∧
    (w.trace moves j).finds? (moves j) = some (id, l)

/-- an entry is made for a file that is there -/
def Renews (w : World) (m : Move) (p : Path) : Prop :=
  w.isTracked p = false ∧ (w.move m).isTracked p = true ∧ (w.disk.file? p).isSome = true

/-- the path that a task reconciles or is to reconcile -/
def Activity.reconciles? : Activity → Option Path
  | .starting (.reconcile p) => some p
  | .refreshing r | .synchronizing _ r => some r.path
  | _ => none

/-- the result of a reconciliation that ends in a section -/
def World.result? (w : World) : Activity → Option Refreshed
  | .starting (.reconcile p) => (w.requestRefresh p).2.result?
  | .refreshing r | .synchronizing _ r => (w.stepRefresh r).2.result?
  | _ => none

/-- how far a reconciliation is from its end, if it does not read the file -/
def Refresh.stage : Refresh → Nat
  | .queued .. => 2
  | .looking _ (.held _) => 1
  | .looking _ .due | .reading .. | .lookingAgain .. => 0

def Activity.stage (a : Activity) : Nat := (a.refresh?.map Refresh.stage).getD 3

/-- A task reconciles a path and finds nothing new. -/
structure World.Confirms (w : World) (id : TaskId) (a : Activity) (q : Path) : Prop where
  /-- it has not begun, is in line, or looks at the date of the file -/
  brief : a = .starting (.reconcile q) ∨ (∃ x τ, a.refresh? = some (.queued q x τ)) ∨
    ∃ l c, a.refresh? = some (.looking l c) ∧ l.path = q
  /-- it reads nothing -/
  unread : (serve w id).disk.callCount .read q = w.disk.callCount .read q
  /-- it shows nothing -/
  unshown : (serve w id).channels = w.channels
  /-- it can go on, or waits for the lock or at a gate of the disk -/
  waits : id ∈ w.tasks.ready ∨ w.tasks.floor = some id ∨
    (∃ x τ, a.refresh? = some (.queued q x τ) ∧ w.turns.holds τ = false) ∨ ∃ l g, a.refresh? = some (.looking l (.held g))
  /-- a section ends it, brings it closer to its end or has it wait where it is -/
  onward : ((floorTo w id).result? a).isSome = true ∨ ((floorTo w id).step a).2 = .wait a ∨
    ∃ b, ((floorTo w id).step a).2.next = some b ∧ b.reconciles? = some q ∧ b.stage < a.stage
  /-- it ends with the result that nothing has changed, unless the look at the file fails -/
  result : ∀ x, (floorTo w id).result? a = some x →
    x = .ok false ∨ ∃ f, w.disk.stat q = .error f ∧ x = .error (.other f)

/-- An entry, if there is one, agrees with the file, and whoever reconciles the path confirms it. -/
structure World.Settled (w : World) (p : Path) : Prop where
  mirrors : ∀ e, w.entry? p = some e → e.known.Mirrors (w.disk.file? p)
  confirms : ∀ id ph q, w.tasks.phase? id = some ph → ph.activity.reconciles? = some q → q.key = p.key →
    w.Confirms id ph.activity q

variable {w : World} {m : Move} {id : TaskId} {a b : Activity} {r : Refresh} {l : Look} {p q : Path} {e : Entry}
  {o : Observation} {u : Task Phase}

theorem looks?_eq_some :
    w.looks? m = some (id, l) ↔ ∃ a, w.carried? m = some (id, a) ∧ a.refresh? = some (.looking l .due) := by
  constructor
  · intro h
    obtain ⟨⟨i, a⟩, ha, h⟩ := Option.bind_eq_some_iff.1 h
    dsimp only at h
    split at h
    · rename_i hr
      cases h
      exact ⟨a, ha, hr⟩
    · cases h
  · rintro ⟨a, ha, hr⟩
    simp only [World.looks?, ha, Option.bind_some, hr]

theorem finds?_eq_some : w.finds? m = some (id, l) ↔ ∃ a r, w.carried? m = some (id, a) ∧ a.refresh? = some r ∧
    r.look? = some l ∧ (r.finding w.disk).isSome = true := by
  constructor
  · intro h
    obtain ⟨⟨i, a⟩, ha, h⟩ := Option.bind_eq_some_iff.1 h
    obtain ⟨r, hr, h⟩ := Option.bind_eq_some_iff.1 h
    obtain ⟨hr, hfind⟩ := Option.filter_eq_some_iff.1 hr
    obtain ⟨l', hl, h⟩ := Option.map_eq_some_iff.1 h
    cases h
    exact ⟨a, r, ha, hr, hl, hfind⟩
  · rintro ⟨a, r, ha, hr, hl, hfind⟩
    simp [World.finds?, ha, hr, hl, Option.filter, hfind]

theorem entry?_congr (h : p.key = q.key) : w.entry? p = w.entry? q := congrArg w.entries.get? h

theorem file?_congr (h : p.key = q.key) (d : Disk) : d.file? p = d.file? q := congrArg d.files.get? h

theorem World.FaithfulAt.congr (h : w.FaithfulAt p) (hk : p.key = q.key) : w.FaithfulAt q := fun e f text he ht hf =>
  h e f text ((entry?_congr hk).trans he) ht ((file?_congr hk _).trans hf)

/-! ## What a reconciliation finds is so -/

/-- an entry without a text has no dates -/
def World.Dateless (w : World) : Prop := ∀ k e, w.core.entries.get? k = some e → e.contents = none → e.known = .nothing

theorem dateless_move (hw : Wf w) (hd : w.Dateless) (m : Move) : (w.move m).Dateless := by
  intro k e hk hno
  have hnone : e.known.contents = none := hno
  cases source_move hw hk with
  | kept e₀ hk₀ h => exact h.trans (hd k e₀ hk₀ ((congrArg Known.contents h).symm.trans hno))
  | created _ h => exact h
  | missing _ h => exact h
  | changed text date _ h => cases (congrArg Known.contents h).symm.trans hnone
  | committed text date _ ht _ => cases ht.symm.trans hno

/-- **The observation of a reconciliation is true of the file.** -/
theorem mirrors_of_finding (hhad : e.contents.isSome = l.had) (hlast : e.modified = l.last)
    (hdate : e.contents = none → e.known = .nothing) (he : w.entry? l.path = some e) (hf : w.FaithfulAt l.path)
    (hl : r.look? = some l) (hread : ∀ date c f, r = .reading l date c → w.disk.file? l.path = some f → f.modified = date)
    (ho : r.finding w.disk = some o) :
    (Entry.commit { e with runningSignal := none } o).1.known.Mirrors (w.disk.file? l.path) := by
  rcases Refresh.finding_cases hl ho with ⟨rfl, hst⟩ | ⟨rfl, htext, st, hst, hm⟩ | ⟨text, date, rfl, rfl, htext⟩
  · rw [Disk.file?_of_stat hst]
    cases hh : l.had with
    | true => rfl
    | false =>
      rw [hh] at hhad
      exact hdate (Option.isNone_iff_eq_none.1 (by simpa using hhad))
  · obtain ⟨f, hfile, hfm⟩ := Disk.stat_eq_some hst
    obtain ⟨text, ht⟩ := Option.isSome_iff_exists.1 (hhad.trans htext)
    have hmod : e.modified = f.modified := by rw [hlast, hfm, hm]
    rw [hfile]
    exact ⟨ht.trans (congrArg some (hf e f text he ht hfile hmod)), hmod⟩
  · obtain ⟨f, hfile, hbytes⟩ := Disk.read_eq_ok htext
    rw [hfile]
    exact ⟨congrArg some hbytes.symm, (hread date .due f rfl hfile).symm⟩

/-! ## Finding nothing new -/

/-- A path where the cache agrees with the file: whoever has taken up a reconciliation looks at the date. -/
structure World.Still (w : World) (p : Path) : Prop where
  mirrors : ∀ e, w.entry? p = some e → e.known.Mirrors (w.disk.file? p)
  looking : ∀ id r l, w.Refreshes id r → r.look? = some l → l.path.key = p.key → ∃ c, r = .looking l c

theorem errand_of_look? (hr : w.Refreshes id r) (hl : r.look? = some l) : ∃ d, (w.stakes id).errand = .look l d := by
  rw [errand_of_refreshes hr]
  cases r <;> cases hl <;> exact ⟨_, rfl⟩

/-- what a reconciliation knows of the file when there is nothing new -/
def Look.Knows (l : Look) : Option StoredFile → Prop
  | none => l.had = false
  | some f => l.had = true ∧ l.last = f.modified

theorem World.Still.knows (hs : w.Still p) (hg : Guarded w.core w.stakes) (hr : w.Refreshes id r) (hl : r.look? = some l)
    (hk : l.path.key = p.key) : l.Knows (w.disk.file? l.path) := by
  obtain ⟨d, herrand⟩ := errand_of_look? hr hl
  obtain ⟨-, e, he, hhad, hlast⟩ := hg.look id l d herrand
  have hm := hs.mirrors e (by rw [← entry?_congr hk]; exact he)
  rw [← file?_congr hk] at hm
  cases hf : w.disk.file? l.path with
  | none =>
    rw [hf] at hm
    have hno : e.contents = none := congrArg Known.contents hm
    rw [hno] at hhad
    exact hhad.symm
  | some f =>
    rw [hf] at hm
    have ht : e.contents = some _ := hm.1
    rw [ht] at hhad
    exact ⟨hhad.symm, hlast.symm.trans hm.2⟩

/-- a reconciliation that looks at the date does not go on to read: the date would have to be new -/
theorem World.Still.looking_onward (hs : w.Still p) (hg : Guarded w.core w.stakes) (hr : w.Refreshes id r) {r' : Refresh}
    (hon : Onward w.disk r r') (hl : r'.look? = some l) (hk : l.path.key = p.key) : ∃ c, r' = .looking l c := by
  cases hon with
  | inLine => cases hl
  | taken _ _ _ _ c _ _ =>
    cases hl
    exact ⟨c, rfl⟩
  | looking _ _ c =>
    cases hl
    exact ⟨c, rfl⟩
  | reads _ st c hst hdate =>
    cases hl
    have hknows := hs.knows hg hr rfl hk
    obtain ⟨f, hf, hfm⟩ := Disk.stat_eq_some hst
    rw [hf] at hknows
    exact absurd ⟨hknows.1, hfm.symm.trans hknows.2.symm⟩ hdate
  | reading _ _ _ c =>
    cases hl
    obtain ⟨c, h⟩ := hs.looking id _ l hr rfl hk
    cases h
  | fails _ _ f c =>
    cases hl
    obtain ⟨c, h⟩ := hs.looking id _ l hr rfl hk
    cases h
  | lookingAgain _ _ _ c =>
    cases hl
    obtain ⟨c, h⟩ := hs.looking id _ l hr rfl hk
    cases h

/-- **As long as the file stays as it is, so does what the cache says of it**, unless a new entry is made. -/
theorem still_move (hw : Wf w) (hg : Guarded w.core w.stakes) (hs : w.Still p)
    (hfile : (w.move m).disk.file? p = w.disk.file? p) (hover : ¬ OvertakenAt w m p.key) (hnew : ¬ Renews w m p) :
    (w.move m).Still p where
  mirrors e he := by
    rw [hfile]
    cases source_move hw he with
    | kept e₀ he₀ h =>
      rw [h]
      exact hs.mirrors e₀ he₀
    | created hm h =>
      obtain ⟨id, u, -, -, hocc⟩ := hm.served (by simp)
      have hno : w.isTracked p = false := by
        split at hocc
        · cases hocc
        · exact Table.contains_eq_false_iff.2 hocc
      have hgone : w.disk.file? p = none := by
        rw [← Option.not_isSome_iff_eq_none]
        exact fun hsome => hnew ⟨hno, contains_of_get? he, hsome⟩
      rw [hgone]
      exact h
    | missing hm h =>
      obtain ⟨id, u, r, l, -, -, -, -, hl, hk, ho⟩ := hm.observed
      have hgone : w.disk.file? l.path = none := by
        rcases Refresh.finding_cases hl ho with ⟨-, hst⟩ | ⟨h, -⟩ | ⟨_, _, h, -⟩
        · exact Disk.file?_of_stat hst
        · cases h
        · cases h
      rw [← file?_congr hk, hgone]
      exact h
    | changed text date hm h =>
      -- whoever finds a change has read the file
      obtain ⟨id, l, f, hl, hk, -⟩ := marks_changed hm
      obtain ⟨r, hr, hrl⟩ := refreshes_of_look hl
      obtain ⟨c, rfl⟩ := hs.looking id r l hr hrl hk
      cases hl.symm.trans (errand_of_refreshes hr)
    | committed text date hm ht hdate =>
      obtain ⟨id, u, job, st, f, rfl, hserved, hc, hact, hent, hst, hf, hfm, hk, rfl⟩ := hm.committed
      rw [← file?_congr hk, hf]
      refine ⟨ht.trans (congrArg some ?_), hdate.trans hfm.symm⟩
      by_contra hne
      exact hover ⟨id, u, job, st, f, ⟨rfl, hserved, hc, hact, hent, hst, hf, Ne.symm hne⟩, hk⟩
  looking id r l hr hl hk := by
    rcases refreshes_move hw hr with hsame | hno | ⟨a, r₀, ha, hr₀, hnext⟩
    · exact hs.looking id r l hsame hl hk
    · cases hno.symm.trans hl
    · have hon := onward_stepRefresh hnext
      rw [disk_floorTo] at hon
      exact hs.looking_onward hg (refreshes_of_carried ha hr₀) hon hl hk

/-! ## Confirming -/

/-- one section of a reconciliation that finds nothing new -/
structure Refresh.Idles (w : World) (r : Refresh) : Prop where
  unread : ∀ q, (w.stepRefresh r).1.disk.callCount .read q = w.disk.callCount .read q
  onward : (∃ x, (w.stepRefresh r).2 = .ended x ∧
      (x = .ok false ∨ ∃ f, w.disk.stat r.path = .error f ∧ x = .error (.other f))) ∨
    (w.stepRefresh r).2 = .wait r ∨
    ∃ r', (w.stepRefresh r).2.next = some r' ∧ r'.path = r.path ∧ r'.stage < r.stage

theorem stage_looking (l : Look) (c : Call) : (Refresh.looking l c).stage < 2 := by
  cases c with
  | held g => exact Nat.lt_succ_self 1
  | due => exact Nat.zero_lt_two

theorem idles_queued (w : World) (p : Path) (x : QueryId) (τ : Turn) : Refresh.Idles w (.queued p x τ) := by
  by_cases hτ : w.turns.holds τ = true
  · have hrun : w.stepRefresh (.queued p x τ) = w.enterRefresh p x τ := by simp only [World.stepRefresh, if_pos hτ]
    have hback : ∀ q, (w.giveBack τ).disk.callCount .read q = w.disk.callCount .read q := fun q => by rw [disk_giveBack]
    unfold World.enterRefresh at hrun
    split at hrun
    · exact ⟨fun q => by rw [hrun]; exact hback q, Or.inl ⟨_, congrArg Prod.snd hrun, Or.inl rfl⟩⟩
    · split at hrun
      · exact ⟨fun q => by rw [hrun]; exact hback q, Or.inl ⟨_, congrArg Prod.snd hrun, Or.inl rfl⟩⟩
      · rename_i e _ _
        constructor
        · intro q
          rw [hrun]
          dsimp only
          rw [disk_beginCall]
          exact Disk.callCount_enter_of_ne w.disk (by decide) p q
        · obtain ⟨c, hc⟩ := next_beginCall (α := Refreshed)
            (w.setEntry p { e with pendingQuery := none, pendingSignal := none, runningSignal := e.pendingSignal }) .stat p
            (Refresh.looking ⟨p, τ, e.pendingSignal, e.contents.isSome, e.modified⟩)
          have hnext := (congrArg (·.2.next) hrun).trans hc
          exact Or.inr (Or.inr ⟨_, hnext, rfl, stage_looking _ c⟩)
  · have hrun : w.stepRefresh (.queued p x τ) = (w, .wait (.queued p x τ)) := by simp only [World.stepRefresh, if_neg hτ]
    exact ⟨fun q => by rw [hrun], Or.inr (Or.inl (congrArg Prod.snd hrun))⟩

theorem conclude_unchanged (w : World) (l : Look) : (w.conclude l .unchanged).2 = .ended (.ok false) := by
  unfold World.conclude
  split <;> rfl

theorem conclude_ended (w : World) (l : Look) (o : Observation) : ∃ x, (w.conclude l o).2 = .ended x := by
  unfold World.conclude
  split <;> exact ⟨_, rfl⟩

theorem idles_looking {c : Call} (hk : l.Knows (w.disk.file? l.path)) : Refresh.Idles w (.looking l c) := by
  cases c with
  | held g =>
    by_cases hg : w.disk.isOpen g = true
    · have hrun : w.stepRefresh (.looking l (.held g)) = (w, .pause (.looking l .due)) := by
        simp only [World.stepRefresh, World.atGate, if_pos hg]
      refine ⟨fun q => by rw [hrun], Or.inr (Or.inr ⟨.looking l .due, ?_, rfl, Nat.zero_lt_one⟩)⟩
      rw [hrun]
      rfl
    · have hrun : w.stepRefresh (.looking l (.held g)) = (w, .wait (.looking l (.held g))) := by
        simp only [World.stepRefresh, World.atGate, if_neg hg]
      exact ⟨fun q => by rw [hrun], Or.inr (Or.inl (congrArg Prod.snd hrun))⟩
  | due =>
    have hleave : ∀ q, (w.leaveDisk l.path).disk.callCount .read q = w.disk.callCount .read q := fun q => rfl
    have hnothing : w.stepRefresh (.looking l .due) = (w.leaveDisk l.path).conclude l .unchanged →
        Refresh.Idles w (.looking l .due) := fun hrun => by
      refine ⟨fun q => ?_, Or.inl ⟨_, ?_, Or.inl rfl⟩⟩
      · rw [hrun, (disk_conclude _ l _).1]
        exact hleave q
      · rw [hrun]
        exact conclude_unchanged _ l
    rcases Disk.stat_cases w.disk l.path with ⟨f, hst⟩ | ⟨hst, hf⟩ | ⟨f, st, hst, hf, hm⟩
    · have hrun : w.stepRefresh (.looking l .due) = (w.leaveDisk l.path).endLook l (.error (.other f)) := by
        simp only [World.stepRefresh, hst, World.haveLooked]
      refine ⟨fun q => ?_, Or.inl ⟨_, congrArg Prod.snd hrun, Or.inr ⟨f, hst, rfl⟩⟩⟩
      rw [hrun, (disk_endLook _ l _).1]
      exact hleave q
    · rw [hf] at hk
      have hhad : l.had = false := hk
      exact hnothing (by simp [World.stepRefresh, hst, World.haveLooked, Observation.absent, hhad])
    · rw [hf] at hk
      obtain ⟨hhad, hlast⟩ : l.had = true ∧ l.last = f.modified := hk
      exact hnothing (by simp [World.stepRefresh, hst, World.haveLooked, hhad, hlast, hm])

theorem result?_eq_some {σ α : Type} {s : Section σ α} {x : α} : s.result? = some x ↔ s = .ended x := by
  cases s <;> simp [Section.result?]

theorem Refresh.Idles.result (h : Refresh.Idles w r) {x : Refreshed} (hx : (w.stepRefresh r).2 = .ended x) :
    x = .ok false ∨ ∃ f, w.disk.stat r.path = .error f ∧ x = .error (.other f) := by
  rcases h.onward with ⟨y, hy, hres⟩ | hwait | ⟨r', hnext, -⟩
  · cases hx.symm.trans hy
    exact hres
  · cases hx.symm.trans hwait
  · rw [hx] at hnext
    cases hnext

/-! ### Sections of tasks that reconcile -/

theorem Activity.reconciles?_cases (h : a.reconciles? = some q) :
    a = .starting (.reconcile q) ∨ ∃ r, a.refresh? = some r ∧ r.path = q := by
  cases a with
  | starting y => cases y <;> cases h; exact Or.inl rfl
  | refreshing r => cases h; exact Or.inr ⟨r, rfl, rfl⟩
  | synchronizing seat r => cases h; exact Or.inr ⟨r, rfl, rfl⟩
  | _ => cases h

theorem Activity.reconciles?_of_refresh (h : a.refresh? = some r) : a.reconciles? = some r.path := by
  cases a <;> cases h <;> rfl

theorem Activity.stage_of_refresh (h : a.refresh? = some r) : a.stage = r.stage := by
  rw [Activity.stage, h]
  rfl

theorem result?_of_refresh (h : a.refresh? = some r) (w : World) : w.result? a = (w.stepRefresh r).2.result? := by
  cases a <;> cases h <;> rfl

theorem wait_of_refresh (h : a.refresh? = some r) (hr : (w.stepRefresh r).2 = .wait r) : (w.step a).2 = .wait a := by
  rcases hrun : w.stepRefresh r with ⟨w', y⟩
  rw [hrun] at hr
  cases hr
  cases a <;> cases h
  · simp only [World.step, hrun, ofPart]
  · simp only [World.step, World.stepSynchronizing, hrun]

theorem unread_step (h : a.refresh? = some r) (hr : Refresh.Idles w r) (q : Path) :
    (w.step a).1.disk.callCount .read q = w.disk.callCount .read q := by
  have hread := hr.unread q
  cases a <;> cases h
  · rw [World.step, fst_ofPart]
    exact hread
  · rename_i seat
    simp only [World.step, World.stepSynchronizing]
    rcases hrun : w.stepRefresh r with ⟨w', y | y | y | o⟩ <;> rw [hrun] at hread
    · exact hread
    · exact hread
    · exact hread
    · cases o with
      | ok news => exact hread
      | error e => exact (congrArg (·.callCount .read q) (offline_releasePlace w' seat.path (.failed seat e)).disk).trans hread

/-- a request to reconcile gets in line, unless there is nothing to reconcile -/
theorem requestRefresh_cases (w : World) (p : Path) : (w.requestRefresh p).1.disk = w.disk ∧
    ((w.requestRefresh p).2 = .ended (.ok false) ∨ ∃ x τ, (w.requestRefresh p).2 = .go (.queued p x τ)) := by
  unfold World.requestRefresh
  split
  · exact ⟨rfl, Or.inl rfl⟩
  · rename_i e _
    obtain ⟨signal, signals, hq, -⟩ := beginQuery_eq w e
    rw [hq]
    exact ⟨rfl, Or.inr ⟨_, _, rfl⟩⟩

theorem unread_abandon (w : World) (h : a.reconciles? = some p) (q : Path) :
    (w.abandon a).disk.callCount .read q = w.disk.callCount .read q := by
  have hdrop : ∀ r, (w.dropRefresh r).disk.callCount .read q = w.disk.callCount .read q := by
    intro r
    cases r <;> simp [World.dropRefresh, World.leaveDisk, Disk.callCount_leave]
  rcases Activity.reconciles?_cases h with rfl | ⟨r, hr, -⟩
  · rfl
  · cases a <;> cases hr
    · exact hdrop r
    · rw [World.abandon, World.abandonSeat, disk_inBackground, disk_endSeat]
      exact hdrop r

theorem unread_serve {ph : Phase} (hph : w.tasks.phase? id = some ph) (h : ph.activity.reconciles? = some p)
    (hidle : ∀ r, ph.activity.refresh? = some r → Refresh.Idles (floorTo w id) r) (q : Path) :
    (serve w id).disk.callCount .read q = w.disk.callCount .read q := by
  by_cases hgo : canGo w id = true
  · obtain ⟨u, hs, rfl⟩ := served?_of_phase hgo hph
    cases hc : u.cancelled with
    | true =>
      rw [serve_of_cancelled hs hc, disk_finish, unread_abandon _ h]
      exact congrArg (·.callCount .read q) (disk_floorTo w id)
    | false =>
      rw [(core_serve_of_section hs hc).2]
      refine Eq.trans ?_ (congrArg (·.callCount .read q) (disk_floorTo w id))
      rcases Activity.reconciles?_cases h with hact | ⟨r, hr, -⟩
      · rw [hact, World.step, World.begin, fst_ofPart, (requestRefresh_cases _ p).1]
      · exact unread_step hr (hidle r hr) q
  · rw [serve, if_neg hgo]

/-- a task whose reconciliation reports no change shows nothing -/
theorem unshown_serve (hw : Wf w) {ph : Phase} (hph : w.tasks.phase? id = some ph)
    (h : ph.activity.reconciles? = some p)
    (hres : ∀ r, ph.activity.refresh? = some r → ((floorTo w id).stepRefresh r).2 ≠ .ended (.ok true)) :
    (serve w id).channels = w.channels := by
  have hnone : (floorTo w id).commits? ph.activity = none := by
    rcases Activity.reconciles?_cases h with hact | ⟨r, hr, -⟩
    · rw [hact]
      rfl
    · have hno : r.commits (floorTo w id) = false := Bool.eq_false_iff.2 fun hc => hres r hr (Refresh.commits_iff.1 hc)
      cases hact : ph.activity <;> rw [hact] at hr <;> cases hr <;> simp [World.commits?, hno]
  rcases publishes_serve hw id with ⟨p', f, x, hc, -⟩ | ⟨-, hsilent⟩
  · obtain ⟨u, hs, hc⟩ := Option.bind_eq_some_iff.1 hc
    split at hc
    · cases hc
    · cases (phase?_of_served hs).symm.trans hph
      cases hnone.symm.trans hc
  · exact hsilent.channels

theorem World.Still.idles (hs : w.Still p) (hg : Guarded w.core w.stakes) (hr : w.Refreshes id r)
    (hk : r.path.key = p.key) : Refresh.Idles (floorTo w id) r := by
  cases hl : r.look? with
  | none =>
    cases r <;> cases hl
    exact idles_queued _ _ _ _
  | some l =>
    have hpath : r.path = l.path := by cases r <;> cases hl <;> rfl
    obtain ⟨c, rfl⟩ := hs.looking id r l hr hl (hpath ▸ hk)
    refine idles_looking ?_
    rw [disk_floorTo]
    exact hs.knows hg hr rfl hk

theorem awaits_of_refresh (h : a.refresh? = some r) : a.awaits = r.awaits := by
  cases a <;> cases h <;> rfl

/-- where nothing is new, who reconciles has not begun, is in line, or looks at the date -/
theorem World.Still.brief (hs : w.Still p) {ph : Phase} (hph : w.tasks.phase? id = some ph)
    (hq : ph.activity.reconciles? = some q) (hk : q.key = p.key) :
    ph.activity = .starting (.reconcile q) ∨ (∃ x τ, ph.activity.refresh? = some (.queued q x τ)) ∨
      ∃ l c, ph.activity.refresh? = some (.looking l c) ∧ l.path = q := by
  refine (Activity.reconciles?_cases hq).imp_right ?_
  rintro ⟨r, hr, rfl⟩
  cases hl : r.look? with
  | none =>
    cases r <;> cases hl
    exact Or.inl ⟨_, _, hr⟩
  | some l =>
    have hpath : r.path = l.path := by cases r <;> cases hl <;> rfl
    obtain ⟨c, rfl⟩ := hs.looking id r l ⟨ph, hph, hr⟩ hl (hpath ▸ hk)
    exact Or.inr ⟨l, c, hr, rfl⟩

/-- a task that reconciles goes on as its reconciliation does -/
theorem onward_step (hq : a.reconciles? = some q) (hidle : ∀ r, a.refresh? = some r → Refresh.Idles w r) :
    (w.result? a).isSome = true ∨ (w.step a).2 = .wait a ∨
      ∃ b, (w.step a).2.next = some b ∧ b.reconciles? = some q ∧ b.stage < a.stage := by
  rcases Activity.reconciles?_cases hq with rfl | ⟨r, hr, hpath⟩
  · rcases (requestRefresh_cases w q).2 with hend | ⟨x, τ, hgo⟩
    · exact Or.inl (by rw [World.result?, hend]; rfl)
    · refine Or.inr (Or.inr ⟨.refreshing (.queued q x τ), ?_, rfl, Nat.lt_succ_self 2⟩)
      rw [World.step, World.begin, next_ofPart, hgo]
      rfl
  · rcases (hidle r hr).onward with ⟨x, hend, -⟩ | hwait | ⟨r', hnext, hp', hlt⟩
    · exact Or.inl (by rw [result?_of_refresh hr, hend]; rfl)
    · exact Or.inr (Or.inl (wait_of_refresh hr hwait))
    · obtain ⟨b, hb, hr'⟩ := next_step_of_refresh hr hnext
      refine Or.inr (Or.inr ⟨b, hb, ?_, ?_⟩)
      · rw [Activity.reconciles?_of_refresh hr', hp', hpath]
      · rw [Activity.stage_of_refresh hr, Activity.stage_of_refresh hr']
        exact hlt

/-- a task whose reconciliation finds nothing new ends with that, or reports that it could not look -/
theorem result_of_idles (hq : a.reconciles? = some q) (hidle : ∀ r, a.refresh? = some r → Refresh.Idles w r)
    {x : Refreshed} (hx : w.result? a = some x) :
    x = .ok false ∨ ∃ f, w.disk.stat q = .error f ∧ x = .error (.other f) := by
  rcases Activity.reconciles?_cases hq with rfl | ⟨r, hr, hpath⟩
  · rw [World.result?, result?_eq_some] at hx
    rcases (requestRefresh_cases w q).2 with hend | ⟨_, _, hgo⟩
    · cases hx.symm.trans hend
      exact Or.inl rfl
    · cases hx.symm.trans hgo
  · rw [result?_of_refresh hr, result?_eq_some] at hx
    have hres := (hidle r hr).result hx
    rwa [hpath] at hres

/-- **Where nothing is new, every reconciliation confirms it.** -/
theorem World.Still.settled (hs : w.Still p) (hw : Wf w) (hg : Guarded w.core w.stakes) : w.Settled p where
  mirrors := hs.mirrors
  confirms id ph q hph hq hk := by
    have hidle : ∀ r, ph.activity.refresh? = some r → Refresh.Idles (floorTo w id) r := fun r hr => by
      have hpath : r.path = q := Option.some.inj ((Activity.reconciles?_of_refresh hr).symm.trans hq)
      exact hs.idles hg ⟨ph, hph, hr⟩ (hpath ▸ hk)
    have hbrief := hs.brief hph hq hk
    constructor
    case brief => exact hbrief
    case unread => exact unread_serve hph hq hidle q
    case unshown =>
      refine unshown_serve hw hph hq fun r hr hend => ?_
      rcases (hidle r hr).result hend with h | ⟨f, -, h⟩ <;> cases h
    case waits =>
      refine (hw.woken id ph hph).imp_right fun h => h.imp_right fun hwait => ?_
      rcases hbrief with hact | ⟨x, τ, hr⟩ | ⟨l, c, hr, -⟩
      · exact absurd (by rw [hact]; rfl) hwait.something
      · refine Or.inl ⟨x, τ, hr, hwait.turn τ ?_ (awaits_of_refresh hr)⟩
        rw [Activity.errand_of_refresh hr]
        rfl
      · cases c with
        | held g => exact Or.inr ⟨l, g, hr⟩
        | due => exact absurd (awaits_of_refresh hr) hwait.something
    case onward => exact onward_step hq hidle
    case result =>
      intro x hx
      have hres := result_of_idles hq hidle hx
      rwa [disk_floorTo] at hres

/-! ## Along a run -/

section Trace

variable {policy : WritePolicy} {moves : Nat → Move} {i j n : Nat}

/-- a write is not overtaken if nobody changes the file between it and the look at its date -/
theorem not_overtaken_trace (hp : ¬ Interposed (World.start policy) moves p) (n : Nat) :
    ¬ OvertakenAt ((World.start policy).trace moves n) (moves n) p.key := by
  rintro ⟨id, u, job, st, f, ⟨hm, hs, hc, hact, -, -, hfile, hne⟩, hk⟩
  have hlook : ((World.start policy).trace moves n).carried? (moves n) = some (id, .saving (.looking job .due)) :=
    carried?_eq_some.2 ⟨u, hm, hs, hc, hact⟩
  obtain ⟨k, hkn, hwrite, g, hg, hbytes⟩ := written_trace (saves_of_carried hlook rfl)
  have hstill : ∀ l, k < l → l ≤ n → ((World.start policy).trace moves l).disk.file? p = some g := by
    intro l hkl
    induction l, hkl using Nat.le_induction with
    | base =>
      intro _
      rw [← file?_congr hk]
      exact hg
    | succ l hkl ih =>
      intro hln
      rw [← ih (Nat.le_of_succ_le hln)]
      by_contra hchange
      exact hp ⟨k, l, n, id, job, hkl, hln, hk, hwrite, hlook, hchange⟩
  rw [file?_congr hk, hstill n hkn le_rfl] at hfile
  cases hfile
  exact hne (congrArg Text.Utf8.decodeLossy hbytes)

theorem faithfulAt_trace (hp : ¬ Interposed (World.start policy) moves p) (n : Nat) :
    ((World.start policy).trace moves n).FaithfulAt p := by
  induction n with
  | zero => exact fun _ _ _ h => by cases h
  | succ n ih =>
    have hr := reachable_trace policy moves n
    exact faithfulAt_move hr.wf hr.dated ih (not_overtaken_trace hp n)

theorem dateless_trace (policy : WritePolicy) (moves : Nat → Move) (n : Nat) :
    ((World.start policy).trace moves n).Dateless := by
  induction n with
  | zero => exact fun _ _ h => by cases h
  | succ n ih => exact dateless_move (reachable_trace policy moves n).wf ih (moves n)

/-- the reconciliation that completes its calls has read the version whose date it found -/
theorem date_of_reading {date : Instant} {c : Call} {f : StoredFile}
    (hi : ((World.start policy).trace moves i).carried? (moves i) = some (id, a)) (ha : a.refresh? = some (.looking l .due))
    (hle : i ≤ j) (hj : ((World.start policy).trace moves j).Refreshes id (.reading l date c))
    (hfile : ((World.start policy).trace moves i).disk.file? l.path = some f) : f.modified = date := by
  have hij : i < j := by
    refine lt_of_le_of_ne hle ?_
    rintro rfl
    cases refreshes_unique (refreshes_of_carried hi ha) hj
  rcases date_trace hi ha hij hj rfl with ⟨st, c', hst, h⟩ | ⟨_, _, h⟩
  · cases h
    obtain ⟨f', hf', hm⟩ := Disk.stat_eq_some hst
    cases hfile.symm.trans hf'
    exact hm
  · cases h

/-- nobody at the path has the lock after a reconciliation there has come to its end -/
theorem nobody_looks (hw : Wf w) (hg : Guarded w.core w.stakes) (hcarry : w.carried? m = some (id, a))
    (hr : a.refresh? = some r) (hl : r.look? = some l) (ho : r.finding w.disk = some o) {id' : TaskId} {r' : Refresh}
    {l' : Look} (hr' : (w.move m).Refreshes id' r') (hl' : r'.look? = some l') : l'.path.key ≠ l.path.key := by
  intro hk
  obtain ⟨u, rfl, hs, hc, rfl⟩ := carried?_eq_some.1 hcarry
  have hne : id' ≠ id := by
    rintro rfl
    have hrun := stepRefresh_of_finding (w := floorTo w id') hl (by rw [disk_floorTo]; exact ho)
    obtain ⟨x, hx⟩ := conclude_ended ((floorTo w id').leaveDisk l.path) l o
    cases (refresh?_of_ended hr ((congrArg Prod.snd hrun).trans hx)).symm.trans ((refreshes_serve hw hs hc).1 hr')
  rcases refreshes_move hw hr' with hsame | hno | ⟨b, r₀, hb, -⟩
  · -- both would have the lock
    obtain ⟨d, herrand⟩ := errand_of_look? (refreshes_of_carried hcarry hr) hl
    obtain ⟨d', herrand'⟩ := errand_of_look? hsame hl'
    exact hne (hw.sound.alone (by rw [herrand']; rfl) (by rw [herrand']; rfl) (by rw [herrand]; rfl) (by rw [herrand]; rfl)
      hk (hg.look id' l' d' herrand').1 (hg.look id l d herrand).1)
  · cases hno.symm.trans hl'
  · cases hcarry.symm.trans hb
    exact hne rfl

/-- **When a reconciliation completes its calls, the entry agrees with the file.** -/
theorem still_of_completes (h : ∀ n, moves n ≠ .call .shutDown) (hp : ¬ Interposed (World.start policy) moves p)
    (hc : Completes (World.start policy) moves p i j)
    (hij : ((World.start policy).trace moves j).disk.file? p = ((World.start policy).trace moves i).disk.file? p)
    (hj : ((World.start policy).trace moves (j + 1)).disk.file? p = ((World.start policy).trace moves j).disk.file? p) :
    ((World.start policy).trace moves (j + 1)).isTracked p = true ∧
      ((World.start policy).trace moves (j + 1)).Still p := by
  obtain ⟨hle, id, l, hk, hi, hj'⟩ := hc
  obtain ⟨a, hi, ha⟩ := looks?_eq_some.1 hi
  obtain ⟨b, r, hcarry, hb, hl, ho⟩ := finds?_eq_some.1 hj'
  obtain ⟨o, ho⟩ := Option.isSome_iff_exists.1 ho
  have hw := (reachable_trace policy moves j).wf
  have hp' : Proper ((World.start policy).trace moves j).core ((World.start policy).trace moves j).stakes := proper_trace h j
  have hg := hp'.guarded
  have hr := refreshes_of_carried hcarry hb
  obtain ⟨d, herrand⟩ := errand_of_look? hr hl
  obtain ⟨-, e, he, hhad, hlast⟩ := hg.look id l d herrand
  have hmirrors : (Entry.commit { e with runningSignal := none } o).1.known.Mirrors
      (((World.start policy).trace moves j).disk.file? l.path) := by
    refine mirrors_of_finding hhad hlast (dateless_trace policy moves j _ e he) he ((faithfulAt_trace hp j).congr hk.symm) hl
      ?_ ho
    rintro date c f rfl hf
    refine date_of_reading hi ha hle hr ?_
    rw [file?_congr hk, ← hij, ← file?_congr hk]
    exact hf
  have hentry : ((World.start policy).trace moves (j + 1)).entries.get? p.key =
      some (Entry.commit { e with runningSignal := none } o).1 := by
    obtain ⟨u, hm, hs, hcan, rfl⟩ := carried?_eq_some.1 hcarry
    rw [World.trace, hm, World.move, ← hk]
    exact entry_of_observed hs hcan hb hl ho he
  refine ⟨contains_of_get? hentry, fun e' he' => ?_, fun id' r' l' hr' hl' hk' => ?_⟩
  · cases hentry.symm.trans he'
    rw [hj, ← file?_congr hk]
    exact hmirrors
  · exact absurd (hk'.trans hk.symm) (nobody_looks hw hg hcarry hb hl ho hr' hl')

/-- **Convergence.** In a run without shutting down, where nobody interposes another version in a write, the path is settled
after a reconciliation has completed its calls, as long as the file stays as it is and no new entry is made for it. -/
theorem converges_trace (h : ∀ n, moves n ≠ .call .shutDown) (hp : ¬ Interposed (World.start policy) moves p)
    (hc : Completes (World.start policy) moves p i j) (hn : j < n)
    (hfile : ∀ l, i ≤ l → l ≤ n →
      ((World.start policy).trace moves l).disk.file? p = ((World.start policy).trace moves i).disk.file? p)
    (hkeep : ∀ l, j < l → l < n → ¬ Renews ((World.start policy).trace moves l) (moves l) p) :
    ((World.start policy).trace moves (j + 1)).isTracked p = true ∧ ((World.start policy).trace moves n).Settled p := by
  have hle : i ≤ j := hc.1
  have hj := hfile j hle hn.le
  obtain ⟨htracked, hstill⟩ := still_of_completes h hp hc hj ((hfile (j + 1) (hle.trans (Nat.le_succ j)) hn).trans hj.symm)
  refine ⟨htracked, ?_⟩
  have hproper : ∀ l, Proper ((World.start policy).trace moves l).core ((World.start policy).trace moves l).stakes :=
    fun l => proper_trace h l
  have hall : ∀ l, j < l → l ≤ n → ((World.start policy).trace moves l).Still p := by
    intro l hl
    induction l, hl using Nat.le_induction with
    | base => exact fun _ => hstill
    | succ l hl ih =>
      intro hln
      have hil : i ≤ l := hle.trans (Nat.le_of_succ_le hl)
      refine still_move (reachable_trace policy moves l).wf (hproper l).guarded
        (ih (Nat.le_of_succ_le hln)) ?_ (not_overtaken_trace hp l) (hkeep l hl hln)
      exact (hfile (l + 1) (hil.trans (Nat.le_succ l)) hln).trans (hfile l hil (Nat.le_of_succ_le hln)).symm
  exact (hall n hn le_rfl).settled (reachable_trace policy moves n).wf (hproper n).guarded

end Trace

/-! ## Runs -/

instance (w : World) (m : Move) (p : Path) : Decidable (Renews w m p) := inferInstanceAs (Decidable (_ ∧ _ ∧ _))

/-- a move carries out the writing of a file -/
def World.writes (w : World) (m : Move) (p : Path) : Bool :=
  (w.carried? m).any fun x =>
    match x.2 with
    | .saving (.writing job .due) => job.path.key = p.key
    | _ => false

/-- a move carries out the look at the date of a file that has been written -/
def World.dates (w : World) (m : Move) (p : Path) : Bool :=
  (w.carried? m).any fun x =>
    match x.2 with
    | .saving (.looking job .due) => job.path.key = p.key
    | _ => false

theorem carried?_of_quiet (h : w.tasks.quiet = true) (m : Move) : w.carried? m = none := by
  simp only [Tasks.quiet, Bool.and_eq_true, List.isEmpty_iff, Option.isNone_iff_eq_none] at h
  cases m with
  | turn id => simp [World.carried?, World.served?, canGo_eq, h.1, h.2]
  | _ => rfl

/-- a run that has come to rest stays as it is -/
theorem trace_at_rest {ms : List Move} (h : (w.trace (along ms) ms.length).tasks.quiet = true) {n : Nat}
    (hn : ms.length ≤ n) : w.trace (along ms) n = w.trace (along ms) ms.length := by
  induction n, hn using Nat.le_induction with
  | base => rfl
  | succ n hn ih =>
    simp only [Tasks.quiet, Bool.and_eq_true, List.isEmpty_iff, Option.isNone_iff_eq_none] at h
    rw [World.trace, ih, along_of_length_le hn]
    simp [World.move, serve, canGo_eq, h.1, h.2]

/-- In a run that comes to rest nobody interposes a version, if each change of the file has no write before it or no look at
the date of one after it. -/
theorem not_interposed_along {ms : List Move} (hrest : (w.trace (along ms) ms.length).tasks.quiet = true)
    (h : ((List.range ms.length).all fun l =>
      decide ((w.trace (along ms) (l + 1)).disk.file? p = (w.trace (along ms) l).disk.file? p) ||
      ((List.range l).all fun k => !(w.trace (along ms) k).writes (along ms k) p) ||
      (List.range ms.length).all fun n => decide (n ≤ l) || !(w.trace (along ms) n).dates (along ms n) p) = true) :
    ¬ Interposed w (along ms) p := by
  rintro ⟨k, l, n, id, job, hkl, hln, hk, hwrite, hlook, hchange⟩
  have hn : n < ms.length := by
    by_contra hge
    rw [trace_at_rest hrest (not_lt.1 hge), carried?_of_quiet hrest] at hlook
    cases hlook
  have hwrites : (w.trace (along ms) k).writes (along ms k) p = true := by
    simp [World.writes, hwrite, hk]
  have hdates : (w.trace (along ms) n).dates (along ms n) p = true := by
    simp [World.dates, hlook, hk]
  have hat := List.all_eq_true.1 h l (List.mem_range.2 (hln.trans hn))
  simp only [Bool.or_eq_true, decide_eq_true_eq, List.all_eq_true, List.mem_range, Bool.not_eq_true'] at hat
  rcases hat with (hsame | hno) | hno
  · exact hchange hsame
  · cases hwrites.symm.trans (hno k hkl)
  · rcases hno n hn with hle | hno
    · exact absurd hln (not_lt.2 hle)
    · cases hdates.symm.trans hno

theorem completes_of_check {moves : Nat → Move} {i j : Nat} (hij : i ≤ j)
    (h : ((w.trace moves i).looks? (moves i)).any (fun x => decide (x.2.path.key = p.key) &&
      decide ((w.trace moves j).finds? (moves j) = some x)) = true) : Completes w moves p i j := by
  obtain ⟨⟨id, l⟩, hi, hx⟩ := (Option.any_eq_true _ _).1 h
  simp only [Bool.and_eq_true, decide_eq_true_eq] at hx
  exact ⟨hij, id, l, hx.1, hi, hx.2⟩

/-- A watched file is written, somebody else puts another version in place, and two reconciliations follow. -/
def agreeing : List Move :=
  let p : Path := ⟨"/a"⟩
  List.flatten [[.newSubscriber, .putFile p ⟨#[49]⟩, .call (.watch p ⟨1⟩)], List.replicate 6 (.turn 1),
    [.turn 2, .call (.write p ⟨#[50]⟩)], List.replicate 4 (.turn 3), [.putFile p ⟨#[51]⟩, .call (.reconcile p)],
    List.replicate 4 (.turn 4), [.call (.reconcile p)], List.replicate 3 (.turn 5)]

/-- the first of them finds the other version, and the second is about to look at the date -/
theorem converges_trace_agreeing :
    (∀ n, along agreeing n ≠ .call .shutDown) ∧ ¬ Interposed (World.start .allow) (along agreeing) ⟨"/a"⟩ ∧
      Completes (World.start .allow) (along agreeing) ⟨"/a"⟩ 19 20 ∧
      (∀ l, 19 ≤ l → l ≤ 24 → ((World.start .allow).trace (along agreeing) l).disk.file? ⟨"/a"⟩ =
        ((World.start .allow).trace (along agreeing) 19).disk.file? ⟨"/a"⟩) ∧
      (∀ l, 20 < l → l < 24 → ¬ Renews ((World.start .allow).trace (along agreeing) l) (along agreeing l) ⟨"/a"⟩) ∧
      ((World.start .allow).trace (along agreeing) 21).isTracked ⟨"/a"⟩ = true ∧
      ((World.start .allow).trace (along agreeing) 24).Settled ⟨"/a"⟩ := by
  have h : ∀ n, along agreeing n ≠ .call .shutDown := along_ne agreeing (by simp [agreeing]) (by simp)
  have hp : ¬ Interposed (World.start .allow) (along agreeing) ⟨"/a"⟩ :=
    not_interposed_along (by decide +kernel) (by decide +kernel)
  have hc : Completes (World.start .allow) (along agreeing) ⟨"/a"⟩ 19 20 :=
    completes_of_check (by decide) (by decide +kernel)
  have hfile : ∀ l, 19 ≤ l → l ≤ 24 → ((World.start .allow).trace (along agreeing) l).disk.file? ⟨"/a"⟩ =
      ((World.start .allow).trace (along agreeing) 19).disk.file? ⟨"/a"⟩ := by decide +kernel
  have hkeep : ∀ l, l < 24 → 20 < l →
      ¬ Renews ((World.start .allow).trace (along agreeing) l) (along agreeing l) ⟨"/a"⟩ := by decide +kernel
  have hsettled := converges_trace h hp hc (n := 24) (by decide) hfile fun l hl hln => hkeep l hln hl
  exact ⟨h, hp, hc, hfile, fun l hl hln => hkeep l hln hl, hsettled⟩

/-- the path and the result of the reconciliation that a move ends -/
def World.reports? (w : World) (m : Move) : Option (Path × Refreshed) :=
  (w.carried? m).bind fun x => x.2.reconciles?.bind fun p => ((floorTo w x.1).result? x.2).map fun r => (p, r)

/-- A watched file is left alone, but its subscriber leaves and comes back, and then looks at the file fail. -/
def renewing : List Move :=
  let p : Path := ⟨"/a"⟩
  List.flatten [[.newSubscriber, .putFile p ⟨#[49]⟩, .call (.watch p ⟨1⟩)], List.replicate 6 (.turn 1),
    [.turn 2, .call (.unwatch p ⟨1⟩), .turn 3, .turn 3, .turn 2, .call (.watch p ⟨1⟩)], List.replicate 6 (.turn 4),
    [.turn 5, .orderFailure .stat p "no", .call (.reconcile p)], List.replicate 3 (.turn 6)]

/-- A reconciliation completes its calls, and the file stays as it is. Yet the first reconciliation of the new entry reads the
file again and reports a change, and a later one reports that it could not look at the file. -/
theorem renewed_entry_is_read_again :
    (∀ n, along renewing n ≠ .call .shutDown) ∧ ¬ Interposed (World.start .allow) (along renewing) ⟨"/a"⟩ ∧
      Completes (World.start .allow) (along renewing) ⟨"/a"⟩ 6 7 ∧
      (∀ l, 6 ≤ l → l ≤ 27 → ((World.start .allow).trace (along renewing) l).disk.file? ⟨"/a"⟩ =
        ((World.start .allow).trace (along renewing) 6).disk.file? ⟨"/a"⟩) ∧
      ((World.start .allow).trace (along renewing) 18).disk.callCount .read ⟨"/a"⟩ = 1 ∧
      ((World.start .allow).trace (along renewing) 19).disk.callCount .read ⟨"/a"⟩ = 2 ∧
      ((World.start .allow).trace (along renewing) 19).reports? (along renewing 19) = some (⟨"/a"⟩, .ok true) ∧
      ((World.start .allow).trace (along renewing) 26).reports? (along renewing 26) =
        some (⟨"/a"⟩, .error (.other ⟨"no: \"/a\"", []⟩)) := by
  refine ⟨along_ne renewing (by simp [renewing]) (by simp), not_interposed_along (by decide +kernel) (by decide +kernel),
    completes_of_check (by decide) (by decide +kernel), by decide +kernel, by decide +kernel, by decide +kernel,
    by decide +kernel, by decide +kernel⟩

/-- Another version is put in place after a reconciliation has looked at the date and before it reads. -/
def changingAfterLook : List Move :=
  let p : Path := ⟨"/a"⟩
  List.flatten [[.newSubscriber, .putFile p ⟨#[49]⟩, .call (.watch p ⟨1⟩)], List.replicate 4 (.turn 1),
    [.putFile p ⟨#[50]⟩], List.replicate 2 (.turn 1), [.turn 2]]

/-- The reconciliation completes its calls, and the file stays as it is from before the last of them on. Yet the path is not
settled: the entry has the text of the later version with the date of the earlier one. -/
theorem changed_after_look_not_settled :
    (∀ n, along changingAfterLook n ≠ .call .shutDown) ∧ ¬ Interposed (World.start .allow) (along changingAfterLook) ⟨"/a"⟩ ∧
      Completes (World.start .allow) (along changingAfterLook) ⟨"/a"⟩ 6 8 ∧
      (∀ l, 8 ≤ l → l ≤ 11 → ((World.start .allow).trace (along changingAfterLook) l).disk.file? ⟨"/a"⟩ =
        ((World.start .allow).trace (along changingAfterLook) 8).disk.file? ⟨"/a"⟩) ∧
      (∀ l, l < 11 → 8 < l →
        ¬ Renews ((World.start .allow).trace (along changingAfterLook) l) (along changingAfterLook l) ⟨"/a"⟩) ∧
      ¬ ((World.start .allow).trace (along changingAfterLook) 11).Settled ⟨"/a"⟩ := by
  refine ⟨along_ne changingAfterLook (by simp [changingAfterLook]) (by simp),
    not_interposed_along (by decide +kernel) (by decide +kernel),
    completes_of_check (by decide) (by decide +kernel), by decide +kernel, by decide +kernel, fun h => ?_⟩
  have hdates : (World.entry? ((World.start .allow).trace (along changingAfterLook) 11) ⟨"/a"⟩).map (·.known.modified) ≠
      (((World.start .allow).trace (along changingAfterLook) 11).disk.file? ⟨"/a"⟩).map (·.modified) := by decide +kernel
  have htracked : (World.entry? ((World.start .allow).trace (along changingAfterLook) 11) ⟨"/a"⟩).isSome = true := by decide +kernel
  have hthere : (((World.start .allow).trace (along changingAfterLook) 11).disk.file? ⟨"/a"⟩).isSome = true := by
    decide +kernel
  obtain ⟨e, he⟩ := Option.isSome_iff_exists.1 htracked
  obtain ⟨f, hf⟩ := Option.isSome_iff_exists.1 hthere
  have hmirrors := h.mirrors e he
  rw [hf] at hmirrors
  rw [he, hf] at hdates
  exact hdates (congrArg some hmirrors.2)

end Engine

end LiveFiles
