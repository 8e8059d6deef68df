/-
When the cache tells the truth about dates. A reconciliation does not read a file whose date it knows, so a cached text
must be the text of the file whenever the cached date is the file's (`World.Faithful`).
- **`faithful_iff`**: in a run this holds in every state exactly if no write is ever overtaken (`Overtaken`): somebody
  else puts other bytes in place after the write and before the write looks up the date.
- `overtaken_write_hides_edit`: a run in which a write is overtaken. The cache keeps the old text with the date of the
  new file, and a reconciliation finds nothing to do.
Dates that the engine has seen are past (`Dated`), so a file changed afterwards has another date.
-/
import LiveFiles.Proofs.Inversion
import LiveFiles.Proofs.Outcomes

namespace LiveFiles.Engine

/-- a cached text with the date of the file is the text of the file -/
def World.Faithful (w : World) : Prop :=
  ∀ p e f text, w.entry? p = some e → e.contents = some text → w.disk.file? p = some f → e.modified = f.modified →
    text = Text.Utf8.decodeLossy f.bytes

/-- A write is about to take the date of a file that does not hold its bytes. -/
def Overtaken (w : World) (m : Move) : Prop :=
  ∃ id t job st f, m = .turn id ∧ w.served? id = some t ∧ t.cancelled = false ∧
    t.phase.activity = .saving (.looking job .due) ∧ (w.entry? job.path).isSome ∧
    w.disk.stat job.path = .ok (some st) ∧ w.disk.file? job.path = some f ∧
    Text.Utf8.decodeLossy f.bytes ≠ Text.Utf8.decodeLossy job.bytes

/-- at one path -/
def World.FaithfulAt (w : World) (p : Path) : Prop :=
  ∀ e f text, w.entry? p = some e → e.contents = some text → w.disk.file? p = some f → e.modified = f.modified →
    text = Text.Utf8.decodeLossy f.bytes

/-- a write at a path is overtaken in this move -/
def OvertakenAt (w : World) (m : Move) (k : Path.Key) : Prop :=
  ∃ id t job st f, (m = .turn id ∧ w.served? id = some t ∧ t.cancelled = false ∧
    t.phase.activity = .saving (.looking job .due) ∧ (w.entry? job.path).isSome ∧
    w.disk.stat job.path = .ok (some st) ∧ w.disk.file? job.path = some f ∧
    Text.Utf8.decodeLossy f.bytes ≠ Text.Utf8.decodeLossy job.bytes) ∧ job.path.key = k

variable {E : Mark → Prop} {c c' c'' : Core} {s s' : Stake} {w : World}

/-! ## Where texts and dates come from -/

/-- where what an entry says of the file comes from: it said so before, it has just been made, or a task has left a mark -/
inductive Source (E : Mark → Prop) (c : Core) (k : Path.Key) (e' : Entry) : Prop
  | kept (e : Entry) (he : c.entries.get? k = some e) (h : e'.known = e.known)
  | created (hE : E (.created k)) (h : e'.known = .nothing)
  | missing (hE : E (.observed k .missing)) (h : e'.known = .nothing)
  | changed (text : String) (m : Instant) (hE : E (.observed k (.changed text m))) (h : e'.known = ⟨some text, m, m⟩)
  | committed (text : String) (m : Instant) (hE : E (.committed k text m)) (ht : e'.contents = some text)
      (hm : e'.modified = m)

theorem effect_source (h : Effect E c s c' s') {k : Path.Key} {e' : Entry} (hk : c'.entries.get? k = some e') :
    Source E c k e' := by
  cases h.origin hk with
  | same e he hb => exact .kept e he (Entry.known_of_bare hb)
  | asked p e signal τ hp he ha =>
    rcases he with he | ⟨-, rfl, hE⟩
    · exact .kept e he ha.known
    · exact .created hE ha.known
  | taken p q τ e hs hp he hq he' => exact .kept e he (by rw [he']; rfl)
  | concluded l d e o hs hl he ho he' hs' =>
    subst he'
    cases o with
    | unchanged => exact .kept e he rfl
    | missing => exact .missing ho rfl
    | changed text m => exact .changed text m ho rfl
  | revoked p bytes e τ hp he he' => exact .kept e he (by rw [he', known_revoke])
  | committed job e m hs hj he ho he' hs' =>
    subst he'
    exact .committed _ m ho rfl rfl
  | forgotten e he he' => exact .kept e he (by rw [he']; rfl)

theorem effects_source (h : Effects E c s c' s') {k : Path.Key} {e' : Entry} (hk : c'.entries.get? k = some e') :
    Source E c k e' := by
  induction h generalizing e' with
  | refl => exact .kept e' hk rfl
  | tail _ he ih =>
    cases effect_source he hk with
    | kept e hk' h' =>
      cases ih hk' with
      | kept e₀ he₀ h₀ => exact .kept e₀ he₀ (h'.trans h₀)
      | created hE h₀ => exact .created hE (h'.trans h₀)
      | missing hE h₀ => exact .missing hE (h'.trans h₀)
      | changed text m hE h₀ => exact .changed text m hE (h'.trans h₀)
      | committed text m hE ht hm =>
        exact .committed text m hE ((congrArg Known.contents h').trans ht) ((congrArg Known.modified h').trans hm)
    | created hE h' => exact .created hE h'
    | missing hE h' => exact .missing hE h'
    | changed text m hE h' => exact .changed text m hE h'
    | committed text m hE ht hm => exact .committed text m hE ht hm

theorem source_move (hw : Wf w) {m : Move} {k : Path.Key} {e' : Entry} (hk : (w.move m).core.entries.get? k = some e') :
    Source (Marks w m) w.core k e' := by
  obtain ⟨id, hs⟩ := move_served hw m
  obtain ⟨s', he, -⟩ := hs.effects
  exact effects_source he hk

/-- the date of the version that a reconciliation reads was known, or has just been found -/
theorem effects_date (h : Effects E c s c' s') {look : Look} {m : Instant} (hs : s'.errand = .look look (some m)) :
    (∃ l, s.errand = .look l (some m)) ∨ E (.dated m) := by
  induction h with
  | refl => exact Or.inl ⟨look, hs⟩
  | tail _ he ih =>
    cases he with
    | @date l d d' hs' hd =>
      cases hs
      rcases hd m rfl with rfl | hd
      · exact ih hs'
      · exact Or.inr hd
    | _ => first | exact ih hs | cases hs

/-! ## Dates are past -/

/-- dates in the cache, of files and of versions that are being read are past -/
structure Dated (w : World) : Prop where
  entry : ∀ k e text, w.core.entries.get? k = some e → e.contents = some text → w.disk.Past e.modified
  file : ∀ k f, w.disk.files.get? k = some f → w.disk.Past f.modified
  look : ∀ i l m, (w.stakes i).errand = .look l (some m) → w.disk.Past m

/-- a reconciliation that reports a text has read it, and knows the date -/
theorem marks_changed {m : Move} {k : Path.Key} {text : String} {date : Instant}
    (h : Marks w m (.observed k (.changed text date))) :
    ∃ id l f, (w.stakes id).errand = .look l (some date) ∧ l.path.key = k ∧ w.disk.file? l.path = some f ∧
      text = Text.Utf8.decodeLossy f.bytes := by
  obtain ⟨id, t, r, l, rfl, ht, -, hr, hl, hk, hf⟩ := h.observed
  rcases Refresh.finding_cases hl hf with ⟨ho, -⟩ | ⟨ho, -⟩ | ⟨text', date', ho, rfl, hread⟩
  · unfold Observation.absent at ho
    split at ho <;> cases ho
  · cases ho
  · cases ho
    obtain ⟨f, hfile, hb⟩ := Disk.read_eq_ok hread
    refine ⟨id, l, f, ?_, hk, hfile, hb.symm⟩
    rw [stakes_of_served ht, Activity.errand_of_refresh hr]
    rfl

theorem marks_dated {m : Move} {date : Instant} (h : Marks w m (.dated date)) :
    ∃ p f, w.disk.file? p = some f ∧ f.modified = date := by
  obtain ⟨id, t, rfl, -, ho⟩ := h.served (by simp)
  split at ho
  · cases ho
  · obtain ⟨p, st, hst, rfl⟩ := ho
    obtain ⟨f, hf, hm⟩ := Disk.stat_eq_some hst
    exact ⟨p, f, hf, hm⟩

theorem dated_start (policy : WritePolicy) : Dated (World.start policy) where
  entry _ _ _ h := by cases h
  file _ _ h := by cases h
  look _ _ _ h := by cases h

/-- every move keeps the dates past -/
theorem dated_move (hw : Wf w) (hd : Dated w) (m : Move) : Dated (w.move m) := by
  obtain ⟨id, hs⟩ := move_served hw m
  obtain ⟨s', he, hst⟩ := hs.effects
  have hmono : ∀ {x}, w.disk.Past x → (w.move m).disk.Past x := Disk.past_of_le hs.disk.clock
  constructor
  case entry =>
    intro k e text hk ht
    refine hmono ?_
    have hno : e.known ≠ .nothing := fun h => by
      cases (congrArg Known.contents h).symm.trans ht
    cases source_move hw hk with
    | kept e₀ hk₀ h =>
      rw [show e.modified = e₀.modified from congrArg Known.modified h]
      exact hd.entry k e₀ text hk₀ ((congrArg Known.contents h).symm.trans ht)
    | created _ h => exact absurd h hno
    | missing _ h => exact absurd h hno
    | changed text' date ho h =>
      rw [show e.modified = date from congrArg Known.modified h]
      obtain ⟨i, l, f, hl, -⟩ := marks_changed ho
      exact hd.look i l _ hl
    | committed text' date hc _ hm =>
      rw [hm]
      obtain ⟨_, _, job, _, f, -, -, -, -, -, -, hf, hm, -⟩ := hc.committed
      rw [← hm]
      exact hd.file _ f hf
  case file =>
    intro k f hf
    rcases hs.disk.file k f hf with hf | ⟨n, -, hn, e⟩
    · exact hmono (hd.file k f hf)
    · rw [e]
      exact Disk.past_ofMillis hn
  case look =>
    intro i l x hl
    rw [hst] at hl
    refine hmono ?_
    by_cases hi : i = id
    · subst hi
      rw [Function.update_self] at hl
      rcases effects_date he hl with ⟨l', hl'⟩ | hdate
      · exact hd.look i l' x hl'
      · obtain ⟨p, f, hf, hm⟩ := marks_dated hdate
        rw [← hm]
        exact hd.file _ f hf
    · rw [Function.update_of_ne hi] at hl
      exact hd.look i l x hl

theorem Reachable.dated (h : Reachable w) : Dated w := by
  induction h with
  | start policy => exact dated_start policy
  | move m hr ih => exact dated_move hr.wf ih m

/-! ## The cache is faithful unless a write is overtaken -/

theorem faithful_start (policy : WritePolicy) : (World.start policy).Faithful := fun _ _ _ _ h => by cases h

/-- **Where no write is overtaken, a move keeps the entry of a path faithful.** -/
theorem faithfulAt_move (hw : Wf w) (hd : Dated w) {p : Path} (hf : w.FaithfulAt p) {m : Move}
    (hm : ¬ OvertakenAt w m p.key) : (w.move m).FaithfulAt p := by
  obtain ⟨id, hs⟩ := move_served hw m
  intro e f text hp ht hfile hdate
  have hno : e.known ≠ .nothing := fun h => by
    cases (congrArg Known.contents h).symm.trans ht
  cases source_move hw hp with
  | kept e₀ hk₀ h =>
    -- the entry is as before, so its date is past and the file is as before
    have ht₀ : e₀.contents = some text := (congrArg Known.contents h).symm.trans ht
    have hmod : e₀.modified = e.modified := (congrArg Known.modified h).symm
    have hpast := hd.entry p.key e₀ text hk₀ ht₀
    rw [hmod, hdate] at hpast
    exact hf e₀ f text hk₀ ht₀ (hs.disk.file_of_past hfile hpast) (hmod.trans hdate)
  | created _ h => exact absurd h hno
  | missing _ h => exact absurd h hno
  | changed text' date ho h =>
    obtain ⟨i, l, f₀, hl, hk, hf₀, rfl⟩ := marks_changed ho
    have hpast := hd.look i l _ hl
    rw [← show e.modified = date from congrArg Known.modified h, hdate] at hpast
    have hfile' := hs.disk.file_of_past hfile hpast
    rw [← hk] at hfile'
    rw [Option.some.inj (hf₀.symm.trans hfile')] at h
    exact Option.some.inj (ht.symm.trans (congrArg Known.contents h))
  | committed text' date hc ht' hm' =>
    obtain ⟨i, t, job, st, f₀, rfl, hserved, hcan, hact, hent, hstat, hf₀, hm₀, hk, rfl⟩ := hc.committed
    have hpast := hd.file _ f₀ hf₀
    rw [hm₀, ← hm', hdate] at hpast
    have hfile' := hs.disk.file_of_past hfile hpast
    rw [← hk] at hfile'
    have hff : f₀ = f := Option.some.inj (hf₀.symm.trans hfile')
    rw [Option.some.inj (ht.symm.trans ht')]
    by_contra hne
    exact hm ⟨i, t, job, st, f₀, ⟨rfl, hserved, hcan, hact, hent, hstat, hf₀, hff ▸ Ne.symm hne⟩, hk⟩

theorem faithful_move (hw : Wf w) (hd : Dated w) (hf : w.Faithful) {m : Move} (hm : ¬ Overtaken w m) :
    (w.move m).Faithful := fun p =>
  faithfulAt_move hw hd (hf p) fun ⟨id, t, job, st, f, h, _⟩ => hm ⟨id, t, job, st, f, h⟩

/-- **A write that is overtaken hides the other version**: the entry has the text of the write with the date of the
other file. -/
theorem overtaken_move {m : Move} (h : Overtaken w m) : ¬ (w.move m).Faithful := by
  obtain ⟨id, t, job, st, f, rfl, hserved, hcan, hact, hent, hstat, hfile, hne⟩ := h
  obtain ⟨e, he⟩ := Option.isSome_iff_exists.1 hent
  obtain ⟨hd, e', he', ht, hm⟩ := entry_of_written hserved hcan hact he hstat
  obtain ⟨f', hf', hmod⟩ := Disk.stat_eq_some hstat
  have hff : f = f' := Option.some.inj (hfile.symm.trans hf')
  intro hf
  exact hne (hf job.path e' f _ he' ht ((hd _).trans hfile) (by rw [hm, hff, hmod])).symm

/-- **The cache is faithful to dates in every state of a run exactly if no write is ever overtaken.** -/
theorem faithful_iff (policy : WritePolicy) (moves : Nat → Move) :
    (∀ n, ((World.start policy).trace moves n).Faithful) ↔
      ∀ n, ¬ Overtaken ((World.start policy).trace moves n) (moves n) := by
  constructor
  · intro hall n ho
    exact overtaken_move ho (hall (n + 1))
  · intro hnone n
    induction n with
    | zero => exact faithful_start policy
    | succ n ih =>
      have hr := reachable_trace policy moves n
      exact faithful_move hr.wf hr.dated ih (hnone n)

/-! ## A run in which a write is overtaken -/

/-- a path has a text that its file does not hold, with the date of the file -/
def World.hides (w : World) (p : Path) : Bool :=
  match w.entry? p, w.disk.file? p with
  | some e, some f => e.contents.any fun text => e.modified = f.modified && text ≠ Text.Utf8.decodeLossy f.bytes
  | _, _ => false

theorem not_faithful_of_hides {p : Path} (h : w.hides p = true) : ¬ w.Faithful := by
  intro hf
  unfold World.hides at h
  split at h
  · rename_i e f he hfile
    obtain ⟨text, ht, hx⟩ := (Option.any_eq_true _ _).1 h
    simp only [Bool.and_eq_true, decide_eq_true_eq] at hx
    exact hx.2 (hf p e f text he ht hfile hx.1)
  · cases h

/-- A watched file is written, and before the date is looked up somebody else puts another version in its place. -/
def overtaking : List Move :=
  let p : Path := ⟨"/a"⟩
  [Move.newSubscriber, .putFile p ⟨#[49]⟩, .call (.watch p ⟨1⟩)] ++ List.replicate 6 (Move.turn 1) ++
    [Move.call (.write p ⟨#[50]⟩)] ++ List.replicate 3 (Move.turn 3) ++ [Move.putFile p ⟨#[51]⟩, .turn 3]

/-- The other version is hidden by its own date. -/
theorem overtaken_write_hides_edit : ¬ ((World.start .allow).trace (along overtaking) 15).Faithful :=
  not_faithful_of_hides (p := ⟨"/a"⟩) (by decide +kernel)

end LiveFiles.Engine
