/-
The shape of what a subscriber is shown. The dates of the versions rise, and a file that goes missing is reported missing once.
- `ahead_move`: what a write has put in place is later than the contents of the entry (`World.Ahead`).
- `above_move`: nothing at a path falls behind a date that a subscriber has seen there: neither the contents of the entry nor,
  where there are none, the file, nor what an operation that has the lock is about to put into the entry (`World.Above`).
- `unseen_news`: what is committed there next is later, or it is that the file is missing, and the entry had contents before.
- **`rises_trace`**: so in every run the snapshot that a call to watch returns and the messages after it, as long as the
  subscriber is registered and listens, have rising dates, and no two in a row say that the file is missing (`Rises`).
-/
import LiveFiles.Proofs.Awareness
import LiveFiles.Proofs.ExternalDates

namespace LiveFiles

/-- the date of the version that a snapshot shows -/
def Snapshot.modified? (s : Snapshot) : Option Instant := s.version.map (·.modified)

theorem Snapshot.version_ofVersion (p : Path) (v : Option Version) : (Snapshot.ofVersion p v).version = v := by
  cases v <;> rfl

theorem Snapshot.wellFormed_ofVersion (p : Path) (v : Option Version) : (Snapshot.ofVersion p v).WellFormed := by
  cases v <;> simp [Snapshot.WellFormed, Snapshot.ofVersion, Snapshot.present, Snapshot.missing]

namespace Engine

variable {w : World} {m : Move} {k : Path.Key} {id : TaskId} {d : Instant} {e e' : Entry} {p : Path} {x y : Snapshot}
  {shown : List Snapshot}

/-! ## Rising dates -/

/-- The shape of what a subscriber is shown: no two snapshots in a row say that the file is missing, and the dates of the
versions, which the others show, rise, whatever is reported in between. -/
structure Rises (shown : List Snapshot) : Prop where
  formed : ∀ x ∈ shown, x.WellFormed
  once : shown.IsChain fun x y => ¬ (x.status = .missing ∧ y.status = .missing)
  dates : (shown.filterMap Snapshot.modified?).Pairwise fun a b => a.nanos < b.nanos

theorem rises_singleton (hx : x.WellFormed) : Rises [x] where
  formed y hy := by
    rw [List.mem_singleton.1 hy]
    exact hx
  once := .singleton x
  dates := by
    rw [List.filterMap_cons, List.filterMap_nil]
    split
    · exact .nil
    · exact List.pairwise_singleton _ _

/-- one more snapshot: later than all before, and not missing once more -/
theorem Rises.snoc (h : Rises shown) (hy : y.WellFormed)
    (honce : ∀ x ∈ shown.getLast?, ¬ (x.status = .missing ∧ y.status = .missing))
    (hdates : ∀ d ∈ shown.filterMap Snapshot.modified?, ∀ d' ∈ y.modified?, d.nanos < d'.nanos) : Rises (shown ++ [y]) where
  formed z hz := by
    rcases List.mem_append.1 hz with hz | hz
    · exact h.formed z hz
    · rw [List.mem_singleton.1 hz]
      exact hy
  once := by
    rw [List.isChain_append]
    refine ⟨h.once, .singleton y, fun x hx z hz => ?_⟩
    cases hz
    exact honce x hx
  dates := by
    rw [List.filterMap_append, List.pairwise_append]
    refine ⟨h.dates, (rises_singleton hy).dates, fun d hd d' hd' => hdates d hd d' ?_⟩
    obtain ⟨z, hz, hd'⟩ := List.mem_filterMap.1 hd'
    rw [List.mem_singleton.1 hz] at hd'
    exact hd'

/-! ## What a write has put in place -/

/-- where a write has put a file in place and has not ended, the file is later than the contents of the entry -/
def World.Ahead (w : World) : Prop :=
  ∀ id job c e, w.Saves id (.looking job c) → w.entries.get? job.path.key = some e → e.contents.isSome = true →
    w.disk.Beyond job.path.key e.modified

/-- a write after a move that has put its file in place had done so before, or does so in the move, with a new date -/
theorem placed_move (hw : Wf w) {job : SaveJob} {c : Call} (hx : (w.move m).Saves id (.looking job c)) :
    (∃ c', w.Saves id (.looking job c')) ∨
      (w.move m).disk.file? job.path = some ⟨job.bytes, Instant.ofMillis (w.disk.clock + 1)⟩ := by
  have hlive : (w.move m).tasks.phase? id ≠ none := by
    obtain ⟨ph, hph, -⟩ := hx
    rw [hph]
    simp
  rcases saves_move hw hx with hsame | ⟨job', hno⟩ | ⟨a, x₀, hcarry, hx₀, hnext⟩
  · exact Or.inl ⟨c, hsame⟩
  · cases hno
  · rcases looking_of_stepSave hnext with ⟨c', rfl⟩ | ⟨rfl, -⟩
    · exact Or.inl ⟨c', saves_of_carried hcarry hx₀⟩
    · cases Activity.eq_of_save hx₀
      exact Or.inr (file_of_written hcarry hw hlive).1

/-- a date that the clock has come up to is behind a file that is put in place -/
theorem beyond_of_placed (hd : d.nanos ≤ (Instant.ofMillis w.disk.clock).nanos) (hlater : w.disk.Later (w.move m).disk)
    {bytes : ByteArray} (hfile : (w.move m).disk.file? p = some ⟨bytes, Instant.ofMillis (w.disk.clock + 1)⟩) :
    (w.move m).disk.Beyond p.key d where
  clock := hd.trans (Disk.nanos_ofMillis_le hlater.clock)
  file f hf := by
    cases hfile.symm.trans hf
    exact hd.trans_lt (Disk.nanos_ofMillis_lt (Nat.lt_succ_self _))

theorem ahead_move (hw : Wf w) (hl : Locked w.core w.stakes) (hc : w.Chronological) (h : w.Ahead) (m : Move) :
    (w.move m).Ahead := by
  intro id job c e' hx he' hsome
  have hlater := (move_served hw m).choose_spec.disk
  cases he : w.entries.get? job.path.key with
  | none =>
    -- an entry that has just been made has no contents
    rw [show e'.contents = none from congrArg Known.contents (known_of_made hw he he')] at hsome
    cases hsome
  | some e =>
    have hknown := known_of_worksAt hw hl (worksAt_of_save hx rfl) he he'
    rw [show e'.modified = e.modified from congrArg Known.modified hknown]
    rcases placed_move hw hx with ⟨c', hx'⟩ | hfile
    · have hsome' : e.contents.isSome = true := by
        rw [show e.contents = e'.contents from (congrArg Known.contents hknown).symm]
        exact hsome
      exact (h id job c' e hx' he hsome').later hlater
    · exact beyond_of_placed (hc.entry _ e he).1.clock hlater hfile

theorem ahead_trace (policy : WritePolicy) (moves : Nat → Move) (n : Nat) : ((World.start policy).trace moves n).Ahead := by
  induction n with
  | zero => exact fun _ _ _ _ _ h => by cases h
  | succ n ih =>
    exact ahead_move (reachable_trace policy moves n).wf (locked_trace policy moves n) (chronological_trace policy moves n) ih
      (moves n)

/-! ## What has been seen stays behind -/

/-- Nothing at a path falls behind a date that has been seen there: the contents of the entry are as late, and later is the
file where there are no contents, the version that a reconciliation reads, and the file that a write has put in place. -/
structure World.Above (w : World) (k : Path.Key) (d : Instant) : Prop where
  clock : d.nanos ≤ (Instant.ofMillis w.disk.clock).nanos
  contents : ∀ e, w.entries.get? k = some e → e.contents.isSome = true → d.nanos ≤ e.modified.nanos
  bare : ∀ e, w.entries.get? k = some e → e.contents = none → w.disk.Beyond k d
  reading : ∀ id l date c, w.Refreshes id (.reading l date c) → l.path.key = k → d.nanos < date.nanos
  placed : ∀ id job c, w.Saves id (.looking job c) → job.path.key = k → w.disk.Beyond k d

/-- the date of the contents is one -/
theorem above_of_contents (hc : w.Chronological) (ha : w.Ahead) (haware : w.AwareAt k) (he : w.entries.get? k = some e)
    (hsome : e.contents.isSome = true) : w.Above k e.modified where
  clock := (hc.entry k e he).1.clock
  contents e₁ he₁ _ := by
    cases he.symm.trans he₁
    exact le_rfl
  bare e₁ he₁ hno := by
    cases he.symm.trans he₁
    rw [hno] at hsome
    cases hsome
  reading id l date c hr hk := by
    obtain ⟨hhad, hlast⟩ := haware id _ l e hr rfl hk he
    rw [hlast]
    exact (hc.reading id l date c hr).2 (hhad.symm.trans hsome)
  placed id job c hx hk := by
    subst hk
    exact ha id job c e hx he hsome

/-- contents that somebody has just put into the entry are later -/
theorem later_contents (hw : Wf w) (h : w.Above k d) (he' : (w.move m).entries.get? k = some e') (hsome : e'.contents.isSome = true)
    (hnew : ∀ e, w.entries.get? k = some e → e'.known ≠ e.known) : d.nanos < e'.modified.nanos := by
  have hno : e'.known ≠ .nothing := by
    intro hno
    rw [show e'.contents = none from congrArg Known.contents hno] at hsome
    cases hsome
  cases source_move hw he' with
  | kept e he hknown => exact absurd hknown (hnew e he)
  | created _ hknown => exact absurd hknown hno
  | missing _ hknown => exact absurd hknown hno
  | changed text date ho hknown =>
    obtain ⟨id, l, hr, hk⟩ := reading_of_changed ho
    rw [show e'.modified = date from congrArg Known.modified hknown]
    exact h.reading id l date .due hr hk
  | committed text date hc _ hdate =>
    obtain ⟨id, t, job, st, f, -, hs, -, hact, -, -, hf, hm, hk, -⟩ := hc.committed
    have hx : w.Saves id (.looking job .due) := ⟨t.phase, phase?_of_served hs, by rw [hact]; rfl⟩
    rw [hdate, ← hm]
    exact (h.placed id job .due hx hk).file f (hk ▸ hf)

/-- the version that a reconciliation takes up to read is later -/
theorem later_reading (hw : Wf w) (hc : w.Chronological) (haware : w.AwareAt k) (h : w.Above k d)
    (he : w.entries.get? k = some e) {l : Look} {date : Instant} {c : Call} (hr : (w.move m).Refreshes id (.reading l date c))
    (hk : l.path.key = k) : d.nanos < date.nanos := by
  rcases refreshes_move hw hr with hsame | hno | ⟨a, r₀, hcarry, hr₀, hnext⟩
  · exact h.reading id l date c hsame hk
  · cases hno
  · have hrefreshes := refreshes_of_carried hcarry hr₀
    cases onward_stepRefresh hnext with
    | reads _ st _ hst hnew =>
      rw [disk_floorTo] at hst
      obtain ⟨f, hf, hm⟩ := Disk.stat_eq_some hst
      obtain ⟨hhad, hlast⟩ := haware id _ l e hrefreshes rfl hk he
      subst hk
      rw [← hm]
      cases hcontents : e.contents with
      | none => exact (h.bare e he hcontents).file f hf
      | some text =>
        -- the file has a later date than the contents, or it would not be read
        have hsome : e.contents.isSome = true := by rw [hcontents]; rfl
        have hle : e.modified.nanos ≤ f.modified.nanos := (hc.entry _ e he).1.file f hf
        have hne : f.modified ≠ e.modified := by
          intro heq
          exact hnew ⟨hhad.symm.trans hsome, by rw [← hm, heq, hlast]⟩
        calc d.nanos ≤ e.modified.nanos := h.contents e he hsome
          _ < f.modified.nanos := lt_of_le_of_ne hle fun heq => hne (Instant.eq_of_nanos heq.symm)
    | reading _ _ g _ => exact h.reading id l date (.held g) hrefreshes hk

/-- **What has been seen at a path stays behind**, as long as the entry is there. -/
theorem above_move (hw : Wf w) (hc : w.Chronological) (haware : w.AwareAt k) (h : w.Above k d)
    (he : w.entries.get? k = some e) : (w.move m).Above k d := by
  have hlater := (move_served hw m).choose_spec.disk
  constructor
  case clock => exact h.clock.trans (Disk.nanos_ofMillis_le hlater.clock)
  case contents =>
    intro e' he' hsome
    by_cases hknown : e'.known = e.known
    · rw [show e'.modified = e.modified from congrArg Known.modified hknown]
      refine h.contents e he ?_
      rw [show e.contents = e'.contents from (congrArg Known.contents hknown).symm]
      exact hsome
    · refine (later_contents hw h he' hsome fun e₁ he₁ => ?_).le
      cases he.symm.trans he₁
      exact hknown
  case bare =>
    intro e' he' hno
    have hcontents : ∀ {text : String}, e'.contents ≠ some text := fun h => by cases hno.symm.trans h
    cases source_move hw he' with
    | kept e₁ he₁ hknown => exact (h.bare e₁ he₁ ((congrArg Known.contents hknown).symm.trans hno)).later hlater
    | created hm _ => cases he.symm.trans (absent_of_created hm)
    | missing hm _ =>
      -- there is no file, so that the next one will be later
      obtain ⟨id, t, r, l, -, -, -, -, hl, rfl, ho⟩ := hm.observed
      rcases Refresh.finding_cases hl ho with ⟨-, hst⟩ | ⟨hsame, -⟩ | ⟨_, _, hsame, -⟩
      · exact (Disk.beyond_of_absent (Disk.file?_of_stat hst) h.clock).later hlater
      · cases hsame
      · cases hsame
    | changed text date _ hknown => exact absurd (congrArg Known.contents hknown) hcontents
    | committed text date _ ht _ => exact absurd ht hcontents
  case reading =>
    intro id l date c hr hk
    exact later_reading hw hc haware h he hr hk
  case placed =>
    intro id job c hx hk
    rcases placed_move hw hx with ⟨c', hx'⟩ | hfile
    · exact (h.placed id job c' hx' hk).later hlater
    · rw [← hk]
      exact beyond_of_placed h.clock hlater hfile

/-! ## What is committed -/

/-- a reconciliation that ends with news has found a change -/
theorem finding_of_news {r : Refresh} (h : (w.stepRefresh r).2 = .ended (.ok true)) :
    ∃ l o, r.look? = some l ∧ l.path = r.path ∧ r.finding w.disk = some o ∧ o ≠ .unchanged := by
  have hfound : ∀ l o, r.look? = some l → l.path = r.path → r.finding w.disk = some o →
      ∃ l o, r.look? = some l ∧ l.path = r.path ∧ r.finding w.disk = some o ∧ o ≠ .unchanged := by
    intro l o hl hp ho
    refine ⟨l, o, hl, hp, ho, ?_⟩
    rintro rfl
    rw [stepRefresh_of_finding hl ho, conclude_unchanged] at h
    cases h
  cases r with
  | queued p q τ =>
    simp only [World.stepRefresh] at h
    split at h
    · exact absurd h (front_enterRefresh w p q τ).2
    · cases h
  | looking l c =>
    cases c with
    | held g => exact absurd h (atGate_ne_ended _ _ _ _)
    | due =>
      simp only [World.stepRefresh, World.haveLooked] at h
      split at h
      · cases h
      · rename_i hst
        exact hfound l (.absent l.had) rfl rfl (by simp only [Refresh.finding, hst])
      · split at h
        · rw [conclude_unchanged] at h
          cases h
        · exact absurd h (beginCall_ne_ended _ _ _ _ _)
  | reading l date c =>
    cases c with
    | held g => exact absurd h (atGate_ne_ended _ _ _ _)
    | due =>
      simp only [World.stepRefresh, World.haveRead] at h
      split at h
      · rename_i text hread
        exact hfound l (.changed text date) rfl rfl (by simp only [Refresh.finding, hread])
      · exact absurd h (beginCall_ne_ended _ _ _ _ _)
  | lookingAgain l f c =>
    cases c with
    | held g => exact absurd h (atGate_ne_ended _ _ _ _)
    | due =>
      simp only [World.stepRefresh, World.haveLookedAgain] at h
      split at h
      · cases h
      · rename_i hst
        exact hfound l (.absent l.had) rfl rfl (by simp only [Refresh.finding, hst])
      · cases h

/-- **What is committed where there is an entry**: a change that a reconciliation has found, or what a write has put in place. -/
theorem committed_cases (h : w.committed? m = some p) (he : w.entries.get? p.key = some e) :
    (∃ o, o ≠ .unchanged ∧ Reconciles w m p.key o) ∨
      ∃ i job st, w.carried? m = some (i, .saving (.looking job .due)) ∧ job.path = p ∧
        w.disk.stat job.path = .ok (some st) := by
  cases m with
  | turn i =>
    obtain ⟨t, hs, hcommit⟩ := Option.bind_eq_some_iff.1 h
    split at hcommit
    · cases hcommit
    · rename_i hc
      have hc := Bool.eq_false_iff.2 hc
      have hcarry := carried?_of_served hs hc
      have hrefresh : ∀ r, t.phase.activity.refresh? = some r → (if r.commits (floorTo w i) then some r.path else none) = some p →
          ∃ o, o ≠ .unchanged ∧ Reconciles w (.turn i) p.key o := by
        intro r hr hcommit
        split at hcommit
        · rename_i hnews
          cases hcommit
          obtain ⟨l, o, hl, hp, ho, hne⟩ := finding_of_news (Refresh.commits_iff.1 hnews)
          rw [disk_floorTo] at ho
          exact ⟨o, hne, i, _, r, l, hcarry, hr, hl, congrArg Path.key hp, ho, contains_of_get? he⟩
        · cases hcommit
      cases hact : t.phase.activity with
      | refreshing r =>
        rw [hact] at hcommit
        exact Or.inl (hrefresh r (by rw [hact]; rfl) hcommit)
      | synchronizing seat r =>
        rw [hact] at hcommit
        exact Or.inl (hrefresh r (by rw [hact]; rfl) hcommit)
      | saving x =>
        rw [hact] at hcommit hcarry
        simp only [World.commits?] at hcommit
        split at hcommit
        · rename_i hok
          cases hcommit
          obtain ⟨job, st, rfl, hst⟩ := looking_of_returned (Save.commits_iff.1 hok)
          rw [disk_floorTo] at hst
          exact Or.inr ⟨i, job, st, hcarry, rfl, hst⟩
        · cases hcommit
      | _ =>
        rw [hact] at hcommit
        cases hcommit
  | _ => cases h

/-- **What is committed is later than all that has been seen**, or it is that the file is missing, which the entry did not say
before. -/
theorem unseen_news (haware : w.AwareAt p.key) (he : w.entries.get? p.key = some e) (h : w.news p m = some y) :
    ∃ q e', y = .ofVersion q e'.version? ∧ (w.move m).entries.get? p.key = some e' ∧
      (e.contents.isSome = true ∧ e'.contents = none ∨
        e'.contents.isSome = true ∧ ∀ d, w.Above p.key d → d.nanos < e'.modified.nanos) := by
  obtain ⟨q, hq, hsnap⟩ := Option.bind_eq_some_iff.1 h
  obtain ⟨hcommit, hsame⟩ := Option.filter_eq_some_iff.1 hq
  have hkey : q.key = p.key := by simpa [Path.same] using hsame
  obtain ⟨e', he', rfl⟩ := Option.map_eq_some_iff.1 hsnap
  rw [← hkey] at haware he ⊢
  refine ⟨q, e', snapshot_eq_ofVersion e' q, he', ?_⟩
  rcases committed_cases hcommit he with ⟨o, hne, hrec⟩ | ⟨i, job, st, hcarry, rfl, hst⟩
  · obtain ⟨e₁, he₁, hafter⟩ := hrec.entry
    cases he.symm.trans he₁
    cases he'.symm.trans hafter
    obtain ⟨i, a, r, l, hcarry, hr, hl, hk, ho, -⟩ := hrec
    rcases Refresh.finding_cases hl ho with ⟨rfl, -⟩ | ⟨rfl, -⟩ | ⟨text, date, rfl, rfl, -⟩
    · -- that there is no file is news only if there were contents
      cases hhad : l.had with
      | false => exact absurd (by rw [hhad]; rfl) hne
      | true =>
        refine Or.inl ⟨?_, rfl⟩
        exact (haware i r l e (refreshes_of_carried hcarry hr) hl hk he).1.trans hhad
    · exact absurd rfl hne
    · exact Or.inr ⟨rfl, fun d hd => hd.reading i l date .due (refreshes_of_carried hcarry hr) hk⟩
  · obtain ⟨t, rfl, hs, hc, hact⟩ := carried?_eq_some.1 hcarry
    obtain ⟨-, e₁, he₁, htext, hdate⟩ := entry_of_written hs hc hact he hst
    cases he'.symm.trans he₁
    obtain ⟨f, hf, hm⟩ := Disk.stat_eq_some hst
    refine Or.inr ⟨by rw [htext]; rfl, fun d hd => ?_⟩
    rw [hdate, ← hm]
    exact (hd.placed i job .due (saves_of_carried hcarry rfl) rfl).file f hf

/-! ## What a subscriber is shown -/

/-- how things stand with the dates at a path -/
structure World.Dated (w : World) (k : Path.Key) : Prop where
  chronological : w.Chronological
  ahead : w.Ahead
  aware : w.AwareAt k

/-- What has been shown of a path up to a state: it rises, the last of it is what the entry says, and nothing at the path falls
behind it. -/
structure World.Showed (w : World) (p : Path) (shown : List Snapshot) : Prop where
  rises : Rises shown
  last : ∃ x e, shown.getLast? = some x ∧ w.entries.get? p.key = some e ∧ x.version = e.version?
  behind : ∀ d ∈ shown.filterMap Snapshot.modified?, w.Above p.key d

/-- the date that a snapshot of an entry shows -/
theorem contents_of_modified (hx : x.version = e.version?) (hd : x.modified? = some d) :
    e.contents.isSome = true ∧ e.modified = d := by
  rw [Snapshot.modified?, hx, Entry.version?] at hd
  cases hcontents : e.contents with
  | none =>
    rw [hcontents] at hd
    cases hd
  | some text =>
    rw [hcontents] at hd
    exact ⟨rfl, Option.some.inj hd⟩

theorem missing_iff (hformed : x.WellFormed) (hx : x.version = e.version?) : x.status = .missing ↔ e.contents = none := by
  rw [Snapshot.WellFormed, hx, Entry.version?, Option.isSome_map] at hformed
  cases hs : x.status <;> cases hcontents : e.contents <;> simp [hs, hcontents] at hformed ⊢

/-- the first snapshot -/
theorem showed_first (ho : w.Dated p.key) (h : w.snapshot? p = some x) : w.Showed p [x] := by
  obtain ⟨e, he, rfl⟩ := Option.map_eq_some_iff.1 h
  have hversion : (e.snapshot p).version = e.version? := by rw [snapshot_eq_ofVersion, Snapshot.version_ofVersion]
  refine ⟨rises_singleton (by rw [snapshot_eq_ofVersion]; exact Snapshot.wellFormed_ofVersion p _),
    ⟨_, e, rfl, he, hversion⟩, fun d hd => ?_⟩
  obtain ⟨z, hz, hd⟩ := List.mem_filterMap.1 hd
  rw [List.mem_singleton.1 hz] at hd
  obtain ⟨hsome, rfl⟩ := contents_of_modified hversion hd
  exact above_of_contents ho.chronological ho.ahead ho.aware he hsome

/-- **One move more**: what it commits at the path is shown, and where it commits nothing there, the snapshot of the path stays
as it is. -/
theorem World.Showed.move (hw : Wf w) (ho : w.Dated p.key) (ho' : (w.move m).Dated p.key)
    (hstill : w.news p m = none → (w.move m).snapshot? p = w.snapshot? p) (h : w.Showed p shown) :
    (w.move m).Showed p (shown ++ (w.news p m).toList) := by
  obtain ⟨x, e, hlast, he, hx⟩ := h.last
  have hbehind : ∀ d ∈ shown.filterMap Snapshot.modified?, (w.move m).Above p.key d := fun d hd =>
    above_move hw ho.chronological ho.aware (h.behind d hd) he
  cases hnews : w.news p m with
  | none =>
    rw [Option.toList_none, List.append_nil]
    have hsame := hstill hnews
    rw [show w.snapshot? p = some (e.snapshot p) from congrArg (Option.map _) he] at hsame
    obtain ⟨e', he', hsnap⟩ := Option.map_eq_some_iff.1 hsame
    rw [snapshot_eq_ofVersion, snapshot_eq_ofVersion] at hsnap
    have hversion := congrArg Snapshot.version hsnap
    rw [Snapshot.version_ofVersion, Snapshot.version_ofVersion] at hversion
    exact ⟨h.rises, ⟨x, e', hlast, he', hx.trans hversion.symm⟩, hbehind⟩
  | some y =>
    obtain ⟨q, e', rfl, he', hcases⟩ := unseen_news ho.aware he hnews
    have hy : (Snapshot.ofVersion q e'.version?).version = e'.version? := Snapshot.version_ofVersion q _
    have hformed := Snapshot.wellFormed_ofVersion q e'.version?
    rw [Option.toList_some]
    refine ⟨h.rises.snoc hformed ?_ ?_, ⟨_, e', List.getLast?_concat, he', hy⟩, ?_⟩
    · -- that the file is missing has not been shown just before
      rintro x' hx' ⟨hmissing, hmissing'⟩
      cases hlast.symm.trans hx'
      have hno := (missing_iff (h.rises.formed x (List.mem_of_getLast? hlast)) hx).1 hmissing
      have hno' := (missing_iff hformed hy).1 hmissing'
      rcases hcases with ⟨hsome, -⟩ | ⟨hsome, -⟩
      · rw [hno] at hsome
        cases hsome
      · rw [hno'] at hsome
        cases hsome
    · intro d hd d' hd'
      obtain ⟨hsome, rfl⟩ := contents_of_modified hy hd'
      rcases hcases with ⟨-, hno⟩ | ⟨-, hlater⟩
      · rw [hno] at hsome
        cases hsome
      · exact hlater d (h.behind d hd)
    · intro d hd
      rw [List.filterMap_append] at hd
      rcases List.mem_append.1 hd with hd | hd
      · exact hbehind d hd
      · obtain ⟨z, hz, hd⟩ := List.mem_filterMap.1 hd
        rw [List.mem_singleton.1 hz] at hd
        obtain ⟨hsome, rfl⟩ := contents_of_modified hy hd
        exact above_of_contents ho'.chronological ho'.ahead ho'.aware he' hsome

section Run

variable {policy : WritePolicy} {moves : Nat → Move} {r n : Nat} {id : SubscriberId}

theorem dated_trace (hreg : ((World.start policy).trace moves n).isRegistered p id = true) :
    ((World.start policy).trace moves n).Dated p.key := by
  obtain ⟨e, he, hin⟩ := (Option.any_eq_true _ _).1 hreg
  exact ⟨chronological_trace policy moves n, ahead_trace policy moves n, informed_trace policy moves n p.key e id he hin⟩

/-- **The history of a path rises** from what a call to watch has returned on. -/
theorem showed_trace (hx : Answers ((World.start policy).trace moves r) (moves r) id x) (hn : r < n)
    (hreg : ∀ l, r < l → l ≤ n → ((World.start policy).trace moves l).isRegistered x.path id = true)
    (hopen : ∀ l, r < l → l ≤ n → ((World.start policy).trace moves l).listens id = true) :
    ∃ messages, (World.start policy).history moves x.path n = (World.start policy).history moves x.path (r + 1) ++ messages ∧
      ((World.start policy).trace moves n).Showed x.path (x :: messages) := by
  have hfollows := hx.follows hn hreg hopen
  -- induction on how far the run has come since the answer
  have hrun : ∀ d, r + 1 + d ≤ n → ∃ messages, (World.start policy).history moves x.path (r + 1 + d) =
      (World.start policy).history moves x.path (r + 1) ++ messages ∧
        ((World.start policy).trace moves (r + 1 + d)).Showed x.path (x :: messages) := by
    intro d hd
    induction d with
    | zero => exact ⟨[], (List.append_nil _).symm, showed_first (dated_trace (hreg (r + 1) (by omega) hd)) hfollows.shown⟩
    | succ d ih =>
      obtain ⟨messages, hhistory, hshowed⟩ := ih (by omega)
      have hmove := hshowed.move (m := moves (r + 1 + d)) (reachable_trace policy moves (r + 1 + d)).wf
        (dated_trace (hreg (r + 1 + d) (by omega) (by omega))) (dated_trace (hreg (r + 1 + (d + 1)) (by omega) hd))
        (hfollows.still (r + 1 + d) (by omega) (by omega))
      refine ⟨messages ++ (((World.start policy).trace moves (r + 1 + d)).news x.path (moves (r + 1 + d))).toList, ?_, hmove⟩
      rw [← List.append_assoc, ← hhistory]
      rfl
  obtain ⟨d, rfl⟩ : ∃ d, n = r + 1 + d := ⟨n - (r + 1), by omega⟩
  exact hrun d le_rfl

/-- **What a subscriber is shown rises**, in every run: the snapshot that its call to watch returns, and then the messages about
the path that it is given, for as long as it is registered and listens. -/
theorem rises_trace (hx : Answers ((World.start policy).trace moves r) (moves r) id x) (hn : r < n)
    (hreg : ∀ l, r < l → l ≤ n → ((World.start policy).trace moves l).isRegistered x.path id = true)
    (hopen : ∀ l, r < l → l ≤ n → ((World.start policy).trace moves l).listens id = true) :
    ∃ messages, (World.start policy).given moves id n = (World.start policy).given moves id (r + 1) ++ messages ∧
      Rises (x :: messages.filter (·.path.same x.path)) := by
  obtain ⟨messages, hgiven, hhistory, -⟩ := (hx.follows hn hreg hopen).given
  obtain ⟨shown, hshown, hshowed⟩ := showed_trace hx hn hreg hopen
  refine ⟨messages, hgiven, ?_⟩
  rw [List.append_cancel_left (hhistory.symm.trans hshown)]
  exact hshowed.rises

end Run

/-- A subscriber watches a file, which is then deleted, made anew, touched and written through the engine. -/
def reappearing : List Move :=
  let p : Path := ⟨"/a"⟩
  [Move.newSubscriber, .putFile p ⟨#[49]⟩, .call (.watch p ⟨1⟩)] ++ List.replicate 6 (Move.turn 1) ++
    [Move.removeFile p, .call (.reconcile p)] ++ List.replicate 4 (Move.turn 3) ++
    [Move.putFile p ⟨#[50]⟩, .call (.reconcile p)] ++ List.replicate 4 (Move.turn 4) ++
    [Move.touch p, .call (.write p ⟨#[51]⟩)] ++ List.replicate 4 (Move.turn 5)

/-- what its call to watch returns in the ninth move -/
def firstShown : Snapshot := .present ⟨"/a"⟩ ⟨"1", .ofMillis 1001, .ofMillis 1001⟩

/-- it is shown that the file is missing, and then two later versions -/
theorem rises_trace_reappearing :
    (Answers ((World.start .allow).trace (along reappearing) 8) (along reappearing 8) ⟨1⟩ firstShown ∧
      (∀ l, 8 < l → l ≤ 27 → ((World.start .allow).trace (along reappearing) l).isRegistered firstShown.path ⟨1⟩ = true) ∧
      ∀ l, 8 < l → l ≤ 27 → ((World.start .allow).trace (along reappearing) l).listens ⟨1⟩ = true) ∧
    ((World.start .allow).given (along reappearing) ⟨1⟩ 27).map Snapshot.modified? =
      [none, some (.ofMillis 1002), some (.ofMillis 1004)] ∧
    ∃ messages, (World.start .allow).given (along reappearing) ⟨1⟩ 27 =
      (World.start .allow).given (along reappearing) ⟨1⟩ 9 ++ messages ∧
      Rises (firstShown :: messages.filter (·.path.same firstShown.path)) := by
  have hcaller : (((World.start .allow).trace (along reappearing) 8).served? 1).map
      (fun t => t.phase.activity.subscriber?) = some (some ⟨1⟩) := by decide +kernel
  obtain ⟨t, hserved, hid⟩ := Option.map_eq_some_iff.1 hcaller
  have hanswers : Answers ((World.start .allow).trace (along reappearing) 8) (along reappearing 8) ⟨1⟩ firstShown :=
    ⟨by decide +kernel, 1, t, rfl, hserved, hid⟩
  have hreg : ∀ l, l ≤ 27 → 8 < l →
      ((World.start .allow).trace (along reappearing) l).isRegistered firstShown.path ⟨1⟩ = true := by decide +kernel
  have hopen : ∀ l, l ≤ 27 → 8 < l → ((World.start .allow).trace (along reappearing) l).listens ⟨1⟩ = true := by
    decide +kernel
  exact ⟨⟨hanswers, fun l h h' => hreg l h' h, fun l h h' => hopen l h' h⟩, by decide +kernel,
    rises_trace hanswers (by decide) (fun l h h' => hreg l h' h) fun l h h' => hopen l h' h⟩

end Engine

end LiveFiles
