/-
The date of the last change from outside. A reconciliation that puts a change into an entry sets it, with the date of the
file; one that finds no file resets it, and the entry begins with the epoch. Nothing else touches it: a write takes the date of
its own file into the entry beside it.
- `Records w m k date`: what a move makes of it, and `Recorded w moves k n date`: what the latest such move has made of it.
- `records_or_kept`: in one move it is recorded or stays as it is.
- **`external_dates_trace`**: in every run it is the date that is recorded, it is that of the contents when a reconciliation
  puts them there, the epoch where there are none, and never later than the date of the contents (`RecordsOutside`).
-/
import LiveFiles.Proofs.Chronology

namespace LiveFiles.Engine

/-! ## What is recorded -/

/-- In this move a reconciliation ends with an observation that goes into the entry of its path. -/
def Reconciles (w : World) (m : Move) (k : Path.Key) (o : Observation) : Prop :=
  ∃ id a r l, w.carried? m = some (id, a) ∧ a.refresh? = some r ∧ r.look? = some l ∧ l.path.key = k ∧
    r.finding w.disk = some o ∧ w.entries.contains k = true

/-- an entry is made in this move -/
def Makes (w : World) (m : Move) (k : Path.Key) : Prop :=
  w.entries.contains k = false ∧ (w.move m).entries.contains k = true

/-- What a move records as the date of the last change from outside: the date of a change that a reconciliation has found, or
the epoch when it has found no file or the entry is new. -/
inductive Records (w : World) (m : Move) (k : Path.Key) : Instant → Prop
  | changed (text : String) (date : Instant) (h : Reconciles w m k (.changed text date)) : Records w m k date
  | missing (h : Reconciles w m k .missing) : Records w m k .epoch
  | made (h : Makes w m k) : Records w m k .epoch

/-- from one state to another the entry of a path is there, and no reconciliation commits a change to it -/
structure Quiet (w : World) (moves : Nat → Move) (k : Path.Key) (i j : Nat) : Prop where
  tracked : ∀ l, i ≤ l → l ≤ j → (w.trace moves l).entries.contains k = true
  unchanged : ∀ l o, i ≤ l → l < j → Reconciles (w.trace moves l) (moves l) k o → o = .unchanged

/-- the date that the latest of the first `n` moves to record one has recorded -/
def Recorded (w : World) (moves : Nat → Move) (k : Path.Key) (n : Nat) (date : Instant) : Prop :=
  ∃ c, c < n ∧ Records (w.trace moves c) (moves c) k date ∧ Quiet w moves k (c + 1) n

/-- a task is about to request a write, or has requested one -/
def World.Writing (w : World) (id : TaskId) : Prop :=
  (∃ x, w.Saves id x) ∨ ∃ ph p bytes, w.tasks.phase? id = some ph ∧ ph.activity = .starting (.write p bytes)

/-- The law of the date of the last change from outside. -/
structure RecordsOutside (w : World) (moves : Nat → Move) : Prop where
  /-- it is the date that has been recorded last, since the entry was made or its file was found missing -/
  recorded : ∀ n k e date, (w.trace moves n).entries.get? k = some e → (Recorded w moves k n date ↔ date = e.external)
  /-- a date is recorded with the contents that go with it, and is the date of both -/
  changed : ∀ n k text date, Reconciles (w.trace moves n) (moves n) k (.changed text date) →
    ∃ e, (w.trace moves (n + 1)).entries.get? k = some e ∧ e.known = ⟨some text, date, date⟩
  /-- it is the date that the reconciliation has found when it looked at the file -/
  found : ∀ n k text date, Reconciles (w.trace moves n) (moves n) k (.changed text date) →
    ∃ i id a l st, i < n ∧ (w.trace moves i).carried? (moves i) = some (id, a) ∧ a.refresh? = some (.looking l .due) ∧
      l.path.key = k ∧ (w.trace moves i).disk.stat l.path = .ok (some st) ∧ st.modified = date
  /-- where no reconciliation commits a change, it stays as it is -/
  quiet : ∀ i j k e e', i ≤ j → Quiet w moves k i j → (w.trace moves i).entries.get? k = some e →
    (w.trace moves j).entries.get? k = some e' → e'.external = e.external
  /-- writes, whether they go on, succeed, fail or are abandoned, are not reconciliations -/
  writes : ∀ n id k o, (w.trace moves n).Writing id → ¬ Reconciles (w.trace moves n) (.turn id) k o
  /-- where there are no contents there are no dates -/
  absent : ∀ n k e, (w.trace moves n).entries.get? k = some e → e.contents = none →
    e.modified = .epoch ∧ e.external = .epoch
  ordered : ∀ n k e, (w.trace moves n).entries.get? k = some e → e.external.nanos ≤ e.modified.nanos

variable {w : World} {m : Move} {k : Path.Key} {o o' : Observation} {date date' : Instant} {e e' : Entry} {id : TaskId}

/-! ## In one move -/

theorem Ruling.absent {d d' : Docket} {t : Turns} {a : Activity} {next : Option Activity} (h : Ruling d t a d' next none)
    (hk : d.pending? k = none) : d'.pending? k = none := by
  have hput : ∀ {k' : Path.Key} {x : Option (Option QueryId)}, k ≠ k' ∨ x = none → (d.put k' x).pending? k = none := by
    intro k' x hx
    rw [Docket.pending?_put]
    split
    · rename_i heq
      exact hx.resolve_left fun hne => hne heq
    · exact hk
  cases h with
  | same hd => rwa [hd]
  | enter p q τ l c ha hτ hp hd =>
    rw [hd]
    refine hput (Or.inl ?_)
    rintro rfl
    cases hk.symm.trans hp
  | vacate p hp hd =>
    rw [hd]
    exact hput (Or.inr rfl)
  | clear hd => rw [hd]

/-- a section of a reconciliation makes no entries -/
theorem absent_of_refresh (hw : Wf w) {t : Task Phase} {r : Refresh} (hs : w.served? id = some t) (hc : t.cancelled = false)
    (hr : t.phase.activity.refresh? = some r) (hno : w.entries.get? k = none) : (serve w id).entries.get? k = none := by
  have hrule := ruling_serve hw hs hc
  have hrequests : (floorTo w id).requests? t.phase.activity = none := by
    cases ha : t.phase.activity <;> rw [ha] at hr <;> cases hr <;> rfl
  rw [hrequests] at hrule
  exact Option.map_eq_none_iff.1 (hrule.absent (Option.map_eq_none_iff.2 hno))

theorem Reconciles.unique (h : Reconciles w m k o) (h' : Reconciles w m k o') : o = o' := by
  obtain ⟨id, a, r, l, hcarry, hr, -, -, ho, -⟩ := h
  obtain ⟨id', a', r', l', hcarry', hr', -, -, ho', -⟩ := h'
  cases hcarry.symm.trans hcarry'
  cases hr.symm.trans hr'
  exact Option.some.inj (ho.symm.trans ho')

/-- **What a reconciliation ends with is in the entry afterwards.** -/
theorem Reconciles.entry (h : Reconciles w m k o) : ∃ e, w.entries.get? k = some e ∧
    (w.move m).entries.get? k = some (Entry.commit { e with runningSignal := none } o).1 := by
  obtain ⟨id, a, r, l, hcarry, hr, hl, rfl, ho, htracked⟩ := h
  obtain ⟨t, rfl, hs, hc, rfl⟩ := carried?_eq_some.1 hcarry
  obtain ⟨e, he⟩ := get?_of_contains htracked
  exact ⟨e, he, entry_of_observed hs hc hr hl ho he⟩

theorem reconciles_of_marks (h : Marks w m (.observed k o)) (htracked : w.entries.contains k = true) :
    Reconciles w m k o := by
  obtain ⟨id, t, r, l, rfl, hs, hc, hr, hl, hk, ho⟩ := h.observed
  exact ⟨id, _, r, l, carried?_of_served hs hc, hr, hl, hk, ho, htracked⟩

/-- an entry that has just been made says nothing of the file -/
theorem known_of_made (hw : Wf w) (hno : w.entries.get? k = none) (he' : (w.move m).entries.get? k = some e') :
    e'.known = .nothing := by
  cases source_move hw he' with
  | kept e he => cases hno.symm.trans he
  | created _ h => exact h
  | missing _ h => exact h
  | changed text date ho =>
    obtain ⟨id, t, r, l, rfl, hs, hc, hr, -⟩ := ho.observed
    cases (absent_of_refresh hw hs hc hr hno).symm.trans he'
  | committed text date hc =>
    obtain ⟨_, _, job, _, _, -, -, -, -, htracked, -, -, -, rfl, -⟩ := hc.committed
    obtain ⟨e, he⟩ := Option.isSome_iff_exists.1 htracked
    cases hno.symm.trans he

theorem Records.unique (h : Records w m k date) (h' : Records w m k date') : date = date' := by
  have hmade : ∀ {o}, Makes w m k → ¬ Reconciles w m k o := by
    intro o hmade hrec
    obtain ⟨_, _, _, _, -, -, -, -, -, htracked⟩ := hrec
    cases hmade.1.symm.trans htracked
  cases h with
  | changed text _ h =>
    cases h' with
    | changed text' _ h' =>
      cases h.unique h'
      rfl
    | missing h' => cases h.unique h'
    | made h' => exact absurd h (hmade h')
  | missing h =>
    cases h' with
    | changed text' _ h' => cases h.unique h'
    | missing h' => rfl
    | made h' => rfl
  | made h =>
    cases h' with
    | changed text' _ h' => exact absurd h' (hmade h)
    | missing h' => rfl
    | made h' => rfl

/-- **In one move the date is recorded, or stays as it is.** -/
theorem records_or_kept (hw : Wf w) (he' : (w.move m).entries.get? k = some e') :
    Records w m k e'.external ∨
      (∀ o, Reconciles w m k o → o = .unchanged) ∧ ∃ e, w.entries.get? k = some e ∧ e'.external = e.external := by
  cases he : w.entries.get? k with
  | none =>
    left
    rw [show e'.external = .epoch from congrArg Known.external (known_of_made hw he he')]
    exact .made ⟨Table.contains_eq_false_iff.2 he, contains_of_get? he'⟩
  | some e =>
    by_cases hrec : ∃ o, Reconciles w m k o
    · obtain ⟨o, ho⟩ := hrec
      obtain ⟨e₁, he₁, hafter⟩ := ho.entry
      cases he'.symm.trans hafter
      cases o with
      | unchanged =>
        refine Or.inr ⟨fun o' ho' => ho'.unique ho, e₁, ?_, rfl⟩
        exact he.symm.trans he₁
      | missing => exact Or.inl (.missing ho)
      | changed text date => exact Or.inl (.changed text date ho)
    · have htracked := contains_of_get? he
      refine Or.inr ⟨fun o ho => absurd ⟨o, ho⟩ hrec, e, rfl, ?_⟩
      cases externalSource_move hw he' with
      | kept e₁ he₁ h =>
        cases he.symm.trans he₁
        exact h
      | created hE _ => cases he.symm.trans (absent_of_created hE)
      | missing hE _ => exact absurd ⟨_, reconciles_of_marks hE htracked⟩ hrec
      | changed text date hE _ => exact absurd ⟨_, reconciles_of_marks hE htracked⟩ hrec

/-! ## Along a run -/

section Trace

variable {policy : WritePolicy} {moves : Nat → Move} {n i j c : Nat}

theorem Quiet.now (h : (w.trace moves n).entries.contains k = true) : Quiet w moves k n n where
  tracked l hl hln := by
    cases Nat.le_antisymm hln hl
    exact h
  unchanged l o hl hln := absurd (hl.trans_lt hln) (lt_irrefl _)

theorem Quiet.succ (h : Quiet w moves k i n) (htracked : (w.trace moves (n + 1)).entries.contains k = true)
    (hno : ∀ o, Reconciles (w.trace moves n) (moves n) k o → o = .unchanged) : Quiet w moves k i (n + 1) where
  tracked l hl hln := by
    rcases Nat.lt_or_eq_of_le hln with hln | rfl
    · exact h.tracked l hl (Nat.le_of_lt_succ hln)
    · exact htracked
  unchanged l o hl hln ho := by
    rcases Nat.lt_succ_iff_lt_or_eq.1 hln with hln | rfl
    · exact h.unchanged l o hl hln ho
    · exact hno o ho

/-- nothing is recorded while a path is quiet -/
theorem Quiet.records (h : Quiet w moves k i j) (hi : i ≤ c) (hj : c < j) : ¬ Records (w.trace moves c) (moves c) k date := by
  intro hrec
  cases hrec with
  | changed text _ ho => cases h.unchanged c _ hi hj ho
  | missing ho => cases h.unchanged c _ hi hj ho
  | made hm => cases hm.1.symm.trans (h.tracked c hi hj.le)

/-- there is one date that has been recorded last -/
theorem Recorded.unique (h : Recorded w moves k n date) (h' : Recorded w moves k n date') : date = date' := by
  obtain ⟨c, hc, hrec, hquiet⟩ := h
  obtain ⟨c', hc', hrec', hquiet'⟩ := h'
  rcases lt_trichotomy c c' with hlt | rfl | hlt
  · exact absurd hrec' (hquiet.records hlt hc')
  · exact hrec.unique hrec'
  · exact absurd hrec (hquiet'.records hlt hc)

theorem recorded_trace (he : ((World.start policy).trace moves n).entries.get? k = some e) :
    Recorded (World.start policy) moves k n e.external := by
  induction n generalizing e with
  | zero => cases he
  | succ n ih =>
    have htracked := contains_of_get? he
    rcases records_or_kept (reachable_trace policy moves n).wf he with hrec | ⟨hno, e₀, he₀, hkept⟩
    · exact ⟨n, Nat.lt_succ_self n, hrec, .now htracked⟩
    · obtain ⟨c, hc, hrec, hquiet⟩ := ih he₀
      rw [hkept]
      exact ⟨c, Nat.lt_succ_of_lt hc, hrec, hquiet.succ htracked hno⟩

theorem quiet_trace (hij : i ≤ j) (h : Quiet (World.start policy) moves k i j)
    (he : ((World.start policy).trace moves i).entries.get? k = some e)
    (he' : ((World.start policy).trace moves j).entries.get? k = some e') : e'.external = e.external := by
  induction j, hij using Nat.le_induction generalizing e' with
  | base =>
    cases he.symm.trans he'
    rfl
  | succ j hij ih =>
    rcases records_or_kept (reachable_trace policy moves j).wf he' with hrec | ⟨-, e₀, he₀, hkept⟩
    · exact absurd hrec (h.records hij (Nat.lt_succ_self j))
    · have hbefore : Quiet (World.start policy) moves k i j :=
        ⟨fun l hl hlj => h.tracked l hl (hlj.trans (Nat.le_succ j)), fun l o hl hlj => h.unchanged l o hl (Nat.lt_succ_of_lt hlj)⟩
      rw [hkept]
      exact ih hbefore he₀

/-- a reconciliation that reads a file has looked at its date before -/
theorem looked_trace {l : Look} {call : Call} (h : ((World.start policy).trace moves n).Refreshes id (.reading l date call)) :
    ∃ i a st, i < n ∧ ((World.start policy).trace moves i).carried? (moves i) = some (id, a) ∧
      a.refresh? = some (.looking l .due) ∧ ((World.start policy).trace moves i).disk.stat l.path = .ok (some st) ∧
      st.modified = date := by
  induction n generalizing call with
  | zero =>
    obtain ⟨ph, hph, -⟩ := h
    cases hph
  | succ n ih =>
    have hbefore : ∀ {call'}, ((World.start policy).trace moves n).Refreshes id (.reading l date call') → ∃ i a st, i < n + 1 ∧
        ((World.start policy).trace moves i).carried? (moves i) = some (id, a) ∧ a.refresh? = some (.looking l .due) ∧
        ((World.start policy).trace moves i).disk.stat l.path = .ok (some st) ∧ st.modified = date := by
      intro call' hreads
      obtain ⟨i, a, st, hi, hlooked⟩ := ih hreads
      exact ⟨i, a, st, Nat.lt_succ_of_lt hi, hlooked⟩
    rcases refreshes_move (reachable_trace policy moves n).wf h with hsame | hno | ⟨a, r₀, ha, hr₀, hnext⟩
    · exact hbefore hsame
    · cases hno
    · cases onward_stepRefresh hnext with
      | reads _ st c hst _ =>
        rw [disk_floorTo] at hst
        exact ⟨n, a, st, Nat.lt_succ_self n, ha, hr₀, hst, rfl⟩
      | reading _ _ g c => exact hbefore (refreshes_of_carried ha hr₀)

/-- **The date of the last change from outside is the one that has been recorded last**, in every run. -/
theorem external_dates_trace (policy : WritePolicy) (moves : Nat → Move) : RecordsOutside (World.start policy) moves where
  recorded n k e date he := by
    constructor
    · intro hrec
      exact hrec.unique (recorded_trace he)
    · rintro rfl
      exact recorded_trace he
  changed n k text date hrec := by
    obtain ⟨e, -, hafter⟩ := hrec.entry
    exact ⟨_, hafter, rfl⟩
  found n k text date hrec := by
    obtain ⟨id, a, r, l, hcarry, hr, hl, hk, ho, -⟩ := hrec
    rcases Refresh.finding_cases hl ho with ⟨habsent, -⟩ | ⟨hsame, -⟩ | ⟨text', date', hchanged, rfl, -⟩
    · unfold Observation.absent at habsent
      split at habsent <;> cases habsent
    · cases hsame
    · cases hchanged
      obtain ⟨i, b, st, hi, hcarry', hlook, hst, hdate⟩ := looked_trace (refreshes_of_carried hcarry hr)
      exact ⟨i, id, b, l, st, hi, hcarry', hlook, hk, hst, hdate⟩
  quiet i j k e e' hij hquiet he he' := quiet_trace hij hquiet he he'
  writes n id k o hwriting hrec := by
    obtain ⟨id', a, r, l, hcarry, hr, -⟩ := hrec
    obtain ⟨u, hm, hs, -, rfl⟩ := carried?_eq_some.1 hcarry
    cases hm
    rcases hwriting with ⟨x, ph, hph, hx⟩ | ⟨ph, p, bytes, hph, hstart⟩
    · cases hph.symm.trans (phase?_of_served hs)
      rw [Activity.eq_of_save hx] at hr
      cases hr
    · cases hph.symm.trans (phase?_of_served hs)
      rw [hstart] at hr
      cases hr
  absent n k e he hno := by
    have hknown := dateless_trace policy moves n k e he hno
    exact ⟨congrArg Known.modified hknown, congrArg Known.external hknown⟩
  ordered n k e he := ((chronological_trace policy moves n).entry k e he).2

end Trace

/-- a file is watched, and then written through the engine -/
def writtenOver : List Move :=
  let p : Path := ⟨"/a"⟩
  [Move.newSubscriber, .putFile p ⟨#[49]⟩, .call (.watch p ⟨1⟩)] ++ List.replicate 6 (Move.turn 1) ++
    [Move.call (.write p ⟨#[50]⟩)] ++ List.replicate 4 (Move.turn 3)

/-- the last change from outside is the one before the write -/
example : let w := (World.start .allow).trace (along writtenOver) 14
    (w.entry? ⟨"/a"⟩).map (fun e => (e.contents, e.external, e.modified)) =
      some (some "2", .ofMillis 1001, .ofMillis 1002) := by decide +kernel

end LiveFiles.Engine
