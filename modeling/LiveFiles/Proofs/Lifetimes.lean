/-
How long entries last. Whoever gives the last place at a path back waits until nobody has a turn there, and looks again
whether somebody counts before the entry is dropped; tickets are taken and places counted at any time meanwhile.
- `dropped_move`: an entry goes away only in a section that finds that nobody counts and nobody has a turn at the path.
- `tracked_of_refreshes`: so a reconciliation that was requested at a tracked path has its entry until it ends, in line, with
  the lock and after its last look at the disk.
- **`outlasts_trace`**: in a run without shutting down entries outlast whoever relies on them (`Outlasts`): a write that was
  requested at a tracked path puts its text into the entry that it found there, and no call to watch returns that its entry
  has vanished.
-/
import LiveFiles.Proofs.Cancelling
import LiveFiles.Proofs.Counting
import LiveFiles.Proofs.Errors

namespace LiveFiles.Engine

variable {w w' : World} {m : Move} {id i j : TaskId} {t : Task Phase} {a : Activity} {p q : Path} {e : Entry} {k : Path.Key}
  {τ : Turn}

/-! ## When an entry goes away -/

theorem Places.roster?_put_some {v : Places} {r : Roster} (hr : v.roster? k = some r) (k₀ : Path.Key) (r₀ : Roster) :
    (v.put k₀ (some r₀)).roster? k ≠ none := by
  rw [Places.roster?_put]
  split
  · simp
  · simp [hr]

/-- only a task that is about to drop an entry makes it go away, where nobody counts -/
theorem Shift.dropped {v v' : Places} {next : Option Activity} {r : Roster} (h : Shift v a v' next)
    (ha : a ≠ .starting .shutDown) (hc : a.closes = false) (hr : v.roster? k = some r) (hr' : v'.roster? k = none) :
    a.tears? = some k ∧ r.count = 0 := by
  have hkept : ∀ k₀ r₀, (v.put k₀ (some r₀)).roster? k = v'.roster? k → False := fun k₀ r₀ hv =>
    Places.roster?_put_some hr k₀ r₀ (hv.trans hr')
  have hsame : v' ≠ v := by
    rintro rfl
    cases hr.symm.trans hr'
  cases h with
  | drop k₀ r₀ hk hr₀ hz hv =>
    subst hv
    rw [Places.roster?_put] at hr'
    split at hr'
    · rename_i hk₀
      subst hk₀
      cases hr.symm.trans hr₀
      exact ⟨hk, hz⟩
    · cases hr.symm.trans hr'
  | steady _ hv => exact absurd hv hsame
  | lost _ _ _ hv => exact absurd hv hsame
  | spared _ _ _ hv => exact absurd hv hsame
  | take p₀ r₀ armed _ _ hv =>
    rcases hv with ⟨-, hv⟩ | ⟨-, -, -, hv⟩
    · exact (hkept _ _ (by rw [hv])).elim
    · exact (hkept _ _ (by rw [hv]; rfl)).elim
  | register _ _ _ _ _ hv => exact (hkept _ _ (by rw [hv])).elim
  | release _ _ _ _ _ _ hv => exact (hkept _ _ (by rw [hv])).elim
  | releaseLast _ _ _ _ _ _ hv => exact (hkept _ _ (by rw [hv]; rfl)).elim
  | shutDown _ h₀ => exact absurd h₀ ha
  | forget h₀ => cases hc.symm.trans h₀

theorem Activity.drain?_of_tears (h : a.tears? = some k) : ∃ p turn, a.drain? = some (p, turn) ∧ p.key = k := by
  cases a <;> cases h
  exact ⟨_, _, rfl, rfl⟩

/-- where somebody has a turn, a task that waits for the path leaves the entries alone -/
theorem entries_of_busy {turn : Option Turn} (hd : a.drain? = some (p, turn)) (hbusy : w.turns.isIdle p.key = false) :
    (w.step a).1.entries = w.entries := by
  cases turn with
  | none =>
    rw [step_of_busy w hd hbusy]
    rfl
  | some τ =>
    cases hτ : w.turns.holds τ with
    | true =>
      rw [step_of_holds w hd hτ]
      exact (aside_giveBack w τ).entries
    | false => rw [step_of_queued w hd hτ]

theorem isTracked_eq_false : w.isTracked p = false ↔ w.entry? p = none := Table.contains_eq_false_iff

theorem isTracked_of_entry (he : w.entry? p = some e) : w.isTracked p = true := contains_of_get? he

theorem entry_of_isTracked (h : w.isTracked p = true) : ∃ e, w.entry? p = some e := get?_of_contains h

/-- **An entry goes away only where nobody counts and nobody has a turn**, and only a task that tears it down makes it go. -/
theorem dropped_move (hw : Wf w) (hm : Continues w m) (he : w.entry? p = some e) (hgone : (w.move m).isTracked p = false) :
    e.count = 0 ∧ w.turns.isIdle p.key = true ∧ ∃ id a, w.carried? m = some (id, a) ∧ a.tears? = some p.key := by
  have hr := roster?_of_present he
  have hr' := roster?_of_absent (isTracked_eq_false.1 hgone)
  rcases section_or_not w m with ⟨id, t, rfl, hs, hc⟩ | hno
  · obtain ⟨hne, hcl⟩ := hm id t rfl hs hc
    obtain ⟨htears, hz⟩ := (shift_serve hw hs hc).dropped hne hcl hr hr'
    refine ⟨hz, ?_, id, _, carried?_of_served hs hc, htears⟩
    by_contra hbusy
    obtain ⟨q, turn, hd, hq⟩ := Activity.drain?_of_tears htears
    have hbusy' : (floorTo w id).turns.isIdle q.key = false := by
      rw [turns_floorTo, hq]
      exact Bool.eq_false_iff.2 hbusy
    have hsame : (serve w id).entries = w.entries := calc
      (serve w id).entries = ((floorTo w id).step t.phase.activity).1.entries :=
        congrArg Core.entries (core_serve_of_section hs hc).1
      _ = (floorTo w id).entries := entries_of_busy hd hbusy'
      _ = w.entries := congrArg Core.entries (core_floorTo w id)
    have hkept : World.entry? (serve w id) p = some e := by rw [World.entry?, hsame]; exact he
    cases hkept.symm.trans (isTracked_eq_false.1 hgone)
  · rw [(unmoved_of_no_section hno).places] at hr'
    cases hr.symm.trans hr'

/-- an entry stays as long as somebody counts, or has a turn at the path -/
theorem kept_of_claimed (hw : Wf w) (hm : Continues w m) (he : w.entry? p = some e)
    (h : 0 < e.count ∨ ∃ id τ, w.HasTurn id τ ∧ τ.key = p.key) : (w.move m).isTracked p = true := by
  by_contra hgone
  obtain ⟨hz, hidle, -⟩ := dropped_move hw hm he (Bool.eq_false_iff.2 hgone)
  rcases h with h | ⟨id, τ, hτ, hk⟩
  · omega
  · exact hw.sound.turns.isIdle_iff.1 hidle id τ hτ hk

/-- an entry stays while a task that does not tear it down carries out a section -/
theorem kept_of_carried (hw : Wf w) (hm : Continues w m) (he : w.isTracked p = true) (hcarry : w.carried? m = some (id, a))
    (ha : a.tears? = none) : (w.move m).isTracked p = true := by
  obtain ⟨e, he⟩ := entry_of_isTracked he
  by_contra hgone
  obtain ⟨-, -, id', a', hcarry', ha'⟩ := dropped_move hw hm he (Bool.eq_false_iff.2 hgone)
  cases hcarry.symm.trans hcarry'
  cases ha.symm.trans ha'

/-! ## Reconciliations -/

section Effects

variable {E : Mark → Prop} {c c' : Core} {s s' : Stake} {st : TaskId → Stake} {x : QueryId}

/-- the path whose entry an operation in line relies on: a reconciliation has put its number there, and a write that releases
those who wait for a reconciliation has taken its signal from there -/
def Errand.relies? : Errand → Option Path
  | .query p _ _ => some p
  | .save job _ => if job.waiters.isSome then some job.path else none
  | _ => none

theorem Errand.turn_of_relies {x : Errand} (h : x.relies? = some p) : ∃ τ, x.turn? = some τ ∧ x.path? = some p := by
  cases x with
  | query q y τ =>
    cases h
    exact ⟨τ, rfl, rfl⟩
  | save job b =>
    simp only [Errand.relies?] at h
    split at h
    · cases h
      exact ⟨job.turn, rfl, rfl⟩
    · cases h
  | _ => cases h

/-- an operation that relies on an entry did so before, or the entry is there -/
theorem Effect.relies (h : Effect E c s c' s') (hs : s'.errand.relies? = some p) :
    s.errand.relies? = some p ∨ (c'.entries.get? p.key).isSome := by
  cases h with
  | ask p₀ e₀ e' signal signals hidle he ha =>
    cases hs
    refine Or.inr ?_
    simp [Core.enlist, Core.setEntry, Table.get?_insert]
  | revoke p₀ bytes e₀ hidle he =>
    simp only [Errand.relies?] at hs
    split at hs
    · cases hs
      refine Or.inr ?_
      simp [Core.enlist, Core.setEntry, Table.get?_insert]
    · cases hs
  | save p₀ bytes hidle => cases hs
  | enter hs₀ hτ => exact Or.inl (by rw [hs₀]; exact hs)
  | take => cases hs
  | date => cases hs
  | drain => cases hs
  | settle => cases hs
  | withdraw => cases hs
  | conclude => cases hs
  | endLook => cases hs
  | commit => cases hs
  | endSave => cases hs
  | undrain => cases hs
  | rest => cases hs
  | quit => cases hs
  | _ => exact Or.inl hs

/-- the entries that operations in line rely on are there -/
def Lined (c : Core) (st : TaskId → Stake) : Prop :=
  ∀ i p, (st i).errand.relies? = some p → (c.entries.get? p.key).isSome

theorem lined_effect (hp : Proper c st) (hl : Lined c st) (h : Effect E c (st i) c' s') :
    Lined c' (Function.update st i s') := by
  intro j p hj
  have hkept : ∀ j₀, (st j₀).errand.relies? = some p → (c'.entries.get? p.key).isSome := by
    intro j₀ hj₀
    obtain ⟨e, he⟩ := Option.isSome_iff_exists.1 (hl j₀ p hj₀)
    obtain ⟨τ, hturn, hpath⟩ := Errand.turn_of_relies hj₀
    rcases h.kept he with ⟨e', he'⟩ | hidle | hclose
    · exact Option.isSome_iff_exists.2 ⟨e', he'⟩
    · rw [hp.sound.not_idle hturn hpath] at hidle
      cases hidle
    · rw [hp.guarded.unclosed i] at hclose
      cases hclose
  by_cases hji : j = i
  · subst hji
    rw [Function.update_self] at hj
    rcases h.relies hj with hj | hsome
    · exact hkept j hj
    · exact hsome
  · rw [Function.update_of_ne hji] at hj
    exact hkept j hj

end Effects

/-! ## Writes -/

theorem job_of_stepSave {x x' : Save} (h : (w.stepSave x).2.next = some x') : x'.job = x.job := by
  cases x with
  | queued job =>
    simp only [World.stepSave] at h
    split at h
    · obtain ⟨c, hc⟩ := next_beginCall (α := Saved) w .write job.path (Save.writing job)
      rw [hc] at h
      cases h
      rfl
    · cases h
      rfl
  | writing job c =>
    cases c with
    | held g =>
      obtain ⟨c, hc⟩ := next_atGate (α := Saved) w g (Save.writing job)
      rw [World.stepSave, hc] at h
      cases h
      rfl
    | due =>
      simp only [World.stepSave, World.haveWritten] at h
      split at h
      · rw [(disk_failSave _ _ _).2] at h
        cases h
      · obtain ⟨c, hc⟩ := next_beginCall (α := Saved) ({ w with disk := (w.disk.write job.path job.bytes).1 }.leaveDisk job.path)
          .stat job.path (Save.looking job)
        rw [hc] at h
        cases h
        rfl
  | looking job c =>
    cases c with
    | held g =>
      obtain ⟨c, hc⟩ := next_atGate (α := Saved) w g (Save.looking job)
      rw [World.stepSave, hc] at h
      cases h
      rfl
    | due =>
      simp only [World.stepSave, World.haveLookedUp] at h
      split at h
      · rw [(disk_failSave _ _ _).2] at h
        cases h
      · rw [(disk_failSave _ _ _).2] at h
        cases h
      · rw [(disk_commitSave _ _ _).2] at h
        cases h

/-- a request to write gets in line, unless it is refused -/
theorem next_write (w : World) (p : Path) (bytes : ByteArray) :
    (w.step (.starting (.write p bytes))).2.next = none ∨
      ∃ job : SaveJob, job.path = p ∧ job.bytes = bytes ∧
        (w.step (.starting (.write p bytes))).2.next = some (.saving (.queued job)) := by
  simp only [World.step, World.begin, next_ofPart, World.requestSave]
  split
  · exact Or.inl rfl
  · split
    · split
      · exact Or.inl rfl
      · exact Or.inr ⟨_, rfl, rfl, rfl⟩
    · exact Or.inr ⟨_, rfl, rfl, rfl⟩

/-- a task that writes goes on with its write until it ends -/
theorem saves_next {x : Save} (hw : Wf w) (h : w.Saves id x) :
    (∃ x', (w.move m).Saves id x' ∧ x'.job = x.job) ∨ (w.move m).tasks.phase? id = none := by
  obtain ⟨ph, hph, hx⟩ := h
  cases hnext : (w.move m).tasks.phase? id with
  | none => exact Or.inr rfl
  | some ph' =>
    refine Or.inl ?_
    rcases phase?_cases hw hnext with hsame | ⟨hnone, -⟩ | ⟨a, hcarry, hn⟩
    · cases hph.symm.trans hsame
      exact ⟨x, ⟨ph, hnext, hx⟩, rfl⟩
    · cases hph.symm.trans hnone
    · obtain ⟨t, -, hs, -, rfl⟩ := carried?_eq_some.1 hcarry
      cases hph.symm.trans (phase?_of_served hs)
      rw [Activity.eq_of_save hx, World.step, next_ofPart] at hn
      obtain ⟨x', hx', hact⟩ := Option.map_eq_some_iff.1 hn
      exact ⟨x', ⟨ph', hnext, by rw [← hact]; rfl⟩, job_of_stepSave hx'⟩

/-- a write has a turn at its path -/
theorem hasTurn_of_saves {x : Save} (hw : Wf w) (h : w.Saves id x) :
    w.HasTurn id x.job.turn ∧ x.job.turn.key = x.job.path.key := by
  have herrand : ∃ b, (w.stakes id).errand = .save x.job b := by
    obtain ⟨ph, hph, hx⟩ := h
    rw [stakes_of_phase hph, Activity.eq_of_save hx]
    cases x <;> exact ⟨_, rfl⟩
  obtain ⟨b, hb⟩ := herrand
  have hturn : (w.stakes id).errand.turn? = some x.job.turn := by rw [hb]; rfl
  exact ⟨hturn, hw.sound.keyed id _ hturn x.job.path (by rw [hb]; rfl)⟩

/-- a write returns well when it has found the date of the file -/
theorem looking_of_returned {x : Save} {u : Unit} (h : (w.stepSave x).2 = .ended (.ok u)) :
    ∃ job st, x = .looking job .due ∧ w.disk.stat job.path = .ok (some st) := by
  cases x with
  | queued job =>
    simp only [World.stepSave] at h
    split at h
    · exact absurd h (beginCall_ne_ended _ _ _ _ _)
    · cases h
  | writing job c =>
    cases c with
    | held g => exact absurd h (atGate_ne_ended _ _ _ _)
    | due =>
      simp only [World.stepSave, World.haveWritten] at h
      split at h
      · cases h
      · exact absurd h (beginCall_ne_ended _ _ _ _ _)
  | looking job c =>
    cases c with
    | held g => exact absurd h (atGate_ne_ended _ _ _ _)
    | due =>
      simp only [World.stepSave, World.haveLookedUp] at h
      split at h
      · cases h
      · cases h
      · rename_i st hst
        exact ⟨job, st, rfl, hst⟩

/-- a task that returns well from a write has just found the date of the file -/
theorem looking_of_replies {x : Save} {o : Answer} (hx : w.Saves id x) (hr : Replies w m id (.ok o)) :
    ∃ t job st, m = .turn id ∧ w.served? id = some t ∧ t.cancelled = false ∧
      t.phase.activity = .saving (.looking job .due) ∧ x = .looking job .due ∧ w.disk.stat job.path = .ok (some st) := by
  obtain ⟨a, hcarry, hend⟩ := hr
  obtain ⟨t, rfl, hs, hc, rfl⟩ := carried?_eq_some.1 hcarry
  obtain ⟨ph, hph, hsave⟩ := hx
  cases hph.symm.trans (phase?_of_served hs)
  have hact := Activity.eq_of_save hsave
  have hok : ∃ u, ((floorTo w id).stepSave x).2 = .ended (.ok u) := by
    rw [hact, World.step] at hend
    rcases hrun : (floorTo w id).stepSave x with ⟨w₁, y | y | y | (y | y)⟩ <;> rw [hrun] at hend
    · cases hend
    · cases hend
    · cases hend
    · cases hend
    · exact ⟨y, rfl⟩
  obtain ⟨u, hu⟩ := hok
  obtain ⟨job, st, rfl, hst⟩ := looking_of_returned hu
  rw [disk_floorTo] at hst
  exact ⟨t, job, st, rfl, hs, hc, hact, rfl, hst⟩

/-- **A write that returns at a tracked path has put its text into the entry**, with the date of the file. -/
theorem entry_of_returned {x : Save} {o : Answer} (hx : w.Saves id x) (ht : w.isTracked x.job.path = true)
    (hr : Replies w m id (.ok o)) :
    ∃ e f, World.entry? (w.move m) x.job.path = some e ∧ w.disk.file? x.job.path = some f ∧
      e.contents = some (Text.Utf8.decodeLossy x.job.bytes) ∧ e.modified = f.modified := by
  obtain ⟨t, job, st, rfl, hs, hc, hact, rfl, hst⟩ := looking_of_replies hx hr
  obtain ⟨e, he⟩ := entry_of_isTracked ht
  obtain ⟨f, hf, hdate⟩ := Disk.stat_eq_some hst
  obtain ⟨-, e', he', htext, hmod⟩ := entry_of_written hs hc hact he hst
  exact ⟨e', f, he', hf, htext, hmod.trans hdate.symm⟩

/-! ## Along a run -/

section Trace

/-- Numbers of tasks are given once: a task that has ended does not come back. -/
theorem grows_move (hw : Wf w) (m : Move) : w.tasks.next ≤ (w.move m).tasks.next ∧
    ∀ j < w.tasks.next, w.tasks.phase? j = none → (w.move m).tasks.phase? j = none := by
  have hgrows : ∀ {w' : World} {P : Phase → Prop}, w.tasks.Grows P w'.tasks → w.tasks.next ≤ w'.tasks.next ∧
      ∀ j < w.tasks.next, w.tasks.phase? j = none → w'.tasks.phase? j = none :=
    fun hg => ⟨hg.next, fun j hj hnone => (hg.phase j hj).trans hnone⟩
  by_cases hturn : ∃ i, m = .turn i
  · obtain ⟨i, rfl⟩ := hturn
    rw [World.move]
    cases hs : w.served? i with
    | none =>
      obtain ⟨ready, floor, hserve⟩ := serve_of_nobody hs
      rw [hserve]
      exact ⟨le_rfl, fun j _ hnone => hnone⟩
    | some t =>
      have hw₀ := wf_floorTo hw (served?_eq_some hs).1
      cases hc : t.cancelled with
      | true =>
        have hg := (does_cancelled hs hc).ripple.grows
        have hnext : ((floorTo w i).without i).tasks.next = w.tasks.next := next_floorTo w i
        refine ⟨hnext ▸ hg.next, fun j hj hnone => ?_⟩
        rw [hg.phase j (hnext ▸ hj), phase?_without, phase?_floorTo, hnone, ite_self]
      | false =>
        have hg := (runs_advance hw₀.reserved i t.phase).does.ripple.grows
        rw [serve_of_section hs hc]
        refine ⟨?_, fun j hj hnone => ?_⟩
        · rw [World.after, Tasks.next_record, ← next_floorTo w i]
          exact hg.next
        · rw [World.after, Tasks.phase?_record, hg.phase j ((next_floorTo w i).symm ▸ hj), phase?_floorTo, hnone]
          simp
  · by_cases hcall : ∃ r, m = .call r
    · obtain ⟨r, rfl⟩ := hcall
      rw [World.move]
      split
      · exact hgrows (Tasks.grows_spawn (P := fun _ => True) _ trivial)
      · exact ⟨le_rfl, fun _ _ hnone => hnone⟩
    · exact hgrows (outside_move w (fun i e => hturn ⟨i, e⟩) fun r e => hcall ⟨r, e⟩).2.grows

variable {policy : WritePolicy} {moves : Nat → Move} {n l : Nat}

/-- a task that has ended does not come back -/
theorem gone_trace (hnl : n ≤ l) (hid : id < ((World.start policy).trace moves n).tasks.next)
    (hnone : ((World.start policy).trace moves n).tasks.phase? id = none) :
    id < ((World.start policy).trace moves l).tasks.next ∧ ((World.start policy).trace moves l).tasks.phase? id = none := by
  induction l, hnl using Nat.le_induction with
  | base => exact ⟨hid, hnone⟩
  | succ l _ ih =>
    have hgrows := grows_move (reachable_trace policy moves l).wf (moves l)
    exact ⟨lt_of_lt_of_le ih.1 hgrows.1, hgrows.2 id ih.1 ih.2⟩

/-- and one that ends in a move is gone from then on -/
theorem gone_since {ph : Phase} (hph : ((World.start policy).trace moves n).tasks.phase? id = some ph)
    (hnone : ((World.start policy).trace moves (n + 1)).tasks.phase? id = none) (hnl : n < l) :
    ((World.start policy).trace moves l).tasks.phase? id = none := by
  have hw := (reachable_trace policy moves n).wf
  exact (gone_trace hnl ((hw.numbered.lt hph).trans_le (grows_move hw (moves n)).1) hnone).2

theorem lined_trace (h : ∀ n, moves n ≠ .call .shutDown) (n : Nat) :
    Lined ((World.start policy).trace moves n).core ((World.start policy).trace moves n).stakes := by
  refine (trace_induction (J := fun c st => Proper c st ∧ Lined c st) (N := (· = .shutsDown))
    (fun n x hx e => h n (marks_shutsDown (e ▸ hx))) ⟨proper_start policy, ?_⟩ ?_ n).2
  · intro i p hi
    cases hi
  · intro E c st i c' s' hE hJ he
    exact ⟨proper_effect hJ.1 (fun hd => hE _ hd rfl) he, lined_effect hJ.1 hJ.2 he⟩

/-- **A reconciliation has its entry from the request to its end.** -/
theorem tracked_of_refreshes (h : ∀ n, moves n ≠ .call .shutDown) {r : Refresh}
    (hr : ((World.start policy).trace moves n).Refreshes id r) :
    ((World.start policy).trace moves n).isTracked r.path = true := by
  have herrand := errand_of_refreshes hr
  have hproper : Proper ((World.start policy).trace moves n).core ((World.start policy).trace moves n).stakes :=
    proper_trace h n
  have hlook := hproper.guarded.look id
  cases r with
  | queued p q τ => exact lined_trace h n id p (by rw [herrand]; rfl)
  | looking l c =>
    obtain ⟨-, e, he, -⟩ := hlook l _ herrand
    exact isTracked_of_entry he
  | reading l date c =>
    obtain ⟨-, e, he, -⟩ := hlook l _ herrand
    exact isTracked_of_entry he
  | lookingAgain l f c =>
    obtain ⟨-, e, he, -⟩ := hlook l _ herrand
    exact isTracked_of_entry he

/-- **A write that releases those who wait for a reconciliation has the entry of the reconciliation until it ends.** -/
theorem tracked_of_waiters (h : ∀ n, moves n ≠ .call .shutDown) {x : Save}
    (hx : ((World.start policy).trace moves n).Saves id x) (hwait : x.job.waiters.isSome = true) :
    ((World.start policy).trace moves n).isTracked x.job.path = true := by
  refine lined_trace h n id x.job.path ?_
  obtain ⟨ph, hph, hs⟩ := hx
  rw [stakes_of_phase hph, Activity.eq_of_save hs]
  cases x with
  | queued job => exact if_pos hwait
  | writing job c => exact if_pos hwait
  | looking job c => exact if_pos hwait

/-- a place that a task accounts for is one of an entry -/
theorem tracked_of_place (h : ∀ n, moves n ≠ .call .shutDown)
    (hk : ((World.start policy).trace moves n).place? id = some k) :
    ∃ e, ((World.start policy).trace moves n).entries.get? k = some e ∧ 0 < e.count := by
  have hseated := placed_of_place? (reachable_trace policy moves n).wf hk
  have htally : Tallied ((World.start policy).trace moves n) := tally_trace h n
  have hcover := htally k
  have hcount : 0 < ((World.start policy).trace moves n).places.count k := by omega
  unfold Places.count World.places at hcount
  cases he : ((World.start policy).trace moves n).entries.get? k with
  | none => simp [he] at hcount
  | some e =>
    simp only [he, Option.map_some, Option.getD_some] at hcount
    exact ⟨e, rfl, hcount⟩

/-- what has become of a write that was requested earlier: it goes on, or it has ended -/
theorem saves_after (h : ∀ n, moves n ≠ .call .shutDown) {bytes : ByteArray}
    (hi : ((World.start policy).trace moves n).carried? (moves n) = some (id, .starting (.write p bytes))) :
    ∃ job : SaveJob, job.path = p ∧ job.bytes = bytes ∧ ∀ l, n < l →
      (∃ x, ((World.start policy).trace moves l).Saves id x ∧ x.job = job) ∨
        id < ((World.start policy).trace moves l).tasks.next ∧ ((World.start policy).trace moves l).tasks.phase? id = none := by
  obtain ⟨t, hm, hs, hc, hact⟩ := carried?_eq_some.1 hi
  have hw := (reachable_trace policy moves n).wf
  have hcont : Continues ((World.start policy).trace moves n) (moves n) := continues_trace h n
  have hlt : id < ((World.start policy).trace moves (n + 1)).tasks.next :=
    lt_of_lt_of_le (hw.numbered.lt (phase?_of_served hs)) (spares_move hcont).next
  have hphase : ((World.start policy).trace moves (n + 1)).tasks.phase? id =
      ((floorTo ((World.start policy).trace moves n) id).step (.starting (.write p bytes))).2.next.map
        fun a => ⟨t.phase.role, a⟩ := by
    rw [← hact, ← phase?_serve hw hs hc, World.trace, hm, World.move]
  rcases next_write (floorTo ((World.start policy).trace moves n) id) p bytes with hn | ⟨job, hp, hb, hn⟩
  · rw [hn] at hphase
    exact ⟨⟨p, bytes, ⟨0, p.key, 0⟩, false, none⟩, rfl, rfl, fun l hl => Or.inr (gone_trace hl hlt hphase)⟩
  · rw [hn] at hphase
    refine ⟨job, hp, hb, fun l hl => ?_⟩
    induction l, hl using Nat.le_induction with
    | base => exact Or.inl ⟨_, ⟨_, hphase, rfl⟩, rfl⟩
    | succ l hl ih =>
      rcases ih with ⟨x, hx, hjob⟩ | hgone
      · have hw := (reachable_trace policy moves l).wf
        have hcont : Continues ((World.start policy).trace moves l) (moves l) := continues_trace h l
        have hlt : id < ((World.start policy).trace moves (l + 1)).tasks.next := by
          obtain ⟨ph, hph, -⟩ := hx
          exact lt_of_lt_of_le (hw.numbered.lt hph) (spares_move hcont).next
        rcases saves_next hw hx with ⟨x', hx', hjob'⟩ | hnone
        · exact Or.inl ⟨x', hx', hjob'.trans hjob⟩
        · exact Or.inr ⟨hlt, hnone⟩
      · exact Or.inr (gone_trace (Nat.le_succ l) hgone.1 hgone.2)

/-- **A write that was requested at a tracked path has its entry until it ends.** -/
theorem tracked_of_write (h : ∀ n, moves n ≠ .call .shutDown) {bytes : ByteArray}
    (hi : ((World.start policy).trace moves n).carried? (moves n) = some (id, .starting (.write p bytes)))
    (ht : ((World.start policy).trace moves n).isTracked p = true)
    (hlive : ∃ ph, ((World.start policy).trace moves l).tasks.phase? id = some ph) :
    ∀ j, n ≤ j → j ≤ l → ((World.start policy).trace moves j).isTracked p = true := by
  obtain ⟨job, hp, -, hafter⟩ := saves_after h hi
  intro j hnj
  induction j, hnj using Nat.le_induction with
  | base => exact fun _ => ht
  | succ j hnj ih =>
    intro hjl
    have hw := (reachable_trace policy moves j).wf
    have hcont : Continues ((World.start policy).trace moves j) (moves j) := continues_trace h j
    have htracked := ih (Nat.le_of_succ_le hjl)
    rcases Nat.lt_or_eq_of_le hnj with hlt | rfl
    · rcases hafter j hlt with ⟨x, hx, hjob⟩ | ⟨hid, hnone⟩
      · -- the write has a turn
        obtain ⟨hturn, hkey⟩ := hasTurn_of_saves hw hx
        obtain ⟨e, he⟩ := entry_of_isTracked htracked
        refine kept_of_claimed hw hcont he (Or.inr ⟨id, _, hturn, ?_⟩)
        rw [hkey, hjob, hp]
      · obtain ⟨ph, hph⟩ := hlive
        cases (gone_trace (Nat.le_of_succ_le hjl) hid hnone).2.symm.trans hph
    · exact kept_of_carried hw hcont htracked hi rfl

/-- **Entries are not dropped early.** -/
structure Outlasts (w : World) (moves : Nat → Move) : Prop where
  /-- an entry stays while somebody counts, or has a turn at the path -/
  kept : ∀ n p e, World.entry? (w.trace moves n) p = some e →
    (0 < e.count ∨ ∃ id τ, (w.trace moves n).HasTurn id τ ∧ τ.key = p.key) → (w.trace moves (n + 1)).isTracked p = true
  /-- a reconciliation that was requested at a tracked path has its entry until it ends -/
  reconciled : ∀ n id r, (w.trace moves n).Refreshes id r → (w.trace moves n).isTracked r.path = true
  /-- a call to watch that has taken a place has its entry until it ends -/
  seated : ∀ n id k, (w.trace moves n).place? id = some k → (w.trace moves n).entries.contains k = true
  /-- a write that was requested at a tracked path returns with its text in the entry, which has been there ever since -/
  written : ∀ i n id p bytes o, i < n → (w.trace moves i).carried? (moves i) = some (id, .starting (.write p bytes)) →
    (w.trace moves i).isTracked p = true → Replies (w.trace moves n) (moves n) id (.ok o) →
    (∀ l, i ≤ l → l ≤ n + 1 → (w.trace moves l).isTracked p = true) ∧
      ∃ e f, World.entry? (w.trace moves (n + 1)) p = some e ∧ (w.trace moves n).disk.file? p = some f ∧
        e.contents = some (Text.Utf8.decodeLossy bytes) ∧ e.modified = f.modified
  /-- no call has returned that its entry has vanished -/
  watched : ∀ n id p, (id, Ending.returned (.error (World.lostEntry p))) ∉ (w.trace moves n).endings

/-- a call to watch that settles has a place -/
theorem place_of_settling {seat : Seat} {signal : Option SignalId} (h : w.carried? m = some (id, .settling seat signal)) :
    w.place? id = some seat.path.key := by
  obtain ⟨ρ, hph⟩ := phase?_carried h
  rw [World.place?, hph]
  rfl

/-- no call returns that an entry has vanished -/
theorem never_lost (h : ∀ n, moves n ≠ .call .shutDown) (n : Nat) (id : TaskId) (p : Path) :
    (id, Ending.returned (.error (World.lostEntry p))) ∉ ((World.start policy).trace moves n).endings := by
  intro hin
  obtain ⟨k, -, hcauses⟩ := causes_of_endings hin
  generalize hx : World.lostEntry p = x at hcauses
  cases hcauses with
  | shutDown => cases hx
  | rejected => cases hx
  | vanished => cases hx
  | reported f hf =>
    obtain ⟨k', -, hrep⟩ := hf
    exact hrep.ne_lostEntry p hx.symm
  | lost id seat signal ha hno =>
    obtain ⟨e, he, -⟩ := tracked_of_place h (place_of_settling ha)
    cases (isTracked_of_entry he).symm.trans hno

/-- **In a run without shutting down, no entry is dropped early.** -/
theorem outlasts_trace (h : ∀ n, moves n ≠ .call .shutDown) : Outlasts (World.start policy) moves where
  kept n p e he hclaim := kept_of_claimed (reachable_trace policy moves n).wf (continues_trace h n) he hclaim
  reconciled n id r hr := tracked_of_refreshes h hr
  seated n id k hk := by
    obtain ⟨e, he, -⟩ := tracked_of_place h hk
    exact contains_of_get? he
  written i n id p bytes o hin hi ht hr := by
    have ⟨a, hcarry, _⟩ := hr
    obtain ⟨t, -, hs, -, -⟩ := carried?_eq_some.1 hcarry
    have hphase := phase?_of_served hs
    have hall := tracked_of_write h hi ht ⟨_, hphase⟩
    obtain ⟨job, hp, hb, hafter⟩ := saves_after h hi
    rcases hafter n hin with ⟨x, hx, rfl⟩ | ⟨-, hnone⟩
    · obtain ⟨e, f, he, hf, htext, hdate⟩ := entry_of_returned hx (by rw [hp]; exact hall n hin.le le_rfl) hr
      rw [hp] at he hf
      rw [hb] at htext
      refine ⟨fun l hil hl => ?_, e, f, he, hf, htext, hdate⟩
      rcases Nat.lt_or_eq_of_le hl with hl | rfl
      · exact hall l hil (Nat.le_of_lt_succ hl)
      · exact isTracked_of_entry he
    · cases hnone.symm.trans hphase
  watched := never_lost h

end Trace

/-- The only subscriber of a file leaves while the file is being written, and another one comes before the write ends. -/
def racing : List Move :=
  let p : Path := ⟨"/a"⟩
  List.flatten [[.newSubscriber, .newSubscriber, .putFile p ⟨#[49]⟩, .call (.watch p ⟨1⟩)], List.replicate 6 (.turn 1),
    [.turn 2, .hold .write p, .call (.write p ⟨#[50]⟩), .turn 3, .turn 3, .call (.unwatch p ⟨1⟩)],
    List.replicate 3 (.turn 4), [.turn 2, .call (.watch p ⟨2⟩)], List.replicate 3 (.turn 5), [.openGate 1],
    List.replicate 3 (.turn 3), List.replicate 3 (.turn 4), List.replicate 3 (.turn 5), List.replicate 2 (.turn 4)]

/-- the run does not shut the engine down; the call to unwatch waits for the write, and in the end the entry is still there with
the text that has been written, and has one subscriber -/
theorem outlasts_trace_racing :
    (∀ n, along racing n ≠ .call .shutDown) ∧ Outlasts (World.start .allow) (along racing) ∧
      ((World.start .allow).trace (along racing) 19).drains 4 (Path.key ⟨"/a"⟩) = true ∧
      ((World.start .allow).trace (along racing) 36).tasks.isLive 4 = false ∧
      ((World.start .allow).trace (along racing) 36).subscriberCount ⟨"/a"⟩ = 1 ∧
      (World.entry? ((World.start .allow).trace (along racing) 36) ⟨"/a"⟩).bind Entry.contents = some "2" := by
  have h : ∀ n, along racing n ≠ .call .shutDown := along_ne racing (by simp [racing]) (by simp)
  refine ⟨h, outlasts_trace h, ?_⟩
  decide +kernel

end LiveFiles.Engine
