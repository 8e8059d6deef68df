/-
The stages of an operation along a run. A reconciliation waits in line, looks at the date of the file, perhaps reads the file
and looks again if reading failed; a write waits in line, writes, and looks up the date.
- `refreshes_move`, `saves_move`: what a task does after a move it did before, or is in line for, or its own section has
  brought it there.
- `onward_stepRefresh`: the stages that a section of a reconciliation leads to (`Onward`).
- **`written_trace`**: in every run a write that looks up a date has put its bytes in place before.
- **`date_trace`**: in every run a reconciliation that reads a file has the date that it found when it looked.
-/
import LiveFiles.Proofs.Authority

namespace LiveFiles.Engine

/-- the section that a move carries out: whose it is, and of what -/
def World.carried? (w : World) : Move → Option (TaskId × Activity)
  | .turn id => (w.served? id).bind fun u => if u.cancelled then none else some (id, u.phase.activity)
  | _ => none

variable {w : World} {m : Move} {id : TaskId} {a b : Activity} {u : Task Phase} {r r' : Refresh} {x x' : Save} {l : Look}
  {job : SaveJob}

theorem carried?_eq_some : w.carried? m = some (id, a) ↔
    ∃ u, m = .turn id ∧ w.served? id = some u ∧ u.cancelled = false ∧ u.phase.activity = a := by
  cases m with
  | turn i =>
    simp only [World.carried?, Option.bind_eq_some_iff]
    constructor
    · rintro ⟨u, hs, h⟩
      split at h
      · cases h
      · rename_i hc
        cases h
        exact ⟨u, rfl, hs, Bool.eq_false_iff.2 hc, rfl⟩
    · rintro ⟨u, hm, hs, hc, rfl⟩
      cases hm
      exact ⟨u, hs, by simp [hc]⟩
  | _ => simp [World.carried?]

theorem carried?_of_served (hs : w.served? id = some u) (hc : u.cancelled = false) :
    w.carried? (.turn id) = some (id, u.phase.activity) := carried?_eq_some.2 ⟨u, rfl, hs, hc, rfl⟩

/-- whoever carries out a section is in the phase in which the section begins -/
theorem phase?_carried (h : w.carried? m = some (id, a)) : ∃ ρ, w.tasks.phase? id = some ⟨ρ, a⟩ := by
  obtain ⟨u, -, hs, -, rfl⟩ := carried?_eq_some.1 h
  exact ⟨u.phase.role, phase?_of_served hs⟩

/-! ## From one section to the next -/

theorem Activity.look?_of_call? (h : a.call? = none) (hr : a.refresh? = some r) : r.look? = none := by
  have hcall : r.call? = none := by
    cases a <;> cases hr <;> exact h
  exact Option.map_eq_none_iff.1 hcall

theorem Activity.queued_of_call? (h : a.call? = none) (hx : a.save? = some x) : ∃ job, x = .queued job := by
  have hcall : x.call? = none := by
    cases a <;> cases hx
    exact h
  cases x with
  | queued job => exact ⟨job, rfl⟩
  | writing job c => cases hcall
  | looking job c => cases hcall

/-- what the operation of a task was before a section of it that leads to `b` -/
structure GoesOn (w : World) (a b : Activity) : Prop where
  refresh : ∀ r, b.refresh? = some r → r.look? = none ∨ ∃ r₀, a.refresh? = some r₀ ∧ (w.stepRefresh r₀).2.next = some r
  save : ∀ x, b.save? = some x → (∃ job, x = .queued job) ∨ ∃ x₀, a.save? = some x₀ ∧ (w.stepSave x₀).2.next = some x

theorem GoesOn.of_call? (h : b.call? = none) : GoesOn w a b where
  refresh _ hr := Or.inl (Activity.look?_of_call? h hr)
  save _ hx := Or.inl (Activity.queued_of_call? h hx)

theorem GoesOn.of_none (hr : b.refresh? = none) (hx : b.save? = none) : GoesOn w a b where
  refresh _ h := by cases hr.symm.trans h
  save _ h := by cases hx.symm.trans h

theorem GoesOn.of_refresh (ha : a.refresh? = some r) (hb : b.refresh? = some r') (hx : b.save? = none)
    (hn : (w.stepRefresh r).2.next = some r') : GoesOn w a b where
  refresh r₁ h := by
    cases hb.symm.trans h
    exact Or.inr ⟨r, ha, hn⟩
  save _ h := by cases hx.symm.trans h

theorem Offline.goesOn {y : World × Section Activity Outcome} (h : Offline w y) (hb : y.2.next = some b) :
    GoesOn w a b := .of_call? (h.next b hb).1

/-- a call to the disk that is not the engine's -/
theorem goesOn_direct {f : Call → Activity} {s : Section Activity Outcome}
    (hf : ∀ c, (f c).refresh? = none ∧ (f c).save? = none) (hn : ∃ c, s.next = some (f c)) (hb : s.next = some b) :
    GoesOn w a b := by
  obtain ⟨c, hc⟩ := hn
  cases hc.symm.trans hb
  exact .of_none (hf c).1 (hf c).2

theorem goesOn_begin (w : World) (y : Request) (hb : (w.begin y).2.next = some b) : GoesOn w (.starting y) b := by
  cases y with
  | watch p i => exact (offline_requestWatch w p i).goesOn hb
  | unwatch p i => exact (offline_unwatch w p i).goesOn hb
  | write p bytes =>
    rw [World.begin, next_ofPart] at hb
    obtain ⟨x, hx, rfl⟩ := Option.map_eq_some_iff.1 hb
    unfold World.requestSave at hx
    split at hx
    · cases hx
    · split at hx
      · split at hx <;> cases hx
        exact .of_call? rfl
      · cases hx
        exact .of_call? rfl
  | reconcile p =>
    rw [World.begin, next_ofPart] at hb
    obtain ⟨r, hr, rfl⟩ := Option.map_eq_some_iff.1 hb
    unfold World.requestRefresh at hr
    split at hr <;> cases hr
    exact .of_call? rfl
  | release p => exact (offline_releasePlace w p .abandoned).goesOn hb
  | waitIdle =>
    cases hb
    exact .of_call? rfl
  | shutDown => exact (offline_requestShutDown w).goesOn hb
  | diskStat p => exact goesOn_direct (fun _ => ⟨rfl, rfl⟩) (next_beginCall w .stat p (Activity.diskStat p)) hb
  | diskRead p => exact goesOn_direct (fun _ => ⟨rfl, rfl⟩) (next_beginCall w .read p (Activity.diskRead p)) hb
  | diskWrite p bytes => exact goesOn_direct (fun _ => ⟨rfl, rfl⟩) (next_beginCall w .write p (Activity.diskWrite p bytes)) hb

/-- **An operation goes on by its own sections**, from the one in which it is in line. -/
theorem goesOn_step (w : World) (a : Activity) (hb : (w.step a).2.next = some b) : GoesOn w a b := by
  cases a with
  | starting y => exact goesOn_begin w y hb
  | refreshing r =>
    rw [World.step, next_ofPart] at hb
    obtain ⟨r', hr', rfl⟩ := Option.map_eq_some_iff.1 hb
    exact .of_refresh rfl rfl rfl hr'
  | saving x =>
    rw [World.step, next_ofPart] at hb
    obtain ⟨x', hx', rfl⟩ := Option.map_eq_some_iff.1 hb
    constructor
    · intro r hr
      cases hr
    · intro x₁ h
      cases h
      exact Or.inr ⟨x, rfl, hx'⟩
  | joining p i joined other => exact (offline_stepJoining w p i joined other).goesOn hb
  | synchronizing seat r =>
    simp only [World.step, World.stepSynchronizing] at hb
    rcases hrun : w.stepRefresh r with ⟨w', y | y | y | o⟩ <;> rw [hrun] at hb
    · cases hb
      exact .of_refresh rfl rfl rfl (congrArg (·.2.next) hrun)
    · cases hb
      exact .of_refresh rfl rfl rfl (congrArg (·.2.next) hrun)
    · cases hb
      exact .of_refresh rfl rfl rfl (congrArg (·.2.next) hrun)
    · cases o with
      | ok news =>
        cases hb
        exact .of_call? rfl
      | error e => exact .of_call? ((offline_releasePlace w' seat.path (.failed seat e)).next b hb).1
  | settling seat y => exact (offline_stepSettling w seat y).goesOn hb
  | tearingDown p turn l => exact (offline_stepTearingDown w p turn l).goesOn hb
  | awaitingQuiet => exact (offline_stepAwaitingQuiet w).goesOn hb
  | closing paths => exact (offline_stepClosing w paths).goesOn hb
  | draining p turn rest => exact (offline_stepDraining w p turn rest).goesOn hb
  | listening p i => exact (offline_stepListening w p i).goesOn hb
  | pumping y => exact (offline_stepPumping w y).goesOn hb
  | diskStat p c =>
    cases c with
    | held g => exact goesOn_direct (fun _ => ⟨rfl, rfl⟩) (next_atGate w g (Activity.diskStat p)) hb
    | due => cases hb
  | diskRead p c =>
    cases c with
    | held g => exact goesOn_direct (fun _ => ⟨rfl, rfl⟩) (next_atGate w g (Activity.diskRead p)) hb
    | due => cases hb
  | diskWrite p bytes c =>
    cases c with
    | held g => exact goesOn_direct (fun _ => ⟨rfl, rfl⟩) (next_atGate w g (Activity.diskWrite p bytes)) hb
    | due => cases hb

/-- what a task is about after a move: as before, new, or what its own section has led to -/
theorem phase?_move (hw : Wf w) {ph : Phase} (h : (w.move m).tasks.phase? id = some ph) :
    w.tasks.phase? id = some ph ∨ (ph.activity.refresh? = none ∧ ph.activity.save? = none) ∨
      ∃ a, w.carried? m = some (id, a) ∧ GoesOn (floorTo w id) a ph.activity := by
  by_cases hm : w.serves m id = true
  · obtain ⟨rfl, hgo⟩ := serves_iff.1 hm
    rw [World.move] at h
    cases hs : w.served? id with
    | none => exact Or.inl ((phase?_serve_of_nobody hs id).symm.trans h)
    | some u =>
      cases hc : u.cancelled with
      | true => cases (phase?_serve_of_cancelled hw hs hc).symm.trans h
      | false =>
        rw [phase?_serve hw hs hc] at h
        obtain ⟨b, hb, rfl⟩ := Option.map_eq_some_iff.1 h
        exact Or.inr (Or.inr ⟨_, carried?_of_served hs hc, goesOn_step _ _ hb⟩)
  · rcases phase?_newcomer hw (Bool.eq_false_iff.2 hm) with hsame | ⟨-, hnew⟩
    · exact Or.inl (hsame.symm.trans h)
    · refine Or.inr (Or.inl ?_)
      rcases (hnew ph h).cases with ⟨y, hy, -⟩ | ⟨p, i, hy⟩ | ⟨s, hy⟩ <;> rw [hy] <;> exact ⟨rfl, rfl⟩

/-- a reconciliation after a move -/
theorem refreshes_move (hw : Wf w) (h : (w.move m).Refreshes id r) :
    w.Refreshes id r ∨ r.look? = none ∨
      ∃ a r₀, w.carried? m = some (id, a) ∧ a.refresh? = some r₀ ∧ ((floorTo w id).stepRefresh r₀).2.next = some r := by
  obtain ⟨ph, hph, hr⟩ := h
  rcases phase?_move hw hph with hph | ⟨hno, -⟩ | ⟨a, ha, hcont⟩
  · exact Or.inl ⟨ph, hph, hr⟩
  · cases hno.symm.trans hr
  · refine Or.inr ((hcont.refresh r hr).imp_right ?_)
    rintro ⟨r₀, hr₀, hn⟩
    exact ⟨a, r₀, ha, hr₀, hn⟩

/-- a write after a move -/
theorem saves_move (hw : Wf w) (h : (w.move m).Saves id x) :
    w.Saves id x ∨ (∃ job, x = .queued job) ∨
      ∃ a x₀, w.carried? m = some (id, a) ∧ a.save? = some x₀ ∧ ((floorTo w id).stepSave x₀).2.next = some x := by
  obtain ⟨ph, hph, hx⟩ := h
  rcases phase?_move hw hph with hph | ⟨-, hno⟩ | ⟨a, ha, hcont⟩
  · exact Or.inl ⟨ph, hph, hx⟩
  · cases hno.symm.trans hx
  · refine Or.inr ((hcont.save x hx).imp_right ?_)
    rintro ⟨x₀, hx₀, hn⟩
    exact ⟨a, x₀, ha, hx₀, hn⟩

/-! ## Stages of a reconciliation -/

/-- a section of a reconciliation leads from one stage to the next, or has it wait where it is -/
inductive Onward (d : Disk) : Refresh → Refresh → Prop
  | inLine (p : Path) (q : QueryId) (τ : Turn) : Onward d (.queued p q τ) (.queued p q τ)
  | taken (p : Path) (q : QueryId) (τ : Turn) (l : Look) (c : Call) (hp : l.path = p) (hτ : l.turn = τ) :
      Onward d (.queued p q τ) (.looking l c)
  | looking (l : Look) (g : GateId) (c : Call) : Onward d (.looking l (.held g)) (.looking l c)
  /-- the file is read only if its date is new -/
  | reads (l : Look) (st : FileStat) (c : Call) (hst : d.stat l.path = .ok (some st))
      (hnew : ¬ (l.had = true ∧ st.modified = l.last)) : Onward d (.looking l .due) (.reading l st.modified c)
  | reading (l : Look) (date : Instant) (g : GateId) (c : Call) : Onward d (.reading l date (.held g)) (.reading l date c)
  | fails (l : Look) (date : Instant) (f : Failure) (c : Call) : Onward d (.reading l date .due) (.lookingAgain l f c)
  | lookingAgain (l : Look) (f : Failure) (g : GateId) (c : Call) :
      Onward d (.lookingAgain l f (.held g)) (.lookingAgain l f c)

theorem onward_stepRefresh (h : (w.stepRefresh r).2.next = some r') : Onward w.disk r r' := by
  cases r with
  | queued p q τ =>
    simp only [World.stepRefresh] at h
    split at h
    · unfold World.enterRefresh at h
      split at h
      · cases h
      · split at h
        · cases h
        · rename_i e _ _
          obtain ⟨c, hc⟩ := next_beginCall (α := Refreshed)
            (w.setEntry p { e with pendingQuery := none, pendingSignal := none, runningSignal := e.pendingSignal }) .stat p
            (Refresh.looking ⟨p, τ, e.pendingSignal, e.contents.isSome, e.modified⟩)
          cases hc.symm.trans h
          exact .taken p q τ _ c rfl rfl
    · cases h
      exact .inLine p q τ
  | looking l c =>
    cases c with
    | held g =>
      obtain ⟨c, hc⟩ := next_atGate (α := Refreshed) w g (Refresh.looking l)
      cases hc.symm.trans h
      exact .looking l g c
    | due =>
      simp only [World.stepRefresh, World.haveLooked] at h
      split at h
      · cases h
      · rw [(disk_conclude _ l _).2] at h
        cases h
      · split at h
        · rw [(disk_conclude _ l _).2] at h
          cases h
        · rename_i st hst hnew
          obtain ⟨c, hc⟩ := next_beginCall (α := Refreshed) (w.leaveDisk l.path) .read l.path (Refresh.reading l st.modified)
          cases hc.symm.trans h
          exact .reads l st c hst (by simpa using hnew)
  | reading l date c =>
    cases c with
    | held g =>
      obtain ⟨c, hc⟩ := next_atGate (α := Refreshed) w g (Refresh.reading l date)
      cases hc.symm.trans h
      exact .reading l date g c
    | due =>
      simp only [World.stepRefresh, World.haveRead] at h
      split at h
      · rw [(disk_conclude _ l _).2] at h
        cases h
      · rename_i f _
        obtain ⟨c, hc⟩ := next_beginCall (α := Refreshed) (w.leaveDisk l.path) .stat l.path (Refresh.lookingAgain l f)
        cases hc.symm.trans h
        exact .fails l date f c
  | lookingAgain l f c =>
    cases c with
    | held g =>
      obtain ⟨c, hc⟩ := next_atGate (α := Refreshed) w g (Refresh.lookingAgain l f)
      cases hc.symm.trans h
      exact .lookingAgain l f g c
    | due =>
      simp only [World.stepRefresh, World.haveLookedAgain] at h
      split at h
      · cases h
      · rw [(disk_conclude _ l _).2] at h
        cases h
      · cases h

/-! ## Along a run -/

theorem Activity.eq_of_save (h : a.save? = some x) : a = .saving x := by
  cases a <;> cases h
  rfl

theorem saves_of_carried (h : w.carried? m = some (id, a)) (hx : a.save? = some x) : w.Saves id x := by
  obtain ⟨ρ, hph⟩ := phase?_carried h
  exact ⟨⟨ρ, a⟩, hph, hx⟩

theorem refreshes_of_carried (h : w.carried? m = some (id, a)) (hr : a.refresh? = some r) : w.Refreshes id r := by
  obtain ⟨ρ, hph⟩ := phase?_carried h
  exact ⟨⟨ρ, a⟩, hph, hr⟩

/-- a task carries out one operation at a time -/
theorem refreshes_unique (h : w.Refreshes id r) (h' : w.Refreshes id r') : r = r' := by
  obtain ⟨ph, hph, hr⟩ := h
  obtain ⟨ph', hph', hr'⟩ := h'
  cases hph.symm.trans hph'
  exact Option.some.inj (hr.symm.trans hr')

/-- a write looks up the date once it has put its bytes in place -/
theorem looking_of_stepSave {c : Call} (h : (w.stepSave x).2.next = some (.looking job c)) :
    (∃ c', x = .looking job c') ∨ x = .writing job .due ∧
      ∃ f, (w.stepSave x).1.disk.file? job.path = some f ∧ f.bytes = job.bytes := by
  cases x with
  | queued job' =>
    simp only [World.stepSave] at h
    split at h
    · obtain ⟨c, hc⟩ := next_beginCall (α := Saved) w .write job'.path (Save.writing job')
      cases hc.symm.trans h
    · cases h
  | writing job' c' =>
    cases c' with
    | held g =>
      obtain ⟨c, hc⟩ := next_atGate (α := Saved) w g (Save.writing job')
      cases hc.symm.trans h
    | due =>
      simp only [World.stepSave, World.haveWritten] at h ⊢
      split at h
      · rw [(disk_failSave _ job' _).2] at h
        cases h
      · rename_i hok
        obtain ⟨c, hc⟩ := next_beginCall (α := Saved)
          ({ w with disk := (w.disk.write job'.path job'.bytes).1 }.leaveDisk job'.path) .stat job'.path (Save.looking job')
        cases hc.symm.trans h
        refine Or.inr ⟨rfl, ?_⟩
        rw [disk_beginCall]
        unfold Disk.write at hok ⊢
        split at hok
        · cases hok
        · exact ⟨⟨job.bytes, _⟩, (Table.get?_insert _ _ _ _).trans (if_pos rfl), rfl⟩
  | looking job' c' =>
    cases c' with
    | held g =>
      obtain ⟨c, hc⟩ := next_atGate (α := Saved) w g (Save.looking job')
      cases hc.symm.trans h
      exact Or.inl ⟨_, rfl⟩
    | due =>
      simp only [World.stepSave, World.haveLookedUp] at h
      split at h
      · rw [(disk_failSave _ job' _).2] at h
        cases h
      · rw [(disk_failSave _ job' _).2] at h
        cases h
      · rw [(disk_commitSave _ job' _).2] at h
        cases h

section Trace

variable {policy : WritePolicy} {moves : Nat → Move} {n : Nat}

/-- **A write that looks up the date of the file has put its bytes in place before.** -/
theorem written_trace {c : Call} (h : ((World.start policy).trace moves n).Saves id (.looking job c)) :
    ∃ k, k < n ∧ ((World.start policy).trace moves k).carried? (moves k) = some (id, .saving (.writing job .due)) ∧
      ∃ f, ((World.start policy).trace moves (k + 1)).disk.file? job.path = some f ∧ f.bytes = job.bytes := by
  induction n generalizing c with
  | zero =>
    obtain ⟨ph, hph, -⟩ := h
    cases hph
  | succ n ih =>
    have hbefore : ∀ {c'}, ((World.start policy).trace moves n).Saves id (.looking job c') →
        ∃ k, k < n + 1 ∧ ((World.start policy).trace moves k).carried? (moves k) = some (id, .saving (.writing job .due)) ∧
          ∃ f, ((World.start policy).trace moves (k + 1)).disk.file? job.path = some f ∧ f.bytes = job.bytes := by
      intro c' hsaves
      obtain ⟨k, hk, hwrite⟩ := ih hsaves
      exact ⟨k, Nat.lt_succ_of_lt hk, hwrite⟩
    rcases saves_move (reachable_trace policy moves n).wf h with hsame | ⟨job', hq⟩ | ⟨a, x₀, ha, hx₀, hn⟩
    · exact hbefore hsame
    · cases hq
    · rcases looking_of_stepSave hn with ⟨c', rfl⟩ | ⟨rfl, hfile⟩
      · exact hbefore (saves_of_carried ha hx₀)
      · cases Activity.eq_of_save hx₀
        refine ⟨n, Nat.lt_succ_self n, ha, ?_⟩
        obtain ⟨u, hm, hs, hc, hact⟩ := carried?_eq_some.1 ha
        rw [World.trace, hm, World.move, (core_serve_of_section hs hc).2, hact, World.step, fst_ofPart]
        exact hfile

/-- **A reconciliation that reads a file has the date that it found when it looked.** -/
theorem date_trace {i j : Nat} (hi : ((World.start policy).trace moves i).carried? (moves i) = some (id, a))
    (ha : a.refresh? = some (.looking l .due)) (hij : i < j) (hj : ((World.start policy).trace moves j).Refreshes id r)
    (hl : r.look? = some l) :
    (∃ st c, ((World.start policy).trace moves i).disk.stat l.path = .ok (some st) ∧ r = .reading l st.modified c) ∨
      ∃ f c, r = .lookingAgain l f c := by
  have hwi := (reachable_trace policy moves i).wf
  have hlook := refreshes_of_carried hi ha
  induction j, hij using Nat.le_induction generalizing r with
  | base =>
    obtain ⟨u, hm, hs, hc, rfl⟩ := carried?_eq_some.1 hi
    rw [World.trace, hm, World.move, refreshes_serve hwi hs hc] at hj
    obtain ⟨b, hb, hr⟩ := Option.bind_eq_some_iff.1 hj
    rcases (goesOn_step _ _ hb).refresh r hr with hno | ⟨r₀, hr₀, hn⟩
    · cases hno.symm.trans hl
    · cases ha.symm.trans hr₀
      have hon := onward_stepRefresh hn
      rw [disk_floorTo] at hon
      cases hon with
      | reads _ st c hst _ => exact Or.inl ⟨st, c, hst, rfl⟩
  | succ n hn ih =>
    rcases refreshes_move (reachable_trace policy moves n).wf hj with hsame | hno | ⟨b, r₀, hb, hr₀, hnext⟩
    · exact ih hsame hl
    · cases hno.symm.trans hl
    · have hbefore := refreshes_of_carried hb hr₀
      have hon := onward_stepRefresh hnext
      cases hon with
      | inLine => cases hl
      | taken p q τ l' c hp hτ =>
        -- it would have been in line when it looked
        cases hl
        have hfresh : τ.id < ((World.start policy).trace moves i).turns.nextTurn :=
          hwi.sound.turns.fresh id τ (by rw [held, errand_of_refreshes hlook, ← hτ]; rfl)
        cases refreshes_unique (queued_trace (Nat.le_of_succ_le hn) hbefore hfresh) hlook
      | looking _ g c =>
        cases hl
        rcases ih hbefore rfl with ⟨_, _, -, h⟩ | ⟨_, _, h⟩ <;> cases h
      | reads _ st c =>
        cases hl
        rcases ih hbefore rfl with ⟨_, _, -, h⟩ | ⟨_, _, h⟩ <;> cases h
      | reading _ date g c =>
        cases hl
        rcases ih hbefore rfl with ⟨st, _, hst, h⟩ | ⟨_, _, h⟩ <;> cases h
        exact Or.inl ⟨st, c, hst, rfl⟩
      | fails _ date f c =>
        cases hl
        exact Or.inr ⟨f, c, rfl⟩
      | lookingAgain _ f g c =>
        cases hl
        exact Or.inr ⟨f, c, rfl⟩

end Trace

end LiveFiles.Engine
