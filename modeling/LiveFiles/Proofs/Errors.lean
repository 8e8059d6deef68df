/-
What the errors of calls are due to.
- **`blame_step`**: an error with which a section ends is that of an engine that has been shut down, of a write that is
  rejected, of a failure that the disk reports or has reported before, or of an entry that is gone (`Blame`).
- `reported_lookingAgain`, `reported_failed`: what a task remembers of an error until it ends is a failure of the disk.
- **`causes_of_endings`**: in every run the error that a call has returned is due to something that has happened in it
  (`Causes`).
- `Disk.Reports.ne_lostEntry`: no failure of a disk reads like the loss of an entry.
-/
import LiveFiles.Proofs.Returns

namespace LiveFiles

/-! ## Failures of a disk -/

/-- the disk reports a failure, of one of its operations at a path -/
def Disk.Reports (d : Disk) (f : Failure) : Prop :=
  ∃ p, d.stat p = .error f ∨ d.read p = .error f ∨ ∃ bytes, (d.write p bytes).2 = .error f

/-- what is quoted ends with a quotation mark -/
theorem getLast?_quoted (s : String) (p : Path) : (s ++ p.quoted).toList.getLast? = some '"' := by
  simp only [Path.quoted, Text.quoted, String.toList_append, String.toList_ofList,
    ← List.append_assoc, List.getLast?_concat]

theorem Disk.failure?_message {d : Disk} {op : DiskOp} {p : Path} {f : Failure} (h : d.failure? op p = some f) :
    f.message.toList.getLast? = some '"' := by
  obtain ⟨message, -, rfl⟩ := Option.map_eq_some_iff.1 h
  exact getLast?_quoted _ p

/-- the text of a failure ends with a quoted path, or tells of a file that is no text -/
theorem Disk.Reports.message {d : Disk} {f : Failure} (h : d.Reports f) :
    f.message.toList.getLast? = some '"' ∨ f.message.toList.head? = some 'I' := by
  obtain ⟨p, h | h | ⟨bytes, h⟩⟩ := h
  · unfold Disk.stat at h
    split at h <;> cases h
    exact Or.inl (Disk.failure?_message ‹_›)
  · unfold Disk.read at h
    split at h
    · cases h
      exact Or.inl (Disk.failure?_message ‹_›)
    · split at h
      · cases h
        exact Or.inl (getLast?_quoted _ p)
      · split at h
        · cases h
        · cases h
          exact Or.inr (by simp [ToString.toString])
  · unfold Disk.write at h
    split at h <;> cases h
    exact Or.inl (Disk.failure?_message ‹_›)

/-- no failure of a disk reads like the loss of an entry -/
theorem Disk.Reports.ne_lostEntry {d : Disk} {f : Failure} (h : d.Reports f) (p : Path) :
    Problem.other f ≠ Engine.World.lostEntry p := by
  intro he
  cases he
  rcases h.message with h | h
  · have hlast : " vanished while subscribing".toList.getLast? = some 'g' := by decide
    rw [String.toList_append, List.getLast?_append] at h
    cases (congrArg (Option.or · _) hlast).symm.trans h
  · simp [ToString.toString] at h

namespace Engine

variable {w w' : World} {m : Move} {id : TaskId} {t : Task Phase} {a b : Activity} {p : Path} {e : Problem} {f : Failure}
  {σ α : Type}

/-! ## What an error is due to -/

/-- What an error with which a section of a task ends is due to. -/
inductive Blame (w : World) : Activity → Problem → Prop
  /-- the engine takes no more work -/
  | shutDown (r : Request) (h : w.isShutDown = true) : Blame w (.starting r) .shutDown
  | rejected (p : Path) (bytes : ByteArray) (hp : w.policy = .reject) (h : w.entry? p = none) :
      Blame w (.starting (.write p bytes)) (.unwatchedWrite p)
  /-- the disk fails, or the file is still there after reading it has failed -/
  | refresh {a : Activity} (r : Refresh) (f : Failure) (hr : a.refresh? = some r) (h : r.fails w.disk = true)
      (hf : w.disk.Reports f ∨ ∃ l c, r = .lookingAgain l f c) : Blame w a (.other f)
  | save {a : Activity} (x : Save) (e : Problem) (hx : a.save? = some x) (h : x.fails w.disk = true)
      (he : (e = .vanished x.job.path ∧ w.disk.file? x.job.path = none) ∨ ∃ f, e = .other f ∧ w.disk.Reports f) :
      Blame w a e
  /-- the first synchronization has failed before -/
  | failed (p : Path) (turn : Option Turn) (seat : Seat) (e : Problem) : Blame w (.tearingDown p turn (.failed seat e)) e
  /-- the entry is gone -/
  | lost (seat : Seat) (signal : Option SignalId) (h : w.entry? seat.path = none) :
      Blame w (.settling seat signal) (World.lostEntry seat.path)
  | direct {a : Activity} (f : Failure) (ha : a.isDirect = true) (hf : w.disk.Reports f) : Blame w a (.other f)

theorem conclude_ne_error (w : World) (l : Look) (o : Observation) (x : Problem) :
    (w.conclude l o).2 ≠ .ended (.error x) := by
  unfold World.conclude World.endLook
  split <;> simp

theorem beginCall_ne_ended (w : World) (op : DiskOp) (p : Path) (k : Call → σ) (x : α) :
    (w.beginCall op p k).2 ≠ .ended x := by
  unfold World.beginCall
  dsimp only
  split
  · split <;> simp
  · simp

theorem atGate_ne_ended (w : World) (g : GateId) (k : Call → σ) (x : α) : (w.atGate g k).2 ≠ .ended x := by
  unfold World.atGate
  split <;> simp

/-- A reconciliation that ends with an error has the lock, and lets go of what it has taken. It has just looked at the disk: that
has failed, or it has found the file again that it could not read. -/
theorem stepRefresh_of_error {r : Refresh} (h : (w.stepRefresh r).2 = .ended (.error e)) :
    ∃ l f, e = .other f ∧ r.look? = some l ∧ w.stepRefresh r = (w.leaveDisk l.path).endLook l (.error (.other f)) ∧
      (w.disk.stat l.path = .error f ∧ (r = .looking l .due ∨ ∃ f₀, r = .lookingAgain l f₀ .due) ∨
        r = .lookingAgain l f .due ∧ ∃ st, w.disk.stat l.path = .ok (some st)) := by
  cases r with
  | queued p q τ =>
    simp only [World.stepRefresh] at h
    split at h
    · unfold World.enterRefresh at h
      split at h
      · cases h
      · split at h
        · cases h
        · exact absurd h (beginCall_ne_ended _ _ _ _ _)
    · cases h
  | looking l c =>
    cases c with
    | held g => exact absurd h (atGate_ne_ended _ _ _ _)
    | due =>
      simp only [World.stepRefresh, World.haveLooked] at h ⊢
      split at h
      · rename_i f hstat
        cases h
        exact ⟨l, f, rfl, rfl, rfl, Or.inl ⟨hstat, Or.inl rfl⟩⟩
      · exact absurd h (conclude_ne_error _ _ _ _)
      · split at h
        · exact absurd h (conclude_ne_error _ _ _ _)
        · exact absurd h (beginCall_ne_ended _ _ _ _ _)
  | reading l date c =>
    cases c with
    | held g => exact absurd h (atGate_ne_ended _ _ _ _)
    | due =>
      simp only [World.stepRefresh, World.haveRead] at h
      split at h
      · exact absurd h (conclude_ne_error _ _ _ _)
      · exact absurd h (beginCall_ne_ended _ _ _ _ _)
  | lookingAgain l f c =>
    cases c with
    | held g => exact absurd h (atGate_ne_ended _ _ _ _)
    | due =>
      simp only [World.stepRefresh, World.haveLookedAgain] at h ⊢
      split at h
      · rename_i f' hstat
        cases h
        exact ⟨l, f', rfl, rfl, rfl, Or.inl ⟨hstat, Or.inr ⟨f, rfl⟩⟩⟩
      · exact absurd h (conclude_ne_error _ _ _ _)
      · rename_i st hstat
        cases h
        exact ⟨l, f, rfl, rfl, rfl, Or.inr ⟨rfl, st, hstat⟩⟩

/-- **A reconciliation ends with an error only if it fails**; the error is a failure of the disk. -/
theorem fails_of_stepRefresh {r : Refresh} (h : (w.stepRefresh r).2 = .ended (.error e)) :
    r.fails w.disk = true ∧ ∃ f, e = .other f ∧ (w.disk.Reports f ∨ ∃ l c, r = .lookingAgain l f c) := by
  obtain ⟨l, f, rfl, -, -, ⟨hstat, rfl | ⟨f₀, rfl⟩⟩ | ⟨rfl, st, hstat⟩⟩ := stepRefresh_of_error h
  · exact ⟨by simp [Refresh.fails, hstat, Except.toOption], f, rfl, Or.inl ⟨_, Or.inl hstat⟩⟩
  · exact ⟨by simp [Refresh.fails, hstat], f, rfl, Or.inl ⟨_, Or.inl hstat⟩⟩
  · exact ⟨by simp [Refresh.fails, hstat], f, rfl, Or.inr ⟨l, .due, rfl⟩⟩

/-- A write that ends with an error lets go of what it has taken, whatever the disk has done. It has just written or looked for
the file: that has failed, or there is none. -/
theorem stepSave_of_error {x : Save} (h : (w.stepSave x).2 = .ended (.error e)) :
    ∃ (job : SaveJob) (d : Disk), w.stepSave x = { w with disk := d }.failSave job e ∧
      ((∃ f, e = .other f ∧ (x = .writing job .due ∧ (w.disk.write job.path job.bytes).2 = .error f ∨
          x = .looking job .due ∧ w.disk.stat job.path = .error f)) ∨
        e = .vanished job.path ∧ x = .looking job .due ∧ w.disk.stat job.path = .ok none) := by
  cases x with
  | queued job =>
    simp only [World.stepSave] at h
    split at h
    · exact absurd h (beginCall_ne_ended _ _ _ _ _)
    · cases h
  | writing job c =>
    cases c with
    | held g => exact absurd h (atGate_ne_ended _ _ _ _)
    | due =>
      simp only [World.stepSave, World.haveWritten] at h ⊢
      split at h
      · rename_i f hwrite
        cases h
        exact ⟨job, _, rfl, Or.inl ⟨f, rfl, Or.inl ⟨rfl, hwrite⟩⟩⟩
      · exact absurd h (beginCall_ne_ended _ _ _ _ _)
  | looking job c =>
    cases c with
    | held g => exact absurd h (atGate_ne_ended _ _ _ _)
    | due =>
      simp only [World.stepSave, World.haveLookedUp] at h ⊢
      split at h
      · rename_i f hstat
        cases h
        exact ⟨job, _, rfl, Or.inl ⟨f, rfl, Or.inr ⟨rfl, hstat⟩⟩⟩
      · rename_i hstat
        cases h
        exact ⟨job, _, rfl, Or.inr ⟨rfl, rfl, hstat⟩⟩
      · cases h

/-- **A write that has been requested ends with an error only if it fails**: the disk does, or the file is gone. -/
theorem fails_of_stepSave {x : Save} (h : (w.stepSave x).2 = .ended (.error e)) :
    x.fails w.disk = true ∧
      ((e = .vanished x.job.path ∧ w.disk.file? x.job.path = none) ∨ ∃ f, e = .other f ∧ w.disk.Reports f) := by
  obtain ⟨job, -, -, ⟨f, rfl, ⟨rfl, hwrite⟩ | ⟨rfl, hstat⟩⟩ | ⟨rfl, rfl, hstat⟩⟩ := stepSave_of_error h
  · exact ⟨by simp [Save.fails, hwrite, Except.toOption], Or.inr ⟨f, rfl, _, Or.inr (Or.inr ⟨_, hwrite⟩)⟩⟩
  · exact ⟨by simp [Save.fails, hstat], Or.inr ⟨f, rfl, _, Or.inl hstat⟩⟩
  · exact ⟨by simp [Save.fails, hstat], Or.inl ⟨rfl, Disk.file?_of_stat hstat⟩⟩

theorem endLeaving_eq_error {l : Leaving} (h : (w.endLeaving l).2 = .ended (.error e)) : ∃ seat, l = .failed seat e := by
  cases l with
  | failed seat x =>
    cases h
    exact ⟨seat, rfl⟩
  | _ => cases h

theorem releasePlace_eq_error {l : Leaving} (h : (w.releasePlace p l).2 = .ended (.error e)) :
    ∃ seat, l = .failed seat e := by
  unfold World.releasePlace at h
  split at h
  · exact endLeaving_eq_error h
  · dsimp only at h
    split at h
    · cases h
    · exact endLeaving_eq_error h

theorem ofPart_eq_error {phase : σ → Activity} {answer : α → Answer} {r : World × Section σ (Except Problem α)}
    (h : (ofPart phase answer r).2 = .ended (.error e)) : r.2 = .ended (.error e) := by
  obtain ⟨w, x | x | x | (x | x)⟩ := r <;> simp_all [ofPart, Except.map]

theorem answered_eq_error {answer : α → Answer} {r : Except Failure α}
    (h : (answered w answer r).2 = .ended (.error e)) : ∃ f, e = .other f ∧ r = .error f := by
  cases r with
  | ok x => cases h
  | error f =>
    cases h
    exact ⟨f, rfl, rfl⟩

theorem blame_begin {r : Request} (h : (w.begin r).2 = .ended (.error e)) : Blame w (.starting r) e := by
  cases r with
  | watch p x =>
    simp only [World.begin, World.requestWatch] at h
    split at h
    · rename_i hdown
      cases h
      exact .shutDown _ hdown
    · cases h
  | unwatch p x =>
    simp only [World.begin, World.unwatch] at h
    split at h
    · cases h
    · split at h
      · cases h
      · obtain ⟨seat, hl⟩ := releasePlace_eq_error h
        cases hl
  | write p bytes =>
    have h' := ofPart_eq_error h
    unfold World.requestSave at h'
    split at h'
    · rename_i hdown
      cases h'
      exact .shutDown _ hdown
    · split at h'
      · rename_i hno
        split at h'
        · rename_i hreject
          cases h'
          exact .rejected p bytes hreject hno
        · cases h'
      · cases h'
  | reconcile p =>
    have h' := ofPart_eq_error h
    unfold World.requestRefresh at h'
    split at h' <;> cases h'
  | release p =>
    obtain ⟨seat, hl⟩ := releasePlace_eq_error h
    cases hl
  | waitIdle => cases h
  | shutDown => cases h
  | diskStat p => exact absurd h (beginCall_ne_ended _ _ _ _ _)
  | diskRead p => exact absurd h (beginCall_ne_ended _ _ _ _ _)
  | diskWrite p bytes => exact absurd h (beginCall_ne_ended _ _ _ _ _)

/-- **What the error of a section is due to.** -/
theorem blame_step (h : (w.step a).2 = .ended (.error e)) : Blame w a e := by
  cases a with
  | starting r => exact blame_begin h
  | refreshing r =>
    obtain ⟨hf, f, rfl, hrep⟩ := fails_of_stepRefresh (ofPart_eq_error h)
    exact .refresh r f rfl hf hrep
  | saving x =>
    obtain ⟨hf, he⟩ := fails_of_stepSave (ofPart_eq_error h)
    exact .save x e rfl hf he
  | joining p x joined other =>
    simp only [World.step, World.stepJoining] at h
    split at h
    · cases h
    · split at h
      · cases h
      · split at h
        · cases h
        · unfold World.takePlace at h
          dsimp only at h
          split at h <;> cases h
  | synchronizing seat r =>
    simp only [World.step, World.stepSynchronizing] at h
    rcases hx : w.stepRefresh r with ⟨w₁, x | x | x | (x | x)⟩ <;> rw [hx] at h <;> dsimp only at h
    · cases h
    · cases h
    · cases h
    · obtain ⟨seat', hl⟩ := releasePlace_eq_error h
      cases hl
      obtain ⟨hf, f, rfl, hrep⟩ := fails_of_stepRefresh (w := w) (r := r) (by rw [hx])
      exact .refresh r f rfl hf hrep
    · cases h
  | settling seat signal =>
    simp only [World.step, World.stepSettling] at h
    split at h
    · cases h
    · split at h
      · cases h
      · unfold World.register at h
        split at h
        · rename_i hno
          cases h
          exact .lost seat signal hno
        · cases h
  | tearingDown p turn l =>
    simp only [World.step, World.stepTearingDown] at h
    rcases hx : w.awaitIdle p turn with ⟨w₁, x | x | x | x⟩ <;> rw [hx] at h <;> dsimp only at h
    · cases h
    · cases h
    · cases h
    · have hleave : ∃ seat, l = .failed seat e := by
        split at h <;> exact endLeaving_eq_error h
      obtain ⟨seat, rfl⟩ := hleave
      exact .failed p turn seat e
  | awaitingQuiet =>
    simp only [World.step, World.stepAwaitingQuiet] at h
    split at h <;> cases h
  | closing paths =>
    simp only [World.step, World.stepClosing] at h
    split at h
    · cases paths <;> cases h
    · cases h
  | draining p turn rest =>
    simp only [World.step, World.stepDraining] at h
    rcases hx : w.awaitIdle p turn with ⟨w₁, x | x | x | x⟩ <;> rw [hx] at h <;> dsimp only at h
    · cases h
    · cases h
    · cases h
    · cases rest <;> cases h
  | diskStat p c =>
    cases c with
    | held g => exact absurd h (atGate_ne_ended _ _ _ _)
    | due =>
      obtain ⟨f, rfl, hf⟩ := answered_eq_error h
      exact .direct f rfl ⟨p, Or.inl hf⟩
  | diskRead p c =>
    cases c with
    | held g => exact absurd h (atGate_ne_ended _ _ _ _)
    | due =>
      obtain ⟨f, rfl, hf⟩ := answered_eq_error h
      exact .direct f rfl ⟨p, Or.inr (Or.inl hf)⟩
  | diskWrite p bytes c =>
    cases c with
    | held g => exact absurd h (atGate_ne_ended _ _ _ _)
    | due =>
      obtain ⟨f, rfl, hf⟩ := answered_eq_error h
      exact .direct f rfl ⟨p, Or.inr (Or.inr ⟨bytes, hf⟩)⟩
  | listening p x =>
    simp only [World.step, World.stepListening] at h
    split at h <;> cases h
  | pumping x =>
    simp only [World.step, World.stepPumping] at h
    split at h <;> cases h

/-! ## Errors that are remembered -/

/-- a reconciliation remembers the failure with which reading the file has ended -/
theorem next_lookingAgain {r : Refresh} {l : Look} {c : Call}
    (h : (w.stepRefresh r).2.next = some (.lookingAgain l f c)) : w.disk.Reports f ∨ ∃ c', r = .lookingAgain l f c' := by
  cases r with
  | queued p q τ => cases onward_stepRefresh h
  | looking l' c' => cases onward_stepRefresh h
  | reading l' date c' =>
    cases c' with
    | held g => cases onward_stepRefresh h
    | due =>
      simp only [World.stepRefresh, World.haveRead] at h
      split at h
      · rw [(disk_conclude _ _ _).2] at h
        cases h
      · rename_i f' hread
        obtain ⟨c₁, hc₁⟩ :=
          next_beginCall (α := Refreshed) (w.leaveDisk l'.path) .stat l'.path (Refresh.lookingAgain l' f')
        rw [hc₁] at h
        cases h
        exact Or.inl ⟨_, Or.inr (Or.inl hread)⟩
  | lookingAgain l' f' c' =>
    cases onward_stepRefresh h
    exact Or.inr ⟨_, rfl⟩

theorem next_releasePlace_failed {l : Leaving} {q : Path} {turn : Option Turn} {seat : Seat}
    (h : (w.releasePlace p l).2.next = some (.tearingDown q turn (.failed seat e))) : l = .failed seat e := by
  rcases next_releasePlace w p l with hn | hn <;> rw [hn] at h <;> cases h
  rfl

/-- whoever is about to drop an entry was so before, or has just given the last place back -/
theorem Shift.tearing {v v' : Places} {turn : Option Turn} {l : Leaving}
    (h : Shift v a v' (some (.tearingDown p turn l))) :
    (∃ q turn' l', a = .tearingDown q turn' l') ∨ (∃ seat r, a = .synchronizing seat r) ∨
      (∃ seat x, a = .settling seat x) ∨ (∃ q, a = .starting (.release q)) ∨
        ∃ q x, a = .starting (.unwatch q x) := by
  have hcases : a.tears?.isSome ∨ a.place?.isSome ∨ ∃ q x, a = .starting (.unwatch q x) := by
    cases h with
    | steady ha hv hp ht hc =>
      rw [← ht]
      exact Or.inl rfl
    | take q r armed ha hr hv hn =>
      obtain ⟨b, hb, -, ht, -⟩ := hn
      cases hb
      cases ht
    | releaseLast q r registered hr ha hz hv hn =>
      rcases ha with ⟨ha, -⟩ | ⟨x, ha, -⟩
      · exact Or.inr (Or.inl (by rw [ha]; rfl))
      · exact Or.inr (Or.inr ⟨q, x, ha⟩)
    | shutDown ds ha hds hv hn =>
      obtain ⟨paths, hn⟩ := hn
      cases hn
    | lost _ _ _ _ hn => cases hn
    | spared _ _ _ _ hn => cases hn
    | drop _ _ _ _ _ _ hn => cases hn
    | register _ _ _ _ _ _ hn => cases hn
    | release _ _ _ _ _ _ _ hn => cases hn
    | forget _ _ hn => cases hn
  rcases hcases with ht | hp | hu
  · cases a <;> first | exact Or.inl ⟨_, _, _, rfl⟩ | cases ht
  · cases a with
    | synchronizing seat r => exact Or.inr (Or.inl ⟨seat, r, rfl⟩)
    | settling seat x => exact Or.inr (Or.inr (Or.inl ⟨seat, x, rfl⟩))
    | starting r => cases r <;> first | exact Or.inr (Or.inr (Or.inr (Or.inl ⟨_, rfl⟩))) | cases hp
    | _ => cases hp
  · exact Or.inr (Or.inr (Or.inr (Or.inr hu)))

/-- a call to watch remembers why its first synchronization has failed -/
theorem next_failed {turn : Option Turn} {seat : Seat}
    (h : (w.step a).2.next = some (.tearingDown p turn (.failed seat e))) :
    (∃ q turn', a = .tearingDown q turn' (.failed seat e)) ∨
      ∃ r, a = .synchronizing seat r ∧ (w.stepRefresh r).2 = .ended (.error e) := by
  have hshift := (turnover_step w a).shift
  rw [h] at hshift
  rcases hshift.tearing with ⟨q, turn', l, rfl⟩ | ⟨seat', r, rfl⟩ | ⟨seat', x, rfl⟩ | ⟨q, rfl⟩ | ⟨q, x, rfl⟩
  · simp only [World.step, World.stepTearingDown] at h
    rcases hx : w.awaitIdle q turn' with ⟨w₁, x | x | x | x⟩ <;> rw [hx] at h <;> dsimp only at h
    · cases h
      exact Or.inl ⟨_, _, rfl⟩
    · cases h
      exact Or.inl ⟨_, _, rfl⟩
    · cases h
      exact Or.inl ⟨_, _, rfl⟩
    · split at h <;> rw [next_endLeaving] at h <;> cases h
  · simp only [World.step, World.stepSynchronizing] at h
    rcases hx : w.stepRefresh r with ⟨w₁, x | x | x | (x | x)⟩ <;> rw [hx] at h <;> dsimp only at h
    · cases h
    · cases h
    · cases h
    · cases next_releasePlace_failed h
      exact Or.inr ⟨r, rfl, by rw [hx]⟩
    · cases h
  · simp only [World.step, World.stepSettling] at h
    split at h
    · cases h
    · split at h
      · cases h
      · unfold World.register at h
        split at h <;> cases h
  · cases next_releasePlace_failed h
  · simp only [World.step, World.begin, World.unwatch] at h
    split at h
    · cases h
    · split at h
      · cases h
      · cases next_releasePlace_failed h

/-! ## Along a run -/

section Trace

variable {policy : WritePolicy} {moves : Nat → Move} {n : Nat}

theorem policy_floorTo (w : World) (id : TaskId) : (floorTo w id).policy = w.policy := by
  unfold floorTo
  split <;> rfl

/-- the disk has reported a failure in the run -/
def Reported (w : World) (moves : Nat → Move) (n : Nat) (f : Failure) : Prop :=
  ∃ k, k < n ∧ (w.trace moves k).disk.Reports f

theorem Reported.succ (h : Reported w moves n f) : Reported w moves (n + 1) f := by
  obtain ⟨k, hk, hf⟩ := h
  exact ⟨k, hk.trans (Nat.lt_succ_self n), hf⟩

/-- a reconciliation that looks at a file again remembers a failure that the disk has reported -/
theorem reported_lookingAgain {l : Look} {c : Call}
    (h : ((World.start policy).trace moves n).Refreshes id (.lookingAgain l f c)) :
    Reported (World.start policy) moves n f := by
  induction n generalizing c with
  | zero =>
    obtain ⟨ph, hph, -⟩ := h
    cases hph
  | succ n ih =>
    rcases refreshes_move (reachable_trace policy moves n).wf h with h | h | ⟨a, r, ha, hr, hn⟩
    · exact (ih h).succ
    · cases h
    · rcases next_lookingAgain hn with hf | ⟨c', rfl⟩
      · rw [disk_floorTo] at hf
        exact ⟨n, Nat.lt_succ_self n, hf⟩
      · exact (ih (refreshes_of_carried ha hr)).succ

/-- **A reconciliation that ends with an error ends with a failure that the disk has reported.** -/
theorem reported_stepRefresh {a : Activity} {r : Refresh}
    (ha : ((World.start policy).trace moves n).carried? (moves n) = some (id, a)) (hr : a.refresh? = some r)
    (h : ((floorTo ((World.start policy).trace moves n) id).stepRefresh r).2 = .ended (.error e)) :
    ∃ f, e = .other f ∧ Reported (World.start policy) moves (n + 1) f := by
  obtain ⟨-, f, rfl, hf | ⟨l, c, rfl⟩⟩ := fails_of_stepRefresh h
  · rw [disk_floorTo] at hf
    exact ⟨f, rfl, n, Nat.lt_succ_self n, hf⟩
  · exact ⟨f, rfl, (reported_lookingAgain (refreshes_of_carried ha hr)).succ⟩

/-- **What a call to watch remembers of its first synchronization is a failure that the disk has reported.** -/
theorem reported_failed {ph : Phase} {turn : Option Turn} {seat : Seat}
    (h : ((World.start policy).trace moves n).tasks.phase? id = some ph)
    (ha : ph.activity = .tearingDown p turn (.failed seat e)) :
    ∃ f, e = .other f ∧ Reported (World.start policy) moves n f := by
  induction n generalizing ph p turn with
  | zero => cases h
  | succ n ih =>
    rcases phase?_cases (reachable_trace policy moves n).wf h with h | ⟨-, hnew⟩ | ⟨a, hcarry, hn⟩
    · obtain ⟨f, hf, hrep⟩ := ih h ha
      exact ⟨f, hf, hrep.succ⟩
    · rcases hnew.cases with ⟨r, hr, -⟩ | ⟨q, x, hr⟩ | ⟨x, hr⟩ <;> cases ha.symm.trans hr
    · rw [ha] at hn
      rcases next_failed hn with ⟨q, turn', rfl⟩ | ⟨r, rfl, hend⟩
      · obtain ⟨t, -, hs, -, hact⟩ := carried?_eq_some.1 hcarry
        obtain ⟨f, hf, hrep⟩ := ih (phase?_of_served hs) hact
        exact ⟨f, hf, hrep.succ⟩
      · exact reported_stepRefresh hcarry rfl hend

/-- What the error of a call is due to, in a run. -/
inductive Causes (w : World) (moves : Nat → Move) (n : Nat) : Problem → Prop
  | shutDown (h : (w.trace moves n).isShutDown = true) : Causes w moves n .shutDown
  | rejected (p : Path) (hp : (w.trace moves n).policy = .reject) (h : (w.trace moves n).isTracked p = false) :
      Causes w moves n (.unwatchedWrite p)
  | vanished (p : Path) (h : (w.trace moves n).disk.file? p = none) : Causes w moves n (.vanished p)
  /-- the disk has reported a failure -/
  | reported (f : Failure) (h : Reported w moves (n + 1) f) : Causes w moves n (.other f)
  /-- a call to watch settles at a path that is not tracked -/
  | lost (id : TaskId) (seat : Seat) (signal : Option SignalId)
      (ha : (w.trace moves n).carried? (moves n) = some (id, .settling seat signal))
      (h : (w.trace moves n).isTracked seat.path = false) : Causes w moves n (World.lostEntry seat.path)

theorem causes_of_replies (h : Replies ((World.start policy).trace moves n) (moves n) id (.error e)) :
    Causes (World.start policy) moves n e := by
  obtain ⟨a, hcarry, hend⟩ := h
  have hdisk := disk_floorTo ((World.start policy).trace moves n) id
  have hentry : ∀ q : Path, World.entry? (floorTo ((World.start policy).trace moves n) id) q = none →
      ((World.start policy).trace moves n).isTracked q = false := fun q hq => by
    have hsame : (floorTo ((World.start policy).trace moves n) id).entries = ((World.start policy).trace moves n).entries :=
      congrArg Core.entries (core_floorTo _ id)
    rw [World.entry?, hsame] at hq
    exact Table.contains_eq_false_iff.2 hq
  cases blame_step hend with
  | shutDown r h => exact .shutDown ((isShutDown_floorTo _ id).symm.trans h)
  | rejected q bytes hp h => exact .rejected q ((policy_floorTo _ id).symm.trans hp) (hentry q h)
  | refresh r f hr h hf =>
    rcases hf with hf | ⟨l, c, rfl⟩
    · exact .reported f ⟨n, Nat.lt_succ_self n, hdisk ▸ hf⟩
    · exact .reported f (reported_lookingAgain (refreshes_of_carried hcarry hr)).succ
  | save x e hx h he =>
    rcases he with ⟨rfl, hgone⟩ | ⟨f, rfl, hf⟩
    · exact .vanished _ (hdisk ▸ hgone)
    · exact .reported f ⟨n, Nat.lt_succ_self n, hdisk ▸ hf⟩
  | failed q turn seat e =>
    obtain ⟨t, -, hs, -, hact⟩ := carried?_eq_some.1 hcarry
    obtain ⟨f, rfl, hrep⟩ := reported_failed (phase?_of_served hs) hact
    exact .reported f hrep.succ
  | lost seat signal h => exact .lost id seat signal hcarry (hentry _ h)
  | direct f ha hf => exact .reported f ⟨n, Nat.lt_succ_self n, hdisk ▸ hf⟩

/-- **Whatever error a call has returned, it is due to something that has happened in the run.** -/
theorem causes_of_endings (h : (id, Ending.returned (.error e)) ∈ ((World.start policy).trace moves n).endings) :
    ∃ k, k < n ∧ Causes (World.start policy) moves k e := by
  obtain ⟨k, hk, hreplies⟩ := replies_of_endings h
  exact ⟨k, hk, causes_of_replies hreplies⟩

end Trace

end Engine

end LiveFiles
