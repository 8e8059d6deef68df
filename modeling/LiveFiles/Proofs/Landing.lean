/-
What a write that returns well has done. It calls the disk twice, to write the bytes and to look up the date, and has the lock
of the path from the one call to the end. Its last section puts the text into the entry that there is by then, if there is one,
and shows it to those who are registered.
- `advance_stepSave`: how a section brings a write on, and which call it begins by that (`Advance`).
- `course_trace`: so at each stage of a write its calls so far are known (`Course`).
- `front_of_replies`: what the last section does.
- `Underway.waiting`: until then, whoever waits for a reconciliation that the write has revoked goes on waiting.
- **`lands_trace`**: in every run, a call to write that returns well has taken effect (`Lands`).
-/
import LiveFiles.Proofs.Awareness
import LiveFiles.Proofs.HeldBack

namespace LiveFiles

/-- of all the calls to the disk, one more has been counted at a path, or none -/
def CountsUp (d d' : Disk) (p : Path) (call : Option DiskOp) : Prop :=
  ∀ op q, d'.callCount op q = d.callCount op q + if call = some op ∧ q.key = p.key then 1 else 0

theorem countsUp_none {d d' : Disk} (h : d'.calls = d.calls) (p : Path) : CountsUp d d' p none := by
  intro op q
  rw [callCount_of_calls h, if_neg fun hcall => by cases hcall.1]
  rfl

namespace Engine

variable {w : World} {m : Move} {i j : TaskId} {a b : Activity} {p : Path} {x x' : Save} {job : SaveJob} {σ α : Type}

theorem countsUp_beginCall {d : Disk} (h : w.disk.calls = d.calls) (op : DiskOp) (p : Path) (k : Call → σ) :
    CountsUp d (w.beginCall (α := α) op p k).1.disk p (some op) := by
  intro op' q
  rw [← callCount_of_calls h, disk_beginCall]
  by_cases hcall : some op = some op' ∧ q.key = p.key
  · obtain ⟨hop, hk⟩ := hcall
    cases hop
    have hcount : ∀ d : Disk, d.callCount op q = d.callCount op p := fun d => by rw [Disk.callCount, Disk.callCount, hk]
    rw [hcount, hcount, if_pos ⟨rfl, hk⟩]
    exact Disk.callCount_enter w.disk op p
  · have hkey : (op, p.key) ≠ (op', q.key) := by
      intro hkey
      obtain ⟨rfl, hk⟩ := Prod.mk.inj hkey
      exact hcall ⟨rfl, hk.symm⟩
    rw [if_neg hcall]
    simp [Disk.enter, Disk.callCount, Table.getD, Table.get?_insert, hkey]

/-! ## How a write goes on -/

/-- how a section brings a write on, and which call to the disk it begins -/
inductive Advance (t : Turns) : Save → Save → Option DiskOp → Prop
  | inLine (job : SaveJob) : Advance t (.queued job) (.queued job) none
  | begins (job : SaveJob) (c : Call) (h : t.holds job.turn = true) :
      Advance t (.queued job) (.writing job c) (some .write)
  | writing (job : SaveJob) (g : GateId) (c : Call) : Advance t (.writing job (.held g)) (.writing job c) none
  | written (job : SaveJob) (c : Call) : Advance t (.writing job .due) (.looking job c) (some .stat)
  | looking (job : SaveJob) (g : GateId) (c : Call) : Advance t (.looking job (.held g)) (.looking job c) none

theorem advance_stepSave (h : (w.stepSave x).2.next = some x') :
    ∃ call, Advance w.turns x x' call ∧ CountsUp w.disk (w.stepSave x).1.disk x.job.path call := by
  match x with
  | .queued job =>
    simp only [World.stepSave] at h ⊢
    split at h
    · rename_i hτ
      obtain ⟨c, hc⟩ := next_beginCall (α := Saved) w .write job.path (Save.writing job)
      cases hc.symm.trans h
      rw [if_pos hτ]
      exact ⟨_, .begins job c hτ, countsUp_beginCall rfl _ _ _⟩
    · rename_i hτ
      cases h
      rw [if_neg hτ]
      exact ⟨_, .inLine job, countsUp_none rfl _⟩
  | .writing job (.held g) =>
    obtain ⟨c, hc⟩ := next_atGate (α := Saved) w g (Save.writing job)
    cases hc.symm.trans h
    exact ⟨_, .writing job g c, countsUp_none (congrArg Disk.calls (disk_atGate w g _)) _⟩
  | .writing job .due =>
    have hcalls : (w.disk.write job.path job.bytes).1.calls = w.disk.calls := by
      unfold Disk.write
      split <;> rfl
    simp only [World.stepSave, World.haveWritten] at h ⊢
    cases hwrite : (w.disk.write job.path job.bytes).2 with
    | error f =>
      rw [hwrite] at h
      cases (disk_failSave _ job _).2.symm.trans h
    | ok u =>
      rw [hwrite] at h
      obtain ⟨c, hc⟩ := next_beginCall (α := Saved)
        ({ w with disk := (w.disk.write job.path job.bytes).1 }.leaveDisk job.path) .stat job.path (Save.looking job)
      cases hc.symm.trans h
      exact ⟨_, .written job c, countsUp_beginCall hcalls _ _ _⟩
  | .looking job (.held g) =>
    obtain ⟨c, hc⟩ := next_atGate (α := Saved) w g (Save.looking job)
    cases hc.symm.trans h
    exact ⟨_, .looking job g c, countsUp_none (congrArg Disk.calls (disk_atGate w g _)) _⟩
  | .looking job .due =>
    simp only [World.stepSave, World.haveLookedUp] at h
    split at h
    · cases (disk_failSave _ job _).2.symm.trans h
    · cases (disk_failSave _ job _).2.symm.trans h
    · cases (disk_commitSave _ job _).2.symm.trans h

/-! ## The calls of a write -/

/-- how many calls to the disk a section of a task begins in this move -/
def World.callsBegun (w : World) (m : Move) (i : TaskId) (op : DiskOp) (q : Path) : Nat :=
  if (w.carried? m).map Prod.fst = some i then (w.move m).disk.callCount op q - w.disk.callCount op q else 0

theorem callsBegun_of_carried (hcarry : w.carried? m = some (i, a)) {call : Option DiskOp}
    (h : CountsUp w.disk ((floorTo w i).step a).1.disk p call) (op : DiskOp) (q : Path) :
    w.callsBegun m i op q = if call = some op ∧ q.key = p.key then 1 else 0 := by
  rw [World.callsBegun, hcarry, Option.map_some, if_pos rfl, disk_of_carried hcarry, h op q, Nat.add_sub_cancel_left]

/-- a write that has made a call has the lock -/
theorem hasLock_of_save (hw : Wf w) (hl : Locked w.core w.stakes) (hx : w.Saves i x) (hcall : x.call? ≠ none) :
    w.HasLock i x.job.turn := by
  refine ⟨(hasTurn_of_saves hw hx).1, hl.save i x.job ?_⟩
  obtain ⟨ph, hph, hsave⟩ := hx
  rw [stakes_of_phase hph, Activity.eq_of_save hsave]
  cases x with
  | queued job => exact absurd rfl hcall
  | writing job c => rfl
  | looking job c => rfl

/-- a write that goes on after a move is where it was, or its own section has brought it on -/
theorem advance_move (hw : Wf w) (hx : w.Saves i x) (hx' : (w.move m).Saves i x') :
    (x' = x ∧ ∀ op q, w.callsBegun m i op q = 0) ∨ w.carried? m = some (i, .saving x) ∧ ∃ call, Advance w.turns x x' call ∧
      ∀ op q, w.callsBegun m i op q = if call = some op ∧ q.key = x.job.path.key then 1 else 0 := by
  obtain ⟨ph, hph, hsave⟩ := hx
  obtain ⟨ph', hph', hsave'⟩ := hx'
  have hact := Activity.eq_of_save hsave
  by_cases hcarry : ∃ a, w.carried? m = some (i, a)
  · obtain ⟨a, hcarry⟩ := hcarry
    obtain ⟨ρ, hbefore⟩ := phase?_carried hcarry
    cases hph.symm.trans hbefore
    cases hact
    have hnext := phase?_of_carried hw hcarry
    rw [hph', Option.map_some, Activity.eq_of_save hsave', World.step, next_ofPart] at hnext
    obtain ⟨x₁, hx₁, hsame⟩ := Option.map_eq_some_iff.1 hnext.symm
    cases hsame
    obtain ⟨call, hadvance, hcounts⟩ := advance_stepSave hx₁
    rw [turns_floorTo] at hadvance
    rw [disk_floorTo] at hcounts
    refine Or.inr ⟨hcarry, call, hadvance, fun op q => callsBegun_of_carried hcarry ?_ op q⟩
    rw [World.step, fst_ofPart]
    exact hcounts
  · refine Or.inl ⟨?_, fun op q => if_neg fun hmine => ?_⟩
    cases fate_move hw hph m with
    | stays hsame =>
      cases hph'.symm.trans hsame
      exact Option.some.inj (hsave'.symm.trans hsave)
    | goesOn b hcarried => exact absurd ⟨_, hcarried⟩ hcarry
    | ends o hcarried => exact absurd ⟨_, hcarried⟩ hcarry
    | dropped t hm hs hc hnone => cases hph'.symm.trans hnone
    · obtain ⟨⟨i', a⟩, hcarried, rfl⟩ := Option.map_eq_some_iff.1 hmine
      exact hcarry ⟨a, hcarried⟩

section Trace

variable {policy : WritePolicy} {moves : Nat → Move} {r n l c : Nat}

/-- How far a write that was requested in move `r` has come in state `n`, with the calls that it has begun by then. -/
inductive Course (w : World) (moves : Nat → Move) (i : TaskId) (job : SaveJob) (r n : Nat) : Save → Prop
  | inLine (hcalls : ∀ l op q, r ≤ l → l < n → (w.trace moves l).callsBegun (moves l) i op q = 0) :
      Course w moves i job r n (.queued job)
  | writing (a : Nat) (call : Call) (hra : r < a) (han : a < n)
      (hlock : ∀ l, a ≤ l → l ≤ n → (w.trace moves l).HasLock i job.turn)
      (hcalls : ∀ l op q, r ≤ l → l < n → (w.trace moves l).callsBegun (moves l) i op q =
        if q.key = job.path.key ∧ op = .write ∧ l = a then 1 else 0) :
      Course w moves i job r n (.writing job call)
  | looking (a b : Nat) (call : Call) (hra : r < a) (hab : a < b) (hbn : b < n)
      (hlock : ∀ l, a ≤ l → l ≤ n → (w.trace moves l).HasLock i job.turn)
      (hcalls : ∀ l op q, r ≤ l → l < n → (w.trace moves l).callsBegun (moves l) i op q =
        if q.key = job.path.key ∧ (op = .write ∧ l = a ∨ op = .stat ∧ l = b) then 1 else 0)
      (hfile : (w.trace moves (b + 1)).disk.file? job.path =
        some ⟨job.bytes, Instant.ofMillis ((w.trace moves b).disk.clock + 1)⟩) :
      Course w moves i job r n (.looking job call)

/-- a move in which the write begins no call leaves it at its stage -/
theorem Course.quiet {w : World} (h : Course w moves i job r n x)
    (hno : ∀ op q, (w.trace moves n).callsBegun (moves n) i op q = 0)
    (hlock : x.call? ≠ none → (w.trace moves (n + 1)).HasLock i job.turn) : Course w moves i job r (n + 1) x := by
  have hlocks : ∀ {a}, x.call? ≠ none → (∀ l, a ≤ l → l ≤ n → (w.trace moves l).HasLock i job.turn) →
      ∀ l, a ≤ l → l ≤ n + 1 → (w.trace moves l).HasLock i job.turn := by
    intro a hcall hbefore l hal hln
    rcases Nat.le_succ_iff.1 hln with hln | rfl
    · exact hbefore l hal hln
    · exact hlock hcall
  cases h with
  | inLine hcalls =>
    refine .inLine fun l op q hrl hln => ?_
    rcases Nat.lt_succ_iff_lt_or_eq.1 hln with hln | rfl
    · exact hcalls l op q hrl hln
    · exact hno op q
  | writing a call hra han hbefore hcalls =>
    refine .writing a call hra (Nat.lt_succ_of_lt han) (hlocks (Option.some_ne_none _) hbefore) fun l op q hrl hln => ?_
    rcases Nat.lt_succ_iff_lt_or_eq.1 hln with hln | rfl
    · exact hcalls l op q hrl hln
    · rw [hno op q, if_neg]
      rintro ⟨-, -, rfl⟩
      exact lt_irrefl _ han
  | looking a b call hra hab hbn hbefore hcalls hfile =>
    refine .looking a b call hra hab (Nat.lt_succ_of_lt hbn) (hlocks (Option.some_ne_none _) hbefore) (fun l op q hrl hln => ?_)
      hfile
    rcases Nat.lt_succ_iff_lt_or_eq.1 hln with hln | rfl
    · exact hcalls l op q hrl hln
    · rw [hno op q, if_neg]
      rintro ⟨-, ⟨-, rfl⟩ | ⟨-, rfl⟩⟩
      · exact lt_irrefl _ (hab.trans hbn)
      · exact lt_irrefl _ hbn

/-- **As long as a write goes on, each move keeps to its course.** -/
theorem Course.move (h : Course (World.start policy) moves i job r n x) (hrn : r < n)
    (hx : ((World.start policy).trace moves n).Saves i x) (hx' : ((World.start policy).trace moves (n + 1)).Saves i x') :
    Course (World.start policy) moves i job r (n + 1) x' := by
  have hw := (reachable_trace policy moves n).wf
  -- whoever has made a call has the lock after the move, too
  have hlock : ∀ {y}, x' = y → y.job = job → y.call? ≠ none →
      ((World.start policy).trace moves (n + 1)).HasLock i job.turn := by
    rintro y rfl rfl hcall
    exact hasLock_of_save (reachable_trace policy moves (n + 1)).wf (locked_trace policy moves (n + 1)) hx' hcall
  have hjob : x.job = job := by cases h <;> rfl
  rcases advance_move hw hx hx' with ⟨rfl, hno⟩ | ⟨hcarry, call, hadvance, hcalls⟩
  · exact h.quiet hno (hlock rfl hjob)
  · have hquiet : call = none → ∀ op q, ((World.start policy).trace moves n).callsBegun (moves n) i op q = 0 := by
      rintro rfl op q
      rw [hcalls op q, if_neg]
      rintro ⟨hcall, -⟩
      cases hcall
    cases hadvance with
    | inLine => exact h.quiet (hquiet rfl) fun hcall => absurd rfl hcall
    | begins job' c hτ =>
      cases h with
      | inLine hbefore =>
        refine .writing n c hrn (Nat.lt_succ_self n) (fun l hnl hln => ?_) fun l op q hrl hln => ?_
        · rcases Nat.le_succ_iff.1 hln with hln | rfl
          · cases Nat.le_antisymm hln hnl
            exact ⟨(hasTurn_of_saves hw hx).1, hτ⟩
          · exact hlock rfl rfl (Option.some_ne_none _)
        · rcases Nat.lt_succ_iff_lt_or_eq.1 hln with hln | rfl
          · rw [hbefore l op q hrl hln, if_neg]
            rintro ⟨-, -, rfl⟩
            exact lt_irrefl _ hln
          · rw [hcalls op q]
            refine if_congr ⟨?_, ?_⟩ rfl rfl
            · rintro ⟨hop, hk⟩
              cases hop
              exact ⟨hk, rfl, rfl⟩
            · rintro ⟨hk, rfl, -⟩
              exact ⟨rfl, hk⟩
    | writing job' g c =>
      cases h with
      | writing a _ hra han hbefore hcalls' =>
        exact (Course.writing a c hra han hbefore hcalls').quiet (hquiet rfl) (hlock rfl rfl)
    | written job' c =>
      cases h with
      | writing a _ hra han hbefore hcalls' =>
        have hlive : ((World.start policy).trace moves (n + 1)).tasks.phase? i ≠ none := by
          obtain ⟨ph, hph, -⟩ := hx'
          rw [hph]
          exact Option.some_ne_none _
        refine .looking a n c hra han (Nat.lt_succ_self n) (fun l hal hln => ?_) (fun l op q hrl hln => ?_)
          (file_of_written hcarry hw hlive).1
        · rcases Nat.le_succ_iff.1 hln with hln | rfl
          · exact hbefore l hal hln
          · exact hlock rfl rfl (Option.some_ne_none _)
        · rcases Nat.lt_succ_iff_lt_or_eq.1 hln with hln | rfl
          · rw [hcalls' l op q hrl hln]
            refine if_congr (and_congr_right fun _ => (or_iff_left ?_).symm) rfl rfl
            rintro ⟨-, rfl⟩
            exact lt_irrefl _ hln
          · rw [hcalls op q]
            refine if_congr ⟨?_, ?_⟩ rfl rfl
            · rintro ⟨hop, hk⟩
              cases hop
              exact ⟨hk, Or.inr ⟨rfl, rfl⟩⟩
            · rintro ⟨hk, ⟨-, rfl⟩ | ⟨rfl, -⟩⟩
              · exact absurd han (lt_irrefl _)
              · exact ⟨rfl, hk⟩
    | looking job' g c =>
      cases h with
      | looking a b _ hra hab hbn hbefore hcalls' hfile =>
        exact (Course.looking a b c hra hab hbn hbefore hcalls' hfile).quiet (hquiet rfl) (hlock rfl rfl)

/-- a task that goes on with a write has gone on with it in between -/
theorem saves_between (hstart : ((World.start policy).trace moves r).Saves i x) (hrn : r ≤ n) (hnl : n ≤ l)
    (hx : ((World.start policy).trace moves l).Saves i x') :
    ∃ y, ((World.start policy).trace moves n).Saves i y ∧ y.job = x.job := by
  obtain ⟨ph₀, hph₀, hsave₀⟩ := hstart
  obtain ⟨ph', hph', -⟩ := hx
  cases hph : ((World.start policy).trace moves n).tasks.phase? i with
  | none =>
    have hnumber := lt_of_lt_of_le ((reachable_trace policy moves r).wf.numbered.lt hph₀) (next_trace hrn)
    cases hph'.symm.trans (gone_trace hnl hnumber hph).2
  | some ph =>
    obtain ⟨y, hy, hjob⟩ := saving_trace hrn hph₀ ⟨x, Activity.eq_of_save hsave₀, rfl⟩ hph
    exact ⟨y, ⟨ph, hph, by rw [hy]; rfl⟩, hjob⟩

/-- **Each stage of a write comes with its calls so far.** -/
theorem course_trace (hstart : ((World.start policy).trace moves (r + 1)).Saves i (.queued job))
    (hfirst : ∀ op q, ((World.start policy).trace moves r).callsBegun (moves r) i op q = 0) (hrn : r < n)
    (hx : ((World.start policy).trace moves n).Saves i x) : Course (World.start policy) moves i job r n x := by
  induction n, Nat.succ_le_of_lt hrn using Nat.le_induction generalizing x with
  | base =>
    cases saves_unique hstart hx
    refine .inLine fun l op q hrl hln => ?_
    cases Nat.le_antisymm hrl (Nat.le_of_lt_succ hln)
    exact hfirst op q
  | succ n hn ih =>
    obtain ⟨y, hy, -⟩ := saves_between hstart hn (Nat.le_succ n) hx
    exact (ih hn hy).move hn hy hx

end Trace

/-! ## The request -/

section Request

variable {bytes : ByteArray} {e e' : Entry} {q : QueryId} {k : Path.Key} {s : SignalId}

/-- A write that gets in line takes over the signal of the reconciliation that it revokes. -/
theorem next_requestSave (h : (w.requestSave p bytes).2.next = some x) :
    w.isShutDown = false ∧ ∃ job, x = .queued job ∧ job.path = p ∧ job.bytes = bytes ∧
      ∀ e, w.entry? p = some e → job.waiters = (World.revoke e).2.1 ∧
        World.entry? (w.requestSave p bytes).1 p = some (World.revoke e).2.2 := by
  unfold World.requestSave at h ⊢
  cases hdown : w.isShutDown with
  | true =>
    rw [hdown, if_pos rfl] at h
    cases h
  | false =>
    rw [hdown, if_neg Bool.false_ne_true] at h
    rw [if_neg Bool.false_ne_true]
    refine ⟨rfl, ?_⟩
    cases he : w.entry? p with
    | none =>
      rw [he] at h
      dsimp only at h ⊢
      split at h
      · cases h
      · cases h
        exact ⟨_, rfl, rfl, rfl, fun e he' => by cases he'⟩
    | some e =>
      rw [he] at h
      cases h
      refine ⟨_, rfl, rfl, rfl, fun e' he' => ?_⟩
      cases he'
      exact ⟨rfl, entry?_setEntry _ _ _⟩

/-- a request to write that is not refused -/
theorem requested_of_carried (hw : Wf w) (hcarry : w.carried? m = some (i, .starting (.write p bytes)))
    (hlive : (w.move m).tasks.phase? i ≠ none) :
    w.isShutDown = false ∧ (∀ op q, w.callsBegun m i op q = 0) ∧
      ∃ job, (w.move m).Saves i (.queued job) ∧ job.path = p ∧ job.bytes = bytes ∧
        ∀ e, w.entry? p = some e →
          job.waiters = (World.revoke e).2.1 ∧ World.entry? (w.move m) p = some (World.revoke e).2.2 := by
  obtain ⟨ph, hph⟩ := Option.ne_none_iff_exists'.1 hlive
  have hnext := phase?_of_carried hw hcarry
  rw [hph, Option.map_some, World.step, World.begin, next_ofPart] at hnext
  obtain ⟨x, hx, hact⟩ := Option.map_eq_some_iff.1 hnext.symm
  obtain ⟨hdown, job, rfl, hp, hbytes, hentry⟩ := next_requestSave hx
  rw [isShutDown_floorTo] at hdown
  refine ⟨hdown, fun op q => ?_, job, ⟨ph, hph, by rw [← hact]; rfl⟩, hp, hbytes, fun e he => ?_⟩
  · have hcounts : CountsUp w.disk ((floorTo w i).step (.starting (.write p bytes))).1.disk p none := by
      rw [World.step, World.begin, fst_ofPart, disk_requestSave, disk_floorTo]
      exact countsUp_none rfl p
    rw [callsBegun_of_carried hcarry hcounts, if_neg fun hcall => by cases hcall.1]
  · obtain ⟨hwaiters, hafter⟩ := hentry e ((entry?_floorTo w i p).trans he)
    rw [entry_of_carried hcarry, World.step, World.begin, fst_ofPart]
    exact ⟨hwaiters, hafter⟩

/-- the signal of a reconciliation that is revoked passes to the write, and stays known to the entry -/
theorem revoke_of_pending (hq : e.pendingQuery = some q) (hs : e.pendingSignal = some s) :
    (World.revoke e).2.1 = some s ∧ s ∈ (World.revoke e).2.2.revokedSignals := by
  unfold World.revoke
  rw [hq, hs]
  exact ⟨rfl, List.mem_append_right _ (List.mem_singleton.2 rfl)⟩

/-- after the request, nobody shuts the engine down -/
theorem upholds_of_request (hdown : w.isShutDown = false) (hcarry : w.carried? m = some (i, .starting (.write p bytes)))
    (hsh : (w.move m).Shutting) (he : World.entry? (w.move m) p = some e') (hs : s ∈ e'.revokedSignals) :
    (w.move m).Upholds p.key s := by
  refine ⟨⟨e', he, hs⟩, fun j ph hph hcloses => ?_⟩
  obtain ⟨t, rfl, hserved, hc, ha⟩ := carried?_eq_some.1 hcarry
  have hrunning : (serve w i).isShutDown = w.isShutDown :=
    (going_serve hserved hc (by rw [ha]; exact fun h => by cases h)).1
  cases (hrunning.trans hdown).symm.trans (hsh j ph hph hcloses)

/-- whoever waits while somebody makes a request waits afterwards, too -/
theorem waitsFor_request {y : Request} (hw : Wf w) (hcarry : w.carried? m = some (i, .starting y)) (h : w.WaitsFor j k q) :
    (∀ o, ¬ Replies w m j o) ∧ (w.move m).WaitsFor j k q := by
  obtain ⟨t, rfl, hs, hc, ha⟩ := carried?_eq_some.1 hcarry
  obtain ⟨ph, hph, hno⟩ := h.live
  have hne : j ≠ i := by
    rintro rfl
    cases hph.symm.trans (phase?_of_served hs)
    exact hno y ha
  refine ⟨fun o hr => ?_, h.of_phase? ((phase?_kept hw (serves_of_ne hne) hph).trans hph.symm)⟩
  obtain ⟨b, hb, -⟩ := hr
  cases (Prod.mk.inj (Option.some.inj (hb.symm.trans hcarry))).1
  exact hne rfl

end Request

/-! ## The last section -/

section Commit

variable {e : Entry} {o : Answer} {st : FileStat} {s : SignalId}

theorem step_of_found (hst : w.disk.stat job.path = .ok (some st)) :
    w.step (.saving (.looking job .due)) =
      ofPart Activity.saving (fun _ => .nothing) ((w.leaveDisk job.path).commitSave job st.modified) := by
  simp only [World.step, World.stepSave, hst, World.haveLookedUp]

theorem signals_commitSave (w : World) (job : SaveJob) (m : Instant) :
    (w.commitSave job m).1.core.signals = (w.core.giveIf job.waiters).signals := by
  have hforget : ∀ (w₁ : World) (p : Path), (w₁.forgetRevoked p).core.signals = w₁.core.signals := fun _ _ => rfl
  have hset : ∀ (p : Path) (e : Entry),
      ((w.core.setEntry p e).giveIf job.waiters).signals = (w.core.giveIf job.waiters).signals := by
    intro p e
    cases job.waiters <;> rfl
  unfold World.commitSave
  rw [core_giveBack]
  cases w.entry? job.path with
  | none =>
    dsimp only [Option.map_none, Core.giveBack]
    split
    · rw [hforget, core_giveIf]
    · rw [core_giveIf]
  | some e =>
    dsimp only [Option.map_some, Core.giveBack]
    rw [core_broadcast]
    split
    · rw [hforget, core_giveIf, core_setEntry, hset]
    · rw [core_giveIf, core_setEntry, hset]

/-- **What a write does in the section in which it returns well.** -/
theorem front_of_replies (hx : w.Saves i x) (hr : Replies w m i (.ok o)) :
    ∃ job st, x = .looking job .due ∧ w.disk.stat job.path = .ok (some st) ∧ (∀ op q, w.callsBegun m i op q = 0) ∧
      (∀ s, job.waiters = some s → (w.move m).signals.isGiven s = true) ∧
      (w.entry? job.path = none → (w.move m).front = w.front) ∧
      ∀ e, w.entry? job.path = some e → (w.move m).front =
        w.front.publish job.path e.face (some ⟨Text.Utf8.decodeLossy job.bytes, st.modified, e.external⟩) := by
  obtain ⟨t, job, st, rfl, hs, hc, hact, rfl, hst⟩ := looking_of_replies hx hr
  have hcarry := carried?_of_served hs hc
  rw [hact] at hcarry
  have hfound : (floorTo w i).disk.stat job.path = .ok (some st) := by
    rw [disk_floorTo]
    exact hst
  have hstep := step_of_found hfound
  have hentry : World.entry? ((floorTo w i).leaveDisk job.path) job.path = w.entry? job.path := entry?_floorTo w i job.path
  have hfront : ((floorTo w i).leaveDisk job.path).front = w.front := front_floorTo w i
  refine ⟨job, st, rfl, hst, fun op q => ?_, fun s hwaiters => ?_, fun hno => ?_, fun e he => ?_⟩
  · have hcounts : CountsUp w.disk ((floorTo w i).step (.saving (.looking job .due))).1.disk job.path none := by
      rw [hstep, fst_ofPart, (disk_commitSave _ job _).1]
      exact countsUp_none (congrArg (fun d : Disk => d.calls) (disk_floorTo w i)) job.path
    rw [callsBegun_of_carried hcarry hcounts, if_neg fun hcall => by cases hcall.1]
  · have hsignals := congrArg Core.signals (core_of_carried hcarry)
    rw [hstep, fst_ofPart, signals_commitSave, hwaiters] at hsignals
    rw [show (w.move (.turn i)).signals = _ from hsignals]
    exact (Signals.isGiven_give _ s s).trans (by simp)
  · rw [front_of_carried hcarry, hstep, fst_ofPart, front_commitSave_of_absent (hentry.trans hno), hfront]
  · rw [front_of_carried hcarry, hstep, fst_ofPart, front_commitSave (hentry.trans he), hfront]

/-- after that it has given back the lock -/
theorem not_inLine_of_replies (hw : Wf w) (hw' : Wf (w.move m)) (hx : w.Saves i x) (hr : Replies w m i (.ok o)) :
    ¬ (w.move m).turns.InLine x.job.turn.key x.job.turn := by
  obtain ⟨a, hcarry, hend⟩ := hr
  obtain ⟨ph, hph, hsave⟩ := hx
  have hgone := phase?_of_carried hw hcarry
  rw [hend] at hgone
  refine left_of_section hw hw' ?_ hph ?_ fun ph' hph' => ?_
  · obtain ⟨t, rfl, hs, -, -⟩ := carried?_eq_some.1 hcarry
    exact serves_iff.2 ⟨rfl, (served?_eq_some hs).1⟩
  · rw [Activity.eq_of_save hsave]
    cases x <;> rfl
  · rw [hph'] at hgone
    cases hgone

/-- what is published is in the entry afterwards, and has been sent to whoever is registered there -/
theorem entry_of_publish {w' : World} {v : Version} (h : w'.front = w.front.publish p e.face (some v)) :
    ∃ e', w'.entry? p = some e' ∧ e'.known = ⟨some v.contents, v.modified, v.external⟩ ∧ e'.registered = e.registered ∧
      ∀ y, w'.channels.get? y =
        if e.registered.contains y then (w.channels.get? y).map (·.send (.present p v)) else w.channels.get? y := by
  have hface : w'.front.face? p.key = some { e.face with version := some v } := by
    rw [h]
    exact (Front.face?_put _ _ _ _).trans (if_pos rfl)
  obtain ⟨e', he', hsame⟩ := Option.map_eq_some_iff.1 hface
  obtain ⟨text, htext, hv⟩ := Option.map_eq_some_iff.1 (congrArg Face.version hsame)
  refine ⟨e', he', ?_, congrArg Face.registered hsame, fun y => ?_⟩
  · rw [← hv, Entry.known, htext]
  · have hchannels := congrArg (fun x : Front => x.channels.get? y) h
    exact hchannels.trans (channels_publish w.front p e.face (some v) y)

end Commit

/-! ## Who waits -/

section Waiting

variable {policy : WritePolicy} {moves : Nat → Move} {n l c l₀ : Nat} {k : Path.Key} {s : SignalId} {q : QueryId}

/-- the signal that a write has taken over is not given before the write has ended -/
theorem not_given_of_saves (hk : Kept w.core w.stakes) (hx : w.Saves i x) (hs : x.job.waiters = some s) :
    w.signals.isGiven s = false := by
  refine hk.secret (.operation i) s ?_
  obtain ⟨ph, hph, hsave⟩ := hx
  rw [keeps, stakes_of_phase hph, Activity.eq_of_save hsave]
  cases x <;> exact hs

/-- so it stays stored as long as the write goes on -/
theorem upholds_trace
    (hsaves : ∀ l, n ≤ l → l ≤ c → ∃ y, ((World.start policy).trace moves l).Saves i y ∧ y.job = job)
    (hs : job.waiters = some s) (h : ((World.start policy).trace moves n).Upholds job.path.key s) (hnl : n ≤ l) (hlc : l ≤ c) :
    ((World.start policy).trace moves l).Upholds job.path.key s := by
  induction l, hnl using Nat.le_induction with
  | base => exact h
  | succ l hnl ih =>
    have hw := (reachable_trace policy moves l).wf
    obtain ⟨y, hy, hjob⟩ := hsaves l hnl (Nat.le_of_succ_le hlc)
    obtain ⟨y', hy', hjob'⟩ := hsaves (l + 1) (Nat.le_succ_of_le hnl) hlc
    obtain ⟨hturn, hkey⟩ := hasTurn_of_saves hw hy
    have hng := not_given_of_saves (kept_paired_trace policy moves (l + 1)).1 hy' (by rw [hjob', hs])
    exact upholds_move hw (spelled_trace policy moves l) hturn (by rw [hkey, hjob]) hng (ih (Nat.le_of_succ_le hlc))

/-- Whoever waits at some time, and whom no move lets go, waits or has been cancelled by the end. -/
theorem waitsFor_trace
    (hstep : ∀ l, l₀ ≤ l → l ≤ c → ((World.start policy).trace moves l).WaitsFor j k q →
      (∀ o, ¬ Replies ((World.start policy).trace moves l) (moves l) j o) ∧
        (((World.start policy).trace moves (l + 1)).WaitsFor j k q ∨
          ((World.start policy).trace moves (l + 1)).tasks.phase? j = none))
    (h : ((World.start policy).trace moves l₀).WaitsFor j k q) (hl : l₀ ≤ l) (hlc : l ≤ c) :
    (∀ o, ¬ Replies ((World.start policy).trace moves l) (moves l) j o) ∧
      (((World.start policy).trace moves (l + 1)).WaitsFor j k q ∨
        ((World.start policy).trace moves (l + 1)).tasks.phase? j = none) := by
  have hnumber : j < ((World.start policy).trace moves l₀).tasks.next := by
    obtain ⟨ph, hph, -⟩ := h.live
    exact (reachable_trace policy moves l₀).wf.numbered.lt hph
  have hnow : ((World.start policy).trace moves l).WaitsFor j k q ∨
      ((World.start policy).trace moves l).tasks.phase? j = none := by
    induction l, hl using Nat.le_induction with
    | base => exact Or.inl h
    | succ l hl ih =>
      rcases ih (Nat.le_of_succ_le hlc) with hwaits | hgone
      · exact (hstep l hl (Nat.le_of_succ_le hlc) hwaits).2
      · exact Or.inr (gone_trace (Nat.le_succ l) (hnumber.trans_le (next_trace hl)) hgone).2
  rcases hnow with hwaits | hgone
  · exact hstep l hl hlc hwaits
  · refine ⟨?_, Or.inr (gone_trace (Nat.le_succ l) (hnumber.trans_le (next_trace hl)) hgone).2⟩
    rintro o ⟨a, hcarry, -⟩
    obtain ⟨ρ, hbefore⟩ := phase?_carried hcarry
    cases hgone.symm.trans hbefore

end Waiting

/-! ## A write that returns well -/

/-- What a write has done that is requested in move `r` and returns well in move `c`. -/
structure Lands (w : World) (moves : Nat → Move) (i : TaskId) (p : Path) (bytes : ByteArray) (r c : Nat) : Prop where
  /-- it has the lock from its first call to its end, writes the bytes by the first call, and looks up the date by the second;
  there are no others -/
  calls : ∃ a b τ, r < a ∧ a < b ∧ b < c ∧ τ.key = p.key ∧
    (∀ l, a ≤ l → l ≤ c → (w.trace moves l).HasLock i τ) ∧ ¬ (w.trace moves (c + 1)).turns.InLine τ.key τ ∧
    (∀ l op q, r ≤ l → l ≤ c → (w.trace moves l).callsBegun (moves l) i op q =
      if q.key = p.key ∧ (op = .write ∧ l = a ∨ op = .stat ∧ l = b) then 1 else 0) ∧
    (w.trace moves (b + 1)).disk.file? p = some ⟨bytes, Instant.ofMillis ((w.trace moves b).disk.clock + 1)⟩
  /-- an entry that there is at the end takes the text and the date that has been found, and whoever is registered in it gets
  one snapshot of that -/
  present : ∀ e, World.entry? (w.trace moves c) p = some e → ∃ st e', (w.trace moves c).disk.stat p = .ok (some st) ∧
    World.entry? (w.trace moves (c + 1)) p = some e' ∧
    e'.known = ⟨some (Text.Utf8.decodeLossy bytes), st.modified, e.external⟩ ∧ e'.registered = e.registered ∧
    ∀ y, (w.trace moves (c + 1)).channels.get? y = if e.registered.contains y then ((w.trace moves c).channels.get? y).map
      (·.send (.present p ⟨Text.Utf8.decodeLossy bytes, st.modified, e.external⟩)) else (w.trace moves c).channels.get? y
  /-- where there is no entry at the end, there is none afterwards, and nobody gets anything -/
  absent : World.entry? (w.trace moves c) p = none →
    World.entry? (w.trace moves (c + 1)) p = none ∧ (w.trace moves (c + 1)).channels = (w.trace moves c).channels
  /-- the signal of a reconciliation that is pending when the write is requested is given at the end, and not before -/
  released : ∀ e s, World.entry? (w.trace moves r) p = some e → e.pendingSignal = some s →
    (∀ l, r ≤ l → l ≤ c → (w.trace moves l).signals.isGiven s = false) ∧ (w.trace moves (c + 1)).signals.isGiven s = true
  /-- a call to watch that waits for that reconciliation at some time before the end waits until then, if it is not cancelled -/
  waiting : ∀ e q, World.entry? (w.trace moves r) p = some e → e.pendingQuery = some q → ∀ j l₀ l, r ≤ l₀ → l₀ ≤ l → l ≤ c →
    (w.trace moves l₀).WaitsFor j p.key q → (∀ o, ¬ Replies (w.trace moves l) (moves l) j o) ∧
      ((w.trace moves (l + 1)).WaitsFor j p.key q ∨ (w.trace moves (l + 1)).tasks.phase? j = none)

section Landing

variable {policy : WritePolicy} {moves : Nat → Move} {n r l l₀ c : Nat} {bytes : ByteArray} {o : Answer} {e : Entry}
  {q : QueryId} {s : SignalId}

/-- the request itself does not return well -/
theorem request_ne_ok (w : World) (p : Path) (bytes : ByteArray) :
    (w.step (.starting (.write p bytes))).2 ≠ .ended (.ok o) := by
  intro hend
  rw [World.step, World.begin] at hend
  rcases requestSave_cases w p bytes with ⟨e, hreq, -⟩ | ⟨job, hreq, -, -⟩
  · rw [hreq] at hend
    cases hend
  · rcases hrun : w.requestSave p bytes with ⟨w₁, y⟩
    rw [hrun] at hreq hend
    cases hreq
    cases hend

/-- a call that has come further has been begun in some move -/
theorem begun_of_called {y : Request} {ph : Phase} (hcall : moves n = .call y) (hy : y.isPublic = true) (hnl : n < l)
    (hph : ((World.start policy).trace moves l).tasks.phase? ((World.start policy).trace moves n).tasks.next = some ph)
    (hne : ph.activity ≠ .starting y) :
    ∃ r, n < r ∧ r < l ∧ ((World.start policy).trace moves r).carried? (moves r) =
      some (((World.start policy).trace moves n).tasks.next, .starting y) := by
  have hstart := phase?_called (w := World.start policy) hcall hy
  have hstays := stays_trace (P := fun ph => ph.activity = .starting y ∨ ∃ r, n < r ∧ r < l ∧
    ((World.start policy).trace moves r).carried? (moves r) =
      some (((World.start policy).trace moves n).tasks.next, .starting y))
    (Nat.succ_le_of_lt hnl) hstart (Or.inl rfl) fun j hnj hjl ρ a b hcarry hP _ => ?_
  · rcases hstays with ⟨ph', hph', hbegun⟩ | ⟨-, hnone⟩
    · cases hph.symm.trans hph'
      exact hbegun.resolve_left hne
    · cases hph.symm.trans hnone
  · rcases hP with rfl | hbegun
    · exact Or.inr ⟨j, hnj, hjl, hcarry⟩
    · exact Or.inr hbegun

/-- a write is requested in move `r` and has come to its last section in state `c` -/
structure Underway (w : World) (moves : Nat → Move) (i : TaskId) (job : SaveJob) (r c : Nat) : Prop where
  before : r < c
  running : (w.trace moves r).isShutDown = false
  request : (w.trace moves r).carried? (moves r) = some (i, .starting (.write job.path job.bytes))
  quiet : ∀ op q, (w.trace moves r).callsBegun (moves r) i op q = 0
  queued : (w.trace moves (r + 1)).Saves i (.queued job)
  last : (w.trace moves c).Saves i (.looking job .due)
  revokes : ∀ e, World.entry? (w.trace moves r) job.path = some e →
    job.waiters = (World.revoke e).2.1 ∧ World.entry? (w.trace moves (r + 1)) job.path = some (World.revoke e).2.2

theorem underway_of_replies
    (hcarry : ((World.start policy).trace moves r).carried? (moves r) = some (i, .starting (.write p bytes))) (hrc : r < c)
    (hok : Replies ((World.start policy).trace moves c) (moves c) i (.ok o)) :
    ∃ job, job.path = p ∧ job.bytes = bytes ∧ Underway (World.start policy) moves i job r c := by
  have hw := (reachable_trace policy moves r).wf
  have ⟨a, hcarry', _⟩ := hok
  obtain ⟨ρ, hph⟩ := phase?_carried hcarry'
  -- it has not ended with its request, as it would not have come back
  have hlive : ((World.start policy).trace moves (r + 1)).tasks.phase? i ≠ none := by
    intro hnone
    obtain ⟨ρ₀, hbefore⟩ := phase?_carried hcarry
    have hnumber := (hw.numbered.lt hbefore).trans_le (grows_move hw (moves r)).1
    cases hph.symm.trans (gone_trace hrc hnumber hnone).2
  obtain ⟨hrunning, hquiet, job, hqueued, rfl, rfl, hrevokes⟩ := requested_of_carried hw hcarry hlive
  refine ⟨job, rfl, rfl, hrc, hrunning, hcarry, hquiet, hqueued, ?_, hrevokes⟩
  obtain ⟨ph₀, hph₀, hsave⟩ := hqueued
  obtain ⟨x, hact, hjob⟩ := saving_trace hrc hph₀ ⟨_, Activity.eq_of_save hsave, rfl⟩ hph
  have hx : ((World.start policy).trace moves c).Saves i x := saves_of_carried hcarry' (congrArg Activity.save? hact)
  obtain ⟨t, job', st, -, -, -, -, rfl, -⟩ := looking_of_replies hx hok
  cases hjob
  exact hx

namespace Underway

theorem saves (h : Underway (World.start policy) moves i job r c) (hrl : r + 1 ≤ l) (hlc : l ≤ c) :
    ∃ y, ((World.start policy).trace moves l).Saves i y ∧ y.job = job := saves_between h.queued hrl hlc h.last

theorem not_given (h : Underway (World.start policy) moves i job r c) (hs : job.waiters = some s) (hrl : r + 1 ≤ l)
    (hlc : l ≤ c) : ((World.start policy).trace moves l).signals.isGiven s = false := by
  obtain ⟨y, hy, hjob⟩ := h.saves hrl hlc
  exact not_given_of_saves (kept_paired_trace policy moves l).1 hy ((congrArg SaveJob.waiters hjob).trans hs)

/-- the signal of what the write revokes -/
theorem waiters (h : Underway (World.start policy) moves i job r c)
    (he : World.entry? ((World.start policy).trace moves r) job.path = some e) (hq : e.pendingQuery = some q) :
    ∃ s, job.waiters = some s ∧ s ∈ (World.revoke e).2.2.revokedSignals := by
  have hpaired := (kept_paired_trace policy moves r).2 _ e he
  obtain ⟨s, hs⟩ := Option.ne_none_iff_exists'.1 fun hno => by cases hq.symm.trans (hpaired.2 hno)
  obtain ⟨htakes, hstored⟩ := revoke_of_pending hq hs
  exact ⟨s, (h.revokes e he).1.trans htakes, hstored⟩

/-- what the write revokes is past -/
theorem past (h : Underway (World.start policy) moves i job r c)
    (he : World.entry? ((World.start policy).trace moves r) job.path = some e) (hq : e.pendingQuery = some q)
    (hrl : r + 1 ≤ l) : ((World.start policy).trace moves l).core.Past job.path.key q := by
  have hlt := pending_lt_trace ((Core.query?_of_get? (c := ((World.start policy).trace moves r).core) he).trans hq)
  refine past_trace hrl ⟨hlt.trans_le (nextQuery_trace (Nat.le_succ r)), fun q' hq' => ?_⟩
  have hafter := Core.query?_of_get? (c := ((World.start policy).trace moves (r + 1)).core) (h.revokes e he).2
  cases hq'.symm.trans (hafter.trans (pendingQuery_revoke e))

/-- **Whoever waits for what the write revokes waits until the end.** -/
theorem waiting (h : Underway (World.start policy) moves i job r c)
    (he : World.entry? ((World.start policy).trace moves r) job.path = some e) (hq : e.pendingQuery = some q) (hrl : r ≤ l₀)
    (hll : l₀ ≤ l) (hlc : l ≤ c) (hwaits : ((World.start policy).trace moves l₀).WaitsFor j job.path.key q) :
    (∀ o, ¬ Replies ((World.start policy).trace moves l) (moves l) j o) ∧
      (((World.start policy).trace moves (l + 1)).WaitsFor j job.path.key q ∨
        ((World.start policy).trace moves (l + 1)).tasks.phase? j = none) := by
  obtain ⟨s, hs, hstored⟩ := h.waiters he hq
  have hupholds := upholds_of_request h.running h.request (shutting_trace policy moves (r + 1)) (h.revokes e he).2 hstored
  refine waitsFor_trace (fun l hl hlc hwaits => ?_) hwaits hll hlc
  have hw := (reachable_trace policy moves l).wf
  rcases Nat.lt_or_eq_of_le (hrl.trans hl) with hrl | rfl
  · have hstill := upholds_trace (fun _ => h.saves) hs hupholds hrl hlc
    exact waitsFor_move hw hstill (h.not_given hs hrl hlc) (h.past he hq hrl) hwaits
  · obtain ⟨hno, hstill⟩ := waitsFor_request hw h.request hwaits
    exact ⟨hno, Or.inl hstill⟩

end Underway

/-- a write that returns well has landed since its request -/
theorem lands_of_request
    (hcarry : ((World.start policy).trace moves r).carried? (moves r) = some (i, .starting (.write p bytes))) (hrc : r < c)
    (hok : Replies ((World.start policy).trace moves c) (moves c) i (.ok o)) :
    Lands (World.start policy) moves i p bytes r c := by
  obtain ⟨job, rfl, rfl, h⟩ := underway_of_replies hcarry hrc hok
  have hw := (reachable_trace policy moves c).wf
  obtain ⟨job', st, hsame, hst, hquiet, hgiven, habsent, hpresent⟩ := front_of_replies h.last hok
  cases hsame
  constructor
  case calls =>
    cases course_trace h.queued h.quiet h.before h.last with
    | looking a b _ hra hab hbc hlock hcalls hfile =>
      refine ⟨a, b, job.turn, hra, hab, hbc, (hasTurn_of_saves hw h.last).2, hlock,
        not_inLine_of_replies hw (reachable_trace policy moves (c + 1)).wf h.last hok, fun l op q hrl hlc => ?_, hfile⟩
      rcases Nat.lt_or_eq_of_le hlc with hlc | rfl
      · exact hcalls l op q hrl hlc
      · rw [hquiet op q, if_neg]
        rintro ⟨-, ⟨-, rfl⟩ | ⟨-, rfl⟩⟩
        · exact lt_irrefl _ (hab.trans hbc)
        · exact lt_irrefl _ hbc
  case present =>
    intro e he
    obtain ⟨e', he', hknown, hregistered, hchannels⟩ := entry_of_publish (hpresent e he)
    exact ⟨st, e', hst, he', hknown, hregistered, hchannels⟩
  case absent =>
    intro hno
    have hface := congrArg (fun v : Front => v.face? job.path.key) (habsent hno)
    exact ⟨Option.map_eq_none_iff.1 (hface.trans (face?_of_absent hno)), congrArg Front.channels (habsent hno)⟩
  case released =>
    intro e s he hs
    obtain ⟨hkept, hpaired⟩ := kept_paired_trace policy moves r
    obtain ⟨q, hq⟩ := Option.ne_none_iff_exists'.1 fun hno => by cases hs.symm.trans ((hpaired _ e he).1 hno)
    have hwaiters := (h.revokes e he).1.trans (revoke_of_pending hq hs).1
    refine ⟨fun l hrl hlc => ?_, hgiven s hwaiters⟩
    rcases Nat.lt_or_eq_of_le hrl with hrl | rfl
    · exact h.not_given hwaiters hrl hlc
    · refine hkept.secret (.entry job.path.key) s ?_
      exact (congrArg (Option.bind · Entry.pendingSignal) he).trans hs
  case waiting =>
    intro e q he hq j l₀ l hrl hll hlc hwaits
    exact h.waiting he hq hrl hll hlc hwaits

/-- **A call to write that returns well has taken effect**: in every run it has called the disk under one holding of the lock,
to write and to look up the date, and its last section shows the text to those who are registered then, and lets those go on
who have waited for a reconciliation that it has revoked. -/
theorem lands_trace (hcall : moves n = .call (.write p bytes))
    (hok : Replies ((World.start policy).trace moves c) (moves c) ((World.start policy).trace moves n).tasks.next (.ok o)) :
    ∃ r, n < r ∧ ((World.start policy).trace moves r).carried? (moves r) =
        some (((World.start policy).trace moves n).tasks.next, .starting (.write p bytes)) ∧
      Lands (World.start policy) moves ((World.start policy).trace moves n).tasks.next p bytes r c := by
  have hnc := later_of_replies hok
  obtain ⟨a, hcarry, hend⟩ := hok
  obtain ⟨ρ, hph⟩ := phase?_carried hcarry
  have hne : a ≠ .starting (.write p bytes) := by
    rintro rfl
    exact request_ne_ok _ p bytes hend
  obtain ⟨r, hnr, hrc, hbegun⟩ := begun_of_called hcall rfl hnc hph hne
  exact ⟨r, hnr, hbegun, lands_of_request hbegun hrc ⟨a, hcarry, hend⟩⟩

end Landing

/-- While a first write has the lock, a reconciliation is requested, which a second subscriber waits for. A second write, of a
byte that is no text, revokes it. -/
def overruling : List Move :=
  let p : Path := ⟨"/a"⟩
  [Move.newSubscriber, .newSubscriber, .call (.watch p ⟨1⟩)] ++ List.replicate 5 (Move.turn 1) ++
    [Move.call (.write p ⟨#[49]⟩)] ++ List.replicate 2 (Move.turn 3) ++
    [Move.call (.reconcile p)] ++ List.replicate 2 (Move.turn 4) ++
    [Move.call (.watch p ⟨2⟩)] ++ List.replicate 4 (Move.turn 5) ++
    [Move.call (.write p ⟨#[255]⟩)] ++ List.replicate 2 (Move.turn 6) ++
    List.replicate 2 (Move.turn 3) ++ [Move.turn 4] ++ List.replicate 3 (Move.turn 6)

/-- the first subscriber is shown what both writes have written -/
theorem lands_trace_overruling :
    along overruling 19 = .call (.write ⟨"/a"⟩ ⟨#[255]⟩) ∧
    Replies ((World.start .allow).trace (along overruling) 27) (along overruling 27)
      ((World.start .allow).trace (along overruling) 19).tasks.next (.ok .nothing) ∧
    (World.entry? ((World.start .allow).trace (along overruling) 20) ⟨"/a"⟩).bind Entry.pendingQuery = some 2 ∧
    ((World.start .allow).given (along overruling) ⟨1⟩ 28).map Snapshot.contents? = [some "1", some "\uFFFD"] ∧
    ∃ r, 19 < r ∧ ((World.start .allow).trace (along overruling) r).carried? (along overruling r) =
        some (((World.start .allow).trace (along overruling) 19).tasks.next, .starting (.write ⟨"/a"⟩ ⟨#[255]⟩)) ∧
      Lands (World.start .allow) (along overruling) ((World.start .allow).trace (along overruling) 19).tasks.next ⟨"/a"⟩
        ⟨#[255]⟩ r 27 := by
  have hwrites : Writes (World.start .allow) (along overruling) ⟨"/a"⟩ ⟨#[255]⟩ 19 26 27 :=
    writes_of_check rfl (by decide +kernel) (by decide +kernel) (by decide)
  exact ⟨rfl, hwrites.returned, by decide +kernel, by decide +kernel, lands_trace rfl hwrites.returned⟩

end Engine

end LiveFiles
