/-
A call to watch from its beginning to its end. It looks for a place, runs the first reconciliation of its path or waits for
one, and is about the same path and subscriber all the time (`Watching`).
- `Watching.next`, `Watching.ended`: what a section of it leads to, and what it returns: a snapshot of its path, or an error.
- `stays_trace`: what the sections of a task keep holds until the task ends, and it does not come back.
- **`watching_trace`**: a call to watch is in one of its phases until it ends.
-/
import LiveFiles.Proofs.Arming
import LiveFiles.Proofs.Lifetimes

namespace LiveFiles.Engine

/-- the phases of a call to watch a path for a subscriber -/
inductive Watching (p : Path) (x : SubscriberId) : Activity → Prop
  | starting : Watching p x (.starting (.watch p x))
  | joining (joined : SignalId) (other : Option SignalId) : Watching p x (.joining p x joined other)
  | synchronizing (joined : SignalId) (r : Refresh) (hr : r.path = p) : Watching p x (.synchronizing ⟨p, x, joined⟩ r)
  | settling (joined : SignalId) (signal : Option SignalId) : Watching p x (.settling ⟨p, x, joined⟩ signal)
  /-- the first synchronization has failed, and the entry is torn down -/
  | failing (turn : Option Turn) (joined : SignalId) (e : Problem) :
      Watching p x (.tearingDown p turn (.failed ⟨p, x, joined⟩ e))

variable {w w' : World} {m : Move} {id : TaskId} {t : Task Phase} {a b : Activity} {p q : Path} {x : SubscriberId}
  {r r' : Refresh} {o : Outcome}

/-! ## One section -/

theorem path_stepRefresh (h : (w.stepRefresh r).2.next = some r') : r'.path = r.path := by
  cases onward_stepRefresh h with
  | taken p q τ l c hp => exact hp
  | _ => rfl

theorem Watching.operation? (h : Watching p x a) : a.operation? = some p := by
  cases h with
  | synchronizing joined r hr => exact congrArg some hr
  | _ => rfl

theorem watching_stepJoining {joined : SignalId} {other : Option SignalId}
    (hb : (w.stepJoining p x joined other).2.next = some b) : Watching p x b := by
  unfold World.stepJoining at hb
  split at hb
  · cases hb
    exact .joining joined other
  · dsimp only at hb
    split at hb
    · cases hb
    · split at hb
      · cases hb
        exact .joining joined _
      · simp only [World.takePlace] at hb
        split at hb
        · cases hb
          exact .settling joined none
        · cases hb
          exact .synchronizing joined _ rfl

theorem watching_stepSynchronizing {joined : SignalId} (hr : r.path = p)
    (hb : (w.stepSynchronizing ⟨p, x, joined⟩ r).2.next = some b) : Watching p x b := by
  have hpath : ∀ r', (w.stepRefresh r).2.next = some r' → r'.path = p := by
    intro r' hn
    exact (path_stepRefresh hn).trans hr
  unfold World.stepSynchronizing at hb
  rcases hx : w.stepRefresh r with ⟨w₁, r' | r' | r' | (e | changed)⟩ <;> rw [hx] at hb hpath
  · cases hb
    exact .synchronizing joined r' (hpath r' rfl)
  · cases hb
    exact .synchronizing joined r' (hpath r' rfl)
  · cases hb
    exact .synchronizing joined r' (hpath r' rfl)
  · rcases next_releasePlace w₁ p (.failed ⟨p, x, joined⟩ e) with hn | hn
    · cases hn.symm.trans hb
    · cases hn.symm.trans hb
      exact .failing none joined e
  · cases hb
    exact .settling joined none

theorem watching_stepSettling {joined : SignalId} {signal : Option SignalId}
    (hb : (w.stepSettling ⟨p, x, joined⟩ signal).2.next = some b) : Watching p x b := by
  unfold World.stepSettling at hb
  split at hb
  · cases hb
    exact .settling joined signal
  · split at hb
    · cases hb
      exact .settling joined _
    · unfold World.register at hb
      split at hb <;> cases hb

theorem watching_stepTearingDown {turn : Option Turn} {joined : SignalId} {e : Problem}
    (hb : (w.stepTearingDown p turn (.failed ⟨p, x, joined⟩ e)).2.next = some b) : Watching p x b := by
  unfold World.stepTearingDown at hb
  rcases hx : w.awaitIdle p turn with ⟨w₁, turn' | turn' | turn' | u⟩ <;> rw [hx] at hb
  · cases hb
    exact .failing turn' joined e
  · cases hb
    exact .failing turn' joined e
  · cases hb
    exact .failing turn' joined e
  · dsimp only at hb
    split at hb <;> cases (next_endLeaving _ _).symm.trans hb

/-- **A call to watch goes on as one.** -/
theorem Watching.next (h : Watching p x a) (hb : (w.step a).2.next = some b) : Watching p x b := by
  cases h with
  | starting =>
    simp only [World.step, World.begin, World.requestWatch] at hb
    split at hb
    · cases hb
    · cases hb
      exact .joining _ none
  | joining joined other => exact watching_stepJoining hb
  | synchronizing joined r hr => exact watching_stepSynchronizing hr hb
  | settling joined signal => exact watching_stepSettling hb
  | failing turn joined e => exact watching_stepTearingDown hb

/-- what a call to watch may return: a snapshot of its path, or an error -/
def Outcome.Shows (o : Outcome) (p : Path) : Prop := (∃ y, o = .ok (.snapshot y) ∧ y.path = p) ∨ ∃ e, o = .error e

theorem shows_releasePlace {l : Leaving} (hl : ∃ seat e, l = .failed seat e) (h : (w.releasePlace q l).2 = .ended o) :
    ∃ e, o = .error e := by
  obtain ⟨seat, e, rfl⟩ := hl
  unfold World.releasePlace at h
  split at h
  · cases h
    exact ⟨e, rfl⟩
  · dsimp only at h
    split at h
    · cases h
    · cases h
      exact ⟨e, rfl⟩

/-- **What a call to watch returns.** -/
theorem Watching.ended (h : Watching p x a) (ho : (w.step a).2 = .ended o) : Outcome.Shows o p := by
  cases h with
  | starting =>
    simp only [World.step, World.begin, World.requestWatch] at ho
    split at ho
    · cases ho
      exact Or.inr ⟨_, rfl⟩
    · cases ho
  | joining joined other =>
    simp only [World.step, World.stepJoining] at ho
    split at ho
    · cases ho
    · split at ho
      · cases ho
        exact Or.inl ⟨_, rfl, snapshot_path _ p⟩
      · split at ho
        · cases ho
        · simp only [World.takePlace] at ho
          split at ho <;> cases ho
  | synchronizing joined r hr =>
    simp only [World.step, World.stepSynchronizing] at ho
    rcases hx : w.stepRefresh r with ⟨w₁, r' | r' | r' | (e | changed)⟩ <;> rw [hx] at ho
    · cases ho
    · cases ho
    · cases ho
    · exact Or.inr (shows_releasePlace ⟨_, _, rfl⟩ ho)
    · cases ho
  | settling joined signal =>
    simp only [World.step, World.stepSettling] at ho
    split at ho
    · cases ho
    · split at ho
      · cases ho
      · unfold World.register at ho
        split at ho
        · cases ho
          exact Or.inr ⟨_, rfl⟩
        · cases ho
          exact Or.inl ⟨_, rfl, snapshot_path _ p⟩
  | failing turn joined e =>
    simp only [World.step, World.stepTearingDown] at ho
    rcases hx : w.awaitIdle p turn with ⟨w₁, turn' | turn' | turn' | u⟩ <;> rw [hx] at ho
    · cases ho
    · cases ho
    · cases ho
    · refine Or.inr ⟨e, ?_⟩
      dsimp only at ho
      split at ho <;> cases ho <;> rfl

/-! ## From move to move -/

/-- What becomes of a task in a move. -/
inductive Fate (w : World) (m : Move) (id : TaskId) (ph : Phase) : Prop
  | stays (h : (w.move m).tasks.phase? id = some ph)
  | goesOn (b : Activity) (hcarry : w.carried? m = some (id, ph.activity))
      (hb : ((floorTo w id).step ph.activity).2.next = some b) (h : (w.move m).tasks.phase? id = some ⟨ph.role, b⟩)
  | ends (o : Outcome) (hcarry : w.carried? m = some (id, ph.activity))
      (ho : ((floorTo w id).step ph.activity).2 = .ended o) (h : (w.move m).tasks.phase? id = none)
  /-- it has been cancelled, and lets go of what it has -/
  | dropped (t : Task Phase) (hm : m = .turn id) (hs : w.served? id = some t) (hc : t.cancelled = true)
      (h : (w.move m).tasks.phase? id = none)

theorem ended_of_next {σ α : Type} {s : Section σ α} (h : s.next = none) : ∃ o, s = .ended o := by
  cases s with
  | ended o => exact ⟨o, rfl⟩
  | _ => cases h

/-- **What becomes of a task in a move.** -/
theorem fate_move (hw : Wf w) {ph : Phase} (hph : w.tasks.phase? id = some ph) (m : Move) : Fate w m id ph := by
  by_cases hm : w.serves m id = true
  · obtain ⟨rfl, hgo⟩ := serves_iff.1 hm
    cases hs : w.served? id with
    | none => exact .stays ((phase?_serve_of_nobody hs id).trans hph)
    | some t =>
      cases hph.symm.trans (phase?_of_served hs)
      cases hc : t.cancelled with
      | true => exact .dropped t rfl hs hc (phase?_serve_of_cancelled hw hs hc)
      | false =>
        have hafter := phase?_serve hw hs hc
        have hcarry := carried?_of_served hs hc
        cases hb : ((floorTo w id).step t.phase.activity).2.next with
        | none =>
          obtain ⟨o, ho⟩ := ended_of_next hb
          exact .ends o hcarry ho (by rw [World.move, hafter, hb]; rfl)
        | some b => exact .goesOn b hcarry hb (by rw [World.move, hafter, hb]; rfl)
  · exact .stays (phase?_kept hw (Bool.eq_false_iff.2 hm) hph)

/-! ## Along a run -/

section Trace

variable {policy : WritePolicy} {moves moves' : Nat → Move} {n l : Nat}

/-- runs with the same moves go the same way -/
theorem trace_congr (h : ∀ j < n, moves j = moves' j) : w.trace moves n = w.trace moves' n := by
  induction n with
  | zero => rfl
  | succ n ih =>
    rw [World.trace, World.trace, ih fun j hj => h j (Nat.lt_succ_of_lt hj), h n (Nat.lt_succ_self n)]

/-- a call becomes a task that begins it -/
theorem phase?_called {s : Request} (hm : moves n = .call s) (hs : s.isPublic = true) :
    (w.trace moves (n + 1)).tasks.phase? (w.trace moves n).tasks.next = some ⟨.caller, .starting s⟩ := by
  rw [World.trace, hm]
  simp only [World.move, hs, if_true, World.call, World.spawn]
  rw [Tasks.phase?_spawn, if_pos rfl]

/-- **What the sections of a task keep holds until the task ends**, and it does not come back. -/
theorem stays_trace {P : Phase → Prop} (hnl : n ≤ l) {ph : Phase}
    (hph : ((World.start policy).trace moves n).tasks.phase? id = some ph) (hP : P ph)
    (hstep : ∀ j, n ≤ j → j < l → ∀ ρ a b, ((World.start policy).trace moves j).carried? (moves j) = some (id, a) →
      P ⟨ρ, a⟩ → ((floorTo ((World.start policy).trace moves j) id).step a).2.next = some b → P ⟨ρ, b⟩) :
    (∃ ph', ((World.start policy).trace moves l).tasks.phase? id = some ph' ∧ P ph') ∨
      id < ((World.start policy).trace moves l).tasks.next ∧ ((World.start policy).trace moves l).tasks.phase? id = none := by
  induction l, hnl using Nat.le_induction with
  | base => exact Or.inl ⟨ph, hph, hP⟩
  | succ l hl ih =>
    have hw := (reachable_trace policy moves l).wf
    rcases ih fun j hnj hjl => hstep j hnj (Nat.lt_succ_of_lt hjl) with ⟨ph₀, hph₀, hP₀⟩ | hgone
    · have hnumber : id < ((World.start policy).trace moves (l + 1)).tasks.next :=
        lt_of_lt_of_le (hw.numbered.lt hph₀) (grows_move hw (moves l)).1
      cases fate_move hw hph₀ (moves l) with
      | stays hsame => exact Or.inl ⟨ph₀, hsame, hP₀⟩
      | goesOn b hcarry hb hnew => exact Or.inl ⟨_, hnew, hstep l hl (Nat.lt_succ_self l) ph₀.role _ b hcarry hP₀ hb⟩
      | ends o hcarry ho hnone => exact Or.inr ⟨hnumber, hnone⟩
      | dropped t hm hs hc hnone => exact Or.inr ⟨hnumber, hnone⟩
    · exact Or.inr (gone_trace (Nat.le_succ l) hgone.1 hgone.2)

/-- **A call to watch is in one of its phases until it ends.** -/
theorem watching_trace (hm : moves n = .call (.watch p x)) (hnl : n < l) :
    (∃ ph, ((World.start policy).trace moves l).tasks.phase? ((World.start policy).trace moves n).tasks.next = some ph ∧
      ph.role = .caller ∧ Watching p x ph.activity) ∨
    ((World.start policy).trace moves n).tasks.next < ((World.start policy).trace moves l).tasks.next ∧
      ((World.start policy).trace moves l).tasks.phase? ((World.start policy).trace moves n).tasks.next = none := by
  have hph := phase?_called (w := World.start policy) hm rfl
  refine stays_trace (P := fun ph => ph.role = .caller ∧ Watching p x ph.activity) (Nat.succ_le_of_lt hnl) hph
    ⟨rfl, .starting⟩ ?_
  intro j _ _ ρ a b _ hP hb
  exact ⟨hP.1, hP.2.next hb⟩

/-- a call that returns in some move has been there since it was made -/
theorem live_of_replies {s : Request} {c : Nat} (hm : moves c = .call s)
    (hs : s.isPublic = true) (hcl : c < l) (hln : l ≤ n)
    (hr : Replies ((World.start policy).trace moves n) (moves n) ((World.start policy).trace moves c).tasks.next o) :
    ((World.start policy).trace moves l).tasks.phase? ((World.start policy).trace moves c).tasks.next ≠ none := by
  have hstart := phase?_called (w := World.start policy) hm hs
  intro hnone
  rcases stays_trace (P := fun _ => True) (Nat.succ_le_of_lt hcl) hstart trivial fun _ _ _ _ _ _ _ _ _ => trivial with
    ⟨ph, hph, -⟩ | ⟨hnumber, -⟩
  · cases hnone.symm.trans hph
  · have hgone := (gone_trace hln hnumber hnone).2
    obtain ⟨a, hcarry, -⟩ := hr
    obtain ⟨ρ, hph⟩ := phase?_carried hcarry
    cases hgone.symm.trans hph

/-- numbers of tasks are given once -/
theorem next_trace (hnl : n ≤ l) :
    ((World.start policy).trace moves n).tasks.next ≤ ((World.start policy).trace moves l).tasks.next := by
  induction l, hnl using Nat.le_induction with
  | base => exact le_rfl
  | succ l _ ih =>
    exact ih.trans (grows_move (reachable_trace policy moves l).wf (moves l)).1

/-- a call that has a phase has been made before -/
theorem later_of_phase? {ph : Phase}
    (hph : ((World.start policy).trace moves n).tasks.phase? ((World.start policy).trace moves l).tasks.next = some ph) :
    l < n := by
  by_contra hle
  have hnumber := (reachable_trace policy moves n).wf.numbered.lt hph
  exact absurd hnumber (Nat.not_lt_of_le (next_trace (Nat.le_of_not_lt hle)))

/-- a call returns only after it has been made -/
theorem later_of_replies
    (hr : Replies ((World.start policy).trace moves n) (moves n) ((World.start policy).trace moves l).tasks.next o) :
    l < n := by
  obtain ⟨a, hcarry, -⟩ := hr
  obtain ⟨ρ, hph⟩ := phase?_carried hcarry
  exact later_of_phase? hph

end Trace

end LiveFiles.Engine
