/-
One operation at a time. Whatever happens to the engine, shutting down and cancelling included:
- **`exclusive_trace`**: in every state of a run in which nobody but the engine calls the disk, at most one call is under
  way at a path, and never have been more; whoever has a call under way has the lock of the path, and nobody else has it;
  and where no operation is unfinished there is no lock any more (`World.Exclusive`). The lock goes to turns in the order
  in which they were asked for: when a turn has the lock, those at its path that were asked for earlier have been given
  back, and nobody will have them again (`InOrder`).
The locks do their part by `Turns.Ordered`, the tasks theirs by `Locked`.
-/
import LiveFiles.Proofs.Calls
import LiveFiles.Proofs.Guards

namespace LiveFiles

/-! ## Lines are in order -/

namespace Turns

variable {t : Turns} {held : TaskId → Option Turn} {i j : TaskId} {τ σ : Turn}

/-- in each line the turns stand in the order of their numbers -/
def Ordered (t : Turns) : Prop := ∀ k s, t.slots.get? k = some s → (Lock.line (t.lock s.lock)).Pairwise (· < ·)

theorem Ordered.enlist (h : t.Ordered) (hs : t.Sound held) (k : Path.Key) : (t.enlist k).2.Ordered := by
  intro k' s hk'
  rcases hs.slots_enlist_cases hk' with ⟨-, e, -⟩ | ⟨-, hk', hlock⟩
  · rw [e, lock_enlist_self]
    cases hk : t.slots.get? k with
    | none => simp [Lock.line]
    | some s₀ =>
      dsimp only
      rw [Lock.line_join (hs.taken k s₀ hk), List.pairwise_append]
      refine ⟨h k s₀ hk, List.pairwise_singleton _ _, fun x hx y hy => ?_⟩
      obtain ⟨i, τ, hi, -, rfl⟩ := (hs.mem_line k s₀ hk x).1 hx
      rw [List.mem_singleton.1 hy]
      exact hs.fresh i τ hi
  · rw [hlock]
    exact h k' s hk'

theorem Ordered.giveBack (h : t.Ordered) (hs : t.Sound held) (hi : held i = some τ) : (t.giveBack τ).1.Ordered := by
  intro k s hk
  rcases hs.slots_giveBack_cases hi hk with ⟨-, hk', e, -, hlock⟩ | ⟨-, hk', -, hlock⟩
  · rw [e, hlock, Lock.line_leave (hs.taken _ _ hk')]
    exact (h _ _ hk').sublist List.erase_sublist
  · rw [hlock]
    exact h k s hk'

/-- **The turn that has the lock was the first to be asked for.** -/
theorem Ordered.first (h : t.Ordered) (hs : t.Sound held) (hi : held i = some τ) (hj : held j = some σ)
    (hk : τ.key = σ.key) (hσ : t.holds σ = true) : σ.id ≤ τ.id := by
  obtain ⟨n, hn⟩ := hs.slot j σ hj
  have hτ : τ.id ∈ Lock.line (t.lock σ.lock) := (hs.mem_line _ _ hn τ.id).2 ⟨i, τ, hi, hk, rfl⟩
  have hline : Lock.line (t.lock σ.lock) = σ.id :: (t.lock σ.lock).queue := by
    simp only [holds, decide_eq_true_eq] at hσ
    simp [Lock.line, hσ]
  have hord := h _ _ hn
  rw [hline] at hτ hord
  rcases List.mem_cons.1 hτ with e | hτ
  · exact e.ge
  · exact (List.rel_of_pairwise_cons hord hτ).le

end Turns

namespace Engine

variable {E : Mark → Prop} {c c' : Core} {s s' : Stake} {st : TaskId → Stake} {i j : TaskId} {τ σ : Turn}

/-! ## Who works has the lock -/

/-- lines are in order, and an operation that has been taken up has the lock -/
structure Locked (c : Core) (st : TaskId → Stake) : Prop where
  sound : Sound c st
  ordered : c.turns.Ordered
  look : ∀ i l d, (st i).errand = .look l d → c.turns.holds l.turn = true
  save : ∀ i job, (st i).errand = .save job true → c.turns.holds job.turn = true

/-- **Whatever a task does, who works has the lock.** -/
theorem locked_effect (hl : Locked c st) (h : Effect E c (st i) c' s') : Locked c' (Function.update st i s') where
  sound := sound_effect hl.sound h
  ordered := by
    rcases h.turns with ⟨e, -⟩ | ⟨k, -, e, -⟩ | ⟨τ, hτ, e, -⟩ <;> rw [e]
    · exact hl.ordered
    · exact hl.ordered.enlist hl.sound.turns k
    · exact hl.ordered.giveBack hl.sound.turns hτ
  look j l d hj := by
    by_cases hji : j = i
    · subst hji
      rw [Function.update_self] at hj
      rcases h.look_prev hj with ⟨d₀, hi, e⟩ | ⟨q, e, hi, ht, hτ, -⟩
      · rw [e]
        exact hl.look j l d₀ hi
      · rw [ht]
        exact hτ
    · rw [Function.update_of_ne hji] at hj
      exact h.holds_other hl.sound hji (by rw [hj]; rfl) (hl.look j l d hj)
  save j job hj := by
    by_cases hji : j = i
    · subst hji
      rw [Function.update_self] at hj
      rcases h.save_prev hj with ⟨hi, e⟩ | ⟨hi, e, hτ⟩ <;> rw [e]
      · exact hl.save j job hi
      · exact hτ
    · rw [Function.update_of_ne hji] at hj
      exact h.holds_other hl.sound hji (by rw [hj]; rfl) (hl.save j job hj)

variable {policy : WritePolicy} {moves : Nat → Move} {n : Nat}

theorem locked_trace (policy : WritePolicy) (moves : Nat → Move) (n : Nat) :
    Locked ((World.start policy).trace moves n).core ((World.start policy).trace moves n).stakes := by
  refine trace_induction (N := fun _ => False) (fun _ _ _ h => h) ?_ (fun _ _ _ _ _ _ _ hl h => locked_effect hl h) n
  exact ⟨sound_start policy, fun k s hs => (by cases hs), fun i l d h => (by cases h), fun i job h => by cases h⟩

/-! ## Turns are asked for once -/

/-- a task has a turn -/
def World.HasTurn (w : World) (id : TaskId) (τ : Turn) : Prop := held w.stakes id = some τ

/-- a task has a turn, and with it the lock of the path -/
def World.HasLock (w : World) (id : TaskId) (τ : Turn) : Prop := w.HasTurn id τ ∧ w.turns.holds τ = true

/-- in this move a task asks for a turn -/
def Asks (w : World) (m : Move) (id : TaskId) (τ : Turn) : Prop := ¬ w.HasTurn id τ ∧ (w.move m).HasTurn id τ

/-- The lock goes to turns in the order in which they were asked for: once a turn has it, the turns at its path that were
asked for earlier have been given back for good. -/
def InOrder (w : World) (moves : Nat → Move) : Prop :=
  ∀ i j a b τ σ, i < j → Asks (w.trace moves i) (moves i) a τ → Asks (w.trace moves j) (moves j) b σ → τ.key = σ.key →
    ∀ n, (w.trace moves n).HasLock b σ → ∀ m, n ≤ m → ∀ id, ¬ (w.trace moves m).HasTurn id τ

/-- a turn that a task has afterwards it has had before, or its number is new -/
theorem Effects.turn_fresh (h : Effects E c s c' s') :
    c.turns.nextTurn ≤ c'.turns.nextTurn ∧
      ∀ τ, s'.errand.turn? = some τ → s.errand.turn? = some τ ∨ c.turns.nextTurn ≤ τ.id := by
  induction h with
  | refl => exact ⟨le_rfl, fun τ h => Or.inl h⟩
  | tail _ he ih =>
    obtain ⟨hle, hturn⟩ := ih
    rcases he.turns with ⟨e, e'⟩ | ⟨k, -, e, e'⟩ | ⟨τ, -, e, e'⟩
    · rw [e, e']
      exact ⟨hle, hturn⟩
    · rw [e, e', Turns.nextTurn_enlist]
      refine ⟨hle.trans (Nat.le_succ _), fun τ hτ => Or.inr ?_⟩
      rw [← Option.some.inj hτ, Turns.enlist_id]
      exact hle
    · rw [e, e', Turns.nextTurn_giveBack]
      exact ⟨hle, fun τ hτ => by cases hτ⟩

variable {w : World} {m : Move} {id : TaskId} {k : Path.Key}

theorem turn_move (hw : Wf w) (m : Move) :
    w.turns.nextTurn ≤ (w.move m).turns.nextTurn ∧
      ∀ id τ, (w.move m).HasTurn id τ → w.HasTurn id τ ∨ w.turns.nextTurn ≤ τ.id := by
  obtain ⟨i, hs⟩ := move_served hw m
  obtain ⟨s', he, hst⟩ := hs.effects
  obtain ⟨hle, hturn⟩ := he.turn_fresh
  refine ⟨hle, fun id τ hτ => ?_⟩
  rw [World.HasTurn, hst, held_update] at hτ
  by_cases hid : id = i
  · subst hid
    rw [Function.update_self] at hτ
    exact hturn τ hτ
  · rw [Function.update_of_ne hid] at hτ
    exact Or.inl hτ

theorem nextTurn_trace {n m : Nat} (hnm : n ≤ m) :
    ((World.start policy).trace moves n).turns.nextTurn ≤ ((World.start policy).trace moves m).turns.nextTurn := by
  induction m, hnm using Nat.le_induction with
  | base => exact le_rfl
  | succ m _ ih => exact ih.trans (turn_move (reachable_trace policy moves m).wf (moves m)).1

/-- nobody gets a turn that is known already -/
theorem turn_trace {n m : Nat} (hnm : n ≤ m) (h : ((World.start policy).trace moves m).HasTurn id τ)
    (hτ : τ.id < ((World.start policy).trace moves n).turns.nextTurn) :
    ((World.start policy).trace moves n).HasTurn id τ := by
  induction m, hnm using Nat.le_induction with
  | base => exact h
  | succ m hm ih =>
    rcases (turn_move (reachable_trace policy moves m).wf (moves m)).2 id τ h with h | h
    · exact ih h
    · exact absurd (hτ.trans_le ((nextTurn_trace hm).trans h)) (lt_irrefl _)

/-- the number of a turn is taken when it is asked for -/
theorem Asks.fresh (hw : Wf w) (h : Asks w m id τ) : w.turns.nextTurn ≤ τ.id ∧ τ.id < (w.move m).turns.nextTurn :=
  ⟨((turn_move hw m).2 id τ h.2).resolve_left h.1, (wf_move hw m).sound.turns.fresh id τ h.2⟩

/-- **Locks are given in the order in which turns were asked for.** -/
theorem inOrder_trace (policy : WritePolicy) (moves : Nat → Move) : InOrder (World.start policy) moves := by
  intro i j a b τ σ hij hi hj hk n hn m hnm id hid
  obtain ⟨-, hτ⟩ := hi.fresh (reachable_trace policy moves i).wf
  obtain ⟨hσ, -⟩ := hj.fresh (reachable_trace policy moves j).wf
  have hlt : τ.id < σ.id := hτ.trans_le ((nextTurn_trace hij).trans hσ)
  have hlocked := locked_trace policy moves n
  -- the earlier turn is known when the later one has the lock
  have hknown : τ.id < ((World.start policy).trace moves n).turns.nextTurn :=
    hlt.trans (hlocked.sound.turns.fresh b σ hn.1)
  have hfirst := hlocked.ordered.first hlocked.sound.turns (turn_trace hnm hid hknown) hn.1 hk hn.2
  exact absurd (hlt.trans_le hfirst) (lt_irrefl _)

/-! ## Calls under way -/

namespace World

/-- the path at which a task has a call to the disk under way -/
def call? (w : World) (id : TaskId) : Option Path.Key := (w.tasks.phase? id).bind fun ph => ph.activity.call?

/-- no task makes calls to the disk that are not the engine's -/
def Sober (w : World) : Prop := ∀ id ph, w.tasks.phase? id = some ph → ph.activity.isDirect = false

/-- the calls under way are those of the tasks, one at a path at most -/
structure Tallies (w : World) : Prop where
  now : ∀ k, (w.disk.traffic.now k = 1 ∧ ∃ id, w.call? id = some k) ∨
    w.disk.traffic.now k = 0 ∧ ∀ id, w.call? id ≠ some k
  most : ∀ k, w.disk.traffic.most k ≤ 1

end World

/-- a task that has a call under way has an errand at the path, and the lock -/
theorem Activity.call?_cases {a : Activity} (h : a.call? = some k) (ha : a.isDirect = false) :
    (∃ l d, a.stake.errand = .look l d ∧ l.path.key = k) ∨ ∃ job, a.stake.errand = .save job true ∧ job.path.key = k := by
  have hrefresh : ∀ r : Refresh, r.call? = some k → ∃ l d, r.errand = .look l d ∧ l.path.key = k := fun r hr => by
    cases r <;> cases hr <;> exact ⟨_, _, rfl, rfl⟩
  cases a with
  | refreshing r => exact Or.inl (hrefresh r h)
  | synchronizing seat r => exact Or.inl (hrefresh r h)
  | saving x => cases x <;> cases h <;> exact Or.inr ⟨_, rfl, rfl⟩
  | diskStat p c => cases ha
  | diskRead p c => cases ha
  | diskWrite p bytes c => cases ha
  | _ => cases h

theorem Locked.of_call (hl : Locked w.core w.stakes) (hd : w.Sober) (h : w.call? id = some k) :
    ∃ τ, w.HasLock id τ ∧ τ.key = k := by
  obtain ⟨ph, hph, hcall⟩ := Option.bind_eq_some_iff.1 h
  have hst := stakes_of_phase hph
  rcases ph.activity.call?_cases hcall (hd id ph hph) with ⟨l, d, hl', rfl⟩ | ⟨job, hj, rfl⟩
  · rw [← hst] at hl'
    exact ⟨l.turn, ⟨by rw [World.HasTurn, held, hl']; rfl, hl.look id l d hl'⟩,
      hl.sound.keyed id l.turn (by rw [hl']; rfl) l.path (by rw [hl']; rfl)⟩
  · rw [← hst] at hj
    exact ⟨job.turn, ⟨by rw [World.HasTurn, held, hj]; rfl, hl.save id job hj⟩,
      hl.sound.keyed id job.turn (by rw [hj]; rfl) job.path (by rw [hj]; rfl)⟩

/-- two tasks with calls under way at a path are one -/
theorem Locked.alone (hl : Locked w.core w.stakes) (hd : w.Sober) {a b : TaskId} (ha : w.call? a = some k)
    (hb : w.call? b = some k) : a = b := by
  obtain ⟨τ, hτ, rfl⟩ := hl.of_call hd ha
  obtain ⟨σ, hσ, hk⟩ := hl.of_call hd hb
  exact hl.sound.turns.holds_unique hτ.1 hσ.1 hk.symm hτ.2 hσ.2

/-- What a section does to the traffic keeps the tally, if no two tasks have calls under way at a path before or after. -/
theorem Passes.tallies {v v' : Traffic} {x x' : Option Path.Key} {C C' : TaskId → Option Path.Key} (h : Passes v x v' x')
    (hx : C i = x) (hx' : C' i = x') (hother : ∀ j, j ≠ i → C' j = C j)
    (hone : ∀ k a b, C a = some k → C b = some k → a = b) (hone' : ∀ k a b, C' a = some k → C' b = some k → a = b)
    (hnow : ∀ k, (v.now k = 1 ∧ ∃ id, C id = some k) ∨ v.now k = 0 ∧ ∀ id, C id ≠ some k) (hmost : ∀ k, v.most k ≤ 1) :
    (∀ k, (v'.now k = 1 ∧ ∃ id, C' id = some k) ∨ v'.now k = 0 ∧ ∀ id, C' id ≠ some k) ∧ ∀ k, v'.most k ≤ 1 := by
  -- where the task has no call, neither before nor after, nothing happens
  have hrest : ∀ k, v'.now k = v.now k → x ≠ some k → x' ≠ some k →
      (v'.now k = 1 ∧ ∃ id, C' id = some k) ∨ v'.now k = 0 ∧ ∀ id, C' id ≠ some k := fun k e hk hk' => by
    rw [e]
    refine (hnow k).imp (fun ⟨h1, id, hid⟩ => ⟨h1, id, ?_⟩) fun ⟨h0, hno⟩ => ⟨h0, fun id hid => ?_⟩
    · rw [hother id (fun e => hk (hx.symm.trans (e ▸ hid)))]
      exact hid
    · rw [hother id (fun e => hk' (hx'.symm.trans (e ▸ hid)))] at hid
      exact hno id hid
  -- where it has one, there is no other
  have halone : ∀ k, x = some k → v.now k = 1 := fun k hk => by
    rcases hnow k with ⟨h1, -⟩ | ⟨-, hno⟩
    · exact h1
    · exact absurd (hx.trans hk) (hno i)
  cases h with
  | stay =>
    refine ⟨fun k => ?_, hmost⟩
    have hsame : ∀ j, C' j = C j := fun j => by
      by_cases hj : j = i
      · rw [hj, hx, hx']
      · exact hother j hj
    simp only [hsame]
    exact hnow k
  | begins k₀ =>
    have hzero : v.now k₀ = 0 := by
      rcases hnow k₀ with ⟨-, id, hid⟩ | ⟨h0, -⟩
      · have hne : id ≠ i := fun e => by rw [e, hx] at hid; cases hid
        exact absurd (hone' k₀ id i ((hother id hne).trans hid) hx') hne
      · exact h0
    refine ⟨fun k => ?_, fun k => ?_⟩
    · by_cases hk : k = k₀
      · subst hk
        exact Or.inl ⟨by simp [Traffic.enter, hzero], i, hx'⟩
      · exact hrest k (by simp [Traffic.enter, hk]) (by simp) (by simpa using Ne.symm hk)
    · by_cases hk : k = k₀
      · subst hk
        simpa [Traffic.enter, hzero] using hmost k
      · simpa [Traffic.enter, hk] using hmost k
  | ends k₀ =>
    refine ⟨fun k => ?_, hmost⟩
    by_cases hk : k = k₀
    · subst hk
      refine Or.inr ⟨by simp [Traffic.leave, halone k rfl], fun id hid => ?_⟩
      have hne : id ≠ i := fun e => by rw [e, hx'] at hid; cases hid
      exact hne (hone k id i ((hother id hne).symm.trans hid) hx)
    · exact hrest k (by simp [Traffic.leave, hk]) (by simpa using Ne.symm hk) (by simp)
  | next k₀ =>
    refine ⟨fun k => ?_, fun k => ?_⟩
    · by_cases hk : k = k₀
      · subst hk
        exact Or.inl ⟨by simp [Traffic.enter, Traffic.leave, halone k rfl], i, hx'⟩
      · exact hrest k (by simp [Traffic.enter, Traffic.leave, hk]) (by simpa using Ne.symm hk) (by simpa using Ne.symm hk)
    · by_cases hk : k = k₀
      · subst hk
        simpa [Traffic.enter, Traffic.leave, halone k rfl] using hmost k
      · simpa [Traffic.enter, Traffic.leave, hk] using hmost k

/-! ### In a move -/

theorem Newcomer.call? {p : Phase} (h : Newcomer w m p) : p.activity.call? = none := by
  rcases h.cases with ⟨r, hp, -⟩ | ⟨q, x, hp⟩ | ⟨x, hp⟩ <;> rw [hp] <;> rfl

theorem Newcomer.isDirect {p : Phase} (h : Newcomer w m p) (hm : ∀ r, m = .call r → r.isDirect = false) :
    p.activity.isDirect = false := by
  rcases h.cases with ⟨r, hp, rfl | ⟨q, rfl⟩ | ⟨q, x, rfl⟩ | ⟨q, rfl⟩⟩ | ⟨q, x, hp⟩ | ⟨x, hp⟩ <;> rw [hp]
  · exact hm r rfl
  all_goals rfl

theorem traffic_onDisk (m : Move) (d : Disk) : (m.onDisk d).traffic = d.traffic := by cases m <;> rfl

/-- turns apart, a move leaves the traffic alone -/
theorem traffic_outside (w : World) (hm : ∀ id, m ≠ .turn id) : (w.move m).disk.traffic = w.disk.traffic := by
  rw [(outside w hm).disk, traffic_onDisk]

theorem disk_finish (w : World) (id : TaskId) (role : Role) (e : Ending) : (w.finish id role e).disk = w.disk := by
  cases role <;> rfl

/-- whoever does not get the floor has the call under way that it had -/
theorem call?_unserved (hw : Wf w) (hs : w.serves m id = false) : (w.move m).call? id = w.call? id := by
  rcases phase?_newcomer hw hs with h | ⟨hnone, h⟩
  · rw [World.call?, h, World.call?]
  · rw [World.call?, World.call?, hnone]
    cases hp : (w.move m).tasks.phase? id with
    | none => rfl
    | some p => exact (h p hp).call?

theorem call?_of_served {t : Task Phase} (hs : w.served? id = some t) : w.call? id = t.phase.activity.call? := by
  rw [World.call?, phase?_of_served hs]
  rfl

/-- what the turn of a task does to the traffic -/
theorem passes_turn (hw : Wf w) (hd : w.Sober) (id : TaskId) :
    Passes w.disk.traffic (w.call? id) (serve w id).disk.traffic ((serve w id).call? id) := by
  cases hs : w.served? id with
  | none =>
    obtain ⟨ready, floor, hserve⟩ := serve_of_nobody hs
    rw [hserve]
    exact .stay _
  | some t =>
    rw [call?_of_served hs]
    cases hc : t.cancelled with
    | false =>
      have hdirect : t.phase.activity.isDirect = false :=
        hd id t.phase (phase?_of_served hs)
      have h := (calling_step (floorTo w id) hdirect).passes
      have hcall : (serve w id).call? id = ((floorTo w id).step t.phase.activity).2.next.bind Activity.call? := by
        rw [World.call?, phase?_serve hw hs hc, Option.bind_map]
        rfl
      rw [(core_serve_of_section hs hc).2, hcall, ← disk_floorTo w id]
      exact h
    | true =>
      have h := passes_abandon ((floorTo w id).without id) t.phase.activity
      have hdisk : ((floorTo w id).without id).disk = w.disk := disk_floorTo w id
      rw [hdisk] at h
      rw [World.call?, phase?_serve_of_cancelled hw hs hc, serve_of_cancelled hs hc, disk_finish]
      exact h

theorem sober_move (hw : Wf w) (hd : w.Sober) (hm : ∀ r, m = .call r → r.isDirect = false) : (w.move m).Sober := by
  intro id ph hph
  cases hs : w.serves m id with
  | false =>
    rcases phase?_newcomer hw hs with he | ⟨-, hnew⟩
    · exact hd id ph (he.symm.trans hph)
    · exact (hnew ph hph).isDirect hm
  | true =>
    obtain ⟨rfl, hgo⟩ := serves_iff.1 hs
    simp only [World.move] at hph
    cases hs : w.served? id with
    | none => exact hd id ph ((phase?_serve_of_nobody hs id).symm.trans hph)
    | some t =>
      cases hc : t.cancelled with
      | true => cases hph.symm.trans (phase?_serve_of_cancelled hw hs hc)
      | false =>
        have hdirect : t.phase.activity.isDirect = false :=
          hd id t.phase (phase?_of_served hs)
        rw [phase?_serve hw hs hc] at hph
        obtain ⟨b, hb, rfl⟩ := Option.map_eq_some_iff.1 hph
        exact (calling_step (floorTo w id) hdirect).direct b hb

/-- **Every move keeps the tally of calls under way.** -/
theorem tallies_move (hw : Wf w) (hd : w.Sober) (hd' : (w.move m).Sober) (hl : Locked w.core w.stakes)
    (hl' : Locked (w.move m).core (w.move m).stakes) (ht : w.Tallies) : (w.move m).Tallies := by
  by_cases hturn : ∃ id, m = .turn id
  · obtain ⟨id, rfl⟩ := hturn
    have hother : ∀ j, j ≠ id → (w.move (.turn id)).call? j = w.call? j := fun j hj =>
      call?_unserved hw (serves_of_ne hj)
    obtain ⟨hnow, hmost⟩ := (passes_turn hw hd id).tallies rfl rfl hother (fun _ _ _ => hl.alone hd)
      (fun _ _ _ => hl'.alone hd') ht.now ht.most
    exact ⟨hnow, hmost⟩
  · have hno : ∀ id, m ≠ .turn id := fun id e => hturn ⟨id, e⟩
    have hcall : ∀ id, (w.move m).call? id = w.call? id := fun id =>
      call?_unserved hw (by cases m <;> first | rfl | exact absurd rfl (hno _))
    have htraffic := traffic_outside w hno
    exact ⟨fun k => by simpa only [htraffic, hcall] using ht.now k, fun k => by rw [htraffic]; exact ht.most k⟩

/-! ## Along a run -/

/-- one operation at a time at each path -/
structure World.Exclusive (w : World) : Prop where
  /-- at most one call to the disk is under way at a path, and never have been more -/
  calls : ∀ p, w.disk.underWayAt p ≤ 1 ∧ w.disk.mostUnderWayAt p ≤ 1
  /-- whoever has a call under way has the lock of the path -/
  locked : ∀ id k, w.call? id = some k → ∃ τ, w.HasLock id τ ∧ τ.key = k
  /-- no two tasks have the lock of a path -/
  disjoint : ∀ a b τ σ, w.HasLock a τ → w.HasLock b σ → τ.key = σ.key → a = b
  /-- where no operation is unfinished there is no lock -/
  released : ∀ p, w.isUnused p = true → w.turns.isIdle p.key = true

/-- whoever has a turn is an operation at the path of the turn -/
theorem Activity.operation?_of_turn {a : Activity} (h : a.stake.errand.turn? = some τ) :
    ∃ q, a.operation? = some q ∧ a.stake.errand.path? = some q := by
  have hrefresh : ∀ r : Refresh, r.errand.path? = some r.path := fun r => by cases r <;> rfl
  cases a with
  | refreshing r => exact ⟨r.path, rfl, hrefresh r⟩
  | synchronizing seat r => exact ⟨r.path, rfl, hrefresh r⟩
  | saving x => exact ⟨x.job.path, rfl, by cases x <;> rfl⟩
  | settling seat x => cases x <;> cases h
  | tearingDown p turn l => cases turn <;> cases h; exact ⟨p, rfl, rfl⟩
  | draining p turn rest => cases turn <;> cases h; exact ⟨p, rfl, rfl⟩
  | starting r => cases r <;> cases h
  | _ => cases h

theorem Sound.isIdle_of_isUnused (hs : Sound w.core w.stakes) {p : Path} (h : w.isUnused p = true) :
    w.turns.isIdle p.key = true := by
  refine hs.turns.isIdle_iff.2 fun id τ hτ hk => ?_
  cases hph : w.tasks.phase? id with
  | none =>
    rw [held, stakes_of_none hph] at hτ
    cases hτ
  | some ph =>
    rw [held, stakes_of_phase hph] at hτ
    obtain ⟨q, hq, hpath⟩ := Activity.operation?_of_turn hτ
    refine isUnused_iff.1 h id ph q hph hq ?_
    rw [← hs.keyed id τ (by rw [stakes_of_phase hph]; exact hτ) q (by rw [stakes_of_phase hph]; exact hpath)]
    exact hk

theorem tallies_trace (policy : WritePolicy) (h : ∀ n r, moves n = .call r → r.isDirect = false) (n : Nat) :
    ((World.start policy).trace moves n).Sober ∧ ((World.start policy).trace moves n).Tallies := by
  induction n with
  | zero => exact ⟨fun id ph hph => (by cases hph), ⟨fun k => Or.inr ⟨rfl, fun id hid => by cases hid⟩, fun k => Nat.zero_le 1⟩⟩
  | succ n ih =>
    have hw := (reachable_trace policy moves n).wf
    have hd' := sober_move hw ih.1 (h n)
    exact ⟨hd', tallies_move hw ih.1 hd' (locked_trace policy moves n) (locked_trace policy moves (n + 1)) ih.2⟩

/-- **In a run in which nobody but the engine calls the disk, operations at a path go one at a time**, in the order in which
they have asked for their turns, and leave no lock behind. -/
theorem exclusive_trace (h : ∀ n r, moves n = .call r → r.isDirect = false) :
    (∀ n, ((World.start policy).trace moves n).Exclusive) ∧ InOrder (World.start policy) moves := by
  refine ⟨fun n => ?_, inOrder_trace policy moves⟩
  obtain ⟨hd, ht⟩ := tallies_trace policy h n
  have hl := locked_trace policy moves n
  refine ⟨fun p => ⟨?_, ht.most p.key⟩, fun id k hk => hl.of_call hd hk,
    fun a b τ σ ha hb hk => hl.sound.turns.holds_unique ha.1 hb.1 hk ha.2 hb.2,
    fun p hp => hl.sound.isIdle_of_isUnused hp⟩
  rcases ht.now p.key with ⟨h1, -⟩ | ⟨h0, -⟩
  · exact h1.le
  · exact h0.le.trans (Nat.zero_le 1)

/-- Two writes at a path and a reconciliation come together; the second write is cancelled in line, and the engine is shut
down meanwhile. -/
def contending : List Move :=
  let p : Path := ⟨"/a"⟩
  [.newSubscriber, .putFile p ⟨#[49]⟩, .call (.watch p ⟨1⟩), .turn 1, .turn 1, .turn 1, .turn 1, .turn 1, .turn 1, .turn 2,
    .hold .write p, .call (.write p ⟨#[50]⟩), .turn 3, .turn 3, .call (.write p ⟨#[51]⟩), .turn 4, .turn 4,
    .call (.reconcile p), .turn 5, .turn 5, .call .shutDown, .turn 6, .turn 6, .turn 6, .turn 6, .cancel 4, .turn 2,
    .turn 4, .openGate 1, .turn 3, .turn 3, .turn 3, .turn 5, .turn 5, .turn 6, .turn 6]

/-- nobody but the engine calls the disk in the run -/
theorem exclusive_trace_contending :
    (∀ n r, along contending n = .call r → r.isDirect = false) ∧
      (∀ n, ((World.start .allow).trace (along contending) n).Exclusive) ∧
        InOrder (World.start .allow) (along contending) := by
  have h : ∀ n r, along contending n = .call r → r.isDirect = false := fun n r hn => by
    cases hr : r.isDirect with
    | false => rfl
    | true =>
      refine absurd hn (along_ne contending (m := .call r) ?_ (by simp) n)
      cases r with
      | diskStat _ | diskRead _ | diskWrite _ _ => simp [contending]
      | _ => cases hr
  exact ⟨h, exclusive_trace h⟩

end Engine

end LiveFiles
