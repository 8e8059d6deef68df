/-
When waiting until nobody has a turn at a path comes to an end. Calls that take the last subscriber of a path away wait
for that, and so does shutting down; each does it by taking turns at the path itself.
- **`drained_iff`**: in a run in which whoever can go on gets the floor sooner or later, the operations that work at the
  path give their turns back, nobody new comes to it and nobody who waits is cancelled, all waits end exactly if there
  is at most one of them.
- `drains_forever`: two of them keep each other waiting in every state, for each finds the turn of the other.
- `standoff_never_ends`: a run in which unwatching a path and shutting down meet there while a file is being written.
-/
import LiveFiles.Proofs.Standoff

namespace LiveFiles.Engine

/-! ## Undisturbed runs -/

/-- a run in which the operations at a path come to their ends and nobody new comes to it -/
structure Undisturbed (w : World) (moves : Nat → Move) (k : Path.Key) : Prop where
  /-- whoever can go on gets the floor sooner or later -/
  fair : ∀ n id, (w.trace moves n).runnable id = true → ∃ m, n ≤ m ∧ (w.trace moves m).serves (moves m) id = true
  /-- whoever works at the path gives its turn back -/
  ends : ∀ n id, (w.trace moves n).works id k = true → ∃ m, n ≤ m ∧ (w.trace moves m).works id k = false
  noWork : ∀ n id, (w.trace moves (n + 1)).works id k = true → (w.trace moves n).works id k = true
  noWait : ∀ n id, (w.trace moves (n + 1)).drains id k = true → (w.trace moves n).drains id k = true
  kept : ∀ n id, (w.trace moves n).drains id k = true →
    ∀ t ∈ (w.trace moves n).tasks.live.get? id, t.cancelled = false

/-- nobody has a turn at the path, and nobody waits for that any more -/
def World.Drained (w : World) (k : Path.Key) : Prop := w.turns.isIdle k = true ∧ ∀ id, w.drains id k = false

variable {w : World} {moves : Nat → Move} {k : Path.Key} {id : TaskId}

theorem Reachable.trace (hr : Reachable w) (moves : Nat → Move) (n : Nat) : Reachable (w.trace moves n) := by
  induction n with
  | zero => exact hr
  | succ n ih => exact .move _ ih

/-- what does not come back was there before -/
theorem of_later {B : Nat → Prop} (hback : ∀ n, B (n + 1) → B n) {n m : Nat} (hnm : n ≤ m) (h : B m) : B n := by
  induction m, hnm using Nat.le_induction with
  | base => exact h
  | succ m _ ih => exact ih (hback m h)

/-- finitely many that go away and do not come back are all gone some time -/
theorem exists_gone (b : Nat) {B : Nat → TaskId → Prop} (hfin : ∀ id, B 0 id → id < b)
    (hback : ∀ n id, B (n + 1) id → B n id) (hend : ∀ n id, B n id → ∃ m, n ≤ m ∧ ¬ B m id) :
    ∃ N, ∀ id, ¬ B N id := by
  induction b generalizing B with
  | zero => exact ⟨0, fun id h => absurd (hfin id h) (Nat.not_lt_zero id)⟩
  | succ b ih =>
    obtain ⟨m, hm⟩ : ∃ m, ¬ B m b := by
      by_cases h : B 0 b
      · obtain ⟨m, -, hm⟩ := hend 0 b h
        exact ⟨m, hm⟩
      · exact ⟨0, h⟩
    have hstart : ∀ id, B m id → id < b := fun id h =>
      lt_of_le_of_ne (Nat.lt_succ_iff.1 (hfin id (of_later (B := fun n => B n id) (fun n => hback n id) (Nat.zero_le m) h)))
        fun e => hm (e ▸ h)
    obtain ⟨N, hN⟩ := ih (B := fun n => B (m + n)) hstart (fun n id h => hback (m + n) id h) fun n id h => by
      obtain ⟨l, hl, hg⟩ := hend (m + n) id h
      exact ⟨l - m, by omega, by rwa [Nat.add_sub_cancel' (by omega)]⟩
    exact ⟨m + N, hN⟩

/-- a task that does not get the floor meanwhile is in the same phase -/
theorem phase?_trace (hr : Reachable w) {ph : Phase} {n m : Nat} (hnm : n ≤ m)
    (hno : ∀ l, n ≤ l → l < m → (w.trace moves l).serves (moves l) id = false)
    (hph : (w.trace moves n).tasks.phase? id = some ph) : (w.trace moves m).tasks.phase? id = some ph := by
  induction m, hnm using Nat.le_induction with
  | base => exact hph
  | succ m hm ih =>
    have hm' := ih fun l hl hlm => hno l hl (Nat.lt_succ_of_lt hlm)
    rcases phase?_unserved (hr.trace moves m).wf (hno m hm (Nat.lt_succ_self m)) with he | ⟨hnone, -⟩
    · exact he.trans hm'
    · exact absurd (hnone.symm.trans hm') (by simp)

/-- the next turn of a task that gets the floor sooner or later -/
theorem first_turn {n : Nat} (h : ∃ m, n ≤ m ∧ (w.trace moves m).serves (moves m) id = true) :
    ∃ m, n ≤ m ∧ (w.trace moves m).serves (moves m) id = true ∧
      ∀ l, n ≤ l → l < m → (w.trace moves l).serves (moves l) id = false := by
  refine ⟨Nat.find h, (Nat.find_spec h).1, (Nat.find_spec h).2, fun l hl hlt => ?_⟩
  rw [Bool.eq_false_iff]
  exact fun hs => Nat.find_min h hlt ⟨hl, hs⟩

/-! ## Two tasks that wait -/

/-- **Two tasks that wait for a path wait forever.** -/
theorem drains_forever {a b : TaskId} (hr : Reachable w) (h : Undisturbed w moves k) (hne : a ≠ b)
    (ha : w.drains a k = true) (hb : w.drains b k = true) (n : Nat) :
    (w.trace moves n).drains a k = true ∧ (w.trace moves n).drains b k = true := by
  induction n with
  | zero => exact ⟨ha, hb⟩
  | succ n ih =>
    have hrn := hr.trace moves n
    exact ⟨drains_move hrn hne ih.1 ih.2 (h.kept n a ih.1) _, drains_move hrn hne.symm ih.2 ih.1 (h.kept n b ih.2) _⟩

/-! ## One task that waits -/

/-- whoever has a turn at a path works there or waits -/
theorem drains_of_held {j : TaskId} {τ : Turn} (hj : held w.stakes j = some τ) (hk : τ.key = k)
    (hno : w.works j k = false) : w.drains j k = true := by
  have he : (w.stakes j).errand.turn? = some τ := hj
  cases hd : w.drains j k with
  | true => rfl
  | false => simp [World.works, hd, he, hk] at hno

/-- a task that waits, and is alone with the path, can go on -/
theorem runnable_of_alone {ph : Phase} {p : Path} {turn : Option Turn} (hr : Reachable w)
    (hph : w.tasks.phase? id = some ph) (hd : ph.activity.drain? = some (p, turn))
    (halone : ∀ j τ, held w.stakes j = some τ → τ.key = p.key → j = id) : w.runnable id = true := by
  rcases hr.wf.woken id ph hph with hin | hf | hwait
  · simp [World.runnable, hin]
  · simp [World.runnable, hf]
  · cases turn with
    | none => exact absurd (awaits_of_drain hd) hwait.something
    | some τ =>
      obtain ⟨hτ, hk⟩ := held_of_drain hr.wf hph hd
      have hholds : w.turns.holds τ = true :=
        hr.wf.sound.turns.holds_of_alone hτ fun j σ hj hσ => halone j σ hj (hσ.trans hk)
      have hno := hwait.turn τ (by rw [errand_of_drain hd]; rfl) (awaits_of_drain hd)
      rw [hholds] at hno
      cases hno

/-- The wait of a task that is alone with the path from some time on comes to its end. -/
theorem Undisturbed.wait_ends (h : Undisturbed w moves k) (hr : Reachable w) {N : Nat}
    (halone : ∀ n, N ≤ n → ∀ j τ, held (w.trace moves n).stakes j = some τ → τ.key = k → j = id) :
    ∃ m, N ≤ m ∧ (w.trace moves m).drains id k = false := by
  -- by induction on how far the task is from its end
  have key : ∀ x n, N ≤ n → ∀ ph p turn, (w.trace moves n).tasks.phase? id = some ph →
      ph.activity.drain? = some (p, turn) → p.key = k → ph.activity.weight = x →
      ∃ m, N ≤ m ∧ (w.trace moves m).drains id k = false := by
    intro x
    induction x using Nat.strong_induction_on with
    | _ x ih =>
      rintro n hn ph p turn hph hd rfl rfl
      obtain ⟨m, hnm, hserved, hno⟩ := first_turn (h.fair n id (runnable_of_alone (hr.trace moves n) hph hd (halone n hn)))
      have hphm := phase?_trace hr hnm hno hph
      obtain ⟨hmove, hgo⟩ := serves_iff.1 hserved
      obtain ⟨t, hs, rfl⟩ := served?_of_phase hgo hphm
      have hc := h.kept m id (drains_iff.2 ⟨_, p, turn, hphm, hd, rfl⟩) t (served?_eq_some hs).2
      have hless := weight_serve (hr.trace moves m).wf hs hc hd (halone m (hn.trans hnm))
      have hnext : w.trace moves (m + 1) = serve (w.trace moves m) id := by
        rw [World.trace, hmove]
        rfl
      cases hd' : (w.trace moves (m + 1)).drains id p.key with
      | false => exact ⟨m + 1, by omega, hd'⟩
      | true =>
        obtain ⟨ph', q, turn', hph', hq, hk⟩ := drains_iff.1 hd'
        exact ih _ (hless ph' (hnext ▸ hph')) (m + 1) (by omega) ph' q turn' hph' hq hk rfl
  cases hd : (w.trace moves N).drains id k with
  | false => exact ⟨N, le_rfl, hd⟩
  | true =>
    obtain ⟨ph, p, turn, hph, hdr, hk⟩ := drains_iff.1 hd
    exact key _ N le_rfl ph p turn hph hdr hk rfl

/-- the operations at the path come to their ends -/
theorem Undisturbed.work_ends (h : Undisturbed w moves k) (hr : Reachable w) :
    ∃ N, ∀ n, N ≤ n → ∀ j, (w.trace moves n).works j k = false := by
  obtain ⟨N, hN⟩ := exists_gone w.tasks.next (B := fun n j => (w.trace moves n).works j k = true)
    (fun j hj => by
      by_contra hge
      have hnone := Tasks.phase?_eq_none_iff.2 (hr.wf.numbered j (not_lt.1 hge))
      simp [World.trace, World.works, stakes_of_none hnone, Errand.turn?] at hj)
    h.noWork fun n j hj => by
      obtain ⟨m, hm, hf⟩ := h.ends n j hj
      exact ⟨m, hm, by simp [hf]⟩
  refine ⟨N, fun n hn j => ?_⟩
  rw [Bool.eq_false_iff]
  exact fun hj => hN j (of_later (B := fun n => (w.trace moves n).works j k = true) (fun n => h.noWork n j) hn hj)

theorem Undisturbed.drains_start (h : Undisturbed w moves k) {n : Nat} (hd : (w.trace moves n).drains id k = true) :
    w.drains id k = true :=
  of_later (B := fun n => (w.trace moves n).drains id k = true) (fun n => h.noWait n id) (Nat.zero_le n) hd

/-! ## Undisturbed runs of a list of moves -/

/-- after this move whoever could go on can still do so, and nobody new has come to the path; nobody who waits there is
cancelled -/
def World.leavesAlone (w : World) (m : Move) (k : Path.Key) : Bool :=
  ((w.tasks.ready ++ w.tasks.floor.toList).all fun id => w.serves m id || (w.move m).runnable id) &&
  ((List.range (w.move m).tasks.next).all fun id =>
    (!(w.move m).works id k || w.works id k) && (!(w.move m).drains id k || w.drains id k)) &&
  w.tasks.live.rows.all fun r => !r.2.phase.activity.drainsAt k || !r.2.cancelled

/-- the moves of a list leave a path alone, and then nobody can go on or has to do with the path -/
def World.comesToRest (k : Path.Key) : World → List Move → Bool
  | w, [] => w.tasks.quiet && (List.range w.tasks.next).all fun id => !w.works id k && !w.drains id k
  | w, m :: ms => w.leavesAlone m k && (w.move m).comesToRest k ms

theorem works_of_le (hw : Wf w) (h : w.tasks.next ≤ id) : w.works id k = false ∧ w.drains id k = false := by
  have hnone := Tasks.phase?_eq_none_iff.2 (hw.numbered id h)
  simp [World.works, World.drains, hnone, stakes_of_none hnone, Errand.turn?]

theorem trace_cons (w : World) (m : Move) (ms : List Move) (n : Nat) :
    w.trace (along (m :: ms)) (n + 1) = (w.move m).trace (along ms) n := by
  induction n with
  | zero => rfl
  | succ n ih => rw [World.trace, ih]; rfl

theorem trace_of_quiet (h : w.tasks.quiet = true) (n : Nat) : w.trace (along []) n = w := by
  simp only [Tasks.quiet, Bool.and_eq_true, List.isEmpty_iff, Option.isNone_iff_eq_none] at h
  induction n with
  | zero => rfl
  | succ n ih =>
    rw [World.trace, ih]
    simp [along, World.move, serve, canGo_eq, h.1, h.2]

theorem undisturbed_of_quiet (hw : Wf w) (h : w.comesToRest k [] = true) : Undisturbed w (along []) k := by
  simp only [World.comesToRest, Bool.and_eq_true, List.all_eq_true, List.mem_range, Bool.not_eq_true'] at h
  have hnobody : ∀ id, w.works id k = false ∧ w.drains id k = false := fun id => by
    by_cases hlt : id < w.tasks.next
    · exact h.2 id hlt
    · exact works_of_le hw (not_lt.1 hlt)
  have hq := h.1
  simp only [Tasks.quiet, Bool.and_eq_true, List.isEmpty_iff, Option.isNone_iff_eq_none] at hq
  constructor <;> intro n id <;> simp only [trace_of_quiet h.1]
  · simp [World.runnable, hq.1, hq.2]
  · simp [hnobody id]
  · exact fun h => h
  · exact fun h => h
  · simp [hnobody id]

theorem Undisturbed.cons {m : Move} {ms : List Move} (hw : Wf w) (hm : w.leavesAlone m k = true)
    (h : Undisturbed (w.move m) (along ms) k) : Undisturbed w (along (m :: ms)) k := by
  simp only [World.leavesAlone, Bool.and_eq_true, List.all_eq_true, List.mem_range, Bool.or_eq_true, Bool.not_eq_true',
    List.mem_append, Option.mem_toList] at hm
  obtain ⟨⟨hrun, hnew⟩, hkept⟩ := hm
  have hnew' : ∀ id, ((w.move m).works id k = true → w.works id k = true) ∧
      ((w.move m).drains id k = true → w.drains id k = true) := fun id => by
    by_cases hlt : id < (w.move m).tasks.next
    · have := hnew id hlt
      exact ⟨fun hk => this.1.resolve_left (by simp [hk]), fun hk => this.2.resolve_left (by simp [hk])⟩
    · have := works_of_le (k := k) (wf_move hw m) (not_lt.1 hlt)
      simp [this.1, this.2]
  have hserve : ∀ n, (w.trace (along (m :: ms)) (n + 1)).serves (along (m :: ms) (n + 1)) =
      ((w.move m).trace (along ms) n).serves (along ms n) := fun n => by rw [trace_cons]; rfl
  -- the first move, and then the rest
  refine ⟨fun n id hn => ?_, fun n id hn => ?_, fun n id hn => ?_, fun n id hn => ?_, fun n id hn => ?_⟩ <;>
    rcases n with _ | n
  · rcases hrun id (runnable_iff.1 hn) with hs | hr
    · exact ⟨0, le_rfl, hs⟩
    · obtain ⟨l, -, hl⟩ := h.fair 0 id hr
      exact ⟨l + 1, Nat.zero_le _, by rw [hserve]; exact hl⟩
  · rw [trace_cons] at hn
    obtain ⟨l, hle, hl⟩ := h.fair n id hn
    exact ⟨l + 1, Nat.succ_le_succ hle, by rw [hserve]; exact hl⟩
  · cases hk : (w.move m).works id k with
    | false => exact ⟨1, Nat.zero_le _, hk⟩
    | true =>
      obtain ⟨l, -, hl⟩ := h.ends 0 id hk
      exact ⟨l + 1, Nat.zero_le _, by rw [trace_cons]; exact hl⟩
  · rw [trace_cons] at hn
    obtain ⟨l, hle, hl⟩ := h.ends n id hn
    exact ⟨l + 1, Nat.succ_le_succ hle, by rw [trace_cons]; exact hl⟩
  · rw [trace_cons] at hn
    exact (hnew' id).1 hn
  · rw [trace_cons] at hn ⊢
    exact h.noWork n id hn
  · rw [trace_cons] at hn
    exact (hnew' id).2 hn
  · rw [trace_cons] at hn ⊢
    exact h.noWait n id hn
  · intro t ht
    refine (hkept (id, t) (Table.get?_eq_some_iff.1 ht)).resolve_left ?_
    have hph : w.tasks.phase? id = some t.phase := by
      rw [Tasks.phase?, show w.tasks.live.get? id = some t from ht]
      rfl
    simpa [World.trace, World.drains, hph] using hn
  · rw [trace_cons] at hn ⊢
    exact h.kept n id hn

theorem undisturbed_along (hr : Reachable w) {ms : List Move} (h : w.comesToRest k ms = true) :
    Undisturbed w (along ms) k := by
  induction ms generalizing w with
  | nil => exact undisturbed_of_quiet hr.wf h
  | cons m ms ih =>
    simp only [World.comesToRest, Bool.and_eq_true] at h
    exact .cons hr.wf h.1 (ih (.move m hr) h.2)

/-! ## The run of a standoff -/

/-- three turns of the one, then three of the other, and so on -/
def alternating (a b : TaskId) (n : Nat) : Move := .turn (if n / 3 % 2 = 0 then a else b)

theorem alternating_eq (a b : TaskId) (n : Nat) {i : Nat} (hi : i < 3) :
    alternating a b (3 * n + i) = .turn (if n % 2 = 0 then a else b) := by
  rw [alternating, show (3 * n + i) / 3 = n by omega]

theorem trace_three (w : World) (a b : TaskId) (n : Nat) :
    let x := if n % 2 = 0 then a else b
    w.trace (alternating a b) (3 * n + 1) = (w.trace (alternating a b) (3 * n)).move (.turn x) ∧
      w.trace (alternating a b) (3 * n + 2) = (w.trace (alternating a b) (3 * n + 1)).move (.turn x) ∧
      w.trace (alternating a b) (3 * (n + 1)) = (w.trace (alternating a b) (3 * n + 2)).move (.turn x) := by
  intro x
  have hmove : ∀ i, i < 3 → w.trace (alternating a b) (3 * n + i + 1) =
      (w.trace (alternating a b) (3 * n + i)).move (.turn x) := fun i hi => by
    rw [World.trace, alternating_eq a b n hi]
  exact ⟨hmove 0 (by omega), hmove 1 (by omega), hmove 2 (by omega)⟩

namespace Standoff.Ready

variable {a b : TaskId}

/-- the two change places again and again -/
theorem trace (h : Ready w k a b) (n : Nat) :
    Ready (w.trace (alternating a b) (3 * n)) k (if n % 2 = 0 then a else b) (if n % 2 = 0 then b else a) := by
  induction n with
  | zero => exact h
  | succ n ih =>
    obtain ⟨h₁, h₂, h₃⟩ := trace_three w a b n
    obtain ⟨-, -, -, hnext⟩ := ih.exchange
    rw [h₃, h₂, h₁]
    rcases Nat.mod_two_eq_zero_or_one n with hn | hn
    · simpa [hn, Nat.add_mod] using hnext
    · simpa [hn, Nat.add_mod] using hnext

/-- it is always the turn of a task that can go on -/
theorem can_go (h : Ready w k a b) (n : Nat) :
    canGo (w.trace (alternating a b) n) (if n / 3 % 2 = 0 then a else b) = true := by
  obtain ⟨h₁, h₂, -⟩ := trace_three w a b (n / 3)
  obtain ⟨g₀, g₁, g₂, -⟩ := (h.trace (n / 3)).exchange
  have hn : n = 3 * (n / 3) + 0 ∨ n = 3 * (n / 3) + 1 ∨ n = 3 * (n / 3) + 2 := by omega
  rcases hn with hn | hn | hn
  · rw [show w.trace (alternating a b) n = w.trace (alternating a b) (3 * (n / 3)) from congrArg _ hn]
    exact g₀
  · rw [show w.trace (alternating a b) n = _ from (congrArg _ hn).trans h₁]
    exact g₁
  · rw [show w.trace (alternating a b) n = _ from (congrArg _ hn).trans (h₂.trans (by rw [h₁]))]
    exact g₂

theorem standoff (h : Ready w k a b) (n : Nat) : Standoff (w.trace (alternating a b) n) k a b := by
  induction n with
  | zero => exact h.toStandoff
  | succ n ih =>
    have hgo := h.can_go n
    simp only [World.trace, alternating]
    split at hgo
    · rename_i hn
      rw [if_pos hn]
      exact ih.after_serve hgo
    · rename_i hn
      rw [if_neg hn]
      exact (ih.symm.after_serve hgo).symm

/-- each of the two gets the floor again and again -/
theorem serves (h : Ready w k a b) (n : Nat) {x : TaskId} (hx : x = a ∨ x = b) :
    ∃ m, n ≤ m ∧ (w.trace (alternating a b) m).serves (alternating a b m) x = true := by
  rcases hx with rfl | rfl
  · have hm : 6 * n / 3 % 2 = 0 := by omega
    have hgo := h.can_go (6 * n)
    rw [if_pos hm] at hgo
    exact ⟨6 * n, by omega, serves_iff.2 ⟨by rw [alternating, if_pos hm], hgo⟩⟩
  · have hm : (6 * n + 3) / 3 % 2 ≠ 0 := by omega
    have hgo := h.can_go (6 * n + 3)
    rw [if_neg hm] at hgo
    exact ⟨6 * n + 3, by omega, serves_iff.2 ⟨by rw [alternating, if_neg hm], hgo⟩⟩

/-- **The two disturb nobody**: the run in which they take turns is undisturbed. -/
theorem undisturbed (h : Ready w k a b) : Undisturbed w (alternating a b) k := by
  have hdrains : ∀ n x, x = a ∨ x = b → (w.trace (alternating a b) n).drains x k = true := by
    rintro n x (rfl | rfl)
    · exact (h.standoff n).first
    · exact (h.standoff n).second
  have hworks : ∀ n x, (w.trace (alternating a b) n).works x k = false := fun n x => by
    rw [Bool.eq_false_iff]
    intro hx
    simp only [World.works, Bool.and_eq_true, Bool.not_eq_true'] at hx
    obtain ⟨τ, hτ, -⟩ := (Option.any_eq_true _ _).1 hx.2
    rw [hdrains n x ((h.standoff n).of_held hτ)] at hx
    cases hx.1
  constructor <;> intro n x hx
  · rcases runnable_iff.1 hx with hr | hf
    · exact h.serves n ((h.standoff n).ready x hr)
    · have hgo := h.can_go n
      simp only [canGo_eq, hf, decide_eq_true_eq] at hgo
      refine h.serves n ?_
      rw [hgo]
      split
      · exact Or.inl rfl
      · exact Or.inr rfl
  · rw [hworks n x] at hx
    cases hx
  · rw [hworks (n + 1) x] at hx
    cases hx
  · obtain ⟨ph, p, turn, hph, -, -⟩ := drains_iff.1 hx
    obtain ⟨t, ht, -⟩ := Option.map_eq_some_iff.1 hph
    exact hdrains n x (((h.standoff (n + 1)).live x t ht).1)
  · exact fun t ht => ((h.standoff n).live x t ht).2

end Standoff.Ready

/-- two tasks are left, which wait for the path, and one has the lock -/
def World.isStandoff (w : World) (k : Path.Key) (a b : TaskId) : Bool :=
  w.drains a k && w.drains b k && w.tasks.floor.isNone && (w.stakes a).errand.turn?.any w.turns.holds &&
    (w.tasks.live.rows.all fun r => (r.1 = a || r.1 = b) && !r.2.cancelled) &&
    w.tasks.ready.all fun x => x = a || x = b

theorem ready_of_isStandoff {a b : TaskId} (hr : Reachable w) (hne : a ≠ b) (h : w.isStandoff k a b = true) :
    Standoff.Ready w k a b := by
  simp only [World.isStandoff, Bool.and_eq_true, List.all_eq_true, Bool.or_eq_true, decide_eq_true_eq,
    Bool.not_eq_true', Option.isNone_iff_eq_none] at h
  obtain ⟨⟨⟨⟨⟨ha, hb⟩, hf⟩, hh⟩, hl⟩, hready⟩ := h
  exact ⟨⟨hr, hne, fun x t ht => hl (x, t) (Table.get?_eq_some_iff.1 ht), hready, ha, hb⟩, hf,
    (Option.any_eq_true _ _).1 hh⟩

/-! ## Whether the waits end -/

/-- **In an undisturbed run, all waits for a path come to an end exactly if there is at most one.** -/
theorem drained_iff (hr : Reachable w) (h : Undisturbed w moves k) :
    (∃ n, (w.trace moves n).Drained k) ↔ ∀ a b, w.drains a k = true → w.drains b k = true → a = b := by
  constructor
  · rintro ⟨n, -, hnone⟩ a b ha hb
    by_contra hne
    have hd := (drains_forever hr h hne ha hb n).1
    rw [hnone a] at hd
    cases hd
  · intro hone
    obtain ⟨N, hwork⟩ := h.work_ends hr
    -- some time after all work, nobody waits any more
    obtain ⟨n, hn, hnone⟩ : ∃ n, N ≤ n ∧ ∀ j, (w.trace moves n).drains j k = false := by
      by_cases hex : ∃ c, (w.trace moves N).drains c k = true
      · obtain ⟨c, hc⟩ := hex
        have honly : ∀ n j, (w.trace moves n).drains j k = true → j = c := fun n j hj =>
          hone j c (h.drains_start hj) (h.drains_start hc)
        have halone : ∀ n, N ≤ n → ∀ j τ, held (w.trace moves n).stakes j = some τ → τ.key = k → j = c :=
          fun n hn j τ hj hk => honly n j (drains_of_held hj hk (hwork n hn j))
        obtain ⟨n, hn, hd⟩ := h.wait_ends hr halone
        refine ⟨n, hn, fun j => ?_⟩
        rw [Bool.eq_false_iff]
        intro hj
        rw [honly n j hj, hd] at hj
        cases hj
      · exact ⟨N, le_rfl, fun j => Bool.eq_false_iff.2 fun hj => hex ⟨j, hj⟩⟩
    refine ⟨n, (hr.trace moves n).wf.sound.turns.isIdle_iff.2 fun j τ hj hk => ?_, hnone⟩
    have hd := drains_of_held hj hk (hwork n hn j)
    rw [hnone j] at hd
    cases hd

/-- A watched file is being written, and its last subscriber leaves meanwhile. -/
def leaving : List Move :=
  let p : Path := ⟨"/a"⟩
  [Move.newSubscriber, .putFile p ⟨#[49]⟩, .call (.watch p ⟨1⟩)] ++ List.replicate 6 (Move.turn 1) ++
    [Move.turn 2, .hold .write p, .call (.write p ⟨#[50]⟩), .turn 3, .turn 3, .call (.unwatch p ⟨1⟩), .turn 4, .turn 4,
      .turn 4, .turn 2, .openGate 1]

/-- the write comes to its end, and so does the wait -/
theorem drained_iff_leaving :
    let w := (World.start .allow).trace (along leaving) leaving.length
    let moves := along [.turn 3, .turn 3, .turn 3, .turn 4, .turn 4]
    let k := Path.key ⟨"/a"⟩
    (Reachable w ∧ Undisturbed w moves k ∧ w.drains 4 k = true) ∧
      ((∃ n, (w.trace moves n).Drained k) ↔ ∀ a b, w.drains a k = true → w.drains b k = true → a = b) := by
  have hr := reachable_trace .allow (along leaving) leaving.length
  have hu : Undisturbed ((World.start .allow).trace (along leaving) leaving.length)
      (along [.turn 3, .turn 3, .turn 3, .turn 4, .turn 4]) (Path.key ⟨"/a"⟩) := undisturbed_along hr (by decide +kernel)
  exact ⟨⟨hr, hu, by decide +kernel⟩, drained_iff hr hu⟩

/-- Shutting down comes to the path as well, and then the write comes to its end. -/
def meeting : List Move := leaving ++ [.call .shutDown] ++ List.replicate 4 (.turn 5) ++ List.replicate 3 (.turn 3)

/-- **Unwatching a path and shutting down never end**, once they wait for each other. -/
theorem standoff_never_ends :
    let w := (World.start .allow).trace (along meeting) meeting.length
    let k := Path.key ⟨"/a"⟩
    Reachable w ∧ Undisturbed w (alternating 4 5) k ∧ ∀ n, ¬ (w.trace (alternating 4 5) n).Drained k := by
  have hr := reachable_trace .allow (along meeting) meeting.length
  have h := ready_of_isStandoff (k := Path.key ⟨"/a"⟩) (a := 4) (b := 5) hr (by decide) (by decide +kernel)
  refine ⟨hr, h.undisturbed, fun n hn => ?_⟩
  have hd := (h.standoff n).first
  rw [hn.2 4] at hd
  cases hd

end LiveFiles.Engine
