/-
Who listens is left to wait. Whoever listens for somebody's leaving is woken when its subscriber leaves, and at no other time; so
the turns that it is due are used up.
- `due_serve`, `spares_outside`, **`due_move`**: while it is not served it is due no more turns than before, until it is cancelled.
- `due_listening`: its own turn uses one up.
- `gone_of_cancelled`: whoever has been cancelled is gone sooner or later, if whoever can go on gets the floor sooner or later.
- **`hushed_of_spared`**: whoever listens comes to rest, or is gone.
-/
import LiveFiles.Proofs.Draining
import LiveFiles.Proofs.Listeners

namespace LiveFiles.Engine

variable {w w' : World} {m : Move} {i j : TaskId} {ph : Phase} {x : SubscriberId} {p q : Path}

/-! ## How many turns a task is due -/

/-- how many turns a task is due: the floor, and its places in the queue -/
def World.due (w : World) (j : TaskId) : Nat := w.tasks.ready.count j + if w.tasks.floor = some j then 1 else 0

theorem due_pos_iff : 0 < w.due j ↔ w.runnable j = true := by
  rw [runnable_iff, World.due]
  constructor
  · intro h
    by_cases hf : w.tasks.floor = some j
    · exact .inr hf
    · rw [if_neg hf, Nat.add_zero] at h
      exact .inl (List.count_pos_iff.1 h)
  · rintro (hin | hf)
    · exact Nat.add_pos_left (List.count_pos_iff.2 hin) _
    · rw [if_pos hf]
      exact Nat.succ_pos _

theorem runnable_of_serves (hs : w.serves m j = true) : w.runnable j = true := by
  obtain ⟨-, hgo⟩ := serves_iff.1 hs
  rw [canGo_eq] at hgo
  cases hf : w.tasks.floor with
  | some i =>
    rw [hf] at hgo
    exact runnable_iff.2 (.inr (hf.trans (congrArg some (of_decide_eq_true hgo))))
  | none =>
    rw [hf] at hgo
    exact runnable_iff.2 (.inl (of_decide_eq_true hgo))

/-- whoever waits is due no more turns if it is spared, unless it is cancelled -/
theorem due_of_spares {Q : Phase → Prop} (hspares : w.tasks.Spares Q w'.tasks) (hn : w.tasks.Numbered)
    (hph : w.tasks.phase? j = some ph) (hq : Q ph) (hfloor : w'.tasks.floor = some j → w.tasks.floor = some j) :
    w'.due j ≤ w.due j ∨ w'.tasks.Cancelled j := by
  refine (hspares.ready hn j ph hph hq).imp_left fun hle => Nat.add_le_add hle ?_
  by_cases hf : w'.tasks.floor = some j
  · rw [if_pos hf, if_pos (hfloor hf)]
  · rw [if_neg hf]
    exact Nat.zero_le _

theorem due_floorTo (hne : i ≠ j) : (floorTo w i).due j ≤ w.due j := by
  unfold floorTo
  split
  · exact le_rfl
  · have hne' : some i ≠ some j := fun e => hne (Option.some.inj e)
    change (w.tasks.ready.erase i).count j + (if some i = some j then 1 else 0) ≤ _
    rw [if_neg hne', Nat.add_zero]
    exact (List.erase_sublist.count_le j).trans (Nat.le_add_right _ _)

/-- whoever gets the floor has one turn less ahead of it in the queue -/
theorem count_floorTo (hgo : canGo w j = true) : (floorTo w j).tasks.ready.count j < w.due j := by
  rw [canGo_eq] at hgo
  unfold floorTo
  cases hf : w.tasks.floor with
  | some x =>
    rw [hf] at hgo
    obtain rfl := of_decide_eq_true hgo
    rw [World.due, if_pos hf]
    exact Nat.lt_succ_self _
  | none =>
    rw [hf] at hgo
    have hin := of_decide_eq_true hgo
    change (w.tasks.ready.erase j).count j < _
    rw [List.count_erase_self]
    exact (Nat.sub_lt (List.count_pos_iff.2 hin) Nat.one_pos).trans_le (Nat.le_add_right _ _)

theorem due_after {r : World × Section Phase Unit} (hne : i ≠ j) : (World.after i r).due j ≤ r.1.due j := by
  obtain ⟨v, y⟩ := r
  cases y with
  | go => exact le_rfl
  | wait | ended => exact Nat.add_le_add_left (Nat.zero_le _) _
  | pause =>
    refine Nat.add_le_add (le_of_eq ?_) (Nat.zero_le _)
    change (v.tasks.ready ++ [i]).count j = v.tasks.ready.count j
    rw [List.count_append, List.count_singleton, if_neg (by simpa using hne), Nat.add_zero]

theorem cancelled_after {r : World × Section Phase Unit} (hne : i ≠ j) (h : r.1.tasks.Cancelled j) :
    (World.after i r).tasks.Cancelled j := by
  obtain ⟨t, ht, hc⟩ := h
  refine ⟨t, ?_, hc⟩
  obtain ⟨v, y⟩ := r
  cases y <;> simpa [World.after, Tasks.record, Table.get?_modify, Table.get?_erase, hne] using ht

/-- whoever listens is due no more turns after another task has been served, unless it is cancelled -/
theorem due_serve (hw : Wf w) (hne : i ≠ j) (hph : w.tasks.phase? j = some ph) (hlistens : ph.Listening) :
    (serve w i).due j ≤ w.due j ∨ (serve w i).tasks.Cancelled j := by
  by_cases hgo : canGo w i = true
  · have hw₀ := wf_floorTo hw hgo
    have hph₀ : (floorTo w i).tasks.phase? j = some ph := (phase?_floorTo w i j).trans hph
    have hle := due_floorTo (w := w) hne
    cases hs : w.served? i with
    | none =>
      refine .inl (le_trans ?_ hle)
      rw [serve_of_ended hgo (by simpa [World.served?, hgo] using hs)]
      exact Nat.add_le_add_left (Nat.zero_le _) _
    | some t =>
      cases hc : t.cancelled with
      | false =>
        have hturn := turnover_step (floorTo w i) t.phase.activity
        have hend := steady_advance (P := Starts t.phase.activity) (floorTo w i) i t.phase
        have hspares := hturn.spares.trans hturn.tasks hend.spares
        have hfloor := (hturn.tasks.trans hend.tasks).floor
        rw [serve_of_section hs hc]
        generalize (floorTo w i).advance i t.phase = r at hspares hfloor
        rcases due_of_spares hspares hw₀.numbered hph₀ hlistens fun hf => hfloor ▸ hf with hfewer | hcancelled
        · exact .inl ((due_after hne).trans (hfewer.trans hle))
        · exact .inr (cancelled_after hne hcancelled)
      | true =>
        have hs₁ := steady_abandon ((floorTo w i).without i) t.phase.activity
        have hs₂ := hs₁.trans (steady_finish (P := Leaves t.phase.activity) _ i t.phase.role .cancelled)
        have hph₁ : ((floorTo w i).without i).tasks.phase? j = some ph := by rw [phase?_without, if_neg hne, hph₀]
        rw [serve_of_cancelled hs hc]
        refine (due_of_spares hs₂.spares (numbered_without hw₀.numbered i) hph₁ hlistens fun hf => ?_).imp_left fun hfewer => ?_
        · exact hs₂.tasks.floor ▸ hf
        · exact hfewer.trans ((Nat.add_le_add_left (Nat.zero_le _) _).trans hle)
  · refine .inl ?_
    rw [show serve w i = w from if_neg hgo]

/-- what comes from outside leaves whoever listens to wait, unless it is cancelled or its subscriber leaves -/
theorem spares_outside (hm : ∀ i, m ≠ .turn i) (hclose : m ≠ .closeSubscriber x) (hdrop : m ≠ .dropSubscriber x) :
    w.tasks.Spares (fun p => p.activity.awaits = .farewell x) (w.move m).tasks ∧ (w.move m).tasks.floor = w.tasks.floor := by
  have hwoken : ∀ a, a ≠ .farewell x → w.tasks.Spares (fun p => p.activity.awaits = .farewell x)
      (w.tasks.wake fun ph => ph.activity.awaits = a) := fun a ha =>
    Tasks.spares_wake _ _ fun p hp => decide_eq_false fun e => ha (e.symm.trans hp)
  have hfloor : ∀ a : Await, (w.tasks.wake fun ph => ph.activity.awaits = a).floor = w.tasks.floor := fun a =>
    (Tasks.grows_wake (P := fun _ => True) _ _).floor
  have hattached : w.tasks.Grows (fun _ => True) (w.tasks.spawn ⟨.service, .pumping w.nextStream⟩).2 := Tasks.grows_spawn _ trivial
  have hstirs := (outside w hm).tasks
  generalize (w.move m).tasks = ts at hstirs
  cases hstirs with
  | still => exact ⟨.refl _, rfl⟩
  | wakes a ha =>
    refine ⟨hwoken a ?_, hfloor a⟩
    rintro rfl
    cases m <;> cases ha
    · exact hclose rfl
    · exact hdrop rfl
  | calls r hr => exact ⟨Tasks.spares_spawn _ _, rfl⟩
  | cancels i => exact ⟨Tasks.spares_cancel _ i, (Tasks.grows_cancel (P := fun _ => True) _ i).floor⟩
  | reports q =>
    exact ⟨(hwoken .quiet nofun).trans (Tasks.grows_wake (P := fun _ => True) _ _) (Tasks.spares_spawn _ _), hfloor .quiet⟩
  | attaches hpump => exact ⟨Tasks.spares_spawn _ _, rfl⟩
  | reattaches i hpump =>
    exact ⟨(Tasks.spares_spawn _ _).trans hattached (Tasks.spares_cancel _ i),
      (Tasks.grows_cancel (P := fun _ => True) _ i).floor⟩

/-- **Whoever listens is left to wait** until its subscriber leaves: while it is not served it is due no more turns, unless it is
cancelled. -/
theorem due_move (hw : Wf w) (hs : w.serves m j = false) (hph : w.tasks.phase? j = some ph)
    (hx : ph.activity.awaits = .farewell x) (hclose : m ≠ .closeSubscriber x) (hdrop : m ≠ .dropSubscriber x) :
    (w.move m).due j ≤ w.due j ∨ (w.move m).tasks.Cancelled j := by
  by_cases hturn : ∃ i, m = .turn i
  · obtain ⟨i, rfl⟩ := hturn
    by_cases hij : i = j
    · subst hij
      have hgo : ¬ canGo w i = true := fun hgo => Bool.eq_false_iff.1 hs (serves_iff.2 ⟨rfl, hgo⟩)
      exact .inl (by rw [World.move, show serve w i = w from if_neg hgo])
    · exact due_serve hw hij hph ⟨x, hx⟩
  · obtain ⟨hspares, hfloor⟩ := spares_outside (w := w) (fun i e => hturn ⟨i, e⟩) hclose hdrop
    exact due_of_spares hspares hw.numbered hph hx fun hf => hfloor ▸ hf

/-- whoever listens is gone after its turn, or is due one turn less -/
theorem due_listening {t : Task Phase} (hw : Wf w) (hs : w.served? j = some t) (hc : t.cancelled = false)
    (ha : t.phase.activity = .listening q x) : (serve w j).tasks.phase? j = none ∨ (serve w j).due j < w.due j := by
  have hafter := phase?_serve hw hs hc
  have hserve := serve_of_section hs hc
  rw [ha, World.step, World.stepListening] at hafter
  rw [World.advance, ha, World.step, World.stepListening] at hserve
  split at hafter
  · exact .inl hafter
  · next hstays =>
    rw [if_neg hstays] at hserve
    rw [hserve]
    exact .inr (count_floorTo (served?_eq_some hs).1)

/-- how many turns a task is due that has not ended -/
def World.turnsOf (w : World) (j : TaskId) : Nat := if w.tasks.phase? j = none then 0 else w.due j

theorem turnsOf_of_phase {ph : Phase} (hph : w.tasks.phase? i = some ph) : w.turnsOf i = w.due i :=
  if_neg (by rw [hph]; nofun)

/-- a number that does not grow, and gets less sooner or later as long as it is not zero, gets to zero -/
theorem exists_zero {f : Nat → Nat} {n : Nat} (hle : ∀ l, n ≤ l → f (l + 1) ≤ f l)
    (hless : ∀ l, n ≤ l → 0 < f l → ∃ m, l ≤ m ∧ f m < f l) : ∃ L, n ≤ L ∧ ∀ l, L ≤ l → f l = 0 := by
  have hreach : ∀ v l, n ≤ l → f l = v → ∃ L, n ≤ L ∧ f L = 0 := by
    intro v
    induction v using Nat.strong_induction_on with
    | _ v ih =>
      rintro l hl rfl
      rcases Nat.eq_zero_or_pos (f l) with hz | hpos
      · exact ⟨l, hl, hz⟩
      · obtain ⟨m, hlm, hm⟩ := hless l hl hpos
        exact ih (f m) hm m (hl.trans hlm) rfl
  obtain ⟨L, hL, hz⟩ := hreach (f n) n le_rfl rfl
  refine ⟨L, hL, fun l hl => Nat.le_zero.1 ?_⟩
  exact hz ▸ antitoneOn_nat_Ici_of_succ_le hle hL (hL.trans hl) hl

section Listening

variable {policy : WritePolicy} {moves : Nat → Move} {n l : Nat}

/-- whoever listens goes on listening until it is gone -/
theorem listening_trace {ph : Phase} (hnl : n ≤ l) (hph : ((World.start policy).trace moves n).tasks.phase? i = some ph)
    (ha : ph.activity = .listening q x) : ((World.start policy).trace moves l).tasks.phase? i = some ph ∨
      ((World.start policy).trace moves l).tasks.phase? i = none := by
  refine (stays_trace (P := fun ph' => ph' = ph) hnl hph rfl ?_).imp (fun hstays => ?_) And.right
  · rintro j - - ρ a b hcarry hsame hb
    have hact : a = .listening q x := (congrArg Phase.activity hsame).trans ha
    subst hact
    simp only [World.step, World.stepListening] at hb
    split at hb <;> cases hb
    exact hsame
  · obtain ⟨ph', hph', rfl⟩ := hstays
    exact hph'

/-- whoever has been cancelled is gone sooner or later -/
theorem gone_of_cancelled (h : ∀ n, moves n ≠ .call .shutDown) (hfair : ∀ l i, ((World.start policy).trace moves l).runnable i = true →
      ∃ m, l ≤ m ∧ ((World.start policy).trace moves m).serves (moves m) i = true)
    (hc : ((World.start policy).trace moves l).tasks.Cancelled i) :
    ∃ m, l ≤ m ∧ ((World.start policy).trace moves m).tasks.phase? i = none := by
  obtain ⟨t, ht, hcancelled⟩ := hc
  have hw := fun m => (reachable_trace policy moves m).wf
  obtain ⟨m, hlm, hserved, -⟩ := first_turn (hfair l i ((heeds_trace h l).cancelled i t ht hcancelled))
  have hkeeps : ∀ m, l ≤ m → ∀ t', ((World.start policy).trace moves m).tasks.live.get? i = some t' → t'.cancelled = true := by
    intro m hlm
    induction m, hlm using Nat.le_induction with
    | base =>
      intro t' ht'
      cases ht.symm.trans ht'
      exact hcancelled
    | succ m hlm ih =>
      intro t' ht'
      cases hbefore : ((World.start policy).trace moves m).tasks.live.get? i with
      | some t₀ => exact stays_cancelled (hw m) hbefore (ih t₀ hbefore) ht'
      | none =>
        have hnumber : i < ((World.start policy).trace moves m).tasks.next :=
          ((hw l).numbered.lt (congrArg (Option.map Task.phase) ht)).trans_le (next_trace hlm)
        have hnone := (gone_trace (Nat.le_succ m) hnumber (Tasks.phase?_eq_none_iff.2 hbefore)).2
        cases (Tasks.phase?_eq_none_iff.1 hnone).symm.trans ht'
  obtain ⟨hmove, hgo⟩ := serves_iff.1 hserved
  cases hs : ((World.start policy).trace moves m).served? i with
  | none => exact ⟨m, hlm, Tasks.phase?_eq_none_iff.2 (by simpa [World.served?, hgo] using hs)⟩
  | some u =>
    refine ⟨m + 1, hlm.trans (Nat.le_succ m), ?_⟩
    rw [World.trace, hmove]
    exact phase?_serve_of_cancelled (hw m) hs (hkeeps m hlm u (served?_eq_some hs).2)

/-! ### Listening without being cancelled -/

variable {ph : Phase} (hph : ((World.start policy).trace moves n).tasks.phase? i = some ph) (ha : ph.activity = .listening q x)
  (hspared : ∀ l, n ≤ l → ¬ ((World.start policy).trace moves l).tasks.Cancelled i)
include hph ha hspared

/-- the turn of a task that listens is one of those that it is due -/
theorem turnsOf_served (hnl : n ≤ l) (hthere : ((World.start policy).trace moves l).tasks.phase? i = some ph)
    (hs : ((World.start policy).trace moves l).serves (moves l) i = true) :
    ((World.start policy).trace moves (l + 1)).turnsOf i < ((World.start policy).trace moves l).turnsOf i := by
  have hrun := runnable_of_serves hs
  obtain ⟨hm, hgo⟩ := serves_iff.1 hs
  obtain ⟨u, hu, rfl⟩ := served?_of_phase hgo hthere
  have hc : u.cancelled = false := Bool.eq_false_iff.2 fun hc => hspared l hnl ⟨u, (served?_eq_some hu).2, hc⟩
  rw [turnsOf_of_phase hthere, World.trace, hm, World.move, World.turnsOf]
  rcases due_listening (reachable_trace policy moves l).wf hu hc ha with hnone | hless
  · exact (if_pos hnone).trans_lt (due_pos_iff.2 hrun)
  · split
    · exact due_pos_iff.2 hrun
    · exact hless

variable (hleave : ∀ l, n ≤ l → ∀ t, ((World.start policy).trace moves l).tasks.live.get? i = some t → t.cancelled = false →
  t.phase.activity = .listening q x → moves l ≠ .closeSubscriber x ∧ moves l ≠ .dropSubscriber x)
include hleave

/-- a task that listens is due no more turns than before, as long as its subscriber stays -/
theorem turnsOf_succ_le (hnl : n ≤ l) :
    ((World.start policy).trace moves (l + 1)).turnsOf i ≤ ((World.start policy).trace moves l).turnsOf i := by
  have hw := (reachable_trace policy moves l).wf
  rcases listening_trace hnl hph ha with hsame | hnone
  · cases hs : ((World.start policy).trace moves l).serves (moves l) i with
    | true => exact (turnsOf_served hph ha hspared hnl hsame hs).le
    | false =>
      have hafter : (((World.start policy).trace moves l).move (moves l)).tasks.phase? i = some ph := phase?_kept hw hs hsame
      obtain ⟨t, ht, hact⟩ := Option.map_eq_some_iff.1 hsame
      have hc : t.cancelled = false := Bool.eq_false_iff.2 fun hc => hspared l hnl ⟨t, ht, hc⟩
      obtain ⟨hclose, hdrop⟩ := hleave l hnl t ht hc (hact ▸ ha)
      rw [turnsOf_of_phase hsame, World.trace, turnsOf_of_phase hafter]
      refine (due_move hw hs hsame (by rw [ha]; rfl) hclose hdrop).resolve_right ?_
      exact hspared (l + 1) (hnl.trans (Nat.le_succ l))
  · have hid := ((reachable_trace policy moves n).wf.numbered.lt hph).trans_le (next_trace hnl)
    exact (if_pos (gone_trace (Nat.le_succ l) hid hnone).2).trans_le (Nat.zero_le _)

/-- **Whoever listens comes to rest**, or is gone, if whoever can go on gets the floor sooner or later. -/
theorem hushed_of_spared (hfair : ∀ l i, ((World.start policy).trace moves l).runnable i = true →
      ∃ m, l ≤ m ∧ ((World.start policy).trace moves m).serves (moves m) i = true) : ∃ L, ∀ l, L ≤ l →
    ((World.start policy).trace moves l).tasks.phase? i = none ∨ ((World.start policy).trace moves l).runnable i = false := by
  have hle : ∀ l, n ≤ l → ((World.start policy).trace moves (l + 1)).turnsOf i ≤ ((World.start policy).trace moves l).turnsOf i :=
    fun l hnl => turnsOf_succ_le hph ha hspared hleave hnl
  have hless : ∀ l, n ≤ l → 0 < ((World.start policy).trace moves l).turnsOf i →
      ∃ m, l ≤ m ∧ ((World.start policy).trace moves m).turnsOf i < ((World.start policy).trace moves l).turnsOf i := by
    intro l hnl hpos
    rcases listening_trace hnl hph ha with hsame | hnone
    · rw [turnsOf_of_phase hsame] at hpos
      obtain ⟨m, hlm, hserved, hno⟩ := first_turn (hfair l i (due_pos_iff.1 hpos))
      have hsame' := phase?_trace (.start policy) hlm hno hsame
      have hbefore : ((World.start policy).trace moves m).turnsOf i ≤ ((World.start policy).trace moves l).turnsOf i :=
        antitoneOn_nat_Ici_of_succ_le (f := fun l => ((World.start policy).trace moves l).turnsOf i) hle hnl (hnl.trans hlm) hlm
      exact ⟨m + 1, hlm.trans (Nat.le_succ m), (turnsOf_served hph ha hspared (hnl.trans hlm) hsame' hserved).trans_le hbefore⟩
    · rw [World.turnsOf, if_pos hnone] at hpos
      cases hpos
  obtain ⟨L, hnL, hzero⟩ := exists_zero hle hless
  refine ⟨L, fun l hl => ?_⟩
  rcases listening_trace (hnL.trans hl) hph ha with hsame | hnone
  · refine .inr (Bool.eq_false_iff.2 fun hrun => ?_)
    have hz := hzero l hl
    rw [turnsOf_of_phase hsame] at hz
    exact (due_pos_iff.2 hrun).ne' hz
  · exact .inl hnone

end Listening

end LiveFiles.Engine
