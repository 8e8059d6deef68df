/-
How locks are handed over, in a session with turns at paths in which everything goes on in any order.
- A task that cannot go on waits for what has not come (`waiting_trace`): whoever is handed a lock is woken, also by the
  cancellation of one that had just been handed it.
- A task works at the path of its turn (`placed_trace`).
- A live turn holds the lock exactly if it was the first with which somebody has begun to acquire (`holds_iff_first`), and
  where nobody can go on, whoever waits for a path waits for a turn granted there (`exists_granted`).
- A task that asks for a lock is granted it or cancelled, and nothing else becomes of it (`asked_move`).
- **`handed_over_trace`** puts this together: the first holds the lock, whatever is done at other paths; turns are granted
  in the order in which they have begun to acquire; and where nobody can go on, nobody waits for a path without a guard.
-/
import LiveFiles.Proofs.Queues

namespace LiveFiles.Session.Locks

open LiveFiles.Turns

/-- the path at which a task works or waits to work -/
def Phase.key : Phase → Path.Key
  | .acquiring _ turn _ => turn.key
  | .locking _ p _ _ => p.key
  | .inside _ turn _ => turn.key
  | .draining _ p _ => p.key

/-- the turn that a task waits for -/
def Phase.awaited? : Phase → Option Turn
  | .acquiring _ turn queued => if queued then some turn else none
  | .locking _ _ _ turn => turn
  | .inside .. => none
  | .draining _ _ turn => turn

/-- the word that a task waits for -/
def Phase.word? : Phase → Option Nat
  | .inside _ _ word => word
  | .acquiring .. | .locking .. | .draining .. => none

/-- the task waits for what has not come: for its turn, or for a word that has not been told -/
inductive Phase.Waits (t : Turns) (told : List Nat) (p : Phase) : Prop
  | turn (τ : Turn) : p.awaited? = some τ → t.holds τ = false → p.Waits t told
  | word (n : Nat) : p.word? = some n → told.contains n = false → p.Waits t told

/-- what a task of the session waits for has not come -/
abbrev Phase.WaitsIn (w : World) (p : Phase) : Prop := p.Waits w.turns w.told

/-- everybody who cannot go on waits for what has not come -/
def World.Waiting (w : World) : Prop := w.tasks.Waiting (Phase.WaitsIn w)

variable {w w' : World} {τ σ : Turn} {id : TaskId} {ts : Tasks Phase} {x : Task Phase} {p : Phase}

/-! ## Waiting -/

theorem Phase.awaitsTurn_of_awaited? (h : p.awaited? = some τ) : p.awaitsTurn τ.id = true := by
  cases p with
  | acquiring name σ queued =>
    cases queued with
    | false => cases h
    | true =>
      cases h
      exact decide_eq_true rfl
  | locking name path word turn =>
    cases h
    exact decide_eq_true rfl
  | inside => cases h
  | draining name path turn =>
    cases h
    exact decide_eq_true rfl

theorem Phase.queued?_of_awaited? (h : p.awaited? = some τ) : p.queued? = some τ := by
  cases p with
  | inside => cases h
  | acquiring | locking | draining => exact h

theorem Phase.awaitsWord_of_word? {n : Nat} (h : p.word? = some n) : p.awaitsWord n = true := by
  cases p with
  | inside => exact decide_eq_true h
  | acquiring | locking | draining => cases h

/-- a task goes on waiting unless its turn has come -/
theorem Phase.Waits.stays {t t' : Turns} {told : List Nat} (h : p.Waits t told)
    (hturn : ∀ τ, p.awaited? = some τ → t'.holds τ = true → t.holds τ = true) : p.Waits t' told := by
  cases h with
  | turn τ hτ hh =>
    refine .turn τ hτ (Bool.eq_false_iff.2 fun hh' => ?_)
    rw [hturn τ hτ hh'] at hh
    cases hh
  | word n hn hno => exact .word n hn hno

/-- whoever is handed the lock is woken -/
theorem World.Waiting.giveBack (h : w.Waiting) (τ : Turn) : (w.giveBack τ).Waiting := by
  have hnews : ∀ σ, (w.turns.giveBack τ).1.holds σ = true → w.turns.holds σ = true ∨ (w.turns.giveBack τ).2 = some σ.id :=
    fun σ => holds_giveBack w.turns τ σ
  unfold World.giveBack
  dsimp only
  cases hnext : (w.turns.giveBack τ).2 with
  | none =>
    refine h.mono fun id t _ _ hw => hw.stays fun σ _ hh => (hnews σ hh).resolve_right fun e => ?_
    rw [hnext] at e
    cases e
  | some n =>
    refine h.wake _ fun id t _ _ hw => ?_
    by_cases hc : t.phase.awaitsTurn n = true
    · exact Or.inl hc
    · refine Or.inr (hw.stays fun σ hσ hh => (hnews σ hh).resolve_right fun e => hc ?_)
      rw [hnext] at e
      obtain rfl : n = σ.id := Option.some.inj e
      exact Phase.awaitsTurn_of_awaited? hσ

theorem World.Waiting.giveBackIf (h : w.Waiting) (o : Option Turn) : (w.giveBackIf o).Waiting := by
  cases o with
  | none => exact h
  | some τ => exact h.giveBack τ

/-- the turn that a task awaits is a live one -/
theorem mem_tickets_of_awaited? (hx : w.tasks.live.get? id = some x) (hτ : x.phase.awaited? = some τ) : τ ∈ w.tickets :=
  mem_tickets hx (Phase.turn?_of_queued? (Phase.queued?_of_awaited? hτ))

/-- the turns of two tasks are two turns -/
theorem Sound.id_ne (h : Sound w) {y : Task Phase} {j : TaskId} (hx : w.tasks.live.get? id = some x)
    (hy : w.tasks.live.get? j = some y) (hj : j ≠ id) (hτ : x.phase.turn? = some τ) (hσ : y.phase.turn? = some σ) :
    σ.id ≠ τ.id := by
  intro e
  obtain rfl : σ = τ := h.accounted.eq_of_id (mem_tickets hy hσ) (mem_tickets hx hτ) e
  have hrest : (w.tasks.live.erase id).get? j = some y := by rw [Table.get?_erase, if_neg (Ne.symm hj), hy]
  exact h.alone hx hτ (List.mem_append_right _ (mem_ofTasks.2 ⟨j, y, hrest, hσ⟩))

/-- nobody is handed a lock by the reservation of a turn -/
theorem holds_of_reserve {t : Turns} {k : Path.Key} {live : List Turn} (h : t.Accounted live) (hσ : σ ∈ live)
    (hh : (t.reserve k).2.holds σ = true) : t.holds σ = true := by
  rw [holds, lock_reserve _ _ (h.lock_lt hσ)] at hh
  exact hh

/-- by queueing up, at most the lock for one's own turn is got -/
theorem holds_of_queueUp {t : Turns} (hne : σ.id ≠ τ.id) (h : (t.queueUp τ).holds σ = true) : t.holds σ = true := by
  simp only [holds, decide_eq_true_eq, lock_queueUp] at h ⊢
  split at h
  · rename_i hl
    rw [Lock.holder_join, hl] at h
    cases hh : (t.lock σ.lock).holder with
    | some y =>
      rw [hh] at h
      exact h
    | none =>
      rw [hh] at h
      exact absurd (Option.some.inj h).symm hne
  · exact h

/-! ## Sections -/

@[simp] theorem floor_giveBack (w : World) (τ : Turn) : (w.giveBack τ).tasks.floor = w.tasks.floor := by
  unfold World.giveBack
  dsimp only
  split
  · exact (Tasks.grows_wake (P := fun _ => True) _ _).floor
  · rfl

theorem floor_giveBackIf (w : World) (o : Option Turn) : (w.giveBackIf o).tasks.floor = w.tasks.floor := by
  cases o with
  | none => rfl
  | some τ => exact floor_giveBack w τ

/-- somebody with the floor queues up with a new turn -/
theorem World.Waiting.enlist (h : World.Waiting { w with tasks := ts }) (hw : Sound w) (hlive : ts.live = w.tasks.live)
    (k : Path.Key) : ts.Waiting (Phase.Waits (w.turns.enlist k).2 w.told) := by
  refine h.mono fun j y hy _ hwait => hwait.stays fun σ hσ hh => ?_
  have hin : σ ∈ w.tickets := mem_tickets_of_awaited? (hlive ▸ hy) hσ
  have hne : σ.id ≠ (w.turns.reserve k).1.id := by
    rw [reserve_id]
    exact (hw.accounted.fresh σ hin).ne
  exact holds_of_reserve hw.accounted hin (holds_of_queueUp hne hh)

/-- The others wait for other turns than that of the task that carries out a section. -/
theorem ends_advance (h : Sound w) (hx : w.tasks.live.get? id = some x) (hlive : ts.live = w.tasks.live)
    (hf : ts.floor = some id) (hw : World.Waiting { w with tasks := ts }) :
    Machine.Ends Phase.WaitsIn (World.advance { w with tasks := ts } x.phase).1 id
      (World.advance { w with tasks := ts } x.phase).2 := by
  have hother : ∀ j y, ts.live.get? j = some y → ¬ ts.Runnable j → j ≠ id := fun j y _ hr e => hr (Or.inr (e ▸ hf))
  obtain ⟨p, c⟩ := x
  cases p with
  | acquiring name τ queued =>
    cases queued with
    | false =>
      refine ⟨hw.mono fun j y hy hr hwait => hwait.stays fun σ hσ hh => ?_, hf, fun _ e => by cases e⟩
      have hσ' : y.phase.turn? = some σ := Phase.turn?_of_queued? (Phase.queued?_of_awaited? hσ)
      exact holds_of_queueUp (h.id_ne hx (hlive ▸ hy) (hother j y hy hr) rfl hσ') hh
    | true =>
      simp only [World.advance]
      split
      · have hshelf : World.Waiting
            { w with tasks := ts, guards := w.guards.insert name τ, acquired := w.acquired ++ [name] } := hw
        exact ⟨hshelf.giveBackIf _, (floor_giveBackIf _ _).trans hf, fun _ e => by cases e⟩
      · rename_i hno
        refine ⟨hw, hf, fun _ e => ?_⟩
        cases e
        exact .turn τ rfl (Bool.eq_false_iff.2 hno)
  | locking name path word turn =>
    cases turn with
    | none => exact ⟨hw.enlist h hlive path.key, hf, fun _ e => by cases e⟩
    | some τ =>
      simp only [World.advance]
      split
      · exact ⟨hw, hf, fun _ e => by cases e⟩
      · rename_i hno
        refine ⟨hw, hf, fun _ e => ?_⟩
        cases e
        exact .turn τ rfl (Bool.eq_false_iff.2 hno)
  | inside name τ word =>
    simp only [World.advance]
    split
    · rename_i hno
      refine ⟨hw, hf, fun _ e => ?_⟩
      cases e
      obtain ⟨n, rfl, hn⟩ := (Option.any_eq_true _ _).1 hno
      exact .word n rfl (by simpa using hn)
    · have hback : World.Waiting (World.say { w with tasks := ts } ("leave " ++ name)) := hw
      exact ⟨hback.giveBack τ, (floor_giveBack _ τ).trans hf, fun _ e => by cases e⟩
  | draining name path turn =>
    cases turn with
    | none =>
      simp only [World.advance]
      split
      · exact ⟨hw, hf, fun _ e => by cases e⟩
      · exact ⟨hw.enlist h hlive path.key, hf, fun _ e => by cases e⟩
    | some τ =>
      simp only [World.advance]
      split
      · exact ⟨hw.giveBack τ, (floor_giveBack _ τ).trans hf, fun _ e => by cases e⟩
      · rename_i hno
        refine ⟨hw, hf, fun _ e => ?_⟩
        cases e
        exact .turn τ rfl (Bool.eq_false_iff.2 hno)

theorem waiting_served (h : Sound w) (hw : w.Waiting) (hs : Machine.Served w id w') : w'.Waiting := by
  refine Machine.waiting_served (Q := Phase.WaitsIn) (fun _ _ _ hwait => hwait) hw hs (fun w p hw => ?_)
    fun ts x hts hx hfloored => ends_advance h hx hts.live hts.floor hfloored
  obtain ⟨done, hdrop⟩ := drop_eq w p
  change (w.drop p).Waiting
  rw [hdrop]
  exact World.Waiting.giveBackIf hw _

/-! ## Commands -/

theorem waiting_command (h : Sound w) (hw : w.Waiting) (c : Command) : (w.command c).1.Waiting := by
  cases c with
  | reserve name p =>
    rw [command_reserve]
    refine World.Waiting.giveBackIf ?_ _
    refine hw.mono fun j y hy _ hwait => hwait.stays fun σ hσ hh => ?_
    exact holds_of_reserve h.accounted (mem_tickets_of_awaited? hy hσ) hh
  | acquire name =>
    simp only [World.command]
    split
    · exact hw
    · exact Tasks.Waiting.spawn hw _
  | dropTurn name =>
    simp only [World.command]
    split
    · exact hw
    · exact World.Waiting.giveBack (w := { w with reserved := w.reserved.erase name }) hw _
  | dropGuard name =>
    simp only [World.command]
    split
    · exact hw
    · exact World.Waiting.giveBack (w := { w with guards := w.guards.erase name }) hw _
  | abort name =>
    simp only [World.command]
    split
    · exact Tasks.Waiting.cancel hw _
    · split
      · exact Tasks.Waiting.cancel hw _
      · exact hw
  | withLock name p held => exact Tasks.Waiting.spawn hw _
  | finish name =>
    simp only [World.command]
    split
    · exact hw
    · rename_i word _ _
      refine Tasks.Waiting.wake hw _ fun j y _ _ hwait => ?_
      cases hwait with
      | turn τ hτ hh => exact Or.inr (.turn τ hτ hh)
      | word n hn hno =>
        by_cases e : n = word
        · exact Or.inl (Phase.awaitsWord_of_word? (e ▸ hn))
        · refine Or.inr (.word n hn ?_)
          simpa [e] using hno
  | waitIdle name p => exact Tasks.Waiting.spawn hw _
  | isIdle p => exact hw

theorem waiting_trace (moves : Nat → Move) (n : Nat) : (World.trace {} moves n).Waiting := by
  induction n with
  | zero => exact fun id t ht => by cases ht
  | succ n ih =>
    have h := sound_trace moves n
    change ((World.trace {} moves n).move (moves n)).Waiting
    cases moves n with
    | turn id => exact waiting_served h ih (Machine.served_serve _ id)
    | command c => exact waiting_command h ih c

/-! ## Where a task works -/

/-- the turn of a task is one at the path where it works -/
def Phase.Placed (p : Phase) : Prop := ∀ τ, p.turn? = some τ → τ.key = p.key

theorem placed_giveBackIf (h : w.tasks.Every Phase.Placed) (o : Option Turn) :
    (w.giveBackIf o).tasks.Every Phase.Placed := h.of_live (woken_giveBackIf w o).1

theorem placed_advance (w : World) (hp : p.Placed) :
    ∀ q, (w.advance p).2.next = some q → q.Placed := by
  intro q hq
  cases p with
  | acquiring name τ queued =>
    cases queued with
    | false =>
      cases hq
      exact hp
    | true =>
      simp only [World.advance] at hq
      split at hq
      · cases hq
      · cases hq
        exact hp
  | locking name path word turn =>
    cases turn with
    | none =>
      cases hq
      intro τ hτ
      cases hτ
      exact reserve_key _ _
    | some τ =>
      simp only [World.advance] at hq
      split at hq
      · cases hq
        intro σ hσ
        cases hσ
        rfl
      · cases hq
        exact hp
  | inside name τ word =>
    simp only [World.advance] at hq
    split at hq
    · cases hq
      exact hp
    · cases hq
  | draining name path turn =>
    cases turn with
    | none =>
      simp only [World.advance] at hq
      split at hq
      · cases hq
      · cases hq
        intro τ hτ
        cases hτ
        exact reserve_key _ _
    | some τ =>
      simp only [World.advance] at hq
      split at hq
      · cases hq
        intro σ hσ
        cases hσ
      · cases hq
        exact hp

theorem placed_served (h : w.tasks.Every Phase.Placed) (hs : Machine.Served w id w') : w'.tasks.Every Phase.Placed := by
  refine Machine.every_served h hs (fun w p hw => ?_) fun w p hw hp => ?_
  · obtain ⟨done, hdrop⟩ := drop_eq w p
    change (w.drop p).tasks.Every Phase.Placed
    rw [hdrop]
    exact placed_giveBackIf hw _
  · exact ⟨Tasks.Every.of_live hw (woken_advance w p).1, placed_advance w hp⟩

/-- a command wakes tasks at most, or starts one, or cancels one -/
theorem tasks_command (w : World) (c : Command) : Woken w.tasks (w.command c).1.tasks ∨
    (∃ p : Phase, p.Placed ∧ (w.command c).1.tasks = (w.tasks.spawn p).2) ∨ ∃ id, (w.command c).1.tasks = w.tasks.cancel id := by
  have hunqueued : ∀ {p : Phase}, p.turn? = none → p.Placed := fun hnone τ hτ => by cases hnone.symm.trans hτ
  cases c with
  | reserve name path => exact .inl (woken_giveBackIf { w with
      turns := (w.turns.reserve path.key).2, reserved := w.reserved.insert name (w.turns.reserve path.key).1 } _)
  | acquire name =>
    simp only [World.command]
    split
    · exact .inl (.refl _)
    · refine .inr (.inl ⟨_, fun σ hσ => ?_, rfl⟩)
      cases hσ
      rfl
  | dropTurn name =>
    simp only [World.command]
    split
    · exact .inl (.refl _)
    · exact .inl (woken_giveBack { w with reserved := w.reserved.erase name } _)
  | dropGuard name =>
    simp only [World.command]
    split
    · exact .inl (.refl _)
    · exact .inl (woken_giveBack { w with guards := w.guards.erase name } _)
  | abort name =>
    simp only [World.command]
    split
    · exact .inr (.inr ⟨_, rfl⟩)
    · split
      · exact .inr (.inr ⟨_, rfl⟩)
      · exact .inl (.refl _)
  | withLock name path held => exact .inr (.inl ⟨_, hunqueued rfl, rfl⟩)
  | finish name =>
    simp only [World.command]
    split
    · exact .inl (.refl _)
    · exact .inl (woken_wake _ _)
  | waitIdle name path => exact .inr (.inl ⟨_, hunqueued rfl, rfl⟩)
  | isIdle path => exact .inl (.refl _)

theorem placed_command (h : w.tasks.Every Phase.Placed) (c : Command) : (w.command c).1.tasks.Every Phase.Placed := by
  rcases tasks_command w c with hwoken | ⟨p, hp, htasks⟩ | ⟨id, htasks⟩
  · exact h.of_live hwoken.1
  · rw [htasks]
    exact h.spawn hp
  · rw [htasks]
    exact h.cancel id

theorem placed_trace (moves : Nat → Move) (n : Nat) : (World.trace {} moves n).tasks.Every Phase.Placed := by
  induction n with
  | zero => exact Tasks.every_empty
  | succ n ih =>
    change ((World.trace {} moves n).move (moves n)).tasks.Every Phase.Placed
    cases moves n with
    | turn id => exact placed_served ih (Machine.served_serve _ id)
    | command c => exact placed_command ih c

/-! ## First come, first served -/

section Run

variable {moves : Nat → Move} {i j n : Nat}

/-- **A live turn holds the lock exactly if somebody has begun to acquire with it, and before all others with which
somebody has at its path.** -/
theorem holds_iff_first (hτ : τ ∈ (World.trace {} moves n).tickets) :
    (World.trace {} moves n).turns.holds τ = true ↔ ∃ i, i < n ∧ Begins moves i τ ∧
      ∀ j σ, j < i → Begins moves j σ → σ.key = τ.key → σ ∉ (World.trace {} moves n).tickets := by
  have h := sound_trace moves n
  have hl := lined_trace moves n
  have hsub := begun_sublist (World.trace {} moves n)
  have hearlier := earlier_trace moves n τ.key
  rw [hl.holds_iff h.accounted hτ]
  constructor
  · intro hfirst
    obtain ⟨rest, hline⟩ : ∃ rest, (World.trace {} moves n).turns.lineAt τ.key = τ.id :: rest := by
      cases hline : (World.trace {} moves n).turns.lineAt τ.key with
      | nil =>
        rw [hline] at hfirst
        cases hfirst
      | cons x rest =>
        rw [hline] at hfirst
        cases hfirst
        exact ⟨rest, rfl⟩
    have hin : τ ∈ (World.trace {} moves n).begun := by
      refine (hl.id_mem_iff h.accounted hsub.subset hτ).1 ?_
      rw [hline]
      exact List.mem_cons_self
    obtain ⟨i, hi, hbegins⟩ := exists_begins hin
    refine ⟨i, hi, hbegins, fun j σ hj hσ hkey hlive => ?_⟩
    -- a live turn with which somebody has begun earlier stands further behind in the line
    have hσin : σ ∈ (World.trace {} moves n).begun := begun_of_live (hj.trans hi) hσ.2 hlive
    have hσline : σ.id ∈ τ.id :: rest := by
      rw [← hline, ← hkey]
      exact (hl.id_mem_iff h.accounted hsub.subset hlive).2 hσin
    rw [hline, List.pairwise_cons] at hearlier
    rcases List.mem_cons.1 hσline with hid | hbehind
    · obtain rfl := h.accounted.eq_of_id hlive hτ hid
      exact hj.ne (hσ.unique hbegins)
    · obtain ⟨a, b, τ', σ', hab, hτ', hσ', hidτ, hidσ⟩ := hearlier.1 σ.id hbehind
      obtain rfl := turn_unique hτ'.live hbegins.live hidτ
      obtain rfl := turn_unique hσ'.live hσ.live hidσ
      rw [hτ'.unique hbegins, hσ'.unique hσ] at hab
      exact lt_asymm hj hab
  · rintro ⟨i, hi, hbegins, hfirst⟩
    have hin : τ ∈ (World.trace {} moves n).begun := begun_of_live hi hbegins.2 hτ
    have hτline := (hl.id_mem_iff h.accounted hsub.subset hτ).2 hin
    cases hline : (World.trace {} moves n).turns.lineAt τ.key with
    | nil =>
      rw [hline] at hτline
      cases hτline
    | cons x rest =>
      rw [hline] at hτline hearlier
      rcases List.mem_cons.1 hτline with hid | hbehind
      · rw [hid]
        rfl
      · -- whoever is first in the line has begun earlier
        obtain ⟨a, b, σ, τ', hab, hσ, hτ', hidσ, hidτ⟩ := (List.pairwise_cons.1 hearlier).1 τ.id hbehind
        obtain rfl := turn_unique hτ'.live hbegins.live hidτ
        rw [hτ'.unique hbegins] at hab
        obtain ⟨ρ, hρ, hkey, hidρ⟩ := (hl.mem τ'.key x).1 (by rw [hline]; exact List.mem_cons_self)
        obtain rfl := turn_unique hσ.live (hsub.subset hρ) (hidσ.trans hidρ.symm)
        exact absurd (hsub.subset hρ) (hfirst a σ hab hσ hkey)

/-- where nobody can go on, whoever waits for a path waits for a turn that has been granted there -/
theorem exists_granted (hq : (World.trace {} moves n).tasks.quiet = true)
    (hx : (World.trace {} moves n).tasks.live.get? id = some x) (hno : x.phase.guard? = none) :
    ∃ σ ∈ (World.trace {} moves n).granted, σ.key = x.phase.key := by
  have h := sound_trace moves n
  have hl := lined_trace moves n
  have hsub := begun_sublist (World.trace {} moves n)
  have hwaiting := waiting_trace moves n
  have hplaced := placed_trace moves n
  generalize World.trace {} moves n = w at *
  have hwaits : ∀ {id x}, w.tasks.live.get? id = some x → x.phase.guard? = none →
      ∃ τ, x.phase.awaited? = some τ ∧ w.turns.holds τ = false := by
    intro id x hx hno
    cases Tasks.Waiting.of_quiet hwaiting hq hx with
    | turn τ hτ hholds => exact ⟨τ, hτ, hholds⟩
    | word k hk =>
      cases hp : x.phase with
      | inside =>
        rw [hp] at hno
        cases hno
      | acquiring | locking | draining =>
        rw [hp] at hk
        cases hk
  obtain ⟨τ, hτ, hnot⟩ := hwaits hx hno
  have hqueued := Phase.queued?_of_awaited? hτ
  have hlive := mem_tickets hx (Phase.turn?_of_queued? hqueued)
  have hin : τ ∈ w.begun := by
    refine (begun_perm hx).mem_iff.2 (List.mem_append_left _ ?_)
    rw [hqueued]
    exact List.mem_singleton_self τ
  have hτline := (hl.id_mem_iff h.accounted hsub.subset hlive).2 hin
  obtain ⟨first, hfirst⟩ : ∃ first, (w.turns.lineAt τ.key).head? = some first :=
    Option.ne_none_iff_exists'.1 fun e => by
      rw [List.head?_eq_none_iff.1 e] at hτline
      cases hτline
  obtain ⟨σ, hσ, hkey, rfl⟩ := (hl.mem τ.key first).1 (List.mem_of_head? hfirst)
  have hholds : w.turns.holds σ = true := (hl.holds_iff h.accounted (hsub.subset hσ)).2 (hkey ▸ hfirst)
  refine ⟨σ, ?_, hkey.trans (hplaced id x hx τ (Phase.turn?_of_queued? hqueued))⟩
  -- nobody who waits holds the lock
  rcases List.mem_append.1 hσ with hσ | hσ
  · exact List.mem_append_left _ hσ
  · obtain ⟨j, y, hy, hyσ⟩ := mem_ofTasks.1 hσ
    cases hguard : y.phase.guard? with
    | some ρ =>
      obtain rfl : ρ = σ :=
        Option.some.inj ((Phase.turn?_of_guard? hguard).symm.trans (Phase.turn?_of_queued? hyσ))
      exact List.mem_append_right _ (mem_ofTasks.2 ⟨j, y, hy, hguard⟩)
    | none =>
      obtain ⟨ρ, hρ, hnot⟩ := hwaits hy hguard
      obtain rfl : ρ = σ := Option.some.inj ((Phase.queued?_of_awaited? hρ).symm.trans hyσ)
      rw [hholds] at hnot
      cases hnot

end Run

/-! ## What becomes of whoever asks for a lock -/

/-- the task asks for a lock, with a turn of its own or one that has been reserved for it -/
def Phase.asks : Phase → Bool
  | .acquiring .. | .locking .. => true
  | .inside .. | .draining .. => false

/-- What a move does to a task that asks for a lock: it goes on asking for the same one, it is granted its turn, or it has
been cancelled and is gone. -/
inductive Asked (w w' : World) (id : TaskId) (t : Task Phase) : Prop
  | still (p : Phase) : w'.tasks.phase? id = some p → p.asks = true → p.key = t.phase.key → Asked w w' id t
  | guarded (name : String) (τ : Turn) : t.phase = .acquiring name τ true → w.turns.holds τ = true →
    w'.tasks.phase? id = none → w'.guards.get? name = some τ → Asked w w' id t
  | entered (name : String) (path : Path) (word : Option Nat) (τ : Turn) : t.phase = .locking name path word (some τ) →
    w.turns.holds τ = true → w'.tasks.phase? id = some (.inside name τ word) → Asked w w' id t
  | cancelled : t.cancelled = true → w'.tasks.phase? id = none → Asked w w' id t

theorem asked_of_phase? (hx : w.tasks.live.get? id = some x) (hasks : x.phase.asks = true)
    (h : w'.tasks.phase? id = w.tasks.phase? id) : Asked w w' id x :=
  .still x.phase (by rw [h, Tasks.phase?, hx, Option.map_some]) hasks rfl

theorem phase?_of_live (h : ts.live = w.tasks.live) : ts.phase? = w.tasks.phase? :=
  funext fun j => congrArg (fun live => (live.get? j).map Task.phase) h

/-- a task that asks for a lock gets it in a section of its own, once it is the first -/
theorem asked_advance (hx : w.tasks.live.get? id = some x) (hasks : x.phase.asks = true) (hlive : ts.live = w.tasks.live) :
    let q := World.advance { w with tasks := ts } x.phase
    Asked w { q.1 with tasks := q.1.tasks.record id q.2 } id x := by
  intro q
  have hphase : ts.phase? id = some x.phase := by rw [phase?_of_live hlive, Tasks.phase?, hx, Option.map_some]
  have hrecord : (q.1.tasks.record id q.2).phase? id = q.2.next := by
    rw [Tasks.phase?_record, if_pos rfl, Tasks.phase?, (woken_advance _ _).1]
    change ((Tasks.phase? ts id).bind fun _ => q.2.next) = _
    rw [hphase, Option.bind_some]
  obtain ⟨p, c⟩ := x
  cases p with
  | acquiring name τ queued =>
    cases queued with
    | false => exact .still _ hrecord rfl rfl
    | true =>
      by_cases hh : w.turns.holds τ = true
      · have hq : q = (World.giveBackIf
            { w with tasks := ts, guards := w.guards.insert name τ, acquired := w.acquired ++ [name] }
            (w.guards.get? name), .ended ()) := if_pos hh
        refine .guarded name τ rfl hh (by rw [hrecord, hq]; rfl) ?_
        change q.1.guards.get? name = some τ
        rw [hq, guards_giveBackIf]
        rw [Table.get?_insert, if_pos rfl]
      · have hq : q = ({ w with tasks := ts }, .wait (.acquiring name τ true)) := if_neg hh
        exact .still _ (by rw [hrecord, hq]; rfl) rfl rfl
  | locking name path word turn =>
    cases turn with
    | none => exact .still _ hrecord rfl rfl
    | some τ =>
      by_cases hh : w.turns.holds τ = true
      · have hq : q = (World.say { w with tasks := ts } ("enter " ++ name), .go (.inside name τ word)) := if_pos hh
        exact .entered name path word τ rfl hh (by rw [hrecord, hq]; rfl)
      · have hq : q = ({ w with tasks := ts }, .wait (.locking name path word (some τ))) := if_neg hh
        exact .still _ (by rw [hrecord, hq]; rfl) rfl rfl
  | inside => cases hasks
  | draining => cases hasks

theorem asked_served {j : TaskId} (hx : w.tasks.live.get? id = some x) (hasks : x.phase.asks = true)
    (hs : Machine.Served w j w') : Asked w w' id x := by
  have hphase : w.tasks.phase? id = some x.phase := by rw [Tasks.phase?, hx, Option.map_some]
  cases hs with
  | unserved => exact asked_of_phase? hx hasks rfl
  | @vacant ts hts => exact asked_of_phase? hx hasks (congrFun (phase?_of_live hts.live) id)
  | @dropped ts y hts hy hc =>
    have hgone : (Machine.drop (Machine.setTasks w { ts with live := ts.live.erase j, floor := none }) j y.phase).tasks.live =
        w.tasks.live.erase j := by
      obtain ⟨done, hdrop⟩ := drop_eq { w with tasks := { ts with live := ts.live.erase j, floor := none } } y.phase
      change (World.drop { w with tasks := { ts with live := ts.live.erase j, floor := none } } y.phase).tasks.live = _
      rw [hdrop]
      exact (woken_giveBackIf _ _).1.trans (congrArg (Table.erase · j) hts.live)
    by_cases hj : j = id
    · subst hj
      obtain rfl : x = y := Option.some.inj (hx.symm.trans hy)
      refine .cancelled hc ?_
      rw [Tasks.phase?, hgone, Table.get?_erase, if_pos rfl, Option.map_none]
    · refine asked_of_phase? hx hasks ?_
      rw [Tasks.phase?, hgone, Table.get?_erase, if_neg hj, ← Tasks.phase?]
  | @advanced ts y hts hy hc =>
    by_cases hj : j = id
    · subst hj
      obtain rfl : x = y := Option.some.inj (hx.symm.trans hy)
      exact asked_advance hx hasks hts.live
    · refine asked_of_phase? hx hasks ?_
      change Tasks.phase? (Tasks.record _ j _) id = _
      rw [Tasks.phase?_record, if_neg hj, ← phase?_of_live hts.live]
      exact congrFun (phase?_of_live (w := { w with tasks := ts }) (woken_advance _ _).1) id

/-- what comes from outside leaves the tasks in their phases -/
theorem phase?_command (hn : w.tasks.Numbered) (c : Command) (h : w.tasks.phase? id = some p) :
    (w.command c).1.tasks.phase? id = some p := by
  rcases tasks_command w c with hwoken | ⟨q, -, htasks⟩ | ⟨j, htasks⟩
  · rw [phase?_of_live hwoken.1, h]
  · rw [htasks, Tasks.phase?_spawn, if_neg (hn.lt h).ne', h]
  · rw [htasks, Tasks.phase?_cancel, h]

theorem asked_move (h : Sound w) (hx : w.tasks.live.get? id = some x) (hasks : x.phase.asks = true) (m : Move) :
    Asked w (w.move m) id x := by
  cases m with
  | turn j => exact asked_served hx hasks (Machine.served_serve w j)
  | command c =>
    have hphase : w.tasks.phase? id = some x.phase := by rw [Tasks.phase?, hx, Option.map_some]
    exact asked_of_phase? hx hasks ((phase?_command h.numbered c hphase).trans hphase.symm)

/-- **Nobody is lost when locks are handed over.** Turns are reserved, taken up, given back and cancelled by name,
operations and waits come, go and are cancelled at any stage, and the tasks carry out their sections in any order. After
any moves:
- a live turn holds the lock exactly if somebody has begun to acquire with it, and before all others with which somebody
  has at its path; what is done at other paths does not matter;
- so a turn is granted only once all turns at its path with which somebody has begun earlier are given back;
- a task that asks for a lock goes on asking for it until it is granted its turn, which holds the lock then, or is
  cancelled;
- where nobody can go on, a path for which a task waits has a turn that is granted there, so nobody waits for a path where
  none is. -/
theorem handed_over_trace (moves : Nat → Move) (n : Nat) :
    let w := World.trace {} moves n
    (∀ τ ∈ w.tickets, w.turns.holds τ = true ↔ ∃ i, i < n ∧ Begins moves i τ ∧
      ∀ j σ, j < i → Begins moves j σ → σ.key = τ.key → σ ∉ w.tickets) ∧
    (∀ i j τ σ, i < j → Begins moves i τ → Begins moves j σ → τ.key = σ.key → σ ∈ w.granted → τ ∉ w.tickets) ∧
    (∀ id t, w.tasks.live.get? id = some t → t.phase.asks = true → Asked w (World.trace {} moves (n + 1)) id t) ∧
    (w.tasks.quiet = true → ∀ id t, w.tasks.live.get? id = some t → t.phase.guard? = none →
      ∃ σ ∈ w.granted, σ.key = t.phase.key) := by
  intro w
  have hfirst : ∀ τ ∈ w.tickets, w.turns.holds τ = true ↔ ∃ i, i < n ∧ Begins moves i τ ∧
      ∀ j σ, j < i → Begins moves j σ → σ.key = τ.key → σ ∉ w.tickets := fun τ hτ => holds_iff_first hτ
  refine ⟨hfirst, ?_, fun id t ht hasks => asked_move (sound_trace moves n) ht hasks (moves n), ?_⟩
  · intro i j τ σ hij hτ hσ hkey hgranted
    have hlive : σ ∈ w.tickets := (granted_sublist w).subset hgranted
    obtain ⟨b, -, hb, hbefore⟩ := (hfirst σ hlive).1 ((sound_trace moves n).holds σ hgranted)
    obtain rfl := hb.unique hσ
    exact hbefore i τ hij hτ hkey
  · intro hq id t ht hno
    exact exists_granted hq ht hno

/-- Two operations wait for a path while a guard is alive there. The guard is dropped, so that the first of them has its
turn, and it is cancelled before it goes on. -/
def cancelledFirst : Nat → Move :=
  along [.command (.reserve "a" ⟨"/a"⟩), .command (.acquire "a"), .turn 1, .turn 1,
    .command (.withLock "b" ⟨"/a"⟩ false), .turn 2, .turn 2, .command (.withLock "c" ⟨"/a"⟩ false), .turn 3, .turn 3,
    .command (.dropGuard "a"), .command (.abort "b"), .turn 2, .turn 3]

/-- the operation named `name`, which waits for its turn in that run -/
def lockingAtA (name : String) (id : TurnId) : Phase := .locking name ⟨"/a"⟩ none (some ⟨id, Path.key ⟨"/a"⟩, 1⟩)

/-- it passes its turn on: the other operation is granted the lock -/
theorem turn_of_cancelled_passed_on :
    let w := World.trace {} cancelledFirst 12
    let w' := World.trace {} cancelledFirst 13
    (w.turns.holds ⟨2, Path.key ⟨"/a"⟩, 1⟩ = true ∧ w.tasks.live.get? 2 = some ⟨lockingAtA "b" 2, true⟩ ∧
      Asked w w' 2 ⟨lockingAtA "b" 2, true⟩ ∧ w'.tasks.phase? 2 = none) ∧
    (w'.turns.holds ⟨3, Path.key ⟨"/a"⟩, 1⟩ = true ∧ Asked w' (World.trace {} cancelledFirst 14) 3 ⟨lockingAtA "c" 3, false⟩ ∧
      (World.trace {} cancelledFirst 14).tasks.phase? 3 = some (.inside "c" ⟨3, Path.key ⟨"/a"⟩, 1⟩ none)) := by
  intro w w'
  obtain ⟨-, -, hfirst, -⟩ := handed_over_trace cancelledFirst 12
  obtain ⟨-, -, hsecond, -⟩ := handed_over_trace cancelledFirst 13
  exact ⟨⟨by decide +kernel, rfl, hfirst 2 _ rfl rfl, rfl⟩, by decide +kernel, hsecond 3 _ rfl rfl, rfl⟩

end LiveFiles.Session.Locks
