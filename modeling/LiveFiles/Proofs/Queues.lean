/-
Who is in line, in a session with turns at paths. A task has begun to acquire once it has queued up with its turn;
`World.begun` lists the live turns of which this is true. A move does one thing to the lines at most (`Deed`): a turn
joins one at its end, or is given back and leaves it.
- every command and every section of every task does so (`does_served`, `does_command`, `does_move`);
- so the turns in line are at any time those that have begun to acquire (`lined_trace`);
- a turn that is gone does not come back (`mem_tickets_of_older`), and begins to acquire once (`Begins.unique`);
- **`earlier_trace`**: every line stands in the order in which its turns have begun to acquire.
-/
import LiveFiles.Proofs.Lines
import LiveFiles.Proofs.Tickets

namespace LiveFiles.Session.Locks

open LiveFiles.Turns

/-- the turn with which a task has queued up -/
def Phase.queued? : Phase → Option Turn
  | .acquiring _ turn queued => if queued then some turn else none
  | .locking _ _ _ turn => turn
  | .inside _ turn _ => some turn
  | .draining _ _ turn => turn

/-- the live turns with which somebody has begun to acquire: those granted, and those waiting in line -/
def World.begun (w : World) : List Turn := w.guards.values ++ ofTasks Phase.queued? w.tasks.live

/-- What a move can do to the turns in line: the turns afterwards, and those that have begun to acquire. -/
inductive Deed (w : World) : Turns → List Turn → Prop
  | keep : Deed w w.turns w.begun
  | reserve (k : Path.Key) : Deed w (w.turns.reserve k).2 w.begun
  | join {τ : Turn} : τ ∈ w.tickets → τ ∉ w.begun → Deed w (w.turns.queueUp τ) (τ :: w.begun)
  | enlist (k : Path.Key) : Deed w (w.turns.enlist k).2 ((w.turns.enlist k).1 :: w.begun)
  | leave {τ : Turn} : τ ∈ w.tickets → Deed w (w.turns.giveBack τ).1 (w.begun.erase τ)
  /-- a turn is reserved under the name of another, which is given back -/
  | replace {τ : Turn} (k : Path.Key) : τ ∈ w.tickets →
    Deed w ((w.turns.reserve k).2.giveBack τ).1 (w.begun.erase τ)

/-- A turn joins a line at its end, or one leaves, or all lines stay. -/
inductive Shift (w w' : World) : Prop
  | stay : (∀ k, w'.turns.lineAt k = w.turns.lineAt k) → w'.begun.Perm w.begun → Shift w w'
  | join (τ : Turn) : (∀ k, w'.turns.lineAt k = if τ.key = k then w.turns.lineAt k ++ [τ.id] else w.turns.lineAt k) →
    τ ∉ w.begun → w'.begun.Perm (τ :: w.begun) → Shift w w'
  | leave (τ : Turn) : (∀ k, w'.turns.lineAt k = if τ.key = k then (w.turns.lineAt k).erase τ.id else w.turns.lineAt k) →
    w'.begun.Perm (w.begun.erase τ) → Shift w w'

variable {w w' : World} {t : Turns} {q R Q : List Turn} {τ σ : Turn} {id : TaskId} {ts : Tasks Phase} {x : Task Phase}
  {p : Phase}

theorem Phase.turn?_of_queued? (h : p.queued? = some τ) : p.turn? = some τ := by
  cases p with
  | acquiring name σ queued =>
    cases queued with
    | false => cases h
    | true => exact h
  | locking | inside | draining => exact h

theorem begun_sublist (w : World) : w.begun.Sublist w.tickets :=
  (List.sublist_append_right _ _).append (ofTasks_sublist (fun _ _ => Phase.turn?_of_queued?) _)

@[simp] theorem begun_giveBack (w : World) (τ : Turn) : (w.giveBack τ).begun = w.begun := by
  unfold World.begun
  rw [guards_giveBack, (woken_giveBack w τ).1]

@[simp] theorem begun_giveBackIf (w : World) (o : Option Turn) : (w.giveBackIf o).begun = w.begun := by
  cases o with
  | none => rfl
  | some τ => exact begun_giveBack w τ

/-- a cancelled task gives its turn back -/
theorem turns_drop (w : World) (p : Phase) : (w.drop p).turns = (w.giveBackIf p.turn?).turns := by
  obtain ⟨done, h⟩ := drop_eq w p
  rw [h]

theorem begun_drop (w : World) (p : Phase) : (w.drop p).begun = w.begun := by
  obtain ⟨done, h⟩ := drop_eq w p
  rw [h]
  exact begun_giveBackIf w p.turn?

/-! ## One turn apart -/

theorem begun_perm (h : w.tasks.live.get? id = some x) :
    w.begun.Perm (x.phase.queued?.toList ++ (w.guards.values ++ ofTasks Phase.queued? (w.tasks.live.erase id))) := by
  have hperm := (ofTasks_of_get? (f := Phase.queued?) h).append_left w.guards.values
  exact hperm.trans (List.perm_append_comm_assoc _ _ _)

/-- the turn of a task is nobody else's -/
theorem Sound.alone (h : Sound w) (hx : w.tasks.live.get? id = some x) (hτ : x.phase.turn? = some τ) :
    τ ∉ w.shelved ++ ofTasks Phase.turn? (w.tasks.live.erase id) := by
  have hnd := (List.Nodup.of_map _ h.accounted.nodup).perm (tickets_perm hx)
  rw [hτ, Option.toList_some, List.singleton_append, List.nodup_cons] at hnd
  exact hnd.1

theorem Sound.apart (h : Sound w) (hx : w.tasks.live.get? id = some x) (hτ : x.phase.turn? = some τ) :
    τ ∉ w.guards.values ++ ofTasks Phase.queued? (w.tasks.live.erase id) := by
  intro hin
  refine h.alone hx hτ ?_
  rcases List.mem_append.1 hin with hin | hin
  · exact List.mem_append_left _ (List.mem_append_right _ hin)
  · exact List.mem_append_right _ ((ofTasks_sublist (fun _ _ => Phase.turn?_of_queued?) _).subset hin)

/-- without the turn of a task, those of the others remain -/
theorem Sound.erase_begun (h : Sound w) (hx : w.tasks.live.get? id = some x) (hτ : x.phase.turn? = some τ) :
    (w.begun.erase τ).Perm (w.guards.values ++ ofTasks Phase.queued? (w.tasks.live.erase id)) := by
  have hapart := h.apart hx hτ
  have hperm := (begun_perm hx).erase τ
  cases hq : x.phase.queued? with
  | none =>
    rw [hq, Option.toList_none, List.nil_append, List.erase_of_not_mem hapart] at hperm
    exact hperm
  | some σ =>
    obtain rfl : σ = τ := Option.some.inj ((Phase.turn?_of_queued? hq).symm.trans hτ)
    rw [hq, Option.toList_some, List.singleton_append, List.erase_cons_head] at hperm
    exact hperm

/-- the turn of a task is among the live ones -/
theorem mem_tickets (hx : w.tasks.live.get? id = some x) (hτ : x.phase.turn? = some τ) : τ ∈ w.tickets := by
  refine (tickets_perm hx).mem_iff.2 (List.mem_append_left _ ?_)
  rw [hτ]
  exact List.mem_singleton_self τ

/-! ## Sections -/

/-- a task that gives its turn back, if it has one -/
theorem deed_giveBackIf (h : Sound w) (hx : w.tasks.live.get? id = some x) (w₁ : World) (ht : w₁.turns = w.turns) :
    ∃ q, Deed w (w₁.giveBackIf x.phase.turn?).turns q ∧
      q.Perm (w.guards.values ++ ofTasks Phase.queued? (w.tasks.live.erase id)) := by
  cases hτ : x.phase.turn? with
  | none =>
    have hq : x.phase.queued? = none := by
      cases hq : x.phase.queued? with
      | none => rfl
      | some σ =>
        rw [Phase.turn?_of_queued? hq] at hτ
        cases hτ
    refine ⟨w.begun, ?_, ?_⟩
    · rw [World.giveBackIf, ht]
      exact .keep
    · have hperm := begun_perm hx
      rw [hq] at hperm
      exact hperm
  | some τ =>
    refine ⟨w.begun.erase τ, ?_, h.erase_begun hx hτ⟩
    rw [World.giveBackIf, turns_giveBack, ht]
    exact .leave (mem_tickets hx hτ)

theorem deed_advance (h : Sound w) (hx : w.tasks.live.get? id = some x) (ts : Tasks Phase) :
    ∃ q, Deed w (World.advance { w with tasks := ts } x.phase).1.turns q ∧
      q.Perm (((World.advance { w with tasks := ts } x.phase).2.next.bind Phase.queued?).toList ++
        ((World.advance { w with tasks := ts } x.phase).1.guards.values ++
          ofTasks Phase.queued? (w.tasks.live.erase id))) := by
  have hperm := begun_perm hx
  have hback := deed_giveBackIf h hx { w with tasks := ts } rfl
  have hapart := fun τ => h.apart (τ := τ) hx
  have hmem := fun τ => mem_tickets (τ := τ) hx
  generalize ofTasks Phase.queued? (w.tasks.live.erase id) = R at hperm hback hapart
  obtain ⟨p, c⟩ := x
  dsimp only at hperm hback hapart hmem ⊢
  have hkeep : ∃ q, Deed w w.turns q ∧ q.Perm (p.queued?.toList ++ (w.guards.values ++ R)) := ⟨w.begun, .keep, hperm⟩
  cases p with
  | acquiring name τ queued =>
    cases queued with
    | false =>
      have hnew : τ ∉ w.begun := fun hin => hapart τ rfl (hperm.mem_iff.1 hin)
      exact ⟨τ :: w.begun, .join (hmem τ rfl) hnew, hperm.cons τ⟩
    | true =>
      simp only [World.advance]
      split
      · -- the lock is held under the name of the task from now on
        have hvalues := (Table.values_insert w.guards name τ).append_right R
        simp only [Section.next, Option.bind_none, Option.toList_none, List.nil_append, guards_giveBackIf]
        cases hbefore : w.guards.get? name with
        | none =>
          rw [hbefore] at hvalues
          exact ⟨w.begun, .keep, hperm.trans hvalues.symm⟩
        | some ρ =>
          rw [hbefore] at hvalues
          have hρ : ρ ∈ w.begun := by
            have hin := (Table.values_erase w.guards name).subset
            rw [hbefore] at hin
            exact List.mem_append_left _ (hin List.mem_cons_self)
          refine ⟨w.begun.erase ρ, ?_, ?_⟩
          · rw [World.giveBackIf, turns_giveBack]
            exact .leave ((begun_sublist w).subset hρ)
          · have herase := (hperm.trans hvalues.symm).erase ρ
            simpa using herase
      · exact hkeep
  | locking name path word turn =>
    cases turn with
    | none => exact ⟨_, .enlist path.key, hperm.cons _⟩
    | some τ =>
      simp only [World.advance]
      split
      · exact hkeep
      · exact hkeep
  | inside name τ word =>
    simp only [World.advance]
    split
    · exact hkeep
    · have hguards : ((World.say { w with tasks := ts } ("leave " ++ name)).giveBack τ).guards = w.guards := guards_giveBack _ τ
      have hturns : ((World.say { w with tasks := ts } ("leave " ++ name)).giveBack τ).turns = (w.turns.giveBack τ).1 :=
        turns_giveBack _ τ
      simp only [Phase.turn?, World.giveBackIf, turns_giveBack] at hback
      simpa [Section.next, World.finish, World.say, hguards, hturns] using hback
  | draining name path turn =>
    cases turn with
    | none =>
      simp only [World.advance]
      split
      · exact hkeep
      · exact ⟨_, .enlist path.key, hperm.cons _⟩
    | some τ =>
      simp only [World.advance]
      split
      · simpa [Section.next, Phase.turn?, Phase.queued?, World.giveBackIf] using hback
      · exact hkeep

/-- what a move does to the lines, and who has begun to acquire afterwards -/
def Does (w w' : World) : Prop := ∃ q, Deed w w'.turns q ∧ q.Perm w'.begun

theorem does_served (h : Sound w) (hs : Machine.Served w id w') : Does w w' := by
  cases hs with
  | unserved => exact ⟨w.begun, .keep, .refl _⟩
  | @vacant ts hts =>
    exact ⟨w.begun, .keep, .of_eq (congrArg (w.guards.values ++ ofTasks Phase.queued? ·) hts.live.symm)⟩
  | @dropped ts x hts hx =>
    have hbegun : (Machine.drop (Machine.setTasks w { ts with live := ts.live.erase id, floor := none }) id x.phase).begun =
        w.guards.values ++ ofTasks Phase.queued? (ts.live.erase id) := begun_drop _ x.phase
    obtain ⟨q, hd, hq⟩ :=
      deed_giveBackIf h hx (Machine.setTasks w { ts with live := ts.live.erase id, floor := none }) rfl
    refine ⟨q, ?_, ?_⟩
    · rw [← turns_drop] at hd
      exact hd
    · rw [hbegun, hts.live]
      exact hq
  | @advanced ts x hts hx =>
    obtain ⟨q, hd, hq⟩ := deed_advance h hx ts
    have hwoken := (woken_advance { w with tasks := ts } x.phase).1.trans hts.live
    have hrecord := ofTasks_record (f := Phase.queued?) (hwoken ▸ hx) (World.advance { w with tasks := ts } x.phase).2
    rw [hwoken] at hrecord
    exact ⟨q, hd, hq.trans ((List.perm_append_comm_assoc _ _ _).trans (hrecord.append_left _).symm)⟩

/-! ## Commands -/

theorem Sound.reserved_not_begun (h : Sound w) (hτ : τ ∈ w.reserved.values) : τ ∉ w.begun := by
  have hnd := List.Nodup.of_map _ h.accounted.nodup
  unfold World.tickets World.shelved at hnd
  rw [List.append_assoc] at hnd
  have hdisj := (List.nodup_append.1 hnd).2.2
  intro hin
  refine hdisj τ hτ τ ?_ rfl
  rcases List.mem_append.1 hin with hin | hin
  · exact List.mem_append_left _ hin
  · exact List.mem_append_right _ ((ofTasks_sublist (fun _ _ => Phase.turn?_of_queued?) _).subset hin)

theorem mem_values {names : Table String Turn} {name : String} (h : names.get? name = some τ) : τ ∈ names.values :=
  (values_erase_of_get? h).mem_iff.2 List.mem_cons_self

/-- a task that has not queued up -/
theorem does_spawn (h : Sound w) (hp : p.queued? = none) (hturns : w'.turns = w.turns) (hguards : w'.guards = w.guards)
    (htasks : w'.tasks = (w.tasks.spawn p).2) : Does w w' := by
  have hspawn := tickets_spawn (f := Phase.queued?) h.numbered p
  rw [hp] at hspawn
  refine ⟨w.begun, hturns ▸ .keep, ?_⟩
  unfold World.begun
  rw [hguards, htasks]
  exact (hspawn.symm).append_left _

theorem does_cancel (w : World) (id : TaskId) : Does w (w.cancel id) :=
  ⟨w.begun, .keep, ((ofTasks_cancel w.tasks id).append_left _).symm⟩

theorem does_command (h : Sound w) (c : Command) : Does w (w.command c).1 := by
  have hstill : Does w w := ⟨w.begun, .keep, .refl _⟩
  cases c with
  | reserve name p =>
    unfold Does
    rw [command_reserve, begun_giveBackIf]
    cases hbefore : w.reserved.get? name with
    | none => exact ⟨w.begun, .reserve p.key, .refl _⟩
    | some τ =>
      have hτ := mem_values hbefore
      refine ⟨w.begun.erase τ, ?_, .of_eq (List.erase_of_not_mem (h.reserved_not_begun hτ))⟩
      rw [World.giveBackIf, turns_giveBack]
      exact .replace p.key (List.mem_append_left _ (List.mem_append_left _ hτ))
  | acquire name =>
    simp only [World.command]
    split
    · exact hstill
    · rename_i τ hτ
      exact does_spawn h (p := .acquiring name τ false) rfl rfl rfl rfl
  | dropTurn name =>
    simp only [World.command]
    split
    · exact hstill
    · rename_i τ hτ
      have hin := mem_values hτ
      refine ⟨w.begun.erase τ, ?_, ?_⟩
      · rw [turns_giveBack]
        exact .leave (List.mem_append_left _ (List.mem_append_left _ hin))
      · rw [begun_giveBack]
        exact .of_eq (List.erase_of_not_mem (h.reserved_not_begun hin))
  | dropGuard name =>
    simp only [World.command]
    split
    · exact hstill
    · rename_i τ hτ
      refine ⟨w.begun.erase τ, ?_, ?_⟩
      · rw [turns_giveBack]
        exact .leave (List.mem_append_left _ (List.mem_append_right _ (mem_values hτ)))
      · rw [begun_giveBack]
        have hperm := ((values_erase_of_get? hτ).append_right (ofTasks Phase.queued? w.tasks.live)).erase τ
        simpa [World.begun] using hperm
  | abort name =>
    simp only [World.command]
    split
    · exact does_cancel w _
    · split
      · exact does_cancel w _
      · exact hstill
  | withLock name p held => exact does_spawn h (p := .locking name p _ none) rfl rfl rfl rfl
  | finish name =>
    simp only [World.command]
    split
    · exact hstill
    · rename_i word _ _
      have hlive := (woken_wake w.tasks (·.awaitsWord word)).1
      exact ⟨w.begun, .keep, .of_eq (congrArg (w.guards.values ++ ofTasks Phase.queued? ·) hlive.symm)⟩
  | waitIdle name p => exact does_spawn h (p := .draining name p none) rfl rfl rfl rfl
  | isIdle p => exact hstill

theorem does_move (h : Sound w) (m : Move) : Does w (w.move m) := by
  cases m with
  | turn id => exact does_served h (Machine.served_serve w id)
  | command c => exact does_command h c

/-! ## Lines -/

theorem Does.shift (hd : Does w w') (h : Sound w) (hl : w.turns.Lined w.begun) : Shift w w' ∧ w'.turns.Lined w'.begun := by
  have hsub := begun_sublist w
  obtain ⟨q, hd, hq⟩ := hd
  generalize ht : w'.turns = t at hd
  cases hd with
  | keep => exact ⟨.stay (fun k => congrArg (lineAt · k) ht) hq.symm, hl.perm hq⟩
  | reserve k =>
    exact ⟨.stay (fun k' => ht ▸ h.accounted.lineAt_reserve k k') hq.symm, (hl.reserve h.accounted k).perm hq⟩
  | @join τ hτ hnew =>
    exact ⟨.join τ (fun k => ht ▸ h.accounted.lineAt_queueUp hl hτ k) hnew hq.symm,
      (hl.queueUp h.accounted hsub.subset hτ hnew).perm hq⟩
  | enlist k =>
    have hnew : (w.turns.reserve k).1 ∉ w.begun := by
      intro hin
      have hlt := h.accounted.fresh _ (hsub.subset hin)
      rw [reserve_id] at hlt
      exact lt_irrefl _ hlt
    have hl' := hl.reserve h.accounted k
    have ha' := h.accounted.reserve k
    refine ⟨.join (w.turns.reserve k).1 (fun k' => ?_) hnew hq.symm,
      (hl'.queueUp ha' (List.subset_cons_of_subset _ hsub.subset) List.mem_cons_self hnew).perm hq⟩
    rw [ht, ← h.accounted.lineAt_reserve k k']
    exact ha'.lineAt_queueUp hl' List.mem_cons_self k'
  | @leave τ hτ =>
    exact ⟨.leave τ (fun k => ht ▸ h.accounted.lineAt_giveBack hl hsub.subset hτ k) hq.symm,
      (hl.giveBack h.accounted hsub hτ).perm hq⟩
  | @replace τ k hτ =>
    have hl' := hl.reserve h.accounted k
    have ha' := h.accounted.reserve k
    have hsub' : w.begun.Sublist ((w.turns.reserve k).1 :: w.tickets) := hsub.cons _
    refine ⟨.leave τ (fun k' => ?_) hq.symm, (hl'.giveBack ha' hsub' (List.mem_cons_of_mem _ hτ)).perm hq⟩
    rw [ht, ← h.accounted.lineAt_reserve k k']
    exact ha'.lineAt_giveBack hl' hsub'.subset (List.mem_cons_of_mem _ hτ) k'

theorem lined_trace (moves : Nat → Move) (n : Nat) :
    (World.trace {} moves n).turns.Lined (World.trace {} moves n).begun := by
  induction n with
  | zero => exact lined_empty
  | succ n ih => exact ((does_move (sound_trace moves n) (moves n)).shift (sound_trace moves n) ih).2

theorem shift_trace (moves : Nat → Move) (n : Nat) : Shift (World.trace {} moves n) (World.trace {} moves (n + 1)) :=
  ((does_move (sound_trace moves n) (moves n)).shift (sound_trace moves n) (lined_trace moves n)).1

/-! ## Turns not in line -/

/-- the turn that a task has taken up and not queued up with -/
def Phase.unqueued? : Phase → Option Turn
  | .acquiring _ turn queued => if queued then none else some turn
  | .locking .. | .inside .. | .draining .. => none

/-- the live turns with which nobody has begun to acquire -/
def World.unbegun (w : World) : List Turn := w.reserved.values ++ ofTasks Phase.unqueued? w.tasks.live

theorem mem_begun_or_unbegun (hτ : τ ∈ w.tickets) : τ ∈ w.begun ∨ τ ∈ w.unbegun := by
  rcases List.mem_append.1 hτ with hτ | hτ
  · rcases List.mem_append.1 hτ with hτ | hτ
    · exact Or.inr (List.mem_append_left _ hτ)
    · exact Or.inl (List.mem_append_left _ hτ)
  · obtain ⟨id, x, hx, hxτ⟩ := mem_ofTasks.1 hτ
    have hin : ∀ {f}, f x.phase = some τ → τ ∈ ofTasks f w.tasks.live := fun hf => mem_ofTasks.2 ⟨id, x, hx, hf⟩
    cases hp : x.phase with
    | acquiring name σ queued =>
      rw [hp] at hxτ
      cases queued with
      | false => exact Or.inr (List.mem_append_right _ (hin (by rw [hp]; exact hxτ)))
      | true => exact Or.inl (List.mem_append_right _ (hin (by rw [hp]; exact hxτ)))
    | locking | inside | draining =>
      rw [hp] at hxτ
      exact Or.inl (List.mem_append_right _ (hin (by rw [hp]; exact hxτ)))

theorem Sound.not_begun_of_unbegun (h : Sound w) (hτ : τ ∈ w.unbegun) : τ ∉ w.begun := by
  rcases List.mem_append.1 hτ with hτ | hτ
  · exact h.reserved_not_begun hτ
  · obtain ⟨id, x, hget, hxτ⟩ := mem_ofTasks.1 hτ
    have hqueued : x.phase.queued? = none ∧ x.phase.turn? = some τ := by
      cases hp : x.phase with
      | acquiring name σ queued =>
        rw [hp] at hxτ
        cases queued with
        | false => exact ⟨rfl, hxτ⟩
        | true => cases hxτ
      | locking | inside | draining =>
        rw [hp] at hxτ
        cases hxτ
    intro hin
    have hperm := (begun_perm hget).mem_iff.1 hin
    rw [hqueued.1] at hperm
    exact h.apart hget hqueued.2 hperm

@[simp] theorem reserved_giveBack (w : World) (τ : Turn) : (w.giveBack τ).reserved = w.reserved := by
  unfold World.giveBack
  dsimp only
  split <;> rfl

@[simp] theorem unbegun_giveBack (w : World) (τ : Turn) : (w.giveBack τ).unbegun = w.unbegun := by
  unfold World.unbegun
  rw [reserved_giveBack, (woken_giveBack w τ).1]

@[simp] theorem unbegun_giveBackIf (w : World) (o : Option Turn) : (w.giveBackIf o).unbegun = w.unbegun := by
  cases o with
  | none => rfl
  | some τ => exact unbegun_giveBack w τ

theorem unbegun_drop (w : World) (p : Phase) : (w.drop p).unbegun = w.unbegun := by
  obtain ⟨done, h⟩ := drop_eq w p
  rw [h]
  exact unbegun_giveBackIf w p.turn?

theorem unbegun_perm (h : w.tasks.live.get? id = some x) :
    w.unbegun.Perm (x.phase.unqueued?.toList ++ (w.reserved.values ++ ofTasks Phase.unqueued? (w.tasks.live.erase id))) := by
  have hperm := (ofTasks_of_get? (f := Phase.unqueued?) h).append_left w.reserved.values
  exact hperm.trans (List.perm_append_comm_assoc _ _ _)

/-- a section touches no reserved turn, and nobody goes back out of line -/
theorem unqueued_advance (w : World) (p : Phase) :
    (w.advance p).1.reserved = w.reserved ∧ (w.advance p).2.next.bind Phase.unqueued? = none := by
  cases p with
  | acquiring name τ queued =>
    cases queued with
    | false => exact ⟨rfl, rfl⟩
    | true =>
      simp only [World.advance]
      split
      · refine ⟨?_, rfl⟩
        cases w.guards.get? name with
        | none => rfl
        | some ρ => exact reserved_giveBack _ ρ
      · exact ⟨rfl, rfl⟩
  | locking name path word turn =>
    cases turn with
    | none => exact ⟨rfl, rfl⟩
    | some τ =>
      simp only [World.advance]
      split <;> exact ⟨rfl, rfl⟩
  | inside name τ word =>
    simp only [World.advance]
    split
    · exact ⟨rfl, rfl⟩
    · exact ⟨reserved_giveBack (w.say ("leave " ++ name)) τ, rfl⟩
  | draining name path turn =>
    cases turn with
    | none =>
      simp only [World.advance]
      split <;> exact ⟨rfl, rfl⟩
    | some τ =>
      simp only [World.advance]
      split
      · exact ⟨reserved_giveBack w τ, rfl⟩
      · exact ⟨rfl, rfl⟩

theorem unbegun_served (hs : Machine.Served w id w') : w'.unbegun ⊆ w.unbegun := by
  cases hs with
  | unserved => exact List.Subset.refl _
  | @vacant ts hts => exact (List.Perm.of_eq (congrArg (w.reserved.values ++ ofTasks Phase.unqueued? ·) hts.live)).subset
  | @dropped ts x hts hx =>
    have hunbegun : (Machine.drop (Machine.setTasks w { ts with live := ts.live.erase id, floor := none }) id x.phase).unbegun =
        w.reserved.values ++ ofTasks Phase.unqueued? (ts.live.erase id) := unbegun_drop _ x.phase
    rw [hunbegun, hts.live]
    exact fun τ hτ => (unbegun_perm hx).mem_iff.2 (List.mem_append_right _ hτ)
  | @advanced ts x hts hx =>
    obtain ⟨hreserved, hnext⟩ := unqueued_advance { w with tasks := ts } x.phase
    have hwoken := (woken_advance { w with tasks := ts } x.phase).1.trans hts.live
    have hrecord := ofTasks_record (f := Phase.unqueued?) (hwoken ▸ hx) (World.advance { w with tasks := ts } x.phase).2
    rw [hwoken, hnext] at hrecord
    intro τ hτ
    refine (unbegun_perm hx).mem_iff.2 (List.mem_append_right _ ?_)
    rcases List.mem_append.1 hτ with hτ | hτ
    · exact List.mem_append_left _ (hreserved ▸ hτ)
    · exact List.mem_append_right _ (hrecord.mem_iff.1 hτ)

theorem unbegun_spawn (hn : w.tasks.Numbered) (hp : p.unqueued? = none) (w' : World) (hreserved : w'.reserved = w.reserved)
    (htasks : w'.tasks = (w.tasks.spawn p).2) : w'.unbegun ⊆ w.unbegun := by
  have hspawn := tickets_spawn (f := Phase.unqueued?) hn p
  rw [hp] at hspawn
  unfold World.unbegun
  rw [hreserved, htasks]
  exact (hspawn.append_left _).subset

/-- a turn that is not in line afterwards was not in line before, or is new -/
theorem unbegun_command (h : Sound w) (c : Command) (hτ : τ ∈ (w.command c).1.unbegun) :
    τ ∈ w.unbegun ∨ τ.id = w.turns.nextTurn := by
  cases c with
  | reserve name p =>
    rw [command_reserve, unbegun_giveBackIf] at hτ
    rcases List.mem_append.1 hτ with hτ | hτ
    · rcases List.mem_cons.1 ((Table.values_insert _ _ _).subset (List.mem_append_right _ hτ)) with rfl | hτ
      · exact Or.inr (reserve_id _ _)
      · exact Or.inl (List.mem_append_left _ hτ)
    · exact Or.inl (List.mem_append_right _ hτ)
  | acquire name =>
    simp only [World.command] at hτ
    split at hτ
    · exact Or.inl hτ
    · rename_i σ hσ
      refine Or.inl ?_
      have hvalues := values_erase_of_get? hσ
      have hspawn := tickets_spawn (f := Phase.unqueued?) h.numbered (.acquiring name σ false)
      rcases List.mem_append.1 hτ with hτ | hτ
      · exact List.mem_append_left _ (hvalues.mem_iff.2 (List.mem_cons_of_mem _ hτ))
      · rcases List.mem_cons.1 (hspawn.mem_iff.1 hτ) with rfl | hτ
        · exact List.mem_append_left _ (hvalues.mem_iff.2 List.mem_cons_self)
        · exact List.mem_append_right _ hτ
  | dropTurn name =>
    simp only [World.command] at hτ
    split at hτ
    · exact Or.inl hτ
    · rename_i σ hσ
      rw [unbegun_giveBack] at hτ
      rcases List.mem_append.1 hτ with hτ | hτ
      · exact Or.inl (List.mem_append_left _ ((values_erase_of_get? hσ).mem_iff.2 (List.mem_cons_of_mem _ hτ)))
      · exact Or.inl (List.mem_append_right _ hτ)
  | dropGuard name =>
    simp only [World.command] at hτ
    split at hτ
    · exact Or.inl hτ
    · rw [unbegun_giveBack] at hτ
      exact Or.inl hτ
  | abort name =>
    have hcancel : ∀ id, (w.cancel id).unbegun ⊆ w.unbegun := fun id =>
      ((ofTasks_cancel (f := Phase.unqueued?) w.tasks id).append_left w.reserved.values).subset
    simp only [World.command] at hτ
    split at hτ
    · exact Or.inl (hcancel _ hτ)
    · split at hτ
      · exact Or.inl (hcancel _ hτ)
      · exact Or.inl hτ
  | withLock name p held =>
    exact Or.inl (unbegun_spawn h.numbered (p := .locking name p _ none) rfl (w.command (.withLock name p held)).1 rfl rfl hτ)
  | finish name =>
    simp only [World.command] at hτ
    split at hτ
    · exact Or.inl hτ
    · rename_i word _ _
      refine Or.inl ?_
      have hlive := (woken_wake w.tasks (·.awaitsWord word)).1
      rcases List.mem_append.1 hτ with hτ | hτ
      · exact List.mem_append_left _ hτ
      · exact List.mem_append_right _ (hlive ▸ hτ)
  | waitIdle name p =>
    exact Or.inl (unbegun_spawn h.numbered (p := .draining name p none) rfl (w.command (.waitIdle name p)).1 rfl rfl hτ)
  | isIdle p => exact Or.inl hτ

/-- as long as it is live, a turn that has begun to acquire stays in line or granted -/
theorem begun_move (h : Sound w) (m : Move) (hτ : τ ∈ w.begun) (hlive : τ ∈ (w.move m).tickets) : τ ∈ (w.move m).begun := by
  refine (mem_begun_or_unbegun hlive).resolve_right fun hout => ?_
  have hold : τ ∈ w.unbegun ∨ τ.id = w.turns.nextTurn := by
    cases m with
    | turn id => exact Or.inl (unbegun_served (Machine.served_serve w id) hout)
    | command c => exact unbegun_command h c hout
  rcases hold with hold | hid
  · exact h.not_begun_of_unbegun hold hτ
  · exact (h.accounted.fresh τ ((begun_sublist w).subset hτ)).ne hid

/-! ## Runs -/

section Run

variable {moves : Nat → Move} {i j n : Nat}

theorem nextTurn_trace (moves : Nat → Move) (h : i ≤ j) :
    (World.trace {} moves i).turns.nextTurn ≤ (World.trace {} moves j).turns.nextTurn := by
  induction j, h using Nat.le_induction with
  | base => exact le_rfl
  | succ j _ ih => exact ih.trans (orderly_move (sound_trace moves j) (moves j)).dealt.nextTurn_le

/-- a live turn that is not newer than a state was live in it: a turn that is gone does not come back -/
theorem mem_tickets_of_older (h : i ≤ j) (hτ : τ ∈ (World.trace {} moves j).tickets)
    (hid : τ.id < (World.trace {} moves i).turns.nextTurn) : τ ∈ (World.trace {} moves i).tickets := by
  induction j, h using Nat.le_induction with
  | base => exact hτ
  | succ j hij ih =>
    refine ih (((orderly_move (sound_trace moves j) (moves j)).dealt.mem_or_new hτ).resolve_right fun hnew => ?_)
    exact absurd (hid.trans_le (nextTurn_trace moves hij)) (not_lt.2 hnew)

theorem id_lt (moves : Nat → Move) (hτ : τ ∈ (World.trace {} moves n).tickets) :
    τ.id < (World.trace {} moves n).turns.nextTurn :=
  (sound_trace moves n).accounted.fresh τ hτ

/-- a turn that is live at two times is live in between -/
theorem mem_tickets_between (hij : i ≤ j) (hjn : j ≤ n) (hτ : τ ∈ (World.trace {} moves i).tickets)
    (hτ' : τ ∈ (World.trace {} moves n).tickets) : τ ∈ (World.trace {} moves j).tickets :=
  mem_tickets_of_older hjn hτ' ((id_lt moves hτ).trans_le (nextTurn_trace moves hij))

/-- turns of one run with the same number are the same -/
theorem turn_unique (hτ : τ ∈ (World.trace {} moves i).tickets) (hσ : σ ∈ (World.trace {} moves j).tickets)
    (e : τ.id = σ.id) : τ = σ := by
  rcases le_total i j with h | h
  · exact (sound_trace moves i).accounted.eq_of_id hτ (mem_tickets_of_older h hσ (e ▸ id_lt moves hτ)) e
  · exact (sound_trace moves j).accounted.eq_of_id (mem_tickets_of_older h hτ (e ▸ id_lt moves hσ)) hσ e

theorem begun_of_live (h : i ≤ n) (hτ : τ ∈ (World.trace {} moves i).begun) (hlive : τ ∈ (World.trace {} moves n).tickets) :
    τ ∈ (World.trace {} moves n).begun := by
  induction n, h using Nat.le_induction with
  | base => exact hτ
  | succ n hin ih =>
    have hbefore := mem_tickets_between hin (Nat.le_succ n) ((begun_sublist _).subset hτ) hlive
    exact begun_move (sound_trace moves n) (moves n) (ih hbefore) hlive

/-- in move `i` of a run, the turn comes to be one of those that a list holds -/
def Comes (f : World → List Turn) (moves : Nat → Move) (i : Nat) (τ : Turn) : Prop :=
  τ ∉ f (World.trace {} moves i) ∧ τ ∈ f (World.trace {} moves (i + 1))

/-- in move `i` of a run, the turn is reserved -/
abbrev Reserves (moves : Nat → Move) (i : Nat) (τ : Turn) : Prop := Comes World.tickets moves i τ

/-- in move `i` of a run, somebody begins to acquire with the turn -/
abbrev Begins (moves : Nat → Move) (i : Nat) (τ : Turn) : Prop := Comes World.begun moves i τ

/-- in move `i` of a run, the turn is granted -/
abbrev Grants (moves : Nat → Move) (i : Nat) (τ : Turn) : Prop := Comes World.granted moves i τ

/-- what a list holds has come to be in it -/
theorem exists_comes {f : World → List Turn} (h₀ : f {} = []) (hτ : τ ∈ f (World.trace {} moves n)) :
    ∃ i, i < n ∧ Comes f moves i τ := by
  induction n with
  | zero =>
    change τ ∈ f {} at hτ
    rw [h₀] at hτ
    cases hτ
  | succ n ih =>
    by_cases hbefore : τ ∈ f (World.trace {} moves n)
    · obtain ⟨i, hi, hcomes⟩ := ih hbefore
      exact ⟨i, Nat.lt_succ_of_lt hi, hcomes⟩
    · exact ⟨n, Nat.lt_succ_self n, hbefore, hτ⟩

theorem exists_begins (hτ : τ ∈ (World.trace {} moves n).begun) : ∃ i, i < n ∧ Begins moves i τ := exists_comes rfl hτ

theorem Begins.live (h : Begins moves i τ) : τ ∈ (World.trace {} moves (i + 1)).tickets := (begun_sublist _).subset h.2

/-- nobody begins to acquire with a turn twice -/
theorem Begins.unique (hi : Begins moves i τ) (hj : Begins moves j τ) : i = j := by
  have hno : ∀ {i j}, Begins moves i τ → Begins moves j τ → ¬ i < j := by
    intro i j hi hj hlt
    have hbefore := mem_tickets_of_older (Nat.le_succ j) hj.live ((id_lt moves hi.live).trans_le (nextTurn_trace moves hlt))
    exact hj.1 (begun_of_live hlt hi.2 hbefore)
  rcases lt_trichotomy i j with h | h | h
  · exact absurd h (hno hi hj)
  · exact h
  · exact absurd h (hno hj hi)

/-- somebody has begun to acquire with the one turn before the other -/
def Earlier (moves : Nat → Move) (a b : TurnId) : Prop :=
  ∃ i j τ σ, i < j ∧ Begins moves i τ ∧ Begins moves j σ ∧ τ.id = a ∧ σ.id = b

/-- **Every line stands in the order in which its turns have begun to acquire.** -/
theorem earlier_trace (moves : Nat → Move) (n : Nat) (k : Path.Key) :
    ((World.trace {} moves n).turns.lineAt k).Pairwise (Earlier moves) := by
  induction n with
  | zero => exact List.Pairwise.nil
  | succ n ih =>
    cases shift_trace moves n with
    | stay hline _ =>
      rw [hline]
      exact ih
    | join τ hline hnew hbegun =>
      rw [hline]
      split
      · refine List.pairwise_append.2 ⟨ih, List.pairwise_singleton _ _, fun a ha b hb => ?_⟩
        obtain ⟨σ, hσ, -, rfl⟩ := ((lined_trace moves n).mem k a).1 ha
        obtain ⟨i, hi, hbegins⟩ := exists_begins hσ
        exact ⟨i, n, σ, τ, hi, hbegins, ⟨hnew, hbegun.mem_iff.2 List.mem_cons_self⟩, rfl, (List.mem_singleton.1 hb).symm⟩
      · exact ih
    | leave τ hline _ =>
      rw [hline]
      split
      · exact ih.sublist List.erase_sublist
      · exact ih

end Run

end LiveFiles.Session.Locks
