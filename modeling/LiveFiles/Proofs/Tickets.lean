/-
Sessions with turns at paths, in which everything goes on in any order. Whoever has a live turn is a name (a reserved
turn, or a lock held for nobody's task) or a task; `World.tickets` lists the live turns, `World.granted` those that
somebody has been told to hold. A move is `Orderly` if it does with turns what can be done with them (`Turns.Dealt`) and
grants only turns that hold their lock.
- every command and every section of every task is orderly (`orderly_command`, `orderly_serve`);
- so all that is said in the books is right after any moves (`sound_trace`);
- **`turns_exclude_and_account`**: at most one turn is granted at a path, all live turns at a path have the same lock, a
  slot counts the live turns of its path and is never asked to give back one that it does not count, a path is idle
  exactly if it has no live turn, and the number of active paths is that of the paths with a live turn.
-/
import LiveFiles.Proofs.Holdings
import LiveFiles.Proofs.Ledger
import LiveFiles.Proofs.Serving
import LiveFiles.Session.Run

namespace LiveFiles.Session.Locks

open LiveFiles.Turns

/-! ## Live turns -/

/-- the turn that a task has -/
def Phase.turn? : Phase → Option Turn
  | .acquiring _ turn _ => some turn
  | .locking _ _ _ turn => turn
  | .inside _ turn _ => some turn
  | .draining _ _ turn => turn

/-- the turn with which a task works alone at a path -/
def Phase.guard? : Phase → Option Turn
  | .inside _ turn _ => some turn
  | .acquiring .. | .locking .. | .draining .. => none

/-- what the phases of the tasks hold, task by task -/
def ofTasks (f : Phase → Option Turn) (live : Table TaskId (Task Phase)) : List Turn :=
  live.values.filterMap fun t => f t.phase

/-- turns that no task has -/
def World.shelved (w : World) : List Turn := w.reserved.values ++ w.guards.values

/-- all turns that have been reserved and not given back: not taken up yet, in line, or holding the lock -/
def World.tickets (w : World) : List Turn := w.shelved ++ ofTasks Phase.turn? w.tasks.live

/-- the turns that have been granted and not given back -/
def World.granted (w : World) : List Turn := w.guards.values ++ ofTasks Phase.guard? w.tasks.live

variable {w w' : World} {t : Turns} {live l l' R : List Turn} {τ : Turn} {id : TaskId} {f : Phase → Option Turn}
  {ts : Tasks Phase} {x : Task Phase} {p : Phase}

theorem Phase.turn?_of_guard? (h : p.guard? = some τ) : p.turn? = some τ := by
  cases p with
  | inside => exact h
  | acquiring | locking | draining => cases h

theorem ofTasks_of_get? {tasks : Table TaskId (Task Phase)} (h : tasks.get? id = some x) :
    (ofTasks f tasks).Perm ((f x.phase).toList ++ ofTasks f (tasks.erase id)) := Tasks.gather_of_get? h

theorem ofTasks_record (h : ts.live.get? id = some x) (s : Section Phase Unit) :
    (ofTasks f (ts.record id s).live).Perm ((s.next.bind f).toList ++ ofTasks f (ts.live.erase id)) :=
  Tasks.gather_record h s

theorem ofTasks_cancel (ts : Tasks Phase) (id : TaskId) : (ofTasks f (ts.cancel id).live).Perm (ofTasks f ts.live) :=
  Tasks.gather_cancel ts id

theorem mem_ofTasks {tasks : Table TaskId (Task Phase)} :
    τ ∈ ofTasks f tasks ↔ ∃ id x, tasks.get? id = some x ∧ f x.phase = some τ := Tasks.mem_gather

/-- what all tasks that hold something of one kind hold of another, too -/
theorem ofTasks_sublist {g : Phase → Option Turn} (h : ∀ p τ, f p = some τ → g p = some τ)
    (live : Table TaskId (Task Phase)) : (ofTasks f live).Sublist (ofTasks g live) := by
  unfold ofTasks
  induction live.values with
  | nil => exact .refl _
  | cons x rest ih =>
    cases hf : f x.phase with
    | none =>
      have hskip : (x :: rest).filterMap (fun t => f t.phase) = rest.filterMap fun t => f t.phase :=
        List.filterMap_cons_none hf
      rw [hskip]
      exact ih.trans ((List.sublist_cons_self _ _).filterMap _)
    | some τ =>
      simp only [List.filterMap_cons, hf, h _ _ hf]
      exact ih.cons_cons τ

/-- the granted turns are some of the live ones -/
theorem granted_sublist (w : World) : w.granted.Sublist w.tickets :=
  (List.sublist_append_right _ _).append (ofTasks_sublist (fun _ _ => Phase.turn?_of_guard?) _)

/-! ## Giving back -/

@[simp] theorem shelved_giveBack (w : World) (τ : Turn) : (w.giveBack τ).shelved = w.shelved := by
  unfold World.giveBack
  dsimp only
  split <;> rfl

@[simp] theorem guards_giveBack (w : World) (τ : Turn) : (w.giveBack τ).guards = w.guards := by
  unfold World.giveBack
  dsimp only
  split <;> rfl

@[simp] theorem turns_giveBack (w : World) (τ : Turn) : (w.giveBack τ).turns = (w.turns.giveBack τ).1 := by
  unfold World.giveBack
  dsimp only
  split <;> rfl

/-- tasks have been woken at most -/
def Woken (ts ts' : Tasks Phase) : Prop := ts'.live = ts.live ∧ (ts.Numbered → ts'.Numbered)

theorem Woken.refl (ts : Tasks Phase) : Woken ts ts := ⟨rfl, id⟩

theorem woken_wake (ts : Tasks Phase) (chosen : Phase → Bool) : Woken ts (ts.wake chosen) :=
  ⟨Tasks.live_wake ts chosen, (Tasks.grows_wake (P := fun _ => True) ts chosen).numbered⟩

theorem woken_giveBack (w : World) (τ : Turn) : Woken w.tasks (w.giveBack τ).tasks := by
  unfold World.giveBack
  dsimp only
  split
  · exact woken_wake _ _
  · exact .refl _

theorem command_reserve (w : World) (name : String) (p : Path) : (w.command (.reserve name p)).1 = World.giveBackIf
    { w with turns := (w.turns.reserve p.key).2, reserved := w.reserved.insert name (w.turns.reserve p.key).1 }
    (w.reserved.get? name) := rfl

@[simp] theorem shelved_giveBackIf (w : World) (o : Option Turn) : (w.giveBackIf o).shelved = w.shelved := by
  cases o with
  | none => rfl
  | some τ => exact shelved_giveBack w τ

@[simp] theorem guards_giveBackIf (w : World) (o : Option Turn) : (w.giveBackIf o).guards = w.guards := by
  cases o with
  | none => rfl
  | some τ => exact guards_giveBack w τ

theorem woken_giveBackIf (w : World) (o : Option Turn) : Woken w.tasks (w.giveBackIf o).tasks := by
  cases o with
  | none => exact .refl _
  | some τ => exact woken_giveBack w τ

/-- a turn that is among the live ones is given back, if there is one -/
theorem dealt_giveBackIf {o : Option Turn} (hd : Dealt t live w.turns l) (h : t.Accounted live)
    (hl : l.Perm (o.toList ++ l')) : Dealt t live (w.giveBackIf o).turns l' := by
  cases o with
  | none => exact .reorder hl hd
  | some τ =>
    have hτ : τ ∈ l := hl.mem_iff.2 List.mem_cons_self
    have hrest : (l.erase τ).Perm l' := by
      have herase := hl.erase τ
      simpa using herase
    rw [World.giveBackIf, turns_giveBack]
    exact .reorder hrest (hd.back h hτ)

/-! ## What a section does with turns -/

/-- `R` are the turns of the other tasks. -/
theorem dealt_advance (p : Phase) (h : w.turns.Accounted (p.turn?.toList ++ (w.shelved ++ R))) :
    Dealt w.turns (p.turn?.toList ++ (w.shelved ++ R)) (w.advance p).1.turns
      (((w.advance p).2.next.bind Phase.turn?).toList ++ ((w.advance p).1.shelved ++ R)) := by
  have hnone : Dealt w.turns (p.turn?.toList ++ (w.shelved ++ R)) w.turns (p.turn?.toList ++ (w.shelved ++ R)) := .nothing
  cases p with
  | acquiring name τ queued =>
    cases queued with
    | false => exact .queueUp List.mem_cons_self hnone
    | true =>
      simp only [World.advance]
      split
      · -- the turn is shelved under its name, and the one that was there before is given back
        have hperm := Table.values_insert w.guards name τ
        simp only [Section.next, Option.bind_none, Option.toList_none, List.nil_append, shelved_giveBackIf]
        refine dealt_giveBackIf hnone h ?_
        rw [List.perm_iff_count] at hperm ⊢
        intro σ
        have hσ := hperm σ
        simp only [Phase.turn?, Option.toList_some, World.shelved, List.count_append, List.count_cons, List.count_nil] at hσ ⊢
        omega
      · exact hnone
  | locking name p word turn =>
    cases turn with
    | none => exact .queueUp List.mem_cons_self (.reserve p.key hnone)
    | some τ =>
      simp only [World.advance]
      split
      · exact hnone
      · exact hnone
  | inside name τ word =>
    simp only [World.advance]
    split
    · exact hnone
    · have hback : Dealt w.turns (τ :: (w.shelved ++ R)) ((w.say ("leave " ++ name)).giveBackIf (some τ)).turns (w.shelved ++ R) :=
        dealt_giveBackIf (w := w.say ("leave " ++ name)) hnone h (.refl _)
      have hshelved : ((w.say ("leave " ++ name)).giveBack τ).shelved = w.shelved := shelved_giveBack _ τ
      rw [← hshelved] at hback ⊢
      exact hback
  | draining name p turn =>
    cases turn with
    | none =>
      simp only [World.advance]
      split
      · exact hnone
      · exact .queueUp List.mem_cons_self (.reserve p.key hnone)
    | some τ =>
      simp only [World.advance]
      split
      · simp only [Section.next, Option.bind_some, Phase.turn?, Option.toList_none, List.nil_append, shelved_giveBack]
        exact dealt_giveBackIf (o := some τ) hnone h (.refl _)
      · exact hnone

/-- a section leaves the other tasks in their phases -/
theorem woken_advance (w : World) (p : Phase) : Woken w.tasks (w.advance p).1.tasks := by
  cases p with
  | acquiring name τ queued =>
    cases queued with
    | false => exact .refl _
    | true =>
      simp only [World.advance]
      split
      · exact woken_giveBackIf _ _
      · exact .refl _
  | locking name p word turn =>
    cases turn with
    | none => exact .refl _
    | some τ =>
      simp only [World.advance]
      split <;> exact .refl _
  | inside name τ word =>
    simp only [World.advance]
    split
    · exact .refl _
    · exact woken_giveBack (w.say ("leave " ++ name)) τ
  | draining name p turn =>
    cases turn with
    | none =>
      simp only [World.advance]
      split <;> exact .refl _
    | some τ =>
      simp only [World.advance]
      split
      · exact woken_giveBack w τ
      · exact .refl _

/-- what a section grants holds its lock, or has been granted before -/
theorem granted_advance (w : World) (p : Phase)
    (hτ : τ ∈ ((w.advance p).2.next.bind Phase.guard?).toList ++ (w.advance p).1.guards.values) :
    τ ∈ p.guard?.toList ++ w.guards.values ∨ p.turn? = some τ ∧ w.turns.holds τ = true := by
  cases p with
  | acquiring name σ queued =>
    cases queued with
    | false => exact Or.inl hτ
    | true =>
      simp only [World.advance] at hτ
      split at hτ
      · rename_i hheld
        simp only [Section.next, Option.bind_none, Option.toList_none, List.nil_append, guards_giveBackIf] at hτ
        have hin := (Table.values_insert w.guards name σ).subset (List.mem_append_right _ hτ)
        rcases List.mem_cons.1 hin with rfl | hin
        · exact Or.inr ⟨rfl, hheld⟩
        · exact Or.inl hin
      · exact Or.inl hτ
  | locking name p word turn =>
    cases turn with
    | none => exact Or.inl hτ
    | some σ =>
      simp only [World.advance] at hτ
      split at hτ
      · rename_i hheld
        rcases List.mem_cons.1 hτ with rfl | hτ
        · exact Or.inr ⟨rfl, hheld⟩
        · exact Or.inl hτ
      · exact Or.inl hτ
  | inside name σ word =>
    simp only [World.advance] at hτ
    split at hτ
    · exact Or.inl hτ
    · have hguards : ((w.say ("leave " ++ name)).giveBack σ).guards = w.guards := guards_giveBack _ σ
      refine Or.inl (List.mem_cons_of_mem _ ?_)
      rw [← hguards]
      exact hτ
  | draining name p turn =>
    cases turn with
    | none =>
      simp only [World.advance] at hτ
      split at hτ <;> exact Or.inl hτ
    | some σ =>
      simp only [World.advance] at hτ
      split at hτ
      · simp only [Section.next, Option.bind_some, guards_giveBack] at hτ
        exact Or.inl hτ
      · exact Or.inl hτ

/-! ## Moves -/

/-- A move does with the turns what can be done with them, and grants only live turns that hold their lock. -/
structure Orderly (w w' : World) : Prop where
  dealt : Dealt w.turns w.tickets w'.turns w'.tickets
  granted : ∀ τ ∈ w'.granted, τ ∈ w.granted ∨ τ ∈ w.tickets ∧ w.turns.holds τ = true
  numbered : w'.tasks.Numbered

/-- what holds after any moves -/
structure Sound (w : World) : Prop where
  accounted : w.turns.Accounted w.tickets
  holds : ∀ τ ∈ w.granted, w.turns.holds τ = true
  numbered : w.tasks.Numbered

theorem Sound.orderly (h : Sound w) (hm : Orderly w w') : Sound w' where
  accounted := hm.dealt.accounted h.accounted
  holds τ hτ := by
    have hlive : τ ∈ w'.tickets := (granted_sublist w').subset hτ
    rcases hm.granted τ hτ with hτ' | ⟨hin, hheld⟩
    · exact hm.dealt.holds h.accounted ((granted_sublist w).subset hτ') (h.holds τ hτ') hlive
    · exact hm.dealt.holds h.accounted hin hheld hlive
  numbered := hm.numbered

/-- moves that leave turns and tickets as they are -/
theorem Orderly.still (ht : w'.turns = w.turns) (hl : w'.tickets.Perm w.tickets)
    (hg : w'.granted ⊆ w.granted) (hn : w'.tasks.Numbered) : Orderly w w' where
  dealt := by
    rw [ht]
    exact .reorder hl.symm .nothing
  granted τ hτ := Or.inl (hg hτ)
  numbered := hn

/-! ### Sections -/

/-- the turn of one task, and those of the others -/
theorem tickets_perm (h : w.tasks.live.get? id = some x) :
    w.tickets.Perm (x.phase.turn?.toList ++ (w.shelved ++ ofTasks Phase.turn? (w.tasks.live.erase id))) := by
  have hperm := (ofTasks_of_get? (f := Phase.turn?) h).append_left w.shelved
  exact hperm.trans (List.perm_append_comm_assoc _ _ _)

/-- a cancelled task gives its turn back -/
theorem drop_eq (w : World) (p : Phase) : ∃ done, w.drop p = { w.giveBackIf p.turn? with done := done } := by
  cases p <;> exact ⟨_, rfl⟩

theorem orderly_drop (h : Sound w) (hx : w.tasks.live.get? id = some x) (hlive : ts.live = w.tasks.live.erase id)
    (hn : ts.Numbered) : Orderly w (World.drop { w with tasks := ts } x.phase) := by
  obtain ⟨done, hdrop⟩ := drop_eq { w with tasks := ts } x.phase
  have hwoken := woken_giveBackIf { w with tasks := ts } x.phase.turn?
  have hshelved : (World.giveBackIf { w with tasks := ts } x.phase.turn?).shelved = w.shelved := shelved_giveBackIf _ _
  have hguards : (World.giveBackIf { w with tasks := ts } x.phase.turn?).guards = w.guards := guards_giveBackIf _ _
  rw [hdrop]
  constructor
  case dealt =>
    have hd := dealt_giveBackIf (w := { w with tasks := ts }) .nothing h.accounted (tickets_perm hx)
    rw [← hlive, ← hshelved, ← hwoken.1] at hd
    exact hd
  case granted =>
    intro τ hτ
    refine Or.inl ?_
    change τ ∈ (World.giveBackIf _ _).guards.values ++ ofTasks _ (World.giveBackIf _ _).tasks.live at hτ
    rw [hwoken.1, hguards, hlive] at hτ
    rcases List.mem_append.1 hτ with hτ | hτ
    · exact List.mem_append_left _ hτ
    · exact List.mem_append_right _ ((ofTasks_of_get? hx).mem_iff.2 (List.mem_append_right _ hτ))
  case numbered => exact hwoken.2 hn

theorem orderly_advance (h : Sound w) (hx : w.tasks.live.get? id = some x) (hlive : ts.live = w.tasks.live)
    (hn : ts.Numbered) :
    Orderly w { (World.advance { w with tasks := ts } x.phase).1 with
      tasks := (World.advance { w with tasks := ts } x.phase).1.tasks.record id
        (World.advance { w with tasks := ts } x.phase).2 } := by
  have hwoken := woken_advance { w with tasks := ts } x.phase
  have hd := dealt_advance (w := { w with tasks := ts }) x.phase (h.accounted.perm (tickets_perm hx))
  have hgranted := fun τ => granted_advance (τ := τ) { w with tasks := ts } x.phase
  generalize World.advance { w with tasks := ts } x.phase = r at hwoken hd hgranted
  obtain ⟨w₁, s⟩ := r
  have hx₁ : w₁.tasks.live.get? id = some x := by rw [hwoken.1, hlive, hx]
  have hrest : w₁.tasks.live.erase id = w.tasks.live.erase id := by rw [hwoken.1, hlive]
  have hrecord := fun f => ofTasks_record (f := f) hx₁ s
  simp only [hrest] at hrecord
  constructor
  case dealt =>
    refine .reorder ?_ (.trans (.reorder (tickets_perm hx) .nothing) hd)
    exact ((List.perm_append_comm_assoc _ _ _).trans ((hrecord Phase.turn?).append_left _).symm)
  case granted =>
    intro τ hτ
    -- a turn granted afterwards is that of the task, or one under a name, or one of another task
    have hcases : τ ∈ (s.next.bind Phase.guard?).toList ++ w₁.guards.values ∨
        τ ∈ ofTasks Phase.guard? (w.tasks.live.erase id) := by
      rcases List.mem_append.1 hτ with hτ | hτ
      · exact Or.inl (List.mem_append_right _ hτ)
      · exact (List.mem_append.1 ((hrecord Phase.guard?).mem_iff.1 hτ)).imp_left (List.mem_append_left _)
    have hold : ∀ σ, σ ∈ x.phase.guard?.toList ∨ σ ∈ ofTasks Phase.guard? (w.tasks.live.erase id) → σ ∈ w.granted :=
      fun σ hσ => List.mem_append_right _ ((ofTasks_of_get? hx).mem_iff.2 (List.mem_append.2 hσ))
    rcases hcases with hτ | hτ
    · rcases hgranted τ hτ with hτ | ⟨hown, hheld⟩
      · rcases List.mem_append.1 hτ with hτ | hτ
        · exact Or.inl (hold τ (Or.inl hτ))
        · exact Or.inl (List.mem_append_left _ hτ)
      · refine Or.inr ⟨(tickets_perm hx).mem_iff.2 (List.mem_append_left _ ?_), hheld⟩
        rw [hown]
        exact List.mem_singleton_self τ
    · exact Or.inl (hold τ (Or.inr hτ))
  case numbered => exact Tasks.numbered_record (hwoken.2 hn) id s

instance : LawfulMachine World := ⟨fun _ _ => rfl, fun _ _ _ => rfl, fun _ => rfl⟩

theorem orderly_serve (h : Sound w) (id : TaskId) : Orderly w (Machine.serve w id) := by
  have hserved := Machine.served_serve w id
  have hn : ∀ {ts : Tasks Phase}, Tasks.Floored w.tasks id ts → ts.Numbered := fun hts i hi => by
    rw [hts.live]
    exact h.numbered i (hts.next ▸ hi)
  generalize Machine.serve w id = w' at hserved
  cases hserved with
  | unserved => exact .still rfl (.refl _) (List.Subset.refl _) h.numbered
  | @vacant ts hts =>
    have hnumbered : ts.Numbered := hn hts
    refine .still rfl (.of_eq ?_) (List.Perm.of_eq ?_).subset hnumbered
    · exact congrArg (w.shelved ++ ofTasks Phase.turn? ·) hts.live
    · exact congrArg (w.guards.values ++ ofTasks Phase.guard? ·) hts.live
  | @dropped ts x hts hx =>
    refine orderly_drop h hx (congrArg (Table.erase · id) hts.live) fun i hi => ?_
    rw [Table.get?_erase, hn hts i hi, ite_self]
  | advanced hts hx => exact orderly_advance h hx hts.live (hn hts)

/-! ### Commands -/

/-- turns of new tasks are those that their phases have -/
theorem tickets_spawn (hn : ts.Numbered) (p : Phase) : (ofTasks f (ts.spawn p).2.live).Perm ((f p).toList ++ ofTasks f ts.live) :=
  Tasks.gather_spawn hn p

theorem numbered_spawn (hn : ts.Numbered) (p : Phase) : (ts.spawn p).2.Numbered :=
  (Tasks.grows_spawn (P := fun _ => True) ts trivial).numbered hn

theorem numbered_cancel (hn : ts.Numbered) (id : TaskId) : (ts.cancel id).Numbered :=
  (Tasks.grows_cancel (P := fun _ => True) ts id).numbered hn

theorem orderly_cancel (h : Sound w) (id : TaskId) : Orderly w (w.cancel id) :=
  .still rfl ((ofTasks_cancel w.tasks id).append_left _)
    (((ofTasks_cancel w.tasks id).append_left _).subset) (numbered_cancel h.numbered id)

/-- a task that has no turn yet -/
theorem orderly_spawn (h : Sound w) (hp : p.turn? = none) (hts : ts = (w.tasks.spawn p).2) (hturns : w'.turns = w.turns)
    (hshelved : w'.shelved = w.shelved) (hguards : w'.guards = w.guards) (htasks : w'.tasks = ts) : Orderly w w' := by
  have hguard : p.guard? = none := by
    cases hg : p.guard? with
    | none => rfl
    | some τ =>
      rw [Phase.turn?_of_guard? hg] at hp
      cases hp
  have hspawn : ∀ f : Phase → Option Turn, f p = none → (ofTasks f w'.tasks.live).Perm (ofTasks f w.tasks.live) := by
    intro f hf
    have hperm := tickets_spawn (f := f) h.numbered p
    rwa [hf, ← hts, ← htasks] at hperm
  refine .still hturns ?_ ?_ ?_
  · unfold World.tickets
    rw [hshelved]
    exact (hspawn _ hp).append_left _
  · unfold World.granted
    rw [hguards]
    exact ((hspawn _ hguard).append_left _).subset
  · rw [htasks, hts]
    exact numbered_spawn h.numbered p

/-- a shelved turn is given back -/
theorem orderly_shelf (w' : World) (h : Sound w) {o : Option Turn} (hd : Dealt w.turns w.tickets w'.turns l)
    (hl : l.Perm (o.toList ++ w'.tickets)) (hg : w'.granted ⊆ w.granted) (hn : w'.tasks.Numbered) :
    Orderly w (w'.giveBackIf o) := by
  have hwoken := woken_giveBackIf w' o
  constructor
  case dealt =>
    have hback := dealt_giveBackIf hd h.accounted hl
    unfold World.tickets at *
    rw [shelved_giveBackIf, hwoken.1]
    exact hback
  case granted =>
    intro τ hτ
    unfold World.granted at hτ
    rw [guards_giveBackIf, hwoken.1] at hτ
    exact Or.inl (hg hτ)
  case numbered => exact hwoken.2 hn

/-- a turn taken off a shelf -/
theorem values_erase_of_get? {names : Table String Turn} {name : String} (h : names.get? name = some τ) :
    names.values.Perm (τ :: (names.erase name).values) := by
  have hperm := Table.values_erase names name
  rw [h] at hperm
  exact hperm.symm

theorem orderly_command (h : Sound w) (c : Command) : Orderly w (w.command c).1 := by
  have hstill : Orderly w w := .still rfl (.refl _) (List.Subset.refl _) h.numbered
  cases c with
  | reserve name p =>
    refine orderly_shelf _ h (.reserve p.key .nothing) ?_ (List.Subset.refl _) h.numbered
    have hperm := Table.values_insert w.reserved name (w.turns.reserve p.key).1
    have hall : ((w.turns.reserve p.key).1 :: (w.shelved ++ ofTasks Phase.turn? w.tasks.live)).Perm
        ((w.reserved.get? name).toList ++ ((w.reserved.insert name (w.turns.reserve p.key).1).values ++ w.guards.values ++
          ofTasks Phase.turn? w.tasks.live)) := by
      simpa [World.shelved] using (hperm.append_right (w.guards.values ++ ofTasks Phase.turn? w.tasks.live)).symm
    exact hall
  | acquire name =>
    simp only [World.command]
    split
    · exact hstill
    · rename_i τ hτ
      refine .still rfl ?_ ?_ (numbered_spawn h.numbered _)
      · have hspawn := tickets_spawn (f := Phase.turn?) h.numbered (.acquiring name τ false)
        have hperm := values_erase_of_get? hτ
        rw [List.perm_iff_count] at *
        intro σ
        have hσ := hspawn σ
        have hσ' := hperm σ
        simp only [World.tickets, World.shelved, World.spawn, Phase.turn?, Option.toList_some, List.count_append,
          List.count_cons, List.count_nil] at hσ hσ' ⊢
        omega
      · exact ((tickets_spawn (f := Phase.guard?) h.numbered (.acquiring name τ false)).append_left _).subset
  | dropTurn name =>
    simp only [World.command]
    split
    · exact hstill
    · rename_i τ hτ
      have hperm := (values_erase_of_get? hτ).append_right (w.guards.values ++ ofTasks Phase.turn? w.tasks.live)
      refine orderly_shelf { w with reserved := w.reserved.erase name } (o := some τ) h .nothing ?_
        (List.Subset.refl _) h.numbered
      simpa [World.tickets, World.shelved] using hperm
  | dropGuard name =>
    simp only [World.command]
    split
    · exact hstill
    · rename_i τ hτ
      have hperm := values_erase_of_get? hτ
      refine orderly_shelf { w with guards := w.guards.erase name } (o := some τ) h .nothing ?_ ?_ h.numbered
      · have hall := (hperm.append_left w.reserved.values).trans List.perm_middle
        simpa [World.tickets, World.shelved] using hall.append_right (ofTasks Phase.turn? w.tasks.live)
      · exact List.append_subset.2 ⟨fun σ hσ => List.mem_append_left _ (hperm.mem_iff.2 (List.mem_cons_of_mem _ hσ)),
          List.subset_append_right _ _⟩
  | abort name =>
    simp only [World.command]
    split
    · exact orderly_cancel h _
    · split
      · exact orderly_cancel h _
      · exact hstill
  | withLock name p held => exact orderly_spawn h rfl rfl rfl rfl rfl rfl
  | finish name =>
    simp only [World.command]
    split
    · exact hstill
    · rename_i word _ _
      have hwoken := woken_wake w.tasks (·.awaitsWord word)
      refine .still rfl ?_ ?_ (hwoken.2 h.numbered)
      · exact .of_eq (congrArg (w.shelved ++ ofTasks Phase.turn? ·) hwoken.1)
      · exact (List.Perm.of_eq (congrArg (w.guards.values ++ ofTasks Phase.guard? ·) hwoken.1)).subset
  | waitIdle name p => exact orderly_spawn h rfl rfl rfl rfl rfl rfl
  | isIdle p => exact hstill

/-! ## Runs -/

theorem sound_empty : Sound {} where
  accounted := accounted_empty
  holds τ hτ := by cases hτ
  numbered _ _ := rfl

theorem orderly_move (h : Sound w) (m : Move) : Orderly w (w.move m) := by
  cases m with
  | turn id => exact orderly_serve h id
  | command c => exact orderly_command h c

theorem sound_trace (moves : Nat → Move) (n : Nat) : Sound (World.trace {} moves n) := by
  induction n with
  | zero => exact sound_empty
  | succ n ih => exact ih.orderly (orderly_move ih (moves n))

/-- the turns that have been granted at a path are at most one -/
theorem Sound.granted_le_one (h : Sound w) (k : Path.Key) : (among w.granted k).length ≤ 1 := by
  have hnodup : (among w.granted k).Nodup :=
    ((List.Nodup.of_map _ h.accounted.nodup).sublist (granted_sublist w)).filter _
  have hone : ∀ τ ∈ among w.granted k, ∀ σ ∈ among w.granted k, τ = σ := by
    intro τ hτ σ hσ
    obtain ⟨hτ, hτk⟩ := mem_among.1 hτ
    obtain ⟨hσ, hσk⟩ := mem_among.1 hσ
    exact h.accounted.holds_unique ((granted_sublist w).subset hτ) ((granted_sublist w).subset hσ) (hτk.trans hσk.symm)
      (h.holds τ hτ) (h.holds σ hσ)
  cases hlist : among w.granted k with
  | nil => exact Nat.zero_le 1
  | cons τ rest =>
    cases rest with
    | nil => exact le_rfl
    | cons σ rest =>
      rw [hlist] at hnodup hone
      obtain rfl : τ = σ := hone τ (by simp) σ (by simp)
      simp at hnodup

/-- **Exclusion and accounting.** Turns are reserved, taken up, given back and cancelled by name, operations and waits
come, go and are cancelled, and the tasks carry out their sections in any order. After any moves: at most one turn is
granted at a path, and it is a live one that holds the lock; the live turns at a path all have one lock, that of no other
path; the slot of a path counts the live turns there; a path is idle exactly if it has none; the active paths are those
that have one. And in every move a turn is given back only while it is live, when its slot counts it. -/
theorem turns_exclude_and_account (moves : Nat → Move) (n : Nat) :
    let w := World.trace {} moves n
    let w' := World.trace {} moves (n + 1)
    (∀ k, (among w.granted k).length ≤ 1) ∧
    (∀ τ ∈ w.granted, τ ∈ w.tickets ∧ w.turns.holds τ = true) ∧
    (∀ τ ∈ w.tickets, ∀ σ ∈ w.tickets, τ.lock = σ.lock ↔ τ.key = σ.key) ∧
    (∀ τ ∈ w.tickets, ∃ s, w.turns.slots.get? τ.key = some s ∧ s.lock = τ.lock) ∧
    (∀ k, ((w.turns.slots.get? k).map Slot.users).getD 0 = (among w.tickets k).length) ∧
    Dealt w.turns w.tickets w'.turns w'.tickets ∧
    (∀ k, w.turns.isIdle k = true ↔ among w.tickets k = []) ∧
    w.turns.activePaths = (w.tickets.map Turn.key).dedup.length := by
  intro w w'
  have h : Sound w := sound_trace moves n
  have hmove : Orderly w w' := orderly_move h (moves n)
  refine ⟨h.granted_le_one, ?_, ?_, ?_, ?_, ?_, ?_, ?_⟩
  · intro τ hτ
    exact ⟨(granted_sublist w).subset hτ, h.holds τ hτ⟩
  · intro τ hτ σ hσ
    exact h.accounted.same_lock hτ hσ
  · exact h.accounted.slot
  · exact h.accounted.users_eq
  · exact hmove.dealt
  · intro k
    rw [h.accounted.isIdle_iff, List.eq_nil_iff_forall_not_mem]
    simp only [mem_among, not_and]
  · exact h.accounted.activePaths_eq

end LiveFiles.Session.Locks
