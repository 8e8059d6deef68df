/-
What it is to serve a task, and what those that cannot go on wait for. `Machine.Served` has one constructor for each way
in which a task is served (`served_serve`): it cannot go on, it is gone, it is cancelled and lets go of what it holds, or
it carries out a section.

`Tasks.Waiting Q` says that every task that can neither go on nor has the floor is in a phase of which `Q` holds. What is
done to the tasks keeps it if it wakes those that `Q` is no longer true of (`Waiting.wake`, `Waiting.spawn`,
`Waiting.cancel`, `Waiting.record`); where nobody can go on, `Q` holds of all (`Waiting.of_quiet`). `Tasks.Every P` says
that every task is in a phase of which `P` holds. Serving a task keeps these if its sections do (`waiting_served`,
`every_served`).
-/
import LiveFiles.Proofs.Tasks
import LiveFiles.Schedule

namespace LiveFiles

/-- putting tasks into a shared state changes nothing but its tasks -/
class LawfulMachine (W : Type) {φ : Type} [Machine W φ] : Prop where
  tasks_setTasks : ∀ (w : W) (ts : Tasks φ), Machine.tasks (Machine.setTasks w ts) = ts
  setTasks_setTasks : ∀ (w : W) (ts ts' : Tasks φ), Machine.setTasks (Machine.setTasks w ts) ts' = Machine.setTasks w ts'
  setTasks_tasks : ∀ w : W, Machine.setTasks w (Machine.tasks w) = w

namespace Tasks

variable {φ : Type} {ts ts' : Tasks φ} {Q Q' : φ → Prop} {id : TaskId}

/-- the tasks once one of them has got the floor -/
structure Floored (ts : Tasks φ) (id : TaskId) (ts' : Tasks φ) : Prop where
  live : ts'.live = ts.live
  next : ts'.next = ts.next
  floor : ts'.floor = some id
  ready : ∀ j, j ≠ id → j ∈ ts.ready → j ∈ ts'.ready
  alone : ∀ j, ts.floor = some j → j = id

/-- the task stands in the queue or has the floor -/
def Runnable (ts : Tasks φ) (id : TaskId) : Prop := id ∈ ts.ready ∨ ts.floor = some id

/-- every task that cannot go on is in a phase of which `Q` holds -/
def Waiting (Q : φ → Prop) (ts : Tasks φ) : Prop := ∀ id t, ts.live.get? id = some t → ts.Runnable id ∨ Q t.phase

theorem Waiting.of_quiet (h : ts.Waiting Q) (hq : ts.quiet = true) {t : Task φ} (ht : ts.live.get? id = some t) :
    Q t.phase := by
  simp only [quiet, Bool.and_eq_true, List.isEmpty_iff, Option.isNone_iff_eq_none] at hq
  rcases h id t ht with (hr | hf) | h
  · rw [hq.1] at hr
    cases hr
  · rw [hq.2] at hf
    cases hf
  · exact h

theorem Waiting.mono (h : ts.Waiting Q)
    (hQ : ∀ id t, ts.live.get? id = some t → ¬ ts.Runnable id → Q t.phase → Q' t.phase) : ts.Waiting Q' := by
  intro id t ht
  by_cases hr : ts.Runnable id
  · exact Or.inl hr
  · exact Or.inr (hQ id t ht hr ((h id t ht).resolve_left hr))

/-- those that `Q'` is not true of are woken -/
theorem Waiting.wake (h : ts.Waiting Q) (chosen : φ → Bool)
    (hQ : ∀ id t, ts.live.get? id = some t → ¬ ts.Runnable id → Q t.phase → chosen t.phase = true ∨ Q' t.phase) :
    (ts.wake chosen).Waiting Q' := by
  have hg : Grows (fun _ => True) ts (ts.wake chosen) := grows_wake ts chosen
  intro id t ht
  rw [live_wake] at ht
  by_cases hr : ts.Runnable id
  · exact Or.inl (hr.imp (fun hin => hg.ready hin) hg.floor.trans)
  · rcases hQ id t ht hr ((h id t ht).resolve_left hr) with hc | hq'
    · exact Or.inl (mem_ready_wake chosen (by rw [phase?, ht]; rfl) hc)
    · exact Or.inr hq'

theorem Waiting.spawn (h : ts.Waiting Q) (p : φ) : (ts.spawn p).2.Waiting Q := by
  intro id t ht
  simp only [Tasks.spawn, Table.get?_insert] at ht
  split at ht
  · rename_i e
    exact Or.inl (Or.inl (by simp [Tasks.spawn, e]))
  · exact (h id t ht).imp_left (Or.imp_left fun hin => List.mem_append_left _ hin)

theorem Waiting.cancel (h : ts.Waiting Q) (id : TaskId) : (ts.cancel id).Waiting Q := by
  have hg : Grows (fun _ => True) ts (ts.cancel id) := grows_cancel ts id
  intro j t ht
  have hphase := phase?_cancel ts id j
  rw [phase?, ht, Option.map_some] at hphase
  obtain ⟨u, hu, hp⟩ := Option.map_eq_some_iff.1 hphase.symm
  rw [← hp]
  exact (h j u hu).imp_left (Or.imp (fun hin => hg.ready hin) hg.floor.trans)

/-- A section of a task comes to its end. The others waited while it had the floor; if it waits now, then for what `Q`
says. -/
theorem Waiting.record (h : ts.Waiting Q) (hf : ts.floor = some id) (s : Section φ Unit) (hs : ∀ p, s = .wait p → Q p) :
    (ts.record id s).Waiting Q := by
  intro j t ht
  by_cases hj : j = id
  · subst hj
    cases s with
    | go p => exact Or.inl (Or.inr hf)
    | wait p =>
      simp only [Tasks.record, Table.get?_modify] at ht
      obtain ⟨u, -, rfl⟩ := Option.map_eq_some_iff.1 ht
      exact Or.inr (hs p rfl)
    | pause p => exact Or.inl (Or.inl (by simp [Tasks.record]))
    | ended =>
      simp only [Tasks.record, Table.get?_erase] at ht
      cases ht
  · have hlive : ts.live.get? j = some t := by
      cases s <;> simpa [Tasks.record, Table.get?_modify, Table.get?_erase, Ne.symm hj] using ht
    rcases h j t hlive with (hin | hfloor) | hq
    · exact Or.inl (Or.inl (ready_record ts id s hin))
    · exact absurd (Option.some.inj (hfloor.symm.trans hf)) hj
    · exact Or.inr hq

/-- the task that gets the floor may be waiting no longer -/
theorem Waiting.floored (h : ts.Waiting Q) (hts : Floored ts id ts') : ts'.Waiting Q := by
  intro j t ht
  by_cases hj : j = id
  · exact Or.inl (Or.inr (hj ▸ hts.floor))
  · rcases h j t (hts.live ▸ ht) with (hin | hfloor) | hq
    · exact Or.inl (Or.inl (hts.ready j hj hin))
    · exact absurd (hts.alone j hfloor) hj
    · exact Or.inr hq

/-- the task that has the floor is gone -/
theorem Waiting.gone (h : ts.Waiting Q) (hf : ts.floor = some id) :
    ({ ts with live := ts.live.erase id, floor := none } : Tasks φ).Waiting Q := h.record hf (.ended ()) (by simp)

theorem Waiting.vacant (h : ts.Waiting Q) (hf : ts.floor = some id) (hno : ts.live.get? id = none) :
    ({ ts with floor := none } : Tasks φ).Waiting Q := by
  intro j t ht
  rcases h j t ht with (hin | hfloor) | hq
  · exact Or.inl (Or.inl hin)
  · obtain rfl : id = j := Option.some.inj (hf.symm.trans hfloor)
    rw [show ts.live.get? id = some t from ht] at hno
    cases hno
  · exact Or.inr hq

/-- every task is in a phase of which `P` holds -/
def Every (P : φ → Prop) (ts : Tasks φ) : Prop := ∀ id t, ts.live.get? id = some t → P t.phase

section Every

variable {P : φ → Prop}

theorem every_empty : Every P {} := fun _ _ h => by cases h

theorem Every.of_live (h : ts.Every P) (hl : ts'.live = ts.live) : ts'.Every P := fun id t ht => h id t (hl ▸ ht)

theorem Every.spawn (h : ts.Every P) {p : φ} (hp : P p) : (ts.spawn p).2.Every P := by
  intro id t ht
  simp only [Tasks.spawn, Table.get?_insert] at ht
  split at ht
  · cases ht
    exact hp
  · exact h id t ht

theorem Every.cancel (h : ts.Every P) (id : TaskId) : (ts.cancel id).Every P := by
  intro j t ht
  have hphase := phase?_cancel ts id j
  rw [phase?, ht, Option.map_some] at hphase
  obtain ⟨u, hu, hp⟩ := Option.map_eq_some_iff.1 hphase.symm
  rw [← hp]
  exact h j u hu

theorem Every.erase (h : ts.Every P) (id : TaskId) (hl : ts'.live = ts.live.erase id) : ts'.Every P := by
  intro j t ht
  rw [hl, Table.get?_erase] at ht
  split at ht
  · cases ht
  · exact h j t ht

theorem Every.record (h : ts.Every P) (id : TaskId) (s : Section φ Unit) (hs : ∀ p, s.next = some p → P p) :
    (ts.record id s).Every P := by
  intro j t ht
  have hphase := phase?_record ts id j s
  rw [phase?, ht, Option.map_some] at hphase
  split at hphase
  · obtain ⟨-, -, hnext⟩ := Option.bind_eq_some_iff.1 hphase.symm
    exact hs _ hnext
  · obtain ⟨u, hu, hp⟩ := Option.map_eq_some_iff.1 hphase.symm
    rw [← hp]
    exact h j u hu

end Every

end Tasks

namespace Machine

variable {W φ : Type} [Machine W φ]

/-- how a task is served -/
inductive Served (w : W) (id : TaskId) : W → Prop
  | unserved : canGo w id = false → Served w id w
  | vacant {ts : Tasks φ} : Tasks.Floored (tasks w) id ts → (tasks w).live.get? id = none →
    Served w id (setTasks w { ts with floor := none })
  | dropped {ts : Tasks φ} {x : Task φ} : Tasks.Floored (tasks w) id ts → (tasks w).live.get? id = some x →
    x.cancelled = true → Served w id (drop (setTasks w { ts with live := ts.live.erase id, floor := none }) id x.phase)
  | advanced {ts : Tasks φ} {x : Task φ} : Tasks.Floored (tasks w) id ts → (tasks w).live.get? id = some x →
    x.cancelled = false → Served w id (setTasks (advance (setTasks w ts) id x.phase).1
      ((tasks (advance (setTasks w ts) id x.phase).1).record id (advance (setTasks w ts) id x.phase).2))

variable [LawfulMachine W]

open LawfulMachine

theorem floored_floorTo {w : W} {id : TaskId} (h : canGo w id = true) :
    ∃ ts, floorTo w id = setTasks w ts ∧ Tasks.Floored (tasks w) id ts := by
  unfold canGo at h
  unfold floorTo
  cases hf : (tasks w).floor with
  | some j =>
    obtain rfl : j = id := by simpa [hf] using h
    exact ⟨tasks w, (setTasks_tasks w).symm, rfl, rfl, hf, fun _ _ hj => hj,
      fun i hi => (Option.some.inj (hf.symm.trans hi)).symm⟩
  | none =>
    refine ⟨_, rfl, rfl, rfl, rfl, fun j hj hin => (List.mem_erase_of_ne hj).2 hin, fun j hj => ?_⟩
    rw [hf] at hj
    cases hj

theorem served_serve (w : W) (id : TaskId) : Served w id (serve w id) := by
  unfold serve
  split
  · rename_i hgo
    obtain ⟨ts, hfloor, hts⟩ := floored_floorTo hgo
    rw [hfloor]
    unfold runSection
    simp only [tasks_setTasks, setTasks_setTasks]
    split
    · rename_i hx
      exact .vacant hts (hts.live ▸ hx)
    · rename_i x hx
      rw [hts.live] at hx
      split
      · rename_i hc
        exact .dropped hts hx hc
      · rename_i hc
        exact .advanced hts hx (Bool.eq_false_iff.2 hc)
  · rename_i hgo
    exact .unserved (Bool.eq_false_iff.2 hgo)

/-- Serving a task leaves every task in a phase of which `P` holds if its section, and what it lets go of when it is
cancelled, do. -/
theorem every_served {P : φ → Prop} {w w' : W} {id : TaskId} (h : (tasks w).Every P) (hs : Served w id w')
    (hdrop : ∀ (w : W) p, (tasks w).Every P → (tasks (drop w id p)).Every P)
    (hadvance : ∀ (w : W) p, (tasks w).Every P → P p → (tasks (advance w id p).1).Every P ∧
      ∀ q, (advance w id p).2.next = some q → P q) : (tasks w').Every P := by
  cases hs with
  | unserved => exact h
  | vacant hts =>
    rw [tasks_setTasks]
    exact h.of_live hts.live
  | dropped hts =>
    refine hdrop _ _ ?_
    rw [tasks_setTasks]
    exact h.erase id (congrArg (Table.erase · id) hts.live)
  | @advanced ts x hts hx =>
    have hall : (tasks (setTasks w ts)).Every P := by
      rw [tasks_setTasks]
      exact h.of_live hts.live
    obtain ⟨hothers, hnext⟩ := hadvance _ _ hall (h id x hx)
    rw [tasks_setTasks]
    exact hothers.record id _ hnext

/-- How a section of the task that has the floor ends: the others wait for what `Q` says, and so does this one if it waits
now. -/
structure Ends (Q : W → φ → Prop) (w : W) (id : TaskId) (s : Section φ Unit) : Prop where
  others : (tasks w).Waiting (Q w)
  floor : (tasks w).floor = some id
  own : ∀ p, s = .wait p → Q w p

/-- After a task has been served, whoever cannot go on waits for what `Q` says, if that is so after every section and when
somebody lets go of what it holds. -/
theorem waiting_served {Q : W → φ → Prop} {w w' : W} {id : TaskId} (hQ : ∀ w ts p, Q w p → Q (setTasks w ts) p)
    (h : (tasks w).Waiting (Q w)) (hs : Served w id w')
    (hdrop : ∀ (w : W) p, (tasks w).Waiting (Q w) → (tasks (drop w id p)).Waiting (Q (drop w id p)))
    (hadvance : ∀ ts x, Tasks.Floored (tasks w) id ts → (tasks w).live.get? id = some x →
      (tasks (setTasks w ts)).Waiting (Q (setTasks w ts)) →
        Ends Q (advance (setTasks w ts) id x.phase).1 id (advance (setTasks w ts) id x.phase).2) :
    (tasks w').Waiting (Q w') := by
  have hset : ∀ {w : W} {ts : Tasks φ}, ts.Waiting (Q w) → (tasks (setTasks w ts)).Waiting (Q (setTasks w ts)) := by
    intro w ts h
    rw [tasks_setTasks]
    exact h.mono fun _ _ _ _ => hQ w ts _
  cases hs with
  | unserved => exact h
  | vacant hts hno => exact hset (Tasks.Waiting.vacant (h.floored hts) hts.floor (hts.live ▸ hno))
  | dropped hts => exact hdrop _ _ (hset ((h.floored hts).gone hts.floor))
  | @advanced ts x hts hx =>
    have hends := hadvance ts x hts hx (hset (h.floored hts))
    exact hset (hends.others.record hends.floor _ hends.own)

/-- serving a task leaves the other tasks in their phases -/
theorem phase?_served {w w' : W} {id j : TaskId} (hs : Served w id w') (hj : j ≠ id) (hlt : j < (tasks w).next)
    (hdrop : ∀ (w : W) p, Tasks.Grows (fun _ => True) (tasks w) (tasks (drop w id p)))
    (hadvance : ∀ (w : W) p, Tasks.Grows (fun _ => True) (tasks w) (tasks (advance w id p).1)) :
    (tasks w').phase? j = (tasks w).phase? j := by
  cases hs with
  | unserved => rfl
  | vacant hts =>
    rw [tasks_setTasks]
    exact congrArg (fun live => (live.get? j).map Task.phase) hts.live
  | @dropped ts x hts =>
    have hg := hdrop (setTasks w { ts with live := ts.live.erase id, floor := none }) x.phase
    rw [tasks_setTasks] at hg
    rw [hg.phase j (hts.next ▸ hlt), Tasks.phase?, Table.get?_erase, if_neg (Ne.symm hj), hts.live, Tasks.phase?]
  | @advanced ts x hts =>
    have hg := hadvance (setTasks w ts) x.phase
    rw [tasks_setTasks] at hg
    rw [tasks_setTasks, Tasks.phase?_record, if_neg (Ne.symm hj), hg.phase j (hts.next ▸ hlt), Tasks.phase?, hts.live,
      Tasks.phase?]

theorem numbered_served {w w' : W} {id : TaskId} (h : (tasks w).Numbered) (hs : Served w id w')
    (hdrop : ∀ (w : W) p, Tasks.Grows (fun _ => True) (tasks w) (tasks (drop w id p)))
    (hadvance : ∀ (w : W) p, Tasks.Grows (fun _ => True) (tasks w) (tasks (advance w id p).1)) :
    (tasks w').Numbered := by
  have hof : ∀ {ts ts' : Tasks φ}, ts.Numbered → ts'.next = ts.next → (∀ j, ts.live.get? j = none → ts'.live.get? j = none) →
      ts'.Numbered := fun hn hnext hlive j hj => hlive j (hn j (hnext ▸ hj))
  cases hs with
  | unserved => exact h
  | vacant hts =>
    rw [tasks_setTasks]
    exact hof h hts.next fun j hj => hts.live ▸ hj
  | @dropped ts x hts =>
    refine (hdrop _ _).numbered ?_
    rw [tasks_setTasks]
    refine hof h hts.next fun j hj => ?_
    rw [Table.get?_erase, hts.live, hj, ite_self]
  | @advanced ts x hts =>
    rw [tasks_setTasks]
    refine Tasks.numbered_record ((hadvance _ _).numbered ?_) id _
    rw [tasks_setTasks]
    exact hof h hts.next fun j hj => hts.live ▸ hj

end Machine

end LiveFiles
