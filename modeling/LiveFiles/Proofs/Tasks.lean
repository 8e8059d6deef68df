/-
What a section of a task can do to the other tasks. A task is seen through its phase (`Tasks.phase?`); the queue and the
floor are not part of that.
- waking and cancelling change no phase (`live_wake`, `phase?_cancel`);
- a new task is one more phase (`phase?_spawn`);
- the end of a section changes the phase of one task (`phase?_record`).
While a task has the floor, the others keep their phases: all that its section does to them is `Tasks.Grows`, which
composes. `Tasks.Spares` says of some of them that they are left to wait unless they are cancelled.
-/
import Mathlib.Tactic
import LiveFiles.Tasks

namespace LiveFiles

/-- the phase in which a task goes on after a section, unless it has ended -/
def Section.next {σ α : Type} : Section σ α → Option σ
  | .go p => some p
  | .wait p => some p
  | .pause p => some p
  | .ended _ => none

namespace Tasks

variable {φ : Type}

/-- the phase of a task, if it has not ended -/
def phase? (ts : Tasks φ) (id : TaskId) : Option φ := (ts.live.get? id).map Task.phase

/-- every number given to a task so far is below the next one -/
def Numbered (ts : Tasks φ) : Prop := ∀ id, ts.next ≤ id → ts.live.get? id = none

theorem phase?_eq_none_iff {ts : Tasks φ} {id : TaskId} : ts.phase? id = none ↔ ts.live.get? id = none := by
  simp [phase?]

theorem Numbered.lt {ts : Tasks φ} (h : ts.Numbered) {id : TaskId} {p : φ} (hp : ts.phase? id = some p) :
    id < ts.next := by
  by_contra hn
  rw [phase?_eq_none_iff.2 (h id (not_lt.1 hn))] at hp
  cases hp

/-! ## The queue and the floor -/

theorem live_enqueue (ts : Tasks φ) (id : TaskId) : (ts.enqueue id).live = ts.live := by
  unfold enqueue
  split <;> rfl

theorem next_enqueue (ts : Tasks φ) (id : TaskId) : (ts.enqueue id).next = ts.next := by
  unfold enqueue
  split <;> rfl

theorem floor_enqueue (ts : Tasks φ) (id : TaskId) : (ts.enqueue id).floor = ts.floor := by
  unfold enqueue
  split <;> rfl

theorem ready_enqueue (ts : Tasks φ) (id : TaskId) : ts.ready ⊆ (ts.enqueue id).ready := by
  unfold enqueue
  split
  · exact List.Subset.refl _
  · exact List.subset_append_left _ _

/-- a task that has been put in the queue stands there, unless it has the floor -/
theorem mem_ready_enqueue (ts : Tasks φ) (id : TaskId) :
    id ∈ (ts.enqueue id).ready ∨ (ts.enqueue id).floor = some id := by
  unfold enqueue
  split
  · rename_i h
    simpa using h
  · simp

theorem of_mem_ready_enqueue {ts : Tasks φ} {id x : TaskId} (h : x ∈ (ts.enqueue id).ready) : x ∈ ts.ready ∨ x = id := by
  unfold enqueue at h
  split at h
  · exact Or.inl h
  · simpa using h

/-! ## Growth -/

/-- What a section may do to the tasks besides going on with its own: others that can go on stand in the queue, and there
may be new ones, all in phases of which `P` holds. -/
structure Grows (P : φ → Prop) (ts ts' : Tasks φ) : Prop where
  phase : ∀ id, id < ts.next → ts'.phase? id = ts.phase? id
  fresh : ts.Numbered → ∀ id p, ts.next ≤ id → ts'.phase? id = some p → P p ∧ id ∈ ts'.ready
  numbered : ts.Numbered → ts'.Numbered
  next : ts.next ≤ ts'.next
  floor : ts'.floor = ts.floor
  ready : ts.ready ⊆ ts'.ready

variable {P : φ → Prop} {ts ts' ts'' : Tasks φ}

/-- changes of the queue alone -/
theorem Grows.of_live (hl : ∀ id, ts'.phase? id = ts.phase? id) (hn : ts'.next = ts.next) (hf : ts'.floor = ts.floor)
    (hr : ts.ready ⊆ ts'.ready) : Grows P ts ts' := by
  refine ⟨fun id _ => hl id, fun h id p hid hp => ?_, fun h id hid => ?_, hn.ge, hf, hr⟩
  · rw [hl, phase?, h id hid] at hp
    cases hp
  · rw [← phase?_eq_none_iff, hl, phase?_eq_none_iff]
    exact h id (hn ▸ hid)

theorem Grows.refl (ts : Tasks φ) : Grows P ts ts := .of_live (fun _ => rfl) rfl rfl (List.Subset.refl _)

theorem Grows.trans (h : Grows P ts ts') (h' : Grows P ts' ts'') : Grows P ts ts'' where
  phase id hid := (h'.phase id (lt_of_lt_of_le hid h.next)).trans (h.phase id hid)
  fresh hn id p hid hp := by
    by_cases hlt : id < ts'.next
    · rw [h'.phase id hlt] at hp
      exact ⟨(h.fresh hn id p hid hp).1, h'.ready (h.fresh hn id p hid hp).2⟩
    · exact h'.fresh (h.numbered hn) id p (not_lt.1 hlt) hp
  numbered hn := h'.numbered (h.numbered hn)
  next := h.next.trans h'.next
  floor := h'.floor.trans h.floor
  ready := List.Subset.trans h.ready h'.ready

/-- a task that was there before is in its phase; the others are new -/
theorem Grows.phase_or (h : Grows P ts ts') (hn : ts.Numbered) (id : TaskId) :
    ts'.phase? id = ts.phase? id ∨ ts.phase? id = none ∧ ∀ p ∈ ts'.phase? id, P p := by
  by_cases hlt : id < ts.next
  · exact Or.inl (h.phase id hlt)
  · exact Or.inr ⟨phase?_eq_none_iff.2 (hn id (not_lt.1 hlt)), fun p hp => (h.fresh hn id p (not_lt.1 hlt) hp).1⟩

theorem grows_enqueue (ts : Tasks φ) (id : TaskId) : Grows P ts (ts.enqueue id) :=
  .of_live (fun _ => by rw [phase?, live_enqueue, phase?]) (next_enqueue ts id) (floor_enqueue ts id)
    (ready_enqueue ts id)

theorem grows_foldl_enqueue (rows : List (TaskId × Task φ)) (ts : Tasks φ) :
    Grows P ts (rows.foldl (fun ts r => ts.enqueue r.1) ts) := by
  induction rows generalizing ts with
  | nil => exact .refl ts
  | cons r rows ih => exact (grows_enqueue ts r.1).trans (ih _)

theorem grows_wake (ts : Tasks φ) (chosen : φ → Bool) : Grows P ts (ts.wake chosen) := grows_foldl_enqueue _ ts

/-- whoever is woken stands in the queue, unless it has the floor -/
theorem mem_ready_wake {ts : Tasks φ} (chosen : φ → Bool) {id : TaskId} {p : φ} (hp : ts.phase? id = some p)
    (hc : chosen p = true) : id ∈ (ts.wake chosen).ready ∨ (ts.wake chosen).floor = some id := by
  obtain ⟨t, ht, rfl⟩ := Option.map_eq_some_iff.1 hp
  have hmem : (id, t) ∈ ts.live.rows.filter fun r => chosen r.2.phase :=
    List.mem_filter.2 ⟨Table.get?_eq_some_iff.1 ht, hc⟩
  unfold wake
  generalize ts.live.rows.filter _ = rows at hmem
  clear ht hp hc
  induction rows generalizing ts with
  | nil => cases hmem
  | cons r rows ih =>
    rw [List.foldl_cons]
    rcases List.mem_cons.1 hmem with rfl | hmem
    · have hg := grows_foldl_enqueue (P := fun _ => True) rows (ts.enqueue id)
      exact (mem_ready_enqueue ts id).imp (fun h => hg.ready h) hg.floor.trans
    · exact ih hmem

/-- only tasks that have not ended are woken -/
theorem ready_wake {ts : Tasks φ} {chosen : φ → Bool} {id : TaskId} (h : id ∈ (ts.wake chosen).ready) :
    id ∈ ts.ready ∨ (ts.live.get? id).isSome := by
  have hrows : ∀ r ∈ ts.live.rows.filter fun r => chosen r.2.phase, (ts.live.get? r.1).isSome := fun r hr => by
    rw [Table.get?_eq_some_iff.2 (List.mem_of_mem_filter hr)]
    rfl
  unfold wake at h
  generalize ts.live.rows.filter _ = rows at h hrows
  generalize ts.live = live at hrows
  induction rows generalizing ts with
  | nil => exact Or.inl h
  | cons r rows ih =>
    rcases ih h fun r' hr' => hrows r' (List.mem_cons_of_mem _ hr') with hin | hlive
    · rcases of_mem_ready_enqueue hin with hin | rfl
      · exact Or.inl hin
      · exact Or.inr (hrows r List.mem_cons_self)
    · exact Or.inr hlive

theorem live_wake (ts : Tasks φ) (chosen : φ → Bool) : (ts.wake chosen).live = ts.live := by
  unfold wake
  generalize ts.live.rows.filter _ = rows
  induction rows generalizing ts with
  | nil => rfl
  | cons r rows ih => exact (ih (ts.enqueue r.1)).trans (live_enqueue ts r.1)

theorem next_wake (ts : Tasks φ) (chosen : φ → Bool) : (ts.wake chosen).next = ts.next := by
  unfold wake
  generalize ts.live.rows.filter _ = rows
  induction rows generalizing ts with
  | nil => rfl
  | cons r rows ih => exact (ih (ts.enqueue r.1)).trans (next_enqueue ts r.1)

theorem phase?_cancel (ts : Tasks φ) (id id' : TaskId) : (ts.cancel id).phase? id' = ts.phase? id' := by
  unfold cancel
  split
  · rw [phase?, live_enqueue, phase?, Table.get?_modify]
    split
    · simp [Function.comp_def]
    · rfl
  · rfl

theorem grows_cancel (ts : Tasks φ) (id : TaskId) : Grows P ts (ts.cancel id) := by
  refine .of_live (phase?_cancel ts id) ?_ ?_ ?_ <;> unfold cancel <;> split
  · exact next_enqueue _ id
  · rfl
  · exact floor_enqueue _ id
  · rfl
  · exact ready_enqueue { ts with live := ts.live.modify id fun t => { t with cancelled := true } } id
  · exact List.Subset.refl _

theorem phase?_spawn (ts : Tasks φ) (p : φ) (id : TaskId) :
    (ts.spawn p).2.phase? id = if ts.next = id then some p else ts.phase? id := by
  simp only [phase?, spawn, Table.get?_insert]
  split <;> rfl

theorem grows_spawn (ts : Tasks φ) {p : φ} (hp : P p) : Grows P ts (ts.spawn p).2 where
  phase id hid := by rw [phase?_spawn, if_neg hid.ne']
  fresh hn id q hid hq := by
    rw [phase?_spawn] at hq
    split at hq
    · rename_i h
      cases hq
      exact ⟨hp, by simp [spawn, h]⟩
    · rw [phase?, hn id hid] at hq
      cases hq
  numbered hn id hid := by
    have hlt : ts.next < id := hid
    rw [← phase?_eq_none_iff, phase?_spawn, if_neg hlt.ne, phase?_eq_none_iff]
    exact hn id hlt.le
  next := Nat.le_succ _
  floor := rfl
  ready := List.subset_append_left _ _

/-! ## Who is left alone -/

def Cancelled (ts : Tasks φ) (id : TaskId) : Prop := ∃ t, ts.live.get? id = some t ∧ t.cancelled = true

/-- whoever is in a phase of which `Q` holds gets no new place in the queue unless it is cancelled -/
structure Spares (Q : φ → Prop) (ts ts' : Tasks φ) : Prop where
  cancelled : ts.Numbered → ∀ id, ts.Cancelled id → ts'.Cancelled id
  ready : ts.Numbered → ∀ id p, ts.phase? id = some p → Q p → ts'.ready.count id ≤ ts.ready.count id ∨ ts'.Cancelled id

variable {Q : φ → Prop}

theorem Spares.refl (ts : Tasks φ) : Spares Q ts ts := ⟨fun _ _ h => h, fun _ _ _ _ _ => Or.inl le_rfl⟩

theorem Spares.mono {Q' : φ → Prop} (h : Spares Q ts ts') (hQ : ∀ p, Q' p → Q p) : Spares Q' ts ts' :=
  ⟨h.cancelled, fun hn id p hp hq => h.ready hn id p hp (hQ p hq)⟩

theorem Spares.trans (hg : Grows P ts ts') (h : Spares Q ts ts') (h' : Spares Q ts' ts'') : Spares Q ts ts'' where
  cancelled hn id hc := h'.cancelled (hg.numbered hn) id (h.cancelled hn id hc)
  ready hn id p hp hq := by
    have hp' : ts'.phase? id = some p := (hg.phase id (hn.lt hp)).trans hp
    rcases h'.ready (hg.numbered hn) id p hp' hq with hle | hc
    · exact (h.ready hn id p hp hq).imp hle.trans (h'.cancelled (hg.numbered hn) id)
    · exact Or.inr hc

theorem count_enqueue (ts : Tasks φ) {id x : TaskId} (h : id ≠ x) : (ts.enqueue id).ready.count x = ts.ready.count x := by
  unfold enqueue
  split
  · rfl
  · rw [List.count_append, List.count_singleton, if_neg (by simpa using h), Nat.add_zero]

/-- whoever is not woken keeps its places in the queue -/
theorem count_wake {ts : Tasks φ} {chosen : φ → Bool} {x : TaskId} (h : ∀ p, ts.phase? x = some p → chosen p = false) :
    (ts.wake chosen).ready.count x = ts.ready.count x := by
  have hrows : ∀ r ∈ ts.live.rows.filter fun r => chosen r.2.phase, r.1 ≠ x := by
    rintro r hr rfl
    have hchosen := (List.mem_filter.1 hr).2
    have hphase : ts.phase? r.1 = some r.2.phase := by
      rw [phase?, Table.get?_eq_some_iff.2 (List.mem_of_mem_filter hr)]
      rfl
    cases (h _ hphase).symm.trans hchosen
  unfold wake
  generalize ts.live.rows.filter _ = rows at hrows
  clear h
  induction rows generalizing ts with
  | nil => rfl
  | cons r rows ih =>
    exact (ih fun r' hr' => hrows r' (List.mem_cons_of_mem _ hr')).trans (count_enqueue ts (hrows r List.mem_cons_self))

theorem spares_wake (ts : Tasks φ) (chosen : φ → Bool) (h : ∀ p, Q p → chosen p = false) : Spares Q ts (ts.wake chosen) where
  cancelled _ id hc := by rwa [Cancelled, live_wake]
  ready _ id p hp hq := by
    refine Or.inl (count_wake fun p' hp' => ?_).le
    cases hp.symm.trans hp'
    exact h p hq

theorem live_cancel (ts : Tasks φ) (id id' : TaskId) :
    (ts.cancel id).live.get? id' = (ts.live.get? id').map fun t => if id = id' then { t with cancelled := true } else t := by
  unfold cancel
  split
  · rw [live_enqueue, Table.get?_modify]
    split
    · rfl
    · rw [Option.map_id']
  · rename_i hno
    by_cases h : id = id'
    · subst h
      rw [Option.not_isSome_iff_eq_none.1 hno, Option.map_none]
    · simp [h]

theorem spares_cancel (ts : Tasks φ) (id : TaskId) : Spares Q ts (ts.cancel id) where
  cancelled _ id' := by
    rintro ⟨t, ht, hc⟩
    refine ⟨_, by rw [live_cancel, ht]; rfl, ?_⟩
    split
    · rfl
    · exact hc
  ready _ id' p hp _ := by
    by_cases h : id = id'
    · obtain ⟨t, ht, -⟩ := Option.map_eq_some_iff.1 hp
      exact Or.inr ⟨_, by rw [live_cancel, ht]; rfl, congrArg Task.cancelled (if_pos h)⟩
    · refine Or.inl ?_
      unfold cancel
      split
      · exact (count_enqueue _ h).le
      · exact le_rfl

theorem spares_spawn (ts : Tasks φ) (p : φ) : Spares Q ts (ts.spawn p).2 where
  cancelled hn id := by
    rintro ⟨t, ht, hc⟩
    refine ⟨t, ?_, hc⟩
    have hne : ts.next ≠ id := by
      rintro rfl
      rw [hn ts.next le_rfl] at ht
      cases ht
    rw [spawn, Table.get?_insert, if_neg hne, ht]
  ready hn id q hq _ := by
    refine Or.inl (le_of_eq ?_)
    rw [spawn, List.count_append, List.count_singleton, if_neg (by simpa using (hn.lt hq).ne'), Nat.add_zero]

/-! ## The end of a section -/

theorem phase?_record (ts : Tasks φ) (id id' : TaskId) (s : Section φ Unit) :
    (ts.record id s).phase? id' = if id = id' then (ts.phase? id').bind fun _ => s.next else ts.phase? id' := by
  cases s <;> simp only [phase?, record, Table.get?_modify, Table.get?_erase, Section.next] <;>
    split <;> cases ts.live.get? id' <;> rfl

theorem next_record (ts : Tasks φ) (id : TaskId) (s : Section φ Unit) : (ts.record id s).next = ts.next := by
  cases s <;> rfl

theorem ready_record (ts : Tasks φ) (id : TaskId) (s : Section φ Unit) : ts.ready ⊆ (ts.record id s).ready := by
  cases s with
  | pause _ => exact List.subset_append_left _ _
  | _ => exact List.Subset.refl _

theorem numbered_record {ts : Tasks φ} (h : ts.Numbered) (id : TaskId) (s : Section φ Unit) :
    (ts.record id s).Numbered := by
  intro id' hid
  rw [next_record] at hid
  rw [← phase?_eq_none_iff, phase?_record, phase?, h id' hid]
  split <;> rfl

end Tasks

end LiveFiles
