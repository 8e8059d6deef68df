/-
What the tasks of a session hold. `Tasks.gather f` lists, task by task, what the phases of the live tasks hold, as `f`
reads it off a phase. Up to the order of the list
- what one task holds can be taken apart (`gather_of_get?`);
- a new task adds what its phase holds (`gather_spawn`), and the end of a section replaces what its task held
  (`gather_record`);
- cancelling changes nothing (`gather_cancel`).
-/
import LiveFiles.Proofs.Tasks

namespace LiveFiles.Table

variable {κ α β : Type} [DecidableEq κ] {t : Table κ α} {k : κ} {a b : α}

/-! ## The rows of a table, one of them apart -/

theorem perm_of_find {rows : List (κ × α)} (hn : (rows.map Prod.fst).Nodup) (h : find k rows = some a) :
    rows.Perm ((k, a) :: rows.filter fun r => !decide (r.1 = k)) := by
  induction rows with
  | nil => cases h
  | cons r rest ih =>
    obtain ⟨x, b⟩ := r
    rw [List.map_cons, List.nodup_cons] at hn
    by_cases hx : x = k
    · subst hx
      obtain rfl : b = a := by simpa [find] using h
      have hrest : rest.filter (fun r => !decide (r.1 = x)) = rest := by
        rw [List.filter_eq_self]
        intro r hr
        simpa using fun e => hn.1 (List.mem_map.2 ⟨r, hr, e⟩)
      simp [hrest]
    · have hfind : find k rest = some a := by simpa [find, hx] using h
      rw [List.filter_cons_of_pos (by simpa using hx)]
      exact ((ih hn.2 hfind).cons _).trans (.swap _ _ _)

theorem rows_perm (h : t.get? k = some a) : t.rows.Perm ((k, a) :: (t.erase k).rows) := perm_of_find t.nodup h

theorem rows_erase_of_none (h : t.get? k = none) : (t.erase k).rows = t.rows := by
  refine List.filter_eq_self.2 fun r hr => ?_
  have hne : r.1 ≠ k := by
    rintro rfl
    rw [get?_eq_some_iff.2 hr] at h
    cases h
  simpa using hne

theorem rows_erase_insert (t : Table κ α) (k : κ) (a : α) : ((t.insert k a).erase k).rows = (t.erase k).rows := by
  change (put k a t.rows).filter _ = t.rows.filter _
  induction t.rows with
  | nil => simp [put]
  | cons r rest ih =>
    obtain ⟨x, b⟩ := r
    simp only [put]
    split
    · rename_i hx
      simp [hx]
    · rename_i hx
      simp [hx, ih]

theorem rows_erase_modify (t : Table κ α) (k : κ) (f : α → α) : ((t.modify k f).erase k).rows = (t.erase k).rows := by
  change (t.rows.map _).filter _ = t.rows.filter _
  induction t.rows with
  | nil => rfl
  | cons r rest ih =>
    by_cases hr : r.1 = k
    · simpa [hr] using ih
    · simpa [hr] using ih

theorem rows_insert (t : Table κ α) (k : κ) (a : α) : (t.insert k a).rows.Perm ((k, a) :: (t.erase k).rows) := by
  have hget : (t.insert k a).get? k = some a := by rw [get?_insert, if_pos rfl]
  rw [← rows_erase_insert t k a]
  exact rows_perm hget

/-- the value under a key, if there is one, and the values under the others -/
theorem values_erase (t : Table κ α) (k : κ) : ((t.get? k).toList ++ (t.erase k).values).Perm t.values := by
  cases h : t.get? k with
  | none => rw [values, rows_erase_of_none h]; rfl
  | some a => exact ((rows_perm h).map Prod.snd).symm

theorem values_insert (t : Table κ α) (k : κ) (a : α) : ((t.get? k).toList ++ (t.insert k a).values).Perm (a :: t.values) := by
  have hnew : (t.insert k a).values.Perm (a :: (t.erase k).values) := (rows_insert t k a).map Prod.snd
  exact ((hnew.append_left _).trans List.perm_middle).trans ((values_erase t k).cons a)

end LiveFiles.Table

namespace LiveFiles.Tasks

variable {φ α : Type} {f : φ → Option α} {ts : Tasks φ} {live : Table TaskId (Task φ)} {id : TaskId} {x : Task φ}

/-- what the phases of the tasks hold, task by task -/
def gather (f : φ → Option α) (live : Table TaskId (Task φ)) : List α := live.values.filterMap fun t => f t.phase

theorem gather_of_get? (h : live.get? id = some x) :
    (gather f live).Perm ((f x.phase).toList ++ gather f (live.erase id)) := by
  have hperm := ((Table.rows_perm h).map Prod.snd).filterMap fun t => f t.phase
  rw [List.map_cons, List.filterMap_cons] at hperm
  unfold gather Table.values
  cases hf : f x.phase with
  | none => simpa only [hf, Option.toList_none, List.nil_append] using hperm
  | some τ => simpa only [hf, Option.toList_some, List.cons_append, List.nil_append] using hperm

/-- the table with one row written anew -/
theorem gather_rewrite {live' : Table TaskId (Task φ)} (h : live'.get? id = some x)
    (hrest : (live'.erase id).rows = (live.erase id).rows) :
    (gather f live').Perm ((f x.phase).toList ++ gather f (live.erase id)) := by
  have hgather : gather f (live'.erase id) = gather f (live.erase id) := by
    rw [gather, gather, Table.values, Table.values, hrest]
  rw [← hgather]
  exact gather_of_get? h

theorem gather_modify (h : live.get? id = some x) (g : Task φ → Task φ) :
    (gather f (live.modify id g)).Perm ((f (g x).phase).toList ++ gather f (live.erase id)) :=
  gather_rewrite (by rw [Table.get?_modify, if_pos rfl, h, Option.map_some]) (Table.rows_erase_modify live id g)

/-- what the tasks hold after a section of one of them -/
theorem gather_record (h : ts.live.get? id = some x) (s : Section φ Unit) :
    (gather f (ts.record id s).live).Perm ((s.next.bind f).toList ++ gather f (ts.live.erase id)) := by
  cases s with
  | go q => exact gather_modify h fun t => { t with phase := q }
  | wait q => exact gather_modify h fun t => { t with phase := q }
  | pause q => exact gather_modify h fun t => { t with phase := q }
  | ended => rfl

theorem gather_cancel (ts : Tasks φ) (id : TaskId) : (gather f (ts.cancel id).live).Perm (gather f ts.live) := by
  unfold Tasks.cancel
  split
  · rename_i hlive
    obtain ⟨x, hx⟩ := Option.isSome_iff_exists.1 hlive
    rw [Tasks.live_enqueue]
    exact (gather_modify hx fun t => { t with cancelled := true }).trans (gather_of_get? hx).symm
  · rfl

/-- a new task holds what its phase does -/
theorem gather_spawn (hn : ts.Numbered) (p : φ) : (gather f (ts.spawn p).2.live).Perm ((f p).toList ++ gather f ts.live) := by
  have hnone : ts.live.get? ts.next = none := hn ts.next le_rfl
  have hold : gather f (ts.live.erase ts.next) = gather f ts.live := by
    rw [gather, gather, Table.values, Table.values, Table.rows_erase_of_none hnone]
  rw [← hold]
  exact gather_rewrite (x := ⟨p, false⟩) (by simp [spawn, Table.get?_insert])
    (Table.rows_erase_insert ts.live ts.next _)

theorem mem_gather {a : α} : a ∈ gather f live ↔ ∃ id x, live.get? id = some x ∧ f x.phase = some a := by
  constructor
  · intro h
    obtain ⟨x, hx, ha⟩ := List.mem_filterMap.1 h
    obtain ⟨⟨id, x'⟩, hrow, rfl⟩ := List.mem_map.1 hx
    exact ⟨id, x', Table.get?_eq_some_iff.2 hrow, ha⟩
  · rintro ⟨id, x, hx, ha⟩
    refine (gather_of_get? hx).mem_iff.2 (List.mem_append_left _ ?_)
    rw [ha]
    exact List.mem_singleton_self a

end LiveFiles.Tasks
