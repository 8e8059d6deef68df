/-
Entries that are leaked. An entry should be there as long as somebody counts at its path, and no longer; removing it is up
to whoever has given the last place back.
- `Shift.exact`: a section changes the count of an entry by as much as the number of those who are registered and of the
  places that tasks account for.
- `tally_trace`: so the count covers them all along. It does not get to zero behind anybody's back, and whoever takes it
  there goes on to tear the entry down.
- **`tracked_iff_counted_iff`**: in a run without shutting down, where no operation at a path is unfinished the path is
  tracked exactly if somebody counts, unless the last task that was tearing the entry down has been cancelled and nobody has
  taken a place since (`Deserted`). Then, and only then, the entry is left behind.
- `cancelled_unwatch_leaks_entry`: a run in which that happens.
-/
import LiveFiles.Proofs.Guards
import LiveFiles.Proofs.Places

namespace LiveFiles

/-! ## Sizes of tables -/

namespace Table

variable {κ α : Type} [DecidableEq κ]

theorem length_put (k : κ) (a : α) (rows : List (κ × α)) :
    (put k a rows).length = if (find k rows).isSome then rows.length else rows.length + 1 := by
  induction rows with
  | nil => rfl
  | cons r rest ih =>
    obtain ⟨x, b⟩ := r
    by_cases hx : x = k
    · simp [put, find, hx]
    · simp only [put, find, if_neg hx, List.length_cons, ih]
      split <;> rfl

theorem size_insert (t : Table κ α) (k : κ) (a : α) :
    (t.insert k a).size = if t.contains k then t.size else t.size + 1 := length_put k a t.rows

theorem length_filter_ne {k : κ} {rows : List (κ × α)} (hd : (rows.map Prod.fst).Nodup) (h : (find k rows).isSome) :
    (rows.filter fun r => !decide (r.1 = k)).length + 1 = rows.length := by
  induction rows with
  | nil => cases h
  | cons r rest ih =>
    obtain ⟨x, b⟩ := r
    simp only [List.map_cons, List.nodup_cons] at hd
    by_cases hx : x = k
    · subst hx
      have hrest : (rest.filter fun r => !decide (r.1 = x)) = rest :=
        List.filter_eq_self.2 fun r hr => by
          have hne : r.1 ≠ x := fun e => hd.1 (List.mem_map.2 ⟨r, hr, e⟩)
          simpa using hne
      rw [List.filter_cons_of_neg (by simp), hrest, List.length_cons]
    · rw [List.filter_cons_of_pos (by simpa using hx)]
      simp only [find, if_neg hx] at h
      simp only [List.length_cons, ih hd.2 h]

theorem size_erase {t : Table κ α} {k : κ} (h : t.contains k = true) : (t.erase k).size + 1 = t.size :=
  length_filter_ne t.nodup h

end Table

namespace Engine

/-! ## Places and the count of an entry -/

namespace Places

def count (v : Places) (k : Path.Key) : Nat := ((v.roster? k).map Roster.count).getD 0

/-- how many are registered at a path -/
def registered (v : Places) (k : Path.Key) : Nat := ((v.roster? k).map fun r => r.registered.size).getD 0

/-- a path has an entry, and nobody counts there -/
def Vacant (v : Places) (k : Path.Key) : Prop := ∃ r, v.roster? k = some r ∧ r.count = 0

theorem roster?_put (v : Places) (k k' : Path.Key) (r : Option Roster) :
    (v.put k r).roster? k' = if k' = k then r else v.roster? k' := Function.update_apply v.roster? k r k'

theorem Vacant.put {v : Places} {k k' : Path.Key} (h : v.Vacant k) (hne : k ≠ k') (r : Option Roster) :
    (v.put k' r).Vacant k := by
  obtain ⟨r₀, hr, hz⟩ := h
  exact ⟨r₀, by rw [roster?_put, if_neg hne, hr], hz⟩

end Places

/-- one, if the place is at the path -/
def share (place : Option Path.Key) (k : Path.Key) : Nat := if place = some k then 1 else 0

namespace World

/-- the path at which a task accounts for a place -/
def place? (w : World) (id : TaskId) : Option Path.Key := (w.tasks.phase? id).bind fun ph => ph.activity.place?

/-- how many places at a path tasks account for -/
def seated (w : World) (k : Path.Key) : Nat := ∑ id ∈ Finset.range w.tasks.next, share (w.place? id) k

/-- some task is about to drop the entry of the path -/
def Attended (w : World) (k : Path.Key) : Prop :=
  ∃ id ph, w.tasks.phase? id = some ph ∧ ph.activity.tears? = some k

end World

variable {v v' : Places} {a : Activity} {next : Option Activity} {k : Path.Key} {n n' : Nat}

@[simp] theorem share_none (k : Path.Key) : share none k = 0 := rfl

@[simp] theorem share_self (k : Path.Key) : share (some k) k = 1 := if_pos rfl

theorem share_of_ne {k₀ : Path.Key} (h : k ≠ k₀) : share (some k₀) k = 0 := if_neg fun e => h (Option.some.inj e).symm

theorem Activity.place?_of_tears {k₀ : Path.Key} (h : a.tears? = some k₀) : a.place? = none := by
  cases a <;> cases h
  rfl

/-- the count of an entry whose roster changes, and those of the others -/
theorem Places.exact_put {k₀ : Path.Key} {r' : Roster} (ht : v.registered k + n = v.count k)
    (hk : k = k₀ → r'.registered.size + n' = r'.count) (hne : k ≠ k₀ → n' = n) :
    (v.put k₀ (some r')).registered k + n' = (v.put k₀ (some r')).count k := by
  simp only [Places.registered, Places.count, Places.roster?_put] at ht ⊢
  by_cases hkk : k = k₀
  · simpa only [if_pos hkk, Option.map_some, Option.getD_some] using hk hkk
  · simp only [if_neg hkk]
    rw [hne hkk]
    exact ht

theorem Places.count_of_roster {r : Roster} (ht : v.registered k + n = v.count k) (hr : v.roster? k = some r) :
    r.registered.size + n = r.count := by
  simpa only [Places.registered, Places.count, hr, Option.map_some, Option.getD_some] using ht

/-- an entry in which a place is given back, or that of a subscriber who leaves -/
theorem Places.exact_giveBack {p : Path} {r s : Roster} (ht : v.registered k + n = v.count k) (hr : v.roster? p.key = some r)
    (ha : a.place? = some p.key ∧ s.registered = r.registered ∨
      ∃ id, a = .starting (.unwatch p id) ∧ r.registered.contains id = true ∧ s.registered = r.registered.erase id)
    (hcount : s.count = r.count - 1) (hn : n' + share a.place? k = n) :
    (v.put p.key (some s)).registered k + n' = (v.put p.key (some s)).count k := by
  refine Places.exact_put ht (fun hk => ?_) fun hk => ?_
  · subst hk
    have hcovered := Places.count_of_roster ht hr
    rcases ha with ⟨ha, hsame⟩ | ⟨id, rfl, hid, herase⟩
    · rw [ha, share_self] at hn
      rw [hsame, hcount]
      omega
    · have hsize := Table.size_erase hid
      have hn : n' + 0 = n := hn
      rw [herase, hcount]
      omega
  · rcases ha with ⟨ha, -⟩ | ⟨id, rfl, -, -⟩
    · rw [ha, share_of_ne hk] at hn
      exact hn
    · exact hn

/-- **A section keeps the count of every entry exact**, unless it shuts the engine down. Of the `n` places at a path that
tasks account for, the share of the task that carries it out may change. -/
theorem Shift.exact (h : Shift v a v' next) (ha : a ≠ .starting .shutDown) (hc : a.closes = false)
    (hn : n' + share a.place? k = n + share (next.bind Activity.place?) k) (ht : v.registered k + n = v.count k) :
    v'.registered k + n' = v'.count k := by
  -- where there is no entry nobody has a place
  have hnone : v.roster? k = none → n = 0 := fun hr => by
    simp only [Places.registered, Places.count, hr, Option.map_none, Option.getD_none] at ht
    omega
  cases h with
  | steady _ hv hp =>
    subst hv
    rw [hp] at hn
    omega
  | lost k₀ hk hr hv hx =>
    subst hv hx
    rw [Option.bind_none, share_none] at hn
    by_cases hk₀ : k = k₀
    · have := hnone (hk₀ ▸ hr)
      omega
    · rw [hk, share_of_ne hk₀] at hn
      omega
  | spared k₀ hk hr hv hx =>
    subst hv hx
    rw [Option.bind_none, share_none, Activity.place?_of_tears hk, share_none] at hn
    omega
  | drop k₀ r hk hr hz hv hx =>
    subst hv hx
    rw [Option.bind_none, share_none, Activity.place?_of_tears hk, share_none] at hn
    by_cases hk₀ : k = k₀
    · subst hk₀
      have := Places.count_of_roster ht hr
      simp only [Places.registered, Places.count, Places.roster?_put, if_true, Option.map_none, Option.getD_none]
      omega
    · simp only [Places.registered, Places.count, Places.roster?_put, if_neg hk₀] at ht ⊢
      omega
  | take p r armed ha hr hv hx =>
    obtain ⟨id, joined, other, rfl⟩ := ha
    obtain ⟨b, rfl, hb, -⟩ := hx
    have hn : n' + 0 = n + share (some p.key) k := hb ▸ hn
    have hput : ∀ b, (v.put p.key (some { r with count := r.count + 1, armed := b })).registered k + n' =
        (v.put p.key (some { r with count := r.count + 1, armed := b })).count k := fun b => by
      refine Places.exact_put ht (fun hk => ?_) fun hk => ?_
      · subst hk
        rw [share_self] at hn
        rcases hr with hr | ⟨hr, rfl⟩
        · have := Places.count_of_roster ht hr
          dsimp only
          omega
        · have := hnone hr
          have hsize : (Roster.blank p).registered.size = 0 := rfl
          have hcount : (Roster.blank p).count = 0 := rfl
          dsimp only
          omega
      · rw [share_of_ne hk] at hn
        omega
    rcases hv with ⟨rfl, rfl⟩ | ⟨-, -, rfl, rfl⟩
    · exact hput r.armed
    · exact hput true
  | register seat r x ha hr hv hx =>
    obtain ⟨signal, rfl⟩ := ha
    subst hv hx
    simp only [Option.bind_none, Activity.place?, share_none] at hn
    refine Places.exact_put ht (fun hk => ?_) fun hk => ?_
    · subst hk
      have hcovered := Places.count_of_roster ht hr
      rw [share_self] at hn
      dsimp only
      rw [Table.size_insert]
      split <;> omega
    · rw [share_of_ne hk] at hn
      omega
  | release p r registered hr ha hz hv hx =>
    subst hv hx
    rw [Option.bind_none, share_none] at hn
    exact Places.exact_giveBack ht hr ha rfl hn
  | releaseLast p r registered hr ha hz hv hx =>
    obtain ⟨l, rfl⟩ := hx
    subst hv
    exact Places.exact_giveBack (s := { r with registered, count := 0, armed := false }) ht hr ha hz.symm hn
  | shutDown ds h => exact absurd h ha
  | forget h =>
    rw [hc] at h
    cases h

/-- **A section keeps the count of every entry right**: what it has to spare beyond those it is to cover, it keeps. -/
theorem Shift.tally (h : Shift v a v' next) (ha : a ≠ .starting .shutDown) (hc : a.closes = false)
    (hn : n' + share a.place? k = n + share (next.bind Activity.place?) k) (ht : v.registered k + n ≤ v.count k) :
    v'.registered k + n' ≤ v'.count k := by
  obtain ⟨spare, hspare⟩ := Nat.exists_eq_add_of_le ht
  have hbefore : v.registered k + (n + spare) = v.count k := by omega
  have hafter : v'.registered k + (n' + spare) = v'.count k := h.exact ha hc (by omega) hbefore
  omega

/-- **Where nobody counts after a section, nobody has counted before**, and somebody who was about to drop the entry still
is; or the task is about to drop it now. -/
theorem Shift.vacant (h : Shift v a v' next) (ha : a ≠ .starting .shutDown) (hc : a.closes = false)
    (hn : n' + share a.place? k = n + share (next.bind Activity.place?) k) (ht : v.registered k + n ≤ v.count k)
    (hv : v'.Vacant k) : next.bind Activity.tears? = some k ∨ v.Vacant k ∧ a.tears? ≠ some k := by
  obtain ⟨r', hr', hz'⟩ := hv
  -- where the roster is put in place of another, at the path or elsewhere
  have hput : ∀ {k₀ r₀}, (v.put k₀ (some r₀)).roster? k = some r' → (k = k₀ → r₀.count ≠ 0) →
      v.Vacant k := fun {k₀ r₀} h hne => by
    rw [Places.roster?_put] at h
    split at h
    · cases h
      exact absurd hz' (hne ‹_›)
    · exact ⟨r', h, hz'⟩
  cases h with
  | steady _ hv hp htears =>
    subst hv
    by_cases hk : a.tears? = some k
    · exact Or.inl (htears.trans hk)
    · exact Or.inr ⟨⟨r', hr', hz'⟩, hk⟩
  | lost k₀ hk hr hv hx =>
    subst hv
    refine Or.inr ⟨⟨r', hr', hz'⟩, fun h => ?_⟩
    rw [Activity.place?_of_tears h] at hk
    cases hk
  | spared k₀ hk hr hv hx =>
    subst hv
    refine Or.inr ⟨⟨r', hr', hz'⟩, fun h => ?_⟩
    cases hk.symm.trans h
    exact hr r' hr' hz'
  | drop k₀ r hk hr hz hv hx =>
    subst hv
    rw [Places.roster?_put] at hr'
    split at hr'
    · cases hr'
    · rename_i hne
      exact Or.inr ⟨⟨r', hr', hz'⟩, fun h => hne (Option.some.inj (h.symm.trans hk))⟩
  | take p r armed ha hr hv hx =>
    obtain ⟨id, joined, other, rfl⟩ := ha
    refine Or.inr ⟨?_, by simp [Activity.tears?]⟩
    rcases hv with ⟨-, rfl⟩ | ⟨-, -, -, rfl⟩
    · exact hput hr' fun _ => Nat.succ_ne_zero _
    · exact hput hr' fun _ => Nat.succ_ne_zero _
  | register seat r x ha hr hv hx =>
    obtain ⟨signal, rfl⟩ := ha
    subst hv hx
    refine Or.inr ⟨hput hr' fun hk => ?_, by simp [Activity.tears?]⟩
    -- the place that is turned into a registration counts
    subst hk
    simp only [Option.bind_none, Activity.place?, share_none, share_self] at hn
    simp only [Places.registered, Places.count, hr, Option.map_some, Option.getD_some] at ht
    dsimp only
    split
    · rename_i hmem
      have hsize := Table.size_erase hmem
      omega
    · omega
  | release p r registered hr ha hz hv hx =>
    subst hv
    refine Or.inr ⟨hput hr' fun _ => hz, fun h => ?_⟩
    rcases ha with ⟨ha, -⟩ | ⟨id, rfl, -⟩
    · rw [Activity.place?_of_tears h] at ha
      cases ha
    · cases h
  | releaseLast p r registered hr ha hz hv hx =>
    obtain ⟨l, rfl⟩ := hx
    subst hv
    by_cases hk : k = p.key
    · exact Or.inl (congrArg some hk.symm)
    · refine Or.inr ⟨hput hr' fun h => absurd h hk, fun h => ?_⟩
      rcases ha with ⟨ha, -⟩ | ⟨id, rfl, -⟩
      · rw [Activity.place?_of_tears h] at ha
        cases ha
      · cases h
  | shutDown ds h => exact absurd h ha
  | forget h =>
    rw [hc] at h
    cases h

/-- where nobody counts, nobody is registered and no task accounts for a place -/
theorem Places.Vacant.unclaimed (hv : v.Vacant k) (ht : v.registered k + n ≤ v.count k) : v.registered k = 0 ∧ n = 0 := by
  obtain ⟨r, hr, hz⟩ := hv
  have hcount : v.count k = 0 := by rw [Places.count, hr, Option.map_some, Option.getD_some, hz]
  omega

/-- nobody gives a place back where nobody counts -/
theorem Places.Vacant.ne_released (hv : v.Vacant k) (ht : v.registered k + n ≤ v.count k) (hn : n' + share a.place? k = n)
    {p : Path} {r : Roster} {registered : Table SubscriberId Registration} (hr : v.roster? p.key = some r)
    (ha : a.place? = some p.key ∧ registered = r.registered ∨
      ∃ id, a = .starting (.unwatch p id) ∧ r.registered.contains id = true ∧ registered = r.registered.erase id) :
    k ≠ p.key := by
  rintro rfl
  obtain ⟨hreg, rfl⟩ := hv.unclaimed ht
  rcases ha with ⟨ha, -⟩ | ⟨id, -, hid, -⟩
  · rw [ha, share_self] at hn
    omega
  · rw [Places.registered, hr, Option.map_some, Option.getD_some] at hreg
    have hsize := Table.size_erase hid
    omega

/-- **Where nobody counts before a section, and the task is not about to drop the entry, it stays that way**, unless the task
is a call to watch that takes a place there. -/
theorem Shift.stranded (h : Shift v a v' next) (ha : a ≠ .starting .shutDown) (hc : a.closes = false)
    (hn : n' + share a.place? k = n + share (next.bind Activity.place?) k) (ht : v.registered k + n ≤ v.count k)
    (hv : v.Vacant k) (hk : a.tears? ≠ some k)
    (htake : (∃ p id joined other, a = .joining p id joined other) → next.bind Activity.place? ≠ some k) :
    v'.Vacant k ∧ next.bind Activity.tears? ≠ some k := by
  cases h with
  | steady _ he _ htears => exact he ▸ ⟨hv, htears ▸ hk⟩
  | lost k₀ _ _ he hx => exact he ▸ hx ▸ ⟨hv, nofun⟩
  | spared k₀ _ _ he hx => exact he ▸ hx ▸ ⟨hv, nofun⟩
  | drop k₀ r hk₀ _ _ he hx =>
    subst he hx
    exact ⟨hv.put (fun e => hk (e ▸ hk₀)) none, nofun⟩
  | take p r armed ha _ he hx =>
    obtain ⟨id, joined, other, rfl⟩ := ha
    obtain ⟨b, rfl, hb, htears, -⟩ := hx
    have hne : k ≠ p.key := fun e => htake ⟨p, id, joined, other, rfl⟩ (e ▸ hb)
    refine ⟨?_, by rw [Option.bind_some, htears]; exact nofun⟩
    rcases he with ⟨-, rfl⟩ | ⟨-, -, -, rfl⟩
    · exact hv.put hne _
    · exact hv.put hne _
  | register seat r x ha _ he hx =>
    obtain ⟨signal, rfl⟩ := ha
    subst he hx
    refine ⟨hv.put (fun e => ?_) _, nofun⟩
    obtain ⟨-, rfl⟩ := hv.unclaimed ht
    rw [Option.bind_none, share_none, e, Activity.place?, share_self] at hn
    omega
  | release p r registered hr ha _ he hx =>
    subst he hx
    exact ⟨hv.put (hv.ne_released ht hn hr ha) _, nofun⟩
  | releaseLast p r registered hr ha _ he hx =>
    obtain ⟨l, rfl⟩ := hx
    subst he
    have hne : k ≠ p.key := hv.ne_released ht hn hr ha
    exact ⟨hv.put hne _, fun h => hne (Option.some.inj h).symm⟩
  | shutDown _ h => exact absurd h ha
  | forget h => cases h.symm.trans hc

/-- where a call to watch takes a place, it counts -/
theorem Shift.counts (h : Shift v a v' next) (ha : ∃ p id joined other, a = .joining p id joined other)
    (hk : next.bind Activity.place? = some k) : ∃ p : Path, p.key = k ∧ ∃ r, v'.roster? k = some r ∧ r.count ≠ 0 := by
  obtain ⟨p₀, id, joined, other, rfl⟩ := ha
  cases h with
  | steady _ _ hp => cases hp.symm.trans hk
  | take p r armed _ _ hv hx =>
    obtain ⟨b, rfl, hb, -⟩ := hx
    cases hb.symm.trans hk
    have hput : ∀ r : Roster, (v.put p.key (some r)).roster? p.key = some r := fun r => by rw [Places.roster?_put, if_pos rfl]
    rcases hv with ⟨-, rfl⟩ | ⟨-, -, -, rfl⟩
    · exact ⟨p, rfl, _, hput _, Nat.succ_ne_zero _⟩
    · exact ⟨p, rfl, _, hput _, Nat.succ_ne_zero _⟩
  | lost _ h => cases h
  | spared _ h => cases h
  | drop _ _ h => cases h
  | register _ _ _ h =>
    obtain ⟨_, h⟩ := h
    cases h
  | release _ _ _ _ h => rcases h with ⟨h, -⟩ | ⟨_, h, -⟩ <;> cases h
  | releaseLast _ _ _ _ h => rcases h with ⟨h, -⟩ | ⟨_, h, -⟩ <;> cases h
  | shutDown _ h => cases h
  | forget h => cases h

/-! ## Places that tasks account for -/

variable {w w' : World} {id : TaskId} {t : Task Phase} {m : Move}

theorem sum_share {f f' : TaskId → Option Path.Key} {i N : Nat} (hi : i < N) (h : ∀ j, j < N → j ≠ i → f' j = f j)
    (k : Path.Key) :
    ∑ j ∈ Finset.range N, share (f' j) k + share (f i) k = ∑ j ∈ Finset.range N, share (f j) k + share (f' i) k := by
  have hmem : i ∈ Finset.range N := Finset.mem_range.2 hi
  have hrest : ∑ j ∈ (Finset.range N).erase i, share (f' j) k = ∑ j ∈ (Finset.range N).erase i, share (f j) k :=
    Finset.sum_congr rfl fun j hj => by
      obtain ⟨hne, hlt⟩ := Finset.mem_erase.1 hj
      rw [h j (Finset.mem_range.1 hlt) hne]
  have h1 := Finset.add_sum_erase (Finset.range N) (fun j => share (f j) k) hmem
  have h2 := Finset.add_sum_erase (Finset.range N) (fun j => share (f' j) k) hmem
  omega

/-- numbers beyond the last do not matter -/
theorem sum_share_of_le {f : TaskId → Option Path.Key} {n N : Nat} (hf : ∀ j, n ≤ j → f j = none) (h : n ≤ N) (k : Path.Key) :
    ∑ j ∈ Finset.range n, share (f j) k = ∑ j ∈ Finset.range N, share (f j) k := by
  refine Finset.sum_subset (Finset.range_subset_range.2 h) fun j _ hj => ?_
  rw [hf j (by simpa using hj)]
  rfl

/-- numbers that no task has got yet do not matter -/
theorem seated_eq_sum (hn : w.tasks.Numbered) {N : Nat} (h : w.tasks.next ≤ N) (k : Path.Key) :
    w.seated k = ∑ id ∈ Finset.range N, share (w.place? id) k := by
  refine sum_share_of_le (fun id hid => ?_) h k
  rw [World.place?, Tasks.phase?_eq_none_iff.2 (hn id hid)]
  rfl

theorem seated_congr (hn : w.tasks.Numbered) (hn' : w'.tasks.Numbered) (h : ∀ id, w'.place? id = w.place? id)
    (k : Path.Key) : w'.seated k = w.seated k := by
  rw [seated_eq_sum hn (le_max_left _ w'.tasks.next), seated_eq_sum hn' (le_max_right w.tasks.next _)]
  exact Finset.sum_congr rfl fun id _ => by rw [h id]

/-- a new task accounts for a place only if it takes over from one that has been cancelled -/
theorem Newcomer.place? {p : Phase} (h : Newcomer w m p)
    (hm : ∀ id t, m = .turn id → w.served? id = some t → t.cancelled = false) : p.activity.place? = none := by
  cases m with
  | turn id =>
    obtain ⟨t, ht, h⟩ := h
    rw [if_neg (by simp [hm id t rfl ht])] at h
    rcases h with ⟨s, -, rfl⟩ | ⟨q, x, -, rfl⟩ | ⟨x, q, -, rfl⟩ | ⟨seat, x, -, rfl⟩ <;> rfl
  | call r =>
    obtain ⟨hr, rfl⟩ := h
    cases r with
    | release p => cases hr
    | _ => rfl
  | notifyChange q =>
    cases h
    rfl
  | attachStream =>
    obtain ⟨x, rfl⟩ := h
    rfl
  | _ => cases h

/-- whoever does not get the floor accounts for what it has accounted for -/
theorem place?_unserved (hw : Wf w) (hs : w.serves m id = false)
    (hm : ∀ id t, m = .turn id → w.served? id = some t → t.cancelled = false) : (w.move m).place? id = w.place? id := by
  rcases phase?_newcomer hw hs with h | ⟨hnone, h⟩
  · rw [World.place?, h, World.place?]
  · rw [World.place?, World.place?, hnone]
    cases hp : (w.move m).tasks.phase? id with
    | none => rfl
    | some p => exact (h p hp).place? hm

theorem seated_serve (hw : Wf w) (h : w.served? id = some t) (hc : t.cancelled = false) (k : Path.Key) :
    (serve w id).seated k + share t.phase.activity.place? k =
      w.seated k + share ((((serve w id).tasks.phase? id).map (·.activity)).bind Activity.place?) k := by
  have hp := phase?_of_served h
  have hother : ∀ j, j ≠ id → (serve w id).place? j = w.place? j := fun j hj => by
    refine place?_unserved (m := .turn id) hw (serves_of_ne hj) fun id' t' hm ht => ?_
    cases hm
    cases h.symm.trans ht
    exact hc
  have hmax : id < max w.tasks.next (serve w id).tasks.next := lt_max_of_lt_left (hw.numbered.lt hp)
  have hsum := sum_share hmax (fun j _ => hother j) k
  have hn' : (serve w id).tasks.Numbered := (wf_move hw (.turn id)).numbered
  rw [← seated_eq_sum hw.numbered (le_max_left _ _), ← seated_eq_sum hn' (le_max_right _ _)] at hsum
  rw [Option.bind_map]
  have hat : w.place? id = t.phase.activity.place? := by rw [World.place?, hp, Option.bind_some]
  rw [hat] at hsum
  exact hsum

/-! ### A task that is cancelled -/

@[simp] theorem next_wake (w : World) (x : Await) : (w.wake x).tasks.next = w.tasks.next := Tasks.next_wake w.tasks _

@[simp] theorem next_giveIf (w : World) (x : Option SignalId) : (w.giveIf x).tasks.next = w.tasks.next := by
  cases x with
  | none => rfl
  | some x => exact next_wake _ _

@[simp] theorem next_giveBack (w : World) (τ : Turn) : (w.giveBack τ).tasks.next = w.tasks.next := by
  unfold World.giveBack
  dsimp only
  split
  · exact next_wake _ _
  · rfl

theorem next_dropRefresh (w : World) (r : Refresh) : (w.dropRefresh r).tasks.next = w.tasks.next := by
  cases r <;> simp [World.dropRefresh, World.leaveDisk]

theorem next_abandonSeat_le (w : World) (seat : Seat) : (w.abandonSeat seat).tasks.next ≤ w.tasks.next + 1 := by
  have hend : (w.endSeat seat).tasks.next = w.tasks.next := next_giveIf _ (some seat.joined)
  rw [← hend, World.abandonSeat, World.inBackground]
  split
  · exact Nat.le_succ _
  · simp [World.spawn, Tasks.spawn]

theorem next_finish (w : World) (id : TaskId) (role : Role) (e : Ending) :
    (w.finish id role e).tasks.next = w.tasks.next := by
  cases role with
  | background => exact next_wake _ _
  | _ => rfl

/-- what the tasks that were there account for after one of them has been cancelled -/
theorem sum_share_cancelled (hw : Wf w) (h : w.served? id = some t) (hc : t.cancelled = true) (k : Path.Key) :
    ∑ j ∈ Finset.range w.tasks.next, share ((serve w id).place? j) k + share t.phase.activity.place? k = w.seated k := by
  have hp := phase?_of_served h
  have hid : id < w.tasks.next := hw.numbered.lt hp
  have hat : w.place? id = t.phase.activity.place? := by rw [World.place?, hp, Option.bind_some]
  have hg := grows_cancelled h hc
  have hnext : ((floorTo w id).without id).tasks.next = w.tasks.next := next_floorTo w id
  have hother : ∀ j, j < w.tasks.next → j ≠ id → (serve w id).place? j = w.place? j := fun j hj hne => by
    rw [World.place?, hg.phase j (hnext ▸ hj), phase?_without, if_neg (Ne.symm hne), phase?_floorTo, World.place?]
  have hself : (serve w id).place? id = none := by
    rw [World.place?, phase?_serve_of_cancelled hw h hc, Option.bind_none]
  have hsum := sum_share hid hother k
  rwa [hat, hself, share_none, add_zero] at hsum

/-- the place of a cancelled task goes to the task that takes over -/
theorem seated_cancelled_le (hw : Wf w) (h : w.served? id = some t) (hc : t.cancelled = true) (k : Path.Key) :
    (serve w id).seated k ≤ w.seated k := by
  have hn' : (serve w id).tasks.Numbered := (wf_move hw (.turn id)).numbered
  have hg := grows_cancelled h hc
  have hnext : ((floorTo w id).without id).tasks.next = w.tasks.next := next_floorTo w id
  have hsum := sum_share_cancelled hw h hc k
  -- whoever is new has the place of the task that was cancelled
  have hnew : ∀ j, w.tasks.next ≤ j → share ((serve w id).place? j) k ≤ share t.phase.activity.place? k := fun j hj => by
    cases hq : (serve w id).tasks.phase? j with
    | none => simp [World.place?, hq]
    | some q =>
      obtain ⟨⟨seat, hseat, rfl⟩, -⟩ := hg.fresh (numbered_without (numbered_floorTo hw.numbered id) id) j q (hnext ▸ hj) hq
      rw [World.place?, hq]
      rcases hseat with ⟨r, hr⟩ | ⟨x, hx⟩
      · rw [hr]; exact le_rfl
      · rw [hx]; exact le_rfl
  by_cases hone : ∃ seat, (∃ r, t.phase.activity = .synchronizing seat r) ∨ ∃ x, t.phase.activity = .settling seat x
  · obtain ⟨seat, hseat⟩ := hone
    have hle : (serve w id).tasks.next ≤ w.tasks.next + 1 := by
      rw [serve_of_cancelled h hc, next_finish, ← hnext]
      rcases hseat with ⟨r, hr⟩ | ⟨x, hx⟩
      · rw [hr]
        exact (next_abandonSeat_le _ seat).trans_eq (by rw [next_dropRefresh])
      · rw [hx]
        exact next_abandonSeat_le _ seat
    have hlast := hnew w.tasks.next le_rfl
    rw [seated_eq_sum hn' hle, Finset.sum_range_succ]
    omega
  · have hnobody : ∀ j, w.tasks.next ≤ j → (serve w id).place? j = none := fun j hj => by
      cases hq : (serve w id).tasks.phase? j with
      | none => simp [World.place?, hq]
      | some q =>
        obtain ⟨⟨seat, hseat, -⟩, -⟩ := hg.fresh (numbered_without (numbered_floorTo hw.numbered id) id) j q (hnext ▸ hj) hq
        exact absurd ⟨seat, hseat⟩ hone
    rw [seated_eq_sum hn' (le_max_left _ w.tasks.next),
      ← Finset.sum_subset (Finset.range_subset_range.2 (le_max_right (serve w id).tasks.next w.tasks.next))
        fun j _ hj => by rw [hnobody j (by simpa using hj), share_none]]
    omega

/-- where no task gets the floor the places of the tasks stay as they are -/
theorem seated_of_nobody (hw : Wf w) (hm : ∀ id t, m = .turn id → w.served? id ≠ some t) (k : Path.Key) :
    (w.move m).seated k = w.seated k := by
  refine seated_congr hw.numbered (wf_move hw m).numbered (fun id => ?_) k
  cases hs : w.serves m id with
  | false => exact place?_unserved hw hs fun id t h1 h2 => absurd h2 (hm id t h1)
  | true =>
    obtain ⟨rfl, hgo⟩ := serves_iff.1 hs
    have hnone : w.served? id = none := Option.eq_none_iff_forall_ne_some.2 fun t ht => hm id t rfl ht
    have hphase := phase?_serve_of_nobody hnone id
    simp only [World.move, World.place?, hphase]

/-- A move that is not a section leaves the places of the tasks alone, or one task takes over from another. -/
theorem seated_le_of_no_section (hw : Wf w) (hm : ∀ id t, m = .turn id → w.served? id = some t → t.cancelled = true)
    (k : Path.Key) : (w.move m).seated k ≤ w.seated k := by
  by_cases hturn : ∃ id t, m = .turn id ∧ w.served? id = some t
  · obtain ⟨id, t, rfl, ht⟩ := hturn
    exact seated_cancelled_le hw ht (hm id t rfl ht) k
  · exact (seated_of_nobody hw (fun id t h1 h2 => hturn ⟨id, t, h1, h2⟩) k).le

/-! ## Along a run -/

theorem not_closing_of_stake (h : a.stake.closing = false) : a ≠ .starting .shutDown ∧ a.closes = false := by
  constructor
  · rintro rfl
    cases h
  · cases a <;> first | rfl | cases h

/-- a call to watch takes a place at a path -/
def Takes (w : World) (m : Move) (k : Path.Key) : Prop :=
  ∃ id t, m = .turn id ∧ w.served? id = some t ∧ t.cancelled = false ∧
    (∃ p x joined other, t.phase.activity = .joining p x joined other) ∧ (w.move m).place? id = some k

/-- Nobody counts at a path. The only task that is about to drop its entry has been cancelled, and gets the floor for the
last time. -/
def Deserts (w : World) (m : Move) (k : Path.Key) : Prop :=
  w.places.Vacant k ∧ ∃ id t, m = .turn id ∧ w.served? id = some t ∧ t.cancelled = true ∧
    t.phase.activity.tears? = some k ∧ ∀ j ph, w.tasks.phase? j = some ph → ph.activity.tears? = some k → j = id

/-- The entry of a path has been deserted, and no call to watch has taken a place there since. -/
def Deserted (w : World) (moves : Nat → Move) (n : Nat) (k : Path.Key) : Prop :=
  ∃ j, j < n ∧ Deserts (w.trace moves j) (moves j) k ∧ ∀ l, j < l → l < n → ¬ Takes (w.trace moves l) (moves l) k

/-- a path has an entry where nobody counts, and nobody is about to drop it -/
def World.Stranded (w : World) (k : Path.Key) : Prop := w.places.Vacant k ∧ ¬ w.Attended k

/-- The count of every entry covers those who are registered and the places that tasks account for. -/
def Tallied (w : World) : Prop := ∀ k, w.places.registered k + w.seated k ≤ w.places.count k

/-- whoever carries out a section does not shut the engine down -/
def Continues (w : World) (m : Move) : Prop :=
  ∀ id t, m = .turn id → w.served? id = some t → t.cancelled = false →
    t.phase.activity ≠ .starting .shutDown ∧ t.phase.activity.closes = false

theorem continues_of_stakes (h : ∀ id, (w.stakes id).closing = false) (m : Move) : Continues w m := fun id _ _ hs _ =>
  not_closing_of_stake (stakes_of_served hs ▸ h id)

theorem tallied_move (hw : Wf w) (hm : Continues w m) (ht : Tallied w) : Tallied (w.move m) := by
  intro k
  rcases section_or_not w m with ⟨id, t, rfl, hs, hc⟩ | hno
  · obtain ⟨hne, hcl⟩ := hm id t rfl hs hc
    exact (shift_serve hw hs hc).tally hne hcl (seated_serve hw hs hc k) (ht k)
  · have hle := seated_le_of_no_section hw hno k
    have h := ht k
    rw [(unmoved_of_no_section hno).places]
    omega

/-- Where nobody counts after a move, somebody is about to drop the entry; or else nobody has counted before, and if somebody
was about to drop the entry then, it is deserted in the move. -/
theorem attended_of_vacant (hw : Wf w) (hm : Continues w m) (ht : Tallied w) (hv : (w.move m).places.Vacant k) :
    (w.move m).Attended k ∨ w.places.Vacant k ∧ (w.Attended k → Deserts w m k) := by
  -- whoever attends to the path goes on with it, unless it gets the floor
  have hkept : ∀ x ph, w.tasks.phase? x = some ph → ph.activity.tears? = some k → w.serves m x = false →
      (w.move m).Attended k := fun x ph hph hk hs => ⟨x, ph, phase?_kept hw hs hph, hk⟩
  rcases section_or_not w m with ⟨id, t, rfl, hs, hc⟩ | hno
  · obtain ⟨hne, hcl⟩ := hm id t rfl hs hc
    rcases (shift_serve hw hs hc).vacant hne hcl (seated_serve hw hs hc k) (ht k) hv with h | ⟨hv, hk⟩
    · rw [Option.bind_map] at h
      obtain ⟨ph, hph, h⟩ := Option.bind_eq_some_iff.1 h
      exact Or.inl ⟨id, ph, hph, h⟩
    · by_cases hatt : w.Attended k
      · obtain ⟨x, ph, hph, hx⟩ := hatt
        refine Or.inl (hkept x ph hph hx ?_)
        rw [Bool.eq_false_iff]
        intro hserve
        obtain ⟨he, -⟩ := serves_iff.1 hserve
        cases he
        cases (phase?_of_served hs).symm.trans hph
        exact hk hx
      · exact Or.inr ⟨hv, fun h => absurd h hatt⟩
  · rw [(unmoved_of_no_section hno).places] at hv
    by_cases hatt : ∃ x ph, w.tasks.phase? x = some ph ∧ ph.activity.tears? = some k ∧ w.serves m x = false
    · obtain ⟨x, ph, hph, hx, hs⟩ := hatt
      exact Or.inl (hkept x ph hph hx hs)
    · refine Or.inr ⟨hv, fun hcut => ?_⟩
      obtain ⟨x, ph, hph, hx⟩ := hcut
      have hserve : w.serves m x = true := by
        rw [← Bool.not_eq_false]
        exact fun h => hatt ⟨x, ph, hph, hx, h⟩
      obtain ⟨rfl, hgo⟩ := serves_iff.1 hserve
      obtain ⟨t, hs, rfl⟩ := served?_of_phase hgo hph
      refine ⟨hv, x, t, rfl, hs, hno x t rfl hs, hx, fun y ph hy hk => ?_⟩
      by_contra hne
      exact hatt ⟨y, ph, hy, hk, serves_of_ne hne⟩

theorem Takes.counts (hw : Wf w) (h : Takes w m k) :
    ∃ p : Path, p.key = k ∧ ∃ r, (w.move m).places.roster? k = some r ∧ r.count ≠ 0 := by
  obtain ⟨id, t, rfl, hs, hc, ha, hk⟩ := h
  exact (shift_serve hw hs hc).counts ha (by rw [Option.bind_map]; exact hk)

theorem Newcomer.tears? {p : Phase} (h : Newcomer w m p) : p.activity.tears? = none := by
  rcases h.cases with ⟨r, ha, -⟩ | ⟨q, x, ha⟩ | ⟨x, ha⟩ <;> rw [ha] <;> rfl

/-- nobody sets about dropping an entry but in a section -/
theorem phase?_of_tears (hw : Wf w) (hno : ∀ t, m = .turn id → w.served? id = some t → t.cancelled = true) {ph : Phase}
    (hph : (w.move m).tasks.phase? id = some ph) (hk : ph.activity.tears? = some k) : w.tasks.phase? id = some ph := by
  cases hs : w.serves m id with
  | false =>
    rcases phase?_newcomer hw hs with h | ⟨-, h⟩
    · exact h.symm.trans hph
    · cases (h ph hph).tears?.symm.trans hk
  | true =>
    obtain ⟨rfl, -⟩ := serves_iff.1 hs
    cases ht : w.served? id with
    | none => exact (phase?_serve_of_nobody ht id).symm.trans hph
    | some t => cases (phase?_serve_of_cancelled hw ht (hno t rfl ht)).symm.trans hph

theorem Deserts.stranded (hw : Wf w) (h : Deserts w m k) : (w.move m).Stranded k := by
  obtain ⟨hv, id, t, rfl, hs, hc, -, honly⟩ := h
  have hno : ∀ j u, Move.turn id = .turn j → w.served? j = some u → u.cancelled = true := fun j u e hu => by
    cases e
    cases hs.symm.trans hu
    exact hc
  refine ⟨by rw [(unmoved_of_no_section hno).places]; exact hv, fun hatt => ?_⟩
  obtain ⟨j, ph, hph, hk⟩ := hatt
  cases honly j ph (phase?_of_tears hw (hno j) hph hk) hk
  cases (phase?_serve_of_cancelled hw hs hc).symm.trans hph

/-- **An entry that is left behind stays so**, until a call to watch takes a place there. -/
theorem stranded_move (hw : Wf w) (hm : Continues w m) (ht : Tallied w) (h : w.Stranded k) (htake : ¬ Takes w m k) :
    (w.move m).Stranded k := by
  obtain ⟨hv, hatt⟩ := h
  rcases section_or_not w m with ⟨id, t, rfl, hs, hc⟩ | hno
  · obtain ⟨hne, hcl⟩ := hm id t rfl hs hc
    obtain ⟨hv', hnext⟩ := (shift_serve hw hs hc).stranded hne hcl (seated_serve hw hs hc k) (ht k) hv
      (fun hk => hatt ⟨id, t.phase, phase?_of_served hs, hk⟩)
      fun ha hk => htake ⟨id, t, rfl, hs, hc, ha, by rw [Option.bind_map] at hk; exact hk⟩
    refine ⟨hv', fun hatt' => ?_⟩
    obtain ⟨j, ph, hj, hk⟩ := hatt'
    by_cases hji : j = id
    · subst hji
      have hj : (serve w j).tasks.phase? j = some ph := hj
      rw [hj, Option.map_some, Option.bind_some] at hnext
      exact hnext hk
    · have hbefore := phase?_of_tears hw (fun u e _ => absurd (Move.turn.inj e).symm hji) hj hk
      exact hatt ⟨j, ph, hbefore, hk⟩
  · refine ⟨by rw [(unmoved_of_no_section hno).places]; exact hv, fun hatt' => ?_⟩
    obtain ⟨j, ph, hj, hk⟩ := hatt'
    exact hatt ⟨j, ph, phase?_of_tears hw (hno j) hj hk, hk⟩

variable {policy : WritePolicy} {moves : Nat → Move}

/-- nobody shuts the engine down unless called to -/
theorem continues_trace (h : ∀ n, moves n ≠ .call .shutDown) (n : Nat) :
    Continues ((World.start policy).trace moves n) (moves n) := by
  have hp : Proper ((World.start policy).trace moves n).core ((World.start policy).trace moves n).stakes := proper_trace h n
  exact continues_of_stakes hp.guarded.unclosed (moves n)

/-- **The count covers whoever is registered or has a place**, in every state of a run without shutting down. -/
theorem tally_trace (h : ∀ n, moves n ≠ .call .shutDown) (n : Nat) : Tallied ((World.start policy).trace moves n) := by
  induction n with
  | zero => exact fun k => le_rfl
  | succ n ih =>
    exact tallied_move (reachable_trace policy moves n).wf (continues_trace h n) ih

theorem vacant_trace (h : ∀ n, moves n ≠ .call .shutDown) (n : Nat)
    (hv : ((World.start policy).trace moves n).places.Vacant k) :
    ((World.start policy).trace moves n).Attended k ∨ Deserted (World.start policy) moves n k := by
  induction n with
  | zero =>
    obtain ⟨r, hr, -⟩ := hv
    cases hr
  | succ n ih =>
    have hw := (reachable_trace policy moves n).wf
    rcases attended_of_vacant hw (continues_trace h n) (tally_trace h n) hv with hatt | ⟨hv', hdes⟩
    · exact Or.inl hatt
    · refine Or.inr ?_
      rcases ih hv' with hatt | ⟨j, hj, hd, hno⟩
      · exact ⟨n, Nat.lt_succ_self n, hdes hatt, fun l h1 h2 => absurd (Nat.lt_succ_iff.1 h2) (not_le.2 h1)⟩
      · refine ⟨j, hj.trans (Nat.lt_succ_self n), hd, fun l h1 h2 htake => ?_⟩
        rcases Nat.lt_succ_iff_lt_or_eq.1 h2 with h2 | rfl
        · exact hno l h1 h2 htake
        · obtain ⟨-, -, r, hr, hne⟩ := htake.counts hw
          obtain ⟨r', hr', hz⟩ := hv
          cases hr.symm.trans hr'
          exact hne hz

/-- a deserted entry stays behind -/
theorem stranded_trace (h : ∀ n, moves n ≠ .call .shutDown) {n : Nat} (hd : Deserted (World.start policy) moves n k) :
    ((World.start policy).trace moves n).Stranded k := by
  obtain ⟨j, hj, hdes, hno⟩ := hd
  induction n, hj using Nat.le_induction with
  | base => exact hdes.stranded (reachable_trace policy moves j).wf
  | succ n hj ih =>
    exact stranded_move (reachable_trace policy moves n).wf (continues_trace h n) (tally_trace h n)
      (ih fun l h1 h2 => hno l h1 (h2.trans (Nat.lt_succ_self n))) (hno n hj (Nat.lt_succ_self n))

theorem vacant_iff {p : Path} :
    w.places.Vacant p.key ↔ ¬ (w.isTracked p = true ↔ 0 < w.subscriberCount p) := by
  have hroster : w.places.roster? p.key = (w.entry? p).map Entry.roster := rfl
  simp only [Places.Vacant, hroster, World.isTracked, Table.contains, World.subscriberCount, World.entry?]
  cases w.entries.get? p.key with
  | none => simp
  | some e => simp [Entry.roster, Nat.pos_iff_ne_zero]

/-- **In a run without shutting down, where no operation at a path is unfinished the path is tracked exactly if somebody
counts there, unless its entry has been deserted.** -/
theorem tracked_iff_counted_iff (h : ∀ n, moves n ≠ .call .shutDown) {n : Nat} {p : Path}
    (hp : ((World.start policy).trace moves n).isUnused p = true) :
    (((World.start policy).trace moves n).isTracked p = true ↔
        0 < ((World.start policy).trace moves n).subscriberCount p) ↔
      ¬ Deserted (World.start policy) moves n p.key := by
  rw [← not_iff_not, not_not, ← vacant_iff]
  constructor
  · intro hv
    refine (vacant_trace h n hv).resolve_left fun ⟨id, ph, hph, hk⟩ => ?_
    -- whoever is about to drop the entry is an operation at the path
    rcases ph with ⟨role, a⟩
    cases a with
    | tearingDown q turn l => exact isUnused_iff.1 hp id _ q hph rfl (Option.some.inj hk)
    | _ => cases hk
  · exact fun hd => (stranded_trace h hd).1

/-! ## A run in which an entry is left behind -/

/-- A watched file is being reconciled when its only subscriber leaves; the call to unwatch waits for the reconciliation and
is cancelled. -/
def deserting : List Move :=
  let p : Path := ⟨"/a"⟩
  [.newSubscriber, .putFile p ⟨#[49]⟩, .call (.watch p ⟨1⟩), .turn 1, .turn 1, .turn 1, .turn 1, .turn 1, .turn 1, .turn 2,
    .hold .stat p, .call (.reconcile p), .turn 3, .turn 3, .call (.unwatch p ⟨1⟩), .turn 4, .turn 4, .turn 4, .turn 2,
    .cancel 4, .turn 4, .openGate 1, .turn 3, .turn 3]

/-- the run does not shut the engine down, and no operation is unfinished at its end -/
theorem tracked_iff_counted_iff_deserting :
    (∀ n, along deserting n ≠ .call .shutDown) ∧
      ((World.start .allow).trace (along deserting) 24).isUnused ⟨"/a"⟩ = true ∧
      ((((World.start .allow).trace (along deserting) 24).isTracked ⟨"/a"⟩ = true ↔
          0 < ((World.start .allow).trace (along deserting) 24).subscriberCount ⟨"/a"⟩) ↔
        ¬ Deserted (World.start .allow) (along deserting) 24 (Path.key ⟨"/a"⟩)) := by
  have h : ∀ n, along deserting n ≠ .call .shutDown := along_ne deserting (by simp [deserting]) (by simp)
  have hp : ((World.start .allow).trace (along deserting) 24).isUnused ⟨"/a"⟩ = true := by decide +kernel
  exact ⟨h, hp, tracked_iff_counted_iff h hp⟩

/-- Nobody can go on, no operation is unfinished, and the path is tracked though nobody counts there. -/
theorem cancelled_unwatch_leaks_entry :
    ((World.start .allow).trace (along deserting) 24).tasks.quiet = true ∧
      ((World.start .allow).trace (along deserting) 24).isUnused ⟨"/a"⟩ = true ∧
      ((World.start .allow).trace (along deserting) 24).isTracked ⟨"/a"⟩ = true ∧
      ((World.start .allow).trace (along deserting) 24).subscriberCount ⟨"/a"⟩ = 0 := by
  have h : (((World.start .allow).trace (along deserting) 24).tasks.quiet &&
      ((World.start .allow).trace (along deserting) 24).isUnused ⟨"/a"⟩ &&
      ((World.start .allow).trace (along deserting) 24).isTracked ⟨"/a"⟩ &&
      decide (((World.start .allow).trace (along deserting) 24).subscriberCount ⟨"/a"⟩ = 0)) = true := by decide +kernel
  simp only [Bool.and_eq_true, decide_eq_true_eq] at h
  exact ⟨h.1.1.1, h.1.1.2, h.1.2, h.2⟩

end Engine

end LiveFiles
