/-
The turns that have been reserved and not given back, kept as a list. `Turns.Accounted t live` says that slots and locks
account for exactly the turns of the list, be they in line for their lock or not yet. It is kept by all that can be done
with turns, put down as `Turns.Dealt`: turns are reserved, queue up and are given back in any order, and each time a
turn is given back the slot of its path has it on the books.
- the slot of a path counts the turns there, and has one to count (`Accounted.users`, `Accounted.used`);
- all turns at a path have one lock, which no other path has (`Accounted.same_lock`);
- a path is idle exactly if nobody has a turn there (`Accounted.isIdle_iff`), and the active paths are those at which
  somebody has one (`Accounted.activePaths_eq`);
- a turn that holds its lock holds it until it is given back, and it alone (`Dealt.holds`, `Accounted.holds_unique`).
-/
import LiveFiles.Proofs.Turns

namespace LiveFiles.Turns

/-- those of the turns that are at the path -/
def among (live : List Turn) (k : Path.Key) : List Turn := live.filter (·.key = k)

/-- slots and locks account for the turns of a list -/
structure Accounted (t : Turns) (live : List Turn) : Prop where
  slot : ∀ τ ∈ live, ∃ s, t.slots.get? τ.key = some s ∧ s.lock = τ.lock
  users : ∀ k s, t.slots.get? k = some s → s.users = (among live k).length
  used : ∀ k s, t.slots.get? k = some s → 0 < s.users
  nodup : (live.map Turn.id).Nodup
  fresh : ∀ τ ∈ live, τ.id < t.nextTurn
  lockFresh : ∀ k s, t.slots.get? k = some s → s.lock < t.nextLock
  lockInj : ∀ k k' s s', t.slots.get? k = some s → t.slots.get? k' = some s' → s.lock = s'.lock → k = k'

/-- What can happen to turns: they are reserved, queue up and are given back. A turn is given back only while it is
live, and when the slot of its path counts at least one. -/
inductive Dealt (t : Turns) (live : List Turn) : Turns → List Turn → Prop
  | nothing : Dealt t live t live
  | reserve {t' l} (k : Path.Key) : Dealt t live t' l → Dealt t live (t'.reserve k).2 ((t'.reserve k).1 :: l)
  | queueUp {t' l τ} : τ ∈ l → Dealt t live t' l → Dealt t live (t'.queueUp τ) l
  | giveBack {t' l τ n} : τ ∈ l → t'.slots.get? τ.key = some ⟨τ.lock, n + 1⟩ → Dealt t live t' l →
    Dealt t live (t'.giveBack τ).1 (l.erase τ)
  | reorder {t' l l'} : l.Perm l' → Dealt t live t' l → Dealt t live t' l'

variable {t t' : Turns} {live l l' : List Turn} {τ σ : Turn} {k : Path.Key}

theorem mem_among : τ ∈ among live k ↔ τ ∈ live ∧ τ.key = k := by simp [among]

theorem among_cons (τ : Turn) (live : List Turn) (k : Path.Key) :
    among (τ :: live) k = if τ.key = k then τ :: among live k else among live k := by
  simp [among, List.filter_cons]

theorem among_erase (hτ : τ ∈ live) (k : Path.Key) :
    (among (live.erase τ) k).length = if τ.key = k then (among live k).length - 1 else (among live k).length := by
  have hperm : (among live k).Perm (among (τ :: live.erase τ) k) := (List.perm_cons_erase hτ).filter _
  rw [hperm.length_eq, among_cons]
  split <;> simp

/-! ## What the books say -/

theorem accounted_empty : ({} : Turns).Accounted [] := by
  constructor
  case nodup => exact List.nodup_nil
  all_goals intro; simp

/-- the slot of a live turn, which counts it -/
theorem Accounted.slot_eq (h : t.Accounted live) (hτ : τ ∈ live) :
    ∃ n, t.slots.get? τ.key = some ⟨τ.lock, n + 1⟩ := by
  obtain ⟨s, hs, hl⟩ := h.slot τ hτ
  obtain ⟨n, hn⟩ := Nat.exists_eq_succ_of_ne_zero (h.used _ s hs).ne'
  exact ⟨n, by rw [hs, ← hl, ← Nat.succ_eq_add_one, ← hn]⟩

theorem Accounted.same_lock (h : t.Accounted live) (hτ : τ ∈ live) (hσ : σ ∈ live) :
    τ.lock = σ.lock ↔ τ.key = σ.key := by
  obtain ⟨s, hs, hl⟩ := h.slot τ hτ
  obtain ⟨s', hs', hl'⟩ := h.slot σ hσ
  constructor
  · intro e
    exact h.lockInj _ _ s s' hs hs' (hl.trans (e.trans hl'.symm))
  · intro e
    rw [e, hs'] at hs
    rw [← hl, ← hl', Option.some.inj hs]

/-- the number that the slot of a path counts, none if there is no slot -/
theorem Accounted.users_eq (h : t.Accounted live) (k : Path.Key) :
    ((t.slots.get? k).map Slot.users).getD 0 = (among live k).length := by
  cases hs : t.slots.get? k with
  | some s => exact h.users k s hs
  | none =>
    have hno : among live k = [] := List.eq_nil_iff_forall_not_mem.2 fun τ hτ => by
      obtain ⟨hin, rfl⟩ := mem_among.1 hτ
      obtain ⟨s, hs', -⟩ := h.slot τ hin
      rw [hs] at hs'
      cases hs'
    simp [hno]

theorem Accounted.slot_isSome_iff (h : t.Accounted live) (k : Path.Key) :
    (t.slots.get? k).isSome ↔ ∃ τ ∈ live, τ.key = k := by
  constructor
  · intro hk
    obtain ⟨s, hs⟩ := Option.isSome_iff_exists.1 hk
    have hpos := h.used k s hs
    rw [h.users k s hs] at hpos
    obtain ⟨τ, hτ⟩ := List.exists_mem_of_length_pos hpos
    exact ⟨τ, mem_among.1 hτ⟩
  · rintro ⟨τ, hτ, rfl⟩
    obtain ⟨s, hs, -⟩ := h.slot τ hτ
    rw [hs]
    rfl

theorem Accounted.isIdle_iff (h : t.Accounted live) (k : Path.Key) : t.isIdle k = true ↔ ∀ τ ∈ live, τ.key ≠ k := by
  have hk := h.slot_isSome_iff k
  rw [isIdle, Table.contains, Bool.not_eq_true', ← Bool.not_eq_true, hk]
  simp

/-- the active paths are those at which there is a live turn, each counted once -/
theorem Accounted.activePaths_eq (h : t.Accounted live) : t.activePaths = (live.map Turn.key).dedup.length := by
  have hmem : ∀ k, k ∈ t.slots.keys ↔ k ∈ (live.map Turn.key).dedup := by
    intro k
    rw [List.mem_dedup, List.mem_map, ← h.slot_isSome_iff k, Table.keys, List.mem_map, Option.isSome_iff_exists]
    constructor
    · rintro ⟨⟨k', s⟩, hr, rfl⟩
      exact ⟨s, Table.get?_eq_some_iff.2 hr⟩
    · rintro ⟨s, hs⟩
      exact ⟨(k, s), Table.get?_eq_some_iff.1 hs, rfl⟩
  have hperm : t.slots.keys.Perm (live.map Turn.key).dedup :=
    (List.perm_ext_iff_of_nodup t.slots.nodup (List.nodup_dedup _)).2 hmem
  rw [← hperm.length_eq]
  simp [activePaths, Table.size, Table.keys]

theorem Accounted.eq_of_id (h : t.Accounted live) (hτ : τ ∈ live) (hσ : σ ∈ live) (e : τ.id = σ.id) : τ = σ :=
  List.inj_on_of_nodup_map h.nodup hτ hσ e

/-- at most one of the live turns at a path holds the lock -/
theorem Accounted.holds_unique (h : t.Accounted live) (hτ : τ ∈ live) (hσ : σ ∈ live) (hk : τ.key = σ.key)
    (hhτ : t.holds τ = true) (hhσ : t.holds σ = true) : τ = σ := by
  have hl := (h.same_lock hτ hσ).2 hk
  simp only [holds, decide_eq_true_eq] at hhτ hhσ
  rw [hl, hhσ] at hhτ
  exact h.eq_of_id hτ hσ (Option.some.inj hhτ).symm

/-! ## What keeps the books -/

theorem Accounted.perm (h : t.Accounted l) (hl : l.Perm l') : t.Accounted l' where
  slot τ hτ := h.slot τ (hl.mem_iff.2 hτ)
  users k s hs := (h.users k s hs).trans (hl.filter _).length_eq
  used := h.used
  nodup := (hl.map Turn.id).nodup_iff.1 h.nodup
  fresh τ hτ := h.fresh τ (hl.mem_iff.2 hτ)
  lockFresh := h.lockFresh
  lockInj := h.lockInj

/-- queueing up changes no slot -/
theorem Accounted.queueUp (h : t.Accounted live) (τ : Turn) : (t.queueUp τ).Accounted live where
  slot := h.slot
  users := h.users
  used := h.used
  nodup := h.nodup
  fresh := h.fresh
  lockFresh := h.lockFresh
  lockInj := h.lockInj

theorem reserve_id (t : Turns) (k : Path.Key) : (t.reserve k).1.id = t.nextTurn := enlist_id t k

theorem reserve_key (t : Turns) (k : Path.Key) : (t.reserve k).1.key = k := enlist_key t k

theorem reserve_lock (t : Turns) (k : Path.Key) :
    (t.reserve k).1.lock = match t.slots.get? k with | some s => s.lock | none => t.nextLock := enlist_lock t k

theorem nextTurn_reserve (t : Turns) (k : Path.Key) : (t.reserve k).2.nextTurn = t.nextTurn + 1 := nextTurn_enlist t k

theorem nextLock_reserve (t : Turns) (k : Path.Key) : t.nextLock ≤ (t.reserve k).2.nextLock := nextLock_enlist t k

theorem slots_reserve (t : Turns) (k k' : Path.Key) :
    (t.reserve k).2.slots.get? k' =
      if k = k' then some ⟨(t.reserve k).1.lock, ((t.slots.get? k).map Slot.users).getD 0 + 1⟩ else t.slots.get? k' :=
  slots_enlist t k k'

/-- no lock made so far changes when a turn is reserved -/
theorem lock_reserve (t : Turns) (k : Path.Key) {b : LockId} (hb : b < t.nextLock) : (t.reserve k).2.lock b = t.lock b := by
  unfold reserve
  split
  · rfl
  · simp [lock, Table.getD, Table.get?_insert, hb.ne']

theorem Accounted.reserve_lock_lt (h : t.Accounted live) (k : Path.Key) :
    (t.reserve k).1.lock < (t.reserve k).2.nextLock := by
  unfold Turns.reserve
  split
  · rename_i s hs
    exact h.lockFresh k s hs
  · exact Nat.lt_succ_self _

/-- the lock of a new turn is not that of another path -/
theorem Accounted.reserve_lock_ne (h : t.Accounted live) {k k' : Path.Key} (hk : k ≠ k') {s : Slot}
    (hs : t.slots.get? k' = some s) : (t.reserve k).1.lock ≠ s.lock := by
  rw [reserve_lock]
  split
  · rename_i s' hs'
    exact fun e => hk (h.lockInj k k' s' s hs' hs e)
  · exact (h.lockFresh k' s hs).ne'

theorem Accounted.reserve (h : t.Accounted live) (k : Path.Key) :
    (t.reserve k).2.Accounted ((t.reserve k).1 :: live) := by
  have hid : (t.reserve k).1.id ∉ live.map Turn.id := by
    intro hin
    obtain ⟨τ, hτ, e⟩ := List.mem_map.1 hin
    rw [reserve_id] at e
    exact (h.fresh τ hτ).ne e
  constructor
  case slot =>
    intro τ hτ
    rw [slots_reserve]
    rcases List.mem_cons.1 hτ with rfl | hτ
    · exact ⟨_, if_pos (reserve_key t k).symm, rfl⟩
    · obtain ⟨s, hs, hl⟩ := h.slot τ hτ
      by_cases e : k = τ.key
      · refine ⟨_, if_pos e, ?_⟩
        rw [reserve_lock, e, hs]
        exact hl
      · exact ⟨s, by rw [if_neg e, hs], hl⟩
  case users =>
    intro k' s hs
    rw [slots_reserve] at hs
    rw [among_cons, reserve_key]
    split at hs
    · rename_i e
      cases hs
      rw [if_pos e, List.length_cons, h.users_eq, e]
    · rename_i e
      rw [if_neg e]
      exact h.users k' s hs
  case used =>
    intro k' s hs
    rw [slots_reserve] at hs
    split at hs
    · cases hs
      exact Nat.succ_pos _
    · exact h.used k' s hs
  case nodup => exact List.nodup_cons.2 ⟨hid, h.nodup⟩
  case fresh =>
    intro τ hτ
    rw [nextTurn_reserve]
    rcases List.mem_cons.1 hτ with rfl | hτ
    · rw [reserve_id]
      exact Nat.lt_succ_self _
    · exact (h.fresh τ hτ).trans (Nat.lt_succ_self _)
  case lockFresh =>
    intro k' s hs
    rw [slots_reserve] at hs
    split at hs
    · cases hs
      exact h.reserve_lock_lt k
    · exact lt_of_lt_of_le (h.lockFresh k' s hs) (nextLock_reserve t k)
  case lockInj =>
    intro k₁ k₂ s₁ s₂ hs₁ hs₂ e
    rw [slots_reserve] at hs₁ hs₂
    split at hs₁ <;> split at hs₂
    · rename_i e₁ e₂
      exact e₁.symm.trans e₂
    · rename_i _ e₂
      cases hs₁
      exact absurd e (h.reserve_lock_ne e₂ hs₂)
    · rename_i e₁ _
      cases hs₂
      exact absurd e.symm (h.reserve_lock_ne e₁ hs₁)
    · exact h.lockInj k₁ k₂ s₁ s₂ hs₁ hs₂ e

/-- A slot afterwards is that of the turn's path, with one user less but not none, or one of another path. -/
theorem Accounted.slots_giveBack_cases (h : t.Accounted live) (hτ : τ ∈ live) {s : Slot}
    (hs : (t.giveBack τ).1.slots.get? k = some s) :
    (k = τ.key ∧ t.slots.get? k = some ⟨s.lock, s.users + 1⟩ ∧ s.lock = τ.lock ∧ 0 < s.users) ∨
      (k ≠ τ.key ∧ t.slots.get? k = some s) := by
  obtain ⟨n, hn⟩ := h.slot_eq hτ
  rw [slots_giveBack] at hs
  split at hs
  · rename_i e
    subst e
    rw [hn, Option.bind_some] at hs
    split at hs
    · cases hs
    · rename_i hu
      cases hs
      exact Or.inl ⟨rfl, hn, rfl, Nat.pos_of_ne_zero hu⟩
  · rename_i e
    exact Or.inr ⟨Ne.symm e, hs⟩

theorem Accounted.giveBack (h : t.Accounted live) (hτ : τ ∈ live) : (t.giveBack τ).1.Accounted (live.erase τ) := by
  have hold : ∀ {k s}, (t.giveBack τ).1.slots.get? k = some s → ∃ s', t.slots.get? k = some s' ∧ s'.lock = s.lock := by
    intro k s hs
    rcases h.slots_giveBack_cases hτ hs with ⟨-, hs', -⟩ | ⟨-, hs'⟩
    · exact ⟨_, hs', rfl⟩
    · exact ⟨_, hs', rfl⟩
  constructor
  case slot =>
    intro σ hσ
    have hσ' : σ ∈ live := List.mem_of_mem_erase hσ
    obtain ⟨s, hs, hl⟩ := h.slot σ hσ'
    rw [slots_giveBack]
    split
    · rename_i e
      -- the other turn at the path is still counted
      have hlen := among_erase hτ σ.key
      rw [if_pos e, ← h.users _ s hs] at hlen
      have hpos : 0 < (among (live.erase τ) σ.key).length := List.length_pos_of_mem (mem_among.2 ⟨hσ, rfl⟩)
      rw [hs, Option.bind_some, if_neg (by omega)]
      exact ⟨_, rfl, hl⟩
    · exact ⟨s, hs, hl⟩
  case users =>
    intro k s hs
    rw [among_erase hτ]
    rcases h.slots_giveBack_cases hτ hs with ⟨rfl, hs', -⟩ | ⟨hk, hs'⟩
    · rw [if_pos rfl, ← h.users _ _ hs']
      rfl
    · rw [if_neg hk.symm]
      exact h.users k s hs'
  case used =>
    intro k s hs
    rcases h.slots_giveBack_cases hτ hs with ⟨-, -, -, hu⟩ | ⟨-, hs'⟩
    · exact hu
    · exact h.used k s hs'
  case nodup => exact h.nodup.sublist (List.erase_sublist.map _)
  case fresh =>
    intro σ hσ
    rw [nextTurn_giveBack]
    exact h.fresh σ (List.mem_of_mem_erase hσ)
  case lockFresh =>
    intro k s hs
    obtain ⟨s', hs', hl⟩ := hold hs
    rw [nextLock_giveBack, ← hl]
    exact h.lockFresh k s' hs'
  case lockInj =>
    intro k₁ k₂ s₁ s₂ hs₁ hs₂ e
    obtain ⟨s₁', hs₁', hl₁⟩ := hold hs₁
    obtain ⟨s₂', hs₂', hl₂⟩ := hold hs₂
    exact h.lockInj k₁ k₂ s₁' s₂' hs₁' hs₂' (hl₁.trans (e.trans hl₂.symm))

theorem Dealt.trans {u : Turns} {m : List Turn} (hd : Dealt t live t' l) (hd' : Dealt t' l u m) : Dealt t live u m := by
  induction hd' with
  | nothing => exact hd
  | reserve k _ ih => exact .reserve k ih
  | queueUp hτ _ ih => exact .queueUp hτ ih
  | giveBack hτ hs _ ih => exact .giveBack hτ hs ih
  | reorder hl _ ih => exact .reorder hl ih

/-- whatever is done with turns, the books stay right -/
theorem Dealt.accounted (hd : Dealt t live t' l) (h : t.Accounted live) : t'.Accounted l := by
  induction hd with
  | nothing => exact h
  | reserve k _ ih => exact ih.reserve k
  | queueUp _ _ ih => exact ih.queueUp _
  | giveBack hτ _ _ ih => exact ih.giveBack hτ
  | reorder hl _ ih => exact ih.perm hl

/-- a live turn can be given back, which finds it on the books -/
theorem Dealt.back (hd : Dealt t live t' l) (h : t.Accounted live) (hτ : τ ∈ l) :
    Dealt t live (t'.giveBack τ).1 (l.erase τ) := by
  obtain ⟨n, hn⟩ := (hd.accounted h).slot_eq hτ
  exact .giveBack hτ hn hd

/-! ## The lock of a live turn -/

theorem Accounted.lock_lt (h : t.Accounted live) (hτ : τ ∈ live) : τ.lock < t.nextLock := by
  obtain ⟨s, hs, hl⟩ := h.slot τ hτ
  rw [← hl]
  exact h.lockFresh _ s hs

theorem holds_queueUp (σ : Turn) (h : t.holds τ = true) : (t.queueUp σ).holds τ = true := by
  simp only [holds, decide_eq_true_eq] at *
  rw [lock_queueUp]
  split
  · rename_i e
    rw [e, Lock.holder_join, h]
    rfl
  · exact h

theorem Accounted.holds_giveBack_of_mem (h : t.Accounted live) (hσ : σ ∈ live) (hτ : τ ∈ live.erase σ)
    (hh : t.holds τ = true) : (t.giveBack σ).1.holds τ = true := by
  have hτ' : τ ∈ live := List.mem_of_mem_erase hτ
  have hne : τ.id ≠ σ.id := by
    intro e
    rw [h.eq_of_id hτ' hσ e] at hτ
    exact ((List.Nodup.of_map _ h.nodup).mem_erase_iff.1 hτ).1 rfl
  obtain ⟨n, hn⟩ := h.slot_eq hσ
  by_cases hl : σ.lock = τ.lock
  · -- the path keeps its slot, since the turn that holds the lock is still there
    obtain ⟨s, hs, -⟩ := (h.giveBack hσ).slot τ hτ
    rw [← (h.same_lock hσ hτ').1 hl] at hs
    have hn0 : n + 1 - 1 ≠ 0 := by
      intro e
      rw [slots_giveBack, if_pos rfl, hn, Option.bind_some, if_pos e] at hs
      cases hs
    simp only [holds, decide_eq_true_eq] at *
    rw [← hl] at hh ⊢
    rw [lock_giveBack_self hn hn0, Lock.leave, if_neg (by rw [hh]; simpa using hne)]
    exact hh
  · simp only [holds, decide_eq_true_eq] at *
    rw [lock_giveBack_of_ne hn hl]
    exact hh

theorem Dealt.nextTurn_le (hd : Dealt t live t' l) : t.nextTurn ≤ t'.nextTurn := by
  induction hd with
  | nothing => exact le_rfl
  | reserve k _ ih =>
    rw [nextTurn_reserve]
    exact ih.trans (Nat.le_succ _)
  | queueUp _ _ ih => exact ih
  | giveBack _ _ _ ih =>
    rw [nextTurn_giveBack]
    exact ih
  | reorder _ _ ih => exact ih

/-- a turn that is live afterwards was live before, or is new -/
theorem Dealt.mem_or_new (hd : Dealt t live t' l) (hτ : τ ∈ l) : τ ∈ live ∨ t.nextTurn ≤ τ.id := by
  induction hd with
  | nothing => exact Or.inl hτ
  | reserve k hd ih =>
    rcases List.mem_cons.1 hτ with rfl | hτ
    · rw [reserve_id]
      exact Or.inr hd.nextTurn_le
    · exact ih hτ
  | queueUp _ _ ih => exact ih hτ
  | giveBack _ _ _ ih => exact ih (List.mem_of_mem_erase hτ)
  | reorder hp _ ih => exact ih (hp.mem_iff.2 hτ)

/-- a turn that holds its lock goes on holding it as long as it is live -/
theorem Dealt.holds (hd : Dealt t live t' l) (h : t.Accounted live) (hτ : τ ∈ live) (hh : t.holds τ = true)
    (hl : τ ∈ l) : t'.holds τ = true := by
  induction hd with
  | nothing => exact hh
  | @reserve t' l k hd ih =>
    -- a turn that is gone does not come back, because the numbers of new turns are new
    have hne : τ ≠ (t'.reserve k).1 := by
      intro e
      have hid := reserve_id t' k
      rw [← e] at hid
      exact (lt_of_lt_of_le (h.fresh τ hτ) hd.nextTurn_le).ne hid
    have hin : τ ∈ l := (List.mem_cons.1 hl).resolve_left hne
    have hlock := lock_reserve t' k ((hd.accounted h).lock_lt hin)
    have hbefore := ih hin
    simp only [Turns.holds, decide_eq_true_eq] at hbefore ⊢
    rw [hlock]
    exact hbefore
  | queueUp _ _ ih => exact holds_queueUp _ (ih hl)
  | giveBack hσ _ hd ih => exact (hd.accounted h).holds_giveBack_of_mem hσ hl (ih (List.mem_of_mem_erase hl))
  | reorder hp _ ih => exact ih (hp.mem_iff.2 hl)

end LiveFiles.Turns
