/-
The lines at the paths. `Turns.lineAt t k` are the turns in line at a path, the one that holds the lock first; a turn that
is only reserved is not in line. `Turns.Lined t queued` says that the turns of a list are those in line, each once, and
that no line waits for a lock that nobody holds. Of what can be done with turns
- reserving one changes no line (`Accounted.lineAt_reserve`, `Lined.reserve`);
- queueing up puts it last in the line of its path (`Accounted.lineAt_queueUp`, `Lined.queueUp`);
- giving it back takes it out of the line, wherever it stands (`Accounted.lineAt_giveBack`, `Lined.giveBack`).
The other paths keep their lines. A live turn holds its lock exactly if it is the first in line (`Lined.holds_iff`).
-/
import LiveFiles.Proofs.Ledger

namespace LiveFiles.Turns

/-- the turns in line at a path, the one that holds the lock first -/
def lineAt (t : Turns) (k : Path.Key) : List TurnId := (t.slots.get? k).elim [] fun s => Lock.line (t.lock s.lock)

/-- the turns of a list are those in line -/
structure Lined (t : Turns) (queued : List Turn) : Prop where
  mem : ∀ k x, x ∈ t.lineAt k ↔ ∃ τ ∈ queued, τ.key = k ∧ τ.id = x
  nodup : ∀ k, (t.lineAt k).Nodup
  /-- nobody waits for a lock that nobody holds -/
  free : ∀ k s, t.slots.get? k = some s → (t.lock s.lock).holder = none → (t.lock s.lock).queue = []

variable {t : Turns} {live queued l : List Turn} {τ σ : Turn} {k : Path.Key}

theorem lined_empty : ({} : Turns).Lined [] := by
  constructor <;> intro k <;> simp [lineAt]

theorem lineAt_of_some {s : Slot} (hs : t.slots.get? k = some s) : t.lineAt k = Lock.line (t.lock s.lock) := by
  rw [lineAt, hs]
  rfl

theorem lineAt_of_none (hs : t.slots.get? k = none) : t.lineAt k = [] := by
  rw [lineAt, hs]
  rfl

theorem Accounted.lineAt_eq (h : t.Accounted live) (hτ : τ ∈ live) : t.lineAt τ.key = Lock.line (t.lock τ.lock) := by
  obtain ⟨s, hs, hl⟩ := h.slot τ hτ
  rw [lineAt_of_some hs, hl]

theorem Lined.perm (h : t.Lined queued) (hl : queued.Perm l) : t.Lined l where
  mem k x := by simp only [h.mem k x, hl.mem_iff]
  nodup := h.nodup
  free := h.free

/-- a live turn is in line at its path exactly if it is among those that have queued up -/
theorem Lined.id_mem_iff (h : t.Lined queued) (ha : t.Accounted live) (hs : queued ⊆ live) (hτ : τ ∈ live) :
    τ.id ∈ t.lineAt τ.key ↔ τ ∈ queued := by
  rw [h.mem]
  constructor
  · rintro ⟨σ, hσ, -, hid⟩
    rwa [← ha.eq_of_id (hs hσ) hτ hid]
  · intro hin
    exact ⟨τ, hin, rfl, rfl⟩

/-- **The lock is held by the first in line.** -/
theorem Lined.holds_iff (h : t.Lined queued) (ha : t.Accounted live) (hτ : τ ∈ live) :
    t.holds τ = true ↔ (t.lineAt τ.key).head? = some τ.id := by
  obtain ⟨s, hs, hl⟩ := ha.slot τ hτ
  rw [ha.lineAt_eq hτ, holds, decide_eq_true_eq, Lock.line]
  cases hh : (t.lock τ.lock).holder with
  | some x => rfl
  | none =>
    have hq := h.free _ s hs
    rw [hl] at hq
    simp [hq hh]

/-! ## Reserving -/

/-- the lock that a new turn is to queue up for, just as it was before, or a new one that nobody is in line for -/
theorem Accounted.lock_reserve_self (h : t.Accounted live) (k : Path.Key) :
    (t.reserve k).2.lock (t.reserve k).1.lock = ((t.slots.get? k).map fun s => t.lock s.lock).getD {} := by
  cases hs : t.slots.get? k with
  | some s =>
    have hlock : (t.reserve k).1.lock = s.lock := by rw [reserve_lock, hs]
    rw [hlock, lock_reserve t k (h.lockFresh k s hs)]
    rfl
  | none =>
    have hlock : (t.reserve k).1.lock = t.nextLock := by rw [reserve_lock, hs]
    rw [hlock, Turns.reserve, hs]
    simp [lock, Table.getD, Table.get?_insert]

theorem Accounted.lineAt_reserve (h : t.Accounted live) (k k' : Path.Key) : (t.reserve k).2.lineAt k' = t.lineAt k' := by
  by_cases e : k = k'
  · subst e
    rw [lineAt_of_some ((slots_reserve t k k).trans (if_pos rfl)), h.lock_reserve_self]
    cases hs : t.slots.get? k with
    | some s => exact (lineAt_of_some hs).symm
    | none => exact (lineAt_of_none hs).symm
  · have hslot := slots_reserve t k k'
    rw [if_neg e] at hslot
    cases hs : t.slots.get? k' with
    | some s => rw [lineAt_of_some (hslot.trans hs), lineAt_of_some hs, lock_reserve t k (h.lockFresh k' s hs)]
    | none => rw [lineAt_of_none (hslot.trans hs), lineAt_of_none hs]

theorem Lined.reserve (h : t.Lined queued) (ha : t.Accounted live) (k : Path.Key) : (t.reserve k).2.Lined queued where
  mem k' x := by rw [ha.lineAt_reserve, h.mem]
  nodup k' := by
    rw [ha.lineAt_reserve]
    exact h.nodup k'
  free k' s hs hh := by
    rw [slots_reserve] at hs
    split at hs
    · cases hs
      rw [ha.lock_reserve_self] at hh ⊢
      cases hs : t.slots.get? k with
      | some s =>
        rw [hs] at hh
        exact h.free k s hs hh
      | none => rfl
    · rw [lock_reserve t k (ha.lockFresh k' s hs)] at hh ⊢
      exact h.free k' s hs hh

/-! ## Queueing up -/

theorem Lock.line_join_of_free {l : Lock} (hl : l.holder = none → l.queue = []) (id : TurnId) :
    Lock.line (Lock.join l id) = Lock.line l ++ [id] := by
  cases hh : l.holder with
  | some x => exact Lock.line_join (by rw [hh]; rfl) id
  | none => simp [Lock.line, Lock.join, hh, hl hh]

theorem Accounted.lineAt_queueUp (ha : t.Accounted live) (h : t.Lined queued) (hτ : τ ∈ live) (k : Path.Key) :
    (t.queueUp τ).lineAt k = if τ.key = k then t.lineAt k ++ [τ.id] else t.lineAt k := by
  obtain ⟨s, hs, hl⟩ := ha.slot τ hτ
  split
  · rename_i e
    subst e
    rw [lineAt_of_some (t := t.queueUp τ) hs, lineAt_of_some hs, lock_queueUp, hl, if_pos rfl, ← hl]
    exact Lock.line_join_of_free (h.free _ s hs) τ.id
  · rename_i e
    cases hs' : t.slots.get? k with
    | none => rw [lineAt_of_none (t := t.queueUp τ) hs', lineAt_of_none hs']
    | some s' =>
      have hne : τ.lock ≠ s'.lock := fun e' => e (ha.lockInj _ _ s s' hs hs' (hl.trans e'))
      rw [lineAt_of_some (t := t.queueUp τ) hs', lineAt_of_some hs', lock_queueUp, if_neg hne]

theorem Lined.queueUp (h : t.Lined queued) (ha : t.Accounted live) (hs : queued ⊆ live) (hτ : τ ∈ live)
    (hq : τ ∉ queued) : (t.queueUp τ).Lined (τ :: queued) where
  mem k x := by
    rw [ha.lineAt_queueUp h hτ]
    split
    · rename_i e
      simp only [List.mem_append, List.mem_singleton, List.exists_mem_cons_iff, h.mem k x]
      constructor
      · rintro (hold | rfl)
        · exact Or.inr hold
        · exact Or.inl ⟨e, rfl⟩
      · rintro (⟨-, rfl⟩ | hold)
        · exact Or.inr rfl
        · exact Or.inl hold
    · rename_i e
      simp only [List.exists_mem_cons_iff, h.mem k x, e, false_and, false_or]
  nodup k := by
    rw [ha.lineAt_queueUp h hτ]
    split
    · rename_i e
      have hnew : τ.id ∉ t.lineAt k := by
        rw [← e, h.id_mem_iff ha hs hτ]
        exact hq
      exact List.nodup_append.2 ⟨h.nodup k, List.nodup_singleton _, by
        intro a hin b hb e
        rw [List.mem_singleton.1 hb] at e
        exact hnew (e ▸ hin)⟩
    · exact h.nodup k
  free k s hs hh := by
    rw [lock_queueUp] at hh ⊢
    split at hh
    · rw [Lock.holder_join] at hh
      cases hh
    · rename_i e
      rw [if_neg e]
      exact h.free k s hs hh

/-! ## Giving back -/

theorem Lock.line_leave_of_free {l : Lock} (hl : l.holder = none → l.queue = []) (id : TurnId) :
    Lock.line (Lock.leave l id).1 = (Lock.line l).erase id := by
  cases hh : l.holder with
  | some x => exact Lock.line_leave (by rw [hh]; rfl) id
  | none => simp [Lock.line, Lock.leave, hh, hl hh]

theorem Lock.free_leave {l : Lock} (hl : l.holder = none → l.queue = []) (id : TurnId)
    (h : (Lock.leave l id).1.holder = none) : (Lock.leave l id).1.queue = [] := by
  unfold Lock.leave at h ⊢
  split
  · rename_i e
    cases hq : l.queue with
    | nil => rfl
    | cons x rest => simp [e, hq] at h
  · rename_i e
    rw [if_neg e] at h
    simp [hl h]

/-- a turn that is alone at its path leaves no line behind -/
theorem Lined.erase_of_alone (h : t.Lined queued) (hs : queued ⊆ live) (hone : ∀ σ ∈ live, σ.key = τ.key → σ = τ) :
    (t.lineAt τ.key).erase τ.id = [] := by
  refine List.eq_nil_iff_forall_not_mem.2 fun x hx => ?_
  obtain ⟨hne, hin⟩ := (h.nodup τ.key).mem_erase_iff.1 hx
  obtain ⟨σ, hσ, hk, rfl⟩ := (h.mem _ _).1 hin
  exact hne (congrArg Turn.id (hone σ (hs hσ) hk))

theorem Accounted.lineAt_giveBack (ha : t.Accounted live) (h : t.Lined queued) (hs : queued ⊆ live) (hτ : τ ∈ live)
    (k : Path.Key) : (t.giveBack τ).1.lineAt k = if τ.key = k then (t.lineAt k).erase τ.id else t.lineAt k := by
  obtain ⟨n, hn⟩ := ha.slot_eq hτ
  have hslot := slots_giveBack t τ k
  split
  · rename_i e
    subst e
    rw [if_pos rfl, hn, Option.bind_some] at hslot
    by_cases hn0 : n + 1 - 1 = 0
    · -- the last turn at the path takes the lock with it
      rw [if_pos hn0] at hslot
      have hlen : (among live τ.key).length = 1 := by
        rw [← ha.users _ _ hn]
        exact congrArg (· + 1) hn0
      obtain ⟨ρ, hρ⟩ := List.length_eq_one_iff.1 hlen
      have hone : ∀ σ ∈ live, σ.key = τ.key → σ = τ := by
        intro σ hσ hk
        have hσ' : σ ∈ among live τ.key := mem_among.2 ⟨hσ, hk⟩
        have hτ' : τ ∈ among live τ.key := mem_among.2 ⟨hτ, rfl⟩
        rw [hρ, List.mem_singleton] at hσ' hτ'
        rw [hσ', hτ']
      rw [lineAt_of_none hslot, h.erase_of_alone hs hone]
    · rw [if_neg hn0] at hslot
      rw [lineAt_of_some hslot, lineAt_of_some hn, lock_giveBack_self hn hn0]
      exact Lock.line_leave_of_free (h.free _ _ hn) τ.id
  · rename_i e
    rw [if_neg e] at hslot
    cases hs' : t.slots.get? k with
    | none => rw [lineAt_of_none (hslot.trans hs'), lineAt_of_none hs']
    | some s' =>
      have hne : τ.lock ≠ s'.lock := fun e' => e (ha.lockInj _ _ _ s' hn hs' e')
      rw [lineAt_of_some (hslot.trans hs'), lineAt_of_some hs', lock_giveBack_of_ne hn hne]

theorem Lined.giveBack (h : t.Lined queued) (ha : t.Accounted live) (hs : queued.Sublist live) (hτ : τ ∈ live) :
    (t.giveBack τ).1.Lined (queued.erase τ) where
  mem k x := by
    have hnd : queued.Nodup := (List.Nodup.of_map _ ha.nodup).sublist hs
    rw [ha.lineAt_giveBack h hs.subset hτ]
    split
    · rename_i e
      rw [(h.nodup k).mem_erase_iff, h.mem k x]
      constructor
      · rintro ⟨hne, σ, hσ, hk, rfl⟩
        exact ⟨σ, (hnd.mem_erase_iff).2 ⟨fun e => hne (congrArg Turn.id e), hσ⟩, hk, rfl⟩
      · rintro ⟨σ, hσ, hk, rfl⟩
        obtain ⟨hne, hσ⟩ := hnd.mem_erase_iff.1 hσ
        exact ⟨fun e => hne (ha.eq_of_id (hs.subset hσ) hτ e), σ, hσ, hk, rfl⟩
    · rename_i e
      rw [h.mem k x]
      constructor
      · rintro ⟨σ, hσ, hk, hx⟩
        exact ⟨σ, (hnd.mem_erase_iff).2 ⟨fun e' => e (e' ▸ hk), hσ⟩, hk, hx⟩
      · rintro ⟨σ, hσ, hrest⟩
        exact ⟨σ, List.mem_of_mem_erase hσ, hrest⟩
  nodup k := by
    rw [ha.lineAt_giveBack h hs.subset hτ]
    split
    · exact (h.nodup k).erase _
    · exact h.nodup k
  free k s hk hh := by
    obtain ⟨n, hn⟩ := ha.slot_eq hτ
    rcases ha.slots_giveBack_cases hτ hk with ⟨rfl, hs', hl, hu⟩ | ⟨hne, hs'⟩
    · have hn0 : n + 1 - 1 ≠ 0 := by
        rw [hn] at hs'
        have husers : n + 1 = s.users + 1 := congrArg Slot.users (Option.some.inj hs')
        omega
      rw [hl, lock_giveBack_self hn hn0] at hh ⊢
      exact Lock.free_leave (h.free _ _ hn) τ.id hh
    · have hlock : τ.lock ≠ s.lock := fun e => hne (ha.lockInj _ _ _ s hn hs' e).symm
      rw [lock_giveBack_of_ne hn hlock] at hh ⊢
      exact h.free k s hs' hh

end LiveFiles.Turns
