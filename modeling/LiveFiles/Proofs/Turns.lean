/-
Soundness of the turns. `held i` is the turn that task `i` has, if it has one; `Turns.Sound t held` says that slots and
locks account for exactly these turns. It is kept when a task without a turn reserves one and queues up
(`Sound.enlist`) and when a task gives its turn back (`Sound.giveBack`). What a path's users rely on follows from it:
- a path is idle exactly if nobody has a turn there (`Sound.isIdle_iff`);
- at most one of the turns at a path holds the lock (`Sound.holds_unique`), and one does (`Sound.exists_holds`);
- a turn keeps the lock until it is given back (`Sound.holds_enlist`, `Sound.holds_giveBack_of_ne`);
- whoever gets the lock by that is told (`holds_giveBack`).
-/
import Mathlib.Tactic
import LiveFiles.Tasks
import LiveFiles.Turns

namespace LiveFiles.Turns

/-- the turns in line for a lock, the one that holds it first -/
def Lock.line (l : Lock) : List TurnId := l.holder.toList ++ l.queue

/-- reserve a turn and queue up with it -/
def enlist (t : Turns) (k : Path.Key) : Turn × Turns := ((t.reserve k).1, (t.reserve k).2.queueUp (t.reserve k).1)

/-- slots and locks account for the turns that tasks have -/
structure Sound (t : Turns) (held : TaskId → Option Turn) : Prop where
  slot : ∀ i τ, held i = some τ → ∃ n, t.slots.get? τ.key = some ⟨τ.lock, n⟩
  fresh : ∀ i τ, held i = some τ → τ.id < t.nextTurn
  inj : ∀ i j τ τ', held i = some τ → held j = some τ' → τ.id = τ'.id → i = j
  lockFresh : ∀ k s, t.slots.get? k = some s → s.lock < t.nextLock
  lockInj : ∀ k k' s s', t.slots.get? k = some s → t.slots.get? k' = some s' → s.lock = s'.lock → k = k'
  mem_line : ∀ k s, t.slots.get? k = some s →
    ∀ x, x ∈ Lock.line (t.lock s.lock) ↔ ∃ i τ, held i = some τ ∧ τ.key = k ∧ τ.id = x
  nodup : ∀ k s, t.slots.get? k = some s → (Lock.line (t.lock s.lock)).Nodup
  users : ∀ k s, t.slots.get? k = some s → s.users = (Lock.line (t.lock s.lock)).length
  taken : ∀ k s, t.slots.get? k = some s → (t.lock s.lock).holder.isSome

theorem sound_empty : ({} : Turns).Sound fun _ => none := by
  constructor <;> intro <;> simp

variable {t : Turns} {held : TaskId → Option Turn} {i j : TaskId} {τ τ' : Turn} {k : Path.Key}

/-! ## What the users of a path rely on -/

theorem Sound.isIdle_iff (h : t.Sound held) : t.isIdle k = true ↔ ∀ i τ, held i = some τ → τ.key ≠ k := by
  simp only [isIdle, Bool.not_eq_true', Table.contains_eq_false_iff]
  constructor
  · rintro hk i τ hi rfl
    obtain ⟨n, hn⟩ := h.slot i τ hi
    rw [hk] at hn
    cases hn
  · intro hno
    by_contra hk
    obtain ⟨s, hs⟩ := Option.ne_none_iff_exists'.1 hk
    obtain ⟨x, hx⟩ := Option.isSome_iff_exists.1 (h.taken k s hs)
    obtain ⟨i, τ, hi, hτ, -⟩ := (h.mem_line k s hs x).1 (by simp [Lock.line, hx])
    exact hno i τ hi hτ

theorem Sound.holds_unique (h : t.Sound held) (hi : held i = some τ) (hj : held j = some τ') (hk : τ.key = τ'.key)
    (hτ : t.holds τ = true) (hτ' : t.holds τ' = true) : i = j := by
  obtain ⟨n, hn⟩ := h.slot i τ hi
  obtain ⟨n', hn'⟩ := h.slot j τ' hj
  rw [hk, hn'] at hn
  have hl : τ'.lock = τ.lock := congrArg Slot.lock (Option.some.inj hn)
  simp only [holds, decide_eq_true_eq] at hτ hτ'
  rw [hl, hτ] at hτ'
  exact h.inj i j τ τ' hi hj (Option.some.inj hτ')

/-- somebody holds the lock of a path that is not idle -/
theorem Sound.exists_holds (h : t.Sound held) (hi : held i = some τ) :
    ∃ j τ', held j = some τ' ∧ τ'.key = τ.key ∧ t.holds τ' = true := by
  obtain ⟨n, hn⟩ := h.slot i τ hi
  obtain ⟨x, hx⟩ := Option.isSome_iff_exists.1 (h.taken _ _ hn)
  obtain ⟨j, τ', hj, hk, rfl⟩ := (h.mem_line _ _ hn x).1 (by simp [Lock.line, hx])
  refine ⟨j, τ', hj, hk, ?_⟩
  obtain ⟨n', hn'⟩ := h.slot j τ' hj
  rw [hk, hn] at hn'
  have hl : τ.lock = τ'.lock := congrArg Slot.lock (Option.some.inj hn')
  simpa [holds, ← hl] using hx

/-- a turn is in line for the lock that a path has at present -/
def InLine (t : Turns) (k : Path.Key) (τ : Turn) : Prop :=
  ∃ s, t.slots.get? k = some s ∧ s.lock = τ.lock ∧ τ.id ∈ Lock.line (t.lock τ.lock)

theorem Sound.inLine (h : t.Sound held) (hi : held i = some τ) : t.InLine τ.key τ := by
  obtain ⟨n, hn⟩ := h.slot i τ hi
  exact ⟨_, hn, rfl, (h.mem_line _ _ hn τ.id).2 ⟨i, τ, hi, rfl, rfl⟩⟩

/-! ## Reserving and queueing up -/

theorem lock_insert (t : Turns) (a b : LockId) (l : Lock) :
    ({ t with locks := t.locks.insert a l } : Turns).lock b = if a = b then l else t.lock b := by
  simp only [lock, Table.getD, Table.get?_insert]
  split <;> rfl

/-- a lock after one more turn has queued up -/
def Lock.join (l : Lock) (id : TurnId) : Lock :=
  match l.holder with
  | none => { l with holder := some id }
  | some _ => { l with queue := l.queue ++ [id] }

theorem Lock.line_join {l : Lock} (hl : l.holder.isSome) (id : TurnId) : Lock.line (Lock.join l id) = Lock.line l ++ [id] := by
  obtain ⟨x, hx⟩ := Option.isSome_iff_exists.1 hl
  simp [Lock.line, Lock.join, hx]

theorem Lock.holder_join (l : Lock) (id : TurnId) : (Lock.join l id).holder = some (l.holder.getD id) := by
  unfold Lock.join
  cases l.holder <;> rfl

theorem lock_queueUp (t : Turns) (τ : Turn) (b : LockId) :
    (t.queueUp τ).lock b = if τ.lock = b then Lock.join (t.lock τ.lock) τ.id else t.lock b := by
  rw [queueUp, lock_insert]
  rfl

@[simp] theorem slots_queueUp (t : Turns) (τ : Turn) : (t.queueUp τ).slots = t.slots := rfl

theorem enlist_id (t : Turns) (k : Path.Key) : (t.enlist k).1.id = t.nextTurn := by
  unfold enlist reserve
  split <;> rfl

theorem enlist_key (t : Turns) (k : Path.Key) : (t.enlist k).1.key = k := by
  unfold enlist reserve
  split <;> rfl

theorem nextTurn_enlist (t : Turns) (k : Path.Key) : (t.enlist k).2.nextTurn = t.nextTurn + 1 := by
  unfold enlist reserve
  split <;> rfl

/-- the slots after one more turn: its own path has a slot with its lock, the others keep theirs -/
theorem slots_enlist (t : Turns) (k k' : Path.Key) :
    (t.enlist k).2.slots.get? k' =
      if k = k' then some ⟨(t.enlist k).1.lock, ((t.slots.get? k).map Slot.users).getD 0 + 1⟩ else t.slots.get? k' := by
  unfold enlist reserve
  split
  · rename_i s hs
    simp [Table.get?_insert, hs]
  · rename_i hs
    simp [Table.get?_insert, hs]

/-- where a path has a lock already, the turn is in line for it; else for a new one -/
theorem lock_enlist_self (t : Turns) (k : Path.Key) :
    (t.enlist k).2.lock (t.enlist k).1.lock =
      match t.slots.get? k with
      | some s => Lock.join (t.lock s.lock) t.nextTurn
      | none => ⟨some t.nextTurn, []⟩ := by
  unfold enlist reserve
  cases t.slots.get? k with
  | some s =>
    simp only [lock_queueUp, if_true]
    rfl
  | none =>
    simp only [lock_queueUp, if_true]
    simp [lock, Table.getD, Table.get?_insert, Lock.join]

theorem enlist_lock (t : Turns) (k : Path.Key) :
    (t.enlist k).1.lock = match t.slots.get? k with | some s => s.lock | none => t.nextLock := by
  unfold enlist reserve
  cases t.slots.get? k <;> rfl

theorem nextLock_enlist (t : Turns) (k : Path.Key) : t.nextLock ≤ (t.enlist k).2.nextLock := by
  unfold enlist reserve
  split
  · exact le_rfl
  · exact Nat.le_succ _

theorem enlist_lock_lt (h : t.Sound held) (k : Path.Key) : (t.enlist k).1.lock < (t.enlist k).2.nextLock := by
  unfold enlist reserve
  split
  · rename_i s hs
    exact h.lockFresh k s hs
  · exact Nat.lt_succ_self _

theorem lock_enlist_of_ne (t : Turns) (k : Path.Key) {b : LockId} (hb : (t.enlist k).1.lock ≠ b) :
    (t.enlist k).2.lock b = t.lock b := by
  unfold enlist reserve at *
  split
  · rename_i s hs
    simp only [hs] at hb
    rw [lock_queueUp, if_neg hb]
    rfl
  · rename_i hs
    simp only [hs] at hb
    rw [lock_queueUp, if_neg hb]
    simp [lock, Table.getD, Table.get?_insert, hb]

/-- the new lock is not the lock of another path -/
theorem Sound.enlist_lock_ne (h : t.Sound held) {k k' : Path.Key} (hk : k ≠ k') {s : Slot}
    (hs : t.slots.get? k' = some s) : (t.enlist k).1.lock ≠ s.lock := by
  rw [enlist_lock]
  split
  · rename_i s' hs'
    exact fun e => hk (h.lockInj k k' s' s hs' hs e)
  · exact (h.lockFresh k' s hs).ne'

/-- the line of the path at which a turn has been taken -/
theorem Sound.line_enlist (h : t.Sound held) (k : Path.Key) :
    ∃ l : List TurnId, Lock.line ((t.enlist k).2.lock (t.enlist k).1.lock) = l ++ [t.nextTurn] ∧ l.Nodup ∧
      l.length = ((t.slots.get? k).map Slot.users).getD 0 ∧
      ∀ x, x ∈ l ↔ ∃ i τ, held i = some τ ∧ τ.key = k ∧ τ.id = x := by
  rw [lock_enlist_self]
  cases hs : t.slots.get? k with
  | none =>
    refine ⟨[], by simp [Lock.line], by simp, rfl, fun x => ?_⟩
    simp only [List.not_mem_nil, false_iff, not_exists, not_and]
    rintro i τ hi rfl
    obtain ⟨n, hn⟩ := h.slot i τ hi
    rw [hs] at hn
    cases hn
  | some s =>
    exact ⟨_, Lock.line_join (h.taken k s hs) _, h.nodup k s hs, (h.users k s hs).symm, h.mem_line k s hs⟩

/-- A slot afterwards is that of the new turn, or one of another path, whose lock has not changed. -/
theorem Sound.slots_enlist_cases (h : t.Sound held) {k k' : Path.Key} {s : Slot}
    (hs : (t.enlist k).2.slots.get? k' = some s) :
    (k' = k ∧ s.lock = (t.enlist k).1.lock ∧ s.users = ((t.slots.get? k).map Slot.users).getD 0 + 1) ∨
    (k' ≠ k ∧ t.slots.get? k' = some s ∧ (t.enlist k).2.lock s.lock = t.lock s.lock) := by
  rw [slots_enlist] at hs
  split at hs
  · rename_i e
    cases hs
    exact Or.inl ⟨e.symm, rfl, rfl⟩
  · rename_i e
    exact Or.inr ⟨Ne.symm e, hs, lock_enlist_of_ne t k (h.enlist_lock_ne e hs)⟩

theorem update_eq_some_iff {f : TaskId → Option Turn} {i j : TaskId} {τ σ : Turn} (hi : f i = none) :
    Function.update f i (some τ) j = some σ ↔ (j = i ∧ σ = τ) ∨ f j = some σ := by
  by_cases hji : j = i
  · subst hji
    simp [hi, eq_comm]
  · simp [hji]

theorem Sound.enlist (h : t.Sound held) (hi : held i = none) (k : Path.Key) :
    (t.enlist k).2.Sound (Function.update held i (some (t.enlist k).1)) := by
  obtain ⟨l, hl, hnd, hlen, hmem⟩ := h.line_enlist k
  have hlt : ∀ x ∈ l, x < t.nextTurn := by
    intro x hx
    obtain ⟨j, τ, hj, -, rfl⟩ := (hmem x).1 hx
    exact h.fresh j τ hj
  constructor
  case slot =>
    intro j τ hj
    rcases (update_eq_some_iff hi).1 hj with ⟨rfl, rfl⟩ | hj
    · exact ⟨_, by rw [enlist_key, slots_enlist, if_pos rfl]⟩
    · obtain ⟨n, hn⟩ := h.slot j τ hj
      by_cases e : k = τ.key
      · refine ⟨n + 1, ?_⟩
        rw [slots_enlist, if_pos e, enlist_lock, e, hn]
        rfl
      · exact ⟨n, by rw [slots_enlist, if_neg e, hn]⟩
  case fresh =>
    intro j τ hj
    rw [nextTurn_enlist]
    rcases (update_eq_some_iff hi).1 hj with ⟨rfl, rfl⟩ | hj
    · rw [enlist_id]
      exact Nat.lt_succ_self _
    · exact (h.fresh j τ hj).trans (Nat.lt_succ_self _)
  case inj =>
    intro a b τ τ' ha hb e
    rcases (update_eq_some_iff hi).1 ha with ⟨ea, eτ⟩ | ha' <;> rcases (update_eq_some_iff hi).1 hb with ⟨eb, eτ'⟩ | hb'
    · rw [ea, eb]
    · rw [eτ, enlist_id] at e
      exact absurd (h.fresh b τ' hb') (by rw [← e]; exact lt_irrefl _)
    · rw [eτ', enlist_id] at e
      exact absurd (h.fresh a τ ha') (by rw [e]; exact lt_irrefl _)
    · exact h.inj a b τ τ' ha' hb' e
  case lockFresh =>
    intro k' s hs
    rcases h.slots_enlist_cases hs with ⟨-, e, -⟩ | ⟨-, hs', -⟩
    · rw [e]
      exact enlist_lock_lt h k
    · exact lt_of_lt_of_le (h.lockFresh k' s hs') (nextLock_enlist t k)
  case lockInj =>
    intro k₁ k₂ s₁ s₂ hs₁ hs₂ e
    rcases h.slots_enlist_cases hs₁ with ⟨h₁, e₁, -⟩ | ⟨h₁, hs₁', -⟩ <;>
      rcases h.slots_enlist_cases hs₂ with ⟨h₂, e₂, -⟩ | ⟨h₂, hs₂', -⟩
    · rw [h₁, h₂]
    · exact absurd (e₁.symm.trans e) (h.enlist_lock_ne h₂.symm hs₂')
    · exact absurd (e₂.symm.trans e.symm) (h.enlist_lock_ne h₁.symm hs₁')
    · exact h.lockInj k₁ k₂ s₁ s₂ hs₁' hs₂' e
  case mem_line =>
    intro k' s hs x
    simp only [update_eq_some_iff hi]
    rcases h.slots_enlist_cases hs with ⟨rfl, e, -⟩ | ⟨hk', hs', hlock⟩
    · rw [e, hl, List.mem_append, List.mem_singleton, hmem]
      constructor
      · rintro (⟨j, τ, hj, hx⟩ | rfl)
        · exact ⟨j, τ, Or.inr hj, hx⟩
        · exact ⟨i, _, Or.inl ⟨rfl, rfl⟩, enlist_key t _, enlist_id t _⟩
      · rintro ⟨j, τ, ⟨-, rfl⟩ | hj, hk, hx⟩
        · exact Or.inr (hx.symm.trans (enlist_id t _))
        · exact Or.inl ⟨j, τ, hj, hk, hx⟩
    · rw [hlock, h.mem_line k' s hs' x]
      constructor
      · rintro ⟨j, τ, hj, hx⟩
        exact ⟨j, τ, Or.inr hj, hx⟩
      · rintro ⟨j, τ, ⟨-, rfl⟩ | hj, hk, hx⟩
        · exact absurd (hk.symm.trans (enlist_key t k)) hk'
        · exact ⟨j, τ, hj, hk, hx⟩
  case nodup =>
    intro k' s hs
    rcases h.slots_enlist_cases hs with ⟨rfl, e, -⟩ | ⟨-, hs', hlock⟩
    · rw [e, hl]
      refine List.Nodup.append hnd (by simp) ?_
      simp only [List.disjoint_singleton]
      exact fun hx => lt_irrefl _ (hlt _ hx)
    · rw [hlock]
      exact h.nodup k' s hs'
  case users =>
    intro k' s hs
    rcases h.slots_enlist_cases hs with ⟨rfl, e, hu⟩ | ⟨-, hs', hlock⟩
    · rw [e, hl, hu, ← hlen]
      simp
    · rw [hlock]
      exact h.users k' s hs'
  case taken =>
    intro k' s hs
    rcases h.slots_enlist_cases hs with ⟨rfl, e, -⟩ | ⟨-, hs', hlock⟩
    · rw [e, lock_enlist_self]
      split
      · rw [Lock.holder_join]
        rfl
      · rfl
    · rw [hlock]
      exact h.taken k' s hs'

/-- a turn that holds its lock goes on holding it while others queue up -/
theorem Sound.holds_enlist (h : t.Sound held) (hi : held i = some τ) (k : Path.Key) :
    (t.enlist k).2.holds τ = t.holds τ := by
  obtain ⟨n, hn⟩ := h.slot i τ hi
  by_cases e : k = τ.key
  · have hl : (t.enlist k).1.lock = τ.lock := by rw [enlist_lock, e, hn]
    obtain ⟨x, hx⟩ := Option.isSome_iff_exists.1 (h.taken _ _ hn)
    simp only at hx
    have hself := lock_enlist_self t k
    rw [hl, e, hn] at hself
    simp [holds, e, hself, Lock.holder_join, hx]
  · simp only [holds]
    rw [lock_enlist_of_ne t k (h.enlist_lock_ne e hn)]

/-! ## Giving back -/

theorem Lock.line_leave {l : Lock} (hl : l.holder.isSome) (id : TurnId) :
    Lock.line (Lock.leave l id).1 = (Lock.line l).erase id := by
  obtain ⟨x, hx⟩ := Option.isSome_iff_exists.1 hl
  unfold Lock.leave
  by_cases e : x = id
  · cases hq : l.queue <;> simp [Lock.line, hx, e, hq]
  · simp [Lock.line, hx, e, List.erase_cons_tail]

/-- a lock that two turns are in line for passes on -/
theorem Lock.taken_leave {l : Lock} (hl : l.holder.isSome) (h : 1 < (Lock.line l).length) (id : TurnId) :
    (Lock.leave l id).1.holder.isSome := by
  obtain ⟨x, hx⟩ := Option.isSome_iff_exists.1 hl
  unfold Lock.leave
  split
  · cases hq : l.queue with
    | nil => simp [Lock.line, hx, hq] at h
    | cons y rest => rfl
  · exact hl

theorem giveBack_of_none (h : t.slots.get? τ.key = none) :
    (t.giveBack τ).1 = { t with locks := t.locks.insert τ.lock (Lock.leave (t.lock τ.lock) τ.id).1 } := by
  simp only [giveBack, h]

theorem giveBack_of_some {s : Slot} (h : t.slots.get? τ.key = some s) :
    (t.giveBack τ).1 =
      if s.users - 1 = 0 then
        { t with
          slots := t.slots.erase τ.key
          locks := (t.locks.insert τ.lock (Lock.leave (t.lock τ.lock) τ.id).1).erase s.lock }
      else
        { t with
          slots := t.slots.insert τ.key { s with users := s.users - 1 }
          locks := t.locks.insert τ.lock (Lock.leave (t.lock τ.lock) τ.id).1 } := by
  simp only [giveBack, h]
  split <;> rfl

theorem giveBack_snd (t : Turns) (τ : Turn) : (t.giveBack τ).2 = (Lock.leave (t.lock τ.lock) τ.id).2 := by
  simp only [giveBack]
  split
  · rfl
  · split <;> rfl

theorem slots_giveBack (t : Turns) (τ : Turn) (k : Path.Key) :
    (t.giveBack τ).1.slots.get? k =
      if τ.key = k then (t.slots.get? k).bind fun s => if s.users - 1 = 0 then none else some { s with users := s.users - 1 }
      else t.slots.get? k := by
  cases hs : t.slots.get? τ.key with
  | none =>
    rw [giveBack_of_none hs]
    by_cases e : τ.key = k
    · simp [← e, hs]
    · simp [e]
  | some s =>
    rw [giveBack_of_some hs]
    by_cases e : τ.key = k
    · by_cases hu : s.users - 1 = 0 <;> simp [← e, hs, hu, Table.get?_erase, Table.get?_insert]
    · split <;> simp [e, Table.get?_erase, Table.get?_insert]

theorem nextTurn_giveBack (t : Turns) (τ : Turn) : (t.giveBack τ).1.nextTurn = t.nextTurn := by
  cases hs : t.slots.get? τ.key with
  | none => rw [giveBack_of_none hs]
  | some s =>
    rw [giveBack_of_some hs]
    split <;> rfl

theorem nextLock_giveBack (t : Turns) (τ : Turn) : (t.giveBack τ).1.nextLock = t.nextLock := by
  cases hs : t.slots.get? τ.key with
  | none => rw [giveBack_of_none hs]
  | some s =>
    rw [giveBack_of_some hs]
    split <;> rfl

/-- The lock of the turn is left, or gone with the last turn; the others stay. -/
theorem lock_giveBack (t : Turns) (τ : Turn) (b : LockId) :
    (t.giveBack τ).1.lock b = {} ∨
      (t.giveBack τ).1.lock b = if τ.lock = b then (Lock.leave (t.lock τ.lock) τ.id).1 else t.lock b := by
  cases hs : t.slots.get? τ.key with
  | none =>
    rw [giveBack_of_none hs, lock_insert]
    exact Or.inr rfl
  | some s =>
    rw [giveBack_of_some hs]
    split
    · by_cases hb : s.lock = b
      · left
        simp [lock, Table.getD, Table.get?_erase, hb]
      · right
        simp only [lock, Table.getD, Table.get?_erase, hb, if_false, Table.get?_insert]
        split <;> rfl
    · right
      exact lock_insert _ _ _ _

theorem lock_giveBack_self {n : Nat} (h : t.slots.get? τ.key = some ⟨τ.lock, n⟩) (hn : n - 1 ≠ 0) :
    (t.giveBack τ).1.lock τ.lock = (Lock.leave (t.lock τ.lock) τ.id).1 := by
  rw [giveBack_of_some h, if_neg hn]
  exact (lock_insert _ _ _ _).trans (if_pos rfl)

theorem lock_giveBack_of_ne {n : Nat} (h : t.slots.get? τ.key = some ⟨τ.lock, n⟩) {b : LockId} (hb : τ.lock ≠ b) :
    (t.giveBack τ).1.lock b = t.lock b := by
  rw [giveBack_of_some h]
  split
  · simp [lock, Table.getD, Table.get?_erase, Table.get?_insert, hb]
  · exact (lock_insert _ _ _ _).trans (if_neg hb)

/-- whoever comes to hold a lock when a turn is given back is told -/
theorem holds_giveBack (t : Turns) (τ σ : Turn) (h : (t.giveBack τ).1.holds σ = true) :
    t.holds σ = true ∨ (t.giveBack τ).2 = some σ.id := by
  simp only [holds, decide_eq_true_eq] at *
  rw [giveBack_snd]
  rcases lock_giveBack t τ σ.lock with e | e
  · rw [e] at h
    cases h
  rw [e] at h
  split at h
  · rename_i hl
    rw [hl] at *
    unfold Lock.leave at *
    split at h
    · rename_i hτ
      cases hq : (t.lock σ.lock).queue with
      | nil => simp [hq] at h
      | cons x rest =>
        simp only [hq, Option.some.injEq] at h
        simp [hτ, h]
    · exact Or.inl h
  · exact Or.inl h

/-- A slot afterwards is that of the turn's path, if the turn was not the last one, or one of another path. -/
theorem Sound.slots_giveBack_cases (h : t.Sound held) (hi : held i = some τ) {k : Path.Key} {s : Slot}
    (hs : (t.giveBack τ).1.slots.get? k = some s) :
    (k = τ.key ∧ t.slots.get? τ.key = some ⟨τ.lock, s.users + 1⟩ ∧ s.lock = τ.lock ∧ s.users ≠ 0 ∧
      (t.giveBack τ).1.lock τ.lock = (Lock.leave (t.lock τ.lock) τ.id).1) ∨
    (k ≠ τ.key ∧ t.slots.get? k = some s ∧ s.lock ≠ τ.lock ∧ (t.giveBack τ).1.lock s.lock = t.lock s.lock) := by
  obtain ⟨n, hn⟩ := h.slot i τ hi
  rw [slots_giveBack] at hs
  split at hs
  · rename_i e
    left
    rw [← e, hn, Option.bind_some] at hs
    split at hs
    · cases hs
    · rename_i hu
      cases hs
      refine ⟨e.symm, ?_, rfl, hu, lock_giveBack_self hn hu⟩
      rw [hn]
      exact congrArg (fun n => some (Slot.mk τ.lock n)) (by simp only at hu ⊢; omega)
  · rename_i e
    have hl : s.lock ≠ τ.lock := fun e' => e (h.lockInj _ _ _ _ hn hs e'.symm)
    exact Or.inr ⟨Ne.symm e, hs, hl, lock_giveBack_of_ne hn hl.symm⟩

theorem update_none_eq_some_iff {f : TaskId → Option Turn} {i j : TaskId} {σ : Turn} :
    Function.update f i none j = some σ ↔ j ≠ i ∧ f j = some σ := by
  by_cases hji : j = i <;> simp [hji]

/-- the line of the path at which a turn is given back, without this turn -/
theorem Sound.mem_line_erase (h : t.Sound held) (hi : held i = some τ) {n : Nat}
    (hn : t.slots.get? τ.key = some ⟨τ.lock, n⟩) (x : TurnId) :
    x ∈ (Lock.line (t.lock τ.lock)).erase τ.id ↔ ∃ j σ, (j ≠ i ∧ held j = some σ) ∧ σ.key = τ.key ∧ σ.id = x := by
  rw [(h.nodup _ _ hn).mem_erase_iff, h.mem_line _ _ hn]
  constructor
  · rintro ⟨hx, j, σ, hj, hk, rfl⟩
    refine ⟨j, σ, ⟨?_, hj⟩, hk, rfl⟩
    rintro rfl
    rw [hi] at hj
    cases hj
    exact hx rfl
  · rintro ⟨j, σ, ⟨hji, hj⟩, hk, rfl⟩
    exact ⟨fun e => hji (h.inj j i σ τ hj hi e), j, σ, hj, hk, rfl⟩

theorem Sound.giveBack (h : t.Sound held) (hi : held i = some τ) :
    (t.giveBack τ).1.Sound (Function.update held i none) := by
  constructor
  case slot =>
    intro j σ hj
    obtain ⟨hji, hj'⟩ := update_none_eq_some_iff.1 hj
    obtain ⟨n, hn⟩ := h.slot j σ hj'
    rw [slots_giveBack, hn]
    split
    · rename_i e
      -- two turns at the path, so that there is still one
      have hx : σ.id ∈ (Lock.line (t.lock σ.lock)).erase τ.id := by
        obtain ⟨m, hm⟩ := h.slot i τ hi
        have hl : τ.lock = σ.lock := by
          rw [e, hn] at hm
          exact (congrArg Slot.lock (Option.some.inj hm)).symm
        rw [← hl]
        exact (h.mem_line_erase hi hm σ.id).2 ⟨j, σ, ⟨hji, hj'⟩, e.symm, rfl⟩
      have hlen := List.length_pos_of_mem hx
      have hmem : τ.id ∈ Lock.line (t.lock σ.lock) := (h.mem_line _ _ hn τ.id).2 ⟨i, τ, hi, e, rfl⟩
      rw [List.length_erase_of_mem hmem, ← h.users _ _ hn] at hlen
      exact ⟨n - 1, by rw [Option.bind_some, if_neg hlen.ne']⟩
    · exact ⟨n, rfl⟩
  case fresh =>
    intro j σ hj
    rw [nextTurn_giveBack]
    exact h.fresh j σ (update_none_eq_some_iff.1 hj).2
  case inj =>
    intro a b σ σ' ha hb e
    exact h.inj a b σ σ' (update_none_eq_some_iff.1 ha).2 (update_none_eq_some_iff.1 hb).2 e
  case lockFresh =>
    intro k s hs
    rw [nextLock_giveBack]
    rcases h.slots_giveBack_cases hi hs with ⟨-, hs', hl, -⟩ | ⟨-, hs', -⟩
    · rw [hl]
      exact h.lockFresh _ _ hs'
    · exact h.lockFresh k s hs'
  case lockInj =>
    intro k₁ k₂ s₁ s₂ hs₁ hs₂ e
    rcases h.slots_giveBack_cases hi hs₁ with ⟨h₁, -, e₁, -⟩ | ⟨-, hs₁', e₁, -⟩ <;>
      rcases h.slots_giveBack_cases hi hs₂ with ⟨h₂, -, e₂, -⟩ | ⟨-, hs₂', e₂, -⟩
    · rw [h₁, h₂]
    · exact absurd (e.symm.trans e₁) e₂
    · exact absurd (e.trans e₂) e₁
    · exact h.lockInj k₁ k₂ s₁ s₂ hs₁' hs₂' e
  case mem_line =>
    intro k s hs x
    simp only [update_none_eq_some_iff]
    rcases h.slots_giveBack_cases hi hs with ⟨rfl, hs', e, -, hlock⟩ | ⟨hk, hs', -, hlock⟩
    · rw [e, hlock, Lock.line_leave (h.taken _ _ hs')]
      exact h.mem_line_erase hi hs' x
    · rw [hlock, h.mem_line k s hs' x]
      constructor
      · rintro ⟨j, σ, hj, hkey, hx⟩
        refine ⟨j, σ, ⟨?_, hj⟩, hkey, hx⟩
        rintro rfl
        rw [hi] at hj
        cases hj
        exact hk hkey.symm
      · rintro ⟨j, σ, ⟨-, hj⟩, hx⟩
        exact ⟨j, σ, hj, hx⟩
  case nodup =>
    intro k s hs
    rcases h.slots_giveBack_cases hi hs with ⟨-, hs', e, -, hlock⟩ | ⟨-, hs', -, hlock⟩
    · rw [e, hlock, Lock.line_leave (h.taken _ _ hs')]
      exact (h.nodup _ _ hs').erase _
    · rw [hlock]
      exact h.nodup k s hs'
  case users =>
    intro k s hs
    rcases h.slots_giveBack_cases hi hs with ⟨-, hs', e, -, hlock⟩ | ⟨-, hs', -, hlock⟩
    · have hmem : τ.id ∈ Lock.line (t.lock τ.lock) := (h.mem_line _ _ hs' τ.id).2 ⟨i, τ, hi, rfl, rfl⟩
      rw [e, hlock, Lock.line_leave (h.taken _ _ hs'), List.length_erase_of_mem hmem, ← h.users _ _ hs']
      rfl
    · rw [hlock]
      exact h.users k s hs'
  case taken =>
    intro k s hs
    rcases h.slots_giveBack_cases hi hs with ⟨-, hs', e, hu, hlock⟩ | ⟨-, hs', -, hlock⟩
    · rw [e, hlock]
      exact Lock.taken_leave (h.taken _ _ hs') (by rw [← h.users _ _ hs']; exact Nat.succ_lt_succ (Nat.pos_of_ne_zero hu)) _
    · rw [hlock]
      exact h.taken k s hs'

/-- a turn that holds its lock goes on holding it when another is given back -/
theorem Sound.holds_giveBack_of_ne (h : t.Sound held) (hi : held i = some τ) {σ : Turn} (hj : held j = some σ)
    (hji : j ≠ i) (hσ : t.holds σ = true) : (t.giveBack τ).1.holds σ = true := by
  have hj' : Function.update held i none j = some σ := update_none_eq_some_iff.2 ⟨hji, hj⟩
  obtain ⟨n, hn⟩ := (h.giveBack hi).slot j σ hj'
  simp only [holds, decide_eq_true_eq] at hσ ⊢
  rcases h.slots_giveBack_cases hi hn with ⟨-, -, e, -, hlock⟩ | ⟨-, -, -, hlock⟩
  · simp only at e
    have hne : σ.id ≠ τ.id := fun e => hji (h.inj j i σ τ hj hi e)
    rw [e, hlock, ← e]
    unfold Lock.leave
    rw [if_neg (by rw [hσ]; simpa using hne)]
    exact hσ
  · rw [hlock]
    exact hσ

/-- a turn that is alone at its path holds the lock -/
theorem Sound.holds_of_alone (h : t.Sound held) (hi : held i = some τ)
    (hone : ∀ j σ, held j = some σ → σ.key = τ.key → j = i) : t.holds τ = true := by
  obtain ⟨j, σ, hj, hk, hσ⟩ := h.exists_holds hi
  cases hone j σ hj hk
  rw [hi] at hj
  cases hj
  exact hσ

end LiveFiles.Turns
