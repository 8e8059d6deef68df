/-
Turns that are overtaken. To reserve a turn is not to stand in line: somebody gets in line with it when he begins to
acquire, and until then turns that have been reserved later may pass it by.
- **`in_order_iff`**: of two turns that are reserved at a path, the later one is never granted while the earlier one is live
  and not granted, exactly if the earlier one, should it be passed by, is given back before the later one is granted.
- `later_turn_granted_first`: two turns are reserved, somebody acquires with the second one, and it is granted.
-/
import LiveFiles.Proofs.Handover

namespace LiveFiles.Session.Locks

open LiveFiles.Turns

/-- the turns are reserved at the same path, the one before the other -/
def Precedes (moves : Nat → Move) (τ σ : Turn) : Prop :=
  τ.key = σ.key ∧ ∃ i j, i < j ∧ Reserves moves i τ ∧ Reserves moves j σ

/-- in move `b`, somebody begins to acquire with a turn while another is live with which nobody has begun to -/
def PassedBy (moves : Nat → Move) (b : Nat) (τ σ : Turn) : Prop :=
  Begins moves b σ ∧ τ ∈ (World.trace {} moves b).tickets ∧ τ ∉ (World.trace {} moves b).begun

variable {moves : Nat → Move} {τ σ : Turn} {i j n : Nat}

/-- a turn is not live before it is reserved -/
theorem Reserves.le (h : Reserves moves i τ) (hlive : τ ∈ (World.trace {} moves n).tickets) : i < n := by
  by_contra hle
  exact h.1 (mem_tickets_between (not_lt.1 hle) (Nat.le_succ i) hlive h.2)

/-- a turn is reserved once -/
theorem Reserves.unique (hi : Reserves moves i τ) (hj : Reserves moves j τ) : i = j :=
  le_antisymm (Nat.lt_succ_iff.1 (Reserves.le hi hj.2)) (Nat.lt_succ_iff.1 (Reserves.le hj hi.2))

theorem Precedes.ne (h : Precedes moves τ σ) : τ ≠ σ := by
  rintro rfl
  obtain ⟨-, i, j, hij, hi, hj⟩ := h
  exact hij.ne (Reserves.unique hi hj)

/-- a turn that is granted in a move is live before and holds its lock -/
theorem Grants.holds (h : Grants moves n σ) :
    σ ∈ (World.trace {} moves n).tickets ∧ (World.trace {} moves n).turns.holds σ = true :=
  ((orderly_move (sound_trace moves n) (moves n)).granted σ h.2).resolve_left h.1

/-- a turn that is granted while one that was reserved earlier at its path is live has passed it by -/
theorem Precedes.passedBy (h : Precedes moves τ σ) (hn : Grants moves n σ)
    (hlive : τ ∈ (World.trace {} moves n).tickets) : ∃ b, b < n ∧ PassedBy moves b τ σ := by
  obtain ⟨hkey, i, j, hij, hi, hj⟩ := h
  obtain ⟨hσ, hheld⟩ := Grants.holds hn
  obtain ⟨b, hb, hbegins, hfirst⟩ := (holds_iff_first hσ).1 hheld
  have hjb : j ≤ b := Nat.lt_succ_iff.1 (Reserves.le hj hbegins.live)
  refine ⟨b, hb, hbegins, mem_tickets_between (hij.trans_le hjb) hb.le hi.2 hlive, fun hbegun => ?_⟩
  obtain ⟨a, ha, hearlier⟩ := exists_begins hbegun
  exact hfirst a τ ha hearlier hkey hlive

/-- **Turns are granted in the order in which they are reserved, unless one is passed by.** Of two turns that are reserved at
a path, the later one is never granted while the earlier one is live and has not been granted, exactly if the earlier one,
should somebody begin to acquire with the later one before anybody does with it, is given back before the later one is
granted. -/
theorem in_order_iff (h : Precedes moves τ σ) :
    (∀ n, Grants moves n σ → τ ∈ (World.trace {} moves n).tickets → τ ∈ (World.trace {} moves n).granted) ↔
      ∀ b, PassedBy moves b τ σ → ∀ n, Grants moves n σ → τ ∉ (World.trace {} moves n).tickets := by
  constructor
  · intro hgranted b _ n hn hlive
    -- two turns at one path do not hold the lock both
    have hs := sound_trace moves n
    obtain ⟨hσ, hheld⟩ := Grants.holds hn
    exact h.ne (hs.accounted.holds_unique hlive hσ h.1 (hs.holds τ (hgranted n hn hlive)) hheld)
  · intro hpassed n hn hlive
    obtain ⟨b, -, hb⟩ := h.passedBy hn hlive
    exact absurd hlive (hpassed b hb n hn)

/-- two turns are reserved at a path, and somebody acquires with the later one -/
def acquiringSecond : Nat → Move :=
  along [.command (.reserve "t" ⟨"/a"⟩), .command (.reserve "u" ⟨"/a"⟩), .command (.acquire "u"), .turn 1, .turn 1]

/-- the turns that are reserved in that run -/
def turnAtA (id : TurnId) : Turn := ⟨id, Path.key ⟨"/a"⟩, 1⟩

theorem precedes_acquiringSecond : Precedes acquiringSecond (turnAtA 1) (turnAtA 2) := by
  refine ⟨rfl, 0, 1, by decide, ⟨?_, ?_⟩, ⟨?_, ?_⟩⟩
  all_goals decide +kernel

/-- The turn that is reserved first is live and not granted when the other one is granted. -/
theorem later_turn_granted_first :
    Precedes acquiringSecond (turnAtA 1) (turnAtA 2) ∧ Grants acquiringSecond 4 (turnAtA 2) ∧
      turnAtA 1 ∈ (World.trace {} acquiringSecond 4).tickets ∧ turnAtA 1 ∉ (World.trace {} acquiringSecond 4).granted := by
  refine ⟨precedes_acquiringSecond, ⟨?_, ?_⟩, ?_, ?_⟩
  all_goals decide +kernel

theorem in_order_iff_acquiringSecond :
    Precedes acquiringSecond (turnAtA 1) (turnAtA 2) ∧
      ((∀ n, Grants acquiringSecond n (turnAtA 2) → turnAtA 1 ∈ (World.trace {} acquiringSecond n).tickets →
          turnAtA 1 ∈ (World.trace {} acquiringSecond n).granted) ↔
        ∀ b, PassedBy acquiringSecond b (turnAtA 1) (turnAtA 2) → ∀ n, Grants acquiringSecond n (turnAtA 2) →
          turnAtA 1 ∉ (World.trace {} acquiringSecond n).tickets) :=
  ⟨precedes_acquiringSecond, in_order_iff precedes_acquiringSecond⟩

end LiveFiles.Session.Locks
