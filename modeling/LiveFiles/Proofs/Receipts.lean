/-
What the reader of a pair gets, in a session in which everything goes on in any order. `notified` lists what the
subscriber has been told while its receiver was neither closed nor dropped, `received` what the replies to the commands
that read have handed out.
- A move tells, hands out, closes or drops as its command says, and only for the pair that it is about (`step_move`).
- What has been received and what is still there is together what has been notified (`tally_trace`).
- The receiver is open until it is closed or dropped (`listens_trace`), and what is notified later does not count
  (`notified_of_hangsUp`).
-/
import LiveFiles.Proofs.Pairs

namespace LiveFiles.Session.Channels

/-- the command that a move brings, if it is about the pair -/
def World.about (w : World) (id : SubscriberId) : Move → Option Command
  | .command c => if w.target? c = some id then some c else none
  | .turn _ | .cancel _ => none

/-- what a move tells the subscriber of a pair -/
def World.tells (w : World) (id : SubscriberId) (m : Move) : List Snapshot := (w.about id m).elim [] Command.messages

/-- what a move hands out to the reader of a pair -/
def World.hands (w : World) (id : SubscriberId) (m : Move) : List Snapshot :=
  (w.about id m).elim [] fun c => (command w c).2.snapshots?

/-- the move closes or drops the receiver of a pair -/
def World.hangsUp (w : World) (id : SubscriberId) (m : Move) : Bool := (w.about id m).any Command.hangsUp

/-- what the subscriber of a pair has been told in the first `n` moves, before its receiver was closed or dropped -/
def notified (moves : Nat → Move) (id : SubscriberId) : Nat → List Snapshot
  | 0 => []
  | n + 1 => notified moves id n ++
      if (World.trace {} moves n).listens id then (World.trace {} moves n).tells id (moves n) else []

/-- what the reader of a pair has got in the first `n` moves -/
def received (moves : Nat → Move) (id : SubscriberId) : Nat → List Snapshot
  | 0 => []
  | n + 1 => received moves id n ++ (World.trace {} moves n).hands id (moves n)

/-- What a move does to a pair: there is none, or it is made, or something is done to its channel. -/
inductive Step (w w' : World) (id : SubscriberId) : List Snapshot → List Snapshot → Bool → Prop
  | absent : w.pairs.get? id = none → w'.pairs.get? id = none → Step w w' id [] [] false
  | made (y : Pair) : w.pairs.get? id = none → w'.pairs.get? id = some y → y.channel.isOpen = true →
    y.channel.buffer = [] → Step w w' id [] [] false
  | turned {sent got : List Snapshot} {hangs : Bool} (x y : Pair) : w.pairs.get? id = some x →
    w'.pairs.get? id = some y → Turned x.channel y.channel sent got hangs → Step w w' id sent got hangs

variable {w w' : World} {id : SubscriberId} {t : TaskId} {name : String} {x y : Pair} {c : Channel Snapshot}
  {sent got : List Snapshot} {hangs : Bool}

theorem listens_of_some (hx : w.pairs.get? id = some x) : w.listens id = x.channel.isOpen := by
  rw [World.listens, hx, Option.any_some]

theorem listens_of_none (hx : w.pairs.get? id = none) : w.listens id = false := by rw [World.listens, hx, Option.any_none]

/-! ## Moves -/

/-- a move that does nothing to the channel of a pair -/
theorem Step.of_kept (hnone : w.pairs.get? id = none → w'.pairs.get? id = none)
    (hsome : ∀ x, w.pairs.get? id = some x → ∃ y, w'.pairs.get? id = some y ∧ Turned x.channel y.channel [] [] false) :
    Step w w' id [] [] false := by
  cases hx : w.pairs.get? id with
  | none => exact .absent hx (hnone hx)
  | some x =>
    obtain ⟨y, hy, ht⟩ := hsome x hx
    exact .turned x y hx hy ht

theorem Step.of_pairs (h : w'.pairs.get? id = w.pairs.get? id) : Step w w' id [] [] false :=
  .of_kept (fun hx => h.trans hx) fun x hx => ⟨x, h.trans hx, .stays rfl rfl rfl⟩

theorem step_settled (hs : Settled w t w') : Step w w' id [] [] false := by
  cases hs with
  | stays hpairs => exact .of_pairs (by rw [hpairs])
  | leaves x _ _ hpairs =>
    have hget : w'.pairs.get? id =
        if some x.phase.pair = some id then (w.pairs.get? id).map Pair.unkeep else w.pairs.get? id := by
      rw [hpairs]
      exact get?_modify w _ _ id
    refine .of_kept (fun hx => by rw [hget, hx]; exact ite_self _) fun x hx => ?_
    rw [hget, hx]
    split
    · exact ⟨x.unkeep, rfl, .stays rfl rfl rfl⟩
    · exact ⟨x, rfl, .stays rfl rfl rfl⟩

theorem step_command (h : Kept w) (c : Command) :
    Step w (command w c).1 id (w.tells id (.command c)) (w.hands id (.command c)) (w.hangsUp id (.command c)) := by
  have habout : w.about id (.command c) = if w.target? c = some id then some c else none := rfl
  unfold World.tells World.hands World.hangsUp
  by_cases htarget : w.target? c = some id
  · rw [habout, if_pos htarget]
    obtain ⟨x, hx⟩ := exists_target h htarget
    have hfresh : ∀ name, c = .new name → id ≠ ⟨w.nextId⟩ := by
      rintro name - rfl
      rw [h.fresh] at hx
      cases hx
    refine .turned x (c.effect x) hx ?_ (turned_command h htarget hx)
    rw [get?_command h hfresh, if_pos htarget, hx, Option.map_some]
  · rw [habout, if_neg htarget]
    by_cases hfresh : ∃ name, c = .new name ∧ id = ⟨w.nextId⟩
    · obtain ⟨name, rfl, rfl⟩ := hfresh
      exact .made _ h.fresh (get?_new w name) rfl rfl
    · refine .of_pairs ?_
      rw [get?_command h fun name hc hid => hfresh ⟨name, hc, hid⟩, if_neg htarget]

theorem step_move (h : Kept w) (m : Move) :
    Step w (w.move m) id (w.tells id m) (w.hands id m) (w.hangsUp id m) := by
  cases m with
  | turn t => exact step_settled (settled_served (Machine.served_serve w t))
  | command c => exact step_command h c
  | cancel t => exact .of_pairs rfl

/-- a pair stays -/
theorem Step.exists_pair (h : Step w w' id sent got hangs) (hx : w.pairs.get? id = some x) :
    ∃ y, w'.pairs.get? id = some y := by
  cases h with
  | absent hno => rw [hno] at hx; cases hx
  | made _ hno => rw [hno] at hx; cases hx
  | turned _ y _ hy => exact ⟨y, hy⟩

/-- the receiver of a pair that is there is open afterwards if it was and is not closed or dropped -/
theorem Step.listens (h : Step w w' id sent got hangs) (hx : w.pairs.get? id = some x) :
    w'.listens id = (w.listens id && !hangs) := by
  cases h with
  | absent hno => rw [hno] at hx; cases hx
  | made _ hno => rw [hno] at hx; cases hx
  | turned x y hx hy ht =>
    rw [listens_of_some hx, listens_of_some hy]
    cases ht with
    | sent s _ ho => rw [ho, Bool.not_false, Bool.and_true]
    | handed _ ho => rw [ho, Bool.not_false, Bool.and_true]
    | closed _ ho => rw [ho, Bool.not_true, Bool.and_false]
    | dropped ho => rw [ho, Bool.not_true, Bool.and_false]

/-! ## What has been received -/

/-- what has been received so far, what is there, and what has been notified -/
structure Tally (w : World) (id : SubscriberId) (got sent : List Snapshot) : Prop where
  absent : w.pairs.get? id = none → got = [] ∧ sent = []
  isPrefix : got <+: sent
  rest : ∀ x, w.pairs.get? id = some x → x.channel.receiver = true → got ++ x.channel.buffer = sent

theorem Tally.step {got' sent' : List Snapshot} (h : Tally w id got sent) (hs : Step w w' id sent' got' hangs) :
    Tally w' id (got ++ got') (sent ++ if w.listens id then sent' else []) := by
  cases hs with
  | absent hx hy =>
    rw [ite_self, List.append_nil, List.append_nil]
    exact ⟨fun _ => h.absent hx, h.isPrefix, fun x hx' => by rw [hy] at hx'; cases hx'⟩
  | made y hx hy ho hb =>
    obtain ⟨rfl, rfl⟩ := h.absent hx
    rw [ite_self]
    refine ⟨fun _ => ⟨rfl, rfl⟩, List.prefix_rfl, fun z hz _ => ?_⟩
    obtain rfl : y = z := Option.some.inj (hy.symm.trans hz)
    exact hb
  | turned x y hx hy ht =>
    have hnone : ∀ {l l' : List Snapshot}, w'.pairs.get? id = none → l = [] ∧ l' = [] := fun hno => by
      rw [hy] at hno
      cases hno
    have hown : ∀ z, w'.pairs.get? id = some z → y = z := fun z hz => Option.some.inj (hy.symm.trans hz)
    cases ht with
    | sent s hb ho hr =>
      rw [List.append_nil, listens_of_some hx]
      refine ⟨hnone, h.isPrefix.trans (List.prefix_append _ _), fun z hz hreceiver => ?_⟩
      obtain rfl := hown z hz
      have hrest := h.rest x hx (hr ▸ hreceiver)
      rw [hb, Channel.send]
      cases hopen : x.channel.isOpen with
      | true =>
        rw [if_pos rfl, if_pos rfl, ← hrest]
        exact (List.append_assoc _ _ _).symm
      | false => simpa using hrest
    | handed hgot ho hr hempty =>
      rw [ite_self, List.append_nil]
      refine ⟨hnone, ?_, fun z hz hreceiver => ?_⟩
      · rcases hempty with rfl | hreceiver
        · rw [List.append_nil]
          exact h.isPrefix
        · rw [← h.rest x hx hreceiver, ← hgot, ← List.append_assoc]
          exact List.prefix_append _ _
      · obtain rfl := hown z hz
        rw [← h.rest x hx (hr ▸ hreceiver), ← hgot, List.append_assoc]
    | closed hb ho hr =>
      rw [ite_self, List.append_nil, List.append_nil]
      refine ⟨hnone, h.isPrefix, fun z hz hreceiver => ?_⟩
      obtain rfl := hown z hz
      rw [hb]
      exact h.rest x hx (hr ▸ hreceiver)
    | dropped ho hr =>
      rw [ite_self, List.append_nil, List.append_nil]
      refine ⟨hnone, h.isPrefix, fun z hz hreceiver => ?_⟩
      obtain rfl := hown z hz
      rw [hr] at hreceiver
      cases hreceiver

section Run

variable {moves : Nat → Move} {i j n : Nat}

theorem step_trace (moves : Nat → Move) (id : SubscriberId) (n : Nat) :
    Step (World.trace {} moves n) (World.trace {} moves (n + 1)) id ((World.trace {} moves n).tells id (moves n))
      ((World.trace {} moves n).hands id (moves n)) ((World.trace {} moves n).hangsUp id (moves n)) :=
  step_move (kept_trace moves n) (moves n)

theorem tally_trace (moves : Nat → Move) (id : SubscriberId) (n : Nat) :
    Tally (World.trace {} moves n) id (received moves id n) (notified moves id n) := by
  induction n with
  | zero => exact ⟨fun _ => ⟨rfl, rfl⟩, List.prefix_rfl, fun _ h => by cases h⟩
  | succ n ih => exact ih.step (step_trace moves id n)

/-- once there is a pair, it stays -/
theorem exists_pair (h : i ≤ n) (hx : (World.trace {} moves i).pairs.get? id = some x) :
    ∃ y, (World.trace {} moves n).pairs.get? id = some y := by
  induction n, h using Nat.le_induction with
  | base => exact ⟨x, hx⟩
  | succ n _ ih =>
    obtain ⟨y, hy⟩ := ih
    exact (step_trace moves id n).exists_pair hy

/-- nobody hangs up before there is a pair -/
theorem hangsUp_of_absent (moves : Nat → Move) (hx : (World.trace {} moves n).pairs.get? id = none) :
    (World.trace {} moves n).hangsUp id (moves n) = false := by
  have hstep := step_trace moves id n
  generalize (World.trace {} moves n).tells id (moves n) = sent at hstep
  generalize (World.trace {} moves n).hands id (moves n) = got at hstep
  generalize (World.trace {} moves n).hangsUp id (moves n) = hangs at hstep ⊢
  cases hstep with
  | absent | made => rfl
  | turned _ _ hsome =>
    rw [hx] at hsome
    cases hsome

/-- **The receiver of a pair is open until it is closed or dropped.** -/
theorem listens_trace (moves : Nat → Move) (id : SubscriberId) (n : Nat) : (World.trace {} moves n).listens id = true ↔
    ((World.trace {} moves n).pairs.get? id).isSome = true ∧
      ∀ i < n, (World.trace {} moves i).hangsUp id (moves i) = false := by
  induction n with
  | zero =>
    have hnone : (World.trace {} moves 0).pairs.get? id = none := rfl
    rw [listens_of_none hnone, hnone]
    simp
  | succ n ih =>
    cases hx : (World.trace {} moves n).pairs.get? id with
    | some x =>
      obtain ⟨y, hy⟩ := (step_trace moves id n).exists_pair hx
      rw [(step_trace moves id n).listens hx, Bool.and_eq_true, ih, hx, hy, Bool.not_eq_true']
      constructor
      · rintro ⟨⟨-, hbefore⟩, hnow⟩
        refine ⟨rfl, fun i hi => ?_⟩
        rcases Nat.lt_succ_iff_lt_or_eq.1 hi with hi | rfl
        · exact hbefore i hi
        · exact hnow
      · rintro ⟨-, hall⟩
        exact ⟨⟨rfl, fun i hi => hall i (Nat.lt_succ_of_lt hi)⟩, hall n (Nat.lt_succ_self n)⟩
    | none =>
      have hbefore : ∀ i ≤ n, (World.trace {} moves i).hangsUp id (moves i) = false := by
        intro i hi
        cases hi' : (World.trace {} moves i).pairs.get? id with
        | none => exact hangsUp_of_absent moves hi'
        | some z =>
          obtain ⟨y, hy⟩ := exists_pair hi hi'
          rw [hx] at hy
          cases hy
      have hstep := step_trace moves id n
      generalize (World.trace {} moves n).tells id (moves n) = sent at hstep
      generalize (World.trace {} moves n).hands id (moves n) = got at hstep
      generalize (World.trace {} moves n).hangsUp id (moves n) = hangs at hstep
      cases hstep with
      | absent _ hy => simp [listens_of_none hy, hy]
      | made y _ hy ho =>
        rw [listens_of_some hy, ho, hy]
        exact ⟨fun _ => ⟨rfl, fun i hi => hbefore i (Nat.lt_succ_iff.1 hi)⟩, fun _ => rfl⟩
      | turned _ _ hsome =>
        rw [hx] at hsome
        cases hsome

/-- what is notified once the receiver is closed or dropped does not count -/
theorem notified_of_hangsUp (hin : i < n) (hi : (World.trace {} moves i).hangsUp id (moves i) = true) :
    notified moves id n = notified moves id i := by
  induction n, (Nat.succ_le_of_lt hin) using Nat.le_induction with
  | base =>
    have htells : (if (World.trace {} moves i).listens id then (World.trace {} moves i).tells id (moves i) else []) = [] := by
      have hstep := step_trace moves id i
      generalize (World.trace {} moves i).tells id (moves i) = sent at hstep
      generalize (World.trace {} moves i).hands id (moves i) = got at hstep
      rw [hi] at hstep
      cases hstep with
      | turned _ _ _ _ ht => cases ht <;> exact ite_self _
    rw [notified, htells, List.append_nil]
  | succ n hin' ih =>
    have hno : (World.trace {} moves n).listens id = false := Bool.eq_false_iff.2 fun hl => by
      rw [((listens_trace moves id n).1 hl).2 i hin'] at hi
      cases hi
    rw [notified, hno, ih hin']
    exact List.append_nil _

end Run

end LiveFiles.Session.Channels
