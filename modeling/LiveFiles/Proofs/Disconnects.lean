/-
Pairs that come to their end, in a session in which everything goes on in any order.
- Reading a receiver tells that all has ended, or that one has to wait, as nothing is there and nothing can or can still
  come (`reply_read`, `sender_iff`).
- Whoever waits for a receiver to be closed and cannot go on waits for one that is open (`waiting_trace`): those who wait are
  woken when it is closed or dropped.
- A wait that is not cancelled goes on while the receiver is open, and a receiver that is closed stays so (`wait_trace`).
- **`snapshots_delivered`** puts this together with what the reader gets.
-/
import LiveFiles.Proofs.Receipts

namespace LiveFiles.Session.Channels

/-- somebody has the subscriber: it is held by its name, or a task waits for its receiver to be closed -/
def World.hasSender (w : World) (id : SubscriberId) : Prop :=
  (∃ x, w.pairs.get? id = some x ∧ x.held = true) ∨ ∃ t x, w.tasks.live.get? t = some x ∧ x.phase.pair = id

/-- the receiver that a task of the session waits for is open -/
abbrev Phase.WaitsIn (w : World) (p : Phase) : Prop := w.listens p.pair = true

/-- everybody who cannot go on waits for a receiver that is open -/
def World.Waiting (w : World) : Prop := w.tasks.Waiting (Phase.WaitsIn w)

variable {w w' : World} {id : SubscriberId} {t : TaskId} {name task : String} {x y : Pair} {c : Channel Snapshot} {m : Move}

/-! ## Reading -/

/-- the sending end exists as long as somebody has the subscriber -/
theorem sender_iff (h : Kept w) (hx : w.pairs.get? id = some x) : x.channel.sender = true ↔ w.hasSender id := by
  have hkeepers : 0 < x.keepers ↔ ∃ t x, w.tasks.live.get? t = some x ∧ x.phase.pair = id := by
    have hcount : w.waits.count id = x.keepers := by
      rw [h.keepers, hx]
      rfl
    rw [← hcount, List.count_pos_iff, World.waits, Tasks.mem_gather]
    simp only [Option.some.injEq]
  rw [(h.sound id x hx).sender, Bool.or_eq_true, decide_eq_true_eq, hkeepers, World.hasSender]
  refine or_congr_left ⟨fun hheld => ⟨x, hx, hheld⟩, ?_⟩
  rintro ⟨y, hy, hheld⟩
  rwa [Option.some.inj (hx.symm.trans hy)]

/-- **What an attempt to read answers where nothing is handed out.** -/
theorem reply_read (h : Kept w) (hc : w.receiver? name = some (id, c)) :
    ((command w (.read name)).2 = .ended ↔ c.buffer = [] ∧ (w.listens id = false ∨ ¬ w.hasSender id)) ∧
    ((command w (.read name)).2 = .wouldWait ↔ c.buffer = [] ∧ w.listens id = true ∧ w.hasSender id) ∧
    ((command w (.tryRead name)).2 = .nothing ↔ c.buffer = []) := by
  obtain ⟨x, hx, rfl, -⟩ := of_receiver? h hc
  rw [listens_of_some hx, ← sender_iff h hx]
  cases hb : x.channel.buffer with
  | cons s rest => simp [command, hc, Channel.read, hb]
  | nil =>
    cases ho : x.channel.isOpen <;> cases hs : x.channel.sender <;> simp [command, hc, Channel.read, hb, ho, hs]

/-! ## Waiting -/

theorem listens_unkeep (w : World) (k : SubscriberId) (id : SubscriberId) :
    World.listens { w with pairs := w.pairs.modify k Pair.unkeep } id = w.listens id := by
  unfold World.listens
  rw [get?_modify w k Pair.unkeep id]
  split
  · rw [Option.any_map]
    rfl
  · rfl

theorem World.Waiting.unkeep (h : w.Waiting) (k : SubscriberId) :
    World.Waiting { w with pairs := w.pairs.modify k Pair.unkeep } :=
  Tasks.Waiting.mono h fun _ _ _ _ hl => (listens_unkeep w k _).trans hl

theorem waiting_served (hw : w.Waiting) (hs : Machine.Served w t w') : w'.Waiting := by
  refine Machine.waiting_served (Q := Phase.WaitsIn) (fun _ _ _ hl => hl) hw hs
    (fun w p hw => World.Waiting.unkeep (w := w) hw p.pair) fun ts x hts hx hfloored => ?_
  change Machine.Ends Phase.WaitsIn (World.advance { w with tasks := ts } x.phase).1 t
    (World.advance { w with tasks := ts } x.phase).2
  unfold World.advance
  split
  · rename_i hl
    refine ⟨hfloored, hts.floor, fun p hp => ?_⟩
    cases hp
    exact hl
  · exact ⟨World.Waiting.unkeep hfloored x.phase.pair, hts.floor, fun p hp => by cases hp⟩

/-- an open receiver stays open unless the move closes or drops it -/
theorem listens_move (h : Kept w) (hl : w.listens id = true) (hm : w.hangsUp id m = false) :
    (w.move m).listens id = true := by
  cases hx : w.pairs.get? id with
  | none =>
    rw [listens_of_none hx] at hl
    cases hl
  | some x => rw [(step_move h m).listens hx, hl, hm, Bool.not_false, Bool.and_true]

theorem waiting_command (h : Kept w) (hw : w.Waiting) (c : Command) : (command w c).1.Waiting := by
  by_cases hclosed : ∃ name task, c = .closed name task
  · obtain ⟨name, task, rfl⟩ := hclosed
    simp only [command]
    split
    · rename_i x hx
      refine Tasks.Waiting.spawn (Tasks.Waiting.mono hw fun _ y _ _ hl => ?_) _
      have hkeep : (command w (.closed name task)).1.listens y.phase.pair = true := by
        refine listens_move h (m := .command (.closed name task)) hl ?_
        unfold World.hangsUp World.about
        dsimp only
        split <;> rfl
      simpa only [command, hx] using hkeep
    · exact hw
  · have hc : ∀ name task, c ≠ .closed name task := fun name task e => hclosed ⟨name, task, e⟩
    -- whoever waits for a receiver that is closed or dropped is woken
    have hstays : ∀ {j : SubscriberId}, w.listens j = true → (c.hangsUp = true → w.target? c ≠ some j) →
        (command w c).1.listens j = true := by
      intro j hl hno
      refine listens_move h (m := .command c) hl ?_
      unfold World.hangsUp World.about
      dsimp only
      split
      · rename_i htarget
        exact Bool.eq_false_iff.2 fun hup => hno hup htarget
      · rfl
    unfold World.Waiting
    rw [tasks_command w hc]
    cases hup : c.hangsUp with
    | false => exact Tasks.Waiting.mono hw fun _ _ _ _ hl => hstays hl fun e => by rw [hup] at e; cases e
    | true =>
      rw [if_pos rfl]
      cases htarget : w.target? c with
      | none => exact Tasks.Waiting.mono hw fun _ _ _ _ hl => hstays hl fun _ e => by rw [htarget] at e; cases e
      | some k =>
        refine Tasks.Waiting.wake hw _ fun _ y _ _ hl => ?_
        by_cases e : y.phase.pair = k
        · exact Or.inl (decide_eq_true e)
        · refine Or.inr (hstays hl fun _ e' => e ?_)
          rw [htarget] at e'
          exact (Option.some.inj e').symm

theorem waiting_trace (moves : Nat → Move) (n : Nat) : (World.trace {} moves n).Waiting := by
  induction n with
  | zero => exact fun id t ht => by cases ht
  | succ n ih =>
    change ((World.trace {} moves n).move (moves n)).Waiting
    cases moves n with
    | turn t => exact waiting_served ih (Machine.served_serve _ t)
    | command c => exact waiting_command (kept_trace moves n) ih c
    | cancel t => exact Tasks.Waiting.cancel ih t

/-! ## Waits that go on -/

/-- A task of old stays as it is in a move that does not cancel it, or leaves because it was cancelled before or the
receiver it waited for is closed. -/
theorem live_move (ht : t < w.tasks.next) (hm : m ≠ .cancel t) :
    (w.move m).tasks.live.get? t = w.tasks.live.get? t ∨ (w.move m).tasks.live.get? t = none ∧
      ∀ x, w.tasks.live.get? t = some x → x.cancelled = true ∨ w.listens x.phase.pair = false := by
  cases m with
  | turn s =>
    have hsettled : Settled w s (w.move (.turn s)) := settled_served (Machine.served_serve w s)
    cases hsettled with
    | stays _ _ _ hlive => exact Or.inl (hlive t)
    | leaves x hx hwhy _ _ _ hlive =>
      rw [hlive, Table.get?_erase]
      by_cases e : s = t
      · subst e
        refine Or.inr ⟨if_pos rfl, fun y hy => ?_⟩
        obtain rfl : x = y := Option.some.inj (hx.symm.trans hy)
        exact hwhy
      · exact Or.inl (if_neg e)
  | command c =>
    refine Or.inl ?_
    change (command w c).1.tasks.live.get? t = _
    by_cases hclosed : ∃ name task, c = .closed name task
    · obtain ⟨name, task, rfl⟩ := hclosed
      simp only [command]
      split
      · simp only [Tasks.spawn, Table.get?_insert]
        exact if_neg ht.ne'
      · rfl
    · rw [(live_command w fun name task e => hclosed ⟨name, task, e⟩).1]
  | cancel s =>
    refine Or.inl ?_
    have hne : s ≠ t := fun e => hm (e ▸ rfl)
    change (w.tasks.cancel s).live.get? t = _
    unfold Tasks.cancel
    split
    · rw [Tasks.live_enqueue, Table.get?_modify, if_neg hne]
    · rfl

theorem next_move (w : World) (m : Move) : w.tasks.next ≤ (w.move m).tasks.next := by
  cases m with
  | turn s =>
    have hsettled : Settled w s (w.move (.turn s)) := settled_served (Machine.served_serve w s)
    cases hsettled with
    | stays _ _ hnext => exact hnext.ge
    | leaves _ _ _ _ _ hnext => exact hnext.ge
  | command c =>
    by_cases hclosed : ∃ name task, c = .closed name task
    · obtain ⟨name, task, rfl⟩ := hclosed
      change w.tasks.next ≤ (command w (.closed name task)).1.tasks.next
      simp only [command]
      split
      · exact Nat.le_succ _
      · exact le_rfl
    · exact (live_command w fun name task e => hclosed ⟨name, task, e⟩).2.ge
  | cancel s => exact (Tasks.grows_cancel (P := fun _ => True) w.tasks s).next

section Run

variable {moves : Nat → Move} {i n : Nat}

/-- **A wait that is not cancelled goes on while the receiver is open**; where it has ended, the receiver is closed or
dropped. -/
theorem wait_trace (hin : i < n) (hi : moves i = .command (.closed name task))
    (hx : (World.trace {} moves i).subscriber? name = some x)
    (hcancel : ∀ j < n, moves j ≠ .cancel (World.trace {} moves i).tasks.next) :
    (World.trace {} moves n).tasks.live.get? (World.trace {} moves i).tasks.next =
        some ⟨⟨x.subscriberId, task⟩, false⟩ ∨
      (World.trace {} moves n).tasks.live.get? (World.trace {} moves i).tasks.next = none ∧
        (World.trace {} moves n).listens x.subscriberId = false := by
  have hpair := (of_subscriber? (kept_trace moves i) hx).1
  have hnext : ∀ {k}, i + 1 ≤ k → (World.trace {} moves i).tasks.next < (World.trace {} moves k).tasks.next := by
    intro k hk
    induction k, hk using Nat.le_induction with
    | base =>
      change _ < ((World.trace {} moves i).move (moves i)).tasks.next
      rw [hi]
      simp [World.move, command, hx, Tasks.spawn]
    | succ k _ ih => exact ih.trans_le (next_move _ _)
  generalize ht : (World.trace {} moves i).tasks.next = t at hcancel hnext ⊢
  induction n, (Nat.succ_le_of_lt hin) using Nat.le_induction with
  | base =>
    refine Or.inl ?_
    change ((World.trace {} moves i).move (moves i)).tasks.live.get? t = _
    rw [hi, ← ht]
    simp [World.move, command, hx, Tasks.spawn, Table.get?_insert]
  | succ n hn ih =>
    have hin' : i < n := hn
    obtain ⟨y, hy⟩ := exists_pair hin'.le hpair
    have hstep := step_trace moves x.subscriberId n
    have hmove := live_move (hnext hn) (hcancel n (Nat.lt_succ_self n))
    rcases ih hin' fun j hj => hcancel j (Nat.lt_succ_of_lt hj) with hlive | ⟨hgone, hno⟩
    · rcases hmove with hsame | ⟨hgone, hwhy⟩
      · exact Or.inl (hsame.trans hlive)
      · rcases hwhy _ hlive with hc | hno
        · cases hc
        · refine Or.inr ⟨hgone, ?_⟩
          rw [hstep.listens hy, hno, Bool.false_and]
    · refine Or.inr ⟨?_, ?_⟩
      · rcases hmove with hsame | ⟨hgone', -⟩
        · exact hsame.trans hgone
        · exact hgone'
      · rw [hstep.listens hy, hno, Bool.false_and]

end Run

/-- **Subscribers are told in order, once, and end cleanly.** Pairs are made and let go of, the subscriber of one is told
snapshots, its receiver is read in three ways, closed and dropped, tasks wait for that and are cancelled, and everything
goes on in any order. After any moves, for every pair:
- what the reader has got is the beginning of what was notified before the receiver was closed or dropped; as long as there
  is a receiver, the rest is there to be read, closed or not; and a drain hands it all out;
- the receiver is open until it is closed or dropped, and nothing notified after that is ever received;
- where nothing is there, reading tells that all has ended if the receiver is closed or nobody has the subscriber any more,
  and that one would have to wait otherwise;
- where nobody can go on, a wait for the receiver to be closed that was not cancelled is unfinished exactly if the receiver
  is open. -/
theorem snapshots_delivered (moves : Nat → Move) (id : SubscriberId) (n : Nat) :
    let w := World.trace {} moves n
    (received moves id n <+: notified moves id n ∧
      (∀ x, w.pairs.get? id = some x → x.channel.receiver = true →
        received moves id n ++ x.channel.buffer = notified moves id n) ∧
      (∀ name, moves n = .command (.drain name) → w.target? (.drain name) = some id →
        received moves id (n + 1) = notified moves id n)) ∧
    (w.listens id = true ↔
      (w.pairs.get? id).isSome = true ∧ ∀ i < n, (World.trace {} moves i).hangsUp id (moves i) = false) ∧
    (∀ i < n, (World.trace {} moves i).hangsUp id (moves i) = true → received moves id n <+: notified moves id i) ∧
    (∀ name c, w.receiver? name = some (id, c) →
      ((command w (.read name)).2 = .ended ↔ c.buffer = [] ∧ (w.listens id = false ∨ ¬ w.hasSender id)) ∧
      ((command w (.read name)).2 = .wouldWait ↔ c.buffer = [] ∧ w.listens id = true ∧ w.hasSender id) ∧
      ((command w (.tryRead name)).2 = .nothing ↔ c.buffer = [])) ∧
    (w.tasks.quiet = true → ∀ i name task x, i < n → moves i = .command (.closed name task) →
      (World.trace {} moves i).subscriber? name = some x → x.subscriberId = id →
      (∀ j < n, moves j ≠ .cancel (World.trace {} moves i).tasks.next) →
      ((w.tasks.live.get? (World.trace {} moves i).tasks.next).isSome = true ↔ w.listens id = true)) := by
  intro w
  have h : Kept w := kept_trace moves n
  have htally : Tally w id (received moves id n) (notified moves id n) := tally_trace moves id n
  refine ⟨⟨htally.isPrefix, htally.rest, ?_⟩, listens_trace moves id n, ?_, ?_, ?_⟩
  · intro name hmove htarget
    obtain ⟨⟨k, c⟩, hc, rfl⟩ := Option.map_eq_some_iff.1 htarget
    obtain ⟨x, hx, hchannel, hreceiver⟩ := of_receiver? h hc
    have hhands : w.hands k (moves n) = x.channel.buffer := by
      have htarget' : w.target? (.drain name) = some k := htarget
      rw [hmove, World.hands, World.about, if_pos htarget']
      simp [command, hc, Channel.drain, Reply.snapshots?, hchannel]
    rw [received, ← htally.rest x hx (hchannel ▸ hreceiver), ← hhands]
  · intro i hi hup
    rw [← notified_of_hangsUp hi hup]
    exact htally.isPrefix
  · intro name c hc
    exact reply_read h hc
  · intro hq i name task x hi hmove hx hid hcancel
    subst hid
    rcases wait_trace hi hmove hx hcancel with hlive | ⟨hgone, hno⟩
    · have hlistens : w.listens x.subscriberId = true := (waiting_trace moves n).of_quiet hq hlive
      exact ⟨fun _ => hlistens, fun _ => by rw [hlive]; rfl⟩
    · rw [hgone, hno]
      exact Iff.rfl

end LiveFiles.Session.Channels
