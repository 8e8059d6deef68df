/-
Calls to watch of one subscriber at one path. One of them has the seat; the others go round: each looks whether the subscriber is
registered or the seat free, waits for the call that has the seat, and looks again when that has ended.
- `joins_move`: a call that has the seat keeps it until it ends, and its signal is given then, in whatever way it ends.
- `stepJoining_cases`, `round_of_goesRound`: what a section of a call comes to that looks for a seat.
- `stands_trace`: whoever waits waits for another call that has not ended, or has been freed by its end since its last round.
- `rouses_of_rounds`, `Rouses.unique`: each round but the first follows the end of another call, and different rounds the ends of
  different ones; so there are at most as many rounds as calls (`card_rounds_le`).
- **`circles_trace`**: all this holds of every call in every run without shutting down, and each row of a table of joining
  subscribers belongs to one call that has not ended.
-/
import LiveFiles.Proofs.Gatherings

namespace LiveFiles.Engine

variable {w : World} {m : Move} {i j : TaskId} {a b : Activity} {p : Path} {k : Path.Key} {x : SubscriberId} {seat : Seat}
  {joined s y : SignalId} {other : Option SignalId} {o : Outcome}

/-! ## The end of a call that has the seat -/

theorem given_endSeat (w : World) (seat : Seat) : (w.endSeat seat).signals.isGiven seat.joined = true := by
  change (w.signals.give seat.joined).isGiven seat.joined = true
  simp [Signals.isGiven_give]

theorem given_of_endLeaving {e : Problem} : (w.endLeaving (.failed seat e)).1.signals.isGiven seat.joined = true :=
  given_endSeat w seat

/-- **A call that has the seat gives its signal when it ends.** -/
theorem given_of_ended (hs : a.seat? = some seat) (ho : (w.step a).2 = .ended o) :
    (w.step a).1.signals.isGiven seat.joined = true := by
  cases a with
  | synchronizing seat' r =>
    cases hs
    simp only [World.step, World.stepSynchronizing] at ho ⊢
    rcases hx : w.stepRefresh r with ⟨w₁, r' | r' | r' | (e | changed)⟩ <;> rw [hx] at ho
    · cases ho
    · cases ho
    · cases ho
    · simp only [World.releasePlace] at ho ⊢
      cases he : w₁.entry? seat.path with
      | none => exact given_of_endLeaving
      | some e =>
        rw [he] at ho
        dsimp only at ho ⊢
        split at ho
        · cases ho
        · next hcount =>
          rw [if_neg hcount]
          exact given_of_endLeaving
    · cases ho
  | settling seat' signal =>
    cases hs
    simp only [World.step, World.stepSettling] at ho ⊢
    split at ho
    · cases ho
    · next hsignal =>
      rw [if_neg hsignal]
      split at ho
      · cases ho
      · unfold World.register
        split <;> exact given_endSeat _ _
  | tearingDown q turn l =>
    cases l with
    | failed seat' e =>
      cases hs
      simp only [World.step, World.stepTearingDown] at ho ⊢
      rcases hx : w.awaitIdle q turn with ⟨w₁, turn' | turn' | turn' | u⟩ <;> rw [hx] at ho
      · cases ho
      · cases ho
      · cases ho
      · dsimp only
        split <;> exact given_of_endLeaving
    | _ => cases hs
  | _ => cases hs

/-- so it does when it is cancelled -/
theorem given_of_abandoned (hs : a.seat? = some seat) (w : World) : (w.abandon a).core.signals.isGiven seat.joined = true := by
  cases a with
  | synchronizing seat' r =>
    cases hs
    simp only [World.abandon, World.abandonSeat, core_inBackground]
    exact given_endSeat _ _
  | settling seat' signal =>
    cases hs
    simp only [World.abandon, World.abandonSeat, core_inBackground]
    exact given_endSeat _ _
  | tearingDown q turn l =>
    cases l with
    | failed seat' e =>
      cases hs
      exact given_endSeat _ _
    | _ => cases hs
  | _ => cases hs

/-- a call to watch a path for a subscriber has not ended -/
def World.Watches (w : World) (j : TaskId) (k : Path.Key) (x : SubscriberId) : Prop :=
  ∃ ph p, w.tasks.phase? j = some ph ∧ p.key = k ∧ Watching p x ph.activity

/-- it has the seat, with a signal -/
def World.Joins (w : World) (j : TaskId) (k : Path.Key) (x : SubscriberId) (s : SignalId) : Prop :=
  ∃ ph p, w.tasks.phase? j = some ph ∧ p.key = k ∧ Watching p x ph.activity ∧ ph.activity.seat? = some ⟨p, x, s⟩

theorem World.Joins.watches (h : w.Joins j k x s) : w.Watches j k x := by
  obtain ⟨ph, p, hph, hk, hwatch, -⟩ := h
  exact ⟨ph, p, hph, hk, hwatch⟩

theorem World.Joins.seat? (h : w.Joins j k x s) : ∃ p, w.seat? j = some ⟨p, x, s⟩ := by
  obtain ⟨ph, p, hph, -, -, hseat⟩ := h
  exact ⟨p, by rw [World.seat?, World.activity?, hph]; exact hseat⟩

/-- whoever looks for a seat has none -/
theorem World.Joins.ne (h : w.Joins j k x s) {ρ : Role} (hi : w.tasks.phase? i = some ⟨ρ, .joining p x joined other⟩) : j ≠ i := by
  rintro rfl
  obtain ⟨ph, q, hph, -, -, hseat⟩ := h
  cases hph.symm.trans hi
  cases hseat

theorem World.Joins.unique (hk : Kept w.core w.stakes) {k' : Path.Key} {x' : SubscriberId} (h : w.Joins j k x s)
    (h' : w.Joins i k' x' s) : j = i := by
  obtain ⟨p, hseat⟩ := h.seat?
  obtain ⟨q, hseat'⟩ := h'.seat?
  exact distinct_seats hk j i _ _ hseat hseat' rfl

/-- the signal of a call that has the seat is kept by the call -/
theorem World.Joins.keeps (h : w.Joins j k x s) : keeps w.core w.stakes (.call j) = some s := by
  obtain ⟨ph, p, hph, -, hwatch, hseat⟩ := h
  rw [Engine.keeps, stakes_of_phase hph]
  cases ha : ph.activity <;> rw [ha] at hwatch hseat <;> cases hwatch <;> cases hseat <;> rfl

theorem World.Joins.not_given (hk : Kept w.core w.stakes) (h : w.Joins j k x s) : w.signals.isGiven s = false :=
  hk.secret _ _ h.keeps

/-- **Whoever has the seat keeps it until it ends**, and its signal is given then. -/
theorem joins_move (hw : Wf w) (m : Move) (h : w.Joins j k x s) :
    (w.move m).Joins j k x s ∨ (w.move m).tasks.phase? j = none ∧ (w.move m).signals.isGiven s = true := by
  obtain ⟨ph, p, hph, rfl, hwatch, hseat⟩ := h
  cases fate_move hw hph m with
  | stays hsame => exact .inl ⟨ph, p, hsame, rfl, hwatch, hseat⟩
  | goesOn b hcarry hb hafter =>
    have hne : ph.activity ≠ .starting .shutDown := fun ha => by
      rw [ha] at hseat
      cases hseat
    have hcloses : ph.activity.closes = false := by
      generalize ph.activity = a at hwatch
      cases hwatch <;> rfl
    exact .inl ⟨_, p, hafter, rfl, hwatch.next hb, seat?_of_next hne hcloses hb hseat⟩
  | ends o hcarry ho hnone =>
    refine .inr ⟨hnone, ?_⟩
    rw [show (w.move m).signals = _ from congrArg Core.signals (core_of_carried hcarry)]
    exact given_of_ended hseat ho
  | dropped t hm hs hc hnone =>
    subst hm
    cases hph.symm.trans (phase?_of_served hs)
    refine .inr ⟨hnone, ?_⟩
    have hcore : (w.move (.turn j)).core = (((floorTo w j).without j).abandon t.phase.activity).core := by
      rw [World.move, serve_of_cancelled hs hc, core_finish]
    rw [show (w.move (.turn j)).signals = _ from congrArg Core.signals hcore]
    exact given_of_abandoned hseat _

/-- the call that a row of the table of joining subscribers belongs to -/
theorem joins_of_joining (ho : Orderly w.front.book? w.seat? w.holder?)
    (hcoherent : ∀ i ph, w.tasks.phase? i = some ph → ph.activity.Coherent) {e : Entry} (he : w.entries.get? k = some e)
    (hx : e.joining.get? x = some s) : ∃ j, w.Joins j k x s := by
  have hbook : w.front.book? k = some e.face.book := congrArg (Option.map Face.book) (congrArg (Option.map Entry.face) he)
  obtain ⟨j, p, hseat, hk⟩ := ho.owned k _ x s hbook hx
  obtain ⟨a, ha, hs⟩ := Option.bind_eq_some_iff.1 hseat
  obtain ⟨ph, hph, rfl⟩ := Option.map_eq_some_iff.1 ha
  exact ⟨j, ph, p, hph, hk, (hcoherent j ph hph).watching hs, hs⟩

/-! ## A round -/

/-- **What a section comes to that looks for a seat**: it goes on waiting, or it goes round, and then the subscriber is registered,
or another call has the seat, or the call takes it. -/
theorem stepJoining_cases (w : World) (p : Path) (x : SubscriberId) (joined : SignalId) (other : Option SignalId) :
    (other.all w.signals.isGiven = false ∧ w.stepJoining p x joined other = (w, .wait (.joining p x joined other))) ∨
    other.all w.signals.isGiven = true ∧
      ((w.isRegistered p x = true ∧ ∃ v, (w.stepJoining p x joined other).2 = .ended (.ok (.snapshot v))) ∨
      (∃ e y, w.entry? p = some e ∧ e.joining.get? x = some y ∧
        (w.stepJoining p x joined other).2.next = some (.joining p x joined (some y))) ∨
      ∃ b, (w.stepJoining p x joined other).2.next = some b ∧ b.holder? = some ⟨p, x, joined⟩) := by
  have hany : (other.any fun s => !w.signals.isGiven s) = !other.all w.signals.isGiven := by cases other <;> simp
  have htake : ∀ e : Entry, ∃ b, (w.takePlace ⟨p, x, joined⟩ e).2.next = some b ∧ b.holder? = some ⟨p, x, joined⟩ := by
    intro e
    unfold World.takePlace
    dsimp only
    split <;> exact ⟨_, rfl, rfl⟩
  unfold World.stepJoining
  rw [hany]
  cases hall : other.all w.signals.isGiven with
  | false => exact .inl ⟨rfl, rfl⟩
  | true =>
    refine .inr ⟨rfl, ?_⟩
    rw [Bool.not_true, if_neg Bool.false_ne_true]
    cases he : w.entry? p with
    | none => exact .inr (.inr (htake { spelling := p }))
    | some e =>
      rw [Option.getD_some]
      dsimp only
      cases hr : e.registered.contains x with
      | true =>
        refine .inl ⟨?_, ?_⟩
        · rw [World.isRegistered, he]
          exact hr
        · rw [if_pos rfl]
          exact ⟨_, rfl⟩
      | false =>
        rw [if_neg Bool.false_ne_true]
        cases hy : e.joining.get? x with
        | some y => exact .inr (.inl ⟨e, y, rfl, hy, rfl⟩)
        | none => exact .inr (.inr (htake e))

/-- A section looks for a seat: the first one of a call that does, or one after the call that it has waited for has ended. -/
def World.goesRound (w : World) (m : Move) (i : TaskId) : Bool :=
  match w.carried? m with
  | some (j, .joining _ _ _ other) => j = i && other.all w.signals.isGiven
  | _ => false

theorem goesRound_iff : w.goesRound m i = true ↔
    ∃ p x joined other, w.carried? m = some (i, .joining p x joined other) ∧ other.all w.signals.isGiven = true := by
  unfold World.goesRound
  constructor
  · intro h
    split at h
    · next j p x joined other hcarry =>
      simp only [Bool.and_eq_true, decide_eq_true_eq] at h
      obtain ⟨rfl, hall⟩ := h
      exact ⟨p, x, joined, other, hcarry, hall⟩
    · cases h
  · rintro ⟨p, x, joined, other, hcarry, hall⟩
    simp [hcarry, hall]

/-- whoever carries out no section goes no round -/
theorem goesRound_of_not_carried (h : ∀ a, w.carried? m ≠ some (i, a)) : w.goesRound m i = false :=
  Bool.eq_false_iff.2 fun hr => by
    obtain ⟨p, x, joined, other, hcarry, -⟩ := goesRound_iff.1 hr
    exact h _ hcarry

/-- a call to watch has looked for a seat: it waits for another call, or has the seat -/
def Activity.Tried (a : Activity) : Prop := (∃ p x joined y, a = .joining p x joined (some y)) ∨ ∃ seat, a.seat? = some seat

theorem tried_of_joining (hb : (w.stepJoining p x joined other).2.next = some b) : b.Tried := by
  rcases stepJoining_cases w p x joined other with ⟨hall, h⟩ | ⟨-, ⟨-, v, h⟩ | ⟨e, y, -, -, h⟩ | ⟨b', h, hholder⟩⟩
  · rw [h] at hb
    cases hb
    cases other with
    | none => cases hall
    | some y => exact .inl ⟨p, x, joined, y, rfl⟩
  · rw [h] at hb
    cases hb
  · cases h.symm.trans hb
    exact .inl ⟨p, x, joined, y, rfl⟩
  · cases h.symm.trans hb
    exact .inr ⟨_, Activity.seat?_of_holder hholder⟩

/-- whoever has looked for a seat never begins to again -/
theorem Activity.Tried.next (h : a.Tried) (hwatch : Watching p x a) (hb : (w.step a).2.next = some b) : b.Tried := by
  rcases h with ⟨q, z, joined, y, rfl⟩ | ⟨seat, hseat⟩
  · exact tried_of_joining hb
  · refine .inr ⟨seat, seat?_of_next ?_ ?_ hb hseat⟩
    · rintro rfl
      cases hseat
    · cases hwatch <;> rfl

/-- **What a round comes to.** -/
inductive Round (w : World) (m : Move) (i : TaskId) (p : Path) (x : SubscriberId) : Prop
  /-- the subscriber is registered, and the call returns what is known of the path -/
  | registered (v : Snapshot) (hreg : w.isRegistered p x = true) (hreply : Replies w m i (.ok (.snapshot v)))
  /-- another call has the seat, and the call waits for it -/
  | waits (j : TaskId) (hne : j ≠ i) (ρ : Role) (joined y : SignalId)
      (hph : (w.move m).tasks.phase? i = some ⟨ρ, .joining p x joined (some y)⟩) (hjoins : (w.move m).Joins j p.key x y)
      (hy : (w.move m).signals.isGiven y = false)
  /-- nobody has the seat, and the call takes it -/
  | takes (s : SignalId) (e : Entry) (hjoins : (w.move m).Joins i p.key x s) (he : World.entry? (w.move m) p = some e)
      (hrow : e.joining.get? x = some s)

/-- whoever has the seat keeps it in the section of another task -/
theorem World.Joins.kept_of_carried (hw : Wf w) (h : w.Joins j k x s) (hcarry : w.carried? m = some (i, a)) (hne : j ≠ i) :
    (w.move m).Joins j k x s := by
  obtain ⟨ph, q, hph, hrest⟩ := h
  obtain ⟨u, rfl, -⟩ := carried?_eq_some.1 hcarry
  exact ⟨ph, q, phase?_kept hw (serves_of_ne hne) hph, hrest⟩

/-- the call that a section finds in the seat is another one, and stays there -/
theorem joins_of_row (hw : Wf w) (ho : Orderly w.front.book? w.seat? w.holder?)
    (hcoherent : ∀ i ph, w.tasks.phase? i = some ph → ph.activity.Coherent)
    (hcarry : w.carried? m = some (i, .joining p x joined other)) {e : Entry} (he : w.entry? p = some e)
    (hy : e.joining.get? x = some y) : ∃ j, j ≠ i ∧ (w.move m).Joins j p.key x y := by
  obtain ⟨j, hjoins⟩ := joins_of_joining ho hcoherent he hy
  obtain ⟨ρ, hph⟩ := phase?_carried hcarry
  exact ⟨j, hjoins.ne hph, hjoins.kept_of_carried hw hcarry (hjoins.ne hph)⟩

theorem phase?_of_next (hw : Wf w) (hcarry : w.carried? m = some (i, a)) (hb : ((floorTo w i).step a).2.next = some b) :
    ∃ ρ, (w.move m).tasks.phase? i = some ⟨ρ, b⟩ := by
  have h := (phase?_of_carried hw hcarry).trans hb
  obtain ⟨ph, hph, rfl⟩ := Option.map_eq_some_iff.1 h
  exact ⟨ph.role, hph⟩

/-- **A round finds the subscriber registered or another call in the seat, or it takes the seat.** -/
theorem round_of_goesRound (hR : Running w m) {m' : Move} (hR' : Running (w.move m) m')
    (ho : Orderly w.front.book? w.seat? w.holder?)
    (ho' : Orderly (w.move m).front.book? (w.move m).seat? (w.move m).holder?) {ph : Phase} (hph : w.tasks.phase? i = some ph)
    (hwatch : Watching p x ph.activity) (hr : w.goesRound m i = true) : Round w m i p x := by
  obtain ⟨q, z, joined, other, hcarry, hall⟩ := goesRound_iff.1 hr
  obtain ⟨ρ, hρ⟩ := phase?_carried hcarry
  cases hph.symm.trans hρ
  cases hwatch
  have hsignals : (floorTo w i).signals = w.signals := congrArg Core.signals (core_floorTo w i)
  rcases stepJoining_cases (floorTo w i) p x joined other with
    ⟨hnot, -⟩ | ⟨-, ⟨hreg, v, hend⟩ | ⟨e, y, he, hy, hnext⟩ | ⟨b, hb, hholder⟩⟩
  · rw [hsignals, hall] at hnot
    cases hnot
  · refine .registered v ?_ ⟨_, hcarry, hend⟩
    rw [World.isRegistered, entry?_floorTo] at hreg
    exact hreg
  · rw [entry?_floorTo] at he
    obtain ⟨j, hne, hjoins⟩ := joins_of_row hR.wf ho hR.coherent hcarry he hy
    obtain ⟨ρ', hafter⟩ := phase?_of_next hR.wf hcarry hnext
    exact .waits j hne ρ' joined y hafter hjoins (hjoins.not_given hR'.proper.kept)
  · obtain ⟨ρ', hafter⟩ := phase?_of_next hR.wf hcarry hb
    have hkeeps : (w.move m).holder? i = some ⟨p, x, joined⟩ := by
      rw [World.holder?, World.activity?, hafter]
      exact hholder
    obtain ⟨f, hf, hrow⟩ := ho'.held i _ hkeeps
    obtain ⟨f', hf', rfl⟩ := Option.map_eq_some_iff.1 hf
    obtain ⟨e, he, rfl⟩ := Option.map_eq_some_iff.1 hf'
    have hwatch' : Watching p x b := (Watching.joining joined other).next hb
    exact .takes joined e ⟨_, p, hafter, rfl, hwatch', Activity.seat?_of_holder hholder⟩ he hrow

/-! ## Along a run -/

/-- the call `i` waits for the call `j` to end, which it does in the move -/
structure Frees (w : World) (m : Move) (i j : TaskId) (k : Path.Key) (x : SubscriberId) : Prop where
  other : j ≠ i
  awaited : ∃ ρ p joined y, w.tasks.phase? i = some ⟨ρ, .joining p x joined (some y)⟩ ∧ p.key = k ∧ w.Joins j k x y ∧
    (w.move m).signals.isGiven y = true
  ended : (w.move m).tasks.phase? j = none

/-- the end of the call `j` is what makes `i` look again in move `r` -/
def Rouses (w : World) (moves : Nat → Move) (r : Nat) (i j : TaskId) (k : Path.Key) (x : SubscriberId) : Prop :=
  ∃ l < r, Frees (w.trace moves l) (moves l) i j k x ∧
    ∀ l', l ≤ l' → l' < r → (w.trace moves l').goesRound (moves l') i = false

/-- Whoever waits waits for another call that has the seat, or that call has ended since it last looked. -/
inductive Stands (w : World) (moves : Nat → Move) (n : Nat) (i : TaskId) (k : Path.Key) (x : SubscriberId) (y : SignalId) : Prop
  | waits (j : TaskId) (hne : j ≠ i) (hjoins : (w.trace moves n).Joins j k x y)
  | freed (j : TaskId) (hrouses : Rouses w moves n i j k x) (hy : (w.trace moves n).signals.isGiven y = true)

section Trace

variable {policy : WritePolicy} {moves : Nat → Move} {n c l : Nat} {ρ : Role}

/-- whoever goes no round stands as before, or is freed -/
theorem Stands.next (hw : Wf (w.trace moves n)) (hph : (w.trace moves n).tasks.phase? i = some ⟨ρ, .joining p x joined (some y)⟩)
    (hno : (w.trace moves n).goesRound (moves n) i = false) (h : Stands w moves n i p.key x y) :
    Stands w moves (n + 1) i p.key x y := by
  cases h with
  | waits j hne hjoins =>
    rcases joins_move hw (moves n) hjoins with hstays | ⟨hover, hgiven⟩
    · exact .waits j hne hstays
    · refine .freed j ⟨n, Nat.lt_succ_self n, ⟨hne, ⟨ρ, p, joined, y, hph, rfl, hjoins, hgiven⟩, hover⟩, ?_⟩ hgiven
      intro l' hl hlt
      rwa [Nat.le_antisymm (Nat.le_of_lt_succ hlt) hl]
  | freed j hrouses hy =>
    obtain ⟨l, hln, hfrees, hquiet⟩ := hrouses
    refine .freed j ⟨l, Nat.lt_succ_of_lt hln, hfrees, ?_⟩ (given_move hw (moves n) hy)
    intro l' hl hlt
    rcases Nat.lt_succ_iff_lt_or_eq.1 hlt with hlt | rfl
    · exact hquiet l' hl hlt
    · exact hno

/-- where the section of a call comes to waiting for another, that call has the seat, or the call has waited for it before -/
theorem stands_carried (h : ∀ n, moves n ≠ .call .shutDown) {a : Activity}
    (hcarry : ((World.start policy).trace moves n).carried? (moves n) = some (i, a)) (hwatch : Watching p x a)
    (hb : ((floorTo ((World.start policy).trace moves n) i).step a).2.next = some (.joining p x joined (some y)))
    (ih : ∀ joined', a = .joining p x joined' (some y) → Stands (World.start policy) moves n i p.key x y) :
    Stands (World.start policy) moves (n + 1) i p.key x y := by
  have hR := running_of_trace policy h n
  obtain ⟨-, ⟨-, hnone⟩ | ⟨joined', other, rfl⟩⟩ := hwatch.rejoins hb
  · cases hnone
  obtain ⟨ρ, hph⟩ := phase?_carried hcarry
  have hsignals : (floorTo ((World.start policy).trace moves n) i).signals = ((World.start policy).trace moves n).signals :=
    congrArg Core.signals (core_floorTo _ i)
  rcases stepJoining_cases (floorTo ((World.start policy).trace moves n) i) p x joined' other with
    ⟨hnot, hwait⟩ | ⟨-, ⟨-, v, hend⟩ | ⟨e, y', he, hy, hnext⟩ | ⟨b, hnext, hholder⟩⟩
  · rw [World.step, hwait] at hb
    cases hb
    refine (ih joined rfl).next hR.wf hph (Bool.eq_false_iff.2 fun hr => ?_)
    obtain ⟨q, z, joined', other, hcarry', hall⟩ := goesRound_iff.1 hr
    cases hcarry.symm.trans hcarry'
    rw [hsignals, hall] at hnot
    cases hnot
  · rw [World.step, hend] at hb
    cases hb
  · cases hnext.symm.trans hb
    rw [entry?_floorTo] at he
    obtain ⟨j, hne, hjoins⟩ := joins_of_row hR.wf (orderly_trace policy h n) hR.coherent hcarry he hy
    exact .waits j hne hjoins
  · cases hnext.symm.trans hb
    cases hholder

/-- **Whoever waits waits for another call that has the seat, or that call has ended since it last looked.** -/
theorem stands_trace (h : ∀ n, moves n ≠ .call .shutDown) (hm : moves c = .call (.watch p x)) (hcn : c < n)
    (hi : ((World.start policy).trace moves c).tasks.next = i)
    (hph : ((World.start policy).trace moves n).tasks.phase? i = some ⟨ρ, .joining p x joined (some y)⟩) :
    Stands (World.start policy) moves n i p.key x y := by
  subst hi
  induction n, Nat.succ_le_of_lt hcn using Nat.le_induction generalizing ρ joined y with
  | base => cases (phase?_called (w := World.start policy) hm rfl).symm.trans hph
  | succ n hn ih =>
    have hw := (reachable_trace policy moves n).wf
    have hcn := Nat.lt_of_succ_le hn
    rcases watching_trace hm hcn with ⟨ph, hbefore, -, hwatch⟩ | hgone
    · by_cases hcarry : ∃ a, ((World.start policy).trace moves n).carried? (moves n) =
          some (((World.start policy).trace moves c).tasks.next, a)
      · obtain ⟨a, hcarry⟩ := hcarry
        obtain ⟨ρ', hρ⟩ := phase?_carried hcarry
        cases hbefore.symm.trans hρ
        have hb := (phase?_of_carried hw hcarry).symm.trans (congrArg (Option.map Phase.activity) hph)
        exact stands_carried h hcarry hwatch hb fun joined' ha => ih hcn (ha ▸ hρ)
      · have hno : ∀ a, ((World.start policy).trace moves n).carried? (moves n) ≠ some (_, a) := fun a ha => hcarry ⟨a, ha⟩
        cases fate_move hw hbefore (moves n) with
        | stays hsame =>
          cases hsame.symm.trans hph
          exact (ih hcn hbefore).next hw hbefore (goesRound_of_not_carried hno)
        | goesOn b hb hnext hafter => exact absurd hb (hno _)
        | ends o hend ho hnone => exact absurd hend (hno _)
        | dropped t hm' hs hc hnone => cases hnone.symm.trans hph
    · cases (gone_trace (Nat.le_succ n) hgone.1 hgone.2).2.symm.trans hph

/-- a call to watch that has a phase is in one of those of such a call -/
theorem watching_of_phase? (hm : moves c = .call (.watch p x)) (hi : ((World.start policy).trace moves c).tasks.next = i)
    {ph : Phase} (hph : ((World.start policy).trace moves n).tasks.phase? i = some ph) : Watching p x ph.activity := by
  subst hi
  rcases watching_trace hm (later_of_phase? hph) with ⟨ph', hph', -, hwatch⟩ | ⟨-, hnone⟩
  · cases hph.symm.trans hph'
    exact hwatch
  · cases hph.symm.trans hnone

/-- whoever waits does not wait for its own signal -/
theorem ne_of_phase? (hk : Kept w.core w.stakes) (hph : w.tasks.phase? i = some ⟨ρ, .joining p x joined (some y)⟩)
    (h : w.signals.isGiven y = true ∨ ∃ j, j ≠ i ∧ w.Joins j k x y) : y ≠ joined := by
  rintro rfl
  have hown : keeps w.core w.stakes (.call i) = some y := by
    rw [Engine.keeps, stakes_of_phase hph]
    rfl
  rcases h with hy | ⟨j, hne, hjoins⟩
  · cases (hk.secret _ _ hown).symm.trans hy
  · exact hne (Keeper.call.inj (hk.unique _ _ _ hjoins.keeps hown))

/-- whoever waits waits for another call that has the seat, or is in line to look again -/
theorem waits_trace (h : ∀ n, moves n ≠ .call .shutDown) (hm : moves c = .call (.watch p x))
    (hi : ((World.start policy).trace moves c).tasks.next = i) {q : Path} {z : SubscriberId}
    (hph : ((World.start policy).trace moves n).tasks.phase? i = some ⟨ρ, .joining q z joined (some y)⟩) : y ≠ joined ∧
    (((World.start policy).trace moves n).signals.isGiven y = false ∧
        (∃ j, j ≠ i ∧ ((World.start policy).trace moves n).Joins j p.key x y) ∨
      ((World.start policy).trace moves n).signals.isGiven y = true ∧ (i ∈ ((World.start policy).trace moves n).tasks.ready ∨
        ((World.start policy).trace moves n).tasks.floor = some i)) := by
  have hR := running_of_trace policy h n
  have hkept := hR.proper.kept
  cases watching_of_phase? hm hi hph
  cases stands_trace h hm (later_of_phase? (hi ▸ hph)) hi hph with
  | waits j hne hjoins =>
    exact ⟨ne_of_phase? hkept hph (.inr ⟨j, hne, hjoins⟩), .inl ⟨hjoins.not_given hkept, j, hne, hjoins⟩⟩
  | freed j hrouses hy =>
    refine ⟨ne_of_phase? (k := p.key) hkept hph (.inl hy), .inr ⟨hy, ?_⟩⟩
    rcases hR.wf.woken i _ hph with hready | hfloor | hwaits
    · exact .inl hready
    · exact .inr hfloor
    · cases (hwaits.signal y rfl).symm.trans hy

/-- after a round a call has looked for a seat -/
theorem tried_trace (hm : moves c = .call (.watch p x)) (hi : ((World.start policy).trace moves c).tasks.next = i) {r₀ r : Nat}
    (hlt : r₀ < r) (hr₀ : ((World.start policy).trace moves r₀).goesRound (moves r₀) i = true) {ph : Phase}
    (hph : ((World.start policy).trace moves r).tasks.phase? i = some ph) : ph.activity.Tried := by
  have hw := (reachable_trace policy moves r₀).wf
  obtain ⟨q, z, joined, other, hcarry, -⟩ := goesRound_iff.1 hr₀
  obtain ⟨ρ, hρ⟩ := phase?_carried hcarry
  cases hb : ((floorTo ((World.start policy).trace moves r₀) i).step (.joining q z joined other)).2.next with
  | none =>
    have hnone := Option.map_eq_none_iff.1 ((phase?_of_carried hw hcarry).trans hb)
    cases (gone_since hρ hnone hlt).symm.trans hph
  | some b =>
    obtain ⟨ρ', hafter⟩ := phase?_of_next hw hcarry hb
    have hwatch := watching_of_phase? (n := r₀ + 1) hm hi hafter
    have hlater := stays_trace (P := fun ph => Watching p x ph.activity ∧ ph.activity.Tried) (n := r₀ + 1) hlt hafter
      ⟨hwatch, tried_of_joining hb⟩ fun _ _ _ _ _ _ _ hP hb' => ⟨hP.1.next hb', hP.2.next hP.1 hb'⟩
    rcases hlater with ⟨ph', hph', -, htried⟩ | ⟨-, hnone⟩
    · cases hph.symm.trans hph'
      exact htried
    · cases hph.symm.trans hnone

/-- **Each round but the first follows the end of another call.** -/
theorem rouses_of_rounds (h : ∀ n, moves n ≠ .call .shutDown) (hm : moves c = .call (.watch p x))
    (hi : ((World.start policy).trace moves c).tasks.next = i) {r₀ r : Nat} (hlt : r₀ < r)
    (hr₀ : ((World.start policy).trace moves r₀).goesRound (moves r₀) i = true)
    (hr : ((World.start policy).trace moves r).goesRound (moves r) i = true) :
    ∃ j, Rouses (World.start policy) moves r i j p.key x := by
  obtain ⟨q, z, joined, other, hcarry, hall⟩ := goesRound_iff.1 hr
  obtain ⟨ρ, hρ⟩ := phase?_carried hcarry
  rcases tried_trace hm hi hlt hr₀ hρ with ⟨q', z', joined', y, ha⟩ | ⟨seat, hseat⟩
  · cases ha
    cases watching_of_phase? hm hi hρ
    have hcr : c < r := later_of_phase? (hi ▸ hρ)
    cases stands_trace h hm hcr hi hρ with
    | waits j hne hjoins => cases (hjoins.not_given (running_of_trace policy h r).proper.kept).symm.trans hall
    | freed j hrouses hy => exact ⟨j, hrouses⟩
  · cases hseat

/-- a call ends once -/
theorem Frees.once {i' : TaskId} {k' : Path.Key} {x' : SubscriberId} {l l' : Nat}
    (h : Frees ((World.start policy).trace moves l) (moves l) i j k x)
    (h' : Frees ((World.start policy).trace moves l') (moves l') i' j k' x') : l ≤ l' := by
  by_contra hlt
  obtain ⟨ρ, q, joined', y', -, -, ⟨ph', -, hph', -⟩, -⟩ := h'.awaited
  obtain ⟨ρ, q, joined', y', -, -, ⟨ph, -, hph, -⟩, -⟩ := h.awaited
  cases (gone_since hph' h'.ended (Nat.lt_of_not_le hlt)).symm.trans hph

/-- **Different rounds follow the ends of different calls.** -/
theorem Rouses.unique {r r' : Nat} (h : Rouses (World.start policy) moves r i j k x)
    (h' : Rouses (World.start policy) moves r' i j k x)
    (hr : ((World.start policy).trace moves r).goesRound (moves r) i = true)
    (hr' : ((World.start policy).trace moves r').goesRound (moves r') i = true) : r = r' := by
  obtain ⟨l, hl, hfrees, hquiet⟩ := h
  obtain ⟨l', hl', hfrees', hquiet'⟩ := h'
  have hsame : l = l' := Nat.le_antisymm (hfrees.once hfrees') (hfrees'.once hfrees)
  subst hsame
  rcases Nat.lt_trichotomy r r' with hlt | heq | hlt
  · cases hr.symm.trans (hquiet' r hl.le hlt)
  · exact heq
  · cases hr'.symm.trans (hquiet r' hl'.le hlt)

/-- **A call goes at most as many rounds as there are calls at the same time.** -/
theorem card_rounds_le (h : ∀ n, moves n ≠ .call .shutDown) (hm : moves c = .call (.watch p x))
    (hi : ((World.start policy).trace moves c).tasks.next = i) (C : Finset TaskId)
    (hC : ∀ l ≤ n, ((World.start policy).trace moves l).tasks.phase? i ≠ none →
      ∀ j, ((World.start policy).trace moves l).Watches j p.key x → j ∈ C) :
    ((Finset.range n).filter fun l => ((World.start policy).trace moves l).goesRound (moves l) i = true).card ≤ C.card := by
  set R := (Finset.range n).filter fun l => ((World.start policy).trace moves l).goesRound (moves l) i = true with hR
  have hmem : ∀ {r}, r ∈ R → r < n ∧ ((World.start policy).trace moves r).goesRound (moves r) i = true := fun hr => by
    simpa [hR] using hr
  -- the first round goes to the call itself, each other one to the call that it follows the end of
  have hcause : ∀ r ∈ R, ∃ j ∈ C, (j = i ∧ ∀ r' ∈ R, r ≤ r') ∨ j ≠ i ∧ Rouses (World.start policy) moves r i j p.key x := by
    intro r hr
    obtain ⟨hrn, hround⟩ := hmem hr
    by_cases hfirst : ∀ r' ∈ R, r ≤ r'
    · obtain ⟨q, z, joined, other, hcarry, -⟩ := goesRound_iff.1 hround
      obtain ⟨ρ, hρ⟩ := phase?_carried hcarry
      refine ⟨i, hC r hrn.le ?_ i ⟨_, p, hρ, rfl, watching_of_phase? hm hi hρ⟩, .inl ⟨rfl, hfirst⟩⟩
      rw [hρ]
      exact Option.some_ne_none _
    · push Not at hfirst
      obtain ⟨r', hr', hlt⟩ := hfirst
      obtain ⟨j, hrouses⟩ := rouses_of_rounds h hm hi hlt (hmem hr').2 hround
      obtain ⟨l, hlr, hfrees, -⟩ := id hrouses
      obtain ⟨ρ, q, joined, y, hph, -, hjoins, -⟩ := hfrees.awaited
      refine ⟨j, hC l (hlr.trans hrn).le ?_ j hjoins.watches, .inr ⟨hfrees.other, hrouses⟩⟩
      rw [hph]
      exact Option.some_ne_none _
  choose! f hfC hf using hcause
  refine Finset.card_le_card_of_injOn f hfC fun r hr r' hr' hsame => ?_
  rcases hf r hr with ⟨hself, hfirst⟩ | ⟨hne, hrouses⟩ <;> rcases hf r' hr' with ⟨hself', hfirst'⟩ | ⟨hne', hrouses'⟩
  · exact Nat.le_antisymm (hfirst r' hr') (hfirst' r hr)
  · exact absurd (hsame.symm.trans hself) hne'
  · exact absurd (hsame.trans hself') hne
  · exact hrouses.unique (hsame ▸ hrouses') (hmem hr).2 (hmem hr').2

/-- how the call `i` to watch a path for a subscriber goes round -/
structure Circles (w : World) (moves : Nat → Move) (i : TaskId) (p : Path) (x : SubscriberId) : Prop where
  /-- it never waits for its own signal, but for that of another call that has the seat; when that has ended it is in line -/
  waits : ∀ n ρ q z joined y, (w.trace moves n).tasks.phase? i = some ⟨ρ, .joining q z joined (some y)⟩ → y ≠ joined ∧
    ((w.trace moves n).signals.isGiven y = false ∧ (∃ j, j ≠ i ∧ (w.trace moves n).Joins j p.key x y) ∨
      (w.trace moves n).signals.isGiven y = true ∧
        (i ∈ (w.trace moves n).tasks.ready ∨ (w.trace moves n).tasks.floor = some i))
  round : ∀ n, (w.trace moves n).goesRound (moves n) i = true → Round (w.trace moves n) (moves n) i p x
  /-- each round but the first follows the end of another call -/
  roused : ∀ r₀ r, r₀ < r → (w.trace moves r₀).goesRound (moves r₀) i = true →
    (w.trace moves r).goesRound (moves r) i = true → ∃ j, Rouses w moves r i j p.key x
  /-- and different rounds follow the ends of different calls -/
  once : ∀ r r' j, (w.trace moves r).goesRound (moves r) i = true → (w.trace moves r').goesRound (moves r') i = true →
    Rouses w moves r i j p.key x → Rouses w moves r' i j p.key x → r = r'
  /-- so there are at most as many rounds as there are calls at the same time, itself included -/
  bound : ∀ n (C : Finset TaskId),
    (∀ l ≤ n, (w.trace moves l).tasks.phase? i ≠ none → ∀ j, (w.trace moves l).Watches j p.key x → j ∈ C) →
    ((Finset.range n).filter fun l => (w.trace moves l).goesRound (moves l) i = true).card ≤ C.card

/-- **Calls to watch of one subscriber at one path make progress.** In a run without shutting down each row of a table of joining
subscribers bears a signal that has not been given and belongs to one call that has not ended; and every call goes round at most
as often as there are calls at the same time, each time but the first because another of them has ended, in whatever way. -/
theorem circles_trace (policy : WritePolicy) (h : ∀ n, moves n ≠ .call .shutDown) :
    (∀ n k e x s, ((World.start policy).trace moves n).entries.get? k = some e → e.joining.get? x = some s →
      ((World.start policy).trace moves n).signals.isGiven s = false ∧ ∃! j, ((World.start policy).trace moves n).Joins j k x s) ∧
    ∀ c p x, moves c = .call (.watch p x) →
      Circles (World.start policy) moves ((World.start policy).trace moves c).tasks.next p x := by
  refine ⟨fun n k e x s he hrow => ?_, fun c p x hm => ?_⟩
  · have hR := running_of_trace policy h n
    obtain ⟨j, hjoins⟩ := joins_of_joining (orderly_trace policy h n) hR.coherent he hrow
    exact ⟨hjoins.not_given hR.proper.kept, j, hjoins, fun j' hjoins' => hjoins'.unique hR.proper.kept hjoins⟩
  · refine ⟨fun n ρ q z joined y hph => waits_trace h hm rfl hph, fun n hr => ?_,
      fun r₀ r hlt hr₀ hr => rouses_of_rounds h hm rfl hlt hr₀ hr,
      fun r r' j hr hr' hrouses hrouses' => hrouses.unique hrouses' hr hr', fun n C hC => card_rounds_le h hm rfl C hC⟩
    obtain ⟨q, z, joined, other, hcarry, -⟩ := goesRound_iff.1 hr
    obtain ⟨ρ, hρ⟩ := phase?_carried hcarry
    exact round_of_goesRound (running_of_trace policy h n) (running_of_trace policy h (n + 1)) (orderly_trace policy h n)
      (orderly_trace policy h (n + 1)) hρ (watching_of_phase? hm rfl hρ) hr

end Trace

/-- A subscriber watches a path three times at once. The first call to get the seat is cancelled while it looks at the file, and
the second one takes the seat; the third one waits for either. -/
def queueing : List Move :=
  let p : Path := ⟨"/a"⟩
  [Move.newSubscriber, .hold .stat p, .call (.watch p ⟨1⟩), .call (.watch p ⟨1⟩), .call (.watch p ⟨1⟩)] ++
    List.replicate 3 (Move.turn 1) ++ List.replicate 3 (Move.turn 2) ++ List.replicate 3 (Move.turn 3) ++
    [Move.cancel 1, .turn 1] ++ List.replicate 2 (Move.turn 4) ++ List.replicate 2 (Move.turn 2) ++ List.replicate 2 (Move.turn 3) ++
    [Move.openGate 1] ++ List.replicate 3 (Move.turn 2) ++ [Move.turn 3]

theorem watches_queueing {l : Nat} (hl : l ≤ 27) (hj : ((World.start .allow).trace (along queueing) l).Watches j k x) :
    j ∈ ({1, 2, 3} : Finset TaskId) := by
  have hrows : ∀ l, l ≤ 27 → ∀ r ∈ ((World.start .allow).trace (along queueing) l).tasks.live.rows,
      r.2.phase.activity.watches?.isSome = true → r.1 ∈ ({1, 2, 3} : Finset TaskId) := by decide +kernel
  obtain ⟨ph, p, hph, -, hwatch⟩ := hj
  have hsome : ph.activity.watches?.isSome = true := by
    generalize ph.activity = a at hwatch
    cases hwatch <;> rfl
  exact forall_phase_of_rows (P := fun j a => a.watches?.isSome = true → j ∈ ({1, 2, 3} : Finset TaskId)) (hrows l hl) hph hsome

/-- the third call goes three rounds, as many as there are calls -/
theorem circles_trace_queueing :
    (∀ n, along queueing n ≠ .call .shutDown) ∧
    (∃ e, ((World.start .allow).trace (along queueing) 14).entries.get? (Path.key ⟨"/a"⟩) = some e ∧ e.joining.get? ⟨1⟩ = some 1 ∧
      ∃! j, ((World.start .allow).trace (along queueing) 14).Joins j (Path.key ⟨"/a"⟩) ⟨1⟩ 1) ∧
    along queueing 4 = .call (.watch ⟨"/a"⟩ ⟨1⟩) ∧ ((World.start .allow).trace (along queueing) 4).tasks.next = 3 ∧
    ((Finset.range 27).filter fun l =>
      ((World.start .allow).trace (along queueing) l).goesRound (along queueing l) 3 = true) = {12, 20, 26} ∧
    ({12, 20, 26} : Finset Nat).card ≤ ({1, 2, 3} : Finset TaskId).card ∧
    (∃ j, Rouses (World.start .allow) (along queueing) 20 3 j (Path.key ⟨"/a"⟩) ⟨1⟩) ∧
    ∃ j, Rouses (World.start .allow) (along queueing) 26 3 j (Path.key ⟨"/a"⟩) ⟨1⟩ := by
  have h : ∀ n, along queueing n ≠ .call .shutDown := along_ne queueing (by simp [queueing]) (by simp)
  have hjoining : (((World.start .allow).trace (along queueing) 14).entries.get? (Path.key ⟨"/a"⟩)).bind
      (fun e => e.joining.get? ⟨1⟩) = some 1 := by decide +kernel
  obtain ⟨e, he, hrow⟩ := Option.bind_eq_some_iff.1 hjoining
  have hnext : ((World.start .allow).trace (along queueing) 4).tasks.next = 3 := by decide +kernel
  have hrounds : ((Finset.range 27).filter fun l =>
      ((World.start .allow).trace (along queueing) l).goesRound (along queueing l) 3 = true) = {12, 20, 26} := by decide +kernel
  have hround : ∀ l ∈ ({12, 20, 26} : Finset Nat),
      ((World.start .allow).trace (along queueing) l).goesRound (along queueing l) 3 = true := by
    intro l hl
    rw [← hrounds] at hl
    exact (Finset.mem_filter.1 hl).2
  obtain ⟨hrows, hcircles⟩ := circles_trace .allow h
  have hthird := hcircles 4 ⟨"/a"⟩ ⟨1⟩ rfl
  rw [hnext] at hthird
  have hbound := hthird.bound 27 {1, 2, 3} fun l hl _ j hj => watches_queueing hl hj
  rw [hrounds] at hbound
  exact ⟨h, ⟨e, he, hrow, (hrows 14 _ e ⟨1⟩ 1 he hrow).2⟩, rfl, hnext, hrounds, hbound,
    hthird.roused 12 20 (by decide) (hround 12 (by decide)) (hround 20 (by decide)),
    hthird.roused 20 26 (by decide) (hround 20 (by decide)) (hround 26 (by decide))⟩

end LiveFiles.Engine
