/-
Waiting for a pool of background work to be idle, and closing it, in a session in which everything goes on in any order.
- Whoever cannot go on waits for what has not come (`waiting_trace`): all who wait for the pool to be idle are woken when
  the count changes, so none misses that it is zero.
- A wait returns only where nothing is counted (`idle_of_returned`).
- Closing a pool changes nothing for what goes on without adding work (`closing_trace`).
- **`pool_accounts`** puts this together with what the pool counts.
-/
import LiveFiles.Proofs.PoolCounts

namespace LiveFiles.Session.Pool

/-- The task waits for what has not come: for the pool to be idle, or for a word. -/
def Phase.Waits (active : Nat) (told : List Nat) : Phase → Prop
  | .waiting _ | .working _ (.drains _) => 0 < active
  | .working _ (.awaits word _) => told.contains word = false
  | .working .. => False

/-- what a task of the session waits for has not come -/
abbrev Phase.WaitsIn (w : World) (p : Phase) : Prop := p.Waits w.pool.active w.told

/-- everybody who cannot go on waits for what has not come -/
def World.Waiting (w : World) : Prop := w.tasks.Waiting (Phase.WaitsIn w)

variable {w w' : World} {id : TaskId} {ts : Tasks Phase} {x : Task Phase} {p : Phase} {n : Nat}

/-! ## Waiting -/

/-- the count matters only to those who wait for the pool to be idle -/
theorem Phase.Waits.recount {active active' : Nat} {told : List Nat} (h : p.Waits active told)
    (hp : p.awaitsIdle = false) : p.Waits active' told := by
  cases p with
  | waiting name => cases hp
  | working k work =>
    cases work with
    | drains rest => cases hp
    | ends | pauses | awaits | adds | closes => exact h

/-- all who wait for the pool to be idle are woken -/
theorem World.Waiting.setPool (h : w.Waiting) (pool : LiveFiles.Pool) : (w.setPool pool).Waiting := by
  refine Tasks.Waiting.wake h _ fun j y _ _ hwait => ?_
  cases hp : y.phase.awaitsIdle with
  | true => exact Or.inl rfl
  | false => exact Or.inr (hwait.recount hp)

theorem World.Waiting.unregister (h : w.Waiting) : w.unregister.Waiting := h.setPool _

theorem World.Waiting.add (h : w.Waiting) (work : Work) : (w.add work).2.Waiting := by
  cases hc : w.pool.closed with
  | true =>
    rw [add_of_closed hc]
    exact h
  | false =>
    rw [add_of_open hc]
    exact Tasks.Waiting.spawn (h.setPool (accepting w.pool)) _

theorem World.Waiting.tell (h : w.Waiting) (word : Nat) : (w.tell word).Waiting := by
  refine Tasks.Waiting.wake h _ fun j y _ _ hwait => ?_
  obtain ⟨p, c⟩ := y
  cases p with
  | waiting name => exact Or.inr hwait
  | working k work =>
    cases work with
    | awaits other rest =>
      by_cases e : other = word
      · exact Or.inl (decide_eq_true e)
      · refine Or.inr ?_
        have hno : w.told.contains other = false := hwait
        change (word :: w.told).contains other = false
        rw [List.contains_cons, hno, Bool.or_false]
        simpa using e
    | ends | pauses | adds | closes | drains => exact Or.inr hwait

theorem ends_advance (hw : w.Waiting) (hf : w.tasks.floor = some id) (p : Phase) :
    Machine.Ends Phase.WaitsIn (w.advance p).1 id (w.advance p).2 := by
  have hfloor : (w.advance p).1.tasks.floor = some id := (grows_advance w p).floor.trans hf
  cases p with
  | working k work =>
    cases work with
    | ends e =>
      have hreport : (w.report k e).Waiting := by
        unfold World.Waiting Phase.WaitsIn
        rw [tasks_report, pool_report, told_report]
        exact hw
      exact ⟨hreport.unregister, hfloor, fun _ he => by cases he⟩
    | pauses rest => exact ⟨hw, hfloor, fun _ he => by cases he⟩
    | awaits word rest =>
      simp only [World.advance] at hfloor ⊢
      split
      · exact ⟨hw, hf, fun _ he => by cases he⟩
      · rename_i hno
        refine ⟨hw, hf, fun _ he => ?_⟩
        cases he
        exact Bool.eq_false_iff.2 hno
    | adds work taken refused =>
      have hadd := hw.add work
      have hfloor := (grows_add w work).floor.trans hf
      simp only [World.advance]
      split <;> (rename_i he; rw [he] at hadd hfloor; exact ⟨hadd, hfloor, fun _ he => by cases he⟩)
    | closes rest => exact ⟨hw, hfloor, fun _ he => by cases he⟩
    | drains rest =>
      simp only [World.advance]
      split
      · exact ⟨hw, hf, fun _ he => by cases he⟩
      · rename_i hno
        refine ⟨hw, hf, fun _ he => ?_⟩
        cases he
        exact Nat.pos_of_ne_zero hno
  | waiting name =>
    simp only [World.advance]
    split
    · exact ⟨hw, hf, fun _ he => by cases he⟩
    · rename_i hno
      refine ⟨hw, hf, fun _ he => ?_⟩
      cases he
      exact Nat.pos_of_ne_zero hno

theorem waiting_served (hw : w.Waiting) (hs : Machine.Served w id w') : w'.Waiting := by
  refine Machine.waiting_served (Q := Phase.WaitsIn) (fun _ _ _ hwait => hwait) hw hs (fun w p hw => ?_)
    fun ts x hts hx hfloored => ends_advance hfloored hts.floor x.phase
  cases p with
  | working k work => exact World.Waiting.unregister hw
  | waiting name => exact hw

theorem waiting_command (hw : w.Waiting) (c : Command) : (command w c).1.Waiting := by
  cases c with
  | spawn name held spawns =>
    have hadd := World.Waiting.add (w := { w with nextWord := w.nextWord + 1 }) hw (.asked w.nextWord held spawns)
    obtain ⟨untold, hcommand⟩ := command_spawn w name held spawns
    rw [hcommand]
    exact hadd
  | finish name =>
    simp only [command]
    split
    · exact hw
    · exact World.Waiting.tell (w := { w with untold := w.untold.erase name }) hw _
  | length => exact hw
  | waitIdle name => exact Tasks.Waiting.spawn hw _
  | close => exact hw

theorem waiting_trace (moves : Nat → Move) (n : Nat) : (World.trace {} moves n).Waiting := by
  induction n with
  | zero => exact fun id t ht => by cases ht
  | succ n ih =>
    change ((World.trace {} moves n).move (moves n)).Waiting
    cases moves n with
    | turn id => exact waiting_served ih (Machine.served_serve _ id)
    | command c => exact waiting_command ih c
    | start work => exact ih.add work
    | tell word => exact ih.tell word
    | cancel id => exact Tasks.Waiting.cancel ih id

/-! ## Returning -/

/-- **A wait that is not cancelled returns only where nothing is counted.** -/
theorem idle_of_returned {name : String} (hn : w.tasks.Numbered) {m : Move}
    (hx : w.tasks.live.get? id = some ⟨.waiting name, false⟩) (hgone : (w.move m).tasks.live.get? id = none) :
    w.pool.active = 0 := by
  have hphase : w.tasks.phase? id = some (.waiting name) := by rw [Tasks.phase?, hx]; rfl
  have hlt := hn.lt hphase
  rw [← Tasks.phase?_eq_none_iff] at hgone
  by_cases hm : m = .turn id
  · subst hm
    have hserved : Machine.Served w id (w.move (.turn id)) := Machine.served_serve w id
    generalize w.move (.turn id) = w' at hserved hgone
    cases hserved with
    | unserved =>
      rw [hphase] at hgone
      cases hgone
    | vacant _ hno =>
      have hnone : w.tasks.live.get? id = none := hno
      rw [hx] at hnone
      cases hnone
    | @dropped ts y _ hy hc =>
      obtain rfl : ⟨.waiting name, false⟩ = y := Option.some.inj (hx.symm.trans hy)
      cases hc
    | @advanced ts y hts hy =>
      obtain rfl : ⟨.waiting name, false⟩ = y := Option.some.inj (hx.symm.trans hy)
      by_contra hactive
      have hfloored : ts.phase? id = some (.waiting name) := by
        rw [Tasks.phase?, hts.live]
        exact hphase
      have hadvance : World.advance { w with tasks := ts } (.waiting name) =
          ({ w with tasks := ts }, .wait (.waiting name)) := if_neg hactive
      have hwaits : (Tasks.record (World.advance { w with tasks := ts } (.waiting name)).1.tasks id
          (World.advance { w with tasks := ts } (.waiting name)).2).phase? id = some (.waiting name) := by
        rw [hadvance, Tasks.phase?_record, if_pos rfl, hfloored]
        rfl
      cases hwaits.symm.trans hgone
  · have hkept : (w.move m).tasks.phase? id = w.tasks.phase? id := by
      cases m with
      | turn j =>
        have hj : id ≠ j := fun e => hm (e ▸ rfl)
        exact Machine.phase?_served (Machine.served_serve w j) hj hlt grows_drop grows_advance
      | command | start | tell | cancel => exact (grows_outside w (by simp)).phase id hlt
    rw [hkept, hphase] at hgone
    cases hgone

/-! ## Closing -/

/-- work is offered to the pool in this move -/
def World.offers (w : World) : Move → Bool
  | .turn id =>
    match w.tasks.phase? id with
    | some (.working _ (.adds ..)) => true
    | _ => false
  | .command (.spawn ..) => true
  | .start _ => true
  | .command _ | .tell _ | .cancel _ => false

theorem report_close (w : World) (k : Nat) (e : Ending) : w.close.report k e = (w.report k e).close := by cases e <;> rfl

theorem drop_close (w : World) (p : Phase) : w.close.drop p = (w.drop p).close := by cases p <;> rfl

/-- a section that adds no work goes on in a closed pool as in an open one -/
theorem advance_close (w : World) (hp : ∀ k work taken refused, p ≠ .working k (.adds work taken refused)) :
    w.close.advance p = ((w.advance p).1.close, (w.advance p).2) := by
  cases p with
  | working k work =>
    cases work with
    | ends e =>
      simp only [World.advance, report_close]
      rfl
    | pauses rest => rfl
    | awaits word rest =>
      simp only [World.advance]
      change (if w.told.contains word = true then _ else _) = _
      split <;> rfl
    | adds work taken refused => exact absurd rfl (hp k work taken refused)
    | closes rest => rfl
    | drains rest =>
      simp only [World.advance]
      change (if w.pool.active = 0 then _ else _) = _
      split <;> rfl
  | waiting name =>
    simp only [World.advance]
    change (if w.pool.active = 0 then _ else _) = _
    split <;> rfl

theorem runSection_close (w : World) (id : TaskId)
    (hp : ∀ k work taken refused, w.tasks.phase? id ≠ some (.working k (.adds work taken refused))) :
    Machine.runSection w.close id = (Machine.runSection w id).close := by
  have htasks : Machine.tasks w.close = w.tasks := rfl
  have htasks' : Machine.tasks w = w.tasks := rfl
  unfold Machine.runSection
  simp only [htasks, htasks']
  cases hx : w.tasks.live.get? id with
  | none => rfl
  | some t =>
    have hadds : ∀ k work taken refused, t.phase ≠ .working k (.adds work taken refused) := fun k work taken refused e =>
      hp k work taken refused (by rw [Tasks.phase?, hx, Option.map_some, e])
    dsimp only
    split
    · exact drop_close { w with tasks := { w.tasks with live := w.tasks.live.erase id, floor := none } } t.phase
    · simp only [Machine.advance, advance_close w hadds]
      rfl

/-- a move in which no work is offered goes on in a closed pool as in an open one -/
theorem move_close (w : World) {m : Move} (hm : w.offers m = false) : w.close.move m = (w.move m).close := by
  cases m with
  | turn id =>
    have hadds : ∀ k work taken refused, w.tasks.phase? id ≠ some (.working k (.adds work taken refused)) := by
      intro k work taken refused e
      simp [World.offers, e] at hm
    change Machine.serve w.close id = (Machine.serve w id).close
    unfold Machine.serve
    change (if Machine.canGo w id = true then _ else _) = _
    split
    · have hfloor : Machine.floorTo w.close id = (Machine.floorTo w id).close := by
        have htasks : Machine.tasks w.close = Machine.tasks w := rfl
        unfold Machine.floorTo
        rw [htasks]
        cases (Machine.tasks w).floor <;> rfl
      rw [hfloor]
      refine runSection_close _ id fun k work taken refused e => hadds k work taken refused ?_
      unfold Machine.floorTo at e
      split at e <;> exact e
    · rfl
  | command c =>
    cases c with
    | spawn => cases hm
    | finish name =>
      have huntold : w.close.untold = w.untold := rfl
      simp only [World.move, command, huntold]
      cases w.untold.get? name <;> rfl
    | length | waitIdle | close => rfl
  | start work => cases hm
  | tell word => rfl
  | cancel id => rfl

/-- **Closing a pool changes nothing for what is under way**: as long as no work is offered, everything goes on as if the
pool were open. -/
theorem closing_trace (w : World) (moves : Nat → Move) (n : Nat)
    (h : ∀ i < n, (w.trace moves i).offers (moves i) = false) : w.close.trace moves n = (w.trace moves n).close := by
  induction n with
  | zero => rfl
  | succ n ih =>
    have hbefore := ih fun i hi => h i (Nat.lt_succ_of_lt hi)
    change (w.close.trace moves n).move (moves n) = ((w.trace moves n).move (moves n)).close
    rw [hbefore]
    exact move_close _ (h n (Nat.lt_succ_self n))

/-- **The pool accounts for its work.** Work is offered from outside and by other work, whether it ends well, fails, breaks
off, is cancelled, waits for words, lets others go first, closes the pool or waits for it; waits for the pool to be idle
come and are cancelled, the pool is closed, and the tasks carry out their sections in any order. After any moves:
- the count is the number of pieces of work that have been accepted and have not ended, and a move adds one to it, or takes
  one from it when it is not zero, or leaves it;
- work is numbered from one in the order in which it is accepted;
- an open pool takes whatever work it is offered, from outside or by a piece of work that can go on: it gets the next
  number, is counted and stands in the queue;
- a closed pool stays closed and accepts nothing, and work that is refused changes nothing;
- closing changes nothing but the flag for what goes on without adding work;
- a wait that is not cancelled returns only when the count is zero, and all work accepted by then has ended for good;
- where nobody can go on, whoever still waits for the pool finds it counting something. -/
theorem pool_accounts (moves : Nat → Move) (n : Nat) :
    let w := World.trace {} moves n
    let w' := World.trace {} moves (n + 1)
    (w.pool.active = w.working.length ∧ w.working.Nodup ∧ w.working ⊆ accepted moves n) ∧
    Change w w' ∧
    (∃ m, w.pool.next = m + 1 ∧ accepted moves n = List.range' 1 m) ∧
    (w.pool.closed = false →
      (∀ work, Takes w (w.move (.start work)) work) ∧
      (∀ name held spawns, Takes w (w.move (.command (.spawn name held spawns))) (.asked w.nextWord held spawns)) ∧
      ∀ id k work taken refused,
        w.tasks.live.get? id = some ⟨.working k (.adds work taken refused), false⟩ → Machine.canGo w id = true →
        Takes w (w.move (.turn id)) work ∧ (w.move (.turn id)).tasks.phase? id = some (.working k taken)) ∧
    (w.pool.closed = true → w'.pool.closed = true ∧ accepted moves (n + 1) = accepted moves n ∧
      ∀ work, w.move (.start work) = w) ∧
    (∀ later k, (∀ i < k, (w.trace later i).offers (later i) = false) →
      w.close.trace later k = (w.trace later k).close) ∧
    (∀ id name, w.tasks.live.get? id = some ⟨.waiting name, false⟩ → w'.tasks.live.get? id = none →
      w.pool.active = 0 ∧ ∀ k ∈ accepted moves n, ∀ m, n ≤ m → k ∉ (World.trace {} moves m).working) ∧
    (w.tasks.quiet = true → ∀ id t, w.tasks.live.get? id = some t → t.phase.awaitsIdle = true → 0 < w.pool.active) := by
  intro w w'
  have h : Counted w := counted_trace moves n
  have hchange : Change w w' := change_trace moves n
  refine ⟨⟨h.active, h.nodup, working_subset_accepted moves n⟩, hchange, accepted_eq moves n, ?_, ?_, ?_, ?_, ?_⟩
  · intro hopen
    exact ⟨takes_add h hopen, takes_command h hopen, fun id k work taken refused hx hgo => takes_served h hopen hx hgo⟩
  · intro hclosed
    refine ⟨?_, ?_, fun work => congrArg Prod.snd (add_of_closed hclosed work)⟩
    · cases hchange with
      | still hpool => rw [hpool, hclosed]
      | accepted hopen =>
        rw [hclosed] at hopen
        cases hopen
      | ended k _ hpool => rwa [hpool] at hclosed
      | closed hpool => rw [hpool]
    · have hsubset : w'.working ⊆ w.working := by
        cases hchange with
        | still _ hworking => exact hworking.subset
        | accepted hopen =>
          rw [hclosed] at hopen
          cases hopen
        | ended k _ _ hworking => exact List.Subset.trans hworking.subset List.erase_subset
        | closed _ hworking => exact hworking.subset
      rw [accepted, filter_new hsubset, List.append_nil]
  · exact fun later k => closing_trace w later k
  · intro id name hx hgone
    have hidle : w.pool.active = 0 := idle_of_returned h.numbered hx hgone
    have hempty : w.working = [] := List.length_eq_zero_iff.1 (h.active.symm.trans hidle)
    refine ⟨hidle, fun k hk m hm => (ended_trace hm (mem_accepted hk) ?_).2⟩
    change k ∉ w.working
    rw [hempty]
    exact List.not_mem_nil
  · intro hq id t ht hp
    have hwaits := (waiting_trace moves n).of_quiet hq ht
    obtain ⟨p, c⟩ := t
    cases p with
    | waiting name => exact hwaits
    | working k work =>
      cases work with
      | drains rest => exact hwaits
      | ends | pauses | awaits | adds | closes => cases hp

instance : Inhabited Move := ⟨.turn 0⟩

/-- a piece of work that adds another and waits for the pool to be idle, and the other, which ends -/
def addingMoves : Nat → Move := along [.start (.adds (.ends .well) (.drains (.ends .well)) (.ends .failed)), .turn 1]

/-- the work from outside is taken as number 1, and the work that it adds, in its first section, as number 2 -/
theorem work_taken_by_open_pool :
    Takes {} (World.trace {} addingMoves 1) (.adds (.ends .well) (.drains (.ends .well)) (.ends .failed)) ∧
    Takes (World.trace {} addingMoves 1) (World.trace {} addingMoves 2) (.ends .well) ∧
    (World.trace {} addingMoves 2).tasks.phase? 1 = some (.working 1 (.drains (.ends .well))) ∧
    (World.trace {} addingMoves 2).pool = ⟨3, 2, false⟩ := by
  obtain ⟨-, -, -, hfirst, -⟩ := pool_accounts addingMoves 0
  obtain ⟨-, -, -, hsecond, -⟩ := pool_accounts addingMoves 1
  have hadded := (hsecond rfl).2.2 1 1 (.ends .well) (.drains (.ends .well)) (.ends .failed) rfl rfl
  exact ⟨(hfirst rfl).1 _, hadded.1, hadded.2, rfl⟩

end LiveFiles.Session.Pool
