/-
What a pool of background work counts, in a session in which everything goes on in any order. `World.working` lists the
numbers of the pieces of work that have been accepted and have not ended. Every move does one thing to them at most
(`Change`): a piece of work is accepted or ends, or the pool is closed.
- every command and every section of every task does so (`change_command`, `change_served`, `change_move`);
- so the count is exact after any moves (`counted_trace`);
- an open pool takes what it is offered under the next number (`takes_add`, `takes_served`);
- work is numbered from one, in the order in which it is accepted (`accepted_eq`);
- work that has ended does not come back (`ended_trace`).
-/
import LiveFiles.Proofs.Holdings
import LiveFiles.Proofs.Serving
import LiveFiles.Session.Pool

namespace LiveFiles.Session.Pool

/-- the number of the piece of work that a task carries out -/
def Phase.number? : Phase → Option Nat
  | .working n _ => some n
  | .waiting _ => none

/-- the pieces of work that have been accepted and have not ended -/
def World.working (w : World) : List Nat := Tasks.gather Phase.number? w.tasks.live

/-- What a move does to the count: nothing, or a piece of work is accepted or ends, or the pool is closed. -/
inductive Change (w w' : World) : Prop
  | still : w'.pool = w.pool → w'.working.Perm w.working → Change w w'
  | accepted : w.pool.closed = false → w'.pool = { w.pool with next := w.pool.next + 1, active := w.pool.active + 1 } →
    w'.working.Perm (w.pool.next :: w.working) → Change w w'
  /-- the count goes down by one, so it has not been zero -/
  | ended (n : Nat) : n ∈ w.working → w.pool = { w'.pool with active := w'.pool.active + 1 } →
    w'.working.Perm (w.working.erase n) → Change w w'
  | closed : w'.pool = { w.pool with closed := true } → w'.working.Perm w.working → Change w w'

/-- the count is exact -/
structure Counted (w : World) : Prop where
  active : w.pool.active = w.working.length
  nodup : w.working.Nodup
  lt : ∀ n ∈ w.working, n < w.pool.next
  numbered : w.tasks.Numbered

variable {w w' w₁ w₂ : World} {id : TaskId} {ts : Tasks Phase} {x : Task Phase} {p : Phase} {n k : Nat} {work : Work}

theorem Change.congr (h : Change w₁ w₂) (hp : w₁.pool = w.pool) (hw : w₁.working.Perm w.working)
    (hp' : w'.pool = w₂.pool) (hw' : w'.working.Perm w₂.working) : Change w w' := by
  cases h with
  | still hpool hworking => exact .still (by rw [hp', hpool, hp]) ((hw'.trans hworking).trans hw)
  | accepted hopen hpool hworking =>
    rw [hp] at hopen hpool hworking
    exact .accepted hopen (hp'.trans hpool) ((hw'.trans hworking).trans (hw.cons _))
  | ended n hn hpool hworking =>
    exact .ended n (hw.mem_iff.1 hn) (by rw [← hp, hp', hpool]) ((hw'.trans hworking).trans (hw.erase n))
  | closed hpool hworking => exact .closed (by rw [hp', hpool, hp]) ((hw'.trans hworking).trans hw)

theorem Counted.change (h : Counted w) (hc : Change w w') (hn : w'.tasks.Numbered) : Counted w' := by
  cases hc with
  | still hpool hworking =>
    refine ⟨?_, hworking.nodup_iff.2 h.nodup, fun n hn => ?_, hn⟩
    · rw [hpool, h.active, hworking.length_eq]
    · rw [hpool]
      exact h.lt n (hworking.mem_iff.1 hn)
  | accepted _ hpool hworking =>
    have hnew : w.pool.next ∉ w.working := fun hin => lt_irrefl _ (h.lt _ hin)
    refine ⟨?_, hworking.nodup_iff.2 (List.nodup_cons.2 ⟨hnew, h.nodup⟩), fun n hn => ?_, hn⟩
    · rw [hpool, hworking.length_eq, List.length_cons, h.active]
    · rw [hpool]
      rcases List.mem_cons.1 (hworking.mem_iff.1 hn) with rfl | hn
      · exact Nat.lt_succ_self _
      · exact Nat.lt_succ_of_lt (h.lt n hn)
  | ended n hin hpool hworking =>
    refine ⟨?_, hworking.nodup_iff.2 (h.nodup.erase n), fun k hk => ?_, hn⟩
    · have hactive : w'.pool.active + 1 = w.working.length := by rw [← h.active, hpool]
      rw [hworking.length_eq, List.length_erase_of_mem hin]
      exact Nat.eq_sub_of_add_eq hactive
    · have hlt := h.lt k (List.mem_of_mem_erase (hworking.mem_iff.1 hk))
      rwa [hpool] at hlt
  | closed hpool hworking =>
    refine ⟨?_, hworking.nodup_iff.2 h.nodup, fun n hn => ?_, hn⟩
    · rw [hpool, hworking.length_eq]
      exact h.active
    · rw [hpool]
      exact h.lt n (hworking.mem_iff.1 hn)

/-! ## The pool -/

@[simp] theorem live_setPool (w : World) (pool : LiveFiles.Pool) : (w.setPool pool).tasks.live = w.tasks.live :=
  Tasks.live_wake _ _

@[simp] theorem live_unregister (w : World) : w.unregister.tasks.live = w.tasks.live := live_setPool w _

@[simp] theorem tasks_report (w : World) (n : Nat) (e : Ending) : (w.report n e).tasks = w.tasks := by cases e <;> rfl

@[simp] theorem pool_report (w : World) (n : Nat) (e : Ending) : (w.report n e).pool = w.pool := by cases e <;> rfl

@[simp] theorem told_report (w : World) (n : Nat) (e : Ending) : (w.report n e).told = w.told := by cases e <;> rfl

/-- the pool with one more piece of work -/
def accepting (pool : LiveFiles.Pool) : LiveFiles.Pool := { pool with next := pool.next + 1, active := pool.active + 1 }

theorem add_of_closed (h : w.pool.closed = true) (work : Work) : w.add work = (none, w) := by
  simp [World.add, LiveFiles.Pool.accept, h]

theorem add_of_open (h : w.pool.closed = false) (work : Work) :
    w.add work = (some (w.pool.next, (w.tasks.wake Phase.awaitsIdle).next),
      { w with pool := accepting w.pool,
               tasks := ((w.tasks.wake Phase.awaitsIdle).spawn (.working w.pool.next work)).2 }) := by
  simp [World.add, LiveFiles.Pool.accept, h, World.setPool, accepting, Tasks.spawn]

theorem grows_add (w : World) (work : Work) : Tasks.Grows (fun _ => True) w.tasks (w.add work).2.tasks := by
  cases h : w.pool.closed with
  | true =>
    rw [add_of_closed h]
    exact .refl _
  | false =>
    rw [add_of_open h]
    exact (Tasks.grows_wake _ _).trans (Tasks.grows_spawn _ trivial)

theorem grows_unregister (w : World) : Tasks.Grows (fun _ => True) w.tasks w.unregister.tasks := Tasks.grows_wake _ _

/-- work that an open pool is offered is among what goes on -/
theorem working_add (h : Counted w) (hopen : w.pool.closed = false) (work : Work) :
    (w.add work).2.working.Perm (w.pool.next :: w.working) := by
  rw [add_of_open hopen]
  have hn : (w.tasks.wake Phase.awaitsIdle).Numbered := (Tasks.grows_wake (P := fun _ => True) _ _).numbered h.numbered
  have hspawn := Tasks.gather_spawn (f := Phase.number?) hn (.working w.pool.next work)
  rw [Tasks.live_wake] at hspawn
  exact hspawn

theorem change_add (h : Counted w) (work : Work) : Change w (w.add work).2 := by
  cases hc : w.pool.closed with
  | true =>
    rw [add_of_closed hc]
    exact .still rfl (.refl _)
  | false => exact .accepted hc (by rw [add_of_open hc]; rfl) (working_add h hc work)

/-- a piece of work leaves the pool together with its task -/
theorem change_unregister (h : Counted w) (hx : w.tasks.live.get? id = some x) (hnumber : x.phase.number? = some n)
    (hpool : w'.pool = w.pool.finish) (hlive : w'.tasks.live = w.tasks.live.erase id) : Change w w' := by
  have hperm := Tasks.gather_of_get? (f := Phase.number?) hx
  rw [hnumber, Option.toList_some, List.singleton_append, ← hlive] at hperm
  have hin : n ∈ w.working := hperm.mem_iff.2 List.mem_cons_self
  refine .ended n hin ?_ ?_
  · have hpos : 0 < w.pool.active := h.active ▸ List.length_pos_of_mem hin
    have hback : w.pool.active - 1 + 1 = w.pool.active := Nat.sub_add_cancel hpos
    rw [hpool, LiveFiles.Pool.finish, hback]
  · have herase := hperm.erase n
    rw [List.erase_cons_head] at herase
    exact herase.symm

/-- a wait ends -/
theorem change_leave (hx : w.tasks.live.get? id = some x) (hnumber : x.phase.number? = none) (hpool : w'.pool = w.pool)
    (hlive : w'.tasks.live = w.tasks.live.erase id) : Change w w' := by
  have hperm := Tasks.gather_of_get? (f := Phase.number?) hx
  rw [hnumber, Option.toList_none, List.nil_append, ← hlive] at hperm
  exact .still hpool hperm.symm

/-! ## Sections -/

theorem grows_advance (w : World) (p : Phase) : Tasks.Grows (fun _ => True) w.tasks (w.advance p).1.tasks := by
  cases p with
  | working n work =>
    cases work with
    | ends e =>
      have hg := grows_unregister (w.report n e)
      rwa [tasks_report] at hg
    | pauses rest => exact .refl _
    | awaits word rest =>
      simp only [World.advance]
      split <;> exact .refl _
    | adds work taken refused =>
      have hg := grows_add w work
      simp only [World.advance]
      split <;> (rename_i hadd; rwa [hadd] at hg)
    | closes rest => exact .refl _
    | drains rest =>
      simp only [World.advance]
      split <;> exact .refl _
  | waiting name =>
    simp only [World.advance]
    split <;> exact .refl _

theorem grows_drop (w : World) (p : Phase) : Tasks.Grows (fun _ => True) w.tasks (w.drop p).tasks := by
  cases p with
  | working n work => exact grows_unregister w
  | waiting name => exact .refl _

/-- the task that carries out a section is still the same piece of work -/
theorem Change.record (h : Change w w₁) (hx : w₁.tasks.live.get? id = some x) {s : Section Phase Unit}
    (hs : s.next.bind Phase.number? = x.phase.number?) :
    Change w { w₁ with tasks := w₁.tasks.record id s } := by
  have hrecord := Tasks.gather_record (f := Phase.number?) hx s
  rw [hs] at hrecord
  exact h.congr rfl (.refl _) rfl (hrecord.trans (Tasks.gather_of_get? hx).symm)

theorem change_advance (h : Counted w) (hx : w.tasks.live.get? id = some x) :
    Change w { (w.advance x.phase).1 with
      tasks := (w.advance x.phase).1.tasks.record id (w.advance x.phase).2 } := by
  have hstill : Change w w := .still rfl (.refl _)
  obtain ⟨p, c⟩ := x
  cases p with
  | working n work =>
    cases work with
    | ends e =>
      refine change_unregister h hx rfl ?_ ?_
      · exact congrArg LiveFiles.Pool.finish (pool_report w n e)
      · change (World.unregister (w.report n e)).tasks.live.erase id = _
        rw [live_unregister, tasks_report]
    | pauses rest => exact hstill.record hx rfl
    | awaits word rest =>
      simp only [World.advance]
      split
      · exact hstill.record hx rfl
      · exact hstill.record hx rfl
    | adds work taken refused =>
      have hlive : (w.add work).2.tasks.phase? id = some (.working n (.adds work taken refused)) := by
        have hphase : w.tasks.phase? id = some (.working n (.adds work taken refused)) := by rw [Tasks.phase?, hx]; rfl
        rw [(grows_add w work).phase id (h.numbered.lt hphase), hphase]
      obtain ⟨y, hy, hyphase⟩ := Option.map_eq_some_iff.1 hlive
      have hadd := change_add h work
      simp only [World.advance]
      split
      · rename_i w₁ he
        rw [he] at hy hadd
        exact hadd.record hy (by rw [hyphase]; rfl)
      · rename_i a w₁ he
        rw [he] at hy hadd
        exact hadd.record hy (by rw [hyphase]; rfl)
    | closes rest =>
      have hclosed : Change w w.close := .closed rfl (.refl _)
      exact hclosed.record hx rfl
    | drains rest =>
      simp only [World.advance]
      split
      · exact hstill.record hx rfl
      · exact hstill.record hx rfl
  | waiting name =>
    simp only [World.advance]
    split
    · exact change_leave hx rfl rfl rfl
    · exact hstill.record hx rfl

instance : LawfulMachine World := ⟨fun _ _ => rfl, fun _ _ _ => rfl, fun _ => rfl⟩

theorem Counted.floored (h : Counted w) (hts : Tasks.Floored w.tasks id ts) : Counted { w with tasks := ts } where
  active := h.active.trans (congrArg (fun live => (Tasks.gather Phase.number? live).length) hts.live.symm)
  nodup := by
    change (Tasks.gather _ ts.live).Nodup
    rw [hts.live]
    exact h.nodup
  lt n hn := by
    refine h.lt n ?_
    rw [World.working, ← hts.live]
    exact hn
  numbered j hj := by
    rw [hts.live]
    exact h.numbered j (hts.next ▸ hj)

theorem working_floored (hts : Tasks.Floored w.tasks id ts) : World.working { w with tasks := ts } = w.working :=
  congrArg (Tasks.gather Phase.number?) hts.live

theorem change_served (h : Counted w) (hs : Machine.Served w id w') : Change w w' := by
  cases hs with
  | unserved => exact .still rfl (.refl _)
  | @vacant ts hts =>
    have hworking : World.working { w with tasks := ts } = w.working := working_floored hts
    exact .still rfl (.of_eq hworking)
  | @dropped ts x hts hx =>
    have hlive : ts.live.erase id = w.tasks.live.erase id := congrArg (Table.erase · id) hts.live
    cases hp : x.phase with
    | working n work => exact change_unregister h hx (by rw [hp]; rfl) rfl ((live_unregister _).trans hlive)
    | waiting name => exact change_leave hx (by rw [hp]; rfl) rfl hlive
  | @advanced ts x hts hx =>
    have hadvance := change_advance (h.floored hts) (hts.live ▸ hx : ts.live.get? id = some x)
    exact hadvance.congr rfl (.of_eq (working_floored hts)) rfl (.refl _)

/-! ## Moves -/

/-- work that is asked for is offered to the pool -/
theorem command_spawn (w : World) (name : String) (held : Bool) (spawns : Nat) :
    ∃ untold, (command w (.spawn name held spawns)).1 =
      { (World.add { w with nextWord := w.nextWord + 1 } (.asked w.nextWord held spawns)).2 with untold := untold } := by
  simp only [command]
  split
  · rename_i he
    rw [he]
    exact ⟨_, rfl⟩
  · rename_i he
    rw [he]
    exact ⟨_, rfl⟩

theorem grows_command (w : World) (c : Command) : Tasks.Grows (fun _ => True) w.tasks (command w c).1.tasks := by
  cases c with
  | spawn name held spawns =>
    obtain ⟨untold, hcommand⟩ := command_spawn w name held spawns
    rw [hcommand]
    exact grows_add { w with nextWord := w.nextWord + 1 } _
  | finish name =>
    simp only [command]
    split
    · exact .refl _
    · exact Tasks.grows_wake _ _
  | length => exact .refl _
  | waitIdle name => exact Tasks.grows_spawn _ trivial
  | close => exact .refl _

/-- what comes from outside leaves the tasks in their phases -/
theorem grows_outside (w : World) {m : Move} (hm : ∀ id, m ≠ .turn id) :
    Tasks.Grows (fun _ => True) w.tasks (w.move m).tasks := by
  cases m with
  | turn id => exact absurd rfl (hm id)
  | command c => exact grows_command w c
  | start work => exact grows_add w work
  | tell word => exact Tasks.grows_wake _ _
  | cancel id => exact Tasks.grows_cancel _ _

theorem Counted.nextWord (h : Counted w) (n : Nat) : Counted { w with nextWord := n } :=
  ⟨h.active, h.nodup, h.lt, h.numbered⟩

theorem change_command (h : Counted w) (c : Command) : Change w (command w c).1 := by
  have hstill : Change w w := .still rfl (.refl _)
  cases c with
  | spawn name held spawns =>
    obtain ⟨untold, hcommand⟩ := command_spawn w name held spawns
    rw [hcommand]
    exact (change_add (h.nextWord (w.nextWord + 1)) _).congr rfl (.refl _) rfl (.refl _)
  | finish name =>
    simp only [command]
    split
    · exact hstill
    · exact .still rfl (.of_eq (congrArg (Tasks.gather Phase.number?) (Tasks.live_wake _ _)))
  | length => exact hstill
  | waitIdle name => exact .still rfl (Tasks.gather_spawn h.numbered _)
  | close => exact .closed rfl (.refl _)

theorem change_move (h : Counted w) (m : Move) : Change w (w.move m) := by
  cases m with
  | turn id => exact change_served h (Machine.served_serve w id)
  | command c => exact change_command h c
  | start work => exact change_add h work
  | tell word => exact .still rfl (.of_eq (congrArg (Tasks.gather Phase.number?) (Tasks.live_wake _ _)))
  | cancel id => exact .still rfl (Tasks.gather_cancel _ _)

theorem numbered_move (h : w.tasks.Numbered) (m : Move) : (w.move m).tasks.Numbered := by
  cases m with
  | turn id => exact Machine.numbered_served h (Machine.served_serve w id) grows_drop grows_advance
  | command c => exact (grows_command w c).numbered h
  | start work => exact (grows_add w work).numbered h
  | tell word => exact (Tasks.grows_wake (P := fun _ => True) _ _).numbered h
  | cancel id => exact (Tasks.grows_cancel (P := fun _ => True) _ _).numbered h

theorem counted_trace (moves : Nat → Move) (n : Nat) : Counted (World.trace {} moves n) := by
  induction n with
  | zero => exact ⟨rfl, List.nodup_nil, fun _ hn => absurd hn List.not_mem_nil, fun _ _ => rfl⟩
  | succ n ih => exact ih.change (change_move ih (moves n)) (numbered_move ih.numbered (moves n))

theorem change_trace (moves : Nat → Move) (n : Nat) : Change (World.trace {} moves n) (World.trace {} moves (n + 1)) :=
  change_move (counted_trace moves n) (moves n)

/-! ## An open pool -/

/-- A piece of work is taken under the next number: it is counted, and its task stands in the queue. -/
structure Takes (w w' : World) (work : Work) : Prop where
  pool : w'.pool = accepting w.pool
  working : w'.working.Perm (w.pool.next :: w.working)
  task : ∃ id, w'.tasks.live.get? id = some ⟨.working w.pool.next work, false⟩ ∧ id ∈ w'.tasks.ready

theorem Takes.congr {w₁ w₂ : World} (h : Takes w₁ w₂ work) (hp : w₁.pool = w.pool) (hw : w₁.working = w.working)
    (hp' : w'.pool = w₂.pool) (ht' : w'.tasks = w₂.tasks) : Takes w w' work := by
  have hw' : w'.working = w₂.working := congrArg (fun ts : Tasks Phase => Tasks.gather Phase.number? ts.live) ht'
  refine ⟨by rw [hp', h.pool, hp], by rw [hw', ← hp, ← hw]; exact h.working, ?_⟩
  rw [ht', ← hp]
  exact h.task

/-- the piece of work that offers another goes on as what it is -/
theorem Takes.record {w₁ : World} (h : Takes w w₁ work) (hx : w₁.tasks.live.get? id = some x)
    (hnumber : x.phase.number? = some k) (hk : k ≠ w.pool.next) (hp : p.number? = some k) :
    Takes w { w₁ with tasks := w₁.tasks.record id (.go p) } work := by
  have hrecord := Tasks.gather_record (f := Phase.number?) hx (.go p)
  rw [show (Section.go p : Section Phase Unit).next.bind Phase.number? = x.phase.number? from hp.trans hnumber.symm]
    at hrecord
  refine ⟨h.pool, (hrecord.trans (Tasks.gather_of_get? hx).symm).trans h.working, ?_⟩
  obtain ⟨j, hj, hready⟩ := h.task
  have hne : j ≠ id := by
    rintro rfl
    rw [hj] at hx
    cases hx
    exact hk (Option.some.inj hnumber).symm
  exact ⟨j, by simp [Tasks.record, Table.get?_modify, hne.symm, hj], hready⟩

theorem takes_add (h : Counted w) (hopen : w.pool.closed = false) (work : Work) : Takes w (w.add work).2 work := by
  refine ⟨by rw [add_of_open hopen], working_add h hopen work, (w.tasks.wake Phase.awaitsIdle).next, ?_, ?_⟩
  · rw [add_of_open hopen]
    simp [Tasks.spawn, Table.get?_insert]
  · rw [add_of_open hopen]
    simp [Tasks.spawn]

theorem takes_command (h : Counted w) (hopen : w.pool.closed = false) (name : String) (held : Bool) (spawns : Nat) :
    Takes w (command w (.spawn name held spawns)).1 (.asked w.nextWord held spawns) := by
  obtain ⟨untold, hcommand⟩ := command_spawn w name held spawns
  rw [hcommand]
  exact (takes_add (h.nextWord (w.nextWord + 1)) hopen _).congr rfl rfl rfl rfl

/-- a piece of work that offers another to an open pool goes on as one of which that has been taken -/
theorem takes_advance {taken refused : Work} (h : Counted w) (hopen : w.pool.closed = false)
    (hx : w.tasks.live.get? id = some ⟨.working k (.adds work taken refused), false⟩) :
    let q := w.advance (.working k (.adds work taken refused))
    Takes w { q.1 with tasks := q.1.tasks.record id q.2 } work ∧
      (q.1.tasks.record id q.2).phase? id = some (.working k taken) := by
  have hadvance : w.advance (.working k (.adds work taken refused)) = ((w.add work).2, .go (.working k taken)) := by
    rw [World.advance, add_of_open hopen]
  have hk : k ≠ w.pool.next := (h.lt k (Tasks.mem_gather.2 ⟨id, _, hx, rfl⟩)).ne
  have hphase : w.tasks.phase? id = some (.working k (.adds work taken refused)) := by rw [Tasks.phase?, hx]; rfl
  have hsame : (w.add work).2.tasks.phase? id = some (.working k (.adds work taken refused)) := by
    rw [(grows_add w work).phase id (h.numbered.lt hphase), hphase]
  obtain ⟨y, hy, hyphase⟩ := Option.map_eq_some_iff.1 hsame
  rw [hadvance]
  refine ⟨(takes_add h hopen work).record hy (by rw [hyphase]; rfl) hk rfl, ?_⟩
  rw [Tasks.phase?_record, if_pos rfl, hsame]
  rfl

/-- it does so in a move of its own, if it can go on -/
theorem takes_served {taken refused : Work} (h : Counted w) (hopen : w.pool.closed = false)
    (hx : w.tasks.live.get? id = some ⟨.working k (.adds work taken refused), false⟩)
    (hgo : Machine.canGo w id = true) :
    Takes w (Machine.serve w id) work ∧ (Machine.serve w id).tasks.phase? id = some (.working k taken) := by
  have hs := Machine.served_serve w id
  have hthere : (Machine.tasks w).live.get? id = some ⟨.working k (.adds work taken refused), false⟩ := hx
  generalize Machine.serve w id = w' at hs
  cases hs with
  | unserved hno => cases hno.symm.trans hgo
  | vacant _ hnone => cases hthere.symm.trans hnone
  | dropped _ hy hc =>
    cases hthere.symm.trans hy
    cases hc
  | @advanced ts y hts hy hc =>
    cases hthere.symm.trans hy
    have hlive : ts.live.get? id = some ⟨.working k (.adds work taken refused), false⟩ := hts.live ▸ hx
    obtain ⟨htakes, hphase⟩ := takes_advance (h.floored hts) hopen hlive
    exact ⟨htakes.congr rfl (working_floored hts) rfl rfl, hphase⟩

/-! ## Numbers -/

/-- the pieces of work accepted in the first `n` moves of a run, in order -/
def accepted (moves : Nat → Move) : Nat → List Nat
  | 0 => []
  | n + 1 => accepted moves n ++
      (World.trace {} moves (n + 1)).working.filter fun k => !decide (k ∈ (World.trace {} moves n).working)

theorem filter_new {l l' : List Nat} (h : l' ⊆ l) : (l'.filter fun k => !decide (k ∈ l)) = [] := by
  refine List.filter_eq_nil_iff.2 fun k hk => ?_
  simpa using h hk

/-- **Work is numbered from one, in the order in which it is accepted.** -/
theorem accepted_eq (moves : Nat → Move) (n : Nat) : ∃ m, (World.trace {} moves n).pool.next = m + 1 ∧
    accepted moves n = List.range' 1 m := by
  induction n with
  | zero => exact ⟨0, rfl, rfl⟩
  | succ n ih =>
    obtain ⟨m, hnext, haccepted⟩ := ih
    have h := counted_trace moves n
    simp only [accepted]
    cases change_trace moves n with
    | still hpool hworking =>
      rw [filter_new hworking.subset, List.append_nil, hpool]
      exact ⟨m, hnext, haccepted⟩
    | accepted _ hpool hworking =>
      refine ⟨m + 1, by rw [hpool, hnext], ?_⟩
      have hnew : (World.trace {} moves n).pool.next ∉ (World.trace {} moves n).working := fun hin => lt_irrefl _ (h.lt _ hin)
      have hfilter := hworking.filter fun k => !decide (k ∈ (World.trace {} moves n).working)
      rw [List.filter_cons_of_pos (by simpa using hnew), filter_new (List.Subset.refl _)] at hfilter
      rw [List.perm_singleton.1 hfilter, haccepted, hnext, List.range'_1_concat, Nat.add_comm 1 m]
    | ended k _ hpool hworking =>
      rw [filter_new (List.Subset.trans hworking.subset List.erase_subset), List.append_nil]
      rw [hpool] at hnext
      exact ⟨m, hnext, haccepted⟩
    | closed hpool hworking =>
      rw [filter_new hworking.subset, List.append_nil, hpool]
      exact ⟨m, hnext, haccepted⟩

theorem mem_accepted {moves : Nat → Move} (h : k ∈ accepted moves n) : k < (World.trace {} moves n).pool.next := by
  obtain ⟨m, hnext, haccepted⟩ := accepted_eq moves n
  rw [haccepted, List.mem_range'_1] at h
  rw [hnext]
  exact h.2.trans_le (Nat.add_comm 1 m).le

theorem working_subset_accepted (moves : Nat → Move) (n : Nat) : (World.trace {} moves n).working ⊆ accepted moves n := by
  induction n with
  | zero => exact List.nil_subset _
  | succ n ih =>
    intro k hk
    by_cases hold : k ∈ (World.trace {} moves n).working
    · exact List.mem_append_left _ (ih hold)
    · exact List.mem_append_right _ (List.mem_filter.2 ⟨hk, by simpa using hold⟩)

/-- work that has ended does not come back -/
theorem ended_trace {moves : Nat → Move} {m : Nat} (hnm : n ≤ m) (hk : k < (World.trace {} moves n).pool.next)
    (hno : k ∉ (World.trace {} moves n).working) :
    k < (World.trace {} moves m).pool.next ∧ k ∉ (World.trace {} moves m).working := by
  induction m, hnm using Nat.le_induction with
  | base => exact ⟨hk, hno⟩
  | succ m _ ih =>
    obtain ⟨hlt, hout⟩ := ih
    cases change_trace moves m with
    | still hpool hworking => exact ⟨by rwa [hpool], fun hin => hout (hworking.subset hin)⟩
    | accepted _ hpool hworking =>
      refine ⟨by rw [hpool]; exact Nat.lt_succ_of_lt hlt, fun hin => ?_⟩
      rcases List.mem_cons.1 (hworking.subset hin) with rfl | hin
      · exact lt_irrefl _ hlt
      · exact hout hin
    | ended j _ hpool hworking =>
      refine ⟨by rwa [hpool] at hlt, fun hin => hout (List.mem_of_mem_erase (hworking.subset hin))⟩
    | closed hpool hworking => exact ⟨by rwa [hpool], fun hin => hout (hworking.subset hin)⟩

end LiveFiles.Session.Pool
