/-
The books of the disk. They are kept by the disk itself, in counters that each call raises and lowers, and they are exact
whatever happens: calls are held and released, gates replaced, failures ordered, tasks cancelled, files changed by others.
- `works_move`: what a move makes of the disk and of the calls under way; `Handles.underWayAt` and its neighbours: what that
  means for the counters.
- `opened_iff`, `gateFor_iff`: a gate is open if somebody has opened it, and new calls are held at the last one.
- `files_move`: only a write that succeeds changes the files, apart from what others do to them.
- **`books_exact`**: the number of calls of a kind is the number of calls begun; the number under way is that of the tasks with a
  call, and of those begun and not over; the highest is the greatest there has been; a call held at a gate stays there until the
  gate is opened; a call that fails or is dropped changes nothing; and each date is later than all before it.
-/
import LiveFiles.Proofs.Chronology
import LiveFiles.Proofs.Counting
import LiveFiles.Proofs.DiskCalls

namespace LiveFiles

/-- a call that is carried out on the disk as it is fails -/
def Disk.Fails (d : Disk) (p : Path) : DiskOp → Prop
  | .stat => ∃ f, d.stat p = .error f
  | .read => ∃ f, d.read p = .error f
  | .write => ∃ bytes f, (d.write p bytes).2 = .error f

/-- the kind and the path of a call -/
def DiskCall.kind (c : DiskCall) : DiskOp × Path := (c.op, c.path)

@[simp] theorem DiskCall.kind_mk (op : DiskOp) (p : Path) (stage : Call) : DiskCall.kind ⟨op, p, stage⟩ = (op, p) := rfl

/-- calls of one kind at a path -/
def isKind (op : DiskOp) (p : Path) (c : DiskOp × Path) : Bool := c.1 = op && c.2.key = p.key

/-- calls of any kind at a path -/
def isAt (p : Path) (c : DiskOp × Path) : Bool := c.2.key = p.key

/-- what is there now and was not before -/
def gained {α : Type} [DecidableEq α] (before now : Option α) : Option α := if now = before then none else now

/-- one, if there is a call that fits -/
def tally (fits : DiskOp × Path → Bool) (c : Option (DiskOp × Path)) : Nat := if c.any fits then 1 else 0

namespace Engine

namespace World

/-- the call that a task has under way -/
def diskCall? (w : World) (id : TaskId) : Option DiskCall := (w.tasks.phase? id).bind fun ph => ph.activity.diskCall?

/-- its kind and its path -/
def kind? (w : World) (id : TaskId) : Option (DiskOp × Path) := (w.diskCall? id).map DiskCall.kind

/-- the call that begins in a move: the task has it under way then, and did not before -/
def begun? (w : World) : Move → Option (DiskOp × Path)
  | .turn id => gained (w.kind? id) ((serve w id).kind? id)
  | _ => none

/-- the call that is over in a move, because it ends or is dropped: the task has had it under way, and has it no more -/
def over? (w : World) : Move → Option (DiskOp × Path)
  | .turn id => gained ((serve w id).kind? id) (w.kind? id)
  | _ => none

/-- how many calls have begun in the first `n` moves -/
def begunIn (w : World) (moves : Nat → Move) (n : Nat) (fits : DiskOp × Path → Bool) : Nat :=
  (List.range n).countP fun i => ((w.trace moves i).begun? (moves i)).any fits

/-- how many calls have ended or been dropped in the first `n` moves -/
def overIn (w : World) (moves : Nat → Move) (n : Nat) (fits : DiskOp × Path → Bool) : Nat :=
  (List.range n).countP fun i => ((w.trace moves i).over? (moves i)).any fits

/-- in this move a task that has been cancelled lets go of what it holds -/
def Drops (w : World) (m : Move) (id : TaskId) : Prop := m = .turn id ∧ ∃ t, w.served? id = some t ∧ t.cancelled = true

/-- the date of a file -/
def dateAt (w : World) (p : Path) : Option Instant := (w.disk.file? p).map (·.modified)

/-- in this move a file is given a date -/
def Dates (w : World) (m : Move) (p : Path) (date : Instant) : Prop :=
  (w.move m).dateAt p = some date ∧ w.dateAt p ≠ some date

/-- the write that is carried out in this move, with success -/
def Writes (w : World) (m : Move) (p : Path) : Prop :=
  ∃ id t, m = .turn id ∧ w.served? id = some t ∧ t.cancelled = false ∧ w.diskCall? id = some ⟨.write, p, .due⟩ ∧
    ¬ w.disk.Fails p .write

end World

end Engine

/-! ## Counters -/

variable {d d' : Disk} {c c' : Option DiskCall} {op op' : DiskOp} {p q : Path} {g : GateId} {k : Path.Key}

theorem callCount_enter_eq (d : Disk) (op op' : DiskOp) (p q : Path) :
    (d.enter op p).1.callCount op' q = d.callCount op' q + if op = op' ∧ p.key = q.key then 1 else 0 := by
  simp only [Disk.callCount, Disk.enter, Table.getD, Table.get?_insert, Prod.mk.injEq]
  split
  · rename_i h
    obtain ⟨rfl, hk⟩ := h
    rw [hk]
    rfl
  · rfl

theorem underWayAt_enter (d : Disk) (op : DiskOp) (p q : Path) :
    (d.enter op p).1.underWayAt q = d.underWayAt q + if p.key = q.key then 1 else 0 := by
  change (d.enter op p).1.traffic.now q.key = d.traffic.now q.key + _
  rw [Disk.traffic_enter]
  simp only [Traffic.enter, Function.update_apply]
  by_cases h : p.key = q.key
  · rw [if_pos h.symm, if_pos h, h]
  · rw [if_neg (Ne.symm h), if_neg h, Nat.add_zero]

theorem mostUnderWayAt_enter (d : Disk) (op : DiskOp) (p q : Path) :
    (d.enter op p).1.mostUnderWayAt q =
      if p.key = q.key then max (d.mostUnderWayAt q) (d.underWayAt q + 1) else d.mostUnderWayAt q := by
  change (d.enter op p).1.traffic.most q.key = if _ then max (d.traffic.most q.key) (d.traffic.now q.key + 1) else d.traffic.most q.key
  rw [Disk.traffic_enter]
  simp only [Traffic.enter, Function.update_apply]
  by_cases h : p.key = q.key
  · rw [if_pos h.symm, if_pos h, h]
  · rw [if_neg (Ne.symm h), if_neg h]

theorem underWayAt_leave (d : Disk) (p q : Path) :
    (d.leave p).underWayAt q = d.underWayAt q - if p.key = q.key then 1 else 0 := by
  change (d.leave p).traffic.now q.key = d.traffic.now q.key - _
  rw [Disk.traffic_leave]
  simp only [Traffic.leave, Function.update_apply]
  by_cases h : p.key = q.key
  · rw [if_pos h.symm, if_pos h, h]
  · rw [if_neg (Ne.symm h), if_neg h, Nat.sub_zero]

/-- whatever is carried out, only files and clock may change -/
theorem CarriesOut.eq (h : CarriesOut d op p d') : ∃ clock files, d' = { d with clock, files } := by
  cases h with
  | stat => exact ⟨_, _, rfl⟩
  | read => exact ⟨_, _, rfl⟩
  | write bytes =>
    unfold Disk.write
    split
    · exact ⟨_, _, rfl⟩
    · exact ⟨_, _, rfl⟩

@[simp] theorem gained_self {α : Type} [DecidableEq α] (x : Option α) : gained x x = none := if_pos rfl

theorem gained_of_ne {α : Type} [DecidableEq α] {x y : Option α} (h : y ≠ x) : gained x y = y := if_neg h

@[simp] theorem gained_none {α : Type} [DecidableEq α] (x : Option α) : gained none x = x := by
  cases x <;> rfl

@[simp] theorem gained_nothing {α : Type} [DecidableEq α] (x : Option α) : gained x none = none := by
  cases x <;> rfl

@[simp] theorem tally_none (fits : DiskOp × Path → Bool) : tally fits none = 0 := rfl

theorem tally_isKind (op op' : DiskOp) (p q : Path) :
    tally (isKind op' q) (some (op, p)) = if op = op' ∧ p.key = q.key then 1 else 0 := by
  simp [tally, isKind]

theorem tally_isAt (op : DiskOp) (p q : Path) : tally (isAt q) (some (op, p)) = if p.key = q.key then 1 else 0 := by
  simp [tally, isAt]

theorem kind_ne (h : op ≠ op') : some (op, p) ≠ some (op', q) := fun he => h (congrArg Prod.fst (Option.some.inj he))

/-- **A section counts the call that it begins.** -/
theorem Handles.callCount (h : Handles d c d' c') (op : DiskOp) (p : Path) :
    d'.callCount op p = d.callCount op p + tally (isKind op p) (gained (c.map DiskCall.kind) (c'.map DiskCall.kind)) := by
  cases h with
  | idle => simp
  | waits => simp
  | passes => simp [DiskCall.kind]
  | begins op' q => rw [callCount_enter_eq, Option.map_none, gained_none, Option.map_some, DiskCall.kind_mk, tally_isKind]
  | ends op' q h =>
    obtain ⟨clock, files, rfl⟩ := h.eq
    rw [Option.map_none, gained_nothing]
    rfl
  | next op₁ op₂ q hne h =>
    obtain ⟨clock, files, rfl⟩ := h.eq
    rw [callCount_enter_eq, Option.map_some, Option.map_some, DiskCall.kind_mk, DiskCall.kind_mk,
      gained_of_ne (kind_ne (Ne.symm hne)), tally_isKind]
    rfl

/-- **A section counts as under way what it begins, and no more what it ends**, if a call that it ends has been counted. -/
theorem Handles.underWayAt (h : Handles d c d' c') (p : Path) (hcounted : ∀ x, c = some x → x.path.key = p.key → 0 < d.underWayAt p) :
    d'.underWayAt p + tally (isAt p) (gained (c'.map DiskCall.kind) (c.map DiskCall.kind)) =
      d.underWayAt p + tally (isAt p) (gained (c.map DiskCall.kind) (c'.map DiskCall.kind)) := by
  cases h with
  | idle => simp
  | waits => simp
  | passes => simp [DiskCall.kind]
  | begins op' q =>
    rw [underWayAt_enter, Option.map_none, gained_none, gained_nothing, Option.map_some, DiskCall.kind_mk, tally_isAt, tally_none,
      Nat.add_zero]
  | ends op' q h =>
    obtain ⟨clock, files, rfl⟩ := h.eq
    have hpos : q.key = p.key → 0 < d.underWayAt p := hcounted ⟨op', q, .due⟩ rfl
    rw [underWayAt_leave, Option.map_none, gained_none, gained_nothing, Option.map_some, DiskCall.kind_mk, tally_isAt, tally_none]
    have hsame : Disk.underWayAt { d with clock, files } p = d.underWayAt p := rfl
    by_cases hq : q.key = p.key
    · rw [if_pos hq, hsame, Nat.sub_add_cancel (hpos hq), Nat.add_zero]
    · rw [if_neg hq, hsame, Nat.sub_zero]
  | next op₁ op₂ q hne h =>
    obtain ⟨clock, files, rfl⟩ := h.eq
    have hpos : q.key = p.key → 0 < d.underWayAt p := hcounted ⟨op₁, q, .due⟩ rfl
    rw [underWayAt_enter, underWayAt_leave, Option.map_some, Option.map_some, DiskCall.kind_mk, DiskCall.kind_mk,
      gained_of_ne (kind_ne hne), gained_of_ne (kind_ne (Ne.symm hne)), tally_isAt, tally_isAt]
    have hsame : Disk.underWayAt { d with clock, files } p = d.underWayAt p := rfl
    by_cases hq : q.key = p.key
    · rw [if_pos hq, hsame, Nat.sub_add_cancel (hpos hq)]
    · rw [if_neg hq, hsame, Nat.sub_zero]

/-- the highest number of calls under way is the highest so far, or that of now -/
theorem Handles.mostUnderWayAt (h : Handles d c d' c') (p : Path) (hle : d.underWayAt p ≤ d.mostUnderWayAt p)
    (hcounted : ∀ x, c = some x → x.path.key = p.key → 0 < d.underWayAt p) :
    d'.mostUnderWayAt p = max (d.mostUnderWayAt p) (d'.underWayAt p) := by
  cases h with
  | idle => exact (max_eq_left hle).symm
  | waits => exact (max_eq_left hle).symm
  | passes => exact (max_eq_left hle).symm
  | begins op' q =>
    rw [mostUnderWayAt_enter, underWayAt_enter]
    split
    · rfl
    · exact (max_eq_left hle).symm
  | ends op' q h =>
    obtain ⟨clock, files, rfl⟩ := h.eq
    rw [underWayAt_leave]
    exact (max_eq_left ((Nat.sub_le _ _).trans hle)).symm
  | next op₁ op₂ q hne h =>
    obtain ⟨clock, files, rfl⟩ := h.eq
    have hpos : q.key = p.key → 0 < d.underWayAt p := hcounted ⟨op₁, q, .due⟩ rfl
    rw [mostUnderWayAt_enter, underWayAt_enter, underWayAt_leave]
    change (if _ then max (d.mostUnderWayAt p) (d.underWayAt p - _ + 1) else d.mostUnderWayAt p) =
      max (d.mostUnderWayAt p) (d.underWayAt p - _ + _)
    split
    · rfl
    · exact (max_eq_left hle).symm

/-! ## Files -/

theorem fails_write_iff : d.Fails p .write ↔ (d.failure? .write p).isSome = true := by
  unfold Disk.Fails Disk.write
  cases d.failure? .write p with
  | none => simp
  | some f => exact ⟨fun _ => rfl, fun _ => ⟨.empty, f, rfl⟩⟩

/-- A call that is carried out leaves files and clock alone, unless it is a write that does not fail. -/
theorem CarriesOut.files (h : CarriesOut d op p d') :
    (d'.files = d.files ∧ d'.clock = d.clock ∧ (op = .write → d.Fails p .write)) ∨
      op = .write ∧ ¬ d.Fails p .write ∧ ∃ bytes, d'.file? p = some ⟨bytes, Instant.ofMillis (d.clock + 1 : Nat)⟩ := by
  cases h with
  | stat => exact Or.inl ⟨rfl, rfl, fun h => nomatch h⟩
  | read => exact Or.inl ⟨rfl, rfl, fun h => nomatch h⟩
  | write _ bytes =>
    rw [fails_write_iff, Disk.write]
    cases hf : d.failure? .write p with
    | some f => exact Or.inl ⟨rfl, rfl, fun _ => rfl⟩
    | none =>
      refine Or.inr ⟨rfl, Bool.false_ne_true, bytes, ?_⟩
      simp [Disk.putFile, Disk.file?, Table.get?_insert]

/-- whatever a section does, it leaves files and clock alone, or it carries a call out -/
theorem Handles.carries (h : Handles d c d' c') : (d'.files = d.files ∧ d'.clock = d.clock ∧ ∀ op p, c ≠ some ⟨op, p, .due⟩) ∨
    ∃ op p d₁, c = some ⟨op, p, .due⟩ ∧ CarriesOut d op p d₁ ∧ d'.files = d₁.files ∧ d'.clock = d₁.clock := by
  cases h with
  | idle => exact Or.inl ⟨rfl, rfl, by simp⟩
  | waits => exact Or.inl ⟨rfl, rfl, by simp⟩
  | passes => exact Or.inl ⟨rfl, rfl, by simp⟩
  | begins => exact Or.inl ⟨rfl, rfl, by simp⟩
  | ends op q h => exact Or.inr ⟨op, q, _, rfl, h, rfl, rfl⟩
  | next op₁ op₂ q hne h => exact Or.inr ⟨op₁, q, _, rfl, h, rfl, rfl⟩

theorem Handles.files (h : Handles d c d' c') :
    (d'.files = d.files ∧ d'.clock = d.clock ∧ ∀ p, c = some ⟨.write, p, .due⟩ → d.Fails p .write) ∨
      ∃ p, c = some ⟨.write, p, .due⟩ ∧ ¬ d.Fails p .write ∧
        ∃ bytes, d'.file? p = some ⟨bytes, Instant.ofMillis (d.clock + 1 : Nat)⟩ := by
  rcases h.carries with ⟨hfiles, hclock, hno⟩ | ⟨op, p, d₁, rfl, hout, hfiles, hclock⟩
  · exact Or.inl ⟨hfiles, hclock, fun p hc => absurd hc (hno .write p)⟩
  · rcases hout.files with ⟨hsame, hsameClock, hfails⟩ | ⟨rfl, hno, bytes, hfile⟩
    · refine Or.inl ⟨hfiles.trans hsame, hclock.trans hsameClock, fun q hq => ?_⟩
      cases hq
      exact hfails rfl
    · refine Or.inr ⟨p, rfl, hno, bytes, ?_⟩
      rw [Disk.file?, hfiles]
      exact hfile

/-! ## Gates -/

/-- a gate that there is -/
def Disk.HasGate (d : Disk) (g : GateId) : Prop := (d.gates.get? g).isSome ∧ g < d.nextGate

/-- the same gates, open or not, for the same calls -/
structure Disk.SameGates (d d' : Disk) : Prop where
  gateFor : d'.gateFor = d.gateFor
  nextGate : d'.nextGate = d.nextGate
  isOpen : ∀ g, d'.isOpen g = d.isOpen g
  isSome : ∀ g, (d'.gates.get? g).isSome = (d.gates.get? g).isSome

theorem sameGates_of_eq (hfor : d'.gateFor = d.gateFor) (hnext : d'.nextGate = d.nextGate) (hgates : d'.gates = d.gates) :
    d.SameGates d' :=
  ⟨hfor, hnext, fun g => by rw [Disk.isOpen, Disk.isOpen, hgates], fun g => by rw [hgates]⟩

theorem Disk.SameGates.hasGate (h : d.SameGates d') (hg : d.HasGate g) : d'.HasGate g :=
  ⟨(h.isSome g).trans hg.1, h.nextGate ▸ hg.2⟩

theorem sameGates_enter (d : Disk) (op : DiskOp) (p : Path) : d.SameGates (d.enter op p).1 where
  gateFor := rfl
  nextGate := rfl
  isOpen := d.isOpen_enter op p
  isSome g := by
    simp only [Disk.enter]
    split
    · rw [Table.get?_modify]
      split
      · exact Option.isSome_map
      · rfl
    · rfl

theorem sameGates_handles (h : Handles d c d' c') : d.SameGates d' := by
  have hrefl : ∀ d : Disk, d.SameGates d := fun d => sameGates_of_eq rfl rfl rfl
  cases h with
  | idle => exact hrefl d
  | waits => exact hrefl d
  | passes => exact hrefl d
  | begins op q => exact sameGates_enter d op q
  | ends op q h =>
    obtain ⟨clock, files, rfl⟩ := h.eq
    exact sameGates_of_eq rfl rfl rfl
  | next op₁ op₂ q hne h =>
    obtain ⟨clock, files, rfl⟩ := h.eq
    have hleft : d.SameGates (Disk.leave { d with clock, files } q) := sameGates_of_eq rfl rfl rfl
    have henter := sameGates_enter (Disk.leave { d with clock, files } q) op₂ q
    exact ⟨henter.gateFor.trans hleft.gateFor, henter.nextGate.trans hleft.nextGate,
      fun g => (henter.isOpen g).trans (hleft.isOpen g), fun g => (henter.isSome g).trans (hleft.isSome g)⟩

theorem hasGate_hold (d : Disk) (op : DiskOp) (p : Path) :
    (d.hold op p).2.HasGate d.nextGate ∧ (d.hold op p).2.isOpen d.nextGate = false := by
  simp [Disk.HasGate, Disk.hold, Disk.isOpen, Table.getD, Table.get?_insert]

/-! ## One move -/

namespace Engine

/-- what a move makes of the disk and of the calls under way -/
inductive Works (w : World) : Move → Prop
  /-- the task has ended or cannot go on -/
  | nobody {id : TaskId} (hs : w.served? id = none) (hd : (serve w id).disk = w.disk) (hc : (serve w id).diskCall? id = w.diskCall? id) :
      Works w (.turn id)
  | carried {id : TaskId} {t : Task Phase} (hs : w.served? id = some t) (hc : t.cancelled = false)
      (h : Handles w.disk (w.diskCall? id) (serve w id).disk ((serve w id).diskCall? id)) : Works w (.turn id)
  | dropped {id : TaskId} {t : Task Phase} (hs : w.served? id = some t) (hc : t.cancelled = true)
      (hd : (serve w id).disk = w.disk.drop (w.diskCall? id)) (hnone : (serve w id).diskCall? id = none) : Works w (.turn id)
  | outside {m : Move} (hm : ∀ id, m ≠ .turn id) (hd : (w.move m).disk = m.onDisk w.disk) : Works w m

variable {w : World} {m : Move} {id i : TaskId} {t : Task Phase}

theorem diskCall?_of_served (hs : w.served? id = some t) : w.diskCall? id = t.phase.activity.diskCall? := by
  rw [World.diskCall?, phase?_of_served hs]
  rfl

/-- whoever does not get the floor has the call under way that it had -/
theorem diskCall?_unserved (hw : Wf w) (hs : w.serves m id = false) : (w.move m).diskCall? id = w.diskCall? id := by
  rcases phase?_newcomer hw hs with h | ⟨hnone, h⟩
  · rw [World.diskCall?, h, World.diskCall?]
  · rw [World.diskCall?, World.diskCall?, hnone]
    cases hp : (w.move m).tasks.phase? id with
    | none => rfl
    | some p => exact diskCall?_of_call? (h p hp).call?

theorem diskCall?_of_ne (hw : Wf w) (h : m ≠ .turn id) : (w.move m).diskCall? id = w.diskCall? id := by
  refine diskCall?_unserved hw (Bool.eq_false_iff.2 fun hs => h ?_)
  exact (serves_iff.1 hs).1

/-- **What a move makes of the disk and of the calls under way.** -/
theorem works_move (hw : Wf w) (m : Move) : Works w m := by
  by_cases hm : ∀ id, m ≠ .turn id
  · exact .outside hm (outside w hm).disk
  · push Not at hm
    obtain ⟨id, rfl⟩ := hm
    cases hs : w.served? id with
    | none => exact .nobody hs (disk_nobody hs) (by rw [World.diskCall?, phase?_serve_of_nobody hs, World.diskCall?])
    | some t =>
      cases hc : t.cancelled with
      | true =>
        refine .dropped hs hc ?_ (by rw [World.diskCall?, phase?_serve_of_cancelled hw hs hc]; rfl)
        rw [serve_of_cancelled hs hc, disk_finish, drops_abandon, diskCall?_of_served hs]
        exact congrArg (Disk.drop · _) (disk_floorTo w id)
      | false =>
        have hcall : (serve w id).diskCall? id = ((floorTo w id).step t.phase.activity).2.next.bind Activity.diskCall? := by
          rw [World.diskCall?, phase?_serve hw hs hc, Option.bind_map]
          rfl
        have hstep := handles_step (floorTo w id) t.phase.activity
        rw [disk_floorTo] at hstep
        refine .carried hs hc ?_
        rw [(core_serve_of_section hs hc).2, hcall, diskCall?_of_served hs]
        exact hstep

/-! ### Calls that begin and calls that are over -/

theorem kind?_eq (w : World) (id : TaskId) : w.kind? id = (w.diskCall? id).map DiskCall.kind := rfl

/-- **A move counts the call that begins in it.** -/
theorem callCount_move (hw : Wf w) (m : Move) (op : DiskOp) (p : Path) :
    (w.move m).disk.callCount op p = w.disk.callCount op p + tally (isKind op p) (w.begun? m) := by
  cases works_move hw m with
  | nobody _ hd hc =>
    rw [World.begun?, kind?_eq, kind?_eq, hc, gained_self]
    exact congrArg (Disk.callCount · op p) hd
  | carried hs hc h => exact h.callCount op p
  | @dropped id t hs hc hd hnone =>
    rw [World.begun?, kind?_eq, kind?_eq, hnone]
    have hsame : (w.disk.drop (w.diskCall? id)).callCount op p = w.disk.callCount op p := by
      cases w.diskCall? id <;> rfl
    refine (congrArg (Disk.callCount · op p) hd).trans (hsame.trans ?_)
    cases w.diskCall? id with
    | none => rfl
    | some c => rfl
  | outside hm hd =>
    have hbegun : w.begun? m = none := by
      cases m <;> first | rfl | exact absurd rfl (hm _)
    rw [hbegun]
    exact callCount_of_calls (calls_outside w hm) op p

/-- A section that drops the call of its task, or leaves it alone, lowers the counter by that call. -/
theorem underWayAt_drop (d : Disk) (c : Option DiskCall) (p : Path)
    (hcounted : ∀ x, c = some x → x.path.key = p.key → 0 < d.underWayAt p) :
    (d.drop c).underWayAt p + tally (isAt p) (gained none (c.map DiskCall.kind)) = d.underWayAt p := by
  cases c with
  | none => rfl
  | some c =>
    obtain ⟨op, q, stage⟩ := c
    have hpos : q.key = p.key → 0 < d.underWayAt p := hcounted ⟨op, q, stage⟩ rfl
    rw [gained_none, Option.map_some, DiskCall.kind_mk, tally_isAt]
    change (d.leave q).underWayAt p + _ = _
    rw [underWayAt_leave]
    by_cases hq : q.key = p.key
    · rw [if_pos hq, Nat.sub_add_cancel (hpos hq)]
    · rw [if_neg hq, Nat.sub_zero, Nat.add_zero]

theorem begun?_outside (hm : ∀ id, m ≠ .turn id) : w.begun? m = none := by
  cases m <;> first | rfl | exact absurd rfl (hm _)

theorem over?_outside (hm : ∀ id, m ≠ .turn id) : w.over? m = none := by
  cases m <;> first | rfl | exact absurd rfl (hm _)

theorem call?_eq (w : World) (id : TaskId) : w.call? id = (w.diskCall? id).map fun c => c.path.key := by
  rw [World.call?, World.diskCall?, Option.map_bind]
  exact congrArg _ (funext fun ph => call?_eq_diskCall? ph.activity)

/-- every call under way at a path has been counted -/
def World.CountsAll (w : World) (p : Path) : Prop := ∀ id, w.call? id = some p.key → 0 < w.disk.underWayAt p

theorem World.CountsAll.of_call (h : w.CountsAll p) {x : DiskCall} (hx : w.diskCall? id = some x) (hk : x.path.key = p.key) :
    0 < w.disk.underWayAt p := h id (by rw [call?_eq, hx, ← hk]; rfl)

/-- **A move counts as under way what begins in it, and no more what is over.** -/
theorem underWayAt_move (hw : Wf w) (m : Move) (hall : w.CountsAll p) :
    (w.move m).disk.underWayAt p + tally (isAt p) (w.over? m) = w.disk.underWayAt p + tally (isAt p) (w.begun? m) := by
  cases works_move hw m with
  | nobody _ hd hc =>
    rw [World.over?, World.begun?, kind?_eq, kind?_eq, hc, gained_self]
    exact congrArg (Disk.underWayAt · p + 0) hd
  | carried hs hc h => exact h.underWayAt p fun x hx => hall.of_call hx
  | @dropped id t hs hc hd hnone =>
    have hdrop := underWayAt_drop w.disk (w.diskCall? id) p fun x hx => hall.of_call hx
    rw [← hd] at hdrop
    rw [World.over?, World.begun?, kind?_eq, kind?_eq, hnone]
    refine hdrop.trans ?_
    cases w.diskCall? id <;> rfl
  | outside hm hd =>
    rw [over?_outside hm, begun?_outside hm]
    exact congrArg (Traffic.now · p.key) (traffic_outside w hm)

theorem mostUnderWayAt_move (hw : Wf w) (m : Move) (hall : w.CountsAll p) (hle : w.disk.underWayAt p ≤ w.disk.mostUnderWayAt p) :
    (w.move m).disk.mostUnderWayAt p = max (w.disk.mostUnderWayAt p) ((w.move m).disk.underWayAt p) := by
  have hsame : ∀ {d : Disk}, d.mostUnderWayAt p = w.disk.mostUnderWayAt p → d.underWayAt p ≤ w.disk.underWayAt p →
      d.mostUnderWayAt p = max (w.disk.mostUnderWayAt p) (d.underWayAt p) := fun hmost hnow =>
    hmost.trans (max_eq_left (hnow.trans hle)).symm
  cases works_move hw m with
  | nobody _ hd hc => exact hsame (congrArg (Disk.mostUnderWayAt · p) hd) (congrArg (Disk.underWayAt · p) hd).le
  | carried hs hc h => exact h.mostUnderWayAt p hle fun x hx => hall.of_call hx
  | @dropped id t hs hc hd hnone =>
    refine hsame ?_ ?_
    · refine (congrArg (Disk.mostUnderWayAt · p) hd).trans ?_
      cases w.diskCall? id <;> rfl
    · have hdrop := underWayAt_drop w.disk (w.diskCall? id) p fun x hx => hall.of_call hx
      rw [← hd] at hdrop
      exact (Nat.le_add_right _ _).trans hdrop.le
  | outside hm hd =>
    have htraffic := traffic_outside w hm
    exact hsame (congrArg (Traffic.most · p.key) htraffic) (congrArg (Traffic.now · p.key) htraffic).le

/-! ### The tasks that have calls under way -/

/-- how many tasks have a call under way at a path -/
def World.callers (w : World) (k : Path.Key) : Nat := ∑ id ∈ Finset.range w.tasks.next, share (w.call? id) k

theorem callers_eq_howMany (hn : w.tasks.Numbered) (k : Path.Key) :
    w.callers k = w.howMany fun a => a.call? = some k := by
  refine (sum_share_rows hn Activity.call? k).trans ?_
  simp only [World.howMany, Table.values]
  induction w.tasks.live.rows with
  | nil => rfl
  | cons r rows ih =>
    rw [List.map_cons, List.sum_cons, ih, List.map_cons, List.countP_cons, Nat.add_comm]
    simp [share]

theorem callers_eq_sum (hn : w.tasks.Numbered) {N : Nat} (h : w.tasks.next ≤ N) (k : Path.Key) :
    w.callers k = ∑ id ∈ Finset.range N, share (w.call? id) k := by
  refine sum_share_of_le (fun id hid => ?_) h k
  rw [World.call?, Tasks.phase?_eq_none_iff.2 (hn id hid)]
  rfl

theorem share_call? (w : World) (id : TaskId) (p : Path) : share (w.call? id) p.key = tally (isAt p) (w.kind? id) := by
  rw [call?_eq, kind?_eq]
  cases w.diskCall? id with
  | none => rfl
  | some c => simp [share, tally, isAt, DiskCall.kind]

/-- what was there and what has come is what is there and what has gone -/
theorem tally_gained (fits : DiskOp × Path → Bool) (before now : Option (DiskOp × Path)) :
    tally fits before + tally fits (gained before now) = tally fits now + tally fits (gained now before) := by
  by_cases h : now = before
  · rw [h]
  · rw [gained_of_ne h, gained_of_ne (Ne.symm h), Nat.add_comm]

/-- **Tasks come to have calls as calls begin, and are rid of them as calls are over.** -/
theorem callers_move (hw : Wf w) (m : Move) (p : Path) :
    (w.move m).callers p.key + tally (isAt p) (w.over? m) = w.callers p.key + tally (isAt p) (w.begun? m) := by
  have hn' := (wf_move hw m).numbered
  have hcall : ∀ i, m ≠ .turn i → (w.move m).call? i = w.call? i := fun i hi => by
    rw [call?_eq, call?_eq, diskCall?_of_ne hw hi]
  by_cases hm : ∀ id, m ≠ .turn id
  · rw [over?_outside hm, begun?_outside hm, callers_eq_sum hw.numbered (le_max_left _ (w.move m).tasks.next),
      callers_eq_sum hn' (le_max_right w.tasks.next _), Finset.sum_congr rfl fun i _ => by rw [hcall i (hm i)]]
  · push Not at hm
    obtain ⟨id, rfl⟩ := hm
    -- enough numbers for the tasks before, the tasks afterwards, and the one whose turn it is
    obtain ⟨N, hle, hle', hid⟩ : ∃ N, w.tasks.next ≤ N ∧ (w.move (.turn id)).tasks.next ≤ N ∧ id < N :=
      ⟨max (max w.tasks.next (w.move (.turn id)).tasks.next) (id + 1), (le_max_left _ _).trans (le_max_left _ _),
        (le_max_right _ _).trans (le_max_left _ _), Nat.lt_of_lt_of_le (Nat.lt_succ_self id) (le_max_right _ _)⟩
    rw [callers_eq_sum hw.numbered hle, callers_eq_sum hn' hle']
    have hsum := sum_share hid (fun j _ hj => hcall j (by simpa using Ne.symm hj)) p.key
    rw [share_call?, share_call?] at hsum
    have hgained := tally_gained (isAt p) (w.kind? id) ((w.move (.turn id)).kind? id)
    change _ + tally (isAt p) (gained ((w.move (.turn id)).kind? id) (w.kind? id)) =
      _ + tally (isAt p) (gained (w.kind? id) ((w.move (.turn id)).kind? id))
    omega

/-! ## Gates along a run -/

/-- gates are installed and opened from outside only -/
theorem sameGates_move (hw : Wf w) (hhold : ∀ op p, m ≠ .hold op p) (hopen : ∀ g, m ≠ .openGate g) :
    w.disk.SameGates (w.move m).disk := by
  have hsame : ∀ {d : Disk}, d = w.disk → w.disk.SameGates d := fun h => h ▸ sameGates_of_eq rfl rfl rfl
  cases works_move hw m with
  | nobody _ hd hc => exact hsame hd
  | carried hs hc h => exact sameGates_handles h
  | @dropped id t hs hc hd hnone =>
    rw [World.move, hd]
    cases w.diskCall? id with
    | none => exact hsame rfl
    | some c => exact sameGates_of_eq rfl rfl rfl
  | outside hm hd =>
    rw [hd]
    cases m with
    | hold op p => exact absurd rfl (hhold op p)
    | openGate g => exact absurd rfl (hopen g)
    | _ => exact sameGates_of_eq rfl rfl rfl

theorem Move.gate_cases (m : Move) : (∃ op p, m = .hold op p) ∨ (∃ g, m = .openGate g) ∨
    (∀ op p, m ≠ .hold op p) ∧ ∀ g, m ≠ .openGate g := by
  cases m <;> simp

/-- **A gate stays, and it is opened by whoever opens it.** -/
theorem isOpen_move (hw : Wf w) (m : Move) (hg : w.disk.HasGate g) :
    (w.move m).disk.HasGate g ∧ ((w.move m).disk.isOpen g = true ↔ w.disk.isOpen g = true ∨ m = .openGate g) := by
  rcases m.gate_cases with ⟨op, p, rfl⟩ | ⟨g', rfl⟩ | ⟨hhold, hopen⟩
  · have hne : w.disk.nextGate ≠ g := (Nat.ne_of_lt hg.2).symm
    refine ⟨⟨?_, hg.2.trans (Nat.lt_succ_self _)⟩, ?_⟩
    · change ((w.disk.gates.insert w.disk.nextGate {}).get? g).isSome = true
      rw [Table.get?_insert, if_neg hne]
      exact hg.1
    · change ((w.disk.gates.insert w.disk.nextGate {}).getD g {}).isOpen = true ↔ _
      rw [Table.getD, Table.get?_insert, if_neg hne]
      exact ⟨Or.inl, fun h => h.elim id fun h => by cases h⟩
  · refine ⟨⟨?_, hg.2⟩, ?_⟩
    · change ((w.disk.gates.modify g' fun x => { x with isOpen := true }).get? g).isSome = true
      rw [Table.get?_modify]
      split
      · rw [Option.isSome_map]
        exact hg.1
      · exact hg.1
    · change ((w.disk.gates.modify g' fun x => { x with isOpen := true }).getD g {}).isOpen = true ↔ _
      rw [Table.getD, Table.get?_modify]
      by_cases h : g' = g
      · obtain ⟨x, hx⟩ := Option.isSome_iff_exists.1 hg.1
        rw [if_pos h, h, hx]
        exact ⟨fun _ => Or.inr rfl, fun _ => rfl⟩
      · rw [if_neg h]
        exact ⟨Or.inl, fun h' => h'.elim id fun h' => absurd (Move.openGate.inj h') h⟩
  · have hsame := sameGates_move hw hhold hopen
    refine ⟨hsame.hasGate hg, ?_⟩
    rw [hsame.isOpen g]
    exact ⟨Or.inl, fun h => h.elim id fun h => absurd h (hopen g)⟩

/-- the gates that there are have been numbered -/
theorem numbered_gates (policy : WritePolicy) (moves : Nat → Move) (n : Nat) {g : GateId}
    (hg : (((World.start policy).trace moves n).disk.gates.get? g).isSome) :
    ((World.start policy).trace moves n).disk.HasGate g := by
  refine ⟨hg, ?_⟩
  induction n with
  | zero => cases hg
  | succ n ih =>
    rcases (moves n).gate_cases with ⟨op, p, hm⟩ | ⟨g', hm⟩ | ⟨hhold, hopen⟩
    · rw [World.trace, hm] at hg ⊢
      change (Table.get? (Table.insert _ _ _) g).isSome at hg
      rw [Table.get?_insert] at hg
      split at hg
      · next hnew => exact hnew ▸ Nat.lt_succ_self _
      · exact (ih hg).trans (Nat.lt_succ_self _)
    · rw [World.trace, hm] at hg ⊢
      change (Table.get? (Table.modify _ _ _) g).isSome at hg
      rw [Table.get?_modify] at hg
      split at hg
      · exact ih (Option.isSome_map.symm.trans hg)
      · exact ih hg
    · have hsame := sameGates_move (reachable_trace policy moves n).wf hhold hopen
      exact hsame.nextGate ▸ ih ((hsame.isSome g).symm.trans hg)

/-- a gate that is open stays open -/
theorem open_since (policy : WritePolicy) {moves : Nat → Move} {n l : Nat} (hnl : n ≤ l) {g : GateId}
    (hg : ((World.start policy).trace moves n).disk.isOpen g = true) :
    ((World.start policy).trace moves l).disk.isOpen g = true := by
  induction l, hnl using Nat.le_induction with
  | base => exact hg
  | succ l _ ih =>
    have hthere : (((World.start policy).trace moves l).disk.gates.get? g).isSome := by
      cases hgate : ((World.start policy).trace moves l).disk.gates.get? g with
      | none => simp [Disk.isOpen, Table.getD, hgate] at ih
      | some x => rfl
    exact (isOpen_move (reachable_trace policy moves l).wf (moves l) (numbered_gates policy moves l hthere)).2.2 (.inl ih)

/-- the last of the first `n` moves that installs a gate for calls of a kind at a path -/
structure LastHold (moves : Nat → Move) (n : Nat) (op : DiskOp) (k : Path.Key) (i : Nat) : Prop where
  lt : i < n
  holds : ∃ q, moves i = .hold op q ∧ q.key = k
  last : ∀ l, i < l → l < n → ∀ q, moves l = .hold op q → q.key ≠ k

variable {policy : WritePolicy} {moves : Nat → Move} {n j l : Nat}

theorem lastHold_of_hold (hm : moves n = .hold op q) (hq : q.key = k) : LastHold moves (n + 1) op k l ↔ l = n := by
  refine ⟨fun h => ?_, fun h => ?_⟩
  · rcases Nat.lt_succ_iff_lt_or_eq.1 h.lt with hlt | heq
    · exact absurd hq (h.last n hlt (Nat.lt_succ_self n) q hm)
    · exact heq
  · subst h
    exact ⟨Nat.lt_succ_self l, ⟨q, hm, hq⟩, fun l' hl hl' => absurd hl (Nat.not_lt.2 (Nat.le_of_lt_succ hl'))⟩

theorem lastHold_of_not (hm : ∀ q, moves n = .hold op q → q.key ≠ k) :
    LastHold moves (n + 1) op k l ↔ LastHold moves n op k l := by
  refine ⟨fun h => ?_, fun h => ⟨h.lt.trans (Nat.lt_succ_self n), h.holds, fun l' hl hl' q hq => ?_⟩⟩
  · rcases Nat.lt_succ_iff_lt_or_eq.1 h.lt with hlt | rfl
    · exact ⟨hlt, h.holds, fun l' hl hl' => h.last l' hl (hl'.trans (Nat.lt_succ_self n))⟩
    · obtain ⟨q, hq, hk⟩ := h.holds
      exact absurd hk (hm q hq)
  · rcases Nat.lt_succ_iff_lt_or_eq.1 hl' with hlt | rfl
    · exact h.last l' hl hlt q hq
    · exact hm q hq

/-- **New calls are held at the gate that was installed last.** -/
theorem gateFor_iff (policy : WritePolicy) (moves : Nat → Move) (n : Nat) (op : DiskOp) (k : Path.Key) (g : GateId) :
    ((World.start policy).trace moves n).disk.gateFor.get? (op, k) = some g ↔
      ∃ i, LastHold moves n op k i ∧ g = ((World.start policy).trace moves i).disk.nextGate := by
  induction n with
  | zero => exact ⟨fun h => (by cases h), fun ⟨i, hi, _⟩ => absurd hi.lt (Nat.not_lt_zero i)⟩
  | succ n ih =>
    by_cases hm : ∃ q, moves n = .hold op q ∧ q.key = k
    · obtain ⟨q, hm, hq⟩ := hm
      simp only [lastHold_of_hold hm hq, exists_eq_left]
      rw [World.trace, hm]
      change (Table.insert _ (op, q.key) _).get? (op, k) = some g ↔ _
      rw [Table.get?_insert, if_pos (by rw [hq]), Option.some.injEq, eq_comm]
    · push Not at hm
      simp only [lastHold_of_not hm]
      rw [← ih, World.trace]
      have hw := (reachable_trace policy moves n).wf
      generalize (World.start policy).trace moves n = w at hw
      rcases (moves n).gate_cases with ⟨op', q, hmove⟩ | ⟨g', hmove⟩ | ⟨hhold, hopen⟩
      · rw [hmove]
        change (Table.insert _ (op', q.key) _).get? (op, k) = some g ↔ _
        rw [Table.get?_insert, if_neg]
        rintro h
        cases h
        exact hm q hmove rfl
      · rw [hmove]
        rfl
      · rw [(sameGates_move hw hhold hopen).gateFor]

/-- **A gate is open if somebody has opened it since it was installed.** -/
theorem opened_iff (hm : moves i = .hold op q) (hin : i < n) :
    ((World.start policy).trace moves n).disk.isOpen ((World.start policy).trace moves i).disk.nextGate = true ↔
      ∃ l, i < l ∧ l < n ∧ moves l = .openGate ((World.start policy).trace moves i).disk.nextGate := by
  have hboth : ((World.start policy).trace moves n).disk.HasGate ((World.start policy).trace moves i).disk.nextGate ∧
      (((World.start policy).trace moves n).disk.isOpen ((World.start policy).trace moves i).disk.nextGate = true ↔
        ∃ l, i < l ∧ l < n ∧ moves l = .openGate ((World.start policy).trace moves i).disk.nextGate) := by
    induction n, (show i + 1 ≤ n from hin) using Nat.le_induction with
    | base =>
      obtain ⟨hgate, hclosed⟩ := hasGate_hold ((World.start policy).trace moves i).disk op q
      rw [World.trace, hm]
      refine ⟨hgate, fun hopen => absurd (hclosed.symm.trans hopen) Bool.false_ne_true, ?_⟩
      rintro ⟨l, hl, hl', -⟩
      exact absurd hl (Nat.not_lt.2 (Nat.le_of_lt_succ hl'))
    | succ n hn ih =>
      obtain ⟨hgate, hiff⟩ := ih hn
      obtain ⟨hgate', hiff'⟩ := isOpen_move (reachable_trace policy moves n).wf (moves n) hgate
      refine ⟨hgate', hiff'.trans ⟨?_, ?_⟩⟩
      · rintro (hopen | hopens)
        · obtain ⟨l, hl, hl', h⟩ := hiff.1 hopen
          exact ⟨l, hl, hl'.trans (Nat.lt_succ_self n), h⟩
        · exact ⟨n, hn, Nat.lt_succ_self n, hopens⟩
      · rintro ⟨l, hl, hl', h⟩
        rcases Nat.lt_succ_iff_lt_or_eq.1 hl' with hlt | rfl
        · exact Or.inl (hiff.2 ⟨l, hl, hlt, h⟩)
        · exact Or.inr h
  exact hboth.2

/-- a call is held as it begins by the gate that is installed for it, if that is not open -/
theorem stage_eq_held_iff (d : Disk) (op : DiskOp) (p : Path) (g : GateId) :
    d.stage op p = .held g ↔ d.gateFor.get? (op, p.key) = some g ∧ d.isOpen g = false := by
  rw [Disk.stage]
  cases d.gateFor.get? (op, p.key) with
  | none => simp
  | some g' =>
    dsimp only
    split
    · rename_i hopen
      simp only [reduceCtorEq, Option.some.injEq, false_iff, not_and]
      rintro rfl
      simp [hopen]
    · rename_i hclosed
      simp only [Call.held.injEq, Option.some.injEq]
      exact ⟨fun h => ⟨h, by rw [← h]; exact Bool.eq_false_iff.2 hclosed⟩, fun h => h.1⟩

/-- where a call stands that begins now, by the gates that have been installed and opened -/
theorem stage_iff (policy : WritePolicy) (moves : Nat → Move) (n : Nat) (op : DiskOp) (p : Path) (g : GateId) :
    ((World.start policy).trace moves n).disk.stage op p = .held g ↔
      ∃ i, LastHold moves n op p.key i ∧ g = ((World.start policy).trace moves i).disk.nextGate ∧
        ∀ l, i < l → l < n → moves l ≠ .openGate g := by
  rw [stage_eq_held_iff, gateFor_iff]
  constructor
  · rintro ⟨⟨i, hlast, hg⟩, hclosed⟩
    refine ⟨i, hlast, hg, fun l hl hl' hmove => ?_⟩
    obtain ⟨q, hq, -⟩ := hlast.holds
    subst hg
    exact absurd ((opened_iff hq hlast.lt).2 ⟨l, hl, hl', hmove⟩) (by rw [hclosed]; exact Bool.false_ne_true)
  · rintro ⟨i, hlast, hg, hno⟩
    refine ⟨⟨i, hlast, hg⟩, Bool.eq_false_iff.2 fun hopen => ?_⟩
    obtain ⟨q, hq, -⟩ := hlast.holds
    subst hg
    obtain ⟨l, hl, hl', hmove⟩ := (opened_iff hq hlast.lt).1 hopen
    exact hno l hl hl' hmove

/-- a call that begins stands where the gates say -/
theorem begins_at_stage (hw : Wf w) {c : DiskCall} (hc : (w.move m).diskCall? id = some c) (hnew : w.kind? id ≠ some c.kind) :
    c.stage = w.disk.stage c.op c.path := by
  have hold : w.diskCall? id ≠ some c := fun h => hnew (by rw [kind?_eq, h]; rfl)
  by_cases hm : m = .turn id
  · subst hm
    cases works_move hw (.turn id) with
    | nobody _ hd hsame => exact absurd (hsame.symm.trans hc) hold
    | carried hs hcancelled h =>
      rw [kind?_eq] at hnew
      rw [World.move] at hc
      rw [hc] at h
      generalize w.diskCall? id = x, (serve w id).disk = d' at h hnew hold
      cases h with
      | waits op p g hg => exact absurd rfl hold
      | passes op p g hg => exact absurd rfl hnew
      | begins op p => rfl
      | next op op' p hne h =>
        obtain ⟨clock, files, rfl⟩ := h.eq
        rfl
    | dropped hs hcancelled hd hnone => cases hc.symm.trans hnone
    | outside hm => exact absurd rfl (hm id)
  · exact absurd ((diskCall?_of_ne hw hm).symm.trans hc) hold

/-- **A call held at a gate that is closed stays there**, unless it is dropped. -/
theorem held_move (hw : Wf w) (hdrop : ¬ w.Drops m id) (hc : w.diskCall? id = some ⟨op, p, .held g⟩)
    (hclosed : w.disk.isOpen g = false) : (w.move m).diskCall? id = some ⟨op, p, .held g⟩ := by
  by_cases hm : m = .turn id
  · subst hm
    cases works_move hw (.turn id) with
    | nobody _ hd hsame => exact hsame.trans hc
    | carried hs hcancelled h =>
      rw [hc] at h
      rw [World.move]
      generalize (serve w id).diskCall? id = x, (serve w id).disk = d' at h
      cases h with
      | waits => rfl
      | passes _ _ _ hg => exact absurd (hclosed.symm.trans hg) Bool.false_ne_true
    | dropped hs hcancelled => exact absurd ⟨rfl, _, hs, hcancelled⟩ hdrop
    | outside hm => exact absurd rfl (hm id)
  · exact (diskCall?_of_ne hw hm).trans hc

theorem closed_move (hw : Wf w) (hm : m ≠ .openGate g) (hclosed : w.disk.isOpen g = false) : (w.move m).disk.isOpen g = false := by
  rcases m.gate_cases with ⟨op, p, rfl⟩ | ⟨g', rfl⟩ | ⟨hhold, hopen⟩
  · change ((w.disk.gates.insert w.disk.nextGate {}).getD g {}).isOpen = false
    rw [Table.getD, Table.get?_insert]
    split
    · rfl
    · exact hclosed
  · change ((w.disk.gates.modify g' fun x => { x with isOpen := true }).getD g {}).isOpen = false
    rw [Table.getD, Table.get?_modify, if_neg fun h => hm (congrArg Move.openGate h)]
    exact hclosed
  · exact ((sameGates_move hw hhold hopen).isOpen g).trans hclosed

/-- **No call is let through before its gate is opened.** -/
theorem held_trace (hnm : n ≤ j) (hc : ((World.start policy).trace moves n).diskCall? id = some ⟨op, p, .held g⟩)
    (hclosed : ((World.start policy).trace moves n).disk.isOpen g = false)
    (hno : ∀ l, n ≤ l → l < j → moves l ≠ .openGate g)
    (hdrop : ∀ l, n ≤ l → l < j → ¬ ((World.start policy).trace moves l).Drops (moves l) id) :
    ((World.start policy).trace moves j).diskCall? id = some ⟨op, p, .held g⟩ ∧
      ((World.start policy).trace moves j).disk.isOpen g = false := by
  induction j, hnm using Nat.le_induction with
  | base => exact ⟨hc, hclosed⟩
  | succ j hj ih =>
    obtain ⟨hc', hclosed'⟩ := ih (fun l hl hl' => hno l hl (hl'.trans (Nat.lt_succ_self j)))
      fun l hl hl' => hdrop l hl (hl'.trans (Nat.lt_succ_self j))
    have hw := (reachable_trace policy moves j).wf
    exact ⟨held_move hw (hdrop j hj (Nat.lt_succ_self j)) hc' hclosed', closed_move hw (hno j hj (Nat.lt_succ_self j)) hclosed'⟩

/-! ## Files and dates -/

/-- what others do to the files -/
def Move.isExternal : Move → Bool
  | .putFile .. | .removeFile _ | .touch _ => true
  | _ => false

/-- **Only what others do to the files, and writes that succeed, change the files and move the clock.** -/
theorem files_move (hw : Wf w) (m : Move) :
    (w.move m).disk.files = w.disk.files ∧ (w.move m).disk.clock = w.disk.clock ∨ m.isExternal = true ∨ ∃ p, w.Writes m p := by
  cases works_move hw m with
  | nobody _ hd hc => exact Or.inl ⟨congrArg Disk.files hd, congrArg Disk.clock hd⟩
  | @carried id t hs hc h =>
    rcases h.files with ⟨hfiles, hclock, -⟩ | ⟨p, hcall, hno, -⟩
    · exact Or.inl ⟨hfiles, hclock⟩
    · exact Or.inr (Or.inr ⟨p, id, t, rfl, hs, hc, hcall, hno⟩)
  | @dropped id t hs hc hd hnone =>
    rw [World.move, hd]
    cases w.diskCall? id <;> exact Or.inl ⟨rfl, rfl⟩
  | outside hm hd =>
    rw [hd]
    cases m <;> first | exact Or.inl ⟨rfl, rfl⟩ | exact Or.inr (Or.inl rfl)

/-- **A call that is dropped or fails changes nothing.** -/
theorem unchanged_move (hw : Wf w) (hs : w.served? id = some t) {x : DiskCall} (hx : w.diskCall? id = some x)
    (hbad : t.cancelled = true ∨ w.disk.Fails x.path x.op) :
    (w.move (.turn id)).disk.files = w.disk.files ∧ (w.move (.turn id)).disk.clock = w.disk.clock := by
  rcases files_move hw (.turn id) with h | h | ⟨p, id', t', hm, hs', hc, hcall, hno⟩
  · exact h
  · cases h
  · cases hm
    cases hs.symm.trans hs'
    cases hx.symm.trans hcall
    rcases hbad with hbad | hbad
    · exact absurd (hc.symm.trans hbad) Bool.false_ne_true
    · exact absurd hbad hno

theorem file?_of_writes (hw : Wf w) (h : w.Writes m p) :
    ∃ bytes, (w.move m).disk.file? p = some ⟨bytes, Instant.ofMillis (w.disk.clock + 1 : Nat)⟩ := by
  obtain ⟨id, t, rfl, hs, hc, hcall, hno⟩ := h
  cases works_move hw (.turn id) with
  | nobody hs' => cases hs.symm.trans hs'
  | carried _ _ h =>
    rcases h.files with ⟨-, -, hfails⟩ | ⟨q, hq, -, hfile⟩
    · exact absurd (hfails p hcall) hno
    · cases hcall.symm.trans hq
      exact hfile
  | dropped hs' hc' =>
    cases hs.symm.trans hs'
    exact absurd (hc.symm.trans hc') Bool.false_ne_true
  | outside hm => exact absurd rfl (hm id)

/-! ### Dates -/

/-- a date that is given in a move comes after the clock before it, and not after the clock then -/
theorem Dates.between {date : Instant} (hw : Wf w) (h : w.Dates m p date) :
    (Instant.ofMillis w.disk.clock).nanos < date.nanos ∧ date.nanos ≤ (Instant.ofMillis (w.move m).disk.clock).nanos := by
  obtain ⟨f, hf, rfl⟩ := Option.map_eq_some_iff.1 h.1
  rcases (move_served hw m).choose_spec.disk.file p.key f hf with hold | ⟨c, hlt, hle, hdate⟩
  · have hbefore : w.dateAt p = some f.modified := congrArg (Option.map StoredFile.modified) hold
    exact absurd hbefore h.2
  · rw [hdate]
    exact ⟨Disk.nanos_ofMillis_lt hlt, Disk.nanos_ofMillis_le hle⟩

/-- a file that has the next date of the clock then has been given it -/
theorem dates_next {f : StoredFile} (hc : w.Chronological) (hf : (w.move m).disk.file? p = some f)
    (hdate : f.modified = Instant.ofMillis (w.disk.clock + 1 : Nat)) : ∃ date, w.Dates m p date := by
  refine ⟨f.modified, by rw [World.dateAt, hf]; rfl, fun hold => ?_⟩
  obtain ⟨f', hf', hsame⟩ := Option.map_eq_some_iff.1 hold
  have hle := (hc.file p.key f' hf').2
  rw [hsame, hdate] at hle
  exact absurd (Disk.nanos_ofMillis_lt (Nat.lt_succ_self w.disk.clock)) (Int.not_lt.2 hle)

theorem dates_putFile (hc : w.Chronological) (p : Path) (bytes : ByteArray) : ∃ date, w.Dates (.putFile p bytes) p date := by
  refine dates_next (f := ⟨bytes, Instant.ofMillis (w.disk.clock + 1 : Nat)⟩) hc ?_ rfl
  change (Table.insert _ p.key _).get? p.key = _
  rw [Table.get?_insert, if_pos rfl]

theorem dates_touch (hc : w.Chronological) (h : (w.disk.file? p).isSome) : ∃ date, w.Dates (.touch p) p date := by
  obtain ⟨f, hf⟩ := Option.isSome_iff_exists.1 h
  refine dates_next (f := { f with modified := Instant.ofMillis (w.disk.clock + 1 : Nat) }) hc ?_ rfl
  change (Table.modify _ p.key _).get? p.key = _
  rw [Table.get?_modify, if_pos rfl, show w.disk.files.get? p.key = some f from hf]
  rfl

theorem dates_writes (hw : Wf w) (hc : w.Chronological) (h : w.Writes m p) : ∃ date, w.Dates m p date := by
  obtain ⟨bytes, hf⟩ := file?_of_writes hw h
  exact dates_next hc hf rfl

theorem clock_trace (policy : WritePolicy) (moves : Nat → Move) (hnm : n ≤ j) :
    ((World.start policy).trace moves n).disk.clock ≤ ((World.start policy).trace moves j).disk.clock := by
  induction j, hnm using Nat.le_induction with
  | base => exact le_rfl
  | succ j _ ih => exact ih.trans (move_served (reachable_trace policy moves j).wf (moves j)).choose_spec.disk.clock

/-! ## Along a run -/

theorem countsAll_of_eq (hn : w.tasks.Numbered) (h : w.disk.underWayAt p = w.callers p.key) : w.CountsAll p := by
  intro id hid
  obtain ⟨ph, hph, -⟩ := Option.bind_eq_some_iff.1 hid
  have hle : share (w.call? id) p.key ≤ w.callers p.key :=
    Finset.single_le_sum (f := fun j => share (w.call? j) p.key) (fun _ _ => Nat.zero_le _) (Finset.mem_range.2 (hn.lt hph))
  rw [share, if_pos hid] at hle
  rw [h]
  exact hle

/-- the counter of calls under way is exact, and no higher than the highest it has been -/
theorem counted_calls_trace (policy : WritePolicy) (moves : Nat → Move) (n : Nat) (p : Path) :
    ((World.start policy).trace moves n).disk.underWayAt p = ((World.start policy).trace moves n).callers p.key ∧
      ((World.start policy).trace moves n).disk.underWayAt p ≤ ((World.start policy).trace moves n).disk.mostUnderWayAt p := by
  induction n with
  | zero =>
    refine ⟨?_, le_rfl⟩
    rw [callers_eq_howMany (reachable_trace policy moves 0).wf.numbered]
    rfl
  | succ n ih =>
    have hw := (reachable_trace policy moves n).wf
    have hall := countsAll_of_eq hw.numbered ih.1
    rw [World.trace]
    refine ⟨?_, ?_⟩
    · -- what begins and what is over changes both numbers alike
      have hcount := underWayAt_move hw (moves n) hall
      have hcallers := callers_move hw (moves n) p
      rw [ih.1] at hcount
      exact Nat.add_right_cancel (hcount.trans hcallers.symm)
    · rw [mostUnderWayAt_move hw (moves n) hall ih.2]
      exact le_max_right _ _

/-- **The books of the disk in a run.** -/
structure BooksExact (w : World) (moves : Nat → Move) : Prop where
  /-- the calls of a kind at a path that have been counted are those that have begun -/
  calls : ∀ n op p, (w.trace moves n).disk.callCount op p = w.begunIn moves n (isKind op p)
  /-- nobody's call begins, goes on or is over but in a section of its own task -/
  own : ∀ n id, moves n ≠ .turn id → (w.trace moves (n + 1)).diskCall? id = (w.trace moves n).diskCall? id
  /-- as many are under way at a path as there are tasks with a call there -/
  underWay : ∀ n p, (w.trace moves n).disk.underWayAt p = (w.trace moves n).howMany fun a => a.call? = some p.key
  /-- those are the calls that have begun and have neither ended nor been dropped -/
  balance : ∀ n p, w.begunIn moves n (isAt p) = w.overIn moves n (isAt p) + (w.trace moves n).disk.underWayAt p
  /-- whenever the counter is to go down, it is not zero -/
  positive : ∀ n op p, (w.trace moves n).over? (moves n) = some (op, p) → 0 < (w.trace moves n).disk.underWayAt p
  /-- the highest number of calls under way is one that there has been, and there has been no higher one -/
  most : ∀ n p, IsGreatest {x | ∃ i ≤ n, (w.trace moves i).disk.underWayAt p = x} ((w.trace moves n).disk.mostUnderWayAt p)
  /-- a call that begins is held at the gate that was installed last, if nobody has opened that since -/
  stage : ∀ n id c g, (w.trace moves (n + 1)).diskCall? id = some c → (w.trace moves n).kind? id ≠ some c.kind →
    (c.stage = .held g ↔ ∃ i, LastHold moves n c.op c.path.key i ∧ g = (w.trace moves i).disk.nextGate ∧
      ∀ l, i < l → l < n → moves l ≠ .openGate g)
  /-- a call that is held at a closed gate is held there until somebody opens that gate, or the call is dropped; it does not
  matter which gates are installed meanwhile -/
  held : ∀ n j id op p g, n ≤ j → (w.trace moves n).diskCall? id = some ⟨op, p, .held g⟩ →
    (w.trace moves n).disk.isOpen g = false → (∀ l, n ≤ l → l < j → moves l ≠ .openGate g) →
    (∀ l, n ≤ l → l < j → ¬ (w.trace moves l).Drops (moves l) id) →
    (w.trace moves j).diskCall? id = some ⟨op, p, .held g⟩
  /-- a call that fails or is dropped changes no file and does not move the clock -/
  unchanged : ∀ n id t c, moves n = .turn id → (w.trace moves n).served? id = some t →
    (w.trace moves n).diskCall? id = some c → t.cancelled = true ∨ (w.trace moves n).disk.Fails c.path c.op →
    (w.trace moves (n + 1)).disk.files = (w.trace moves n).disk.files ∧
      (w.trace moves (n + 1)).disk.clock = (w.trace moves n).disk.clock
  /-- what others do to the files, and writes that succeed, are all that changes them or moves the clock -/
  changes : ∀ n, ((w.trace moves (n + 1)).disk.files = (w.trace moves n).disk.files ∧
      (w.trace moves (n + 1)).disk.clock = (w.trace moves n).disk.clock) ∨ (moves n).isExternal = true ∨
    ∃ p, (w.trace moves n).Writes (moves n) p
  /-- whoever puts a file in place, touches one that is there or writes one gives it a date -/
  dated : ∀ n p, ((∃ bytes, moves n = .putFile p bytes) ∨
      (moves n = .touch p ∧ ((w.trace moves n).disk.file? p).isSome) ∨ (w.trace moves n).Writes (moves n) p) →
    ∃ date, (w.trace moves n).Dates (moves n) p date
  /-- each date is later than all that have been given before, at any path -/
  rising : ∀ n j p q date date', n < j → (w.trace moves n).Dates (moves n) p date →
    (w.trace moves j).Dates (moves j) q date' → date.nanos < date'.nanos

theorem gained_eq_some {α : Type} [DecidableEq α] {x y : Option α} {a : α} (h : gained x y = some a) : y = some a := by
  unfold gained at h
  split at h
  · cases h
  · exact h

/-- a call that is over has been under way -/
theorem call?_of_over (h : w.over? m = some (op, p)) : ∃ id, w.call? id = some p.key := by
  cases m with
  | turn id =>
    obtain ⟨c, hc, hkind⟩ := Option.map_eq_some_iff.1 (gained_eq_some h)
    exact ⟨id, by rw [call?_eq, hc, Option.map_some, show c.path = p from congrArg Prod.snd hkind]⟩
  | _ => cases h

/-- the highest number of calls under way so far -/
theorem mostUnderWay_trace (policy : WritePolicy) (moves : Nat → Move) (n : Nat) (p : Path) :
    IsGreatest {x | ∃ i ≤ n, ((World.start policy).trace moves i).disk.underWayAt p = x}
      (((World.start policy).trace moves n).disk.mostUnderWayAt p) := by
  induction n with
  | zero =>
    refine ⟨⟨0, le_rfl, rfl⟩, ?_⟩
    rintro x ⟨i, hi, rfl⟩
    rw [Nat.le_zero.1 hi]
    exact le_rfl
  | succ n ih =>
    have hw := (reachable_trace policy moves n).wf
    obtain ⟨heq, hle⟩ := counted_calls_trace policy moves n p
    have hmost := mostUnderWayAt_move hw (moves n) (countsAll_of_eq hw.numbered heq) hle
    obtain ⟨⟨i, hi, hreached⟩, hbound⟩ := ih
    rw [World.trace, hmost]
    refine ⟨?_, ?_⟩
    · rcases max_choice (((World.start policy).trace moves n).disk.mostUnderWayAt p)
        ((((World.start policy).trace moves n).move (moves n)).disk.underWayAt p) with h | h <;> rw [h]
      · exact ⟨i, hi.trans (Nat.le_succ n), hreached⟩
      · exact ⟨n + 1, le_rfl, rfl⟩
    · rintro x ⟨l, hl, rfl⟩
      rcases Nat.lt_or_eq_of_le hl with hlt | rfl
      · exact (hbound ⟨l, Nat.le_of_lt_succ hlt, rfl⟩).trans (le_max_left _ _)
      · exact le_max_right _ _

theorem begunIn_succ (w : World) (moves : Nat → Move) (n : Nat) (fits : DiskOp × Path → Bool) :
    w.begunIn moves (n + 1) fits = w.begunIn moves n fits + tally fits ((w.trace moves n).begun? (moves n)) := by
  rw [World.begunIn, List.range_succ, List.countP_append, List.countP_singleton]
  rfl

theorem overIn_succ (w : World) (moves : Nat → Move) (n : Nat) (fits : DiskOp × Path → Bool) :
    w.overIn moves (n + 1) fits = w.overIn moves n fits + tally fits ((w.trace moves n).over? (moves n)) := by
  rw [World.overIn, List.range_succ, List.countP_append, List.countP_singleton]
  rfl

/-- **The disk keeps its books exactly**, in every run. -/
theorem books_exact (policy : WritePolicy) (moves : Nat → Move) : BooksExact (World.start policy) moves := by
  have hw := fun n => (reachable_trace policy moves n).wf
  have hall := fun n p => countsAll_of_eq (hw n).numbered (counted_calls_trace policy moves n p).1
  constructor
  case calls =>
    intro n op p
    induction n with
    | zero => rfl
    | succ n ih => rw [begunIn_succ, ← ih, World.trace, callCount_move (hw n)]
  case own => exact fun n id hm => diskCall?_of_ne (hw n) hm
  case underWay =>
    intro n p
    rw [(counted_calls_trace policy moves n p).1, callers_eq_howMany (hw n).numbered]
  case balance =>
    intro n p
    induction n with
    | zero => rfl
    | succ n ih =>
      have hmove := underWayAt_move (hw n) (moves n) (hall n p)
      rw [begunIn_succ, overIn_succ, ih, World.trace]
      omega
  case positive =>
    intro n op p hover
    obtain ⟨id, hid⟩ := call?_of_over hover
    exact hall n p id hid
  case most => exact mostUnderWay_trace policy moves
  case stage =>
    intro n id c g hc hnew
    rw [begins_at_stage (hw n) hc hnew]
    exact stage_iff policy moves n c.op c.path g
  case held => exact fun n j id op p g hnj hc hclosed hno hdrop => (held_trace hnj hc hclosed hno hdrop).1
  case unchanged =>
    intro n id t c hm hs hc hbad
    rw [World.trace, hm]
    exact unchanged_move (hw n) hs hc hbad
  case changes => exact fun n => files_move (hw n) (moves n)
  case dated =>
    have hchron := fun n => chronological_trace policy moves n
    rintro n p (⟨bytes, hm⟩ | ⟨hm, hthere⟩ | hwrites)
    · rw [hm]
      exact dates_putFile (hchron n) p bytes
    · rw [hm]
      exact dates_touch (hchron n) hthere
    · exact dates_writes (hw n) (hchron n) hwrites
  case rising =>
    intro n j p q date date' hnj hdate hdate'
    have hbefore := (Dates.between (hw n) hdate).2
    have hafter := (Dates.between (hw j) hdate').1
    exact (hbefore.trans (Disk.nanos_ofMillis_le (clock_trace policy moves hnj))).trans_lt hafter

end Engine

end LiveFiles
