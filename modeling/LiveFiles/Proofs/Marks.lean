/-
What a section of a task finds. The call to the disk that a section carries out decides how an operation ends: with an
observation, with a date, or by failing (`Refresh.finding`, `Refresh.fails`, `Save.finding`, `Save.fails`). `Occurs w a`
lists the marks that a section of a task in phase `a` may leave, `Forgone w a` those that the end of a cancelled one
leaves.
-/
import LiveFiles.Proofs.Protocol

namespace LiveFiles.Engine

/-- what a reconciliation that has the lock knows of the entry -/
def Refresh.look? : Refresh → Option Look
  | .queued .. => none
  | .looking l _ => some l
  | .reading l _ _ => some l
  | .lookingAgain l _ _ => some l

/-- the observation with which a reconciliation ends in its next section, if it does -/
def Refresh.finding (d : Disk) : Refresh → Option Observation
  | .looking l .due =>
    match d.stat l.path with
    | .ok none => some (.absent l.had)
    | .ok (some st) => if l.had && st.modified = l.last then some .unchanged else none
    | .error _ => none
  | .reading l m .due =>
    match d.read l.path with
    | .ok text => some (.changed text m)
    | .error _ => none
  | .lookingAgain l _ .due =>
    match d.stat l.path with
    | .ok none => some (.absent l.had)
    | .ok (some _) | .error _ => none
  | .queued .. | .looking _ (.held _) | .reading _ _ (.held _) | .lookingAgain _ _ (.held _) => none

/-- a reconciliation fails in its next section -/
def Refresh.fails (d : Disk) : Refresh → Bool
  | .looking l .due => (d.stat l.path).toOption.isNone
  | .lookingAgain l _ .due =>
    match d.stat l.path with
    | .ok none => false
    | .ok (some _) | .error _ => true
  | .queued .. | .looking _ (.held _) | .reading .. | .lookingAgain _ _ (.held _) => false

/-- the date with which a write ends in its next section, if it does -/
def Save.finding (d : Disk) : Save → Option Instant
  | .looking job .due =>
    match d.stat job.path with
    | .ok (some st) => some st.modified
    | .ok none | .error _ => none
  | .queued _ | .writing .. | .looking _ (.held _) => none

/-- a write fails in its next section -/
def Save.fails (d : Disk) : Save → Bool
  | .writing job .due => (d.write job.path job.bytes).2.toOption.isNone
  | .looking job .due =>
    match d.stat job.path with
    | .ok (some _) => false
    | .ok none | .error _ => true
  | .queued _ | .writing _ (.held _) | .looking _ (.held _) => false

def Save.job : Save → SaveJob
  | .queued job => job
  | .writing job _ => job
  | .looking job _ => job

/-- the reconciliation that a task carries out -/
def Activity.refresh? : Activity → Option Refresh
  | .refreshing r => some r
  | .synchronizing _ r => some r
  | _ => none

/-- the write that a task carries out -/
def Activity.save? : Activity → Option Save
  | .saving s => some s
  | _ => none

theorem Activity.errand_of_refresh {a : Activity} {r : Refresh} (h : a.refresh? = some r) : a.stake.errand = r.errand := by
  cases a <;> cases h <;> rfl

/-- the errands of tasks that neither reconcile nor write -/
theorem Activity.errand_cases (a : Activity) :
    (∃ r, a.refresh? = some r ∧ a.stake.errand = r.errand) ∨ (∃ s, a.save? = some s ∧ a.stake.errand = s.errand) ∨
      a.stake.errand = .idle ∨ (∃ p τ, a.stake.errand = .drain p τ) ∨ ∃ p x, a.stake.errand = .settle p x := by
  cases a with
  | refreshing r => exact Or.inl ⟨r, rfl, rfl⟩
  | synchronizing seat r => exact Or.inl ⟨r, rfl, rfl⟩
  | saving s => exact Or.inr (Or.inl ⟨s, rfl, rfl⟩)
  | settling seat x =>
    cases x with
    | none => exact Or.inr (Or.inr (Or.inl rfl))
    | some x => exact Or.inr (Or.inr (Or.inr (Or.inr ⟨_, x, rfl⟩)))
  | tearingDown p turn l =>
    cases turn with
    | none => exact Or.inr (Or.inr (Or.inl rfl))
    | some τ => exact Or.inr (Or.inr (Or.inr (Or.inl ⟨p, τ, rfl⟩)))
  | draining p turn rest =>
    cases turn with
    | none => exact Or.inr (Or.inr (Or.inl rfl))
    | some τ => exact Or.inr (Or.inr (Or.inr (Or.inl ⟨p, τ, rfl⟩)))
  | starting r => cases r <;> exact Or.inr (Or.inr (Or.inl rfl))
  | _ => exact Or.inr (Or.inr (Or.inl rfl))

/-- a call to watch finds nothing left to wait for at a path that is tracked -/
def World.settles (w : World) (a : Activity) (seat : Seat) : Prop :=
  ∃ x e, a = .settling seat x ∧ (x.any fun x => !w.signals.isGiven x) = false ∧ w.entry? seat.path = some e ∧
    e.unsettled w.signals = none

/-- the marks that a section of a task may leave -/
def Occurs (w : World) (a : Activity) : Mark → Prop
  | .observed k o => ∃ r l, a.refresh? = some r ∧ r.look? = some l ∧ l.path.key = k ∧ r.finding w.disk = some o
  | .committed k text m => ∃ s, a.save? = some s ∧ s.job.path.key = k ∧ text = Text.Utf8.decodeLossy s.job.bytes ∧
      s.finding w.disk = some m ∧ (w.entry? s.job.path).isSome
  | .dated m => ∃ p st, w.disk.stat p = .ok (some st) ∧ st.modified = m
  | .cutShort k =>
    (∃ r l, a.refresh? = some r ∧ r.look? = some l ∧ l.path.key = k ∧ r.fails w.disk = true) ∨
    ∃ s, a.save? = some s ∧ s.job.path.key = k ∧ s.job.waiters.isSome ∧ s.fails w.disk = true
  | .registered k => ∃ seat, w.settles a seat ∧ seat.path.key = k
  | .created k => w.entries.get? k = none
  | .orphaned _ | .shutsDown => False

/-- the marks that the end of a cancelled task leaves -/
def Forgone (w : World) (a : Activity) : Mark → Prop
  | .cutShort k =>
    (∃ r l, a.refresh? = some r ∧ r.look? = some l ∧ l.path.key = k) ∨
    ∃ s, a.save? = some s ∧ s.job.path.key = k ∧ s.job.waiters.isSome
  | .orphaned k =>
    ∃ p q τ e, a.refresh? = some (.queued p q τ) ∧ p.key = k ∧ w.entry? p = some e ∧ e.pendingQuery = some q
  | .observed .. | .committed .. | .dated _ | .created _ | .registered _ | .shutsDown => False

end LiveFiles.Engine
