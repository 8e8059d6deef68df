/-
The sections of a write as chains of effects, one lemma for each function of the engine: `runs_stepSave` for a section,
`does_dropSave` for the end of a write that is abandoned.
-/
import LiveFiles.Proofs.Marks
import LiveFiles.Proofs.Ripples

namespace LiveFiles.Engine

variable {E : Mark → Prop} {w w' : World} {s : Stake}

/-- a write seen by the protocol, as part of a task with a stake -/
def Save.view (s : Stake) : View Save := fun x => (x.awaits, { s with errand := x.errand })

/-- a request to write changes turns and entries, and nothing else -/
theorem frame_requestSave (w : World) (p : Path) (bytes : ByteArray) :
    ∃ turns entries, (w.requestSave p bytes).1 = { w with turns, entries } := by
  unfold World.requestSave
  split
  · exact ⟨_, _, rfl⟩
  · split
    · split <;> exact ⟨_, _, rfl⟩
    · exact ⟨_, _, rfl⟩

theorem runs_requestSave (hw : w.Reserved) (hs : s.errand = .idle) (p : Path) (bytes : ByteArray) :
    Runs E w s (Save.view s) { s with errand := .idle } (w.requestSave p bytes) := by
  have hrest : Does E w s w { s with errand := .idle } := .effect (.rest (by rw [hs]; rfl)) rfl (.refl w)
  unfold World.requestSave
  split
  · exact .ended hrest
  cases he : w.entry? p with
  | none =>
    dsimp only
    split
    · exact .ended hrest
    · exact .go (.effect (.save p bytes hs) rfl (ripple_enlist hw p))
  | some e =>
    exact .go (.effect (.revoke p bytes e hs he) rfl
      ((ripple_setEntry w p _).trans (ripple_enlist (hw.congr (by rfl) (by rfl)) p)))

theorem does_endSave {job : SaveJob} {b : Bool} (hs : s.errand = .save job b)
    (h : (w.entry? job.path).isSome → job.waiters.isSome → E (.cutShort job.path.key)) :
    Does E w s ((w.giveBack job.turn).giveIf job.waiters) { s with errand := .idle } := by
  refine .effect (.endSave hs h) ?_ ((ripple_giveBack w _).trans (ripple_giveIf _ _))
  simp only [core_giveIf, core_giveBack]
  cases job.waiters <;> rfl

theorem does_forgetIf (w : World) (b : Bool) (p : Path) (s : Stake) :
    Does E w s (if b then w.forgetRevoked p else w) s := by
  cases b with
  | true => exact .effect (.forget p.key) rfl (.rest rfl rfl rfl (.refl _))
  | false => exact .refl w s

theorem runs_failSave {job : SaveJob} {b : Bool} (hs : s.errand = .save job b)
    (h : (w.entry? job.path).isSome → job.waiters.isSome → E (.cutShort job.path.key)) (e : Problem) :
    Runs E w s (Save.view s) { s with errand := .idle } (w.failSave job e) := by
  have hd := does_endSave hs h
  unfold World.failSave
  refine .ended (hd.trans ?_)
  split
  · exact (does_forgetIf _ true _ _).then (core_inBackground _ _) (ripple_inBackground _ _ (by simp))
  · exact .refl _ _

/-- The end of a write whose effect, up to revoked signals, is known: `w₁` is the world with the entry as it is to be. -/
theorem does_closeSave {w₁ : World} {job : SaveJob} {s' : Stake} (hr : Ripple w w₁)
    (h : Effect E w.core s ((w₁.core.giveIf job.waiters).giveBack job.turn) s') (x : Option Snapshot) :
    Does E w s
      (World.giveBack
        (match x with
          | some x => (if job.revoked then (w₁.giveIf job.waiters).forgetRevoked job.path else w₁.giveIf job.waiters).broadcast x
          | none => if job.revoked then (w₁.giveIf job.waiters).forgetRevoked job.path else w₁.giveIf job.waiters)
        job.turn) s' := by
  have hr₁ : Ripple w (w₁.giveIf job.waiters) := hr.trans (ripple_giveIf w₁ _)
  have h1 : Ripple w (if job.revoked then (w₁.giveIf job.waiters).forgetRevoked job.path else w₁.giveIf job.waiters) :=
    hr₁.trans (does_forgetIf (E := fun _ => False) _ job.revoked job.path s).ripple
  -- on the core, forgetting may as well come after the turn is given back
  have hc : ∀ b : Bool, Effects E w.core s
      ((if b then (w₁.core.giveIf job.waiters).forget job.path.key else w₁.core.giveIf job.waiters).giveBack job.turn) s' := by
    intro b
    cases b with
    | true => exact .tail (.single h) (.forget job.path.key)
    | false => exact .single h
  have hcore : (if job.revoked then (w₁.giveIf job.waiters).forgetRevoked job.path else w₁.giveIf job.waiters).core =
      if job.revoked then (w₁.core.giveIf job.waiters).forget job.path.key else w₁.core.giveIf job.waiters := by
    rw [← core_giveIf]
    split <;> rfl
  cases x with
  | none =>
    refine ⟨?_, h1.trans (ripple_giveBack _ _)⟩
    rw [core_giveBack, hcore]
    exact hc _
  | some x =>
    refine ⟨?_, (h1.trans (ripple_broadcast _ x)).trans (ripple_giveBack _ _)⟩
    rw [core_giveBack, core_broadcast, hcore]
    exact hc _

theorem runs_commitSave {job : SaveJob} {m : Instant} (hs : s.errand = .save job true)
    (h : (w.entry? job.path).isSome → E (.committed job.path.key (Text.Utf8.decodeLossy job.bytes) m)) :
    Runs E w s (Save.view s) { s with errand := .idle } (w.commitSave job m) := by
  refine .ended ?_
  cases he : w.entry? job.path with
  | none =>
    simp only [Option.map_none]
    exact does_closeSave (.refl w) (.endSave hs fun h => by rw [show w.core.entries.get? _ = none from he] at h; cases h) none
  | some e =>
    simp only [Option.map_some]
    exact does_closeSave (ripple_setEntry w _ _) (.commit m hs he (h (by simp [he]))) (some _)

theorem runs_stepSave {x : Save} (hs : s.errand = x.errand)
    (ho : ∀ m, x.finding w.disk = some m → (w.entry? x.job.path).isSome →
      E (.committed x.job.path.key (Text.Utf8.decodeLossy x.job.bytes) m))
    (hc : x.job.waiters.isSome → x.fails w.disk = true → E (.cutShort x.job.path.key)) :
    Runs E w s (Save.view s) { s with errand := .idle } (w.stepSave x) := by
  have hself : { s with errand := x.errand } = s := by rw [← hs]
  match x with
  | .queued job =>
    simp only [World.stepSave]
    split
    · rename_i h
      have hd : Does E w s w { s with errand := .save job true } := .effect (.enter hs h) rfl (.refl w)
      exact .after hd (runs_beginCall (fun _ => rfl) _ _)
    · rename_i h
      exact .wait (by simp only [Save.view, hself]; exact .refl w s) (waits_turn (by simpa using h))
  | .writing job (.held g) => exact runs_atGate (fun c => Prod.ext rfl hself) g
  | .writing job .due =>
    simp only [World.stepSave]
    have hd : Does E w s { w with disk := (w.disk.write job.path job.bytes).1 } s :=
      .aside rfl (.rest rfl rfl rfl (Disk.later_write w.disk job.path job.bytes))
    refine .after (hd.trans (does_leaveDisk _ job.path s)) ?_
    unfold World.haveWritten
    split
    · rename_i f hf
      exact runs_failSave hs (fun _ hw => hc hw (by simp [Save.fails, hf, Except.toOption])) _
    · exact runs_beginCall (fun c => Prod.ext rfl hself) _ _
  | .looking job (.held g) => exact runs_atGate (fun c => Prod.ext rfl hself) g
  | .looking job .due =>
    simp only [World.stepSave]
    refine .after (does_leaveDisk w job.path s) ?_
    unfold World.haveLookedUp
    split
    · rename_i f hf
      exact runs_failSave hs (fun _ hw => hc hw (by simp [Save.fails, hf])) _
    · rename_i hf
      exact runs_failSave hs (fun _ hw => hc hw (by simp [Save.fails, hf])) _
    · rename_i st hf
      exact runs_commitSave hs (ho _ (by simp [Save.finding, hf]))

/-- the end of a write that is abandoned -/
theorem does_dropSave {x : Save} (hs : s.errand = x.errand)
    (hc : x.job.waiters.isSome → E (.cutShort x.job.path.key)) :
    Does E w s (w.dropSave x) { s with errand := .idle } := by
  match x with
  | .queued job => exact does_endSave hs fun _ => hc
  | .writing job _ => exact (does_leaveDisk w job.path s).trans (does_endSave hs fun _ => hc)
  | .looking job _ => exact (does_leaveDisk w job.path s).trans (does_endSave hs fun _ => hc)

end LiveFiles.Engine
