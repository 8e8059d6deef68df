/-
The sections of a reconciliation as chains of effects, one lemma for each function of the engine. The last two say it of
a whole section (`runs_stepRefresh`) and of the end of a reconciliation that is abandoned (`does_dropRefresh`), both
given that the marks which it may leave are allowed.
-/
import LiveFiles.Proofs.Marks
import LiveFiles.Proofs.Ripples

namespace LiveFiles.Engine

variable {E : Mark → Prop} {w : World} {s : Stake}

/-- a reconciliation seen by the protocol, as part of a task with a stake -/
def Refresh.view (s : Stake) : View Refresh := fun r => (r.awaits, { s with errand := r.errand })

theorem does_endLook {look : Look} {d : Option Instant} (hs : s.errand = .look look d)
    (h : (w.entry? look.path).isSome → E (.cutShort look.path.key)) :
    Does E w s ((w.giveIf look.signal).giveBack look.turn) { s with errand := .idle } :=
  .effect (.endLook hs h) (by simp) ((ripple_giveIf w _).trans (ripple_giveBack _ _))

theorem runs_endLook {look : Look} {d : Option Instant} (hs : s.errand = .look look d)
    (h : (w.entry? look.path).isSome → E (.cutShort look.path.key)) (r : Refreshed) :
    Runs E w s (Refresh.view s) { s with errand := .idle } (w.endLook look r) := .ended (does_endLook hs h)

theorem runs_conclude {look : Look} {d : Option Instant} (hs : s.errand = .look look d) {o : Observation}
    (h : E (.observed look.path.key o)) :
    Runs E w s (Refresh.view s) { s with errand := .idle } (w.conclude look o) := by
  unfold World.conclude
  cases he : w.entry? look.path with
  | none => exact runs_endLook hs (by simp [he]) _
  | some e =>
    have hc := Effect.conclude (E := E) (c := w.core) o hs he h
    cases hx : Entry.commit { e with runningSignal := none } o with
    | mk e' news =>
      rw [hx] at hc
      simp only [hx]
      have h1 : Ripple w ((w.setEntry look.path e').giveIf look.signal) :=
        (ripple_setEntry w _ e').trans (ripple_giveIf _ look.signal)
      cases news with
      | true => exact .ended (.effect hc (by simp) ((h1.trans (ripple_broadcast _ _)).trans (ripple_giveBack _ _)))
      | false => exact .ended (.effect hc (by simp) (h1.trans (ripple_giveBack _ _)))

/-- a request for a reconciliation: the entry waits for a signal, and the world has changed in nothing else -/
theorem beginQuery_eq (w : World) (e : Entry) : ∃ signal signals,
    w.beginQuery e = (w.nextQuery, { e with pendingQuery := some w.nextQuery, pendingSignal := some signal },
      { w with signals, nextQuery := w.nextQuery + 1 }) ∧
    ((e.pendingQuery.isSome ∧ e.pendingSignal = some signal ∧ signals = w.signals) ∨
      ((e.pendingQuery = none ∨ e.pendingSignal = none) ∧ signal = w.signals.next ∧ signals = w.signals.fresh.2)) := by
  unfold World.beginQuery
  split
  · rename_i h
    refine ⟨_, _, rfl, Or.inr ⟨by simpa using h, rfl, rfl⟩⟩
  · rename_i h
    simp only [Bool.or_eq_true, Option.isNone_iff_eq_none, not_or] at h
    obtain ⟨x, hx⟩ := Option.ne_none_iff_exists'.1 h.2
    exact ⟨x, w.signals, by simp [hx], Or.inl ⟨Option.isSome_iff_ne_none.2 h.1, hx, rfl⟩⟩

/-- A reconciliation is requested of an entry and put in line. `e` is the entry as it was, `e₁` differs in what the
protocol does not see. -/
theorem does_ask (hw : w.Reserved) (hs : s.errand = .idle) {p : Path} {e e₁ : Entry}
    (he : w.entry? p = some e ∨ w.entry? p = none ∧ e = { spelling := p } ∧ E (.created p.key))
    (hb : e₁.bare = e.bare)
    (hr : ∀ id, e₁.registered.contains id = true → e.registered.contains id = true) :
    Does E w s (((w.beginQuery e₁).2.2.setEntry p (w.beginQuery e₁).2.1).enlist p).2
      { s with errand := .query p (w.beginQuery e₁).1
                (((w.beginQuery e₁).2.2.setEntry p (w.beginQuery e₁).2.1).enlist p).1 } := by
  obtain ⟨signal, signals, hq, hsig⟩ := beginQuery_eq w e₁
  rw [hq]
  obtain ⟨-, -, -, hpq, hps, -, -⟩ := Entry.bare_eq hb
  have hask : Asked w.core e { e₁ with pendingQuery := some w.nextQuery, pendingSignal := some signal } signal signals :=
    ⟨congrArg (fun e : Entry => { e with pendingQuery := some w.nextQuery, pendingSignal := some signal }) hb, hr,
      by rwa [hpq, hps] at hsig⟩
  refine .effect (.ask p e _ signal signals hs he hask) rfl ?_
  have h1 : Ripple w ({ w with signals, nextQuery := w.nextQuery + 1 }.setEntry p
      { e₁ with pendingQuery := some w.nextQuery, pendingSignal := some signal }) := by
    refine .silent (.refl _) (fun _ h => h) (fun x hx => ?_) (.refl _)
    rcases hsig with ⟨-, -, e⟩ | ⟨-, -, e⟩
    · exact e ▸ hx
    · exact (show w.signals.fresh.2.isGiven x = true from e ▸ hx)
  exact h1.trans (ripple_enlist (hw.congr (by rfl) (by rfl)) p)

theorem runs_requestRefresh (hw : w.Reserved) (hs : s.errand = .idle) (p : Path) :
    Runs E w s (Refresh.view s) { s with errand := .idle } (w.requestRefresh p) := by
  unfold World.requestRefresh
  cases he : w.entry? p with
  | none => exact .ended (.effect (.rest (by rw [hs]; rfl)) rfl (.refl w))
  | some e => exact .go (does_ask hw hs (Or.inl he) rfl fun _ h => h)

theorem does_withdraw {p : Path} {q : QueryId} {τ : Turn} (hs : s.errand = .query p q τ)
    (h : (∃ e, w.entry? p = some e ∧ e.pendingQuery = some q) → E (.orphaned p.key)) :
    Does E w s (w.giveBack τ) { s with errand := .idle } :=
  .effect (.withdraw hs h) (by simp) (ripple_giveBack w τ)

theorem runs_enterRefresh {p : Path} {q : QueryId} {τ : Turn} (hs : s.errand = .query p q τ)
    (hτ : w.turns.holds τ = true) : Runs E w s (Refresh.view s) { s with errand := .idle } (w.enterRefresh p q τ) := by
  unfold World.enterRefresh
  cases he : w.entry? p with
  | none => exact .ended (does_withdraw hs (by simp [he]))
  | some e =>
    dsimp only
    split
    · rename_i hq
      exact .ended (does_withdraw hs (by simp [he, hq]))
    · rename_i hq
      have hd : Does E w s
          (w.setEntry p { e with pendingQuery := none, pendingSignal := none, runningSignal := e.pendingSignal })
          { s with errand := .look ⟨p, τ, e.pendingSignal, e.contents.isSome, e.modified⟩ none } :=
        .effect (.take hs hτ he (not_not.1 hq)) rfl (ripple_setEntry w p _)
      exact .after hd (runs_beginCall (fun _ => rfl) _ _)

/-- reading begins -/
theorem runs_beginRead {look : Look} {d : Option Instant} (hs : s.errand = .look look d) (d' : Option Instant)
    {k : Call → Refresh} (hk : ∀ c, Refresh.view s (k c) = (Call.awaits c, { s with errand := .look look d' }))
    (h : ∀ m, d' = some m → d = some m ∨ E (.dated m)) (op : DiskOp) :
    Runs E w s (Refresh.view s) { s with errand := .idle } (w.beginCall (α := Refreshed) op look.path k) :=
  .after (.effect (.date hs h) rfl (.refl w)) (runs_beginCall hk op _)

theorem runs_haveLooked {look : Look} (hs : s.errand = .look look none) {x : Except Failure (Option FileStat)}
    (ho : ∀ o, (Refresh.looking look .due).finding w.disk = some o → E (.observed look.path.key o))
    (hd : ∀ p st, w.disk.stat p = .ok (some st) → E (.dated st.modified))
    (hc : (Refresh.looking look .due).fails w.disk = true → E (.cutShort look.path.key))
    (hx : w.disk.stat look.path = x) {w' : World} (hw : Does E w s w' s) :
    Runs E w s (Refresh.view s) { s with errand := .idle } (w'.haveLooked look x) := by
  refine .after hw ?_
  unfold World.haveLooked
  match x with
  | .error f => exact runs_endLook hs (fun _ => hc (by simp [Refresh.fails, hx, Except.toOption])) _
  | .ok none => exact runs_conclude hs (ho _ (by simp [Refresh.finding, hx]))
  | .ok (some st) =>
    dsimp only
    split
    · rename_i hl
      exact runs_conclude hs (ho _ (by simp only [Refresh.finding, hx, hl, if_true]))
    · exact runs_beginRead hs _ (fun _ => rfl) (fun m e => Or.inr (Option.some.inj e ▸ hd _ _ hx)) _

theorem runs_haveRead {look : Look} {m : Instant} (hs : s.errand = .look look (some m)) {x : Except Failure String}
    (ho : ∀ o, (Refresh.reading look m .due).finding w.disk = some o → E (.observed look.path.key o))
    (hx : w.disk.read look.path = x) {w' : World} (hw : Does E w s w' s) :
    Runs E w s (Refresh.view s) { s with errand := .idle } (w'.haveRead look m x) := by
  refine .after hw ?_
  unfold World.haveRead
  match x with
  | .ok text => exact runs_conclude hs (ho _ (by simp [Refresh.finding, hx]))
  | .error f => exact runs_beginRead hs none (fun _ => rfl) (by simp) _

theorem runs_haveLookedAgain {look : Look} (hs : s.errand = .look look none) {f : Failure}
    {x : Except Failure (Option FileStat)}
    (ho : ∀ o, (Refresh.lookingAgain look f .due).finding w.disk = some o → E (.observed look.path.key o))
    (hc : (Refresh.lookingAgain look f .due).fails w.disk = true → E (.cutShort look.path.key))
    (hx : w.disk.stat look.path = x) {w' : World} (hw : Does E w s w' s) :
    Runs E w s (Refresh.view s) { s with errand := .idle } (w'.haveLookedAgain look f x) := by
  refine .after hw ?_
  unfold World.haveLookedAgain
  match x with
  | .error f' => exact runs_endLook hs (fun _ => hc (by simp [Refresh.fails, hx])) _
  | .ok none => exact runs_conclude hs (ho _ (by simp [Refresh.finding, hx]))
  | .ok (some _) => exact runs_endLook hs (fun _ => hc (by simp [Refresh.fails, hx])) _

/-- One section of a reconciliation, given that the marks which it may leave are allowed. -/
theorem runs_stepRefresh {r : Refresh} (hs : s.errand = r.errand)
    (ho : ∀ l o, r.look? = some l → r.finding w.disk = some o → E (.observed l.path.key o))
    (hd : ∀ p st, w.disk.stat p = .ok (some st) → E (.dated st.modified))
    (hc : ∀ l, r.look? = some l → r.fails w.disk = true → E (.cutShort l.path.key)) :
    Runs E w s (Refresh.view s) { s with errand := .idle } (w.stepRefresh r) := by
  have hself : { s with errand := r.errand } = s := by rw [← hs]
  match r with
  | .queued p q τ =>
    simp only [World.stepRefresh]
    split
    · rename_i h
      exact runs_enterRefresh hs h
    · rename_i h
      exact .wait (by simp only [Refresh.view, hself]; exact .refl w s) (waits_turn (by simpa using h))
  | .looking look (.held g) => exact runs_atGate (fun c => Prod.ext rfl hself) g
  | .looking look .due => exact runs_haveLooked hs (fun o => ho look o rfl) hd (hc look rfl) rfl (does_leaveDisk w _ s)
  | .reading look m (.held g) => exact runs_atGate (fun c => Prod.ext rfl hself) g
  | .reading look m .due => exact runs_haveRead hs (fun o => ho look o rfl) rfl (does_leaveDisk w _ s)
  | .lookingAgain look f (.held g) => exact runs_atGate (fun c => Prod.ext rfl hself) g
  | .lookingAgain look f .due =>
    exact runs_haveLookedAgain hs (fun o => ho look o rfl) (hc look rfl) rfl (does_leaveDisk w _ s)

/-- the end of a reconciliation that is abandoned -/
theorem does_dropRefresh {r : Refresh} (hs : s.errand = r.errand)
    (hq : ∀ p q τ e, r = .queued p q τ → w.entry? p = some e → e.pendingQuery = some q → E (.orphaned p.key))
    (hc : ∀ l, r.look? = some l → E (.cutShort l.path.key)) :
    Does E w s (w.dropRefresh r) { s with errand := .idle } := by
  have hlook : ∀ look d, s.errand = .look look d → E (.cutShort look.path.key) →
      Does E w s (((w.leaveDisk look.path).giveIf look.signal).giveBack look.turn) { s with errand := .idle } :=
    fun look d hs h => (does_leaveDisk w look.path s).trans (does_endLook hs fun _ => h)
  match r with
  | .queued p q τ => exact does_withdraw hs fun ⟨e, he, hp⟩ => hq p q τ e rfl he hp
  | .looking look c => exact hlook look none hs (hc look rfl)
  | .reading look m c => exact hlook look (some m) hs (hc look rfl)
  | .lookingAgain look f c => exact hlook look none hs (hc look rfl)

end LiveFiles.Engine
