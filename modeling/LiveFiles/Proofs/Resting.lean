/-
When a burst comes to rest. If all of its calls are made by some state, whoever can go on gets the floor sooner or later and no gate
stays closed to the calls, everybody about the path gets to an end (`FairCrowd`).
- `Crowd.ahead_move`: a call stays where it is or comes nearer to settling; `FairCrowd.onward`: sooner or later it does.
- `FairCrowd.settle`, `FairCrowd.deserted`: so all of the calls settle, the first reconciliation has ended by then, and they end.
- **`FairCrowd.comes_to_rest`**: from some state on the run is a burst, in which everything has come to rest.
- `FairCrowd.synchronizes_once`: so the calls have shared one synchronization, and all of them have returned.
- `fairCrowd_gathering`: a run in which two subscribers watch a file at once is such a run.
-/
import LiveFiles.Proofs.Bookkeeping
import LiveFiles.Proofs.Dispersal
import LiveFiles.Proofs.Dues
import LiveFiles.Proofs.Vigilance

namespace LiveFiles.Engine

variable {w w' : World} {m : Move} {i j : TaskId} {ph : Phase} {x : SubscriberId} {p q : Path}

/-! ## What a call to watch has ahead of it -/

/-- how many phases of a reconciliation are left, at most -/
def Refresh.ahead : Refresh → Nat
  | .queued .. => 7
  | .looking _ (.held _) => 6
  | .looking _ .due => 5
  | .reading _ _ (.held _) => 4
  | .reading _ _ .due => 3
  | .lookingAgain _ _ (.held _) => 2
  | .lookingAgain _ _ .due => 1

/-- how many phases are left until a call to watch settles, at most -/
def Activity.ahead : Activity → Nat
  | .starting _ => 9
  | .joining .. => 8
  | .synchronizing _ r => r.ahead
  | _ => 0

theorem Refresh.ahead_looking (l : Look) (c : Call) : (Refresh.looking l c).ahead < 7 := by
  cases c <;> simp [ahead]

theorem Refresh.ahead_reading (l : Look) (date : Instant) (c : Call) : (Refresh.reading l date c).ahead < 5 := by
  cases c <;> simp [ahead]

theorem Refresh.ahead_lookingAgain (l : Look) (f : Failure) (c : Call) : (Refresh.lookingAgain l f c).ahead < 3 := by
  cases c <;> simp [ahead]

theorem Refresh.ahead_lt (r : Refresh) : r.ahead < 8 := by
  cases r with
  | queued => simp [ahead]
  | looking l c => exact (ahead_looking l c).trans (by decide)
  | reading l date c => exact (ahead_reading l date c).trans (by decide)
  | lookingAgain l f c => exact (ahead_lookingAgain l f c).trans (by decide)

theorem Refresh.ahead_pos (r : Refresh) : 0 < r.ahead := by
  cases r with
  | queued => simp [ahead]
  | looking l c | reading l date c | lookingAgain l f c => cases c <;> simp [ahead]

/-- a reconciliation that is not held up has less ahead of it after its section -/
theorem ahead_stepRefresh {seat : Seat} {r r' : Refresh} (hfree : ¬ HeldUp w (.synchronizing seat r))
    (hb : (w.stepRefresh r).2.next = some r') : r'.ahead < r.ahead := by
  have hopen : ∀ g, Activity.awaits (.synchronizing seat r) = .gate g → w.disk.isOpen g = true := fun g hg =>
    Bool.eq_true_of_not_eq_false fun hclosed => hfree ((heldUp_gate hg).2 hclosed)
  cases onward_stepRefresh hb with
  | inLine q y τ =>
    have hholds : w.turns.holds τ = true := Bool.eq_true_of_not_eq_false fun hno =>
      hfree ((heldUp_turn (i := τ.id) rfl).2 fun σ hσ _ => by
        cases hσ
        exact hno)
    rw [World.stepRefresh, if_pos hholds, World.enterRefresh] at hb
    split at hb
    · cases hb
    · split at hb
      · cases hb
      · obtain ⟨c, hc⟩ := next_beginCall (α := Refreshed) _ .stat q _
        cases hc.symm.trans hb
  | taken q y τ l c hp hτ => exact Refresh.ahead_looking l c
  | looking l g c | reading l date g c | lookingAgain l f g c =>
    rw [World.stepRefresh, World.atGate, if_pos (hopen g rfl)] at hb
    cases hb
    simp [Refresh.ahead]
  | reads l st c hst hnew => exact Refresh.ahead_reading l _ c
  | fails l date f c => exact Refresh.ahead_lookingAgain l f c

/-- a call to watch that settles is registered once the reconciliations that it waits for have ended -/
theorem stepSettling_of_fetched {f : Option StoredFile} {e : Entry} {seat : Seat} {signal : Option SignalId}
    (he : w.entry? seat.path = some e) (hdone : e.Fetched f) (hgiven : ∀ y, signal = some y → w.signals.isGiven y = true) :
    w.stepSettling seat signal = w.register seat := by
  have hgo : (signal.any fun y => !w.signals.isGiven y) = false := by
    cases signal with
    | none => rfl
    | some y => simp [hgiven y rfl]
  have hnone : e.unsettled w.signals = none := by
    simp [Entry.unsettled, hdone.pending, hdone.running, hdone.revoked]
  rw [World.stepSettling, hgo, if_neg Bool.false_ne_true, he, Option.bind_some, hnone]

/-- then it ends -/
theorem ended_of_fetched {f : Option StoredFile} {e : Entry} {seat : Seat} {signal : Option SignalId} (hw : Wf w)
    (hcarry : w.carried? m = some (i, .settling seat signal)) (hk : seat.path.key = p.key) (he : w.entry? p = some e)
    (hdone : e.Fetched f) (hgiven : ∀ y, signal = some y → w.signals.isGiven y = true) :
    (w.move m).tasks.phase? i = none := by
  have hentry : World.entry? (floorTo w i) seat.path = some e := (entry?_floorTo w i seat.path).trans ((entry?_congr hk).trans he)
  have hsignals : (floorTo w i).signals = w.signals := congrArg Core.signals (core_floorTo w i)
  have hregister : (floorTo w i).step (.settling seat signal) = (floorTo w i).register seat :=
    stepSettling_of_fetched hentry hdone fun y hy => (congrArg (Signals.isGiven · y) hsignals).trans (hgiven y hy)
  have hafter := phase?_of_carried hw hcarry
  rw [hregister, (register_tracked hentry).1] at hafter
  exact Option.map_eq_none_iff.1 hafter

/-- the task of the call that a move makes -/
def World.taskOf (w : World) (moves : Nat → Move) (d : Nat) : TaskId := (w.trace moves d).tasks.next

/-- what a task has ahead of it, if it is there -/
def World.ahead (w : World) (i : TaskId) : Nat := (w.tasks.phase? i).elim 0 fun ph => ph.activity.ahead

theorem ahead_of_phase {ph : Phase} (hph : w.tasks.phase? i = some ph) : w.ahead i = ph.activity.ahead := by
  rw [World.ahead, hph]
  rfl

theorem ahead_of_none (hno : w.tasks.phase? i = none) : w.ahead i = 0 := by
  rw [World.ahead, hno]
  rfl

section Trace

variable {policy : WritePolicy} {moves : Nat → Move} {n l : Nat} {a b : Activity} {d : Nat}
  (h : ∀ n, moves n ≠ .call .shutDown) (hb : Crowd (World.start policy) moves p n l)
include h hb

/-- **A call to watch that is not held up has less ahead of it after its section**, until it settles. -/
theorem Crowd.less_ahead (hnj : n ≤ j) (hjl : j < l)
    (hcarry : ((World.start policy).trace moves j).carried? (moves j) = some (i, a)) (hwatch : Watching q x a)
    (hk : q.key = p.key) (hpos : 0 < a.ahead) (hfree : ¬ HeldUp ((World.start policy).trace moves j) a)
    (hnext : ((floorTo ((World.start policy).trace moves j) i).step a).2.next = some b) : b.ahead < a.ahead := by
  have hfree' : ¬ HeldUp (floorTo ((World.start policy).trace moves j) i) a := fun hheld => hfree ((heldUp_floorTo _ i).1 hheld)
  obtain ⟨u, -, hs, -, hu⟩ := carried?_eq_some.1 hcarry
  have hphase := phase?_of_served hs
  cases hwatch with
  | starting =>
    simp only [World.step, World.begin, World.requestWatch] at hnext
    split at hnext <;> cases hnext
    simp [Activity.ahead]
  | joining joined other =>
    cases hb.joins_at_once h hnj hjl.le hphase hu hk
    rcases stepJoining_next hnext with rfl | ⟨r, rfl⟩ | ⟨e, y, he, hy⟩
    · simp [Activity.ahead]
    · exact r.ahead_lt
    · have hentry : World.entry? ((World.start policy).trace moves j) p = some e :=
        (entry?_congr hk).symm.trans ((entry?_floorTo _ i q).symm.trans he)
      cases hy.symm.trans (hb.unseated h hnj hjl.le hphase hu hk hentry)
  | synchronizing joined r hr =>
    obtain ⟨e, he, hpos, hreg, hone, hfetch⟩ := fetches_of_carried (running_of_trace policy h j) (hb.gathering h hnj hjl.le)
      (hr ▸ hk) hcarry (hb.file j hnj hjl.le) (hb.calls j hnj hjl)
    cases hfetch with
    | onward r' e' hnext' =>
      cases (step_synchronizing_next _ hnext').2.symm.trans hnext
      exact ahead_stepRefresh hfree' hnext'
    | ends news e' hend =>
      rw [step_synchronizing_ended _ hend] at hnext
      cases hnext
      exact r.ahead_pos
  | settling joined signal => cases hpos
  | failing turn joined e => cases hpos

/-- a call to watch that settles has nothing ahead of it -/
theorem Crowd.settles (hnj : n ≤ j) (hjl : j < l)
    (hcarry : ((World.start policy).trace moves j).carried? (moves j) = some (i, a)) (hwatch : Watching q x a)
    (hk : q.key = p.key) (hzero : a.ahead = 0)
    (hnext : ((floorTo ((World.start policy).trace moves j) i).step a).2.next = some b) : b.ahead = 0 := by
  obtain ⟨u, -, hs, -, hu⟩ := carried?_eq_some.1 hcarry
  cases hwatch with
  | starting => cases hzero
  | joining joined other => cases hzero
  | synchronizing joined r hr => exact absurd hzero r.ahead_pos.ne'
  | settling joined signal =>
    rcases stepSettling_cases (floorTo ((World.start policy).trace moves j) i) ⟨q, x, joined⟩ signal with
      hwait | ⟨e, y, -, -, hgo⟩ | ⟨-, hregister⟩
    · rw [World.step, hwait] at hnext
      cases hnext
      rfl
    · rw [World.step, hgo] at hnext
      cases hnext
      rfl
    · rw [World.step, hregister, World.register] at hnext
      split at hnext <;> cases hnext
  | failing turn joined e => exact absurd hk ((hb.gathering h hnj hjl.le).not_tearing (phase?_of_served hs) hu)

omit h in
/-- no two calls are at the first reconciliation -/
theorem Crowd.lead_alone (h : ∀ n, moves n ≠ .call .shutDown) (hnj : n ≤ j) (hjl : j ≤ l) {ph ph' : Phase} {seat seat' : Seat}
    {r r' : Refresh} {i i' : TaskId} (hph : ((World.start policy).trace moves j).tasks.phase? i = some ph)
    (hact : ph.activity = .synchronizing seat r) (hk : r.path.key = p.key)
    (hph' : ((World.start policy).trace moves j).tasks.phase? i' = some ph') (hact' : ph'.activity = .synchronizing seat' r')
    (hk' : r'.path.key = p.key) : i = i' := by
  have hR := running_of_trace policy h j
  cases (hb.gathering h hnj hjl).stage with
  | before hno =>
    have hseat : seat.path = r.path := by
      have hcoh := hR.coherent i ph hph seat (by rw [hact]; rfl)
      rw [hact] at hcoh
      exact (Option.some.inj hcoh).symm
    obtain ⟨e, he, -⟩ := hR.counted (p := p) hph (by rw [hact, ← hk, ← hseat]; rfl)
    cases hno.symm.trans he
  | fetching i₀ seat₀ r₀ ph₀ e hph₀ hact₀ hone =>
    exact (hone i ph seat r hph hact hk).trans (hone i' ph' seat' r' hph' hact' hk').symm
  | fetched e hnobody => exact absurd hk (hnobody i ph seat r hph hact)

/-- the call at the first reconciliation is the only one that has a turn -/
theorem Crowd.holds (hnj : n ≤ j) (hjl : j ≤ l) {ph : Phase} {seat : Seat} {r : Refresh} {τ : Turn}
    (hph : ((World.start policy).trace moves j).tasks.phase? i = some ph) (hact : ph.activity = .synchronizing seat r)
    (hk : r.path.key = p.key) (hτ : r.errand.turn? = some τ) : ((World.start policy).trace moves j).turns.holds τ = true := by
  have hw := (reachable_trace policy moves j).wf
  have hkeyed : ∀ {i' ph' σ}, ((World.start policy).trace moves j).tasks.phase? i' = some ph' →
      ph'.activity.stake.errand.turn? = some σ → ∃ q, ph'.activity.at? = some q ∧ σ.key = q.key := by
    intro i' ph' σ hph' hσ
    obtain ⟨q, hq, hpath⟩ := Activity.operation?_of_turn hσ
    refine ⟨q, Activity.at?_of_operation hq, ?_⟩
    exact hw.sound.keyed i' σ (by rw [stakes_of_phase hph']; exact hσ) q (by rw [stakes_of_phase hph']; exact hpath)
  have hturn : ph.activity.stake.errand.turn? = some τ := by
    rw [hact]
    exact hτ
  refine hw.sound.turns.holds_of_alone (i := i) ?_ ?_
  · rw [held, stakes_of_phase hph]
    exact hturn
  · intro i' σ hσ hsame
    have hτk : τ.key = p.key := by
      obtain ⟨q, hq, hkey⟩ := hkeyed hph hturn
      rw [hact] at hq
      cases hq
      exact hkey.trans hk
    cases hph' : ((World.start policy).trace moves j).tasks.phase? i' with
    | none =>
      rw [held, stakes_of_none hph'] at hσ
      cases hσ
    | some ph' =>
      rw [held, stakes_of_phase hph'] at hσ
      obtain ⟨q, hq, hkey⟩ := hkeyed hph' hσ
      have hqk : q.key = p.key := hkey.symm.trans (hsame.trans hτk)
      obtain ⟨-, -, y, -, -, -, hwatch⟩ := hb.watching hnj hjl hph' hq hqk
      generalize ha : ph'.activity = a' at hwatch hσ
      cases hwatch with
      | starting | joining => cases hσ
      | synchronizing joined r' hr => exact hb.lead_alone h hnj hjl hph' ha (hr ▸ hqk) hph hact hk
      | settling joined signal => cases signal <;> cases hσ
      | failing turn joined e => exact absurd hqk ((hb.gathering h hnj hjl).not_tearing hph' ha)

/-- **A call of a crowd stays where it is, or comes nearer to settling**, or has come to that. -/
theorem Crowd.ahead_move (hd : d ∈ watchCalls moves p n j) (hjl : j < l) :
    ((World.start policy).trace moves (j + 1)).tasks.phase? ((World.start policy).taskOf moves d) =
        ((World.start policy).trace moves j).tasks.phase? ((World.start policy).taskOf moves d) ∨
      ((World.start policy).trace moves (j + 1)).ahead ((World.start policy).taskOf moves d) <
        ((World.start policy).trace moves j).ahead ((World.start policy).taskOf moves d) ∨
      ((World.start policy).trace moves j).ahead ((World.start policy).taskOf moves d) = 0 ∧
        ((World.start policy).trace moves (j + 1)).ahead ((World.start policy).taskOf moves d) = 0 := by
  obtain ⟨hnd, hdj, q, x, hm, hk⟩ := mem_watchCalls.1 hd
  rcases watching_trace hm hdj with ⟨ph, hph, -, hwatch⟩ | ⟨hid, hnone⟩
  · have hnow := ahead_of_phase hph
    have hgone : ∀ {v : World}, v.tasks.phase? ((World.start policy).taskOf moves d) = none →
        v.ahead ((World.start policy).taskOf moves d) <
            ((World.start policy).trace moves j).ahead ((World.start policy).taskOf moves d) ∨
          ((World.start policy).trace moves j).ahead ((World.start policy).taskOf moves d) = 0 ∧
            v.ahead ((World.start policy).taskOf moves d) = 0 := by
      intro v hv
      rw [ahead_of_none hv]
      exact (Nat.eq_zero_or_pos _).symm.imp_right fun hz => ⟨hz, rfl⟩
    cases fate_move (reachable_trace policy moves j).wf hph (moves j) with
    | stays hsame => exact .inl (hsame.trans hph.symm)
    | goesOn b hcarry hnext hgo =>
      have hthen := ahead_of_phase hgo
      rcases Nat.eq_zero_or_pos ph.activity.ahead with hz | hpos
      · exact .inr (.inr ⟨hnow.trans hz, hthen.trans (hb.settles h (hnd.trans hdj.le) hjl hcarry hwatch hk hz hnext)⟩)
      · by_cases hheld : HeldUp ((World.start policy).trace moves j) ph.activity
        · rw [((heldUp_floorTo _ _).2 hheld).step] at hnext
          cases hnext
          exact .inl (hgo.trans hph.symm)
        · refine .inr (.inl ?_)
          rw [World.taskOf, hnow]
          exact hthen.trans_lt (hb.less_ahead h (hnd.trans hdj.le) hjl hcarry hwatch hk hpos hheld hnext)
    | ends o hcarry ho hnone => exact .inr (hgone hnone)
    | dropped t hm hs hc hnone => exact .inr (hgone hnone)
  · exact .inl ((gone_trace (Nat.le_succ j) hid hnone).2.trans hnone.symm)

end Trace

/-! ## Coming to rest -/

/-- what holds of each of finitely many calls from some state on, holds of all of them from some state on -/
theorem exists_since {calls : Finset Nat} {P : Nat → Nat → Prop} (N : Nat) (hP : ∀ d ∈ calls, ∃ L, ∀ l, L ≤ l → P d l) :
    ∃ L, N ≤ L ∧ ∀ l, L ≤ l → ∀ d ∈ calls, P d l := by
  choose! since hsince using hP
  refine ⟨max N (calls.sup since), le_max_left _ _, fun l hl d hd => hsince d hd l ?_⟩
  exact (Finset.le_sup hd).trans ((le_max_right _ _).trans hl)

/-- where nobody is at a path any more nobody begins to listen there -/
theorem listened_before {policy : WritePolicy} {moves : Nat → Move} {L l : Nat} (hdeserted : ∀ l, L ≤ l → ∀ i ph q,
      ((World.start policy).trace moves l).tasks.phase? i = some ph → ph.activity.at? = some q → q.key ≠ p.key)
    (hLl : L ≤ l) {ph : Phase} (hph : ((World.start policy).trace moves l).tasks.phase? i = some ph)
    (ha : ph.activity = .listening q x) (hk : q.key = p.key) :
    ∃ ph', ((World.start policy).trace moves L).tasks.phase? i = some ph' ∧ ph'.activity = .listening q x := by
  induction l, hLl using Nat.le_induction generalizing ph with
  | base => exact ⟨ph, hph, ha⟩
  | succ l hLl ih =>
    rcases phase?_cases (reachable_trace policy moves l).wf hph with hsame | ⟨-, hnew⟩ | ⟨b, hcarry, hb⟩
    · exact ih hsame ha
    · obtain ⟨i', t, seat, signal, hs, hact, hpath⟩ := hnew.listening ha
      exact absurd (hpath ▸ hk) (hdeserted l hLl i' t.phase seat.path (phase?_of_served hs) (by rw [hact]; rfl))
    · obtain ⟨u, -, hs, -, rfl⟩ := carried?_eq_some.1 hcarry
      rw [ha] at hb
      exact ih (phase?_of_served hs) (initial_of_next hb rfl)

/-- A run in which nothing keeps a crowd from coming to rest: all of its calls come before state `N`, whoever can go on gets the
floor sooner or later, every gate that holds up one of the calls is opened sooner or later, and no subscriber that has called
leaves. -/
structure FairCrowd (w : World) (moves : Nat → Move) (p : Path) (n N : Nat) : Prop where
  crowd : ∀ l, n ≤ l → Crowd w moves p n l
  called : (watchCalls moves p n N).Nonempty
  last : ∀ l, watchCalls moves p n l ⊆ watchCalls moves p n N
  fair : ∀ l i, (w.trace moves l).runnable i = true → ∃ m, l ≤ m ∧ (w.trace moves m).serves (moves m) i = true
  opened : ∀ l i ph q g, (w.trace moves l).tasks.phase? i = some ph → ph.activity.at? = some q → q.key = p.key →
    ph.activity.awaits = .gate g → ∃ m, l ≤ m ∧ (w.trace moves m).disk.isOpen g = true
  stay : ∀ d ∈ watchCalls moves p n N, ∀ q x, moves d = .call (.watch q x) → ∀ l, n ≤ l →
    moves l ≠ .closeSubscriber x ∧ moves l ≠ .dropSubscriber x

theorem FairCrowd.le {w : World} {moves : Nat → Move} {n N : Nat} (hf : FairCrowd w moves p n N) : n ≤ N := by
  obtain ⟨d, hd⟩ := hf.called
  obtain ⟨hnd, hdN, -⟩ := mem_watchCalls.1 hd
  exact hnd.trans hdN.le

theorem Watching.not_quiet {a : Activity} (h : Watching q x a) : a.awaits ≠ .quiet := by
  cases h with
  | starting => nofun
  | joining joined other => cases other <;> nofun
  | synchronizing joined r hr =>
    cases r with
    | queued => nofun
    | looking l c | reading l date c | lookingAgain l f c => cases c <;> nofun
  | settling joined signal => cases signal <;> nofun
  | failing turn joined e => cases turn <;> nofun

section Fair

variable {policy : WritePolicy} {moves : Nat → Move} {n N l : Nat} {d : Nat} (h : ∀ n, moves n ≠ .call .shutDown)
  (hf : FairCrowd (World.start policy) moves p n N)
include h hf

/-- a call that is not held up carries out a section sooner or later -/
theorem FairCrowd.next_section (hnl : n ≤ l) {ph : Phase}
    (hph : ((World.start policy).trace moves l).tasks.phase? i = some ph) (hwatch : Watching q x ph.activity)
    (hk : q.key = p.key) (hfree : ¬ HeldUp ((World.start policy).trace moves l) ph.activity) :
    ∃ m, l ≤ m ∧ ((World.start policy).trace moves m).carried? (moves m) = some (i, ph.activity) := by
  obtain ⟨t, ht, rfl⟩ := Option.map_eq_some_iff.1 hph
  have hrun : ((World.start policy).trace moves l).runnable i = true :=
    Bool.eq_true_of_not_eq_false fun hno => hfree (heldUp_trace h l ht hno hwatch.not_quiet).2
  obtain ⟨m, hlm, hserved, hno⟩ := first_turn (hf.fair l i hrun)
  have hsame := phase?_trace (.start policy) hlm hno hph
  obtain ⟨hmove, hgo⟩ := serves_iff.1 hserved
  obtain ⟨u, hs, hu⟩ := served?_of_phase hgo hsame
  refine ⟨m, hlm, carried?_eq_some.2 ⟨u, hmove, hs, ?_, congrArg Phase.activity hu⟩⟩
  refine (hf.crowd m (hnl.trans hlm)).spared h (hnl.trans hlm) le_rfl (served?_eq_some hs).2 (q := q) ?_ hk
  rw [hu]
  exact Activity.at?_of_operation hwatch.operation?

omit h in
/-- a gate that holds up a call is opened, and stays open -/
theorem FairCrowd.opened_since {g : GateId} {ph : Phase} (hph : ((World.start policy).trace moves l).tasks.phase? i = some ph)
    (hat : ph.activity.at? = some q) (hk : q.key = p.key) (hg : ph.activity.awaits = .gate g) : ∃ m, l ≤ m ∧ ∀ m', m ≤ m' →
      ¬ HeldUp ((World.start policy).trace moves m') ph.activity := by
  obtain ⟨m, hlm, hopen⟩ := hf.opened l i ph q g hph hat hk hg
  refine ⟨m, hlm, fun m' hm' hheld => ?_⟩
  cases ((heldUp_gate hg).1 hheld).symm.trans (open_since policy hm' hopen)

/-- what holds up a call that has not settled yet comes to its end -/
theorem FairCrowd.freed (hnl : n ≤ l) {ph : Phase}
    (hph : ((World.start policy).trace moves l).tasks.phase? i = some ph) (hwatch : Watching q x ph.activity)
    (hk : q.key = p.key) (hpos : 0 < ph.activity.ahead) : ∃ m, l ≤ m ∧ ∀ m', m ≤ m' →
      ((World.start policy).trace moves m').tasks.phase? i = some ph →
        ¬ HeldUp ((World.start policy).trace moves m') ph.activity := by
  have hat := Activity.at?_of_operation hwatch.operation?
  generalize ha : ph.activity = a at hwatch hpos
  cases hwatch with
  | starting => exact ⟨l, le_rfl, fun _ _ _ => heldUp_nothing rfl⟩
  | joining joined other =>
    cases (hf.crowd l hnl).joins_at_once h hnl le_rfl hph ha hk
    exact ⟨l, le_rfl, fun _ _ _ => heldUp_nothing rfl⟩
  | synchronizing joined r hr =>
    have hheld : ∀ g, (Activity.synchronizing ⟨q, x, joined⟩ r).awaits = .gate g → ∃ m, l ≤ m ∧ ∀ m', m ≤ m' →
        ((World.start policy).trace moves m').tasks.phase? i = some ph →
          ¬ HeldUp ((World.start policy).trace moves m') (.synchronizing ⟨q, x, joined⟩ r) := by
      intro g hg
      obtain ⟨m, hlm, hfree⟩ := hf.opened_since hph hat hk (ha ▸ hg)
      exact ⟨m, hlm, fun m' hm' _ => ha ▸ hfree m' hm'⟩
    cases r with
    | queued q' y τ =>
      refine ⟨l, le_rfl, fun m' hm' hph' hheld => ?_⟩
      have hholds := (hf.crowd m' (hnl.trans hm')).holds h (hnl.trans hm') le_rfl hph' ha (hr ▸ hk) (τ := τ) rfl
      cases ((heldUp_turn (i := τ.id) rfl).1 hheld τ rfl rfl).symm.trans hholds
    | looking l c | reading l date c | lookingAgain l f c =>
      cases c with
      | held g => exact hheld g rfl
      | due => exact ⟨_, le_rfl, fun _ _ _ => heldUp_nothing rfl⟩
  | settling joined signal => cases hpos
  | failing turn joined e => cases hpos

/-- **A call that has not settled yet comes nearer to it** sooner or later. -/
theorem FairCrowd.onward (hd : d ∈ watchCalls moves p n N) (hNl : N ≤ l)
    (hpos : 0 < ((World.start policy).trace moves l).ahead ((World.start policy).taskOf moves d)) :
    ∃ m, l ≤ m ∧ ((World.start policy).trace moves m).ahead ((World.start policy).taskOf moves d) <
      ((World.start policy).trace moves l).ahead ((World.start policy).taskOf moves d) := by
  obtain ⟨hnd, hdN, q, x, hm, hk⟩ := mem_watchCalls.1 hd
  have hdl : d < l := hdN.trans_le hNl
  rcases watching_trace hm hdl with ⟨ph, hph, -, hwatch⟩ | ⟨-, hnone⟩
  · have hahead := ahead_of_phase hph
    change World.ahead _ ((World.start policy).taskOf moves d) = _ at hahead
    -- until it is nearer it stays in its phase
    have hstays : ∀ m, l ≤ m →
        ((World.start policy).trace moves m).ahead ((World.start policy).taskOf moves d) <
            ((World.start policy).trace moves l).ahead ((World.start policy).taskOf moves d) ∨
          ((World.start policy).trace moves m).tasks.phase? ((World.start policy).taskOf moves d) = some ph := by
      intro m hlm
      induction m, hlm using Nat.le_induction with
      | base => exact .inr hph
      | succ m hlm ih =>
        have hmove := (hf.crowd (m + 1) (hnd.trans (hdl.le.trans (Nat.le_succ_of_le hlm)))).ahead_move h
          (watchCalls_mono hd (hNl.trans hlm)) (Nat.lt_succ_self m)
        rcases ih with hless | hsame
        · refine .inl ?_
          rcases hmove with heq | hlt | ⟨-, hz⟩
          · rwa [World.ahead, heq]
          · exact hlt.trans hless
          · rwa [hz]
        · rcases hmove with heq | hlt | ⟨hz, -⟩
          · exact .inr (heq.trans hsame)
          · refine .inl ?_
            rwa [ahead_of_phase hsame, ← hahead] at hlt
          · rw [ahead_of_phase hsame, ← hahead] at hz
            exact absurd hz hpos.ne'
    obtain ⟨m, hlm, hfree⟩ := hf.freed h (hnd.trans hdl.le) hph hwatch hk (hahead ▸ hpos)
    rcases hstays m hlm with hless | hsame
    · exact ⟨m, hlm, hless⟩
    · have hnm : n ≤ m := hnd.trans (hdl.le.trans hlm)
      obtain ⟨m', hmm', hcarry⟩ := hf.next_section h hnm hsame hwatch hk (hfree m le_rfl hsame)
      rcases hstays m' (hlm.trans hmm') with hless | hsame'
      · exact ⟨m', hlm.trans hmm', hless⟩
      · refine ⟨m' + 1, (hlm.trans hmm').trans (Nat.le_succ m'), ?_⟩
        have hafter := phase?_of_carried (reachable_trace policy moves m').wf hcarry
        cases hnext : ((floorTo ((World.start policy).trace moves m') _).step ph.activity).2.next with
        | none =>
          rw [hnext, Option.map_eq_none_iff] at hafter
          exact (ahead_of_none hafter).trans_lt hpos
        | some b =>
          rw [hnext] at hafter
          obtain ⟨ph', hph', rfl⟩ := Option.map_eq_some_iff.1 hafter
          have hless := (hf.crowd (m' + 1) (hnm.trans (hmm'.trans (Nat.le_succ m')))).less_ahead h (hnm.trans hmm')
            (Nat.lt_succ_self m') hcarry hwatch hk (hahead ▸ hpos) (hfree m' hmm' hsame') hnext
          rw [hahead]
          exact (ahead_of_phase hph').trans_lt hless
  · exact absurd (ahead_of_none hnone) hpos.ne'

/-- **All of the calls settle.** -/
theorem FairCrowd.settle : ∃ L, N ≤ L ∧ ∀ l, L ≤ l → ∀ d ∈ watchCalls moves p n N,
    ((World.start policy).trace moves l).ahead ((World.start policy).taskOf moves d) = 0 := by
  refine exists_since N fun d hd => ?_
  have hle : ∀ l, N ≤ l → ((World.start policy).trace moves (l + 1)).ahead ((World.start policy).taskOf moves d) ≤
      ((World.start policy).trace moves l).ahead ((World.start policy).taskOf moves d) := by
    intro l hl
    rcases (hf.crowd (l + 1) (hf.le.trans (Nat.le_succ_of_le hl))).ahead_move h (watchCalls_mono hd hl) (Nat.lt_succ_self l) with
      hsame | hless | ⟨-, hz⟩
    · rw [World.ahead, hsame, World.ahead]
    · exact hless.le
    · exact hz.trans_le (Nat.zero_le _)
  obtain ⟨L, -, hzero⟩ := exists_zero hle fun l hl hpos => hf.onward h hd hl hpos
  exact ⟨L, hzero⟩

/-- a call that has nothing ahead of it settles -/
theorem FairCrowd.settling_of_zero (hnl : n ≤ l) {ph : Phase}
    (hph : ((World.start policy).trace moves l).tasks.phase? i = some ph) (hwatch : Watching q x ph.activity)
    (hk : q.key = p.key) (hzero : ph.activity.ahead = 0) :
    ∃ joined signal, ph.activity = .settling ⟨q, x, joined⟩ signal := by
  generalize ha : ph.activity = a at hwatch
  rw [ha] at hzero
  cases hwatch with
  | starting => cases hzero
  | joining joined other => cases hzero
  | synchronizing joined r hr => exact absurd hzero r.ahead_pos.ne'
  | settling joined signal => exact ⟨joined, signal, rfl⟩
  | failing turn joined e => exact absurd hk (((hf.crowd l hnl).gathering h hnl le_rfl).not_tearing hph ha)

/-- when all of the calls settle, the first reconciliation has ended -/
theorem FairCrowd.fetched (hNl : N ≤ l) (hzero : ∀ d ∈ watchCalls moves p n N,
      ((World.start policy).trace moves l).ahead ((World.start policy).taskOf moves d) = 0) :
    ∃ e, World.entry? ((World.start policy).trace moves l) p = some e ∧
      e.Fetched (((World.start policy).trace moves n).disk.file? p) := by
  obtain ⟨d, hd⟩ := hf.called
  obtain ⟨hnd, hdN, q, x, hm, hk⟩ := mem_watchCalls.1 hd
  have hnl : n ≤ l := hf.le.trans hNl
  have hb := hf.crowd l hnl
  cases (hb.gathering h hnl le_rfl).stage with
  | before hno =>
    rcases hb.returned h (watchCalls_mono hd hNl) hm (hdN.trans_le hNl) le_rfl with ⟨ph, hph, -, hwatch⟩ | ⟨-, hreg⟩
    · obtain ⟨joined, signal, hact⟩ := hf.settling_of_zero h hnl hph hwatch hk ((ahead_of_phase hph).symm.trans (hzero d hd))
      obtain ⟨e, he, -⟩ := (running_of_trace policy h l).counted (p := p) hph (by rw [hact]; exact congrArg some hk)
      cases hno.symm.trans he
    · rw [World.isRegistered, hno] at hreg
      cases hreg
  | fetching i seat r ph e hph hact hone he hpos hknown hrev hreg hF =>
    obtain ⟨d', hd', -, -, rfl, -⟩ := hb.watching hnl le_rfl hph (q := r.path) (by rw [hact]; rfl) (Refresh.path_of_fetching hF)
    have hahead := (ahead_of_phase hph).symm.trans (hzero d' (hf.last l hd'))
    rw [hact] at hahead
    exact absurd hahead r.ahead_pos.ne'
  | fetched e hnobody he hpos hdone => exact ⟨e, he, hdone⟩

/-- **All of the calls end**, and nobody is at the path any more. -/
theorem FairCrowd.deserted : ∃ L, N ≤ L ∧ ∀ l, L ≤ l → ∀ i ph q,
    ((World.start policy).trace moves l).tasks.phase? i = some ph → ph.activity.at? = some q → q.key ≠ p.key := by
  obtain ⟨M, hNM, hzero⟩ := hf.settle h
  have hends : ∀ d ∈ watchCalls moves p n N, ∃ L, ∀ l, L ≤ l →
      ((World.start policy).trace moves l).tasks.phase? ((World.start policy).taskOf moves d) = none := by
    intro d hd
    obtain ⟨hnd, hdN, q, x, hm, hk⟩ := mem_watchCalls.1 hd
    have hdM : d < M := hdN.trans_le hNM
    rcases watching_trace hm hdM with ⟨ph, hph, -, hwatch⟩ | ⟨hid, hnone⟩
    · have hnM : n ≤ M := hnd.trans hdM.le
      obtain ⟨joined, signal, hact⟩ :=
        hf.settling_of_zero h hnM hph hwatch hk ((ahead_of_phase hph).symm.trans (hzero M le_rfl d hd))
      have hfree : ¬ HeldUp ((World.start policy).trace moves M) ph.activity := by
        rw [hact]
        cases signal with
        | none => exact heldUp_nothing rfl
        | some y =>
          intro hheld
          obtain ⟨e, he, hdone⟩ := hf.fetched h hNM (hzero M le_rfl)
          have hgiven := ((hf.crowd M hnM).gathering h hnM le_rfl).given he hdone hph hact hk
          cases ((heldUp_signal rfl).1 hheld).symm.trans hgiven
      -- in its next section it registers its subscriber
      obtain ⟨m, hMm, hcarry⟩ := hf.next_section h hnM hph hwatch hk hfree
      obtain ⟨u, -, hs, -, hu⟩ := carried?_eq_some.1 hcarry
      obtain ⟨e, he, hdone⟩ := hf.fetched h (hNM.trans hMm) (hzero m hMm)
      rw [hact] at hcarry
      have hafter := ended_of_fetched (reachable_trace policy moves m).wf hcarry hk he hdone fun y hy =>
        ((hf.crowd m (hnM.trans hMm)).gathering h (hnM.trans hMm) le_rfl).given he hdone (phase?_of_served hs)
          (hu.trans (hact.trans (congrArg _ hy))) hk
      exact ⟨m + 1, fun l hl => gone_since (phase?_of_served hs) hafter hl⟩
    · exact ⟨M, fun l hl => (gone_trace hl hid hnone).2⟩
  obtain ⟨L, hNL, hgone⟩ := exists_since N hends
  refine ⟨L, hNL, fun l hl i ph q hph hq hk => ?_⟩
  have hnl : n ≤ l := hf.le.trans (hNL.trans hl)
  obtain ⟨d, hd, -, -, rfl, -⟩ := (hf.crowd l hnl).watching hnl le_rfl hph hq hk
  cases hph.symm.trans (hgone l hl d (hf.last l hd))

/-- no subscriber leaves for whose leaving somebody listens -/
theorem FairCrowd.stays (hnl : n ≤ l) {t : Task Phase} (ht : ((World.start policy).trace moves l).tasks.live.get? i = some t)
    (hc : t.cancelled = false) (ha : t.phase.activity = .listening q x) (hk : q.key = p.key) :
    moves l ≠ .closeSubscriber x ∧ moves l ≠ .dropSubscriber x := by
  obtain ⟨f, hface, hreg⟩ := (heeds_trace h l).registered i t q x ht hc ha
  have hregistered : ((World.start policy).trace moves l).isRegistered p x = true :=
    isRegistered_iff.2 ⟨f, hk ▸ hface, Option.isSome_iff_exists.2 ⟨_, hreg⟩⟩
  obtain ⟨d, hd, q', hm⟩ := (hf.crowd l hnl).called_of_registered hnl le_rfl hregistered
  exact hf.stay d (hf.last l hd) q' x hm l hnl

/-- whoever listens at the path comes to rest, or is gone -/
theorem FairCrowd.hushed (hnl : n ≤ l) {ph : Phase} (hph : ((World.start policy).trace moves l).tasks.phase? i = some ph)
    (ha : ph.activity = .listening q x) (hk : q.key = p.key) : ∃ L, ∀ m, L ≤ m →
      ((World.start policy).trace moves m).tasks.phase? i = none ∨ ((World.start policy).trace moves m).runnable i = false := by
  by_cases hcancelled : ∃ m, l ≤ m ∧ ((World.start policy).trace moves m).tasks.Cancelled i
  · obtain ⟨m, hlm, hc⟩ := hcancelled
    obtain ⟨L, hmL, hnone⟩ := gone_of_cancelled h hf.fair hc
    have hid := ((reachable_trace policy moves l).wf.numbered.lt hph).trans_le (next_trace (hlm.trans hmL))
    exact ⟨L, fun m' hm' => .inl (gone_trace hm' hid hnone).2⟩
  · refine hushed_of_spared hph ha (fun m hlm hc => hcancelled ⟨m, hlm, hc⟩) (fun m hlm t ht hc hact => ?_) hf.fair
    exact hf.stays h (hnl.trans hlm) ht hc hact hk

/-- **A crowd comes to rest if it is treated fairly**: from some state on nobody who is about the path can go on. -/
theorem FairCrowd.comes_to_rest : ∃ L, ∀ l, L ≤ l → Burst (World.start policy) moves p n l := by
  obtain ⟨L, hNL, hdeserted⟩ := hf.deserted h
  have hnL : n ≤ L := hf.le.trans hNL
  let next := ((World.start policy).trace moves L).tasks.next
  have hquiet : ∀ i ∈ Finset.range next, ∃ M, ∀ l, M ≤ l → ∀ ph q x,
      L ≤ l → ((World.start policy).trace moves l).tasks.phase? i = some ph → ph.activity = .listening q x → q.key = p.key →
        ((World.start policy).trace moves l).runnable i = false := by
    intro i _
    by_cases hlistens : ∃ ph q x, ((World.start policy).trace moves L).tasks.phase? i = some ph ∧ ph.activity = .listening q x ∧
        q.key = p.key
    · obtain ⟨ph, q, x, hph, ha, hk⟩ := hlistens
      obtain ⟨M, hM⟩ := hf.hushed h hnL hph ha hk
      refine ⟨M, fun l hl ph' q' x' _ hph' _ _ => (hM l hl).resolve_left ?_⟩
      rw [hph']
      nofun
    · refine ⟨L, fun l hl ph q x _ hph ha hk => absurd ?_ hlistens⟩
      obtain ⟨ph', hph', ha'⟩ := listened_before hdeserted hl hph ha hk
      exact ⟨ph', q, x, hph', ha', hk⟩
  obtain ⟨M, hLM, hrest⟩ := exists_since L hquiet
  refine ⟨M, fun l hl => ?_⟩
  have hLl : L ≤ l := hLM.trans hl
  have hlistening : ∀ i ph q, ((World.start policy).trace moves l).tasks.phase? i = some ph → ph.activity.about? = some q →
      q.key = p.key → ∃ x, ph.activity = .listening q x := fun i ph q hph hq hk =>
    (Activity.about?_cases hq).resolve_left fun hat => hdeserted l hLl i ph q hph hat hk
  refine { hf.crowd l (hnL.trans hLl) with called := ?_, rests := ⟨?_, ?_⟩ }
  · obtain ⟨d, hd⟩ := hf.called
    exact ⟨d, watchCalls_mono hd (hNL.trans hLl)⟩
  · intro i ph q hph hq hk
    obtain ⟨x, ha⟩ := hlistening i ph q hph hq hk
    obtain ⟨ph', hph', -⟩ := listened_before hdeserted hLl hph ha hk
    exact hrest l hl i (Finset.mem_range.2 ((reachable_trace policy moves L).wf.numbered.lt hph')) ph q x hLl hph ha hk
  · intro i ph q g hph hq hk hg
    obtain ⟨x, ha⟩ := hlistening i ph q hph hq hk
    rw [ha] at hg
    cases hg

end Fair

/-- **The calls of a crowd that is treated fairly share one synchronization**, and all of them return. -/
theorem FairCrowd.synchronizes_once {policy : WritePolicy} {moves : Nat → Move} {n N : Nat}
    (hf : FairCrowd (World.start policy) moves p n N) :
    ∃ L, ∀ l, L ≤ l → SynchronizesOnce (World.start policy) moves p n l := by
  have h : ∀ j, moves j ≠ .call .shutDown := fun j =>
    (hf.crowd (max n (j + 1)) (le_max_left _ _)).going j (Nat.lt_of_succ_le (le_max_right _ _))
  obtain ⟨L, hL⟩ := hf.comes_to_rest h
  exact ⟨L, fun l hl => synchronizesOnce_of_running h (hL l hl)⟩

/-! ### A run -/

theorem Crowd.mono {moves : Nat → Move} {n l j : Nat} (hb : Crowd w moves p n l) (hjl : j ≤ l) : Crowd w moves p n j where
  going i hi := hb.going i (hi.trans_le hjl)
  untracked := hb.untracked
  distinct d hd d' hd' := hb.distinct d (watchCalls_mono hd hjl) d' (watchCalls_mono hd' hjl)
  only i hni hij := hb.only i hni (hij.trans hjl)
  file i hni hij := hb.file i hni (hij.trans hjl)
  calls i hni hij := hb.calls i hni (hij.trans_le hjl)
  uncancelled i hni hij := hb.uncancelled i hni (hij.trans_le hjl)

/-- where nobody can go on nothing happens after the moves of a list -/
theorem trace_since_quiet {ms : List Move} (hquiet : (w.trace (along ms) ms.length).tasks.quiet = true) {l : Nat}
    (hl : ms.length ≤ l) : w.trace (along ms) l = w.trace (along ms) ms.length := by
  induction l, hl using Nat.le_induction with
  | base => rfl
  | succ l hl ih =>
    rw [World.trace, ih, along_of_length_le hl, default_move, World.move]
    refine if_neg fun hgo => ?_
    have hrun := runnable_of_serves (serves_iff.2 ⟨rfl, hgo⟩)
    cases (runnable_of_quiet hquiet 0).symm.trans hrun

variable {ms : List Move} {n : Nat}

/-- a crowd that has come to rest after the moves of a list goes on so -/
theorem Crowd.extend (hb : Crowd w (along ms) p n ms.length) (hn : n ≤ ms.length)
    (hquiet : (w.trace (along ms) ms.length).tasks.quiet = true) (l : Nat) : Crowd w (along ms) p n l := by
  by_cases hl : l ≤ ms.length
  · exact hb.mono hl
  have hle : ms.length ≤ l := Nat.le_of_not_le hl
  have hsame : ∀ {j}, ms.length ≤ j → w.trace (along ms) j = w.trace (along ms) ms.length := fun hj => trace_since_quiet hquiet hj
  have hidle : ∀ {j}, ms.length ≤ j → along ms j = .turn 0 := fun hj => along_of_length_le hj
  have hcalls : ∀ {d}, d ∈ watchCalls (along ms) p n l → d ∈ watchCalls (along ms) p n ms.length := by
    intro d hd
    obtain ⟨hnd, hdl, q, x, hm, hk⟩ := mem_watchCalls.1 hd
    refine mem_watchCalls.2 ⟨hnd, Nat.lt_of_not_le fun hj => ?_, q, x, hm, hk⟩
    cases (hidle hj).symm.trans hm
  refine ⟨?going, hb.untracked, fun d hd d' hd' => hb.distinct d (hcalls hd) d' (hcalls hd'), ?nobody, ?file, ?calls, ?uncancelled⟩
  case going =>
    intro j hj
    by_cases hjm : j < ms.length
    · exact hb.going j hjm
    · rw [hidle (Nat.le_of_not_lt hjm)]
      nofun
  case nobody =>
    intro j hnj hjl i ph q hph hq hk
    by_cases hjm : j ≤ ms.length
    · exact hb.only j hnj hjm i ph q hph hq hk
    · have hmj := Nat.le_of_not_le hjm
      rw [hsame hmj] at hph
      obtain ⟨d, hd, hi⟩ := hb.only ms.length hn le_rfl i ph q hph hq hk
      exact ⟨d, watchCalls_mono hd hmj, hi⟩
  case file =>
    intro j hnj hjl
    by_cases hjm : j ≤ ms.length
    · exact hb.file j hnj hjm
    · rw [hsame (Nat.le_of_not_le hjm)]
      exact hb.file ms.length hn le_rfl
  case calls =>
    intro j hnj hjl
    by_cases hjm : j < ms.length
    · exact hb.calls j hnj hjm
    · have hmj := Nat.le_of_not_lt hjm
      rintro ⟨i, a, hcarry, -⟩
      obtain ⟨u, hm, hs, -⟩ := carried?_eq_some.1 hcarry
      have hrun := runnable_of_serves (serves_iff.2 ⟨hm, (served?_eq_some hs).1⟩)
      rw [hsame hmj, runnable_of_quiet hquiet] at hrun
      cases hrun
  case uncancelled =>
    intro j hnj hjl i ph q hm
    by_cases hjm : j < ms.length
    · exact hb.uncancelled j hnj hjm i ph q hm
    · cases (hidle (Nat.le_of_not_lt hjm)).symm.trans hm

/-- Two subscribers watch a file at once, and nothing else happens. -/
def gathering : List Move := gatheringAndLeaving.take 18

/-- **The run is one in which nothing keeps the crowd from coming to rest.** -/
theorem fairCrowd_gathering : FairCrowd (World.start .allow) (along gathering) ⟨"/a"⟩ 3 18 := by
  have hquiet : ((World.start .allow).trace (along gathering) gathering.length).tasks.quiet = true := by decide +kernel
  have hcrowd : Crowd (World.start .allow) (along gathering) ⟨"/a"⟩ 3 gathering.length :=
    burst_gatheringAndLeaving.toCrowd.congr (by decide) fun j hj => (along_take gatheringAndLeaving hj).symm
  have hlast : ∀ j, gathering.length ≤ j → along gathering j = .turn 0 := fun j hj => along_of_length_le hj
  refine ⟨fun l _ => hcrowd.extend (by decide) hquiet l, ⟨3, by decide +kernel⟩, ?_, ?_, ?_, ?_⟩
  · intro l d hd
    obtain ⟨hnd, hdl, q, x, hm, hk⟩ := mem_watchCalls.1 hd
    refine mem_watchCalls.2 ⟨hnd, Nat.lt_of_not_le fun hj => ?_, q, x, hm, hk⟩
    cases (hlast d hj).symm.trans hm
  · intro l i hrun
    have hserved : ∀ l, l < 18 → ∀ i ∈ ((World.start .allow).trace (along gathering) l).tasks.ready ++
        ((World.start .allow).trace (along gathering) l).tasks.floor.toList, ∃ m, m < 18 ∧ l ≤ m ∧
          ((World.start .allow).trace (along gathering) m).serves (along gathering m) i = true := by decide +kernel
    by_cases hl : l < 18
    · have hin := List.mem_append.2 ((runnable_iff.1 hrun).imp_right Option.mem_toList.2)
      obtain ⟨m, -, hm⟩ := hserved l hl i hin
      exact ⟨m, hm⟩
    · rw [trace_since_quiet hquiet (Nat.le_of_not_lt hl), runnable_of_quiet hquiet] at hrun
      cases hrun
  · intro l i ph q g hph hq hk hg
    have hnone : ∀ l, l ≤ 18 → ∀ r ∈ ((World.start .allow).trace (along gathering) l).tasks.live.rows,
        r.2.phase.activity.awaits.isGate = false := by decide +kernel
    have hno : ph.activity.awaits.isGate = false := by
      by_cases hl : l ≤ 18
      · exact forall_phase_of_rows (P := fun _ a => a.awaits.isGate = false) (hnone l hl) hph
      · rw [trace_since_quiet hquiet (Nat.le_of_not_le hl)] at hph
        exact forall_phase_of_rows (P := fun _ a => a.awaits.isGate = false) (hnone 18 le_rfl) hph
    rw [hg] at hno
    cases hno
  · intro d _ q x _ l _
    exact ⟨along_ne gathering (by simp [gathering, gatheringAndLeaving]) (by simp) l,
      along_ne gathering (by simp [gathering, gatheringAndLeaving]) (by simp) l⟩

end LiveFiles.Engine
