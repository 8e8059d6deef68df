/-
The sections of watching and leaving as chains of effects, one lemma for each function of the engine. The protocol sees
little of them: the signal of a call to watch, the first reconciliation that comes with the first place, the signal that a
call settles for, and the wait for an idle path that comes before an entry is dropped.
-/
import LiveFiles.Proofs.Reconcile

namespace LiveFiles.Engine

variable {E : Mark → Prop} {w w' : World} {s : Stake}

/-- a phase seen by the protocol -/
def Activity.view : View Activity := fun a => (a.awaits, a.stake)

/-! ## Entries in what the protocol does not see -/

theorem does_modifyEntry (w : World) (p : Path) {f : Entry → Entry} (hb : ∀ e, (f e).bare = e.bare)
    (hr : ∀ e id, (f e).registered.contains id = true → e.registered.contains id = true) :
    Does E w s (w.modifyEntry p f) s := by
  refine .effect (.places (w.entries.modify p.key f) (fun k => ?_) fun k e e' he he' id h => ?_) rfl
    (.rest rfl rfl rfl (.refl _))
  · rw [Table.get?_modify]
    split
    · cases hk : w.entries.get? k with
      | none => simp [World.core, hk]
      | some e => simp [World.core, hk, hb]
    · rfl
  · rw [Table.get?_modify, show w.entries.get? k = some e from he] at he'
    split at he'
    · cases he'
      exact Or.inl (hr e id h)
    · cases he'
      exact Or.inl h

theorem does_setEntry {p : Path} {e e' : Entry} (he : w.entry? p = some e) (hb : e'.bare = e.bare)
    (hr : ∀ id, e'.registered.contains id = true → e.registered.contains id = true ∨ E (.registered p.key)) :
    Does E w s (w.setEntry p e') s := by
  refine .effect (.places (w.entries.insert p.key e') (fun k => ?_) fun k e₁ e₂ h₁ h₂ id h => ?_) rfl
    (ripple_setEntry w p e')
  · rw [Table.get?_insert]
    split
    · rename_i hk
      subst hk
      simp [World.core, show w.entries.get? p.key = some e from he, hb]
    · rfl
  · rw [Table.get?_insert] at h₂
    split at h₂
    · rename_i hk
      subst hk
      cases h₂
      rw [show w.core.entries.get? p.key = some e from he] at h₁
      cases h₁
      exact hr id h
    · rw [show w.entries.get? k = some e₁ from h₁] at h₂
      cases h₂
      exact Or.inl h

/-! ## Waiting for an idle path -/

theorem runs_awaitIdle {p : Path} {turn : Option Turn} (hw : w.Reserved) (hs : s.errand = drainErrand p turn) :
    Runs E w s (fun t => (awaitTurn t, { s with errand := drainErrand p t })) { s with errand := .idle }
      (w.awaitIdle p turn) := by
  have hself : { s with errand := drainErrand p turn } = s := by rw [← hs]
  cases turn with
  | some τ =>
    simp only [World.awaitIdle]
    split
    · exact .go (.effect (.undrain hs) (by simp) (ripple_giveBack w τ))
    · rename_i h
      exact .wait (by rw [hself]; exact .refl w s) (waits_turn (by simpa using h))
  | none =>
    simp only [World.awaitIdle]
    split
    · exact .ended (.effect (.rest (by rw [hs]; rfl)) rfl (.refl w))
    · exact .go (.effect (.drain p hs) rfl (ripple_enlist hw p))

/-- the wait is over only where nobody has a turn -/
theorem awaitIdle_ended {p : Path} {turn : Option Turn} {u : Unit} (h : w.awaitIdle p turn = (w', .ended u)) :
    w' = w ∧ turn = none ∧ w.turns.isIdle p.key = true := by
  cases turn with
  | some τ =>
    simp only [World.awaitIdle] at h
    split at h <;> cases h
  | none =>
    simp only [World.awaitIdle] at h
    split at h
    · rename_i hi
      cases h
      exact ⟨rfl, rfl, hi⟩
    · cases h

/-! ## Giving places back -/

theorem does_endSeat {seat : Seat} (hs : s.joined = some seat.joined) :
    Does E w s (w.endSeat seat) { s with joined := none } := by
  refine .trans (does_modifyEntry w seat.path (f := fun e =>
    if e.joining.get? seat.subscriber = some seat.joined then { e with joining := e.joining.erase seat.subscriber } else e)
    (fun e => ?_) fun e id h => ?_) (.effect (.unjoin hs) rfl (ripple_give _ _))
  · split <;> rfl
  · split at h <;> exact h

theorem runs_endLeaving (w : World) (l : Leaving) :
    Runs E w { joined := l.joined } Activity.view {} (w.endLeaving l) := by
  cases l with
  | unwatched => exact .ended (.refl w _)
  | failed seat e => exact .ended (does_endSeat rfl)
  | abandoned => exact .ended (.refl w _)

theorem runs_releasePlace (w : World) (p : Path) (l : Leaving) :
    Runs E w { joined := l.joined } Activity.view {} (w.releasePlace p l) := by
  unfold World.releasePlace
  cases he : w.entry? p with
  | none => exact runs_endLeaving w l
  | some e =>
    have hset : ∀ w₁ : World, w₁.entry? p = some e → ∀ b, Does E w₁ { joined := l.joined }
        (w₁.setEntry p { e with count := e.count - 1, armed := b }) { joined := l.joined } :=
      fun w₁ he b => does_setEntry he rfl fun _ h => Or.inl h
    dsimp only
    split
    · refine .go ?_
      split
      · have h1 : Does E w { joined := l.joined } { w with watcher := w.watcher.disarm p } { joined := l.joined } :=
          .aside rfl (.rest rfl rfl rfl (.refl _))
        exact h1.trans (hset { w with watcher := w.watcher.disarm p } he false)
      · exact hset w he false
    · exact .after (hset w he e.armed) (runs_endLeaving _ l)

theorem runs_stepTearingDown (hw : w.Reserved) (p : Path) (turn : Option Turn) (l : Leaving) :
    Runs E w { errand := drainErrand p turn, joined := l.joined } Activity.view {} (w.stepTearingDown p turn l) := by
  have h := runs_awaitIdle (E := E) (s := { errand := drainErrand p turn, joined := l.joined }) hw rfl
  unfold World.stepTearingDown
  rcases hx : w.awaitIdle p turn with ⟨w', t | t | t | u⟩ <;> rw [hx] at h <;> dsimp only
  · exact .go h.does
  · exact .wait h.does (h.waits t rfl)
  · exact .pause h.does
  · obtain ⟨rfl, rfl, hi⟩ := awaitIdle_ended hx
    cases he : w'.entry? p with
    | none => exact .after h.does (runs_endLeaving w' l)
    | some e =>
      dsimp only
      split
      · have hv : Does E w' { joined := l.joined } (w'.dropEntry p) { joined := l.joined } :=
          .effect (.vacate p.key hi) rfl (.rest rfl rfl rfl (.refl _))
        exact .after (h.does.trans hv) (runs_endLeaving _ l)
      · exact .after h.does (runs_endLeaving w' l)

theorem runs_unwatch (w : World) (p : Path) (id : SubscriberId) :
    Runs E w {} Activity.view {} (w.unwatch p id) := by
  unfold World.unwatch
  cases he : w.entry? p with
  | none => exact .ended (.refl w _)
  | some e =>
    dsimp only
    cases hr : e.registered.get? id with
    | none => exact .ended (.refl w _)
    | some r =>
      have h1 : Does E w {} (w.setEntry p { e with registered := e.registered.erase id }) {} := by
        refine does_setEntry he rfl fun id' h => Or.inl ?_
        simp only [Table.contains, Table.get?_erase] at h ⊢
        split at h
        · cases h
        · exact h
      exact .after (h1.then (core_cancelIf _ _) (ripple_cancelIf _ _)) (runs_releasePlace _ p .unwatched)

/-! ## Taking places -/

/-- arming the watcher, and what the entry says of it -/
theorem armEntry_cases (w : World) (p : Path) (e : Entry) :
    ∃ x armed, w.armEntry p e = ({ w with watcher := x }, { e with armed }) ∧
      x.attempts = w.watcher.attempts ++ (if e.armed then [] else [p]) ∧
      (armed = e.armed ∧ x.calls = w.watcher.calls ∨ e.armed = false ∧ armed = true ∧ x.calls = (w.watcher.arm p).calls) := by
  unfold World.armEntry
  split
  · exact ⟨w.watcher, e.armed, rfl, (List.append_nil _).symm, .inl ⟨rfl, rfl⟩⟩
  · rename_i hno
    refine ⟨w.watcher.tryToArm p, !w.watcher.refuses p, rfl, rfl, ?_⟩
    unfold Watcher.tryToArm
    cases w.watcher.refuses p with
    | true => exact .inl ⟨(Bool.eq_false_iff.2 hno).symm, rfl⟩
    | false => exact .inr ⟨Bool.eq_false_iff.2 hno, rfl, rfl⟩

/-- Where somebody counts already one more counts; otherwise the watcher is asked to arm unless it is armed, and the file is to be
looked at. -/
theorem takePlace_cases (w : World) (seat : Seat) (e : Entry) :
    (0 < e.count ∧ w.takePlace seat e =
      (w.setEntry seat.path { e with joining := e.joining.insert seat.subscriber seat.joined, count := e.count + 1 },
        .go (.settling seat none))) ∨
    e.count = 0 ∧ ∃ x armed signal signals v,
      x.attempts = w.watcher.attempts ++ (if e.armed then [] else [seat.path]) ∧
      (armed = e.armed ∧ x.calls = w.watcher.calls ∨
        e.armed = false ∧ armed = true ∧ x.calls = (w.watcher.arm seat.path).calls) ∧
      v = World.setEntry { w with watcher := x, signals, nextQuery := w.nextQuery + 1 } seat.path
        { e with
          joining := e.joining.insert seat.subscriber seat.joined, count := e.count + 1, armed
          pendingQuery := some w.nextQuery, pendingSignal := some signal } ∧
      w.takePlace seat e =
        ((v.enlist seat.path).2, .go (.synchronizing seat (.queued seat.path w.nextQuery (v.enlist seat.path).1))) := by
  unfold World.takePlace
  dsimp only
  split
  · next hcount => exact .inl ⟨Nat.lt_of_succ_lt_succ hcount, rfl⟩
  · next hcount =>
    obtain ⟨x, armed, hx, hasked, hwatch⟩ := armEntry_cases w seat.path
      { e with joining := e.joining.insert seat.subscriber seat.joined, count := e.count + 1 }
    obtain ⟨signal, signals, hq, -⟩ := beginQuery_eq { w with watcher := x }
      { e with joining := e.joining.insert seat.subscriber seat.joined, count := e.count + 1, armed := armed }
    have hzero : e.count = 0 := Nat.eq_zero_of_not_pos fun hpos => hcount (Nat.succ_lt_succ hpos)
    refine .inr ⟨hzero, x, armed, signal, signals, _, hasked, hwatch, rfl, ?_⟩
    rw [hx]
    simp only [hq]
    rfl

theorem runs_takePlace (hw : w.Reserved) (seat : Seat) {e : Entry}
    (he : w.entry? seat.path = some e ∨
      w.entry? seat.path = none ∧ e = { spelling := seat.path } ∧ E (.created seat.path.key)) :
    Runs E w { joined := some seat.joined } Activity.view {} (w.takePlace seat e) := by
  unfold World.takePlace
  dsimp only
  split
  · rename_i hc
    rcases he with he | ⟨-, rfl, -⟩
    · exact .go (does_setEntry he rfl fun _ h => Or.inl h)
    · simp at hc
  · obtain ⟨x, b, hx, -⟩ := armEntry_cases w seat.path
      { e with joining := e.joining.insert seat.subscriber seat.joined, count := e.count + 1 }
    rw [hx]
    have h1 : Does E w { joined := some seat.joined } { w with watcher := x } { joined := some seat.joined } :=
      .aside rfl (.rest rfl rfl rfl (.refl _))
    exact .go (h1.trans (does_ask (by exact hw.congr rfl rfl) rfl he (by rfl) fun _ h => h))

/-- the entry of a path, or the one that it starts with -/
theorem entry?_or_new (w : World) (p : Path) : w.entry? p = some ((w.entry? p).getD { spelling := p }) ∨
    w.entry? p = none ∧ (w.entry? p).getD { spelling := p } = { spelling := p } := by
  cases w.entry? p with
  | none => exact Or.inr ⟨rfl, rfl⟩
  | some e => exact Or.inl rfl

theorem runs_stepJoining (hw : w.Reserved) {p : Path} (hc : w.entry? p = none → E (.created p.key)) (id : SubscriberId)
    (joined : SignalId) (other : Option SignalId) :
    Runs E w { joined := some joined } Activity.view {} (w.stepJoining p id joined other) := by
  unfold World.stepJoining
  split
  · rename_i ho
    obtain ⟨x, rfl, hx⟩ := (Option.any_eq_true _ _).1 ho
    exact .wait (.refl w _) (waits_signal (by simpa using hx) _)
  · have he := (entry?_or_new w p).imp_right fun h => And.intro h.1 (And.intro h.2 (hc h.1))
    dsimp only
    generalize (w.entry? p).getD { spelling := p } = e at he
    split
    · exact .ended (.effect (.quit rfl) rfl (.refl w))
    · split
      · rename_i x hx
        rcases he with he | ⟨-, rfl, -⟩
        · exact .go (does_setEntry he rfl fun _ h => Or.inl h)
        · simp at hx
      · exact runs_takePlace hw ⟨p, id, joined⟩ he

theorem runs_requestWatch (w : World) (p : Path) (id : SubscriberId) :
    Runs E w {} Activity.view {} (w.requestWatch p id) := by
  unfold World.requestWatch
  split
  · exact .ended (.refl w _)
  · exact .go (.effect (.join rfl) rfl (.silent (.refl _) (fun _ h => h) (fun _ h => h) (.refl _)))

theorem does_listen (w : World) (p : Path) (id : SubscriberId) (s : Stake) : Does E w s (w.listen p id).2 s := by
  unfold World.listen
  split
  · exact .refl w s
  · exact .aside rfl (ripple_spawn w .service rfl rfl)

theorem runs_register {seat : Seat} (hr : (w.entry? seat.path).isSome → E (.registered seat.path.key)) :
    Runs E w { joined := some seat.joined } Activity.view {} (w.register seat) := by
  unfold World.register
  cases he : w.entry? seat.path with
  | none => exact .ended (does_endSeat rfl)
  | some e =>
    have he₁ : World.entry? (w.listen seat.path seat.subscriber).2 seat.path = some e := by
      unfold World.listen
      split <;> exact he
    have h1 := does_listen (E := E) w seat.path seat.subscriber { joined := some seat.joined }
    have hr := hr (by rw [he]; rfl)
    dsimp only
    cases e.registered.get? seat.subscriber with
    | none => exact .ended ((h1.trans (does_setEntry he₁ (by rfl) fun _ _ => Or.inr hr)).trans (does_endSeat rfl))
    | some r =>
      have h2 := h1.then (core_cancelIf _ r.listener) (ripple_cancelIf _ _)
      have he₂ : World.entry? ((w.listen seat.path seat.subscriber).2.cancelIf r.listener) seat.path = some e := by
        cases r.listener <;> exact he₁
      exact .ended ((h2.trans (does_setEntry he₂ (by rfl) fun _ _ => Or.inr hr)).trans (does_endSeat rfl))

theorem runs_stepSettling {seat : Seat} {signal : Option SignalId}
    (hr : w.settles (.settling seat signal) seat → E (.registered seat.path.key)) :
    Runs E w { errand := settleErrand seat.path signal, joined := some seat.joined } Activity.view {}
      (w.stepSettling seat signal) := by
  have hturn : (settleErrand seat.path signal).turn? = none := by cases signal <;> rfl
  unfold World.stepSettling
  split
  · rename_i hx
    obtain ⟨x, rfl, hx⟩ := (Option.any_eq_true _ _).1 hx
    exact .wait (.refl w _) (waits_signal (by simpa using hx) _)
  · rename_i hno
    split
    · rename_i x hx
      obtain ⟨e, he, hx⟩ := Option.bind_eq_some_iff.1 hx
      exact .go (.effect (.settle seat.path e x hturn he hx) rfl (.refl w))
    · rename_i hx
      have hrest : Does E w { errand := settleErrand seat.path signal, joined := some seat.joined } w
          { joined := some seat.joined } := .effect (.rest hturn) rfl (.refl w)
      refine .after hrest (runs_register fun h => ?_)
      obtain ⟨e, he⟩ := Option.isSome_iff_exists.1 h
      rw [he] at hx
      exact hr ⟨signal, e, rfl, by simpa using hno, he, hx⟩

theorem runs_stepSynchronizing {seat : Seat} {r : Refresh}
    (ho : ∀ l o, r.look? = some l → r.finding w.disk = some o → E (.observed l.path.key o))
    (hd : ∀ p st, w.disk.stat p = .ok (some st) → E (.dated st.modified))
    (hc : ∀ l, r.look? = some l → r.fails w.disk = true → E (.cutShort l.path.key)) :
    Runs E w { errand := r.errand, joined := some seat.joined } Activity.view {} (w.stepSynchronizing seat r) := by
  have h := runs_stepRefresh (E := E) (s := { errand := r.errand, joined := some seat.joined }) rfl ho hd hc
  unfold World.stepSynchronizing
  rcases hx : w.stepRefresh r with ⟨w', r' | r' | r' | x⟩ <;> rw [hx] at h
  · exact .go h.does
  · exact .wait h.does (h.waits r' rfl)
  · exact .pause h.does
  · cases x with
    | ok b => exact .go h.does
    | error e => exact .after h.does (runs_releasePlace w' seat.path (.failed seat e))

theorem does_abandonSeat {seat : Seat} (hs : s.joined = some seat.joined) :
    Does E w s (w.abandonSeat seat) { s with joined := none } :=
  (does_endSeat hs).then (core_inBackground _ _) (ripple_inBackground _ _ (by simp))

theorem runs_stepListening (w : World) (p : Path) (id : SubscriberId) :
    Runs E w {} Activity.view {} (w.stepListening p id) := by
  unfold World.stepListening
  split
  · exact .ended (.aside (core_inBackground _ _) (ripple_inBackground _ _ (by simp)))
  · have hno : Waits w (.farewell id) none := waits_event (by simp) (by simp) (by simp) none
    exact .wait (.refl w _) hno

end LiveFiles.Engine
