/-
The small operations on the world keep worlds alike if they are given what is alike: turns and locks, background work and the ends
of tasks, entries, channels and the disk. There is one lemma for each (`Alike.reserve`, `Alike.giveBack`, `Alike.broadcast`,
`Alike.beginCall` and so on).
-/
import LiveFiles.Proofs.Twins

namespace LiveFiles.Engine

variable {S : Scope} {O : Tag → Prop} {θ θ' : Pairing} {w v w' v' : World} {p p' : Path} {s s' : SignalId} {τ τ' : Turn}
  {e e' : Entry}

/-! ## Turns -/

/-- turns at paths that can be seen are alike -/
structure TurnsAlike (S : Scope) (θ : Pairing) (t t' : Turns) : Prop where
  slots : Agree (S.seen · = true) (SlotAlike θ) t.slots t'.slots
  locks : ∀ a b, θ.on .lock a b → LockAlike θ (t.lock a) (t'.lock b)
  elsewhere : ∀ k s, S.seen k = false → t.slots.get? k = some s → s.lock < t.nextLock ∧ ∀ b, ¬θ.on .lock s.lock b

theorem Alike.turns (h : Alike S O θ w v) : TurnsAlike S θ w.turns v.turns := ⟨h.slots, h.locks, h.elsewhere⟩

variable {t t' : Turns}

/-- other turns instead, with the same numbers to come -/
theorem Alike.withTurns (h : Alike S O θ w v) (ht : TurnsAlike S θ t t')
    (hnext : t.nextTurn = w.turns.nextTurn ∧ t.nextLock = w.turns.nextLock)
    (hnext' : t'.nextTurn = v.turns.nextTurn ∧ t'.nextLock = v.turns.nextLock) :
    Alike S O θ { w with turns := t } { v with turns := t' } :=
  { h with
    counts := fun hS => by
      unfold World.counts
      dsimp only
      rw [hnext.1, hnext.2, hnext'.1, hnext'.2]
      exact h.counts hS
    slots := ht.slots
    made := h.made_mono ⟨le_rfl, le_rfl, hnext.1.ge, hnext.2.ge, le_rfl, le_rfl, le_rfl⟩
      ⟨le_rfl, le_rfl, hnext'.1.ge, hnext'.2.ge, le_rfl, le_rfl, le_rfl⟩
    others := h.others_mono ⟨le_rfl, le_rfl, hnext.1.ge, hnext.2.ge, le_rfl, le_rfl, le_rfl⟩
    locks := ht.locks
    elsewhere := ht.elsewhere }

theorem TurnsAlike.holds (hθ : θ.Fit S O) (h : TurnsAlike S θ t t') (hτ : TurnAlike S θ τ τ') : t.holds τ = t'.holds τ' := by
  unfold Turns.holds
  have hholder := (h.locks _ _ hτ.lock).holder
  generalize (t.lock τ.lock).holder = x at hholder
  generalize (t'.lock τ'.lock).holder = y at hholder
  cases hholder with
  | none => rfl
  | some hxy =>
    refine decide_eq_decide.2 ?_
    rw [Option.some.injEq, Option.some.injEq]
    exact hθ.eq_iff (fun _ _ h => Tag.turn.inj h) hxy hτ.id

theorem TurnsAlike.isIdle (h : TurnsAlike S θ t t') {k : Path.Key} (hk : S.seen k = true) : t.isIdle k = t'.isIdle k :=
  congrArg (! ·) (rel_isSome (h.slots k hk))

theorem LockAlike.join {l l' : Lock} (h : LockAlike θ l l') {a b : TurnId} (hab : θ.on .turn a b) :
    LockAlike θ (Turns.Lock.join l a) (Turns.Lock.join l' b) := by
  obtain ⟨x, q⟩ := l
  obtain ⟨y, q'⟩ := l'
  obtain ⟨hholder, hqueue⟩ := h
  cases hholder with
  | none => exact ⟨.some hab, hqueue⟩
  | some hxy => exact ⟨.some hxy, List.rel_append hqueue (.cons hab .nil)⟩

theorem TurnsAlike.queueUp (hθ : θ.Fit S O) (h : TurnsAlike S θ t t') (hτ : TurnAlike S θ τ τ') :
    TurnsAlike S θ (t.queueUp τ) (t'.queueUp τ') :=
  { h with
    locks := fun a b hab => by
      rw [Turns.lock_queueUp, Turns.lock_queueUp]
      have hiff := hθ.eq_iff (fun _ _ h => Tag.lock.inj h) hτ.lock hab
      by_cases ha : τ.lock = a
      · rw [if_pos ha, if_pos (hiff.1 ha)]
        exact (h.locks _ _ hτ.lock).join hτ.id
      · rw [if_neg ha, if_neg (mt hiff.2 ha)]
        exact h.locks a b hab }

theorem forall₂_erase (hθ : θ.Fit S O) {q q' : List TurnId} (h : List.Forall₂ (θ.on .turn) q q') {a b : TurnId}
    (hab : θ.on .turn a b) : List.Forall₂ (θ.on .turn) (q.erase a) (q'.erase b) := by
  induction h with
  | nil => exact .nil
  | @cons x y xs ys hxy hrest ih =>
    have hiff := hθ.eq_iff (fun _ _ h => Tag.turn.inj h) hxy hab
    rw [List.erase_cons, List.erase_cons]
    by_cases hx : x = a
    · rw [if_pos (beq_iff_eq.2 hx), if_pos (beq_iff_eq.2 (hiff.1 hx))]
      exact hrest
    · rw [if_neg (mt beq_iff_eq.1 hx), if_neg (mt beq_iff_eq.1 (mt hiff.2 hx))]
      exact .cons hxy ih

theorem LockAlike.leave (hθ : θ.Fit S O) {l l' : Lock} (h : LockAlike θ l l') {a b : TurnId} (hab : θ.on .turn a b) :
    LockAlike θ (Turns.Lock.leave l a).1 (Turns.Lock.leave l' b).1 ∧
      Option.Rel (θ.on .turn) (Turns.Lock.leave l a).2 (Turns.Lock.leave l' b).2 := by
  obtain ⟨x, q⟩ := l
  obtain ⟨y, q'⟩ := l'
  obtain ⟨hholder, hqueue⟩ := h
  have hiff : x = some a ↔ y = some b := by
    cases hholder with
    | none => exact ⟨nofun, nofun⟩
    | some hxy =>
      rw [Option.some.injEq, Option.some.injEq]
      exact hθ.eq_iff (fun _ _ h => Tag.turn.inj h) hxy hab
  unfold Turns.Lock.leave
  by_cases hx : x = some a
  · rw [if_pos hx, if_pos (hiff.1 hx)]
    cases hqueue with
    | nil => exact ⟨⟨.none, .nil⟩, .none⟩
    | cons hnext hrest => exact ⟨⟨.some hnext, hrest⟩, .some hnext⟩
  · rw [if_neg hx, if_neg (mt hiff.2 hx)]
    exact ⟨⟨hholder, forall₂_erase hθ hqueue hab⟩, .none⟩

theorem TurnsAlike.giveBack (hθ : θ.Fit S O) (h : TurnsAlike S θ t t') (hτ : TurnAlike S θ τ τ') :
    TurnsAlike S θ (t.giveBack τ).1 (t'.giveBack τ').1 ∧ Option.Rel (θ.on .turn) (t.giveBack τ).2 (t'.giveBack τ').2 := by
  have hleave := (h.locks _ _ hτ.lock).leave hθ hτ.id
  have hinsert : ∀ a b, θ.on .lock a b →
      LockAlike θ (({ t with locks := t.locks.insert τ.lock (Turns.Lock.leave (t.lock τ.lock) τ.id).1 } : Turns).lock a)
        (({ t' with locks := t'.locks.insert τ'.lock (Turns.Lock.leave (t'.lock τ'.lock) τ'.id).1 } : Turns).lock b) := by
    intro a b hab
    rw [Turns.lock_insert, Turns.lock_insert]
    have hiff := hθ.eq_iff (fun _ _ h => Tag.lock.inj h) hτ.lock hab
    by_cases ha : τ.lock = a
    · rw [if_pos ha, if_pos (hiff.1 ha)]
      exact hleave.1
    · rw [if_neg ha, if_neg (mt hiff.2 ha)]
      exact h.locks a b hab
  refine ⟨?_, by rw [Turns.giveBack_snd, Turns.giveBack_snd]; exact hleave.2⟩
  have hslot := h.slots τ.key hτ.seen
  unfold Turns.giveBack
  rw [← hτ.key]
  dsimp only
  cases hs : t.slots.get? τ.key <;> cases hs' : t'.slots.get? τ.key <;> rw [hs, hs'] at hslot
  case none.none => exact { h with locks := hinsert }
  case none.some => cases hslot
  case some.none => cases hslot
  case some.some slot slot' =>
    obtain ⟨hlock, husers⟩ : SlotAlike θ slot slot' := by
      cases hslot with
      | some h => exact h
    dsimp only
    rw [← husers]
    have hother : ∀ {k : Path.Key}, S.seen k = false → τ.key ≠ k := by
      rintro k hk rfl
      exact Bool.false_ne_true (hk.symm.trans hτ.seen)
    split
    · refine ⟨h.slots.erase _, fun a b hab => ?_, fun k s hk hs => h.elsewhere k s hk ?_⟩
      · have hiff := hθ.eq_iff (fun _ _ h => Tag.lock.inj h) hlock hab
        have herase : ∀ (l : Table LockId Lock) (i j : LockId), (l.erase i).getD j {} = if i = j then {} else l.getD j {} := by
          intro l i j
          rw [Table.getD, Table.getD, Table.get?_erase]
          split <;> rfl
        change LockAlike θ (((t.locks.insert τ.lock _).erase slot.lock).getD a {})
          (((t'.locks.insert τ'.lock _).erase slot'.lock).getD b {})
        rw [herase, herase]
        by_cases ha : slot.lock = a
        · rw [if_pos ha, if_pos (hiff.1 ha)]
          exact ⟨.none, .nil⟩
        · rw [if_neg ha, if_neg (mt hiff.2 ha)]
          exact hinsert a b hab
      · rwa [Table.get?_erase, if_neg (hother hk)] at hs
    · refine ⟨h.slots.insert _ ⟨hlock, rfl⟩, hinsert, fun k s hk hs => h.elsewhere k s hk ?_⟩
      rwa [Table.get?_insert, if_neg (hother hk)] at hs

theorem Alike.queueUp (h : Alike S O θ w v) (hτ : TurnAlike S θ τ τ') : Alike S O θ (w.queueUp τ) (v.queueUp τ') :=
  h.withTurns (h.turns.queueUp h.fit hτ) ⟨rfl, rfl⟩ ⟨rfl, rfl⟩

theorem Alike.giveBack (h : Alike S O θ w v) (hτ : TurnAlike S θ τ τ') : Alike S O θ (w.giveBack τ) (v.giveBack τ') := by
  obtain ⟨hturns, hnext⟩ := h.turns.giveBack h.fit hτ
  have hback := h.withTurns hturns ⟨Turns.nextTurn_giveBack _ _, Turns.nextLock_giveBack _ _⟩
    ⟨Turns.nextTurn_giveBack _ _, Turns.nextLock_giveBack _ _⟩
  unfold World.giveBack
  dsimp only
  generalize (w.turns.giveBack τ).2 = x at hnext
  generalize (v.turns.giveBack τ').2 = y at hnext
  cases hnext with
  | some hid => exact hback.wake (.turn hid)
  | none => exact hback

theorem Alike.giveBackIf (h : Alike S O θ w v) {o o' : Option Turn} (ho : Option.Rel (TurnAlike S θ) o o') :
    Alike S O θ (w.giveBackIf o) (v.giveBackIf o') := by
  cases ho with
  | some hτ => exact h.giveBack hτ
  | none => exact h

/-- **Turns that are reserved at paths that are alike are alike.** -/
theorem Alike.reserve (h : Alike S O θ w v) (hp : S.path p p') :
    ∃ θ', θ ≤ θ' ∧ Alike S O θ' (w.reserve p).2 (v.reserve p').2 ∧ TurnAlike S θ' (w.reserve p).1 (v.reserve p').1 := by
  have hseen := S.visible hp
  have hslot := h.slots p.key hseen
  have hother : ∀ {slots : Table Path.Key Slot} {new : Slot} {P : Slot → Prop},
      (∀ k s, S.seen k = false → slots.get? k = some s → P s) →
      ∀ k s, S.seen k = false → (slots.insert p.key new).get? k = some s → P s := by
    intro slots new P hslots k s hk hs
    have hne : p.key ≠ k := by
      rintro rfl
      exact Bool.false_ne_true (hk.symm.trans hseen)
    rw [Table.get?_insert, if_neg hne] at hs
    exact hslots k s hk hs
  unfold World.reserve Turns.reserve
  rw [← S.key hp]
  cases hs : w.turns.slots.get? p.key <;> cases hs' : v.turns.slots.get? p.key <;> rw [hs, hs'] at hslot
  case none.some => cases hslot
  case some.none => cases hslot
  case some.some slot slot' =>
    obtain ⟨hlock, husers⟩ : SlotAlike θ slot slot' := by
      cases hslot with
      | some h => exact h
    have hnext := h.nextTurn
    refine ⟨_, θ.le_also _ _, hnext.withTurns ⟨?_, hnext.locks, ?_⟩ ⟨rfl, rfl⟩ ⟨rfl, rfl⟩,
      ⟨θ.also_self _ _, rfl, hseen, Or.inl hlock⟩⟩
    · exact hnext.slots.insert _ ⟨Or.inl hlock, congrArg (· + 1) husers⟩
    · exact hother hnext.elsewhere
  case none.none =>
    have hnext := h.nextTurn.nextLock
    have hpair := Pairing.also_self (θ.also (.turn w.turns.nextTurn) (.turn v.turns.nextTurn)) (.lock w.turns.nextLock)
      (.lock v.turns.nextLock)
    refine ⟨_, (θ.le_also _ _).trans (Pairing.le_also _ _ _), hnext.withTurns ⟨?_, hnext.locks, ?_⟩ ⟨rfl, rfl⟩ ⟨rfl, rfl⟩,
      ⟨Or.inl (θ.also_self _ _), rfl, hseen, hpair⟩⟩
    · exact hnext.slots.insert _ ⟨hpair, rfl⟩
    · exact hother hnext.elsewhere

/-- **Waiting until nobody has a turn at a path goes alike.** -/
theorem Alike.awaitIdle (h : Alike S O θ w v) (hp : S.path p p') {o o' : Option Turn} (ho : Option.Rel (TurnAlike S θ) o o') :
    Like S O θ (fun θ' => SectionAlike (Option.Rel (TurnAlike S θ')) fun _ _ => True) (w.awaitIdle p o) (v.awaitIdle p' o') := by
  cases ho with
  | some hτ =>
    unfold World.awaitIdle
    dsimp only
    rw [← h.turns.holds h.fit hτ]
    split
    · exact ⟨θ, le_rfl, h.giveBack hτ, .go .none⟩
    · exact ⟨θ, le_rfl, h, .wait (.some hτ)⟩
  | none =>
    unfold World.awaitIdle
    dsimp only
    rw [← S.key hp, ← h.turns.isIdle (S.visible hp)]
    split
    · exact ⟨θ, le_rfl, h, .ended trivial⟩
    · obtain ⟨θ', hle, hw, hτ⟩ := h.reserve hp
      exact ⟨θ', hle, hw.queueUp hτ, .go (.some hτ)⟩

/-! ## Background work, and the ends of tasks -/

theorem Alike.inBackground (h : Alike S O θ w v) {y y' : Request} (hy : RequestAlike S y y') :
    ∃ θ', θ ≤ θ' ∧ Alike S O θ' (w.inBackground y) (v.inBackground y') := by
  have hiff : w.pool.closed = true ↔ v.pool.closed = true := by rw [h.closed]
  unfold World.inBackground Pool.accept
  by_cases hc : w.pool.closed = true
  · rw [if_pos hc, if_pos (hiff.1 hc)]
    exact ⟨θ, le_rfl, h⟩
  · rw [if_neg hc, if_neg (mt hiff.2 hc)]
    have hpool : Alike S O θ { w with pool := { w.pool with next := w.pool.next + 1, active := w.pool.active + 1 } }
        { v with pool := { v.pool with next := v.pool.next + 1, active := v.pool.active + 1 } } :=
      { h with active := fun hS => congrArg (· + 1) (h.active hS) }
    exact ⟨_, θ.le_also _ _, (hpool.wake .quiet).spawn .background (.starting hy)⟩

theorem endingsOf_append (x : World) (i j : TaskId) (e : Ending) :
    ({ x with endings := x.endings ++ [(i, e)] } : World).endingsOf j = x.endingsOf j ++ if i = j then [e] else [] := by
  rw [World.endingsOf, List.filter_append, List.map_append]
  congr 1
  rw [List.filter_cons, List.filter_nil]
  by_cases hij : i = j
  · rw [if_pos hij, if_pos (decide_eq_true hij)]
    rfl
  · rw [if_neg hij, if_neg (by simpa using hij)]
    rfl

/-- calls end alike -/
theorem Alike.ends (h : Alike S O θ w v) {i j : TaskId} (hij : θ.on .task i j) {x x' : Ending} (hx : EndingAlike S θ x x') :
    Alike S O θ { w with endings := w.endings ++ [(i, x)] } { v with endings := v.endings ++ [(j, x')] } :=
  { h with
    endings := fun a b hab => by
      rw [endingsOf_append, endingsOf_append]
      refine List.rel_append (h.endings a b hab) ?_
      have hiff := h.fit.eq_iff (fun _ _ h => Tag.task.inj h) hij hab
      by_cases hi : i = a
      · rw [if_pos hi, if_pos (hiff.1 hi)]
        exact .cons hx .nil
      · rw [if_neg hi, if_neg (mt hiff.2 hi)]
        exact .nil
    ended := by
      constructor
      · intro e he
        rcases List.mem_append.1 he with he | he
        · exact h.ended.1 e he
        · rw [List.mem_singleton.1 he]
          exact Or.inl ⟨j, hij⟩
      · intro e he
        rcases List.mem_append.1 he with he | he
        · exact h.ended.2 e he
        · rw [List.mem_singleton.1 he]
          exact ⟨i, hij⟩ }

theorem Alike.finishPool (h : Alike S O θ w v) :
    Alike S O θ ({ w with pool := w.pool.finish }.wake .quiet) ({ v with pool := v.pool.finish }.wake .quiet) := by
  have hpool : Alike S O θ { w with pool := w.pool.finish } { v with pool := v.pool.finish } :=
    { h with active := fun hS => congrArg (· - 1) (h.active hS) }
  exact hpool.wake .quiet

theorem Alike.finish (h : Alike S O θ w v) {i j : TaskId} (hij : θ.on .task i j) (role : Role) {e e' : Ending}
    (he : EndingAlike S θ e e') : Alike S O θ (w.finish i role e) (v.finish j role e') := by
  cases role with
  | caller => exact h.ends hij he
  | background => exact h.finishPool
  | service => exact h

/-! ## Entries -/

theorem Alike.entry? (h : Alike S O θ w v) (hp : S.path p p') : Option.Rel (EntryAlike S θ) (w.entry? p) (v.entry? p') := by
  have hentry := h.entries p.key (S.visible hp)
  rw [World.entry?, World.entry?, ← S.key hp]
  exact hentry

theorem Alike.setEntry (h : Alike S O θ w v) (hp : S.path p p') (he : EntryAlike S θ e e') :
    Alike S O θ (w.setEntry p e) (v.setEntry p' e') := by
  unfold World.setEntry
  rw [← S.key hp]
  exact
    { h with
      entries := h.entries.insert p.key he
      keys := fun hS => by rw [keys_insert, keys_insert, h.keys hS] }

theorem keys_map {κ α β : Type} (t : Table κ α) (f : κ → α → β) : (t.map f).keys = t.keys := by
  rw [Table.keys, Table.keys, Table.map, List.map_map]
  rfl

theorem Alike.modifyEntry (h : Alike S O θ w v) (hp : S.path p p') {f g : Entry → Entry}
    (hfg : ∀ e e', EntryAlike S θ e e' → EntryAlike S θ (f e) (g e')) :
    Alike S O θ (w.modifyEntry p f) (v.modifyEntry p' g) := by
  unfold World.modifyEntry
  rw [← S.key hp]
  exact
    { h with
      entries := h.entries.modify p.key hfg
      keys := fun hS => (keys_map _ _).trans ((h.keys hS).trans (keys_map _ _).symm) }

theorem Alike.dropEntry (h : Alike S O θ w v) (hp : S.path p p') : Alike S O θ (w.dropEntry p) (v.dropEntry p') := by
  unfold World.dropEntry
  rw [← S.key hp]
  exact
    { h with
      entries := h.entries.erase p.key
      keys := fun hS => by rw [keys_erase, keys_erase, h.keys hS] }

theorem EntryAlike.snapshot (he : EntryAlike S θ e e') (hp : S.path p p') : SnapshotAlike S θ (e.snapshot p) (e'.snapshot p') := by
  unfold Entry.snapshot
  rw [← he.contents]
  cases e.contents with
  | none => exact ⟨hp, rfl, .none⟩
  | some text => exact ⟨hp, rfl, .some ⟨rfl, he.modified, he.external⟩⟩

/-- **A new reconciliation is requested alike.** -/
theorem Alike.beginQuery (h : Alike S O θ w v) (he : EntryAlike S θ e e') :
    ∃ θ', θ ≤ θ' ∧ Alike S O θ' (w.beginQuery e).2.2 (v.beginQuery e').2.2 ∧
      EntryAlike S θ' (w.beginQuery e).2.1 (v.beginQuery e').2.1 ∧ θ'.on .query (w.beginQuery e).1 (v.beginQuery e').1 := by
  have hnone : (e.pendingQuery.isNone || e.pendingSignal.isNone) = (e'.pendingQuery.isNone || e'.pendingSignal.isNone) := by
    rw [← Option.not_isSome, ← Option.not_isSome, ← Option.not_isSome, ← Option.not_isSome, rel_isSome he.pendingQuery,
      rel_isSome he.pendingSignal]
  have hle := θ.le_also (.query w.nextQuery) (.query v.nextQuery)
  have hself := θ.also_self (.query w.nextQuery) (.query v.nextQuery)
  unfold World.beginQuery
  dsimp only
  rw [← hnone]
  split
  · have hle' := Pairing.le_also (θ.also (.query w.nextQuery) (.query v.nextQuery)) (.signal w.signals.next) (.signal v.signals.next)
    have hself' := Pairing.also_self (θ.also (.query w.nextQuery) (.query v.nextQuery)) (.signal w.signals.next)
      (.signal v.signals.next)
    refine ⟨_, hle.trans hle', h.nextQuery.freshSignal, ?_, hle' _ _ hself⟩
    exact { he.mono (hle.trans hle') with pendingQuery := .some (hle' _ _ hself), pendingSignal := .some hself' }
  · exact ⟨_, hle, h.nextQuery, { he.mono hle with pendingQuery := .some hself }, hself⟩

theorem forall₂_ungiven (h : Alike S O θ w v) {l l' : List SignalId} (hl : List.Forall₂ (θ.on .signal) l l') :
    List.Forall₂ (θ.on .signal) (l.filter fun x => !w.signals.isGiven x) (l'.filter fun x => !v.signals.isGiven x) := by
  induction hl with
  | nil => exact .nil
  | @cons a b as bs hab _ ih =>
    rw [List.filter_cons, List.filter_cons, h.given a b hab]
    split
    · exact .cons hab ih
    · exact ih

theorem Alike.forgetRevoked (h : Alike S O θ w v) (hp : S.path p p') : Alike S O θ (w.forgetRevoked p) (v.forgetRevoked p') :=
  h.modifyEntry hp fun _ _ he => { he with revokedSignals := forall₂_ungiven h he.revokedSignals }

theorem toList_alike {o o' : Option SignalId} (ho : Option.Rel (θ.on .signal) o o') :
    List.Forall₂ (θ.on .signal) o.toList o'.toList := by
  cases ho with
  | some hx => exact .cons hx .nil
  | none => exact .nil

theorem EntryAlike.unsettled (h : Alike S O θ w v) (he : EntryAlike S θ e e') :
    Option.Rel (θ.on .signal) (e.unsettled w.signals) (e'.unsettled v.signals) := by
  have hall : List.Forall₂ (θ.on .signal) (e.pendingSignal.toList ++ e.runningSignal.toList ++ e.revokedSignals)
      (e'.pendingSignal.toList ++ e'.runningSignal.toList ++ e'.revokedSignals) :=
    List.rel_append (List.rel_append (toList_alike he.pendingSignal) (toList_alike he.runningSignal)) he.revokedSignals
  unfold Entry.unsettled
  generalize e.pendingSignal.toList ++ e.runningSignal.toList ++ e.revokedSignals = l at hall
  generalize e'.pendingSignal.toList ++ e'.runningSignal.toList ++ e'.revokedSignals = l' at hall
  induction hall with
  | nil => exact .none
  | @cons a b as bs hab _ ih =>
    rw [List.find?_cons, List.find?_cons, h.given a b hab]
    cases v.signals.isGiven b with
    | true => exact ih
    | false => exact .some hab

/-! ## Channels -/

theorem ChannelAlike.send {α : Type} {visible : α → Bool} {r : α → α → Prop} {c c' : Channel α}
    (h : ChannelAlike visible r c c') {x x' : α} (hx : r x x') (hv : visible x = true) :
    ChannelAlike visible r (c.send x) (c'.send x') := by
  unfold Channel.send
  rw [← h.isOpen]
  split
  · refine ⟨?_, rfl, h.receiver, h.sender⟩
    dsimp only
    rw [List.filter_append, List.filter_cons, if_pos hv]
    exact List.rel_append h.buffer (.cons hx .nil)
  · exact h

theorem Alike.broadcast (h : Alike S O θ w v) {x x' : Snapshot} (hx : SnapshotAlike S θ x x') :
    Alike S O θ (w.broadcast x) (v.broadcast x') := by
  have hentry := h.entry? hx.path
  unfold World.broadcast
  generalize w.entry? x.path = e at hentry
  generalize v.entry? x'.path = e' at hentry
  cases hentry with
  | none => exact h
  | some he =>
    refine { h with channels := ?_ }
    have hchannels := h.channels
    dsimp only
    rw [← he.registered.keys]
    generalize Table.keys _ = ids
    generalize w.channels = cs at hchannels
    generalize v.channels = cs' at hchannels
    induction ids generalizing cs cs' with
    | nil => exact hchannels
    | cons id ids ih =>
      exact ih _ _ (hchannels.modify id fun c c' hc => hc.send hx (S.visible hx.path))

/-! ## The disk -/

theorem Alike.isOpen (h : Alike S O θ w v) {g g' : GateId} (hg : θ.on .gate g g') : w.disk.isOpen g = v.disk.isOpen g' := by
  have hgate := h.gates g g' hg
  unfold Disk.isOpen Table.getD
  generalize w.disk.gates.get? g = x at hgate
  generalize v.disk.gates.get? g' = x' at hgate
  cases hgate with
  | some hx => exact hx
  | none => rfl

theorem Alike.modifyGate (h : Alike S O θ w v) {g g' : GateId} (hg : θ.on .gate g g') {f f' : Gate → Gate}
    (hf : ∀ x x', GateAlike x x' → GateAlike (f x) (f' x')) (a b : GateId) (hab : θ.on .gate a b) :
    Option.Rel GateAlike ((w.disk.gates.modify g f).get? a) ((v.disk.gates.modify g' f').get? b) := by
  rw [Table.get?_modify, Table.get?_modify]
  have hiff := h.fit.eq_iff (fun _ _ h => Tag.gate.inj h) hg hab
  by_cases hga : g = a
  · rw [if_pos hga, if_pos (hiff.1 hga)]
    exact rel_map (h.gates a b hab) hf
  · rw [if_neg hga, if_neg (mt hiff.2 hga)]
    exact h.gates a b hab

/-- a call that comes to a gate -/
def Gate.reached (x : Gate) : Gate := { x with arrivals := x.arrivals + 1 }

theorem gates_enter (d : Disk) (op : DiskOp) (p : Path) :
    (d.enter op p).1.gates = match (d.enter op p).2 with
      | some g => d.gates.modify g Gate.reached
      | none => d.gates := rfl

theorem Agree.getD_eq {κ α : Type} [DecidableEq κ] {on : κ → Prop} {t t' : Table κ α} (h : Agree on Eq t t') {k : κ}
    (hk : on k) (a : α) : t.getD k a = t'.getD k a := h.getD hk rfl

theorem Alike.enter (h : Alike S O θ w v) (op : DiskOp) (hp : S.path p p') :
    Alike S O θ { w with disk := (w.disk.enter op p).1 } { v with disk := (v.disk.enter op p').1 } ∧
      Option.Rel (θ.on .gate) (w.disk.enter op p).2 (v.disk.enter op p').2 := by
  have hseen := S.visible hp
  have henter : Option.Rel (θ.on .gate) (w.disk.enter op p).2 (v.disk.enter op p').2 := by
    change Option.Rel _ (w.disk.gateFor.get? (op, p.key)) (v.disk.gateFor.get? (op, p'.key))
    rw [← S.key hp]
    exact h.gateFor (op, p.key) hseen
  have hnow : w.disk.underWayAt p = v.disk.underWayAt p' := by
    rw [Disk.underWayAt, Disk.underWayAt, ← S.key hp, h.underWay.getD_eq hseen]
  have hmost : w.disk.mostUnderWayAt p = v.disk.mostUnderWayAt p' := by
    rw [Disk.mostUnderWayAt, Disk.mostUnderWayAt, ← S.key hp, h.mostUnderWay.getD_eq hseen]
  have hcalls : w.disk.callCount op p = v.disk.callCount op p' := by
    rw [Disk.callCount, Disk.callCount, ← S.key hp, Agree.getD_eq h.diskCalls (k := (op, p.key)) hseen]
  constructor
  · exact
      { h with
        diskCalls := by
          change Agree _ Eq (w.disk.calls.insert (op, p.key) _) (v.disk.calls.insert (op, p'.key) _)
          rw [← S.key hp]
          exact h.diskCalls.insert _ (congrArg (· + 1) hcalls)
        underWay := by
          change Agree _ Eq (w.disk.underWay.insert p.key _) (v.disk.underWay.insert p'.key _)
          rw [← S.key hp]
          exact h.underWay.insert _ (congrArg (· + 1) hnow)
        mostUnderWay := by
          change Agree _ Eq (w.disk.mostUnderWay.insert p.key _) (v.disk.mostUnderWay.insert p'.key _)
          rw [← S.key hp]
          exact h.mostUnderWay.insert _ (congrArg₂ max hmost (congrArg (· + 1) hnow))
        gates := fun a b hab => by
          dsimp only
          rw [gates_enter, gates_enter]
          generalize (w.disk.enter op p).2 = g at henter
          generalize (v.disk.enter op p').2 = g' at henter
          cases henter with
          | none => exact h.gates a b hab
          | some hg =>
            have hreached : ∀ x x', GateAlike x x' → GateAlike (Gate.reached x) (Gate.reached x') := fun _ _ hx => hx
            exact h.modifyGate hg hreached a b hab
        gateTable := fun hS => by
          dsimp only
          rw [gates_enter, gates_enter, h.gateTable hS]
          generalize (w.disk.enter op p).2 = g at henter
          generalize (v.disk.enter op p').2 = g' at henter
          cases henter with
          | none => rfl
          | some hg => rw [Tag.gate.inj (h.fit.same hS _ _ hg)] }
  · exact henter

/-- **Calls to the disk begin alike.** -/
theorem Alike.beginCall {σ α β : Type} {r : Pairing → σ → σ → Prop} {q : Pairing → α → β → Prop} (h : Alike S O θ w v)
    (op : DiskOp) (hp : S.path p p') {k k' : Call → σ} (hk : ∀ c c', CallAlike θ c c' → r θ (k c) (k' c')) :
    Like S O θ (fun θ' => SectionAlike (r θ') (q θ')) (w.beginCall op p k) (v.beginCall op p' k') := by
  obtain ⟨henter, hgate⟩ := h.enter op hp
  unfold World.beginCall
  dsimp only
  generalize (w.disk.enter op p).2 = g at hgate
  generalize (v.disk.enter op p').2 = g' at hgate
  cases hgate with
  | none => exact ⟨θ, le_rfl, henter, .pause (hk _ _ .due)⟩
  | @some g g' hg =>
    dsimp only
    have hopen : (w.disk.enter op p).1.isOpen g = (v.disk.enter op p').1.isOpen g' := henter.isOpen hg
    rw [← hopen]
    split
    · exact ⟨θ, le_rfl, henter, .pause (hk _ _ .due)⟩
    · exact ⟨θ, le_rfl, henter, .wait (hk _ _ (.held hg))⟩

theorem Alike.atGate {σ α β : Type} {r : Pairing → σ → σ → Prop} {q : Pairing → α → β → Prop} (h : Alike S O θ w v)
    {g g' : GateId} (hg : θ.on .gate g g') {k k' : Call → σ} (hk : ∀ c c', CallAlike θ c c' → r θ (k c) (k' c')) :
    Like S O θ (fun θ' => SectionAlike (r θ') (q θ')) (w.atGate g k) (v.atGate g' k') := by
  unfold World.atGate
  rw [← h.isOpen hg]
  split
  · exact ⟨θ, le_rfl, h, .pause (hk _ _ .due)⟩
  · exact ⟨θ, le_rfl, h, .wait (hk _ _ (.held hg))⟩

theorem Alike.leaveDisk (h : Alike S O θ w v) (hp : S.path p p') : Alike S O θ (w.leaveDisk p) (v.leaveDisk p') := by
  unfold World.leaveDisk Disk.leave
  rw [← S.key hp]
  exact { h with underWay := h.underWay.modify p.key fun _ _ hab => congrArg (· - 1) hab }

/-- messages that end with the path -/
theorem FailureAlike.quotingLast (before : String) (hp : S.path p p') :
    FailureAlike S ⟨before ++ p.quoted, []⟩ ⟨before ++ p'.quoted, []⟩ := by
  have h := FailureAlike.quoting before "" hp
  rwa [String.append_empty, String.append_empty] at h

theorem Alike.failure? (h : Alike S O θ w v) (op : DiskOp) (hp : S.path p p') :
    Option.Rel (FailureAlike S) (w.disk.failure? op p) (v.disk.failure? op p') := by
  have hfailure := h.failures (op, p.key) (S.visible hp)
  unfold Disk.failure?
  rw [← S.key hp]
  refine rel_map hfailure ?_
  rintro m _ rfl
  exact .quotingLast (m ++ ": ") hp

theorem Alike.file? (h : Alike S O θ w v) (hp : S.path p p') : Option.Rel (FileAlike θ) (w.disk.file? p) (v.disk.file? p') := by
  unfold Disk.file?
  rw [← S.key hp]
  exact h.files p.key (S.visible hp)

theorem Alike.stat (h : Alike S O θ w v) (hp : S.path p p') :
    ResultAlike (FailureAlike S) (Option.Rel (StatAlike θ)) (w.disk.stat p) (v.disk.stat p') := by
  have hfailure := h.failure? .stat hp
  unfold Disk.stat
  generalize w.disk.failure? .stat p = f at hfailure
  generalize v.disk.failure? .stat p' = f' at hfailure
  cases hfailure with
  | some hf => exact .error hf
  | none => exact .ok (rel_map (h.file? hp) fun _ _ hf => ⟨hf.modified, congrArg ByteArray.size hf.bytes⟩)

theorem Alike.read (h : Alike S O θ w v) (hp : S.path p p') :
    ResultAlike (FailureAlike S) Eq (w.disk.read p) (v.disk.read p') := by
  have hfailure := h.failure? .read hp
  have hfile := h.file? hp
  unfold Disk.read
  generalize w.disk.failure? .read p = f at hfailure
  generalize v.disk.failure? .read p' = f' at hfailure
  generalize w.disk.file? p = x at hfile
  generalize v.disk.file? p' = x' at hfile
  cases hfailure with
  | some hf => exact .error hf
  | none =>
    cases hfile with
    | none => exact .error (.quotingLast "File not found: " hp)
    | some hx =>
      dsimp only
      rw [← hx.bytes]
      split
      · exact .ok rfl
      · exact .error (.same _)

/-- the date of the next tick -/
abbrev nextDate (c : Nat) : Tag := .date (.ofMillis ((c + 1 : Nat) : Int))

theorem lt_nextDate {t : Instant} {c : Nat} (h : t.nanos ≤ (Instant.ofMillis c).nanos) :
    t.nanos < (Instant.ofMillis ((c + 1 : Nat) : Int)).nanos := by
  simp only [Instant.ofMillis] at h ⊢
  omega

theorem not_made_nextDate (c : Counts) : ¬(nextDate c.clock).Made c := by
  simp only [Tag.Made, Instant.ofMillis]
  omega

/-- **The next dates stand for each other.** -/
theorem Alike.tick (h : Alike S O θ w v) :
    Alike S O (θ.also (nextDate w.disk.clock) (nextDate v.disk.clock)) (w.onDisk fun d => { d with clock := d.clock + 1 })
      (v.onDisk fun d => { d with clock := d.clock + 1 }) := by
  have hlater : ∀ c : Counts, c.Later { c with clock := c.clock + 1 } := fun c =>
    ⟨le_rfl, le_rfl, le_rfl, le_rfl, le_rfl, le_rfl, Nat.le_succ _⟩
  have hcounted : Alike S O θ (w.onDisk fun d => { d with clock := d.clock + 1 }) (v.onDisk fun d => { d with clock := d.clock + 1 }) :=
    { h with
      counts := fun hS => congrArg (fun c => { c with clock := c.clock + 1 }) (h.counts hS)
      made := h.made_mono (hlater _) (hlater _)
      others := h.others_mono (hlater _) }
  have hfresh := h.fresh (not_made_nextDate w.counts) (not_made_nextDate v.counts)
  refine hcounted.also ?_ hfresh.1 hfresh.2 (fun hS => ?_) fun t u htu => ?_
  · exact ⟨le_refl (Instant.ofMillis _).nanos, le_refl (Instant.ofMillis _).nanos⟩
  · exact congrArg nextDate (congrArg Counts.clock (h.counts hS))
  · exact ⟨lt_nextDate (h.made _ _ htu).1, lt_nextDate (h.made _ _ htu).2⟩

/-- **Files that are put in place alike have dates that stand for each other.** -/
theorem Alike.putFile (h : Alike S O θ w v) (hp : S.path p p') (bytes : ByteArray) :
    Alike S O (θ.also (nextDate w.disk.clock) (nextDate v.disk.clock)) (w.onDisk (·.putFile p bytes))
      (v.onDisk (·.putFile p' bytes)) := by
  have htick := h.tick
  unfold World.onDisk Disk.putFile
  rw [← S.key hp]
  exact { htick with files := htick.files.insert p.key ⟨rfl, θ.also_self _ _⟩ }

/-- **Writes to the disk are carried out alike.** -/
theorem Alike.write (h : Alike S O θ w v) (hp : S.path p p') (bytes : ByteArray) :
    ∃ θ', θ ≤ θ' ∧ Alike S O θ' { w with disk := (w.disk.write p bytes).1 } { v with disk := (v.disk.write p' bytes).1 } ∧
      ResultAlike (FailureAlike S) Eq (w.disk.write p bytes).2 (v.disk.write p' bytes).2 := by
  have hfailure := h.failure? .write hp
  unfold Disk.write
  generalize w.disk.failure? .write p = f at hfailure
  generalize v.disk.failure? .write p' = f' at hfailure
  cases hfailure with
  | some hf => exact ⟨θ, le_rfl, h, .error hf⟩
  | none => exact ⟨_, θ.le_also _ _, h.putFile hp bytes, .ok rfl⟩

end LiveFiles.Engine
