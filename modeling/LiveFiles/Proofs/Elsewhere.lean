/-
What happens elsewhere. Operations on the world at a path which cannot be seen change nothing of what can be seen, nor of what has
been paired: a world that was alike another one still is (`Resembles`). There is one lemma for each of the small operations, as there
is for operations that are carried out side by side: `Resembles.give`, `Resembles.giveBack`, `Resembles.reserve`,
`Resembles.broadcast` and so on.
-/
import LiveFiles.Proofs.Parallel

namespace LiveFiles.Engine

/-- The first world is like the second as far as can be seen. It has tags of others beside, these (`P`) and perhaps more. -/
structure Resembles (S : Scope) (P : Tag → Prop) (θ : Pairing) (w v : World) : Prop where
  part : ¬S.whole
  alike : ∃ O, P ≤ O ∧ Alike S O θ w v

/-- what is seen in one scope has nothing to do with another one, and what is paired there belongs to others -/
structure Separate (S T : Scope) (P : Tag → Prop) (η : Pairing) : Prop where
  keys : ∀ k, T.seen k = true → S.seen k = false
  signal : ∀ s c, η.on .signal s c → P (.signal s)
  lock : ∀ l c, η.on .lock l c → P (.lock l)

variable {S T : Scope} {P : Tag → Prop} {θ η : Pairing} {w v : World} {p p' : Path} {s s' : SignalId} {τ τ' : Turn} {e e' : Entry}
  {l l' : Look} {seat seat' : Seat} {job job' : SaveJob} {ts : Tasks Phase} {t : Turns}

theorem Separate.path (h : Separate S T P η) (hp : T.path p p') : S.seen p.key = false := h.keys _ (T.visible hp)

/-! ## Tables -/

section Tables

variable {κ α β : Type} [DecidableEq κ] {on : κ → Prop} {r : α → β → Prop} {x : Table κ α} {y : Table κ β}

/-- what a table shows under other keys does not matter -/
theorem Agree.congr (h : Agree on r x y) {x' : Table κ α} (hx : ∀ k, on k → x'.get? k = x.get? k) : Agree on r x' y := by
  intro k hk
  rw [hx k hk]
  exact h k hk

theorem get?_insert_ne {k : κ} {a : α} {i : κ} (hi : k ≠ i) : (x.insert k a).get? i = x.get? i := by
  rw [Table.get?_insert, if_neg hi]

theorem get?_erase_ne {k i : κ} (hi : k ≠ i) : (x.erase k).get? i = x.get? i := by rw [Table.get?_erase, if_neg hi]

theorem get?_modify_ne {k i : κ} {f : α → α} (hi : k ≠ i) : (x.modify k f).get? i = x.get? i := by
  rw [Table.get?_modify, if_neg hi]

end Tables

theorem ne_of_seen {k i : Path.Key} (hk : S.seen k = false) (hi : S.seen i = true) : k ≠ i := by
  rintro rfl
  exact Bool.false_ne_true (hk.symm.trans hi)

/-! ## Tasks and signals -/

theorem Resembles.freshSignal (h : Resembles S P θ w v) : Resembles S P θ w.freshSignal.2 v := by
  obtain ⟨hS, O, hP, h⟩ := h
  have hlater : w.counts.Later w.freshSignal.2.counts := ⟨le_rfl, Nat.le_succ _, le_rfl, le_rfl, le_rfl, le_rfl, le_rfl⟩
  exact ⟨hS, O, hP,
    { h with
      counts := fun hw => absurd hw hS
      made := fun x y hxy => ⟨(h.made x y hxy).1.mono hlater, (h.made x y hxy).2⟩
      others := h.others_mono hlater
      old := ⟨fun a ha => (h.old.1 a ha).trans (Nat.lt_succ_self _), h.old.2⟩ }⟩

theorem Resembles.nextQuery (h : Resembles S P θ w v) : Resembles S P θ { w with nextQuery := w.nextQuery + 1 } v := by
  obtain ⟨hS, O, hP, h⟩ := h
  have hlater : w.counts.Later { w.counts with query := w.nextQuery + 1 } :=
    ⟨le_rfl, le_rfl, le_rfl, le_rfl, Nat.le_succ _, le_rfl, le_rfl⟩
  exact ⟨hS, O, hP,
    { h with
      counts := fun hw => absurd hw hS
      made := fun x y hxy => ⟨(h.made x y hxy).1.mono hlater, (h.made x y hxy).2⟩
      others := h.others_mono hlater }⟩

/-- other tasks instead, of which those that are paired are as they were -/
theorem Resembles.withTasks (h : Resembles S P θ w v) (hnext : ts.next = w.tasks.next)
    (hfloor : ∀ b, v.tasks.floor = some b → ∃ a, θ.on .task a b ∧ ts.floor = some a)
    (hlive : ∀ a b, θ.on .task a b → ts.live.get? a = w.tasks.live.get? a)
    (hcovered : ∀ id, (ts.live.get? id).isSome → (w.tasks.live.get? id).isSome) : Resembles S P θ { w with tasks := ts } v := by
  obtain ⟨hS, O, hP, h⟩ := h
  have hlater : w.counts.Later { w.counts with task := ts.next } := ⟨hnext.ge, le_rfl, le_rfl, le_rfl, le_rfl, le_rfl, le_rfl⟩
  exact ⟨hS, O, hP,
    { h with
      counts := fun hw => absurd hw hS
      floor := hfloor
      tasks := fun hw => absurd hw hS
      made := fun x y hxy => ⟨(h.made x y hxy).1.mono hlater, (h.made x y hxy).2⟩
      others := h.others_mono hlater
      live := fun a b hab => by
        dsimp only
        rw [hlive a b hab]
        exact h.live a b hab
      covered := ⟨fun id hid => h.covered.1 id (hcovered id hid), h.covered.2⟩ }⟩

theorem Resembles.floor (h : Resembles S P θ w v) {b : TaskId} (hb : v.tasks.floor = some b) :
    ∃ a, θ.on .task a b ∧ w.tasks.floor = some a := by
  obtain ⟨-, O, -, h⟩ := h
  exact h.floor b hb

theorem Resembles.wake (h : Resembles S P θ w v) (a : Await) : Resembles S P θ (w.wake a) v := by
  have hfloor : (w.wake a).tasks.floor = w.tasks.floor := (Tasks.grows_wake (P := fun _ => True) w.tasks _).floor
  refine h.withTasks (Tasks.next_wake _ _) (fun b hb => ?_) (fun x _ _ => ?_) fun id hid => ?_
  · obtain ⟨i, hi, hif⟩ := h.floor hb
    exact ⟨i, hi, hfloor.trans hif⟩
  · rw [Tasks.live_wake]
  · rwa [Tasks.live_wake] at hid

theorem Resembles.spawn (h : Resembles S P θ w v) (role : Role) (a : Activity) : Resembles S P θ (w.spawn role a).2 v := by
  obtain ⟨hS, O, hP, h⟩ := h
  have hlater : w.counts.Later (w.spawn role a).2.counts := ⟨Nat.le_succ _, le_rfl, le_rfl, le_rfl, le_rfl, le_rfl, le_rfl⟩
  have hnew : ∀ y, ¬θ (.task w.tasks.next) y := fun y hy => lt_irrefl _ (h.made _ _ hy).1
  refine ⟨hS, fun x => O x ∨ x = .task w.tasks.next, fun x hx => Or.inl (hP x hx), { h with
    counts := fun hw => absurd hw hS
    tasks := fun hw => absurd hw hS
    fit := { h.fit with apart := fun x y hxy => ?_ }
    made := fun x y hxy => ⟨(h.made x y hxy).1.mono hlater, (h.made x y hxy).2⟩
    others := ?_
    live := fun x y hxy => ?_
    covered := ⟨fun id hid => ?_, h.covered.2⟩
    ended := ⟨fun e he => (h.ended.1 e he).imp_right Or.inl, h.ended.2⟩ }⟩
  · rintro (hO | rfl)
    · exact h.fit.apart x y hxy hO
    · exact hnew y hxy
  · rintro x (hO | rfl)
    · exact h.others_mono hlater x hO
    · exact Nat.lt_succ_self w.tasks.next
  · have hne : w.tasks.next ≠ x := by
      rintro rfl
      exact hnew _ hxy
    change Option.Rel _ ((w.tasks.live.insert w.tasks.next _).get? x) _
    rw [get?_insert_ne hne]
    exact h.live x y hxy
  · change ((w.tasks.live.insert w.tasks.next _).get? id).isSome at hid
    by_cases hn : w.tasks.next = id
    · exact Or.inr (Or.inr (congrArg Tag.task hn.symm))
    · rw [get?_insert_ne hn] at hid
      exact (h.covered.1 id hid).imp_right Or.inl

/-- other tags than these stand for nothing -/
theorem Resembles.strange (h : Resembles S P θ w v) {x : Tag} (hx : P x) : x.Made w.counts ∧ ∀ y, ¬θ x y := by
  obtain ⟨-, O, hP, h⟩ := h
  exact ⟨h.others x (hP x hx), fun y hy => h.fit.apart x y hy (hP x hx)⟩

theorem Resembles.give (h : Resembles S P θ w v) (hs : P (.signal s)) : Resembles S P θ (w.give s) v := by
  obtain ⟨hmade, hstrange⟩ := h.strange hs
  obtain ⟨hS, O, hP, h⟩ := h
  have hlater : w.counts.Later { w.counts with signal := (w.signals.give s).next } :=
    ⟨le_rfl, (next_give w.signals s).ge, le_rfl, le_rfl, le_rfl, le_rfl, le_rfl⟩
  have hgiven : Resembles S P θ { w with signals := w.signals.give s } v :=
    ⟨hS, O, hP,
      { h with
        counts := fun hw => absurd hw hS
        made := fun x y hxy => ⟨(h.made x y hxy).1.mono hlater, (h.made x y hxy).2⟩
        others := h.others_mono hlater
        given := fun a b hab => by
          have hne : s ≠ a := by
            rintro rfl
            exact hstrange _ hab
          rw [Signals.isGiven_give, decide_eq_false hne, Bool.false_or]
          exact h.given a b hab
        old := ⟨lt_of_mem_give h.old.1 hmade, h.old.2⟩ }⟩
  exact hgiven.wake _

theorem Resembles.giveIf (h : Resembles S P θ w v) (hsep : Separate S T P η) {o o' : Option SignalId}
    (ho : Option.Rel (η.on .signal) o o') : Resembles S P θ (w.giveIf o) v := by
  cases ho with
  | some hs => exact h.give (hsep.signal _ _ hs)
  | none => exact h

/-- a task that stands for none, or is over, is cancelled -/
theorem Resembles.cancel (h : Resembles S P θ w v) {id : TaskId}
    (hid : (w.tasks.live.get? id).isSome → ∀ b, ¬θ.on .task id b) : Resembles S P θ (w.cancel id) v := by
  unfold World.cancel Tasks.cancel
  split
  · rename_i hlive
    refine h.withTasks (Tasks.next_enqueue _ _) (fun b hb => ?_) (fun a b hab => ?_) fun i hi => ?_
    · rw [Tasks.floor_enqueue]
      exact h.floor hb
    · have hne : id ≠ a := by
        rintro rfl
        exact hid hlive _ hab
      rw [Tasks.live_enqueue, get?_modify_ne hne]
    · rwa [Tasks.live_enqueue, isSome_get?_modify] at hi
  · exact h

/-! ## Turns -/

/-- other turns instead, of which those that can be seen are as they were -/
theorem Resembles.withTurns (h : Resembles S P θ w v) (hturn : w.turns.nextTurn ≤ t.nextTurn) (hlock : w.turns.nextLock ≤ t.nextLock)
    (hslots : ∀ k, S.seen k = true → t.slots.get? k = w.turns.slots.get? k)
    (hlocks : ∀ a b, θ.on .lock a b → t.lock a = w.turns.lock a)
    (helsewhere : ∀ k x, S.seen k = false → t.slots.get? k = some x → x.lock < t.nextLock ∧ ∀ b, ¬θ.on .lock x.lock b) :
    Resembles S P θ { w with turns := t } v := by
  obtain ⟨hS, O, hP, h⟩ := h
  have hlater : w.counts.Later { w.counts with turn := t.nextTurn, lock := t.nextLock } :=
    ⟨le_rfl, le_rfl, hturn, hlock, le_rfl, le_rfl, le_rfl⟩
  exact ⟨hS, O, hP,
    { h with
      counts := fun hw => absurd hw hS
      slots := h.slots.congr hslots
      made := fun x y hxy => ⟨(h.made x y hxy).1.mono hlater, (h.made x y hxy).2⟩
      others := h.others_mono hlater
      locks := fun a b hab => by
        dsimp only
        rw [hlocks a b hab]
        exact h.locks a b hab
      elsewhere := helsewhere }⟩

theorem Resembles.elsewhere (h : Resembles S P θ w v) {k : Path.Key} (hk : S.seen k = false) {x : Slot}
    (hx : w.turns.slots.get? k = some x) : x.lock < w.turns.nextLock ∧ ∀ b, ¬θ.on .lock x.lock b := by
  obtain ⟨-, O, -, h⟩ := h
  exact h.elsewhere k x hk hx

theorem Resembles.queueUp (h : Resembles S P θ w v) (hτ : ∀ b, ¬θ.on .lock τ.lock b) : Resembles S P θ (w.queueUp τ) v := by
  refine h.withTurns le_rfl le_rfl (fun _ _ => rfl) (fun a b hab => ?_) fun k x hk hx => h.elsewhere hk hx
  have hne : τ.lock ≠ a := fun ha => hτ b (ha ▸ hab)
  rw [Turns.lock_queueUp, if_neg hne]

theorem lock_giveBack_ne {b : LockId} (hτ : τ.lock ≠ b) (hslot : ∀ x, t.slots.get? τ.key = some x → x.lock ≠ b) :
    (t.giveBack τ).1.lock b = t.lock b := by
  cases hx : t.slots.get? τ.key with
  | none => rw [Turns.giveBack_of_none hx, Turns.lock_insert, if_neg hτ]
  | some x =>
    rw [Turns.giveBack_of_some hx]
    split
    · unfold Turns.lock Table.getD
      dsimp only
      rw [get?_erase_ne (hslot x hx), get?_insert_ne hτ]
    · exact (Turns.lock_insert t τ.lock b _).trans (if_neg hτ)

theorem Resembles.giveBack (h : Resembles S P θ w v) (hsep : Separate S T P η) (hτ : TurnAlike T η τ τ') :
    Resembles S P θ (w.giveBack τ) v := by
  have hkey : S.seen τ.key = false := hsep.keys _ hτ.seen
  have hstrange := (h.strange (hsep.lock _ _ hτ.lock)).2
  have hback : Resembles S P θ { w with turns := (w.turns.giveBack τ).1 } v := by
    refine h.withTurns (Turns.nextTurn_giveBack _ _).ge (Turns.nextLock_giveBack _ _).ge (fun k hk => ?_) (fun a b hab => ?_)
      fun k x hk hx => ?_
    · rw [Turns.slots_giveBack, if_neg (ne_of_seen hkey hk)]
    · refine lock_giveBack_ne (fun ha => ?_) fun x hx ha => ?_
      · subst ha
        exact hstrange _ hab
      · subst ha
        exact (h.elsewhere hkey hx).2 _ hab
    · rw [Turns.nextLock_giveBack]
      rw [Turns.slots_giveBack] at hx
      split at hx
      · obtain ⟨y, hy, hxy⟩ := Option.bind_eq_some_iff.1 hx
        split at hxy
        · cases hxy
        · cases hxy
          have hold := h.elsewhere hk hy
          exact hold
      · exact h.elsewhere hk hx
  unfold World.giveBack
  dsimp only
  cases (w.turns.giveBack τ).2 with
  | some id => exact hback.wake _
  | none => exact hback

theorem Resembles.giveBackIf (h : Resembles S P θ w v) (hsep : Separate S T P η) {o o' : Option Turn}
    (ho : Option.Rel (TurnAlike T η) o o') : Resembles S P θ (w.giveBackIf o) v := by
  cases ho with
  | some hτ => exact h.giveBack hsep hτ
  | none => exact h

/-- a turn that is reserved at a path that cannot be seen -/
theorem Resembles.reserve (h : Resembles S P θ w v) (hp : S.seen p.key = false) :
    Resembles S P θ (w.reserve p).2 v ∧ ∀ b, ¬θ.on .lock (w.reserve p).1.lock b := by
  have hnew : ∀ b, ¬θ.on .lock w.turns.nextLock b := by
    obtain ⟨-, O, -, h⟩ := h
    exact fun b hb => lt_irrefl _ (h.made _ _ hb).1
  unfold World.reserve Turns.reserve
  cases hs : w.turns.slots.get? p.key with
  | some x =>
    refine ⟨h.withTurns (Nat.le_succ _) le_rfl (fun k hk => get?_insert_ne (ne_of_seen hp hk)) (fun _ _ _ => rfl)
      fun k y hk hy => ?_, (h.elsewhere hp hs).2⟩
    dsimp only at hy ⊢
    rw [Table.get?_insert] at hy
    split at hy
    · cases hy
      have hold := h.elsewhere hp hs
      exact hold
    · exact h.elsewhere hk hy
  | none =>
    refine ⟨h.withTurns (Nat.le_succ _) (Nat.le_succ _) (fun k hk => get?_insert_ne (ne_of_seen hp hk)) (fun a b hab => ?_)
      fun k y hk hy => ?_, hnew⟩
    · have hne : w.turns.nextLock ≠ a := fun ha => hnew b (ha ▸ hab)
      exact (lock_withLock w a).trans (if_neg hne)
    · dsimp only at hy ⊢
      rw [Table.get?_insert] at hy
      split at hy
      · cases hy
        exact ⟨Nat.lt_succ_self _, hnew⟩
      · obtain ⟨hlt, hstrange⟩ := h.elsewhere hk hy
        exact ⟨hlt.trans (Nat.lt_succ_self _), hstrange⟩

theorem Resembles.awaitIdle (h : Resembles S P θ w v) (hsep : Separate S T P η) (hp : S.seen p.key = false) {o o' : Option Turn}
    (ho : Option.Rel (TurnAlike T η) o o') : Resembles S P θ (w.awaitIdle p o).1 v := by
  cases ho with
  | some hτ =>
    unfold World.awaitIdle
    dsimp only
    split
    · exact h.giveBack hsep hτ
    · exact h
  | none =>
    unfold World.awaitIdle
    dsimp only
    split
    · exact h
    · exact (h.reserve hp).1.queueUp (h.reserve hp).2

/-! ## Background work, and the ends of tasks -/

theorem Resembles.withPool (h : Resembles S P θ w v) {x : Pool} (hx : x.closed = w.pool.closed) :
    Resembles S P θ { w with pool := x } v := by
  obtain ⟨hS, O, hP, h⟩ := h
  exact ⟨hS, O, hP, { h with closed := hx.trans h.closed, active := fun hw => absurd hw hS }⟩

theorem Resembles.inBackground (h : Resembles S P θ w v) (y : Request) : Resembles S P θ (w.inBackground y) v := by
  unfold World.inBackground Pool.accept
  split
  · exact h
  · rename_i hx
    split at hx
    · cases hx
    · cases hx
      exact ((h.withPool (x := { w.pool with next := w.pool.next + 1, active := w.pool.active + 1 }) rfl).wake _).spawn _ _

/-- a task that stands for none ends -/
theorem Resembles.ends (h : Resembles S P θ w v) {i : TaskId} (hi : P (.task i)) (x : Ending) :
    Resembles S P θ { w with endings := w.endings ++ [(i, x)] } v := by
  have hstrange := (h.strange hi).2
  obtain ⟨hS, O, hP, h⟩ := h
  refine ⟨hS, O, hP, { h with
    endings := fun a b hab => ?_
    ended := ⟨fun e he => ?_, h.ended.2⟩ }⟩
  · have hne : i ≠ a := by
      rintro rfl
      exact hstrange _ hab
    rw [endingsOf_append, if_neg hne, List.append_nil]
    exact h.endings a b hab
  · rcases List.mem_append.1 he with he | he
    · exact h.ended.1 e he
    · rw [List.mem_singleton.1 he]
      exact Or.inr (hP _ hi)

theorem Resembles.finish (h : Resembles S P θ w v) {i : TaskId} (hi : P (.task i)) (role : Role) (e : Ending) :
    Resembles S P θ (w.finish i role e) v := by
  cases role with
  | caller => exact h.ends hi _
  | background => exact (h.withPool (x := w.pool.finish) rfl).wake _
  | service => exact h

/-! ## Entries and channels -/

theorem Resembles.withEntries (h : Resembles S P θ w v) {es : Table Path.Key Entry}
    (hes : ∀ k, S.seen k = true → es.get? k = w.entries.get? k) : Resembles S P θ { w with entries := es } v := by
  obtain ⟨hS, O, hP, h⟩ := h
  exact ⟨hS, O, hP, { h with entries := h.entries.congr hes, keys := fun hw => absurd hw hS }⟩

theorem Resembles.setEntry (h : Resembles S P θ w v) (hp : S.seen p.key = false) (e : Entry) :
    Resembles S P θ (w.setEntry p e) v :=
  h.withEntries fun _ hk => get?_insert_ne (ne_of_seen hp hk)

theorem Resembles.modifyEntry (h : Resembles S P θ w v) (hp : S.seen p.key = false) (f : Entry → Entry) :
    Resembles S P θ (w.modifyEntry p f) v :=
  h.withEntries fun _ hk => get?_modify_ne (ne_of_seen hp hk)

theorem Resembles.dropEntry (h : Resembles S P θ w v) (hp : S.seen p.key = false) : Resembles S P θ (w.dropEntry p) v :=
  h.withEntries fun _ hk => get?_erase_ne (ne_of_seen hp hk)

theorem Resembles.beginQuery (h : Resembles S P θ w v) (e : Entry) : Resembles S P θ (w.beginQuery e).2.2 v := by
  unfold World.beginQuery
  dsimp only
  split
  · exact h.nextQuery.freshSignal
  · exact h.nextQuery

/-- what cannot be seen is sent through a channel -/
theorem ChannelAlike.send_left {α : Type} {visible : α → Bool} {r : α → α → Prop} {c c' : Channel α}
    (h : ChannelAlike visible r c c') {x : α} (hx : visible x = false) : ChannelAlike visible r (c.send x) c' := by
  unfold Channel.send
  split
  · refine ⟨?_, h.isOpen, h.receiver, h.sender⟩
    dsimp only
    rw [List.filter_append, List.filter_cons, if_neg (by rw [hx]; exact Bool.false_ne_true), List.filter_nil, List.append_nil]
    exact h.buffer
  · exact h

theorem Agree.modify_left {κ α β : Type} [DecidableEq κ] {on : κ → Prop} {r : α → β → Prop} {x : Table κ α} {y : Table κ β}
    (h : Agree on r x y) (k : κ) {f : α → α} (hf : ∀ a b, r a b → r (f a) b) : Agree on r (x.modify k f) y := by
  intro i hi
  rw [Table.get?_modify]
  split
  · have hrel := rel_map (q := r) (g := id) (h i hi) hf
    rwa [Option.map_id] at hrel
  · exact h i hi

theorem Resembles.broadcast (h : Resembles S P θ w v) {x : Snapshot} (hx : S.seen x.path.key = false) :
    Resembles S P θ (w.broadcast x) v := by
  obtain ⟨hS, O, hP, h⟩ := h
  unfold World.broadcast
  split
  · exact ⟨hS, O, hP, h⟩
  · refine ⟨hS, O, hP, { h with channels := ?_ }⟩
    have hchannels := h.channels
    dsimp only
    generalize Table.keys _ = ids
    generalize w.channels = cs at hchannels
    induction ids generalizing cs with
    | nil => exact hchannels
    | cons id ids ih => exact ih _ (hchannels.modify_left id fun _ _ hc => hc.send_left hx)

theorem Resembles.tell (h : Resembles S P θ w v) {c : WatcherCall} (hc : S.seen c.path.key = false) :
    Resembles S P θ { w with watcher := { w.watcher with calls := w.watcher.calls ++ [c] } } v := by
  obtain ⟨hS, O, hP, h⟩ := h
  refine ⟨hS, O, hP, { h with calls := ?_ }⟩
  dsimp only
  rw [List.filter_append, List.filter_cons, if_neg (by rw [hc]; exact Bool.false_ne_true), List.filter_nil, List.append_nil]
  exact h.calls

theorem Resembles.tryToArm (h : Resembles S P θ w v) (hp : S.seen p.key = false) :
    Resembles S P θ { w with watcher := w.watcher.tryToArm p } v := by
  have hasked : (w.watcher.attempts ++ [p]).filter (fun x => S.seen x.key) = w.watcher.attempts.filter fun x => S.seen x.key := by
    rw [List.filter_append, List.filter_cons, if_neg (by rw [hp]; exact Bool.false_ne_true), List.filter_nil, List.append_nil]
  have htold : ∀ {u : World}, u.watcher.attempts = w.watcher.attempts → Resembles S P θ u v →
      Resembles S P θ { u with watcher := { u.watcher with attempts := w.watcher.attempts ++ [p] } } v := by
    intro u hu h
    obtain ⟨hS, O, hP, h⟩ := h
    refine ⟨hS, O, hP, { h with attempts := ?_ }⟩
    rw [hasked, ← hu]
    exact h.attempts
  unfold Watcher.tryToArm
  cases w.watcher.refuses p with
  | true => exact htold rfl h
  | false => exact htold (u := { w with watcher := w.watcher.arm p }) rfl (h.tell (c := .arm p) hp)

/-! ## The disk -/

/-- as far as can be seen one disk is like another, and its gates that there have been are as open -/
structure Scope.Leaves (S : Scope) (d d' : Disk) : Prop where
  files : ∀ k, S.seen k = true → d'.files.get? k = d.files.get? k
  calls : ∀ x : DiskOp × Path.Key, S.seen x.2 = true → d'.calls.get? x = d.calls.get? x
  failures : ∀ x : DiskOp × Path.Key, S.seen x.2 = true → d'.failures.get? x = d.failures.get? x
  gateFor : ∀ x : DiskOp × Path.Key, S.seen x.2 = true → d'.gateFor.get? x = d.gateFor.get? x
  underWay : ∀ k, S.seen k = true → d'.underWay.get? k = d.underWay.get? k
  mostUnderWay : ∀ k, S.seen k = true → d'.mostUnderWay.get? k = d.mostUnderWay.get? k
  gates : ∀ g, g < d.nextGate → Option.Rel GateAlike (d'.gates.get? g) (d.gates.get? g)
  nextGate : d.nextGate ≤ d'.nextGate
  clock : d.clock ≤ d'.clock

theorem rel_gate_self (x : Option Gate) : Option.Rel GateAlike x x := by
  cases x with
  | none => exact .none
  | some _ => exact .some rfl

theorem rel_gate_trans {x y z : Option Gate} (h : Option.Rel GateAlike x y) (h' : Option.Rel GateAlike y z) :
    Option.Rel GateAlike x z := by
  cases h with
  | none => exact h'
  | some h =>
    cases h' with
    | some h' => exact .some (Eq.trans h h')

theorem Scope.Leaves.refl (S : Scope) (d : Disk) : S.Leaves d d :=
  ⟨fun _ _ => rfl, fun _ _ => rfl, fun _ _ => rfl, fun _ _ => rfl, fun _ _ => rfl, fun _ _ => rfl, fun _ _ => rel_gate_self _,
    le_rfl, le_rfl⟩

theorem Resembles.withDisk (h : Resembles S P θ w v) {d : Disk} (hd : S.Leaves w.disk d) :
    Resembles S P θ { w with disk := d } v := by
  obtain ⟨hS, O, hP, h⟩ := h
  have hlater : w.counts.Later { w.counts with gate := d.nextGate, clock := d.clock } :=
    ⟨le_rfl, le_rfl, le_rfl, le_rfl, le_rfl, hd.nextGate, hd.clock⟩
  refine ⟨hS, O, hP, { h with
    counts := fun hw => absurd hw hS
    files := h.files.congr hd.files
    diskCalls := h.diskCalls.congr hd.calls
    failures := h.failures.congr hd.failures
    gateFor := h.gateFor.congr hd.gateFor
    gateTable := fun hw => absurd hw hS
    underWay := h.underWay.congr hd.underWay
    mostUnderWay := h.mostUnderWay.congr hd.mostUnderWay
    made := fun x y hxy => ⟨(h.made x y hxy).1.mono hlater, (h.made x y hxy).2⟩
    others := h.others_mono hlater
    gates := fun a b hab => rel_gate_trans (hd.gates a (h.made _ _ hab).1) (h.gates a b hab) }⟩

theorem leaves_enter (d : Disk) (op : DiskOp) (hp : S.seen p.key = false) : S.Leaves d (d.enter op p).1 := by
  have hne : ∀ x : DiskOp × Path.Key, S.seen x.2 = true → (op, p.key) ≠ x := by
    rintro x hx rfl
    exact Bool.false_ne_true (hp.symm.trans hx)
  refine { Scope.Leaves.refl S d with calls := ?_, underWay := ?_, mostUnderWay := ?_, gates := ?_ }
  · exact fun x hx => get?_insert_ne (hne x hx)
  · exact fun k hk => get?_insert_ne (ne_of_seen hp hk)
  · exact fun k hk => get?_insert_ne (ne_of_seen hp hk)
  · intro g _
    rw [gates_enter]
    cases (d.enter op p).2 with
    | none => exact rel_gate_self _
    | some i =>
      dsimp only
      rw [Table.get?_modify]
      split
      · cases d.gates.get? g with
        | none => exact .none
        | some x => exact .some rfl
      · exact rel_gate_self _

theorem Resembles.beginCall (h : Resembles S P θ w v) {σ α : Type} (op : DiskOp) (hp : S.seen p.key = false) (k : Call → σ) :
    Resembles S P θ (w.beginCall (α := α) op p k).1 v := by
  have henter := h.withDisk (leaves_enter w.disk op hp)
  unfold World.beginCall
  dsimp only
  split
  · split <;> exact henter
  · exact henter

theorem Resembles.atGate (h : Resembles S P θ w v) {σ α : Type} (g : GateId) (k : Call → σ) :
    Resembles S P θ (w.atGate (α := α) g k).1 v := by
  unfold World.atGate
  split <;> exact h

theorem Resembles.leaveDisk (h : Resembles S P θ w v) (hp : S.seen p.key = false) : Resembles S P θ (w.leaveDisk p) v :=
  h.withDisk { Scope.Leaves.refl S w.disk with underWay := fun _ hk => get?_modify_ne (ne_of_seen hp hk) }

theorem leaves_putFile (d : Disk) (hp : S.seen p.key = false) (bytes : ByteArray) : S.Leaves d (d.putFile p bytes) :=
  { Scope.Leaves.refl S d with
    files := fun _ hk => get?_insert_ne (ne_of_seen hp hk)
    clock := Nat.le_succ _ }

theorem Resembles.write (h : Resembles S P θ w v) (hp : S.seen p.key = false) (bytes : ByteArray) :
    Resembles S P θ { w with disk := (w.disk.write p bytes).1 } v := by
  unfold Disk.write
  cases w.disk.failure? .write p with
  | some f => exact h
  | none => exact h.withDisk (leaves_putFile w.disk hp bytes)

end LiveFiles.Engine
