/-
Bursts of calls to watch. From state `n` to state `l` there is nothing at a path but calls to watch it, for different subscribers
(`Crowd`), and in the end nobody there can go on (`Burst`). That a crowd gets so far if it is treated fairly is proved in `Resting`.
- `World.RestsAt.isIdle`: where everything has come to rest nobody has a turn.
- `Crowd.gathering`: in every state the calls share one synchronization.
- `attempts_move`: the watcher is asked to arm in the moves that try to, and in no others.
- `Crowd.opens`, `Crowd.tries_iff`, `Crowd.asks`, `Crowd.tells`: one call makes the entry, and only that one tries to arm the
  watcher.
- `Crowd.returned`, `Burst.over`: a call goes on or has returned what has been found, and in the end all have.
- **`Burst.count`**: when a burst has come to rest, as many subscribers count as have called.
-/
import LiveFiles.Proofs.Gatherings

namespace LiveFiles.Engine

variable {w : World} {m : Move} {id : TaskId} {a b : Activity} {p q : Path} {e : Entry} {k : Path.Key} {x : SubscriberId}

/-! ## Bursts -/

/-- the path that a task is about: it is there, or listens for somebody's leaving there -/
def Activity.about? : Activity → Option Path
  | .listening p _ => some p
  | a => a.at?

/-- Everything at the path has come to rest: of those who are about it nobody can go on, and nobody is held up by the disk. -/
structure World.RestsAt (w : World) (p : Path) : Prop where
  unready : ∀ i ph q, w.tasks.phase? i = some ph → ph.activity.about? = some q → q.key = p.key → w.runnable i = false
  ungated : ∀ i ph q g, w.tasks.phase? i = some ph → ph.activity.about? = some q → q.key = p.key →
    ph.activity.awaits ≠ .gate g

/-- the path and the subscriber of a call to watch -/
def Move.watch? : Move → Option (Path × SubscriberId)
  | .call (.watch p x) => some (p, x)
  | _ => none

/-- the moves from `n` to `l` in which the path is called to be watched -/
def watchCalls (moves : Nat → Move) (p : Path) (n l : Nat) : Finset Nat :=
  (Finset.Ico n l).filter fun d => (moves d).watch?.any fun y => y.1.key = p.key

/-- From state `n` to state `l` there is nothing at a path but calls to watch it, for different subscribers, and none of them is
cancelled or fails. Nobody has watched the path before, and the file stays as it is. -/
structure Crowd (w : World) (moves : Nat → Move) (p : Path) (n l : Nat) : Prop where
  going : ∀ j < l, moves j ≠ .call .shutDown
  untracked : (w.trace moves n).isTracked p = false
  distinct : ∀ d ∈ watchCalls moves p n l, ∀ d' ∈ watchCalls moves p n l,
    (moves d).watch?.map Prod.snd = (moves d').watch?.map Prod.snd → d = d'
  /-- whoever is at the path carries out one of the calls -/
  only : ∀ j, n ≤ j → j ≤ l → ∀ i ph q, (w.trace moves j).tasks.phase? i = some ph → ph.activity.at? = some q →
    q.key = p.key → ∃ d ∈ watchCalls moves p n j, i = (w.trace moves d).tasks.next
  file : ∀ j, n ≤ j → j ≤ l → (w.trace moves j).disk.file? p = (w.trace moves n).disk.file? p
  calls : ∀ j, n ≤ j → j < l → ¬ FailsAt (w.trace moves j) (moves j) p
  uncancelled : ∀ j, n ≤ j → j < l → ∀ i ph q, moves j = .cancel i → (w.trace moves j).tasks.phase? i = some ph →
    ph.activity.about? = some q → q.key ≠ p.key

/-- A burst: there are such calls from state `n` to state `l`, and they come to rest. -/
structure Burst (w : World) (moves : Nat → Move) (p : Path) (n l : Nat) : Prop extends Crowd w moves p n l where
  called : (watchCalls moves p n l).Nonempty
  rests : (w.trace moves l).RestsAt p

/-- In the move a call to watch takes the first place at a path, and arms the watcher unless that is refused. -/
def TriesToArm (w : World) (m : Move) (p : Path) : Prop :=
  ∃ id q x joined other seat r, w.carried? m = some (id, .joining q x joined other) ∧ q.key = p.key ∧
    ((floorTo w id).step (.joining q x joined other)).2.next = some (.synchronizing seat r) ∧ w.places.flag p.key = false

/-- The move `i`, between the states `n` and `l`, makes the entry of a path. -/
structure Opens (w : World) (moves : Nat → Move) (p : Path) (n l i : Nat) : Prop where
  le : n ≤ i
  lt : i < l
  before : ∀ j, n ≤ j → j ≤ i → (w.trace moves j).isTracked p = false
  after : ∀ j, i < j → j ≤ l → (w.trace moves j).isTracked p = true

theorem Activity.about?_of_at (h : a.at? = some q) : a.about? = some q := by
  cases a <;> first | exact h | cases h

/-- whoever is about a path but not there listens -/
theorem Activity.about?_cases (h : a.about? = some q) : a.at? = some q ∨ ∃ x, a = .listening q x := by
  cases a with
  | listening p x =>
    cases h
    exact .inr ⟨x, rfl⟩
  | _ => exact .inl h

theorem Activity.not_service_of_at (h : a.at? = some q) : a.isService = false := by
  cases a <;> first | rfl | cases h

/-- where everything has come to rest, whoever is about the path waits for something that has not happened -/
theorem World.RestsAt.waits (h : w.RestsAt p) (hw : Wf w) {i : TaskId} {ph : Phase} (hph : w.tasks.phase? i = some ph)
    (hq : ph.activity.about? = some q) (hk : q.key = p.key) : ph.Waits w := by
  have hidle := h.unready i ph q hph hq hk
  rcases hw.woken i ph hph with hready | hfloor | hwaits
  · exact absurd (runnable_iff.2 (.inl hready)) (Bool.eq_false_iff.1 hidle)
  · exact absurd (runnable_iff.2 (.inr hfloor)) (Bool.eq_false_iff.1 hidle)
  · exact hwaits

/-! ## Paths at rest -/

/-- whoever has a turn waits for it, or is calling the disk -/
theorem Activity.awaits_of_turn {τ : Turn} (h : a.stake.errand.turn? = some τ) :
    a.awaits = .turn τ.id ∨ a.awaits = .nothing ∨ ∃ g, a.awaits = .gate g := by
  have hcall : ∀ c : Call, Call.awaits c = .nothing ∨ ∃ g, Call.awaits c = .gate g := by
    intro c
    cases c with
    | due => exact .inl rfl
    | held g => exact .inr ⟨g, rfl⟩
  have hrefresh : ∀ r : Refresh, r.errand.turn? = some τ →
      r.awaits = .turn τ.id ∨ r.awaits = .nothing ∨ ∃ g, r.awaits = .gate g := by
    intro r hr
    cases r with
    | queued q y σ =>
      cases hr
      exact .inl rfl
    | looking _ c | reading _ _ c | lookingAgain _ _ c => exact .inr (hcall c)
  cases a with
  | refreshing r => exact hrefresh r h
  | synchronizing seat r => exact hrefresh r h
  | saving y =>
    cases y with
    | queued job =>
      cases h
      exact .inl rfl
    | writing _ c | looking _ c => exact .inr (hcall c)
  | tearingDown q turn leaving =>
    cases turn with
    | none => cases h
    | some σ =>
      cases h
      exact .inl rfl
  | draining q turn rest =>
    cases turn with
    | none => cases h
    | some σ =>
      cases h
      exact .inl rfl
  | starting y => exact .inr (.inl rfl)
  | settling seat y => cases y <;> cases h
  | _ => cases h

/-- where everything has come to rest, whoever has a turn waits for it -/
theorem World.RestsAt.not_holds (hrest : w.RestsAt p) (hw : Wf w) {i : TaskId} {τ : Turn} (hτ : w.HasTurn i τ)
    (hk : τ.key = p.key) : w.turns.holds τ = false := by
  cases hph : w.tasks.phase? i with
  | none =>
    rw [World.HasTurn, held, stakes_of_none hph] at hτ
    cases hτ
  | some ph =>
    rw [World.HasTurn, held, stakes_of_phase hph] at hτ
    obtain ⟨q, hq, hpath⟩ := Activity.operation?_of_turn hτ
    have habout := Activity.about?_of_at (Activity.at?_of_operation hq)
    have hkeyed : τ.key = q.key :=
      hw.sound.keyed i τ (by rw [stakes_of_phase hph]; exact hτ) q (by rw [stakes_of_phase hph]; exact hpath)
    have hwaits := hrest.waits hw hph habout (hkeyed.symm.trans hk)
    rcases Activity.awaits_of_turn hτ with hturn | hnothing | ⟨g, hgate⟩
    · exact hwaits.turn τ hτ hturn
    · exact absurd hnothing hwaits.something
    · exact absurd hgate (hrest.ungated i ph q g hph habout (hkeyed.symm.trans hk))

/-- **Where everything has come to rest nobody has a turn**: somebody in line would hold the lock, and could go on. -/
theorem World.RestsAt.isIdle (hrest : w.RestsAt p) (hw : Wf w) : w.turns.isIdle p.key = true := by
  refine hw.sound.turns.isIdle_iff.2 fun i τ hτ hk => ?_
  obtain ⟨j, σ, hσ, hsame, hholds⟩ := hw.sound.turns.exists_holds hτ
  cases (hrest.not_holds hw hσ (hsame.trans hk)).symm.trans hholds

theorem World.RestsAt.no_turn (hrest : w.RestsAt p) (hw : Wf w) {i : TaskId} {ph : Phase} {τ : Turn}
    (hph : w.tasks.phase? i = some ph) (hτ : ph.activity.stake.errand.turn? = some τ) (hq : ph.activity.operation? = some q) :
    q.key ≠ p.key := by
  intro hk
  obtain ⟨q', hq', hpath⟩ := Activity.operation?_of_turn hτ
  cases hq.symm.trans hq'
  have hkeyed : τ.key = q.key :=
    hw.sound.keyed i τ (by rw [stakes_of_phase hph]; exact hτ) q (by rw [stakes_of_phase hph]; exact hpath)
  have hturn : held w.stakes i = some τ := by rw [held, stakes_of_phase hph, hτ]
  exact hw.sound.turns.isIdle_iff.1 (hrest.isIdle hw) i τ hturn (hkeyed.trans hk)

/-- where everything has come to rest nobody is at a reconciliation that a call to watch runs -/
theorem World.RestsAt.no_lead (hrest : w.RestsAt p) (hw : Wf w) {i : TaskId} {ph : Phase} {seat : Seat} {r : Refresh}
    (hph : w.tasks.phase? i = some ph) (hact : ph.activity = .synchronizing seat r) : r.path.key ≠ p.key := by
  obtain ⟨τ, hτ⟩ : ∃ τ, r.errand.turn? = some τ := by cases r <;> exact ⟨_, rfl⟩
  exact hrest.no_turn hw hph (τ := τ) (by rw [hact]; exact hτ) (by rw [hact]; rfl)

/-! ## Places of tasks -/

theorem Activity.at?_of_place (hc : a.Coherent) (h : a.place? = some k) : ∃ q, a.at? = some q ∧ q.key = k := by
  rcases Activity.place?_cases (by rw [h]; rintro ⟨⟩) with ⟨seat, hplace, -, hseat⟩ | ⟨q, rfl⟩
  · refine ⟨seat.path, Activity.at?_of_operation (hc seat ?_), Option.some.inj (hplace.symm.trans h)⟩
    rcases hseat with ⟨r, rfl⟩ | ⟨y, rfl⟩ <;> rfl
  · exact ⟨q, rfl, Option.some.inj h⟩

/-- where nobody is at a path, no task accounts for a place there -/
theorem seated_eq_zero (hcoherent : ∀ i ph, w.tasks.phase? i = some ph → ph.activity.Coherent)
    (h : ∀ i ph q, w.tasks.phase? i = some ph → ph.activity.at? = some q → q.key = k → ph.activity.place? ≠ some k) :
    w.seated k = 0 := by
  refine Finset.sum_eq_zero fun i _ => if_neg fun hplace => ?_
  obtain ⟨ph, hph, hplace⟩ := Option.bind_eq_some_iff.1 hplace
  obtain ⟨q, hq, hk⟩ := Activity.at?_of_place (hcoherent i ph hph) hplace
  exact h i ph q hph hq hk hplace

theorem mem_watchCalls {moves : Nat → Move} {n l d : Nat} : d ∈ watchCalls moves p n l ↔
    n ≤ d ∧ d < l ∧ ∃ q x, moves d = .call (.watch q x) ∧ q.key = p.key := by
  rw [watchCalls, Finset.mem_filter, Finset.mem_Ico, and_assoc]
  refine and_congr_right fun _ => and_congr_right fun _ => ?_
  simp only [Option.any_eq_true, decide_eq_true_eq]
  constructor
  · rintro ⟨⟨q, x⟩, hwatch, hk⟩
    refine ⟨q, x, ?_, hk⟩
    unfold Move.watch? at hwatch
    split at hwatch
    · cases hwatch
      assumption
    · cases hwatch
  · rintro ⟨q, x, hm, hk⟩
    exact ⟨(q, x), by rw [hm]; rfl, hk⟩

theorem Burst.lt {moves : Nat → Move} {n l : Nat} (h : Burst w moves p n l) : n < l := by
  obtain ⟨d, hd⟩ := h.called
  obtain ⟨hnd, hdl, -⟩ := mem_watchCalls.1 hd
  omega

/-! ## Who arms the watcher -/

variable {f : Option StoredFile} {s n : Nat}

theorem Gathering.counted (hg : Gathering w p f s n) (ht : w.isTracked p = true) : ∃ e, w.entry? p = some e ∧ 0 < e.count := by
  cases hg.stage with
  | before hno => cases (isTracked_eq_false.2 hno).symm.trans ht
  | fetching i seat r ph e hph hact hone he hpos => exact ⟨e, he, hpos⟩
  | fetched e hnobody he hpos => exact ⟨e, he, hpos⟩

/-- how often the watcher has been asked to arm a path, whether it has done so or refused -/
def World.attempts (w : World) (p : Path) : Nat := w.watcher.attempts.countP fun q => q.key = p.key

theorem attempts_takePlace (w : World) (seat : Seat) (e : Entry) :
    (w.takePlace seat e).2.next = some (.settling seat none) ∧
        (w.takePlace seat e).1.watcher.attempts = w.watcher.attempts ∨
      (∃ r, (w.takePlace seat e).2.next = some (.synchronizing seat r)) ∧
        (w.takePlace seat e).1.watcher.attempts = w.watcher.attempts ++ if e.armed then [] else [seat.path] := by
  rcases takePlace_cases w seat e with ⟨-, htake⟩ | ⟨-, x, armed, signal, signals, v, hasked, -, rfl, htake⟩
  · rw [htake]
    exact .inl ⟨rfl, rfl⟩
  · rw [htake]
    exact .inr ⟨⟨_, rfl⟩, hasked⟩

/-- a call to watch has the watcher asked to arm exactly if it takes the first place and the watcher is not armed -/
theorem attempts_stepJoining (w : World) (p : Path) (x : SubscriberId) (joined : SignalId) (other : Option SignalId) :
    (w.stepJoining p x joined other).1.watcher.attempts = w.watcher.attempts ∧
        (∀ seat r, (w.stepJoining p x joined other).2.next = some (.synchronizing seat r) → w.places.flag p.key = true) ∨
      (w.stepJoining p x joined other).1.watcher.attempts = w.watcher.attempts ++ [p] ∧ w.places.flag p.key = false ∧
        ∃ seat r, (w.stepJoining p x joined other).2.next = some (.synchronizing seat r) := by
  have hflag : ((w.entry? p).getD { spelling := p }).armed = w.places.flag p.key := by
    cases he : w.entry? p with
    | none => rw [Places.flag_of_none (roster?_of_absent he)]; rfl
    | some e => rw [Places.flag_of_roster (roster?_of_present he)]; rfl
  unfold World.stepJoining
  split
  · exact .inl ⟨rfl, fun seat r hr => by cases hr⟩
  · dsimp only
    generalize (w.entry? p).getD { spelling := p } = e at hflag
    split
    · exact .inl ⟨rfl, fun seat r hr => by cases hr⟩
    · split
      · exact .inl ⟨rfl, fun seat r hr => by cases hr⟩
      · rw [← hflag]
        rcases attempts_takePlace w ⟨p, x, joined⟩ e with ⟨hnext, hasked⟩ | ⟨⟨r, hnext⟩, hasked⟩
        · exact .inl ⟨hasked, fun seat r hr => by cases hnext.symm.trans hr⟩
        · cases harmed : e.armed with
          | true => exact .inl ⟨by rw [hasked, harmed, if_pos rfl, List.append_nil], fun _ _ _ => rfl⟩
          | false => exact .inr ⟨by rw [hasked, harmed]; rfl, rfl, _, r, hnext⟩

/-- **The watcher is asked to arm a path in a move that tries to, and in no other.** -/
theorem attempts_move (w : World) (m : Move) (p : Path) :
    TriesToArm w m p ∧ (w.move m).attempts p = w.attempts p + 1 ∨ ¬ TriesToArm w m p ∧ (w.move m).attempts p = w.attempts p := by
  have hnone : ∀ {w' : World}, w'.watcher.attempts = w.watcher.attempts → w'.attempts p = w.attempts p :=
    fun h => congrArg (List.countP _) h
  rcases section_or_not w m with ⟨id, t, rfl, hs, hc⟩ | hsection
  · have hcarry := carried?_of_served hs hc
    have hmove : (w.move (.turn id)).watcher.attempts = ((floorTo w id).step t.phase.activity).1.watcher.attempts := by
      change (serve w id).watcher.attempts = _
      rw [serve_of_section hs hc]
      exact (steady_advance (P := fun _ => True) (floorTo w id) id t.phase).attempts
    have hfloor : (floorTo w id).watcher.attempts = w.watcher.attempts := congrArg Watcher.attempts (watcher_floorTo w id)
    by_cases hjoin : ∃ q x joined other, t.phase.activity = .joining q x joined other
    · obtain ⟨q, x, joined, other, hact⟩ := hjoin
      rw [hact] at hcarry hmove
      rcases attempts_stepJoining (floorTo w id) q x joined other with ⟨hsame, hno⟩ | ⟨hasked, hflag, seat, r, hnext⟩
      · refine .inr ⟨?_, hnone (hmove.trans (hsame.trans hfloor))⟩
        rintro ⟨id', q', x', joined', other', seat, r, hcarry', hq, hnext, hflag⟩
        cases hcarry.symm.trans hcarry'
        have harmed := hno seat r hnext
        rw [places_floorTo, hq, hflag] at harmed
        cases harmed
      · have hgrows : (w.move (.turn id)).watcher.attempts = w.watcher.attempts ++ [q] :=
          hmove.trans (hasked.trans (congrArg (· ++ [q]) hfloor))
        rw [places_floorTo] at hflag
        by_cases hq : q.key = p.key
        · refine .inl ⟨⟨id, q, x, joined, other, seat, r, hcarry, hq, hnext, hq ▸ hflag⟩, ?_⟩
          rw [World.attempts, hgrows, List.countP_append, List.countP_singleton, if_pos (decide_eq_true hq)]
          rfl
        · refine .inr ⟨?_, ?_⟩
          · rintro ⟨id', q', x', joined', other', seat', r', hcarry', hq', -⟩
            cases hcarry.symm.trans hcarry'
            exact hq hq'
          · rw [World.attempts, hgrows, List.countP_append, List.countP_singleton, if_neg (by simpa using hq)]
            rfl
    · have hother : ∀ q x joined other, t.phase.activity ≠ .joining q x joined other := fun q x joined other e =>
        hjoin ⟨q, x, joined, other, e⟩
      refine .inr ⟨?_, hnone (hmove.trans (((turnover_step _ _).attempts hother).trans hfloor))⟩
      rintro ⟨id', q, x, joined, other, seat, r, hcarry', -⟩
      exact hother q x joined other (congrArg Prod.snd (Option.some.inj (hcarry.symm.trans hcarry')))
  · refine .inr ⟨?_, hnone (unmoved_of_no_section hsection).attempts⟩
    rintro ⟨id, q, x, joined, other, seat, r, hcarry, -⟩
    obtain ⟨u, hm, hs, hc, -⟩ := carried?_eq_some.1 hcarry
    cases (hsection id u hm hs).symm.trans hc

/-- where somebody counts, a call to watch that looks for a place does not try to arm the watcher -/
theorem untracked_of_tries (hg : Gathering w p f s n) (h : TriesToArm w m p) : w.isTracked p = false := by
  obtain ⟨id, q, x, joined, other, seat, r, -, hq, hnext, -⟩ := h
  by_contra ht
  obtain ⟨e, he, hpos⟩ := hg.counted (Bool.eq_true_of_not_eq_false ht)
  have hsome : World.entry? (floorTo w id) q = some e := (entry?_floorTo w id q).trans ((entry?_congr hq).trans he)
  obtain ⟨-, -, -, ⟨other', hr⟩ | hr | ⟨hr, -⟩⟩ := stepJoining_counted hsome hpos x joined other
  · cases hr.symm.trans hnext
  · cases hr.symm.trans hnext
  · rw [show (floorTo w id).step (.joining q x joined other) = _ from rfl, World.step, hr] at hnext
    cases hnext

/-- whoever tries to arm the watcher has a place after the move -/
theorem tracked_of_tries {m' : Move} (hR : Running w m) (hR' : Running (w.move m) m') (h : TriesToArm w m p) :
    (w.move m).isTracked p = true := by
  obtain ⟨id, q, x, joined, other, seat, r, hcarry, hq, hnext, -⟩ := h
  have hseat : seat.path = q := by
    cases Watching.next (Watching.joining joined other) hnext
    rfl
  obtain ⟨ph, hph, hact⟩ := Option.map_eq_some_iff.1 ((phase?_of_carried hR.wf hcarry).trans hnext)
  obtain ⟨e, he, -⟩ := hR'.counted (p := p) hph (by rw [hact, ← hq, ← hseat]; rfl)
  exact isTracked_of_entry he

/-- a call to watch that makes an entry where there has been none tries to arm the watcher -/
theorem tries_of_tracked (hR : Running w m) (hg : Gathering (w.move m) p f s n) (hno : w.isTracked p = false)
    (ht : (w.move m).isTracked p = true) : TriesToArm w m p := by
  have hnone := isTracked_eq_false.1 hno
  have hroster : w.places.roster? p.key = none := congrArg (Option.map Entry.roster) hnone
  obtain ⟨e, he, hpos⟩ := hg.counted ht
  have hz : w.places.count p.key = 0 := by rw [Places.count, hroster]; rfl
  have hpos' : 0 < (w.move m).places.count p.key := by rwa [Places.count_of_entry he]
  rcases section_or_not w m with ⟨id, t, rfl, hs, hc⟩ | hsection
  · obtain ⟨hne, hcl⟩ := hR.continues id t rfl hs hc
    obtain ⟨q, x, joined, other, hjoin, hq⟩ := (shift_serve hR.wf hs hc).first hne hcl hz hpos'
    have hcarry := carried?_of_served hs hc
    rw [hjoin] at hcarry
    have hnone' : World.entry? (floorTo w id) q = none := (entry?_floorTo w id q).trans ((entry?_congr hq).trans hnone)
    refine ⟨id, q, x, joined, other, ?_⟩
    rcases stepJoining_untracked hnone' x joined other with ⟨hstep, -⟩ | hstep
    · -- a call that waits for another one makes no entry
      have hentry := entry_of_carried hcarry p
      rw [World.step, hstep, entry?_floorTo, hnone] at hentry
      cases hentry.symm.trans he
    · obtain ⟨-, y, τ, hgo, -⟩ := takePlace_first (floorTo w id) ⟨q, x, joined⟩
      refine ⟨⟨q, x, joined⟩, .queued q y τ, hcarry, hq, ?_, Places.flag_of_none hroster⟩
      rw [World.step, hstep, hgo]
      rfl
  · rw [(unmoved_of_no_section hsection).places, hz] at hpos'
    exact absurd hpos' (lt_irrefl 0)

theorem Opens.roster {i j n l : Nat} {moves : Nat → Move} (h : Opens w moves p n l i) (hnj : n ≤ j) (hji : j ≤ i) :
    (w.trace moves j).places.roster? p.key = none :=
  congrArg (Option.map Entry.roster) (isTracked_eq_false.1 (h.before j hnj hji))

/-! ## Who is registered -/

theorem Watching.subscriber_of_seat {y : SubscriberId} {seat : Seat} (h : Watching q y a) (hs : a.seat? = some seat) :
    y = seat.subscriber := by
  cases h <;> cases hs <;> rfl

/-- whoever is registered has been so before, or a call to watch settles for it -/
theorem registers_move (hw : Wf w) (h : (w.move m).isRegistered p x = true) : w.isRegistered p x = true ∨
    ∃ id seat signal, w.carried? m = some (id, .settling seat signal) ∧ seat.path.key = p.key ∧ seat.subscriber = x := by
  obtain ⟨f', hf', hin⟩ := isRegistered_iff.1 h
  obtain ⟨r, hr⟩ := Option.isSome_iff_exists.1 hin
  rcases section_or_not w m with ⟨i, t, rfl, hs, hc⟩ | hno
  · rcases (dealing_serve hw hs hc).registered hf' hr with ⟨f, hf, hx⟩ | ⟨seat, signal, ha, hk, hx⟩
    · exact .inl (isRegistered_iff.2 ⟨f, hf, Option.isSome_iff_exists.2 ⟨r, hx⟩⟩)
    · exact .inr ⟨i, seat, signal, ha ▸ carried?_of_served hs hc, hk, hx⟩
  · obtain ⟨f, hf, hx⟩ := noNewer_of_no_section hno p.key f' x r hf' hr
    exact .inl (isRegistered_iff.2 ⟨f, hf, Option.isSome_iff_exists.2 ⟨r, hx⟩⟩)

/-- whoever is registered stays so, unless it is unwatched -/
theorem registered_move (hR : Running w m) (h : w.isRegistered p x = true) :
    (w.move m).isRegistered p x = true ∨ ∃ id q, w.carried? m = some (id, .starting (.unwatch q x)) ∧ q.key = p.key := by
  obtain ⟨f, hf, hin⟩ := isRegistered_iff.1 h
  obtain ⟨r, hr⟩ := Option.isSome_iff_exists.1 hin
  rcases section_or_not w m with ⟨i, t, rfl, hs, hc⟩ | hno
  · obtain ⟨hne, hcl⟩ := hR.continues i t rfl hs hc
    have hcarry := carried?_of_served hs hc
    rcases (dealing_serve hR.wf hs hc).unregisters hne hcl hf hr with ⟨f', hf', hx⟩ | ⟨q, ha, hq⟩ | ⟨seat, signal, ha, hk, hx⟩ |
      hz
    · exact .inl (isRegistered_iff.2 ⟨f', hf', Option.isSome_iff_exists.2 ⟨r, hx⟩⟩)
    · exact .inr ⟨i, q, ha ▸ hcarry, hq⟩
    · -- a registration that is replaced
      rw [ha] at hcarry
      obtain ⟨e, he, hreg⟩ := Option.any_eq_true _ _ |>.1 h
      have hsome : World.entry? (floorTo w i) seat.path = some e :=
        (entry?_floorTo w i seat.path).trans ((entry?_congr hk).trans he)
      refine .inl (Option.any_eq_true _ _ |>.2 ?_)
      rcases step_settling_cases (floorTo w i) seat signal with hsame | hregister
      · exact ⟨e, by rw [entry_of_carried hcarry, hsame, entry?_floorTo, he], hreg⟩
      · obtain ⟨-, -, e', he', -, hin'⟩ := register_tracked hsome
        refine ⟨e', ?_, hx ▸ hin'⟩
        rw [entry_of_carried hcarry, hregister, ← entry?_congr hk]
        exact he'
    · cases (unregistered_of_vacant hR.tally hf hz x).symm.trans hr
  · obtain ⟨f', hf', hx⟩ := registration_of_no_section hno hf hr
    exact .inl (isRegistered_iff.2 ⟨f', hf', Option.isSome_iff_exists.2 ⟨r, hx⟩⟩)

section Trace

variable {policy : WritePolicy} {moves : Nat → Move} {n l j : Nat}

/-- whoever is at a path where nobody has been since some state, and none of those about it has been cancelled since, has not been
cancelled -/
theorem uncancelled_since (h : ∀ n, moves n ≠ .call .shutDown)
    (hstart : ∀ i ph q, ((World.start policy).trace moves n).tasks.phase? i = some ph → ph.activity.at? = some q →
      q.key ≠ p.key)
    (hspared : ∀ l, n ≤ l → l < j → ∀ i ph q, moves l = .cancel i →
      ((World.start policy).trace moves l).tasks.phase? i = some ph → ph.activity.about? = some q → q.key ≠ p.key)
    (hnj : n ≤ j) {i : TaskId} {t : Task Phase} (ht : ((World.start policy).trace moves j).tasks.live.get? i = some t)
    (hq : t.phase.activity.at? = some q) (hk : q.key = p.key) : t.cancelled = false := by
  by_contra hcancelled
  obtain ⟨c, hcj, hm, hsame⟩ :=
    cancelled_since h ht (Bool.eq_true_of_not_eq_false hcancelled) (Activity.not_service_of_at hq)
  by_cases hnc : n ≤ c
  · exact hspared c hnc hcj i t.phase q hm (hsame c le_rfl hcj.le) (Activity.about?_of_at hq) hk
  · exact hstart i t.phase q (hsame n (Nat.le_of_not_le hnc) hnj) hq hk

variable (h : ∀ n, moves n ≠ .call .shutDown) (hb : Crowd (World.start policy) moves p n l)
include h hb

omit h in
/-- nobody is at the path when a burst begins -/
theorem Crowd.vacant {i : TaskId} {ph : Phase} (hnl : n ≤ l)
    (hph : ((World.start policy).trace moves n).tasks.phase? i = some ph) (hq : ph.activity.at? = some q) : q.key ≠ p.key := by
  intro hk
  obtain ⟨d, hd, -⟩ := hb.only n le_rfl hnl i ph q hph hq hk
  obtain ⟨hnd, hdn, -⟩ := mem_watchCalls.1 hd
  omega

/-- nobody who is at the path has been cancelled -/
theorem Crowd.spared (hnj : n ≤ j) (hjl : j ≤ l) {i : TaskId} {t : Task Phase}
    (ht : ((World.start policy).trace moves j).tasks.live.get? i = some t) (hq : t.phase.activity.at? = some q)
    (hk : q.key = p.key) : t.cancelled = false :=
  uncancelled_since h (fun _ _ _ hph => hb.vacant (hnj.trans hjl) hph)
    (fun c hnc hcj => hb.uncancelled c hnc (lt_of_lt_of_le hcj hjl)) hnj ht hq hk

omit h in
/-- whoever is at the path is in one of the phases of its call -/
theorem Crowd.watching (hnj : n ≤ j) (hjl : j ≤ l) {i : TaskId} {ph : Phase}
    (hph : ((World.start policy).trace moves j).tasks.phase? i = some ph) (hq : ph.activity.at? = some q)
    (hk : q.key = p.key) : ∃ d ∈ watchCalls moves p n j, ∃ y, moves d = .call (.watch q y) ∧
      i = ((World.start policy).trace moves d).tasks.next ∧ ph.role = .caller ∧ Watching q y ph.activity := by
  obtain ⟨d, hd, rfl⟩ := hb.only j hnj hjl i ph q hph hq hk
  obtain ⟨hnd, hdj, q', y, hm, hk'⟩ := mem_watchCalls.1 hd
  rcases watching_trace hm hdj with ⟨ph', hph', hrole, hwatch⟩ | ⟨-, hgone⟩
  · cases hph.symm.trans hph'
    cases (Activity.at?_of_operation hwatch.operation?).symm.trans hq
    exact ⟨d, hd, y, hm, rfl, hrole, hwatch⟩
  · cases hph.symm.trans hgone

/-- in each move of a burst a call to watch the path carries out a section, or nobody there does -/
theorem Crowd.section_or_elsewhere (hnj : n ≤ j) (hjl : j < l) :
    (∃ i a q y d, ((World.start policy).trace moves j).carried? (moves j) = some (i, a) ∧ Watching q y a ∧ q.key = p.key ∧
      d ∈ watchCalls moves p n j ∧ moves d = .call (.watch q y) ∧ i = ((World.start policy).trace moves d).tasks.next) ∨
      Elsewhere ((World.start policy).trace moves j) (moves j) p.key := by
  by_cases helse : Elsewhere ((World.start policy).trace moves j) (moves j) p.key
  · exact .inr helse
  · unfold Elsewhere at helse
    push Not at helse
    obtain ⟨i, t, q, hm, hs, hq, hk⟩ := helse
    have hc := hb.spared h hnj hjl.le (served?_eq_some hs).2 hq hk
    obtain ⟨d, hd, y, hcall, hi, -, hwatch⟩ := hb.watching hnj hjl.le (phase?_of_served hs) hq hk
    refine .inl ⟨i, t.phase.activity, q, y, d, ?_, hwatch, hk, hd, hcall, hi⟩
    rw [hm]
    exact carried?_of_served hs hc

/-- **In a burst the calls share one synchronization.** -/
theorem Crowd.gathering (hnj : n ≤ j) (hjl : j ≤ l) : Gathering ((World.start policy).trace moves j) p
    (((World.start policy).trace moves n).disk.file? p) (((World.start policy).trace moves n).disk.callCount .stat p)
    (((World.start policy).trace moves n).disk.callCount .read p) := by
  induction j, hnj using Nat.le_induction with
  | base =>
    have hvacant : ∀ i ph q, ((World.start policy).trace moves n).tasks.phase? i = some ph → ph.activity.at? = some q →
        q.key ≠ p.key := fun _ _ _ hph => hb.vacant hjl hph
    constructor
    · exact .before (isTracked_eq_false.1 hb.untracked) rfl rfl
    · intro i ph hph htears
      obtain ⟨q, turn, leaving, hact, hk⟩ := Activity.eq_of_tears htears
      exact hvacant i ph q hph (by rw [hact]; rfl) hk
    · intro i ph seat y hph hact hk
      exact absurd hk (hvacant i ph seat.path hph (by rw [hact]; rfl))
  | succ j hnj ih =>
    have hg := ih (Nat.le_of_succ_le hjl)
    have hR := running_of_trace policy h j
    rcases hb.section_or_elsewhere h hnj hjl with ⟨i, a, q, y, d, hcarry, hwatch, hk, -⟩ | helse
    · exact gathering_carried hR hg hcarry hwatch hk (hb.file j hnj (Nat.le_of_succ_le hjl)) (hb.calls j hnj hjl)
    · exact gathering_elsewhere hR helse hg

/-! ### The entry and the watcher -/

omit hb in
/-- as long as the entry says the same of the watcher, that is told nothing -/
theorem told_of_flag {c : Bool} (hnj : n ≤ j)
    (hflag : ∀ i, n ≤ i → i ≤ j → ((World.start policy).trace moves i).places.flag k = c) :
    told ((World.start policy).trace moves j).watcher.calls k = told ((World.start policy).trace moves n).watcher.calls k := by
  induction j, hnj using Nat.le_induction with
  | base => rfl
  | succ j hnj ih =>
    have hR := running_of_trace policy h j
    have hreports := reports_move hR.wf hR.continues (watched_trace (running_trace h j)).2 k
    have hsame : (((World.start policy).trace moves j).move (moves j)).places.flag k =
        ((World.start policy).trace moves j).places.flag k :=
      (hflag (j + 1) (Nat.le_succ_of_le hnj) le_rfl).trans (hflag j hnj (Nat.le_succ j)).symm
    rw [Places.Reports, if_pos hsame, List.append_nil] at hreports
    exact hreports.trans (ih fun i hni hij => hflag i hni (Nat.le_succ_of_le hij))

/-- an entry that is there stays to the end of the burst -/
theorem Crowd.stays_tracked {i : Nat} (hni : n ≤ i) (hij : i ≤ j) (hjl : j ≤ l)
    (ht : ((World.start policy).trace moves i).isTracked p = true) : ((World.start policy).trace moves j).isTracked p = true := by
  induction j, hij using Nat.le_induction with
  | base => exact ht
  | succ j hij ih =>
    obtain ⟨e, he, hpos⟩ := (hb.gathering h (hni.trans hij) (Nat.le_of_succ_le hjl)).counted (ih (Nat.le_of_succ_le hjl))
    have hcalm := (hb.gathering h ((hni.trans hij).trans (Nat.le_succ j)) hjl).calm
    obtain ⟨e', he', -⟩ := (running_of_trace policy h j).stays_counted he hpos hcalm
    exact isTracked_of_entry he'

/-- where the path is tracked somebody counts -/
theorem Crowd.count_pos (hnj : n ≤ j) (hjl : j ≤ l) (ht : ((World.start policy).trace moves j).isTracked p = true) :
    0 < ((World.start policy).trace moves j).places.count p.key := by
  obtain ⟨e, he, hpos⟩ := (hb.gathering h hnj hjl).counted ht
  rwa [Places.count_of_entry he]

/-- in a burst that gets to an entry there is one move that makes it -/
theorem Crowd.opens (hnl : n ≤ l) (ht : ((World.start policy).trace moves l).isTracked p = true) :
    ∃ i, Opens (World.start policy) moves p n l i := by
  rcases tracked_or_last (World.start policy) moves p hnl with hall | ⟨i, hni, hil, hlast, hafter⟩
  · cases (hall n le_rfl hnl).symm.trans hb.untracked
  · refine ⟨i, hni, lt_of_le_of_ne hil ?_, ?_, hafter⟩
    · rintro rfl
      cases hlast.symm.trans ht
    · intro j hnj hji
      by_contra htracked
      cases hlast.symm.trans (hb.stays_tracked h hnj hji hil (Bool.eq_true_of_not_eq_false htracked))

/-- the call to watch that makes the entry is the only one that tries to arm the watcher -/
theorem Crowd.tries_iff {i : Nat} (ho : Opens (World.start policy) moves p n l i) (hnj : n ≤ j) (hjl : j < l) :
    TriesToArm ((World.start policy).trace moves j) (moves j) p ↔ j = i := by
  constructor
  · intro htries
    refine Nat.le_antisymm ?_ ?_
    · by_contra hij
      have huntracked := untracked_of_tries (hb.gathering h hnj hjl.le) htries
      cases huntracked.symm.trans (ho.after j (Nat.lt_of_not_le hij) hjl.le)
    · by_contra hji
      have hthere := tracked_of_tries (running_of_trace policy h j) (running_of_trace policy h (j + 1)) htries
      cases (ho.before (j + 1) (Nat.le_succ_of_le hnj) (Nat.lt_of_not_le hji)).symm.trans hthere
  · rintro rfl
    exact tries_of_tracked (running_of_trace policy h j) (hb.gathering h (Nat.le_succ_of_le hnj) hjl)
      (ho.before j hnj le_rfl) (ho.after (j + 1) (Nat.lt_succ_self j) hjl)

/-- once the entry is there it says whether the watcher has been armed -/
theorem Crowd.flag {i : Nat} (ho : Opens (World.start policy) moves p n l i) (hij : i + 1 ≤ j) (hjl : j ≤ l) :
    ((World.start policy).trace moves j).places.flag p.key = !((World.start policy).trace moves i).watcher.refuses p := by
  have hpos : ∀ j, i < j → j ≤ l → 0 < ((World.start policy).trace moves j).places.count p.key :=
    fun j hij hjl => hb.count_pos h (ho.le.trans hij.le) hjl (ho.after j hij hjl)
  induction j, hij using Nat.le_induction with
  | base =>
    have hR := running_of_trace policy h i
    refine armed_of_first hR.wf hR.continues (watched_trace (running_trace h i)).2 ?_ (hpos (i + 1) (Nat.lt_succ_self i) hjl)
    rw [Places.count, ho.roster ho.le le_rfl]
    rfl
  | succ j hij ih =>
    have hR := running_of_trace policy h j
    have hsame := flag_move hR.wf hR.continues (hpos j hij (Nat.le_of_succ_le hjl)) (hpos (j + 1) (Nat.lt_succ_of_lt hij) hjl)
    exact hsame.trans (ih (Nat.le_of_succ_le hjl))

/-- **In a burst that gets to an entry the watcher is told once to arm**, unless it refuses. -/
theorem Crowd.tells {i : Nat} (ho : Opens (World.start policy) moves p n l i) :
    told ((World.start policy).trace moves l).watcher.calls p.key =
      told ((World.start policy).trace moves n).watcher.calls p.key ++
        if ((World.start policy).trace moves i).watcher.refuses p then [] else [true] := by
  have hR := running_of_trace policy h i
  have hfirst : (((World.start policy).trace moves i).move (moves i)).places.flag p.key = _ := hb.flag h ho le_rfl ho.lt
  have hreports := reports_move hR.wf hR.continues (watched_trace (running_trace h i)).2 p.key
  rw [Places.Reports, Places.flag_of_none (ho.roster ho.le le_rfl), hfirst] at hreports
  calc told ((World.start policy).trace moves l).watcher.calls p.key
      = told ((World.start policy).trace moves (i + 1)).watcher.calls p.key :=
        told_of_flag h ho.lt fun j hij hjl => hb.flag h ho hij hjl
    _ = told ((World.start policy).trace moves i).watcher.calls p.key ++
        (if ((World.start policy).trace moves i).watcher.refuses p then [] else [true]) := by
      refine hreports.trans (congrArg _ ?_)
      cases ((World.start policy).trace moves i).watcher.refuses p <;> rfl
    _ = _ := by
      refine congrArg (· ++ _) ?_
      exact told_of_flag h ho.le fun j hnj hji => Places.flag_of_none (ho.roster hnj hji)

/-- **In a burst that gets to an entry the watcher is asked once to arm.** -/
theorem Crowd.asks {i : Nat} (ho : Opens (World.start policy) moves p n l i) :
    ((World.start policy).trace moves l).attempts p = ((World.start policy).trace moves n).attempts p + 1 := by
  -- until the entry is made the watcher has not been asked, and from then on once
  have hall : ∀ j, n ≤ j → j ≤ l → ((World.start policy).trace moves j).attempts p =
      ((World.start policy).trace moves n).attempts p + if i < j then 1 else 0 := by
    intro j hnj
    induction j, hnj using Nat.le_induction with
    | base => exact fun _ => by rw [if_neg (Nat.not_lt.2 ho.le), Nat.add_zero]
    | succ j hnj ih =>
      intro hjl
      have hj := ih (Nat.le_of_succ_le hjl)
      rcases attempts_move ((World.start policy).trace moves j) (moves j) p with ⟨htries, hone⟩ | ⟨hno, hsame⟩
      · obtain rfl := (hb.tries_iff h ho hnj hjl).1 htries
        rw [if_neg (Nat.lt_irrefl j), Nat.add_zero] at hj
        rw [if_pos (Nat.lt_succ_self j), ← hj]
        exact hone
      · have hne : j ≠ i := fun e => hno ((hb.tries_iff h ho hnj hjl).2 e)
        rw [World.trace, hsame, hj]
        exact congrArg _ (if_congr ⟨fun hij => Nat.lt_succ_of_lt hij, fun hij => by omega⟩ rfl rfl)
  rw [hall l (ho.le.trans ho.lt.le) le_rfl, if_pos ho.lt]

/-! ### What the calls return -/

omit h hb in
theorem watchCalls_mono {d : Nat} (hd : d ∈ watchCalls moves p n j) (hjl : j ≤ l) : d ∈ watchCalls moves p n l := by
  obtain ⟨hnd, hdj, hcall⟩ := mem_watchCalls.1 hd
  exact mem_watchCalls.2 ⟨hnd, hdj.trans_le hjl, hcall⟩

/-- who is registered in a burst stays so -/
theorem Crowd.stays_registered (hnj : n ≤ j) (hjl : j < l) (hx : ((World.start policy).trace moves j).isRegistered p x = true) :
    ((World.start policy).trace moves (j + 1)).isRegistered p x = true := by
  rcases registered_move (running_of_trace policy h j) hx with hstays | ⟨i, q, hcarry, hq⟩
  · exact hstays
  · obtain ⟨u, -, hs, -, hu⟩ := carried?_eq_some.1 hcarry
    obtain ⟨-, -, y, -, -, -, hwatch⟩ := hb.watching hnj hjl.le (phase?_of_served hs) (q := q) (by rw [hu]; rfl) hq
    rw [hu] at hwatch
    cases hwatch

omit h in
/-- **Whoever is registered in a burst has called to watch the path.** -/
theorem Crowd.called_of_registered (hnj : n ≤ j) (hjl : j ≤ l)
    (hx : ((World.start policy).trace moves j).isRegistered p x = true) :
    ∃ d ∈ watchCalls moves p n j, ∃ q, moves d = .call (.watch q x) := by
  induction j, hnj using Nat.le_induction with
  | base =>
    rw [World.isRegistered, isTracked_eq_false.1 hb.untracked] at hx
    cases hx
  | succ j hnj ih =>
    rcases registers_move (reachable_trace policy moves j).wf hx with hbefore | ⟨i, seat, signal, hcarry, hk, rfl⟩
    · obtain ⟨d, hd, hcall⟩ := ih (Nat.le_of_succ_le hjl) hbefore
      exact ⟨d, watchCalls_mono hd (Nat.le_succ j), hcall⟩
    · obtain ⟨u, -, hs, -, hu⟩ := carried?_eq_some.1 hcarry
      obtain ⟨d, hd, y, hcall, -, -, hwatch⟩ :=
        hb.watching hnj (Nat.le_of_succ_le hjl) (phase?_of_served hs) (q := seat.path) (by rw [hu]; rfl) hk
      rw [hu] at hwatch
      refine ⟨d, watchCalls_mono hd (Nat.le_succ j), seat.path, ?_⟩
      rw [hcall, hwatch.subscriber_of_seat rfl]

/-- **A call of a burst goes on, or it has returned what has been found**, and its subscriber is registered. -/
theorem Crowd.returned {d : Nat} (hd : d ∈ watchCalls moves p n l) (hm : moves d = .call (.watch q x)) (hdj : d < j) (hjl : j ≤ l) :
    (∃ ph, ((World.start policy).trace moves j).tasks.phase? ((World.start policy).trace moves d).tasks.next = some ph ∧
      ph.role = .caller ∧ Watching q x ph.activity) ∨
    (((World.start policy).trace moves d).tasks.next,
        Ending.returned (.ok (.snapshot ((Known.found (((World.start policy).trace moves n).disk.file? p)).shown q)))) ∈
      ((World.start policy).trace moves j).endings ∧ ((World.start policy).trace moves j).isRegistered p x = true := by
  obtain ⟨hnd, -, q', x', hm', hq⟩ := mem_watchCalls.1 hd
  cases hm.symm.trans hm'
  induction j, hdj using Nat.le_induction with
  | base => exact .inl ⟨_, phase?_called hm rfl, rfl, .starting⟩
  | succ j hdj ih =>
    have hnj : n ≤ j := hnd.trans (Nat.le_of_succ_le hdj)
    have hR := running_of_trace policy h j
    rcases ih (Nat.le_of_succ_le hjl) with ⟨ph, hph, hrole, hwatch⟩ | ⟨hreturned, hreg⟩
    · cases fate_move hR.wf hph (moves j) with
      | stays hstays => exact .inl ⟨ph, hstays, hrole, hwatch⟩
      | goesOn b hcarry hb' hgo => exact .inl ⟨_, hgo, hrole, hwatch.next hb'⟩
      | ends o hcarry ho hgone =>
        obtain ⟨rfl, e, he, hx⟩ := ended_of_gathering hR (hb.gathering h hnj (Nat.le_of_succ_le hjl)) hcarry hwatch hq
          (hb.file j hnj (Nat.le_of_succ_le hjl)) (hb.calls j hnj hjl) ho
        refine .inr ⟨?_, Option.any_eq_true _ _ |>.2 ⟨e, he, hx⟩⟩
        obtain ⟨u, hturn, hs, hc, hu⟩ := carried?_eq_some.1 hcarry
        have hphase := (phase?_of_served hs).symm.trans hph
        rw [World.trace, hturn, World.move, endings_section hs hc, Option.some.inj hphase, ho, hrole]
        exact List.mem_append_right _ (List.mem_singleton_self _)
      | dropped t hturn hs hc hgone =>
        cases hph.symm.trans (phase?_of_served hs)
        have hspared := hb.spared h hnj (Nat.le_of_succ_le hjl) (served?_eq_some hs).2
          (Activity.at?_of_operation hwatch.operation?) hq
        cases hspared.symm.trans hc
    · obtain ⟨xs, hxs⟩ := endings_kept ((World.start policy).trace moves j) (moves j)
      refine .inr ⟨?_, hb.stays_registered h hnj hjl hreg⟩
      rw [World.trace, hxs]
      exact List.mem_append_left _ hreturned

/-! ### Coming to rest -/

/-- a subscriber for which a call of the burst is looking for a place has none yet -/
theorem Crowd.unseated (hnj : n ≤ j) (hjl : j ≤ l) {i : TaskId} {ph : Phase} {joined : SignalId} {other : Option SignalId}
    (hph : ((World.start policy).trace moves j).tasks.phase? i = some ph) (hact : ph.activity = .joining q x joined other)
    (hk : q.key = p.key) (he : World.entry? ((World.start policy).trace moves j) p = some e) : e.joining.get? x = none := by
  by_contra hjoining
  obtain ⟨y, hy⟩ := Option.ne_none_iff_exists'.1 hjoining
  have hbook : ((World.start policy).trace moves j).front.book? p.key = some e.face.book := by
    rw [Front.book?, show ((World.start policy).trace moves j).front.face? p.key = _ from congrArg (Option.map Entry.face) he]
    rfl
  obtain ⟨i', q', hseat, hk'⟩ := (orderly_trace policy h j).owned p.key e.face.book x y hbook hy
  obtain ⟨a, ha, hseat'⟩ := Option.bind_eq_some_iff.1 hseat
  obtain ⟨ph', hph', rfl⟩ := Option.map_eq_some_iff.1 ha
  -- it has a place by a call of the burst for the same subscriber, which is the call that looks for a place
  have hat := (running_of_trace policy h j).coherent i' ph' hph' ⟨q', x, y⟩ hseat'
  obtain ⟨d, hd, z, hcall, rfl, -, hwatch⟩ := hb.watching hnj hjl hph (by rw [hact]; rfl) hk
  obtain ⟨d', hd', z', hcall', rfl, -, hwatch'⟩ := hb.watching hnj hjl hph' (Activity.at?_of_operation hat) hk'
  have hz : z = x := by
    rw [hact] at hwatch
    cases hwatch
    rfl
  have hz' : z' = x := hwatch'.subscriber_of_seat hseat'
  have hsame : d = d' := by
    refine hb.distinct d (watchCalls_mono hd hjl) d' (watchCalls_mono hd' hjl) ?_
    rw [hcall, hcall', hz, hz']
    rfl
  cases hsame
  cases hph.symm.trans hph'
  rw [hact] at hseat'
  cases hseat'

/-- no call of a burst waits for another one -/
theorem Crowd.joins_at_once (hnj : n ≤ j) (hjl : j ≤ l) {i : TaskId} {ph : Phase} {joined : SignalId} {other : Option SignalId}
    (hph : ((World.start policy).trace moves j).tasks.phase? i = some ph) (hact : ph.activity = .joining q x joined other)
    (hk : q.key = p.key) : other = none := by
  induction j, hnj using Nat.le_induction generalizing i ph joined other with
  | base => exact absurd hk (hb.vacant hjl hph (by rw [hact]; rfl))
  | succ j hnj ih =>
    have hR := running_of_trace policy h j
    rcases at?_back hR hph (q := q) (by rw [hact]; rfl) with hsame | ⟨y, hy⟩ | ⟨a, hcarry, hat, hnext⟩
    · exact ih (Nat.le_of_succ_le hjl) hsame hact
    · cases hact.symm.trans hy
    · obtain ⟨u, -, hs, -, rfl⟩ := carried?_eq_some.1 hcarry
      have hphase := phase?_of_served hs
      obtain ⟨-, -, y, -, -, -, hwatch⟩ := hb.watching hnj (Nat.le_of_succ_le hjl) hphase hat hk
      rw [hact] at hnext
      obtain ⟨rfl, ⟨-, hnone⟩ | ⟨joined', other', ha⟩⟩ := hwatch.rejoins hnext
      · exact hnone
      · -- it has not waited for another one before, and finds none now
        cases ih (Nat.le_of_succ_le hjl) hphase ha
        rw [ha] at hnext
        rcases stepJoining_next hnext with hb | ⟨r, hb⟩ | ⟨e, z, he, hz⟩
        · cases hb
        · cases hb
        · have hentry : World.entry? ((World.start policy).trace moves j) p = some e :=
            (entry?_congr hk).symm.trans ((entry?_floorTo _ i q).symm.trans he)
          cases hz.symm.trans (hb.unseated h hnj (Nat.le_of_succ_le hjl) hphase ha hk hentry)

omit h hb in
/-- **As long as nobody at a path is cancelled, the count there is exact.** -/
theorem exact_since (h : ∀ n, moves n ≠ .call .shutDown) (hnj : n ≤ j)
    (hspared : ∀ c i t q, n ≤ c → c < j → ((World.start policy).trace moves c).tasks.live.get? i = some t →
      t.phase.activity.at? = some q → q.key = k → t.cancelled = false)
    (hexact : ((World.start policy).trace moves n).places.registered k + ((World.start policy).trace moves n).seated k =
      ((World.start policy).trace moves n).places.count k) :
    ((World.start policy).trace moves j).places.registered k + ((World.start policy).trace moves j).seated k =
      ((World.start policy).trace moves j).places.count k := by
  induction j, hnj using Nat.le_induction with
  | base => exact hexact
  | succ j hnj ih =>
    have hR := running_of_trace policy h j
    refine exact_at_move hR.wf hR.continues hR.opened ?_ (ih fun c i t q hnc hcj => hspared c i t q hnc (Nat.lt_succ_of_lt hcj))
    intro i t q hturn hs hc ha hk
    cases (hspared j i t q hnj (Nat.lt_succ_self j) (served?_eq_some hs).2 (by rw [ha]; rfl) hk).symm.trans hc

theorem Crowd.exact (hnj : n ≤ j) (hjl : j ≤ l) :
    ((World.start policy).trace moves j).places.registered p.key + ((World.start policy).trace moves j).seated p.key =
      ((World.start policy).trace moves j).places.count p.key := by
  refine exact_since h hnj ?_ ?_
  · intro c i t q hnc hcj ht hq hk
    exact hb.spared h hnc (hcj.le.trans hjl) ht hq hk
  · have hroster : ((World.start policy).trace moves n).places.roster? p.key = none :=
      congrArg (Option.map Entry.roster) (isTracked_eq_false.1 hb.untracked)
    have hR := running_of_trace policy h n
    rw [Places.registered, Places.count, hroster,
      seated_eq_zero hR.coherent fun i ph q hph hq hk => absurd hk (hb.vacant (hnj.trans hjl) hph hq)]
    rfl

end Trace

section Rest

variable {policy : WritePolicy} {moves : Nat → Move} {n l j : Nat} (h : ∀ n, moves n ≠ .call .shutDown)
  (hb : Burst (World.start policy) moves p n l)
include h hb

/-- **When a burst has come to rest, all of its calls have ended.** -/
theorem Burst.over {i : TaskId} {ph : Phase} (hph : ((World.start policy).trace moves l).tasks.phase? i = some ph)
    (hq : ph.activity.at? = some q) : q.key ≠ p.key := by
  intro hk
  have hw := (reachable_trace policy moves l).wf
  have hg := hb.gathering h hb.lt.le le_rfl
  have hwaits := hb.rests.waits hw hph (Activity.about?_of_at hq) hk
  obtain ⟨-, -, y, -, -, -, hwatch⟩ := hb.watching hb.lt.le le_rfl hph hq hk
  generalize ha : ph.activity = a at hwatch
  cases hwatch with
  | starting => exact hwaits.something (by rw [ha]; rfl)
  | joining joined other =>
    cases hb.joins_at_once h hb.lt.le le_rfl hph ha hk
    exact hwaits.something (by rw [ha]; rfl)
  | synchronizing joined r hr => exact hb.rests.no_lead hw hph ha (hr ▸ hk)
  | settling joined signal =>
    cases signal with
    | none => exact hwaits.something (by rw [ha]; rfl)
    | some z =>
      have hno := hwaits.signal z (by rw [ha]; rfl)
      rcases hg.waits i ph _ z hph ha hk with hgiven | ⟨e, he, hstores⟩
      · cases hno.symm.trans hgiven
      · cases hg.stage with
        | before hnone => cases hnone.symm.trans he
        | fetching i' seat r ph' e' hph' hact hone he' hpos hknown hrev hreg hF =>
          exact hb.rests.no_lead hw hph' hact (Refresh.path_of_fetching hF)
        | fetched e' hnobody he' hpos hdone =>
          cases he.symm.trans he'
          exact hdone.not_stores z hstores
  | failing turn joined z => exact hg.not_tearing hph ha hk

/-- when a burst has come to rest, all of its calls have returned what has been found -/
theorem Burst.all_returned {d : Nat} (hd : d ∈ watchCalls moves p n l) (hm : moves d = .call (.watch q x)) :
    (((World.start policy).trace moves d).tasks.next,
        Ending.returned (.ok (.snapshot ((Known.found (((World.start policy).trace moves n).disk.file? p)).shown q)))) ∈
      ((World.start policy).trace moves l).endings ∧ ((World.start policy).trace moves l).isRegistered p x = true := by
  obtain ⟨-, hdl, q', x', hm', hq⟩ := mem_watchCalls.1 hd
  cases hm.symm.trans hm'
  rcases hb.returned h hd hm hdl le_rfl with ⟨ph, hph, -, hwatch⟩ | hdone
  · exact absurd hq (hb.over h hph (Activity.at?_of_operation hwatch.operation?))
  · exact hdone

/-- when a burst has come to rest, the first reconciliation has ended -/
theorem Burst.fetched : ∃ e, World.entry? ((World.start policy).trace moves l) p = some e ∧ 0 < e.count ∧
    ((World.start policy).trace moves l).disk.callCount .stat p =
      ((World.start policy).trace moves n).disk.callCount .stat p + 1 ∧
    ((World.start policy).trace moves l).disk.callCount .read p =
      ((World.start policy).trace moves n).disk.callCount .read p +
        if (((World.start policy).trace moves n).disk.file? p).isSome then 1 else 0 := by
  have hw := (reachable_trace policy moves l).wf
  obtain ⟨d, hd⟩ := hb.called
  obtain ⟨-, -, q, x, hm, -⟩ := mem_watchCalls.1 hd
  obtain ⟨-, hreg⟩ := hb.all_returned h hd hm
  cases (hb.gathering h hb.lt.le le_rfl).stage with
  | before hno =>
    rw [World.isRegistered, hno] at hreg
    cases hreg
  | fetching i seat r ph e hph hact hone he hpos hknown hrev hreg' hF =>
    exact absurd (Refresh.path_of_fetching hF) (hb.rests.no_lead hw hph hact)
  | fetched e hnobody he hpos hdone hs hn => exact ⟨e, he, hpos, hs, hn⟩

/-- when a burst has come to rest, as many are registered as have called -/
theorem Burst.size_registered (he : World.entry? ((World.start policy).trace moves l) p = some e) :
    e.registered.size = (watchCalls moves p n l).card := by
  let subscriber : Nat → Option SubscriberId := fun d => (moves d).watch?.map Prod.snd
  have hregistered : ∀ x, ((World.start policy).trace moves l).isRegistered p x = true ↔ x ∈ e.registered.keys := by
    intro x
    rw [World.isRegistered, he, Option.any_some, Table.mem_keys_iff]
  have himage : (watchCalls moves p n l).image subscriber = e.registered.keys.toFinset.image some := by
    ext o
    simp only [Finset.mem_image, List.mem_toFinset]
    constructor
    · rintro ⟨d, hd, rfl⟩
      obtain ⟨-, -, q, x, hm, -⟩ := mem_watchCalls.1 hd
      refine ⟨x, (hregistered x).1 (hb.all_returned h hd hm).2, ?_⟩
      simp only [subscriber, hm]
      rfl
    · rintro ⟨x, hx, rfl⟩
      obtain ⟨d, hd, q, hm⟩ := hb.called_of_registered hb.lt.le le_rfl ((hregistered x).2 hx)
      refine ⟨d, hd, ?_⟩
      simp only [subscriber, hm]
      rfl
  calc e.registered.size = e.registered.keys.length := (List.length_map _).symm
    _ = e.registered.keys.toFinset.card := (List.toFinset_card_of_nodup e.registered.nodup).symm
    _ = (e.registered.keys.toFinset.image some).card := (Finset.card_image_of_injective _ (Option.some_injective _)).symm
    _ = ((watchCalls moves p n l).image subscriber).card := by rw [himage]
    _ = (watchCalls moves p n l).card := Finset.card_image_of_injOn fun d hd d' hd' => hb.distinct d hd d' hd'

/-- **When a burst has come to rest, as many subscribers count as have called.** -/
theorem Burst.count : ((World.start policy).trace moves l).subscriberCount p = (watchCalls moves p n l).card := by
  obtain ⟨e, he, -⟩ := hb.fetched h
  have hR := running_of_trace policy h l
  have hroster : ((World.start policy).trace moves l).places.roster? p.key = some e.roster :=
    congrArg (Option.map Entry.roster) he
  have hexact := hb.exact h hb.lt.le le_rfl
  rw [seated_eq_zero hR.coherent fun i ph q hph hq hk => absurd hk (hb.over h hph hq), Places.count_eq, Places.registered,
    hroster] at hexact
  exact hexact.symm.trans (hb.size_registered h he)

end Rest

end LiveFiles.Engine
