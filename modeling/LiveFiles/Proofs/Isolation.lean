/-
Isolation of paths. A run is compared with what is left of it when everything that concerns other paths than one is left out: calls
and their cancelling, changes to files, failures, gates, events, and refusals of the watcher (`Filters`). At that path nothing is
different (`SameAt`).
- **`isolation_trace`**: so it is for every path, in every run without shutting down and without waiting for all work.
-/
import LiveFiles.Proofs.Partition

namespace LiveFiles.Engine

variable {S : Scope} {O : Tag → Prop} {θ : Pairing} {w v : World} {m : Move} {q p p' : Path} {policy : WritePolicy}
  {moves : Nat → Move}

/-! ## What is shown of a path -/

/-- what concerns the paths with some keys, as they are written -/
def Scope.only (seen : Path.Key → Bool) : Scope where
  path p p' := p = p' ∧ seen p.key = true
  seen := seen
  whole := False
  key := by
    rintro p _ ⟨rfl, -⟩
    rfl
  visible h := h.2
  all := False.elim

/-- what concerns one path -/
def Scope.at (q : Path) : Scope := .only fun k => k = q.key

theorem seen_self (q : Path) : (Scope.at q).seen q.key = true := decide_eq_true rfl

/-- **At the path two worlds are the same**, but for the numbers of tasks and the dates of files. Dates are in the same order. -/
structure SameAt (q : Path) (θ : Pairing) (w v : World) : Prop where
  dates : ∀ t t' u u', θ.on .date t u → θ.on .date t' u' → (t = t' ↔ u = u') ∧ (t.nanos < t'.nanos ↔ u.nanos < u'.nanos)
  calls : ∀ a a' b b', θ.on .task a b → θ.on .task a' b' → (a = a' ↔ b = b')
  /-- the outcomes of calls -/
  running : ∀ a b, θ.on .task a b → w.tasks.isLive a = v.tasks.isLive b
  endings : ∀ a b, θ.on .task a b → List.Forall₂ (EndingAlike (.at q) θ) (w.endingsOf a) (v.endingsOf b)
  /-- what subscribers have been shown of the path and not read yet, and what they read next if it is of the path -/
  delivered : ∀ x, List.Forall₂ (SnapshotAlike (.at q) θ) ((w.drain x).1.filter fun s => s.path.key = q.key) (v.drain x).1
  read : ∀ x, (∀ s ∈ (w.tryRead x).1, s.path.key = q.key) →
    Option.Rel (SnapshotAlike (.at q) θ) (w.tryRead x).1 (v.tryRead x).1
  /-- what the watcher has been told about the path -/
  told : (w.watcher.calls.filter fun c => c.path.key = q.key) = v.watcher.calls
  /-- the calls to the disk there have been, and there are -/
  callCount : ∀ op, w.disk.callCount op q = v.disk.callCount op q
  underWay : w.disk.underWayAt q = v.disk.underWayAt q ∧ w.disk.mostUnderWayAt q = v.disk.mostUnderWayAt q
  file : Option.Rel (FileAlike θ) (w.disk.file? q) (v.disk.file? q)
  tracked : w.isTracked q = v.isTracked q
  snapshot : Option.Rel (SnapshotAlike (.at q) θ) (w.snapshot? q) (v.snapshot? q)
  subscribers : w.subscriberCount q = v.subscriberCount q
  /-- Nobody is kept waiting: as long as a task has something to do by itself, the task that it stands for can go on. -/
  prompt : ∀ b t, v.tasks.live.get? b = some t →
    ∃ a, θ.on .task a b ∧ (w.runnable a = false → t.cancelled = false ∧ HeldUp v t.phase.activity)

theorem Alike.prompt (h : Alike S O θ w v) (hS : ¬S.whole) (hw : w.Vigilant) {b : TaskId} {t : Task Phase}
    (ht : v.tasks.live.get? b = some t) :
    ∃ a, θ.on .task a b ∧ (w.runnable a = false → t.cancelled = false ∧ HeldUp v t.phase.activity) := by
  obtain ⟨a, hab⟩ := h.covered.2 b (by rw [ht]; rfl)
  refine ⟨a, hab, fun hrun => ?_⟩
  have hlive := h.live a b hab
  rw [ht] at hlive
  cases hu : w.tasks.live.get? a with
  | none =>
    rw [hu] at hlive
    cases hlive
  | some u =>
    rw [hu] at hlive
    obtain htask : TaskAlike S θ u t := by
      cases hlive with
      | some h => exact h
    obtain ⟨hc, hheld⟩ := hw a u hu hrun (htask.phase.activity.quiet hS)
    refine ⟨htask.cancelled.symm.trans hc, (h.heldUp hS htask.phase.activity fun s hs ev hev => ?_).1 hheld⟩
    have hidle := hheld.message s (by rw [hs]; rfl)
    rw [hidle.buffer] at hev
    cases hev

theorem Alike.sameAt (h : Alike (.at q) O θ w v) (hw : w.Vigilant) : SameAt q θ w v where
  dates t t' u u' htu htu' := ⟨h.fit.eq_iff (fun _ _ h => Tag.date.inj h) htu htu', h.fit.later t t' u u' htu htu'⟩
  calls a a' b b' hab hab' := h.fit.eq_iff (fun _ _ h => Tag.task.inj h) hab hab'
  running a b hab := rel_isSome (h.live a b hab)
  endings := h.endings
  delivered x := (h.drain x).2
  read x hx := (h.tryRead x fun s hs => decide_eq_true (hx s hs)).2
  told := by
    have hcalls := h.calls.imp (S := Eq) fun c c' hc => by
      cases hc with
      | arm hp => rw [hp.1]
      | disarm hp => rw [hp.1]
    rwa [List.forall₂_eq_eq_eq] at hcalls
  callCount op := h.diskCalls.getD_eq (k := (op, q.key)) (seen_self q) 0
  underWay := ⟨h.underWay.getD_eq (seen_self q) 0, h.mostUnderWay.getD_eq (seen_self q) 0⟩
  file := h.files q.key (seen_self q)
  tracked := rel_isSome (h.entries q.key (seen_self q))
  snapshot := rel_map (h.entries q.key (seen_self q)) fun _ _ he => he.snapshot ⟨rfl, seen_self q⟩
  subscribers :=
    congrArg (Option.getD · 0) (eq_of_rel (rel_map (q := Eq) (h.entries q.key (seen_self q)) fun _ _ he => he.count) fun _ _ => id)
  prompt b t ht := h.prompt id hw ht

/-! ## Runs -/

/-- the paths for which gates have been put up, after `n` of the moves -/
def World.gatePaths (w : World) (moves : Nat → Move) : Nat → GateId → Option Path
  | 0 => fun _ => none
  | n + 1 => (w.trace moves n).gatesAfter (w.gatePaths moves n) (moves n)

/-- A world that a run without shutting down has come to. -/
def Serving (policy : WritePolicy) (w : World) : Prop :=
  ∃ (moves : Nat → Move) (n : Nat), (∀ k, moves k ≠ .call .shutDown) ∧ w = (World.start policy).trace moves n

theorem serving_start (policy : WritePolicy) : Serving policy (World.start policy) :=
  ⟨fun _ => .newSubscriber, 0, nofun, rfl⟩

theorem Serving.move (h : Serving policy w) (hm : m ≠ .call .shutDown) : Serving policy (w.move m) := by
  obtain ⟨moves, n, hmoves, rfl⟩ := h
  refine ⟨Function.update moves n m, n + 1, fun k => ?_, ?_⟩
  · by_cases hk : k = n
    · subst hk
      rwa [Function.update_self]
    · rw [Function.update_of_ne hk]
      exact hmoves k
  · have hbefore : (World.start policy).trace (Function.update moves n m) n = (World.start policy).trace moves n :=
      trace_congr fun j hj => Function.update_of_ne hj.ne _ _
    rw [World.trace, hbefore, Function.update_self]

theorem Serving.vigilant (h : Serving policy w) : w.Vigilant := by
  obtain ⟨moves, n, hmoves, rfl⟩ := h
  exact fun j t ht hrun hquiet => heldUp_trace hmoves n ht hrun hquiet

/-- a sequence whose steps are found one after another -/
theorem exists_sequence {α : Type} {P : Nat → α → Prop} {R : Nat → α → α → Prop} {a : α} (ha : P 0 a)
    (hstep : ∀ n x, P n x → ∃ y, R n x y ∧ P (n + 1) y) :
    ∃ f : Nat → α, f 0 = a ∧ ∀ n, P n (f n) ∧ R n (f n) (f (n + 1)) := by
  have : Nonempty α := ⟨a⟩
  choose! next hnext using hstep
  have hall : ∀ n, P n (Nat.rec a next n) := by
    intro n
    induction n with
    | zero => exact ha
    | succ n ih => exact (hnext n _ ih).2
  exact ⟨fun n => Nat.rec a next n, rfl, fun n => ⟨hall n, (hnext n _ (hall n)).1⟩⟩

theorem split_start (S T : Scope) (policy : WritePolicy) :
    Split S T (fun _ => none) .outset .outset (World.start policy) (World.start policy) (World.start policy) where
  left := (Alike.start S policy).estranged
  right := (Alike.start T policy).estranged
  shared _ _ _ hy _ := Or.inl ⟨_, hy.1⟩
  covered _ hid := by cases hid
  pumps _ _ _ hph := by cases hph
  gatesLeft _ _ hg := by cases hg
  gatesRight _ _ hg := by cases hg

/-- what concerns all paths but one -/
def Scope.beside (q : Path) : Scope := .only fun k => !decide (k = q.key)

theorem complement_at (q : Path) : (Scope.at q).Complement (.beside q) where
  keys _ := rfl
  left := id
  right := id
  selfLeft _ hp := ⟨rfl, hp⟩
  selfRight _ hp := ⟨rfl, hp⟩

/-- two worlds beside a third one, of which they are to be the parts -/
structure Parts where
  θ : Pairing
  η : Pairing
  inside : World
  beside : World

/-- after `n` moves of the run, its world is in these parts -/
structure Parts.Fit (policy : WritePolicy) (q : Path) (moves : Nat → Move) (n : Nat) (x : Parts) : Prop where
  split : Split (.at q) (.beside q) ((World.start policy).gatePaths moves n) x.θ x.η ((World.start policy).trace moves n) x.inside x.beside
  inside : Serving policy x.inside
  beside : Serving policy x.beside

/-- one more move, which is made at the path, or is not -/
def Parts.Next (policy : WritePolicy) (q : Path) (moves : Nat → Move) (n : Nat) (x x' : Parts) : Prop :=
  ∃ m, x'.inside = x.inside.move m ∧ Filters (.at q) ((World.start policy).gatePaths moves n) x.θ x'.θ
    ((World.start policy).trace moves n) x.inside (moves n) m

theorem Parts.Fit.next {n : Nat} {x : Parts} (hx : x.Fit policy q moves n)
    (h : ∀ n, moves n ≠ .call .shutDown ∧ moves n ≠ .call .waitIdle) :
    ∃ x', Parts.Next policy q moves n x x' ∧ x'.Fit policy q moves (n + 1) := by
  have hgo : ∀ n, moves n ≠ .call .shutDown := fun n => (h n).1
  obtain ⟨m₁, m₂, θ', η', hl, hr, hsplit⟩ := hx.split.move (complement_at q) (reachable_trace policy moves n).wf
    (heeds_trace hgo n) (continues_trace hgo n) hx.inside.vigilant hx.beside.vigilant (h n)
  exact ⟨⟨θ', η', x.inside.move m₁, x.beside.move m₂⟩, ⟨m₁, rfl, hl⟩, hsplit, hx.inside.move fun hm => hgo n (hl.going hm),
    hx.beside.move fun hm => hgo n (hr.going hm)⟩

/-- **Isolation of paths.** In a run without shutting down, and without waiting for all background work, leave out everything that
concerns other paths than `q`. The run that remains is the same at `q`, in every state. -/
theorem isolation_trace (policy : WritePolicy) (q : Path) (moves : Nat → Move)
    (h : ∀ n, moves n ≠ .call .shutDown ∧ moves n ≠ .call .waitIdle) :
    ∃ (moves' : Nat → Move) (θ : Nat → Pairing),
      (∀ n, Filters (.at q) ((World.start policy).gatePaths moves n) (θ n) (θ (n + 1)) ((World.start policy).trace moves n)
        ((World.start policy).trace moves' n) (moves n) (moves' n)) ∧
      ∀ n, SameAt q (θ n) ((World.start policy).trace moves n) ((World.start policy).trace moves' n) := by
  have hstart : Parts.Fit policy q moves 0 ⟨.outset, .outset, World.start policy, World.start policy⟩ :=
    ⟨split_start _ _ policy, serving_start policy, serving_start policy⟩
  obtain ⟨parts, hfirst, hparts⟩ := exists_sequence hstart fun n x hx => hx.next h
  choose moves' hinside hfilters using fun n => (hparts n).2
  have hrun : ∀ n, (World.start policy).trace moves' n = (parts n).inside := by
    intro n
    induction n with
    | zero => exact (congrArg Parts.inside hfirst).symm
    | succ n ih => rw [World.trace, ih, hinside]
  have hvigilant : ∀ n, ((World.start policy).trace moves n).Vigilant := fun n =>
    Serving.vigilant ⟨moves, n, fun k => (h k).1, rfl⟩
  refine ⟨moves', fun n => (parts n).θ, fun n => ?_, fun n => ?_⟩
  · rw [hrun]
    exact hfilters n
  · rw [hrun]
    exact (hparts n).1.split.left.sameAt (hvigilant n)

/-! A read that is held up for ever, while another file is watched. -/

/-- one file is read behind a gate, and another one is watched -/
def watchingBeside : List Move :=
  [.newSubscriber, .putFile ⟨"a"⟩ "x".toUTF8, .hold .read ⟨"b"⟩, .call (.diskRead ⟨"b"⟩), .turn 1, .call (.watch ⟨"a"⟩ ⟨1⟩),
    .turn 2, .turn 2, .turn 2, .turn 2, .turn 2, .turn 2, .turn 2]

theorem isolation_trace_watch :
    (∀ n, along watchingBeside n ≠ .call .shutDown ∧ along watchingBeside n ≠ .call .waitIdle) ∧
      (∃ (moves' : Nat → Move) (θ : Nat → Pairing),
        (∀ n, Filters (.at ⟨"a"⟩) ((World.start .allow).gatePaths (along watchingBeside) n) (θ n) (θ (n + 1))
          ((World.start .allow).trace (along watchingBeside) n) ((World.start .allow).trace moves' n) (along watchingBeside n)
          (moves' n)) ∧
        ∀ n, SameAt ⟨"a"⟩ (θ n) ((World.start .allow).trace (along watchingBeside) n) ((World.start .allow).trace moves' n)) ∧
      ((World.start .allow).trace (along watchingBeside) 13).tasks.isLive 1 = true ∧
      ((World.start .allow).trace (along watchingBeside) 13).runnable 1 = false ∧
      ((World.start .allow).trace (along watchingBeside) 13).endings.map Prod.fst = [2] ∧
      ((World.start .allow).trace (along watchingBeside) 13).subscriberCount ⟨"a"⟩ = 1 ∧
      (((World.start .allow).trace (along watchingBeside) 13).snapshot? ⟨"a"⟩).map Snapshot.contents? = some (some "x") := by
  have h : ∀ n, along watchingBeside n ≠ .call .shutDown ∧ along watchingBeside n ≠ .call .waitIdle := fun n =>
    ⟨along_ne watchingBeside (by simp [watchingBeside]) (by simp) n, along_ne watchingBeside (by simp [watchingBeside]) (by simp) n⟩
  refine ⟨h, isolation_trace .allow ⟨"a"⟩ _ h, ?_⟩
  decide +kernel

end LiveFiles.Engine
