/-
Subscribers who leave. A registration is there until somebody unwatches the path for the subscriber: a call does, or background
work that the subscriber's leaving brings about.
- `registration_move`: a registration stays until the path is unwatched for the subscriber.
- `releases_of_taken`: what is released with it is one place, and nothing else changes.
- `sole_trace`: a registration that has been taken away does not come back.
- **`departures_trace`**: nobody who has left stays registered anywhere, and each registration is released once.
-/
import LiveFiles.Proofs.Bursts

namespace LiveFiles.Engine

variable {w : World} {m : Move} {id i j : TaskId} {a b : Activity} {p q : Path} {k : Path.Key} {x y : SubscriberId}
  {r : Registration} {seat : Seat}

/-! ## Registrations -/

/-- what is put down of a subscriber that is registered at a path -/
def World.registration? (w : World) (p : Path) (x : SubscriberId) : Option Registration :=
  (w.entry? p).bind (·.registered.get? x)

theorem registration?_eq_face (w : World) (p : Path) (x : SubscriberId) :
    w.registration? p x = (w.front.face? p.key).bind (·.registered.get? x) := by
  cases he : w.entry? p with
  | none => rw [World.registration?, he, face?_of_absent he]; rfl
  | some e => rw [World.registration?, he, face?_of_present he]; rfl

theorem registration?_eq_some :
    w.registration? p x = some r ↔ ∃ f, w.front.face? p.key = some f ∧ f.registered.get? x = some r := by
  rw [registration?_eq_face, Option.bind_eq_some_iff]

theorem isRegistered_eq_isSome (w : World) (p : Path) (x : SubscriberId) :
    w.isRegistered p x = (w.registration? p x).isSome := by
  cases he : w.entry? p with
  | none => rw [World.isRegistered, World.registration?, he]; rfl
  | some e => rw [World.isRegistered, World.registration?, he]; rfl

theorem subscriberCount_eq_face (w : World) (p : Path) :
    w.subscriberCount p = ((w.front.face? p.key).map Face.count).getD 0 := by
  cases he : w.entry? p with
  | none => rw [World.subscriberCount, he, face?_of_absent he]; rfl
  | some e => rw [World.subscriberCount, he, face?_of_present he]; rfl

/-- **A registration stays until the path is unwatched for the subscriber.** -/
theorem registration_move (hR : Running w m) (ho : Orderly w.front.book? w.seat? w.holder?)
    (hr : w.registration? p x = some r) : (w.move m).registration? p x = some r ∨
      ∃ id q, w.carried? m = some (id, .starting (.unwatch q x)) ∧ q.key = p.key := by
  obtain ⟨f, hf, hx⟩ := registration?_eq_some.1 hr
  rcases section_or_not w m with ⟨i, t, rfl, hs, hc⟩ | hno
  · obtain ⟨hne, hcl⟩ := hR.continues i t rfl hs hc
    have hcarry := carried?_of_served hs hc
    rcases (dealing_serve hR.wf hs hc).unregisters hne hcl hf hx with hkept | ⟨q, ha, hq⟩ | ⟨seat, signal, ha, hk, rfl⟩ | hz
    · exact .inl (registration?_eq_some.2 hkept)
    · exact .inr ⟨i, q, ha ▸ hcarry, hq⟩
    · -- a call that has a place is not for a subscriber that is registered
      exfalso
      have hholder : w.holder? i = some seat := by
        rw [World.holder?, World.activity?, phase?_of_served hs, Option.map_some, Option.bind_some, ha]
        rfl
      obtain ⟨b, hb, hjoining⟩ := ho.held i seat hholder
      rw [hk, book?_of_face hf] at hb
      cases hb
      have hin : f.registered.contains seat.subscriber = true := Option.isSome_iff_exists.2 ⟨r, hx⟩
      cases (ho.apart p.key _ _ (book?_of_face hf) hin).symm.trans hjoining
    · cases (unregistered_of_vacant hR.tally hf hz x).symm.trans hx
  · exact .inl (registration?_eq_some.2 (registration_of_no_section hno hf hx))

/-- what unwatching a path does to places: the registration goes, and counts no more -/
theorem front_unwatch (w : World) (q : Path) (x : SubscriberId) : (w.unwatch q x).1.front = w.front ∨
    ∃ f, w.front.face? q.key = some f ∧ (w.unwatch q x).1.front =
      w.front.put q.key (some { f with registered := f.registered.erase x, count := f.count - 1 }) := by
  have h := dealing_unwatch w q x
  generalize (w.unwatch q x).1.front = v' at h
  cases h with
  | still hv hs hh => exact .inl hv
  | unwatch p' y f ha hf hr hv hs =>
    cases ha
    exact .inr ⟨f, hf, hv⟩
  | take seat f other ha => cases ha
  | register seat f z ha =>
    obtain ⟨signal, ha⟩ := ha
    cases ha
  | lost seat ha => cases ha
  | giveUp seat f ha =>
    obtain ⟨r, ha⟩ := ha
    cases ha
  | release p' f ha => cases ha
  | tearDown p' turn l ha => cases ha
  | shutDown ha => cases ha
  | forget ha => cases ha

/-! ## Who unwatches -/

/-- a task of this role unwatches the path for the subscriber in the move -/
def World.Unwatches (w : World) (m : Move) (p : Path) (x : SubscriberId) (role : Role) : Prop :=
  ∃ id q, w.carried? m = some (id, .starting (.unwatch q x)) ∧ q.key = p.key ∧
    w.tasks.phase? id = some ⟨role, .starting (.unwatch q x)⟩

/-- whoever has left stays away -/
theorem hasLeft_move (hw : Wf w) (hn : w.front.Numbered) (m : Move) (h : w.hasLeft x = true) :
    (w.move m).hasLeft x = true := by
  obtain ⟨c, hc, -⟩ := (Option.any_eq_true _ _).1 h
  have hleaves : ∀ f : Channel Snapshot → Channel Snapshot, (∀ c, (f c).isOpen = false) →
      ((w.channels.modify x f).get? x).any (fun c => !c.isOpen) = true := by
    intro f hf
    rw [Table.get?_modify, if_pos rfl, hc, Option.map_some, Option.any_some, hf]
    rfl
  by_cases hturn : ∃ i, m = .turn i
  · obtain ⟨i, rfl⟩ := hturn
    exact (hasLeft_serve hw i x).trans h
  · rcases hasLeft_or (w := w) (fun i hi => hturn ⟨i, hi⟩) x with hsame | rfl | rfl | rfl
    · exact hsame.trans h
    · have hlt : x.number < w.nextSubscriber := hn x c hc
      have hne : (⟨w.nextSubscriber⟩ : SubscriberId) ≠ x := by
        rintro rfl
        exact lt_irrefl _ hlt
      refine (hasLeft_congr ?_).trans h
      simp only [World.move, World.newSubscriber, Table.get?_insert, if_neg hne]
    · exact hleaves Channel.close fun _ => rfl
    · exact hleaves Channel.dropReceiver fun _ => rfl

/-- background work unwatches a path only for a subscriber that has left -/
def World.UnwatchesRightly (w : World) : Prop := ∀ i ph q x, w.tasks.phase? i = some ph →
  ph.activity = .starting (.unwatch q x) → ph.role = .caller ∨ ph.role = .background ∧ w.hasLeft x = true

/-- a task that is to unwatch a path has been started by a call, or by the one that has listened for the leaving -/
theorem unwatchesRightly_move (hw : Wf w) (hn : w.front.Numbered) (h : w.UnwatchesRightly) :
    (w.move m).UnwatchesRightly := by
  intro j ph q x hph ha
  rcases phase?_cases hw hph with hold | ⟨hnone, hnew⟩ | ⟨b, -, hb⟩
  · exact (h j ph q x hold ha).imp_right (And.imp_right (hasLeft_move hw hn m))
  · cases m with
    | turn i =>
      obtain ⟨t, hs, hstarts⟩ := hnew
      split at hstarts
      · obtain ⟨seat, -, rfl⟩ := hstarts
        cases ha
      · next hc =>
        rw [Bool.not_eq_true] at hc
        rcases hstarts with ⟨y, -, rfl⟩ | ⟨q', y, hact, rfl⟩ | ⟨y, q', -, rfl⟩ | ⟨seat, signal, -, rfl⟩ <;> cases ha
        refine .inr ⟨rfl, ?_⟩
        rw [World.move, hasLeft_serve hw]
        -- otherwise the one that listens goes on to do so, and nobody is new
        by_contra hleft
        have hchannels : (floorTo w i).channels = w.channels := congrArg Front.channels (front_floorTo w i)
        have hstep : (floorTo w i).step (.listening q x) = (floorTo w i, .wait (.listening q x)) := by
          simp only [World.step, World.stepListening, hchannels]
          exact if_neg hleft
        have hne : j ≠ i := by
          rintro rfl
          cases (phase?_of_served hs).symm.trans hnone
        rw [World.move, phase?_section hs hc hne, hact, hstep, phase?_floorTo, hnone] at hph
        cases hph
    | call request =>
      obtain ⟨-, rfl⟩ := hnew
      exact .inl rfl
    | notifyChange p =>
      cases (show ph = _ from hnew)
      cases ha
    | attachStream =>
      obtain ⟨y, rfl⟩ := hnew
      cases ha
    | _ => cases hnew
  · rw [ha] at hb
    cases initial_of_next hb rfl
    cases not_initial_begin (y := .unwatch q x) hb

/-- no call is to give a place back: background work is -/
def World.ReleasesBehind (w : World) : Prop := ∀ i ph q, w.tasks.phase? i = some ph →
  ph.activity = .starting (.release q) → ph.role = .background

theorem releasesBehind_move (hw : Wf w) (h : w.ReleasesBehind) : (w.move m).ReleasesBehind := by
  intro j ph q hph ha
  rcases phase?_cases hw hph with hold | ⟨-, hnew⟩ | ⟨b, -, hb⟩
  · exact h j ph q hold ha
  · cases m with
    | turn i =>
      obtain ⟨t, hs, hstarts⟩ := hnew
      split at hstarts
      · obtain ⟨seat, -, rfl⟩ := hstarts
        rfl
      · rcases hstarts with ⟨y, -, rfl⟩ | ⟨q', y, -, rfl⟩ | ⟨y, q', -, rfl⟩ | ⟨seat, signal, -, rfl⟩ <;> cases ha
    | call request =>
      obtain ⟨hpublic, rfl⟩ := hnew
      cases ha
      cases hpublic
    | notifyChange p =>
      cases (show ph = _ from hnew)
      rfl
    | attachStream =>
      obtain ⟨y, rfl⟩ := hnew
      cases ha
    | _ => cases hnew
  · rw [ha] at hb
    cases initial_of_next hb rfl
    cases not_initial_begin (y := .release q) hb

/-! ## What goes with a registration -/

/-- What a move releases that takes away the registration of a subscriber at a path. -/
structure Releases (w : World) (m : Move) (p : Path) (x : SubscriberId) : Prop where
  /-- a call has unwatched the path for the subscriber, or background work has because it has left -/
  unwatched : w.Unwatches m p x .caller ∨ w.Unwatches m p x .background ∧ w.hasLeft x = true
  gone : (w.move m).registration? p x = none
  /-- it is one place that is given back -/
  count : (w.move m).subscriberCount p + 1 = w.subscriberCount p
  others : ∀ q y, q.key ≠ p.key ∨ y ≠ x → (w.move m).registration? q y = w.registration? q y
  counts : ∀ q, q.key ≠ p.key → (w.move m).subscriberCount q = w.subscriberCount q

/-- where somebody is registered, somebody counts -/
theorem count_pos_of_registered (ht : Tallied w) {f : Face} (hf : w.front.face? k = some f)
    (hx : f.registered.get? x = some r) : 0 < f.count := by
  refine Nat.pos_of_ne_zero fun hz => ?_
  cases (unregistered_of_vacant ht hf hz x).symm.trans hx

/-- **With a registration, one place is given back, and nothing else changes.** -/
theorem releases_of_taken (hR : Running w m) (ho : Orderly w.front.book? w.seat? w.holder?) (hu : w.UnwatchesRightly)
    (hr : w.registration? p x = some r) (hgone : (w.move m).registration? p x ≠ some r) : Releases w m p x := by
  obtain ⟨id, q, hcarry, hq⟩ := (registration_move hR ho hr).resolve_left hgone
  obtain ⟨t, rfl, hs, hc, hact⟩ := carried?_eq_some.1 hcarry
  have hph := phase?_of_served hs
  have hfront : (w.move (.turn id)).front = ((floorTo w id).unwatch q x).1.front := by
    rw [World.move, front_serve hs hc, hact]
    rfl
  obtain ⟨f, hf, hput⟩ : ∃ f, w.front.face? p.key = some f ∧ (w.move (.turn id)).front =
      w.front.put p.key (some { f with registered := f.registered.erase x, count := f.count - 1 }) := by
    rcases front_unwatch (floorTo w id) q x with hsame | ⟨f, hf, hput⟩
    · refine absurd ?_ hgone
      rw [registration?_eq_face, hfront, hsame, front_floorTo, ← registration?_eq_face, hr]
    · rw [front_floorTo, hq] at hf hput
      exact ⟨f, hf, hfront.trans hput⟩
  obtain ⟨f', hf', hx⟩ := registration?_eq_some.1 hr
  cases hf.symm.trans hf'
  have hpos := count_pos_of_registered hR.tally hf hx
  have hface : ∀ k, (w.move (.turn id)).front.face? k = if k = p.key then some { f with
      registered := f.registered.erase x, count := f.count - 1 } else w.front.face? k := by
    intro k
    rw [hput, Front.face?_put]
  constructor
  · have hphase : ∀ role, t.phase.role = role → w.Unwatches (.turn id) p x role := by
      rintro role rfl
      refine ⟨id, q, hcarry, hq, ?_⟩
      rw [hph, ← hact]
    exact (hu id t.phase q x hph hact).imp (hphase _) (And.imp_left (hphase _))
  · rw [registration?_eq_face, hface, if_pos rfl, Option.bind_some, Table.get?_erase, if_pos rfl]
  · rw [subscriberCount_eq_face, subscriberCount_eq_face, hface, if_pos rfl, hf]
    exact Nat.sub_add_cancel hpos
  · intro q' y hne
    rw [registration?_eq_face, registration?_eq_face, hface]
    split
    · next hk =>
      have hy : x ≠ y := fun hxy => hne.elim (fun hne => hne hk) fun hne => hne hxy.symm
      rw [Option.bind_some, Table.get?_erase, if_neg hy, hk, hf, Option.bind_some]
    · rfl
  · intro q' hne
    rw [subscriberCount_eq_face, subscriberCount_eq_face, hface, if_neg hne]

/-! ## Along a run -/

/-- from outside, calls are cancelled and nothing else is -/
def CancelsCalls (w : World) (moves : Nat → Move) : Prop :=
  ∀ n id ph, moves n = .cancel id → (w.trace moves n).tasks.phase? id = some ph → ph.role = .caller

/-- What becomes of registrations in a run. -/
structure Departures (w : World) (moves : Nat → Move) : Prop where
  /-- where nobody can go on, nobody is registered who has left -/
  settled : ∀ n p x, (w.trace moves n).tasks.quiet = true → (w.trace moves n).hasLeft x = true →
    (w.trace moves n).isRegistered p x = false
  /-- by then, every registration of somebody who has left has been taken away once -/
  once : ∀ n l p x r, n ≤ l → (w.trace moves n).registration? p x = some r → (w.trace moves n).hasLeft x = true →
    (w.trace moves l).tasks.quiet = true → ∃ i, n ≤ i ∧ i < l ∧ ∀ j, n ≤ j →
      ((w.trace moves j).registration? p x = some r ∧ (w.trace moves (j + 1)).registration? p x ≠ some r ↔ j = i)
  /-- whenever a registration is taken away, one place is given back, and nothing else is -/
  released : ∀ n p x r, (w.trace moves n).registration? p x = some r → (w.trace moves (n + 1)).registration? p x ≠ some r →
    Releases (w.trace moves n) (moves n) p x
  /-- whoever has not left stays registered until a call unwatches the path for it -/
  kept : ∀ n l p x r, n ≤ l → (w.trace moves n).registration? p x = some r → (w.trace moves l).hasLeft x = false →
    (∀ j, n ≤ j → j < l → ¬ (w.trace moves j).Unwatches (moves j) p x .caller) → (w.trace moves l).registration? p x = some r
  /-- only those count who are registered, and the calls that have a place -/
  counted : ∀ n p e, World.entry? (w.trace moves n) p = some e → e.count = e.registered.size + (w.trace moves n).seated p.key

section Trace

variable {policy : WritePolicy} {moves : Nat → Move} {n l : Nat}
variable (h : ∀ n, moves n ≠ .call .shutDown)

omit h in
theorem front_numbered_trace (policy : WritePolicy) (moves : Nat → Move) (n : Nat) :
    ((World.start policy).trace moves n).front.Numbered := by
  induction n with
  | zero =>
    intro x c hc
    cases hc
  | succ n ih => exact numbered_move_front (reachable_trace policy moves n).wf ih (moves n)

omit h in
/-- leaving is for good -/
theorem hasLeft_since (hnl : n ≤ l) (hx : ((World.start policy).trace moves n).hasLeft x = true) :
    ((World.start policy).trace moves l).hasLeft x = true := by
  induction l, hnl using Nat.le_induction with
  | base => exact hx
  | succ l _ ih => exact hasLeft_move (reachable_trace policy moves l).wf (front_numbered_trace policy moves l) (moves l) ih

omit h in
theorem unwatchesRightly_trace (policy : WritePolicy) (moves : Nat → Move) (n : Nat) :
    ((World.start policy).trace moves n).UnwatchesRightly := by
  induction n with
  | zero =>
    intro i ph q x hph
    cases hph
  | succ n ih => exact unwatchesRightly_move (reachable_trace policy moves n).wf (front_numbered_trace policy moves n) ih

include h

/-- a registration names a task that has been started -/
theorem listener_lt {f : Face} (hf : ((World.start policy).trace moves n).front.face? k = some f)
    (hx : f.registered.get? x = some r) (hj : r.listener = some j) : j < ((World.start policy).trace moves n).tasks.next :=
  (servedBy_trace h n (Or.inl (listens_iff.2 ⟨k, f, x, r, hf, hx, hj⟩))).1

/-- a registration that is not there before a move and is there after it names a new task -/
theorem listener_new (hr : ((World.start policy).trace moves (n + 1)).registration? p x = some r)
    (hno : ((World.start policy).trace moves n).registration? p x ≠ some r) :
    r.listener = some ((World.start policy).trace moves n).tasks.next := by
  have hR := running_of_trace policy h n
  obtain ⟨f', hf', hx⟩ := registration?_eq_some.1 hr
  have hbefore : ¬ ∃ f, ((World.start policy).trace moves n).front.face? p.key = some f ∧ f.registered.get? x = some r :=
    fun hold => hno (registration?_eq_some.2 hold)
  rcases section_or_not ((World.start policy).trace moves n) (moves n) with ⟨i, t, hm, hs, hc⟩ | hidle
  · rw [World.trace, hm, World.move] at hf'
    exact ((registration_serve hR.wf hs hc hf' hx).resolve_left hbefore).1 hR.opened
  · exact absurd (noNewer_of_no_section hidle p.key f' x r hf' hx) hbefore

/-- in every state, a registration names a task that has been started -/
theorem listener_of_registration (hr : ((World.start policy).trace moves n).registration? p x = some r) :
    ∃ j, r.listener = some j ∧ j < ((World.start policy).trace moves n).tasks.next := by
  have hsome : ∃ j, r.listener = some j := by
    induction n with
    | zero =>
      obtain ⟨f, hf, -⟩ := registration?_eq_some.1 hr
      cases hf
    | succ n ih =>
      by_cases hbefore : ((World.start policy).trace moves n).registration? p x = some r
      · exact ih hbefore
      · exact ⟨_, listener_new h hr hbefore⟩
  obtain ⟨j, hj⟩ := hsome
  obtain ⟨f, hf, hx⟩ := registration?_eq_some.1 hr
  exact ⟨j, hj, listener_lt h hf hx hj⟩

/-- **A registration that has been taken away does not come back.** -/
theorem sole_trace (hr : ((World.start policy).trace moves n).registration? p x = some r)
    (hgone : ((World.start policy).trace moves (n + 1)).registration? p x ≠ some r) (hnl : n < l) :
    ((World.start policy).trace moves l).registration? p x ≠ some r := by
  induction l, hnl using Nat.le_induction with
  | base => exact hgone
  | succ l hnl ih =>
    intro hback
    obtain ⟨j, hj, hlt⟩ := listener_of_registration h hr
    have hnew := listener_new h hback ih
    cases hj.symm.trans hnew
    exact absurd (next_trace (Nat.le_of_succ_le hnl)) (Nat.not_le_of_lt hlt)

/-- whoever is registered is attended to -/
theorem attentive_trace (hcancel : CancelsCalls (World.start policy) moves) (n : Nat) (k : Path.Key) :
    ((World.start policy).trace moves n).Attentive k := by
  induction n with
  | zero =>
    intro f x r hf
    cases hf
  | succ n ih =>
    have hR := running_of_trace policy h n
    refine attentive_move hR.wf hR.continues (fun i => servedBy_trace h n) hR.opened (heeds_trace h n) ih ?_
    intro j ph q x hm hph hrole
    exact absurd (hcancel n j ph hm hph) hrole

/-- where nobody can go on, nobody is registered who has left -/
theorem unregistered_of_quiet (hcancel : CancelsCalls (World.start policy) moves)
    (hquiet : ((World.start policy).trace moves n).tasks.quiet = true)
    (hx : ((World.start policy).trace moves n).hasLeft x = true) :
    ((World.start policy).trace moves n).isRegistered p x = false := by
  by_contra hreg
  have hw := (reachable_trace policy moves n).wf
  obtain ⟨f, hf, hin⟩ := isRegistered_iff.1 (Bool.eq_true_of_not_eq_false hreg)
  obtain ⟨r, hr⟩ := Option.isSome_iff_exists.1 hin
  obtain ⟨j, t, q, ht, -, -, hattends⟩ := attentive_trace h hcancel n p.key f x r hf hr
  have hph : ((World.start policy).trace moves n).tasks.phase? j = some t.phase := congrArg (Option.map Task.phase) ht
  have hgo : ((World.start policy).trace moves n).runnable j = true := by
    rcases hattends with ⟨-, hlistens⟩ | hunwatches
    · exact (heeds_trace h n).left j t.phase q x hph (congrArg Phase.activity hlistens) hx
    · exact runnable_of_starting hw hph (congrArg Phase.activity hunwatches)
  cases (runnable_of_quiet hquiet j).symm.trans hgo

omit h in
/-- who cancels calls only leaves those alone who are to give places back -/
theorem sparesReleases_of_cancelsCalls (hcancel : CancelsCalls (World.start policy) moves) :
    SparesReleases (World.start policy) moves := by
  have hbehind : ∀ n, ((World.start policy).trace moves n).ReleasesBehind := by
    intro n
    induction n with
    | zero =>
      intro i ph q hph
      cases hph
    | succ n ih => exact releasesBehind_move (reachable_trace policy moves n).wf ih
  intro n id ph p hm hph ha
  cases (hcancel n id ph hm hph).symm.trans (hbehind n id ph p hph ha)

omit h in
/-- the move in which a registration is taken away -/
theorem exists_taken {w : World} (hnl : n ≤ l) (hr : (w.trace moves n).registration? p x = some r)
    (hgone : (w.trace moves l).registration? p x ≠ some r) : ∃ i, n ≤ i ∧ i < l ∧
      (w.trace moves i).registration? p x = some r ∧ (w.trace moves (i + 1)).registration? p x ≠ some r := by
  induction l, hnl using Nat.le_induction with
  | base => exact absurd hr hgone
  | succ l hnl ih =>
    by_cases hlast : (w.trace moves l).registration? p x = some r
    · exact ⟨l, hnl, Nat.lt_succ_self l, hlast, hgone⟩
    · obtain ⟨i, hni, hil, htaken⟩ := ih hlast
      exact ⟨i, hni, hil.trans (Nat.lt_succ_self l), htaken⟩

end Trace

/-- **In a run without shutting down, nobody who has left stays registered anywhere, and each registration is released once.** -/
theorem departures_trace {policy : WritePolicy} {moves : Nat → Move} (h : ∀ n, moves n ≠ .call .shutDown)
    (hcancel : CancelsCalls (World.start policy) moves) : Departures (World.start policy) moves := by
  have hreleased : ∀ n p x r, ((World.start policy).trace moves n).registration? p x = some r →
      ((World.start policy).trace moves (n + 1)).registration? p x ≠ some r →
      Releases ((World.start policy).trace moves n) (moves n) p x := fun n p x r hr hgone =>
    releases_of_taken (running_of_trace policy h n) (orderly_trace policy h n) (unwatchesRightly_trace policy moves n) hr hgone
  constructor
  · intro n p x hquiet hx
    exact unregistered_of_quiet h hcancel hquiet hx
  · intro n l p x r hnl hr hx hquiet
    have hgone : ((World.start policy).trace moves l).registration? p x ≠ some r := by
      intro hstays
      have hno := unregistered_of_quiet (p := p) h hcancel hquiet (hasLeft_since hnl hx)
      rw [isRegistered_eq_isSome, hstays] at hno
      cases hno
    obtain ⟨i, hni, hil, htaken⟩ := exists_taken hnl hr hgone
    refine ⟨i, hni, hil, fun j _ => ⟨fun hj => ?_, fun hj => hj ▸ htaken⟩⟩
    -- nothing is taken away twice
    rcases Nat.lt_trichotomy j i with hlt | heq | hgt
    · exact absurd htaken.1 (sole_trace h hj.1 hj.2 hlt)
    · exact heq
    · exact absurd hj.1 (sole_trace h htaken.1 htaken.2 hgt)
  · exact hreleased
  · intro n l p x r hnl hr hx hcalls
    by_contra hgone
    obtain ⟨i, hni, hil, htaken⟩ := exists_taken hnl hr hgone
    rcases (hreleased i p x r htaken.1 htaken.2).unwatched with hcall | ⟨-, hleft⟩
    · exact hcalls i hni hil hcall
    · cases (hasLeft_since hil.le hleft).symm.trans hx
  · intro n p e he
    exact (exact_trace h (sparesReleases_of_cancelsCalls hcancel) n).count he

/-- One of two subscribers of a file leaves, is unwatched by a call all the same, and watches the file again, before the background
work of its leaving has its turn. -/
def watchingAgain : List Move :=
  let p : Path := ⟨"/a"⟩
  List.flatten [[.newSubscriber, .newSubscriber, .putFile p ⟨#[49]⟩, .call (.watch p ⟨1⟩)],
    List.replicate 6 (.turn 1), [.turn 2, .call (.watch p ⟨2⟩)], List.replicate 3 (.turn 3), [.turn 4],
    [.dropSubscriber ⟨2⟩, .call (.unwatch p ⟨2⟩), .call (.watch p ⟨2⟩), .turn 4, .turn 5],
    List.replicate 3 (.turn 6), [.turn 7, .turn 8]]

/-- both registrations of the subscriber that has left are gone in the end, and the other one's is there -/
theorem departures_trace_watchingAgain :
    (∀ n, along watchingAgain n ≠ .call .shutDown) ∧ CancelsCalls (World.start .allow) (along watchingAgain) ∧
      Departures (World.start .allow) (along watchingAgain) ∧
      ((World.start .allow).trace (along watchingAgain) 26).tasks.quiet = true ∧
      ((World.start .allow).trace (along watchingAgain) 17).hasLeft ⟨2⟩ = true ∧
      ((World.start .allow).trace (along watchingAgain) 17).registration? ⟨"/a"⟩ ⟨2⟩ = some ⟨some 4⟩ ∧
      ((World.start .allow).trace (along watchingAgain) 24).registration? ⟨"/a"⟩ ⟨2⟩ = some ⟨some 8⟩ ∧
      ((World.start .allow).trace (along watchingAgain) 26).registration? ⟨"/a"⟩ ⟨1⟩ = some ⟨some 2⟩ := by
  have h : ∀ n, along watchingAgain n ≠ .call .shutDown := along_ne watchingAgain (by simp [watchingAgain]) (by simp)
  have hcancel : CancelsCalls (World.start .allow) (along watchingAgain) := fun n i ph hm =>
    absurd hm (along_ne watchingAgain (by simp [watchingAgain]) (by simp) n)
  refine ⟨h, hcancel, departures_trace h hcancel, ?_⟩
  decide +kernel

end LiveFiles.Engine
