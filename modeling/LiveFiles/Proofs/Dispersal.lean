/-
Bursts of calls to watch a path, and what is left of them. When all subscribers have left, nothing of the path remains.
- `Dispersal.count_pos_iff`: while subscribers leave, somebody counts exactly as long as somebody is registered.
- `Dispersal.unregistered`: whoever has been unwatched or has left is not registered in the end.
- `Dispersal.untracked`: so the last of the calls to unwatch has dropped the entry.
- **`burst_trace`**: a burst of calls to watch shares one synchronization (`SynchronizesOnce`), and when its subscribers have
  left everything has been cleaned up (`CleansUp`).
-/
import LiveFiles.Proofs.Bursts

namespace LiveFiles.Engine

variable {w : World} {m : Move} {id : TaskId} {a b : Activity} {p q : Path} {e : Entry} {k : Path.Key} {x : SubscriberId}

/-! ## Leaving -/

/-- the phases of a call to unwatch a path, which may be one that a subscriber's leaving has brought about -/
inductive Unwatching (p : Path) : Activity → Prop
  | starting (x : SubscriberId) : Unwatching p (.starting (.unwatch p x))
  | tearingDown (turn : Option Turn) : Unwatching p (.tearingDown p turn .unwatched)

/-- From state `l` to state `l'` the subscribers of a burst leave: each of them is unwatched or has left by itself, nobody else does
anything at the path, and everything there comes to rest. -/
structure Dispersal (w : World) (moves : Nat → Move) (p : Path) (n l l' : Nat) : Prop where
  le : l ≤ l'
  going : ∀ j, l ≤ j → j < l' → moves j ≠ .call .shutDown
  left : ∀ d ∈ watchCalls moves p n l, ∀ q x, moves d = .call (.watch q x) →
    (∃ c, l ≤ c ∧ c < l' ∧ ∃ q', moves c = .call (.unwatch q' x) ∧ q'.key = p.key) ∨ (w.trace moves l').hasLeft x = true
  only : ∀ j, l ≤ j → j ≤ l' → ∀ i ph q, (w.trace moves j).tasks.phase? i = some ph → ph.activity.at? = some q →
    q.key = p.key → Unwatching q ph.activity
  uncancelled : ∀ j, l ≤ j → j < l' → ∀ i ph q, moves j = .cancel i → (w.trace moves j).tasks.phase? i = some ph →
    ph.activity.about? = some q → q.key ≠ p.key
  rests : (w.trace moves l').RestsAt p

/-- What a burst comes to: one synchronization, whose result all calls return. -/
structure SynchronizesOnce (w : World) (moves : Nat → Move) (p : Path) (n l : Nat) : Prop where
  returned : ∀ d ∈ watchCalls moves p n l, ∀ q x, moves d = .call (.watch q x) →
    ((w.trace moves d).tasks.next, .returned (.ok (.snapshot ((Known.found ((w.trace moves n).disk.file? p)).shown q)))) ∈
      (w.trace moves l).endings
  looked : (w.trace moves l).disk.callCount .stat p = (w.trace moves n).disk.callCount .stat p + 1
  /-- the file is read once if it is there, and not at all otherwise -/
  read : (w.trace moves l).disk.callCount .read p =
    (w.trace moves n).disk.callCount .read p + if ((w.trace moves n).disk.file? p).isSome then 1 else 0
  armed : ∃! i, n ≤ i ∧ i < l ∧ TriesToArm (w.trace moves i) (moves i) p
  /-- the watcher has been asked once to arm, whether it has done so or refused -/
  asked : (w.trace moves l).attempts p = (w.trace moves n).attempts p + 1
  told : ∀ i, n ≤ i → i < l → TriesToArm (w.trace moves i) (moves i) p →
    told (w.trace moves l).watcher.calls p.key =
      told (w.trace moves n).watcher.calls p.key ++ if (w.trace moves i).watcher.refuses p then [] else [true]
  counted : (w.trace moves l).subscriberCount p = (watchCalls moves p n l).card

/-- What is left of a burst when its subscribers have left. -/
structure CleansUp (w : World) (moves : Nat → Move) (p : Path) (n l l' : Nat) : Prop where
  untracked : (w.trace moves l').isTracked p = false
  /-- the path has no lock any more -/
  idle : (w.trace moves l').turns.isIdle p.key = true
  /-- no task is at the path, or listens for somebody's leaving there -/
  nobody : ∀ i ph q, (w.trace moves l').tasks.phase? i = some ph → ph.activity.about? = some q → q.key ≠ p.key
  /-- the watcher has been disarmed once if it was armed, and not at all otherwise -/
  told : ∀ i, n ≤ i → i < l → TriesToArm (w.trace moves i) (moves i) p →
    told (w.trace moves l').watcher.calls p.key =
      told (w.trace moves n).watcher.calls p.key ++ if (w.trace moves i).watcher.refuses p then [] else [true, false]

theorem Unwatching.place? (h : Unwatching q a) : a.place? = none := by
  cases h <;> rfl

/-- where everything has come to rest nobody unwatches the path any more -/
theorem World.RestsAt.no_unwatching (hrest : w.RestsAt p) (hw : Wf w) {i : TaskId} {ph : Phase}
    (hph : w.tasks.phase? i = some ph) (ha : Unwatching q ph.activity) : q.key ≠ p.key := by
  intro hk
  have hwaits : ∀ hq : ph.activity.at? = some q, ph.Waits w := fun hq =>
    hrest.waits hw hph (Activity.about?_of_at hq) hk
  generalize hact : ph.activity = a at ha hwaits
  cases ha with
  | starting x => exact (hwaits rfl).something (by rw [hact]; rfl)
  | tearingDown turn =>
    cases turn with
    | none => exact (hwaits rfl).something (by rw [hact]; rfl)
    | some τ => exact hrest.no_turn hw hph (τ := τ) (by rw [hact]; rfl) (by rw [hact]; rfl) hk

theorem size_pos_iff {t : Table SubscriberId Registration} : 0 < t.size ↔ ∃ x, t.contains x = true := by
  simp only [← Table.mem_keys_iff]
  rw [Table.size, ← List.length_map Prod.fst, List.length_pos_iff_exists_mem]
  rfl

/-- a subscriber is registered no more once a call has unwatched the path for it -/
theorem unregistered_of_carried (hcarry : w.carried? m = some (id, .starting (.unwatch q x))) (hk : q.key = p.key) :
    (w.move m).isRegistered p x = false := by
  by_contra hreg
  obtain ⟨f, hf, hin⟩ := isRegistered_iff.1 (Bool.eq_true_of_not_eq_false hreg)
  obtain ⟨u, rfl, hs, hc, hu⟩ := carried?_eq_some.1 hcarry
  rw [World.move, front_serve hs hc, hu, ← hk] at hf
  rw [Table.contains, unregistered_unwatch (floorTo w id) q x hf] at hin
  cases hin

/-- what is told of something that is given up, and not taken up again -/
theorem told_falling : ∀ first now after : Bool, (now = true → first = true) → (after = true → now = true) →
    ((if now = first then [] else [false]) ++ if after = now then [] else [after]) = if after = first then [] else [false] := by
  decide

section Trace

variable {policy : WritePolicy} {moves : Nat → Move} {n l l' j : Nat}
variable (h : ∀ n, moves n ≠ .call .shutDown) (hb : Burst (World.start policy) moves p n l)
  (hd : Dispersal (World.start policy) moves p n l l')
include h hb hd

/-- nobody who is at the path has been cancelled -/
theorem Dispersal.spared (hlj : l ≤ j) (hjl : j ≤ l') {i : TaskId} {t : Task Phase}
    (ht : ((World.start policy).trace moves j).tasks.live.get? i = some t) (hq : t.phase.activity.at? = some q)
    (hk : q.key = p.key) : t.cancelled = false :=
  uncancelled_since h (fun _ _ _ hph hat => hb.over h hph hat)
    (fun c hlc hcj => hd.uncancelled c hlc (lt_of_lt_of_le hcj hjl)) hlj ht hq hk

/-- while subscribers leave, only those who are registered count -/
theorem Dispersal.count_eq (hlj : l ≤ j) (hjl : j ≤ l') :
    ((World.start policy).trace moves j).places.count p.key = ((World.start policy).trace moves j).places.registered p.key := by
  have hR := running_of_trace policy h j
  have hexact := exact_since (k := p.key) h hlj
    (fun c i t q hlc hcj ht hq hk => hd.spared h hb hlc (hcj.le.trans hjl) ht hq hk) (hb.exact h hb.lt.le le_rfl)
  rw [seated_eq_zero hR.coherent] at hexact
  · exact hexact.symm
  · intro i ph q hph hq hk hplace
    cases (hd.only j hlj hjl i ph q hph hq hk).place?.symm.trans hplace

/-- while subscribers leave, somebody counts exactly as long as somebody is registered -/
theorem Dispersal.count_pos_iff (hlj : l ≤ j) (hjl : j ≤ l') : 0 < ((World.start policy).trace moves j).places.count p.key ↔
    ∃ x, ((World.start policy).trace moves j).isRegistered p x = true := by
  rw [hd.count_eq h hb hlj hjl]
  cases he : World.entry? ((World.start policy).trace moves j) p with
  | none =>
    have hroster : ((World.start policy).trace moves j).places.roster? p.key = none := congrArg (Option.map Entry.roster) he
    simp [Places.registered, hroster, World.isRegistered, he]
  | some e =>
    have hroster : ((World.start policy).trace moves j).places.roster? p.key = some e.roster :=
      congrArg (Option.map Entry.roster) he
    simp only [Places.registered, hroster, World.isRegistered, he, Option.any_some]
    exact size_pos_iff

omit h hb in
/-- nobody gets registered while subscribers leave -/
theorem Dispersal.registered_before (hlj : l ≤ j) (hjl : j < l')
    (hx : ((World.start policy).trace moves (j + 1)).isRegistered p x = true) :
    ((World.start policy).trace moves j).isRegistered p x = true := by
  rcases registers_move (reachable_trace policy moves j).wf hx with hbefore | ⟨i, seat, signal, hcarry, hk, -⟩
  · exact hbefore
  · obtain ⟨u, -, hs, -, hu⟩ := carried?_eq_some.1 hcarry
    have hunwatching := hd.only j hlj hjl.le i u.phase seat.path (phase?_of_served hs) (by rw [hu]; rfl) hk
    rw [hu] at hunwatching
    cases hunwatching

omit h hb in
theorem Dispersal.registered_since {c : Nat} (hlc : l ≤ c) (hcj : c ≤ j) (hjl : j ≤ l')
    (hx : ((World.start policy).trace moves j).isRegistered p x = true) :
    ((World.start policy).trace moves c).isRegistered p x = true := by
  induction j, hcj using Nat.le_induction with
  | base => exact hx
  | succ j hcj ih => exact ih (Nat.le_of_succ_le hjl) (hd.registered_before (hlc.trans hcj) hjl hx)

/-- a call to unwatch for a subscriber is still to begin, or the subscriber is not registered any more -/
theorem Dispersal.unwatched {c : Nat} (hlc : l ≤ c) (hcj : c < j) (hjl : j ≤ l') (hm : moves c = .call (.unwatch q x))
    (hk : q.key = p.key) :
    ((World.start policy).trace moves j).tasks.phase? ((World.start policy).trace moves c).tasks.next =
        some ⟨.caller, .starting (.unwatch q x)⟩ ∨ ((World.start policy).trace moves j).isRegistered p x = false := by
  induction j, hcj using Nat.le_induction with
  | base => exact .inl (phase?_called hm rfl)
  | succ j hcj ih =>
    have hlj : l ≤ j := hlc.trans (Nat.le_of_succ_le hcj)
    have hR := running_of_trace policy h j
    rcases ih (Nat.le_of_succ_le hjl) with hph | hgone
    · cases fate_move hR.wf hph (moves j) with
      | stays hstays => exact .inl hstays
      | goesOn b hcarry => exact .inr (unregistered_of_carried hcarry hk)
      | ends o hcarry => exact .inr (unregistered_of_carried hcarry hk)
      | dropped t hturn hs hc hnone =>
        have hphase : t.phase = ⟨.caller, .starting (.unwatch q x)⟩ := Option.some.inj ((phase?_of_served hs).symm.trans hph)
        cases (hd.spared h hb hlj (Nat.le_of_succ_le hjl) (served?_eq_some hs).2 (q := q) (by rw [hphase]; rfl) hk).symm.trans hc
    · refine .inr (Bool.eq_false_iff.2 fun hx => ?_)
      cases hgone.symm.trans (hd.registered_before hlj hjl hx)

/-- whoever is registered is attended to until the end -/
theorem Dispersal.attentive (hnj : n ≤ j) (hjl : j ≤ l') : ((World.start policy).trace moves j).Attentive p.key := by
  induction j, hnj using Nat.le_induction with
  | base =>
    intro f x r hf
    cases (face?_of_absent (isTracked_eq_false.1 hb.untracked)).symm.trans hf
  | succ j hnj ih =>
    have hR := running_of_trace policy h j
    refine attentive_move hR.wf hR.continues (fun i => servedBy_trace h j) hR.opened (heeds_trace h j)
      (ih (Nat.le_of_succ_le hjl)) ?_
    intro i ph q x hm hph _ hattends
    have habout : ph.activity.about? = some q := by
      generalize ph.activity = a at hattends ⊢
      cases a with
      | listening q' y => cases hattends; rfl
      | starting y =>
        cases y <;> cases hattends
        rfl
      | _ => cases hattends
    by_cases hjl' : j < l
    · exact hb.uncancelled j hnj hjl' i ph q hm hph habout
    · exact hd.uncancelled j (Nat.le_of_not_lt hjl') hjl i ph q hm hph habout

/-- a subscriber that has left by itself is not registered when everything has come to rest -/
theorem Dispersal.unregistered_of_left (hx : ((World.start policy).trace moves l').hasLeft x = true) :
    ((World.start policy).trace moves l').isRegistered p x = false := by
  by_contra hreg
  have hw := (reachable_trace policy moves l').wf
  obtain ⟨f, hf, hin⟩ := isRegistered_iff.1 (Bool.eq_true_of_not_eq_false hreg)
  obtain ⟨r, hr⟩ := Option.isSome_iff_exists.1 hin
  obtain ⟨i, t, q, ht, hc, hk, hattends⟩ := hd.attentive h hb (hb.lt.le.trans hd.le) le_rfl f x r hf hr
  have hph : ((World.start policy).trace moves l').tasks.phase? i = some t.phase := congrArg (Option.map Task.phase) ht
  rcases hattends with ⟨-, hlistens⟩ | hunwatches
  · have hready := (heeds_trace h l').left i t.phase q x hph (congrArg Phase.activity hlistens) hx
    cases (hd.rests.unready i t.phase q hph (by rw [hlistens]; rfl) hk).symm.trans hready
  · refine hd.rests.no_unwatching hw hph (q := q) ?_ hk
    rw [hunwatches]
    exact .starting x

/-- **When everything has come to rest, nobody is registered any more.** -/
theorem Dispersal.unregistered (x : SubscriberId) : ((World.start policy).trace moves l').isRegistered p x = false := by
  by_contra hreg
  have hw := (reachable_trace policy moves l').wf
  have hx := Bool.eq_true_of_not_eq_false hreg
  obtain ⟨d, hcall, q, hm⟩ := hb.called_of_registered hb.lt.le le_rfl (hd.registered_since le_rfl hd.le le_rfl hx)
  rcases hd.left d hcall q x hm with ⟨c, hlc, hcl, q', hm', hk⟩ | hleft
  · rcases hd.unwatched h hb hlc hcl le_rfl hm' hk with hph | hgone
    · exact hd.rests.no_unwatching hw hph (.starting x) hk
    · cases hgone.symm.trans hx
  · cases (hd.unregistered_of_left h hb hleft).symm.trans hx

/-- where nobody counts any more, somebody is about to drop the entry -/
theorem Dispersal.attended (hlj : l ≤ j) (hjl : j ≤ l') (hv : ((World.start policy).trace moves j).places.Vacant p.key) :
    ((World.start policy).trace moves j).Attended p.key := by
  induction j, hlj using Nat.le_induction with
  | base =>
    obtain ⟨e, he, hpos, -⟩ := hb.fetched h
    obtain ⟨r, hr, hz⟩ := hv
    cases (show _ = some e.roster from congrArg (Option.map Entry.roster) he).symm.trans hr
    exact absurd hz hpos.ne'
  | succ j hlj ih =>
    have hR := running_of_trace policy h j
    rcases attended_of_vacant hR.wf hR.continues hR.tally hv with hattended | ⟨hbefore, hdeserts⟩
    · exact hattended
    · obtain ⟨-, i, t, -, hs, hc, htears, -⟩ := hdeserts (ih (Nat.le_of_succ_le hjl) hbefore)
      obtain ⟨q, turn, leaving, hact, hk⟩ := Activity.eq_of_tears htears
      cases (hd.spared h hb hlj (Nat.le_of_succ_le hjl) (served?_eq_some hs).2 (q := q) (by rw [hact]; rfl) hk).symm.trans hc

/-- **The last of those who leave has dropped the entry.** -/
theorem Dispersal.untracked : ((World.start policy).trace moves l').isTracked p = false := by
  by_contra htracked
  have hw := (reachable_trace policy moves l').wf
  obtain ⟨e, he⟩ := entry_of_isTracked (Bool.eq_true_of_not_eq_false htracked)
  have hroster : ((World.start policy).trace moves l').places.roster? p.key = some e.roster :=
    congrArg (Option.map Entry.roster) he
  have hz : e.count = 0 := by
    rw [← Places.count_of_entry he]
    refine Nat.eq_zero_of_not_pos fun hpos => ?_
    obtain ⟨x, hx⟩ := (hd.count_pos_iff h hb hd.le le_rfl).1 hpos
    cases (hd.unregistered h hb x).symm.trans hx
  obtain ⟨i, ph, hph, htears⟩ := hd.attended h hb hd.le le_rfl ⟨e.roster, hroster, hz⟩
  obtain ⟨q, turn, leaving, hact, hk⟩ := Activity.eq_of_tears htears
  exact hd.rests.no_unwatching hw hph (hd.only l' hd.le le_rfl i ph q hph (by rw [hact]; rfl) hk) hk

/-- no task is about the path any more -/
theorem Dispersal.over {i : TaskId} {ph : Phase} (hph : ((World.start policy).trace moves l').tasks.phase? i = some ph)
    (hq : ph.activity.about? = some q) : q.key ≠ p.key := by
  intro hk
  have hw := (reachable_trace policy moves l').wf
  by_cases hat : ph.activity.at? = some q
  · exact hd.rests.no_unwatching hw hph (hd.only l' hd.le le_rfl i ph q hph hat hk) hk
  · -- somebody who still listens would be registered, or would have been told that it is cancelled
    obtain ⟨x, hact⟩ := (Activity.about?_cases hq).resolve_left hat
    obtain ⟨t, ht, rfl⟩ := Option.map_eq_some_iff.1 hph
    cases hc : t.cancelled with
    | false =>
      obtain ⟨f, hf, -⟩ := (heeds_trace h l').registered i t q x ht hc hact
      rw [hk] at hf
      cases (face?_of_absent (isTracked_eq_false.1 (hd.untracked h hb))).symm.trans hf
    | true =>
      have hready := (heeds_trace h l').cancelled i t ht hc
      cases (hd.rests.unready i t.phase q hph hq hk).symm.trans hready

/-- what the entry says of the watcher changes only when nobody counts any more -/
theorem Dispersal.flag_before (hlj : l ≤ j) (hjl : j < l')
    (hflag : ((World.start policy).trace moves (j + 1)).places.flag p.key = true) :
    ((World.start policy).trace moves j).places.flag p.key = true := by
  have hR := running_of_trace policy h j
  have hpos : 0 < ((World.start policy).trace moves (j + 1)).places.count p.key := by
    refine Nat.pos_of_ne_zero fun hz => ?_
    cases hr : ((World.start policy).trace moves (j + 1)).places.roster? p.key with
    | none => cases (Places.flag_of_none hr).symm.trans hflag
    | some r =>
      rw [Places.count, hr] at hz
      have hwatched : ((World.start policy).trace moves (j + 1)).places.Watched := (watched_trace (running_trace h (j + 1))).2
      have hunarmed := hwatched.vacant p.key r hr hz
      cases hunarmed.symm.trans ((Places.flag_of_roster hr).symm.trans hflag)
  obtain ⟨x, hx⟩ := (hd.count_pos_iff h hb (Nat.le_succ_of_le hlj) hjl).1 hpos
  have hbefore := (hd.count_pos_iff h hb hlj hjl.le).2 ⟨x, hd.registered_before hlj hjl hx⟩
  exact (flag_move hR.wf hR.continues hbefore hpos).symm.trans hflag

/-- while subscribers leave, the watcher is told to disarm when the entry says no more that it is armed -/
theorem Dispersal.told_since (hlj : l ≤ j) (hjl : j ≤ l') :
    (((World.start policy).trace moves j).places.flag p.key = true →
      ((World.start policy).trace moves l).places.flag p.key = true) ∧
    told ((World.start policy).trace moves j).watcher.calls p.key =
      told ((World.start policy).trace moves l).watcher.calls p.key ++
        if ((World.start policy).trace moves j).places.flag p.key = ((World.start policy).trace moves l).places.flag p.key then []
        else [false] := by
  induction j, hlj using Nat.le_induction with
  | base => exact ⟨id, by rw [if_pos rfl, List.append_nil]⟩
  | succ j hlj ih =>
    obtain ⟨hsince, htold⟩ := ih (Nat.le_of_succ_le hjl)
    have hR := running_of_trace policy h j
    have hbefore := hd.flag_before h hb hlj hjl
    have hreports : told ((World.start policy).trace moves (j + 1)).watcher.calls p.key =
        told ((World.start policy).trace moves j).watcher.calls p.key ++
          if ((World.start policy).trace moves (j + 1)).places.flag p.key = ((World.start policy).trace moves j).places.flag p.key
          then [] else [((World.start policy).trace moves (j + 1)).places.flag p.key] :=
      reports_move hR.wf hR.continues (watched_trace (running_trace h j)).2 p.key
    refine ⟨fun hflag => hsince (hbefore hflag), ?_⟩
    rw [hreports, htold, List.append_assoc]
    exact congrArg _ (told_falling _ _ _ hsince hbefore)

/-! ### The whole of it -/

omit hd in
theorem synchronizesOnce_of_running : SynchronizesOnce (World.start policy) moves p n l where
  returned d hcall q x hm := (hb.all_returned h hcall hm).1
  looked := by
    obtain ⟨e, -, -, hs, -⟩ := hb.fetched h
    exact hs
  read := by
    obtain ⟨e, -, -, -, hn⟩ := hb.fetched h
    exact hn
  armed := by
    obtain ⟨e, he, -⟩ := hb.fetched h
    obtain ⟨i, ho⟩ := hb.opens h hb.lt.le (isTracked_of_entry he)
    exact ⟨i, ⟨ho.le, ho.lt, (hb.tries_iff h ho ho.le ho.lt).2 rfl⟩, fun j hj => (hb.tries_iff h ho hj.1 hj.2.1).1 hj.2.2⟩
  asked := by
    obtain ⟨e, he, -⟩ := hb.fetched h
    obtain ⟨i, ho⟩ := hb.opens h hb.lt.le (isTracked_of_entry he)
    exact hb.asks h ho
  told i hni hil htries := by
    obtain ⟨e, he, -⟩ := hb.fetched h
    obtain ⟨i', ho⟩ := hb.opens h hb.lt.le (isTracked_of_entry he)
    cases (hb.tries_iff h ho hni hil).1 htries
    exact hb.tells h ho
  counted := hb.count h

theorem cleansUp_of_running : CleansUp (World.start policy) moves p n l l' where
  untracked := hd.untracked h hb
  idle := hd.rests.isIdle (reachable_trace policy moves l').wf
  nobody _ _ _ hph hq := hd.over h hb hph hq
  told i hni hil htries := by
    obtain ⟨e, he, -⟩ := hb.fetched h
    obtain ⟨i', ho⟩ := hb.opens h hb.lt.le (isTracked_of_entry he)
    cases (hb.tries_iff h ho hni hil).1 htries
    have hroster : ((World.start policy).trace moves l').places.roster? p.key = none :=
      congrArg (Option.map Entry.roster) (isTracked_eq_false.1 (hd.untracked h hb))
    rw [(hd.told_since h hb hd.le le_rfl).2, hb.tells h ho, Places.flag_of_none hroster, hb.flag h ho ho.lt le_rfl,
      List.append_assoc]
    cases ((World.start policy).trace moves i).watcher.refuses p <;> rfl

end Trace

/-! ## What comes later does not matter -/

section Congr

variable {moves moves' : Nat → Move} {n l l' : Nat}

theorem watchCalls_congr (hsame : ∀ j < l, moves j = moves' j) : watchCalls moves p n l = watchCalls moves' p n l := by
  refine Finset.filter_congr fun d hd => ?_
  rw [hsame d (Finset.mem_Ico.1 hd).2]

theorem Crowd.congr (h : Crowd w moves p n l) (hnl : n ≤ l) (hsame : ∀ j < l, moves j = moves' j) :
    Crowd w moves' p n l := by
  have htrace : ∀ j ≤ l, w.trace moves j = w.trace moves' j := fun j hj => trace_congr fun i hi => hsame i (hi.trans_le hj)
  have hcalls : ∀ j ≤ l, watchCalls moves p n j = watchCalls moves' p n j :=
    fun j hj => watchCalls_congr fun i hi => hsame i (hi.trans_le hj)
  have hlt : ∀ d ∈ watchCalls moves' p n l, d < l := fun d hd => (mem_watchCalls.1 hd).2.1
  constructor
  · intro j hj
    rw [← hsame j hj]
    exact h.going j hj
  · rw [← htrace n hnl]
    exact h.untracked
  · intro d hd d' hd'
    rw [← hsame d (hlt d hd), ← hsame d' (hlt d' hd')]
    rw [← hcalls l le_rfl] at hd hd'
    exact h.distinct d hd d' hd'
  · intro j hnj hjl i ph q hph hq hk
    rw [← htrace j hjl] at hph
    obtain ⟨d, hd, rfl⟩ := h.only j hnj hjl i ph q hph hq hk
    have hdl : d ≤ l := (mem_watchCalls.1 hd).2.1.le.trans hjl
    exact ⟨d, hcalls j hjl ▸ hd, by rw [htrace d hdl]⟩
  · intro j hnj hjl
    rw [← htrace j hjl, ← htrace n hnl]
    exact h.file j hnj hjl
  · intro j hnj hjl
    rw [← htrace j hjl.le, ← hsame j hjl]
    exact h.calls j hnj hjl
  · intro j hnj hjl
    rw [← htrace j hjl.le, ← hsame j hjl]
    exact h.uncancelled j hnj hjl

theorem Burst.congr (h : Burst w moves p n l) (hsame : ∀ j < l, moves j = moves' j) : Burst w moves' p n l where
  toCrowd := h.toCrowd.congr h.lt.le hsame
  called := by
    rw [← watchCalls_congr hsame]
    exact h.called
  rests := by
    rw [← trace_congr hsame]
    exact h.rests

theorem Dispersal.congr (h : Dispersal w moves p n l l') (hsame : ∀ j < l', moves j = moves' j) :
    Dispersal w moves' p n l l' := by
  have htrace : ∀ j ≤ l', w.trace moves j = w.trace moves' j := fun j hj => trace_congr fun i hi => hsame i (hi.trans_le hj)
  constructor
  · exact h.le
  · intro j hlj hjl
    rw [← hsame j hjl]
    exact h.going j hlj hjl
  · intro d hd q x hm
    have hdl : d < l' := (mem_watchCalls.1 hd).2.1.trans_le h.le
    rw [← watchCalls_congr fun i hi => hsame i (hi.trans_le h.le)] at hd
    rw [← hsame d hdl] at hm
    rw [← htrace l' le_rfl]
    refine (h.left d hd q x hm).imp_left ?_
    rintro ⟨c, hlc, hcl, hcall⟩
    exact ⟨c, hlc, hcl, hsame c hcl ▸ hcall⟩
  · intro j hlj hjl
    rw [← htrace j hjl]
    exact h.only j hlj hjl
  · intro j hlj hjl
    rw [← htrace j hjl.le, ← hsame j hjl]
    exact h.uncancelled j hlj hjl
  · rw [← htrace l' le_rfl]
    exact h.rests

theorem TriesToArm.congr {j : Nat} (hsame : ∀ i ≤ j, moves i = moves' i) :
    TriesToArm (w.trace moves j) (moves j) p ↔ TriesToArm (w.trace moves' j) (moves' j) p := by
  rw [trace_congr fun i hi => hsame i hi.le, hsame j le_rfl]

theorem SynchronizesOnce.congr (h : SynchronizesOnce w moves p n l) (hnl : n ≤ l) (hsame : ∀ j < l, moves j = moves' j) :
    SynchronizesOnce w moves' p n l := by
  have htrace : ∀ j ≤ l, w.trace moves j = w.trace moves' j := fun j hj => trace_congr fun i hi => hsame i (hi.trans_le hj)
  have htries : ∀ j < l, (TriesToArm (w.trace moves j) (moves j) p ↔ TriesToArm (w.trace moves' j) (moves' j) p) :=
    fun j hj => TriesToArm.congr fun i hi => hsame i (hi.trans_lt hj)
  constructor
  · intro d hd q x hm
    have hdl : d < l := (mem_watchCalls.1 hd).2.1
    rw [← watchCalls_congr hsame] at hd
    rw [← hsame d hdl] at hm
    rw [← htrace d hdl.le, ← htrace n hnl, ← htrace l le_rfl]
    exact h.returned d hd q x hm
  · rw [← htrace n hnl, ← htrace l le_rfl]
    exact h.looked
  · rw [← htrace n hnl, ← htrace l le_rfl]
    exact h.read
  · obtain ⟨i, ⟨hni, hil, htry⟩, honly⟩ := h.armed
    refine ⟨i, ⟨hni, hil, (htries i hil).1 htry⟩, ?_⟩
    rintro j ⟨hnj, hjl, htry'⟩
    exact honly j ⟨hnj, hjl, (htries j hjl).2 htry'⟩
  · rw [← htrace n hnl, ← htrace l le_rfl]
    exact h.asked
  · intro i hni hil htry
    rw [← htrace n hnl, ← htrace l le_rfl, ← htrace i hil.le]
    exact h.told i hni hil ((htries i hil).2 htry)
  · rw [← htrace l le_rfl, ← watchCalls_congr hsame]
    exact h.counted

theorem CleansUp.congr (h : CleansUp w moves p n l l') (hnl : n ≤ l) (hll : l ≤ l') (hsame : ∀ j < l', moves j = moves' j) :
    CleansUp w moves' p n l l' := by
  have htrace : ∀ j ≤ l', w.trace moves j = w.trace moves' j := fun j hj => trace_congr fun i hi => hsame i (hi.trans_le hj)
  constructor
  · rw [← htrace l' le_rfl]
    exact h.untracked
  · rw [← htrace l' le_rfl]
    exact h.idle
  · rw [← htrace l' le_rfl]
    exact h.nobody
  · intro i hni hil htry
    rw [← htrace n (hnl.trans hll), ← htrace l' le_rfl, ← htrace i (hil.le.trans hll)]
    exact h.told i hni hil ((TriesToArm.congr fun c hc => hsame c (hc.trans_lt (hil.trans_le hll))).2 htry)

/-- from some state on, nobody does anything -/
def halting (moves : Nat → Move) (l : Nat) (j : Nat) : Move := if j < l then moves j else .turn 0

theorem halting_eq (moves : Nat → Move) {l j : Nat} (hj : j < l) : moves j = halting moves l j := (if_pos hj).symm

theorem halting_going (h : ∀ j < l, moves j ≠ .call .shutDown) (j : Nat) : halting moves l j ≠ .call .shutDown := by
  unfold halting
  split
  · exact h j ‹_›
  · rintro ⟨⟩

end Congr

/-- **A burst of calls to watch a path shares one synchronization, and when its subscribers have left nothing of it remains.** -/
theorem burst_trace {policy : WritePolicy} {moves : Nat → Move} {n l : Nat} (hb : Burst (World.start policy) moves p n l) :
    SynchronizesOnce (World.start policy) moves p n l ∧
      ∀ l', Dispersal (World.start policy) moves p n l l' → CleansUp (World.start policy) moves p n l l' := by
  constructor
  · have hrunning := halting_going hb.going
    have hb' := hb.congr fun j hj => halting_eq moves hj
    exact (synchronizesOnce_of_running hrunning hb').congr hb.lt.le fun j hj => (halting_eq moves hj).symm
  · intro l' hd
    have hgoing : ∀ j < l', moves j ≠ .call .shutDown := by
      intro j hj
      by_cases hjl : j < l
      · exact hb.going j hjl
      · exact hd.going j (Nat.le_of_not_lt hjl) hj
    have hb' := hb.congr fun j hj => halting_eq moves (hj.trans_le hd.le)
    have hd' := hd.congr fun j hj => halting_eq moves hj
    exact (cleansUp_of_running (halting_going hgoing) hb' hd').congr hb.lt.le hd.le fun j hj => (halting_eq moves hj).symm

/-! ### A run -/

/-- a call at a gate waits -/
def Await.isGate : Await → Bool
  | .gate _ => true
  | _ => false

theorem restsAt_of_rows (h : ∀ r ∈ w.tasks.live.rows, ∀ q ∈ r.2.phase.activity.about?, q.key = p.key →
    w.runnable r.1 = false ∧ r.2.phase.activity.awaits.isGate = false) : w.RestsAt p := by
  have hall := fun i ph (hph : w.tasks.phase? i = some ph) => forall_phase_of_rows (P := fun i a =>
    ∀ q ∈ a.about?, q.key = p.key → w.runnable i = false ∧ a.awaits.isGate = false) h hph
  constructor
  · intro i ph q hph hq hk
    exact (hall i ph hph q hq hk).1
  · intro i ph q g hph hq hk hgate
    have hno := (hall i ph hph q hq hk).2
    rw [hgate] at hno
    cases hno

/-- the path that a call to unwatch is about -/
def Activity.unwatches? : Activity → Option Path
  | .starting (.unwatch p _) | .tearingDown p _ .unwatched => some p
  | _ => none

theorem unwatching_of_unwatches (h : a.unwatches? = some q) : Unwatching q a := by
  unfold Activity.unwatches? at h
  split at h <;> cases h
  · exact .starting _
  · exact .tearingDown _

/-- Two subscribers watch a file at once; one of them is unwatched then, and the other one leaves. -/
def gatheringAndLeaving : List Move :=
  let p : Path := ⟨"/a"⟩
  List.flatten [[.newSubscriber, .newSubscriber, .putFile p ⟨#[49]⟩, .call (.watch p ⟨1⟩), .call (.watch p ⟨2⟩)],
    List.replicate 3 (.turn 1), List.replicate 4 (.turn 2), List.replicate 3 (.turn 1), [.turn 2, .turn 3, .turn 4],
    [.call (.unwatch p ⟨1⟩), .dropSubscriber ⟨2⟩, .turn 5, .turn 3, .turn 4, .turn 6, .turn 6]]

theorem watchCalls_gatheringAndLeaving : watchCalls (along gatheringAndLeaving) ⟨"/a"⟩ 3 18 = {3, 4} := by decide +kernel

theorem burst_gatheringAndLeaving : Burst (World.start .allow) (along gatheringAndLeaving) ⟨"/a"⟩ 3 18 := by
  have hgoing : ∀ j, along gatheringAndLeaving j ≠ .call .shutDown :=
    along_ne gatheringAndLeaving (by simp [gatheringAndLeaving]) (by simp)
  have honly : ∀ j, j ≤ 18 → 3 ≤ j →
      ∀ r ∈ ((World.start .allow).trace (along gatheringAndLeaving) j).tasks.live.rows, ∀ q ∈ r.2.phase.activity.at?,
        q.key = Path.key ⟨"/a"⟩ → ∃ d ∈ watchCalls (along gatheringAndLeaving) ⟨"/a"⟩ 3 j,
          r.1 = ((World.start .allow).trace (along gatheringAndLeaving) d).tasks.next := by decide +kernel
  refine ⟨⟨fun j _ => hgoing j, by decide +kernel, ?_, ?_, by decide +kernel, by decide +kernel, ?_⟩, ?_, ?_⟩
  · rw [watchCalls_gatheringAndLeaving]
    decide
  · intro j h3 h18 i ph q hph
    exact forall_phase_of_rows (P := fun i a => ∀ q ∈ a.at?, q.key = Path.key ⟨"/a"⟩ →
      ∃ d ∈ watchCalls (along gatheringAndLeaving) ⟨"/a"⟩ 3 j,
        i = ((World.start .allow).trace (along gatheringAndLeaving) d).tasks.next) (honly j h18 h3) hph q
  · intro j _ _ i ph q hm
    exact absurd hm (along_ne gatheringAndLeaving (by simp [gatheringAndLeaving]) (by simp) j)
  · rw [watchCalls_gatheringAndLeaving]
    decide
  · exact restsAt_of_rows (by decide +kernel)

theorem dispersal_gatheringAndLeaving : Dispersal (World.start .allow) (along gatheringAndLeaving) ⟨"/a"⟩ 3 18 25 := by
  have hgoing : ∀ j, along gatheringAndLeaving j ≠ .call .shutDown :=
    along_ne gatheringAndLeaving (by simp [gatheringAndLeaving]) (by simp)
  have honly : ∀ j, j ≤ 25 → 18 ≤ j →
      ∀ r ∈ ((World.start .allow).trace (along gatheringAndLeaving) j).tasks.live.rows, ∀ q ∈ r.2.phase.activity.at?,
        q.key = Path.key ⟨"/a"⟩ → r.2.phase.activity.unwatches? = some q := by decide +kernel
  refine ⟨by decide, fun j _ _ => hgoing j, ?_, ?_, ?_, ?_⟩
  · intro d hd q x hm
    rw [watchCalls_gatheringAndLeaving] at hd
    simp only [Finset.mem_insert, Finset.mem_singleton] at hd
    rcases hd with rfl | rfl
    · cases hm
      exact .inl ⟨18, le_rfl, by decide, _, rfl, rfl⟩
    · cases hm
      exact .inr (by decide +kernel)
  · intro j h18 h25 i ph q hph hq hk
    exact unwatching_of_unwatches (forall_phase_of_rows (P := fun i a => ∀ q ∈ a.at?, q.key = Path.key ⟨"/a"⟩ →
      a.unwatches? = some q) (honly j h25 h18) hph q hq hk)
  · intro j _ _ i ph q hm
    exact absurd hm (along_ne gatheringAndLeaving (by simp [gatheringAndLeaving]) (by simp) j)
  · exact restsAt_of_rows (by decide +kernel)

/-- the two calls share one synchronization, and nothing is left of them in the end -/
theorem burst_trace_leaving :
    Burst (World.start .allow) (along gatheringAndLeaving) ⟨"/a"⟩ 3 18 ∧
      Dispersal (World.start .allow) (along gatheringAndLeaving) ⟨"/a"⟩ 3 18 25 ∧
      SynchronizesOnce (World.start .allow) (along gatheringAndLeaving) ⟨"/a"⟩ 3 18 ∧
      CleansUp (World.start .allow) (along gatheringAndLeaving) ⟨"/a"⟩ 3 18 25 ∧
      (watchCalls (along gatheringAndLeaving) ⟨"/a"⟩ 3 18).card = 2 := by
  obtain ⟨honce, hclean⟩ := burst_trace burst_gatheringAndLeaving
  exact ⟨burst_gatheringAndLeaving, dispersal_gatheringAndLeaving, honce, hclean 25 dispersal_gatheringAndLeaving, by
    rw [watchCalls_gatheringAndLeaving]; rfl⟩

end LiveFiles.Engine
