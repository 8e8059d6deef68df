/-
Calls to watch that come together at a path. As long as there is nothing else at the path and none of them fails, they share one
synchronization (`Gathering`): nobody has a place yet, or the first of them is at the first reconciliation and nobody is
registered, or that has found the file (`Stage`).
- `gathering_elsewhere`: what happens elsewhere leaves a gathering as it is.
- `gathering_starting`, `gathering_joining`, `gathering_synchronizing`, `gathering_settling`: the sections of a call to watch.
- **`gathering_carried`**: so a section of any of the calls keeps the gathering together, if no call to the disk fails.
-/
import LiveFiles.Proofs.FirstLook
import LiveFiles.Proofs.Frames

namespace LiveFiles.Engine

variable {w w' : World} {m : Move} {id : TaskId} {a b : Activity} {p q : Path} {e : Entry} {r : Refresh} {f : Option StoredFile}
  {d : Disk} {k : Path.Key} {s n : Nat} {x : SubscriberId} {seat : Seat} {joined : SignalId} {other signal : Option SignalId}

/-! ## One move -/

/-- what holds in every state of a run without shutting down, and of the next move -/
structure Running (w : World) (m : Move) : Prop where
  wf : Wf w
  continues : Continues w m
  proper : Proper w.core w.stakes
  tally : Tallied w
  coherent : ∀ i ph, w.tasks.phase? i = some ph → ph.activity.Coherent
  opened : w.pool.closed = false
  going : w.isShutDown = false

theorem running_of_trace (policy : WritePolicy) {moves : Nat → Move} (h : ∀ n, moves n ≠ .call .shutDown) (n : Nat) :
    Running ((World.start policy).trace moves n) (moves n) where
  wf := (reachable_trace policy moves n).wf
  continues := continues_trace h n
  proper := proper_trace h n
  tally := tally_trace h n
  coherent := fun _ _ hph => coherent_trace policy moves n hph
  opened := open_trace h n
  going := running_trace h n

theorem core_of_carried (hcarry : w.carried? m = some (id, a)) : (w.move m).core = ((floorTo w id).step a).1.core := by
  obtain ⟨u, rfl, hs, hc, rfl⟩ := carried?_eq_some.1 hcarry
  exact (core_serve_of_section hs hc).1

theorem entry_of_carried (hcarry : w.carried? m = some (id, a)) (p : Path) :
    World.entry? (w.move m) p = World.entry? ((floorTo w id).step a).1 p :=
  congrArg (fun c : Core => c.entries.get? p.key) (core_of_carried hcarry)

theorem phase?_of_carried (hw : Wf w) (hcarry : w.carried? m = some (id, a)) :
    ((w.move m).tasks.phase? id).map Phase.activity = ((floorTo w id).step a).2.next := by
  obtain ⟨u, rfl, hs, hc, rfl⟩ := carried?_eq_some.1 hcarry
  rw [World.move, phase?_serve hw hs hc]
  cases ((floorTo w id).step u.phase.activity).2.next <;> rfl

/-- what has been given stays so -/
theorem given_move (hw : Wf w) (m : Move) {y : SignalId} (hy : w.signals.isGiven y = true) :
    (w.move m).signals.isGiven y = true := by
  obtain ⟨i, hserved⟩ := move_served hw m
  obtain ⟨s', heffects, -⟩ := hserved.effects
  have hchain : ∀ {c s c' s'}, Effects (Marks w m) c s c' s' → c.signals.isGiven y = true → c'.signals.isGiven y = true := by
    intro c s c' s' h hc
    induction h with
    | refl => exact hc
    | tail _ hlast ih => exact hlast.given ih
  exact hchain heffects hy

/-- a task at a path has been in its phase before the move, is new, or has been at the path when its section began -/
theorem at?_back (hR : Running w m) {j : TaskId} {ph : Phase} (hph : (w.move m).tasks.phase? j = some ph)
    (hq : ph.activity.at? = some q) : w.tasks.phase? j = some ph ∨ (∃ y, ph.activity = .starting y) ∨
      ∃ a, w.carried? m = some (j, a) ∧ a.at? = some q ∧ ((floorTo w j).step a).2.next = some ph.activity := by
  rcases phase?_cases hR.wf hph with hsame | ⟨-, hnew⟩ | ⟨a, hcarry, hb⟩
  · exact .inl hsame
  · rcases hnew.cases with ⟨y, hy, -⟩ | ⟨q', y, hy⟩ | ⟨y, hy⟩
    · exact .inr (.inl ⟨y, hy⟩)
    · rw [hy] at hq
      cases hq
    · rw [hy] at hq
      cases hq
  · obtain ⟨u, hm, hs, hc, rfl⟩ := carried?_eq_some.1 hcarry
    obtain ⟨hne, hcl⟩ := hR.continues j u hm hs hc
    exact .inr (.inr ⟨_, hcarry, at?_next (hR.coherent j u.phase (phase?_of_served hs)) hne hcl hb hq, hb⟩)

/-- whoever does not get the floor stays in its phase -/
theorem phase?_spared (hw : Wf w) {j : TaskId} {ph : Phase} (hph : w.tasks.phase? j = some ph)
    (hno : ∀ t, m = .turn j → w.served? j ≠ some t) : (w.move m).tasks.phase? j = some ph := by
  cases fate_move hw hph m with
  | stays h => exact h
  | goesOn b hcarry hb h =>
    obtain ⟨u, hm, hs, -, -⟩ := carried?_eq_some.1 hcarry
    exact absurd hs (hno u hm)
  | ends o hcarry ho h =>
    obtain ⟨u, hm, hs, -, -⟩ := carried?_eq_some.1 hcarry
    exact absurd hs (hno u hm)
  | dropped t hm hs hc h => exact absurd hs (hno t hm)

theorem Activity.at?_of_calling {op : DiskOp} (h : a.calling? = some (op, q)) : a.at? = some q := by
  have hrefresh : ∀ r : Refresh, r.calling? = some (op, q) → r.path = q := by
    intro r hr
    cases r <;> cases hr <;> rfl
  cases a with
  | refreshing r => exact congrArg some (hrefresh r h)
  | synchronizing seat r => exact congrArg some (hrefresh r h)
  | saving x =>
    cases x with
    | queued job => cases h
    | writing job c | looking job c =>
      cases h
      rfl
  | diskStat p c | diskRead p c | diskWrite p _ c =>
    cases h
    rfl
  | _ => cases h

/-- nobody at the path carries out a section in the move -/
def Elsewhere (w : World) (m : Move) (k : Path.Key) : Prop :=
  ∀ id t q, m = .turn id → w.served? id = some t → t.phase.activity.at? = some q → q.key ≠ k

/-- a move in which nobody at a path gets the floor counts no call there -/
theorem Elsewhere.callCount (hR : Running w m) (h : Elsewhere w m p.key) (op : DiskOp) :
    (w.move m).disk.callCount op p = w.disk.callCount op p := by
  rcases begins_move w m with hsame | ⟨i, a, b, hcarry, hb, hbegins⟩
  · exact callCount_of_calls hsame op p
  · rcases hbegins.callCount op p with hsame | ⟨-, q, hq, hk⟩
    · exact hsame
    · obtain ⟨u, hm, hs, hc, rfl⟩ := carried?_eq_some.1 hcarry
      obtain ⟨hne, hcl⟩ := hR.continues i u hm hs hc
      have hat := at?_next (hR.coherent i u.phase (phase?_of_served hs)) hne hcl hb (Activity.at?_of_calling hq)
      exact absurd hk (h i u q hm hs hat)

theorem Elsewhere.entry (hR : Running w m) (h : Elsewhere w m p.key) : World.entry? (w.move m) p = w.entry? p :=
  entry_elsewhere hR.continues hR.coherent fun i t q hm hs hq => h i t q hm hs (Activity.at?_of_operation hq)

/-! ## How far a burst has come -/

/-- How far the synchronization of a path has come, which had been looked at `s` times and read `n` times when nobody counted
there: nobody has taken a place, the first subscriber is at the first reconciliation, or that has found the file `f`. -/
inductive Stage (w : World) (p : Path) (f : Option StoredFile) (s n : Nat) : Prop
  | before (hno : w.entry? p = none) (hs : w.disk.callCount .stat p = s) (hn : w.disk.callCount .read p = n)
  | fetching (i : TaskId) (seat : Seat) (r : Refresh) (ph : Phase) (e : Entry) (hph : w.tasks.phase? i = some ph)
      (hact : ph.activity = .synchronizing seat r)
      (hone : ∀ j ph' seat' r', w.tasks.phase? j = some ph' → ph'.activity = .synchronizing seat' r' →
        r'.path.key = p.key → j = i)
      (he : w.entry? p = some e) (hpos : 0 < e.count) (hknown : e.known = .nothing) (hrev : e.revokedSignals = [])
      (hreg : ∀ x, e.registered.get? x = none) (hF : Fetching p f s n w.disk e r)
  | fetched (e : Entry)
      (hnobody : ∀ j ph seat r, w.tasks.phase? j = some ph → ph.activity = .synchronizing seat r → r.path.key ≠ p.key)
      (he : w.entry? p = some e) (hpos : 0 < e.count) (hdone : e.Fetched f) (hs : w.disk.callCount .stat p = s + 1)
      (hn : w.disk.callCount .read p = n + if f.isSome then 1 else 0)

/-- A path at which there is nothing but calls to watch, none of which has failed. -/
structure Gathering (w : World) (p : Path) (f : Option StoredFile) (s n : Nat) : Prop where
  stage : Stage w p f s n
  /-- nobody gives a place back -/
  calm : ∀ i ph, w.tasks.phase? i = some ph → ph.activity.tears? ≠ some p.key
  /-- whoever waits for a signal waits for one of the entry's, unless it has been given -/
  waits : ∀ i ph seat y, w.tasks.phase? i = some ph → ph.activity = .settling seat (some y) → seat.path.key = p.key →
    w.signals.isGiven y = true ∨ ∃ e, w.entry? p = some e ∧ e.Stores y

theorem Gathering.not_tearing (hg : Gathering w p f s n) {ph : Phase} {turn : Option Turn} {leaving : Leaving}
    (hph : w.tasks.phase? id = some ph) (ha : ph.activity = .tearingDown q turn leaving) : q.key ≠ p.key := by
  intro hk
  refine hg.calm id ph hph ?_
  rw [ha]
  exact congrArg some hk

/-- once the file has been found, whatever a call waits for has been given -/
theorem Gathering.given (hg : Gathering w p f s n) (he : w.entry? p = some e) (hdone : e.Fetched f) {ph : Phase} {seat : Seat}
    {y : SignalId} (hph : w.tasks.phase? id = some ph) (ha : ph.activity = .settling seat (some y)) (hk : seat.path.key = p.key) :
    w.signals.isGiven y = true := by
  rcases hg.waits id ph seat y hph ha hk with hgiven | ⟨e', he', hstores⟩
  · exact hgiven
  · cases he.symm.trans he'
    exact absurd hstores (hdone.not_stores y)

theorem Refresh.path_of_fetching (h : Fetching p f s n d e r) : r.path.key = p.key := by
  cases h <;> assumption

theorem Entry.stores_congr {e e' : Entry} (h : e'.bare = e.bare) {y : SignalId} : e'.Stores y ↔ e.Stores y := by
  obtain ⟨-, -, -, -, hpending, hrunning, hrevoked⟩ := Entry.bare_eq h
  rw [Entry.Stores, Entry.Stores, hpending, hrunning, hrevoked]

theorem Entry.Fetched.congr {e e' : Entry} (h : e.Fetched f) (hb : e'.bare = e.bare) : e'.Fetched f := by
  obtain ⟨-, -, -, hquery, hpending, hrunning, hrevoked⟩ := Entry.bare_eq hb
  exact ⟨(Entry.known_of_bare hb).trans h.known, hquery.trans h.query, hpending.trans h.pending, hrunning.trans h.running,
    hrevoked.trans h.revoked⟩

theorem Fetching.congr {d' : Disk} {e e' : Entry} (h : Fetching p f s n d e r) (hb : e'.bare = e.bare)
    (hs : d'.callCount .stat p = d.callCount .stat p) (hn : d'.callCount .read p = d.callCount .read p) :
    Fetching p f s n d' e' r := by
  obtain ⟨-, -, -, hquery, hpending, hrunning, -⟩ := Entry.bare_eq hb
  cases h with
  | queued q y τ hq hy hx hrun hs' hn' =>
    exact .queued q y τ hq (hquery.trans hy) (hpending ▸ hx) (hrunning.trans hrun) (hs.trans hs') (hn.trans hn')
  | looking l c hq hy hx hrun hsome hhad hs' hn' =>
    exact .looking l c hq (hquery.trans hy) (hpending.trans hx) (hrunning.trans hrun) hsome hhad (hs.trans hs') (hn.trans hn')
  | reading l g c hq hy hx hrun hsome hf hs' hn' =>
    exact .reading l g c hq (hquery.trans hy) (hpending.trans hx) (hrunning.trans hrun) hsome hf (hs.trans hs') (hn.trans hn')

/-- while the first reconciliation goes on, a signal of the entry has not been given -/
theorem awaited_of_fetching (hk : Kept w.core w.stakes) {i : TaskId} {ph : Phase} (hph : w.tasks.phase? i = some ph)
    (hact : ph.activity = .synchronizing seat r) (he : w.entry? p = some e) (hF : Fetching p f s n w.disk e r) :
    e.Awaited w.signals := by
  have hstake : (w.stakes i).errand = r.errand := by
    rw [stakes_of_phase hph, hact]
    rfl
  -- who has begun to look at the file keeps the signal
  have hlook : ∀ l d, r.errand = .look l d → e.runningSignal = l.signal → l.signal.isSome → e.Awaited w.signals := by
    intro l d herrand hrun hsome
    obtain ⟨y, hy⟩ := Option.isSome_iff_exists.1 hsome
    refine ⟨y, .inr (.inl (hrun.trans hy)), hk.secret (.operation i) y ?_⟩
    rw [keeps, hstake, herrand]
    exact hy
  cases hF with
  | queued q y τ hq hy hx hrun hs hn =>
    obtain ⟨z, hz⟩ := Option.isSome_iff_exists.1 hx
    refine ⟨z, .inl hz, hk.secret (.entry p.key) z ?_⟩
    rw [keeps, Core.pending?, show w.core.entries.get? p.key = some e from he]
    exact hz
  | looking l c hq hy hx hrun hsome hhad hs hn => exact hlook l none rfl hrun hsome
  | reading l g c hq hy hx hrun hsome hf hs hn => exact hlook l (some g.modified) rfl hrun hsome

/-- Who runs the first reconciliations at a path stays the same. -/
structure SameLead (w w' : World) (p : Path) : Prop where
  stays : ∀ j ph seat r, w.tasks.phase? j = some ph → ph.activity = .synchronizing seat r → r.path.key = p.key →
    w'.tasks.phase? j = some ph
  back : ∀ j ph seat r, w'.tasks.phase? j = some ph → ph.activity = .synchronizing seat r → r.path.key = p.key →
    w.tasks.phase? j = some ph

/-- a stage stays the same as long as the protocol sees no change of the entry, nobody is registered, and no call is made -/
theorem Stage.keep (h : Stage w p f s n) (hlead : SameLead w w' p) (hno : w.entry? p = none → w'.entry? p = none)
    (he : ∀ e, w.entry? p = some e → 0 < e.count → ∃ e', w'.entry? p = some e' ∧ e'.bare = e.bare ∧
      e'.registered = e.registered ∧ 0 < e'.count)
    (hcalls : ∀ op, w'.disk.callCount op p = w.disk.callCount op p) : Stage w' p f s n := by
  cases h with
  | before hnone hs hn => exact .before (hno hnone) ((hcalls _).trans hs) ((hcalls _).trans hn)
  | fetching i seat r ph e hph hact hone hsome hpos hknown hrev hreg hF =>
    obtain ⟨e', he', hbare, hregs, hpos'⟩ := he e hsome hpos
    refine .fetching i seat r ph e' (hlead.stays i ph seat r hph hact (Refresh.path_of_fetching hF)) hact ?_ he' hpos'
      ((Entry.known_of_bare hbare).trans hknown) ((Entry.bare_eq hbare).2.2.2.2.2.2.trans hrev) ?_
      (hF.congr hbare (hcalls _) (hcalls _))
    · intro j ph' seat' r' hph' hact' hr'
      exact hone j ph' seat' r' (hlead.back j ph' seat' r' hph' hact' hr') hact' hr'
    · rw [hregs]
      exact hreg
  | fetched e hnobody hsome hpos hdone hs hn =>
    obtain ⟨e', he', hbare, -, hpos'⟩ := he e hsome hpos
    refine .fetched e' ?_ he' hpos' (hdone.congr hbare) ((hcalls _).trans hs) ((hcalls _).trans hn)
    intro j ph seat r hph hact hr
    exact hnobody j ph seat r (hlead.back j ph seat r hph hact hr) hact hr

/-- where somebody has a place there is an entry that counts -/
theorem Running.counted (hR : Running w m) {i : TaskId} {ph : Phase} (hph : w.tasks.phase? i = some ph)
    (hplace : ph.activity.place? = some p.key) : ∃ e, w.entry? p = some e ∧ 0 < e.count := by
  have hseated : 0 < w.seated p.key := by
    apply placed_of_place? hR.wf (i := i)
    rw [World.place?, hph]
    exact hplace
  have hcount : 0 < w.places.count p.key := lt_of_lt_of_le hseated ((Nat.le_add_left _ _).trans (hR.tally p.key))
  cases he : w.entry? p with
  | none =>
    have hnone : w.places.roster? p.key = none := congrArg (Option.map Entry.roster) he
    simp [Places.count, hnone] at hcount
  | some e =>
    rw [Places.count_of_entry he] at hcount
    exact ⟨e, rfl, hcount⟩

/-- where nobody gives a place back, somebody goes on to count -/
theorem Running.stays_counted (hR : Running w m) (he : w.entry? p = some e) (hpos : 0 < e.count)
    (hcalm : ∀ i ph, (w.move m).tasks.phase? i = some ph → ph.activity.tears? ≠ some p.key) :
    ∃ e', World.entry? (w.move m) p = some e' ∧ 0 < e'.count := by
  obtain ⟨e', he'⟩ := entry_of_isTracked (kept_of_claimed hR.wf hR.continues he (.inl hpos))
  refine ⟨e', he', Nat.pos_of_ne_zero fun hz => ?_⟩
  have hvacant : (w.move m).places.Vacant p.key :=
    ⟨e'.roster, congrArg (Option.map Entry.roster) he', hz⟩
  rcases attended_of_vacant hR.wf hR.continues hR.tally hvacant with ⟨i, ph, hph, htears⟩ | ⟨⟨r, hr, hz'⟩, -⟩
  · exact hcalm i ph hph htears
  · have hroster : w.places.roster? p.key = some e.roster := congrArg (Option.map Entry.roster) he
    cases hroster.symm.trans hr
    exact absurd hz' hpos.ne'

/-! ### Nobody at the path gets the floor -/

/-- whoever is at the path after the move has been in its phase before, or is new -/
theorem Elsewhere.back (hR : Running w m) (h : Elsewhere w m p.key) {j : TaskId} {ph : Phase}
    (hph : (w.move m).tasks.phase? j = some ph) (hat : ph.activity.at? = some q) (hq : q.key = p.key) :
    w.tasks.phase? j = some ph ∨ ∃ y, ph.activity = .starting y := by
  rcases at?_back hR hph hat with hsame | hnew | ⟨a, hcarry, hat', -⟩
  · exact .inl hsame
  · exact .inr hnew
  · obtain ⟨u, hm, hs, -, rfl⟩ := carried?_eq_some.1 hcarry
    exact absurd hq (h j u q hm hs hat')

theorem Elsewhere.sameLead (hR : Running w m) (h : Elsewhere w m p.key) : SameLead w (w.move m) p where
  stays j ph seat r hph hact hr := by
    apply phase?_spared hR.wf hph
    intro t hm hs
    cases hph.symm.trans (phase?_of_served hs)
    exact h j t r.path hm hs (by rw [hact]; rfl) hr
  back j ph seat r hph hact hr := by
    rcases h.back hR hph (q := r.path) (by rw [hact]; rfl) hr with hsame | ⟨y, hy⟩
    · exact hsame
    · cases hact.symm.trans hy

theorem Activity.eq_of_tears (h : a.tears? = some k) : ∃ q turn l, a = .tearingDown q turn l ∧ q.key = k := by
  cases a <;> cases h
  exact ⟨_, _, _, rfl, rfl⟩

theorem gathering_elsewhere (hR : Running w m) (h : Elsewhere w m p.key) (hg : Gathering w p f s n) :
    Gathering (w.move m) p f s n where
  stage := by
    have hentry := h.entry hR
    refine hg.stage.keep (h.sameLead hR) (fun hno => hentry.trans hno) ?_ (h.callCount hR)
    intro e he hpos
    exact ⟨e, hentry.trans he, rfl, rfl, hpos⟩
  calm i ph hph htears := by
    obtain ⟨q, turn, l, hact, hk⟩ := Activity.eq_of_tears htears
    rcases h.back hR hph (q := q) (by rw [hact]; rfl) hk with hsame | ⟨y, hy⟩
    · exact hg.calm i ph hsame htears
    · cases hact.symm.trans hy
  waits i ph seat y hph hact hk := by
    rcases h.back hR hph (q := seat.path) (by rw [hact]; rfl) hk with hsame | ⟨z, hz⟩
    · rcases hg.waits i ph seat y hsame hact hk with hgiven | ⟨e, he, hstores⟩
      · exact .inl (given_move hR.wf m hgiven)
      · exact .inr ⟨e, (h.entry hR).trans he, hstores⟩
    · cases hact.symm.trans hz

/-! ### A section of a call to watch -/

/-- whoever is at a path after a section of another task there has been in its phase before, or is new -/
theorem back_of_carried (hR : Running w m) (hcarry : w.carried? m = some (id, a)) {j : TaskId} {ph : Phase} (hne : j ≠ id)
    (hph : (w.move m).tasks.phase? j = some ph) (hat : ph.activity.at? = some q) :
    w.tasks.phase? j = some ph ∨ ∃ y, ph.activity = .starting y := by
  rcases at?_back hR hph hat with hsame | hnew | ⟨a', hcarry', -⟩
  · exact .inl hsame
  · exact .inr hnew
  · cases hcarry.symm.trans hcarry'
    exact absurd rfl hne

theorem stays_of_carried (hw : Wf w) (hcarry : w.carried? m = some (id, a)) {j : TaskId} {ph : Phase} (hne : j ≠ id)
    (hph : w.tasks.phase? j = some ph) : (w.move m).tasks.phase? j = some ph := by
  apply phase?_spared hw hph
  rintro t rfl -
  obtain ⟨u, hm, -⟩ := carried?_eq_some.1 hcarry
  cases hm
  exact hne rfl

/-- nobody gives a place back after a section that does not -/
theorem calm_of_carried (hR : Running w m) (hcarry : w.carried? m = some (id, a))
    (hcalm : ∀ i ph, w.tasks.phase? i = some ph → ph.activity.tears? ≠ some p.key)
    (hnext : ∀ b, ((floorTo w id).step a).2.next = some b → b.tears? = none) {i : TaskId} {ph : Phase}
    (hph : (w.move m).tasks.phase? i = some ph) : ph.activity.tears? ≠ some p.key := by
  intro htears
  obtain ⟨q, turn, l, hact, hk⟩ := Activity.eq_of_tears htears
  by_cases hne : i = id
  · subst hne
    have hafter := phase?_of_carried hR.wf hcarry
    rw [hph] at hafter
    cases (hnext _ hafter.symm).symm.trans htears
  · rcases back_of_carried hR hcarry hne hph (q := q) (by rw [hact]; rfl) with hsame | ⟨y, hy⟩
    · exact hcalm i ph hsame htears
    · cases hact.symm.trans hy

/-- whoever waits for a signal after a section waits for one of the entry's, unless it has been given -/
theorem waits_of_carried (hR : Running w m) (hg : Gathering w p f s n) (hcarry : w.carried? m = some (id, a))
    (hnext : ∀ seat y, ((floorTo w id).step a).2.next = some (.settling seat (some y)) →
      a = .settling seat (some y) ∨ ∃ e, w.entry? p = some e ∧ e.Stores y)
    (hstores : ∀ e y, w.entry? p = some e → e.Stores y → (w.move m).signals.isGiven y = true ∨
      ∃ e', World.entry? (w.move m) p = some e' ∧ e'.Stores y) {i : TaskId} {ph : Phase} {seat : Seat} {y : SignalId}
    (hph : (w.move m).tasks.phase? i = some ph) (hact : ph.activity = .settling seat (some y)) (hk : seat.path.key = p.key) :
    (w.move m).signals.isGiven y = true ∨ ∃ e, World.entry? (w.move m) p = some e ∧ e.Stores y := by
  have hold : ∀ ph', w.tasks.phase? i = some ph' → ph'.activity = .settling seat (some y) →
      (w.move m).signals.isGiven y = true ∨ ∃ e', World.entry? (w.move m) p = some e' ∧ e'.Stores y := by
    intro ph' hph' hact'
    rcases hg.waits i ph' seat y hph' hact' hk with hgiven | ⟨e, he, hy⟩
    · exact .inl (given_move hR.wf m hgiven)
    · exact hstores e y he hy
  by_cases hne : i = id
  · subst hne
    have hafter := phase?_of_carried hR.wf hcarry
    rw [hph, Option.map_some, hact] at hafter
    obtain ⟨u, -, hs, -, hu⟩ := carried?_eq_some.1 hcarry
    rcases hnext seat y hafter.symm with hsame | ⟨e, he, hy⟩
    · exact hold u.phase (phase?_of_served hs) (hu.trans hsame)
    · exact hstores e y he hy
  · rcases back_of_carried hR hcarry hne hph (q := seat.path) (by rw [hact]; rfl) with hsame | ⟨z, hz⟩
    · exact hold ph hsame hact
    · cases hact.symm.trans hz

/-- a section of a task that runs no reconciliation, and does not go on to -/
theorem sameLead_of_carried (hR : Running w m) (hcarry : w.carried? m = some (id, a))
    (ha : ∀ seat r, a ≠ .synchronizing seat r)
    (hnext : ∀ seat r, ((floorTo w id).step a).2.next ≠ some (.synchronizing seat r)) : SameLead w (w.move m) p where
  stays j ph seat r hph hact _ := by
    apply stays_of_carried hR.wf hcarry _ hph
    rintro rfl
    obtain ⟨u, -, hs, -, rfl⟩ := carried?_eq_some.1 hcarry
    cases hph.symm.trans (phase?_of_served hs)
    exact ha seat r hact
  back j ph seat r hph hact _ := by
    by_cases hne : j = id
    · subst hne
      have hafter := phase?_of_carried hR.wf hcarry
      rw [hph, Option.map_some, hact] at hafter
      exact absurd hafter.symm (hnext seat r)
    · rcases back_of_carried hR hcarry hne hph (q := r.path) (by rw [hact]; rfl) with hsame | ⟨y, hy⟩
      · exact hsame
      · cases hact.symm.trans hy

/-- a section that changes nothing at a path, and begins no call to the disk -/
theorem gathering_of_still (hR : Running w m) (hg : Gathering w p f s n) (hcarry : w.carried? m = some (id, a))
    (hentry : ∀ e, w.entry? p = some e → 0 < e.count → ∃ e', World.entry? ((floorTo w id).step a).1 p = some e' ∧
      e'.bare = e.bare ∧ e'.registered = e.registered ∧ 0 < e'.count)
    (hno : w.entry? p = none → World.entry? ((floorTo w id).step a).1 p = none)
    (hdisk : ((floorTo w id).step a).1.disk = w.disk) (ha : ∀ seat r, a ≠ .synchronizing seat r)
    (hnext : ∀ b, ((floorTo w id).step a).2.next = some b → b.tears? = none ∧ (∀ seat r, b ≠ .synchronizing seat r) ∧
      ∀ seat y, b = .settling seat (some y) → a = b ∨ ∃ e, w.entry? p = some e ∧ e.Stores y) :
    Gathering (w.move m) p f s n where
  stage := by
    apply hg.stage.keep (sameLead_of_carried hR hcarry ha fun seat r hb => (hnext _ hb).2.1 seat r rfl)
    · exact fun h => (entry_of_carried hcarry p).trans (hno h)
    · intro e he hpos
      obtain ⟨e', he', h⟩ := hentry e he hpos
      exact ⟨e', (entry_of_carried hcarry p).trans he', h⟩
    · intro op
      rw [disk_of_carried hcarry, hdisk]
  calm i ph hph := calm_of_carried hR hcarry hg.calm (fun b hb => (hnext b hb).1) hph
  waits i ph seat y hph hact hk := by
    refine waits_of_carried hR hg hcarry (fun seat y hb => (hnext _ hb).2.2 seat y rfl) ?_ hph hact hk
    intro e y he hy
    cases hg.stage with
    | before hnone => cases hnone.symm.trans he
    | fetching _ _ _ _ e' _ _ _ hsome hpos =>
      cases hsome.symm.trans he
      obtain ⟨e', he', hbare, -⟩ := hentry e he hpos
      exact .inr ⟨e', (entry_of_carried hcarry p).trans he', (Entry.stores_congr hbare).2 hy⟩
    | fetched e' _ hsome hpos =>
      cases hsome.symm.trans he
      obtain ⟨e', he', hbare, -⟩ := hentry e he hpos
      exact .inr ⟨e', (entry_of_carried hcarry p).trans he', (Entry.stores_congr hbare).2 hy⟩

theorem gathering_starting (hR : Running w m) (hg : Gathering w p f s n)
    (hcarry : w.carried? m = some (id, .starting (.watch q x))) : Gathering (w.move m) p f s n := by
  have hgoing : (floorTo w id).isShutDown = false := by
    rw [← hR.going]
    unfold floorTo
    split <;> rfl
  have hstep : (floorTo w id).step (.starting (.watch q x)) =
      ((floorTo w id).freshSignal.2, .go (.joining q x (floorTo w id).freshSignal.1 none)) := by
    simp only [World.step, World.begin, World.requestWatch, hgoing, Bool.false_eq_true, if_false]
  have hentry : World.entry? ((floorTo w id).step (.starting (.watch q x))).1 p = w.entry? p := by
    rw [hstep]
    exact entry?_floorTo w id p
  apply gathering_of_still hR hg hcarry
  · exact fun e he hpos => ⟨e, hentry.trans he, rfl, rfl, hpos⟩
  · exact fun hno => hentry.trans hno
  · rw [hstep]
    exact disk_floorTo w id
  · rintro seat r ⟨⟩
  · intro b hb
    rw [hstep] at hb
    cases hb
    refine ⟨rfl, ?_, ?_⟩
    · rintro seat r ⟨⟩
    · rintro seat y ⟨⟩

/-- the first call that takes a place requests the synchronization that the others share -/
theorem gathering_first (hR : Running w m) (hg : Gathering w p f s n) (hq : q.key = p.key)
    (hcarry : w.carried? m = some (id, .joining q x joined other)) (hno : w.entry? p = none)
    (hs : w.disk.callCount .stat p = s) (hn : w.disk.callCount .read p = n)
    (hstep : (floorTo w id).step (.joining q x joined other) =
      (floorTo w id).takePlace ⟨q, x, joined⟩ { spelling := q }) : Gathering (w.move m) p f s n := by
  obtain ⟨e, y, τ, hgo, he, hopened, hdisk⟩ := takePlace_first (floorTo w id) ⟨q, x, joined⟩
  have hcalls : ∀ op, (w.move m).disk.callCount op p = w.disk.callCount op p := by
    intro op
    rw [disk_of_carried hcarry, hstep, hdisk, disk_floorTo]
  have he' : World.entry? (w.move m) p = some e := by
    rw [entry_of_carried hcarry, hstep, ← entry?_congr hq]
    exact he
  have hafter := phase?_of_carried hR.wf hcarry
  rw [hstep, hgo] at hafter
  obtain ⟨ph, hph, hact⟩ := Option.map_eq_some_iff.1 hafter
  constructor
  · refine .fetching id ⟨q, x, joined⟩ (.queued q y τ) ph e hph hact ?_ he' ?_ hopened.known hopened.revoked
      hopened.registered ?_
    · intro j ph' seat' r' hph' hact' hr'
      by_contra hne
      -- anybody else at a first reconciliation would have a place
      rcases back_of_carried hR hcarry hne hph' (q := r'.path) (by rw [hact']; rfl) with hsame | ⟨z, hz⟩
      · have hseat : seat'.path = r'.path := by
          have hcoh := hR.coherent j ph' hsame seat' (by rw [hact']; rfl)
          rw [hact'] at hcoh
          exact (Option.some.inj hcoh).symm
        obtain ⟨e₁, he₁, -⟩ := hR.counted (p := p) hsame (by rw [hact', ← hr', ← hseat]; rfl)
        cases hno.symm.trans he₁
      · cases hact'.symm.trans hz
    · rw [hopened.count]
      exact Nat.one_pos
    · exact .queued q y τ hq hopened.query hopened.pending hopened.running ((hcalls _).trans hs) ((hcalls _).trans hn)
  · intro i ph' hph'
    refine calm_of_carried hR hcarry hg.calm ?_ hph'
    intro b hb
    rw [hstep, hgo] at hb
    cases hb
    rfl
  · intro i ph' seat z hph' hact' hk
    refine waits_of_carried hR hg hcarry ?_ ?_ hph' hact' hk
    · intro seat' z' hb
      rw [hstep, hgo] at hb
      cases hb
    · exact fun e₁ z' he₁ => by cases hno.symm.trans he₁

theorem gathering_joining (hR : Running w m) (hg : Gathering w p f s n) (hq : q.key = p.key)
    (hcarry : w.carried? m = some (id, .joining q x joined other)) : Gathering (w.move m) p f s n := by
  have hentry : ∀ v : World, World.entry? v p = World.entry? v q := fun v => (entry?_congr hq).symm
  have hcounted : ∀ e, w.entry? p = some e → 0 < e.count → Gathering (w.move m) p f s n := by
    intro e he hpos
    have hsome : World.entry? (floorTo w id) q = some e := (entry?_floorTo w id q).trans ((hentry w).symm.trans he)
    obtain ⟨hdisk, -, ⟨e', he', hbare, hreg, hpos'⟩, hresult⟩ :=
      stepJoining_counted hsome hpos x joined other
    apply gathering_of_still hR hg hcarry
    · intro e₁ he₁ _
      cases he.symm.trans he₁
      exact ⟨e', (hentry _).trans he', hbare, hreg, hpos'⟩
    · exact fun hno => by cases hno.symm.trans he
    · exact hdisk.trans (disk_floorTo w id)
    · rintro seat r ⟨⟩
    · intro b hb
      change ((floorTo w id).stepJoining q x joined other).2.next = some b at hb
      rcases hresult with ⟨other', hr⟩ | hr | ⟨hr, -⟩
      · cases hr.symm.trans hb
        refine ⟨rfl, ?_, ?_⟩
        · rintro seat r ⟨⟩
        · rintro seat y ⟨⟩
      · cases hr.symm.trans hb
        refine ⟨rfl, ?_, ?_⟩
        · rintro seat r ⟨⟩
        · rintro seat y ⟨⟩
      · rw [hr] at hb
        cases hb
  cases hstage : hg.stage with
  | fetching i seat r ph e hph hact hone he hpos hknown hrev hreg hF => exact hcounted e he hpos
  | fetched e hnobody he hpos hdone hs hn => exact hcounted e he hpos
  | before hno hs hn =>
    have hnone : World.entry? (floorTo w id) q = none := (entry?_floorTo w id q).trans ((hentry w).symm.trans hno)
    rcases stepJoining_untracked hnone x joined other with ⟨hstep, -⟩ | hstep
    · -- the call waits for another one of the same subscriber
      have hstep' : (floorTo w id).step (.joining q x joined other) = (floorTo w id, .wait (.joining q x joined other)) := hstep
      apply gathering_of_still hR hg hcarry
      · exact fun e he => by cases hno.symm.trans he
      · intro _
        rw [hstep']
        exact (entry?_floorTo w id p).trans hno
      · rw [hstep']
        exact disk_floorTo w id
      · rintro seat r ⟨⟩
      · intro b hb
        rw [hstep'] at hb
        cases hb
        refine ⟨rfl, ?_, ?_⟩
        · rintro seat r ⟨⟩
        · rintro seat y ⟨⟩
    · exact gathering_first hR hg hq hcarry hno hs hn hstep

/-- where an entry counts and nobody gives a place back in the section, the entry counts afterwards -/
theorem counted_of_carried (hR : Running w m) (hg : Gathering w p f s n) (hcarry : w.carried? m = some (id, a))
    (hnext : ∀ b, ((floorTo w id).step a).2.next = some b → b.tears? = none) (he : w.entry? p = some e) (hpos : 0 < e.count)
    {e' : Entry} (he' : World.entry? (w.move m) p = some e') : 0 < e'.count := by
  obtain ⟨e'', he'', hpos''⟩ := hR.stays_counted he hpos fun i ph hph => calm_of_carried hR hcarry hg.calm hnext hph
  cases he'.symm.trans he''
  exact hpos''

/-- **The first of the calls is at the first reconciliation**, and no call to the disk fails there. -/
theorem fetches_of_carried (hR : Running w m) (hg : Gathering w p f s n) (hq : r.path.key = p.key)
    (hcarry : w.carried? m = some (id, .synchronizing seat r)) (hfile : w.disk.file? p = f) (hfails : ¬ FailsAt w m p) :
    ∃ e, w.entry? p = some e ∧ 0 < e.count ∧ (∀ x, e.registered.get? x = none) ∧
      (∀ j ph seat' r', w.tasks.phase? j = some ph → ph.activity = .synchronizing seat' r' → r'.path.key = p.key → j = id) ∧
      Fetches (floorTo w id) p f s n e ((floorTo w id).stepRefresh r) := by
  obtain ⟨u, -, hserved, -, hu⟩ := carried?_eq_some.1 hcarry
  have hphase := phase?_of_served hserved
  cases hg.stage with
  | before hno hs hn =>
    have hseat : seat.path = r.path := by
      have hcoh := hR.coherent id u.phase hphase seat (by rw [hu]; rfl)
      rw [hu] at hcoh
      exact (Option.some.inj hcoh).symm
    obtain ⟨e, he, -⟩ := hR.counted (p := p) hphase (by rw [hu, ← hq, ← hseat]; rfl)
    cases hno.symm.trans he
  | fetched e hnobody he hpos hdone hs hn => exact absurd hq (hnobody id u.phase seat r hphase hu)
  | fetching i seat' r' ph e hph hact hone he hpos hknown hrev hreg hF =>
    cases hone id u.phase seat r hphase hu hq
    cases hphase.symm.trans hph
    cases hu.symm.trans hact
    have hdone : r.callFails w.disk = false := by
      by_contra hfail
      exact hfails ⟨id, _, hcarry, .inl ⟨r, rfl, hq, Bool.eq_true_of_not_eq_false hfail⟩⟩
    refine ⟨e, he, hpos, hreg, hone, ?_⟩
    apply fetches_stepRefresh _ ((entry?_floorTo w id p).trans he) _ _ hknown hrev
    · rw [disk_floorTo]
      exact hF
    · rw [disk_floorTo]
      exact hfile
    · rw [disk_floorTo]
      exact hdone

/-- a call to watch goes on with the first reconciliation, or with waiting -/
theorem step_synchronizing_next {r' : Refresh} (seat : Seat) (h : (w.stepRefresh r).2.next = some r') :
    (w.step (.synchronizing seat r)).1 = (w.stepRefresh r).1 ∧
      (w.step (.synchronizing seat r)).2.next = some (.synchronizing seat r') := by
  simp only [World.step, World.stepSynchronizing]
  rcases hx : w.stepRefresh r with ⟨v, y | y | y | y⟩ <;> rw [hx] at h <;> cases h <;> exact ⟨rfl, rfl⟩

theorem step_synchronizing_ended {news : Bool} (seat : Seat) (h : (w.stepRefresh r).2 = .ended (.ok news)) :
    w.step (.synchronizing seat r) = ((w.stepRefresh r).1, .go (.settling seat none)) := by
  simp only [World.step, World.stepSynchronizing]
  rcases hx : w.stepRefresh r with ⟨v, y | y | y | y⟩ <;> rw [hx] at h <;> cases h
  rfl

theorem gathering_synchronizing (hR : Running w m) (hg : Gathering w p f s n) (hq : r.path.key = p.key)
    (hcarry : w.carried? m = some (id, .synchronizing seat r)) (hfile : w.disk.file? p = f) (hfails : ¬ FailsAt w m p) :
    Gathering (w.move m) p f s n := by
  obtain ⟨e, he, hpos, hreg, hone, hfetch⟩ := fetches_of_carried hR hg hq hcarry hfile hfails
  have hothers : ∀ j ph seat' r', (w.move m).tasks.phase? j = some ph → ph.activity = .synchronizing seat' r' →
      r'.path.key = p.key → j = id := by
    intro j ph seat' r' hph hact hr
    by_contra hne
    rcases back_of_carried hR hcarry hne hph (q := r'.path) (by rw [hact]; rfl) with hsame | ⟨z, hz⟩
    · exact hne (hone j ph seat' r' hsame hact hr)
    · cases hact.symm.trans hz
  have hafter := phase?_of_carried hR.wf hcarry
  have hentry := entry_of_carried hcarry p
  have hdisk := disk_of_carried hcarry
  cases hfetch with
  | onward r' e' hnext he' hknown' hrev' hreg' hF' hkeep =>
    obtain ⟨hworld, hgo⟩ := step_synchronizing_next seat hnext
    rw [hworld] at hentry hdisk
    rw [hgo] at hafter
    have hsome := hentry.trans he'
    obtain ⟨ph, hph, hact⟩ := Option.map_eq_some_iff.1 hafter
    have htears : ∀ b, ((floorTo w id).step (.synchronizing seat r)).2.next = some b → b.tears? = none := by
      intro b hb
      cases hgo.symm.trans hb
      rfl
    constructor
    · refine .fetching id seat r' ph e' hph hact hothers hsome (counted_of_carried hR hg hcarry htears he hpos hsome)
        hknown' hrev' (hreg' ▸ hreg) ?_
      rw [hdisk]
      exact hF'
    · exact fun i ph hph => calm_of_carried hR hcarry hg.calm htears hph
    · intro i ph seat' y hph hact hk
      refine waits_of_carried hR hg hcarry ?_ ?_ hph hact hk
      · intro seat'' z hb
        cases hgo.symm.trans hb
      · intro e₁ z he₁ hz
        cases he.symm.trans he₁
        exact .inr ⟨e', hsome, hkeep z hz⟩
  | ends news e' hend he' hfetched hs' hn' hgiven =>
    have hstep := step_synchronizing_ended seat hend
    have hcore := core_of_carried hcarry
    rw [hstep] at hentry hdisk hcore hafter
    have hsome := hentry.trans he'
    have htears : ∀ b, ((floorTo w id).step (.synchronizing seat r)).2.next = some b → b.tears? = none := by
      intro b hb
      rw [hstep] at hb
      cases hb
      rfl
    constructor
    · refine .fetched e' ?_ hsome (counted_of_carried hR hg hcarry htears he hpos hsome) hfetched ?_ ?_
      · intro j ph seat' r' hph hact hr
        cases hothers j ph seat' r' hph hact hr
        rw [hph, Option.map_some, hact] at hafter
        cases hafter
      · rw [hdisk]
        exact hs'
      · rw [hdisk]
        exact hn'
    · exact fun i ph hph => calm_of_carried hR hcarry hg.calm htears hph
    · intro i ph seat' y hph hact hk
      refine waits_of_carried hR hg hcarry ?_ ?_ hph hact hk
      · intro seat'' z hb
        rw [hstep] at hb
        cases hb
      · intro e₁ z he₁ hz
        cases he.symm.trans he₁
        refine .inl ?_
        rw [show (w.move m).signals = _ from congrArg Core.signals hcore]
        exact hgiven z hz

/-- where a call to watch settles, the first reconciliation has ended once nothing is pending -/
theorem stage_of_settled (hR : Running w m) (hg : Gathering w p f s n) (hq : seat.path.key = p.key)
    (hcarry : w.carried? m = some (id, .settling seat signal))
    (hnone : ∀ e, World.entry? (floorTo w id) seat.path = some e → e.unsettled (floorTo w id).signals = none) :
    ∃ e, (∀ j ph seat r, w.tasks.phase? j = some ph → ph.activity = .synchronizing seat r → r.path.key ≠ p.key) ∧
      w.entry? p = some e ∧ 0 < e.count ∧ e.Fetched f ∧ w.disk.callCount .stat p = s + 1 ∧
      w.disk.callCount .read p = n + if f.isSome then 1 else 0 := by
  obtain ⟨u, -, hserved, -, hu⟩ := carried?_eq_some.1 hcarry
  have hphase := phase?_of_served hserved
  obtain ⟨e, he, hpos⟩ := hR.counted (p := p) hphase (by rw [hu, ← hq]; rfl)
  cases hg.stage with
  | before hno => cases hno.symm.trans he
  | fetching i seat' r ph e₁ hph hact hone he₁ hpos₁ hknown hrev hreg hF =>
    cases he.symm.trans he₁
    have hunsettled := hnone e ((entry?_floorTo w id seat.path).trans ((entry?_congr hq).trans he))
    have hsignals : (floorTo w id).signals = w.signals := congrArg Core.signals (core_floorTo w id)
    rw [hsignals] at hunsettled
    exact absurd (awaited_of_fetching hR.proper.kept hph hact he hF) (not_awaited_of_unsettled hunsettled)
  | fetched e hnobody he hpos hdone hs hn => exact ⟨e, hnobody, he, hpos, hdone, hs, hn⟩

theorem gathering_settling (hR : Running w m) (hg : Gathering w p f s n) (hq : seat.path.key = p.key)
    (hcarry : w.carried? m = some (id, .settling seat signal)) : Gathering (w.move m) p f s n := by
  obtain ⟨u, -, hserved, -, hu⟩ := carried?_eq_some.1 hcarry
  have hphase := phase?_of_served hserved
  obtain ⟨e, he, hpos⟩ := hR.counted (p := p) hphase (by rw [hu, ← hq]; rfl)
  have hsome : World.entry? (floorTo w id) seat.path = some e :=
    (entry?_floorTo w id seat.path).trans ((entry?_congr hq).trans he)
  -- as long as the world stays as it is
  have hstill : ∀ b, ((floorTo w id).step (.settling seat signal)).1 = floorTo w id →
      ((floorTo w id).step (.settling seat signal)).2.next = some b → b.tears? = none → (∀ seat r, b ≠ .synchronizing seat r) →
      (∀ seat' y, b = .settling seat' (some y) → Activity.settling seat signal = b ∨
        ∃ e, w.entry? p = some e ∧ e.Stores y) → Gathering (w.move m) p f s n := by
    intro b hworld hnext htears hsync hwaits
    apply gathering_of_still hR hg hcarry
    · intro e₁ he₁ hpos₁
      exact ⟨e₁, by rw [hworld, entry?_floorTo, he₁], rfl, rfl, hpos₁⟩
    · intro hno
      rw [hworld, entry?_floorTo, hno]
    · rw [hworld, disk_floorTo]
    · rintro seat r ⟨⟩
    · intro b' hb'
      cases hnext.symm.trans hb'
      exact ⟨htears, hsync, hwaits⟩
  rcases stepSettling_cases (floorTo w id) seat signal with hwait | ⟨e₁, y, he₁, hy, hgo⟩ | ⟨hnone, hregister⟩
  · have hstep : (floorTo w id).step (.settling seat signal) = (floorTo w id, .wait (.settling seat signal)) := hwait
    refine hstill (.settling seat signal) (by rw [hstep]) (by rw [hstep]; rfl) rfl ?_ ?_
    · rintro seat r ⟨⟩
    · exact fun seat' y _ => .inl rfl
  · have hstep : (floorTo w id).step (.settling seat signal) = (floorTo w id, .go (.settling seat (some y))) := hgo
    refine hstill (.settling seat (some y)) (by rw [hstep]) (by rw [hstep]; rfl) rfl ?_ ?_
    · rintro seat r ⟨⟩
    · rintro seat' z ⟨⟩
      cases hsome.symm.trans he₁
      have hmem := List.mem_of_find?_eq_some hy
      simp only [List.mem_append, Option.mem_toList] at hmem
      rcases hmem with (h | h) | h
      · exact .inr ⟨e, he, .inl h⟩
      · exact .inr ⟨e, he, .inr (.inl h)⟩
      · exact .inr ⟨e, he, .inr (.inr h)⟩
  · -- nobody is registered before the first reconciliation has ended
    have hstep : (floorTo w id).step (.settling seat signal) = (floorTo w id).register seat := hregister
    obtain ⟨e₁, hnobody, he₁, hpos₁, hdone, hs, hn⟩ := stage_of_settled hR hg hq hcarry hnone
    cases he.symm.trans he₁
    obtain ⟨hend, hdisk, e', he', hbare, -⟩ := register_tracked hsome
    have hnext : ∀ b, ((floorTo w id).step (.settling seat signal)).2.next ≠ some b := by
      intro b hb
      rw [hstep, hend] at hb
      cases hb
    have htears : ∀ b, ((floorTo w id).step (.settling seat signal)).2.next = some b → b.tears? = none :=
      fun b hb => absurd hb (hnext b)
    have hafter : World.entry? (w.move m) p = some e' := by
      rw [entry_of_carried hcarry, hstep, ← entry?_congr hq]
      exact he'
    have hcalls : (w.move m).disk = w.disk := by
      rw [disk_of_carried hcarry, hstep, hdisk, disk_floorTo]
    have hlead := sameLead_of_carried (p := p) hR hcarry (by rintro seat r ⟨⟩) fun seat r => hnext _
    constructor
    · refine .fetched e' ?_ hafter (counted_of_carried hR hg hcarry htears he hpos hafter) (hdone.congr hbare) ?_ ?_
      · intro j ph seat r hph hact hr
        exact hnobody j ph seat r (hlead.back j ph seat r hph hact hr) hact hr
      · rw [hcalls]
        exact hs
      · rw [hcalls]
        exact hn
    · exact fun i ph hph => calm_of_carried hR hcarry hg.calm htears hph
    · intro i ph seat' y hph hact hk
      refine waits_of_carried hR hg hcarry (fun _ _ hb => absurd hb (hnext _)) ?_ hph hact hk
      intro e₂ y he₂ hy
      cases he.symm.trans he₂
      exact .inr ⟨e', hafter, (Entry.stores_congr hbare).2 hy⟩

/-- **A call to watch keeps a gathering together**, if no call to the disk fails. -/
theorem gathering_carried (hR : Running w m) (hg : Gathering w p f s n) (hcarry : w.carried? m = some (id, a))
    (ha : Watching q x a) (hq : q.key = p.key) (hfile : w.disk.file? p = f) (hfails : ¬ FailsAt w m p) :
    Gathering (w.move m) p f s n := by
  cases ha with
  | starting => exact gathering_starting hR hg hcarry
  | joining joined other => exact gathering_joining hR hg hq hcarry
  | synchronizing joined r hr => exact gathering_synchronizing hR hg (hr ▸ hq) hcarry hfile hfails
  | settling joined signal =>
    have hseat : (Seat.mk q x joined).path.key = p.key := hq
    exact gathering_settling hR hg hseat hcarry
  | failing turn joined y =>
    obtain ⟨u, -, hserved, -, hu⟩ := carried?_eq_some.1 hcarry
    exact absurd hq (hg.not_tearing (phase?_of_served hserved) hu)

/-! ## What calls to watch return -/

/-- a subscriber that is registered already, or is about to be, is shown what has been found -/
theorem ended_joining (hg : Gathering w p f s n) (hq : q.key = p.key)
    (hcarry : w.carried? m = some (id, .joining q x joined other)) {o : Outcome}
    (ho : ((floorTo w id).step (.joining q x joined other)).2 = .ended o) :
    o = .ok (.snapshot ((Known.found f).shown q)) ∧
      ∃ e, World.entry? (w.move m) p = some e ∧ e.registered.contains x = true := by
  have hentry : ∀ v : World, World.entry? v p = World.entry? v q := fun v => (entry?_congr hq).symm
  have hcounted : ∀ e, w.entry? p = some e → 0 < e.count → o = .ok (.snapshot (e.snapshot q)) ∧
      e.registered.contains x = true ∧ ∃ e', World.entry? (w.move m) p = some e' ∧ e'.registered = e.registered := by
    intro e he hpos
    have hsome : World.entry? (floorTo w id) q = some e := (entry?_floorTo w id q).trans ((hentry w).symm.trans he)
    obtain ⟨-, -, ⟨e', he', -, hreg, -⟩, hresult⟩ :=
      stepJoining_counted hsome hpos x joined other
    rw [World.step] at ho
    rcases hresult with ⟨other', hr⟩ | hr | ⟨hr, hx⟩
    · rw [ho] at hr
      cases hr
    · rw [ho] at hr
      cases hr
    · cases hr.symm.trans ho
      exact ⟨rfl, hx, e', (entry_of_carried hcarry p).trans ((hentry _).trans he'), hreg⟩
  cases hg.stage with
  | before hno hs hn =>
    have hnone : World.entry? (floorTo w id) q = none := (entry?_floorTo w id q).trans ((hentry w).symm.trans hno)
    rw [World.step] at ho
    rcases stepJoining_untracked hnone x joined other with ⟨hstep, -⟩ | hstep
    · rw [hstep] at ho
      cases ho
    · obtain ⟨e, y, τ, hgo, -⟩ := takePlace_first (floorTo w id) ⟨q, x, joined⟩
      rw [hstep, hgo] at ho
      cases ho
  | fetching i seat r ph e hph hact hone he hpos hknown hrev hreg hF =>
    obtain ⟨-, hx, -⟩ := hcounted e he hpos
    rw [Table.contains, hreg x] at hx
    cases hx
  | fetched e hnobody he hpos hdone hs hn =>
    obtain ⟨rfl, hx, e', he', hreg⟩ := hcounted e he hpos
    refine ⟨?_, e', he', hreg ▸ hx⟩
    rw [snapshot_eq_shown, hdone.known]

theorem ended_settling (hR : Running w m) (hg : Gathering w p f s n) (hq : seat.path.key = p.key)
    (hcarry : w.carried? m = some (id, .settling seat signal)) {o : Outcome}
    (ho : ((floorTo w id).step (.settling seat signal)).2 = .ended o) :
    o = .ok (.snapshot ((Known.found f).shown seat.path)) ∧
      ∃ e, World.entry? (w.move m) p = some e ∧ e.registered.contains seat.subscriber = true := by
  rcases stepSettling_cases (floorTo w id) seat signal with hwait | ⟨e, y, -, -, hgo⟩ | ⟨hnone, hregister⟩
  · rw [World.step, hwait] at ho
    cases ho
  · rw [World.step, hgo] at ho
    cases ho
  · obtain ⟨e, -, he, -, hdone, -⟩ := stage_of_settled hR hg hq hcarry hnone
    have hsome : World.entry? (floorTo w id) seat.path = some e :=
      (entry?_floorTo w id seat.path).trans ((entry?_congr hq).trans he)
    obtain ⟨hend, -, e', he', -, hx⟩ := register_tracked hsome
    rw [World.step, hregister, hend] at ho
    cases ho
    refine ⟨?_, e', ?_, hx⟩
    · rw [snapshot_eq_shown, hdone.known]
    · rw [entry_of_carried hcarry, World.step, hregister, ← entry?_congr hq]
      exact he'

/-- **A call to watch that ends in a gathering returns what has been found**, and its subscriber is registered. -/
theorem ended_of_gathering (hR : Running w m) (hg : Gathering w p f s n) (hcarry : w.carried? m = some (id, a))
    (ha : Watching q x a) (hq : q.key = p.key) (hfile : w.disk.file? p = f) (hfails : ¬ FailsAt w m p) {o : Outcome}
    (ho : ((floorTo w id).step a).2 = .ended o) : o = .ok (.snapshot ((Known.found f).shown q)) ∧
      ∃ e, World.entry? (w.move m) p = some e ∧ e.registered.contains x = true := by
  cases ha with
  | starting =>
    have hgoing : (floorTo w id).isShutDown = false := by
      rw [← hR.going]
      unfold floorTo
      split <;> rfl
    simp only [World.step, World.begin, World.requestWatch, hgoing, Bool.false_eq_true, if_false] at ho
    cases ho
  | joining joined other => exact ended_joining hg hq hcarry ho
  | synchronizing joined r hr =>
    obtain ⟨e, -, -, -, -, hfetch⟩ := fetches_of_carried hR hg (hr ▸ hq) hcarry hfile hfails
    cases hfetch with
    | onward r' e' hnext =>
      obtain ⟨-, hgo⟩ := step_synchronizing_next ⟨q, x, joined⟩ hnext
      rw [ho] at hgo
      cases hgo
    | ends news e' hend =>
      rw [step_synchronizing_ended ⟨q, x, joined⟩ hend] at ho
      cases ho
  | settling joined signal =>
    have hseat : (Seat.mk q x joined).path.key = p.key := hq
    exact ended_settling hR hg hseat hcarry ho
  | failing turn joined y =>
    obtain ⟨u, -, hserved, -, hu⟩ := carried?_eq_some.1 hcarry
    exact absurd hq (hg.not_tearing (phase?_of_served hserved) hu)

end LiveFiles.Engine
