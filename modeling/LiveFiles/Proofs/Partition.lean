/-
A run in two parts. What one scope shows of a world a second world shows by itself, and what is left of it, a third one (`Split`). In
each move at most one of the two is left as it is; the other one follows.
- `World.about?`: the path that a move concerns, if it concerns one.
- `Split.happen`, `Split.serve`: what concerns paths that are shown, or no path, happens there as well.
- `Split.elsewhere`: what concerns other paths changes nothing that is shown.
-/
import LiveFiles.Proofs.Vigilance

namespace LiveFiles.Engine

variable {S T : Scope} {O : Tag → Prop} {θ θ' η η' : Pairing} {w v u : World} {gates : GateId → Option Path} {m m' : Move}
  {id : TaskId} {t : Task Phase} {x x' : Activity} {p : Path}

/-! ## Whose a move is -/

/-- The path that the next section of a task is about. The pump is about none, unless there is an event to read. -/
def World.sectionPath? (w : World) (t : Task Phase) : Option Path :=
  match t.phase.activity with
  | .pumping s => if t.cancelled then none else (w.streams.getD s {}).buffer.head?.map Event.path
  | a => a.about?

/-- The path that a move concerns, if it concerns one. It is known for which paths gates have been put up. -/
def World.about? (w : World) (gates : GateId → Option Path) : Move → Option Path
  | .turn id => (w.served? id).bind w.sectionPath?
  | .cancel id => (w.tasks.live.get? id).bind fun t => t.phase.activity.about?
  | .openGate g => gates g
  | .tryRead x => (w.tryRead x).1.map Snapshot.path
  | m => m.path?

/-- The move concerns nobody: the task cannot go on or is not there, or there is no such gate. -/
def World.Vacant (w : World) (gates : GateId → Option Path) : Move → Prop
  | .turn id => w.served? id = none
  | .cancel id => w.tasks.live.get? id = none
  | .openGate g => gates g = none
  | _ => False

/-- the paths for which gates have been put up, after a move -/
def World.gatesAfter (w : World) (gates : GateId → Option Path) : Move → GateId → Option Path
  | .hold _ p => Function.update gates w.disk.nextGate (some p)
  | _ => gates

/-- a move that names a task or a gate -/
def Move.isAddressed : Move → Bool
  | .turn _ | .cancel _ | .openGate _ => true
  | _ => false

/-- the same move in another run, where tasks and gates have other numbers -/
inductive Renamed (θ : Pairing) : Move → Move → Prop
  | turn {a b : TaskId} (h : θ.on .task a b) : Renamed θ (.turn a) (.turn b)
  | cancel {a b : TaskId} (h : θ.on .task a b) : Renamed θ (.cancel a) (.cancel b)
  | openGate {g g' : GateId} (h : θ.on .gate g g') : Renamed θ (.openGate g) (.openGate g')
  | same (m : Move) (h : m.isAddressed = false) : Renamed θ m m

/-- In the second world the same happens as in the first one, unless that concerns a path that cannot be seen, or nobody: then
nothing happens. -/
structure Filters (S : Scope) (gates : GateId → Option Path) (θ θ' : Pairing) (w v : World) (m m' : Move) : Prop where
  deleted : ∀ p, w.about? gates m = some p → S.seen p.key = false → v.move m' = v
  kept : (∀ p, w.about? gates m = some p → S.seen p.key = true) → Renamed θ m m' ∨ w.Vacant gates m ∧ v.move m' = v
  grows : θ ≤ θ'
  introduced : (∀ p, w.about? gates m = some p → S.seen p.key = true) → Introduced θ' w v m
  going : m' = .call .shutDown → m = .call .shutDown

theorem sectionPath?_of_pumping {s : StreamId} (h : t.phase.activity = .pumping s) :
    w.sectionPath? t = if t.cancelled then none else (w.streams.getD s {}).buffer.head?.map Event.path := by
  unfold World.sectionPath?
  rw [h]

theorem sectionPath?_of_not_pumping (h : ∀ s, t.phase.activity ≠ .pumping s) : w.sectionPath? t = t.phase.activity.about? := by
  unfold World.sectionPath?
  split
  · next s hs => exact absurd hs (h s)
  · rfl

/-- A task that stands for another one is about a path that can be seen, unless it is the pump. -/
theorem ActivityAlike.about (h : ActivityAlike S θ x x') (hS : ¬S.whole) :
    (∃ s, x = .pumping s) ∨ ∃ p, x.about? = some p ∧ S.seen p.key = true := by
  have hrefresh : ∀ {r r' : Refresh}, RefreshAlike S θ r r' → S.seen r.path.key = true := fun h => by
    cases h with
    | queued hp => exact S.visible hp
    | looking hl | reading hl | lookingAgain hl => exact S.visible hl.path
  have hsave : ∀ {y y' : Save}, SaveAlike S θ y y' → S.seen y.job.path.key = true := fun h => by
    cases h with
    | queued hj | writing hj | looking hj => exact S.visible hj.path
  cases h with
  | pumping s => exact Or.inl ⟨s, rfl⟩
  | starting hy =>
    right
    cases hy with
    | watch hp | unwatch hp | write hp | reconcile hp | release hp | diskStat hp | diskRead hp | diskWrite hp =>
      exact ⟨_, rfl, S.visible hp⟩
    | waitIdle hwhole | shutDown hwhole => exact absurd hwhole hS
  | refreshing hr => exact Or.inr ⟨_, rfl, hrefresh hr⟩
  | saving hx => exact Or.inr ⟨_, rfl, hsave hx⟩
  | synchronizing hx hr => exact Or.inr ⟨_, rfl, hrefresh hr⟩
  | settling hx => exact Or.inr ⟨_, rfl, S.visible hx.path⟩
  | joining hp | tearingDown hp | diskStat hp | diskRead hp | diskWrite _ hp | listening hp => exact Or.inr ⟨_, rfl, S.visible hp⟩
  | awaitingQuiet hwhole | closing hwhole | draining hwhole => exact absurd hwhole hS

theorem about?_pumping (s : StreamId) : (Activity.pumping s).about? = none := rfl

theorem requestAlike_self (hrefl : ∀ p, S.seen p.key = true → S.path p p) {r : Request} (hr : r ≠ .shutDown ∧ r ≠ .waitIdle)
    (hseen : ∀ p, (Activity.starting r).about? = some p → S.seen p.key = true) : RequestAlike S r r := by
  cases r with
  | watch p y => exact .watch (hrefl p (hseen p rfl)) y
  | unwatch p y => exact .unwatch (hrefl p (hseen p rfl)) y
  | write p bytes => exact .write (hrefl p (hseen p rfl)) bytes
  | reconcile p => exact .reconcile (hrefl p (hseen p rfl))
  | release p => exact .release (hrefl p (hseen p rfl))
  | waitIdle => exact absurd rfl hr.2
  | shutDown => exact absurd rfl hr.1
  | diskStat p => exact .diskStat (hrefl p (hseen p rfl))
  | diskRead p => exact .diskRead (hrefl p (hseen p rfl))
  | diskWrite p bytes => exact .diskWrite (hrefl p (hseen p rfl)) bytes

/-- a move that names neither task nor gate, and concerns what can be seen, happens alike -/
theorem happens_same (hrefl : ∀ p, S.seen p.key = true → S.path p p) (hm : m.isAddressed = false)
    (hgo : m ≠ .call .shutDown ∧ m ≠ .call .waitIdle) (hseen : ∀ p, w.about? gates m = some p → S.seen p.key = true) :
    Happens S θ w m m := by
  have hself : ∀ p, w.about? gates m = some p → S.path p p := fun p hp => hrefl p (hseen p hp)
  cases m with
  | turn | cancel | openGate => cases hm
  | call r =>
    exact .call (requestAlike_self hrefl ⟨fun hr => hgo.1 (congrArg Move.call hr), fun hr => hgo.2 (congrArg Move.call hr)⟩ hseen)
  | putFile p bytes => exact .putFile (hself p rfl) bytes
  | removeFile p => exact .removeFile (hself p rfl)
  | touch p => exact .touch (hself p rfl)
  | orderFailure op p message => exact .orderFailure op (hself p rfl) message
  | clearFailure op p => exact .clearFailure op (hself p rfl)
  | hold op p => exact .hold op (hself p rfl)
  | refuseArming p => exact .refuseArming (hself p rfl)
  | permitArming p => exact .permitArming (hself p rfl)
  | rearrange rank => exact .rearrange rank
  | newSubscriber => exact .newSubscriber
  | drain y => exact .drain y
  | tryRead y =>
    refine .tryRead y fun s hs => hseen s.path ?_
    rw [World.about?, Option.mem_def.1 hs]
    rfl
  | closeSubscriber y => exact .closeSubscriber y
  | dropSubscriber y => exact .dropSubscriber y
  | notifyChange p => exact .notifyChange (hself p rfl)
  | attachStream => exact .attachStream
  | sendEvent s ev => exact .sendEvent s ⟨hself ev.path rfl, rfl⟩
  | closeStream s => exact .closeStream s

/-- there is always a move in which nothing happens -/
theorem exists_idle (v : World) : ∃ i, v.move (.turn i) = v := by
  have hidle : ∃ i, canGo v i = false := by
    simp only [canGo_eq]
    cases v.tasks.floor with
    | some x => exact ⟨x + 1, decide_eq_false (Nat.succ_ne_self x).symm⟩
    | none =>
      obtain ⟨i, hi⟩ := Infinite.exists_notMem_finset v.tasks.ready.toFinset
      exact ⟨i, decide_eq_false fun hmem => hi (List.mem_toFinset.2 hmem)⟩
  obtain ⟨i, hi⟩ := hidle
  exact ⟨i, if_neg (Bool.eq_false_iff.1 hi)⟩

/-! ## Two parts -/

/-- tags that have been given away, but stand for nothing -/
def Pairing.strangers (θ : Pairing) (w : World) : Tag → Prop := fun x => x.Made w.counts ∧ ∀ y, ¬θ x y

/-- All that stands for nothing may be somebody else's. -/
theorem Alike.estranged (h : Alike S O θ w v) : Alike S (θ.strangers w) θ w v := by
  have hcovered : ∀ id, (∃ b, θ.on .task id b) ∨ O (.task id) → (∃ b, θ.on .task id b) ∨ θ.strangers w (.task id) := fun id hid =>
    hid.imp_right fun hO => ⟨h.others _ hO, fun y hy => h.fit.apart _ _ hy hO⟩
  exact
    { h with
      fit := { h.fit with apart := fun x y hxy hx => hx.2 y hxy }
      others := fun x hx => hx.1
      covered := ⟨fun id hid => hcovered id (h.covered.1 id hid), h.covered.2⟩
      ended := ⟨fun e he => hcovered e.1 (h.ended.1 e he), h.ended.2⟩ }

/-- scopes of which each shows what the other one does not, both of the same spellings -/
structure Scope.Complement (S T : Scope) : Prop where
  keys : ∀ k, T.seen k = !S.seen k
  left : ¬S.whole
  right : ¬T.whole
  selfLeft : ∀ p, S.seen p.key = true → S.path p p
  selfRight : ∀ p, T.seen p.key = true → T.path p p

theorem Scope.Complement.symm (h : S.Complement T) : T.Complement S :=
  ⟨fun k => by rw [h.keys, Bool.not_not], h.right, h.left, h.selfRight, h.selfLeft⟩

/-- the tags that may be shared: dates, and pumps -/
def World.Shareable (w : World) (x : Tag) : Prop :=
  (∃ t, x = .date t) ∨ ∃ n, x = .task n ∧ ∀ ph, w.tasks.phase? n = some ph → ∃ s, ph.activity = .pumping s

/-- the gates that stand for others are those that have been put up for paths that can be seen -/
def Housed (S : Scope) (gates : GateId → Option Path) (θ : Pairing) : Prop :=
  ∀ g p, gates g = some p → ((∃ g', θ.on .gate g g') ↔ S.seen p.key = true)

/-- **A world in two parts.** The one is like the second world, the other like the third. They share nothing but pumps and dates. -/
structure Split (S T : Scope) (gates : GateId → Option Path) (θ η : Pairing) (w v u : World) : Prop where
  left : Alike S (θ.strangers w) θ w v
  right : Alike T (η.strangers w) η w u
  shared : ∀ x y z, θ x y → η x z → w.Shareable x
  covered : ∀ id, (w.tasks.live.get? id).isSome → (∃ b, θ.on .task id b) ∨ ∃ c, η.on .task id c
  pumps : ∀ id ph s, w.tasks.phase? id = some ph → ph.activity = .pumping s → (∃ b, θ.on .task id b) ∧ ∃ c, η.on .task id c
  gatesLeft : Housed S gates θ
  gatesRight : Housed T gates η

theorem Split.swap (h : Split S T gates θ η w v u) : Split T S gates η θ w u v where
  left := h.right
  right := h.left
  shared x y z hy hz := h.shared x z y hz hy
  covered id hid := (h.covered id hid).symm
  pumps id ph s hph hs := (h.pumps id ph s hph hs).symm
  gatesLeft := h.gatesRight
  gatesRight := h.gatesLeft

/-- a task that stands for another one -/
theorem Alike.task_of_live (h : Alike S O θ w v) {b : TaskId} (hb : θ.on .task id b) (ht : w.tasks.live.get? id = some t) :
    ∃ t', v.tasks.live.get? b = some t' ∧ TaskAlike S θ t t' := by
  have hlive := h.live id b hb
  rw [ht] at hlive
  generalize v.tasks.live.get? b = o at hlive
  cases hlive with
  | some hx => exact ⟨_, rfl, hx⟩

/-- a task that is about a path which cannot be seen stands for none -/
theorem Alike.unpaired (h : Alike S O θ w v) (hS : ¬S.whole) (ht : w.tasks.live.get? id = some t)
    (hp : t.phase.activity.about? = some p) (hseen : S.seen p.key = false) (b : TaskId) : ¬θ.on .task id b := by
  intro hb
  obtain ⟨t', -, htask⟩ := h.task_of_live hb ht
  rcases htask.phase.activity.about hS with ⟨s, hs⟩ | ⟨q, hq, hqseen⟩
  · rw [hs] at hp
    cases (about?_pumping s).symm.trans hp
  · cases hq.symm.trans hp
    exact Bool.false_ne_true (hseen.symm.trans hqseen)

theorem Scope.Complement.seen_of_unseen (h : S.Complement T) {k : Path.Key} (hk : S.seen k = false) : T.seen k = true := by
  rw [h.keys, hk]
  rfl

theorem Scope.Complement.unseen_of_seen (h : S.Complement T) {k : Path.Key} (hk : S.seen k = true) : T.seen k = false := by
  rw [h.keys, hk]
  rfl

/-- a task that is about a path which can be seen stands for another one -/
theorem Split.paired (h : Split S T gates θ η w v u) (hST : S.Complement T) (ht : w.tasks.live.get? id = some t)
    (hp : t.phase.activity.about? = some p) (hseen : S.seen p.key = true) : ∃ b, θ.on .task id b := by
  refine (h.covered id (by rw [ht]; rfl)).resolve_right ?_
  rintro ⟨c, hc⟩
  exact h.right.unpaired hST.right ht hp (hST.unseen_of_seen hseen) c hc

/-- every task is about some path, the pump apart -/
theorem Split.about (h : Split S T gates θ η w v u) (hST : S.Complement T) (ht : w.tasks.live.get? id = some t) :
    (∃ s, t.phase.activity = .pumping s) ∨ ∃ p, t.phase.activity.about? = some p := by
  rcases h.covered id (by rw [ht]; rfl) with ⟨b, hb⟩ | ⟨c, hc⟩
  · obtain ⟨t', -, htask⟩ := h.left.task_of_live hb ht
    exact (htask.phase.activity.about hST.left).imp_right fun ⟨p, hp, _⟩ => ⟨p, hp⟩
  · obtain ⟨t', -, htask⟩ := h.right.task_of_live hc ht
    exact (htask.phase.activity.about hST.right).imp_right fun ⟨p, hp, _⟩ => ⟨p, hp⟩

/-- in the first part everything is said that the second part does not say -/
theorem Split.separate (h : Split S T gates θ η w v u) (hST : S.Complement T) : Separate S T (θ.strangers w) η where
  keys k hk := by
    rw [hST.keys] at hk
    simpa using hk
  signal s c hc := by
    refine ⟨(h.right.made _ _ hc).1, fun y hy => ?_⟩
    rcases h.shared _ y _ hy hc with ⟨t, ht⟩ | ⟨n, hn, -⟩
    · cases ht
    · cases hn
  lock l c hc := by
    refine ⟨(h.right.made _ _ hc).1, fun y hy => ?_⟩
    rcases h.shared _ y _ hy hc with ⟨t, ht⟩ | ⟨n, hn, -⟩
    · cases ht
    · cases hn

/-! ## Moves that change nothing -/

/-- **What becomes of one of the two parts in a move**: it follows, or is left as it is. -/
structure Mirrors (S : Scope) (gates : GateId → Option Path) (θ θ' : Pairing) (w v : World) (m m' : Move) : Prop where
  filters : Filters S gates θ θ' w v m m'
  alike : ∃ O, θ.strangers w ≤ O ∧ Alike S O θ' (w.move m) (v.move m')
  still : ∀ p, w.about? gates m = some p → S.seen p.key = false → θ' = θ
  arrivals : (∀ p, w.about? gates m = some p → S.seen p.key = true) →
    ∀ id, ((w.move m).tasks.live.get? id).isSome → (∃ b, θ'.on .task id b) ∨ id < w.tasks.next

theorem Alike.resembles (h : Alike S (θ.strangers w) θ w v) (hS : ¬S.whole) : Resembles S (θ.strangers w) θ w v :=
  ⟨hS, _, le_rfl, h⟩

/-- what concerns others, or nobody, does not happen in the second world -/
theorem Resembles.mirrors (h : Resembles S (θ.strangers w) θ (w.move m) v)
    (hwhy : (∃ p, w.about? gates m = some p ∧ S.seen p.key = false) ∨
      w.Vacant gates m ∧ ∀ id, ((w.move m).tasks.live.get? id).isSome → id < w.tasks.next) :
    ∃ m', Mirrors S gates θ θ w v m m' := by
  obtain ⟨i, hi⟩ := exists_idle v
  obtain ⟨-, O, hO, h⟩ := h
  have hvacant : (∀ p, w.about? gates m = some p → S.seen p.key = true) →
      w.Vacant gates m ∧ ∀ id, ((w.move m).tasks.live.get? id).isSome → id < w.tasks.next := fun hseen => by
    refine hwhy.resolve_left ?_
    rintro ⟨p, hp, hunseen⟩
    exact Bool.false_ne_true (hunseen.symm.trans (hseen p hp))
  refine ⟨.turn i, ⟨fun _ _ _ => hi, fun hseen => Or.inr ⟨(hvacant hseen).1, hi⟩, le_rfl, fun hseen => ?_, nofun⟩,
    ⟨O, hO, hi.symm ▸ h⟩, fun _ _ _ => rfl, fun hseen id hid => Or.inr ((hvacant hseen).2 id hid)⟩
  constructor
  · rintro r rfl -
    exact absurd (hvacant hseen).1 id
  · rintro op p rfl
    exact absurd (hvacant hseen).1 id

/-- whoever listens for subscribers elsewhere stands for none -/
theorem Split.listenersApart (h : Split S T gates θ η w v u) (hST : S.Complement T) (hheeds : w.Heeds)
    (hp : S.seen p.key = false) : ListenersApart θ w p := by
  intro e x r id he hr hid hlive b hb
  obtain ⟨t, ht⟩ := Option.isSome_iff_exists.1 hlive
  have hph : w.tasks.phase? id = some t.phase := congrArg (Option.map Task.phase) ht
  obtain ⟨q, ha, hk⟩ := hheeds.listener p.key e.face x r id t.phase (face?_of_present he) hr hid hph
  refine h.left.unpaired hST.left ht (p := q) (by rw [ha]; rfl) ?_ b hb
  rwa [hk]

/-- **What concerns a path that cannot be seen changes nothing that can be seen.** -/
theorem Split.elsewhere (h : Split S T gates θ η w v u) (hST : S.Complement T) (hw : Wf w) (hheeds : w.Heeds)
    (hp : w.about? gates m = some p) (hseen : S.seen p.key = false) : Resembles S (θ.strangers w) θ (w.move m) v := by
  have hleft := h.left.resembles hST.left
  have hsep := h.separate hST
  cases m with
  | turn i =>
    obtain ⟨t, hs, hsection⟩ := Option.bind_eq_some_iff.1 hp
    obtain ⟨hgo, ht⟩ := served?_eq_some hs
    by_cases hpump : ∃ s, t.phase.activity = .pumping s
    · obtain ⟨s, hs⟩ := hpump
      rw [sectionPath?_of_pumping hs] at hsection
      split at hsection
      · cases hsection
      · next hc =>
        obtain ⟨ev, hev, rfl⟩ := Option.map_eq_some_iff.1 hsection
        exact hleft.servePumping hw.numbered hgo ht (Bool.eq_false_iff.2 hc) hs hev hseen
    · have hpump : ∀ s, t.phase.activity ≠ .pumping s := fun s hs => hpump ⟨s, hs⟩
      rw [sectionPath?_of_not_pumping hpump] at hsection
      obtain ⟨c, hc⟩ := h.swap.paired hST.symm ht hsection (hST.seen_of_unseen hseen)
      obtain ⟨t', -, htask⟩ := h.right.task_of_live hc ht
      refine hleft.after_serve hsep hST.right hgo ⟨(h.right.made _ _ hc).1, fun y hy => ?_⟩ ht htask.phase.activity hpump fun q hq =>
        h.listenersApart hST hheeds hq
      rcases h.shared _ y _ hy hc with ⟨d, hd⟩ | ⟨n, hn, hshared⟩
      · cases hd
      · cases hn
        obtain ⟨s, hs⟩ := hshared t.phase (congrArg (Option.map Task.phase) ht)
        exact hpump s hs
  | cancel i =>
    obtain ⟨t, ht, habout⟩ := Option.bind_eq_some_iff.1 hp
    exact hleft.cancel fun _ => h.left.unpaired hST.left ht habout hseen
  | openGate g =>
    refine hleft.openGate fun g' hg => ?_
    exact Bool.false_ne_true (hseen.symm.trans ((h.gatesLeft g p hp).1 ⟨g', hg⟩))
  | tryRead y =>
    refine hleft.tryRead fun s hs => ?_
    obtain ⟨s', hs', rfl⟩ := Option.map_eq_some_iff.1 hp
    cases (Option.mem_def.1 hs).symm.trans hs'
    exact hseen
  | call | putFile | removeFile | touch | orderFailure | clearFailure | hold | refuseArming | permitArming | notifyChange | sendEvent =>
    exact hleft.outside hp hseen
  | rearrange | newSubscriber | drain | closeSubscriber | dropSubscriber | attachStream | closeStream => cases hp

/-! ## Moves that are made in both worlds -/

theorem mirrors_of_alike (hseen : ∀ p, w.about? gates m = some p → S.seen p.key = true) (hle : θ ≤ θ')
    (halike : Alike S (θ.strangers w) θ' (w.move m) (v.move m')) (hren : Renamed θ m m') (hnew : Introduced θ' w v m) :
    Mirrors S gates θ θ' w v m m' where
  filters :=
    { deleted := fun p hp hunseen => absurd (hseen p hp) (Bool.eq_false_iff.1 hunseen)
      kept := fun _ => Or.inl hren
      grows := hle
      introduced := fun _ => hnew
      going := by
        rintro rfl
        cases hren
        rfl }
  alike := ⟨_, le_rfl, halike⟩
  still p hp hunseen := absurd (hseen p hp) (Bool.eq_false_iff.1 hunseen)
  arrivals _ id hid := (halike.covered.1 id hid).imp_right fun hx => hx.1

/-- what concerns nobody does not happen in the second world, and nobody comes in the first one -/
theorem mirrors_of_vacant (h : Alike S (θ.strangers w) θ w v) (hvacant : w.Vacant gates m)
    (hrests : Resembles S (θ.strangers w) θ (w.move m) v)
    (hlive : ∀ id, ((w.move m).tasks.live.get? id).isSome → (w.tasks.live.get? id).isSome) :
    ∃ m' θ', Mirrors S gates θ θ' w v m m' := by
  have hmade : ∀ id, ((w.move m).tasks.live.get? id).isSome → id < w.tasks.next := fun id hid => by
    rcases h.covered.1 id (hlive id hid) with ⟨b, hb⟩ | hO
    · exact (h.made _ _ hb).1
    · exact hO.1
  obtain ⟨m', hm'⟩ := hrests.mirrors (Or.inr ⟨hvacant, hmade⟩)
  exact ⟨m', θ, hm'⟩

theorem mirrors_of_happens (h : Alike S (θ.strangers w) θ w v)
    (hseen : ∀ p, w.about? gates m = some p → S.seen p.key = true) (hm : Happens S θ w m m') (hren : Renamed θ m m') :
    ∃ m' θ', Mirrors S gates θ θ' w v m m' := by
  obtain ⟨θ', hle, halike, hnew⟩ := h.happen hm
  exact ⟨m', θ', mirrors_of_alike hseen hle halike hren hnew⟩

/-- **A section that concerns what can be seen, or no path, takes place in the second world too.** -/
theorem Split.turn (h : Split S T gates θ η w v u) (hST : S.Complement T) (hv : v.Vigilant)
    (hseen : ∀ p, w.about? gates (.turn id) = some p → S.seen p.key = true) :
    ∃ m' θ', Mirrors S gates θ θ' w v (.turn id) m' := by
  have hserve : ∀ b, θ.on .task id b → canGo w id = true →
      (∀ t s, w.tasks.live.get? id = some t → t.cancelled = false → t.phase.activity = .pumping s → w.NextSeen S s) →
      ∃ m' θ', Mirrors S gates θ θ' w v (.turn id) m' := by
    intro b hb hgo hnext
    obtain ⟨θ', hle, halike⟩ := h.left.serve_or_wait hST.left hv hb hgo hnext
    exact ⟨.turn b, θ', mirrors_of_alike hseen hle halike (.turn hb) ⟨nofun, nofun⟩⟩
  cases hs : w.served? id with
  | none =>
    by_cases hgo : canGo w id = true
    · have hdead : w.tasks.live.get? id = none := by simpa [World.served?, hgo] using hs
      by_cases hpaired : ∃ b, θ.on .task id b
      · obtain ⟨b, hb⟩ := hpaired
        exact hserve b hb hgo fun t s ht => by cases hdead.symm.trans ht
      · have hrests := (h.left.resembles hST.left).serve_ended (fun b hb => hpaired ⟨b, hb⟩) hs
        refine mirrors_of_vacant h.left hs hrests fun i hi => ?_
        have hphase := congrArg Option.isSome (phase?_serve_of_nobody hs i)
        rw [Tasks.phase?, Tasks.phase?, Option.isSome_map, Option.isSome_map] at hphase
        exact hphase.symm.trans hi
    · have hstays : w.move (.turn id) = w := if_neg hgo
      exact mirrors_of_vacant h.left hs (hstays.symm ▸ h.left.resembles hST.left) fun i hi => by rwa [hstays] at hi
  | some t =>
    obtain ⟨hgo, ht⟩ := served?_eq_some hs
    have hsection : ∀ p, w.sectionPath? t = some p → S.seen p.key = true := fun p hp => hseen p (by rw [World.about?, hs]; exact hp)
    have hpaired : ∃ b, θ.on .task id b := by
      rcases h.about hST ht with ⟨s, hpump⟩ | ⟨p, hp⟩
      · exact (h.pumps id t.phase s (phase?_of_served hs) hpump).1
      · refine h.paired hST ht hp (hsection p ?_)
        rwa [sectionPath?_of_not_pumping fun s hpump => by rw [hpump] at hp; cases hp]
    obtain ⟨b, hb⟩ := hpaired
    refine hserve b hb hgo fun t' s ht' hc hpump ev hev => ?_
    cases ht.symm.trans ht'
    refine hsection ev.path ?_
    rw [sectionPath?_of_pumping hpump, hc, if_neg Bool.false_ne_true, Option.mem_def.1 hev]
    rfl

/-- **What concerns what can be seen, or no path, happens in the second world too.** -/
theorem Split.along (h : Split S T gates θ η w v u) (hST : S.Complement T) (hv : v.Vigilant)
    (hgo : m ≠ .call .shutDown ∧ m ≠ .call .waitIdle) (hseen : ∀ p, w.about? gates m = some p → S.seen p.key = true) :
    ∃ m' θ', Mirrors S gates θ θ' w v m m' := by
  have hleft := h.left.resembles hST.left
  by_cases haddressed : m.isAddressed = true
  case neg =>
    rw [Bool.not_eq_true] at haddressed
    exact mirrors_of_happens h.left hseen (happens_same hST.selfLeft haddressed hgo hseen) (.same m haddressed)
  cases m with
  | turn id => exact h.turn hST hv hseen
  | cancel id =>
    cases ht : w.tasks.live.get? id with
    | none =>
      have hdead : w.move (.cancel id) = w := by
        change w.cancel id = w
        rw [World.cancel, Tasks.cancel, Table.contains_eq_false_iff.2 ht]
        rfl
      exact mirrors_of_vacant h.left ht (hdead.symm ▸ hleft) fun i hi => by rwa [hdead] at hi
    | some t =>
      have hpaired : ∃ b, θ.on .task id b := by
        rcases h.about hST ht with ⟨s, hpump⟩ | ⟨p, hp⟩
        · exact (h.pumps id t.phase s (congrArg (Option.map Task.phase) ht) hpump).1
        · exact h.paired hST ht hp (hseen p (by rw [World.about?, ht]; exact hp))
      obtain ⟨b, hb⟩ := hpaired
      exact mirrors_of_happens h.left hseen (.cancel hb) (.cancel hb)
  | openGate g =>
    by_cases hpaired : ∃ g', θ.on .gate g g'
    · obtain ⟨g', hg⟩ := hpaired
      exact mirrors_of_happens h.left hseen (.openGate hg) (.openGate hg)
    · have hnone : gates g = none := by
        cases hg : gates g with
        | none => rfl
        | some p => exact absurd ((h.gatesLeft g p hg).2 (hseen p hg)) hpaired
      refine mirrors_of_vacant h.left hnone (hleft.openGate fun g' hg => hpaired ⟨g', hg⟩) fun i hi => ?_
      have hlive : (w.openGate g).tasks.live = w.tasks.live := Tasks.live_wake _ _
      rwa [World.move, hlive] at hi
  | _ => cases haddressed

/-! ## Moves that concern no path -/

theorem counts_wake (w : World) (a : Await) : (w.wake a).counts = w.counts := by
  unfold World.counts
  rw [next_wake]
  rfl

theorem counts_floorTo (w : World) (id : TaskId) : (floorTo w id).counts = w.counts := by
  unfold floorTo
  split <;> rfl

theorem counts_finish (w : World) (id : TaskId) (role : Role) (e : Ending) : (w.finish id role e).counts = w.counts := by
  cases role with
  | background => exact counts_wake { w with pool := w.pool.finish } .quiet
  | caller | service => rfl

theorem counts_after (w : World) (id : TaskId) (x : Section Phase Unit) : (World.after id (w, x)).counts = w.counts := by
  unfold World.counts World.after
  dsimp only
  rw [Tasks.next_record]

theorem counts_cancel (w : World) (id : TaskId) : (w.cancel id).counts = w.counts := by
  have hnext : (w.cancel id).tasks.next = w.tasks.next := by
    unfold World.cancel Tasks.cancel
    split
    · exact Tasks.next_enqueue _ _
    · rfl
  exact congrArg (fun n => { w.counts with task := n }) hnext

theorem counts_attachStream (w : World) : (w.move .attachStream).counts = { w.counts with task := w.tasks.next + 1 } := by
  unfold World.move World.attachStream
  cases w.pump with
  | none => rfl
  | some i => exact counts_cancel _ i

/-- the pump gives no numbers away, unless there is an event to read -/
theorem counts_pumping (hs : w.served? id = some t) {s : StreamId} (hpump : t.phase.activity = .pumping s)
    (hnone : w.sectionPath? t = none) : (serve w id).counts = w.counts := by
  rw [sectionPath?_of_pumping hpump] at hnone
  cases hc : t.cancelled with
  | true =>
    rw [serve_of_cancelled hs hc, counts_finish, hpump]
    exact counts_floorTo w id
  | false =>
    rw [hc, if_neg Bool.false_ne_true, Option.map_eq_none_iff] at hnone
    have hstep : ((floorTo w id).stepPumping s).1.counts = w.counts := by
      have hstreams : (floorTo w id).streams = w.streams := congrArg Outlook.streams (outlook_floorTo w id)
      have hcounts := counts_floorTo w id
      rw [← hstreams] at hnone
      generalize floorTo w id = w₀ at hnone hcounts
      unfold World.stepPumping
      generalize w₀.streams.getD s {} = c at hnone
      obtain ⟨buffer, o, r, y⟩ := c
      cases buffer with
      | cons ev rest => cases hnone
      | nil => cases o <;> cases y <;> exact hcounts
    rw [serve_of_section hs hc]
    unfold World.advance
    rw [hpump, World.step]
    generalize (floorTo w id).stepPumping s = x at hstep
    obtain ⟨w', x⟩ := x
    cases x with
    | go b | wait b | pause b => exact (counts_after _ _ _).trans hstep
    | ended o => exact (counts_after _ _ _).trans ((counts_finish _ _ _ _).trans hstep)

/-- **A move that concerns no path gives no numbers away**, unless a stream is attached. -/
theorem Split.counts (h : Split S T gates θ η w v u) (hST : S.Complement T) (hm : w.about? gates m = none)
    (hgo : m ≠ .call .shutDown ∧ m ≠ .call .waitIdle) (hattach : m ≠ .attachStream) : (w.move m).counts = w.counts := by
  cases m with
  | turn i =>
    cases hs : w.served? i with
    | none =>
      obtain ⟨ready, floor, hserve⟩ := serve_of_nobody hs
      rw [World.move, hserve]
      rfl
    | some t =>
      have hnone : w.sectionPath? t = none := by rwa [World.about?, hs] at hm
      rcases h.about hST (served?_eq_some hs).2 with ⟨s, hpump⟩ | ⟨p, hp⟩
      · exact counts_pumping hs hpump hnone
      · rw [sectionPath?_of_not_pumping fun s hpump => by rw [hpump] at hp; cases hp] at hnone
        cases hnone.symm.trans hp
  | call r =>
    cases r with
    | waitIdle => exact absurd rfl hgo.2
    | shutDown => exact absurd rfl hgo.1
    | _ => cases hm
  | cancel i => exact counts_cancel w i
  | openGate g => exact counts_wake _ _
  | rearrange | newSubscriber => rfl
  | drain y =>
    unfold World.move World.drain
    dsimp only
    split <;> rfl
  | tryRead y =>
    unfold World.move World.tryRead
    dsimp only
    split
    · rfl
    · split <;> rfl
  | closeSubscriber y => exact counts_wake _ _
  | dropSubscriber y => exact counts_wake _ _
  | attachStream => exact absurd rfl hattach
  | closeStream s => exact counts_wake _ _
  | putFile | removeFile | touch | orderFailure | clearFailure | hold | refuseArming | permitArming | notifyChange | sendEvent => cases hm

/-! ## Any move -/

/-- **Each part follows, or is left as it is.** -/
theorem Split.mirrors (h : Split S T gates θ η w v u) (hST : S.Complement T) (hw : Wf w) (hheeds : w.Heeds) (hv : v.Vigilant)
    (hgo : m ≠ .call .shutDown ∧ m ≠ .call .waitIdle) : ∃ m' θ', Mirrors S gates θ θ' w v m m' := by
  by_cases hseen : ∀ p, w.about? gates m = some p → S.seen p.key = true
  · exact h.along hST hv hgo hseen
  · obtain ⟨p, hp⟩ := not_forall.1 hseen
    obtain ⟨hp, hunseen⟩ := Classical.not_imp.1 hp
    rw [Bool.not_eq_true] at hunseen
    obtain ⟨m', hm'⟩ := (h.elsewhere hST hw hheeds hp hunseen).mirrors (Or.inl ⟨p, hp, hunseen⟩)
    exact ⟨m', θ, hm'⟩

/-- tags that have come to stand for others are new -/
theorem Mirrors.fresh (h : Mirrors S gates θ θ' w v m m') {x y : Tag} (hxy : θ' x y) :
    θ x y ∨ ¬x.Made w.counts ∧ ∀ p, w.about? gates m = some p → S.seen p.key = true := by
  obtain ⟨O, hO, halike⟩ := h.alike
  by_cases hold : ∃ z, θ x z
  · obtain ⟨z, hz⟩ := hold
    obtain rfl : z = y := (halike.fit.oneToOne _ _ _ _ (h.filters.grows _ _ hz) hxy).1 rfl
    exact Or.inl hz
  · refine Or.inr ⟨fun hmade => halike.fit.apart _ _ hxy (hO _ ⟨hmade, fun z hz => hold ⟨z, hz⟩⟩), fun p hp => ?_⟩
    by_contra hunseen
    have hsame := h.still p hp (Bool.not_eq_true _ ▸ hunseen)
    exact hold ⟨y, hsame ▸ hxy⟩

/-- what may be shared may still be so after a move -/
theorem World.Shareable.move (hw : Wf w) (hm : Continues w m) {x : Tag} (h : w.Shareable x) (hmade : x.Made w.counts) :
    (w.move m).Shareable x := by
  rcases h with hdate | ⟨n, rfl, hpump⟩
  · exact Or.inl hdate
  · refine Or.inr ⟨n, rfl, fun ph hph => ?_⟩
    rcases phase?_old hw hm hmade hph with hold | ⟨t, -, hs, -, hnext⟩
    · exact hpump ph hold
    · obtain ⟨s, ha⟩ := hpump t.phase (phase?_of_served hs)
      rw [ha] at hnext
      exact ⟨s, next_pumping hnext⟩

/-- the new task that reads a stream -/
theorem shareable_attachStream (w : World) : (w.move .attachStream).Shareable (.task w.tasks.next) := by
  refine Or.inr ⟨_, rfl, fun ph hph => ⟨w.nextStream, ?_⟩⟩
  rw [phase?_attachStream, if_pos rfl] at hph
  cases hph
  rfl

theorem Split.move_shared (h : Split S T gates θ η w v u) (hST : S.Complement T) (hw : Wf w) (hm : Continues w m)
    (hgo : m ≠ .call .shutDown ∧ m ≠ .call .waitIdle) {m₁ m₂ : Move} (hl : Mirrors S gates θ θ' w v m m₁)
    (hr : Mirrors T gates η η' w u m m₂) (x y z : Tag) (hy : θ' x y) (hz : η' x z) : (w.move m).Shareable x := by
  rcases hl.fresh hy with hy | ⟨hnew, hseen⟩ <;> rcases hr.fresh hz with hz | ⟨hnew', hseen'⟩
  · exact (h.shared x y z hy hz).move hw hm (h.left.made _ _ hy).1
  · exact absurd (h.left.made _ _ hy).1 hnew'
  · exact absurd (h.right.made _ _ hz).1 hnew
  · obtain ⟨O, -, halike⟩ := hl.alike
    have hmade := (halike.made _ _ hy).1
    have hcommon : w.about? gates m = none := by
      cases hp : w.about? gates m with
      | none => rfl
      | some p => exact absurd (hseen' p hp) (Bool.eq_false_iff.1 (hST.unseen_of_seen (hseen p hp)))
    by_cases hattach : m = .attachStream
    · subst hattach
      rw [counts_attachStream] at hmade
      cases x with
      | task n =>
        obtain rfl : n = w.tasks.next := Nat.le_antisymm (Nat.le_of_lt_succ hmade) (Nat.le_of_not_lt hnew)
        exact shareable_attachStream w
      | signal | turn | lock | query | gate | date => exact absurd hmade hnew
    · rw [h.counts hST hcommon hgo hattach] at hmade
      exact absurd hmade hnew

/-- gates that have been put up have numbers -/
theorem Split.gate_lt (h : Split S T gates θ η w v u) (hST : S.Complement T) {g : GateId} (hg : gates g = some p) :
    g < w.disk.nextGate := by
  cases hseen : S.seen p.key with
  | true =>
    obtain ⟨g', hg'⟩ := (h.gatesLeft g p hg).2 hseen
    exact (h.left.made _ _ hg').1
  | false =>
    obtain ⟨g', hg'⟩ := (h.gatesRight g p hg).2 (hST.seen_of_unseen hseen)
    exact (h.right.made _ _ hg').1

theorem Mirrors.housed (h : Mirrors S gates θ θ' w v m m') (halike : Alike S O θ w v) (hgates : Housed S gates θ)
    (hlt : ∀ g p, gates g = some p → g < w.disk.nextGate) : Housed S (w.gatesAfter gates m) θ' := by
  have hold : Housed S gates θ' := by
    intro g p hg
    refine ⟨?_, fun hseen => ((hgates g p hg).2 hseen).imp fun g' hg' => h.filters.grows _ _ hg'⟩
    rintro ⟨g', hg'⟩
    exact (hgates g p hg).1 ⟨g', (h.fresh hg').resolve_right fun hnew => hnew.1 (hlt g p hg)⟩
  cases m with
  | hold op q =>
    intro g p hg
    change Function.update gates w.disk.nextGate (some q) g = some p at hg
    by_cases hnew : g = w.disk.nextGate
    · subst hnew
      rw [Function.update_self] at hg
      cases hg
      constructor
      · rintro ⟨g', hg'⟩
        rcases h.fresh hg' with hg' | ⟨-, hseen⟩
        · exact absurd (halike.made _ _ hg').1 (lt_irrefl _)
        · exact hseen q rfl
      · intro hseen
        refine ⟨_, (h.filters.introduced fun p hp => ?_).gate op q rfl⟩
        cases hp
        exact hseen
    · rw [Function.update_of_ne hnew] at hg
      exact hold g p hg
  | _ => exact hold

theorem Split.move_covered (h : Split S T gates θ η w v u) (hST : S.Complement T) (hm : Continues w m) {m₁ m₂ : Move}
    (hl : Mirrors S gates θ θ' w v m m₁) (hr : Mirrors T gates η η' w u m m₂) (id : TaskId)
    (hid : ((w.move m).tasks.live.get? id).isSome) : (∃ b, θ'.on .task id b) ∨ ∃ c, η'.on .task id c := by
  have hold : id < w.tasks.next → (∃ b, θ'.on .task id b) ∨ ∃ c, η'.on .task id c := by
    intro hlt
    have hlive : (w.tasks.live.get? id).isSome := by
      by_contra hdead
      rw [Option.not_isSome_iff_eq_none] at hdead
      have hgone := (spares_move hm).gone id hlt hdead
      dsimp only at hgone
      rw [hgone] at hid
      cases hid
    exact (h.covered id hlive).imp (fun ⟨b, hb⟩ => ⟨b, hl.filters.grows _ _ hb⟩) fun ⟨c, hc⟩ => ⟨c, hr.filters.grows _ _ hc⟩
  by_cases hseen : ∀ p, w.about? gates m = some p → S.seen p.key = true
  · exact (hl.arrivals hseen id hid).elim Or.inl hold
  · obtain ⟨p, hp⟩ := not_forall.1 hseen
    obtain ⟨hp, hunseen⟩ := Classical.not_imp.1 hp
    rw [Bool.not_eq_true] at hunseen
    refine (hr.arrivals (fun q hq => ?_) id hid).elim Or.inr hold
    cases hp.symm.trans hq
    exact hST.seen_of_unseen hunseen

/-- **After any move a world is in two parts again.** -/
theorem Split.move (h : Split S T gates θ η w v u) (hST : S.Complement T) (hw : Wf w) (hheeds : w.Heeds) (hm : Continues w m)
    (hv : v.Vigilant) (hu : u.Vigilant) (hgo : m ≠ .call .shutDown ∧ m ≠ .call .waitIdle) :
    ∃ m₁ m₂ θ' η', Filters S gates θ θ' w v m m₁ ∧ Filters T gates η η' w u m m₂ ∧
      Split S T (w.gatesAfter gates m) θ' η' (w.move m) (v.move m₁) (u.move m₂) := by
  obtain ⟨m₁, θ', hl⟩ := h.mirrors hST hw hheeds hv hgo
  obtain ⟨m₂, η', hr⟩ := h.swap.mirrors hST.symm hw hheeds hu hgo
  refine ⟨m₁, m₂, θ', η', hl.filters, hr.filters, ?_⟩
  obtain ⟨O, -, hleft⟩ := hl.alike
  obtain ⟨O', -, hright⟩ := hr.alike
  refine
    { left := hleft.estranged
      right := hright.estranged
      shared := h.move_shared hST hw hm hgo hl hr
      covered := h.move_covered hST hm hl hr
      pumps := fun id ph s hph hs => ?_
      gatesLeft := hl.housed h.left h.gatesLeft fun _ _ => h.gate_lt hST
      gatesRight := hr.housed h.right h.gatesRight fun _ _ => h.gate_lt hST }
  rcases pumping_cases hw hph hs with ⟨ph₀, hph₀, hs₀⟩ | ⟨rfl, rfl, rfl⟩
  · exact (h.pumps id ph₀ s hph₀ hs₀).imp (fun ⟨b, hb⟩ => ⟨b, hl.filters.grows _ _ hb⟩) fun ⟨c, hc⟩ => ⟨c, hr.filters.grows _ _ hc⟩
  · have hlive : ((w.move .attachStream).tasks.live.get? w.tasks.next).isSome := by
      obtain ⟨t, ht, -⟩ := Option.map_eq_some_iff.1 hph
      rw [ht]
      rfl
    exact ⟨(hl.arrivals nofun _ hlive).resolve_right (lt_irrefl _), (hr.arrivals nofun _ hlive).resolve_right (lt_irrefl _)⟩

end LiveFiles.Engine
