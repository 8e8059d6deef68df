/-
Runs side by side. Engines that nobody has used are alike (`Alike.start`). When a task of one world gets the floor, and so does the
task that it stands for, the worlds are alike afterwards (`Alike.after_serve`), and so they are when what happens from outside is alike
(`Alike.happen`).
-/
import LiveFiles.Proofs.Lockstep

namespace LiveFiles.Engine

variable {S : Scope} {O : Tag → Prop} {θ θ' : Pairing} {w v : World} {p p' : Path} {a b : TaskId}

/-! ## Runs that have not begun -/

/-- the pairing of runs that have not begun -/
def Pairing.outset : Pairing := fun x y => x = .date .epoch ∧ y = .date .epoch

/-- **Engines that nobody has used are alike.** -/
theorem Alike.start (S : Scope) (policy : WritePolicy) :
    Alike S (fun _ => False) .outset (World.start policy) (World.start policy) where
  counts _ := rfl
  files _ _ := .none
  diskCalls _ _ := .none
  failures _ _ := .none
  gateFor _ _ := .none
  gateTable _ := rfl
  underWay _ _ := .none
  mostUnderWay _ _ := .none
  refused _ _ := Iff.rfl
  calls := .nil
  attempts := .nil
  policy := rfl
  entries _ _ := .none
  keys _ := rfl
  rank _ := rfl
  slots _ _ := .none
  closed := rfl
  active _ := rfl
  isShutDown := rfl
  channels _ _ := .none
  nextSubscriber := rfl
  streams _ _ := .none
  nextStream := rfl
  pump := .none
  floor := nofun
  tasks _ := ⟨.nil, rfl, rfl⟩
  fit := by
    refine ⟨?_, ?_, fun _ _ _ => id, ⟨rfl, rfl⟩, ?_⟩
    · rintro _ _ _ _ ⟨rfl, rfl⟩ ⟨rfl, rfl⟩
      exact ⟨fun _ => rfl, fun _ => rfl⟩
    · rintro _ _ _ ⟨rfl, rfl⟩
      rfl
    · rintro _ _ _ _ ⟨ht, hu⟩ ⟨ht', hu'⟩
      cases ht
      cases hu
      cases ht'
      cases hu'
      exact Iff.rfl
  made := by
    rintro _ _ ⟨rfl, rfl⟩
    have hpast : Instant.epoch.nanos ≤ (Instant.ofMillis (World.start policy).counts.clock).nanos := by
      change (0 : Int) ≤ ((1000 : Nat) : Int) * 1000000
      decide
    exact ⟨hpast, hpast⟩
  others _ := False.elim
  gates := nofun
  locks := nofun
  elsewhere := nofun
  given := nofun
  old := ⟨nofun, nofun⟩
  live := nofun
  covered := ⟨nofun, nofun⟩
  endings := nofun
  ended := ⟨nofun, nofun⟩

/-! ## Sections -/

/-- **What is recorded of sections that are alike is alike.** -/
theorem Alike.after (h : Alike S O θ w v) (hab : θ.on .task a b) {x y : Section Phase Unit}
    (hxy : SectionAlike (PhaseAlike S θ) (fun _ _ => True) x y) :
    Alike S O θ (World.after a (w, x)) (World.after b (v, y)) := by
  have hphase : ∀ {ph ph'}, PhaseAlike S θ ph ph' →
      Alike S O θ { w with tasks := { w.tasks with live := w.tasks.live.modify a fun t => { t with phase := ph } } }
        { v with tasks := { v.tasks with live := v.tasks.live.modify b fun t => { t with phase := ph' } } } := fun hph =>
    h.modifyTask hab fun _ _ ht => ⟨hph, ht.cancelled⟩
  cases hxy with
  | go hph => exact hphase hph
  | wait hph =>
    have hmodified := hphase hph
    exact hmodified.withTasks rfl rfl nofun (fun hS => { hmodified.tasks hS with floor := rfl }) hmodified.live hmodified.covered
  | pause hph =>
    have hmodified := hphase hph
    refine hmodified.withTasks rfl rfl nofun (fun hS => ?_) hmodified.live hmodified.covered
    have htasks := hmodified.tasks hS
    obtain rfl : a = b := Tag.task.inj (h.fit.same hS _ _ hab)
    exact ⟨htasks.rows, congrArg (· ++ [a]) htasks.ready, rfl⟩
  | ended => exact h.eraseTask hab

theorem Alike.after_floorTo (h : Alike S O θ w v) (hab : θ.on .task a b) (hw : canGo w a = true) (hv : canGo v b = true) :
    Alike S O θ (floorTo w a) (floorTo v b) := by
  rw [canGo_eq] at hw hv
  unfold floorTo
  cases hf : w.tasks.floor with
  | some x =>
    rw [hf] at hw
    obtain rfl : x = a := of_decide_eq_true hw
    cases hf' : v.tasks.floor with
    | some y => exact h
    | none =>
      refine h.withTasks rfl rfl ?_ (fun hS => ?_) h.live h.covered
      · rintro y hy
        cases hy
        exact ⟨x, hab, hf⟩
      · have hfloor := (h.tasks hS).floor
        rw [hf, hf'] at hfloor
        cases hfloor
  | none =>
    cases hf' : v.tasks.floor with
    | some y =>
      obtain ⟨x, -, hx⟩ := h.floor y hf'
      cases hf.symm.trans hx
    | none =>
      refine h.withTasks rfl rfl ?_ (fun hS => ?_) h.live h.covered
      · rintro y hy
        cases hy
        exact ⟨a, hab, rfl⟩
      · obtain rfl : a = b := Tag.task.inj (h.fit.same hS _ _ hab)
        exact ⟨(h.tasks hS).rows, congrArg (List.erase · a) (h.tasks hS).ready, rfl⟩

/-- nobody has the floor -/
theorem Alike.leaveFloor (h : Alike S O θ w v) :
    Alike S O θ { w with tasks := { w.tasks with floor := none } } { v with tasks := { v.tasks with floor := none } } :=
  h.withTasks rfl rfl nofun (fun hS => ⟨(h.tasks hS).rows, (h.tasks hS).ready, rfl⟩) h.live h.covered

/-- **Sections of tasks that stand for each other keep worlds alike.** -/
theorem Alike.after_serve (h : Alike S O θ w v) (hab : θ.on .task a b) (hw : canGo w a = true) (hv : canGo v b = true)
    (hnext : ∀ t s, w.tasks.live.get? a = some t → t.cancelled = false → t.phase.activity = .pumping s → w.NextSeen S s) :
    ∃ θ', θ ≤ θ' ∧ Alike S O θ' (serve w a) (serve v b) := by
  have hfloor := h.after_floorTo hab hw hv
  have hlive := h.live a b hab
  cases ht : w.tasks.live.get? a <;> cases ht' : v.tasks.live.get? b <;> rw [ht, ht'] at hlive
  case none.some => cases hlive
  case some.none => cases hlive
  case none.none =>
    rw [serve_of_ended hw ht, serve_of_ended hv ht']
    exact ⟨θ, le_rfl, hfloor.leaveFloor⟩
  case some.some t t' =>
    have htask : TaskAlike S θ t t' := by
      cases hlive with
      | some h => exact h
    have hserved : w.served? a = some t := by rw [World.served?, if_pos hw, ht]
    have hserved' : v.served? b = some t' := by rw [World.served?, if_pos hv, ht']
    cases hc : t.cancelled with
    | true =>
      have hc' : t'.cancelled = true := htask.cancelled.symm.trans hc
      obtain ⟨θ', hle, hdropped⟩ := (hfloor.eraseTask hab).abandon htask.phase.activity
      rw [serve_of_cancelled hserved hc, serve_of_cancelled hserved' hc', ← htask.phase.role]
      exact ⟨θ', hle, hdropped.finish (hle _ _ hab) _ .cancelled⟩
    | false =>
      have hc' : t'.cancelled = false := htask.cancelled.symm.trans hc
      rw [serve_of_section hserved hc, serve_of_section hserved' hc']
      obtain ⟨θ', hle, hstep, hsection⟩ := hfloor.step htask.phase.activity fun s hs => by
        have hseen := hnext t s ht hc hs
        unfold World.NextSeen at hseen ⊢
        unfold floorTo
        split <;> exact hseen
      refine ⟨θ', hle, ?_⟩
      unfold World.advance
      generalize (floorTo w a).step t.phase.activity = x at hstep hsection
      generalize (floorTo v b).step t'.phase.activity = y at hstep hsection
      obtain ⟨w', x⟩ := x
      obtain ⟨v', y⟩ := y
      cases hsection with
      | go ha => exact hstep.after (hle _ _ hab) (.go ⟨htask.phase.role, ha⟩)
      | wait ha => exact hstep.after (hle _ _ hab) (.wait ⟨htask.phase.role, ha⟩)
      | pause ha => exact hstep.after (hle _ _ hab) (.pause ⟨htask.phase.role, ha⟩)
      | ended ho =>
        rw [← htask.phase.role]
        exact (hstep.finish (hle _ _ hab) _ (.returned ho)).after (hle _ _ hab) (.ended trivial)

/-! ## What happens from outside -/

/-- what happens from outside happens alike -/
inductive Happens (S : Scope) (θ : Pairing) (w : World) : Move → Move → Prop
  | call {y y' : Request} (h : RequestAlike S y y') : Happens S θ w (.call y) (.call y')
  | cancel {a b : TaskId} (h : θ.on .task a b) : Happens S θ w (.cancel a) (.cancel b)
  | putFile {p p' : Path} (h : S.path p p') (bytes : ByteArray) : Happens S θ w (.putFile p bytes) (.putFile p' bytes)
  | removeFile {p p' : Path} (h : S.path p p') : Happens S θ w (.removeFile p) (.removeFile p')
  | touch {p p' : Path} (h : S.path p p') : Happens S θ w (.touch p) (.touch p')
  | orderFailure (op : DiskOp) {p p' : Path} (h : S.path p p') (message : String) :
      Happens S θ w (.orderFailure op p message) (.orderFailure op p' message)
  | clearFailure (op : DiskOp) {p p' : Path} (h : S.path p p') : Happens S θ w (.clearFailure op p) (.clearFailure op p')
  | hold (op : DiskOp) {p p' : Path} (h : S.path p p') : Happens S θ w (.hold op p) (.hold op p')
  | openGate {g g' : GateId} (h : θ.on .gate g g') : Happens S θ w (.openGate g) (.openGate g')
  | refuseArming {p p' : Path} (h : S.path p p') : Happens S θ w (.refuseArming p) (.refuseArming p')
  | permitArming {p p' : Path} (h : S.path p p') : Happens S θ w (.permitArming p) (.permitArming p')
  | rearrange (rank : Path.Key → Nat) : Happens S θ w (.rearrange rank) (.rearrange rank)
  | newSubscriber : Happens S θ w .newSubscriber .newSubscriber
  | drain (x : SubscriberId) : Happens S θ w (.drain x) (.drain x)
  /-- what is read can be seen -/
  | tryRead (x : SubscriberId) (h : ∀ s ∈ (w.tryRead x).1, S.seen s.path.key = true) : Happens S θ w (.tryRead x) (.tryRead x)
  | closeSubscriber (x : SubscriberId) : Happens S θ w (.closeSubscriber x) (.closeSubscriber x)
  | dropSubscriber (x : SubscriberId) : Happens S θ w (.dropSubscriber x) (.dropSubscriber x)
  | notifyChange {p p' : Path} (h : S.path p p') : Happens S θ w (.notifyChange p) (.notifyChange p')
  | attachStream : Happens S θ w .attachStream .attachStream
  | sendEvent (s : StreamId) {ev ev' : Event} (h : EventAlike S ev ev') : Happens S θ w (.sendEvent s ev) (.sendEvent s ev')
  | closeStream (s : StreamId) : Happens S θ w (.closeStream s) (.closeStream s)

theorem RequestAlike.isPublic {y y' : Request} (h : RequestAlike S y y') : y.isPublic = y'.isPublic := by
  cases h <;> rfl

theorem Alike.touch (h : Alike S O θ w v) (hp : S.path p p') :
    Alike S O (θ.also (nextDate w.disk.clock) (nextDate v.disk.clock)) (w.onDisk (·.touch p)) (v.onDisk (·.touch p')) := by
  have htick := h.tick
  unfold World.onDisk Disk.touch
  rw [← S.key hp]
  exact { htick with files := htick.files.modify p.key fun f f' hf => ⟨hf.bytes, θ.also_self (nextDate _) (nextDate _)⟩ }

/-- **Gates that are put up alike stand for each other.** -/
theorem Alike.hold (h : Alike S O θ w v) (op : DiskOp) (hp : S.path p p') :
    Alike S O (θ.also (.gate w.disk.nextGate) (.gate v.disk.nextGate)) (w.onDisk fun d => (d.hold op p).2)
      (v.onDisk fun d => (d.hold op p').2) := by
  have hlater : ∀ c : Counts, c.Later { c with gate := c.gate + 1 } := fun c =>
    ⟨le_rfl, le_rfl, le_rfl, le_rfl, le_rfl, Nat.le_succ _, le_rfl⟩
  have hfresh := h.fresh (x := .gate w.disk.nextGate) (y := .gate v.disk.nextGate) (lt_irrefl _) (lt_irrefl _)
  have hput : Alike S O θ
      (w.onDisk fun d => { d with nextGate := d.nextGate + 1, gates := d.gates.insert d.nextGate {} })
      (v.onDisk fun d => { d with nextGate := d.nextGate + 1, gates := d.gates.insert d.nextGate {} }) :=
    { h with
      counts := fun hS => congrArg (fun c => { c with gate := c.gate + 1 }) (h.counts hS)
      gateTable := fun hS => by
        have hsame : w.disk.nextGate = v.disk.nextGate := congrArg Counts.gate (h.counts hS)
        change w.disk.gates.insert w.disk.nextGate {} = v.disk.gates.insert v.disk.nextGate {}
        rw [h.gateTable hS, hsame]
      made := h.made_mono (hlater _) (hlater _)
      others := h.others_mono (hlater _)
      gates := fun a b hab => by
        have hne := hfresh.1 _ _ hab
        have ha : w.disk.nextGate ≠ a := fun ha => hne.1 (congrArg Tag.gate ha.symm)
        have hb : v.disk.nextGate ≠ b := fun hb => hne.2 (congrArg Tag.gate hb.symm)
        unfold World.onDisk
        dsimp only
        rw [Table.get?_insert, Table.get?_insert, if_neg ha, if_neg hb]
        exact h.gates a b hab }
  have hgates : Newcomers S θ (w.onDisk fun d => { d with nextGate := d.nextGate + 1, gates := d.gates.insert d.nextGate {} })
      (v.onDisk fun d => { d with nextGate := d.nextGate + 1, gates := d.gates.insert d.nextGate {} })
      (.gate w.disk.nextGate) (.gate v.disk.nextGate) := by
    unfold Newcomers World.onDisk
    dsimp only
    rw [Table.get?_insert, Table.get?_insert, if_pos rfl, if_pos rfl]
    exact .some rfl
  have hnew := hput.also ⟨Nat.lt_succ_self _, Nat.lt_succ_self _⟩ hfresh.1 hfresh.2
    (fun hS => congrArg (fun c => Tag.gate c.gate) (h.counts hS)) hgates
  unfold World.onDisk at hnew
  unfold World.onDisk Disk.hold
  rw [← S.key hp]
  exact { hnew with gateFor := hnew.gateFor.insert _ (θ.also_self _ _) }

theorem Alike.openGate (h : Alike S O θ w v) {g g' : GateId} (hg : θ.on .gate g g') :
    Alike S O θ (w.openGate g) (v.openGate g') := by
  have hopen : Alike S O θ { w with disk := w.disk.openGate g } { v with disk := v.disk.openGate g' } :=
    { h with
      gates := h.modifyGate hg fun _ _ _ => rfl
      gateTable := fun hS => by
        obtain rfl : g = g' := Tag.gate.inj (h.fit.same hS _ _ hg)
        exact congrArg (fun gates => Table.modify gates g fun x => { x with isOpen := true }) (h.gateTable hS) }
  exact hopen.wake (.gate hg)

theorem Alike.newSubscriber (h : Alike S O θ w v) : Alike S O θ w.newSubscriber.2 v.newSubscriber.2 := by
  unfold World.newSubscriber
  rw [← h.nextSubscriber]
  exact { h with channels := h.channels.insert _ ⟨.nil, rfl, rfl, rfl⟩, nextSubscriber := rfl }

/-- what is read from a channel at once is what can be seen of it -/
theorem Alike.drain (h : Alike S O θ w v) (x : SubscriberId) :
    Alike S O θ (w.drain x).2 (v.drain x).2 ∧
      List.Forall₂ (SnapshotAlike S θ) ((w.drain x).1.filter fun s => S.seen s.path.key) (v.drain x).1 := by
  have hchannel := h.channels x trivial
  unfold World.drain
  cases hc : w.channels.get? x <;> cases hc' : v.channels.get? x <;> rw [hc, hc'] at hchannel
  case none.some => cases hchannel
  case some.none => cases hchannel
  case none.none => exact ⟨h, .nil⟩
  case some.some c c' =>
    cases hchannel with
    | some hc => exact ⟨{ h with channels := h.channels.insert x ⟨.nil, hc.isOpen, hc.receiver, hc.sender⟩ }, hc.buffer⟩

theorem Alike.tryRead (h : Alike S O θ w v) (x : SubscriberId) (hseen : ∀ s ∈ (w.tryRead x).1, S.seen s.path.key = true) :
    Alike S O θ (w.tryRead x).2 (v.tryRead x).2 ∧ Option.Rel (SnapshotAlike S θ) (w.tryRead x).1 (v.tryRead x).1 := by
  have hchannel := h.channels x trivial
  unfold World.tryRead at hseen ⊢
  cases hc : w.channels.get? x <;> cases hc' : v.channels.get? x <;> rw [hc, hc'] at hchannel
  case none.some => cases hchannel
  case some.none => cases hchannel
  case none.none => exact ⟨h, .none⟩
  case some.some c c' =>
    obtain halike : ChannelAlike _ _ c c' := by
      cases hchannel with
      | some hc => exact hc
    have hnext : ∀ s ∈ c.buffer.head?, S.seen s.path.key = true := by
      intro s hs
      obtain ⟨b, o, r, y⟩ := c
      cases b with
      | nil => cases hs
      | cons m rest =>
        rw [hc] at hseen
        exact hseen s hs
    obtain ⟨hreading, hrest⟩ := halike.read hnext
    dsimp only
    generalize c.read = y at hreading hrest
    generalize c'.read = y' at hreading hrest
    obtain ⟨y, d⟩ := y
    obtain ⟨y', d'⟩ := y'
    cases hreading with
    | message hs => exact ⟨{ h with channels := h.channels.insert x hrest }, .some hs⟩
    | ended => exact ⟨h, .none⟩
    | nothing => exact ⟨h, .none⟩

theorem Alike.closeSubscriber (h : Alike S O θ w v) (x : SubscriberId) :
    Alike S O θ (w.closeSubscriber x) (v.closeSubscriber x) := by
  have hclosed : Alike S O θ { w with channels := w.channels.modify x fun c => c.close }
      { v with channels := v.channels.modify x fun c => c.close } :=
    { h with channels := h.channels.modify x fun _ _ hc => ⟨hc.buffer, rfl, hc.receiver, hc.sender⟩ }
  exact hclosed.wake (.farewell x)

theorem Alike.dropSubscriber (h : Alike S O θ w v) (x : SubscriberId) :
    Alike S O θ (w.dropSubscriber x) (v.dropSubscriber x) := by
  have hdropped : Alike S O θ { w with channels := w.channels.modify x fun c => c.dropReceiver }
      { v with channels := v.channels.modify x fun c => c.dropReceiver } :=
    { h with channels := h.channels.modify x fun _ _ hc => ⟨.nil, rfl, rfl, hc.sender⟩ }
  exact hdropped.wake (.farewell x)

/-- a world with one stream more -/
def World.withStream (w : World) (s : StreamId) : World :=
  { w with streams := w.streams.insert s {}, nextStream := s + 1 }

theorem Alike.attachStream (h : Alike S O θ w v) :
    Alike S O (θ.also (.task w.tasks.next) (.task v.tasks.next)) w.attachStream.2 v.attachStream.2 := by
  have hstream : ∀ s : StreamId, Alike S O θ (w.withStream s) (v.withStream s) := fun s =>
    { h with streams := h.streams.insert _ ⟨.nil, rfl, rfl, rfl⟩, nextStream := rfl }
  have hspawn := fun s => (hstream s).spawn .service (.pumping s)
  have hself : (θ.also (.task w.tasks.next) (.task v.tasks.next)).on .task w.tasks.next v.tasks.next := θ.also_self _ _
  have hpumped : ∀ s : StreamId, Alike S O (θ.also (.task w.tasks.next) (.task v.tasks.next))
      { ((w.withStream s).spawn .service (.pumping s)).2 with pump := some w.tasks.next }
      { ((v.withStream s).spawn .service (.pumping s)).2 with pump := some v.tasks.next } := fun s =>
    { hspawn s with pump := .some hself }
  have hold : Option.Rel ((θ.also (.task w.tasks.next) (.task v.tasks.next)).on .task) w.pump v.pump :=
    rel_mono h.pump fun _ _ hx => Or.inl hx
  unfold World.attachStream
  rw [← h.nextStream]
  exact (hpumped w.nextStream).cancelIf hold

theorem Alike.sendEvent (h : Alike S O θ w v) (s : StreamId) {ev ev' : Event} (hev : EventAlike S ev ev') :
    Alike S O θ (w.sendEvent s ev).2 (v.sendEvent s ev').2 := by
  have hstream := h.streams s trivial
  unfold World.sendEvent
  cases hc : w.streams.get? s <;> cases hc' : v.streams.get? s <;> rw [hc, hc'] at hstream
  case none.some => cases hstream
  case some.none => cases hstream
  case none.none => exact h
  case some.some c c' =>
    obtain hc : ChannelAlike _ _ c c' := by
      cases hstream with
      | some hc => exact hc
    dsimp only
    rw [← hc.isOpen]
    split
    · have hsent : Alike S O θ { w with streams := w.streams.insert s (c.send ev) }
          { v with streams := v.streams.insert s (c'.send ev') } :=
        { h with streams := h.streams.insert s (hc.send hev (S.visible hev.path)) }
      exact hsent.wake (.message s)
    · exact h

theorem Alike.closeStream (h : Alike S O θ w v) (s : StreamId) : Alike S O θ (w.closeStream s) (v.closeStream s) := by
  have hclosed : Alike S O θ { w with streams := w.streams.modify s fun c => c.dropSender }
      { v with streams := v.streams.modify s fun c => c.dropSender } :=
    { h with streams := h.streams.modify s fun _ _ hc => ⟨hc.buffer, hc.isOpen, hc.receiver, rfl⟩ }
  exact hclosed.wake (.message s)

/-- the numbers that a move gives to a call or a gate stand for each other -/
structure Introduced (θ : Pairing) (w v : World) (m : Move) : Prop where
  call : ∀ r, m = .call r → r.isPublic = true → θ.on .task w.tasks.next v.tasks.next
  gate : ∀ op p, m = .hold op p → θ.on .gate w.disk.nextGate v.disk.nextGate

/-- **What happens alike keeps worlds alike.** -/
theorem Alike.happen (h : Alike S O θ w v) {m m' : Move} (hm : Happens S θ w m m') :
    ∃ θ', θ ≤ θ' ∧ Alike S O θ' (w.move m) (v.move m') ∧ Introduced θ' w v m := by
  cases hm with
  | call hy =>
    unfold World.move
    dsimp only
    rw [← hy.isPublic]
    split
    · exact ⟨_, θ.le_also _ _, h.spawn .caller (.starting hy), fun _ _ _ => θ.also_self _ _, nofun⟩
    · next hno =>
      refine ⟨θ, le_rfl, h, fun r hr hpublic => ?_, nofun⟩
      cases hr
      exact absurd hpublic hno
  | cancel hab => exact ⟨θ, le_rfl, h.cancel hab, nofun, nofun⟩
  | putFile hp bytes => exact ⟨_, θ.le_also _ _, h.putFile hp bytes, nofun, nofun⟩
  | @removeFile p p' hp =>
    refine ⟨θ, le_rfl, ?_, nofun, nofun⟩
    change Alike S O θ (w.onDisk fun d => { d with files := d.files.erase p.key })
      (v.onDisk fun d => { d with files := d.files.erase p'.key })
    rw [← S.key hp]
    exact { h with files := h.files.erase p.key }
  | touch hp => exact ⟨_, θ.le_also _ _, h.touch hp, nofun, nofun⟩
  | @orderFailure op p p' hp message =>
    refine ⟨θ, le_rfl, ?_, nofun, nofun⟩
    change Alike S O θ (w.onDisk fun d => { d with failures := d.failures.insert (op, p.key) message })
      (v.onDisk fun d => { d with failures := d.failures.insert (op, p'.key) message })
    rw [← S.key hp]
    exact { h with failures := h.failures.insert _ rfl }
  | @clearFailure op p p' hp =>
    refine ⟨θ, le_rfl, ?_, nofun, nofun⟩
    change Alike S O θ (w.onDisk fun d => { d with failures := d.failures.erase (op, p.key) })
      (v.onDisk fun d => { d with failures := d.failures.erase (op, p'.key) })
    rw [← S.key hp]
    exact { h with failures := h.failures.erase _ }
  | hold op hp => exact ⟨_, θ.le_also _ _, h.hold op hp, nofun, fun _ _ _ => θ.also_self _ _⟩
  | openGate hg => exact ⟨θ, le_rfl, h.openGate hg, nofun, nofun⟩
  | @refuseArming p p' hp =>
    refine ⟨θ, le_rfl, { h with refused := fun k hk => ?_ }, nofun, nofun⟩
    change k ∈ p.key :: w.watcher.refused ↔ k ∈ p'.key :: v.watcher.refused
    rw [List.mem_cons, List.mem_cons, ← S.key hp]
    exact or_congr_right (h.refused k hk)
  | @permitArming p p' hp =>
    refine ⟨θ, le_rfl, { h with refused := fun k hk => ?_ }, nofun, nofun⟩
    change k ∈ w.watcher.refused.filter (· ≠ p.key) ↔ k ∈ v.watcher.refused.filter (· ≠ p'.key)
    rw [List.mem_filter, List.mem_filter, ← S.key hp]
    exact and_congr_left' (h.refused k hk)
  | rearrange rank => exact ⟨θ, le_rfl, { h with rank := fun _ => rfl }, nofun, nofun⟩
  | newSubscriber => exact ⟨θ, le_rfl, h.newSubscriber, nofun, nofun⟩
  | drain x => exact ⟨θ, le_rfl, (h.drain x).1, nofun, nofun⟩
  | tryRead x hseen => exact ⟨θ, le_rfl, (h.tryRead x hseen).1, nofun, nofun⟩
  | closeSubscriber x => exact ⟨θ, le_rfl, h.closeSubscriber x, nofun, nofun⟩
  | dropSubscriber x => exact ⟨θ, le_rfl, h.dropSubscriber x, nofun, nofun⟩
  | notifyChange hp =>
    obtain ⟨θ', hle, hin⟩ := h.inBackground (.reconcile hp)
    exact ⟨θ', hle, hin, nofun, nofun⟩
  | attachStream => exact ⟨_, θ.le_also _ _, h.attachStream, nofun, nofun⟩
  | sendEvent s hev => exact ⟨θ, le_rfl, h.sendEvent s hev, nofun, nofun⟩
  | closeStream s => exact ⟨θ, le_rfl, h.closeStream s, nofun, nofun⟩

end LiveFiles.Engine
