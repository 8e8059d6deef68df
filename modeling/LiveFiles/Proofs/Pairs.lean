/-
Pairs of a subscriber and its receiver, in a session in which everything goes on in any order. A command is about one
pair at most (`World.target?`).
- It leaves the other pairs as they are and changes that one as `Command.effect` says (`get?_command`).
- To the messages of that one it does one of a few things (`Turned`, `turned_command`): it puts one in line, hands out some
  of those in front, closes the receiver or drops it.
- A task that is served leaves, or everything stays as it is (`Settled`, `settled_served`).
- After any moves, a pair is kept by as many tasks as wait for it, and its sending end exists as long as it is held by its
  name or by one of them (`kept_trace`).
-/
import LiveFiles.Proofs.Holdings
import LiveFiles.Proofs.Serving
import LiveFiles.Session.Channels

namespace LiveFiles.Session.Channels

/-- the pair that a command is about -/
def World.target? (w : World) : Command → Option SubscriberId
  | .new name => (w.pair? name).map (·.subscriberId)
  | .notify name _ | .dropSubscriber name | .closed name _ => (w.subscriber? name).map (·.subscriberId)
  | .drain name | .tryRead name | .read name | .close name | .dropReceiver name => (w.receiver? name).map Prod.fst

/-- the pair that a name lets go of -/
def Pair.released (x : Pair) : Pair := { x with channel := x.channel.dropReceiver }.letGo

/-- what a command does to the pair that it is about -/
def Command.effect (x : Pair) : Command → Pair
  | .new _ => x.released
  | .notify _ s => { x with channel := x.channel.send s }
  | .drain _ => { x with channel := x.channel.drain.2 }
  | .tryRead _ | .read _ => { x with channel := x.channel.read.2 }
  | .close _ => { x with channel := x.channel.close }
  | .dropReceiver _ => { x with channel := x.channel.dropReceiver }
  | .dropSubscriber _ => x.letGo
  | .closed .. => x.keep

/-- what a command tells the subscriber -/
def Command.messages : Command → List Snapshot
  | .notify _ s => [s]
  | .new _ | .drain _ | .tryRead _ | .read _ | .close _ | .dropReceiver _ | .dropSubscriber _ | .closed .. => []

/-- the command closes or drops the receiver -/
def Command.hangsUp : Command → Bool
  | .close _ | .dropReceiver _ | .new _ => true
  | .notify .. | .drain _ | .tryRead _ | .read _ | .dropSubscriber _ | .closed .. => false

/-- the snapshots that a reply hands out -/
def Reply.snapshots? : Reply → List Snapshot
  | .snapshot s => [s]
  | .snapshots ss => ss
  | .flag _ | .made .. | .nothing | .ended | .wouldWait | .noReceiver => []

/-- What can be done to a channel, with the messages sent and handed out by it and whether the receiver is closed. -/
inductive Turned (c c' : Channel Snapshot) : List Snapshot → List Snapshot → Bool → Prop
  | sent (s : Snapshot) : c'.buffer = (c.send s).buffer → c'.isOpen = c.isOpen → c'.receiver = c.receiver →
    Turned c c' [s] [] false
  | handed {got : List Snapshot} : got ++ c'.buffer = c.buffer → c'.isOpen = c.isOpen → c'.receiver = c.receiver →
    (got = [] ∨ c.receiver = true) → Turned c c' [] got false
  | closed : c'.buffer = c.buffer → c'.isOpen = false → c'.receiver = c.receiver → Turned c c' [] [] true
  | dropped : c'.isOpen = false → c'.receiver = false → Turned c c' [] [] true

/-- the sending end exists while anybody has the subscriber, and a receiver that is dropped is closed -/
structure Pair.Sound (x : Pair) : Prop where
  sender : x.channel.sender = (x.held || decide (0 < x.keepers))
  gone : x.channel.receiver = false → x.channel.isOpen = false

/-- the tasks that wait for the receivers of pairs, pair by pair -/
def World.waits (w : World) : List SubscriberId := Tasks.gather (fun p : Phase => some p.pair) w.tasks.live

/-- what holds after any moves -/
structure Kept (w : World) : Prop where
  id : ∀ id x, w.pairs.get? id = some x → x.subscriberId = id
  lt : ∀ id x, w.pairs.get? id = some x → id.number < w.nextId
  sound : ∀ id x, w.pairs.get? id = some x → x.Sound
  keepers : ∀ id, w.waits.count id = ((w.pairs.get? id).map Pair.keepers).getD 0
  numbered : w.tasks.Numbered

variable {w w' : World} {id j : SubscriberId} {t : TaskId} {ts : Tasks Phase} {name : String} {x y : Pair}
  {c : Channel Snapshot}

theorem Turned.stays {c c' : Channel Snapshot} (hb : c'.buffer = c.buffer) (ho : c'.isOpen = c.isOpen)
    (hr : c'.receiver = c.receiver) : Turned c c' [] [] false := .handed hb ho hr (Or.inl rfl)

/-! ## Names -/

theorem of_pair? (h : Kept w) (hx : w.pair? name = some x) : w.pairs.get? x.subscriberId = some x := by
  obtain ⟨id, -, hget⟩ := Option.bind_eq_some_iff.1 hx
  rwa [h.id id x hget]

theorem of_subscriber? (h : Kept w) (hx : w.subscriber? name = some x) :
    w.pairs.get? x.subscriberId = some x ∧ x.held = true := by
  obtain ⟨hpair, hheld⟩ := Option.filter_eq_some_iff.1 hx
  exact ⟨of_pair? h hpair, hheld⟩

theorem of_receiver? (h : Kept w) (hc : w.receiver? name = some (id, c)) :
    ∃ x, w.pairs.get? id = some x ∧ x.channel = c ∧ c.receiver = true := by
  obtain ⟨x, hx, hpair⟩ := Option.map_eq_some_iff.1 hc
  obtain ⟨hx, hreceiver⟩ := Option.filter_eq_some_iff.1 hx
  cases hpair
  exact ⟨x, of_pair? h hx, rfl, hreceiver⟩

/-- the pair that a command is about exists -/
theorem exists_target (h : Kept w) {c : Command} (hc : w.target? c = some id) : ∃ x, w.pairs.get? id = some x := by
  cases c with
  | new name =>
    obtain ⟨x, hx, rfl⟩ := Option.map_eq_some_iff.1 hc
    exact ⟨x, of_pair? h hx⟩
  | notify name | dropSubscriber name | closed name =>
    obtain ⟨x, hx, rfl⟩ := Option.map_eq_some_iff.1 hc
    exact ⟨x, (of_subscriber? h hx).1⟩
  | drain name | tryRead name | read name | close name | dropReceiver name =>
    obtain ⟨⟨k, d⟩, hk, rfl⟩ := Option.map_eq_some_iff.1 hc
    obtain ⟨x, hx, -⟩ := of_receiver? h hk
    exact ⟨x, hx⟩

/-! ## Commands -/

/-- the channel of one pair is replaced -/
theorem get?_setChannel {k : SubscriberId} (hx : w.pairs.get? k = some x) {f : Pair → Pair}
    (hf : f x = { x with channel := c }) (j : SubscriberId) : (w.setChannel k c).pairs.get? j =
      if some k = some j then (w.pairs.get? j).map f else w.pairs.get? j := by
  refine (Table.get?_modify _ _ _ _).trans ?_
  by_cases e : k = j
  · subst e
    rw [if_pos rfl, if_pos rfl, hx, Option.map_some, Option.map_some, hf]
  · rw [if_neg e, if_neg (by simpa using e)]

/-- one pair is changed -/
theorem get?_modify (w : World) (k : SubscriberId) (f : Pair → Pair) (j : SubscriberId) :
    (w.pairs.modify k f).get? j = if some k = some j then (w.pairs.get? j).map f else w.pairs.get? j := by
  refine (Table.get?_modify _ _ _ _).trans ?_
  simp only [Option.some.injEq]

theorem get?_release (h : Kept w) (name : String) (j : SubscriberId) : (release w name).pairs.get? j =
    if (w.pair? name).map (·.subscriberId) = some j then (w.pairs.get? j).map Pair.released else w.pairs.get? j := by
  unfold release
  cases hx : w.pair? name with
  | none => rfl
  | some x =>
    refine (Table.get?_insert _ _ _ _).trans ?_
    change (if x.subscriberId = j then some x.released else w.pairs.get? j) = if some x.subscriberId = some j then _ else _
    by_cases e : x.subscriberId = j
    · rw [if_pos e, if_pos (congrArg some e), ← e, of_pair? h hx, Option.map_some]
    · rw [if_neg e, if_neg (by simpa using e)]

/-- one message is read, if there is one -/
theorem get?_read (h : Kept w) {c : Command} (hc : c = .read name ∨ c = .tryRead name) (j : SubscriberId) :
    (command w c).1.pairs.get? j = if w.target? c = some j then (w.pairs.get? j).map (c.effect ·) else w.pairs.get? j := by
  have htarget : w.target? c = (w.receiver? name).map Prod.fst := by rcases hc with rfl | rfl <;> rfl
  have heffect : ∀ x, c.effect x = { x with channel := x.channel.read.2 } := by rcases hc with rfl | rfl <;> exact fun _ => rfl
  rw [htarget]
  cases hk : w.receiver? name with
  | none => rcases hc with rfl | rfl <;> simp [command, hk]
  | some r =>
    obtain ⟨k, d⟩ := r
    obtain ⟨x, hx, rfl, -⟩ := of_receiver? h hk
    cases hb : x.channel.buffer with
    | nil =>
      -- nothing is there, and the channel stays as it is
      have hread : x.channel.read.2 = x.channel := by simp [Channel.read, hb]
      have hsame : c.effect x = x := by rw [heffect, hread]
      have hworld : (command w c).1 = w := by
        cases hwait : x.channel.isOpen && x.channel.sender <;>
          rcases hc with rfl | rfl <;> simp [command, hk, Channel.read, hb, hwait]
      rw [hworld, Option.map_some]
      by_cases e : k = j
      · subst e
        rw [if_pos rfl, hx, Option.map_some, hsame]
      · rw [if_neg (by simpa using e)]
    | cons s rest =>
      have hworld : (command w c).1 = w.setChannel k x.channel.read.2 := by
        rcases hc with rfl | rfl <;> simp only [command, hk, Channel.read, hb]
      rw [hworld]
      exact get?_setChannel hx (heffect x) j

/-- **A command changes the pair that it is about, and no other.** -/
theorem get?_command (h : Kept w) {c : Command} (hfresh : ∀ name, c = .new name → j ≠ ⟨w.nextId⟩) :
    (command w c).1.pairs.get? j = if w.target? c = some j then (w.pairs.get? j).map (c.effect ·) else w.pairs.get? j := by
  cases c with
  | new name =>
    have hne : (⟨w.nextId⟩ : SubscriberId) ≠ j := Ne.symm (hfresh name rfl)
    refine (Table.get?_insert _ _ _ _).trans ?_
    rw [if_neg hne]
    exact get?_release h name j
  | notify name s =>
    cases hx : w.subscriber? name with
    | none => simp [command, World.target?, hx]
    | some x =>
      simp only [command, World.target?, hx, Option.map_some]
      exact get?_setChannel (of_subscriber? h hx).1 (f := (Command.effect · (.notify name s))) rfl j
  | drain name =>
    cases hk : w.receiver? name with
    | none => simp [command, World.target?, hk]
    | some r =>
      obtain ⟨x, hx, hd, -⟩ := of_receiver? h hk
      simp only [command, World.target?, hk, Option.map_some]
      exact get?_setChannel hx (f := (Command.effect · (.drain name))) (by rw [Command.effect, hd]) j
  | tryRead name => exact get?_read h (Or.inr rfl) j
  | read name => exact get?_read h (Or.inl rfl) j
  | close name =>
    cases hk : w.receiver? name with
    | none => simp [command, World.target?, hk]
    | some r =>
      obtain ⟨x, hx, hd, -⟩ := of_receiver? h hk
      simp only [command, World.target?, hk, Option.map_some]
      exact get?_setChannel hx (f := (Command.effect · (.close name))) (by rw [Command.effect, hd]) j
  | dropReceiver name =>
    cases hk : w.receiver? name with
    | none => simp [command, World.target?, hk]
    | some r =>
      obtain ⟨x, hx, hd, -⟩ := of_receiver? h hk
      simp only [command, World.target?, hk, Option.map_some]
      exact get?_setChannel hx (f := (Command.effect · (.dropReceiver name))) (by rw [Command.effect, hd]) j
  | dropSubscriber name =>
    cases hx : w.subscriber? name with
    | none => simp [command, World.target?, hx]
    | some x =>
      simp only [command, World.target?, hx, Option.map_some]
      exact get?_modify w x.subscriberId Pair.letGo j
  | closed name task =>
    cases hx : w.subscriber? name with
    | none => simp [command, World.target?, hx]
    | some x =>
      simp only [command, World.target?, hx, Option.map_some]
      exact get?_modify w x.subscriberId Pair.keep j

/-- what is read is taken from the front -/
theorem snapshots_read {c : Command} (hc : c = .read name ∨ c = .tryRead name) {d : Channel Snapshot}
    (hk : w.receiver? name = some (id, d)) : (command w c).2.snapshots? ++ d.read.2.buffer = d.buffer := by
  cases hb : d.buffer with
  | nil =>
    cases hwait : d.isOpen && d.sender <;>
      rcases hc with rfl | rfl <;> simp [command, hk, Channel.read, hb, hwait, Reply.snapshots?]
  | cons s rest => rcases hc with rfl | rfl <;> simp [command, hk, Channel.read, hb, Reply.snapshots?]

/-- **What a command does to the messages of the pair that it is about.** -/
theorem turned_command (h : Kept w) {c : Command} (hc : w.target? c = some id) (hx : w.pairs.get? id = some x) :
    Turned x.channel (c.effect x).channel c.messages (command w c).2.snapshots? c.hangsUp := by
  have hread : ∀ {c : Command} {name}, (c = .read name ∨ c = .tryRead name) → ∀ {d}, w.receiver? name = some (id, d) →
      Turned x.channel x.channel.read.2 [] (command w c).2.snapshots? false := by
    intro c name hc d hk
    obtain ⟨y, hy, rfl, hr⟩ := of_receiver? h hk
    obtain rfl : x = y := Option.some.inj (hx.symm.trans hy)
    refine .handed (snapshots_read hc hk) ?_ ?_ (Or.inr hr) <;> unfold Channel.read <;> split <;> rfl
  cases c with
  | new name => exact .dropped rfl rfl
  | notify name s =>
    obtain ⟨y, hy, -⟩ := Option.map_eq_some_iff.1 hc
    have hreply : (command w (.notify name s)).2 = .flag true := by simp [command, hy]
    rw [hreply]
    refine .sent s rfl ?_ ?_ <;> simp only [Command.effect, Channel.send] <;> split <;> rfl
  | drain name =>
    obtain ⟨⟨k, d⟩, hk, rfl⟩ := Option.map_eq_some_iff.1 hc
    obtain ⟨y, hy, hd, hr⟩ := of_receiver? h hk
    obtain rfl : x = y := Option.some.inj (hx.symm.trans hy)
    have hreply : (command w (.drain name)).2 = .snapshots x.channel.buffer := by simp [command, hk, Channel.drain, hd]
    rw [hreply]
    exact .handed (List.append_nil _) rfl rfl (Or.inr (hd ▸ hr))
  | tryRead name =>
    obtain ⟨⟨k, d⟩, hk, rfl⟩ := Option.map_eq_some_iff.1 hc
    exact hread (Or.inr rfl) hk
  | read name =>
    obtain ⟨⟨k, d⟩, hk, rfl⟩ := Option.map_eq_some_iff.1 hc
    exact hread (Or.inl rfl) hk
  | close name =>
    obtain ⟨⟨k, d⟩, hk, -⟩ := Option.map_eq_some_iff.1 hc
    have hreply : (command w (.close name)).2 = .flag true := by simp [command, hk]
    rw [hreply]
    exact .closed rfl rfl rfl
  | dropReceiver name =>
    obtain ⟨⟨k, d⟩, hk, -⟩ := Option.map_eq_some_iff.1 hc
    have hreply : (command w (.dropReceiver name)).2 = .flag true := by simp [command, hk]
    rw [hreply]
    exact .dropped rfl rfl
  | dropSubscriber name =>
    obtain ⟨y, hy, -⟩ := Option.map_eq_some_iff.1 hc
    have hreply : (command w (.dropSubscriber name)).2 = .flag true := by simp [command, hy]
    rw [hreply]
    exact .stays rfl rfl rfl
  | closed name task =>
    obtain ⟨y, hy, -⟩ := Option.map_eq_some_iff.1 hc
    have hreply : (command w (.closed name task)).2 = .flag true := by simp [command, hy]
    rw [hreply]
    exact .stays rfl rfl rfl

/-! ## Who keeps a pair -/

theorem Pair.Sound.refresh (h : x.channel.receiver = false → x.channel.isOpen = false) : x.refresh.Sound := ⟨rfl, h⟩

theorem sound_effect (h : x.Sound) (c : Command) : (c.effect x).Sound := by
  cases c with
  | new => exact Pair.Sound.refresh fun _ => rfl
  | notify _ s =>
    simp only [Command.effect, Channel.send]
    split <;> exact ⟨h.sender, h.gone⟩
  | drain => exact ⟨h.sender, h.gone⟩
  | tryRead | read =>
    simp only [Command.effect, Channel.read]
    split <;> exact ⟨h.sender, h.gone⟩
  | close => exact ⟨h.sender, fun _ => rfl⟩
  | dropReceiver => exact ⟨h.sender, fun _ => rfl⟩
  | dropSubscriber => exact Pair.Sound.refresh h.gone
  | closed => exact Pair.Sound.refresh h.gone

theorem subscriberId_effect (x : Pair) (c : Command) : (c.effect x).subscriberId = x.subscriberId := by cases c <;> rfl

/-- a command that starts a wait makes one more task keep the pair -/
theorem keepers_effect (x : Pair) {c : Command} (hc : ∀ name task, c ≠ .closed name task) :
    (c.effect x).keepers = x.keepers := by
  cases c with
  | closed name task => exact absurd rfl (hc name task)
  | new | notify | drain | tryRead | read | close | dropReceiver | dropSubscriber => rfl

/-- commands start waits, and wake those that wait for a receiver that is closed or dropped -/
theorem tasks_command (w : World) {c : Command} (hc : ∀ name task, c ≠ .closed name task) : (command w c).1.tasks =
    match (if c.hangsUp then w.target? c else none) with
    | some id => w.tasks.wake (·.pair = id)
    | none => w.tasks := by
  cases c with
  | new name =>
    cases hx : w.pair? name with
    | none => simp [command, release, World.target?, Command.hangsUp, hx]
    | some x =>
      simp only [command, release, World.target?, Command.hangsUp, hx, wakeClosed, if_true, Option.map_some]
      rfl
  | notify name s => cases hx : w.subscriber? name <;> simp [command, Command.hangsUp, hx, World.setChannel]
  | drain name => cases hk : w.receiver? name <;> simp [command, Command.hangsUp, hk, World.setChannel]
  | tryRead name =>
    simp only [command, Command.hangsUp]
    split
    · split <;> rfl
    · rfl
  | read name =>
    simp only [command, Command.hangsUp]
    split
    · split <;> rfl
    · rfl
  | close name =>
    cases hk : w.receiver? name <;> simp [command, World.target?, Command.hangsUp, hk, World.setChannel, wakeClosed]
  | dropReceiver name =>
    cases hk : w.receiver? name <;> simp [command, World.target?, Command.hangsUp, hk, World.setChannel, wakeClosed]
  | dropSubscriber name => cases hx : w.subscriber? name <;> simp [command, Command.hangsUp, hx]
  | closed name task => exact absurd rfl (hc name task)

theorem live_command (w : World) {c : Command} (hc : ∀ name task, c ≠ .closed name task) :
    (command w c).1.tasks.live = w.tasks.live ∧ (command w c).1.tasks.next = w.tasks.next := by
  rw [tasks_command w hc]
  split
  · exact ⟨Tasks.live_wake _ _, Tasks.next_wake _ _⟩
  · exact ⟨rfl, rfl⟩

theorem nextId_command (w : World) (c : Command) : w.nextId ≤ (command w c).1.nextId := by
  cases c with
  | new name => exact Nat.le_succ_of_le (by cases hx : w.pair? name <;> simp [release, hx, wakeClosed])
  | notify name s =>
    simp only [command]
    split <;> exact le_rfl
  | drain name | close name | dropReceiver name | dropSubscriber name | closed name task =>
    simp only [command]
    split <;> exact le_rfl
  | tryRead name =>
    simp only [command]
    split
    · split <;> exact le_rfl
    · exact le_rfl
  | read name =>
    simp only [command]
    split
    · split <;> exact le_rfl
    · exact le_rfl

/-- the pair that is made -/
theorem get?_new (w : World) (name : String) :
    (command w (.new name)).1.pairs.get? ⟨w.nextId⟩ = some { subscriberId := ⟨w.nextId⟩, receiverId := ⟨w.nextId⟩ } := by
  simp [command, Table.get?_insert]

/-- a number that has not been given to a pair yet -/
theorem Kept.fresh (h : Kept w) : w.pairs.get? ⟨w.nextId⟩ = none := by
  cases hx : w.pairs.get? ⟨w.nextId⟩ with
  | none => rfl
  | some x => exact absurd (h.lt _ _ hx) (lt_irrefl _)

/-- where the pairs stand after a command: one that was there before, or a new one -/
theorem of_get?_command (h : Kept w) {c : Command} (hy : (command w c).1.pairs.get? id = some y) :
    (∃ x, w.pairs.get? id = some x ∧ (w.target? c = some id ∧ y = c.effect x ∨ w.target? c ≠ some id ∧ y = x)) ∨
      (∃ name, c = .new name) ∧ id = ⟨w.nextId⟩ ∧ y = { subscriberId := id, receiverId := id } := by
  by_cases hfresh : ∃ name, c = .new name ∧ id = ⟨w.nextId⟩
  · obtain ⟨name, rfl, rfl⟩ := hfresh
    rw [get?_new] at hy
    exact Or.inr ⟨⟨name, rfl⟩, rfl, (Option.some.inj hy).symm⟩
  · rw [get?_command h fun name hc hid => hfresh ⟨name, hc, hid⟩] at hy
    refine Or.inl ?_
    split at hy
    · rename_i htarget
      obtain ⟨x, hx, rfl⟩ := Option.map_eq_some_iff.1 hy
      exact ⟨x, hx, Or.inl ⟨htarget, rfl⟩⟩
    · rename_i htarget
      exact ⟨y, hy, Or.inr ⟨htarget, rfl⟩⟩

theorem keepers_command (h : Kept w) {c : Command} (hc : ∀ name task, c ≠ .closed name task) (id : SubscriberId) :
    (((command w c).1.pairs.get? id).map Pair.keepers).getD 0 = ((w.pairs.get? id).map Pair.keepers).getD 0 := by
  by_cases hfresh : ∃ name, c = .new name ∧ id = ⟨w.nextId⟩
  · obtain ⟨name, rfl, rfl⟩ := hfresh
    rw [get?_new, h.fresh]
    rfl
  · rw [get?_command h fun name hc hid => hfresh ⟨name, hc, hid⟩]
    split
    · rw [Option.map_map]
      exact congrArg (fun f => ((w.pairs.get? id).map f).getD 0) (funext fun x => keepers_effect x hc)
    · rfl

theorem kept_command (h : Kept w) (c : Command) : Kept (command w c).1 := by
  have hshape : ∀ id y, (command w c).1.pairs.get? id = some y →
      y.subscriberId = id ∧ id.number < (command w c).1.nextId ∧ y.Sound := by
    intro id y hy
    rcases of_get?_command h hy with ⟨x, hx, ⟨-, rfl⟩ | ⟨-, rfl⟩⟩ | ⟨⟨name, rfl⟩, rfl, rfl⟩
    · exact ⟨(subscriberId_effect x c).trans (h.id id x hx), (h.lt id x hx).trans_le (nextId_command w c),
        sound_effect (h.sound id x hx) c⟩
    · exact ⟨h.id id y hx, (h.lt id y hx).trans_le (nextId_command w c), h.sound id y hx⟩
    · refine ⟨rfl, ?_, rfl, fun hr => by cases hr⟩
      cases hx : w.pair? name <;> simp [command, release, hx, wakeClosed]
  have hrest : w.waits.count ⟨w.nextId⟩ = 0 := by
    rw [h.keepers, h.fresh]
    rfl
  by_cases hclosed : ∃ name task, c = .closed name task
  · obtain ⟨name, task, rfl⟩ := hclosed
    cases hx : w.subscriber? name with
    | none =>
      have hstill : (command w (.closed name task)).1 = w := by simp [command, hx]
      rw [hstill]
      exact h
    | some x =>
      have htasks : (command w (.closed name task)).1.tasks = (w.tasks.spawn ⟨x.subscriberId, task⟩).2 := by
        simp [command, hx]
      have hget := (of_subscriber? h hx).1
      refine ⟨fun id y hy => (hshape id y hy).1, fun id y hy => (hshape id y hy).2.1, fun id y hy => (hshape id y hy).2.2,
        fun id => ?_, htasks ▸ (Tasks.grows_spawn (P := fun _ => True) w.tasks trivial).numbered h.numbered⟩
      have hperm := Tasks.gather_spawn (f := fun p : Phase => some p.pair) h.numbered ⟨x.subscriberId, task⟩
      have hcount : (command w (.closed name task)).1.waits.count id = (x.subscriberId :: w.waits).count id := by
        unfold World.waits
        rw [htasks]
        exact hperm.count_eq id
      have hcommand := get?_command (j := id) h (c := .closed name task) (fun _ hc => by cases hc)
      rw [hcount, List.count_cons, h.keepers, hcommand, World.target?, hx, Option.map_some]
      by_cases e : x.subscriberId = id
      · subst e
        simp [hget, Command.effect, Pair.keep, Pair.refresh]
      · simp [e]
  · have hc : ∀ name task, c ≠ .closed name task := fun name task e => hclosed ⟨name, task, e⟩
    obtain ⟨hlive, hnext⟩ := live_command w hc
    refine ⟨fun id y hy => (hshape id y hy).1, fun id y hy => (hshape id y hy).2.1, fun id y hy => (hshape id y hy).2.2,
      fun id => ?_, fun j hj => ?_⟩
    · rw [keepers_command h hc, ← h.keepers id, World.waits, hlive]
      rfl
    · rw [hlive]
      exact h.numbered j (hnext ▸ hj)

/-! ## Sections -/

instance : LawfulMachine World := ⟨fun _ _ => rfl, fun _ _ _ => rfl, fun _ => rfl⟩

/-- the receiver of a pair is neither closed nor dropped -/
def World.listens (w : World) (id : SubscriberId) : Bool := (w.pairs.get? id).any (·.channel.isOpen)

/-- How a session is after a task has been served: as it was, or the task has left because it was cancelled or the receiver
it waited for is closed. -/
inductive Settled (w : World) (t : TaskId) (w' : World) : Prop
  | stays : w'.pairs = w.pairs → w'.nextId = w.nextId → w'.tasks.next = w.tasks.next →
    (∀ j, w'.tasks.live.get? j = w.tasks.live.get? j) → w'.waits.Perm w.waits → Settled w t w'
  | leaves (x : Task Phase) : w.tasks.live.get? t = some x → (x.cancelled = true ∨ w.listens x.phase.pair = false) →
    w'.pairs = w.pairs.modify x.phase.pair Pair.unkeep → w'.nextId = w.nextId → w'.tasks.next = w.tasks.next →
    w'.tasks.live = w.tasks.live.erase t → Settled w t w'

theorem settled_served (hs : Machine.Served w t w') : Settled w t w' := by
  cases hs with
  | unserved => exact .stays rfl rfl rfl (fun _ => rfl) (.refl _)
  | vacant hts =>
    exact .stays rfl rfl hts.next (fun j => congrArg (Table.get? · j) hts.live)
      (.of_eq (congrArg (Tasks.gather fun p : Phase => some p.pair) hts.live))
  | @dropped ts x hts hx hc =>
    exact .leaves x hx (Or.inl hc) rfl rfl hts.next (congrArg (Table.erase · t) hts.live)
  | @advanced ts x hts hx =>
    have hlive : ts.live = w.tasks.live := hts.live
    cases hl : w.listens x.phase.pair with
    | false =>
      have hadvance : World.advance { w with tasks := ts } x.phase =
          ({ w with tasks := ts, pairs := w.pairs.modify x.phase.pair Pair.unkeep, done := w.done ++ [x.phase.task] },
            .ended ()) := if_neg (Bool.eq_false_iff.1 hl)
      change Settled w t { (World.advance { w with tasks := ts } x.phase).1 with
        tasks := (World.advance { w with tasks := ts } x.phase).1.tasks.record t
          (World.advance { w with tasks := ts } x.phase).2 }
      rw [hadvance]
      exact .leaves x hx (Or.inr hl) rfl rfl hts.next (congrArg (Table.erase · t) hlive)
    | true =>
      have hadvance : World.advance { w with tasks := ts } x.phase = ({ w with tasks := ts }, .wait x.phase) := if_pos hl
      change Settled w t { (World.advance { w with tasks := ts } x.phase).1 with
        tasks := (World.advance { w with tasks := ts } x.phase).1.tasks.record t
          (World.advance { w with tasks := ts } x.phase).2 }
      rw [hadvance]
      have hx' : ts.live.get? t = some x := hlive ▸ hx
      refine .stays rfl rfl hts.next (fun j => ?_) ?_
      · simp only [Tasks.record, Table.get?_modify]
        split
        · rename_i e
          rw [← e, hx', ← hlive, hx']
          rfl
        · rw [hlive]
      · have hrecord := Tasks.gather_record (f := fun p : Phase => some p.pair) hx' (.wait x.phase)
        have hall := Tasks.gather_of_get? (f := fun p : Phase => some p.pair) hx'
        refine (hrecord.trans hall.symm).trans (.of_eq ?_)
        exact congrArg (Tasks.gather fun p : Phase => some p.pair) hlive

theorem Kept.settled (h : Kept w) (hs : Settled w t w') : Kept w' := by
  cases hs with
  | stays hpairs hnextId hnext hlive hwaits =>
    refine ⟨?_, ?_, ?_, fun id => ?_, fun j hj => ?_⟩
    · rw [hpairs]
      exact h.id
    · rw [hpairs, hnextId]
      exact h.lt
    · rw [hpairs]
      exact h.sound
    · rw [hwaits.count_eq, hpairs, h.keepers]
    · rw [hlive]
      exact h.numbered j (hnext ▸ hj)
  | leaves x hx _ hpairs hnextId hnext hlive =>
    have hget : ∀ id, w'.pairs.get? id =
        if some x.phase.pair = some id then (w.pairs.get? id).map Pair.unkeep else w.pairs.get? id := fun id => by
      rw [hpairs]
      exact get?_modify w _ _ id
    have hold : ∀ id y, w'.pairs.get? id = some y → ∃ z, w.pairs.get? id = some z ∧ (y = z.unkeep ∨ y = z) := by
      intro id y hy
      rw [hget] at hy
      split at hy
      · obtain ⟨z, hz, rfl⟩ := Option.map_eq_some_iff.1 hy
        exact ⟨z, hz, Or.inl rfl⟩
      · exact ⟨y, hy, Or.inr rfl⟩
    refine ⟨fun id y hy => ?_, fun id y hy => ?_, fun id y hy => ?_, fun id => ?_, fun j hj => ?_⟩
    · obtain ⟨z, hz, rfl | rfl⟩ := hold id y hy
      · exact h.id id z hz
      · exact h.id id _ hz
    · obtain ⟨z, hz, -⟩ := hold id y hy
      exact hnextId ▸ h.lt id z hz
    · obtain ⟨z, hz, rfl | rfl⟩ := hold id y hy
      · exact Pair.Sound.refresh (h.sound id z hz).gone
      · exact h.sound id _ hz
    · have hperm := Tasks.gather_of_get? (f := fun p : Phase => some p.pair) hx
      rw [← hlive] at hperm
      have hcount : w.waits.count id = (x.phase.pair :: w'.waits).count id := hperm.count_eq id
      rw [h.keepers, List.count_cons] at hcount
      rw [hget]
      by_cases e : x.phase.pair = id
      · rw [if_pos (by rw [e])]
        rw [if_pos (by simpa using e)] at hcount
        cases hy : w.pairs.get? id with
        | none =>
          rw [hy] at hcount
          cases hcount
        | some y =>
          rw [hy] at hcount
          have hkeepers : y.keepers = w'.waits.count id + 1 := hcount
          simp [Pair.unkeep, Pair.refresh, hkeepers]
      · rw [if_neg (by simpa using e)]
        rw [if_neg (by simpa using e)] at hcount
        exact hcount.symm
    · rw [hlive, Table.get?_erase, h.numbered j (hnext ▸ hj), ite_self]

theorem kept_trace (moves : Nat → Move) (n : Nat) : Kept (World.trace {} moves n) := by
  induction n with
  | zero => exact ⟨fun _ _ h => (by cases h), fun _ _ h => (by cases h), fun _ _ h => (by cases h), fun _ => rfl, fun _ _ => rfl⟩
  | succ n ih =>
    change Kept ((World.trace {} moves n).move (moves n))
    cases moves n with
    | turn t => exact ih.settled (settled_served (Machine.served_serve _ t))
    | command c => exact kept_command ih c
    | cancel t =>
      have hperm := Tasks.gather_cancel (f := fun p : Phase => some p.pair) (World.trace {} moves n).tasks t
      exact ⟨ih.id, ih.lt, ih.sound, fun id => (hperm.count_eq id).trans (ih.keepers id),
        (Tasks.grows_cancel (P := fun _ => True) _ _).numbered ih.numbered⟩

end LiveFiles.Session.Channels
