/-
What subscribers are given. A subscriber that is registered at a path should see every value that the cache has of it, in
order: what is committed there (`World.news`), and nothing else.
- `give_move`: in one move a subscriber that stays registered and listens is given what is committed at the path in this move,
  and where nothing is, the snapshot of the path stays as it is.
- `answers_of_registered`: a subscriber gets registered in the section in which its call to watch returns.
- **`history_given`**: so from the answers to its calls on, for as long as it is registered and listens, it is given the
  history of the path, and what it was given last is the snapshot of the path (`Follows`).
Messages about other paths come in between. A message spells the path like the operation that has committed.
-/
import LiveFiles.Proofs.Endings
import LiveFiles.Proofs.Faces
import LiveFiles.Proofs.Loading

namespace LiveFiles

namespace Table

variable {κ α : Type} [DecidableEq κ]

theorem mem_keys_iff {t : Table κ α} {k : κ} : k ∈ t.keys ↔ t.contains k = true := by
  simp only [keys, contains, Option.isSome_iff_exists, get?_eq_some_iff, List.mem_map, Prod.exists, exists_and_right,
    exists_eq_right]

end Table

namespace Engine

/-! ## What is committed, given and read -/

/-- the subscriber for which a call to watch is made -/
def Activity.subscriber? : Activity → Option SubscriberId
  | .starting (.watch _ id) | .joining _ id _ _ => some id
  | .synchronizing seat _ | .settling seat _ | .tearingDown _ _ (.failed seat _) => some seat.subscriber
  | _ => none

namespace World

/-- the path at which a move commits: its section ends a reconciliation that has changed the entry, or a write that has
succeeded -/
def committed? (w : World) : Move → Option Path
  | .turn id => (w.served? id).bind fun t => if t.cancelled then none else (floorTo w id).commits? t.phase.activity
  | _ => none

/-- what a move commits at a path, as the entry has it afterwards -/
def news (w : World) (p : Path) (m : Move) : Option Snapshot :=
  ((w.committed? m).filter (·.same p)).bind (w.move m).snapshot?

/-- a subscriber takes what is sent to it -/
def listens (w : World) (id : SubscriberId) : Bool := (w.channels.get? id).any (·.isOpen)

/-- delivered to a subscriber and not read yet -/
def unread (w : World) (id : SubscriberId) : List Snapshot := ((w.channels.get? id).map (·.buffer)).getD []

/-- what a subscriber reads in a move -/
def reads (w : World) (id : SubscriberId) : Move → List Snapshot
  | .drain x => if x = id then (w.drain x).1 else []
  | .tryRead x => if x = id then (w.tryRead x).1.toList else []
  | _ => []

section Run

variable (w : World) (moves : Nat → Move)

/-- what a subscriber has read in the first moves -/
def hasRead (id : SubscriberId) : Nat → List Snapshot
  | 0 => []
  | n + 1 => hasRead id n ++ (w.trace moves n).reads id (moves n)

/-- all that a subscriber has been given in the first moves -/
def given (id : SubscriberId) (n : Nat) : List Snapshot := w.hasRead moves id n ++ (w.trace moves n).unread id

/-- what the first moves have committed at a path -/
def history (p : Path) : Nat → List Snapshot
  | 0 => []
  | n + 1 => history p n ++ ((w.trace moves n).news p (moves n)).toList

end Run

end World

/-- a call to watch for a subscriber returns a snapshot in this move -/
def Answers (w : World) (m : Move) (id : SubscriberId) (x : Snapshot) : Prop :=
  w.returned? m = some x ∧ ∃ i t, m = .turn i ∧ w.served? i = some t ∧ t.phase.activity.subscriber? = some id

/-- A subscriber that has been shown `x` follows its path from move `i` to move `n`: the messages about the path that it is
given are what is committed there, and the snapshot of the path changes only in the moves that commit. So `x` and the messages
are all values of the snapshot in order, and the last of them is its value now. -/
structure Follows (w : World) (moves : Nat → Move) (id : SubscriberId) (x : Snapshot) (i n : Nat) : Prop where
  shown : (w.trace moves i).snapshot? x.path = some x
  given : ∃ messages, w.given moves id n = w.given moves id i ++ messages ∧
    w.history moves x.path n = w.history moves x.path i ++ messages.filter (·.path.same x.path) ∧
    (w.trace moves n).snapshot? x.path =
      some { (messages.filter (·.path.same x.path)).getLastD x with path := x.path }
  committed : ∀ l, i ≤ l → l < n →
    ((w.trace moves l).news x.path (moves l)).isSome = ((w.trace moves l).committed? (moves l)).any (·.same x.path)
  still : ∀ l, i ≤ l → l < n → (w.trace moves l).news x.path (moves l) = none →
    (w.trace moves (l + 1)).snapshot? x.path = (w.trace moves l).snapshot? x.path

variable {w : World} {m : Move} {p : Path} {id : SubscriberId} {k : Path.Key} {v v' : Front} {a : Activity}
  {next : Option Activity} {c : Option Path}

/-! ## Sections -/

/-- what stays as it is where nothing is shown: the channels, and the versions of the entries that stay -/
structure Front.Silent (v v' : Front) : Prop where
  channels : v'.channels = v.channels
  nextSubscriber : v'.nextSubscriber = v.nextSubscriber
  versions : ∀ k f f', v.face? k = some f → v'.face? k = some f' → f'.version = f.version

theorem Front.Silent.of_faces {v v' : Front} (hf : v'.face? = v.face?) (hc : v'.channels = v.channels)
    (hn : v'.nextSubscriber = v.nextSubscriber) : v.Silent v' :=
  ⟨hc, hn, fun k f f' h h' => by
    rw [hf, h] at h'
    cases h'
    rfl⟩

theorem Front.Silent.refl (v : Front) : v.Silent v := .of_faces rfl rfl rfl

theorem silent_put {x : Option Face} (h : ∀ f g, v.face? k = some f → x = some g → g.version = f.version) :
    v.Silent (v.put k x) := ⟨rfl, rfl, fun k' f f' hf hf' => by
  rw [Front.face?_put] at hf'
  split at hf'
  · rename_i hk
    exact h f f' (hk ▸ hf) hf'
  · cases hf.symm.trans hf'
    rfl⟩

/-- an entry is put in place of one that has the same version -/
theorem silent_put_of_version {f g : Face} (hf : v.face? k = some f) (h : g.version = f.version) :
    v.Silent (v.put k (some g)) := silent_put fun f₁ g₁ h₁ hg => by
  cases hf.symm.trans h₁
  cases hg
  exact h

theorem Front.Silent.unseat (h : v.Silent v') (seat : Seat) : v.Silent (v'.unseat seat) :=
  ⟨h.channels, h.nextSubscriber, fun k f f' hf hf' => by
    rw [Front.face?_unseat] at hf'
    split at hf'
    · obtain ⟨g, hg, rfl⟩ := Option.map_eq_some_iff.1 hf'
      rw [Face.version_unseat]
      exact h.versions k f g hf hg
    · exact h.versions k f f' hf hf'⟩

theorem Front.Silent.leave (h : v.Silent v') (l : Leaving) : v.Silent (v'.leave l) := by
  cases l with
  | failed seat _ => exact h.unseat seat
  | unwatched => exact h
  | abandoned => exact h

/-- **A section commits at an entry and shows what it commits, or it shows nothing.** -/
theorem Dealing.publishes (h : Dealing v a v' next c) :
    (∃ p f x, c = some p ∧ v.face? p.key = some f ∧ v' = v.publish p f x) ∨
      (∀ p, c = some p → v.face? p.key = none) ∧ v.Silent v' := by
  cases h with
  | still hv => exact Or.inr ⟨by simp, hv ▸ .refl v⟩
  | unseen p hf hv =>
    refine Or.inr ⟨fun q hq => ?_, hv ▸ .refl v⟩
    cases hq
    exact hf
  | commit p f x hf hv => exact Or.inl ⟨p, f, x, rfl, hf, hv⟩
  | take seat f other ha hf hr hj hv hn =>
    subst hv
    refine Or.inr ⟨by simp, ?_⟩
    rcases hf with hf | ⟨hf, -⟩
    · exact silent_put_of_version hf rfl
    · exact silent_put fun f₁ g h₁ _ => by cases hf.symm.trans h₁
  | register seat f x ha hf hv hn =>
    subst hv
    refine Or.inr ⟨by simp, .unseat ?_ seat⟩
    exact silent_put_of_version hf rfl
  | lost seat ha hf hv hn => exact Or.inr ⟨by simp, hv ▸ .refl v⟩
  | giveUp seat f ha hf hv =>
    refine Or.inr ⟨by simp, ?_⟩
    rcases hv with ⟨rfl, -⟩ | ⟨rfl, -⟩
    · exact silent_put_of_version hf rfl
    · refine .unseat ?_ seat
      exact silent_put_of_version hf rfl
  | release p f ha hf hv => exact Or.inr ⟨by simp, hv ▸ silent_put_of_version hf rfl⟩
  | unwatch p id f ha hf hr hv => exact Or.inr ⟨by simp, hv ▸ silent_put_of_version hf rfl⟩
  | tearDown p turn l ha hv hn =>
    refine Or.inr ⟨by simp, ?_⟩
    rcases hv with rfl | ⟨-, rfl⟩
    · exact (Front.Silent.refl v).leave l
    · exact .leave (silent_put fun _ _ _ h => by cases h) l
  | shutDown ha hv =>
    subst hv
    refine Or.inr ⟨by simp, rfl, rfl, fun k f f' hf hf' => ?_⟩
    obtain ⟨g, hg, rfl⟩ := Option.map_eq_some_iff.1 hf'
    cases hf.symm.trans hg
    rfl
  | forget ha hv =>
    subst hv
    exact Or.inr ⟨by simp, rfl, rfl, fun k f f' _ hf' => by cases hf'⟩

/-! ## Moves -/

theorem silent_unseat (v : Front) (seat : Seat) : v.Silent (v.unseat seat) := (Front.Silent.refl v).unseat seat

/-- **What a turn shows.** -/
theorem publishes_serve (hw : Wf w) (i : TaskId) :
    (∃ p f x, w.committed? (.turn i) = some p ∧ w.front.face? p.key = some f ∧
        (serve w i).front = w.front.publish p f x) ∨
      (∀ p, w.committed? (.turn i) = some p → w.front.face? p.key = none) ∧ w.front.Silent (serve w i).front := by
  cases ht : w.served? i with
  | none => exact Or.inr ⟨by simp [World.committed?, ht], front_nobody ht ▸ .refl _⟩
  | some t =>
    cases hc : t.cancelled with
    | true =>
      refine Or.inr ⟨by simp [World.committed?, ht, hc], front_cancelled ht hc ▸ ?_⟩
      split
      · exact silent_unseat _ _
      · exact .refl _
    | false =>
      have hcommit : w.committed? (.turn i) = (floorTo w i).commits? t.phase.activity := by
        simp [World.committed?, ht, hc]
      rw [hcommit]
      exact (dealing_serve hw ht hc).publishes

/-- all channels are those of subscribers that there have been -/
def Front.Numbered (v : Front) : Prop := ∀ id c, v.channels.get? id = some c → id.number < v.nextSubscriber

/-- what is shown to a list of subscribers -/
theorem get?_foldl_deliver {ids : List SubscriberId} (hd : ids.Nodup) (cs : Table SubscriberId (Channel Snapshot))
    (x : Snapshot) (id : SubscriberId) :
    (ids.foldl (fun cs i => World.deliver cs x i) cs).get? id =
      if id ∈ ids then (cs.get? id).map (·.send x) else cs.get? id := by
  induction ids generalizing cs with
  | nil => simp
  | cons i ids ih =>
    obtain ⟨hi, hd⟩ := List.nodup_cons.1 hd
    rw [List.foldl_cons, ih hd, World.deliver, Table.get?_modify]
    by_cases h : i = id
    · subst h
      simp [hi]
    · simp [h, Ne.symm h]

/-- what is published goes to all who are registered -/
theorem channels_publish (v : Front) (p : Path) (f : Face) (x : Option Version) (id : SubscriberId) :
    (v.publish p f x).channels.get? id =
      if f.registered.contains id then (v.channels.get? id).map (·.send (.ofVersion p x)) else v.channels.get? id := by
  have hd : f.registered.keys.Nodup := f.registered.nodup
  have h := get?_foldl_deliver hd v.channels (.ofVersion p x) id
  simp only [Table.mem_keys_iff] at h
  exact h

theorem Front.Numbered.publish (hn : v.Numbered) (p : Path) (f : Face) (x : Option Version) : (v.publish p f x).Numbered :=
  fun id c h => by
  rw [channels_publish] at h
  split at h
  · obtain ⟨c', hc', -⟩ := Option.map_eq_some_iff.1 h
    exact hn id c' hc'
  · exact hn id c h

theorem Front.Silent.numbered (h : v.Silent v') (hn : v.Numbered) : v'.Numbered := fun id c hc => by
  rw [h.channels] at hc
  rw [h.nextSubscriber]
  exact hn id c hc

theorem tryRead_of_nil {c : Channel Snapshot} (hc : w.channels.get? id = some c) (hb : c.buffer = []) :
    w.tryRead id = (none, w) := by
  have hread : c.read = (if c.isOpen && c.sender then .nothing else .ended, c) := by simp only [Channel.read, hb]
  cases h : c.isOpen && c.sender <;> simp [World.tryRead, hc, hread, h]

theorem tryRead_of_cons {c : Channel Snapshot} {y : Snapshot} {rest : List Snapshot} (hc : w.channels.get? id = some c)
    (hb : c.buffer = y :: rest) :
    w.tryRead id = (some y, { w with channels := w.channels.insert id { c with buffer := rest } }) := by
  simp only [World.tryRead, Channel.read, hc, hb]

/-- What a move from outside does to channels: it makes one for a new subscriber, and of the others an open one holds what it
held, but for what is read. -/
theorem channel_outside (w : World) (hm : ∀ i, m ≠ .turn i) {c' : Channel Snapshot}
    (h : (w.move m).channels.get? id = some c') :
    (m = .newSubscriber ∧ id = ⟨w.nextSubscriber⟩) ∨
      ∃ c, w.channels.get? id = some c ∧ (c'.isOpen = true → w.reads id m ++ c'.buffer = c.buffer) := by
  have hsame : w.reads id m = [] → (w.move m).channels.get? id = w.channels.get? id →
      ∃ c, w.channels.get? id = some c ∧ (c'.isOpen = true → w.reads id m ++ c'.buffer = c.buffer) := fun hr he =>
    ⟨c', he.symm.trans h, fun _ => by rw [hr, List.nil_append]⟩
  -- a subscriber that leaves does not listen any more
  have hleft : ∀ i (f : Channel Snapshot → Channel Snapshot), (∀ c, (f c).isOpen = false) → w.reads id m = [] →
      (w.move m).channels = w.channels.modify i f →
      ∃ c, w.channels.get? id = some c ∧ (c'.isOpen = true → w.reads id m ++ c'.buffer = c.buffer) :=
    fun i f hf hr he => by
    by_cases hi : i = id
    · rw [he, Table.get?_modify, if_pos hi] at h
      obtain ⟨c, hc, rfl⟩ := Option.map_eq_some_iff.1 h
      exact ⟨c, hc, fun ho => by rw [hf c] at ho; cases ho⟩
    · exact hsame hr (by rw [he, Table.get?_modify, if_neg hi])
  cases m with
  | turn i => exact absurd rfl (hm i)
  | newSubscriber =>
    have hget := h
    simp only [World.move, World.newSubscriber, Table.get?_insert] at hget
    split at hget
    · rename_i hid
      exact Or.inl ⟨rfl, hid.symm⟩
    · exact Or.inr ⟨c', hget, fun _ => rfl⟩
  | drain i =>
    right
    cases hc : w.channels.get? i with
    | none => exact hsame (by simp [World.reads, World.drain, hc]) (by simp [World.move, World.drain, hc])
    | some c =>
      by_cases hi : i = id
      · subst hi
        simp only [World.move, World.drain, hc, Table.get?_insert, if_true] at h
        cases h
        exact ⟨c, hc, fun _ => by simp [World.reads, World.drain, hc, Channel.drain]⟩
      · exact hsame (by simp [World.reads, hi]) (by simp [World.move, World.drain, hc, Table.get?_insert, hi])
  | tryRead i =>
    right
    cases hc : w.channels.get? i with
    | none => exact hsame (by simp [World.reads, World.tryRead, hc]) (by simp [World.move, World.tryRead, hc])
    | some c =>
      cases hb : c.buffer with
      | nil => exact hsame (by simp [World.reads, tryRead_of_nil hc hb]) (by simp [World.move, tryRead_of_nil hc hb])
      | cons y rest =>
        by_cases hi : i = id
        · subst hi
          simp only [World.move, tryRead_of_cons hc hb, Table.get?_insert, if_true] at h
          cases h
          exact ⟨c, hc, fun _ => by simp [World.reads, tryRead_of_cons hc hb, hb]⟩
        · exact hsame (by simp [World.reads, hi])
            (by simp [World.move, tryRead_of_cons hc hb, Table.get?_insert, hi])
  | closeSubscriber i => exact Or.inr (hleft i _ (fun _ => rfl) rfl rfl)
  | dropSubscriber i => exact Or.inr (hleft i _ (fun _ => rfl) rfl rfl)
  | call r => exact Or.inr (hsame rfl (by simp only [World.move]; split <;> rfl))
  | notifyChange q =>
    exact Or.inr (hsame rfl (congrArg (fun v : Front => v.channels.get? id) (front_inBackground w (.reconcile q))))
  | attachStream =>
    exact Or.inr (hsame rfl (congrArg (fun v : Front => v.channels.get? id) (front_cancelIf _ w.pump)))
  | sendEvent x ev =>
    refine Or.inr (hsame rfl ?_)
    simp only [World.move, World.sendEvent]
    split
    · split <;> rfl
    · rfl
  | _ => exact Or.inr (hsame rfl rfl)

theorem nextSubscriber_outside (w : World) (hm : ∀ i, m ≠ .turn i) : w.nextSubscriber ≤ (w.move m).nextSubscriber := by
  cases m with
  | turn i => exact absurd rfl (hm i)
  | newSubscriber => exact Nat.le_succ _
  | call r =>
    simp only [World.move]
    split <;> exact le_rfl
  | notifyChange q => exact (congrArg Front.nextSubscriber (front_inBackground w (.reconcile q))).ge
  | attachStream =>
    simp only [World.move, World.attachStream]
    cases w.pump <;> exact le_rfl
  | sendEvent x ev =>
    simp only [World.move, World.sendEvent]
    split
    · split <;> exact le_rfl
    · exact le_rfl
  | drain i =>
    simp only [World.move, World.drain]
    split <;> exact le_rfl
  | tryRead i =>
    simp only [World.move, World.tryRead]
    split
    · exact le_rfl
    · split <;> exact le_rfl
  | _ => exact le_rfl

theorem numbered_move_front (hw : Wf w) (hn : w.front.Numbered) (m : Move) : (w.move m).front.Numbered := by
  by_cases hm : ∃ i, m = .turn i
  · obtain ⟨i, rfl⟩ := hm
    rcases publishes_serve hw i with ⟨p, f, x, -, -, h⟩ | ⟨-, h⟩
    · exact (congrArg Front.Numbered h).mpr (hn.publish p f x)
    · exact h.numbered hn
  · have hout : ∀ i, m ≠ .turn i := fun i e => hm ⟨i, e⟩
    intro x c hc
    rcases channel_outside w hout hc with ⟨rfl, rfl⟩ | ⟨c', hc', -⟩
    · exact Nat.lt_succ_self _
    · exact lt_of_lt_of_le (hn x c' hc') (nextSubscriber_outside w hout)

theorem snapshot?_eq_face (w : World) (p : Path) :
    w.snapshot? p = (w.front.face? p.key).map fun f => .ofVersion p f.version := by
  rw [World.snapshot?, World.front, Option.map_map]
  exact congrArg (Option.map · (w.entry? p)) (funext fun e => snapshot_eq_ofVersion e p)

/-- In a move a subscriber of a path is given what the move commits there, and the snapshot of the path goes along. -/
structure Gives (w : World) (m : Move) (p : Path) (id : SubscriberId) : Prop where
  given : ∃ new, w.reads id m ++ (w.move m).unread id = w.unread id ++ new ∧
    new.filter (·.path.same p) = (w.news p m).toList
  snapshot : (w.move m).snapshot? p = match w.news p m with
    | some y => some { y with path := p }
    | none => w.snapshot? p

theorem unread_of_channel {c : Channel Snapshot} (h : w.channels.get? id = some c) : w.unread id = c.buffer := by
  rw [World.unread, h]
  rfl

/-- nothing is shown -/
theorem gives_nothing {f f' : Face} (hf : w.front.face? p.key = some f) (hf' : (w.move m).front.face? p.key = some f')
    (hv : f'.version = f.version) (hr : w.reads id m ++ (w.move m).unread id = w.unread id)
    (hno : ∀ q, w.committed? m = some q → w.front.face? q.key = none) : Gives w m p id := by
  have hnews : w.news p m = none := by
    rw [World.news, Option.bind_eq_none_iff]
    intro q hq
    obtain ⟨hq, hsame⟩ := Option.filter_eq_some_iff.1 hq
    have hkey : q.key = p.key := by simpa [Path.same] using hsame
    have hnone := hno q hq
    rw [hkey, hf] at hnone
    cases hnone
  refine ⟨⟨[], by rw [hr, List.append_nil], by rw [hnews]; rfl⟩, ?_⟩
  rw [hnews]
  dsimp only
  rw [snapshot?_eq_face, snapshot?_eq_face, hf, hf', Option.map_some, Option.map_some, hv]

/-- what is committed at a path is shown to a subscriber that is registered somewhere -/
theorem gives_published {i : TaskId} {q : Path} {g : Face} {x : Option Version} {c : Channel Snapshot}
    (hcommit : w.committed? (.turn i) = some q) (hg : w.front.face? q.key = some g)
    (hpub : (serve w i).front = w.front.publish q g x) (hc : w.channels.get? id = some c) (ho : c.isOpen = true)
    (hreg : w.isRegistered p id = true) : Gives w (.turn i) p id := by
  have hpath : (Snapshot.ofVersion q x).path = q := by cases x <;> rfl
  have hface : ∀ k, (serve w i).front.face? k = if k = q.key then some { g with version := x } else w.front.face? k :=
    fun k => hpub ▸ Front.face?_put w.front q.key k _
  have hunread : (serve w i).unread id = w.unread id ++ if g.registered.contains id then [.ofVersion q x] else [] := by
    have h := channels_publish w.front q g x id
    rw [← hpub] at h
    have h : (serve w i).channels.get? id = if g.registered.contains id then (w.channels.get? id).map
      (·.send (.ofVersion q x)) else w.channels.get? id := h
    rw [World.unread, h, unread_of_channel hc, hc]
    split
    · simp [Channel.send, ho]
    · simp
  have hsnap : (serve w i).snapshot? q = some (.ofVersion q x) := by
    rw [snapshot?_eq_face, hface, if_pos rfl]
    rfl
  have hnews : w.news p (.turn i) = if q.same p then some (.ofVersion q x) else none := by
    rw [World.news, hcommit, Option.filter_some]
    split
    · exact hsnap
    · rfl
  refine ⟨⟨_, hunread, ?_⟩, ?_⟩
  all_goals rw [hnews]
  all_goals by_cases hk : q.key = p.key
  · -- those who are registered are shown it
    obtain ⟨f, hf, hin⟩ := isRegistered_iff.1 hreg
    rw [← hk, hg] at hf
    cases hf
    simp [hin, hpath, Path.same, hk]
  · split <;> simp [hpath, Path.same, hk]
  · simp only [Path.same, hk, beq_self_eq_true, if_true]
    rw [World.move, snapshot?_eq_face, hface, if_pos hk.symm]
    cases x <;> rfl
  · have hne : (q.key == p.key) = false := by simpa using hk
    simp only [Path.same, hne, Bool.false_eq_true, if_false]
    rw [World.move, snapshot?_eq_face, snapshot?_eq_face, hface, if_neg (Ne.symm hk)]

/-- a commit at a path that is tracked afterwards is news of it -/
theorem isSome_news (h : (w.move m).isRegistered p id = true) :
    (w.news p m).isSome = (w.committed? m).any (·.same p) := by
  obtain ⟨f, hf, -⟩ := isRegistered_iff.1 h
  rw [World.news]
  cases w.committed? m with
  | none => rfl
  | some q =>
    rw [Option.filter_some, Option.any_some]
    by_cases hk : q.same p = true
    · have hkey : q.key = p.key := by simpa [Path.same] using hk
      rw [if_pos hk, hk, Option.bind_some, snapshot?_eq_face, hkey, hf]
      rfl
    · rw [if_neg hk]
      simpa using hk

/-- **What a subscriber is given in one move**, if it stays registered and listens: what is committed at the path. -/
theorem give_move (hw : Wf w) (hn : w.front.Numbered) (hreg : w.isRegistered p id = true)
    (hreg' : (w.move m).isRegistered p id = true) (hopen : w.listens id = true) (hopen' : (w.move m).listens id = true) :
    Gives w m p id := by
  obtain ⟨f, hf, -⟩ := isRegistered_iff.1 hreg
  obtain ⟨f', hf', -⟩ := isRegistered_iff.1 hreg'
  obtain ⟨c, hc, ho⟩ := (Option.any_eq_true _ _).1 hopen
  obtain ⟨c', hc', ho'⟩ := (Option.any_eq_true _ _).1 hopen'
  by_cases hm : ∃ i, m = .turn i
  · obtain ⟨i, rfl⟩ := hm
    rcases publishes_serve hw i with ⟨q, g, x, hq, hg, hpub⟩ | ⟨hno, hs⟩
    · exact gives_published hq hg hpub hc ho hreg
    · refine gives_nothing hf hf' (hs.versions _ _ _ hf hf') ?_ hno
      have hch : (serve w i).channels = w.channels := hs.channels
      exact congrArg (fun t : Table SubscriberId (Channel Snapshot) => ((t.get? id).map (·.buffer)).getD []) hch
  · have hout : ∀ i, m ≠ .turn i := fun i e => hm ⟨i, e⟩
    have hv : f'.version = f.version := by
      rw [faces_outside w hout, hf] at hf'
      cases hf'
      rfl
    refine gives_nothing hf hf' hv ?_ (fun q hq => ?_)
    · rcases channel_outside w hout hc' with ⟨rfl, rfl⟩ | ⟨c₀, hc₀, hr⟩
      · exact absurd (hn _ c hc) (lt_irrefl _)
      · rw [unread_of_channel hc', unread_of_channel hc₀, hr ho']
    · cases m with
      | turn i => exact absurd rfl (hout i)
      | _ => cases hq

/-! ## Answers -/

/-- a place becomes a registration, and the version of the entry is returned -/
theorem register_of_present {seat : Seat} {e : Entry} (he : w.entry? seat.path = some e) :
    ∃ f, (w.register seat).1.front.face? seat.path.key = some f ∧ f.registered.contains seat.subscriber = true ∧
      (w.register seat).2 = .ended (.ok (.snapshot (.ofVersion seat.path f.version))) := by
  -- whichever world the registration is put into
  have hput : ∀ (w₁ : World) n x, ∃ f, ((w₁.setEntry seat.path { e with
      registered := e.registered.insert seat.subscriber x, count := n }).endSeat seat).front.face? seat.path.key = some f ∧
      f.registered.contains seat.subscriber = true ∧ (Section.ended (.ok (.snapshot (e.snapshot seat.path))) :
        Section Activity Outcome) = .ended (.ok (.snapshot (.ofVersion seat.path f.version))) := fun w₁ n x => by
    rw [front_endSeat, Front.face?_unseat, if_pos rfl, front_setEntry, Front.face?_put, if_pos rfl]
    refine ⟨_, rfl, ?_, ?_⟩
    · rw [Face.registered_unseat]
      simp [Entry.face, Table.contains, Table.get?_insert]
    · rw [Face.version_unseat, snapshot_eq_ofVersion]
      rfl
  unfold World.register
  simp only [he]
  exact hput _ _ _

/-- a call to watch that returns has its subscriber registered, and returns the version of the entry -/
theorem registered_of_returned {x : Snapshot} (h : (w.step a).2 = .ended (.ok (.snapshot x)))
    (hid : a.subscriber? = some id) : ∃ f, (w.step a).1.front.face? x.path.key = some f ∧
      f.registered.contains id = true ∧ x = .ofVersion x.path f.version := by
  obtain ⟨e, he, hx, -⟩ := step_eq_snapshot h
  rw [snapshot_eq_ofVersion] at hx
  rcases plain_step w a with hp | ⟨p, id', joined, other, rfl⟩ | ⟨seat, signal, rfl⟩
  · exact absurd h (hp.wordless x)
  · cases hid
    simp only [World.step, World.stepJoining] at h ⊢
    split at h
    · cases h
    · rename_i hother
      simp only [if_neg hother]
      split at h
      · rename_i hreg
        have hp : x.path = p := by
          have hx : ((w.entry? p).getD { spelling := p }).snapshot p = x := by cases h; rfl
          rw [← hx]
          exact snapshot_path _ p
        simp only [if_pos hreg]
        rw [← hp, he] at hreg
        exact ⟨e.face, face?_of_present he, hreg, hx⟩
      · split at h
        · cases h
        · exact absurd h ((plain_takePlace w _ _).wordless x)
  · cases hid
    have hregister : w.stepSettling seat signal = w.register seat := by
      simp only [World.step, World.stepSettling] at h ⊢
      split at h
      · cases h
      · split at h
        · cases h
        · split
          · contradiction
          · rfl
    simp only [World.step, hregister] at h ⊢
    cases he' : w.entry? seat.path with
    | none =>
      simp only [World.register, he'] at h
      cases h
    | some e' =>
      obtain ⟨f, hf, hreg, hx⟩ := register_of_present he'
      cases hx.symm.trans h
      have hp : (Snapshot.ofVersion seat.path f.version).path = seat.path := by cases f.version <;> rfl
      exact ⟨f, by rw [hp]; exact hf, hreg, by rw [hp]⟩

/-- a call to watch that gets its subscriber registered returns -/
theorem returned_of_registered {seat : Seat} {signal : Option SignalId} {f' : Face}
    (hno : ¬ ∃ f, w.front.face? seat.path.key = some f ∧ f.registered.contains seat.subscriber = true)
    (hf' : (w.step (.settling seat signal)).1.front.face? seat.path.key = some f')
    (hin : f'.registered.contains seat.subscriber = true) :
    ∃ x, (w.step (.settling seat signal)).2 = .ended (.ok (.snapshot x)) ∧ x.path = seat.path := by
  simp only [World.step, World.stepSettling] at hf' ⊢
  split at hf'
  · exact absurd ⟨f', hf', hin⟩ hno
  · split at hf'
    · exact absurd ⟨f', hf', hin⟩ hno
    · cases he : w.entry? seat.path with
      | none =>
        simp only [World.register, he, front_endSeat] at hf'
        rw [Front.unseat_of_absent (face?_of_absent he), face?_of_absent he] at hf'
        cases hf'
      | some e =>
        obtain ⟨f, -, -, hx⟩ := register_of_present he
        rename_i hsignal _ _
        rw [if_neg hsignal, hx]
        exact ⟨_, rfl, by cases f.version <;> rfl⟩

/-- a subscriber whose call to watch returns is registered, and has been shown the snapshot of the path -/
theorem Answers.registered {x : Snapshot} (h : Answers w m id x) :
    (w.move m).isRegistered x.path id = true ∧ (w.move m).snapshot? x.path = some x := by
  obtain ⟨hx, i', t', rfl, ht', hid⟩ := h
  obtain ⟨i, t, hm, ht, hc, hx⟩ := returned?_eq_some hx
  cases hm
  cases ht.symm.trans ht'
  obtain ⟨f, hf, hreg, hxf⟩ := registered_of_returned hx hid
  rw [← front_serve ht hc] at hf
  refine ⟨isRegistered_iff.2 ⟨f, hf, hreg⟩, ?_⟩
  rw [World.move, snapshot?_eq_face, hf, Option.map_some, ← hxf]

/-- a subscriber that gets registered has been answered in the same section -/
theorem answers_of_registered (hw : Wf w) (h : w.isRegistered p id = false) (h' : (w.move m).isRegistered p id = true) :
    ∃ x, Answers w m id x ∧ x.path.same p = true := by
  obtain ⟨f', hf', hin⟩ := isRegistered_iff.1 h'
  have hno : ¬ ∃ f, w.front.face? p.key = some f ∧ f.registered.contains id = true := fun hex => by
    rw [isRegistered_iff.2 hex] at h
    cases h
  rcases section_or_not w m with ⟨i, t, rfl, ht, hc⟩ | hidle
  · obtain ⟨r, hr⟩ := Option.isSome_iff_exists.1 hin
    rcases (dealing_serve hw ht hc).registered hf' hr with ⟨f, hf, hr⟩ | ⟨seat, signal, ha, hk, rfl⟩
    · exact absurd ⟨f, hf, Option.isSome_iff_exists.2 ⟨r, hr⟩⟩ hno
    · have hface : ((floorTo w i).step (.settling seat signal)).1.front.face? seat.path.key = some f' := by
        rw [hk, ← ha, ← front_serve ht hc]
        exact hf'
      obtain ⟨x, hx, hp⟩ := returned_of_registered (by rw [front_floorTo, hk]; exact hno) hface hin
      refine ⟨x, ⟨?_, i, t, rfl, ht, by rw [ha]; rfl⟩, by simpa [Path.same, hp] using hk⟩
      rw [World.returned?, ht, Option.bind_some, hc, ha]
      simp only [hx]
  · obtain ⟨r, hr⟩ := Option.isSome_iff_exists.1 hin
    obtain ⟨f, hf, hr⟩ := noNewer_of_no_section hidle p.key f' id r hf' hr
    exact absurd ⟨f, hf, Option.isSome_iff_exists.2 ⟨r, hr⟩⟩ hno

/-! ## Along a run -/

section Run

variable {policy : WritePolicy} {moves : Nat → Move}

theorem numbered_front_trace (policy : WritePolicy) (moves : Nat → Move) (n : Nat) :
    ((World.start policy).trace moves n).front.Numbered := by
  induction n with
  | zero => exact fun x c h => by cases h
  | succ n ih => exact numbered_move_front (reachable_trace policy moves n).wf ih (moves n)

/-- whoever has been shown a snapshot by its call to watch follows the path, as long as it is registered and listens -/
theorem Answers.follows {r n : Nat} {x : Snapshot} (hx : Answers ((World.start policy).trace moves r) (moves r) id x)
    (hn : r < n) (hreg : ∀ l, r < l → l ≤ n → ((World.start policy).trace moves l).isRegistered x.path id = true)
    (hopen : ∀ l, r < l → l ≤ n → ((World.start policy).trace moves l).listens id = true) :
    Follows (World.start policy) moves id x (r + 1) n := by
  have hgives : ∀ l, r < l → l < n → Gives ((World.start policy).trace moves l) (moves l) x.path id := fun l hl hln =>
    give_move (reachable_trace policy moves l).wf (numbered_front_trace policy moves l) (hreg l hl hln.le)
      (hreg (l + 1) (by omega) hln) (hopen l hl hln.le) (hopen (l + 1) (by omega) hln)
  refine ⟨hx.registered.2, ?_, fun l hl hln => isSome_news (hreg (l + 1) (by omega) hln), fun l hl hln hno => ?_⟩
  · obtain ⟨d, rfl⟩ : ∃ d, n = r + 1 + d := ⟨n - (r + 1), by omega⟩
    clear hn hreg hopen
    induction d with
    | zero => exact ⟨[], by simp, by simp, hx.registered.2⟩
    | succ d ih =>
      obtain ⟨messages, hgiven, hhistory, hlast⟩ := ih fun l hl hln => hgives l hl (by omega)
      obtain ⟨⟨new, hnew, hfilter⟩, hsnap⟩ := hgives (r + 1 + d) (by omega) (by omega)
      refine ⟨messages ++ new, ?_, ?_, ?_⟩
      · rw [← List.append_assoc, ← hgiven]
        simp only [World.given, World.hasRead, ← Nat.add_assoc, List.append_assoc]
        exact congrArg _ hnew
      · rw [List.filter_append, ← List.append_assoc, ← hhistory, hfilter]
        rfl
      · rw [List.filter_append, hfilter]
        refine hsnap.trans ?_
        cases ((World.start policy).trace moves (r + 1 + d)).news x.path (moves (r + 1 + d)) with
        | none => simpa using hlast
        | some y => simp
  · rw [World.trace]
    have h := (hgives l (by omega) hln).snapshot
    rw [hno] at h
    exact h

/-- **A subscriber is given exactly the history of the path.** It is registered by a call to watch that returns a snapshot,
and from this answer on, as from those that it gets when it calls again, it follows the path, for as long as it is registered
and listens. -/
theorem history_given {r n : Nat} (hn : r < n) (hnew : ((World.start policy).trace moves r).isRegistered p id = false)
    (hreg : ∀ l, r < l → l ≤ n → ((World.start policy).trace moves l).isRegistered p id = true)
    (hopen : ∀ l, r < l → l ≤ n → ((World.start policy).trace moves l).listens id = true) :
    (∃ x, Answers ((World.start policy).trace moves r) (moves r) id x ∧ x.path.same p = true) ∧
      ∀ l x, r ≤ l → l < n → Answers ((World.start policy).trace moves l) (moves l) id x → x.path.same p = true →
        Follows (World.start policy) moves id x (l + 1) n := by
  refine ⟨answers_of_registered (reachable_trace policy moves r).wf hnew (hreg (r + 1) (by omega) hn), ?_⟩
  intro l x hl hln hx hsame
  refine hx.follows hln (fun i hi hin => ?_) fun i hi hin => hopen i (by omega) hin
  have hkey : x.path.key = p.key := by simpa [Path.same] using hsame
  rw [World.isRegistered, World.entry?, hkey]
  exact hreg i (by omega) hin

end Run

/-- A subscriber watches a file, which is then written through the engine and changed by somebody else. -/
def following : List Move :=
  let p : Path := ⟨"/a"⟩
  [Move.newSubscriber, .putFile p ⟨#[49]⟩, .call (.watch p ⟨1⟩)] ++ List.replicate 6 (Move.turn 1) ++
    [Move.call (.write p ⟨#[50]⟩)] ++ List.replicate 4 (Move.turn 3) ++
    [Move.tryRead ⟨1⟩, .putFile p ⟨#[51]⟩, .call (.reconcile p)] ++ List.replicate 4 (Move.turn 4)

/-- the subscriber is registered in the ninth move, and stays so and listens -/
theorem history_given_following :
    (((World.start .allow).trace (along following) 8).isRegistered ⟨"/a"⟩ ⟨1⟩ = false ∧
      (∀ l, 8 < l → l ≤ 21 → ((World.start .allow).trace (along following) l).isRegistered ⟨"/a"⟩ ⟨1⟩ = true) ∧
      ∀ l, 8 < l → l ≤ 21 → ((World.start .allow).trace (along following) l).listens ⟨1⟩ = true) ∧
    (∃ x, Answers ((World.start .allow).trace (along following) 8) (along following 8) ⟨1⟩ x ∧
      x.path.same ⟨"/a"⟩ = true) ∧
    ∀ l x, 8 ≤ l → l < 21 → Answers ((World.start .allow).trace (along following) l) (along following l) ⟨1⟩ x →
      x.path.same ⟨"/a"⟩ = true → Follows (World.start .allow) (along following) ⟨1⟩ x (l + 1) 21 := by
  have hnew : ((World.start .allow).trace (along following) 8).isRegistered ⟨"/a"⟩ ⟨1⟩ = false := by decide +kernel
  have hreg : ∀ l, l ≤ 21 → 8 < l →
      ((World.start .allow).trace (along following) l).isRegistered ⟨"/a"⟩ ⟨1⟩ = true := by decide +kernel
  have hopen : ∀ l, l ≤ 21 → 8 < l → ((World.start .allow).trace (along following) l).listens ⟨1⟩ = true := by
    decide +kernel
  exact ⟨⟨hnew, fun l h h' => hreg l h' h, fun l h h' => hopen l h' h⟩,
    history_given (by decide) hnew (fun l h h' => hreg l h' h) fun l h h' => hopen l h' h⟩

end Engine

end LiveFiles
