/-
Two runs side by side. Each run numbers tasks, signals, turns, locks, reconciliations and gates by itself, and dates files by its
own clock (`Tag`). A `Pairing` says which tag of the one run stands for which of the other, and a `Scope` which paths of the one
stand for which of the other. What the runs have in store, or do, is alike if it is the same but for that: `EntryAlike`,
`ActivityAlike`, `OutcomeAlike` and so on. Pairings only grow, and what is alike stays so (`….mono`).
-/
import LiveFiles.Proofs.Tasks
import LiveFiles.Engine.Run

namespace LiveFiles.Engine

/-! ## Tags and paths -/

/-- what a run numbers or dates by itself -/
inductive Tag where
  | task (n : TaskId)
  | signal (n : SignalId)
  | turn (n : TurnId)
  | lock (n : LockId)
  | query (n : QueryId)
  | gate (n : GateId)
  | date (t : Instant)

/-- which tag of one run stands for which of another -/
abbrev Pairing := Tag → Tag → Prop

namespace Pairing

/-- tags of one kind that stand for each other -/
abbrev on {α : Type} (θ : Pairing) (tag : α → Tag) (a b : α) : Prop := θ (tag a) (tag b)

/-- one pair more -/
def also (θ : Pairing) (x y : Tag) : Pairing := fun a b => θ a b ∨ a = x ∧ b = y

/-- no tag stands for two -/
def OneToOne (θ : Pairing) : Prop := ∀ x x' y y', θ x y → θ x' y' → (x = x' ↔ y = y')

theorem le_also (θ : Pairing) (x y : Tag) : θ ≤ θ.also x y := fun _ _ h => Or.inl h

theorem also_self (θ : Pairing) (x y : Tag) : θ.also x y x y := Or.inr ⟨rfl, rfl⟩

end Pairing

/-- which paths of one run stand for which of another -/
structure Scope where
  path : Path → Path → Prop
  /-- the keys of the paths that stand for some -/
  seen : Path.Key → Bool
  /-- the runs go the same way -/
  whole : Prop
  key : ∀ {p p'}, path p p' → p.key = p'.key
  visible : ∀ {p p'}, path p p' → seen p.key = true
  all : whole → ∀ k, seen k = true

/-! ## Options, results and tables -/

section Lifting

variable {α β γ δ ε ε' σ σ' κ : Type} {r r' : α → β → Prop}

theorem rel_mono {x : Option α} {y : Option β} (h : Option.Rel r x y) (hr : ∀ a b, r a b → r' a b) : Option.Rel r' x y := by
  cases h with
  | some h => exact .some (hr _ _ h)
  | none => exact .none

theorem rel_map {q : γ → δ → Prop} {x : Option α} {y : Option β} (h : Option.Rel r x y) {f : α → γ} {g : β → δ}
    (hr : ∀ a b, r a b → q (f a) (g b)) : Option.Rel q (x.map f) (y.map g) := by
  cases h with
  | some h => exact .some (hr _ _ h)
  | none => exact .none

theorem rel_bind {r' : γ → δ → Prop} {x : Option α} {y : Option β} (h : Option.Rel r x y) {f : α → Option γ} {g : β → Option δ}
    (hr : ∀ a b, r a b → Option.Rel r' (f a) (g b)) : Option.Rel r' (x.bind f) (y.bind g) := by
  cases h with
  | some h => exact hr _ _ h
  | none => exact .none

theorem rel_isSome {x : Option α} {y : Option β} (h : Option.Rel r x y) : x.isSome = y.isSome := by
  cases h <;> rfl

theorem rel_any {x : Option α} {y : Option β} (h : Option.Rel r x y) {f : α → Bool} {g : β → Bool}
    (hr : ∀ a b, r a b → f a = g b) : x.any f = y.any g := by
  cases h with
  | some h => exact hr _ _ h
  | none => rfl

theorem eq_of_rel {r : α → α → Prop} {x y : Option α} (h : Option.Rel r x y) (hr : ∀ a b, r a b → a = b) : x = y := by
  cases h with
  | some h => rw [hr _ _ h]
  | none => rfl

/-- results that are alike -/
inductive ResultAlike (r : ε → ε' → Prop) (q : α → β → Prop) : Except ε α → Except ε' β → Prop
  | error {e e'} (h : r e e') : ResultAlike r q (.error e) (.error e')
  | ok {a b} (h : q a b) : ResultAlike r q (.ok a) (.ok b)

/-- sections that end alike -/
inductive SectionAlike (r : σ → σ' → Prop) (q : α → β → Prop) : Section σ α → Section σ' β → Prop
  | go {x y} (h : r x y) : SectionAlike r q (.go x) (.go y)
  | wait {x y} (h : r x y) : SectionAlike r q (.wait x) (.wait y)
  | pause {x y} (h : r x y) : SectionAlike r q (.pause x) (.pause y)
  | ended {a b} (h : q a b) : SectionAlike r q (.ended a) (.ended b)

/-- tables with the same keys in the same order, and values that are alike -/
def RowsAlike (r : α → β → Prop) (t : Table κ α) (t' : Table κ β) : Prop :=
  List.Forall₂ (fun a b => a.1 = b.1 ∧ r a.2 b.2) t.rows t'.rows

/-- tables that show values that are alike under some of the keys -/
def Agree [DecidableEq κ] (on : κ → Prop) (r : α → β → Prop) (t : Table κ α) (t' : Table κ β) : Prop :=
  ∀ k, on k → Option.Rel r (t.get? k) (t'.get? k)

theorem RowsAlike.mono {t : Table κ α} {t' : Table κ β} (h : RowsAlike r t t') (hr : ∀ a b, r a b → r' a b) :
    RowsAlike r' t t' :=
  List.Forall₂.imp (fun _ _ hab => ⟨hab.1, hr _ _ hab.2⟩) h

theorem RowsAlike.empty : RowsAlike r (.empty : Table κ α) (.empty : Table κ β) := .nil

theorem RowsAlike.keys {t : Table κ α} {t' : Table κ β} (h : RowsAlike r t t') : t.keys = t'.keys := by
  unfold RowsAlike at h
  unfold Table.keys
  generalize t.rows = rows at h
  generalize t'.rows = rows' at h
  induction h with
  | nil => rfl
  | cons hab _ ih => rw [List.map_cons, List.map_cons, hab.1, ih]

theorem RowsAlike.values {t : Table κ α} {t' : Table κ β} (h : RowsAlike r t t') :
    List.Forall₂ r t.values t'.values := by
  unfold RowsAlike at h
  unfold Table.values
  rw [List.forall₂_map_left_iff, List.forall₂_map_right_iff]
  exact h.imp fun _ _ hab => hab.2

variable [DecidableEq κ]

theorem RowsAlike.get? {t : Table κ α} {t' : Table κ β} (h : RowsAlike r t t') (k : κ) :
    Option.Rel r (t.get? k) (t'.get? k) := by
  unfold RowsAlike at h
  unfold Table.get?
  generalize t.rows = rows at h
  generalize t'.rows = rows' at h
  induction h with
  | nil => exact .none
  | @cons a b as bs hab _ ih =>
    obtain ⟨ka, va⟩ := a
    obtain ⟨kb, vb⟩ := b
    obtain ⟨rfl, hv⟩ := hab
    simp only [Table.find]
    split
    · exact .some hv
    · exact ih

theorem RowsAlike.contains {t : Table κ α} {t' : Table κ β} (h : RowsAlike r t t') (k : κ) : t.contains k = t'.contains k :=
  rel_isSome (h.get? k)

theorem RowsAlike.insert {t : Table κ α} {t' : Table κ β} (h : RowsAlike r t t') (k : κ) {a : α} {b : β} (hab : r a b) :
    RowsAlike r (t.insert k a) (t'.insert k b) := by
  unfold RowsAlike at h
  change List.Forall₂ _ (Table.put k a t.rows) (Table.put k b t'.rows)
  generalize t.rows = rows at h
  generalize t'.rows = rows' at h
  induction h with
  | nil => exact .cons ⟨rfl, hab⟩ .nil
  | @cons x y xs ys hxy hrest ih =>
    obtain ⟨kx, vx⟩ := x
    obtain ⟨ky, vy⟩ := y
    obtain ⟨rfl, hv⟩ := hxy
    simp only [Table.put]
    split
    · exact .cons ⟨rfl, hab⟩ hrest
    · exact .cons ⟨rfl, hv⟩ ih

theorem RowsAlike.erase {t : Table κ α} {t' : Table κ β} (h : RowsAlike r t t') (k : κ) : RowsAlike r (t.erase k) (t'.erase k) := by
  unfold RowsAlike at h
  change List.Forall₂ _ (t.rows.filter _) (t'.rows.filter _)
  generalize t.rows = rows at h
  generalize t'.rows = rows' at h
  induction h with
  | nil => exact .nil
  | @cons x y xs ys hxy hrest ih =>
    rw [List.filter_cons, List.filter_cons, hxy.1]
    split
    · exact .cons hxy ih
    · exact ih

theorem find_eq_none {k : κ} (rows : List (κ × α)) (h : k ∉ rows.map Prod.fst) : Table.find k rows = none := by
  induction rows with
  | nil => rfl
  | cons x rest ih =>
    rw [List.map_cons, List.mem_cons, not_or] at h
    rw [Table.find, if_neg (Ne.symm h.1), ih h.2]

theorem forall₂_of_find {rows : List (κ × α)} {rows' : List (κ × β)} (hkeys : rows.map Prod.fst = rows'.map Prod.fst)
    (hnodup : (rows.map Prod.fst).Nodup) (h : ∀ k, Option.Rel r (Table.find k rows) (Table.find k rows')) :
    List.Forall₂ (fun a b => a.1 = b.1 ∧ r a.2 b.2) rows rows' := by
  induction rows generalizing rows' with
  | nil =>
    rw [List.map_eq_nil_iff.1 hkeys.symm]
    exact .nil
  | cons x rest ih =>
    obtain ⟨k, a⟩ := x
    cases rows' with
    | nil => cases hkeys
    | cons y rest' =>
      obtain ⟨k', b⟩ := y
      obtain ⟨rfl, hrest⟩ := List.cons_eq_cons.1 hkeys
      obtain ⟨hk, hnodup'⟩ := List.nodup_cons.1 hnodup
      have hab : r a b := by
        have hself := h k
        rw [Table.find, Table.find, if_pos rfl, if_pos rfl] at hself
        cases hself with
        | some hab => exact hab
      refine .cons ⟨rfl, hab⟩ (ih hrest hnodup' fun i => ?_)
      have hi := h i
      rw [Table.find, Table.find] at hi
      by_cases hki : k = i
      · subst hki
        rw [find_eq_none rest hk, find_eq_none rest' (hrest ▸ hk)]
        exact .none
      · rwa [if_neg hki, if_neg hki] at hi

/-- tables with the same keys that show what is alike under every key -/
theorem RowsAlike.ofAgree {on : κ → Prop} {t : Table κ α} {t' : Table κ β} (hkeys : t.keys = t'.keys) (h : Agree on r t t')
    (hon : ∀ k, on k) : RowsAlike r t t' :=
  forall₂_of_find hkeys t.nodup fun k => h k (hon k)

theorem RowsAlike.modify {t : Table κ α} {t' : Table κ β} (h : RowsAlike r t t') (k : κ) {f : α → α} {g : β → β}
    (hfg : ∀ a b, r a b → r (f a) (g b)) : RowsAlike r (t.modify k f) (t'.modify k g) := by
  unfold RowsAlike at h
  change List.Forall₂ _ (t.rows.map _) (t'.rows.map _)
  rw [List.forall₂_map_left_iff, List.forall₂_map_right_iff]
  refine h.imp fun a b hab => ⟨hab.1, ?_⟩
  dsimp only
  rw [← hab.1]
  split
  · exact hfg _ _ hab.2
  · exact hab.2

variable {on : κ → Prop} {t : Table κ α} {t' : Table κ β}

theorem Agree.map (h : Agree on r t t') {r' : γ → δ → Prop} {f : κ → α → γ} {g : κ → β → δ}
    (hfg : ∀ {k} a b, r a b → r' (f k a) (g k b)) : Agree on r' (t.map f) (t'.map g) := by
  intro k hk
  rw [Table.get?_map, Table.get?_map]
  exact rel_map (h k hk) hfg

theorem Agree.mono (h : Agree on r t t') (hr : ∀ a b, r a b → r' a b) : Agree on r' t t' :=
  fun k hk => rel_mono (h k hk) hr

theorem Agree.insert (h : Agree on r t t') (k : κ) {a : α} {b : β} (hab : r a b) : Agree on r (t.insert k a) (t'.insert k b) := by
  intro k' hk'
  rw [Table.get?_insert, Table.get?_insert]
  split
  · exact .some hab
  · exact h k' hk'

theorem Agree.erase (h : Agree on r t t') (k : κ) : Agree on r (t.erase k) (t'.erase k) := by
  intro k' hk'
  rw [Table.get?_erase, Table.get?_erase]
  split
  · exact .none
  · exact h k' hk'

theorem Agree.modify (h : Agree on r t t') (k : κ) {f : α → α} {g : β → β} (hfg : ∀ a b, r a b → r (f a) (g b)) :
    Agree on r (t.modify k f) (t'.modify k g) := by
  intro k' hk'
  rw [Table.get?_modify, Table.get?_modify]
  split
  · exact rel_map (h k' hk') hfg
  · exact h k' hk'

theorem Agree.getD (h : Agree on r t t') {k : κ} (hk : on k) {a : α} {b : β} (hab : r a b) : r (t.getD k a) (t'.getD k b) := by
  unfold Table.getD
  have hrel := h k hk
  generalize t.get? k = x at hrel
  generalize t'.get? k = y at hrel
  cases hrel with
  | some h => exact h
  | none => exact hab

theorem keys_insert (t : Table κ α) (k : κ) (a : α) : (t.insert k a).keys = if k ∈ t.keys then t.keys else t.keys ++ [k] := by
  change (Table.put k a t.rows).map Prod.fst =
    if k ∈ t.rows.map Prod.fst then t.rows.map Prod.fst else t.rows.map Prod.fst ++ [k]
  generalize t.rows = rows
  induction rows with
  | nil => rfl
  | cons x rest ih =>
    obtain ⟨kx, vx⟩ := x
    simp only [Table.put]
    split
    · rename_i hk
      simp [hk]
    · rename_i hk
      rw [List.map_cons, ih]
      by_cases hmem : k ∈ rest.map Prod.fst
      · simp [hmem]
      · simp [hmem, Ne.symm hk]

theorem keys_erase (t : Table κ α) (k : κ) : (t.erase k).keys = t.keys.filter fun x => !decide (x = k) := by
  change (t.rows.filter _).map Prod.fst = (t.rows.map Prod.fst).filter _
  rw [List.filter_map]
  rfl

end Lifting

/-! ## What runs have in store -/

variable (S : Scope) (θ : Pairing)

structure VersionAlike (x x' : Version) : Prop where
  contents : x.contents = x'.contents
  modified : θ.on .date x.modified x'.modified
  external : θ.on .date x.external x'.external

structure SnapshotAlike (x x' : Snapshot) : Prop where
  path : S.path x.path x'.path
  status : x.status = x'.status
  version : Option.Rel (VersionAlike θ) x.version x'.version

/-- messages that are the same but for a path that they quote -/
inductive FailureAlike : Failure → Failure → Prop
  | same (f : Failure) : FailureAlike f f
  | quoting (before after : String) {p p' : Path} (h : S.path p p') :
      FailureAlike ⟨before ++ p.quoted ++ after, []⟩ ⟨before ++ p'.quoted ++ after, []⟩

inductive ProblemAlike : Problem → Problem → Prop
  | same (e : Problem) : ProblemAlike e e
  | unwatchedWrite {p p' : Path} (h : S.path p p') : ProblemAlike (.unwatchedWrite p) (.unwatchedWrite p')
  | vanished {p p' : Path} (h : S.path p p') : ProblemAlike (.vanished p) (.vanished p')
  | other {f f' : Failure} (h : FailureAlike S f f') : ProblemAlike (.other f) (.other f')

structure StatAlike (x x' : FileStat) : Prop where
  modified : θ.on .date x.modified x'.modified
  length : x.length = x'.length

inductive AnswerAlike : Answer → Answer → Prop
  | nothing : AnswerAlike .nothing .nothing
  | flag (b : Bool) : AnswerAlike (.flag b) (.flag b)
  | snapshot {x x' : Snapshot} (h : SnapshotAlike S θ x x') : AnswerAlike (.snapshot x) (.snapshot x')
  | stat {x x' : Option FileStat} (h : Option.Rel (StatAlike θ) x x') : AnswerAlike (.stat x) (.stat x')
  | text (s : String) : AnswerAlike (.text s) (.text s)

abbrev OutcomeAlike : Outcome → Outcome → Prop := ResultAlike (ProblemAlike S) (AnswerAlike S θ)

inductive EndingAlike : Ending → Ending → Prop
  | returned {o o' : Outcome} (h : OutcomeAlike S θ o o') : EndingAlike (.returned o) (.returned o')
  | cancelled : EndingAlike .cancelled .cancelled

structure TurnAlike (τ τ' : Turn) : Prop where
  id : θ.on .turn τ.id τ'.id
  key : τ.key = τ'.key
  seen : S.seen τ.key = true
  lock : θ.on .lock τ.lock τ'.lock

structure LockAlike (l l' : Lock) : Prop where
  holder : Option.Rel (θ.on .turn) l.holder l'.holder
  queue : List.Forall₂ (θ.on .turn) l.queue l'.queue

structure SlotAlike (s s' : Slot) : Prop where
  lock : θ.on .lock s.lock s'.lock
  users : s.users = s'.users

inductive CallAlike : Call → Call → Prop
  | held {g g' : GateId} (h : θ.on .gate g g') : CallAlike (.held g) (.held g')
  | due : CallAlike .due .due

structure LookAlike (l l' : Look) : Prop where
  path : S.path l.path l'.path
  turn : TurnAlike S θ l.turn l'.turn
  signal : Option.Rel (θ.on .signal) l.signal l'.signal
  had : l.had = l'.had
  last : θ.on .date l.last l'.last

inductive RefreshAlike : Refresh → Refresh → Prop
  | queued {p p' : Path} {q q' : QueryId} {τ τ' : Turn} (hp : S.path p p') (hq : θ.on .query q q') (hτ : TurnAlike S θ τ τ') :
      RefreshAlike (.queued p q τ) (.queued p' q' τ')
  | looking {l l' : Look} {c c' : Call} (hl : LookAlike S θ l l') (hc : CallAlike θ c c') :
      RefreshAlike (.looking l c) (.looking l' c')
  | reading {l l' : Look} {t t' : Instant} {c c' : Call} (hl : LookAlike S θ l l') (ht : θ.on .date t t')
      (hc : CallAlike θ c c') : RefreshAlike (.reading l t c) (.reading l' t' c')
  | lookingAgain {l l' : Look} {f f' : Failure} {c c' : Call} (hl : LookAlike S θ l l') (hf : FailureAlike S f f')
      (hc : CallAlike θ c c') : RefreshAlike (.lookingAgain l f c) (.lookingAgain l' f' c')

structure JobAlike (j j' : SaveJob) : Prop where
  path : S.path j.path j'.path
  bytes : j.bytes = j'.bytes
  turn : TurnAlike S θ j.turn j'.turn
  revoked : j.revoked = j'.revoked
  waiters : Option.Rel (θ.on .signal) j.waiters j'.waiters

inductive SaveAlike : Save → Save → Prop
  | queued {j j' : SaveJob} (h : JobAlike S θ j j') : SaveAlike (.queued j) (.queued j')
  | writing {j j' : SaveJob} {c c' : Call} (h : JobAlike S θ j j') (hc : CallAlike θ c c') :
      SaveAlike (.writing j c) (.writing j' c')
  | looking {j j' : SaveJob} {c c' : Call} (h : JobAlike S θ j j') (hc : CallAlike θ c c') :
      SaveAlike (.looking j c) (.looking j' c')

structure SeatAlike (x x' : Seat) : Prop where
  path : S.path x.path x'.path
  subscriber : x.subscriber = x'.subscriber
  joined : θ.on .signal x.joined x'.joined

inductive LeavingAlike : Leaving → Leaving → Prop
  | unwatched : LeavingAlike .unwatched .unwatched
  | failed {x x' : Seat} {e e' : Problem} (hx : SeatAlike S θ x x') (he : ProblemAlike S e e') :
      LeavingAlike (.failed x e) (.failed x' e')
  | abandoned : LeavingAlike .abandoned .abandoned

/-- Requests that concern the engine as a whole are alike only in runs that go the same way. -/
inductive RequestAlike : Request → Request → Prop
  | watch {p p' : Path} (h : S.path p p') (x : SubscriberId) : RequestAlike (.watch p x) (.watch p' x)
  | unwatch {p p' : Path} (h : S.path p p') (x : SubscriberId) : RequestAlike (.unwatch p x) (.unwatch p' x)
  | write {p p' : Path} (h : S.path p p') (bytes : ByteArray) : RequestAlike (.write p bytes) (.write p' bytes)
  | reconcile {p p' : Path} (h : S.path p p') : RequestAlike (.reconcile p) (.reconcile p')
  | release {p p' : Path} (h : S.path p p') : RequestAlike (.release p) (.release p')
  | waitIdle (h : S.whole) : RequestAlike .waitIdle .waitIdle
  | shutDown (h : S.whole) : RequestAlike .shutDown .shutDown
  | diskStat {p p' : Path} (h : S.path p p') : RequestAlike (.diskStat p) (.diskStat p')
  | diskRead {p p' : Path} (h : S.path p p') : RequestAlike (.diskRead p) (.diskRead p')
  | diskWrite {p p' : Path} (h : S.path p p') (bytes : ByteArray) : RequestAlike (.diskWrite p bytes) (.diskWrite p' bytes)

inductive ActivityAlike : Activity → Activity → Prop
  | starting {y y' : Request} (h : RequestAlike S y y') : ActivityAlike (.starting y) (.starting y')
  | refreshing {r r' : Refresh} (h : RefreshAlike S θ r r') : ActivityAlike (.refreshing r) (.refreshing r')
  | saving {x x' : Save} (h : SaveAlike S θ x x') : ActivityAlike (.saving x) (.saving x')
  | joining {p p' : Path} {j j' : SignalId} {o o' : Option SignalId} (hp : S.path p p') (x : SubscriberId)
      (hj : θ.on .signal j j') (ho : Option.Rel (θ.on .signal) o o') : ActivityAlike (.joining p x j o) (.joining p' x j' o')
  | synchronizing {x x' : Seat} {r r' : Refresh} (hx : SeatAlike S θ x x') (h : RefreshAlike S θ r r') :
      ActivityAlike (.synchronizing x r) (.synchronizing x' r')
  | settling {x x' : Seat} {o o' : Option SignalId} (hx : SeatAlike S θ x x') (ho : Option.Rel (θ.on .signal) o o') :
      ActivityAlike (.settling x o) (.settling x' o')
  | tearingDown {p p' : Path} {τ τ' : Option Turn} {l l' : Leaving} (hp : S.path p p') (hτ : Option.Rel (TurnAlike S θ) τ τ')
      (hl : LeavingAlike S θ l l') : ActivityAlike (.tearingDown p τ l) (.tearingDown p' τ' l')
  | awaitingQuiet (h : S.whole) : ActivityAlike .awaitingQuiet .awaitingQuiet
  | closing {ps ps' : List Path} (h : S.whole) (hps : List.Forall₂ S.path ps ps') : ActivityAlike (.closing ps) (.closing ps')
  | draining {p p' : Path} {τ τ' : Option Turn} {ps ps' : List Path} (h : S.whole) (hp : S.path p p')
      (hτ : Option.Rel (TurnAlike S θ) τ τ') (hps : List.Forall₂ S.path ps ps') :
      ActivityAlike (.draining p τ ps) (.draining p' τ' ps')
  | diskStat {p p' : Path} {c c' : Call} (hp : S.path p p') (hc : CallAlike θ c c') :
      ActivityAlike (.diskStat p c) (.diskStat p' c')
  | diskRead {p p' : Path} {c c' : Call} (hp : S.path p p') (hc : CallAlike θ c c') :
      ActivityAlike (.diskRead p c) (.diskRead p' c')
  | diskWrite {p p' : Path} (bytes : ByteArray) {c c' : Call} (hp : S.path p p') (hc : CallAlike θ c c') :
      ActivityAlike (.diskWrite p bytes c) (.diskWrite p' bytes c')
  | listening {p p' : Path} (hp : S.path p p') (x : SubscriberId) : ActivityAlike (.listening p x) (.listening p' x)
  | pumping (s : StreamId) : ActivityAlike (.pumping s) (.pumping s)

structure PhaseAlike (ph ph' : Phase) : Prop where
  role : ph.role = ph'.role
  activity : ActivityAlike S θ ph.activity ph'.activity

structure TaskAlike (t t' : Task Phase) : Prop where
  phase : PhaseAlike S θ t.phase t'.phase
  cancelled : t.cancelled = t'.cancelled

inductive AwaitAlike : Await → Await → Prop
  | nothing : AwaitAlike .nothing .nothing
  | turn {a b : TurnId} (h : θ.on .turn a b) : AwaitAlike (.turn a) (.turn b)
  | gate {a b : GateId} (h : θ.on .gate a b) : AwaitAlike (.gate a) (.gate b)
  | signal {a b : SignalId} (h : θ.on .signal a b) : AwaitAlike (.signal a) (.signal b)
  | quiet : AwaitAlike .quiet .quiet
  | message (s : StreamId) : AwaitAlike (.message s) (.message s)
  | farewell (x : SubscriberId) : AwaitAlike (.farewell x) (.farewell x)

structure RegistrationAlike (x x' : Registration) : Prop where
  listener : Option.Rel (θ.on .task) x.listener x'.listener

structure EntryAlike (e e' : Entry) : Prop where
  spelling : S.path e.spelling e'.spelling
  contents : e.contents = e'.contents
  modified : θ.on .date e.modified e'.modified
  external : θ.on .date e.external e'.external
  pendingQuery : Option.Rel (θ.on .query) e.pendingQuery e'.pendingQuery
  pendingSignal : Option.Rel (θ.on .signal) e.pendingSignal e'.pendingSignal
  runningSignal : Option.Rel (θ.on .signal) e.runningSignal e'.runningSignal
  revokedSignals : List.Forall₂ (θ.on .signal) e.revokedSignals e'.revokedSignals
  count : e.count = e'.count
  registered : RowsAlike (RegistrationAlike θ) e.registered e'.registered
  joining : RowsAlike (θ.on .signal) e.joining e'.joining
  armed : e.armed = e'.armed

structure EventAlike (x x' : Event) : Prop where
  path : S.path x.path x'.path
  kind : x.kind = x'.kind

inductive WatcherCallAlike : WatcherCall → WatcherCall → Prop
  | arm {p p' : Path} (h : S.path p p') : WatcherCallAlike (.arm p) (.arm p')
  | disarm {p p' : Path} (h : S.path p p') : WatcherCallAlike (.disarm p) (.disarm p')

/-- the messages of the one channel that can be seen are alike those of the other -/
structure ChannelAlike {α : Type} (visible : α → Bool) (r : α → α → Prop) (c c' : Channel α) : Prop where
  buffer : List.Forall₂ r (c.buffer.filter visible) c'.buffer
  isOpen : c.isOpen = c'.isOpen
  receiver : c.receiver = c'.receiver
  sender : c.sender = c'.sender

/-! ## Pairings grow -/

variable {S θ} {θ' : Pairing}

theorem VersionAlike.mono {x x' : Version} (h : VersionAlike θ x x') (hθ : θ ≤ θ') : VersionAlike θ' x x' :=
  ⟨h.contents, hθ _ _ h.modified, hθ _ _ h.external⟩

theorem SnapshotAlike.mono {x x' : Snapshot} (h : SnapshotAlike S θ x x') (hθ : θ ≤ θ') : SnapshotAlike S θ' x x' :=
  ⟨h.path, h.status, rel_mono h.version fun _ _ hx => hx.mono hθ⟩

theorem AnswerAlike.mono {x x' : Answer} (h : AnswerAlike S θ x x') (hθ : θ ≤ θ') : AnswerAlike S θ' x x' := by
  cases h with
  | nothing => exact .nothing
  | flag b => exact .flag b
  | snapshot h => exact .snapshot (h.mono hθ)
  | stat h => exact .stat (rel_mono h fun _ _ hx => ⟨hθ _ _ hx.modified, hx.length⟩)
  | text s => exact .text s

theorem OutcomeAlike.mono {o o' : Outcome} (h : OutcomeAlike S θ o o') (hθ : θ ≤ θ') : OutcomeAlike S θ' o o' := by
  cases h with
  | error h => exact .error h
  | ok h => exact .ok (h.mono hθ)

theorem EndingAlike.mono {x x' : Ending} (h : EndingAlike S θ x x') (hθ : θ ≤ θ') : EndingAlike S θ' x x' := by
  cases h with
  | returned h => exact .returned (OutcomeAlike.mono h hθ)
  | cancelled => exact .cancelled

theorem TurnAlike.mono {τ τ' : Turn} (h : TurnAlike S θ τ τ') (hθ : θ ≤ θ') : TurnAlike S θ' τ τ' :=
  ⟨hθ _ _ h.id, h.key, h.seen, hθ _ _ h.lock⟩

theorem LockAlike.mono {l l' : Lock} (h : LockAlike θ l l') (hθ : θ ≤ θ') : LockAlike θ' l l' :=
  ⟨rel_mono h.holder fun _ _ hx => hθ _ _ hx, h.queue.imp fun _ _ hx => hθ _ _ hx⟩

theorem CallAlike.mono {c c' : Call} (h : CallAlike θ c c') (hθ : θ ≤ θ') : CallAlike θ' c c' := by
  cases h with
  | held h => exact .held (hθ _ _ h)
  | due => exact .due

theorem LookAlike.mono {l l' : Look} (h : LookAlike S θ l l') (hθ : θ ≤ θ') : LookAlike S θ' l l' :=
  ⟨h.path, h.turn.mono hθ, rel_mono h.signal fun _ _ hx => hθ _ _ hx, h.had, hθ _ _ h.last⟩

theorem RefreshAlike.mono {r r' : Refresh} (h : RefreshAlike S θ r r') (hθ : θ ≤ θ') : RefreshAlike S θ' r r' := by
  cases h with
  | queued hp hq hτ => exact .queued hp (hθ _ _ hq) (hτ.mono hθ)
  | looking hl hc => exact .looking (hl.mono hθ) (hc.mono hθ)
  | reading hl ht hc => exact .reading (hl.mono hθ) (hθ _ _ ht) (hc.mono hθ)
  | lookingAgain hl hf hc => exact .lookingAgain (hl.mono hθ) hf (hc.mono hθ)

theorem JobAlike.mono {j j' : SaveJob} (h : JobAlike S θ j j') (hθ : θ ≤ θ') : JobAlike S θ' j j' :=
  ⟨h.path, h.bytes, h.turn.mono hθ, h.revoked, rel_mono h.waiters fun _ _ hx => hθ _ _ hx⟩

theorem SaveAlike.mono {x x' : Save} (h : SaveAlike S θ x x') (hθ : θ ≤ θ') : SaveAlike S θ' x x' := by
  cases h with
  | queued h => exact .queued (h.mono hθ)
  | writing h hc => exact .writing (h.mono hθ) (hc.mono hθ)
  | looking h hc => exact .looking (h.mono hθ) (hc.mono hθ)

theorem SeatAlike.mono {x x' : Seat} (h : SeatAlike S θ x x') (hθ : θ ≤ θ') : SeatAlike S θ' x x' :=
  ⟨h.path, h.subscriber, hθ _ _ h.joined⟩

theorem LeavingAlike.mono {l l' : Leaving} (h : LeavingAlike S θ l l') (hθ : θ ≤ θ') : LeavingAlike S θ' l l' := by
  cases h with
  | unwatched => exact .unwatched
  | failed hx he => exact .failed (hx.mono hθ) he
  | abandoned => exact .abandoned

theorem ActivityAlike.mono {a a' : Activity} (h : ActivityAlike S θ a a') (hθ : θ ≤ θ') : ActivityAlike S θ' a a' := by
  have hsignal : ∀ {o o' : Option SignalId}, Option.Rel (θ.on .signal) o o' → Option.Rel (θ'.on .signal) o o' := fun ho =>
    rel_mono ho fun _ _ hx => hθ _ _ hx
  have hturn : ∀ {τ τ' : Option Turn}, Option.Rel (TurnAlike S θ) τ τ' → Option.Rel (TurnAlike S θ') τ τ' := fun hτ =>
    rel_mono hτ fun _ _ hx => hx.mono hθ
  cases h with
  | starting h => exact .starting h
  | refreshing h => exact .refreshing (h.mono hθ)
  | saving h => exact .saving (h.mono hθ)
  | joining hp x hj ho => exact .joining hp x (hθ _ _ hj) (hsignal ho)
  | synchronizing hx h => exact .synchronizing (hx.mono hθ) (h.mono hθ)
  | settling hx ho => exact .settling (hx.mono hθ) (hsignal ho)
  | tearingDown hp hτ hl => exact .tearingDown hp (hturn hτ) (hl.mono hθ)
  | awaitingQuiet h => exact .awaitingQuiet h
  | closing h hps => exact .closing h hps
  | draining h hp hτ hps => exact .draining h hp (hturn hτ) hps
  | diskStat hp hc => exact .diskStat hp (hc.mono hθ)
  | diskRead hp hc => exact .diskRead hp (hc.mono hθ)
  | diskWrite bytes hp hc => exact .diskWrite bytes hp (hc.mono hθ)
  | listening hp x => exact .listening hp x
  | pumping s => exact .pumping s

theorem TaskAlike.mono {t t' : Task Phase} (h : TaskAlike S θ t t') (hθ : θ ≤ θ') : TaskAlike S θ' t t' :=
  ⟨⟨h.phase.role, h.phase.activity.mono hθ⟩, h.cancelled⟩

theorem EntryAlike.mono {e e' : Entry} (h : EntryAlike S θ e e') (hθ : θ ≤ θ') : EntryAlike S θ' e e' where
  spelling := h.spelling
  contents := h.contents
  modified := hθ _ _ h.modified
  external := hθ _ _ h.external
  pendingQuery := rel_mono h.pendingQuery fun _ _ hx => hθ _ _ hx
  pendingSignal := rel_mono h.pendingSignal fun _ _ hx => hθ _ _ hx
  runningSignal := rel_mono h.runningSignal fun _ _ hx => hθ _ _ hx
  revokedSignals := h.revokedSignals.imp fun _ _ hx => hθ _ _ hx
  count := h.count
  registered := h.registered.mono fun _ _ hx => ⟨rel_mono hx.listener fun _ _ hy => hθ _ _ hy⟩
  joining := h.joining.mono fun _ _ hx => hθ _ _ hx
  armed := h.armed

theorem ChannelAlike.mono {α : Type} {visible : α → Bool} {r r' : α → α → Prop} {c c' : Channel α}
    (h : ChannelAlike visible r c c') (hr : ∀ a b, r a b → r' a b) : ChannelAlike visible r' c c' :=
  ⟨h.buffer.imp hr, h.isOpen, h.receiver, h.sender⟩

end LiveFiles.Engine
