/-
Counting subscribers. The count of an entry should be the number of those who have a place there: the registered, the calls
to watch that have a place and have not given it back, and the background tasks that are to give one back for a call that was
cancelled.
- A section keeps the count right (`Shift.exact`), and so does the end of a task that is cancelled (`seated_cancelled`),
  unless it is one that was to give a place back.
- `Dealing.orderly`: a call that has a place is joining under its own signal, whoever is joining belongs to a call, and nobody
  is registered and joining at once (`Orderly`).
- **`count_exact`**: so in a run without shutting down in which no such task is cancelled, the count is right in every state,
  a place that is given back has been counted, and when all is done only the registered are left.
-/
import LiveFiles.Proofs.Cancelling
import LiveFiles.Proofs.Requests

namespace LiveFiles.Engine

/-! ## Registered and joining -/

/-- who is registered at a path, and for whom calls to watch are joining -/
structure Book where
  registered : Table SubscriberId Registration
  joining : Table SubscriberId SignalId

def Face.book (f : Face) : Book := ⟨f.registered, f.joining⟩

def Front.book? (v : Front) (k : Path.Key) : Option Book := (v.face? k).map Face.book

/-- a call that was joining is over, unless another one has come in its place -/
def Book.unseat (b : Book) (id : SubscriberId) (joined : SignalId) : Book :=
  if b.joining.get? id = some joined then { b with joining := b.joining.erase id } else b

/-- The seats `S` of tasks are in the books `B`: those that come with a place (`H`) are joining, whoever is joining has a seat,
and nobody is registered and joining at once. -/
structure Orderly (B : Path.Key → Option Book) (S H : TaskId → Option Seat) : Prop where
  seat : ∀ i seat, H i = some seat → S i = some seat
  held : ∀ i seat, H i = some seat → ∃ b, B seat.path.key = some b ∧ b.joining.get? seat.subscriber = some seat.joined
  owned : ∀ k b x s, B k = some b → b.joining.get? x = some s → ∃ i p, S i = some ⟨p, x, s⟩ ∧ p.key = k
  apart : ∀ k b x, B k = some b → b.registered.contains x = true → b.joining.get? x = none

/-- no two tasks have seats with the same signal -/
def Distinct (S : TaskId → Option Seat) : Prop :=
  ∀ i j seat seat', S i = some seat → S j = some seat' → seat.joined = seat'.joined → i = j

variable {B : Path.Key → Option Book} {S H : TaskId → Option Seat} {i : TaskId} {seat : Seat} {k : Path.Key} {b : Book}

theorem Book.joining_unseat (b : Book) (id : SubscriberId) (joined : SignalId) (x : SubscriberId) :
    (b.unseat id joined).joining.get? x =
      if x = id ∧ b.joining.get? x = some joined then none else b.joining.get? x := by
  unfold Book.unseat
  by_cases hx : x = id
  · subst hx
    split
    · rename_i h
      simp [Table.get?_erase, h]
    · rename_i h
      simp [h]
  · simp only [hx, false_and, if_false]
    split
    · simp [Table.get?_erase, Ne.symm hx]
    · rfl

@[simp] theorem Book.registered_unseat (b : Book) (id : SubscriberId) (joined : SignalId) :
    (b.unseat id joined).registered = b.registered := by
  unfold Book.unseat
  split <;> rfl

/-- a seat is given up -/
theorem Orderly.unseat (ho : Orderly B S H) (hd : Distinct S) (hi : S i = some seat) :
    Orderly (Function.update B seat.path.key ((B seat.path.key).map (·.unseat seat.subscriber seat.joined)))
      (Function.update S i none) (Function.update H i none) where
  seat j σ hj := by
    by_cases hji : j = i
    · subst hji
      simp at hj
    · rw [Function.update_of_ne hji] at hj ⊢
      exact ho.seat j σ hj
  held j σ hj := by
    by_cases hji : j = i
    · subst hji
      simp at hj
    · rw [Function.update_of_ne hji] at hj
      obtain ⟨b, hb, hjoin⟩ := ho.held j σ hj
      by_cases hk : σ.path.key = seat.path.key
      · rw [hk] at hb ⊢
        rw [Function.update_self, hb]
        refine ⟨_, rfl, ?_⟩
        rw [Book.joining_unseat, if_neg, hjoin]
        rintro ⟨-, h⟩
        exact hji (hd j i σ seat (ho.seat j σ hj) hi (Option.some.inj (hjoin.symm.trans h)))
      · exact ⟨b, by rw [Function.update_of_ne hk, hb], hjoin⟩
  owned k b x s hb hx := by
    have hold : ∀ b₀, B k = some b₀ → b₀.joining.get? x = some s → (seat.path.key = k → ¬ (x = seat.subscriber ∧
        s = seat.joined)) → ∃ j p, Function.update S i none j = some ⟨p, x, s⟩ ∧ p.key = k := fun b₀ hb₀ hx₀ hne => by
      obtain ⟨j, p, hj, hp⟩ := ho.owned k b₀ x s hb₀ hx₀
      refine ⟨j, p, ?_, hp⟩
      rw [Function.update_of_ne, hj]
      rintro rfl
      cases hi.symm.trans hj
      exact hne hp ⟨rfl, rfl⟩
    by_cases hk : k = seat.path.key
    · subst hk
      rw [Function.update_self] at hb
      obtain ⟨b₀, hb₀, rfl⟩ := Option.map_eq_some_iff.1 hb
      rw [Book.joining_unseat] at hx
      split at hx
      · cases hx
      · rename_i hne
        refine hold b₀ hb₀ hx fun _ h => hne ⟨h.1, ?_⟩
        rw [hx, h.2]
    · rw [Function.update_of_ne hk] at hb
      exact hold b hb hx fun h => absurd h.symm hk
  apart k b x hb hx := by
    by_cases hk : k = seat.path.key
    · subst hk
      rw [Function.update_self] at hb
      obtain ⟨b₀, hb₀, rfl⟩ := Option.map_eq_some_iff.1 hb
      rw [Book.registered_unseat] at hx
      rw [Book.joining_unseat]
      split
      · rfl
      · exact ho.apart _ b₀ x hb₀ hx
    · rw [Function.update_of_ne hk] at hb
      exact ho.apart k b x hb hx

/-- of those who are not joining others are registered now -/
theorem Orderly.register (ho : Orderly B S H) (hb : B k = some b) {t : Table SubscriberId Registration}
    (ht : ∀ x, t.contains x = true → b.joining.get? x = none) :
    Orderly (Function.update B k (some ⟨t, b.joining⟩)) S H where
  seat := ho.seat
  held j σ hj := by
    obtain ⟨b', hb', hjoin⟩ := ho.held j σ hj
    by_cases hk : σ.path.key = k
    · rw [hk, hb] at hb'
      cases hb'
      exact ⟨⟨t, b.joining⟩, by rw [hk, Function.update_self], hjoin⟩
    · exact ⟨b', by rw [Function.update_of_ne hk, hb'], hjoin⟩
  owned k' b' y s hb' hy := by
    by_cases hk : k' = k
    · subst hk
      rw [Function.update_self] at hb'
      cases hb'
      exact ho.owned k' b y s hb hy
    · rw [Function.update_of_ne hk] at hb'
      exact ho.owned k' b' y s hb' hy
  apart k' b' y hb' hy := by
    by_cases hk : k' = k
    · subst hk
      rw [Function.update_self] at hb'
      cases hb'
      exact ht y hy
    · rw [Function.update_of_ne hk] at hb'
      exact ho.apart k' b' y hb' hy

/-- an entry is dropped where no task has a place -/
theorem Orderly.vacate (ho : Orderly B S H) (hno : ∀ j σ, H j = some σ → σ.path.key ≠ k) :
    Orderly (Function.update B k none) S H where
  seat := ho.seat
  held j σ hj := by
    obtain ⟨b, hb, hjoin⟩ := ho.held j σ hj
    exact ⟨b, by rw [Function.update_of_ne (hno j σ hj), hb], hjoin⟩
  owned k' b y s hb hy := by
    by_cases hk : k' = k
    · subst hk
      rw [Function.update_self] at hb
      cases hb
    · rw [Function.update_of_ne hk] at hb
      exact ho.owned k' b y s hb hy
  apart k' b y hb hy := by
    by_cases hk : k' = k
    · subst hk
      rw [Function.update_self] at hb
      cases hb
    · rw [Function.update_of_ne hk] at hb
      exact ho.apart k' b y hb hy

/-- a call takes a place for a subscriber that is neither registered nor joining -/
theorem Orderly.take (ho : Orderly B S H) (hi : S i = none)
    (hb : B seat.path.key = some b ∨ B seat.path.key = none ∧ b = ⟨.empty, .empty⟩)
    (hr : b.registered.contains seat.subscriber = false) (hj : b.joining.get? seat.subscriber = none) :
    Orderly (Function.update B seat.path.key (some ⟨b.registered, b.joining.insert seat.subscriber seat.joined⟩))
      (Function.update S i (some seat)) (Function.update H i (some seat)) where
  seat j σ hσ := by
    by_cases hji : j = i
    · subst hji
      simpa using hσ
    · rw [Function.update_of_ne hji] at hσ ⊢
      exact ho.seat j σ hσ
  held j σ hσ := by
    by_cases hji : j = i
    · subst hji
      rw [Function.update_self] at hσ
      cases hσ
      exact ⟨_, Function.update_self .., by simp [Table.get?_insert]⟩
    · rw [Function.update_of_ne hji] at hσ
      obtain ⟨b', hb', hjoin⟩ := ho.held j σ hσ
      by_cases hk : σ.path.key = seat.path.key
      · have hbb : b = b' := by
          rw [hk] at hb'
          rcases hb with hb | ⟨hb, -⟩
          · exact Option.some.inj (hb.symm.trans hb')
          · cases hb.symm.trans hb'
        subst hbb
        refine ⟨_, by rw [hk, Function.update_self], ?_⟩
        rw [Table.get?_insert, if_neg, hjoin]
        intro h
        rw [h, hjoin] at hj
        cases hj
      · exact ⟨b', by rw [Function.update_of_ne hk, hb'], hjoin⟩
  owned k b' x s hb' hx := by
    have hold : ∀ b₀, B k = some b₀ → b₀.joining.get? x = some s →
        ∃ j p, Function.update S i (some seat) j = some ⟨p, x, s⟩ ∧ p.key = k := fun b₀ hb₀ hx₀ => by
      obtain ⟨j, p, hj, hp⟩ := ho.owned k b₀ x s hb₀ hx₀
      refine ⟨j, p, ?_, hp⟩
      rw [Function.update_of_ne, hj]
      rintro rfl
      cases hi.symm.trans hj
    by_cases hk : k = seat.path.key
    · subst hk
      rw [Function.update_self] at hb'
      cases hb'
      rw [Table.get?_insert] at hx
      split at hx
      · rename_i h
        subst h
        cases hx
        exact ⟨i, seat.path, Function.update_self .., rfl⟩
      · rcases hb with hb | ⟨-, rfl⟩
        · exact hold b hb hx
        · cases hx
    · rw [Function.update_of_ne hk] at hb'
      exact hold b' hb' hx
  apart k b' x hb' hx := by
    by_cases hk : k = seat.path.key
    · subst hk
      rw [Function.update_self] at hb'
      cases hb'
      rw [Table.get?_insert]
      split
      · rename_i h
        rw [← h] at hx
        exact absurd (hr.symm.trans hx) Bool.false_ne_true
      · rcases hb with hb | ⟨-, rfl⟩
        · exact ho.apart _ b x hb hx
        · rfl
    · rw [Function.update_of_ne hk] at hb'
      exact ho.apart k b' x hb' hx

/-- a call gives its place back, and stays joining -/
theorem Orderly.giveUp (ho : Orderly B S H) (i : TaskId) : Orderly B S (Function.update H i none) where
  seat j σ hσ := by
    by_cases hji : j = i
    · subst hji
      simp at hσ
    · exact ho.seat j σ (by rwa [Function.update_of_ne hji] at hσ)
  held j σ hσ := by
    by_cases hji : j = i
    · subst hji
      simp at hσ
    · exact ho.held j σ (by rwa [Function.update_of_ne hji] at hσ)
  owned := ho.owned
  apart := ho.apart

/-! ### What a section does to the books -/

variable {v v' : Front} {a : Activity} {next : Option Activity} {c : Option Path} {f g : Face}

theorem book?_of_face (h : v.face? k = some f) : v.book? k = some f.book := congrArg (Option.map Face.book) h

theorem book?_put (v : Front) (k : Path.Key) (x : Option Face) :
    (v.put k x).book? = Function.update v.book? k (x.map Face.book) := by
  funext k'
  rw [Front.book?, Front.face?_put, Function.update_apply]
  split <;> rfl

/-- an entry is put in place of one with the same book -/
theorem book?_put_of_book (hf : v.face? k = some f) (h : g.book = f.book) : (v.put k (some g)).book? = v.book? := by
  rw [book?_put, Option.map_some, h, ← book?_of_face hf, Function.update_eq_self]

theorem book?_unseat (v : Front) (seat : Seat) : (v.unseat seat).book? =
    Function.update v.book? seat.path.key ((v.book? seat.path.key).map (·.unseat seat.subscriber seat.joined)) := by
  have hbook : ∀ f : Face, (f.unseat seat.subscriber seat.joined).book = f.book.unseat seat.subscriber seat.joined :=
    fun f => by
    by_cases h : f.joining.get? seat.subscriber = some seat.joined <;> simp [Face.unseat, Book.unseat, Face.book, h]
  rw [Front.unseat, book?_put, Front.book?, Option.map_map, Option.map_map]
  exact congrArg (Function.update _ _) (congrArg (Option.map · _) (funext hbook))

theorem Activity.seat?_of_holder (h : a.holder? = some seat) : a.seat? = some seat := by
  cases a <;> first | exact h | cases h

theorem holder?_of_seat? (h : next.bind Activity.seat? = none) : next.bind Activity.holder? = none := by
  cases next with
  | none => rfl
  | some a =>
    refine Option.eq_none_iff_forall_ne_some.2 fun seat hs => ?_
    cases (Activity.seat?_of_holder hs).symm.trans h

/-- **A section keeps the books in order**, unless it shuts the engine down. -/
theorem Dealing.orderly (h : Dealing v a v' next c) (hne : a ≠ .starting .shutDown) (hcl : a.closes = false)
    (ho : Orderly v.book? S H) (hd : Distinct S) (hS : S i = a.seat?) (hH : H i = a.holder?)
    (hvac : ∀ k f, v.face? k = some f → f.count = 0 → ∀ j σ, H j = some σ → σ.path.key ≠ k) :
    Orderly v'.book? (Function.update S i (next.bind Activity.seat?)) (Function.update H i (next.bind Activity.holder?)) := by
  have hself : Function.update S i a.seat? = S := by rw [← hS, Function.update_eq_self]
  have hself' : Function.update H i a.holder? = H := by rw [← hH, Function.update_eq_self]
  -- the task has no seat, neither before nor after the section
  have hplain : a.seat? = none → next.bind Activity.seat? = none → ∀ {B'}, Orderly B' S H →
      Orderly B' (Function.update S i (next.bind Activity.seat?)) (Function.update H i (next.bind Activity.holder?)) :=
    fun ha hn B' ho' => by
    rw [hn, ← ha, hself, holder?_of_seat? hn]
    exact ho'.giveUp i
  cases h with
  | still hv hs hh => rw [hs, hh, hself, hself', hv]; exact ho
  | unseen p hf hv hs hh => rw [hs, hh, hself, hself', hv]; exact ho
  | commit p f x hf hv hs hh =>
    have hbook : v'.book? = v.book? := hv ▸ book?_put_of_book hf rfl
    rw [hs, hh, hself, hself', hbook]
    exact ho
  | take seat f other ha hf hr hj hv hn =>
    obtain ⟨b, rfl, hb, hb'⟩ := hn
    rw [Option.bind_some, Option.bind_some, hb, hb', hv, book?_put]
    refine ho.take (b := f.book) (hS.trans (ha ▸ rfl)) ?_ hr hj
    rcases hf with hf | ⟨hf, rfl⟩
    · exact Or.inl (book?_of_face hf)
    · exact Or.inr ⟨congrArg (Option.map Face.book) hf, rfl⟩
  | register seat f x ha hf hv hn =>
    obtain ⟨signal, rfl⟩ := ha
    have hseat : S i = some seat := hS
    obtain ⟨b, hb, hjoin⟩ := ho.held i seat hH
    have hbf : b = f.book := Option.some.inj (hb.symm.trans (book?_of_face hf))
    have hun := ho.unseat hd hseat
    rw [hb, Option.map_some] at hun
    have hreg := hun.register (k := seat.path.key) (Function.update_self ..) (t := b.registered.insert seat.subscriber x)
      fun y hy => by
        rw [Book.joining_unseat]
        split
        · rfl
        · rename_i hnot
          rw [Table.contains, Table.get?_insert] at hy
          split at hy
          · rename_i hsy
            exact absurd ⟨hsy.symm, hsy ▸ hjoin⟩ hnot
          · exact ho.apart _ b y hb hy
    subst hn hv
    rw [Function.update_idem] at hreg
    rw [book?_unseat, book?_put, Function.update_self, Function.update_idem]
    refine (congrArg (fun b' => Orderly (Function.update v.book? seat.path.key (some b')) _ _) ?_).mp hreg
    by_cases h : f.joining.get? seat.subscriber = some seat.joined <;> simp [hbf, Book.unseat, Face.book, h]
  | lost seat ha hf hv hn =>
    obtain ⟨b, hb, -⟩ := ho.held i seat (hH.trans ha)
    rw [Front.book?, hf] at hb
    cases hb
  | giveUp seat f ha hf hv =>
    obtain ⟨r, rfl⟩ := ha
    rcases hv with ⟨rfl, -, e, rfl⟩ | ⟨rfl, rfl⟩
    · have hbook := book?_put_of_book (g := { f with count := f.count - 1 }) hf rfl
      rw [hbook]
      have hS' : Function.update S i (some seat) = S := hself
      exact (congrArg (Orderly v.book? · _) hS').mpr (ho.giveUp i)
    · have hbook := book?_put_of_book (g := { f with count := f.count - 1 }) hf rfl
      rw [book?_unseat, hbook]
      exact ho.unseat hd hS
  | release p f ha hf hv hs =>
    subst ha
    have hbook := book?_put_of_book (g := { f with count := f.count - 1 }) hf rfl
    rw [hv, hbook]
    exact hplain rfl hs ho
  | unwatch p id f ha hf hr hv hs =>
    subst ha
    rw [hv, book?_put]
    exact hplain rfl hs (ho.register (book?_of_face hf) fun y hy => ho.apart _ _ y (book?_of_face hf)
      (contains_of_erase hy))
  | tearDown p turn l ha hv hn =>
    have hleave : ∀ {v₀ : Front}, Orderly v₀.book? S H → Orderly (v₀.leave l).book?
        (Function.update S i (next.bind Activity.seat?)) (Function.update H i (next.bind Activity.holder?)) :=
      fun {v₀} ho₀ => by
      subst hn
      cases l with
      | failed seat e =>
        rw [Front.leave, book?_unseat]
        exact ho₀.unseat hd (hS.trans (ha ▸ rfl))
      | unwatched => exact hplain (ha ▸ rfl) rfl ho₀
      | abandoned => exact hplain (ha ▸ rfl) rfl ho₀
    rcases hv with rfl | ⟨⟨f, hf, hz⟩, rfl⟩
    · exact hleave ho
    · refine hleave ?_
      rw [book?_put]
      exact ho.vacate (hvac p.key f hf hz)
  | shutDown ha => exact absurd ha hne
  | forget ha => rw [hcl] at ha; cases ha

/-! ### A task that is cancelled -/

variable {w w' : World} {id : TaskId} {t : Task Phase} {m : Move}

theorem Activity.place?_cases (h : a.place? ≠ none) :
    (∃ seat, a.place? = some seat.path.key ∧ a.holder? = some seat ∧
      ((∃ r, a = .synchronizing seat r) ∨ ∃ x, a = .settling seat x)) ∨ ∃ p, a = .starting (.release p) := by
  cases a with
  | synchronizing seat r => exact Or.inl ⟨seat, rfl, rfl, Or.inl ⟨r, rfl⟩⟩
  | settling seat x => exact Or.inl ⟨seat, rfl, rfl, Or.inr ⟨x, rfl⟩⟩
  | starting r =>
    cases r with
    | release p => exact Or.inr ⟨p, rfl⟩
    | _ => exact absurd rfl h
  | _ => exact absurd rfl h

/-- the task that takes over the place of a cancelled one -/
theorem phase?_abandonSeat (hopen : w.pool.closed = false) (seat : Seat) :
    (w.abandonSeat seat).tasks.phase? w.tasks.next = some ⟨.background, .starting (.release seat.path)⟩ := by
  have hclosed : (w.endSeat seat).pool.closed = false := (aside_giveIf _ (some seat.joined)).closed.trans hopen
  have hnext : (w.endSeat seat).tasks.next = w.tasks.next := next_giveIf _ (some seat.joined)
  have haccept : (w.endSeat seat).pool.accept = some ((w.endSeat seat).pool.next, { (w.endSeat seat).pool with
      next := (w.endSeat seat).pool.next + 1, active := (w.endSeat seat).pool.active + 1 }) := by
    simp [Pool.accept, hclosed]
  simp only [World.abandonSeat, World.inBackground, haccept, World.spawn]
  rw [Tasks.phase?_spawn, if_pos]
  exact (next_wake _ _).trans hnext

theorem phase?_abandon (hopen : w.pool.closed = false) (ha : a.holder? = some seat) :
    (w.abandon a).tasks.phase? w.tasks.next = some ⟨.background, .starting (.release seat.path)⟩ := by
  cases a with
  | synchronizing seat' r =>
    cases ha
    have h := phase?_abandonSeat (w := w.dropRefresh r) ((steady_dropRefresh (P := fun _ => False) w r).closed.trans hopen)
      seat
    rwa [next_dropRefresh] at h
  | settling seat' x =>
    cases ha
    exact phase?_abandonSeat hopen seat
  | _ => cases ha

/-- **The place of a task that is cancelled passes to the task that is to give it back.** -/
theorem seated_cancelled (hw : Wf w) (h : w.served? id = some t) (hc : t.cancelled = true)
    (hopen : w.pool.closed = false) (hrel : ∀ p, t.phase.activity = .starting (.release p) → p.key ≠ k) :
    (serve w id).seated k = w.seated k := by
  refine le_antisymm (seated_cancelled_le hw h hc k) ?_
  have hn' : (serve w id).tasks.Numbered := (wf_move hw (.turn id)).numbered
  have hsum := sum_share_cancelled hw h hc k
  rcases ne_or_eq t.phase.activity.place? (some k) with hplace | hplace
  · rw [share, if_neg hplace, add_zero] at hsum
    rw [← hsum, seated_eq_sum hn' (le_max_right w.tasks.next _)]
    exact Finset.sum_le_sum_of_subset (Finset.range_subset_range.2 (le_max_left _ _))
  · have hreleases : ¬ ∃ p, t.phase.activity = .starting (.release p) := by
      rintro ⟨p, hp⟩
      rw [hp] at hplace
      exact hrel p hp (Option.some.inj hplace)
    obtain ⟨seat, hseat, hholder, -⟩ :=
      (Activity.place?_cases (by rw [hplace]; rintro ⟨⟩)).resolve_right hreleases
    have hnum := numbered_without (numbered_floorTo hw.numbered id) id
    have hnext : ((floorTo w id).without id).tasks.next = w.tasks.next := next_floorTo w id
    -- the new task has the place now
    have hnew : (serve w id).tasks.phase? w.tasks.next = some ⟨.background, .starting (.release seat.path)⟩ := by
      have habandon := phase?_abandon (w := (floorTo w id).without id)
        ((closed_floorTo w id).trans hopen) hholder
      have hnum' := (steady_abandon ((floorTo w id).without id) t.phase.activity).tasks.numbered hnum
      rw [hnext] at habandon
      rw [serve_of_cancelled h hc, ← habandon]
      exact (steady_finish (P := fun _ => False) _ id t.phase.role .cancelled).tasks.phase _ (hnum'.lt habandon)
    have hlt : w.tasks.next + 1 ≤ (serve w id).tasks.next := hn'.lt hnew
    have hplace' : (serve w id).place? w.tasks.next = some seat.path.key := by
      rw [World.place?, hnew]
      rfl
    have hle : ∑ j ∈ Finset.range (w.tasks.next + 1), share ((serve w id).place? j) k ≤ (serve w id).seated k :=
      Finset.sum_le_sum_of_subset (Finset.range_subset_range.2 hlt)
    rw [Finset.sum_range_succ, hplace', ← hseat, hsum] at hle
    exact hle

/-- a move that is not a section of a task leaves the places of the tasks alone, unless it ends one that gives a place back -/
theorem seated_of_no_section (hw : Wf w) (hopen : w.pool.closed = false)
    (hm : ∀ id t, m = .turn id → w.served? id = some t → t.cancelled = true)
    (hrel : ∀ id t p, m = .turn id → w.served? id = some t → t.cancelled = true → t.phase.activity = .starting (.release p) →
      p.key ≠ k) : (w.move m).seated k = w.seated k := by
  by_cases hturn : ∃ id t, m = .turn id ∧ w.served? id = some t
  · obtain ⟨id, t, rfl, ht⟩ := hturn
    have hc := hm id t rfl ht
    exact seated_cancelled hw ht hc hopen fun p => hrel id t p rfl ht hc
  · exact seated_of_nobody hw (fun id t h1 h2 => hturn ⟨id, t, h1, h2⟩) k

/-! ## Seats in a move -/

/-- what a task is about, if it has not ended -/
def World.activity? (w : World) (i : TaskId) : Option Activity := (w.tasks.phase? i).map Phase.activity

/-- the seat of the call to watch that a task carries out -/
def World.seat? (w : World) (i : TaskId) : Option Seat := (w.activity? i).bind Activity.seat?

/-- its seat, if it has a place -/
def World.holder? (w : World) (i : TaskId) : Option Seat := (w.activity? i).bind Activity.holder?

theorem activity?_of_served (h : w.served? id = some t) : w.activity? id = some t.phase.activity :=
  congrArg (Option.map Phase.activity) (phase?_of_served h)

theorem World.holder?_of_seat? (h : w.seat? i = none) : w.holder? i = none := Engine.holder?_of_seat? h

/-- a new task has no seat -/
theorem Newcomer.seat? {ph : Phase} (h : Newcomer w m ph) : ph.activity.seat? = none := by
  rcases h.cases with ⟨r, ha, -⟩ | ⟨q, x, ha⟩ | ⟨x, ha⟩ <;> rw [ha] <;> rfl

/-- whoever does not get the floor keeps its seat -/
theorem seat?_unserved (hw : Wf w) (hs : w.serves m i = false) :
    (w.move m).seat? i = w.seat? i ∧ (w.move m).holder? i = w.holder? i := by
  rcases phase?_newcomer hw hs with h | ⟨hnone, h⟩
  · simp only [World.seat?, World.holder?, World.activity?, h, and_self]
  · have hseat : (w.move m).seat? i = none := by
      refine Option.eq_none_iff_forall_ne_some.2 fun seat hseat => ?_
      obtain ⟨a, ha, hs⟩ := Option.bind_eq_some_iff.1 hseat
      obtain ⟨ph, hph, rfl⟩ := Option.map_eq_some_iff.1 ha
      cases (h ph hph).seat?.symm.trans hs
    have hbefore : w.seat? i = none := by rw [World.seat?, World.activity?, hnone]; rfl
    exact ⟨hseat.trans hbefore.symm, (World.holder?_of_seat? hseat).trans (World.holder?_of_seat? hbefore).symm⟩

/-- of the seats that tasks have, a turn changes only that of the task that gets the floor -/
theorem seats_serve (hw : Wf w) (id : TaskId) :
    (serve w id).seat? = Function.update w.seat? id ((serve w id).seat? id) ∧
      (serve w id).holder? = Function.update w.holder? id ((serve w id).holder? id) := by
  have h : ∀ i, i ≠ id → (serve w id).seat? i = w.seat? i ∧ (serve w id).holder? i = w.holder? i := fun i hi =>
    seat?_unserved (m := .turn id) hw (serves_of_ne hi)
  constructor <;> funext i <;> by_cases hi : i = id
  · rw [hi, Function.update_self]
  · rw [Function.update_of_ne hi, (h i hi).1]
  · rw [hi, Function.update_self]
  · rw [Function.update_of_ne hi, (h i hi).2]

/-- the seats that tasks have bear different signals -/
theorem distinct_seats (hk : Kept w.core w.stakes) : Distinct w.seat? := by
  have hjoined : ∀ {i : TaskId} {seat : Seat}, w.seat? i = some seat → (w.stakes i).joined = some seat.joined :=
    fun {i seat} h => by
    obtain ⟨a, ha, hs⟩ := Option.bind_eq_some_iff.1 h
    obtain ⟨ph, hph, rfl⟩ := Option.map_eq_some_iff.1 ha
    rw [stakes_of_phase hph]
    cases hact : ph.activity with
    | synchronizing s r => rw [hact] at hs; cases hs; rfl
    | settling s x => rw [hact] at hs; cases hs; rfl
    | tearingDown q turn l =>
      rw [hact] at hs
      cases l <;> cases hs
      rfl
    | _ => rw [hact] at hs; cases hs
  intro i j seat seat' hi hj he
  exact Keeper.call.inj (hk.unique (.call i) (.call j) seat.joined (hjoined hi) (he ▸ hjoined hj))

/-- the place of a task is one of those that tasks account for -/
theorem placed_of_place? (hw : Wf w) (h : w.place? i = some k) : 0 < w.seated k := by
  obtain ⟨ph, hph, -⟩ := Option.bind_eq_some_iff.1 h
  have hle : share (w.place? i) k ≤ w.seated k :=
    Finset.single_le_sum (f := fun j => share (w.place? j) k) (fun _ _ => Nat.zero_le _)
      (Finset.mem_range.2 (hw.numbered.lt hph))
  rw [h, share_self] at hle
  exact hle

/-- where nobody counts no call to watch has a place -/
theorem no_holder_of_vacant (hw : Wf w) (ht : Tallied w) (hf : w.front.face? k = some f) (hz : f.count = 0)
    (hj : w.holder? i = some seat) : seat.path.key ≠ k := by
  rintro rfl
  obtain ⟨e, he, rfl⟩ := Option.map_eq_some_iff.1 hf
  obtain ⟨a, ha, hs⟩ := Option.bind_eq_some_iff.1 hj
  obtain ⟨ph, hph, rfl⟩ := Option.map_eq_some_iff.1 ha
  have hplace : w.place? i = some seat.path.key := by
    rw [World.place?, hph, Option.bind_some]
    cases hact : ph.activity <;> rw [hact] at hs <;> cases hs <;> rfl
  have hseated := placed_of_place? hw hplace
  have hcount : w.places.count seat.path.key = 0 := by
    have hroster : w.places.roster? seat.path.key = some e.roster := congrArg (Option.map Entry.roster) he
    rw [Places.count, hroster]
    exact hz
  have := ht seat.path.key
  omega

/-- **A move keeps the books in order**, in a run without shutting down. -/
theorem orderly_move (hw : Wf w) (hm : Continues w m) (hk : Kept w.core w.stakes) (ht : Tallied w)
    (ho : Orderly w.front.book? w.seat? w.holder?) :
    Orderly (w.move m).front.book? (w.move m).seat? (w.move m).holder? := by
  by_cases hturn : ∃ id, m = .turn id
  · obtain ⟨id, rfl⟩ := hturn
    obtain ⟨hseat, hholder⟩ := seats_serve hw id
    rw [World.move, hseat, hholder]
    cases hs : w.served? id with
    | none =>
      have hsame : (serve w id).activity? id = w.activity? id :=
        congrArg (Option.map Phase.activity) (phase?_serve_of_nobody hs id)
      rw [World.seat?, World.holder?, hsame, front_nobody hs]
      exact (congrArg₂ (Orderly w.front.book?) (Function.update_eq_self id w.seat?)
        (Function.update_eq_self id w.holder?)).mpr ho
    | some t =>
      have hact := activity?_of_served hs
      cases hc : t.cancelled with
      | false =>
        obtain ⟨hne, hcl⟩ := hm id t rfl hs hc
        exact (dealing_serve hw hs hc).orderly hne hcl ho (distinct_seats hk) (by rw [World.seat?, hact, Option.bind_some])
          (by rw [World.holder?, hact, Option.bind_some]) fun k f hf hz j σ hj => no_holder_of_vacant hw ht hf hz hj
      | true =>
        have hgone : (serve w id).activity? id = none :=
          congrArg (Option.map Phase.activity) (phase?_serve_of_cancelled hw hs hc)
        rw [World.seat?, World.holder?, hgone, front_cancelled hs hc]
        cases hσ : t.phase.activity.seat? with
        | none =>
          have hno : w.seat? id = none := by rw [World.seat?, hact, Option.bind_some, hσ]
          have hidle : Function.update w.seat? id none = w.seat? := by rw [← hno, Function.update_eq_self]
          exact (congrArg (Orderly w.front.book? · _) hidle).mpr (ho.giveUp id)
        | some seat =>
          have hbook := book?_unseat w.front seat
          exact (congrArg (Orderly · _ _) hbook).mpr
            (ho.unseat (distinct_seats hk) (by rw [World.seat?, hact, Option.bind_some, hσ]))
  · have hm : ∀ id, m ≠ .turn id := fun id e => hturn ⟨id, e⟩
    have hseats := fun i => seat?_unserved (m := m) (i := i) hw (Bool.eq_false_iff.2 fun h => hm i (serves_iff.1 h).1)
    have hbook : (w.move m).front.book? = w.front.book? := by
      funext k
      rw [Front.book?, faces_outside w hm, Front.book?]
    rw [hbook, funext fun i => (hseats i).1, funext fun i => (hseats i).2]
    exact ho

/-- the count of every entry is the number of those who are registered and of the places that tasks account for -/
def World.Exact (w : World) : Prop := ∀ k, w.places.registered k + w.seated k = w.places.count k

/-- **A move keeps the count of an entry exact**, unless it ends a task that was to give a place back there. -/
theorem exact_at_move (hw : Wf w) (hm : Continues w m) (hopen : w.pool.closed = false)
    (hrel : ∀ id t p, m = .turn id → w.served? id = some t → t.cancelled = true → t.phase.activity = .starting (.release p) →
      p.key ≠ k) (h : w.places.registered k + w.seated k = w.places.count k) :
    (w.move m).places.registered k + (w.move m).seated k = (w.move m).places.count k := by
  rcases section_or_not w m with ⟨id, t, rfl, hs, hc⟩ | hno
  · obtain ⟨hne, hcl⟩ := hm id t rfl hs hc
    exact (shift_serve hw hs hc).exact hne hcl (seated_serve hw hs hc k) h
  · rw [(unmoved_of_no_section hno).places, seated_of_no_section hw hopen hno hrel]
    exact h

/-- **A move keeps the count of every entry exact**, unless it ends a task that was to give a place back. -/
theorem exact_move (hw : Wf w) (hm : Continues w m) (hopen : w.pool.closed = false)
    (hrel : ∀ id t p, m = .turn id → w.served? id = some t → t.cancelled = true → t.phase.activity ≠ .starting (.release p))
    (h : w.Exact) : (w.move m).Exact := fun k =>
  exact_at_move hw hm hopen (fun id t p hturn hs hc ha _ => hrel id t p hturn hs hc ha) (h k)

/-! ## Counting tasks -/

/-- the path at which a task is to give a place back for a call to watch that was cancelled -/
def Activity.releases? : Activity → Option Path
  | .starting (.release p) => some p
  | _ => none

/-- the path at which a task carries out a call to watch -/
def Activity.watches? : Activity → Option Path
  | .starting (.watch p _) | .joining p .. => some p
  | a => a.seat?.map (·.path)

namespace World

/-- how many tasks are about something -/
def howMany (w : World) (P : Activity → Bool) : Nat := w.tasks.live.values.countP fun t => P t.phase.activity

/-- how many calls to watch have a place at a path that they have not given back -/
def holding (w : World) (p : Path) : Nat := w.howMany fun a => a.holder?.any fun seat => seat.path.key = p.key

/-- how many tasks are to give a place at a path back for a call that was cancelled -/
def releasing (w : World) (p : Path) : Nat := w.howMany fun a => a.releases?.any fun q => q.key = p.key

/-- no call to watch is unfinished at a path -/
def isUnwatched (w : World) (p : Path) : Bool :=
  w.tasks.live.values.all fun t => t.phase.activity.watches?.all fun q => q.key ≠ p.key

/-- the path at which a section of a task lowers the count: a place is given back by whoever was to do so, by the call to
unwatch of a subscriber that is registered, or by the call to watch whose first synchronization fails -/
def lowers? (w : World) : Activity → Option Path
  | .starting (.release p) => some p
  | .starting (.unwatch p id) => if w.isRegistered p id then some p else none
  | .synchronizing seat r =>
    match (w.stepRefresh r).2 with
    | .ended (.error _) => some seat.path
    | _ => none
  | _ => none

/-- An entry counts its subscribers exactly. -/
structure CountsExactly (w : World) (p : Path) (e : Entry) : Prop where
  /-- it counts those who are registered, the calls to watch that have a place, and the places that are to be given back -/
  count : e.count = e.registered.size + w.holding p + w.releasing p
  /-- nobody is registered and joining at once -/
  apart : ∀ x, e.registered.contains x = true → e.joining.contains x = false
  /-- a registration takes nobody's place -/
  unreplaced : ∀ i ph seat signal, w.tasks.phase? i = some ph → ph.activity = .settling seat signal →
    seat.path.key = p.key → e.registered.contains seat.subscriber = false
  /-- a place that is given back has been counted -/
  lowered : ∀ i t, w.served? i = some t → t.cancelled = false → w.lowers? t.phase.activity = some p → 0 < e.count
  /-- when nobody can go on and no call to watch is unfinished, only those who are registered count -/
  settled : w.tasks.quiet = true → w.isUnwatched p = true → e.joining.size = 0 ∧ e.count = e.registered.size

end World

/-- a sum over numbers of tasks is one over the tasks that there are -/
theorem sum_range_find {α : Type} (g : α → Nat) {rows : List (TaskId × α)} (hd : (rows.map Prod.fst).Nodup) {N : Nat}
    (hN : ∀ i a, (i, a) ∈ rows → i < N) :
    ∑ i ∈ Finset.range N, ((Table.find i rows).map g).getD 0 = (rows.map fun r => g r.2).sum := by
  induction rows with
  | nil => simp [Table.find]
  | cons r rows ih =>
    obtain ⟨j, a⟩ := r
    rw [List.map_cons, List.nodup_cons] at hd
    have hfresh : Table.find j rows = none := by
      refine Option.eq_none_iff_forall_ne_some.2 fun b hb => hd.1 ?_
      exact List.mem_map.2 ⟨(j, b), (Table.find_eq_some_iff hd.2).1 hb, rfl⟩
    have hsplit : ∀ i, ((Table.find i ((j, a) :: rows)).map g).getD 0 =
        (if j = i then g a else 0) + ((Table.find i rows).map g).getD 0 := fun i => by
      rw [Table.find]
      split
      · rename_i h
        rw [← h, hfresh]
        rfl
      · rw [Nat.zero_add]
    rw [Finset.sum_congr rfl fun i _ => hsplit i, Finset.sum_add_distrib, Finset.sum_ite_eq,
      if_pos (Finset.mem_range.2 (hN j a (List.mem_cons_self ..))),
      ih hd.2 fun i b hb => hN i b (List.mem_cons_of_mem _ hb), List.map_cons, List.sum_cons]

theorem share_place? (a : Activity) (p : Path) : share a.place? p.key =
    (if a.holder?.any fun seat => seat.path.key = p.key then 1 else 0) +
      if a.releases?.any fun q => q.key = p.key then 1 else 0 := by
  cases a with
  | starting r => cases r <;> simp [share, Activity.place?, Activity.holder?, Activity.releases?]
  | _ => simp [share, Activity.place?, Activity.holder?, Activity.releases?]

/-- counting over the numbers of tasks, or over the tasks -/
theorem sum_share_rows (hn : w.tasks.Numbered) (f : Activity → Option Path.Key) (k : Path.Key) :
    ∑ i ∈ Finset.range w.tasks.next, share ((w.tasks.phase? i).bind fun ph => f ph.activity) k =
      (w.tasks.live.rows.map fun r => share (f r.2.phase.activity) k).sum := by
  have hshare : ∀ i, share ((w.tasks.phase? i).bind fun ph => f ph.activity) k =
      ((Table.find i w.tasks.live.rows).map fun t => share (f t.phase.activity) k).getD 0 := fun i => by
    rw [Tasks.phase?, Table.get?]
    cases Table.find i w.tasks.live.rows <;> rfl
  rw [Finset.sum_congr rfl fun i _ => hshare i, sum_range_find _ w.tasks.live.nodup fun i t ht =>
    hn.lt (congrArg (Option.map Task.phase) (Table.get?_eq_some_iff.2 ht))]

/-- the places that tasks account for are those of calls to watch, and those that are to be given back -/
theorem seated_eq_howMany (hn : w.tasks.Numbered) (p : Path) : w.seated p.key = w.holding p + w.releasing p := by
  refine (sum_share_rows hn Activity.place? p.key).trans ?_
  simp only [World.holding, World.releasing, World.howMany, Table.values]
  induction w.tasks.live.rows with
  | nil => rfl
  | cons r rows ih =>
    rw [List.map_cons, List.sum_cons, ih, List.map_cons, List.countP_cons, List.countP_cons, share_place?]
    omega

/-! ## Along a run -/

variable {policy : WritePolicy} {moves : Nat → Move}

theorem orderly_start (policy : WritePolicy) :
    Orderly (World.start policy).front.book? (World.start policy).seat? (World.start policy).holder? where
  seat _ _ h := by cases h
  held _ _ h := by cases h
  owned _ _ _ _ h := by cases h
  apart _ _ _ h := by cases h

theorem orderly_trace (policy : WritePolicy) (h : ∀ n, moves n ≠ .call .shutDown) (n : Nat) :
    Orderly ((World.start policy).trace moves n).front.book? ((World.start policy).trace moves n).seat?
      ((World.start policy).trace moves n).holder? := by
  induction n with
  | zero => exact orderly_start policy
  | succ n ih =>
    have hp : Proper ((World.start policy).trace moves n).core ((World.start policy).trace moves n).stakes :=
      proper_trace h n
    exact orderly_move (reachable_trace policy moves n).wf (continues_trace h n) hp.kept
      (tally_trace h n) ih

/-- no move of a run cancels a task that is to give a place back -/
def SparesReleases (w : World) (moves : Nat → Move) : Prop :=
  ∀ n id ph p, moves n = .cancel id → (w.trace moves n).tasks.phase? id = some ph → ph.activity ≠ .starting (.release p)

theorem exact_trace (h : ∀ n, moves n ≠ .call .shutDown) (hs : SparesReleases (World.start policy) moves) (n : Nat) :
    ((World.start policy).trace moves n).Exact := by
  induction n with
  | zero => exact fun k => rfl
  | succ n ih =>
    refine exact_move (reachable_trace policy moves n).wf (continues_trace h n) (open_trace h n) (fun id t p _ ht hc ha => ?_) ih
    obtain ⟨l, -, hl, hph⟩ := cancelled_from_outside h (served?_eq_some ht).2 hc ha
    exact hs l id t.phase p hl hph ha

theorem World.Exact.count {p : Path} {e : Entry} (h : w.Exact) (he : w.entry? p = some e) :
    e.count = e.registered.size + w.seated p.key := by
  have hroster : w.places.roster? p.key = some e.roster := congrArg (Option.map Entry.roster) he
  have := h p.key
  simp only [Places.registered, Places.count, hroster, Option.map_some, Option.getD_some] at this
  exact this.symm

/-- a place that is given back has been counted -/
theorem World.Exact.lowers (h : w.Exact) (hw : Wf w) {q : Path} {e : Entry} (he : w.entry? q = some e)
    (ht : w.served? id = some t) (hq : w.lowers? t.phase.activity = some q) : 0 < e.count := by
  have hplace : ∀ {p : Path}, t.phase.activity.place? = some p.key → 0 < w.seated p.key := fun {p} hp =>
    placed_of_place? hw (i := id) (by rw [World.place?, phase?_of_served ht, Option.bind_some, hp])
  rw [h.count he]
  cases ha : t.phase.activity with
  | starting r =>
    rw [ha] at hq
    cases r with
    | release p =>
      cases hq
      have := hplace (p := q) (by rw [ha]; rfl)
      omega
    | unwatch p x =>
      simp only [World.lowers?] at hq
      split at hq
      · rename_i hr
        cases hq
        simp only [World.isRegistered, he, Option.any_some] at hr
        have := Table.size_erase hr
        omega
      · cases hq
    | _ => cases hq
  | synchronizing seat r =>
    rw [ha] at hq
    simp only [World.lowers?] at hq
    split at hq
    · cases hq
      have := hplace (p := seat.path) (by rw [ha]; rfl)
      omega
    · cases hq
  | _ => rw [ha] at hq; cases hq

theorem howMany_eq_zero {P : Activity → Bool} (h : ∀ i ph, w.tasks.phase? i = some ph → P ph.activity = false) :
    w.howMany P = 0 := by
  rw [World.howMany, List.countP_eq_zero]
  intro t ht
  rw [forall_live_iff.2 h t ht]
  exact Bool.false_ne_true

theorem isUnwatched_iff {p : Path} : w.isUnwatched p = true ↔
    ∀ i ph, w.tasks.phase? i = some ph → ∀ q, ph.activity.watches? = some q → q.key ≠ p.key := by
  simp only [World.isUnwatched, List.all_eq_true, Option.all_eq_true, decide_eq_true_eq]
  exact forall_live_iff (P := fun ph => ∀ q, ph.activity.watches? = some q → q.key ≠ p.key)

theorem Activity.watches?_of_seat (h : a.seat? = some seat) : a.watches? = some seat.path := by
  have hmap : a.seat?.map (·.path) = some seat.path := congrArg (Option.map (·.path)) h
  cases a <;> first | exact hmap | cases h

/-- when nobody can go on and no call to watch is unfinished at a path, only those who are registered count there -/
theorem World.Exact.settled {p : Path} {e : Entry} (h : w.Exact) (hw : Wf w)
    (ho : Orderly w.front.book? w.seat? w.holder?) (he : w.entry? p = some e) (hquiet : w.tasks.quiet = true)
    (hun : w.isUnwatched p = true) : e.joining.size = 0 ∧ e.count = e.registered.size := by
  have hwatch := isUnwatched_iff.1 hun
  have hbook : w.front.book? p.key = some ⟨e.registered, e.joining⟩ := book?_of_face (face?_of_present he)
  constructor
  · rw [Table.size, List.length_eq_zero_iff, List.eq_nil_iff_forall_not_mem]
    rintro ⟨x, s⟩ hrow
    obtain ⟨i, q, hi, hq⟩ := ho.owned p.key _ x s hbook (Table.get?_eq_some_iff.2 hrow)
    obtain ⟨a, ha, hs⟩ := Option.bind_eq_some_iff.1 hi
    obtain ⟨ph, hph, rfl⟩ := Option.map_eq_some_iff.1 ha
    exact hwatch i ph hph q (Activity.watches?_of_seat hs) hq
  · have hholding : w.holding p = 0 := howMany_eq_zero fun i ph hph => by
      cases hs : ph.activity.holder? with
      | none => rfl
      | some seat => simpa using hwatch i ph hph seat.path (Activity.watches?_of_seat (Activity.seat?_of_holder hs))
    have hreleasing : w.releasing p = 0 := howMany_eq_zero fun i ph hph => by
      cases ha : ph.activity.releases? with
      | none => rfl
      | some q =>
        -- whoever is to begin can go on
        simp only [Tasks.quiet, Bool.and_eq_true, List.isEmpty_iff, Option.isNone_iff_eq_none] at hquiet
        have hstart : ph.activity = .starting (.release q) := by
          cases hact : ph.activity with
          | starting r => cases r <;> rw [hact] at ha <;> cases ha; rfl
          | _ => rw [hact] at ha; cases ha
        rcases hw.woken i ph hph with hr | hf | hb
        · simp [hquiet.1] at hr
        · simp [hquiet.2] at hf
        · exact absurd (by rw [hstart]; rfl) hb.something
    rw [h.count he, seated_eq_howMany hw.numbered, hholding, hreleasing]
    rfl

/-- **In a run without shutting down, in which no task is cancelled that is to give a place back, every entry counts its
subscribers exactly, in every state.** -/
theorem count_exact (h : ∀ n, moves n ≠ .call .shutDown) (hs : SparesReleases (World.start policy) moves) {n : Nat}
    {p : Path} {e : Entry} (he : World.entry? ((World.start policy).trace moves n) p = some e) :
    ((World.start policy).trace moves n).CountsExactly p e := by
  have hw := (reachable_trace policy moves n).wf
  have hexact := exact_trace h hs n
  have ho := orderly_trace policy h n
  have hbook : ((World.start policy).trace moves n).front.book? p.key = some ⟨e.registered, e.joining⟩ :=
    book?_of_face (face?_of_present he)
  refine ⟨?_, fun x hx => Table.contains_eq_false_iff.2 (ho.apart p.key _ x hbook hx), fun i ph seat signal hph ha hk => ?_,
    fun i t ht _ hq => hexact.lowers hw he ht hq, fun hquiet hun => hexact.settled hw ho he hquiet hun⟩
  · rw [hexact.count he, seated_eq_howMany hw.numbered, Nat.add_assoc]
  · have hholder : ((World.start policy).trace moves n).holder? i = some seat := by
      rw [World.holder?, World.activity?, hph, Option.map_some, Option.bind_some, ha]
      rfl
    obtain ⟨b, hb, hjoin⟩ := ho.held i seat hholder
    rw [hk, hbook] at hb
    cases hb
    rw [← Bool.not_eq_true]
    intro hreg
    cases (ho.apart p.key _ _ hbook hreg).symm.trans hjoin

theorem sparesReleases_along {ms : List Move} (h : ((List.range ms.length).all fun n =>
    match along ms n with
    | .cancel id => (((World.start policy).trace (along ms) n).activity? id).all fun a => a.releases? = none
    | _ => true) = true) : SparesReleases (World.start policy) (along ms) := by
  intro n id ph p hn hph ha
  have hlt : n < ms.length := by
    by_contra hge
    cases hn.symm.trans (along_of_length_le (not_lt.1 hge))
  have hat := List.all_eq_true.1 h n (List.mem_range.2 hlt)
  simp only [hn, World.activity?, hph, Option.map_some, Option.all_some, ha, Activity.releases?] at hat
  simp at hat

/-- Two calls to watch a file wait for a reconciliation of it, beside a subscriber that is registered; one of them is
cancelled. -/
def leavingHalfway : List Move :=
  let p : Path := ⟨"/a"⟩
  [Move.newSubscriber, .newSubscriber, .newSubscriber, .putFile p ⟨#[49]⟩, .call (.watch p ⟨1⟩)] ++
    List.replicate 6 (Move.turn 1) ++
    [Move.turn 2, .hold .stat p, .call (.reconcile p), .turn 3, .turn 3, .call (.watch p ⟨2⟩)] ++
    List.replicate 4 (Move.turn 4) ++ [Move.call (.watch p ⟨3⟩)] ++ List.replicate 4 (Move.turn 5) ++
    [Move.cancel 4, .turn 4]

/-- the three places of the entry are one of each kind -/
theorem count_exact_leavingHalfway :
    (∀ n, along leavingHalfway n ≠ .call .shutDown) ∧ SparesReleases (World.start .allow) (along leavingHalfway) ∧
      ∃ e, World.entry? ((World.start .allow).trace (along leavingHalfway) 28) ⟨"/a"⟩ = some e ∧
        ((World.start .allow).trace (along leavingHalfway) 28).CountsExactly ⟨"/a"⟩ e ∧
        e.registered.size = 1 ∧ ((World.start .allow).trace (along leavingHalfway) 28).holding ⟨"/a"⟩ = 1 ∧
        ((World.start .allow).trace (along leavingHalfway) 28).releasing ⟨"/a"⟩ = 1 := by
  have h : ∀ n, along leavingHalfway n ≠ .call .shutDown :=
    along_ne leavingHalfway (by simp [leavingHalfway]) (by simp)
  have hs : SparesReleases (World.start .allow) (along leavingHalfway) := sparesReleases_along (by decide +kernel)
  have he : ((World.entry? ((World.start .allow).trace (along leavingHalfway) 28) ⟨"/a"⟩).any fun e =>
      decide (e.registered.size = 1)) = true := by decide +kernel
  obtain ⟨e, he, hsize⟩ := (Option.any_eq_true _ _).1 he
  exact ⟨h, hs, e, he, count_exact h hs he, of_decide_eq_true hsize, by decide +kernel, by decide +kernel⟩

end LiveFiles.Engine
