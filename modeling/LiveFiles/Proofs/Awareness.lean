/-
What a reconciliation that has the lock knows of the entry: whether it has contents, and their date. While the engine is not
shut down this is what the entry says until the reconciliation ends. Shutting down forgets all entries, and a call to watch
that has begun before may still make a new one beside a reconciliation that knows of the old one only; but then the first
reconciliation of the new entry is pending until that one has ended.
- `nobody_works`: whoever loads an entry had the lock of the path, and nobody has it afterwards.
- `heedful_trace`: in every run, a reconciliation that has the lock knows of the entry, unless the engine has been shut down
  and another reconciliation is pending (`World.Heedful`).
- **`informed_trace`**: so at a path where somebody is registered, whoever has the lock knows of the entry.
-/
import LiveFiles.Proofs.Chronology
import LiveFiles.Proofs.Finality

namespace LiveFiles.Engine

variable {w : World} {m : Move} {k : Path.Key} {id id' : TaskId} {a : Activity} {r : Refresh} {l : Look} {x : Save}
  {e e' : Entry}

/-! ## Who has the lock -/

/-- a task has the lock of a path for an operation of the engine -/
def World.WorksAt (w : World) (id : TaskId) (k : Path.Key) : Prop :=
  ∃ ph, w.tasks.phase? id = some ph ∧ ph.activity.call? = some k ∧ ph.activity.isDirect = false

theorem worksAt_of_look (hr : w.Refreshes id r) (hl : r.look? = some l) : w.WorksAt id l.path.key := by
  obtain ⟨ph, hph, ha⟩ := hr
  have hcall : r.call? = some l.path.key := congrArg (Option.map fun l : Look => l.path.key) hl
  refine ⟨ph, hph, ?_⟩
  cases hact : ph.activity <;> rw [hact] at ha <;> cases ha <;> exact ⟨hcall, rfl⟩

theorem worksAt_of_save (hx : w.Saves id x) (hcall : x.call? = some k) : w.WorksAt id k := by
  obtain ⟨ph, hph, ha⟩ := hx
  refine ⟨ph, hph, ?_⟩
  rw [Activity.eq_of_save ha]
  exact ⟨hcall, rfl⟩

/-- two tasks that have the lock of a path are one -/
theorem World.WorksAt.unique (hl : Locked w.core w.stakes) (h : w.WorksAt id k) (h' : w.WorksAt id' k) : id = id' := by
  have hlock : ∀ {i}, w.WorksAt i k → ∃ τ p, (w.stakes i).errand.turn? = some τ ∧ (w.stakes i).errand.path? = some p ∧
      p.key = k ∧ w.core.turns.holds τ = true := by
    rintro i ⟨ph, hph, hcall, hdirect⟩
    have hstake := stakes_of_phase hph
    rcases ph.activity.call?_cases hcall hdirect with ⟨l, d, hlook, hk⟩ | ⟨job, hsave, hk⟩
    · rw [← hstake] at hlook
      exact ⟨l.turn, l.path, by rw [hlook]; rfl, by rw [hlook]; rfl, hk, hl.look i l d hlook⟩
    · rw [← hstake] at hsave
      exact ⟨job.turn, job.path, by rw [hsave]; rfl, by rw [hsave]; rfl, hk, hl.save i job hsave⟩
  obtain ⟨τ, p, hτ, hp, hk, hholds⟩ := hlock h
  obtain ⟨τ', p', hτ', hp', hk', hholds'⟩ := hlock h'
  exact hl.sound.alone hτ hp hτ' hp' (hk.trans hk'.symm) hholds hholds'

/-- whoever loads an entry has the lock, and has no call to the disk under way afterwards -/
theorem Loads.worker (h : Loads w m k) : ∃ i t, m = .turn i ∧ w.served? i = some t ∧ t.cancelled = false ∧ w.WorksAt i k ∧
    ∀ b, ((floorTo w i).step t.phase.activity).2.next = some b → b.call? = none := by
  rcases h with ⟨o, ho⟩ | ⟨text, date, hc⟩
  · obtain ⟨i, t, r, l, rfl, hs, hc, hr, hl, rfl, hfind⟩ := ho.observed
    refine ⟨i, t, rfl, hs, hc, worksAt_of_look ⟨t.phase, phase?_of_served hs, hr⟩ hl, fun b hb => ?_⟩
    have hrun := stepRefresh_of_finding (w := floorTo w i) hl (by rw [disk_floorTo]; exact hfind)
    obtain ⟨y, hy⟩ := conclude_ended ((floorTo w i).leaveDisk l.path) l o
    have hended := (congrArg Prod.snd hrun).trans hy
    cases hact : t.phase.activity <;> rw [hact] at hr hb <;> cases hr
    · rw [World.step, next_ofPart, hended] at hb
      cases hb
    · rename_i seat
      simp only [World.step, World.stepSynchronizing] at hb
      rcases hx : (floorTo w i).stepRefresh r with ⟨w₁, z | z | z | z⟩ <;> rw [hx] at hended hb <;> cases hended
      cases y with
      | ok news =>
        cases hb
        rfl
      | error e => exact ((offline_releasePlace w₁ seat.path (.failed seat e)).next b hb).1
  · obtain ⟨i, t, job, st, f, rfl, hs, hcan, hact, -, hst, -, -, rfl, -⟩ := hc.committed
    refine ⟨i, t, rfl, hs, hcan, worksAt_of_save (x := .looking job .due) ⟨t.phase, phase?_of_served hs, by rw [hact]; rfl⟩ rfl,
      fun b hb => ?_⟩
    rw [hact, World.step, next_ofPart] at hb
    simp only [World.stepSave, disk_floorTo, hst, World.haveLookedUp, (disk_commitSave _ job _).2] at hb
    cases hb

/-- **Nobody has the lock of a path when its entry has just been loaded.** -/
theorem nobody_works (hw : Wf w) (hl : Locked w.core w.stakes) (h : Loads w m k) : ¬ (w.move m).WorksAt id k := by
  rintro ⟨ph, hph, hcall, hdirect⟩
  obtain ⟨i, t, rfl, hs, hc, hworks, hend⟩ := h.worker
  by_cases hid : id = i
  · subst hid
    rw [World.move, phase?_serve hw hs hc] at hph
    obtain ⟨b, hb, rfl⟩ := Option.map_eq_some_iff.1 hph
    cases (hend b hb).symm.trans hcall
  · rcases phase?_newcomer (m := .turn i) hw (serves_of_ne hid) with hsame | ⟨-, hnew⟩
    · exact hid (World.WorksAt.unique hl ⟨ph, hsame.symm.trans hph, hcall, hdirect⟩ hworks)
    · cases (hnew ph hph).call?.symm.trans hcall

/-- what an entry says of the file changes only when somebody loads it -/
theorem known_move (hw : Wf w) (he : w.entries.get? k = some e) (he' : (w.move m).entries.get? k = some e') :
    e'.known = e.known ∨ Loads w m k := by
  cases source_move hw he' with
  | kept e₁ he₁ h =>
    cases he.symm.trans he₁
    exact Or.inl h
  | created h _ => cases he.symm.trans (absent_of_created h)
  | missing h _ => exact Or.inr (Or.inl ⟨_, h⟩)
  | changed text date h _ => exact Or.inr (Or.inl ⟨_, h⟩)
  | committed text date h _ _ => exact Or.inr (Or.inr ⟨_, _, h⟩)

/-- so it stays as it is as long as somebody has the lock -/
theorem known_of_worksAt (hw : Wf w) (hl : Locked w.core w.stakes) (hworks : (w.move m).WorksAt id k)
    (he : w.entries.get? k = some e) (he' : (w.move m).entries.get? k = some e') : e'.known = e.known :=
  (known_move hw he he').resolve_right fun h => nobody_works hw hl h hworks

/-! ## Knowing of the entry -/

/-- a reconciliation knows whether an entry has contents, and their date -/
def Look.AwareOf (l : Look) (e : Entry) : Prop := e.contents.isSome = l.had ∧ e.modified = l.last

theorem Look.AwareOf.of_known (h : l.AwareOf e) (hknown : e'.known = e.known) : l.AwareOf e' :=
  ⟨(congrArg (fun x : Known => x.contents.isSome) hknown).trans h.1, (congrArg Known.modified hknown).trans h.2⟩

/-- whoever has the lock of a path for a reconciliation knows of the entry there -/
def World.AwareAt (w : World) (k : Path.Key) : Prop :=
  ∀ id r l e, w.Refreshes id r → r.look? = some l → l.path.key = k → w.entries.get? k = some e → l.AwareOf e

/-- a reconciliation after a move had the lock before, or has just taken it and knows of the entry -/
theorem look_move (hw : Wf w) (hr : (w.move m).Refreshes id r) (hl : r.look? = some l) :
    (∃ r₀, w.Refreshes id r₀ ∧ r₀.look? = some l) ∨ ∃ p q τ e, w.Refreshes id (.queued p q τ) ∧ l.path = p ∧
      w.entries.get? l.path.key = some e ∧ l.AwareOf e := by
  rcases refreshes_move hw hr with hsame | hno | ⟨a, r₀, hcarry, hr₀, hnext⟩
  · exact Or.inl ⟨r, hsame, hl⟩
  · cases hno.symm.trans hl
  · have hrefreshes := refreshes_of_carried hcarry hr₀
    cases onward_stepRefresh hnext with
    | inLine => cases hl
    | taken p q τ l' c hp hτ =>
      cases hl
      obtain ⟨e, he, rfl⟩ := look_of_taken hnext
      rw [entry?_floorTo] at he
      exact Or.inr ⟨p, q, τ, e, hrefreshes, rfl, he, rfl, rfl⟩
    | looking => exact Or.inl ⟨_, hrefreshes, hl⟩
    | reads => exact Or.inl ⟨_, hrefreshes, hl⟩
    | reading => exact Or.inl ⟨_, hrefreshes, hl⟩
    | fails => exact Or.inl ⟨_, hrefreshes, hl⟩
    | lookingAgain => exact Or.inl ⟨_, hrefreshes, hl⟩

/-- **As long as an entry is there, whoever has the lock knows of it.** -/
theorem aware_move (hw : Wf w) (hl : Locked w.core w.stakes) (h : w.AwareAt k) (he : w.entries.get? k = some e) :
    (w.move m).AwareAt k := by
  intro id r l e' hr hlook hk he'
  have hknown : e'.known = e.known := known_of_worksAt hw hl (hk ▸ worksAt_of_look hr hlook) he he'
  rcases look_move hw hr hlook with ⟨r₀, hr₀, hl₀⟩ | ⟨p, q, τ, e₀, -, -, he₀, haware⟩
  · exact (h id r₀ l e hr₀ hl₀ hk he).of_known hknown
  · rw [hk] at he₀
    cases he.symm.trans he₀
    exact haware.of_known hknown

/-! ## After shutting down -/

/-- Where a reconciliation has the lock and does not know of the entry, the engine has been shut down: the entry is gone, or
another one has been made, of which a reconciliation is pending. -/
structure World.Heedful (w : World) : Prop where
  present : ∀ id r l, w.Refreshes id r → r.look? = some l → w.entries.get? l.path.key = none → w.isShutDown = true
  aware : ∀ id r l e, w.Refreshes id r → r.look? = some l → w.entries.get? l.path.key = some e →
    l.AwareOf e ∨ w.isShutDown = true ∧ ∃ q, e.pendingQuery = some q

theorem hasTurn_of_refreshes (hw : Wf w) (hr : w.Refreshes id r) : ∃ τ, w.HasTurn id τ ∧ τ.key = r.path.key := by
  have hturn : ∃ τ, r.errand.turn? = some τ ∧ r.errand.path? = some r.path := by
    cases r <;> exact ⟨_, rfl, rfl⟩
  obtain ⟨τ, hτ, hp⟩ := hturn
  rw [← errand_of_refreshes hr] at hτ hp
  exact ⟨τ, hτ, hw.sound.keyed id τ hτ r.path hp⟩

/-- a reconciliation that is requested is pending -/
theorem pending_requestRefresh {p : Path} (he : w.entry? p = some e) :
    (w.requestRefresh p).1.docket.pending? p.key = some (some w.nextQuery) := by
  obtain ⟨signal, signals, hq, -⟩ := beginQuery_eq w e
  have hset := docket_setEntry { w with signals, nextQuery := w.nextQuery + 1 } p
    { e with pendingQuery := some w.nextQuery, pendingSignal := some signal }
  simp only [World.requestRefresh, he, hq]
  refine (congrArg (fun d : Docket => d.pending? p.key) hset).trans ?_
  rw [Docket.pending?_put, if_pos rfl]

/-- so is the first reconciliation of a path that gets its first subscriber -/
theorem pending_stepJoining {p : Path} {y : SubscriberId} {joined : SignalId} {other : Option SignalId} {seat : Seat}
    (h : (w.stepJoining p y joined other).2 = .go (.synchronizing seat r)) :
    (w.stepJoining p y joined other).1.docket.pending? p.key = some (some w.nextQuery) := by
  simp only [World.stepJoining] at h ⊢
  split at h
  · cases h
  · rename_i hother
    rw [if_neg hother]
    generalize (w.entry? p).getD { spelling := p } = e at h ⊢
    split at h
    · cases h
    · rename_i hreg
      rw [if_neg hreg]
      split at h
      · cases h
      · rcases takePlace_cases w ⟨p, y, joined⟩ e with ⟨-, htake⟩ | ⟨-, x, armed, signal, signals, v, -, -, rfl, htake⟩
        · rw [htake] at h
          cases h
        · have hset := docket_setEntry { w with watcher := x, signals, nextQuery := w.nextQuery + 1 } p
            { e with joining := e.joining.insert y joined, count := e.count + 1, armed := armed,
                     pendingQuery := some w.nextQuery, pendingSignal := some signal }
          rw [htake]
          refine (congrArg (fun d : Docket => d.pending? p.key) hset).trans ?_
          rw [Docket.pending?_put, if_pos rfl]

/-- after shutting down, no request leaves a path without a reconciliation pending: writes are refused -/
theorem pending_of_request (hdown : w.isShutDown = true) {p : Path} (h : w.requests? a = some p)
    (htracked : w.docket.pending? p.key ≠ none) : (w.step a).1.docket.pending? p.key = some (some w.nextQuery) := by
  cases a with
  | starting y =>
    cases y with
    | reconcile p' =>
      cases h
      obtain ⟨pending, hp⟩ := Option.ne_none_iff_exists'.1 htracked
      obtain ⟨e, he, -⟩ := Option.map_eq_some_iff.1 hp
      simp only [World.step, World.begin, fst_ofPart]
      exact pending_requestRefresh he
    | write p' bytes => simp [World.requests?, hdown] at h
    | _ => cases h
  | joining p' y joined other =>
    simp only [World.requests?] at h
    split at h
    · rename_i seat r hgo
      cases h
      exact pending_stepJoining hgo
    · cases h
  | _ => cases h

/-- **After shutting down, what is pending stays so beside a reconciliation that has the lock**, or another request takes its
place, as long as the entry is there. -/
theorem pending_beside (hw : Wf w) (hl : Locked w.core w.stakes) (hdown : w.isShutDown = true) (hr : w.Refreshes id r)
    (hlook : r.look? = some l) (he' : (w.move m).entries.get? l.path.key = some e')
    (hp : ∀ e, w.entries.get? l.path.key = some e → ∃ q, e.pendingQuery = some q) : ∃ q, e'.pendingQuery = some q := by
  have hafter : (w.move m).docket.pending? l.path.key = some e'.pendingQuery := congrArg (Option.map Entry.pendingQuery) he'
  have hbefore : w.docket.pending? l.path.key = none ∨ ∃ q, w.docket.pending? l.path.key = some (some q) := by
    cases he : w.entries.get? l.path.key with
    | none => exact Or.inl (congrArg (Option.map Entry.pendingQuery) he)
    | some e =>
      obtain ⟨q, hq⟩ := hp e he
      exact Or.inr ⟨q, (congrArg (Option.map Entry.pendingQuery) he).trans (congrArg some hq)⟩
  have hsame : (w.move m).docket.pending? l.path.key = w.docket.pending? l.path.key → ∃ q, e'.pendingQuery = some q := by
    intro h
    rcases hbefore with hno | ⟨q, hq⟩
    · cases hno.symm.trans (h.symm.trans hafter)
    · exact ⟨q, Option.some.inj (hafter.symm.trans (h.trans hq))⟩
  rcases section_or_not w m with ⟨i, t, rfl, hs, hc⟩ | hno
  · rw [World.move] at hafter hsame
    have hrule := ruling_serve hw hs hc
    have hother : ∀ {p : Path} {x}, l.path.key ≠ p.key → (serve w i).docket = w.docket.put p.key x →
        ∃ q, e'.pendingQuery = some q := by
      intro p x hne hd
      refine hsame ?_
      rw [hd, Docket.pending?_put, if_neg hne]
    generalize hreq : (floorTo w i).requests? t.phase.activity = request at hrule
    cases hrule with
    | same hd => exact hsame (congrArg (fun d : Docket => d.pending? l.path.key) hd)
    | untracked p hno hd => exact hsame (congrArg (fun d : Docket => d.pending? l.path.key) hd)
    | request p τ hd hnext =>
      by_cases hk : l.path.key = p.key
      · have hput := (congrArg (fun d : Docket => d.pending? l.path.key) hd).trans
          ((Docket.pending?_put w.docket p.key l.path.key _).trans (if_pos hk))
        exact ⟨_, Option.some.inj (hafter.symm.trans hput)⟩
      · refine hsame ?_
        rw [hd]
        exact (Docket.pending?_put w.docket p.key l.path.key _).trans (if_neg hk)
    | revoke p htracked hd =>
      by_cases hk : l.path.key = p.key
      · have hdocket : (serve w i).docket = ((floorTo w i).step t.phase.activity).1.docket :=
          docket_of_core (core_serve_of_section hs hc).1
        have hfloor : (floorTo w i).docket = w.docket := docket_of_core (core_floorTo w i)
        have hpending := pending_of_request ((isShutDown_floorTo w i).trans hdown) hreq (hfloor.symm ▸ htracked)
        rw [hk, hdocket, hpending] at hafter
        exact ⟨_, (Option.some.inj hafter).symm⟩
      · exact hother hk hd
    | enter p q τ l' call ha hτ hpending hd hnext hlook' =>
      by_cases hk : l.path.key = p.key
      · -- it would have the lock, which the other one has
        have hqueued : w.Refreshes i (.queued p q τ) := ⟨t.phase, phase?_of_served hs, ha⟩
        have herrand := errand_of_refreshes hqueued
        obtain ⟨d, herrand'⟩ := errand_of_look? hr hlook
        have hid : id = i := hl.sound.alone (by rw [herrand']; rfl) (by rw [herrand']; rfl) (by rw [herrand]; rfl)
          (by rw [herrand]; rfl) hk (hl.look id l d herrand') hτ
        subst hid
        cases refreshes_unique hqueued hr
        cases hlook
      · exact hother hk hd
    | vacate p hidle hd =>
      by_cases hk : l.path.key = p.key
      · rw [hd, Docket.pending?_put, if_pos hk] at hafter
        cases hafter
      · exact hother hk hd
    | clear hd =>
      rw [hd] at hafter
      cases hafter
  · exact hsame (congrArg (fun d : Docket => d.pending? l.path.key) (docket_of_no_section hno))

theorem heedful_start (policy : WritePolicy) : (World.start policy).Heedful where
  present _ _ _ h := by
    obtain ⟨ph, hph, -⟩ := h
    cases hph
  aware _ _ _ _ h := by
    obtain ⟨ph, hph, -⟩ := h
    cases hph

theorem heedful_move (hw : Wf w) (hl : Locked w.core w.stakes) (hsh : w.Shutting) (h : w.Heedful) (m : Move) :
    (w.move m).Heedful where
  present id r l hr hlook hno := by
    by_contra hrunning
    have hcont := continues_of_running hsh (Bool.eq_false_iff.2 hrunning)
    -- the entry was there, and stays as long as the reconciliation has its turn
    have hturn : ∃ r₀, w.Refreshes id r₀ ∧ r₀.path = l.path ∧ ∃ e, w.entries.get? l.path.key = some e := by
      rcases look_move hw hr hlook with ⟨r₀, hr₀, hl₀⟩ | ⟨p, q, τ, e, hq, hp, he, -⟩
      · refine ⟨r₀, hr₀, by cases r₀ <;> cases hl₀ <;> rfl, ?_⟩
        cases he : w.entries.get? l.path.key with
        | none => exact absurd (isShutDown_move (h.present id r₀ l hr₀ hl₀ he) m) hrunning
        | some e => exact ⟨e, rfl⟩
      · exact ⟨_, hq, hp.symm, e, he⟩
    obtain ⟨r₀, hr₀, hpath, e, he⟩ := hturn
    obtain ⟨τ, hτ, hk⟩ := hasTurn_of_refreshes hw hr₀
    have htracked := kept_of_claimed (p := l.path) hw hcont he (Or.inr ⟨id, τ, hτ, hpath ▸ hk⟩)
    cases (isTracked_eq_false.2 hno).symm.trans htracked
  aware id r l e' hr hlook he' := by
    rcases look_move hw hr hlook with ⟨r₀, hr₀, hl₀⟩ | ⟨p, q, τ, e, hq, hp, he, haware⟩
    · cases he : w.entries.get? l.path.key with
      | none =>
        have hdown := h.present id r₀ l hr₀ hl₀ he
        refine Or.inr ⟨isShutDown_move hdown m, pending_beside hw hl hdown hr₀ hl₀ he' fun e₁ he₁ => ?_⟩
        cases he.symm.trans he₁
      | some e =>
        rcases h.aware id r₀ l e hr₀ hl₀ he with haware | ⟨hdown, hpending⟩
        · exact Or.inl (haware.of_known (known_of_worksAt hw hl (worksAt_of_look hr hlook) he he'))
        · refine Or.inr ⟨isShutDown_move hdown m, pending_beside hw hl hdown hr₀ hl₀ he' fun e₁ he₁ => ?_⟩
          cases he.symm.trans he₁
          exact hpending
    · exact Or.inl (haware.of_known (known_of_worksAt hw hl (worksAt_of_look hr hlook) he he'))

theorem heedful_trace (policy : WritePolicy) (moves : Nat → Move) (n : Nat) :
    ((World.start policy).trace moves n).Heedful := by
  induction n with
  | zero => exact heedful_start policy
  | succ n ih =>
    exact heedful_move (reachable_trace policy moves n).wf (locked_trace policy moves n) (shutting_trace policy moves n) ih
      (moves n)

/-! ## Where somebody is registered -/

/-- what is pending has a number and a signal -/
def Paired (c : Core) : Prop := ∀ k e, c.entries.get? k = some e → (e.pendingQuery = none ↔ e.pendingSignal = none)

theorem kept_paired_trace (policy : WritePolicy) (moves : Nat → Move) (n : Nat) :
    Kept ((World.start policy).trace moves n).core ((World.start policy).trace moves n).stakes ∧
      Paired ((World.start policy).trace moves n).core := by
  refine trace_induction (J := fun c st => Kept c st ∧ Paired c) (N := fun _ => False) (fun _ _ _ h => h)
    ⟨kept_start, fun _ _ h => by cases h⟩ (fun E c st i c' s' _ h he => ⟨kept_effect h.1 he, fun k e he' => ?_⟩) n
  exact (he.origin he').paired (h.2 k)

/-- where somebody is registered, whoever has the lock for a reconciliation knows of the entry -/
def World.Informed (w : World) : Prop :=
  ∀ k e id, w.entries.get? k = some e → e.registered.contains id = true → w.AwareAt k

/-- when a call to watch settles, nothing is pending, so whoever has the lock knows of the entry -/
theorem aware_of_unsettled (h : w.Heedful) (hk : Kept w.core w.stakes) (hp : Paired w.core)
    (he : w.entries.get? k = some e) (hsettled : e.unsettled w.signals = none) : w.AwareAt k := by
  rintro id r l e₁ hr hl rfl he₁
  cases he.symm.trans he₁
  refine (h.aware id r l e hr hl he).resolve_right ?_
  rintro ⟨-, q, hq⟩
  have hne : e.pendingSignal ≠ none := fun hno => by cases hq.symm.trans ((hp l.path.key e he).2 hno)
  obtain ⟨x, hx⟩ := Option.ne_none_iff_exists'.1 hne
  exact not_awaited_of_unsettled hsettled (hk.awaited_of_pending he hx)

theorem informed_move (hw : Wf w) (hl : Locked w.core w.stakes) (hh : w.Heedful) (hk : Kept w.core w.stakes)
    (hp : Paired w.core) (h : w.Informed) (m : Move) : (w.move m).Informed := by
  intro k e' y he' hy
  obtain ⟨i, hs⟩ := move_served hw m
  obtain ⟨s', heffects, -⟩ := hs.effects
  rcases effects_registered heffects he' hy with ⟨e, he, hy⟩ | hmark
  · exact aware_move hw hl (h k e y he hy) he
  · obtain ⟨j, t, rfl, -, hsettles⟩ := hmark.served (by simp)
    split at hsettles
    · cases hsettles
    · obtain ⟨seat, ⟨x, e, -, -, he, hsettled⟩, rfl⟩ := hsettles
      exact aware_move hw hl (aware_of_unsettled hh hk hp he hsettled) he

/-- **Where somebody is registered, whoever has the lock for a reconciliation knows of the entry**, in every run. -/
theorem informed_trace (policy : WritePolicy) (moves : Nat → Move) (n : Nat) :
    ((World.start policy).trace moves n).Informed := by
  induction n with
  | zero => exact fun _ _ _ h => by cases h
  | succ n ih =>
    obtain ⟨hkept, hpaired⟩ := kept_paired_trace policy moves n
    exact informed_move (reachable_trace policy moves n).wf (locked_trace policy moves n) (heedful_trace policy moves n)
      hkept hpaired ih (moves n)

end LiveFiles.Engine
