/-
Who is held back by a write. A write that revokes a reconciliation takes over its signal, which stays in the entry until the
write has ended. Shutting down forgets all entries in the end, but first waits for every path that is tracked.
- `exists_rearranged`: the order in which it goes through them may be any.
- `upholds_move`: as long as somebody has a turn at a path, a signal that is stored there stays stored, and whoever shuts the
  engine down has still to wait for the path (`World.Upholds`).
- **`waitsFor_move`**: so a call to watch that waits for the reconciliation (`World.WaitsFor`) goes on waiting, or is cancelled.
-/
import LiveFiles.Proofs.Chronology
import LiveFiles.Proofs.Failures

namespace LiveFiles.Engine

variable {w w' : World} {m : Move} {i j : TaskId} {a b : Activity} {k : Path.Key} {s : SignalId} {v v' : Places} {r : Roster}
  {next : Option Activity} {p : Path} {e e' : Entry} {seat : Seat} {τ : Turn} {q : QueryId}

/-! ## How entries are spelled -/

/-- each entry is kept under the key of its path -/
def Places.Spelled (v : Places) : Prop := ∀ k r, v.roster? k = some r → r.spelling.key = k

theorem Places.Spelled.put (hv : v.Spelled) (hr : r.spelling.key = k) : (v.put k (some r)).Spelled := by
  intro k' r' hr'
  rw [Places.roster?_put] at hr'
  split at hr'
  · rename_i hk
    cases hr'
    exact hr.trans hk.symm
  · exact hv k' r' hr'

theorem Shift.spelled (h : Shift v a v' next) (hv : v.Spelled) : v'.Spelled := by
  cases h with
  | steady _ he => exact he ▸ hv
  | lost _ _ _ he => exact he ▸ hv
  | spared _ _ _ he => exact he ▸ hv
  | drop k₀ r _ _ _ he =>
    subst he
    intro k' r' hr'
    rw [Places.roster?_put] at hr'
    split at hr'
    · cases hr'
    · exact hv k' r' hr'
  | take p r armed _ hr he =>
    have hspell : r.spelling.key = p.key := by
      rcases hr with hr | ⟨-, rfl⟩
      · exact hv p.key r hr
      · rfl
    rcases he with ⟨-, rfl⟩ | ⟨-, -, -, rfl⟩
    · exact hv.put hspell
    · exact hv.put (r := { r with count := r.count + 1, armed := true }) hspell
  | register seat r x _ hr he => exact he ▸ hv.put (hv _ r hr)
  | release p r registered hr _ _ he => exact he ▸ hv.put (hv _ r hr)
  | releaseLast p r registered hr _ _ he =>
    subst he
    exact hv.put (r := { r with registered, count := 0, armed := false }) (hv _ r hr)
  | shutDown ds _ _ he =>
    subst he
    intro k' r' hr'
    obtain ⟨r, hr, rfl⟩ := Option.map_eq_some_iff.1 hr'
    exact hv k' r hr
  | forget _ he =>
    subst he
    intro k' r' hr'
    cases hr'

theorem spelled_trace (policy : WritePolicy) (moves : Nat → Move) (n : Nat) :
    ((World.start policy).trace moves n).places.Spelled := by
  induction n with
  | zero => exact fun _ _ h => by cases h
  | succ n ih =>
    rw [World.trace]
    rcases section_or_not ((World.start policy).trace moves n) (moves n) with ⟨j, t, hm, hs, hc⟩ | hno
    · rw [hm]
      exact (shift_serve (reachable_trace policy moves n).wf hs hc).spelled ih
    · rw [(unmoved_of_no_section hno).places]
      exact ih

/-! ## The order of entries -/

/-- entries put in by rank stand in the order of their ranks -/
theorem pairwise_putByRank {rank : Path.Key → Nat} {es : List Entry}
    (h : es.Pairwise fun x y => rank x.spelling.key ≤ rank y.spelling.key) (e : Entry) :
    (World.putByRank rank e es).Pairwise fun x y => rank x.spelling.key ≤ rank y.spelling.key := by
  induction h with
  | nil => exact List.pairwise_singleton _ e
  | @cons x xs hx hxs ih =>
    by_cases hle : rank x.spelling.key ≤ rank e.spelling.key
    · rw [World.putByRank, if_pos hle]
      refine .cons (fun y hy => ?_) ih
      rcases List.mem_cons.1 ((World.perm_putByRank rank e xs).mem_iff.1 hy) with rfl | hy
      · exact hle
      · exact hx y hy
    · rw [World.putByRank, if_neg hle]
      have hlt := Nat.lt_of_not_le hle
      refine .cons (fun y hy => ?_) (.cons hx hxs)
      rcases List.mem_cons.1 hy with rfl | hy
      · exact hlt.le
      · exact hlt.le.trans (hx y hy)

theorem pairwise_inOrder (w : World) :
    w.inOrder.Pairwise fun x y => w.rank x.spelling.key ≤ w.rank y.spelling.key := by
  have key : ∀ es acc : List Entry, acc.Pairwise (fun x y => w.rank x.spelling.key ≤ w.rank y.spelling.key) →
      (es.foldl (fun es e => World.putByRank w.rank e es) acc).Pairwise
        fun x y => w.rank x.spelling.key ≤ w.rank y.spelling.key := by
    intro es
    induction es with
    | nil => exact fun acc h => h
    | cons e es ih => exact fun acc h => ih _ (pairwise_putByRank h e)
  exact key w.entries.values [] .nil

/-- **Entries may come to be gone through in any order.** -/
theorem exists_rearranged {es : List Entry} (hspell : w.places.Spelled) (h : es.Perm w.entries.values) :
    ∃ rank, (w.move (.rearrange rank)).inOrder = es := by
  have hkeys : (w.entries.values.map fun e => e.spelling.key) = w.entries.keys := by
    rw [Table.values, Table.keys, List.map_map]
    refine List.map_congr_left fun r hr => ?_
    exact hspell r.1 r.2.roster (congrArg (Option.map Entry.roster) (Table.get?_eq_some_iff.2 hr))
  have hnodup : (es.map fun e => e.spelling.key).Nodup :=
    (h.map fun e => e.spelling.key).nodup_iff.2 (hkeys ▸ w.entries.nodup)
  let rank : Path.Key → Nat := fun k => (es.map fun e => e.spelling.key).idxOf k
  have hrank : ∀ i (hi : i < es.length), rank es[i].spelling.key = i := fun i hi => by
    have hidx := List.Nodup.idxOf_getElem hnodup i (by rwa [List.length_map])
    rwa [List.getElem_map] at hidx
  refine ⟨rank, ((World.perm_inOrder (w.move (.rearrange rank))).trans h.symm).eq_of_pairwise ?_
    (pairwise_inOrder (w.move (.rearrange rank))) (List.pairwise_iff_getElem.2 fun i j hi hj hij => ?_)⟩
  · -- two entries of one rank have one path, and are the same
    intro x y hx hy hxy hyx
    have hx := ((World.perm_inOrder (w.move (.rearrange rank))).trans h.symm).mem_iff.1 hx
    have hsame : rank x.spelling.key = rank y.spelling.key := le_antisymm hxy hyx
    have hmem : x.spelling.key ∈ es.map fun e => e.spelling.key := List.mem_map.2 ⟨x, hx, rfl⟩
    exact List.inj_on_of_nodup_map hnodup hx hy ((List.idxOf_inj hmem).1 hsame)
  · change rank _ ≤ rank _
    rw [hrank, hrank]
    exact hij.le

/-! ## Shutting down -/

/-- the paths for which a task that shuts the engine down has still to wait -/
def Activity.sweeps : Activity → List Path
  | .closing paths => paths
  | .draining p _ rest => p :: rest
  | _ => []

/-- an entry goes away when it is torn down, or when somebody ends shutting down -/
theorem Shift.gone (h : Shift v a v' next) (hr : v.roster? k = some r) (hr' : v'.roster? k = none) :
    a.tears? = some k ∨ a.closes = true ∧ next = none := by
  by_cases hdown : a = .starting .shutDown
  · subst hdown
    obtain ⟨ds, -, rfl⟩ := h.of_shutDown
    cases (congrArg (Option.map Roster.retired) hr).symm.trans hr'
  · cases hc : a.closes with
    | false => exact Or.inl (h.dropped hdown hc hr hr').1
    | true =>
      rcases h.of_closes hc with ⟨rfl, -⟩ | ⟨-, hn⟩
      · cases hr.symm.trans hr'
      · exact Or.inr ⟨rfl, hn⟩

/-- whoever waits for a path takes it off the list only when nobody has a turn there -/
theorem sweeps_stepDraining (turn : Option Turn) (rest : List Path) (hbusy : w.turns.isIdle p.key = false) :
    ∃ turn', (w.stepDraining p turn rest).2.next = some (.draining p turn' rest) := by
  unfold World.stepDraining
  cases turn with
  | some τ =>
    cases hτ : w.turns.holds τ with
    | true =>
      simp only [World.awaitIdle, hτ, if_true]
      exact ⟨_, rfl⟩
    | false =>
      simp only [World.awaitIdle, hτ, Bool.false_eq_true, if_false]
      exact ⟨_, rfl⟩
  | none =>
    simp only [World.awaitIdle, hbusy, Bool.false_eq_true, if_false]
    exact ⟨_, rfl⟩

/-- **Whoever shuts the engine down goes on to wait for a path until nobody has a turn there.** -/
theorem sweeps_step (hc : a.closes = true) (hp : p ∈ a.sweeps) (hbusy : w.turns.isIdle p.key = false) :
    ∃ b, (w.step a).2.next = some b ∧ b.closes = true ∧ p ∈ b.sweeps := by
  cases a with
  | closing paths =>
    simp only [World.step, World.stepClosing]
    split
    · cases paths with
      | nil => cases hp
      | cons p₀ rest => exact ⟨_, rfl, rfl, hp⟩
    · exact ⟨_, rfl, rfl, hp⟩
  | draining p₀ turn rest =>
    by_cases hsame : p₀ = p
    · subst hsame
      obtain ⟨turn', hn⟩ := sweeps_stepDraining turn rest hbusy
      exact ⟨_, hn, rfl, hp⟩
    · have hrest : p ∈ rest := (List.mem_cons.1 hp).resolve_left fun e => hsame e.symm
      simp only [World.step, World.stepDraining]
      rcases w.awaitIdle p₀ turn with ⟨w₁, x | x | x | x⟩
      · exact ⟨_, rfl, rfl, hp⟩
      · exact ⟨_, rfl, rfl, hp⟩
      · exact ⟨_, rfl, rfl, hp⟩
      · cases rest with
        | nil => cases hrest
        | cons p₁ rest => exact ⟨_, rfl, rfl, hrest⟩
  | _ => cases hc

/-- whoever begins to shut the engine down has to wait for all paths that are tracked -/
theorem sweeps_of_shutDown (hspell : w.places.Spelled) (he : w.entries.get? k = some e)
    (hb : w.requestShutDown.2.next = some b) : ∃ q ∈ b.sweeps, q.key = k := by
  have hentries : w.requestShutDown.2 = .go (.closing (w.inOrder.map (·.spelling))) := by
    unfold World.requestShutDown
    cases w.pump <;> rfl
  rw [hentries] at hb
  cases hb
  have hmem : e ∈ w.inOrder :=
    (World.perm_inOrder w).mem_iff.2 (List.mem_map.2 ⟨(k, e), Table.get?_eq_some_iff.1 he, rfl⟩)
  refine ⟨e.spelling, List.mem_map.2 ⟨e, hmem, rfl⟩, ?_⟩
  exact hspell k e.roster (congrArg (Option.map Entry.roster) he)

/-! ## What is stored stays stored -/

/-- A signal is stored in the entry of a path among those that writes have taken over, and whoever shuts the engine down has
still to wait for the path. -/
structure World.Upholds (w : World) (k : Path.Key) (s : SignalId) : Prop where
  stored : ∃ e, w.entries.get? k = some e ∧ s ∈ e.revokedSignals
  swept : ∀ j ph, w.tasks.phase? j = some ph → ph.activity.closes = true → ∃ q ∈ ph.activity.sweeps, q.key = k

section Effects

variable {E : Mark → Prop} {c c' : Core} {st st' : Stake}

/-- a signal that has not been given stays stored, unless the entry goes away -/
theorem Effect.revoked_stays (h : Effect E c st c' st') (hE : ¬ E (.created k)) (he' : c'.entries.get? k = some e')
    (hstored : ∀ e, c.entries.get? k = some e → s ∈ e.revokedSignals) (hng : c.signals.isGiven s = false) :
    s ∈ e'.revokedSignals := by
  cases h.origin he' with
  | same e he hb =>
    obtain ⟨-, -, -, -, -, -, hrev⟩ := Entry.bare_eq hb
    rw [hrev]
    exact hstored e he
  | asked p e signal τ hk he ha =>
    rcases he with he | ⟨-, -, hcreated⟩
    · rw [ha.contents.2.2.2]
      exact hstored e he
    · exact absurd hcreated hE
  | taken p q τ e hs hk he hq he' =>
    subst he'
    exact hstored e he
  | concluded l d e o hs hk he ho he' =>
    subst he'
    cases o <;> exact hstored e he
  | revoked p bytes e τ hk he he' =>
    subst he'
    unfold World.revoke
    split
    · exact hstored e he
    · exact List.mem_append_left _ (hstored e he)
  | committed job e m hs hk he ho he' =>
    subst he'
    exact hstored e he
  | forgotten e he he' =>
    subst he'
    exact List.mem_filter.2 ⟨hstored e he, by simp [hng]⟩

theorem Effects.revoked_stays (h : Effects E c st c' st') (hE : ¬ E (.created k))
    (hstored : ∀ e, c.entries.get? k = some e → s ∈ e.revokedSignals) (hng : c'.signals.isGiven s = false) :
    ∀ e', c'.entries.get? k = some e' → s ∈ e'.revokedSignals := by
  induction h with
  | refl => exact hstored
  | tail _ he ih =>
    have hbefore := Bool.eq_false_iff.2 fun hg => Bool.eq_false_iff.1 hng (he.given hg)
    intro e' he'
    exact he.revoked_stays hE he' (ih hbefore) hbefore

end Effects

/-- **A signal that a write has taken over stays in the entry** as long as somebody has a turn at the path and it is not
given. -/
theorem upholds_move (hw : Wf w) (hspell : w.places.Spelled) (hturn : w.HasTurn i τ) (hτ : τ.key = k)
    (hng : (w.move m).signals.isGiven s = false) (h : w.Upholds k s) : (w.move m).Upholds k s := by
  obtain ⟨e, he, hmem⟩ := h.stored
  have hbusy : ∀ {p : Path}, p.key = k → w.turns.isIdle p.key = false := by
    intro p hp
    refine Bool.eq_false_iff.2 fun hidle => hw.sound.turns.isIdle_iff.1 hidle i τ hturn (hτ.trans hp.symm)
  have hsome : ∃ e', (w.move m).entries.get? k = some e' := by
    refine Option.ne_none_iff_exists'.1 fun hgone => ?_
    have hr : w.places.roster? k = some e.roster := congrArg (Option.map Entry.roster) he
    have hr' : (w.move m).places.roster? k = none := congrArg (Option.map Entry.roster) hgone
    rcases section_or_not w m with ⟨j, t, rfl, hs, hc⟩ | hno
    · rcases (shift_serve hw hs hc).gone hr hr' with htears | ⟨hcloses, hends⟩
      · obtain ⟨p, turn, hdrain, hp⟩ := Activity.drain?_of_tears htears
        have hsame : (serve w j).entries = w.entries := calc
          (serve w j).entries = ((floorTo w j).step t.phase.activity).1.entries :=
            congrArg Core.entries (core_serve_of_section hs hc).1
          _ = (floorTo w j).entries := entries_of_busy hdrain (by rw [turns_floorTo]; exact hbusy hp)
          _ = w.entries := congrArg Core.entries (core_floorTo w j)
        rw [World.move, hsame, he] at hgone
        cases hgone
      · obtain ⟨q, hq, hk⟩ := h.swept j t.phase (phase?_of_served hs) hcloses
        obtain ⟨b, hb, -⟩ := sweeps_step (w := floorTo w j) hcloses hq (by rw [turns_floorTo]; exact hbusy hk)
        rw [phase?_serve hw hs hc, hb] at hends
        cases hends
    · rw [(unmoved_of_no_section hno).places] at hr'
      cases hr.symm.trans hr'
  constructor
  case stored =>
    obtain ⟨e', he'⟩ := hsome
    obtain ⟨j, hserved⟩ := move_served hw m
    obtain ⟨st, heffects, -⟩ := hserved.effects
    refine ⟨e', he', heffects.revoked_stays ?_ ?_ hng e' he'⟩
    · intro hcreated
      cases he.symm.trans (absent_of_created hcreated)
    · intro e₁ he₁
      cases he.symm.trans he₁
      exact hmem
  case swept =>
    intro j ph hph hcloses
    rcases phase?_cases hw hph with hsame | ⟨-, hnew⟩ | ⟨a, hcarry, hb⟩
    · exact h.swept j ph hsame hcloses
    · cases hcloses.symm.trans hnew.closes
    · obtain ⟨ρ, hbefore⟩ := phase?_carried hcarry
      rcases (turnover_step (floorTo w j) a).shift.closes (by rw [hb]; exact hcloses) with hclosing | hbegins
      · obtain ⟨q, hq, hk⟩ := h.swept j ⟨ρ, a⟩ hbefore hclosing
        obtain ⟨b, hb', -, hq'⟩ := sweeps_step (w := floorTo w j) hclosing hq (by rw [turns_floorTo]; exact hbusy hk)
        cases hb.symm.trans hb'
        exact ⟨q, hq', hk⟩
      · rw [hbegins] at hb
        have he₀ : (floorTo w j).entries.get? k = some e :=
          (congrArg (fun c : Core => c.entries.get? k) (core_floorTo w j)).trans he
        exact sweeps_of_shutDown (by rw [places_floorTo]; exact hspell) he₀ hb

/-! ## Numbers of reconciliations -/

/-- the number of a reconciliation that is pending has been given -/
theorem pending_lt_trace {policy : WritePolicy} {moves : Nat → Move} {n : Nat}
    (hq : ((World.start policy).trace moves n).core.query? k = some q) :
    q < ((World.start policy).trace moves n).nextQuery := by
  refine (trace_induction
    (J := fun c st => Counted c st ∧ ∀ k q, c.query? k = some q → q < c.nextQuery) (N := fun _ => False) (fun _ _ _ h => h)
    ⟨(proper_start policy).counted, fun _ _ h => by cases h⟩ (fun E c st i c' s' _ h he => ?_) n).2 k q hq
  have hcounted := counted_effect h.1 he
  refine ⟨hcounted, fun k q hq => ?_⟩
  rcases he.query?_back hq with hbefore | ⟨-, p, τ, hline⟩
  · exact (h.2 k q hbefore).trans_le he.nextQuery
  · exact hcounted.fresh i p q τ (by rw [Function.update_self]; exact hline)

/-! ## Who is held back -/

/-- A call to watch that has a place at a path waits for a reconciliation: for the one of somebody else, when it settles, or
for its own one, which is in line. -/
inductive World.WaitsFor (w : World) (j : TaskId) (k : Path.Key) (q : QueryId) : Prop
  | settling (ρ : Role) (seat : Seat) (x : Option SignalId) (hph : w.tasks.phase? j = some ⟨ρ, .settling seat x⟩)
      (hk : seat.path.key = k)
  | first (ρ : Role) (seat : Seat) (p : Path) (τ : Turn)
      (hph : w.tasks.phase? j = some ⟨ρ, .synchronizing seat (.queued p q τ)⟩) (hk : seat.path.key = k) (hp : p.key = k)

theorem World.WaitsFor.live (h : w.WaitsFor j k q) : ∃ ph, w.tasks.phase? j = some ph ∧ ∀ x, ph.activity ≠ .starting x := by
  cases h with
  | settling ρ seat x hph => exact ⟨_, hph, fun _ hx => by cases hx⟩
  | first ρ seat p τ hph => exact ⟨_, hph, fun _ hx => by cases hx⟩

theorem World.WaitsFor.of_phase? (h : w.WaitsFor j k q) (hph : w'.tasks.phase? j = w.tasks.phase? j) : w'.WaitsFor j k q := by
  cases h with
  | settling ρ seat x hsettles hk => exact .settling ρ seat x (hph.trans hsettles) hk
  | first ρ seat p τ hfirst hk hp => exact .first ρ seat p τ (hph.trans hfirst) hk hp

/-- a call that settles where a signal is stored that has not been given goes on waiting -/
theorem next_stepSettling {x : Option SignalId} (he : w.entry? seat.path = some e) (hmem : s ∈ e.revokedSignals)
    (hng : w.signals.isGiven s = false) : ∃ x', (w.stepSettling seat x).2.next = some (.settling seat x') := by
  unfold World.stepSettling
  split
  · exact ⟨_, rfl⟩
  · rw [he, Option.bind_some]
    cases hx : e.unsettled w.signals with
    | some y => exact ⟨_, rfl⟩
    | none => exact absurd ⟨s, Or.inr (Or.inr hmem), hng⟩ (not_awaited_of_unsettled hx)

/-- a first reconciliation that has been overtaken stays in line, or comes to nothing -/
theorem next_of_overtaken (seat : Seat) (τ : Turn) (hpast : w.core.Past p.key q) :
    (w.stepSynchronizing seat (.queued p q τ)).2.next = some (.synchronizing seat (.queued p q τ)) ∨
      (w.stepSynchronizing seat (.queued p q τ)).2.next = some (.settling seat none) := by
  unfold World.stepSynchronizing
  cases hτ : w.turns.holds τ with
  | true =>
    rw [stepRefresh_of_past hpast hτ]
    exact Or.inr rfl
  | false =>
    simp only [World.stepRefresh, hτ, Bool.false_eq_true, if_false]
    exact Or.inl rfl

/-- a task that goes on with its section does not end in it -/
theorem not_replies_of_next {ph : Phase} {o : Outcome} (hph : w.tasks.phase? j = some ph)
    (hb : ((floorTo w j).step ph.activity).2.next = some b) : ¬ Replies w m j o := by
  rintro ⟨a, hcarry, hend⟩
  obtain ⟨ρ, hbefore⟩ := phase?_carried hcarry
  cases hph.symm.trans hbefore
  rw [hend] at hb
  cases hb

/-- **Whoever waits for a reconciliation that has been overtaken goes on waiting** where a signal is stored that has not been
given, unless it is cancelled. -/
theorem waitsFor_move (hw : Wf w) (hupholds : w.Upholds k s) (hng : w.signals.isGiven s = false) (hpast : w.core.Past k q)
    (h : w.WaitsFor j k q) :
    (∀ o, ¬ Replies w m j o) ∧ ((w.move m).WaitsFor j k q ∨ (w.move m).tasks.phase? j = none) := by
  -- a section of the call leads to a phase in which it waits, too
  have hfate : ∀ {ph : Phase} {b : Activity}, w.tasks.phase? j = some ph → ((floorTo w j).step ph.activity).2.next = some b →
      ((w.move m).tasks.phase? j = some ph → (w.move m).WaitsFor j k q) →
      ((w.move m).tasks.phase? j = some ⟨ph.role, b⟩ → (w.move m).WaitsFor j k q) →
      (∀ o, ¬ Replies w m j o) ∧ ((w.move m).WaitsFor j k q ∨ (w.move m).tasks.phase? j = none) := by
    intro ph b hph hb hstays hgoes
    refine ⟨fun o => not_replies_of_next hph hb, ?_⟩
    cases fate_move hw hph m with
    | stays hsame => exact Or.inl (hstays hsame)
    | goesOn b' hcarry hb' hafter =>
      cases hb.symm.trans hb'
      exact Or.inl (hgoes hafter)
    | ends o hcarry ho => exact absurd ⟨_, hcarry, ho⟩ (not_replies_of_next hph hb)
    | dropped t hm hs hc hnone => exact Or.inr hnone
  cases h with
  | settling ρ seat x hph hk =>
    obtain ⟨e, he, hmem⟩ := hupholds.stored
    have he₀ : World.entry? (floorTo w j) seat.path = some e := by
      rw [entry?_floorTo, World.entry?, hk]
      exact he
    have hng₀ : (floorTo w j).signals.isGiven s = false := by
      rw [show (floorTo w j).signals = w.signals from congrArg Core.signals (core_floorTo w j)]
      exact hng
    obtain ⟨x', hb⟩ := next_stepSettling (x := x) he₀ hmem hng₀
    exact hfate hph hb (fun hsame => .settling ρ seat x hsame hk) fun hafter => .settling ρ seat x' hafter hk
  | first ρ seat p τ hph hk hp =>
    subst hp
    have hsame : (w.move m).tasks.phase? j = some ⟨ρ, .synchronizing seat (.queued p q τ)⟩ → (w.move m).WaitsFor j p.key q :=
      fun hph' => .first ρ seat p τ hph' hk rfl
    rcases next_of_overtaken (w := floorTo w j) seat τ (by rw [core_floorTo]; exact hpast) with hb | hb
    · exact hfate hph hb hsame hsame
    · exact hfate hph hb hsame fun hafter => .settling ρ seat none hafter hk

end LiveFiles.Engine
