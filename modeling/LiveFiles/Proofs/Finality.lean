/-
After shutting down. Once a call to shut the engine down has returned, no path should be tracked, the watcher should be
armed for none, and calls to watch and to write should be refused (`World.Final`). Calls to watch are refused only when
they begin: one that waits for another call of the same subscriber may still take a place after the engine has been shut
down (`Slips`).
- `watched_trace`: until then, the watcher is armed for a path only if the entry of the path says so, and an entry at which
  nobody counts does not. So whoever shuts the engine down disarms the watcher for all paths.
- **`final_iff`**: every state after a return is final exactly if no call to watch slips in after the return, and whatever
  the watcher has been armed for after shutting down began, it has been disarmed for before the return.
- `late_watch_outlives_shutdown`: a run in which a call to watch slips in.
-/
import LiveFiles.Proofs.Leaks

namespace LiveFiles.Engine

/-! ## What the watcher is armed for -/

namespace Watcher

variable {A : List Path} {cs : List WatcherCall} {q : Path} {k : Path.Key}

theorem same_iff {p q : Path} : p.same q = true ↔ p.key = q.key := by simp [Path.same]

/-- what is armed after some calls was armed by one of them, or before, and no call has disarmed it -/
theorem mem_foldl_armedAfter (h : q ∈ cs.foldl armedAfter A) :
    (∃ p, .arm p ∈ cs ∧ p.key = q.key) ∨ q ∈ A ∧ ∀ d, .disarm d ∈ cs → d.key ≠ q.key := by
  induction cs generalizing A with
  | nil => exact Or.inr ⟨h, by simp⟩
  | cons c cs ih =>
    rcases ih h with ⟨p, hp, hk⟩ | ⟨hq, hd⟩
    · exact Or.inl ⟨p, List.mem_cons_of_mem _ hp, hk⟩
    · cases c with
      | arm p =>
        have hcs : ∀ d, .disarm d ∈ WatcherCall.arm p :: cs → d.key ≠ q.key := fun d hmem => hd d (by simpa using hmem)
        simp only [armedAfter] at hq
        split at hq
        · exact Or.inr ⟨hq, hcs⟩
        · rcases List.mem_append.1 hq with hq | hq
          · exact Or.inr ⟨hq, hcs⟩
          · exact Or.inl ⟨p, List.mem_cons_self, by rw [List.mem_singleton.1 hq]⟩
      | disarm p =>
        simp only [armedAfter, List.mem_filter, Bool.not_eq_true', Bool.eq_false_iff, ne_eq, same_iff] at hq
        refine Or.inr ⟨hq.1, fun d hmem => ?_⟩
        rcases List.mem_cons.1 hmem with hdp | hmem
        · cases hdp
          exact fun e => hq.2 e.symm
        · exact hd d hmem

/-- a path stays armed until it is disarmed -/
theorem armed_foldl (hA : ∃ q ∈ A, q.key = k) (hd : ∀ d, .disarm d ∈ cs → d.key ≠ k) :
    ∃ q ∈ cs.foldl armedAfter A, q.key = k := by
  induction cs generalizing A with
  | nil => exact hA
  | cons c cs ih =>
    obtain ⟨q, hq, rfl⟩ := hA
    refine ih ⟨q, ?_, rfl⟩ fun d hmem => hd d (List.mem_cons_of_mem _ hmem)
    cases c with
    | arm p =>
      simp only [armedAfter]
      split
      · exact hq
      · exact List.mem_append_left _ hq
    | disarm p =>
      simp only [armedAfter, List.mem_filter, Bool.not_eq_true', Bool.eq_false_iff, ne_eq, same_iff]
      exact ⟨hq, fun e => hd p List.mem_cons_self e.symm⟩

/-- a path is armed after it has been told to be -/
theorem armed_arm (A : List Path) (p : Path) : ∃ q ∈ armedAfter A (.arm p), q.key = p.key := by
  simp only [armedAfter]
  split
  · rename_i h
    obtain ⟨q, hq, hs⟩ := List.any_eq_true.1 h
    exact ⟨q, hq, same_iff.1 hs⟩
  · exact ⟨p, by simp, rfl⟩

end Watcher

namespace Places

/-- the paths for which the watcher is armed -/
def armed (v : Places) : List Path := v.calls.foldl Watcher.armedAfter []

theorem armed_tell (v : Places) (cs : List WatcherCall) : (v.tell cs).armed = cs.foldl Watcher.armedAfter v.armed := by
  simp only [armed, tell, List.foldl_append]

/-- The watcher is armed as the entries say, and for no path at which nobody counts. -/
structure Watched (v : Places) : Prop where
  armed : ∀ q ∈ v.armed, ∃ r, v.roster? q.key = some r ∧ r.armed = true
  spelled : ∀ k r, v.roster? k = some r → r.spelling.key = k
  vacant : ∀ k r, v.roster? k = some r → r.count = 0 → r.armed = false

end Places

variable {v v' : Places} {a : Activity} {next : Option Activity} {k : Path.Key}

theorem Places.tell_nil (v : Places) : v.tell [] = v := by simp only [Places.tell, List.append_nil]

/-- a roster is put in place of another, or of none, and the watcher is told something about that path -/
theorem Places.Watched.put {k₀ : Path.Key} {r' : Roster} {cs : List WatcherCall} (hv : v.Watched)
    (hs : r'.spelling.key = k₀) (hz : r'.count = 0 → r'.armed = false)
    (hcs : ∀ q ∈ cs.foldl Watcher.armedAfter v.armed, (q.key = k₀ → r'.armed = true) ∧ (q.key ≠ k₀ → q ∈ v.armed)) :
    ((v.put k₀ (some r')).tell cs).Watched := by
  have hroster : ∀ k, ((v.put k₀ (some r')).tell cs).roster? k = if k = k₀ then some r' else v.roster? k :=
    fun k => v.roster?_put k₀ k (some r')
  refine ⟨fun q hq => ?_, fun k r hr => ?_, fun k r hr => ?_⟩
  · rw [Places.armed_tell] at hq
    rw [hroster]
    split
    · exact ⟨r', rfl, (hcs q hq).1 ‹_›⟩
    · exact hv.armed q ((hcs q hq).2 ‹_›)
  · rw [hroster] at hr
    split at hr
    · rename_i hk
      cases hr
      exact hs.trans hk.symm
    · exact hv.spelled k r hr
  · rw [hroster] at hr
    split at hr
    · cases hr
      exact hz
    · exact hv.vacant k r hr

/-- the watcher is told nothing -/
theorem Places.Watched.change {k₀ : Path.Key} {r r' : Roster} (hv : v.Watched) (hr : v.roster? k₀ = some r)
    (hs : r'.spelling = r.spelling) (hz : r'.count = 0 → r'.armed = false) (ha : r'.armed = r.armed) :
    (v.put k₀ (some r')).Watched := by
  rw [← Places.tell_nil (v.put k₀ (some r'))]
  refine hv.put (hs ▸ hv.spelled k₀ r hr) hz fun q hq => ⟨?_, fun _ => hq⟩
  rintro rfl
  obtain ⟨r₁, hr₁, harmed⟩ := hv.armed q hq
  cases hr.symm.trans hr₁
  exact ha.trans harmed

/-- **A section keeps the watcher armed as the entries say**, if it does not shut the engine down. -/
theorem Shift.watched (h : Shift v a v' next) (ha : a ≠ .starting .shutDown) (hc : a.closes = false)
    (ht : ∀ k, v.registered k + share a.place? k ≤ v.count k) (hv : v.Watched) : v'.Watched := by
  cases h with
  | steady _ he => exact he ▸ hv
  | lost _ _ _ he => exact he ▸ hv
  | spared _ _ _ he => exact he ▸ hv
  | drop k₀ r hk hr hz he =>
    subst he
    have hput : ∀ k r', (v.put k₀ none).roster? k = some r' → v.roster? k = some r' := fun k r' h => by
      rw [Places.roster?_put] at h
      split at h
      · cases h
      · exact h
    refine ⟨fun q hq => ?_, fun k r' h => hv.spelled k r' (hput k r' h), fun k r' h => hv.vacant k r' (hput k r' h)⟩
    -- the watcher is not armed for a path at which nobody counts
    obtain ⟨r', hr', harmed⟩ := hv.armed q hq
    refine ⟨r', ?_, harmed⟩
    rw [Places.roster?_put, if_neg]
    · exact hr'
    · rintro rfl
      cases hr.symm.trans hr'
      rw [hv.vacant _ r hr hz] at harmed
      cases harmed
  | take p r armed _ hr he =>
    have hspell : r.spelling.key = p.key := by
      rcases hr with hr | ⟨-, rfl⟩
      · exact hv.spelled p.key r hr
      · rfl
    rcases he with ⟨rfl, rfl⟩ | ⟨-, -, -, rfl⟩
    · rw [← Places.tell_nil (v.put _ _)]
      refine hv.put hspell (fun h => absurd h (Nat.succ_ne_zero _)) fun q hq => ⟨fun hk => ?_, fun _ => hq⟩
      obtain ⟨r', hr', harmed⟩ := hv.armed q hq
      rw [hk] at hr'
      rcases hr with hr | ⟨hr, -⟩ <;> cases hr.symm.trans hr'
      exact harmed
    · refine hv.put hspell (fun h => absurd h (Nat.succ_ne_zero _)) fun q hq => ⟨fun _ => rfl, fun hk => ?_⟩
      rcases Watcher.mem_foldl_armedAfter hq with ⟨p', hp', hk'⟩ | ⟨hq, -⟩
      · cases List.mem_singleton.1 hp'
        exact absurd hk'.symm hk
      · exact hq
  | register seat r x hset hr he =>
    obtain ⟨signal, rfl⟩ := hset
    subst he
    refine hv.change hr rfl (fun hz => ?_) rfl
    -- the place that is turned into a registration counts
    have hle := ht seat.path.key
    simp only [Places.registered, Places.count, hr, Option.map_some, Option.getD_some, Activity.place?, share_self] at hle
    dsimp only at hz
    split at hz
    · rename_i hmem
      have hsize := Table.size_erase hmem
      omega
    · omega
  | release p r registered hr _ hz he => exact he ▸ hv.change hr rfl (fun h => absurd h hz) rfl
  | releaseLast p r registered hr _ hz he =>
    subst he
    refine hv.put (hv.spelled _ r hr) (fun _ => rfl) fun q hq => ?_
    -- where the watcher was armed for the path, it is disarmed
    rcases Watcher.mem_foldl_armedAfter hq with ⟨p', hp', -⟩ | ⟨hq, hd⟩
    · split at hp' <;> simp at hp'
    · refine ⟨fun hk => ?_, fun _ => hq⟩
      obtain ⟨r', hr', harmed⟩ := hv.armed q hq
      rw [hk] at hr'
      cases hr.symm.trans hr'
      exact absurd hk.symm (hd p (by simp [harmed]))
  | shutDown ds h => exact absurd h ha
  | forget h =>
    rw [hc] at h
    cases h

/-- whoever begins to shut the engine down removes all subscribers, and disarms the watcher wherever it was armed -/
theorem Shift.of_shutDown (h : Shift v (.starting .shutDown) v' next) : ∃ ds : List Path,
    (∀ k r, v.roster? k = some r → r.armed = true → r.spelling ∈ ds) ∧
      v' = ⟨fun k => (v.roster? k).map Roster.retired, v.calls ++ ds.map .disarm⟩ := by
  cases h with
  | shutDown ds _ hds he => exact ⟨ds, hds, he⟩
  | steady h => exact absurd rfl h
  | lost _ h => cases h
  | spared _ h => cases h
  | drop _ _ h => cases h
  | take _ _ _ h =>
    obtain ⟨_, _, _, h⟩ := h
    cases h
  | register _ _ _ h =>
    obtain ⟨_, h⟩ := h
    cases h
  | release _ _ _ _ h => rcases h with ⟨h, -⟩ | ⟨_, h, -⟩ <;> cases h
  | releaseLast _ _ _ _ h => rcases h with ⟨h, -⟩ | ⟨_, h, -⟩ <;> cases h
  | forget h => cases h

/-- what is armed after the watcher has been told to disarm some paths -/
theorem Places.mem_armed_disarm {roster? : Path.Key → Option Roster} {ds : List Path}
    (hq : q ∈ (Places.mk roster? (v.calls ++ ds.map .disarm)).armed) : q ∈ v.armed ∧ ∀ d ∈ ds, d.key ≠ q.key := by
  have htell : (Places.mk roster? (v.calls ++ ds.map .disarm)).armed = (ds.map .disarm).foldl Watcher.armedAfter v.armed :=
    List.foldl_append
  rw [htell] at hq
  rcases Watcher.mem_foldl_armedAfter hq with ⟨p, hp, -⟩ | ⟨hq, hd⟩
  · simp at hp
  · exact ⟨hq, fun d hin => hd d (List.mem_map.2 ⟨d, hin, rfl⟩)⟩

/-- **Shutting down disarms the watcher** for all paths for which it is armed. -/
theorem Shift.disarmed (h : Shift v a v' next) (ha : a = .starting .shutDown) (hv : v.Watched) : v'.armed = [] := by
  subst ha
  obtain ⟨ds, hds, rfl⟩ := h.of_shutDown
  rw [List.eq_nil_iff_forall_not_mem]
  intro q hq
  obtain ⟨hq, hd⟩ := Places.mem_armed_disarm hq
  obtain ⟨r, hr, harmed⟩ := hv.armed q hq
  exact hd r.spelling (hds q.key r hr harmed) (hv.spelled q.key r hr)

/-- what a section tells the watcher: to arm for a path, or to disarm for some -/
theorem Shift.told (h : Shift v a v' next) : ∃ cs, v'.calls = v.calls ++ cs ∧ ∀ p, .arm p ∈ cs → cs = [.arm p] := by
  have hnil : ∀ {v' : Places}, v'.calls = v.calls → ∃ cs, v'.calls = v.calls ++ cs ∧ ∀ p, .arm p ∈ cs → cs = [.arm p] :=
    fun he => ⟨[], by rw [he, List.append_nil], by simp⟩
  cases h with
  | steady _ he => exact hnil (by rw [he])
  | lost _ _ _ he => exact hnil (by rw [he])
  | spared _ _ _ he => exact hnil (by rw [he])
  | drop _ _ _ _ _ he => exact hnil (by rw [he]; rfl)
  | take p r armed _ _ he =>
    rcases he with ⟨-, he⟩ | ⟨-, -, -, he⟩
    · exact hnil (by rw [he]; rfl)
    · refine ⟨[.arm p], congrArg Places.calls he, fun q hq => ?_⟩
      rw [← List.mem_singleton.1 hq]
  | register _ _ _ _ _ he => exact hnil (by rw [he]; rfl)
  | release _ _ _ _ _ _ he => exact hnil (by rw [he]; rfl)
  | releaseLast p r _ _ _ _ he =>
    refine ⟨_, congrArg Places.calls he, fun q hq => ?_⟩
    split at hq <;> simp at hq
  | shutDown ds _ _ he => exact ⟨_, congrArg Places.calls he, fun q hq => by simp at hq⟩
  | forget _ he => exact hnil (by rw [he])

/-- a task shuts the engine down only if it has begun to -/
theorem Shift.closes (h : Shift v a v' next) (hn : next.any Activity.closes = true) :
    a.closes = true ∨ a = .starting .shutDown := by
  cases h with
  | steady _ _ _ _ hc => exact Or.inl (hc ▸ hn)
  | shutDown _ ha => exact Or.inr ha
  | forget ha => exact Or.inl ha
  | take _ _ _ _ _ _ hx =>
    obtain ⟨b, rfl, -, -, hb⟩ := hx
    rw [Option.any_some, hb] at hn
    cases hn
  | releaseLast _ _ _ _ _ _ _ hx =>
    obtain ⟨l, rfl⟩ := hx
    cases hn
  | lost _ _ _ _ hx => subst hx; cases hn
  | spared _ _ _ _ hx => subst hx; cases hn
  | drop _ _ _ _ _ _ hx => subst hx; cases hn
  | register _ _ _ _ _ _ hx => subst hx; cases hn
  | release _ _ _ _ _ _ _ hx => subst hx; cases hn

theorem Activity.of_closes (ha : a.closes = true) : a.place? = none ∧ a.tears? = none := by
  cases a <;> first | exact ⟨rfl, rfl⟩ | cases ha

/-- whoever shuts the engine down leaves all entries alone and goes on, or forgets them and ends -/
theorem Shift.of_closes (h : Shift v a v' next) (ha : a.closes = true) :
    v' = v ∧ next.any Activity.closes = true ∨ v' = ⟨fun _ => none, v.calls⟩ ∧ next = none := by
  obtain ⟨hplace, htears⟩ := Activity.of_closes ha
  cases h with
  | steady _ he _ _ hc => exact Or.inl ⟨he, hc.trans ha⟩
  | forget _ he hn => exact Or.inr ⟨he, hn⟩
  | take _ _ _ h =>
    obtain ⟨_, _, _, rfl⟩ := h
    cases ha
  | register _ _ _ h =>
    obtain ⟨_, rfl⟩ := h
    cases ha
  | release _ _ _ _ h | releaseLast _ _ _ _ h =>
    rcases h with ⟨h, -⟩ | ⟨_, rfl, -⟩
    · cases hplace.symm.trans h
    · cases ha
  | shutDown _ h => subst h; cases ha
  | lost _ h => cases hplace.symm.trans h
  | spared _ h => cases htears.symm.trans h
  | drop _ _ h => cases htears.symm.trans h

/-- a task that ends shutting down forgets all entries -/
theorem Shift.forgets (h : Shift v a v' none) (ha : a.closes = true) : v' = ⟨fun _ => none, v.calls⟩ := by
  rcases h.of_closes ha with ⟨-, hgoes⟩ | ⟨he, -⟩
  · cases hgoes
  · exact he

/-- where there are no entries, none are made but by a call to watch that takes a place -/
theorem Shift.blank (h : Shift v a v' next) (hv : ∀ k, v.roster? k = none) (harmed : v.armed = [])
    (hslip : (∃ p id joined other, a = .joining p id joined other) → next.bind Activity.place? = none) :
    (∀ k, v'.roster? k = none) ∧ v'.armed = [] := by
  cases h with
  | steady _ he => exact he ▸ ⟨hv, harmed⟩
  | lost _ _ _ he => exact he ▸ ⟨hv, harmed⟩
  | spared _ _ _ he => exact he ▸ ⟨hv, harmed⟩
  | take p r armed ha _ _ hx =>
    obtain ⟨id, joined, other, rfl⟩ := ha
    obtain ⟨b, rfl, hb, -⟩ := hx
    rw [Option.bind_some, hb] at hslip
    cases hslip ⟨p, id, joined, other, rfl⟩
  | shutDown ds _ _ he =>
    subst he
    refine ⟨fun k => by simp only [hv k, Option.map_none], ?_⟩
    rw [List.eq_nil_iff_forall_not_mem]
    intro q hq
    have hq := (Places.mem_armed_disarm hq).1
    rw [harmed] at hq
    cases hq
  | forget _ he => exact he ▸ ⟨fun _ => rfl, harmed⟩
  | drop k₀ r _ hr => cases (hv k₀).symm.trans hr
  | register seat r _ _ hr => cases (hv _).symm.trans hr
  | release p r _ hr => cases (hv _).symm.trans hr
  | releaseLast p r _ hr => cases (hv _).symm.trans hr

/-! ## In a move -/

/-- A call to watch takes a place though the engine has been shut down. -/
def Slips (w : World) (m : Move) : Prop :=
  w.isShutDown = true ∧ ∃ k, Takes w m k

/-- a call to shut the engine down returns -/
def Returns (w : World) (m : Move) : Prop :=
  ∃ id t, m = .turn id ∧ w.served? id = some t ∧ t.cancelled = false ∧ t.phase.activity.closes = true ∧
    (w.move m).tasks.phase? id = none

/-- the watcher is told something in the move -/
def Tells (w : World) (m : Move) (c : WatcherCall) : Prop :=
  ∃ cs, (w.move m).watcher.calls = w.watcher.calls ++ cs ∧ c ∈ cs

variable {w : World} {m : Move} {id : TaskId} {t : Task Phase}

theorem told_move (hw : Wf w) (m : Move) :
    ∃ cs, (w.move m).watcher.calls = w.watcher.calls ++ cs ∧ ∀ p, .arm p ∈ cs → cs = [.arm p] := by
  rcases section_or_not w m with ⟨id, t, rfl, hs, hc⟩ | hno
  · exact (shift_serve hw hs hc).told
  · have hcalls : (w.move m).watcher.calls = w.watcher.calls := congrArg Places.calls (unmoved_of_no_section hno).places
    exact ⟨[], by rw [hcalls, List.append_nil], by simp⟩

theorem tells_iff {c : WatcherCall} {cs : List WatcherCall} (h : (w.move m).watcher.calls = w.watcher.calls ++ cs) :
    Tells w m c ↔ c ∈ cs := by
  constructor
  · rintro ⟨cs', h', hc⟩
    rwa [List.append_cancel_left (h.symm.trans h')]
  · exact fun hc => ⟨cs, h, hc⟩

theorem armed_move {cs : List WatcherCall} (h : (w.move m).watcher.calls = w.watcher.calls ++ cs) :
    (w.move m).watcher.armed = cs.foldl Watcher.armedAfter w.watcher.armed := by
  rw [Watcher.armed, h, List.foldl_append, Watcher.armed]

theorem isShutDown_move (h : w.isShutDown = true) (m : Move) : (w.move m).isShutDown = true := by
  rcases section_or_not w m with ⟨id, t, rfl, hs, hc⟩ | hno
  · by_cases ha : t.phase.activity = .starting .shutDown
    · exact isShutDown_serve hs hc ha
    · exact (going_serve hs hc ha).1.trans h
  · exact (unmoved_of_no_section hno).isShutDown.trans h

/-- who is shutting the engine down has begun to -/
def World.Shutting (w : World) : Prop :=
  ∀ id ph, w.tasks.phase? id = some ph → ph.activity.closes = true → w.isShutDown = true

theorem Newcomer.closes {p : Phase} (h : Newcomer w m p) : p.activity.closes = false := by
  rcases h.cases with ⟨r, hp, -⟩ | ⟨q, x, hp⟩ | ⟨x, hp⟩ <;> rw [hp] <;> rfl

theorem shutting_move (hw : Wf w) (h : w.Shutting) (m : Move) : (w.move m).Shutting := by
  intro id ph hph hcl
  cases hm : w.serves m id with
  | false =>
    rcases phase?_newcomer hw hm with he | ⟨-, hnew⟩
    · exact isShutDown_move (h id ph (he.symm.trans hph) hcl) m
    · rw [(hnew ph hph).closes] at hcl
      cases hcl
  | true =>
    obtain ⟨rfl, hgo⟩ := serves_iff.1 hm
    cases hs : w.served? id with
    | none =>
      have hnone : w.tasks.phase? id = none := Tasks.phase?_eq_none_iff.2 (by simpa [World.served?, hgo] using hs)
      cases (hph.symm.trans (phase?_serve_of_nobody hs id)).trans hnone
    | some t =>
      cases hc : t.cancelled with
      | true => cases hph.symm.trans (phase?_serve_of_cancelled hw hs hc)
      | false =>
        have hshift := shift_serve hw hs hc
        have hph' : (serve w id).tasks.phase? id = some ph := hph
        rw [hph', Option.map_some] at hshift
        rcases hshift.closes (by simpa using hcl) with ha | ha
        · exact isShutDown_move (h id t.phase (phase?_of_served hs) ha) _
        · exact isShutDown_serve hs hc ha

/-- a move that leaves the engine running is no part of shutting down -/
theorem continues_of_running (h : w.Shutting) (hm : (w.move m).isShutDown = false) : Continues w m := by
  rintro id t rfl hs hc
  constructor
  · intro ha
    have hdown : (w.move (.turn id)).isShutDown = true := isShutDown_serve hs hc ha
    rw [hm] at hdown
    cases hdown
  · rw [← Bool.not_eq_true]
    intro ha
    have hdown := isShutDown_move (h id t.phase (phase?_of_served hs) ha) (.turn id)
    rw [hm] at hdown
    cases hdown

theorem share_le_seated (hw : Wf w) (hs : w.served? id = some t) (k : Path.Key) :
    share t.phase.activity.place? k ≤ w.seated k := by
  have hp := phase?_of_served hs
  have hat : w.place? id = t.phase.activity.place? := by rw [World.place?, hp, Option.bind_some]
  rw [← hat]
  exact Finset.single_le_sum (f := fun id => share (w.place? id) k) (fun _ _ => Nat.zero_le _)
    (Finset.mem_range.2 (hw.numbered.lt hp))

theorem Tallied.covers (ht : Tallied w) (hw : Wf w) (hs : w.served? id = some t) (k : Path.Key) :
    w.places.registered k + share t.phase.activity.place? k ≤ w.places.count k :=
  (Nat.add_le_add_left (share_le_seated hw hs k) _).trans (ht k)

theorem watched_move (hw : Wf w) (hm : Continues w m) (ht : Tallied w) (hv : w.places.Watched) :
    (w.move m).places.Watched := by
  rcases section_or_not w m with ⟨id, t, rfl, hs, hc⟩ | hno
  · obtain ⟨ha, hcl⟩ := hm id t rfl hs hc
    exact (shift_serve hw hs hc).watched ha hcl (ht.covers hw hs) hv
  · rw [(unmoved_of_no_section hno).places]
    exact hv

/-- when shutting down begins, the watcher is disarmed -/
theorem disarmed_move (hw : Wf w) (hv : w.places.Watched) (h : w.isShutDown = false) (h' : (w.move m).isShutDown = true) :
    (w.move m).watcher.armed = [] := by
  rcases section_or_not w m with ⟨id, t, rfl, hs, hc⟩ | hno
  · by_cases ha : t.phase.activity = .starting .shutDown
    · exact (shift_serve hw hs hc).disarmed ha hv
    · rw [show (w.move (.turn id)).isShutDown = w.isShutDown from (going_serve hs hc ha).1, h] at h'
      cases h'
  · rw [(unmoved_of_no_section hno).isShutDown, h] at h'
    cases h'

/-- where there are no entries, and no call to watch slips in, there are none afterwards -/
theorem blank_move (hw : Wf w) (hdown : w.isShutDown = true) (hm : ¬ Slips w m) (hv : ∀ k, w.places.roster? k = none)
    (harmed : w.watcher.armed = []) : (∀ k, (w.move m).places.roster? k = none) ∧ (w.move m).watcher.armed = [] := by
  rcases section_or_not w m with ⟨id, t, rfl, hs, hc⟩ | hno
  · refine (shift_serve hw hs hc).blank hv harmed fun ⟨p, x, joined, other, ha⟩ => ?_
    rw [Option.bind_map]
    by_contra hne
    obtain ⟨k, hk⟩ := Option.ne_none_iff_exists'.1 hne
    exact hm ⟨hdown, k, id, t, rfl, hs, hc, ⟨p, x, joined, other, ha⟩, hk⟩
  · rw [(unmoved_of_no_section hno).places]
    have hcalls : (w.move m).watcher.calls = w.watcher.calls := congrArg Places.calls (unmoved_of_no_section hno).places
    exact ⟨hv, by rw [Watcher.armed, hcalls]; exact harmed⟩

theorem returns_move (hw : Wf w) (hm : Returns w m) :
    (∀ k, (w.move m).places.roster? k = none) ∧ (w.move m).watcher.calls = w.watcher.calls := by
  obtain ⟨id, t, rfl, hs, hc, ha, hn⟩ := hm
  have hshift := shift_serve hw hs hc
  have hn' : (serve w id).tasks.phase? id = none := hn
  rw [hn', Option.map_none] at hshift
  have hplaces : (w.move (.turn id)).places = ⟨fun _ => none, w.places.calls⟩ := hshift.forgets ha
  exact ⟨fun k => by rw [hplaces], congrArg Places.calls hplaces⟩

/-- a call to watch that slips in leaves an entry -/
theorem Slips.tracked (hw : Wf w) (hm : Slips w m) : ∃ p, (w.move m).isTracked p = true := by
  obtain ⟨-, k, htake⟩ := hm
  obtain ⟨p, rfl, r, hr, -⟩ := htake.counts hw
  obtain ⟨e, he, -⟩ := Option.map_eq_some_iff.1 hr
  exact ⟨p, by simp only [World.isTracked, Table.contains, he, Option.isSome_some]⟩

/-! ## Along a run -/

/-- calls of which the engine takes no more once it has been shut down -/
def Request.isWork : Request → Bool
  | .watch .. | .write .. => true
  | .unwatch .. | .reconcile _ | .release _ | .waitIdle | .shutDown | .diskStat _ | .diskRead _ | .diskWrite .. => false

/-- a call is refused, and nothing else happens -/
structure World.Refused (w : World) (id : TaskId) (w' : World) : Prop where
  endings : w'.endings = w.endings ++ [(id, .returned (.error .shutDown))]
  entries : w'.entries = w.entries
  watcher : w'.watcher = w.watcher
  disk : w'.disk = w.disk
  ended : w'.tasks.phase? id = none

/-- no path is tracked, the watcher is armed for none, and calls to watch and to write that begin are refused -/
structure World.Final (w : World) : Prop where
  untracked : ∀ p, w.isTracked p = false
  disarmed : w.watcher.armed = []
  refuses : ∀ id t r, w.served? id = some t → t.cancelled = false → t.phase = ⟨.caller, .starting r⟩ → r.isWork = true →
    w.Refused id (serve w id)

theorem step_of_isWork {r : Request} (h : w.isShutDown = true) (hr : r.isWork = true) :
    w.step (.starting r) = (w, .ended (.error .shutDown)) := by
  cases r with
  | watch p x => simp [World.step, World.begin, World.requestWatch, h]
  | write p bytes => simp [World.step, World.begin, World.requestSave, h, ofPart, Except.map]
  | _ => cases hr

theorem refused_serve {r : Request} (hw : Wf w) (hdown : w.isShutDown = true) (hs : w.served? id = some t)
    (hc : t.cancelled = false) (hp : t.phase = ⟨.caller, .starting r⟩) (hr : r.isWork = true) :
    w.Refused id (serve w id) := by
  have hstep : (floorTo w id).step (.starting r) = (floorTo w id, .ended (.error .shutDown)) :=
    step_of_isWork ((isShutDown_floorTo w id).trans hdown) hr
  have hended := phase?_serve hw hs hc
  rw [hp] at hended
  simp only [hstep] at hended
  have hentries : (floorTo w id).entries = w.entries := congrArg Core.entries (core_floorTo w id)
  have hwatcher : (floorTo w id).watcher = w.watcher ∧ (floorTo w id).endings = w.endings := by
    unfold floorTo
    split <;> exact ⟨rfl, rfl⟩
  have hserve := serve_of_section hs hc
  rw [hp] at hserve
  simp only [World.advance, hstep, World.after, World.finish] at hserve
  rw [hserve]
  refine ⟨?_, hentries, hwatcher.1, disk_floorTo w id, ?_⟩
  · rw [← hwatcher.2]
  · rw [← hserve]
    exact hended

variable {policy : WritePolicy} {moves : Nat → Move} {n : Nat}

theorem isShutDown_trace {n l : Nat} (hnl : n ≤ l) (h : (w.trace moves n).isShutDown = true) :
    (w.trace moves l).isShutDown = true := by
  induction l, hnl using Nat.le_induction with
  | base => exact h
  | succ l _ ih => exact isShutDown_move ih (moves l)

theorem shutting_trace (policy : WritePolicy) (moves : Nat → Move) (n : Nat) :
    ((World.start policy).trace moves n).Shutting := by
  induction n with
  | zero => exact fun id ph hph => by cases hph
  | succ n ih => exact shutting_move (reachable_trace policy moves n).wf ih (moves n)

/-- **Until the engine is shut down, the watcher is armed as the entries say**, and the count of every entry is right. -/
theorem watched_trace (h : ((World.start policy).trace moves n).isShutDown = false) :
    Tallied ((World.start policy).trace moves n) ∧ ((World.start policy).trace moves n).places.Watched := by
  induction n with
  | zero =>
    have hv : ((World.start policy).trace moves 0).places.Watched :=
      { armed := fun q hq => by cases hq
        spelled := fun k r hr => by cases hr
        vacant := fun k r hr => by cases hr }
    exact ⟨fun k => le_rfl, hv⟩
  | succ n ih =>
    have hw := (reachable_trace policy moves n).wf
    have hcont := continues_of_running (shutting_trace policy moves n) h
    obtain ⟨ht, hv⟩ := ih (by
      rw [← Bool.not_eq_true]
      intro hdown
      rw [isShutDown_trace (Nat.le_succ n) hdown] at h
      cases h)
    exact ⟨tallied_move hw hcont ht, watched_move hw hcont ht hv⟩

/-- After shutting down has begun, the watcher has been armed for a path, and not been disarmed for it since. -/
def Lingers (w : World) (moves : Nat → Move) (n : Nat) (k : Path.Key) : Prop :=
  ∃ i, i < n ∧ (w.trace moves i).isShutDown = true ∧ (∃ p, p.key = k ∧ Tells (w.trace moves i) (moves i) (.arm p)) ∧
    ∀ j, i < j → j < n → ∀ q, Tells (w.trace moves j) (moves j) (.disarm q) → q.key ≠ k

theorem lingers_of_armed (h : ((World.start policy).trace moves n).isShutDown = true) {q : Path}
    (hq : q ∈ ((World.start policy).trace moves n).watcher.armed) : Lingers (World.start policy) moves n q.key := by
  induction n with
  | zero => cases h
  | succ n ih =>
    have hw := (reachable_trace policy moves n).wf
    cases hdown : ((World.start policy).trace moves n).isShutDown with
    | false =>
      have hnil := disarmed_move hw (watched_trace hdown).2 hdown h
      rw [show ((World.start policy).trace moves (n + 1)).watcher.armed = [] from hnil] at hq
      cases hq
    | true =>
      obtain ⟨cs, hcs, -⟩ := told_move hw (moves n)
      have hq' : q ∈ cs.foldl Watcher.armedAfter ((World.start policy).trace moves n).watcher.armed := armed_move hcs ▸ hq
      rcases Watcher.mem_foldl_armedAfter hq' with ⟨p, hp, hk⟩ | ⟨hq', hd⟩
      · exact ⟨n, Nat.lt_succ_self n, hdown, ⟨p, hk, (tells_iff hcs).2 hp⟩, fun j h1 h2 => by omega⟩
      · obtain ⟨i, hi, hdi, harm, hno⟩ := ih hdown hq'
        refine ⟨i, hi.trans (Nat.lt_succ_self n), hdi, harm, fun j h1 h2 d hdj => ?_⟩
        rcases Nat.lt_succ_iff_lt_or_eq.1 h2 with h2 | rfl
        · exact hno j h1 h2 d hdj
        · exact hd d ((tells_iff hcs).1 hdj)

theorem armed_of_lingers {k : Path.Key} (h : Lingers (World.start policy) moves n k) :
    ∃ q ∈ ((World.start policy).trace moves n).watcher.armed, q.key = k := by
  induction n with
  | zero =>
    obtain ⟨i, hi, -⟩ := h
    cases hi
  | succ n ih =>
    obtain ⟨i, hi, hdown, ⟨p, hp, harm⟩, hno⟩ := h
    obtain ⟨cs, hcs, hone⟩ := told_move (reachable_trace policy moves n).wf (moves n)
    have harmed : ((World.start policy).trace moves (n + 1)).watcher.armed =
        cs.foldl Watcher.armedAfter ((World.start policy).trace moves n).watcher.armed := armed_move hcs
    rw [harmed]
    rcases Nat.lt_succ_iff_lt_or_eq.1 hi with hi | rfl
    · refine Watcher.armed_foldl (ih ⟨i, hi, hdown, ⟨p, hp, harm⟩, fun j h1 h2 => hno j h1 (h2.trans (Nat.lt_succ_self n))⟩)
        fun d hd => hno n hi (Nat.lt_succ_self n) d ((tells_iff hcs).2 hd)
    · rw [hone p ((tells_iff hcs).1 harm), ← hp]
      exact Watcher.armed_arm _ p

/-- whatever is forgotten stays so, as long as no call to watch slips in -/
theorem blank_trace {n l : Nat} (hnl : n < l) (hdown : ((World.start policy).trace moves n).isShutDown = true)
    (hslip : ∀ l, n < l → ¬ Slips ((World.start policy).trace moves l) (moves l))
    (hv : ∀ k, ((World.start policy).trace moves (n + 1)).places.roster? k = none)
    (harmed : ((World.start policy).trace moves (n + 1)).watcher.armed = []) :
    (∀ k, ((World.start policy).trace moves l).places.roster? k = none) ∧
      ((World.start policy).trace moves l).watcher.armed = [] := by
  induction l, hnl using Nat.le_induction with
  | base => exact ⟨hv, harmed⟩
  | succ l hl ih =>
    exact blank_move (reachable_trace policy moves l).wf (isShutDown_trace (Nat.le_of_succ_le hl) hdown) (hslip l hl) ih.1
      ih.2

theorem Returns.isShutDown (h : Returns ((World.start policy).trace moves n) (moves n)) :
    ((World.start policy).trace moves n).isShutDown = true := by
  obtain ⟨id, t, -, hs, -, ha, -⟩ := h
  exact shutting_trace policy moves n id t.phase (phase?_of_served hs) ha

/-- **Shutting down is final exactly if no call to watch slips in** after a return, and whatever the watcher has been armed
for after shutting down began, it has been disarmed for before the return. -/
theorem final_iff :
    (∀ n, Returns ((World.start policy).trace moves n) (moves n) → ∀ l, n < l → ((World.start policy).trace moves l).Final) ↔
      ∀ n, Returns ((World.start policy).trace moves n) (moves n) →
        (∀ l, n < l → ¬ Slips ((World.start policy).trace moves l) (moves l)) ∧
          ∀ i, i < n → ((World.start policy).trace moves i).isShutDown = true → ∀ p,
            Tells ((World.start policy).trace moves i) (moves i) (.arm p) →
            ∃ j, i < j ∧ j < n ∧ ∃ q, q.key = p.key ∧ Tells ((World.start policy).trace moves j) (moves j) (.disarm q) := by
  constructor
  · intro hall n hret
    obtain ⟨-, hcalls⟩ := returns_move (reachable_trace policy moves n).wf hret
    have harmed : ((World.start policy).trace moves n).watcher.armed = [] := by
      rw [← (hall n hret (n + 1) (Nat.lt_succ_self n)).disarmed, Watcher.armed, Watcher.armed]
      exact congrArg _ hcalls.symm
    refine ⟨fun l hl hslip => ?_, fun i hi hdown p hp => ?_⟩
    · obtain ⟨p, hp⟩ := hslip.tracked (reachable_trace policy moves l).wf
      have hno := (hall n hret (l + 1) (hl.trans (Nat.lt_succ_self l))).untracked p
      rw [show ((World.start policy).trace moves (l + 1)).isTracked p = true from hp] at hno
      cases hno
    · by_contra hnever
      have hlingers : Lingers (World.start policy) moves n p.key :=
        ⟨i, hi, hdown, ⟨p, rfl, hp⟩, fun j h1 h2 q hq hk => hnever ⟨j, h1, h2, q, hk, hq⟩⟩
      obtain ⟨q, hq, -⟩ := armed_of_lingers hlingers
      rw [harmed] at hq
      cases hq
  · intro hcond n hret l hl
    obtain ⟨hslip, hdisarm⟩ := hcond n hret
    have hdown := hret.isShutDown
    obtain ⟨hnone, hcalls⟩ := returns_move (reachable_trace policy moves n).wf hret
    have harmed : ((World.start policy).trace moves (n + 1)).watcher.armed = [] := by
      rw [List.eq_nil_iff_forall_not_mem]
      intro q hq
      have hq' : q ∈ ((World.start policy).trace moves n).watcher.armed := by
        rw [Watcher.armed, ← hcalls]
        exact hq
      obtain ⟨i, hi, hdi, ⟨p, hp, harm⟩, hno⟩ := lingers_of_armed hdown hq'
      obtain ⟨j, h1, h2, d, hd, htell⟩ := hdisarm i hi hdi p harm
      exact hno j h1 h2 d htell (hd.trans hp)
    obtain ⟨hblank, hl'⟩ := blank_trace hl hdown hslip hnone harmed
    refine ⟨fun p => ?_, hl', fun id t r hs hc hp hr => ?_⟩
    · rw [World.isTracked, Table.contains_eq_false_iff]
      simpa [World.places] using hblank p.key
    · exact refused_serve (reachable_trace policy moves l).wf (isShutDown_trace hl.le hdown) hs hc hp hr

/-! ## A run in which a call to watch slips in -/

/-- Of two calls to watch for one subscriber the first is cancelled while the engine waits for it to shut down. -/
def slipping : List Move :=
  let p : Path := ⟨"/a"⟩
  [.newSubscriber, .putFile p ⟨#[49]⟩, .hold .stat p, .call (.watch p ⟨1⟩), .turn 1, .turn 1, .turn 1,
    .call (.watch p ⟨1⟩), .turn 2, .turn 2, .turn 2, .call .shutDown, .turn 3, .turn 3, .turn 3, .turn 3, .cancel 1,
    .turn 1, .turn 3, .turn 3, .turn 2, .turn 2]

/-- a task ends shutting the engine down -/
def World.shuts (w : World) (id : TaskId) : Bool :=
  (w.served? id).any (fun t => !t.cancelled && t.phase.activity.closes) && !(serve w id).tasks.isLive id

theorem returns_of_shuts (h : w.shuts id = true) : Returns w (.turn id) := by
  simp only [World.shuts, Bool.and_eq_true, Bool.not_eq_true'] at h
  obtain ⟨t, hs, ht⟩ := (Option.any_eq_true _ _).1 h.1
  simp only [Bool.and_eq_true, Bool.not_eq_true'] at ht
  exact ⟨id, t, rfl, hs, ht.1, ht.2, Tasks.phase?_eq_none_iff.2 (Table.contains_eq_false_iff.1 h.2)⟩

/-- Shutting down has returned when the second call takes a place: the path is tracked again, and the watcher armed. -/
theorem late_watch_outlives_shutdown :
    Returns ((World.start .allow).trace (along slipping) 19) (along slipping 19) ∧
      ((World.start .allow).trace (along slipping) 22).isTracked ⟨"/a"⟩ = true ∧
      ((World.start .allow).trace (along slipping) 22).watcher.armed = [⟨"/a"⟩] ∧
      ¬ ((World.start .allow).trace (along slipping) 22).Final := by
  have h : (((World.start .allow).trace (along slipping) 19).shuts 3 &&
      ((World.start .allow).trace (along slipping) 22).isTracked ⟨"/a"⟩ &&
      decide (((World.start .allow).trace (along slipping) 22).watcher.armed = [⟨"/a"⟩])) = true := by decide +kernel
  simp only [Bool.and_eq_true, decide_eq_true_eq] at h
  refine ⟨returns_of_shuts h.1.1, h.1.2, h.2, fun hf => ?_⟩
  rw [hf.disarmed] at h
  cases h.2

end LiveFiles.Engine
