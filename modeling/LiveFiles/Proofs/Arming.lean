/-
The watcher is armed as subscribers come and go. The first place that is taken at a path comes with an attempt to arm the
watcher, which may be refused; with the last one the watcher is disarmed if it was armed.
- `Watcher.armed_iff`: the watcher is armed for a path if the last thing that it has been told of the path is to arm.
- `Shift.reports`: of a path a section tells the watcher what changes in the entry, and so nothing that it has been told last
  (`Alternates.next`).
- `armed_of_first`: the first place arms the watcher exactly if that is not refused, and until the last one is given back
  nothing changes (`Shift.flag`).
- **`arming_trace`**: in every run without shutting down the watcher is told to arm and to disarm by turns, it is armed as
  the entries say, only where somebody counts, and wherever somebody does unless it has refused when the first one came
  (`ArmedByTurns`).
-/
import LiveFiles.Proofs.Finality

namespace LiveFiles.Engine

/-! ## What the watcher has been told of a path -/

namespace WatcherCall

def path : WatcherCall → Path
  | .arm p => p
  | .disarm p => p

/-- the call is to arm -/
def arms : WatcherCall → Bool
  | .arm _ => true
  | .disarm _ => false

end WatcherCall

/-- what calls have told the watcher of a path, in order: to arm, or to disarm -/
def told (cs : List WatcherCall) (k : Path.Key) : List Bool := (cs.filter fun c => c.path.key = k).map WatcherCall.arms

section

variable {cs : List WatcherCall} {c : WatcherCall} {k : Path.Key} {b : Bool}

theorem told_append (cs cs' : List WatcherCall) (k : Path.Key) : told (cs ++ cs') k = told cs k ++ told cs' k := by
  simp [told]

theorem told_single (c : WatcherCall) (k : Path.Key) : told [c] k = if c.path.key = k then [c.arms] else [] := by
  simp only [told, List.filter_cons, List.filter_nil, decide_eq_true_eq]
  split <;> rfl

/-- what is armed after one more call -/
theorem exists_armedAfter (A : List Path) (c : WatcherCall) :
    (∃ q ∈ Watcher.armedAfter A c, q.key = k) ↔ if c.path.key = k then c.arms = true else ∃ q ∈ A, q.key = k := by
  cases c with
  | arm p =>
    split
    · rename_i hk
      exact iff_of_true (hk ▸ Watcher.armed_arm A p) rfl
    · rename_i hk
      simp only [Watcher.armedAfter]
      split
      · rfl
      · constructor
        · rintro ⟨q, hq, hqk⟩
          rcases List.mem_append.1 hq with hq | hq
          · exact ⟨q, hq, hqk⟩
          · cases List.mem_singleton.1 hq
            exact absurd hqk hk
        · rintro ⟨q, hq, hqk⟩
          exact ⟨q, List.mem_append_left _ hq, hqk⟩
  | disarm p =>
    simp only [Watcher.armedAfter, List.mem_filter, Bool.not_eq_true', Bool.eq_false_iff, ne_eq, Watcher.same_iff]
    split
    · rename_i hk
      refine iff_of_false ?_ (by simp [WatcherCall.arms])
      rintro ⟨q, ⟨-, hne⟩, hqk⟩
      exact hne (hqk.trans hk.symm)
    · rename_i hk
      constructor
      · rintro ⟨q, ⟨hq, -⟩, hqk⟩
        exact ⟨q, hq, hqk⟩
      · rintro ⟨q, hq, hqk⟩
        exact ⟨q, ⟨hq, fun e => hk (e.symm.trans hqk)⟩, hqk⟩

/-- **The watcher is armed for a path if the last thing that it has been told of it is to arm.** -/
theorem Watcher.armed_iff (cs : List WatcherCall) (k : Path.Key) :
    (∃ q ∈ cs.foldl Watcher.armedAfter [], q.key = k) ↔ (told cs k).getLastD false = true := by
  induction cs using List.reverseRecOn with
  | nil => simp [told]
  | append_singleton cs c ih =>
    rw [List.foldl_append, List.foldl_cons, List.foldl_nil, exists_armedAfter, told_append, told_single]
    split
    · rw [List.getLastD_concat]
    · rw [List.append_nil]
      exact ih

/-- one thing more is told after a list in which each is told by turns -/
theorem isChain_told {l : List Bool} (h : List.IsChain (· ≠ ·) (false :: l)) (hb : l.getLastD false ≠ b) :
    List.IsChain (· ≠ ·) (false :: (l ++ [b])) := by
  rw [← List.cons_append, List.isChain_append]
  refine ⟨h, List.isChain_singleton b, fun x hx y hy => ?_⟩
  rw [List.getLast?_cons, Option.mem_some_iff] at hx
  cases hy
  rw [List.getLastD_eq_getLast?, hx] at hb
  exact hb

end

/-! ## What a section tells the watcher -/

namespace Places

/-- the entry of a path says that the watcher is armed -/
def flag (v : Places) (k : Path.Key) : Bool := ((v.roster? k).map Roster.armed).getD false

/-- Of a path the watcher is told to arm and to disarm by turns, and the last of it is what the entry says. -/
structure Alternates (v : Places) (k : Path.Key) : Prop where
  chain : List.IsChain (· ≠ ·) (false :: told v.calls k)
  last : (told v.calls k).getLastD false = v.flag k

variable {v : Places} {k : Path.Key} {r : Roster}

theorem flag_of_roster (hr : v.roster? k = some r) : v.flag k = r.armed := by rw [flag, hr]; rfl

theorem flag_of_none (hr : v.roster? k = none) : v.flag k = false := by rw [flag, hr]; rfl

theorem flag_put (v : Places) (k k' : Path.Key) (r : Option Roster) :
    (v.put k r).flag k' = if k' = k then (r.map Roster.armed).getD false else v.flag k' := by
  simp only [flag, roster?_put]
  split <;> rfl

/-- of a path the watcher is told what changes in the entry -/
def Reports (v v' : Places) (k : Path.Key) : Prop :=
  told v'.calls k = told v.calls k ++ if v'.flag k = v.flag k then [] else [v'.flag k]

theorem Reports.refl (v : Places) (k : Path.Key) : v.Reports v k := by
  rw [Reports, if_pos rfl, List.append_nil]

/-- an entry changes, but not what it says of the watcher -/
theorem reports_put {k₀ : Path.Key} {r : Option Roster} (hr : (r.map Roster.armed).getD false = v.flag k₀) :
    v.Reports (v.put k₀ r) k := by
  have hflag : (v.put k₀ r).flag k = v.flag k := by
    rw [flag_put]
    split
    · rename_i hk
      rw [hr, hk]
    · rfl
  rw [Reports, if_pos hflag, List.append_nil]
  rfl

/-- the watcher is told something new of a path, and the entry says so -/
theorem reports_tell {c : WatcherCall} {r : Roster} (hold : v.flag c.path.key ≠ c.arms) (hr : r.armed = c.arms) :
    v.Reports ((v.put c.path.key (some r)).tell [c]) k := by
  have hcalls : ((v.put c.path.key (some r)).tell [c]).calls = v.calls ++ [c] := rfl
  have hflag : ((v.put c.path.key (some r)).tell [c]).flag k = if k = c.path.key then c.arms else v.flag k := by
    rw [← hr]
    exact flag_put v c.path.key k (some r)
  rw [Reports, hcalls, told_append, told_single, hflag]
  by_cases hk : c.path.key = k
  · subst hk
    rw [if_pos rfl, if_pos rfl, if_neg hold.symm]
  · rw [if_neg hk, if_neg (Ne.symm hk), if_pos rfl]

/-- a path of which the watcher is told what changes is told to arm and to disarm by turns -/
theorem Alternates.next {v' : Places} (h : v.Alternates k) (hr : v.Reports v' k) : v'.Alternates k := by
  by_cases hflag : v'.flag k = v.flag k
  · rw [Reports, if_pos hflag, List.append_nil] at hr
    constructor
    · rw [hr]
      exact h.chain
    · rw [hr, hflag]
      exact h.last
  · rw [Reports, if_neg hflag] at hr
    constructor
    · rw [hr]
      apply isChain_told h.chain
      rw [h.last]
      exact Ne.symm hflag
    · rw [hr, List.getLastD_concat]

end Places

variable {v v' : Places} {a : Activity} {next : Option Activity} {k : Path.Key}

/-- **A section tells the watcher of a path what changes in the entry**, if it does not shut the engine down. -/
theorem Shift.reports (h : Shift v a v' next) (ha : a ≠ .starting .shutDown) (hc : a.closes = false) (hv : v.Watched)
    (k : Path.Key) : v.Reports v' k := by
  cases h with
  | steady _ hv' => exact hv' ▸ .refl v k
  | lost _ _ _ hv' => exact hv' ▸ .refl v k
  | spared _ _ _ hv' => exact hv' ▸ .refl v k
  | drop k₀ r _ hr hz hv' =>
    rw [hv']
    apply Places.reports_put
    rw [Places.flag_of_roster hr, hv.vacant k₀ r hr hz]
    rfl
  | take p r armed _ hr hv' =>
    have hflag : v.flag p.key = r.armed := by
      rcases hr with hr | ⟨hr, rfl⟩
      · exact Places.flag_of_roster hr
      · exact Places.flag_of_none hr
    rcases hv' with ⟨-, rfl⟩ | ⟨-, hno, -, rfl⟩
    · exact Places.reports_put hflag.symm
    · refine Places.reports_tell (c := .arm p) ?_ rfl
      rw [show (WatcherCall.arm p).path = p from rfl, hflag, hno]
      exact Bool.false_ne_true
  | register seat r x _ hr hv' =>
    rw [hv']
    exact Places.reports_put (Places.flag_of_roster hr).symm
  | release p r registered hr _ _ hv' =>
    rw [hv']
    exact Places.reports_put (Places.flag_of_roster hr).symm
  | releaseLast p r registered hr _ _ hv' =>
    rw [hv']
    split
    · rename_i harmed
      refine Places.reports_tell (c := .disarm p) ?_ rfl
      rw [show (WatcherCall.disarm p).path = p from rfl, Places.flag_of_roster hr, harmed]
      exact Bool.false_ne_true.symm
    · rename_i hno
      rw [Places.tell_nil]
      apply Places.reports_put
      rw [Places.flag_of_roster hr, Bool.eq_false_iff.2 hno]
      rfl
  | shutDown _ h₀ => exact absurd h₀ ha
  | forget h₀ => cases hc.symm.trans h₀

/-- **What the entry of a path says of the watcher stays as long as somebody counts there.** -/
theorem Shift.flag (h : Shift v a v' next) (ha : a ≠ .starting .shutDown) (hc : a.closes = false)
    (hpos : 0 < v.count k) (hpos' : 0 < v'.count k) : v'.flag k = v.flag k := by
  have hput : ∀ k₀ r, r.armed = v.flag k₀ → (v.put k₀ (some r)).flag k = v.flag k := fun k₀ r hr => by
    rw [Places.flag_put]
    split
    · rename_i hk
      rw [hk, ← hr]
      rfl
    · rfl
  cases h with
  | steady _ hv' => rw [hv']
  | lost _ _ _ hv' => rw [hv']
  | spared _ _ _ hv' => rw [hv']
  | drop k₀ r _ hr hz hv' =>
    rw [hv', Places.flag_put]
    split
    · rename_i hk
      rw [Places.count, hk, hr, Option.map_some, Option.getD_some] at hpos
      omega
    · rfl
  | take p r armed _ hr hv' =>
    have hflag : v.flag p.key = r.armed := by
      rcases hr with hr | ⟨hr, rfl⟩
      · exact Places.flag_of_roster hr
      · exact Places.flag_of_none hr
    rcases hv' with ⟨-, rfl⟩ | ⟨hz, -, -, rfl⟩
    · exact hput p.key _ hflag.symm
    · refine (Places.flag_put v p.key k _).trans ?_
      split
      · rename_i hk
        rcases hr with hr | ⟨hr, rfl⟩ <;> rw [Places.count, hk, hr] at hpos
        · exact absurd hz hpos.ne'
        · exact absurd hpos (Nat.lt_irrefl 0)
      · rfl
  | register seat r x _ hr hv' =>
    rw [hv']
    exact hput _ _ (Places.flag_of_roster hr).symm
  | release p r registered hr _ _ hv' =>
    rw [hv']
    exact hput _ _ (Places.flag_of_roster hr).symm
  | releaseLast p r registered hr _ _ hv' =>
    rw [hv'] at hpos' ⊢
    refine (Places.flag_put v p.key k _).trans ?_
    split
    · rename_i hk
      have hcount : ((v.put p.key (some { r with registered, count := 0, armed := false })).tell
          (if r.armed then [.disarm p] else [])).count k = 0 := by
        rw [Places.count, Places.tell, Places.roster?_put, if_pos hk]
        rfl
      omega
    · rfl
  | shutDown _ h₀ => exact absurd h₀ ha
  | forget h₀ => cases hc.symm.trans h₀

/-! ## The first place -/

variable {w : World} {m : Move} {id : TaskId} {t : Task Phase} {p : Path}

theorem armed_armEntry {e : Entry} (hno : e.armed = false) : (w.armEntry p e).2.armed = !w.watcher.refuses p := by
  rw [World.armEntry, if_neg (by rw [hno]; exact Bool.false_ne_true)]

theorem armed_beginQuery (w : World) (e : Entry) : (w.beginQuery e).2.1.armed = e.armed := by
  obtain ⟨signal, signals, hq, -⟩ := beginQuery_eq w e
  rw [hq]

theorem count_setEntry (w : World) (p : Path) (e : Entry) : (w.setEntry p e).places.count p.key = e.count := by
  rw [places_setEntry, Places.count, Places.roster?_put, if_pos rfl]
  rfl

theorem flag_setEntry (w : World) (p : Path) (e : Entry) : (w.setEntry p e).places.flag p.key = e.armed := by
  rw [places_setEntry, Places.flag_put, if_pos rfl]
  rfl

/-- **The first place arms the watcher unless that is refused.** -/
theorem flag_takePlace (w : World) (seat : Seat) {e : Entry} (hz : e.count = 0) (hno : e.armed = false) :
    (w.takePlace seat e).1.places.flag seat.path.key = !w.watcher.refuses seat.path := by
  have hfirst : ¬ e.count + 1 > 1 := by omega
  simp only [World.takePlace, if_neg hfirst]
  refine (flag_setEntry _ seat.path _).trans ?_
  rw [armed_beginQuery]
  exact armed_armEntry hno

theorem Places.count_of_entry {e : Entry} (he : w.entry? p = some e) : w.places.count p.key = e.count := by
  rw [Places.count, roster?_of_present he]
  rfl

theorem Places.count_eq (w : World) (p : Path) : w.places.count p.key = w.subscriberCount p := by
  cases he : w.entry? p with
  | none => rw [Places.count, roster?_of_absent he, World.subscriberCount, he]; rfl
  | some e => rw [Places.count_of_entry he, World.subscriberCount, he]; rfl

/-- somebody counts where nobody did only after a call to watch has looked for a place -/
theorem Shift.first (h : Shift v a v' next) (ha : a ≠ .starting .shutDown) (hc : a.closes = false) (hz : v.count k = 0)
    (hpos : 0 < v'.count k) : ∃ p id joined other, a = .joining p id joined other ∧ p.key = k := by
  -- whatever is put elsewhere does not count here, and nothing that is put here counts more but a place that is taken
  have hput : ∀ k₀ r, v.roster? k₀ = some r → ∀ r' : Roster, r'.count ≤ r.count → (v.put k₀ (some r')).count k = 0 :=
    fun k₀ r hr r' hle => by
      simp only [Places.count, Places.roster?_put] at hz ⊢
      split
      · rename_i hk
        rw [hk, hr] at hz
        exact Nat.le_zero.1 (hz ▸ hle)
      · exact hz
  have hsame : v'.count k ≠ 0 := hpos.ne'
  cases h with
  | steady _ hv' => exact absurd (hv' ▸ hz) hsame
  | lost _ _ _ hv' => exact absurd (hv' ▸ hz) hsame
  | spared _ _ _ hv' => exact absurd (hv' ▸ hz) hsame
  | drop k₀ r _ hr hz₀ hv' =>
    refine absurd ?_ hsame
    rw [hv', Places.count, Places.roster?_put]
    split
    · rfl
    · exact hz
  | take p r armed h₀ hr hv' =>
    obtain ⟨id, joined, other, rfl⟩ := h₀
    refine ⟨p, id, joined, other, rfl, ?_⟩
    by_contra hne
    refine hsame ?_
    rcases hv' with ⟨-, rfl⟩ | ⟨-, -, -, rfl⟩
    · rw [Places.count, Places.roster?_put, if_neg (Ne.symm hne)]
      exact hz
    · rw [Places.count, Places.tell, Places.roster?_put, if_neg (Ne.symm hne)]
      exact hz
  | register seat r x _ hr hv' =>
    refine absurd (hv' ▸ hput _ r hr _ ?_) hsame
    dsimp only
    split <;> omega
  | release p r registered hr _ _ hv' => exact absurd (hv' ▸ hput _ r hr _ (Nat.sub_le _ _)) hsame
  | releaseLast p r registered hr _ _ hv' => exact absurd (hv' ▸ hput _ r hr _ (Nat.zero_le _)) hsame
  | shutDown _ h₀ => exact absurd h₀ ha
  | forget h₀ => cases hc.symm.trans h₀

/-- where nobody has counted, a call to watch that makes somebody count has taken the first place -/
theorem flag_stepJoining {q : Path} {x : SubscriberId} {joined : SignalId} {other : Option SignalId}
    (hv : w.places.Watched) (hz : w.places.count q.key = 0) (hpos : 0 < (w.stepJoining q x joined other).1.places.count q.key) :
    (w.stepJoining q x joined other).1.places.flag q.key = !w.watcher.refuses q := by
  have hfirst : ((w.entry? q).getD { spelling := q }).count = 0 ∧ ((w.entry? q).getD { spelling := q }).armed = false := by
    cases he : w.entry? q with
    | none => exact ⟨rfl, rfl⟩
    | some e =>
      rw [Places.count_of_entry he] at hz
      exact ⟨hz, hv.vacant q.key e.roster (roster?_of_present he) hz⟩
  unfold World.stepJoining at hpos ⊢
  split at hpos
  · exact absurd hz hpos.ne'
  · rename_i hno
    rw [if_neg hno]
    dsimp only at hpos ⊢
    generalize (w.entry? q).getD { spelling := q } = e at *
    split at hpos
    · exact absurd hz hpos.ne'
    · rename_i hreg
      rw [if_neg hreg]
      split at hpos
      · rw [count_setEntry] at hpos
        omega
      · exact flag_takePlace w ⟨q, x, joined⟩ hfirst.1 hfirst.2

/-! ## Along a run -/

/-- **In a move the watcher is told of a path what changes in the entry.** -/
theorem reports_move (hw : Wf w) (hm : Continues w m) (hv : w.places.Watched) (k : Path.Key) :
    w.places.Reports (w.move m).places k := by
  rcases section_or_not w m with ⟨id, t, rfl, hs, hc⟩ | hno
  · obtain ⟨ha, hcl⟩ := hm id t rfl hs hc
    exact (shift_serve hw hs hc).reports ha hcl hv k
  · rw [(unmoved_of_no_section hno).places]
    exact .refl _ k

theorem flag_move (hw : Wf w) (hm : Continues w m) (hpos : 0 < w.places.count k) (hpos' : 0 < (w.move m).places.count k) :
    (w.move m).places.flag k = w.places.flag k := by
  rcases section_or_not w m with ⟨id, t, rfl, hs, hc⟩ | hno
  · obtain ⟨ha, hcl⟩ := hm id t rfl hs hc
    exact (shift_serve hw hs hc).flag ha hcl hpos hpos'
  · rw [(unmoved_of_no_section hno).places]

/-- **The first place at a path arms the watcher exactly if that is not refused.** -/
theorem armed_of_first (hw : Wf w) (hm : Continues w m) (hv : w.places.Watched) (hz : w.places.count p.key = 0)
    (hpos : 0 < (w.move m).places.count p.key) : (w.move m).places.flag p.key = !w.watcher.refuses p := by
  rcases section_or_not w m with ⟨id, t, rfl, hs, hc⟩ | hno
  · obtain ⟨ha, hcl⟩ := hm id t rfl hs hc
    obtain ⟨q, x, joined, other, hjoin, hkey⟩ := (shift_serve hw hs hc).first ha hcl hz hpos
    have hstep : (serve w id).places = ((floorTo w id).stepJoining q x joined other).1.places := by
      rw [serve_of_section hs hc]
      have hadv := (steady_advance (P := fun _ => True) (floorTo w id) id t.phase).places
      rw [hjoin] at hadv
      exact hadv
    change 0 < (serve w id).places.count p.key at hpos
    change (serve w id).places.flag p.key = _
    have hrefuses : (floorTo w id).watcher.refuses q = w.watcher.refuses p := by
      have hwatch : (floorTo w id).watcher = w.watcher := by
        unfold floorTo
        split <;> rfl
      rw [hwatch, Watcher.refuses, Watcher.refuses, hkey]
    rw [hstep] at hpos ⊢
    rw [← hkey] at hz hpos ⊢
    rw [← hrefuses]
    exact flag_stepJoining (places_floorTo w id ▸ hv) (places_floorTo w id ▸ hz) hpos
  · rw [(unmoved_of_no_section hno).places] at hpos
    omega

variable {policy : WritePolicy} {moves : Nat → Move}

/-- nobody shuts the engine down unless called to -/
theorem running_trace (h : ∀ n, moves n ≠ .call .shutDown) (n : Nat) :
    ((World.start policy).trace moves n).isShutDown = false := by
  induction n with
  | zero => rfl
  | succ n ih =>
    rcases section_or_not ((World.start policy).trace moves n) (moves n) with ⟨id, t, hm, hs, hc⟩ | hno
    · have hgo := (going_serve hs hc (continues_trace h n id t hm hs hc).1).1
      rw [World.trace, hm]
      exact hgo.trans ih
    · exact (unmoved_of_no_section hno).isShutDown.trans ih

theorem alternates_trace (h : ∀ n, moves n ≠ .call .shutDown) (n : Nat) (k : Path.Key) :
    ((World.start policy).trace moves n).places.Alternates k := by
  induction n with
  | zero => exact ⟨List.isChain_singleton _, rfl⟩
  | succ n ih =>
    exact ih.next (reports_move (reachable_trace policy moves n).wf (continues_trace h n)
      (watched_trace (running_trace h n)).2 k)

/-- Somebody counts at the path, and has since the move `l`, in which the first place has been taken there. -/
structure CountedSince (w : World) (moves : Nat → Move) (p : Path) (l n : Nat) : Prop where
  lt : l < n
  none : (w.trace moves l).subscriberCount p = 0
  some : ∀ j, l < j → j ≤ n → 0 < (w.trace moves j).subscriberCount p

/-- what the entry says of the watcher was settled when the first place was taken -/
theorem flag_trace (h : ∀ n, moves n ≠ .call .shutDown) {n : Nat} {p : Path}
    (hpos : 0 < ((World.start policy).trace moves n).subscriberCount p) :
    ∃ l, CountedSince (World.start policy) moves p l n ∧
      ((World.start policy).trace moves n).places.flag p.key = !((World.start policy).trace moves l).watcher.refuses p := by
  induction n with
  | zero => cases hpos
  | succ n ih =>
    have hw := (reachable_trace policy moves n).wf
    have hcont : Continues ((World.start policy).trace moves n) (moves n) := continues_trace h n
    have hpos' := hpos
    rw [← Places.count_eq] at hpos'
    by_cases hz : ((World.start policy).trace moves n).subscriberCount p = 0
    · have hz' := hz
      rw [← Places.count_eq] at hz'
      refine ⟨n, ⟨Nat.lt_succ_self n, hz, fun j hj hj' => ?_⟩, ?_⟩
      · rwa [show j = n + 1 by omega]
      · exact armed_of_first hw hcont (watched_trace (running_trace h n)).2 hz' hpos'
    · have hbefore := Nat.pos_of_ne_zero hz
      obtain ⟨l, hl, hflag⟩ := ih hbefore
      rw [← Places.count_eq] at hbefore
      refine ⟨l, ⟨by have := hl.lt; omega, hl.none, fun j hj hj' => ?_⟩, ?_⟩
      · rcases Nat.lt_or_eq_of_le hj' with hlt | rfl
        · exact hl.some j hj (by omega)
        · exact hpos
      · rw [← hflag]
        exact flag_move hw hcont hbefore hpos'

/-- What the watcher is told, and for what it is armed, in a run. -/
structure ArmedByTurns (w : World) (moves : Nat → Move) : Prop where
  /-- of each path the watcher is told to arm and to disarm by turns, and to arm first -/
  alternate : ∀ n (p : Path), List.IsChain (· ≠ ·) (false :: told (w.trace moves n).watcher.calls p.key)
  /-- it is armed as the entries say -/
  agrees : ∀ n (p : Path), (∃ q ∈ (w.trace moves n).watcher.armed, q.key = p.key) ↔
    ∃ e, World.entry? (w.trace moves n) p = some e ∧ e.armed = true
  /-- where it is armed somebody counts -/
  counted : ∀ n (p : Path), (∃ q ∈ (w.trace moves n).watcher.armed, q.key = p.key) → 0 < (w.trace moves n).subscriberCount p
  /-- where somebody counts it is armed, unless it has refused when the first place was taken -/
  latest : ∀ n (p : Path), 0 < (w.trace moves n).subscriberCount p → ∃ l, CountedSince w moves p l n ∧
    ((∃ q ∈ (w.trace moves n).watcher.armed, q.key = p.key) ↔ (w.trace moves l).watcher.refuses p = false)

/-- **In every run without shutting down the watcher is armed as subscribers come and go.** -/
theorem arming_trace (h : ∀ n, moves n ≠ .call .shutDown) : ArmedByTurns (World.start policy) moves := by
  have harmed : ∀ n (p : Path), (∃ q ∈ ((World.start policy).trace moves n).watcher.armed, q.key = p.key) ↔
      ((World.start policy).trace moves n).places.flag p.key = true := fun n p => by
    rw [← (alternates_trace h n p.key).last]
    exact Watcher.armed_iff _ p.key
  have hflag : ∀ n (p : Path), ((World.start policy).trace moves n).places.flag p.key = true ↔
      ∃ e, World.entry? ((World.start policy).trace moves n) p = some e ∧ e.armed = true := fun n p => by
    cases he : World.entry? ((World.start policy).trace moves n) p with
    | none =>
      rw [Places.flag_of_none (roster?_of_absent he)]
      simp
    | some e =>
      rw [Places.flag_of_roster (roster?_of_present he)]
      simp [Entry.roster]
  refine ⟨fun n p => (alternates_trace h n p.key).chain, fun n p => (harmed n p).trans (hflag n p), fun n p hp => ?_,
    fun n p hpos => ?_⟩
  · obtain ⟨e, he, htrue⟩ := (hflag n p).1 ((harmed n p).1 hp)
    rw [← Places.count_eq, Places.count_of_entry he]
    by_contra hz
    have hv : ((World.start policy).trace moves n).places.Watched := (watched_trace (running_trace h n)).2
    have hvacant := hv.vacant p.key e.roster (roster?_of_present he) (Nat.eq_zero_of_not_pos hz)
    cases htrue.symm.trans hvacant
  · obtain ⟨l, hl, hfirst⟩ := flag_trace h hpos
    refine ⟨l, hl, (harmed n p).trans ?_⟩
    rw [hfirst, Bool.not_eq_true']

/-! ## A run in which subscribers come back while the entry is torn down -/

/-- Behind a reconciliation that is held up the only subscriber leaves; another comes and is cancelled, and comes again
after the watcher has been told to refuse. -/
def comingBack : List Move :=
  let p : Path := ⟨"/a"⟩
  [Move.newSubscriber, .newSubscriber, .call (.watch p ⟨1⟩)] ++ List.replicate 5 (Move.turn 1) ++
    [Move.hold .stat p, .call (.reconcile p), .turn 3, .turn 3, .call (.unwatch p ⟨1⟩), .turn 4, .turn 4, .turn 4,
      .call (.watch p ⟨2⟩), .turn 5, .turn 5, .turn 5, .cancel 5, .turn 5, .turn 6, .turn 6, .turn 6, .refuseArming p,
      .call (.watch p ⟨2⟩), .turn 7, .turn 7]

/-- Twice the watcher has been armed and disarmed; for the third subscriber it is not armed. -/
theorem arming_trace_comingBack :
    (∀ n, along comingBack n ≠ .call .shutDown) ∧ ArmedByTurns (World.start .allow) (along comingBack) ∧
      told ((World.start .allow).trace (along comingBack) 29).watcher.calls (Path.key ⟨"/a"⟩) =
        [true, false, true, false] ∧
      ((World.start .allow).trace (along comingBack) 29).subscriberCount ⟨"/a"⟩ = 1 ∧
      ((World.start .allow).trace (along comingBack) 29).watcher.armed = [] ∧
      ((World.start .allow).trace (along comingBack) 28).watcher.refuses ⟨"/a"⟩ = true := by
  have hgoing : ∀ n, along comingBack n ≠ .call .shutDown := along_ne comingBack (by simp [comingBack]) (by simp)
  refine ⟨hgoing, arming_trace hgoing, ?_, ?_, ?_, ?_⟩ <;> decide +kernel

end LiveFiles.Engine
