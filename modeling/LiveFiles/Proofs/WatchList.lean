/-
The watch list. A configuration is made of settings that fit: the quiet period is within its bounds, no listed path is
empty, and no two name the same (`Fits`). What is said about settings that do not fit concerns the period if it is out of
bounds, and else the first entry of the list that is empty or repeats an earlier one (`Flaw`).
- `firstMisfit_spec`: one pass over the list, with what it has found when some of the entries are behind it.
- `targets_eq`: the paths to watch are those of the configuration, then the newcomers of the command line (`newcomers`), each
  where it comes for the first time.
- **`watch_list`**: so settings are taken over as they are if and only if they fit, the first thing that is wrong is named, and
  what is watched in the end names every path of both lists, each of them once.
-/
import LiveFiles.Config
import Mathlib.Data.List.Induction
import Mathlib.Data.List.Nodup

namespace LiveFiles

/-! ## What is wrong with a list -/

/-- no entry of a list is empty, and no two name the same -/
structure Fits (ps : List Path) : Prop where
  nonempty : ∀ p ∈ ps, p.text ≠ ""
  nodup : (ps.map Path.key).Nodup

/-- what is said about an entry that is empty, or that names the same as one of those before it -/
inductive Flaw (before : List Path) (p : Path) : String → Prop where
  | empty (h : p.text = "") : Flaw before p "[watch].paths must not contain empty entries"
  | repeated {q : Path} (h : p.text ≠ "") (hq : q ∈ before) (hs : q.same p) :
      Flaw before p s!"[watch].paths lists {p.quoted} more than once"

/-- what is said about settings that do not fit -/
inductive Refusal (s : Settings) : String → Prop where
  | debounce (h : s.debounceMs = 0 ∨ 60000 < s.debounceMs) :
      Refusal s s!"[watcher].debounce_ms must be within 1..=60000 (got {s.debounceMs})"
  | entry {before after : List Path} {p : Path} {text : String} (hle : 1 ≤ s.debounceMs) (hge : s.debounceMs ≤ 60000)
      (hpaths : s.paths = before ++ p :: after) (hfits : Fits before) (hflaw : Flaw before p text) : Refusal s text

variable {before after done ps : List Path} {p q : Path} {text : String} {s : Settings}

theorem Path.same_iff_key : p.same q = true ↔ p.key = q.key := by
  rw [Path.same, beq_iff_eq]

theorem Path.same_trans {r : Path} (hpq : p.same q = true) (hqr : q.same r = true) : p.same r = true :=
  Path.same_iff_key.2 ((Path.same_iff_key.1 hpq).trans (Path.same_iff_key.1 hqr))

theorem fits_nil : Fits [] := ⟨fun _ h => absurd h List.not_mem_nil, List.nodup_nil⟩

theorem nodup_keys_snoc (h : (ps.map Path.key).Nodup) (hnew : ∀ q ∈ ps, q.same p = false) :
    ((ps ++ [p]).map Path.key).Nodup := by
  rw [List.map_append, List.map_singleton, ← List.concat_eq_append]
  refine h.concat fun hp => ?_
  obtain ⟨q, hq, hkey⟩ := List.mem_map.1 hp
  exact Bool.eq_false_iff.1 (hnew q hq) (Path.same_iff_key.2 hkey)

theorem Fits.snoc (h : Fits done) (hne : p.text ≠ "") (hnew : ∀ q ∈ done, q.same p = false) :
    Fits (done ++ [p]) := by
  refine ⟨fun q hq => ?_, nodup_keys_snoc h.nodup hnew⟩
  rcases List.mem_append.1 hq with hq | hq
  · exact h.nonempty q hq
  · rwa [List.mem_singleton.1 hq]

theorem Flaw.not_fits (h : Flaw before p text) : ¬ Fits (before ++ p :: after) := by
  intro hfits
  cases h with
  | empty h => exact hfits.nonempty p (List.mem_append_right _ List.mem_cons_self) h
  | repeated _ hq hs =>
    have hnodup := hfits.nodup
    rw [List.map_append, List.map_cons, List.nodup_append] at hnodup
    exact hnodup.2.2 _ (List.mem_map_of_mem hq) _ List.mem_cons_self (Path.same_iff_key.1 hs)

/-- the pass over the rest of a list, when what is done has been found to fit -/
theorem firstMisfit_spec (ps : List Path) (hdone : Fits done) :
    match firstMisfit (done.map Path.key).reverse ps with
    | none => Fits (done ++ ps)
    | some m => ∃ before p after, done ++ ps = before ++ p :: after ∧ Fits before ∧ Flaw before p m.message := by
  induction ps generalizing done with
  | nil => simpa [firstMisfit] using hdone
  | cons p ps ih =>
    unfold firstMisfit
    by_cases hempty : p.text = ""
    · rw [if_pos (by rw [hempty]; rfl)]
      exact ⟨done, p, ps, rfl, hdone, .empty hempty⟩
    · rw [if_neg (by rwa [String.isEmpty_iff])]
      by_cases hseen : p.key ∈ (done.map Path.key).reverse
      · obtain ⟨q, hq, hkey⟩ := List.mem_map.1 (List.mem_reverse.1 hseen)
        rw [if_pos hseen]
        exact ⟨done, p, ps, rfl, hdone, .repeated hempty hq (Path.same_iff_key.2 hkey)⟩
      · have hnew : ∀ q ∈ done, q.same p = false := fun q hq => Bool.eq_false_iff.2 fun hs =>
          hseen (List.mem_reverse.2 (Path.same_iff_key.1 hs ▸ List.mem_map_of_mem hq))
        have hrest := ih (hdone.snoc hempty hnew)
        rw [List.map_append, List.reverse_append, List.append_assoc] at hrest
        rwa [if_neg hseen]

theorem check_eq_ok {c : Config} (h : s.check = .ok c) :
    1 ≤ s.debounceMs ∧ s.debounceMs ≤ 60000 ∧ Fits s.paths ∧ c = ⟨s.debounceMs, s.unwatchedWrites, s.paths⟩ := by
  have hspec := firstMisfit_spec s.paths fits_nil
  rw [Settings.check] at h
  split at h
  · cases h
  · rename_i hbounds
    rw [Bool.or_eq_true, decide_eq_true_eq, decide_eq_true_eq, maxDebounceMs] at hbounds
    split at h
    · cases h
    · rename_i hnone
      rw [List.map_nil, List.reverse_nil, hnone] at hspec
      cases h
      exact ⟨by omega, by omega, hspec, rfl⟩

theorem check_eq_error {m : Misfit} (h : s.check = .error m) : Refusal s m.message := by
  have hspec := firstMisfit_spec s.paths fits_nil
  rw [Settings.check] at h
  split at h
  · rename_i hbounds
    rw [Bool.or_eq_true, decide_eq_true_eq, decide_eq_true_eq] at hbounds
    cases h
    exact .debounce hbounds
  · rename_i hbounds
    rw [Bool.or_eq_true, decide_eq_true_eq, decide_eq_true_eq, maxDebounceMs] at hbounds
    split at h
    · rename_i m' hsome
      rw [List.map_nil, List.reverse_nil, hsome] at hspec
      obtain ⟨before, p, after, hpaths, hfits, hflaw⟩ := hspec
      cases h
      exact .entry (by omega) (by omega) hpaths hfits hflaw
    · cases h

/-- Settings that fit are not refused. -/
theorem Refusal.unfit (h : Refusal s text) : ¬ (1 ≤ s.debounceMs ∧ s.debounceMs ≤ 60000 ∧ Fits s.paths) := by
  rintro ⟨hle, hge, hfits⟩
  cases h with
  | debounce h => omega
  | entry _ _ hpaths _ hflaw => exact hflaw.not_fits (hpaths ▸ hfits)

/-! ## What is watched in the end -/

/-- the paths of a list that no known path and no path before them in the list names, in their order -/
def newcomers (known extra : List Path) : List Path :=
  (extra.zipIdx.filter fun e => !(known ++ extra.take e.2).any (·.same e.1)).map Prod.fst

variable {known extra : List Path}

theorem newcomers_snoc : newcomers known (extra ++ [p]) =
    newcomers known extra ++ if (known ++ extra).any (·.same p) then [] else [p] := by
  have hfront : (extra.zipIdx.filter fun e => !(known ++ (extra ++ [p]).take e.2).any (·.same e.1)) =
      extra.zipIdx.filter fun e => !(known ++ extra.take e.2).any (·.same e.1) := by
    refine List.filter_congr fun e he => ?_
    rw [List.take_append_of_le_length (Nat.le_of_lt (List.snd_lt_of_mem_zipIdx he))]
  rw [newcomers, newcomers, List.zipIdx_append, List.filter_append, List.map_append, hfront]
  congr 1
  rw [List.zipIdx_singleton, Nat.zero_add, List.filter_cons, List.take_left]
  cases (known ++ extra).any (·.same p) <;> rfl

/-- every path of both lists is named, by a path of the first list or by a newcomer -/
theorem covered (known : List Path) {extra : List Path} {p : Path} (h : p ∈ known ++ extra) :
    ∃ q ∈ known ++ newcomers known extra, q.same p := by
  induction extra using List.reverseRecOn generalizing p with
  | nil =>
    rw [List.append_nil] at h
    exact ⟨p, List.mem_append_left _ h, Path.same_iff_key.2 rfl⟩
  | append_singleton extra new ih =>
    rw [newcomers_snoc, ← List.append_assoc]
    rw [← List.append_assoc] at h
    rcases List.mem_append.1 h with h | h
    · obtain ⟨q, hq, hs⟩ := ih h
      exact ⟨q, List.mem_append_left _ hq, hs⟩
    · cases List.mem_singleton.1 h
      split
      · rename_i hany
        obtain ⟨r, hr, hrp⟩ := List.any_eq_true.1 hany
        obtain ⟨q, hq, hqr⟩ := ih hr
        exact ⟨q, List.mem_append_left _ hq, Path.same_trans hqr hrp⟩
      · exact ⟨new, List.mem_append_right _ List.mem_cons_self, Path.same_iff_key.2 rfl⟩

theorem any_newcomers : (known ++ newcomers known extra).any (·.same p) = (known ++ extra).any (·.same p) := by
  refine Bool.eq_iff_iff.2 ⟨fun h => ?_, fun h => ?_⟩
  · obtain ⟨q, hq, hs⟩ := List.any_eq_true.1 h
    refine List.any_eq_true.2 ⟨q, ?_, hs⟩
    rcases List.mem_append.1 hq with hq | hq
    · exact List.mem_append_left _ hq
    · obtain ⟨e, he, rfl⟩ := List.mem_map.1 hq
      exact List.mem_append_right _ (List.fst_mem_of_mem_zipIdx (List.mem_filter.1 he).1)
  · obtain ⟨r, hr, hrp⟩ := List.any_eq_true.1 h
    obtain ⟨q, hq, hqr⟩ := covered known hr
    exact List.any_eq_true.2 ⟨q, hq, Path.same_trans hqr hrp⟩

theorem targets_snoc (c : Config) : c.targets (extra ++ [p]) = Config.addTarget (c.targets extra) p := by
  rw [Config.targets, List.foldl_append]
  rfl

theorem targets_eq (c : Config) (extra : List Path) : c.targets extra = c.paths ++ newcomers c.paths extra := by
  induction extra using List.reverseRecOn with
  | nil => exact (List.append_nil _).symm
  | append_singleton extra p ih =>
    rw [targets_snoc, ih, Config.addTarget, any_newcomers, newcomers_snoc]
    split
    · rw [List.append_nil]
    · rw [List.append_assoc]

theorem nodup_targets {c : Config} (h : (c.paths.map Path.key).Nodup) (extra : List Path) :
    ((c.targets extra).map Path.key).Nodup := by
  induction extra using List.reverseRecOn with
  | nil => exact h
  | append_singleton extra p ih =>
    rw [targets_snoc, Config.addTarget]
    split
    · exact ih
    · rename_i hnone
      exact nodup_keys_snoc ih (by simpa using hnone)

/-- **What is checked and what is watched.** Settings are accepted if and only if their quiet period is within bounds and their
paths are neither empty nor given twice; they are refused for the period first, then for the first entry that does not fit.
Accepted ones are taken over unchanged. The paths to watch are then the configured ones as they are, followed by those of the
command line that are new, each where it comes first; no two of them name the same, and every path of both lists is named. -/
theorem watch_list (s : Settings) :
    ((∃ c, s.check = .ok c) ↔ 1 ≤ s.debounceMs ∧ s.debounceMs ≤ 60000 ∧ Fits s.paths) ∧
      (∀ m, s.check = .error m → Refusal s m.message) ∧
      ∀ c, s.check = .ok c → c = ⟨s.debounceMs, s.unwatchedWrites, s.paths⟩ ∧
        ∀ extra, c.targets extra = c.paths ++ newcomers c.paths extra ∧ ((c.targets extra).map Path.key).Nodup ∧
          ∀ p ∈ c.paths ++ extra, ∃ q ∈ c.targets extra, q.same p := by
  refine ⟨⟨fun ⟨c, h⟩ => ?_, fun h => ?_⟩, fun m h => check_eq_error h, fun c h => ?_⟩
  · obtain ⟨hle, hge, hfits, -⟩ := check_eq_ok h
    exact ⟨hle, hge, hfits⟩
  · cases hc : s.check with
    | ok c => exact ⟨c, rfl⟩
    | error m => exact absurd h (check_eq_error hc).unfit
  · obtain ⟨-, -, hfits, hc⟩ := check_eq_ok h
    refine ⟨hc, fun extra => ⟨targets_eq c extra, nodup_targets (by rw [hc]; exact hfits.nodup) extra, fun p hp => ?_⟩⟩
    rw [targets_eq]
    exact covered c.paths hp

/-- another spelling of a listed path is a repetition -/
example : (Settings.check { paths := [⟨"a/b"⟩, ⟨"c"⟩, ⟨"a//b/."⟩] }) = .error (.repeated ⟨"a//b/."⟩) := by decide

example : Config.targets ⟨200, .allow, [⟨"a/b"⟩]⟩ [⟨"c"⟩, ⟨"a//b/."⟩, ⟨"c/"⟩, ⟨"d"⟩] = [⟨"a/b"⟩, ⟨"c"⟩, ⟨"d"⟩] := by decide

end LiveFiles
