/-
The parts of a path and how it may be written.
- `key_slashes`, `key_dot`, `key_trailing`, `key_trailing_dot`: ways to write a path that do not change its parts.
- `key_parent?`: which path is above another is a matter of parts too, and so is its file name. A root and a path without parts
  have nothing above; all else loses its last part, be it a name, `..` or the dot of `./a`.
-/
import LiveFiles.Path
import Mathlib.Data.List.Basic

namespace LiveFiles

namespace Path

/-! ## Spellings of a path -/


theorem pieces_ne_nil (cs : List Char) : pieces cs ≠ [] := by
  cases cs with
  | nil => exact List.cons_ne_nil _ _
  | cons c cs =>
    unfold pieces
    split
    · exact List.cons_ne_nil _ _
    · split <;> exact List.cons_ne_nil _ _

theorem pieces_append (a b : List Char) : pieces (a ++ '/' :: b) = pieces a ++ pieces b := by
  induction a with
  | nil => rfl
  | cons c a ih =>
    rw [List.cons_append, pieces, pieces, ih]
    split
    · rfl
    · cases ha : pieces a with
      | nil => exact absurd ha (pieces_ne_nil a)
      | cons x xs => rfl

/-- the parts of a text that has no start of its own -/
def parts (cs : List Char) : List Part := (pieces cs).filterMap part?

theorem parts_append (a b : List Char) : parts (a ++ '/' :: b) = parts a ++ parts b := by
  rw [parts, pieces_append, List.filterMap_append]
  rfl

theorem lead_append (a b : List Char) : lead (a ++ '/' :: b) = lead (a ++ ['/']) := by
  rcases a with _ | ⟨c, _ | ⟨d, a⟩⟩
  · rfl
  · change lead (c :: '/' :: b) = lead (c :: '/' :: [])
    unfold lead
    split <;> simp_all
  · change lead (c :: d :: (a ++ '/' :: b)) = lead (c :: d :: (a ++ ['/']))
    unfold lead
    split <;> simp_all

theorem length_lead_le (cs : List Char) : (lead cs).length ≤ 1 := by
  unfold lead
  split <;> simp

theorem key_eq (cs : List Char) : key ⟨String.ofList cs⟩ = leadParts (lead cs) ++ parts (cs.drop (lead cs).length) := by
  rw [key, String.toList_ofList]
  rfl

/-- what follows a slash is parts, whatever comes before it -/
theorem key_append (a b : List Char) : key ⟨String.ofList (a ++ '/' :: b)⟩ = key ⟨String.ofList (a ++ ['/'])⟩ ++ parts b := by
  rw [key_eq, key_eq, lead_append a b, List.append_assoc]
  congr 1
  cases a with
  | nil => rfl
  | cons c a =>
    have hlength : (lead (c :: a ++ ['/'])).length ≤ (c :: a).length :=
      Nat.le_trans (length_lead_le _) (Nat.succ_le_succ (Nat.zero_le _))
    rw [List.drop_append_of_le_length hlength, List.drop_append_of_le_length hlength, parts_append, parts_append,
      List.append_assoc]
    rfl

/-- a slash more between the parts -/
theorem key_slashes (a b : List Char) :
    key ⟨String.ofList (a ++ '/' :: '/' :: b)⟩ = key ⟨String.ofList (a ++ '/' :: b)⟩ := by
  rw [key_append, key_append a b]
  exact congrArg (key _ ++ ·) (parts_append [] b)

/-- a dot between the parts -/
theorem key_dot (a b : List Char) :
    key ⟨String.ofList (a ++ '/' :: '.' :: '/' :: b)⟩ = key ⟨String.ofList (a ++ '/' :: b)⟩ := by
  rw [key_append, key_append a b]
  exact congrArg (key _ ++ ·) (parts_append ['.'] b)

/-- a slash at the end -/
theorem key_trailing (a : List Char) (h : a ≠ []) : key ⟨String.ofList (a ++ ['/'])⟩ = key ⟨String.ofList a⟩ := by
  have hlead : lead (a ++ ['/']) = lead a := by
    rcases a with _ | ⟨c, _ | ⟨d, a⟩⟩
    · exact absurd rfl h
    · by_cases hslash : c = '/'
      · subst hslash
        rfl
      · by_cases hdot : c = '.'
        · subst hdot
          rfl
        · simp [lead, hslash, hdot]
    · change lead (c :: d :: (a ++ ['/'])) = lead (c :: d :: a)
      unfold lead
      split <;> simp_all
  have hlength : (lead a).length ≤ a.length := Nat.le_trans (length_lead_le a) (List.length_pos_iff.2 h)
  rw [key_eq, key_eq, hlead, List.drop_append_of_le_length hlength, parts_append]
  exact congrArg (leadParts (lead a) ++ ·) (List.append_nil _)

/-- a slash and a dot at the end -/
theorem key_trailing_dot (a : List Char) (h : a ≠ []) : key ⟨String.ofList (a ++ ['/', '.'])⟩ = key ⟨String.ofList a⟩ := by
  rw [key_append, ← key_trailing a h]
  exact List.append_nil _

/-! ## The path above another -/

/-- The parts of the path above. -/
def Key.above? (k : Key) : Option Key :=
  match k.getLast? with
  | none | some .root => none
  | some _ => some k.dropLast

theorem lead_append_body (cs : List Char) : lead cs ++ body cs = cs := by
  refine List.prefix_iff_eq_append.1 ?_
  unfold lead
  split <;> simp

theorem unpieces_append {a b : List (List Char)} (ha : a ≠ []) (hb : b ≠ []) :
    unpieces (a ++ b) = unpieces a ++ '/' :: unpieces b := by
  induction a with
  | nil => exact absurd rfl ha
  | cons x a ih =>
    cases a with
    | nil =>
      cases b with
      | nil => exact absurd rfl hb
      | cons y b => rfl
    | cons y a =>
      have hrest := ih (List.cons_ne_nil _ _)
      simp only [List.cons_append, unpieces, List.append_assoc] at hrest ⊢
      rw [hrest]

theorem unpieces_pieces (cs : List Char) : unpieces (pieces cs) = cs := by
  induction cs with
  | nil => rfl
  | cons c cs ih =>
    obtain ⟨x, xs, hx⟩ := List.exists_cons_of_ne_nil (pieces_ne_nil cs)
    rw [hx] at ih
    by_cases hc : c = '/'
    · subst hc
      rw [pieces, if_pos rfl, hx]
      exact congrArg ('/' :: ·) ih
    · rw [pieces, if_neg hc, hx]
      cases xs with
      | nil => exact congrArg (c :: ·) ih
      | cons y ys => exact congrArg (c :: ·) ih

theorem slash_not_mem_of_mem_pieces {cs x : List Char} (h : x ∈ pieces cs) : '/' ∉ x := by
  induction cs generalizing x with
  | nil =>
    obtain rfl : x = [] := by simpa [pieces] using h
    exact List.not_mem_nil
  | cons c cs ih =>
    obtain ⟨y, ys, hy⟩ := List.exists_cons_of_ne_nil (pieces_ne_nil cs)
    rw [hy] at ih
    by_cases hc : c = '/'
    · rw [pieces, if_pos hc, hy] at h
      rcases List.mem_cons.1 h with rfl | h
      · exact List.not_mem_nil
      · exact ih h
    · rw [pieces, if_neg hc, hy] at h
      rcases List.mem_cons.1 h with rfl | h
      · exact fun hslash => (List.mem_cons.1 hslash).elim (fun heq => hc heq.symm) (ih List.mem_cons_self)
      · exact ih (List.mem_cons_of_mem _ h)

theorem pieces_of_no_slash {x : List Char} (h : '/' ∉ x) : pieces x = [x] := by
  induction x with
  | nil => rfl
  | cons c x ih =>
    rw [List.mem_cons, not_or] at h
    rw [pieces, if_neg (Ne.symm h.1), ih h.2]

/-- pieces put together stand for the parts that they stand for one by one -/
theorem parts_unpieces {ps : List (List Char)} (h : ∀ x ∈ ps, '/' ∉ x) : parts (unpieces ps) = ps.filterMap part? := by
  induction ps with
  | nil => rfl
  | cons x ps ih =>
    have hx : parts x = [x].filterMap part? := by rw [parts, pieces_of_no_slash (h x List.mem_cons_self)]
    cases ps with
    | nil => exact hx
    | cons y ys =>
      rw [unpieces, parts_append, hx, ih fun z hz => h z (List.mem_cons_of_mem _ hz)]
      · exact (List.filterMap_append (l := [x])).symm
      · exact nofun

/-- what is dropped stands for no part -/
theorem exists_append_trimEnd (ps : List (List Char)) : ∃ js, js ++ trimEnd ps = ps ∧ js.filterMap part? = [] := by
  induction ps with
  | nil => exact ⟨[], rfl, rfl⟩
  | cons x ps ih =>
    unfold trimEnd
    split
    · next hx =>
      obtain ⟨js, hjs, hnone⟩ := ih
      refine ⟨x :: js, congrArg (x :: ·) hjs, ?_⟩
      rw [List.filterMap_cons_none (Option.isNone_iff_eq_none.1 hx), hnone]
    · exact ⟨[], rfl, rfl⟩

/-- what is left begins with a piece that stands for a part -/
theorem part?_of_trimEnd {ps rest : List (List Char)} {x : List Char} (h : trimEnd ps = x :: rest) : ∃ y, part? x = some y := by
  induction ps with
  | nil => cases h
  | cons z ps ih =>
    unfold trimEnd at h
    split at h
    · exact ih h
    · next hz =>
      cases h
      exact Option.ne_none_iff_exists'.1 fun hnone => hz (by rw [hnone]; rfl)

theorem part?_ne_root {x : List Char} {y : Part} (h : part? x = some y) : y ≠ .root := by
  rintro rfl
  unfold part? at h
  split at h <;> cases h

theorem key_lead (cs : List Char) : key ⟨String.ofList (lead cs)⟩ = leadParts (lead cs) := by
  unfold lead
  split <;> rfl

/-- the last piece that counts, with what is before and after it -/
theorem exists_parent {p : Path} {x : List Char} {rest : List (List Char)}
    (h : trimEnd (pieces (body p.text.toList)).reverse = x :: rest) :
    ∃ y ≠ Part.root, p.key = key ⟨String.ofList (lead p.text.toList ++ unpieces (trimEnd rest).reverse)⟩ ++ [y] := by
  obtain ⟨y, hy⟩ := part?_of_trimEnd h
  refine ⟨y, part?_ne_root hy, ?_⟩
  obtain ⟨late, hlate, hlateNone⟩ := exists_append_trimEnd (pieces (body p.text.toList)).reverse
  obtain ⟨early, hearly, hearlyNone⟩ := exists_append_trimEnd rest
  -- the pieces fall into those of the path above and those that stand for the last part
  have hpieces : pieces (body p.text.toList) = (trimEnd rest).reverse ++ (late ++ x :: early).reverse := by
    rw [← List.reverse_append, List.append_assoc, List.cons_append, hearly, ← h, hlate, List.reverse_reverse]
  have hlast : (late ++ x :: early).reverse.filterMap part? = [y] := by
    rw [List.filterMap_reverse, List.filterMap_append, List.filterMap_cons_some hy, hlateNone, hearlyNone]
    rfl
  have hslash : ∀ z ∈ (trimEnd rest).reverse ++ (late ++ x :: early).reverse, '/' ∉ z := fun z hz =>
    slash_not_mem_of_mem_pieces (hpieces ▸ hz)
  have hparts := parts_unpieces (fun z hz => hslash z (List.mem_append_right _ hz))
  have hbody := unpieces_pieces (body p.text.toList)
  have htext := lead_append_body p.text.toList
  rw [hpieces] at hbody
  cases habove : trimEnd rest with
  | nil =>
    rw [habove, List.reverse_nil, List.nil_append] at hbody
    rw [List.reverse_nil, unpieces, List.append_nil, key_lead, ← hlast, ← hparts, hbody]
    rfl
  | cons z zs =>
    obtain ⟨v, hv⟩ := part?_of_trimEnd habove
    rw [← habove]
    have hne : (trimEnd rest).reverse ≠ [] := by rw [habove]; simp
    have hnonempty : unpieces (trimEnd rest).reverse ≠ [] := by
      intro hempty
      have hmem : v ∈ parts (unpieces (trimEnd rest).reverse) := by
        rw [parts_unpieces fun a ha => hslash a (List.mem_append_left _ ha)]
        exact List.mem_filterMap.2 ⟨z, by rw [habove]; simp, hv⟩
      rw [hempty] at hmem
      cases hmem
    rw [unpieces_append hne (by simp)] at hbody
    have hp : p = ⟨String.ofList ((lead p.text.toList ++ unpieces (trimEnd rest).reverse) ++
        '/' :: unpieces (late ++ x :: early).reverse)⟩ := by
      rw [List.append_assoc, hbody, htext, String.ofList_toList]
    conv_lhs => rw [hp]
    rw [key_append, key_trailing _ (List.append_ne_nil_of_right_ne_nil _ hnonempty), hparts, hlast]

theorem Key.above?_concat (k : Key) {y : Part} (hy : y ≠ .root) : Key.above? (k ++ [y]) = some k := by
  rw [Key.above?, List.getLast?_concat, List.dropLast_concat]
  cases y with
  | root => exact absurd rfl hy
  | here => rfl
  | up => rfl
  | name s => rfl

/-- **What is above a path is decided by its parts.** -/
theorem key_parent? (p : Path) : p.parent?.map key = p.key.above? := by
  cases h : trimEnd (pieces (body p.text.toList)).reverse with
  | cons x rest =>
    obtain ⟨y, hy, hkey⟩ := exists_parent h
    simp only [parent?, h, hkey, Key.above?_concat _ hy, Option.map_some]
  | nil =>
    obtain ⟨js, hjs, hnone⟩ := exists_append_trimEnd (pieces (body p.text.toList)).reverse
    have hparts : (pieces (body p.text.toList)).filterMap part? = [] := by
      rw [h, List.append_nil] at hjs
      rw [hjs, List.filterMap_reverse, List.reverse_eq_nil_iff] at hnone
      exact hnone
    have hkey : p.key = leadParts (lead p.text.toList) := by rw [key, hparts, List.append_nil]
    simp only [parent?, h, hkey]
    unfold lead
    split <;> rfl

theorem fileName?_of_key {p q : Path} (h : p.key = q.key) : p.fileName? = q.fileName? := by
  rw [fileName?, fileName?, h]

/-- what is above a path does not depend on its spelling -/
theorem key_parent?_of_key {p q : Path} (h : p.key = q.key) : p.parent?.map key = q.parent?.map key := by
  rw [key_parent?, key_parent?, h]

end Path

end LiveFiles
