/-
When the path of an event means a watched path. Two paths do if they have the same parts, or one file name below directories
that are the same place; so the relation is the union of two, and the second can fail on either side.
- `Path.directory?`: the place of the directory that a path is in, if there is one.
- `sameTargetBy_iff`: the relation said in terms of parts, file names and places.
- **`sameTargetBy_equivalence`**: as long as places depend on the parts of a path only, it is an equivalence, and no spelling of
  either path changes it. That holds of all paths, also of those without a file name, without a directory above and below
  directories that do not exist.
-/
import LiveFiles.Proofs.Paths
import LiveFiles.Tree

namespace LiveFiles

/-- the place of the directory that a path is in -/
def Path.directory? (canonical? : Path → Option Place) (p : Path) : Option Place := p.parent?.bind canonical?

namespace Tree

variable {canonical? : Path → Option Place} {a b c : Path}

/-- paths with one file name in one directory that exists -/
def Namesakes (canonical? : Path → Option Place) (a b : Path) : Prop :=
  a.fileName? = b.fileName? ∧ ∃ d, a.directory? canonical? = some d ∧ b.directory? canonical? = some d

theorem Namesakes.symm (h : Namesakes canonical? a b) : Namesakes canonical? b a := by
  obtain ⟨hname, d, ha, hb⟩ := h
  exact ⟨hname.symm, d, hb, ha⟩

theorem Namesakes.trans (h : Namesakes canonical? a b) (h' : Namesakes canonical? b c) : Namesakes canonical? a c := by
  obtain ⟨hname, d, ha, hb⟩ := h
  obtain ⟨hname', d', hb', hc⟩ := h'
  obtain rfl : d = d' := Option.some.inj (hb.symm.trans hb')
  exact ⟨hname.trans hname', d, ha, hc⟩

theorem sameTargetBy_iff : sameTargetBy canonical? a b = true ↔ a.key = b.key ∨ Namesakes canonical? a b := by
  unfold sameTargetBy Namesakes Path.same Path.directory?
  by_cases hkey : a.key = b.key
  · simp [hkey]
  · by_cases hname : a.fileName? = b.fileName?
    · cases ha : a.parent? with
      | none => simp [hkey, hname]
      | some x =>
        cases hb : b.parent? with
        | none => simp [hkey, hname]
        | some y =>
          cases hx : canonical? x <;> cases hy : canonical? y <;> simp [hkey, hname, hx, hy]
          exact eq_comm
    · simp [hkey, hname]

/-! ## Places that depend on parts only -/

section Parts

variable (hplaces : ∀ p q : Path, p.same q = true → canonical? p = canonical? q)
include hplaces

theorem directory?_of_key (h : a.key = b.key) : a.directory? canonical? = b.directory? canonical? := by
  have habove := Path.key_parent?_of_key h
  unfold Path.directory?
  cases ha : a.parent? with
  | none =>
    rw [ha] at habove
    rw [Option.map_eq_none_iff.1 habove.symm]
  | some x =>
    rw [ha] at habove
    obtain ⟨y, hb, hkey⟩ := Option.map_eq_some_iff.1 habove.symm
    rw [hb]
    exact hplaces x y (beq_iff_eq.2 hkey.symm)

/-- a namesake may be spelled otherwise -/
theorem Namesakes.of_key (h : Namesakes canonical? b c) (hkey : a.key = b.key) : Namesakes canonical? a c := by
  obtain ⟨hname, d, hb, hc⟩ := h
  exact ⟨(Path.fileName?_of_key hkey).trans hname, d, (directory?_of_key hplaces hkey).trans hb, hc⟩

theorem sameTargetBy_trans (h : sameTargetBy canonical? a b = true) (h' : sameTargetBy canonical? b c = true) :
    sameTargetBy canonical? a c = true := by
  rw [sameTargetBy_iff] at *
  rcases h with hkey | hnames <;> rcases h' with hkey' | hnames'
  · exact .inl (hkey.trans hkey')
  · exact .inr (hnames'.of_key hplaces hkey)
  · exact .inr (hnames.symm.of_key hplaces hkey'.symm).symm
  · exact .inr (hnames.trans hnames')

/-- **Meaning the same path is an equivalence that does not see how paths are spelled.** -/
theorem sameTargetBy_equivalence :
    Equivalence (fun a b => sameTargetBy canonical? a b = true) ∧
      ∀ a a' b b' : Path, a.same a' = true → b.same b' = true →
        sameTargetBy canonical? a b = sameTargetBy canonical? a' b' := by
  have hspelling : ∀ {a a' b b' : Path}, a.same a' = true → b.same b' = true →
      sameTargetBy canonical? a b = true → sameTargetBy canonical? a' b' = true := fun {a a' b b'} ha hb h =>
    have ha' : sameTargetBy canonical? a' a = true := sameTargetBy_iff.2 (.inl (beq_iff_eq.1 ha).symm)
    have hb' : sameTargetBy canonical? b b' = true := sameTargetBy_iff.2 (.inl (beq_iff_eq.1 hb))
    sameTargetBy_trans hplaces ha' (sameTargetBy_trans hplaces h hb')
  refine ⟨⟨fun a => sameTargetBy_iff.2 (.inl rfl), fun h => ?_, sameTargetBy_trans hplaces⟩, fun a a' b b' ha hb => ?_⟩
  · exact sameTargetBy_iff.2 ((sameTargetBy_iff.1 h).imp Eq.symm Namesakes.symm)
  · rw [Bool.eq_iff_iff]
    refine ⟨hspelling ha hb, hspelling ?_ ?_⟩
    · exact beq_iff_eq.2 (beq_iff_eq.1 ha).symm
    · exact beq_iff_eq.2 (beq_iff_eq.1 hb).symm

end Parts

/-- a directory and a link to it; nothing else exists -/
def linkedPlaces (p : Path) : Option Place :=
  if p.key = [.root, .name "real"] ∨ p.key = [.root, .name "link"] then some ["real"] else none

theorem sameTargetBy_equivalence_linked :
    (∀ p q : Path, p.same q = true → linkedPlaces p = linkedPlaces q) ∧
      Equivalence (fun a b => sameTargetBy linkedPlaces a b = true) ∧
      Path.same ⟨"/link/doc.md"⟩ ⟨"/link//./doc.md/"⟩ = true ∧
      sameTargetBy linkedPlaces ⟨"/real/doc.md"⟩ ⟨"/link/doc.md"⟩ = sameTargetBy linkedPlaces ⟨"/real/doc.md"⟩ ⟨"/link//./doc.md/"⟩ ∧
      sameTargetBy linkedPlaces ⟨"/real/doc.md"⟩ ⟨"/link/doc.md"⟩ = true ∧
      sameTargetBy linkedPlaces ⟨"/real/.."⟩ ⟨"/link/.."⟩ = true ∧
      sameTargetBy linkedPlaces ⟨"/real/doc.md"⟩ ⟨"/gone/doc.md"⟩ = false ∧
      sameTargetBy linkedPlaces ⟨"doc.md"⟩ ⟨"./doc.md"⟩ = false ∧ sameTargetBy linkedPlaces ⟨"/"⟩ ⟨".."⟩ = false := by
  have hplaces : ∀ p q : Path, p.same q = true → linkedPlaces p = linkedPlaces q := fun p q h => by
    rw [linkedPlaces, linkedPlaces, beq_iff_eq.1 h]
  have hsame : Path.same ⟨"/link/doc.md"⟩ ⟨"/link//./doc.md/"⟩ = true := by decide +kernel
  have h := sameTargetBy_equivalence hplaces
  refine ⟨hplaces, h.1, hsame, h.2 _ _ _ _ (beq_self_eq_true _) hsame, ?_⟩
  decide +kernel

end Tree

end LiveFiles
