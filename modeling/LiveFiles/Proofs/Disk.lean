/-
Dates of files. The clock of a disk moves on before it dates a file, so a date that is past (`Disk.Past`) never comes
again. `Disk.Later` says how a disk may change: each file that was not there before has a new date. It composes, and
everything that happens to a disk is of this kind.
-/
import Mathlib.Tactic
import LiveFiles.Disk

namespace LiveFiles

namespace Disk

/-- no file will be given this date any more -/
def Past (d : Disk) (m : Instant) : Prop := ∀ n : Nat, d.clock < n → Instant.ofMillis n ≠ m

/-- a later state of a disk -/
structure Later (d d' : Disk) : Prop where
  clock : d.clock ≤ d'.clock
  file : ∀ k f, d'.files.get? k = some f →
    d.files.get? k = some f ∨ ∃ n : Nat, d.clock < n ∧ n ≤ d'.clock ∧ f.modified = Instant.ofMillis n

theorem ofMillis_inj {m n : Nat} (h : Instant.ofMillis m = Instant.ofMillis n) : m = n := by
  simp only [Instant.ofMillis, Instant.mk.injEq] at h
  omega

variable {d d' d'' : Disk}

theorem past_of_le {m : Instant} (h : d.clock ≤ d'.clock) (hm : d.Past m) : d'.Past m :=
  fun n hn => hm n (lt_of_le_of_lt h hn)

theorem past_ofMillis {n : Nat} (h : n ≤ d.clock) : d.Past (Instant.ofMillis n) := by
  intro k hk e
  have := ofMillis_inj e
  omega

theorem Later.of_same (hf : d'.files = d.files) (hc : d'.clock = d.clock) : Later d d' :=
  ⟨hc.ge, fun k f h => Or.inl (by rwa [hf] at h)⟩

theorem Later.refl (d : Disk) : Later d d := .of_same rfl rfl

theorem Later.trans (h : Later d d') (h' : Later d' d'') : Later d d'' := by
  refine ⟨h.clock.trans h'.clock, fun k f hf => ?_⟩
  rcases h'.file k f hf with hf | ⟨n, h1, h2, hn⟩
  · rcases h.file k f hf with hf | ⟨n, h1, h2, hn⟩
    · exact Or.inl hf
    · exact Or.inr ⟨n, h1, h2.trans h'.clock, hn⟩
  · exact Or.inr ⟨n, lt_of_le_of_lt h.clock h1, h2, hn⟩

/-- a file with a date that is past was there before -/
theorem Later.file_of_past (h : Later d d') {k : Path.Key} {f : StoredFile} (hf : d'.files.get? k = some f)
    (hm : d.Past f.modified) : d.files.get? k = some f := by
  rcases h.file k f hf with hf | ⟨n, hn, -, e⟩
  · exact hf
  · exact absurd e.symm (hm n hn)

/-! ## What happens to a disk -/

theorem later_putFile (d : Disk) (p : Path) (bytes : ByteArray) : Later d (d.putFile p bytes) := by
  refine ⟨Nat.le_succ _, fun k f hf => ?_⟩
  simp only [putFile, Table.get?_insert] at hf
  split at hf
  · cases hf
    exact Or.inr ⟨d.clock + 1, Nat.lt_succ_self _, le_rfl, rfl⟩
  · exact Or.inl hf

theorem later_removeFile (d : Disk) (p : Path) : Later d (d.removeFile p) := by
  refine ⟨le_rfl, fun k f hf => ?_⟩
  simp only [removeFile, Table.get?_erase] at hf
  split at hf
  · cases hf
  · exact Or.inl hf

theorem later_touch (d : Disk) (p : Path) : Later d (d.touch p) := by
  refine ⟨Nat.le_succ _, fun k f hf => ?_⟩
  simp only [touch, Table.get?_modify] at hf
  split at hf
  · obtain ⟨f', -, rfl⟩ := Option.map_eq_some_iff.1 hf
    exact Or.inr ⟨d.clock + 1, Nat.lt_succ_self _, le_rfl, rfl⟩
  · exact Or.inl hf

theorem later_enter (d : Disk) (op : DiskOp) (p : Path) : Later d (d.enter op p).1 := .of_same rfl rfl

theorem later_leave (d : Disk) (p : Path) : Later d (d.leave p) := .of_same rfl rfl

theorem later_write (d : Disk) (p : Path) (bytes : ByteArray) : Later d (d.write p bytes).1 := by
  unfold write
  split
  · exact .refl d
  · exact later_putFile d p bytes

/-! ## What is read -/

theorem stat_eq_some {p : Path} {st : FileStat} (h : d.stat p = .ok (some st)) :
    ∃ f, d.file? p = some f ∧ f.modified = st.modified := by
  unfold stat at h
  split at h
  · cases h
  · obtain ⟨f, hf, rfl⟩ := Option.map_eq_some_iff.1 (Except.ok.inj h)
    exact ⟨f, hf, rfl⟩

theorem file?_of_stat {p : Path} (h : d.stat p = .ok none) : d.file? p = none := by
  unfold stat at h
  split at h
  · cases h
  · exact Option.map_eq_none_iff.1 (Except.ok.inj h)

/-- what a look at a file can find -/
theorem stat_cases (d : Disk) (p : Path) : (∃ f, d.stat p = .error f) ∨ (d.stat p = .ok none ∧ d.file? p = none) ∨
    ∃ f st, d.stat p = .ok (some st) ∧ d.file? p = some f ∧ f.modified = st.modified := by
  cases h : d.stat p with
  | error f => exact Or.inl ⟨f, rfl⟩
  | ok st =>
    refine Or.inr ?_
    cases st with
    | none => exact Or.inl ⟨rfl, file?_of_stat h⟩
    | some st =>
      obtain ⟨f, hf, hm⟩ := stat_eq_some h
      exact Or.inr ⟨f, st, rfl, hf, hm⟩

/-! ## How many calls there have been -/

theorem callCount_enter (d : Disk) (op : DiskOp) (p : Path) : (d.enter op p).1.callCount op p = d.callCount op p + 1 := by
  simp [enter, callCount, Table.getD, Table.get?_insert]

theorem callCount_enter_of_ne (d : Disk) {op op' : DiskOp} (h : op ≠ op') (p q : Path) :
    (d.enter op p).1.callCount op' q = d.callCount op' q := by
  have hne : (op, p.key) ≠ (op', q.key) := fun e => h (congrArg Prod.fst e)
  simp [enter, callCount, Table.getD, Table.get?_insert, hne]

theorem callCount_leave (d : Disk) (op : DiskOp) (p q : Path) : (d.leave p).callCount op q = d.callCount op q := rfl

end Disk

/-- text that can be read strictly is read alike with replacement characters -/
theorem Text.Utf8.decodeLossyFrom_of_decodeFrom {bytes : List UInt8} {i : Nat} {acc cs : List Char}
    (h : decodeFrom i acc bytes = .ok cs) : decodeLossyFrom acc bytes = cs := by
  induction i, acc, bytes using decodeFrom.induct with
  | case1 i acc =>
    rw [decodeFrom] at h
    rw [decodeLossyFrom]
    exact Except.ok.inj h
  | case2 i acc a rest c size hn ih =>
    rw [decodeFrom, hn] at h
    rw [decodeLossyFrom, hn]
    exact ih h
  | case3 i acc a rest size cut hn =>
    rw [decodeFrom, hn] at h
    cases h

theorem Text.Utf8.decodeLossy_of_decode {bytes : ByteArray} {s : String} (h : decode bytes = .ok s) :
    decodeLossy bytes = s := by
  unfold decode at h
  cases hd : decodeFrom 0 [] bytes.toList with
  | error e =>
    rw [hd] at h
    cases h
  | ok cs =>
    rw [hd] at h
    rw [decodeLossy, decodeLossyFrom_of_decodeFrom hd]
    exact Except.ok.inj h

/-- what a reconciliation reads is the text of the file -/
theorem Disk.read_eq_ok {d : Disk} {p : Path} {s : String} (h : d.read p = .ok s) :
    ∃ f, d.file? p = some f ∧ Text.Utf8.decodeLossy f.bytes = s := by
  unfold read at h
  split at h
  · cases h
  split at h
  · cases h
  · rename_i f hf
    split at h
    · rename_i s' hs
      cases h
      exact ⟨f, hf, Text.Utf8.decodeLossy_of_decode hs⟩
    · cases h

end LiveFiles
