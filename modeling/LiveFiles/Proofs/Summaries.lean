/-
The line of a snapshot identifies it. The path comes first and is written as it is, blanks and all; the words after it have no
blanks, and so a line is taken apart from its right end (`append_words_inj`).
- `toDigits_injective`, `hexDigest_injective`: a number and a digest are read off their digits.
- `toList_line`: the line of a well-formed snapshot is its path, then its words.
- **`line_eq_iff`**: two well-formed snapshots have one line exactly if they have the same path text and status and, where there
  are versions, the same summary: length in bytes, digest, and both dates in milliseconds. What the paths look like does not
  matter.
-/
import LiveFiles.Snapshot
import Mathlib.Data.List.Basic

namespace LiveFiles

/-- what a line shows of a version -/
structure Summary where
  bytes : Nat
  digest : Digest.Blake3.Words
  modified : Nat
  external : Nat

/-- length in bytes, digest, and the two dates in milliseconds since the epoch -/
def Version.summary (v : Version) : Summary :=
  ⟨v.contents.utf8ByteSize, Digest.Blake3.hash v.contents.toUTF8, v.modified.epochMillis, v.external.epochMillis⟩

/-! ## Words -/

/-- words, each after a blank -/
def spaced (ws : List (List Char)) : List Char := ws.flatMap (' ' :: ·)

variable {a b w v : List Char}

theorem append_blank_inj (hw : ' ' ∉ w) (hv : ' ' ∉ v) (h : a ++ ' ' :: w = b ++ ' ' :: v) : a = b ∧ w = v := by
  -- if one text went on after the other has ended, its last word would have the blank of the other
  rcases List.append_eq_append_iff.1 h with ⟨_ | ⟨c, rest⟩, hb, hr⟩ | ⟨_ | ⟨c, rest⟩, ha, hr⟩
  · exact ⟨(hb.trans (List.append_nil a)).symm, List.cons.inj hr |>.2⟩
  · refine absurd ?_ hw
    rw [List.cons.inj hr |>.2]
    exact List.mem_append_right _ List.mem_cons_self
  · exact ⟨ha.trans (List.append_nil b), (List.cons.inj hr |>.2).symm⟩
  · refine absurd ?_ hv
    rw [List.cons.inj hr |>.2]
    exact List.mem_append_right _ List.mem_cons_self

theorem append_words_inj {ws vs : List (List Char)} (hlength : ws.length = vs.length) (hws : ∀ w ∈ ws, ' ' ∉ w)
    (hvs : ∀ v ∈ vs, ' ' ∉ v) (h : a ++ spaced ws = b ++ spaced vs) : a = b ∧ ws = vs := by
  induction ws generalizing a b vs with
  | nil =>
    cases List.length_eq_zero_iff.1 hlength.symm
    exact ⟨by simpa [spaced] using h, rfl⟩
  | cons w ws ih =>
    obtain _ | ⟨v, vs⟩ := vs
    · cases hlength
    · have hspaced : (a ++ ' ' :: w) ++ spaced ws = (b ++ ' ' :: v) ++ spaced vs := by
        simpa [spaced, List.append_assoc] using h
      obtain ⟨hhead, rfl⟩ := ih (Nat.succ.inj hlength) (fun w hw => hws w (List.mem_cons_of_mem _ hw))
        (fun v hv => hvs v (List.mem_cons_of_mem _ hv)) hspaced
      obtain ⟨rfl, rfl⟩ := append_blank_inj (hws w List.mem_cons_self) (hvs v List.mem_cons_self) hhead
      exact ⟨rfl, rfl⟩

/-! ## Numbers and digests -/

theorem toDigits_injective : Function.Injective (Nat.toDigits 10) := fun m n h => by
  rw [← Nat.ofDigitChars_ten_toDigits (n := m), h, Nat.ofDigitChars_ten_toDigits]

theorem blank_not_mem_toDigits (n : Nat) : ' ' ∉ Nat.toDigits 10 n := fun h =>
  absurd (Nat.isDigit_of_mem_toDigits (by decide) (by decide) h) (by decide)

namespace Digest.Blake3

theorem hexDigit_injective : ∀ m < 16, ∀ n < 16, hexDigit m = hexDigit n → m = n := by decide

theorem hexDigit_ne_blank : ∀ n < 16, hexDigit n ≠ ' ' := by decide

/-- a byte is read off its two digits -/
theorem byte_eq {m n : Nat} (hm : m < 256) (hn : n < 256) (hhigh : hexDigit (m / 16) = hexDigit (n / 16))
    (hlow : hexDigit (m % 16) = hexDigit (n % 16)) : m = n := by
  have hdiv := hexDigit_injective (m / 16) (by omega) (n / 16) (by omega) hhigh
  have hmod := hexDigit_injective (m % 16) (by omega) (n % 16) (by omega) hlow
  omega

theorem length_wordHex (w : UInt32) : (wordHex w).length = 8 := rfl

theorem wordHex_injective : Function.Injective wordHex := by
  intro w v h
  simp only [wordHex, List.range, List.range.loop, List.flatMap_cons, List.flatMap_nil, List.cons_append, List.nil_append,
    List.cons.injEq, and_true, Nat.shiftRight_eq_div_pow] at h
  obtain ⟨hhigh₀, hlow₀, hhigh₁, hlow₁, hhigh₂, hlow₂, hhigh₃, hlow₃⟩ := h
  have hlt : ∀ n : Nat, n % 256 < 256 := fun n => Nat.mod_lt n (by decide)
  have h₀ := byte_eq (hlt _) (hlt _) hhigh₀ hlow₀
  have h₁ := byte_eq (hlt _) (hlt _) hhigh₁ hlow₁
  have h₂ := byte_eq (hlt _) (hlt _) hhigh₂ hlow₂
  have h₃ := byte_eq (hlt _) (hlt _) hhigh₃ hlow₃
  have hw := w.toNat_lt
  have hv := v.toNat_lt
  exact UInt32.toNat.inj (by omega)

theorem flatMap_wordHex_injective {ws vs : List UInt32} (h : ws.flatMap wordHex = vs.flatMap wordHex) : ws = vs := by
  induction ws generalizing vs with
  | nil =>
    cases vs with
    | nil => rfl
    | cons v vs => cases h
  | cons w ws ih =>
    cases vs with
    | nil => cases h
    | cons v vs =>
      rw [List.flatMap_cons, List.flatMap_cons] at h
      obtain ⟨hhead, hrest⟩ := List.append_inj h (by rw [length_wordHex, length_wordHex])
      rw [wordHex_injective hhead, ih hrest]

theorem blank_not_mem_hexDigest (bytes : ByteArray) : ' ' ∉ (hexDigest bytes).toList := by
  rw [hexDigest, String.toList_ofList]
  intro h
  obtain ⟨w, -, hw⟩ := List.mem_flatMap.1 h
  obtain ⟨i, -, hi⟩ := List.mem_flatMap.1 hw
  have hlt : (w.toNat >>> (8 * i)) % 256 < 256 := Nat.mod_lt _ (by decide)
  rcases List.mem_pair.1 hi with hi | hi
  · exact hexDigit_ne_blank _ (by omega) hi.symm
  · exact hexDigit_ne_blank _ (by omega) hi.symm

theorem hexDigest_injective {x y : ByteArray} (h : hexDigest x = hexDigest y) : hash x = hash y := by
  rw [hexDigest, hexDigest, String.ofList_inj] at h
  exact Array.toList_inj.1 (flatMap_wordHex_injective h)

end Digest.Blake3

/-! ## Lines -/

namespace Snapshot

/-- the words of a line after the path -/
def words : Option Version → List (List Char)
  | none => ["missing".toList]
  | some v =>
    ["ok".toList, "len=".toList ++ Nat.toDigits 10 v.contents.utf8ByteSize,
      "blake3=".toList ++ (Digest.Blake3.hexDigest v.contents.toUTF8).toList,
      "mtime=".toList ++ Nat.toDigits 10 v.modified.epochMillis,
      "external=".toList ++ Nat.toDigits 10 v.external.epochMillis]

theorem blank_not_mem_words (v : Option Version) : ∀ w ∈ words v, ' ' ∉ w := by
  have happend : ∀ {x y : List Char}, ' ' ∉ x → ' ' ∉ y → ' ' ∉ x ++ y := fun hx hy h =>
    (List.mem_append.1 h).elim hx hy
  cases v with
  | none => simp [words]
  | some v =>
    simp only [words, List.forall_mem_cons, List.not_mem_nil, false_imp_iff, implies_true, and_true]
    exact ⟨by decide, happend (by decide) (blank_not_mem_toDigits _),
      happend (by decide) (Digest.Blake3.blank_not_mem_hexDigest _), happend (by decide) (blank_not_mem_toDigits _),
      happend (by decide) (blank_not_mem_toDigits _)⟩

variable {s s' : Snapshot}

/-- what the status of a well-formed snapshot is -/
def statusOf (v : Option Version) : Status := if v.isSome then .ok else .missing

theorem status_eq (h : s.WellFormed) : s.status = statusOf s.version := by
  cases hs : s.status with
  | ok => rw [statusOf, if_pos (h.2 hs)]
  | missing =>
    refine (if_neg fun hv => ?_).symm
    cases hs.symm.trans (h.1 hv)

theorem toList_line (h : s.WellFormed) : s.line.toList = s.path.text.toList ++ spaced (words s.version) := by
  obtain ⟨p, status, v⟩ := s
  obtain rfl : status = statusOf v := status_eq h
  cases v with
  | none => simp [line, words, spaced]
  | some v =>
    have htext : ∀ x : String, toString x = x := fun _ => rfl
    simp [line, statusOf, words, spaced, versionFields, Nat.repr_eq_ofList_toDigits, htext]

/-- the words of two versions that look alike -/
theorem summary_eq_of_words {v v' : Version} (h : words (some v) = words (some v')) : v.summary = v'.summary := by
  simp only [words, List.cons.injEq, List.append_cancel_left_eq, and_true, true_and] at h
  obtain ⟨hlen, hdigest, hmodified, hexternal⟩ := h
  rw [Version.summary, Version.summary, toDigits_injective hlen, toDigits_injective hmodified, toDigits_injective hexternal,
    Digest.Blake3.hexDigest_injective (String.toList_inj.1 hdigest)]

theorem words_eq_of_summary {v v' : Version} (h : v.summary = v'.summary) : words (some v) = words (some v') := by
  obtain ⟨hlen, hdigest, hmodified, hexternal⟩ := Summary.mk.inj h
  rw [words, words, hlen, hmodified, hexternal, Digest.Blake3.hexDigest, Digest.Blake3.hexDigest, hdigest]

/-- no line of a missing path is one of a path that is present: they end otherwise -/
theorem append_words_ne (v : Version) : a ++ spaced (words none) ≠ b ++ spaced (words (some v)) := by
  intro h
  have hlast : a ++ ' ' :: "missing".toList =
      (b ++ spaced ((words (some v)).take 4)) ++ ' ' :: ("external=".toList ++ Nat.toDigits 10 v.external.epochMillis) := by
    simpa [spaced, words, List.append_assoc] using h
  obtain ⟨-, hword⟩ := append_blank_inj (blank_not_mem_words none _ List.mem_cons_self)
    (blank_not_mem_words (some v) _ (by simp [words])) hlast
  cases hword

/-- **Lines identify snapshots.** Two well-formed snapshots have the same line if and only if they agree on the text of the
path, the status, and what a line shows of a version. -/
theorem line_eq_iff (h : s.WellFormed) (h' : s'.WellFormed) :
    s.line = s'.line ↔ s.path.text = s'.path.text ∧ s.status = s'.status ∧
      s.version.map Version.summary = s'.version.map Version.summary := by
  rw [← String.toList_inj, toList_line h, toList_line h', status_eq h, status_eq h']
  cases s.version with
  | none =>
    cases s'.version with
    | none => simp [String.toList_inj]
    | some v => simpa [statusOf] using append_words_ne v
  | some v =>
    cases s'.version with
    | none => simpa [statusOf] using fun h => append_words_ne v h.symm
    | some v' =>
      refine ⟨fun hline => ?_, fun hsame => ?_⟩
      · have hlength : (words (some v)).length = (words (some v')).length := by simp only [words, List.length_cons]
        obtain ⟨hpath, hwords⟩ :=
          append_words_inj hlength (blank_not_mem_words (some v)) (blank_not_mem_words (some v')) hline
        exact ⟨String.toList_inj.1 hpath, rfl, congrArg some (summary_eq_of_words hwords)⟩
      · obtain ⟨hpath, -, hsummary⟩ := hsame
        rw [hpath, words_eq_of_summary (Option.some.inj hsummary)]

/-- A missing file whose path reads like the line of one that is there, and a file of the same name that is there: their lines
differ. -/
theorem line_eq_iff_lookalike :
    let listed := missing ⟨"a ok len=0 blake3=0 mtime=0 external=0"⟩
    let there := present ⟨"a"⟩ ⟨"", .epoch, .epoch⟩
    listed.WellFormed ∧ there.WellFormed ∧ listed.line ≠ there.line := by
  have hlisted : (missing ⟨"a ok len=0 blake3=0 mtime=0 external=0"⟩).WellFormed := by simp [WellFormed, missing]
  have hthere : (present ⟨"a"⟩ ⟨"", .epoch, .epoch⟩).WellFormed := by simp [WellFormed, present]
  exact ⟨hlisted, hthere, fun h => absurd ((line_eq_iff hlisted hthere).1 h).1 (by decide)⟩

end Snapshot

end LiveFiles
