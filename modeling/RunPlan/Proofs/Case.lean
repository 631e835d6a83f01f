import RunPlan.Proofs.Numeral
import RunPlan.Text.Case

/-!
# Lower case

What is in lower case stays as it is, piece by piece: the images of the table of lower case
are outside of it. No character up to `[`, such as the dot of a path, is the lower case of
another one.

## Key results

- `isLower_of_mem_toLower`: a text in lower case is made of characters in lower case
- `toLower_eq_self`: a text of such characters is in lower case already
- `mem_of_mem_toLower`: separators are not made by lower case
-/

namespace RunPlan.Text

/-! ## The table -/

/-- Whether none of the characters from `low` to `high`, or of every second one of them,
    belongs to the run. -/
def CaseRun.avoids (run : CaseRun) (low high : Nat) (alternate : Bool) : Bool :=
  high.blt run.first || run.last.blt low ||
    (alternate && run.step == 2 && (low + run.first) % 2 == 1)

/-- Whether no character that the run maps to belongs to one of the others. -/
def CaseRun.misses (run : CaseRun) (others : List CaseRun) : Bool :=
  match run.first + run.offset, run.last + run.offset with
  | .ofNat low, .ofNat high =>
    others.all (·.avoids low high (run.step == 2 || run.first == run.last))
  | _, _ => false

/-- Whether the run maps to characters above `[`. -/
def CaseRun.isHigh (run : CaseRun) : Bool :=
  0x5B < run.first + run.offset &&
    (run.last + run.offset < 0xD800 ||
      (0xDFFF < run.first + run.offset && run.last + run.offset < 0x110000))

/-- What a run maps to is in no run that it misses. -/
private theorem CaseRun.covers_image {run : CaseRun} {others : List CaseRun}
    (h : run.misses others = true) {n m : Nat} (hn : run.covers n = true)
    (hm : (m : Int) = n + run.offset) : ∀ other ∈ others, other.covers m = false := by
  intro other hother
  unfold misses at h
  split at h
  · rename_i low high hlow hhigh
    have havoids := List.all_eq_true.mp h other hother
    simp only [avoids, Bool.or_eq_true, Bool.and_eq_true, Nat.blt_eq, beq_iff_eq] at havoids
    simp only [covers, Bool.and_eq_true, decide_eq_true_eq, beq_iff_eq] at hn
    simp only [Int.ofNat_eq_natCast] at hlow hhigh
    by_contra hcovers
    simp only [covers, Bool.not_eq_false, Bool.and_eq_true, decide_eq_true_eq, beq_iff_eq]
      at hcovers
    -- the image is below the other run or above it, or both skip every second character and
    -- the other run has the ones that the image skips
    rcases havoids with (hbelow | habove) | ⟨⟨hrun, hstep⟩, hparity⟩
    · omega
    · omega
    · rw [hstep] at hcovers
      rcases hrun with hrun | hsingle
      · rw [hrun] at hn
        omega
      · omega
  · cases h

/-- The table maps to characters above `[`. -/
private theorem isHigh_lowerRuns : ∀ run ∈ lowerRuns, run.isHigh = true := by
  decide +kernel

/-- The table maps to no character that has another lower case. -/
private theorem misses_lowerRuns :
    ∀ run ∈ lowerRuns, run.misses (⟨0x130, 0x130, 1, 0⟩ :: lowerRuns) = true := by
  decide +kernel

/-! ## Characters -/

/-- A character that is its own lower case, wherever it stands. -/
structure IsLower (c : Char) : Prop where
  lowerChar_eq : lowerChar c = [c]
  ne_sigma : c ≠ 'Σ'

/-- An ASCII character that is no capital letter. -/
theorem isLower_of_ascii {c : Char} (h : c.toNat < 0x80)
    (hcapital : c.toNat < 0x41 ∨ 0x5A < c.toNat) : IsLower c := by
  have hno : ¬ (('A' ≤ c && c ≤ 'Z') = true) := by
    simp only [Bool.and_eq_true, decide_eq_true_eq, Char.le_def, UInt32.le_iff_toNat_le]
    change ¬ (0x41 ≤ c.toNat ∧ c.toNat ≤ 0x5A)
    omega
  refine ⟨by rw [lowerChar, if_pos h, asciiLower, if_neg hno], ?_⟩
  rintro rfl
  revert h
  decide

/-- A character that no run covers. -/
private theorem isLower_of_covers {c : Char} (hascii : 0x80 ≤ c.toNat)
    (h : ∀ run ∈ ⟨0x130, 0x130, 1, 0⟩ :: lowerRuns, run.covers c.toNat = false) : IsLower c := by
  rw [List.forall_mem_cons] at h
  have hdotted : c.toNat ≠ 0x130 := by
    intro hc
    rw [hc] at h
    exact absurd h.1 (by decide)
  have hsame : mapByRuns lowerRuns c = c := by
    have hnone : lowerRuns.find? (·.covers c.toNat) = none := by
      rw [List.find?_eq_none]
      intro run hrun
      simp [h.2 run hrun]
    rw [mapByRuns, hnone]
  refine ⟨by rw [lowerChar, if_neg (by omega), if_neg hdotted, hsame], ?_⟩
  rintro rfl
  have hsigma : ¬ ∀ run ∈ lowerRuns, run.covers ('Σ').toNat = false := by
    decide +kernel
  exact hsigma h.2

/-- What the table maps to, in terms of codes. -/
private theorem toNat_image {run : CaseRun} (hrun : run ∈ lowerRuns) {n : Nat}
    (hn : run.covers n = true) :
    ((Char.ofNat (Int.toNat (n + run.offset))).toNat : Int) = n + run.offset ∧
      0x5B < n + run.offset := by
  have hhigh := isHigh_lowerRuns run hrun
  simp only [CaseRun.isHigh, Bool.and_eq_true, Bool.or_eq_true, decide_eq_true_eq] at hhigh
  simp only [CaseRun.covers, Bool.and_eq_true, decide_eq_true_eq] at hn
  have hvalid : Nat.isValidChar (Int.toNat (n + run.offset)) := by
    unfold Nat.isValidChar
    omega
  rw [Char.ofNat, dif_pos hvalid]
  change ((Int.toNat (n + run.offset) : Nat) : Int) = _ ∧ _
  omega

/-- The lower case of a character is in lower case. It is the character itself, or above
    `[`. -/
private theorem isLower_of_mem_lowerChar {c d : Char} (h : d ∈ lowerChar c) :
    IsLower d ∧ (d = c ∨ 0x5B < d.toNat) := by
  unfold lowerChar at h
  split at h
  · rename_i hascii
    obtain rfl := List.mem_singleton.mp h
    unfold asciiLower
    split
    · rename_i hcapital
      simp only [Bool.and_eq_true, decide_eq_true_eq, Char.le_def, UInt32.le_iff_toNat_le]
        at hcapital
      have hrange : 0x41 ≤ c.toNat ∧ c.toNat ≤ 0x5A := hcapital
      have hcode : (Char.ofNat (c.toNat + 32)).toNat = c.toNat + 32 := by
        rw [Char.ofNat, dif_pos (Or.inl (by omega))]
        rfl
      exact ⟨isLower_of_ascii (by omega) (by omega), Or.inr (by omega)⟩
    · rename_i hcapital
      simp only [Bool.and_eq_true, decide_eq_true_eq, Char.le_def, UInt32.le_iff_toNat_le]
        at hcapital
      have hrange : ¬ (0x41 ≤ c.toNat ∧ c.toNat ≤ 0x5A) := hcapital
      exact ⟨isLower_of_ascii hascii (by omega), Or.inl rfl⟩
  · rename_i hascii
    split at h
    · -- a capital I with a dot becomes an i and a dot of its own
      have hi : IsLower 'i' := isLower_of_ascii (by decide) (by decide)
      have hdot : IsLower (Char.ofNat 0x307) := ⟨by decide +kernel, by decide⟩
      rcases List.mem_pair.mp h with rfl | rfl
      · exact ⟨hi, Or.inr (by decide)⟩
      · exact ⟨hdot, Or.inr (by decide)⟩
    · rename_i hdotted
      obtain rfl := List.mem_singleton.mp h
      unfold mapByRuns
      split
      · rename_i run hfind
        have hrun := List.mem_of_find?_eq_some hfind
        have hcovers : run.covers c.toNat = true := by simpa using List.find?_some hfind
        obtain ⟨hcode, hhigh⟩ := toNat_image hrun hcovers
        have hmissed := CaseRun.covers_image (misses_lowerRuns run hrun) hcovers hcode
        refine ⟨?_, Or.inr (by omega)⟩
        -- a letter outside ASCII, such as the Kelvin sign, may have an ASCII lower case
        rcases Nat.lt_or_ge (Char.ofNat (Int.toNat (c.toNat + run.offset))).toNat 0x80 with
          hlow | hnot
        · exact isLower_of_ascii hlow (by omega)
        · exact isLower_of_covers hnot hmissed
      · rename_i hfind
        refine ⟨isLower_of_covers (by omega) (List.forall_mem_cons.mpr ⟨?_, ?_⟩), Or.inl rfl⟩
        · simp only [CaseRun.covers, Bool.and_eq_false_iff, decide_eq_false_iff_not]
          omega
        · intro run hrun
          simpa using List.find?_eq_none.mp hfind run hrun

/-! ## Texts -/

/-- The characters of a text in lower case, and those of them up to `[`. -/
private theorem isLower_of_mem_lowerAfter {before cs : List Char} {d : Char}
    (h : d ∈ lowerAfter before cs) : IsLower d ∧ (d ∈ cs ∨ 0x5B < d.toNat) := by
  -- what comes before only decides between the two forms of sigma
  induction cs generalizing before with
  | nil => simp [lowerAfter] at h
  | cons c cs ih =>
    rw [lowerAfter, List.mem_append] at h
    rcases h with h | h
    · split at h
      · have hfinal : IsLower 'ς' := ⟨by decide +kernel, by decide⟩
        have hmedial : IsLower 'σ' := ⟨by decide +kernel, by decide⟩
        split at h
        · obtain rfl := List.mem_singleton.mp h
          exact ⟨hfinal, Or.inr (by decide)⟩
        · obtain rfl := List.mem_singleton.mp h
          exact ⟨hmedial, Or.inr (by decide)⟩
      · obtain ⟨hlower, hsame⟩ := isLower_of_mem_lowerChar h
        exact ⟨hlower, hsame.imp_left fun hd => List.mem_cons.mpr (Or.inl hd)⟩
    · obtain ⟨hlower, hsame⟩ := ih h
      exact ⟨hlower, hsame.imp_left (List.mem_cons_of_mem c)⟩

/-- A text in lower case is made of characters in lower case. -/
theorem isLower_of_mem_toLower {text : String} {c : Char} (h : c ∈ (toLower text).toList) :
    IsLower c := by
  rw [toLower, String.toList_ofList] at h
  exact (isLower_of_mem_lowerAfter h).1

/-- A character up to `[` of a text in lower case was there before. -/
theorem mem_of_mem_toLower {text : String} {c : Char} (hc : c.toNat ≤ 0x5B)
    (h : c ∈ (toLower text).toList) : c ∈ text.toList := by
  rw [toLower, String.toList_ofList] at h
  exact (isLower_of_mem_lowerAfter h).2.resolve_right (by omega)

/-- A text of characters in lower case is in lower case already. -/
theorem toLower_eq_self {text : String} (h : ∀ c ∈ text.toList, IsLower c) :
    toLower text = text := by
  have hchars (before cs : List Char) (h : ∀ c ∈ cs, IsLower c) : lowerAfter before cs = cs := by
    induction cs generalizing before with
    | nil => rfl
    | cons c cs ih =>
      rw [List.forall_mem_cons] at h
      rw [lowerAfter, if_neg h.1.ne_sigma, h.1.lowerChar_eq, ih _ h.2]
      rfl
  rw [toLower, hchars [] _ h, String.ofList_toList]

end RunPlan.Text
