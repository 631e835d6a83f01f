import RunPlan.Proofs.Schedule

/-!
# The multiples of an interval in machine words

`multiples` counts in natural numbers, which do not overflow. A runner counts in words of
64 bits: it rounds the start of the range up to a multiple, walks from there in steps of
the interval, and narrows every word that it meets to an episode. The product and the sums
can wrap, and the narrowing can drop a word. This file defines the computation in words
(`multiplesWalk`) and proves that nothing of this happens.

The bridge is `UInt64.toNat`: the start of the walk is the start of the progression
(`toNat_wordStart`), and the walk yields a progression (`WordWalk.yields_progression`),
because a word that is yielded is an episode and leaves room for one more step.

## Key results

- `length_multiples`: the number of multiples in a range, by two divisions
- `WordWalk.Yields.unique`: a walk that ends yields one list of words
- `yields_multiples`: the walk ends, and its words are the multiples
- `exactMultiples`: no word that is computed reaches `2 ^ 33`
-/

namespace RunPlan

/-! ## The number of multiples -/

/-- A positive number rounded up, by the number before it. -/
private theorem add_sub_one_div {a n : Nat} (ha : 1 ≤ a) (hn : 0 < n) :
    (a + (n - 1)) / n = (a - 1) / n + 1 := by
  rw [← Nat.add_div_right _ hn]
  congr 1
  omega

/-- The start of a progression is not below the range. -/
theorem le_firstMultiple {n : Nat} (hn : 0 < n) (first : Nat) :
    max first 1 ≤ firstMultiple n first :=
  ((exists_eq_firstMultiple_add hn).mp ⟨0, by omega⟩).2

/-- The start of a progression is less than an interval above the range. -/
theorem firstMultiple_lt {n : Nat} (hn : 0 < n) (first : Nat) :
    firstMultiple n first < max first 1 + n := by
  have hle := Nat.div_mul_le_self (max first 1 + (n - 1)) n
  simp only [firstMultiple]
  omega

/-- The number of multiples in a range: those up to its end, less those before it. -/
theorem length_multiples (n first last : UInt32) :
    (multiples n first last).length =
      if n = 0 ∨ last < max first 1 then 0
      else last.toNat / n.toNat - ((max first 1).toNat - 1) / n.toNat := by
  simp only [multiples, firstMultiples, UInt32.lt_iff_toNat_lt, toNat_max_one]
  by_cases hzero : n = 0
  · rw [if_pos hzero, if_pos (.inl hzero), List.length_nil]
  have hn : 0 < n.toNat := toNat_pos hzero
  rw [if_neg hzero, length_progression hn]
  by_cases hempty : last.toNat < max first.toNat 1
  · have hstart := le_firstMultiple hn first.toNat
    have hnone : (last.toNat + n.toNat - firstMultiple n.toNat first.toNat) / n.toNat = 0 :=
      Nat.div_eq_of_lt (by omega)
    rw [if_pos (.inr hempty), hnone, Nat.min_zero]
  · -- the start is the multiple after those below the range
    have hcount : (last.toNat + n.toNat - firstMultiple n.toNat first.toNat) / n.toNat =
        last.toNat / n.toNat - (max first.toNat 1 - 1) / n.toNat := by
      rw [firstMultiple, add_sub_one_div (Nat.le_max_right _ _) hn, Nat.mul_comm,
        Nat.sub_mul_div, Nat.add_div_right _ hn]
      omega
    have hlimit : last.toNat / n.toNat < episodeLimit :=
      Nat.lt_of_le_of_lt (Nat.div_le_self _ _) last.toNat_lt
    rw [if_neg (by simp only [hzero, hempty, or_self, not_false_eq_true]), hcount]
    exact Nat.min_eq_right (Nat.le_trans (Nat.sub_le _ _) (Nat.le_of_lt hlimit))

/-! ## The computation in words -/

/-- The quotient of two words rounded up. -/
def wordDivCeil (a n : UInt64) : UInt64 :=
  if 0 < a % n then a / n + 1 else a / n

/-- Where a walk over the multiples of `n` starts: for zero, past every range. -/
def wordStart (n first : UInt32) : UInt64 :=
  if n = 0 then UInt64.ofNat (UInt64.size - 1)
  else wordDivCeil (max first 1).toUInt64 n.toUInt64 * n.toUInt64

/-- An inclusive range of words that is walked in steps. -/
structure WordWalk where
  current : UInt64
  last : UInt64
  step : UInt64

namespace WordWalk

/-- The next word of a walk and the walk after it, by a sum that wraps. -/
def next? (w : WordWalk) : Option (UInt64 × WordWalk) :=
  if w.current ≤ w.last then some (w.current, { w with current := w.current + w.step })
  else none

/-- A walk ends after these words. -/
inductive Yields : WordWalk → List UInt64 → Prop
  | done {w : WordWalk} : w.next? = none → Yields w []
  | more {w w' : WordWalk} {v : UInt64} {words : List UInt64} :
      w.next? = some (v, w') → Yields w' words → Yields w (v :: words)

/-- A walk that ends yields one list of words. -/
theorem Yields.unique {w : WordWalk} {words others : List UInt64} (h : w.Yields words)
    (h' : w.Yields others) : words = others := by
  induction h generalizing others with
  | done hnone =>
    cases h' with
    | done _ => rfl
    | more hsome _ => simp [hnone] at hsome
  | more hsome _ ih =>
    cases h' with
    | done hnone => simp [hsome] at hnone
    | more hsome' hrest =>
      obtain ⟨rfl, rfl⟩ := Prod.mk.inj (Option.some.inj (hsome.symm.trans hsome'))
      rw [ih hrest]

end WordWalk

/-- A word as an episode, where it is one. -/
def toEpisode? (v : UInt64) : Option UInt32 :=
  if v.toNat < UInt32.size then some v.toUInt32 else none

/-- The walk over the multiples of `n` from `first` to `last`. -/
def multiplesWalk (n first last : UInt32) : WordWalk where
  current := wordStart n first
  last := last.toUInt64
  step := (max n 1).toUInt64

/-! ## Nothing wraps -/

/-- Rounding a quotient up does not wrap for a dividend below the largest word. -/
theorem toNat_wordDivCeil {a n : UInt64} (hn : 0 < n.toNat) (ha : a.toNat < 2 ^ 64 - 1) :
    (wordDivCeil a n).toNat = (a.toNat + (n.toNat - 1)) / n.toNat := by
  have hdiv := Nat.div_add_mod a.toNat n.toNat
  have hmod := Nat.mod_lt a.toNat hn
  have hle : a.toNat / n.toNat ≤ a.toNat := Nat.div_le_self _ _
  simp only [wordDivCeil, UInt64.lt_iff_toNat_lt, UInt64.toNat_mod, UInt64.toNat_zero]
  symm
  split
  · rename_i hpos
    rw [UInt64.toNat_add, UInt64.toNat_div, UInt64.toNat_one, Nat.mod_eq_of_lt (by omega)]
    rw [Nat.div_eq_iff hn, Nat.add_mul, Nat.one_mul, Nat.mul_comm]
    omega
  · rename_i hzero
    rw [UInt64.toNat_div, Nat.div_eq_iff hn, Nat.mul_comm]
    omega

/-- The start of a walk is the start of the progression. -/
theorem toNat_wordStart {n : UInt32} (hn : n ≠ 0) (first : UInt32) :
    (wordStart n first).toNat = firstMultiple n.toNat first.toNat := by
  have hpos : 0 < n.toNat := toNat_pos hn
  have hfirst : (max first 1).toNat < 2 ^ 32 := (max first 1).toNat_lt
  have hlt : firstMultiple n.toNat first.toNat < max first.toNat 1 + n.toNat :=
    firstMultiple_lt hpos _
  have hnlt : n.toNat < 2 ^ 32 := n.toNat_lt
  rw [toNat_max_one] at hfirst
  rw [wordStart, if_neg hn, UInt64.toNat_mul,
    toNat_wordDivCeil (by rwa [UInt32.toNat_toUInt64])
      (by rw [UInt32.toNat_toUInt64, toNat_max_one]; omega),
    UInt32.toNat_toUInt64, UInt32.toNat_toUInt64, toNat_max_one]
  rw [firstMultiple] at hlt ⊢
  exact Nat.mod_eq_of_lt (by omega)

/-- A walk of positive steps to the last episode of a range yields a progression. -/
theorem WordWalk.yields_progression {step : UInt64} {last : UInt32} (hpos : 0 < step.toNat)
    (hstep : step.toNat < 2 ^ 32) (limit : Nat) (current : UInt64)
    (hlimit : last.toNat < current.toNat + limit) :
    Yields ⟨current, last.toUInt64, step⟩
      ((progression step.toNat last.toNat limit current.toNat).map UInt32.toUInt64) := by
  have hlast : last.toNat < 2 ^ 32 := last.toNat_lt
  have hle (v : UInt64) : v ≤ last.toUInt64 ↔ v.toNat ≤ last.toNat := by
    rw [UInt64.le_iff_toNat_le, UInt32.toNat_toUInt64]
  induction limit generalizing current with
  | zero =>
    have hgt : ¬current.toNat ≤ last.toNat := by omega
    rw [progression, List.map_nil]
    exact .done (by rw [next?, if_neg ((hle _).not.mpr hgt)])
  | succ limit ih =>
    rw [progression]
    split
    · rename_i hcurrent
      -- a word that is yielded is an episode, so the sum after it does not wrap
      have hnext : (current + step).toNat = current.toNat + step.toNat := by
        rw [UInt64.toNat_add, Nat.mod_eq_of_lt (by omega)]
      have hword : (UInt32.ofNat current.toNat).toUInt64 = current := by
        rw [← UInt64.toNat_inj, UInt32.toNat_toUInt64,
          UInt32.toNat_ofNat_of_lt' (by simp only [UInt32.size]; omega)]
      rw [List.map_cons, hword, ← hnext]
      refine .more (by rw [next?, if_pos ((hle _).mpr hcurrent)]) (ih _ ?_)
      omega
    · rename_i hgt
      rw [List.map_nil]
      exact .done (by rw [next?, if_neg ((hle _).not.mpr hgt)])

/-- The walk over the multiples of an interval yields them. -/
theorem yields_multiples (n first last : UInt32) :
    (multiplesWalk n first last).Yields ((multiples n first last).map UInt32.toUInt64) := by
  rw [multiples, firstMultiples]
  split
  · rename_i hzero
    have hlast : last.toNat < 2 ^ 32 := last.toNat_lt
    refine .done ?_
    rw [WordWalk.next?, if_neg]
    simp only [multiplesWalk, wordStart, if_pos hzero, UInt64.le_iff_toNat_le,
      UInt32.toNat_toUInt64, UInt64.toNat_ofNat', UInt64.size]
    omega
  · rename_i hn
    have hpos : 0 < n.toNat := toNat_pos hn
    have hstep : (max n 1).toUInt64.toNat = n.toNat := by
      rw [UInt32.toNat_toUInt64, toNat_max_one]
      omega
    have h := WordWalk.yields_progression (by rwa [hstep]) (by rw [hstep]; exact n.toNat_lt)
      episodeLimit (wordStart n first) (lt_add_episodeLimit last _)
    rwa [hstep, toNat_wordStart hn] at h

/-- Every word that is computed for the multiples of a positive `n` is below `2 ^ 33` and is
    the number that the operation gives without wrapping. -/
structure ExactMultiples (n first : UInt32) (words : List UInt64) : Prop where
  quotient : (wordDivCeil (max first 1).toUInt64 n.toUInt64).toNat =
    ((max first 1).toNat + (n.toNat - 1)) / n.toNat
  quotient_lt : (wordDivCeil (max first 1).toUInt64 n.toUInt64).toNat < 2 ^ 33
  start : (wordStart n first).toNat =
    (wordDivCeil (max first 1).toUInt64 n.toUInt64).toNat * n.toNat
  start_lt : (wordStart n first).toNat < 2 ^ 33
  next : ∀ v ∈ words, (v + (max n 1).toUInt64).toNat = v.toNat + n.toNat
  next_lt : ∀ v ∈ words, (v + (max n 1).toUInt64).toNat < 2 ^ 33

/-- No word wraps in the computation of the multiples of a positive interval. -/
theorem exactMultiples {n : UInt32} (hn : n ≠ 0) (first last : UInt32) :
    ExactMultiples n first ((multiples n first last).map UInt32.toUInt64) := by
  have hpos : 0 < n.toNat := toNat_pos hn
  have hnlt : n.toNat < 2 ^ 32 := n.toNat_lt
  have hfirst : (max first 1).toNat < 2 ^ 32 := (max first 1).toNat_lt
  have hquotient : (wordDivCeil (max first 1).toUInt64 n.toUInt64).toNat =
      ((max first 1).toNat + (n.toNat - 1)) / n.toNat := by
    rw [toNat_wordDivCeil (by rwa [UInt32.toNat_toUInt64])
      (by rw [UInt32.toNat_toUInt64]; omega), UInt32.toNat_toUInt64, UInt32.toNat_toUInt64]
  have hstart := toNat_wordStart hn first
  have hstart_lt : firstMultiple n.toNat first.toNat < max first.toNat 1 + n.toNat :=
    firstMultiple_lt hpos _
  have hnext : ∀ v ∈ (multiples n first last).map UInt32.toUInt64,
      (v + (max n 1).toUInt64).toNat = v.toNat + n.toNat ∧ v.toNat < 2 ^ 32 := by
    intro v hv
    obtain ⟨e, -, rfl⟩ := List.mem_map.mp hv
    have he : e.toNat < 2 ^ 32 := e.toNat_lt
    simp only [UInt64.toNat_add, UInt32.toNat_toUInt64, toNat_max_one]
    omega
  exact {
    quotient := hquotient
    quotient_lt := by
      have := Nat.div_le_self ((max first 1).toNat + (n.toNat - 1)) n.toNat
      omega
    start := by rw [hstart, hquotient, firstMultiple, toNat_max_one]
    start_lt := by
      rw [toNat_max_one] at hfirst
      omega
    next := fun v hv => (hnext v hv).1
    next_lt := fun v hv => by
      have := hnext v hv
      omega }

/-- The computation in words of the multiples of `n` from `first` to `last`: the walk ends,
    every word it yields is an episode and these are `multiples`, for a positive `n` nothing
    wraps, and the number of episodes is a difference of two quotients. -/
theorem multiples_computed_in_words (n first last : UInt32) :
    ∃ words, (∀ others, (multiplesWalk n first last).Yields others ↔ others = words) ∧
      words.map toEpisode? = (multiples n first last).map some ∧
      words.filterMap toEpisode? = multiples n first last ∧
      (n ≠ 0 → ExactMultiples n first words) ∧
      (multiples n first last).length =
        if n = 0 ∨ last < max first 1 then 0
        else last.toNat / n.toNat - ((max first 1).toNat - 1) / n.toNat := by
  have hends := yields_multiples n first last
  have hsome (e : UInt32) : toEpisode? e.toUInt64 = some e := by
    have he : e.toNat < UInt32.size := e.toNat_lt
    rw [toEpisode?, if_pos (by rwa [UInt32.toNat_toUInt64]), UInt32.toUInt32_toUInt64]
  have hmap : ((multiples n first last).map UInt32.toUInt64).map toEpisode? =
      (multiples n first last).map some := by
    rw [List.map_map]
    exact List.map_congr_left fun e _ => hsome e
  refine ⟨(multiples n first last).map UInt32.toUInt64, fun others => ?_, hmap, ?_,
    fun hn => exactMultiples hn first last, length_multiples n first last⟩
  · constructor
    · intro h
      exact h.unique hends
    · rintro rfl
      exact hends
  · rw [List.filterMap_map]
    simp only [Function.comp_def, hsome, List.filterMap_some]

end RunPlan
