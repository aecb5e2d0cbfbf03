import Mathlib.Algebra.Order.Ring.Nat
import Eligibility.Instant.Text

/-!
# RoundTrip — the written form of an instant names that instant

Every number of the written form has its full width or ends before a mark, so that each reader
takes just the digits that were written.

* `Instant.readNumber_append` — a number in front of anything that does not go on with it;
* `Instant.readPart_padded`, `Instant.readYear_yearText`, `Instant.readFraction_fractionText` — the
  parts of an instant;
* `Instant.readFields_chars` — all parts in a row;
* `Instant.ofText?_text` — the instant of its own text.
-/

namespace Eligibility
namespace Instant

/-! ## Digits -/

theorem value_eq_ofDigitChars (cs : List Char) : value cs = Nat.ofDigitChars 10 cs 0 := by
  simp [value, Numeral.ofDigits, Nat.ofDigitChars_eq_foldl, List.foldl_map, Numeral.digit]

@[simp] theorem length_padded (width n : Nat) : (padded width n).length = width := by
  induction width generalizing n with
  | zero => rfl
  | succ width ih => simp [padded, ih]

theorem isDigit_of_mem_padded {width n : Nat} {c : Char} (h : c ∈ padded width n) :
    c.isDigit = true := by
  induction width generalizing n with
  | zero => cases h
  | succ width ih =>
    rw [padded, List.mem_append, List.mem_singleton] at h
    rcases h with hrest | rfl
    · exact ih hrest
    · have hlt := Nat.mod_lt n (show 10 > 0 by decide)
      simp [Nat.isDigit_digitChar, hlt]

theorem value_padded {width n : Nat} (h : n < 10 ^ width) : value (padded width n) = n := by
  rw [value_eq_ofDigitChars]
  induction width generalizing n with
  | zero =>
    have hn : n = 0 := by simpa using h
    rw [hn]
    rfl
  | succ width ih =>
    have hsmall : n / 10 < 10 ^ width := by
      rw [Nat.pow_succ] at h
      exact (Nat.div_lt_iff_lt_mul (by decide)).2 h
    have hlt := Nat.mod_lt n (show 10 > 0 by decide)
    rw [padded, Nat.ofDigitChars_append, ih hsmall, Nat.ofDigitChars_cons_digitChar_of_lt_ten hlt,
      Nat.ofDigitChars_nil]
    exact Nat.div_add_mod n 10

/-! ## Numbers -/

/-- A text with which no number goes on. -/
def StopsNumber : List Char → Prop
  | [] => True
  | c :: _ => c.isDigit = false

theorem takeWhile_isDigit_append {digits rest : List Char}
    (hdigits : ∀ c ∈ digits, c.isDigit = true) (hrest : StopsNumber rest) :
    (digits ++ rest).takeWhile Char.isDigit = digits := by
  rw [List.takeWhile_append_of_pos hdigits]
  cases rest with
  | nil => simp
  | cons c rest =>
    have hc : c.isDigit = false := hrest
    simp [hc]

/-- A number of at most the given width is read up to the place where it stops. -/
theorem readNumber_append {width : Nat} {digits rest : List Char}
    (hdigits : ∀ c ∈ digits, c.isDigit = true) (hne : digits ≠ []) (hwidth : digits.length ≤ width)
    (hrest : StopsNumber rest ∨ digits.length = width) :
    readNumber width (digits ++ rest) = some (value digits, rest) := by
  have htake : ((digits ++ rest).take width).takeWhile Char.isDigit = digits := by
    rw [List.take_append, List.take_of_length_le hwidth]
    refine takeWhile_isDigit_append hdigits ?_
    -- a number of full width stops because nothing of the rest is looked at
    rcases hrest with hstop | hfull
    · cases rest with
      | nil => simp [StopsNumber]
      | cons c rest =>
        cases width - digits.length with
        | zero => trivial
        | succ _ => exact hstop
    · simp [hfull, StopsNumber]
  simp [readNumber, htake, hne]

theorem readNumber_padded {width n : Nat} (hwidth : 0 < width) (h : n < 10 ^ width)
    (rest : List Char) : readNumber width (padded width n ++ rest) = some (n, rest) := by
  have hne : padded width n ≠ [] := by
    intro hnil
    have hlength := length_padded width n
    rw [hnil] at hlength
    exact absurd hlength (Nat.ne_of_lt hwidth)
  have hfull := length_padded width n
  have hread : readNumber width (padded width n ++ rest) = some (value (padded width n), rest) :=
    readNumber_append (fun c hc => isDigit_of_mem_padded hc) hne (Nat.le_of_eq hfull) (.inr hfull)
  rwa [value_padded h] at hread

/-! ## Parts -/

theorem isBlank_of_isDigit {c : Char} (h : c.isDigit = true) : Text.isBlank c = false := by
  have hrange : 48 ≤ c.toNat ∧ c.toNat ≤ 57 := Char.isDigit_iff_toNat.1 h
  simp only [Text.isBlank, Text.inRanges, Text.blankRanges, List.any_cons, List.any_nil,
    Bool.or_false, Bool.or_eq_false_iff, Bool.and_eq_false_iff, decide_eq_false_iff_not]
  omega

theorem skipBlanks_cons {c : Char} (h : Text.isBlank c = false) (cs : List Char) :
    skipBlanks (c :: cs) = c :: cs := by
  simp [skipBlanks, h]

theorem padded_eq_cons {width : Nat} (h : 0 < width) (n : Nat) :
    ∃ c cs, padded width n = c :: cs ∧ c.isDigit = true := by
  cases hpadded : padded width n with
  | nil =>
    have hlength := length_padded width n
    rw [hpadded] at hlength
    exact absurd hlength (Nat.ne_of_lt h)
  | cons c cs =>
    have hmem : c ∈ padded width n := by simp [hpadded]
    exact ⟨c, cs, rfl, isDigit_of_mem_padded hmem⟩

theorem readPart_padded {width n : Nat} (hwidth : 0 < width) (h : n < 10 ^ width)
    (rest : List Char) : readPart width (padded width n ++ rest) = some (n, rest) := by
  rcases padded_eq_cons hwidth n with ⟨c, cs, hcs, hc⟩
  have hread := readNumber_padded hwidth h rest
  rw [readPart, hcs, List.cons_append, skipBlanks_cons (isBlank_of_isDigit hc)]
  rwa [hcs] at hread

theorem readMarkedPart_padded {mark : Char} {width n : Nat} (hmark : Text.isBlank mark = false)
    (hwidth : 0 < width) (h : n < 10 ^ width) (rest : List Char) :
    readMarkedPart mark width (mark :: (padded width n ++ rest)) = some (n, rest) := by
  rw [readMarkedPart, skipBlanks_cons hmark]
  simp [readPart_padded hwidth h]

/-- A year that starts with a digit is read without a sign. -/
theorem readYear_of_isDigit {c : Char} (h : c.isDigit = true) (cs : List Char) :
    readYear (c :: cs) = (readNumber 4 (c :: cs)).map fun r => ((r.1 : Int), r.2) := by
  have hminus : c ≠ '-' := by
    rintro rfl
    exact absurd h (by decide)
  have hplus : c ≠ '+' := by
    rintro rfl
    exact absurd h (by decide)
  rw [readYear, skipBlanks_cons (isBlank_of_isDigit h)]
  simp [hminus, hplus]

/-- The digits of a year that has a sign: all of them, and at least four. -/
def yearDigits (n : Nat) : List Char :=
  List.replicate (4 - (Nat.toDigits 10 n).length) '0' ++ Nat.toDigits 10 n

theorem isDigit_of_mem_yearDigits {n : Nat} {c : Char} (h : c ∈ yearDigits n) :
    c.isDigit = true := by
  rcases List.mem_append.1 h with hzero | hdigit
  · rw [(List.mem_replicate.1 hzero).2]
    decide
  · exact Nat.isDigit_of_mem_toDigits (by decide) (by decide) hdigit

theorem readNumber_yearDigits (n : Nat) (rest : List Char) :
    readNumber (yearDigits n ++ '-' :: rest).length (yearDigits n ++ '-' :: rest) =
      some (n, '-' :: rest) := by
  have hne : yearDigits n ≠ [] := by
    simp [yearDigits, Nat.toDigits_ne_nil]
  have hvalue : value (yearDigits n) = n := by
    simp [yearDigits, value_eq_ofDigitChars, Nat.ofDigitChars_append]
  have hstop : StopsNumber ('-' :: rest) := by
    show Char.isDigit '-' = false
    decide
  have hwidth : (yearDigits n).length ≤ (yearDigits n ++ '-' :: rest).length := by simp
  have hread := readNumber_append (fun c hc => isDigit_of_mem_yearDigits hc) hne hwidth (.inl hstop)
  rwa [hvalue] at hread

theorem readYear_yearText (year : Int) (rest : List Char) :
    readYear (yearText year ++ '-' :: rest) = some (year, '-' :: rest) := by
  by_cases hplain : 0 ≤ year ∧ year ≤ 9999
  · have hsmall : year.toNat < 10 ^ 4 := by omega
    rcases padded_eq_cons (show 0 < 4 by decide) year.toNat with ⟨c, cs, hcs, hc⟩
    have hread := readNumber_padded (by decide) hsmall ('-' :: rest)
    rw [hcs, List.cons_append] at hread
    rw [yearText, if_pos hplain, hcs, List.cons_append, readYear_of_isDigit hc, hread]
    simp [Int.toNat_of_nonneg hplain.1]
  · -- a signed year takes all digits up to the mark, and the mark is the next `-`
    have hread := readNumber_yearDigits year.natAbs rest
    by_cases hsign : year < 0
    · have htext : yearText year = '-' :: yearDigits year.natAbs := by
        simp [yearText, hplain, hsign, yearDigits]
      have hneg : -(year.natAbs : Int) = year := by omega
      rw [htext, List.cons_append, readYear, skipBlanks_cons (by decide)]
      simp only [hread, Option.map_some, hneg]
    · have htext : yearText year = '+' :: yearDigits year.natAbs := by
        simp [yearText, hplain, hsign, yearDigits]
      have hpos : (year.natAbs : Int) = year := by omega
      rw [htext, List.cons_append, readYear, skipBlanks_cons (by decide)]
      simp only [hread, Option.map_some, hpos]

/-- A fraction of some digits counts in units of the last of them. -/
theorem readFraction_padded {width n : Nat} (hwidth : 0 < width) (hwidth' : width ≤ 9)
    (h : n < 10 ^ width) :
    readFraction ('.' :: (padded width n ++ ['Z'])) = some (n * 10 ^ (9 - width), ['Z']) := by
  have hdigits : ∀ c ∈ padded width n, c.isDigit = true := fun c hc => isDigit_of_mem_padded hc
  have hstop : StopsNumber ['Z'] := by
    show Char.isDigit 'Z' = false
    decide
  have htake := takeWhile_isDigit_append hdigits hstop
  have hdrop : (padded width n ++ ['Z']).dropWhile Char.isDigit = ['Z'] := by
    rw [List.dropWhile_append_of_pos hdigits]
    rfl
  have hcount : (padded width n).take 9 = padded width n :=
    List.take_of_length_le (by simpa using hwidth')
  rcases padded_eq_cons hwidth n with ⟨c, cs, hcs, _⟩
  have hne : (padded width n).isEmpty = false := by
    rw [hcs]
    rfl
  simp [readFraction, htake, hdrop, hcount, hne, value_padded h]

theorem readFraction_fractionText {nano : Nat} (h : nano < 10 ^ 9) :
    readFraction (fractionText nano ++ ['Z']) = some (nano, ['Z']) := by
  -- as many groups of three digits as are exact
  by_cases hzero : nano = 0
  · rw [hzero]
    rfl
  · by_cases hmilli : nano % 1000000 = 0
    · have hsmall : nano / 1000000 < 10 ^ 3 := by omega
      have hread := readFraction_padded (by decide) (by decide) hsmall
      have hexact : nano / 1000000 * 10 ^ (9 - 3) = nano := by omega
      rw [hexact] at hread
      simpa [fractionText, hzero, hmilli] using hread
    · by_cases hmicro : nano % 1000 = 0
      · have hsmall : nano / 1000 < 10 ^ 6 := by omega
        have hread := readFraction_padded (by decide) (by decide) hsmall
        have hexact : nano / 1000 * 10 ^ (9 - 6) = nano := by omega
        rw [hexact] at hread
        simpa [fractionText, hzero, hmilli, hmicro] using hread
      · have hread := readFraction_padded (by decide) (by decide) h
        simpa [fractionText, hzero, hmilli, hmicro] using hread

/-! ## Instants -/

theorem daysIn_lt (year : Int) (month : Nat) : daysIn year month < 100 := by
  unfold daysIn
  repeat' split
  all_goals omega

theorem readFields_chars (i : Instant) : readFields i.chars = some ((i.toFields, 0), []) := by
  rcases i with ⟨⟨year, month, day, hour, minute, second, nano⟩, hvalid⟩
  rcases hvalid with ⟨_, ⟨_, hmonth⟩, ⟨_, hday⟩, hhour, hminute, hsecond, hnano⟩
  have hdays := daysIn_lt year month
  simp only at hmonth hday hhour hminute hsecond hnano
  -- every part but the year fits into two digits
  have hmonth' : month < 10 ^ 2 := by omega
  have hday' : day < 10 ^ 2 := by omega
  have hhour' : hour < 10 ^ 2 := by omega
  have hminute' : minute < 10 ^ 2 := by omega
  have hsecond' : second < 10 ^ 2 := by omega
  have hdash : Text.isBlank '-' = false := by decide
  have hcolon : Text.isBlank ':' = false := by decide
  have hzone : readZone (skipBlanks ['Z']) = some (0, []) := by decide
  simp [readFields, chars, List.append_assoc, readYear_yearText, readSeparator, hzone,
    readMarkedPart_padded hdash (by decide) hmonth', readMarkedPart_padded hdash (by decide) hday',
    readPart_padded (by decide) hhour', readMarkedPart_padded hcolon (by decide) hminute',
    readMarkedPart_padded hcolon (by decide) hsecond', readFraction_fractionText hnano]

theorem shift_zero {f : Fields} (hhour : f.hour ≤ 23) (hminute : f.minute ≤ 59) :
    f.shift 0 = f := by
  rcases f with ⟨year, month, day, hour, minute, second, nano⟩
  simp only at hhour hminute
  have hstart : ¬ ((hour : Int) * 60 + minute - 0 < 0) := by omega
  have hend : ¬ (1440 ≤ (hour : Int) * 60 + minute - 0) := by omega
  have htotal : (((hour : Int) * 60 + minute - 0) % 1440).toNat = hour * 60 + minute := by omega
  have hhour' : (hour * 60 + minute) / 60 = hour := by omega
  have hminute' : (hour * 60 + minute) % 60 = minute := by omega
  simp only [Fields.shift, hstart, hend, htotal, hhour', hminute', if_false]

/-- The written form of an instant is read as that instant. -/
theorem ofText?_text (i : Instant) : ofText? i.text = some i := by
  have hself : ofFields? i.toFields = some i := by
    rw [ofFields?, dif_pos i.valid]
  have hshift : i.toFields.shift 0 = i.toFields :=
    shift_zero i.valid.2.2.2.1 i.valid.2.2.2.2.1
  -- the text is in UTC, so that the range of the parts is checked twice on the same parts
  simp [ofText?, text, readFields_chars, hself, hshift, skipBlanks]

end Instant
end Eligibility
