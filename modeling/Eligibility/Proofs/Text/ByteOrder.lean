import Mathlib.Tactic.SplitIfs
import Eligibility.Snapshot.Payload

/-!
# ByteOrder — the order of texts is the order of their bytes

Texts are compared character by character, and their UTF-8 forms byte by byte.  A character of a
greater code point has a form with a greater byte at the first place where the forms differ,
whatever their lengths, so that both comparisons agree.

* `utf8EncodeChar_append_lt` — two characters, with anything behind them;
* `utf8_lt_utf8_iff` — two texts.
-/

namespace Eligibility
namespace Text

open Snapshot.Payload (utf8)

theorem utf8_eq_flatMap (s : String) : utf8 s = s.toList.flatMap String.utf8EncodeChar := by
  conv => lhs; rw [← String.ofList_toList (s := s)]
  simp only [utf8, String.toUTF8, String.toByteArray_ofList, List.utf8Encode]
  simp

/-- The greater character has the greater bytes, also in front of other bytes. -/
theorem utf8EncodeChar_append_lt {c d : Char} (h : c < d) (rest rest' : List UInt8) :
    String.utf8EncodeChar c ++ rest < String.utf8EncodeChar d ++ rest' := by
  have hlt : c.val.toNat < d.val.toNat := h
  have hmax : d.val.toNat < 0x110000 := by
    rcases d.valid with hlow | hhigh
    · exact Nat.lt_trans hlow (by decide)
    · exact hhigh.2
  -- the continuation bytes hold the digits of the code point to the base 64
  have hdigits : ∀ n,
      n = n / 262144 * 262144 + n / 4096 % 64 * 4096 + n / 64 % 64 * 64 + n % 64 := by
    omega
  simp only [String.utf8EncodeChar]
  generalize c.val.toNat = m at hlt
  generalize d.val.toNat = n at hlt hmax
  have hm := hdigits m
  have hn := hdigits n
  -- one case for each pair of lengths
  split_ifs
  all_goals simp (disch := omega) only [List.cons_append, List.nil_append, List.cons_lt_cons_iff,
    UInt8.lt_iff_toNat_lt, ← UInt8.toNat_inj, UInt8.toNat_ofNat', Nat.mod_eq_of_lt]
  all_goals omega

theorem flatMap_utf8EncodeChar_lt {cs ds : List Char} (h : cs < ds) :
    cs.flatMap String.utf8EncodeChar < ds.flatMap String.utf8EncodeChar := by
  induction cs generalizing ds with
  | nil =>
    cases ds with
    | nil => exact absurd h (List.lt_irrefl [])
    | cons d ds =>
      have hne : String.utf8EncodeChar d ≠ [] := by simp
      cases hbytes : String.utf8EncodeChar d with
      | nil => exact absurd hbytes hne
      | cons b bytes => simp [hbytes]
  | cons c cs ih =>
    cases ds with
    | nil => exact absurd h (List.not_lt_nil _)
    | cons d ds =>
      rcases List.cons_lt_cons_iff.1 h with hlt | ⟨rfl, hrest⟩
      · exact utf8EncodeChar_append_lt hlt _ _
      · exact List.append_left_lt (ih hrest)

/-- Texts stand in the order of their UTF-8 forms. -/
theorem utf8_lt_utf8_iff {s t : String} : utf8 s < utf8 t ↔ s < t := by
  have hlt : ∀ {s t : String}, s < t → utf8 s < utf8 t := by
    intro s t h
    rw [utf8_eq_flatMap, utf8_eq_flatMap]
    exact flatMap_utf8EncodeChar_lt h
  constructor
  · intro h
    by_cases hst : s < t
    · exact hst
    · -- otherwise the texts are equal or stand the other way round, and so do their bytes
      by_cases hts : t < s
      · exact absurd (hlt hts) (List.lt_asymm h)
      · rw [String.le_antisymm hts hst] at h
        exact absurd h (List.lt_irrefl _)
  · exact hlt

end Text
end Eligibility
