import Eligibility.Json.Reader
import Eligibility.Json.Writer

/-!
# RoundTrip — a written document is read back

The escapes of a string are undone one character at a time: each stands for one code unit, and the
code units of characters are no surrogates.  A document is read back when its parts are, whatever
follows it, and its own length is enough fuel.

* `Json.readUnits_escape`, `Json.joinUnits_toNat`, `Json.readString_quoted` — strings;
* `Json.WrittenAs` — a document with a text that is read back;
* `Json.writtenAs_null`, `Json.writtenAs_ofString`, `Json.exists_writtenAs_ofMembers` — how such
  documents are built;
* `Json.read_text` — the whole text.
-/

namespace Eligibility
namespace Json

/-! ## Strings -/

theorem hexValue?_hexDigit {n : Nat} (h : n < 16) : hexValue? (hexDigit n) = some n := by
  have hall : ∀ n < 16, hexValue? (hexDigit n) = some n := by decide
  exact hall n h

theorem hexValue4?_control {n : Nat} (h : n < 0x20) :
    hexValue4? '0' '0' (hexDigit (n / 16)) (hexDigit (n % 16)) = some n := by
  have hzero : hexValue? '0' = some 0 := by decide
  have hhigh : n / 16 < 16 := by omega
  have hlow : n % 16 < 16 := Nat.mod_lt n (by decide)
  simp only [hexValue4?, hzero, hexValue?_hexDigit hhigh, hexValue?_hexDigit hlow]
  congr 1
  omega

theorem readUnits_quote (rest : List Char) : readUnits ('"' :: rest) = some ([], rest) := by
  rw [readUnits.eq_def]
  simp

theorem readUnits_plain {c : Char} (hquote : c ≠ '"') (hbackslash : c ≠ '\\')
    (hcontrol : ¬ c.toNat < 0x20) (rest : List Char) :
    readUnits (c :: rest) = consUnit c.toNat (readUnits rest) := by
  rw [readUnits.eq_def]
  simp [hquote, hbackslash, hcontrol]

theorem readUnits_letter {kind c : Char} (hkind : kind ≠ 'u') (h : escaped? kind = some c)
    (rest : List Char) :
    readUnits ('\\' :: kind :: rest) = consUnit c.toNat (readUnits rest) := by
  rw [readUnits.eq_def]
  simp [hkind, h]

theorem readUnits_digits {a b c d : Char} {unit : Nat} (h : hexValue4? a b c d = some unit)
    (rest : List Char) :
    readUnits ('\\' :: 'u' :: a :: b :: c :: d :: rest) = consUnit unit (readUnits rest) := by
  rw [readUnits.eq_def]
  simp [h]

/-- An escaped character is one code unit. -/
theorem readUnits_escape (c : Char) (rest : List Char) :
    readUnits (escape c ++ rest) = consUnit c.toNat (readUnits rest) := by
  -- the cases are those of `escape`, in its order
  fun_cases escape c with
  | case1 hquoted =>
    rcases hquoted with rfl | rfl
    · exact readUnits_letter (by decide) (by decide) rest
    · exact readUnits_letter (by decide) (by decide) rest
  | case2 _ hletter | case3 _ _ hletter | case4 _ _ _ hletter | case5 _ _ _ _ hletter
  | case6 _ _ _ _ _ hletter =>
    subst hletter
    exact readUnits_letter (by decide) (by decide) rest
  | case7 _ _ _ _ _ _ hcontrol => exact readUnits_digits (hexValue4?_control hcontrol) rest
  | case8 hquoted _ _ _ _ _ hcontrol =>
    rw [not_or] at hquoted
    exact readUnits_plain hquoted.1 hquoted.2 hcontrol rest

theorem joinUnits_cons {unit : Nat} (hhigh : isHighSurrogate unit = false)
    (hlow : isLowSurrogate unit = false) (units : List Nat) :
    joinUnits (unit :: units) = (joinUnits units).map (Char.ofNat unit :: ·) := by
  cases units with
  | nil => simp [joinUnits, hhigh, hlow]
  | cons next units => simp [joinUnits, hhigh, hlow]

/-- No character is half a surrogate pair. -/
theorem joinUnits_toNat (cs : List Char) : joinUnits (cs.map Char.toNat) = some cs := by
  induction cs with
  | nil => rfl
  | cons c cs ih =>
    have hvalid : c.toNat < 0xD800 ∨ 0xDFFF < c.toNat := by
      rcases c.valid with hlow | ⟨hhigh, _⟩
      · exact .inl hlow
      · exact .inr hhigh
    have hhigh : isHighSurrogate c.toNat = false := by
      simp only [isHighSurrogate, Bool.and_eq_false_iff, decide_eq_false_iff_not]
      omega
    have hlow : isLowSurrogate c.toNat = false := by
      simp only [isLowSurrogate, Bool.and_eq_false_iff, decide_eq_false_iff_not]
      omega
    rw [List.map_cons, joinUnits_cons hhigh hlow, ih, Char.ofNat_toNat]
    rfl

/-- A text between quotes, with its escapes. -/
def quoted (text : String) : List Char :=
  '"' :: (text.toList.flatMap escape ++ ['"'])

theorem writeStringOnto_eq (text : String) (rest : List Char) :
    writeStringOnto text rest = quoted text ++ rest := by
  have hchars : ∀ cs, writeCharsOnto cs rest = cs.flatMap escape ++ '"' :: rest := by
    intro cs
    induction cs with
    | nil => rfl
    | cons c cs ih => rw [writeCharsOnto, ih, List.flatMap_cons, List.append_assoc]
  simp [writeStringOnto, hchars, quoted]

theorem readUnits_flatMap_escape (cs rest : List Char) :
    readUnits (cs.flatMap escape ++ '"' :: rest) = some (cs.map Char.toNat, rest) := by
  induction cs with
  | nil => exact readUnits_quote rest
  | cons c cs ih =>
    rw [List.flatMap_cons, List.append_assoc, readUnits_escape, ih]
    rfl

theorem readString_quoted (text : String) (rest : List Char) :
    readString (text.toList.flatMap escape ++ '"' :: rest) = some (some text, rest) := by
  rw [readString, readUnits_flatMap_escape]
  simp [joinUnits_toNat]

/-! ## Documents -/

/-- The document is written as a text, and read back from it whatever follows.  The fuel that is due
grows with the text. -/
structure WrittenAs (json : Json) (cs : List Char) : Prop where
  writeOnto_eq : ∀ rest, json.writeOnto rest = cs ++ rest
  readValue_eq : ∀ fuel rest, cs.length ≤ fuel → readValue fuel (cs ++ rest) = (json, rest)

theorem skipBlanks_cons {c : Char} (h : isBlank c = false) (rest : List Char) :
    skipBlanks (c :: rest) = c :: rest := by
  simp [skipBlanks, h]

theorem readKeyword_append (keyword : String) (value : Json) (rest : List Char) :
    readKeyword keyword value (keyword.toList ++ rest) = (value, rest) := by
  have hafter : ∀ cs : List Char, afterKeyword? cs (cs ++ rest) = some rest := by
    intro cs
    induction cs with
    | nil => rfl
    | cons c cs ih => simpa [afterKeyword?] using ih
  rw [readKeyword, hafter]

theorem writtenAs_null : WrittenAs null "null".toList where
  writeOnto_eq _ := rfl
  readValue_eq := by
    intro fuel rest hfuel
    cases fuel with
    | zero => cases hfuel
    | succ fuel =>
      have hn : isBlank 'n' = false := by decide
      have hskip : skipBlanks ("null".toList ++ rest) = "null".toList ++ rest :=
        skipBlanks_cons hn ('u' :: 'l' :: 'l' :: rest)
      rw [readValue, hskip]
      exact readKeyword_append "null" null rest

theorem writtenAs_ofString (text : String) : WrittenAs (ofString text) (quoted text) where
  writeOnto_eq := writeStringOnto_eq text
  readValue_eq := by
    intro fuel rest hfuel
    cases fuel with
    | zero => cases hfuel
    | succ fuel =>
      have hquote : isBlank '"' = false := by decide
      rw [quoted, List.cons_append, List.append_assoc, readValue, skipBlanks_cons hquote]
      simp [readScalar, readString_quoted, ofString]

/-! ## Objects -/

theorem readKey?_quoted (key : String) (rest : List Char) :
    readKey? (quoted key ++ rest) = some (some key, rest) := by
  have hquote : isBlank '"' = false := by decide
  rw [readKey?, quoted, List.cons_append, List.append_assoc, skipBlanks_cons hquote]
  exact readString_quoted key rest

section Member

variable {value : Json} {cs : List Char} {fuel : Nat}

theorem readMember_close (h : WrittenAs value cs) (hfuel : cs.length ≤ fuel) (key : String)
    (rest : List Char) :
    readMember (fuel + 1) (quoted key ++ ':' :: (cs ++ '}' :: rest)) =
      (.member (some key) value .done, rest) := by
  have hcolon : isBlank ':' = false := by decide
  have hclose : isBlank '}' = false := by decide
  have hvalue := h.readValue_eq fuel ('}' :: rest) hfuel
  simp only [readMember, readKey?_quoted, skipBlanks_cons hcolon, hvalue, skipBlanks_cons hclose]

theorem readMember_comma (h : WrittenAs value cs) (hfuel : cs.length ≤ fuel) (key : String)
    (rest : List Char) :
    readMember (fuel + 1) (quoted key ++ ':' :: (cs ++ ',' :: rest)) =
      (.member (some key) value (readMember fuel rest).1, (readMember fuel rest).2) := by
  have hcolon : isBlank ':' = false := by decide
  have hcomma : isBlank ',' = false := by decide
  have hvalue := h.readValue_eq fuel (',' :: rest) hfuel
  simp only [readMember, readKey?_quoted, skipBlanks_cons hcolon, hvalue, skipBlanks_cons hcomma]

end Member

/-- The rest of an object with the given members, in order. -/
def Members.ofList (members : List (String × Json)) : Members :=
  members.foldr (fun m tail => .member (some m.1) m.2 tail) .done

theorem ofMembers_eq (members : List (String × Json)) :
    ofMembers members = object (Members.ofList members) :=
  rfl

/-- Members whose values are read back are read back, from the first key to the closing brace. -/
theorem exists_writtenAs_member (first : String × Json) (rest : List (String × Json))
    (h : ∀ m ∈ first :: rest, ∃ cs, WrittenAs m.2 cs) :
    ∃ cs, (∀ after, writeStringOnto first.1
        (':' :: first.2.writeOnto ((Members.ofList rest).writeOnto after)) = cs ++ after) ∧
      ∀ fuel after, cs.length ≤ fuel + 1 →
        readMember fuel (cs ++ after) = (Members.ofList (first :: rest), after) := by
  induction rest generalizing first with
  | nil =>
    rcases h first List.mem_cons_self with ⟨cs, hcs⟩
    refine ⟨quoted first.1 ++ ':' :: (cs ++ ['}']), ?_, ?_⟩
    · intro after
      rw [writeStringOnto_eq, hcs.writeOnto_eq]
      simp [Members.ofList, Members.writeOnto]
    · intro fuel after hfuel
      cases fuel with
      | zero => simp [quoted] at hfuel
      | succ fuel =>
        have hvalue : cs.length ≤ fuel := by
          simp only [List.length_append, List.length_cons] at hfuel
          omega
        have hmember := readMember_close hcs hvalue first.1 after
        simpa [Members.ofList] using hmember
  | cons next rest ih =>
    rcases h first List.mem_cons_self with ⟨cs, hcs⟩
    rcases ih next fun m hm => h m (List.mem_cons_of_mem _ hm) with ⟨cs', hwrite, hread⟩
    refine ⟨quoted first.1 ++ ':' :: (cs ++ ',' :: cs'), ?_, ?_⟩
    · intro after
      have htail : (Members.ofList (next :: rest)).writeOnto after = ',' :: (cs' ++ after) :=
        congrArg (',' :: ·) (hwrite after)
      rw [writeStringOnto_eq, hcs.writeOnto_eq, htail]
      simp
    · intro fuel after hfuel
      cases fuel with
      | zero => simp [quoted] at hfuel
      | succ fuel =>
        -- value and tail get the same fuel, and both are shorter than the whole
        simp only [List.length_append, List.length_cons] at hfuel
        have hvalue : cs.length ≤ fuel := by omega
        have htail : cs'.length ≤ fuel + 1 := by omega
        have hmember := readMember_comma hcs hvalue first.1 (cs' ++ after)
        rw [hread fuel after htail] at hmember
        simpa [Members.ofList] using hmember

theorem exists_writtenAs_ofMembers (members : List (String × Json))
    (h : ∀ m ∈ members, ∃ cs, WrittenAs m.2 cs) : ∃ cs, WrittenAs (ofMembers members) cs := by
  have hopen : isBlank '{' = false := by decide
  cases members with
  | nil =>
    refine ⟨['{', '}'], fun _ => rfl, ?_⟩
    intro fuel rest hfuel
    have hclose : isBlank '}' = false := by decide
    simp only [List.length_cons, List.length_nil] at hfuel
    obtain ⟨fuel, rfl⟩ : ∃ n, fuel = n + 2 := ⟨fuel - 2, by omega⟩
    simp [readValue, readMembers, skipBlanks_cons hopen, skipBlanks_cons hclose, ofMembers]
  | cons first rest =>
    rcases exists_writtenAs_member first rest h with ⟨cs, hwrite, hread⟩
    refine ⟨'{' :: cs, ?_, ?_⟩
    · intro after
      exact congrArg ('{' :: ·) (hwrite after)
    · intro fuel after hfuel
      -- the text of a member starts with the quote of its key, not with a closing brace
      have hquote : isBlank '"' = false := by decide
      have hhead := hwrite []
      rw [List.append_nil] at hhead
      obtain ⟨key, rfl⟩ : ∃ key, cs = '"' :: key := ⟨_, hhead.symm⟩
      simp only [List.length_cons] at hfuel
      obtain ⟨fuel, rfl⟩ : ∃ n, fuel = n + 2 := ⟨fuel - 2, by omega⟩
      have hmember := hread fuel after (Nat.le_of_succ_le_succ hfuel)
      rw [List.cons_append] at hmember
      simp [readValue, readMembers, skipBlanks_cons hopen, skipBlanks_cons hquote, hmember,
        ofMembers_eq]

/-- A written document is what its whole text is read as. -/
theorem read_text {json : Json} (h : ∃ cs, WrittenAs json cs) :
    read json.text.toList = (json, []) := by
  rcases h with ⟨cs, hcs⟩
  have htext : json.text.toList = cs := by
    rw [text, hcs.writeOnto_eq, List.append_nil, String.toList_ofList]
  have hread := hcs.readValue_eq (3 * cs.length + 3) [] (by omega)
  rw [List.append_nil] at hread
  rw [read, htext, hread]

end Json
end Eligibility
