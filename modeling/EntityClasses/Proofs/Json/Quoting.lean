import EntityClasses.Json.Quoted

/-! The ways of writing a text as a JSON string. Any character can be escaped, so a text has many
spellings; reading a string gives back the text whichever of them was chosen. -/

namespace EntityClasses

theorem Text.length_le_size (s : List Char) : s.length ≤ Text.size s := by
  induction s with
  | nil => exact Nat.le_refl 0
  | cons c cs ih =>
      have hsize := c.utf8Size_pos
      rw [List.length_cons, Text.size_cons]
      omega

namespace Json

/-- Four hexadecimal digits, in either case, that make a number. -/
structure IsHex (digits : List Char) (unit : Nat) : Prop where
  length : digits.length = 4
  number : Text.number? 16 digits = some unit

/-- The letters behind a backslash, with the characters that they stand for. -/
def letterEscapes : List (Char × Char) :=
  [('"', '"'), ('\\', '\\'), ('/', '/'), ('b', '\x08'), ('f', '\x0c'), ('n', '\n'), ('r', '\r'),
   ('t', '\t')]

/-- The ways of writing a character in a string: as it is, as a letter behind a backslash, by its code
point, or outside the basic plane by two surrogates. -/
inductive SpelledChar (c : Char) : List Char → Prop where
  | plain : c ≠ '"' → c ≠ '\\' → 0x20 ≤ c.toNat → SpelledChar c [c]
  | letter {letter : Char} : (letter, c) ∈ letterEscapes → SpelledChar c ['\\', letter]
  | codePoint {digits : List Char} : IsHex digits c.toNat → SpelledChar c ('\\' :: 'u' :: digits)
  | surrogates {leading trailing : List Char} : 0x10000 ≤ c.toNat →
      IsHex leading (0xD800 + (c.toNat - 0x10000) / 0x400) →
      IsHex trailing (0xDC00 + (c.toNat - 0x10000) % 0x400) →
      SpelledChar c ('\\' :: 'u' :: leading ++ '\\' :: 'u' :: trailing)

/-- The characters of a text one after the other, each in one of its ways. -/
inductive SpelledChars : List Char → List Char → Prop where
  | nil : SpelledChars [] []
  | cons {c : Char} {text s t : List Char} : SpelledChar c s → SpelledChars text t →
      SpelledChars (c :: text) (s ++ t)

/-- A text between quotes. -/
inductive SpelledString (text : String) : List Char → Prop where
  | quoted {s : List Char} : SpelledChars text.toList s → SpelledString text ('"' :: s ++ ['"'])

/-- A character is no surrogate. -/
theorem toNat_of_char (c : Char) : c.toNat < 0xD800 ∨ 0xDFFF < c.toNat ∧ c.toNat < 0x110000 :=
  c.valid

theorem pairChar_surrogates (c : Char) (hplane : 0x10000 ≤ c.toNat) :
    pairChar (0xD800 + (c.toNat - 0x10000) / 0x400) (0xDC00 + (c.toNat - 0x10000) % 0x400) = c := by
  have hcode : 0x10000 + (0xD800 + (c.toNat - 0x10000) / 0x400 - 0xD800) * 0x400 +
      (0xDC00 + (c.toNat - 0x10000) % 0x400 - 0xDC00) = c.toNat := by omega
  rw [pairChar, hcode, Char.ofNat_toNat]

namespace IsHex

variable {digits : List Char} {unit : Nat} (hhex : IsHex digits unit) (rest : List Char)
include hhex

theorem readHex_append : readHex (digits ++ rest) = .ok (unit, rest) := by
  obtain ⟨hlength, hnumber⟩ := hhex
  match digits, hlength with
  | [a, b, c, d], _ =>
      have hsize : ¬ Text.size ([a, b, c, d] : List Char) < 4 :=
        Nat.not_lt.mpr (Text.length_le_size [a, b, c, d])
      change readHex (a :: b :: c :: d :: rest) = _
      have htake : (a :: b :: c :: d :: rest).take 4 = [a, b, c, d] := rfl
      rw [readHex, htake, if_neg hsize, hnumber]

theorem readUnicode_codePoint (htrailing : isTrailing unit = false)
    (hleading : isLeading unit = false) :
    readUnicode (digits ++ rest) = .ok (Char.ofNat unit, 6) := by
  rw [readUnicode, hhex.readHex_append rest]
  dsimp only [bind, Except.bind]
  rw [if_neg (by simp [htrailing]), if_neg (by simp [hleading])]
  rfl

theorem readUnicode_surrogates {trailing : List Char} {low : Nat} (hlow : IsHex trailing low)
    (hnotTrailing : isTrailing unit = false) (hleading : isLeading unit = true)
    (htrailing : isTrailing low = true) :
    readUnicode (digits ++ '\\' :: 'u' :: (trailing ++ rest)) = .ok (pairChar unit low, 12) := by
  rw [readUnicode, hhex.readHex_append]
  dsimp only [bind, Except.bind]
  rw [if_neg (by simp [hnotTrailing]), if_pos hleading]
  dsimp only [expectInString]
  rw [if_pos rfl]
  dsimp only
  rw [if_pos rfl]
  dsimp only
  rw [hlow.readHex_append]
  dsimp only
  rw [if_pos htrailing]
  rfl

end IsHex

/-- Reading goes on behind the characters of an escape. -/
theorem readCharacters_skip (front rest : List Char) :
    readCharacters front.length (front ++ rest) = readCharacters 0 rest := by
  induction front with
  | nil => rfl
  | cons c front ih =>
      rw [List.length_cons, List.cons_append, readCharacters]
      exact ih

theorem readCharacters_escape (escape : List Char) {rest text after : List Char} {c : Char}
    (hescape : readEscape (escape ++ rest) = .ok (c, escape.length + 1))
    (hrest : readCharacters 0 rest = .ok (text, after)) :
    readCharacters 0 ('\\' :: (escape ++ rest)) = .ok (c :: text, after) := by
  rw [readCharacters, if_neg (by decide), if_pos rfl, hescape]
  have hskip := readCharacters_skip escape rest
  simp [bind, Except.bind, pure, Except.pure, hskip, hrest]

theorem SpelledChar.readCharacters_append {c : Char} {s rest text after : List Char}
    (hspelled : SpelledChar c s) (hrest : readCharacters 0 rest = .ok (text, after)) :
    readCharacters 0 (s ++ rest) = .ok (c :: text, after) := by
  cases hspelled with
  | plain hquote hbackslash hcontrol =>
      rw [List.cons_append, List.nil_append, readCharacters, if_neg hquote, if_neg hbackslash,
        if_neg (Nat.not_lt.mpr hcontrol), hrest]
      rfl
  | @letter letter hletter =>
      refine readCharacters_escape [letter] ?_ hrest
      simp only [letterEscapes, List.mem_cons, Prod.mk.injEq, List.not_mem_nil, or_false] at hletter
      rcases hletter with ⟨rfl, rfl⟩ | ⟨rfl, rfl⟩ | ⟨rfl, rfl⟩ | ⟨rfl, rfl⟩ | ⟨rfl, rfl⟩ |
        ⟨rfl, rfl⟩ | ⟨rfl, rfl⟩ | ⟨rfl, rfl⟩ <;> rfl
  | @codePoint digits hdigits =>
      refine readCharacters_escape ('u' :: digits) ?_ hrest
      rw [List.length_cons, hdigits.length]
      have hunit := toNat_of_char c
      have hread := hdigits.readUnicode_codePoint rest (by simp [isTrailing]; omega)
        (by simp [isLeading]; omega)
      rw [Char.ofNat_toNat] at hread
      exact hread
  | @surrogates leading trailing hplane hleading htrailing =>
      have hunit := toNat_of_char c
      have hlength : ('u' :: leading ++ '\\' :: 'u' :: trailing).length + 1 = 12 := by
        simp [hleading.length, htrailing.length]
      have hread := hleading.readUnicode_surrogates rest htrailing (by simp [isTrailing]; omega)
        (by simp [isLeading]; omega) (by simp [isTrailing]; omega)
      rw [pairChar_surrogates c hplane] at hread
      refine readCharacters_escape ('u' :: leading ++ '\\' :: 'u' :: trailing) ?_ hrest
      rw [hlength, List.append_assoc]
      exact hread

theorem SpelledChars.readCharacters_append {text s : List Char} (hspelled : SpelledChars text s)
    (rest : List Char) : readCharacters 0 (s ++ '"' :: rest) = .ok (text, rest) := by
  induction hspelled with
  | nil => rw [List.nil_append, readCharacters, if_pos rfl]
  | cons hchar hchars ih =>
      rw [List.append_assoc]
      exact hchar.readCharacters_append ih

/-- Reading a string undoes writing it. -/
theorem SpelledString.readString_append {text : String} {s : List Char}
    (hspelled : SpelledString text s) (rest : List Char) :
    ∃ quoted, s = '"' :: quoted ∧ readString (quoted ++ rest) = .ok (text, rest) := by
  obtain ⟨hchars⟩ := hspelled
  refine ⟨_, rfl, ?_⟩
  have hread := hchars.readCharacters_append rest
  rw [← List.singleton_append, ← List.append_assoc] at hread
  rw [readString]
  refine (congrArg (· >>= _) hread).trans ?_
  simp [bind, Except.bind, pure, Except.pure]

/-- The codes of control characters as digits. -/
theorem isHex_control : ∀ code < 0x20,
    IsHex ['0', '0', Nat.digitChar (code / 16), Nat.digitChar (code % 16)] code := by
  intro code hcode
  refine ⟨rfl, ?_⟩
  revert code
  decide

theorem exists_spelledChar (c : Char) : ∃ s, SpelledChar c s := by
  by_cases hquote : c = '"'
  · exact ⟨['\\', '"'], .letter (by simp [hquote, letterEscapes])⟩
  by_cases hbackslash : c = '\\'
  · exact ⟨['\\', '\\'], .letter (by simp [hbackslash, letterEscapes])⟩
  by_cases hcontrol : c.toNat < 0x20
  · exact ⟨_, .codePoint (isHex_control c.toNat hcontrol)⟩
  · exact ⟨_, .plain hquote hbackslash (Nat.le_of_not_lt hcontrol)⟩

theorem exists_spelledChars (text : List Char) : ∃ s, SpelledChars text s := by
  induction text with
  | nil => exact ⟨[], .nil⟩
  | cons c text ih =>
      obtain ⟨s, hs⟩ := exists_spelledChar c
      obtain ⟨t, ht⟩ := ih
      exact ⟨s ++ t, .cons hs ht⟩

theorem exists_spelledString (text : String) : ∃ s, SpelledString text s := by
  obtain ⟨s, hs⟩ := exists_spelledChars text.toList
  exact ⟨_, .quoted hs⟩

end Json

end EntityClasses
