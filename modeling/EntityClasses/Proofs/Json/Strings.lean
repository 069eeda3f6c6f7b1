import Mathlib.Algebra.Group.Nat.Defs
import Mathlib.Tactic.SplitIfs
import EntityClasses.Proofs.Json.Quoting
import EntityClasses.Proofs.Text.Search

/-! Strings as they stand in a text. What is read as a string is a spelling of it between quotes. Inside a
spelling each quote has its backslash, and what stands behind the quote is a spelling again. -/

namespace EntityClasses.Json

theorem bind_eq_ok_iff {ε α β : Type} {result : Except ε α} {next : α → Except ε β} {b : β} :
    result >>= next = .ok b ↔ ∃ a, result = .ok a ∧ next a = .ok b := by
  cases result with
  | error error => simp [bind, Except.bind]
  | ok a => simp [bind, Except.bind]

section Digits

theorem digitValue?_lt {radix value : Nat} {c : Char} (hvalue : Text.digitValue? radix c = some value) :
    value < radix := by
  obtain ⟨-, hlt⟩ := Option.filter_eq_some_iff.mp hvalue
  exact of_decide_eq_true hlt

theorem numberFrom?_lt {radix number result : Nat} {digits : List Char}
    (hnumber : Text.numberFrom? radix number digits = some result) :
    result < (number + 1) * radix ^ digits.length := by
  induction digits generalizing number with
  | nil =>
      cases hnumber
      simp
  | cons c digits ih =>
      obtain ⟨value, hvalue, hnumber⟩ := Option.bind_eq_some_iff.mp hnumber
      have hlt := digitValue?_lt hvalue
      calc result < (radix * number + value + 1) * radix ^ digits.length := ih hnumber
        _ ≤ ((number + 1) * radix) * radix ^ digits.length := by
            apply Nat.mul_le_mul_right
            rw [Nat.add_mul, Nat.mul_comm number radix]
            omega
        _ = (number + 1) * radix ^ (c :: digits).length := by
            rw [List.length_cons, Nat.pow_succ, Nat.mul_assoc, Nat.mul_comm radix]

theorem quote_notMem_of_numberFrom? {number result : Nat} {digits : List Char}
    (hnumber : Text.numberFrom? 16 number digits = some result) : '"' ∉ digits := by
  induction digits generalizing number with
  | nil => nofun
  | cons c digits ih =>
      obtain ⟨value, hvalue, hnumber⟩ := Option.bind_eq_some_iff.mp hnumber
      intro hmem
      rcases List.mem_cons.mp hmem with rfl | hmem
      · have hnone : Text.digitValue? 16 '"' = none := by decide
        rw [hnone] at hvalue
        cases hvalue
      · exact ih hnumber hmem

theorem IsHex.lt {digits : List Char} {unit : Nat} (hhex : IsHex digits unit) : unit < 0x10000 := by
  have hlt := numberFrom?_lt hhex.number
  rwa [hhex.length] at hlt

theorem IsHex.quote_notMem {digits : List Char} {unit : Nat} (hhex : IsHex digits unit) : '"' ∉ digits :=
  quote_notMem_of_numberFrom? hhex.number

end Digits

section Reading

variable {s rest : List Char} {c : Char} {count : Nat}

theorem readHex_eq_ok {unit : Nat} (hread : readHex s = .ok (unit, rest)) :
    ∃ digits, s = digits ++ rest ∧ IsHex digits unit := by
  unfold readHex at hread
  split at hread
  · cases hread
  · split at hread
    · split at hread
      · next hnumber =>
          cases hread
          exact ⟨[_, _, _, _], rfl, rfl, hnumber⟩
      · cases hread
    · cases hread

theorem expectInString_eq_ok (hread : expectInString c s = .ok rest) : s = c :: rest := by
  unfold expectInString at hread
  split at hread
  · cases hread
  · split at hread
    · next heq =>
        cases hread
        rw [heq]
    · cases hread

theorem toNat_ofNat {unit : Nat} (hvalid : unit.isValidChar) : (Char.ofNat unit).toNat = unit := by
  unfold Char.ofNat
  rw [dif_pos hvalid]
  rfl

/-- Two surrogates that stand together make a character outside the basic plane. -/
theorem toNat_pairChar {leading trailing : Nat} (hleading : isLeading leading = true)
    (htrailing : isTrailing trailing = true) :
    0x10000 ≤ (pairChar leading trailing).toNat ∧
      0xD800 + ((pairChar leading trailing).toNat - 0x10000) / 0x400 = leading ∧
      0xDC00 + ((pairChar leading trailing).toNat - 0x10000) % 0x400 = trailing := by
  simp only [isLeading, isTrailing, Bool.and_eq_true, decide_eq_true_eq] at hleading htrailing
  have hvalid : (0x10000 + (leading - 0xD800) * 0x400 + (trailing - 0xDC00)).isValidChar := by
    right
    omega
  have hnat : (pairChar leading trailing).toNat =
      0x10000 + (leading - 0xD800) * 0x400 + (trailing - 0xDC00) :=
    toNat_ofNat hvalid
  omega

theorem readUnicode_eq_ok (hread : readUnicode s = .ok (c, count)) :
    ∃ escape behind, s = escape ++ behind ∧ count = escape.length + 2 ∧
      SpelledChar c ('\\' :: 'u' :: escape) := by
  unfold readUnicode at hread
  obtain ⟨⟨unit, behind⟩, hunit, hread⟩ := bind_eq_ok_iff.mp hread
  obtain ⟨digits, hs, hdigits⟩ := readHex_eq_ok hunit
  dsimp only at hread
  split_ifs at hread with hlone hleading
  · obtain ⟨slash, hslash, hread⟩ := bind_eq_ok_iff.mp hread
    obtain ⟨letter, hletter, hread⟩ := bind_eq_ok_iff.mp hread
    obtain ⟨⟨second, left⟩, hsecond, hread⟩ := bind_eq_ok_iff.mp hread
    obtain ⟨others, hrest, hothers⟩ := readHex_eq_ok hsecond
    have hbehind : behind = '\\' :: 'u' :: (others ++ left) := by
      rw [expectInString_eq_ok hslash, expectInString_eq_ok hletter, hrest]
    dsimp only at hread
    split_ifs at hread with htrailing
    simp only [pure, Except.pure, Except.ok.injEq, Prod.mk.injEq] at hread
    obtain ⟨rfl, rfl⟩ := hread
    obtain ⟨hplane, hhigh, hlow⟩ := toNat_pairChar hleading htrailing
    refine ⟨digits ++ '\\' :: 'u' :: others, left, by simp [hs, hbehind], ?_, ?_⟩
    · simp [hdigits.length, hothers.length]
    · rw [← hhigh] at hdigits
      rw [← hlow] at hothers
      exact .surrogates hplane hdigits hothers
  · simp only [pure, Except.pure, Except.ok.injEq, Prod.mk.injEq] at hread
    obtain ⟨rfl, rfl⟩ := hread
    refine ⟨digits, behind, hs, by rw [hdigits.length], .codePoint ?_⟩
    have hlt := hdigits.lt
    have hvalid : unit.isValidChar := by
      simp only [isTrailing, isLeading, Bool.and_eq_true, decide_eq_true_eq] at hlone hleading
      unfold Nat.isValidChar
      omega
    rwa [toNat_ofNat hvalid]

theorem readEscape_eq_ok (hread : readEscape s = .ok (c, count)) :
    ∃ escape behind, s = escape ++ behind ∧ count = escape.length + 1 ∧ SpelledChar c ('\\' :: escape) := by
  have hletter : ∀ {letter read : Char} {behind : List Char}, (letter, read) ∈ letterEscapes →
      (.ok (read, 2) : Except SyntaxError (Char × Nat)) = .ok (c, count) →
      ∃ escape after, letter :: behind = escape ++ after ∧ count = escape.length + 1 ∧
        SpelledChar c ('\\' :: escape) := by
    intro letter read behind hmem hread
    cases hread
    exact ⟨[letter], behind, rfl, rfl, .letter hmem⟩
  unfold readEscape at hread
  split at hread
  · cases hread
  · exact hletter (by decide) hread
  · exact hletter (by decide) hread
  · exact hletter (by decide) hread
  · exact hletter (by decide) hread
  · exact hletter (by decide) hread
  · exact hletter (by decide) hread
  · exact hletter (by decide) hread
  · exact hletter (by decide) hread
  · obtain ⟨escape, behind, rfl, rfl, hspelled⟩ := readUnicode_eq_ok hread
    exact ⟨'u' :: escape, behind, rfl, rfl, hspelled⟩
  · cases hread

/-- What is read as a string is a spelling of it and its closing quote, behind the rest of an escape. -/
theorem readCharacters_eq_ok {skip : Nat} {text : List Char}
    (hread : readCharacters skip s = .ok (text, rest)) :
    ∃ skipped raw, s = skipped ++ (raw ++ '"' :: rest) ∧ skipped.length = skip ∧ SpelledChars text raw := by
  induction s generalizing skip text with
  | nil => cases skip <;> cases hread
  | cons c cs ih =>
      cases skip with
      | succ skip =>
          obtain ⟨skipped, raw, rfl, rfl, hspelled⟩ := ih hread
          exact ⟨c :: skipped, raw, rfl, rfl, hspelled⟩
      | zero =>
          rw [readCharacters] at hread
          split_ifs at hread with hend hslash hcontrol
          · cases hread
            exact ⟨[], [], by rw [hend]; rfl, rfl, .nil⟩
          · obtain ⟨⟨escaped, count⟩, hescape, hread⟩ := bind_eq_ok_iff.mp hread
            obtain ⟨⟨others, behind⟩, hothers, hread⟩ := bind_eq_ok_iff.mp hread
            cases hread
            obtain ⟨skipped, raw, hcs, hskipped, hspelled⟩ := ih hothers
            obtain ⟨escape, after, hescaped, rfl, hchar⟩ := readEscape_eq_ok hescape
            obtain ⟨rfl, -⟩ := List.append_inj (hescaped.symm.trans hcs) hskipped.symm
            rw [hcs, hslash]
            exact ⟨[], '\\' :: escape ++ raw, by simp, rfl, .cons hchar hspelled⟩
          · obtain ⟨⟨others, behind⟩, hothers, hread⟩ := bind_eq_ok_iff.mp hread
            cases hread
            obtain ⟨skipped, raw, rfl, hskipped, hspelled⟩ := ih hothers
            obtain rfl : skipped = [] := List.length_eq_zero_iff.mp hskipped
            have hchar : SpelledChar c [c] := .plain hend hslash (Nat.le_of_not_lt hcontrol)
            exact ⟨[], [c] ++ raw, rfl, rfl, .cons hchar hspelled⟩

/-- **What is read as a string is a spelling of it.** -/
theorem readString_eq_ok {text : String} (hread : readString s = .ok (text, rest)) :
    ∃ raw, s = raw ++ '"' :: rest ∧ SpelledChars text.toList raw := by
  obtain ⟨⟨chars, behind⟩, hchars, hread⟩ := bind_eq_ok_iff.mp hread
  cases hread
  obtain ⟨skipped, raw, rfl, hskipped, hspelled⟩ := readCharacters_eq_ok hchars
  obtain rfl : skipped = [] := List.length_eq_zero_iff.mp hskipped
  rw [String.toList_ofList]
  exact ⟨raw, rfl, hspelled⟩

end Reading

section Quotes

variable {text raw : List Char}

/-- A character that is not written as it is starts with a backslash. Only a quote that follows it at once
stands in its spelling. -/
theorem SpelledChar.plain_or_escape {c : Char} {s : List Char} (hspelled : SpelledChar c s) :
    (s = [c] ∧ c ≠ '"' ∧ c ≠ '\\') ∨
      ∃ d escape, s = '\\' :: d :: escape ∧ '"' ∉ escape ∧ (d = '"' → escape = []) := by
  cases hspelled with
  | plain hquote hbackslash => exact Or.inl ⟨rfl, hquote, hbackslash⟩
  | @letter letter => exact Or.inr ⟨letter, [], rfl, nofun, fun _ => rfl⟩
  | @codePoint digits hdigits => exact Or.inr ⟨'u', digits, rfl, hdigits.quote_notMem, nofun⟩
  | @surrogates leading trailing _ hleading htrailing =>
      refine Or.inr ⟨'u', leading ++ '\\' :: 'u' :: trailing, rfl, ?_, nofun⟩
      simp [hleading.quote_notMem, htrailing.quote_notMem]

/-- Behind a quote of a spelled character nothing of it is left, and there is a backslash in front. -/
theorem SpelledChar.behind_quote {c : Char} {front back : List Char}
    (hspelled : SpelledChar c (front ++ '"' :: back)) : '\\' ∈ front ∧ back = [] := by
  rcases hspelled.plain_or_escape with ⟨hs, hquote, -⟩ | ⟨d, escape, hs, hescape, hd⟩
  · cases front with
    | nil => exact absurd (List.cons.inj hs).1.symm hquote
    | cons e front => simp at hs
  · cases front with
    | nil => cases (List.cons.inj hs).1
    | cons e front =>
        obtain ⟨rfl, hcut⟩ := List.cons.inj hs
        refine ⟨List.mem_cons_self, ?_⟩
        cases front with
        | nil =>
            obtain ⟨hquote, rfl⟩ := List.cons.inj hcut
            exact hd hquote.symm
        | cons f front =>
            refine absurd ?_ hescape
            rw [← (List.cons.inj hcut).2]
            exact List.mem_append_right front List.mem_cons_self

theorem SpelledChars.length_le (hspelled : SpelledChars text raw) : text.length ≤ raw.length := by
  induction hspelled with
  | nil => exact Nat.le_refl 0
  | cons hchar _ ih =>
      rw [List.length_cons, List.length_append]
      rcases hchar.plain_or_escape with ⟨rfl, -⟩ | ⟨d, escape, rfl, -, -⟩ <;>
        simp only [List.length_cons] <;> omega

/-- A text that is written as it is holds neither a quote nor a backslash. -/
theorem SpelledChars.notMem_of_self (hspelled : SpelledChars text text) : '"' ∉ text ∧ '\\' ∉ text := by
  have hplain : ∀ {text raw : List Char}, SpelledChars text raw → raw.length ≤ text.length →
      '"' ∉ raw ∧ '\\' ∉ raw := by
    intro text raw hspelled
    induction hspelled with
    | nil => exact fun _ => ⟨nofun, nofun⟩
    | @cons c text s t hchar hchars ih =>
        intro hlength
        have hle := hchars.length_le
        rw [List.length_append, List.length_cons] at hlength
        rcases hchar.plain_or_escape with ⟨rfl, hquote, hbackslash⟩ | ⟨d, escape, rfl, -, -⟩
        · obtain ⟨hquotes, hbackslashes⟩ := ih (by simp only [List.length_cons] at hlength; omega)
          simp [Ne.symm hquote, Ne.symm hbackslash, hquotes, hbackslashes]
        · simp only [List.length_cons] at hlength
          omega
  exact hplain hspelled (Nat.le_refl _)

/-- A quote inside a spelling ends an escape: there is a backslash in front, and the end of the text is
spelled behind. -/
theorem SpelledChars.behind_quote {front back : List Char} (hspelled : SpelledChars text raw)
    (hraw : raw = front ++ '"' :: back) :
    '\\' ∈ front ∧ ∃ others, others <:+ text ∧ SpelledChars others back := by
  induction hspelled generalizing front with
  | nil => simp at hraw
  | @cons c text s t hchar hchars ih =>
      rcases List.append_eq_append_iff.mp hraw with ⟨between, rfl, hbehind⟩ | ⟨between, rfl, hbehind⟩
      · obtain ⟨hmem, others, hothers, hback⟩ := ih hbehind
        exact ⟨List.mem_append_right s hmem, others, hothers.trans (List.suffix_cons c text), hback⟩
      · cases between with
        | nil =>
            rw [List.nil_append] at hbehind
            have hback := @ih [] hbehind.symm
            cases hback.1
        | cons d between =>
            obtain ⟨rfl, rfl⟩ := List.cons.inj hbehind
            obtain ⟨hmem, rfl⟩ := hchar.behind_quote
            exact ⟨hmem, text, List.suffix_cons c text, hchars⟩

/-- A spelling without a backslash is the text itself. -/
theorem SpelledChars.eq_of_notMem (hspelled : SpelledChars text raw) (hbackslash : '\\' ∉ raw) :
    text = raw := by
  induction hspelled with
  | nil => rfl
  | cons hchar _ ih =>
      rw [List.mem_append, not_or] at hbackslash
      rcases hchar.plain_or_escape with ⟨rfl, -, -⟩ | ⟨d, escape, rfl, -, -⟩
      · rw [ih hbackslash.2]
        rfl
      · exact absurd List.mem_cons_self hbackslash.1

/-- What stands in front of the first quote of a text, if there is no backslash, is a string in front of
its closing quote. -/
theorem SpelledChars.eq_of_plain {written back behind : List Char} (hspelled : SpelledChars text raw)
    (hquote : '"' ∉ written) (hbackslash : '\\' ∉ written)
    (htext : raw ++ '"' :: back = written ++ '"' :: behind) : raw = written ∧ back = behind := by
  rcases Text.append_cons_cases htext with ⟨rfl, -, rfl⟩ | ⟨between, rfl, -⟩ | ⟨between, rfl, -⟩
  · exact ⟨rfl, rfl⟩
  · exact absurd (List.mem_append_right raw List.mem_cons_self) hquote
  · exact absurd (hspelled.behind_quote rfl).1 hbackslash

end Quotes

end EntityClasses.Json
