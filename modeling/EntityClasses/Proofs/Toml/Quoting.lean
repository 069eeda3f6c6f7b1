import EntityClasses.Proofs.Toml.Extension

/-! The ways of writing a text as a TOML string on one line, and a name as a key. A text has many spellings
between double quotes and at most one between single ones; reading gives back the text whichever was
chosen. -/

namespace EntityClasses.Toml

/-- The letters behind a backslash, with the characters that they stand for. -/
def letterEscapes : List (Char × Char) :=
  [('b', '\x08'), ('t', '\t'), ('n', '\n'), ('f', '\x0c'), ('r', '\r'), ('e', '\x1b'), ('"', '"'),
   ('\\', '\\')]

/-- The letters that a code point stands behind, with the number of its digits. -/
def codeMarks : List (Char × Nat) :=
  [('x', 2), ('u', 4), ('U', 8)]

/-- The ways of writing a character between double quotes: as it is, as a letter behind a backslash, or by
its code point. -/
inductive SpelledChar (c : Char) : List Char → Prop where
  | plain : c ≠ '"' → c ≠ '\\' → isControl c = false → SpelledChar c [c]
  | letter {letter : Char} : (letter, c) ∈ letterEscapes → SpelledChar c ['\\', letter]
  | codePoint {mark : Char} {digits : List Char} : (mark, digits.length) ∈ codeMarks →
      Text.number? 16 digits = some c.toNat → SpelledChar c ('\\' :: mark :: digits)

/-- The characters of a text one after the other, each in one of its ways. -/
inductive SpelledChars : List Char → List Char → Prop where
  | nil : SpelledChars [] []
  | cons {c : Char} {text s t : List Char} : SpelledChar c s → SpelledChars text t →
      SpelledChars (c :: text) (s ++ t)

/-- A text between quotes. Single quotes have the text between them as it is. -/
inductive SpelledString (text : String) : List Char → Prop where
  | basic {s : List Char} : SpelledChars text.toList s → SpelledString text ('"' :: (s ++ ['"']))
  | literal : (∀ c ∈ text.toList, c ≠ '\'' ∧ isControl c = false) →
      SpelledString text ('\'' :: (text.toList ++ ['\'']))

/-- A name as a key, in quotes if need be. -/
inductive SpelledKey (name : String) : List Char → Prop where
  | bare : name.toList ≠ [] → (∀ c ∈ name.toList, isBare c = true) → SpelledKey name name.toList
  | quoted {s : List Char} : SpelledString name s → SpelledKey name s

variable {s rest : List Char} {text name : String} {c : Char}

/-- Reading goes on behind the characters of an escape. -/
theorem readBasic_skip (front rest : List Char) :
    readBasic front.length (front ++ rest) = readBasic 0 rest := by
  induction front with
  | nil => rfl
  | cons c front ih =>
      rw [List.length_cons, List.cons_append, readBasic]
      exact ih

theorem readBasic_escape (escape rest : List Char)
    (hescape : readEscape (escape ++ rest) = some (c, escape.length + 1)) :
    readBasic 0 ('\\' :: (escape ++ rest)) =
      (readBasic 0 rest).map fun read => (c :: read.1, read.2) := by
  rw [readBasic, if_neg (by decide), if_pos rfl, hescape, Option.bind_eq_bind, Option.bind_some]
  dsimp only
  rw [Nat.add_sub_cancel, readBasic_skip, Option.map_eq_bind]
  rfl

theorem code?_eq_some (c : Char) {digits : List Char} (hnumber : Text.number? 16 digits = some c.toNat)
    (rest : List Char) : code? digits.length (digits ++ rest) = some c := by
  have hvalid : c.toNat.isValidChar := c.valid
  rw [code?, List.take_left]
  simp only [Nat.lt_irrefl, if_false, hnumber]
  rw [if_pos (by simpa using hvalid), Char.ofNat_toNat]

theorem SpelledChar.readBasic_append {s : List Char} (hspelled : SpelledChar c s) (rest : List Char) :
    readBasic 0 (s ++ rest) = (readBasic 0 rest).map fun read => (c :: read.1, read.2) := by
  cases hspelled with
  | plain hquote hbackslash hcontrol =>
      rw [List.singleton_append, readBasic, if_neg hquote, if_neg hbackslash, if_neg (by simp [hcontrol]),
        Option.map_eq_bind]
      rfl
  | @letter letter hletter =>
      refine readBasic_escape [letter] rest ?_
      simp only [letterEscapes, List.mem_cons, Prod.mk.injEq, List.not_mem_nil, or_false] at hletter
      rcases hletter with ⟨rfl, rfl⟩ | ⟨rfl, rfl⟩ | ⟨rfl, rfl⟩ | ⟨rfl, rfl⟩ | ⟨rfl, rfl⟩ |
        ⟨rfl, rfl⟩ | ⟨rfl, rfl⟩ | ⟨rfl, rfl⟩ <;> rfl
  | @codePoint mark digits hmark hnumber =>
      refine readBasic_escape (mark :: digits) rest ?_
      have hcode := code?_eq_some c hnumber rest
      simp only [codeMarks, List.mem_cons, Prod.mk.injEq, List.not_mem_nil, or_false] at hmark
      rcases hmark with ⟨rfl, hlength⟩ | ⟨rfl, hlength⟩ | ⟨rfl, hlength⟩ <;>
        (rw [hlength] at hcode
         rw [List.cons_append, readEscape, hcode, List.length_cons, hlength]
         rfl)

theorem SpelledChars.readBasic_append {text s : List Char} (hspelled : SpelledChars text s)
    (rest : List Char) : readBasic 0 (s ++ '"' :: rest) = some (text, rest) := by
  induction hspelled with
  | nil => rw [List.nil_append, readBasic, if_pos rfl]
  | cons hchar _ ih => rw [List.append_assoc, hchar.readBasic_append, ih, Option.map_some]

theorem readLiteral_eq_some {text : List Char} (htext : ∀ c ∈ text, c ≠ '\'' ∧ isControl c = false)
    (rest : List Char) : readLiteral (text ++ '\'' :: rest) = some (text, rest) := by
  induction text with
  | nil => rw [List.nil_append, readLiteral, if_pos rfl]
  | cons c text ih =>
      obtain ⟨⟨hquote, hcontrol⟩, htext⟩ := List.forall_mem_cons.mp htext
      rw [List.cons_append, readLiteral, if_neg hquote, if_neg (by simp [hcontrol]), ih htext]
      rfl

/-- No spelling starts with a quote. -/
theorem SpelledChars.exists_cons {text s : List Char} (hspelled : SpelledChars text s) (htext : text ≠ []) :
    ∃ c cs, s = c :: cs ∧ c ≠ '"' := by
  cases hspelled with
  | nil => exact absurd rfl htext
  | cons hchar _ =>
      cases hchar with
      | plain hquote _ _ => exact ⟨_, _, rfl, hquote⟩
      | letter _ => exact ⟨_, _, rfl, by decide⟩
      | codePoint _ _ => exact ⟨_, _, rfl, by decide⟩

/-- Reading a string undoes writing it, unless a quote follows. -/
theorem SpelledString.readString_append (hspelled : SpelledString text s)
    (hrest : ∀ c ∈ rest.head?, c ≠ '"' ∧ c ≠ '\'') :
    readString (s ++ rest) = some (text.toList, rest) := by
  cases hspelled with
  | @basic chars hchars =>
      -- Two more quotes would open a string on several lines.
      have hopening : ∀ cs, chars ++ '"' :: rest = '"' :: '"' :: cs → False := by
        intro cs hcs
        by_cases htext : text.toList = []
        · rw [htext] at hchars
          cases hchars
          have hquote : rest = '"' :: cs := (List.cons.inj hcs).2
          exact (hrest '"' (by simp [hquote])).1 rfl
        · obtain ⟨c, ds, rfl, hc⟩ := hchars.exists_cons htext
          exact hc (List.cons.inj hcs).1
      rw [List.cons_append, List.append_assoc, List.singleton_append, readString.eq_2 _ hopening]
      exact hchars.readBasic_append rest
  | literal htext =>
      have hopening : ∀ cs, text.toList ++ '\'' :: rest = '\'' :: '\'' :: cs → False := by
        intro cs hcs
        cases hchars : text.toList with
        | nil =>
            rw [hchars] at hcs
            have hquote : rest = '\'' :: cs := (List.cons.inj hcs).2
            exact (hrest '\'' (by simp [hquote])).2 rfl
        | cons c ds =>
            rw [hchars] at hcs
            exact (htext c (by simp [hchars])).1 (List.cons.inj hcs).1
      rw [List.cons_append, List.append_assoc, List.singleton_append, readString.eq_4 _ hopening]
      exact readLiteral_eq_some htext rest

theorem SpelledString.readName_append (hspelled : SpelledString name s) (rest : List Char) :
    readName (s ++ rest) = some (name.toList, rest) := by
  cases hspelled with
  | basic hchars =>
      rw [List.cons_append, List.append_assoc, List.singleton_append, readName]
      exact hchars.readBasic_append rest
  | literal htext =>
      rw [List.cons_append, List.append_assoc, List.singleton_append, readName]
      exact readLiteral_eq_some htext rest

theorem SpelledKey.readName_append (hspelled : SpelledKey name s)
    (hrest : ∀ c ∈ rest.head?, isBare c = false) :
    readName (s ++ rest) = some (name.toList, rest) := by
  cases hspelled with
  | quoted hstring => exact hstring.readName_append rest
  | bare hname hbare =>
      obtain ⟨c, cs, hcs⟩ := List.exists_cons_of_ne_nil hname
      have hc : isBare c = true := hbare c (by simp [hcs])
      have hfirst : ∀ quote, isBare quote = false → ∀ ds, name.toList ++ rest = quote :: ds → False := by
        rintro quote hquote ds hds
        rw [hcs] at hds
        rw [(List.cons.inj hds).1, hquote] at hc
        cases hc
      have htake : rest.takeWhile isBare = [] := by
        cases rest with
        | nil => rfl
        | cons d ds => rw [List.takeWhile_cons_of_neg (by simp [hrest d rfl])]
      have hdrop : rest.dropWhile isBare = rest := by
        cases rest with
        | nil => rfl
        | cons d ds => rw [List.dropWhile_cons_of_neg (by simp [hrest d rfl])]
      rw [readName.eq_3 _ (hfirst '"' (by decide)) (hfirst '\'' (by decide)),
        List.takeWhile_append_of_pos hbare, List.dropWhile_append_of_pos hbare, htake, hdrop,
        List.append_nil]
      rw [hcs]

theorem SpelledKey.readKey_append (total : Nat) (hspelled : SpelledKey name s)
    (hrest : ∀ c ∈ rest.head?, isBare c = false) :
    ∃ span, readKey total (s ++ rest) = some (⟨name, span⟩, rest) := by
  refine ⟨Text.Span.between total (s ++ rest) rest, ?_⟩
  rw [readKey_eq, hspelled.readName_append hrest, Option.map_some, String.ofList_toList]

section Spellings

theorem number?_digits : ∀ code < 0x80,
    Text.number? 16 [Nat.digitChar (code / 16), Nat.digitChar (code % 16)] = some code := by
  decide

theorem exists_spelledChar (c : Char) : ∃ s, SpelledChar c s := by
  by_cases hquote : c = '"'
  · exact ⟨['\\', '"'], .letter (by simp [hquote, letterEscapes])⟩
  by_cases hbackslash : c = '\\'
  · exact ⟨['\\', '\\'], .letter (by simp [hbackslash, letterEscapes])⟩
  cases hcontrol : isControl c with
  | false => exact ⟨_, .plain hquote hbackslash hcontrol⟩
  | true =>
      have hcode : c.toNat < 0x80 := by
        simp [isControl] at hcontrol
        omega
      have hmark : ('x', 2) ∈ codeMarks := by decide
      exact ⟨_, .codePoint hmark (number?_digits c.toNat hcode)⟩

theorem exists_spelledString (text : String) : ∃ s, SpelledString text s := by
  have hchars : ∀ text, ∃ s, SpelledChars text s := by
    intro text
    induction text with
    | nil => exact ⟨[], .nil⟩
    | cons c text ih =>
        obtain ⟨s, hs⟩ := exists_spelledChar c
        obtain ⟨t, ht⟩ := ih
        exact ⟨s ++ t, .cons hs ht⟩
  obtain ⟨s, hs⟩ := hchars text.toList
  exact ⟨_, .basic hs⟩

end Spellings

end EntityClasses.Toml
