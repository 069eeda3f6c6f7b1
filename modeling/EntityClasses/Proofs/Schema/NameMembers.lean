import EntityClasses.Proofs.Json.Layout
import EntityClasses.Proofs.Json.Spelling
import EntityClasses.Proofs.Schema.NamePlaces

/-! What it is that has a name at a place where the text says so. In a JSON text the quotes of the key and of
the name are those of two strings, and the colon between them makes the strings a member of an object. -/

namespace EntityClasses

namespace Json

open Text

/-- A text behind which neither an entry nor a closing bracket follows. -/
def Stuck (s : List Char) : Prop :=
  ∃ c cs, skipBlank s = c :: cs ∧ c ≠ ',' ∧ c ≠ ']' ∧ c ≠ '\x7d'

section Keys

variable {s rest between behind back : List Char} {text : String}

/-- A text `"name"` that starts in a string ends with it, or else it starts with the closing quote. -/
theorem key_of_readString {cs tail : List Char} (htail : tail = 'n' :: 'a' :: 'm' :: 'e' :: '"' :: behind)
    (hread : readString cs = .ok (text, rest)) (hstart : '"' :: tail <:+ '"' :: cs)
    (hend : ¬ '"' :: tail <:+ rest) :
    (rest = behind ∧ ['n', 'a', 'm', 'e'] <:+ text.toList) ∨ ∃ others, rest = 'n' :: others := by
  obtain ⟨raw, rfl, hspelled⟩ := readString_eq_ok hread
  have hword : ∀ {others more : List Char}, SpelledChars others more →
      more ++ '"' :: rest = tail → rest = behind ∧ others = ['n', 'a', 'm', 'e'] := by
    intro others more hspelled htext
    have htext : more ++ '"' :: rest = ['n', 'a', 'm', 'e'] ++ '"' :: behind := htext.trans htail
    obtain ⟨rfl, rfl⟩ := hspelled.eq_of_plain (by decide) (by decide) htext
    exact ⟨rfl, hspelled.eq_of_notMem (by decide)⟩
  obtain ⟨front, htext⟩ := hstart
  cases front with
  | nil =>
      obtain ⟨hrest, htext⟩ := hword hspelled (List.cons.inj htext).2.symm
      exact Or.inl ⟨hrest, htext ▸ List.suffix_rfl⟩
  | cons c front =>
      rcases append_cons_cases (List.cons.inj htext).2 with
        ⟨-, -, hrest⟩ | ⟨more, hraw, hmore⟩ | ⟨more, -, hmore⟩
      · exact Or.inr ⟨_, hrest.symm.trans htail⟩
      · obtain ⟨-, others, hothers, hbehind⟩ := hspelled.behind_quote hraw
        obtain ⟨hrest, rfl⟩ := hword hbehind hmore.symm
        exact Or.inl ⟨hrest, hothers⟩
      · exact absurd ⟨more, hmore.symm⟩ hend

/-- A text that starts with blanks in the wider sense is blank in the sense of JSON up to a character, or
another blank comes first. -/
theorem skipBlank_append_cases {blank : List Char} (hblank : ∀ c ∈ blank, Text.isBlank c = true) {c : Char}
    (hc : isBlank c = false) (s : List Char) :
    skipBlank (blank ++ c :: s) = c :: s ∨
      ∃ d ds, skipBlank (blank ++ c :: s) = d :: ds ∧ Text.isBlank d = true := by
  induction blank with
  | nil => exact Or.inl (skipBlank_cons hc s)
  | cons d blank ih =>
      cases hd : isBlank d with
      | false =>
          refine Or.inr ⟨d, blank ++ c :: s, skipBlank_cons hd _, hblank d List.mem_cons_self⟩
      | true =>
          rw [List.cons_append, skipBlank, List.dropWhile_cons_of_pos hd]
          exact ih fun e he => hblank e (List.mem_cons_of_mem d he)

/-- Behind a colon with blanks around it no entry follows. -/
theorem stuck_of_isColon {gap : List Char} (hgap : IsColon gap) (s : List Char) : Stuck (gap ++ s) := by
  obtain ⟨hbefore, -⟩ := hgap
  rename_i before after
  rw [List.append_assoc]
  rcases skipBlank_append_cases hbefore (c := ':') (by decide) (after ++ s) with hskip | ⟨d, ds, hskip, hd⟩
  · exact ⟨':', after ++ s, hskip, by decide, by decide, by decide⟩
  · refine ⟨d, ds, hskip, ?_, ?_, ?_⟩ <;>
    · rintro rfl
      revert hd
      decide

theorem not_isBlank_of_isDigit {c : Char} (hdigit : c.isDigit = true) : Text.isBlank c = false := by
  simp only [Char.isDigit, Bool.and_eq_true, decide_eq_true_eq, UInt32.le_iff_toNat_le] at hdigit
  have hlow : 48 ≤ c.toNat := hdigit.1
  have hhigh : c.toNat ≤ 57 := hdigit.2
  simp [Text.isBlank, blankRanges]
  omega

/-- No value starts with a blank, not even with one in the wider sense. -/
theorem not_isBlank_of_readWith {array object : Reader Value} {value : Value} {c : Char} {cs : List Char}
    (hread : readWith array object s = .ok (value, rest)) (hskip : skipBlank s = c :: cs) :
    Text.isBlank c = false := by
  unfold readWith at hread
  rw [hskip] at hread
  dsimp only at hread
  split_ifs at hread with hn ht hf hquote hbracket hbrace hnumber
  · rw [hn]
    decide
  · rw [ht]
    decide
  · rw [hf]
    decide
  · rw [hquote]
    decide
  · rw [hbracket]
    decide
  · rw [hbrace]
    decide
  · rcases Bool.or_eq_true_iff.mp hnumber with hminus | hdigit
    · rw [of_decide_eq_true hminus]
      decide
    · exact not_isBlank_of_isDigit hdigit

theorem not_isBlank_of_readValue {fuel depth : Nat} {value : Value} {c : Char} {cs : List Char}
    (hread : readValue fuel depth s = .ok (value, rest)) (hskip : skipBlank s = c :: cs) :
    Text.isBlank c = false := by
  cases depth with
  | zero => exact not_isBlank_of_readWith hread hskip
  | succ depth => exact not_isBlank_of_readWith hread hskip

/-- The value of a member behind a colon: the blanks around the colon are blanks of JSON. -/
theorem skipBlank_of_isColon {gap : List Char} (hgap : IsColon gap) {fuel depth : Nat} {value : Value}
    (hcolon : skipBlank (gap ++ '"' :: s) = ':' :: behind)
    (hread : readValue fuel depth behind = .ok (value, rest)) : skipBlank behind = '"' :: s := by
  obtain ⟨hbefore, hafter⟩ := hgap
  rename_i before after
  rw [List.append_assoc] at hcolon
  have hbehind : behind = after ++ '"' :: s := by
    rcases skipBlank_append_cases hbefore (c := ':') (by decide) (after ++ '"' :: s) with
      hskip | ⟨d, ds, hskip, hd⟩
    · exact (List.cons.inj (hcolon.symm.trans hskip)).2
    · obtain rfl : ':' = d := (List.cons.inj (hcolon.symm.trans hskip)).1
      exact absurd hd (by decide)
  rw [hbehind] at hread ⊢
  rcases skipBlank_append_cases hafter (c := '"') (by decide) s with hskip | ⟨d, ds, hskip, hd⟩
  · exact hskip
  · rw [not_isBlank_of_readValue hread hskip] at hd
    cases hd

end Keys

/-- Whether a value has inside it a member with this string as its value, written as it is in front of this
text. -/
def HoldsMember (fuel depth : Nat) (name : String) (back : List Char) (value : Value)
    (s : List Char) : Prop :=
  ∃ path members index key t, value.at? path = some (.object members) ∧
    members[index]? = some (key, .string name) ∧ ['n', 'a', 'm', 'e'] <:+ key.toList ∧
    textAt? fuel depth (path ++ [index]) s = some t ∧ skipBlank t = '"' :: (name.toList ++ '"' :: back)

section Search

variable {fuel depth : Nat} {name : String} {gap back tail s rest : List Char}

theorem HoldsMember.of_part {value part : Value} {u : List Char} {index : Nat}
    (hholds : HoldsMember fuel depth name back part u) (hpart : value.part? index = some part)
    (htext : ∀ path, textAt? fuel (depth + 1) (index :: path) s = textAt? fuel depth path u) :
    HoldsMember fuel (depth + 1) name back value s := by
  obtain ⟨path, members, i, key, t, hobject, hmember, hkey, ht, hskip⟩ := hholds
  refine ⟨index :: path, members, i, key, t, ?_, hmember, hkey, ?_, hskip⟩
  · rw [Value.at?, hpart, Option.bind_some, hobject]
  · rw [List.cons_append, htext, ht]

/-- A quote that is passed while entries are read is passed while one of them is. -/
theorem EntriesRead.exists_entry {α : Type} {entry : Reader α} {closing : Char} {as : List α}
    {P : α → List Char → Prop}
    (hentry : ∀ {u r : List Char} {a : α}, entry u = .ok (a, r) → '"' :: tail <:+ u → ¬ '"' :: tail <:+ r →
      P a u ∨ Stuck r)
    (hclosing : closing = ']' ∨ closing = '\x7d') (hread : EntriesRead entry closing rest as s)
    (hstart : '"' :: tail <:+ s) (hend : ¬ '"' :: tail <:+ rest) :
    ∃ index a u, as[index]? = some a ∧ Json.entryText? entry index s = some u ∧ P a u := by
  induction hread with
  | @last a s r ha hskip =>
      by_cases hbehind : '"' :: tail <:+ r
      · have hne : closing ≠ '"' := by rcases hclosing with rfl | rfl <;> decide
        exact absurd ((passes_of_skipBlank hskip hne).quote_suffix hbehind) hend
      · rcases hentry ha hstart hbehind with hholds | ⟨c, cs, hstuck, hcomma, hbracket, hbrace⟩
        · exact ⟨0, a, s, rfl, rfl, hholds⟩
        · obtain rfl : closing = c := (List.cons.inj (hskip.symm.trans hstuck)).1
          rcases hclosing with rfl | rfl
          · exact absurd rfl hbracket
          · exact absurd rfl hbrace
  | @more a as s r next ha hskip _ ih =>
      by_cases hbehind : '"' :: tail <:+ r
      · have hnext := (passes_of_skipBlank hskip (by decide)).quote_suffix hbehind
        obtain ⟨index, b, u, hb, hu, hholds⟩ := ih ((passes_skipBlank next).quote_suffix hnext)
        refine ⟨index + 1, b, u, hb, ?_, hholds⟩
        simp only [Json.entryText?, ha, hskip, hu]
      · rcases hentry ha hstart hbehind with hholds | ⟨c, cs, hstuck, hcomma, -⟩
        · exact ⟨0, a, s, rfl, rfl, hholds⟩
        · exact absurd (List.cons.inj (hskip.symm.trans hstuck)).1.symm hcomma

section Reading

variable (hgap : IsColon gap) (hquote : '"' ∉ name.toList) (hbackslash : '\\' ∉ name.toList)
  (htail : tail = 'n' :: 'a' :: 'm' :: 'e' :: '"' :: (gap ++ '"' :: (name.toList ++ '"' :: back)))
include hgap hquote hbackslash htail

/-- A key `name`, a colon and a name that start in a member are the member itself or stand in its value. -/
theorem holdsMember_of_readMember {member : String × Value}
    (hitem : ∀ {s rest : List Char} {value : Value}, readValue fuel depth s = .ok (value, rest) →
      '"' :: tail <:+ s → ¬ '"' :: tail <:+ rest → HoldsMember fuel depth name back value s ∨ Stuck rest)
    (hread : readMember (readValue fuel depth) s = .ok (member, rest)) (hstart : '"' :: tail <:+ s)
    (hend : ¬ '"' :: tail <:+ rest) :
    (∃ t, memberText? s = some t ∧ (HoldsMember fuel depth name back member.2 t ∨
      (member.2 = .string name ∧ ['n', 'a', 'm', 'e'] <:+ member.1.toList ∧
        skipBlank t = '"' :: (name.toList ++ '"' :: back)))) ∨ Stuck rest := by
  obtain ⟨cs, behind, between, rfl, hkey, hcolon, hvalue⟩ := readMember_eq_ok hread
  have htext : memberText? ('"' :: cs) = some behind := by
    simp only [memberText?, hkey, hcolon]
  by_cases hbetween : '"' :: tail <:+ between
  · have hbehind := (passes_of_skipBlank hcolon (by decide)).quote_suffix hbetween
    rcases hitem hvalue hbehind hend with hholds | hstuck
    · exact Or.inl ⟨behind, htext, Or.inl hholds⟩
    · exact Or.inr hstuck
  · left
    rcases key_of_readString htail hkey hstart hbetween with ⟨rfl, hname⟩ | ⟨others, rfl⟩
    · have hskip := skipBlank_of_isColon hgap hcolon hvalue
      refine ⟨behind, htext, Or.inr ⟨?_, hname, hskip⟩⟩
      have hvalue := readAs_of_readValue hvalue
      rw [hskip] at hvalue
      generalize member.2 = value at hvalue
      cases hvalue with
      | null hne _ | bool hne _ | number hne _ => exact absurd rfl hne
      | @string _ _ text hstring =>
          obtain ⟨raw, hraw, hspelled⟩ := readString_eq_ok hstring
          obtain ⟨rfl, -⟩ := hspelled.eq_of_plain hquote hbackslash hraw.symm
          rw [String.toList_inj.mp (hspelled.eq_of_notMem hbackslash)]
    · have hskip : skipBlank ('n' :: others) = 'n' :: others := skipBlank_cons (by decide) others
      cases (List.cons.inj (hskip.symm.trans hcolon)).1

/-- A key `name`, a colon and a name that start in a value stand in a member inside it, unless the colon would
follow the value. -/
theorem holdsMember_of_readValue {value : Value} (hread : readValue fuel depth s = .ok (value, rest))
    (hstart : '"' :: tail <:+ s) (hend : ¬ '"' :: tail <:+ rest) :
    HoldsMember fuel depth name back value s ∨ Stuck rest := by
  induction depth using Nat.strongRecOn generalizing value s rest with
  | ind depth ih =>
      have hread := readAs_of_readValue hread
      have hstart := (passes_skipBlank s).quote_suffix hstart
      generalize hskip : skipBlank s = start at hread hstart
      cases hread with
      | null _ hpasses | bool _ hpasses | number _ hpasses =>
          exact absurd (hpasses.quote_suffix hstart) hend
      | string hstring =>
          right
          rcases key_of_readString htail hstring hstart hend with ⟨rfl, -⟩ | ⟨others, rfl⟩
          · exact stuck_of_isColon hgap _
          · exact ⟨'n', others, rfl, by decide, by decide, by decide⟩
      | @array depth cs items hitems =>
          left
          have hstart := (passes_cons (by decide) cs).quote_suffix hstart
          rcases entriesRead_of_readItems hitems with ⟨-, hclosing⟩ | hentries
          · exact absurd ((passes_of_skipBlank hclosing (by decide)).quote_suffix hstart) hend
          · have hstart := (passes_skipBlank cs).quote_suffix hstart
            obtain ⟨index, item, u, hitem, hu, hholds⟩ := hentries.exists_entry
              (ih depth (Nat.lt_succ_self depth)) (Or.inl rfl) hstart hend
            refine hholds.of_part hitem fun path => ?_
            simp only [textAt?, hskip, hu, Option.bind_some]
      | @object depth cs members hmembers =>
          left
          have hstart := (passes_cons (by decide) cs).quote_suffix hstart
          rcases entriesRead_of_readMembers hmembers with ⟨-, hclosing⟩ | hentries
          · exact absurd ((passes_of_skipBlank hclosing (by decide)).quote_suffix hstart) hend
          · have hstart := (passes_skipBlank cs).quote_suffix hstart
            obtain ⟨index, member, u, hmember, hu, t, ht, hholds⟩ := hentries.exists_entry
              (holdsMember_of_readMember hgap hquote hbackslash htail (ih depth (Nat.lt_succ_self depth)))
              (Or.inr rfl) hstart hend
            have htext : ∀ path, textAt? fuel (depth + 1) (index :: path) s = textAt? fuel depth path t := by
              intro path
              simp only [textAt?, hskip, hu, ht, Option.bind_some]
            rcases hholds with hholds | ⟨hname, hkey, hbehind⟩
            · refine hholds.of_part ?_ htext
              rw [Value.part?, hmember]
              rfl
            · obtain ⟨key, held⟩ := member
              obtain rfl : held = .string name := hname
              refine ⟨[], members, index, key, t, rfl, hmember, hkey, ?_, hbehind⟩
              rw [List.nil_append, htext]
              unfold textAt?
              rfl

end Reading

end Search

end Json

namespace SourceText

open Json Text

/-- The place between the quotes of the string that a text starts with. -/
def stringPlace? (source : SourceText) (s : List Char) : Option Span :=
  match skipBlank s with
  | '"' :: cs =>
    match readString cs with
    | .ok (_, rest) => some (.between source.size cs ('"' :: rest))
    | .error _ => none
  | _ => none

/-- The place between the quotes of the string at the end of a path. -/
def stringPlaceAt? (source : SourceText) (path : List Nat) : Option Span :=
  (textAt? source.chars.length maxDepth path source.chars).bind source.stringPlace?

/-- Whether a place is the one between the quotes of a string that reads as this text. -/
inductive HoldsString (source : SourceText) (text : String) : Span → Prop where
  | between {front raw rest : List Char} : source.chars = front ++ '"' :: (raw ++ '"' :: rest) →
      readString (raw ++ '"' :: rest) = .ok (text, rest) →
      HoldsString source text ⟨Text.size front + 1, Text.size raw⟩

/-- Whether a place is that of the name in a member of an object of the document, of a key that ends in
`name`, where key and name are written as they are and the name is not what stands between them. -/
inductive NameMember (source : SourceText) (name : String) (place : Span) : Prop where
  | member {value : Value} {path : List Nat} {members : List (String × Value)} {index : Nat} {key : String} :
      parse source.chars = .ok value → value.at? path = some (.object members) →
      members[index]? = some (key, .string name) → ['n', 'a', 'm', 'e'] <:+ key.toList →
      source.stringPlaceAt? (path ++ [index]) = some place → source.ReadsName name place →
      NameMember source name place

section Documents

variable {source : SourceText} {name text : String} {value : Value} {place : Span}

theorem between_eq {front raw rest : List Char}
    (hchars : source.chars = front ++ '"' :: (raw ++ '"' :: rest)) :
    Span.between source.size (raw ++ '"' :: rest) ('"' :: rest) =
      ⟨Text.size front + 1, Text.size raw⟩ := by
  have hquote : Char.utf8Size '"' = 1 := rfl
  rw [Span.between, SourceText.size, hchars]
  simp only [size_append, size_cons, hquote, Span.mk.injEq]
  omega

/-- What is parsed is read off the front of the text, and blanks are left. -/
theorem readFirst_of_parse (hparse : parse source.chars = .ok value) :
    ∃ rest, readFirst source.chars = .ok (value, rest) ∧ skipBlank rest = [] := by
  obtain ⟨⟨first, rest⟩, hfirst, hend⟩ := bind_eq_ok_iff.mp hparse
  obtain ⟨_, hblank, hvalue⟩ := bind_eq_ok_iff.mp hend
  cases hvalue
  refine ⟨rest, hfirst, ?_⟩
  unfold expectEnd at hblank
  split at hblank
  · next hskip => exact hskip
  · cases hblank

/-- Each string of a document has its place. -/
theorem exists_stringPlaceAt? {path : List Nat} (hparse : parse source.chars = .ok value)
    (hpart : value.at? path = some (.string text)) :
    ∃ place, source.stringPlaceAt? path = some place ∧ source.HoldsString text place := by
  obtain ⟨rest, hfirst, -⟩ := readFirst_of_parse hparse
  obtain ⟨s, below, after, hs, hsuffix, hread⟩ := exists_textAt? hfirst hpart
  obtain ⟨front, hfront⟩ := (skipBlank_suffix s).trans hsuffix
  have hread := readAs_of_readValue hread
  unfold stringPlaceAt?
  rw [hs, Option.bind_some]
  unfold stringPlace?
  generalize skipBlank s = start at hread hfront ⊢
  cases hread with
  | @string _ cs _ hstring =>
      obtain ⟨raw, rfl, -⟩ := readString_eq_ok hstring
      refine ⟨_, ?_, .between hfront.symm hstring⟩
      simp only [hstring, between_eq hfront.symm]

/-- **Where the text says that something has a name, a member of an object of the document says so.** -/
theorem ReadsName.nameMember (hparse : parse source.chars = .ok value) (hquote : '"' ∉ name.toList)
    (hbackslash : '\\' ∉ name.toList) (hreads : source.ReadsName name place) :
    source.NameMember name place := by
  obtain ⟨front, gap, ⟨hgap, before, hfront⟩, -, hoccurs, hplace⟩ := id hreads
  obtain ⟨back, hchars⟩ := occursBehind_betweenQuotes_iff.mp hoccurs
  obtain ⟨rest, hfirst, hblank⟩ := readFirst_of_parse hparse
  have hstart : '"' :: ('n' :: 'a' :: 'm' :: 'e' :: '"' :: (gap ++ '"' :: (name.toList ++ '"' :: back))) <:+
      source.chars := by
    refine ⟨before, ?_⟩
    rw [hchars, hfront]
    simp [nameKey]
  have hend : ∀ tail, ¬ '"' :: tail <:+ rest := by
    intro tail hsuffix
    have hnil := (passes_skipBlank rest).quote_suffix hsuffix
    rw [hblank] at hnil
    cases List.suffix_nil.mp hnil
  rcases holdsMember_of_readValue hgap hquote hbackslash rfl hfirst hstart (hend _) with
    ⟨path, members, index, key, t, hobject, hmember, hkey, ht, hskip⟩ | ⟨c, cs, hstuck, -⟩
  · have hpart : value.at? (path ++ [index]) = some (.string name) := by
      rw [value.at?_append, hobject, Option.bind_some, Value.at?, Value.part?, hmember]
      rfl
    obtain ⟨found, hfound, -⟩ := exists_stringPlaceAt? hparse hpart
    have hstring : source.stringPlace? t = some found := by
      rw [stringPlaceAt?, ht, Option.bind_some] at hfound
      exact hfound
    simp only [stringPlace?, hskip] at hstring
    split at hstring
    · next after hread =>
        obtain ⟨raw, hraw, hspelled⟩ := readString_eq_ok hread
        obtain ⟨-, rfl⟩ := hspelled.eq_of_plain hquote hbackslash hraw.symm
        rw [between_eq hchars, ← hplace] at hstring
        obtain rfl : place = found := Option.some.inj hstring
        exact .member hparse hobject hmember hkey hfound hreads
    · cases hstring
  · rw [hblank] at hstuck
    cases hstuck

theorem nameMember_iff_readsName (hparse : parse source.chars = .ok value) (hquote : '"' ∉ name.toList)
    (hbackslash : '\\' ∉ name.toList) : source.NameMember name place ↔ source.ReadsName name place := by
  constructor
  · rintro ⟨-, -, -, -, -, hreads⟩
    exact hreads
  · exact fun hreads => hreads.nameMember hparse hquote hbackslash

/-- A name whose quotes are those of a string that reads as it is written holds no quote and no backslash. -/
theorem HoldsString.plain {front : List Char} (hholds : source.HoldsString name place)
    (hoccurs : OccursBehind (betweenQuotes name.toList) source.chars front)
    (hplace : place = ⟨Text.size front + 1, Text.size name.toList⟩) :
    '"' ∉ name.toList ∧ '\\' ∉ name.toList := by
  obtain ⟨htext, hread⟩ := hholds
  rename_i before raw after
  obtain ⟨hoffset, hlength⟩ := Span.mk.inj hplace
  obtain ⟨back, hback⟩ := occursBehind_betweenQuotes_iff.mp hoccurs
  rw [htext] at hback
  obtain ⟨rfl, hcut⟩ := append_inj_of_size hback (Nat.succ.inj hoffset)
  obtain ⟨rfl, -⟩ := append_inj_of_size (List.cons.inj hcut).2 hlength
  obtain ⟨written, hwritten, hspelled⟩ := readString_eq_ok hread
  rw [← List.append_cancel_right hwritten] at hspelled
  exact hspelled.notMem_of_self

end Documents

end SourceText

end EntityClasses
