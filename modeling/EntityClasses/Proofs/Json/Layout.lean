import Mathlib.Data.List.Basic
import Mathlib.Data.List.TakeWhile
import EntityClasses.Json.Reader
import EntityClasses.Proofs.Json.Strings

/-! Where the parts of a value stand in its text. A path leads from a value to a part of it, by the indices
of items and members. The reader passes the same way over the text, so that the text at the end of a path
is one that it reads as the part there. -/

namespace EntityClasses.Json

/-- The part of a value at an index: an item, or the value of a member. -/
def Value.part? : Value → Nat → Option Value
  | .array items, index => items[index]?
  | .object members, index => members[index]?.map (·.2)
  | _, _ => none

/-- The part of a value at the end of a path. -/
def Value.at? : Value → List Nat → Option Value
  | value, [] => some value
  | value, index :: path => (value.part? index).bind (·.at? path)

theorem Value.at?_append (value : Value) (path further : List Nat) :
    value.at? (path ++ further) = (value.at? path).bind (·.at? further) := by
  induction path generalizing value with
  | nil => rfl
  | cons index path ih =>
      rw [List.cons_append, Value.at?, Value.at?]
      cases value.part? index with
      | none => rfl
      | some part => exact ih part

/-- The text from an entry on, from the text of the entry at the front. Commas stand between entries. -/
def entryText? {α : Type} (entry : Reader α) : Nat → List Char → Option (List Char)
  | 0, s => some s
  | index + 1, s =>
    match entry s with
    | .error _ => none
    | .ok (_, rest) =>
      match skipBlank rest with
      | ',' :: next => entryText? entry index (skipBlank next)
      | _ => none

/-- The text behind the key of a member and its colon. -/
def memberText? : List Char → Option (List Char)
  | '"' :: cs =>
    match readString cs with
    | .error _ => none
    | .ok (_, rest) =>
      match skipBlank rest with
      | ':' :: behind => some behind
      | _ => none
  | _ => none

/-- The text from the part at the end of a path on, in a text in which at most `depth` arrays and objects
are open at once. -/
def textAt? (fuel : Nat) : (depth : Nat) → (path : List Nat) → List Char → Option (List Char)
  | _, [], s => some s
  | 0, _ :: _, _ => none
  | depth + 1, index :: path, s =>
    match skipBlank s with
    | '[' :: cs =>
      (entryText? (readValue fuel depth) index (skipBlank cs)).bind (textAt? fuel depth path)
    | '\x7b' :: cs =>
      ((entryText? (readMember (readValue fuel depth)) index (skipBlank cs)).bind memberText?).bind
        (textAt? fuel depth path)
    | _ => none

/-- Whether a text is left behind characters of which none is a quote. -/
def Passes (s rest : List Char) : Prop :=
  ∃ passed, s = passed ++ rest ∧ '"' ∉ passed

section Passing

variable {s between rest : List Char}

theorem Passes.refl (s : List Char) : Passes s s :=
  ⟨[], rfl, nofun⟩

theorem Passes.trans (hfirst : Passes s between) (hsecond : Passes between rest) : Passes s rest := by
  obtain ⟨passed, rfl, hpassed⟩ := hfirst
  obtain ⟨more, rfl, hmore⟩ := hsecond
  refine ⟨passed ++ more, (List.append_assoc _ _ _).symm, ?_⟩
  rw [List.mem_append]
  exact not_or.mpr ⟨hpassed, hmore⟩

theorem Passes.suffix (hpasses : Passes s rest) : rest <:+ s := by
  obtain ⟨passed, rfl, -⟩ := hpasses
  exact List.suffix_append passed rest

theorem passes_cons {c : Char} (hc : c ≠ '"') (s : List Char) : Passes (c :: s) s :=
  ⟨[c], rfl, fun hmem => hc (List.mem_singleton.mp hmem).symm⟩

theorem passes_dropWhile {p : Char → Bool} (hquote : p '"' = false) (s : List Char) :
    Passes s (s.dropWhile p) := by
  refine ⟨s.takeWhile p, List.takeWhile_append_dropWhile.symm, ?_⟩
  intro hmem
  rw [List.mem_takeWhile_imp hmem] at hquote
  cases hquote

theorem passes_skipBlank (s : List Char) : Passes s (skipBlank s) :=
  passes_dropWhile (by decide) s

theorem passes_spanDigits (s : List Char) : Passes s (spanDigits s).2 :=
  passes_dropWhile (by decide) s

theorem skipBlank_suffix (s : List Char) : skipBlank s <:+ s :=
  (passes_skipBlank s).suffix

/-- What is left behind a character that is not blank, and the blanks in front of it. -/
theorem passes_of_skipBlank {c : Char} (hskip : skipBlank s = c :: rest) (hc : c ≠ '"') :
    Passes s rest :=
  (hskip ▸ passes_skipBlank s).trans (passes_cons hc rest)

/-- A quote is still to come behind characters that are none. -/
theorem Passes.quote_suffix {t : List Char} (hpasses : Passes s rest) (hquote : '"' :: t <:+ s) :
    '"' :: t <:+ rest := by
  obtain ⟨passed, rfl, hpassed⟩ := hpasses
  obtain ⟨front, htext⟩ := hquote
  rcases List.append_eq_append_iff.mp htext with ⟨more, rfl, hcut⟩ | ⟨more, rfl, hcut⟩
  · cases more with
    | nil => exact ⟨[], hcut⟩
    | cons c more =>
        obtain rfl : '"' = c := (List.cons.inj hcut).1
        exact absurd (List.mem_append_right front List.mem_cons_self) hpassed
  · exact ⟨more, hcut.symm⟩

theorem readWord_eq_ok {word read : Value} {letters : List Char} (hletters : '"' ∉ letters)
    (hread : readWord word letters s = .ok (read, rest)) : read = word ∧ Passes s rest := by
  induction letters generalizing s with
  | nil =>
      cases hread
      exact ⟨rfl, .refl rest⟩
  | cons a letters ih =>
      cases s with
      | nil => cases hread
      | cons c s =>
          rw [readWord] at hread
          split at hread
          · next heq =>
              obtain ⟨hword, hrest⟩ := ih (fun hmem => hletters (List.mem_cons_of_mem a hmem)) hread
              have hc : c ≠ '"' := by
                rintro rfl
                exact hletters (heq ▸ List.mem_cons_self)
              exact ⟨hword, (passes_cons hc s).trans hrest⟩
          · cases hread

theorem readExponent_passes {significand : Nat} {exponent : Int}
    (hread : readExponent significand exponent s = .ok rest) : Passes s rest := by
  unfold readExponent at hread
  split at hread
  next isNegative unsigned hsign =>
    have hunsigned : Passes s unsigned := by
      split at hsign <;> cases hsign
      · exact passes_cons (by decide) _
      · exact passes_cons (by decide) _
      · exact .refl s
    split at hread
    · cases hread
    · next c cs =>
        obtain rfl : (spanDigits (c :: cs)).2 = rest := by
          dsimp only at hread
          split at hread
          · cases hread
          · split at hread <;> split_ifs at hread <;> exact Except.ok.inj hread
        exact hunsigned.trans (passes_spanDigits (c :: cs))

theorem readScale_passes {whole fraction : List Char}
    (hread : readScale whole fraction s = .ok rest) : Passes s rest := by
  unfold readScale at hread
  dsimp only at hread
  split at hread
  · exact (passes_cons (by decide) _).trans (readExponent_passes hread)
  · exact (passes_cons (by decide) _).trans (readExponent_passes hread)
  · split_ifs at hread
    cases hread
    exact .refl s

theorem readFraction_passes {whole : List Char} (hread : readFraction whole s = .ok rest) :
    Passes s rest := by
  unfold readFraction at hread
  split at hread
  · next behind =>
      have hdigits : Passes ('.' :: behind) (spanDigits behind).2 :=
        (passes_cons (by decide) behind).trans (passes_spanDigits behind)
      split at hread
      · cases hread
      · cases hread
      · next fraction unread _ hspan =>
          rw [hspan] at hdigits
          exact hdigits.trans (readScale_passes hread)
  · exact readScale_passes hread

theorem readUnsigned_passes (hread : readUnsigned s = .ok rest) : Passes s rest := by
  unfold readUnsigned at hread
  split at hread
  · cases hread
  · split at hread
    · exact (passes_cons (by decide) _).trans (readFraction_passes hread)
    · split_ifs at hread
      exact (passes_cons (by decide) _).trans (readFraction_passes hread)
  · split_ifs at hread
    exact (passes_spanDigits _).trans (readFraction_passes hread)

theorem readNumber_passes (hread : readNumber s = .ok rest) : Passes s rest := by
  unfold readNumber at hread
  split at hread
  · exact (passes_cons (by decide) _).trans (readUnsigned_passes hread)
  · exact readUnsigned_passes hread

end Passing

section Inversion

variable {fuel depth : Nat} {s rest : List Char} {value : Value}

/-- How a value is read off a text that does not start with blanks. An array or an object is read at a
depth that leaves one for what it holds. -/
inductive ReadAs (fuel : Nat) (rest : List Char) : (depth : Nat) → Value → List Char → Prop where
  | null {depth : Nat} {c : Char} {cs : List Char} : c ≠ '"' → Passes (c :: cs) rest →
      ReadAs fuel rest depth .null (c :: cs)
  | bool {depth : Nat} {c : Char} {cs : List Char} {flag : Bool} : c ≠ '"' → Passes (c :: cs) rest →
      ReadAs fuel rest depth (.bool flag) (c :: cs)
  | number {depth : Nat} {c : Char} {cs : List Char} : c ≠ '"' → Passes (c :: cs) rest →
      ReadAs fuel rest depth .number (c :: cs)
  | string {depth : Nat} {cs : List Char} {text : String} : readString cs = .ok (text, rest) →
      ReadAs fuel rest depth (.string text) ('"' :: cs)
  | array {depth : Nat} {cs : List Char} {items : List Value} :
      readItems (readValue fuel depth) fuel cs = .ok (items, rest) →
      ReadAs fuel rest (depth + 1) (.array items) ('[' :: cs)
  | object {depth : Nat} {cs : List Char} {members : List (String × Value)} :
      readMembers (readValue fuel depth) fuel cs = .ok (members, rest) →
      ReadAs fuel rest (depth + 1) (.object members) ('\x7b' :: cs)

theorem readAs_of_readWith {array object : Reader Value}
    (harray : ∀ cs, array ('[' :: cs) = .ok (value, rest) → ReadAs fuel rest depth value ('[' :: cs))
    (hobject : ∀ cs, object ('\x7b' :: cs) = .ok (value, rest) →
      ReadAs fuel rest depth value ('\x7b' :: cs))
    (hread : readWith array object s = .ok (value, rest)) :
    ReadAs fuel rest depth value (skipBlank s) := by
  unfold readWith at hread
  split at hread
  · cases hread
  · next c cs hskip =>
      rw [hskip]
      split_ifs at hread with hn ht hf hquote hbracket hbrace hnumber
      · have hquote : c ≠ '"' := hn ▸ by decide
        obtain ⟨rfl, hpasses⟩ := readWord_eq_ok (by decide) hread
        exact .null hquote ((passes_cons hquote cs).trans hpasses)
      · have hquote : c ≠ '"' := ht ▸ by decide
        obtain ⟨rfl, hpasses⟩ := readWord_eq_ok (by decide) hread
        exact .bool hquote ((passes_cons hquote cs).trans hpasses)
      · have hquote : c ≠ '"' := hf ▸ by decide
        obtain ⟨rfl, hpasses⟩ := readWord_eq_ok (by decide) hread
        exact .bool hquote ((passes_cons hquote cs).trans hpasses)
      · obtain ⟨⟨text, after⟩, hstring, hread⟩ := bind_eq_ok_iff.mp hread
        cases hread
        rw [hquote]
        exact .string hstring
      · rw [hbracket] at hread ⊢
        exact harray cs hread
      · rw [hbrace] at hread ⊢
        exact hobject cs hread
      · obtain ⟨after, hnumber, hread⟩ := bind_eq_ok_iff.mp hread
        cases hread
        exact .number hquote (readNumber_passes hnumber)

theorem readAs_of_readValue (hread : readValue fuel depth s = .ok (value, rest)) :
    ReadAs fuel rest depth value (skipBlank s) := by
  cases depth with
  | zero =>
      refine readAs_of_readWith ?_ ?_ hread
      · intro cs htooDeep
        cases htooDeep
      · intro cs htooDeep
        cases htooDeep
  | succ depth =>
      refine readAs_of_readWith ?_ ?_ hread
      · intro cs harray
        obtain ⟨⟨items, after⟩, hitems, harray⟩ := bind_eq_ok_iff.mp harray
        cases harray
        exact .array hitems
      · intro cs hobject
        obtain ⟨⟨members, after⟩, hmembers, hobject⟩ := bind_eq_ok_iff.mp hobject
        cases hobject
        exact .object hmembers

end Inversion

/-- Entries that are read one behind the other, from the first one on: commas stand between them, and the
closing bracket behind the last one. -/
inductive EntriesRead {α : Type} (entry : Reader α) (closing : Char) (after : List Char) :
    List α → List Char → Prop where
  | last {a : α} {s rest : List Char} : entry s = .ok (a, rest) → skipBlank rest = closing :: after →
      EntriesRead entry closing after [a] s
  | more {a : α} {as : List α} {s rest next : List Char} : entry s = .ok (a, rest) →
      skipBlank rest = ',' :: next → EntriesRead entry closing after as (skipBlank next) →
      EntriesRead entry closing after (a :: as) s

section Entries

variable {fuel : Nat} {item : Reader Value} {s rest after : List Char}

theorem entriesRead_of_readMoreItems {a : Value} {as : List Value} (hitem : item s = .ok (a, rest))
    (hmore : readMoreItems item fuel rest = .ok (as, after)) :
    EntriesRead item ']' after (a :: as) s := by
  induction fuel generalizing a as s rest with
  | zero =>
      rw [readMoreItems.eq_def] at hmore
      cases hskip : skipBlank rest <;> rw [hskip] at hmore <;> cases hmore
  | succ fuel ih =>
      rw [readMoreItems.eq_def] at hmore
      cases hskip : skipBlank rest with
      | nil =>
          rw [hskip] at hmore
          cases hmore
      | cons c cs =>
          rw [hskip] at hmore
          dsimp only at hmore
          split_ifs at hmore with hclosing hcomma
          · cases hmore
            exact .last hitem (hclosing ▸ hskip)
          · split at hmore
            · cases hmore
            · cases hmore
            · obtain ⟨⟨b, between⟩, hb, hmore⟩ := bind_eq_ok_iff.mp hmore
              obtain ⟨⟨bs, behind⟩, hbs, hmore⟩ := bind_eq_ok_iff.mp hmore
              cases hmore
              exact .more hitem (hcomma ▸ hskip) (ih hb hbs)

theorem entriesRead_of_readItems {items : List Value} (hread : readItems item fuel s = .ok (items, after)) :
    items = [] ∧ skipBlank s = ']' :: after ∨ EntriesRead item ']' after items (skipBlank s) := by
  rw [readItems.eq_def] at hread
  split at hread
  · cases hread
  · next hskip =>
      cases hread
      exact Or.inl ⟨rfl, hskip⟩
  · obtain ⟨⟨a, rest⟩, ha, hread⟩ := bind_eq_ok_iff.mp hread
    obtain ⟨⟨as, behind⟩, has, hread⟩ := bind_eq_ok_iff.mp hread
    cases hread
    exact Or.inr (entriesRead_of_readMoreItems ha has)

theorem entriesRead_of_readMoreMembers {member : String × Value} {members : List (String × Value)}
    (hmember : readMember item s = .ok (member, rest))
    (hmore : readMoreMembers item fuel rest = .ok (members, after)) :
    EntriesRead (readMember item) '\x7d' after (member :: members) s := by
  induction fuel generalizing member members s rest with
  | zero =>
      rw [readMoreMembers.eq_def] at hmore
      cases hskip : skipBlank rest <;> rw [hskip] at hmore <;> cases hmore
  | succ fuel ih =>
      rw [readMoreMembers.eq_def] at hmore
      cases hskip : skipBlank rest with
      | nil =>
          rw [hskip] at hmore
          cases hmore
      | cons c cs =>
          rw [hskip] at hmore
          dsimp only at hmore
          split_ifs at hmore with hclosing hcomma
          · cases hmore
            exact .last hmember (hclosing ▸ hskip)
          · obtain ⟨⟨b, between⟩, hb, hmore⟩ := bind_eq_ok_iff.mp hmore
            obtain ⟨⟨bs, behind⟩, hbs, hmore⟩ := bind_eq_ok_iff.mp hmore
            cases hmore
            exact .more hmember (hcomma ▸ hskip) (ih hb hbs)

theorem entriesRead_of_readMembers {members : List (String × Value)}
    (hread : readMembers item fuel s = .ok (members, after)) :
    members = [] ∧ skipBlank s = '\x7d' :: after ∨
      EntriesRead (readMember item) '\x7d' after members (skipBlank s) := by
  rw [readMembers.eq_def] at hread
  split at hread
  · cases hread
  · next hskip =>
      cases hread
      exact Or.inl ⟨rfl, hskip⟩
  · obtain ⟨⟨a, rest⟩, ha, hread⟩ := bind_eq_ok_iff.mp hread
    obtain ⟨⟨as, behind⟩, has, hread⟩ := bind_eq_ok_iff.mp hread
    cases hread
    exact Or.inr (entriesRead_of_readMoreMembers ha has)

theorem readMember_eq_ok {member : String × Value} (hread : readMember item s = .ok (member, rest)) :
    ∃ cs behind between, s = '"' :: cs ∧ readString cs = .ok (member.1, between) ∧
      skipBlank between = ':' :: behind ∧ item behind = .ok (member.2, rest) := by
  unfold readMember at hread
  split at hread
  · cases hread
  · cases hread
  · next cs =>
      obtain ⟨⟨key, between⟩, hkey, hread⟩ := bind_eq_ok_iff.mp hread
      dsimp only at hread
      split at hread
      · cases hread
      · next behind hcolon =>
          obtain ⟨⟨value, left⟩, hvalue, hread⟩ := bind_eq_ok_iff.mp hread
          cases hread
          exact ⟨cs, behind, between, rfl, hkey, hcolon, hvalue⟩
      · cases hread
  · cases hread

end Entries

/-- Whether a reader takes what it reads off the front of a text. -/
def LeavesSuffix {α : Type} (reader : Reader α) : Prop :=
  ∀ ⦃s rest : List Char⦄ ⦃a : α⦄, reader s = .ok (a, rest) → rest <:+ s

section Suffixes

variable {s rest : List Char}

theorem tail_suffix_of_skipBlank {c : Char} (hskip : skipBlank s = c :: rest) : rest <:+ s :=
  (List.suffix_cons c rest).trans (hskip ▸ skipBlank_suffix s)

theorem readString_suffix : LeavesSuffix readString := by
  intro s rest text hread
  obtain ⟨raw, rfl, -⟩ := readString_eq_ok hread
  exact (List.suffix_cons _ _).trans (List.suffix_append _ _)

theorem readMember_suffix {item : Reader Value} (hitem : LeavesSuffix item) :
    LeavesSuffix (readMember item) := by
  intro s rest member hread
  obtain ⟨cs, behind, between, rfl, hkey, hcolon, hvalue⟩ := readMember_eq_ok hread
  have hbehind : behind <:+ cs := (tail_suffix_of_skipBlank hcolon).trans (readString_suffix hkey)
  exact ((hitem hvalue).trans hbehind).trans (List.suffix_cons _ _)

theorem EntriesRead.suffix {α : Type} {entry : Reader α} {closing : Char} {as : List α}
    (hentry : LeavesSuffix entry) (hread : EntriesRead entry closing rest as s) : rest <:+ s := by
  induction hread with
  | last ha hclosing => exact (tail_suffix_of_skipBlank hclosing).trans (hentry ha)
  | more ha hcomma _ ih =>
      have hnext := (tail_suffix_of_skipBlank hcomma).trans (hentry ha)
      exact (ih.trans (skipBlank_suffix _)).trans hnext

theorem readItems_suffix {item : Reader Value} (fuel : Nat) (hitem : LeavesSuffix item) :
    LeavesSuffix (readItems item fuel) := by
  intro s rest items hread
  rcases entriesRead_of_readItems hread with ⟨-, hclosing⟩ | hentries
  · exact tail_suffix_of_skipBlank hclosing
  · exact (hentries.suffix hitem).trans (skipBlank_suffix s)

theorem readMembers_suffix {item : Reader Value} (fuel : Nat) (hitem : LeavesSuffix item) :
    LeavesSuffix (readMembers item fuel) := by
  intro s rest members hread
  rcases entriesRead_of_readMembers hread with ⟨-, hclosing⟩ | hentries
  · exact tail_suffix_of_skipBlank hclosing
  · exact (hentries.suffix (readMember_suffix hitem)).trans (skipBlank_suffix s)

/-- Every value is read off the front of its text. -/
theorem readValue_suffix (fuel depth : Nat) : LeavesSuffix (readValue fuel depth) := by
  induction depth using Nat.strongRecOn with
  | ind depth ih =>
      intro s rest value hread
      have hread := readAs_of_readValue hread
      refine List.IsSuffix.trans ?_ (skipBlank_suffix s)
      generalize skipBlank s = t at hread ⊢
      cases hread with
      | null _ hpasses | bool _ hpasses | number _ hpasses => exact hpasses.suffix
      | string hstring => exact (readString_suffix hstring).trans (List.suffix_cons _ _)
      | array hitems =>
          have hitem := ih _ (Nat.lt_succ_self _)
          exact (readItems_suffix fuel hitem hitems).trans (List.suffix_cons _ _)
      | object hmembers =>
          have hitem := ih _ (Nat.lt_succ_self _)
          exact (readMembers_suffix fuel hitem hmembers).trans (List.suffix_cons _ _)

end Suffixes

section Paths

variable {fuel depth : Nat} {s rest : List Char} {value part : Value}

/-- The text of each entry is reached, and read as that entry. -/
theorem EntriesRead.entryText? {α : Type} {entry : Reader α} {closing : Char} {as : List α}
    (hentry : LeavesSuffix entry) (hread : EntriesRead entry closing rest as s) {index : Nat} {a : α}
    (hindex : as[index]? = some a) :
    ∃ t after, entryText? entry index s = some t ∧ t <:+ s ∧ entry t = .ok (a, after) := by
  induction hread generalizing index with
  | @last first s behind hfirst hclosing =>
      cases index with
      | zero =>
          cases hindex
          exact ⟨s, behind, rfl, List.suffix_rfl, hfirst⟩
      | succ index => cases hindex
  | @more first others s behind next hfirst hcomma _ ih =>
      cases index with
      | zero =>
          cases hindex
          exact ⟨s, behind, rfl, List.suffix_rfl, hfirst⟩
      | succ index =>
          obtain ⟨t, after, htext, hsuffix, ha⟩ := ih hindex
          refine ⟨t, after, ?_, ?_, ha⟩
          · simp only [Json.entryText?, hfirst, hcomma, htext]
          · have hnext := (tail_suffix_of_skipBlank hcomma).trans (hentry hfirst)
            exact (hsuffix.trans (skipBlank_suffix next)).trans hnext

/-- **Where a part stands.** The text at the end of a path is reached, and read as the part there. -/
theorem exists_textAt? {path : List Nat} (hread : readValue fuel depth s = .ok (value, rest))
    (hpart : value.at? path = some part) :
    ∃ t below after, textAt? fuel depth path s = some t ∧ t <:+ s ∧
      readValue fuel below t = .ok (part, after) := by
  induction path generalizing depth s value rest with
  | nil =>
      cases hpart
      refine ⟨s, depth, rest, ?_, List.suffix_rfl, hread⟩
      unfold textAt?
      rfl
  | cons index path ih =>
      obtain ⟨held, hheld, hpath⟩ := Option.bind_eq_some_iff.mp hpart
      have hread := readAs_of_readValue hread
      generalize hskip : skipBlank s = start at hread
      have hstart : start <:+ s := hskip ▸ skipBlank_suffix s
      cases hread with
      | @array below cs items hitems =>
          rcases entriesRead_of_readItems hitems with ⟨rfl, -⟩ | hentries
          · cases hheld
          · obtain ⟨t, after, ht, hsuffix, hitem⟩ := hentries.entryText? (readValue_suffix fuel below) hheld
            obtain ⟨u, lower, behind, hu, husuffix, hread⟩ := ih hitem hpath
            refine ⟨u, lower, behind, ?_, ?_, hread⟩
            · simp only [textAt?, hskip, ht, Option.bind_some, hu]
            · have hcs : cs <:+ s := (List.suffix_cons _ _).trans hstart
              exact ((husuffix.trans hsuffix).trans (skipBlank_suffix cs)).trans hcs
      | @object below cs members hmembers =>
          rcases entriesRead_of_readMembers hmembers with ⟨rfl, -⟩ | hentries
          · cases hheld
          · obtain ⟨member, hmember, rfl⟩ := Option.map_eq_some_iff.mp hheld
            obtain ⟨t, after, ht, hsuffix, hmember⟩ :=
              hentries.entryText? (readMember_suffix (readValue_suffix fuel below)) hmember
            obtain ⟨quoted, behind, between, rfl, hkey, hcolon, hvalue⟩ := readMember_eq_ok hmember
            obtain ⟨u, lower, left, hu, husuffix, hread⟩ := ih hvalue hpath
            refine ⟨u, lower, left, ?_, ?_, hread⟩
            · simp only [textAt?, hskip, ht, Option.bind_some, memberText?, hkey, hcolon, hu]
            · have hbehind : behind <:+ quoted :=
                (tail_suffix_of_skipBlank hcolon).trans (readString_suffix hkey)
              have hmemberText := (husuffix.trans hbehind).trans (List.suffix_cons '"' quoted)
              have hcs : cs <:+ s := (List.suffix_cons _ _).trans hstart
              exact ((hmemberText.trans hsuffix).trans (skipBlank_suffix cs)).trans hcs
      | _ => cases hheld

end Paths

end EntityClasses.Json
