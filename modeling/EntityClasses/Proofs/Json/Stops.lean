import EntityClasses.Proofs.Json.Layout

/-! Where a reader stops. Whatever is wrong with a text, the reader has not left it: what an error has in
front of it is the end of the text from some character on. So the bytes that have been looked at are bytes
of the text. -/

namespace EntityClasses.Json

/-- An error has an end of the text in front of it. -/
def StopsIn {α : Type} (s : List Char) (result : Except SyntaxError α) : Prop :=
  ∀ error, result = .error error → error.rest <:+ s

/-- Whether a reader stops with an error can be decided, whatever it reads otherwise. -/
instance {α : Type} (result : Except SyntaxError α) (error : SyntaxError) :
    Decidable (result = .error error) :=
  match result with
  | .ok _ => .isFalse nofun
  | .error cause => decidable_of_iff (cause = error) ⟨congrArg _, Except.error.inj⟩

namespace StopsIn

variable {α β : Type} {s t : List Char} {result : Except SyntaxError α}

theorem ok (a : α) : StopsIn s (.ok a) :=
  nofun

theorem error {error : SyntaxError} (hrest : error.rest <:+ s) :
    StopsIn s (.error error : Except SyntaxError α) := by
  rintro _ ⟨⟩
  exact hrest

theorem mono (hsuffix : t <:+ s) (hstops : StopsIn t result) : StopsIn s result :=
  fun error herror => (hstops error herror).trans hsuffix

theorem bind {next : α → Except SyntaxError β} (hstops : StopsIn s result)
    (hnext : ∀ a, result = .ok a → StopsIn s (next a)) : StopsIn s (result >>= next) := by
  cases result with
  | error cause =>
      rintro _ ⟨⟩
      exact hstops cause rfl
  | ok a => exact hnext a rfl

end StopsIn

section Strings

variable {s rest : List Char}

theorem readHex_stops (s : List Char) : StopsIn s (readHex s) := by
  unfold readHex
  split
  · exact .error (List.nil_suffix)
  · split
    · split
      · exact .ok _
      · exact .error List.suffix_rfl
    · exact .error List.suffix_rfl

theorem readHex_suffix {unit : Nat} (hread : readHex s = .ok (unit, rest)) : rest <:+ s := by
  obtain ⟨digits, rfl, -⟩ := readHex_eq_ok hread
  exact List.suffix_append digits rest

theorem expectInString_stops (expected : Char) (s : List Char) :
    StopsIn s (expectInString expected s) := by
  unfold expectInString
  split
  · exact .error List.nil_suffix
  · split
    · exact .ok _
    · exact .error List.suffix_rfl

theorem expectInString_suffix {expected : Char} (hread : expectInString expected s = .ok rest) :
    rest <:+ s := by
  unfold expectInString at hread
  split at hread
  · cases hread
  · split at hread
    · cases hread
      exact List.suffix_cons _ _
    · cases hread

theorem readUnicode_stops (s : List Char) : StopsIn s (readUnicode s) := by
  unfold readUnicode
  refine .bind (readHex_stops s) fun read hunit => ?_
  obtain ⟨unit, rest⟩ := read
  have hrest := readHex_suffix hunit
  dsimp only
  split
  · exact .error hrest
  · split
    · refine .bind ((expectInString_stops _ rest).mono hrest) fun escape hescape => ?_
      have hescape := (expectInString_suffix hescape).trans hrest
      refine .bind ((expectInString_stops _ escape).mono hescape) fun digits hdigits => ?_
      have hdigits := (expectInString_suffix hdigits).trans hescape
      refine .bind ((readHex_stops digits).mono hdigits) fun read htrailing => ?_
      obtain ⟨trailing, behind⟩ := read
      dsimp only
      split
      · exact .ok _
      · exact .error ((readHex_suffix htrailing).trans hdigits)
    · exact .ok _

theorem readEscape_stops (s : List Char) : StopsIn s (readEscape s) := by
  unfold readEscape
  split <;> try exact .ok _
  · exact .error List.nil_suffix
  · exact (readUnicode_stops _).mono (List.suffix_cons _ _)
  · exact .error List.suffix_rfl

theorem readCharacters_stops (skip : Nat) (s : List Char) : StopsIn s (readCharacters skip s) := by
  induction s generalizing skip with
  | nil =>
      rw [readCharacters]
      exact .error List.nil_suffix
  | cons c cs ih =>
      have hcs : cs <:+ c :: cs := List.suffix_cons c cs
      cases skip with
      | succ skip =>
          rw [readCharacters]
          exact (ih skip).mono hcs
      | zero =>
          rw [readCharacters]
          split_ifs
          · exact .ok _
          · refine .bind ((readEscape_stops cs).mono hcs) fun read _ => ?_
            obtain ⟨escaped, count⟩ := read
            exact .bind ((ih (count - 1)).mono hcs) fun _ _ => .ok _
          · exact .error List.suffix_rfl
          · exact .bind ((ih 0).mono hcs) fun _ _ => .ok _

theorem readString_stops (s : List Char) : StopsIn s (readString s) :=
  .bind (readCharacters_stops 0 s) fun _ _ => .ok _

end Strings

section Numbers

variable {s : List Char}

theorem exponentValue_suffix {exponent : Nat} {digits unread : List Char}
    (hvalue : exponentValue exponent digits = .error unread) : unread <:+ digits := by
  induction digits generalizing exponent with
  | nil => cases hvalue
  | cons c digits ih =>
      unfold exponentValue at hvalue
      dsimp only at hvalue
      split at hvalue
      · exact (ih hvalue).trans (List.suffix_cons c digits)
      · cases hvalue
        exact List.suffix_cons c _

theorem spanDigits_append (s : List Char) : (spanDigits s).1 ++ (spanDigits s).2 = s :=
  List.takeWhile_append_dropWhile

theorem readExponent_stops (significand : Nat) (exponent : Int) (s : List Char) :
    StopsIn s (readExponent significand exponent s) := by
  unfold readExponent
  split
  next isNegative unsigned hsign =>
    have hunsigned : unsigned <:+ s := by
      split at hsign <;> cases hsign
      · exact List.suffix_cons _ _
      · exact List.suffix_cons _ _
      · exact List.suffix_rfl
    refine .mono hunsigned ?_
    split
    · exact .error List.nil_suffix
    · next c cs =>
        split
        · exact .error List.suffix_rfl
        · dsimp only
          split
          · split_ifs
            · exact .ok _
            · exact .error (passes_spanDigits (c :: cs)).suffix
            · exact .ok _
            · exact .error (passes_spanDigits (c :: cs)).suffix
          · next unread hunread =>
              split
              · exact .ok _
              · obtain ⟨front, hfront⟩ := exponentValue_suffix hunread
                have hspan := spanDigits_append (c :: cs)
                rw [← hfront, List.append_assoc] at hspan
                exact .error ⟨front, hspan⟩

theorem readScale_stops (whole fraction s : List Char) : StopsIn s (readScale whole fraction s) := by
  unfold readScale
  dsimp only
  split
  · exact (readExponent_stops _ _ _).mono (List.suffix_cons _ _)
  · exact (readExponent_stops _ _ _).mono (List.suffix_cons _ _)
  · split
    · exact .ok _
    · exact .error List.suffix_rfl

theorem readFraction_stops (whole s : List Char) : StopsIn s (readFraction whole s) := by
  unfold readFraction
  split
  · next behind =>
      have hdigits : (spanDigits behind).2 <:+ '.' :: behind :=
        (passes_spanDigits behind).suffix.trans (List.suffix_cons _ _)
      split
      · exact .error List.nil_suffix
      · next hspan =>
          rw [hspan] at hdigits
          exact .error hdigits
      · next hspan =>
          rw [hspan] at hdigits
          exact (readScale_stops _ _ _).mono hdigits
  · exact readScale_stops _ _ _

theorem readUnsigned_stops (s : List Char) : StopsIn s (readUnsigned s) := by
  unfold readUnsigned
  split
  · exact .error List.nil_suffix
  · split
    · exact (readFraction_stops _ _).mono (List.suffix_cons _ _)
    · split
      · exact .error (List.suffix_cons _ _)
      · exact (readFraction_stops _ _).mono (List.suffix_cons _ _)
  · split
    · exact (readFraction_stops _ _).mono (passes_spanDigits _).suffix
    · exact .error List.suffix_rfl

theorem readNumber_stops (s : List Char) : StopsIn s (readNumber s) := by
  unfold readNumber
  split
  · exact (readUnsigned_stops _).mono (List.suffix_cons _ _)
  · exact readUnsigned_stops s

end Numbers

theorem readWord_stops (value : Value) (letters s : List Char) :
    StopsIn s (readWord value letters s) := by
  induction letters generalizing s with
  | nil => exact .ok _
  | cons a letters ih =>
      cases s with
      | nil => exact .error List.nil_suffix
      | cons c s =>
          rw [readWord]
          split
          · exact (ih s).mono (List.suffix_cons c s)
          · exact .error List.suffix_rfl

theorem readWith_stops {array object : Reader Value} (harray : ∀ s, StopsIn s (array s))
    (hobject : ∀ s, StopsIn s (object s)) (s : List Char) : StopsIn s (readWith array object s) := by
  unfold readWith
  split
  · exact .error List.nil_suffix
  · next c cs hskip =>
      have hsuffix : c :: cs <:+ s := hskip ▸ skipBlank_suffix s
      have hcs : cs <:+ c :: cs := List.suffix_cons c cs
      refine .mono hsuffix ?_
      split_ifs
      · exact (readWord_stops _ _ cs).mono hcs
      · exact (readWord_stops _ _ cs).mono hcs
      · exact (readWord_stops _ _ cs).mono hcs
      · exact .bind ((readString_stops cs).mono hcs) fun _ _ => .ok _
      · exact harray _
      · exact hobject _
      · exact .bind (readNumber_stops _) fun _ _ => .ok _
      · exact .error List.suffix_rfl

section Entries

variable {item : Reader Value} (hstops : ∀ s, StopsIn s (item s)) (hleaves : LeavesSuffix item)
include hstops hleaves

theorem readMoreItems_stops (fuel : Nat) (s : List Char) : StopsIn s (readMoreItems item fuel s) := by
  induction fuel generalizing s with
  | zero =>
      unfold readMoreItems
      split
      · exact .error List.nil_suffix
      · exact .error (skipBlank_suffix s)
      · contradiction
  | succ fuel ih =>
      unfold readMoreItems
      split
      · exact .error List.nil_suffix
      · contradiction
      · next c cs hfuel hskip =>
          cases hfuel
          have hsuffix : c :: cs <:+ s := hskip ▸ skipBlank_suffix s
          have hitems : skipBlank cs <:+ c :: cs := (skipBlank_suffix cs).trans (List.suffix_cons c cs)
          refine .mono hsuffix ?_
          split_ifs
          · exact .ok _
          · split
            · exact .error List.nil_suffix
            · next hclosing => exact .error (hclosing ▸ hitems)
            · refine .bind ((hstops _).mono hitems) fun read hvalue => ?_
              obtain ⟨value, rest⟩ := read
              have hrest := (hleaves hvalue).trans hitems
              exact .bind ((ih rest).mono hrest) fun _ _ => .ok _
          · exact .error List.suffix_rfl

theorem readItems_stops (fuel : Nat) (s : List Char) : StopsIn s (readItems item fuel s) := by
  unfold readItems
  split
  · exact .error List.nil_suffix
  · exact .ok _
  · refine .bind ((hstops _).mono (skipBlank_suffix s)) fun read hvalue => ?_
    obtain ⟨value, rest⟩ := read
    have hrest := (hleaves hvalue).trans (skipBlank_suffix s)
    exact .bind ((readMoreItems_stops hstops hleaves fuel rest).mono hrest) fun _ _ => .ok _

omit hleaves in
theorem readMember_stops (s : List Char) : StopsIn s (readMember item s) := by
  unfold readMember
  split
  · exact .error List.nil_suffix
  · exact .error List.suffix_rfl
  · next cs =>
      have hcs : cs <:+ '"' :: cs := List.suffix_cons '"' cs
      refine .bind ((readString_stops cs).mono hcs) fun read hkey => ?_
      obtain ⟨key, rest⟩ := read
      have hrest := (skipBlank_suffix rest).trans ((readString_suffix hkey).trans hcs)
      dsimp only
      split
      · exact .error List.nil_suffix
      · next behind hcolon =>
          rw [hcolon] at hrest
          exact .bind ((hstops behind).mono ((List.suffix_cons _ _).trans hrest)) fun _ _ => .ok _
      · exact .error hrest
  · exact .error List.suffix_rfl

theorem readMoreMembers_stops (fuel : Nat) (s : List Char) :
    StopsIn s (readMoreMembers item fuel s) := by
  induction fuel generalizing s with
  | zero =>
      unfold readMoreMembers
      split
      · exact .error List.nil_suffix
      · exact .error (skipBlank_suffix s)
      · contradiction
  | succ fuel ih =>
      unfold readMoreMembers
      split
      · exact .error List.nil_suffix
      · contradiction
      · next c cs hfuel hskip =>
          cases hfuel
          have hsuffix : c :: cs <:+ s := hskip ▸ skipBlank_suffix s
          have hmembers : skipBlank cs <:+ c :: cs := (skipBlank_suffix cs).trans (List.suffix_cons c cs)
          refine .mono hsuffix ?_
          split_ifs
          · exact .ok _
          · refine .bind ((readMember_stops hstops _).mono hmembers) fun read hmember => ?_
            obtain ⟨member, rest⟩ := read
            have hrest := (readMember_suffix hleaves hmember).trans hmembers
            exact .bind ((ih rest).mono hrest) fun _ _ => .ok _
          · exact .error List.suffix_rfl

theorem readMembers_stops (fuel : Nat) (s : List Char) : StopsIn s (readMembers item fuel s) := by
  unfold readMembers
  split
  · exact .error List.nil_suffix
  · exact .ok _
  · refine .bind ((readMember_stops hstops _).mono (skipBlank_suffix s)) fun read hmember => ?_
    obtain ⟨member, rest⟩ := read
    have hrest := (readMember_suffix hleaves hmember).trans (skipBlank_suffix s)
    exact .bind ((readMoreMembers_stops hstops hleaves fuel rest).mono hrest) fun _ _ => .ok _

end Entries

theorem readValue_stops (fuel depth : Nat) (s : List Char) : StopsIn s (readValue fuel depth s) := by
  induction depth generalizing s with
  | zero => exact readWith_stops (fun s => .error List.suffix_rfl) (fun s => .error List.suffix_rfl) s
  | succ depth ih =>
      have hleaves := readValue_suffix fuel depth
      refine readWith_stops (fun s => ?_) (fun s => ?_) s
      · exact .bind ((readItems_stops ih hleaves fuel s.tail).mono (List.tail_suffix s)) fun _ _ => .ok _
      · exact .bind ((readMembers_stops ih hleaves fuel s.tail).mono (List.tail_suffix s)) fun _ _ => .ok _

theorem readFirst_stops (s : List Char) : StopsIn s (readFirst s) :=
  readValue_stops s.length maxDepth s

theorem expectEnd_stops (s : List Char) : StopsIn s (expectEnd s) := by
  unfold expectEnd
  split
  · exact .ok _
  · exact .error (skipBlank_suffix s)

theorem parse_stops (s : List Char) : StopsIn s (parse s) := by
  refine .bind (readFirst_stops s) fun read hfirst => ?_
  obtain ⟨value, rest⟩ := read
  refine .bind ((expectEnd_stops rest).mono ?_) fun _ _ => .ok _
  exact readValue_suffix s.length maxDepth hfirst

/-- The bytes that have been looked at are bytes of the text. -/
theorem SyntaxError.offset_le {source : List Char} {error : SyntaxError} (hrest : error.rest <:+ source) :
    error.offset source ≤ Text.size source := by
  obtain ⟨front, hsource⟩ := hrest
  have hsize := congrArg Text.size hsource
  rw [Text.size_append] at hsize
  rw [offset]
  omega

end EntityClasses.Json
