import EntityClasses.Proofs.Datamodel.Loading
import EntityClasses.Proofs.Json.Stops
import EntityClasses.Proofs.Schema.NamePlaces
import EntityClasses.Proofs.Text.Position

/-! Labels in a text that is no datamodel. A label lies in its text: it marks a name between its quotes, or
the last byte that a reader has looked at. A reader that stops on an empty line at the end of the text is
left without one, since the line has no byte to be marked. -/

namespace EntityClasses

open Text

namespace SourceText

theorem encode_chars (source : SourceText) : encode source.chars = bytes source.text :=
  encode_toList source.text

theorem size_eq_length (source : SourceText) : source.size = (bytes source.text).length := by
  rw [← encode_chars, length_encode]
  rfl

end SourceText

/-- What the label of an error marks. A name that is declared again stands between quotes. A reader that has
stopped behind `n` bytes marks the last of them, and where that is a newline, or there is none, the next. -/
inductive Marks (source : SourceText) : SchemaError → Span → Prop where
  | name {kind name : String} {front back : List UInt8} :
      bytes source.text = front ++ quote :: (bytes name ++ quote :: back) →
      Marks source (.duplicateName source kind name) ⟨front.length + 1, (bytes name).length⟩
  | stop {error : Json.SyntaxError} {n : Nat} : error.offset source.chars = n →
      n ≤ (bytes source.text).length →
      error.position source.chars = .behind ((bytes source.text).take n) →
      Marks source (.badDatamodel source (.notJson error))
        ⟨if n = 0 ∨ (bytes source.text)[n - 1]? = some newline then n else n - 1, 1⟩

/-- A reader has stopped behind the last byte of a text that has no byte on its last line: it is empty, or it
ends in a newline. -/
def StopsOnEmptyLine (source : SourceText) (error : Json.SyntaxError) : Prop :=
  error.offset source.chars = (bytes source.text).length ∧
    (source.text = "" ∨ source.chars.getLast? = some '\n')

theorem Json.SyntaxError.position_eq_behind (source : SourceText) (error : Json.SyntaxError) :
    error.position source.chars =
      .behind ((bytes source.text).take (error.offset source.chars)) := by
  rw [position, positionAt_eq_behind, source.encode_chars]

section Syntax

variable {source : SourceText} {error : Json.SyntaxError} (hrest : error.rest <:+ source.chars)
include hrest

theorem Json.SyntaxError.offset_le_length : error.offset source.chars ≤ (bytes source.text).length := by
  rw [← source.size_eq_length]
  exact SyntaxError.offset_le hrest

theorem SchemaError.span?_notJson :
    (SchemaError.badDatamodel source (.notJson error)).span? =
      if (error.position source.chars).column = 0 then
        if error.offset source.chars < source.size then some ⟨error.offset source.chars, 1⟩ else none
      else some ⟨error.offset source.chars - 1, 1⟩ := by
  have hoffset := Json.SyntaxError.offset_le hrest
  have hsize : Text.size source.chars = source.size := rfl
  rw [SchemaError.span?, DatamodelFault.position, Json.SyntaxError.position, offsetOf_positionAt hoffset,
    hsize]
  split_ifs <;> rfl

/-- A label of a syntax error marks a byte of the text. -/
theorem marks_of_notJson {span : Span}
    (hspan : (SchemaError.badDatamodel source (.notJson error)).span? = some span) :
    Marks source (.badDatamodel source (.notJson error)) span ∧
      span.offset + span.length ≤ (bytes source.text).length := by
  have hoffset := Json.SyntaxError.offset_le hrest
  have hmarks := Marks.stop rfl (Json.SyntaxError.offset_le_length hrest)
    (Json.SyntaxError.position_eq_behind source error)
  have hcolumn := column_positionAt_eq_zero_iff hoffset
  rw [source.encode_chars] at hcolumn
  rw [SchemaError.span?_notJson hrest] at hspan
  rw [← source.size_eq_length]
  split_ifs at hspan with hzero hlt
  · cases hspan
    rw [if_pos (hcolumn.mp hzero)] at hmarks
    exact ⟨hmarks, hlt⟩
  · cases hspan
    rw [if_neg (hcolumn.not.mp hzero)] at hmarks
    have hpos : error.offset source.chars ≠ 0 := fun h => hzero (hcolumn.mpr (Or.inl h))
    have hle : error.offset source.chars ≤ source.size := hoffset
    refine ⟨hmarks, ?_⟩
    dsimp only
    omega

/-- A syntax error is left without a label where it is behind the last line of the text. -/
theorem SchemaError.isSome_span?_notJson_iff :
    (SchemaError.badDatamodel source (.notJson error)).span?.isSome = true ↔
      ¬ StopsOnEmptyLine source error := by
  have hoffset : error.offset source.chars ≤ source.size := Json.SyntaxError.offset_le hrest
  have hempty : source.text = "" ↔ source.chars = [] := String.toList_eq_nil_iff.symm
  rw [SchemaError.span?_notJson hrest, StopsOnEmptyLine, ← source.size_eq_length, hempty]
  by_cases hend : error.offset source.chars = source.size
  · have hcolumn : (error.position source.chars).column = 0 ↔
        source.chars = [] ∨ source.chars.getLast? = some '\n' := by
      rw [Json.SyntaxError.position, hend]
      exact column_positionAt_size_eq_zero_iff source.chars
    rw [← hcolumn, if_neg (Nat.not_lt_of_ge hend.ge)]
    by_cases hzero : (error.position source.chars).column = 0 <;> simp [hzero, hend]
  · have hlt : error.offset source.chars < source.size := Nat.lt_of_le_of_ne hoffset hend
    rw [if_pos hlt]
    split_ifs <;> simp [hend]

end Syntax

/-- A label of a repeated name marks the name between its quotes. -/
theorem marks_of_duplicateName {source : SourceText} {kind name : String} {span : Span}
    (hspan : (SchemaError.duplicateName source kind name).span? = some span) :
    Marks source (.duplicateName source kind name) span ∧
      span.offset + span.length ≤ (bytes source.text).length := by
  obtain ⟨front, hoccurs, rfl⟩ :=
    SourceText.occursBehind_of_mem_namePlaces (List.mem_of_getElem? hspan)
  obtain ⟨back, htext⟩ := occursBehind_betweenQuotes_iff.mp hoccurs
  have hbytes : bytes source.text =
      encode front ++ quote :: (bytes name ++ quote :: encode back) := by
    rw [← source.encode_chars, htext, encode_append, encode_quote, encode_append, encode_quote,
      encode_toList]
  have hmarks : Marks source (.duplicateName source kind name) _ := .name hbytes
  rw [length_encode, ← encode_toList, length_encode] at hmarks
  refine ⟨hmarks, ?_⟩
  rw [hbytes, ← encode_toList name]
  simp only [List.length_append, List.length_cons, length_encode]
  omega

namespace Datamodel

/-- **Every label lies in its text**, and marks there what the error is about. -/
theorem label_marks_source {source : SourceText} {error : SchemaError} {span : Span}
    (hload : load source = .error error) (hspan : error.span? = some span) :
    Marks source error span ∧ span.offset + span.length ≤ (bytes source.text).length := by
  have hshape : ∀ fault, error = .badDatamodel source fault → fault ≠ .wrongShape := by
    rintro _ rfl rfl
    cases hspan
  cases hparse : Json.parse source.chars with
  | error cause =>
      rcases load_of_parse_error hparse with ⟨-, hfails⟩ | ⟨-, hfails⟩ <;> rw [hfails] at hload
      · cases hload
        exact absurd rfl (hshape .wrongShape rfl)
      · cases hload
        exact marks_of_notJson (Json.parse_stops source.chars cause hparse) hspan
  | ok value =>
      rw [load_of_parse hparse] at hload
      cases hread : Document.datamodel? value with
      | none =>
          rw [hread] at hload
          cases hload
          exact absurd rfl (hshape .wrongShape rfl)
      | some datamodel =>
          rw [hread] at hload
          rcases datamodel.validate_cases source with ⟨-, hok⟩ | ⟨-, kind, name, hrefused⟩
          · rw [show datamodel.validate source = .error error from hload] at hok
            cases hok
          · rw [show datamodel.validate source = .error error from hload] at hrefused
            cases hrefused
            exact marks_of_duplicateName hspan

/-- An array with a comma in front of its closing bracket, which stands on a line of its own. -/
def commaInFront : SourceText :=
  ⟨"dmmf.json", "[\"é\",\n]"⟩

/-- The bracket is marked, which is the last byte that has been looked at. -/
theorem label_marks_bracket :
    load commaInFront = .error (.badDatamodel commaInFront (.notJson ⟨.trailingComma, [']'], 1⟩)) ∧
    Marks commaInFront (.badDatamodel commaInFront (.notJson ⟨.trailingComma, [']'], 1⟩)) ⟨7, 1⟩ ∧
    7 + 1 ≤ (bytes commaInFront.text).length := by
  have hload : load commaInFront =
      .error (.badDatamodel commaInFront (.notJson ⟨.trailingComma, [']'], 1⟩)) := by
    decide +kernel
  exact ⟨hload, label_marks_source hload (by decide +kernel)⟩

/-- **When a syntax error is located.** A text that is no JSON is refused at the position that the reader has
reached, some bytes into the text, unless the shape of a value at its front is refused first, which has no
position. The error has a label exactly if it has a position that is not on an empty line at the end. -/
theorem syntaxError_located_iff {source : SourceText} {error : Json.SyntaxError}
    (hparse : Json.parse source.chars = .error error) :
    ∃ fault, load source = .error (.badDatamodel source fault) ∧
      (fault = .wrongShape ∧ OpensWithOtherShape source ∨
        fault = .notJson error ∧ error.offset source.chars ≤ (bytes source.text).length ∧
        error.position source.chars =
          .behind ((bytes source.text).take (error.offset source.chars))) ∧
      ((SchemaError.badDatamodel source fault).span?.isSome = true ↔
        ¬ OpensWithOtherShape source ∧ ¬ StopsOnEmptyLine source error) := by
  have hrest := Json.parse_stops source.chars error hparse
  rcases load_of_parse_error hparse with ⟨hopens, hload⟩ | ⟨hopens, hload⟩
  · refine ⟨.wrongShape, hload, Or.inl ⟨rfl, hopens⟩, ?_⟩
    constructor
    · rintro ⟨⟩
    · rintro ⟨hother, -⟩
      exact absurd hopens hother
  · refine ⟨.notJson error, hload, Or.inr ⟨rfl, ?_, ?_⟩, ?_⟩
    · exact Json.SyntaxError.offset_le_length hrest
    · exact Json.SyntaxError.position_eq_behind source error
    · rw [SchemaError.isSome_span?_notJson_iff hrest]
      exact (and_iff_right hopens).symm

/-- The reader stops at the bracket, in front of the end of the text. -/
theorem located_bracket : ∃ fault, load commaInFront = .error (.badDatamodel commaInFront fault) ∧
    (SchemaError.badDatamodel commaInFront fault).span?.isSome = true := by
  have hparse : Json.parse commaInFront.chars = .error ⟨.trailingComma, [']'], 1⟩ := by
    decide +kernel
  obtain ⟨fault, hload, -, hlocated⟩ := syntaxError_located_iff hparse
  refine ⟨fault, hload, hlocated.mpr ⟨?_, ?_⟩⟩
  · rintro ⟨value, rest, hfirst, -⟩
    have hfails : Json.readFirst commaInFront.chars = .error ⟨.trailingComma, [']'], 1⟩ := by
      decide +kernel
    rw [hfails] at hfirst
    cases hfirst
  · rintro ⟨-, hempty | hnewline⟩
    · exact absurd hempty (by decide)
    · exact absurd hnewline (by decide)

/-- An object that is opened and not closed, on a line that is ended. -/
def openObject : SourceText :=
  ⟨"dmmf.json", "\x7b\n"⟩

/-- The end of the text is reported on its second line, which has no byte to be marked. -/
theorem syntaxError_not_always_located : ¬ ∀ (source : SourceText) (error : Json.SyntaxError),
    Json.parse source.chars = .error error →
    load source = .error (.badDatamodel source (.notJson error)) →
    (SchemaError.badDatamodel source (.notJson error)).span?.isSome = true := by
  intro hlocated
  have hspan := hlocated openObject ⟨.endInObject, [], 1⟩ (by decide +kernel) (by decide +kernel)
  exact absurd hspan (by decide +kernel)

end Datamodel

end EntityClasses
