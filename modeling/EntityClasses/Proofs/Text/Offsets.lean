import EntityClasses.Proofs.Text.Position

/-! Offsets of lines and columns. Each line of a text stands between its first byte and the one behind its
newline, and a column, counted from one, is an offset from the first byte that the end of the line stops.
A line is there if a byte of the text is on it, so there are as many as there are newlines, and one more
where the text goes on behind the last of them. -/

namespace EntityClasses.Text

/-- The lines that a text has a byte on: one for each newline, and one for what stands behind the last. -/
def lineCount (s : List Char) : Nat :=
  s.count '\n' + if IsEnded s then 0 else 1

/-- A line in its text: what is in front of it, the line up to and with its newline, and what is behind it.
The last line may lack the newline. -/
structure LineAt (s : List Char) (number : Nat) (before line after : List Char) : Prop where
  text : s = before ++ (line ++ after)
  number : number = 1 + before.count '\n'
  start : IsEnded before
  nonempty : line ≠ []
  newline : '\n' ∉ line.dropLast
  ending : line.getLast? = some '\n' ∨ after = []

section Lines

variable {line : List Char} (hline : '\n' ∉ line)
include hline

theorem lineCount_last (hne : line ≠ []) : lineCount line = 1 := by
  rw [lineCount, if_neg (not_isEnded_of_notMem hline hne), List.count_eq_zero_of_not_mem hline]

theorem lineCount_next (rest : List Char) : lineCount (line ++ '\n' :: rest) = lineCount rest + 1 := by
  have hcount : (line ++ '\n' :: rest).count '\n' = rest.count '\n' + 1 := by
    rw [List.count_append, List.count_eq_zero_of_not_mem hline, List.count_cons_self, Nat.zero_add]
  rw [lineCount, lineCount, hcount, if_congr (isEnded_append_iff line rest) rfl rfl,
    Nat.add_right_comm]

theorem LineAt.last (hne : line ≠ []) : LineAt line 1 [] line [] where
  text := by simp
  number := rfl
  start := Or.inl rfl
  nonempty := hne
  newline hmem := hline (List.dropLast_subset line hmem)
  ending := Or.inr rfl

theorem LineAt.first (rest : List Char) :
    LineAt (line ++ '\n' :: rest) 1 [] (line ++ ['\n']) rest where
  text := by simp
  number := rfl
  start := Or.inl rfl
  nonempty := by simp
  newline := by rwa [List.dropLast_concat]
  ending := Or.inl List.getLast?_concat

theorem LineAt.later {rest before inner after : List Char} {number : Nat}
    (hinner : LineAt rest number before inner after) :
    LineAt (line ++ '\n' :: rest) (number + 1) (line ++ '\n' :: before) inner after where
  text := by rw [hinner.text, List.append_assoc, List.cons_append]
  number := by
    rw [hinner.number, List.count_append, List.count_eq_zero_of_not_mem hline, List.count_cons_self,
      Nat.zero_add, Nat.add_assoc]
  start := (isEnded_append_iff line before).mpr hinner.start
  nonempty := hinner.nonempty
  newline := hinner.newline
  ending := hinner.ending

end Lines

theorem length_pieces (s : List Char) : (pieces s).length = lineCount s := by
  induction s using lines_induction with
  | last line hline =>
      by_cases hne : line = []
      · subst hne
        rfl
      · rw [pieces_of_notMem hline hne, lineCount_last hline hne, List.length_singleton]
  | next line rest hline ih =>
      rw [pieces_append hline, lineCount_next hline, List.length_cons, ih]

/-- Only a line that the text does not have is without offset. -/
theorem offsetOf_eq_none_iff (s : List Char) (number column : Nat) :
    offsetOf s ⟨number, column⟩ = none ↔ number = 0 ∨ lineCount s < number := by
  rw [offsetOf]
  by_cases hzero : number = 0
  · simp [hzero]
  · rw [if_neg hzero, Option.map_eq_none_iff, List.getElem?_eq_none_iff, length_pieces]
    dsimp only
    omega

/-- A line of the text, with the offset of each of its columns. -/
theorem exists_lineAt {s : List Char} {number : Nat} (hpos : 0 < number) (hle : number ≤ lineCount s) :
    ∃ before line after, LineAt s number before line after ∧
      ∀ column, offsetOf s ⟨number, column⟩ = some (size before + min (column - 1) (size line)) := by
  induction s using lines_induction generalizing number with
  | last line hline =>
      by_cases hne : line = []
      · subst hne
        exact absurd (Nat.lt_of_lt_of_le hpos hle) (by decide)
      · rw [lineCount_last hline hne] at hle
        obtain rfl : number = 1 := Nat.le_antisymm hle hpos
        refine ⟨[], line, [], .last hline hne, fun column => ?_⟩
        rw [offsetOf_last hline hne, size_nil, Nat.zero_add]
  | next line rest hline ih =>
      rw [lineCount_next hline] at hle
      obtain ⟨number, rfl⟩ := Nat.exists_eq_add_one.mpr hpos
      rcases Nat.eq_zero_or_pos number with rfl | hnumber
      · refine ⟨[], line ++ ['\n'], rest, .first hline rest, fun column => ?_⟩
        rw [offsetOf_first hline, size_nil, Nat.zero_add, size_append]
        rfl
      · obtain ⟨before, inner, after, hinner, hoffset⟩ := ih hnumber (Nat.le_of_succ_le_succ hle)
        refine ⟨line ++ '\n' :: before, inner, after, hinner.later hline, fun column => ?_⟩
        have hsize : size ('\n' :: before) = 1 + size before := size_cons '\n' before
        rw [offsetOf_later hline rest hnumber, hoffset, Option.map_some, size_append, hsize]
        congr 1
        omega

/-- The offset of a byte is found again from its line and its column. -/
theorem offsetOf_behind {s : List Char} {front back : List UInt8} {byte : UInt8}
    (hbytes : encode s = front ++ byte :: back) :
    offsetOf s ⟨(Position.behind front).line, (Position.behind front).column + 1⟩ =
      some front.length := by
  have hlt : front.length < size s := by
    rw [← length_encode, hbytes, List.length_append, List.length_cons]
    omega
  have hposition : positionAt s front.length = .behind front := by
    rw [positionAt_eq_behind, hbytes, List.take_left]
  have hcolumn := column_positionAt_le s front.length
  rcases offsetOf_line_cases hlt.le with ⟨hend, -⟩ | ⟨width, -, hwidth, -, hoffset⟩
  · exact absurd hend hlt.ne
  · have hinside := hwidth hlt
    rw [hposition] at hoffset hinside hcolumn
    rw [hoffset, Nat.add_sub_cancel, Nat.min_eq_left hinside.le, Nat.sub_add_cancel hcolumn]

/-- **Offsets invert the counting of lines and columns.** The offset of a byte is found from one more than
the newlines in front of it and one more than the bytes since the last of them. Whatever the line and the
column are, there is no offset exactly for a line that the text does not have; else it is on the line or
right behind it, in the text or at its end, and a greater column does not have a smaller one. -/
theorem offsetOf_inverts_counting (s : List Char) :
    (∀ front byte back, encode s = front ++ byte :: back →
      offsetOf s ⟨1 + front.count newline, (front.rtakeWhile (· ≠ newline)).length + 1⟩ =
        some front.length) ∧
    (∀ number column, offsetOf s ⟨number, column⟩ = none ↔ number = 0 ∨ lineCount s < number) ∧
    ∀ number column offset, offsetOf s ⟨number, column⟩ = some offset →
      (∃ before line after, LineAt s number before line after ∧
        size before ≤ offset ∧ offset ≤ size before + size line) ∧
      (∀ later further, column ≤ later → offsetOf s ⟨number, later⟩ = some further →
        offset ≤ further) ∧
      offset ≤ size s := by
  refine ⟨fun front byte back hbytes => offsetOf_behind hbytes, offsetOf_eq_none_iff s,
    fun number column offset hoffset => ?_⟩
  have hnumber : ¬ (number = 0 ∨ lineCount s < number) := by
    rw [← offsetOf_eq_none_iff s number column, hoffset]
    exact Option.some_ne_none offset
  obtain ⟨hzero, hlt⟩ := not_or.mp hnumber
  obtain ⟨before, line, after, hline, hcolumns⟩ :=
    exists_lineAt (Nat.pos_of_ne_zero hzero) (Nat.not_lt.mp hlt)
  have hsize : size s = size before + (size line + size after) := by
    rw [hline.text, size_append, size_append]
  rw [hcolumns, Option.some.injEq] at hoffset
  refine ⟨⟨before, line, after, hline, by omega, by omega⟩, fun later further hle hlater => ?_, by omega⟩
  rw [hcolumns, Option.some.injEq] at hlater
  omega

/-- The second byte of the first line, and the one byte of the last line, which no newline ends. -/
theorem offsetOf_inverts_counting_twoLines :
    encode "é\nb".toList = [0xC3] ++ 0xA9 :: [0x0A, 0x62] ∧
    offsetOf "é\nb".toList ⟨1, 2⟩ = some 1 ∧
    encode "é\nb".toList = [0xC3, 0xA9, 0x0A] ++ 0x62 :: [] ∧
    offsetOf "é\nb".toList ⟨2, 1⟩ = some 3 ∧
    offsetOf "é\nb".toList ⟨3, 1⟩ = none ∧
    ∀ offset, offsetOf "é\nb".toList ⟨2, 9⟩ = some offset → offset ≤ size "é\nb".toList := by
  have hfirst : encode "é\nb".toList = [0xC3] ++ 0xA9 :: [0x0A, 0x62] := by decide +kernel
  have hlast : encode "é\nb".toList = [0xC3, 0xA9, 0x0A] ++ 0x62 :: [] := by decide +kernel
  have hcount : lineCount "é\nb".toList < 3 := by decide +kernel
  obtain ⟨hbytes, hnone, hsome⟩ := offsetOf_inverts_counting "é\nb".toList
  exact ⟨hfirst, hbytes _ _ _ hfirst, hlast, hbytes _ _ _ hlast, (hnone 3 1).mpr (Or.inr hcount),
    fun offset hoffset => (hsome 2 9 offset hoffset).2.2⟩

/-- Two lines: the empty one in front has the offset of its newline, and no third one is opened by the last
newline. -/
example : (List.range 4).map (fun number => offsetOf "\né\n".toList ⟨number, 9⟩) =
    [none, some 1, some 4, none] := by cbv

end EntityClasses.Text
