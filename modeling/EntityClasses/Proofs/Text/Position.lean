import Mathlib.Data.List.DropRight
import Mathlib.Tactic.SplitIfs
import EntityClasses.Proofs.Text.ByteOrder
import EntityClasses.Proofs.Text.Lines
import EntityClasses.Text.Position

/-! Places in a text, counted in bytes. The position behind some bytes is told by their newlines, and no
other character has the byte of a newline in it, so it does not matter where characters end. The offset is
found again from the position line by line; only the empty line at the end of a text is not found, since
no piece of the text stands for it. -/

namespace EntityClasses.Text

section Sizes

theorem size_reverse (s : List Char) : size s.reverse = size s := by
  induction s with
  | nil => rfl
  | cons c s ih =>
      rw [List.reverse_cons, size_append, ih, size_cons, size_cons, size_nil, Nat.add_zero, Nat.add_comm]

theorem size_pos {s : List Char} (hs : s ≠ []) : 0 < size s := by
  cases s with
  | nil => exact absurd rfl hs
  | cons c s =>
      rw [size_cons]
      exact Nat.add_pos_left (Char.utf8Size_pos c) _

theorem eq_nil_of_size_append {front between : List Char} (hsize : size (front ++ between) = size front) :
    between = [] := by
  by_contra hbetween
  have hpos := size_pos hbetween
  rw [size_append] at hsize
  omega

/-- A front of a text is told by its size. -/
theorem append_inj_of_size {front other back behind : List Char} (htext : front ++ back = other ++ behind)
    (hsize : size front = size other) : front = other ∧ back = behind := by
  rcases List.append_eq_append_iff.mp htext with ⟨between, rfl, hback⟩ | ⟨between, rfl, hbehind⟩
  · obtain rfl := eq_nil_of_size_append hsize.symm
    exact ⟨(List.append_nil front).symm, hback⟩
  · obtain rfl := eq_nil_of_size_append hsize
    exact ⟨List.append_nil other, hbehind.symm⟩

/-- Of two fronts of a text, the shorter one takes up less of it. -/
theorem size_lt_of_length_lt {front other back behind : List Char}
    (htext : front ++ back = other ++ behind) (hlength : front.length < other.length) :
    size front < size other := by
  rcases List.append_eq_append_iff.mp htext with ⟨between, rfl, -⟩ | ⟨between, rfl, -⟩
  · have hbetween : between ≠ [] := by
      rintro rfl
      rw [List.append_nil] at hlength
      exact Nat.lt_irrefl _ hlength
    have hpos := size_pos hbetween
    rw [size_append]
    omega
  · rw [List.length_append] at hlength
    omega

end Sizes

/-- The byte of a newline. -/
def newline : UInt8 := 10

/-- The byte of a double quote. -/
def quote : UInt8 := 34

/-- The UTF-8 bytes of characters, one after the other. -/
def encode (s : List Char) : List UInt8 :=
  s.flatMap String.utf8EncodeChar

theorem encode_toList (s : String) : encode s.toList = bytes s :=
  (bytes_eq_flatMap s).symm

theorem encode_cons (c : Char) (s : List Char) : encode (c :: s) = String.utf8EncodeChar c ++ encode s :=
  List.flatMap_cons

theorem encode_append (s t : List Char) : encode (s ++ t) = encode s ++ encode t :=
  List.flatMap_append

theorem encode_quote (s : List Char) : encode ('"' :: s) = quote :: encode s :=
  rfl

theorem length_encode (s : List Char) : (encode s).length = size s := by
  induction s with
  | nil => rfl
  | cons c s ih => rw [encode_cons, List.length_append, String.length_utf8EncodeChar, ih, size_cons]

theorem newline_notMem_utf8EncodeChar {c : Char} (hc : c ≠ '\n') : newline ∉ String.utf8EncodeChar c := by
  have hnumber : c.val.toNat ≠ 10 := by
    intro h
    exact hc (Char.ext (UInt32.toNat_inj.mp h))
  intro hmem
  -- every byte of a longer encoding is at least 128
  simp only [String.utf8EncodeChar] at hmem
  split_ifs at hmem <;>
    simp only [List.mem_cons, List.not_mem_nil, or_false, newline, ← UInt8.toNat_inj,
      UInt8.toNat_ofNat'] at hmem <;>
    simp only [UInt8.reduceToNat] at hmem <;> omega

theorem newline_notMem_encode {s : List Char} (hs : '\n' ∉ s) : newline ∉ encode s := by
  intro hmem
  obtain ⟨c, hc, hbyte⟩ := List.mem_flatMap.mp hmem
  refine newline_notMem_utf8EncodeChar ?_ hbyte
  rintro rfl
  exact hs hc

namespace Position

/-- The position behind some bytes: one more than their newlines, and the bytes behind the last one. -/
def behind (front : List UInt8) : Position :=
  ⟨1 + front.count newline, (front.rtakeWhile (· ≠ newline)).length⟩

/-- The position one byte further. -/
def step (p : Position) (byte : UInt8) : Position :=
  if byte = newline then ⟨p.line + 1, 0⟩ else ⟨p.line, p.column + 1⟩

theorem behind_concat (front : List UInt8) (byte : UInt8) :
    behind (front ++ [byte]) = (behind front).step byte := by
  rw [behind, step, List.count_append, List.rtakeWhile_concat]
  by_cases hbyte : byte = newline
  · simp [hbyte, behind, Nat.add_assoc]
  · simp [hbyte, behind]

theorem behind_eq_foldl (front : List UInt8) : behind front = front.foldl step ⟨1, 0⟩ := by
  induction front using List.reverseRecOn with
  | nil => rfl
  | append_singleton front byte ih =>
      rw [behind_concat, List.foldl_append, ih, List.foldl_cons, List.foldl_nil]

/-- Bytes without newlines move a position along its line. -/
theorem foldl_step_of_notMem {front : List UInt8} (hfront : newline ∉ front) (p : Position) :
    front.foldl step p = ⟨p.line, p.column + front.length⟩ := by
  induction front generalizing p with
  | nil => rfl
  | cons byte front ih =>
      rw [List.mem_cons, not_or] at hfront
      rw [List.foldl_cons, ih hfront.2, step, if_neg (Ne.symm hfront.1), List.length_cons]
      simp [Nat.add_comm, Nat.add_left_comm]

/-- From one line further down, bytes lead one line further down. -/
theorem foldl_step_nextLine (front : List UInt8) (p : Position) :
    front.foldl step ⟨p.line + 1, p.column⟩ =
      ⟨(front.foldl step p).line + 1, (front.foldl step p).column⟩ := by
  induction front generalizing p with
  | nil => rfl
  | cons byte front ih =>
      have hstep : step ⟨p.line + 1, p.column⟩ byte =
          ⟨(p.step byte).line + 1, (p.step byte).column⟩ := by
        rw [step, step]
        split_ifs <;> rfl
      rw [List.foldl_cons, List.foldl_cons, hstep, ih]

/-- Moving over characters is moving over their bytes. -/
theorem advance_eq_foldl (p : Position) (s : List Char) (n : Nat) :
    p.advance s n = ((encode s).take n).foldl step p := by
  induction s generalizing p n with
  | nil => rw [advance, encode, List.flatMap_nil, List.take_nil, List.foldl_nil]
  | cons c s ih =>
      rw [advance, encode_cons, List.take_append, List.foldl_append, String.length_utf8EncodeChar]
      by_cases hzero : n = 0
      · simp [hzero]
      by_cases hc : c = '\n'
      · have hbytes : String.utf8EncodeChar '\n' = [newline] := by decide
        have hsize : '\n'.utf8Size = 1 := by decide
        have htake : [newline].take n = [newline] :=
          List.take_of_length_le (Nat.one_le_iff_ne_zero.mpr hzero)
        rw [if_neg hzero, if_pos hc, ih, hc, hbytes, hsize, htake]
        rfl
      · have hnone : newline ∉ (String.utf8EncodeChar c).take n := fun hmem =>
          newline_notMem_utf8EncodeChar hc (List.mem_of_mem_take hmem)
        rw [if_neg hzero, if_neg hc, ih, foldl_step_of_notMem hnone, List.length_take,
          String.length_utf8EncodeChar]

end Position

/-- **A position counts the newlines in front of it and the bytes behind the last one.** -/
theorem positionAt_eq_behind (s : List Char) (n : Nat) :
    positionAt s n = .behind ((encode s).take n) := by
  rw [positionAt, Position.advance_eq_foldl, Position.behind_eq_foldl]

theorem positionAt_eq_foldl (s : List Char) (n : Nat) :
    positionAt s n = ((encode s).take n).foldl Position.step ⟨1, 0⟩ :=
  Position.advance_eq_foldl _ _ _

theorem line_positionAt_pos (s : List Char) (n : Nat) : 0 < (positionAt s n).line := by
  rw [positionAt_eq_behind]
  exact Nat.lt_of_lt_of_le Nat.zero_lt_one (Nat.le_add_right 1 _)

theorem column_positionAt_le (s : List Char) (n : Nat) : (positionAt s n).column ≤ n := by
  rw [positionAt_eq_behind]
  exact (List.rtakeWhile_suffix _ _).length_le.trans (List.length_take_le n _)

theorem column_positionAt_eq_zero_iff {s : List Char} {n : Nat} (hn : n ≤ size s) :
    (positionAt s n).column = 0 ↔ n = 0 ∨ (encode s)[n - 1]? = some newline := by
  rw [positionAt_eq_behind]
  cases n with
  | zero => simp [Position.behind]
  | succ n =>
      have hlt : n < (encode s).length := by rwa [length_encode]
      rw [List.take_succ_eq_append_getElem hlt, Position.behind_concat, Position.step,
        Nat.add_sub_cancel, List.getElem?_eq_getElem hlt]
      by_cases hbyte : (encode s)[n] = newline <;> simp [hbyte]

/-- The position at the end of a text is at the start of a line where the text ends in a newline. -/
theorem column_positionAt_size_eq_zero_iff (s : List Char) :
    (positionAt s (size s)).column = 0 ↔ s = [] ∨ s.getLast? = some '\n' := by
  rw [positionAt_eq_foldl, List.take_of_length_le (length_encode s).le]
  rcases List.eq_nil_or_concat' s with rfl | ⟨front, c, rfl⟩
  · simp [encode]
  · rw [encode_append, List.foldl_append, encode_cons, List.foldl_append, List.getLast?_concat]
    by_cases hc : c = '\n'
    · subst hc
      simp [encode, Position.step, newline, String.utf8EncodeChar]
    · have hpos := Char.utf8Size_pos c
      rw [Position.foldl_step_of_notMem (newline_notMem_utf8EncodeChar hc),
        String.length_utf8EncodeChar]
      simp [encode, hc]
      omega

/-- A text is its last line, or a line with its newline and a text behind it. -/
@[elab_as_elim]
theorem lines_induction {motive : List Char → Prop} (s : List Char)
    (last : ∀ line, '\n' ∉ line → motive line)
    (next : ∀ line rest, '\n' ∉ line → motive rest → motive (line ++ '\n' :: rest)) : motive s := by
  induction hlength : s.length using Nat.strong_induction_on generalizing s with
  | _ length ih =>
      by_cases hs : '\n' ∈ s
      · obtain ⟨line, rest, rfl, hline⟩ := List.eq_append_cons_of_mem hs
        refine next line rest hline (ih rest.length ?_ rest rfl)
        rw [← hlength, List.length_append, List.length_cons]
        omega
      · exact last s hs

section Lines

variable {line : List Char} (hline : '\n' ∉ line)
include hline

theorem positionAt_of_le {n : Nat} (hn : n ≤ size line) (rest : List Char) :
    positionAt (line ++ rest) n = ⟨1, n⟩ := by
  have hlength : n ≤ (encode line).length := by rwa [length_encode]
  have hnone : newline ∉ (encode line).take n := fun hmem =>
    newline_notMem_encode hline (List.mem_of_mem_take hmem)
  rw [positionAt_eq_foldl, encode_append, List.take_append_of_le_length hlength,
    Position.foldl_step_of_notMem hnone, List.length_take_of_le hlength, Nat.zero_add]

/-- Behind a line positions are those of the rest, one line further. -/
theorem positionAt_of_line (rest : List Char) (n : Nat) :
    positionAt (line ++ '\n' :: rest) (size line + 1 + n) =
      ⟨(positionAt rest n).line + 1, (positionAt rest n).column⟩ := by
  have hbytes : encode (line ++ '\n' :: rest) = (encode line ++ [newline]) ++ encode rest := by
    rw [encode_append, encode_cons, List.append_assoc]
    rfl
  have hlength : (encode line ++ [newline]).length = size line + 1 := by
    rw [List.length_append, length_encode, List.length_singleton]
  rw [positionAt_eq_foldl, hbytes, ← hlength, List.take_length_add_append, List.foldl_append,
    List.foldl_append, Position.foldl_step_of_notMem (newline_notMem_encode hline),
    positionAt_eq_foldl, ← Position.foldl_step_nextLine]
  rfl

theorem offsetOf_last (hne : line ≠ []) (column : Nat) :
    offsetOf line ⟨1, column⟩ = some (min (column - 1) (size line)) := by
  simp [offsetOf, pieces_of_notMem hline hne, size_nil]

theorem offsetOf_first (rest : List Char) (column : Nat) :
    offsetOf (line ++ '\n' :: rest) ⟨1, column⟩ = some (min (column - 1) (size line + 1)) := by
  have hsize : size (line ++ ['\n']) = size line + 1 := size_append line ['\n']
  simp [offsetOf, pieces_append hline, size_nil, hsize]

theorem offsetOf_later (rest : List Char) {number : Nat} (hnumber : 0 < number) (column : Nat) :
    offsetOf (line ++ '\n' :: rest) ⟨number + 1, column⟩ =
      (offsetOf rest ⟨number, column⟩).map (size line + 1 + ·) := by
  have hsize : size (line ++ ['\n']) = size line + 1 := size_append line ['\n']
  obtain ⟨number, rfl⟩ := Nat.exists_eq_succ_of_ne_zero hnumber.ne'
  rw [offsetOf, offsetOf, if_neg (Nat.succ_ne_zero _), if_neg (Nat.succ_ne_zero _), pieces_append hline]
  simp only [Nat.succ_eq_add_one, Nat.add_sub_cancel, List.getElem?_cons_succ, List.take_succ_cons,
    List.flatten_cons, size_append, hsize, Option.map_map]
  congr 1
  funext piece
  exact Nat.add_assoc _ _ _

end Lines

/-- Where the offset of a line is found again from a position on it, and which columns the line has. Only
the empty line at the end of a text is not found. -/
theorem offsetOf_line_cases {s : List Char} {n : Nat} (hn : n ≤ size s) :
    (n = size s ∧ (positionAt s n).column = 0 ∧
      ∀ column, offsetOf s ⟨(positionAt s n).line, column⟩ = none) ∨
    ∃ width, (positionAt s n).column ≤ width ∧ (n < size s → (positionAt s n).column < width) ∧
      (n = size s → 0 < (positionAt s n).column) ∧
      ∀ column, offsetOf s ⟨(positionAt s n).line, column⟩ =
        some (n - (positionAt s n).column + min (column - 1) width) := by
  induction s using lines_induction generalizing n with
  | last line hline =>
      have hposition : positionAt line n = ⟨1, n⟩ := by
        simpa using positionAt_of_le hline hn []
      rw [hposition]
      by_cases hne : line = []
      · subst hne
        obtain rfl : n = 0 := Nat.le_zero.mp hn
        exact Or.inl ⟨rfl, rfl, fun _ => rfl⟩
      · have hpos : 0 < size line := size_pos hne
        refine Or.inr ⟨size line, hn, id, fun heq => heq ▸ hpos, fun column => ?_⟩
        rw [offsetOf_last hline hne, Nat.sub_self, Nat.zero_add]
  | next line rest hline ih =>
      have hsize : size (line ++ '\n' :: rest) = size line + 1 + size rest := by
        rw [size_append, size_cons, Nat.add_assoc]
        rfl
      rw [hsize] at hn ⊢
      by_cases hfirst : n ≤ size line
      · rw [positionAt_of_le hline hfirst]
        dsimp only
        refine Or.inr ⟨size line + 1, by omega, by omega, by omega, fun column => ?_⟩
        rw [offsetOf_first hline, Nat.sub_self, Nat.zero_add]
      · -- behind the first line the offset is that in the rest, moved by the line and its newline
        obtain ⟨m, rfl⟩ : ∃ m, n = size line + 1 + m := ⟨n - (size line + 1), by omega⟩
        have hnumber := line_positionAt_pos rest m
        have hcolumn := column_positionAt_le rest m
        rw [positionAt_of_line hline]
        rcases ih (n := m) (by omega) with ⟨hend, hzero, hnone⟩ | ⟨width, hle, hlt, hpos, hsome⟩
        · refine Or.inl ⟨by rw [hend], hzero, fun column => ?_⟩
          rw [offsetOf_later hline rest hnumber, hnone]
          rfl
        · refine Or.inr ⟨width, hle, fun h => hlt (by omega), fun h => hpos (by omega), fun column => ?_⟩
          rw [offsetOf_later hline rest hnumber, hsome, Option.map_some]
          congr 1
          dsimp only
          omega

/-- **The offset found for the position behind `n` bytes** is that of the last of them, or the one behind
them at the start of a line. Nothing is found at the end of a text that is empty or ends in a newline. -/
theorem offsetOf_positionAt {s : List Char} {n : Nat} (hn : n ≤ size s) :
    offsetOf s (positionAt s n) =
      if (positionAt s n).column = 0 then if n < size s then some n else none else some (n - 1) := by
  have hcolumn := column_positionAt_le s n
  have hself : positionAt s n = ⟨(positionAt s n).line, (positionAt s n).column⟩ := rfl
  rcases offsetOf_line_cases hn with ⟨hend, hzero, hnone⟩ | ⟨width, hle, hlt, hpos, hsome⟩
  · rw [hself, hnone, if_pos hzero, if_neg (by omega)]
  · rw [hself, hsome]
    dsimp only
    split_ifs with hzero hbefore
    · congr 1
      omega
    · exact absurd (hpos (by omega)) (by omega)
    · congr 1
      omega

end EntityClasses.Text
