import Mathlib.Data.List.Forall2
import EntityClasses.Json.Reader
import EntityClasses.Proofs.Json.Quoting

/-! The ways of writing a JSON value, and that reading undoes each of them. Blanks may stand around every
entry of an array or an object and around the colon of a member, and strings are spelled as they like. A
reader is given the whole rest of a text: it takes the value off the front and leaves what follows.
Numbers have no spelling here, since a value does not keep them. -/

namespace EntityClasses.Json

def AreBlank (s : List Char) : Prop :=
  ∀ c ∈ s, isBlank c = true

/-- A text with blanks in front of it and behind it. -/
inductive Padded (spelled : List Char → Prop) : List Char → Prop where
  | blanks {before s after : List Char} : AreBlank before → spelled s → AreBlank after →
      Padded spelled (before ++ (s ++ after))

/-- Entries between brackets, with commas between them. -/
inductive SpelledBetween {α : Type} (opening closing : Char) (entry : α → List Char → Prop) :
    List α → List Char → Prop where
  | empty {blank : List Char} : AreBlank blank →
      SpelledBetween opening closing entry [] (opening :: (blank ++ [closing]))
  | entries {first : α} {others : List α} {s : List Char} {parts : List (List Char)} :
      Padded (entry first) s → List.Forall₂ (fun other => Padded (entry other)) others parts →
      SpelledBetween opening closing entry (first :: others)
        (opening :: (s ++ (parts.flatMap (',' :: ·) ++ [closing])))

/-- A member of an object, whose value is written as `item` says. -/
inductive SpelledMember (item : Value → List Char → Prop) (member : String × Value) :
    List Char → Prop where
  | colon {key before after s : List Char} : SpelledString member.1 key → AreBlank before →
      AreBlank after → item member.2 s →
      SpelledMember item member (key ++ (before ++ ':' :: (after ++ s)))

/-- A value whose arrays and objects are written as `array` and `object` say. -/
inductive SpelledWith (array : List Value → List Char → Prop)
    (object : List (String × Value) → List Char → Prop) : Value → List Char → Prop where
  | null : SpelledWith array object .null ['n', 'u', 'l', 'l']
  | true : SpelledWith array object (.bool true) ['t', 'r', 'u', 'e']
  | false : SpelledWith array object (.bool false) ['f', 'a', 'l', 's', 'e']
  | string {text : String} {s : List Char} : SpelledString text s →
      SpelledWith array object (.string text) s
  | array {items : List Value} {s : List Char} : array items s →
      SpelledWith array object (.array items) s
  | object {members : List (String × Value)} {s : List Char} : object members s →
      SpelledWith array object (.object members) s

/-- The texts of a value in which at most `depth` arrays and objects are open at once. -/
def Spelled : (depth : Nat) → Value → List Char → Prop
  | 0 => SpelledWith (fun _ _ => False) (fun _ _ => False)
  | depth + 1 =>
    SpelledWith (SpelledBetween '[' ']' (Spelled depth))
      (SpelledBetween '\x7b' '\x7d' (SpelledMember (Spelled depth)))

/-- Whether a text is this value, up to blanks around it. -/
def IsText (value : Value) : List Char → Prop :=
  Padded (Spelled maxDepth value)

section Blanks

theorem areBlank_nil : AreBlank [] := by
  simp [AreBlank]

theorem skipBlank_append {before : List Char} (hbefore : AreBlank before) (s : List Char) :
    skipBlank (before ++ s) = skipBlank s :=
  List.dropWhile_append_of_pos hbefore

theorem skipBlank_cons {c : Char} (hc : isBlank c = false) (s : List Char) :
    skipBlank (c :: s) = c :: s := by
  rw [skipBlank, List.dropWhile_cons_of_neg (by simp [hc])]

theorem expectEnd_of_areBlank {s : List Char} (hs : AreBlank s) : expectEnd s = .ok () := by
  have hskip : skipBlank (s ++ []) = [] := skipBlank_append hs []
  rw [List.append_nil] at hskip
  rw [expectEnd, hskip]

theorem readWith_append (array object : Reader Value) {before : List Char}
    (hbefore : AreBlank before) (s : List Char) :
    readWith array object (before ++ s) = readWith array object s := by
  rw [readWith, readWith, skipBlank_append hbefore]

end Blanks

/-- Reading takes a text of up to `fuel` characters off the front and gives back what it spells. -/
def Undoes {α : Type} (fuel : Nat) (reader : Reader α) (spelled : α → List Char → Prop) : Prop :=
  ∀ a s, spelled a s → s.length ≤ fuel → ∀ rest, reader (s ++ rest) = .ok (a, rest)

/-- No text of these starts with a blank or with the closing bracket. -/
def StartsEntry {α : Type} (closing : Char) (spelled : α → List Char → Prop) : Prop :=
  ∀ a s, spelled a s → ∃ c cs, s = c :: cs ∧ isBlank c = false ∧ c ≠ closing

/-- How entries are read up to a closing bracket: `start` reads them behind the opening one, and `more`
behind an entry, as many as it is told. -/
structure ReadsEntries {α : Type} (fuel : Nat) (closing : Char) (entry : Reader α)
    (start : Reader (List α)) (more : Nat → Reader (List α)) : Prop where
  start_closing {s rest : List Char} : skipBlank s = closing :: rest → start s = .ok ([], rest)
  start_entry {s cs rest after : List Char} {c : Char} {a : α} {as : List α} :
    skipBlank s = c :: cs → c ≠ closing → entry (c :: cs) = .ok (a, rest) →
      more fuel rest = .ok (as, after) → start s = .ok (a :: as, after)
  more_closing {count : Nat} {s rest : List Char} :
    skipBlank s = closing :: rest → more (count + 1) s = .ok ([], rest)
  more_entry {count : Nat} {s t cs rest after : List Char} {c : Char} {a : α} {as : List α} :
    skipBlank s = ',' :: t → skipBlank t = c :: cs → c ≠ closing → entry (c :: cs) = .ok (a, rest) →
      more count rest = .ok (as, after) → more (count + 1) s = .ok (a :: as, after)

theorem readsEntries_items (fuel : Nat) (item : Reader Value) :
    ReadsEntries fuel ']' item (readItems item fuel) (readMoreItems item) where
  start_closing hs := by simp only [readItems, hs]
  start_entry hs hc hentry hmore := by
    rw [readItems.eq_def, hs]
    split
    · rename_i hnil
      cases hnil
    · rename_i hclosing
      exact absurd (List.cons.inj hclosing).1 hc
    · simp only [hentry, hmore, bind, Except.bind, pure, Except.pure]
  more_closing hs := by
    rw [readMoreItems.eq_def, hs]
    rfl
  more_entry hs ht hc hentry hmore := by
    rw [readMoreItems.eq_def, hs]
    dsimp only
    rw [if_neg (by decide), if_pos rfl, ht]
    split
    · rename_i hnil
      cases hnil
    · rename_i hclosing
      exact absurd (List.cons.inj hclosing).1 hc
    · simp only [hentry, hmore, bind, Except.bind, pure, Except.pure]

theorem readsEntries_members (fuel : Nat) (item : Reader Value) :
    ReadsEntries fuel '\x7d' (readMember item) (readMembers item fuel) (readMoreMembers item) where
  start_closing hs := by simp only [readMembers, hs]
  start_entry hs hc hentry hmore := by
    rw [readMembers.eq_def, hs]
    split
    · rename_i hnil
      cases hnil
    · rename_i hclosing
      exact absurd (List.cons.inj hclosing).1 hc
    · simp only [hentry, hmore, bind, Except.bind, pure, Except.pure]
  more_closing hs := by
    rw [readMoreMembers.eq_def, hs]
    rfl
  more_entry hs ht hc hentry hmore := by
    rw [readMoreMembers.eq_def, hs]
    dsimp only
    rw [if_neg (by decide), if_pos rfl, ht]
    simp only [hentry, hmore, bind, Except.bind, pure, Except.pure]

namespace ReadsEntries

variable {α : Type} {fuel : Nat} {opening closing : Char} {entry : Reader α}
  {start : Reader (List α)} {more : Nat → Reader (List α)} {spelled : α → List Char → Prop}
  (hreads : ReadsEntries fuel closing entry start more) (hundoes : Undoes fuel entry spelled)
  (hstarts : StartsEntry closing spelled) (hclosing : isBlank closing = false)
include hreads hundoes hstarts hclosing

theorem more_append {others : List α} {parts : List (List Char)}
    (hparts : List.Forall₂ (fun other => Padded (spelled other)) others parts) :
    ∀ {count : Nat} {before : List Char}, AreBlank before →
      (parts.flatMap (',' :: ·)).length < count → count ≤ fuel → ∀ rest,
      more count (before ++ (parts.flatMap (',' :: ·) ++ closing :: rest)) = .ok (others, rest) := by
  induction hparts with
  | nil =>
      intro count before hbefore hcount hfuel rest
      obtain ⟨count, rfl⟩ : ∃ k, count = k + 1 := ⟨count - 1, by omega⟩
      apply hreads.more_closing
      rw [skipBlank_append hbefore, List.flatMap_nil, List.nil_append, skipBlank_cons hclosing]
  | @cons other part others parts hpart hparts ih =>
      intro count before hbefore hcount hfuel rest
      obtain ⟨hfront, hother, hbehind⟩ := hpart
      rename_i front s behind
      obtain ⟨count, rfl⟩ : ∃ k, count = k + 1 := ⟨count - 1, by omega⟩
      obtain ⟨c, cs, rfl, hc, hne⟩ := hstarts other s hother
      simp only [List.flatMap_cons, List.length_append, List.length_cons] at hcount
      have hentry := hundoes other (c :: cs) hother (by simp only [List.length_cons]; omega)
        (behind ++ (parts.flatMap (',' :: ·) ++ closing :: rest))
      refine hreads.more_entry (t := front ++ (c :: cs ++ (behind ++
        (parts.flatMap (',' :: ·) ++ closing :: rest)))) ?_ ?_ hne hentry
        (ih hbehind (by omega) (by omega) rest)
      · rw [skipBlank_append hbefore, List.flatMap_cons, List.cons_append, List.cons_append,
          skipBlank_cons (by decide)]
        simp
      · rw [skipBlank_append hfront, List.cons_append, skipBlank_cons hc]
        rfl

theorem start_append {entries : List α} {s : List Char}
    (hs : SpelledBetween opening closing spelled entries s) (hfuel : s.length ≤ fuel)
    (rest : List Char) : ∃ t, s = opening :: t ∧ start (t ++ rest) = .ok (entries, rest) := by
  cases hs with
  | @empty blank hblank =>
      refine ⟨_, rfl, hreads.start_closing ?_⟩
      rw [List.append_assoc, skipBlank_append hblank]
      exact skipBlank_cons hclosing rest
  | @entries first others s parts hfirst hparts =>
      obtain ⟨hfront, hfirst, hbehind⟩ := hfirst
      rename_i front s behind
      obtain ⟨c, cs, rfl, hc, hne⟩ := hstarts first s hfirst
      simp only [List.length_append, List.length_cons] at hfuel
      have hentry := hundoes first (c :: cs) hfirst (by simp only [List.length_cons]; omega)
        (behind ++ (parts.flatMap (',' :: ·) ++ closing :: rest))
      refine ⟨_, rfl, hreads.start_entry ?_ hne hentry
        (hreads.more_append hundoes hstarts hclosing hparts hbehind (by omega) (Nat.le_refl fuel) rest)⟩
      have htext : front ++ (c :: cs ++ behind) ++ (parts.flatMap (',' :: ·) ++ [closing]) ++ rest =
          front ++ (c :: (cs ++ (behind ++ (parts.flatMap (',' :: ·) ++ closing :: rest)))) := by simp
      rw [htext, skipBlank_append hfront, skipBlank_cons hc]
      rfl

end ReadsEntries

theorem startsEntry_member (item : Value → List Char → Prop) :
    StartsEntry '\x7d' fun member => SpelledMember item member := by
  rintro member _ ⟨⟨-⟩, -, -, -⟩
  exact ⟨'"', _, rfl, by decide, by decide⟩

theorem SpelledBetween.exists_opening {α : Type} {opening closing : Char}
    {entry : α → List Char → Prop} {entries : List α} {s : List Char}
    (hs : SpelledBetween opening closing entry entries s) : ∃ cs, s = opening :: cs := by
  cases hs <;> exact ⟨_, rfl⟩

theorem startsEntry_spelledWith {array : List Value → List Char → Prop}
    {object : List (String × Value) → List Char → Prop}
    (harray : ∀ items s, array items s → ∃ cs, s = '[' :: cs)
    (hobject : ∀ members s, object members s → ∃ cs, s = '\x7b' :: cs) :
    StartsEntry ']' (SpelledWith array object) := by
  intro value s hs
  cases hs with
  | string hs =>
      obtain ⟨-⟩ := hs
      exact ⟨_, _, rfl, by decide⟩
  | array hs =>
      obtain ⟨cs, rfl⟩ := harray _ s hs
      exact ⟨_, _, rfl, by decide⟩
  | object hs =>
      obtain ⟨cs, rfl⟩ := hobject _ s hs
      exact ⟨_, _, rfl, by decide⟩
  | _ => exact ⟨_, _, rfl, by decide⟩

theorem startsEntry_spelled (depth : Nat) : StartsEntry ']' (Spelled depth) := by
  cases depth with
  | zero => exact startsEntry_spelledWith (fun _ _ hs => hs.elim) (fun _ _ hs => hs.elim)
  | succ depth =>
      exact startsEntry_spelledWith (fun _ _ hs => hs.exists_opening) (fun _ _ hs => hs.exists_opening)

theorem undoes_readMember {fuel : Nat} {reader : Reader Value} {item : Value → List Char → Prop}
    (hundoes : Undoes fuel reader item)
    (hblank : ∀ before s, AreBlank before → reader (before ++ s) = reader s) :
    Undoes fuel (readMember reader) fun member => SpelledMember item member := by
  rintro ⟨key, value⟩ _ ⟨hkey, hbefore, hafter, hvalue⟩ hfuel rest
  rename_i keyText before after s
  obtain ⟨quoted, rfl, hread⟩ := hkey.readString_append (before ++ ':' :: (after ++ (s ++ rest)))
  have hlength : s.length ≤ fuel := by
    simp only [List.length_append, List.length_cons] at hfuel
    omega
  have hcolon : skipBlank (before ++ ':' :: (after ++ (s ++ rest))) =
      ':' :: (after ++ (s ++ rest)) := by
    rw [skipBlank_append hbefore, skipBlank_cons (by decide)]
  have hitem : reader (after ++ (s ++ rest)) = .ok (value, rest) := by
    rw [hblank after (s ++ rest) hafter, hundoes value s hvalue hlength rest]
  have htext : '"' :: quoted ++ (before ++ ':' :: (after ++ s)) ++ rest =
      '"' :: (quoted ++ (before ++ ':' :: (after ++ (s ++ rest)))) := by simp
  rw [htext, readMember]
  simp only [hread, hcolon, hitem, bind, Except.bind, pure, Except.pure]

/-- Reading a value by its first character, where `array` and `object` undo their texts. -/
theorem undoes_readWith {fuel : Nat} {array object : Reader Value}
    {spelledArray : List Value → List Char → Prop}
    {spelledObject : List (String × Value) → List Char → Prop}
    (harray : ∀ items s, spelledArray items s → s.length ≤ fuel → ∀ rest,
      ∃ t, s = '[' :: t ∧ array ('[' :: (t ++ rest)) = .ok (.array items, rest))
    (hobject : ∀ members s, spelledObject members s → s.length ≤ fuel → ∀ rest,
      ∃ t, s = '\x7b' :: t ∧ object ('\x7b' :: (t ++ rest)) = .ok (.object members, rest)) :
    Undoes fuel (readWith array object) (SpelledWith spelledArray spelledObject) := by
  intro value s hs hfuel rest
  cases hs with
  | null => rfl
  | true => rfl
  | false => rfl
  | string hs =>
      obtain ⟨quoted, rfl, hread⟩ := hs.readString_append rest
      rw [readWith, List.cons_append, skipBlank_cons (by decide)]
      simp [hread, bind, Except.bind, pure, Except.pure]
  | array hs =>
      obtain ⟨t, rfl, hread⟩ := harray _ s hs hfuel rest
      rw [readWith, List.cons_append, skipBlank_cons (by decide)]
      simpa using hread
  | object hs =>
      obtain ⟨t, rfl, hread⟩ := hobject _ s hs hfuel rest
      rw [readWith, List.cons_append, skipBlank_cons (by decide)]
      simpa using hread

/-- **Reading a value undoes writing it**, in any spelling and whatever follows. -/
theorem undoes_readValue (fuel depth : Nat) : Undoes fuel (readValue fuel depth) (Spelled depth) := by
  induction depth with
  | zero => exact undoes_readWith (fun _ _ hs => hs.elim) (fun _ _ hs => hs.elim)
  | succ depth ih =>
      have hblank : ∀ before s, AreBlank before →
          readValue fuel depth (before ++ s) = readValue fuel depth s := by
        intro before s hbefore
        cases depth <;> exact readWith_append _ _ hbefore s
      refine undoes_readWith ?_ ?_
      · intro items s hs hfuel rest
        obtain ⟨t, rfl, hread⟩ := (readsEntries_items fuel (readValue fuel depth)).start_append ih
          (startsEntry_spelled depth) (by decide) hs hfuel rest
        refine ⟨t, rfl, ?_⟩
        simp only [List.tail_cons, hread, bind, Except.bind, pure, Except.pure]
      · intro members s hs hfuel rest
        obtain ⟨t, rfl, hread⟩ := (readsEntries_members fuel (readValue fuel depth)).start_append
          (undoes_readMember ih hblank) (startsEntry_member _) (by decide) hs hfuel rest
        refine ⟨t, rfl, ?_⟩
        simp only [List.tail_cons, hread, bind, Except.bind, pure, Except.pure]

/-- The value of a text is the value that it spells. -/
theorem IsText.parse {value : Value} {s : List Char} (hs : IsText value s) :
    parse s = .ok value := by
  obtain ⟨hbefore, hvalue, hafter⟩ := hs
  rename_i before s after
  have hread : readFirst (before ++ (s ++ after)) = .ok (value, after) :=
    (readWith_append _ _ hbefore (s ++ after)).trans
      (undoes_readValue (before ++ (s ++ after)).length maxDepth value s hvalue
        (by simp only [List.length_append]; omega) after)
  rw [Json.parse, hread]
  simp only [bind, Except.bind, expectEnd_of_areBlank hafter, pure, Except.pure]

section Existence

theorem Padded.of_spelled {spelled : List Char → Prop} {s : List Char} (hs : spelled s) :
    Padded spelled s := by
  simpa using Padded.blanks areBlank_nil hs areBlank_nil

theorem exists_spelledBetween {α : Type} (opening closing : Char) {entry : α → List Char → Prop}
    {entries : List α} (hentries : ∀ a ∈ entries, ∃ s, entry a s) :
    ∃ s, SpelledBetween opening closing entry entries s := by
  have hparts : ∀ others : List α, (∀ a ∈ others, ∃ s, entry a s) →
      ∃ parts, List.Forall₂ (fun other => Padded (entry other)) others parts := by
    intro others hothers
    induction others with
    | nil => exact ⟨[], .nil⟩
    | cons other others ih =>
        obtain ⟨s, hs⟩ := hothers other List.mem_cons_self
        obtain ⟨parts, hparts⟩ := ih fun a ha => hothers a (List.mem_cons_of_mem _ ha)
        exact ⟨s :: parts, .cons (.of_spelled hs) hparts⟩
  cases entries with
  | nil => exact ⟨_, .empty areBlank_nil⟩
  | cons first others =>
      obtain ⟨s, hs⟩ := hentries first List.mem_cons_self
      obtain ⟨parts, hparts⟩ := hparts others fun a ha => hentries a (List.mem_cons_of_mem _ ha)
      exact ⟨_, .entries (.of_spelled hs) hparts⟩

theorem exists_spelled_string (depth : Nat) (text : String) : ∃ s, Spelled depth (.string text) s := by
  obtain ⟨s, hs⟩ := exists_spelledString text
  cases depth <;> exact ⟨s, .string hs⟩

theorem exists_spelled_bool (depth : Nat) (value : Bool) : ∃ s, Spelled depth (.bool value) s := by
  cases depth <;> cases value <;> first | exact ⟨_, .true⟩ | exact ⟨_, .false⟩

theorem exists_spelled_array {depth : Nat} {items : List Value}
    (hitems : ∀ item ∈ items, ∃ s, Spelled depth item s) :
    ∃ s, Spelled (depth + 1) (.array items) s := by
  obtain ⟨s, hs⟩ := exists_spelledBetween '[' ']' hitems
  exact ⟨s, .array hs⟩

theorem exists_spelled_object {depth : Nat} {members : List (String × Value)}
    (hmembers : ∀ member ∈ members, ∃ s, Spelled depth member.2 s) :
    ∃ s, Spelled (depth + 1) (.object members) s := by
  have hentries : ∀ member ∈ members, ∃ s, SpelledMember (Spelled depth) member s := by
    intro member hmember
    obtain ⟨s, hs⟩ := hmembers member hmember
    obtain ⟨key, hkey⟩ := exists_spelledString member.1
    exact ⟨_, .colon hkey areBlank_nil areBlank_nil hs⟩
  obtain ⟨s, hs⟩ := exists_spelledBetween '\x7b' '\x7d' hentries
  exact ⟨s, .object hs⟩

end Existence

end EntityClasses.Json
