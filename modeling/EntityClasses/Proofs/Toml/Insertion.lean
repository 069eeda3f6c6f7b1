import EntityClasses.Proofs.Toml.Changes

/-! A table put into a document that does not have it. All other tables stay as they are, wherever among
the sections the new one stands; and what has been assigned in a table is there at the end of the document,
whatever the sections behind it do. -/

namespace EntityClasses.Toml

open Text

/-- The entries of a table with the sections added, one after the other. -/
def addSections (sections : List Section) (entries : Entries) : Option Entries :=
  sections.foldlM (fun entries part => part.apply entries) entries

theorem addSections_append (sections others : List Section) (entries : Entries) :
    addSections (sections ++ others) entries = (addSections sections entries).bind (addSections others) :=
  List.foldlM_append

theorem addSections_cons (part : Section) (sections : List Section) (entries : Entries) :
    addSections (part :: sections) entries = (part.apply entries).bind (addSections sections) :=
  rfl

theorem document?_eq (assignments : List Assignment) (sections : List Section) :
    document? assignments sections = (assign? assignments .header []).bind (addSections sections) :=
  rfl

/-- What every section keeps, all of them keep. -/
theorem addSections_preserves {P : Entries → Prop}
    (hstep : ∀ part entries changed, P entries → Section.apply part entries = some changed → P changed)
    {sections : List Section} {entries changed : Entries}
    (hchanged : addSections sections entries = some changed) (hstart : P entries) : P changed := by
  induction sections generalizing entries with
  | nil => exact Option.some.inj hchanged ▸ hstart
  | cons part sections ih =>
      rw [addSections_cons] at hchanged
      obtain ⟨between, hfirst, hrest⟩ := Option.bind_eq_some_iff.mp hchanged
      exact ih hrest (hstep part entries between hstart hfirst)

theorem has_addSections {sections : List Section} {entries changed : Entries}
    (hchanged : addSections sections entries = some changed) {name : String} (hname : entries.Has name) :
    changed.Has name :=
  addSections_preserves (P := (·.Has name)) (fun _ _ _ hname hfirst => (Section.has_apply hfirst).1 name hname)
    hchanged hname

/-- What another table has does not matter to the sections that do not name it, and they leave it alone. -/
theorem addSections_beside {sections : List Section} {entries changed more : Entries} {name : String}
    (hchanged : addSections sections entries = some changed) (hname : ¬ changed.Has name)
    (hentries : more.named (· ≠ name) = entries) :
    ∃ result, addSections sections more = some result ∧ result.named (· ≠ name) = changed ∧
      result.named (· = name) = more.named (· = name) := by
  induction sections generalizing entries more with
  | nil =>
      obtain rfl := Option.some.inj hchanged
      exact ⟨more, rfl, hentries, rfl⟩
  | cons part sections ih =>
      rw [addSections_cons] at hchanged
      obtain ⟨between, hfirst, hrest⟩ := Option.bind_eq_some_iff.mp hchanged
      -- A section that named the table would leave its name behind, up to the end.
      have htop : part.topName ≠ name := by
        rintro rfl
        exact hname (has_addSections hrest (Section.has_apply hfirst).2)
      have hbeside : (part.apply more).map (Entries.named (· ≠ name)) = some between := by
        rw [Section.named_apply (by simpa using htop), hentries, hfirst]
      obtain ⟨next, hnext, hothers⟩ := Option.map_eq_some_iff.mp hbeside
      obtain ⟨result, hresult, hkept, hsame⟩ := ih hrest hothers
      refine ⟨result, ?_, hkept, ?_⟩
      · exact Option.bind_eq_some_iff.mpr ⟨next, hnext, hresult⟩
      · rw [hsame, Section.named_apply_of_not (by simpa using htop) hnext]

/-- A table can be put into every document that does not have it. -/
theorem document?_insert {assignments : List Assignment} {before after : List Section} (part : Section)
    {others inner : Entries} (hothers : document? assignments (before ++ after) = some others)
    (hname : ¬ others.Has part.key.name) (hpath : part.path = []) (hplain : part.isRepeated = false)
    (hinner : assign? part.assignments .header [] = some inner) :
    ∃ entries, document? assignments (before ++ part :: after) = some entries ∧
      entries.named (· ≠ part.key.name) = others ∧
      entries.named (· = part.key.name) = [(part.key, .table part.span .header inner)] := by
  rw [document?_eq] at hothers
  obtain ⟨start, hstart, hsections⟩ := Option.bind_eq_some_iff.mp hothers
  rw [addSections_append] at hsections
  obtain ⟨front, hfront, hback⟩ := Option.bind_eq_some_iff.mp hsections
  have hnew : front.find? part.key.name = none :=
    Entries.find?_eq_none_iff.mpr fun hhas => hname (has_addSections hback hhas)
  have happly : part.apply front = some (front ++ [(part.key, .table part.span .header inner)]) := by
    rw [Section.apply, hpath, changeAt, Section.addTo, hplain, hnew]
    simp [hinner, Entries.add?, hnew]
  have hothersFront : (front ++ [(part.key, Value.table part.span .header inner)]).named
      (· ≠ part.key.name) = front := by
    rw [Entries.named_append, Entries.named_singleton, if_neg (by simp), List.append_nil,
      Entries.named_ne_of_not_has (Entries.find?_eq_none_iff.mp hnew)]
  obtain ⟨result, hresult, hkept, hsame⟩ := addSections_beside hback hname hothersFront
  refine ⟨result, ?_, hkept, ?_⟩
  · rw [document?_eq, hstart, Option.bind_some, addSections_append, hfront, Option.bind_some,
      addSections_cons, happly, Option.bind_some, hresult]
  · rw [hsame, Entries.named_append, Entries.named_singleton, if_pos (by simp),
      Entries.named_eq_of_not_has (Entries.find?_eq_none_iff.mp hnew), List.nil_append]

namespace Entries

/-- In the table of one name there is an entry of another. -/
def HasWithin (entries : Entries) (outer name : String) : Prop :=
  ∃ span origin inner, entries.find? outer = some (.table span origin inner) ∧ Has inner name

end Entries

section Within

variable {part : Section} {entries changed : Entries} {outer name : String}

theorem find?_apply_of_ne (hother : part.topName ≠ outer) (hchanged : part.apply entries = some changed) :
    changed.find? outer = entries.find? outer := by
  have hnamed := Section.named_apply_of_not (p := (· = outer)) (by simpa using hother) hchanged
  have hfind := congrArg (Entries.find? · outer) hnamed
  simpa [Entries.find?_named] using hfind

/-- What a header adds to a table that is there already. -/
theorem addTo_of_table {span : Span} {origin : Origin} {inner : Entries}
    (hfind : entries.find? part.key.name = some (.table span origin inner))
    (hchanged : part.addTo entries = some changed) :
    ∃ more, assign? part.assignments .header inner = some more ∧
      changed.find? part.key.name = some (.table part.span .header more) := by
  rw [Section.addTo, hfind] at hchanged
  split at hchanged
  · cases ‹some _ = none›
  · next htable =>
      obtain ⟨rfl, rfl, rfl⟩ := Value.table.inj (Option.some.inj htable)
      obtain ⟨more, hmore, hreplaced⟩ := Option.bind_eq_some_iff.mp hchanged
      obtain rfl := Option.some.inj hreplaced
      exact ⟨more, hmore, by rw [Entries.find?_replace, if_pos rfl]⟩
  · cases ‹some _ = none›
  · cases ‹some _ = some (Value.array _ _ _)›
  · cases hchanged

/-- A section may add to a table, but takes nothing out of it. -/
theorem hasWithin_apply (hwithin : entries.HasWithin outer name) (hchanged : part.apply entries = some changed) :
    changed.HasWithin outer name := by
  by_cases htop : part.topName = outer
  · subst htop
    obtain ⟨span, origin, inner, hfind, hname⟩ := hwithin
    obtain ⟨path, key, isRepeated, place, assignments⟩ := part
    cases path with
    | nil =>
        obtain ⟨more, hmore, hfound⟩ := addTo_of_table hfind hchanged
        exact ⟨_, _, more, hfound, (has_assign? hmore).1 name hname⟩
    | cons first path =>
        rw [Section.apply, changeAt_cons, show entries.find? first.name = _ from hfind, changeWithin]
          at hchanged
        split at hchanged
        · obtain ⟨value, hvalue, rfl⟩ := Option.map_eq_some_iff.mp hchanged
          obtain ⟨more, hmore, rfl⟩ := Option.map_eq_some_iff.mp hvalue
          have hkept := keepsNames_changeAt (Section.keepsNames_addTo _) _ _ _ _ hmore name hname
          refine ⟨span, origin, more, ?_, hkept⟩
          rw [Entries.find?_put]
          exact if_pos rfl
        · cases hchanged
  · obtain ⟨span, origin, inner, hfind, hname⟩ := hwithin
    exact ⟨span, origin, inner, (find?_apply_of_ne htop hchanged).trans hfind, hname⟩

theorem hasWithin_addSections {sections : List Section} (hwithin : entries.HasWithin outer name)
    (hchanged : addSections sections entries = some changed) : changed.HasWithin outer name :=
  addSections_preserves (P := (·.HasWithin outer name)) (fun _ _ _ => hasWithin_apply) hchanged hwithin

/-- The names that are assigned under a header are in its table. -/
theorem hasWithin_of_header (part : Section) (hpath : part.path = []) (hplain : part.isRepeated = false)
    {assignment : Assignment} (hassignment : assignment ∈ part.assignments)
    (hchanged : part.apply entries = some changed) :
    changed.HasWithin part.key.name assignment.topName := by
  rw [Section.apply, hpath, changeAt] at hchanged
  cases hfind : entries.find? part.key.name with
  | none =>
      rw [Section.addTo, hplain, hfind] at hchanged
      obtain ⟨inner, hinner, hadded⟩ := Option.bind_eq_some_iff.mp hchanged
      obtain ⟨_, rfl⟩ := Entries.add?_eq_some_iff.mp hadded
      refine ⟨part.span, .header, inner, ?_, (has_assign? hinner).2 assignment hassignment⟩
      rw [Entries.find?_append, hfind, Option.none_or, Entries.find?_cons, if_pos rfl]
  | some value =>
      cases value with
      | table span origin inner =>
          obtain ⟨more, hmore, hfound⟩ := addTo_of_table hfind hchanged
          exact ⟨_, _, more, hfound, (has_assign? hmore).2 assignment hassignment⟩
      | _ =>
          rw [Section.addTo, hplain, hfind] at hchanged
          cases hchanged

end Within

end EntityClasses.Toml
