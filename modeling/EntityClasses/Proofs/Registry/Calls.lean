import Mathlib.Data.List.Forall2
import Mathlib.Data.List.Pairwise
import EntityClasses.Proofs.Path.Display
import EntityClasses.Proofs.Registration

/-! Calls to a registry, one after the other. A call is refused exactly when an earlier one had its path,
refused calls included: the path of a refused call has been accepted before. So after any calls the registry
holds the accepted files, finds each of them under every spelling of its path, and shows them under texts
that are different and that name their paths. -/

namespace EntityClasses

namespace Registry

/-- A registry with the calls that were made to it, each with its answer. -/
structure Session where
  registry : Registry
  calls : List (OutputFile × Except Failure Unit)

namespace Session

def start : Session :=
  ⟨Registry.empty, []⟩

/-- One more call. Only a file that is accepted changes the registry. -/
def call (session : Session) (file : OutputFile) : Session :=
  match session.registry.register file with
  | .ok registry => ⟨registry, session.calls ++ [(file, .ok ())]⟩
  | .error failure => ⟨session.registry, session.calls ++ [(file, .error failure)]⟩

/-- Calls with these files, from the empty registry on. -/
def ofFiles (files : List OutputFile) : Session :=
  files.foldl call start

/-- The files whose calls succeeded, in the order of the calls. -/
def accepted (session : Session) : List OutputFile :=
  (session.calls.filter (·.2.isOk)).map (·.1)

/-- Each call was refused, for its path, where an earlier one had that path, and accepted elsewhere. -/
def AnswersByPath (session : Session) : Prop :=
  ∀ earlier file answer later, session.calls = earlier ++ (file, answer) :: later →
    answer = if ∃ other ∈ earlier, other.1.path.Same file.path then .error (.repeatedPath file.path)
      else .ok ()

/-- What every call preserves. -/
structure Invariant (session : Session) : Prop where
  entries : session.registry.entries = session.accepted
  differ : PathsDiffer session.registry.entries
  /-- A refused call has the path of an entry as well. -/
  covered : ∀ called ∈ session.calls, ∃ entry ∈ session.registry.entries,
    entry.path.Same called.1.path
  answers : session.AnswersByPath

theorem ofFiles_concat (files : List OutputFile) (file : OutputFile) :
    ofFiles (files ++ [file]) = (ofFiles files).call file := by
  rw [ofFiles, List.foldl_append]
  rfl

theorem AnswersByPath.concat {session : Session} (hanswers : session.AnswersByPath) {file : OutputFile}
    {answer : Except Failure Unit} (registry : Registry)
    (hanswer : answer = if ∃ other ∈ session.calls, other.1.path.Same file.path
      then .error (.repeatedPath file.path) else .ok ()) :
    AnswersByPath ⟨registry, session.calls ++ [(file, answer)]⟩ := by
  intro earlier other otherAnswer later hcalls
  rcases List.eq_nil_or_concat' later with rfl | ⟨front, last, rfl⟩
  · obtain ⟨rfl, hlast⟩ := List.append_inj' hcalls rfl
    cases hlast
    exact hanswer
  · rw [← List.cons_append, ← List.append_assoc] at hcalls
    exact hanswers earlier other otherAnswer front (List.append_inj_left' hcalls rfl)

/-- The entries take a path exactly when some call had it. -/
theorem Invariant.taken_iff {session : Session} (hinvariant : session.Invariant) (path : Path) :
    (∃ entry ∈ session.registry.entries, entry.path.Same path) ↔
      ∃ other ∈ session.calls, other.1.path.Same path := by
  constructor
  · rintro ⟨entry, hentry, hsame⟩
    rw [hinvariant.entries, accepted] at hentry
    obtain ⟨called, hcalled, rfl⟩ := List.mem_map.mp hentry
    exact ⟨called, List.mem_of_mem_filter hcalled, hsame⟩
  · rintro ⟨called, hcalled, hsame⟩
    obtain ⟨entry, hentry, hcovers⟩ := hinvariant.covered called hcalled
    exact ⟨entry, hentry, hcovers.trans hsame⟩

theorem call_cases (session : Session) (file : OutputFile) :
    ((∃ entry ∈ session.registry.entries, entry.path.Same file.path) ∧
      session.call file =
        ⟨session.registry, session.calls ++ [(file, .error (.repeatedPath file.path))]⟩) ∨
    ((∀ entry ∈ session.registry.entries, ¬ entry.path.Same file.path) ∧
      session.call file = ⟨⟨session.registry.entries ++ [file]⟩, session.calls ++ [(file, .ok ())]⟩) := by
  by_cases htaken : ∃ entry ∈ session.registry.entries, entry.path.Same file.path
  · refine Or.inl ⟨htaken, ?_⟩
    rw [call, register_repeated session.registry file htaken]
  · have hnew : ∀ entry ∈ session.registry.entries, ¬ entry.path.Same file.path :=
      fun entry hentry hsame => htaken ⟨entry, hentry, hsame⟩
    refine Or.inr ⟨hnew, ?_⟩
    rw [call, register_new session.registry file hnew]

theorem Invariant.call {session : Session} (hinvariant : session.Invariant) (file : OutputFile) :
    (session.call file).Invariant := by
  rcases session.call_cases file with ⟨htaken, hcall⟩ | ⟨hnew, hcall⟩
  · rw [hcall]
    refine ⟨?_, hinvariant.differ, ?_, hinvariant.answers.concat _ ?_⟩
    · simpa [accepted, Except.isOk, Except.toBool] using hinvariant.entries
    · intro called hcalled
      rcases List.mem_append.mp hcalled with hbefore | hlast
      · exact hinvariant.covered called hbefore
      · rw [List.mem_singleton.mp hlast]
        exact htaken
    · rw [if_pos ((hinvariant.taken_iff file.path).mp htaken)]
  · rw [hcall]
    refine ⟨?_, (pathsDiffer_concat _ file).mpr ⟨hinvariant.differ, hnew⟩, ?_,
      hinvariant.answers.concat _ ?_⟩
    · simpa [accepted, Except.isOk, Except.toBool] using hinvariant.entries
    · intro called hcalled
      rcases List.mem_append.mp hcalled with hbefore | hlast
      · obtain ⟨entry, hentry, hcovers⟩ := hinvariant.covered called hbefore
        exact ⟨entry, List.mem_append_left _ hentry, hcovers⟩
      · rw [List.mem_singleton.mp hlast]
        exact ⟨file, List.mem_append_right _ List.mem_cons_self, rfl⟩
    · rw [if_neg]
      intro hcalled
      obtain ⟨entry, hentry, hsame⟩ := (hinvariant.taken_iff file.path).mpr hcalled
      exact hnew entry hentry hsame

theorem invariant_ofFiles (files : List OutputFile) : (ofFiles files).Invariant := by
  induction files using List.reverseRecOn with
  | nil =>
      refine ⟨rfl, .nil, by simp [ofFiles, start], ?_⟩
      intro earlier file answer later hcalls
      simp [ofFiles, start] at hcalls
  | append_singleton files file ih =>
      rw [ofFiles_concat]
      exact ih.call file

theorem calls_ofFiles (files : List OutputFile) : (ofFiles files).calls.map (·.1) = files := by
  induction files using List.reverseRecOn with
  | nil => rfl
  | append_singleton files file ih =>
      rw [ofFiles_concat]
      rcases (ofFiles files).call_cases file with ⟨-, hcall⟩ | ⟨-, hcall⟩ <;> simp [hcall, ih]

end Session

section Reading

variable {registry : Registry}

theorem eq_of_same (hdiffer : PathsDiffer registry.entries) {file other : OutputFile}
    (hfile : file ∈ registry.entries) (hother : other ∈ registry.entries)
    (hsame : file.path.Same other.path) : file = other := by
  have hsymm : Std.Symm fun file other : OutputFile => ¬ file.path.Same other.path :=
    ⟨fun _ _ hdifferent hback => hdifferent hback.symm⟩
  by_contra hne
  exact hdiffer.forall hfile hother hne hsame

theorem get?_eq_some_iff (hdiffer : PathsDiffer registry.entries) (path : Path) (file : OutputFile) :
    registry.get? path = some file ↔ file ∈ registry.entries ∧ file.path.Same path := by
  constructor
  · intro hget
    exact ⟨List.mem_of_find?_eq_some hget, by simpa using List.find?_some hget⟩
  · rintro ⟨hfile, hsame⟩
    obtain ⟨found, hfound⟩ :=
      Option.isSome_iff_exists.mp ((isSome_get?_iff registry path).mpr ⟨file, hfile, hsame⟩)
    have hfoundSame : found.path.Same path := by simpa using List.find?_some hfound
    rw [hfound, eq_of_same hdiffer (List.mem_of_find?_eq_some hfound) hfile
      (hfoundSame.trans hsame.symm)]

theorem get?_eq_none_iff (path : Path) :
    registry.get? path = none ↔ ∀ file ∈ registry.entries, ¬ file.path.Same path := by
  rw [← Option.not_isSome_iff_eq_none, isSome_get?_iff]
  simp

/-- What is shown of a file: a text that names its path, and its content. -/
def Shows (file : OutputFile) (item : String × String) : Prop :=
  (⟨item.1⟩ : Path).Same file.path ∧ item.2 = file.content

theorem preview_shows (registry : Registry) :
    List.Forall₂ Shows registry.entries registry.preview := by
  rw [preview, List.forall₂_map_right_iff, List.forall₂_same]
  exact fun file _ => ⟨file.path.same_display, rfl⟩

theorem nodup_preview (hdiffer : PathsDiffer registry.entries) :
    (registry.preview.map (·.1)).Nodup := by
  rw [preview, List.map_map, List.Nodup, List.pairwise_map]
  exact hdiffer.imp fun hdifferent hdisplay => hdifferent (Path.display_eq_iff.mp hdisplay)

end Reading

open Session

/-- **A registry holds the files whose paths were new when they were registered**, under every spelling of
these paths. -/
theorem ofFiles_holds_accepted (files : List OutputFile) :
    (ofFiles files).calls.map (·.1) = files ∧ (ofFiles files).AnswersByPath ∧
    (∀ file failure, (ofFiles files).registry.register file = .error failure →
      (ofFiles (files ++ [file])).registry = (ofFiles files).registry) ∧
    (ofFiles files).registry.entries = (ofFiles files).accepted ∧
    (∀ path file, (ofFiles files).registry.get? path = some file ↔
      file ∈ (ofFiles files).accepted ∧ file.path.Same path) ∧
    (∀ path, (ofFiles files).registry.get? path = none ↔
      ∀ file ∈ (ofFiles files).accepted, ¬ file.path.Same path) ∧
    List.Forall₂ Shows (ofFiles files).registry.entries (ofFiles files).registry.preview ∧
    ((ofFiles files).registry.preview.map (·.1)).Nodup := by
  have hinvariant := invariant_ofFiles files
  refine ⟨calls_ofFiles files, hinvariant.answers, ?_, hinvariant.entries, ?_, ?_,
    preview_shows _, nodup_preview hinvariant.differ⟩
  · intro file failure hrefused
    rw [ofFiles_concat, call, hrefused]
  · rw [← hinvariant.entries]
    exact get?_eq_some_iff hinvariant.differ
  · rw [← hinvariant.entries]
    exact get?_eq_none_iff

/-- The second spelling of a path is refused, and so is the third. -/
example : (ofFiles [⟨⟨"enums/index.ts"⟩, "first"⟩, ⟨⟨"enums//index.ts"⟩, "second"⟩,
    ⟨⟨"./enums/index.ts"⟩, "other"⟩, ⟨⟨"enums/./index.ts"⟩, "third"⟩]).registry.preview =
    [("enums/index.ts", "first"), ("./enums/index.ts", "other")] := by decide

end Registry

end EntityClasses
