import CognitiveTree.Core.Text
import Mathlib.Data.List.DropRight

/-!
# Paths

Pure paths of a POSIX system: a root and components, without empty components and single dots. A
path leads to a file of a directory tree without links: two dots lead back to where a directory
was entered from.
-/

namespace CognitiveTree

def slash : CodePoint := 47

/-- A pure path. -/
structure PurePath where
  root : Str
  parts : List Str
  deriving DecidableEq

namespace PurePath

/-- The root of a text: nothing, one slash, or exactly two. -/
def rootOf (text : Str) : Str :=
  if text.head? ≠ some slash then []
  else if text[1]? = some slash ∧ text[2]? ≠ some slash then [slash, slash]
  else [slash]

/-- The components of a text. -/
def components (text : Str) : List Str :=
  (text.splitOn slash).filter fun part => part ≠ [] ∧ part ≠ lit "."

/-- `Path(text)`. -/
def ofText (text : Str) : PurePath := ⟨rootOf text, components text⟩

/-- `path / text`. -/
def join (p : PurePath) (text : Str) : PurePath :=
  if rootOf text = [] then ⟨p.root, p.parts ++ components text⟩ else ofText text

/-- `path.parent`. -/
def parent (p : PurePath) : PurePath := ⟨p.root, p.parts.dropLast⟩

/-- `str(path)`. -/
def text (p : PurePath) : Str :=
  if p.root = [] ∧ p.parts = [] then lit "." else p.root ++ Str.join [slash] p.parts

/-- One step through the directories, given from the inside to the outside. -/
def enter (place : List Str) (part : Str) : List Str :=
  if part = lit ".." then place.tail else part :: place

/-- Where a path leads from a working directory. -/
def locate (cwd : List Str) (p : PurePath) : List Str :=
  p.parts.foldl enter (if p.root = [] then cwd else [])

/-- What stands before the last slash of a text, with the slash. -/
def folder (text : Str) : Str := text.rdropWhile fun c => c ≠ slash

/-- What stands behind it. -/
def fileName (text : Str) : Str := text.rtakeWhile fun c => c ≠ slash

theorem folder_append_fileName (text : Str) : folder text ++ fileName text = text :=
  List.rdropWhile_append_rtakeWhile

theorem slash_notMem_fileName (text : Str) : slash ∉ fileName text := by
  intro h
  have hall := List.mem_rtakeWhile_imp h
  simp at hall

/-- The folder ends with a slash, if there is one. -/
theorem folder_eq (text : Str) : folder text = [] ∨ ∃ outer, folder text = outer ++ [slash] := by
  by_cases hne : folder text = []
  · exact .inl hne
  · have hlast := List.rdropWhile_last_not (fun c => decide (c ≠ slash)) text hne
    simp only [decide_eq_true_eq, not_not] at hlast
    refine .inr ⟨(folder text).dropLast, ?_⟩
    calc folder text = (folder text).dropLast ++ [(folder text).getLast hne] :=
          (List.dropLast_append_getLast hne).symm
      _ = (folder text).dropLast ++ [slash] := by
          rw [show (folder text).getLast hne = slash from hlast]

/-- A text without slashes is a single component, unless it is empty or a dot. -/
theorem components_of_notMem {text : Str} (h : slash ∉ text) (hne : text ≠ [])
    (hdot : text ≠ lit ".") : components text = [text] := by
  rw [components, List.splitOn_eq_singleton h]
  simp [hne, hdot]

theorem components_append_slash (text text' : Str) :
    components (text ++ slash :: text') = components text ++ components text' := by
  rw [components, List.splitOn_append_cons_self, List.filter_append]
  rfl

/-- A text without slashes behind the folder adds its components. -/
theorem components_append (text : Str) {name : Str} (h : slash ∉ name) (hname : 1 < name.length) :
    components (text ++ name) = components (folder text) ++ [fileName text ++ name] := by
  have hlast : components (fileName text ++ name) = [fileName text ++ name] := by
    refine components_of_notMem ?_ ?_ ?_
    · rw [List.mem_append]
      exact not_or.mpr ⟨slash_notMem_fileName text, h⟩
    · rintro he
      simp [(List.append_eq_nil_iff.mp he).2] at hname
    · intro he
      have hlength := congrArg List.length he
      rw [List.length_append] at hlength
      change _ = 1 at hlength
      omega
  calc components (text ++ name) = components (folder text ++ (fileName text ++ name)) := by
        rw [← List.append_assoc, folder_append_fileName]
    _ = components (folder text) ++ [fileName text ++ name] := by
        rcases folder_eq text with he | ⟨outer, he⟩
        · rw [he, List.nil_append, hlast]
          rfl
        · rw [he, List.append_assoc, List.singleton_append, components_append_slash, hlast,
            components_append_slash]
          simp [components]

/-- The root is decided by the slashes in front. -/
theorem rootOf_append (text : Str) {name : Str} (h : slash ∉ name) :
    rootOf (text ++ name) = rootOf text := by
  have hhead : name.head? ≠ some slash := fun he => h (List.mem_of_mem_head? he)
  rcases text with _ | ⟨a, _ | ⟨b, _ | ⟨c, text⟩⟩⟩
  · simp [rootOf, hhead]
  · cases name with
    | nil => rfl
    | cons d name =>
      have hne : d ≠ slash := by simpa using hhead
      simp [rootOf, hne]
  · cases name with
    | nil => rfl
    | cons d name =>
      have hne : d ≠ slash := by simpa using hhead
      simp [rootOf, hne]
  · simp [rootOf]

/-- A file name behind a text stays in the folder that the text says. -/
theorem join_append (p : PurePath) (text : Str) {name : Str} (h : slash ∉ name)
    (hname : 1 < name.length) : p.join (text ++ name) =
      ⟨(p.join (folder text)).root, (p.join (folder text)).parts ++ [fileName text ++ name]⟩ := by
  have hroot : rootOf (text ++ name) = rootOf (folder text) := by
    rw [rootOf_append text h]
    conv_lhs => rw [← folder_append_fileName text]
    exact rootOf_append _ (slash_notMem_fileName text)
  simp only [join, ofText, hroot, components_append text h hname]
  split <;> simp

/-- Such a file is in the place that the folder leads to. -/
theorem locate_join_append (cwd : List Str) (p : PurePath) (text : Str) {name : Str}
    (h : slash ∉ name) (hname : 2 < name.length) : locate cwd (p.join (text ++ name)) =
      (fileName text ++ name) :: locate cwd (p.join (folder text)) := by
  have hdots : fileName text ++ name ≠ lit ".." := by
    intro he
    have hlength := congrArg List.length he
    rw [List.length_append] at hlength
    change _ = 2 at hlength
    omega
  rw [join_append p text h (by omega), locate, List.foldl_append, List.foldl_cons, List.foldl_nil,
    enter, if_neg hdots, locate]

end PurePath

end CognitiveTree
