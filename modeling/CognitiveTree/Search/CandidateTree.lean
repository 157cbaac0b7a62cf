import CognitiveTree.Core.Branching
import CognitiveTree.Search.PathPolicy

/-!
# The candidate tree

A generator and an evaluator that look at the root path alone define a tree of paths
before any search takes place. Its nodes are the paths a search can meet, whatever the
order in which it meets them; the expandable ones have a surviving verdict and lie above
the depth cap.
-/

namespace CognitiveTree.Search

variable {K W : Type} [PyFloat K]

/-- The texts that the candidate loop of `_expand` attaches: stripped, not blank and new. -/
def freshTexts : List Str → List Str → List Str
  | [], _ => []
  | content :: rest, seen =>
    if Str.strip content = [] ∨ Str.strip content ∈ seen then freshTexts rest seen
    else Str.strip content :: freshTexts rest (Str.strip content :: seen)

section FreshTexts

variable {content : Str} {rest seen : List Str}

/-- A blank or known text is dropped. -/
theorem freshTexts_dropped (h : Str.strip content = [] ∨ Str.strip content ∈ seen) :
    freshTexts (content :: rest) seen = freshTexts rest seen := if_pos h

/-- A new text is kept, stripped. -/
theorem freshTexts_kept (h : ¬ (Str.strip content = [] ∨ Str.strip content ∈ seen)) :
    freshTexts (content :: rest) seen =
      Str.strip content :: freshTexts rest (Str.strip content :: seen) := if_neg h

/-- No text kept was known before. -/
theorem freshTexts_disjoint {todo seen : List Str} {text : Str} (h : text ∈ freshTexts todo seen) :
    text ∉ seen := by
  induction todo generalizing seen with
  | nil => cases h
  | cons content rest ih =>
    by_cases hd : Str.strip content = [] ∨ Str.strip content ∈ seen
    · rw [freshTexts_dropped hd] at h
      exact ih h
    · rw [freshTexts_kept hd] at h
      rcases List.mem_cons.mp h with rfl | h
      · exact fun hm => hd (Or.inr hm)
      · exact fun hm => ih h (List.mem_cons_of_mem _ hm)

/-- No text is kept twice. -/
theorem freshTexts_nodup (todo seen : List Str) : (freshTexts todo seen).Nodup := by
  induction todo generalizing seen with
  | nil => exact .nil
  | cons content rest ih =>
    by_cases hd : Str.strip content = [] ∨ Str.strip content ∈ seen
    · rw [freshTexts_dropped hd]
      exact ih seen
    · rw [freshTexts_kept hd]
      exact List.nodup_cons.mpr ⟨fun hm => freshTexts_disjoint hm (List.mem_cons_self ..), ih _⟩

end FreshTexts

section Tree

variable (config : SearchConfig K) (children : List Str → List Str)
  (verdict : List Str → Evaluation K)

/-- The candidates below a path. -/
def candidates (path : List Str) : List Str :=
  freshTexts ((children path).take config.branchingFactor) []

/-- Those among them that their verdict leaves alive. -/
def survivors (path : List Str) : List Str :=
  (candidates config children path).filter fun text =>
    verdictStatus config (verdict (path ++ [text])) = .evaluated

/-- The expandable paths of a task; the root path has depth zero. -/
def expandables (task : Str) : List (List Str) :=
  grow (survivors config children verdict) config.maxDepth [task]

/-- The paths of all nodes a complete search meets. -/
def candidateNodes (task : Str) : List (List Str) :=
  [task] :: (expandables config children verdict task).flatMap fun path =>
    (candidates config children path).map fun text => path ++ [text]

/-- The candidate tree does not depend on the seed or the exploration weight. -/
example (seed : Option Int) (weight : K)
    (h : ({ config.toConfigFields with seed := seed, explorationWeight := weight }).postInit = .ok ())
    (task : Str) : candidateNodes ⟨{ config.toConfigFields with
        seed := seed, explorationWeight := weight }, h⟩ children verdict task =
      candidateNodes config children verdict task := rfl

/-- No two candidates of a node are equal. -/
theorem candidates_nodup (path : List Str) : (candidates config children path).Nodup :=
  freshTexts_nodup _ _

/-- No node is expanded twice. -/
theorem expandables_nodup (task : Str) : (expandables config children verdict task).Nodup :=
  grow_nodup (fun path => (candidates_nodup config children path).filter _) _ _

end Tree

end CognitiveTree.Search
