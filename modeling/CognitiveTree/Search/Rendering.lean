import CognitiveTree.Core.Rational
import CognitiveTree.Core.Rose
import CognitiveTree.Core.Splitting
import CognitiveTree.Search.Traversal

/-!
# The diagram of a tree

`render` lays out the tree with an explicit stack of nodes, indentations and last-child flags. It
writes what the recursive layout writes, one label for each node in depth-first order. A label
repeats the content of its node, clipped by length only.
-/

namespace CognitiveTree.Search

variable {K : Type}

section Subtree

/-- The tree below a node, to a bounded depth. -/
def subtreeTo (node : Nat → ThoughtNode K) : Nat → Nat → Rose Nat
  | 0, r => .node r []
  | fuel + 1, r => .node r ((node r).children.map (subtreeTo node fuel))

namespace Arena

/-- The finite tree of the references below a node. -/
def subtree (a : Arena K) (r : Nat) : Rose Nat := subtreeTo a.node a.size r

/-- Any depth beyond the youngest possible descendant gives the full tree. -/
theorem subtreeTo_eq (a : Arena K) {fuel fuel' r : Nat} (hr : r < a.size)
    (hf : a.size - r ≤ fuel) (hf' : a.size - r ≤ fuel') :
    subtreeTo a.node fuel r = subtreeTo a.node fuel' r := by
  induction fuel generalizing fuel' r with
  | zero => omega
  | succ fuel ih =>
    obtain ⟨fuel', rfl⟩ : ∃ n, fuel' = n + 1 := ⟨fuel' - 1, by omega⟩
    rw [subtreeTo, subtreeTo]
    congr 1
    apply List.map_congr_left
    intro c hc
    have hlt := lt_of_mem_children hc
    have hcs := (mem_children.mp hc).1
    exact ih hcs (by omega) (by omega)

/-- The subtree of a node has the subtrees of its children, in their order. -/
theorem subtree_eq (a : Arena K) {r : Nat} (hr : r < a.size) :
    a.subtree r = .node r ((a.node r).children.map a.subtree) := by
  obtain ⟨n, hn⟩ : ∃ n, a.size = n + 1 := ⟨a.size - 1, by omega⟩
  have h : subtreeTo a.node a.size r = subtreeTo a.node (n + 1) r :=
    subtreeTo_eq a hr (by omega) (by omega)
  rw [subtree, h, subtreeTo]
  congr 1
  apply List.map_congr_left
  intro c hc
  have hlt := lt_of_mem_children hc
  have hcs := (mem_children.mp hc).1
  exact subtreeTo_eq a hcs (by omega) (by omega)

/-- The loop of `walk` yields the depth-first order of the subtree. -/
theorem walk_eq_preorder_subtree (a : Arena K) {r : Nat} (hr : r < a.size) :
    a.walk r = (a.subtree r).preorder := by
  rw [walk_eq_preorder a hr]
  refine a.leaf_induction (motive := fun r => a.preorder r = (a.subtree r).preorder) ?_ r hr
  intro r hr ih
  rw [preorder_eq a hr, subtree_eq a hr, Rose.preorder_node, List.flatMap_map]
  congr 1
  exact List.flatMap_congr ih

end Arena

end Subtree

/-- Formatting with two decimals. -/
class PyFixed (K : Type) where
  /-- `f"{x:.2f}"` -/
  fixed2 : K → Str

/-- A formatted float stays on its line. -/
class InlineFloats (K : Type) [PyFixed K] : Prop where
  inline : ∀ x : K, ∀ c ∈ PyFixed.fixed2 x, Str.isLineBreak c = false

/-- `_STATUS_GLYPHS`. -/
def statusGlyph : NodeStatus → Str
  | .pending => lit "?"
  | .evaluated => lit "*"
  | .terminal => lit "#"
  | .pruned => lit "x"
  | .failed => lit "!"

/-- What a label shows of a content: the whole of up to 60 characters, else the first 57. -/
def displayed (content : Str) : Str :=
  let content := if content ≠ [] then content else lit "<root>"
  if 60 < content.length then content.take 57 ++ lit "..." else content

/-- `_format_label(node)`. -/
def formatLabel [PyFloat K] [PyFixed K] (node : ThoughtNode K) : Str :=
  lit "[" ++ statusGlyph node.status ++ lit "] d=" ++ Str.ofNat node.depth ++ lit " v=" ++
    Str.ofNat node.visits ++ lit " s=" ++ PyFixed.fixed2 node.score ++ lit " q=" ++
    PyFixed.fixed2 node.meanValue ++ lit " | " ++ displayed node.content

/-- What precedes the label of a node that is not the root. -/
def connector (isLast : Bool) : Str := if isLast then lit "`-- " else lit "|-- "

/-- What its descendants are indented by. -/
def margin (isLast : Bool) : Str := if isLast then lit "    " else lit "|   "

/-- An entry of the stack of `render`. -/
structure Pending where
  node : Nat
  indent : Str
  isLast : Bool

/-- The entries pushed for the children of a node, the first child on top. -/
def childEntries (children : List Nat) (indent : Str) : List Pending :=
  children.zipIdx.map fun p => ⟨p.1, indent, p.2 == children.length - 1⟩

section Loop

variable (label : Nat → Str) (a : Arena K)

/-- The stack loop of `render`, popping at most `fuel` entries. -/
def renderFrom : Nat → List Pending → List Str
  | 0, _ => []
  | _ + 1, [] => []
  | fuel + 1, entry :: stack =>
    let children := (a.node entry.node).children
    if (a.node entry.node).parent = none then
      label entry.node :: renderFrom fuel (childEntries children [] ++ stack)
    else
      (entry.indent ++ connector entry.isLast ++ label entry.node) ::
        renderFrom fuel (childEntries children (entry.indent ++ margin entry.isLast) ++ stack)

/-- The lines of `render`. -/
def renderLines : List Str := renderFrom label a a.size [⟨0, [], true⟩]

end Loop

/-- `tree.render()`. -/
def render [PyFloat K] [PyFixed K] (a : Arena K) : Str :=
  Str.join [Str.newline] (renderLines (fun n => formatLabel (a.node n)) a)

mutual

/-- The lines of a subtree below the root, by recursion. -/
def drawBelow (label : Nat → Str) (indent : Str) (isLast : Bool) : Rose Nat → List Str
  | .node n ts => (indent ++ connector isLast ++ label n) ::
      drawAll label (indent ++ margin isLast) ts

def drawAll (label : Nat → Str) (indent : Str) : List (Rose Nat) → List Str
  | [] => []
  | t :: ts => drawBelow label indent ts.isEmpty t ++ drawAll label indent ts

end

/-- The lines of a tree, by recursion. -/
def draw (label : Nat → Str) : Rose Nat → List Str
  | .node n ts => label n :: drawAll label [] ts

section Refinement

variable {label : Nat → Str} {a : Arena K}

/-- What one entry of the stack stands for. -/
def Pending.lines (label : Nat → Str) (a : Arena K) (entry : Pending) : List Str :=
  drawBelow label entry.indent entry.isLast (a.subtree entry.node)

/-- The entries of siblings stand for the lines of their subtrees, the last of them closed. -/
theorem flatMap_lines_childEntries (children : List Nat) (indent : Str) :
    (childEntries children indent).flatMap (Pending.lines label a) =
      drawAll label indent (children.map a.subtree) := by
  suffices h : ∀ first, ((children.zipIdx first).map fun p =>
      (⟨p.1, indent, p.2 == first + children.length - 1⟩ : Pending)).flatMap (Pending.lines label a) =
        drawAll label indent (children.map a.subtree) by
    simpa [childEntries] using h 0
  induction children with
  | nil => exact fun _ => rfl
  | cons c cs ih =>
    intro first
    have hlast : (first == first + (c :: cs).length - 1) = (cs.map a.subtree).isEmpty := by
      cases cs <;> simp
    have hrest : first + (c :: cs).length - 1 = first + 1 + cs.length - 1 := by
      simp only [List.length_cons]
      omega
    rw [List.zipIdx_cons, List.map_cons, List.flatMap_cons, List.map_cons, drawAll, hrest, ih]
    rw [← hrest, Pending.lines, hlast]

/-- The entries of the children stand in their order. -/
theorem map_node_childEntries (children : List Nat) (indent : Str) :
    (childEntries children indent).map Pending.node = children := by
  rw [childEntries, List.map_map]
  exact List.zipIdx_map_fst ..

/-- The children of a node are never the root. -/
theorem pos_of_mem_childEntries {n : Nat} {indent : Str} {entry : Pending}
    (h : entry ∈ childEntries (a.node n).children indent) :
    0 < entry.node ∧ entry.node < a.size := by
  have hmem := List.mem_map_of_mem (f := Pending.node) h
  rw [map_node_childEntries] at hmem
  have hlt := Arena.lt_of_mem_children hmem
  exact ⟨by omega, (Arena.mem_children.mp hmem).1⟩

/-- Below the root the stack loop writes the lines of its entries one after another. -/
theorem renderFrom_eq {fuel : Nat} {stack : List Pending}
    (hs : ∀ entry ∈ stack, 0 < entry.node ∧ entry.node < a.size)
    (hf : ((stack.map Pending.node).flatMap a.preorder).length ≤ fuel) :
    renderFrom label a fuel stack = stack.flatMap (Pending.lines label a) := by
  induction fuel generalizing stack with
  | zero =>
    cases stack with
    | nil => rfl
    | cons entry stack =>
      rw [List.map_cons, List.flatMap_cons,
        Arena.preorder_eq a (hs entry (List.mem_cons_self ..)).2] at hf
      simp at hf
  | succ fuel ih =>
    cases stack with
    | nil => rfl
    | cons entry stack =>
      obtain ⟨hpos, hsize⟩ := hs entry (List.mem_cons_self ..)
      obtain ⟨p, hp, -⟩ := Arena.exists_parent (Nat.ne_of_gt hpos) hsize
      rw [renderFrom, if_neg (by simp [hp]), ih, List.flatMap_append, flatMap_lines_childEntries,
        List.flatMap_cons, Pending.lines, Arena.subtree_eq a hsize, drawBelow, List.cons_append]
      · intro e he
        rcases List.mem_append.mp he with he | he
        · exact pos_of_mem_childEntries he
        · exact hs e (List.mem_cons_of_mem _ he)
      · rw [List.map_cons, List.flatMap_cons, Arena.preorder_eq a hsize, List.cons_append,
          List.length_cons] at hf
        rw [List.map_append, List.flatMap_append, map_node_childEntries]
        exact Nat.le_of_succ_le_succ hf

/-- The loop writes the recursive layout. -/
theorem renderLines_eq (label : Nat → Str) (a : Arena K) :
    renderLines label a = draw label (a.subtree 0) := by
  obtain ⟨fuel, hfuel⟩ : ∃ n, a.size = n + 1 := ⟨a.size - 1, by have := a.linked.nonempty; omega⟩
  have hlength := Arena.length_preorder_le a a.linked.nonempty
  rw [Arena.preorder_eq a a.linked.nonempty, List.length_cons] at hlength
  rw [renderLines, hfuel, renderFrom, if_pos a.linked.root_parent, List.append_nil, renderFrom_eq,
    flatMap_lines_childEntries, Arena.subtree_eq a a.linked.nonempty, draw]
  · exact fun e he => pos_of_mem_childEntries he
  · rw [map_node_childEntries]
    exact Nat.le_of_succ_le_succ (hlength.trans hfuel.le)

end Refinement

/-- The line is layout followed by a label. -/
def Summarizes (line label : Str) : Prop :=
  ∃ layout, layout ⊆ lit "|`- " ∧ line = layout ++ label

/-- A connector has no other characters. -/
theorem connector_subset (isLast : Bool) : connector isLast ⊆ lit "|`- " := by
  cases isLast <;> decide

/-- A margin has no other characters. -/
theorem margin_subset (isLast : Bool) : margin isLast ⊆ lit "|`- " := by
  cases isLast <;> decide

/-- The recursive layout has one line for each node, in depth-first order. -/
theorem drawBelow_summarizes (label : Nat → Str) (t : Rose Nat) {indent : Str}
    (hindent : indent ⊆ lit "|`- ") (isLast : Bool) :
    List.Forall₂ (fun line n => Summarizes line (label n)) (drawBelow label indent isLast t)
      t.preorder := by
  induction t using Rose.induct generalizing indent isLast with
  | node n ts ih =>
    have hall : ∀ us : List (Rose Nat), us ⊆ ts → List.Forall₂
        (fun line n => Summarizes line (label n)) (drawAll label (indent ++ margin isLast) us)
        (us.flatMap Rose.preorder) := by
      intro us hus
      induction us with
      | nil => exact .nil
      | cons u us ihus =>
        rw [drawAll, List.flatMap_cons]
        obtain ⟨hu, hus⟩ := List.cons_subset.mp hus
        exact List.rel_append (ih u hu
          (List.append_subset.mpr ⟨hindent, margin_subset isLast⟩) _) (ihus hus)
    rw [drawBelow, Rose.preorder_node]
    refine .cons ⟨indent ++ connector isLast, ?_, rfl⟩ (hall ts (List.Subset.refl _))
    exact List.append_subset.mpr ⟨hindent, connector_subset isLast⟩

/-- Each line of a drawing summarizes its node. -/
theorem draw_summarizes (label : Nat → Str) (t : Rose Nat) :
    List.Forall₂ (fun line n => Summarizes line (label n)) (draw label t) t.preorder := by
  cases t with
  | node n ts =>
    rw [draw, Rose.preorder_node]
    refine .cons ⟨[], List.nil_subset _, rfl⟩ ?_
    induction ts with
    | nil => exact .nil
    | cons t ts ih =>
      rw [drawAll, List.flatMap_cons]
      exact List.rel_append (drawBelow_summarizes label t (List.nil_subset _) _) ih

section Lines

variable [PyFloat K] [PyFixed K]

/-- The rendering has one line for each node, and the line of a node in depth-first order is layout
followed by its label. -/
def RendersByLine (a : Arena K) : Prop :=
  (Str.splitLines (render a)).length = a.size ∧
    List.Forall₂ (fun line n => Summarizes line (formatLabel (a.node n)))
      (Str.splitLines (render a)) (a.walk 0)

/-- Each line of a rendering summarizes its node. -/
theorem summarizes_renderLines (a : Arena K) :
    List.Forall₂ (fun line n => Summarizes line (formatLabel (a.node n)))
      (renderLines (fun n => formatLabel (a.node n)) a) (a.walk 0) := by
  rw [renderLines_eq, Arena.walk_eq_preorder_subtree a a.linked.nonempty]
  exact draw_summarizes _ _

/-- No label is empty. -/
theorem formatLabel_ne_nil (node : ThoughtNode K) : formatLabel node ≠ [] := by
  have hopen : lit "[" ≠ [] := by decide
  simp [formatLabel, hopen]

/-- A literal has no line break. -/
theorem flat_lit {s : String} (h : ((lit s).all fun c => !Str.isLineBreak c) = true) :
    ∀ c ∈ lit s, Str.isLineBreak c = false := by
  simpa using h

/-- A number has no line break. -/
theorem flat_ofNat (n : Nat) : ∀ c ∈ Str.ofNat n, Str.isLineBreak c = false := by
  intro c hc
  obtain ⟨hlow, hhigh⟩ := Str.digit_of_mem_ofNat hc
  simp [Str.isLineBreak]
  omega

/-- A glyph has no line break. -/
theorem flat_statusGlyph (status : NodeStatus) :
    ∀ c ∈ statusGlyph status, Str.isLineBreak c = false := by
  cases status <;> exact flat_lit (by decide)

/-- A label has the line breaks of the content it shows. -/
theorem flat_formatLabel_iff [InlineFloats K] (node : ThoughtNode K) :
    (∀ c ∈ formatLabel node, Str.isLineBreak c = false) ↔
      ∀ c ∈ displayed node.content, Str.isLineBreak c = false := by
  constructor
  · intro h c hc
    exact h c (List.mem_append_right _ hc)
  · intro h
    simp only [formatLabel, List.forall_mem_append, and_assoc]
    exact ⟨flat_lit (by decide), flat_statusGlyph _, flat_lit (by decide), flat_ofNat _,
      flat_lit (by decide), flat_ofNat _, flat_lit (by decide), InlineFloats.inline _,
      flat_lit (by decide), InlineFloats.inline _, flat_lit (by decide), h⟩

/-- A line of layout and a label has the line breaks of the label. -/
theorem Summarizes.flat_iff {line label : Str} (h : Summarizes line label) :
    (∀ c ∈ line, Str.isLineBreak c = false) ↔ ∀ c ∈ label, Str.isLineBreak c = false := by
  obtain ⟨layout, hlayout, rfl⟩ := h
  rw [List.forall_mem_append, and_iff_right]
  exact fun c hc => flat_lit (by decide) c (hlayout hc)

/-- The rendering has one line for each node exactly when no content shows a line break. -/
theorem rendersByLine_iff [InlineFloats K] (a : Arena K) : RendersByLine a ↔
    ∀ n < a.size, ∀ c ∈ displayed (a.node n).content, Str.isLineBreak c = false := by
  have hlines := summarizes_renderLines a
  constructor
  · rintro ⟨-, h⟩ n hn
    obtain ⟨line, hline, hlabel⟩ := exists_of_forall₂_right h (Arena.mem_walk_root.mpr hn)
    rw [← flat_formatLabel_iff, ← hlabel.flat_iff]
    exact Str.flat_of_mem_splitLines hline
  · intro h
    have hsplit : Str.splitLines (render a) = renderLines (fun n => formatLabel (a.node n)) a := by
      apply Str.splitLines_join
      · intro line hline
        obtain ⟨n, hn, hlabel⟩ := exists_of_forall₂_left hlines hline
        rw [hlabel.flat_iff, flat_formatLabel_iff]
        exact h n (Arena.mem_walk_root.mp hn)
      · rintro line hline rfl
        obtain ⟨n, -, layout, -, he⟩ := exists_of_forall₂_left hlines hline
        exact formatLabel_ne_nil _ (List.append_eq_nil_iff.mp he.symm).2
    rw [RendersByLine, hsplit]
    exact ⟨hlines.length_eq.trans (Arena.length_walk_root a), hlines⟩

end Lines

/-- A non-negative number with two decimals. -/
def showHundredths (q : ℚ) : Str :=
  let n := (roundHalfEven (q * 100)).toNat
  Str.ofNat (n / 100) ++ lit "." ++ (Str.ofNat (100 + n % 100)).tail

instance : PyFixed ℚ where
  fixed2 := showHundredths

instance : InlineFloats ℚ where
  inline q := by
    change ∀ c ∈ showHundredths q, Str.isLineBreak c = false
    simp only [showHundredths, List.forall_mem_append]
    exact ⟨⟨flat_ofNat _, flat_lit (by decide)⟩, fun c hc => flat_ofNat _ c (List.mem_of_mem_tail hc)⟩

/-- A task with two steps, the first of which has a step below it. -/
def nestedSteps : Arena ℚ :=
  (((Arena.single (lit "task")).attachChild 0 (lit "read")).attachChild 1 (lit "the file")).attachChild
    0 (lit "write")

/-- A nested tree is rendered by line. -/
theorem rendersByLine_nested : RendersByLine nestedSteps ∧
    Str.splitLines (render nestedSteps) = [lit "[?] d=0 v=0 s=0.00 q=0.00 | task",
      lit "|-- [?] d=1 v=0 s=0.00 q=0.00 | read",
      lit "|   `-- [?] d=2 v=0 s=0.00 q=0.00 | the file",
      lit "`-- [?] d=1 v=0 s=0.00 q=0.00 | write"] := by
  refine ⟨(rendersByLine_iff _).mpr fun n hn => ?_, by decide +kernel⟩
  have hcases : n = 0 ∨ n = 1 ∨ n = 2 ∨ n = 3 := by
    change n < 4 at hn
    omega
  rcases hcases with rfl | rfl | rfl | rfl
  · exact flat_lit (by decide)
  · exact flat_lit (by decide)
  · exact flat_lit (by decide)
  · exact flat_lit (by decide)

/-- A task of two lines takes two lines of the diagram. -/
theorem not_rendersByLine_two_lines :
    ¬ RendersByLine (Arena.single (lit "first line\nsecond line") : Arena ℚ) := by
  rintro ⟨hlength, -⟩
  have hlines : (Str.splitLines (render
      (Arena.single (lit "first line\nsecond line") : Arena ℚ))).length = 2 := by decide +kernel
  exact absurd (hlines.symm.trans hlength) (by decide)

end CognitiveTree.Search
