import JackLang.Proofs.Reading.Shape
import JackLang.Proofs.Reading.Soundness

/-! # The text of a tree

Each step of a reading that shows in the tree has its line, indented for the depth
at which it stands. Going through a parse tree writes just the lines of the tree.
-/

set_option autoImplicit false

namespace JackLang

namespace Step

/-- The line that a step adds to a tree at the given depth. A node closes at the depth
at which it was opened. -/
def lineAt (depth : Nat) : Step → String
  | .opened rule => ParseTree.lines.indented depth ("<" ++ rule.tag ++ ">") ++ "\n"
  | .closed rule => ParseTree.lines.indented (depth - 1) ("</" ++ rule.tag ++ ">") ++ "\n"
  | .took token =>
      if token.kind.tokenClass = .auxiliary then ""
      else ParseTree.lines.indented depth (ParseTree.wordLine token.word) ++ "\n"
  | .act _ => ""

def depthBehind (depth : Nat) : Step → Nat
  | .opened _ => depth + 1
  | .closed _ => depth - 1
  | _ => depth

theorem lineAt_moved (move : Span → Span) (depth : Nat) (step : Step) :
    (step.moved move).lineAt depth = step.lineAt depth := by
  cases step <;> rfl

theorem depthBehind_moved (move : Span → Span) (depth : Nat) (step : Step) :
    (step.moved move).depthBehind depth = step.depthBehind depth := by
  cases step <;> rfl

end Step

/-- What steps write to a tree from a depth on. -/
def treeText : Nat → List Step → String
  | _, [] => ""
  | depth, step :: rest => step.lineAt depth ++ treeText (step.depthBehind depth) rest

def depthBehind (depth : Nat) (steps : List Step) : Nat :=
  steps.foldl Step.depthBehind depth

theorem treeText_append (depth : Nat) (first second : List Step) :
    treeText depth (first ++ second) =
      treeText depth first ++ treeText (depthBehind depth first) second := by
  induction first generalizing depth with
  | nil => simp [treeText, depthBehind]
  | cons step rest ih =>
      rw [List.cons_append, treeText, ih, treeText, String.append_assoc]
      rfl

theorem depthBehind_append (depth : Nat) (first second : List Step) :
    depthBehind depth (first ++ second) = depthBehind (depthBehind depth first) second :=
  List.foldl_append

theorem treeText_moved (move : Span → Span) (depth : Nat) (steps : List Step) :
    treeText depth (steps.map (Step.moved move)) = treeText depth steps := by
  induction steps generalizing depth with
  | nil => rfl
  | cons step rest ih =>
      rw [List.map_cons, treeText, step.lineAt_moved, step.depthBehind_moved, ih, treeText]

namespace ParseTree

def textAt (depth : Nat) (tree : ParseTree) : String :=
  String.join ((tree.lines depth).map (· ++ "\n"))

theorem text_eq (tree : ParseTree) : tree.text = tree.textAt 0 := rfl

theorem textAt_node (depth : Nat) (rule : Rule) (children : List ParseTree) :
    (node rule children).textAt depth =
      (Step.opened rule).lineAt depth ++ String.join (children.map (textAt (depth + 1))) ++
        (Step.closed rule).lineAt (depth + 1) := by
  have hchildren : String.join ((children.flatMap (lines (depth + 1))).map (· ++ "\n")) =
      String.join (children.map (textAt (depth + 1))) := by
    induction children with
    | nil => rfl
    | cons child others ih =>
        rw [List.flatMap_cons, List.map_append, String.join_append, ih, List.map_cons,
          String.join_cons]
        rfl
  rw [textAt, lines, List.map_append, List.map_cons, String.join_append, String.join_cons,
    hchildren]
  simp [Step.lineAt]

theorem treeText_flatMap {trees : List ParseTree}
    (h : ∀ tree ∈ trees, ∀ depth rest,
      treeText depth (tree.course ++ rest) = tree.textAt depth ++ treeText depth rest)
    (depth : Nat) (rest : List Step) :
    treeText depth (trees.flatMap course ++ rest) =
      String.join (trees.map (textAt depth)) ++ treeText depth rest := by
  induction trees with
  | nil => simp
  | cons tree others ih =>
      have hothers := ih fun other hmem => h other (.tail tree hmem)
      rw [List.flatMap_cons, List.append_assoc, h tree (.head others), hothers, List.map_cons,
        String.join_cons, String.append_assoc]

/-- Going through a tree writes its lines, and is back at its depth behind them. -/
theorem treeText_course (tree : ParseTree) (h : Inner tree.words) (depth : Nat)
    (rest : List Step) :
    treeText depth (tree.course ++ rest) = tree.textAt depth ++ treeText depth rest := by
  match tree with
  | .leaf word =>
      have hclass : word.kind.tokenClass ≠ .auxiliary := h word (by simp)
      simp [Step.takes, treeText, Step.lineAt, Step.depthBehind, hclass, textAt, lines]
  | .node rule children =>
      have hchildren : ∀ child ∈ children, ∀ depth rest,
          treeText depth (child.course ++ rest) = child.textAt depth ++ treeText depth rest := by
        intro child hmem
        apply child.treeText_course
        intro word hword
        apply h word
        rw [words_node]
        exact List.mem_flatMap.mpr ⟨child, hmem, hword⟩
      rw [course_node, Step.node, List.cons_append, List.cons_append, List.append_assoc, treeText,
        treeText_flatMap hchildren, textAt_node]
      simp [treeText, Step.depthBehind, String.append_assoc]

end ParseTree

end JackLang
