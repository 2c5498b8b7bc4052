import JackLang.Proofs.Reading.Shape
import JackLang.Proofs.Reading.Standing

/-! # Nodes that are open

A step closes the innermost of the nodes that are open, and no other. Which nodes these
are can be read off the goals that are left: they are the ones that these goals close
without having opened them. Every move keeps it so.
-/

set_option autoImplicit false

namespace JackLang

/-- The nodes that are open behind a step, innermost first. Only the innermost one can
be closed. -/
def Step.openBehind? (nodes : List Rule) : Step → Option (List Rule)
  | .opened rule => some (rule :: nodes)
  | .closed rule =>
      match nodes with
      | [] => none
      | innermost :: outer => if innermost = rule then some outer else none
  | .took _ => some nodes
  | .act _ => some nodes

def openBehind? (nodes : List Rule) : List Step → Option (List Rule)
  | [] => some nodes
  | step :: rest => (step.openBehind? nodes).bind fun behind => openBehind? behind rest

/-- The node that is under way while the goal is waiting, and over when it is met. The
name of a subroutine and the phrases that repeat are in the midst of a node. -/
def Goal.node? : Goal → Option Rule
  | .closing rule => some rule
  | .name (.subroutine _) => some .subroutineDec
  | .phrase .moreStatements => some .statements
  | .phrase (.argument _ _) => some .expressionList
  | .phrase (.moreArguments _ _) => some .expressionList
  | _ => none

/-- The nodes under way in front of a goal, from those behind it. -/
def Goal.underWay? (behind : List Rule) : Goal → Option (List Rule)
  | .opening rule =>
      match behind with
      | [] => none
      | innermost :: outer => if innermost = rule then some outer else none
  | goal => some (goal.node?.toList ++ behind)

/-- The nodes that goals are to close without opening them, innermost first. -/
def underWay? (behind : List Rule) : List Goal → Option (List Rule)
  | [] => some behind
  | goal :: rest => (underWay? behind rest).bind goal.underWay?

section Steps

variable {nodes : List Rule} {steps : List Step}

theorem openBehind?_append (nodes : List Rule) (first second : List Step) :
    openBehind? nodes (first ++ second) =
      (openBehind? nodes first).bind fun behind => openBehind? behind second := by
  induction first generalizing nodes with
  | nil => rfl
  | cons step rest ih => simp only [List.cons_append, openBehind?, ih, Option.bind_assoc]

theorem openBehind?_shape (nodes : List Rule) (steps : List Step) :
    openBehind? nodes (shape steps) = openBehind? nodes steps := by
  induction steps generalizing nodes with
  | nil => rfl
  | cons step rest ih =>
      cases step with
      | act action => exact ih nodes
      | opened rule => exact ih (rule :: nodes)
      | took token => exact ih nodes
      | closed rule =>
          rw [shape_closed, openBehind?, openBehind?]
          simp only [ih]

theorem openBehind?_moved (move : Span → Span) (nodes : List Rule) (steps : List Step) :
    openBehind? nodes (steps.map (Step.moved move)) = openBehind? nodes steps := by
  induction steps generalizing nodes with
  | nil => rfl
  | cons step rest ih =>
      have hstep : (step.moved move).openBehind? nodes = step.openBehind? nodes := by
        cases step <;> rfl
      simp only [List.map_cons, openBehind?, hstep, ih]

/-- Going through a parse tree closes the nodes that it opens. -/
theorem ParseTree.openBehind?_course (tree : ParseTree) (nodes : List Rule) :
    openBehind? nodes tree.course = some nodes := by
  match tree with
  | .leaf word => simp [openBehind?, Step.takes, Step.openBehind?]
  | .node rule children =>
      have hchildren : openBehind? (rule :: nodes) (children.flatMap ParseTree.course) =
          some (rule :: nodes) := by
        have hall : ∀ child ∈ children, openBehind? (rule :: nodes) child.course =
            some (rule :: nodes) := fun child _ => child.openBehind?_course (rule :: nodes)
        revert hall
        generalize rule :: nodes = around
        intro hall
        induction children with
        | nil => rfl
        | cons child others ih =>
            rw [List.flatMap_cons, openBehind?_append, hall child (.head others),
              Option.bind_some]
            exact ih fun other hmem => hall other (.tail child hmem)
      rw [course_node, Step.node, List.cons_append, openBehind?, Step.openBehind?,
        Option.bind_some, openBehind?_append, hchildren]
      simp [openBehind?, Step.openBehind?]

end Steps

section Goals

variable {behind : List Rule}

theorem underWay?_append (behind : List Rule) (first second : List Goal) :
    underWay? behind (first ++ second) =
      (underWay? behind second).bind fun between => underWay? between first := by
  induction first with
  | nil => simp [underWay?]
  | cons goal rest ih => simp only [List.cons_append, underWay?, ih, Option.bind_assoc]

/-- The goals that replace a phrase have the same nodes under way. -/
theorem Phrase.underWay?_expand {replaced : Phrase} {look : Token} {number : Nat}
    {found : List Goal} (behind : List Rule) (h : replaced.expand look number = .ok found) :
    underWay? behind found = some ((Goal.phrase replaced).node?.toList ++ behind) := by
  cases replaced with
  | termBody =>
      simp only [expand, startTerm] at h
      split at h <;> cases h <;> rfl
  | letRest target =>
      simp only [expand, assignment] at h
      split at h <;> cases h <;> rfl
  | _ =>
      simp only [expand] at h
      repeat' split at h
      all_goals cases h
      all_goals
        simp [underWay?, Goal.underWay?, Goal.node?, Goal.symbol, Goal.emit, Goal.callEnd,
          Goal.block, Goal.condition, declaration, subroutine, statement, conditional, loop]

theorem Token.Meets.underWay? {look : Token} {goal : Goal} {found : List Goal}
    (h : look.Meets goal found) (behind : List Rule) :
    JackLang.underWay? behind found = some (goal.node?.toList ++ behind) := by
  cases h with
  | token expected hkind | shift => rfl
  | name role hkind => cases role <;> rfl
  | type role hkind => cases role <;> rfl

end Goals

namespace Standing

variable {first second : Standing} {nodes : List Rule} {steps : List Step}

/-- A move opens the nodes that come under way, and closes those that are over. -/
theorem Moves.openBehind? {step : Option Step} (h : first.Moves step second)
    (hnodes : underWay? [] first.goals = some nodes) :
    ∃ behind, JackLang.openBehind? nodes step.toList = some behind ∧
      underWay? [] second.goals = some behind := by
  cases h with
  | @take look goal found goals number rest hvalid hmeets =>
      obtain ⟨behind, hbehind, hgoal⟩ := Option.bind_eq_some_iff.mp hnodes
      refine ⟨nodes, rfl, ?_⟩
      rw [underWay?_append, hbehind, Option.bind_some, hmeets.underWay?]
      cases hmeets <;> exact hgoal
  | opening rule hvalid =>
      obtain ⟨behind, hbehind, hgoal⟩ := Option.bind_eq_some_iff.mp hnodes
      cases behind with
      | nil => cases hgoal
      | cons innermost outer =>
          obtain ⟨rfl, houter⟩ := Option.ite_none_right_eq_some.mp hgoal
          cases houter
          exact ⟨_, rfl, hbehind⟩
  | closing rule hvalid =>
      obtain ⟨behind, hbehind, hgoal⟩ := Option.bind_eq_some_iff.mp hnodes
      cases hgoal
      refine ⟨behind, ?_, hbehind⟩
      simp [JackLang.openBehind?, Step.openBehind?, Goal.node?]
  | act action hvalid =>
      obtain ⟨behind, hbehind, hgoal⟩ := Option.bind_eq_some_iff.mp hnodes
      cases hgoal
      exact ⟨behind, rfl, hbehind⟩
  | @phrase look found goals number rest replaced hvalid hexpand =>
      obtain ⟨behind, hbehind, hgoal⟩ := Option.bind_eq_some_iff.mp hnodes
      refine ⟨nodes, rfl, ?_⟩
      rw [underWay?_append, hbehind, Option.bind_some, replaced.underWay?_expand _ hexpand]
      exact hgoal

/-- Wherever moves get to, the nodes that are open are those under way in front of the
goals that are left. -/
theorem Reaches.openBehind? (h : first.Reaches steps second)
    (hnodes : underWay? [] first.goals = some nodes) :
    ∃ behind, JackLang.openBehind? nodes steps = some behind ∧
      underWay? [] second.goals = some behind := by
  induction h generalizing nodes with
  | stay standing => exact ⟨nodes, rfl, hnodes⟩
  | move hmove hrest ih =>
      obtain ⟨between, hbetween, hsecond⟩ := hmove.openBehind? hnodes
      obtain ⟨behind, hbehind, hthird⟩ := ih hsecond
      refine ⟨behind, ?_, hthird⟩
      rw [openBehind?_append, hbetween, Option.bind_some, hbehind]

theorem underWay?_start (tokens : List Token) : underWay? [] (start tokens).goals = some [] := by
  simp [start, Goal.unit, underWay?, Goal.underWay?, Goal.node?, Goal.symbol]

end Standing

end JackLang
