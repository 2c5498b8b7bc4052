import JackLang.Proofs.Reading.Settling

/-! # Where a reading stands

In front of a look-ahead a reading moves goal by goal: the token meets the first goal
and is taken, a node is opened or closed, an action is ordered, or a phrase is replaced.
The moves make just the steps of the reading, so behind each of its steps there are the
goals that are left and the tokens that are not taken yet.
-/

set_option autoImplicit false

namespace JackLang

def Step.token? : Step → Option Token
  | .took token => some token
  | _ => none

structure Standing where
  goals : List Goal
  number : Nat
  tokens : List Token

/-- The tokens that steps take. -/
def tokensTaken (steps : List Step) : List Token :=
  steps.filterMap Step.token?

@[simp] theorem tokensTaken_nil : tokensTaken [] = [] := rfl

@[simp] theorem tokensTaken_opened (rule : Rule) (rest : List Step) :
    tokensTaken (.opened rule :: rest) = tokensTaken rest := rfl

@[simp] theorem tokensTaken_closed (rule : Rule) (rest : List Step) :
    tokensTaken (.closed rule :: rest) = tokensTaken rest := rfl

@[simp] theorem tokensTaken_took (token : Token) (rest : List Step) :
    tokensTaken (.took token :: rest) = token :: tokensTaken rest := rfl

@[simp] theorem tokensTaken_act (action : Action) (rest : List Step) :
    tokensTaken (.act action :: rest) = tokensTaken rest := rfl

theorem tokensTaken_append (first second : List Step) :
    tokensTaken (first ++ second) = tokensTaken first ++ tokensTaken second :=
  List.filterMap_append

/-- The tokens in front of the first text that is no token. -/
def leadingTokens (tokens : List Token) : List Token :=
  tokens.takeWhile (!·.kind.isInvalid)

/-- The token is what the goal asks for, which leaves other goals in its place. -/
inductive Token.Meets (look : Token) : Goal → List Goal → Prop
  | token {kind : TokenKind} (expected : Expectation) (hkind : look.kind = kind) :
      Meets look (.token kind expected) []
  | shift : Meets look .shift []
  | name (role : NameRole) (hkind : look.kind = .identifier) :
      Meets look (.name role) (role.next look)
  | type (role : TypeRole) (hkind : look.kind.isType = true) :
      Meets look (.type role) (role.next look.lexeme)

namespace Standing

def start (tokens : List Token) : Standing := ⟨Goal.unit, 0, tokens⟩

/-- A move makes one step, unless it replaces a phrase. Nothing moves in front of text
that is no token. -/
inductive Moves : Standing → Option Step → Standing → Prop
  | take {look : Token} {goal : Goal} {found goals : List Goal} {number : Nat}
      {rest : List Token} (hvalid : look.kind.isInvalid = false) (hmeets : look.Meets goal found) :
      Moves ⟨goal :: goals, number, look :: rest⟩ (some (.took look))
        ⟨found ++ goals, number, rest⟩
  | opening {look : Token} {goals : List Goal} {number : Nat} {rest : List Token} (rule : Rule)
      (hvalid : look.kind.isInvalid = false) :
      Moves ⟨.opening rule :: goals, number, look :: rest⟩ (some (.opened rule))
        ⟨goals, number, look :: rest⟩
  | closing {look : Token} {goals : List Goal} {number : Nat} {rest : List Token} (rule : Rule)
      (hvalid : look.kind.isInvalid = false) :
      Moves ⟨.closing rule :: goals, number, look :: rest⟩ (some (.closed rule))
        ⟨goals, number, look :: rest⟩
  | act {look : Token} {goals : List Goal} {number : Nat} {rest : List Token} (action : Action)
      (hvalid : look.kind.isInvalid = false) :
      Moves ⟨.act action :: goals, number, look :: rest⟩ (some (.act action))
        ⟨goals, number, look :: rest⟩
  | phrase {look : Token} {found goals : List Goal} {number : Nat} {rest : List Token}
      {replaced : Phrase} (hvalid : look.kind.isInvalid = false)
      (hexpand : replaced.expand look number = .ok found) :
      Moves ⟨.phrase replaced :: goals, number, look :: rest⟩ none
        ⟨found ++ goals, number + replaced.numbersTaken, look :: rest⟩

inductive Reaches : Standing → List Step → Standing → Prop
  | stay (standing : Standing) : Reaches standing [] standing
  | move {first second third : Standing} {step : Option Step} {rest : List Step}
      (hmove : first.Moves step second) (hrest : Reaches second rest third) :
      Reaches first (step.toList ++ rest) third

variable {first second third : Standing} {steps more : List Step}

theorem Reaches.trans (h : first.Reaches steps second) (hmore : second.Reaches more third) :
    first.Reaches (steps ++ more) third := by
  induction h with
  | stay standing => exact hmore
  | move hmove hrest ih =>
      rw [List.append_assoc]
      exact .move hmove (ih hmore)

/-- The tokens that are not taken yet are those behind the ones that the steps take. -/
theorem Reaches.tokens_eq (h : first.Reaches steps second) :
    first.tokens = tokensTaken steps ++ second.tokens := by
  induction h with
  | stay standing => rfl
  | move hmove hrest ih =>
      rw [tokensTaken_append, List.append_assoc, ← ih]
      cases hmove <;> rfl

theorem Reaches.valid (h : first.Reaches steps second) :
    ∀ token ∈ tokensTaken steps, token.kind.isInvalid = false := by
  induction h with
  | stay standing => simp
  | move hmove hrest ih =>
      intro token hmem
      rw [tokensTaken_append, List.mem_append] at hmem
      rcases hmem with hmem | hmem
      · cases hmove with
        | take hvalid hmeets =>
            rw [List.mem_singleton.mp hmem]
            exact hvalid
        | _ => cases hmem
      · exact ih token hmem

/-- What reaches a standing has gone through one behind each of its steps. -/
theorem Reaches.of_prefix (h : first.Reaches steps third) (hmore : more <+: steps) :
    ∃ second, first.Reaches more second := by
  induction h generalizing more with
  | stay standing =>
      rw [List.prefix_nil] at hmore
      exact ⟨standing, hmore ▸ .stay standing⟩
  | @move first second third step rest hmove hrest ih =>
      cases step with
      | none =>
          obtain ⟨last, hlast⟩ := ih hmore
          exact ⟨last, .move hmove hlast⟩
      | some step =>
          cases more with
          | nil => exact ⟨first, .stay first⟩
          | cons made others =>
              obtain ⟨rfl, hothers⟩ := List.cons_prefix_cons.mp hmore
              obtain ⟨last, hlast⟩ := ih hothers
              exact ⟨last, .move hmove hlast⟩

/-- The last step has been made in front of a token of the language. -/
theorem Reaches.exists_last {step : Step} (h : first.Reaches (steps ++ [step]) third) :
    ∃ second next, first.Reaches steps second ∧ second.Moves (some step) next := by
  generalize hwhole : steps ++ [step] = whole at h
  induction h generalizing steps with
  | stay standing => simp at hwhole
  | @move first second third made rest hmove hrest ih =>
      cases made with
      | none =>
          obtain ⟨before, next, hbefore, hnext⟩ := ih hwhole
          exact ⟨before, next, .move hmove hbefore, hnext⟩
      | some made =>
          cases steps with
          | nil =>
              obtain ⟨rfl, _⟩ := List.cons.inj hwhole
              exact ⟨first, second, .stay first, hmove⟩
          | cons head tail =>
              obtain ⟨rfl, htail⟩ := List.cons.inj hwhole
              obtain ⟨before, next, hbefore, hnext⟩ := ih htail
              exact ⟨before, next, .move hmove hbefore, hnext⟩

end Standing

/-- The settlement of goals in front of the look-ahead is reached by moves that make its
steps, behind those made before. -/
def Settlement.ReachedFrom (standing : Standing) (made : List Step) : Settlement → Prop
  | .taken goals number steps => ∃ more, steps.reverse = made.reverse ++ more ∧
      standing.Reaches more ⟨goals, number, standing.tokens.tail⟩
  | .refused _ steps => ∃ more last, steps.reverse = made.reverse ++ more ∧
      standing.Reaches more last ∧ last.tokens = standing.tokens

namespace Standing

variable {look : Token} {first second : Standing} {made : List Step}

theorem reachedFrom_move {step : Option Step} {settlement : Settlement}
    (hmove : first.Moves step second) (htokens : second.tokens = first.tokens)
    (h : settlement.ReachedFrom second (step.toList ++ made)) :
    settlement.ReachedFrom first made := by
  have hmade : (step.toList ++ made).reverse = made.reverse ++ step.toList := by
    cases step <;> simp
  cases settlement with
  | taken goals number steps =>
      obtain ⟨more, hmore, hreaches⟩ := h
      rw [hmade, List.append_assoc] at hmore
      exact ⟨_, hmore, htokens ▸ .move hmove hreaches⟩
  | refused expected steps =>
      obtain ⟨more, last, hmore, hreaches, hlast⟩ := h
      rw [hmade, List.append_assoc] at hmore
      exact ⟨_, last, hmore, .move hmove hreaches, hlast.trans htokens⟩

theorem reachedFrom_take {goal : Goal} {found goals : List Goal} {rest : List Token}
    (number : Nat) (hvalid : look.kind.isInvalid = false) (hmeets : look.Meets goal found) :
    (Settlement.taken (found ++ goals) number (.took look :: made)).ReachedFrom
      ⟨goal :: goals, number, look :: rest⟩ made :=
  ⟨[.took look], List.reverse_cons, .move (.take hvalid hmeets) (.stay _)⟩

theorem reachedFrom_refused (standing : Standing) (expected : Expectation) :
    (Settlement.refused expected made).ReachedFrom standing made :=
  ⟨[], standing, (List.append_nil _).symm, .stay standing, rfl⟩

/-- Goals are settled in front of a token by moves. -/
theorem reachedFrom_settle (number : Nat) (goals : List Goal)
    (hvalid : look.kind.isInvalid = false) (rest : List Token) :
    (settle look number made goals).ReachedFrom ⟨goals, number, look :: rest⟩ made := by
  fun_induction settle look number made goals with
  | case1 | case3 | case6 | case8 | case13 => exact reachedFrom_refused _ _
  | case2 number made expected goals =>
      exact reachedFrom_take number hvalid (.token expected rfl)
  | case4 number made goals => exact reachedFrom_take number hvalid .shift
  | case5 number made role goals hkind => exact reachedFrom_take number hvalid (.name role hkind)
  | case7 number made role goals hkind => exact reachedFrom_take number hvalid (.type role hkind)
  | case9 number made rule goals ih => exact reachedFrom_move (.opening rule hvalid) rfl ih
  | case10 number made rule goals ih => exact reachedFrom_move (.closing rule hvalid) rfl ih
  | case11 number made action goals ih => exact reachedFrom_move (.act action hvalid) rfl ih
  | case12 number made replaced goals found hexpand ih =>
      exact reachedFrom_move (.phrase hvalid hexpand) rfl ih

end Standing

/-- The verdict is about the first of the tokens, or there are no more tokens. -/
def Verdict.Concerns (tokens : List Token) : Verdict → Prop
  | .accepted => tokens = []
  | .unexpected _ found => found.kind.isInvalid = false ∧ tokens.head? = some found
  | .lexical error found => found.kind = .invalid error ∧ tokens.head? = some found

namespace Standing

/-- A reading gets by moves to where it stops. -/
theorem reaches_readAfter (made : List Step) (number : Nat) (goals : List Goal)
    (tokens : List Token) :
    ∃ steps last, (readAfter made number goals tokens).steps = made.reverse ++ steps ∧
      Reaches ⟨goals, number, tokens⟩ steps last ∧
      (readAfter made number goals tokens).verdict.Concerns last.tokens := by
  induction tokens generalizing made number goals with
  | nil => exact ⟨[], _, (List.append_nil _).symm, .stay _, rfl⟩
  | cons look rest ih =>
      cases hkind : look.kind with
      | invalid error =>
          simp only [readAfter, hkind]
          exact ⟨[], _, (List.append_nil _).symm, .stay _, hkind, rfl⟩
      | _ =>
          have hvalid : look.kind.isInvalid = false := by rw [hkind]; rfl
          have hsettle : (settle look number made goals).ReachedFrom _ made :=
            reachedFrom_settle number goals hvalid rest
          rw [readAfter_cons _ _ hvalid]
          revert hsettle
          cases settle look number made goals with
          | taken goals' number' made' =>
              rintro ⟨first, hfirst, hreaches⟩
              obtain ⟨others, last, hothers, hlast, hverdict⟩ := ih made' number' goals'
              rw [hfirst, List.append_assoc] at hothers
              exact ⟨_, last, hothers, hreaches.trans hlast, hverdict⟩
          | refused expected made' =>
              rintro ⟨steps, last, hsteps, hreaches, htokens⟩
              exact ⟨steps, last, hsteps, hreaches, hvalid, by rw [htokens]; rfl⟩

theorem reaches_readUnit (tokens : List Token) :
    ∃ last, (start tokens).Reaches (readUnit tokens).steps last ∧
      (readUnit tokens).verdict.Concerns last.tokens := by
  obtain ⟨steps, last, hsteps, hreaches, hverdict⟩ := reaches_readAfter [] 0 Goal.unit tokens
  refine ⟨last, ?_, hverdict⟩
  rwa [readUnit, hsteps]

end Standing

end JackLang
