import JackLang.Proofs.Reading.Soundness

/-! # Reading token by token

Between two tokens a reading knows the steps it has made, the next number and
the goals that are left. Tokens are taken one after the other up to the one at
which the reading stops, and what is behind that one has no part in it.
-/

set_option autoImplicit false

namespace JackLang

/-- What a reading knows between two tokens. Steps come last first. -/
structure Progress where
  steps : List Step
  number : Nat
  goals : List Goal

namespace Progress

def initial : Progress := ⟨[], 0, Goal.unit⟩

def read (progress : Progress) (tokens : List Token) : Reading :=
  readAfter progress.steps progress.number progress.goals tokens

def take? (progress : Progress) : List Token → Option Progress
  | [] => some progress
  | look :: rest =>
      if look.kind.isInvalid then none
      else
        match settle look progress.number progress.steps progress.goals with
        | .taken goals number steps => take? ⟨steps, number, goals⟩ rest
        | .refused _ _ => none

/-- How a reading ends with the tokens in front of which it stops. -/
inductive Stops (progress : Progress) : List Token → Reading → Prop
  | finished : Stops progress [] ⟨progress.steps.reverse, .accepted⟩
  | invalid {look : Token} {error : LexicalError} (rest : List Token)
      (hkind : look.kind = .invalid error) :
      Stops progress (look :: rest) ⟨progress.steps.reverse, .lexical error look⟩
  | refused {look : Token} {expected : Expectation} {steps : List Step} (rest : List Token)
      (hvalid : look.kind.isInvalid = false)
      (hsettle : settle look progress.number progress.steps progress.goals =
        .refused expected steps) :
      Stops progress (look :: rest) ⟨steps.reverse, .unexpected expected look⟩

variable {progress next : Progress} {front rest : List Token}

theorem take?_cons {look : Token} (h : progress.take? (look :: rest) = some next) :
    ∃ goals number steps, look.kind.isInvalid = false ∧
      settle look progress.number progress.steps progress.goals = .taken goals number steps ∧
      take? ⟨steps, number, goals⟩ rest = some next := by
  rw [take?] at h
  split at h
  · cases h
  · rename_i hvalid
    split at h
    · rename_i goals number steps hsettle
      exact ⟨goals, number, steps, by simpa using hvalid, hsettle, h⟩
    · cases h

theorem take?_of_taken {look : Token} {goals : List Goal} {number : Nat} {steps : List Step}
    (hvalid : look.kind.isInvalid = false)
    (hsettle : settle look progress.number progress.steps progress.goals =
      .taken goals number steps) :
    progress.take? (look :: rest) = take? ⟨steps, number, goals⟩ rest := by
  rw [take?, hsettle, hvalid]
  rfl

theorem read_of_taken {look : Token} {goals : List Goal} {number : Nat} {steps : List Step}
    (hvalid : look.kind.isInvalid = false)
    (hsettle : settle look progress.number progress.steps progress.goals =
      .taken goals number steps) :
    progress.read (look :: rest) = read ⟨steps, number, goals⟩ rest := by
  rw [read, readAfter_cons _ _ hvalid, hsettle]
  rfl

theorem read_append (h : progress.take? front = some next) (rest : List Token) :
    progress.read (front ++ rest) = next.read rest := by
  induction front generalizing progress with
  | nil =>
      cases h
      rfl
  | cons look others ih =>
      obtain ⟨goals, number, steps, hvalid, hsettle, hothers⟩ := take?_cons h
      rw [List.cons_append, read_of_taken hvalid hsettle]
      exact ih hothers

theorem exists_stops (progress : Progress) (tokens : List Token) :
    ∃ front rest next, tokens = front ++ rest ∧ progress.take? front = some next ∧
      next.Stops rest (progress.read tokens) := by
  induction tokens generalizing progress with
  | nil =>
      refine ⟨[], [], progress, rfl, rfl, ?_⟩
      rw [read, readAfter]
      exact .finished
  | cons look rest ih =>
      cases hkind : look.kind with
      | invalid error =>
          refine ⟨[], look :: rest, progress, rfl, rfl, ?_⟩
          rw [read, readAfter]
          simp only [hkind]
          exact .invalid rest hkind
      | _ =>
          have hvalid : look.kind.isInvalid = false := by rw [hkind]; rfl
          cases hsettle : settle look progress.number progress.steps progress.goals with
          | taken goals number steps =>
              obtain ⟨front, others, next, hrest, htake, hstops⟩ := ih ⟨steps, number, goals⟩
              refine ⟨look :: front, others, next, by rw [hrest]; rfl, ?_, ?_⟩
              · rw [take?_of_taken hvalid hsettle, htake]
              · rwa [read_of_taken hvalid hsettle]
          | refused expected steps =>
              refine ⟨[], look :: rest, progress, rfl, rfl, ?_⟩
              rw [read, readAfter_cons _ _ hvalid, hsettle]
              exact .refused rest hvalid hsettle

/-- Where one reading refuses a token, every reading of the same tokens up to
this one does. -/
theorem read_of_refused (h : progress.take? front = some next) {look : Token}
    {expected : Expectation} {steps : List Step} (hvalid : look.kind.isInvalid = false)
    (hsettle : settle look next.number next.steps next.goals = .refused expected steps)
    (rest : List Token) :
    progress.read (front ++ look :: rest) = ⟨steps.reverse, .unexpected expected look⟩ := by
  rw [read_append h, read, readAfter_cons _ _ hvalid, hsettle]

/-- What the goals behind taken tokens can spell continues these tokens. -/
theorem spells_of_take?
    (hregular : ∀ token ∈ front, token.kind ≠ .endOfFile → token.word.Regular)
    (h : progress.take? front = some next) {words : List Word}
    (hspells : SpellsAll next.goals words) :
    SpellsAll progress.goals (front.map Token.word ++ words) := by
  induction front generalizing progress with
  | nil =>
      cases h
      exact hspells
  | cons look others ih =>
      obtain ⟨goals, number, steps, _, hsettle, hothers⟩ := take?_cons h
      have hrest := ih (fun token hmem => hregular token (.tail look hmem)) hothers
      exact spells_of_settle (hregular look (.head others)) hsettle hrest

end Progress

theorem readUnit_eq_read (tokens : List Token) : readUnit tokens = Progress.initial.read tokens :=
  rfl

/-- Whatever has been taken of a unit, what the goals left can spell completes it to
the words of a unit. -/
theorem exists_unit_of_spells {front : List Token} {next : Progress} {words : List Word}
    (hregular : ∀ token ∈ front, token.kind ≠ .endOfFile → token.word.Regular)
    (h : Progress.initial.take? front = some next) (hspells : SpellsAll next.goals words) :
    ∃ (unit : ClassUnit) (last : Word),
      front.map Token.word ++ words = unit.words ++ [last] ∧ last.kind = .endOfFile :=
  spells_unit (Progress.spells_of_take? hregular h hspells)

theorem Word.Regular.kind_ne {word : Word} (h : word.Regular) : word.kind ≠ .endOfFile := by
  intro hkind
  rw [Regular, hkind] at h
  exact h

theorem exists_prefix_of_take? {front : List Token} {next : Progress}
    (hregular : ∀ token ∈ front, token.word.Regular)
    (h : Progress.initial.take? front = some next) :
    ∃ unit : ClassUnit, front.map Token.word <+: unit.words := by
  obtain ⟨words, hspells, _⟩ := exists_spellsAll next.goals
  obtain ⟨unit, last, hwords, hlast⟩ :=
    exists_unit_of_spells (fun token hmem _ => hregular token hmem) h hspells
  refine ⟨unit, ?_⟩
  have hprefix : front.map Token.word <+: unit.words ++ [last] := hwords ▸ List.prefix_append _ _
  rcases List.prefix_concat_iff.mp hprefix with heq | hprefix
  · have hmem : last ∈ front.map Token.word := by simp [heq]
    obtain ⟨token, htoken, rfl⟩ := List.mem_map.mp hmem
    exact absurd hlast (hregular token htoken).kind_ne
  · exact hprefix

end JackLang
