import JackLang.Command.Options

/-! # Tasks of command lines

A command line is read argument by argument, and what has been read of its task is accepted
all the time: the directory for the outputs has a name, and only a task that compiles goes on
after units that fail.
-/

set_option autoImplicit false

namespace JackLang.Options

/-- What has been read may be the arguments of a task of the kind. -/
structure TaskArguments.Accepted (kind : OutputKind) (arguments : TaskArguments) : Prop where
  outDir : arguments.outDir ≠ some ""
  goesOn : arguments.keepGoing = true → kind = .program

namespace TaskArguments.Accepted

variable {kind : OutputKind} {arguments next : TaskArguments}

theorem none (kind : OutputKind) : TaskArguments.none.Accepted kind := by
  constructor
  · exact fun h => by cases h
  · exact fun h => by cases h

theorem withPath (h : arguments.Accepted kind) {path : String}
    (hpath : arguments.withPath? path = some next) : next.Accepted kind := by
  rw [withPath?] at hpath
  split at hpath
  · cases hpath
  · cases hpath
    exact ⟨h.outDir, h.goesOn⟩

theorem withPaths (h : arguments.Accepted kind) {paths : List String}
    (hpaths : paths.foldlM TaskArguments.withPath? arguments = some next) :
    next.Accepted kind := by
  induction paths generalizing arguments with
  | nil =>
      cases hpaths
      exact h
  | cons path rest ih =>
      rw [List.foldlM_cons] at hpaths
      obtain ⟨first, hfirst, hrest⟩ := Option.bind_eq_some_iff.mp hpaths
      exact ih (h.withPath hfirst) hrest

theorem withOutDir (h : arguments.Accepted kind) {directory : String}
    (hdirectory : arguments.withOutDir? directory = some next) : next.Accepted kind := by
  rw [withOutDir?] at hdirectory
  split at hdirectory
  · cases hdirectory
  · rename_i hgiven
    cases hdirectory
    refine ⟨?_, h.goesOn⟩
    rintro ⟨⟩
    simp at hgiven

theorem goOn (h : arguments.Accepted kind)
    (hgoes : ¬(arguments.keepGoing || kind ≠ .program) = true) :
    TaskArguments.Accepted kind { arguments with keepGoing := true } := by
  refine ⟨h.outDir, fun _ => ?_⟩
  rw [Bool.or_eq_true, not_or, decide_eq_true_eq, Decidable.not_not] at hgoes
  exact hgoes.2

end TaskArguments.Accepted

/-- Where options of the log stand, what is behind them is read only if they are taken. -/
theorem exists_of_switched {next : Verbosity → Invocation} {switched : Switched}
    {options : Options}
    (h : (match switched with
      | .taken verbosity => next verbosity
      | .help => .help
      | .unusable => .unusable) = .run options) :
    ∃ verbosity, next verbosity = .run options := by
  cases switched with
  | taken verbosity => exact ⟨verbosity, h⟩
  | help => cases h
  | unusable => cases h

theorem exists_accepted_of_readTask {kind : OutputKind} {outer : Verbosity}
    {arguments : TaskArguments} {texts : List String} {options : Options}
    (h : arguments.Accepted kind)
    (hread : readTask kind outer arguments texts = .run options) :
    ∃ accepted : TaskArguments, accepted.Accepted kind ∧
      accepted.invocation kind outer = .run options := by
  fun_induction readTask kind outer arguments texts with
  | case1 => exact ⟨_, h, hread⟩
  | case2 _ _ _ _ _ hpaths => exact ⟨_, h.withPaths hpaths, hread⟩
  | case4 _ _ _ _ _ _ hpath _ ih => exact ih (h.withPath hpath) hread
  | case7 _ _ _ _ _ _ hdirectory _ ih => exact ih (h.withOutDir hdirectory) hread
  | case10 _ _ _ _ _ _ _ _ hdirectory _ ih => exact ih (h.withOutDir hdirectory) hread
  | case14 _ _ _ _ hgoes _ ih => exact ih (h.goOn hgoes) hread
  | case6 _ _ _ _ _ _ ih =>
      obtain ⟨verbosity, hrest⟩ := exists_of_switched hread
      exact ih verbosity ⟨h.outDir, h.goesOn⟩ hrest
  | case15 _ _ _ _ _ _ _ _ ih =>
      obtain ⟨verbosity, hrest⟩ := exists_of_switched hread
      exact ih verbosity ⟨h.outDir, h.goesOn⟩ hrest
  | case3 | case5 | case8 | case9 | case11 | case12 | case13 | case16 => cases hread

/-- A command line gives a task no empty directory for its outputs, and has only tasks that
compile go on after a unit that fails. -/
theorem accepted_of_readArguments {verbosity : Verbosity} {texts : List String}
    {options : Options} {task : Task} (hread : readArguments verbosity texts = .run options)
    (htask : options.task = some task) :
    task.outDir ≠ some "" ∧ (task.keepGoing = true → task.kind = .program) := by
  fun_induction readArguments verbosity texts with
  | case6 _ _ _ _ _ _ kind =>
      obtain ⟨accepted, haccepted, hinvocation⟩ :=
        exists_accepted_of_readTask (.none kind) hread
      rw [TaskArguments.invocation] at hinvocation
      split at hinvocation
      · cases hinvocation
      · cases hinvocation
        cases htask
        exact ⟨haccepted.outDir, haccepted.goesOn⟩
  | case8 _ _ _ _ _ _ ih =>
      obtain ⟨next, hrest⟩ := exists_of_switched hread
      exact ih next hrest
  | case9 _ _ _ _ _ _ ih =>
      obtain ⟨next, hrest⟩ := exists_of_switched hread
      exact ih next hrest
  | case2 | case3 =>
      cases hread
      cases htask
  | case5 _ _ rest =>
      rcases rest with _ | ⟨topic, _ | _⟩
      · cases hread
      · simp only [helpTopic] at hread
        split at hread <;> cases hread
      · cases hread
  | case1 | case4 | case7 | case10 => cases hread

end JackLang.Options
