import JackLang.Command.Disk
import JackLang.Proofs.Jobs
import JackLang.Proofs.Source.Files

/-! # Units that fail

The driver ends with trouble of its own if a file cannot be read, placed or written. A unit
that fails to compile is no such trouble: its diagnostic points into a file whose lines are
known, so it is shown, and the driver ends as one whose unit has failed.
-/

set_option autoImplicit false

namespace JackLang

namespace Session

variable {α β : Type}

/-- What an action of the command comes to, and the session behind it. -/
def carryOut (session : Session) (action : CommandM (StateM Session) α) :
    Except CommandError α × Session :=
  action.run.run session

section Bind

variable {session behind : Session} {action : CommandM (StateM Session) α}

theorem carryOut_bind_of_ok {value : α} (h : session.carryOut action = (.ok value, behind))
    (next : α → CommandM (StateM Session) β) :
    session.carryOut (action >>= next) = behind.carryOut (next value) := by
  rw [carryOut] at h
  rw [carryOut, ExceptT.run_bind, StateT.run_bind, h]
  rfl

theorem carryOut_bind_of_error {error : CommandError}
    (h : session.carryOut action = (.error error, behind))
    (next : α → CommandM (StateM Session) β) :
    session.carryOut (action >>= next) = (.error error, behind) := by
  rw [carryOut] at h
  rw [carryOut, ExceptT.run_bind, StateT.run_bind, h]
  rfl

end Bind

theorem carryOut_lift (session : Session) (action : StateM Session α) :
    session.carryOut (ExceptT.lift action) =
      (.ok (action.run session).1, (action.run session).2) := rfl

theorem carryOut_orFail (session : Session) (name : HostError → CommandError) (value : α) :
    session.carryOut (orFail name (.ok value)) = (.ok value, session) := rfl

theorem carryOut_readText {session : Session} {path text : String}
    (h : session.disk.readText path = .ok text) :
    session.carryOut (ExceptT.lift (Host.readText path)) = (.ok (.ok text), session) := by
  rw [← h]
  rfl

theorem run_change {session : Session} {action : Disk → Except HostError Disk}
    {made : Disk}
    (h : action session.disk = .ok made) :
    (change action : StateM Session (Except HostError Unit)).run session =
      (.ok (), { session with disk := made }) := by
  change change action session = _
  rw [change, h]

theorem carryOut_writeText {session : Session} {path text : String} {written : Disk}
    (h : session.disk.writeText path text = .ok written) :
    session.carryOut (ExceptT.lift (Host.writeText path text)) =
      (.ok (.ok ()), { session with disk := written }) := by
  have hwrite : (Host.writeText path text : StateM Session (Except HostError Unit)).run session =
      (.ok (), { session with disk := written }) := run_change h
  rw [carryOut_lift, hwrite]

/-- The action succeeds, and changes nothing but the log. -/
def OnlyLogs (session : Session) (action : CommandM (StateM Session) Unit) : Prop :=
  ∃ log, session.carryOut action = (.ok (), { session with log })

theorem onlyLogs_pure (session : Session) : session.OnlyLogs (pure ()) :=
  ⟨session.log, rfl⟩

theorem onlyLogs_logAt (session : Session) (level : LogLevel) (entry : LogEntry) :
    session.OnlyLogs (logAt level entry) := by
  rw [logAt]
  split
  · exact ⟨entry :: session.log, rfl⟩
  · exact session.onlyLogs_pure

theorem onlyLogs_forM (session : Session) (level : LogLevel) (entries : List LogEntry) :
    session.OnlyLogs (entries.forM (logAt level)) := by
  induction entries generalizing session with
  | nil => exact session.onlyLogs_pure
  | cons entry rest ih =>
      obtain ⟨log, hlog⟩ := session.onlyLogs_logAt level entry
      obtain ⟨more, hmore⟩ := ih { session with log }
      refine ⟨more, ?_⟩
      rw [show (entry :: rest).forM (logAt level) =
        (logAt level entry >>= fun _ => rest.forM (logAt level)) from rfl,
        carryOut_bind_of_ok hlog, hmore]

theorem onlyLogs_checkName (session : Session) (level : LogLevel) (unit source : String) :
    session.OnlyLogs (checkName level unit source) := by
  rw [checkName]
  split
  · split
    · exact session.onlyLogs_pure
    · exact session.onlyLogs_logAt level _
  · exact session.onlyLogs_pure

end Session

/-- The unit is read, and its output can be put where it belongs. -/
structure Task.Ready (task : Task) (disk : Disk) (unit source : String) : Prop where
  readable : disk.readText unit = .ok source
  writable : ∃ output written,
    SourceUnit.outputPath? unit task.outDir task.kind.suffix = some output ∧
      disk.writeText output (task.kind.write source .unlimited).text = .ok written

section Unit

variable {task : Task} {unit source : String} {session : Session}

/-- The diagnostic of a job is shown once the lines of its source are known. -/
theorem Job.exists_render {job : Job} {table : FileTable} {number : Nat} {error : CompileError}
    (h : table.Covers number source) (herror : job.error source = some error) :
    ∃ text, error.diagnostic.render table number = .ok text := by
  refine Diagnostic.exists_render h fun label hlabel => ?_
  obtain ⟨front, word, behind, htext, hspan, _⟩ := exists_extent_of_error herror hlabel
  rw [hspan, ← byteLength_toList, htext, byteLength_append, byteLength_append]
  exact ⟨Nat.le_add_right _ _, Nat.add_le_add_left (Nat.le_add_right _ _) _⟩

/-- A unit that is read and written is entered in the table, and has failed if its output has.
The diagnostic of a unit that fails is shown. -/
theorem carryOut_runUnit (level : LogLevel) (table : FileTable) {output : String} {written : Disk}
    (hread : session.disk.readText unit = .ok source)
    (houtput : SourceUnit.outputPath? unit task.outDir task.kind.suffix = some output)
    (hwrite : session.disk.writeText output (task.kind.write source .unlimited).text =
      .ok written) :
    ∃ stored behind,
      session.carryOut (runUnit level task table unit) =
        (.ok (stored, (task.kind.write source .unlimited).error.isNone), behind) ∧
      behind.disk = written ∧
      ∀ error, (task.kind.write source .unlimited).error = some error →
        ∃ number text, error.diagnostic.render stored number = .ok text ∧
          behind.messages = text :: session.messages := by
  obtain ⟨stored, hstored, htext, hoffsets⟩ :=
    FileTable.exists_setLineOffsets (table.text_upsert unit source) (.ofSource source)
  have hcovers : stored.Covers (table.upsert unit source).2 source := ⟨htext, hoffsets⟩
  obtain ⟨log, hname⟩ := session.onlyLogs_checkName level unit source
  let named : Session := { session with log }
  let placed : Session := { named with disk := written }
  have hplaced : named.carryOut (ExceptT.lift (Host.writeText output
      (task.kind.write source .unlimited).text)) = (.ok (.ok ()), placed) :=
    Session.carryOut_writeText hwrite
  obtain ⟨more, hlogs⟩ := placed.onlyLogs_forM level (task.kind.write source .unlimited).log
  let logged : Session := { placed with log := more }
  rw [runUnit, Session.carryOut_bind_of_ok (Session.carryOut_readText hread),
    Session.carryOut_bind_of_ok (Session.carryOut_orFail _ _ _),
    Session.carryOut_bind_of_ok hname, houtput]
  simp only
  rw [Session.carryOut_bind_of_ok hplaced,
    Session.carryOut_bind_of_ok (Session.carryOut_orFail _ _ _),
    Session.carryOut_bind_of_ok hlogs, hstored]
  cases herror : (task.kind.write source .unlimited).error with
  | none =>
      obtain ⟨last, hlast⟩ := logged.onlyLogs_logAt level (.unitWritten unit output)
      refine ⟨stored, { logged with log := last }, ?_, rfl, fun _ h => by cases h⟩
      simp only
      rw [Session.carryOut_bind_of_ok hlast]
      rfl
  | some error =>
      obtain ⟨text, hrender⟩ :=
        Job.exists_render hcovers ((OutputKind.error_write _ _ _).symm.trans herror)
      refine ⟨stored, { logged with messages := text :: logged.messages }, ?_, rfl, ?_⟩
      · simp only
        rw [hrender]
        rfl
      · rintro _ ⟨⟩
        exact ⟨_, text, hrender, rfl⟩

end Unit

section Units

variable {task : Task} {session behind : Session}

/-- Behind a unit that fails the others are run if they are to be, and trouble with their
files ends the run. -/
theorem carryOut_runUnits_of_failed {level : LogLevel} {table reached : FileTable}
    {unit : String} {next : Session}
    (h : session.carryOut (runUnit level task table unit) = (.ok (reached, false), next))
    (rest : List String) :
    session.carryOut (runUnits level task table (unit :: rest)) =
      if task.keepGoing then
        match next.carryOut (runUnits level task reached rest) with
        | (.ok _, last) => (.ok false, last)
        | (.error error, last) => (.error error, last)
      else (.ok false, next) := by
  rw [runUnits, Session.carryOut_bind_of_ok h]
  simp only [Bool.false_eq_true, if_false]
  split
  · rcases hrest : next.carryOut (runUnits level task reached rest) with ⟨error | value, last⟩
    · rw [Session.carryOut_bind_of_error hrest]
    · rw [Session.carryOut_bind_of_ok hrest]
      rfl
  · rfl

/-- Units that all succeed are followed by the others. -/
theorem carryOut_runUnits_append {level : LogLevel} {table : FileTable} {front : List String}
    (h : session.carryOut (runUnits level task table front) = (.ok true, behind)) :
    ∃ reached, ∀ rest, session.carryOut (runUnits level task table (front ++ rest)) =
      behind.carryOut (runUnits level task reached rest) := by
  induction front generalizing session table with
  | nil =>
      cases h
      exact ⟨table, fun _ => rfl⟩
  | cons unit more ih =>
      rcases hunit : session.carryOut (runUnit level task table unit) with
        ⟨error | ⟨reached, _ | _⟩, next⟩
      · rw [runUnits, Session.carryOut_bind_of_error hunit] at h
        cases h
      · rw [carryOut_runUnits_of_failed hunit] at h
        split at h
        · split at h <;> cases h
        · cases h
      · rw [runUnits, Session.carryOut_bind_of_ok hunit] at h
        obtain ⟨last, hlast⟩ := ih h
        refine ⟨last, fun rest => ?_⟩
        rw [List.cons_append, runUnits, Session.carryOut_bind_of_ok hunit]
        exact hlast rest

end Units

/-- The units of a task, once there is a directory for their outputs. -/
def Task.collect {m : Type → Type} [Monad m] [Host m] (task : Task) :
    CommandM m (List String) := do
  let units ← collectUnits task.path
  match task.outDir with
  | none => pure ()
  | some directory =>
      orFail (.noOutDir directory) (← ExceptT.lift (makeDirectories directory))
  return units

theorem runTask_eq (level : LogLevel) (task : Task) :
    (runTask level task : CommandM (StateM Session) Bool) =
      task.collect >>= runUnits level task .empty := by
  rw [runTask, Task.collect]
  cases task.outDir <;> simp

def Disk.session (disk : Disk) : Session := ⟨disk, [], []⟩

section Codes

variable {options : Options} {task : Task} {disk : Disk} {behind : Session}

/-- The exit code tells what has become of the task. -/
theorem Options.runOn_of_ok (h : options.task = some task) {succeeded : Bool}
    (hrun : disk.session.carryOut (runTask options.level task) = (.ok succeeded, behind)) :
    options.runOn disk = (if succeeded then .success else .compileError, behind) := by
  rw [Session.carryOut, Disk.session] at hrun
  rw [runOn, run, h]
  simp only [StateT.run_bind]
  rw [hrun]
  cases succeeded <;> rfl

/-- Trouble that ends a task is told. -/
theorem Options.runOn_of_error (h : options.task = some task) {error : CommandError}
    (hrun : disk.session.carryOut (runTask options.level task) = (.error error, behind)) :
    options.runOn disk = (.commandError,
      { behind with messages := s!"error: {error.message}\n" :: behind.messages }) := by
  rw [Session.carryOut, Disk.session] at hrun
  rw [runOn, run, h]
  simp only [StateT.run_bind]
  rw [hrun]
  rfl

end Codes

/-- The driver comes to a unit when the units are found, there is a directory for the
outputs, and the units in front of it succeed. -/
def Options.ComesTo (options : Options) (disk : Disk) (task : Task) (unit : String)
    (rest : List String) (session : Session) : Prop :=
  options.task = some task ∧ ∃ front start,
    disk.session.carryOut task.collect = (.ok (front ++ unit :: rest), start) ∧
      start.carryOut (runUnits options.level task .empty front) = (.ok true, session)

/-- A unit that fails is shown, and then decides the exit code unless the driver is to go on
and has trouble with the files of the units behind it. -/
theorem Options.exitCode_of_failed {options : Options} {disk : Disk} {task : Task}
    {unit source : String} {rest : List String} {session : Session}
    (hcomes : options.ComesTo disk task unit rest session)
    (hready : task.Ready session.disk unit source) {error : CompileError}
    (herror : (task.kind.write source .unlimited).error = some error) :
    ∃ (reached : FileTable) (number : Nat) (text : String) (next : Session),
      error.diagnostic.render reached number = .ok text ∧
      next.messages = text :: session.messages ∧
      ((task.keepGoing = true → ∃ succeeded last,
          next.carryOut (runUnits options.level task reached rest) = (.ok succeeded, last)) →
        (options.runOn disk).1 = .compileError) := by
  obtain ⟨htask, front, start, hcollect, hfront⟩ := hcomes
  obtain ⟨table, htable⟩ := carryOut_runUnits_append hfront
  obtain ⟨hread, output, written, houtput, hwrite⟩ := hready
  obtain ⟨reached, next, hunit, _, hshown⟩ :=
    carryOut_runUnit options.level table hread houtput hwrite
  obtain ⟨number, text, hrender, hmessages⟩ := hshown error herror
  rw [herror, Option.isNone_some] at hunit
  refine ⟨reached, number, text, next, hrender, hmessages, fun hrest => ?_⟩
  have hrun : ∃ last,
      disk.session.carryOut (runTask options.level task) = (.ok false, last) := by
    rw [runTask_eq, Session.carryOut_bind_of_ok hcollect, htable,
      carryOut_runUnits_of_failed hunit]
    by_cases hgoes : task.keepGoing = true
    · obtain ⟨succeeded, last, hlast⟩ := hrest hgoes
      rw [if_pos hgoes, hlast]
      exact ⟨last, rfl⟩
    · rw [if_neg hgoes]
      exact ⟨next, rfl⟩
  obtain ⟨last, hlast⟩ := hrun
  rw [Options.runOn_of_ok htask hlast]
  rfl

end JackLang
