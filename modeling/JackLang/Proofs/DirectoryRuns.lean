import JackLang.Proofs.Command.Options
import JackLang.Proofs.Command.UnitRuns

/-! # Runs over a directory

The command run on a directory comes to what its units come to one by one. Each unit that it
reaches has the output of its source alone, whatever the others are, and nothing else on the
disk is changed. A directory without units is refused.
-/

set_option autoImplicit false

namespace JackLang

namespace Task

/-- The task names a directory at the place. The units there can be read, and behind the
making of the directory for the outputs, which leaves the disk that has been prepared, each
output can be written. -/
structure Workable (task : Task) (disk prepared : Disk) (place : Place)
    (source : String → String) : Prop where
  found : disk.resolve task.path = .ok place
  directory : disk.node? place = some .directory
  readable : ∀ name, disk.IsUnit place name →
    disk.readText (Path.join task.path name) = .ok (source name)
  here : task.outDir = none → prepared = disk
  made : ∀ directory, task.outDir = some directory →
    (makeDirectories directory : StateM Session (Except HostError Unit)).run disk.session =
      (.ok (), prepared.session)
  writable : ∀ name, disk.IsUnit place name → ∃ output written,
    SourceUnit.outputPath? (Path.join task.path name) task.outDir task.kind.suffix =
      some output ∧ prepared.writeText output "" = .ok written

/-- A run over the units with these names has left the disk `after`, and an exit code. -/
structure RunsEach (task : Task) (disk : Disk) (target : Place) (source : String → String)
    (names : List String) (after : Disk) (code : ExitCode) : Prop where
  written : ∀ name ∈ task.reached source names,
    after.node? (task.outputAt target name) = some (task.output (source name))
  distinct : ∀ first ∈ names, ∀ second ∈ names,
    task.outputAt target first = task.outputAt target second → first = second
  units : ∀ place name node, SourceUnit.hasExtension name = true →
    disk.node? (place ++ [name]) = some node → after.node? (place ++ [name]) = some node
  kept : ∀ place node, disk.node? place = some node →
    (∀ name ∈ task.reached source names, place ≠ task.outputAt target name) →
      after.node? place = some node
  added : ∀ place node, disk.node? place = none → after.node? place = some node →
    node = .directory ∨ ∃ name ∈ task.reached source names, place = task.outputAt target name
  code : code.toNat =
    if (task.reached source names).all fun name => task.succeeds (source name) then 0 else 1

variable {task : Task} {disk prepared : Disk} {place : Place} {source : String → String}
  {names : List String}

namespace Workable

theorem grows (h : task.Workable disk prepared place source) : disk.Grows prepared := by
  cases hout : task.outDir with
  | none =>
      rw [h.here hout]
      exact .refl disk
  | some directory =>
      obtain ⟨made, hmade, hgrows⟩ := Session.onlyMakes_makeDirectories directory disk.session
      rw [h.made directory hout] at hmade
      cases congrArg Session.disk hmade
      exact hgrows

theorem carryOut_collect (h : task.Workable disk prepared place source) {units : List String}
    (hunits : disk.session.carryOut (collectUnits task.path) = (.ok units, disk.session)) :
    disk.session.carryOut task.collect = (.ok units, prepared.session) := by
  rw [collect, Session.carryOut_bind_of_ok hunits]
  cases hout : task.outDir with
  | none =>
      rw [h.here hout]
      rfl
  | some directory =>
      have hmade : disk.session.carryOut (ExceptT.lift (makeDirectories directory)) =
          (.ok (.ok ()), prepared.session) := by
        rw [Session.carryOut_lift, h.made directory hout]
      simp only
      rw [Session.carryOut_bind_of_ok hmade]
      rfl

theorem home (h : task.Workable disk prepared place source) (hdisk : disk.WellFormed) :
    prepared.node? prepared.home = some .directory :=
  h.grows.keeps.home_directory hdisk.home

theorem leads (h : task.Workable disk prepared place source) (hdisk : disk.WellFormed) :
    prepared.Leads task.path place :=
  (Disk.Leads.of_resolve hdisk.home h.found h.directory).keep h.grows.keeps

theorem exists_placed (h : task.Workable disk prepared place source) (hdisk : disk.WellFormed)
    {name : String} (hname : disk.IsUnit place name) :
    ∃ target output, prepared.Leads (task.outDir.getD task.path) target ∧
      SourceUnit.outputPath? (Path.join task.path name) task.outDir task.kind.suffix =
        some output ∧
      prepared.newPlace output = .ok (task.outputAt target name) ∧
      prepared.node? (task.outputAt target name) ≠ some .directory ∧
      ∀ directory, task.outDir = some directory →
        byteLength directory.toList ≤ Disk.longestPath := by
  have hproper := hname.proper hdisk
  have houtputName := SourceUnit.proper_outputName task.kind hproper hname.1
  obtain ⟨output, written, houtput, hwritten⟩ := h.writable name hname
  obtain ⟨other, hother, hext, hjoin⟩ :=
    SourceUnit.exists_outputPath task.path task.outDir task.kind hproper hname.1
  cases houtput.symm.trans hother
  obtain ⟨made, hmade, hfree⟩ := Disk.exists_newPlace_of_writeText hwritten
  obtain ⟨target, htarget, hplace, hfits⟩ :=
    Disk.exists_leads_of_newPlace (h.home hdisk) hext houtputName hmade
  rw [String.ofList_toList] at hplace
  rw [hplace] at hmade hfree
  refine ⟨target, output, htarget, houtput, hmade, hfree, fun directory hout => ?_⟩
  apply Nat.le_trans (Path.byteLength_le_join directory houtputName)
  rw [← hjoin directory hout]
  exact hfits.1

theorem readText_prepared (h : task.Workable disk prepared place source)
    (hdisk : disk.WellFormed) {name : String} (hname : disk.IsUnit place name) :
    prepared.readText (Path.join task.path name) = .ok (source name) := by
  have hproper := hname.proper hdisk
  have hext := Path.extends_join task.path hproper
  have hleads := Disk.Leads.of_resolve hdisk.home h.found h.directory
  obtain ⟨hfits, hnode⟩ :=
    (hleads.readText_iff hdisk.home hext hproper).mp (h.readable name hname)
  exact ((h.leads hdisk).readText_iff (h.home hdisk) hext hproper).mpr
    ⟨hfits, h.grows.kept _ _ hnode⟩

theorem resolve_target (h : task.Workable disk prepared place source) (hdisk : disk.WellFormed)
    (hout : task.outDir ≠ some "") {target : Place}
    (htarget : prepared.Leads (task.outDir.getD task.path) target)
    (hlong : ∀ directory, task.outDir = some directory →
      byteLength directory.toList ≤ Disk.longestPath) :
    prepared.resolve (task.outDir.getD task.path) = .ok target := by
  cases hdirectory : task.outDir with
  | none =>
      rw [hdirectory, Option.getD_none] at htarget
      cases htarget.eq (h.leads hdisk)
      rw [h.here hdirectory]
      exact h.found
  | some directory =>
      rw [hdirectory] at htarget hout
      exact htarget.resolve (h.home hdisk) (fun hempty => hout (by rw [← hempty]; rfl))
        (hlong directory hdirectory)

/-- The outputs of all units belong in one directory, and the disk is prepared for them. -/
theorem exists_prepared (h : task.Workable disk prepared place source) (hdisk : disk.WellFormed)
    (hout : task.outDir ≠ some "") (hnames : disk.Lists place names) (hne : names ≠ []) :
    ∃ target, prepared.resolve (task.outDir.getD task.path) = .ok target ∧
      task.Prepared prepared place target source names := by
  have hunits : ∀ name ∈ names, disk.IsUnit place name := fun name => (hnames.mem_iff name).mp
  obtain ⟨first, hfirst⟩ := List.exists_mem_of_ne_nil names hne
  obtain ⟨target, _, htarget, _, _, _, hlong⟩ := h.exists_placed hdisk (hunits first hfirst)
  have hplaced : ∀ name ∈ names, ∃ output,
      SourceUnit.outputPath? (Path.join task.path name) task.outDir task.kind.suffix =
        some output ∧ prepared.newPlace output = .ok (task.outputAt target name) ∧
      prepared.node? (task.outputAt target name) ≠ some .directory := by
    intro name hname
    obtain ⟨other, output, hother, houtput, hnew, hfree, _⟩ :=
      h.exists_placed hdisk (hunits name hname)
    cases htarget.eq hother
    exact ⟨output, houtput, hnew, hfree⟩
  refine ⟨target, h.resolve_target hdisk hout htarget hlong, ?_⟩
  constructor
  case home => exact h.home hdisk
  case units => exact h.leads hdisk
  case outputs => exact htarget
  case proper => exact fun name hname => (hunits name hname).proper hdisk
  case isUnit => exact fun name hname => (hunits name hname).1
  case readable => exact fun name hname => h.readText_prepared hdisk (hunits name hname)
  case placed =>
    intro name hname
    obtain ⟨output, houtput, hnew, _⟩ := hplaced name hname
    exact ⟨output, houtput, hnew⟩
  case free =>
    intro name hname
    obtain ⟨_, _, _, hfree⟩ := hplaced name hname
    exact hfree

/-- The units are found before anything else is done, and without one nothing is. -/
theorem exists_lists (h : task.Workable disk prepared place source) (hdisk : disk.WellFormed) :
    ∃ names, disk.Lists place names ∧
      disk.session.carryOut (collectUnits task.path) =
        (if names = [] then .error (.noUnits task.path)
          else .ok (names.map (Path.join task.path)), disk.session) :=
  Disk.exists_lists hdisk h.found h.directory fun name hname => ⟨_, h.readable name hname⟩

end Workable

/-- What a disk has come to behind the units, told of the disk in front of the run. -/
theorem Stands.runsEach {target : Place} {after : Disk} {code : ExitCode}
    (h : task.Stands prepared target source (task.reached source names) after)
    (hprepared : task.Prepared prepared place target source names) (hgrows : disk.Grows prepared)
    (hcode : code.toNat =
      if (task.reached source names).all fun name => task.succeeds (source name) then 0 else 1) :
    task.RunsEach disk target source names after code := by
  have hreached := task.reached_subset source names
  have hkept : ∀ place node, disk.node? place = some node →
      (∀ name ∈ task.reached source names, place ≠ task.outputAt target name) →
        after.node? place = some node := by
    intro place node hnode hne
    rw [h.others place hne]
    exact hgrows.kept place node hnode
  constructor
  case written => exact h.written
  case distinct =>
    intro first hfirst second hsecond
    exact outputAt_inj (hprepared.proper first hfirst) (hprepared.proper second hsecond)
      (hprepared.isUnit first hfirst) (hprepared.isUnit second hsecond)
  case units =>
    intro place name node hunit hnode
    apply hkept _ node hnode
    intro other hother
    exact ne_outputAt hunit (hprepared.proper other (hreached hother))
      (hprepared.isUnit other (hreached hother))
  case kept => exact hkept
  case added =>
    intro place node hnone hnode
    by_cases hplace : ∃ name ∈ task.reached source names, place = task.outputAt target name
    · exact .inr hplace
    · rw [h.others place fun name hname hsame => hplace ⟨name, hname, hsame⟩] at hnode
      exact .inl (hgrows.added place node hnone hnode)
  case code => exact hcode

end Task

variable {task : Task} {options : Options} {disk prepared : Disk} {place : Place}
  {source : String → String}

/-- A directory without units is refused, and the disk is left as it is. -/
theorem Task.Workable.runOn_of_no_units (h : task.Workable disk prepared place source)
    (hdisk : disk.WellFormed) (htask : options.task = some task)
    (hnone : ∀ name, ¬disk.IsUnit place name) :
    (options.runOn disk).1 = .commandError ∧ (options.runOn disk).2.disk = disk := by
  obtain ⟨names, hnames, hcollect⟩ := h.exists_lists hdisk
  have hnil : names = [] := List.eq_nil_iff_forall_not_mem.mpr fun name hname =>
    hnone name ((hnames.mem_iff name).mp hname)
  rw [if_pos hnil] at hcollect
  have hrefused : disk.session.carryOut (runTask options.level task) =
      (.error (.noUnits task.path), disk.session) := by
    rw [runTask_eq, Task.collect]
    exact Session.carryOut_bind_of_error (Session.carryOut_bind_of_error hcollect _) _
  rw [Options.runOn_of_error htask hrefused]
  exact ⟨rfl, rfl⟩

/-- A directory with three units, the second of which has a string without an end. -/
def gameSource (name : String) : String :=
  if name = "Ball.jack" then "class Ball \"" else "class Main"

def gameDisk : Disk :=
  ⟨[(["game"], .directory), (["game", "Main.jack"], .file (gameSource "Main.jack")),
    (["game", "Ball.jack"], .file (gameSource "Ball.jack")),
    (["game", "Area.jack"], .file (gameSource "Area.jack"))], []⟩

def gameTask : Task := ⟨.tokens, "game", some "out", false⟩

theorem gameTask_workable :
    gameTask.Workable gameDisk (gameDisk.put ["out"] .directory) ["game"] gameSource := by
  have hnames : ∀ name, gameDisk.IsUnit ["game"] name →
      name ∈ ["Main.jack", "Ball.jack", "Area.jack"] := by
    intro name hname
    obtain ⟨node, hnode, _⟩ := hname.2
    have hmem := Disk.mem_names_iff.mpr (Option.isSome_of_eq_some hnode)
    exact hmem
  constructor
  case found => decide
  case directory => decide
  case readable =>
    intro name hname
    have hmem := hnames name hname
    simp only [List.mem_cons, List.not_mem_nil, or_false] at hmem
    rcases hmem with rfl | rfl | rfl <;> decide
  case here => exact fun h => by cases h
  case made =>
    rintro _ ⟨⟩
    exact Session.run_makeDirectories_of_made (by decide) (by decide)
  case writable =>
    intro name hname
    have hmem := hnames name hname
    simp only [List.mem_cons, List.not_mem_nil, or_false] at hmem
    rcases hmem with rfl | rfl | rfl <;> exact ⟨_, _, rfl, rfl⟩

/-- A directory with nothing in it. -/
def bareDisk : Disk := ⟨[(["game"], .directory)], []⟩

def bareTask : Task := ⟨.program, "game", none, false⟩

end JackLang
