import JackLang.Proofs.Command.Collecting

/-! # Runs over units

A unit is run on the disk as those in front of it have left it. Outputs are no units, and
each has a place of its own that is not a directory. So a unit is read as if it were the
only one, and there is room for its output whatever has been written before.
-/

set_option autoImplicit false

namespace JackLang.Task

open SourceUnit (outputName)

/-- The source comes to an output without an error. -/
def succeeds (task : Task) (source : String) : Bool :=
  (task.kind.write source .unlimited).error.isNone

/-- The units that are run: all of them if the task is to go on, and otherwise those up to
the first that fails. -/
def reached (task : Task) (source : String → String) (names : List String) : List String :=
  if task.keepGoing then names
  else
    names.takeWhile (fun name => task.succeeds (source name)) ++
      (names.dropWhile fun name => task.succeeds (source name)).take 1

/-- The place of the output of a unit. -/
def outputAt (task : Task) (target : Place) (name : String) : Place :=
  target ++ [outputName task.kind.suffix name]

/-- The file that a source is turned into. -/
def output (task : Task) (source : String) : Node :=
  .file (task.kind.write source .unlimited).text

variable {task : Task} {source : String → String} {names done : List String}
  {prepared disk : Disk} {place target : Place} {name : String}

section Reached

@[simp] theorem reached_nil (task : Task) (source : String → String) :
    task.reached source [] = [] := by
  simp [reached]

theorem reached_cons (task : Task) (source : String → String) (name : String)
    (rest : List String) :
    task.reached source (name :: rest) =
      name :: if task.succeeds (source name) || task.keepGoing then task.reached source rest
        else [] := by
  rw [reached, reached]
  cases hgoes : task.keepGoing with
  | true => simp
  | false => cases hname : task.succeeds (source name) <;> simp [hname]

theorem reached_subset (task : Task) (source : String → String) (names : List String) :
    task.reached source names ⊆ names := by
  induction names with
  | nil => simp
  | cons name rest ih =>
      rw [reached_cons]
      apply List.cons_subset_cons
      split
      · exact ih
      · exact List.nil_subset rest

end Reached

/-- The disk has all that the task needs to run the units with these names: they lie at the
place, and there is room for their outputs in the target. -/
structure Prepared (task : Task) (disk : Disk) (place target : Place)
    (source : String → String) (names : List String) : Prop where
  home : disk.node? disk.home = some .directory
  units : disk.Leads task.path place
  outputs : disk.Leads (task.outDir.getD task.path) target
  proper : ∀ name ∈ names, Path.Proper name.toList
  isUnit : ∀ name ∈ names, SourceUnit.hasExtension name = true
  readable : ∀ name ∈ names, disk.readText (Path.join task.path name) = .ok (source name)
  placed : ∀ name ∈ names, ∃ output,
    SourceUnit.outputPath? (Path.join task.path name) task.outDir task.kind.suffix =
      some output ∧ disk.newPlace output = .ok (task.outputAt target name)
  free : ∀ name ∈ names, disk.node? (task.outputAt target name) ≠ some .directory

/-- The disk as the units with these names leave it: it holds their outputs, and is otherwise
as it has been prepared. -/
structure Stands (task : Task) (prepared : Disk) (target : Place) (source : String → String)
    (done : List String) (disk : Disk) : Prop where
  home : disk.home = prepared.home
  written : ∀ name ∈ done, disk.node? (task.outputAt target name) = some (task.output (source name))
  others : ∀ place, (∀ name ∈ done, place ≠ task.outputAt target name) →
    disk.node? place = prepared.node? place

theorem outputAt_ne_nil (task : Task) (target : Place) (name : String) :
    task.outputAt target name ≠ [] := by
  simp [outputAt]

theorem outputAt_inj {other : String} (hname : Path.Proper name.toList)
    (hother : Path.Proper other.toList) (hunit : SourceUnit.hasExtension name = true)
    (hjack : SourceUnit.hasExtension other = true)
    (h : task.outputAt target name = task.outputAt target other) : name = other :=
  SourceUnit.outputName_inj hname hother hunit hjack
    (List.singleton_inj.mp (List.append_cancel_left h))

/-- No unit, wherever it is, lies where an output goes. -/
theorem ne_outputAt {unit : String} (hunit : SourceUnit.hasExtension unit = true)
    (hname : Path.Proper name.toList) (hjack : SourceUnit.hasExtension name = true) :
    place ++ [unit] ≠ task.outputAt target name := by
  intro h
  have hsame : unit = outputName task.kind.suffix name :=
    List.singleton_inj.mp (List.append_inj_right' h rfl)
  rw [hsame, SourceUnit.hasExtension_outputName task.kind hname hjack] at hunit
  cases hunit

namespace Stands

theorem nil (task : Task) (prepared : Disk) (target : Place) (source : String → String) :
    task.Stands prepared target source [] prepared := by
  constructor
  · rfl
  · intro name hname
    cases hname
  · exact fun _ _ => rfl

/-- An output is put at its place, and not instead of that of another unit. -/
theorem put (h : task.Stands prepared target source done disk)
    (hinj : ∀ other ∈ done, task.outputAt target other = task.outputAt target name →
      other = name) :
    task.Stands prepared target source (done ++ [name])
      (disk.put (task.outputAt target name) (task.output (source name))) := by
  constructor
  · exact h.home
  · intro other hother
    rw [Disk.node?_put (outputAt_ne_nil task target name)]
    split
    · rename_i hsame
      rcases List.mem_append.mp hother with hdone | hlast
      · rw [hinj other hdone hsame]
      · rw [List.mem_singleton.mp hlast]
    · rename_i hne
      rcases List.mem_append.mp hother with hdone | hlast
      · exact h.written other hdone
      · exact absurd (by rw [List.mem_singleton.mp hlast]) hne
  · intro other hother
    rw [Disk.node?_put (outputAt_ne_nil task target name),
      if_neg (hother name (List.mem_append_right _ (List.mem_singleton_self name)))]
    exact h.others other fun unit hunit => hother unit (List.mem_append_left _ hunit)

theorem keeps (h : task.Stands prepared target source done disk)
    (hfree : ∀ name ∈ done, prepared.node? (task.outputAt target name) ≠ some .directory) :
    prepared.Keeps disk := by
  refine ⟨h.home, fun place hplace => ?_⟩
  rw [h.others place]
  · exact hplace
  · rintro name hname rfl
    exact hfree name hname hplace

theorem not_directory (h : task.Stands prepared target source done disk)
    (hfree : prepared.node? (task.outputAt target name) ≠ some .directory) :
    disk.node? (task.outputAt target name) ≠ some .directory := by
  by_cases hdone : ∃ other ∈ done, task.outputAt target name = task.outputAt target other
  · obtain ⟨other, hother, hsame⟩ := hdone
    rw [hsame, h.written other hother, output]
    simp
  · rw [h.others _ fun other hother hsame => hdone ⟨other, hother, hsame⟩]
    exact hfree

end Stands

section Runs

variable (h : task.Prepared prepared place target source names)
  (hdone : done ⊆ names) (hname : name ∈ names)

include h hdone hname

theorem Prepared.readText (hstands : task.Stands prepared target source done disk) :
    disk.readText (Path.join task.path name) = .ok (source name) := by
  have hkeeps := hstands.keeps fun other hother => h.free other (hdone hother)
  have hhome := hkeeps.home_directory h.home
  have hext := Path.extends_join task.path (h.proper name hname)
  obtain ⟨hfits, hnode⟩ :=
    (h.units.readText_iff h.home hext (h.proper name hname)).mp (h.readable name hname)
  apply ((h.units.keep hkeeps).readText_iff hhome hext (h.proper name hname)).mpr
  refine ⟨hfits, ?_⟩
  rw [String.ofList_toList] at hnode ⊢
  rw [hstands.others _ fun other hother => ne_outputAt (h.isUnit name hname)
    (h.proper other (hdone hother)) (h.isUnit other (hdone hother))]
  exact hnode

theorem Prepared.writeText (hstands : task.Stands prepared target source done disk) :
    ∃ output, SourceUnit.outputPath? (Path.join task.path name) task.outDir task.kind.suffix =
        some output ∧
      ∀ text, disk.writeText output text =
        .ok (disk.put (task.outputAt target name) (.file text)) := by
  have hkeeps := hstands.keeps fun other hother => h.free other (hdone hother)
  have hhome := hkeeps.home_directory h.home
  have hproper := SourceUnit.proper_outputName task.kind (h.proper name hname) (h.isUnit name hname)
  obtain ⟨output, houtput, hplaced⟩ := h.placed name hname
  obtain ⟨other, hother, hext, _⟩ := SourceUnit.exists_outputPath task.path task.outDir task.kind
    (h.proper name hname) (h.isUnit name hname)
  cases houtput.symm.trans hother
  obtain ⟨_, _, _, hfits⟩ := Disk.exists_leads_of_newPlace h.home hext hproper hplaced
  have hnew := (h.outputs.keep hkeeps).newPlace hhome hext hproper hfits
  rw [String.ofList_toList] at hnew
  refine ⟨output, houtput, fun text => ?_⟩
  rw [Disk.writeText, hnew]
  exact if_neg (hstands.not_directory (h.free name hname))

/-- Whatever units have been run, a further one is run as if it were alone. -/
theorem Prepared.carryOut_runUnit (level : LogLevel) (table : FileTable) {session : Session}
    (hstands : task.Stands prepared target source done session.disk) :
    ∃ stored behind,
      session.carryOut (runUnit level task table (Path.join task.path name)) =
        (.ok (stored, task.succeeds (source name)), behind) ∧
      task.Stands prepared target source (done ++ [name]) behind.disk := by
  obtain ⟨output, houtput, hwrites⟩ := h.writeText hdone hname hstands
  obtain ⟨stored, behind, hrun, hdisk, _⟩ := JackLang.carryOut_runUnit level table
    (h.readText hdone hname hstands) houtput (hwrites _)
  refine ⟨stored, behind, hrun, ?_⟩
  rw [hdisk]
  exact hstands.put fun other hother => outputAt_inj (h.proper other (hdone hother))
    (h.proper name hname) (h.isUnit other (hdone hother)) (h.isUnit name hname)

end Runs

/-- The run over units leaves the outputs of those that it comes to, and succeeds if all of
them do. -/
theorem Prepared.carryOut_runUnits (h : task.Prepared prepared place target source names)
    (level : LogLevel) {rest : List String} (hdone : done ⊆ names) (hrest : rest ⊆ names)
    (table : FileTable) {session : Session}
    (hstands : task.Stands prepared target source done session.disk) :
    ∃ behind,
      session.carryOut (runUnits level task table (rest.map (Path.join task.path))) =
        (.ok ((task.reached source rest).all fun name => task.succeeds (source name)), behind) ∧
      task.Stands prepared target source (done ++ task.reached source rest) behind.disk := by
  -- the disk is told of all units that have been run, so `done` grows with each of them
  induction rest generalizing done table session with
  | nil =>
      rw [reached_nil, List.append_nil]
      exact ⟨session, rfl, hstands⟩
  | cons name rest ih =>
      obtain ⟨hname, hmore⟩ := List.cons_subset.mp hrest
      obtain ⟨stored, next, hunit, hnext⟩ := h.carryOut_runUnit hdone hname level table hstands
      have hreached : done ++ [name] ⊆ names :=
        List.append_subset.mpr ⟨hdone, List.cons_subset.mpr ⟨hname, List.nil_subset names⟩⟩
      obtain ⟨behind, hrun, hbehind⟩ := ih hreached hmore stored hnext
      rw [List.append_assoc, List.singleton_append] at hbehind
      rw [reached_cons, List.all_cons, List.map_cons]
      cases hsucceeds : task.succeeds (source name) with
      | true =>
          rw [hsucceeds] at hunit
          refine ⟨behind, ?_, hbehind⟩
          rw [runUnits, Session.carryOut_bind_of_ok hunit]
          exact hrun
      | false =>
          rw [hsucceeds] at hunit
          rw [carryOut_runUnits_of_failed hunit, Bool.false_or, Bool.false_and]
          cases hgoes : task.keepGoing with
          | true =>
              rw [if_pos rfl, if_pos rfl, hrun]
              exact ⟨behind, rfl, hbehind⟩
          | false =>
              rw [if_neg Bool.false_ne_true, if_neg Bool.false_ne_true]
              exact ⟨next, rfl, hnext⟩

end JackLang.Task
