import JackLang.Proofs.Command.Places
import JackLang.Proofs.Command.Units

/-! # What becomes of disks

A disk is well formed if its home is a directory and paths can lead to everything on it. It
stays so whatever is written or made. To make a directory for outputs puts new directories
on the disk, and changes nothing that is there.
-/

set_option autoImplicit false

namespace JackLang

namespace Disk

/-- The home is a directory, each place is given once, and paths can lead to all of them. -/
structure WellFormed (disk : Disk) : Prop where
  home : disk.node? disk.home = some .directory
  distinct : (disk.nodes.map (·.1)).Nodup
  proper : ∀ entry ∈ disk.nodes, ∀ name ∈ entry.1, Path.Proper name.toList

/-- Directories have been made where nothing was, and nothing else has happened. -/
structure Grows (before after : Disk) : Prop where
  home : after.home = before.home
  kept : ∀ place node, before.node? place = some node → after.node? place = some node
  added : ∀ place node, before.node? place = none → after.node? place = some node →
    node = .directory

namespace Grows

variable {first second third : Disk}

theorem refl (disk : Disk) : disk.Grows disk := by
  constructor
  · rfl
  · exact fun _ _ h => h
  · intro place node hnone hsome
    rw [hnone] at hsome
    cases hsome

theorem trans (h : first.Grows second) (hnext : second.Grows third) : first.Grows third := by
  constructor
  · exact hnext.home.trans h.home
  · exact fun place node hnode => hnext.kept place node (h.kept place node hnode)
  · intro place node hnone hnode
    cases hmiddle : second.node? place with
    | none => exact hnext.added place node hmiddle hnode
    | some made =>
        have hsame := hnext.kept place made hmiddle
        rw [hnode] at hsame
        cases hsame
        exact h.added place node hnone hmiddle

theorem keeps (h : first.Grows second) : first.Keeps second :=
  ⟨h.home, fun place => h.kept place .directory⟩

end Grows

variable {disk made : Disk} {place next : Place} {path : String}

theorem mem_places_iff (hplace : place ≠ []) :
    place ∈ disk.nodes.map (·.1) ↔ (disk.node? place).isSome = true := by
  rw [node?, if_neg hplace]
  induction disk.nodes with
  | nil => simp
  | cons entry rest ih =>
      rw [List.map_cons, List.mem_cons, List.lookup_cons]
      by_cases h : place = entry.1
      · simp [h]
      · rw [beq_false_of_ne h, ← ih]
        exact or_iff_right h

namespace WellFormed

variable (hdisk : disk.WellFormed)

include hdisk

theorem proper_place {node : Node} (h : disk.node? place = some node) :
    ∀ name ∈ place, Path.Proper name.toList := by
  by_cases hplace : place = []
  · rw [hplace]
    exact fun name hname => absurd hname List.not_mem_nil
  · obtain ⟨entry, hentry, rfl⟩ :=
      List.mem_map.mp ((mem_places_iff hplace).mpr (Option.isSome_of_eq_some h))
    exact hdisk.proper entry hentry

theorem proper_name {name : String} {node : Node}
    (h : disk.node? (place ++ [name]) = some node) : Path.Proper name.toList :=
  hdisk.proper_place h name (List.mem_append_right _ (List.mem_singleton_self name))

theorem proper_step (hplace : ∀ name ∈ place, Path.Proper name.toList) {part : List Char}
    (h : disk.step place part = .ok next) : ∀ name ∈ next, Path.Proper name.toList := by
  by_cases hdirectory : disk.node? place = some .directory
  · rw [Disk.step, if_pos hdirectory] at h
    split at h
    · cases h
      exact hplace
    · split at h
      · cases h
        exact fun name hname => hplace name (List.mem_of_mem_dropLast hname)
      · split at h
        · cases h
        · dsimp only at h
          split at h
          · rename_i hsome
            cases h
            obtain ⟨node, hnode⟩ := Option.isSome_iff_exists.mp hsome
            exact hdisk.proper_place hnode
          · cases h
  · rw [step_of_not_directory hdirectory] at h
    cases h

theorem proper_walk {ps : List (List Char)} (h : disk.walk path ps = .ok place) :
    ∀ name ∈ place, Path.Proper name.toList := by
  have hstart := hdisk.proper_place (directory_startOf hdisk.home path)
  rw [walk] at h
  split at h
  · cases h
  · generalize disk.startOf path = start at h hstart
    induction ps generalizing start with
    | nil =>
        cases h
        exact hstart
    | cons part rest ih =>
        rw [List.foldlM_cons] at h
        cases hstep : disk.step start part with
        | error error =>
            rw [hstep] at h
            cases h
        | ok next =>
            rw [hstep] at h
            exact ih next h (hdisk.proper_step hstart hstep)

theorem proper_newPlace (h : disk.newPlace path = .ok place) :
    ∀ name ∈ place, Path.Proper name.toList := by
  rw [newPlace] at h
  split at h
  · cases h
  · rename_i last before hparts
    split at h
    · rw [resolve] at h
      split at h
      · cases h
      · exact hdisk.proper_walk h
    · rename_i hlast
      rw [Bool.or_eq_true, not_or, Bool.not_eq_true, decide_eq_true_eq] at hlast
      have hmem : last ∈ Path.parts path.toList := by
        rw [← List.mem_reverse, hparts]
        exact List.mem_cons_self
      split at h
      · cases h
      · rename_i directory hdirectory
        split at h
        · split at h
          · cases h
          · cases h
            intro name hname
            rcases List.mem_append.mp hname with hbefore | hsame
            · exact hdisk.proper_walk hdirectory name hbefore
            · rw [List.mem_singleton.mp hsame, String.toList_ofList]
              exact ⟨hlast.1, hlast.2, Path.no_slash_of_mem_parts _ last hmem⟩
        · cases h

theorem put (hplace : ∀ name ∈ place, Path.Proper name.toList) {node : Node}
    (hfree : disk.node? place = some .directory → node = .directory) :
    (disk.put place node).WellFormed := by
  constructor
  · by_cases hhome : disk.home = place
    · rw [home_put, hhome, hfree (hhome ▸ hdisk.home)]
      by_cases hroot : place = []
      · rw [hroot]
        rfl
      · rw [node?_put hroot, if_pos rfl]
    · rw [home_put, node?_put_of_ne hhome]
      exact hdisk.home
  · rw [Disk.put, List.map_cons, List.nodup_cons]
    constructor
    · intro hmem
      obtain ⟨entry, hentry, hsame⟩ := List.mem_map.mp hmem
      exact of_decide_eq_true (List.mem_filter.mp hentry).2 hsame
    · exact hdisk.distinct.sublist (List.filter_sublist.map _)
  · intro entry hentry
    rcases List.mem_cons.mp hentry with rfl | hrest
    · exact hplace
    · exact hdisk.proper entry (List.mem_filter.mp hrest).1

theorem writeText {text : String} (h : disk.writeText path text = .ok made) :
    made.WellFormed := by
  rw [Disk.writeText] at h
  split at h
  · cases h
  · rename_i place hplace
    split at h
    · cases h
    · rename_i hfree
      cases h
      exact hdisk.put (hdisk.proper_newPlace hplace) fun hdirectory => absurd hdirectory hfree

theorem makeDirectory (h : disk.makeDirectory path = .ok made) : made.WellFormed := by
  rw [Disk.makeDirectory] at h
  split at h
  · cases h
  · rename_i place hplace
    split at h
    · cases h
    · cases h
      exact hdisk.put (hdisk.proper_newPlace hplace) fun _ => rfl

end WellFormed

theorem grows_of_makeDirectory
    (h : disk.makeDirectory path = .ok made) : disk.Grows made := by
  rw [Disk.makeDirectory] at h
  split at h
  · cases h
  · rename_i place _
    split at h
    · cases h
    · rename_i hnone
      cases h
      rw [Option.not_isSome_iff_eq_none] at hnone
      have hplace : place ≠ [] := by
        rintro rfl
        cases hnone
      constructor
      · rfl
      · intro other node hnode
        rw [Disk.node?_put hplace, if_neg, hnode]
        rintro rfl
        rw [hnone] at hnode
        cases hnode
      · intro other node hother hnode
        rw [Disk.node?_put hplace] at hnode
        split at hnode
        · cases hnode
          rfl
        · rw [hother] at hnode
          cases hnode

end Disk

namespace Session

/-- Whatever comes of the action, all that it does is to make directories. -/
def OnlyMakes {α : Type} (action : StateM Session α) : Prop :=
  ∀ session : Session, ∃ disk, (action.run session).2 = { session with disk } ∧
    session.disk.Grows disk

section Makes

variable {α β : Type}

theorem onlyMakes_pure (value : α) : OnlyMakes (pure value) :=
  fun session => ⟨session.disk, rfl, .refl _⟩

theorem onlyMakes_bind {action : StateM Session α} {next : α → StateM Session β}
    (h : OnlyMakes action) (hnext : ∀ value, OnlyMakes (next value)) :
    OnlyMakes (action >>= next) := by
  intro session
  obtain ⟨made, hmade, hgrows⟩ := h session
  obtain ⟨last, hlast, hmore⟩ := hnext (action.run session).1 { session with disk := made }
  refine ⟨last, ?_, hgrows.trans hmore⟩
  rw [StateT.run_bind]
  change ((next (action.run session).1).run (action.run session).2).2 = _
  rw [hmade, hlast]

theorem onlyMakes_isDirectory (path : String) :
    OnlyMakes (Host.isDirectory path : StateM Session Bool) :=
  fun session => ⟨session.disk, rfl, .refl _⟩

theorem onlyMakes_change {action : Disk → Except HostError Disk}
    (h : ∀ disk made, action disk = .ok made → disk.Grows made) : OnlyMakes (change action) := by
  intro session
  change ∃ disk, (change action session).2 = _ ∧ _
  rw [change]
  cases hmade : action session.disk with
  | error error => exact ⟨session.disk, rfl, .refl _⟩
  | ok made => exact ⟨made, rfl, h _ _ hmade⟩

theorem onlyMakes_makeDirectory (path : String) :
    OnlyMakes (Host.makeDirectory path : StateM Session (Except HostError Unit)) :=
  onlyMakes_change fun _ _ => Disk.grows_of_makeDirectory

theorem run_makeDirectories_of_made {disk made : Disk} {path : String} (hpath : path ≠ "")
    (h : disk.makeDirectory path = .ok made) :
    (makeDirectories path : StateM Session (Except HostError Unit)).run disk.session =
      (.ok (), made.session) := by
  have hmake : (Host.makeDirectory path : StateM Session (Except HostError Unit)).run
      disk.session = (.ok (), made.session) := run_change h
  rw [makeDirectories, if_neg hpath, StateT.run_bind, hmake]
  rfl

theorem onlyMakes_makeDirectories (path : String) :
    OnlyMakes (makeDirectories path : StateM Session (Except HostError Unit)) := by
  unfold makeDirectories
  have hasks : ∀ error, OnlyMakes (do
      return if ← Host.isDirectory path then .ok () else .error error :
        StateM Session (Except HostError Unit)) :=
    fun error => onlyMakes_bind (onlyMakes_isDirectory path) fun _ => onlyMakes_pure _
  split
  · exact onlyMakes_pure _
  · refine onlyMakes_bind (onlyMakes_makeDirectory path) fun answer => ?_
    split
    · exact onlyMakes_pure _
    · -- nothing has been made so far: the parent comes first, and then the directory again
      split
      · exact onlyMakes_pure _
      · rename_i parent hparent
        refine onlyMakes_bind (onlyMakes_makeDirectories parent) fun answer => ?_
        split
        · exact onlyMakes_pure _
        · refine onlyMakes_bind (onlyMakes_makeDirectory path) fun answer => ?_
          split
          · exact onlyMakes_pure _
          · exact hasks _
    · exact hasks _
termination_by path.toList.length
decreasing_by exact Path.length_parent? ‹_›

end Makes

end Session

end JackLang
