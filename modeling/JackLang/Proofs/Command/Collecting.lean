import JackLang.Proofs.Command.Disks
import Mathlib.Data.List.Nodup

/-! # The units of a directory

The entries of a directory come in any order. The command takes the files among them that
have the extension of units, in the order of their names.
-/

set_option autoImplicit false

namespace JackLang

namespace Disk

/-- The directory at the place has a file of this name, with the extension of units. -/
def IsUnit (disk : Disk) (place : Place) (name : String) : Prop :=
  SourceUnit.hasExtension name = true ∧
    ∃ node, disk.node? (place ++ [name]) = some node ∧ node ≠ .directory

/-- The names are those of the units in the directory, in their order. -/
structure Lists (disk : Disk) (place : Place) (names : List String) : Prop where
  sorted : names.Pairwise (· < ·)
  mem_iff : ∀ name, name ∈ names ↔ disk.IsUnit place name

section Entries

variable {disk : Disk} {place : Place} {name path : String}

/-- The name of a place, if it lies in the directory. -/
def nameIn? (directory place : Place) : Option String :=
  if place.dropLast = directory then place.getLast? else none

theorem nameIn?_eq_some_iff {directory : Place} :
    nameIn? directory place = some name ↔ place = directory ++ [name] := by
  rw [nameIn?]
  constructor
  · intro h
    split at h
    · rename_i hdirectory
      rw [← hdirectory, List.dropLast_append_getLast? name h]
    · cases h
  · rintro rfl
    rw [if_pos List.dropLast_concat, List.getLast?_concat]

theorem entries_eq (hfound : disk.resolve path = .ok place)
    (hplace : disk.node? place = some .directory) :
    disk.entries path = .ok ((disk.nodes.map (·.1)).filterMap (nameIn? place)) := by
  rw [entries, hfound]
  simp only [hplace, if_true, List.filterMap_map]
  rfl

theorem mem_names_iff :
    name ∈ (disk.nodes.map (·.1)).filterMap (nameIn? place) ↔
      (disk.node? (place ++ [name])).isSome = true := by
  rw [← mem_places_iff (by simp), List.mem_filterMap]
  simp only [nameIn?_eq_some_iff, exists_eq_right]

theorem WellFormed.nodup_names (hdisk : disk.WellFormed) (place : Place) :
    ((disk.nodes.map (·.1)).filterMap (nameIn? place)).Nodup := by
  apply hdisk.distinct.filterMap
  intro first second name hfirst hsecond
  rw [nameIn?_eq_some_iff.mp hfirst, nameIn?_eq_some_iff.mp hsecond]

theorem pairwise_lt_mergeSort {names : List String} (h : names.Nodup) :
    (names.mergeSort fun a b => a ≤ b).Pairwise (· < ·) := by
  have hle : (names.mergeSort fun a b => a ≤ b).Pairwise fun a b => decide (a ≤ b) = true := by
    apply List.pairwise_mergeSort
    · intro a b c hab hbc
      exact decide_eq_true (String.le_trans (of_decide_eq_true hab) (of_decide_eq_true hbc))
    · intro a b
      simpa using String.le_total a b
  have hnodup := (List.mergeSort_perm names fun a b => a ≤ b).nodup_iff.mpr h
  refine (hle.and hnodup).imp fun ⟨hab, hne⟩ => ?_
  rw [← String.not_le]
  exact fun hba => hne (String.le_antisymm (of_decide_eq_true hab) hba)

/-- Whether there is a file at the end of a path. -/
def hasFile (disk : Disk) (path : String) : Bool :=
  (disk.nodeAt? path).any fun node => node ≠ .directory

end Entries

end Disk

namespace Session

variable {session : Session}

theorem run_isFile (session : Session) (path : String) :
    (Host.isFile path : StateM Session Bool).run session =
      (session.disk.hasFile path, session) := by
  simp only [Host.isFile, StateT.run_bind, StateT.run_get, pure_bind, Disk.hasFile]
  rcases session.disk.nodeAt? path with _ | _ | _ | _ <;> rfl

theorem carryOut_isUnit (session : Session) (path : String) :
    session.carryOut (isUnit path) =
      (.ok (SourceUnit.hasExtension path && session.disk.hasFile path), session) := by
  rw [isUnit]
  cases SourceUnit.hasExtension path with
  | false => rfl
  | true => rw [if_pos rfl, carryOut_lift, run_isFile, Bool.true_and]

theorem carryOut_filterM {α : Type} {test : α → CommandM (StateM Session) Bool}
    {holds : α → Bool} (h : ∀ value, session.carryOut (test value) = (.ok (holds value), session))
    (values : List α) :
    session.carryOut (values.filterM test) = (.ok (values.filter holds), session) := by
  have hauxiliary : ∀ found : List α, session.carryOut (values.filterAuxM test found) =
      (.ok ((values.filter holds).reverse ++ found), session) := by
    induction values with
    | nil => exact fun _ => rfl
    | cons value rest ih =>
        intro found
        rw [List.filterAuxM, carryOut_bind_of_ok (h value), ih, List.filter_cons]
        cases holds value <;> simp
  rw [List.filterM, carryOut_bind_of_ok (hauxiliary []), List.append_nil]
  change (Except.ok _, session) = _
  rw [List.reverse_reverse]

/-- What is asked of a directory comes to the units among its entries. -/
theorem carryOut_collectUnits {path : String} {names : List String}
    (hdirectory : session.disk.nodeAt? path = some .directory)
    (hnames : session.disk.entries path = .ok names) {units : List String}
    (hunits : ((names.mergeSort fun a b => a ≤ b).map (Path.join path)).filter
      (fun unit => SourceUnit.hasExtension unit && session.disk.hasFile unit) = units) :
    session.carryOut (collectUnits path) =
      (if units = [] then .error (.noUnits path) else .ok units, session) := by
  have hasks : session.carryOut (ExceptT.lift (Host.isDirectory path)) = (.ok true, session) := by
    change (Except.ok (decide (session.disk.nodeAt? path = some .directory)), session) = _
    rw [hdirectory]
    rfl
  have hgives : session.carryOut (ExceptT.lift (Host.entries path)) =
      (.ok (.ok names), session) := by
    rw [← hnames]
    rfl
  rw [collectUnits, carryOut_bind_of_ok hasks, if_pos rfl, carryOut_bind_of_ok hgives,
    carryOut_bind_of_ok (carryOut_orFail _ _ _),
    carryOut_bind_of_ok (carryOut_filterM (session.carryOut_isUnit ·) _), hunits]
  cases units <;> rfl

end Session

namespace Disk

variable {disk : Disk} {place : Place} {path : String}

theorem IsUnit.proper {name : String} (h : disk.IsUnit place name) (hdisk : disk.WellFormed) :
    Path.Proper name.toList := by
  obtain ⟨node, hnode, _⟩ := h.2
  exact hdisk.proper_name hnode

/-- What the command asks of a name in the directory tells units from the rest, as long as the
paths of units are not too long to be read. -/
theorem Leads.isUnit_iff (hleads : disk.Leads path place) (hdisk : disk.WellFormed)
    {name : String} (hname : Path.Proper name.toList)
    (hreadable : disk.IsUnit place name →
      ∃ text, disk.readText (Path.join path name) = .ok text) :
    (SourceUnit.hasExtension (Path.join path name) && disk.hasFile (Path.join path name)) = true ↔
      disk.IsUnit place name := by
  have hext := Path.extends_join path hname
  rw [Bool.and_eq_true, SourceUnit.hasExtension_join path hname, hasFile,
    hleads.nodeAt?_eq hdisk.home hext hname, String.ofList_toList]
  constructor
  · rintro ⟨hextension, hfile⟩
    refine ⟨hextension, ?_⟩
    split at hfile
    · obtain ⟨node, hnode, hne⟩ := (Option.any_eq_true _ _).mp hfile
      exact ⟨node, hnode, of_decide_eq_true hne⟩
    · cases hfile
  · intro hunit
    obtain ⟨text, htext⟩ := hreadable hunit
    obtain ⟨node, hnode, hne⟩ := hunit.2
    refine ⟨hunit.1, ?_⟩
    rw [if_pos ((hleads.readText_iff hdisk.home hext hname).mp htext).1, hnode]
    exact decide_eq_true hne

/-- The units that the command finds in a directory are those of the directory, if all of
them can be read. -/
theorem exists_lists (hdisk : disk.WellFormed) (hfound : disk.resolve path = .ok place)
    (hplace : disk.node? place = some .directory)
    (hreadable : ∀ name, disk.IsUnit place name →
      ∃ text, disk.readText (Path.join path name) = .ok text) :
    ∃ names, disk.Lists place names ∧
      disk.session.carryOut (collectUnits path) =
        (if names = [] then .error (.noUnits path) else .ok (names.map (Path.join path)),
          disk.session) := by
  have hleads := Leads.of_resolve hdisk.home hfound hplace
  let entries := (disk.nodes.map (·.1)).filterMap (nameIn? place)
  let sorted := entries.mergeSort fun a b => a ≤ b
  have hmem : ∀ name, name ∈ sorted ↔ (disk.node? (place ++ [name])).isSome = true := fun name =>
    List.mem_mergeSort.trans mem_names_iff
  have hsorted : sorted.Pairwise (· < ·) := pairwise_lt_mergeSort (hdisk.nodup_names place)
  refine ⟨sorted.filter fun name => SourceUnit.hasExtension (Path.join path name) &&
    disk.hasFile (Path.join path name), ⟨hsorted.filter _, fun name => ?_⟩, ?_⟩
  · rw [List.mem_filter, hmem]
    constructor
    · rintro ⟨hname, hasked⟩
      obtain ⟨node, hnode⟩ := Option.isSome_iff_exists.mp hname
      exact (hleads.isUnit_iff hdisk (hdisk.proper_name hnode) (hreadable name)).mp hasked
    · intro hunit
      obtain ⟨node, hnode, _⟩ := hunit.2
      exact ⟨Option.isSome_of_eq_some hnode,
        (hleads.isUnit_iff hdisk (hdisk.proper_name hnode) (hreadable name)).mpr hunit⟩
  · have hnode : disk.session.disk.nodeAt? path = some .directory := by
      change disk.nodeAt? path = _
      rw [nodeAt?, hfound]
      exact hplace
    rw [Session.carryOut_collectUnits hnode (disk.entries_eq hfound hplace) (List.filter_map ..)]
    simp only [List.map_eq_nil_iff]
    rfl

end Disk

end JackLang
