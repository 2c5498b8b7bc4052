import JackLang.Command.Disk
import JackLang.Proofs.Command.Paths

/-! # Places on a disk

A path that leads to a directory goes through directories only, so parts that lead nowhere
make no difference on the way. What a name in this directory stands for is known from its
place, for all paths that are not too long.
-/

set_option autoImplicit false

open JackLang.Path (Proper Extends going isIdle)

namespace JackLang.Disk

variable {disk : Disk} {place start : Place}

section Walks

theorem step_of_not_directory (h : disk.node? place ≠ some .directory) (part : List Char) :
    disk.step place part = .error .notADirectory := by
  rw [step, if_neg h]

theorem step_of_idle (h : disk.node? place = some .directory) {part : List Char}
    (hidle : isIdle part = true) : disk.step place part = .ok place := by
  rw [step, if_pos h, if_pos hidle]

theorem step_of_proper (h : disk.node? place = some .directory) {name : List Char}
    (hname : Proper name) :
    disk.step place name =
      if isTooLong name then .error .nameTooLong
      else if (disk.node? (place ++ [String.ofList name])).isSome then
        .ok (place ++ [String.ofList name])
      else .error .notFound := by
  rw [step, if_pos h, if_neg (by rw [hname.goes]; decide), if_neg hname.ne_up]

theorem not_directory_of_foldlM {ps : List (List Char)}
    (h : disk.node? start ≠ some .directory) (hwalk : ps.foldlM disk.step start = .ok place) :
    disk.node? place ≠ some .directory := by
  cases ps with
  | nil =>
      cases hwalk
      exact h
  | cons part rest =>
      rw [List.foldlM_cons, step_of_not_directory h] at hwalk
      cases hwalk

/-- On the way to a directory, idle parts are passed over. -/
theorem foldlM_going {ps : List (List Char)} (h : disk.node? start = some .directory)
    (hplace : disk.node? place = some .directory) :
    (going ps).foldlM disk.step start = .ok place ↔ ps.foldlM disk.step start = .ok place := by
  induction ps generalizing start with
  | nil => exact Iff.rfl
  | cons part rest ih =>
      cases hpart : isIdle part with
      | true =>
          rw [Path.going_cons_of_idle hpart, List.foldlM_cons, step_of_idle h hpart]
          exact ih h
      | false =>
          rw [Path.going_cons_of_goes hpart, List.foldlM_cons, List.foldlM_cons]
          cases hstep : disk.step start part with
          | error error => exact Iff.rfl
          | ok next =>
              by_cases hnext : disk.node? next = some .directory
              · exact ih hnext
              · constructor <;> intro hwalk <;>
                  exact absurd hplace (not_directory_of_foldlM hnext hwalk)

end Walks

/-- The path leads to the directory at the place. -/
structure Leads (disk : Disk) (path : String) (place : Place) : Prop where
  walk : (going (Path.parts path.toList)).foldlM disk.step (disk.startOf path) = .ok place
  directory : disk.node? place = some .directory

/-- Neither the path nor the name that it ends in is too long. -/
def Fits (whole : String) (name : List Char) : Prop :=
  byteLength whole.toList ≤ longestPath ∧ isTooLong name = false

instance (whole : String) (name : List Char) : Decidable (Fits whole name) :=
  inferInstanceAs (Decidable (_ ∧ _))

section Leads

variable {path whole : String} {name : List Char}

theorem startOf_eq (hext : Extends path name whole) : disk.startOf whole = disk.startOf path := by
  simp only [startOf, hext.rooted]

theorem directory_startOf (hhome : disk.node? disk.home = some .directory) (path : String) :
    disk.node? (disk.startOf path) = some .directory := by
  rw [startOf]
  split
  · rfl
  · exact hhome

theorem leads_iff (hhome : disk.node? disk.home = some .directory) :
    disk.Leads path place ↔
      (Path.parts path.toList).foldlM disk.step (disk.startOf path) = .ok place ∧
        disk.node? place = some .directory := by
  constructor
  · rintro ⟨hwalk, hplace⟩
    exact ⟨(foldlM_going (directory_startOf hhome path) hplace).mp hwalk, hplace⟩
  · rintro ⟨hwalk, hplace⟩
    exact ⟨(foldlM_going (directory_startOf hhome path) hplace).mpr hwalk, hplace⟩

theorem Leads.of_resolve (hhome : disk.node? disk.home = some .directory)
    (h : disk.resolve path = .ok place) (hplace : disk.node? place = some .directory) :
    disk.Leads path place := by
  rw [Disk.resolve, Disk.walk] at h
  split at h
  · cases h
  · split at h
    · cases h
    · exact (leads_iff hhome).mpr ⟨h, hplace⟩

theorem Leads.eq {other : Place} (h : disk.Leads path place) (hother : disk.Leads path other) :
    place = other := by
  cases h.walk.symm.trans hother.walk
  rfl

theorem Leads.resolve (hhome : disk.node? disk.home = some .directory)
    (h : disk.Leads path place) (hne : path ≠ "") (hfits : byteLength path.toList ≤ longestPath) :
    disk.resolve path = .ok place := by
  rw [Disk.resolve, if_neg hne, Disk.walk, if_neg (Nat.not_lt.mpr hfits)]
  exact ((leads_iff hhome).mp h).1

/-- The walk along the parts in front of the name that a path ends in. -/
theorem Leads.walk_before (hhome : disk.node? disk.home = some .directory)
    (h : disk.Leads path place) (hext : Extends path name whole) {before : List (List Char)}
    (hends : Path.parts whole.toList = before ++ [name]) :
    before.foldlM disk.step (disk.startOf whole) = .ok place := by
  obtain ⟨others, hothers, hgoing⟩ := hext.ends
  obtain rfl : before = others := List.append_inj_left' (hends.symm.trans hothers) rfl
  rw [← foldlM_going (directory_startOf hhome whole) h.directory, hgoing, startOf_eq hext]
  exact h.walk

theorem Leads.resolve_name (hhome : disk.node? disk.home = some .directory)
    (h : disk.Leads path place) (hext : Extends path name whole) (hname : Proper name) :
    disk.resolve whole =
      if Fits whole name then
        if (disk.node? (place ++ [String.ofList name])).isSome then
          .ok (place ++ [String.ofList name])
        else .error .notFound
      else .error .nameTooLong := by
  obtain ⟨before, hends, _⟩ := hext.ends
  have hstep := step_of_proper h.directory hname
  have hwalk : (before ++ [name]).foldlM disk.step (disk.startOf whole) =
      disk.step place name := by
    rw [List.foldlM_append, h.walk_before hhome hext hends]
    change [name].foldlM disk.step place = _
    rw [List.foldlM_cons]
    exact bind_pure _
  rw [Disk.resolve, if_neg (hext.ne_empty hname), Disk.walk, hends, hwalk, hstep]
  by_cases hfits : Fits whole name
  · simp only [if_pos hfits, if_neg (Nat.not_lt.mpr hfits.1), hfits.2, Bool.false_eq_true,
      if_false]
  · rw [if_neg hfits]
    by_cases hlong : longestPath < byteLength whole.toList
    · rw [if_pos hlong]
    · rw [if_neg hlong, if_pos]
      rw [← Bool.not_eq_false]
      exact fun hname' => hfits ⟨Nat.le_of_not_lt hlong, hname'⟩

theorem newPlace_eq {before : List (List Char)}
    (hends : Path.parts whole.toList = before ++ [name]) (hname : Proper name) :
    disk.newPlace whole = (disk.walk whole before).bind fun directory =>
      if disk.node? directory = some .directory then
        if isTooLong name then .error .nameTooLong
        else .ok (directory ++ [String.ofList name])
      else .error .notADirectory := by
  rw [Disk.newPlace, hends, List.reverse_append, List.reverse_singleton, List.singleton_append]
  have hproper : ¬(Path.isIdle name || name = ['.', '.']) = true := by
    simp [hname.goes, hname.ne_up]
  simp only [if_neg hproper, List.reverse_reverse]
  cases disk.walk whole before <;> rfl

theorem Leads.newPlace (hhome : disk.node? disk.home = some .directory)
    (h : disk.Leads path place) (hext : Extends path name whole) (hname : Proper name)
    (hfits : Fits whole name) :
    disk.newPlace whole = .ok (place ++ [String.ofList name]) := by
  obtain ⟨before, hends, _⟩ := hext.ends
  rw [newPlace_eq hends hname, Disk.walk, if_neg (Nat.not_lt.mpr hfits.1),
    h.walk_before hhome hext hends]
  simp only [Except.bind, h.directory, hfits.2, Bool.false_eq_true, if_true, if_false]

/-- A path that a node can be made at leads to a directory, and then to a name. -/
theorem exists_leads_of_newPlace (hhome : disk.node? disk.home = some .directory)
    (hext : Extends path name whole) (hname : Proper name) {made : Place}
    (h : disk.newPlace whole = .ok made) :
    ∃ place, disk.Leads path place ∧ made = place ++ [String.ofList name] ∧ Fits whole name := by
  obtain ⟨before, hends, hgoing⟩ := hext.ends
  rw [newPlace_eq hends hname, Disk.walk] at h
  by_cases hlong : longestPath < byteLength whole.toList
  · rw [if_pos hlong] at h
    cases h
  · rw [if_neg hlong] at h
    cases hbefore : before.foldlM disk.step (disk.startOf whole) with
    | error error =>
        rw [hbefore] at h
        cases h
    | ok directory =>
        rw [hbefore, Except.bind] at h
        split at h
        · rename_i hdirectory
          split at h
          · cases h
          · rename_i hname'
            cases h
            refine ⟨directory, ⟨?_, hdirectory⟩, rfl, Nat.le_of_not_lt hlong, by simpa using hname'⟩
            rw [← hgoing, ← startOf_eq hext]
            exact (foldlM_going (directory_startOf hhome whole) hdirectory).mpr hbefore
        · cases h

/-- What can be written at a path goes to a place that is no directory. -/
theorem exists_newPlace_of_writeText {text : String} {written : Disk}
    (h : disk.writeText path text = .ok written) :
    ∃ made, disk.newPlace path = .ok made ∧ disk.node? made ≠ some .directory := by
  rw [writeText] at h
  split at h
  · cases h
  · rename_i made hmade
    split at h
    · cases h
    · rename_i hdirectory
      exact ⟨made, hmade, hdirectory⟩

/-- What is read of a name in a directory is what the file at its place holds. -/
theorem Leads.readText_iff (hhome : disk.node? disk.home = some .directory)
    (h : disk.Leads path place) (hext : Extends path name whole) (hname : Proper name)
    {text : String} :
    disk.readText whole = .ok text ↔
      Fits whole name ∧ disk.node? (place ++ [String.ofList name]) = some (.file text) := by
  rw [readText, h.resolve_name hhome hext hname]
  by_cases hfits : Fits whole name
  · rw [if_pos hfits]
    cases hnode : disk.node? (place ++ [String.ofList name]) with
    | none => simp
    | some node => cases node <;> simp [hnode, hfits]
  · simp [hfits]

theorem Leads.nodeAt?_eq (hhome : disk.node? disk.home = some .directory)
    (h : disk.Leads path place) (hext : Extends path name whole) (hname : Proper name) :
    disk.nodeAt? whole =
      if Fits whole name then disk.node? (place ++ [String.ofList name]) else none := by
  rw [nodeAt?, h.resolve_name hhome hext hname]
  by_cases hfits : Fits whole name
  · simp only [if_pos hfits]
    cases hnode : disk.node? (place ++ [String.ofList name]) with
    | none => simp
    | some node => simp [hnode]
  · simp [hfits]

end Leads

section Nodes

theorem node?_put_of_ne {made : Place} (hne : place ≠ made) (node : Node) :
    (disk.put made node).node? place = disk.node? place := by
  have hlookup : ∀ nodes : List (Place × Node),
      (nodes.filter fun entry => entry.1 ≠ made).lookup place = nodes.lookup place := by
    intro nodes
    induction nodes with
    | nil => rfl
    | cons entry rest ih =>
        rw [List.filter_cons]
        split
        · rw [List.lookup_cons, List.lookup_cons, ih]
        · rename_i hsame
          have hentry : (place == entry.1) = false := by simp_all
          rw [ih, List.lookup_cons, hentry]
  rw [Disk.node?, Disk.node?, put, List.lookup_cons, beq_false_of_ne hne, hlookup]

theorem node?_put {made : Place} (hmade : made ≠ []) (node : Node) (place : Place) :
    (disk.put made node).node? place = if place = made then some node else disk.node? place := by
  by_cases hplace : place = made
  · subst hplace
    simp [Disk.node?, put, hmade]
  · rw [if_neg hplace, node?_put_of_ne hplace]

theorem home_put (made : Place) (node : Node) : (disk.put made node).home = disk.home := rfl

end Nodes

/-- The home is the same, and what has been a directory still is one. -/
structure Keeps (before after : Disk) : Prop where
  home : after.home = before.home
  directories : ∀ place, before.node? place = some .directory →
    after.node? place = some .directory

section Keeps

variable {before after : Disk} {path : String}

theorem Keeps.home_directory (h : before.Keeps after)
    (hhome : before.node? before.home = some .directory) :
    after.node? after.home = some .directory := by
  rw [h.home]
  exact h.directories _ hhome

theorem Keeps.step (h : before.Keeps after) {part : List Char} {next : Place}
    (hstep : before.step place part = .ok next) (hnext : before.node? next = some .directory) :
    after.step place part = .ok next := by
  by_cases hplace : before.node? place = some .directory
  · rw [Disk.step, if_pos hplace] at hstep
    rw [Disk.step, if_pos (h.directories place hplace)]
    dsimp only at hstep ⊢
    split at hstep
    · rw [if_pos ‹_›]
      exact hstep
    · rw [if_neg ‹_›]
      split at hstep
      · rw [if_pos ‹_›]
        exact hstep
      · rw [if_neg ‹_›]
        split at hstep
        · cases hstep
        · rw [if_neg ‹_›]
          split at hstep
          · cases hstep
            rw [if_pos]
            rw [h.directories _ hnext]
            rfl
          · cases hstep
  · rw [step_of_not_directory hplace] at hstep
    cases hstep

theorem Leads.keep (h : before.Leads path place) (hkeeps : before.Keeps after) :
    after.Leads path place := by
  refine ⟨?_, hkeeps.directories place h.directory⟩
  have hstart : after.startOf path = before.startOf path := by rw [startOf, startOf, hkeeps.home]
  rw [hstart]
  have hwalk := h.walk
  generalize going (Path.parts path.toList) = ps at hwalk ⊢
  generalize before.startOf path = start at hwalk ⊢
  induction ps generalizing start with
  | nil => exact hwalk
  | cons part rest ih =>
      rw [List.foldlM_cons] at hwalk ⊢
      cases hstep : before.step start part with
      | error error =>
          rw [hstep] at hwalk
          cases hwalk
      | ok next =>
          rw [hstep] at hwalk
          have hnext : before.node? next = some .directory :=
            Decidable.byContradiction fun hne => not_directory_of_foldlM hne hwalk h.directory
          rw [hkeeps.step hstep hnext]
          exact ih next hwalk

end Keeps

end JackLang.Disk
