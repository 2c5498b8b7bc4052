import JackLang.Compile
import JackLang.SourceUnit

/-! # Where paths lead

Only some parts of a path lead on: the others are passed over. A path in a directory leads
like that of the directory and then to a name, and so does the path of another name beside
it, although it is written with what is left of the first one.
-/

set_option autoImplicit false

namespace JackLang.Path

/-- What may be the name of a node in a directory. -/
structure Proper (name : List Char) : Prop where
  goes : isIdle name = false
  ne_up : name ≠ ['.', '.']
  no_slash : '/' ∉ name

instance (name : List Char) : Decidable (Proper name) :=
  decidable_of_iff (isIdle name = false ∧ name ≠ ['.', '.'] ∧ '/' ∉ name)
    ⟨fun ⟨hgoes, hup, hslash⟩ => ⟨hgoes, hup, hslash⟩,
      fun ⟨hgoes, hup, hslash⟩ => ⟨hgoes, hup, hslash⟩⟩

theorem Proper.ne_nil {name : List Char} (h : Proper name) : name ≠ [] := by
  rintro rfl
  cases h.goes

theorem Proper.ne_dot {name : List Char} (h : Proper name) : name ≠ ['.'] := by
  rintro rfl
  cases h.goes

/-- The parts that lead on. -/
def going (ps : List (List Char)) : List (List Char) :=
  ps.filter (!isIdle ·)

@[simp] theorem going_append (first second : List (List Char)) :
    going (first ++ second) = going first ++ going second :=
  List.filter_append first second

theorem going_cons_of_idle {part : List Char} (h : isIdle part = true) (ps : List (List Char)) :
    going (part :: ps) = going ps :=
  List.filter_cons_of_neg (by rw [h]; decide)

theorem going_cons_of_goes {part : List Char} (h : isIdle part = false)
    (ps : List (List Char)) : going (part :: ps) = part :: going ps :=
  List.filter_cons_of_pos (by rw [h]; rfl)

section Parts

theorem parts_cons_of_ne {c : Char} (h : c ≠ '/') {part rest : List Char}
    {others : List (List Char)} (hrest : parts rest = part :: others) :
    parts (c :: rest) = (c :: part) :: others := by
  rw [parts, if_neg h, hrest]

theorem parts_slash (rest : List Char) : parts ('/' :: rest) = [] :: parts rest := by
  rw [parts, if_pos rfl]

theorem parts_append (first rest : List Char) :
    parts (first ++ '/' :: rest) = parts first ++ parts rest := by
  induction first with
  | nil => exact parts_slash rest
  | cons c others ih =>
      obtain ⟨part, more, hothers⟩ := List.exists_cons_of_ne_nil (parts_ne_nil others)
      by_cases hc : c = '/'
      · subst hc
        rw [List.cons_append, parts_slash, ih, parts_slash, List.cons_append]
      · rw [hothers, List.cons_append] at ih
        rw [List.cons_append, parts_cons_of_ne hc ih, parts_cons_of_ne hc hothers,
          List.cons_append]

theorem parts_of_no_slash {text : List Char} (h : '/' ∉ text) : parts text = [text] := by
  induction text with
  | nil => rfl
  | cons c rest ih =>
      rw [List.mem_cons, not_or] at h
      exact parts_cons_of_ne (Ne.symm h.1) (ih h.2)

theorem no_slash_of_mem_parts (text : List Char) : ∀ part ∈ parts text, '/' ∉ part := by
  induction text with
  | nil => simp [parts]
  | cons c rest ih =>
      obtain ⟨part, more, hrest⟩ := List.exists_cons_of_ne_nil (parts_ne_nil rest)
      rw [hrest] at ih
      obtain ⟨hpart, hmore⟩ := List.forall_mem_cons.mp ih
      by_cases hc : c = '/'
      · rw [hc, parts_slash, hrest]
        exact List.forall_mem_cons.mpr ⟨List.not_mem_nil, ih⟩
      · rw [parts_cons_of_ne hc hrest]
        refine List.forall_mem_cons.mpr ⟨?_, hmore⟩
        rw [List.mem_cons, not_or]
        exact ⟨Ne.symm hc, hpart⟩

theorem joinParts_cons_cons (part next : List Char) (others : List (List Char)) :
    joinParts (part :: next :: others) = part ++ '/' :: joinParts (next :: others) := rfl

@[simp] theorem joinParts_singleton (part : List Char) : joinParts [part] = part := by
  simp [joinParts, List.intercalate]

theorem parts_joinParts {ps : List (List Char)} (hne : ps ≠ []) (h : ∀ part ∈ ps, '/' ∉ part) :
    parts (joinParts ps) = ps := by
  induction ps with
  | nil => exact absurd rfl hne
  | cons part rest ih =>
      obtain ⟨hpart, hrest⟩ := List.forall_mem_cons.mp h
      cases rest with
      | nil => rw [joinParts_singleton, parts_of_no_slash hpart]
      | cons next others =>
          rw [joinParts_cons_cons, parts_append, ih (by simp) hrest, parts_of_no_slash hpart]
          rfl

theorem joinParts_prefix {first second : List (List Char)} (h : first <+: second) :
    joinParts first <+: joinParts second := by
  obtain ⟨rest, rfl⟩ := h
  induction first with
  | nil => exact List.nil_prefix
  | cons part others ih =>
      cases others with
      | cons next more =>
          rw [List.cons_append, List.cons_append, joinParts_cons_cons, joinParts_cons_cons]
          exact (List.prefix_append_right_inj part).mpr (List.cons_prefix_cons.mpr ⟨rfl, ih⟩)
      | nil =>
          cases rest with
          | nil => exact List.prefix_rfl
          | cons next more =>
              rw [joinParts_singleton, List.singleton_append, joinParts_cons_cons]
              exact List.prefix_append _ _

theorem going_parts_joinParts {ps : List (List Char)} (h : ∀ part ∈ ps, '/' ∉ part) :
    going (parts (joinParts ps)) = going ps := by
  cases ps with
  | nil => rfl
  | cons part rest => rw [parts_joinParts (by simp) h]

end Parts

/-- The path leads like another one, and then to a name. -/
structure Extends (path : String) (name : List Char) (whole : String) : Prop where
  rooted : (whole.toList.head? = some '/') ↔ path.toList.head? = some '/'
  ends : ∃ before, parts whole.toList = before ++ [name] ∧
    going before = going (parts path.toList)

theorem Extends.ne_empty {path whole : String} {name : List Char} (h : Extends path name whole)
    (hname : Proper name) : whole ≠ "" := by
  rintro rfl
  obtain ⟨before, hends, _⟩ := h.ends
  have hempty : before ++ [name] = [] ++ [[]] := hends.symm
  exact hname.ne_nil (by simpa using List.append_inj_right' hempty rfl)

section Join

variable {directory name : String}

/-- A name in a directory stands behind a slash, unless the path of the directory is empty. -/
theorem toList_join (h : Proper name.toList) :
    directory.toList = [] ∧ join directory name = name ∨
      ∃ front, (join directory name).toList = front ++ '/' :: name.toList ∧
        (directory.toList = front ∧ front ≠ [] ∨ directory.toList = front ++ ['/']) := by
  have hroot : name.toList.head? ≠ some '/' := fun hhead => h.no_slash (List.mem_of_head? hhead)
  rw [join, if_neg hroot]
  cases hlast : directory.toList.getLast? with
  | none => exact .inl ⟨List.getLast?_eq_none_iff.mp hlast, rfl⟩
  | some last =>
      obtain ⟨front, hfront⟩ := List.getLast?_eq_some_iff.mp hlast
      apply Or.inr
      simp only
      split
      · rename_i hslash
        rw [hslash] at hfront
        exact ⟨front, by simp [hfront], .inr hfront⟩
      · exact ⟨directory.toList, by simp, .inl ⟨rfl, by simp [hfront]⟩⟩

theorem byteLength_le_join (directory : String) (h : Proper name.toList) :
    byteLength directory.toList ≤ byteLength (join directory name).toList := by
  rcases toList_join h with ⟨hempty, _⟩ | ⟨front, hjoin, ⟨hdirectory, _⟩ | hdirectory⟩
  · rw [hempty]
    exact Nat.zero_le _
  · rw [hjoin, hdirectory, byteLength_append]
    exact Nat.le_add_right _ _
  · rw [hjoin, hdirectory, byteLength_append, byteLength_append, byteLength_cons, byteLength_cons]
    exact Nat.add_le_add_left (Nat.add_le_add_left (Nat.zero_le _) _) _

theorem extends_join (directory : String) (h : Proper name.toList) :
    Extends directory name.toList (join directory name) := by
  have hname : parts name.toList = [name.toList] := parts_of_no_slash h.no_slash
  rcases toList_join h with ⟨hempty, hjoin⟩ | ⟨front, hjoin, hfront⟩
  · rw [hjoin]
    refine ⟨?_, [], hname, by rw [hempty]; rfl⟩
    rw [hempty]
    exact ⟨fun hhead => absurd (List.mem_of_head? hhead) h.no_slash, fun hhead => by cases hhead⟩
  · refine ⟨?_, parts front, ?_, ?_⟩
    · rw [hjoin]
      rcases hfront with ⟨hdirectory, hne⟩ | hdirectory
      · rw [hdirectory]
        obtain ⟨first, rest, rfl⟩ := List.exists_cons_of_ne_nil hne
        rfl
      · rw [hdirectory]
        cases front <;> simp
    · rw [hjoin, parts_append, hname]
    · rcases hfront with ⟨hdirectory, _⟩ | hdirectory
      · rw [hdirectory]
      · rw [hdirectory, parts_append, going_append]
        exact (List.append_nil _).symm

end Join

section Names

variable {path whole : String} {name : List Char}

theorem start_cases (text : List Char) :
    (∃ rest, text = '/' :: rest ∧ start text = ['/']) ∨
      text = ['.'] ∧ start text = ['.'] ∨
      (∃ rest, text = '.' :: '/' :: rest ∧ start text = ['.']) ∨
      text.head? ≠ some '/' ∧ start text = [] := by
  unfold start
  split
  · exact .inl ⟨_, rfl, rfl⟩
  · exact .inr (.inl ⟨rfl, rfl⟩)
  · exact .inr (.inr (.inl ⟨_, rfl, rfl⟩))
  · rename_i hroot _ _
    refine .inr (.inr (.inr ⟨?_, rfl⟩))
    intro hhead
    obtain ⟨rest, rfl⟩ := List.head?_eq_some_iff.mp hhead
    exact hroot rest rfl

/-- What stands behind the start of a path ends in the same name as the path, and the parts in
front of the name lead the same way. -/
theorem exists_parts_drop {text : List Char} {before : List (List Char)}
    (h : parts text = before ++ [name]) (hname : Proper name) :
    ∃ behind, parts (text.drop (start text).length) = behind ++ [name] ∧
      going behind = going before := by
  rcases start_cases text with ⟨rest, rfl, hstart⟩ | ⟨rfl, hstart⟩ | ⟨rest, rfl, hstart⟩ |
    ⟨_, hstart⟩
  · rw [parts_slash] at h
    rw [hstart]
    cases before with
    | nil => exact absurd (List.cons.inj h).1.symm hname.ne_nil
    | cons first behind =>
        obtain ⟨rfl, hrest⟩ := List.cons.inj h
        exact ⟨behind, hrest, (going_cons_of_idle rfl behind).symm⟩
  · have hdot : before ++ [name] = [] ++ [['.']] := h.symm
    exact absurd (List.append_inj_right' hdot rfl) (by simpa using hname.ne_dot)
  · rw [parts_cons_of_ne (by decide) (parts_slash rest)] at h
    rw [hstart]
    cases before with
    | nil => exact absurd (List.cons.inj h).2 (parts_ne_nil rest)
    | cons first behind =>
        obtain ⟨rfl, hrest⟩ := List.cons.inj h
        refine ⟨[] :: behind, ?_, ?_⟩
        · change parts ('/' :: rest) = _
          rw [parts_slash, hrest]
          rfl
        · rw [going_cons_of_idle rfl, going_cons_of_idle rfl]
  · rw [hstart]
    exact ⟨before, h, rfl⟩

theorem fileName?_of_parts {before : List (List Char)}
    (h : parts whole.toList = before ++ [name]) (hname : Proper name) :
    fileName? whole = some name := by
  obtain ⟨behind, hbehind, _⟩ := exists_parts_drop h hname
  have hback : partsBack whole.toList = name :: behind.reverse := by
    rw [partsBack, hbehind, List.reverse_append, List.reverse_singleton, List.singleton_append,
      List.dropWhile_cons_of_neg (by rw [hname.goes]; decide)]
  rw [fileName?, hback]
  exact if_neg hname.ne_up

/-- The parts without those at the end that lead nowhere. -/
def trim (ps : List (List Char)) : List (List Char) :=
  (ps.reverse.dropWhile isIdle).reverse

theorem isPrefix_trim (ps : List (List Char)) : trim ps <+: ps := by
  rw [← List.reverse_suffix, trim, List.reverse_reverse]
  exact List.dropWhile_suffix isIdle

theorem going_trim (ps : List (List Char)) : going (trim ps) = going ps := by
  have hidle : going (ps.reverse.takeWhile isIdle) = [] := by
    rw [going, List.filter_eq_nil_iff]
    intro part hmem
    rw [List.all_eq_true.mp List.all_takeWhile part hmem]
    decide
  have hback : going (ps.reverse.dropWhile isIdle) = going ps.reverse := by
    have hwhole := going_append (ps.reverse.takeWhile isIdle) (ps.reverse.dropWhile isIdle)
    rw [List.takeWhile_append_dropWhile, hidle, List.nil_append] at hwhole
    exact hwhole.symm
  simp only [going, trim, List.filter_reverse] at hback ⊢
  rw [hback, List.reverse_reverse]

/-- Behind a dot that starts a path, its parts are written with a slash in front. -/
theorem going_parts_dot {ps : List (List Char)} (h : ∀ part ∈ ps, '/' ∉ part)
    (hfirst : ∀ first ∈ ps.head?, first = []) :
    going (parts ('.' :: joinParts ps)) = going ps := by
  rcases ps with _ | ⟨first, _ | ⟨next, others⟩⟩
  · rfl
  · obtain rfl := hfirst first rfl
    rfl
  · obtain rfl := hfirst first rfl
    have hdot : isIdle ['.'] = true := rfl
    have hempty : isIdle [] = true := rfl
    rw [joinParts_cons_cons, List.nil_append, parts_cons_of_ne (by decide) (parts_slash _),
      parts_joinParts (by simp) (List.forall_mem_cons.mp h).2, going_cons_of_idle hdot,
      going_cons_of_idle hempty]

theorem exists_parent_of_parts {before : List (List Char)}
    (h : parts whole.toList = before ++ [name]) (hname : Proper name) :
    ∃ parent, parent? whole = some parent ∧ going (parts parent.toList) = going before ∧
      (parent.toList.head? = some '/' ↔ whole.toList.head? = some '/') := by
  obtain ⟨behind, hbehind, hgoing⟩ := exists_parts_drop h hname
  have hback : partsBack whole.toList = name :: behind.reverse := by
    rw [partsBack, hbehind, List.reverse_append, List.reverse_singleton, List.singleton_append,
      List.dropWhile_cons_of_neg (by rw [hname.goes]; decide)]
  have hparent : parent? whole =
      some (String.ofList (start whole.toList ++ joinParts (trim behind))) := by
    simp only [parent?, hback, trim]
  have hslash : ∀ part ∈ trim behind, '/' ∉ part := by
    intro part hmem
    apply no_slash_of_mem_parts (whole.toList.drop (start whole.toList).length)
    rw [hbehind]
    exact List.mem_append_left _ ((isPrefix_trim behind).subset hmem)
  refine ⟨_, hparent, ?_⟩
  rw [String.toList_ofList, ← hgoing, ← going_trim behind]
  rcases start_cases whole.toList with ⟨rest, hwhole, hstart⟩ | ⟨hwhole, _⟩ |
    ⟨rest, hwhole, hstart⟩ | ⟨hroot, hstart⟩
  · rw [hstart, hwhole]
    refine ⟨?_, by simp⟩
    rw [List.singleton_append, parts_slash, going_cons_of_idle rfl, going_parts_joinParts hslash]
  · rw [hwhole] at h
    have hdot : before ++ [name] = [] ++ [['.']] := h.symm
    exact absurd (List.append_inj_right' hdot rfl) (by simpa using hname.ne_dot)
  · have hfirst : ∀ first ∈ (trim behind).head?, first = [] := by
      intro first hmem
      obtain ⟨others, hothers⟩ := List.head?_eq_some_iff.mp hmem
      obtain ⟨more, hmore⟩ := isPrefix_trim behind
      rw [hothers] at hmore
      rw [hstart, hwhole] at hbehind
      change parts ('/' :: rest) = _ at hbehind
      rw [parts_slash, ← hmore] at hbehind
      exact (List.cons.inj hbehind).1.symm
    rw [hstart, hwhole]
    exact ⟨going_parts_dot hslash hfirst, by simp⟩
  · rw [hstart, List.nil_append]
    refine ⟨going_parts_joinParts hslash, fun hhead => absurd ?_ hroot, fun hhead =>
      absurd hhead hroot⟩
    -- what is written of the parent is the beginning of the path itself
    have hstarts :=
      joinParts_prefix ((isPrefix_trim behind).trans (List.prefix_append behind [name]))
    rw [← hbehind, joinParts_parts, hstart] at hstarts
    obtain ⟨others, hothers⟩ := List.head?_eq_some_iff.mp hhead
    obtain ⟨more, hmore⟩ := hstarts
    rw [hothers] at hmore
    exact List.head?_eq_some_iff.mpr ⟨others ++ more, hmore.symm⟩

end Names

section Extensions

variable {name extension : List Char}

/-- A name with an extension is put together from what it is split into. -/
theorem splitExtension_eq_some (h : (splitExtension name).2 = some extension) :
    name = (splitExtension name).1 ++ '.' :: extension := by
  unfold splitExtension at h ⊢
  split at h
  · rename_i dot first before hbehind
    cases h
    have hdot : dot = '.' := by
      have hhead := List.head_dropWhile_not (fun c => decide (c ≠ '.'))
        (by rw [hbehind]; exact List.cons_ne_nil _ _)
      simp only [hbehind, List.head_cons, decide_eq_false_iff_not, ne_eq,
        Decidable.not_not] at hhead
      exact hhead
    have hname := congrArg List.reverse
      (List.takeWhile_append_dropWhile (p := fun c => decide (c ≠ '.')) (l := name.reverse))
    rw [hbehind, hdot, List.reverse_append, List.reverse_reverse] at hname
    simpa using hname.symm
  · cases h

end Extensions

end JackLang.Path

open JackLang.Path (Proper)

namespace JackLang.SourceUnit

/-- What the output of a unit is called. -/
def outputName (suffix name : String) : String :=
  String.ofList (Path.splitExtension name.toList).1 ++ suffix

theorem hasExtension_of_parts {path : String} {name : List Char} {before : List (List Char)}
    (h : Path.parts path.toList = before ++ [name]) (hname : Proper name) :
    hasExtension path =
      decide ((Path.splitExtension name).2.map String.ofList = some extension) := by
  rw [hasExtension, Path.extension?, Path.fileName?_of_parts h hname, Option.bind_some]

theorem hasExtension_join (directory : String) {name : String} (h : Proper name.toList) :
    hasExtension (Path.join directory name) = hasExtension name := by
  obtain ⟨before, hends, _⟩ := (Path.extends_join directory h).ends
  have hname : Path.parts name.toList = [] ++ [name.toList] := Path.parts_of_no_slash h.no_slash
  rw [hasExtension_of_parts hends h, hasExtension_of_parts hname h]

section Units

variable {name : String} (hname : Proper name.toList) (hunit : hasExtension name = true)

include hname hunit

theorem eq_stem_append : name.toList =
    (Path.splitExtension name.toList).1 ++ ".jack".toList := by
  have hparts : Path.parts name.toList = [] ++ [name.toList] :=
    Path.parts_of_no_slash hname.no_slash
  rw [hasExtension_of_parts hparts hname, decide_eq_true_eq, Option.map_eq_some_iff] at hunit
  obtain ⟨found, hfound, hjack⟩ := hunit
  have hsplit := Path.splitExtension_eq_some hfound
  have hlist : found = extension.toList := by rw [← hjack, String.toList_ofList]
  rw [hlist] at hsplit
  exact hsplit

theorem getLast?_of_hasExtension : name.toList.getLast? = some 'k' := by
  rw [eq_stem_append hname hunit]
  simp

theorem no_slash_stem : '/' ∉ (Path.splitExtension name.toList).1 := by
  intro hmem
  apply hname.no_slash
  rw [eq_stem_append hname hunit]
  exact List.mem_append_left _ hmem

end Units

theorem outputName_inj {first second suffix : String} (hfirst : Proper first.toList)
    (hsecond : Proper second.toList) (hunit : hasExtension first = true)
    (hother : hasExtension second = true)
    (h : outputName suffix first = outputName suffix second) : first = second := by
  have hchars := congrArg String.toList h
  simp only [outputName, String.toList_append, String.toList_ofList] at hchars
  apply String.toList_injective
  rw [eq_stem_append hfirst hunit, eq_stem_append hsecond hother,
    List.append_cancel_right hchars]

theorem getLast?_outputName (kind : OutputKind) (name : String) :
    ∃ last ∈ ['m', 'l'], (outputName kind.suffix name).toList.getLast? = some last := by
  cases kind with
  | program => exact ⟨'m', by decide, by simp [outputName, OutputKind.suffix]⟩
  | tokens | tree => exact ⟨'l', by decide, by simp [outputName, OutputKind.suffix]⟩

theorem proper_outputName (kind : OutputKind) {name : String} (hname : Proper name.toList)
    (hunit : hasExtension name = true) : Proper (outputName kind.suffix name).toList := by
  obtain ⟨last, hlast, hends⟩ := getLast?_outputName kind name
  have hdot : ∀ text ∈ [[], ['.'], ['.', '.']], (outputName kind.suffix name).toList ≠ text := by
    intro text hmem htext
    rw [htext] at hends
    simp only [List.mem_cons, List.not_mem_nil, or_false] at hmem
    rcases hmem with rfl | rfl | rfl <;> cases hends <;> exact absurd hlast (by decide)
  constructor
  · simp [Path.isIdle, hdot]
  · exact hdot _ (by simp)
  · rw [outputName, String.toList_append, String.toList_ofList, List.mem_append, not_or]
    refine ⟨no_slash_stem hname hunit, ?_⟩
    cases kind <;> decide

/-- No output is a unit. -/
theorem hasExtension_outputName (kind : OutputKind) {name : String} (hname : Proper name.toList)
    (hunit : hasExtension name = true) : hasExtension (outputName kind.suffix name) = false := by
  rw [Bool.eq_false_iff]
  intro hjack
  have hk := getLast?_of_hasExtension (proper_outputName kind hname hunit) hjack
  obtain ⟨last, hlast, hends⟩ := getLast?_outputName kind name
  rw [hends] at hk
  cases hk
  exact absurd hlast (by decide)

/-- The output of a unit lies in the directory for the outputs, and without one in that of
the unit. -/
theorem exists_outputPath (path : String) (outDir : Option String) (kind : OutputKind)
    {name : String} (hname : Proper name.toList) (hunit : hasExtension name = true) :
    ∃ output, outputPath? (Path.join path name) outDir kind.suffix = some output ∧
      Path.Extends (outDir.getD path) (outputName kind.suffix name).toList output ∧
      ∀ directory, outDir = some directory →
        output = Path.join directory (outputName kind.suffix name) := by
  obtain ⟨hrooted, before, hends, hgoing⟩ := Path.extends_join path hname
  have hstem : Path.stem? (Path.join path name) =
      some (String.ofList (Path.splitExtension name.toList).1) := by
    rw [Path.stem?, Path.fileName?_of_parts hends hname, Option.map_some]
  have houtput := proper_outputName kind hname hunit
  rw [outputPath?, hstem, Option.map_some]
  cases outDir with
  | some directory =>
      refine ⟨_, rfl, Path.extends_join directory houtput, ?_⟩
      rintro _ ⟨⟩
      rfl
  | none =>
      obtain ⟨parent, hparent, hleads, hstarts⟩ := Path.exists_parent_of_parts hends hname
      rw [hparent]
      obtain ⟨hsame, others, hother, hothers⟩ := Path.extends_join parent houtput
      refine ⟨_, rfl, ⟨hsame.trans (hstarts.trans hrooted), others, hother,
        hothers.trans (hleads.trans hgoing)⟩, fun _ h => by cases h⟩

end JackLang.SourceUnit
