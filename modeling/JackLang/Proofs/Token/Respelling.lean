import JackLang.Proofs.Printing
import Mathlib.Data.List.Forall2

/-! # Identifiers spelled in another way

Where identifiers of a source are replaced by others, and everything else stays as it is
written, scanning finds the same tokens but for these identifiers: a gap and a token end
where they did, because one identifier is as good as another for the text in front of it.
-/

set_option autoImplicit false

namespace JackLang

section Slices

theorem placeAfter_eq_append (placed : List (Nat × Char)) (offset : Nat) (text : List Char) :
    placeAfter placed offset text = placed.reverse ++ placeAfter [] offset text := by
  induction text generalizing placed offset with
  | nil => simp [placeAfter]
  | cons c rest ih =>
      rw [placeAfter, placeAfter, ih, ih [(offset, c)]]
      simp

theorem placeAfter_cons (offset : Nat) (c : Char) (rest : List Char) :
    placeAfter [] offset (c :: rest) = (offset, c) :: placeAfter [] (offset + c.utf8Size) rest := by
  rw [placeAfter, placeAfter_eq_append]
  rfl

theorem placeAfter_append (offset : Nat) (first second : List Char) :
    placeAfter [] offset (first ++ second) =
      placeAfter [] offset first ++ placeAfter [] (offset + byteLength first) second := by
  induction first generalizing offset with
  | nil => rfl
  | cons c rest ih =>
      rw [List.cons_append, placeAfter_cons, placeAfter_cons, ih, byteLength_cons,
        List.cons_append, Nat.add_assoc]

theorem bounds_of_mem_placeAfter {offset : Nat} {text : List Char} {placed : Nat × Char}
    (h : placed ∈ placeAfter [] offset text) :
    offset ≤ placed.1 ∧ placed.1 < offset + byteLength text := by
  induction text generalizing offset with
  | nil => cases h
  | cons c rest ih =>
      have hsize := c.utf8Size_pos
      rw [placeAfter_cons] at h
      rw [byteLength_cons]
      rcases List.mem_cons.mp h with rfl | hmem
      · exact ⟨Nat.le_refl _, by omega⟩
      · have hrest := ih hmem
        omega

/-- The slice of a text from where one piece of it starts to where the piece ends. -/
theorem sliceBytes_append (front piece behind : List Char) :
    sliceBytes (front ++ (piece ++ behind))
      ⟨byteLength front, byteLength front + byteLength piece⟩ = piece := by
  rw [sliceBytes, placedChars, placeAfter_append, placeAfter_append, List.filter_append,
    List.filter_append, Nat.zero_add]
  have hfront : (placeAfter [] 0 front).filter (fun placed =>
      byteLength front ≤ placed.1 && placed.1 < byteLength front + byteLength piece) = [] := by
    rw [List.filter_eq_nil_iff]
    intro placed hmem
    have hbounds := bounds_of_mem_placeAfter hmem
    simp
    omega
  have hpiece : (placeAfter [] (byteLength front) piece).filter (fun placed =>
      byteLength front ≤ placed.1 && placed.1 < byteLength front + byteLength piece) =
      placeAfter [] (byteLength front) piece := by
    rw [List.filter_eq_self]
    intro placed hmem
    have hbounds := bounds_of_mem_placeAfter hmem
    simp
    omega
  have hbehind : (placeAfter [] (byteLength front + byteLength piece) behind).filter
      (fun placed => byteLength front ≤ placed.1 &&
        placed.1 < byteLength front + byteLength piece) = [] := by
    rw [List.filter_eq_nil_iff]
    intro placed hmem
    have hbounds := bounds_of_mem_placeAfter hmem
    simp
    omega
  rw [hfront, hpiece, hbehind, List.nil_append, List.append_nil, map_snd_placeAfter]
  rfl

end Slices

/-- The text from the place on, with the tokens spelled as the words. A token that has its
word already stays as it is written, and so do the gaps. -/
def respellFrom (text : List Char) (start : Nat) : List (Token × Word) → List Char
  | [] => sliceBytes text ⟨start, byteLength text⟩
  | (token, word) :: others =>
      sliceBytes text ⟨start, token.span.start⟩ ++
        ((if token.word = word then sliceBytes text token.span else word.spelling) ++
          respellFrom text token.span.stop others)

/-- The source with the words in the places of its tokens. -/
def respelled (source : String) (words : List Word) : String :=
  String.ofList (respellFrom source.toList 0 ((TokenStream.ofSource source).pending.zip words))

/-- The texts start with the same character, or both with one that an identifier can start
with. -/
def Alike (text next : List Char) : Prop :=
  text.head? = next.head? ∨
    ∃ c d, text.head? = some c ∧ next.head? = some d ∧ isWordStart c = true ∧
      isWordStart d = true

section Alike

variable {text next : List Char}

theorem Alike.refl (text : List Char) : Alike text text := .inl rfl

theorem Alike.append_left (front : List Char) (h : Alike text next) :
    Alike (front ++ text) (front ++ next) := by
  cases front with
  | nil => exact h
  | cons c rest => exact .inl rfl

theorem Alike.runEnds {part : Char → Bool} (h : Alike text next)
    (hpart : ∀ c, isWordStart c = true → part c = true) (hend : RunEnds part text) :
    RunEnds part next := by
  rcases h with hhead | ⟨c, d, hc, _, hstart, _⟩
  · intro c hc
    exact hend c (hhead ▸ hc)
  · have hfalse := hend c hc
    rw [hpart c hstart] at hfalse
    cases hfalse

theorem Alike.head_ne (mark : Symbol) (h : Alike text next)
    (hne : text.head? ≠ some mark.char) : next.head? ≠ some mark.char := by
  rcases h with hhead | ⟨c, d, _, hd, _, hstart⟩
  · rwa [← hhead]
  · rw [hd]
    intro heq
    have hpart := isWordPart_of_isWordStart hstart
    rw [Option.some.inj heq, mark.isWordPart_char] at hpart
    cases hpart

theorem Alike.eq_nil (h : Alike text next) (hnil : text = []) : next = [] := by
  subst hnil
  rcases h with hhead | ⟨c, _, hc, _⟩
  · exact List.head?_eq_none_iff.mp hhead.symm
  · cases hc

theorem ne_lineBreak_of_isWordStart (c : Char) (h : isWordStart c = true) :
    decide (c ≠ '\n') = true := by
  rw [decide_eq_true_iff]
  rintro rfl
  exact absurd h (by decide)

/-- A gap is one in front of any text that starts alike. -/
theorem IsGap.alike {gap : List Char} (hgap : IsGap text gap) (h : Alike text next) :
    IsGap next gap := by
  induction hgap with
  | nil => exact .nil
  | blank hblank _ ih => exact .blank hblank ih
  | lineComment hcomment hend _ ih =>
      exact .lineComment hcomment
        ((h.append_left _).runEnds ne_lineBreak_of_isWordStart hend) ih
  | blockComment hcomment _ ih => exact .blockComment hcomment ih

/-- A token is one in front of any text that starts alike. -/
theorem IsToken.alike {kind : TokenKind} {lexeme : String} {word : List Char}
    (hword : IsToken text kind lexeme word) (h : Alike text next) :
    IsToken next kind lexeme word := by
  have hrun : RunEnds isWordPart text → RunEnds isWordPart next :=
    h.runEnds fun c => isWordPart_of_isWordStart
  cases hword with
  | keyword reserved hend => exact .keyword reserved (hrun hend)
  | identifier hfirst hrest hname hend => exact .identifier hfirst hrest hname (hrun hend)
  | integer hne hdigits hvalue hend => exact .integer hne hdigits hvalue (hrun hend)
  | string hcontent => exact .string hcontent
  | symbol mark hslash =>
      refine .symbol mark fun hmark => ?_
      obtain ⟨hline, hblock⟩ := hslash hmark
      exact ⟨h.head_ne .slash hline, h.head_ne .star hblock⟩
  | integerOutOfRange hdigits hvalue hend => exact .integerOutOfRange hdigits hvalue (hrun hend)
  | malformedInteger hfirst hrest hstart hend =>
      exact .malformedInteger hfirst hrest hstart (hrun hend)
  | unterminatedString hcontent hend =>
      exact .unterminatedString hcontent (h.runEnds ne_lineBreak_of_isWordStart hend)
  | unterminatedComment hcomment hend => exact .unterminatedComment hcomment (h.eq_nil hend)
  | unexpectedCharacter hblank hpart hquote hmark =>
      exact .unexpectedCharacter hblank hpart hquote hmark

end Alike

/-- A word stays, or it is an identifier and another one comes in its place. -/
def Word.Respells (word next : Word) : Prop :=
  next = word ∨ word.kind = .identifier ∧ next.kind = .identifier ∧ next.Printable

theorem Word.Printable.exists_of_identifier {word : Word} (h : word.Printable)
    (hkind : word.kind = .identifier) :
    ∃ c rest, word.spelling = c :: rest ∧ isWordStart c = true := by
  cases h with
  | @identifier first rest hfirst hrest hname =>
      exact ⟨first, rest, by simp [spelling, Word.identifier], hfirst⟩
  | _ => cases hkind

theorem IsToken.of_identifier {behind word : List Char} {lexeme : String}
    (h : IsToken behind .identifier lexeme word) :
    RunEnds isWordPart behind ∧ ∃ c rest, word = c :: rest ∧ isWordStart c = true := by
  cases h with
  | identifier hfirst hrest hname hend => exact ⟨hend, _, _, rfl, hfirst⟩

section Layouts

variable {offset : Nat} {text : List Char} {tokens : List Token}

/-- A token of a text that is spelled in another way, or not, is the token of its word. -/
theorem IsToken.respelled {behind next word : List Char} {kind : TokenKind} {lexeme : String}
    {other : Word} (h : IsToken behind kind lexeme word)
    (hother : Word.Respells ⟨kind, lexeme⟩ other) (halike : Alike behind next) :
    IsToken next other.kind other.lexeme
        (if (⟨kind, lexeme⟩ : Word) = other then word else other.spelling) ∧
      Alike (word ++ behind)
        ((if (⟨kind, lexeme⟩ : Word) = other then word else other.spelling) ++ next) := by
  split
  · rename_i hsame
    subst hsame
    exact ⟨h.alike halike, halike.append_left word⟩
  · rename_i hdiffers
    obtain ⟨hkind, hidentifier, hprintable⟩ :=
      hother.resolve_left fun hsame => hdiffers hsame.symm
    obtain rfl : kind = .identifier := hkind
    obtain ⟨hend, c, rest, rfl, hc⟩ := h.of_identifier
    obtain ⟨d, others, hspelling, hd⟩ := hprintable.exists_of_identifier hidentifier
    constructor
    · apply hprintable.isToken
      · intro _
        exact halike.runEnds (fun c => isWordPart_of_isWordStart) hend
      · rintro rfl
        cases hidentifier
    · rw [hspelling]
      exact .inr ⟨c, d, rfl, rfl, hc, hd⟩

/-- Spelling identifiers in another way keeps the layout of a text. -/
theorem LaidOut.respelled (h : LaidOut offset text tokens) {front : List Char}
    (hoffset : offset = byteLength front) {words : List Word}
    (hwords : List.Forall₂ (fun token word => Word.Respells token.word word) tokens words)
    (start : Nat) :
    ∃ nexts, LaidOut start (respellFrom (front ++ text) offset (tokens.zip words)) nexts ∧
      nexts.map Token.word = words ∧
      Alike text (respellFrom (front ++ text) offset (tokens.zip words)) := by
  induction h generalizing front words start with
  | @finish offset gap hgap =>
      obtain rfl := List.forall₂_nil_left_iff.mp hwords
      have hslice := sliceBytes_append front gap []
      rw [List.append_nil, ← byteLength_append] at hslice
      rw [List.zip_nil_left, respellFrom, hoffset, hslice]
      exact ⟨[], .finish hgap, rfl, .refl gap⟩
  | @token offset gap word behind kind lexeme tokens hgap htoken hrest ih =>
      obtain ⟨other, others, hother, hothers, rfl⟩ := List.forall₂_cons_left_iff.mp hwords
      have hgapSlice := sliceBytes_append front gap (word ++ behind)
      have hwordSlice := sliceBytes_append (front ++ gap) word behind
      have hfront : offset + byteLength gap + byteLength word =
          byteLength (front ++ gap ++ word) := by
        rw [hoffset, byteLength_append, byteLength_append]
      obtain ⟨nexts, hlaidOut, hnexts, halike⟩ := ih hfront hothers
        (start + byteLength gap + byteLength (if (⟨kind, lexeme⟩ : Word) = other then word
          else other.spelling))
      rw [List.append_assoc, byteLength_append, ← hoffset] at hwordSlice
      rw [← hoffset] at hgapSlice
      simp only [List.append_assoc] at hlaidOut halike
      obtain ⟨hword, hstarts⟩ := htoken.respelled hother halike
      rw [List.zip_cons_cons, respellFrom, hgapSlice, hwordSlice]
      refine ⟨_, .token (hgap.alike hstarts) hword hlaidOut, ?_, hstarts.append_left gap⟩
      rw [List.map_cons, hnexts]
      rfl

end Layouts

/-- Scanning the source with some identifiers spelled in another way finds the words that
are in the places of its tokens. -/
theorem words_of_respelled {source : String} {words : List Word}
    (hwords : List.Forall₂ Word.Respells
      ((TokenStream.ofSource source).pending.map Token.word) words) :
    (TokenStream.ofSource (respelled source words)).pending.map Token.word = words := by
  have hlaidOut := (TokenStream.laidOut_iff source _).mpr rfl
  obtain ⟨nexts, hnext, hnexts, _⟩ := hlaidOut.respelled byteLength_nil.symm
    (List.forall₂_map_left_iff.mp hwords) 0
  rw [List.nil_append, ← String.toList_ofList (l := respellFrom _ _ _),
    TokenStream.laidOut_iff] at hnext
  rw [hnext] at hnexts
  exact hnexts

end JackLang
