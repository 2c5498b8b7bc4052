import JackLang.Proofs.Token.Regular

/-! # The tokens of a stream by number

Handing out tokens again and again goes through those of the source, and from
there on repeats the end of the file.
-/

set_option autoImplicit false

namespace JackLang

namespace TokenStream

/-- The token that is handed out behind the given number of others. -/
def token : TokenStream → Nat → Token
  | stream, 0 => stream.peek
  | stream, number + 1 => stream.advance.2.token number

theorem token_eq (stream : TokenStream) (number : Nat) :
    stream.token number = stream.pending[number]?.getD (.endOfFile stream.length) := by
  obtain ⟨pending, length⟩ := stream
  induction number generalizing pending with
  | zero => cases pending <;> rfl
  | succ number ih =>
      rw [token, advance, ih]
      cases pending <;> rfl

theorem token_of_getElem? {stream : TokenStream} {number : Nat} {token : Token}
    (h : stream.toList[number]? = some token) : stream.token number = token := by
  rw [token_eq]
  rw [toList, List.getElem?_append] at h
  split at h
  · rw [h]
    rfl
  · rename_i hnumber
    rw [List.getElem?_eq_none (Nat.le_of_not_lt hnumber)]
    exact (List.mem_singleton.mp (List.mem_of_getElem? h)).symm

end TokenStream

end JackLang
