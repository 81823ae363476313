import LivePatch.Proofs.Cutting.Marks

/-!
# More text behind the end

A piece does not change when a character is put behind the text that no piece goes on with.
-/

namespace LivePatch

namespace Token

open Lexer (endsNumber)

variable {lineStart : Bool} {t : Token} {rest : List Char} {d : Char}

/-- A number stays as it is when a character is put behind the text that ends every number. -/
theorem Cut.append_of_isNumber (h : t.Cut lineStart rest) (hk : t.kind.isNumber = true)
    (hd : endsNumber d = true) (more : List Char) : t.Cut lineStart (rest ++ d :: more) := by
  obtain ⟨c, cs, htext, hcuts⟩ := h
  obtain ⟨hfirst, hread⟩ := hcuts.isNumber_cases hk
  have hlen : cs.length ≤ (cs ++ rest).length := by simp
  have hends : Lexer.JoinsNumber [] (d :: more) := .stops hd
  have hread' := Lexer.numberReading_of_joins hends hlen (by rw [List.append_nil]; exact hread)
  rw [List.append_assoc] at hread'
  refine ⟨c, cs, htext, .number (hfirst.imp_right fun ⟨hpoint, hdigit⟩ => ⟨hpoint, ?_⟩) hread'⟩
  rw [← List.append_assoc]
  cases hall : cs ++ rest with
  | nil =>
    rw [hall] at hdigit
    cases hdigit
  | cons a as =>
    rw [hall] at hdigit
    exact hdigit

end Token

end LivePatch
