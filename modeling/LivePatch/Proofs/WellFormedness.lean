import LivePatch.Proofs.Grammar.Parts
import LivePatch.Proofs.OutputTokens
import LivePatch.Proofs.Progress

/-!
# Trees of texts without problems

Where reading a text finds no problem, its tree is well formed.  So whoever asks a node of such a
tree for a name, a type, an operand or a list of parameters gets an answer.
-/

namespace LivePatch

open Token (endOfText)
open Grammar (Forms production)

theorem Lexer.Lexeme.token_ne_error {l : Lexer.Lexeme} {source : String}
    (hl : l ∈ Lexer.pieces source) {k : Kind} (hk : l.outcome = .ok k) : l.token.kind ≠ .error := by
  obtain ⟨start, c, rest, ho, -⟩ := Lexer.exists_read_of_mem hl
  have hkind : l.token.kind = k := by simp [Lexer.Lexeme.token, hk]
  rw [hkind]
  rintro rfl
  rcases Lexer.read_ok (ho ▸ hk) with hopen | hspelled
  · exact absurd hopen (by decide)
  · have hne : ∀ m ∈ Kind.keywords ++ Kind.marks, m.2 ≠ .error := by decide +kernel
    exact hne _ hspelled rfl

/-- Without lexical faults no token is an error. -/
theorem lex_ne_error {source : String} (h : lexicalFaults source = []) :
    ∀ w ∈ lex source, w.kind ≠ .error := by
  intro w hw
  rcases List.mem_append.mp hw with hw | hw
  · obtain ⟨l, hl, rfl⟩ := List.mem_map.mp hw
    obtain ⟨k, hk⟩ := Token.faultsFrom_eq_nil_iff.mp h l hl
    exact l.token_ne_error hl hk
  · obtain rfl := List.mem_singleton.mp hw
    decide

namespace ReadState

theorem wellFormed_start {source : String} (h : lexicalFaults source = []) :
    (start (lex source)).WellFormed where
  words w hw := by
    rw [start, separate_words] at hw
    exact lex_ne_error h w (List.mem_of_mem_filter hw)
  gaps := (orderly_start source).trivia
  built := List.forall_mem_nil _

end ReadState

theorem Grammar.forms_compilationUnit {ws : List Token} {ps : List Part} :
    Forms compilationUnit (fun _ _ _ => True) ws ps :=
  forms_node_of (fun _ => forms_of_plain (by simp [Rule.appends])) fun _ => trivial

/-- **The tree of a text without problems is well formed.** -/
theorem wellFormed_parse (source : String) (h : (parse source).isClean = true) :
    (parse source).tree.WellFormed := by
  obtain ⟨last, ⟨depth, hdoes⟩, -, hbuilt, hdiagnostics⟩ := (Grammar.finishes_parse source).reads
  rw [List.isEmpty_iff.mp h] at hdiagnostics
  obtain ⟨hlexical, hfound⟩ := List.append_eq_nil_iff.mp hdiagnostics.symm
  have hforming := Action.forming_completeRule Grammar.forms_production depth
  obtain ⟨hlast, -⟩ := Action.wellFormed_of_complete hforming Grammar.compilationUnit
    (ReadState.wellFormed_start hlexical) hdoes Grammar.forms_compilationUnit
    (List.reverse_eq_nil_iff.mp hfound)
  exact hlast.built _ (hbuilt ▸ List.mem_cons_self)

/-- Declarations of every kind of type, a method and a field, and most kinds of expressions of which
something is asked. -/
def declarations : String :=
  "interface I \x7b \x7d struct S<T> \x7b \x7d record class R(int A); class C \x7b " ++
    "int f, g = 1; int M(object o) \x7b f = o.P.Q((C)o, x: this).R; return f; \x7d \x7d"

theorem wellFormed_parse_declarations :
    (parse declarations).isClean = true ∧ (parse declarations).tree.WellFormed := by
  have hclean : (parse declarations).isClean = true := by decide +kernel
  exact ⟨hclean, wellFormed_parse declarations hclean⟩

end LivePatch
