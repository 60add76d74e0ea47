import Bracketry.Proofs.Lexing.Passage

/-!
# The lexer reads by the grammar

The lexer works character by character, the grammar lexeme by lexeme, and both come to the same:
`lex_eq_iff_reads` for lexemes and flaws, and `tokenize_iff_reads` for the tokens and faults that
leave the library. The two halves are that what the grammar reads the lexer gives out
(`Lexer.resume_of_reads`), and that the grammar has a reading of every text
(`Lexeme.exists_reads`). The lexer being a function, a text has only one reading.
-/

namespace Bracketry

open Text Lexeme

/-- Behind what was read, the lexer comes to what the grammar reads of the rest. -/
theorem Lexer.resume_of_reads {last place : Place} {text : List Char}
    {result : Except Flaw (List Lexeme)} (h : Reads last place text result) {read : List Char}
    (hplace : place = Place.ofEnd read) (hlast : last = Place.ofLast (read ++ text)) :
    resume read .idle text = some result := by
  induction h generalizing read with
  | done place => rw [resume_nil]; rfl
  | @split place shape w rest result h _ ih =>
    subst hplace
    rw [resume_splits h, ih (Place.ofEnd_append read w).symm (by simpa using hlast)]
    cases result <;> rfl
  | stuck h =>
    subst hplace hlast
    exact resume_stuck h

/-- The lexer answers what the grammar reads. -/
theorem lex_eq_iff_reads {text : List Char} {result : Except Flaw (List Lexeme)} :
    lex text = result ↔ Reads (.ofLast text) {} text result := by
  have found {r : Except Flaw (List Lexeme)} (h : Reads (.ofLast text) {} text r) :
      lex text = r :=
    lex_eq_iff_resume.mpr (Lexer.resume_of_reads h rfl rfl)
  constructor
  · intro h
    obtain ⟨r, hr⟩ := exists_reads (.ofLast text) {} text
    rwa [← h, found hr]
  · exact found

/-- Each lexeme of a reading was split off the text at its place. -/
theorem Lexeme.Reads.exists_splits {last place : Place} {text : List Char}
    {result : Except Flaw (List Lexeme)} (h : Reads last place text result)
    {lexemes : List Lexeme} (hresult : result = .ok lexemes) {l : Lexeme} (hl : l ∈ lexemes)
    {read : List Char} (hplace : place = Place.ofEnd read) :
    ∃ u w v, read ++ text = u ++ (w ++ v) ∧ l.span = ⟨Place.ofEnd u, byteLength w⟩ ∧
      Splits (w ++ v) l.shape w := by
  induction h generalizing lexemes read with
  | done place =>
    cases hresult
    simp at hl
  | @split place shape w rest result h _ ih =>
    subst hplace
    cases result with
    | error flaw => cases hresult
    | ok more =>
      cases hresult
      rcases List.mem_cons.mp hl with rfl | hl
      · exact ⟨read, w, rest, rfl, rfl, h⟩
      · rw [← List.append_assoc]
        exact ih rfl hl (Place.ofEnd_append read w).symm
  | stuck h => cases hresult

theorem exists_splits_of_mem_lex {text : List Char} {lexemes : List Lexeme}
    (h : lex text = .ok lexemes) {l : Lexeme} (hl : l ∈ lexemes) :
    ∃ u w v, text = u ++ (w ++ v) ∧ l.span = ⟨Place.ofEnd u, byteLength w⟩ ∧
      Splits (w ++ v) l.shape w :=
  (lex_eq_iff_reads.mp h).exists_splits rfl hl Place.ofEnd_nil.symm

/-- **Tokens are the lexemes of the grammar**, and a source is refused exactly where the grammar is
stuck. A token is a lexeme's kind and its span, which starts where the lexemes before it end and is
as long as its characters; a fault is the one of the flaw in which the reading ends. -/
theorem tokenize_iff_reads (source : String) :
    (∀ tokens, tokenize source = .ok tokens ↔
      ∃ lexemes, Reads (.ofLast source.toList) {} source.toList (.ok lexemes) ∧
        tokens = lexemes.map Lexeme.token) ∧
    (∀ fault, tokenize source = .error fault ↔
      ∃ flaw, Reads (.ofLast source.toList) {} source.toList (.error flaw) ∧
        fault = flaw.fault source.toList) := by
  simp only [← lex_eq_iff_reads]
  exact ⟨fun _ => tokenize_eq_ok_iff, fun _ => tokenize_eq_error_iff⟩

end Bracketry
