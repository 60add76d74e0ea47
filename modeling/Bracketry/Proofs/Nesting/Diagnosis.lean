import Bracketry.Proofs.Nesting.Building
import Bracketry.Proofs.Nesting.Matching

/-!
# What a text is refused for

Which fault a text is refused with, read off the word of its brackets (`Diagnosis`). A word that is
viable but not well matched ends too early. Any other word that is not well matched has a first
bracket behind which it is not viable (`Breaks`), and the openers unmatched before that bracket say
whether it closes nothing or the wrong list.

There is at most one cause that fits a word (`Diagnosis.unique`), and the builder reports one that
does (`diagnosis_of_build`). So what is reported is known from the word alone, whatever is kept
(`parse_iff_diagnosis`). Nothing is said here of messages.
-/

namespace Bracketry

open Text

/-! ## The brackets of a text -/

/-- The bracket that a token is, with its character as it stands in the source. -/
def Token.delimiter? (source : List Char) (t : Token) : Option Delimiter :=
  if t.kind.isDelimiter then
    ((t.lexeme? source).bind (·.head?)).map (⟨t.span.start, ·⟩)
  else none

/-- The brackets of a source, from its tokens. -/
def delimiters (source : List Char) (tokens : List Token) : List Delimiter :=
  tokens.filterMap (Token.delimiter? source)

/-- The bracket that a lexeme is. -/
def Lexeme.delimiter? (l : Lexeme) : Option Delimiter :=
  match l.shape with
  | .opener b => some ⟨l.span.start, b.opener⟩
  | .closer b => some ⟨l.span.start, b.closer⟩
  | _ => none

namespace Lexeme

variable {l : Lexeme} {b : Bracket}

theorem delimiter?_plain (h : l.shape.kind.isDelimiter = false) : l.delimiter? = none := by
  cases hs : l.shape <;> simp_all [delimiter?, Shape.kind, Token.Kind.isDelimiter]

theorem delimiter?_opener (h : l.shape = .opener b) :
    l.delimiter? = some ⟨l.span.start, b.opener⟩ := by
  simp only [delimiter?, h]

theorem delimiter?_closer (h : l.shape = .closer b) :
    l.delimiter? = some ⟨l.span.start, b.closer⟩ := by
  simp only [delimiter?, h]

theorem Faithful.delimiter?_token {source : List Char} (h : l.Faithful source) :
    l.token.delimiter? source = l.delimiter? := by
  cases hs : l.shape with
  | opener b =>
    obtain ⟨kind, text⟩ := (h.opens_iff b).mpr hs
    rw [delimiter?_opener hs, Token.delimiter?, kind, text]
    rfl
  | closer b =>
    obtain ⟨kind, text⟩ := (h.closes_iff b).mpr hs
    rw [delimiter?_closer hs, Token.delimiter?, kind, text]
    rfl
  | _ =>
    have plain : l.shape.kind.isDelimiter = false := by rw [hs]; rfl
    rw [delimiter?_plain plain, Token.delimiter?, Lexeme.token, plain]
    rfl

end Lexeme

theorem delimiters_of_lex {text : List Char} {lexemes : List Lexeme}
    (h : lex text = .ok lexemes) :
    delimiters text (lexemes.map Lexeme.token) = lexemes.filterMap Lexeme.delimiter? := by
  rw [delimiters, List.filterMap_map]
  exact List.filterMap_congr fun l hl => (faithful_of_mem_lex h hl).delimiter?_token

/-! ## Causes -/

/-- A bracket is the first behind which a word is not viable. -/
structure Breaks (D before : List Delimiter) (d : Delimiter) : Prop where
  split : ∃ after, D = before ++ d :: after
  viable : Viable (Delimiter.word before)
  notViable : ¬ Viable (Delimiter.word (before ++ [d]))

/-- The cause that fits the brackets of a text that are not well matched. -/
inductive Diagnosis (D : List Delimiter) : Fault.Cause → Prop
  /-- The text ends while openers wait: the last one is reported, and how many there are. -/
  | unclosed {o : Delimiter} {outer : List Delimiter} (viable : Viable (Delimiter.word D))
    (notMatched : ¬ WellMatched (Delimiter.word D)) (unmatched : Unmatched D (o :: outer)) :
    Diagnosis D (.unclosed o.place (o :: outer).length)
  /-- A bracket is refused where no opener waits. -/
  | stray {before : List Delimiter} {d : Delimiter} (breaks : Breaks D before d)
    (unmatched : Unmatched before []) : Diagnosis D (.strayCloser d.place (some 0))
  /-- A bracket is refused where the last opener that waits has another closer. -/
  | mismatch {before outer : List Delimiter} {o d : Delimiter} {b : Bracket}
    (breaks : Breaks D before d) (unmatched : Unmatched before (o :: outer))
    (opener : o.mark = b.opener) (ne : d.mark ≠ b.closer) :
    Diagnosis D (.mismatch o.place d.place b.closer d.mark ((o :: outer).length - 1))

namespace Breaks

variable {D before before' after : List Delimiter} {d d' : Delimiter}

theorem not_viable_append (h : Breaks D before d) (after : List Delimiter) :
    ¬ Viable (Delimiter.word (before ++ d :: after)) := by
  intro viable
  rw [List.append_cons, Delimiter.word, List.map_append] at viable
  exact h.notViable viable.of_append

theorem not_viable (h : Breaks D before d) : ¬ Viable (Delimiter.word D) := by
  obtain ⟨after, rfl⟩ := h.split
  exact h.not_viable_append after

/-- A word breaks once: all that is before a break is viable. -/
theorem unique (h : Breaks D before d) (h' : Breaks D before' d') :
    before = before' ∧ d = d' := by
  obtain ⟨after, split⟩ := h.split
  obtain ⟨after', split'⟩ := h'.split
  rcases List.append_eq_append_iff.mp (split.symm.trans split') with
    ⟨between, longer, rest⟩ | ⟨between, longer, rest⟩
  · cases between with
    | nil =>
      rw [List.append_nil] at longer
      exact ⟨longer.symm, (List.cons.inj rest).1⟩
    | cons x between =>
      obtain ⟨rfl, -⟩ := List.cons.inj rest
      exact absurd (longer ▸ h'.viable) (h.not_viable_append between)
  · cases between with
    | nil =>
      rw [List.append_nil] at longer
      exact ⟨longer, (List.cons.inj rest).1.symm⟩
    | cons x between =>
      obtain ⟨rfl, -⟩ := List.cons.inj rest
      exact absurd (longer ▸ h.viable) (h'.not_viable_append between)

end Breaks

namespace Diagnosis

variable {D : List Delimiter} {cause cause' : Fault.Cause}

theorem not_wellMatched (h : Diagnosis D cause) : ¬ WellMatched (Delimiter.word D) := by
  cases h with
  | unclosed _ notMatched _ => exact notMatched
  | stray breaks _ => exact fun matched => breaks.not_viable matched.viable
  | mismatch breaks _ _ _ => exact fun matched => breaks.not_viable matched.viable

/-- The cause is of the class of texts that end too early just if the word is viable. -/
theorem code_eq_unclosed_iff (h : Diagnosis D cause) :
    cause.code = .unclosed ↔ Viable (Delimiter.word D) := by
  cases h with
  | unclosed viable _ _ => exact iff_of_true rfl viable
  | stray breaks _ => exact iff_of_false nofun breaks.not_viable
  | mismatch breaks _ _ _ => exact iff_of_false nofun breaks.not_viable

/-- One cause fits. -/
theorem unique (h : Diagnosis D cause) (h' : Diagnosis D cause') : cause = cause' := by
  cases h with
  | unclosed viable _ unmatched =>
    cases h' with
    | unclosed _ _ unmatched' =>
      obtain ⟨rfl, rfl⟩ := List.cons.inj (unmatched.unique unmatched')
      rfl
    | stray breaks _ => exact absurd viable breaks.not_viable
    | mismatch breaks _ _ _ => exact absurd viable breaks.not_viable
  | stray breaks unmatched =>
    cases h' with
    | unclosed viable _ _ => exact absurd viable breaks.not_viable
    | stray breaks' _ =>
      obtain ⟨rfl, rfl⟩ := breaks.unique breaks'
      rfl
    | mismatch breaks' unmatched' _ _ =>
      obtain ⟨rfl, rfl⟩ := breaks.unique breaks'
      exact absurd (unmatched.unique unmatched') (List.cons_ne_nil _ _).symm
  | mismatch breaks unmatched opener _ =>
    cases h' with
    | unclosed viable _ _ => exact absurd viable breaks.not_viable
    | stray breaks' unmatched' =>
      obtain ⟨rfl, rfl⟩ := breaks.unique breaks'
      exact absurd (unmatched.unique unmatched') (List.cons_ne_nil _ _)
    | mismatch breaks' unmatched' opener' _ =>
      obtain ⟨rfl, rfl⟩ := breaks.unique breaks'
      obtain ⟨rfl, rfl⟩ := List.cons.inj (unmatched.unique unmatched')
      obtain rfl := Bracket.opener_injective (opener.symm.trans opener')
      rfl

end Diagnosis

/-! ## What the builder reports -/

theorem Groups.wellMatched {ls : List Lexeme} {f : Forest} (h : Groups ls f) :
    WellMatched (Delimiter.word (ls.filterMap Lexeme.delimiter?)) := by
  induction h with
  | nil => exact .nil
  | leaf plain _ ih => rwa [List.filterMap_cons_none (Lexeme.delimiter?_plain plain)]
  | list hopener hcloser _ _ ihg ihf =>
    rw [List.filterMap_cons_some (Lexeme.delimiter?_opener hopener), List.filterMap_append,
      List.filterMap_cons_some (Lexeme.delimiter?_closer hcloser), Delimiter.word, List.map_cons,
      List.map_append, List.map_cons]
    exact .enclose _ ihg ihf

namespace Builder

/-- The opener of an open list, as it stands in the text. -/
def Opening.delimiter (o : Opening) : Delimiter := ⟨o.place, o.bracket.opener⟩

/-- The open lists are those of the unmatched openers. -/
theorem Holding.unmatched {keep : Keep} {ls : List Lexeme} {c : Content} {around : List Opening}
    (h : Holding keep ls c around) :
    Unmatched (ls.filterMap Lexeme.delimiter?) (around.map Opening.delimiter) := by
  induction h with
  | top hf => exact .nil hf.wellMatched
  | inner _ hopener hf ih =>
    rw [List.filterMap_append, List.filterMap_cons_some (Lexeme.delimiter?_opener hopener)]
    exact .opener _ ih rfl hf.wellMatched

/-- A lexeme that is refused breaks the word, and the flaw is the cause that fits. -/
theorem Holds.diagnosis {b : Builder} {before after : List Lexeme} {l : Lexeme} {flaw : Flaw}
    (h : b.Holds before) (hl : b.add l = .error flaw) :
    Diagnosis ((before ++ l :: after).filterMap Lexeme.delimiter?) flaw.cause := by
  obtain ⟨bracket, shape, reason⟩ := add_error_cases hl
  have split : (before ++ l :: after).filterMap Lexeme.delimiter? =
      before.filterMap Lexeme.delimiter? ++ ⟨l.span.start, bracket.closer⟩ ::
        after.filterMap Lexeme.delimiter? := by
    rw [List.filterMap_append, List.filterMap_cons_some (Lexeme.delimiter?_closer shape)]
  have unmatched := Holding.unmatched h
  rcases reason with ⟨around, rfl⟩ | ⟨o, rest, around, ne, rfl⟩
  · rw [around, List.map_nil] at unmatched
    exact .stray ⟨⟨_, split⟩, unmatched.viable, unmatched.not_viable_closer rfl⟩ unmatched
  · rw [around, List.map_cons] at unmatched
    have breaks := Breaks.mk ⟨_, split⟩ unmatched.viable
      (unmatched.not_viable_closer_ne rfl rfl ne)
    have other : bracket.closer ≠ o.bracket.closer :=
      fun h => ne (Bracket.closer_injective h).symm
    have diagnosis := Diagnosis.mismatch breaks unmatched rfl other
    rw [List.length_cons, List.length_map] at diagnosis
    exact diagnosis

end Builder

/-- Lexemes that are refused are refused for the cause that fits their brackets. -/
theorem diagnosis_of_build {keep : Keep} {last : Place} {ls : List Lexeme} {flaw : Flaw}
    (h : build keep last ls = .error flaw) :
    Diagnosis (ls.filterMap Lexeme.delimiter?) flaw.cause := by
  rw [build] at h
  obtain ⟨b, ⟨run, held⟩ | ⟨before, l, after, flaw', rfl, run, held, hl⟩⟩ :=
    (Builder.holds_nil keep).addAll ls
  · rw [run] at h
    rw [List.nil_append] at held
    rcases around : b.around with _ | ⟨o, rest⟩
    · simp only [Builder.finish, around] at h
      cases h
    · simp only [Builder.finish, around] at h
      cases h
      have unmatched := Builder.Holding.unmatched held
      rw [around, List.map_cons] at unmatched
      have diagnosis := Diagnosis.unclosed unmatched.viable unmatched.not_wellMatched unmatched
      rw [List.length_cons, List.length_map] at diagnosis
      exact diagnosis
  · rw [run] at h
    cases h
    exact held.diagnosis hl

/-! ## Whole sources -/

variable {source : String} {tokens : List Token}

/-- A source that is not read as tokens is refused as it is there. -/
theorem parse_of_tokenize_error (keep : Keep) {fault : Fault} (h : tokenize source = .error fault) :
    parse source keep = .error fault := by
  obtain ⟨flaw, hlex, rfl⟩ := tokenize_eq_error_iff.mp h
  exact parse_eq_error_iff.mpr ⟨flaw, rfl, .inl hlex⟩

/-- A source that is read as tokens has well matched brackets if it is accepted, and else is refused
for the cause that fits them. -/
theorem parse_fits (keep : Keep) (h : tokenize source = .ok tokens) :
    (∃ f, parse source keep = .ok f ∧
      WellMatched (Delimiter.word (delimiters source.toList tokens))) ∨
    ∃ fault, parse source keep = .error fault ∧
      Diagnosis (delimiters source.toList tokens) fault.cause := by
  obtain ⟨lexemes, hlex, rfl⟩ := tokenize_eq_ok_iff.mp h
  rw [delimiters_of_lex hlex]
  cases hbuild : build keep (.ofLast source.toList) lexemes with
  | ok branch =>
    obtain ⟨f, hf, -⟩ := build_sound hbuild
    have accepted := parse_eq_ok_iff.mpr ⟨lexemes, branch, hlex, hbuild, rfl⟩
    exact .inl ⟨_, accepted, hf.wellMatched⟩
  | error flaw =>
    have refused := parse_eq_error_iff.mpr ⟨flaw, rfl, .inr ⟨lexemes, hlex, hbuild⟩⟩
    exact .inr ⟨_, refused, diagnosis_of_build hbuild⟩

/-- **A source is refused for what its brackets say.** If it is read as tokens at all, it is accepted
just if they are well matched, it ends too early just if they could still be continued, and it has
each cause of a refusal just if that fits them. -/
theorem parse_iff_diagnosis (source : String) (keep : Keep) :
    (∀ fault, tokenize source = .error fault → parse source keep = .error fault) ∧
    (∀ tokens, tokenize source = .ok tokens →
      ((∃ f, parse source keep = .ok f) ↔
        WellMatched (Delimiter.word (delimiters source.toList tokens))) ∧
      ((∃ fault, parse source keep = .error fault ∧ fault.cause.code = .unclosed) ↔
        Viable (Delimiter.word (delimiters source.toList tokens)) ∧
        ¬ WellMatched (Delimiter.word (delimiters source.toList tokens))) ∧
      (∀ cause, (∃ message, parse source keep = .error ⟨cause, message⟩) ↔
        Diagnosis (delimiters source.toList tokens) cause)) := by
  refine ⟨fun fault h => parse_of_tokenize_error keep h, fun tokens h => ?_⟩
  rcases parse_fits keep h with ⟨f, accepted, matched⟩ | ⟨fault, refused, diagnosis⟩
  · refine ⟨iff_of_true ⟨f, accepted⟩ matched, iff_of_false ?_ (fun h => h.2 matched),
      fun cause => iff_of_false ?_ (fun h => h.not_wellMatched matched)⟩
    · rintro ⟨fault, refused, -⟩
      rw [accepted] at refused
      cases refused
    · rintro ⟨message, refused⟩
      rw [accepted] at refused
      cases refused
  · refine ⟨iff_of_false ?_ diagnosis.not_wellMatched, ⟨?_, ?_⟩, fun cause => ⟨?_, ?_⟩⟩
    · rintro ⟨f, accepted⟩
      rw [refused] at accepted
      cases accepted
    · rintro ⟨fault', refused', code⟩
      rw [refused] at refused'
      cases refused'
      exact ⟨diagnosis.code_eq_unclosed_iff.mp code, diagnosis.not_wellMatched⟩
    · rintro ⟨viable, -⟩
      exact ⟨fault, refused, diagnosis.code_eq_unclosed_iff.mpr viable⟩
    · rintro ⟨message, refused'⟩
      rw [refused] at refused'
      cases refused'
      exact diagnosis
    · intro diagnosis'
      rw [diagnosis'.unique diagnosis]
      exact ⟨fault.message, refused⟩

/-- A closer of the wrong family, two lists deep, and a source that is not read as tokens. -/
theorem parse_iff_diagnosis_mismatch :
    (∃ tokens, tokenize "([a)" = .ok tokens ∧
      ∃ message, parse "([a)" = .error
        ⟨.mismatch ⟨⟨0, 1⟩, 1⟩ ⟨⟨0, 3⟩, 3⟩ ']' ')' 1, message⟩) ∧
    ∃ fault, tokenize "(|#" = .error fault ∧ parse "(|#" = .error fault := by
  have htokens : tokenize "([a)" = .ok
      [⟨.opener, ⟨⟨0, 0⟩, 0⟩, 1⟩, ⟨.opener, ⟨⟨0, 1⟩, 1⟩, 1⟩, ⟨.word, ⟨⟨0, 2⟩, 2⟩, 1⟩,
        ⟨.closer, ⟨⟨0, 3⟩, 3⟩, 1⟩] := by
    decide
  have hdelimiters : delimiters "([a)".toList
      [⟨.opener, ⟨⟨0, 0⟩, 0⟩, 1⟩, ⟨.opener, ⟨⟨0, 1⟩, 1⟩, 1⟩, ⟨.word, ⟨⟨0, 2⟩, 2⟩, 1⟩,
        ⟨.closer, ⟨⟨0, 3⟩, 3⟩, 1⟩] =
      [⟨⟨⟨0, 0⟩, 0⟩, '('⟩, ⟨⟨⟨0, 1⟩, 1⟩, '['⟩, ⟨⟨⟨0, 3⟩, 3⟩, ')'⟩] := by
    decide
  have round : Unmatched [⟨⟨⟨0, 0⟩, 0⟩, '('⟩] [⟨⟨⟨0, 0⟩, 0⟩, '('⟩] :=
    .opener (D := []) (E := []) .round (.nil .nil) rfl .nil
  have square : Unmatched [⟨⟨⟨0, 0⟩, 0⟩, '('⟩, ⟨⟨⟨0, 1⟩, 1⟩, '['⟩]
      [⟨⟨⟨0, 1⟩, 1⟩, '['⟩, ⟨⟨⟨0, 0⟩, 0⟩, '('⟩] :=
    .opener (E := []) .square round rfl .nil
  have diagnosis : Diagnosis [⟨⟨⟨0, 0⟩, 0⟩, '('⟩, ⟨⟨⟨0, 1⟩, 1⟩, '['⟩, ⟨⟨⟨0, 3⟩, 3⟩, ')'⟩]
      (.mismatch ⟨⟨0, 1⟩, 1⟩ ⟨⟨0, 3⟩, 3⟩ ']' ')' 1) :=
    .mismatch ⟨⟨[], rfl⟩, square.viable,
      square.not_viable_closer_ne (b := .square) (c := .round) rfl rfl nofun⟩
      square (b := .square) rfl (by decide)
  rw [← hdelimiters] at diagnosis
  have hfault : tokenize "(|#" = .error
      ((Flaw.strayCommentEnd ⟨⟨0, 1⟩, 1⟩).fault "(|#".toList) := rfl
  exact ⟨⟨_, htokens, (((parse_iff_diagnosis "([a)" {}).2 _ htokens).2.2 _).mpr diagnosis⟩,
    _, hfault, (parse_iff_diagnosis "(|#" {}).1 _ hfault⟩

end Bracketry
