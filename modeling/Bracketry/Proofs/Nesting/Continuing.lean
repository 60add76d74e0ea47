import Bracketry.Proofs.Lexing.Continuing
import Bracketry.Proofs.Nesting.Diagnosis

/-!
# What a refusal says of longer sources

Of the ways to be refused, some are final and some say what is missing, and both are statements
about every source that begins with the one refused.

A closer that closes nothing or the wrong list is final: the brackets of a source stay when it goes
on (`delimiters_isStart`), so what broke the word of its brackets breaks every longer one
(`Diagnosis.append`), and the same cause is reported (`refusal_permanent`).

The end of a text inside comments, a string or lists is mended by exactly what the fault counts or
names (`deficits_exact`). For lists the count alone does not say which closers are missing; they are
those of the unmatched openers from the last one on (`Unmatched.append_closers`,
`Unmatched.eq_of_wellMatched`).
-/

namespace Bracketry

open Text Lexeme

/-! ## Closers behind a word of brackets -/

section closers

variable {D E openers : List Delimiter} {bs cs : List Bracket}

/-- The stack of openers is emptied by their own closers only. -/
theorem Delimiter.eq_of_settle_closers
    (hopeners : openers.map Delimiter.mark = bs.map Bracket.opener)
    (hE : word E = cs.map Bracket.closer) (settled : E.foldlM settle openers = some []) :
    cs = bs := by
  induction cs generalizing E openers bs with
  | nil =>
    obtain rfl : E = [] := List.map_eq_nil_iff.mp hE
    obtain rfl : openers = [] := Option.some.inj settled
    exact (List.map_eq_nil_iff.mp hopeners.symm).symm
  | cons c cs ih =>
    obtain ⟨d, E, rfl, hd, hE⟩ := List.map_eq_cons_iff.mp hE
    rw [List.foldlM_cons, Option.bind_eq_bind] at settled
    cases openers with
    | nil =>
      rw [settle_closer_nil hd] at settled
      cases settled
    | cons o openers =>
      obtain ⟨b, bs, rfl, ho, hopeners⟩ := List.map_eq_cons_iff.mp hopeners.symm
      rw [settle_closer ho.symm hd] at settled
      by_cases same : c = b
      · rw [if_pos same, Option.bind_some] at settled
        rw [same, ih hopeners.symm hE settled]
      · rw [if_neg same] at settled
        cases settled

namespace Unmatched

/-- Closers of the unmatched openers, from the last one on, leave none unmatched. -/
theorem append_closers (h : Unmatched D openers)
    (hopeners : openers.map Delimiter.mark = bs.map Bracket.opener)
    (hE : Delimiter.word E = bs.map Bracket.closer) : Unmatched (D ++ E) [] := by
  induction bs generalizing D E openers with
  | nil =>
    obtain rfl : openers = [] := List.map_eq_nil_iff.mp hopeners
    obtain rfl : E = [] := List.map_eq_nil_iff.mp hE
    rwa [List.append_nil]
  | cons b bs ih =>
    obtain ⟨o, openers, rfl, ho, hopeners⟩ := List.map_eq_cons_iff.mp hopeners
    obtain ⟨d, E, rfl, hd, hE⟩ := List.map_eq_cons_iff.mp hE
    obtain ⟨c, hc, close⟩ := h.exists_close
    obtain rfl : b = c := Bracket.opener_injective (ho.symm.trans hc)
    rw [List.append_cons]
    exact ih (close d hd) hopeners hE

/-- No other closers do. -/
theorem eq_of_wellMatched (h : Unmatched D openers)
    (hopeners : openers.map Delimiter.mark = bs.map Bracket.opener)
    (hE : Delimiter.word E = cs.map Bracket.closer)
    (matched : WellMatched (Delimiter.word (D ++ E))) : cs = bs := by
  have settled := Delimiter.settle_wellMatched matched []
  rw [List.foldlM_append, Delimiter.settle_unmatched h] at settled
  exact Delimiter.eq_of_settle_closers hopeners hE settled

/-- The closers that make a word well matched are those of its unmatched openers. -/
theorem wellMatched_append_iff (h : Unmatched D openers)
    (hopeners : openers.map Delimiter.mark = bs.map Bracket.opener)
    (hE : Delimiter.word E = cs.map Bracket.closer) :
    WellMatched (Delimiter.word (D ++ E)) ↔ cs = bs := by
  refine ⟨h.eq_of_wellMatched hopeners hE, ?_⟩
  rintro rfl
  exact nil_iff.mp (h.append_closers hopeners hE)

end Unmatched

end closers

/-! ## The brackets of a source that goes on -/

theorem Lexeme.filterMap_delimiter?_plain {ls : List Lexeme}
    (h : ∀ l ∈ ls, l.shape.kind.isDelimiter = false) : ls.filterMap Lexeme.delimiter? = [] :=
  List.filterMap_eq_nil_iff.mpr fun l hl => delimiter?_plain (h l hl)

theorem Lexeme.word_closers {ls : List Lexeme} {bs : List Bracket}
    (h : ls.map Lexeme.shape = bs.map Shape.closer) :
    Delimiter.word (ls.filterMap Lexeme.delimiter?) = bs.map Bracket.closer := by
  induction bs generalizing ls with
  | nil =>
    obtain rfl : ls = [] := List.map_eq_nil_iff.mp h
    rfl
  | cons b bs ih =>
    obtain ⟨l, ls, rfl, hl, hls⟩ := List.map_eq_cons_iff.mp h
    rw [List.filterMap_cons_some (delimiter?_closer hl), Delimiter.word, List.map_cons,
      List.map_cons]
    exact congrArg _ (ih hls)

/-- When a text goes on, its brackets stay. -/
theorem delimiters_isStart {text more : List Char} {lexemes lexemes' : List Lexeme}
    (h : lex text = .ok lexemes) (h' : lex (text ++ more) = .ok lexemes') :
    lexemes.filterMap Lexeme.delimiter? <+: lexemes'.filterMap Lexeme.delimiter? := by
  obtain ⟨done, tail, rfl, plain, stays⟩ := exists_settled h
  rw [List.filterMap_append, filterMap_delimiter?_plain plain, List.append_nil]
  exact (stays more lexemes' h').filterMap _

/-- Closers on a line of their own are the only brackets that they add to a text. -/
theorem exists_delimiters_append_closers {text : List Char} {lexemes : List Lexeme}
    (h : lex text = .ok lexemes) (bs : List Bracket) :
    ∃ lexemes' E, lex (text ++ '\n' :: bs.map Bracket.closer) = .ok lexemes' ∧
      lexemes'.filterMap Lexeme.delimiter? = lexemes.filterMap Lexeme.delimiter? ++ E ∧
      Delimiter.word E = bs.map Bracket.closer := by
  obtain ⟨done, tail, tail', closers, rfl, hlex, plain, shapes⟩ := exists_lex_append_closers h bs
  refine ⟨_, _, hlex, ?_, word_closers shapes⟩
  have noTail := filterMap_delimiter?_plain fun l hl => plain l (List.mem_append_left tail' hl)
  have noTail' := filterMap_delimiter?_plain fun l hl => plain l (List.mem_append_right tail hl)
  rw [List.filterMap_append, List.filterMap_append, List.filterMap_append, noTail, noTail',
    List.append_nil, List.nil_append]

/-! ## Final refusals -/

theorem Breaks.append {D before : List Delimiter} {d : Delimiter} (h : Breaks D before d)
    (E : List Delimiter) : Breaks (D ++ E) before d where
  split := by
    obtain ⟨after, rfl⟩ := h.split
    exact ⟨after ++ E, by rw [List.append_assoc, List.cons_append]⟩
  viable := h.viable
  notViable := h.notViable

/-- A cause that is not about the end of a text fits every longer word of brackets. -/
theorem Diagnosis.append {D : List Delimiter} {cause : Fault.Cause} (h : Diagnosis D cause)
    (notEnd : cause.code ≠ .unclosed) (E : List Delimiter) : Diagnosis (D ++ E) cause := by
  cases h with
  | unclosed _ _ _ => exact absurd rfl notEnd
  | stray breaks unmatched => exact .stray (breaks.append E) unmatched
  | mismatch breaks unmatched opener ne => exact .mismatch (breaks.append E) unmatched opener ne

/-- A source whose brackets are refused is refused for the same cause however it goes on. -/
theorem parse_append_of_refused {p q : String} {keep : Keep} {tokens tokens' : List Token}
    {fault : Fault} (htokens : tokenize p = .ok tokens) (hparse : parse p keep = .error fault)
    (notEnd : fault.cause.code ≠ .unclosed) (htokens' : tokenize (p ++ q) = .ok tokens') :
    ∃ fault', parse (p ++ q) keep = .error fault' ∧ fault'.cause = fault.cause := by
  have diagnosis : Diagnosis (delimiters p.toList tokens) fault.cause := by
    rcases parse_fits keep htokens with ⟨f, accepted, -⟩ | ⟨fault', refused, diagnosis⟩
    · rw [accepted] at hparse
      cases hparse
    · rw [refused] at hparse
      cases hparse
      exact diagnosis
  have longer : Diagnosis (delimiters (p ++ q).toList tokens') fault.cause := by
    obtain ⟨lexemes, hlex, rfl⟩ := tokenize_eq_ok_iff.mp htokens
    obtain ⟨lexemes', hlex', rfl⟩ := tokenize_eq_ok_iff.mp htokens'
    rw [delimiters_of_lex hlex] at diagnosis
    rw [delimiters_of_lex hlex']
    rw [String.toList_append] at hlex'
    obtain ⟨E, hE⟩ := delimiters_isStart hlex hlex'
    rw [← hE]
    exact diagnosis.append notEnd E
  rcases parse_fits keep htokens' with ⟨f, -, matched⟩ | ⟨fault', refused, diagnosis'⟩
  · exact absurd matched longer.not_wellMatched
  · exact ⟨fault', refused, diagnosis'.unique longer⟩

/-- **Refusals that are not about the end of a source are final.** An end of comment that closes
nothing is refused at the same place however the source goes on. A closer that closes nothing or the
wrong list makes every longer source be refused, and for the same cause if it is read as tokens at
all; only the excerpt in the message may differ. -/
theorem refusal_permanent (p q : String) (keep : Keep) :
    (∀ place level message, tokenize p = .error ⟨.strayCloser place level, message⟩ →
      ∃ message', tokenize (p ++ q) = .error ⟨.strayCloser place level, message'⟩) ∧
    (∀ tokens fault, tokenize p = .ok tokens → parse p keep = .error fault →
      fault.cause.code = .strayCloser ∨ fault.cause.code = .mismatch →
      (∃ fault', parse (p ++ q) keep = .error fault') ∧
      ∀ tokens', tokenize (p ++ q) = .ok tokens' →
        ∃ message', parse (p ++ q) keep = .error ⟨fault.cause, message'⟩) := by
  constructor
  · intro place level message h
    obtain ⟨flaw, hlex, hfault⟩ := tokenize_eq_error_iff.mp h
    obtain ⟨cause, -⟩ := Fault.mk.inj hfault
    rcases flaw_of_lex hlex with ⟨stray, rfl⟩ | ⟨_, _, _, rfl⟩ | ⟨_, _, _, rfl⟩
    · cases cause
      have longer := lex_append_of_strayCommentEnd hlex q.toList
      rw [← String.toList_append] at longer
      exact ⟨_, tokenize_eq_error_iff.mpr ⟨_, longer, rfl⟩⟩
    · cases cause
    · cases cause
  · intro tokens fault htokens hparse code
    have notEnd : fault.cause.code ≠ .unclosed := by
      rcases code with code | code <;> simp [code]
    have same {tokens' : List Token} (htokens' : tokenize (p ++ q) = .ok tokens') :
        ∃ message', parse (p ++ q) keep = .error ⟨fault.cause, message'⟩ := by
      obtain ⟨⟨cause, message⟩, refused, rfl⟩ :=
        parse_append_of_refused htokens hparse notEnd htokens'
      exact ⟨message, refused⟩
    refine ⟨?_, fun tokens' htokens' => same htokens'⟩
    cases htokens' : tokenize (p ++ q) with
    | error fault' => exact ⟨fault', parse_of_tokenize_error keep htokens'⟩
    | ok tokens' =>
      obtain ⟨message', refused⟩ := same htokens'
      exact ⟨_, refused⟩

/-- An end of comment with another one behind it, and a list closed by the wrong bracket, with a
line comment behind it that takes in what follows. -/
theorem refusal_permanent_line :
    (∃ message, tokenize "a |#" = .error ⟨.strayCloser ⟨⟨0, 2⟩, 2⟩ none, message⟩) ∧
    (∃ message', tokenize ("a |#" ++ "|#") =
      .error ⟨.strayCloser ⟨⟨0, 2⟩, 2⟩ none, message'⟩) ∧
    (∃ tokens fault, tokenize "(];" = .ok tokens ∧ parse "(];" = .error fault ∧
      fault.cause = .mismatch ⟨⟨0, 0⟩, 0⟩ ⟨⟨0, 1⟩, 1⟩ ')' ']' 0 ∧
      ∃ message', parse ("(];" ++ ")\n(") = .error ⟨fault.cause, message'⟩) := by
  have stray : tokenize "a |#" =
      .error ((Flaw.strayCommentEnd ⟨⟨0, 2⟩, 2⟩).fault "a |#".toList) := rfl
  have tokens : tokenize "(];" = .ok
      [⟨.opener, ⟨⟨0, 0⟩, 0⟩, 1⟩, ⟨.closer, ⟨⟨0, 1⟩, 1⟩, 1⟩, ⟨.lineComment, ⟨⟨0, 2⟩, 2⟩, 1⟩] := by
    decide
  have mismatch : parse "(];" =
      .error ((Flaw.mismatch ⟨⟨0, 0⟩, 0⟩ ⟨⟨0, 1⟩, 1⟩ .round .square 0).fault "(];".toList) := rfl
  have longer : ∃ tokens', tokenize ("(];" ++ ")\n(") = .ok tokens' := ⟨_, rfl⟩
  obtain ⟨tokens', htokens'⟩ := longer
  exact ⟨⟨_, stray⟩, (refusal_permanent "a |#" "|#" {}).1 _ _ _ stray, _, _, tokens, mismatch, rfl,
    ((refusal_permanent "(];" ")\n(" {}).2 _ _ tokens mismatch (.inr rfl)).2 _ htokens'⟩

/-! ## What is missing at the end -/

/-- What a message says of the closer that is missing first. -/
def Bracket.expected (b : Bracket) : String :=
  "unclosed delimiter: expected `" ++ String.singleton b.closer ++ "` before end of input"

/-- A message ends in the label of the lower mark. -/
theorem Excerpt.exists_render_eq (e : Excerpt) (source : List Char) :
    ∃ before, e.render source = before ++ e.closing.label := by
  have above : e.headline :: (e.opening.map (e.markRow "v")).toList ++
      e.rows.map (e.sourceRow (lines source)) ≠ [] := by simp
  unfold render layout
  rw [String.intercalate_append_of_ne_nil above (by simp), String.intercalate_singleton, markRow,
    ← String.append_assoc]
  exact ⟨_, rfl⟩

theorem Flaw.exists_message_unclosed (opener last : Place) (b : Bracket) (level : Nat)
    (source : List Char) : ∃ before,
      ((Flaw.unclosed opener last b level).fault source).message = before ++ b.expected := by
  have label : (Flaw.unclosed opener last b level).excerpt.closing.label = b.expected := by
    cases b <;> rfl
  rw [← label]
  exact Excerpt.exists_render_eq _ source

/-- Lexemes that end inside lists end inside those of their unmatched openers, and the flaw names
the family of the last one. -/
theorem exists_unmatched_of_build {keep : Keep} {last : Place} {ls : List Lexeme} {flaw : Flaw}
    (h : build keep last ls = .error flaw) {opener : Place} {level : Nat}
    (cause : flaw.cause = .unclosed opener level) :
    ∃ openers b bs, Unmatched (ls.filterMap Lexeme.delimiter?) openers ∧
      openers.map Delimiter.mark = (b :: bs).map Bracket.opener ∧ openers.length = level ∧
      flaw = .unclosed opener last b level := by
  rw [build] at h
  obtain ⟨builder, ⟨run, held⟩ | ⟨before, l, after, flaw', -, run, -, hl⟩⟩ :=
    (Builder.holds_nil keep).addAll ls
  · rw [run] at h
    rw [List.nil_append] at held
    rcases around : builder.around with _ | ⟨o, rest⟩
    · simp only [Builder.finish, around] at h
      cases h
    · simp only [Builder.finish, around] at h
      cases h
      cases cause
      have unmatched := Builder.Holding.unmatched held
      rw [around] at unmatched
      refine ⟨_, o.bracket, rest.map (·.bracket), unmatched, ?_, by simp, rfl⟩
      simp [Builder.Opening.delimiter, Function.comp_def]
  · rw [run] at h
    cases h
    obtain ⟨bracket, -, ⟨-, rfl⟩ | ⟨o, rest, -, -, rfl⟩⟩ := Builder.add_error_cases hl
    · cases cause
    · cases cause

theorem exists_tokenize_iff {source : String} :
    (∃ tokens, tokenize source = .ok tokens) ↔ ∃ lexemes, lex source.toList = .ok lexemes := by
  simp only [tokenize_eq_ok_iff]
  constructor
  · rintro ⟨_, lexemes, hlex, -⟩
    exact ⟨lexemes, hlex⟩
  · rintro ⟨lexemes, hlex⟩
    exact ⟨_, lexemes, hlex, rfl⟩

theorem toList_commentEnds (k : Nat) :
    (String.join (List.replicate k "|#")).toList = commentEnds k := by
  induction k with
  | zero => rfl
  | succ k ih => rw [List.replicate_succ, String.join_cons, String.toList_append, ih]; rfl

/-- A source that is read as tokens is accepted if its brackets are well matched. -/
theorem exists_parse_iff {source : String} {lexemes : List Lexeme} (keep : Keep)
    (h : lex source.toList = .ok lexemes) :
    (∃ f, parse source keep = .ok f) ↔
      WellMatched (Delimiter.word (lexemes.filterMap Lexeme.delimiter?)) := by
  have htokens := tokenize_eq_ok_iff.mpr ⟨lexemes, h, rfl⟩
  rw [← delimiters_of_lex h]
  rcases parse_fits keep htokens with ⟨f, accepted, matched⟩ | ⟨fault, refused, diagnosis⟩
  · exact iff_of_true ⟨f, accepted⟩ matched
  · refine iff_of_false ?_ diagnosis.not_wellMatched
    rintro ⟨f, accepted⟩
    rw [refused] at accepted
    cases accepted

/-- A source that ends inside lists is mended by the closers of its unmatched openers and by no
others, and the message names the first of them. -/
theorem exists_closers_of_unclosed {p : String} {keep : Keep} {opener : Place} {level : Nat}
    {message : String} (h : parse p keep = .error ⟨.unclosed opener level, message⟩) :
    ∃ tokens openers b bs before, tokenize p = .ok tokens ∧
      Unmatched (delimiters p.toList tokens) openers ∧
      openers.map Delimiter.mark = (b :: bs).map Bracket.opener ∧ openers.length = level ∧
      message = before ++ b.expected ∧
      ∀ cs : List Bracket,
        (∃ f, parse (p ++ "\n" ++ String.ofList (cs.map Bracket.closer)) keep = .ok f) ↔
          cs = b :: bs := by
  obtain ⟨flaw, hfault, hlex | ⟨lexemes, hlex, hbuild⟩⟩ := parse_eq_error_iff.mp h
  · obtain ⟨cause, -⟩ := Fault.mk.inj hfault
    rcases flaw_of_lex hlex with ⟨_, rfl⟩ | ⟨_, _, _, rfl⟩ | ⟨_, _, _, rfl⟩ <;> cases cause
  · obtain ⟨cause, hmessage⟩ := Fault.mk.inj hfault
    obtain ⟨openers, b, bs, unmatched, marks, count, rfl⟩ :=
      exists_unmatched_of_build hbuild cause.symm
    obtain ⟨before, label⟩ :=
      Flaw.exists_message_unclosed opener (.ofLast p.toList) b level p.toList
    refine ⟨_, openers, b, bs, before, tokenize_eq_ok_iff.mpr ⟨lexemes, hlex, rfl⟩, ?_, marks,
      count, hmessage.trans label, fun cs => ?_⟩
    · rwa [delimiters_of_lex hlex]
    · obtain ⟨lexemes', E, hlex', brackets, hE⟩ := exists_delimiters_append_closers hlex cs
      have text : (p ++ "\n" ++ String.ofList (cs.map Bracket.closer)).toList =
          p.toList ++ '\n' :: cs.map Bracket.closer := by simp
      rw [← text] at hlex'
      rw [exists_parse_iff keep hlex', brackets]
      exact unmatched.wellMatched_append_iff marks hE

/-- A string of closers is that of a list of brackets. -/
theorem exists_map_closer {text : List Char} (h : ∀ x ∈ text, ∃ b : Bracket, x = b.closer) :
    ∃ cs : List Bracket, text = cs.map Bracket.closer := by
  induction text with
  | nil => exact ⟨[], rfl⟩
  | cons x text ih =>
    obtain ⟨b, rfl⟩ := h x List.mem_cons_self
    obtain ⟨cs, rfl⟩ := ih fun y hy => h y (List.mem_cons_of_mem _ hy)
    exact ⟨b :: cs, rfl⟩

/-- **What a refusal says is missing is exactly what is missing.** Behind a space, a text that ends
inside block comments is mended by as many ends of comments as its depth says; fewer lower the depth
by their number, and of more the first that is too many is refused. Behind a space, a text that ends
inside a string is mended by its quote. And on a line of their own, a text that ends inside lists is
mended by the closers of its unmatched openers, from the last one on, and by no other closers; there
are as many as its level says, and the message names the first. -/
theorem deficits_exact (p : String) (keep : Keep) :
    (∀ start depth message, tokenize p = .error ⟨.openComment start depth, message⟩ → ∀ k,
      ((∃ tokens, tokenize (p ++ " " ++ String.join (List.replicate k "|#")) = .ok tokens) ↔
        k = depth) ∧
      (k < depth → ∃ message', tokenize (p ++ " " ++ String.join (List.replicate k "|#")) =
        .error ⟨.openComment start (depth - k), message'⟩) ∧
      (depth < k → ∃ message', tokenize (p ++ " " ++ String.join (List.replicate k "|#")) =
        .error ⟨.strayCloser (.ofEnd (p ++ " " ++ String.join (List.replicate depth "|#")).toList)
          none, message'⟩)) ∧
    (∀ start quote message, tokenize p = .error ⟨.openString start quote, message⟩ →
      ∃ tokens, tokenize (p ++ " " ++ String.singleton quote) = .ok tokens) ∧
    (∀ opener level message, parse p keep = .error ⟨.unclosed opener level, message⟩ →
      ∃ tokens openers b bs before, tokenize p = .ok tokens ∧
        Unmatched (delimiters p.toList tokens) openers ∧
        openers.map Delimiter.mark = (b :: bs).map Bracket.opener ∧ openers.length = level ∧
        message = before ++ b.expected ∧
        ∀ c : String, (∀ x ∈ c.toList, ∃ b : Bracket, x = b.closer) →
          ((∃ f, parse (p ++ "\n" ++ c) keep = .ok f) ↔
            c.toList = (b :: bs).map Bracket.closer)) := by
  refine ⟨?_, ?_, ?_⟩
  · intro start depth message h k
    obtain ⟨flaw, hlex, hfault⟩ := tokenize_eq_error_iff.mp h
    obtain ⟨cause, -⟩ := Fault.mk.inj hfault
    have text (j : Nat) : (p ++ " " ++ String.join (List.replicate j "|#")).toList =
        p.toList ++ ' ' :: commentEnds j := by
      rw [String.toList_append, String.toList_append, toList_commentEnds, List.append_assoc]
      rfl
    rcases flaw_of_lex hlex with ⟨_, rfl⟩ | ⟨_, _, _, rfl⟩ | ⟨_, last, _, rfl⟩
    · cases cause
    · cases cause
    · cases cause
      obtain ⟨closed, few, many⟩ := lex_append_commentEnds hlex k
      rw [← text] at closed few many
      rw [← text] at many
      refine ⟨?_, fun hk => ⟨_, tokenize_eq_error_iff.mpr ⟨_, few hk, rfl⟩⟩,
        fun hk => ⟨_, tokenize_eq_error_iff.mpr ⟨_, many hk, rfl⟩⟩⟩
      rw [← closed, exists_tokenize_iff]
  · intro start quote message h
    obtain ⟨flaw, hlex, hfault⟩ := tokenize_eq_error_iff.mp h
    obtain ⟨cause, -⟩ := Fault.mk.inj hfault
    rcases flaw_of_lex hlex with ⟨_, rfl⟩ | ⟨_, _, q, rfl⟩ | ⟨_, _, _, rfl⟩
    · cases cause
    · cases cause
      obtain ⟨lexemes, closed⟩ := exists_lex_append_quote hlex
      have text : (p ++ " " ++ String.singleton q.mark).toList = p.toList ++ [' ', q.mark] := by
        simp
      rw [← text] at closed
      exact exists_tokenize_iff.mpr ⟨lexemes, closed⟩
    · cases cause
  · intro opener level message h
    obtain ⟨tokens, openers, b, bs, before, htokens, unmatched, marks, count, label, mended⟩ :=
      exists_closers_of_unclosed h
    refine ⟨tokens, openers, b, bs, before, htokens, unmatched, marks, count, label, ?_⟩
    intro c closers
    obtain ⟨cs, hcs⟩ := exists_map_closer closers
    have hc : c = String.ofList (cs.map Bracket.closer) := by rw [← hcs, String.ofList_toList]
    rw [hcs, List.map_inj_right (fun _ _ h => Bracket.closer_injective h), ← mended cs, ← hc]

/-- A comment two deep that ends in a mark, a string that ends in a backslash, and two lists that
end in a line comment. -/
theorem deficits_exact_nested :
    ((∃ message, tokenize "a#|b#|" = .error ⟨.openComment ⟨⟨0, 1⟩, 1⟩ 2, message⟩) ∧
      (∃ tokens, tokenize ("a#|b#|" ++ " " ++ String.join (List.replicate 2 "|#")) = .ok tokens) ∧
      ∃ message', tokenize ("a#|b#|" ++ " " ++ String.join (List.replicate 3 "|#")) =
        .error ⟨.strayCloser ⟨⟨0, 11⟩, 11⟩ none, message'⟩) ∧
    ((∃ message, tokenize "'a\\" = .error ⟨.openString ⟨⟨0, 0⟩, 0⟩ '\'', message⟩) ∧
      ∃ tokens, tokenize ("'a\\" ++ " " ++ String.singleton '\'') = .ok tokens) ∧
    (∃ message, parse "([a;" = .error ⟨.unclosed ⟨⟨0, 1⟩, 1⟩ 2, message⟩ ∧
      (∃ f, parse ("([a;" ++ "\n" ++ "])") = .ok f) ∧
      ∃ b bs before, "])".toList = (b :: bs).map Bracket.closer ∧ message = before ++ b.expected) := by
  have comment : tokenize "a#|b#|" =
      .error ((Flaw.openComment ⟨⟨0, 1⟩, 1⟩ ⟨⟨0, 5⟩, 5⟩ 2).fault "a#|b#|".toList) := rfl
  have string : tokenize "'a\\" =
      .error ((Flaw.openString ⟨⟨0, 0⟩, 0⟩ ⟨⟨0, 2⟩, 2⟩ .single).fault "'a\\".toList) := rfl
  have lists : parse "([a;" =
      .error ((Flaw.unclosed ⟨⟨0, 1⟩, 1⟩ ⟨⟨0, 3⟩, 3⟩ .square 2).fault "([a;".toList) := rfl
  have closed : ∃ f, parse ("([a;" ++ "\n" ++ "])") = .ok f := ⟨_, rfl⟩
  have closers : ∀ x ∈ "])".toList, ∃ b : Bracket, x = b.closer := by
    simp only [String.reduceToList, List.mem_cons, List.not_mem_nil, or_false]
    rintro x (rfl | rfl)
    · exact ⟨.square, rfl⟩
    · exact ⟨.round, rfl⟩
  refine ⟨⟨⟨_, comment⟩, ((deficits_exact "a#|b#|" {}).1 _ _ _ comment 2).1.mpr rfl,
    ((deficits_exact "a#|b#|" {}).1 _ _ _ comment 3).2.2 (by decide)⟩,
    ⟨⟨_, string⟩, (deficits_exact "'a\\" {}).2.1 _ _ _ string⟩, _, lists, closed, ?_⟩
  obtain ⟨-, -, b, bs, before, -, -, -, -, label, exactly⟩ :=
    (deficits_exact "([a;" {}).2.2 _ _ _ lists
  exact ⟨b, bs, before, (exactly "])" closers).mp closed, label⟩

end Bracketry
