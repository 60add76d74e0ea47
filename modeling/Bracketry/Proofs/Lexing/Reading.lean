import Bracketry.Lexeme.Lexer

/-!
# The lexer in the middle of a text

Of a lexer that has read some characters of a text, only the activity is open: its cursor, the
character before and the place of that character are all told by what was read (`Lexer.standing`).
One step over the next character is then one decision of the activity (`Lexer.step_standing`), and
every property that the decisions keep is kept by reading as far as it goes
(`Lexer.feed_standing`).

`Lexer.resume` is what comes of the rest of a text, from any activity on. It is the form in which
lexemes are followed one after the other: a character that is taken moves it on
(`Lexer.resume_cons`), and reading a whole text is resuming from its start (`lex_eq_iff_resume`).
-/

namespace Bracketry

open Text

namespace Text

/-- The place behind a text that starts at the origin. -/
def Place.ofEnd (text : List Char) : Place := ({} : Place).after text

@[simp] theorem Place.ofEnd_nil : Place.ofEnd [] = {} := rfl

theorem Place.ofEnd_append (s t : List Char) :
    Place.ofEnd (s ++ t) = (Place.ofEnd s).after t :=
  Place.after_append {} s t

theorem Place.ofEnd_concat (s : List Char) (c : Char) :
    Place.ofEnd (s ++ [c]) = (Place.ofEnd s).advance c :=
  Place.ofEnd_append s [c]

@[simp] theorem Place.offset_ofEnd (text : List Char) :
    (Place.ofEnd text).offset = byteLength text := by
  rw [Place.ofEnd, Place.offset_after, Nat.zero_add]

@[simp] theorem Place.ofLast_concat (s : List Char) (c : Char) :
    Place.ofLast (s ++ [c]) = Place.ofEnd s := by
  rw [Place.ofLast, List.dropLast_concat, Place.ofEnd]

end Text

/-- The text of a span is what stands under it. -/
theorem Span.text?_ofEnd (u w v : List Char) :
    (⟨Place.ofEnd u, byteLength w⟩ : Span).text? (u ++ (w ++ v)) = some w := by
  rw [text?, Place.offset_ofEnd, slice?_append]

namespace Lexer

/-! ## After some characters -/

/-- The lexer that has read the start of a text and is in the middle of an activity. -/
def standing (read : List Char) (a : Activity) : Lexer where
  activity := a
  cursor := (Place.ofEnd read).toCursor
  previous := read.getLast?
  last := Place.ofLast read

@[simp] theorem standing_activity (read : List Char) (a : Activity) :
    (standing read a).activity = a := rfl

@[simp] theorem standing_previous (read : List Char) (a : Activity) :
    (standing read a).previous = read.getLast? := rfl

@[simp] theorem standing_last (read : List Char) (a : Activity) :
    (standing read a).last = Place.ofLast read := rfl

/-- One more character, at the byte behind those read, is one decision of the activity. -/
theorem step_standing (read : List Char) (a : Activity) (c : Char) (next : Option Char) :
    (standing read a).step (byteLength read) c next =
      match a.take read.getLast? (Place.ofEnd read) c next with
      | .taken done a' => .advanced done (standing (read ++ [c]) a')
      | .refused done =>
        .refused done (.strayCommentEnd (Place.ofEnd read)) (standing read .idle)
      | .brokenPair => .brokenPair := by
  have here : (⟨(standing read a).cursor, byteLength read⟩ : Place) = Place.ofEnd read := by
    rw [← Place.offset_ofEnd]; rfl
  have moved (b : Activity) : standing (read ++ [c]) b =
      ⟨b, (standing read a).cursor.advance c, some c, Place.ofEnd read⟩ := by
    simp only [standing, Place.ofEnd_concat, Place.advance, List.getLast?_concat,
      Place.ofLast_concat]
  simp only [step, here, standing_activity, standing_previous]
  cases a.take read.getLast? (Place.ofEnd read) c next with
  | taken done b => simp only [moved]
  | refused done => rfl
  | brokenPair => rfl

/-- What every decision keeps, reading keeps, as far as characters are taken. -/
theorem feed_standing {Holds : List Char → List Lexeme → Activity → Prop}
    (keeps : ∀ {read done a c next more a'}, Holds read done a →
      a.take read.getLast? (Place.ofEnd read) c next = .taken more a' →
      Holds (read ++ [c]) (done ++ more) a')
    {text read : List Char} {a : Activity} {behind : Option Char} {done : Array Lexeme}
    {done' : List Lexeme} {l : Lexer} (holds : Holds read done.toList a)
    (h : (standing read a).feed (byteLength read) behind done text = .advanced done' l) :
    ∃ a', l = standing (read ++ text) a' ∧ Holds (read ++ text) done' a' := by
  induction text generalizing read a done with
  | nil =>
    rw [feed] at h
    cases h
    exact ⟨a, by rw [List.append_nil], by rwa [List.append_nil]⟩
  | cons c rest ih =>
    rw [feed, step_standing] at h
    cases hd : a.take read.getLast? (Place.ofEnd read) c (rest.head?.or behind) with
    | taken more a' =>
      simp only [hd] at h
      have width : byteLength read + c.utf8Size = byteLength (read ++ [c]) := by simp
      rw [width] at h
      rw [List.append_cons]
      have holds' : Holds (read ++ [c]) (done ++ more).toList a' := by
        simpa using keeps holds hd
      exact ih holds' h
    | refused more => simp only [hd, reduceCtorEq] at h
    | brokenPair => simp only [hd, reduceCtorEq] at h

/-! ## The rest of a text -/

/-- What reading comes to: the lexemes up to the end of the text, the flaw that it is refused for,
or nothing where an announced pair was broken. -/
abbrev Outcome := Option (Except Flaw (List Lexeme))

/-- An outcome behind lexemes that were complete before. -/
def Outcome.behind (done : List Lexeme) (o : Outcome) : Outcome :=
  o.map (Except.map (done ++ ·))

@[simp] theorem Outcome.behind_ok (done more : List Lexeme) :
    Outcome.behind done (some (.ok more)) = some (.ok (done ++ more)) := rfl

@[simp] theorem Outcome.behind_error (done : List Lexeme) (flaw : Flaw) :
    Outcome.behind done (some (.error flaw)) = some (.error flaw) := rfl

@[simp] theorem Outcome.behind_none (done : List Lexeme) : Outcome.behind done none = none := rfl

@[simp] theorem Outcome.behind_nil (o : Outcome) : o.behind [] = o := by
  rcases o with _ | (flaw | done) <;> rfl

theorem Outcome.behind_behind (done more : List Lexeme) (o : Outcome) :
    (o.behind more).behind done = o.behind (done ++ more) := by
  rcases o with _ | (flaw | rest)
  · rfl
  · rfl
  · simp only [behind_ok, List.append_assoc]

/-- The outcome of a text that was fed in full. -/
def Step.outcome : Step → Outcome
  | advanced done l => Outcome.behind done (some l.finish)
  | refused _ flaw _ => some (.error flaw)
  | brokenPair => none

/-- Lexemes that are complete before feeding starts are part of what it gives out. -/
theorem outcome_feed (l : Lexer) (offset : Nat) (behind : Option Char) (done : Array Lexeme)
    (text : List Char) :
    (l.feed offset behind done text).outcome =
      (l.feed offset behind #[] text).outcome.behind done.toList := by
  induction text generalizing l offset done with
  | nil => simp only [feed, Step.outcome, Outcome.behind_behind, List.append_nil]
  | cons c rest ih =>
    rw [feed, feed]
    cases l.step offset c (rest.head?.or behind) with
    | advanced more l' =>
      simp only
      rw [ih l' _ (done ++ more), ih l' _ (#[] ++ more), Outcome.behind_behind]
      simp
    | refused more flaw l' => rfl
    | brokenPair => rfl

/-- What comes of the rest of a text, from the middle of an activity on. -/
def resume (read : List Char) (a : Activity) (rest : List Char) : Outcome :=
  ((standing read a).feed (byteLength read) none #[] rest).outcome

theorem resume_nil (read : List Char) (a : Activity) :
    resume read a [] = some (standing read a).finish := by
  rw [resume, feed, Step.outcome, Outcome.behind_nil]

theorem resume_cons (read : List Char) (a : Activity) (c : Char) (rest : List Char) :
    resume read a (c :: rest) =
      match a.take read.getLast? (Place.ofEnd read) c rest.head? with
      | .taken done a' => (resume (read ++ [c]) a' rest).behind done
      | .refused _ => some (.error (.strayCommentEnd (Place.ofEnd read)))
      | .brokenPair => none := by
  rw [resume, feed, step_standing, Option.or_none]
  cases a.take read.getLast? (Place.ofEnd read) c rest.head? with
  | taken done a' =>
    have width : byteLength read + c.utf8Size = byteLength (read ++ [c]) := by simp
    simp only [width]
    rw [outcome_feed, resume]
    simp
  | refused done => rfl
  | brokenPair => rfl

end Lexer

theorem lex_eq_iff_resume {text : List Char} {result : Except Flaw (List Lexeme)} :
    lex text = result ↔ Lexer.resume [] .idle text = some result := by
  have start : Lexer.resume [] .idle text = (({} : Lexer).feed 0 none #[] text).outcome := rfl
  rw [start]
  cases h : ({} : Lexer).feed 0 none #[] text with
  | advanced done l =>
    rw [lex_eq_finish h, Lexer.Step.outcome, Lexer.Outcome.behind, Option.map_some,
      Option.some.injEq]
  | refused done flaw l => rw [lex_eq_error_of_refused h, Lexer.Step.outcome, Option.some.injEq]
  | brokenPair => exact absurd h (Lexer.feed_start_ne_brokenPair text)

/-! ## Tokens and faults -/

theorem tokenize_eq_ok_iff {source : String} {tokens : List Token} :
    tokenize source = .ok tokens ↔
      ∃ lexemes, lex source.toList = .ok lexemes ∧ tokens = lexemes.map Lexeme.token := by
  rw [tokenize]
  cases lex source.toList with
  | ok lexemes => simp [eq_comm]
  | error flaw => simp

theorem tokenize_eq_error_iff {source : String} {fault : Fault} :
    tokenize source = .error fault ↔
      ∃ flaw, lex source.toList = .error flaw ∧ fault = flaw.fault source.toList := by
  rw [tokenize]
  cases lex source.toList with
  | ok lexemes => simp
  | error flaw => simp [eq_comm]

end Bracketry
