import Bracketry.Fault
import Bracketry.Lexeme
import Bracketry.Text.Blank

/-!
# Reading lexemes

The lexer takes a text one character at a time, with one character of lookahead, and gives out each
lexeme as soon as it is complete. Between two characters it is a value, a `Lexer`, so it can be
driven by hand (`Lexer.step`) as well as over a text (`Lexer.feed`, `lex`).

What a character does depends on what is being read (`Activity.take`). A blank or a word that the
character cannot continue is given out, and the character then starts a lexeme of its own. All
other lexemes end on a character of theirs: a string on its quote, a line comment on the line feed,
a block comment on the `|#` that brings its depth to zero.

A step has three outcomes. `Step.refused` is a flaw of the text, `|#` with no comment open.
`Step.brokenPair` is a flaw of the driver: the lookahead announced the second character of `#|` or
`|#`, and another character came. Feeding a text never meets it (`Lexer.feed_ne_brokenPair`).
-/

namespace Bracketry

open Text

namespace Lexer

/-- Which characters of a block comment's marks are still to come. -/
inductive Phase
  /-- `#` was read and `|` follows. -/
  | opening
  | body
  /-- `|` was read and `#` follows. -/
  | closing
deriving DecidableEq

/-- What is being read between two characters. -/
inductive Activity
  | idle
  | blank (span : Span)
  | word (span : Span)
  | quoted (quote : Quote) (span : Span)
  | lineComment (span : Span)
  /-- `outer` counts the block comments around the innermost one. -/
  | blockComment (phase : Phase) (outer : Nat) (span : Span)
deriving DecidableEq

/-- The number of block comments that are open. -/
def Activity.depth : Activity → Nat
  | blockComment _ outer _ => outer + 1
  | _ => 0

def Activity.pending? : Activity → Option Lexeme
  | idle => none
  | blank s => some ⟨.blank, s⟩
  | word s => some ⟨.word, s⟩
  | quoted q s => some ⟨.quoted q, s⟩
  | lineComment s => some ⟨.lineComment, s⟩
  | blockComment _ _ s => some ⟨.blockComment, s⟩

/-- Whether a character begins `#|`. -/
def opensComment (c : Char) (next : Option Char) : Bool := c == '#' && next == some '|'

/-- Whether a character begins `|#`. -/
def closesComment (c : Char) (next : Option Char) : Bool := c == '|' && next == some '#'

/-- Whether a character may follow others in a word. -/
def continuesWord (c : Char) (next : Option Char) : Bool :=
  !(isBlank c || c == ';' || (Quote.ofMark? c).isSome || (Bracket.ofOpener? c).isSome ||
    (Bracket.ofCloser? c).isSome || opensComment c next || closesComment c next)

/-- What one character does: the lexemes that it completes, and what is read after it. -/
inductive Decision
  | taken (done : List Lexeme) (activity : Activity)
  /-- The character begins `|#` outside a comment. -/
  | refused (done : List Lexeme)
  | brokenPair
deriving DecidableEq

/-- A lexeme given out before the ones of a decision. -/
def Decision.after (l : Lexeme) : Decision → Decision
  | taken done a => taken (l :: done) a
  | refused done => refused (l :: done)
  | brokenPair => brokenPair

/-- A new lexeme starts with a character. A bracket is a lexeme by itself. -/
def start (here : Place) (c : Char) (next : Option Char) : Decision :=
  let span := Span.ofChar here c
  match Bracket.ofOpener? c, Bracket.ofCloser? c, Quote.ofMark? c with
  | some b, _, _ => .taken [⟨.opener b, span⟩] .idle
  | _, some b, _ => .taken [⟨.closer b, span⟩] .idle
  | _, _, some q => .taken [] (.quoted q span)
  | none, none, none =>
    if isBlank c then .taken [] (.blank span)
    else if c = ';' then .taken [] (.lineComment span)
    else if opensComment c next then .taken [] (.blockComment .opening 0 span)
    else if closesComment c next then .refused []
    else .taken [] (.word span)

/-- One character in the middle of an activity. `previous` is the character before it: a quote
behind a backslash does not end a string. -/
def Activity.take (a : Activity) (previous : Option Char) (here : Place) (c : Char)
    (next : Option Char) : Decision :=
  match a with
  | .idle => start here c next
  | .blank s =>
    if isBlank c then .taken [] (.blank (s.extend c))
    else (start here c next).after ⟨.blank, s⟩
  | .word s =>
    if continuesWord c next then .taken [] (.word (s.extend c))
    else (start here c next).after ⟨.word, s⟩
  | .quoted q s =>
    if c = q.mark ∧ previous ≠ some '\\' then .taken [⟨.quoted q, s.extend c⟩] .idle
    else .taken [] (.quoted q (s.extend c))
  | .lineComment s =>
    if c = '\n' then .taken [⟨.lineComment, s.extend c⟩] .idle
    else .taken [] (.lineComment (s.extend c))
  | .blockComment .opening outer s =>
    if c = '|' then .taken [] (.blockComment .body outer (s.extend c)) else .brokenPair
  | .blockComment .body outer s =>
    if opensComment c next then .taken [] (.blockComment .opening (outer + 1) (s.extend c))
    else if closesComment c next then .taken [] (.blockComment .closing outer (s.extend c))
    else .taken [] (.blockComment .body outer (s.extend c))
  | .blockComment .closing outer s =>
    if c = '#' then
      match outer with
      | 0 => .taken [⟨.blockComment, s.extend c⟩] .idle
      | outer + 1 => .taken [] (.blockComment .body outer (s.extend c))
    else .brokenPair

end Lexer

/-- The lexer between two characters. -/
structure Lexer where
  activity : Lexer.Activity := .idle
  /-- Where the next character stands. -/
  cursor : Cursor := {}
  previous : Option Char := none
  /-- The place of the last character taken. -/
  last : Place := {}
deriving DecidableEq

namespace Lexer

inductive Step
  | advanced (done : List Lexeme) (lexer : Lexer)
  | refused (done : List Lexeme) (flaw : Flaw) (lexer : Lexer)
  | brokenPair

/-- One character at a given byte offset. A refused character is not taken: what was being read is
given out, and all else stays as it was. -/
def step (l : Lexer) (offset : Nat) (c : Char) (next : Option Char) : Step :=
  let here : Place := ⟨l.cursor, offset⟩
  match l.activity.take l.previous here c next with
  | .taken done a =>
    .advanced done
      { activity := a, cursor := l.cursor.advance c, previous := some c, last := here }
  | .refused done => .refused done (.strayCommentEnd here) { l with activity := .idle }
  | .brokenPair => .brokenPair

/-- The end of the text: what is being read is complete, or the text ends too early. -/
def finish (l : Lexer) : Except Flaw (List Lexeme) :=
  match l.activity with
  | .idle => .ok []
  | .blank s => .ok [⟨.blank, s⟩]
  | .word s => .ok [⟨.word, s⟩]
  | .lineComment s => .ok [⟨.lineComment, s⟩]
  | .quoted q s => .error (.openString s.start l.last q)
  | .blockComment _ outer s => .error (.openComment s.start l.last (outer + 1))

/-- The characters of a text one after the other, the first of them at `offset`, up to one that is
not taken. `behind` is the character that follows the text; what was completed is put behind
`done`. -/
def feed (l : Lexer) (offset : Nat) (behind : Option Char) (done : Array Lexeme) :
    List Char → Step
  | [] => .advanced done.toList l
  | c :: rest =>
    match l.step offset c (rest.head?.or behind) with
    | .advanced more l' => l'.feed (offset + c.utf8Size) behind (done ++ more) rest
    | .refused more flaw l' => .refused (done ++ more).toList flaw l'
    | .brokenPair => .brokenPair

/-! ## Announced pairs are kept -/

/-- What an activity needs of the next character: the second half of a mark, once announced. -/
def Activity.Expects (a : Activity) (next : Option Char) : Prop :=
  match a with
  | .blockComment .opening _ _ => next = some '|'
  | .blockComment .closing _ _ => next = some '#'
  | _ => True

/-- A decision that keeps to the announced pairs: it is not broken off, and what is read after it
needs no other character than `next`. -/
def Decision.Keeps (next : Option Char) : Decision → Prop
  | taken _ a => a.Expects next
  | refused _ => True
  | brokenPair => False

theorem Decision.Keeps.after {next : Option Char} {d : Decision} (h : d.Keeps next) (l : Lexeme) :
    (d.after l).Keeps next := by
  cases d <;> exact h

theorem start_keeps (here : Place) (c : Char) (next : Option Char) :
    (start here c next).Keeps next := by
  simp only [start, opensComment, closesComment, Bool.and_eq_true, beq_iff_eq]
  repeat' split
  all_goals simp_all [Decision.Keeps, Activity.Expects]

theorem Activity.take_keeps {a : Activity} {c : Char} (h : a.Expects (some c))
    (previous : Option Char) (here : Place) (next : Option Char) :
    (a.take previous here c next).Keeps next := by
  cases a with
  | idle => exact start_keeps here c next
  | blank s =>
    rw [take]
    split
    · trivial
    · exact (start_keeps here c next).after _
  | word s =>
    rw [take]
    split
    · trivial
    · exact (start_keeps here c next).after _
  | quoted q s => rw [take]; split <;> trivial
  | lineComment s => rw [take]; split <;> trivial
  | blockComment phase outer s =>
    simp only [Activity.Expects] at h
    cases phase with
    | opening => cases h; exact trivial
    | closing => cases h; cases outer <;> exact trivial
    | body =>
      simp only [take, opensComment, closesComment, Bool.and_eq_true, beq_iff_eq]
      repeat' split
      all_goals simp_all [Decision.Keeps, Activity.Expects]

/-- The characters of a text keep every pair that the lookahead announces. -/
theorem feed_ne_brokenPair {l : Lexer} {text : List Char} {behind : Option Char}
    (h : l.activity.Expects (text.head?.or behind)) (offset : Nat) (done : Array Lexeme) :
    l.feed offset behind done text ≠ .brokenPair := by
  induction text generalizing l offset done with
  | nil => simp [feed]
  | cons c rest ih =>
    have keeps := Activity.take_keeps h l.previous ⟨l.cursor, offset⟩ (rest.head?.or behind)
    rw [feed, step]
    cases hd : l.activity.take l.previous ⟨l.cursor, offset⟩ c (rest.head?.or behind) with
    | taken more a =>
      rw [hd] at keeps
      exact ih (l := ⟨a, l.cursor.advance c, some c, ⟨l.cursor, offset⟩⟩) keeps _ _
    | refused more => simp
    | brokenPair => rw [hd] at keeps; exact keeps.elim

theorem feed_start_ne_brokenPair (text : List Char) :
    ({} : Lexer).feed 0 none #[] text ≠ .brokenPair :=
  feed_ne_brokenPair (l := {}) trivial 0 #[]

end Lexer

/-- The lexemes of a text, from its start to its end. -/
def lex (text : List Char) : Except Flaw (List Lexeme) :=
  match h : ({} : Lexer).feed 0 none #[] text with
  | .advanced done l => l.finish.map (done ++ ·)
  | .refused _ flaw _ => .error flaw
  | .brokenPair => absurd h (Lexer.feed_start_ne_brokenPair text)

/-- Reading a text to its end is feeding all of it and finishing. -/
theorem lex_eq_finish {text : List Char} {done : List Lexeme} {l : Lexer}
    (h : ({} : Lexer).feed 0 none #[] text = .advanced done l) :
    lex text = l.finish.map (done ++ ·) := by
  unfold lex
  split <;> simp_all

/-- A text with a character that is refused is refused for it. -/
theorem lex_eq_error_of_refused {text : List Char} {done : List Lexeme} {flaw : Flaw} {l : Lexer}
    (h : ({} : Lexer).feed 0 none #[] text = .refused done flaw l) : lex text = .error flaw := by
  unfold lex
  split <;> simp_all

/-- The tokens of a source, or the fault that it is refused with. -/
def tokenize (source : String) : Except Fault (List Token) :=
  match lex source.toList with
  | .ok lexemes => .ok (lexemes.map Lexeme.token)
  | .error flaw => .error (flaw.fault source.toList)

end Bracketry
