import Bracketry.Proofs.Lexing.Tiling
import Bracketry.Proofs.Registers.Run

/-!
# Reading on registers

A reader keeps apart what a lexer holds as one activity: a state, a token that may be pending, and
the number of open comments. It may look at a character twice, since a blank or a word that the
character does not continue is given out first. Three things could go wrong that a lexer cannot even
say: a state that needs a pending token finds none, a comment is closed at depth zero, or a
character is handed on for ever.

A refused character is no end for a reader, which can be given another one. So a refusal comes with
the registers that it leaves, as a step that succeeds does (`Reader.Refusal`). Both are those of a
lexer that takes the same step (`Reader.step_follows`).
-/

namespace Bracketry.Registers

open Text Lexer

/-- Which kind of token is being read. -/
inductive Reader.State
  | undetermined
  | blank
  | word
  | quoted (quote : Quote)
  | lineComment
  | blockComment
  | blockCommentStart
  | blockCommentEnd
deriving DecidableEq

/-- The registers of a reader. -/
structure Reader where
  state : Reader.State := .undetermined
  pending : Option Token := none
  depth : Nat := 0
  cursor : Cursor := {}
  previous : Option Char := none
  last : Place := {}
  tokens : List Token := []
deriving DecidableEq

namespace Reader

/-- A character that is refused: the fault, and the registers that it leaves. -/
structure Refusal where
  fault : Fault
  left : Reader
deriving DecidableEq

/-- How often a character may be decided on. -/
def maxDecisions : Nat := 2

/-- The pending token is complete. -/
def emit {φ : Type} (s : Reader) : Run φ Reader :=
  match s.pending with
  | none => abort .nothingPending
  | some t => return { s with state := .undetermined, pending := none, tokens := s.tokens ++ [t] }

/-- Where the pending token starts, or the start of the text if none is pending. -/
def pendingStart (s : Reader) : Place := (s.pending.map (·.span.start)).getD {}

variable (limit : Nat)

/-- The pending token takes in a character. -/
def extend (s : Reader) (c : Char) : Run Refusal Reader :=
  match s.pending with
  | none => abort .nothingPending
  | some t => do
    let length ← count limit (t.span.length + c.utf8Size)
    return { s with pending := some ⟨t.kind, t.span.start, length⟩ }

/-- A token starts with a character. Delimiters are complete with it. -/
def startToken (s : Reader) (here : Place) (c : Char) (kind : Token.Kind) (state : State) :
    Run Refusal Reader := do
  let s ← { s with state, pending := some ⟨kind, here, 0⟩ : Reader }.extend limit c
  if kind.isDelimiter then s.emit else return s

variable (source : List Char)

/-- `|#` is refused where a token would start. The registers stay as they are. -/
def stray {α : Type} (s : Reader) (here : Place) : Run Refusal α :=
  (refuse limit source (.strayCommentEnd here)).mapFault (⟨·, s⟩)

def start (s : Reader) (here : Place) (c : Char) (next : Option Char) : Run Refusal Reader :=
  if (Bracket.ofOpener? c).isSome then s.startToken limit here c .opener .undetermined
  else if (Bracket.ofCloser? c).isSome then s.startToken limit here c .closer .undetermined
  else if isBlank c then s.startToken limit here c .blank .blank
  else if c = ';' then s.startToken limit here c .lineComment .lineComment
  else if opensComment c next then
    { s with depth := 1 }.startToken limit here c .blockComment .blockCommentStart
  else if closesComment c next then s.stray limit source here
  else match Quote.ofMark? c with
    | some q => s.startToken limit here c (.quoted q) (.quoted q)
    | none => s.startToken limit here c .word .word

/-- One decision on a character, and whether it was taken. -/
def decision (s : Reader) (here : Place) (c : Char) (next : Option Char) :
    Run Refusal (Reader × Bool) :=
  match s.state with
  | .undetermined => do return (← s.start limit source here c next, true)
  | .blank =>
    if isBlank c then do return (← s.extend limit c, true) else do return (← s.emit, false)
  | .word =>
    if continuesWord c next then do return (← s.extend limit c, true)
    else do return (← s.emit, false)
  | .quoted q => do
    let s ← s.extend limit c
    if c = q.mark ∧ s.previous ≠ some '\\' then return (← s.emit, true) else return (s, true)
  | .lineComment => do
    let s ← s.extend limit c
    if c = '\n' then return (← s.emit, true) else return (s, true)
  | .blockCommentStart =>
    if c = '|' then do
      let s ← s.extend limit c
      return ({ s with state := .blockComment }, true)
    else abort .notCommentOpener
  | .blockComment => do
    let s ← s.extend limit c
    if opensComment c next then
      return ({ s with depth := ← count limit (s.depth + 1), state := .blockCommentStart }, true)
    else if closesComment c next then return ({ s with state := .blockCommentEnd }, true)
    else return (s, true)
  | .blockCommentEnd =>
    if c = '#' then do
      let s ← s.extend limit c
      let depth ← less s.depth 1
      if depth = 0 then return (← { s with depth }.emit, true)
      else return ({ s with depth, state := .blockComment }, true)
    else abort .notCommentCloser

/-- Decisions on a character until it is taken, so many at most. -/
def settle (here : Place) (c : Char) (next : Option Char) : Nat → Reader → Run Refusal Reader
  | 0, _ => abort .notConsumed
  | n + 1, s => do
    match ← s.decision limit source here c next with
    | (s, true) => return s
    | (s, false) => settle here c next n s

/-- One character at a byte offset. -/
def step (s : Reader) (offset : Nat) (c : Char) (next : Option Char) : Run Refusal Reader := do
  let here : Place := ⟨s.cursor, offset⟩
  let s ← settle limit source here c next maxDecisions s
  return { s with cursor := ← advance limit s.cursor c, previous := some c, last := here }

/-- The characters of a text from a byte offset on, up to one that is refused. -/
def run : Nat → Reader → List Char → Run Fault Reader
  | _, s, [] => return s
  | offset, s, c :: rest => do
    let s ← (s.step limit source offset c rest.head?).mapFault Refusal.fault
    run (← count limit (offset + c.utf8Size)) s rest

/-- The end of the text. -/
def finish (s : Reader) : Run Fault (List Token) :=
  match s.state with
  | .undetermined => return s.tokens
  | .blank | .word | .lineComment => do return (← s.emit).tokens
  | .quoted q => refuse limit source (.openString s.pendingStart s.last q)
  | .blockComment | .blockCommentStart | .blockCommentEnd =>
    refuse limit source (.openComment s.pendingStart s.last s.depth)

end Reader

/-- The tokens of a source. -/
def tokenize (limit : Nat) (source : List Char) : Run Fault (List Token) := do
  let s ← Reader.run limit source 0 {} source
  s.finish limit source

/-! ## The registers of a lexer -/

namespace Reader

/-- The state of a reader in the middle of an activity. -/
def State.of : Activity → State
  | .idle => .undetermined
  | .blank _ => .blank
  | .word _ => .word
  | .quoted q _ => .quoted q
  | .lineComment _ => .lineComment
  | .blockComment .opening _ _ => .blockCommentStart
  | .blockComment .body _ _ => .blockComment
  | .blockComment .closing _ _ => .blockCommentEnd

/-- The registers that hold what a lexer is, behind lexemes given out. -/
def of (l : Lexer) (done : List Lexeme) : Reader where
  state := .of l.activity
  pending := l.activity.pending?.map Lexeme.token
  depth := l.activity.depth
  cursor := l.cursor
  previous := l.previous
  last := l.last
  tokens := done.map Lexeme.token

section registers

variable (l : Lexer) (done : List Lexeme)

@[simp] theorem of_state : (of l done).state = .of l.activity := rfl

@[simp] theorem of_pending : (of l done).pending = l.activity.pending?.map Lexeme.token := rfl

@[simp] theorem of_previous : (of l done).previous = l.previous := rfl

end registers

section decision

variable {limit : Nat} {source : List Char} {here : Place} {c : Char} {next : Option Char}
  {l : Lexer} {a : Activity} {x : Lexeme} {done : List Lexeme}

/-- The registers that come of a decision, if it keeps the announced pairs. -/
def Follows (source : List Char) (here : Place) (l : Lexer) (done : List Lexeme)
    (r : Run Refusal Reader) : Decision → Prop
  | .taken more a => r = .ok (of { l with activity := a } (done ++ more))
  | .refused more => r = .error (.fault
      ⟨(Flaw.strayCommentEnd here).fault source, of { l with activity := .idle } (done ++ more)⟩)
  | .brokenPair => True

theorem Follows.after {r : Run Refusal Reader} {d : Decision}
    (h : Follows source here l (done ++ [x]) r d) : Follows source here l done r (d.after x) := by
  cases d with
  | taken more a | refused more =>
    rw [Follows, List.append_assoc] at h
    exact h
  | brokenPair => trivial

/-! ### A character that starts a token -/

theorem startToken_eq {s : Reader} {kind : Token.Kind} {state : State}
    (room : c.utf8Size ≤ limit) :
    s.startToken limit here c kind state = .ok
      (if kind.isDelimiter then
        { s with
          state := .undetermined, pending := none, tokens := s.tokens ++ [⟨kind, .ofChar here c⟩] }
      else { s with state, pending := some ⟨kind, .ofChar here c⟩ }) := by
  cases kind <;> simp [startToken, extend, emit, room, Token.Kind.isDelimiter, Span.ofChar]

/-- A quote begins nothing but a string. -/
theorem mark_plain (q : Quote) (next : Option Char) : isBlank q.mark = false ∧ q.mark ≠ ';' ∧
    opensComment q.mark next = false ∧ closesComment q.mark next = false := by
  cases q <;> exact ⟨rfl, by decide, rfl, rfl⟩

theorem start_follows (room : c.utf8Size ≤ limit) (fits : Fits limit here.toCursor) :
    Follows source here l done
      ((of { l with activity := .idle } done).start limit source here c next)
      (Lexer.start here c next) := by
  have mark : ∀ m ∈ (Flaw.strayCommentEnd here).excerpt.marks, Fits limit m.cursor :=
    List.forall_mem_singleton.mpr fits
  have refused (s : Reader) : (s.stray limit source here : Run Refusal Reader) =
      .error (.fault ⟨(Flaw.strayCommentEnd here).fault source, s⟩) := by
    rw [stray, refuse_eq mark, Run.mapFault]
  rw [start, Lexer.start]
  simp only [startToken_eq room, Token.Kind.isDelimiter, if_true, Bool.false_eq_true, if_false]
  cases hopener : Bracket.ofOpener? c with
  | some b => simp only [Option.isSome_some, if_true, Follows, of, List.map_append]; rfl
  | none =>
    cases hcloser : Bracket.ofCloser? c with
    | some b =>
      simp only [Option.isSome_none, Option.isSome_some, if_true, Bool.false_eq_true, if_false,
        Follows, of, List.map_append]
      rfl
    | none =>
      cases hmark : Quote.ofMark? c with
      | some q =>
        obtain rfl := Quote.ofMark?_eq_some_iff.mp hmark
        obtain ⟨blank, semicolon, opens, closes⟩ := mark_plain q next
        simp only [Option.isSome_none, Bool.false_eq_true, if_false, blank, semicolon, opens,
          closes, Follows, List.append_nil]
        rfl
      | none =>
        simp only [Option.isSome_none, Bool.false_eq_true, if_false]
        split_ifs
        · simp only [Follows, List.append_nil]; rfl
        · simp only [Follows, List.append_nil]; rfl
        · simp only [Follows, List.append_nil]; rfl
        · rw [refused, Follows, List.append_nil]
        · simp only [Follows, List.append_nil]; rfl

/-! ### A character in the middle of a token -/

/-- An activity that a character only makes longer. -/
def lengthen (a : Activity) (c : Char) : Activity :=
  match a with
  | .idle => .idle
  | .blank s => .blank (s.extend c)
  | .word s => .word (s.extend c)
  | .quoted q s => .quoted q (s.extend c)
  | .lineComment s => .lineComment (s.extend c)
  | .blockComment phase outer s => .blockComment phase outer (s.extend c)

theorem extend_eq (l : Lexer) (done : List Lexeme) (hx : a.pending? = some x)
    (room : x.span.length + c.utf8Size ≤ limit) :
    (of { l with activity := a } done).extend limit c =
      .ok (of { l with activity := lengthen a c } done) := by
  have hpending : (of { l with activity := a } done).pending = some x.token := by
    rw [of_pending, hx]
    rfl
  have hlength : x.token.span.length + c.utf8Size ≤ limit := room
  simp only [extend, hpending, count_of_le hlength, ok_bind, pure_eq_ok]
  cases a with
  | idle => cases hx
  | blockComment phase outer s => cases hx; cases phase <;> rfl
  | _ => cases hx; rfl

theorem emit_eq (φ : Type) (l : Lexer) (done : List Lexeme) (hx : a.pending? = some x)
    (hdepth : a.depth = 0) :
    ((of { l with activity := a } done).emit : Run φ Reader) =
      .ok (of { l with activity := .idle } (done ++ [x])) := by
  have hpending : (of { l with activity := a } done).pending = some x.token := by
    rw [of_pending, hx]
    rfl
  rw [emit, hpending]
  simp only [of, List.map_append, hdepth, pure_eq_ok]
  rfl

/-- The decisions on a character come to what a lexer does with it. -/
def Settles (limit : Nat) (source : List Char) (here : Place) (c : Char) (next : Option Char)
    (done : List Lexeme) (l : Lexer) : Prop :=
  Follows source here l done (settle limit source here c next maxDecisions (of l done))
    (l.activity.take l.previous here c next)

/-- Between tokens the first decision takes the character. -/
theorem settle_idle (n : Nat) :
    settle limit source here c next (n + 1) (of { l with activity := .idle } done) =
      (of { l with activity := .idle } done).start limit source here c next := by
  simp only [settle, decision, of_state, State.of]
  cases (of { l with activity := .idle } done).start limit source here c next <;> rfl

theorem settles_of_taken {more : List Lexeme}
    (htake : l.activity.take l.previous here c next = .taken more a)
    (h : (of l done).decision limit source here c next =
      .ok (of { l with activity := a } (done ++ more), true)) :
    Settles limit source here c next done l := by
  unfold Settles
  rw [htake, Follows, maxDecisions, settle, h, ok_bind]
  rfl

/-- A character that is handed on starts a token of its own. -/
theorem settles_of_handedOn (room : c.utf8Size ≤ limit) (fits : Fits limit here.toCursor)
    (htake : l.activity.take l.previous here c next = (Lexer.start here c next).after x)
    (h : (of l done).decision limit source here c next =
      .ok (of { l with activity := .idle } (done ++ [x]), false)) :
    Settles limit source here c next done l := by
  have handed : settle limit source here c next maxDecisions (of l done) =
      settle limit source here c next 1 (of { l with activity := .idle } (done ++ [x])) := by
    simp only [maxDecisions, settle, h, ok_bind]
  unfold Settles
  rw [htake, handed, settle_idle]
  exact (start_follows room fits).after

section activities

variable {s : Span}

theorem blank_settles (hspan : s.length + c.utf8Size ≤ limit) (room : c.utf8Size ≤ limit)
    (fits : Fits limit here.toCursor) :
    Settles limit source here c next done { l with activity := .blank s } := by
  by_cases hc : isBlank c = true
  · refine settles_of_taken (if_pos hc) ?_
    have extended := extend_eq (a := .blank s) l done rfl hspan
    simp only [decision, of_state, State.of, if_pos hc, extended, ok_bind, pure_eq_ok, lengthen,
      List.append_nil]
  · refine settles_of_handedOn room fits (if_neg hc) ?_
    have emitted := emit_eq (a := .blank s) Refusal l done rfl rfl
    simp only [decision, of_state, State.of, if_neg hc, emitted, ok_bind, pure_eq_ok]

theorem word_settles (hspan : s.length + c.utf8Size ≤ limit) (room : c.utf8Size ≤ limit)
    (fits : Fits limit here.toCursor) :
    Settles limit source here c next done { l with activity := .word s } := by
  by_cases hc : continuesWord c next = true
  · refine settles_of_taken (if_pos hc) ?_
    have extended := extend_eq (a := .word s) l done rfl hspan
    simp only [decision, of_state, State.of, if_pos hc, extended, ok_bind, pure_eq_ok, lengthen,
      List.append_nil]
  · refine settles_of_handedOn room fits (if_neg hc) ?_
    have emitted := emit_eq (a := .word s) Refusal l done rfl rfl
    simp only [decision, of_state, State.of, if_neg hc, emitted, ok_bind, pure_eq_ok]

theorem quoted_settles {q : Quote} (hspan : s.length + c.utf8Size ≤ limit) :
    Settles limit source here c next done { l with activity := .quoted q s } := by
  have extended := extend_eq (a := .quoted q s) l done rfl hspan
  have emitted := emit_eq (a := .quoted q (s.extend c)) Refusal l done rfl rfl
  by_cases hc : c = q.mark ∧ l.previous ≠ some '\\'
  · refine settles_of_taken (if_pos hc) ?_
    simp only [decision, of_state, State.of, extended, ok_bind, pure_eq_ok, lengthen, of_previous,
      if_pos hc, emitted]
  · refine settles_of_taken (if_neg hc) ?_
    have stays : ¬ (c = q.mark ∧
        (of { l with activity := lengthen (.quoted q s) c } done).previous ≠ some '\\') := hc
    simp only [decision, of_state, State.of, extended, ok_bind, pure_eq_ok, if_neg stays,
      List.append_nil]
    rfl

theorem lineComment_settles (hspan : s.length + c.utf8Size ≤ limit) :
    Settles limit source here c next done { l with activity := .lineComment s } := by
  have extended := extend_eq (a := .lineComment s) l done rfl hspan
  have emitted := emit_eq (a := .lineComment (s.extend c)) Refusal l done rfl rfl
  by_cases hc : c = '\n'
  · refine settles_of_taken (if_pos hc) ?_
    simp only [decision, of_state, State.of, extended, ok_bind, pure_eq_ok, lengthen, if_pos hc,
      emitted]
  · refine settles_of_taken (if_neg hc) ?_
    simp only [decision, of_state, State.of, extended, ok_bind, pure_eq_ok, lengthen, if_neg hc,
      List.append_nil]

/-- The characters of a mark that was announced, and any character between marks. -/
theorem blockComment_settles {phase : Phase} {outer : Nat}
    (hspan : s.length + c.utf8Size ≤ limit) (hdepth : outer + 2 ≤ limit) :
    Settles limit source here c next done { l with activity := .blockComment phase outer s } := by
  have extended := extend_eq (a := .blockComment phase outer s) l done rfl hspan
  cases phase with
  | opening =>
    by_cases hc : c = '|'
    · refine settles_of_taken (if_pos hc) ?_
      simp only [decision, of_state, State.of, extended, ok_bind, pure_eq_ok, lengthen, if_pos hc,
        List.append_nil]
      rfl
    · unfold Settles
      rw [Activity.take, if_neg hc]
      trivial
  | body =>
    by_cases hopens : opensComment c next = true
    · refine settles_of_taken (if_pos hopens) ?_
      have deeper : (count limit ((of { l with
          activity := lengthen (.blockComment .body outer s) c } done).depth + 1) :
            Run Refusal Nat) = .ok (outer + 2) := count_of_le hdepth
      simp only [decision, of_state, State.of, extended, ok_bind, pure_eq_ok, if_pos hopens, deeper,
        List.append_nil]
      rfl
    by_cases hcloses : closesComment c next = true
    · refine settles_of_taken ((if_neg hopens).trans (if_pos hcloses)) ?_
      simp only [decision, of_state, State.of, extended, ok_bind, pure_eq_ok, lengthen,
        if_neg hopens, if_pos hcloses, List.append_nil]
      rfl
    · refine settles_of_taken ((if_neg hopens).trans (if_neg hcloses)) ?_
      simp only [decision, of_state, State.of, extended, ok_bind, pure_eq_ok, lengthen,
        if_neg hopens, if_neg hcloses, List.append_nil]
  | closing =>
    by_cases hc : c = '#'
    · have fewer : (less (of { l with
          activity := lengthen (.blockComment .closing outer s) c } done).depth 1 :
            Run Refusal Nat) = .ok outer := less_of_le (Nat.le_add_left 1 outer)
      cases outer with
      | zero =>
        refine settles_of_taken (if_pos hc) ?_
        simp only [decision, of_state, State.of, extended, ok_bind, pure_eq_ok, if_pos hc, fewer,
          if_true, emit]
        simp only [of, lengthen, Activity.pending?, Option.map_some, List.map_append]
        rfl
      | succ outer =>
        refine settles_of_taken (if_pos hc) ?_
        simp only [decision, of_state, State.of, extended, ok_bind, pure_eq_ok, if_pos hc, fewer,
          Nat.succ_ne_zero, if_false, List.append_nil]
        rfl
    · unfold Settles
      cases outer with
      | zero | succ outer =>
        rw [Activity.take, if_neg hc]
        trivial

end activities

/-- Whatever a lexer is in the middle of, its registers follow it over a character. -/
theorem settles (hspan : ∀ x ∈ l.activity.pending?, x.span.length + c.utf8Size ≤ limit)
    (hdepth : l.activity.depth + 1 ≤ limit) (room : c.utf8Size ≤ limit)
    (fits : Fits limit here.toCursor) : Settles limit source here c next done l := by
  obtain ⟨a, k, previous, last⟩ := l
  cases a with
  | idle =>
    have started : settle limit source here c next maxDecisions
        (of ⟨.idle, k, previous, last⟩ done) = _ :=
      settle_idle (l := ⟨.idle, k, previous, last⟩) 1
    unfold Settles
    rw [started]
    exact start_follows room fits
  | blank s => exact blank_settles (l := ⟨.idle, k, previous, last⟩) (hspan _ rfl) room fits
  | word s => exact word_settles (l := ⟨.idle, k, previous, last⟩) (hspan _ rfl) room fits
  | quoted q s => exact quoted_settles (l := ⟨.idle, k, previous, last⟩) (hspan _ rfl)
  | lineComment s => exact lineComment_settles (l := ⟨.idle, k, previous, last⟩) (hspan _ rfl)
  | blockComment phase outer s =>
    exact blockComment_settles (l := ⟨.idle, k, previous, last⟩) (hspan _ rfl) hdepth

/-- The registers that come of a step of a lexer, if it keeps the announced pairs. -/
def Steps (source : List Char) (done : List Lexeme) (r : Run Refusal Reader) : Lexer.Step → Prop
  | .advanced more l' => r = .ok (of l' (done ++ more))
  | .refused more flaw l' => r = .error (.fault ⟨flaw.fault source, of l' (done ++ more)⟩)
  | .brokenPair => True

/-- **A reader steps as a lexer does**, if its registers follow over the character. A refusal leaves
the registers of the lexer behind it. -/
theorem step_follows {offset : Nat}
    (settled : Settles limit source ⟨l.cursor, offset⟩ c next done l) (fits : Fits limit l.cursor) :
    Steps source done ((of l done).step limit source offset c next) (l.step offset c next) := by
  unfold Settles at settled
  cases hd : l.activity.take l.previous ⟨l.cursor, offset⟩ c next with
  | taken more a =>
    rw [hd] at settled
    replace settled : settle limit source ⟨(of l done).cursor, offset⟩ c next maxDecisions
      (of l done) = .ok (of { l with activity := a } (done ++ more)) := settled
    have moved : (advance limit (of { l with activity := a } (done ++ more)).cursor c :
        Run Refusal Cursor) = .ok (l.cursor.advance c) := advance_eq fits c
    simp only [step, Lexer.step, hd, settled, moved, ok_bind, pure_eq_ok]
    rfl
  | refused more =>
    rw [hd] at settled
    replace settled : settle limit source ⟨(of l done).cursor, offset⟩ c next maxDecisions
      (of l done) = .error (.fault ⟨(Flaw.strayCommentEnd ⟨l.cursor, offset⟩).fault source,
        of { l with activity := .idle } (done ++ more)⟩) := settled
    simp only [step, Lexer.step, hd, settled, error_bind]
    rfl
  | brokenPair =>
    simp only [Lexer.step, hd]
    trivial

end decision

/-! ## A whole text -/

section run

variable {limit : Nat} {source read rest : List Char} {a a' : Activity} {done more : List Lexeme}
  {c : Char} {next previous : Option Char} {here : Place}

theorem depth_le_of_start (h : Lexer.start here c next = .taken more a') : a'.depth ≤ 1 := by
  rw [Lexer.start] at h
  repeat' split at h
  all_goals cases h
  all_goals simp [Activity.depth]

/-- A character opens one comment at most. -/
theorem depth_le_of_take (h : a.take previous here c next = .taken more a') :
    a'.depth ≤ a.depth + 1 := by
  have behind {l : Lexeme} (h : (Lexer.start here c next).after l = .taken more a') :
      a'.depth ≤ 1 := by
    cases hd : Lexer.start here c next with
    | taken begun b =>
      rw [hd] at h
      cases h
      exact depth_le_of_start hd
    | refused | brokenPair => rw [hd] at h; cases h
  cases a with
  | idle => exact depth_le_of_start h
  | blank s | word s =>
    rw [Activity.take] at h
    split at h
    · cases h; exact Nat.zero_le _
    · exact behind h
  | quoted q s | lineComment s =>
    rw [Activity.take] at h
    split at h
    all_goals cases h; exact Nat.zero_le _
  | blockComment phase outer s =>
    cases phase with
    | opening | body =>
      rw [Activity.take] at h
      repeat' split at h
      all_goals cases h
      all_goals simp [Activity.depth]
    | closing =>
      cases outer with
      | zero | succ outer =>
        rw [Activity.take] at h
        split at h
        all_goals cases h
        simp [Activity.depth]

/-- What is being read is no longer than what was read. -/
theorem length_le_of_laid (laid : Laid read done a) {l : Lexeme} (hl : a.pending? = some l) :
    l.span.length ≤ byteLength read := by
  rw [Laid, hl] at laid
  obtain ⟨u, w, v, rfl, -, hspan⟩ := laid.exists_of_mem (s := l.span) (by simp)
  simp only [hspan, byteLength_append]
  omega

/-- What is being read starts at a place of the text. -/
theorem fits_of_laid (laid : Laid read done a) {l : Lexeme} (hl : a.pending? = some l)
    (room : byteLength read + 1 ≤ limit) : Fits limit l.span.start.toCursor := by
  rw [Laid, hl] at laid
  obtain ⟨u, w, v, rfl, -, hspan⟩ := laid.exists_of_mem (s := l.span) (by simp)
  rw [byteLength_append] at room
  rw [hspan]
  exact fits_ofEnd (by omega)

theorem step_follows_of_laid (laid : Laid read done a) (hdepth : a.depth ≤ byteLength read)
    (room : byteLength (read ++ [c]) + 1 ≤ limit) :
    Steps source done ((of (standing read a) done).step limit source (byteLength read) c next)
      ((standing read a).step (byteLength read) c next) := by
  have size := c.utf8Size_pos
  have total : byteLength (read ++ [c]) = byteLength read + c.utf8Size := by simp
  have fits : Fits limit (Place.ofEnd read).toCursor := fits_ofEnd (by omega)
  have hspan : ∀ x ∈ a.pending?, x.span.length + c.utf8Size ≤ limit := by
    intro x hx
    have := length_le_of_laid laid hx
    omega
  have deeper : a.depth + 1 ≤ limit := by omega
  exact step_follows (settles hspan deeper (by omega) fits) fits

theorem finish_eq (room : byteLength read + 1 ≤ limit) (laid : Laid read done a) :
    (of (standing read a) done).finish limit source =
      told source ((standing read a).finish.map fun more => (done ++ more).map Lexeme.token) := by
  have fits : Fits limit (Place.ofLast read).toCursor := fits_ofLast room
  have given {l : Lexeme} (hl : a.pending? = some l) (hdepth : a.depth = 0) :
      (of (standing read a) done).emit = .ok (of (standing read .idle) (done ++ [l])) :=
    emit_eq Fault (standing read a) done hl hdepth
  cases a with
  | idle =>
    show Except.ok (done.map Lexeme.token) = Except.ok ((done ++ []).map Lexeme.token)
    rw [List.append_nil]
  | blank s | word s | lineComment s =>
    rw [finish, of_state]
    simp only [State.of, given rfl rfl, ok_bind]
    rfl
  | quoted q s =>
    have start := fits_of_laid laid rfl room
    exact refuse_eq (List.forall_mem_cons.mpr ⟨start, List.forall_mem_singleton.mpr fits⟩)
  | blockComment phase outer s =>
    have start := fits_of_laid laid rfl room
    cases phase <;>
      exact refuse_eq (List.forall_mem_cons.mpr ⟨start, List.forall_mem_singleton.mpr fits⟩)

theorem run_eq (room : byteLength (read ++ rest) + 1 ≤ limit) (laid : Laid read done a)
    (hdepth : a.depth ≤ byteLength read) {result : Except Flaw (List Lexeme)}
    (h : resume read a rest = some result) :
    (do
      let s ← run limit source (byteLength read) (of (standing read a) done) rest
      s.finish limit source) =
      told source (result.map fun more => (done ++ more).map Lexeme.token) := by
  induction rest generalizing read a done result with
  | nil =>
    rw [resume_nil, Option.some.injEq] at h
    subst h
    rw [List.append_nil] at room
    exact finish_eq room laid
  | cons c rest ih =>
    rw [List.append_cons] at room
    have size := c.utf8Size_pos
    have width : byteLength read + c.utf8Size = byteLength (read ++ [c]) := by simp
    have shorter : byteLength (read ++ [c]) + 1 ≤ limit := by
      rw [byteLength_append] at room
      omega
    have follows := @step_follows_of_laid limit source read a done c rest.head? laid hdepth shorter
    rw [step_standing] at follows
    rw [run, width, count_of_le (by omega)]
    cases hd : a.take read.getLast? (Place.ofEnd read) c rest.head? with
    | taken more a' =>
      rw [resume_taken hd] at h
      rw [hd] at follows
      replace follows : (of (standing read a) done).step limit source (byteLength read) c
        rest.head? = .ok (of (standing (read ++ [c]) a') (done ++ more)) := follows
      simp only [follows, Run.mapFault, ok_bind]
      cases hr : resume (read ++ [c]) a' rest with
      | none =>
        rw [hr] at h
        cases h
      | some next =>
        rw [hr] at h
        cases h
        have hdepth' : a'.depth ≤ byteLength (read ++ [c]) := by
          have := depth_le_of_take hd
          omega
        rw [ih room (laid.take hd) hdepth' hr]
        cases next with
        | ok rest => simp only [Except.map, List.append_assoc]
        | error flaw => rfl
    | refused more =>
      rw [resume_cons, hd] at h
      cases h
      rw [hd, Steps] at follows
      rw [follows]
      rfl
    | brokenPair =>
      rw [resume_cons, hd] at h
      cases h

end run

end Reader

/-- Reading on registers is not broken off: it comes to what the library answers. -/
theorem tokenize_eq {source : String} {limit : Nat} (room : source.utf8ByteSize + 1 ≤ limit) :
    Registers.tokenize limit source.toList = (Bracketry.tokenize source).mapError .fault := by
  have resumed : resume [] .idle source.toList = some (lex source.toList) :=
    lex_eq_iff_resume.mp rfl
  have laid : Laid [] [] .idle := Tiles.nil
  have room' : byteLength ([] ++ source.toList) + 1 ≤ limit := by
    rwa [List.nil_append, byteLength_toList]
  have run : Registers.tokenize limit source.toList =
      told source.toList ((lex source.toList).map fun more => ([] ++ more).map Lexeme.token) :=
    Reader.run_eq room' laid (Nat.zero_le _) resumed
  rw [run, Bracketry.tokenize]
  cases lex source.toList <;> rfl

end Bracketry.Registers
