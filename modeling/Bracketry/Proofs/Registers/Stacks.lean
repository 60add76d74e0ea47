import Bracketry.Proofs.Nesting.Building
import Bracketry.Proofs.Registers.Reading

/-!
# Building on stacks

A builder holds for every open list its opener together with what is around it. Here are two stacks
instead, one of the openers that wait and one of the lists that are not complete, and nothing but
their own steps keeps the second one list longer than the first. They also forget the family of a
bracket: an opener is a token, and its character is cut out of the source again when it is asked
for.

Each step of a builder that holds lexemes of a source is a step of its stacks (`Stacks.accept_eq`),
since a builder has all that the stacks could lack. With what was shown of a reader, no run over a
source is broken off, and none needs a counter larger than the number of its bytes and one
(`runs_complete`).
-/

namespace Bracketry

open Text

/-! ## What is held of a source -/

/-- Tiles are as long together as the text under them. -/
theorem Text.Tiles.sum_length {text : List Char} {spans : List Span} (h : Tiles text spans) :
    (spans.map Span.length).sum = byteLength text := by
  induction h with
  | nil => rfl
  | concat _ _ ih => simp [ih]

theorem Text.Tiles.length_le {text : List Char} {spans : List Span} (h : Tiles text spans) :
    spans.length ≤ byteLength text := by
  induction h with
  | nil => exact Nat.le_refl 0
  | @concat read w spans h hne ih =>
    obtain ⟨c, w, rfl⟩ := List.exists_cons_of_ne_nil hne
    have := c.utf8Size_pos
    simp only [List.length_append, List.length_singleton, byteLength_append, byteLength_cons]
    omega

section lexemes

variable {text : List Char} {lexemes : List Lexeme} {l : Lexeme} {bracket : Bracket}

theorem bytes_of_lex (h : lex text = .ok lexemes) : Lexeme.bytes lexemes = byteLength text := by
  have := (tiles_lex h).sum_length
  rwa [List.map_map] at this

theorem length_le_of_lex (h : lex text = .ok lexemes) : lexemes.length ≤ byteLength text := by
  have := (tiles_lex h).length_le
  rwa [List.length_map] at this

theorem stop_le_of_mem_lex (h : lex text = .ok lexemes) (hl : l ∈ lexemes) :
    l.span.stop ≤ byteLength text := by
  obtain ⟨u, w, v, rfl, hspan, -⟩ := exists_splits_of_mem_lex h hl
  simp only [hspan, Span.stop, Place.offset_ofEnd, byteLength_append]
  omega

theorem fits_of_mem_lex (h : lex text = .ok lexemes) (hl : l ∈ lexemes) {limit : Nat}
    (room : byteLength text + 1 ≤ limit) : Registers.Fits limit l.span.start.toCursor := by
  obtain ⟨u, w, v, rfl, hspan, -⟩ := exists_splits_of_mem_lex h hl
  rw [byteLength_append] at room
  rw [hspan]
  exact Registers.fits_ofEnd (by omega)

/-- The token of an opener is told by where it stands. -/
theorem token_of_opener (h : lex text = .ok lexemes) (hl : l ∈ lexemes)
    (hs : l.shape = .opener bracket) : l.token = ⟨.opener, l.span.start, 1⟩ := by
  obtain ⟨u, w, v, -, hspan, hsplits⟩ := exists_splits_of_mem_lex h hl
  rw [hs] at hsplits
  obtain rfl := hsplits.eq_opener
  rw [Lexeme.token, hs, hspan]
  cases bracket <;> rfl

end lexemes

namespace Builder

section holding

variable {keep : Keep} {ls : List Lexeme} {c : Content} {around : List Opening}

/-- All bytes of what is held are counted in one of the open lists. -/
theorem Holding.bytes_eq (h : Holding keep ls c around) :
    c.bytes + (around.map (·.outer.bytes)).sum = Lexeme.bytes ls := by
  induction h with
  | top hf => simp [Content.extend, hf.bytes_eq]
  | inner _ _ hf ih =>
    simp only [Content.extend, Forest.bytes_cons, Tree.span, hf.bytes_eq, List.map_cons,
      List.sum_cons, Lexeme.bytes_append, Lexeme.bytes_cons, Lexeme.token, ← ih]
    omega

theorem Holding.length_le (h : Holding keep ls c around) : around.length ≤ ls.length := by
  induction h with
  | top _ => exact Nat.zero_le _
  | inner _ _ _ ih =>
    simp only [List.length_append, List.length_cons]
    omega

/-- An opener that waits is one of the lexemes that are held. -/
theorem Holding.exists_opener (h : Holding keep ls c around) {o : Opening} (ho : o ∈ around) :
    ∃ l ∈ ls, l.shape = .opener o.bracket ∧ l.span.start = o.place := by
  induction h with
  | top _ => exact absurd ho List.not_mem_nil
  | @inner ls inner outer around opener bracket f _ hopener _ ih =>
    rcases List.mem_cons.mp ho with rfl | ho
    · exact ⟨opener, by simp, hopener, rfl⟩
    · obtain ⟨l, hl, hs⟩ := ih ho
      exact ⟨l, List.mem_append_left _ hl, hs⟩

end holding

end Builder

namespace Registers

/-- The openers that wait and the lists that are not complete, their tops first. -/
structure Stacks where
  keep : Keep
  delimiters : List Token := []
  lists : List Branch := [⟨⟨{}, 0⟩, []⟩]

/-- The place of the last character of a text. `last` and `here` are those of the character before
it and of its first one. -/
def lastPlace (limit : Nat) (last here : Place) : List Char → Run Fault Place
  | [] => return last
  | c :: rest => do
    let cursor ← advance limit here.toCursor c
    let offset ← count limit (here.offset + c.utf8Size)
    lastPlace limit here { cursor with offset } rest

namespace Stacks

variable (limit : Nat)

/-- A token counts toward the innermost list, and is a child of it if it is to be kept. -/
def pushToken (s : Stacks) (t : Token) (keep : Bool) : Run Fault Stacks :=
  match s.lists with
  | [] => abort .rootPopped
  | top :: below => do
    let length ← count limit (top.span.length + t.span.length)
    let children := if keep then top.children ++ [.leaf t] else top.children
    return { s with lists := ⟨⟨top.span.start, length⟩, children⟩ :: below }

/-- A token opens a list. -/
def openList (s : Stacks) (t : Token) : Run Fault Stacks := do
  let _ ← count limit (s.delimiters.length + 1)
  let _ ← count limit (s.lists.length + 1)
  return { s with
    delimiters := t :: s.delimiters, lists := ⟨⟨t.span.start, 0⟩, []⟩ :: s.lists }

/-- The innermost list is complete and joins the one around it. -/
def closeList (s : Stacks) : Run Fault Stacks :=
  match s.lists with
  | [] => abort .noOpenList
  | [_] => abort .rootPopped
  | list :: parent :: below => do
    let length ← count limit (parent.span.length + list.span.length)
    return { s with
      lists := ⟨⟨parent.span.start, length⟩, parent.children ++ [.ofBranch list]⟩ :: below }

variable (source : List Char)

/-- The character of a delimiter. -/
def delimiterChar (t : Token) : Run Fault Char := do
  let _ ← count limit t.span.stop
  match t.lexeme? source with
  | none => abort .notASlice
  | some [] => abort .emptyDelimiter
  | some (c :: _) => return c

/-- The family that a delimiter opens. -/
def opened (t : Token) : Run Fault Bracket := do
  match Bracket.ofOpener? (← delimiterChar limit source t) with
  | none => abort .notAnOpener
  | some b => return b

/-- The family that a delimiter closes. -/
def closed (t : Token) : Run Fault Bracket := do
  match Bracket.ofCloser? (← delimiterChar limit source t) with
  | none => abort .notACloser
  | some b => return b

/-- One token. -/
def accept (s : Stacks) (t : Token) : Run Fault Stacks := do
  match t.kind with
  | .opener => do
    let s ← s.openList limit t
    s.pushToken limit t (s.keep.admits t.kind)
  | .closer => do
    let s ← s.pushToken limit t (s.keep.admits t.kind)
    match s.delimiters with
    | [] => do
      let found ← closed limit source t
      refuse limit source (.strayCloser t.span.start found)
    | o :: rest => do
      let expected ← opened limit source o
      let found ← closed limit source t
      if expected = found then closeList limit { s with delimiters := rest }
      else refuse limit source (.mismatch o.span.start t.span.start expected found rest.length)
  | _ => s.pushToken limit t (s.keep.admits t.kind)

/-- Tokens one after the other. -/
def acceptAll (s : Stacks) : List Token → Run Fault Stacks
  | [] => return s
  | t :: ts => do
    let s ← s.accept limit source t
    acceptAll s ts

/-- The end of the tokens. -/
def finish (s : Stacks) : Run Fault Branch :=
  match s.delimiters with
  | o :: rest => do
    let expected ← opened limit source o
    let last ← lastPlace limit {} {} source
    refuse limit source (.unclosed o.span.start last expected (rest.length + 1))
  | [] =>
    match s.lists with
    | [root] => return root
    | _ => abort .outOfStep

end Stacks

/-- The whole of a source as one branch. -/
def parseBranch (limit : Nat) (source : List Char) (keep : Keep) : Run Fault Branch := do
  let tokens ← tokenize limit source
  let s ← Stacks.acceptAll limit source { keep } tokens
  s.finish limit source

/-- The trees of a source. -/
def parse (limit : Nat) (source : List Char) (keep : Keep) : Run Fault Forest := do
  return (← parseBranch limit source keep).children

/-! ## The stacks of a builder -/

namespace Stacks

/-- Where the innermost of some open lists starts, or the start of the text if none is open. -/
def innermost : List Builder.Opening → Place
  | [] => {}
  | o :: _ => o.place

/-- The lists around the innermost one. -/
def outer : List Builder.Opening → List Branch
  | [] => []
  | o :: rest => o.outer.branch (innermost rest) :: outer rest

/-- An opener as a token. -/
def token (o : Builder.Opening) : Token := ⟨.opener, o.place, 1⟩

/-- The stacks that hold what a builder is. -/
def of (b : Builder) : Stacks where
  keep := b.keep
  delimiters := b.around.map token
  lists := b.current.branch (innermost b.around) :: outer b.around

/-! ## Steps on stacks -/

section steps

variable {limit : Nat} {source : List Char} {lexemes : List Lexeme} {l : Lexeme} {b : Builder}
  {o : Builder.Opening} {rest : List Builder.Opening}

theorem pushToken_eq (room : b.current.bytes + l.span.length ≤ limit) :
    (of b).pushToken limit l.token (b.keep.admits l.shape.kind) = .ok (of (b.addToken l)) := by
  have room' : b.current.bytes + l.token.span.length ≤ limit := room
  simp only [pushToken, of, Builder.addToken, Builder.Content.addToken, Builder.Content.branch,
    count_of_le room', ok_bind, pure_eq_ok]
  cases b.keep.admits l.shape.kind
  · rfl
  · simp only [if_true, List.reverse_cons]

theorem length_outer (around : List Builder.Opening) : (outer around).length = around.length := by
  induction around with
  | nil => rfl
  | cons o rest ih => rw [outer, List.length_cons, List.length_cons, ih]

theorem openList_eq (hlex : lex source = .ok lexemes) (hl : l ∈ lexemes) {bracket : Bracket}
    (hs : l.shape = .opener bracket) (room : b.around.length + 2 ≤ limit) :
    (of b).openList limit l.token = .ok (of (b.openList bracket l.span.start)) := by
  have delimiters : (count limit ((of b).delimiters.length + 1) : Run Fault Nat) =
      .ok (b.around.length + 1) := by
    rw [of, List.length_map]
    exact count_of_le (by omega)
  have lists : (count limit ((of b).lists.length + 1) : Run Fault Nat) =
      .ok (b.around.length + 2) := by
    rw [of, List.length_cons, length_outer]
    exact count_of_le room
  simp only [openList, delimiters, lists, ok_bind, pure_eq_ok, token_of_opener hlex hl hs]
  rfl

theorem closeList_eq (around : b.around = o :: rest)
    (room : o.outer.bytes + b.current.bytes ≤ limit) :
    ({ of b with delimiters := rest.map token } : Stacks).closeList limit =
      .ok (of { b with
        current := o.outer.addBranch (b.current.branch o.place), around := rest,
        closed := (b.current.branch o.place).span :: b.closed }) := by
  simp only [closeList, of, around, outer, Builder.Content.addBranch, Builder.Content.branch,
    count_of_le room, ok_bind, pure_eq_ok, List.reverse_cons]
  rfl

theorem delimiterChar_eq {t : Token} {c : Char} (hstop : t.span.stop ≤ limit)
    (htext : t.lexeme? source = some [c]) : delimiterChar limit source t = .ok c := by
  rw [delimiterChar, count_of_le hstop, ok_bind, htext]
  rfl

theorem opened_eq (hlex : lex source = .ok lexemes) (hl : l ∈ lexemes) {bracket : Bracket}
    (hs : l.shape = .opener bracket) (room : byteLength source ≤ limit) :
    opened limit source l.token = .ok bracket := by
  have htext := (((faithful_of_mem_lex hlex hl).opens_iff bracket).mpr hs).2
  have hstop := stop_le_of_mem_lex hlex hl
  rw [opened, delimiterChar_eq (Nat.le_trans hstop room) htext, ok_bind,
    Bracket.ofOpener?_eq_some_iff.mpr rfl]
  rfl

theorem closed_eq (hlex : lex source = .ok lexemes) (hl : l ∈ lexemes) {bracket : Bracket}
    (hs : l.shape = .closer bracket) (room : byteLength source ≤ limit) :
    closed limit source l.token = .ok bracket := by
  have htext := (((faithful_of_mem_lex hlex hl).closes_iff bracket).mpr hs).2
  have hstop := stop_le_of_mem_lex hlex hl
  rw [closed, delimiterChar_eq (Nat.le_trans hstop room) htext, ok_bind,
    Bracket.ofCloser?_eq_some_iff.mpr rfl]
  rfl

end steps

/-! ## Lexemes of a source -/

section source

variable {limit : Nat} {source : List Char} {ls ms : List Lexeme} {l : Lexeme} {b : Builder}
  {o : Builder.Opening} {rest : List Builder.Opening}

/-- An opener that waits is one of the lexemes read, so its family can be asked for. -/
theorem opened_of_holds (hlex : lex source = .ok (ls ++ ms)) (held : b.Holds ls)
    (ho : o ∈ b.around) (room : byteLength source ≤ limit) :
    opened limit source (token o) = .ok o.bracket := by
  obtain ⟨l, hl, hs, hplace⟩ := held.exists_opener ho
  have hl' : l ∈ ls ++ ms := List.mem_append_left ms hl
  have htoken : token o = l.token := by
    rw [token_of_opener hlex hl' hs, hplace, token]
  rw [htoken]
  exact opened_eq hlex hl' hs room

/-- So it stands at a place of the source. -/
theorem fits_of_holds (hlex : lex source = .ok (ls ++ ms)) (held : b.Holds ls)
    (ho : o ∈ b.around) (room : byteLength source + 1 ≤ limit) : Fits limit o.place.toCursor := by
  obtain ⟨l, hl, -, hplace⟩ := held.exists_opener ho
  rw [← hplace]
  exact fits_of_mem_lex hlex (List.mem_append_left ms hl) room

/-- There is room on the stacks of a builder for one more lexeme. -/
structure HasRoom (limit : Nat) (b : Builder) (l : Lexeme) : Prop where
  bytes : b.current.bytes + (b.around.map (·.outer.bytes)).sum + l.span.length ≤ limit
  lists : b.around.length + 2 ≤ limit

/-- What is held and one more lexeme are no more than the source. -/
theorem hasRoom_of_holds (hlex : lex source = .ok (ls ++ l :: ms)) (held : b.Holds ls)
    (room : byteLength source + 1 ≤ limit) : HasRoom limit b l := by
  constructor
  · have held : b.current.bytes + (b.around.map (·.outer.bytes)).sum = Lexeme.bytes ls :=
      held.bytes_eq
    have total := bytes_of_lex hlex
    simp only [Lexeme.bytes_append, Lexeme.bytes_cons] at total
    omega
  · have waiting : b.around.length ≤ ls.length := Builder.Holding.length_le held
    have total := length_le_of_lex hlex
    simp only [List.length_append, List.length_cons] at total
    omega

theorem accept_plain (plain : l.shape.kind.isDelimiter = false) (h : HasRoom limit b l) :
    (of b).accept limit source l.token = .ok (of (b.addToken l)) := by
  have bytes := h.bytes
  have pushed : (of b).pushToken limit l.token (b.keep.admits l.shape.kind) =
      .ok (of (b.addToken l)) := pushToken_eq (by omega)
  have kind : l.token.kind = l.shape.kind := rfl
  rw [accept, kind]
  cases hs : l.shape with
  | opener bracket | closer bracket =>
    rw [hs] at plain
    cases plain
  | _ =>
    rw [hs] at pushed
    exact pushed

theorem accept_opener (hlex : lex source = .ok (ls ++ l :: ms)) {bracket : Bracket}
    (hs : l.shape = .opener bracket) (h : HasRoom limit b l) :
    (of b).accept limit source l.token =
      .ok (of ((b.openList bracket l.span.start).addToken l)) := by
  have kind : l.token.kind = .opener := by rw [Lexeme.token, hs]; rfl
  have opened := openList_eq hlex (by simp) hs h.lists
  have bytes := h.bytes
  have inside : (b.openList bracket l.span.start).current.bytes + l.span.length ≤ limit := by
    show 0 + l.span.length ≤ limit
    omega
  have pushed := pushToken_eq inside
  rw [hs] at pushed
  rw [accept, kind]
  simp only [opened, ok_bind]
  exact pushed

/-- A closer joins the innermost list to the one around it or is refused, as by a builder. -/
theorem accept_closer (hlex : lex source = .ok (ls ++ l :: ms)) (held : b.Holds ls)
    {bracket : Bracket} (hs : l.shape = .closer bracket) (h : HasRoom limit b l)
    (room : byteLength source + 1 ≤ limit) :
    (of b).accept limit source l.token = told source ((b.add l).map of) := by
  have hl : l ∈ ls ++ l :: ms := by simp
  have kind : l.token.kind = .closer := by rw [Lexeme.token, hs]; rfl
  have found : closed limit source l.token = .ok bracket := closed_eq hlex hl hs (by omega)
  have fits : Fits limit l.span.start.toCursor := fits_of_mem_lex hlex hl room
  have bytes := h.bytes
  have pushed : (of b).pushToken limit l.token (b.keep.admits l.shape.kind) =
      .ok (of (b.addToken l)) := pushToken_eq (by omega)
  rw [hs] at pushed
  replace pushed : (of b).pushToken limit l.token ((of b).keep.admits .closer) = _ := pushed
  rw [accept, kind]
  simp only [pushed, ok_bind]
  rcases around : b.around with _ | ⟨o, rest⟩
  · have delimiters : (of (b.addToken l)).delimiters = [] := congrArg (List.map token) around
    rw [Builder.add_closer_nil hs around]
    simp only [delimiters, found, ok_bind]
    exact refuse_eq (List.forall_mem_singleton.mpr fits)
  · have delimiters : (of (b.addToken l)).delimiters = token o :: rest.map token :=
      congrArg (List.map token) around
    have innermost : o ∈ b.around := by rw [around]; exact List.mem_cons_self
    have expected : opened limit source (token o) = .ok o.bracket :=
      opened_of_holds hlex held innermost (by omega)
    simp only [delimiters, expected, found, ok_bind]
    by_cases same : o.bracket = bracket
    · rw [around, List.map_cons, List.sum_cons] at bytes
      have inside : o.outer.bytes + (b.addToken l).current.bytes ≤ limit := by
        show o.outer.bytes + (b.current.bytes + l.span.length) ≤ limit
        omega
      have joined := closeList_eq (b := b.addToken l) around inside
      rw [if_pos same, joined, Builder.add, hs]
      simp only [Builder.closeList, Builder.addToken, around, if_pos same]
      rfl
    · rw [if_neg same, Builder.add_closer_ne hs around same, List.length_map]
      have opener : Fits limit o.place.toCursor := fits_of_holds hlex held innermost room
      exact refuse_eq (List.forall_mem_cons.mpr ⟨opener, List.forall_mem_singleton.mpr fits⟩)

/-- What a lexeme does to a builder, its token does to the stacks. -/
theorem accept_eq (hlex : lex source = .ok (ls ++ l :: ms)) (held : b.Holds ls)
    (room : byteLength source + 1 ≤ limit) :
    (of b).accept limit source l.token = told source ((b.add l).map of) := by
  have h : HasRoom limit b l := hasRoom_of_holds hlex held room
  cases hs : l.shape with
  | opener bracket =>
    rw [accept_opener hlex hs h, Builder.add_opener hs]
    rfl
  | closer bracket => exact accept_closer hlex held hs h room
  | _ =>
    have plain : l.shape.kind.isDelimiter = false := by rw [hs]; rfl
    rw [accept_plain plain h, Builder.add_plain plain]
    rfl

/-- Tokens are accepted as far as their lexemes are. -/
theorem acceptAll_eq (hlex : lex source = .ok (ls ++ ms)) (held : b.Holds ls)
    (room : byteLength source + 1 ≤ limit) :
    (of b).acceptAll limit source (ms.map Lexeme.token) =
      match b.addAll ms with
      | (b', none) => .ok (of b')
      | (_, some flaw) => .error (.fault (flaw.fault source)) := by
  induction ms generalizing b ls with
  | nil => rfl
  | cons l ms ih =>
    rw [List.map_cons, acceptAll, accept_eq hlex held room, Builder.addAll]
    cases hl : b.add l with
    | error flaw => rfl
    | ok next =>
      have hlex' : lex source = .ok (ls ++ [l] ++ ms) := by rwa [← List.append_cons]
      exact ih hlex' (held.add hl)

theorem lastPlace_eq {read text : List Char} (room : byteLength (read ++ text) + 1 ≤ limit) :
    lastPlace limit (.ofLast read) (.ofEnd read) text = .ok (.ofLast (read ++ text)) := by
  induction text generalizing read with
  | nil => rw [List.append_nil]; rfl
  | cons c text ih =>
    have size : byteLength (read ++ c :: text) =
        byteLength read + (c.utf8Size + byteLength text) := by simp
    have fits : Fits limit (Place.ofEnd read).toCursor := fits_ofEnd (by omega)
    have offset : (Place.ofEnd read).offset + c.utf8Size ≤ limit := by
      rw [Place.offset_ofEnd]
      omega
    have next := @ih (read ++ [c]) (by rwa [← List.append_cons])
    rw [Place.ofLast_concat, Place.ofEnd_concat, ← List.append_cons] at next
    rw [lastPlace, advance_eq fits, ok_bind, count_of_le offset, ok_bind]
    exact next

theorem finish_eq (hlex : lex source = .ok ls) (held : b.Holds ls)
    (room : byteLength source + 1 ≤ limit) :
    (of b).finish limit source = told source (b.finish (.ofLast source)) := by
  rcases around : b.around with _ | ⟨o, rest⟩
  · simp only [finish, of, around, List.map_nil, outer, Builder.finish]
    rfl
  · have hlex' : lex source = .ok (ls ++ []) := by rwa [List.append_nil]
    have innermost : o ∈ b.around := by rw [around]; exact List.mem_cons_self
    have expected : opened limit source (token o) = .ok o.bracket :=
      opened_of_holds hlex' held innermost (by omega)
    have opener : Fits limit o.place.toCursor := fits_of_holds hlex' held innermost room
    have final : Fits limit (Place.ofLast source).toCursor := fits_ofLast room
    have last : lastPlace limit {} {} source = .ok (.ofLast source) :=
      @lastPlace_eq limit [] source room
    simp only [finish, of, around, List.map_cons, expected, last, ok_bind, List.length_map,
      Builder.finish]
    exact refuse_eq (List.forall_mem_cons.mpr ⟨opener, List.forall_mem_singleton.mpr final⟩)

end source

end Stacks

section runs

variable {limit : Nat} {source : String}

theorem parseBranch_eq (room : source.utf8ByteSize + 1 ≤ limit) (keep : Keep) :
    Registers.parseBranch limit source.toList keep =
      (Bracketry.parseBranch source keep).mapError .fault := by
  have room' : byteLength source.toList + 1 ≤ limit := by rwa [byteLength_toList]
  rw [Registers.parseBranch, tokenize_eq room, Bracketry.tokenize, Bracketry.parseBranch]
  cases hlex : lex source.toList with
  | error flaw => rfl
  | ok lexemes =>
    have accepted : Stacks.acceptAll limit source.toList { keep } (lexemes.map Lexeme.token) =
        match ({ keep } : Builder).addAll lexemes with
        | (b', none) => .ok (Stacks.of b')
        | (_, some flaw) => .error (.fault (flaw.fault source.toList)) :=
      @Stacks.acceptAll_eq limit _ [] lexemes _ hlex (Builder.holds_nil keep) room'
    show (do
      let s ← Stacks.acceptAll limit source.toList { keep } (lexemes.map Lexeme.token)
      s.finish limit source.toList) = _
    simp only [accepted, build]
    obtain ⟨b, ⟨run, held⟩ | ⟨_, _, _, flaw, _, run, _, _⟩⟩ :=
      (Builder.holds_nil keep).addAll lexemes
    · rw [List.nil_append] at held
      simp only [run, ok_bind, Stacks.finish_eq hlex held room']
      cases b.finish (.ofLast source.toList) <;> rfl
    · simp only [run]
      rfl

theorem parse_eq (room : source.utf8ByteSize + 1 ≤ limit) (keep : Keep) :
    Registers.parse limit source.toList keep = (Bracketry.parse source keep).mapError .fault := by
  rw [Registers.parse, parseBranch_eq room, Bracketry.parse]
  cases Bracketry.parseBranch source keep <;> rfl

end runs

end Registers

/-- **No run over a source is broken off**, whatever is kept of it: if the limit of the counters is
at least the number of bytes and one, a run comes to what the library answers, a value or a fault of
the source. With that number as the limit, no counter goes beyond it; and a word of 64 bits is
enough for every source of fewer than `2 ^ 63` bytes. -/
theorem runs_complete (source : String) (keep : Keep) {limit : Nat}
    (room : source.utf8ByteSize + 1 ≤ limit) :
    Registers.tokenize limit source.toList = (tokenize source).mapError .fault ∧
    Registers.parseBranch limit source.toList keep = (parseBranch source keep).mapError .fault ∧
    Registers.parse limit source.toList keep = (parse source keep).mapError .fault :=
  ⟨Registers.tokenize_eq room, Registers.parseBranch_eq room keep, Registers.parse_eq room keep⟩

/-- A comment with a character of two bytes in a list, on counters that go up to nine and on those
of a machine. -/
theorem runs_complete_comment :
    ("(#|é|#)".utf8ByteSize + 1 ≤ 9 ∧
      Registers.tokenize 9 "(#|é|#)".toList = .ok
        [⟨.opener, ⟨⟨0, 0⟩, 0⟩, 1⟩, ⟨.blockComment, ⟨⟨0, 1⟩, 1⟩, 6⟩, ⟨.closer, ⟨⟨0, 6⟩, 7⟩, 1⟩] ∧
      Registers.parseBranch 9 "(#|é|#)".toList { comments := false } = .ok
        ⟨⟨{}, 8⟩, [.list ⟨{}, 8⟩
          [.leaf ⟨.opener, ⟨⟨0, 0⟩, 0⟩, 1⟩, .leaf ⟨.closer, ⟨⟨0, 6⟩, 7⟩, 1⟩]]⟩) ∧
    ("(#|é|#)".utf8ByteSize + 1 ≤ 2 ^ 64 - 1 ∧
      Registers.parse (2 ^ 64 - 1) "(#|é|#)".toList { comments := false } = .ok
        [.list ⟨{}, 8⟩ [.leaf ⟨.opener, ⟨⟨0, 0⟩, 0⟩, 1⟩, .leaf ⟨.closer, ⟨⟨0, 6⟩, 7⟩, 1⟩]]) := by
  have room : "(#|é|#)".utf8ByteSize + 1 ≤ 9 := by decide
  have room' : "(#|é|#)".utf8ByteSize + 1 ≤ 2 ^ 64 - 1 := by decide
  obtain ⟨tokens, branch, -⟩ := runs_complete "(#|é|#)" { comments := false } room
  obtain ⟨-, -, trees⟩ := runs_complete "(#|é|#)" { comments := false } room'
  exact ⟨⟨room, tokens.trans rfl, branch.trans rfl⟩, room', trees.trans rfl⟩

/-- No smaller limit would do: behind one opener two lists are open. -/
example : Registers.parse 1 ['('] {} = Registers.abort .overflow := rfl

end Bracketry
