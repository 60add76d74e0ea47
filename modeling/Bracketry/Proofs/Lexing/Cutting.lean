import Bracketry.Proofs.Lexing.Continuing
import Bracketry.Proofs.Lexing.Respacing
import Mathlib.Algebra.GroupWithZero.Nat

/-!
# Texts cut out of a text

Any run of lexemes is read the same when its characters are cut out of their text: kinds and lengths
stay, and places are counted from where the run starts (`Text.Place.relativeTo`). Neither end of the
cut is felt. In front, the lexer is idle whatever it has read, so only its cursor tells the run from
a text of its own, and a cursor moved over a text goes the same way from any origin
(`Text.Place.after_shift`). Behind, a lexeme looks one character ahead, which in the middle of the
run is still there and at its end is missed by no lexeme (`Lexeme.Leads.alone`).

The law for lexemes is `exists_lex_run`, and the one for tokens `tokenize_extract`.
-/

namespace Bracketry

open Text

/-! ## Places counted from an origin -/

namespace Text

/-- A place of a text that itself stands at an origin, as a place of what is around it. Columns of
the text's first line are counted on from the origin, and those of later lines are kept. -/
def Place.shift (p origin : Place) : Place where
  line := origin.line + p.line
  column := if p.line = 0 then origin.column + p.column else p.column
  offset := origin.offset + p.offset

/-- A place counted from an origin in front of it. Columns of the origin's line are counted from the
origin, and those of later lines are kept. -/
def Place.relativeTo (p origin : Place) : Place where
  line := p.line - origin.line
  column := if p.line = origin.line then p.column - origin.column else p.column
  offset := p.offset - origin.offset

namespace Place

variable (p origin : Place)

@[simp] theorem relativeTo_shift : (p.shift origin).relativeTo origin = p := by
  obtain ⟨⟨line, column⟩, offset⟩ := p
  by_cases first : line = 0 <;> simp [shift, relativeTo, first]

@[simp] theorem start_shift : ({} : Place).shift origin = origin := by
  simp [shift]

@[simp] theorem relativeTo_self : p.relativeTo p = {} := by
  simp [relativeTo]

theorem advance_shift (c : Char) : (p.shift origin).advance c = (p.advance c).shift origin := by
  by_cases feed : c = '\n'
  · simp [advance, Cursor.advance, shift, feed, Nat.add_assoc]
  · by_cases first : p.line = 0 <;>
      simp [advance, Cursor.advance, shift, feed, first, Nat.add_assoc]

/-- Moving over a text goes the same way from everywhere. -/
theorem after_shift (text : List Char) :
    (p.shift origin).after text = (p.after text).shift origin := by
  induction text generalizing p with
  | nil => rfl
  | cons c text ih => rw [after_cons, after_cons, advance_shift, ih]

end Place

end Text

/-- The span with another place to start at. -/
def Span.mapPlace (m : Place → Place) (s : Span) : Span := ⟨m s.start, s.length⟩

def Token.mapPlace (m : Place → Place) (t : Token) : Token := ⟨t.kind, t.span.mapPlace m⟩

def Lexeme.mapPlace (m : Place → Place) (l : Lexeme) : Lexeme := ⟨l.shape, l.span.mapPlace m⟩

section

variable (origin : Place)

theorem map_token_mapPlace (m : Place → Place) (ls : List Lexeme) :
    (ls.map (Lexeme.mapPlace m)).map Lexeme.token =
      (ls.map Lexeme.token).map (Token.mapPlace m) := by
  rw [List.map_map, List.map_map]
  rfl

/-- Lexemes of a text at an origin, counted from there, are those of the text on its own. -/
theorem Lexeme.relativeTo_shift (ls : List Lexeme) :
    (ls.map (mapPlace (·.shift origin))).map (mapPlace (·.relativeTo origin)) = ls := by
  rw [List.map_map]
  refine List.map_id'' (fun l => ?_) ls
  simp [mapPlace, Span.mapPlace]

end

/-! ## Spans without a gap -/

/-- Spans one behind the other from byte `a` to byte `b`, none of them empty. -/
inductive Contiguous : Nat → List Span → Nat → Prop
  | nil (a : Nat) : Contiguous a [] a
  | cons {a b : Nat} {s : Span} {spans : List Span} (hstart : s.start.offset = a)
    (hpos : 0 < s.length) (h : Contiguous s.stop spans b) : Contiguous a (s :: spans) b

namespace Contiguous

variable {a b c : Nat} {s : Span} {spans more : List Span}

theorem add_sum (h : Contiguous a spans b) : a + (spans.map Span.length).sum = b := by
  induction h with
  | nil a => rfl
  | cons hstart _ _ ih =>
    rw [Span.stop, hstart] at ih
    rw [List.map_cons, List.sum_cons, ← Nat.add_assoc, ih]

theorem stop_of_getLast? (h : Contiguous a spans b) (hs : s ∈ spans.getLast?) : s.stop = b := by
  induction h with
  | nil a => simp at hs
  | @cons a b t spans _ _ h ih =>
    cases spans with
    | nil =>
      obtain rfl : s = t := by simpa using hs.symm
      generalize hstop : s.stop = stop at h
      cases h
      rfl
    | cons u spans => exact ih (by simpa using hs)

theorem le (h : Contiguous a spans b) : a ≤ b := by
  have := h.add_sum
  omega

theorem append_iff :
    Contiguous a (spans ++ more) c ↔ ∃ b, Contiguous a spans b ∧ Contiguous b more c := by
  constructor
  · intro h
    induction spans generalizing a with
    | nil => exact ⟨a, .nil a, h⟩
    | cons s spans ih =>
      cases h with
      | cons hstart hpos h =>
        obtain ⟨b, hs, hmore⟩ := ih h
        exact ⟨b, .cons hstart hpos hs, hmore⟩
  · rintro ⟨b, h, hmore⟩
    induction h with
    | nil => exact hmore
    | cons hstart hpos _ ih => exact .cons hstart hpos (ih hmore)

theorem bounds (h : Contiguous a spans b) (hs : s ∈ spans) :
    a ≤ s.start.offset ∧ 0 < s.length ∧ s.stop ≤ b := by
  induction h with
  | nil => simp at hs
  | @cons a b t spans hstart hpos h ih =>
    rcases List.mem_cons.mp hs with rfl | hs
    · exact ⟨hstart.ge, hpos, h.le⟩
    · obtain ⟨start, length, stop⟩ := ih hs
      refine ⟨?_, length, stop⟩
      rw [Span.stop] at start
      omega

theorem pairwise (h : Contiguous a spans b) :
    spans.Pairwise fun s t => s.stop ≤ t.start.offset := by
  induction h with
  | nil => exact .nil
  | cons _ _ h ih => exact .cons (fun t ht => (h.bounds ht).1) ih

end Contiguous

/-- The span from the start of the first of some tokens to the end of the last, and an empty one
where there are none. -/
def Token.hull : List Token → Span
  | [] => ⟨{}, 0⟩
  | t :: ts =>
    ⟨t.span.start, ((t :: ts).getLast (List.cons_ne_nil t ts)).span.stop - t.span.start.offset⟩

/-! ## Lexemes in front of a text -/

namespace Lexeme

variable {last place origin : Place} {text u rest : List Char} {done s t : List Lexeme}

/-- Lexemes in front of a text are divided where the text that they take is divided. -/
theorem Leads.exists_append (h : Leads rest place u (s ++ t)) :
    ∃ v w, u = v ++ w ∧ Leads (w ++ rest) place v s ∧ Leads rest (place.after v) w t := by
  induction s generalizing place u with
  | nil => exact ⟨[], u, rfl, .nil place, h⟩
  | cons l s ih =>
    cases h with
    | @cons _ shape x u _ hx hu =>
      obtain ⟨v, w, rfl, hs, ht⟩ := ih hu
      refine ⟨x ++ v, w, (List.append_assoc x v w).symm, .cons ?_ hs, ?_⟩
      · rwa [← List.append_assoc v]
      · rwa [Place.after_append]

/-- The first of the lexemes stands at the start. -/
theorem Leads.exists_splits {l : Lexeme} (h : Leads rest place u (l :: done)) :
    u ≠ [] ∧ l.span.start = place ∧ ∃ w, Splits (u ++ rest) l.shape w := by
  generalize hall : l :: done = all at h
  cases h with
  | nil => cases hall
  | @cons _ shape w u done h hu =>
    cases hall
    refine ⟨by simp [h.ne_nil], rfl, w, ?_⟩
    rwa [List.append_assoc]

theorem Leads.splits_of_singleton {l : Lexeme} (h : Leads rest place u [l]) :
    Splits (u ++ rest) l.shape u := by
  cases h with
  | cons h hu =>
    cases hu
    simpa using h

/-- What stands in front of a text is read the same without that text. The only lexeme that then
lacks its next character is the last; any other is in front of a word as before, or is not. -/
theorem Leads.alone (h : Leads rest place u done) : Leads [] place u done := by
  induction h with
  | nil place => exact .nil place
  | @cons place shape w u done h hu ih =>
    refine .cons ?_ ih
    cases done with
    | nil =>
      cases hu
      simpa using h.alone
    | cons l done =>
      obtain ⟨hne, -, _, before⟩ := hu.exists_splits
      obtain ⟨-, -, _, behind⟩ := ih.exists_splits
      refine h.congr_rest ?_ fun ends => behind.endsWord_iff.mpr (before.endsWord_iff.mp ends)
      rw [List.head?_append_of_ne_nil _ hne, List.head?_append_of_ne_nil _ hne]

/-- Lexemes from an origin on are those of a text of its own, with that origin. -/
theorem Leads.exists_shift {p : Place} (h : Leads rest place u done)
    (hplace : place = p.shift origin) :
    ∃ ls, Leads rest p u ls ∧ done = ls.map (Lexeme.mapPlace (·.shift origin)) := by
  induction h generalizing p with
  | nil place => exact ⟨[], .nil p, rfl⟩
  | @cons place shape w u done h _ ih =>
    subst hplace
    obtain ⟨ls, hls, rfl⟩ := ih (p.after_shift origin w)
    exact ⟨⟨shape, p, byteLength w⟩ :: ls, .cons h hls, rfl⟩

theorem Leads.contiguous (h : Leads rest place u done) :
    Contiguous place.offset (done.map Lexeme.span) (place.after u).offset := by
  induction h with
  | nil place => exact .nil _
  | @cons place shape w u done h _ ih =>
    rw [Place.after_append]
    rw [Place.offset_after place w] at ih
    refine .cons (s := ⟨place, byteLength w⟩) rfl ?_ ih
    obtain ⟨c, w, rfl⟩ := List.exists_cons_of_ne_nil h.ne_nil
    have := c.utf8Size_pos
    simp only [byteLength_cons]
    omega

/-- The tokens of what stands in front of a text span it. -/
theorem Leads.hull_eq (h : Leads rest place u done) (hne : done ≠ []) :
    Token.hull (done.map Lexeme.token) = ⟨place, byteLength u⟩ := by
  obtain ⟨l, ls, rfl⟩ := List.exists_cons_of_ne_nil hne
  obtain ⟨-, start, -⟩ := h.exists_splits
  have stop : ((l :: ls).getLast hne).span.stop = (place.after u).offset := by
    apply h.contiguous.stop_of_getLast?
    rw [List.getLast?_map, List.getLast?_eq_some_getLast hne]
    rfl
  have last : ((l :: ls).map Lexeme.token).getLast (by simp) = ((l :: ls).getLast hne).token :=
    List.getLast_map _
  have here : l.token.span.start = place := start
  have extent : ((l :: ls).getLast hne).token.span.stop = place.offset + byteLength u :=
    stop.trans (place.offset_after u)
  simp only [Token.hull, List.map_cons] at last ⊢
  rw [last, extent, here, Nat.add_sub_cancel_left]

theorem Reads.leads {result : Except Flaw (List Lexeme)} (h : Reads last place text result)
    (hresult : result = .ok done) : Leads [] place text done := by
  induction h generalizing done with
  | done place =>
    cases hresult
    exact .nil place
  | @split place shape w rest result h _ ih =>
    cases result with
    | error flaw => cases hresult
    | ok more =>
      cases hresult
      exact .cons (by rwa [List.append_nil]) (ih rfl)
  | stuck h => cases hresult

end Lexeme

/-! ## Runs of lexemes and of tokens -/

open Lexeme

section

variable {text u rest : List Char} {origin : Place} {lexemes run done s t : List Lexeme}

theorem lex_eq_ok_iff_leads : lex text = .ok lexemes ↔ Leads [] {} text lexemes := by
  rw [lex_eq_iff_reads]
  constructor
  · exact fun h => h.leads rfl
  · intro h
    have ends : Reads (.ofLast text) (Place.after {} text) [] (.ok []) := .done _
    simpa [Except.map] using h.reads ends

theorem contiguous_of_lex (h : lex text = .ok lexemes) :
    Contiguous 0 (lexemes.map Lexeme.span) (byteLength text) := by
  have contiguous := (lex_eq_ok_iff_leads.mp h).contiguous
  rwa [Place.offset_after, Nat.zero_add] at contiguous

/-- A run of lexemes takes a part of the text. -/
theorem exists_leads_of_lex (h : lex text = .ok (s ++ (run ++ t))) :
    ∃ u w v, text = u ++ (w ++ v) ∧ Leads v (Place.ofEnd u) w run := by
  obtain ⟨u, x, rfl, -, hx⟩ := (lex_eq_ok_iff_leads.mp h).exists_append
  obtain ⟨w, v, rfl, hw, -⟩ := hx.exists_append
  rw [List.append_nil] at hw
  exact ⟨u, w, v, rfl, hw⟩

/-- The part of a text that a run of lexemes takes is read as that run, counted from its start. -/
theorem exists_lex_of_leads (h : Leads rest origin u done) :
    ∃ ls, lex u = .ok ls ∧ done = ls.map (Lexeme.mapPlace (·.shift origin)) := by
  obtain ⟨ls, hls, rfl⟩ := h.alone.exists_shift (origin.start_shift).symm
  exact ⟨ls, lex_eq_ok_iff_leads.mpr hls, rfl⟩

end

section

variable {source : String} {tokens run : List Token}

/-- A run of tokens can be cut out of its source: it has a text there, which is read as the run with
places counted from the run's start, and counting them on from there gives the run. -/
structure Token.Separable (source : String) (run : List Token) (text : List Char) : Prop where
  isSlice : (hull run).text? source.toList = some text
  tokenize_eq : tokenize (String.ofList text) =
    .ok (run.map (mapPlace (·.relativeTo (hull run).start)))
  shift_back : (run.map (mapPlace (·.relativeTo (hull run).start))).map
    (mapPlace (·.shift (hull run).start)) = run

theorem exists_separable (h : tokenize source = .ok tokens) (hrun : run <:+: tokens) :
    ∃ text, Token.Separable source run text := by
  obtain ⟨lexemes, hlex, rfl⟩ := tokenize_eq_ok_iff.mp h
  obtain ⟨s, t, hst⟩ := hrun
  rw [List.append_assoc] at hst
  obtain ⟨ls, more, rfl, -, hmore⟩ := List.map_eq_append_iff.mp hst.symm
  obtain ⟨ms, ns, rfl, rfl, -⟩ := List.map_eq_append_iff.mp hmore
  by_cases hne : ms = []
  · subst hne
    exact ⟨[], by simp [Token.hull, Span.text?, slice?, dropBytes?, takeBytes?], rfl, rfl⟩
  obtain ⟨u, w, v, htext, hleads⟩ := exists_leads_of_lex hlex
  obtain ⟨qs, hqs, rfl⟩ := exists_lex_of_leads hleads
  have span := hleads.hull_eq hne
  have back := congrArg (List.map Lexeme.token) (Lexeme.relativeTo_shift (Place.ofEnd u) qs)
  rw [map_token_mapPlace] at back
  refine ⟨w, ?_, ?_, ?_⟩
  · rw [span, htext, Span.text?_ofEnd]
  · rw [span, back]
    refine tokenize_eq_ok_iff.mpr ⟨qs, ?_, rfl⟩
    rwa [String.toList_ofList]
  · rw [span, back, map_token_mapPlace]

end

/-- **Every run of tokens stands alone.** Its characters, from the start of the first token to the
end of the last, are read as the run: the kinds and lengths are the same, and the places are counted
from where it starts. So each token's characters on their own are one token of its kind. -/
theorem tokenize_extract {source : String} {tokens : List Token}
    (h : tokenize source = .ok tokens) :
    (∀ i j, ∃ text, Token.Separable source (tokens.extract i j) text) ∧
    ∀ t ∈ tokens, ∃ text, t.lexeme? source.toList = some text ∧
      tokenize (String.ofList text) = .ok [⟨t.kind, ⟨{}, t.span.length⟩⟩] := by
  refine ⟨fun i j => exists_separable h ?_, fun t ht => ?_⟩
  · exact (List.take_prefix _ _).isInfix.trans (List.drop_suffix i tokens).isInfix
  obtain ⟨s, u, rfl⟩ := List.append_of_mem ht
  have run : [t] <:+: s ++ t :: u := ⟨s, u, by simp⟩
  obtain ⟨text, isSlice, read, -⟩ := exists_separable h run
  have span : Token.hull [t] = t.span := by
    simp [Token.hull, Span.stop]
  rw [span] at isSlice read
  refine ⟨text, isSlice, ?_⟩
  simpa [Token.mapPlace, Span.mapPlace] using read

/-- A blank, a comment over two lines and a word behind it, cut out of a line with more around
them. -/
theorem tokenize_extract_comment :
    tokenize "a #|é\n|#b c" = .ok
      [⟨.word, ⟨⟨0, 0⟩, 0⟩, 1⟩, ⟨.blank, ⟨⟨0, 1⟩, 1⟩, 1⟩, ⟨.blockComment, ⟨⟨0, 2⟩, 2⟩, 7⟩,
        ⟨.word, ⟨⟨1, 2⟩, 9⟩, 1⟩, ⟨.blank, ⟨⟨1, 3⟩, 10⟩, 1⟩, ⟨.word, ⟨⟨1, 4⟩, 11⟩, 1⟩] ∧
    (∃ text, Token.Separable "a #|é\n|#b c" [⟨.blank, ⟨⟨0, 1⟩, 1⟩, 1⟩,
      ⟨.blockComment, ⟨⟨0, 2⟩, 2⟩, 7⟩, ⟨.word, ⟨⟨1, 2⟩, 9⟩, 1⟩] text) ∧
    tokenize " #|é\n|#b" = .ok
      [⟨.blank, ⟨⟨0, 0⟩, 0⟩, 1⟩, ⟨.blockComment, ⟨⟨0, 1⟩, 1⟩, 7⟩, ⟨.word, ⟨⟨1, 2⟩, 8⟩, 1⟩] := by
  have whole : tokenize "a #|é\n|#b c" = .ok
      [⟨.word, ⟨⟨0, 0⟩, 0⟩, 1⟩, ⟨.blank, ⟨⟨0, 1⟩, 1⟩, 1⟩, ⟨.blockComment, ⟨⟨0, 2⟩, 2⟩, 7⟩,
        ⟨.word, ⟨⟨1, 2⟩, 9⟩, 1⟩, ⟨.blank, ⟨⟨1, 3⟩, 10⟩, 1⟩, ⟨.word, ⟨⟨1, 4⟩, 11⟩, 1⟩] := by
    decide
  obtain ⟨text, separable⟩ := (tokenize_extract whole).1 1 4
  have here : (Token.hull [⟨.blank, ⟨⟨0, 1⟩, 1⟩, 1⟩, ⟨.blockComment, ⟨⟨0, 2⟩, 2⟩, 7⟩,
      ⟨.word, ⟨⟨1, 2⟩, 9⟩, 1⟩]).text? "a #|é\n|#b c".toList = some " #|é\n|#b".toList := by
    decide
  obtain rfl : " #|é\n|#b".toList = text := Option.some.inj (here.symm.trans separable.isSlice)
  exact ⟨whole, ⟨_, separable⟩, separable.tokenize_eq⟩

end Bracketry
