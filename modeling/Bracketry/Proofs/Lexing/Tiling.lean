import Bracketry.Proofs.Lexing.Reading
import Mathlib.Data.List.Chain

/-!
# Lexemes tile their text

What the lexer has given out and what it is in the middle of lie side by side over what it has read,
from the first byte to the last and with nothing between them. `Text.Tiles` says so with full
places: each span stands where the ones before it end. A character either makes the last span
longer or starts one of its own (`Lexer.Activity.take_spans`), so every step lays the tiles on
(`Lexer.laid_feed`), and a text that is read to its end is covered by its lexemes (`tiles_lex`).

`Lossless` is what a reader of tokens sees of it: offsets that run without a gap from zero to the
length of the source, on the boundaries of characters, and lexemes that make up the source again
(`tokenize_lossless`).
-/

namespace Bracketry

open Text

namespace Text

/-- Spans laid over a text one behind the other, each over one character at least. -/
inductive Tiles : List Char → List Span → Prop
  | nil : Tiles [] []
  | concat {read w : List Char} {spans : List Span} (h : Tiles read spans) (hne : w ≠ []) :
    Tiles (read ++ w) (spans ++ [⟨Place.ofEnd read, byteLength w⟩])

namespace Tiles

variable {text : List Char} {spans : List Span} {s : Span}

/-- One more character under the last tile. -/
theorem extend (h : Tiles text (spans ++ [s])) (c : Char) :
    Tiles (text ++ [c]) (spans ++ [s.extend c]) := by
  generalize hall : spans ++ [s] = all at h
  cases h with
  | nil => simp at hall
  | @concat read w spans' h hne =>
    obtain ⟨rfl, hs⟩ := List.append_inj' hall rfl
    obtain rfl := List.singleton_inj.mp hs
    have longer : (⟨Place.ofEnd read, byteLength w⟩ : Span).extend c =
        ⟨Place.ofEnd read, byteLength (w ++ [c])⟩ := by simp [Span.extend]
    rw [longer, List.append_assoc]
    exact h.concat (by simp)

theorem exists_of_mem (h : Tiles text spans) (hs : s ∈ spans) :
    ∃ u w v, text = u ++ (w ++ v) ∧ w ≠ [] ∧ s = ⟨Place.ofEnd u, byteLength w⟩ := by
  induction h with
  | nil => simp at hs
  | @concat read w spans h hne ih =>
    rcases List.mem_append.mp hs with hs | hs
    · obtain ⟨u, x, v, rfl, hx, rfl⟩ := ih hs
      exact ⟨u, x, v ++ w, by simp, hx, rfl⟩
    · rw [List.mem_singleton.mp hs]
      exact ⟨read, w, [], by simp, hne, rfl⟩

theorem stop_of_getLast? (h : Tiles text spans) (hs : s ∈ spans.getLast?) :
    s.stop = byteLength text := by
  cases h with
  | nil => simp at hs
  | @concat read w spans h hne =>
    obtain rfl : s = ⟨Place.ofEnd read, byteLength w⟩ := by simpa using hs.symm
    rw [Span.stop, Place.offset_ofEnd, byteLength_append]

theorem eq_nil (h : Tiles text []) : text = [] := by
  generalize hall : ([] : List Span) = all at h
  cases h with
  | nil => rfl
  | concat h hne => simp at hall

theorem start_of_head? (h : Tiles text spans) (hs : s ∈ spans.head?) : s.start.offset = 0 := by
  induction h with
  | nil => simp at hs
  | @concat read w spans h hne ih =>
    cases spans with
    | nil =>
      obtain rfl := h.eq_nil
      obtain rfl : s = ⟨Place.ofEnd [], byteLength w⟩ := by simpa using hs.symm
      rfl
    | cons t ts => exact ih (by simpa using hs)

/-- Each tile but the first starts where the one before it ends. -/
theorem isChain (h : Tiles text spans) : spans.IsChain fun s t => t.start.offset = s.stop := by
  induction h with
  | nil => exact .nil
  | @concat read w spans h hne ih =>
    refine List.isChain_append.mpr ⟨ih, .singleton _, fun s hs t ht => ?_⟩
    obtain rfl : t = ⟨Place.ofEnd read, byteLength w⟩ := by simpa using ht.symm
    rw [h.stop_of_getLast? hs, Place.offset_ofEnd]

/-- What is under the tiles, put together, is the text. It stays so when the text goes on. -/
theorem exists_texts (h : Tiles text spans) :
    ∃ ws : List (List Char), ws.flatten = text ∧
      ∀ rest, spans.map (·.text? (text ++ rest)) = ws.map some := by
  induction h with
  | nil => exact ⟨[], rfl, fun _ => rfl⟩
  | @concat read w spans h hne ih =>
    obtain ⟨ws, rfl, hws⟩ := ih
    refine ⟨ws ++ [w], by simp, fun rest => ?_⟩
    rw [List.append_assoc, List.map_append, hws, List.map_singleton, Span.text?_ofEnd,
      List.map_append, List.map_singleton]

end Tiles

end Text

/-! ## What the lexer lays -/

namespace Lexer

/-- A character that starts a lexeme has a span to itself. -/
theorem start_spans {here : Place} {c : Char} {next : Option Char} {more : List Lexeme}
    {a : Activity} (h : start here c next = .taken more a) :
    (more ++ a.pending?.toList).map Lexeme.span = [Span.ofChar here c] := by
  rw [start] at h
  split at h
  · cases h; rfl
  · cases h; rfl
  · cases h; rfl
  · split at h
    · cases h; rfl
    split at h
    · cases h; rfl
    split at h
    · cases h; rfl
    split at h
    · cases h
    · cases h; rfl

/-- A character that is taken makes the span of what is being read longer, or starts a span of its
own behind it. -/
theorem Activity.take_spans {a a' : Activity} {previous next : Option Char} {here : Place}
    {c : Char} {more : List Lexeme} (h : a.take previous here c next = .taken more a') :
    (∃ l, a.pending? = some l ∧
      (more ++ a'.pending?.toList).map Lexeme.span = [l.span.extend c]) ∨
    (more ++ a'.pending?.toList).map Lexeme.span =
      a.pending?.toList.map Lexeme.span ++ [Span.ofChar here c] := by
  have behind {l : Lexeme} (h : (start here c next).after l = .taken more a') :
      (more ++ a'.pending?.toList).map Lexeme.span = [l.span] ++ [Span.ofChar here c] := by
    cases hd : start here c next with
    | taken done b =>
      rw [hd] at h
      cases h
      rw [List.cons_append, List.map_cons, start_spans hd]
      rfl
    | refused | brokenPair => rw [hd] at h; cases h
  cases a with
  | idle => exact .inr (start_spans h)
  | blank s =>
    rw [take] at h
    split at h
    · cases h; exact .inl ⟨_, rfl, rfl⟩
    · exact .inr (behind h)
  | word s =>
    rw [take] at h
    split at h
    · cases h; exact .inl ⟨_, rfl, rfl⟩
    · exact .inr (behind h)
  | quoted q s | lineComment s =>
    rw [take] at h
    split at h
    all_goals cases h; exact .inl ⟨_, rfl, rfl⟩
  | blockComment phase outer s =>
    refine .inl ⟨_, rfl, ?_⟩
    cases phase with
    | opening =>
      rw [take] at h
      split at h
      all_goals cases h
      rfl
    | body =>
      rw [take] at h
      repeat' split at h
      all_goals cases h; rfl
    | closing =>
      cases outer with
      | zero | succ outer =>
        rw [take] at h
        split at h
        all_goals cases h
        rfl

/-- The lexemes given out and the one that is being read tile all that was read. -/
def Laid (read : List Char) (done : List Lexeme) (a : Activity) : Prop :=
  Tiles read ((done ++ a.pending?.toList).map Lexeme.span)

theorem Laid.take {read : List Char} {done more : List Lexeme} {a a' : Activity} {c : Char}
    {next : Option Char} (laid : Laid read done a)
    (h : a.take read.getLast? (Place.ofEnd read) c next = .taken more a') :
    Laid (read ++ [c]) (done ++ more) a' := by
  simp only [Laid, List.map_append, List.append_assoc] at laid ⊢
  rw [← List.map_append]
  rcases Activity.take_spans h with ⟨l, hl, hspans⟩ | hspans
  · rw [hl] at laid
    rw [hspans]
    exact laid.extend c
  · rw [hspans, ← List.append_assoc]
    exact laid.concat (List.cons_ne_nil c [])

/-- As far as a text was read, it is tiled. -/
theorem laid_feed {read : List Char} {behind : Option Char} {done : List Lexeme} {l : Lexer}
    (h : ({} : Lexer).feed 0 behind #[] read = .advanced done l) : Laid read done l.activity := by
  have start : Laid [] [] .idle := Tiles.nil
  have fed : (standing [] .idle).feed (byteLength []) behind #[] read = .advanced done l := h
  obtain ⟨a, rfl, laid⟩ := feed_standing Laid.take start fed
  exact laid

/-- At the end of a text, what is being read is given out. -/
theorem eq_pending_of_finish {l : Lexer} {more : List Lexeme} (h : l.finish = .ok more) :
    more = l.activity.pending?.toList := by
  unfold finish at h
  split at h
  all_goals cases h
  all_goals next heq => rw [heq]; rfl

end Lexer

theorem tiles_lex {text : List Char} {lexemes : List Lexeme} (h : lex text = .ok lexemes) :
    Tiles text (lexemes.map Lexeme.span) := by
  cases hfeed : ({} : Lexer).feed 0 none #[] text with
  | advanced done l =>
    rw [lex_eq_finish hfeed] at h
    cases hfinish : l.finish with
    | error flaw => rw [hfinish] at h; cases h
    | ok more =>
      rw [hfinish] at h
      cases h
      rw [Lexer.eq_pending_of_finish hfinish]
      exact Lexer.laid_feed hfeed
  | refused done flaw l => rw [lex_eq_error_of_refused hfeed] at h; cases h
  | brokenPair => exact absurd hfeed (Lexer.feed_start_ne_brokenPair text)

/-! ## Nothing is lost -/

/-- Tokens that cover a source without loss. -/
structure Lossless (source : String) (tokens : List Token) : Prop where
  /-- The first token starts at the first byte. -/
  start : ∀ t ∈ tokens.head?, t.span.start.offset = 0
  /-- No token is empty. -/
  length_pos : ∀ t ∈ tokens, 0 < t.span.length
  /-- Each token starts where the one before it ends. -/
  contiguous : tokens.IsChain fun t u => u.span.start.offset = t.span.stop
  /-- The last token ends at the last byte. -/
  stop : ∀ t ∈ tokens.getLast?, t.span.stop = source.utf8ByteSize
  /-- No token starts or ends inside a character. -/
  boundaries : ∀ t ∈ tokens, (⟨t.span.start.offset⟩ : String.Pos.Raw).IsValid source ∧
    (⟨t.span.stop⟩ : String.Pos.Raw).IsValid source
  /-- Every token has a text, and the texts together are the source. -/
  texts : ∃ texts : List (List Char), tokens.map (·.lexeme? source.toList) = texts.map some ∧
    String.ofList texts.flatten = source

theorem Text.byteLength_toList (source : String) :
    byteLength source.toList = source.utf8ByteSize := by
  rw [← String.ofList_toList (s := source)]
  generalize source.toList = text
  rw [String.toList_ofList]
  induction text with
  | nil => rfl
  | cons c text ih =>
    rw [byteLength_cons, ih, String.ofList_cons, String.utf8ByteSize_append,
      String.utf8ByteSize_singleton]

/-- The end of a start of a source is the boundary of a character. -/
theorem Text.isValid_byteLength {source : String} {s t : List Char} (h : source.toList = s ++ t) :
    (⟨byteLength s⟩ : String.Pos.Raw).IsValid source := by
  rw [String.Pos.Raw.isValid_iff_exists_append]
  refine ⟨String.ofList s, String.ofList t, ?_, ?_⟩
  · rw [← String.ofList_append, ← h, String.ofList_toList]
  · have := byteLength_toList (String.ofList s)
    rw [String.toList_ofList] at this
    rw [this]
    rfl

theorem lossless_of_tiles {source : String} {tokens : List Token}
    (h : Tiles source.toList (tokens.map Token.span)) : Lossless source tokens where
  start t ht := h.start_of_head? (by rw [List.head?_map]; exact Option.mem_map_of_mem _ ht)
  length_pos t ht := by
    obtain ⟨u, w, v, -, hne, hspan⟩ := h.exists_of_mem (List.mem_map_of_mem ht)
    obtain ⟨c, w, rfl⟩ := List.exists_cons_of_ne_nil hne
    have := c.utf8Size_pos
    simp only [hspan, byteLength_cons]
    omega
  contiguous := (List.isChain_map Token.span).mp h.isChain
  stop t ht := by
    rw [← byteLength_toList]
    exact h.stop_of_getLast? (by rw [List.getLast?_map]; exact Option.mem_map_of_mem _ ht)
  boundaries t ht := by
    obtain ⟨u, w, v, htext, -, hspan⟩ := h.exists_of_mem (List.mem_map_of_mem ht)
    rw [hspan, Span.stop, Place.offset_ofEnd, ← byteLength_append]
    exact ⟨isValid_byteLength htext, isValid_byteLength (by rw [htext, List.append_assoc])⟩
  texts := by
    obtain ⟨texts, hflat, htexts⟩ := h.exists_texts
    refine ⟨texts, ?_, by rw [hflat, String.ofList_toList]⟩
    have := htexts []
    rwa [List.append_nil, List.map_map] at this

theorem map_span_token (lexemes : List Lexeme) :
    (lexemes.map Lexeme.token).map Token.span = lexemes.map Lexeme.span := by
  rw [List.map_map]
  rfl

/-- **Tokens lose nothing of their source**, and neither do those of any start of it: as far as the
lexer has come, in a source that is accepted or in one that is not, the lexemes given out and the
one that is being read cover what was read. -/
theorem tokenize_lossless (source : String) :
    (∀ tokens, tokenize source = .ok tokens → Lossless source tokens) ∧
    (∀ read rest, source.toList = read ++ rest → ∀ done l,
      ({} : Lexer).feed 0 rest.head? #[] read = .advanced done l →
      Lossless (String.ofList read) ((done ++ l.activity.pending?.toList).map Lexeme.token)) := by
  refine ⟨fun tokens h => ?_, fun read rest _ done l h => ?_⟩
  · obtain ⟨lexemes, hlex, rfl⟩ := tokenize_eq_ok_iff.mp h
    apply lossless_of_tiles
    rw [map_span_token]
    exact tiles_lex hlex
  · apply lossless_of_tiles
    rw [String.toList_ofList, map_span_token]
    exact Lexer.laid_feed h

/-- A source with a character of two bytes, read to its end and read up to its closer. -/
theorem tokenize_lossless_accented :
    (tokenize "(é)" = .ok
        [⟨.opener, ⟨⟨0, 0⟩, 0⟩, 1⟩, ⟨.word, ⟨⟨0, 1⟩, 1⟩, 2⟩, ⟨.closer, ⟨⟨0, 2⟩, 3⟩, 1⟩] ∧
      Lossless "(é)"
        [⟨.opener, ⟨⟨0, 0⟩, 0⟩, 1⟩, ⟨.word, ⟨⟨0, 1⟩, 1⟩, 2⟩, ⟨.closer, ⟨⟨0, 2⟩, 3⟩, 1⟩]) ∧
    (({} : Lexer).feed 0 (some ')') #[] ['(', 'é'] =
        .advanced [⟨.opener .round, ⟨⟨0, 0⟩, 0⟩, 1⟩]
          ⟨.word ⟨⟨⟨0, 1⟩, 1⟩, 2⟩, ⟨0, 2⟩, some 'é', ⟨⟨0, 1⟩, 1⟩⟩ ∧
      Lossless "(é" [⟨.opener, ⟨⟨0, 0⟩, 0⟩, 1⟩, ⟨.word, ⟨⟨0, 1⟩, 1⟩, 2⟩]) := by
  have whole : tokenize "(é)" = .ok
      [⟨.opener, ⟨⟨0, 0⟩, 0⟩, 1⟩, ⟨.word, ⟨⟨0, 1⟩, 1⟩, 2⟩, ⟨.closer, ⟨⟨0, 2⟩, 3⟩, 1⟩] := by
    decide
  have fed : ({} : Lexer).feed 0 (some ')') #[] ['(', 'é'] =
      .advanced [⟨.opener .round, ⟨⟨0, 0⟩, 0⟩, 1⟩]
        ⟨.word ⟨⟨⟨0, 1⟩, 1⟩, 2⟩, ⟨0, 2⟩, some 'é', ⟨⟨0, 1⟩, 1⟩⟩ := rfl
  exact ⟨⟨whole, (tokenize_lossless "(é)").1 _ whole⟩,
    fed, (tokenize_lossless "(é)").2 ['(', 'é'] [')'] (by decide) _ _ fed⟩

end Bracketry
