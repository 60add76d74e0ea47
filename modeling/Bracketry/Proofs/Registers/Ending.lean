import Bracketry.Proofs.Messages.Ending
import Bracketry.Proofs.Registers.Driving
import Bracketry.Proofs.Registers.Stacks

/-!
# Where a text ends

The place of the last character of a text is computed twice. A reader keeps it in a register that
each of its steps sets, and reports from there a string or a comment that the text does not close. A
list that is not closed is noticed only when all tokens are there, and then the characters are
counted once more (`lastPlace`).

Both go over a text side by side, from any registers on (`Reader.lastPlace_of_run`). Whatever the
state, the decisions on a character leave the cursor where it is (`Reader.cursor_settle`). So a step
that succeeds moves the cursor as the count does, and the register then holds the place of the
character that was taken (`Reader.places_of_step`). Not even the size of the counters matters: where
a run gets, the count gets too.

The run of a reader over a whole text is that of the lexer (`Reader.exists_feed_of_run`), whose last
place is that of the text (`Lexer.last_of_feed`). From both ways messages are written, and they end
at the same place (`ends_agree`).
-/

namespace Bracketry

open Text

/-- The last place of a text is that of its final character. -/
theorem Text.Place.exists_counts_ofLast {text : List Char} (h : text ≠ []) :
    ∃ before c, text = before ++ [c] ∧ (Place.ofLast text).Counts before := by
  obtain ⟨before, c, rfl⟩ := (List.eq_nil_or_concat text).resolve_left h
  rw [List.concat_eq_append, Place.ofLast_concat]
  exact ⟨before, c, rfl, Place.counts_ofEnd before⟩

namespace Lexer

variable {text : List Char} {behind : Option Char} {done : List Lexeme} {l : Lexer}

/-- A lexer that took all of a text holds the place of its last character. -/
theorem last_of_feed (h : ({} : Lexer).feed 0 behind #[] text = .advanced done l) :
    l.last = .ofLast text := by
  have fed : (standing [] .idle).feed (byteLength []) behind #[] text = .advanced done l := h
  obtain ⟨a, rfl, -⟩ :=
    @feed_standing (fun _ _ _ => True) (fun _ _ => trivial) _ _ _ _ _ _ _ trivial fed
  rfl

/-- At its end, a text can only be refused for a string or a comment that is still open. -/
theorem code_of_finish {flaw : Flaw} (h : l.finish = .error flaw) :
    flaw.cause.code = .openString ∨ flaw.cause.code = .openComment := by
  unfold finish at h
  split at h
  all_goals cases h
  · exact .inl rfl
  · exact .inr rfl

/-- A source whose characters were all taken is not refused for a stray mark of a comment. -/
theorem code_of_tokenize {source : String} {fault : Fault}
    (h : ({} : Lexer).feed 0 none #[] source.toList = .advanced done l)
    (refused : tokenize source = .error fault) :
    fault.cause.code = .openString ∨ fault.cause.code = .openComment := by
  obtain ⟨flaw, hlex, rfl⟩ := tokenize_eq_error_iff.mp refused
  rw [lex_eq_finish h] at hlex
  cases hfinish : l.finish with
  | ok more =>
    rw [hfinish] at hlex
    cases hlex
  | error flaw' =>
    rw [hfinish] at hlex
    cases hlex
    exact code_of_finish hfinish

end Lexer

namespace Registers

/-! ## What a run comes to -/

section

variable {φ ψ α β : Type} {P : α → Prop} {Q : β → Prop} {r : Run φ α} {f : α → Run φ β}

/-- Whatever a run comes to has a property. -/
def Ensures (r : Run φ α) (P : α → Prop) : Prop := ∀ a, r = .ok a → P a

theorem Ensures.ok {a : α} (h : P a) : Ensures (.ok a : Run φ α) P := by
  intro b hb
  cases hb
  exact h

theorem Ensures.error (halt : Halt φ) : Ensures (.error halt : Run φ α) P := nofun

theorem Ensures.bind (h : Ensures r P) (hf : ∀ a, P a → Ensures (f a) Q) :
    Ensures (r >>= f) Q := by
  cases r with
  | ok a => exact hf a (h a rfl)
  | error halt => exact .error halt

theorem Ensures.bind_of_forall (hf : ∀ a, Ensures (f a) Q) : Ensures (r >>= f) Q := by
  cases r with
  | ok a => exact hf a
  | error halt => exact .error halt

theorem exists_of_bind {b : β} (h : r >>= f = .ok b) : ∃ a, r = .ok a ∧ f a = .ok b := by
  cases r with
  | ok a => exact ⟨a, rfl, h⟩
  | error halt => cases h

/-- A run comes to the same in whatever way its fault is told. -/
theorem ok_of_mapFault {g : φ → ψ} {a : α} (h : r.mapFault g = .ok a) : r = .ok a := by
  cases r with
  | ok b => cases h; rfl
  | error halt => cases halt <;> cases h

theorem mapFault_bind (g : φ → ψ) (r : Run φ α) (f : α → Run φ β) :
    (r >>= f).mapFault g = r.mapFault g >>= fun a => (f a).mapFault g := by
  cases r with
  | ok a => rfl
  | error halt => cases halt <;> rfl

theorem mapFault_count (g : φ → ψ) (limit n : Nat) :
    (count limit n).mapFault g = count limit n := by
  unfold count
  split <;> rfl

/-- Counters have no part in how a fault is told. -/
theorem mapFault_advance (g : φ → ψ) (limit : Nat) (k : Cursor) (c : Char) :
    (advance limit k c).mapFault g = advance limit k c := by
  rw [advance, advance]
  split
  · rw [mapFault_bind, mapFault_count]
    rfl
  · rw [mapFault_bind, mapFault_count]
    rfl

theorem eq_of_count {limit m n : Nat} (h : (count limit n : Run φ Nat) = .ok m) : m = n := by
  unfold count at h
  split at h
  · cases h
    rfl
  · cases h

end

namespace Reader

variable {limit : Nat} {source : List Char} {here : Place} {c : Char} {next : Option Char}

/-! ## Decisions leave the cursor where it is -/

theorem cursor_extend (s : Reader) : Ensures (s.extend limit c) (·.cursor = s.cursor) := by
  rw [extend]
  cases s.pending with
  | none => exact .error _
  | some t => exact .bind_of_forall fun _ => .ok rfl

theorem cursor_emit (s : Reader) : Ensures (s.emit : Run Refusal Reader) (·.cursor = s.cursor) := by
  rw [emit]
  cases s.pending with
  | none => exact .error _
  | some t => exact .ok rfl

theorem cursor_startToken (s : Reader) (kind : Token.Kind) (state : State) :
    Ensures (s.startToken limit here c kind state) (·.cursor = s.cursor) := by
  refine (cursor_extend _).bind fun begun same => ?_
  split
  · intro s' emitted
    exact (cursor_emit begun s' emitted).trans same
  · exact .ok same

theorem cursor_start (s : Reader) :
    Ensures (s.start limit source here c next) (·.cursor = s.cursor) := by
  have refused : Ensures (s.stray limit source here : Run Refusal Reader)
      (·.cursor = s.cursor) := by
    intro s' h
    obtain ⟨rows, -, refused⟩ := exists_of_bind (ok_of_mapFault h)
    cases refused
  rw [start]
  repeat' split
  all_goals first | exact refused | exact cursor_startToken _ _ _

theorem cursor_decision (s : Reader) :
    Ensures (s.decision limit source here c next) (·.1.cursor = s.cursor) := by
  have extended : Ensures (s.extend limit c) (·.cursor = s.cursor) := cursor_extend s
  rw [decision]
  cases s.state with
  | undetermined => exact (cursor_start s).bind fun _ same => .ok same
  | blank | word =>
    dsimp only
    split
    · exact extended.bind fun _ same => .ok same
    · exact (cursor_emit s).bind fun _ same => .ok same
  | quoted | lineComment =>
    refine extended.bind fun longer same => ?_
    split
    · exact (cursor_emit longer).bind fun _ emitted => .ok (emitted.trans same)
    · exact .ok same
  | blockCommentStart =>
    dsimp only
    split
    · exact extended.bind fun _ same => .ok same
    · exact .error _
  | blockComment =>
    refine extended.bind fun longer same => ?_
    split
    · exact .bind_of_forall fun _ => .ok same
    split
    · exact .ok same
    · exact .ok same
  | blockCommentEnd =>
    dsimp only
    split
    · refine extended.bind fun longer same => .bind_of_forall fun depth => ?_
      split
      · exact (cursor_emit { longer with depth }).bind fun _ emitted => .ok (emitted.trans same)
      · exact .ok same
    · exact .error _

/-- However often a character is handed on, the cursor is moved only when it was taken. -/
theorem cursor_settle (n : Nat) (s : Reader) :
    Ensures (settle limit source here c next n s) (·.cursor = s.cursor) := by
  induction n generalizing s with
  | zero => exact .error _
  | succ n ih =>
    refine (cursor_decision s).bind fun (handed, taken) same => ?_
    cases taken with
    | true => exact .ok same
    | false =>
      intro s' settled
      exact (ih handed s' settled).trans same

/-! ## Side by side -/

variable {s s' : Reader} {offset : Nat} {text : List Char}

/-- A step that succeeds leaves the place of its character, and moves the cursor over it. -/
theorem places_of_step (h : s.step limit source offset c next = .ok s') :
    s'.last = ⟨s.cursor, offset⟩ ∧
      (advance limit s.cursor c : Run Fault Cursor) = .ok s'.cursor := by
  obtain ⟨settled, hsettled, h⟩ := exists_of_bind h
  obtain ⟨k, moved, h⟩ := exists_of_bind h
  cases h
  rw [cursor_settle _ _ _ hsettled] at moved
  rw [← mapFault_advance Refusal.fault, moved]
  exact ⟨rfl, rfl⟩

/-- Where a run over a text gets from any registers, the count of its characters gets too, and it
comes to the last place that the registers then hold. -/
theorem lastPlace_of_run (h : run limit source offset s text = .ok s') :
    lastPlace limit s.last ⟨s.cursor, offset⟩ text = .ok s'.last := by
  induction text generalizing s offset with
  | nil =>
    cases h
    rfl
  | cons c rest ih =>
    obtain ⟨behind, stepped, h⟩ := exists_of_bind h
    obtain ⟨offset', counted, h⟩ := exists_of_bind h
    obtain ⟨last, moved⟩ := places_of_step (ok_of_mapFault stepped)
    -- The count goes on from the place that the step has left in its register.
    have following := ih h
    rw [last] at following
    simp only [lastPlace, moved, counted, ok_bind]
    exact following

/-- A run over a text from the registers of a lexer ends with those of the lexer behind it. -/
theorem exists_feed_of_run {l : Lexer} {done : List Lexeme}
    (h : run limit source offset (of l done) text = .ok s') :
    ∃ done' l', l.feed offset none done.toArray text = .advanced done' l' ∧ s' = of l' done' := by
  induction text generalizing l done offset with
  | nil =>
    cases h
    exact ⟨done, l, rfl, rfl⟩
  | cons c rest ih =>
    obtain ⟨behind, stepped, h⟩ := exists_of_bind h
    obtain ⟨offset', counted, h⟩ := exists_of_bind h
    have called : (of l done).call limit source ⟨offset, c, rest.head?⟩ = .taken behind := by
      rw [call, ok_of_mapFault stepped]
    obtain ⟨more, next, advanced, rfl⟩ := exists_of_taken called
    obtain ⟨done', l', fed, rfl⟩ := ih h
    rw [eq_of_count counted] at fed
    refine ⟨done', l', ?_, rfl⟩
    rw [Lexer.feed, Option.or_none, advanced]
    simpa using fed

end Reader

end Registers

open Registers (Reader lastPlace)

/-- **All ways to the end of a text lead to the same place.** If all steps of a reader over a source
succeed, then the count of its characters, on counters of the same size, comes to the last place in
its registers; and these are the registers of the lexer. The last place of a lexer that took a whole
source is what the count comes to if there is room, and it is the place of the final character, if
there is one. It is where all messages end that report a text that ends too early: those of the
lexer, which can then be about a string or a comment only, and those about a list that is not
closed. -/
theorem ends_agree (source : String) :
    let text := source.toList
    (∀ limit s, Reader.run limit text 0 {} text = .ok s →
      lastPlace limit {} {} text = .ok s.last ∧
      ∃ done l, ({} : Lexer).feed 0 none #[] text = .advanced done l ∧ s = .of l done) ∧
    ∀ done l, ({} : Lexer).feed 0 none #[] text = .advanced done l →
      l.last = .ofLast text ∧
      (∀ limit, source.utf8ByteSize + 1 ≤ limit → lastPlace limit {} {} text = .ok l.last) ∧
      (source ≠ "" → ∃ before c, text = before ++ [c] ∧ l.last.Counts before) ∧
      (∀ fault, tokenize source = .error fault →
        (fault.cause.code = .openString ∨ fault.cause.code = .openComment) ∧
        ∀ k, fault.EndsAt text k ↔ k = l.last.toCursor) ∧
      ∀ keep fault, parse source keep = .error fault → fault.cause.code = .unclosed →
        ∀ k, fault.EndsAt text k ↔ k = l.last.toCursor := by
  intro text
  refine ⟨fun limit s h => ⟨Reader.lastPlace_of_run h, ?_⟩, fun done l h => ?_⟩
  · change Reader.run limit text 0 (.of {} []) text = .ok s at h
    exact Reader.exists_feed_of_run h
  · have last : l.last = .ofLast text := Lexer.last_of_feed h
    have ends {keep : Keep} {fault : Fault} (refused : parse source keep = .error fault)
        (early : fault.cause.code = .unclosed ∨ fault.cause.code = .openString ∨
          fault.cause.code = .openComment) (k : Cursor) :
        fault.EndsAt text k ↔ k = l.last.toCursor := by
      rw [endsAt_iff_of_parse refused, fault.cause.stop_eq_ofLast _ early, last]
    refine ⟨last, ?_, ?_, ?_, ?_⟩
    · intro limit room
      have room' : byteLength ([] ++ text) + 1 ≤ limit := by
        rwa [List.nil_append, byteLength_toList]
      rw [last]
      exact Registers.Stacks.lastPlace_eq room'
    · intro nonempty
      rw [last]
      exact Place.exists_counts_ofLast (by simpa [text] using nonempty)
    · intro fault refused
      have code := Lexer.code_of_tokenize h refused
      exact ⟨code, ends (parse_of_tokenize_error {} refused) (.inr code)⟩
    · intro keep fault refused code
      exact ends refused (.inl code)

/-- Two texts that end with a line feed behind a character of two bytes: an open list, for which the
characters are counted, and an open string, for which the register is read. Both messages end behind
the first line. -/
theorem ends_agree_lines :
    (∃ s, Reader.run UInt64.size "(é\n".toList 0 {} "(é\n".toList = .ok s ∧
      s.last = ⟨⟨0, 2⟩, 3⟩ ∧ lastPlace UInt64.size {} {} "(é\n".toList = .ok ⟨⟨0, 2⟩, 3⟩) ∧
    (∃ done l, ({} : Lexer).feed 0 none #[] "(é\n".toList = .advanced done l ∧ "(é\n" ≠ "" ∧
      ∃ before c, "(é\n".toList = before ++ [c] ∧ (⟨⟨0, 2⟩, 3⟩ : Place).Counts before) ∧
    (∃ fault, parse "(é\n" = .error fault ∧ fault.cause.code = .unclosed ∧
      ∀ k, fault.EndsAt "(é\n".toList k ↔ k = ⟨0, 2⟩) ∧
    (∃ done l, ({} : Lexer).feed 0 none #[] "'é\n".toList = .advanced done l ∧
      "'é\n".utf8ByteSize + 1 ≤ UInt64.size ∧
      lastPlace UInt64.size {} {} "'é\n".toList = .ok ⟨⟨0, 2⟩, 3⟩) ∧
    ∃ fault, tokenize "'é\n" = .error fault ∧ fault.cause = .openString ⟨⟨0, 0⟩, 0⟩ '\'' ∧
      ∀ k, fault.EndsAt "'é\n".toList k ↔ k = ⟨0, 2⟩ := by
  have run : Reader.run UInt64.size "(é\n".toList 0 {} "(é\n".toList = .ok
      { state := .blank, pending := some ⟨.blank, ⟨⟨⟨0, 2⟩, 3⟩, 1⟩⟩, cursor := ⟨1, 0⟩,
        previous := some '\n', last := ⟨⟨0, 2⟩, 3⟩,
        tokens := [⟨.opener, ⟨⟨0, 0⟩, 0⟩, 1⟩, ⟨.word, ⟨⟨0, 1⟩, 1⟩, 2⟩] } := by decide +kernel
  have unclosed : parse "(é\n" = .error
      ((Flaw.unclosed ⟨⟨0, 0⟩, 0⟩ ⟨⟨0, 2⟩, 3⟩ .round 1).fault "(é\n".toList) := rfl
  have fed : ({} : Lexer).feed 0 none #[] "'é\n".toList = .advanced []
      ⟨.quoted .single ⟨⟨⟨0, 0⟩, 0⟩, 4⟩, ⟨1, 0⟩, some '\n', ⟨⟨0, 2⟩, 3⟩⟩ := rfl
  have unended : tokenize "'é\n" = .error
      ((Flaw.openString ⟨⟨0, 0⟩, 0⟩ ⟨⟨0, 2⟩, 3⟩ .single).fault "'é\n".toList) := rfl
  obtain ⟨counted, done, l, taken, same⟩ := (ends_agree "(é\n").1 _ _ run
  have last : (⟨⟨0, 2⟩, 3⟩ : Place) = l.last := congrArg Reader.last same
  obtain ⟨-, -, final, -, byCount⟩ := (ends_agree "(é\n").2 _ _ taken
  obtain ⟨-, room, -, byRegister, -⟩ := (ends_agree "'é\n").2 _ _ fed
  rw [← last] at final byCount
  exact ⟨⟨_, run, rfl, counted⟩, ⟨done, l, taken, by decide, final (by decide)⟩,
    ⟨_, unclosed, rfl, byCount {} _ unclosed rfl⟩, ⟨_, _, fed, by decide, room _ (by decide)⟩,
    _, unended, rfl, (byRegister _ unended).2⟩

end Bracketry
