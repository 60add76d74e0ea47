import Bracketry.Proofs.Registers.Widening

/-!
# Reading by hand

A reader can be given its characters by hand: each at any offset and with any character announced
behind it, whether or not they are those of a text, and on after a refusal, from the registers that
the refusal leaves. It undoes nothing: what was pending is complete by then, and all else is as it
was (`Reader.call_refused`).

The registers still agree with each other behind every call (`Reader.Consistent`), because they are
at all times those of a lexer that is driven in the same way (`Reader.exists_drive_of`). Two things
can break a run off: a character that is not the announced half of `#|` or `|#`, and a counter that
goes beyond its limit.

Counters have room for a run if they can hold four bytes for each of its calls, and with room a call
is what a step of the lexer is (`Reader.call_cases_of_room`). A call with less room is the same call
or overflows (`Reader.call_widens`).
-/

namespace Bracketry

open Text

theorem Text.Cursor.line_advance_le (k : Cursor) (c : Char) :
    (k.advance c).line ≤ k.line + 1 := by
  rw [advance]
  split
  · exact Nat.le_refl _
  · exact Nat.le_succ _

theorem Text.Cursor.column_advance_le (k : Cursor) (c : Char) :
    (k.advance c).column ≤ k.column + 1 := by
  rw [advance]
  split
  · exact Nat.zero_le _
  · exact Nat.le_refl _

/-! ## A lexer driven by hand -/

namespace Lexer

/-- A character that is given by hand. -/
structure Call where
  offset : Nat
  c : Char
  /-- The character that is announced behind it. -/
  next : Option Char
deriving DecidableEq

/-- A lexer behind some calls, and all that was given out. There is none behind a call that breaks
an announced pair. -/
def drive (l : Lexer) (done : List Lexeme) : List Call → Option (Lexer × List Lexeme)
  | [] => some (l, done)
  | k :: calls =>
    match l.step k.offset k.c k.next with
    | .advanced more l' | .refused more _ l' => l'.drive (done ++ more) calls
    | .brokenPair => none

section

variable {a : Activity} {previous next : Option Char} {here : Place} {c : Char}
  {more : List Lexeme}

/-- Nothing but `|#` is refused where a lexeme would start. -/
theorem start_eq_refused_iff :
    start here c next = .refused more ↔ (c = '|' ∧ next = some '#') ∧ more = [] := by
  constructor
  · intro h
    rw [start] at h
    repeat' split at h
    all_goals cases h
    rename_i closes
    exact ⟨by simpa [closesComment] using closes, rfl⟩
  · rintro ⟨⟨rfl, rfl⟩, rfl⟩
    rfl

theorem start_ne_brokenPair : start here c next ≠ .brokenPair := by
  intro h
  have keeps := start_keeps here c next
  rw [h] at keeps
  exact keeps

/-- What a character ends that does not belong to it: a blank, a word, or nothing at all. -/
def Activity.Yields : Activity → Prop
  | .idle | .blank _ | .word _ => True
  | _ => False

theorem after_eq_refused_iff {l : Lexeme} {d : Decision} :
    d.after l = .refused more ↔ ∃ behind, d = .refused behind ∧ more = l :: behind := by
  cases d <;> simp [Decision.after, eq_comm]

/-- `|#` is refused wherever a lexeme could start at it. What was being read is given out. -/
theorem Activity.take_eq_refused_iff : a.take previous here c next = .refused more ↔
    (c = '|' ∧ next = some '#') ∧ a.Yields ∧ more = a.pending?.toList := by
  cases a with
  | idle => simp [take, start_eq_refused_iff, Yields, pending?]
  | blank s =>
    rw [take]
    split
    · next blank =>
      refine iff_of_false (by simp) ?_
      rintro ⟨⟨rfl, -⟩, -⟩
      exact absurd blank (by decide)
    · simp [after_eq_refused_iff, start_eq_refused_iff, Yields, pending?]
  | word s =>
    rw [take]
    split
    · next continues =>
      refine iff_of_false (by simp) ?_
      rintro ⟨⟨rfl, rfl⟩, -⟩
      exact absurd continues (by decide)
    · simp [after_eq_refused_iff, start_eq_refused_iff, Yields, pending?]
  | quoted q s | lineComment s =>
    rw [take]
    split <;> simp [Yields]
  | blockComment phase outer s =>
    refine iff_of_false ?_ (by simp [Yields])
    cases phase with
    | opening | body =>
      rw [take]
      repeat' split
      all_goals simp
    | closing =>
      cases outer with
      | zero | succ outer =>
        rw [take]
        split <;> simp

/-- Only a character that is not the announced one breaks a pair. -/
theorem Activity.take_eq_brokenPair_iff : a.take previous here c next = .brokenPair ↔
    (∃ outer s, a = .blockComment .opening outer s ∧ c ≠ '|') ∨
      ∃ outer s, a = .blockComment .closing outer s ∧ c ≠ '#' := by
  have after {l : Lexeme} : (start here c next).after l ≠ .brokenPair := by
    cases h : start here c next with
    | brokenPair => exact absurd h start_ne_brokenPair
    | taken | refused => nofun
  cases a with
  | idle => simp [take, start_ne_brokenPair]
  | blank s | word s =>
    rw [take]
    split <;> simp [after]
  | quoted q s | lineComment s =>
    rw [take]
    split <;> simp
  | blockComment phase outer s =>
    cases phase with
    | opening =>
      rw [take]
      split <;> simp_all
    | body =>
      rw [take]
      repeat' split
      all_goals simp
    | closing =>
      cases outer with
      | zero | succ outer =>
        rw [take]
        split <;> simp_all

end

/-! ### What a lexer holds behind some calls -/

/-- The numbers of a lexer that was given so many characters. -/
structure Within (n : Nat) (l : Lexer) : Prop where
  length : ∀ x ∈ l.activity.pending?, x.span.length ≤ 4 * n
  depth : l.activity.depth ≤ n
  line : l.cursor.line ≤ n
  column : l.cursor.column ≤ n

/-- No lexeme is empty, whether it was given out or is being read. -/
def Filled (l : Lexer) (done : List Lexeme) : Prop :=
  ∀ x ∈ done ++ l.activity.pending?.toList, 0 < x.span.length

variable {n : Nat} {l l' : Lexer} {done more : List Lexeme} {flaw : Flaw} {k : Call}

theorem exists_within (l : Lexer) : ∃ n, l.Within n := by
  obtain ⟨m, hm⟩ : ∃ m, ∀ x ∈ l.activity.pending?, x.span.length ≤ m := by
    cases l.activity.pending? with
    | none => exact ⟨0, nofun⟩
    | some x => exact ⟨x.span.length, fun y hy => by cases hy; exact Nat.le_refl _⟩
  refine ⟨m + l.activity.depth + l.cursor.line + l.cursor.column, ?_, by omega, by omega,
    by omega⟩
  intro x hx
  exact Nat.le_trans (hm x hx) (by omega)

theorem step_eq_advanced_iff : l.step k.offset k.c k.next = .advanced more l' ↔
    ∃ a, l.activity.take l.previous ⟨l.cursor, k.offset⟩ k.c k.next = .taken more a ∧
      l' = ⟨a, l.cursor.advance k.c, some k.c, ⟨l.cursor, k.offset⟩⟩ := by
  rw [step]
  cases l.activity.take l.previous ⟨l.cursor, k.offset⟩ k.c k.next <;> simp [eq_comm]

theorem step_eq_refused_iff : l.step k.offset k.c k.next = .refused more flaw l' ↔
    l.activity.take l.previous ⟨l.cursor, k.offset⟩ k.c k.next = .refused more ∧
      flaw = .strayCommentEnd ⟨l.cursor, k.offset⟩ ∧ l' = { l with activity := .idle } := by
  rw [step]
  cases l.activity.take l.previous ⟨l.cursor, k.offset⟩ k.c k.next <;> simp [eq_comm]

theorem step_eq_brokenPair_iff : l.step k.offset k.c k.next = .brokenPair ↔
    l.activity.take l.previous ⟨l.cursor, k.offset⟩ k.c k.next = .brokenPair := by
  rw [step]
  cases l.activity.take l.previous ⟨l.cursor, k.offset⟩ k.c k.next <;> simp

/-- A lexeme behind a character that was taken has a span from before, perhaps with the character
at its end, or is that character. -/
theorem Activity.span_of_take {a a' : Activity} {previous next : Option Char} {here : Place}
    {c : Char} (h : a.take previous here c next = .taken more a') {x : Lexeme}
    (hx : x ∈ more ++ a'.pending?.toList) :
    (∃ y ∈ a.pending?, x.span = y.span ∨ x.span = y.span.extend c) ∨
      x.span = .ofChar here c := by
  have hspan := List.mem_map_of_mem (f := Lexeme.span) hx
  rcases Activity.take_spans h with ⟨y, hy, spans⟩ | spans
  · rw [spans, List.mem_singleton] at hspan
    exact .inl ⟨y, hy, .inr hspan⟩
  · rw [spans, List.mem_append, List.mem_singleton] at hspan
    refine hspan.imp_left fun before => ?_
    obtain ⟨y, hy, same⟩ := List.mem_map.mp before
    exact ⟨y, Option.mem_toList.mp hy, .inl same.symm⟩

theorem Within.advanced (h : l.Within n) (hstep : l.step k.offset k.c k.next = .advanced more l') :
    l'.Within (n + 1) := by
  obtain ⟨a, htake, rfl⟩ := step_eq_advanced_iff.mp hstep
  refine ⟨?_, ?_, ?_, ?_⟩
  · intro x hx
    have size := k.c.utf8Size_le_four
    have given : x ∈ more ++ a.pending?.toList :=
      List.mem_append_right _ (Option.mem_toList.mpr hx)
    rcases Activity.span_of_take htake given with ⟨y, hy, same | longer⟩ | new
    · rw [same]
      exact Nat.le_trans (h.length y hy) (by omega)
    · rw [longer]
      exact Nat.add_le_add (h.length y hy) size
    · rw [new]
      exact Nat.le_trans size (by omega)
  · exact Nat.le_trans (Registers.Reader.depth_le_of_take htake) (Nat.succ_le_succ h.depth)
  · exact Nat.le_trans (l.cursor.line_advance_le k.c) (Nat.succ_le_succ h.line)
  · exact Nat.le_trans (l.cursor.column_advance_le k.c) (Nat.succ_le_succ h.column)

theorem Within.refused (h : l.Within n)
    (hstep : l.step k.offset k.c k.next = .refused more flaw l') : l'.Within (n + 1) := by
  obtain ⟨-, -, rfl⟩ := step_eq_refused_iff.mp hstep
  exact ⟨nofun, Nat.zero_le _, Nat.le_succ_of_le h.line, Nat.le_succ_of_le h.column⟩

theorem Filled.advanced (h : l.Filled done)
    (hstep : l.step k.offset k.c k.next = .advanced more l') : l'.Filled (done ++ more) := by
  obtain ⟨a, htake, rfl⟩ := step_eq_advanced_iff.mp hstep
  have size := k.c.utf8Size_pos
  intro x hx
  rw [List.append_assoc] at hx
  rcases List.mem_append.mp hx with hx | hx
  · exact h x (List.mem_append_left _ hx)
  · rcases Activity.span_of_take htake hx with ⟨y, hy, hspan | hspan⟩ | hspan
    · rw [hspan]
      exact h y (List.mem_append_right _ (Option.mem_toList.mpr hy))
    · rw [hspan]
      exact Nat.add_pos_right _ size
    · rw [hspan]
      exact size

theorem Filled.refused (h : l.Filled done)
    (hstep : l.step k.offset k.c k.next = .refused more flaw l') : l'.Filled (done ++ more) := by
  obtain ⟨htake, -, rfl⟩ := step_eq_refused_iff.mp hstep
  obtain ⟨-, -, rfl⟩ := Activity.take_eq_refused_iff.mp htake
  intro x hx
  exact h x (by simpa [Activity.pending?] using hx)

/-- Behind any calls there is room for one more character than there were calls, and no lexeme is
empty. -/
theorem drive_keeps {calls : List Call} {done' : List Lexeme} (hn : l.Within n)
    (hfilled : l.Filled done) (h : l.drive done calls = some (l', done')) :
    l'.Within (n + calls.length) ∧ l'.Filled done' := by
  induction calls generalizing l done n with
  | nil =>
    cases h
    exact ⟨hn, hfilled⟩
  | cons k calls ih =>
    rw [drive] at h
    rw [List.length_cons, Nat.add_comm calls.length, ← Nat.add_assoc]
    split at h
    · next hstep => exact ih (hn.advanced hstep) (hfilled.advanced hstep) h
    · next hstep => exact ih (hn.refused hstep) (hfilled.refused hstep) h
    · cases h

end Lexer

namespace Registers

open Lexer (Activity Call continuesWord)

namespace Reader

/-! ## A reader driven by hand -/

/-- What comes of a call. -/
inductive Outcome
  | taken (s : Reader)
  | refused (fault : Fault) (s : Reader)
  | aborted (reason : Abort)

section

variable (limit : Nat) (source : List Char)

/-- A step on a character that is given by hand. -/
def call (s : Reader) (k : Call) : Outcome :=
  match s.step limit source k.offset k.c k.next with
  | .ok s' => .taken s'
  | .error (.fault refusal) => .refused refusal.fault refusal.left
  | .error (.abort reason) => .aborted reason

/-- A reader behind some calls, refused ones among them. There is none behind a run that is broken
off. -/
def drive (s : Reader) : List Call → Option Reader
  | [] => some s
  | k :: calls =>
    match s.call limit source k with
    | .taken s' | .refused _ s' => s'.drive calls
    | .aborted _ => none

end

variable {limit n : Nat} {source : List Char} {l l' : Lexer} {done more : List Lexeme} {k : Call}

/-! ### The registers of a lexer behind a call -/

/-- Nothing is done behind a refusal. -/
theorem stray_bind {α β : Type} (limit : Nat) (source : List Char) (here : Place) (s : Reader)
    (f : α → Run Refusal β) : s.stray limit source here >>= f = s.stray limit source here := by
  simp only [stray, refuse]
  generalize layout limit limit (Flaw.strayCommentEnd here).excerpt source = laid
  cases laid with
  | ok rows => rfl
  | error halt => cases halt <;> rfl

theorem decision_idle (limit : Nat) (source : List Char) (l : Lexer) (done : List Lexeme)
    (here : Place) :
    (of { l with activity := .idle } done).decision limit source here '|' (some '#') =
      (of { l with activity := .idle } done).stray limit source here := by
  simp only [decision, of_state, State.of]
  exact stray_bind _ _ _ _ _

/-- A blank or a word is given out in front of `|#`. -/
theorem decision_handsOn (limit : Nat) (source : List Char) (done : List Lexeme) (here : Place)
    (yields : l.activity.Yields) (busy : l.activity ≠ .idle) :
    (of l done).decision limit source here '|' (some '#') =
      .ok (of { l with activity := .idle } (done ++ l.activity.pending?.toList), false) := by
  obtain ⟨a, cursor, previous, last⟩ := l
  cases a with
  | idle => exact absurd rfl busy
  | blank s =>
    have emitted := emit_eq (a := .blank s) Refusal ⟨.idle, cursor, previous, last⟩ done rfl rfl
    have other : ¬ isBlank '|' = true := by decide
    simp only [decision, of_state, State.of, if_neg other, emitted, ok_bind, pure_eq_ok]
    rfl
  | word s =>
    have emitted := emit_eq (a := .word s) Refusal ⟨.idle, cursor, previous, last⟩ done rfl rfl
    have other : ¬ continuesWord '|' (some '#') = true := by decide
    simp only [decision, of_state, State.of, if_neg other, emitted, ok_bind, pure_eq_ok]
    rfl
  | quoted | lineComment | blockComment => exact yields.elim

/-- Where a lexer refuses `|#`, the step of a reader is the refusal and nothing else. It leaves the
registers with nothing pending, however far the counters reach. -/
theorem step_of_yields (limit : Nat) (source : List Char) (done : List Lexeme)
    (yields : l.activity.Yields) (offset : Nat) :
    (of l done).step limit source offset '|' (some '#') =
      (of { l with activity := .idle } (done ++ l.activity.pending?.toList)).stray limit source
        ⟨l.cursor, offset⟩ := by
  have settled : settle limit source ⟨l.cursor, offset⟩ '|' (some '#') maxDecisions (of l done) =
      (of { l with activity := .idle } (done ++ l.activity.pending?.toList)).stray limit source
        ⟨l.cursor, offset⟩ := by
    by_cases idle : l.activity = .idle
    · obtain ⟨_, cursor, previous, last⟩ := l
      cases idle
      rw [maxDecisions, settle, decision_idle limit source ⟨.idle, cursor, previous, last⟩,
        stray_bind, Activity.pending?, Option.toList_none, List.append_nil]
    · rw [maxDecisions, settle, decision_handsOn limit source done _ yields idle, ok_bind]
      simp only [settle, decision_idle, stray_bind]
  exact (congrArg (· >>= _) settled).trans (stray_bind _ _ _ _ _)

theorem fits_of_within (h : l.Within n) (room : n + 1 ≤ limit) : Fits limit l.cursor :=
  ⟨Nat.le_trans (Nat.succ_le_succ h.line) room, Nat.le_trans (Nat.succ_le_succ h.column) room⟩

theorem settles_of_within (h : l.Within n) (room : 4 * (n + 1) ≤ limit) :
    Settles limit source ⟨l.cursor, k.offset⟩ k.c k.next done l := by
  have size := k.c.utf8Size_le_four
  refine settles ?_ ?_ (by omega) (fits_of_within h (by omega))
  · intro x hx
    exact Nat.le_trans (Nat.add_le_add (h.length x hx) size) room
  · exact Nat.le_trans (Nat.succ_le_succ h.depth) (by omega)

/-- With room in all counters a reader takes the step of a lexer. -/
theorem step_follows_of_within (source : List Char) (done : List Lexeme) (k : Call)
    (h : l.Within n) (room : 4 * (n + 1) ≤ limit) :
    Steps source done ((of l done).step limit source k.offset k.c k.next)
      (l.step k.offset k.c k.next) :=
  step_follows (settles_of_within h room) (fits_of_within h (by omega))

theorem call_of_brokenPair (hstep : l.step k.offset k.c k.next = .brokenPair) :
    ∃ reason, reason ≠ .overflow ∧ (of l done).call limit source k = .aborted reason := by
  have broken := Lexer.step_eq_brokenPair_iff.mp hstep
  obtain ⟨a, cursor, previous, last⟩ := l
  rcases Activity.take_eq_brokenPair_iff.mp broken with
    ⟨outer, s, opening, hc⟩ | ⟨outer, s, closing, hc⟩
  · obtain rfl : a = .blockComment .opening outer s := opening
    refine ⟨.notCommentOpener, by decide, ?_⟩
    simp only [call, step, maxDecisions, settle, decision, of_state, State.of, if_neg hc, abort,
      error_bind]
  · obtain rfl : a = .blockComment .closing outer s := closing
    refine ⟨.notCommentCloser, by decide, ?_⟩
    simp only [call, step, maxDecisions, settle, decision, of_state, State.of, if_neg hc, abort,
      error_bind]

/-- With room in all counters a call comes to what a lexer's step comes to. -/
theorem call_cases_of_room (source : List Char) (done : List Lexeme) (k : Call) (h : l.Within n)
    (room : 4 * (n + 1) ≤ limit) :
    (∃ more l', l.step k.offset k.c k.next = .advanced more l' ∧
      (of l done).call limit source k = .taken (of l' (done ++ more))) ∨
    (∃ more flaw l', l.step k.offset k.c k.next = .refused more flaw l' ∧
      (of l done).call limit source k = .refused (flaw.fault source) (of l' (done ++ more))) ∨
    (l.step k.offset k.c k.next = .brokenPair ∧
      ∃ reason, reason ≠ .overflow ∧ (of l done).call limit source k = .aborted reason) := by
  have follows := step_follows_of_within source done k h room
  cases hstep : l.step k.offset k.c k.next with
  | advanced more l' =>
    rw [hstep, Steps] at follows
    exact .inl ⟨more, l', rfl, by rw [call, follows]⟩
  | refused more flaw l' =>
    rw [hstep, Steps] at follows
    exact .inr (.inl ⟨more, flaw, l', rfl, by rw [call, follows]⟩)
  | brokenPair => exact .inr (.inr ⟨rfl, call_of_brokenPair hstep⟩)

/-! ### Counters that overflow -/

/-- A call that does not overflow is the same call with a wider limit. -/
theorem call_widens {limit' : Nat} (wider : limit ≤ limit') (source : List Char) (s : Reader)
    (k : Call) :
    s.call limit source k = .aborted .overflow ∨
      s.call limit source k = s.call limit' source k := by
  rw [call, call]
  rcases widens_step wider source k.c k.next s k.offset with beyond | same
  · left
    rw [beyond]
    rfl
  · right
    rw [same]

/-- A call comes to what a lexer's step comes to, or a counter goes beyond its limit. -/
theorem call_cases (limit : Nat) (source : List Char) (l : Lexer) (done : List Lexeme) (k : Call) :
    (of l done).call limit source k = .aborted .overflow ∨
    (∃ more l', l.step k.offset k.c k.next = .advanced more l' ∧
      (of l done).call limit source k = .taken (of l' (done ++ more))) ∨
    (∃ more flaw l', l.step k.offset k.c k.next = .refused more flaw l' ∧
      (of l done).call limit source k = .refused (flaw.fault source) (of l' (done ++ more))) ∨
    (l.step k.offset k.c k.next = .brokenPair ∧
      ∃ reason, reason ≠ .overflow ∧ (of l done).call limit source k = .aborted reason) := by
  obtain ⟨n, within⟩ := l.exists_within
  rcases call_widens (Nat.le_add_right limit (4 * (n + 1))) source (of l done) k with beyond | same
  · exact .inl beyond
  · rw [same]
    exact .inr (call_cases_of_room source done k within (Nat.le_add_left _ _))

theorem exists_of_taken {s : Reader} (h : (of l done).call limit source k = .taken s) :
    ∃ more l', l.step k.offset k.c k.next = .advanced more l' ∧ s = of l' (done ++ more) := by
  rcases call_cases limit source l done k with call | ⟨more, l', hstep, call⟩ |
    ⟨more, flaw, l', -, call⟩ | ⟨-, reason, -, call⟩
  all_goals cases call.symm.trans h
  exact ⟨more, l', hstep, rfl⟩

theorem exists_of_refused {fault : Fault} {s : Reader}
    (h : (of l done).call limit source k = .refused fault s) :
    ∃ more flaw l', l.step k.offset k.c k.next = .refused more flaw l' ∧
      fault = flaw.fault source ∧ s = of l' (done ++ more) := by
  rcases call_cases limit source l done k with call | ⟨more, l', -, call⟩ |
    ⟨more, flaw, l', hstep, call⟩ | ⟨-, reason, -, call⟩
  all_goals cases call.symm.trans h
  exact ⟨more, flaw, l', hstep, rfl, rfl⟩

theorem brokenPair_of_aborted {reason : Abort} (other : reason ≠ .overflow)
    (h : (of l done).call limit source k = .aborted reason) :
    l.step k.offset k.c k.next = .brokenPair := by
  rcases call_cases limit source l done k with call | ⟨more, l', -, call⟩ |
    ⟨more, flaw, l', -, call⟩ | ⟨hstep, reason', -, call⟩
  all_goals cases call.symm.trans h
  · exact absurd rfl other
  · exact hstep

/-- A reader that is driven by hand holds at all times what a lexer holds that is driven so. -/
theorem exists_drive_of {calls : List Call} {s : Reader}
    (h : (of l done).drive limit source calls = some s) :
    ∃ l' done', l.drive done calls = some (l', done') ∧ s = of l' done' := by
  induction calls generalizing l done with
  | nil =>
    cases h
    exact ⟨l, done, rfl, rfl⟩
  | cons k calls ih =>
    rw [drive] at h
    rw [Lexer.drive]
    cases hk : (of l done).call limit source k with
    | taken s' =>
      obtain ⟨more, l', hstep, rfl⟩ := exists_of_taken hk
      rw [hk] at h
      rw [hstep]
      exact ih h
    | refused fault s' =>
      obtain ⟨more, flaw, l', hstep, -, rfl⟩ := exists_of_refused hk
      rw [hk] at h
      rw [hstep]
      exact ih h
    | aborted reason =>
      rw [hk] at h
      cases h

/-! ## Registers that agree -/

/-- The kind of token that is read in a state. -/
def State.kind? : State → Option Token.Kind
  | undetermined => none
  | blank => some .blank
  | word => some .word
  | quoted q => some (.quoted q)
  | lineComment => some .lineComment
  | blockComment | blockCommentStart | blockCommentEnd => some .blockComment

/-- The registers agree with each other, and no token is empty. -/
structure Consistent (s : Reader) : Prop where
  pending_eq_none_iff : s.pending = none ↔ s.state = .undetermined
  kind_pending : s.pending.map Token.kind = s.state.kind?
  one_le_depth_iff : 1 ≤ s.depth ↔
    s.state = .blockComment ∨ s.state = .blockCommentStart ∨ s.state = .blockCommentEnd
  filled : ∀ t ∈ s.tokens, 0 < t.span.length

theorem consistent_of (h : l.Filled done) : (of l done).Consistent := by
  obtain ⟨a, cursor, previous, last⟩ := l
  have tokens : ∀ t ∈ done.map Lexeme.token, 0 < t.span.length := by
    intro t ht
    obtain ⟨x, hx, rfl⟩ := List.mem_map.mp ht
    exact h x (List.mem_append_left _ hx)
  cases a with
  | blockComment phase outer s =>
    cases phase <;> exact ⟨by simp [of, State.of, Activity.pending?], rfl,
      by simp [of, State.of, Activity.depth], tokens⟩
  | _ => exact ⟨by simp [of, State.of, Activity.pending?], rfl,
      by simp [of, State.of, Activity.depth], tokens⟩

theorem state_of_eq_start_iff {a : Activity} :
    State.of a = .blockCommentStart ↔ ∃ outer s, a = .blockComment .opening outer s := by
  cases a with
  | blockComment phase outer s => cases phase <;> simp [State.of]
  | _ => simp [State.of]

theorem state_of_eq_end_iff {a : Activity} :
    State.of a = .blockCommentEnd ↔ ∃ outer s, a = .blockComment .closing outer s := by
  cases a with
  | blockComment phase outer s => cases phase <;> simp [State.of]
  | _ => simp [State.of]

theorem yields_iff {a : Activity} :
    a.Yields ↔ State.of a = .undetermined ∨ State.of a = .blank ∨ State.of a = .word := by
  cases a with
  | blockComment phase outer s => cases phase <;> simp [State.of, Activity.Yields]
  | _ => simp [State.of, Activity.Yields]

theorem call_aborted_iff (limit : Nat) (source : List Char) (l : Lexer) (done : List Lexeme)
    (k : Call) :
    (∃ reason, reason ≠ .overflow ∧ (of l done).call limit source k = .aborted reason) ↔
      (State.of l.activity = .blockCommentStart ∧ k.c ≠ '|') ∨
        (State.of l.activity = .blockCommentEnd ∧ k.c ≠ '#') := by
  have broken : (∃ reason, reason ≠ .overflow ∧
      (of l done).call limit source k = .aborted reason) ↔
        l.step k.offset k.c k.next = .brokenPair := by
    constructor
    · intro ⟨reason, other, aborted⟩
      exact brokenPair_of_aborted other aborted
    · exact call_of_brokenPair
  rw [broken, Lexer.step_eq_brokenPair_iff, Activity.take_eq_brokenPair_iff,
    state_of_eq_start_iff, state_of_eq_end_iff]
  simp only [exists_and_right]

theorem call_refused_iff (limit : Nat) (source : List Char) (l : Lexer) (done : List Lexeme)
    (k : Call) :
    (∃ fault s', (of l done).call limit source k = .refused fault s') ↔
      ((State.of l.activity = .undetermined ∨ State.of l.activity = .blank ∨
        State.of l.activity = .word) ∧ k.c = '|' ∧ k.next = some '#') ∧
      (of l done).call limit source k ≠ .aborted .overflow := by
  rw [← yields_iff]
  constructor
  · intro ⟨fault, s', refused⟩
    obtain ⟨more, flaw, l', hstep, -⟩ := exists_of_refused refused
    obtain ⟨htake, -⟩ := Lexer.step_eq_refused_iff.mp hstep
    obtain ⟨mark, yields, -⟩ := Activity.take_eq_refused_iff.mp htake
    exact ⟨⟨yields, mark⟩, by simp [refused]⟩
  · intro ⟨⟨yields, mark⟩, room⟩
    have refused : l.step k.offset k.c k.next =
        .refused l.activity.pending?.toList (.strayCommentEnd ⟨l.cursor, k.offset⟩)
          { l with activity := .idle } :=
      Lexer.step_eq_refused_iff.mpr
        ⟨Activity.take_eq_refused_iff.mpr ⟨mark, yields, rfl⟩, rfl, rfl⟩
    rcases call_cases limit source l done k with call | ⟨more, l', hstep, -⟩ |
      ⟨more, flaw, l', -, call⟩ | ⟨hstep, -⟩
    · exact absurd call room
    · cases hstep.symm.trans refused
    · exact ⟨_, _, call⟩
    · cases hstep.symm.trans refused

/-- A refused call empties the pending register into the tokens and changes nothing else, so that it
is refused again in the same way. -/
theorem call_refused {fault : Fault} {s : Reader}
    (refused : (of l done).call limit source k = .refused fault s) :
    s = { of l done with
      state := .undetermined, pending := none,
      tokens := (of l done).tokens ++ (of l done).pending.toList } ∧
    fault = (Flaw.strayCommentEnd ⟨l.cursor, k.offset⟩).fault source ∧
    s.call limit source k = .refused fault s := by
  have again := refused
  obtain ⟨more, flaw, l', hstep, rfl, rfl⟩ := exists_of_refused refused
  obtain ⟨htake, rfl, rfl⟩ := Lexer.step_eq_refused_iff.mp hstep
  obtain ⟨⟨hc, hnext⟩, yields, rfl⟩ := Activity.take_eq_refused_iff.mp htake
  refine ⟨?_, rfl, ?_⟩
  · obtain ⟨a, cursor, previous, last⟩ := l
    cases a with
    | idle | blank s | word s => simp [of, State.of, Activity.pending?, Activity.depth]
    | quoted | lineComment | blockComment => exact yields.elim
  · -- The refusal is the same text at the same cursor, so it overflows neither now nor then.
    rw [call, hc, hnext, step_of_yields limit source done yields] at again
    have idle := step_of_yields (l := { l with activity := .idle }) limit source
      (done ++ l.activity.pending?.toList) trivial k.offset
    rw [Activity.pending?, Option.toList_none, List.append_nil] at idle
    rw [call, hc, hnext, idle]
    exact again

/-- **However a reader is driven, its registers agree.** Behind any calls, with any characters and
lookaheads and on after refusals, it holds what a lexer holds that is driven in the same way: a
token is pending just if the state is not undetermined, and of the kind that the state says; the
depth is positive just inside a block comment; and no token that was given out is empty. Unless a
counter overflows, the next call is broken off just if an announced pair is, and refused just where
`|#` stands outside of strings and comments; and no counter overflows that can hold four bytes for
each call. Tokens are never taken back. What is refused completes the pending token and changes
nothing else, so that it is refused again, in the same way. -/
theorem driving_consistent (source : List Char) {limit : Nat} {calls : List Call} {s : Reader}
    (h : drive limit source {} calls = some s) :
    s.Consistent ∧
    (∃ l done, Lexer.drive {} [] calls = some (l, done) ∧ s = .of l done) ∧
    ∀ k : Call,
      (4 * (calls.length + 1) ≤ limit → s.call limit source k ≠ .aborted .overflow) ∧
      ((∃ reason, reason ≠ .overflow ∧ s.call limit source k = .aborted reason) ↔
        (s.state = .blockCommentStart ∧ k.c ≠ '|') ∨ (s.state = .blockCommentEnd ∧ k.c ≠ '#')) ∧
      ((∃ fault s', s.call limit source k = .refused fault s') ↔
        ((s.state = .undetermined ∨ s.state = .blank ∨ s.state = .word) ∧
          k.c = '|' ∧ k.next = some '#') ∧ s.call limit source k ≠ .aborted .overflow) ∧
      (∀ s', s.call limit source k = .taken s' → s'.Consistent ∧ s.tokens <+: s'.tokens) ∧
      ∀ fault s', s.call limit source k = .refused fault s' →
        s' = { s with
          state := .undetermined, pending := none, tokens := s.tokens ++ s.pending.toList } ∧
        fault = (Flaw.strayCommentEnd ⟨s.cursor, k.offset⟩).fault source ∧
        s'.call limit source k = .refused fault s' := by
  have start : ({} : Lexer).Within 0 := ⟨nofun, Nat.le_refl 0, Nat.le_refl 0, Nat.le_refl 0⟩
  have empty : ({} : Lexer).Filled [] := nofun
  change (of {} []).drive limit source calls = some s at h
  obtain ⟨l, done, hl, rfl⟩ := exists_drive_of h
  obtain ⟨within, filled⟩ := Lexer.drive_keeps start empty hl
  rw [Nat.zero_add] at within
  refine ⟨consistent_of filled, ⟨l, done, hl, rfl⟩, fun k => ⟨?_, ?_, ?_, ?_, ?_⟩⟩
  · intro room beyond
    rcases call_cases_of_room source done k within room with ⟨more, l', -, call⟩ |
      ⟨more, flaw, l', -, call⟩ | ⟨-, reason, other, call⟩
    all_goals cases call.symm.trans beyond
    exact other rfl
  · exact call_aborted_iff limit source l done k
  · exact call_refused_iff limit source l done k
  · intro s' taken
    obtain ⟨more, l', hstep, rfl⟩ := exists_of_taken taken
    exact ⟨consistent_of (filled.advanced hstep), more.map Lexeme.token, List.map_append.symm⟩
  · intro fault s' refused
    exact call_refused refused

/-- A word, then `|#` twice at the same offset, then the start of a comment: the word is given out
at the first refusal, the second one changes nothing, and no letter can follow what was
announced. -/
theorem driving_consistent_refused :
    let calls : List Call := [⟨5, 'a', none⟩, ⟨0, '|', some '#'⟩, ⟨0, '|', some '#'⟩,
      ⟨9, '#', some '|'⟩]
    ∃ s, drive UInt64.size [] {} calls = some s ∧ s.Consistent ∧ s.state = .blockCommentStart ∧
      s.depth = 1 ∧ s.tokens = [⟨.word, ⟨⟨⟨0, 0⟩, 5⟩, 1⟩⟩] ∧
      s.call UInt64.size [] ⟨10, '|', some '#'⟩ ≠ .aborted .overflow ∧
      (∃ reason, reason ≠ .overflow ∧
        s.call UInt64.size [] ⟨10, 'b', none⟩ = .aborted reason) ∧
      ¬ ∃ fault s', s.call UInt64.size [] ⟨10, '|', some '#'⟩ = .refused fault s' := by
  intro calls
  have driven : drive UInt64.size [] {} calls = some
      { state := .blockCommentStart, pending := some ⟨.blockComment, ⟨⟨⟨0, 1⟩, 9⟩, 1⟩⟩, depth := 1,
        cursor := ⟨0, 2⟩, previous := some '#', last := ⟨⟨0, 1⟩, 9⟩,
        tokens := [⟨.word, ⟨⟨⟨0, 0⟩, 5⟩, 1⟩⟩] } := by decide +kernel
  obtain ⟨consistent, -, next⟩ := driving_consistent [] driven
  refine ⟨_, driven, consistent, rfl, rfl, rfl, (next _).1 (by decide), ?_, ?_⟩
  · exact (next ⟨10, 'b', none⟩).2.1.mpr (.inl ⟨rfl, by decide⟩)
  · intro refused
    exact absurd ((next ⟨10, '|', some '#'⟩).2.2.1.mp refused).1.1 (by decide)

end Reader

end Registers

end Bracketry
