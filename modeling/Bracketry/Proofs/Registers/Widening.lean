import Bracketry.Proofs.Registers.Reading

/-!
# Wider counters

How far the counters reach is no part of what a reader does. A run that does not overflow is the
same run on counters that reach further (`Widens`), since each step uses a counter for its number
alone and all else goes by what the registers hold. So what is true of runs with room to spare is
true of every run, up to the step at which it overflows.
-/

namespace Bracketry.Registers

open Text

section

variable {φ ψ α β : Type} {m n : Nat}

/-- A run that comes to what another one comes to, unless it overflows. -/
def Widens (r r' : Run φ α) : Prop := r = abort .overflow ∨ r = r'

theorem Widens.refl (r : Run φ α) : Widens r r := .inr rfl

theorem Widens.bind {r r' : Run φ α} {f g : α → Run φ β} (h : Widens r r')
    (hf : ∀ a, Widens (f a) (g a)) : Widens (r >>= f) (r' >>= g) := by
  rcases h with rfl | rfl
  · exact .inl rfl
  · cases r with
    | ok a => exact hf a
    | error e => exact .refl _

theorem Widens.mapFault {r r' : Run φ α} (h : Widens r r') (f : φ → ψ) :
    Widens (r.mapFault f) (r'.mapFault f) := by
  rcases h with rfl | rfl
  · exact .inl rfl
  · exact .refl _

theorem widens_count (h : m ≤ n) (k : Nat) : Widens (count m k : Run φ Nat) (count n k) := by
  by_cases fits : k ≤ m
  · rw [count_of_le fits, count_of_le (Nat.le_trans fits h)]
    exact .refl _
  · exact .inl (if_neg fits)

theorem widens_advance (h : m ≤ n) (k : Cursor) (c : Char) :
    Widens (advance m k c : Run φ Cursor) (advance n k c) := by
  rw [advance, advance]
  split
  · exact (widens_count h _).bind fun _ => .refl _
  · exact (widens_count h _).bind fun _ => .refl _

theorem widens_rows (h : m ≤ n) (e : Excerpt) :
    Widens (rows m e : Run φ (List Excerpt.Row)) (rows n e) := by
  refine .bind (.refl _) fun beyond => ?_
  split
  · exact .refl _
  · exact (widens_count h _).bind fun _ => .refl _

theorem widens_layout {m' n' : Nat} (h : m ≤ n) (h' : m' ≤ n') (e : Excerpt)
    (source : List Char) :
    Widens (layout m m' e source : Run φ (List String)) (layout n n' e source) := by
  have row (pointer : String) (mark : Excerpt.Mark) :
      Widens (markRow m' e pointer mark : Run φ String) (markRow n' e pointer mark) :=
    (widens_count h' _).bind fun _ => .refl _
  have upper : Widens (e.opening.toList.mapM (markRow m' e "v") : Run φ (List String))
      (e.opening.toList.mapM (markRow n' e "v")) := by
    cases e.opening with
    | none => exact .refl _
    | some mark =>
      simp only [Option.toList_some, List.mapM_cons]
      exact (row "v" mark).bind fun _ => .refl _
  exact (widens_count h _).bind fun _ => (widens_count h _).bind fun _ =>
    (widens_rows h e).bind fun _ => upper.bind fun _ => (row "^" e.closing).bind fun _ => .refl _

theorem widens_refuse (h : m ≤ n) (source : List Char) (flaw : Flaw) :
    Widens (refuse m source flaw : Run Fault α) (refuse n source flaw) :=
  (widens_layout h h flaw.excerpt source).bind fun _ => .refl _

end

namespace Reader

theorem widens_extend {m n : Nat} (h : m ≤ n) (s : Reader) (c : Char) :
    Widens (s.extend m c) (s.extend n c) := by
  rw [extend, extend]
  cases s.pending with
  | none => exact .refl _
  | some t => exact (widens_count h _).bind fun _ => .refl _

variable {m n : Nat} (h : m ≤ n) (source : List Char) (here : Place) (c : Char)
  (next : Option Char) (s : Reader)

include h

theorem widens_start :
    Widens (s.start m source here c next) (s.start n source here c next) := by
  have token (s : Reader) (kind : Token.Kind) (state : State) :
      Widens (s.startToken m here c kind state) (s.startToken n here c kind state) :=
    (widens_extend h _ c).bind fun _ => .refl _
  rw [start, start]
  repeat' split
  all_goals first | exact token .. | exact (widens_refuse h ..).mapFault _

theorem widens_decision :
    Widens (s.decision m source here c next) (s.decision n source here c next) := by
  have extended := widens_extend h s c
  rw [decision, decision]
  cases s.state with
  | undetermined => exact (widens_start h source here c next s).bind fun _ => .refl _
  | blank | word =>
    dsimp only
    split
    · exact extended.bind fun _ => .refl _
    · exact .refl _
  | quoted | lineComment => exact extended.bind fun _ => .refl _
  | blockCommentStart | blockCommentEnd =>
    dsimp only
    split
    · exact extended.bind fun _ => .refl _
    · exact .refl _
  | blockComment =>
    refine extended.bind fun s => ?_
    split
    · exact (widens_count h _).bind fun _ => .refl _
    · exact .refl _

theorem widens_settle (k : Nat) :
    Widens (settle m source here c next k s) (settle n source here c next k s) := by
  induction k generalizing s with
  | zero => exact .refl _
  | succ k ih =>
    refine (widens_decision h source here c next s).bind fun (handed, taken) => ?_
    cases taken with
    | true => exact .refl _
    | false => exact ih handed

theorem widens_step (offset : Nat) :
    Widens (s.step m source offset c next) (s.step n source offset c next) :=
  (widens_settle h source _ c next s _).bind fun s =>
    (widens_advance h s.cursor c).bind fun _ => .refl _

end Reader

end Bracketry.Registers
