import Bracketry.Proofs.Records.RoundTrip

/-!
# Records are written anew

A record may be spelled in many ways: as an object whose fields stand in any order among others, or
as an array, with a tag in any place, a kind as a word or as an object, and what has a default left
out. What is written of a record is one of these spellings. So a text can be read and written anew,
and this changes nothing a second time (`records_stable`).

That a record which is written is read back was proved for records that are not too deep and whose
numbers fit. Both are true of every record that was read. No text nests deeper than a reader follows
(`Json.nesting_read_le`), and a record is written no deeper than it was read, for each of its parts
was read of a part of the text. It may even be written in less, as what is ignored does not come
back.
-/

namespace Bracketry

open Json (Value Layout)
open Text

namespace Json

/-! ## How deep a text nests -/

section reading

variable {depth : Nat}

theorem nesting_contained_le {v : Option Value}
    (h : ∀ w ∈ v, w.nesting ≤ Value.maxDepth - (depth + 1) + 1) :
    (contained depth v).nesting ≤ Value.maxDepth - depth := by
  rw [contained]
  split
  · next below =>
    cases v with
    | none => exact Nat.zero_le _
    | some w =>
      have lower := h w rfl
      rw [Option.getD_some]
      omega
  · exact Nat.zero_le _

theorem nesting_readNumber {text rest : List Char} {v : Value}
    (h : readNumber text = some (v, rest)) : v.nesting = 0 := by
  unfold readNumber at h
  grind [Value.nesting]

theorem nesting_map_dropWord? {word : String} {text rest : List Char} {v w : Value}
    (h : (dropWord? word text).map (w, ·) = some (v, rest)) : v = w := by
  obtain ⟨_, -, same⟩ := Option.map_eq_some_iff.mp h
  cases same
  rfl

mutual

/-- What is read within `depth` containers has no more containers in it than are left. -/
theorem nesting_readValue_le : ∀ {fuel depth : Nat} {text rest : List Char} {v : Value},
    readValue fuel depth text = some (v, rest) → v.nesting ≤ Value.maxDepth - depth
  | 0, _, _, _, _, h => by cases h
  | fuel + 1, depth, text, rest, v, h => by
    rw [readValue] at h
    split at h
    · rw [nesting_map_dropWord? h]
      exact Nat.zero_le _
    · rw [nesting_map_dropWord? h]
      exact Nat.zero_le _
    · rw [nesting_map_dropWord? h]
      exact Nat.zero_le _
    · split at h
      · next s rest _ =>
        cases h
        cases s <;> exact Nat.zero_le _
      · cases h
    · split at h
      · cases h
        apply nesting_contained_le
        rintro w ⟨⟩
        exact Nat.le_add_left 1 _
      · refine nesting_readItems_le ?_ h
        nofun
    · split at h
      · cases h
        apply nesting_contained_le
        rintro w ⟨⟩
        exact Nat.le_add_left 1 _
      · refine nesting_readFields_le ?_ h
        intro fields hfields
        cases hfields
        nofun
    · rw [nesting_readNumber h]
      exact Nat.zero_le _

theorem nesting_readItems_le : ∀ {fuel depth : Nat} {done : List Value} {text rest : List Char}
    {v : Value}, (∀ w ∈ done, w.nesting ≤ Value.maxDepth - (depth + 1)) →
    readItems fuel depth done text = some (v, rest) → v.nesting ≤ Value.maxDepth - depth
  | 0, _, _, _, _, _, _, h => by cases h
  | fuel + 1, depth, done, text, rest, v, before, h => by
    rw [readItems] at h
    split at h
    · cases h
    · next item behind heq =>
      have all : ∀ w ∈ item :: done, w.nesting ≤ Value.maxDepth - (depth + 1) :=
        List.forall_mem_cons.mpr ⟨nesting_readValue_le heq, before⟩
      split at h
      · exact nesting_readItems_le all h
      · cases h
        apply nesting_contained_le
        rintro w ⟨⟩
        apply Nat.succ_le_succ
        rw [Value.nestingItems_le_iff]
        intro w hw
        exact all w (List.mem_reverse.mp hw)
      · cases h

theorem nesting_readFields_le : ∀ {fuel depth : Nat} {done : Option (List (String × Value))}
    {text rest : List Char} {v : Value},
    (∀ fields ∈ done, ∀ f ∈ fields, f.2.nesting ≤ Value.maxDepth - (depth + 1)) →
    readFields fuel depth done text = some (v, rest) → v.nesting ≤ Value.maxDepth - depth
  | 0, _, _, _, _, _, _, h => by cases h
  | fuel + 1, depth, done, text, rest, v, before, h => by
    rw [readFields] at h
    split at h
    · split at h
      · cases h
      · next name _ _ =>
        split at h
        · split at h
          · cases h
          · next item behind found =>
            extract_lets done' at h
            have all : ∀ fields ∈ done', ∀ f ∈ fields,
                f.2.nesting ≤ Value.maxDepth - (depth + 1) := by
              intro fields hfields
              unfold done' at hfields
              split at hfields
              · cases hfields
                exact List.forall_mem_cons.mpr ⟨nesting_readValue_le found, before _ rfl⟩
              · cases hfields
            split at h
            · exact nesting_readFields_le all h
            · cases h
              apply nesting_contained_le
              intro w hw
              obtain ⟨fields, hfields, rfl⟩ := Option.map_eq_some_iff.mp hw
              apply Nat.succ_le_succ
              rw [Value.nestingFields_le_iff]
              intro f hf
              exact all fields hfields f (List.mem_reverse.mp hf)
            · cases h
        · cases h
    · cases h

end

/-- No text nests deeper than a reader follows, whatever it is. -/
theorem nesting_read_le {text : String} {v : Value} (h : read text = some v) :
    v.nesting ≤ Value.maxDepth := by
  rw [read, readChars] at h
  split at h
  · next heq =>
    split at h
    · cases h
      exact nesting_readValue_le heq
    · cases h
  · cases h

end reading

namespace Value

variable {v w : Value}

/-! ## Parts of a value nest less deep -/

theorem nesting_lt_of_item {items : List Value} (h : w ∈ items) :
    w.nesting < (array items).nesting :=
  Nat.lt_succ_of_le (nestingItems_le_iff.mp (Nat.le_refl _) w h)

theorem nesting_lt_of_field {fields : List (String × Value)} {f : String × Value}
    (h : f ∈ fields) : f.2.nesting < (object fields).nesting :=
  Nat.lt_succ_of_le (nestingFields_le_iff.mp (Nat.le_refl _) f h)

theorem nesting_lt_of_members? {names : List String} {members : List (Option Value)}
    (h : v.members? names = some members) (hw : some w ∈ members) : w.nesting < v.nesting := by
  unfold members? at h
  split at h
  · next fields =>
    split at h
    · cases h
      obtain ⟨name, -, found⟩ := List.mem_map.mp hw
      obtain ⟨before, behind, rfl, -⟩ := List.lookup_eq_some_iff.mp found
      have field : (name, w) ∈ before ++ (name, w) :: behind :=
        List.mem_append_right before List.mem_cons_self
      exact nesting_lt_of_field field
    · cases h
  · next items =>
    split at h
    · cases h
      rcases List.mem_append.mp hw with item | missing
      · obtain ⟨_, hmem, ⟨⟩⟩ := List.mem_map.mp item
        exact nesting_lt_of_item hmem
      · cases List.eq_of_mem_replicate missing
    · cases h
  · cases h

theorem nesting_pos_of_members? {names : List String} {members : List (Option Value)}
    (h : v.members? names = some members) : 0 < v.nesting := by
  unfold members? at h
  split at h
  · exact Nat.succ_pos _
  · exact Nat.succ_pos _
  · cases h

/-- A record without its tag nests no deeper than with it. -/
theorem nesting_le_of_tagged? {tag body : Value} (h : v.tagged? = some (tag, body)) :
    body.nesting ≤ v.nesting := by
  unfold tagged? at h
  split at h
  · next fields =>
    split at h
    · cases h
      apply Nat.succ_le_succ
      rw [nestingFields_le_iff]
      intro f hf
      exact Nat.le_of_lt_succ (nesting_lt_of_field (List.mem_of_mem_filter hf))
    · cases h
  · cases h
    exact Nat.succ_le_succ (Nat.le_max_right _ _)
  · cases h

theorem lt_of_natural? {below n : Nat} (h : v.natural? below = some n) : n < below := by
  unfold natural? at h
  split at h
  · split at h
    · cases h
      assumption
    · cases h
  · cases h

theorem exists_mem_of_mapM {read : Value → Option α} {items : List Value} {xs : List α} {x : α}
    (h : items.mapM read = some xs) (hx : x ∈ xs) : ∃ w ∈ items, read w = some x := by
  induction items generalizing xs with
  | nil =>
    cases h
    cases hx
  | cons w items ih =>
    rw [List.mapM_cons, Option.bind_eq_bind, Option.bind_eq_some_iff] at h
    obtain ⟨y, hy, h⟩ := h
    obtain ⟨ys, hys, same⟩ := Option.bind_eq_some_iff.mp h
    cases same
    rcases List.mem_cons.mp hx with rfl | hx
    · exact ⟨w, List.mem_cons_self, hy⟩
    · obtain ⟨w', hw', found⟩ := ih hys hx
      exact ⟨w', List.mem_cons_of_mem w hw', found⟩

/-- What is read of the items of an array is read of parts of it. -/
theorem exists_of_each? {read : Value → Option α} {xs : List α} (h : v.each? read = some xs) :
    0 < v.nesting ∧ ∀ x ∈ xs, ∃ w, w.nesting < v.nesting ∧ read w = some x := by
  obtain ⟨items, harray, hitems⟩ := Option.bind_eq_some_iff.mp h
  unfold array? at harray
  split at harray
  · cases harray
    refine ⟨Nat.succ_pos _, ?_⟩
    intro x hx
    obtain ⟨w, hw, found⟩ := exists_mem_of_mapM hitems hx
    exact ⟨w, nesting_lt_of_item hw, found⟩
  · cases harray

/-- Items that are written no deeper than they were read make up an array no deeper than theirs. -/
theorem nesting_array_map_le {read : Value → Option α} {toValue : α → Value} {xs : List α}
    (h : v.each? read = some xs)
    (narrow : ∀ w x, read w = some x → (toValue x).nesting ≤ w.nesting) :
    (array (xs.map toValue)).nesting ≤ v.nesting := by
  obtain ⟨pos, parts⟩ := exists_of_each? h
  have below : nestingItems (xs.map toValue) ≤ v.nesting - 1 := by
    rw [nestingItems_le_iff]
    intro u hu
    obtain ⟨x, hx, rfl⟩ := List.mem_map.mp hu
    obtain ⟨w, lower, found⟩ := parts x hx
    have := narrow w x found
    omega
  rw [nesting]
  omega

end Value

/-! ## Writing anew -/

/-- What a text says, written anew. -/
def rewrite? (toValue : α → Value) (ofValue? : Value → Option α) (layout : Layout)
    (text : String) : Option String :=
  ((read text).bind ofValue?).map fun x => (toValue x).render layout

/-- However a record was written, written anew it is the same record, and once it was written anew
it does not change any more. -/
structure Stable (toValue : α → Value) (ofValue? : Value → Option α) : Prop where
  same : ∀ text x, (read text).bind ofValue? = some x →
    ∀ layout, (read ((toValue x).render layout)).bind ofValue? = some x
  once : ∀ layout text text', rewrite? toValue ofValue? layout text = some text' →
    rewrite? toValue ofValue? layout text' = some text'

section

variable {toValue : α → Value} {ofValue? : Value → Option α}

/-- It is enough that what is read would be read back, and that it is not written too deep if it was
not read too deep. -/
theorem stable_of (narrow : ∀ v x, v.nesting ≤ Value.maxDepth → ofValue? v = some x →
      (toValue x).nesting ≤ Value.maxDepth)
    (back : ∀ v x, ofValue? v = some x → RoundTrips toValue ofValue? x) :
    Stable toValue ofValue? := by
  have same : ∀ text x, (read text).bind ofValue? = some x →
      ∀ layout, (read ((toValue x).render layout)).bind ofValue? = some x := by
    intro text x h layout
    obtain ⟨v, hv, hx⟩ := Option.bind_eq_some_iff.mp h
    have deep : v.nesting ≤ Value.maxDepth := nesting_read_le hv
    have shallow : (toValue x).nesting < 128 := Nat.lt_succ_of_le (narrow v x deep hx)
    rw [back v x hx layout, if_pos shallow]
  refine ⟨same, ?_⟩
  intro layout text text' h
  obtain ⟨x, hx, rfl⟩ := Option.map_eq_some_iff.mp h
  rw [rewrite?, same text x hx layout, Option.map_some]

/-- For records of a sort that is never deep, it is enough that all of them are read back. -/
theorem stable_of_shallow (plain : ∀ x, (toValue x).Plain)
    (shallow : ∀ x, (toValue x).nesting < 128) (back : ∀ x, ofValue? (toValue x) = some x) :
    Stable toValue ofValue? := by
  apply stable_of
  · intro v x _ _
    exact Nat.le_of_lt_succ (shallow x)
  · intro v x _
    exact roundTrips_of_shallow (plain x) (shallow x) (back x)

end

end Json

/-! ## What is read of each sort of record

What is read is in range, and it is written no deeper than it was read.
-/

theorem Text.Place.narrow_ofValue? {v : Value} {p : Place} (h : Place.ofValue? v = some p) :
    p.InRange ∧ p.toValue.nesting ≤ v.nesting := by
  unfold Place.ofValue? at h
  split at h
  · next found =>
    simp only [Option.bind_eq_bind, Option.bind_eq_some_iff, Option.pure_def] at h
    obtain ⟨line, hline, column, hcolumn, offset, hoffset, ⟨⟩⟩ := h
    refine ⟨⟨?_, ?_, ?_⟩, Value.nesting_pos_of_members? found⟩
    · exact Value.lt_of_natural? hoffset
    · exact Value.lt_of_natural? hline
    · exact Value.lt_of_natural? hcolumn
  · cases h

theorem Span.inRange_of_ofMembers? {members : List (Option Value)} {s : Span}
    (h : ofMembers? members = some s) : s.InRange := by
  unfold ofMembers? at h
  split at h
  · simp only [Option.bind_eq_bind, Option.bind_eq_some_iff, Option.pure_def] at h
    obtain ⟨line, hline, column, hcolumn, offset, hoffset, length, hlength, ⟨⟩⟩ := h
    refine ⟨⟨?_, ?_, ?_⟩, ?_⟩
    · exact Value.lt_of_natural? hoffset
    · exact Value.lt_of_natural? hline
    · exact Value.lt_of_natural? hcolumn
    · exact Value.lt_of_natural? hlength
  · cases h

theorem Token.narrow_ofValue? {v : Value} {inTree : Bool} {t : Token}
    (h : ofValue? v inTree = some t) : t.span.InRange ∧ t.toValue.nesting ≤ v.nesting := by
  unfold ofValue? at h
  split at h
  · next found =>
    simp only [Option.bind_eq_bind, Option.bind_eq_some_iff, Option.pure_def] at h
    obtain ⟨kind, -, span, hspan, ⟨⟩⟩ := h
    exact ⟨Span.inRange_of_ofMembers? hspan, Value.nesting_pos_of_members? found⟩
  · cases h

/-- A branch is in range and no deeper than its record if each of its trees is. -/
theorem Branch.narrow_ofValueWith? {read : Value → Option Tree} {v : Value} {b : Branch}
    (trees : ∀ w t, read w = some t → t.InRange ∧ t.toValue.nesting ≤ w.nesting)
    (h : ofValueWith? read v = some b) : b.InRange ∧ b.toValue.nesting ≤ v.nesting := by
  unfold ofValueWith? at h
  split at h
  · next children members found =>
    simp only [Option.bind_eq_bind, Option.bind_eq_some_iff, Option.pure_def] at h
    obtain ⟨span, hspan, items, hitems, ⟨⟩⟩ := h
    have inRange : ∀ t ∈ items, t.InRange := by
      intro t ht
      obtain ⟨w, -, hw⟩ := (Value.exists_of_each? hitems).2 t ht
      exact (trees w t hw).1
    have lower := Value.nesting_array_map_le hitems fun w t hw => (trees w t hw).2
    have below := Value.nesting_lt_of_members? found List.mem_cons_self
    rw [Value.nesting, ← Forest.toValues_eq_map] at lower
    refine ⟨⟨Span.inRange_of_ofMembers? hspan, inRange⟩, ?_⟩
    rw [nesting_toValue]
    exact Nat.le_trans (Nat.succ_le_succ lower) below
  · cases h

theorem Tree.narrow_ofWhole? {depth : Nat} {byNumber : Bool} {v : Value} {t : Tree}
    (h : ofWhole? depth byNumber v = some t) : t.InRange ∧ t.toValue.nesting ≤ v.nesting := by
  induction depth generalizing byNumber v t with
  | zero => cases h
  | succ depth ih =>
    rw [ofWhole?] at h
    split at h
    · cases h
    · next tag body found =>
      have part := Value.nesting_le_of_tagged? found
      split at h
      · cases h
      · obtain ⟨token, htoken, rfl⟩ := Option.map_eq_some_iff.mp h
        obtain ⟨inRange, lower⟩ := Token.narrow_ofValue? htoken
        exact ⟨.leaf inRange, Nat.le_trans lower part⟩
      · obtain ⟨branch, hbranch, rfl⟩ := Option.map_eq_some_iff.mp h
        obtain ⟨inRange, lower⟩ := Branch.narrow_ofValueWith? (fun _ _ => ih) hbranch
        -- The tag is written beside what is in the list, not around it.
        have same : (ofBranch branch).toValue.nesting = branch.toValue.nesting := Nat.zero_max _
        exact ⟨.list inRange.span inRange.children, same ▸ Nat.le_trans lower part⟩

theorem Tree.narrow_ofValue? {byNumber : Bool} {v : Value} {t : Tree}
    (h : ofValue? v byNumber = some t) : t.InRange ∧ t.toValue.nesting ≤ v.nesting := by
  rw [ofValue?, if_pos (whole_of_ofValue? h)] at h
  exact narrow_ofWhole? h

mutual

/-- There is one way to write a sketch. -/
theorem Sketch.toValue_of_ofValue? :
    ∀ (v : Value) (s : Sketch), Sketch.ofValue? v = some s → s.toValue = v
  | .string _, _, h => by
    cases h
    rfl
  | .array items, s, h => by
    rw [Sketch.ofValue?, Option.map_eq_some_iff] at h
    obtain ⟨ss, hss, rfl⟩ := h
    rw [Sketch.toValue, Sketch.toValues_of_ofValues? items ss hss]
  | .null, _, h | .bool _, _, h | .natural _, _, h | .number _, _, h | .object _, _, h
  | .unread, _, h => by cases h

theorem Sketch.toValues_of_ofValues? : ∀ (vs : List Value) (ss : List Sketch),
    Sketch.ofValues? vs = some ss → Sketch.toValues ss = vs
  | [], _, h => by
    cases h
    rfl
  | v :: vs, ss, h => by
    rw [Sketch.ofValues?] at h
    split at h
    · next s ss' hs hss =>
      cases h
      rw [Sketch.toValues, Sketch.toValue_of_ofValue? v s hs,
        Sketch.toValues_of_ofValues? vs ss' hss]
    · cases h

end

namespace Refusal

theorem lt_of_level? {data : Option Value} {n : Nat} (h : level? data = some (some n)) :
    n < Value.bound := by
  unfold level? at h
  split at h
  · cases h
  · cases h
  · split at h
    · obtain ⟨m, hm, ⟨⟩⟩ := Option.map_eq_some_iff.mp h
      exact Value.lt_of_natural? hm
    · cases h

theorem inRange_of_ofValue? {v : Value} {r : Refusal} (h : ofValue? v = some r) : r.InRange := by
  unfold ofValue? at h
  split at h
  · simp only [Option.bind_eq_bind, Option.bind_eq_some_iff, Option.pure_def] at h
    obtain ⟨number, hnumber, text, -, level, hlevel, ⟨⟩⟩ := h
    refine ⟨Value.lt_of_natural? hnumber, ?_⟩
    rintro n ⟨⟩
    exact lt_of_level? hlevel
  · cases h

end Refusal

namespace Envelope

variable {f : Format α} {P : α → Prop} {v : Value} {e : Envelope α}

/-- A success is in range and no deeper than its record, if its items are. -/
theorem narrow_success?
    (items : ∀ w x, f.ofValue? w = some x → P x ∧ (f.toValue x).nesting ≤ w.nesting)
    (h : success? f v = some e) : e.InRange P ∧ (e.toValue f).nesting ≤ v.nesting := by
  unfold success? at h
  split at h
  · next ok list found =>
    simp only [Option.bind_eq_bind, Option.bind_eq_some_iff, Option.pure_def] at h
    obtain ⟨flag, -, xs, hxs, ⟨⟩⟩ := h
    have each : ∀ x ∈ xs, P x := by
      intro x hx
      obtain ⟨w, -, hw⟩ := (Value.exists_of_each? hxs).2 x hx
      exact (items w x hw).1
    have lower := Value.nesting_array_map_le hxs fun w x hw => (items w x hw).2
    have below : list.nesting < v.nesting :=
      Value.nesting_lt_of_members? found (List.mem_cons_of_mem _ List.mem_cons_self)
    have nesting : ((success flag xs).toValue f).nesting =
        max 0 (max (Value.array (xs.map f.toValue)).nesting 0) + 1 := rfl
    refine ⟨.success each, ?_⟩
    omega
  · cases h

/-- A refusal is never deep, whatever it was read of. -/
theorem narrow_refusal? (h : refusal? v = some e) :
    e.InRange P ∧ (e.toValue f).nesting ≤ 2 := by
  unfold refusal? at h
  split at h
  · simp only [Option.bind_eq_bind, Option.bind_eq_some_iff, Option.pure_def] at h
    obtain ⟨flag, -, r, hr, ⟨⟩⟩ := h
    refine ⟨.refusal (Refusal.inRange_of_ofValue? hr), ?_⟩
    exact Nat.succ_le_succ (Nat.max_le.mpr ⟨Nat.zero_le 1, r.nesting_fields⟩)
  · cases h

theorem narrow_ofValue?
    (items : ∀ w x, f.ofValue? w = some x → P x ∧ (f.toValue x).nesting ≤ w.nesting)
    (h : ofValue? f v = some e) : e.InRange P ∧ (e.toValue f).nesting ≤ max v.nesting 2 := by
  unfold ofValue? at h
  split at h
  · split at h
    · rcases Option.or_eq_some_iff.mp h with h | ⟨-, h⟩
      · obtain ⟨inRange, lower⟩ := narrow_success? items h
        exact ⟨inRange, Nat.le_trans lower (Nat.le_max_left _ _)⟩
      · obtain ⟨inRange, lower⟩ := narrow_refusal? (f := f) h
        exact ⟨inRange, Nat.le_trans lower (Nat.le_max_right _ _)⟩
    · cases h
  · cases h

/-- Envelopes are stable if their items are in range and written no deeper than they are read. -/
theorem stable (lawful : f.Lawful P)
    (items : ∀ w x, f.ofValue? w = some x → P x ∧ (f.toValue x).nesting ≤ w.nesting) :
    Json.Stable (toValue f) (ofValue? f) := by
  apply Json.stable_of
  · intro v e deep h
    have lower := (narrow_ofValue? items h).2
    exact Nat.le_trans lower (Nat.max_le.mpr ⟨deep, by decide⟩)
  · intro v e h
    exact roundTrips lawful (narrow_ofValue? items h).1

end Envelope

theorem Branch.stable : Json.Stable Branch.toValue Branch.ofValue? := by
  have narrow : ∀ v b, Branch.ofValue? v = some b →
      b.InRange ∧ b.toValue.nesting ≤ v.nesting :=
    fun v b h => Branch.narrow_ofValueWith? (fun _ _ => Tree.narrow_ofValue?) h
  apply Json.stable_of
  · intro v b deep h
    exact Nat.le_trans (narrow v b h).2 deep
  · intro v b h
    obtain ⟨inRange, -⟩ := narrow v b h
    exact Json.roundTrips_of (plain_toValue inRange) (ofValue?_toValue inRange)
      (ofValue?_clip inRange)

theorem Tree.stable : Json.Stable Tree.toValue (Tree.ofValue? ·) := by
  apply Json.stable_of
  · intro v t deep h
    exact Nat.le_trans (narrow_ofValue? h).2 deep
  · intro v t h
    obtain ⟨inRange, -⟩ := narrow_ofValue? h
    exact Json.roundTrips_of_whole (plain_toValue inRange) (ofValue?_toValue inRange false)
      fun _ _ => whole_of_ofValue?

theorem Sketch.stable : Json.Stable Sketch.toValue Sketch.ofValue? := by
  apply Json.stable_of
  · intro v s deep h
    rwa [toValue_of_ofValue? v s h]
  · intro v s _
    exact Json.roundTrips_of_whole s.plain_toValue (fun _ => s.ofValue?_toValue) whole_of_ofValue?

theorem Token.stable : Json.Stable Token.toValue (Token.ofValue? ·) := by
  apply Json.stable_of
  · intro v t deep h
    exact Nat.le_trans (narrow_ofValue? h).2 deep
  · intro v t h
    obtain ⟨inRange, -⟩ := narrow_ofValue? h
    exact Json.roundTrips_of_shallow (.object (plain_fields inRange)) (show 1 < 128 by decide)
      (ofValue?_toValue inRange false)

theorem Text.Place.stable : Json.Stable Place.toValue Place.ofValue? := by
  apply Json.stable_of
  · intro v p deep h
    exact Nat.le_trans (narrow_ofValue? h).2 deep
  · intro v p h
    obtain ⟨inRange, -⟩ := narrow_ofValue? h
    exact Json.roundTrips_of_shallow (plain_toValue inRange) (show 1 < 128 by decide)
      (ofValue?_toValue inRange)

theorem Refusal.stable : Json.Stable Refusal.toValue Refusal.ofValue? := by
  have lower (r : Refusal) : r.toValue.nesting ≤ 2 := Nat.succ_le_succ r.nesting_fields
  apply Json.stable_of
  · intro v r _ _
    exact Nat.le_trans (lower r) (by decide)
  · intro v r h
    have inRange := inRange_of_ofValue? h
    exact Json.roundTrips_of_shallow (.object (plain_fields inRange))
      (Nat.lt_of_le_of_lt (lower r) (by decide)) (ofValue?_of_members inRange r.members?_fields)

/-! ## All records -/

/-- **Writing a record anew changes its text at most once.** Whatever text says a record, by the
order of its fields or as an array, with its tag anywhere, with numbers for tags, with fields that
are ignored or missing, and however deep it is: the text that is written of the record says the same
record, and written anew it stays as it is. -/
theorem records_stable :
    Json.Stable Token.Kind.toValue (Token.Kind.ofValue? ·) ∧
    Json.Stable Fault.Code.toValue Fault.Code.ofValue? ∧
    Json.Stable Place.toValue Place.ofValue? ∧
    Json.Stable Token.toValue (Token.ofValue? ·) ∧
    Json.Stable Branch.toValue Branch.ofValue? ∧
    Json.Stable Tree.toValue (Tree.ofValue? ·) ∧
    Json.Stable Keep.toValue Keep.ofValue? ∧
    Json.Stable Keep.Trivia.toValue Keep.Trivia.ofValue? ∧
    Json.Stable Sketch.toValue Sketch.ofValue? ∧
    Json.Stable Refusal.toValue Refusal.ofValue? ∧
    Json.Stable (Envelope.toValue Token.format) (Envelope.ofValue? Token.format) ∧
    Json.Stable (Envelope.toValue Tree.format) (Envelope.ofValue? Tree.format) ∧
    Json.Stable Settings.toValue Settings.ofValue? := by
  refine ⟨?_, ?_, Place.stable, Token.stable, Branch.stable, Tree.stable, ?_, ?_, Sketch.stable,
    Refusal.stable, ?_, ?_, ?_⟩
  · exact Json.stable_of_shallow (fun _ => .string _) (fun _ => show 0 < 128 by decide)
      fun k => Token.Kind.ofValue?_toValue k false
  · exact Json.stable_of_shallow (fun _ => .string _) (fun _ => show 0 < 128 by decide)
      Fault.Code.ofLabel?_label
  · exact Json.stable_of_shallow Keep.plain_toValue (fun _ => show 1 < 128 by decide) fun _ => rfl
  · exact Json.stable_of_shallow Keep.Trivia.plain_toValue (fun _ => show 1 < 128 by decide)
      fun _ => rfl
  · exact Envelope.stable Token.lawful_format fun _ _ => Token.narrow_ofValue?
  · exact Envelope.stable Tree.lawful_format fun _ _ => Tree.narrow_ofValue?
  · exact Json.stable_of_shallow Settings.plain_toValue Settings.nesting_toValue
      Settings.ofValue?_toValue

/-- A list as an array, in which a token has a number for a tag and an object for its kind, behind
other fields; a refusal in which what should be tokens is none and `data` is nothing; settings that
say nothing; and as many lists as a reader follows. -/
theorem records_stable_spellings :
    let list := "[\"List\", [\x7b\"line\":0, \"column\":1, \"type\":0, \"note\":[[]], " ++
      "\"kind\":\x7b\"Word\":\x7b\x7d\x7d, \"offset\":1, \"length\":1\x7d], 0, 3, 0, 0]"
    let listAnew := "\x7b\"type\":\"List\",\"children\":[\x7b\"type\":\"Leaf\"," ++
      "\"kind\":\"Word\",\"offset\":1,\"length\":1,\"line\":0,\"column\":1\x7d]," ++
      "\"offset\":0,\"length\":3,\"line\":0,\"column\":0\x7d"
    let refusal := "\x7b\"data\":null, \"error_message\":\"\", \"tokens\":null, " ++
      "\"error_code\":7, \"ok\":true\x7d"
    let refusalAnew := "\x7b\"ok\":true,\"error_code\":7,\"error_message\":\"\"\x7d"
    let lists := List.replicate 127 '[' ++ List.replicate 127 ']'
    (Json.rewrite? Tree.toValue (Tree.ofValue? ·) .compact list = some listAnew ∧
      Json.rewrite? Tree.toValue (Tree.ofValue? ·) .compact listAnew = some listAnew) ∧
    (Json.rewrite? (Envelope.toValue Token.format) (Envelope.ofValue? Token.format) .compact
        refusal = some refusalAnew ∧
      Json.rewrite? (Envelope.toValue Token.format) (Envelope.ofValue? Token.format) .compact
        refusalAnew = some refusalAnew) ∧
    (Json.rewrite? Sketch.toValue Sketch.ofValue? .compact (.ofList (' ' :: lists)) =
        some (.ofList lists) ∧
      Json.rewrite? Sketch.toValue Sketch.ofValue? .compact (.ofList lists) =
        some (.ofList lists)) ∧
    (Json.read "[]").bind Settings.ofValue? = some {} ∧
    (Json.read (({} : Settings).toValue.render .indented)).bind Settings.ofValue? = some {} := by
  intro list listAnew refusal refusalAnew lists
  obtain ⟨-, -, -, -, -, trees, -, -, sketches, -, answers, -, settings⟩ := records_stable
  have hlist : Json.rewrite? Tree.toValue (Tree.ofValue? ·) .compact list = some listAnew := by
    decide +kernel
  have hrefusal : Json.rewrite? (Envelope.toValue Token.format) (Envelope.ofValue? Token.format)
      .compact refusal = some refusalAnew := by decide +kernel
  have hlists : Json.rewrite? Sketch.toValue Sketch.ofValue? .compact (.ofList (' ' :: lists)) =
      some (.ofList lists) := by
    rw [Json.rewrite?, Json.read, String.toList_ofList]
    decide +kernel
  have hsettings : (Json.read "[]").bind Settings.ofValue? = some {} := by decide +kernel
  refine ⟨⟨hlist, ?_⟩, ⟨hrefusal, ?_⟩, ⟨hlists, ?_⟩, hsettings, ?_⟩
  · exact trees.once .compact list listAnew hlist
  · exact answers.once .compact refusal refusalAnew hrefusal
  · exact sketches.once .compact _ _ hlists
  · exact settings.same "[]" {} hsettings .indented

end Bracketry
