import Bracketry.FileTree
import Bracketry.Path
import Bracketry.Proofs.Messages.Layout
import Mathlib.Data.List.Nodup

/-!
# The files below a folder

A file is below a folder if a path of names leads to it (`FileTree.Below`). In a proper tree, where
an entry has a name that a path can say and that no other entry of its folder has, the files below a
folder are told in two ways that agree with this one: `FileTree.files` lists each of them once, and
joining its names to the path of the folder, one after the other, finds it (`FileTree.find_below`).

Joining a name is done on texts and following a path is done on its parts, and the two meet in the
parts of a joined path: they are those of a path to the folder with the name behind them. That path
is the one which was joined to, or that path without the slash at its end.
-/

namespace Bracketry

open Text

namespace FileTree

/-! ## Proper trees -/

/-- A text that can name an entry: it is one part of a path, and it leads onward. -/
structure IsName (name : String) : Prop where
  ne_empty : name ≠ ""
  ne_dot : name ≠ "."
  ne_dots : name ≠ ".."
  noSlash : '/' ∉ name.toList

instance (name : String) : Decidable (IsName name) :=
  decidable_of_iff (name ≠ "" ∧ name ≠ "." ∧ name ≠ ".." ∧ '/' ∉ name.toList)
    ⟨fun ⟨empty, dot, dots, slash⟩ => ⟨empty, dot, dots, slash⟩,
      fun named => ⟨named.ne_empty, named.ne_dot, named.ne_dots, named.noSlash⟩⟩

/-- A tree whose entries have names, different ones in the same folder. -/
inductive Proper : FileTree → Prop
  | file (content : ByteArray) : Proper (file content)
  | folder {entries : List (String × FileTree)} (named : ∀ e ∈ entries, IsName e.1)
    (nodup : (entries.map Prod.fst).Nodup) (each : ∀ e ∈ entries, Proper e.2) :
    Proper (folder entries)

/-- A file with some content is where a path of names leads from a place in a tree. -/
inductive Below : FileTree → List String → ByteArray → Prop
  | file {content : ByteArray} : Below (file content) [] content
  | entry {entries : List (String × FileTree)} {name : String} {inner : FileTree}
    {path : List String} {content : ByteArray} (there : (name, inner) ∈ entries)
    (below : Below inner path content) : Below (folder entries) (name :: path) content

theorem lookup_eq_some {entries : List (String × FileTree)} (nodup : (entries.map Prod.fst).Nodup)
    {name : String} {inner : FileTree} (there : (name, inner) ∈ entries) :
    entries.lookup name = some inner := by
  obtain ⟨before, after, rfl⟩ := List.append_of_mem there
  rw [List.map_append, List.map_cons, List.nodup_middle, List.nodup_cons] at nodup
  refine List.lookup_eq_some_iff.mpr ⟨before, after, rfl, fun e he => bne_iff_ne.mpr ?_⟩
  intro same
  have twice := List.mem_map_of_mem (f := Prod.fst) he
  exact nodup.1 (List.mem_append_left _ (same ▸ twice))

/-! ## Listing -/

theorem filesOf_eq (entries : List (String × FileTree)) :
    filesOf entries = entries.flatMap fun e => e.2.files.map (e.1 :: ·) := by
  induction entries with
  | nil => rfl
  | cons e entries ih => rw [filesOf, ih, List.flatMap_cons]

theorem mem_files_folder {entries : List (String × FileTree)} {path : List String} :
    path ∈ (folder entries).files ↔
      ∃ e ∈ entries, ∃ inner ∈ e.2.files, e.1 :: inner = path := by
  rw [files, filesOf_eq, List.mem_flatMap]
  simp only [List.mem_map]

theorem mem_files_iff {tree : FileTree} {path : List String} :
    path ∈ tree.files ↔ ∃ content, tree.Below path content := by
  induction path generalizing tree with
  | nil =>
    cases tree with
    | file content => exact ⟨fun _ => ⟨content, .file⟩, fun _ => List.mem_singleton.mpr rfl⟩
    | folder entries =>
      rw [mem_files_folder]
      constructor
      · rintro ⟨e, -, inner, -, ⟨⟩⟩
      · rintro ⟨content, ⟨⟩⟩
  | cons name path ih =>
    cases tree with
    | file content =>
      constructor
      · rw [files, List.mem_singleton]
        exact nofun
      · rintro ⟨content, ⟨⟩⟩
    | folder entries =>
      rw [mem_files_folder]
      constructor
      · rintro ⟨e, there, inner, listed, same⟩
        obtain ⟨rfl, rfl⟩ := List.cons.inj same
        obtain ⟨content, below⟩ := ih.mp listed
        exact ⟨content, .entry there below⟩
      · rintro ⟨content, below⟩
        cases below with
        | entry there below => exact ⟨_, there, path, ih.mpr ⟨content, below⟩, rfl⟩

theorem Proper.nodup_files {tree : FileTree} (h : tree.Proper) : tree.files.Nodup := by
  induction h with
  | file content => exact List.nodup_singleton _
  | @folder entries named nodup each ih =>
    rw [files, filesOf_eq, List.nodup_flatMap]
    refine ⟨fun e he => (ih e he).map fun _ _ => List.tail_eq_of_cons_eq, ?_⟩
    refine (List.pairwise_map.mp nodup).imp fun {e e'} other => ?_
    rintro path hpath hpath'
    obtain ⟨inner, -, rfl⟩ := List.mem_map.mp hpath
    obtain ⟨inner', -, same⟩ := List.mem_map.mp hpath'
    exact other (List.head_eq_of_cons_eq same).symm

/-! ## Following paths -/

/-- Where one part of a path leads, with the folders around that place. -/
def enter (around : List FileTree) (place : FileTree) (name : String) :
    Except ReadError (List FileTree × FileTree) :=
  match place with
  | file _ => .error .notFolder
  | folder entries =>
    if name = "" ∨ name = "." then .ok (around, place)
    else if name = ".." then .ok (around.tail, around.headD (folder []))
    else
      match entries.lookup name with
      | none => .error .notFound
      | some inner => .ok (place :: around, inner)

section

variable {tree place found inner : FileTree} {around : List FileTree} {path name : String}
  {entries : List (String × FileTree)}

/-- A path is followed one part at a time. -/
theorem follow_cons (around : List FileTree) (place : FileTree) (name : String)
    (path : List String) : follow around place (name :: path) =
      (enter around place name).bind fun there => follow there.1 there.2 path := by
  cases place with
  | file content => rfl
  | folder entries =>
    rw [enter]
    by_cases stays : name = "" ∨ name = "."
    · cases around <;> rw [follow, if_pos stays, if_pos stays] <;> rfl
    · by_cases up : name = ".."
      · cases around <;> rw [follow, if_neg stays, if_neg stays, if_pos up, if_pos up] <;> rfl
      · cases around <;> rw [follow, if_neg stays, if_neg stays, if_neg up, if_neg up] <;>
          cases entries.lookup name <;> rfl

theorem enter_name (named : IsName name) (there : entries.lookup name = some inner) :
    enter around (folder entries) name = .ok (folder entries :: around, inner) := by
  rw [enter, if_neg (not_or.mpr ⟨named.ne_empty, named.ne_dot⟩), if_neg named.ne_dots, there]

/-- A path is followed as far as its beginning leads, and from there on. -/
theorem follow_append (around : List FileTree) (place : FileTree) (path : List String) :
    ∃ around', ∀ rest, follow around place (path ++ rest) =
      (follow around place path).bind (follow around' · rest) := by
  induction path generalizing around place with
  | nil => exact ⟨around, fun rest => rfl⟩
  | cons name path ih =>
    simp only [List.cons_append, follow_cons]
    cases enter around place name with
    | error e => exact ⟨[], fun rest => rfl⟩
    | ok there => exact ih there.1 there.2

theorem parts_ne_nil (path : String) : parts path ≠ [] := by
  simp [parts, pieces_ne_nil]

theorem find_eq (tree : FileTree) (path : String) : tree.find path =
    if (parts path).head? = some "" then follow [] (folder []) (parts path).tail
    else follow [] tree (parts path) := by
  rw [find]
  split
  · next absolute split => rw [split, List.head?_cons, if_pos rfl, List.tail_cons]
  · next relative =>
    rw [if_neg fun head => ?_]
    obtain ⟨absolute, split⟩ := List.head?_eq_some_iff.mp head
    exact relative absolute split

theorem find_append (tree : FileTree) {path' : String} {rest : List String}
    (h : parts path' = parts path ++ rest) :
    ∃ around, tree.find path' = (tree.find path).bind (follow around · rest) := by
  have some := parts_ne_nil path
  rw [find_eq, find_eq, h, List.head?_append_of_ne_nil _ some]
  split
  · obtain ⟨around, onward⟩ := follow_append [] (folder []) (parts path).tail
    exact ⟨around, by rw [List.tail_append_of_ne_nil some, onward]⟩
  · obtain ⟨around, onward⟩ := follow_append [] tree (parts path)
    exact ⟨around, onward rest⟩

/-- A slash at the end of a path changes nothing for a folder. -/
theorem follow_slash (h : follow around place [""] = .ok found) : place = found := by
  rw [follow_cons] at h
  cases place with
  | file content => cases h
  | folder entries =>
    cases h
    rfl

theorem parts_separated (s t : List Char) : parts (String.ofList (s ++ '/' :: t)) =
    parts (String.ofList s) ++ parts (String.ofList t) := by
  simp only [parts, String.toList_ofList, pieces_append_separator, List.map_append]

theorem pieces_of_isName (named : IsName name) : pieces '/' name.toList = [name.toList] := by
  have whole := pieces_intercalate (List.cons_ne_nil name.toList [])
    (fun row hrow => List.mem_singleton.mp hrow ▸ named.noSlash)
  rwa [List.intercalate_singleton] at whole

theorem parts_of_isName (named : IsName name) : parts name = [name] := by
  rw [parts, pieces_of_isName named, List.map_singleton, String.ofList_toList]

/-- A name that is joined to the path of a folder stands behind the parts of a path to it. -/
theorem exists_parts_join (named : IsName name) (h : tree.find path = .ok place) :
    ∃ path', tree.find path' = .ok place ∧ parts (Path.join path name) = parts path' ++ [name] := by
  have relative : Path.isAbsolute name = false := by
    rw [Path.isAbsolute, beq_eq_false_iff_ne]
    exact fun slash => named.noSlash (List.mem_of_head? slash)
  rw [Path.join, if_neg (by simp [relative])]
  split
  · next slash =>
    obtain ⟨s, hs⟩ := List.getLast?_eq_some_iff.mp slash
    have whole : path = String.ofList (s ++ '/' :: []) := by rw [← hs, String.ofList_toList]
    have joined : path ++ name = String.ofList (s ++ '/' :: name.toList) := by
      rw [whole]
      apply String.toList_inj.mp
      simp
    refine ⟨String.ofList s, ?_, ?_⟩
    · obtain ⟨around, onward⟩ := find_append tree (whole ▸ parts_separated s [])
      rw [h] at onward
      cases found : tree.find (String.ofList s) with
      | error e =>
        rw [found] at onward
        cases onward
      | ok place' =>
        rw [found] at onward
        rw [follow_slash onward.symm]
    · rw [joined, parts_separated, String.ofList_toList, parts_of_isName named]
  · have joined : path ++ "/" ++ name = String.ofList (path.toList ++ '/' :: name.toList) := by
      apply String.toList_inj.mp
      simp
    refine ⟨path, h, ?_⟩
    rw [joined, parts_separated, String.ofList_toList, String.ofList_toList, parts_of_isName named]

/-- An entry of a folder is named by the joined path. -/
theorem find_join (h : tree.find path = .ok (folder entries)) (named : IsName name)
    (there : entries.lookup name = some inner) : tree.find (Path.join path name) = .ok inner := by
  obtain ⟨path', h', joined⟩ := exists_parts_join named h
  obtain ⟨around, onward⟩ := find_append tree joined
  rw [onward, h']
  show follow around (folder entries) [name] = .ok inner
  rw [follow_cons, enter_name named there]
  rfl

/-- **A file below a folder is found by joining its names to the path of the folder.** -/
theorem find_below {names : List String} {content : ByteArray} (below : place.Below names content)
    (proper : place.Proper) (h : tree.find path = .ok place) :
    tree.find (names.foldl Path.join path) = .ok (file content) := by
  induction below generalizing path with
  | file => exact h
  | entry there below ih =>
    cases proper with
    | folder named nodup each =>
      exact ih (each _ there) (find_join h (named _ there) (lookup_eq_some nodup there))

theorem Below.isName {names : List String} {content : ByteArray} (below : place.Below names content)
    (proper : place.Proper) : ∀ name ∈ names, IsName name := by
  induction below with
  | file => exact List.forall_mem_nil _
  | entry there below ih =>
    cases proper with
    | folder named nodup each =>
      exact List.forall_mem_cons.mpr ⟨named _ there, ih (each _ there)⟩

/-- Names lead to one file at most. -/
theorem Below.unique {names : List String} {content content' : ByteArray}
    (below : place.Below names content) (below' : place.Below names content')
    (proper : place.Proper) : content = content' := by
  induction below with
  | file =>
    cases below'
    rfl
  | entry there below ih =>
    cases proper with
    | folder named nodup each =>
      cases below' with
      | entry there' below' =>
        have first := lookup_eq_some nodup there
        rw [lookup_eq_some nodup there'] at first
        cases first
        exact ih below' (each _ there)

/-- A file that was made from a text is read as that text. -/
theorem text_toUTF8 (source : String) : (file source.toUTF8).text = .ok source := by
  rw [text, String.fromUTF8?, String.toUTF8_eq_toByteArray, dif_pos source.isValidUTF8]
  rfl

end

end FileTree

end Bracketry
