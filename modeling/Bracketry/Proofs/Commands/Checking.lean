import Bracketry.Proofs.Commands.Agreement
import Bracketry.Proofs.Commands.Folders
import Mathlib.Data.List.Sort
import Mathlib.Data.List.TakeWhile
import Mathlib.Data.String.Basic

/-!
# Checking a folder

Which files a check of a folder is about is told by the folder alone: they are those below it whose
name ends with an extension of sources (`Settings.Takes`). A disk may list the files below a folder
in any order. They are put in the order of paths, and since a list without repetitions is in that
order in one way only, the order of the disk is lost (`Cli.sourcesOf_perm`).

From there on a check is the loop over files of `Cli.checkAll_gives`. What remains is to say its
lines by kinds: a file that is accepted has one line, among the results, and one that is refused has
its lines among the complaints (`Cli.results_or_complaints`). Neither the settings nor the disk has
a part in that.

A disk is known by its answers. A check asks few questions: for the settings of the working folder,
what the path names, which files there are below it, and the texts of the sources (`Cli.Shows`). A
run comes to the same on every disk that gives these answers (`Cli.check_folder_complete`), whatever
else is on it and whatever the path looks like; among them is the disk of every tree
(`Cli.shows_disk`).
-/

namespace Bracketry

open Text

/-! ## Names of sources -/

/-- A name that ends with a dot and an extension of sources, behind a beginning of its own. -/
def Settings.Covers (s : Settings) (name : String) : Prop :=
  ∃ stem extension, name = stem ++ "." ++ extension ∧ stem ≠ "" ∧ '.' ∉ extension.toList ∧
    extension ∈ s.extensions

/-- Names lead to a file that has the name of a source. -/
def Settings.Takes (s : Settings) (names : List String) : Prop :=
  ∃ name ∈ names.getLast?, s.Covers name

namespace Path

theorem ne_dot_of_mem_reverse {s : List Char} (h : '.' ∉ s) :
    ∀ c ∈ s.reverse, decide (c ≠ '.') = true := by
  intro c hc
  rw [decide_eq_true_eq]
  rintro rfl
  exact h (List.mem_reverse.mp hc)

/-- The ending of a name is what stands behind its last dot. -/
theorem extensionOf?_append_dot {ending : List Char} (h : '.' ∉ ending) (stem : List Char) :
    extensionOf? (stem ++ '.' :: ending) = if stem = [] then none else some ending := by
  have found : ((stem ++ '.' :: ending).reverse.takeWhile (· ≠ '.')).reverse = ending := by
    rw [List.reverse_append, List.reverse_cons, List.append_assoc,
      List.takeWhile_append_of_pos (ne_dot_of_mem_reverse h), List.singleton_append,
      List.takeWhile_cons_of_neg (by simp), List.append_nil, List.reverse_reverse]
  have length : (stem ++ '.' :: ending).length ≤ ending.length + 1 ↔ stem = [] := by
    rw [List.length_append, List.length_cons, ← List.length_eq_zero_iff]
    omega
  rw [extensionOf?, found]
  simp only [length]

theorem extensionOf?_eq_none {name : List Char} (h : '.' ∉ name) : extensionOf? name = none := by
  have all : name.reverse.takeWhile (· ≠ '.') = name.reverse :=
    List.takeWhile_eq_self_iff.mpr (ne_dot_of_mem_reverse h)
  rw [extensionOf?, all, List.reverse_reverse]
  exact if_pos (Nat.le_succ _)

/-- A text with a dot has a last one. -/
theorem exists_lastDot {name : List Char} (h : '.' ∈ name) :
    ∃ stem ending, name = stem ++ '.' :: ending ∧ '.' ∉ ending := by
  obtain ⟨s, t, split, first⟩ := List.eq_append_cons_of_mem (List.mem_reverse.mpr h)
  refine ⟨t.reverse, s.reverse, ?_, fun h => first (List.mem_reverse.mp h)⟩
  rw [← List.reverse_reverse name, split]
  simp

theorem extensionOf?_eq_some_iff {name ending : List Char} : extensionOf? name = some ending ↔
    ∃ stem, name = stem ++ '.' :: ending ∧ stem ≠ [] ∧ '.' ∉ ending := by
  constructor
  · intro h
    by_cases dot : '.' ∈ name
    · obtain ⟨stem, last, rfl, none⟩ := exists_lastDot dot
      rw [extensionOf?_append_dot none] at h
      split at h
      · cases h
      · next some =>
        cases h
        exact ⟨stem, rfl, some, none⟩
    · rw [extensionOf?_eq_none dot] at h
      cases h
  · rintro ⟨stem, rfl, some, none⟩
    rw [extensionOf?_append_dot none, if_neg some]

theorem fileName?_of_isName {name : String} (named : FileTree.IsName name) :
    fileName? name = some name.toList := by
  have ne {text : String} (other : name ≠ text) : name.toList ≠ text.toList :=
    fun same => other (String.toList_inj.mp same)
  have solid : [name.toList].filter (fun p => p ≠ [] ∧ p ≠ ['.']) = [name.toList] := by
    rw [List.filter_eq_self, List.forall_mem_singleton, decide_eq_true_eq]
    exact ⟨ne named.ne_empty, ne named.ne_dot⟩
  have upward : some name.toList ≠ some ['.', '.'] :=
    fun same => ne named.ne_dots (Option.some.inj same)
  rw [fileName?, parts, FileTree.pieces_of_isName named, solid, List.getLast?_singleton]
  split
  · next same => exact absurd same upward
  · rfl

end Path

theorem Settings.isSource_iff {s : Settings} {name : String} (named : FileTree.IsName name) :
    s.isSource name = true ↔ s.Covers name := by
  rw [isSource, Path.extension?, Path.fileName?_of_isName named, Option.bind_some, Covers]
  constructor
  · intro h
    split at h
    · next extension found =>
      obtain ⟨ending, split, rfl⟩ := Option.map_eq_some_iff.mp found
      obtain ⟨stem, whole, some, last⟩ := Path.extensionOf?_eq_some_iff.mp split
      refine ⟨String.ofList stem, String.ofList ending, ?_, ?_, ?_, List.contains_iff_mem.mp h⟩
      · apply String.toList_inj.mp
        simp [whole]
      · simpa using some
      · simpa using last
    · cases h
  · rintro ⟨stem, extension, rfl, some, last, known⟩
    have found : Path.extensionOf? (stem ++ "." ++ extension).toList =
        Option.some extension.toList :=
      Path.extensionOf?_eq_some_iff.mpr ⟨stem.toList, by simp, by simpa using some, last⟩
    rw [found, Option.map_some, String.ofList_toList]
    exact List.contains_iff_mem.mpr known

/-! ## The order of paths -/

namespace Path

theorem le_eq_true_iff {p q : List String} : le p q = true ↔ p = q ∨ p < q := by
  induction p generalizing q with
  | nil => cases q <;> simp [le]
  | cons a p ih =>
    cases q with
    | nil => simp [le]
    | cons b q =>
      rw [le, List.cons_lt_cons_iff, List.cons.injEq]
      by_cases same : a = b
      · simp [same, ih]
      · simp [same]

/-- Paths are compared as lists of names. -/
theorem le_iff {p q : List String} : le p q = true ↔ p ≤ q :=
  le_eq_true_iff.trans le_iff_eq_or_lt.symm

end Path

namespace Cli

/-! ## Sources in order -/

section

variable {settings : Settings} {files files' : List (List String)} {names : List String}

theorem mem_sourcesOf : names ∈ sourcesOf settings files ↔
    names ∈ files ∧ ∃ name ∈ names.getLast?, settings.isSource name = true := by
  rw [sourcesOf, List.mem_mergeSort, List.mem_filter]
  cases names.getLast? <;> simp

theorem pairwise_le_sourcesOf (settings : Settings) (files : List (List String)) :
    (sourcesOf settings files).Pairwise (· ≤ ·) := by
  refine (List.pairwise_mergeSort (fun p q r hpq hqr => ?_) (fun p q => ?_) _).imp Path.le_iff.mp
  · rw [Path.le_iff] at *
    exact hpq.trans hqr
  · rw [Bool.or_eq_true, Path.le_iff, Path.le_iff]
    exact le_total p q

theorem pairwise_sourcesOf (nodup : files.Nodup) :
    (sourcesOf settings files).Pairwise (· < ·) := by
  have once : (sourcesOf settings files).Nodup :=
    (List.mergeSort_perm ..).nodup_iff.mpr (nodup.filter _)
  refine (List.Pairwise.and (pairwise_le_sourcesOf settings files) once).imp ?_
  exact fun ⟨le, ne⟩ => lt_of_le_of_ne le ne

/-- The sources are in the order of paths, and nothing else is told of their order. -/
theorem sourcesOf_eq {sources : List (List String)} (ordered : sources.Pairwise (· ≤ ·))
    (perm : sources.Perm (files.filter fun names =>
      (names.getLast?.map settings.isSource).getD false)) : sourcesOf settings files = sources :=
  List.Perm.eq_of_pairwise (fun _ _ _ _ => le_antisymm) (pairwise_le_sourcesOf settings files)
    ordered ((List.mergeSort_perm ..).trans perm.symm)

/-- The order in which files are listed does not show. -/
theorem sourcesOf_perm (settings : Settings) (perm : files.Perm files') :
    sourcesOf settings files = sourcesOf settings files' :=
  sourcesOf_eq (pairwise_le_sourcesOf settings files')
    ((List.mergeSort_perm ..).trans (perm.filter _).symm)

end

/-! ## Sources below a folder -/

/-- A source below a folder: the names that lead to it, and its text. -/
structure Source where
  names : List String
  text : String

/-- A source as it is checked, with its path from a folder on. -/
def Source.file (dir : String) (s : Source) : SourceFile := ⟨s.names.foldl Path.join dir, s.text⟩

section

variable {settings : Settings} {place : FileTree}

theorem mem_sourcesOf_files_iff (proper : place.Proper) {names : List String} :
    names ∈ sourcesOf settings place.files ↔
      ∃ content, place.Below names content ∧ settings.Takes names := by
  rw [mem_sourcesOf, FileTree.mem_files_iff]
  have covers {content : ByteArray} (below : place.Below names content) {name : String}
      (last : name ∈ names.getLast?) : settings.isSource name = true ↔ settings.Covers name :=
    Settings.isSource_iff (below.isName proper name (List.mem_of_mem_getLast? last))
  constructor
  · rintro ⟨⟨content, below⟩, name, last, source⟩
    exact ⟨content, below, name, last, (covers below last).mp source⟩
  · rintro ⟨content, below, name, last, source⟩
    exact ⟨⟨content, below⟩, name, last, (covers below last).mpr source⟩

theorem exists_map_names {l : List (List String)} {P : List String → String → Prop}
    (h : ∀ names ∈ l, ∃ text, P names text) :
    ∃ sources : List Source, sources.map Source.names = l ∧ ∀ s ∈ sources, P s.names s.text := by
  induction l with
  | nil => exact ⟨[], rfl, List.forall_mem_nil _⟩
  | cons names l ih =>
    obtain ⟨⟨text, first⟩, rest⟩ := List.forall_mem_cons.mp h
    obtain ⟨sources, rfl, all⟩ := ih rest
    exact ⟨⟨names, text⟩ :: sources, rfl, List.forall_mem_cons.mpr ⟨first, all⟩⟩

/-- A list of the sources below a place, each with its text, leaves out none. -/
theorem exists_of_listed (proper : place.Proper) {sources : List Source}
    (listed : sources.map Source.names = sourcesOf settings place.files)
    (texts : ∀ s ∈ sources, place.Below s.names s.text.toUTF8) {names : List String}
    {content : ByteArray} (below : place.Below names content) (takes : settings.Takes names) :
    ∃ s ∈ sources, s.names = names ∧ s.text.toUTF8 = content := by
  have known : names ∈ sources.map Source.names := by
    rw [listed]
    exact (mem_sourcesOf_files_iff proper).mpr ⟨content, below, takes⟩
  obtain ⟨s, there, rfl⟩ := List.mem_map.mp known
  exact ⟨s, there, rfl, (texts s there).unique below proper⟩

theorem mem_iff_of_listed (proper : place.Proper) {sources : List Source}
    (listed : sources.map Source.names = sourcesOf settings place.files)
    (texts : ∀ s ∈ sources, place.Below s.names s.text.toUTF8) (s : Source) :
    s ∈ sources ↔ place.Below s.names s.text.toUTF8 ∧ settings.Takes s.names := by
  constructor
  · intro there
    have known : s.names ∈ sourcesOf settings place.files :=
      listed ▸ List.mem_map_of_mem there
    obtain ⟨-, -, takes⟩ := (mem_sourcesOf_files_iff proper).mp known
    exact ⟨texts s there, takes⟩
  · rintro ⟨below, takes⟩
    obtain ⟨⟨names, text⟩, there, rfl, same⟩ := exists_of_listed proper listed texts below takes
    obtain rfl : text = s.text := String.toByteArray_inj.mp same
    exact there

/-- What is listed as the sources below a place are all files there that have the name of a source,
each with its text. -/
theorem exists_sources (proper : place.Proper) (readable : ∀ names content,
      place.Below names content → settings.Takes names → content.IsValidUTF8) :
    ∃ sources : List Source, sources.map Source.names = sourcesOf settings place.files ∧
      ∀ s, s ∈ sources ↔ place.Below s.names s.text.toUTF8 ∧ settings.Takes s.names := by
  have texts : ∀ names ∈ sourcesOf settings place.files, ∃ text : String,
      place.Below names text.toUTF8 := by
    intro names listed
    obtain ⟨content, below, takes⟩ := (mem_sourcesOf_files_iff proper).mp listed
    exact ⟨.fromUTF8 content (readable names content below takes), below⟩
  obtain ⟨sources, listed, all⟩ := exists_map_names texts
  exact ⟨sources, listed, mem_iff_of_listed proper listed all⟩

end

/-- Sources in the order of their names are told by which they are. -/
theorem eq_of_mem_iff {sources sources' : List Source}
    (ordered : (sources.map Source.names).Pairwise (· < ·))
    (ordered' : (sources'.map Source.names).Pairwise (· < ·))
    (same : ∀ s, s ∈ sources ↔ s ∈ sources') : sources = sources' := by
  have irreflexive : Std.Irrefl fun s t : Source => s.names < t.names := ⟨fun s => lt_irrefl s.names⟩
  have antisymmetric : Std.Antisymm fun s t : Source => s.names < t.names :=
    ⟨fun _ _ h h' => absurd h' (lt_asymm h)⟩
  exact (List.pairwise_map.mp ordered).eq_of_mem_iff (List.pairwise_map.mp ordered') same

/-! ## What a check asks of a disk -/

/-- The answers that a check of a folder is given: the settings of the working folder, that the path
names a folder, the files below it in any order, and the texts of the sources among them. Nothing is
said of any other path. -/
structure Shows (disk : Disk Id) (settings : Settings) (dir : String)
    (entries : List (String × FileTree)) : Prop where
  loaded : settings? disk = some settings
  kind : disk.kind? dir = some .folder
  files : List.Perm (disk.filesBelow dir) (FileTree.folder entries).files
  read : ∀ names content, (FileTree.folder entries).Below names content → settings.Takes names →
    disk.read (names.foldl Path.join dir) = (FileTree.file content).text

/-- The disk of a tree gives these answers about every proper folder that is found in the tree. -/
theorem shows_disk {tree : FileTree} {settings : Settings} (hs : settings? tree.disk = some settings)
    {dir : String} {entries : List (String × FileTree)} (proper : (FileTree.folder entries).Proper)
    (found : tree.find dir = .ok (.folder entries)) : Shows tree.disk settings dir entries where
  loaded := hs
  kind := by simp only [FileTree.disk, found]
  files := by simp only [FileTree.disk, found, List.Perm.refl]
  read names content below _ := by
    simp only [FileTree.disk, FileTree.find_below below proper found]
    rfl

/-! ## Accepted and refused -/

/-- A file has its lines on one of the two streams. -/
theorem results_or_complaints (home : String) (color pretty : Bool) (f : SourceFile) :
    (f.isRefused = false ∧ f.complaints home color pretty = [] ∧ f.results home color =
      ["  " ++ Style.green.paint color "✓" ++ " " ++ Path.join home f.path]) ∨
    (f.isRefused = true ∧ f.results home color = [] ∧
      ∃ message, f.complaints home color pretty =
        ["  " ++ Style.red.paint color "✗" ++ " " ++ Path.join home f.path, message]) := by
  rw [SourceFile.isRefused, SourceFile.results, SourceFile.complaints]
  cases Bracketry.parse f.text with
  | ok trees => exact .inl ⟨rfl, rfl, rfl⟩
  | error fault => exact .inr ⟨rfl, rfl, _, rfl⟩

theorem flatMap_results (home : String) (color : Bool) (files : List SourceFile) :
    files.flatMap (SourceFile.results home color) =
      (files.filter fun f => !f.isRefused).map fun f =>
        "  " ++ Style.green.paint color "✓" ++ " " ++ Path.join home f.path := by
  induction files with
  | nil => rfl
  | cons f fs ih =>
    rw [List.flatMap_cons, ih]
    obtain ⟨accepted, -, line⟩ | ⟨refused, none, -⟩ := results_or_complaints home color false f
    · rw [line, List.filter_cons_of_pos (by simp [accepted])]
      rfl
    · rw [none, List.filter_cons_of_neg (by simp [refused])]
      rfl

theorem flatMap_complaints (home : String) (color pretty : Bool) (files : List SourceFile) :
    files.flatMap (SourceFile.complaints home color pretty) =
      (files.filter SourceFile.isRefused).flatMap (SourceFile.complaints home color pretty) := by
  induction files with
  | nil => rfl
  | cons f fs ih =>
    rw [List.flatMap_cons, ih]
    obtain ⟨accepted, none, -⟩ | ⟨refused, -⟩ := results_or_complaints home color pretty f
    · rw [none, List.nil_append, List.filter_cons_of_neg (by simp [accepted])]
    · rw [List.filter_cons_of_pos refused, List.flatMap_cons]

/-! ## The check of a folder -/

/-- All that is written by a check of a folder whose sources can be read. -/
theorem check_folder_gives {w : World Id} {settings : Settings} {dir : String}
    (hs : settings? w.disk = some settings) (hk : w.disk.kind? dir = some .folder)
    {files : List SourceFile} (listed : (sourcesOf settings (w.disk.filesBelow dir)).map
      (·.foldl Path.join dir) = files.map SourceFile.path)
    (readable : ∀ f ∈ files, w.disk.read f.path = .ok f.text) (pretty : Bool) :
    Gives w (check w dir pretty)
      (if 0 < files.countP SourceFile.isRefused then .rejected else .done)
      (unlines (Style.boldBlue.paint w.color "🔍 Checking sources..." ::
        if files = [] then [Style.yellow.paint w.color "⚠️  No source files found"]
        else ("Found " ++ toString files.length ++ " files") ::
          (files.flatMap (SourceFile.results w.home w.color) ++
            ["", summary w.color (files.countP SourceFile.isRefused) files.length])))
      (unlines (files.flatMap (SourceFile.complaints w.home w.color pretty))) := by
  have checked := checkAll_gives w settings.keep pretty files readable
  rw [← listed] at checked
  have length := congrArg List.length listed
  rw [List.length_map, List.length_map] at length
  rw [unlines_cons, ← @String.empty_append (unlines (files.flatMap _))]
  refine (loadSettings_gives hs).andThen ((Gives.print w _).bind ((Gives.lift hk w).andThen
    ((Gives.lift rfl w).andThen ?_)))
  -- whether there are sources is asked of their paths, and told by the files that they lead to
  generalize sourcesOf settings (w.disk.filesBelow dir) = sources at *
  cases files with
  | nil =>
    obtain rfl : sources = [] := List.length_eq_zero_iff.mp length
    exact (Gives.print w _).andReturn _
  | cons f fs =>
    cases sources with
    | nil => cases length
    | cons source sources =>
      rw [← length] at checked ⊢
      rw [if_neg (List.cons_ne_nil f fs), unlines_cons]
      exact (Gives.print w _).bind checked

/-- **A folder is checked completely and counted right.** Take the entries of any proper folder in
which every file with the name of a source is text, any settings, and any path. Where the path leads
to that folder, and these are the settings, a check that is not verbose is about those files and no
others, each of them once, in the order of their names from the folder on. What parses is accepted
and has a line among the results, and what does not parse is refused and has a line among the
complaints with a message behind it, both in that order. The last line and the status are about the
numbers of these files, unless there are none, which is said and is no failure. All this is the same
on every disk that gives the answers about the folder, in whatever order it lists the files. -/
theorem check_folder_complete {entries : List (String × FileTree)}
    (proper : (FileTree.folder entries).Proper) {settings : Settings}
    (readable : ∀ names content, (FileTree.folder entries).Below names content →
      settings.Takes names → content.IsValidUTF8)
    {dir : String} {arguments : List String} {pretty : Bool}
    (h : Request.ofArguments? 0 arguments = some (.run 0 (.check dir pretty)))
    (home : String) (color : Bool) :
    ∃ sources : List Source,
      (sources.map Source.names).Pairwise (· < ·) ∧
      (∀ s, s ∈ sources ↔ (FileTree.folder entries).Below s.names s.text.toUTF8 ∧
        settings.Takes s.names) ∧
      let files := sources.map (Source.file dir)
      let accepted := files.filter fun f => (Bracketry.parse f.text).isOk
      let refused := files.filter fun f => !(Bracketry.parse f.text).isOk
      (∀ f ∈ refused, ∃ message, f.complaints home color pretty =
        ["  " ++ Style.red.paint color "✗" ++ " " ++ Path.join home f.path, message]) ∧
      ∀ disk : Disk Id, Shows disk settings dir entries → run disk home color arguments =
        let heading := Style.boldBlue.paint color "🔍 Checking sources..."
        if files = [] then
          ⟨0, unlines [heading, Style.yellow.paint color "⚠️  No source files found"], ""⟩
        else
          ⟨if refused = [] then 0 else 1,
            unlines (heading :: ("Found " ++ toString files.length ++ " files") ::
              ((accepted.map fun f =>
                "  " ++ Style.green.paint color "✓" ++ " " ++ Path.join home f.path) ++
              ["", summary color refused.length files.length])),
            unlines (refused.flatMap (SourceFile.complaints home color pretty))⟩ := by
  obtain ⟨sources, listed, all⟩ := exists_sources proper readable
  refine ⟨sources, ?_, all, ?_, ?_⟩
  · rw [listed]
    exact pairwise_sourcesOf proper.nodup_files
  · intro f hf
    have refused : f.isRefused = true := (List.mem_filter.mp hf).2
    obtain ⟨accepted, -⟩ | ⟨-, -, lines⟩ := results_or_complaints home color pretty f
    · rw [refused] at accepted
      cases accepted
    · exact lines
  · intro disk shows
    have paths : (sourcesOf settings (disk.filesBelow dir)).map (·.foldl Path.join dir) =
        (sources.map (Source.file dir)).map SourceFile.path := by
      rw [sourcesOf_perm settings shows.files, ← listed, List.map_map, List.map_map]
      rfl
    have texts : ∀ f ∈ sources.map (Source.file dir), disk.read f.path = .ok f.text := by
      intro f hf
      obtain ⟨s, hs, rfl⟩ := List.mem_map.mp hf
      obtain ⟨below, takes⟩ := (all s).mp hs
      exact (shows.read _ _ below takes).trans (FileTree.text_toUTF8 s.text)
    have gives := check_folder_gives (w := ⟨disk, home, color, 0⟩) shows.loaded shows.kind paths
      texts pretty
    -- the lines are those of all files; by their kinds, they are those of two parts of the files
    rw [gives.outcome h, flatMap_results, flatMap_complaints, List.countP_eq_length_filter]
    generalize sources.map (Source.file dir) = files
    have accepted : (files.filter fun f => !f.isRefused) =
        files.filter fun f => (Bracketry.parse f.text).isOk := by
      simp only [SourceFile.isRefused, Bool.not_not]
    have refused : (files.filter fun f => !(Bracketry.parse f.text).isOk) =
        files.filter SourceFile.isRefused := rfl
    rw [accepted, refused]
    cases files with
    | nil => rfl
    | cons f fs =>
      simp only [if_neg (List.cons_ne_nil f fs)]
      generalize (f :: fs).filter SourceFile.isRefused = refused
      cases refused <;> rfl

/-- A good source in an inner folder, which comes first, a bad one, and a file that is no source. The
folder is told by its full path to a disk that lists it in an order of its own and has nothing else;
and it is a folder of a tree, told from the top of the tree. -/
theorem check_folder_complete_nested :
    let entries : List (String × FileTree) :=
      [("b.lisp", .file "(".toUTF8), ("n.txt", .file "]".toUTF8),
        ("a", .folder [("z.scm", .file "'q'".toUTF8)])]
    let disk : Disk Id :=
      { kind? := fun path => if path = "/d" then some .folder else none
        read := fun path =>
          if path = "/d/b.lisp" then .ok "(" else if path = "/d/a/z.scm" then .ok "'q'"
          else .error .notFound
        filesBelow := fun path =>
          if path = "/d" then [["n.txt"], ["b.lisp"], ["a", "z.scm"]] else [] }
    let tree : FileTree := .folder [("d", .folder entries)]
    let outcome := run disk "/home" false ["check", "/d"]
    (FileTree.folder entries).Proper ∧
      Shows disk {} "/d" entries ∧ Shows tree.disk {} "./d/" entries ∧
      outcome.status = 1 ∧
      outcome.console.out = unlines ["🔍 Checking sources...", "Found 2 files",
        "  ✓ /d/a/z.scm", "", "✗ 1 of 2 files failed"] ∧
      outcome.console.err = unlines ["  ✗ /d/b.lisp",
        "    [2] Unclosed delimiter at line 1, column 1", "  | v opening delimiter", "1 | (",
        "  | ^ unclosed delimiter: expected `)` before end of input"] ∧
      (run tree.disk "/home" false ["check", "./d/"]).console.out =
        unlines ["🔍 Checking sources...", "Found 2 files", "  ✓ /home/./d/a/z.scm", "",
          "✗ 1 of 2 files failed"] := by
  intro entries disk tree outcome
  have proper : (FileTree.folder entries).Proper := by
    have inner : (FileTree.folder [("z.scm", .file "'q'".toUTF8)]).Proper :=
      .folder (by decide) (by decide) (List.forall_mem_singleton.mpr (.file _))
    exact .folder (by decide) (by decide) (List.forall_mem_cons.mpr ⟨.file _,
      List.forall_mem_cons.mpr ⟨.file _, List.forall_mem_singleton.mpr inner⟩⟩)
  let expected : List Source := [⟨["a", "z.scm"], "'q'"⟩, ⟨["b.lisp"], "("⟩]
  have listed : expected.map Source.names = sourcesOf {} (FileTree.folder entries).files :=
    (sourcesOf_eq (by decide +kernel) (by decide +kernel)).symm
  have texts : ∀ s ∈ expected, (FileTree.folder entries).Below s.names s.text.toUTF8 :=
    List.forall_mem_cons.mpr
      ⟨.entry (by simp [entries]) (.entry (List.mem_singleton.mpr rfl) .file),
        List.forall_mem_singleton.mpr (.entry (by simp [entries]) .file)⟩
  have readable : ∀ names content, (FileTree.folder entries).Below names content →
      ({} : Settings).Takes names → content.IsValidUTF8 := by
    intro names content below takes
    obtain ⟨s, -, -, rfl⟩ := exists_of_listed proper listed texts below takes
    exact String.isValidUTF8 _
  have shows : Shows disk {} "/d" entries := by
    refine ⟨by decide +kernel, rfl, by decide +kernel, ?_⟩
    intro names content below takes
    obtain ⟨s, there, rfl, rfl⟩ := exists_of_listed proper listed texts below takes
    have answers : ∀ s ∈ expected,
        (disk.read (s.names.foldl Path.join "/d")).run = .ok s.text := by decide +kernel
    exact (answers s there).trans (FileTree.text_toUTF8 s.text).symm
  have found : tree.find "./d/" = .ok (.folder entries) := by
    have parts : FileTree.parts "./d/" = [".", "d", ""] := by decide +kernel
    rw [FileTree.find, parts]
    rfl
  have shows' : Shows tree.disk {} "./d/" entries := shows_disk (by decide +kernel) proper found
  -- both checks are about the same sources, since these are told by the entries alone
  have told {sources : List Source} (ordered : (sources.map Source.names).Pairwise (· < ·))
      (all : ∀ s, s ∈ sources ↔ (FileTree.folder entries).Below s.names s.text.toUTF8 ∧
        ({} : Settings).Takes s.names) : sources = expected := by
    refine eq_of_mem_iff ordered ?_ fun s => ?_
    · rw [listed]
      exact pairwise_sourcesOf proper.nodup_files
    · exact (all s).trans (mem_iff_of_listed proper listed texts s).symm
  have asked : Request.ofArguments? 0 ["check", "/d"] = some (.run 0 (.check "/d" false)) := by
    decide +kernel
  have asked' : Request.ofArguments? 0 ["check", "./d/"] = some (.run 0 (.check "./d/" false)) := by
    decide +kernel
  obtain ⟨sources, ordered, all, -, checked⟩ :=
    check_folder_complete proper readable asked "/home" false
  obtain ⟨sources', ordered', all', -, checked'⟩ :=
    check_folder_complete proper readable asked' "/home" false
  obtain rfl := told ordered all
  obtain rfl := told ordered' all'
  rw [show outcome = _ from checked disk shows, checked' tree.disk shows']
  exact ⟨proper, shows, shows', by decide +kernel, by decide +kernel, by decide +kernel,
    by decide +kernel⟩

end Cli

end Bracketry
