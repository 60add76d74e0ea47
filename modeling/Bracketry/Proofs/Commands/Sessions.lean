import Bracketry.Cli.Session
import Bracketry.Proofs.Nesting.Pruning

/-!
# What sessions come to

On a disk whose answers are values a session is a function, and what a reader of it wants to know is
small: what it comes to, what it writes for results, and what it complains (`Gives`). The log also
goes to the stream for complaints, and only a verbose run has one; so complaints are told for runs
that are not verbose, and then every session that only reads writes nothing at all.

The pieces that all commands share have one law each: the settings of the working folder
(`settings?`), the text of a source, its tokens, its trees. From there on a command is put together
by `Gives.bind`. Checking is a loop over files, and its law is about any number of them: each file
has its lines on one of the two streams, in the order of the files, and the choice of what is kept
is in none of them, since it does not decide whether a source is refused, nor with which fault.
-/

namespace Bracketry.Cli

/-- A session that comes to `a` whatever has been written before it. Behind that it writes `out`,
and unless the run is verbose it complains `err`. -/
structure Gives (w : World Id) (x : Session Id α) (a : α) (out err : String) : Prop where
  value : ∀ c, (x.run c).1 = a
  out : ∀ c, (x.run c).2.out = c.out ++ out
  err : w.verbosity = 0 → ∀ c, (x.run c).2.err = c.err ++ err

namespace Gives

variable {w : World Id} {x : Session Id α} {f : α → Session Id β} {a : α} {b : β}
  {out out' err err' : String}

theorem pure (w : World Id) (a : α) : Gives w (pure a) a "" "" where
  value _ := rfl
  out _ := String.append_empty.symm
  err _ _ := String.append_empty.symm

theorem bind (first : Gives w x a out err) (rest : Gives w (f a) b out' err') :
    Gives w (x >>= f) b (out ++ out') (err ++ err') := by
  have goesOn (c : Console) : (x >>= f).run c = (f a).run (x.run c).2 := by
    rw [← first.value c]
    rfl
  refine ⟨fun c => ?_, fun c => ?_, fun quiet c => ?_⟩
  · rw [goesOn, rest.value]
  · rw [goesOn, rest.out, first.out, String.append_assoc]
  · rw [goesOn, rest.err quiet, first.err quiet, String.append_assoc]

/-- A session that wrote nothing is not seen in front of another one. -/
theorem andThen (first : Gives w x a "" "") (rest : Gives w (f a) b out err) :
    Gives w (x >>= f) b out err := by
  have both := first.bind rest
  rwa [String.empty_append, String.empty_append] at both

/-- What follows need not complain. -/
theorem andAnswer (first : Gives w x a out err) (rest : Gives w (f a) b out' "") :
    Gives w (x >>= f) b (out ++ out') err := by
  have both := first.bind rest
  rwa [String.append_empty] at both

theorem andReturn (first : Gives w x a out err) (b : β) :
    Gives w (x >>= fun _ => Pure.pure b) b out err := by
  have both := first.andAnswer (f := fun _ => Pure.pure b) (pure w b)
  rwa [String.append_empty] at both

theorem lift {y : Id α} (h : y = a) (w : World Id) :
    Gives w (monadLift y : Session Id α) a "" "" where
  value _ := h
  out _ := String.append_empty.symm
  err _ _ := String.append_empty.symm

theorem print (w : World Id) (text : String) : Gives w (print text) () text "" where
  value _ := rfl
  out _ := rfl
  err _ _ := String.append_empty.symm

theorem complain (w : World Id) (line : String) :
    Gives w (complain line) () "" (line ++ "\n") where
  value _ := rfl
  out _ := String.append_empty.symm
  err _ _ := rfl

theorem log (w : World Id) (e : LogLine) : Gives w (w.log e) () "" "" := by
  by_cases shown : e.level.shownFrom ≤ w.verbosity
  · have verbose : w.verbosity ≠ 0 := by
      have : 0 < e.level.shownFrom := by cases e.level <;> decide
      omega
    rw [World.log, if_pos shown]
    exact ⟨fun _ => rfl, (complain w e.text).out, fun quiet => absurd quiet verbose⟩
  · rw [World.log, if_neg shown]
    exact pure w ()

end Gives

/-! ## What commands read -/

/-- The settings of the working folder of a disk: the common ones where it has no file of settings,
and none where it has one that cannot be read as settings. -/
def settings? (disk : Disk Id) : Option Settings :=
  match (disk.kind? settingsName).run with
  | none => some {}
  | some _ =>
    match (disk.read settingsName).run with
    | .error _ => none
    | .ok text => Settings.read? text

section

variable {w : World Id}

theorem loadSettings_gives {settings : Settings} (h : settings? w.disk = some settings) :
    Gives w (loadSettings w) (.ok settings) "" "" := by
  rw [settings?] at h
  cases hkind : (w.disk.kind? settingsName).run with
  | none =>
    rw [hkind] at h
    cases h
    exact (Gives.lift hkind w).andThen ((Gives.log w _).andThen (Gives.pure w _))
  | some entry =>
    rw [hkind] at h
    cases hread : (w.disk.read settingsName).run with
    | error e =>
      rw [hread] at h
      cases h
    | ok text =>
      rw [hread] at h
      have valid : Settings.read? text = some settings := h
      refine (Gives.lift hkind w).andThen ((Gives.lift hread w).andThen ?_)
      simp only [valid]
      exact (Gives.log w _).andThen (Gives.pure w _)

theorem readSource_gives {path source : String} (h : w.disk.read path = .ok source) :
    Gives w (readSource w path) (.ok source) "" "" :=
  (Gives.lift h w).andThen ((Gives.log w _).andThen (Gives.pure w _))

theorem tokenizeLogged_gives (w : World Id) (outer : List String) (source : String) :
    Gives w (tokenizeLogged w outer source) (Bracketry.tokenize source) "" "" := by
  rw [tokenizeLogged]
  cases Bracketry.tokenize source with
  | error fault => exact Gives.pure w _
  | ok tokens => exact (Gives.log w _).andThen (Gives.pure w _)

theorem logLists_gives (w : World Id) (scopes : List String) (spans : List Span) :
    Gives w (logLists w scopes spans) () "" "" := by
  induction spans with
  | nil => exact Gives.pure w ()
  | cons s ss ih => exact (Gives.log w _).andThen ih

theorem parseLogged_gives (w : World Id) (source : String) (keep : Keep) :
    Gives w (parseLogged w source keep) (Bracketry.parse source keep) "" "" := by
  refine (tokenizeLogged_gives w _ source).andThen ((logLists_gives w _ _).andThen ?_)
  cases Bracketry.parse source keep with
  | error fault => exact Gives.pure w _
  | ok trees => exact (Gives.log w _).andThen (Gives.pure w _)

end

/-! ## Files one after the other -/

/-- A file that can be read. -/
structure SourceFile where
  path : String
  text : String

/-- Lines as they are written. -/
def unlines (lines : List String) : String := String.join (lines.map (· ++ "\n"))

namespace SourceFile

/-- Whether a check complains about a file. -/
def isRefused (f : SourceFile) : Bool := !(Bracketry.parse f.text).isOk

/-- The lines for a file on the stream for results. -/
def results (home : String) (color : Bool) (f : SourceFile) : List String :=
  match Bracketry.parse f.text with
  | .ok _ => ["  " ++ Style.green.paint color "✓" ++ " " ++ Path.join home f.path]
  | .error _ => []

/-- The lines for a file on the stream for complaints. -/
def complaints (home : String) (color pretty : Bool) (f : SourceFile) : List String :=
  match Bracketry.parse f.text with
  | .ok _ => []
  | .error fault =>
    let shown := Path.join home f.path
    ["  " ++ Style.red.paint color "✗" ++ " " ++ shown, complaint pretty f.text shown fault]

end SourceFile

theorem unlines_append (lines lines' : List String) :
    unlines (lines ++ lines') = unlines lines ++ unlines lines' := by
  rw [unlines, List.map_append, String.join_append]
  rfl

@[simp] theorem unlines_nil : unlines [] = "" := rfl

theorem unlines_cons (line : String) (lines : List String) :
    unlines (line :: lines) = line ++ "\n" ++ unlines lines := by
  rw [unlines, List.map_cons, String.join_cons]
  rfl

/-- What is kept does not decide whether a source is refused, nor with which fault. -/
theorem parse_eq_map_prune (source : String) (keep : Keep) :
    Bracketry.parse source keep = (Bracketry.parse source).map (Forest.prune keep) := by
  have whole := parse_and source keep {}
  rwa [Keep.all_and] at whole

/-- Files that can all be read are checked to the end. -/
theorem checkFiles_gives (w : World Id) (keep : Keep) (pretty : Bool) (files : List SourceFile)
    (readable : ∀ f ∈ files, w.disk.read f.path = .ok f.text) (failed : Nat) :
    Gives w (checkFiles w keep pretty failed (files.map SourceFile.path))
      (.ok (failed + files.countP SourceFile.isRefused))
      (unlines (files.flatMap (SourceFile.results w.home w.color)))
      (unlines (files.flatMap (SourceFile.complaints w.home w.color pretty))) := by
  induction files generalizing failed with
  | nil => exact Gives.pure w _
  | cons f fs ih =>
    have rest := ih fun g hg => readable g (List.mem_cons_of_mem _ hg)
    rw [List.flatMap_cons, List.flatMap_cons, unlines_append, unlines_append, List.map_cons,
      checkFiles, List.countP_cons]
    refine (Gives.lift (readable f List.mem_cons_self) w).andThen
      ((parseLogged_gives w f.text keep).andThen ?_)
    rw [parse_eq_map_prune f.text keep]
    cases hf : Bracketry.parse f.text with
    | ok trees =>
      have good : f.isRefused = false := by rw [SourceFile.isRefused, hf]; rfl
      simp only [SourceFile.results, SourceFile.complaints, hf, good, unlines_cons, unlines_nil,
        String.append_empty]
      exact (Gives.log w _).andThen ((Gives.print w _).bind (rest failed))
    | error fault =>
      have bad : f.isRefused = true := by rw [SourceFile.isRefused, hf]; rfl
      simp only [SourceFile.results, SourceFile.complaints, hf, bad, if_true, unlines_cons,
        unlines_nil, String.append_empty]
      have count : failed + (fs.countP SourceFile.isRefused + 1) =
          failed + 1 + fs.countP SourceFile.isRefused := by omega
      rw [count, @String.append_assoc _ _ (unlines _)]
      exact (Gives.complain w _).bind ((Gives.complain w _).bind (rest (failed + 1)))

/-- The last line of a check. -/
def summary (color : Bool) (failed count : Nat) : String :=
  if 0 < failed then
    Style.boldRed.paint color "✗" ++ " " ++ toString failed ++ " of " ++ toString count ++
      " files failed"
  else Style.boldGreen.paint color "✓" ++ " " ++ toString count ++ " files ok"

theorem checkAll_gives (w : World Id) (keep : Keep) (pretty : Bool) (files : List SourceFile)
    (readable : ∀ f ∈ files, w.disk.read f.path = .ok f.text) :
    Gives w (checkAll w keep pretty (files.map SourceFile.path))
      (if 0 < files.countP SourceFile.isRefused then .rejected else .done)
      (unlines (files.flatMap (SourceFile.results w.home w.color) ++
        ["", summary w.color (files.countP SourceFile.isRefused) files.length]))
      (unlines (files.flatMap (SourceFile.complaints w.home w.color pretty))) := by
  have checked := checkFiles_gives w keep pretty files readable 0
  rw [Nat.zero_add] at checked
  generalize files.countP SourceFile.isRefused = failed at checked ⊢
  rw [checkAll, List.length_map, unlines_append, unlines_cons, unlines_cons, unlines_nil,
    String.append_empty, summary]
  refine checked.andAnswer ((Gives.print w _).andAnswer ?_)
  by_cases some : 0 < failed
  · simp only [if_pos some]
    exact (Gives.print w _).andReturn _
  · simp only [if_neg some]
    exact (Gives.print w _).andReturn _

end Bracketry.Cli
