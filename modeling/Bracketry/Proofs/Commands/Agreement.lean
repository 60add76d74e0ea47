import Bracketry.Proofs.Commands.Lines
import Bracketry.Proofs.Commands.Sessions
import Bracketry.Proofs.Nesting.Diagnosis

/-!
# The commands agree

A file is good or it is not, and each command has its own way of finding out: one loads settings
first and another does not, one lets the fault end the run, one puts it into an envelope, and one
counts files that were refused. All of them take the trees of the file from the same place, and the
options that they take them with only prune (`parse_eq_map_prune`); so a session that goes on well
from any trees and badly from any fault judges the file (`Judges.ofParse`), and every command but
the one that shows tokens is such a session.

What a check writes is told by the file alone (`check_gives`), and what is kept by the settings is
not in it.
-/

namespace Bracketry.Cli

/-! ## Judging -/

/-- A session that ends well on a good source, and in another way on any other source. -/
def Judges (w : World Id) (x : Session Id Ending) (source : String) : Prop :=
  ∃ ending out err, Gives w x ending out err ∧
    (ending = .done ↔ (Bracketry.parse source).isOk = true)

namespace Judges

variable {w : World Id} {source : String}

theorem after {x : Session Id α} {f : α → Session Id Ending} {a : α} (first : Gives w x a "" "")
    (rest : Judges w (f a) source) : Judges w (x >>= f) source := by
  obtain ⟨ending, out, err, gives, judged⟩ := rest
  exact ⟨ending, out, err, first.andThen gives, judged⟩

/-- What is kept of the trees does not matter, nor what is said of a fault. -/
theorem ofParse {keep : Keep} {f : Except Fault Forest → Session Id Ending}
    (good : ∀ trees, ∃ out err, Gives w (f (.ok trees)) .done out err)
    (bad : ∀ fault, ∃ ending out err, ending ≠ .done ∧ Gives w (f (.error fault)) ending out err) :
    Judges w (parseLogged w source keep >>= f) source := by
  refine .after (parseLogged_gives w source keep) ?_
  rw [Judges, parse_eq_map_prune source keep]
  cases Bracketry.parse source with
  | ok trees =>
    obtain ⟨out, err, gives⟩ := good (Forest.prune keep trees)
    exact ⟨.done, out, err, gives, by simp [Except.isOk, Except.toBool]⟩
  | error fault =>
    obtain ⟨ending, out, err, other, gives⟩ := bad fault
    exact ⟨ending, out, err, gives, by simp [Except.isOk, Except.toBool, other]⟩

end Judges

/-! ## Commands on a file -/

section

variable {w : World Id} {path source : String} {settings : Settings}

theorem answer_gives (w : World Id) (f : Envelope.Format α) (e : Envelope α) :
    Gives w (answer f e) (if e.isSuccess then .done else .rejected)
      ((e.toValue f).render .indented ++ "\n") "" :=
  (Gives.print w _).andReturn _

theorem parse_judges (hs : settings? w.disk = some settings) (hr : w.disk.read path = .ok source)
    (format : Format) (flags : List Flag) : Judges w (parse w path format flags) source := by
  refine .after (loadSettings_gives hs) (.after (readSource_gives hr) (.ofParse ?_ ?_))
  · intro trees
    cases format with
    | text => exact ⟨_, _, (Gives.print w _).andReturn _⟩
    | json => exact ⟨_, _, answer_gives w _ _⟩
  · intro fault
    cases format with
    | text => exact ⟨.failed fault.message, _, _, by simp, Gives.pure w _⟩
    | json => exact ⟨.rejected, _, _, by simp, answer_gives w _ _⟩

theorem stats_judges (hs : settings? w.disk = some settings) (hr : w.disk.read path = .ok source)
    (format : Format) (flags : List Flag) : Judges w (stats w path format flags) source := by
  refine .after (loadSettings_gives hs) (.after (readSource_gives hr) (.ofParse ?_ ?_))
  · intro trees
    cases format with
    | text => exact ⟨_, _, (Gives.print w _).bind ((Gives.print w _).andReturn _)⟩
    | json => exact ⟨_, _, (Gives.print w _).andReturn _⟩
  · intro fault
    exact ⟨.failed fault.message, _, _, by simp, Gives.pure w _⟩

theorem simplify_judges (hr : w.disk.read path = .ok source) (flags : List Flag) :
    Judges w (simplify w path flags) source := by
  refine .after (readSource_gives hr) (.ofParse ?_ ?_)
  · intro trees
    exact ⟨_, _, (Gives.print w _).andReturn _⟩
  · intro fault
    exact ⟨.failed fault.message, _, _, by simp, Gives.pure w _⟩

theorem tokenize_gives {tokens : List Token} (hr : w.disk.read path = .ok source)
    (ht : Bracketry.tokenize source = .ok tokens) (format : Format) :
    ∃ out err, Gives w (tokenize w path format) .done out err := by
  have logged := tokenizeLogged_gives w [] source
  rw [ht] at logged
  cases format with
  | text =>
    exact ⟨_, _, (readSource_gives hr).andThen (logged.andThen ((Gives.print w _).bind
      ((Gives.print w _).bind ((Gives.print w _).andReturn _))))⟩
  | json => exact ⟨_, _, (readSource_gives hr).andThen (logged.andThen (answer_gives w _ _))⟩

/-- All that is written by a check of a file. -/
theorem check_gives {f : SourceFile} (hs : settings? w.disk = some settings)
    (hk : w.disk.kind? f.path = some .file) (hr : w.disk.read f.path = .ok f.text)
    (pretty : Bool) :
    Gives w (check w f.path pretty) (if f.isRefused then .rejected else .done)
      (unlines (Style.boldBlue.paint w.color "🔍 Checking sources..." ::
        (f.results w.home w.color ++ ["", summary w.color (if f.isRefused then 1 else 0) 1])))
      (unlines (f.complaints w.home w.color pretty)) := by
  have readable : ∀ g ∈ [f], w.disk.read g.path = .ok g.text := by
    intro g hg
    rw [List.mem_singleton.mp hg, hr]
  have checked := checkAll_gives w settings.keep pretty [f] readable
  simp only [List.flatMap_singleton, List.countP_singleton, List.length_singleton] at checked
  have ending : (if 0 < (if f.isRefused then 1 else 0) then Ending.rejected else .done) =
      if f.isRefused then .rejected else .done := by cases f.isRefused <;> rfl
  rw [ending] at checked
  rw [unlines_cons, ← @String.empty_append (unlines (f.complaints w.home w.color pretty))]
  exact (loadSettings_gives hs).andThen
    ((Gives.print w _).bind ((Gives.lift hk w).andThen checked))

theorem check_judges {f : SourceFile} (hs : settings? w.disk = some settings)
    (hk : w.disk.kind? f.path = some .file) (hr : w.disk.read f.path = .ok f.text)
    (pretty : Bool) : Judges w (check w f.path pretty) f.text := by
  refine ⟨_, _, _, check_gives hs hk hr pretty, ?_⟩
  rw [SourceFile.isRefused]
  cases (Bracketry.parse f.text).isOk <;> simp

theorem parse_json_gives (hs : settings? w.disk = some settings)
    (hr : w.disk.read path = .ok source) (flags : List Flag) :
    let e : Envelope Tree := .ofResult (Bracketry.parse source (applyFlags flags settings.keep))
    Gives w (parse w path .json flags) (if e.isSuccess then .done else .rejected)
      ((e.toValue Tree.format).render .indented ++ "\n") "" := by
  intro e
  refine (loadSettings_gives hs).andThen ((readSource_gives hr).andThen ?_)
  exact (parseLogged_gives w source _).andThen (answer_gives w Tree.format e)

end

/-! ## Runs -/

/-- A file that a disk has and that can be read as text, in a working folder that has no settings or
has settings that can be read. -/
structure Readable (disk : Disk Id) (f : SourceFile) : Prop where
  kind : (disk.kind? f.path).run = some .file
  text : (disk.read f.path).run = .ok f.text
  settings : (settings? disk).isSome = true

theorem perform_judges {w : World Id} {f : SourceFile} (readable : Readable w.disk f)
    {command : Command} (path : command.path = f.path) (verb : command.verb ≠ .tokenize) :
    Judges w (command.perform w) f.text := by
  obtain ⟨settings, hs⟩ := Option.isSome_iff_exists.mp readable.settings
  have hr := readable.text
  have hk := readable.kind
  cases command with
  | tokenize => exact absurd rfl verb
  | parse p format flags =>
    obtain rfl : p = f.path := path
    exact parse_judges hs hr format flags
  | simplify p flags =>
    obtain rfl : p = f.path := path
    exact simplify_judges hr flags
  | check p pretty =>
    obtain rfl : p = f.path := path
    exact check_judges hs hk hr pretty
  | stats p format flags =>
    obtain rfl : p = f.path := path
    exact stats_judges hs hr format flags

section

variable {disk : Disk Id} {home : String} {color : Bool} {arguments : List String}
  {verbosity : Nat} {command : Command}

/-- A run with a meaning is the session of its command. -/
theorem run_eq (h : Request.ofArguments? 0 arguments = some (.run verbosity command)) :
    run disk home color arguments =
      .ofEnding color ((command.perform ⟨disk, home, color, verbosity⟩).run {}) := by
  rw [run, h]
  rfl

theorem status_ofEnding (ended : Ending × Console) :
    (Outcome.ofEnding color ended).status = if ended.1 = .done then 0 else 1 := by
  obtain ⟨ending, c⟩ := ended
  cases ending <;> rfl

/-- The end of a run adds nothing to its results. -/
theorem out_ofEnding (ended : Ending × Console) :
    (Outcome.ofEnding color ended).console.out = ended.2.out := by
  obtain ⟨ending, c⟩ := ended
  cases ending <;> rfl

namespace Gives

variable {ending : Ending} {out err : String}

theorem status (h : Request.ofArguments? 0 arguments = some (.run verbosity command))
    (gives : Gives ⟨disk, home, color, verbosity⟩ (command.perform ⟨disk, home, color, verbosity⟩)
      ending out err) :
    (run disk home color arguments).status = if ending = .done then 0 else 1 := by
  rw [run_eq h, status_ofEnding, gives.value]

theorem console_out (h : Request.ofArguments? 0 arguments = some (.run verbosity command))
    (gives : Gives ⟨disk, home, color, verbosity⟩ (command.perform ⟨disk, home, color, verbosity⟩)
      ending out err) :
    (run disk home color arguments).console.out = out := by
  rw [run_eq h, out_ofEnding, gives.out, String.empty_append]

/-- All that comes of a run that is not verbose. -/
theorem outcome (h : Request.ofArguments? 0 arguments = some (.run 0 command))
    (gives : Gives ⟨disk, home, color, 0⟩ (command.perform ⟨disk, home, color, 0⟩)
      ending out err) :
    run disk home color arguments = .ofEnding color (ending, ⟨out, err⟩) := by
  have results := gives.out {}
  have complaints := gives.err rfl {}
  rw [String.empty_append] at results complaints
  rw [run_eq h, ← gives.value {}, ← results, ← complaints]
  rfl

end Gives

/-- **The commands agree on what is good.** Take any file that can be read as text, in a working
folder without settings or with settings that can be read, and any command lines for it. A command
that makes trees of the file, with whatever options and however verbose, ends with status zero if
the file parses with all kept, and with status one if not. Where the answer is an envelope, its `ok`
says which of the two it was. Where the file parses, its tokens can be shown too. And a check of the
file that is not verbose comes to one outcome, the text on both streams included, under all
settings. -/
theorem commands_agree {disk : Disk Id} {f : SourceFile} (readable : Readable disk f)
    (home : String) (color : Bool) :
    (∀ arguments verbosity command,
      Request.ofArguments? 0 arguments = some (.run verbosity command) →
      command.path = f.path → command.verb ≠ .tokenize →
      (run disk home color arguments).status =
        if (Bracketry.parse f.text).isOk then 0 else 1) ∧
    (∀ arguments verbosity flags,
      Request.ofArguments? 0 arguments = some (.run verbosity (.parse f.path .json flags)) →
      ∃ keep : Keep, let e : Envelope Tree := .ofResult (Bracketry.parse f.text keep)
        (run disk home color arguments).console.out =
          (e.toValue Tree.format).render .indented ++ "\n" ∧
        (e.toValue Tree.format).field? "ok" =
          some (.bool ((run disk home color arguments).status = 0))) ∧
    ((Bracketry.parse f.text).isOk → ∀ arguments verbosity format,
      Request.ofArguments? 0 arguments = some (.run verbosity (.tokenize f.path format)) →
      (run disk home color arguments).status = 0) ∧
    (∀ other : Disk Id, Readable other f → ∀ arguments pretty,
      Request.ofArguments? 0 arguments = some (.run 0 (.check f.path pretty)) →
      run other home color arguments = run disk home color arguments) := by
  obtain ⟨settings, hs⟩ := Option.isSome_iff_exists.mp readable.settings
  refine ⟨?_, ?_, ?_, ?_⟩
  · intro arguments verbosity command h path verb
    have judges : Judges ⟨disk, home, color, verbosity⟩
        (command.perform ⟨disk, home, color, verbosity⟩) f.text :=
      perform_judges readable path verb
    obtain ⟨ending, out, err, gives, judged⟩ := judges
    rw [gives.status h]
    simp only [judged]
  · intro arguments verbosity flags h
    let w : World Id := ⟨disk, home, color, verbosity⟩
    have gives := parse_json_gives (w := w) hs readable.text flags
    refine ⟨applyFlags flags settings.keep, gives.console_out h, ?_⟩
    rw [Gives.status h gives]
    cases Bracketry.parse f.text (applyFlags flags settings.keep) with
    | ok trees => rfl
    | error fault => rfl
  · intro accepted arguments verbosity format h
    let w : World Id := ⟨disk, home, color, verbosity⟩
    cases ht : Bracketry.tokenize f.text with
    | error fault =>
      rw [parse_of_tokenize_error {} ht] at accepted
      cases accepted
    | ok tokens =>
      obtain ⟨out, err, gives⟩ := tokenize_gives (w := w) readable.text ht format
      exact gives.status h
  · intro other readable' arguments pretty h
    obtain ⟨settings', hs'⟩ := Option.isSome_iff_exists.mp readable'.settings
    let w : World Id := ⟨disk, home, color, 0⟩
    let w' : World Id := ⟨other, home, color, 0⟩
    have gives := check_gives (w := w) hs readable.kind readable.text pretty
    have gives' := check_gives (w := w') hs' readable'.kind readable'.text pretty
    rw [gives.outcome h, gives'.outcome h]

/-- A good and a bad file in a folder whose settings leave out brackets, and in one without
settings. -/
theorem commands_agree_pruned :
    let good : SourceFile := ⟨"-a.lisp", "(a ;c\n)"⟩
    let bad : SourceFile := ⟨"b", "(a]"⟩
    let files := [good, bad].map fun f => (f.path, f.text.toUTF8)
    let settings := "\x7b\"parse\":\x7b\"includeListDelimiters\":false\x7d\x7d"
    let disk := (FileTree.ofFiles ((settingsName, settings.toUTF8) :: files)).disk
    let plain := (FileTree.ofFiles files).disk
    Readable disk good ∧ Readable disk bad ∧ Readable plain bad ∧
    (run disk "/" false (List.replicate 2 "-v" ++
      (Command.stats good.path .json [.noBlanks, .noComments]).line)).status = 0 ∧
    (run disk "/" false ["simplify", "b", "--no-comments"]).status = 1 ∧
    (run disk "/" true ["tokenize", "--", "-a.lisp"]).status = 0 ∧
    (∃ keep : Keep, let e : Envelope Tree := .ofResult (Bracketry.parse bad.text keep)
      (run disk "/" false ["parse", "-fjson", "b"]).console.out =
        (e.toValue Tree.format).render .indented ++ "\n" ∧
      (e.toValue Tree.format).field? "ok" = some (.bool false)) ∧
    run plain "/" true ["check", "b", "--pretty"] =
      run disk "/" true ["check", "b", "--pretty"] := by
  intro good bad files settings disk plain
  have readable : Readable disk good := ⟨by decide +kernel, by decide +kernel, by decide +kernel⟩
  have refused : Readable disk bad := ⟨by decide +kernel, by decide +kernel, by decide +kernel⟩
  have refused' : Readable plain bad := ⟨by decide +kernel, by decide +kernel, by decide +kernel⟩
  have accepted : (Bracketry.parse good.text).isOk = true := by decide +kernel
  have fails : (Bracketry.parse bad.text).isOk = false := by decide +kernel
  obtain ⟨statuses, -, -, -⟩ := commands_agree readable "/" false
  obtain ⟨-, -, tokens, -⟩ := commands_agree readable "/" true
  obtain ⟨statuses', envelopes, -, -⟩ := commands_agree refused "/" false
  obtain ⟨-, -, -, checks⟩ := commands_agree refused "/" true
  rw [accepted] at statuses
  rw [fails] at statuses'
  refine ⟨readable, refused, refused', ?_, ?_, ?_, ?_, ?_⟩
  · exact statuses _ 2 (.stats good.path .json [.noBlanks, .noComments])
      (Request.ofArguments?_replicate ⟨by decide, by decide, by decide⟩ 0 2) rfl (by decide)
  · exact statuses' _ 0 (.simplify "b" [.noComments]) (by decide +kernel) rfl (by decide)
  · exact tokens accepted ["tokenize", "--", "-a.lisp"] 0 .text (by decide +kernel)
  · have status := statuses' ["parse", "-fjson", "b"] 0 (.parse "b" .json []) (by decide +kernel)
      rfl (by decide)
    obtain ⟨keep, out, ok⟩ := envelopes ["parse", "-fjson", "b"] 0 [] (by decide +kernel)
    rw [status] at ok
    exact ⟨keep, out, ok⟩
  · exact checks plain refused' _ true (by decide +kernel)

end

end Bracketry.Cli
