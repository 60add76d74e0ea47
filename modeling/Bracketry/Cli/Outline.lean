import Bracketry.Census
import Bracketry.Cli.Console
import Bracketry.Text.Quoted
import Bracketry.Tree

/-!
# Results as text

How tokens, trees and a census are shown to people. A token is shown by the name of its kind and its
quoted text; a list by its place, counted from one, and its length, with its children indented
below it.
-/

namespace Bracketry.Cli

open Text

/-- The quoted text of a token. -/
def quotedLexeme (source : List Char) (t : Token) : String :=
  quoted ((t.lexeme? source).getD [])

/-- The width of the names of kinds in tables: the longest fits. -/
def nameWidth : Nat := 20

/-- A token as a row of a table. -/
def tokenRow (color : Bool) (source : List Char) (t : Token) : String :=
  padLeft 4 (toString (t.span.start.line + 1)) ++ ":" ++
    padRight 4 (toString (t.span.start.column + 1)) ++ " " ++
    Style.cyan.paint color (padRight nameWidth t.kind.name) ++ " " ++ quotedLexeme source t

/-- A tree as a row of an outline, without what is below it. -/
def treeRow (color : Bool) (source : List Char) (depth : Nat) : Tree → String
  | .leaf t =>
    spaces (2 * depth) ++ Style.dimmed.paint color t.kind.name ++ " " ++ quotedLexeme source t
  | .list span _ =>
    spaces (2 * depth) ++ Style.bold.paint color "list" ++ " @" ++
      toString (span.start.line + 1) ++ ":" ++ toString (span.start.column + 1) ++ " (" ++
      toString span.length ++ " bytes)"

/-- The outline of a forest. -/
def outline (color : Bool) (source : List Char) (trees : Forest) : List String :=
  (Forest.walk 0 trees).map fun (depth, tree) => treeRow color source depth tree

/-- A census as a list of figures, where `trees` is the number of trees at the top. -/
def figures (trees : Nat) (c : Census) : List String :=
  ["   Top-level trees: " ++ toString trees,
    "   Lists: " ++ toString c.lists,
    "   Max depth: " ++ toString c.depth,
    "   Tokens: " ++ toString c.size] ++
    c.tokens.map fun (kind, n) => "     " ++ padRight nameWidth kind.name ++ " " ++ toString n

end Bracketry.Cli
