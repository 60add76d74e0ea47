import Bracketry.Fault
import Bracketry.Text.Segments
import Bracketry.Text.Width

/-!
# Annotated reports

A fault drawn into its source: a heading with the code of its class, the place of the fault, the
line or the first and the last line that it touches, and a label tied to the part that is at fault
by an underline or a bracket at the side.

A report points into its source by characters. The offsets of a fault count bytes, and they are
taken over as they are (`Report.ofFault`), so behind characters that take more than one byte a
report points further right than the fault, and it may point past the end. What lies past the end
is not drawn: such a report is its heading alone.

Drawing goes by cells, one for each character of a line. A cell is as wide as its character, and is
filled by a first character and copies of a second one (`Report.cells`).
-/

namespace Bracketry

open Text

/-- What a report says, and the characters that it is about. -/
structure Report where
  code : Fault.Code
  headline : String
  fileName : String
  start : Nat
  /-- The offset behind the last character. -/
  stop : Nat
  label : String

namespace Report

/-! ## From faults -/

/-- The label of a cause, shown at the part of the source that is at fault. -/
def labelOf : Fault.Cause → String
  | .strayCloser .. => "no matching opening delimiter"
  | .unclosed .. => "this delimiter is never closed"
  | .mismatch _ _ expected found _ =>
    "expected `" ++ String.singleton expected ++ "` but found `" ++ String.singleton found ++ "`"
  | .openString _ quote => "missing closing `" ++ String.singleton quote ++ "`"
  | .openComment _ depth => "missing " ++ toString depth ++ " closing `|#`"

/-- The offset behind the part that is at fault: behind the closer, where there is one, and the end
of the source otherwise. -/
def stopOf (length : Nat) : Fault.Cause → Nat
  | .mismatch _ closer .. => closer.offset + 1
  | .strayCloser place _ => place.offset + 1
  | _ => length

/-- The report of a fault in a source. Both offsets are kept inside the bytes of the source. -/
def ofFault (source : List Char) (fileName : String) (fault : Fault) : Report :=
  let length := byteLength source
  let start := min fault.cause.place.offset length
  { code := fault.cause.code
    headline := String.ofList (firstLine fault.message.toList)
    fileName
    start
    stop := max start (min (stopOf length fault.cause) length)
    label := labelOf fault.cause }

/-! ## Cells -/

/-- What fills a cell: its first character, and what the rest of its width is filled with. -/
structure Cell where
  head : Char
  tail : Char

/-- The character of a cell, drawn over a width. A cell without width is not drawn. -/
def Cell.fill (cell : Cell) : Nat → List Char
  | 0 => []
  | width + 1 => cell.head :: List.replicate width cell.tail

def Cell.space : Cell := ⟨' ', ' '⟩

def Cell.line : Cell := ⟨'─', '─'⟩

/-- A line without the blanks at its end. -/
def trimEnd (line : List Char) : List Char := (line.reverse.dropWhile isBlank).reverse

/-- The first `count` cells of a line, each filled by its number. Behind the end of the line, cells
are one column wide. -/
def cells (drawn : List Char) (count : Nat) (cell : Nat → Cell) : String :=
  let width (i : Nat) := match drawn[i]? with
    | some c => columns i c
    | none => 1
  String.ofList ((List.range count).flatMap fun i => (cell i).fill (width i))

/-! ## Rows -/

/-- The offset of the last character at fault. Where nothing lies between the offsets, it is the
character behind them. -/
def last (r : Report) : Nat := max (r.stop - 1) r.start

/-- The heading: the number of the class in two digits, and the headline. -/
def heading (r : Report) : String :=
  let code := toString r.code.number
  "[" ++ (if code.length < 2 then "0" ++ code else code) ++ "] Error: " ++ r.headline

/-- The margin of the rows without a number. -/
def margin (width : Nat) : String := spaces (width + 2)

/-- The margin of a row of source, with its number counted from one. -/
def number (width index : Nat) : String := " " ++ padLeft width (toString (index + 1)) ++ " │ "

/-- A trimmed line as it is drawn. -/
def body (line : List Char) : String := String.ofList (drawnLine line)

/-- A report on one line: the line, an underline with a mark in its middle, and the label at the end
of an arm from that mark. Offsets count from the start of the line. -/
def inlineRows (r : Report) (width : Nat) (a : Spot) (stop : Nat) : List String :=
  if a.segment.length < stop then [margin width ++ "│ "]
  else
    let line := trimEnd a.segment
    let middle := max ((r.start + r.stop) / 2) r.start - (r.start - a.column)
    let count := stop + 2
    let under (i : Nat) : Bool := a.column ≤ i && i < stop
    let mark (i : Nat) : Cell :=
      if i = middle then if under i then ⟨'┬', '─'⟩ else ⟨'│', ' '⟩
      else if under i then .line else .space
    let arm (i : Nat) : Cell :=
      if i = middle then ⟨'╰', '─'⟩ else if middle < i then .line else .space
    [number width a.index ++ body line,
      margin width ++ "│ " ++ cells line count mark,
      margin width ++ "│ " ++ cells line count arm ++ " " ++ r.label]

/-- A report on several lines: the first and the last of them, tied by a bracket that ends in the
label. -/
def spanRows (r : Report) (width : Nat) (a b : Spot) : List String :=
  let ends := b.column < b.segment.length
  let line := trimEnd b.segment
  let count := b.segment.length + 2
  [number width a.index ++ "╭─▶ " ++ body (trimEnd a.segment)] ++
    (if 1 < b.index - a.index ∨ ¬ ends then [margin width ++ "┆ ┆   "] else []) ++
    if ends then
      [number width b.index ++ "├─▶ " ++ body line,
        margin width ++ "│ │   " ++ cells line count fun _ => .space,
        margin width ++ "│ ╰───" ++ (cells line count fun _ => .line) ++ " " ++ r.label]
    else []

/-- The rows under the heading, for spots of the first and the last character. -/
def bodyRows (r : Report) (a b : Spot) : List String :=
  let width := (toString (b.index + 1)).length
  [margin width ++ "╭─[" ++ r.fileName ++ ":" ++ toString (a.index + 1) ++ ":" ++
      toString (a.column + 1) ++ "]",
    margin width ++ "│"] ++
    (if a.index = b.index then r.inlineRows width a (r.stop - (r.start - a.column))
      else r.spanRows width a b) ++
    [String.ofList (List.replicate (width + 2) '─') ++ "╯"]

def rows (r : Report) (source : List Char) : List String :=
  r.heading ::
    if source.length < r.last then []
    else match spot? source r.start, spot? source r.last with
      | some a, some b => r.bodyRows a b
      | _, _ => []

/-- The text of a report, each row ended by a line feed. -/
def render (r : Report) (source : List Char) : String :=
  String.join ((r.rows source).map (· ++ "\n"))

end Report

def Fault.report (fault : Fault) (source fileName : String) : String :=
  (Report.ofFault source.toList fileName fault).render source.toList

end Bracketry
