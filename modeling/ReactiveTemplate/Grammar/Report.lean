import ReactiveTemplate.Grammar.SyntaxError
import ReactiveTemplate.Text.Width

/-!
# Source reports

A drawing of a syntax error: the wording, the lines of the source it points into, and
an arrow from the place to the reason.

Places count bytes in an error and characters in a drawing. A place that begins or ends
beyond the source is not drawn at all, one that runs past the end of its line is drawn
without the line.

* `SyntaxError.report`: the drawing of an error in its source.
* `Report.drawInLine`: a place within one line, underlined, with an arrow below.
* `Report.drawAcrossLines`: a place over several lines, in a bracket on their left.
-/

namespace ReactiveTemplate.Report

/-! ## Lines -/

/-- The characters that end a line of source. -/
def lineEnds : List Nat := [0x0A, 0x0D, 0x0B, 0x0C, 0x85, 0x2028, 0x2029]

/-- Whether a character ends a line of source. -/
def endsLine (c : Char) : Bool := lineEnds.contains c.toNat

/-- The lines of a source, each with its ending. A carriage return and a line feed
    form one ending, and an empty source is one empty line. -/
def linesFrom (line : List Char) : List Char → List (List Char)
  | [] => if line = [] then [] else [line.reverse]
  | '\r' :: '\n' :: rest => ('\n' :: '\r' :: line).reverse :: linesFrom [] rest
  | c :: rest =>
    if endsLine c then (c :: line).reverse :: linesFrom [] rest else linesFrom (c :: line) rest

/-- The texts of the lines of a source. -/
def lineTexts (source : List Char) : List (List Char) :=
  if source = [] then [[]] else linesFrom [] source

/-- A line of a source: its number, the place of its first character, its text with its
    ending. -/
structure Line where
  number : Nat
  offset : Nat
  text : List Char

/-- The place after the last character of a line. -/
def Line.stop (line : Line) : Nat := line.offset + line.text.length

/-- The text of a line without the blanks at its end. -/
def Line.shown (line : Line) : List Char := (line.text.reverse.dropWhile Text.isBlank).reverse

/-- Lines with their numbers and places. -/
def numberLines (number offset : Nat) : List (List Char) → List Line
  | [] => []
  | text :: rest =>
    ⟨number, offset, text⟩ :: numberLines (number + 1) (offset + text.length) rest

/-- The line that a place lies on, the last one for the end of the source. -/
def lineAt? (lines : List Line) (place : Nat) : Option Line :=
  match lines.getLast? with
  | none => none
  | some last =>
    if last.stop < place then none
    else some ((lines.find? fun line => place < line.stop).getD last)

/-! ## Columns -/

/-- The character drawn for a character of source at a column, and its width: blanks
    are spaces, and a tab reaches to the next multiple of four. -/
def cell (column : Nat) (c : Char) : Char × Nat :=
  if c = '\t' then (' ', 4 - column % 4)
  else if Text.isBlank c then (' ', 1)
  else (c, Text.width c)

/-- The text of a line as it is drawn. -/
def drawText (line : Line) : String :=
  String.ofList <| line.shown.zipIdx.flatMap fun (c, column) =>
    let (drawn, width) := cell column c
    List.replicate (if Text.isBlank drawn then width else 1) drawn

/-- The widths of the first columns of a line. -/
def columnWidths (line : Line) (columns : Nat) : List Nat :=
  let widths := line.shown.zipIdx.map fun (c, column) => (cell column c).2
  (widths ++ List.replicate columns 1).take columns

/-- A row below a line of source: at each column a mark, and what fills the rest of a
    wide character. A character without width gets no mark. -/
def drawRow (line : Line) (columns : Nat) (mark : Nat → Char × Char) : String :=
  String.ofList <| (columnWidths line columns).zipIdx.flatMap fun (width, column) =>
    let (first, others) := mark column
    if width = 0 then [] else first :: List.replicate (width - 1) others

/-- The mark below a column: the underline of the place with the start of the arrow,
    or the arrow alone below an empty place. -/
def underlineMark (start stop column : Nat) : Char × Char :=
  let arrow := (start + stop) / 2
  if start < stop then
    if column = arrow then ('┬', '─')
    else if start ≤ column ∧ column < stop then ('─', '─')
    else (' ', ' ')
  else if column = arrow then ('│', ' ')
  else (' ', ' ')

/-- The mark of the arrow to the reason. -/
def arrowMark (start stop column : Nat) : Char × Char :=
  let arrow := (start + stop) / 2
  if column = arrow then ('╰', '─')
  else if arrow < column then ('─', '─')
  else (' ', ' ')

/-! ## Drawings -/

/-- As many blanks as the margin of line numbers is wide. -/
def blankMargin (width : Nat) : String := String.ofList (List.replicate (width + 2) ' ')

/-- The margin of a line with its number, in a column of `width` digits. -/
def numberMargin (width : Nat) (line : Line) : String :=
  let number := toString line.number
  String.ofList (List.replicate (width + 1 - number.length) ' ') ++ number ++ " │ "

/-- The drawing of a place within one line: the line, the place underlined and the arrow to
    the reason. -/
def drawInLine (width : Nat) (line : Line) (start stop : Nat) (reason : String) : String :=
  let first := start - line.offset
  let last := stop - line.offset
  let margin := blankMargin width ++ "│ "
  if line.stop < stop then margin ++ "\n"
  else
    numberMargin width line ++ drawText line ++ "\n" ++
      margin ++ drawRow line (last + 2) (underlineMark first last) ++ "\n" ++
      margin ++ drawRow line (last + 2) (arrowMark first last) ++ " " ++ reason ++ "\n"

/-- The drawing of a place over several lines: the first and the last line in a bracket with
    the reason below, and an ellipsis for the lines between them. A last line that ends
    before the place does belongs to the lines between. -/
def drawAcrossLines (width : Nat) (first last : Line) (stop : Nat) (reason : String) : String :=
  let margin := blankMargin width
  let closed := stop ≤ last.stop
  let columns := last.text.length + 2
  numberMargin width first ++ "╭─▶ " ++ drawText first ++ "\n" ++
    (if first.number + 1 < last.number || !closed then margin ++ "┆ ┆   \n" else "") ++
    if closed then
      numberMargin width last ++ "├─▶ " ++ drawText last ++ "\n" ++
        margin ++ "│ │   " ++ drawRow last columns (fun _ => (' ', ' ')) ++ "\n" ++
        margin ++ "│ ╰───" ++ drawRow last columns (fun _ => ('─', '─')) ++ " " ++ reason ++ "\n"
    else ""

/-- The drawing of a place between two lines of a source, with the reason at its arrow. -/
def draw (name : String) (first last : Line) (start stop : Nat) (reason : String) : String :=
  let width := (toString last.number).length
  blankMargin width ++ "╭─[ " ++ name ++ s!":{first.number}:{start - first.offset + 1} ]\n" ++
    blankMargin width ++ "│\n" ++
    (if first.number = last.number then drawInLine width first start stop reason
      else drawAcrossLines width first last stop reason) ++
    String.ofList (List.replicate (width + 2) '─') ++ "╯\n"

end ReactiveTemplate.Report

namespace ReactiveTemplate

/-- The drawing of an error in its source. -/
def SyntaxError.report (source : String) (error : SyntaxError) : String :=
  let lines := Report.numberLines 1 0 (Report.lineTexts source.toList)
  let lastPlace := if error.start < error.stop then error.stop - 1 else error.start
  "Error: " ++ error.reason ++ "\n" ++
    match Report.lineAt? lines error.start, Report.lineAt? lines lastPlace with
    | some first, some last =>
      Report.draw "expression" first last error.start error.stop error.reason
    | _, _ => ""

end ReactiveTemplate
