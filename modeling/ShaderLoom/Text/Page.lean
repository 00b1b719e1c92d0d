/-!
# Pages

A page is text written line by line at a depth of indentation. Between two parts there is a gap of
one blank line, however often it is asked for, and none at the top.
-/
namespace ShaderLoom

/-- How a page is laid out. -/
structure Layout where
  /-- Spaces to a level of indentation. -/
  indentWidth : Nat
  /-- Whether the preamble of the dialect is written. -/
  preamble : Bool
  /-- Whether the text ends in a newline. -/
  trailingNewline : Bool
deriving DecidableEq, Repr

/-- Four spaces to a level, a preamble, and a newline at the end. -/
def Layout.standard : Layout := ⟨4, true, true⟩

/-- A text in the making. -/
structure Page where
  indentWidth : Nat
  /-- The level of indentation of the next line. -/
  depth : Nat
  text : String
deriving DecidableEq, Repr

/-- Whether a text ends in two newlines. -/
def endsBlank (text : String) : Bool :=
  match text.toList.reverse with
  | '\n' :: '\n' :: _ => true
  | _ => false

/-- A text without the newlines at its end. -/
def trimNewlines (text : String) : String :=
  String.ofList (text.toList.reverse.dropWhile (· == '\n')).reverse

namespace Page

/-- An empty page. -/
def blank (layout : Layout) : Page := ⟨layout.indentWidth, 0, ""⟩

/-- The blanks before a line. -/
def margin (page : Page) : String :=
  String.ofList (List.replicate (page.depth * page.indentWidth) ' ')

/-- Write one line. -/
def line (page : Page) (content : String) : Page :=
  { page with text := page.text ++ page.margin ++ content ++ "\n" }

/-- Leave one blank line, unless the page is empty or ends in one. -/
def gap (page : Page) : Page :=
  if page.text.isEmpty || endsBlank page.text then page
  else { page with text := page.text ++ "\n" }

/-- Go one level deeper. -/
def indent (page : Page) : Page := { page with depth := page.depth + 1 }

/-- Go one level back. -/
def dedent (page : Page) : Page := { page with depth := page.depth - 1 }

/-- The finished text: no newlines at its end, or one if wanted and there is text. -/
def finish (page : Page) (trailingNewline : Bool) : String :=
  let text := trimNewlines page.text
  if trailingNewline && !text.isEmpty then text ++ "\n" else text

end Page

end ShaderLoom
