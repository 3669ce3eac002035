import OmniCare.Replacing
import OmniCare.Response
import OmniCare.Weaving

/-! # The chat renderer

`renderText` of `frontend/src/app.js`: an answer is escaped first, then cut into lines that are
headings, items of a list or parts of a paragraph, and emphasis, code and links are rewritten within
a line.
-/
namespace OmniCare.Markup

open Regex

/-! ## JavaScript's regular expressions -/

/-- `\s`: white space and line terminators. -/
def isJsSpace (c : Char) : Bool :=
  CharTables.inRanges [(0x09, 0x0d), (0x20, 0x20), (0xa0, 0xa0), (0x1680, 0x1680),
    (0x2000, 0x200a), (0x2028, 0x2029), (0x202f, 0x202f), (0x205f, 0x205f), (0x3000, 0x3000),
    (0xfeff, 0xfeff)] c.toNat

/-- `\s`. -/
def jsSpace : Regex := .char isJsSpace

/-- `.`: any character but a line terminator. -/
def jsDot : Regex :=
  .char fun c => !("\n\r".toList.elem c || c.toNat == 0x2028 || c.toNat == 0x2029)

/-- `\d`. -/
def jsDigit : Regex := .char Char.isDigit

/-- `$`: the end. -/
def jsEnd : Regex := .assert fun c => c.after.isEmpty

/-- `s.trim()`. -/
def trim (s : Text) : Text := Text.stripBy isJsSpace s

/-! ## Escaping -/

/-- The entity that stands for a character. -/
def entity (c : Char) : Text :=
  match c with
  | '&' => "&amp;"
  | '<' => "&lt;"
  | '>' => "&gt;"
  | c => [c]

/-- `escapeHtml`. -/
def escapeHtml (s : Text) : Text := s.flatMap entity

/-! ## Within a line -/

/-- `\*\*(.+?)\*\*`. -/
def boldPattern : Regex := .cat [.lit "**", .group 1 (.rep false 1 none jsDot), .lit "**"]

/-- `(^|[\s(])\*([^*\n]+)\*(?=[\s.,;:!?)]|$)`. -/
def italicPattern : Regex :=
  .cat [.group 1 (.alt .atStart (.char fun c => isJsSpace c || c == '(')), .lit "*",
    .group 2 (.plus (.noneOf "*\n")), .lit "*",
    .assert fun c => c.after.head?.all fun x => isJsSpace x || ".,;:!?)".toList.elem x]

/-- A code span. -/
def codePattern : Regex := .cat [.lit "`", .group 1 (.plus (.noneOf "`\n")), .lit "`"]

/-- `\[([^\]]+)\]\(([^)\s]*)\)`. -/
def linkPattern : Regex :=
  .cat [.lit "[", .group 1 (.plus (.noneOf "]")), .lit "](",
    .group 2 (.star (.char fun c => !(c == ')' || isJsSpace c))), .lit ")"]

/-- `inline`: emphasis, applied to text that has been escaped. -/
def inline (text : Text) : Text :=
  let text := boldPattern.sub
    (fun m => "<strong>".toList ++ m.group 1 ++ "</strong>".toList) text
  let text := italicPattern.sub
    (fun m => m.group 1 ++ "<em>".toList ++ m.group 2 ++ "</em>".toList) text
  let text := codePattern.sub (fun m => "<code>".toList ++ m.group 1 ++ "</code>".toList) text
  linkPattern.sub (·.group 1) text

/-! ## Lines -/

/-- `^ {0,3}(#{1,6})\s+(.*?)\s*#*\s*$`. -/
def headingPattern : Regex :=
  .cat [.atStart, .between 0 3 (.lit " "), .group 1 (.between 1 6 (.lit "#")), .plus jsSpace,
    .group 2 (.rep false 0 none jsDot), .star jsSpace, .star (.lit "#"), .star jsSpace, jsEnd]

/-- `^\s*[-*+]\s+(.*)$`. -/
def bulletPattern : Regex :=
  .cat [.atStart, .star jsSpace, .anyOf "-*+", .plus jsSpace, .group 1 (.star jsDot), jsEnd]

/-- `^\s*\d+[.)]\s+(.*)$`. -/
def orderedPattern : Regex :=
  .cat [.atStart, .star jsSpace, .plus jsDigit, .anyOf ".)", .plus jsSpace,
    .group 1 (.star jsDot), jsEnd]

/-- A piece of the page: a block of its own, or a line of a paragraph. -/
structure Block where
  block : Bool
  html : Text

/-- A list that is open. -/
structure OpenList where
  tag : Text
  items : List Text

/-- The blocks so far, `none` for a blank line, and the list that is open. -/
structure Lines where
  blocks : List (Option Block) := []
  list : Option OpenList := none

namespace Lines

/-- `closeList`. -/
def closeList (s : Lines) : Lines :=
  match s.list with
  | some list =>
      let html := '<' :: list.tag ++ ['>'] ++ list.items.flatten ++ "</".toList ++ list.tag ++ ['>']
      { blocks := s.blocks ++ [some ⟨true, html⟩], list := none }
  | none => s

/-- `openList(tag).items.push(item)`. -/
def pushItem (s : Lines) (tag item : Text) : Lines :=
  match s.list with
  | some list =>
      if list.tag = tag then { s with list := some { list with items := list.items ++ [item] } }
      else { s.closeList with list := some ⟨tag, [item]⟩ }
  | none => { s with list := some ⟨tag, [item]⟩ }

/-- `blocks.push(block)` after `closeList()`. -/
def pushBlock (s : Lines) (block : Option Block) : Lines :=
  { s.closeList with blocks := s.closeList.blocks ++ [block] }

/-- A heading, capped at `h4`. -/
def heading (hashes title : Text) : Text :=
  let level := Text.ofNat (min (hashes.length + 2) 4)
  "<h".toList ++ level ++ " class=\"md-h\">".toList ++ inline title ++ "</h".toList ++ level ++
    ['>']

/-- An item of a list. -/
def item (text : Text) : Text := "<li>".toList ++ inline text ++ "</li>".toList

/-- The body of the loop over the lines. -/
def line (s : Lines) (line : Text) : Lines :=
  match headingPattern.search line, bulletPattern.search line, orderedPattern.search line with
  | some m, _, _ => s.pushBlock (some ⟨true, heading (m.group 1) (m.group 2)⟩)
  | none, some m, _ => s.pushItem "ul" (item (m.group 1))
  | none, none, some m => s.pushItem "ol" (item (m.group 1))
  | none, none, none =>
      if (trim line).isEmpty then s.pushBlock none else s.pushBlock (some ⟨false, inline line⟩)

end Lines

/-! ## Paragraphs -/

/-- The page so far, and the lines of the paragraph that has begun. -/
structure Page where
  html : List Text := []
  para : List Text := []

namespace Page

/-- `flush`. -/
def flush (p : Page) : Page :=
  if p.para ≠ [] then
    { html := p.html ++ ["<p>".toList ++ Text.join "<br>" p.para ++ "</p>".toList], para := [] }
  else p

/-- The body of the loop over the blocks. -/
def add (p : Page) : Option Block → Page
  | none => p.flush
  | some ⟨true, html⟩ => { p.flush with html := p.flush.html ++ [html] }
  | some ⟨false, html⟩ => { p with para := p.para ++ [html] }

end Page

/-! ## The whole text -/

/-- `^\s*`, three backticks, `[a-z0-9_+-]*\s*\n?`; or `\n?`, three backticks, `\s*$`. -/
def wholeFence : Regex :=
  .alt (.cat [.atStart, .star jsSpace, fenceMark, .star (.char isTagChar), .star jsSpace,
      .opt (.lit "\n")])
    (.cat [.opt (.lit "\n"), fenceMark, .star jsSpace, jsEnd])

/-- `[ \t]+([.,;:!?])`. -/
def spacedMark : Regex := .cat [.plus (.char isTabOrBlank), .group 1 (.anyOf ".,;:!?")]

/-- `renderText` of a text that has been escaped. -/
def renderEscaped (escaped : Text) : Text :=
  let escaped := (Regex.anyOf "【】「」").subText [' '] escaped
  let escaped := blankRun.subText [' '] escaped
  let escaped := wholeFence.subText [] escaped
  let lines := ((Text.splitOn '\n' escaped).foldl Lines.line {}).closeList
  let page := (lines.blocks.foldl Page.add {}).flush
  trim (spacedMark.sub (·.group 1) page.html.flatten)

/-- `renderText`. -/
def renderText (raw : Text) : Text := renderEscaped (escapeHtml raw)

example : renderText "### <img src=x>\n- **Coverage**: *water* .\n- `b`" =
    ("<h4 class=\"md-h\">&lt;img src=x&gt;</h4>".toList ++
      "<ul><li><strong>Coverage</strong>: <em>water</em>.</li><li><code>b</code></li></ul>".toList)
    := by decide +kernel

/-- The tags that `renderText` emits. -/
def emittedTags : List Text :=
  ["<h3 class=\"md-h\">", "</h3>", "<h4 class=\"md-h\">", "</h4>", "<ul>", "</ul>", "<ol>",
    "</ol>", "<li>", "</li>", "<p>", "</p>", "<br>", "<strong>", "</strong>", "<em>", "</em>",
    "<code>", "</code>"]

end OmniCare.Markup
