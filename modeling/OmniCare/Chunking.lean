import OmniCare.AgentState
import Mathlib.Data.Char
import Mathlib.Data.List.Lex
import Mathlib.Data.List.Sort

/-! # The sections of the policy documents

`retrieval/app/chunker.py`: a markdown document is cut at its `##` headings, and each section with a
body is one chunk.  A document is its file name and its text, as `read_text` returns it.
-/
namespace OmniCare

section Patterns
open Regex

/-- `_SECTION_RE`: the group is the title. -/
def sectionPattern : Regex :=
  .cat [.lineStart, .lit "##", .plus .space, .group 1 (.rep false 1 none .dot), .star .space,
    .lineEnd]

/-- `[^a-z0-9]+`. -/
def slugGap : Regex := .plus (.char fun c => !(c.isLower || c.isDigit))

end Patterns

/-- `_slugify`. -/
def slugify (title : Text) : Text :=
  let slug := Text.stripBy (· == '-') (slugGap.subText ['-'] (Text.lower title))
  if slug.isEmpty then "section" else slug

/-- The chunk of a heading whose section ends at `stop`, if it has a body. -/
def chunkAt (text sourceFile : Text) (heading : Regex.Match) (stop : Nat) : Option Chunk :=
  let title := Text.strip (heading.group 1)
  let body := Text.strip ((text.take stop).drop heading.stop)
  if body.isEmpty then none
  else
    let sectionId := slugify (Text.partition ':' title).1
    some
      { chunkId := sourceFile ++ "::".toList ++ sectionId
        text := title ++ "\n\n".toList ++ body
        sourceFile, sectionId
        sectionTitle := title
        charStart := heading.start
        charEnd := stop
        citation := formatCitation sourceFile title }

/-- The chunks of consecutive headings: a section ends where the next one begins. -/
def chunksOf (text sourceFile : Text) : List Regex.Match → List Chunk
  | [] => []
  | heading :: rest =>
      let stop := (rest.head?.map (·.start)).getD text.length
      (chunkAt text sourceFile heading stop).toList ++ chunksOf text sourceFile rest

/-- `chunk_markdown`. -/
def chunkMarkdown (text sourceFile : Text) : List Chunk :=
  chunksOf text sourceFile (sectionPattern.finditer text)

/-- The files of the document directory: their names and texts. -/
abbrev Directory := List (Text × Text)

/-- `sorted(Path(directory).glob("*.md"))`. -/
def Directory.documents (d : Directory) : Directory :=
  (d.filter fun file => Text.endsWith file.1 ".md").insertionSort fun a b => a.1 ≤ b.1

/-- The sections of a directory, as `ingest_directory` reads them. -/
def Directory.sections (d : Directory) : List Chunk :=
  d.documents.flatMap fun file => chunkMarkdown file.2 file.1

example :
    (chunkMarkdown "# Policy\n\n## Section 1: Water\n\nUp to $500.\n\n## Notes\n" "p.md").map
        (fun c => (c.chunkId, c.text, c.citation)) =
      [("p.md::section-1".toList, "Section 1: Water\n\nUp to $500.".toList,
        "p.md § Section 1: Water".toList)] := by decide +kernel

end OmniCare
