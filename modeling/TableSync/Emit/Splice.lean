import TableSync.Error
import TableSync.Text.Blank

/-!
# Replacing parts of hand-written files

The input is always the pristine text.  Lines outside the managed part pass through as they are,
line ends included.

* `spliceRegion` replaces the lines between the last of some anchors and an end.
* `editLine` replaces or extends one line.
* `collapseLines` replaces all lines with a mark by one line.
-/

set_option autoImplicit false

namespace TableSync

/-- A condition on a line. -/
inductive Marker
  /-- The text stands anywhere in the line. -/
  | contains (text : Text)
  /-- The line starts with the text. -/
  | startsWith (text : Text)
  /-- The line starts with the text, blanks aside. -/
  | trimmedStartsWith (text : Text)
  deriving DecidableEq

namespace Marker

/-- Whether a line meets the condition. -/
def accepts : Marker → Text → Bool
  | .contains text, line => TableSync.contains text line
  | .startsWith text, line => TableSync.startsWith text line
  | .trimmedStartsWith text, line => TableSync.startsWith text (trimStart line)

/-- The text that is looked for. -/
def text : Marker → Text
  | .contains text => text
  | .startsWith text => text
  | .trimmedStartsWith text => text

/-- The failure of a mark that is not in a file. -/
def notFound {α : Type} (marker : Marker) (file : String) : Result α :=
  fail (.markerNotFound file (String.ofList marker.text))

/-- The lines before the first one with the mark, that line, and the lines after it. -/
def split? (marker : Marker) : List Text → Option (List Text × Text × List Text)
  | [] => none
  | line :: rest =>
    if marker.accepts line then some ([], line, rest)
    else (marker.split? rest).map fun (before, hit, after) => (line :: before, hit, after)

end Marker

/-- Passes over lines up to the one that meets the last of some anchors, each met by the first
line that can after the one before: the lines passed over, and those after. -/
def passAnchors (file : String) : List Marker → List Text → Result (List Text × List Text)
  | [], ls => .ok ([], ls)
  | anchor :: anchors, ls =>
    match anchor.split? ls with
    | none => anchor.notFound file
    | some (before, hit, after) => do
      let (passed, rest) ← passAnchors file anchors after
      return (before ++ hit :: passed, rest)

/-- Replaces the lines after the last anchor and before the first line from there on that meets
`stop`.  Without anchors there is no region: the body then goes in front of a text that starts with
the end, and nowhere else. -/
def spliceRegion (text : Text) (file : String) (anchors : List Marker) (stop : Marker)
    (body : List Text) : Result Text := do
  let (kept, rest) ← passAnchors file anchors (pieces text)
  match stop.split? rest with
  | none => stop.notFound file
  | some (region, hit, after) =>
    let new := if anchors.isEmpty && !region.isEmpty then region.flatten else unlines body
    return kept.flatten ++ new ++ (hit :: after).flatten

/-- What becomes of a line. -/
inductive LineEdit
  /-- Other lines take its place. -/
  | replace (lines : List Text)
  /-- Lines follow it. -/
  | append (lines : List Text)

/-- A line after an edit.  A line that further lines follow gets its line feed if it lacks one. -/
def LineEdit.apply : LineEdit → Text → Text
  | .replace ls, _ => unlines ls
  | .append ls, line => line ++ (if endsWith ['\n'] line then [] else ['\n']) ++ unlines ls

/-- Edits the first line that meets `target` after the first line that meets `scope`. -/
def editLine (text : Text) (file : String) (scope target : Marker) (edit : LineEdit) :
    Result Text :=
  match scope.split? (pieces text) with
  | none => scope.notFound file
  | some (before, scopeLine, rest) =>
    match target.split? rest with
    | none => target.notFound file
    | some (between, hit, after) =>
      .ok (before.flatten ++ scopeLine ++ between.flatten ++ edit.apply hit ++ after.flatten)

/-- The text with one line in place of the first line with a mark, and without the other lines
with it. -/
def collapseLines (text : Text) (marker : Marker) (replacement : Text) : Text :=
  match marker.split? (pieces text) with
  | none => text
  | some (before, _, after) =>
    before.flatten ++ replacement ++ ['\n'] ++ (after.filter (!marker.accepts ·)).flatten

end TableSync
