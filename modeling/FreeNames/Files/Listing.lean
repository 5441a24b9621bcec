import FreeNames.Files.Tree
import FreeNames.Grammar.Listing
import FreeNames.Literal.Number

/-!
# Listings of file trees

A parser of the grammar writes down the files that it parsed, line by line, with their
content and the listings of their parses.  A line begins with a word for what it holds:

* `directory` and a path;
* `file` and a path, which begins a file;
* `bytes` and a part of its content in hexadecimal digits;
* `node` and a row of its parse: the number of children, the three properties as `1` or `0`,
  first and last offset, row and column, the field or a hyphen, and the symbol.

A file without rows is one whose nesting is too deep to be analyzed.
-/

namespace FreeNames

/-- Why a listing cannot be read. -/
inductive ListingError where
  /-- The line begins with no known word, or holds something else than the word says. -/
  | malformed (line : String)
  /-- The rows of the file do not describe one parse. -/
  | noParse (path : String)
  /-- There is content that belongs to no file. -/
  | noFile
  deriving DecidableEq, Repr

def ListingError.message : ListingError → Text
  | .malformed line => "listing has an unreadable line: " ++ (Text.ofString line).quoted
  | .noParse path => "listing has no parse of " ++ (Text.ofString path).quoted
  | .noFile => "listing has content before its first file"

/-- The lines that are read and belong to a file that is still to come, and the entries
behind them. -/
structure Listing where
  bytes : List UInt8
  rows : List Listed
  entries : List (Path × Entry)

namespace Listing

def empty : Listing := ⟨[], [], []⟩

/-- The bytes of an even number of hexadecimal digits. -/
def bytesOfHex? : List Char → Option (List UInt8)
  | [] => some []
  | a :: b :: rest =>
    if Literal.isDigitOf 16 a.toNat && Literal.isDigitOf 16 b.toNat then
      (bytesOfHex? rest).map (UInt8.ofNat (Literal.valueOf 16 [a.toNat, b.toNat]) :: ·)
    else none
  | [_] => none

/-- A decimal numeral. -/
def natOf? (cs : List Char) : Option Nat :=
  if !cs.isEmpty && cs.all Char.isDigit then some (Literal.valueOf 10 (cs.map Char.toNat)) else none

/-- A property of a node. -/
def flagOf? (cs : List Char) : Option Bool :=
  if cs = ['1'] then some true else if cs = ['0'] then some false else none

/-- The row that the fields of a line describe; the symbol may hold spaces. -/
def rowOf? : List (List Char) → Option Listed
  | count :: named :: missing :: flagged :: start :: stop :: row :: column :: field :: symbol => do
    let span : Span := ⟨← natOf? start, ← natOf? stop, (← natOf? row) + 1, ← natOf? column⟩
    return {
      symbol := Symbol.ofName (String.ofList ([' '].intercalate symbol))
      isNamed := ← flagOf? named
      isMissing := ← flagOf? missing
      isFlagged := ← flagOf? flagged
      span := span
      field := if field = ['-'] then none else some (String.ofList field)
      childCount := ← natOf? count }
  | _ => none

/-- Close the file at a path: it holds the lines that belong to it. -/
def closeFile (l : Listing) (path : String) : Except ListingError Listing :=
  let source : Source := ⟨⟨l.bytes.toArray⟩⟩
  let place := Path.ofString path
  if l.rows.isEmpty then .ok ⟨[], [], (place, .file ⟨source, none⟩) :: l.entries⟩
  else match Parsed.ofListing? l.rows with
    | some p => .ok ⟨[], [], (place, .file ⟨source, some p⟩) :: l.entries⟩
    | none => .error (.noParse path)

/-- Read one line, given what follows it. -/
def addLine (line : String) (l : Listing) : Except ListingError Listing :=
  let parts := line.toList.splitOn ' '
  let argument := [' '].intercalate (parts.drop 1)
  match (parts.head?.map String.ofList).getD "" with
  | "" => .ok l
  | "directory" =>
    .ok { l with entries := (Path.ofString (String.ofList argument), .directory []) :: l.entries }
  | "file" => l.closeFile (String.ofList argument)
  | "bytes" =>
    match bytesOfHex? argument with
    | some bytes => .ok { l with bytes := bytes ++ l.bytes }
    | none => .error (.malformed line)
  | "node" =>
    match rowOf? (parts.drop 1) with
    | some row => .ok { l with rows := row :: l.rows }
    | none => .error (.malformed line)
  | _ => .error (.malformed line)

end Listing

/-- The file tree of a listing, whose paths are read in a working directory. -/
def FileTree.ofLines (working lines : List String) : Except ListingError FileTree := do
  let l ← lines.foldr (fun line following => following.bind (Listing.addLine line)) (.ok .empty)
  if l.bytes.isEmpty && l.rows.isEmpty then
    return l.entries.foldl (fun tree (path, e) => tree.insert path e) (.new working)
  else throw .noFile

end FreeNames
