import FreeNames.Grammar.Symbol
import FreeNames.Tree.Node

/-!
# Parses

A parse is the tree that a parser of the grammar gives for a source: every token is a
leaf, and a node may carry the name of its field in its parent.  `Source` is the text that
was parsed, as bytes; a node has the text of its byte range.

* `Parsed.firstError` finds what a broken parse is reported for, passing over parts that
  have no error; `Parsed.firstFlaw` is the same search without passing anything over.
* `Parsed.check` accepts exactly the parses without an error.
* `Parsed.hasError_eq` and `Parsed.preorder_eq` unfold the recursions by one node.
-/

namespace FreeNames

/-- A node of a parse and what the parser says about it. -/
inductive Parsed where
  | mk (symbol : Symbol) (isNamed isMissing isFlagged : Bool) (span : Span)
      (field : Option String) (children : List Parsed)
  deriving Inhabited

namespace Parsed

def symbol : Parsed → Symbol
  | mk s _ _ _ _ _ _ => s

/-- Named nodes are those that are no plain tokens. -/
def isNamed : Parsed → Bool
  | mk _ b _ _ _ _ _ => b

/-- The parser put the node in where the source lacks it. -/
def isMissing : Parsed → Bool
  | mk _ _ b _ _ _ _ => b

/-- The parser says that there is an error, wherever it may be. -/
def isFlagged : Parsed → Bool
  | mk _ _ _ b _ _ _ => b

def span : Parsed → Span
  | mk _ _ _ _ s _ _ => s

/-- The field of the parent in which the node stands. -/
def field : Parsed → Option String
  | mk _ _ _ _ _ f _ => f

def children : Parsed → List Parsed
  | mk _ _ _ _ _ _ cs => cs

theorem sizeOf_lt_of_mem_children {p c : Parsed} (h : c ∈ p.children) : sizeOf c < sizeOf p := by
  cases p with
  | mk s n m e sp f cs =>
    have := List.sizeOf_lt_of_mem h
    simp only [children] at this
    rw [mk.sizeOf_spec]
    omega

/-! ## Looking up children -/

/-- The first child in a field. -/
def field? (p : Parsed) (name : String) : Option Parsed :=
  p.children.find? fun c => c.field = some name

/-- All children in a field. -/
def fieldAll (p : Parsed) (name : String) : List Parsed :=
  p.children.filter fun c => c.field = some name

/-- The named children that are no comments. -/
def named (p : Parsed) : List Parsed :=
  p.children.filter fun c => c.isNamed && !c.symbol.isExtra

/-- Is one of the tokens among the children? -/
def hasToken (p : Parsed) (tokens : List Symbol) : Bool :=
  p.children.any fun c => !c.isNamed && tokens.contains c.symbol

theorem mem_children_of_field? {p c : Parsed} {name : String} (h : p.field? name = some c) :
    c ∈ p.children := List.mem_of_find?_eq_some h

theorem mem_children_of_named {p c : Parsed} (h : c ∈ p.named) : c ∈ p.children :=
  (List.mem_filter.mp h).1

/-! ## Errors -/

/-- Is there an error in the node or below it? -/
def hasError (p : Parsed) : Bool :=
  p.isFlagged || p.symbol = .error || p.isMissing
    || p.children.attach.any fun c => c.1.hasError
termination_by sizeOf p
decreasing_by exact sizeOf_lt_of_mem_children c.2

theorem hasError_eq (p : Parsed) : p.hasError =
    (p.isFlagged || p.symbol = .error || p.isMissing || p.children.any hasError) := by
  rw [hasError]
  simp

/-- What is wrong with a node. -/
inductive Flaw where
  | misplaced
  | missing (symbol : Symbol)
  deriving DecidableEq, Repr

def Flaw.message : Flaw → Text
  | .misplaced => "syntax error"
  | .missing symbol => "missing '" ++ Text.ofString symbol.name ++ "'"

/-- What is wrong with the node itself; an error node is one even where it is missing. -/
def flaw? (p : Parsed) : Option Flaw :=
  if p.symbol = .error then some .misplaced
  else if p.isMissing then some (.missing p.symbol)
  else none

/-- The sum of the sizes of nodes. -/
noncomputable def totalSize : List Parsed → Nat
  | [] => 0
  | p :: ps => sizeOf p + totalSize ps

@[simp] theorem totalSize_nil : totalSize [] = 0 := rfl

@[simp] theorem totalSize_cons (p : Parsed) (ps : List Parsed) :
    totalSize (p :: ps) = sizeOf p + totalSize ps := rfl

@[simp] theorem totalSize_append (ps qs : List Parsed) :
    totalSize (ps ++ qs) = totalSize ps + totalSize qs := by
  induction ps with
  | nil => simp
  | cons p ps ih => simp only [List.cons_append, totalSize_cons, ih, Nat.add_assoc]

@[simp] theorem totalSize_reverse (ps : List Parsed) : totalSize ps.reverse = totalSize ps := by
  induction ps with
  | nil => rfl
  | cons p ps ih =>
    simp only [List.reverse_cons, totalSize_append, totalSize_cons, totalSize_nil, ih]
    omega

/-- Some of the nodes are together no larger than all. -/
theorem totalSize_le_of_sublist {ps qs : List Parsed} (h : ps.Sublist qs) :
    totalSize ps ≤ totalSize qs := by
  induction h with
  | slnil => exact Nat.le_refl _
  | cons q _ ih => exact Nat.le_trans ih (Nat.le_add_left _ _)
  | cons_cons q _ ih => exact Nat.add_le_add_left ih _

theorem totalSize_children_lt (p : Parsed) : totalSize p.children < sizeOf p := by
  cases p with
  | mk s n m e sp f cs =>
    have key : totalSize cs < sizeOf cs := by
      induction cs with
      | nil => simp
      | cons c cs ih =>
        simp only [totalSize_cons, List.cons.sizeOf_spec]
        omega
    simp only [children, mk.sizeOf_spec]
    omega

/-- Search the pending nodes for the first flaw, and go below a node only if there is an
error in it. -/
def firstErrorFrom : List Parsed → Option (Flaw × Span)
  | [] => none
  | p :: pending =>
    match p.flaw? with
    | some flaw => some (flaw, p.span)
    | none => firstErrorFrom (if p.hasError then p.children ++ pending else pending)
termination_by stack => totalSize stack
decreasing_by
  have := totalSize_children_lt p
  split
  · simp only [totalSize_append, totalSize_cons]
    omega
  · simp only [totalSize_cons]
    omega

/-- The first flaw of a parse and where it is; an error that nothing shows counts at the
root. -/
def firstError (root : Parsed) : Flaw × Span :=
  (firstErrorFrom [root]).getD (.misplaced, root.span)

/-- The node and everything below it, every node before its children. -/
def preorder (p : Parsed) : List Parsed :=
  p :: p.children.attach.flatMap fun c => c.1.preorder
termination_by sizeOf p
decreasing_by exact sizeOf_lt_of_mem_children c.2

/-- A node stands in front of everything below its children, the earlier child first. -/
theorem preorder_eq (p : Parsed) : p.preorder = p :: p.children.flatMap preorder := by
  rw [preorder]
  congr 1
  conv => rhs; rw [← List.attach_map_subtype_val p.children]
  rw [List.flatMap_map]

/-- The first flaw among all nodes of a parse. -/
def firstFlaw (root : Parsed) : Option (Flaw × Span) :=
  root.preorder.findSome? fun p => p.flaw?.map fun flaw => (flaw, p.span)

end Parsed

/-- A source that does not parse: what is wrong, where, and in which file. -/
structure ParseError where
  flaw : Parsed.Flaw
  line : Nat
  column : Nat
  path : Option String
  deriving DecidableEq, Repr

namespace ParseError

/-- The place of the error: behind the path, unless that is absent or empty. -/
def location (e : ParseError) : Text :=
  let place := Text.ofNat e.line ++ ":" ++ Text.ofNat e.column
  match e.path with
  | some path => if path.isEmpty then place else Text.ofString path ++ ":" ++ place
  | none => place

def message (e : ParseError) : Text := e.location ++ ": " ++ e.flaw.message

end ParseError

/-- Accept a parse without errors. -/
def Parsed.check (root : Parsed) (path : Option String) : Except ParseError Parsed :=
  if root.hasError then
    let (flaw, span) := root.firstError
    .error ⟨flaw, span.line, span.column, path⟩
  else .ok root

/-! ## Source text -/

/-- The bytes of a source. -/
structure Source where
  bytes : ByteArray

namespace Source

def ofString (s : String) : Source := ⟨s.toUTF8⟩

/-- The text of a byte range, if it is UTF-8. -/
def text? (src : Source) (span : Span) : Option Text :=
  (String.fromUTF8? (src.bytes.extract span.start span.stop)).map Text.ofString

/-- Is the whole source UTF-8? -/
def isUtf8 (src : Source) : Bool := (String.fromUTF8? src.bytes).isSome

end Source

end FreeNames
