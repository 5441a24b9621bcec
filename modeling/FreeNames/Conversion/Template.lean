import FreeNames.Grammar.Parsed

/-!
# Templates

A template is a piece of abstract syntax with holes.  The holes are parts of a parse that
are still to be converted; filling them gives a node.  A node of a parse has one template,
so conversion is a plain table of templates and one recursion that fills them.

* `Inside w` is a node somewhere in the parse `w`, and `Part w` one strictly below its root;
  the parts of a node are smaller than the parse, which is why filling ends.
* The parts of a node are read in turns, which need not be the order of its fields, and some
  parts are read without being kept.  `Template.fill` fills every hole; of several faults in
  one node it gives that of the earliest turn, and in one turn that of the first field.
-/

namespace FreeNames

/-! ## Places in a parse -/

/-- A node of the parse `w`, possibly its root. -/
structure Inside (w : Parsed) where
  parsed : Parsed
  le : sizeOf parsed ≤ sizeOf w

/-- A node of the parse `w` below its root, and whether its parent is an object literal. -/
structure Part (w : Parsed) where
  parsed : Parsed
  inObject : Bool
  lt : sizeOf parsed < sizeOf w

/-- The root of a parse as a place in it. -/
def Parsed.inside (p : Parsed) : Inside p := ⟨p, Nat.le_refl _⟩

namespace Part

variable {w : Parsed}

def inside (q : Part w) : Inside w := ⟨q.parsed, Nat.le_of_lt q.lt⟩

def symbol (q : Part w) : Symbol := q.parsed.symbol

def span (q : Part w) : Span := q.parsed.span

end Part

namespace Inside

variable {w : Parsed}

def symbol (x : Inside w) : Symbol := x.parsed.symbol

def span (x : Inside w) : Span := x.parsed.span

/-- The children of a node as parts of the parse. -/
def parts (x : Inside w) : List (Part w) :=
  x.parsed.children.attach.map fun c =>
    ⟨c.1, x.symbol = .object, Nat.lt_of_lt_of_le (Parsed.sizeOf_lt_of_mem_children c.2) x.le⟩

theorem map_parsed_parts (x : Inside w) : x.parts.map Part.parsed = x.parsed.children := by
  simp [parts, Function.comp_def]

theorem sizeOf_lt_of_mem_parts {x : Inside w} {q : Part w} (h : q ∈ x.parts) :
    sizeOf q.parsed < sizeOf x.parsed := by
  refine Parsed.sizeOf_lt_of_mem_children ?_
  rw [← map_parsed_parts]
  exact List.mem_map_of_mem h

/-- The first part in a field. -/
def field? (x : Inside w) (name : String) : Option (Part w) :=
  x.parts.find? fun q => q.parsed.field = some name

/-- All parts in a field that are statements or the like: named and no comments. -/
def fieldAll (x : Inside w) (name : String) : List (Part w) :=
  x.parts.filter fun q =>
    q.parsed.field = some name && q.parsed.isNamed && !q.symbol.isExtra

/-- The named parts that are no comments. -/
def named (x : Inside w) : List (Part w) :=
  x.parts.filter fun q => q.parsed.isNamed && !q.symbol.isExtra

/-- Is one of the tokens among the children? -/
def hasToken (x : Inside w) (tokens : List Symbol) : Bool := x.parsed.hasToken tokens

/-- The node lacks a part. -/
def lacking (x : Inside w) (name : String) : Fault := .lacks x.symbol.name name

theorem mem_parts_of_field? {x : Inside w} {q : Part w} {name : String}
    (h : x.field? name = some q) : q ∈ x.parts := List.mem_of_find?_eq_some h

theorem mem_parts_of_named {x : Inside w} {q : Part w} (h : q ∈ x.named) : q ∈ x.parts :=
  (List.mem_filter.mp h).1

end Inside

/-! ## Turns -/

/-- A fault, and the turn in which it arises among the parts of a node. -/
structure TurnFault where
  turn : Nat
  fault : Fault
  deriving DecidableEq, Repr

namespace TurnFault

/-- Both results; of two faults the one of the earlier turn, and in one turn the first. -/
def both {α β : Type} : Except TurnFault α → Except TurnFault β → Except TurnFault (α × β)
  | .ok a, .ok b => .ok (a, b)
  | .ok _, .error g => .error g
  | .error f, .ok _ => .error f
  | .error f, .error g => .error (if g.turn < f.turn then g else f)

/-- Both succeed exactly if each does. -/
theorem both_eq_ok {α β : Type} {x : Except TurnFault α} {y : Except TurnFault β} {c : α × β} :
    both x y = .ok c ↔ x = .ok c.1 ∧ y = .ok c.2 := by
  cases x <;> cases y <;> simp [both, Prod.ext_iff]

end TurnFault

/-! ## Templates -/

mutual

/-- A node to be built. -/
inductive Template (w : Parsed) where
  /-- A part that is needed is missing. -/
  | fault (f : Fault)
  /-- The conversion of a part. -/
  | hole (q : Part w)
  /-- A node with these fields; what is dropped is read as well, but not kept. -/
  | build (kind : Kind) (span : Span) (fields : List (String × Slot w)) (dropped : List (Slot w))

/-- What a field is to hold. -/
inductive Slot (w : Parsed) where
  | value (v : Value)
  | one (t : Template w)
  | many (slots : List (Slot w))
  /-- A slot that is filled in this turn; the others are filled in turn 0. -/
  | turn (n : Nat) (slot : Slot w)

end

namespace Template

variable {w : Parsed}

/-- A node that keeps all that is read. -/
abbrev node (kind : Kind) (span : Span) (fields : List (String × Slot w)) : Template w :=
  .build kind span fields []

mutual

/-- Build the node of a template, given the conversion of the holes. -/
def fill (convert : Part w → Except Fault Node) : Template w → Except Fault Node
  | .fault f => .error f
  | .hole q => convert q
  | .build kind span fields dropped =>
    ((TurnFault.both (fillFields convert fields) (fillSlots convert dropped)).mapError
      TurnFault.fault).map fun kept => Node.mk 0 kind span kept.1

def fillFields (convert : Part w → Except Fault Node) :
    List (String × Slot w) → Except TurnFault (List (String × Value))
  | [] => .ok []
  | (name, slot) :: rest =>
    (TurnFault.both (fillSlot convert slot) (fillFields convert rest)).map fun (v, fields) =>
      (name, v) :: fields

def fillSlot (convert : Part w → Except Fault Node) : Slot w → Except TurnFault Value
  | .value v => .ok v
  | .one t => ((fill convert t).mapError (TurnFault.mk 0)).map .node
  | .many slots => (fillSlots convert slots).map .list
  | .turn n slot => (fillSlot convert slot).mapError fun f => ⟨n, f.fault⟩

def fillSlots (convert : Part w → Except Fault Node) :
    List (Slot w) → Except TurnFault (List Value)
  | [] => .ok []
  | slot :: rest =>
    (TurnFault.both (fillSlot convert slot) (fillSlots convert rest)).map fun (v, values) =>
      v :: values

end

end Template

/-! ## Common slots -/

namespace Slot

variable {w : Parsed}

def null : Slot w := .value .null

def bool (b : Bool) : Slot w := .value (.bool b)

/-- A fixed word. -/
def word (s : String) : Slot w := .value (.text (Text.ofString s))

def fault (f : Fault) : Slot w := .one (.fault f)

/-- The conversion of a part. -/
def hole (q : Part w) : Slot w := .one (.hole q)

/-- The conversions of parts. -/
def holes (qs : List (Part w)) : Slot w := .many (qs.map hole)

/-- A slot that is filled when the slots of turn 0 are. -/
def late (slot : Slot w) : Slot w := .turn 1 slot

/-- The text of a byte range. -/
def text (src : Source) (span : Span) : Slot w :=
  match src.text? span with
  | some t => .value (.text t)
  | none => .fault .notUtf8

end Slot

namespace Inside

variable {w : Parsed}

/-- The conversion of the part in a field. -/
def convert (x : Inside w) (name : String) : Slot w :=
  match x.field? name with
  | some q => .hole q
  | none => .fault (x.lacking name)

/-- The conversion of the part in a field, or null if there is none or only a token. -/
def optional (x : Inside w) (name : String) : Slot w :=
  match x.field? name with
  | some q => if q.parsed.isNamed then .hole q else .null
  | none => .null

/-- The conversion of the first named part. -/
def first (x : Inside w) : Template w :=
  match x.named.head? with
  | some q => .hole q
  | none => .fault (x.lacking "child")

/-- The conversion of the first named part, or null if there is none. -/
def firstOrNull (x : Inside w) : Slot w :=
  match x.named.head? with
  | some q => .hole q
  | none => .null

/-- The text of the part in a field. -/
def textOf (src : Source) (x : Inside w) (name : String) : Slot w :=
  match x.field? name with
  | some q => .text src q.span
  | none => .fault (x.lacking name)

end Inside

end FreeNames
