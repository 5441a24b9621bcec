import FreeNames.Grammar.Parsed

/-!
# Listings of parses

A listing is a parse written down flat: a row for every node, before the rows of its
children, with their number.  Reading goes from the last row to the first and keeps the
parses that belong to no row yet; a row takes as many of them as it has children.

* `Parsed.ofListing?_listing`: reading what was listed gives the parse back.
-/

namespace FreeNames

/-- A node without its children, and their number. -/
structure Listed where
  symbol : Symbol
  isNamed : Bool
  isMissing : Bool
  isFlagged : Bool
  span : Span
  field : Option String
  childCount : Nat
  deriving DecidableEq, Repr

namespace Listed

/-- The row of a node. -/
def ofParsed (p : Parsed) : Listed :=
  ⟨p.symbol, p.isNamed, p.isMissing, p.isFlagged, p.span, p.field, p.children.length⟩

/-- The node of a row, with the first of the parses that follow as its children. -/
def adopt (row : Listed) (following : List Parsed) : Option (List Parsed) :=
  let children := following.take row.childCount
  if children.length = row.childCount then
    some (.mk row.symbol row.isNamed row.isMissing row.isFlagged row.span row.field children
      :: following.drop row.childCount)
  else none

/-- The parses that rows describe, in front of others. -/
def read (rows : List Listed) (following : List Parsed) : Option (List Parsed) :=
  rows.foldr (fun row parses => parses.bind row.adopt) (some following)

theorem adopt_ofParsed (p : Parsed) (following : List Parsed) :
    (ofParsed p).adopt (p.children ++ following) = some (p :: following) := by
  cases p
  simp [adopt, ofParsed, Parsed.children, Parsed.symbol, Parsed.isNamed, Parsed.isMissing,
    Parsed.isFlagged, Parsed.span, Parsed.field]

end Listed

namespace Parsed

/-- The rows of a parse. -/
def listing (p : Parsed) : List Listed :=
  Listed.ofParsed p :: p.children.attach.flatMap fun c => c.1.listing
termination_by sizeOf p
decreasing_by exact sizeOf_lt_of_mem_children c.2

/-- The parse that rows describe, if they describe exactly one. -/
def ofListing? (rows : List Listed) : Option Parsed :=
  match Listed.read rows [] with
  | some [p] => some p
  | _ => none

theorem read_listing (p : Parsed) (following : List Parsed) :
    Listed.read p.listing following = some (p :: following) := by
  have children (cs : List Parsed) (h : ∀ c ∈ cs, sizeOf c < sizeOf p) :
      Listed.read (cs.flatMap listing) following = some (cs ++ following) := by
    induction cs with
    | nil => rfl
    | cons c cs ih =>
      have hc := h c List.mem_cons_self
      rw [Listed.read] at ih ⊢
      rw [List.flatMap_cons, List.foldr_append, ih fun d hd => h d (List.mem_cons_of_mem c hd)]
      exact read_listing c (cs ++ following)
  have flat : p.children.attach.flatMap (fun c => c.1.listing) = p.children.flatMap listing := by
    conv => rhs; rw [← List.attach_map_subtype_val p.children]
    rw [List.flatMap_map]
  have inner := children p.children fun c hc => sizeOf_lt_of_mem_children hc
  rw [listing, flat]
  rw [Listed.read] at inner ⊢
  rw [List.foldr_cons, inner]
  exact Listed.adopt_ofParsed p following
termination_by sizeOf p

theorem ofListing?_listing (p : Parsed) : ofListing? p.listing = some p := by
  rw [ofListing?, read_listing]

end Parsed

end FreeNames
