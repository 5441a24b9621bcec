import Mathlib
import FreeNames.Proofs.Conversion.Coverage
import FreeNames.Proofs.Conversion.Sequences
import FreeNames.Proofs.Tree.Sites
import FreeNames.Resolution.Report

/-!
# Names in markup

The names of elements and of attributes are no variables: what is written in braces is.  There are
no rules for markup in the table, so its nodes hold the conversions of their parts, whatever these
are; only the name of an element is left out.  The name of an attribute is a word of its own, unless
it has a namespace: then it consists of two identifiers, and these are converted like variables.

* `Symbol.markup` is the grammar of markup, and `Parsed.InMarkup` leads from a node of markup down
  to braces, but not into the names of elements.
* `Conversion.convert_unlisted` says what becomes of a node without a rule.
* `Conversion.convert_markup` says where the identifiers in the conversion of markup come from, by
  induction on the parse.
-/

namespace FreeNames

/-! ## The grammar of markup -/

namespace Symbol

def jsxElement : Symbol := .other "jsx_element"

def jsxAttribute : Symbol := .other "jsx_attribute"

def jsxNamespaceName : Symbol := .other "jsx_namespace_name"

def jsxExpression : Symbol := .other "jsx_expression"

def jsxText : Symbol := .other "jsx_text"

def characterReference : Symbol := .other "html_character_reference"

/-- The nodes of markup, each with the symbols of its parts other than the name of an element. -/
def markup : List (Symbol × List Symbol) :=
  [(jsxElement, [.jsxOpeningElement, .jsxClosingElement, .jsxSelfClosingElement, jsxElement,
      jsxExpression, jsxText, characterReference]),
    (.jsxOpeningElement, [jsxAttribute, jsxExpression]),
    (.jsxSelfClosingElement, [jsxAttribute, jsxExpression]),
    (.jsxClosingElement, []),
    (jsxAttribute, [.propertyIdentifier, jsxNamespaceName, .string, jsxExpression, jsxElement,
      .jsxSelfClosingElement]),
    (jsxNamespaceName, [.identifier]),
    (.propertyIdentifier, []),
    (jsxText, []),
    (characterReference, [])]

/-- The symbols of the parts of a node of markup. -/
def markupParts? (s : Symbol) : Option (List Symbol) := markup.lookup s

theorem mem_markup {s : Symbol} {parts : List Symbol} (h : s.markupParts? = some parts) :
    (s, parts) ∈ markup := by
  obtain ⟨before, after, entries, -⟩ := List.lookup_eq_some_iff.mp h
  exact entries ▸ List.mem_append_right _ List.mem_cons_self

end Symbol

namespace Parsed

/-- Is the node one of markup? -/
def isMarkup (p : Parsed) : Bool := p.symbol.markupParts?.isSome

/-- The parts of a node: its named children, without comments and the name of an element. -/
def content (p : Parsed) : List Parsed := p.visible.filter fun c => c.isNamed && !c.symbol.isExtra

/-- A node of markup has the parts that the grammar says. -/
def markupFits (p : Parsed) : Bool :=
  p.symbol.markupParts?.all fun parts => p.content.all fun c => parts.contains c.symbol

/-- The markup anywhere in a parse is as the grammar says. -/
def FitsMarkup (root : Parsed) : Prop := ∀ p ∈ root.preorder, p.markupFits = true

theorem fitsMarkup_iff {root : Parsed} :
    root.FitsMarkup ↔ root.preorder.all markupFits = true := List.all_eq_true.symm

/-- In markup one comes from a node to its parts. -/
abbrev InMarkup : Parsed → Parsed → Prop :=
  Relation.ReflTransGen fun p c => p.isMarkup = true ∧ c ∈ p.content

variable {p c q : Parsed}

theorem mem_children_of_content (h : c ∈ p.content) : c ∈ p.children :=
  mem_children_of_visible (List.mem_filter.mp h).1

theorem FitsMarkup.child (h : p.FitsMarkup) (hc : c ∈ p.children) : c.FitsMarkup :=
  fun q hq => h q (mem_preorder_of_child hc hq)

/-- The same for all nodes of a parse. -/
theorem FitsMarkup.inner {root : Parsed} (h : root.FitsMarkup) (hp : p ∈ root.preorder) :
    p.FitsMarkup := fun q hq => h q (mem_preorder_trans hp hq)

theorem FitsMarkup.symbol_mem (h : p.FitsMarkup) {parts : List Symbol}
    (hp : p.symbol.markupParts? = some parts) (hc : c ∈ p.content) : c.symbol ∈ parts := by
  have fits := h p (self_mem_preorder p)
  rw [markupFits, hp, Option.all_some] at fits
  exact List.contains_iff_mem.mp (List.all_eq_true.mp fits c hc)

/-- From a node that is no markup one comes nowhere. -/
theorem InMarkup.eq_of_not (h : InMarkup p q) (other : p.isMarkup = false) : q = p := by
  rcases Relation.ReflTransGen.cases_head h with same | ⟨c, ⟨isMarkup, -⟩, -⟩
  · exact same.symm
  · rw [other] at isMarkup
    cases isMarkup

theorem inMarkup_iff (h : p.isMarkup = true) :
    InMarkup p q ↔ q = p ∨ ∃ c ∈ p.content, InMarkup c q := by
  constructor
  · intro reach
    rcases Relation.ReflTransGen.cases_head reach with same | ⟨c, ⟨-, hc⟩, rest⟩
    · exact .inl same.symm
    · exact .inr ⟨c, hc, rest⟩
  · rintro (rfl | ⟨c, hc, rest⟩)
    · exact .refl
    · exact .head ⟨h, hc⟩ rest

theorem InMarkup.fits (h : InMarkup p q) (fits : p.FitsMarkup) : q.FitsMarkup := by
  induction h with
  | refl => exact fits
  | tail _ part ih => exact ih.child (mem_children_of_content part.2)

/-- The parts of markup other than names with a namespace are markup again, braces or strings. -/
theorem FitsMarkup.part_cases (fits : p.FitsMarkup) (isMarkup : p.isMarkup = true)
    (plain : p.symbol ≠ .jsxNamespaceName) (hc : c ∈ p.content) :
    c.isMarkup = true ∨ c.symbol = .jsxExpression ∨ c.symbol = .string := by
  have all : ∀ entry ∈ Symbol.markup, entry.1 ≠ .jsxNamespaceName → ∀ s ∈ entry.2,
      s.markupParts?.isSome = true ∨ s = .jsxExpression ∨ s = .string := by
    decide
  obtain ⟨parts, found⟩ := Option.isSome_iff_exists.mp isMarkup
  exact all _ (Symbol.mem_markup found) plain _ (fits.symbol_mem found hc)

theorem isMarkup_of_namespaceName (name : p.symbol = .jsxNamespaceName) : p.isMarkup = true := by
  rw [isMarkup, name]
  rfl

theorem FitsMarkup.isName (fits : p.FitsMarkup) (name : p.symbol = .jsxNamespaceName)
    (hc : c ∈ p.content) : c.symbol = .identifier := by
  have found : p.symbol.markupParts? = some [.identifier] := by
    rw [name]
    rfl
  exact List.mem_singleton.mp (fits.symbol_mem found hc)

/-! ## What stands in markup -/

/-- What is converted by rules of its own in markup, in the order of the source. -/
def embedded (p : Parsed) : List Parsed :=
  if p.isMarkup then p.content.attach.flatMap fun c => c.1.embedded
  else if p.symbol = .string then [] else [p]
termination_by sizeOf p
decreasing_by exact sizeOf_lt_of_mem_children (mem_children_of_content c.2)

theorem embedded_of_isMarkup (h : p.isMarkup = true) : p.embedded = p.content.flatMap embedded := by
  rw [embedded, if_pos h]
  conv => rhs; rw [← List.attach_map_subtype_val p.content]
  rw [List.flatMap_map]

theorem embedded_of_not (other : p.isMarkup = false) (plain : p.symbol ≠ .string) :
    p.embedded = [p] := by
  rw [embedded, other, if_neg Bool.false_ne_true, if_neg plain]

theorem embedded_of_string (string : p.symbol = .string) : p.embedded = [] := by
  have other : p.isMarkup = false := by rw [isMarkup, string]; rfl
  rw [embedded, other, if_neg Bool.false_ne_true, if_pos string]

/-- Braces in the markup, or a part of the name of an attribute with a namespace. -/
def Embeds (p e : Parsed) : Prop :=
  p.InMarkup e ∧ e.symbol = .jsxExpression ∨
    ∃ a, p.InMarkup a ∧ a.symbol = .jsxNamespaceName ∧ e ∈ a.content

/-- Outside of markup there are only the braces themselves. -/
theorem embeds_iff_of_not (other : p.isMarkup = false) :
    p.Embeds q ↔ q = p ∧ p.symbol = .jsxExpression := by
  constructor
  · rintro (⟨reach, braces⟩ | ⟨a, reach, name, -⟩)
    · obtain rfl := reach.eq_of_not other
      exact ⟨rfl, braces⟩
    · obtain rfl := reach.eq_of_not other
      rw [isMarkup_of_namespaceName name] at other
      cases other
  · rintro ⟨rfl, braces⟩
    exact .inl ⟨.refl, braces⟩

theorem embeds_iff (h : p.isMarkup = true) :
    p.Embeds q ↔ (p.symbol = .jsxNamespaceName ∧ q ∈ p.content) ∨ ∃ c ∈ p.content, c.Embeds q := by
  constructor
  · rintro (⟨reach, braces⟩ | ⟨a, reach, name, hq⟩)
    · rcases (inMarkup_iff h).mp reach with rfl | ⟨c, hc, reach⟩
      · rw [isMarkup, braces] at h
        cases h
      · exact .inr ⟨c, hc, .inl ⟨reach, braces⟩⟩
    · rcases (inMarkup_iff h).mp reach with rfl | ⟨c, hc, reach⟩
      · exact .inl ⟨name, hq⟩
      · exact .inr ⟨c, hc, .inr ⟨a, reach, name, hq⟩⟩
  · rintro (⟨name, hq⟩ | ⟨c, hc, ⟨reach, braces⟩ | ⟨a, reach, name, hq⟩⟩)
    · exact .inr ⟨p, .refl, name, hq⟩
    · exact .inl ⟨(inMarkup_iff h).mpr (.inr ⟨c, hc, reach⟩), braces⟩
    · exact .inr ⟨a, (inMarkup_iff h).mpr (.inr ⟨c, hc, reach⟩), name, hq⟩

/-- What is converted by rules of its own are the braces, and the parts of the names of attributes
with a namespace. -/
theorem mem_embedded_iff (fits : p.FitsMarkup) (h : p.isMarkup = true) :
    q ∈ p.embedded ↔ p.Embeds q := by
  induction size : sizeOf p using Nat.strongRecOn generalizing p with | ind k ih => ?_
  rw [embedded_of_isMarkup h, List.mem_flatMap, embeds_iff h]
  by_cases name : p.symbol = .jsxNamespaceName
  · have names (c) (hc : c ∈ p.content) : (q ∈ c.embedded ↔ q = c) ∧ ¬ c.Embeds q := by
      have symbol := fits.isName name hc
      have other : c.isMarkup = false := by rw [isMarkup, symbol]; rfl
      rw [embedded_of_not other (by rw [symbol]; decide), List.mem_singleton,
        embeds_iff_of_not other, symbol]
      exact ⟨.rfl, fun braces => nomatch braces.2⟩
    constructor
    · rintro ⟨c, hc, mem⟩
      exact .inl ⟨name, (names c hc).1.mp mem ▸ hc⟩
    · rintro (⟨-, hq⟩ | ⟨c, hc, embeds⟩)
      · exact ⟨q, hq, (names q hq).1.mpr rfl⟩
      · exact absurd embeds (names c hc).2
  · rw [or_iff_right fun here : p.symbol = _ ∧ _ => name here.1]
    refine exists_congr fun c => and_congr_right fun hc => ?_
    rcases fits.part_cases h name hc with inner | braces | string
    · have child := mem_children_of_content hc
      exact ih _ (size ▸ sizeOf_lt_of_mem_children child) (fits.child child) inner rfl
    · have other : c.isMarkup = false := by rw [isMarkup, braces]; rfl
      rw [embedded_of_not other (by rw [braces]; decide), List.mem_singleton,
        embeds_iff_of_not other, and_iff_left braces]
    · have other : c.isMarkup = false := by rw [isMarkup, string]; rfl
      rw [embedded_of_string string, embeds_iff_of_not other, string]
      exact iff_of_false List.not_mem_nil fun braces => nomatch braces.2

end Parsed

/-! ## The identifiers of a tree -/

namespace Node

variable {i : Nat} {kind : Kind} {span : Span}

/-- A node whose fields hold no nodes. -/
theorem identifiers_of_leaf {n : Node} (leaf : n.children = []) :
    n.identifiers = if n.kind = .identifier then [n] else [] := by
  rw [identifiers, preorder_eq, leaf, List.flatMap_nil, List.filter_singleton]
  by_cases h : n.kind = .identifier <;> simp [h]

/-- A node that holds nodes in one list. -/
theorem identifiers_of_list {name : String} {ms : List Node} (other : kind ≠ .identifier) :
    (mk i kind span [(name, .list (ms.map .node))]).identifiers = ms.flatMap identifiers := by
  have children : (mk i kind span [(name, .list (ms.map .node))]).children =
      ms.map fun m => (name, m) := by
    rw [Node.children, fields_mk, List.flatMap_singleton, Value.nodes, List.filterMap_map]
    exact congrArg _ (List.filterMap_some ..)
  rw [identifiers_of_ne (by exact other), children, List.flatMap_map]

end Node

/-! ## Conversion -/

namespace Conversion

variable {src : Source} {p c : Parsed} {inObject : Bool} {n m : Node}

/-- The parts that an opaque node holds are those of its content. -/
theorem convert_unlisted (table : template src inObject p.inside = opaqueNode p.inside)
    (notObject : p.symbol ≠ .object) :
    convert src p inObject = (p.content.mapM (childValue src)).map fun vs =>
      .mk 0 (Kind.ofName p.symbol.name) p.span [("children", .list vs)] := by
  have shown : (if p.symbol.isTagged then p.inside.parts.eraseP fun q => q.parsed.field = some "name"
      else p.inside.parts).map Part.parsed = p.visible := by
    have parts : p.inside.parts.map Part.parsed = p.children := p.inside.map_parsed_parts
    rw [Parsed.visible, ← parts, List.eraseP_map, apply_ite (List.map Part.parsed)]
    rfl
  have plain : ∀ q ∈ p.inside.parts, q.inObject = false := fun q hq =>
    (Inside.inObject_of_mem_parts hq).trans (decide_eq_false notObject)
  rw [convert_eq, table, Parsed.content, ← shown, List.filter_map]
  refine Template.fill_list (fillSlots_holes fun q hq => plain q ?_)
  have mem := (List.mem_filter.mp hq).1
  split at mem
  · exact List.mem_of_mem_eraseP mem
  · exact mem

/-- Markup has no rules. -/
theorem template_of_isMarkup (h : p.isMarkup = true) :
    template src inObject p.inside = opaqueNode p.inside := by
  obtain ⟨parts, found⟩ := Option.isSome_iff_exists.mp h
  have mem := Symbol.mem_markup found
  simp only [Symbol.markup, List.mem_cons, Prod.mk.injEq, List.not_mem_nil, or_false] at mem
  unfold template
  rw [show p.inside.symbol = p.symbol from rfl]
  rcases mem with ⟨hs, -⟩ | ⟨hs, -⟩ | ⟨hs, -⟩ | ⟨hs, -⟩ | ⟨hs, -⟩ | ⟨hs, -⟩ | ⟨hs, -⟩ | ⟨hs, -⟩ |
    ⟨hs, -⟩ <;> rw [hs] <;> rfl

/-- The values of parts are nodes. -/
theorem exists_nodes_of_forall₂ {cs : List Parsed} {vs : List Value}
    (each : List.Forall₂ (fun c v => childValue src c = .ok v) cs vs) :
    ∃ ms : List Node, vs = ms.map .node ∧
      List.Forall₂ (fun c m => convert src c false = .ok m) cs ms := by
  induction each with
  | nil => exact ⟨[], rfl, .nil⟩
  | @cons c v _ _ first _ ih =>
    obtain ⟨ms, rfl, rest⟩ := ih
    rw [childValue] at first
    cases converted : convert src c false with
    | error f => rw [converted] at first; cases first
    | ok m =>
      rw [converted] at first
      cases first
      exact ⟨m :: ms, rfl, .cons converted rest⟩

/-- What becomes of a node of markup. -/
theorem exists_of_isMarkup (h : p.isMarkup = true) (converted : convert src p inObject = .ok n) :
    ∃ ms : List Node,
      n = .mk 0 (Kind.ofName p.symbol.name) p.span [("children", .list (ms.map .node))] ∧
        List.Forall₂ (fun c m => convert src c false = .ok m) p.content ms := by
  have notObject : ∀ entry ∈ Symbol.markup, entry.1 ≠ .object := by decide
  obtain ⟨parts, found⟩ := Option.isSome_iff_exists.mp h
  rw [convert_unlisted (template_of_isMarkup h) (notObject _ (Symbol.mem_markup found))] at converted
  cases values : p.content.mapM (childValue src) with
  | error f => rw [values] at converted; cases converted
  | ok vs =>
    rw [values] at converted
    cases converted
    obtain ⟨ms, rfl, each⟩ := exists_nodes_of_forall₂ (forall₂_of_mapM values)
    exact ⟨ms, rfl, each⟩

/-- A name becomes one identifier. -/
theorem identifiers_of_identifier (h : c.symbol = .identifier)
    (converted : convert src c inObject = .ok n) : n.identifiers = [n] := by
  have table : template src inObject c.inside = identifier src c.span := by
    have hs : c.inside.symbol = .identifier := h
    simp only [template, hs]
    rfl
  rw [convert_eq, table, identifier, Slot.text] at converted
  obtain ⟨vs, filled, rfl⟩ := Template.exists_fields_of_fill converted
  obtain ⟨v, rest, value, done, rfl⟩ := Template.exists_of_fillFields_cons filled
  cases done
  rw [Node.identifiers_of_leaf]
  · rfl
  · split at value
    · cases value
      rfl
    · cases value

/-- A string holds no identifiers. -/
theorem identifiers_of_string (h : c.symbol = .string)
    (converted : convert src c inObject = .ok n) : n.identifiers = [] := by
  have table : template src inObject c.inside = stringLiteral src c.inside := by
    have hs : c.inside.symbol = .string := h
    simp only [template, hs]
  rw [convert_eq, table, stringLiteral] at converted
  split at converted
  · cases converted
  · cases converted
    exact Node.identifiers_of_leaf rfl

/-- What is embedded in parts, if it is known of each of them. -/
theorem exists_embedded_of_forall₂ {cs : List Parsed} {ms : List Node}
    (each : List.Forall₂ (fun c m => convert src c false = .ok m) cs ms)
    (parts : ∀ c ∈ cs, ∀ m, convert src c false = .ok m → ∃ ks,
      List.Forall₂ (fun e k => convert src e false = .ok k) c.embedded ks ∧
        m.identifiers = ks.flatMap Node.identifiers) :
    ∃ ks, List.Forall₂ (fun e k => convert src e false = .ok k) (cs.flatMap Parsed.embedded) ks ∧
      ms.flatMap Node.identifiers = ks.flatMap Node.identifiers := by
  induction each with
  | nil => exact ⟨[], .nil, rfl⟩
  | @cons c m cs ms first _ ih =>
    obtain ⟨here, others⟩ := List.forall_mem_cons.mp parts
    obtain ⟨ks, embedded, same⟩ := here m first
    obtain ⟨ks', embedded', same'⟩ := ih others
    refine ⟨ks ++ ks', List.rel_append embedded embedded', ?_⟩
    rw [List.flatMap_cons, List.flatMap_append, same, same']

/-- The identifiers in the conversion of markup are those of what is embedded in it. -/
theorem exists_embedded (fits : p.FitsMarkup) (isMarkup : p.isMarkup = true)
    (converted : convert src p inObject = .ok n) :
    ∃ ks, List.Forall₂ (fun e k => convert src e false = .ok k) p.embedded ks ∧
      n.identifiers = ks.flatMap Node.identifiers := by
  induction size : sizeOf p using Nat.strongRecOn generalizing p inObject n with | ind k ih => ?_
  have other : ∀ entry ∈ Symbol.markup, Kind.ofName entry.1.name ≠ .identifier := by
    decide +kernel
  obtain ⟨symbols, found⟩ := Option.isSome_iff_exists.mp isMarkup
  obtain ⟨ms, rfl, each⟩ := exists_of_isMarkup isMarkup converted
  rw [Node.identifiers_of_list (other _ (Symbol.mem_markup found)),
    Parsed.embedded_of_isMarkup isMarkup]
  refine exists_embedded_of_forall₂ each fun c hc m hm => ?_
  have itself (other : c.isMarkup = false) (plain : c.symbol ≠ .string) : ∃ ks,
      List.Forall₂ (fun e k => convert src e false = .ok k) c.embedded ks ∧
        m.identifiers = ks.flatMap Node.identifiers := by
    rw [Parsed.embedded_of_not other plain]
    exact ⟨[m], .cons hm .nil, (List.flatMap_singleton ..).symm⟩
  by_cases name : p.symbol = .jsxNamespaceName
  · have symbol := fits.isName name hc
    exact itself (by rw [Parsed.isMarkup, symbol]; rfl) (by rw [symbol]; decide)
  · rcases fits.part_cases isMarkup name hc with inner | braces | string
    · have child := Parsed.mem_children_of_content hc
      exact ih _ (size ▸ Parsed.sizeOf_lt_of_mem_children child) (fits.child child) inner hm rfl
    · exact itself (by rw [Parsed.isMarkup, braces]; rfl) (by rw [braces]; decide)
    · rw [Parsed.embedded_of_string string, identifiers_of_string string hm]
      exact ⟨[], .nil, rfl⟩

/-- The conversion of a node of markup holds the conversions of its parts in their order, without
the name of an element.  Its identifiers are, again in order, those of what stands in braces, but
also the parts of the names of attributes with a namespace: each of them is one identifier. -/
theorem convert_markup {root : Parsed} (fits : root.FitsMarkup) (hp : p ∈ root.preorder)
    (isMarkup : p.isMarkup = true) (converted : convert src p inObject = .ok n) :
    (∃ ms : List Node,
      n = .mk 0 (Kind.ofName p.symbol.name) p.span [("children", .list (ms.map .node))] ∧
        List.Forall₂ (fun c m => convert src c false = .ok m) p.content ms) ∧
      (∃ ks, List.Forall₂ (fun e k => convert src e false = .ok k) p.embedded ks ∧
        n.identifiers = ks.flatMap Node.identifiers) ∧
      (∀ e, e ∈ p.embedded ↔ p.InMarkup e ∧ e.symbol = .jsxExpression ∨
        ∃ a, p.InMarkup a ∧ a.symbol = .jsxNamespaceName ∧ e ∈ a.content) ∧
      ∀ a, p.InMarkup a → a.symbol = .jsxNamespaceName → ∀ e ∈ a.content, ∀ k,
        convert src e false = .ok k → k.identifiers = [k] := by
  have below := fits.inner hp
  refine ⟨exists_of_isMarkup isMarkup converted, exists_embedded below isMarkup converted,
    fun e => Parsed.mem_embedded_iff below isMarkup, fun a inside name e he k hk => ?_⟩
  exact identifiers_of_identifier ((inside.fits below).isName name he) hk

/-- The element in `<svg:rect xlink:href={u} />;`. -/
def rectangle : Parsed :=
  .mk .jsxSelfClosingElement true false false ⟨0, 27, 1, 0⟩ none
    [.mk (.other "<") false false false ⟨0, 1, 1, 0⟩ none [],
      .mk .jsxNamespaceName true false false ⟨1, 9, 1, 1⟩ (some "name")
        [.mk .identifier true false false ⟨1, 4, 1, 1⟩ none [],
          .mk (.other ":") false false false ⟨4, 5, 1, 4⟩ none [],
          .mk .identifier true false false ⟨5, 9, 1, 5⟩ none []],
      .mk .jsxAttribute true false false ⟨10, 24, 1, 10⟩ (some "attribute")
        [.mk .jsxNamespaceName true false false ⟨10, 20, 1, 10⟩ none
          [.mk .identifier true false false ⟨10, 15, 1, 10⟩ none [],
            .mk (.other ":") false false false ⟨15, 16, 1, 15⟩ none [],
            .mk .identifier true false false ⟨16, 20, 1, 16⟩ none []],
          .mk (.other "=") false false false ⟨20, 21, 1, 20⟩ none [],
          .mk .jsxExpression true false false ⟨21, 24, 1, 21⟩ none
            [.mk (.other "\x7b") false false false ⟨21, 22, 1, 21⟩ none [],
              .mk .identifier true false false ⟨22, 23, 1, 22⟩ none [],
              .mk (.other "\x7d") false false false ⟨23, 24, 1, 23⟩ none []]],
      .mk (.other "/>") false false false ⟨25, 27, 1, 25⟩ none []]

/-- The parse of `<svg:rect xlink:href={u} />;`. -/
def rectangleProgram : Parsed :=
  .mk .program true false false ⟨0, 28, 1, 0⟩ none
    [.mk .expressionStatement true false false ⟨0, 28, 1, 0⟩ none
      [rectangle, .mk (.other ";") false false false ⟨27, 28, 1, 27⟩ none []]]

/-- Both parts of the name of the attribute come out as identifiers, the name of the element does
not. -/
theorem rectangle_identifiers : ∃ n,
    rectangleProgram.FitsMarkup ∧ rectangle ∈ rectangleProgram.preorder ∧
      rectangle.isMarkup = true ∧
      convert (.ofString "<svg:rect xlink:href={u} />;") rectangle false = .ok n ∧
      n.identifiers.map (fun m => m.span.start) = [10, 16, 22] ∧
      ∃ ks, List.Forall₂ (fun e k =>
          convert (.ofString "<svg:rect xlink:href={u} />;") e false = .ok k)
          rectangle.embedded ks ∧
        n.identifiers = ks.flatMap Node.identifiers := by
  have fits : rectangleProgram.FitsMarkup := Parsed.fitsMarkup_iff.mpr (by cbv)
  have inside : rectangle ∈ rectangleProgram.preorder :=
    Parsed.mem_preorder_of_child List.mem_cons_self
      (Parsed.mem_preorder_of_child List.mem_cons_self (Parsed.self_mem_preorder _))
  have starts : (convert (.ofString "<svg:rect xlink:href={u} />;") rectangle false).map
      (fun n => n.identifiers.map fun m => m.span.start) = .ok [10, 16, 22] := by cbv
  cases converted : convert (.ofString "<svg:rect xlink:href={u} />;") rectangle false with
  | error f => rw [converted] at starts; cases starts
  | ok n =>
    rw [converted] at starts
    obtain ⟨-, embedded, -⟩ := convert_markup fits inside rfl converted
    exact ⟨n, fits, inside, rfl, rfl, Except.ok.inj starts, embedded⟩

/-- So they are taken for variables that the program reads. -/
theorem rectangle_reads :
    ((rectangleProgram.toTree (.ofString "<svg:rect xlink:href={u} />;")).bind fun tree =>
      (Report.ofTree true tree).map fun report => report.references.map Reference.name) =
      .ok ["xlink", "href", "u"] := by cbv

end Conversion

end FreeNames
