import Mathlib
import FreeNames.Proofs.Conversion.Same
import FreeNames.Proofs.Conversion.Parts

/-!
# Elements and holes

An array, and a pattern that looks like one, is converted entry by entry: an element in its place,
and null for a hole.  The commas alone say where the holes are, and one at the end may or may not
stand for one.

* `Parsed.Writes` are the tokens that write a list of elements and holes, and `Parsed.Brackets` are
  the nodes that hold them, with comments anywhere.
* `Template.fillSlots_cons_eq` fills a list one entry after the other, and
  `Conversion.convert_brackets` says so of arrays.
-/

namespace FreeNames

/-! ## Lists with holes in a parse -/

namespace Parsed

/-- What may be an element of an array: no bracket, no comma and no comment. -/
def IsElement (p : Parsed) : Prop :=
  p.symbol.isExtra = false ∧ p.symbol ≠ .openBracket ∧ p.symbol ≠ .closeBracket ∧ p.symbol ≠ .comma

/-- Tokens that write a list of elements and holes.  A comma ends each entry; behind an element at
the end it may be left out. -/
inductive Writes : List (Option Parsed) → List Parsed → Prop
  | nil : Writes [] []
  | last {e : Parsed} (element : e.IsElement) : Writes [some e] [e]
  | element {e c : Parsed} {L : List (Option Parsed)} {tokens : List Parsed}
      (element : e.IsElement) (comma : c.symbol = .comma) (rest : Writes L tokens) :
      Writes (some e :: L) (e :: c :: tokens)
  | hole {c : Parsed} {L : List (Option Parsed)} {tokens : List Parsed}
      (comma : c.symbol = .comma) (rest : Writes L tokens) : Writes (none :: L) (c :: tokens)

/-- Comments and brackets are passed over where the entries of a list are read. -/
def isPassedOver (p : Parsed) : Bool :=
  p.symbol.isExtra || p.symbol = .openBracket || p.symbol = .closeBracket

theorem IsElement.isPassedOver_eq_false {e : Parsed} (h : e.IsElement) : e.isPassedOver = false := by
  obtain ⟨extra, opening, closing, -⟩ := h
  simp [isPassedOver, extra, opening, closing]

theorem isPassedOver_of_comma {c : Parsed} (h : c.symbol = .comma) : c.isPassedOver = false := by
  rw [isPassedOver, h]
  rfl

theorem Writes.isPassedOver_eq_false {L : List (Option Parsed)} {tokens : List Parsed}
    (h : Writes L tokens) : ∀ t ∈ tokens, t.isPassedOver = false := by
  induction h with
  | nil => exact List.forall_mem_nil _
  | last element => exact List.forall_mem_singleton.mpr element.isPassedOver_eq_false
  | element element comma _ ih =>
    exact List.forall_mem_cons.mpr ⟨element.isPassedOver_eq_false,
      List.forall_mem_cons.mpr ⟨isPassedOver_of_comma comma, ih⟩⟩
  | hole comma _ ih => exact List.forall_mem_cons.mpr ⟨isPassedOver_of_comma comma, ih⟩

/-- The node writes a list of elements and holes between brackets, with comments anywhere. -/
def Brackets (p : Parsed) (L : List (Option Parsed)) : Prop :=
  ∃ opening tokens closing, opening.symbol = .openBracket ∧ closing.symbol = .closeBracket ∧
    p.children.filter (fun c => !c.symbol.isExtra) = opening :: tokens ++ [closing] ∧
    Writes L tokens

/-- Without comments and brackets, the tokens are left. -/
theorem Brackets.writes {p : Parsed} {L : List (Option Parsed)} (h : p.Brackets L) :
    Writes L (p.children.filter fun c => !c.isPassedOver) := by
  obtain ⟨opening, tokens, closing, ho, hc, children, writes⟩ := h
  have extra : (p.children.filter fun c => !c.isPassedOver) =
      (p.children.filter fun c => !c.symbol.isExtra).filter fun c => !c.isPassedOver := by
    rw [List.filter_filter]
    refine List.filter_congr fun c _ => ?_
    cases extra : c.symbol.isExtra <;> simp [isPassedOver, extra]
  have kept : tokens.filter (fun c => !c.isPassedOver) = tokens :=
    List.filter_eq_self.mpr fun c hc => by rw [writes.isPassedOver_eq_false c hc]; rfl
  have opens : opening.isPassedOver = true := by simp [isPassedOver, ho]
  have closes : closing.isPassedOver = true := by simp [isPassedOver, hc]
  rw [extra, children, List.cons_append, List.filter_cons_of_neg (by simp [opens]),
    List.filter_append, kept, List.filter_cons_of_neg (by simp [closes]), List.filter_nil,
    List.append_nil]
  exact writes

end Parsed

/-! ## Filling lists -/

namespace Template

variable {w : Parsed} {convert : Part w → Except Fault Node}

/-- Where all faults come in the first turn, the first of a list is that of its first entry. -/
theorem fillSlots_cons_eq {slot : Slot w} {slots : List (Slot w)} {v : Except Fault Value}
    {vs : Except Fault (List Value)} (first : fillSlot convert slot = v.mapError (TurnFault.mk 0))
    (rest : fillSlots convert slots = vs.mapError (TurnFault.mk 0)) :
    fillSlots convert (slot :: slots) =
      (do let a ← v; let as ← vs; pure (a :: as)).mapError (TurnFault.mk 0) := by
  rw [fillSlots, first, rest]
  cases v <;> cases vs <;> rfl

/-- A node with nothing but a list is there if the entries are. -/
theorem fill_list {kind : Kind} {span : Span} {name : String} {slots : List (Slot w)}
    {vs : Except Fault (List Value)}
    (filled : fillSlots convert slots = vs.mapError (TurnFault.mk 0)) :
    fill convert (.node kind span [(name, .many slots)]) =
      vs.map fun vs => .mk 0 kind span [(name, .list vs)] := by
  rw [fill, fillFields, fillFields, fillSlots, fillSlot, filled]
  cases vs <;> rfl

end Template

namespace Conversion

variable {w : Parsed} {src : Source} {L : List (Option Parsed)} {qs : List (Part w)}

/-- What a child of a node other than an object literal becomes. -/
def childValue (src : Source) (c : Parsed) : Except Fault Value :=
  (convert src c false).map .node

theorem fillSlot_hole {q : Part w} (plain : q.inObject = false) :
    Template.fillSlot (Part.converted src) (.hole q) =
      (childValue src q.parsed).mapError (TurnFault.mk 0) := by
  rw [Slot.hole, Template.fillSlot, Template.fill, Part.converted, plain, childValue]
  cases convert src q.parsed false <;> rfl

/-- A name becomes an identifier. -/
theorem childValue_identifier {c : Parsed} {t : Text} (h : c.symbol = .identifier)
    (text : src.text? c.span = some t) :
    childValue src c = .ok (.node (.mk 0 .identifier c.span [("name", .text t)])) := by
  have table : template src false c.inside = identifier src c.span := by
    have hs : c.inside.symbol = .identifier := h
    simp only [template, hs]
    rfl
  rw [childValue, convert_eq, table, identifier, Slot.text, text]
  rfl

/-! ## Arrays -/

/-- What an entry of an array becomes. -/
def entryValue (src : Source) : Option Parsed → Except Fault Value
  | none => .ok .null
  | some e => childValue src e

theorem elementsFrom_cons (expecting : Bool) (q : Part w) (qs : List (Part w)) :
    elementsFrom expecting (q :: qs) =
      if q.parsed.isPassedOver then elementsFrom expecting qs
      else if q.parsed.symbol = .comma then
        if expecting then .null :: elementsFrom true qs else elementsFrom true qs
      else .hole q :: elementsFrom false qs := by
  rw [elementsFrom]
  rfl

theorem elementsFrom_filter_isPassedOver (expecting : Bool) (qs : List (Part w)) :
    elementsFrom expecting (qs.filter fun q => !q.parsed.isPassedOver) =
      elementsFrom expecting qs := by
  induction qs generalizing expecting with
  | nil => rfl
  | cons q qs ih =>
    cases passed : q.parsed.isPassedOver with
    | true => rw [List.filter_cons_of_neg (by simp [passed]), elementsFrom_cons, if_pos passed, ih]
    | false =>
      rw [List.filter_cons_of_pos (by simp [passed]), elementsFrom_cons, elementsFrom_cons,
        ih expecting, ih true, ih false]

/-- An element is a hole of the template. -/
theorem elementsFrom_element {q : Part w} (h : q.parsed.IsElement) (expecting : Bool) :
    elementsFrom expecting (q :: qs) = .hole q :: elementsFrom false qs := by
  rw [elementsFrom_cons, h.isPassedOver_eq_false, if_neg Bool.false_ne_true, if_neg h.2.2.2]

/-- A comma stands for a hole of the array only where an element is expected. -/
theorem elementsFrom_comma {q : Part w} (h : q.parsed.symbol = .comma) (expecting : Bool) :
    elementsFrom expecting (q :: qs) =
      if expecting then .null :: elementsFrom true qs else elementsFrom true qs := by
  rw [elementsFrom_cons, Parsed.isPassedOver_of_comma h, if_neg Bool.false_ne_true, if_pos h]

/-- The tokens of a list are filled with its entries. -/
theorem fillSlots_of_writes {tokens : List Parsed} (h : Parsed.Writes L tokens)
    (same : qs.map Part.parsed = tokens) (plain : ∀ q ∈ qs, q.inObject = false) :
    Template.fillSlots (Part.converted src) (elementsFrom true qs) =
      (L.mapM (entryValue src)).mapError (TurnFault.mk 0) := by
  induction h generalizing qs with
  | nil =>
    obtain rfl := List.map_eq_nil_iff.mp same
    rfl
  | last element =>
    obtain ⟨q, rfl, rfl⟩ := List.map_eq_singleton_iff.mp same
    rw [elementsFrom_element element, List.mapM_cons]
    exact Template.fillSlots_cons_eq (fillSlot_hole (plain q (List.mem_cons_self ..))) rfl
  | element element comma _ ih =>
    obtain ⟨q, others, rfl, rfl, tail⟩ := List.map_eq_cons_iff.mp same
    obtain ⟨r, others, rfl, rfl, rest⟩ := List.map_eq_cons_iff.mp tail
    obtain ⟨first, later⟩ := List.forall_mem_cons.mp plain
    rw [elementsFrom_element element, elementsFrom_comma comma, List.mapM_cons]
    exact Template.fillSlots_cons_eq (fillSlot_hole first)
      (ih rest (List.forall_mem_cons.mp later).2)
  | hole comma _ ih =>
    obtain ⟨q, others, rfl, rfl, rest⟩ := List.map_eq_cons_iff.mp same
    rw [elementsFrom_comma comma, if_pos rfl, List.mapM_cons]
    exact Template.fillSlots_cons_eq (v := .ok .null) rfl
      (ih rest (List.forall_mem_cons.mp plain).2)

/-- The parts of a list in brackets are filled with its entries. -/
theorem fillSlots_of_brackets {p : Parsed} (h : p.Brackets L) (notObject : p.symbol ≠ .object) :
    Template.fillSlots (Part.converted src) (elementsFrom true p.inside.parts) =
      (L.mapM (entryValue src)).mapError (TurnFault.mk 0) := by
  have parts : (p.inside.parts.filter fun q => !q.parsed.isPassedOver).map Part.parsed =
      p.children.filter fun c => !c.isPassedOver := by
    rw [← show p.inside.parts.map Part.parsed = p.children from p.inside.map_parsed_parts,
      List.filter_map]
    rfl
  rw [← elementsFrom_filter_isPassedOver]
  refine fillSlots_of_writes h.writes parts fun q hq => ?_
  have part := Inside.inObject_of_mem_parts (List.mem_of_mem_filter hq)
  exact part.trans (decide_eq_false notObject)

/-- What a run over a list gives, if it gives something, is there entry by entry. -/
theorem forall₂_of_mapM {α β ε : Type} {f : α → Except ε β} {as : List α} {bs : List β}
    (h : as.mapM f = .ok bs) : List.Forall₂ (fun a b => f a = .ok b) as bs := by
  induction as generalizing bs with
  | nil =>
    cases h
    exact .nil
  | cons a as ih =>
    rw [List.mapM_cons] at h
    cases first : f a with
    | error e => rw [first] at h; cases h
    | ok b =>
      cases rest : as.mapM f with
      | error e => rw [first, rest] at h; cases h
      | ok others =>
        rw [first, rest] at h
        cases h
        exact .cons first (ih rest)

/-- An array, or an array pattern, is converted entry by entry: each element in its place, and null
for each hole.  Only the elements can fail, and the first one that does decides. -/
theorem convert_brackets {p : Parsed} {kind : Kind} (inObject : Bool)
    (symbol : p.symbol = .array ∧ kind = .arrayExpression ∨
      p.symbol = .arrayPattern ∧ kind = .arrayPattern) (h : p.Brackets L) :
    convert src p inObject = (L.mapM (entryValue src)).map
        (fun vs => .mk 0 kind p.span [("elements", .list vs)]) ∧
      ∀ n, convert src p inObject = .ok n → ∃ vs, n.field? "elements" = some (.list vs) ∧
        List.Forall₂ (fun entry v => entryValue src entry = .ok v) L vs := by
  have notObject : p.symbol ≠ .object := by rcases symbol with ⟨hs, -⟩ | ⟨hs, -⟩ <;> simp [hs]
  have table : template src inObject p.inside =
      .node kind p.span [("elements", elements p.inside)] := by
    rcases symbol with ⟨h, rfl⟩ | ⟨h, rfl⟩
    · have hs : p.inside.symbol = .array := h
      simp only [template, hs]
      rfl
    · have hs : p.inside.symbol = .arrayPattern := h
      simp only [template, hs]
      rfl
  have filled : convert src p inObject = (L.mapM (entryValue src)).map
      fun vs => .mk 0 kind p.span [("elements", .list vs)] := by
    rw [convert_eq, table]
    exact Template.fill_list (fillSlots_of_brackets h notObject)
  refine ⟨filled, fun n hn => ?_⟩
  rw [filled] at hn
  cases values : L.mapM (entryValue src) with
  | error f => rw [values] at hn; cases hn
  | ok vs =>
    rw [values] at hn
    cases hn
    exact ⟨vs, rfl, forall₂_of_mapM values⟩

/-- The name in `[,x/**/,,]`. -/
def nameAmongHoles : Parsed := .mk .identifier true false false ⟨2, 3, 1, 2⟩ none []

/-- The parse of `[,x/**/,,]`. -/
def holesAround : Parsed :=
  .mk .array true false false ⟨0, 10, 1, 0⟩ none
    [.mk .openBracket false false false ⟨0, 1, 1, 0⟩ none [],
      .mk .comma false false false ⟨1, 2, 1, 1⟩ none [],
      nameAmongHoles,
      .mk .comment true false false ⟨3, 7, 1, 3⟩ none [],
      .mk .comma false false false ⟨7, 8, 1, 7⟩ none [],
      .mk .comma false false false ⟨8, 9, 1, 8⟩ none [],
      .mk .closeBracket false false false ⟨9, 10, 1, 9⟩ none []]

/-- The first comma is a hole, the second ends the element, and the third is a hole again. -/
theorem holesAround_converts :
    holesAround.symbol = .array ∧ holesAround.Brackets [none, some nameAmongHoles, none] ∧
      convert (.ofString "[,x/**/,,]") holesAround false =
        .ok (.mk 0 .arrayExpression ⟨0, 10, 1, 0⟩ [("elements", .list [.null,
          .node (.mk 0 .identifier ⟨2, 3, 1, 2⟩ [("name", .text "x")]), .null])]) := by
  have element : nameAmongHoles.IsElement := ⟨rfl, by decide, by decide, by decide⟩
  have brackets : holesAround.Brackets [none, some nameAmongHoles, none] :=
    ⟨_, _, _, rfl, rfl, rfl, .hole rfl (.element element rfl (.hole rfl .nil))⟩
  have text : (Source.ofString "[,x/**/,,]").text? nameAmongHoles.span = some "x" := by cbv
  have entries : [none, some nameAmongHoles, none].mapM (entryValue (.ofString "[,x/**/,,]")) =
      .ok [.null, .node (.mk 0 .identifier ⟨2, 3, 1, 2⟩ [("name", .text "x")]), .null] := by
    simp only [List.mapM_cons, List.mapM_nil, entryValue, childValue_identifier rfl text]
    rfl
  refine ⟨rfl, brackets, ?_⟩
  rw [(convert_brackets false (.inl ⟨rfl, rfl⟩) brackets).1, entries]
  rfl

end Conversion

end FreeNames
