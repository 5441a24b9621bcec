import Mathlib
import FreeNames.Proofs.Conversion.Uniform
import FreeNames.Proofs.Tree.Layout

/-!
# Chains by plain recursion

The template of a chain is built along its spine: only the innermost operand is a hole, and the
links are put around it from the inside out.  Plain recursion knows nothing of spines.  It converts
the operand of a link like any other part, and then builds the one link around it.

* `Conversion.convertRecursively` is the conversion by plain recursion.
* `Conversion.fill_chain_eq` compares both at one link, `Conversion.convertRecursively_eq` on a
  whole parse.
* `Conversion.IsLinkOf` says what one link of a chain becomes, given the node of its operand, and
  `Conversion.converts_recursively` puts both together.
-/

namespace FreeNames

/-- Equality is a variation. -/
theorem Variation.equality : Variation (· = ·) where
  refl _ := rfl
  symbol same := by rw [same]
  isNamed same := by rw [same]
  span same := by rw [same]
  children := by
    rintro p _ rfl
    exact .refl fun c _ => .same rfl rfl

/-- A node seen from two parses. -/
theorem Inside.Alike.of_eq {w w' : Parsed} {src : Source} {x : Inside w} {x' : Inside w'}
    (same : x.parsed = x'.parsed) : x.Alike src (· = ·) x' :=
  ⟨same, fun _ equal _ => by rw [equal]⟩

namespace Conversion

/-! ## Conversion by plain recursion -/

section

variable {w : Parsed} {src : Source} {x : Inside w} {q : Part w}

/-- A link around its operand, which is a part like any other. -/
def linkAround (src : Source) (x : Inside w) : Template w :=
  match chainOperand x with
  | .error f => .fault f
  | .ok operand => linkTemplate src x (operand.map .hole)

/-- The template of a node, if there are no chains but only links. -/
def recursiveTemplate (src : Source) (inObject : Bool) (x : Inside w) : Template w :=
  if x.symbol.operandField?.isSome then linkAround src x else template src inObject x

/-- Convert a node of a parse by plain recursion. -/
def convertRecursively (src : Source) (p : Parsed) (inObject : Bool) : Except Fault Node :=
  (recursiveTemplate src inObject p.inside).fill fun q => convertRecursively src q.parsed q.inObject
termination_by sizeOf p
decreasing_by exact q.lt

/-- The rest of a chain is filled with what the operand is converted to. -/
theorem fill_operandTemplate (q : Part w) :
    (operandTemplate src q).fill (Part.converted src) = Part.converted src q := by
  rw [operandTemplate]
  split
  · next link =>
    have alike : q.inside.Alike src (· = ·) q.parsed.inside := .of_eq rfl
    have same := chain_same Variation.equality alike link
    rw [Part.converted, convert_eq, template_of_isLink (x := q.parsed.inside) link]
    exact same.symm
  · rfl

/-- A chain is filled like its outermost link around the conversion of the operand. -/
theorem fill_chain_eq (link : x.symbol.operandField?.isSome = true) :
    (chain src x).fill (Part.converted src) = (linkAround src x).fill (Part.converted src) := by
  rw [linkAround]
  cases ho : chainOperand x with
  | error f => rw [chain_of_error ho]
  | ok operand =>
    cases operand with
    | none =>
      rw [chain_of_none ho]
      rfl
    | some q =>
      have operand : (Template.hole q).Same src (operandTemplate src q) := by
        rw [Template.Same, fill_operandTemplate, Template.fill]
      rw [fill_chain ho]
      exact linkTemplate_same Variation.equality (.of_eq rfl) link (.some operand)

/-- Plain recursion gives the same node, or the same fault. -/
theorem convertRecursively_eq (src : Source) (p : Parsed) (inObject : Bool) :
    convertRecursively src p inObject = convert src p inObject := by
  induction size : sizeOf p using Nat.strongRecOn generalizing p inObject with | ind k ih => ?_
  have parts : (fun q : Part p => convertRecursively src q.parsed q.inObject) =
      Part.converted src := funext fun q => ih _ (size ▸ q.lt) q.parsed q.inObject rfl
  rw [convertRecursively, convert_eq, parts, recursiveTemplate]
  split
  · next link =>
    rw [template_of_isLink link]
    exact (fill_chain_eq link).symm
  · rfl

end

end Conversion

/-! ## What becomes of a link -/

/-- The operand of a link; the word `import` in front of a call is none. -/
def Parsed.linkOperand? (p : Parsed) : Option Parsed :=
  (p.symbol.operandField?.bind p.field?).filter fun q =>
    !(p.symbol = .callExpression && q.symbol = .importWord)

namespace Conversion

/-- The kind of node that a link becomes; a call without an operand imports a module. -/
def linkKind (src : Source) (p : Parsed) (operand : Option Node) : Kind :=
  match p.symbol, operand with
  | .memberExpression, _ | .subscriptExpression, _ => .memberExpression
  | .binaryExpression, _ =>
    if isLogical src p.inside then .logicalExpression else .binaryExpression
  | _, none => .importExpression
  | _, some _ =>
    if (p.field? "arguments").any fun q => q.symbol = .templateString then .taggedTemplateExpression
    else .callExpression

/-- The text of the operator of a link. -/
def operatorText? (src : Source) (p : Parsed) : Option Text :=
  (p.field? "operator").bind fun q => src.text? q.span

/-- A link of a parse with its own place, its own operator and its own marks, around the node of its
operand. -/
structure IsLinkOf (src : Source) (p : Parsed) (operand : Option Node) (n : Node) : Prop where
  span : n.span = p.span
  kind : n.kind = linkKind src p operand
  operand : ∀ field ∈ n.kind.operandField?, n.field? field = some (.ofOption operand)
  computed : n.kind = .memberExpression →
    n.field? "computed" = some (.bool (p.symbol = .subscriptExpression))
  optional : n.kind = .memberExpression ∨ n.kind = .callExpression →
    n.field? "optional" = some (.bool (p.field? "optional_chain").isSome)
  operator : p.symbol = .binaryExpression → ∃ t, operatorText? src p = some t ∧
    n.text "operator" = .ok t ∧ (n.kind = .logicalExpression ↔ t ∈ logicalOperators)

section

variable {p : Parsed} {src : Source} {n : Node} {o : Option (Part p)}

/-- A template without dropped parts gives a node of its kind and place, with all of its fields. -/
theorem fields_of_fill {w : Parsed} {convert : Part w → Except Fault Node} {kind : Kind}
    {span : Span} {fields : List (String × Slot w)}
    (h : (Template.node kind span fields).fill convert = .ok n) :
    n.kind = kind ∧ n.span = span ∧ ∀ name slot, fields.lookup name = some slot →
      ∃ v, Template.fillSlot convert slot = .ok v ∧ n.field? name = some v := by
  obtain ⟨vs, filled, rfl⟩ := Template.exists_fields_of_fill h
  refine ⟨rfl, rfl, fun name slot found => ?_⟩
  show ∃ v, _ ∧ vs.lookup name = some v
  clear h
  induction fields generalizing vs with
  | nil => cases found
  | cons f fields ih =>
    obtain ⟨v, rest, hv, hrest, rfl⟩ := Template.exists_of_fillFields_cons filled
    rw [List.lookup_cons] at found ⊢
    split at found
    · cases found
      exact ⟨v, hv, rfl⟩
    · exact ih rest hrest found

theorem field?_eq_map_parsed (p : Parsed) (name : String) :
    p.field? name = (p.inside.field? name).map Part.parsed := (p.inside.field?_map_parsed name).symm

/-- The operand of a link is filled with the node of its part, if it has one. -/
theorem exists_of_operandSlot {v : Value}
    (h : Template.fillSlot (Part.converted src) (operandSlot (o.map .hole)) = .ok v) :
    ∃ operand, Option.Rel (fun q m => Part.converted src q = .ok m) o operand ∧
      v = .ofOption operand := by
  cases o with
  | none =>
    rw [Option.map_none, operandSlot, Slot.null, Template.fillSlot] at h
    cases h
    exact ⟨none, .none, rfl⟩
  | some q =>
    obtain ⟨m, hm, rfl⟩ := Template.exists_of_fillSlot_one h
    rw [Template.fill] at hm
    exact ⟨some m, .some hm, rfl⟩

/-- The slot of an operator is filled with its text. -/
theorem exists_of_operator {v : Value}
    (h : Template.fillSlot (Part.converted src) (p.inside.textOf src "operator") = .ok v) :
    ∃ t, operatorText? src p = some t ∧ v = .text t := by
  rw [operatorText?, field?_eq_map_parsed]
  unfold Inside.textOf at h
  split at h
  · next q hq =>
    unfold Slot.text at h
    split at h
    · next t ht =>
      rw [Template.fillSlot] at h
      cases h
      exact ⟨t, by rw [hq]; exact ht, rfl⟩
    · obtain ⟨m, hm, -⟩ := Template.exists_of_fillSlot_one h
      rw [Template.fill] at hm
      cases hm
  · obtain ⟨m, hm, -⟩ := Template.exists_of_fillSlot_one h
    rw [Template.fill] at hm
    cases hm

/-- An access, computed or not. -/
theorem isLinkOf_access {key : Slot p} (computed : Bool)
    (own : p.symbol = if computed then .subscriptExpression else .memberExpression)
    (h : (Template.node .memberExpression p.inside.span [("object", operandSlot (o.map .hole)),
      ("property", key), ("computed", .bool computed),
      ("optional", .bool (p.inside.field? "optional_chain").isSome)]).fill
        (Part.converted src) = .ok n) :
    ∃ operand, Option.Rel (fun q m => Part.converted src q = .ok m) o operand ∧
      IsLinkOf src p operand n := by
  obtain ⟨kind, span, has⟩ := fields_of_fill h
  obtain ⟨v, object, hv⟩ := has "object" _ rfl
  obtain ⟨_, mark, hc⟩ := has "computed" _ rfl
  obtain ⟨_, chain, ho⟩ := has "optional" _ rfl
  rw [Slot.bool, Template.fillSlot] at mark chain
  cases mark
  cases chain
  obtain ⟨operand, rel, rfl⟩ := exists_of_operandSlot object
  refine ⟨operand, rel, span, ?_, ?_, fun _ => ?_, fun _ => ?_, fun binary => ?_⟩
  · rw [kind]
    unfold linkKind
    rw [own]
    cases computed <;> rfl
  · rw [kind]
    rintro _ ⟨⟩
    exact hv
  · rw [hc, own]
    cases computed <;> rfl
  · rw [ho, field?_eq_map_parsed, Option.isSome_map]
  · rw [own] at binary
    cases computed <;> cases binary

/-- An operator. -/
theorem isLinkOf_binary (own : p.symbol = .binaryExpression)
    (h : (binaryTemplate src p.inside (o.map .hole)).fill (Part.converted src) = .ok n) :
    ∃ operand, Option.Rel (fun q m => Part.converted src q = .ok m) o operand ∧
      IsLinkOf src p operand n := by
  obtain ⟨kind, span, has⟩ := fields_of_fill h
  obtain ⟨v, left, hv⟩ := has "left" _ rfl
  obtain ⟨u, word, hu⟩ := has "operator" _ rfl
  obtain ⟨t, ht, rfl⟩ := exists_of_operator (Template.fillSlot_of_turn word)
  obtain ⟨operand, rel, rfl⟩ := exists_of_operandSlot left
  have logical : isLogical src p.inside = true ↔ t ∈ logicalOperators := by
    have read := ht
    rw [operatorText?, field?_eq_map_parsed, Option.bind_map] at read
    rw [isLogical, show (p.inside.field? "operator").bind (fun q => src.text? q.span) = some t
      from read, Option.any_some, List.contains_iff_mem]
  have mark : n.kind = .logicalExpression ∨ n.kind = .binaryExpression := by
    rw [kind]
    split
    · exact Or.inl rfl
    · exact Or.inr rfl
  refine ⟨operand, rel, span, ?_, ?_, ?_, ?_, fun _ => ⟨t, ht, ?_, ?_⟩⟩
  · rw [kind]
    unfold linkKind
    rw [own]
  · rcases mark with hk | hk <;> rw [hk] <;> rintro _ ⟨⟩ <;> exact hv
  · rcases mark with hk | hk <;> simp [hk]
  · rcases mark with hk | hk <;> simp [hk]
  · rw [Node.text, hu]
  · rw [kind, ← logical]
    split <;> simp_all

/-- A call, a tagged template or an import. -/
theorem isLinkOf_call (own : p.symbol = .callExpression)
    (h : (callTemplate p.inside (o.map .hole)).fill (Part.converted src) = .ok n) :
    ∃ operand, Option.Rel (fun q m => Part.converted src q = .ok m) o operand ∧
      IsLinkOf src p operand n := by
  have other : p.symbol ≠ .binaryExpression := by simp [own]
  have tagged : (p.field? "arguments").any (fun q => q.symbol = .templateString) =
      (p.inside.field? "arguments").any fun q => q.symbol = .templateString := by
    rw [field?_eq_map_parsed, Option.any_map]
    rfl
  cases o with
  | none =>
    obtain ⟨kind, span, -⟩ := fields_of_fill h
    refine ⟨none, .none, span, ?_, ?_, ?_, ?_, fun binary => absurd binary other⟩
    · rw [kind]
      unfold linkKind
      rw [own]
    · simp [kind, Kind.operandField?]
    · simp [kind]
    · simp [kind]
  | some q =>
    unfold callTemplate at h
    simp only [Option.map_some] at h
    split at h
    · next template =>
      obtain ⟨kind, span, has⟩ := fields_of_fill h
      obtain ⟨v, tag, hv⟩ := has "tag" _ rfl
      obtain ⟨operand, rel, rfl⟩ := exists_of_operandSlot (o := some q) tag
      refine ⟨operand, rel, span, ?_, ?_, ?_, ?_, fun binary => absurd binary other⟩
      · cases rel
        rw [kind]
        unfold linkKind
        rw [own]
        exact (if_pos (tagged.trans template)).symm
      · rw [kind]
        rintro _ ⟨⟩
        exact hv
      · simp [kind]
      · simp [kind]
    · next plain =>
      obtain ⟨kind, span, has⟩ := fields_of_fill h
      obtain ⟨v, callee, hv⟩ := has "callee" _ rfl
      obtain ⟨_, chain, ho⟩ := has "optional" _ rfl
      obtain ⟨operand, rel, rfl⟩ := exists_of_operandSlot (o := some q) callee
      rw [Slot.bool, Template.fillSlot] at chain
      cases chain
      refine ⟨operand, rel, span, ?_, ?_, ?_, fun _ => ?_, fun binary => absurd binary other⟩
      · cases rel
        rw [kind]
        unfold linkKind
        rw [own]
        exact (if_neg (tagged ▸ plain)).symm
      · rw [kind]
        rintro _ ⟨⟩
        exact hv
      · simp [kind]
      · rw [ho, field?_eq_map_parsed, Option.isSome_map]

theorem exists_isLinkOf (link : p.symbol.operandField?.isSome = true)
    (h : (linkTemplate src p.inside (o.map .hole)).fill (Part.converted src) = .ok n) :
    ∃ operand, Option.Rel (fun q m => Part.converted src q = .ok m) o operand ∧
      IsLinkOf src p operand n := by
  unfold linkTemplate at h
  rcases Symbol.eq_of_isLink link with hs | hs | hs | hs <;>
    rw [show p.inside.symbol = _ from hs] at h
  · exact isLinkOf_access false hs h
  · exact isLinkOf_access true hs h
  · exact isLinkOf_call hs h
  · exact isLinkOf_binary hs h

/-- The operand of a link as a part and as a node of the parse. -/
theorem linkOperand?_eq (link : p.symbol.operandField?.isSome = true)
    (h : chainOperand p.inside = .ok o) : p.linkOperand? = o.map Part.parsed := by
  unfold chainOperand at h
  split at h
  · next hs =>
    split at h
    · next q hq =>
      cases h
      have field : p.field? "function" = some q.parsed := by rw [field?_eq_map_parsed, hq]; rfl
      rw [Parsed.linkOperand?, show p.symbol = _ from hs, Symbol.operandField?, Option.bind_some,
        field, Option.filter_some]
      by_cases word : q.symbol = .importWord
      · simp [word, show q.parsed.symbol = _ from word]
      · simp [word, show q.parsed.symbol ≠ _ from word]
    · cases h
  · next other =>
    cases h
    have noCall : p.symbol ≠ .callExpression := other
    obtain ⟨name, hname⟩ := Option.isSome_iff_exists.mp link
    rw [Parsed.linkOperand?, hname, show p.inside.symbol.operandField? = some name from hname,
      Option.bind_some, Option.bind_some, field?_eq_map_parsed]
    cases p.inside.field? name with
    | none => rfl
    | some q => simp [noCall]

end

/-- Plain recursion gives the same node as the loop over the spine, or the same fault, for chains of
any length and mixture.  So each link of a chain becomes a node with its own place, operator and
marks, around what its operand is converted to by itself. -/
theorem converts_recursively (src : Source) (p : Parsed) (inObject : Bool) :
    convertRecursively src p inObject = convert src p inObject ∧
      ∀ n, p.symbol.operandField?.isSome = true → convert src p inObject = .ok n →
        ∃ operand, Option.Rel (fun q m => convert src q false = .ok m) p.linkOperand? operand ∧
          IsLinkOf src p operand n := by
  refine ⟨convertRecursively_eq src p inObject, fun n link h => ?_⟩
  rw [convert_eq, template_of_isLink (x := p.inside) link] at h
  replace h : (linkAround src p.inside).fill (Part.converted src) = .ok n :=
    (fill_chain_eq (x := p.inside) link).symm.trans h
  unfold linkAround at h
  split at h
  · rw [Template.fill] at h
    cases h
  · next o ho =>
    obtain ⟨operand, rel, isLink⟩ := exists_isLinkOf link h
    refine ⟨operand, ?_, isLink⟩
    rw [linkOperand?_eq link ho]
    cases rel with
    | none => exact .none
    | @some q m hm =>
      refine .some ?_
      have plain : q.inObject = false := by
        rw [Inside.inObject_of_mem_parts (mem_parts_of_chainOperand ho)]
        have noObject : p.symbol ≠ .object := fun object => by rw [object] at link; cases link
        exact decide_eq_false noObject
      rwa [Part.converted, plain] at hm

/-- The parse of `import(x).then(f) || d`. -/
def importThen : Parsed :=
  .mk .binaryExpression true false false ⟨0, 22, 1, 0⟩ none
    [.mk .callExpression true false false ⟨0, 17, 1, 0⟩ (some "left")
      [.mk .memberExpression true false false ⟨0, 14, 1, 0⟩ (some "function")
        [.mk .callExpression true false false ⟨0, 9, 1, 0⟩ (some "object")
          [.mk .importWord true false false ⟨0, 6, 1, 0⟩ (some "function") [],
            .mk (.other "arguments") true false false ⟨6, 9, 1, 6⟩ (some "arguments")
              [.mk .identifier true false false ⟨7, 8, 1, 7⟩ none []]],
          .mk (.other ".") false false false ⟨9, 10, 1, 9⟩ none [],
          .mk .propertyIdentifier true false false ⟨10, 14, 1, 10⟩ (some "property") []],
        .mk (.other "arguments") true false false ⟨14, 17, 1, 14⟩ (some "arguments")
          [.mk .identifier true false false ⟨15, 16, 1, 15⟩ none []]],
      .mk (.other "||") false false false ⟨18, 20, 1, 18⟩ (some "operator") [],
      .mk .identifier true false false ⟨21, 22, 1, 21⟩ (some "right") []]

/-- The operator becomes a logical one, and the import ends the chain. -/
theorem importThen_converts : ∃ n,
    convertRecursively (.ofString "import(x).then(f) || d") importThen false = .ok n ∧
    convert (.ofString "import(x).then(f) || d") importThen false = .ok n ∧
    n.preorder.map (fun m => (m.kind, m.span.stop)) = [(.logicalExpression, 22),
      (.callExpression, 17), (.memberExpression, 14), (.importExpression, 9), (.identifier, 8),
      (.identifier, 14), (.identifier, 16), (.identifier, 22)] ∧
    ∃ operand, IsLinkOf (.ofString "import(x).then(f) || d") importThen operand n := by
  have shape : (convert (.ofString "import(x).then(f) || d") importThen false).map
      (fun n => n.preorder.map fun m => (m.kind, m.span.stop)) = .ok [(.logicalExpression, 22),
      (.callExpression, 17), (.memberExpression, 14), (.importExpression, 9), (.identifier, 8),
      (.identifier, 14), (.identifier, 16), (.identifier, 22)] := by cbv
  obtain ⟨same, links⟩ := converts_recursively (.ofString "import(x).then(f) || d") importThen false
  cases h : convert (.ofString "import(x).then(f) || d") importThen false with
  | error f => rw [h] at shape; cases shape
  | ok n =>
    rw [h] at shape
    obtain ⟨operand, -, isLink⟩ := links n rfl h
    exact ⟨n, same.trans h, rfl, Except.ok.inj shape, operand, isLink⟩

end Conversion

end FreeNames
