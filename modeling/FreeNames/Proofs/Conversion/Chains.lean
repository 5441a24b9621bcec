import FreeNames.Conversion.Chains
import FreeNames.Proofs.Conversion.Parts

/-!
# Chains keep their variables

The template of a chain shows every variable that is to be kept of the chain.  One link shows
what its own parts hold, and what its operand holds if the template put into it does
(`linkTemplate_shows`); the links of a chain follow by induction along its spine.  A call of
the word `import` is a link without an operand, and it keeps its first argument only.
-/

namespace FreeNames.Conversion

variable {w ℓ : Parsed} {src : Source} {x : Inside w} {q : Part w} {setting : Setting}

theorem operandSlot_shows {inner : Option (Template w)}
    (shows : ∃ t, inner = some t ∧ t.Shows ℓ) : (operandSlot inner).Shows ℓ := by
  obtain ⟨t, rfl, ht⟩ := shows
  exact .one ht

/-! ## Calls -/

theorem isImportCall_iff (hs : x.parsed.symbol = .callExpression) {operand : Option (Part w)}
    (ho : chainOperand x = .ok operand) : x.parsed.isImportCall = true ↔ operand = none := by
  have hs' : x.symbol = .callExpression := hs
  simp only [chainOperand, hs'] at ho
  rw [Parsed.isImportCall, hs, ← Inside.field?_map_parsed]
  cases hf : x.field? "function" with
  | none => rw [hf] at ho; cases ho
  | some f =>
    rw [hf] at ho
    cases ho
    have same : f.symbol = f.parsed.symbol := rfl
    by_cases word : f.parsed.symbol = .importWord <;> simp [same, word]

/-- The first argument of a call of the word `import`. -/
theorem firstOrNull_shows_of_importCall (h : q.parsed.Holds .importCall ℓ) {s : Symbol}
    (hs : q.parsed.symbol = s) (hv : s.isVariable = false) (keeps : s.keepsAll = true) :
    q.inside.firstOrNull.Shows ℓ := by
  subst hs
  obtain ⟨c, -, kept, holds, plain⟩ := h.exists_named hv
  have names : q.inside.named.map Part.parsed = q.parsed.named := q.inside.named_map_parsed
  rw [Parsed.kept, if_pos rfl, ← names, ← List.map_take] at kept
  obtain ⟨r, hr, rfl⟩ := List.mem_map.mp kept
  obtain ⟨object, -⟩ := Symbol.ne_of_keepsAll keeps
  have parts := Inside.mem_parts_of_named (List.mem_of_mem_take hr)
  rw [Parsed.settingOf_of_keepsAll keeps,
    ← Inside.setting_eq_plain (x := q.inside) parts object] at holds
  have head : q.inside.named.head? = some r := by
    cases hn : q.inside.named with
    | nil => rw [hn] at hr; cases hr
    | cons r' rest =>
      rw [hn] at hr
      rw [List.mem_singleton.mp hr]
      rfl
  rw [Inside.firstOrNull, head]
  exact .hole ⟨holds, plain.resolve_left object⟩

/-- The part of a call that holds the variable, and its field. -/
theorem exists_field_of_call (h : x.parsed.Holds setting ℓ)
    (hs : x.parsed.symbol = .callExpression) :
    ∃ q, q.parsed.Holds (x.parsed.settingOf q.parsed) ℓ ∧ q.setting = .plain ∧
      q.symbol ≠ .shorthandPropertyIdentifier ∧
      ∃ name ∈ ["function", "arguments", "optional_chain"], x.field? name = some q := by
  obtain ⟨c, hc, -, holds, plain⟩ := h.exists_named (by rw [hs]; rfl)
  rw [← x.named_map_parsed] at hc
  obtain ⟨q, hq, rfl⟩ := List.mem_map.mp hc
  have notObject : x.parsed.symbol ≠ .object := by rw [hs]; decide
  have setting := Inside.setting_eq_plain (Inside.mem_parts_of_named hq) notObject
  refine ⟨q, holds, setting, plain.resolve_left notObject, ?_⟩
  rcases Inside.exists_field (h.standsInFields hs rfl).1 hq with field | free
  · exact field
  · cases free

/-- Only the arguments of an import are looked at in a way of their own. -/
theorem settingOf_of_call (hs : x.parsed.symbol = .callExpression)
    (other : x.parsed.isImportCall = false ∨ q.parsed.field ≠ some "arguments") :
    x.parsed.settingOf q.parsed = .plain := by
  rw [Parsed.settingOf, if_neg (by rw [hs]; decide), if_neg]
  rcases other with word | field
  · simp [word]
  · simp [field]

/-- The variable is in what the call is made on. -/
theorem callTemplate_shows_of_function (hs : x.parsed.symbol = .callExpression)
    (hf : x.field? "function" = some q) (holds : q.Covers ℓ)
    {operand : Option (Part w)} (ho : chainOperand x = .ok operand) {inner : Option (Template w)}
    (shows : ∀ q, operand = some q → q.Covers ℓ → ∃ t, inner = some t ∧ t.Shows ℓ) :
    (callTemplate x inner).Shows ℓ := by
  have notWord : q.symbol ≠ .importWord := by
    intro word
    have constant := holds.1.isConstant_eq_false
    rw [show q.parsed.symbol = .importWord from word] at constant
    cases constant
  have hs' : x.symbol = .callExpression := hs
  simp only [chainOperand, hs', hf, if_neg notWord, Except.ok.injEq] at ho
  obtain ⟨t, rfl, ht⟩ := shows q ho.symm holds
  unfold callTemplate
  simp only
  split
  · exact .inField "tag" (by simp) (.one ht)
  · exact .inField "callee" (by simp) (.one ht)

/-- The variable is in the arguments, or in the template that stands in their place. -/
theorem callTemplate_shows_of_arguments (hs : x.parsed.symbol = .callExpression)
    (hf : x.field? "arguments" = some q) {s : Symbol} (hq : q.parsed.symbol = s)
    (hv : s.isVariable = false) (keeps : s.keepsAll = true)
    (holds : q.parsed.Holds (x.parsed.settingOf q.parsed) ℓ) (plain : q.setting = .plain)
    (notShorthand : q.symbol ≠ .shorthandPropertyIdentifier)
    {operand : Option (Part w)} (ho : chainOperand x = .ok operand) {inner : Option (Template w)}
    (same : inner.isSome = operand.isSome) : (callTemplate x inner).Shows ℓ := by
  -- a call without an operand is one of `import`, and that is where arguments are passed over
  cases inner with
  | none =>
    have word := (isImportCall_iff hs ho).mpr (by simpa using same.symm)
    have importCall : x.parsed.settingOf q.parsed = .importCall := by
      simp [Parsed.settingOf, hs, word, Inside.field_eq_of_field? hf]
    rw [importCall] at holds
    have source := firstOrNull_shows_of_importCall holds hq hv keeps
    simp only [callTemplate, hf]
    exact .inField "source" (by simp) source
  | some callee =>
    have word : x.parsed.isImportCall = false := by
      apply Bool.eq_false_iff.mpr
      intro word
      rw [(isImportCall_iff hs ho).mp word] at same
      cases same
    rw [settingOf_of_call hs (.inl word), ← plain] at holds
    unfold callTemplate
    simp only [hf, Option.any_some, decide_eq_true_eq]
    split
    · exact .inField "quasi" (by simp) (.hole ⟨holds, notShorthand⟩)
    · obtain ⟨r, hr, below⟩ := Part.exists_below hq holds hv keeps
      exact .inField "arguments" (by simp) (.holes hr below)

theorem callTemplate_shows (h : x.parsed.Holds setting ℓ)
    (hs : x.parsed.symbol = .callExpression) {operand : Option (Part w)}
    (ho : chainOperand x = .ok operand) {inner : Option (Template w)}
    (same : inner.isSome = operand.isSome)
    (shows : ∀ q, operand = some q → q.Covers ℓ → ∃ t, inner = some t ∧ t.Shows ℓ) :
    (callTemplate x inner).Shows ℓ := by
  obtain ⟨q, holds, plain, notShorthand, name, hn, hf⟩ := exists_field_of_call h hs
  have fits := (h.standsInFields hs rfl).2
  simp only [Parsed.fieldsFit, hs, Bool.and_eq_true] at fits
  simp only [List.mem_cons, List.not_mem_nil, or_false] at hn
  rcases hn with rfl | rfl | rfl
  · have field : q.parsed.field ≠ some "arguments" := by simp [Inside.field_eq_of_field? hf]
    rw [settingOf_of_call hs (.inr field), ← plain] at holds
    exact callTemplate_shows_of_function hs hf ⟨holds, notShorthand⟩ ho shows
  · have argumentsFit := Inside.of_allows fits.1 hf
    simp only [Bool.or_eq_true, decide_eq_true_eq] at argumentsFit
    rcases argumentsFit with hq | hq
    · exact callTemplate_shows_of_arguments hs hf hq rfl rfl holds plain notShorthand ho same
    · exact callTemplate_shows_of_arguments hs hf hq rfl rfl holds plain notShorthand ho same
  · have mark := Inside.of_allows fits.2 hf
    rw [holds.isMark_eq_false] at mark
    cases mark

/-! ## Links and chains -/

/-- Outside of calls the operand of a link is what stands in its field. -/
theorem field?_of_chainOperand {s : Symbol} (hs : x.parsed.symbol = s)
    (call : s ≠ .callExpression) {name : String} (hn : s.operandField? = some name)
    {operand : Option (Part w)} (ho : chainOperand x = .ok operand) : x.field? name = operand := by
  have hs' : x.symbol = s := hs
  unfold chainOperand at ho
  split at ho
  · next e => exact absurd (hs'.symm.trans e) call
  · rw [hs', hn] at ho
    exact Except.ok.inj ho

/-- A link shows what its parts hold, if the template for its operand shows what that holds. -/
theorem linkTemplate_shows (h : x.parsed.Holds setting ℓ)
    (link : x.parsed.symbol.operandField?.isSome = true) {operand : Option (Part w)}
    (ho : chainOperand x = .ok operand) {inner : Option (Template w)}
    (same : inner.isSome = operand.isSome)
    (shows : ∀ q, operand = some q → q.Covers ℓ → ∃ t, inner = some t ∧ t.Shows ℓ) :
    (linkTemplate src x inner).Shows ℓ := by
  unfold linkTemplate
  split
  · next hs =>
    obtain ⟨q, hq, covers, name, hn, hf⟩ := Inside.exists_field_covers hs h rfl rfl rfl
    have fits := (h.standsInFields hs rfl).2
    have hs' : x.parsed.symbol = .memberExpression := hs
    simp only [Parsed.fieldsFit, hs', Bool.and_eq_true] at fits
    simp only [List.mem_cons, List.not_mem_nil, or_false] at hn
    rcases hn with rfl | rfl | rfl
    · have ho := (field?_of_chainOperand hs (by decide) rfl ho).symm.trans hf
      exact .inField "object" (by simp) (operandSlot_shows (shows q ho covers))
    · have key := propertyKey_shows src covers.toHolds (Inside.of_allows fits.1 hf)
      rw [hf]
      exact .inField "property" (by simp) key
    · have mark := Inside.of_allows fits.2 hf
      rw [covers.isMark_eq_false] at mark
      cases mark
  · next hs =>
    obtain ⟨q, hq, covers, name, hn, hf⟩ := Inside.exists_field_covers hs h rfl rfl rfl
    have fits := (h.standsInFields hs rfl).2
    have hs' : x.parsed.symbol = .subscriptExpression := hs
    simp only [Parsed.fieldsFit, hs'] at fits
    simp only [List.mem_cons, List.not_mem_nil, or_false] at hn
    rcases hn with rfl | rfl | rfl
    · have ho := (field?_of_chainOperand hs (by decide) rfl ho).symm.trans hf
      exact .inField "object" (by simp) (operandSlot_shows (shows q ho covers))
    · exact .inField "property" (by simp) (Inside.convert_shows hf covers)
    · have mark := Inside.of_allows fits hf
      rw [covers.isMark_eq_false] at mark
      cases mark
  · next hs =>
    obtain ⟨q, hq, covers, name, hn, hf⟩ := Inside.exists_field_covers hs h rfl rfl rfl
    simp only [List.mem_cons, List.not_mem_nil, or_false] at hn
    rcases hn with rfl | rfl
    · have ho := (field?_of_chainOperand hs (by decide) rfl ho).symm.trans hf
      exact .inField "left" (by simp) (operandSlot_shows (shows q ho covers))
    · exact .inField "right" (by simp) (.late (Inside.convert_shows hf covers))
  · next member subscript binary =>
    have hs : x.parsed.symbol = .callExpression := by
      have name : x.symbol.operandField?.isSome = true := link
      cases hx : x.symbol <;> rw [hx] at name member subscript binary <;>
        first | exact hx | exact absurd rfl member | exact absurd rfl subscript |
          exact absurd rfl binary | cases name
    exact callTemplate_shows h hs ho same shows

/-- The links of a chain around its innermost operand. -/
def linked (src : Source) (links : List (Inside w)) (operand : Option (Part w)) :
    Option (Template w) :=
  links.foldr (fun link inner => some (linkTemplate src link inner)) (operand.map Template.hole)

/-- The first link of a spine is the chain itself. -/
theorem head?_of_spine {links : List (Inside w)} {operand : Option (Part w)}
    (hx : spine x = .ok (links, operand)) : links.head? = some x := by
  rw [spine] at hx
  split at hx
  · cases hx
  · cases hx
    rfl
  · next q ho =>
    simp only at hx
    split at hx
    · cases hq : spine q.inside with
      | error f => rw [hq] at hx; cases hx
      | ok rest =>
        rw [hq] at hx
        cases hx
        rfl
    · cases hx
      rfl

theorem isSome_linked {links : List (Inside w)} {operand : Option (Part w)}
    (hx : spine x = .ok (links, operand)) : (linked src links operand).isSome = true := by
  have head := head?_of_spine hx
  cases links with
  | nil => cases head
  | cons y rest => rfl

/-- A chain shows what it holds: the induction goes down the spine, and a link takes over what is
shown of the links below it. -/
theorem linked_shows {links : List (Inside w)} {operand : Option (Part w)}
    (hx : spine x = .ok (links, operand)) (h : x.parsed.Holds setting ℓ)
    (link : x.parsed.symbol.operandField?.isSome = true) :
    ∃ t, linked src links operand = some t ∧ t.Shows ℓ := by
  fun_induction spine x generalizing links operand setting with
  | case1 x f ho => cases hx
  | case2 x ho =>
    cases hx
    refine ⟨linkTemplate src x none, rfl, linkTemplate_shows h link ho rfl ?_⟩
    intro q hq
    cases hq
  | case3 x q ho this chain ih =>
    cases hq : spine q.inside with
    | error f => rw [hq] at hx; cases hx
    | ok rest =>
      rw [hq] at hx
      cases hx
      refine ⟨linkTemplate src x (linked src rest.1 rest.2), rfl,
        linkTemplate_shows h link ho (isSome_linked hq) ?_⟩
      intro r hr covers
      cases hr
      exact ih hq covers.toHolds chain
  | case4 x q ho this chain =>
    cases hx
    refine ⟨linkTemplate src x (some (.hole q)), rfl, linkTemplate_shows h link ho rfl ?_⟩
    intro r hr covers
    cases hr
    exact ⟨_, rfl, .hole covers⟩

theorem chain_shows (h : x.parsed.Holds setting ℓ)
    (link : x.parsed.symbol.operandField?.isSome = true) : (chain src x).Shows ℓ := by
  unfold chain
  split
  · exact .fault _
  · next links operand hx =>
    obtain ⟨t, ht, shows⟩ := linked_shows hx h link
    rw [linked] at ht
    rw [ht]
    exact shows

end FreeNames.Conversion
