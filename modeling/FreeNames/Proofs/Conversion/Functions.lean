import FreeNames.Conversion.Functions
import FreeNames.Proofs.Conversion.Parts

/-!
# Functions and classes keep their variables

For every template of a function, a class or a member of a class: if the node holds a variable
that is to be kept, then the template shows it.  The decorators of a method are kept in a
class only.
-/

namespace FreeNames.Conversion

variable {w ℓ : Parsed} {src : Source} {x : Inside w} {q : Part w} {setting : Setting}

/-! ## Functions -/

theorem parameters_shows (hf : x.field? "parameters" = some q) (covers : q.Covers ℓ)
    (list : q.parsed.symbol = .formalParameters) : (parameters x).Shows ℓ := by
  obtain ⟨r, hr, below⟩ := Part.exists_below list covers.toHolds rfl rfl
  rw [parameters, hf]
  exact .holes hr below

/-- The parameters and the body of a function. -/
theorem functionFields_shows {name : String} (hn : name = "parameters" ∨ name = "body")
    (hf : x.field? name = some q) (covers : q.Covers ℓ)
    (list : x.parsed.allows "parameters" (fun c => c.symbol = .formalParameters) = true) :
    ∃ f ∈ functionFields x, f.2.Shows ℓ := by
  rcases hn with rfl | rfl
  · have list := of_decide_eq_true (Inside.of_allows list hf)
    exact ⟨("params", parameters x), by simp [functionFields], parameters_shows hf covers list⟩
  · exact ⟨("body", x.convert "body"), by simp [functionFields], Inside.convert_shows hf covers⟩

/-- The symbols of functions other than arrows. -/
theorem function_shows (h : x.parsed.Holds setting ℓ) {s : Symbol} (hs : x.parsed.symbol = s)
    (isFunction : s ∈ [.functionDeclaration, .generatorFunctionDeclaration, .functionExpression,
      .olderFunction, .generatorFunction]) (kind : Kind) : (function src kind x).Shows ℓ := by
  have rules : s.partFields? = some ["name", "parameters", "body"] ∧ s.freeParts = [] ∧
      s.keepsAll = true := by
    clear hs
    revert s
    decide
  have fits : (x.parsed.allows "name" Parsed.isName &&
      x.parsed.allows "parameters" fun c => c.symbol = .formalParameters) = true := by
    have fits := (h.standsInFields hs rules.1).2
    simp only [List.mem_cons, List.not_mem_nil, or_false] at isFunction
    rcases isFunction with rfl | rfl | rfl | rfl | rfl <;>
      simpa only [Parsed.fieldsFit, hs] using fits
  rw [Bool.and_eq_true] at fits
  obtain ⟨q, hq, covers, name, hn, hf⟩ :=
    Inside.exists_field_covers hs h rules.1 rules.2.1 rules.2.2
  rcases List.mem_cons.mp hn with rfl | hn
  · exact .inField "id" (by simp) (identifierOrNull_shows src hf covers.toHolds fits.1)
  · obtain ⟨f, mem, shows⟩ := functionFields_shows (by simpa using hn) hf covers fits.2
    exact .inField f.1 (List.mem_cons_of_mem _ mem) shows

theorem arrowFunction_shows (h : x.parsed.Holds setting ℓ)
    (hs : x.parsed.symbol = .arrowFunction) : (arrowFunction src x).Shows ℓ := by
  obtain ⟨q, hq, covers, name, hn, hf⟩ := Inside.exists_field_covers hs h rfl rfl rfl
  have fits := (h.standsInFields hs rfl).2
  simp only [Parsed.fieldsFit, hs, Bool.and_eq_true, ← Inside.field?_map_parsed] at fits
  simp only [List.mem_cons, List.not_mem_nil, or_false] at hn
  rcases hn with rfl | rfl | rfl
  · have isName := Inside.of_allows fits.1.1 hf
    rw [arrowFunction, hf]
    exact .inField "params" (by simp) (.single (identifier_shows src covers.toHolds isName))
  · have list := of_decide_eq_true (Inside.of_allows fits.1.2 hf)
    have alone : x.field? "parameter" = none := by simpa [hf] using fits.2
    rw [arrowFunction, alone]
    exact .inField "params" (by simp) (parameters_shows hf covers list)
  · exact .inField "body" (by simp) (Inside.convert_shows hf covers)

/-! ## Classes -/

theorem decorators_shows (hq : q ∈ x.named) (covers : q.Covers ℓ)
    (decorator : q.symbol = .decorator) : (decorators x).Shows ℓ :=
  .holes (List.mem_filter.mpr ⟨hq, decide_eq_true decorator⟩) covers

/-- The parts of one symbol with their turns. -/
theorem exists_mem_zipIdx (hq : q ∈ x.named) {s : Symbol} (hs : q.symbol = s) :
    ∃ n, (q, n) ∈ x.named.zipIdx.filter fun q => q.1.symbol = s := by
  obtain ⟨n, hn⟩ := List.mem_iff_getElem?.mp hq
  exact ⟨n, List.mem_filter.mpr ⟨List.mem_zipIdx_iff_getElem?.mpr hn, decide_eq_true hs⟩⟩

theorem classLike_shows (h : x.parsed.Holds setting ℓ) {s : Symbol} (hs : x.parsed.symbol = s)
    (isClass : s = .classDeclaration ∨ s = .classExpression) (kind : Kind) :
    (classLike src kind x).Shows ℓ := by
  have rules : s.partFields? = some ["name", "body"] ∧
      s.freeParts = [.decorator, .classHeritage] ∧ s.keepsAll = true := by
    rcases isClass with rfl | rfl <;> exact ⟨rfl, rfl, rfl⟩
  have fits : (x.parsed.allows "name" Parsed.isName &&
      (x.parsed.named.filter fun c => c.symbol = .classHeritage).length ≤ 1) = true := by
    have fits := (h.standsInFields hs rules.1).2
    rcases isClass with rfl | rfl <;> simpa only [Parsed.fieldsFit, hs] using fits
  rw [Bool.and_eq_true, decide_eq_true_eq] at fits
  obtain ⟨q, hq, covers⟩ :=
    Inside.exists_covers hs h (Symbol.plain_of_partFields? rules.1).1 rules.2.2
  have stands := (h.standsInFields hs rules.1).1
  rw [rules.2.1] at stands
  rcases Inside.exists_field stands hq with ⟨name, hn, hf⟩ | free
  · simp only [List.mem_cons, List.not_mem_nil, or_false] at hn
    rcases hn with rfl | rfl
    · exact .inField "id" (by simp)
        (.turn (n := x.named.length) (identifierOrNull_shows src hf covers.toHolds fits.1))
    · exact .inField "body" (by simp)
        (.turn (n := x.named.length) (Inside.convert_shows hf covers))
  · simp only [List.mem_cons, List.not_mem_nil, or_false] at free
    rcases free with decorator | heritage
    · obtain ⟨n, hn⟩ := exists_mem_zipIdx hq decorator
      have slot := List.mem_map_of_mem (f := fun q => Slot.turn q.2 (.hole q.1)) hn
      exact .inField "decorators" (by simp) (.many slot rfl (.hole covers))
    · obtain ⟨n, hn⟩ := exists_mem_zipIdx hq heritage
      -- of several heritages only the last is kept, but a class has one
      have few : (x.named.zipIdx.filter fun q => q.1.symbol = .classHeritage).length ≤ 1 := by
        refine Nat.le_trans (Nat.le_of_eq ?_) fits.2
        rw [← x.named_map_parsed, List.filter_map, List.length_map,
          ← List.countP_eq_length_filter, ← List.countP_eq_length_filter]
        conv => rhs; rw [← List.zipIdx_map_fst 0 x.named, List.countP_map]
        rfl
      have slot : (Slot.turn n (.one q.inside.first)).Shows ℓ :=
        .turn (.one (Part.first_shows heritage covers.toHolds rfl))
      refine .inField "superClass" ?_ slot
      simp [eq_singleton_of_length_le few hn]

/-! ## Members -/

/-- The key and the function of a method. -/
theorem method_shows (src : Source) {field : String} {key : Part w}
    (hs : x.parsed.symbol = .methodDefinition) (h : x.parsed.Holds setting ℓ)
    (hkey : x.field? "name" = some key) (hn : field ∈ ["name", "parameters", "body"])
    (hf : x.field? field = some q) (covers : q.Covers ℓ) :
    (propertyKey src key).Shows ℓ ∨ (methodFunction x).Shows ℓ := by
  have fits := (h.standsInFields hs rfl).2
  simp only [Parsed.fieldsFit, hs, Bool.and_eq_true] at fits
  rcases List.mem_cons.mp hn with rfl | hn
  · cases hkey.symm.trans hf
    exact Or.inl (propertyKey_shows src covers.toHolds (Inside.of_allows fits.1 hf))
  · obtain ⟨f, mem, shows⟩ := functionFields_shows (by simpa using hn) hf covers fits.2
    exact Or.inr (.inField f.1 (List.mem_cons_of_mem _ mem) shows)

/-- A method; in an object literal its decorators are passed over. -/
theorem methodDefinition_shows {inObject : Bool}
    (h : x.parsed.Holds (if inObject then .object else .plain) ℓ)
    (hs : x.parsed.symbol = .methodDefinition) : (methodDefinition src inObject x).Shows ℓ := by
  obtain ⟨q, hq, kept, covers⟩ :=
    Inside.exists_kept h (by rw [hs]; rfl) (by rw [hs]; decide) (by rw [hs]; decide)
  unfold methodDefinition
  split
  · exact .fault _
  · next key hkey =>
    rcases Inside.exists_field (h.standsInFields hs rfl).1 hq with ⟨field, hn, hf⟩ | free
    · rcases method_shows src hs h hkey hn hf covers with shows | shows
      · cases inObject with
        | true => exact .inField "key" (by simp) shows
        | false => exact .inField "key" (by simp) shows
      · cases inObject with
        | true => exact .inField "value" (by simp) (.one shows)
        | false => exact .inField "value" (by simp) (.one shows)
    · have decorator := List.mem_singleton.mp free
      cases inObject with
      | true =>
        -- a property drops the decorators that were read
        have seen := Parsed.passesOver_of_kept (by decide) (by rw [hs]; rfl) kept
        have decorator' : q.parsed.symbol = .decorator := decorator
        simp [Parsed.passesOver, hs, decorator'] at seen
      | false =>
        exact .inField "decorators" (by simp) (.late (decorators_shows hq covers decorator))

theorem fieldDefinition_shows (h : x.parsed.Holds setting ℓ)
    (hs : x.parsed.symbol = .fieldDefinition) : (fieldDefinition src x).Shows ℓ := by
  obtain ⟨q, hq, covers⟩ := Inside.exists_covers hs h rfl rfl
  obtain ⟨stands, fits⟩ := h.standsInFields hs rfl
  simp only [Parsed.fieldsFit, hs] at fits
  rcases Inside.exists_field stands hq with ⟨name, hn, hf⟩ | free
  · simp only [List.mem_cons, List.not_mem_nil, or_false] at hn
    rcases hn with rfl | rfl
    · have key := propertyKey_shows src covers.toHolds (Inside.of_allows fits hf)
      rw [fieldDefinition, hf]
      exact .inField "key" (by simp) key
    · exact .inField "value" (by simp) (Inside.optional_shows hf hq covers)
  · exact .inField "decorators" (by simp)
      (decorators_shows hq covers (List.mem_singleton.mp free))

theorem staticBlock_shows (h : x.parsed.Holds setting ℓ)
    (hs : x.parsed.symbol = .classStaticBlock) : (staticBlock x).Shows ℓ := by
  obtain ⟨q, hq, covers, name, hn, hf⟩ := Inside.exists_field_covers hs h rfl rfl rfl
  have fits := (h.standsInFields hs rfl).2
  simp only [Parsed.fieldsFit, hs] at fits
  rw [List.mem_singleton] at hn
  subst hn
  have block := of_decide_eq_true (Inside.of_allows fits hf)
  obtain ⟨r, hr, below⟩ := Part.exists_below block covers.toHolds rfl rfl
  rw [staticBlock, hf]
  exact .inField "body" (by simp) (.holes hr below)

end FreeNames.Conversion
