import FreeNames.Conversion.Names
import FreeNames.Proofs.Conversion.Shows

/-!
# The part that holds a variable

A variable in a node of a shaped parse stands in one of its named parts, and the shape says
where that part is: in which field, or that it is the only part.  The lemmas here find the
part, and show that the common slots of templates, and the templates of names and keys, keep
the variable in it.

* `Inside.exists_covers` finds the part, and `Inside.exists_field` its field.
* `Part.exists_below` goes on to the parts of a part without a template of its own.
-/

namespace FreeNames

variable {w ℓ : Parsed}

theorem eq_singleton_of_length_le {α : Type} {l : List α} {a : α} (one : l.length ≤ 1)
    (ha : a ∈ l) : l = [a] := by
  match l with
  | [b] => rw [List.mem_singleton.mp ha]
  | b :: b' :: rest => simp at one

/-! ## Parts and children -/

namespace Inside

variable {x : Inside w} {q : Part w} {name : String} {setting : Setting}

theorem named_map_parsed (x : Inside w) : x.named.map Part.parsed = x.parsed.named := by
  rw [Parsed.named, ← x.map_parsed_parts, List.filter_map]
  rfl

theorem field?_map_parsed (x : Inside w) (name : String) :
    (x.field? name).map Part.parsed = x.parsed.field? name := by
  rw [Parsed.field?, ← x.map_parsed_parts, List.find?_map]
  rfl

/-- The part that a field gives is its first child. -/
theorem parsed_field? (h : x.field? name = some q) :
    x.parsed.field? name = some q.parsed := by
  rw [← x.field?_map_parsed, h]
  rfl

theorem parsed_mem_named (h : q ∈ x.named) : q.parsed ∈ x.parsed.named := by
  rw [← x.named_map_parsed]
  exact List.mem_map_of_mem h

theorem inObject_of_mem_parts (h : q ∈ x.parts) : q.inObject = decide (x.symbol = .object) := by
  obtain ⟨c, -, rfl⟩ := List.mem_map.mp h
  rfl

theorem setting_eq_plain (h : q ∈ x.parts) (object : x.parsed.symbol ≠ .object) :
    q.setting = .plain := by
  have notObject : q.inObject = false := (inObject_of_mem_parts h).trans (decide_eq_false object)
  simp [Part.setting, notObject]

theorem field_eq_of_field? (h : x.field? name = some q) : q.parsed.field = some name :=
  of_decide_eq_true (List.find?_some (p := fun q : Part w => q.parsed.field = some name) h)

/-- The part that stands in a field is the one that the field gives, if it is the only one. -/
theorem field?_eq_of_mem_named (hq : q ∈ x.named) (hf : q.parsed.field = some name)
    (single : x.parsed.fieldIsSingle name = true) : x.field? name = some q := by
  have all : x.parsed.fieldAll name =
      (x.parts.filter fun r => r.parsed.field = some name).map Part.parsed := by
    rw [Parsed.fieldAll, ← x.map_parsed_parts, List.filter_map]
    rfl
  have mem : q ∈ x.parts.filter fun r => r.parsed.field = some name :=
    List.mem_filter.mpr ⟨mem_parts_of_named hq, by simp [hf]⟩
  rw [Parsed.fieldIsSingle, all] at single
  -- the field gives its first child; a later one is a token, which a part is not
  rw [field?, ← List.head?_filter]
  cases hl : x.parts.filter fun r => r.parsed.field = some name with
  | nil => rw [hl] at mem; cases mem
  | cons r rest =>
    rw [hl] at mem single
    rcases List.mem_cons.mp mem with rfl | later
    · rfl
    · have token := List.all_eq_true.mp single q.parsed
        (by simpa using ⟨q, later, rfl⟩)
      have named := (List.mem_filter.mp (parsed_mem_named hq)).2
      simp only [Bool.and_eq_true, Bool.not_eq_true'] at named
      simp [Parsed.isToken, named.1, named.2] at token

theorem mem_fieldAll (hq : q ∈ x.named) (hf : q.parsed.field = some name) :
    q ∈ x.fieldAll name := by
  have named := (List.mem_filter.mp hq).2
  exact List.mem_filter.mpr ⟨mem_parts_of_named hq, by simpa [hf] using named⟩

/-- A part stands in one of the fields, unless it is one of those that stand outside. -/
theorem exists_field {fields : List String} {free : List Symbol}
    (h : x.parsed.standsInFields fields free = true) (hq : q ∈ x.named) :
    (∃ name ∈ fields, x.field? name = some q) ∨ q.symbol ∈ free := by
  simp only [Parsed.standsInFields, Bool.and_eq_true, List.all_eq_true, Bool.or_eq_true,
    List.any_eq_true, decide_eq_true_eq, List.contains_iff_mem] at h
  rcases h.1 q.parsed (parsed_mem_named hq) with ⟨name, mem, hf⟩ | free
  · exact Or.inl ⟨name, mem, field?_eq_of_mem_named hq hf (h.2 name mem)⟩
  · exact Or.inr free

/-- The same for a field that holds no more than one child. -/
theorem field?_eq_of_length_le (hq : q ∈ x.named) (hf : q.parsed.field = some name)
    (one : (x.parsed.fieldAll name).length ≤ 1) : x.field? name = some q := by
  apply field?_eq_of_mem_named hq hf
  rw [Parsed.fieldIsSingle, List.drop_eq_nil_of_le one]
  rfl

/-- What the shape of a node allows in a field is there. -/
theorem of_allows {sort : Parsed → Bool} (h : x.parsed.allows name sort = true)
    (hq : x.field? name = some q) : sort q.parsed = true := by
  rw [Parsed.allows, parsed_field? hq] at h
  exact h

/-! ## The part that holds a variable -/

theorem settingOf_of_mem_parts (hq : q ∈ x.parts) (call : x.parsed.isImportCall = false) :
    x.parsed.settingOf q.parsed = q.setting := by
  rw [Part.setting, inObject_of_mem_parts hq, Parsed.settingOf, call]
  by_cases h : x.symbol = .object
  · have h' : x.parsed.symbol = .object := h
    simp [h, h']
  · have h' : ¬x.parsed.symbol = .object := h
    simp [h, h']

/-- The variable comes from a named part that is looked at. -/
theorem exists_holds (h : x.parsed.Holds setting ℓ) (hv : x.parsed.symbol.isVariable = false)
    (call : x.parsed.isImportCall = false) :
    ∃ q ∈ x.named, q.parsed ∈ x.parsed.kept setting ∧ q.parsed.Holds q.setting ℓ ∧
      (x.parsed.symbol = .object ∨ q.symbol ≠ .shorthandPropertyIdentifier) := by
  obtain ⟨c, hc, kept, holds, plain⟩ := h.exists_named hv
  rw [← x.named_map_parsed] at hc
  obtain ⟨q, hq, rfl⟩ := List.mem_map.mp hc
  rw [settingOf_of_mem_parts (mem_parts_of_named hq) call] at holds
  exact ⟨q, hq, kept, holds, plain⟩

/-- Outside of objects and calls the part has a template of its own. -/
theorem exists_kept (h : x.parsed.Holds setting ℓ) (hv : x.parsed.symbol.isVariable = false)
    (object : x.parsed.symbol ≠ .object) (call : x.parsed.symbol ≠ .callExpression) :
    ∃ q ∈ x.named, q.parsed ∈ x.parsed.kept setting ∧ q.Covers ℓ := by
  obtain ⟨q, hq, kept, holds, plain⟩ := exists_holds h hv (by simp [Parsed.isImportCall, call])
  exact ⟨q, hq, kept, holds, plain.resolve_left object⟩

section

variable {s : Symbol} (hs : x.parsed.symbol = s)

include hs

theorem exists_covers (h : x.parsed.Holds setting ℓ) (hv : s.isVariable = false)
    (keeps : s.keepsAll = true) : ∃ q ∈ x.named, q.Covers ℓ := by
  subst hs
  obtain ⟨object, call⟩ := Symbol.ne_of_keepsAll keeps
  obtain ⟨q, hq, -, covers⟩ := exists_kept h hv object call
  exact ⟨q, hq, covers⟩

/-- The variable comes from one of the fields, in a node that has nothing but fields. -/
theorem exists_field_covers (h : x.parsed.Holds setting ℓ) {fields : List String}
    (hf : s.partFields? = some fields) (free : s.freeParts = []) (keeps : s.keepsAll = true) :
    ∃ q ∈ x.named, q.Covers ℓ ∧ ∃ name ∈ fields, x.field? name = some q := by
  obtain ⟨q, hq, covers⟩ := exists_covers hs h (Symbol.plain_of_partFields? hf).1 keeps
  subst hs
  rcases exists_field (h.standsInFields rfl hf).1 hq with field | outside
  · exact ⟨q, hq, covers, field⟩
  · rw [free] at outside
    cases outside

end

/-! ## Common slots -/

theorem convert_shows (hf : x.field? name = some q) (h : q.Covers ℓ) :
    (x.convert name).Shows ℓ := by
  rw [convert, hf]
  exact .hole h

theorem optional_shows (hf : x.field? name = some q) (hq : q ∈ x.named) (h : q.Covers ℓ) :
    (x.optional name).Shows ℓ := by
  have named := (List.mem_filter.mp hq).2
  rw [Bool.and_eq_true] at named
  simp only [optional, hf, named.1, if_true]
  exact .hole h

theorem head?_named (one : x.parsed.named.length ≤ 1) (hq : q ∈ x.named) :
    x.named.head? = some q := by
  rw [← x.named_map_parsed, List.length_map] at one
  rw [eq_singleton_of_length_le one hq]
  rfl

theorem first_shows (one : x.parsed.named.length ≤ 1) (hq : q ∈ x.named) (h : q.Covers ℓ) :
    x.first.Shows ℓ := by
  rw [first, head?_named one hq]
  exact .hole h

theorem firstOrNull_shows (one : x.parsed.named.length ≤ 1) (hq : q ∈ x.named)
    (h : q.Covers ℓ) : x.firstOrNull.Shows ℓ := by
  rw [firstOrNull, head?_named one hq]
  exact .hole h

end Inside

/-! ## Names and keys -/

namespace Part

variable {q : Part w} {setting : Setting} {s : Symbol}

/-- The variable in a part of which all children are looked at is in one of them. -/
theorem exists_below (hs : q.parsed.symbol = s) (h : q.parsed.Holds setting ℓ)
    (hv : s.isVariable = false) (keeps : s.keepsAll = true) :
    ∃ r ∈ q.inside.named, r.Covers ℓ :=
  Inside.exists_covers (x := q.inside) hs h hv keeps

/-- The variable in a part that has one part is in that one. -/
theorem first_shows (hs : q.parsed.symbol = s) (h : q.parsed.Holds setting ℓ)
    (one : s.hasOnePart = true) : q.inside.first.Shows ℓ := by
  obtain ⟨hv, keeps⟩ := Symbol.plain_of_hasOnePart one
  obtain ⟨r, hr, covers⟩ := exists_below hs h hv keeps
  exact Inside.first_shows (h.hasOnePart hs one).1 hr covers

end Part

namespace Conversion

variable (src : Source) {x : Inside w} {q : Part w} {name : String} {setting : Setting}

theorem identifier_shows (h : q.parsed.Holds setting ℓ) (isName : q.parsed.isName = true) :
    (identifier src q.span : Template w).Shows ℓ := by
  obtain ⟨rfl, kind⟩ := h.eq_of_isName isName
  exact .self kind.symm rfl

theorem identifierIn_shows (hf : x.field? name = some q) (h : q.parsed.Holds setting ℓ)
    (names : x.parsed.allows name Parsed.isName = true) : (identifierIn src x name).Shows ℓ := by
  rw [identifierIn, hf]
  exact .one (identifier_shows src h (Inside.of_allows names hf))

theorem identifierOrNull_shows (hf : x.field? name = some q) (h : q.parsed.Holds setting ℓ)
    (names : x.parsed.allows name Parsed.isName = true) :
    (identifierOrNull src x name).Shows ℓ := by
  rw [identifierOrNull, hf]
  exact .one (identifier_shows src h (Inside.of_allows names hf))

theorem exportName_shows (h : q.parsed.Holds setting ℓ) (isName : q.parsed.isName = true) :
    (exportName src q).Shows ℓ := by
  have notString : q.symbol ≠ .string := by
    intro e
    have constant := h.isConstant_eq_false
    rw [show q.parsed.symbol = .string from e] at constant
    cases constant
  rw [exportName, if_neg notString]
  exact .one (identifier_shows src h isName)

theorem propertyKey_shows (h : q.parsed.Holds setting ℓ) (isKey : q.parsed.isKey = true) :
    (propertyKey src q).Shows ℓ := by
  have constant : q.symbol.isConstant = false := h.isConstant_eq_false
  simp only [Parsed.isKey, Bool.or_eq_true, decide_eq_true_eq] at isKey
  unfold propertyKey
  split
  · next computed => exact .one (Part.first_shows computed h rfl)
  · next e => rw [e] at constant; cases constant
  · next e => rw [e] at constant; cases constant
  · next e => rw [e] at constant; cases constant
  · next plain _ _ _ =>
    exact .one (identifier_shows src h (isKey.resolve_right plain))

/-! ## Templates of one form -/

section

variable {s : Symbol} (hs : x.parsed.symbol = s) (h : x.parsed.Holds setting ℓ)

include hs h

/-- A node that holds its parts in one list. -/
theorem list_shows (hv : s.isVariable = false) (keeps : s.keepsAll = true) :
    (Slot.holes x.named).Shows ℓ := by
  obtain ⟨q, hq, covers⟩ := Inside.exists_covers hs h hv keeps
  exact .holes hq covers

/-- A node that has one part. -/
theorem first_shows (one : s.hasOnePart = true) : x.first.Shows ℓ := by
  obtain ⟨hv, keeps⟩ := Symbol.plain_of_hasOnePart one
  obtain ⟨q, hq, covers⟩ := Inside.exists_covers hs h hv keeps
  exact Inside.first_shows (h.hasOnePart hs one).1 hq covers

theorem firstOrNull_shows (one : s.hasOnePart = true) : x.firstOrNull.Shows ℓ := by
  obtain ⟨hv, keeps⟩ := Symbol.plain_of_hasOnePart one
  obtain ⟨q, hq, covers⟩ := Inside.exists_covers hs h hv keeps
  exact Inside.firstOrNull_shows (h.hasOnePart hs one).1 hq covers

/-- A node that has all its parts in fields and converts each of them. -/
theorem converted_shows {names : List String} (hf : s.partFields? = some names)
    (free : s.freeParts = []) (keeps : s.keepsAll = true) {kind : Kind} {span : Span}
    {fields : List (String × Slot w)} {dropped : List (Slot w)}
    (all : ∀ name ∈ names, x.convert name ∈ fields.map Prod.snd) :
    (Template.build kind span fields dropped).Shows ℓ := by
  obtain ⟨q, hq, covers, name, hn, found⟩ := Inside.exists_field_covers hs h hf free keeps
  obtain ⟨⟨f, slot⟩, mem, rfl⟩ := List.mem_map.mp (all name hn)
  exact .inField f mem (Inside.convert_shows found covers)

end

end Conversion

end FreeNames
