import FreeNames.Proofs.Conversion.Shape
import FreeNames.Tree.Node

/-!
# The variables of a parse

`Parsed.reads` lists the leaves of a parse that conversion is to keep: the names of variables,
and `this`.  The names of elements of markup are no variables.  Four places are passed over
as well, since conversion does not look at them:

* the decorators of an export statement,
* the attributes of the module in an import or export statement,
* the decorators of a method in an object literal,
* what stands behind the first argument in a call of the word `import`.

`Parsed.mem_reads` unfolds the list by one node.  `Parsed.Holds` says of a node in a shaped parse
that it holds such a leaf; what the shape then says about the node is read off by
`Parsed.Holds.standsInFields` and its relatives, and `Parsed.Holds.exists_named` finds the part
from which the leaf comes.
-/

namespace FreeNames

/-- Where a node stands, as far as it decides which of its children are looked at. -/
inductive Setting where
  | plain
  /-- Directly in an object literal. -/
  | object
  /-- As the arguments in a call of the word `import`. -/
  | importCall
  deriving DecidableEq, Repr

namespace Symbol

/-- The nodes of which all children are looked at, each in a plain setting. -/
def keepsAll : Symbol → Bool
  | .object | .callExpression | .exportStatement | .importStatement | .methodDefinition
  | .jsxOpeningElement | .jsxClosingElement | .jsxSelfClosingElement => false
  | _ => true

theorem isVariable_of_isConstant {s : Symbol} (h : s.isConstant = true) :
    s.isVariable = false := by
  cases s <;> first | rfl | exact absurd h (by decide)

theorem plain_of_hasOnePart {s : Symbol} (h : s.hasOnePart = true) :
    s.isVariable = false ∧ s.keepsAll = true := by
  cases s <;> first | decide | exact absurd h (by decide) | exact ⟨rfl, rfl⟩

theorem plain_of_partFields? {s : Symbol} {fields : List String}
    (h : s.partFields? = some fields) : s.isVariable = false ∧ s.hasOnePart = false := by
  cases s with
  | other name =>
    refine ⟨rfl, decide_eq_false ?_⟩
    rintro rfl
    cases h
  | _ => first | decide | cases h

theorem isConstant_of_partFields? {s : Symbol} {fields : List String}
    (h : s.partFields? = some fields) : s.isConstant = false := by
  cases s with
  | other name =>
    by_cases hn : name = "finally_clause"
    · subst hn
      rfl
    · simp [partFields?, hn] at h
  | _ => first | rfl | cases h

theorem ne_of_keepsAll {s : Symbol} (h : s.keepsAll = true) :
    s ≠ .object ∧ s ≠ .callExpression := by
  constructor <;> (rintro rfl; cases h)

theorem isExtra_of_isVariable {s : Symbol} (h : s.isVariable = true) : s.isExtra = false := by
  cases s <;> first | rfl | exact absurd h (by decide)

end Symbol

namespace Parsed

/-- A call of the word `import`. -/
def isImportCall (p : Parsed) : Bool :=
  p.symbol = .callExpression && (p.field? "function").any fun c => c.symbol = .importWord

/-- The setting of a child. -/
def settingOf (p c : Parsed) : Setting :=
  if p.symbol = .object then .object
  else if p.isImportCall && c.field = some "arguments" then .importCall
  else .plain

/-- Is this child passed over? -/
def passesOver (setting : Setting) (p c : Parsed) : Bool :=
  match p.symbol with
  | .exportStatement => c.symbol = .decorator || c.symbol = .importAttribute
  | .importStatement => c.symbol = .importAttribute
  | .methodDefinition => setting = .object && c.symbol = .decorator
  | _ => false

/-- The children that are looked at. -/
def kept (setting : Setting) (p : Parsed) : List Parsed :=
  if setting = .importCall then p.named.take 1
  else if p.symbol.isTagged then p.children.eraseP fun c => c.field = some "name"
  else p.children.filter fun c => !p.passesOver setting c

theorem mem_children_of_kept {setting : Setting} {p c : Parsed} (h : c ∈ p.kept setting) :
    c ∈ p.children := by
  unfold kept at h
  split at h
  · exact mem_children_of_named (List.mem_of_mem_take h)
  · split at h
    · exact List.mem_of_mem_eraseP h
    · exact (List.mem_filter.mp h).1

theorem passesOver_of_kept {setting : Setting} {p c : Parsed} (hs : setting ≠ .importCall)
    (tagged : p.symbol.isTagged = false) (h : c ∈ p.kept setting) :
    p.passesOver setting c = false := by
  rw [kept, if_neg hs, tagged, if_neg Bool.false_ne_true] at h
  simpa using (List.mem_filter.mp h).2

/-- The variables in a node, other than those in children that are passed over. -/
def reads (setting : Setting) (p : Parsed) : List Parsed :=
  if p.symbol.isVariable then [p]
  else (p.kept setting).attach.flatMap fun c => c.1.reads (p.settingOf c.1)
termination_by sizeOf p
decreasing_by exact sizeOf_lt_of_mem_children (mem_children_of_kept c.2)

/-- The kind of node that a variable becomes. -/
def readKind (p : Parsed) : Kind :=
  if p.symbol = .thisWord then .thisExpression else .identifier

/-! ## One node at a time -/

variable {setting : Setting} {p c ℓ : Parsed}

theorem reads_of_isVariable (h : p.symbol.isVariable = true) : p.reads setting = [p] := by
  rw [reads, if_pos h]

theorem mem_reads (h : p.symbol.isVariable = false) :
    ℓ ∈ p.reads setting ↔ ∃ c ∈ p.kept setting, ℓ ∈ c.reads (p.settingOf c) := by
  rw [reads, if_neg (by simp [h])]
  simp

/-- A word holds no variable. -/
theorem reads_of_isWord (h : p.isWord = true) : p.reads setting = [] := by
  simp only [isWord, Bool.and_eq_true, Bool.not_eq_true', List.isEmpty_iff] at h
  apply List.eq_nil_iff_forall_not_mem.mpr
  intro ℓ hℓ
  obtain ⟨c, hc, -⟩ := (mem_reads h.1).mp hℓ
  simpa [h.2] using mem_children_of_kept hc

theorem settingOf_of_keepsAll (h : p.symbol.keepsAll = true) (c : Parsed) :
    p.settingOf c = .plain := by
  obtain ⟨object, call⟩ := Symbol.ne_of_keepsAll h
  simp [settingOf, isImportCall, object, call]

/-! ## Shaped parses -/

theorem self_mem_preorder (p : Parsed) : p ∈ p.preorder := by
  rw [preorder_eq]
  exact List.mem_cons_self ..

theorem mem_preorder_of_child {q : Parsed} (hc : c ∈ p.children) (hq : q ∈ c.preorder) :
    q ∈ p.preorder := by
  rw [preorder_eq]
  exact List.mem_cons_of_mem _ (List.mem_flatMap.mpr ⟨c, hc, hq⟩)

/-- What is below a node of a parse is a node of the parse. -/
theorem mem_preorder_trans {p q r : Parsed} (hq : q ∈ p.preorder) (hr : r ∈ q.preorder) :
    r ∈ p.preorder := by
  rw [preorder_eq, List.mem_cons, List.mem_flatMap] at hq
  rcases hq with rfl | ⟨c, hc, hq⟩
  · exact hr
  · have := sizeOf_lt_of_mem_children hc
    exact mem_preorder_of_child hc (mem_preorder_trans hq hr)
termination_by sizeOf p

namespace IsShaped

theorem fits (h : p.IsShaped) : p.fits = true := h p (self_mem_preorder p)

theorem child (h : p.IsShaped) (hc : c ∈ p.children) : c.IsShaped :=
  fun q hq => h q (mem_preorder_of_child hc hq)

/-- The rule for a node that is neither a token nor a variable. -/
theorem rule (h : p.IsShaped) (token : p.isToken = false) (hv : p.symbol.isVariable = false) :
    (p.symbol = .object ∨ ∀ c ∈ p.children, c.symbol ≠ .shorthandPropertyIdentifier) ∧
      p.partsFit = true := by
  have fits := h.fits
  simp only [Parsed.fits, hv, token, Bool.false_eq_true, if_false, Bool.and_eq_true,
    Bool.or_eq_true, decide_eq_true_eq, List.all_eq_true] at fits
  exact fits

theorem standsInFields (h : p.IsShaped) (token : p.isToken = false) {s : Symbol}
    (hs : p.symbol = s) {fields : List String} (hf : s.partFields? = some fields) :
    p.standsInFields fields s.freeParts = true ∧ p.fieldsFit = true := by
  subst hs
  obtain ⟨hv, one⟩ := Symbol.plain_of_partFields? hf
  have rule := (h.rule token hv).2
  simp only [partsFit, Symbol.isConstant_of_partFields? hf, one, hf, Bool.false_eq_true, if_false,
    Bool.and_eq_true] at rule
  exact rule

end IsShaped

/-- Tokens and comments hold no variables. -/
theorem reads_of_isToken (fits : p.fits = true) (h : p.isToken = true)
    (hv : p.symbol.isVariable = false) : p.reads setting = [] := by
  simp only [Parsed.fits, hv, h, Bool.false_eq_true, if_false, if_true] at fits
  exact reads_of_isWord (by simp [isWord, hv, fits])

/-- What has a variable to keep is no token. -/
theorem isToken_of_mem_reads (fits : p.fits = true) (h : ℓ ∈ p.reads setting) :
    p.isToken = false := by
  cases hv : p.symbol.isVariable with
  | true =>
    simp only [Parsed.fits, hv, if_true, Bool.and_eq_true] at fits
    simp [isToken, fits.1, Symbol.isExtra_of_isVariable hv]
  | false =>
    apply Bool.eq_false_iff.mpr
    intro token
    rw [reads_of_isToken fits token hv] at h
    cases h

/-! ## Nodes that hold a variable -/

/-- The node of a shaped parse holds a variable that is to be kept. -/
structure Holds (p : Parsed) (setting : Setting) (ℓ : Parsed) : Prop where
  shaped : p.IsShaped
  mem : ℓ ∈ p.reads setting

namespace Holds

theorem isToken_eq_false (h : p.Holds setting ℓ) : p.isToken = false :=
  isToken_of_mem_reads h.shaped.fits h.mem

/-- The rule for the node, if it is not the variable itself. -/
theorem rule (h : p.Holds setting ℓ) (hv : p.symbol.isVariable = false) :
    (p.symbol = .object ∨ ∀ c ∈ p.children, c.symbol ≠ .shorthandPropertyIdentifier) ∧
      p.partsFit = true := h.shaped.rule h.isToken_eq_false hv

/-- Constants hold no variables. -/
theorem isConstant_eq_false (h : p.Holds setting ℓ) : p.symbol.isConstant = false := by
  apply Bool.eq_false_iff.mpr
  intro constant
  have hv := Symbol.isVariable_of_isConstant constant
  have words := (h.rule hv).2
  rw [partsFit, if_pos constant] at words
  obtain ⟨c, hc, hr⟩ := (mem_reads hv).mp h.mem
  rw [reads_of_isWord (List.all_eq_true.mp words c (mem_children_of_kept hc))] at hr
  cases hr

theorem isMark_eq_false (h : p.Holds setting ℓ) : p.isMark = false := by
  rw [isMark, h.isConstant_eq_false, h.isToken_eq_false, Bool.or_self]

/-- The variable in a name is the name itself. -/
theorem eq_of_isName (h : p.Holds setting ℓ) (isName : p.isName = true) :
    ℓ = p ∧ ℓ.readKind = .identifier := by
  simp only [Parsed.isName, h.isToken_eq_false, h.isConstant_eq_false, Bool.or_false,
    Bool.and_eq_true, decide_eq_true_eq] at isName
  have mem := h.mem
  rw [reads_of_isVariable isName.2, List.mem_singleton] at mem
  subst mem
  exact ⟨rfl, if_neg isName.1⟩

section

variable {s : Symbol} (hs : p.symbol = s)

include hs

theorem hasOnePart (h : p.Holds setting ℓ) (one : s.hasOnePart = true) :
    p.named.length ≤ 1 ∧
      (s = .namespaceImport ∨ s = .namespaceExport → p.named.all Parsed.isName = true) := by
  subst hs
  have rule := (h.rule (Symbol.plain_of_hasOnePart one).1).2
  simp only [partsFit, h.isConstant_eq_false, one, Bool.false_eq_true, if_false, if_true,
    Bool.and_eq_true, Bool.or_eq_true, decide_eq_true_eq] at rule
  refine ⟨rule.1, fun namespaces => rule.2.resolve_left ?_⟩
  rintro ⟨notImport, notExport⟩
  exact namespaces.elim notImport notExport

theorem standsInFields (h : p.Holds setting ℓ) {fields : List String}
    (hf : s.partFields? = some fields) :
    p.standsInFields fields s.freeParts = true ∧ p.fieldsFit = true :=
  h.shaped.standsInFields h.isToken_eq_false hs hf

theorem listFits (h : p.Holds setting ℓ) (hv : s.isVariable = false)
    (one : s.hasOnePart = false) (hf : s.partFields? = none) : p.listFits = true := by
  subst hs
  have rule := (h.rule hv).2
  simpa only [partsFit, h.isConstant_eq_false, one, hf, Bool.false_eq_true, if_false] using rule

/-- The parts of a node of which only some symbols may be. -/
theorem symbol_mem (h : p.Holds setting ℓ) {symbols : List Symbol}
    (hl : s.partSymbols? = some symbols) (hc : c ∈ p.named) : c.symbol ∈ symbols := by
  have plain : s.isVariable = false ∧ s.hasOnePart = false ∧ s.partFields? = none := by
    cases s <;> first | exact ⟨rfl, rfl, rfl⟩ | cases hl
  have fits : p.listFits = true := h.listFits hs plain.1 plain.2.1 plain.2.2
  have all : p.listFits = p.named.all fun c => symbols.contains c.symbol := by
    rw [Parsed.listFits, hs]
    cases s <;> cases hl <;> rfl
  rw [all] at fits
  exact List.contains_iff_mem.mp (List.all_eq_true.mp fits c hc)

end

/-- The variable comes from a part of the node that is looked at. -/
theorem exists_named (h : p.Holds setting ℓ) (hv : p.symbol.isVariable = false) :
    ∃ c ∈ p.named, c ∈ p.kept setting ∧ c.Holds (p.settingOf c) ℓ ∧
      (p.symbol = .object ∨ c.symbol ≠ .shorthandPropertyIdentifier) := by
  obtain ⟨c, hc, hr⟩ := (mem_reads hv).mp h.mem
  have mem := mem_children_of_kept hc
  have holds : c.Holds (p.settingOf c) ℓ := ⟨h.shaped.child mem, hr⟩
  have token := holds.isToken_eq_false
  simp only [isToken, Bool.or_eq_false_iff, Bool.not_eq_false'] at token
  exact ⟨c, List.mem_filter.mpr ⟨mem, by simp [token]⟩, hc, holds,
    (h.rule hv).1.imp_right fun all => all c mem⟩

end Holds

end Parsed

end FreeNames
