import FreeNames.Grammar.Parsed

/-!
# The first error of a parse

A broken parse is reported for the first of its nodes that is an error or missing, although the
search for it takes nodes from a stack and passes over every part that has no error.

* `Parsed.firstErrorFrom_eq`: the search finds the first flaw of all pending nodes in preorder,
  since a part without an error has no flaw in it (`Parsed.hasError_iff`).
* `Parsed.IsReportedAs` says what a broken parse is reported for, and `Parsed.check_cases` that
  exactly the parses with an error are refused, each with such a report.
-/

namespace FreeNames.Parsed

variable {p root : Parsed}

/-! ## Flaws -/

/-- The node is an error, or it is missing in the source. -/
def IsFlawed (p : Parsed) : Prop := p.symbol = .error ∨ p.isMissing = true

/-- What is said about a node with a flaw. -/
def complaint (p : Parsed) : Text :=
  if p.symbol = .error then "syntax error"
  else "missing '" ++ Text.ofString p.symbol.name ++ "'"

theorem flaw?_eq_none_iff : p.flaw? = none ↔ ¬ p.IsFlawed := by
  unfold flaw? IsFlawed
  split <;> simp_all

theorem flaw?_eq_some {flaw : Flaw} (h : p.flaw? = some flaw) :
    p.IsFlawed ∧ flaw.message = p.complaint := by
  unfold flaw? at h
  unfold complaint
  split at h
  · next error =>
    cases h
    exact ⟨.inl error, (if_pos error).symm⟩
  · next other =>
    split at h
    · next missing =>
      cases h
      exact ⟨.inr missing, (if_neg other).symm⟩
    · cases h

/-- A node has an error exactly if it or one of the nodes below it is flagged or has a flaw. -/
theorem hasError_iff (p : Parsed) :
    p.hasError = true ↔ ∃ q ∈ p.preorder, q.isFlagged = true ∨ q.IsFlawed := by
  have here : p.hasError = true ↔
      (p.isFlagged = true ∨ p.IsFlawed) ∨ ∃ c ∈ p.children, c.hasError = true := by
    rw [hasError_eq, IsFlawed]
    simp [or_assoc]
  have below : (∃ c ∈ p.children, c.hasError = true) ↔
      ∃ c ∈ p.children, ∃ q ∈ c.preorder, q.isFlagged = true ∨ q.IsFlawed :=
    exists_congr fun c => and_congr_right fun hc => by
      have := sizeOf_lt_of_mem_children hc
      exact hasError_iff c
  rw [here, below, preorder_eq]
  constructor
  · rintro (itself | ⟨c, hc, q, hq, wrong⟩)
    · exact ⟨p, List.mem_cons_self .., itself⟩
    · exact ⟨q, List.mem_cons_of_mem _ (List.mem_flatMap.mpr ⟨c, hc, hq⟩), wrong⟩
  · rintro ⟨q, hq, wrong⟩
    rcases List.mem_cons.mp hq with rfl | hq
    · exact .inl wrong
    · obtain ⟨c, hc, hq⟩ := List.mem_flatMap.mp hq
      exact .inr ⟨c, hc, q, hq, wrong⟩
termination_by sizeOf p

/-! ## The search -/

/-- The first flaw of the pending nodes and all nodes below them, in preorder. -/
def firstFlawOf (pending : List Parsed) : Option (Flaw × Span) :=
  (pending.flatMap preorder).findSome? fun p => p.flaw?.map fun flaw => (flaw, p.span)

/-- There is nothing to find in a part without an error. -/
theorem firstFlawOf_eq_none (h : p.hasError = false) : firstFlawOf [p] = none := by
  rw [firstFlawOf, List.flatMap_singleton, List.findSome?_eq_none_iff]
  intro q hq
  have sound : q.flaw? = none := flaw?_eq_none_iff.mpr fun flawed => by
    rw [(hasError_iff p).mpr ⟨q, hq, .inr flawed⟩] at h
    cases h
  rw [sound, Option.map_none]

/-- The search on the stack passes over no flaw, and finds the first one. -/
theorem firstErrorFrom_eq (stack : List Parsed) : firstErrorFrom stack = firstFlawOf stack := by
  fun_induction firstErrorFrom stack with
  | case1 => rfl
  | case2 p pending flaw h =>
    rw [firstFlawOf, List.flatMap_cons, preorder_eq, List.cons_append, List.findSome?_cons, h]
    rfl
  | case3 p pending h ih =>
    rw [dite_eq_ite] at ih
    rw [ih]
    cases broken : p.hasError with
    | true =>
      rw [if_pos rfl, firstFlawOf, firstFlawOf, List.flatMap_append, List.flatMap_cons,
        preorder_eq p, List.cons_append, List.findSome?_cons, h]
      rfl
    | false =>
      have nothing := firstFlawOf_eq_none broken
      rw [firstFlawOf, List.flatMap_singleton] at nothing
      rw [if_neg Bool.false_ne_true, firstFlawOf, firstFlawOf, List.flatMap_cons,
        List.findSome?_append, nothing, Option.none_or]

theorem firstError_eq (root : Parsed) :
    root.firstError = root.firstFlaw.getD (.misplaced, root.span) := by
  rw [firstError, firstErrorFrom_eq, firstFlawOf, List.flatMap_singleton, firstFlaw]

/-! ## Reports -/

/-- What a broken parse is reported for: the first of all its nodes that is an error or missing, or
else an error that no node shows, which counts at the root. -/
inductive IsReportedAs (root : Parsed) (e : ParseError) : Prop
  | shown {before after : List Parsed} {p : Parsed} (order : root.preorder = before ++ p :: after)
      (first : ∀ q ∈ before, ¬ q.IsFlawed) (flawed : p.IsFlawed)
      (line : e.line = p.span.line) (column : e.column = p.span.column)
      (message : e.message = e.location ++ ": " ++ p.complaint)
  | hidden (none : ∀ q ∈ root.preorder, ¬ q.IsFlawed)
      (line : e.line = root.span.line) (column : e.column = root.span.column)
      (message : e.message = e.location ++ ": " ++ "syntax error")

theorem isReportedAs_firstError (root : Parsed) (path : Option String) :
    root.IsReportedAs
      ⟨root.firstError.1, root.firstError.2.line, root.firstError.2.column, path⟩ := by
  rw [firstError_eq]
  cases h : root.firstFlaw with
  | none =>
    refine .hidden (fun q hq => flaw?_eq_none_iff.mp ?_) rfl rfl rfl
    exact Option.map_eq_none_iff.mp (List.findSome?_eq_none_iff.mp h q hq)
  | some found =>
    obtain ⟨before, p, after, order, here, first⟩ := List.findSome?_eq_some_iff.mp h
    obtain ⟨flaw, hp, rfl⟩ := Option.map_eq_some_iff.mp here
    obtain ⟨flawed, said⟩ := flaw?_eq_some hp
    refine .shown order (fun q hq => flaw?_eq_none_iff.mp ?_) flawed rfl rfl ?_
    · exact Option.map_eq_none_iff.mp (first q hq)
    · rw [← said]
      rfl

/-- A parse is accepted as it is if it has no error, and refused otherwise, with a report of the
first node in preorder that is an error or missing. -/
theorem check_cases (root : Parsed) (path : Option String) :
    root.hasError = false ∧ root.check path = .ok root ∨
      root.hasError = true ∧
        ∃ e, root.check path = .error e ∧ e.path = path ∧ root.IsReportedAs e := by
  cases h : root.hasError with
  | false => exact .inl ⟨rfl, by rw [check, h]; rfl⟩
  | true => exact .inr ⟨rfl, _, by rw [check, h]; rfl, rfl, isReportedAs_firstError root path⟩

end FreeNames.Parsed
