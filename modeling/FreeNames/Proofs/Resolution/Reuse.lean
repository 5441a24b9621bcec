import FreeNames.Proofs.Resolution.AccessPath
import FreeNames.Proofs.Resolution.Progress
import FreeNames.Proofs.Resolution.Reach
import FreeNames.Resolution.Resolver

/-!
# Resolvers that are called again

A resolver refuses a call if it has references or scopes, and goes on with all that it has if not.
So a call may be answered only if the calls before it have left nothing at all: no reference and no
scope, and also no global scope and no node on the stack.

* `Report.eq_empty_of_not_isMarked`: a run that leaves neither reference nor scope leaves nothing.
* `Resolver.spent_or_new`: after calls with nodes of laid out trees, none of which has run out of
  stack, a resolver is spent or as new.
* `Resolver.ServesOnce` says what this makes of a sequence of calls, and `Resolver.servesOnce` that
  it is so.
* A call that runs out of stack may leave nodes on the stack of the resolver and nothing else, and
  the next call reads its access paths through them: `Resolver.resolve_name` and
  `Resolver.deepParameter_misleads`.
-/

namespace FreeNames

open Node

/-! ## Replays and what they leave -/

namespace Report

variable {r r' : Report} {e : Event} {events : List Event} {f : Fault}

/-- A replay without a fault is a fold; otherwise the fold has the fault. -/
theorem foldlM_add_eq_replay (events : List Event) (r : Report) :
    events.foldlM add r = match r.replay events with
      | (none, r') => .ok r'
      | (some f, _) => .error f := by
  induction events generalizing r with
  | nil => rfl
  | cons e events ih =>
    rw [List.foldlM_cons, replay]
    cases h : r.add e with
    | ok next => exact ih next
    | error f => rfl

theorem foldlM_of_replay (h : r.replay events = (none, r')) : events.foldlM add r = .ok r' := by
  rw [foldlM_add_eq_replay, h]

/-- What ends a replay in a fault ends every longer one. -/
theorem replay_of_take {k : Nat} (h : r.replay (events.take k) = (some f, r')) :
    r.replay events = (some f, r') := by
  induction events generalizing r k with
  | nil => rwa [List.take_nil] at h
  | cons e events ih =>
    cases k with
    | zero => cases h
    | succ k =>
      rw [List.take_succ_cons, replay] at h
      rw [replay]
      cases first : r.add e with
      | ok next =>
        rw [first] at h
        exact ih h
      | error g =>
        rw [first] at h
        exact h

/-- A traversal is never refused. -/
theorem traverse_ne_spent {cut : Option Cut} : (r.traverse events cut).1 ≠ some .spent := by
  cases cut <;> (rw [traverse]; split <;> exact nofun)

/-- A traversal that does not run out of stack is one with stack enough. -/
theorem traverse_of_ne {cut : Option Cut} (h : (r.traverse events cut).1 ≠ some .exhausted) :
    r.traverse events cut = r.traverse events none := by
  cases cut with
  | none => rfl
  | some cut =>
    rw [traverse] at h ⊢
    split at h
    · exact absurd rfl h
    · next run =>
      rw [traverse, replay_of_take run]

/-- There is a reference or a scope. -/
def IsMarked (r : Report) : Prop := r.references ≠ [] ∨ r.scopes.entered ≠ []

theorem recordOccurrence_ne_nil (name : Text) (o : Occurrence) (refs : List Reference) :
    recordOccurrence name o refs ≠ [] := by
  cases refs with
  | nil => exact List.cons_ne_nil _ _
  | cons r rest =>
    unfold recordOccurrence
    split <;> exact List.cons_ne_nil _ _

theorem openGroup_ne_nil (name : Text) (refs : List Reference) : openGroup name refs ≠ [] := by
  unfold openGroup
  split
  · next h =>
    obtain ⟨r, hr, -⟩ := List.any_eq_true.mp h
    exact List.ne_nil_of_mem hr
  · exact List.append_ne_nil_of_right_ne_nil _ (List.cons_ne_nil _ _)

theorem remember_ne_nil (entered : List (Node × Nat)) (n : Node) (s : Nat) :
    Builder.remember entered n s ≠ [] := by
  unfold Builder.remember
  split
  · next h =>
    obtain ⟨x, hx, -⟩ := List.any_eq_true.mp h
    exact fun nil => List.ne_nil_of_mem hx (List.map_eq_nil_iff.mp nil)
  · exact List.append_ne_nil_of_right_ne_nil _ (List.cons_ne_nil _ _)

/-- A name that is read adds one occurrence. -/
theorem exists_occurrence_of_add {name : Text} {n : Node} (h : r.add (.free name n) = .ok r') :
    ∃ o, r' = { r with references := recordOccurrence name o r.references } := by
  rw [add] at h
  cases read : Occurrence.read n r.enclosing with
  | error f =>
    rw [read] at h
    cases h
  | ok o =>
    rw [read] at h
    exact ⟨o, (Except.ok.inj h).symm⟩

/-- An event leaves a reference, leaves a scope, or touches only the stack. -/
theorem isMarked_or_of_add (h : r.add e = .ok r') :
    r'.IsMarked ∨ (r'.references = r.references ∧ r'.scopes = r.scopes) := by
  cases e with
  | enter n outer =>
    cases h
    exact Or.inl (Or.inr (remember_ne_nil _ _ _))
  | push n =>
    cases h
    exact Or.inr ⟨rfl, rfl⟩
  | pop =>
    cases h
    exact Or.inr ⟨rfl, rfl⟩
  | free name n =>
    obtain ⟨o, rfl⟩ := exists_occurrence_of_add h
    exact Or.inl (Or.inl (recordOccurrence_ne_nil _ _ _))
  | stuck f => cases h

/-- So what a run leaves without a mark has the references and scopes that it began with. -/
theorem isMarked_or_of_foldlM (h : events.foldlM add r = .ok r') :
    r'.IsMarked ∨ (r'.references = r.references ∧ r'.scopes = r.scopes) := by
  induction events generalizing r with
  | nil =>
    cases h
    exact Or.inr ⟨rfl, rfl⟩
  | cons e events ih =>
    rw [List.foldlM_cons] at h
    cases first : r.add e with
    | error f =>
      rw [first] at h
      cases h
    | ok next =>
      rw [first] at h
      obtain marked | ⟨references, scopes⟩ := ih h
      · exact Or.inl marked
      · obtain marked | ⟨references', scopes'⟩ := isMarked_or_of_add first
        · exact Or.inl (marked.imp (references ▸ ·) (scopes ▸ ·))
        · exact Or.inr ⟨references.trans references', scopes.trans scopes'⟩

/-- The nodes entered have scopes, and every scope belongs to one. -/
def ScopesAgree (r : Report) : Prop := r.scopes.entered ≠ [] ↔ 0 < r.scopes.forest.size

theorem scopesAgree_add (agree : r.ScopesAgree) (h : r.add e = .ok r') : r'.ScopesAgree := by
  cases e with
  | enter n outer =>
    cases h
    refine iff_of_true (remember_ne_nil _ _ _) ?_
    show 0 < (r.scopes.forest.openScope _ _ _ _).size
    rw [Forest.size_openScope]
    exact Nat.succ_pos _
  | push n =>
    cases h
    exact agree
  | pop =>
    cases h
    exact agree
  | free name n =>
    obtain ⟨o, rfl⟩ := exists_occurrence_of_add h
    exact agree
  | stuck f => cases h

theorem scopesAgree_replay (agree : r.ScopesAgree) (events : List Event) :
    (r.replay events).2.ScopesAgree := by
  induction events generalizing r with
  | nil => exact agree
  | cons e events ih =>
    rw [replay]
    split
    · next first => exact ih (scopesAgree_add agree first)
    · cases e with
      | free name n => exact agree
      | _ => exact agree

/-- A replay that meets no missing part and ends in a fault has opened the group of the reference
whose access path has the fault. -/
theorem references_ne_nil_of_fault (clean : ∀ f, .stuck f ∉ events)
    (h : r.replay events = (some f, r')) : r'.references ≠ [] := by
  induction events generalizing r with
  | nil => cases h
  | cons e events ih =>
    have rest : ∀ f, .stuck f ∉ events := fun f hf => clean f (List.mem_cons_of_mem _ hf)
    rw [replay] at h
    split at h
    · exact ih rest h
    · next g failed =>
      cases h
      cases e with
      | free name n => exact openGroup_ne_nil _ _
      | stuck g => exact absurd (List.mem_cons_self ..) (clean g)
      | _ => cases failed

end Report

/-! ## Runs that leave no mark -/

/-- The node stands in a laid out tree. -/
def Node.InLaid (n : Node) : Prop := ∃ root : Node, root.Laid ∧ n ∈ root.preorder

namespace Node.InLaid

variable {n : Node} {report : Bool}

theorem builtThroughout (h : n.InLaid) : n.BuiltThroughout true := by
  obtain ⟨root, laid, mem⟩ := h
  exact laid.builtThroughout.of_mem_preorder mem

theorem declaratorsHold (h : n.InLaid) : n.DeclaratorsHold := by
  obtain ⟨root, laid, mem⟩ := h
  have plain : n.PlainDeclarators := fun m hm => laid.plainDeclarators m (mem_preorder_trans mem hm)
  exact plain.declaratorsHold

theorem isSafe (h : n.InLaid) (report : Bool) : ∀ e ∈ n.events report, e.IsSafe :=
  Visit.safe_events h.builtThroughout

theorem clean (h : n.InLaid) (f : Fault) : .stuck f ∉ n.events report :=
  fun hf => h.isSafe report _ hf

/-- The only fault that a run can end in is a key that is too long to write. -/
theorem eq_keyTooLong (h : n.InLaid) {f : Fault} {left : Report}
    (run : (Report.empty report).replay (n.events report) = (some f, left)) : f = .keyTooLong := by
  have folded := Report.foldlM_add_eq_replay (n.events report) (.empty report)
  rw [run] at folded
  obtain ⟨r, ok⟩ | long := Report.foldlM_of_safe (r := .empty report) (List.forall_mem_nil _)
    (h.isSafe report)
  · cases folded.symm.trans ok
  · exact Except.error.inj (folded.symm.trans long)

end Node.InLaid

/-- A run that leaves neither a reference nor a scope leaves nothing. -/
theorem Report.eq_empty_of_not_isMarked {n : Node} {report : Bool} (h : n.InLaid) {r : Report}
    (run : Report.ofTree report n = .ok r) (unmarked : ¬ r.IsMarked) : r = .empty report := by
  have follows : Follows report n [] .start ((n.events report).map .emit) :=
    Node.follows_events h.declaratorsHold
  obtain ⟨stack, -⟩ := Report.recorded_of_follows follows run rfl (by simp [occurrences, empty])
  obtain ⟨references, scopes⟩ := (isMarked_or_of_foldlM run).resolve_left unmarked
  obtain ⟨refs, builder, enclosing⟩ := r
  obtain rfl : refs = [] := references
  obtain rfl : builder = .new report := scopes
  obtain rfl : enclosing = [] := stack
  rfl

/-! ## Calls -/

namespace Resolver

variable {r : Resolver} {c : Call} {calls : List Call} {report : Bool}

theorem isSpent_iff : r.isSpent = true ↔ r.found.IsMarked := by
  simp [isSpent, Report.IsMarked]

theorem resolve_of_isSpent (spent : r.isSpent = true) (c : Call) :
    r.resolve c = (.error .spent, r) := by
  rw [resolve, if_pos spent]

theorem refused_iff : (r.resolve c).1 = .error .spent ↔ r.isSpent = true := by
  constructor
  · intro refused
    by_contra unspent
    rw [resolve, if_neg unspent] at refused
    split at refused
    · cases refused
    · next e left run =>
      obtain rfl : e = .spent := Except.error.inj refused
      exact Report.traverse_ne_spent (congrArg Prod.fst run)
  · exact fun spent => by rw [resolve_of_isSpent spent]

/-- A call that does not run out of stack is one with stack enough. -/
theorem resolve_of_ne (h : (r.resolve c).1 ≠ .error .exhausted) :
    r.resolve c = r.resolve ⟨c.root, none⟩ := by
  by_cases spent : r.isSpent = true
  · rw [resolve_of_isSpent spent, resolve_of_isSpent spent]
  · rw [resolve, if_neg spent] at h
    rw [resolve, if_neg spent, resolve, if_neg spent, Report.traverse_of_ne fun exhausted => ?_]
    split at h
    · next run =>
      rw [run] at exhausted
      cases exhausted
    · next run =>
      rw [run] at exhausted
      cases exhausted
      exact h rfl

/-- With stack enough, a resolver that is not spent replays the run of the tree. -/
theorem resolve_uncut (unspent : ¬r.isSpent = true) (n : Node) : r.resolve ⟨n, none⟩ =
    match r.found.replay (n.events r.found.scopes.reportArrowArguments) with
    | (none, found) => (.ok found, ⟨found, false⟩)
    | (some f, found) => (.error (.fault f), ⟨found, true⟩) := by
  rw [resolve, if_neg unspent, Report.traverse]
  cases r.found.replay (n.events r.found.scopes.reportArrowArguments) with
  | mk fault found => cases fault <;> rfl

/-- A new one replays it on top of nothing. -/
theorem resolve_new (report : Bool) (n : Node) : (new report).resolve ⟨n, none⟩ =
    match (Report.empty report).replay (n.events report) with
    | (none, found) => (.ok found, ⟨found, false⟩)
    | (some f, found) => (.error (.fault f), ⟨found, true⟩) :=
  resolve_uncut (r := new report) Bool.false_ne_true n

/-- What a call returns, the resolver holds. -/
theorem found_of_ok {a : Report} (h : (r.resolve c).1 = .ok a) : (r.resolve c).2.found = a := by
  unfold resolve at h ⊢
  split at h
  · cases h
  · next unspent =>
    rw [if_neg unspent]
    split at h
    · cases h
      rfl
    · cases h

/-- The resolver after these calls, one after the other. -/
def after (r : Resolver) (calls : List Call) : Resolver :=
  calls.foldl (fun r c => (r.resolve c).2) r

theorem after_cons (r : Resolver) (c : Call) (rest : List Call) :
    r.after (c :: rest) = (r.resolve c).2.after rest := rfl

theorem after_concat (r : Resolver) (calls : List Call) (c : Call) :
    r.after (calls ++ [c]) = ((r.after calls).resolve c).2 := List.foldl_concat ..

/-- What these calls answer. -/
def answers (r : Resolver) : List Call → List (Except Refusal Report)
  | [] => []
  | c :: rest => (r.resolve c).1 :: (r.resolve c).2.answers rest

/-- None of these calls runs out of stack. -/
def Suffices (r : Resolver) (calls : List Call) : Prop := .error .exhausted ∉ r.answers calls

theorem suffices_cons {rest : List Call} : r.Suffices (c :: rest) ↔
    (r.resolve c).1 ≠ .error .exhausted ∧ (r.resolve c).2.Suffices rest := by
  rw [Suffices, answers, List.mem_cons, not_or]
  exact and_congr ne_comm Iff.rfl

theorem suffices_of_uncut (uncut : ∀ c ∈ calls, c.cut = none) : r.Suffices calls := by
  induction calls generalizing r with
  | nil => exact List.not_mem_nil
  | cons c rest ih =>
    obtain ⟨here, others⟩ := List.forall_mem_cons.mp uncut
    obtain ⟨n, cut⟩ := c
    obtain rfl : cut = none := here
    refine suffices_cons.mpr ⟨?_, ih others⟩
    by_cases spent : r.isSpent = true
    · rw [resolve_of_isSpent spent]
      exact nofun
    · rw [resolve_uncut spent]
      split <;> exact nofun

theorem after_of_isSpent (spent : r.isSpent = true) (calls : List Call) : r.after calls = r := by
  induction calls with
  | nil => rfl
  | cons c rest ih =>
    rw [after_cons, resolve_of_isSpent spent]
    exact ih

theorem answers_of_isSpent (spent : r.isSpent = true) (calls : List Call) :
    ∀ a ∈ r.answers calls, a = .error .spent := by
  induction calls with
  | nil => exact List.forall_mem_nil _
  | cons c rest ih =>
    rw [answers, resolve_of_isSpent spent]
    exact List.forall_mem_cons.mpr ⟨rfl, ih⟩

/-- What has references when it is returned is still there after all later calls. -/
theorem found_after_of_mem_answers {a : Report} (h : .ok a ∈ r.answers calls)
    (some : a.references ≠ []) : (r.after calls).found = a := by
  induction calls generalizing r with
  | nil => cases h
  | cons c rest ih =>
    rw [after_cons]
    rcases List.mem_cons.mp h with here | later
    · have found := found_of_ok here.symm
      have spent : (r.resolve c).2.isSpent = true := isSpent_iff.mpr (Or.inl (found ▸ some))
      rw [after_of_isSpent spent, found]
    · exact ih later

/-- One call with a node of a laid out tree, if it does not run out of stack, spends a new resolver
or leaves it as new. -/
theorem spent_or_new_of_resolve (h : c.root.InLaid)
    (ample : ((new report).resolve c).1 ≠ .error .exhausted) :
    ((new report).resolve c).2.isSpent = true ∨ ((new report).resolve c).2 = new report := by
  rw [resolve_of_ne ample, resolve_new]
  split
  · next found run =>
    by_cases marked : found.IsMarked
    · exact Or.inl (isSpent_iff.mpr marked)
    · have nothing := Report.eq_empty_of_not_isMarked h (Report.foldlM_of_replay run) marked
      exact Or.inr (congrArg (Resolver.mk · false) nothing)
  · next f found run =>
    exact Or.inl (isSpent_iff.mpr (Or.inl (Report.references_ne_nil_of_fault h.clean run)))

/-- So does any number of calls. -/
theorem spent_or_new (all : ∀ c ∈ calls, c.root.InLaid) (ample : (new report).Suffices calls) :
    ((new report).after calls).isSpent = true ∨ (new report).after calls = new report := by
  induction calls with
  | nil => exact Or.inr rfl
  | cons c rest ih =>
    obtain ⟨here, others⟩ := List.forall_mem_cons.mp all
    obtain ⟨first, later⟩ := suffices_cons.mp ample
    rw [after_cons]
    obtain spent | unchanged := spent_or_new_of_resolve here first
    · rw [after_of_isSpent spent]
      exact Or.inl spent
    · rw [unchanged] at later ⊢
      exact ih others later

theorem scopesAgree_resolve (agree : r.found.ScopesAgree)
    (ample : (r.resolve c).1 ≠ .error .exhausted) : (r.resolve c).2.found.ScopesAgree := by
  by_cases spent : r.isSpent = true
  · rwa [resolve_of_isSpent spent]
  have replayed := Report.scopesAgree_replay agree
    (c.root.events r.found.scopes.reportArrowArguments)
  rw [resolve_of_ne ample, resolve_uncut spent]
  split
  all_goals
    next run =>
      rw [run] at replayed
      exact replayed

theorem scopesAgree_after (agree : r.found.ScopesAgree) (ample : r.Suffices calls) :
    (r.after calls).found.ScopesAgree := by
  induction calls generalizing r with
  | nil => exact agree
  | cons c rest ih =>
    obtain ⟨first, later⟩ := suffices_cons.mp ample
    exact ih (scopesAgree_resolve agree first) later

/-- With stack enough, a resolver is spent as soon as there is a reference or a scope. -/
theorem isMarked_after_iff (ample : (new report).Suffices calls) :
    ((new report).after calls).found.IsMarked ↔
      ((new report).after calls).found.references ≠ [] ∨
        0 < ((new report).after calls).found.scopes.forest.size :=
  have start : (new report).found.ScopesAgree := iff_of_false (fun h => h rfl) (Nat.lt_irrefl 0)
  or_congr Iff.rfl (scopesAgree_after start ample)

/-! ## Sequences of calls -/

/-- What a resolver that was made with an option and has had some calls makes of the next one. -/
structure ServesOnce (report : Bool) (before : List Call) (r : Resolver) (c : Call) : Prop where
  /-- If no call before it has run out of stack, a call that returns gives what a new resolver
  gives, and leaves what that is left with. -/
  returns : (new report).Suffices before →
    ∀ a, (r.resolve c).1 = .ok a → (new report).resolve c = (.ok a, (r.resolve c).2)
  /-- Calls are refused from the first reference or scope on, and not before. -/
  refuses : (r.resolve c).1 = .error .spent ↔ r.found.IsMarked
  /-- A refused call changes nothing. -/
  unchanged : (r.resolve c).1 = .error .spent → (r.resolve c).2 = r
  /-- The only other ends are that of the stack and a key too long to write, which a new resolver
  meets as well. -/
  faults : (new report).Suffices before → ∀ f, (r.resolve c).1 = .error (.fault f) →
    f = .keyTooLong ∧ (new report).resolve c = r.resolve c
  /-- References that were returned stay as they were. -/
  keeps : ∀ a, .ok a ∈ (new report).answers before → a.references ≠ [] →
    (r.resolve c).2.found.references = a.references
  /-- Once there is a reference or a scope, every later call is refused. -/
  spends : (r.resolve c).2.found.IsMarked →
    ∀ later, ∀ a ∈ (r.resolve c).2.answers later, a = .error .spent
  /-- With stack enough there is no scope but those of the nodes entered. -/
  scopes : (new report).Suffices (before ++ [c]) → ((r.resolve c).2.found.IsMarked ↔
    (r.resolve c).2.found.references ≠ [] ∨ 0 < (r.resolve c).2.found.scopes.forest.size)

/-- A resolver may be called again and again, with nodes of any laid out trees: until a call runs
out of stack, every call is answered as if it were the first, or refused. -/
theorem servesOnce (report : Bool) {before : List Call} {c : Call}
    (all : ∀ d ∈ before ++ [c], d.root.InLaid) :
    ServesOnce report before ((new report).after before) c := by
  have here : c.root.InLaid := all c (List.mem_append_right _ (List.mem_singleton_self c))
  have earlier : ∀ d ∈ before, d.root.InLaid := fun d hd => all d (List.mem_append_left _ hd)
  -- An unspent resolver is a new one, so all that is asked of it is asked of a first call.
  have unspent (ample : (new report).Suffices before)
      (other : (((new report).after before).resolve c).1 ≠ .error .spent) :
      (new report).after before = new report :=
    (spent_or_new earlier ample).resolve_left fun spent => other (refused_iff.mpr spent)
  refine ⟨fun ample a ha => ?_, refused_iff.trans isSpent_iff, fun refused => ?_,
    fun ample f hf => ?_, fun a ha some => ?_, fun marked => ?_, fun ample => ?_⟩
  · have same := unspent ample (by rw [ha]; exact nofun)
    rw [same] at ha ⊢
    exact Prod.ext ha rfl
  · rw [resolve_of_isSpent (refused_iff.mp refused)]
  · have same := unspent ample (by rw [hf]; exact nofun)
    rw [same] at hf ⊢
    refine ⟨?_, rfl⟩
    rw [resolve_of_ne (by rw [hf]; exact nofun), resolve_new] at hf
    split at hf
    · cases hf
    · next run =>
      cases hf
      exact here.eq_keyTooLong run
  · have found := found_after_of_mem_answers ha some
    have spent : ((new report).after before).isSpent = true :=
      isSpent_iff.mpr (Or.inl (found ▸ some))
    rw [resolve_of_isSpent spent, found]
  · exact answers_of_isSpent (isSpent_iff.mpr marked)
  · rw [← after_concat]
    exact isMarked_after_iff ample

/-- The program `1; a.b;`. -/
def literalThenAccess : Node :=
  .mk 0 .program default [("body", .list
      [.node literalStatement, .node (.mk 3 .expressionStatement default
        [("expression", .node access)])]),
    ("sourceType", .text "module")]
where
  /-- The statement `1;`. -/
  literalStatement : Node := .mk 1 .expressionStatement default
    [("expression", .node (.mk 2 .literal default [("value", .int 1), ("raw", .text "1")]))]
  /-- The expression `a.b`. -/
  access : Node := .mk 4 .memberExpression default
    [("object", .node (.mk 5 .identifier default [("name", .text "a")])),
      ("property", .node (.mk 6 .identifier default [("name", .text "b")])),
      ("computed", .bool false), ("optional", .bool false)]
  /-- Calls with stack enough for each of these, and for the program. -/
  calls : List Call := [⟨literalStatement, none⟩, ⟨access, none⟩]

/-- After a statement that leaves nothing an access is answered as by a new resolver, and then the
program is refused. -/
theorem literalThenAccess_servesOnce :
    (∀ c ∈ literalThenAccess.calls ++ [⟨literalThenAccess, none⟩], c.root.InLaid) ∧
    (new true).Suffices (literalThenAccess.calls ++ [⟨literalThenAccess, none⟩]) ∧
    ServesOnce true literalThenAccess.calls ((new true).after literalThenAccess.calls)
      ⟨literalThenAccess, none⟩ ∧
    ((new true).answers (literalThenAccess.calls ++ [⟨literalThenAccess, none⟩])).map
        (fun a => a.toOption.map fun r => r.references.map Reference.name) =
      [some [], some [Text.ofString "a"], none] := by
  have laid : literalThenAccess.Laid := by decide_cbv
  have nodes : literalThenAccess.preorder = [literalThenAccess, literalThenAccess.literalStatement,
      .mk 2 .literal default [("value", .int 1), ("raw", .text "1")],
      .mk 3 .expressionStatement default [("expression", .node literalThenAccess.access)],
      literalThenAccess.access, .mk 5 .identifier default [("name", .text "a")],
      .mk 6 .identifier default [("name", .text "b")]] := by cbv
  have all : ∀ c ∈ literalThenAccess.calls ++ [⟨literalThenAccess, none⟩], c.root.InLaid := by
    intro c hc
    refine ⟨literalThenAccess, laid, ?_⟩
    rw [nodes]
    simp only [literalThenAccess.calls, List.cons_append, List.nil_append, List.mem_cons,
      List.not_mem_nil, or_false] at hc ⊢
    rcases hc with rfl | rfl | rfl <;> simp
  exact ⟨all, suffices_of_uncut (by simp [literalThenAccess.calls]), servesOnce true all, by cbv⟩

/-! ## Calls that run out of stack -/

/-- A name that is a whole tree is free. -/
theorem events_of_identifier {n : Node} (hk : n.kind = .identifier) {name : Text}
    (hn : n.text "name" = .ok name) (report : Bool) : n.events report = [.free name n] := by
  have unbound : isBound [] name = false := rfl
  rw [Node.events, Visit.events_eq]
  simp [Visit.steps, Node.visit, Visit.readSteps, hk, Visit.identifierSteps, isReadPosition, hn,
    need, unbound, Step.events]

/-- An unspent resolver reads the access path of a name through whatever it has on its stack, also
if that is what a call without stack enough has left there. -/
theorem resolve_name (unspent : ¬r.isSpent = true) {n : Node} (hk : n.kind = .identifier)
    {name : Text} (hn : n.text "name" = .ok name) {o : Occurrence}
    (read : Occurrence.read n r.found.enclosing = .ok o) : (r.resolve ⟨n, none⟩).1 =
      .ok { r.found with references := recordOccurrence name o r.found.references } := by
  rw [resolve_uncut unspent, events_of_identifier hk hn, Report.replay, Report.add, read]
  rfl

/-- The expression `(function ([]) {}).m`. -/
def deepParameter : Node :=
  .mk 0 .memberExpression default
    [("object", .node (.mk 1 .functionExpression default
      [("id", .null), ("params", .list [.node (.mk 2 .arrayPattern default [("elements", .list [])])]),
        ("body", .node (.mk 3 .blockStatement default [("body", .list [])])),
        ("generator", .bool false), ("async_", .bool false)])),
      ("property", .node (.mk 4 .identifier default [("name", .text "m")])),
      ("computed", .bool false), ("optional", .bool false)]
where
  /-- The name `foo`. -/
  name : Node := .mk 5 .identifier default [("name", .text "foo")]
  /-- The stack runs out while the scope of the function is opened, with the access on the
  resolver's stack; then the name is resolved with stack enough. -/
  calls : List Call := [⟨deepParameter, some ⟨1, some 1⟩⟩, ⟨name, none⟩]

/-- A call that ran out of stack has left no reference and no scope, but an access: the next call
takes the name for the beginning of it. -/
theorem deepParameter_misleads :
    ((new true).answers deepParameter.calls).map (fun a => a.toOption.map fun r =>
        r.references.map fun g => g.occurrences.map Occurrence.qualified) =
      [none, some [[Text.ofString "foo.m"]]] ∧
    ((new true).answers [⟨deepParameter.name, none⟩]).map (fun a => a.toOption.map fun r =>
        r.references.map fun g => g.occurrences.map Occurrence.qualified) =
      [some [[Text.ofString "foo"]]] := by
  constructor <;> cbv

end Resolver

end FreeNames
