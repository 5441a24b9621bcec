import FreeNames.Resolution.Report

/-!
# Resolvers

A resolver keeps what its runs find: references, scopes, and the nodes that enclose the point
reached.  A run goes on from what is there.  As soon as there is a reference or a scope the
resolver is spent: it refuses every further tree and keeps what it has.

* `Report.replay` replays events on top of a report and says what is there when a fault ends the
  replay; without a fault it is the fold of `Report.add`.
* The traversal recurses, so a call may run out of stack, and how much of it there is depends on the
  caller.  A `Call` says with its tree where that happens, if it does; `Report.traverse` ends the
  replay there and leaves everything as it is at that moment.
-/

namespace FreeNames

/-- The references with a group for the name, which is empty if it is new. -/
def openGroup (name : Text) (refs : List Reference) : List Reference :=
  if refs.any fun r => r.name = name then refs else refs ++ [⟨name, []⟩]

/-- Why a resolver gives no report. -/
inductive Refusal where
  /-- The resolver has served a run. -/
  | spent
  /-- The tree could not be read to its end. -/
  | fault (f : Fault)
  /-- The stack was too small for the tree. -/
  | exhausted
  deriving DecidableEq, Repr

def Refusal.message : Refusal → Text
  | .spent => "ReferenceResolver instances are single-use"
  | .fault f => f.message
  | .exhausted => "maximum recursion depth exceeded"

/-- Where a traversal runs out of stack: behind some events, before or in the midst of the next. -/
structure Cut where
  events : Nat
  /-- How many declarations the next event has made, if it has begun. -/
  begun : Option Nat
  deriving DecidableEq, Repr

/-- A node to resolve, and where its traversal runs out of stack, if it does. -/
structure Call where
  root : Node
  cut : Option Cut

namespace Report

/-- What is left of an event that ends in a fault.  The group of a name is opened before the access
path of its reference is read. -/
def interrupted (r : Report) : Event → Report
  | .free name _ => { r with references := openGroup name r.references }
  | _ => r

/-- What is left of an event that has begun and has made some of its declarations. -/
def begun (r : Report) (made : Nat) : Event → Report
  | .enter n outer => { r with scopes := r.scopes.begin n (outer.bind r.scopes.scopeOf?) made }
  | e => r.interrupted e

/-- Replay events on top of a report, up to the first that ends in a fault. -/
def replay (r : Report) : List Event → Option Fault × Report
  | [] => (none, r)
  | e :: rest =>
    match r.add e with
    | .ok next => next.replay rest
    | .error f => (some f, r.interrupted e)

/-- Replay the events of a traversal that may run out of stack. -/
def traverse (r : Report) (events : List Event) : Option Cut → Option Refusal × Report
  | none =>
    match r.replay events with
    | (none, left) => (none, left)
    | (some f, left) => (some (.fault f), left)
  | some cut =>
    match r.replay (events.take cut.events) with
    | (none, left) => (some .exhausted, match cut.begun, events[cut.events]? with
      | some made, some e => left.begun made e
      | _, _ => left)
    | (some f, left) => (some (.fault f), left)

end Report

/-- A resolver: what its runs have found, and whether the last run ended early. -/
structure Resolver where
  found : Report
  faulted : Bool

namespace Resolver

def new (reportArrowArguments : Bool) : Resolver := ⟨.empty reportArrowArguments, false⟩

/-- Has a run found a reference or opened a scope? -/
def isSpent (r : Resolver) : Bool :=
  !r.found.references.isEmpty || !r.found.scopes.entered.isEmpty

/-- The report of the last run, unless that ended early. -/
def report (r : Resolver) : Option Report := if r.faulted then none else some r.found

/-- Resolve a tree, unless the resolver is spent. -/
def resolve (r : Resolver) (c : Call) : Except Refusal Report × Resolver :=
  if r.isSpent then (.error .spent, r)
  else
    match r.found.traverse (c.root.events r.found.scopes.reportArrowArguments) c.cut with
    | (none, found) => (.ok found, ⟨found, false⟩)
    | (some e, found) => (.error e, ⟨found, true⟩)

end Resolver

end FreeNames
