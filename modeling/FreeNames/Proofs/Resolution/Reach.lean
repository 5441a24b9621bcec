import FreeNames.Proofs.Resolution.Replay
import FreeNames.Proofs.Resolution.Stack

/-!
# Reached visits

`Visit.Reaches` names an intermediate moment of a run: a visit that is made in it, and everything
that has happened before.

* `Visit.Reaches.events_eq`: what has happened is a front part of the run.
* `Visit.Reaches.standsAt`: a reached visit is the visit of a place of the tree.
* `Node.Laid.exists_reached`: in a laid out tree the scopes in force at a reached visit are those
  of its place, and they have been opened by then.
-/

namespace FreeNames

/-- In the run of a visit, after these events, another visit is made. -/
inductive Visit.Reaches (report : Bool) : Visit → List Event → Visit → Prop
  | refl (v : Visit) : Reaches report v [] v
  | step {v w u : Visit} {before after : List Step} {events : List Event}
    (split : v.steps report = before ++ .go w :: after) (rest : Reaches report w events u) :
    Reaches report v (runAll report before ++ events) u

variable {report : Bool} {root : Node} {s : Point} {stack : List Node}

/-! ## What has happened -/

theorem Visit.Reaches.events_eq {v u : Visit} {events : List Event}
    (reach : v.Reaches report events u) :
    ∃ after, v.events report = events ++ (u.events report ++ after) := by
  induction reach with
  | refl v => exact ⟨[], (List.append_nil _).symm⟩
  | @step v w u before after events split rest ih =>
    obtain ⟨others, ih⟩ := ih
    refine ⟨others ++ runAll report after, ?_⟩
    have run : v.events report = runAll report (v.steps report) := Visit.events_eq report v
    rw [run, split, runAll_append, runAll_cons_go, ih]
    simp only [List.append_assoc]

/-- The point after events. -/
def Point.afterAll (s : Point) (events : List Event) : Point := events.foldl Point.after s

theorem Point.afterAll_append (s : Point) (xs ys : List Event) :
    s.afterAll (xs ++ ys) = (s.afterAll xs).afterAll ys := List.foldl_append

theorem Point.subset_entered_afterAll (s : Point) (events : List Event) :
    s.entered ⊆ (s.afterAll events).entered := by
  induction events generalizing s with
  | nil => exact List.Subset.refl _
  | cons e events ih => exact List.Subset.trans (s.subset_entered_after e) (ih _)

/-- What has been entered was entered by an event. -/
theorem Point.mem_entered_afterAll {s : Point} {events : List Event} {n : Node}
    (hn : n ∈ (s.afterAll events).entered) :
    n ∈ s.entered ∨ n ∈ (events.filterMap Event.entered?).map Prod.fst := by
  induction events generalizing s with
  | nil => exact Or.inl hn
  | cons e events ih =>
    cases e with
    | enter m outer =>
      rcases ih hn with hn | hn
      · rcases List.mem_cons.mp hn with rfl | hn
        · exact Or.inr (List.mem_cons_self ..)
        · exact Or.inl hn
      · exact Or.inr (List.mem_cons_of_mem _ hn)
    | _ => exact ih (s := s.after _) hn

namespace Follows

/-- Events that do not get stuck leave the stack that they are said to. -/
theorem enclosing_afterAll {events : List Event}
    (h : Follows report root stack s (events.map .emit)) (clean : ∀ f, .stuck f ∉ events) :
    (s.afterAll events).enclosing = stack := by
  induction events generalizing s with
  | nil => exact h
  | cons e events ih =>
    have rest : ∀ f, .stuck f ∉ events := fun f hf => clean f (List.mem_cons_of_mem _ hf)
    cases e with
    | stuck f => exact absurd (List.mem_cons_self ..) (clean f)
    | _ => exact ih h.2 rest

/-- A visit in the middle of steps stands at a place, once the steps before have been run. -/
theorem standsAt {before after : List Step} {w : Visit}
    (h : Follows report root stack s (before ++ .go w :: after))
    (run : ∀ v s' p, .go v ∈ before → v.StandsAt report root s' p →
      Follows report root s'.enclosing s' ((v.events report).map .emit))
    (clean : ∀ f, .stuck f ∉ runAll report before) :
    ∃ p, w.StandsAt report root (s.afterAll (runAll report before)) p := by
  induction before generalizing s with
  | nil => exact h.1
  | cons x before ih =>
    have run' : ∀ v s' p, .go v ∈ before → v.StandsAt report root s' p →
        Follows report root s'.enclosing s' ((v.events report).map .emit) :=
      fun v s' p hv => run v s' p (List.mem_cons_of_mem _ hv)
    cases x with
    | emit e =>
      have clean' : ∀ f, .stuck f ∉ runAll report before := fun f hf =>
        clean f (List.mem_cons_of_mem _ hf)
      cases e with
      | stuck f => exact absurd (List.mem_cons_self ..) (clean f)
      | _ => exact ih h.2 run' clean'
    | go v =>
      obtain ⟨⟨p, hp⟩, h⟩ := h
      rw [runAll_cons_go] at clean ⊢
      have extends_ : (s.afterAll (v.events report)).Extends s := by
        refine ⟨?_, s.subset_entered_afterAll _⟩
        exact enclosing_afterAll (run v s p (List.mem_cons_self ..) hp)
          fun f hf => clean f (List.mem_append_left _ hf)
      rw [Point.afterAll_append]
      exact ih (h.mono extends_) run' fun f hf => clean f (List.mem_append_right _ hf)

end Follows

/-- A visit that is reached stands at a place of the tree. -/
theorem Visit.Reaches.standsAt (hold : root.DeclaratorsHold) {v u : Visit} {events : List Event}
    {p : Place} (reach : v.Reaches report events u) (h : v.StandsAt report root s p)
    (clean : ∀ f, .stuck f ∉ events) : ∃ q, u.StandsAt report root (s.afterAll events) q := by
  induction reach generalizing s p with
  | refl v => exact ⟨p, h⟩
  | @step v w u before after events split rest ih =>
    have follows := Visit.follows_steps hold h
    rw [split] at follows
    obtain ⟨q, hq⟩ := follows.standsAt (fun _ _ _ _ => Visit.follows_events hold _)
      fun f hf => clean f (List.mem_append_left _ hf)
    rw [Point.afterAll_append]
    exact ih hq fun f hf => clean f (List.mem_append_right _ hf)

namespace Node.Laid

variable {root : Node}

theorem plainDeclarators (h : root.Laid) : root.PlainDeclarators := by
  intro n hn hk d hd
  obtain ⟨-, ds, -, -, kinds, children⟩ := laid_variableDeclaration (h.layout n hn) hk
  rw [children] at hd
  exact kinds d (mem_inField.mp hd).2

/-- A reached visit is that of a place, with the scopes in force there; they have been opened by
then. -/
theorem exists_reached (h : root.Laid) {events : List Event} {u : Visit} {r : Report}
    (reach : root.visit.Reaches report events u) (run : Report.ofEvents report events = .ok r) :
    ∃ q ∈ root.places, u = q.visit u.mode (q.frames report) ∧
      ∃ seen, seen <+: root.place.entries ∧ Built report seen r.scopes ∧ q.holders ⊆ seen := by
  obtain ⟨q, stands⟩ := reach.standsAt h.plainDeclarators.declaratorsHold root.standsAt_visit
    (Report.clean_of_foldlM run)
  obtain ⟨scopes, opened⟩ := stands.scopes h.plainDeclarators
  obtain ⟨after, split⟩ := reach.events_eq
  obtain ⟨seen, front, entered, built⟩ := h.built split run
  refine ⟨q, stands.around.mem, scopes ▸ stands.visit, seen, front, built, fun o ho => ?_⟩
  have frame : Frame.of report o.node ∈ u.scopes := scopes ▸ List.mem_map_of_mem ho
  rcases Point.mem_entered_afterAll (opened _ frame) with none | mem
  · cases none
  · rw [entered, List.map_map] at mem
    obtain ⟨o', ho', same⟩ := List.mem_map.mp mem
    have placed := (h.mem_entries.mp (front.subset ho')).1
    replace same : o'.node = o.node := same
    have around := (Place.of_mem_holders stands.around.mem ho).1
    rwa [← h.isTree.eq_of_id_eq placed around (by rw [same])]

end Node.Laid

end FreeNames
