import FreeNames.Proofs.Text.Content
import FreeNames.Terminal.Icons
import Mathlib.Tactic.Common

/-!
# Icons in texts

Which icons a text holds, and what escaping and sanitizing change about that.

* Escaping only puts in backslashes (`Text.mem_escapeMarkup`), so it keeps every icon.
* The stand-ins are ASCII, so replacing icons leaves none (`Text.not_hasIcon_replaceIcons`), and it
  leaves alone what is neither an icon nor of a stand-in, such as line feeds and the halves of
  surrogate pairs (`Text.countP_sanitize`).
-/

namespace FreeNames

/-! ## Escaping -/

section Escaping

variable {points group tail : List Nat} {c : Nat}

theorem tagGroup?_append (h : tagGroup? points = some (group, tail)) : group ++ tail = points := by
  unfold tagGroup? at h
  split at h
  · next d rest =>
    split at h
    · simp only at h
      split at h
      · next tail' behind =>
        cases h
        rw [List.append_assoc, List.singleton_append, ← behind, List.cons_append, List.cons_append,
          List.takeWhile_append_dropWhile]
      · cases h
    · cases h
  · cases h

theorem groupAhead?_append {g : GroupAhead} (h : groupAhead? points = some g) :
    g.slashes ++ (g.group ++ g.tail) = points := by
  obtain ⟨⟨group, tail⟩, found, rfl⟩ := Option.map_eq_some_iff.mp h
  show points.takeWhile (· = 0x5C) ++ (group ++ tail) = points
  rw [tagGroup?_append found, List.takeWhile_append_dropWhile]

/-- Escaping puts in nothing but backslashes. -/
theorem mem_escapeTags (hc : c ≠ 0x5C) : c ∈ escapeTags points ↔ c ∈ points := by
  induction points using escapeTags.induct with
  | case1 points g ahead ih =>
    rw [escapeTags]
    split
    · next g' ahead' =>
      obtain rfl : g = g' := Option.some.inj (ahead.symm.trans ahead')
      rw [← groupAhead?_append ahead]
      simp [ih, hc]
    · next none => rw [none] at ahead; cases ahead
  | case2 ahead => simp [escapeTags, groupAhead?, tagGroup?]
  | case3 d rest ahead ih =>
    rw [escapeTags]
    split
    · next g' ahead' => rw [ahead] at ahead'; cases ahead'
    · rw [List.mem_cons, ih, List.mem_cons]

theorem mem_closeBackslash (hc : c ≠ 0x5C) : c ∈ closeBackslash points ↔ c ∈ points := by
  unfold closeBackslash
  split
  · simp [hc]
  · split <;> simp [hc]
  · rfl

theorem Text.mem_escapeMarkup {t : Text} (hc : c ≠ 0x5C) :
    c ∈ t.escapeMarkup.points ↔ c ∈ t.points :=
  (mem_closeBackslash hc).trans (mem_escapeTags hc)

end Escaping

/-! ## Replacing -/

/-- An icon and its stand-in are in the table. -/
theorem entry_mem_icons {i : Nat} {s : Text} (h : standIn? i = some s) : (i, s) ∈ icons := by
  obtain ⟨before, after, entries, -⟩ := List.lookup_eq_some_iff.mp h
  exact entries ▸ List.mem_append_right _ List.mem_cons_self

/-- The stand-ins are printable ASCII characters. -/
theorem ascii_of_standIn? {i c : Nat} {s : Text} (h : standIn? i = some s) (hc : c ∈ s.points) :
    0x20 ≤ c ∧ c < 0x7F := by
  have all : ∀ entry ∈ icons, ∀ c ∈ entry.2.points, 0x20 ≤ c ∧ c < 0x7F := by decide
  exact all (i, s) (entry_mem_icons h) c hc

/-- What has a stand-in is one of the icons. -/
theorem mem_icons {c : Nat} (h : (standIn? c).isSome) : c ∈ icons.map Prod.fst := by
  obtain ⟨s, standIn⟩ := Option.isSome_iff_exists.mp h
  exact List.mem_map_of_mem (entry_mem_icons standIn)

/-- Icons are no ASCII characters. -/
theorem standIn?_eq_none {c : Nat} (h : c < 0x7F) : standIn? c = none := by
  have all : ∀ entry ∈ icons, 0x7F ≤ entry.1 := by decide
  refine List.lookup_eq_none_iff.mpr fun entry mem => ?_
  have := all entry mem
  exact bne_iff_ne.mpr (by omega)

namespace Text

/-- Does the text hold an icon? -/
def HasIcon (t : Text) : Prop := ∃ c ∈ t.points, (standIn? c).isSome

instance (t : Text) : Decidable t.HasIcon := inferInstanceAs (Decidable (∃ c ∈ t.points, _))

theorem not_hasIcon_of_ascii {t : Text} (ascii : ∀ c ∈ t.points, c < 0x7F) : ¬ t.HasIcon := by
  rintro ⟨c, mem, icon⟩
  rw [standIn?_eq_none (ascii c mem)] at icon
  cases icon

theorem hasIcon_escapeMarkup {t : Text} : t.escapeMarkup.HasIcon ↔ t.HasIcon := by
  have backslash : standIn? 0x5C = none := standIn?_eq_none (by decide)
  refine exists_congr fun c => and_congr_left fun icon => mem_escapeMarkup ?_
  rintro rfl
  rw [backslash] at icon
  cases icon

theorem hasIcon_join {separator : Text} (outside : ¬ separator.HasIcon) {ts : List Text} :
    (join separator ts).HasIcon ↔ ∃ t ∈ ts, t.HasIcon := by
  constructor
  · rintro ⟨c, mem, icon⟩
    obtain ⟨t, ht, inside⟩ := (mem_join fun also => outside ⟨c, also, icon⟩).mp mem
    exact ⟨t, ht, c, inside, icon⟩
  · rintro ⟨t, ht, c, inside, icon⟩
    exact ⟨c, (mem_join fun also => outside ⟨c, also, icon⟩).mpr ⟨t, ht, inside⟩, icon⟩

theorem not_hasIcon_ofNat (n : Nat) : ¬ (ofNat n).HasIcon :=
  not_hasIcon_of_ascii fun c mem => by have := digit_of_mem_ofNat mem; omega

theorem replaceIcons_append (f : Text → Text) (a b : Text) :
    (a ++ b).replaceIcons f = a.replaceIcons f ++ b.replaceIcons f :=
  ext List.flatMap_append

theorem replaceIcons_icon (f : Text → Text) {i : Nat} {s : Text} (h : standIn? i = some s) :
    replaceIcons f ⟨[i]⟩ = f s :=
  ext (by rw [replaceIcons, List.flatMap_singleton, h])

theorem replaceIcons_other (f : Text → Text) {c : Nat} (h : standIn? c = none) :
    replaceIcons f ⟨[c]⟩ = ⟨[c]⟩ :=
  ext (by rw [replaceIcons, List.flatMap_singleton, h])

/-- Without icons there is nothing to replace. -/
theorem replaceIcons_of_not_hasIcon (f : Text → Text) {t : Text} (h : ¬ t.HasIcon) :
    t.replaceIcons f = t := by
  refine ext ?_
  calc (t.replaceIcons f).points
      = t.points.flatMap fun c => [c] := List.flatMap_congr fun c mem => by
        cases icon : standIn? c with
        | none => rfl
        | some s => exact absurd ⟨c, mem, by rw [icon]; rfl⟩ h
    _ = t.points := List.flatMap_singleton' _

/-- Nothing is left of the icons if what replaces them holds none. -/
theorem not_hasIcon_replaceIcons {f : Text → Text}
    (free : ∀ i s, standIn? i = some s → ¬ (f s).HasIcon) (t : Text) :
    ¬ (t.replaceIcons f).HasIcon := by
  rintro ⟨c, mem, icon⟩
  obtain ⟨i, -, inside⟩ := List.mem_flatMap.mp mem
  cases standIn : standIn? i with
  | none =>
    rw [standIn, List.mem_singleton] at inside
    rw [inside, standIn] at icon
    cases icon
  | some s =>
    rw [standIn] at inside
    exact free i s standIn ⟨c, inside, icon⟩

theorem not_hasIcon_standIn {i : Nat} {s : Text} (h : standIn? i = some s) : ¬ s.HasIcon :=
  not_hasIcon_of_ascii fun _ mem => (ascii_of_standIn? h mem).2

/-- Replacing icons keeps the number of code points of a class that holds neither icons nor
printable ASCII characters. -/
theorem countP_replaceIcons {p : Nat → Bool} (icon : ∀ c, (standIn? c).isSome → p c = false)
    (ascii : ∀ c, 0x20 ≤ c → c < 0x7F → p c = false) (t : Text) :
    (t.replaceIcons id).points.countP p = t.points.countP p := by
  obtain ⟨points⟩ := t
  induction points with
  | nil => rfl
  | cons c rest ih =>
    have split : (replaceIcons id ⟨c :: rest⟩).points =
        (replaceIcons id ⟨[c]⟩).points ++ (replaceIcons id ⟨rest⟩).points :=
      congrArg points (replaceIcons_append id ⟨[c]⟩ ⟨rest⟩)
    have head : (replaceIcons id ⟨[c]⟩).points.countP p = [c].countP p := by
      rw [replaceIcons, List.flatMap_singleton]
      cases standIn : standIn? c with
      | none => rfl
      | some s =>
        have none : s.points.countP p = 0 := List.countP_eq_zero.mpr fun d hd => by
          have := ascii_of_standIn? standIn hd
          simp [ascii d this.1 this.2]
        have outside : p c = false := icon c (by rw [standIn]; rfl)
        rw [List.countP_singleton, outside]
        exact none
    rw [split, List.countP_append, head, ih]
    exact List.countP_append.symm

end Text

/-! ## Sanitizing -/

namespace Terminal

variable {terminal : Terminal} {forced : Bool}

theorem sanitize_append (a b : Text) :
    terminal.sanitize forced (a ++ b) = terminal.sanitize forced a ++ terminal.sanitize forced b := by
  unfold sanitize
  split
  · rfl
  · exact Text.replaceIcons_append id a b

theorem sanitize_of_not_hasIcon {t : Text} (h : ¬ t.HasIcon) : terminal.sanitize forced t = t := by
  unfold sanitize
  split
  · rfl
  · exact Text.replaceIcons_of_not_hasIcon id h

/-- Sanitizing keeps the number of code points of a class that holds neither icons nor printable
ASCII characters. -/
theorem countP_sanitize {p : Nat → Bool} (icon : ∀ c, (standIn? c).isSome → p c = false)
    (ascii : ∀ c, 0x20 ≤ c → c < 0x7F → p c = false) (t : Text) :
    (terminal.sanitize forced t).points.countP p = t.points.countP p := by
  unfold sanitize
  split
  · rfl
  · exact Text.countP_replaceIcons icon ascii t

/-- On a terminal that is not UTF-8 no markup that is made for it holds an icon. -/
theorem not_hasIcon_sanitizeMarkup (h : terminal.isUtf8 = false) (t : Text) :
    ¬ (terminal.sanitizeMarkup forced t).HasIcon := by
  rw [sanitizeMarkup, h, Bool.and_false, if_neg Bool.false_ne_true]
  exact Text.not_hasIcon_replaceIcons
    (fun i s standIn => Text.hasIcon_escapeMarkup.not.mpr (Text.not_hasIcon_standIn standIn)) t

end Terminal

end FreeNames
