import Mathlib.Data.List.DropRight
import Overlay.Text.Blank

/-!
# Trimming and splitting texts

What is left of a text after something was dropped at its ends, and what stands
on both sides of the last mark in it.
-/

namespace Overlay.Text

section Dropping

variable {α : Type} {p : α → Bool} {items : List α}

theorem eq_false_of_head?_dropWhile {c : α} (hhead : c ∈ (items.dropWhile p).head?) :
    p c = false := by
  have hfirst := List.head?_dropWhile_not p items
  rw [Option.mem_def.1 hhead] at hfirst
  exact hfirst

theorem dropWhile_eq_self {items : List α} (hhead : ∀ c ∈ items.head?, p c = false) :
    items.dropWhile p = items := by
  cases items with
  | nil => rfl
  | cons c items => exact List.dropWhile_cons_of_neg (by simp [hhead c rfl])

theorem dropTrailing_eq_rdropWhile (p : α → Bool) (items : List α) :
    dropTrailing p items = items.rdropWhile p :=
  rfl

theorem dropTrailing_isPrefix (p : α → Bool) (items : List α) : dropTrailing p items <+: items :=
  List.rdropWhile_prefix p items

theorem eq_false_of_getLast?_dropTrailing {c : α} (hlast : c ∈ (dropTrailing p items).getLast?) :
    p c = false := by
  rw [dropTrailing_eq_rdropWhile] at hlast
  obtain ⟨hne, rfl⟩ := List.mem_getLast?_eq_getLast hlast
  simpa using List.rdropWhile_last_not p items hne

theorem dropTrailing_eq_self (hlast : ∀ c ∈ items.getLast?, p c = false) :
    dropTrailing p items = items := by
  apply List.rdropWhile_eq_self_iff.2
  intro hne
  simp [hlast _ (List.getLast?_eq_some_getLast hne)]

/-- What stands in front of a beginning of a list stands in front of the list. -/
theorem mem_head?_of_isPrefix {front items : List α} (hfront : front <+: items) {c : α}
    (hhead : c ∈ front.head?) : c ∈ items.head? := by
  obtain ⟨others, rfl⟩ := hfront
  cases front with
  | nil => simp at hhead
  | cons d front => simpa using hhead

end Dropping

/-! ## Splitting at the last mark -/

section Splitting

variable {mark : Char} {chars before after : List Char}

theorem splitLast_of_notMem (hnone : mark ∉ chars) : splitLast mark chars = none := by
  induction chars with
  | nil => rfl
  | cons c chars ih =>
      rw [List.mem_cons, not_or] at hnone
      simp [splitLast, ih hnone.2, Ne.symm hnone.1]

theorem splitLast_append (hafter : mark ∉ after) :
    splitLast mark (before ++ mark :: after) = some (before, after) := by
  induction before with
  | nil => simp [splitLast, splitLast_of_notMem hafter]
  | cons c before ih => simp [splitLast, ih]

theorem notMem_of_splitLast (hsplit : splitLast mark chars = none) : mark ∉ chars := by
  induction chars with
  | nil => simp
  | cons c chars ih =>
      unfold splitLast at hsplit
      split at hsplit
      · contradiction
      · next hrest =>
          split at hsplit
          · contradiction
          · next hc => simp [Ne.symm hc, ih hrest]

theorem eq_of_splitLast (hsplit : splitLast mark chars = some (before, after)) :
    chars = before ++ mark :: after ∧ mark ∉ after := by
  induction chars generalizing before with
  | nil => simp [splitLast] at hsplit
  | cons c chars ih =>
      unfold splitLast at hsplit
      split at hsplit
      · next front back hrest =>
          cases hsplit
          obtain ⟨rfl, hback⟩ := ih hrest
          exact ⟨rfl, hback⟩
      · next hrest =>
          split at hsplit
          · next hc =>
              cases hsplit
              rw [hc]
              exact ⟨rfl, notMem_of_splitLast hrest⟩
          · contradiction

end Splitting

/-! ## Blanks at the ends -/

/-- The printable characters of ASCII are not blank. -/
theorem isBlank_eq_false {c : Char} (hlow : 33 ≤ c.toNat) (hhigh : c.toNat ≤ 126) :
    isBlank c = false := by
  simp only [isBlank, blankRanges, List.any_cons, List.any_nil, Bool.or_false,
    Bool.or_eq_false_iff, Bool.and_eq_false_iff, decide_eq_false_iff_not]
  omega

theorem trimBlank_isPrefix (chars : List Char) : trimBlank chars <+: chars.dropWhile isBlank :=
  dropTrailing_isPrefix isBlank _

/-- A trimmed text does not begin with a blank. -/
theorem eq_false_of_head?_trimBlank {chars : List Char} {c : Char}
    (hhead : c ∈ (trimBlank chars).head?) : isBlank c = false :=
  eq_false_of_head?_dropWhile (mem_head?_of_isPrefix (trimBlank_isPrefix chars) hhead)

/-- A text that ends in a character that is not blank only loses the blanks in front. -/
theorem trimBlank_append {front : List Char} {mark : Char} {back : List Char}
    (hmark : isBlank mark = false) (hlast : ∀ c ∈ (mark :: back).getLast?, isBlank c = false) :
    trimBlank (front ++ mark :: back) = front.dropWhile isBlank ++ mark :: back := by
  have hdrop : (front ++ mark :: back).dropWhile isBlank =
      front.dropWhile isBlank ++ mark :: back := by
    rw [List.dropWhile_append]
    split
    · next hempty =>
        rw [List.isEmpty_iff.1 hempty, List.nil_append]
        exact List.dropWhile_cons_of_neg (by simp [hmark])
    · rfl
  unfold trimBlank
  rw [hdrop]
  apply dropTrailing_eq_self
  intro c hc
  apply hlast
  simpa using hc

theorem trimBlank_eq_self {chars : List Char} (hchars : ∀ c ∈ chars, isBlank c = false) :
    trimBlank chars = chars := by
  unfold trimBlank
  rw [dropWhile_eq_self fun c hc => hchars c (List.mem_of_mem_head? hc)]
  exact dropTrailing_eq_self fun c hc => hchars c (List.mem_of_mem_getLast? hc)

end Overlay.Text
