import Overlay.Proofs.Pool.Storing
import Overlay.Proofs.Text.Numerals
import Overlay.Proofs.Text.Trimming

/-!
# Endpoints written and read

An endpoint is read back from its text exactly if its host is legible: it is not
empty, no bracket stands at the end where it would be taken for one of the
text, and it does not begin with a blank, unless a colon puts it in brackets.
Otherwise the reader misses a host or finds a shorter one.

Where the reader takes a text, it drops the blanks around the text before the
brackets around the host.  So a host that was read is legible but for one case:
a blank behind an opening bracket stays, and is lost when the endpoint is
written and read once more.
-/

namespace Overlay.Endpoint

/-! ## Brackets -/

theorem head?_stripBrackets (host : List Char) : (stripBrackets host).head? ≠ some '[' := by
  intro hhead
  have hfirst :=
    Text.mem_head?_of_isPrefix (Text.dropTrailing_isPrefix _ _) (Option.mem_def.2 hhead)
  have hopen := Text.eq_false_of_head?_dropWhile hfirst
  simp at hopen

theorem getLast?_stripBrackets (host : List Char) : (stripBrackets host).getLast? ≠ some ']' := by
  intro hlast
  have hclosed := Text.eq_false_of_getLast?_dropTrailing (Option.mem_def.2 hlast)
  simp at hclosed

theorem stripBrackets_eq_self {host : List Char} (hopen : host.head? ≠ some '[')
    (hclose : host.getLast? ≠ some ']') : stripBrackets host = host := by
  unfold stripBrackets
  rw [Text.dropWhile_eq_self, Text.dropTrailing_eq_self]
  · intro c hc
    apply decide_eq_false
    rintro rfl
    exact hclose hc
  · intro c hc
    apply decide_eq_false
    rintro rfl
    exact hopen hc

/-- Brackets around a host are dropped with those that it has itself. -/
theorem stripBrackets_bracketed (host : List Char) :
    stripBrackets ('[' :: host ++ [']']) = stripBrackets host := by
  have hfront : ('[' :: host ++ [']']).dropWhile (· = '[') =
      host.dropWhile (· = '[') ++ [']'] := by
    rw [List.cons_append, List.dropWhile_cons_of_pos (by simp), List.dropWhile_append]
    split
    · next hempty => rw [List.isEmpty_iff.1 hempty]; rfl
    · rfl
  unfold stripBrackets
  rw [hfront]
  exact List.rdropWhile_concat_pos _ _ _ (by simp)

theorem stripBrackets_sublist (host : List Char) : (stripBrackets host).Sublist host :=
  (Text.dropTrailing_isPrefix _ _).sublist.trans (List.dropWhile_sublist _)

/-! ## The text of an endpoint -/

theorem isBlank_of_mem_digits {c : Char} {n : Nat} (hc : c ∈ (toString n).toList) :
    Text.isBlank c = false := by
  rw [Nat.toString_eq_ofList_toDigits, String.toList_ofList] at hc
  have hdigit := Nat.isDigit_of_mem_toDigits (by decide) (by decide) hc
  have hrange := Text.isDigit_range.1 hdigit
  apply Text.isBlank_eq_false <;> omega

/-- The host that is read where one was written. -/
def restored (host : List Char) : List Char :=
  stripBrackets (if ':' ∈ host then host else host.dropWhile Text.isBlank)

theorem trimBlank_displayChars (e : Endpoint) :
    Text.trimBlank e.displayChars =
      (if ':' ∈ e.host.toList then '[' :: e.host.toList ++ [']']
        else e.host.toList.dropWhile Text.isBlank) ++ ':' :: (toString e.port.toNat).toList := by
  have hlast : ∀ c ∈ (':' :: (toString e.port.toNat).toList).getLast?,
      Text.isBlank c = false := by
    intro c hc
    rcases List.mem_cons.1 (List.mem_of_mem_getLast? hc) with rfl | hdigit
    · decide
    · exact isBlank_of_mem_digits hdigit
  unfold displayChars
  rw [Text.trimBlank_append (by decide) hlast]
  split
  · rw [List.cons_append, List.dropWhile_cons_of_neg (by decide)]
  · rfl

/-- What the text of an endpoint is read as. -/
theorem parse_display (e : Endpoint) :
    parse e.display =
      if restored e.host.toList = [] then .error (.config (.missingHost e.display))
      else .ok ⟨String.ofList (restored e.host.toList), e.port⟩ := by
  have hstripped : stripBrackets (if ':' ∈ e.host.toList then '[' :: e.host.toList ++ [']']
      else e.host.toList.dropWhile Text.isBlank) = restored e.host.toList := by
    unfold restored
    split
    · exact stripBrackets_bracketed e.host.toList
    · rfl
  have hchars : e.display.toList = e.displayChars := String.toList_ofList
  unfold parse
  simp only [hchars, trimBlank_displayChars, Text.splitLast_append (colon_notMem_digits _),
    hstripped, Text.readUInt16_digits]

/-! ## Legible hosts -/

/-- A host that does not lose anything at its ends when it is written and read.  A colon in it puts
it in brackets, so that a blank in front does not matter. -/
structure Legible (host : List Char) : Prop where
  nonempty : host ≠ []
  unopened : host.head? ≠ some '['
  unclosed : host.getLast? ≠ some ']'
  unindented : ':' ∈ host ∨ ∀ c ∈ host.head?, Text.isBlank c = false

theorem Legible.restored_eq {host : List Char} (hlegible : Legible host) :
    restored host = host := by
  unfold restored
  split
  · exact stripBrackets_eq_self hlegible.unopened hlegible.unclosed
  · next hcolon =>
      have hhead := hlegible.unindented.resolve_left hcolon
      rw [Text.dropWhile_eq_self hhead]
      exact stripBrackets_eq_self hlegible.unopened hlegible.unclosed

theorem legible_of_restored_eq {host : List Char} (hne : host ≠ []) (hsame : restored host = host) :
    Legible host where
  nonempty := hne
  unopened := by
    rw [← hsame]
    exact head?_stripBrackets _
  unclosed := by
    rw [← hsame]
    exact getLast?_stripBrackets _
  unindented := by
    by_cases hcolon : ':' ∈ host
    · exact Or.inl hcolon
    · right
      -- what is left of the host after both droppings is all of it, so the first dropped nothing
      have hwhole : host.Sublist (host.dropWhile Text.isBlank) := by
        have hleft := stripBrackets_sublist (host.dropWhile Text.isBlank)
        unfold restored at hsame
        rw [if_neg hcolon] at hsame
        rwa [hsame] at hleft
      have hkept := hwhole.eq_of_length_le (List.dropWhile_sublist _).length_le
      intro c hc
      rw [hkept] at hc
      exact Text.eq_false_of_head?_dropWhile hc

theorem parse_display_of_legible {e : Endpoint} (hlegible : Legible e.host.toList) :
    parse e.display = .ok e := by
  rw [parse_display, hlegible.restored_eq, if_neg hlegible.nonempty, String.ofList_toList]

theorem legible_of_parse_display {e : Endpoint} (hread : parse e.display = .ok e) :
    Legible e.host.toList := by
  rw [parse_display] at hread
  split at hread
  · exact absurd hread nofun
  · next hne =>
      have hsame : restored e.host.toList = e.host.toList := by
        have hhost := congrArg Endpoint.host (Except.ok.inj hread)
        exact String.toList_ofList.symm.trans (congrArg String.toList hhost)
      rw [hsame] at hne
      exact legible_of_restored_eq hne hsame

/-- **An endpoint is read back from its text exactly if its host is legible.**  If it is not, the
reader misses a host or finds another one, and the same port. -/
theorem parse_display_iff_legible (e : Endpoint) :
    (parse e.display = .ok e ↔ Legible e.host.toList) ∧
      (Legible e.host.toList ∨ parse e.display = .error (.config (.missingHost e.display)) ∨
        ∃ host : String, host ≠ e.host ∧ parse e.display = .ok ⟨host, e.port⟩) := by
  refine ⟨⟨legible_of_parse_display, parse_display_of_legible⟩, ?_⟩
  have hread := parse_display e
  split at hread
  · exact Or.inr (Or.inl hread)
  · by_cases hsame : String.ofList (restored e.host.toList) = e.host
    · rw [hsame] at hread
      exact Or.inl (legible_of_parse_display hread)
    · exact Or.inr (Or.inr ⟨_, hsame, hread⟩)

/-! ## Texts that are read -/

theorem parse_eq_ok_iff {text : String} {e : Endpoint} :
    parse text = .ok e ↔ ∃ before after : List Char,
      Text.splitLast ':' (Text.trimBlank text.toList) = some (before, after) ∧
        e.host.toList = stripBrackets before ∧ e.host.toList ≠ [] ∧
          Text.readUInt16 after = .ok e.port := by
  constructor
  · intro hparse
    unfold parse at hparse
    split at hparse
    · exact absurd hparse nofun
    · next before after hsplit =>
        dsimp only at hparse
        split at hparse
        · exact absurd hparse nofun
        · next hne =>
            split at hparse
            · exact absurd hparse nofun
            · next port hport =>
                obtain rfl := Except.ok.inj hparse
                refine ⟨before, after, hsplit, ?_, ?_, hport⟩
                · exact String.toList_ofList
                · rwa [String.toList_ofList]
  · rintro ⟨before, after, hsplit, hhost, hne, hport⟩
    rw [hhost] at hne
    unfold parse
    simp only [hsplit, hport, if_neg hne]
    rw [← hhost, String.ofList_toList]

/-- A host without a colon that begins with a blank. -/
def Indented (host : List Char) : Prop :=
  ':' ∉ host ∧ ∃ c ∈ host.head?, Text.isBlank c = true

/-- A host that was read is legible unless it is indented, which takes a bracket in front. -/
theorem legible_or_indented_of_parse {text : String} {e : Endpoint} (hparse : parse text = .ok e) :
    Legible e.host.toList ∧ ¬ Indented e.host.toList ∨
      Indented e.host.toList ∧ (Text.trimBlank text.toList).head? = some '[' := by
  obtain ⟨before, after, hsplit, hhost, hne, -⟩ := parse_eq_ok_iff.1 hparse
  by_cases hindented : Indented e.host.toList
  · refine Or.inr ⟨hindented, ?_⟩
    obtain ⟨-, c, hc, hblank⟩ := hindented
    obtain ⟨htext, -⟩ := Text.eq_of_splitLast hsplit
    -- without a bracket in front the host would begin as the trimmed text does
    by_contra hopen
    rw [hhost] at hc
    have hbefore := Text.mem_head?_of_isPrefix (Text.dropTrailing_isPrefix _ _) hc
    have hfirst : c ∈ before.head? := by
      rwa [Text.dropWhile_eq_self] at hbefore
      intro d hd
      apply decide_eq_false
      rintro rfl
      apply hopen
      rw [htext]
      exact Text.mem_head?_of_isPrefix (List.prefix_append _ _) hd
    have hprinted : Text.isBlank c = false := by
      have htrimmed : c ∈ (Text.trimBlank text.toList).head? := by
        rw [htext]
        exact Text.mem_head?_of_isPrefix (List.prefix_append _ _) hfirst
      exact Text.eq_false_of_head?_trimBlank htrimmed
    rw [hprinted] at hblank
    exact absurd hblank nofun
  · refine Or.inl ⟨⟨hne, ?_, ?_, ?_⟩, hindented⟩
    · rw [hhost]
      exact head?_stripBrackets before
    · rw [hhost]
      exact getLast?_stripBrackets before
    · by_contra hneither
      rw [not_or] at hneither
      obtain ⟨hcolon, hhead⟩ := hneither
      apply hindented
      refine ⟨hcolon, ?_⟩
      simpa using hhead

theorem length_restored_of_indented {host : List Char} (hindented : Indented host) :
    (restored host).length < host.length := by
  obtain ⟨hcolon, c, hc, hblank⟩ := hindented
  unfold restored
  rw [if_neg hcolon]
  cases host with
  | nil => exact absurd hc nofun
  | cons d host =>
      obtain rfl : d = c := by simpa using hc
      have hleft := (stripBrackets_sublist ((d :: host).dropWhile Text.isBlank)).length_le
      rw [List.dropWhile_cons_of_pos hblank] at hleft ⊢
      have hrest := (List.dropWhile_sublist Text.isBlank (l := host)).length_le
      rw [List.length_cons]
      omega

/-- **What was read is read again from its text, unless its host is indented.**  Then an opening
bracket stood in front of the blank, and the reader misses a host or finds a shorter one. -/
theorem reread_unless_indented {text : String} {e : Endpoint} (hparse : parse text = .ok e) :
    (parse e.display = .ok e ↔ ¬ Indented e.host.toList) ∧
      (Indented e.host.toList →
        (Text.trimBlank text.toList).head? = some '[' ∧
          (parse e.display = .error (.config (.missingHost e.display)) ∨
            ∃ host : String, host.length < e.host.length ∧
              parse e.display = .ok ⟨host, e.port⟩)) := by
  rcases legible_or_indented_of_parse hparse with ⟨hlegible, hplain⟩ | ⟨hindented, hopen⟩
  · have hagain := parse_display_of_legible hlegible
    exact ⟨⟨fun _ => hplain, fun _ => hagain⟩, fun hindented => absurd hindented hplain⟩
  · have hshorter := length_restored_of_indented hindented
    have hread := parse_display e
    constructor
    · constructor
      · intro hok hindented
        have hlegible := legible_of_parse_display hok
        rw [hlegible.restored_eq] at hshorter
        exact absurd hshorter (Nat.lt_irrefl _)
      · intro hplain
        exact absurd hindented hplain
    · intro _
      refine ⟨hopen, ?_⟩
      split at hread
      · exact Or.inl hread
      · refine Or.inr ⟨_, ?_, hread⟩
        rw [← String.length_toList, String.toList_ofList, ← String.length_toList]
        exact hshorter

/-- An address in brackets, which is read again, and a blank in brackets, which is missed. -/
theorem reread_unless_indented_bracketed :
    (parse "[::1]:7000" = .ok ⟨"::1", 7000⟩ ∧
        parse (display ⟨"::1", 7000⟩) = .ok ⟨"::1", 7000⟩) ∧
      parse "[ ]:80" = .ok ⟨" ", 80⟩ ∧ Indented " ".toList ∧
        (Text.trimBlank "[ ]:80".toList).head? = some '[' ∧
          parse (display ⟨" ", 80⟩) = .error (.config (.missingHost " :80")) := by
  have hloopback : parse "[::1]:7000" = .ok ⟨"::1", 7000⟩ := by decide +kernel
  have hplain : ¬ Indented "::1".toList := by
    intro hindented
    exact hindented.1 (by decide)
  have hblank : parse "[ ]:80" = .ok ⟨" ", 80⟩ := by decide +kernel
  have hindented : Indented " ".toList := ⟨by decide, ' ', rfl, by decide⟩
  have hopen := ((reread_unless_indented hblank).2 hindented).1
  exact ⟨⟨hloopback, (reread_unless_indented hloopback).1.2 hplain⟩, hblank, hindented, hopen,
    by decide +kernel⟩

/-- A blank behind an opening bracket is read as part of the host, and is not written so that it is
read again. -/
theorem not_reread_indented :
    ¬ ∀ (text : String) (e : Endpoint), parse text = .ok e → parse e.display = .ok e := by
  intro hreread
  have hparse : parse "[ a]:80" = .ok ⟨" a", 80⟩ := by decide +kernel
  have hagain := hreread _ _ hparse
  have hread : parse (display ⟨" a", 80⟩) = .ok ⟨"a", 80⟩ := by decide +kernel
  rw [hread, Except.ok.injEq] at hagain
  exact absurd hagain (by decide)

end Overlay.Endpoint
