import Overlay.Proofs.Address.Literals
import Overlay.Proofs.Text.Trimming

/-!
# What literals of addresses are made of

An IPv4 literal is made of decimal digits and dots.  An IPv6 literal is made of
fields with colons between them, of which there are at least two: a field is a
group of at most four hexadecimal digits, perhaps of none, or an IPv4 literal.
So no text is a literal of both kinds, and every address is read back from its
text.
-/

namespace Overlay.Address

open Text

/-! ## Digits -/

theorem digit_range {base : Nat} {c : Char} (hdigit : (digitValue? base c).isSome) :
    48 ≤ c.toNat ∧ c.toNat ≤ 57 ∨ 97 ≤ c.toNat ∧ c.toNat ≤ 102 ∨
      65 ≤ c.toNat ∧ c.toNat ≤ 70 := by
  have hle (a b : Char) : a ≤ b ↔ a.toNat ≤ b.toNat := Iff.rfl
  unfold digitValue? at hdigit
  simp only [hle, Char.reduceToNat] at hdigit
  grind

theorem spanDigits_sound {base : Nat} {chars rest : List Char} {digits : List Nat}
    (hspan : spanDigits base chars = (digits, rest)) :
    ∃ used : List Char, chars = used ++ rest ∧ used.length = digits.length ∧
      ∀ c ∈ used, (digitValue? base c).isSome := by
  induction chars generalizing digits with
  | nil =>
      cases hspan
      exact ⟨[], rfl, rfl, by simp⟩
  | cons c chars ih =>
      unfold spanDigits at hspan
      split at hspan
      · cases hspan
        exact ⟨[], rfl, rfl, by simp⟩
      · next d hd =>
          cases hspan
          obtain ⟨used, hused, hlength, hdigits⟩ := ih rfl
          refine ⟨c :: used, ?_, ?_, ?_⟩
          · rw [List.cons_append, ← hused]
          · rw [List.length_cons, List.length_cons, hlength]
          · intro e he
            rcases List.mem_cons.1 he with rfl | he
            · rw [hd]
              rfl
            · exact hdigits e he

theorem readNumber?_sound {base : Nat} {most : Option Nat} {zeroPadded : Bool}
    {chars rest : List Char} {n : Nat}
    (hread : readNumber? base most zeroPadded chars = some (n, rest)) :
    ∃ used : List Char, chars = used ++ rest ∧ (∀ k ∈ most, used.length ≤ k) ∧
      ∀ c ∈ used, (digitValue? base c).isSome := by
  have hspan : spanDigits base chars =
      ((spanDigits base chars).1, (spanDigits base chars).2) := rfl
  obtain ⟨used, hused, hlength, hdigits⟩ := spanDigits_sound hspan
  unfold readNumber? at hread
  dsimp only at hread
  split at hread
  · exact absurd hread nofun
  · split at hread
    · exact absurd hread nofun
    · next hmost =>
        split at hread
        · exact absurd hread nofun
        · cases hread
          refine ⟨used, hused, ?_, hdigits⟩
          intro k hk
          rw [Option.mem_def.1 hk] at hmost
          rw [hlength]
          simpa using hmost

theorem eq_cons_of_readChar? {c : Char} {chars rest : List Char}
    (hread : readChar? c chars = some rest) : chars = c :: rest := by
  unfold readChar? at hread
  grind

/-! ## IPv4 -/

/-- Decimal digits and dots, of which there is one at least. -/
structure IsDotted (chars : List Char) : Prop where
  dot : '.' ∈ chars
  only : ∀ c ∈ chars, c = '.' ∨ (digitValue? 10 c).isSome

namespace Ipv4

theorem readPart?_sound {chars rest : List Char} {part : UInt8}
    (hread : readPart? chars = some (part, rest)) :
    ∃ used : List Char, chars = used ++ rest ∧ ∀ c ∈ used, (digitValue? 10 c).isSome := by
  unfold readPart? at hread
  split at hread
  · next n others hnumber =>
      obtain ⟨used, hused, -, hdigits⟩ := readNumber?_sound hnumber
      split at hread
      · cases hread
        exact ⟨used, hused, hdigits⟩
      · exact absurd hread nofun
  · exact absurd hread nofun

theorem read?_sound {chars rest : List Char} {ip : Ipv4} (hread : read? chars = some (ip, rest)) :
    ∃ used : List Char, chars = used ++ rest ∧ IsDotted used := by
  simp only [read?, Option.bind_eq_bind, Option.bind_eq_some_iff, Option.pure_def,
    Option.some.injEq, Prod.mk.injEq] at hread
  obtain ⟨⟨a, afterA⟩, ha, dotA, hdotA, ⟨b, afterB⟩, hb, dotB, hdotB, ⟨c, afterC⟩, hc, dotC, hdotC,
    ⟨d, afterD⟩, hd, -, rfl⟩ := hread
  obtain ⟨usedA, rfl, hdigitsA⟩ := readPart?_sound ha
  obtain rfl := eq_cons_of_readChar? hdotA
  obtain ⟨usedB, rfl, hdigitsB⟩ := readPart?_sound hb
  obtain rfl := eq_cons_of_readChar? hdotB
  obtain ⟨usedC, rfl, hdigitsC⟩ := readPart?_sound hc
  obtain rfl := eq_cons_of_readChar? hdotC
  obtain ⟨usedD, rfl, hdigitsD⟩ := readPart?_sound hd
  refine ⟨usedA ++ '.' :: (usedB ++ '.' :: (usedC ++ '.' :: usedD)), by simp, ?_, ?_⟩
  · simp
  · intro e he
    simp only [List.mem_append, List.mem_cons] at he
    grind

theorem isDotted_of_parse? {chars : List Char} {ip : Ipv4} (hparse : parse? chars = some ip) :
    IsDotted chars := by
  unfold parse? at hparse
  split at hparse
  · next hread =>
      obtain ⟨used, hused, hdotted⟩ := read?_sound hread
      rwa [hused, List.append_nil]
  · exact absurd hparse nofun

end Ipv4

/-! ## IPv6 -/

/-- What can stand between two colons of an IPv6 literal. -/
inductive IsField (chars : List Char) : Prop
  | group (short : chars.length ≤ 4) (digits : ∀ c ∈ chars, (digitValue? 16 c).isSome)
  | dotted (dotted : IsDotted chars)

/-- Fields with colons between them. -/
inductive IsFields : List Char → Prop
  | last {field : List Char} (hfield : IsField field) : IsFields field
  | cons {field chars : List Char} (hfield : IsField field) (hchars : IsFields chars) :
      IsFields (field ++ ':' :: chars)

theorem IsFields.append {front back : List Char} (hfront : IsFields front) (hback : IsFields back) :
    IsFields (front ++ ':' :: back) := by
  induction hfront with
  | last hfield => exact .cons hfield hback
  | cons hfield _ ih =>
      rw [List.append_assoc, List.cons_append]
      exact .cons hfield ih

theorem isFields_nil : IsFields [] :=
  .last (.group (by simp) (by simp))

namespace Ipv6

/-- What a reader of groups does with its first one: it takes an IPv4 literal and stops, takes a
group and goes on, or takes nothing. -/
theorem readGroups_cases (index room : Nat) (chars : List Char) :
    (∃ used rest high low, readSeparator? index chars = some (used ++ rest) ∧ IsDotted used ∧
        readGroups index (room + 1) chars = ([high, low], true, rest)) ∨
      (∃ used rest g, readSeparator? index chars = some (used ++ rest) ∧ used.length ≤ 4 ∧
        (∀ c ∈ used, (digitValue? 16 c).isSome) ∧
          readGroups index (room + 1) chars =
            (g :: (readGroups (index + 1) room rest).1, (readGroups (index + 1) room rest).2)) ∨
      readGroups index (room + 1) chars = ([], false, chars) := by
  rw [readGroups]
  dsimp only
  split
  · next ip rest hdotted =>
      left
      split at hdotted
      · cases hdotted
      · obtain ⟨after, hafter, hread⟩ := Option.bind_eq_some_iff.1 hdotted
        obtain ⟨used, rfl, hused⟩ := Ipv4.read?_sound hread
        exact ⟨used, rest, _, _, hafter, hused, rfl⟩
  · right
    split
    · exact Or.inr rfl
    · next g rest hgroup =>
        left
        obtain ⟨after, hafter, hread⟩ := Option.bind_eq_some_iff.1 hgroup
        obtain ⟨used, rfl, hshort, hdigits⟩ := readNumber?_sound hread
        exact ⟨used, rest, _, hafter, hshort 4 rfl, hdigits, rfl⟩

theorem eq_cons_of_readSeparator? {index : Nat} {chars after : List Char}
    (hread : readSeparator? (index + 1) chars = some after) : chars = ':' :: after :=
  eq_cons_of_readChar? hread

/-- Groups that are read behind others are fields with a colon in front of each. -/
theorem readGroups_sound_succ (index room : Nat) (chars : List Char) :
    ∃ used : List Char, chars = used ++ (readGroups (index + 1) room chars).2.2 ∧
      (readGroups (index + 1) room chars).1.length ≤ used.count ':' + 1 ∧
        ∀ front, IsFields front → IsFields (front ++ used) := by
  have hnothing (front : List Char) (hfront : IsFields front) : IsFields (front ++ []) := by
    rwa [List.append_nil]
  induction room generalizing index chars with
  | zero => exact ⟨[], rfl, Nat.zero_le _, hnothing⟩
  | succ room ih =>
      rcases readGroups_cases (index + 1) room chars with
        ⟨used, rest, high, low, hafter, hused, hread⟩ |
        ⟨used, rest, g, hafter, hshort, hdigits, hread⟩ | hread
      · rw [hread, eq_cons_of_readSeparator? hafter]
        refine ⟨':' :: used, rfl, ?_, ?_⟩
        · simp
        · intro front hfront
          exact hfront.append (.last (.dotted hused))
      · obtain ⟨more, hmore, hcount, hfields⟩ := ih (index + 1) rest
        rw [hread, eq_cons_of_readSeparator? hafter]
        refine ⟨':' :: (used ++ more), ?_, ?_, ?_⟩
        · simp only [List.cons_append, List.append_assoc]
          rw [← hmore]
        · simp only [List.length_cons, List.count_cons_self, List.count_append]
          omega
        · intro front hfront
          have hone := hfields _ (hfront.append (.last (.group hshort hdigits)))
          rwa [List.append_assoc, List.cons_append] at hone
      · rw [hread]
        exact ⟨[], rfl, Nat.zero_le _, hnothing⟩

/-- Groups that are read at the front of a text are fields. -/
theorem readGroups_sound (room : Nat) (chars : List Char) :
    ∃ used : List Char, chars = used ++ (readGroups 0 room chars).2.2 ∧
      (readGroups 0 room chars).1.length ≤ used.count ':' + 2 ∧ IsFields used := by
  cases room with
  | zero => exact ⟨[], rfl, Nat.zero_le _, isFields_nil⟩
  | succ room =>
      rcases readGroups_cases 0 room chars with ⟨used, rest, high, low, hafter, hused, hread⟩ |
        ⟨used, rest, g, hafter, hshort, hdigits, hread⟩ | hread
      · obtain rfl := Option.some.inj hafter
        rw [hread]
        exact ⟨used, rfl, by simp, .last (.dotted hused)⟩
      · obtain rfl := Option.some.inj hafter
        obtain ⟨more, hmore, hcount, hfields⟩ := readGroups_sound_succ 0 room rest
        rw [hread]
        refine ⟨used ++ more, ?_, ?_, hfields used (.last (.group hshort hdigits))⟩
        · rw [List.append_assoc, ← hmore]
        · simp only [List.length_cons, List.count_append]
          omega
      · rw [hread]
        exact ⟨[], rfl, Nat.zero_le _, isFields_nil⟩

theorem read?_sound {chars rest : List Char} {ip : Ipv6} (hread : read? chars = some (ip, rest)) :
    ∃ used : List Char, chars = used ++ rest ∧ IsFields used ∧ 2 ≤ used.count ':' := by
  obtain ⟨front, hfront, hcount, hfields⟩ := readGroups_sound 8 chars
  unfold read? at hread
  dsimp only at hread
  split at hread
  · next height =>
      cases hread
      exact ⟨front, hfront, hfields, by omega⟩
  · split at hread
    · exact absurd hread nofun
    · split at hread
      · exact absurd hread nofun
      · next after hgap =>
          cases hread
          obtain ⟨middle, hfirst, hsecond⟩ := Option.bind_eq_some_iff.1 hgap
          obtain ⟨back, hback, -, hothers⟩ :=
            readGroups_sound (7 - (readGroups 0 8 chars).1.length) after
          rw [eq_cons_of_readChar? hfirst, eq_cons_of_readChar? hsecond] at hfront
          refine ⟨front ++ ':' :: ':' :: back, ?_, ?_, ?_⟩
          · simp only [List.append_assoc, List.cons_append]
            rw [← hback]
            exact hfront
          · exact hfields.append (isFields_nil.append hothers)
          · simp only [List.count_append, List.count_cons_self]
            omega

theorem isFields_of_parse? {chars : List Char} {ip : Ipv6} (hparse : parse? chars = some ip) :
    IsFields chars ∧ 2 ≤ chars.count ':' := by
  unfold parse? at hparse
  split at hparse
  · next hread =>
      obtain ⟨used, hused, hfields⟩ := read?_sound hread
      rwa [hused, List.append_nil]
  · exact absurd hparse nofun

end Ipv6

/-! ## Literals of both kinds -/

/-- The characters of literals. -/
def IsLiteralChar (c : Char) : Prop :=
  c = ':' ∨ c = '.' ∨ ∃ base, (digitValue? base c).isSome

theorem IsLiteralChar.toNat_cases {c : Char} (hc : IsLiteralChar c) :
    c.toNat = 46 ∨ 48 ≤ c.toNat ∧ c.toNat ≤ 58 ∨ 97 ≤ c.toNat ∧ c.toNat ≤ 102 ∨
      65 ≤ c.toNat ∧ c.toNat ≤ 70 := by
  rcases hc with rfl | rfl | ⟨base, hdigit⟩
  · decide
  · decide
  · have hrange := digit_range hdigit
    omega

theorem IsLiteralChar.isBlank_eq_false {c : Char} (hc : IsLiteralChar c) : isBlank c = false := by
  have hrange := hc.toNat_cases
  apply Text.isBlank_eq_false <;> omega

theorem IsDotted.colon_notMem {chars : List Char} (hdotted : IsDotted chars) : ':' ∉ chars := by
  intro hcolon
  rcases hdotted.only ':' hcolon with hdot | hdigit
  · exact absurd hdot (by decide)
  · exact absurd hdigit (by decide)

theorem IsField.colon_notMem {chars : List Char} (hfield : IsField chars) : ':' ∉ chars := by
  cases hfield with
  | group hshort hdigits =>
      intro hcolon
      exact absurd (hdigits ':' hcolon) (by decide)
  | dotted hdotted => exact hdotted.colon_notMem

theorem IsDotted.isLiteralChar {chars : List Char} (hdotted : IsDotted chars) :
    ∀ c ∈ chars, IsLiteralChar c := by
  intro c hc
  exact Or.inr ((hdotted.only c hc).imp_right fun hdigit => ⟨10, hdigit⟩)

theorem IsField.isLiteralChar {chars : List Char} (hfield : IsField chars) :
    ∀ c ∈ chars, IsLiteralChar c := by
  cases hfield with
  | group hshort hdigits => exact fun c hc => Or.inr (Or.inr ⟨16, hdigits c hc⟩)
  | dotted hdotted => exact hdotted.isLiteralChar

theorem IsFields.isLiteralChar {chars : List Char} (hfields : IsFields chars) :
    ∀ c ∈ chars, IsLiteralChar c := by
  induction hfields with
  | last hfield => exact hfield.isLiteralChar
  | cons hfield _ ih =>
      intro c hc
      rcases List.mem_append.1 hc with hc | hc
      · exact hfield.isLiteralChar c hc
      · rcases List.mem_cons.1 hc with rfl | hc
        · exact Or.inl rfl
        · exact ih c hc

namespace Ipv4

theorem colon_notMem_text (ip : Ipv4) : ':' ∉ ip.text.toList :=
  (isDotted_of_parse? ip.parse?_text).colon_notMem

end Ipv4

namespace Ipv6

theorem colon_mem_of_parse? {chars : List Char} {ip : Ipv6} (hparse : parse? chars = some ip) :
    ':' ∈ chars := by
  have hcount := (isFields_of_parse? hparse).2
  apply List.count_pos_iff.1
  omega

theorem colon_mem_text (ip : Ipv6) : ':' ∈ ip.text.toList :=
  colon_mem_of_parse? ip.parse?_text

end Ipv6

namespace Ip

/-- An address is read back from its text. -/
theorem parse?_text (ip : Ip) : parse? ip.text = some ip := by
  unfold parse? text
  cases ip with
  | v4 ip => simp only [Ipv4.parse?_text]
  | v6 ip =>
      have hnone : Ipv4.parse? ip.text.toList = none := by
        cases hparse : Ipv4.parse? ip.text.toList with
        | none => rfl
        | some v4 =>
            exact absurd ip.colon_mem_text (Ipv4.isDotted_of_parse? hparse).colon_notMem
      simp only [hnone, Ipv6.parse?_text, Option.map_some]

theorem text_inj {ip other : Ip} (htext : ip.text = other.text) : ip = other := by
  have hread := ip.parse?_text
  rw [htext, other.parse?_text] at hread
  exact (Option.some.inj hread).symm

/-- A literal is a literal of one kind. -/
theorem parse?_cases {text : String} {ip : Ip} (hparse : parse? text = some ip) :
    IsDotted text.toList ∨ IsFields text.toList ∧ 2 ≤ text.toList.count ':' := by
  unfold parse? at hparse
  split at hparse
  · next v4 hv4 => exact Or.inl (Ipv4.isDotted_of_parse? hv4)
  · obtain ⟨v6, hv6, -⟩ := Option.map_eq_some_iff.1 hparse
    exact Or.inr (Ipv6.isFields_of_parse? hv6)

theorem isLiteralChar_of_parse? {text : String} {ip : Ip} (hparse : parse? text = some ip) :
    text.toList ≠ [] ∧ ∀ c ∈ text.toList, IsLiteralChar c := by
  rcases parse?_cases hparse with hdotted | ⟨hfields, hcount⟩
  · exact ⟨List.ne_nil_of_mem hdotted.dot, hdotted.isLiteralChar⟩
  · refine ⟨?_, hfields.isLiteralChar⟩
    intro hnil
    rw [hnil] at hcount
    exact absurd hcount (by decide)

end Ip

end Overlay.Address
