import Overlay.Address.Ip
import Overlay.Proofs.Text.Numerals

/-!
# Canonical texts of internet addresses

Every address is read back from its text.  For an IPv6 address this takes three
steps: the groups between two colons are read one after the other, up to the
end of the text or to a double colon; the double colon stands for the zeros that
were left out; and an embedded IPv4 address gives the last two groups.
-/

namespace Overlay.Address

open Text

/-! ## Marks -/

theorem readChar?_cons (c : Char) (rest : List Char) : readChar? c (c :: rest) = some rest := by
  simp [readChar?]

/-- A text that is over or goes on with a colon. -/
def AtColon (chars : List Char) : Prop :=
  ∀ c ∈ chars.head?, c = ':'

theorem atColon_cons (rest : List Char) : AtColon (':' :: rest) := by
  simp [AtColon]

theorem AtColon.halts {chars : List Char} (hcolon : AtColon chars) {base : Nat}
    (hbase : digitValue? base ':' = none) : Halts base chars := by
  intro c hc
  rw [hcolon c hc]
  exact hbase

/-! ## IPv4 -/

namespace Ipv4

theorem readPart?_toDigits (part : UInt8) {rest : List Char} (hrest : Halts 10 rest) :
    readPart? (Nat.toDigits 10 part.toNat ++ rest) = some (part, rest) := by
  have hpart : part.toNat < 256 := part.toNat_lt
  have hroom : ∀ k ∈ some 3, (Nat.toDigits 10 part.toNat).length ≤ k := by
    intro k hk
    obtain rfl := Option.some.inj hk
    apply (Nat.length_toDigits_le_iff (by decide) (by decide)).2
    omega
  unfold readPart?
  rw [readNumber?_toDigits (by decide) (by decide) part.toNat hroom false hrest]
  simp [hpart]

theorem toList_text (ip : Ipv4) :
    ip.text.toList = Nat.toDigits 10 ip.a.toNat ++ '.' :: (Nat.toDigits 10 ip.b.toNat ++
      '.' :: (Nat.toDigits 10 ip.c.toNat ++ '.' :: Nat.toDigits 10 ip.d.toNat)) := by
  have hdot : (toString ".").toList = ['.'] := rfl
  simp [text, hdot]

/-- An IPv4 address is read back from its text, if no digit follows. -/
theorem read?_text (ip : Ipv4) {rest : List Char} (hrest : Halts 10 rest) :
    read? (ip.text.toList ++ rest) = some (ip, rest) := by
  have hdot (more : List Char) : Halts 10 ('.' :: more) := halts_cons.2 rfl
  unfold read?
  simp only [toList_text, List.append_assoc, List.cons_append, readPart?_toDigits _ (hdot _),
    readPart?_toDigits _ hrest, readChar?_cons, Option.bind_eq_bind, Option.bind_some,
    Option.pure_def]

theorem parse?_text (ip : Ipv4) : parse? ip.text.toList = some ip := by
  have hread := ip.read?_text (halts_nil 10)
  rw [List.append_nil] at hread
  unfold parse?
  rw [hread]

theorem read?_of_halts {chars : List Char} (hchars : Halts 10 chars) : read? chars = none := by
  unfold read? readPart?
  rw [readNumber?_of_halts hchars]
  rfl

/-- A text whose first digits are not followed by a dot does not begin with an IPv4 address. -/
theorem read?_eq_none {chars : List Char} (hdot : (spanDigits 10 chars).2.head? ≠ some '.') :
    read? chars = none := by
  unfold read?
  cases hpart : readPart? chars with
  | none => rfl
  | some part =>
      obtain ⟨a, rest⟩ := part
      have hrest : rest = (spanDigits 10 chars).2 := by
        unfold readPart? readNumber? at hpart
        grind
      have hchar : readChar? '.' rest = none := by
        rw [← hrest] at hdot
        cases rest with
        | nil => rfl
        | cons c rest => simpa [readChar?] using hdot
      simp [hchar]

/-- A group in hexadecimal in front of a colon is no IPv4 address. -/
theorem read?_group (group : Nat) {rest : List Char} (hrest : AtColon rest) :
    read? (Nat.toDigits 16 group ++ rest) = none := by
  obtain ⟨digits, hwritten, -, hbelow, -⟩ := exists_digits (by decide : 1 < 16) group
  apply read?_eq_none
  rw [hwritten]
  clear hwritten
  induction digits with
  | nil =>
      have hspan : spanDigits 10 rest = ([], rest) := spanDigits_of_halts (hrest.halts rfl)
      rw [List.map_nil, List.nil_append, hspan]
      intro hdot
      exact absurd (hrest '.' hdot) (by decide)
  | cons d digits ih =>
      have hd := hbelow d List.mem_cons_self
      have hothers := ih fun d hmem => hbelow d (List.mem_cons_of_mem _ hmem)
      rw [List.map_cons, List.cons_append]
      unfold spanDigits
      split
      · have hdigit := digitValue?_digitChar (by decide : 16 ≤ 16) hd
        intro hdot
        rw [List.head?_cons, Option.some.injEq] at hdot
        rw [hdot] at hdigit
        exact absurd hdigit nofun
      · exact hothers

end Ipv4

/-! ## IPv6 -/

namespace Ipv6

/-- A text that is over or goes on with a double colon. -/
def AtGap (chars : List Char) : Prop :=
  chars = [] ∨ ∃ rest, chars = ':' :: ':' :: rest

theorem AtGap.atColon {chars : List Char} (hgap : AtGap chars) : AtColon chars := by
  rcases hgap with rfl | ⟨rest, rfl⟩
  · simp [AtColon]
  · exact atColon_cons _

/-- Groups with a colon in front of each. -/
def trailing (groups : List UInt16) : List Char :=
  groups.flatMap fun g => ':' :: Nat.toDigits 16 g.toNat

theorem toList_groupsText_cons (g : UInt16) (groups : List UInt16) :
    (groupsText (g :: groups)).toList = Nat.toDigits 16 g.toNat ++ trailing groups := by
  have hcolon : (":" : String).toList = [':'] := rfl
  have hhex (g : UInt16) : (hexNat g.toNat).toList = Nat.toDigits 16 g.toNat :=
    String.toList_ofList
  unfold groupsText
  rw [String.toList_intercalate, hcolon]
  induction groups generalizing g with
  | nil => simp [hhex, trailing]
  | cons h groups ih =>
      have hrest := ih h
      simp only [List.map_cons] at hrest ⊢
      rw [List.intercalate_cons_cons, hrest, hhex]
      simp [trailing]

theorem atColon_trailing (groups : List UInt16) {rest : List Char} (hrest : AtColon rest) :
    AtColon (trailing groups ++ rest) := by
  cases groups with
  | nil => exact hrest
  | cons g groups => exact atColon_cons _

/-! ### Reading groups -/

theorem AtGap.atColon_of_readSeparator? {index : Nat} {chars after : List Char}
    (hgap : AtGap chars) (hafter : readSeparator? index chars = some after) : AtColon after := by
  unfold readSeparator? at hafter
  split at hafter
  · obtain rfl := Option.some.inj hafter
    exact hgap.atColon
  · rcases hgap with rfl | ⟨rest, rfl⟩
    · exact absurd hafter nofun
    · rw [readChar?_cons] at hafter
      obtain rfl := Option.some.inj hafter
      exact atColon_cons rest

/-- No group is read at the end of a text, nor in front of a double colon. -/
theorem readGroups_atGap (index room : Nat) {rest : List Char} (hrest : AtGap rest) :
    readGroups index room rest = ([], false, rest) := by
  cases room with
  | zero => rfl
  | succ room =>
      have hdotted : (readSeparator? index rest >>= Ipv4.read?) = none := by
        apply Option.bind_eq_none_iff.2
        intro after hafter
        exact Ipv4.read?_of_halts ((hrest.atColon_of_readSeparator? hafter).halts rfl)
      have hgroup : (readSeparator? index rest >>= readNumber? 16 (some 4) true) = none := by
        apply Option.bind_eq_none_iff.2
        intro after hafter
        exact readNumber?_of_halts ((hrest.atColon_of_readSeparator? hafter).halts rfl)
      unfold readGroups
      simp only [hdotted, hgroup, ite_self]

/-- A group that is followed by a colon or by nothing is read. -/
theorem readGroups_group {index room : Nat} {chars rest : List Char} {g : UInt16}
    (hchars : readSeparator? index chars = some (Nat.toDigits 16 g.toNat ++ rest))
    (hrest : AtColon rest) :
    readGroups index (room + 1) chars =
      (g :: (readGroups (index + 1) room rest).1, (readGroups (index + 1) room rest).2) := by
  have hg : g.toNat < 65536 := g.toNat_lt
  have hroom : ∀ k ∈ some 4, (Nat.toDigits 16 g.toNat).length ≤ k := by
    intro k hk
    obtain rfl := Option.some.inj hk
    apply (Nat.length_toDigits_le_iff (by decide) (by decide)).2
    omega
  have hdotted : (readSeparator? index chars >>= Ipv4.read?) = none := by
    rw [hchars]
    exact Ipv4.read?_group g.toNat hrest
  have hgroup : (readSeparator? index chars >>= readNumber? 16 (some 4) true) =
      some (g.toNat, rest) := by
    rw [hchars]
    exact readNumber?_toDigits (by decide) (by decide) g.toNat hroom true (hrest.halts rfl)
  rw [readGroups]
  simp only [hdotted, hgroup, ite_self, UInt16.ofNat_toNat]

theorem readGroups_trailing (index : Nat) {room : Nat} {groups : List UInt16} {rest : List Char}
    (hroom : groups.length ≤ room) (hrest : AtGap rest) :
    readGroups (index + 1) room (trailing groups ++ rest) = (groups, false, rest) := by
  induction groups generalizing index room with
  | nil => exact readGroups_atGap (index + 1) room hrest
  | cons g groups ih =>
      obtain ⟨room, rfl⟩ : ∃ others, room = others + 1 := ⟨room - 1, by simp at hroom; omega⟩
      have hothers : groups.length ≤ room := by simpa using hroom
      have hsplit : readSeparator? (index + 1) (trailing (g :: groups) ++ rest) =
          some (Nat.toDigits 16 g.toNat ++ (trailing groups ++ rest)) := by
        simp [readSeparator?, trailing, readChar?]
      rw [readGroups_group hsplit (atColon_trailing groups hrest.atColon), ih (index + 1) hothers]

/-- The groups of a text are read up to its end or to a double colon. -/
theorem readGroups_groupsText {room : Nat} {groups : List UInt16} {rest : List Char}
    (hroom : groups.length ≤ room) (hrest : AtGap rest) :
    readGroups 0 room ((groupsText groups).toList ++ rest) = (groups, false, rest) := by
  cases groups with
  | nil => exact readGroups_atGap 0 room hrest
  | cons g groups =>
      obtain ⟨room, rfl⟩ : ∃ others, room = others + 1 := ⟨room - 1, by simp at hroom; omega⟩
      have hothers : groups.length ≤ room := by simpa using hroom
      have hsplit : readSeparator? 0 ((groupsText (g :: groups)).toList ++ rest) =
          some (Nat.toDigits 16 g.toNat ++ (trailing groups ++ rest)) := by
        simp [readSeparator?, toList_groupsText_cons]
      rw [readGroups_group hsplit (atColon_trailing groups hrest.atColon),
        readGroups_trailing 0 hothers hrest]

/-! ### The longest run of zeros -/

theorem zeroRun_split (groups : List UInt16) :
    ∃ back, groups = List.replicate (zeroRun groups) 0 ++ back := by
  induction groups with
  | nil => exact ⟨[], rfl⟩
  | cons g groups ih =>
      obtain ⟨back, hback⟩ := ih
      unfold zeroRun
      split
      · next hzero =>
          refine ⟨back, ?_⟩
          rw [hzero, List.replicate_succ, List.cons_append, ← hback]
      · exact ⟨g :: groups, rfl⟩

/-- The position and the length that are found are those of a run of zeros. -/
theorem longestRun_split (position : Nat) (groups : List UInt16) :
    ∃ front back length, longestRun position groups = (position + front.length, length) ∧
      groups = front ++ (List.replicate length 0 ++ back) := by
  induction groups generalizing position with
  | nil => exact ⟨[], [], 0, rfl, rfl⟩
  | cons g groups ih =>
      unfold longestRun
      dsimp only
      split
      · obtain ⟨back, hback⟩ := zeroRun_split (g :: groups)
        exact ⟨[], back, _, rfl, hback⟩
      · obtain ⟨front, back, length, hfound, hsplit⟩ := ih (position + 1)
        refine ⟨g :: front, back, length, ?_, ?_⟩
        · rw [hfound, List.length_cons]
          congr 1
          omega
        · rw [hsplit, List.cons_append]

/-! ### Both sides of a gap -/

theorem ofGroups_toList (ip : Ipv6) : ofGroups ip.groups.toList = ip := by
  obtain ⟨groups⟩ := ip
  unfold ofGroups
  congr 1
  apply Vector.ext
  intro i hi
  simp

/-- Eight groups without a double colon. -/
theorem read?_groupsText {groups : List UInt16} (hlength : groups.length = 8) :
    read? (groupsText groups).toList = some (ofGroups groups, []) := by
  have hread := readGroups_groupsText (Nat.le_of_eq hlength) (Or.inl rfl)
  rw [List.append_nil] at hread
  unfold read?
  simp only [hread, hlength, if_true]

/-- Groups on both sides of a double colon, which stands for the zeros that are missing. -/
theorem read?_gap {front back : List UInt16} {chars rest : List Char} {dotted : Bool}
    (hfront : front.length < 8)
    (hback : readGroups 0 (7 - front.length) chars = (back, dotted, rest)) :
    read? ((groupsText front).toList ++ ':' :: ':' :: chars) =
      some (ofGroups (front ++ List.replicate (8 - front.length - back.length) 0 ++ back),
        rest) := by
  have hread : readGroups 0 8 ((groupsText front).toList ++ ':' :: ':' :: chars) =
      (front, false, ':' :: ':' :: chars) :=
    readGroups_groupsText (Nat.le_of_lt hfront) (Or.inr ⟨chars, rfl⟩)
  unfold read?
  simp only [hread, Nat.ne_of_lt hfront, if_false, readChar?_cons, hback, Option.bind_eq_bind,
    Option.bind_some, Bool.false_eq_true]

/-! ### Embedded addresses -/

theorem word_of_parts (word : UInt16) :
    (word / 256).toUInt8.toUInt16 * 256 + word.toUInt8.toUInt16 = word := by
  apply UInt16.toNat_inj.1
  have hword := word.toNat_lt
  simp only [UInt16.toNat_add, UInt16.toNat_mul, UInt8.toNat_toUInt16, UInt16.toNat_toUInt8,
    UInt16.toNat_div, UInt16.reduceToNat]
  omega

/-- An IPv4 address behind a colon is read as two groups. -/
theorem readGroups_dotted (index room : Nat) (v4 : Ipv4) :
    readGroups (index + 1) (room + 2) (':' :: v4.text.toList) =
      ([v4.a.toUInt16 * 256 + v4.b.toUInt16, v4.c.toUInt16 * 256 + v4.d.toUInt16], true, []) := by
  have hdotted : (readSeparator? (index + 1) (':' :: v4.text.toList) >>= Ipv4.read?) =
      some (v4, []) := by
    have hread := v4.read?_text (halts_nil 10)
    rw [List.append_nil] at hread
    simpa [readSeparator?, readChar?_cons] using hread
  rw [readGroups]
  simp only [hdotted, Nat.succ_ne_zero, if_false]

theorem read?_embedded {ip : Ipv6} {v4 : Ipv4} (hembedded : ip.embedded? = some v4) :
    read? ("::ffff:".toList ++ v4.text.toList) = some (ip, []) := by
  unfold embedded? at hembedded
  split at hembedded
  · next high low hgroups =>
      have hparts := Option.some.inj hembedded
      have hhigh : v4.a.toUInt16 * 256 + v4.b.toUInt16 = high := by
        rw [← hparts]
        exact word_of_parts high
      have hlow : v4.c.toUInt16 * 256 + v4.d.toUInt16 = low := by
        rw [← hparts]
        exact word_of_parts low
      have hseparator : readSeparator? 0 ("ffff:".toList ++ v4.text.toList) =
          some (Nat.toDigits 16 (0xFFFF : UInt16).toNat ++ ':' :: v4.text.toList) := rfl
      have hlast : readGroups 0 7 ("ffff:".toList ++ v4.text.toList) =
          ([0xFFFF, high, low], true, []) := by
        rw [readGroups_group hseparator (atColon_cons _), readGroups_dotted, hhigh, hlow]
      have hshort : ([] : List UInt16).length < 8 := by decide
      have hread := read?_gap hshort hlast
      refine hread.trans ?_
      rw [← ofGroups_toList ip, hgroups]
      rfl
  · exact absurd hembedded nofun

/-! ### The text of an address -/

/-- An address whose zeros in the middle are left out. -/
theorem read?_shortened {ip : Ipv6} {front back : List UInt16} {length : Nat} (hlong : 2 ≤ length)
    (hsplit : ip.groups.toList = front ++ (List.replicate length 0 ++ back)) :
    read? ((groupsText front).toList ++ ':' :: ':' :: (groupsText back).toList) =
      some (ip, []) := by
  have htotal : front.length + (length + back.length) = 8 := by
    have hall : ip.groups.toList.length = 8 := by simp
    rw [hsplit] at hall
    simpa using hall
  have hgap : 8 - front.length - back.length = length := by omega
  have hfront : front.length < 8 := by omega
  have hback : back.length ≤ 7 - front.length := by omega
  have hend := readGroups_groupsText hback (Or.inl rfl)
  rw [List.append_nil] at hend
  rw [read?_gap hfront hend, hgap, List.append_assoc, ← hsplit, ofGroups_toList]

theorem read?_text (ip : Ipv6) : read? ip.text.toList = some (ip, []) := by
  unfold text
  split
  · next v4 hembedded =>
      rw [String.toList_append]
      exact read?_embedded hembedded
  · obtain ⟨front, back, length, hfound, hsplit⟩ := longestRun_split 0 ip.groups.toList
    simp only [hfound, Nat.zero_add]
    split
    · have hall : ip.groups.toList.length = 8 := by simp
      rw [read?_groupsText hall, ofGroups_toList]
    · next hlong =>
        have hfront : ip.groups.toList.take front.length = front := by
          rw [hsplit, List.take_left]
        have hback : ip.groups.toList.drop (front.length + length) = back := by
          rw [hsplit, ← List.drop_drop, List.drop_left]
          exact List.drop_left' List.length_replicate
        have hcolons : ("::" : String).toList = [':', ':'] := rfl
        rw [hfront, hback, String.toList_append, String.toList_append, hcolons,
          List.append_assoc]
        exact read?_shortened (Nat.not_lt.1 hlong) hsplit

theorem parse?_text (ip : Ipv6) : parse? ip.text.toList = some ip := by
  unfold parse?
  rw [ip.read?_text]

end Ipv6

end Overlay.Address
