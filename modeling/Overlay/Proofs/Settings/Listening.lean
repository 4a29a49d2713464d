import Overlay.Proofs.Endpoint.Sockets
import Overlay.Settings

/-!
# The address to listen on

The variable of the environment that replaces the address to listen on holds an
endpoint or a host.  An endpoint whose host is a literal or a name gives its host
and its port, and a host without a colon gives itself.  A literal of an IPv6
address is also read as an endpoint first: if its last group is a decimal number
it is taken apart there, and what is in front of its last colon becomes the host.
-/

namespace Overlay

open Address

namespace Address

/-- The last field of an IPv6 literal, behind its last colon. -/
theorem IsFields.exists_last {chars : List Char} (hfields : IsFields chars)
    (hcolon : ':' ∈ chars) :
    ∃ front last : List Char, chars = front ++ ':' :: last ∧ IsField last := by
  induction hfields with
  | last hfield => exact absurd hcolon hfield.colon_notMem
  | @cons field chars hfield hchars ih =>
      by_cases hmore : ':' ∈ chars
      · obtain ⟨front, last, hsplit, hlast⟩ := ih hmore
        refine ⟨field ++ ':' :: front, last, ?_, hlast⟩
        rw [hsplit, List.append_assoc, List.cons_append]
      · refine ⟨field, chars, rfl, ?_⟩
        cases hchars with
        | last hlast => exact hlast
        | cons => exact absurd (List.mem_append_right _ List.mem_cons_self) hmore

/-- A field is read as a port exactly if it is a number in decimal digits. -/
theorem IsField.readUInt16_cases {field : List Char} (hfield : IsField field) :
    (field ≠ [] ∧ ∀ c ∈ field, c.isDigit = true) ∧ (∃ port, Text.readUInt16 field = .ok port) ∨
      ¬ (field ≠ [] ∧ ∀ c ∈ field, c.isDigit = true) ∧
        ∃ fault, Text.readUInt16 field = .error fault := by
  by_cases hnumber : field ≠ [] ∧ ∀ c ∈ field, c.isDigit = true
  · refine Or.inl ⟨hnumber, ?_⟩
    cases hfield with
    | group hshort _ => exact Text.exists_port hnumber.1 hshort hnumber.2
    | dotted hdotted => exact absurd (hnumber.2 '.' hdotted.dot) (by decide)
  · refine Or.inr ⟨hnumber, ?_⟩
    have hplus : '+' ∉ field := by
      intro hplus
      exact absurd (hfield.isLiteralChar '+' hplus).toNat_cases (by decide)
    cases hread : Text.readUInt16 field with
    | error fault => exact ⟨fault, rfl⟩
    | ok port => exact absurd (Text.isDigit_of_readUInt16 hplus hread) hnumber

end Address

namespace Settings

variable {settings : Settings} {text : String}

theorem overrideAddress_of_ok {e : Endpoint} (hparse : Endpoint.parse text = .ok e) :
    settings.overrideAddress text =
      .ok { settings with listenHost := e.host, listenPort := e.port } := by
  unfold overrideAddress
  rw [hparse]

theorem overrideAddress_of_error {fault : NetError} (hne : text ≠ "")
    (hparse : Endpoint.parse text = .error fault) :
    settings.overrideAddress text = .ok { settings with listenHost := text } := by
  unfold overrideAddress
  rw [hparse]
  exact if_neg hne

/-! ## Texts without a colon -/

theorem overrideAddress_of_colon_notMem (hne : text ≠ "") (hcolon : ':' ∉ text.toList) :
    settings.overrideAddress text = .ok { settings with listenHost := text } := by
  have htrimmed : ':' ∉ Text.trimBlank text.toList := by
    intro hmem
    apply hcolon
    exact (List.dropWhile_sublist _).subset ((Text.trimBlank_isPrefix text.toList).subset hmem)
  have hparse : Endpoint.parse text = .error (.config (.missingPort text)) := by
    unfold Endpoint.parse
    rw [Text.splitLast_of_notMem htrimmed]
  exact overrideAddress_of_error hne hparse

/-! ## Names and literals with a port -/

/-- A name without colons, brackets and blanks. -/
structure IsName (host : List Char) : Prop where
  nonempty : host ≠ []
  plain : ∀ c ∈ host, c ≠ ':' ∧ c ≠ '[' ∧ c ≠ ']' ∧ Text.isBlank c = false

theorem IsName.legible {host : List Char} (hname : IsName host) : Endpoint.Legible host where
  nonempty := hname.nonempty
  unopened := fun hopen => (hname.plain '[' (List.mem_of_mem_head? hopen)).2.1 rfl
  unclosed := fun hclose => (hname.plain ']' (List.mem_of_mem_getLast? hclose)).2.2.1 rfl
  unindented := Or.inr fun c hc => (hname.plain c (List.mem_of_mem_head? hc)).2.2.2

theorem overrideAddress_display {e : Endpoint}
    (hhost : (Ip.parse? e.host).isSome ∨ IsName e.host.toList) :
    settings.overrideAddress e.display =
      .ok { settings with listenHost := e.host, listenPort := e.port } := by
  apply overrideAddress_of_ok
  apply Endpoint.parse_display_of_legible
  rcases hhost with hliteral | hname
  · obtain ⟨ip, hip⟩ := Option.isSome_iff_exists.1 hliteral
    exact Endpoint.legible_of_literal hip
  · exact hname.legible

/-! ## Literals alone -/

/-- A text that ends in a colon and a decimal number. -/
structure EndsInNumber (text : String) (host digits : List Char) : Prop where
  chars : text.toList = host ++ ':' :: digits
  nonempty : digits ≠ []
  isDigit : ∀ c ∈ digits, c.isDigit = true

theorem EndsInNumber.colon_notMem {host digits : List Char} (hends : EndsInNumber text host digits) :
    ':' ∉ digits := by
  intro hcolon
  exact absurd (hends.isDigit ':' hcolon) (by decide)

/-- The colon in front of the number is the last one. -/
theorem EndsInNumber.unique {host digits front last : List Char}
    (hends : EndsInNumber text host digits) (hchars : text.toList = front ++ ':' :: last)
    (hlast : ':' ∉ last) : host = front ∧ digits = last := by
  have hsplit : Text.splitLast ':' text.toList = some (front, last) := by
    rw [hchars]
    exact Text.splitLast_append hlast
  rw [hends.chars, Text.splitLast_append hends.colon_notMem] at hsplit
  exact Prod.mk.inj (Option.some.inj hsplit)

/-- An IPv6 literal is read as an endpoint as far as its last field is a port. -/
theorem parse_of_isField {front last : List Char} (hchars : text.toList = front ++ ':' :: last)
    (hliteral : ∀ c ∈ text.toList, IsLiteralChar c) (hfront : front ≠ []) (hlast : ':' ∉ last) :
    Endpoint.parse text =
      match Text.readUInt16 last with
      | .error fault => .error (.config (.invalidPort text fault))
      | .ok port => .ok ⟨String.ofList front, port⟩ := by
  have htrim : Text.trimBlank text.toList = text.toList :=
    Text.trimBlank_eq_self fun c hc => (hliteral c hc).isBlank_eq_false
  have hlegible : Endpoint.Legible front := by
    apply Endpoint.legible_of_isLiteralChar hfront
    intro c hc
    apply hliteral
    rw [hchars]
    exact List.mem_append_left _ hc
  have hstrip : Endpoint.stripBrackets front = front :=
    Endpoint.stripBrackets_eq_self hlegible.unopened hlegible.unclosed
  unfold Endpoint.parse
  rw [htrim, hchars, Text.splitLast_append hlast]
  cases hport : Text.readUInt16 last with
  | error fault => simp only [hstrip, if_neg hfront, hport]
  | ok port => simp only [hstrip, if_neg hfront, hport]

/-- A literal is taken as a host, unless it ends in a colon and a number. -/
theorem overrideAddress_literal {ip : Ip} (hliteral : Ip.parse? text = some ip) :
    (∀ host digits : List Char, EndsInNumber text host digits →
        ∃ port : UInt16, Text.readUInt16 digits = .ok port ∧
          settings.overrideAddress text =
            .ok { settings with listenHost := String.ofList host, listenPort := port }) ∧
      ((∀ host digits : List Char, ¬ EndsInNumber text host digits) →
        settings.overrideAddress text = .ok { settings with listenHost := text }) := by
  obtain ⟨hne, hall⟩ := Ip.isLiteralChar_of_parse? hliteral
  have htext : text ≠ "" := by
    rintro rfl
    exact hne rfl
  rcases Ip.parse?_cases hliteral with hdotted | ⟨hfields, hcount⟩
  · -- an IPv4 literal has no colon
    have hcolon := hdotted.colon_notMem
    constructor
    · intro host digits hends
      refine absurd ?_ hcolon
      rw [hends.chars]
      exact List.mem_append_right _ List.mem_cons_self
    · intro _
      exact overrideAddress_of_colon_notMem htext hcolon
  · have hcolon : ':' ∈ text.toList := List.count_pos_iff.1 (by omega)
    obtain ⟨front, last, hchars, hlast⟩ := hfields.exists_last hcolon
    have hfront : front ≠ [] := by
      rintro rfl
      rw [hchars, List.nil_append, List.count_cons_self,
        List.count_eq_zero.2 hlast.colon_notMem] at hcount
      omega
    have hparse := parse_of_isField hchars hall hfront hlast.colon_notMem
    rcases hlast.readUInt16_cases with ⟨hnumber, port, hport⟩ | ⟨hnumber, fault, hfault⟩
    · rw [hport] at hparse
      constructor
      · intro host digits hends
        obtain ⟨rfl, rfl⟩ := hends.unique hchars hlast.colon_notMem
        exact ⟨port, hport, overrideAddress_of_ok hparse⟩
      · intro hnone
        exact absurd ⟨hchars, hnumber.1, hnumber.2⟩ (hnone front last)
    · rw [hfault] at hparse
      constructor
      · intro host digits hends
        obtain ⟨rfl, rfl⟩ := hends.unique hchars hlast.colon_notMem
        exact absurd ⟨hends.nonempty, hends.isDigit⟩ hnumber
      · intro _
        exact overrideAddress_of_error htext hparse

/-- **What the variable for the address to listen on is taken for.**  The text of an endpoint whose
host is a literal or a name sets host and port, and any other name without a colon sets the host.  A
literal sets the host, unless it ends in a colon and a decimal number: then it is taken apart there
and sets both. -/
theorem overrideAddress_taken_or_apart (settings : Settings) :
    (∀ e : Endpoint, (Ip.parse? e.host).isSome ∨ IsName e.host.toList →
        settings.overrideAddress e.display =
          .ok { settings with listenHost := e.host, listenPort := e.port }) ∧
      (∀ name : String, name ≠ "" → ':' ∉ name.toList →
        settings.overrideAddress name = .ok { settings with listenHost := name }) ∧
      ∀ (literal : String) (ip : Ip), Ip.parse? literal = some ip →
        (∀ host digits : List Char, EndsInNumber literal host digits →
          ∃ port : UInt16, Text.readUInt16 digits = .ok port ∧
            settings.overrideAddress literal =
              .ok { settings with listenHost := String.ofList host, listenPort := port }) ∧
        ((∀ host digits : List Char, ¬ EndsInNumber literal host digits) →
          settings.overrideAddress literal = .ok { settings with listenHost := literal }) :=
  ⟨fun _ hhost => overrideAddress_display hhost,
    fun _ hne hcolon => overrideAddress_of_colon_notMem hne hcolon,
    fun _ _ hliteral => overrideAddress_literal hliteral⟩

/-- A literal with a port, a name, a literal that is taken as a host and one that is not. -/
theorem overrideAddress_taken_or_apart_usual :
    overrideAddress {} "[::1]:7100" = .ok { listenHost := "::1", listenPort := 7100 } ∧
      overrideAddress {} "localhost" = .ok { listenHost := "localhost" } ∧
        overrideAddress {} "fe80::a" = .ok { listenHost := "fe80::a" } ∧
          overrideAddress {} "::1" = .ok { listenHost := ":", listenPort := 1 } := by
  obtain ⟨hdisplay, hname, hliteral⟩ := overrideAddress_taken_or_apart {}
  refine ⟨?_, ?_, ?_, ?_⟩
  · have htext : Endpoint.display ⟨"::1", 7100⟩ = "[::1]:7100" := by decide +kernel
    rw [← htext]
    exact hdisplay ⟨"::1", 7100⟩ (Or.inl (by decide +kernel))
  · exact hname "localhost" (by decide) (by decide)
  · have hip : Ip.parse? "fe80::a" = some (.v6 ⟨#v[0xFE80, 0, 0, 0, 0, 0, 0, 0xA]⟩) := by
      decide +kernel
    apply (hliteral "fe80::a" _ hip).2
    intro host digits hends
    have hchars : "fe80::a".toList = ['f', 'e', '8', '0', ':'] ++ ':' :: ['a'] := by decide
    obtain ⟨-, rfl⟩ := hends.unique hchars (by decide)
    exact absurd (hends.isDigit 'a' List.mem_cons_self) (by decide)
  · have hip : Ip.parse? "::1" = some (.v6 ⟨#v[0, 0, 0, 0, 0, 0, 0, 1]⟩) := by
      decide +kernel
    obtain ⟨port, hport, htaken⟩ :=
      (hliteral "::1" _ hip).1 [':'] ['1'] ⟨by decide, by decide, by simp⟩
    have hone : Text.readUInt16 ['1'] = .ok 1 := by decide +kernel
    rw [hone, Except.ok.injEq] at hport
    rw [htaken, ← hport]

/-- The literal of the machine itself is taken apart, although it is a host. -/
theorem not_host_loopback :
    (Ip.parse? "::1").isSome ∧
      overrideAddress {} "::1" ≠ .ok { listenHost := "::1" } ∧
        overrideAddress {} "::1" = .ok { listenHost := ":", listenPort := 1 } := by
  have hapart : overrideAddress {} "::1" = .ok { listenHost := ":", listenPort := 1 } := by
    decide +kernel
  refine ⟨by decide +kernel, ?_, hapart⟩
  rw [hapart]
  decide +kernel

end Settings

end Overlay
