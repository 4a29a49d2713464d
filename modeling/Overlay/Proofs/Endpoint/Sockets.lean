import Overlay.Proofs.Address.Grammar
import Overlay.Proofs.Endpoint.Reading

/-!
# Endpoints of sockets

A literal of an address is a legible host.  So the endpoint of a socket is read
back from its text, which is the text of the socket but for the scope, and it
stands for that socket and no other one.
-/

namespace Overlay.Endpoint

open Address

theorem legible_of_isLiteralChar {host : List Char} (hne : host ≠ [])
    (hchars : ∀ c ∈ host, IsLiteralChar c) : Legible host where
  nonempty := hne
  unopened := by
    intro hopen
    exact absurd (hchars '[' (List.mem_of_mem_head? hopen)).toNat_cases (by decide)
  unclosed := by
    intro hclose
    exact absurd (hchars ']' (List.mem_of_mem_getLast? hclose)).toNat_cases (by decide)
  unindented := Or.inr fun c hc => (hchars c (List.mem_of_mem_head? hc)).isBlank_eq_false

/-- A literal of an address is a legible host. -/
theorem legible_of_literal {host : String} {ip : Ip} (hliteral : Ip.parse? host = some ip) :
    Legible host.toList := by
  obtain ⟨hne, hchars⟩ := Ip.isLiteralChar_of_parse? hliteral
  exact legible_of_isLiteralChar hne hchars

/-- An address with a port is read back, whichever port it is. -/
theorem parse_display_address (ip : Ip) (port : UInt16) :
    parse (display ⟨ip.text, port⟩) = .ok ⟨ip.text, port⟩ :=
  parse_display_of_legible (legible_of_literal ip.parse?_text)

theorem resolve_address (ip : Ip) (port : UInt16) :
    resolve ⟨ip.text, port⟩ = .ok [{ ip, port }] := by
  unfold resolve
  simp only [ip.parse?_text]

/-- The text of the endpoint is that of the socket without a scope. -/
theorem display_address (ip : Ip) (port : UInt16) :
    display ⟨ip.text, port⟩ = Socket.text { ip, port } := by
  apply String.toList_inj.1
  unfold display displayChars Socket.text
  rw [String.toList_ofList]
  cases ip with
  | v4 ip =>
      have hcolon : ':' ∉ ip.text.toList := ip.colon_notMem_text
      simp [Ip.text, hcolon]
      rfl
  | v6 ip =>
      have hcolon : ':' ∈ ip.text.toList := ip.colon_mem_text
      simp [Ip.text, hcolon]
      rfl

/-- **The endpoint of a socket is read back from its text, and stands for that socket.**  The text
is that of the socket if it has no scope, the endpoint resolves to the socket without its scope and
its flow label, and no socket with another address or port has the same endpoint. -/
theorem ofSocket_reread_and_resolved (socket : Socket) :
    parse (ofSocket socket).display = .ok (ofSocket socket) ∧
      (socket.scope = 0 → (ofSocket socket).display = socket.text) ∧
        (ofSocket socket).resolve = .ok [{ socket with scope := 0, flow := 0 }] ∧
          ∀ other : Socket, ofSocket socket = ofSocket other →
            socket.ip = other.ip ∧ socket.port = other.port := by
  refine ⟨parse_display_address socket.ip socket.port, ?_,
    resolve_address socket.ip socket.port, ?_⟩
  · intro hscope
    unfold ofSocket
    rw [display_address]
    unfold Socket.text
    rw [hscope]
  · intro other hsame
    unfold ofSocket at hsame
    obtain ⟨htext, hport⟩ := Endpoint.mk.inj hsame
    exact ⟨Ip.text_inj htext, hport⟩

/-- A socket on the machine itself, and one that differs from it in its flow label. -/
theorem ofSocket_reread_and_resolved_loopback :
    let loopback : Socket := { ip := .v6 ⟨#v[0, 0, 0, 0, 0, 0, 0, 1]⟩, port := 7000 }
    let labelled : Socket := { loopback with flow := 5 }
    loopback.scope = 0 ∧ (ofSocket loopback).display = loopback.text ∧
      loopback.text = "[::1]:7000" ∧ ofSocket loopback = ofSocket labelled ∧
        loopback.ip = labelled.ip ∧ loopback.port = labelled.port := by
  intro loopback labelled
  have hscope : loopback.scope = 0 := rfl
  have hsame : ofSocket loopback = ofSocket labelled := rfl
  obtain ⟨-, hdisplay, -, honly⟩ := ofSocket_reread_and_resolved loopback
  exact ⟨hscope, hdisplay hscope, by decide +kernel, hsame, honly labelled hsame⟩

end Overlay.Endpoint
