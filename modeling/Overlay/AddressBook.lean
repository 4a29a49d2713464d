import Overlay.Endpoint

/-!
# Address books

Endpoints that were heard of, each once, in the order in which they were
learned, and no more than fit.
-/

namespace Overlay

/-- The usual capacity of an address book. -/
def defaultBookCapacity : Nat := 20

structure AddressBook where
  capacity : Nat := defaultBookCapacity
  entries : List Endpoint := []

namespace AddressBook

/-- Adds an endpoint that is not in the book, if there is room. -/
def add (book : AddressBook) (e : Endpoint) : Except NetError AddressBook :=
  if e ∈ book.entries then .error (.duplicateKey e.display)
  else if book.capacity ≤ book.entries.length then
    .error (.storeFull s!"address book holds {book.capacity} entries")
  else .ok { book with entries := book.entries ++ [e] }

/-- Adds an endpoint if that is possible. -/
def learn (book : AddressBook) (e : Endpoint) : AddressBook :=
  match book.add e with
  | .ok book => book
  | .error _ => book

def remove (book : AddressBook) (e : Endpoint) : AddressBook :=
  { book with entries := book.entries.filter (· ≠ e) }

variable {book : AddressBook} {e : Endpoint}

theorem exists_add_error_iff : (∃ cause, book.add e = .error cause) ↔
    e ∈ book.entries ∨ book.capacity ≤ book.entries.length := by
  by_cases hknown : e ∈ book.entries <;>
    by_cases hfull : book.capacity ≤ book.entries.length <;> simp [add, hknown, hfull]

theorem learn_of_error {cause : NetError} (hadd : book.add e = .error cause) :
    book.learn e = book := by
  rw [learn, hadd]

theorem learn_of_known_or_full (h : e ∈ book.entries ∨ book.capacity ≤ book.entries.length) :
    book.learn e = book := by
  obtain ⟨cause, hadd⟩ := exists_add_error_iff.2 h
  exact learn_of_error hadd

theorem learn_of_room (hnew : e ∉ book.entries) (hroom : book.entries.length < book.capacity) :
    book.learn e = { book with entries := book.entries ++ [e] } := by
  simp [learn, add, hnew, Nat.not_le.2 hroom]

end AddressBook

end Overlay
