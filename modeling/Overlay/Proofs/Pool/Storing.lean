import Overlay.PeerStore

/-!
# Stores as sets of endpoints

The text of an endpoint says what its host and its port are, so that no two
endpoints share a key.  A store that was told of an endpoint knows it and what
it knew before, and one that was told to forget it knows all but it.
-/

namespace Overlay

namespace Endpoint

/-- What stands before the last colon of a text, and what stands behind it. -/
theorem append_colon_inj {host host' digits digits' : List Char} (hdigits : ':' ∉ digits)
    (hdigits' : ':' ∉ digits') (hchars : host ++ ':' :: digits = host' ++ ':' :: digits') :
    host = host' ∧ digits = digits' := by
  have hsame {more others others' : List Char} (hothers : ':' ∉ others)
      (hrest : ':' :: others = more ++ ':' :: others') : more = [] ∧ others = others' := by
    cases more with
    | nil => exact ⟨rfl, (List.cons.inj hrest).2⟩
    | cons c more =>
        refine absurd ?_ hothers
        rw [(List.cons.inj hrest).2]
        exact List.mem_append_right _ List.mem_cons_self
  rcases List.append_eq_append_iff.1 hchars with ⟨more, hhost, hrest⟩ | ⟨more, hhost, hrest⟩
  · obtain ⟨rfl, rfl⟩ := hsame hdigits hrest
    exact ⟨by rw [hhost, List.append_nil], rfl⟩
  · obtain ⟨rfl, rfl⟩ := hsame hdigits' hrest
    exact ⟨by rw [hhost, List.append_nil], rfl⟩

/-- The digits of a number say which it is. -/
theorem digits_inj {m n : Nat} (hdigits : (toString m).toList = (toString n).toList) : m = n := by
  simp only [Nat.toString_eq_repr, Nat.repr_eq_ofList_toDigits, String.toList_ofList] at hdigits
  have hread (k : Nat) : Nat.ofDigitChars 10 (Nat.toDigits 10 k) 0 = k :=
    Nat.ofDigitChars_toDigits (by decide) (by decide)
  rw [← hread m, hdigits, hread n]

theorem colon_notMem_digits (n : Nat) : ':' ∉ (toString n).toList := by
  intro hmem
  rw [Nat.toString_eq_repr, Nat.repr_eq_ofList_toDigits, String.toList_ofList] at hmem
  exact absurd (Nat.isDigit_of_mem_toDigits (by decide) (by decide) hmem) (by decide)

/-- The text of an endpoint tells its host and its port. -/
theorem displayChars_inj {e f : Endpoint} (hchars : e.displayChars = f.displayChars) : e = f := by
  obtain ⟨hhost, hport⟩ := append_colon_inj (colon_notMem_digits _) (colon_notMem_digits _) hchars
  have hosts : e.host.toList = f.host.toList := by
    -- a host in brackets has a colon, and one without has none
    split at hhost
    · split at hhost
      · exact List.append_cancel_right (List.cons.inj hhost).2
      · next hcolon hnone =>
        refine absurd ?_ hnone
        rw [← hhost]
        exact List.mem_cons_of_mem _ (List.mem_append_left _ hcolon)
    · split at hhost
      · next hnone hcolon =>
        refine absurd ?_ hnone
        rw [hhost]
        exact List.mem_cons_of_mem _ (List.mem_append_left _ hcolon)
      · exact hhost
  have ports : e.port.toNat = f.port.toNat := digits_inj hport
  obtain ⟨host, port⟩ := e
  obtain ⟨host', port'⟩ := f
  obtain rfl : host = host' := String.toList_inj.1 hosts
  obtain rfl : port = port' := UInt16.toNat_inj.1 ports
  rfl

theorem display_inj {e f : Endpoint} (hdisplay : e.display = f.display) : e = f :=
  displayChars_inj (String.ofList_injective hdisplay)

end Endpoint

namespace PeerStore

theorem key_inj {e f : Endpoint} : key e = key f ↔ e = f := by
  refine ⟨fun hkey => Endpoint.display_inj ?_, fun hsame => by rw [hsame]⟩
  exact String.toByteArray_inj.1 (ByteArray.ext (Array.ext' hkey))

theorem any_putEntry (k v : Bytes) (entries : List (Bytes × Bytes)) (other : Bytes) :
    (putEntry k v entries).any (·.1 == other) = (k == other || entries.any (·.1 == other)) := by
  induction entries with
  | nil => simp [putEntry]
  | cons entry rest ih =>
      rw [putEntry]
      split
      · next hsame =>
        rw [List.any_cons, List.any_cons, hsame]
        simp
      · split
        · rw [List.any_cons]
        · rw [List.any_cons, List.any_cons, ih, Bool.or_left_comm]

/-- A store that was told of an endpoint knows it and what it knew before. -/
theorem contains_add (store : PeerStore) (e : Endpoint) (now : Int64) (other : Endpoint) :
    (store.add e now).contains other = (e == other || store.contains other) := by
  rw [contains, add, put, any_putEntry, contains]
  congr 1
  exact Bool.eq_iff_iff.2 (by simp [key_inj])

/-- A store that was told to forget an endpoint knows all but it. -/
theorem contains_remove (store : PeerStore) (e other : Endpoint) :
    (store.remove e).contains other = (e != other && store.contains other) := by
  rw [contains, remove, contains]
  by_cases hsame : e = other
  · subst hsame
    simp
  · have hkeys : key other ≠ key e := fun hkey => hsame (key_inj.1 hkey).symm
    have hkept (entry : Bytes × Bytes) :
        (entry.1 != key e && entry.1 == key other) = (entry.1 == key other) := by
      by_cases hentry : entry.1 = key other
      · simp [hentry, hkeys]
      · simp [hentry]
    simp [List.any_filter, hkept, hsame]

end PeerStore

end Overlay
