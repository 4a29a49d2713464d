import Mathlib.Tactic.SplitIfs
import Overlay.Files

/-!
# Stores among files

A store that is kept at a path where one was opened is what is opened there
again.  The change of what stands at a place closes no way through the tree,
since one can walk through a store.
-/

namespace Overlay.Files

theorem lookup_set (files : Files) (place other : List String) (entry : FileEntry) :
    (files.set place entry).entries.lookup other =
      if other = place then some entry else files.entries.lookup other := by
  have hfilter (entries : List (List String × FileEntry)) (hne : other ≠ place) :
      (entries.filter (·.1 ≠ place)).lookup other = entries.lookup other := by
    induction entries with
    | nil => rfl
    | cons first rest ih =>
        obtain ⟨standing, standingEntry⟩ := first
        by_cases hplace : standing = place
        · have hother : (other == standing) = false := by simp [hplace, hne]
          simp only [hplace, ne_eq, not_true_eq_false, decide_false, Bool.false_eq_true,
            not_false_eq_true, List.filter_cons_of_neg, ih]
          rw [List.lookup_cons, ← hplace, hother]
        · rw [List.filter_cons_of_pos (by simpa using hplace), List.lookup_cons,
            List.lookup_cons, ih]
  unfold set
  rw [List.lookup_cons]
  by_cases hne : other = place
  · simp [hne]
  · simp only [beq_eq_false_iff_ne.2 hne, if_neg hne, hfilter files.entries hne]

/-- What stands at a place once something was put at one. -/
theorem entry?_set (files : Files) (place other : List String) (entry : FileEntry) :
    Files.entry? (files.set place entry) other =
      if other = place then some entry else files.entry? other := by
  have hworking : (files.set place entry).workingDirectory = files.workingDirectory := rfl
  unfold entry?
  rw [lookup_set, hworking]
  split_ifs <;> rfl

/-- What stands at a place can be walked through. -/
def IsOpen (files : Files) (place : List String) : Prop :=
  ∃ entry, files.entry? place = some entry ∧ ∀ content, entry ≠ .file content

/-- From a place that can be walked through, the way goes on. -/
theorem IsOpen.walk_eq {files : Files} {place : List String} (hopen : files.IsOpen place)
    (name : String) (rest : List String) :
    files.walk place (name :: rest) =
      if name = "." then files.walk place rest
      else if name = ".." then files.walk place.dropLast rest
      else files.walk (place ++ [name]) rest := by
  obtain ⟨entry, hentry, hfile⟩ := hopen
  rw [walk, hentry]
  cases entry with
  | file content => exact absurd rfl (hfile content)
  | directory => rfl
  | store old => rfl

theorem isOpen_of_walk {files : Files} {place target : List String} {name : String}
    {rest : List String} (hwalk : files.walk place (name :: rest) = .ok target) :
    files.IsOpen place := by
  unfold walk at hwalk
  cases hentry : files.entry? place with
  | none => simp [hentry] at hwalk
  | some entry =>
      refine ⟨entry, hentry, ?_⟩
      rintro content rfl
      simp [hentry] at hwalk

theorem IsOpen.set_store {files : Files} {place : List String} (hopen : files.IsOpen place)
    (other : List String) (store : PeerStore) :
    (files.set other (.store store)).IsOpen place := by
  obtain ⟨entry, hentry, hfile⟩ := hopen
  unfold IsOpen
  rw [entry?_set]
  by_cases hplace : place = other
  · exact ⟨.store store, if_pos hplace, nofun⟩
  · exact ⟨entry, by rw [if_neg hplace, hentry], hfile⟩

/-- A way through the tree stays open when a store is put somewhere. -/
theorem walk_set_store (files : Files) (place : List String) (store : PeerStore)
    {names start target : List String} (hwalk : files.walk start names = .ok target) :
    (files.set place (.store store)).walk start names = .ok target := by
  induction names generalizing start with
  | nil => exact hwalk
  | cons name rest ih =>
      have hopen := isOpen_of_walk hwalk
      rw [hopen.walk_eq] at hwalk
      rw [(hopen.set_store place store).walk_eq]
      split_ifs at hwalk ⊢ <;> exact ih hwalk

theorem locate_set_store (files : Files) (place : List String) (store : PeerStore) {path : String}
    {target : List String} (hlocate : files.locate path = .ok target) :
    (files.set place (.store store)).locate path = .ok target := by
  have hworking : (files.set place (.store store)).workingDirectory = files.workingDirectory := rfl
  unfold locate at hlocate ⊢
  rw [hworking]
  split_ifs at hlocate ⊢ <;> exact files.walk_set_store place store hlocate

/-- Where a store was opened there is a place for one. -/
theorem exists_locate_of_openStore {files opened : Files} {path : String} {store : PeerStore}
    (hopen : files.openStore path = .ok (store, opened)) :
    ∃ place : List String, opened.locate path = .ok place := by
  unfold openStore at hopen
  split at hopen
  · next old hfind =>
      cases hopen
      unfold find at hfind
      cases hlocate : files.locate path with
      | error fault => simp [hlocate] at hfind
      | ok place => exact ⟨place, rfl⟩
  · cases hopen
  · split at hopen
    · cases hopen
    · next made hmade =>
        cases hlocate : made.locate path with
        | error fault => simp [hlocate] at hopen
        | ok place =>
            simp only [hlocate, Except.ok.injEq, Prod.mk.injEq] at hopen
            obtain ⟨-, rfl⟩ := hopen
            exact ⟨place, made.locate_set_store place {} hlocate⟩

/-- A store that is kept where one was opened is what is opened there again. -/
theorem openStore_keepStore {files opened : Files} {path : String} {store : PeerStore}
    (hopen : files.openStore path = .ok (store, opened)) (kept : PeerStore) :
    (opened.keepStore path kept).openStore path = .ok (kept, opened.keepStore path kept) := by
  obtain ⟨place, hplace⟩ := exists_locate_of_openStore hopen
  have hfind : (opened.set place (.store kept)).find path = .ok (.store kept) := by
    unfold find
    rw [opened.locate_set_store place kept hplace]
    simp [entry?_set]
  unfold keepStore
  rw [hplace]
  unfold openStore
  simp only [hfind]

end Overlay.Files
