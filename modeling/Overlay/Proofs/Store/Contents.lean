import Mathlib.Data.List.Basic
import Mathlib.Data.List.Induction
import Overlay.Proofs.Payload.Formats
import Overlay.Proofs.Pool.Storing
import Overlay.Proofs.Store.Reopening

/-!
# What a store of peers holds

A store keeps its entries in byte order of their keys, one for each key.  Two
endpoints have different keys, so after any changes a store is a set of
endpoints: those that were added and neither removed nor cleared since, each
with the time of the last addition.  Keeping it and opening it again changes
nothing.

A store keeps bytes, so entries may have been put there that are no records.
Reading fails for such an entry, and for no other reason.
-/

namespace Overlay

theorem Bytes.lt_iff (a b : Bytes) : Bytes.lt a b = true ↔ a < b := by
  induction a generalizing b with
  | nil => cases b <;> simp [Bytes.lt]
  | cons x a ih =>
      cases b with
      | nil => simp [Bytes.lt]
      | cons y b => simp [Bytes.lt, ih, List.cons_lt_cons_iff]

/-- How a record stands in a store. -/
def PeerRecord.entry (record : PeerRecord) : Bytes × Bytes :=
  (PeerStore.key record.endpoint, record.encode)

@[simp] theorem PeerRecord.entry_fst (record : PeerRecord) :
    record.entry.1 = PeerStore.key record.endpoint :=
  rfl

theorem PeerRecord.endpoint_eq_of_entry {record : PeerRecord} {e : Endpoint} {value : Bytes}
    (hentry : (PeerStore.key e, value) = record.entry) : record.endpoint = e :=
  PeerStore.key_inj.1 (Prod.mk.inj hentry).1.symm

theorem PeerRecord.entry_inj {record other : PeerRecord} (hfits : PeerRecord.format.Fits record)
    (hentry : record.entry = other.entry) : record = other := by
  obtain ⟨hkey, hvalue⟩ := Prod.mk.inj hentry
  have hendpoint : record.endpoint = other.endpoint := PeerStore.key_inj.1 hkey
  have hother : PeerRecord.format.Fits other := by
    show Endpoint.format.Fits other.endpoint
    rw [← hendpoint]
    exact hfits
  have hread := (PeerRecord.reads_encode hfits).deserialize_eq
  rw [hvalue, (PeerRecord.reads_encode hother).deserialize_eq] at hread
  exact (Except.ok.inj hread).symm

namespace PeerStore

/-! ## Entries in order -/

/-- Keys stand in byte order, and each stands once. -/
def InOrder (entries : List (Bytes × Bytes)) : Prop :=
  (entries.map Prod.fst).Pairwise (· < ·)

theorem inOrder_cons_iff {entry : Bytes × Bytes} {entries : List (Bytes × Bytes)} :
    InOrder (entry :: entries) ↔ (∀ other ∈ entries, entry.1 < other.1) ∧ InOrder entries := by
  unfold InOrder
  rw [List.map_cons, List.pairwise_cons, List.forall_mem_map]

/-- What is put under a key takes the place of what stood there, and nothing else changes. -/
theorem mem_putEntry {k v : Bytes} {entries : List (Bytes × Bytes)} (horder : InOrder entries)
    (entry : Bytes × Bytes) :
    entry ∈ putEntry k v entries ↔ entry = (k, v) ∨ entry ∈ entries ∧ entry.1 ≠ k := by
  induction entries with
  | nil => simp [putEntry]
  | cons first rest ih =>
      obtain ⟨hfirst, hrest⟩ := inOrder_cons_iff.1 horder
      unfold putEntry
      split_ifs with hsame hbefore
      · have hne : ∀ other ∈ rest, other.1 ≠ k := by
          intro other hother heq
          have hlt := hfirst other hother
          rw [heq, hsame] at hlt
          exact List.lt_irrefl _ hlt
        grind
      · have hne : ∀ other ∈ first :: rest, other.1 ≠ k := by
          intro other hother heq
          have hk : k < first.1 := (Bytes.lt_iff k first.1).1 hbefore
          rcases List.mem_cons.1 hother with rfl | hlater
          · rw [heq] at hk
            exact List.lt_irrefl _ hk
          · have hlt := List.lt_trans hk (hfirst other hlater)
            rw [heq] at hlt
            exact List.lt_irrefl _ hlt
        grind
      · rw [List.mem_cons, ih hrest, List.mem_cons]
        grind

theorem inOrder_putEntry (k v : Bytes) {entries : List (Bytes × Bytes)}
    (horder : InOrder entries) : InOrder (putEntry k v entries) := by
  induction entries with
  | nil => exact List.pairwise_singleton _ _
  | cons first rest ih =>
      obtain ⟨hfirst, hrest⟩ := inOrder_cons_iff.1 horder
      unfold putEntry
      split_ifs with hsame hbefore
      · rw [inOrder_cons_iff, hsame]
        exact ⟨hfirst, hrest⟩
      · have hk : k < first.1 := (Bytes.lt_iff k first.1).1 hbefore
        rw [inOrder_cons_iff]
        refine ⟨?_, horder⟩
        intro other hother
        rcases List.mem_cons.1 hother with rfl | hlater
        · exact hk
        · exact List.lt_trans hk (hfirst other hlater)
      · have hk : first.1 < k := by
          rcases Std.lt_trichotomy first.1 k with hlt | heq | hgt
          · exact hlt
          · exact absurd heq.symm hsame
          · exact absurd ((Bytes.lt_iff k first.1).2 hgt) hbefore
        rw [inOrder_cons_iff]
        refine ⟨?_, ih hrest⟩
        intro other hother
        rcases (mem_putEntry hrest other).1 hother with rfl | ⟨hold, -⟩
        · exact hk
        · exact hfirst other hold

/-! ## Reading -/

/-- Reading fails exactly if some entry is not a record. -/
theorem records_eq_error_iff (store : PeerStore) :
    (∃ cause : NetError, store.records = .error cause) ↔
      ∃ entry ∈ store.entries, ∀ record : PeerRecord,
        Payload.deserialize PeerRecord.decode entry.2 ≠ .ok record := by
  unfold records
  induction store.entries with
  | nil => simp [readEntries]
  | cons entry rest ih =>
      unfold readEntries
      rw [List.exists_mem_cons_iff, ← ih]
      cases hread : Payload.deserialize PeerRecord.decode entry.2 with
      | error cause => simp
      | ok record => cases readEntries rest <;> simp [Except.map]

/-- Entries that are records are read as these. -/
theorem exists_readEntries {entries : List (Bytes × Bytes)}
    (hentries : ∀ entry ∈ entries, ∃ record : PeerRecord,
      PeerRecord.format.Fits record ∧ entry = record.entry) :
    ∃ records : List PeerRecord,
      readEntries entries = .ok records ∧ records.map PeerRecord.entry = entries := by
  induction entries with
  | nil => exact ⟨[], rfl, rfl⟩
  | cons entry rest ih =>
      obtain ⟨record, hfits, rfl⟩ := hentries entry List.mem_cons_self
      obtain ⟨records, hread, hrecords⟩ := ih fun other hother =>
        hentries other (List.mem_cons_of_mem _ hother)
      have hfirst : Payload.deserialize PeerRecord.decode record.entry.2 = .ok record :=
        (PeerRecord.reads_encode hfits).deserialize_eq
      refine ⟨record :: records, ?_, by rw [List.map_cons, hrecords]⟩
      unfold readEntries
      rw [hfirst, hread]
      rfl

/-! ## Changes -/

/-- What is done to a store. -/
inductive Change
  /-- A peer is recorded as seen at a time. -/
  | add (e : Endpoint) (now : Int64)
  | remove (e : Endpoint)
  | clear
  /-- The store is kept at a path among files and opened there again. -/
  | reopen (files : Files) (path : String)

namespace Change

/-- A host has a length that can be written, and a store is opened again where one was opened. -/
def Fits : Change → Prop
  | add e _ => Endpoint.format.Fits e
  | remove _ => True
  | clear => True
  | reopen opened path => ∃ (files : Files) (store : PeerStore),
      files.openStore path = .ok (store, opened)

/-- The changes after which what was last said of an endpoint no longer stands. -/
def Concerns (e : Endpoint) : Change → Prop
  | add other _ => other = e
  | remove other => other = e
  | clear => True
  | reopen _ _ => False

theorem not_concerns_iff {change : Change} {e : Endpoint} : ¬ change.Concerns e ↔
    (¬ ∃ now, change = .add e now) ∧ change ≠ .remove e ∧ change ≠ .clear := by
  cases change <;> simp [Concerns]

end Change

/-- A store after a change. -/
def after (store : PeerStore) : Change → PeerStore
  | .add e now => store.add e now
  | .remove e => (store.take e).2
  | .clear => {}
  | .reopen files path =>
      match (files.keepStore path store).openStore path with
      | .ok (reopened, _) => reopened
      | .error _ => {}

/-- A new store after some changes. -/
def ofChanges (changes : List Change) : PeerStore :=
  changes.foldl after {}

/-- At some point one thing was done, and nothing but another kind of thing was done since. -/
def Since (first since : Change → Prop) (changes : List Change) : Prop :=
  ∃ (before : List Change) (change : Change) (later : List Change),
    changes = before ++ change :: later ∧ first change ∧ ∀ other ∈ later, since other

/-- An endpoint was added, and neither removed nor cleared since. -/
def Held (changes : List Change) (e : Endpoint) : Prop :=
  Since (fun change => ∃ now, change = .add e now)
    (fun change => change ≠ .remove e ∧ change ≠ .clear) changes

/-- A record is what was said last of its endpoint. -/
def LastSaid (changes : List Change) (record : PeerRecord) : Prop :=
  Since (· = .add record.endpoint record.lastSeen) (¬ ·.Concerns record.endpoint) changes

theorem not_since_nil (first since : Change → Prop) : ¬ Since first since [] := by
  rintro ⟨before, change, later, hnil, -, -⟩
  simp at hnil

theorem since_concat_iff {first since : Change → Prop} {changes : List Change} {change : Change} :
    Since first since (changes ++ [change]) ↔
      first change ∨ Since first since changes ∧ since change := by
  constructor
  · rintro ⟨before, start, later, hchanges, hfirst, hlater⟩
    rcases List.eq_nil_or_concat later with rfl | ⟨earlier, last, rfl⟩
    · obtain ⟨-, hsame⟩ := List.append_inj' hchanges rfl
      cases hsame
      exact Or.inl hfirst
    · rw [List.concat_eq_append, ← List.cons_append, ← List.append_assoc] at hchanges
      obtain ⟨rfl, hsame⟩ := List.append_inj' hchanges rfl
      cases hsame
      refine Or.inr ⟨⟨before, start, earlier, rfl, hfirst, ?_⟩, hlater change (by simp)⟩
      intro other hother
      exact hlater other (by simp [hother])
  · rintro (hfirst | ⟨⟨before, start, later, rfl, hfirst, hlater⟩, hsince⟩)
    · exact ⟨changes, change, [], rfl, hfirst, by simp⟩
    · refine ⟨before, start, later ++ [change], by simp, hfirst, ?_⟩
      intro other hother
      rcases List.mem_append.1 hother with hold | hnew
      · exact hlater other hold
      · rw [List.mem_singleton.1 hnew]
        exact hsince

theorem held_concat_iff {changes : List Change} {change : Change} {e : Endpoint} :
    Held (changes ++ [change]) e ↔
      (∃ now, change = .add e now) ∨ Held changes e ∧ change ≠ .remove e ∧ change ≠ .clear :=
  since_concat_iff

theorem lastSaid_concat_iff {changes : List Change} {change : Change} {record : PeerRecord} :
    LastSaid (changes ++ [change]) record ↔ change = .add record.endpoint record.lastSeen ∨
      LastSaid changes record ∧ ¬ change.Concerns record.endpoint :=
  since_concat_iff

/-- An endpoint is held if something was said of it last. -/
theorem held_iff (changes : List Change) (e : Endpoint) :
    Held changes e ↔ ∃ now : Int64, LastSaid changes ⟨e, now⟩ := by
  induction changes using List.reverseRecOn with
  | nil => simp [Held, LastSaid, not_since_nil]
  | append_singleton changes change ih =>
      simp only [held_concat_iff, lastSaid_concat_iff, ih, Change.not_concerns_iff, exists_or,
        exists_and_right]
      by_cases hadd : ∃ now, change = .add e now
      · simp only [hadd, true_or]
      · simp only [hadd, false_or, not_false_eq_true, true_and]

/-- The entries of a store are those of certain records, in order. -/
structure Keeps (store : PeerStore) (IsKept : PeerRecord → Prop) : Prop where
  inOrder : InOrder store.entries
  mem_iff : ∀ entry : Bytes × Bytes,
    entry ∈ store.entries ↔ ∃ record : PeerRecord, IsKept record ∧ entry = record.entry

section Keeps

variable {store : PeerStore} {IsKept : PeerRecord → Prop}

/-- What a change leaves in a store: what it says, and what it does not concern. -/
theorem Keeps.after (hkeeps : store.Keeps IsKept) {change : Change} (hfits : change.Fits) :
    (store.after change).Keeps fun record => change = .add record.endpoint record.lastSeen ∨
      IsKept record ∧ ¬ change.Concerns record.endpoint := by
  cases change with
  | add e now =>
      constructor
      · exact inOrder_putEntry _ _ hkeeps.inOrder
      · intro entry
        show entry ∈ putEntry (key e) _ store.entries ↔ _
        rw [mem_putEntry hkeeps.inOrder, hkeeps.mem_iff]
        constructor
        · rintro (rfl | ⟨⟨record, hrecord, rfl⟩, hne⟩)
          · exact ⟨⟨e, now⟩, Or.inl rfl, rfl⟩
          · refine ⟨record, Or.inr ⟨hrecord, ?_⟩, rfl⟩
            intro hconcerns
            rw [show e = record.endpoint from hconcerns, PeerRecord.entry_fst] at hne
            contradiction
        · rintro ⟨record, hadd | ⟨hrecord, hne⟩, rfl⟩
          · cases hadd
            exact Or.inl rfl
          · refine Or.inr ⟨⟨record, hrecord, rfl⟩, ?_⟩
            rw [PeerRecord.entry_fst, ne_eq, key_inj]
            intro heq
            exact hne heq.symm
  | remove e =>
      constructor
      · exact List.Pairwise.sublist (List.filter_sublist.map _) hkeeps.inOrder
      · intro entry
        show entry ∈ store.entries.filter _ ↔ _
        rw [List.mem_filter, hkeeps.mem_iff]
        constructor
        · rintro ⟨⟨record, hrecord, rfl⟩, hne⟩
          refine ⟨record, Or.inr ⟨hrecord, ?_⟩, rfl⟩
          rintro rfl
          simp [PeerRecord.entry] at hne
        · rintro ⟨record, hadd | ⟨hrecord, hne⟩, rfl⟩
          · cases hadd
          · refine ⟨⟨record, hrecord, rfl⟩, ?_⟩
            simp only [PeerRecord.entry, bne_iff_ne, ne_eq, key_inj]
            intro heq
            exact hne heq.symm
  | clear =>
      constructor
      · exact List.Pairwise.nil
      · intro entry
        simp [PeerStore.after, Change.Concerns]
  | reopen opened path =>
      obtain ⟨files, old, hopen⟩ := hfits
      have hsame : store.after (.reopen opened path) = store := by
        simp only [PeerStore.after, Files.openStore_keepStore hopen]
      rw [hsame]
      simpa [Change.Concerns] using hkeeps

/-- A store of records that can be written is read as these, in byte order of their keys. -/
theorem Keeps.exists_records (hkeeps : store.Keeps IsKept)
    (hfits : ∀ record, IsKept record → PeerRecord.format.Fits record) :
    ∃ records : List PeerRecord, store.records = .ok records ∧
      records.map PeerRecord.entry = store.entries ∧ ∀ record, record ∈ records ↔ IsKept record := by
  have hentries : ∀ entry ∈ store.entries, ∃ record : PeerRecord,
      PeerRecord.format.Fits record ∧ entry = record.entry := by
    intro entry hentry
    obtain ⟨record, hrecord, rfl⟩ := (hkeeps.mem_iff entry).1 hentry
    exact ⟨record, hfits record hrecord, rfl⟩
  obtain ⟨records, hread, hrecords⟩ := exists_readEntries hentries
  refine ⟨records, hread, hrecords, ?_⟩
  intro record
  constructor
  · intro hmem
    have hentry : record.entry ∈ store.entries := by
      rw [← hrecords]
      exact List.mem_map_of_mem hmem
    obtain ⟨kept, hkept, hsame⟩ := (hkeeps.mem_iff _).1 hentry
    rw [← PeerRecord.entry_inj (hfits kept hkept) hsame.symm]
    exact hkept
  · intro hkept
    have hentry := (hkeeps.mem_iff _).2 ⟨record, hkept, rfl⟩
    rw [← hrecords] at hentry
    obtain ⟨other, hother, hsame⟩ := List.mem_map.1 hentry
    rw [PeerRecord.entry_inj (hfits record hkept) hsame.symm]
    exact hother

theorem Keeps.contains_iff (hkeeps : store.Keeps IsKept) (e : Endpoint) :
    store.contains e = true ↔ ∃ now : Int64, IsKept ⟨e, now⟩ := by
  unfold contains
  rw [List.any_eq_true]
  constructor
  · rintro ⟨entry, hentry, hkey⟩
    obtain ⟨⟨endpoint, lastSeen⟩, hrecord, rfl⟩ := (hkeeps.mem_iff entry).1 hentry
    obtain rfl : endpoint = e := key_inj.1 (by simpa [PeerRecord.entry] using hkey)
    exact ⟨lastSeen, hrecord⟩
  · rintro ⟨now, hrecord⟩
    exact ⟨_, (hkeeps.mem_iff _).2 ⟨⟨e, now⟩, hrecord, rfl⟩, by simp [PeerRecord.entry]⟩

end Keeps

theorem ofChanges_concat (changes : List Change) (change : Change) :
    ofChanges (changes ++ [change]) = (ofChanges changes).after change := by
  simp [ofChanges]

/-- After any changes a store keeps what was said last of each endpoint. -/
theorem keeps_ofChanges {changes : List Change} (hfits : ∀ change ∈ changes, change.Fits) :
    (ofChanges changes).Keeps (LastSaid changes) := by
  induction changes using List.reverseRecOn with
  | nil =>
      constructor
      · exact List.Pairwise.nil
      · intro entry
        simp [ofChanges, LastSaid, not_since_nil]
  | append_singleton changes change ih =>
      have hbefore := ih fun other hother => hfits other (List.mem_append_left _ hother)
      have hafter := hbefore.after (hfits change (by simp))
      have hsaid : LastSaid (changes ++ [change]) = fun record =>
          change = .add record.endpoint record.lastSeen ∨
            LastSaid changes record ∧ ¬ change.Concerns record.endpoint :=
        funext fun _ => propext lastSaid_concat_iff
      rw [ofChanges_concat, hsaid]
      exact hafter

theorem LastSaid.fits {changes : List Change} {record : PeerRecord}
    (hsaid : LastSaid changes record) (hfits : ∀ change ∈ changes, change.Fits) :
    PeerRecord.format.Fits record := by
  obtain ⟨before, change, later, rfl, rfl, -⟩ := hsaid
  exact hfits (.add record.endpoint record.lastSeen) (by simp)

/-- A change leaves alone what stands under the key of an endpoint that it does not concern. -/
theorem Keeps.mem_after_iff {store : PeerStore} {IsKept : PeerRecord → Prop}
    (hkeeps : store.Keeps IsKept) {change : Change} (hfits : change.Fits) {e : Endpoint}
    (hconcerns : ¬ change.Concerns e) (value : Bytes) :
    (key e, value) ∈ (store.after change).entries ↔ (key e, value) ∈ store.entries := by
  rw [(hkeeps.after hfits).mem_iff, hkeeps.mem_iff]
  constructor
  · rintro ⟨record, hadd | ⟨hkept, -⟩, hentry⟩
    · have hsame := record.endpoint_eq_of_entry hentry
      rw [hadd, ← hsame] at hconcerns
      exact absurd rfl hconcerns
    · exact ⟨record, hkept, hentry⟩
  · rintro ⟨record, hkept, hentry⟩
    rw [← record.endpoint_eq_of_entry hentry] at hconcerns
    exact ⟨record, Or.inr ⟨hkept, hconcerns⟩, hentry⟩

/-! ## The set of endpoints -/

/-- **A store of peers is a set of endpoints.**  After any changes of a new store, its records are
read; they are what was said last of each endpoint, and their endpoints are those that were added
and neither removed nor cleared since, each once and in byte order of their texts.  There are as
many entries, and taking an endpoint out finds it exactly if it is one of them.  A change leaves
alone what the store holds of an endpoint that it does not concern.  And a store that holds
anything at all is read unless some entry of it is not a record. -/
theorem contents_of_changes {changes : List Change} (hfits : ∀ change ∈ changes, change.Fits) :
    (∃ records : List PeerRecord, (ofChanges changes).records = .ok records ∧
      (∀ record, record ∈ records ↔ LastSaid changes record) ∧
      (ofChanges changes).endpoints = .ok (records.map (·.endpoint)) ∧
      (∀ e, e ∈ records.map (·.endpoint) ↔ Held changes e) ∧
      (records.map fun record => Bytes.ofText record.endpoint.display).Pairwise (· < ·) ∧
      (ofChanges changes).entries.length = records.length) ∧
    (∀ e, ((ofChanges changes).take e).1 = true ↔ Held changes e) ∧
    (∀ change : Change, change.Fits → ∀ e, ¬ change.Concerns e → ∀ value : Bytes,
      (key e, value) ∈ ((ofChanges changes).after change).entries ↔
        (key e, value) ∈ (ofChanges changes).entries) ∧
    ∀ store : PeerStore, (∃ cause : NetError, store.records = .error cause) ↔
      ∃ entry ∈ store.entries, ∀ record : PeerRecord,
        Payload.deserialize PeerRecord.decode entry.2 ≠ .ok record := by
  have hkeeps := keeps_ofChanges hfits
  obtain ⟨records, hread, hrecords, hmem⟩ := hkeeps.exists_records fun _ hsaid => hsaid.fits hfits
  have hkeys : (ofChanges changes).entries.map Prod.fst =
      records.map fun record => Bytes.ofText record.endpoint.display := by
    rw [← hrecords, List.map_map]
    rfl
  refine ⟨⟨records, hread, hmem, ?_, ?_, ?_, ?_⟩, ?_, ?_, records_eq_error_iff⟩
  · unfold endpoints
    rw [hread]
    rfl
  · intro e
    rw [held_iff, List.mem_map]
    constructor
    · rintro ⟨record, hrecord, rfl⟩
      exact ⟨record.lastSeen, (hmem record).1 hrecord⟩
    · rintro ⟨now, hsaid⟩
      exact ⟨⟨e, now⟩, (hmem _).2 hsaid, rfl⟩
  · rw [← hkeys]
    exact hkeeps.inOrder
  · rw [← hrecords, List.length_map]
  · intro e
    rw [held_iff]
    exact hkeeps.contains_iff e
  · intro change hchange e hconcerns value
    exact hkeeps.mem_after_iff hchange hconcerns value

/-- The store of peers at `p` in the working directory, and nothing else. -/
def keptFiles : Files where
  entries := [(["p"], .store {})]

theorem openStore_kept : keptFiles.openStore "p" = .ok ({}, keptFiles) := by
  -- the texts are split by a recursion that does not reduce, so it is unfolded letter by letter
  have hsplit : "p".splitOn "/" = ["p"] := by
    unfold String.splitOn
    rw [if_neg (by decide)]
    unfold String.splitOnAux
    rw [if_neg (by decide), if_neg (by decide)]
    unfold String.splitOnAux
    rw [if_pos (by decide)]
    rfl
  have hrelative : "p".startsWith "/" = false := by decide +kernel
  have hend : "p".endsWith "/" = false := by decide +kernel
  unfold Files.openStore Files.find Files.locate Path.names
  rw [if_neg (by decide), hsplit, hrelative, hend]
  rfl

/-- Two endpoints that look alike are added, the store is opened again among files where it was
kept, and one of the two is removed. -/
def lookalikes : List Change :=
  [.add ⟨"::1", 7⟩ 5, .add ⟨"[::1]", 7⟩ 6, .reopen keptFiles "p", .remove ⟨"::1", 7⟩]

/-- The endpoint that looks like the removed one is still there, and the removed one is not. -/
theorem contents_of_changes_lookalikes :
    (∀ change ∈ lookalikes, change.Fits) ∧
      ((ofChanges lookalikes).take ⟨"[::1]", 7⟩).1 = true ∧
      ((ofChanges lookalikes).take ⟨"::1", 7⟩).1 = false := by
  have hfits : ∀ change ∈ lookalikes, change.Fits := by
    intro change hchange
    simp only [lookalikes, List.mem_cons, List.not_mem_nil, or_false] at hchange
    rcases hchange with rfl | rfl | rfl | rfl
    · show (Bytes.ofText "::1").length < Bytes.span 8
      decide
    · show (Bytes.ofText "[::1]").length < Bytes.span 8
      decide
    · exact ⟨_, _, openStore_kept⟩
    · trivial
  obtain ⟨-, htake, -⟩ := contents_of_changes hfits
  refine ⟨hfits, (htake _).2 ?_, ?_⟩
  · refine ⟨[.add ⟨"::1", 7⟩ 5], .add ⟨"[::1]", 7⟩ 6, _, rfl, ⟨6, rfl⟩, ?_⟩
    simp
  · rw [← Bool.not_eq_true, htake, held_iff]
    rintro ⟨now, hsaid⟩
    have hlast : LastSaid ([.add ⟨"::1", 7⟩ 5, .add ⟨"[::1]", 7⟩ 6, .reopen keptFiles "p"] ++
        [.remove ⟨"::1", 7⟩]) ⟨⟨"::1", 7⟩, now⟩ := hsaid
    rcases lastSaid_concat_iff.1 hlast with hadd | ⟨-, hconcerns⟩
    · cases hadd
    · exact hconcerns rfl

end PeerStore

end Overlay
