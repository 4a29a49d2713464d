import Overlay.Proofs.Pool.Membership

/-!
# Dials whose ends are laid down

How a dial ends is up to the network.  Here it is laid down beforehand, by the
endpoint and by what was dialed before it, and nobody else changes the pool
while a dial lasts.  A call that dials then has one course, which the modules
that build on this one describe.

Lists of endpoints and of links are read from the front, and what has been
there before does not count again.
-/

namespace Overlay

/-! ## What is new in a list -/

/-- The items of a list whose keys are not known yet, the first of each key. -/
def fresh {α κ : Type} [DecidableEq κ] (key : α → κ) (known : List κ) (items : List α) : List α :=
  (items.filter (key · ∉ known)).eraseDupsBy fun later first => key later == key first

section Fresh

variable {α κ : Type} [DecidableEq κ] {key : α → κ} {known : List κ} {item : α} {items : List α}

@[simp] theorem fresh_nil (key : α → κ) (known : List κ) : fresh key known [] = [] := by
  simp [fresh, List.eraseDupsBy, List.eraseDupsBy.loop]

theorem fresh_cons_of_mem (hknown : key item ∈ known) :
    fresh key known (item :: items) = fresh key known items := by
  simp [fresh, hknown]

theorem fresh_cons_of_notMem (hnew : key item ∉ known) :
    fresh key known (item :: items) = item :: fresh key (known ++ [key item]) items := by
  unfold fresh
  rw [List.filter_cons_of_pos (by simpa using hnew), List.eraseDupsBy_cons, List.filter_filter]
  congr 2
  apply List.filter_congr
  intro other _
  simp [and_comm]

theorem notMem_of_mem_fresh (hitem : item ∈ fresh key known items) : key item ∉ known := by
  induction items generalizing known with
  | nil => simp at hitem
  | cons first rest ih =>
      by_cases hknown : key first ∈ known
      · rw [fresh_cons_of_mem hknown] at hitem
        exact ih hitem
      · rw [fresh_cons_of_notMem hknown, List.mem_cons] at hitem
        rcases hitem with rfl | hlater
        · exact hknown
        · exact fun hmem => ih hlater (List.mem_append_left _ hmem)

theorem nodup_fresh (key : α → κ) (known : List κ) (items : List α) :
    ((fresh key known items).map key).Nodup := by
  induction items generalizing known with
  | nil => simp
  | cons item rest ih =>
      by_cases hknown : key item ∈ known
      · rw [fresh_cons_of_mem hknown]
        exact ih known
      · rw [fresh_cons_of_notMem hknown, List.map_cons, List.nodup_cons]
        refine ⟨?_, ih _⟩
        intro hagain
        obtain ⟨later, hlater, hsame⟩ := List.mem_map.1 hagain
        exact notMem_of_mem_fresh hlater (by simp [hsame])

end Fresh

/-! ## How dials end -/

/-- How every dial ends, by what was dialed before it. -/
abbrev Outcomes := List Endpoint → Endpoint → Except NetError Link

/-- Whoever answers is reached where was dialed. -/
def Outcomes.Straight (outcomes : Outcomes) : Prop :=
  ∀ history e link, outcomes history e = .ok link → link.endpoint = e

/-- A dial that ends as is laid down, and leaves behind that it took place. -/
def Outcomes.dial (outcomes : Outcomes) : Dial :=
  fun e world => (outcomes world.net.dialed e,
    world.withNet fun net => { net with dialed := net.dialed ++ [e] })

/-- A node dials as is laid down: its dials end so, are taken down in order, and leave the pool
alone. -/
structure Dial.Follows (dial : Dial) (outcomes : Outcomes) : Prop where
  result : ∀ e world, (dial e world).1 = outcomes world.net.dialed e
  dialed : ∀ e world, (dial e world).2.net.dialed = world.net.dialed ++ [e]
  pool : ∀ e world, (dial e world).2.pool = world.pool

theorem Outcomes.follows_dial (outcomes : Outcomes) : outcomes.dial.Follows outcomes where
  result _ _ := rfl
  dialed _ _ := rfl
  pool _ _ := rfl

namespace World

variable {world : World} {dial : Dial} {outcomes : Outcomes} {e : Endpoint} {link : Link}

/-- To offer a link to a pool dials nobody. -/
@[simp] theorem dialed_addPeer (world : World) (link : Link) :
    (world.addPeer link).2.net.dialed = world.net.dialed := by
  rcases world.addPeer_cases link with ⟨-, -, -, hadded⟩ | ⟨-, peer, adopted, -, -, hresumed⟩ |
    ⟨hclosed, -⟩
  · rw [hadded]
  · rw [hresumed]
    rfl
  · rw [hclosed]
    rfl

/-- The own key is refused, whoever is a member. -/
theorem addPeer_own (hown : link.identity.publicKey = world.pool.localKey) :
    world.addPeer link = (.error (.handshake .addingSelf), world.withNet (·.close link.line)) := by
  simp [addPeer, hown]

/-- An endpoint that is no member's is dialed once, and the link that comes of it is offered to the
pool as it was before. -/
theorem exists_connect (hdial : dial.Follows outcomes) (hnew : world.pool.atEndpoint? e = none) :
    ∃ met : World, met.pool = world.pool ∧ met.net.dialed = world.net.dialed ++ [e] ∧
      (∀ cause, outcomes world.net.dialed e = .error cause →
        world.connect dial e = (.error cause, met)) ∧
      ∀ link, outcomes world.net.dialed e = .ok link →
        world.connect dial e = met.addPeer link := by
  refine ⟨(dial e world).2, hdial.pool e world, hdial.dialed e world, ?_⟩
  rw [connect, hnew, ← hdial.result e world]
  rcases dial e world with ⟨result, met⟩
  constructor
  · rintro cause rfl
    rfl
  · rintro link rfl
    rfl

end World

end Overlay
