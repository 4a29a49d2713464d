import Overlay.Pool.Members
import Overlay.Proofs.Peer.Sections

/-!
# Admission to a pool

What becomes of a link that is offered to a pool depends on the member with its
key, or else on the member at its endpoint.  Which lines are open at the near
end changes only where one is opened or closed.
-/

namespace Overlay

namespace Net

theorem nearOpen_close (net : Net) (n m : Nat) :
    ((net.close n).line m).nearOpen = ((net.line m).nearOpen && m != n) := by
  rw [close, change, line, line, List.getElem?_modify]
  by_cases hsame : n = m
  · subst hsame
    cases net.lines[n]? <;> simp
  · have hother : (m != n) = true := by simpa using Ne.symm hsame
    simp [hsame, hother]

@[simp] theorem newLine_fst (net : Net) : net.newLine.1 = net.lines.length :=
  rfl

theorem nearOpen_newLine (net : Net) (n : Nat) :
    (net.newLine.2.line n).nearOpen = ((net.line n).nearOpen || n == net.lines.length) := by
  rw [newLine, line, line, List.getElem?_append]
  rcases Nat.lt_trichotomy n net.lines.length with hlt | heq | hgt
  · simp [hlt, Nat.ne_of_lt hlt]
  · simp [heq]
  · have hnew : ([({} : Line)])[n - net.lines.length]? = none :=
      List.getElem?_eq_none (by rw [List.length_singleton]; omega)
    simp [Nat.not_lt.2 (Nat.le_of_lt hgt), hnew, Nat.ne_of_gt hgt]

/-- A change of what a line holds leaves its near end as it is. -/
theorem nearOpen_change (net : Net) {n : Nat} {new : Line}
    (hopen : new.nearOpen = (net.line n).nearOpen) (m : Nat) :
    ((net.change n fun _ => new).line m).nearOpen = (net.line m).nearOpen := by
  rw [change, line, line, List.getElem?_modify]
  by_cases hsame : n = m
  · subst hsame
    cases hline : net.lines[n]? with
    | none => simp
    | some old => simpa [line, hline] using hopen
  · simp [hsame]

theorem length_close (net : Net) (n : Nat) : (net.close n).lines.length = net.lines.length := by
  simp [close, change]

theorem length_newLine (net : Net) : net.newLine.2.lines.length = net.lines.length + 1 := by
  simp [newLine]

end Net

namespace World

variable {world : World} {link : Link}

/-- A link to a node that is not known is taken in. -/
theorem addPeer_added (hself : link.identity.publicKey ≠ world.pool.localKey)
    (hkey : world.pool.withKey? link.identity.publicKey = none)
    (hendpoint : world.pool.atEndpoint? link.endpoint = none) :
    world.addPeer link = (.ok (.added world.pool.nextId),
      { world with pool := world.pool.enroll link world.net.clock }) := by
  simp [addPeer, hself, hkey, hendpoint]

/-- A link to a member that waits for one resumes that member. -/
theorem addPeer_resumed (hself : link.identity.publicKey ≠ world.pool.localKey) {peer adopted : Peer}
    (hkey : world.pool.withKey? link.identity.publicKey = some peer)
    (hadopt : peer.adopt link.line = some adopted) :
    world.addPeer link = (.ok (.resumed peer.id),
      world.withPool (·.change peer.id fun _ => adopted)) := by
  simp [addPeer, hself, hkey, hadopt]

/-- Any other link to a member is closed. -/
theorem addPeer_refused (hself : link.identity.publicKey ≠ world.pool.localKey) {peer : Peer}
    (hkey : world.pool.withKey? link.identity.publicKey = some peer)
    (hadopt : peer.adopt link.line = none) :
    world.addPeer link = (.ok (.alreadyConnected peer.id), world.withNet (·.close link.line)) := by
  simp [addPeer, hself, hkey, hadopt, refuse]

/-- A link lets a node join, resumes a member that waits for one, or is closed. -/
theorem addPeer_cases (world : World) (link : Link) :
    (link.identity.publicKey ≠ world.pool.localKey ∧
      world.pool.withKey? link.identity.publicKey = none ∧
      world.pool.atEndpoint? link.endpoint = none ∧
      world.addPeer link = (.ok (.added world.pool.nextId),
        { world with pool := world.pool.enroll link world.net.clock })) ∨
    (link.identity.publicKey ≠ world.pool.localKey ∧
      ∃ peer adopted, world.pool.withKey? link.identity.publicKey = some peer ∧
        peer.adopt link.line = some adopted ∧
        world.addPeer link = (.ok (.resumed peer.id),
          world.withPool (·.change peer.id fun _ => adopted))) ∨
    ((world.addPeer link).2 = world.withNet (·.close link.line) ∧
      ∀ id, (world.addPeer link).1 ≠ .ok (.added id) ∧
        (world.addPeer link).1 ≠ .ok (.resumed id)) := by
  by_cases hself : link.identity.publicKey = world.pool.localKey
  · refine Or.inr (Or.inr ?_)
    simp [addPeer, hself]
  · cases hkey : world.pool.withKey? link.identity.publicKey with
    | some peer =>
        cases hadopt : peer.adopt link.line with
        | some adopted =>
            exact Or.inr (Or.inl ⟨hself, peer, adopted, rfl, hadopt,
              addPeer_resumed hself hkey hadopt⟩)
        | none =>
            refine Or.inr (Or.inr ?_)
            rw [addPeer_refused hself hkey hadopt]
            exact ⟨rfl, fun id => ⟨nofun, nofun⟩⟩
    | none =>
        cases hendpoint : world.pool.atEndpoint? link.endpoint with
        | none => exact Or.inl ⟨hself, rfl, rfl, addPeer_added hself hkey hendpoint⟩
        | some peer =>
            refine Or.inr (Or.inr ?_)
            simp [addPeer, hself, hkey, hendpoint, refuse]

end World

end Overlay
