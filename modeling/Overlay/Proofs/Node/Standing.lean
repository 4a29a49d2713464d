import Overlay.Proofs.Node.Encounter

/-!
# How nodes stand in an encounter

What matters of an encounter is how far each connection has come, what became
of it at each node, which connection each node is linked by, and which ends are
closed.  `Sketch` is that much of it, and `Rules` are what holds of it at every
point.  The rule that carries the others is `taken`: a node that took a
connection is linked by it, or the other node refused that connection.
-/

namespace Overlay

inductive Fate
  | pending
  | failed
  | added
  | resumed
  | refused
  deriving DecidableEq

/-- What an answer of a pool, or the failure to come to one, makes of a connection. -/
def Fate.ofResult : Except NetError Admission → Fate
  | .error _ => .failed
  | .ok (.added _) => .added
  | .ok (.resumed _) => .resumed
  | .ok (.alreadyConnected _) => .refused

def Connection.fate (connection : Connection) (side : Side) : Fate :=
  match connection.outcome side with
  | none => .pending
  | some result => .ofResult result

inductive Standing
  -- it has no peer
  | alone
  -- its peer has a session on a connection
  | linked (dialer : Side)
  -- its peer has lost its session
  | waiting
  deriving DecidableEq

/-- What matters of an encounter. -/
@[ext] structure Sketch where
  passage : Side → Passage
  /-- What became of a connection at a node. -/
  fate : Side → Side → Fate
  standing : Side → Standing
  /-- Whether a node has closed its end of a connection. -/
  shut : Side → Side → Bool

namespace Sketch

variable {sketch : Sketch} {side dialer : Side}

/-- A node took a connection for its peer. -/
def Took (sketch : Sketch) (side dialer : Side) : Prop :=
  sketch.fate side dialer = .added ∨ sketch.fate side dialer = .resumed

/-- The course of the affairs of a node: what became of the connections, and how it stands. -/
inductive Course (fate : Side → Fate) : Standing → Prop
  -- neither connection came to its pool
  | alone (hfate : ∀ dialer, fate dialer = .pending ∨ fate dialer = .failed) : Course fate .alone
  -- it added one connection, and the other one has not come to its pool
  | first (dialer : Side) (hadded : fate dialer = .added)
      (hother : fate dialer.other = .pending ∨ fate dialer.other = .failed) :
      Course fate (.linked dialer)
  -- it added one connection and refused the other one
  | kept (dialer : Side) (hadded : fate dialer = .added) (hother : fate dialer.other = .refused) :
      Course fate (.linked dialer)
  -- it added one connection, lost it, and resumed on the other one
  | again (dialer : Side) (hadded : fate dialer = .added) (hother : fate dialer.other = .resumed) :
      Course fate (.linked dialer.other)
  -- it has lost its connection
  | lost (dialer : Side) (hadded : fate dialer = .added) (hother : fate dialer.other ≠ .added) :
      Course fate .waiting

/-- What can have become of a connection at a node, by how far it has come. -/
def Fits : Passage → Fate → Prop
  | .answered, fate => fate ≠ .failed
  | .turnedAway, fate => fate = .pending ∨ fate = .failed
  | _, fate => fate = .pending

/-- What holds at every point of an encounter. -/
structure Rules (sketch : Sketch) : Prop where
  course : ∀ side, Course (sketch.fate side) (sketch.standing side)
  fits : ∀ side dialer, Fits (sketch.passage dialer) (sketch.fate side dialer)
  /-- A node that took a connection is linked by it, or the other node refused it. -/
  taken : ∀ side dialer, sketch.Took side dialer →
    sketch.standing side = .linked dialer ∨ sketch.fate side.other dialer = .refused
  /-- A node closes a connection that it refuses. -/
  closed : ∀ side dialer, sketch.fate side dialer = .refused → sketch.shut side dialer = true
  /-- A node closes only a connection that it refuses or that it has lost. -/
  kept : ∀ side dialer, sketch.passage dialer = .greeted ∨ sketch.passage dialer = .answered →
    sketch.shut side dialer = true → sketch.fate side dialer = .refused ∨
      sketch.Took side dialer ∧ sketch.standing side ≠ .linked dialer
  /-- A connection comes to nothing only if the other one was answered. -/
  dropped : ∀ dialer, sketch.passage dialer = .spared ∨ sketch.passage dialer = .turnedAway →
    sketch.passage dialer.other = .answered

def setPassage (sketch : Sketch) (dialer : Side) (passage : Passage) : Sketch :=
  { sketch with passage := fun other => if other = dialer then passage else sketch.passage other }

def setFate (sketch : Sketch) (side dialer : Side) (fate : Fate) : Sketch :=
  { sketch with
    fate := fun another other =>
      if another = side ∧ other = dialer then fate else sketch.fate another other }

def setStanding (sketch : Sketch) (side : Side) (standing : Standing) : Sketch :=
  { sketch with
    standing := fun another => if another = side then standing else sketch.standing another }

def setShut (sketch : Sketch) (side dialer : Side) : Sketch :=
  { sketch with
    shut := fun another other =>
      if another = side ∧ other = dialer then true else sketch.shut another other }

/-- The ends of a connection are open. -/
def setOpen (sketch : Sketch) (dialer : Side) : Sketch :=
  { sketch with
    shut := fun another other => if other = dialer then false else sketch.shut another other }

/-- The end of a connection at a node is open as long as nothing has become of it there. -/
theorem Rules.shut_eq_false (hrules : sketch.Rules)
    (hpassage : sketch.passage dialer = .greeted ∨ sketch.passage dialer = .answered)
    (hfate : sketch.fate side dialer = .pending) : sketch.shut side dialer = false := by
  cases hshut : sketch.shut side dialer with
  | false => rfl
  | true =>
      have hkept := hrules.kept side dialer hpassage hshut
      simp [hfate, Took] at hkept

/-- A node that refused a connection added the other one. -/
theorem Rules.added_of_refused (hrules : sketch.Rules)
    (hrefused : sketch.fate side dialer = .refused) : sketch.fate side dialer.other = .added := by
  have hcourse := hrules.course side
  generalize sketch.standing side = standing at hcourse
  cases hcourse with
  | alone hfate => rcases hfate dialer with hpending | hfailed <;> simp_all
  | first added hadded hother | kept added hadded hother | again added hadded hother
  | lost added hadded hother =>
      rcases Side.eq_or_eq_other dialer added with rfl | rfl
      · exact absurd (hrefused.symm.trans hadded) nofun
      · rw [Side.other_other]
        exact hadded

/-- A node that has no peer takes a connection. -/
theorem Rules.add (hrules : sketch.Rules) (hpassage : sketch.passage dialer = .answered)
    (hfate : sketch.fate side dialer = .pending) (hstanding : sketch.standing side = .alone) :
    ((sketch.setFate side dialer .added).setStanding side (.linked dialer)).Rules := by
  have hopen := hrules.shut_eq_false (Or.inr hpassage) hfate
  constructor
  case course =>
    intro another
    by_cases hanother : another = side
    · have hcourse := hrules.course side
      rw [hstanding] at hcourse
      cases hcourse with
      | alone hnone =>
          subst hanother
          simp only [setStanding, setFate, if_true, true_and]
          refine Course.first dialer (if_pos rfl) ?_
          rw [if_neg (Side.other_ne dialer)]
          exact hnone dialer.other
    · simpa [setStanding, setFate, hanother] using hrules.course another
  case fits =>
    have hold := hrules.fits
    simp only [setStanding, setFate]
    grind [Fits]
  case taken =>
    have hold := hrules.taken
    simp only [setStanding, setFate, Took] at hold ⊢
    grind
  case closed =>
    have hold := hrules.closed
    simp only [setStanding, setFate]
    grind
  case kept =>
    have hold := hrules.kept
    simp only [setStanding, setFate, Took] at hold ⊢
    grind
  case dropped => exact hrules.dropped

/-- A node that is linked by the other connection refuses a connection and closes it. -/
theorem Rules.refuse (hrules : sketch.Rules) (hpassage : sketch.passage dialer = .answered)
    (hfate : sketch.fate side dialer = .pending) {linked : Side}
    (hstanding : sketch.standing side = .linked linked) :
    ((sketch.setFate side dialer .refused).setShut side dialer).Rules := by
  constructor
  case course =>
    intro another
    by_cases hanother : another = side
    · have hcourse := hrules.course side
      rw [hstanding] at hcourse
      subst hanother
      simp only [setShut, setFate, true_and, hstanding]
      cases hcourse with
      | first linked hadded hother =>
          obtain rfl : dialer = linked.other := by
            refine Side.eq_other_of_ne ?_
            rintro rfl
            exact absurd (hadded.symm.trans hfate) nofun
          exact Course.kept linked (by rw [if_neg (Side.ne_other linked)]; exact hadded) (if_pos rfl)
      | kept linked hadded hother =>
          rcases Side.eq_or_eq_other dialer linked with rfl | rfl
          · exact absurd (hadded.symm.trans hfate) nofun
          · exact absurd (hother.symm.trans hfate) nofun
      | again first hadded hother =>
          rcases Side.eq_or_eq_other dialer first with rfl | rfl
          · exact absurd (hadded.symm.trans hfate) nofun
          · exact absurd (hother.symm.trans hfate) nofun
    · simpa [setShut, setFate, hanother] using hrules.course another
  case fits =>
    have hold := hrules.fits
    simp only [setShut, setFate]
    grind [Fits]
  case taken =>
    have hold := hrules.taken
    simp only [setShut, setFate, Took] at hold ⊢
    grind
  case closed =>
    have hold := hrules.closed
    simp only [setShut, setFate]
    grind
  case kept =>
    have hold := hrules.kept
    simp only [setShut, setFate, Took] at hold ⊢
    grind
  case dropped => exact hrules.dropped

/-- A node whose peer has lost its session resumes it on a connection. -/
theorem Rules.resume (hrules : sketch.Rules) (hpassage : sketch.passage dialer = .answered)
    (hfate : sketch.fate side dialer = .pending) (hstanding : sketch.standing side = .waiting) :
    ((sketch.setFate side dialer .resumed).setStanding side (.linked dialer)).Rules := by
  have hopen := hrules.shut_eq_false (Or.inr hpassage) hfate
  constructor
  case course =>
    intro another
    by_cases hanother : another = side
    · have hcourse := hrules.course side
      rw [hstanding] at hcourse
      subst hanother
      simp only [setStanding, setFate, if_true, true_and]
      cases hcourse with
      | lost first hadded hother =>
          obtain rfl : dialer = first.other := by
            refine Side.eq_other_of_ne ?_
            rintro rfl
            exact absurd (hadded.symm.trans hfate) nofun
          exact Course.again first (by rw [if_neg (Side.ne_other first)]; exact hadded) (if_pos rfl)
    · simpa [setStanding, setFate, hanother] using hrules.course another
  case fits =>
    have hold := hrules.fits
    simp only [setStanding, setFate]
    grind [Fits]
  case taken =>
    have hold := hrules.taken
    simp only [setStanding, setFate, Took] at hold ⊢
    grind
  case closed =>
    have hold := hrules.closed
    simp only [setStanding, setFate]
    grind
  case kept =>
    have hold := hrules.kept
    simp only [setStanding, setFate, Took] at hold ⊢
    grind
  case dropped => exact hrules.dropped

/-- A node that is linked by a connection took it. -/
theorem Rules.took_of_linked (hrules : sketch.Rules)
    (hstanding : sketch.standing side = .linked dialer) : sketch.Took side dialer := by
  have hcourse := hrules.course side
  rw [hstanding] at hcourse
  cases hcourse with
  | first _ hadded | kept _ hadded => exact Or.inl hadded
  | again _ _ hresumed => exact Or.inr hresumed

/-- A connection by which a node is linked was answered. -/
theorem Rules.answered_of_linked (hrules : sketch.Rules)
    (hstanding : sketch.standing side = .linked dialer) : sketch.passage dialer = .answered := by
  have hfits := hrules.fits side dialer
  cases hpassage : sketch.passage dialer with
  | answered => rfl
  | unused | spared | greeted | turnedAway =>
      rw [hpassage] at hfits
      rcases hrules.took_of_linked hstanding with hadded | hresumed <;> simp_all [Fits]

/-- A node that is linked by a connection that the other one has closed loses it.  The other one
must have refused it: had it lost the connection itself, then this node would have refused it. -/
theorem Rules.lose (hrules : sketch.Rules) (hpassage : sketch.passage dialer = .answered)
    (hstanding : sketch.standing side = .linked dialer)
    (hshut : sketch.shut side.other dialer = true) :
    ((sketch.setStanding side .waiting).setShut side dialer).Rules := by
  have htook := hrules.took_of_linked hstanding
  -- `taken` for the other node: it would still be linked, unless this one had refused
  have hrefused : sketch.fate side.other dialer = .refused := by
    rcases hrules.kept side.other dialer (Or.inr hpassage) hshut with hrefused | ⟨htook', hlost⟩
    · exact hrefused
    · have hself := (hrules.taken side.other dialer htook').resolve_left hlost
      rw [Side.other_other] at hself
      rcases htook with hadded | hresumed
      · exact absurd (hadded.symm.trans hself) nofun
      · exact absurd (hresumed.symm.trans hself) nofun
  constructor
  case course =>
    intro another
    by_cases hanother : another = side
    · have hcourse := hrules.course side
      rw [hstanding] at hcourse
      subst hanother
      simp only [setShut, setStanding, if_true]
      cases hcourse with
      | first _ hadded hother => exact Course.lost dialer hadded (by grind)
      | kept _ hadded hother => exact Course.lost dialer hadded (by grind)
      | again first hadded hother => exact Course.lost first hadded (by grind)
    · simpa [setShut, setStanding, hanother] using hrules.course another
  case fits => exact hrules.fits
  case taken =>
    have hold := hrules.taken
    simp only [setShut, setStanding, Took] at hold ⊢
    grind
  case closed =>
    have hold := hrules.closed
    simp only [setShut, setStanding]
    grind
  case kept =>
    have hold := hrules.kept
    simp only [setShut, setStanding, Took] at hold htook ⊢
    grind
  case dropped => exact hrules.dropped

/-! ## Connections that do not come to a pool -/

/-- A connection that was turned away fails at a node. -/
theorem Rules.fail (hrules : sketch.Rules) (hpassage : sketch.passage dialer = .turnedAway) :
    ((sketch.setFate side dialer .failed).setShut side dialer).Rules := by
  have hnone (another : Side) : sketch.fate another dialer = .pending ∨
      sketch.fate another dialer = .failed := by
    have hfits := hrules.fits another dialer
    rwa [hpassage] at hfits
  constructor
  case course =>
    intro another
    by_cases hanother : another = side
    · have hcourse := hrules.course side
      have hnoneHere := hnone side
      subst hanother
      simp only [setShut, setFate, true_and]
      generalize sketch.standing another = standing at hcourse ⊢
      cases hcourse with
      | alone hfate => exact Course.alone (by grind)
      | first first hadded hother => exact Course.first first (by grind) (by grind)
      | kept first hadded hother => exact Course.kept first (by grind) (by grind)
      | again first hadded hother => exact Course.again first (by grind) (by grind)
      | lost first hadded hother => exact Course.lost first (by grind) (by grind)
    · simpa [setShut, setFate, hanother] using hrules.course another
  case fits =>
    have hold := hrules.fits
    simp only [setShut, setFate]
    grind [Fits]
  case taken =>
    have hold := hrules.taken
    simp only [setShut, setFate, Took] at hold ⊢
    grind
  case closed =>
    have hold := hrules.closed
    simp only [setShut, setFate]
    grind
  case kept =>
    have hold := hrules.kept
    simp only [setShut, setFate, Took] at hold ⊢
    grind
  case dropped => exact hrules.dropped

/-- Nothing has become of a connection on which no answer was given. -/
theorem Rules.fate_eq_pending (hrules : sketch.Rules)
    (hpassage : sketch.passage dialer = .unused ∨ sketch.passage dialer = .greeted) (side : Side) :
    sketch.fate side dialer = .pending := by
  have hfits := hrules.fits side dialer
  rcases hpassage with hpassage | hpassage
  · rwa [hpassage] at hfits
  · rwa [hpassage] at hfits

/-- If some node is not alone, then a connection was answered on which nothing is pending there. -/
theorem Rules.answered_of_standing (hrules : sketch.Rules)
    (hstanding : sketch.standing side ≠ .alone) (hfate : sketch.fate side dialer = .pending) :
    sketch.passage dialer.other = .answered := by
  have hadded : sketch.fate side dialer.other = .added := by
    have hcourse := hrules.course side
    generalize sketch.standing side = standing at hcourse hstanding
    cases hcourse with
    | alone => exact absurd rfl hstanding
    | first first hadded | kept first hadded | again first hadded | lost first hadded =>
        obtain rfl : first = dialer.other := by
          refine Side.eq_other_of_ne ?_
          rintro rfl
          exact absurd (hadded.symm.trans hfate) nofun
        exact hadded
  have hfits := hrules.fits side dialer.other
  rw [hadded] at hfits
  cases hpassage : sketch.passage dialer.other <;> simp_all [Fits]

theorem Rules.spare (hrules : sketch.Rules) (hpassage : sketch.passage dialer = .unused)
    (hstanding : sketch.standing side ≠ .alone) : (sketch.setPassage dialer .spared).Rules := by
  have hnone := hrules.fate_eq_pending (Or.inl hpassage)
  have hanswered := hrules.answered_of_standing hstanding (hnone side)
  constructor
  case course => exact hrules.course
  case fits =>
    have hold := hrules.fits
    simp only [setPassage]
    grind [Fits]
  case taken => exact hrules.taken
  case closed => exact hrules.closed
  case kept =>
    have hold := hrules.kept
    simp only [setPassage, Took] at hold ⊢
    grind
  case dropped =>
    have hold := hrules.dropped
    simp only [setPassage]
    grind [Side.other_ne]

theorem Rules.dial (hrules : sketch.Rules) (hpassage : sketch.passage dialer = .unused) :
    ((sketch.setPassage dialer .greeted).setOpen dialer).Rules := by
  have hnone := hrules.fate_eq_pending (Or.inl hpassage)
  constructor
  case course => exact hrules.course
  case fits =>
    have hold := hrules.fits
    simp only [setPassage, setOpen]
    grind [Fits]
  case taken => exact hrules.taken
  case closed =>
    have hold := hrules.closed
    simp only [setPassage, setOpen]
    grind
  case kept =>
    have hold := hrules.kept
    simp only [setPassage, setOpen, Took] at hold ⊢
    grind
  case dropped =>
    have hold := hrules.dropped
    simp only [setPassage, setOpen]
    grind

theorem Rules.turnAway (hrules : sketch.Rules) (hpassage : sketch.passage dialer = .greeted)
    (hstanding : sketch.standing side ≠ .alone) :
    ((sketch.setShut side dialer).setPassage dialer .turnedAway).Rules := by
  have hnone := hrules.fate_eq_pending (Or.inr hpassage)
  have hanswered := hrules.answered_of_standing hstanding (hnone side)
  constructor
  case course => exact hrules.course
  case fits =>
    have hold := hrules.fits
    simp only [setPassage, setShut]
    grind [Fits]
  case taken => exact hrules.taken
  case closed =>
    have hold := hrules.closed
    simp only [setPassage, setShut]
    grind
  case kept =>
    have hold := hrules.kept
    simp only [setPassage, setShut, Took] at hold ⊢
    grind
  case dropped =>
    have hold := hrules.dropped
    simp only [setPassage, setShut]
    grind [Side.other_ne]

theorem Rules.answer (hrules : sketch.Rules) (hpassage : sketch.passage dialer = .greeted) :
    (sketch.setPassage dialer .answered).Rules := by
  have hnone := hrules.fate_eq_pending (Or.inr hpassage)
  constructor
  case course => exact hrules.course
  case fits =>
    have hold := hrules.fits
    simp only [setPassage]
    grind [Fits]
  case taken => exact hrules.taken
  case closed => exact hrules.closed
  case kept =>
    have hold := hrules.kept
    simp only [setPassage, Took] at hold ⊢
    grind
  case dropped =>
    have hold := hrules.dropped
    simp only [setPassage]
    grind

/-! ## The end -/

/-- Both nodes are done with both connections. -/
def IsFinished (sketch : Sketch) : Prop :=
  ∀ dialer, sketch.passage dialer = .spared ∨ sketch.passage dialer = .turnedAway ∨
    sketch.passage dialer = .answered ∧ ∀ side, sketch.fate side dialer ≠ .pending

/-- If only one connection was answered, both nodes are linked by it. -/
theorem Rules.linked_of_dropped (hrules : sketch.Rules)
    (hdropped : sketch.passage dialer = .spared ∨ sketch.passage dialer = .turnedAway)
    (hfinished : sketch.IsFinished) (side : Side) :
    sketch.standing side = .linked dialer.other := by
  have hanswered := hrules.dropped dialer hdropped
  have hnothing (another : Side) : sketch.fate another dialer = .pending ∨
      sketch.fate another dialer = .failed := by
    have hfits := hrules.fits another dialer
    rcases hdropped with hpassage | hpassage
    · rw [hpassage] at hfits
      exact Or.inl hfits
    · rwa [hpassage] at hfits
  -- whatever a node took first was the connection that was answered
  have hadded (another : Side) : sketch.fate another dialer.other = .added := by
    have hfits := hrules.fits another dialer.other
    rw [hanswered] at hfits
    have hpending : sketch.fate another dialer.other ≠ .pending := by
      rcases hfinished dialer.other with hother | hother | ⟨-, hall⟩
      · exact absurd (hanswered.symm.trans hother) nofun
      · exact absurd (hanswered.symm.trans hother) nofun
      · exact hall another
    have hnone := hnothing another
    have hcourse := hrules.course another
    generalize sketch.standing another = standing at hcourse
    cases hcourse with
    | alone hfate =>
        rcases hfate dialer.other with hnothing | hfailed
        · exact absurd hnothing hpending
        · exact absurd hfailed hfits
    | first first hfirst | kept first hfirst | again first hfirst | lost first hfirst =>
        rcases Side.eq_or_eq_other first dialer with rfl | rfl
        · simp [hfirst] at hnone
        · exact hfirst
  refine (hrules.taken side dialer.other (Or.inl (hadded side))).resolve_right fun hrefused => ?_
  exact absurd ((hadded side.other).symm.trans hrefused) nofun

/-- If both connections were answered, a node added one of them, and refused the other one or lost
the first and resumed on the other one. -/
theorem Rules.added_of_answered (hrules : sketch.Rules)
    (hfates : ∀ dialer, sketch.fate side dialer ≠ .pending ∧ sketch.fate side dialer ≠ .failed) :
    ∃ first, sketch.fate side first = .added ∧
      (sketch.fate side first.other = .refused ∨
        sketch.fate side first.other = .resumed ∧ sketch.standing side ≠ .linked first) := by
  have hcourse := hrules.course side
  generalize sketch.standing side = standing at hcourse ⊢
  cases hcourse with
  | alone hfate => exact absurd (hfate .left) (by simp [hfates])
  | first first hadded hother => exact absurd hother (by simp [hfates])
  | kept first hadded hother => exact ⟨first, hadded, Or.inl hother⟩
  | again first hadded hother => exact ⟨first, hadded, Or.inr ⟨hother, by simp⟩⟩
  | lost first hadded hother =>
      refine ⟨first, hadded, ?_⟩
      obtain ⟨hpending, hfailed⟩ := hfates first.other
      cases hfate : sketch.fate side first.other <;> simp_all

/-- When both nodes are done, they are linked by one connection, or each has refused one that the
other one has not. -/
theorem Rules.linked_or_crossed (hrules : sketch.Rules) (hfinished : sketch.IsFinished) :
    (∃ dialer, ∀ side, sketch.standing side = .linked dialer) ∨
      ∃ dialer, sketch.fate .left dialer = .refused ∧
        sketch.fate .right dialer.other = .refused := by
  by_cases hdropped : ∃ dialer,
      sketch.passage dialer = .spared ∨ sketch.passage dialer = .turnedAway
  · obtain ⟨dialer, hdropped⟩ := hdropped
    exact Or.inl ⟨dialer.other, hrules.linked_of_dropped hdropped hfinished⟩
  · have hfates (side dialer : Side) :
        sketch.fate side dialer ≠ .pending ∧ sketch.fate side dialer ≠ .failed := by
      rcases hfinished dialer with hpassage | hpassage | ⟨hpassage, hall⟩
      · exact absurd ⟨dialer, Or.inl hpassage⟩ hdropped
      · exact absurd ⟨dialer, Or.inr hpassage⟩ hdropped
      · have hfits := hrules.fits side dialer
        rw [hpassage] at hfits
        exact ⟨hall side, hfits⟩
    -- a node that is not linked by what it took was refused it
    have hlinked {side dialer : Side} (htook : sketch.Took side dialer)
        (hnot : sketch.fate side.other dialer ≠ .refused) : sketch.standing side = .linked dialer :=
      (hrules.taken side dialer htook).resolve_right hnot
    obtain ⟨first, hfirst, hleft⟩ := hrules.added_of_answered (hfates .left)
    obtain ⟨second, hsecond, hright⟩ := hrules.added_of_answered (hfates .right)
    rcases hleft with hrefused | ⟨hresumed, hlost⟩
    · rcases hright with hrefusedR | ⟨hresumedR, hlostR⟩
      · rcases Side.eq_or_eq_other second first with rfl | rfl
        · -- both refused the same connection
          refine Or.inl ⟨second, fun side => ?_⟩
          cases side with
          | left => exact hlinked (Or.inl hfirst) (by rw [Side.other, hsecond]; exact nofun)
          | right => exact hlinked (Or.inl hsecond) (by rw [Side.other, hfirst]; exact nofun)
        · exact Or.inr ⟨first.other, hrefused, hrefusedR⟩
      · -- the right node lost what the left one refused, and resumed on the other connection
        have hother := (hrules.taken .right second (Or.inl hsecond)).resolve_left hlostR
        obtain rfl : second = first.other := by
          refine Side.eq_other_of_ne ?_
          rintro rfl
          exact absurd (hfirst.symm.trans hother) nofun
        rw [Side.other_other] at hresumedR
        refine Or.inl ⟨first, fun side => ?_⟩
        cases side with
        | left => exact hlinked (Or.inl hfirst) (by rw [Side.other, hresumedR]; exact nofun)
        | right => exact hlinked (Or.inr hresumedR) (by rw [Side.other, hfirst]; exact nofun)
    · -- the left node lost what the right one refused, and resumed on the other connection
      have hother := (hrules.taken .left first (Or.inl hfirst)).resolve_left hlost
      obtain rfl : first = second.other := by
        refine Side.eq_other_of_ne ?_
        rintro rfl
        exact absurd (hsecond.symm.trans hother) nofun
      rw [Side.other_other] at hresumed
      refine Or.inl ⟨second, fun side => ?_⟩
      cases side with
      | left => exact hlinked (Or.inr hresumed) (by rw [Side.other, hsecond]; exact nofun)
      | right => exact hlinked (Or.inl hsecond) (by rw [Side.other, hresumed]; exact nofun)

end Sketch

end Overlay
