import ProbePoints.Validity

/-!
# Valid methods

`Method.Valid` says what a method without violations is like, and `check_eq_ok_iff` that the check accepts exactly the
valid methods. `Method.Bounded` says that a method mentions no label it has not handed out. The last part says which
kinds of violations the check finds.
-/

namespace ProbePoints

/-! ### Labels that are mentioned -/

/-- The label of a slot. -/
def Slot.labels {α : Type} : Slot α → List α
  | .uninitialized site => [site]
  | _ => []

/-- The labels a node mentions: the one it places, those it refers to, and those in the slots of a frame. -/
def Node.labels {α : Type} : Node α → List α
  | .insn instruction => instruction.targets
  | .label here => [here]
  | .frame shape => (shape.locals ++ shape.stack).flatMap Slot.labels
  | .line mark => [mark.start]

namespace Method

/-- Every label that the method mentions was handed out by it. -/
structure Bounded (m : Method) : Prop where
  nodes : ∀ node ∈ m.nodes, ∀ label ∈ node.labels, label.id < m.numLabels
  ranges : ∀ range ∈ m.ranges, ∀ label ∈ range.labels, label.id < m.numLabels

theorem bounded_iff (m : Method) :
    m.Bounded ↔
      (∀ node ∈ m.nodes, ∀ label ∈ node.labels, label.id < m.numLabels) ∧
        ∀ range ∈ m.ranges, ∀ label ∈ range.labels, label.id < m.numLabels :=
  ⟨fun bounded => ⟨bounded.nodes, bounded.ranges⟩, fun ⟨nodes, ranges⟩ => ⟨nodes, ranges⟩⟩

instance (m : Method) : Decidable m.Bounded := decidable_of_iff _ m.bounded_iff.symm

/-! ### Violations -/

/-- A method without violations. -/
structure Valid (m : Method) : Prop where
  /-- No label is placed twice. -/
  distinct : (placements m.nodes).Nodup
  /-- Ranges refer to placed labels. -/
  ranges : ∀ range ∈ m.ranges, ∀ label ∈ range.labels, label ∈ placements m.nodes
  /-- Opcodes have operands of their form. -/
  fits : ∀ instruction, .insn instruction ∈ m.nodes → instruction.Fits
  /-- Instructions refer to placed labels. -/
  targets : ∀ instruction, .insn instruction ∈ m.nodes → ∀ label ∈ instruction.targets, label ∈ placements m.nodes
  /-- Line marks start at placed labels. -/
  lines : ∀ mark, .line mark ∈ m.nodes → mark.start ∈ placements m.nodes

theorem firstRepeat?_eq_none {α : Type} [DecidableEq α] {seen items : List α} :
    firstRepeat? seen items = none ↔ items.Nodup ∧ ∀ a ∈ items, a ∉ seen := by
  induction items generalizing seen with
  | nil => simp [firstRepeat?]
  | cons a rest ih =>
    unfold firstRepeat?
    by_cases before : a ∈ seen
    · simp [before]
    · simp only [before, if_false, ih, List.nodup_cons, List.mem_cons, not_or]
      constructor
      · rintro ⟨distinct, new⟩
        refine ⟨⟨fun again => (new a again).1 rfl, distinct⟩, ?_⟩
        rintro b (rfl | member)
        · exact before
        · exact (new b member).2
      · rintro ⟨⟨once, distinct⟩, new⟩
        exact ⟨distinct, fun b member => ⟨fun same => once (same ▸ member), new b (.inr member)⟩⟩

theorem unplaced?_eq_none {m : Method} {placed labels : List Label} {referrer : Referrer} :
    m.unplaced? placed referrer labels = none ↔ ∀ label ∈ labels, label ∈ placed := by
  simp [unplaced?]

theorem nodeViolation?_eq_none {m : Method} {placed : List Label} {node : Node Label} :
    m.nodeViolation? placed node = none ↔
      (∀ instruction, node = .insn instruction → instruction.Fits) ∧
        (∀ instruction, node = .insn instruction → ∀ label ∈ instruction.targets, label ∈ placed) ∧
          ∀ mark, node = .line mark → mark.start ∈ placed := by
  cases node with
  | insn instruction => by_cases fits : instruction.Fits <;> simp [nodeViolation?, fits, unplaced?_eq_none]
  | line mark => simp [nodeViolation?, unplaced?_eq_none]
  | label here => simp [nodeViolation?]
  | frame shape => simp [nodeViolation?]

theorem violation?_eq_none {m : Method} :
    m.violation? = none ↔
      m.repeatViolation? = none ∧ (∀ range ∈ m.ranges, m.rangeViolation? (placements m.nodes) range = none) ∧
        ∀ node ∈ m.nodes, m.nodeViolation? (placements m.nodes) node = none := by
  simp [violation?]

/-- The check accepts exactly the valid methods. -/
theorem check_eq_ok_iff (m : Method) : m.check = .ok () ↔ m.Valid := by
  have accepted : m.check = .ok () ↔ m.violation? = none := by
    unfold check
    cases m.violation? <;> simp
  rw [accepted, violation?_eq_none]
  simp only [repeatViolation?, Option.map_eq_none_iff, firstRepeat?_eq_none, rangeViolation?, unplaced?_eq_none,
    nodeViolation?_eq_none]
  constructor
  · rintro ⟨⟨distinct, -⟩, ranges, nodes⟩
    exact ⟨distinct, ranges, fun instruction member => (nodes _ member).1 instruction rfl,
      fun instruction member => (nodes _ member).2.1 instruction rfl,
      fun mark member => (nodes _ member).2.2 mark rfl⟩
  · intro valid
    refine ⟨⟨valid.distinct, by simp⟩, valid.ranges, fun node member => ⟨?_, ?_, ?_⟩⟩
    · rintro instruction rfl
      exact valid.fits instruction member
    · rintro instruction rfl
      exact valid.targets instruction member
    · rintro mark rfl
      exact valid.lines mark member

/-! ### Kinds of violations -/

theorem unplaced?_cases {m : Method} {placed labels : List Label} {referrer : Referrer} {violation : Violation}
    (found : m.unplaced? placed referrer labels = some violation) : ∃ name, violation = .unplaced referrer name := by
  obtain ⟨label, -, rfl⟩ := Option.map_eq_some_iff.mp found
  exact ⟨_, rfl⟩

theorem nodeViolation?_cases {m : Method} {placed : List Label} {node : Node Label} {violation : Violation}
    (found : m.nodeViolation? placed node = some violation) :
    (∃ op form, violation = .wrongForm op form) ∨ ∃ referrer name, violation = .unplaced referrer name := by
  cases node with
  | insn instruction =>
    rw [nodeViolation?] at found
    split at found
    · exact .inr ⟨_, unplaced?_cases found⟩
    · exact .inl ⟨_, _, (Option.some.inj found).symm⟩
  | line mark => exact .inr ⟨_, unplaced?_cases found⟩
  | label here => cases found
  | frame shape => cases found

/-- The check tells of a line mark at a label that stands nowhere as of any other reference, and not in the words that
normalization has for it. -/
theorem violation?_ne_unplacedLine (m : Method) (number : UInt32) (name : String) :
    m.violation? ≠ some (.unplacedLine number name) := by
  intro found
  simp only [violation?, Option.orElse_eq_orElse, Option.orElse_eq_or] at found
  rcases Option.or_eq_some_iff.mp found with again | ⟨-, found⟩
  · obtain ⟨label, -, same⟩ := Option.map_eq_some_iff.mp again
    cases same
  · rcases Option.or_eq_some_iff.mp found with outside | ⟨-, inside⟩
    · obtain ⟨range, -, here⟩ := List.exists_of_findSome?_eq_some outside
      obtain ⟨label, same⟩ := unplaced?_cases here
      cases same
    · obtain ⟨node, -, here⟩ := List.exists_of_findSome?_eq_some inside
      rcases nodeViolation?_cases here with ⟨op, form, same⟩ | ⟨referrer, label, same⟩
      · cases same
      · cases same

theorem check_cases (m : Method) :
    m.check = .ok () ∨
      ∃ violation, m.violation? = some violation ∧ m.check = .error (.inconsistent violation m.name) := by
  unfold check
  cases m.violation? with
  | none => exact .inl rfl
  | some violation => exact .inr ⟨violation, rfl, rfl⟩

end Method

end ProbePoints
