import ProbePoints.Proofs.Arrival
import ProbePoints.Proofs.Validity

/-!
# The first violation of a method

Several things can be wrong with a method at once. `Method.FirstViolation` says which of them counts, by positions in
the stream and in the ranges, and `Method.violation?_eq_some_iff` that this is the one that is found.
-/

namespace ProbePoints

/-- The first of some items that has a property. -/
def IsFirst {α : Type} (p : α → Prop) (items : List α) (a : α) : Prop :=
  p a ∧ ∃ before after, items = before ++ a :: after ∧ ∀ b ∈ before, ¬p b

theorem isFirst_iff {α : Type} {p : α → Prop} [DecidablePred p] {items : List α} {a : α} :
    IsFirst p items a ↔ items.find? (fun b => decide (p b)) = some a := by
  rw [List.find?_eq_some_iff_append]
  simp [IsFirst]

/-! ### Repeated placements -/

theorem firstRepeat?_eq_some_iff {α : Type} [DecidableEq α] {seen items : List α} {a : α} :
    firstRepeat? seen items = some a ↔
      ∃ before after, items = before ++ a :: after ∧ (a ∈ before ∨ a ∈ seen) ∧ before.Nodup ∧
        ∀ b ∈ before, b ∉ seen := by
  induction items generalizing seen with
  | nil => simp [firstRepeat?]
  | cons first rest ih =>
    unfold firstRepeat?
    by_cases known : first ∈ seen
    · rw [if_pos known, Option.some.injEq]
      constructor
      · rintro rfl
        exact ⟨[], rest, rfl, .inr known, List.nodup_nil, by simp⟩
      · rintro ⟨before, after, same, -, -, new⟩
        cases before with
        | nil => exact (List.cons_eq_cons.mp same).1
        | cons head tail =>
          obtain ⟨rfl, -⟩ := List.cons_eq_cons.mp same
          exact absurd known (new first List.mem_cons_self)
    · rw [if_neg known, ih]
      constructor
      · rintro ⟨before, after, rfl, again, distinct, new⟩
        have apart : first ∉ before := fun member => new first member List.mem_cons_self
        refine ⟨first :: before, after, rfl, ?_, List.nodup_cons.mpr ⟨apart, distinct⟩, ?_⟩
        · rcases again with earlier | known
          · exact .inl (List.mem_cons_of_mem _ earlier)
          · rcases List.mem_cons.mp known with rfl | earlier
            · exact .inl List.mem_cons_self
            · exact .inr earlier
        · intro b member
          rcases List.mem_cons.mp member with rfl | later
          · exact known
          · exact fun old => new b later (List.mem_cons_of_mem _ old)
      · rintro ⟨before, after, same, again, distinct, new⟩
        cases before with
        | nil =>
          obtain ⟨rfl, -⟩ := List.cons_eq_cons.mp same
          exact absurd (again.resolve_left (by simp)) known
        | cons head tail =>
          obtain ⟨rfl, rfl⟩ := List.cons_eq_cons.mp same
          obtain ⟨apart, distinct⟩ := List.nodup_cons.mp distinct
          refine ⟨tail, after, rfl, ?_, distinct, ?_⟩
          · rcases again with earlier | old
            · rcases List.mem_cons.mp earlier with rfl | earlier
              · exact .inr List.mem_cons_self
              · exact .inl earlier
            · exact .inr (List.mem_cons_of_mem _ old)
          · intro b member old
            rcases List.mem_cons.mp old with rfl | old
            · exact apart member
            · exact new b (List.mem_cons_of_mem _ member) old

theorem Node.placed?_eq_some_iff {node : Node Label} {label : Label} :
    node.placed? = some label ↔ node = .label label := by
  cases node <;> simp [Node.placed?]

/-- The splits of the placements are the splits of the stream at a label. -/
theorem placements_eq_append_cons_iff {nodes : List (Node Label)} {label : Label} {p : List Label → Prop} :
    (∃ before after, placements nodes = before ++ label :: after ∧ p before) ↔
      ∃ before after, nodes = before ++ .label label :: after ∧ p (placements before) := by
  constructor
  · rintro ⟨front, back, same, holds⟩
    obtain ⟨before, rest, rfl, sameFront, sameBack⟩ := List.filterMap_eq_append_iff.mp same
    obtain ⟨skipped, node, after, rfl, silent, here, -⟩ := List.filterMap_eq_cons_iff.mp sameBack
    obtain rfl := Node.placed?_eq_some_iff.mp here
    have unplaced : placements skipped = [] := List.filterMap_eq_nil_iff.mpr silent
    refine ⟨before ++ skipped, after, by simp, ?_⟩
    rw [placements_append, unplaced, List.append_nil, placements, sameFront]
    exact holds
  · rintro ⟨before, after, rfl, holds⟩
    exact ⟨placements before, placements after, placements_append before (.label label :: after), holds⟩

/-! ### Ranges and nodes that offend -/

/-- The labels a range refers to, in the order in which they are looked at. -/
def ProtectedRange.references (range : ProtectedRange Label) : List Label := [range.start, range.stop, range.handler]

namespace Node

/-- The opcode of a node, if it has one, takes the operands of the node. -/
def Fits (node : Node Label) : Prop := node.opcode?.map Opcode.form = node.form?

instance (node : Node Label) : Decidable node.Fits := inferInstanceAs (Decidable (_ = _))

/-- The labels a node refers to, in operand order: a switch names its fallback before its targets. The slots of a frame
do not count. -/
def references : Node Label → List Label
  | .insn (.jump _ target) => [target]
  | .insn (.tableSwitch _ _ fallback targets) => fallback :: targets
  | .insn (.lookupSwitch fallback _ targets) => fallback :: targets
  | .line mark => [mark.start]
  | .insn _ | .label _ | .frame _ => []

/-- What a node is called where it refers to a label. -/
def referrer : Node Label → Referrer
  | .insn instruction => .instruction instruction.opcode
  | _ => .line

/-- Something is wrong with a node where some labels are placed. -/
def Offends (placed : List Label) (node : Node Label) : Prop :=
  ¬node.Fits ∨ ∃ label ∈ node.references, label ∉ placed

theorem references_insn (instruction : Instruction Label) :
    (Node.insn instruction).references = instruction.targets := by
  cases instruction <;> rfl

theorem fits_insn_iff (instruction : Instruction Label) : (Node.insn instruction).Fits ↔ instruction.Fits := by
  simp [Fits, Instruction.Fits, opcode?, form?]

end Node

namespace Method

theorem unplaced?_eq_some_iff {m : Method} {placed labels : List Label} {referrer : Referrer} {violation : Violation} :
    m.unplaced? placed referrer labels = some violation ↔
      ∃ label, IsFirst (· ∉ placed) labels label ∧ violation = .unplaced referrer (m.displayName label) := by
  unfold unplaced?
  simp only [Option.map_eq_some_iff, isFirst_iff, eq_comm (a := violation)]

theorem nodeViolation?_eq_none_iff {m : Method} {placed : List Label} {node : Node Label} :
    m.nodeViolation? placed node = none ↔ ¬node.Offends placed := by
  rw [nodeViolation?_eq_none, Node.Offends]
  cases node with
  | insn instruction => simp [Node.fits_insn_iff, Node.references_insn]
  | line mark => simp [Node.Fits, Node.opcode?, Node.form?, Node.references]
  | label here => simp [Node.Fits, Node.opcode?, Node.form?, Node.references]
  | frame shape => simp [Node.Fits, Node.opcode?, Node.form?, Node.references]

theorem nodeViolation?_eq_some_iff {m : Method} {placed : List Label} {node : Node Label} {violation : Violation} :
    m.nodeViolation? placed node = some violation ↔
      (∃ instruction, node = .insn instruction ∧ ¬node.Fits ∧
        violation = .wrongForm instruction.opcode instruction.form) ∨
      node.Fits ∧ ∃ label, IsFirst (· ∉ placed) node.references label ∧
        violation = .unplaced node.referrer (m.displayName label) := by
  cases node with
  | insn instruction =>
    rw [nodeViolation?, Node.fits_insn_iff]
    by_cases fits : instruction.Fits
    · simp [fits, unplaced?_eq_some_iff, Node.references_insn, Node.referrer]
    · simp [fits, eq_comm (a := violation)]
  | line mark =>
    have fits : (Node.line mark).Fits := rfl
    simp [nodeViolation?, unplaced?_eq_some_iff, fits, Node.references, Node.referrer]
  | label here => simp [nodeViolation?, Node.references, IsFirst]
  | frame shape => simp [nodeViolation?, Node.references, IsFirst]

/-! ### The order of violations -/

/-- What the check has to tell about a method: a label that is placed again comes before all else, then the labels of
the ranges, then the nodes, and in a node the opcode comes before the labels. -/
inductive FirstViolation (m : Method) : Violation → Prop where
  | placedTwice {before after : List (Node Label)} {label : Label}
      (stream : m.nodes = before ++ .label label :: after) (again : label ∈ placements before)
      (first : (placements before).Nodup) : FirstViolation m (.placedTwice (m.displayName label))
  | range {label : Label} (distinct : (placements m.nodes).Nodup)
      (first : IsFirst (· ∉ placements m.nodes) (m.ranges.flatMap ProtectedRange.references) label) :
      FirstViolation m (.unplaced .range (m.displayName label))
  | form {instruction : Instruction Label} (distinct : (placements m.nodes).Nodup)
      (ranges : ∀ range ∈ m.ranges, ∀ label ∈ range.references, label ∈ placements m.nodes)
      (first : IsFirst (Node.Offends (placements m.nodes)) m.nodes (.insn instruction))
      (misfit : ¬(Node.insn instruction).Fits) :
      FirstViolation m (.wrongForm instruction.opcode instruction.form)
  | operand {node : Node Label} {label : Label} (distinct : (placements m.nodes).Nodup)
      (ranges : ∀ range ∈ m.ranges, ∀ label ∈ range.references, label ∈ placements m.nodes)
      (first : IsFirst (Node.Offends (placements m.nodes)) m.nodes node) (fits : node.Fits)
      (missing : IsFirst (· ∉ placements m.nodes) node.references label) :
      FirstViolation m (.unplaced node.referrer (m.displayName label))

theorem repeatViolation?_eq_some_iff {m : Method} {violation : Violation} :
    m.repeatViolation? = some violation ↔
      ∃ before after label, m.nodes = before ++ .label label :: after ∧ label ∈ placements before ∧
        (placements before).Nodup ∧ violation = .placedTwice (m.displayName label) := by
  unfold repeatViolation?
  have splits : ∀ label, firstRepeat? [] (placements m.nodes) = some label ↔
      ∃ before after, m.nodes = before ++ .label label :: after ∧ label ∈ placements before ∧
        (placements before).Nodup := by
    intro label
    rw [firstRepeat?_eq_some_iff, ← placements_eq_append_cons_iff (p := fun before => label ∈ before ∧ before.Nodup)]
    simp
  simp only [Option.map_eq_some_iff, splits]
  constructor
  · rintro ⟨label, ⟨before, after, stream, again, distinct⟩, rfl⟩
    exact ⟨before, after, label, stream, again, distinct, rfl⟩
  · rintro ⟨before, after, label, stream, again, distinct, rfl⟩
    exact ⟨label, ⟨before, after, stream, again, distinct⟩, rfl⟩

/-- The ranges are searched label by label. -/
theorem findSome?_rangeViolation? (m : Method) (placed : List Label) :
    m.ranges.findSome? (m.rangeViolation? placed) =
      m.unplaced? placed .range (m.ranges.flatMap ProtectedRange.references) := by
  unfold unplaced?
  rw [List.find?_flatMap, List.map_findSome?]
  rfl

theorem findSome?_nodeViolation?_eq_some_iff {m : Method} {placed : List Label} {violation : Violation} :
    m.nodes.findSome? (m.nodeViolation? placed) = some violation ↔
      ∃ node, IsFirst (Node.Offends placed) m.nodes node ∧ m.nodeViolation? placed node = some violation := by
  simp only [List.findSome?_eq_some_iff, nodeViolation?_eq_none_iff]
  constructor
  · rintro ⟨before, node, after, stream, found, earlier⟩
    have offends : node.Offends placed := by
      by_contra fine
      rw [nodeViolation?_eq_none_iff.mpr fine] at found
      cases found
    exact ⟨node, ⟨offends, before, after, stream, earlier⟩, found⟩
  · rintro ⟨node, ⟨-, before, after, stream, earlier⟩, found⟩
    exact ⟨before, node, after, stream, found, earlier⟩

theorem repeatViolation?_eq_none_iff {m : Method} : m.repeatViolation? = none ↔ (placements m.nodes).Nodup := by
  simp [repeatViolation?, firstRepeat?_eq_none]

/-- The first violation is the one that is found. -/
theorem violation?_eq_some_iff {m : Method} {violation : Violation} :
    m.violation? = some violation ↔ m.FirstViolation violation := by
  have placedRanges : m.unplaced? (placements m.nodes) .range (m.ranges.flatMap ProtectedRange.references) = none ↔
      ∀ range ∈ m.ranges, ∀ label ∈ range.references, label ∈ placements m.nodes := by
    rw [unplaced?_eq_none]
    simp only [List.mem_flatMap, forall_exists_index, and_imp]
    exact forall_comm.trans (forall_congr' fun range => forall_comm)
  simp only [violation?, Option.orElse_eq_orElse, Option.orElse_eq_or, findSome?_rangeViolation?,
    Option.or_eq_some_iff, repeatViolation?_eq_none_iff, placedRanges, findSome?_nodeViolation?_eq_some_iff]
  constructor
  · rintro (again | ⟨distinct, outside | ⟨ranges, node, first, found⟩⟩)
    · obtain ⟨before, after, label, stream, earlier, distinct, rfl⟩ := repeatViolation?_eq_some_iff.mp again
      exact .placedTwice stream earlier distinct
    · obtain ⟨label, first, rfl⟩ := unplaced?_eq_some_iff.mp outside
      exact .range distinct first
    · rcases nodeViolation?_eq_some_iff.mp found with ⟨instruction, rfl, misfit, rfl⟩ | ⟨fits, label, missing, rfl⟩
      · exact .form distinct ranges first misfit
      · exact .operand distinct ranges first fits missing
  · intro first
    cases first with
    | placedTwice stream again distinct =>
      exact .inl (repeatViolation?_eq_some_iff.mpr ⟨_, _, _, stream, again, distinct, rfl⟩)
    | range distinct first =>
      exact .inr ⟨distinct, .inl (unplaced?_eq_some_iff.mpr ⟨_, first, rfl⟩)⟩
    | form distinct ranges first misfit =>
      exact .inr ⟨distinct, .inr ⟨ranges, _, first, nodeViolation?_eq_some_iff.mpr (.inl ⟨_, rfl, misfit, rfl⟩)⟩⟩
    | operand distinct ranges first fits missing =>
      exact .inr ⟨distinct, .inr ⟨ranges, _, first,
        nodeViolation?_eq_some_iff.mpr (.inr ⟨fits, _, missing, rfl⟩)⟩⟩

/-- The check accepts a method exactly if no label is placed twice, ranges, instructions and line marks refer to placed
labels, and opcodes have operands of their form. It refuses any other, for its first violation. -/
theorem check_first_violation (m : Method) :
    (m.check = .ok () ↔
      (placements m.nodes).Nodup ∧
        (∀ range ∈ m.ranges, range.start ∈ placements m.nodes ∧ range.stop ∈ placements m.nodes ∧
          range.handler ∈ placements m.nodes) ∧
        (∀ node ∈ m.nodes, node.Fits) ∧ ∀ node ∈ m.nodes, ∀ label ∈ node.references, label ∈ placements m.nodes) ∧
      ∀ rejection, m.check = .error rejection ↔
        ∃ violation, rejection = .inconsistent violation m.name ∧ m.FirstViolation violation := by
  constructor
  · have accepted : m.check = .ok () ↔ m.violation? = none := by
      unfold check
      cases m.violation? <;> simp
    rw [accepted, violation?_eq_none]
    simp only [repeatViolation?_eq_none_iff, rangeViolation?, unplaced?_eq_none, ProtectedRange.labels,
      nodeViolation?_eq_none_iff, Node.Offends, not_or, not_not, not_exists, not_and, List.forall_mem_cons]
    simp [forall_and]
  · intro rejection
    simp only [← violation?_eq_some_iff]
    unfold check
    cases m.violation? <;> simp [eq_comm]

end Method

end ProbePoints
