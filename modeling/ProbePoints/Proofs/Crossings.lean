import ProbePoints.Proofs.Numbering
import ProbePoints.Proofs.Settling

/-!
# Stretches of a stream

A stream falls into stretches, each a node with all the frames that directly follow it. Stretches settle one by one: a
line mark crosses the frames of its stretch, and any other stretch stays. `normalize_crosses` gives a normalized method
in these terms.
-/

namespace ProbePoints

/-- A node with frames behind it. -/
structure Stretch where
  head : Node Label
  frames : List (Frame Label)
  deriving DecidableEq, Repr

namespace Stretch

def nodes (part : Stretch) : List (Node Label) := part.head :: part.frames.map .frame

/-- The number of frames that a line mark at the head has to cross. -/
def crossings (part : Stretch) : Nat :=
  match part.head with
  | .line _ => part.frames.length
  | _ => 0

/-- A line mark behind the frames it has crossed. Its new labels are numbered from `first` on, and it starts at the
last of them. -/
def settledMark (first : Nat) (mark : LineMark Label) : List (Frame Label) → LineMark Label
  | [] => mark
  | _ :: others => { mark with start := ⟨first + others.length⟩ }

/-- The nodes of a stretch after its line mark, if it has one, has crossed its frames. Each frame is followed by a `nop`
and a new label. -/
def crossed (first : Nat) (part : Stretch) : List (Node Label) :=
  match part.head with
  | .line mark =>
    (part.frames.zipIdx first).flatMap (fun (shape, id) => [.frame shape, .insn (.plain .nop), .label ⟨id⟩]) ++
      [.line (settledMark first mark part.frames)]
  | _ => part.nodes

/-- The label at which a line mark starts before it crosses frames, with the first of its new ones. -/
def landing? (first : Nat) (part : Stretch) : Option (Label × Label) :=
  match part.head, part.frames with
  | .line mark, _ :: _ => some (mark.start, ⟨first⟩)
  | _, _ => none

end Stretch

/-- The stretches of a stream. Only the first one can have a frame at its head. -/
def stretches : List (Node Label) → List Stretch
  | [] => []
  | node :: rest =>
    match stretches rest with
    | ⟨.frame shape, shapes⟩ :: later => ⟨node, shape :: shapes⟩ :: later
    | later => ⟨node, []⟩ :: later

/-- Stretches with the number of their first new label. -/
def numbered (next : Nat) : List Stretch → List (Nat × Stretch)
  | [] => []
  | part :: parts => (next, part) :: numbered (next + part.crossings) parts

/-- The number of frames that all line marks together have to cross. -/
def crossings : List Stretch → Nat
  | [] => 0
  | part :: parts => part.crossings + crossings parts

def crossed (next : Nat) (parts : List Stretch) : List (Node Label) :=
  (numbered next parts).flatMap fun (first, part) => part.crossed first

def landings (next : Nat) (parts : List Stretch) : List (Label × Label) :=
  (numbered next parts).filterMap fun (first, part) => part.landing? first

/-- The first new label of the last mark that started at this one and landed elsewhere, or else the label itself. -/
def landedLabel (landings : List (Label × Label)) (label : Label) : Label :=
  match (landings.filter fun landing => landing.1 = label).getLast? with
  | some landing => landing.2
  | none => label

/-- A node after line marks have landed. Frames refer to landed labels on their operand stacks. -/
def Node.landed (landings : List (Label × Label)) : Node Label → Node Label
  | .frame { kind, locals, stack } => .frame { kind, locals, stack := stack.map (Slot.relabel (landedLabel landings)) }
  | node => node

/-! ### Cutting a stream -/

theorem flatMap_stretches (nodes : List (Node Label)) : (stretches nodes).flatMap Stretch.nodes = nodes := by
  induction nodes with
  | nil => rfl
  | cons node rest ih =>
    rw [stretches]
    split
    · rename_i shape shapes later same
      rw [same] at ih
      rw [← ih]
      rfl
    · rw [List.flatMap_cons, ih]
      rfl

theorem head_of_mem_stretches (nodes : List (Node Label)) :
    ∀ part ∈ (stretches nodes).tail, part.head.isFrame = false := by
  induction nodes with
  | nil => simp [stretches]
  | cons node rest ih =>
    rw [stretches]
    split
    · rename_i shape shapes later same
      rw [same] at ih
      exact ih
    · rename_i unframed
      intro part member
      rw [List.tail_cons] at member
      -- Here the next stretch opens with something else than a frame, or it would have become part of this one.
      cases cut : stretches rest with
      | nil => rw [cut] at member; cases member
      | cons first later =>
        rw [cut] at member ih
        rcases List.mem_cons.mp member with rfl | member
        · obtain ⟨head, shapes⟩ := part
          cases head with
          | frame shape => exact (unframed shape shapes later cut).elim
          | _ => rfl
        · exact ih part member

/-! ### Settling a stretch -/

theorem nodes_move_frames (next : Nat) (mark : LineMark Label) (shapes : List (Frame Label)) :
    (move next (some mark) (shapes.map .frame)).nodes =
      (shapes.zipIdx next).flatMap (fun (shape, id) => [.frame shape, .insn (.plain .nop), .label ⟨id⟩]) ++
        [.line (Stretch.settledMark next mark shapes)] := by
  induction shapes generalizing next mark with
  | nil => rfl
  | cons shape others ih =>
    have last : Stretch.settledMark (next + 1) { mark with start := ⟨next⟩ } others =
        Stretch.settledMark next mark (shape :: others) := by
      cases others with
      | nil => rfl
      | cons second later => simp only [Stretch.settledMark, List.length_cons, Nat.add_assoc, Nat.add_comm 1]
    rw [List.map_cons, move]
    simp only [Settled.precede, Settled.prepend, ih, last, List.zipIdx_cons, List.flatMap_cons, List.append_assoc,
      spacer]

theorem length_moves_frames (next : Nat) (mark : LineMark Label) (shapes : List (Frame Label)) :
    (move next (some mark) (shapes.map .frame)).moves.length = shapes.length := by
  induction shapes generalizing next mark with
  | nil => rfl
  | cons shape others ih =>
    rw [List.map_cons, move]
    simp only [Settled.precede, Settled.prepend, List.length_cons, ih]

theorem framedMarks_frames (shapes : List (Frame Label)) : framedMarks (shapes.map .frame) = [] := by
  induction shapes with
  | nil => rfl
  | cons shape others ih => exact ih

theorem moves_other {part : Stretch} (next : Nat) (other : part.head.mark? = none) :
    (move next none part.nodes).moves = [] := by
  rw [moves_eq_nil_iff]
  change framedMarks (part.head :: part.frames.map .frame) = []
  rw [framedMarks_cons other]
  exact framedMarks_frames part.frames

namespace Stretch

theorem nodes_move (next : Nat) (part : Stretch) : (move next none part.nodes).nodes = part.crossed next := by
  obtain ⟨head, shapes⟩ := part
  cases head with
  | line mark => exact nodes_move_frames next mark shapes
  | _ => exact move_of_unframed (moves_other next rfl)

theorem length_moves (next : Nat) (part : Stretch) : (move next none part.nodes).moves.length = part.crossings := by
  obtain ⟨head, shapes⟩ := part
  cases head with
  | line mark => exact length_moves_frames next mark shapes
  | _ => rw [moves_other next rfl]; rfl

/-- Of the moves of a mark only the first starts at a label that was there before. -/
theorem lookup_moves {next : Nat} {label : Label} (below : label.id < next) (part : Stretch) :
    (move next none part.nodes).moves.reverse.lookup label = (part.landing? next).toList.lookup label := by
  obtain ⟨head, shapes⟩ := part
  cases head with
  | line mark =>
    cases shapes with
    | nil => rfl
    | cons shape others =>
      have later : ∀ old new,
          (old, new) ∈ (move (next + 1) (some { mark with start := ⟨next⟩ }) (others.map .frame)).moves →
            old ≠ label := by
        refine ne_of_mem_moves (by omega) ?_
        intro other member
        rw [framedMarks_held, framedMarks_frames, List.append_nil] at member
        split at member
        · obtain rfl := List.mem_singleton.mp member
          rintro rfl
          exact Nat.lt_irrefl next below
        · cases member
      have first : (move next none (Stretch.nodes ⟨.line mark, shape :: others⟩)).moves =
          (mark.start, ⟨next⟩) ::
            (move (next + 1) (some { mark with start := ⟨next⟩ }) (others.map .frame)).moves := rfl
      rw [first, List.reverse_cons, List.lookup_append, lookup_reverse_eq_none later, Option.none_or]
      rfl
  | _ => rw [moves_other next rfl]; rfl

end Stretch

/-! ### Settling stretch by stretch -/

theorem move_stretch {next : Nat} {part : Stretch} {parts : List Stretch}
    (apart : ∀ later ∈ parts, later.head.isFrame = false) :
    move next none ((part :: parts).flatMap Stretch.nodes) =
      (move next none part.nodes).append (move (next + part.crossings) none (parts.flatMap Stretch.nodes)) := by
  have boundary : startsWithFrame (parts.flatMap Stretch.nodes) = false := by
    cases parts with
    | nil => rfl
    | cons first later => exact apart first List.mem_cons_self
  rw [List.flatMap_cons, move_append boundary, part.length_moves]

theorem landings_cons (next : Nat) (part : Stretch) (parts : List Stretch) :
    landings next (part :: parts) = (part.landing? next).toList ++ landings (next + part.crossings) parts := by
  simp only [landings, numbered, List.filterMap_cons]
  cases part.landing? next <;> rfl

/-- Stretches settle one by one. What stands for an old label depends on the first moves of the marks only. -/
theorem move_stretches {parts : List Stretch} (next : Nat) (apart : ∀ part ∈ parts.tail, part.head.isFrame = false) :
    (move next none (parts.flatMap Stretch.nodes)).nodes = crossed next parts ∧
      (move next none (parts.flatMap Stretch.nodes)).moves.length = crossings parts ∧
      ∀ label : Label, label.id < next →
        (move next none (parts.flatMap Stretch.nodes)).moves.reverse.lookup label =
          (landings next parts).reverse.lookup label := by
  induction parts generalizing next with
  | nil => exact ⟨rfl, rfl, fun label below => rfl⟩
  | cons part parts ih =>
    rw [List.tail_cons] at apart
    obtain ⟨nodes, count, lookups⟩ := ih (next + part.crossings) fun later member =>
      apart later (List.mem_of_mem_tail member)
    rw [move_stretch apart]
    refine ⟨?_, ?_, ?_⟩
    · change (move next none part.nodes).nodes ++ _ = part.crossed next ++ crossed (next + part.crossings) parts
      rw [part.nodes_move, nodes]
    · change ((move next none part.nodes).moves ++ _).length = part.crossings + crossings parts
      rw [List.length_append, part.length_moves, count]
    · intro label below
      have once : (part.landing? next).toList.reverse = (part.landing? next).toList := by
        cases part.landing? next <;> rfl
      rw [landings_cons, List.reverse_append, List.lookup_append, once, ← lookups label (by omega),
        ← part.lookup_moves below, ← List.lookup_append, ← List.reverse_append]
      rfl

/-! ### Normalization -/

theorem replacement_eq_landedLabel (landings : List (Label × Label)) (label : Label) :
    replacement landings label = landedLabel landings label := by
  unfold replacement landedLabel
  induction landings using List.reverseRecOn with
  | nil => rfl
  | append_singleton landings last ih =>
    obtain ⟨old, new⟩ := last
    rw [List.reverse_append, List.filter_append]
    by_cases same : old = label
    · simp [same]
    · have miss : (label == old) = false := beq_false_of_ne (Ne.symm same)
      simpa [List.lookup_cons, same, miss] using ih

/-- Patching looks at the labels on the operand stack of a frame. -/
theorem Node.moved_eq_landed {moves landings : List (Label × Label)} {node : Node Label}
    (agree : ∀ label ∈ node.labels, replacement moves label = landedLabel landings label) :
    node.moved moves = node.landed landings := by
  cases node with
  | frame shape =>
    have stack : shape.stack.map (Slot.moved moves) = shape.stack.map (Slot.relabel (landedLabel landings)) := by
      refine List.map_congr_left fun slot member => ?_
      cases slot with
      | uninitialized site =>
        have mentioned : site ∈ (Node.frame shape).labels :=
          List.mem_flatMap.mpr ⟨_, List.mem_append_right _ member, List.mem_singleton.mpr rfl⟩
        exact congrArg Slot.uninitialized (agree site mentioned)
      | _ => rfl
    rw [Node.moved, Node.landed, stack]
  | _ => rfl

/-- Normalization of a method in which the line marks before frames start at placed labels, in closed form. The stream
falls into stretches that end where the run of frames ends. Every line mark crosses the frames of its stretch, its new
labels are numbered in stream order, and the operand stacks of all frames have the first new label of the last such mark
in place of the label at which it started. -/
theorem normalize_crosses (m : Method) (bounded : m.Bounded)
    (placed : ∀ mark shape, [.line mark, .frame shape] <:+: m.nodes → mark.start ∈ placements m.nodes) :
    let parts := stretches m.nodes
    parts.flatMap Stretch.nodes = m.nodes ∧ (∀ part ∈ parts.tail, part.head.isFrame = false) ∧
      m.normalize =
        { method :=
            { m with
              nodes := (crossed m.numLabels parts).map (Node.landed (landings m.numLabels parts))
              labels := m.labels ++ (List.range' m.numLabels (crossings parts)).map fun id => "~" ++ toString id }
          result := .ok (crossings parts) } ∧
      m.normalize.method.numLabels = m.numLabels + crossings parts := by
  intro parts
  have whole : parts.flatMap Stretch.nodes = m.nodes := flatMap_stretches m.nodes
  have apart : ∀ part ∈ parts.tail, part.head.isFrame = false := head_of_mem_stretches m.nodes
  obtain ⟨nodes, count, lookups⟩ := move_stretches m.numLabels apart
  rw [whole] at nodes count lookups
  have framed : ∀ mark ∈ framedMarks m.nodes, mark.start ∈ placements m.nodes := by
    intro mark member
    obtain ⟨shape, found⟩ := mem_framedMarks.mp member
    exact placed mark shape found
  -- Frames come from the stream, so their labels are older than every new one.
  have patched : (crossed m.numLabels parts).map (Node.moved (move m.numLabels none m.nodes).moves) =
      (crossed m.numLabels parts).map (Node.landed (landings m.numLabels parts)) := by
    refine List.map_congr_left fun node member => ?_
    rw [← nodes] at member
    rcases mem_move_cases member with kept | rfl | ⟨label, -, rfl | ⟨number, rfl⟩⟩
    · refine Node.moved_eq_landed fun label mentioned => ?_
      rw [← replacement_eq_landedLabel, replacement, replacement,
        lookups label (bounded.nodes node kept label mentioned)]
    · rfl
    · rfl
    · rfl
  have fresh : (move m.numLabels none m.nodes).moves.map Prod.snd =
      (List.range' m.numLabels (crossings parts)).map Label.mk := by
    rw [map_snd_moves, count]
  have normalized := Method.normalize_eq_move framed
  simp only [nodes, count, patched, fresh, Method.extend, List.map_map] at normalized
  refine ⟨whole, apart, normalized, ?_⟩
  rw [normalized]
  simp [Method.numLabels]

/-- Two line marks start at the same label and cross frames, one of them two. A frame before both of them and one
between them refer to that label. -/
def Method.revisited : Method where
  name := "revisited"
  descriptor := "()V"
  labels := ["top", "site"]
  nodes :=
    [.label ⟨0⟩, .frame { kind := .full, locals := [.uninitialized ⟨1⟩], stack := [.uninitialized ⟨1⟩] },
      .label ⟨1⟩, .line { number := 1, start := ⟨1⟩ }, .frame { kind := .same, locals := [], stack := [] },
      .frame { kind := .full, locals := [], stack := [.uninitialized ⟨0⟩, .uninitialized ⟨1⟩] },
      .insn (.type .newObject "A"), .line { number := 2, start := ⟨1⟩ },
      .frame { kind := .same, locals := [], stack := [] }, .insn (.plain .returnVoid)]

theorem normalize_crosses_revisited :
    Method.revisited.Bounded ∧
      (∀ mark shape, [.line mark, .frame shape] <:+: Method.revisited.nodes →
        mark.start ∈ placements Method.revisited.nodes) ∧
      Method.revisited.normalize.result = .ok 3 ∧
      Method.revisited.normalize.method.labels = ["top", "site", "~2", "~3", "~4"] ∧
      Method.revisited.normalize.method.nodes =
        [.label ⟨0⟩, .frame { kind := .full, locals := [.uninitialized ⟨1⟩], stack := [.uninitialized ⟨4⟩] },
          .label ⟨1⟩, .frame { kind := .same, locals := [], stack := [] }, spacer, .label ⟨2⟩,
          .frame { kind := .full, locals := [], stack := [.uninitialized ⟨0⟩, .uninitialized ⟨4⟩] }, spacer, .label ⟨3⟩,
          .line { number := 1, start := ⟨3⟩ }, .insn (.type .newObject "A"),
          .frame { kind := .same, locals := [], stack := [] }, spacer, .label ⟨4⟩, .line { number := 2, start := ⟨4⟩ },
          .insn (.plain .returnVoid)] := by
  have bounded : Method.revisited.Bounded := by decide
  have framed : ∀ mark ∈ framedMarks Method.revisited.nodes, mark.start ∈ placements Method.revisited.nodes := by decide
  have placed : ∀ mark shape, [.line mark, .frame shape] <:+: Method.revisited.nodes →
      mark.start ∈ placements Method.revisited.nodes :=
    fun mark shape found => framed mark (mem_framedMarks.mpr ⟨shape, found⟩)
  obtain ⟨-, -, normalized, -⟩ := normalize_crosses Method.revisited bounded placed
  rw [normalized]
  exact ⟨bounded, placed, rfl, by decide, by decide⟩

end ProbePoints
