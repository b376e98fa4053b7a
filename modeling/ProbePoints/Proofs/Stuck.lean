import ProbePoints.Proofs.Crossings
import ProbePoints.Proofs.Sites

/-!
# Normalization that fails

A line mark directly before a frame is stuck if its label is placed nowhere. The labels that earlier marks move to are
new, so none of them stands in for a label that is missing. Normalization therefore fails at the first mark that is stuck
in the stream as it was: what comes before is settled, the rest stays, and no frame is patched.
-/

namespace ProbePoints

/-! ### The first stuck mark -/

/-- The first line mark of a stream that stands directly before a frame and starts at a label which is placed nowhere. -/
structure FirstStuck (nodes before : List (Node Label)) (mark : LineMark Label) (shape : Frame Label)
    (after : List (Node Label)) : Prop where
  stream : nodes = before ++ .line mark :: .frame shape :: after
  missing : mark.start ∉ placements nodes
  earlier : ∀ other shape, [.line other, .frame shape] <:+: before → other.start ∈ placements nodes

theorem startsWithFrame_append_line (before : List (Node Label)) (mark : LineMark Label) (after : List (Node Label)) :
    startsWithFrame (before ++ .line mark :: after) = startsWithFrame before := by
  cases before <;> rfl

/-- A line mark directly before a frame splits the stream, and with it the other marks of that kind. -/
theorem exists_split_framed {nodes : List (Node Label)} {front back : List (LineMark Label)} {mark : LineMark Label}
    (same : framedMarks nodes = front ++ mark :: back) :
    ∃ before shape after, nodes = before ++ .line mark :: .frame shape :: after ∧ framedMarks before = front := by
  induction nodes generalizing front with
  | nil => simp [framedMarks] at same
  | cons node rest ih =>
    cases node with
    | line here =>
      rw [framedMarks_line] at same
      by_cases framed : startsWithFrame rest = true
      · rw [if_pos framed, List.singleton_append] at same
        cases front with
        | nil =>
          obtain ⟨rfl, -⟩ := List.cons.inj same
          obtain ⟨shape, after, rfl⟩ := (startsWithFrame_iff rest).mp framed
          exact ⟨[], shape, after, rfl, rfl⟩
        | cons first others =>
          obtain ⟨rfl, later⟩ := List.cons.inj same
          obtain ⟨before, shape, after, rfl, found⟩ := ih later
          -- The frame behind this mark belongs to the part before the other one.
          rw [startsWithFrame_append_line] at framed
          exact ⟨.line here :: before, shape, after, rfl, by rw [framedMarks_line, if_pos framed, found]; rfl⟩
      · rw [if_neg framed] at same
        obtain ⟨before, shape, after, rfl, found⟩ := ih same
        rw [startsWithFrame_append_line] at framed
        exact ⟨.line here :: before, shape, after, rfl, by rw [framedMarks_line, if_neg framed, found]; rfl⟩
    | insn instruction =>
      obtain ⟨before, shape, after, rfl, found⟩ := ih same
      exact ⟨.insn instruction :: before, shape, after, rfl, found⟩
    | label here =>
      obtain ⟨before, shape, after, rfl, found⟩ := ih same
      exact ⟨.label here :: before, shape, after, rfl, found⟩
    | frame here =>
      obtain ⟨before, shape, after, rfl, found⟩ := ih same
      exact ⟨.frame here :: before, shape, after, rfl, found⟩

theorem exists_firstStuck {nodes : List (Node Label)}
    (stuck : ∃ mark ∈ framedMarks nodes, mark.start ∉ placements nodes) :
    ∃ before mark shape after, FirstStuck nodes before mark shape after := by
  have found : ((framedMarks nodes).find? fun mark => decide (mark.start ∉ placements nodes)).isSome = true := by
    rw [List.find?_isSome]
    simpa using stuck
  obtain ⟨mark, found⟩ := Option.isSome_iff_exists.mp found
  obtain ⟨missing, front, back, same, first⟩ := List.find?_eq_some_iff_append.mp found
  obtain ⟨before, shape, after, stream, marks⟩ := exists_split_framed same
  refine ⟨before, mark, shape, after, stream, by simpa using missing, ?_⟩
  intro other shape there
  have member : other ∈ front := marks ▸ mem_framedMarks.mpr ⟨shape, there⟩
  simpa using first other member

theorem FirstStuck.old {m : Method} {before after : List (Node Label)} {mark : LineMark Label} {shape : Frame Label}
    (stuck : FirstStuck m.nodes before mark shape after) (bounded : m.Bounded) : mark.start.id < m.numLabels := by
  have member : .line mark ∈ m.nodes := by
    rw [stuck.stream]
    simp
  exact bounded.nodes _ member mark.start (by simp [Node.labels])

/-! ### Settling up to it -/

theorem settle_stuck {placed : List Label} (next : Nat) {mark : LineMark Label} (shape : Frame Label)
    (after : List (Node Label)) (missing : mark.start ∉ placed) :
    settle placed next none (.line mark :: .frame shape :: after) =
      { nodes := .line mark :: .frame shape :: after, stuck := some mark } := by
  rw [settle, settle, if_neg missing]

namespace Method

theorem settled_of_stuck {m : Method} (bounded : m.Bounded) {before after : List (Node Label)} {mark : LineMark Label}
    {shape : Frame Label} (stuck : FirstStuck m.nodes before mark shape after) :
    m.settled = (move m.numLabels none before).append
      { nodes := .line mark :: .frame shape :: after, stuck := some mark } := by
  have start : ∀ other ∈ framedMarks (held none ++ before), other.start ∈ placements m.nodes := by
    intro other member
    obtain ⟨shape, there⟩ := mem_framedMarks.mp member
    exact stuck.earlier other shape there
  -- New labels are numbered from `numLabels` on, and the missing one has a smaller number.
  have old := stuck.old bounded
  have missing : mark.start ∉
      ((move m.numLabels none before).moves.map Prod.snd).reverse ++ placements m.nodes := by
    rw [List.mem_append, List.mem_reverse, mem_new_iff]
    rintro (⟨above, -⟩ | placed)
    · omega
    · exact stuck.missing placed
  unfold settled
  nth_rewrite 2 [stuck.stream]
  rw [settle_append _ _ start rfl, settle_stuck _ shape after missing]

theorem normalize_of_stuck {m : Method} (bounded : m.Bounded) {before after : List (Node Label)} {mark : LineMark Label}
    {shape : Frame Label} (stuck : FirstStuck m.nodes before mark shape after) :
    m.normalize =
      { method := m.extend ((move m.numLabels none before).nodes ++ .line mark :: .frame shape :: after)
          ((move m.numLabels none before).moves.map Prod.snd)
        result := .error (.inconsistent (.unplacedLine mark.number (m.displayName mark.start)) m.name) } := by
  have kept (nodes : List (Node Label)) (fresh : List Label) :
      (m.extend nodes fresh).displayName mark.start = m.displayName mark.start :=
    displayName_of_append rfl (stuck.old bounded)
  simp only [normalize, settled_of_stuck bounded stuck, Settled.append, List.append_nil, kept]

/-! ### Failure -/

theorem normalize_fails_iff {m : Method} (bounded : m.Bounded) :
    (∃ rejection, m.normalize.result = .error rejection) ↔
      ∃ before mark shape after, FirstStuck m.nodes before mark shape after := by
  constructor
  · rintro ⟨rejection, failed⟩
    by_contra none
    have start : ∀ mark ∈ framedMarks m.nodes, mark.start ∈ placements m.nodes := by
      intro mark member
      by_contra missing
      exact none (exists_firstStuck ⟨mark, member, missing⟩)
    rw [normalize_eq_move start] at failed
    cases failed
  · rintro ⟨before, mark, shape, after, stuck⟩
    exact ⟨_, congrArg Outcome.result (normalize_of_stuck bounded stuck)⟩

/-- Normalization fails exactly if a line mark directly before a frame starts at a label that is placed nowhere. The
rejection tells about the first such mark. What is left has the stretches before that mark crossed and all nodes from it
on as they were; every frame is as it was, and there are as many new labels as frames have been crossed. -/
theorem normalize_fails_at_first_stuck (m : Method) (bounded : m.Bounded) :
    ((∃ rejection, m.normalize.result = .error rejection) ↔
        ∃ mark shape, [.line mark, .frame shape] <:+: m.nodes ∧ mark.start ∉ placements m.nodes) ∧
      ((∃ rejection, m.normalize.result = .error rejection) →
        ∃ before mark shape after, FirstStuck m.nodes before mark shape after) ∧
      ∀ before mark shape after, FirstStuck m.nodes before mark shape after →
        m.normalize =
          { method :=
              { m with
                nodes := crossed m.numLabels (stretches before) ++ .line mark :: .frame shape :: after
                labels := m.labels ++
                  (List.range' m.numLabels (crossings (stretches before))).map fun id => "~" ++ toString id }
            result := .error (.inconsistent (.unplacedLine mark.number (m.displayName mark.start)) m.name) } ∧
        (Rejection.inconsistent (.unplacedLine mark.number (m.displayName mark.start)) m.name).message =
          s!"structural inconsistency in method '{m.name}': " ++
            s!"line {mark.number.toNat} starts at label '{m.displayName mark.start}' which is not placed in the method" ∧
        frames m.normalize.method.nodes = frames m.nodes ∧
        m.normalize.method.numLabels = m.numLabels + crossings (stretches before) := by
  refine ⟨?_, (normalize_fails_iff bounded).mp, ?_⟩
  · rw [normalize_fails_iff bounded]
    constructor
    · rintro ⟨before, mark, shape, after, stuck⟩
      exact ⟨mark, shape, ⟨before, after, by simp [stuck.stream]⟩, stuck.missing⟩
    · rintro ⟨mark, shape, found, missing⟩
      exact exists_firstStuck ⟨mark, mem_framedMarks.mpr ⟨shape, found⟩, missing⟩
  · intro before mark shape after stuck
    have normalized := normalize_of_stuck bounded stuck
    obtain ⟨nodes, count, -⟩ := move_stretches m.numLabels (head_of_mem_stretches before)
    rw [flatMap_stretches] at nodes count
    have fresh : (move m.numLabels none before).moves.map Prod.snd =
        (List.range' m.numLabels (crossings (stretches before))).map Label.mk := by
      rw [map_snd_moves, count]
    refine ⟨?_, rfl, ?_, ?_⟩
    · rw [normalized, extend, nodes, fresh, List.map_map]
      rfl
    · rw [normalized, stuck.stream]
      simp only [extend, frames, List.filterMap_append]
      exact congrArg (· ++ _) (frames_move m.numLabels before)
    · rw [normalized, ← count]
      simp [extend, numLabels]

/-- Two line marks whose labels are placed nowhere, behind one that crosses two frames. Two frames refer to the label at
which that one starts. -/
def halfway : Method where
  name := "halfway"
  descriptor := "()V"
  labels := ["top", "site", "nowhere", "away"]
  nodes :=
    [.label ⟨0⟩, .frame { kind := .full, locals := [], stack := [.uninitialized ⟨1⟩] }, .label ⟨1⟩,
      .line { number := 1, start := ⟨1⟩ }, .frame { kind := .same, locals := [], stack := [] },
      .frame { kind := .same1, locals := [], stack := [.basic .int] }, .line { number := 2, start := ⟨2⟩ },
      .frame { kind := .full, locals := [], stack := [.uninitialized ⟨1⟩] }, .line { number := 3, start := ⟨3⟩ },
      .frame { kind := .same, locals := [], stack := [] }, .insn (.plain .returnVoid)]

theorem normalize_fails_at_first_stuck_halfway :
    halfway.Bounded ∧
      halfway.normalize.result = .error (.inconsistent (.unplacedLine 2 "nowhere") "halfway") ∧
      halfway.normalize.method.labels = ["top", "site", "nowhere", "away", "~4", "~5"] ∧
      halfway.normalize.method.nodes =
        [.label ⟨0⟩, .frame { kind := .full, locals := [], stack := [.uninitialized ⟨1⟩] }, .label ⟨1⟩,
          .frame { kind := .same, locals := [], stack := [] }, spacer, .label ⟨4⟩,
          .frame { kind := .same1, locals := [], stack := [.basic .int] }, spacer, .label ⟨5⟩,
          .line { number := 1, start := ⟨5⟩ }, .line { number := 2, start := ⟨2⟩ },
          .frame { kind := .full, locals := [], stack := [.uninitialized ⟨1⟩] }, .line { number := 3, start := ⟨3⟩ },
          .frame { kind := .same, locals := [], stack := [] }, .insn (.plain .returnVoid)] := by
  have bounded : halfway.Bounded := by decide
  have placed : ∀ mark ∈ framedMarks (halfway.nodes.take 6), mark.start ∈ placements halfway.nodes := by decide
  have stuck : FirstStuck halfway.nodes (halfway.nodes.take 6) { number := 2, start := ⟨2⟩ }
      { kind := .full, locals := [], stack := [.uninitialized ⟨1⟩] } (halfway.nodes.drop 8) :=
    ⟨rfl, by decide, fun other shape there => placed other (mem_framedMarks.mpr ⟨shape, there⟩)⟩
  obtain ⟨-, -, failure⟩ := normalize_fails_at_first_stuck halfway bounded
  obtain ⟨normalized, -, -, -⟩ := failure _ _ _ _ stuck
  rw [normalized]
  exact ⟨bounded, rfl, by decide, by decide⟩

end Method

end ProbePoints
