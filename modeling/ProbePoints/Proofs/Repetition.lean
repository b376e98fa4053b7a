import ProbePoints.Proofs.Preservation

/-!
# Normalizing twice

A second normalization finds nothing to do unless the first one brought a frame behind a line mark. That happens
exactly to `Chained` streams: where a line mark that moves leaves, the frame it crossed closes in on an earlier mark.
-/

namespace ProbePoints

/-! ### Chained streams -/

/-- Two line marks have only frames between them, if anything, and a frame directly follows the second. -/
def Chained (nodes : List (Node Label)) : Prop :=
  ∃ (first : LineMark Label) (shapes : List (Frame Label)) (second : LineMark Label) (shape : Frame Label),
    .line first :: (shapes.map .frame ++ [.line second, .frame shape]) <:+: nodes

/-- Past any frames comes a line mark that stands before a frame. -/
def framedMarkAhead : List (Node Label) → Bool
  | .frame _ :: rest => framedMarkAhead rest
  | .line _ :: rest => startsWithFrame rest
  | _ => false

/-- Decides `Chained`. -/
def chained : List (Node Label) → Bool
  | [] => false
  | .line _ :: rest => framedMarkAhead rest || chained rest
  | _ :: rest => chained rest

theorem framedMarkAhead_iff (nodes : List (Node Label)) :
    framedMarkAhead nodes = true ↔
      ∃ (shapes : List (Frame Label)) (second : LineMark Label) (shape : Frame Label),
        shapes.map .frame ++ [.line second, .frame shape] <+: nodes := by
  induction nodes with
  | nil => simp [framedMarkAhead]
  | cons node rest ih =>
    cases node with
    | frame here =>
      rw [framedMarkAhead, ih]
      constructor
      · rintro ⟨shapes, second, shape, found⟩
        exact ⟨here :: shapes, second, shape, by simpa using found⟩
      · rintro ⟨shapes, second, shape, found⟩
        cases shapes with
        | nil => simp [List.cons_prefix_cons] at found
        | cons first later =>
          exact ⟨later, second, shape, by simpa [List.cons_prefix_cons] using (List.cons_prefix_cons.mp found).2⟩
    | line mark =>
      rw [framedMarkAhead, startsWithFrame_iff]
      constructor
      · rintro ⟨shape, found⟩
        exact ⟨[], mark, shape, by simpa [List.cons_prefix_cons] using found⟩
      · rintro ⟨shapes, second, shape, found⟩
        cases shapes with
        | nil => exact ⟨shape, (List.cons_prefix_cons.mp found).2⟩
        | cons first later => simp [List.cons_prefix_cons] at found
    | insn instruction =>
      refine iff_of_false (by simp [framedMarkAhead]) ?_
      rintro ⟨shapes, second, shape, found⟩
      cases shapes <;> simp [List.cons_prefix_cons] at found
    | label here =>
      refine iff_of_false (by simp [framedMarkAhead]) ?_
      rintro ⟨shapes, second, shape, found⟩
      cases shapes <;> simp [List.cons_prefix_cons] at found

theorem chained_iff (nodes : List (Node Label)) : chained nodes = true ↔ Chained nodes := by
  unfold Chained
  induction nodes with
  | nil => simp [chained]
  | cons node rest ih =>
    simp only [List.infix_cons_iff, exists_or, ← ih, List.cons_prefix_cons]
    cases node with
    | line mark =>
      have ahead : framedMarkAhead rest = true ↔ ∃ (first : LineMark Label)
          (shapes : List (Frame Label)) (second : LineMark Label) (shape : Frame Label), Node.line first = .line mark ∧
            shapes.map .frame ++ [.line second, .frame shape] <+: rest := by
        rw [framedMarkAhead_iff]
        simp
      rw [chained, Bool.or_eq_true, ahead]
    | insn instruction => simp [chained]
    | label here => simp [chained]
    | frame shape => simp [chained]

instance (nodes : List (Node Label)) : Decidable (Chained nodes) := decidable_of_iff _ (chained_iff nodes)

/-! ### Settling a chained stream -/

theorem startsWithFrame_move (next : Nat) (mark : LineMark Label) (nodes : List (Node Label)) :
    startsWithFrame (move next (some mark) nodes).nodes = startsWithFrame nodes := by
  cases nodes with
  | nil => rfl
  | cons node rest => cases node <;> rfl

/-- A settled stream has a line mark before a frame exactly if the stream was chained. -/
theorem framedMarks_move_eq_nil_iff (next : Nat) (pending : Option (LineMark Label)) (nodes : List (Node Label)) :
    framedMarks (move next pending nodes).nodes = [] ↔ chained (held pending ++ nodes) = false := by
  fun_induction move next pending nodes with
  | case1 next pending => cases pending <;> simp [held, framedMarks, chained, framedMarkAhead]
  | case2 next pending later rest ih =>
    simp only [Settled.prepend, framedMarks_held, startsWithFrame_move, List.append_eq_nil_iff, ih]
    cases pending with
    | none => simp [held]
    | some mark => cases framed : startsWithFrame rest <;> simp [held, chained, framedMarkAhead, framed]
  | case3 next mark shape rest ih =>
    have front : framedMarks ([.frame shape, spacer, .label ⟨next⟩] ++
          (move (next + 1) (some { mark with start := ⟨next⟩ }) rest).nodes) =
        framedMarks (move (next + 1) (some { mark with start := ⟨next⟩ }) rest).nodes := rfl
    simp only [Settled.precede, Settled.prepend, front, ih]
    rfl
  | case4 next pending node rest notLine notFrame ih =>
    have unmarked := mark?_eq_none notLine
    have later : chained (node :: rest) = chained rest := by cases node <;> first | rfl | cases unmarked
    cases pending with
    | none => simpa [Settled.prepend, held, framedMarks_cons unmarked, later] using ih
    | some mark =>
      have unframed : node.isFrame = false := (no_pending_frame notFrame).resolve_left (Option.some_ne_none mark)
      have apart : framedMarkAhead (node :: rest) = false := by
        cases node with
        | line mark => cases unmarked
        | frame shape => cases unframed
        | _ => rfl
      simpa [Settled.prepend, held, framedMarks_line, unframed, framedMarks_cons unmarked, chained, apart, later]
        using ih

theorem framedMarks_map_moved (moves : List (Label × Label)) (nodes : List (Node Label)) :
    framedMarks (nodes.map (Node.moved moves)) = framedMarks nodes := by
  induction nodes with
  | nil => rfl
  | cons node rest ih =>
    cases node with
    | line mark =>
      have ahead : startsWithFrame (rest.map (Node.moved moves)) = startsWithFrame rest := by
        cases rest with
        | nil => rfl
        | cons first later => cases first <;> rfl
      simp [Node.moved, framedMarks, ahead, ih]
    | insn instruction => exact ih
    | label here => exact ih
    | frame shape => exact ih

/-! ### A second run -/

/-- The stream that normalization leaves has a line mark before a frame exactly if the stream was chained. -/
theorem Method.framedMarks_normalize {m : Method} (valid : m.Valid) :
    framedMarks m.normalize.method.nodes = [] ↔ ¬Chained m.nodes := by
  simp only [normalize_eq_move valid.framed, extend, framedMarks_map_moved, ← chained_iff, Bool.not_eq_true]
  exact framedMarks_move_eq_nil_iff m.numLabels none m.nodes

/-- Normalization of a stream without line marks before frames changes nothing. -/
theorem Method.normalize_of_settled {m : Method} (settled : framedMarks m.nodes = []) :
    m.normalize = { method := m, result := .ok 0 } := by
  have none : (move m.numLabels none m.nodes).moves = [] := (moves_eq_nil_iff _ _ _).mpr settled
  have patch : Node.moved [] = id := by
    funext node
    cases node with
    | frame shape =>
      have slots : Slot.moved [] = id := by
        funext slot
        cases slot <;> rfl
      simp [Node.moved, slots]
    | _ => rfl
  rw [normalize_eq_move (by simp [settled])]
  simp [none, move_of_unframed none, held, patch, extend]

/-- Normalization succeeds; it brings every line mark behind the frames after it, and a second run changes nothing,
exactly if the stream is not chained. -/
theorem normalize_normalized_iff (m : Method) (valid : m.check = .ok ()) :
    (∃ count, m.normalize.result = .ok count) ∧
      ((¬Unsettled m.normalize.method.nodes ∧ m.normalize.method.normalize.result = .ok 0 ∧
        m.normalize.method.normalize.method.nodes = m.normalize.method.nodes ∧
        m.normalize.method.normalize.method.labels = m.normalize.method.labels ∧
        m.normalize.method.normalize.method.ranges = m.normalize.method.ranges) ↔ ¬Chained m.nodes) := by
  have sound := m.check_eq_ok_iff.mp valid
  refine ⟨⟨_, congrArg Outcome.result (Method.normalize_eq_move sound.framed)⟩, ?_⟩
  rw [unsettled_iff, not_not, ← Method.framedMarks_normalize sound]
  constructor
  · exact fun done => done.1
  · intro done
    rw [Method.normalize_of_settled done]
    exact ⟨done, rfl, rfl, rfl, rfl⟩

/-- A line mark that crosses two frames, after one that stays. -/
def Method.twoFrames : Method where
  name := "twoFrames"
  descriptor := "()V"
  labels := ["entry", "body"]
  nodes :=
    [.label ⟨0⟩, .line { number := 1, start := ⟨0⟩ }, .label ⟨1⟩, .line { number := 2, start := ⟨1⟩ },
      .frame { kind := .same, locals := [], stack := [] }, .frame { kind := .same, locals := [], stack := [] },
      .insn (.plain .returnVoid)]

theorem normalize_normalized_twoFrames :
    Method.twoFrames.check = .ok () ∧ ¬Chained Method.twoFrames.nodes ∧ Method.twoFrames.normalize.result = .ok 2 ∧
      Method.twoFrames.normalize.method.normalize.result = .ok 0 :=
  have unchained : ¬Chained Method.twoFrames.nodes := by decide
  ⟨rfl, unchained, rfl, ((normalize_normalized_iff Method.twoFrames rfl).2.mpr unchained).2.1⟩

/-- Two line marks before one frame. -/
def Method.twoLines : Method where
  name := "twoLines"
  descriptor := "()V"
  labels := ["entry"]
  nodes :=
    [.label ⟨0⟩, .line { number := 1, start := ⟨0⟩ }, .line { number := 2, start := ⟨0⟩ },
      .frame { kind := .same, locals := [], stack := [] }, .insn (.plain .returnVoid)]

/-- The first run moves the second mark only, and the second run moves the first. -/
theorem unsettled_normalize_twoLines :
    Method.twoLines.check = .ok () ∧ Method.twoLines.Bounded ∧ Method.twoLines.normalize.result = .ok 1 ∧
      Unsettled Method.twoLines.normalize.method.nodes ∧
      Method.twoLines.normalize.method.normalize.result = .ok 1 ∧
      Method.twoLines.normalize.method.normalize.method.nodes ≠ Method.twoLines.normalize.method.nodes := by
  decide

/-- A valid method can be normalized twice, and the second run moves a line mark exactly if the stream is chained. -/
theorem second_run_moves_iff (m : Method) (valid : m.check = .ok ()) (bounded : m.Bounded) :
    ∃ first second, m.normalize.result = .ok first ∧ m.normalize.method.normalize.result = .ok second ∧
      (1 ≤ second ↔ Chained m.nodes) := by
  have sound := m.check_eq_ok_iff.mp valid
  have firstRun := congrArg Outcome.result (Method.normalize_eq_move sound.framed)
  have secondRun := congrArg Outcome.result (Method.normalize_eq_move (sound.normalize bounded).framed)
  refine ⟨_, _, firstRun, secondRun, ?_⟩
  have moves := moves_eq_nil_iff m.normalize.method.numLabels none m.normalize.method.nodes
  rw [show held none ++ m.normalize.method.nodes = m.normalize.method.nodes from rfl,
    Method.framedMarks_normalize sound] at moves
  rw [Nat.one_le_iff_ne_zero, Ne, List.length_eq_zero_iff, moves, not_not]

/-- Two line marks in a row, each before a frame of its own. -/
def Method.twoStages : Method where
  name := "twoStages"
  descriptor := "()V"
  labels := ["entry", "body"]
  nodes :=
    [.label ⟨0⟩, .label ⟨1⟩, .line { number := 1, start := ⟨0⟩ }, .frame { kind := .same, locals := [], stack := [] },
      .line { number := 2, start := ⟨1⟩ }, .frame { kind := .same, locals := [], stack := [] },
      .insn (.plain .returnVoid)]

theorem second_run_moves_twoStages :
    Method.twoStages.check = .ok () ∧ Method.twoStages.Bounded ∧ Chained Method.twoStages.nodes ∧
      ∃ first second, Method.twoStages.normalize.result = .ok first ∧
        Method.twoStages.normalize.method.normalize.result = .ok second ∧ 1 ≤ second := by
  have bounded : Method.twoStages.Bounded := by decide
  have chained : Chained Method.twoStages.nodes := by decide
  obtain ⟨first, second, firstRun, secondRun, moves⟩ := second_run_moves_iff Method.twoStages rfl bounded
  exact ⟨rfl, bounded, chained, first, second, firstRun, secondRun, moves.mpr chained⟩

end ProbePoints
