import Mathlib.Data.Set.Card
import ProbePoints.Proofs.Names
import ProbePoints.Proofs.Repetition

/-!
# Normalizing over and over

A run can bring a frame behind an earlier line mark, so a method may need several runs. What goes down is the number of
marks that still wait for a frame: `waiting` counts the marks that have one ahead in the block of marks and frames they
stand in. The last waiting mark of a block crosses its frames and is done, so no method needs more runs than it has line
marks.
-/

namespace ProbePoints

/-! ### Marks that wait for a frame -/

/-- A frame comes before any label and any instruction. -/
def frameAhead : List (Node Label) → Bool
  | .frame _ :: _ => true
  | .line _ :: rest => frameAhead rest
  | _ => false

/-- The number of line marks that have a frame ahead. -/
def waiting : List (Node Label) → Nat
  | [] => 0
  | .line _ :: rest => waiting rest + if frameAhead rest then 1 else 0
  | _ :: rest => waiting rest

theorem frameAhead_cons {node : Node Label} (noMark : node.mark? = none) (rest : List (Node Label)) :
    frameAhead (node :: rest) = node.isFrame := by
  cases node <;> first | rfl | cases noMark

theorem waiting_cons {node : Node Label} (noMark : node.mark? = none) (rest : List (Node Label)) :
    waiting (node :: rest) = waiting rest := by
  cases node <;> first | rfl | cases noMark

theorem waiting_held (pending : Option (LineMark Label)) (nodes : List (Node Label)) :
    waiting (held pending ++ nodes) = waiting nodes + if pending.isSome && frameAhead nodes then 1 else 0 := by
  cases pending with
  | none => rfl
  | some mark => rfl

theorem waiting_le (nodes : List (Node Label)) : waiting nodes ≤ (nodes.filterMap Node.mark?).length := by
  induction nodes with
  | nil => exact Nat.le_refl 0
  | cons node rest ih =>
    cases node with
    | line mark =>
      have marked : ((Node.line mark :: rest).filterMap Node.mark?).length =
          (rest.filterMap Node.mark?).length + 1 := rfl
      rw [waiting, marked]
      split <;> omega
    | insn instruction => exact ih
    | label here => exact ih
    | frame shape => exact ih

/-- The last mark before a frame ahead stands directly before it. -/
theorem framed_of_frameAhead {rest : List (Node Label)} (ahead : frameAhead rest = true) (mark : LineMark Label) :
    framedMarks (.line mark :: rest) ≠ [] := by
  induction rest generalizing mark with
  | nil => cases ahead
  | cons node rest ih =>
    cases node with
    | frame shape => simp [framedMarks, Node.isFrame]
    | line later =>
      intro none
      rw [framedMarks_line] at none
      exact ih ahead later (List.append_eq_nil_iff.mp none).2
    | insn instruction => cases ahead
    | label here => cases ahead

/-! ### One run -/

theorem frameAhead_move (next : Nat) (pending : Option (LineMark Label)) (nodes : List (Node Label)) :
    frameAhead (move next pending nodes).nodes = frameAhead (held pending ++ nodes) := by
  have past : ∀ (pending : Option (LineMark Label)) (nodes : List (Node Label)),
      frameAhead (held pending ++ nodes) = frameAhead nodes := by
    intro pending nodes
    cases pending <;> rfl
  rw [past]
  fun_induction move next pending nodes with
  | case1 next pending => simpa using past pending []
  | case2 next pending later rest ih =>
    rw [Settled.prepend, past, ih]
    rfl
  | case3 next mark shape rest ih => rfl
  | case4 next pending node rest notLine notFrame ih =>
    have unmarked := mark?_eq_none notLine
    rw [Settled.prepend, List.append_assoc, past, List.singleton_append, frameAhead_cons unmarked,
      frameAhead_cons unmarked]

/-- No mark begins to wait when a stream is settled, and where a mark moves, one has stopped to wait. -/
theorem waiting_move (next : Nat) (pending : Option (LineMark Label)) (nodes : List (Node Label)) :
    waiting (move next pending nodes).nodes ≤ waiting (held pending ++ nodes) ∧
      ((move next pending nodes).moves ≠ [] →
        waiting (move next pending nodes).nodes < waiting (held pending ++ nodes)) := by
  fun_induction move next pending nodes with
  | case1 next pending =>
    refine ⟨by simp, ?_⟩
    intro moved
    exact absurd rfl moved
  | case2 next pending later rest ih =>
    have front : waiting (held pending ++ (move next (some later) rest).nodes) =
        waiting (move next (some later) rest).nodes +
          if pending.isSome && frameAhead (held (some later) ++ rest) then 1 else 0 := by
      rw [waiting_held, frameAhead_move]
    have back : waiting (held pending ++ .line later :: rest) =
        waiting (held (some later) ++ rest) +
          if pending.isSome && frameAhead (held (some later) ++ rest) then 1 else 0 :=
      waiting_held pending (.line later :: rest)
    obtain ⟨le, lt⟩ := ih
    simp only [Settled.prepend, front, back]
    refine ⟨by omega, ?_⟩
    intro moved
    have less := lt moved
    omega
  | case3 next mark shape rest ih =>
    -- The mark that has crossed the frame waits on only if there is another frame ahead, and then a mark moves later.
    obtain ⟨le, lt⟩ := ih
    have crossed : waiting (move (next + 1) (some { mark with start := ⟨next⟩ }) rest).nodes < waiting rest + 1 := by
      rw [waiting_held] at le lt
      cases ahead : frameAhead rest with
      | true =>
        have moved : (move (next + 1) (some { mark with start := ⟨next⟩ }) rest).moves ≠ [] := by
          rw [Ne, moves_eq_nil_iff]
          exact framed_of_frameAhead ahead { mark with start := ⟨next⟩ }
        have less := lt moved
        simp only [ahead, Option.isSome_some, Bool.and_self, if_true] at less
        exact less
      | false =>
        simp only [ahead, Bool.and_false, Bool.false_eq_true, if_false] at le
        omega
    have before : waiting (held (some mark) ++ .frame shape :: rest) = waiting rest + 1 := rfl
    rw [before]
    exact ⟨Nat.le_of_lt crossed, fun _ => crossed⟩
  | case4 next pending node rest notLine notFrame ih =>
    have unmarked := mark?_eq_none notLine
    have apart : (pending.isSome && frameAhead (node :: rest)) = false := by
      rw [frameAhead_cons unmarked]
      rcases no_pending_frame notFrame with rfl | unframed
      · rfl
      · simp [unframed]
    have front : waiting (held pending ++ [node] ++ (move next none rest).nodes) =
        waiting (move next none rest).nodes := by
      have same : (pending.isSome && frameAhead (node :: (move next none rest).nodes)) = false := by
        rw [frameAhead_cons unmarked, ← frameAhead_cons unmarked rest]
        exact apart
      rw [List.append_assoc, List.singleton_append, waiting_held, same, waiting_cons unmarked]
      rfl
    have back : waiting (held pending ++ node :: rest) = waiting (held none ++ rest) := by
      rw [waiting_held, apart, waiting_cons unmarked]
      rfl
    rw [Settled.prepend, front, back]
    exact ih

theorem waiting_map_moved (moves : List (Label × Label)) (nodes : List (Node Label)) :
    waiting (nodes.map (Node.moved moves)) = waiting nodes := by
  have ahead : ∀ nodes : List (Node Label), frameAhead (nodes.map (Node.moved moves)) = frameAhead nodes := by
    intro nodes
    induction nodes with
    | nil => rfl
    | cons node rest ih => cases node <;> first | rfl | exact ih
  induction nodes with
  | nil => rfl
  | cons node rest ih =>
    cases node with
    | line mark =>
      rw [List.map_cons, show (Node.line mark).moved moves = .line mark from rfl, waiting, waiting, ih, ahead]
    | insn instruction => exact ih
    | label here => exact ih
    | frame shape => exact ih

namespace Method

theorem Valid.result_normalize {m : Method} (valid : m.Valid) :
    m.normalize.result = .ok (move m.numLabels none m.nodes).moves.length :=
  congrArg Outcome.result (normalize_eq_move valid.framed)

/-- A run that moves a mark leaves fewer marks that wait. -/
theorem waiting_normalize {m : Method} (valid : m.Valid) (moved : m.normalize.result ≠ .ok 0) :
    waiting m.normalize.method.nodes < waiting m.nodes := by
  have some : (move m.numLabels none m.nodes).moves ≠ [] := by
    intro none
    apply moved
    rw [valid.result_normalize, none, List.length_nil]
  rw [normalize_eq_move valid.framed]
  simp only [extend, waiting_map_moved]
  exact (waiting_move m.numLabels none m.nodes).2 some

/-- A run that moves nothing had nothing to move. -/
theorem settled_of_normalize {m : Method} (valid : m.Valid) (unmoved : m.normalize.result = .ok 0) :
    framedMarks m.nodes = [] := by
  rw [valid.result_normalize] at unmoved
  have none : (move m.numLabels none m.nodes).moves = [] := List.length_eq_zero_iff.mp (Except.ok.inj unmoved)
  exact (moves_eq_nil_iff m.numLabels .none m.nodes).mp none

/-! ### Many runs -/

theorem Valid.afterRuns {m : Method} (valid : m.Valid) (bounded : m.Bounded) (runs : Nat) :
    (m.afterRuns runs).Valid ∧ (m.afterRuns runs).Bounded := by
  induction runs with
  | zero => exact ⟨valid, bounded⟩
  | succ runs ih =>
    obtain ⟨stillValid, stillBounded⟩ := ih
    exact ⟨stillValid.normalize stillBounded, stillBounded.normalize stillValid⟩

/-- After a run that moves nothing the method stays as it is. -/
theorem afterRuns_of_settled {m : Method} {runs : Nat} (settled : framedMarks (m.afterRuns runs).nodes = [])
    {later : Nat} (after : runs ≤ later) : m.afterRuns later = m.afterRuns runs := by
  induction later, after using Nat.le_induction with
  | base => rfl
  | succ later after ih =>
    rw [Method.afterRuns, ih, normalize_of_settled settled]

/-- Each run that moves a mark takes one off the marks that wait. A run that moves one comes after such runs only. -/
theorem waiting_afterRuns {m : Method} (valid : m.Valid) (bounded : m.Bounded) {runs : Nat}
    (moved : (m.afterRuns runs).normalize.result ≠ .ok 0) :
    runs + waiting (m.afterRuns runs).nodes ≤ waiting m.nodes := by
  induction runs with
  | zero => exact (Nat.zero_add _).le
  | succ runs ih =>
    obtain ⟨stillValid, -⟩ := valid.afterRuns bounded runs
    have movedBefore : (m.afterRuns runs).normalize.result ≠ .ok 0 := by
      intro unmoved
      have settled := settled_of_normalize stillValid unmoved
      have same := afterRuns_of_settled settled (Nat.le_add_right runs 1)
      rw [same] at moved
      exact moved unmoved
    have bound := ih movedBefore
    have less : waiting (m.afterRuns (runs + 1)).nodes < waiting (m.afterRuns runs).nodes :=
      waiting_normalize stillValid movedBefore
    omega

/-- A valid method can be normalized any number of times. At most as many runs as it has line marks move a mark, and
once a run moves none, no mark stands before a frame and no later run changes the method. -/
theorem normalization_converges (m : Method) (accepted : m.check = .ok ()) (bounded : m.Bounded) :
    (∀ runs, ∃ count, (m.afterRuns runs).normalize.result = .ok count) ∧
      {runs | (m.afterRuns runs).normalize.result ≠ .ok 0}.encard ≤ (m.nodes.filterMap Node.mark?).length ∧
      ∀ runs, (m.afterRuns runs).normalize.result = .ok 0 → ∀ later, runs ≤ later →
        ¬Unsettled (m.afterRuns later).nodes ∧ (m.afterRuns later).normalize.result = .ok 0 ∧
          m.afterRuns later = m.afterRuns runs := by
  have valid := m.check_eq_ok_iff.mp accepted
  refine ⟨?_, ?_, ?_⟩
  · intro runs
    obtain ⟨stillValid, -⟩ := valid.afterRuns bounded runs
    exact ⟨_, stillValid.result_normalize⟩
  · have early : {runs | (m.afterRuns runs).normalize.result ≠ .ok 0} ⊆ Finset.range (waiting m.nodes) := by
      intro runs moved
      obtain ⟨stillValid, -⟩ := valid.afterRuns bounded runs
      have bound := waiting_afterRuns valid bounded moved
      have less := waiting_normalize stillValid moved
      exact Finset.mem_coe.mpr (Finset.mem_range.mpr (by omega))
    calc {runs | (m.afterRuns runs).normalize.result ≠ .ok 0}.encard
        ≤ (Finset.range (waiting m.nodes) : Set Nat).encard := Set.encard_le_encard early
      _ = waiting m.nodes := by rw [Set.encard_coe_eq_coe_finsetCard, Finset.card_range]
      _ ≤ (m.nodes.filterMap Node.mark?).length := Nat.cast_le.mpr (waiting_le m.nodes)
  · intro runs unmoved later after
    obtain ⟨stillValid, -⟩ := valid.afterRuns bounded runs
    have settled := settled_of_normalize stillValid unmoved
    have same := afterRuns_of_settled settled after
    rw [same]
    refine ⟨?_, unmoved, rfl⟩
    rw [unsettled_iff, not_not]
    exact settled

/-- A line mark before a frame, and two more before the next one. The frames close in on the first mark twice. -/
def threeStages : Method where
  name := "threeStages"
  descriptor := "()V"
  labels := ["entry"]
  nodes :=
    [.label ⟨0⟩, .line { number := 1, start := ⟨0⟩ }, .frame { kind := .same, locals := [], stack := [] },
      .line { number := 2, start := ⟨0⟩ }, .line { number := 3, start := ⟨0⟩ },
      .frame { kind := .full, locals := [], stack := [.uninitialized ⟨0⟩] }, .insn (.type .newObject "A"),
      .insn (.plain .returnVoid)]

theorem normalization_converges_threeStages :
    threeStages.check = .ok () ∧ threeStages.Bounded ∧
      threeStages.normalize.result = .ok 2 ∧ (threeStages.afterRuns 1).normalize.result = .ok 1 ∧
      (threeStages.afterRuns 2).normalize.result = .ok 1 ∧ (threeStages.afterRuns 3).normalize.result = .ok 0 ∧
      {runs | (threeStages.afterRuns runs).normalize.result ≠ .ok 0}.encard ≤ (3 : Nat) ∧
      ∀ later, 3 ≤ later →
        ¬Unsettled (threeStages.afterRuns later).nodes ∧ threeStages.afterRuns later = threeStages.afterRuns 3 := by
  have bounded : threeStages.Bounded := by decide
  obtain ⟨-, few, done⟩ := normalization_converges threeStages rfl bounded
  refine ⟨rfl, bounded, rfl, rfl, rfl, rfl, few, ?_⟩
  intro later after
  obtain ⟨settled, -, same⟩ := done 3 rfl later after
  exact ⟨settled, same⟩

end Method

end ProbePoints
