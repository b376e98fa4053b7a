import Mathlib.Data.List.Induction
import ProbePoints.Proofs.Analysis

/-!
# The lines of calls

A call stands under the last line mark before it. `callLine_iff_last_call` reads the line that the analysis keeps for a
label off the positions of the calls: it is that of the last call whose mark starts at the label.
-/

namespace ProbePoints

/-- The node at a position calls a method, and `mark` is the last line mark before it. -/
def CallUnder (nodes : List (Node Label)) (i : Nat) (mark : LineMark Label) : Prop :=
  (∃ node, nodes[i]? = some node ∧ node.isCall = true) ∧ lastMark? (nodes.take i) = some mark

theorem callUnder_nil (i : Nat) (mark : LineMark Label) : ¬CallUnder [] i mark := by
  rintro ⟨⟨node, found, -⟩, -⟩
  simp at found

theorem CallUnder.lt_length {nodes : List (Node Label)} {i : Nat} {mark : LineMark Label}
    (called : CallUnder nodes i mark) : i < nodes.length := by
  obtain ⟨⟨node, found, -⟩, -⟩ := called
  exact (List.getElem?_eq_some_iff.mp found).1

theorem CallUnder.mark_unique {nodes : List (Node Label)} {i : Nat} {mark other : LineMark Label}
    (called : CallUnder nodes i mark) (again : CallUnder nodes i other) : mark = other :=
  Option.some.inj (called.2.symm.trans again.2)

/-- One more node at the end of a stream leaves its calls alone, and may be one. -/
theorem callUnder_concat (nodes : List (Node Label)) (node : Node Label) (i : Nat) (mark : LineMark Label) :
    CallUnder (nodes ++ [node]) i mark ↔
      CallUnder nodes i mark ∨ i = nodes.length ∧ node.isCall = true ∧ lastMark? nodes = some mark := by
  unfold CallUnder
  rcases Nat.lt_trichotomy i nodes.length with before | rfl | behind
  · have notLast : i ≠ nodes.length := by omega
    rw [List.getElem?_append_left before, List.take_append_of_le_length (by omega)]
    simp [notLast]
  · simp
  · have notLast : i ≠ nodes.length := by omega
    have absent : (nodes ++ [node])[i]? = none := List.getElem?_eq_none (by simp; omega)
    have gone : nodes[i]? = none := List.getElem?_eq_none (by omega)
    simp [absent, gone, notLast]

/-- The last call whose line mark starts at a label. -/
def LastCallFrom (nodes : List (Node Label)) (label : Label) (i : Nat) (mark : LineMark Label) : Prop :=
  CallUnder nodes i mark ∧ mark.start = label ∧
    ∀ j other, i < j → CallUnder nodes j other → other.start ≠ label

theorem LastCallFrom.unique {nodes : List (Node Label)} {label : Label} {i j : Nat} {mark other : LineMark Label}
    (last : LastCallFrom nodes label i mark) (also : LastCallFrom nodes label j other) : mark = other := by
  obtain ⟨called, start, latest⟩ := last
  obtain ⟨alsoCalled, alsoStart, alsoLatest⟩ := also
  rcases Nat.lt_trichotomy i j with before | rfl | behind
  · exact absurd alsoStart (latest j other before alsoCalled)
  · exact called.mark_unique alsoCalled
  · exact absurd start (alsoLatest i mark behind called)

/-- The line that the call marks of a stream give to a label. The induction is on the stream from its end: a call under
a mark of the label overwrites what was there, and any other node keeps it. -/
theorem lineAt_callMarks (nodes : List (Node Label)) (label : Label) :
    match lineAt (callMarks nodes) label with
    | none => ∀ i mark, CallUnder nodes i mark → mark.start ≠ label
    | some number => ∃ i mark, LastCallFrom nodes label i mark ∧ mark.number = number := by
  induction nodes using List.reverseRecOn with
  | nil =>
    intro i mark called
    exact absurd called (callUnder_nil i mark)
  | append_singleton nodes node ih =>
    rw [callMarks_concat, lineAt_append]
    by_cases overwrites : node.isCall = true ∧ ∃ mark, lastMark? nodes = some mark ∧ mark.start = label
    · obtain ⟨call, mark, active, start⟩ := overwrites
      have written : lineAt (if node.isCall then (lastMark? nodes).toList else []) label = some mark.number := by
        simp [call, active, lineAt_singleton, start]
      rw [written]
      refine ⟨nodes.length, mark, ⟨?_, start, fun j other later called => ?_⟩, rfl⟩
      · exact (callUnder_concat ..).mpr (.inr ⟨rfl, call, active⟩)
      · have bound := called.lt_length
        rw [List.length_append, List.length_singleton] at bound
        omega
    · have kept : lineAt (if node.isCall then (lastMark? nodes).toList else []) label = none := by
        split
        · rename_i call
          cases active : lastMark? nodes with
          | none => rfl
          | some mark =>
            have other : mark.start ≠ label := fun start => overwrites ⟨call, mark, active, start⟩
            simp [lineAt_singleton, other]
        · rfl
      have calls : ∀ i mark, mark.start = label → (CallUnder (nodes ++ [node]) i mark ↔ CallUnder nodes i mark) := by
        intro i mark start
        rw [callUnder_concat, or_iff_left]
        rintro ⟨-, call, active⟩
        exact overwrites ⟨call, mark, active, start⟩
      rw [kept, Option.none_or]
      split at ih
      · intro i mark called start
        exact ih i mark ((calls i mark start).mp called) start
      · obtain ⟨i, mark, ⟨called, start, latest⟩, number⟩ := ih
        refine ⟨i, mark, ⟨(calls i mark start).mpr called, start, fun j other later again same => ?_⟩, number⟩
        exact latest j other later ((calls j other same).mp again) same

namespace Method

/-- The line kept for a label is that of the last call under a line mark that starts at the label, on the method that
the analysis leaves behind. There is none exactly if no call stands under such a mark. -/
theorem callLine_iff_last_call (m : Method) (options : Options) (table : MarkTable)
    (analyzed : (m.analyze options).result = .ok table) (label : Label) :
    (∀ number, (table.get label).callLine = some number ↔
        ∃ i mark, LastCallFrom (m.analyze options).method.nodes label i mark ∧ mark.number = number) ∧
      ((table.get label).callLine = none ↔
        ∀ i mark, CallUnder (m.analyze options).method.nodes i mark → mark.start ≠ label) := by
  obtain ⟨final, rfl, described⟩ := describes_analyzed analyzed
  have lines := lineAt_callMarks (m.analyze options).method.nodes label
  rw [described.calls label]
  split at lines
  · rename_i absent
    refine ⟨fun number => iff_of_false (by simp [absent]) ?_, iff_of_true absent lines⟩
    rintro ⟨i, mark, ⟨called, start, -⟩, -⟩
    exact lines i mark called start
  · rename_i number found
    obtain ⟨i, mark, last, same⟩ := lines
    refine ⟨fun other => ?_, iff_of_false (by simp [found]) fun unmarked => unmarked i mark last.1 last.2.1⟩
    rw [found, Option.some.injEq]
    constructor
    · rintro rfl
      exact ⟨i, mark, last, same⟩
    · rintro ⟨j, again, also, rfl⟩
      rw [← same, last.unique also]

/-- A call before any line mark, and calls under two line marks that share their start. -/
def sharedStart : Method where
  name := "sharedStart"
  descriptor := "()V"
  labels := ["entry", "quiet"]
  nodes :=
    [.label ⟨0⟩, .insn (.method .invokestatic { owner := "A", name := "f", descriptor := "()V" } false),
      .line { number := 5, start := ⟨0⟩ }, .insn (.invokeDynamic "g" "()V" ""),
      .line { number := 3, start := ⟨0⟩ },
      .insn (.method .invokestatic { owner := "A", name := "f", descriptor := "()V" } false),
      .label ⟨1⟩, .line { number := 9, start := ⟨1⟩ }, .insn (.plain .returnVoid)]

theorem callLine_iff_last_call_sharedStart :
    ∃ table, (sharedStart.analyze {}).result = .ok table ∧
      LastCallFrom (sharedStart.analyze {}).method.nodes ⟨0⟩ 5 { number := 3, start := ⟨0⟩ } ∧
      (table.get ⟨0⟩).callLine = some 3 ∧ (table.get ⟨1⟩).callLine = none := by
  have last : LastCallFrom (sharedStart.analyze {}).method.nodes ⟨0⟩ 5 { number := 3, start := ⟨0⟩ } := by
    refine ⟨⟨⟨_, rfl, rfl⟩, rfl⟩, rfl, ?_⟩
    rintro j other later ⟨⟨node, found, call⟩, -⟩
    obtain rfl | rfl | rfl | beyond : j = 6 ∨ j = 7 ∨ j = 8 ∨ 9 ≤ j := by omega
    · cases found; cases call
    · cases found; cases call
    · cases found; cases call
    · rw [List.getElem?_eq_none beyond] at found
      cases found
  obtain ⟨line, -⟩ := callLine_iff_last_call sharedStart {} _ rfl ⟨0⟩
  exact ⟨_, rfl, last, (line 3).mpr ⟨5, _, last, rfl⟩, rfl⟩

end Method

end ProbePoints
