import Mathlib.Data.List.TakeWhile
import ProbePoints.Method

/-!
# How control arrives at labels

What a stream and its protected ranges say about each label, read off without scanning: the ways in from elsewhere,
whether control can run on into the label, and the line marks its calls stand under. `arrivals`, `RunsInto` and
`callMarks` also say how one more node at the end of the stream changes them.
-/

namespace ProbePoints

namespace Node

/-- The node jumps to a label. -/
def jumpsTo (label : Label) : Node Label → Bool
  | .insn (.jump _ target) => target = label
  | _ => false

/-- The node is a switch that leads to a label, by default or for some key. -/
def switchesTo (label : Label) : Node Label → Bool
  | .insn (.tableSwitch _ _ fallback targets) | .insn (.lookupSwitch fallback _ targets) =>
    label ∈ fallback :: targets
  | _ => false

/-- The node is an instruction that calls a method. -/
def isCall (node : Node Label) : Bool := node.opcode?.any (·.flow = .call)

/-- The line mark a node is, if it is one. -/
def mark? : Node Label → Option (LineMark Label)
  | .line mark => some mark
  | _ => none

end Node

/-! ### Instructions of a stream -/

/-- The opcodes of a stream, in stream order. -/
def opcodes (nodes : List (Node Label)) : List Opcode := nodes.filterMap Node.opcode?

/-- The opcode of the last instruction of a stream. -/
def lastOpcode? (nodes : List (Node Label)) : Option Opcode := (opcodes nodes).getLast?

/-- The nodes before the first instruction. -/
def entry (nodes : List (Node Label)) : List (Node Label) := nodes.takeWhile (·.opcode?.isNone)

/-- The last line mark of a stream. -/
def lastMark? (nodes : List (Node Label)) : Option (LineMark Label) := (nodes.filterMap Node.mark?).getLast?

theorem opcodes_append (before after : List (Node Label)) :
    opcodes (before ++ after) = opcodes before ++ opcodes after :=
  List.filterMap_append

theorem placements_append (before after : List (Node Label)) :
    placements (before ++ after) = placements before ++ placements after :=
  List.filterMap_append

theorem lastOpcode?_append (before after : List (Node Label)) :
    lastOpcode? (before ++ after) = (lastOpcode? after).or (lastOpcode? before) := by
  simp [lastOpcode?, opcodes_append]

@[simp]
theorem lastOpcode?_nil : lastOpcode? [] = none := rfl

theorem lastOpcode?_singleton (node : Node Label) : lastOpcode? [node] = node.opcode? := by
  cases node <;> rfl

theorem lastOpcode?_cons (node : Node Label) (rest : List (Node Label)) :
    lastOpcode? (node :: rest) = (lastOpcode? rest).or node.opcode? := by
  rw [← lastOpcode?_singleton node, ← lastOpcode?_append, List.singleton_append]

theorem lastOpcode?_eq_none_iff {nodes : List (Node Label)} : lastOpcode? nodes = none ↔ opcodes nodes = [] := by
  simp [lastOpcode?]

theorem lastOpcode?_eq_none {nodes : List (Node Label)} :
    lastOpcode? nodes = none ↔ ∀ node ∈ nodes, node.opcode? = none := by
  simp [lastOpcode?, opcodes]

theorem lastMark?_append (before after : List (Node Label)) :
    lastMark? (before ++ after) = (lastMark? after).or (lastMark? before) := by
  simp only [lastMark?, List.filterMap_append, List.getLast?_append]

theorem lastMark?_singleton (node : Node Label) : lastMark? [node] = node.mark? := by
  cases node <;> rfl

/-! ### Ways in from elsewhere -/

/-- The ways into a label that ranges, jumps and switches make. A switch makes one, however many of its keys lead
there. -/
def transfers (ranges : List (ProtectedRange Label)) (nodes : List (Node Label)) (label : Label) : Nat :=
  ranges.countP (·.start = label) + ranges.countP (·.handler = label) +
    nodes.countP (Node.jumpsTo label) + nodes.countP (Node.switchesTo label)

/-- The ways into a label that calling the method makes: its placements before the first instruction. -/
def entries (nodes : List (Node Label)) (label : Label) : Nat := (placements (entry nodes)).count label

/-- The ways into a label other than from the instruction before. -/
def arrivals (ranges : List (ProtectedRange Label)) (nodes : List (Node Label)) (label : Label) : Nat :=
  transfers ranges nodes label + entries nodes label

theorem transfers_concat_range (ranges : List (ProtectedRange Label)) (range : ProtectedRange Label)
    (nodes : List (Node Label)) (label : Label) :
    transfers (ranges ++ [range]) nodes label =
      transfers ranges nodes label + (if range.start = label then 1 else 0) +
        if range.handler = label then 1 else 0 := by
  simp only [transfers, List.countP_append, List.countP_singleton, decide_eq_true_eq]
  omega

theorem transfers_concat (ranges : List (ProtectedRange Label)) (nodes : List (Node Label)) (node : Node Label)
    (label : Label) :
    transfers ranges (nodes ++ [node]) label =
      transfers ranges nodes label + (if node.jumpsTo label then 1 else 0) +
        if node.switchesTo label then 1 else 0 := by
  simp only [transfers, List.countP_append, List.countP_singleton]
  omega

theorem entry_append (before after : List (Node Label)) :
    entry (before ++ after) = if lastOpcode? before = none then before ++ entry after else entry before := by
  unfold entry
  split
  · rename_i quiet
    rw [List.takeWhile_append_of_pos]
    intro node member
    simp [lastOpcode?_eq_none.mp quiet node member]
  · rename_i busy
    rw [List.takeWhile_append, if_neg]
    intro whole
    have same := List.IsPrefix.eq_of_length (List.takeWhile_prefix _) whole
    refine busy (lastOpcode?_eq_none.mpr fun node member => ?_)
    rw [← same] at member
    simpa using List.mem_takeWhile_imp member

theorem entry_of_quiet {nodes : List (Node Label)} (quiet : lastOpcode? nodes = none) : entry nodes = nodes := by
  refine List.takeWhile_eq_self_iff.mpr fun node member => ?_
  simp [lastOpcode?_eq_none.mp quiet node member]

theorem entries_concat (nodes : List (Node Label)) (node : Node Label) (label : Label) :
    entries (nodes ++ [node]) label =
      entries nodes label + if lastOpcode? nodes = none ∧ node = .label label then 1 else 0 := by
  unfold entries
  rw [entry_append]
  by_cases quiet : lastOpcode? nodes = none
  · rw [if_pos quiet, entry_of_quiet quiet, placements_append, List.count_append]
    congr 1
    cases node with
    | label here => by_cases same : here = label <;> simp [placements, entry, Node.opcode?, Node.placed?, quiet, same]
    | insn instruction => simp [placements, entry, Node.opcode?]
    | frame shape => simp [placements, entry, Node.opcode?, List.filterMap_cons, Node.placed?]
    | line mark => simp [placements, entry, Node.opcode?, List.filterMap_cons, Node.placed?]
  · simp [quiet]

/-! ### Running on into a label -/

/-- Control can run on into a label: some placement of it has an instruction before it, and the last one before it
lets control continue. -/
def RunsInto (nodes : List (Node Label)) (label : Label) : Prop :=
  ∃ before op, before ++ [.label label] <+: nodes ∧ lastOpcode? before = some op ∧ op.flow.continues = true

theorem Flow.continues_iff (flow : Flow) :
    flow.continues = true ↔ flow = .conditionalJump ∨ flow = .call ∨ flow = .other := by
  cases flow <;> decide

theorem runsInto_concat (nodes : List (Node Label)) (node : Node Label) (label : Label) :
    RunsInto (nodes ++ [node]) label ↔
      RunsInto nodes label ∨ node = .label label ∧ (lastOpcode? nodes).any (·.flow.continues) = true := by
  simp only [RunsInto, List.prefix_concat_iff, or_and_right, exists_or]
  rw [or_comm]
  refine or_congr Iff.rfl ?_
  constructor
  · rintro ⟨before, op, same, last, continues⟩
    obtain ⟨rfl, rfl⟩ : before = nodes ∧ .label label = node := by simpa using List.append_inj' same rfl
    simp [last, continues]
  · rintro ⟨rfl, continues⟩
    obtain ⟨op, last, continues⟩ := Option.any_eq_true _ _ |>.mp continues
    exact ⟨nodes, op, rfl, last, continues⟩

/-! ### Labels that are placed once -/

theorem mem_placements {nodes : List (Node Label)} {label : Label} :
    label ∈ placements nodes ↔ .label label ∈ nodes := by
  simp only [placements, List.mem_filterMap]
  constructor
  · rintro ⟨node, member, placed⟩
    cases node with
    | label here =>
      obtain rfl : here = label := by simpa [Node.placed?] using placed
      exact member
    | _ => cases placed
  · exact fun member => ⟨_, member, rfl⟩

theorem not_placed_elsewhere {label : Label} {before after : List (Node Label)}
    (distinct : (placements (before ++ .label label :: after)).Nodup) :
    label ∉ placements before ∧ label ∉ placements after := by
  rw [placements_append, show placements (.label label :: after) = label :: placements after from rfl,
    List.nodup_append, List.nodup_cons] at distinct
  obtain ⟨-, ⟨notAfter, -⟩, apart⟩ := distinct
  exact ⟨fun member => apart label member label List.mem_cons_self rfl, notAfter⟩

/-- A label that is placed once has its place. -/
theorem eq_of_placed_once {label : Label} {before after earlier later : List (Node Label)}
    (notBefore : label ∉ placements before) (notAfter : label ∉ placements after)
    (same : earlier ++ .label label :: later = before ++ .label label :: after) : earlier = before := by
  rcases List.append_eq_append_iff.mp same with ⟨middle, front, back⟩ | ⟨middle, front, back⟩
  · cases middle with
    | nil => simpa using front.symm
    | cons node rest =>
      obtain ⟨rfl, -⟩ := List.cons_eq_cons.mp back
      exact absurd (mem_placements.mpr (by simp [front])) notBefore
  · cases middle with
    | nil => simpa using front
    | cons node rest =>
      obtain ⟨rfl, rest⟩ := List.cons_eq_cons.mp back
      exact absurd (mem_placements.mpr (by simp [rest])) notAfter

theorem runsInto_of_placed_once {label : Label} {before after : List (Node Label)}
    (notBefore : label ∉ placements before) (notAfter : label ∉ placements after) :
    RunsInto (before ++ .label label :: after) label ↔ (lastOpcode? before).any (·.flow.continues) = true := by
  rw [Option.any_eq_true]
  constructor
  · rintro ⟨earlier, op, ⟨later, same⟩, last, continues⟩
    have place := eq_of_placed_once notBefore notAfter (by simpa using same)
    exact ⟨op, place ▸ last, continues⟩
  · rintro ⟨op, last, continues⟩
    exact ⟨before, op, ⟨after, by simp⟩, last, continues⟩

theorem count_entry_le (nodes : List (Node Label)) (label : Label) :
    entries nodes label ≤ (placements nodes).count label :=
  ((List.takeWhile_sublist _).filterMap _).count_le label

theorem entries_of_placed_once {label : Label} {before after : List (Node Label)}
    (notBefore : label ∉ placements before) (notAfter : label ∉ placements after) :
    entries (before ++ .label label :: after) label = if lastOpcode? before = none then 1 else 0 := by
  have none : ∀ nodes : List (Node Label), label ∉ placements nodes → (placements nodes).count label = 0 :=
    fun nodes absent => List.count_eq_zero.mpr absent
  unfold entries
  rw [entry_append]
  split
  · have later : (placements (entry after)).count label = 0 :=
      Nat.le_zero.mp (none after notAfter ▸ count_entry_le after label)
    have front : placements (entry (.label label :: after)) = label :: placements (entry after) := rfl
    simp [placements_append, front, none before notBefore, later]
  · exact Nat.le_zero.mp (none before notBefore ▸ count_entry_le before label)

theorem not_runsInto {label : Label} {nodes : List (Node Label)} (absent : label ∉ placements nodes) :
    ¬RunsInto nodes label := by
  rintro ⟨before, op, placed, -⟩
  exact absent (mem_placements.mpr (placed.subset (by simp)))

/-! ### Calls -/

/-- The line marks that the calls of a stream stand under, in call order. Only those marks count whose following nodes
satisfy `counts`, and `active` is the mark in force at the start. -/
def callMarksFrom (counts : List (Node Label) → Bool) (active : Option (LineMark Label)) :
    List (Node Label) → List (LineMark Label)
  | [] => []
  | .line mark :: rest => callMarksFrom counts (if counts rest then some mark else none) rest
  | node :: rest => (if node.isCall then active.toList else []) ++ callMarksFrom counts active rest

/-- The line marks that the calls of a stream stand under, in call order. -/
def callMarks (nodes : List (Node Label)) : List (LineMark Label) := callMarksFrom (fun _ => true) none nodes

/-- The line of the last of some marks that starts at a label. -/
def lineAt (marks : List (LineMark Label)) (label : Label) : Option UInt32 :=
  (marks.filter (·.start = label)).getLast?.map (·.number)

theorem callMarksFrom_concat (active : Option (LineMark Label)) (nodes : List (Node Label)) (node : Node Label) :
    callMarksFrom (fun _ => true) active (nodes ++ [node]) =
      callMarksFrom (fun _ => true) active nodes ++
        if node.isCall then ((lastMark? nodes).or active).toList else [] := by
  induction nodes generalizing active with
  | nil => cases node <;> simp [callMarksFrom, lastMark?, Node.isCall, Node.opcode?]
  | cons first rest ih =>
    have last : lastMark? (first :: rest) = (lastMark? rest).or first.mark? := by
      rw [← lastMark?_singleton, ← lastMark?_append, List.singleton_append]
    cases first <;> simp [callMarksFrom, ih, last, Node.mark?]

theorem callMarks_concat (nodes : List (Node Label)) (node : Node Label) :
    callMarks (nodes ++ [node]) = callMarks nodes ++ if node.isCall then (lastMark? nodes).toList else [] := by
  simp [callMarks, callMarksFrom_concat]

theorem lineAt_append (earlier later : List (LineMark Label)) (label : Label) :
    lineAt (earlier ++ later) label = (lineAt later label).or (lineAt earlier label) := by
  simp only [lineAt, List.filter_append, List.getLast?_append]
  cases (later.filter (·.start = label)).getLast? <;> rfl

theorem lineAt_singleton (mark : LineMark Label) (label : Label) :
    lineAt [mark] label = if mark.start = label then some mark.number else none := by
  by_cases same : mark.start = label <;> simp [lineAt, same]

end ProbePoints
