import ProbePoints.Proofs.Calls
import ProbePoints.Proofs.Comparison
import ProbePoints.Proofs.History
import ProbePoints.Proofs.Preservation
import ProbePoints.Proofs.Visits

/-!
# What a report lists

A report goes over the labels that the stream places, while marks are kept for whatever label an element of the method
names. Nothing is lost between the two: the labels that have an entry in the table are placed, each once, and an entry
always says something.
-/

namespace ProbePoints

/-! ### Entries of a table -/

namespace MarkTable

/-- A list that has every label with an entry once is as long as the table. -/
theorem length_eq_size {table : MarkTable} {labels : List Label} (distinct : labels.Nodup)
    (listed : ∀ label, label ∈ labels ↔ (table.get? label).isSome = true) : labels.length = table.size := by
  have counted := encard_of_listed distinct listed
  rw [encard_entries] at counted
  exact_mod_cast counted.symm

/-- Where entries say something, the labels about which something is noted are those that have one. -/
theorem noted_get_iff {table : MarkTable} (noted : ∀ label marks, table.get? label = some marks → marks.noted = true)
    (label : Label) : (table.get label).noted = true ↔ (table.get? label).isSome = true := by
  unfold get
  cases found : table.get? label with
  | none => simp [Marks.noted]
  | some marks => simp [noted label marks found]

end MarkTable

theorem Marks.noted_of_probeDue {marks : Marks} (due : marks.probeDue = true) : marks.noted = true := by
  have successor : marks.successor = true := (Bool.and_eq_true_iff.mp due).1
  simp [noted, successor]

/-! ### Marked labels are placed -/

namespace Method

theorem Valid.placed_of_mentioned {m : Method} (valid : m.Valid) {node : Node Label} (member : node ∈ m.nodes)
    {label : Label} (leads : node.jumpsTo label = true ∨ node.switchesTo label = true) :
    label ∈ placements m.nodes := by
  have mentioned := mem_labels_of_transfer leads
  cases node with
  | insn instruction => exact valid.targets instruction member label mentioned
  | label here => simp [Node.jumpsTo, Node.switchesTo] at leads
  | frame shape => simp [Node.jumpsTo, Node.switchesTo] at leads
  | line mark => simp [Node.jumpsTo, Node.switchesTo] at leads

/-- Control arrives from elsewhere at placed labels only. -/
theorem Valid.placed_of_arrival {m : Method} (valid : m.Valid) {label : Label}
    (arrives : 1 ≤ arrivals m.ranges m.nodes label) : label ∈ placements m.nodes := by
  by_contra unplaced
  have notStart : m.ranges.countP (·.start = label) = 0 := by
    apply List.countP_eq_zero.mpr
    intro range member same
    apply unplaced
    exact of_decide_eq_true same ▸ valid.ranges range member range.start (by simp [ProtectedRange.labels])
  have notHandler : m.ranges.countP (·.handler = label) = 0 := by
    apply List.countP_eq_zero.mpr
    intro range member same
    apply unplaced
    exact of_decide_eq_true same ▸ valid.ranges range member range.handler (by simp [ProtectedRange.labels])
  have notJump : m.nodes.countP (Node.jumpsTo label) = 0 := by
    apply List.countP_eq_zero.mpr
    intro node member leads
    exact unplaced (valid.placed_of_mentioned member (.inl leads))
  have notSwitch : m.nodes.countP (Node.switchesTo label) = 0 := by
    apply List.countP_eq_zero.mpr
    intro node member leads
    exact unplaced (valid.placed_of_mentioned member (.inr leads))
  have notEntered : entries m.nodes label = 0 := by
    have bound := count_entry_le m.nodes label
    rw [List.count_eq_zero.mpr unplaced] at bound
    omega
  unfold arrivals transfers at arrives
  omega

theorem Valid.placed_of_call {m : Method} (valid : m.Valid) {label : Label}
    (calls : (lineAt (callMarks m.nodes) label).isSome = true) : label ∈ placements m.nodes := by
  have last := lineAt_callMarks m.nodes label
  obtain ⟨number, found⟩ := Option.isSome_iff_exists.mp calls
  rw [found] at last
  obtain ⟨i, mark, ⟨⟨-, active⟩, start, -⟩, -⟩ := last
  have member : mark ∈ (m.nodes.take i).filterMap Node.mark? := List.mem_of_getLast? active
  obtain ⟨node, early, same⟩ := List.mem_filterMap.mp member
  cases node with
  | line other =>
    obtain rfl := Option.some.inj same
    rw [← start]
    exact valid.lines other (List.mem_of_mem_take early)
  | insn instruction => cases same
  | label here => cases same
  | frame shape => cases same

/-- In a valid method nothing is noted about a label that stands nowhere. -/
theorem Valid.placed_of_noted {m : Method} (valid : m.Valid) {scan : Scan}
    (described : scan.Describes m.ranges m.nodes) {label : Label} (noted : (scan.marks.get label).noted = true) :
    label ∈ placements m.nodes := by
  simp only [Marks.noted, Bool.or_eq_true, described.calls] at noted
  rcases noted with (target | successor) | call
  · rw [(described.targets label).1] at target
    exact valid.placed_of_arrival (of_decide_eq_true target)
  · by_contra unplaced
    exact not_runsInto unplaced ((described.successors label).mp successor)
  · exact valid.placed_of_call call

theorem noted_analyzed {m : Method} {options : Options} {table : MarkTable}
    (analyzed : (m.analyze options).result = .ok table) {label : Label} {marks : Marks}
    (found : table.get? label = some marks) : marks.noted = true := by
  rw [analyze_of_valid (valid_of_analyzed analyzed)] at analyzed
  obtain ⟨final, run, rfl⟩ := scan_ok.mp analyzed
  simpa [Marks.noted, or_assoc] using (Scan.sound_ofMethod run).noted label marks found

/-! ### The labels of a report -/

/-- What a report tells about a label of a method. -/
def entryOf (m : Method) (table : MarkTable) (label : Label) : LabelEntry where
  name := m.displayName label
  marks := table.get label
  probeDue := table.probeDue label

theorem labels_ofMarks (m : Method) (table : MarkTable) (includeUnmarked : Bool) :
    (MethodEntry.ofMarks m table includeUnmarked).labels =
      ((placements m.nodes).filter fun label => (table.get label).noted || includeUnmarked).map
        (m.entryOf table) := rfl

theorem probes_ofMarks (m : Method) (table : MarkTable) (includeUnmarked : Bool) :
    (MethodEntry.ofMarks m table includeUnmarked).probes = (placements m.nodes).countP table.probeDue := by
  rw [MethodEntry.probes, labels_ofMarks, List.countP_map, List.countP_filter]
  apply List.countP_congr
  intro label _
  cases due : table.probeDue label with
  | false => simp [entryOf, due]
  | true => simp [entryOf, due, Marks.noted_of_probeDue due]

/-- If every label at which a probe is due is listed, counting them in the list counts them all. -/
theorem encard_probeDue {table : MarkTable} {labels : List Label} (distinct : labels.Nodup)
    (listed : ∀ label, table.probeDue label = true → label ∈ labels) :
    {label | table.probeDue label = true}.encard = labels.countP table.probeDue := by
  rw [List.countP_eq_length_filter]
  apply MarkTable.encard_of_listed (distinct.filter _)
  intro label
  rw [List.mem_filter]
  exact ⟨fun here => here.2, fun due => ⟨listed label due, due⟩⟩

/-- The report on an analyzed method lists the labels that have an entry, in stream order and each once, so it is as
long as the table. With unmarked labels it lists every placed label once. Leaving out those without a mark gives the
first list again, and both need a probe for each label at which one is due. -/
theorem labels_reported (m : Method) (options : Options) (table : MarkTable) (bounded : m.Bounded)
    (analyzed : (m.analyze options).result = .ok table) :
    let after := (m.analyze options).method
    let marked := MethodEntry.ofMarks after table false
    let whole := MethodEntry.ofMarks after table true
    (∃ shown : List Label, marked.labels = shown.map (after.entryOf table) ∧
        shown.Sublist (placements after.nodes) ∧ shown.Nodup ∧
        ∀ label, label ∈ shown ↔ (table.get? label).isSome = true) ∧
      marked.labels.length = table.size ∧
      (whole.labels = (placements after.nodes).map (after.entryOf table) ∧ (placements after.nodes).Nodup) ∧
      marked.labels = whole.labels.filter (fun entry =>
        entry.marks.target || entry.marks.successor || entry.marks.callLine.isSome) ∧
      marked.probes = whole.probes ∧ marked.probes = {label | table.probeDue label = true}.encard := by
  intro after marked whole
  have valid : after.Valid := valid_analyzed bounded analyzed
  have recorded := MarkTable.noted_get_iff fun _ _ found => noted_analyzed analyzed found
  obtain ⟨final, rfl, described⟩ := describes_analyzed analyzed
  have placed : ∀ label, (final.marks.get label).noted = true → label ∈ placements after.nodes :=
    fun label => valid.placed_of_noted described
  have shown : marked.labels =
      ((placements after.nodes).filter fun label => (final.marks.get label).noted).map
        (after.entryOf final.marks) := by
    simp only [marked, labels_ofMarks, Bool.or_false]
  have all : whole.labels = (placements after.nodes).map (after.entryOf final.marks) := by
    simp [whole, labels_ofMarks]
  have listed : ∀ label, label ∈ (placements after.nodes).filter (fun label => (final.marks.get label).noted) ↔
      (final.marks.get? label).isSome = true := by
    intro label
    rw [List.mem_filter, ← recorded label]
    exact and_iff_right_of_imp (placed label)
  have once := valid.distinct.filter fun label => (final.marks.get label).noted
  refine ⟨⟨_, shown, List.filter_sublist, once, listed⟩, ?_, ⟨all, valid.distinct⟩, ?_, ?_, ?_⟩
  · rw [shown, List.length_map]
    exact MarkTable.length_eq_size once listed
  · rw [shown, all, List.filter_map]
    rfl
  · simp only [marked, whole, probes_ofMarks]
  · rw [encard_probeDue valid.distinct fun label due => placed label (Marks.noted_of_probeDue due)]
    exact congrArg Nat.cast (probes_ofMarks after final.marks false)

/-- A line mark that moves, with a call on its line, a label that two jumps lead to, and one that nothing leads to. -/
def islands : Method where
  name := "islands"
  descriptor := "()V"
  labels := ["entry", "again", "nobody"]
  nodes :=
    [.label ⟨0⟩, .line { number := 7, start := ⟨0⟩ }, .frame { kind := .same, locals := [], stack := [] },
      .insn (.method .invokestatic { owner := "A", name := "f", descriptor := "()I" } false),
      .label ⟨1⟩, .insn (.jump .ifeq ⟨1⟩), .insn (.jump .ifne ⟨1⟩), .insn (.plain .returnVoid),
      .label ⟨2⟩, .insn (.plain .returnVoid)]

theorem labels_reported_islands :
    ∃ table, (islands.analyze {}).result = .ok table ∧ islands.Bounded ∧ table.size = 3 ∧
      (MethodEntry.ofMarks (islands.analyze {}).method table false).labels.map LabelEntry.name =
        ["entry", "~3", "again"] ∧
      (MethodEntry.ofMarks (islands.analyze {}).method table false).labels.length = 3 ∧
      (MethodEntry.ofMarks (islands.analyze {}).method table true).labels.map LabelEntry.name =
        ["entry", "~3", "again", "nobody"] ∧
      (placements (islands.analyze {}).method.nodes).Nodup ∧
      {label | table.probeDue label = true}.encard = (2 : Nat) := by
  have bounded : islands.Bounded := by decide
  refine ⟨_, rfl, bounded, rfl, rfl, ?_⟩
  obtain ⟨-, size, ⟨-, once⟩, -, -, due⟩ := labels_reported islands {} _ bounded rfl
  exact ⟨size, rfl, once, due.symm⟩

end Method

end ProbePoints
