import ProbePoints.Proofs.Analysis

/-!
# Analysis with and without normalization

Two analyses of one method, the second on the normalized stream. A new spacer lets control run on into the labels
behind it and takes them out of the entry of the method; nothing else about the targets and successors of the labels of
the method changes. Calls under a mark that moves go to its new label.
-/

namespace ProbePoints

/-! ### The last instruction before a point -/

/-- Behind the last instruction of the stream, a line mark stands directly before a frame. -/
def endsFramed : List (Node Label) → Bool
  | [] => false
  | .line _ :: rest => startsWithFrame rest && (lastOpcode? rest).isNone || endsFramed rest
  | _ :: rest => endsFramed rest

theorem endsFramed_cons {node : Node Label} (noMark : node.mark? = none) (rest : List (Node Label)) :
    endsFramed (node :: rest) = endsFramed rest := by
  cases node <;> first | rfl | cases noMark

theorem endsFramed_held (pending : Option (LineMark Label)) (nodes : List (Node Label)) :
    endsFramed (held pending ++ nodes) =
      (pending.isSome && startsWithFrame nodes && (lastOpcode? nodes).isNone || endsFramed nodes) := by
  cases pending with
  | none => simp [held]
  | some mark => simp [held, endsFramed]

theorem endsFramed_iff (nodes : List (Node Label)) :
    endsFramed nodes = true ↔ ∃ mark shape gap, .line mark :: .frame shape :: gap <:+ nodes ∧ opcodes gap = [] := by
  induction nodes with
  | nil => simp [endsFramed]
  | cons node rest ih =>
    simp only [List.suffix_cons_iff, or_and_right, exists_or, ← ih]
    cases node with
    | line mark =>
      have ahead : (startsWithFrame rest && (lastOpcode? rest).isNone) = true ↔
          ∃ shape gap, .frame shape :: gap = rest ∧ opcodes gap = [] := by
        cases rest with
        | nil => simp
        | cons first later =>
          cases first <;> simp [Node.isFrame, lastOpcode?_cons, Node.opcode?, lastOpcode?_eq_none_iff]
      simp [endsFramed, ahead]
    | insn instruction => simp [endsFramed]
    | label here => simp [endsFramed]
    | frame shape => simp [endsFramed]

/-- The last instruction of a settled stream is a spacer, or it is that of the stream. -/
theorem lastOpcode?_move (next : Nat) (pending : Option (LineMark Label)) (nodes : List (Node Label)) :
    lastOpcode? (move next pending nodes).nodes =
      if endsFramed (held pending ++ nodes) then some .nop else lastOpcode? nodes := by
  have heldNone (pending : Option (LineMark Label)) : lastOpcode? (held pending) = none :=
    lastOpcode?_eq_none_iff.mpr (opcodes_held pending)
  rw [endsFramed_held]
  fun_induction move next pending nodes with
  | case1 next pending =>
    rw [heldNone]
    simp [endsFramed, lastOpcode?, opcodes]
  | case2 next pending later rest ih =>
    simpa [Settled.prepend, lastOpcode?_append, heldNone, Node.isFrame, endsFramed, lastOpcode?_cons, Node.opcode?]
      using ih
  | case3 next mark shape rest ih =>
    have front : lastOpcode? [.frame shape, spacer, .label ⟨next⟩] = some .nop := rfl
    simp only [Settled.precede, Settled.prepend, lastOpcode?_append, front, ih]
    -- With no later instruction the new spacer is the last one; otherwise only the rest of the stream matters.
    cases last : lastOpcode? rest with
    | none =>
      cases framed : startsWithFrame rest <;> cases endsFramed rest <;>
        simp [Node.isFrame, lastOpcode?_cons, Node.opcode?, last]
    | some op => cases framed : endsFramed rest <;> simp [endsFramed, lastOpcode?_cons, Node.opcode?, last, framed]
  | case4 next pending node rest notLine notFrame ih =>
    simp only [Settled.prepend, lastOpcode?_append, heldNone, ih, startsWithFrame_cons,
      endsFramed_cons (mark?_eq_none notLine), lastOpcode?_cons]
    rcases no_pending_frame notFrame with rfl | unframed
    · cases framed : endsFramed rest <;> simp
    · cases framed : endsFramed rest <;> simp [unframed]

/-! ### What settling keeps -/

theorem transfers_move (ranges : List (ProtectedRange Label)) (next : Nat) (nodes : List (Node Label)) (label : Label) :
    transfers ranges (move next none nodes).nodes label = transfers ranges nodes label := by
  unfold transfers
  rw [countP_move (fun _ => rfl) (fun _ => rfl) rfl, countP_move (fun _ => rfl) (fun _ => rfl) rfl]

theorem find?_subroutine_move (next : Nat) (pending : Option (LineMark Label)) (nodes : List (Node Label)) :
    (opcodes (move next pending nodes).nodes).find? (·.flow = .subroutine) =
      (opcodes nodes).find? (·.flow = .subroutine) := by
  have kept := filterMap_move (f := fun node => node.opcode?.filter (·.flow = .subroutine)) (fun _ => rfl)
    (fun _ => rfl) rfl next pending nodes
  simp only [← List.head?_filter, opcodes, List.filter_filterMap]
  exact congrArg List.head? kept

/-- A new label stands behind a spacer. -/
theorem spacer_before_new {next : Nat} {pending : Option (LineMark Label)} {nodes : List (Node Label)} {label : Label}
    (new : label ∈ (move next pending nodes).moves.map Prod.snd) :
    ∃ before after, (move next pending nodes).nodes = before ++ .label label :: after ∧
      lastOpcode? before = some .nop := by
  have behind : ∀ (front before : List (Node Label)), lastOpcode? before = some .nop →
      lastOpcode? (front ++ before) = some .nop := by
    intro front before last
    rw [lastOpcode?_append, last]
    rfl
  fun_induction move next pending nodes with
  | case1 next pending => cases new
  | case2 next pending later rest ih =>
    obtain ⟨before, after, same, last⟩ := ih new
    exact ⟨held pending ++ before, after, by simp [Settled.prepend, same], behind _ _ last⟩
  | case3 next mark shape rest ih =>
    rcases List.mem_cons.mp new with rfl | new
    · exact ⟨[.frame shape, spacer], _, rfl, rfl⟩
    · obtain ⟨before, after, same, last⟩ := ih new
      exact ⟨[.frame shape, spacer, .label ⟨next⟩] ++ before, after, by simp [Settled.precede, Settled.prepend, same],
        behind _ _ last⟩
  | case4 next pending node rest notLine notFrame ih =>
    obtain ⟨before, after, same, last⟩ := ih new
    exact ⟨held pending ++ [node] ++ before, after, by simp [Settled.prepend, same], behind _ _ last⟩

/-! ### Calls -/

/-- The line marks that the calls of a stream stand under, in call order, without the marks that stand before a
frame. -/
def restingCallMarks (nodes : List (Node Label)) : List (LineMark Label) :=
  callMarksFrom (fun rest => !startsWithFrame rest) none nodes

theorem callMarksFrom_cons {node : Node Label} (noMark : node.mark? = none) (counts : List (Node Label) → Bool)
    (active : Option (LineMark Label)) (rest : List (Node Label)) :
    callMarksFrom counts active (node :: rest) =
      (if node.isCall then active.toList else []) ++ callMarksFrom counts active rest := by
  cases node <;> first | rfl | cases noMark

/-- A line mark at the start that does not start at a label does not matter to the calls of that label. -/
theorem filter_callMarksFrom_other {label : Label} (mark : LineMark Label) (other : mark.start ≠ label)
    (counts : List (Node Label) → Bool) (nodes : List (Node Label)) :
    (callMarksFrom counts (some mark) nodes).filter (·.start = label) =
      (callMarksFrom counts none nodes).filter (·.start = label) := by
  induction nodes with
  | nil => rfl
  | cons node rest ih =>
    cases node with
    | line later => rfl
    | insn instruction =>
      by_cases call : (Node.insn instruction).isCall = true <;> simp [callMarksFrom, call, other, ih]
    | label here => simpa [callMarksFrom, Node.isCall, Node.opcode?] using ih
    | frame shape => simpa [callMarksFrom, Node.isCall, Node.opcode?] using ih

/-- The calls of a label keep their marks, except where the mark moved. -/
theorem filter_callMarksFrom_move {next : Nat} {label : Label} (below : label.id < next)
    (pending active : Option (LineMark Label)) (nodes : List (Node Label)) :
    (callMarksFrom (fun _ => true) active (move next pending nodes).nodes).filter (·.start = label) =
      (callMarksFrom (fun rest => !startsWithFrame rest) active (held pending ++ nodes)).filter (·.start = label) := by
  have heldMark : ∀ (pending active : Option (LineMark Label)) (nodes : List (Node Label)),
      callMarksFrom (fun _ => true) active (held pending ++ nodes) =
        callMarksFrom (fun _ => true) (pending.or active) nodes := by
    intro pending active nodes
    cases pending <;> rfl
  fun_induction move next pending nodes generalizing active with
  | case1 next pending => cases pending <;> rfl
  | case2 next pending later rest ih =>
    simp only [Settled.prepend, heldMark, ih below]
    cases pending <;> rfl
  | case3 next mark shape rest ih =>
    have fresh : (⟨next⟩ : Label) ≠ label := by
      rintro rfl
      exact Nat.lt_irrefl _ below
    have crossed := ih (by omega) active
    have front : callMarksFrom (fun _ => true) active ([.frame shape, spacer, .label ⟨next⟩] ++
          (move (next + 1) (some { mark with start := ⟨next⟩ }) rest).nodes) =
        callMarksFrom (fun _ => true) active (move (next + 1) (some { mark with start := ⟨next⟩ }) rest).nodes := rfl
    simp only [Settled.precede, Settled.prepend, front, crossed]
    cases framed : startsWithFrame rest with
    | true => simp [held, callMarksFrom, framed, Node.isFrame, Node.isCall, Node.opcode?]
    | false =>
      simpa [held, callMarksFrom, framed, Node.isFrame, Node.isCall, Node.opcode?] using
        filter_callMarksFrom_other { mark with start := ⟨next⟩ } fresh _ rest
  | case4 next pending node rest notLine notFrame ih =>
    have unmarked := mark?_eq_none notLine
    simp only [Settled.prepend, List.append_assoc, heldMark, List.singleton_append, callMarksFrom_cons unmarked,
      List.filter_append, ih below]
    rcases no_pending_frame notFrame with rfl | unframed
    · simp [held, callMarksFrom_cons unmarked]
    · cases pending with
      | none => simp [held, callMarksFrom_cons unmarked]
      | some mark => simp [held, callMarksFrom, callMarksFrom_cons unmarked, unframed]

theorem lineAt_callMarks_move {next : Nat} {label : Label} (below : label.id < next) (nodes : List (Node Label)) :
    lineAt (callMarks (move next none nodes).nodes) label = lineAt (restingCallMarks nodes) label := by
  unfold lineAt callMarks restingCallMarks
  rw [filter_callMarksFrom_move below]
  rfl

/-! ### Labels of the method -/

/-- A line mark stands directly before a frame, and the label follows the frame with no instruction in between. -/
def Displaced (nodes : List (Node Label)) (label : Label) : Prop :=
  ∃ mark shape gap, .line mark :: .frame shape :: (gap ++ [.label label]) <:+: nodes ∧ opcodes gap = []

theorem displaced_iff {label : Label} {before after : List (Node Label)} (notBefore : label ∉ placements before)
    (notAfter : label ∉ placements after) :
    Displaced (before ++ .label label :: after) label ↔ endsFramed before = true := by
  rw [endsFramed_iff]
  constructor
  · rintro ⟨mark, shape, gap, ⟨front, back, same⟩, quiet⟩
    have place : front ++ .line mark :: .frame shape :: gap = before :=
      eq_of_placed_once notBefore notAfter (by simpa using same)
    exact ⟨mark, shape, gap, ⟨front, place⟩, quiet⟩
  · rintro ⟨mark, shape, gap, ⟨front, rfl⟩, quiet⟩
    exact ⟨mark, shape, gap, ⟨front, after, by simp⟩, quiet⟩

/-- A label that is placed once stays in place when the stream is settled, and no new label takes its name. -/
theorem move_of_placed_once {next : Nat} {label : Label} (below : label.id < next) {before after : List (Node Label)}
    (notBefore : label ∉ placements before) (notAfter : label ∉ placements after) :
    ∃ later, (move next none (before ++ .label label :: after)).nodes =
        (move next none before).nodes ++ .label label :: later ∧
      label ∉ placements (move next none before).nodes ∧ label ∉ placements later := by
  refine ⟨(move (next + (move next none before).moves.length) none after).nodes, ?_,
    not_mem_placements_move below notBefore, not_mem_placements_move (by omega) notAfter⟩
  exact congrArg Settled.nodes (move_append rfl)

/-- How settling a stream changes what it says of one label of the method. -/
theorem arrival_move {next : Nat} {label : Label} (below : label.id < next) {nodes : List (Node Label)}
    (distinct : (placements nodes).Nodup) :
    (Displaced nodes label →
        RunsInto (move next none nodes).nodes label ∧ entries (move next none nodes).nodes label = 0) ∧
      (¬Displaced nodes label →
        (RunsInto (move next none nodes).nodes label ↔ RunsInto nodes label) ∧
          entries (move next none nodes).nodes label = entries nodes label) := by
  by_cases placed : label ∈ placements nodes
  · obtain ⟨before, after, rfl⟩ := List.append_of_mem (mem_placements.mp placed)
    obtain ⟨notBefore, notAfter⟩ := not_placed_elsewhere distinct
    obtain ⟨later, same, front, back⟩ := move_of_placed_once below notBefore notAfter
    have last := lastOpcode?_move next none before
    rw [displaced_iff notBefore notAfter, same, runsInto_of_placed_once front back, entries_of_placed_once front back,
      runsInto_of_placed_once notBefore notAfter, entries_of_placed_once notBefore notAfter, last]
    have continues : Opcode.nop.flow.continues = true := rfl
    constructor
    · intro framed
      simp [held, framed, continues]
    · intro unframed
      simp [held, unframed]
  · have unmoved := not_mem_placements_move below placed
    have noEntry : ∀ nodes : List (Node Label), label ∉ placements nodes → entries nodes label = 0 :=
      fun nodes absent => Nat.le_zero.mp (List.count_eq_zero.mpr absent ▸ count_entry_le nodes label)
    refine ⟨?_, fun _ => ⟨?_, ?_⟩⟩
    · rintro ⟨mark, shape, gap, found, -⟩
      exact absurd (mem_placements.mpr (found.subset (by simp))) placed
    · exact iff_of_false (not_runsInto unmoved) (not_runsInto placed)
    · rw [noEntry _ unmoved, noEntry _ placed]

/-! ### New labels -/

theorem mem_labels_of_transfer {node : Node Label} {label : Label}
    (leads : node.jumpsTo label = true ∨ node.switchesTo label = true) : label ∈ node.labels := by
  cases node with
  | insn instruction =>
    cases instruction <;> simp_all [Node.jumpsTo, Node.switchesTo, Node.labels, Instruction.targets]
  | _ => simp [Node.jumpsTo, Node.switchesTo] at leads

/-- No transfer leads to a label that the method has not handed out. -/
theorem Method.Bounded.transfers {m : Method} (bounded : m.Bounded) {label : Label} (above : m.numLabels ≤ label.id) :
    transfers m.ranges m.nodes label = 0 := by
  have unused : ∀ labels : List Label, (∀ other ∈ labels, other.id < m.numLabels) → label ∉ labels :=
    fun labels small member => absurd (small label member) (by omega)
  have notStart : m.ranges.countP (·.start = label) = 0 := List.countP_eq_zero.mpr fun range member same =>
    unused _ (bounded.ranges range member) (by simp [ProtectedRange.labels, ← of_decide_eq_true same])
  have notHandler : m.ranges.countP (·.handler = label) = 0 := List.countP_eq_zero.mpr fun range member same =>
    unused _ (bounded.ranges range member) (by simp [ProtectedRange.labels, ← of_decide_eq_true same])
  have notJump : m.nodes.countP (Node.jumpsTo label) = 0 := List.countP_eq_zero.mpr fun node member leads =>
    unused _ (bounded.nodes node member) (mem_labels_of_transfer (.inl leads))
  have notSwitch : m.nodes.countP (Node.switchesTo label) = 0 := List.countP_eq_zero.mpr fun node member leads =>
    unused _ (bounded.nodes node member) (mem_labels_of_transfer (.inr leads))
  simp [ProbePoints.transfers, notStart, notHandler, notJump, notSwitch]

/-- Control runs on into a new label from its spacer, and calling the method does not lead there. -/
theorem arrival_new {next : Nat} {nodes : List (Node Label)} {label : Label} (unused : label ∉ placements nodes)
    (new : label ∈ (move next none nodes).moves.map Prod.snd) :
    RunsInto (move next none nodes).nodes label ∧ entries (move next none nodes).nodes label = 0 := by
  obtain ⟨before, after, same, last⟩ := spacer_before_new new
  have once := count_placements_move next none nodes label
  rw [List.count_eq_zero.mpr unused, List.count_eq_one_of_mem (nodup_map_snd_moves ..) new, same, placements_append,
    show placements (.label label :: after) = label :: placements after from rfl, List.count_append,
    List.count_cons_self] at once
  have notBefore : label ∉ placements before := List.count_eq_zero.mp (by omega)
  have notAfter : label ∉ placements after := List.count_eq_zero.mp (by omega)
  rw [same, runsInto_of_placed_once notBefore notAfter, entries_of_placed_once notBefore notAfter, last]
  exact ⟨rfl, rfl⟩

/-! ### Both analyses -/

theorem Node.step_moved (scan : Scan) (moves : List (Label × Label)) (node : Node Label) :
    scan.step (node.moved moves) = scan.step node := by
  cases node <;> rfl

/-- The scan does not look into frames. -/
theorem Scan.ofMethod_extend (m : Method) (nodes : List (Node Label)) (moves : List (Label × Label))
    (fresh : List Label) :
    Scan.ofMethod (m.extend (nodes.map (Node.moved moves)) fresh) = nodes.foldlM Scan.step (Scan.ofRanges m) := by
  have run : ∀ scan : Scan, (nodes.map (Node.moved moves)).foldlM Scan.step scan = nodes.foldlM Scan.step scan := by
    intro scan
    rw [List.foldlM_map]
    simp only [Node.step_moved]
  exact run (Scan.ofRanges m)

/-- A valid method without subroutines is analyzed with normalization too, and its marks describe the settled stream. -/
theorem Method.analyze_settled {m : Method} (valid : m.Valid) (options : Options)
    (supported : (opcodes m.nodes).find? (·.flow = .subroutine) = none) :
    ∃ final : Scan, (m.analyze { options with normalizeFrames := true }).result = .ok final.marks ∧
      final.Describes m.ranges (move m.numLabels none m.nodes).nodes := by
  obtain ⟨final, run⟩ := (Scan.exists_run_iff (Scan.ofRanges m) _).mpr
    ((find?_subroutine_move m.numLabels none m.nodes).trans supported)
  have fits : ∀ instruction, .insn instruction ∈ (move m.numLabels none m.nodes).nodes → instruction.Fits :=
    fun instruction member => valid.fits_of_kept (mem_move member)
  refine ⟨final, ?_, ?_⟩
  · rw [Method.analyze_of_valid valid]
    simp only [Method.prepare, if_true, Method.normalize_eq_move valid.framed]
    exact Method.scan_ok.mpr ⟨final, (Scan.ofMethod_extend ..).trans run, rfl⟩
  · exact Scan.describes_method (m := { m with nodes := (move m.numLabels none m.nodes).nodes }) fits run

/-- What the scans of a stream and of the settled stream say of a label of the method. -/
theorem Scan.Describes.compare {ranges : List (ProtectedRange Label)} {nodes : List (Node Label)} {next : Nat}
    {label : Label} {raw final : Scan} (below : label.id < next) (distinct : (placements nodes).Nodup)
    (before : raw.Describes ranges nodes) (after : final.Describes ranges (move next none nodes).nodes) :
    (Displaced nodes label →
        (final.marks.get label).successor = true ∧
          (final.marks.get label).Tallied (arrivals ranges nodes label - entries nodes label)) ∧
      (¬Displaced nodes label →
        (final.marks.get label).target = (raw.marks.get label).target ∧
          (final.marks.get label).multiTarget = (raw.marks.get label).multiTarget ∧
            (final.marks.get label).successor = (raw.marks.get label).successor) := by
  obtain ⟨displaced, kept⟩ := arrival_move below distinct
  have tallied := after.targets label
  unfold arrivals at tallied
  rw [transfers_move] at tallied
  constructor
  · intro moved
    obtain ⟨runs, noEntry⟩ := displaced moved
    rw [noEntry] at tallied
    exact ⟨(after.successors label).mpr runs, by simpa [arrivals] using tallied⟩
  · intro unmoved
    obtain ⟨runs, entry⟩ := kept unmoved
    rw [entry] at tallied
    have earlier := before.targets label
    refine ⟨tallied.1.trans earlier.1.symm, tallied.2.trans earlier.2.symm, ?_⟩
    rw [Bool.eq_iff_iff, after.successors label, before.successors label, runs]

/-- Two analyses of one method, without and with normalization. For a label of the method that a line mark before a
frame displaces, control runs on into it and the way in over the entry of the method is lost; all other labels of the
method keep their targets and successors. Calls count where their mark starts, unless it moves. New labels are reached
only from the instruction before. -/
theorem analyze_normalized (m : Method) (options : Options) (raw : MarkTable) (bounded : m.Bounded)
    (analyzed : (m.analyze { options with normalizeFrames := false }).result = .ok raw) :
    ∃ table, (m.analyze { options with normalizeFrames := true }).result = .ok table ∧
      (∀ label, label.id < m.numLabels →
        (raw.get label).Tallied (arrivals m.ranges m.nodes label) ∧
        (Displaced m.nodes label →
          (table.get label).successor = true ∧
            (table.get label).Tallied (arrivals m.ranges m.nodes label - entries m.nodes label)) ∧
        (¬Displaced m.nodes label →
          (table.get label).target = (raw.get label).target ∧
            (table.get label).multiTarget = (raw.get label).multiTarget ∧
              (table.get label).successor = (raw.get label).successor) ∧
        (table.get label).callLine = lineAt (restingCallMarks m.nodes) label) ∧
      ∀ label, m.numLabels ≤ label.id →
        label.id < (m.analyze { options with normalizeFrames := true }).method.numLabels →
        (table.get label).successor = true ∧ (table.get label).target = false ∧
          (table.get label).multiTarget = false ∧
            (table.get label).callLine =
              lineAt (callMarks (m.analyze { options with normalizeFrames := true }).method.nodes) label := by
  have valid := Method.valid_of_analyzed analyzed
  -- Without normalization the method stays as it is, so its own stream has no subroutine.
  rw [Method.analyze_of_valid valid] at analyzed
  obtain ⟨before, run, rfl⟩ := Method.scan_ok.mp analyzed
  have rawDescribed := Scan.describes_method valid.fits run
  obtain ⟨final, result, described⟩ := Method.analyze_settled valid options ((Scan.exists_run_iff _ _).mp ⟨before, run⟩)
  refine ⟨final.marks, result, fun label below => ?_, fun label above small => ?_⟩
  · obtain ⟨displaced, kept⟩ := rawDescribed.compare below valid.distinct described
    exact ⟨rawDescribed.targets label, displaced, kept,
      (described.calls label).trans (lineAt_callMarks_move below m.nodes)⟩
  · obtain ⟨last, sameMarks, lastDescribed⟩ := Method.describes_analyzed result
    have calls := lastDescribed.calls label
    rw [Method.analyze_of_valid valid] at small
    simp only [Method.prepare, if_true, Method.normalize_eq_move valid.framed, Method.extend, Method.numLabels,
      List.length_append, List.length_map] at small
    have unused : label ∉ placements m.nodes := fun placed => absurd (bounded.placed_lt placed) (by omega)
    obtain ⟨runs, noEntry⟩ := arrival_new unused ((mem_new_iff _ _ _ _).mpr ⟨above, small⟩)
    have tallied := described.targets label
    rw [arrivals, transfers_move, bounded.transfers above, noEntry] at tallied
    exact ⟨(described.successors label).mpr runs, tallied.1, tallied.2, sameMarks ▸ calls⟩

/-- The label of a call that stands behind a line mark and a frame, at the entry of the method. -/
def Method.entryFrame : Method where
  name := "entryFrame"
  descriptor := "()V"
  labels := ["entry", "call"]
  nodes :=
    [.label ⟨0⟩, .line { number := 7, start := ⟨0⟩ }, .frame { kind := .same, locals := [], stack := [] }, .label ⟨1⟩,
      .insn (.method .invokestatic { owner := "A", name := "f", descriptor := "()V" } false),
      .insn (.jump .goto ⟨1⟩)]

theorem analyze_normalized_entryFrame :
    Method.entryFrame.Bounded ∧ Displaced Method.entryFrame.nodes ⟨1⟩ ∧
      ∃ raw table, (Method.entryFrame.analyze { normalizeFrames := false }).result = .ok raw ∧
        (Method.entryFrame.analyze {}).result = .ok table ∧
        (raw.get ⟨1⟩).Tallied 2 ∧ (raw.get ⟨0⟩).callLine = some 7 ∧
        (table.get ⟨1⟩).successor = true ∧ (table.get ⟨1⟩).Tallied 1 ∧ (table.get ⟨0⟩).callLine = none ∧
        (table.get ⟨2⟩).successor = true ∧ (table.get ⟨2⟩).callLine = some 7 := by
  have bounded : Method.entryFrame.Bounded := by decide
  have displaced : Displaced Method.entryFrame.nodes ⟨1⟩ := ⟨_, _, [], ⟨[.label ⟨0⟩], _, rfl⟩, rfl⟩
  obtain ⟨table, result, old, new⟩ := analyze_normalized Method.entryFrame {} _ bounded rfl
  obtain ⟨tallied, moved, -, -⟩ := old ⟨1⟩ (by decide)
  obtain ⟨-, -, -, calls⟩ := old ⟨0⟩ (by decide)
  obtain ⟨successor, -, -, newCalls⟩ := new ⟨2⟩ (by decide) (by decide)
  exact ⟨bounded, displaced, _, table, rfl, result, tallied, rfl, (moved displaced).1, (moved displaced).2, calls,
    successor, newCalls⟩

end ProbePoints
