import ProbePoints.Proofs.Arrival
import ProbePoints.Proofs.Marks
import ProbePoints.Scan

/-!
# What a scan knows

`Scan.Describes` ties the state of a scan to the ranges and nodes it has taken in. One more range or node keeps it,
so it holds at the end of every scan that is not refused. A scan is refused exactly when it meets a subroutine.
-/

namespace ProbePoints

theorem bind_ok {ε α β : Type} {x : Except ε α} {f : α → Except ε β} {b : β} (h : x >>= f = .ok b) :
    ∃ a, x = .ok a ∧ f a = .ok b := by
  cases x with
  | error e => cases h
  | ok a => exact ⟨a, rfl, h⟩

theorem Opcode.flow_eq_call_iff (op : Opcode) : op.flow = .call ↔ op.form = .method ∨ op.form = .invokeDynamic := by
  cases op <;> decide

/-- Where opcodes take their operands, the instructions of the two call forms are those that call. -/
theorem Instruction.isCall_iff {instruction : Instruction Label} (fits : instruction.Fits) :
    (Node.insn instruction).isCall = true ↔ instruction.form = .method ∨ instruction.form = .invokeDynamic := by
  unfold Instruction.Fits at fits
  simp [Node.isCall, Node.opcode?, Opcode.flow_eq_call_iff, fits]

namespace Scan

/-! ### Single operations -/

theorem call_fallsThrough (scan : Scan) : scan.call.fallsThrough = scan.fallsThrough := by
  unfold call; split <;> rfl

theorem call_atEntry (scan : Scan) : scan.call.atEntry = scan.atEntry := by
  unfold call; split <;> rfl

theorem call_line (scan : Scan) : scan.call.line = scan.line := by
  unfold call; split <;> rfl

theorem operands_fallsThrough (scan : Scan) (instruction : Instruction Label) :
    (scan.operands instruction).fallsThrough = scan.fallsThrough := by
  cases instruction <;> first | rfl | exact scan.call_fallsThrough

theorem operands_atEntry (scan : Scan) (instruction : Instruction Label) :
    (scan.operands instruction).atEntry = scan.atEntry := by
  cases instruction <;> first | rfl | exact scan.call_atEntry

theorem operands_line (scan : Scan) (instruction : Instruction Label) :
    (scan.operands instruction).line = scan.line := by
  cases instruction <;> first | rfl | exact scan.call_line

theorem tallied_call {scan : Scan} {label : Label} {n : Nat} (tallied : (scan.marks.get label).Tallied n) :
    (scan.call.marks.get label).Tallied n := by
  unfold call
  split
  · exact MarkTable.tallied_noteCall _ _ tallied
  · exact tallied

theorem tallied_operands (scan : Scan) {label : Label} {n : Nat} (instruction : Instruction Label)
    (tallied : (scan.marks.get label).Tallied n) :
    ((scan.operands instruction).marks.get label).Tallied
      (n + (if (Node.insn instruction).jumpsTo label then 1 else 0) +
        if (Node.insn instruction).switchesTo label then 1 else 0) := by
  cases instruction with
  | jump op target =>
    simpa [operands, Node.jumpsTo, Node.switchesTo] using MarkTable.tallied_noteTarget target tallied
  | tableSwitch low high fallback targets =>
    simpa [operands, Node.jumpsTo, Node.switchesTo] using MarkTable.tallied_noteSwitch (fallback :: targets) tallied
  | lookupSwitch fallback keys targets =>
    simpa [operands, Node.jumpsTo, Node.switchesTo] using MarkTable.tallied_noteSwitch (fallback :: targets) tallied
  | method op member onInterface => exact tallied_call tallied
  | invokeDynamic name descriptor bootstrap => exact tallied_call tallied
  | _ => exact tallied

theorem successor_call (scan : Scan) (label : Label) :
    (scan.call.marks.get label).successor = (scan.marks.get label).successor := by
  unfold call; split <;> simp

theorem successor_operands (scan : Scan) (instruction : Instruction Label) (label : Label) :
    ((scan.operands instruction).marks.get label).successor = (scan.marks.get label).successor := by
  cases instruction with
  | method op member onInterface => exact scan.successor_call label
  | invokeDynamic name descriptor bootstrap => exact scan.successor_call label
  | _ => simp [operands]

theorem callLine_call (scan : Scan) (label : Label) :
    (scan.call.marks.get label).callLine =
      (lineAt scan.line.toList label).or (scan.marks.get label).callLine := by
  unfold call
  split
  · rename_i mark line
    by_cases same : mark.start = label <;> simp [line, lineAt_singleton, same]
  · rename_i line
    simp [line, lineAt]

theorem callLine_operands (scan : Scan) {instruction : Instruction Label} (fits : instruction.Fits) (label : Label) :
    ((scan.operands instruction).marks.get label).callLine =
      (lineAt (if (Node.insn instruction).isCall then scan.line.toList else []) label).or
        (scan.marks.get label).callLine := by
  have calls := Instruction.isCall_iff fits
  cases instruction with
  | method op member onInterface => simpa [operands, calls, Instruction.form] using scan.callLine_call label
  | invokeDynamic name descriptor bootstrap => simpa [operands, calls, Instruction.form] using scan.callLine_call label
  | _ => simp [operands, calls, Instruction.form, lineAt]

theorem tallied_place {scan : Scan} (here : Label) {label : Label} {n : Nat}
    (tallied : (scan.marks.get label).Tallied n) :
    ((scan.place here).marks.get label).Tallied (n + if scan.atEntry = true ∧ here = label then 1 else 0) := by
  have entered : ((if scan.atEntry then scan.marks.noteTarget here else scan.marks).get label).Tallied
      (n + if scan.atEntry = true ∧ here = label then 1 else 0) := by
    cases entry : scan.atEntry with
    | true => simpa using MarkTable.tallied_noteTarget here tallied
    | false => simpa using tallied
  unfold place
  cases falls : scan.fallsThrough with
  | true => exact MarkTable.tallied_noteSuccessor here entered
  | false => exact entered

theorem successor_place (scan : Scan) (here label : Label) :
    ((scan.place here).marks.get label).successor =
      ((scan.marks.get label).successor || (scan.fallsThrough && decide (here = label))) := by
  cases entry : scan.atEntry <;> cases falls : scan.fallsThrough <;> simp [place, entry, falls]

theorem callLine_place (scan : Scan) (here label : Label) :
    ((scan.place here).marks.get label).callLine = (scan.marks.get label).callLine := by
  cases entry : scan.atEntry <;> cases falls : scan.fallsThrough <;> simp [place, entry, falls]

/-! ### Steps -/

/-- A node that is taken in is either an instruction other than a subroutine's, or no instruction. -/
theorem step_insn {scan next : Scan} {instruction : Instruction Label}
    (stepped : scan.step (.insn instruction) = .ok next) :
    instruction.opcode.flow ≠ .subroutine ∧
      next = ({ scan with fallsThrough := instruction.opcode.flow.continues, atEntry := false } : Scan).operands
        instruction := by
  obtain ⟨passed, pass, rest⟩ := bind_ok stepped
  unfold Scan.pass at pass
  split at pass
  · cases pass
  · rename_i allowed
    cases pass
    cases rest
    exact ⟨allowed, rfl⟩

/-- The state of a scan matches the ranges and nodes it has taken in. -/
structure Describes (ranges : List (ProtectedRange Label)) (seen : List (Node Label)) (scan : Scan) : Prop where
  fallsThrough : scan.fallsThrough = (lastOpcode? seen).any (·.flow.continues)
  atEntry : scan.atEntry = (lastOpcode? seen).isNone
  line : scan.line = lastMark? seen
  targets : ∀ label, (scan.marks.get label).Tallied (arrivals ranges seen label)
  successors : ∀ label, (scan.marks.get label).successor = true ↔ RunsInto seen label
  calls : ∀ label, (scan.marks.get label).callLine = lineAt (callMarks seen) label

theorem describes_start : ({} : Scan).Describes [] [] where
  fallsThrough := rfl
  atEntry := rfl
  line := rfl
  targets _ := Marks.tallied_unmarked
  successors label := by simp [RunsInto]
  calls _ := rfl

theorem describes_range {ranges : List (ProtectedRange Label)} {scan : Scan} (range : ProtectedRange Label)
    (described : scan.Describes ranges []) : (scan.range range).Describes (ranges ++ [range]) [] where
  fallsThrough := described.fallsThrough
  atEntry := described.atEntry
  line := described.line
  targets label := by
    have started := MarkTable.tallied_noteTarget range.start (described.targets label)
    have handled := MarkTable.tallied_noteTarget range.handler started
    simpa [Scan.range, arrivals, transfers_concat_range, Nat.add_right_comm] using handled
  successors label := by simpa [Scan.range] using described.successors label
  calls label := by simpa [Scan.range] using described.calls label

theorem describes_insn {ranges : List (ProtectedRange Label)} {seen : List (Node Label)} {scan next : Scan}
    {instruction : Instruction Label} (described : scan.Describes ranges seen) (fits : instruction.Fits)
    (stepped : scan.step (.insn instruction) = .ok next) :
    next.Describes ranges (seen ++ [.insn instruction]) := by
  obtain ⟨-, rfl⟩ := step_insn stepped
  refine ⟨?_, ?_, ?_, fun label => ?_, fun label => ?_, fun label => ?_⟩
  · simp [operands_fallsThrough, lastOpcode?_append, lastOpcode?_singleton, Node.opcode?]
  · simp [operands_atEntry, lastOpcode?_append, lastOpcode?_singleton, Node.opcode?]
  · simp [operands_line, lastMark?_append, lastMark?_singleton, Node.mark?, described.line]
  · have operated := tallied_operands
      { scan with fallsThrough := instruction.opcode.flow.continues, atEntry := false } instruction
      (described.targets label)
    simpa [arrivals, transfers_concat, entries_concat, Nat.add_right_comm] using operated
  · simp [successor_operands, described.successors label, runsInto_concat]
  · simp [callLine_operands _ fits, described.calls label, described.line, callMarks_concat, lineAt_append]

/-- A node that is neither an instruction nor a label can only set the line mark in force. -/
theorem describes_silent {ranges : List (ProtectedRange Label)} {seen : List (Node Label)} {scan : Scan}
    {node : Node Label} (noOpcode : node.opcode? = none) (unplaced : node.placed? = none)
    (described : scan.Describes ranges seen) :
    ({ scan with line := node.mark?.or scan.line } : Scan).Describes ranges (seen ++ [node]) := by
  have noLabel : ∀ label, node ≠ .label label := by
    rintro label rfl
    cases unplaced
  refine ⟨?_, ?_, ?_, fun label => ?_, fun label => ?_, fun label => ?_⟩
  · simp [lastOpcode?_append, lastOpcode?_singleton, noOpcode, described.fallsThrough]
  · simp [lastOpcode?_append, lastOpcode?_singleton, noOpcode, described.atEntry]
  · simp [lastMark?_append, lastMark?_singleton, described.line]
  · have jumps : node.jumpsTo label = false := by cases node <;> first | rfl | cases noOpcode
    have switches : node.switchesTo label = false := by cases node <;> first | rfl | cases noOpcode
    simpa [arrivals, transfers_concat, entries_concat, jumps, switches, noLabel] using described.targets label
  · simp [described.successors label, runsInto_concat, noLabel]
  · simp [described.calls label, callMarks_concat, Node.isCall, noOpcode]

theorem describes_step {ranges : List (ProtectedRange Label)} {seen : List (Node Label)} {scan next : Scan}
    {node : Node Label} (described : scan.Describes ranges seen)
    (fits : ∀ instruction, node = .insn instruction → instruction.Fits) (stepped : scan.step node = .ok next) :
    next.Describes ranges (seen ++ [node]) := by
  cases node with
  | insn instruction => exact describes_insn described (fits instruction rfl) stepped
  | label here =>
    cases stepped
    refine ⟨?_, ?_, ?_, fun label => ?_, fun label => ?_, fun label => ?_⟩
    · simp [place, lastOpcode?_append, lastOpcode?_singleton, Node.opcode?, described.fallsThrough]
    · simp [place, lastOpcode?_append, lastOpcode?_singleton, Node.opcode?, described.atEntry]
    · simp [place, lastMark?_append, lastMark?_singleton, Node.mark?, described.line]
    · have placed := tallied_place here (described.targets label)
      simpa [arrivals, transfers_concat, entries_concat, described.atEntry, Node.jumpsTo, Node.switchesTo,
        Nat.add_assoc] using placed
    · simp [successor_place, described.successors label, runsInto_concat, described.fallsThrough, and_comm]
    · simp [callLine_place, described.calls label, callMarks_concat, Node.isCall, Node.opcode?]
  | frame shape =>
    cases stepped
    exact describes_silent rfl rfl described
  | line mark =>
    cases stepped
    exact describes_silent rfl rfl described

/-! ### Runs -/

theorem describes_ranges (ranges : List (ProtectedRange Label)) {earlier : List (ProtectedRange Label)} {scan : Scan}
    (described : scan.Describes earlier []) : (ranges.foldl range scan).Describes (earlier ++ ranges) [] := by
  induction ranges generalizing earlier scan with
  | nil => simpa using described
  | cons first rest ih => simpa using ih (describes_range first described)

theorem describes_run {ranges : List (ProtectedRange Label)} {seen nodes : List (Node Label)} {scan final : Scan}
    (described : scan.Describes ranges seen) (fits : ∀ instruction, .insn instruction ∈ nodes → instruction.Fits)
    (run : nodes.foldlM step scan = .ok final) : final.Describes ranges (seen ++ nodes) := by
  induction nodes generalizing seen scan with
  | nil =>
    cases run
    simpa using described
  | cons node rest ih =>
    rw [List.foldlM_cons] at run
    obtain ⟨next, stepped, run⟩ := bind_ok run
    have described := describes_step described (fun instruction same => fits instruction (by simp [same])) stepped
    simpa using ih described (fun instruction member => fits instruction (List.mem_cons_of_mem _ member)) run

/-- The last state of a scan describes the whole method. -/
theorem describes_method {m : Method} {final : Scan}
    (fits : ∀ instruction, .insn instruction ∈ m.nodes → instruction.Fits)
    (run : ofMethod m = .ok final) : final.Describes m.ranges m.nodes := by
  have started : (ofRanges m).Describes m.ranges [] := by
    simpa [ofRanges] using describes_ranges m.ranges describes_start
  simpa using describes_run started fits run

/-! ### Refusals -/

theorem step_eq_error_iff (scan : Scan) (node : Node Label) (op : Opcode) :
    scan.step node = .error op ↔ node.opcode? = some op ∧ op.flow = .subroutine := by
  cases node with
  | insn instruction =>
    by_cases refused : instruction.opcode.flow = .subroutine
    · have failed : scan.step (.insn instruction) = .error instruction.opcode := by
        simp [step, pass, refused, bind, Except.bind]
      simp only [failed, Except.error.injEq, Node.opcode?, Option.some.injEq]
      exact ⟨fun same => ⟨same, same ▸ refused⟩, fun same => same.1⟩
    · simp only [step, pass, refused, if_false, bind, Except.bind, pure, Except.pure, Node.opcode?, Option.some.injEq]
      refine iff_of_false (by simp) ?_
      rintro ⟨rfl, subroutine⟩
      exact refused subroutine
  | label here => simp [step, Node.opcode?]
  | frame shape => simp [step, Node.opcode?]
  | line mark => simp [step, Node.opcode?]

/-- A scan is refused at the first opcode of a subroutine. -/
theorem run_eq_error_iff {nodes : List (Node Label)} {scan : Scan} {op : Opcode} :
    nodes.foldlM step scan = .error op ↔ (opcodes nodes).find? (·.flow = .subroutine) = some op := by
  induction nodes generalizing scan with
  | nil => simp [opcodes, pure, Except.pure]
  | cons node rest ih =>
    have parted : opcodes (node :: rest) = opcodes [node] ++ opcodes rest := opcodes_append [node] rest
    rw [List.foldlM_cons, parted, List.find?_append]
    cases stepped : scan.step node with
    | error refused =>
      obtain ⟨found, subroutine⟩ := (step_eq_error_iff ..).mp stepped
      simp [bind, Except.bind, opcodes, found, subroutine]
    | ok next =>
      have passed : (opcodes [node]).find? (·.flow = .subroutine) = none := by
        refine List.find?_eq_none.mpr fun op member subroutine => ?_
        have found : node.opcode? = some op := by simpa [opcodes] using member
        have refused := (step_eq_error_iff scan node op).mpr ⟨found, by simpa using subroutine⟩
        rw [stepped] at refused
        cases refused
      rw [passed]
      exact ih

theorem exists_run_iff (scan : Scan) (nodes : List (Node Label)) :
    (∃ final, nodes.foldlM step scan = .ok final) ↔ (opcodes nodes).find? (·.flow = .subroutine) = none := by
  cases run : nodes.foldlM step scan with
  | error op => simp [run_eq_error_iff.mp run]
  | ok final =>
    cases found : (opcodes nodes).find? (·.flow = .subroutine) with
    | none => simp
    | some op =>
      rw [run_eq_error_iff.mpr found] at run
      cases run

end Scan

end ProbePoints
