import ProbePoints.Analysis
import ProbePoints.Proofs.Scan
import ProbePoints.Proofs.Settling

/-!
# The marks of an analyzed method

An analysis that succeeds ends in a scan of the method it leaves behind, so its marks are the ones the stream and the
ranges of that method call for.
-/

namespace ProbePoints

namespace Method

theorem Valid.fits_of_kept {m : Method} (valid : m.Valid) {instruction : Instruction Label}
    (kept : .insn instruction ∈ m.nodes ∨ Node.insn instruction = spacer) : instruction.Fits := by
  rcases kept with kept | spaced
  · exact valid.fits instruction kept
  · obtain rfl : instruction = .plain .nop := by simpa [spacer] using spaced
    rfl

/-- The preparation of a valid method succeeds. Its instructions are those of the method and spacers. -/
theorem prepare_of_valid {m : Method} (valid : m.Valid) (options : Options) :
    (∃ count, (m.prepare options).result = .ok count) ∧ (m.prepare options).method.ranges = m.ranges ∧
      ∀ instruction, .insn instruction ∈ (m.prepare options).method.nodes →
        .insn instruction ∈ m.nodes ∨ Node.insn instruction = spacer := by
  unfold prepare
  split
  · rw [normalize_eq_move valid.framed]
    exact ⟨⟨_, rfl⟩, rfl, fun instruction member => mem_move ((mem_map_moved rfl).mp member)⟩
  · exact ⟨⟨_, rfl⟩, rfl, fun instruction member => .inl member⟩

/-- A valid method is scanned as the preparation leaves it. -/
theorem analyze_of_valid {m : Method} (valid : m.Valid) (options : Options) :
    m.analyze options =
      { method := (m.prepare options).method, result := (m.prepare options).method.scan } := by
  obtain ⟨⟨count, prepared⟩, -⟩ := prepare_of_valid valid options
  simp only [analyze, m.check_eq_ok_iff.mpr valid, prepared]

theorem valid_of_analyzed {m : Method} {options : Options} {table : MarkTable}
    (analyzed : (m.analyze options).result = .ok table) : m.Valid := by
  unfold analyze at analyzed
  cases checked : m.check with
  | error rejection => simp [checked] at analyzed
  | ok _ => exact m.check_eq_ok_iff.mp checked

theorem scan_ok {m : Method} {table : MarkTable} :
    m.scan = .ok table ↔ ∃ final, Scan.ofMethod m = .ok final ∧ final.marks = table := by
  unfold scan
  cases Scan.ofMethod m with
  | error op => simp
  | ok final => simp

/-- The marks of an analyzed method describe the method that the analysis leaves behind. -/
theorem describes_analyzed {m : Method} {options : Options} {table : MarkTable}
    (analyzed : (m.analyze options).result = .ok table) :
    ∃ final : Scan, final.marks = table ∧
      final.Describes (m.analyze options).method.ranges (m.analyze options).method.nodes := by
  have valid := valid_of_analyzed analyzed
  rw [analyze_of_valid valid] at analyzed ⊢
  obtain ⟨final, run, marks⟩ := scan_ok.mp analyzed
  refine ⟨final, marks, Scan.describes_method (fun instruction member => ?_) run⟩
  exact valid.fits_of_kept ((prepare_of_valid valid options).2.2 instruction member)

/-! ### Targets -/

/-- A label is a target if control can arrive there from elsewhere in one way, and a multiple target if it can in two:
over ranges, jumps, switches and the entry of the method, counted on the method that the analysis leaves behind. -/
theorem target_iff_arrivals (m : Method) (options : Options) (table : MarkTable)
    (analyzed : (m.analyze options).result = .ok table) (label : Label) :
    ((table.get label).target = true ↔
        1 ≤ arrivals (m.analyze options).method.ranges (m.analyze options).method.nodes label) ∧
      ((table.get label).multiTarget = true ↔
        2 ≤ arrivals (m.analyze options).method.ranges (m.analyze options).method.nodes label) := by
  obtain ⟨final, rfl, described⟩ := describes_analyzed analyzed
  obtain ⟨once, twice⟩ := described.targets label
  rw [once, twice]
  simp

/-- A switch with two keys for one label that a jump, a range and a handler lead to as well, behind a line mark that
moves. -/
def crossroads : Method where
  name := "crossroads"
  descriptor := "(I)V"
  labels := ["entry", "middle", "exit"]
  ranges := [{ start := ⟨1⟩, stop := ⟨2⟩, handler := ⟨1⟩, caught := none }]
  nodes :=
    [.label ⟨0⟩, .line { number := 1, start := ⟨0⟩ }, .frame { kind := .same, locals := [], stack := [] },
      .insn (.var .iload 0), .insn (.tableSwitch 0 2 ⟨2⟩ [⟨1⟩, ⟨2⟩, ⟨1⟩]),
      .label ⟨1⟩, .insn (.var .iload 0), .insn (.jump .ifeq ⟨1⟩),
      .label ⟨2⟩, .insn (.plain .returnVoid)]

theorem target_iff_arrivals_crossroads :
    ∃ table, (crossroads.analyze {}).result = .ok table ∧
      arrivals (crossroads.analyze {}).method.ranges (crossroads.analyze {}).method.nodes ⟨1⟩ = 4 ∧
      (table.get ⟨1⟩).multiTarget = true :=
  ⟨_, rfl, by decide, (target_iff_arrivals crossroads {} _ rfl ⟨1⟩).2.mpr (by decide)⟩

/-! ### Successors -/

/-- Control can run on into a label exactly if it has a placement for which the last instruction before it is a
conditional jump, a call or one of the instructions that do nothing to the flow of control. What stands in between and
whether that instruction can be reached does not matter. -/
theorem successor_iff_last_before (m : Method) (options : Options) (table : MarkTable)
    (analyzed : (m.analyze options).result = .ok table) (label : Label) :
    (table.get label).successor = true ↔
      ∃ before after op, (m.analyze options).method.nodes = before ++ .label label :: after ∧
        lastOpcode? before = some op ∧
          (op.flow = .conditionalJump ∨ op.flow = .call ∨ op.flow = .other) := by
  obtain ⟨final, rfl, described⟩ := describes_analyzed analyzed
  rw [described.successors label]
  constructor
  · rintro ⟨before, op, ⟨after, placed⟩, last, continues⟩
    exact ⟨before, after, op, by simpa using placed.symm, last, op.flow.continues_iff.mp continues⟩
  · rintro ⟨before, after, op, placed, last, flow⟩
    exact ⟨before, op, ⟨after, by simpa using placed.symm⟩, last, op.flow.continues_iff.mpr flow⟩

/-- Two labels behind an instruction that cannot be reached, with a line mark that moves and a frame between them. -/
def deadEnd : Method where
  name := "deadEnd"
  descriptor := "()V"
  labels := ["entry", "near", "far"]
  nodes :=
    [.label ⟨0⟩, .insn (.jump .goto ⟨2⟩), .insn (.plain .nop), .label ⟨1⟩, .line { number := 4, start := ⟨1⟩ },
      .frame { kind := .same, locals := [], stack := [] }, .label ⟨2⟩, .insn (.plain .returnVoid)]

theorem successor_iff_last_before_deadEnd :
    ∃ table, (deadEnd.analyze { normalizeFrames := false }).result = .ok table ∧
      (table.get ⟨2⟩).successor = true ∧ (table.get ⟨0⟩).successor = false := by
  refine ⟨_, rfl, ?_, rfl⟩
  refine (successor_iff_last_before deadEnd { normalizeFrames := false } _ rfl ⟨2⟩).mpr ?_
  exact ⟨deadEnd.nodes.take 6, deadEnd.nodes.drop 7, .nop, rfl, rfl, .inr (.inr rfl)⟩

end Method

end ProbePoints
