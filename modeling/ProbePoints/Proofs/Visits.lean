import ProbePoints.Proofs.Scan

/-!
# Visits in any order

A scan as a visitor sees it: one call for each range or node, on a state that is changed in place, so that a call which
fails could leave half of its work behind. `run_visit_node` shows that none does, `trace_ends` that such a visitor ends
where the trace of the method does, and `visited_ofMethod` that the scan of a method is one such sequence of calls. The
marks of a label only grow, and `visits_sound` holds for every sequence, also for one that no method gives rise to and
past calls that fail.
-/

namespace ProbePoints

/-! ### Marks that grow -/

/-- What a call may do to the marks of a label. -/
structure Marks.Grows (before after : Marks) : Prop where
  target : before.target = true → after.target = true
  multiTarget : before.multiTarget = true → after.multiTarget = true
  successor : before.successor = true → after.successor = true
  callLine : before.callLine.isSome = true → after.callLine.isSome = true
  ordered : (before.multiTarget = true → before.target = true) → after.multiTarget = true → after.target = true
  counted : before.counted = false → after.counted = false

namespace Marks.Grows

theorem refl (marks : Marks) : marks.Grows marks := ⟨id, id, id, id, id, id⟩

theorem trans {before middle after : Marks} (first : before.Grows middle) (second : middle.Grows after) :
    before.Grows after where
  target := second.target ∘ first.target
  multiTarget := second.multiTarget ∘ first.multiTarget
  successor := second.successor ∘ first.successor
  callLine := second.callLine ∘ first.callLine
  ordered := second.ordered ∘ first.ordered
  counted := second.counted ∘ first.counted

end Marks.Grows

theorem Marks.addTarget_target (marks : Marks) : marks.addTarget.target = true := by
  cases target : marks.target <;> simp [addTarget, target]

theorem Marks.grows_addTarget (marks : Marks) : marks.Grows marks.addTarget where
  target _ := marks.addTarget_target
  multiTarget multi := by cases target : marks.target <;> simp [addTarget, target, multi]
  successor := by simp
  callLine := by simp
  ordered _ _ := marks.addTarget_target
  counted done := by cases target : marks.target <;> simp [addTarget, target, done]

namespace MarkTable

/-- What a call may do to a table: an entry stays, or marks are written that have grown and say something. -/
structure Grows (before after : MarkTable) : Prop where
  entries : ∀ label, after.get? label = before.get? label ∨
    ∃ marks, after.get? label = some marks ∧ (before.get label).Grows marks ∧ marks.noted = true

theorem Grows.refl (table : MarkTable) : table.Grows table := ⟨fun _ => .inl rfl⟩

theorem Grows.get {before after : MarkTable} (grows : before.Grows after) (label : Label) :
    (before.get label).Grows (after.get label) := by
  rcases grows.entries label with same | ⟨marks, written, grown, -⟩
  · unfold MarkTable.get
    rw [same]
    exact .refl _
  · show (before.get label).Grows ((after.get? label).getD {})
    rw [written]
    exact grown

theorem Grows.trans {before middle after : MarkTable} (first : before.Grows middle) (second : middle.Grows after) :
    before.Grows after := by
  refine ⟨fun label => ?_⟩
  rcases second.entries label with same | ⟨marks, written, grown, noted⟩
  · rw [same]
    exact first.entries label
  · exact .inr ⟨marks, written, (first.get label).trans grown, noted⟩

theorem grows_update {table : MarkTable} {label : Label} {f : Marks → Marks}
    (grown : (table.get label).Grows (f (table.get label))) (noted : (f (table.get label)).noted = true) :
    table.Grows (table.update label f) := by
  refine ⟨fun other => ?_⟩
  rw [get?_update]
  split
  · rename_i same
    exact .inr ⟨_, rfl, same ▸ grown, noted⟩
  · exact .inl rfl

theorem grows_noteTarget (table : MarkTable) (label : Label) : table.Grows (table.noteTarget label) :=
  grows_update (Marks.grows_addTarget _) (by simp [Marks.noted, Marks.addTarget_target])

theorem grows_noteSuccessor (table : MarkTable) (label : Label) : table.Grows (table.noteSuccessor label) :=
  grows_update ⟨id, id, fun _ => rfl, id, id, id⟩ (by simp [Marks.noted])

theorem grows_noteCall (table : MarkTable) (label : Label) (line : UInt32) :
    table.Grows (table.noteCall label line) :=
  grows_update ⟨id, id, id, fun _ => rfl, id, id⟩ (by simp [Marks.noted])

/-- The counted flags that a switch sets on its way are gone at its end. -/
theorem grows_noteSwitch (table : MarkTable) (labels : List Label) : table.Grows (table.noteSwitch labels) := by
  refine ⟨fun label => ?_⟩
  rw [get?_noteSwitch]
  split
  · have grown := (table.get label).grows_addTarget
    have cleared : (table.get label).Grows { (table.get label).addTarget with counted := false } :=
      { grown with counted := fun _ => rfl }
    exact .inr ⟨_, rfl, cleared, by simp [Marks.noted, Marks.addTarget_target]⟩
  · exact .inl rfl

end MarkTable

/-! ### Calls -/

/-- Work on the state of a scan in place. What was changed before a failure stays changed. -/
abbrev Visit := ExceptT Opcode (StateM Scan)

/-- What a visitor is called with. -/
inductive Element where
  | range (range : ProtectedRange Label)
  | node (node : Node Label)
  deriving DecidableEq, Repr

namespace Visit

/-- Changes the marks. -/
def mark (f : MarkTable → MarkTable) : Visit Unit := modify fun scan => { scan with marks := f scan.marks }

/-- Passes an opcode. -/
def pass (op : Opcode) : Visit Unit := do
  if op.flow = .subroutine then throw op
  modify fun scan => { scan with fallsThrough := op.flow.continues }
  modify fun scan => { scan with atEntry := false }

end Visit

/-- Visits an element. -/
def Element.visit : Element → Visit Unit
  | .range block => do
    Visit.mark (·.noteTarget block.start)
    Visit.mark (·.noteTarget block.handler)
  | .node (.insn instruction) => do
    Visit.pass instruction.opcode
    modify (·.operands instruction)
  | .node (.label here) => do
    if (← get).atEntry then Visit.mark (·.noteTarget here)
    if (← get).fallsThrough then Visit.mark (·.noteSuccessor here)
  | .node (.frame _) => pure ()
  | .node (.line mark) => modify fun scan => { scan with line := some mark }

theorem run_visit_range (scan : Scan) (block : ProtectedRange Label) :
    (Element.range block).visit.run.run scan = (.ok (), scan.range block) := rfl

theorem run_visit_node (scan : Scan) (node : Node Label) :
    (Element.node node).visit.run.run scan =
      match scan.step node with
      | .ok next => (.ok (), next)
      | .error op => (.error op, scan) := by
  cases node with
  | insn instruction =>
    -- Only the opcode can be refused, and this comes before anything is changed.
    by_cases refused : instruction.opcode.flow = .subroutine
    · simp only [Element.visit, Visit.pass, Scan.step, Scan.pass, refused, if_true]
      rfl
    · simp only [Element.visit, Visit.pass, Scan.step, Scan.pass, refused, if_false]
      rfl
  | label here =>
    obtain ⟨falls, entry, line, marks⟩ := scan
    cases falls <;> cases entry <;> rfl
  | frame shape => rfl
  | line mark => rfl

/-! ### Traces -/

namespace Scan

/-- How a traced scan ended. -/
def Trace.ending (trace : Trace) : Except Opcode Unit :=
  match trace.refused with
  | some op => .error op
  | none => .ok ()

theorem foldlM_step_eq (scan : Scan) (nodes : List (Node Label)) :
    nodes.foldlM step scan =
      (scan.traceNodes nodes).ending.map fun _ => (scan.traceNodes nodes).states.getLastD scan := by
  induction nodes generalizing scan with
  | nil => rfl
  | cons node rest ih =>
    rw [List.foldlM_cons, traceNodes]
    cases scan.step node with
    | error op => rfl
    | ok next =>
      rw [List.getLastD_cons]
      exact ih next

theorem run_forM_node (scan : Scan) (nodes : List (Node Label)) :
    (forM nodes fun node => (Element.node node).visit).run.run scan =
      ((scan.traceNodes nodes).ending, (scan.traceNodes nodes).states.getLastD scan) := by
  induction nodes generalizing scan with
  | nil => rfl
  | cons node rest ih =>
    rw [List.forM_cons, ExceptT.run_bind, StateT.run_bind, run_visit_node, traceNodes]
    cases scan.step node with
    | error op => rfl
    | ok next =>
      rw [List.getLastD_cons]
      exact ih next

theorem run_forM_range (scan : Scan) (ranges : List (ProtectedRange Label)) :
    (forM ranges fun block => (Element.range block).visit).run.run scan = (.ok (), ranges.foldl range scan) := by
  induction ranges generalizing scan with
  | nil => rfl
  | cons block rest ih =>
    rw [List.forM_cons, ExceptT.run_bind, StateT.run_bind, run_visit_range]
    exact ih (scan.range block)

theorem getLastD_traceRanges (scan : Scan) (ranges : List (ProtectedRange Label)) (later : List Scan) :
    (scan.traceRanges ranges ++ later).getLastD scan = later.getLastD (ranges.foldl range scan) := by
  induction ranges generalizing scan with
  | nil => rfl
  | cons block rest ih =>
    rw [traceRanges, List.cons_append, List.getLastD_cons]
    exact ih (scan.range block)

/-- The trace of a method ends as the scan does, in the state of the scan. A visitor that is sent through the method
ends the same way, and if it fails it is left in the last state that the trace shows. -/
theorem trace_ends (m : Method) :
    ofMethod m = ((trace m).ending.map fun _ => (trace m).states.getLastD {}) ∧
      (m.visitM (fun block => (Element.range block).visit) fun node => (Element.node node).visit).run.run {} =
        ((trace m).ending, (trace m).states.getLastD {}) := by
  have last : (trace m).states.getLastD {} = ((ofRanges m).traceNodes m.nodes).states.getLastD (ofRanges m) :=
    getLastD_traceRanges {} m.ranges _
  have ending : (trace m).ending = ((ofRanges m).traceNodes m.nodes).ending := rfl
  rw [last, ending]
  constructor
  · exact foldlM_step_eq (ofRanges m) m.nodes
  · rw [Method.visitM, List.forM_eq_forM, ExceptT.run_bind, StateT.run_bind, run_forM_range]
    exact run_forM_node (ofRanges m) m.nodes

end Scan

/-! ### Sequences of calls -/

/-- What holds of the state of a scan between calls. -/
structure Scan.Sound (scan : Scan) : Prop where
  /-- No switch is being counted. -/
  uncounted : ∀ label, (scan.marks.get label).counted = false
  ordered : ∀ label, (scan.marks.get label).multiTarget = true → (scan.marks.get label).target = true
  /-- An entry says something. -/
  noted : ∀ label marks, scan.marks.get? label = some marks →
    marks.target = true ∨ marks.successor = true ∨ marks.callLine.isSome = true
  entry : scan.atEntry = true → scan.fallsThrough = false

/-- The state after a sequence of calls, each on what the one before has left, whether or not that one failed. -/
def Scan.visited (scan : Scan) (elements : List Element) : Scan :=
  elements.foldl (fun scan element => (element.visit.run.run scan).2) scan

namespace Scan

theorem sound_start : ({} : Scan).Sound where
  uncounted _ := rfl
  ordered _ := id
  noted label marks found := by cases found
  entry _ := rfl

theorem grows_call (scan : Scan) : scan.marks.Grows scan.call.marks := by
  unfold call
  split
  · exact MarkTable.grows_noteCall ..
  · exact .refl _

theorem grows_operands (scan : Scan) (instruction : Instruction Label) :
    scan.marks.Grows (scan.operands instruction).marks := by
  cases instruction with
  | method op member onInterface => exact scan.grows_call
  | invokeDynamic name descriptor bootstrap => exact scan.grows_call
  | jump op target => exact MarkTable.grows_noteTarget ..
  | tableSwitch low high fallback targets => exact MarkTable.grows_noteSwitch ..
  | lookupSwitch fallback keys targets => exact MarkTable.grows_noteSwitch ..
  | _ => exact .refl _

theorem grows_place (scan : Scan) (here : Label) : scan.marks.Grows (scan.place here).marks := by
  have entered : scan.marks.Grows (if scan.atEntry then scan.marks.noteTarget here else scan.marks) := by
    split
    · exact MarkTable.grows_noteTarget ..
    · exact .refl _
  unfold place
  dsimp only
  split
  · exact entered.trans (MarkTable.grows_noteSuccessor ..)
  · exact entered

theorem grows_step {scan next : Scan} {node : Node Label} (stepped : scan.step node = .ok next) :
    scan.marks.Grows next.marks := by
  cases node with
  | insn instruction =>
    obtain ⟨-, rfl⟩ := step_insn stepped
    exact grows_operands { scan with fallsThrough := instruction.opcode.flow.continues, atEntry := false } instruction
  | label here =>
    cases stepped
    exact scan.grows_place here
  | frame shape =>
    cases stepped
    exact .refl _
  | line mark =>
    cases stepped
    exact .refl _

theorem entry_step {scan next : Scan} {node : Node Label} (stepped : scan.step node = .ok next)
    (entry : scan.atEntry = true → scan.fallsThrough = false) : next.atEntry = true → next.fallsThrough = false := by
  cases node with
  | insn instruction =>
    obtain ⟨-, rfl⟩ := step_insn stepped
    simp [operands_atEntry]
  | label here =>
    cases stepped
    exact entry
  | frame shape =>
    cases stepped
    exact entry
  | line mark =>
    cases stepped
    exact entry

/-- Growth keeps what holds between calls. -/
theorem Sound.of_grows {before after : Scan} (sound : before.Sound) (grows : before.marks.Grows after.marks)
    (entry : after.atEntry = true → after.fallsThrough = false) : after.Sound where
  uncounted label := (grows.get label).counted (sound.uncounted label)
  ordered label := (grows.get label).ordered (sound.ordered label)
  noted label marks found := by
    rcases grows.entries label with same | ⟨written, there, -, noted⟩
    · exact sound.noted label marks (same ▸ found)
    · obtain rfl : written = marks := Option.some.inj (there.symm.trans found)
      simpa [Marks.noted, or_assoc] using noted
  entry := entry

/-- A call takes a sound state to a sound one with more marks, and one that fails changes nothing. -/
theorem visit_cases (scan : Scan) (element : Element) :
    (∃ op, element.visit.run.run scan = (.error op, scan)) ∨
      ∃ next, element.visit.run.run scan = (.ok (), next) ∧ scan.marks.Grows next.marks ∧
        ((scan.atEntry = true → scan.fallsThrough = false) → next.atEntry = true → next.fallsThrough = false) := by
  cases element with
  | range block =>
    exact .inr ⟨_, run_visit_range scan block,
      (MarkTable.grows_noteTarget ..).trans (MarkTable.grows_noteTarget ..), id⟩
  | node node =>
    rw [run_visit_node]
    cases stepped : scan.step node with
    | error op => exact .inl ⟨op, rfl⟩
    | ok next => exact .inr ⟨next, rfl, grows_step stepped, entry_step stepped⟩

/-- The calls that fail are those for an instruction of a subroutine, whatever came before. -/
theorem visit_eq_error_iff (scan : Scan) (element : Element) (op : Opcode) :
    (element.visit.run.run scan).1 = .error op ↔
      ∃ instruction, element = .node (.insn instruction) ∧ instruction.opcode = op ∧ op.flow = .subroutine := by
  cases element with
  | range block =>
    rw [run_visit_range]
    simp
  | node node =>
    have failed : ((Element.node node).visit.run.run scan).1 = .error op ↔ scan.step node = .error op := by
      rw [run_visit_node]
      cases scan.step node <;> simp
    rw [failed, step_eq_error_iff]
    cases node <;> simp [Node.opcode?]

theorem Sound.visit {scan : Scan} (sound : scan.Sound) (element : Element) :
    (element.visit.run.run scan).2.Sound := by
  rcases scan.visit_cases element with ⟨op, failed⟩ | ⟨next, done, grows, entry⟩
  · rw [failed]
    exact sound
  · rw [done]
    exact sound.of_grows grows (entry sound.entry)

theorem Sound.visited {scan : Scan} (sound : scan.Sound) (elements : List Element) :
    (scan.visited elements).Sound := by
  unfold Scan.visited
  induction elements generalizing scan with
  | nil => exact sound
  | cons element rest ih => exact ih (sound.visit element)

/-- The scan of a method visits its ranges and then its nodes. -/
theorem visited_ofMethod {m : Method} {final : Scan} (run : ofMethod m = .ok final) :
    visited {} (m.ranges.map .range ++ m.nodes.map .node) = final := by
  have nodes : ∀ (nodes : List (Node Label)) (scan : Scan), nodes.foldlM step scan = .ok final →
      scan.visited (nodes.map .node) = final := by
    intro nodes
    induction nodes with
    | nil =>
      intro scan run
      cases run
      rfl
    | cons node rest ih =>
      intro scan run
      rw [List.foldlM_cons] at run
      obtain ⟨next, stepped, run⟩ := bind_ok run
      have called := run_visit_node scan node
      rw [stepped] at called
      rw [visited, List.map_cons, List.foldl_cons, called]
      exact ih next run
  have ranges : visited {} (m.ranges.map .range) = ofRanges m := by
    rw [visited, List.foldl_map]
    rfl
  rw [visited, List.foldl_append]
  show (visited {} (m.ranges.map .range)).visited (m.nodes.map .node) = final
  rw [ranges]
  exact nodes m.nodes (ofRanges m) run

theorem sound_ofMethod {m : Method} {final : Scan} (run : ofMethod m = .ok final) : final.Sound := by
  rw [← visited_ofMethod run]
  exact sound_start.visited _

theorem grows_visit (scan : Scan) (element : Element) :
    scan.marks.Grows (element.visit.run.run scan).2.marks := by
  rcases scan.visit_cases element with ⟨op, failed⟩ | ⟨next, done, grows, -⟩
  · rw [failed]
    exact .refl _
  · rw [done]
    exact grows

/-- After every call of any sequence of calls the state is sound. No flag is taken back by the call and no line is lost.
A call fails exactly for an instruction of a subroutine, and then it leaves the whole state as it was. -/
theorem visits_sound (elements : List Element) (element : Element) :
    let before := Scan.visited {} elements
    let ended := element.visit.run.run before
    ended.2.Sound ∧
      (∀ label,
        ((before.marks.get label).target = true → (ended.2.marks.get label).target = true) ∧
        ((before.marks.get label).multiTarget = true → (ended.2.marks.get label).multiTarget = true) ∧
        ((before.marks.get label).successor = true → (ended.2.marks.get label).successor = true) ∧
        ((before.marks.get label).callLine.isSome = true → (ended.2.marks.get label).callLine.isSome = true)) ∧
      ∀ op,
        (ended.1 = .error op ↔
          ∃ instruction, element = .node (.insn instruction) ∧ instruction.opcode = op ∧ op.flow = .subroutine) ∧
        (ended.1 = .error op → ended.2 = before) := by
  intro before ended
  refine ⟨(sound_start.visited elements).visit element, fun label => ?_, fun op =>
    ⟨before.visit_eq_error_iff element op, fun failed => ?_⟩⟩
  · have grown := (before.grows_visit element).get label
    exact ⟨grown.target, grown.multiTarget, grown.successor, grown.callLine⟩
  · rcases before.visit_cases element with ⟨refused, same⟩ | ⟨next, done, -⟩
    · exact congrArg Prod.snd same
    · have impossible : Except.ok () = .error op := (congrArg Prod.fst done).symm.trans failed
      cases impossible

/-- A call that fails, after a failed one, a range whose labels stand nowhere and a switch that names a label twice. -/
theorem visits_sound_refused :
    let before := Scan.visited {}
      [.node (.label ⟨0⟩), .node (.insn (.jump .jsr ⟨1⟩)),
        .range { start := ⟨2⟩, stop := ⟨3⟩, handler := ⟨2⟩, caught := none },
        .node (.insn (.tableSwitch 0 1 ⟨0⟩ [⟨0⟩, ⟨1⟩])), .node (.line { number := 1, start := ⟨1⟩ })]
    let ended := (Element.node (.insn (.var .ret 1))).visit.run.run before
    before.marks.size = 3 ∧ (before.marks.get ⟨0⟩).multiTarget = true ∧ (before.marks.get ⟨1⟩).target = true ∧
      ended.1 = .error .ret ∧ ended.2 = before ∧ ended.2.Sound ∧ (ended.2.marks.get ⟨0⟩).multiTarget = true := by
  intro before ended
  obtain ⟨sound, grown, failures⟩ := visits_sound _ (.node (.insn (.var .ret 1)))
  obtain ⟨fails, same⟩ := failures .ret
  have failed := fails.mpr ⟨_, rfl, rfl, rfl⟩
  exact ⟨rfl, rfl, rfl, failed, same failed, sound, (grown ⟨0⟩).2.1 rfl⟩

end Scan

end ProbePoints
