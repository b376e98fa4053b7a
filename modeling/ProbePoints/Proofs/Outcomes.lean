import ProbePoints.Proofs.Comparison

/-!
# Outcomes of an analysis

How the analysis of a method can end: the check refuses the method, the scan meets a subroutine, or there are marks.
Normalization has no say in this, since what it needs is what the check asks for and it leaves the subroutines in order.
A class is given up at its first method whose rejection the options do not tolerate, and otherwise reports on each
method by itself.
-/

namespace ProbePoints

/-! ### Subroutines -/

/-- The first instruction of the stream that belongs to a subroutine has this opcode. -/
def FirstSubroutine (nodes : List (Node Label)) (op : Opcode) : Prop :=
  op.flow = .subroutine ∧
    ∃ before node after, nodes = before ++ node :: after ∧ node.opcode? = some op ∧
      ∀ earlier ∈ before, ∀ other, earlier.opcode? = some other → other.flow ≠ .subroutine

theorem firstSubroutine_iff (nodes : List (Node Label)) (op : Opcode) :
    FirstSubroutine nodes op ↔ (opcodes nodes).find? (·.flow = .subroutine) = some op := by
  constructor
  · rintro ⟨subroutine, before, node, after, rfl, here, first⟩
    have none : (opcodes before).find? (·.flow = .subroutine) = none := by
      refine List.find?_eq_none.mpr fun other member => ?_
      obtain ⟨earlier, there, found⟩ := List.mem_filterMap.mp member
      simpa using first earlier there other found
    rw [opcodes_append, List.find?_append, none, Option.none_or, opcodes, List.filterMap_cons, here]
    simp [subroutine]
  · intro found
    obtain ⟨subroutine, front, back, same, first⟩ := List.find?_eq_some_iff_append.mp found
    obtain ⟨before, rest, rfl, sameFront, sameBack⟩ := List.filterMap_eq_append_iff.mp same
    obtain ⟨skipped, node, after, rfl, silent, here, -⟩ := List.filterMap_eq_cons_iff.mp sameBack
    refine ⟨by simpa using subroutine, before ++ skipped, node, after, by simp, here, ?_⟩
    intro earlier member other found
    rcases List.mem_append.mp member with member | member
    · have among : other ∈ front := sameFront ▸ List.mem_filterMap.mpr ⟨earlier, member, found⟩
      simpa using first other among
    · rw [silent earlier member] at found
      cases found

theorem exists_firstSubroutine_iff (nodes : List (Node Label)) :
    (∃ op, FirstSubroutine nodes op) ↔ ∃ node ∈ nodes, ∃ op, node.opcode? = some op ∧ op.flow = .subroutine := by
  simp only [firstSubroutine_iff, ← Option.isSome_iff_exists, List.find?_isSome, opcodes, List.mem_filterMap,
    decide_eq_true_eq]
  constructor
  · rintro ⟨op, ⟨node, member, found⟩, subroutine⟩
    exact ⟨node, member, op, found, subroutine⟩
  · rintro ⟨node, member, op, found, subroutine⟩
    exact ⟨op, ⟨node, member, found⟩, subroutine⟩

namespace Method

/-! ### Methods -/

theorem prepare_method (m : Method) (options : Options) :
    (m.prepare options).method = if options.normalizeFrames then m.normalize.method else m := by
  unfold prepare
  split <;> rfl

/-- Normalization changes the stream and hands out labels, and nothing else. -/
theorem normalize_extends (m : Method) : ∃ nodes fresh, m.normalize.method = m.extend nodes fresh := by
  simp only [normalize]
  split
  · exact ⟨_, _, rfl⟩
  · exact ⟨_, _, rfl⟩

theorem prepare_extends (m : Method) (options : Options) :
    ∃ nodes fresh, (m.prepare options).method = m.extend nodes fresh := by
  rw [prepare_method]
  split
  · exact m.normalize_extends
  · exact ⟨m.nodes, [], by simp [extend]⟩

theorem prepare_name (m : Method) (options : Options) : (m.prepare options).method.name = m.name := by
  obtain ⟨nodes, fresh, same⟩ := m.prepare_extends options
  rw [same]
  rfl

/-- Preparation keeps the first subroutine of a valid method. -/
theorem firstSubroutine_prepare {m : Method} (valid : m.Valid) (options : Options) (op : Opcode) :
    FirstSubroutine (m.prepare options).method.nodes op ↔ FirstSubroutine m.nodes op := by
  rw [firstSubroutine_iff, firstSubroutine_iff, prepare_method]
  split
  · rw [normalize_eq_move valid.framed]
    simp only [extend, opcodes_map_moved, find?_subroutine_move]
  · rfl

theorem scan_eq_error_iff (m : Method) (rejection : Rejection) :
    m.scan = .error rejection ↔ ∃ op, FirstSubroutine m.nodes op ∧ rejection = .unsupported op m.name := by
  simp only [firstSubroutine_iff]
  unfold scan
  cases run : Scan.ofMethod m with
  | error refused =>
    rw [Scan.run_eq_error_iff.mp run]
    simp [eq_comm]
  | ok final =>
    rw [(Scan.exists_run_iff _ _).mp ⟨final, run⟩]
    simp

/-- Past the check, an analysis fails only at the first subroutine. -/
theorem analyze_eq_error_iff {m : Method} (accepted : m.check = .ok ()) (options : Options) (rejection : Rejection) :
    (m.analyze options).result = .error rejection ↔
      ∃ op, FirstSubroutine m.nodes op ∧ rejection = .unsupported op m.name := by
  have valid := m.check_eq_ok_iff.mp accepted
  rw [analyze_of_valid valid]
  simp only [scan_eq_error_iff, firstSubroutine_prepare valid, prepare_name]

theorem analyze_of_refused {m : Method} {rejection : Rejection} (refused : m.check = .error rejection)
    (options : Options) : m.analyze options = { method := m, result := .error rejection } := by
  simp only [analyze, refused]

theorem analyze_eq_ok_iff {m : Method} (accepted : m.check = .ok ()) (options : Options) :
    (∃ table, (m.analyze options).result = .ok table) ↔
      ¬∃ node ∈ m.nodes, ∃ op, node.opcode? = some op ∧ op.flow = .subroutine := by
  rw [← exists_firstSubroutine_iff]
  cases ended : (m.analyze options).result with
  | ok table =>
    refine iff_of_true ⟨table, rfl⟩ ?_
    rintro ⟨op, first⟩
    have failed := (analyze_eq_error_iff accepted options _).mpr ⟨op, first, rfl⟩
    rw [ended] at failed
    cases failed
  | error rejection =>
    obtain ⟨op, first, -⟩ := (analyze_eq_error_iff accepted options rejection).mp ended
    exact iff_of_false (by simp) fun unsupported => unsupported ⟨op, first⟩

theorem analyze_eq_inconsistent_iff (m : Method) (options : Options) :
    (∃ violation name, (m.analyze options).result = .error (.inconsistent violation name)) ↔ m.check ≠ .ok () := by
  rcases m.check_cases with accepted | ⟨violation, -, refused⟩
  · refine iff_of_false ?_ fun rejected => rejected accepted
    rintro ⟨violation, name, failed⟩
    obtain ⟨op, -, same⟩ := (analyze_eq_error_iff accepted options _).mp failed
    cases same
  · refine iff_of_true ⟨violation, m.name, ?_⟩ (by simp [refused])
    rw [analyze_of_refused refused]

/-- The rejection that normalization has of its own never comes out of an analysis. -/
theorem analyze_ne_unplacedLine (m : Method) (options : Options) (number : UInt32) (label name : String) :
    (m.analyze options).result ≠ .error (.inconsistent (.unplacedLine number label) name) := by
  intro failed
  rcases m.check_cases with accepted | ⟨violation, found, refused⟩
  · obtain ⟨op, -, same⟩ := (analyze_eq_error_iff accepted options _).mp failed
    cases same
  · rw [analyze_of_refused refused] at failed
    cases failed
    exact m.violation?_ne_unplacedLine number label found

/-- Options do not decide whether a method can be analyzed. -/
theorem analyze_result_agrees (m : Method) (options other : Options) :
    (m.analyze options).result.map (fun _ => ()) = (m.analyze other).result.map fun _ => () := by
  rcases m.check_cases with accepted | ⟨violation, -, refused⟩
  · have same : ∀ rejection,
        (m.analyze options).result = .error rejection ↔ (m.analyze other).result = .error rejection := by
      intro rejection
      rw [analyze_eq_error_iff accepted, analyze_eq_error_iff accepted]
    cases ended : (m.analyze options).result with
    | error rejection => rw [(same rejection).mp ended]
    | ok table =>
      cases otherEnd : (m.analyze other).result with
      | error rejection => simp [(same rejection).mpr otherEnd] at ended
      | ok otherTable => rfl
  · rw [analyze_of_refused refused, analyze_of_refused refused]

/-- An analysis ends in one of three ways. Either the check refuses the method, which then stays as it is, and its
rejection is the one of the analysis. Or the method has a subroutine, and the first one is reported. Or there are marks.
Normalization succeeds where the check does, and whether it is asked for matters only for the method that is left. -/
theorem analyze_outcomes (m : Method) (options : Options) :
    ((∃ violation name, (m.analyze options).result = .error (.inconsistent violation name)) ↔ m.check ≠ .ok ()) ∧
      (∀ rejection, m.check = .error rejection → m.analyze options = { method := m, result := .error rejection }) ∧
      (m.check = .ok () →
        (∀ op name, (m.analyze options).result = .error (.unsupported op name) ↔
          FirstSubroutine m.nodes op ∧ name = m.name) ∧
        ((∃ table, (m.analyze options).result = .ok table) ↔
          ¬∃ node ∈ m.nodes, ∃ op, node.opcode? = some op ∧ op.flow = .subroutine) ∧
        (∃ count, m.normalize.result = .ok count) ∧
        (m.analyze options).method = if options.normalizeFrames then m.normalize.method else m) ∧
      (∀ number label name,
        (m.analyze options).result ≠ .error (.inconsistent (.unplacedLine number label) name)) ∧
      (m.analyze { options with normalizeFrames := true }).result.map (fun _ => ()) =
        (m.analyze { options with normalizeFrames := false }).result.map fun _ => () := by
  refine ⟨m.analyze_eq_inconsistent_iff options, fun rejection refused => analyze_of_refused refused options,
    fun accepted => ?_, m.analyze_ne_unplacedLine options, m.analyze_result_agrees _ _⟩
  have valid := m.check_eq_ok_iff.mp accepted
  refine ⟨fun op name => ?_, analyze_eq_ok_iff accepted options, ?_, ?_⟩
  · rw [analyze_eq_error_iff accepted]
    constructor
    · rintro ⟨_, first, same⟩
      cases same
      exact ⟨first, rfl⟩
    · rintro ⟨first, rfl⟩
      exact ⟨op, first, rfl⟩
  · exact ⟨_, congrArg Outcome.result (normalize_eq_move valid.framed)⟩
  · rw [analyze_of_valid valid, prepare_method]

/-- A return from a subroutine and a call of one, behind a line mark that moves. -/
def returning : Method where
  name := "returning"
  descriptor := "()V"
  labels := ["entry"]
  nodes :=
    [.label ⟨0⟩, .line { number := 1, start := ⟨0⟩ }, .frame { kind := .same, locals := [], stack := [] },
      .insn (.var .ret 1), .insn (.jump .jsr ⟨0⟩)]

theorem analyze_outcomes_returning :
    returning.check = .ok () ∧ (returning.analyze {}).result = .error (.unsupported .ret "returning") ∧
      (returning.analyze {}).method = returning.normalize.method ∧ returning.normalize.method ≠ returning := by
  obtain ⟨-, -, accepted, -, -⟩ := analyze_outcomes returning {}
  obtain ⟨subroutine, -, -, left⟩ := accepted rfl
  have first : FirstSubroutine returning.nodes .ret := ⟨rfl, returning.nodes.take 3, _, _, rfl, rfl, by decide⟩
  exact ⟨rfl, (subroutine .ret "returning").mpr ⟨first, rfl⟩, left, by decide⟩

end Method

/-! ### Classes -/

/-- The analysis of a method ends in a rejection that the options do not tolerate in a class. -/
def Method.GivesUp (options : Options) (m : Method) (rejection : Rejection) : Prop :=
  (m.analyze options).result = .error rejection ∧
    (options.failFast = true ∨ (∃ op name, rejection = .unsupported op name) ∧ options.onSubroutine = .abort)

/-- What a report says of a method, from the analysis of that method alone. -/
def Method.reportEntry (options : Options) (m : Method) : MethodEntry :=
  match (m.analyze options).result with
  | .ok marks => .ofMarks (m.analyze options).method marks options.includeUnmarked
  | .error rejection =>
    { name := m.name
      descriptor := m.descriptor
      verdict := match rejection with
        | .unsupported .. => .unsupported rejection.message
        | .inconsistent .. => .inconsistent rejection.message
      labels := [] }

theorem Rejection.aborts_iff (options : Options) (rejection : Rejection) :
    rejection.aborts options = true ↔
      options.failFast = true ∨ (∃ op name, rejection = .unsupported op name) ∧ options.onSubroutine = .abort := by
  cases rejection <;> simp [aborts]

namespace Method

theorem analyze_extends (m : Method) (options : Options) :
    ∃ nodes fresh, (m.analyze options).method = m.extend nodes fresh := by
  unfold analyze
  cases m.check with
  | error rejection => exact ⟨m.nodes, [], by simp [extend]⟩
  | ok _ =>
    obtain ⟨nodes, fresh, same⟩ := m.prepare_extends options
    refine ⟨nodes, fresh, ?_⟩
    dsimp only
    split
    · exact same
    · exact same

/-- The report on a method gives the class up exactly with the rejections of `GivesUp`. -/
theorem report_eq_error_iff (m : Method) (options : Options) (rejection : Rejection) :
    (m.analyze options).report options = .error rejection ↔ m.GivesUp options rejection := by
  unfold GivesUp Outcome.report
  cases ended : (m.analyze options).result with
  | ok marks => simp
  | error found =>
    by_cases fatal : found.aborts options = true
    · simp only [fatal, if_true, Except.error.injEq]
      constructor
      · rintro rfl
        exact ⟨rfl, (Rejection.aborts_iff ..).mp fatal⟩
      · exact fun same => same.1
    · simp only [fatal]
      refine iff_of_false (by simp) ?_
      rintro ⟨same, intolerable⟩
      cases same
      exact fatal ((Rejection.aborts_iff ..).mpr intolerable)

theorem report_eq_ok {m : Method} {options : Options} (tolerated : ∀ rejection, ¬m.GivesUp options rejection) :
    (m.analyze options).report options = .ok (m.reportEntry options) := by
  unfold Outcome.report Method.reportEntry
  cases ended : (m.analyze options).result with
  | ok marks => rfl
  | error rejection =>
    have tolerable : rejection.aborts options = false := by
      refine Bool.eq_false_iff.mpr fun fatal => tolerated rejection ⟨ended, ?_⟩
      exact (Rejection.aborts_iff ..).mp fatal
    obtain ⟨nodes, fresh, same⟩ := m.analyze_extends options
    simp only [tolerable, same]
    cases rejection <;> rfl

end Method

theorem exists_first_givesUp {options : Options} {methods : List Method}
    (fatal : ∃ m ∈ methods, ∃ rejection, m.GivesUp options rejection) :
    ∃ before m after rejection, methods = before ++ m :: after ∧ m.GivesUp options rejection ∧
      ∀ earlier ∈ before, ∀ other, ¬earlier.GivesUp options other := by
  induction methods with
  | nil =>
    obtain ⟨m, member, -⟩ := fatal
    cases member
  | cons first rest ih =>
    by_cases now : ∃ rejection, first.GivesUp options rejection
    · obtain ⟨rejection, gives⟩ := now
      exact ⟨[], first, rest, rejection, rfl, gives, by simp⟩
    · have tolerated : ∀ other, ¬first.GivesUp options other := fun other gives => now ⟨other, gives⟩
      obtain ⟨m, member, rejection, gives⟩ := fatal
      have later : m ∈ rest := by
        rcases List.mem_cons.mp member with rfl | later
        · exact absurd gives (tolerated rejection)
        · exact later
      obtain ⟨before, m, after, rejection, rfl, gives, earlier⟩ := ih ⟨m, later, rejection, gives⟩
      exact ⟨first :: before, m, after, rejection, rfl, gives, List.forall_mem_cons.mpr ⟨tolerated, earlier⟩⟩

/-- Methods before the first that gives the class up are analyzed, and so is that one; those after it stay. -/
theorem analyzeAll_of_givesUp {options : Options} {before : List Method} {m : Method} {rejection : Rejection}
    (tolerated : ∀ earlier ∈ before, ∀ other, ¬earlier.GivesUp options other) (gives : m.GivesUp options rejection)
    (after : List Method) :
    analyzeAll options (before ++ m :: after) =
      ((before ++ [m]).map (fun m => (m.analyze options).method) ++ after, .error rejection) := by
  induction before with
  | nil => simp [analyzeAll, (m.report_eq_error_iff options rejection).mpr gives]
  | cons first rest ih =>
    have reported := Method.report_eq_ok (tolerated first List.mem_cons_self)
    have later := ih fun earlier member => tolerated earlier (List.mem_cons_of_mem _ member)
    simp [analyzeAll, reported, later, Except.map]

theorem analyzeAll_of_tolerated {options : Options} {methods : List Method}
    (tolerated : ∀ m ∈ methods, ∀ rejection, ¬m.GivesUp options rejection) :
    analyzeAll options methods =
      (methods.map fun m => (m.analyze options).method, .ok (methods.map (Method.reportEntry options))) := by
  induction methods with
  | nil => rfl
  | cons first rest ih =>
    have reported := Method.report_eq_ok (tolerated first List.mem_cons_self)
    have later := ih fun m member => tolerated m (List.mem_cons_of_mem _ member)
    simp [analyzeAll, reported, later, Except.map]

namespace ClassUnit

/-- A class is given up, or it has a report on each of its methods. -/
theorem analyze_cases (c : ClassUnit) (options : Options) :
    (∃ before m after rejection, c.methods = before ++ m :: after ∧ m.GivesUp options rejection ∧
      (∀ earlier ∈ before, ∀ other, ¬earlier.GivesUp options other) ∧
      c.analyze options =
        { unit := { c with methods := (before ++ [m]).map (fun m => (m.analyze options).method) ++ after }
          result := .error rejection }) ∨
    (∀ m ∈ c.methods, ∀ rejection, ¬m.GivesUp options rejection) ∧
      c.analyze options =
        { unit := { c with methods := c.methods.map fun m => (m.analyze options).method }
          result := .ok { name := c.name, methods := c.methods.map (Method.reportEntry options) } } := by
  by_cases fatal : ∃ m ∈ c.methods, ∃ rejection, m.GivesUp options rejection
  · obtain ⟨before, m, after, rejection, same, gives, tolerated⟩ := exists_first_givesUp fatal
    refine .inl ⟨before, m, after, rejection, same, gives, tolerated, ?_⟩
    simp [analyze, same, analyzeAll_of_givesUp tolerated gives after, Except.map]
  · have tolerated : ∀ m ∈ c.methods, ∀ rejection, ¬m.GivesUp options rejection :=
      fun m member rejection gives => fatal ⟨m, member, rejection, gives⟩
    refine .inr ⟨tolerated, ?_⟩
    simp [analyze, analyzeAll_of_tolerated tolerated, Except.map]

theorem analyze_of_ok {c : ClassUnit} {options : Options} {report : Report}
    (reported : (c.analyze options).result = .ok report) :
    report = { name := c.name, methods := c.methods.map (Method.reportEntry options) } ∧
      (c.analyze options).unit = { c with methods := c.methods.map fun m => (m.analyze options).method } := by
  rcases c.analyze_cases options with ⟨before, m, after, rejection, -, -, -, ended⟩ | ⟨-, ended⟩
  · rw [ended] at reported
    cases reported
  · rw [ended] at reported ⊢
    cases reported
    exact ⟨rfl, rfl⟩

/-- A class fails exactly if one of its methods gives it up, with the rejection of the first such method. The methods
up to that one are left as their own analysis leaves them and the others are untouched. Otherwise each method has its
entry in the report, which depends on that method and the options only. When to give up can be chosen without changing
any report or any method, as long as there is a report. -/
theorem reports_unless_given_up (c : ClassUnit) (options : Options) :
    ((∃ rejection, (c.analyze options).result = .error rejection) ↔
        ∃ m ∈ c.methods, ∃ rejection, m.GivesUp options rejection) ∧
      (∀ rejection, (c.analyze options).result = .error rejection →
        ∃ before m after, c.methods = before ++ m :: after ∧ m.GivesUp options rejection ∧
          (∀ earlier ∈ before, ∀ other, ¬earlier.GivesUp options other) ∧
          (c.analyze options).unit =
            { c with methods := (before ++ [m]).map (fun m => (m.analyze options).method) ++ after }) ∧
      (∀ report, (c.analyze options).result = .ok report →
        report = { name := c.name, methods := c.methods.map (Method.reportEntry options) } ∧
          (c.analyze options).unit = { c with methods := c.methods.map fun m => (m.analyze options).method }) ∧
      ∀ failFast onSubroutine report other, (c.analyze options).result = .ok report →
        (c.analyze { options with failFast, onSubroutine }).result = .ok other →
        report = other ∧ (c.analyze options).unit = (c.analyze { options with failFast, onSubroutine }).unit := by
  refine ⟨?_, ?_, fun report => analyze_of_ok, ?_⟩
  · rcases c.analyze_cases options with ⟨before, m, after, rejection, same, gives, -, ended⟩ | ⟨tolerated, ended⟩
    · exact iff_of_true ⟨rejection, by rw [ended]⟩ ⟨m, by simp [same], rejection, gives⟩
    · refine iff_of_false (by simp [ended]) ?_
      rintro ⟨m, member, rejection, gives⟩
      exact tolerated m member rejection gives
  · intro rejection failed
    rcases c.analyze_cases options with ⟨before, m, after, found, same, gives, tolerated, ended⟩ | ⟨-, ended⟩
    · rw [ended] at failed ⊢
      cases failed
      exact ⟨before, m, after, same, gives, tolerated, rfl⟩
    · rw [ended] at failed
      cases failed
  · intro failFast onSubroutine report other reported otherReported
    obtain ⟨rfl, left⟩ := analyze_of_ok reported
    obtain ⟨rfl, otherLeft⟩ := analyze_of_ok otherReported
    exact ⟨rfl, left.trans otherLeft.symm⟩

/-- A method that jumps to a label which stands nowhere, between two whose line mark moves. -/
def mixed : ClassUnit where
  name := "Mixed"
  methods :=
    let straight : Method :=
      { name := "straight", descriptor := "()V", labels := ["entry"],
        nodes :=
          [.label ⟨0⟩, .line { number := 1, start := ⟨0⟩ }, .frame { kind := .same, locals := [], stack := [] },
            .insn (.plain .returnVoid)] }
    [straight, { name := "astray", descriptor := "()V", labels := ["away"], nodes := [.insn (.jump .goto ⟨0⟩)] },
      straight]

/-- The second method gives the class up where no rejection is tolerated, but not where only subroutines give it up. -/
theorem reports_unless_given_up_mixed :
    (∃ rejection, (mixed.analyze { failFast := true }).result = .error rejection) ∧
      (mixed.analyze { failFast := true }).unit.methods.map Method.numLabels = [2, 1, 1] ∧
      ∃ report, (mixed.analyze {}).result = .ok report ∧
        (mixed.analyze { onSubroutine := .abort }).result = .ok report ∧
        report.methods.map (·.verdict.name) = ["analyzed", "inconsistent", "analyzed"] ∧
        (mixed.analyze { onSubroutine := .abort }).unit.methods.map Method.numLabels = [2, 1, 2] := by
  obtain ⟨fails, -, -, -⟩ := reports_unless_given_up mixed { failFast := true }
  obtain ⟨-, -, -, agree⟩ := reports_unless_given_up mixed {}
  obtain ⟨same, left⟩ := agree false .abort _ _ rfl rfl
  have givesUp := fails.mpr ⟨_, List.mem_cons_of_mem _ List.mem_cons_self, _, rfl, .inl rfl⟩
  refine ⟨givesUp, by decide, _, rfl, ?_, by decide, ?_⟩
  · rw [same]
    rfl
  · rw [← left]
    decide

end ClassUnit

end ProbePoints
