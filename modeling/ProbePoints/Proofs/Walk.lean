import ProbePoints.Proofs.Preservation

/-!
# Walks over the instructions of a method

Where control can go from an instruction, said on positions of the stream and without the marks: on to the next
instruction, to a jump target, to a target of a switch, or to the handler of a range. `walk_announced` shows that the
marks of an analysis miss none of it. A step onward passes only labels that are marked as successors, and any other
step ends behind a label that is marked as a target.
-/

namespace ProbePoints

/-- The opcode of the instruction at a position, if there is one. -/
def opcodeAt? (nodes : List (Node Label)) (k : Nat) : Option Opcode := nodes[k]?.bind Node.opcode?

/-- No instruction stands from position `first` up to position `last`, which does not count. -/
def Quiet (nodes : List (Node Label)) (first last : Nat) : Prop :=
  ∀ k < last, first ≤ k → opcodeAt? nodes k = none

instance (nodes : List (Node Label)) (first last : Nat) : Decidable (Quiet nodes first last) :=
  inferInstanceAs (Decidable (∀ k < last, first ≤ k → opcodeAt? nodes k = none))

/-- The first instruction at position `first` or behind it stands at position `here`. -/
def FirstFrom (nodes : List (Node Label)) (first here : Nat) : Prop :=
  first ≤ here ∧ (opcodeAt? nodes here).isSome = true ∧ Quiet nodes first here

instance (nodes : List (Node Label)) (first here : Nat) : Decidable (FirstFrom nodes first here) :=
  inferInstanceAs (Decidable (_ ∧ _ ∧ _))

/-- How control goes from one instruction to another. -/
inductive Way where
  | onward | jump | switch | caught
  deriving DecidableEq, Repr

/-- Control can go from the instruction at one position to the one at another. -/
inductive Method.Step (m : Method) : Way → Nat → Nat → Prop
  | onward {i j : Nat} {instruction : Instruction Label} (here : m.nodes[i]? = some (.insn instruction))
      (flow : instruction.opcode.flow = .conditionalJump ∨ instruction.opcode.flow = .call ∨
        instruction.opcode.flow = .other)
      (next : FirstFrom m.nodes (i + 1) j) : m.Step .onward i j
  | jump {i p j : Nat} {op : Opcode} {target : Label} (here : m.nodes[i]? = some (.insn (.jump op target)))
      (placed : m.nodes[p]? = some (.label target)) (next : FirstFrom m.nodes (p + 1) j) : m.Step .jump i j
  | tableSwitch {i p j : Nat} {low high : Int32} {fallback target : Label} {targets : List Label}
      (here : m.nodes[i]? = some (.insn (.tableSwitch low high fallback targets)))
      (leads : target = fallback ∨ target ∈ targets)
      (placed : m.nodes[p]? = some (.label target)) (next : FirstFrom m.nodes (p + 1) j) : m.Step .switch i j
  | lookupSwitch {i p j : Nat} {fallback target : Label} {keys : List Int32} {targets : List Label}
      (here : m.nodes[i]? = some (.insn (.lookupSwitch fallback keys targets)))
      (leads : target = fallback ∨ target ∈ targets)
      (placed : m.nodes[p]? = some (.label target)) (next : FirstFrom m.nodes (p + 1) j) : m.Step .switch i j
  | caught {i p j s t : Nat} {range : ProtectedRange Label} (protects : range ∈ m.ranges)
      (started : m.nodes[s]? = some (.label range.start)) (since : s < i)
      (stopped : m.nodes[t]? = some (.label range.stop)) (upTo : i < t)
      (placed : m.nodes[p]? = some (.label range.handler)) (next : FirstFrom m.nodes (p + 1) j) :
      m.Step .caught i j

/-- The steps of a walk that starts at the first instruction of a method, and the instruction it has come to. -/
inductive Method.Walk (m : Method) : List (Nat × Way × Nat) → Nat → Prop
  | enter {i : Nat} (first : FirstFrom m.nodes 0 i) : m.Walk [] i
  | step {trail : List (Nat × Way × Nat)} {i j : Nat} {way : Way} (walk : m.Walk trail i) (step : m.Step way i j) :
      m.Walk (trail ++ [(i, way, j)]) j

/-- The marks tell of a step: onward, on every label it passes; otherwise, on a label that no instruction parts from
its end. -/
def MarkTable.Announces (table : MarkTable) (nodes : List (Node Label)) (i : Nat) (way : Way) (j : Nat) : Prop :=
  if way = .onward then
    ∀ k label, i < k → k < j → nodes[k]? = some (.label label) → (table.get label).successor = true
  else
    ∃ k label, k < j ∧ nodes[k]? = some (.label label) ∧ Quiet nodes k j ∧ (table.get label).target = true

/-! ### Positions and prefixes -/

theorem prefix_of_getElem? {nodes : List (Node Label)} {k : Nat} {node : Node Label}
    (found : nodes[k]? = some node) : nodes.take k ++ [node] <+: nodes := by
  obtain ⟨bound, rfl⟩ := List.getElem?_eq_some_iff.mp found
  rw [← List.take_succ_eq_append_getElem bound]
  exact List.take_prefix ..

/-- The last instruction before a position, if none comes between it and the position. -/
theorem lastOpcode?_take {nodes : List (Node Label)} {i k : Nat} {instruction : Instruction Label}
    (here : nodes[i]? = some (.insn instruction)) (later : i < k) (bound : k ≤ nodes.length)
    (quiet : Quiet nodes (i + 1) k) : lastOpcode? (nodes.take k) = some instruction.opcode := by
  induction k, later using Nat.le_induction with
  | base =>
    obtain ⟨inside, same⟩ := List.getElem?_eq_some_iff.mp here
    rw [List.take_succ_eq_append_getElem inside, same, lastOpcode?_append, lastOpcode?_singleton]
    rfl
  | succ k later ih =>
    have inside : k < nodes.length := by omega
    have silent : nodes[k].opcode? = none := by
      simpa [opcodeAt?, List.getElem?_eq_getElem inside] using quiet k (Nat.lt_succ_self k) later
    rw [List.take_succ_eq_append_getElem inside, lastOpcode?_append, lastOpcode?_singleton, silent, Option.none_or]
    exact ih (by omega) fun p before => quiet p (by omega)

theorem lastOpcode?_take_of_quiet {nodes : List (Node Label)} {k : Nat} (quiet : Quiet nodes 0 k) :
    lastOpcode? (nodes.take k) = none := by
  rw [lastOpcode?_eq_none]
  intro node member
  obtain ⟨p, inside, rfl⟩ := List.mem_take_iff_getElem.mp member
  have silent := quiet p (by omega) (Nat.zero_le p)
  rwa [opcodeAt?, List.getElem?_eq_getElem (by omega)] at silent

theorem FirstFrom.behind_label {nodes : List (Node Label)} {p j : Nat} {label : Label}
    (next : FirstFrom nodes (p + 1) j) (placed : nodes[p]? = some (.label label)) : p < j ∧ Quiet nodes p j := by
  obtain ⟨ahead, -, quiet⟩ := next
  refine ⟨ahead, fun k before first => ?_⟩
  rcases Nat.eq_or_lt_of_le first with rfl | later
  · rw [opcodeAt?, placed]
    rfl
  · exact quiet k before later

/-! ### Marks of a described stream -/

namespace Scan.Describes

variable {m : Method} {scan : Scan}

theorem successor_of_onward (described : scan.Describes m.ranges m.nodes) {i j k : Nat}
    {instruction : Instruction Label} {label : Label} (here : m.nodes[i]? = some (.insn instruction))
    (flow : instruction.opcode.flow = .conditionalJump ∨ instruction.opcode.flow = .call ∨
      instruction.opcode.flow = .other)
    (next : FirstFrom m.nodes (i + 1) j) (later : i < k) (before : k < j)
    (placed : m.nodes[k]? = some (.label label)) : (scan.marks.get label).successor = true := by
  have inside := (List.getElem?_eq_some_iff.mp placed).1
  have last := lastOpcode?_take here later (by omega) fun p earlier => next.2.2 p (by omega)
  rw [described.successors]
  exact ⟨m.nodes.take k, _, prefix_of_getElem? placed, last, instruction.opcode.flow.continues_iff.mpr flow⟩

theorem target_of_arrival (described : scan.Describes m.ranges m.nodes) {label : Label}
    (arrives : 1 ≤ arrivals m.ranges m.nodes label) : (scan.marks.get label).target = true := by
  rw [(described.targets label).1]
  exact decide_eq_true arrives

theorem target_of_jump (described : scan.Describes m.ranges m.nodes) {i : Nat} {op : Opcode} {target : Label}
    (here : m.nodes[i]? = some (.insn (.jump op target))) : (scan.marks.get target).target = true := by
  have counted : 0 < m.nodes.countP (Node.jumpsTo target) :=
    List.countP_pos_iff.mpr ⟨_, List.mem_of_getElem? here, by simp [Node.jumpsTo]⟩
  apply described.target_of_arrival
  unfold arrivals transfers
  omega

theorem target_of_switch (described : scan.Describes m.ranges m.nodes) {i : Nat} {node : Node Label} {target : Label}
    (here : m.nodes[i]? = some node) (leads : node.switchesTo target = true) :
    (scan.marks.get target).target = true := by
  have counted : 0 < m.nodes.countP (Node.switchesTo target) :=
    List.countP_pos_iff.mpr ⟨node, List.mem_of_getElem? here, leads⟩
  apply described.target_of_arrival
  unfold arrivals transfers
  omega

theorem target_of_handler (described : scan.Describes m.ranges m.nodes) {range : ProtectedRange Label}
    (protects : range ∈ m.ranges) : (scan.marks.get range.handler).target = true := by
  have counted : 0 < m.ranges.countP (·.handler = range.handler) :=
    List.countP_pos_iff.mpr ⟨range, protects, by simp⟩
  apply described.target_of_arrival
  unfold arrivals transfers
  omega

theorem target_of_entry (described : scan.Describes m.ranges m.nodes) {k : Nat} {label : Label}
    (placed : m.nodes[k]? = some (.label label)) (quiet : Quiet m.nodes 0 k) :
    (scan.marks.get label).target = true := by
  obtain ⟨after, whole⟩ := prefix_of_getElem? placed
  have silent : lastOpcode? (m.nodes.take k ++ [.label label]) = none := by
    rw [lastOpcode?_append, lastOpcode?_take_of_quiet quiet]
    rfl
  have counted : 0 < entries m.nodes label := by
    unfold entries
    rw [← whole, entry_append, if_pos silent, List.count_pos_iff, mem_placements]
    simp
  apply described.target_of_arrival
  unfold arrivals
  omega

/-- The marks tell of every single step. -/
theorem announces_step (described : scan.Describes m.ranges m.nodes) {way : Way} {i j : Nat}
    (step : m.Step way i j) : scan.marks.Announces m.nodes i way j := by
  have arrives : ∀ {p target}, m.nodes[p]? = some (.label target) → FirstFrom m.nodes (p + 1) j →
      (scan.marks.get target).target = true →
      ∃ k label, k < j ∧ m.nodes[k]? = some (.label label) ∧ Quiet m.nodes k j ∧
        (scan.marks.get label).target = true := by
    intro p target placed next marked
    obtain ⟨before, quiet⟩ := next.behind_label placed
    exact ⟨p, target, before, placed, quiet, marked⟩
  cases step with
  | onward here flow next =>
    intro k label later before placed
    exact described.successor_of_onward here flow next later before placed
  | jump here placed next => exact arrives placed next (described.target_of_jump here)
  | tableSwitch here leads placed next =>
    exact arrives placed next (described.target_of_switch here (by simpa [Node.switchesTo] using leads))
  | lookupSwitch here leads placed next =>
    exact arrives placed next (described.target_of_switch here (by simpa [Node.switchesTo] using leads))
  | caught protects started since stopped upTo placed next =>
    exact arrives placed next (described.target_of_handler protects)

theorem announces_walk (described : scan.Describes m.ranges m.nodes) {trail : List (Nat × Way × Nat)} {last : Nat}
    (walk : m.Walk trail last) : ∀ i way j, (i, way, j) ∈ trail → scan.marks.Announces m.nodes i way j := by
  induction walk with
  | enter first => simp
  | step walk step ih =>
    intro i way j member
    rcases List.mem_append.mp member with earlier | now
    · exact ih i way j earlier
    · cases List.mem_singleton.mp now
      exact described.announces_step step

end Scan.Describes

/-! ### Walks over an analyzed method -/

/-- The marks of an analysis tell of every step of every walk over the method that it leaves behind, and of the entry.
That method is valid, so every label that a step goes by is placed, and only once. -/
theorem walk_announced (m : Method) (options : Options) (table : MarkTable) (bounded : m.Bounded)
    (analyzed : (m.analyze options).result = .ok table) :
    (m.analyze options).method.Valid ∧
      (∀ trail last, (m.analyze options).method.Walk trail last → ∀ i way j, (i, way, j) ∈ trail →
        table.Announces (m.analyze options).method.nodes i way j) ∧
      ∀ k label, (m.analyze options).method.nodes[k]? = some (.label label) →
        Quiet (m.analyze options).method.nodes 0 k → (table.get label).target = true := by
  obtain ⟨final, rfl, described⟩ := Method.describes_analyzed analyzed
  refine ⟨Method.valid_analyzed bounded analyzed, fun trail last walk => ?_, fun k label placed quiet => ?_⟩
  · exact described.announces_walk walk
  · exact described.target_of_entry placed quiet

/-- A loop in a protected range that a switch leads into, behind a line mark that moves. -/
def Method.guardedLoop : Method where
  name := "guardedLoop"
  descriptor := "(I)V"
  labels := ["entry", "loop", "handler", "exit"]
  ranges := [{ start := ⟨1⟩, stop := ⟨2⟩, handler := ⟨2⟩, caught := none }]
  nodes :=
    [.label ⟨0⟩, .line { number := 1, start := ⟨0⟩ }, .frame { kind := .same, locals := [], stack := [] },
      .insn (.var .iload 0), .insn (.tableSwitch 0 0 ⟨3⟩ [⟨1⟩]),
      .label ⟨1⟩, .insn (.method .invokestatic { owner := "A", name := "f", descriptor := "()Z" } false),
      .insn (.jump .ifeq ⟨1⟩), .insn (.jump .goto ⟨3⟩),
      .label ⟨2⟩, .insn (.plain .athrow), .label ⟨3⟩, .insn (.plain .returnVoid)]

theorem walk_announced_guardedLoop :
    Method.guardedLoop.Bounded ∧ ∃ table, (Method.guardedLoop.analyze {}).result = .ok table ∧
      ∃ trail, (Method.guardedLoop.analyze {}).method.Walk trail 12 ∧
        trail = [(2, .onward, 5), (5, .onward, 6), (6, .switch, 8), (8, .onward, 9), (9, .jump, 8), (8, .caught, 12)] ∧
        table.Announces (Method.guardedLoop.analyze {}).method.nodes 2 .onward 5 ∧
        table.Announces (Method.guardedLoop.analyze {}).method.nodes 8 .caught 12 ∧
        (table.get ⟨0⟩).target = true := by
  have bounded : Method.guardedLoop.Bounded := by decide
  have entered : (Method.guardedLoop.analyze {}).method.Walk [] 2 := .enter (by decide)
  have loaded := (entered.step (.onward rfl (by decide) (by decide : FirstFrom _ _ 5))).step
    (.onward rfl (by decide) (by decide : FirstFrom _ _ 6))
  have switched := loaded.step (.tableSwitch (p := 7) rfl (.inr (by decide)) rfl (by decide : FirstFrom _ _ 8))
  have called := switched.step (.onward rfl (by decide) (by decide : FirstFrom _ _ 9))
  have looped := called.step (.jump (p := 7) rfl rfl (by decide : FirstFrom _ _ 8))
  have thrown := looped.step (.caught (p := 11) (s := 7) (t := 11) List.mem_cons_self rfl (by decide) rfl
    (by decide) rfl (by decide : FirstFrom _ _ 12))
  obtain ⟨-, walks, entry⟩ := walk_announced Method.guardedLoop {} _ bounded rfl
  exact ⟨bounded, _, rfl, _, thrown, rfl, walks _ _ thrown _ _ _ (by simp), walks _ _ thrown _ _ _ (by simp),
    entry 0 ⟨0⟩ rfl (by decide)⟩

end ProbePoints
