import Mathlib.Data.Set.Card
import ProbePoints.Proofs.Marks

/-!
# Tables and their histories

A table of marks is a map from labels to entries, and two tables agree if they are the same map. A switch comes down to
one way into each label it leads to, taken in any order. In general the entry of a label depends on the operations on that
label alone: `get?_run` replays them, and `run_reads_history` reads every mark off them.
-/

namespace ProbePoints.MarkTable

/-- The tables have entries for the same labels, with the same marks. -/
def Agrees (table other : MarkTable) : Prop := ∀ label, table.get? label = other.get? label

theorem encard_of_listed {p : Label → Prop} {labels : List Label} (distinct : labels.Nodup)
    (listed : ∀ label, label ∈ labels ↔ p label) : {label | p label}.encard = labels.length := by
  have same : {label | p label} = labels.toFinset := by
    ext label
    simp only [Set.mem_ofPred_eq, List.coe_toFinset]
    exact (listed label).symm
  rw [same, Set.encard_coe_eq_coe_finsetCard, List.toFinset_card_of_nodup distinct]

theorem encard_entries (table : MarkTable) : {label | (table.get? label).isSome = true}.encard = table.size := by
  rw [encard_of_listed table.distinct table.mem_keys_iff, List.length_map, size]

theorem Agrees.size {table other : MarkTable} (agrees : table.Agrees other) : table.size = other.size := by
  have counted : (table.size : ENat) = other.size := by
    simp only [← encard_entries, agrees _]
  exact_mod_cast counted

/-! ### Switches -/

theorem get?_foldl_noteTarget {labels : List Label} (distinct : labels.Nodup) (table : MarkTable) (other : Label) :
    (labels.foldl noteTarget table).get? other =
      if other ∈ labels then some (table.get other).addTarget else table.get? other := by
  induction labels generalizing table with
  | nil => simp
  | cons label rest ih =>
    obtain ⟨apart, distinct⟩ := List.nodup_cons.mp distinct
    rw [List.foldl_cons, ih distinct]
    by_cases here : other = label
    · subst here
      simp [apart, noteTarget]
    · simp [here, noteTarget]

/-- A switch leaves the table as one more way into each of its labels does, noted once each in any order, with no label
of the switch counted. Other labels keep their entries or stay without one. So it matters which labels the switch leads
to, but not in which order, how often, or which one is the fallback. -/
theorem noteSwitch_notes_each_once (table : MarkTable) (fallback : Label) (targets : List Label) :
    (∀ labels : List Label, labels.Nodup → (∀ label, label ∈ labels ↔ label = fallback ∨ label ∈ targets) →
        (table.noteSwitch (fallback :: targets)).Agrees ((labels.foldl noteTarget table).forgetAll labels)) ∧
      (∀ label, label = fallback ∨ label ∈ targets →
        ((table.noteSwitch (fallback :: targets)).get? label).isSome = true ∧
          (table.noteSwitch (fallback :: targets)).isCounted label = false) ∧
      (∀ label, label ≠ fallback → label ∉ targets →
        (table.noteSwitch (fallback :: targets)).get? label = table.get? label) ∧
      ∀ otherFallback others,
        (∀ label, label = otherFallback ∨ label ∈ others ↔ label = fallback ∨ label ∈ targets) →
        (table.noteSwitch (otherFallback :: others)).Agrees (table.noteSwitch (fallback :: targets)) := by
  refine ⟨?_, ?_, ?_, ?_⟩
  · intro labels distinct same label
    have leads : label ∈ fallback :: targets ↔ label ∈ labels := List.mem_cons.trans (same label).symm
    rw [get?_noteSwitch, get?_forgetAll, get?_foldl_noteTarget distinct]
    by_cases member : label ∈ labels <;> simp [leads, member]
  · intro label leads
    have written := get?_noteSwitch table (fallback :: targets) label
    rw [if_pos (List.mem_cons.mpr leads)] at written
    simp [isCounted, get, written]
  · intro label notFallback notTarget
    rw [get?_noteSwitch, if_neg]
    simp [notFallback, notTarget]
  · intro otherFallback others same label
    simp only [get?_noteSwitch, List.mem_cons, same]

/-- A label that was counted before, one with no entry that the switch leads to twice, and one it does not lead to. -/
theorem noteSwitch_notes_each_once_stale :
    let table := ((({} : MarkTable).noteTarget ⟨0⟩).noteCounted ⟨0⟩).noteCounted ⟨2⟩
    (table.noteSwitch [⟨0⟩, ⟨1⟩, ⟨0⟩, ⟨1⟩]).Agrees
        (((table.noteTarget ⟨1⟩).noteTarget ⟨0⟩).forgetAll [⟨1⟩, ⟨0⟩]) ∧
      (table.noteSwitch [⟨0⟩, ⟨1⟩, ⟨0⟩, ⟨1⟩]).isCounted ⟨0⟩ = false ∧
      (table.noteSwitch [⟨0⟩, ⟨1⟩, ⟨0⟩, ⟨1⟩]).get? ⟨2⟩ = some { counted := true } ∧
      (table.noteSwitch [⟨1⟩, ⟨0⟩]).Agrees (table.noteSwitch [⟨0⟩, ⟨1⟩, ⟨0⟩, ⟨1⟩]) := by
  intro table
  obtain ⟨once, cleared, kept, same⟩ := noteSwitch_notes_each_once table ⟨0⟩ [⟨1⟩, ⟨0⟩, ⟨1⟩]
  refine ⟨once [⟨1⟩, ⟨0⟩] (by decide) ?_, (cleared ⟨0⟩ (.inl rfl)).2, kept ⟨2⟩ (by decide) (by decide),
    same ⟨1⟩ [⟨0⟩] ?_⟩
  · intro label
    simp only [List.mem_cons, List.not_mem_nil]
    tauto
  · intro label
    simp only [List.mem_cons, List.not_mem_nil]
    tauto

/-! ### Operations -/

inductive Operation where
  | noteTarget (label : Label)
  | noteSuccessor (label : Label)
  | noteCall (label : Label) (line : UInt32)
  | noteCounted (label : Label)
  | forget (label : Label)
  | forgetAll (labels : List Label)
  | isCounted (label : Label)
  deriving DecidableEq, Repr

def apply (table : MarkTable) : Operation → MarkTable
  | .noteTarget label => table.noteTarget label
  | .noteSuccessor label => table.noteSuccessor label
  | .noteCall label line => table.noteCall label line
  | .noteCounted label => table.noteCounted label
  | .forget label => table.forget label
  | .forgetAll labels => table.forgetAll labels
  | .isCounted _ => table

/-- The table after a sequence of operations on an empty one. -/
def run (operations : List Operation) : MarkTable := operations.foldl apply {}

/-- What an operation means for one label. -/
inductive Event where
  | target
  | successor
  | call (line : UInt32)
  | counted
  | forgotten
  deriving DecidableEq, Repr

def Operation.event? (label : Label) : Operation → Option Event
  | .noteTarget other => if other = label then some .target else none
  | .noteSuccessor other => if other = label then some .successor else none
  | .noteCall other line => if other = label then some (.call line) else none
  | .noteCounted other => if other = label then some .counted else none
  | .forget other => if other = label then some .forgotten else none
  | .forgetAll labels => if label ∈ labels then some .forgotten else none
  | .isCounted _ => none

/-- The operations on one label, in order. -/
def history (operations : List Operation) (label : Label) : List Event := operations.filterMap (·.event? label)

namespace Event

/-- What happens to the marks of the label. -/
@[simp]
def change : Event → Marks → Marks
  | .target => Marks.addTarget
  | .successor => fun marks => { marks with successor := true }
  | .call line => fun marks => { marks with callLine := some line }
  | .counted => fun marks => { marks with counted := true }
  | .forgotten => fun marks => { marks with counted := false }

/-- What happens to the entry of the label. Only an entry that is there can be forgotten. -/
def apply (entry : Option Marks) (event : Event) : Option Marks :=
  if event = .forgotten then entry.map event.change else some (event.change (entry.getD {}))

@[simp]
def line? : Event → Option UInt32
  | .call line => some line
  | _ => none

/-- The event decides whether the label counts as counted. -/
@[simp]
def setsCounted : Event → Bool
  | .counted | .forgotten => true
  | _ => false

theorem getD_apply (entry : Option Marks) (event : Event) :
    (event.apply entry).getD {} = event.change (entry.getD {}) := by
  cases entry <;> cases event <;> rfl

theorem isSome_apply (entry : Option Marks) (event : Event) :
    (event.apply entry).isSome = (entry.isSome || event != .forgotten) := by
  cases entry <;> cases event <;> rfl

end Event

/-! ### Replays -/

/-- An operation on other labels leaves the entry of a label alone, and one on this label changes it as its event says. -/
theorem get?_apply (table : MarkTable) (operation : Operation) (label : Label) :
    (table.apply operation).get? label = (operation.event? label).toList.foldl Event.apply (table.get? label) := by
  cases operation with
  | forget other =>
    show (table.forget other).get? label = _
    rw [get?_forget]
    by_cases same : other = label
    · simp [Operation.event?, same, Event.apply]
    · simp [Operation.event?, same, Ne.symm same]
  | forgetAll labels =>
    show (table.forgetAll labels).get? label = _
    rw [get?_forgetAll]
    by_cases member : label ∈ labels
    · simp [Operation.event?, member, Event.apply]
    · simp [Operation.event?, member]
  | isCounted other => rfl
  | noteTarget other | noteSuccessor other | noteCall other line | noteCounted other =>
    by_cases same : other = label
    · subst same
      simp [apply, noteTarget, noteSuccessor, noteCall, noteCounted, Operation.event?, Event.apply, get]
    · simp [apply, noteTarget, noteSuccessor, noteCall, noteCounted, Operation.event?, same, Ne.symm same]

theorem get?_run (operations : List Operation) (label : Label) :
    (run operations).get? label = (history operations label).foldl Event.apply none := by
  unfold run history
  induction operations using List.reverseRecOn with
  | nil => rfl
  | append_singleton earlier operation ih =>
    rw [List.foldl_append, List.filterMap_append, List.foldl_append, ← ih]
    have last : [operation].filterMap (·.event? label) = (operation.event? label).toList := by
      cases found : operation.event? label <;> simp [found]
    rw [last]
    exact get?_apply _ operation label

/-- What the marks of a label say about the operations on it. -/
structure Recorded (events : List Event) (marks : Marks) : Prop where
  tallied : marks.Tallied (events.count .target)
  successor : marks.successor = true ↔ .successor ∈ events
  callLine : marks.callLine = (events.filterMap Event.line?).getLast?
  counted : marks.counted = true ↔ (events.filter Event.setsCounted).getLast? = some .counted

theorem Recorded.change {events : List Event} {marks : Marks} (recorded : Recorded events marks) (event : Event) :
    Recorded (events ++ [event]) (event.change marks) := by
  obtain ⟨tallied, successor, callLine, counted⟩ := recorded
  cases event with
  | target =>
    refine ⟨?_, by simpa using successor, by simpa using callLine, by simpa using counted⟩
    rw [List.count_append]
    exact Marks.tallied_addTarget tallied
  | successor =>
    exact ⟨by simpa [Marks.Tallied] using tallied, by simp, by simpa using callLine, by simpa using counted⟩
  | call line =>
    exact ⟨by simpa [Marks.Tallied] using tallied, by simpa using successor, by simp, by simpa using counted⟩
  | counted =>
    exact ⟨by simpa [Marks.Tallied] using tallied, by simpa using successor, by simpa using callLine, by simp⟩
  | forgotten =>
    exact ⟨by simpa [Marks.Tallied] using tallied, by simpa using successor, by simpa using callLine, by simp⟩

theorem recorded_run (operations : List Operation) (label : Label) :
    Recorded (history operations label) ((run operations).get label) := by
  unfold get
  rw [get?_run]
  induction history operations label using List.reverseRecOn with
  | nil => exact ⟨⟨rfl, rfl⟩, by simp, rfl, by simp⟩
  | append_singleton events event ih =>
    rw [List.foldl_append]
    show Recorded _ ((event.apply (events.foldl Event.apply none)).getD {})
    rw [Event.getD_apply]
    exact ih.change event

/-- A label has an entry once an operation other than forgetting was applied to it. -/
theorem isSome_run (operations : List Operation) (label : Label) :
    ((run operations).get? label).isSome = true ↔ ∃ event ∈ history operations label, event ≠ .forgotten := by
  rw [get?_run]
  induction history operations label using List.reverseRecOn with
  | nil => simp
  | append_singleton events event ih =>
    rw [List.foldl_append]
    show (event.apply (events.foldl Event.apply none)).isSome = true ↔ _
    rw [Event.isSome_apply, Bool.or_eq_true, ih]
    simp [or_and_right, exists_or]

theorem probeDue_run_iff (operations : List Operation) (label : Label) :
    (run operations).probeDue label = true ↔
      .successor ∈ history operations label ∧
        (2 ≤ (history operations label).count .target ∨ ∃ line, .call line ∈ history operations label) := by
  have recorded := recorded_run operations label
  have called : ((run operations).get label).callLine.isSome = true ↔
      ∃ line, .call line ∈ history operations label := by
    rw [recorded.callLine, List.getLast?_isSome]
    constructor
    · intro some
      obtain ⟨line, noted⟩ := List.exists_mem_of_ne_nil _ some
      obtain ⟨event, member, found⟩ := List.mem_filterMap.mp noted
      cases event with
      | call number => exact ⟨number, member⟩
      | _ => cases found
    · rintro ⟨line, member⟩
      exact List.ne_nil_of_mem (List.mem_filterMap.mpr ⟨_, member, rfl⟩)
  unfold probeDue Marks.probeDue
  rw [Bool.and_eq_true, Bool.or_eq_true, recorded.successor, recorded.tallied.2, called, decide_eq_true_eq]

/-- Everything that can be read off a table after any sequence of operations on an empty one, from the operations on the
label that is read. Two ways in are told from one but not from more, the last line counts, and so does the last word on
whether the label is counted. The table has an entry for each label to which something other than forgetting was done.
So it does not matter how operations on different labels are interleaved. -/
theorem run_reads_history (operations : List Operation) :
    (∀ label,
      let events := history operations label
      (((run operations).get label).target = true ↔ 1 ≤ events.count .target) ∧
        (((run operations).get label).multiTarget = true ↔ 2 ≤ events.count .target) ∧
        (((run operations).get label).successor = true ↔ .successor ∈ events) ∧
        ((run operations).get label).callLine = (events.filterMap Event.line?).getLast? ∧
        ((run operations).isCounted label = true ↔ (events.filter Event.setsCounted).getLast? = some .counted) ∧
        ((run operations).probeDue label = true ↔
          .successor ∈ events ∧ (2 ≤ events.count .target ∨ ∃ line, .call line ∈ events))) ∧
      {label | ∃ event ∈ history operations label, event ≠ .forgotten}.encard = (run operations).size ∧
      ∀ others, (∀ label, history others label = history operations label) →
        (run others).Agrees (run operations) ∧ (run others).size = (run operations).size := by
  refine ⟨?_, ?_, ?_⟩
  · intro label events
    obtain ⟨⟨once, twice⟩, successor, callLine, counted⟩ := recorded_run operations label
    rw [once, twice, decide_eq_true_eq, decide_eq_true_eq]
    exact ⟨Iff.rfl, Iff.rfl, successor, callLine, counted, probeDue_run_iff operations label⟩
  · simp only [← encard_entries, isSome_run]
  · intro others same
    have agrees : (run others).Agrees (run operations) := by
      intro label
      rw [get?_run, get?_run, same]
    exact ⟨agrees, agrees.size⟩

/-- The same operations on each of three labels in two orders. Forgetting several labels at once is forgetting each. -/
theorem run_reads_history_interleaved :
    let operations : List Operation :=
      [.noteTarget ⟨0⟩, .noteCounted ⟨1⟩, .noteTarget ⟨0⟩, .forgetAll [⟨0⟩, ⟨1⟩, ⟨1⟩], .noteSuccessor ⟨0⟩,
        .noteCall ⟨0⟩ 3, .isCounted ⟨2⟩, .noteCall ⟨0⟩ 4, .forget ⟨2⟩]
    let others : List Operation :=
      [.noteCounted ⟨1⟩, .forgetAll [⟨2⟩], .noteTarget ⟨0⟩, .noteTarget ⟨0⟩, .forget ⟨1⟩, .forget ⟨0⟩,
        .noteSuccessor ⟨0⟩, .noteCall ⟨0⟩ 3, .noteCall ⟨0⟩ 4]
    (∀ label, history others label = history operations label) ∧ (run others).Agrees (run operations) ∧
      (run others).size = 2 ∧ (run others).probeDue ⟨0⟩ = true ∧ ((run others).get ⟨0⟩).callLine = some 4 ∧
      (run others).isCounted ⟨1⟩ = false := by
  intro operations others
  have same : ∀ label, history others label = history operations label := by
    intro label
    by_cases first : label = ⟨0⟩
    · subst first
      rfl
    · by_cases second : label = ⟨1⟩
      · subst second
        rfl
      · by_cases third : label = ⟨2⟩
        · subst third
          rfl
        · simp [history, others, operations, Operation.event?, first, second, third, Ne.symm first, Ne.symm second,
            Ne.symm third]
  obtain ⟨-, -, agree⟩ := run_reads_history operations
  obtain ⟨reads, -, -⟩ := run_reads_history others
  obtain ⟨-, -, -, callLine, -, due⟩ := reads ⟨0⟩
  obtain ⟨-, -, -, -, counted, -⟩ := reads ⟨1⟩
  obtain ⟨agrees, size⟩ := agree others same
  refine ⟨same, agrees, size.trans rfl, due.mpr ⟨by decide, .inl (by decide)⟩, callLine.trans rfl, ?_⟩
  exact Bool.eq_false_iff.mpr fun set => absurd (counted.mp set) (by decide)

end ProbePoints.MarkTable
