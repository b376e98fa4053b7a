import ProbePoints.Marks

/-!
# What the operations on marks do

Each operation of `MarkTable` seen through the marks of one label. `get?_noteSwitch` shows that the counted flags of a
switch amount to one more way in for each label it leads to. `Marks.Tallied` reads the two target flags of a label as
a count that is exact up to two.
-/

namespace ProbePoints

namespace Marks

/-- The target flags say that control can arrive from elsewhere in `n` ways. -/
def Tallied (n : Nat) (marks : Marks) : Prop :=
  marks.target = decide (1 ≤ n) ∧ marks.multiTarget = decide (2 ≤ n)

instance (n : Nat) (marks : Marks) : Decidable (marks.Tallied n) := inferInstanceAs (Decidable (_ ∧ _))

theorem tallied_unmarked : Tallied 0 {} := ⟨rfl, rfl⟩

theorem tallied_addTarget {n : Nat} {marks : Marks} (tallied : marks.Tallied n) :
    marks.addTarget.Tallied (n + 1) := by
  obtain ⟨once, twice⟩ := tallied
  unfold addTarget
  by_cases reached : 1 ≤ n
  · rw [if_pos (by simpa [reached] using once)]
    exact ⟨by simp [once, reached], by simp; omega⟩
  · rw [if_neg (by simp [once, reached])]
    exact ⟨by simp, by rw [twice]; simp; omega⟩

@[simp]
theorem addTarget_successor (marks : Marks) : marks.addTarget.successor = marks.successor := by
  unfold addTarget; split <;> rfl

@[simp]
theorem addTarget_callLine (marks : Marks) : marks.addTarget.callLine = marks.callLine := by
  unfold addTarget; split <;> rfl

@[simp]
theorem addTarget_counted (marks : Marks) : marks.addTarget.counted = marks.counted := by
  unfold addTarget; split <;> rfl

end Marks

namespace MarkTable

/-! ### Entries -/

theorem mem_keys_iff (table : MarkTable) (label : Label) :
    label ∈ table.entries.map Prod.fst ↔ (table.get? label).isSome = true := by
  unfold get?
  induction table.entries with
  | nil => simp
  | cons entry rest ih =>
    obtain ⟨key, marks⟩ := entry
    rw [lookup_cons, List.map_cons, List.mem_cons, ih]
    by_cases here : label = key <;> simp [here]

/-! ### Marks after an operation -/

@[simp]
theorem get_empty (label : Label) : ({} : MarkTable).get label = {} := rfl

@[simp]
theorem get_update (table : MarkTable) (label : Label) (f : Marks → Marks) (other : Label) :
    (table.update label f).get other = if other = label then f (table.get label) else table.get other := by
  unfold get
  rw [get?_update]
  split <;> rfl

theorem get?_forget (table : MarkTable) (label other : Label) :
    (table.forget label).get? other =
      (table.get? other).map fun marks => if other = label then { marks with counted := false } else marks := by
  unfold forget
  rw [get?_modify]
  by_cases same : other = label <;> simp [same]

theorem get?_forgetAll (table : MarkTable) (labels : List Label) (other : Label) :
    (table.forgetAll labels).get? other =
      (table.get? other).map fun marks => if other ∈ labels then { marks with counted := false } else marks := by
  unfold forgetAll
  induction labels generalizing table with
  | nil => simp
  | cons label rest ih =>
    rw [List.foldl_cons, ih, get?_forget, Option.map_map]
    congr 1
    funext marks
    by_cases here : other = label <;> by_cases later : other ∈ rest <;> simp [here, later]

theorem get_forgetAll (table : MarkTable) (labels : List Label) (other : Label) :
    (table.forgetAll labels).get other =
      if other ∈ labels then { table.get other with counted := false } else table.get other := by
  unfold get
  rw [get?_forgetAll]
  cases table.get? other <;> simp

/-! ### Switches -/

theorem get?_countOnce (table : MarkTable) (label other : Label) :
    (table.countOnce label).get? other =
      if other = label ∧ (table.get label).counted = false then
        some { (table.get label).addTarget with counted := true }
      else table.get? other := by
  unfold countOnce isCounted noteTarget noteCounted
  cases counted : (table.get label).counted with
  | true => simp
  | false =>
    by_cases same : other = label
    · simp [same]
    · simp [same]

/-- One pass over the labels of a switch counts every label that no earlier one counted. The induction is on the
labels still to come, for every table. -/
theorem get?_foldl_countOnce (labels : List Label) (table : MarkTable) (other : Label) :
    (labels.foldl countOnce table).get? other =
      if other ∈ labels ∧ (table.get other).counted = false then
        some { (table.get other).addTarget with counted := true }
      else table.get? other := by
  induction labels generalizing table with
  | nil => simp
  | cons label rest ih =>
    have now : (table.countOnce label).get other =
        if other = label ∧ (table.get label).counted = false then
          { (table.get label).addTarget with counted := true }
        else table.get other := by
      rw [get, get?_countOnce]
      split <;> rfl
    rw [List.foldl_cons, ih, now, get?_countOnce]
    by_cases here : other = label
    · subst here
      cases counted : (table.get other).counted <;> simp [counted]
    · simp [here]

/-- A switch adds one way into each label it leads to, however often it names the label and whatever was counted
before. -/
theorem get?_noteSwitch (table : MarkTable) (labels : List Label) (other : Label) :
    (table.noteSwitch labels).get? other =
      if other ∈ labels then some { (table.get other).addTarget with counted := false } else table.get? other := by
  unfold noteSwitch
  rw [get?_forgetAll, get?_foldl_countOnce, get?_forgetAll, get_forgetAll]
  by_cases member : other ∈ labels
  · have flags : ({ table.get other with counted := false } : Marks).addTarget =
        { (table.get other).addTarget with counted := false } := by
      unfold Marks.addTarget
      split <;> rfl
    simp [member, flags]
  · cases table.get? other <;> simp [member]

theorem get_noteSwitch (table : MarkTable) (labels : List Label) (other : Label) :
    (table.noteSwitch labels).get other =
      if other ∈ labels then { (table.get other).addTarget with counted := false } else table.get other := by
  unfold get
  rw [get?_noteSwitch]
  split <;> rfl

/-! ### Fields after an operation -/

theorem tallied_noteTarget {table : MarkTable} {label : Label} {n : Nat} (target : Label)
    (tallied : (table.get label).Tallied n) :
    ((table.noteTarget target).get label).Tallied (n + if target = label then 1 else 0) := by
  unfold noteTarget
  by_cases same : target = label
  · subst same
    simpa using Marks.tallied_addTarget tallied
  · simpa [same, Ne.symm same] using tallied

theorem tallied_noteSwitch {table : MarkTable} {label : Label} {n : Nat} (labels : List Label)
    (tallied : (table.get label).Tallied n) :
    ((table.noteSwitch labels).get label).Tallied (n + if label ∈ labels then 1 else 0) := by
  rw [get_noteSwitch]
  split
  · exact Marks.tallied_addTarget tallied
  · exact tallied

theorem tallied_noteSuccessor {table : MarkTable} {label : Label} {n : Nat} (here : Label)
    (tallied : (table.get label).Tallied n) : ((table.noteSuccessor here).get label).Tallied n := by
  unfold noteSuccessor
  by_cases same : label = here
  · subst same
    rw [get_update, if_pos rfl]
    exact tallied
  · simpa [same] using tallied

theorem tallied_noteCall {table : MarkTable} {label : Label} {n : Nat} (start : Label) (line : UInt32)
    (tallied : (table.get label).Tallied n) : ((table.noteCall start line).get label).Tallied n := by
  unfold noteCall
  by_cases same : label = start
  · subst same
    rw [get_update, if_pos rfl]
    exact tallied
  · simpa [same] using tallied

@[simp]
theorem successor_noteTarget (table : MarkTable) (target label : Label) :
    ((table.noteTarget target).get label).successor = (table.get label).successor := by
  by_cases same : label = target <;> simp [noteTarget, same]

@[simp]
theorem successor_noteSwitch (table : MarkTable) (labels : List Label) (label : Label) :
    ((table.noteSwitch labels).get label).successor = (table.get label).successor := by
  by_cases member : label ∈ labels <;> simp [get_noteSwitch, member]

@[simp]
theorem successor_noteSuccessor (table : MarkTable) (here label : Label) :
    ((table.noteSuccessor here).get label).successor = ((table.get label).successor || decide (here = label)) := by
  by_cases same : here = label
  · simp [noteSuccessor, same]
  · simp [noteSuccessor, same, Ne.symm same]

@[simp]
theorem successor_noteCall (table : MarkTable) (start label : Label) (line : UInt32) :
    ((table.noteCall start line).get label).successor = (table.get label).successor := by
  by_cases same : label = start <;> simp [noteCall, same]

@[simp]
theorem callLine_noteTarget (table : MarkTable) (target label : Label) :
    ((table.noteTarget target).get label).callLine = (table.get label).callLine := by
  by_cases same : label = target <;> simp [noteTarget, same]

@[simp]
theorem callLine_noteSwitch (table : MarkTable) (labels : List Label) (label : Label) :
    ((table.noteSwitch labels).get label).callLine = (table.get label).callLine := by
  by_cases member : label ∈ labels <;> simp [get_noteSwitch, member]

@[simp]
theorem callLine_noteSuccessor (table : MarkTable) (here label : Label) :
    ((table.noteSuccessor here).get label).callLine = (table.get label).callLine := by
  by_cases same : label = here <;> simp [noteSuccessor, same]

@[simp]
theorem callLine_noteCall (table : MarkTable) (start label : Label) (line : UInt32) :
    ((table.noteCall start line).get label).callLine =
      if start = label then some line else (table.get label).callLine := by
  by_cases same : start = label
  · simp [noteCall, same]
  · simp [noteCall, same, Ne.symm same]

end MarkTable

end ProbePoints
