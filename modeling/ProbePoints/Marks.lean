import ProbePoints.Instruction

/-!
# Marks of labels

What the analysis notes about each label. `MarkTable` holds one entry for every label that was ever marked and reads
as unmarked elsewhere; `get?_update` and `get?_modify` say what an operation does to the entry of each label.
-/

namespace ProbePoints

/-- The marks of one label. -/
structure Marks where
  /-- Control can arrive from elsewhere. -/
  target : Bool := false
  /-- Control can arrive from elsewhere in more than one way. -/
  multiTarget : Bool := false
  /-- Control can arrive from the instruction before. -/
  successor : Bool := false
  /-- The source line whose code starts here, if that code calls a method. -/
  callLine : Option UInt32 := none
  /-- The switch at hand has counted this label already. -/
  counted : Bool := false
  deriving DecidableEq, Repr

namespace Marks

/-- Notes one more way in. -/
def addTarget (marks : Marks) : Marks :=
  if marks.target then { marks with multiTarget := true } else { marks with target := true }

/-- A probe is due where control may have come from the instruction before and this cannot be told from other probes:
because of a second way in, or because a call on the line may have ended early. -/
def probeDue (marks : Marks) : Bool := marks.successor && (marks.multiTarget || marks.callLine.isSome)

/-- Something is noted about the label. -/
def noted (marks : Marks) : Bool := marks.target || marks.successor || marks.callLine.isSome

end Marks

/-! ### Entries -/

namespace MarkTable

/-- Changes the entry of a label in a list of entries, adding one if there is none. -/
def updateIn (label : Label) (f : Marks → Marks) : List (Label × Marks) → List (Label × Marks)
  | [] => [(label, f {})]
  | (other, marks) :: rest =>
    if label = other then (other, f marks) :: rest else (other, marks) :: updateIn label f rest

/-- Changes the entry of a label in a list of entries, if there is one. -/
def modifyIn (label : Label) (f : Marks → Marks) (entries : List (Label × Marks)) : List (Label × Marks) :=
  entries.map fun entry => (entry.1, if label = entry.1 then f entry.2 else entry.2)

theorem keys_updateIn (label : Label) (f : Marks → Marks) (entries : List (Label × Marks)) :
    (updateIn label f entries).map Prod.fst =
      if label ∈ entries.map Prod.fst then entries.map Prod.fst else entries.map Prod.fst ++ [label] := by
  induction entries with
  | nil => simp [updateIn]
  | cons entry rest ih =>
    obtain ⟨key, marks⟩ := entry
    by_cases found : label = key
    · simp [updateIn, found]
    · simp only [updateIn, found, if_false, List.map_cons, ih, List.mem_cons, false_or]
      split <;> rfl

theorem nodup_updateIn {label : Label} {f : Marks → Marks} {entries : List (Label × Marks)}
    (distinct : (entries.map Prod.fst).Nodup) : ((updateIn label f entries).map Prod.fst).Nodup := by
  rw [keys_updateIn]
  split
  · exact distinct
  · rename_i absent
    exact List.nodup_append.mpr ⟨distinct, by simp, fun key member other same =>
      fun equal => absent (List.mem_singleton.mp same ▸ equal ▸ member)⟩

theorem keys_modifyIn (label : Label) (f : Marks → Marks) (entries : List (Label × Marks)) :
    (modifyIn label f entries).map Prod.fst = entries.map Prod.fst := by
  simp [modifyIn, Function.comp_def]

end MarkTable

/-- The marks of the labels of a method, at most one entry a label. -/
structure MarkTable where
  entries : List (Label × Marks) := []
  distinct : (entries.map Prod.fst).Nodup := by exact List.nodup_nil
  deriving DecidableEq, Repr

namespace MarkTable

/-- The entry of a label. -/
def get? (table : MarkTable) (label : Label) : Option Marks := table.entries.lookup label

/-- The marks of a label; a label without an entry has none. -/
def get (table : MarkTable) (label : Label) : Marks := (table.get? label).getD {}

/-- The number of labels that have an entry. -/
def size (table : MarkTable) : Nat := table.entries.length

/-- Changes the marks of a label and gives it an entry if it has none. -/
def update (table : MarkTable) (label : Label) (f : Marks → Marks) : MarkTable :=
  ⟨updateIn label f table.entries, nodup_updateIn table.distinct⟩

/-- Changes the marks of a label that has an entry. -/
def modify (table : MarkTable) (label : Label) (f : Marks → Marks) : MarkTable :=
  ⟨modifyIn label f table.entries, keys_modifyIn label f table.entries ▸ table.distinct⟩

/-! ### Operations of the analysis -/

/-- Notes one more way into a label. -/
def noteTarget (table : MarkTable) (label : Label) : MarkTable := table.update label Marks.addTarget

/-- Notes that control can arrive at a label from the instruction before. -/
def noteSuccessor (table : MarkTable) (label : Label) : MarkTable :=
  table.update label fun marks => { marks with successor := true }

/-- Notes the line of a call at the label that starts the line. -/
def noteCall (table : MarkTable) (label : Label) (line : UInt32) : MarkTable :=
  table.update label fun marks => { marks with callLine := some line }

/-- Notes that the switch at hand has counted a label. -/
def noteCounted (table : MarkTable) (label : Label) : MarkTable :=
  table.update label fun marks => { marks with counted := true }

/-- Forgets that a switch has counted a label. -/
def forget (table : MarkTable) (label : Label) : MarkTable :=
  table.modify label fun marks => { marks with counted := false }

/-- Forgets that a switch has counted any of the labels. -/
def forgetAll (table : MarkTable) (labels : List Label) : MarkTable := labels.foldl forget table

/-- The switch at hand has counted a label. -/
def isCounted (table : MarkTable) (label : Label) : Bool := (table.get label).counted

/-- A probe is due at a label. -/
def probeDue (table : MarkTable) (label : Label) : Bool := (table.get label).probeDue

/-- Notes one more way into a label unless the switch at hand has counted it. -/
def countOnce (table : MarkTable) (label : Label) : MarkTable :=
  if table.isCounted label then table else (table.noteTarget label).noteCounted label

/-- Notes one way into each label of a switch, however many of its keys lead there. -/
def noteSwitch (table : MarkTable) (labels : List Label) : MarkTable :=
  (labels.foldl countOnce (table.forgetAll labels)).forgetAll labels

/-! ### Entries after an operation -/

theorem lookup_cons (label key : Label) (marks : Marks) (rest : List (Label × Marks)) :
    ((key, marks) :: rest).lookup label = if label = key then some marks else rest.lookup label := by
  by_cases here : label = key
  · simp [here]
  · simp [List.lookup_cons, beq_eq_false_iff_ne.mpr here, here]

theorem lookup_updateIn (label : Label) (f : Marks → Marks) (entries : List (Label × Marks)) (other : Label) :
    (updateIn label f entries).lookup other =
      if other = label then some (f ((entries.lookup label).getD {})) else entries.lookup other := by
  induction entries with
  | nil => by_cases same : other = label <;> simp [updateIn, lookup_cons, same]
  | cons entry rest ih =>
    obtain ⟨key, marks⟩ := entry
    by_cases found : label = key
    · subst found
      by_cases same : other = label <;> simp [updateIn, lookup_cons, same]
    · by_cases here : other = key
      · subst here
        simp [updateIn, found, Ne.symm found]
      · simp [updateIn, lookup_cons, found, here, ih]

@[simp]
theorem get?_update (table : MarkTable) (label : Label) (f : Marks → Marks) (other : Label) :
    (table.update label f).get? other =
      if other = label then some (f (table.get label)) else table.get? other :=
  lookup_updateIn label f table.entries other

theorem lookup_modifyIn (label : Label) (f : Marks → Marks) (entries : List (Label × Marks)) (other : Label) :
    (modifyIn label f entries).lookup other =
      if other = label then (entries.lookup label).map f else entries.lookup other := by
  unfold modifyIn
  induction entries with
  | nil => simp
  | cons entry rest ih =>
    obtain ⟨key, marks⟩ := entry
    by_cases here : other = key
    · subst here
      by_cases same : other = label
      · subst same
        simp
      · simp [same, Ne.symm same]
    · by_cases same : other = label
      · subst same
        simpa [lookup_cons, here] using ih
      · simpa [lookup_cons, here, same] using ih

@[simp]
theorem get?_modify (table : MarkTable) (label : Label) (f : Marks → Marks) (other : Label) :
    (table.modify label f).get? other =
      if other = label then (table.get? label).map f else table.get? other :=
  lookup_modifyIn label f table.entries other

end MarkTable

end ProbePoints
