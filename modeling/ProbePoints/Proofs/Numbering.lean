import Mathlib.Data.List.Basic
import Mathlib.Data.List.GetD
import Mathlib.Data.List.Induction
import ProbePoints.Proofs.Validity

/-!
# Numbered labels

`Body.number` gives the labels of a body numbers in the order of first mention. `Body.number_eq` says so without the
state that the numbering carries along. Numbers and names go back and forth: `Body.named_number` and
`Method.Numbered.number_named`.
-/

namespace ProbePoints

/-! ### Lists without repetition -/

theorem eraseDups_concat {α : Type} [DecidableEq α] (items : List α) (a : α) :
    (items ++ [a]).eraseDups = if a ∈ items then items.eraseDups else items.eraseDups ++ [a] := by
  rw [List.eraseDups_append]
  by_cases before : a ∈ items
  · simp [List.removeAll, before]
  · simp [List.removeAll, before, List.eraseDups_cons]

theorem nodup_eraseDups {α : Type} [DecidableEq α] (items : List α) : items.eraseDups.Nodup := by
  induction items using List.reverseRecOn with
  | nil => exact List.nodup_nil
  | append_singleton items a ih =>
    rw [eraseDups_concat]
    split
    · exact ih
    · rename_i new
      refine List.nodup_append.mpr ⟨ih, by simp, ?_⟩
      rintro b member c same rfl
      rw [List.mem_singleton.mp same] at member
      exact new (List.mem_eraseDups.mp member)

theorem eraseDups_map {α β : Type} [DecidableEq α] [DecidableEq β] {f : α → β} {items : List α}
    (injective : ∀ a ∈ items, ∀ b ∈ items, f a = f b → a = b) :
    (items.map f).eraseDups = items.eraseDups.map f := by
  induction items using List.reverseRecOn with
  | nil => rfl
  | append_singleton items a ih =>
    have seen : f a ∈ items.map f ↔ a ∈ items := by
      constructor
      · intro member
        obtain ⟨b, before, same⟩ := List.mem_map.mp member
        rw [← injective b (by simp [before]) a (by simp) same]
        exact before
      · exact List.mem_map_of_mem
    have earlier := ih fun b before c also => injective b (by simp [before]) c (by simp [also])
    rw [List.map_append, List.map_singleton, eraseDups_concat, eraseDups_concat, earlier]
    simp only [seen]
    split
    · rfl
    · rw [List.map_append, List.map_singleton]

theorem eraseDups_prefix_append {α : Type} [DecidableEq α] (items later : List α) :
    items.eraseDups <+: (items ++ later).eraseDups := by
  rw [List.eraseDups_append]
  exact List.prefix_append ..

/-! ### Other labels -/

section Relabel

variable {α β : Type}

/-- A slot with other labels. -/
def Slot.relabel (f : α → β) (slot : Slot α) : Slot β := (slot.relabelM (m := Id) fun label => pure (f label)).run

/-- A node with other labels. -/
def Node.relabel (f : α → β) (node : Node α) : Node β := (node.relabelM (m := Id) fun label => pure (f label)).run

/-- A range with other labels. -/
def ProtectedRange.relabel (f : α → β) (range : ProtectedRange α) : ProtectedRange β :=
  (range.relabelM (m := Id) fun label => pure (f label)).run

/-- The labels a body mentions, in reading order: those of the stream, then those of the ranges. -/
def Body.labels (body : Body α) : List α :=
  body.nodes.flatMap Node.labels ++ body.ranges.flatMap ProtectedRange.labels

/-- A body with other labels. -/
def Body.relabel (f : α → β) (body : Body α) : Body β where
  name := body.name
  descriptor := body.descriptor
  nodes := body.nodes.map (Node.relabel f)
  ranges := body.ranges.map (ProtectedRange.relabel f)

theorem Slot.labels_relabel (f : α → β) (slot : Slot α) : (slot.relabel f).labels = slot.labels.map f := by
  cases slot <;> rfl

@[simp]
theorem Node.relabel_line (f : α → β) (mark : LineMark α) :
    (Node.line mark).relabel f = .line { number := mark.number, start := f mark.start } := rfl

@[simp]
theorem Node.relabel_frame (f : α → β) (shape : Frame α) :
    (Node.frame shape).relabel f =
      .frame { kind := shape.kind, locals := shape.locals.map (Slot.relabel f),
               stack := shape.stack.map (Slot.relabel f) } := by
  simp [Node.relabel, Node.relabelM, Frame.relabelM, Slot.relabel]

@[simp]
theorem Node.relabel_tableSwitch (f : α → β) (low high : Int32) (fallback : α) (targets : List α) :
    (Node.insn (.tableSwitch low high fallback targets)).relabel f =
      .insn (.tableSwitch low high (f fallback) (targets.map f)) := by
  simp [Node.relabel, Node.relabelM, Instruction.relabelM]

@[simp]
theorem Node.relabel_lookupSwitch (f : α → β) (fallback : α) (keys : List Int32) (targets : List α) :
    (Node.insn (.lookupSwitch fallback keys targets)).relabel f =
      .insn (.lookupSwitch (f fallback) keys (targets.map f)) := by
  simp [Node.relabel, Node.relabelM, Instruction.relabelM]

theorem Node.labels_relabel (f : α → β) (node : Node α) : (node.relabel f).labels = node.labels.map f := by
  cases node with
  | insn instruction => cases instruction <;> first | rfl | simp [Node.labels, Instruction.targets]
  | label here => rfl
  | frame shape => simp [Node.labels, List.flatMap_map, List.map_flatMap, Slot.labels_relabel]
  | line mark => rfl

theorem Body.labels_relabel (f : α → β) (body : Body α) : (body.relabel f).labels = body.labels.map f := by
  have range : ∀ range : ProtectedRange α, (range.relabel f).labels = range.labels.map f := fun _ => rfl
  simp [Body.labels, Body.relabel, List.flatMap_map, List.map_flatMap, Node.labels_relabel, range]

/-! ### And back again -/

theorem map_map_of_inverse {f : α → β} {g : β → α} {items : List α} (inverse : ∀ a ∈ items, g (f a) = a) :
    (items.map f).map g = items := by
  rw [List.map_map]
  exact (List.map_congr_left inverse).trans (List.map_id _)

theorem Slot.relabel_inverse {f : α → β} {g : β → α} {slot : Slot α} (inverse : ∀ a ∈ slot.labels, g (f a) = a) :
    (slot.relabel f).relabel g = slot := by
  cases slot with
  | basic type => rfl
  | object name => rfl
  | uninitialized site => exact congrArg Slot.uninitialized (inverse site (List.mem_singleton.mpr rfl))

theorem Node.relabel_inverse {f : α → β} {g : β → α} {node : Node α} (inverse : ∀ a ∈ node.labels, g (f a) = a) :
    (node.relabel f).relabel g = node := by
  cases node with
  | insn instruction =>
    cases instruction with
    | jump op target =>
      have same : g (f target) = target := inverse target (List.mem_singleton.mpr rfl)
      exact congrArg (fun label => Node.insn (.jump op label)) same
    | tableSwitch low high fallback targets =>
      have same : g (f fallback) = fallback := inverse fallback List.mem_cons_self
      have rest := map_map_of_inverse fun a member => inverse a (List.mem_cons_of_mem fallback member)
      rw [relabel_tableSwitch, relabel_tableSwitch, same, rest]
    | lookupSwitch fallback keys targets =>
      have same : g (f fallback) = fallback := inverse fallback List.mem_cons_self
      have rest := map_map_of_inverse fun a member => inverse a (List.mem_cons_of_mem fallback member)
      rw [relabel_lookupSwitch, relabel_lookupSwitch, same, rest]
    | _ => rfl
  | label here => exact congrArg Node.label (inverse here (List.mem_singleton.mpr rfl))
  | frame shape =>
    have slots : ∀ slot ∈ shape.locals ++ shape.stack, (slot.relabel f).relabel g = slot := by
      intro slot member
      exact Slot.relabel_inverse fun a mentioned => inverse a (List.mem_flatMap.mpr ⟨slot, member, mentioned⟩)
    have locals := map_map_of_inverse fun slot member => slots slot (List.mem_append_left _ member)
    have stack := map_map_of_inverse fun slot member => slots slot (List.mem_append_right _ member)
    rw [relabel_frame, relabel_frame, locals, stack]
  | line mark =>
    have same : g (f mark.start) = mark.start := inverse mark.start (List.mem_singleton.mpr rfl)
    rw [relabel_line, relabel_line, same]

theorem ProtectedRange.relabel_inverse {f : α → β} {g : β → α} {range : ProtectedRange α}
    (inverse : ∀ a ∈ range.labels, g (f a) = a) : (range.relabel f).relabel g = range := by
  obtain ⟨start, stop, handler, caught⟩ := range
  simp only [ProtectedRange.labels, List.mem_cons, List.not_mem_nil, or_false, forall_eq_or_imp, forall_eq] at inverse
  obtain ⟨atStart, atStop, atHandler⟩ := inverse
  change ProtectedRange.mk (g (f start)) (g (f stop)) (g (f handler)) caught = _
  rw [atStart, atStop, atHandler]

theorem Body.relabel_inverse {f : α → β} {g : β → α} {body : Body α} (inverse : ∀ a ∈ body.labels, g (f a) = a) :
    (body.relabel f).relabel g = body := by
  have nodes := map_map_of_inverse fun node (member : node ∈ body.nodes) =>
    Node.relabel_inverse fun a mentioned =>
      inverse a (List.mem_append_left _ (List.mem_flatMap.mpr ⟨node, member, mentioned⟩))
  have ranges := map_map_of_inverse fun range (member : range ∈ body.ranges) =>
    ProtectedRange.relabel_inverse fun a mentioned =>
      inverse a (List.mem_append_right _ (List.mem_flatMap.mpr ⟨range, member, mentioned⟩))
  simp only [Body.relabel, nodes, ranges]

end Relabel

/-! ### Numbering as it goes along -/

/-- The label of a name in a table of names. -/
def labelIn (table : List String) (name : String) : Label := ⟨table.idxOf name⟩

theorem run_intern_of_mem {names : List String} {name : String} (known : name ∈ names) :
    (intern name).run names = (labelIn names name, names) := by
  obtain ⟨index, found⟩ := Option.isSome_iff_exists.mp (List.isSome_idxOf?.mpr known)
  have same : names.idxOf name = index := by
    rw [List.idxOf_eq_getD_idxOf?, found]
    rfl
  simp only [intern, StateT.run, labelIn, found, same]

theorem run_intern_of_not_mem {names : List String} {name : String} (unknown : name ∉ names) :
    (intern name).run names = (⟨names.length⟩, names ++ [name]) := by
  have missing := List.idxOf?_eq_none_iff.mpr unknown
  simp only [intern, StateT.run, missing]

/-- The computation mentions `names` in this order. Its value is made from the labels of the names, in any table that
continues the one it leaves behind. -/
def Interns {β : Type} (act : StateM (List String) β) (names : List String) (value : (String → Label) → β) : Prop :=
  ∀ seen table, (seen ++ names).eraseDups <+: table →
    act.run seen.eraseDups = (value (labelIn table), (seen ++ names).eraseDups)

namespace Interns

variable {β γ : Type}

theorem pure (b : β) : Interns (Pure.pure b) [] fun _ => b := by
  intro seen table continued
  rw [List.append_nil]
  rfl

theorem intern (name : String) : Interns (ProbePoints.intern name) [name] fun label => label name := by
  intro seen table continued
  have placed := continued.idxOf_eq_of_mem (a := name) (List.mem_eraseDups.mpr (by simp))
  change (ProbePoints.intern name).run seen.eraseDups = (⟨table.idxOf name⟩, (seen ++ [name]).eraseDups)
  rw [← placed, eraseDups_concat]
  by_cases before : name ∈ seen
  · rw [if_pos before, run_intern_of_mem (List.mem_eraseDups.mpr before)]
    rfl
  · have unknown : name ∉ seen.eraseDups := fun member => before (List.mem_eraseDups.mp member)
    rw [if_neg before, List.idxOf_append_of_notMem unknown, run_intern_of_not_mem unknown]
    simp

theorem bind {act : StateM (List String) β} {next : β → StateM (List String) γ} {names later : List String}
    {value : (String → Label) → β} {result : (String → Label) → β → γ} (first : Interns act names value)
    (second : ∀ b, Interns (next b) later fun label => result label b) :
    Interns (act >>= next) (names ++ later) fun label => result label (value label) := by
  intro seen table continued
  rw [← List.append_assoc] at continued ⊢
  have earlier := first seen table ((eraseDups_prefix_append _ later).trans continued)
  rw [StateT.run_bind, earlier]
  exact second (value (labelIn table)) (seen ++ names) table continued

theorem map {act : StateM (List String) β} {names : List String} {value : (String → Label) → β}
    (interns : Interns act names value) (f : β → γ) :
    Interns (act >>= fun b => Pure.pure (f b)) names fun label => f (value label) := by
  intro seen table continued
  rw [StateT.run_bind, interns seen table continued]
  rfl

theorem mapM {α : Type} {f : α → StateM (List String) β} {names : α → List String}
    {value : α → (String → Label) → β} (each : ∀ a, Interns (f a) (names a) (value a)) (items : List α) :
    Interns (items.mapM f) (items.flatMap names) fun label => items.map fun a => value a label := by
  induction items with
  | nil => exact Interns.pure []
  | cons a rest ih =>
    rw [List.mapM_cons]
    exact (each a).bind fun b => ih.map (b :: ·)

end Interns

/-! ### Numbering of a whole body -/

theorem Slot.interns (slot : Slot String) : Interns (slot.relabelM intern) slot.labels (slot.relabel ·) := by
  cases slot with
  | basic type => exact Interns.pure _
  | object name => exact Interns.pure _
  | uninitialized site => exact (Interns.intern site).map Slot.uninitialized

theorem interns_targets (targets : List String) :
    Interns (targets.mapM intern) targets fun label => targets.map label := by
  have mapped := Interns.mapM Interns.intern targets
  rwa [List.flatMap_singleton'] at mapped

theorem Instruction.interns (instruction : Instruction String) :
    Interns (Node.insn instruction |>.relabelM intern) instruction.targets ((Node.insn instruction).relabel ·) := by
  cases instruction with
  | jump op target =>
    have target := (Interns.intern target).map (Instruction.jump op)
    exact target.map Node.insn
  | tableSwitch low high fallback targets =>
    have switch := (Interns.intern fallback).bind fun first =>
      (interns_targets targets).map (Instruction.tableSwitch low high first)
    simp only [Node.relabel_tableSwitch]
    exact switch.map Node.insn
  | lookupSwitch fallback keys targets =>
    have switch := (Interns.intern fallback).bind fun first =>
      (interns_targets targets).map (Instruction.lookupSwitch first keys)
    simp only [Node.relabel_lookupSwitch]
    exact switch.map Node.insn
  | _ => exact Interns.pure _

theorem Node.interns (node : Node String) : Interns (node.relabelM intern) node.labels (node.relabel ·) := by
  cases node with
  | insn instruction => exact instruction.interns
  | label here => exact (Interns.intern here).map Node.label
  | frame shape =>
    have slots := (Interns.mapM Slot.interns shape.locals).bind fun locals =>
      (Interns.mapM Slot.interns shape.stack).map fun stack => Frame.mk shape.kind locals stack
    have frame := slots.map Node.frame
    rw [← List.flatMap_append] at frame
    simp only [Node.relabel_frame]
    exact frame
  | line mark =>
    have start := (Interns.intern mark.start).map (LineMark.mk mark.number)
    exact start.map Node.line

theorem ProtectedRange.interns (range : ProtectedRange String) :
    Interns (range.relabelM intern) range.labels (range.relabel ·) := by
  exact (Interns.intern range.start).bind fun start => (Interns.intern range.stop).bind fun stop =>
    (Interns.intern range.handler).map fun handler => ProtectedRange.mk start stop handler range.caught

theorem Body.interns (body : Body String) : Interns (body.relabelM intern) body.labels (body.relabel ·) := by
  exact (Interns.mapM Node.interns body.nodes).bind fun nodes =>
    (Interns.mapM ProtectedRange.interns body.ranges).map fun ranges => Body.mk body.name body.descriptor nodes ranges

/-- The names of a numbered body are its label names in the order of first mention, and each label is the position of
its name. -/
theorem Body.number_eq (body : Body String) :
    body.number =
      { toBody := body.relabel (labelIn body.labels.eraseDups), labels := body.labels.eraseDups } := by
  have run := body.interns [] body.labels.eraseDups (List.prefix_refl _)
  unfold Body.number
  rw [show ([] : List String) = ([] : List String).eraseDups from rfl, run]
  rfl

namespace Method

/-- The labels of a method have distinct names, and the order of first mention numbers them: each label that was handed
out is mentioned, and no other. -/
structure Numbered (m : Method) : Prop where
  distinct : m.labels.Nodup
  inOrder : m.toBody.labels.eraseDups = (List.range m.numLabels).map Label.mk

theorem numbered_iff (m : Method) :
    m.Numbered ↔ m.labels.Nodup ∧ m.toBody.labels.eraseDups = (List.range m.numLabels).map Label.mk :=
  ⟨fun numbered => ⟨numbered.distinct, numbered.inOrder⟩, fun ⟨distinct, inOrder⟩ => ⟨distinct, inOrder⟩⟩

instance (m : Method) : Decidable m.Numbered := decidable_of_iff _ m.numbered_iff.symm

/-- A method with its labels named. -/
def named (m : Method) : Body String := m.toBody.relabel m.displayName

theorem Numbered.lt_numLabels {m : Method} (numbered : m.Numbered) {label : Label} (member : label ∈ m.toBody.labels) :
    label.id < m.numLabels := by
  have mentioned : label ∈ m.toBody.labels.eraseDups := List.mem_eraseDups.mpr member
  rw [numbered.inOrder] at mentioned
  obtain ⟨id, bound, rfl⟩ := List.mem_map.mp mentioned
  exact List.mem_range.mp bound

theorem displayName_of_lt {m : Method} {label : Label} (bound : label.id < m.numLabels) :
    m.displayName label = m.labels[label.id] := by
  unfold displayName
  rw [List.getD_eq_getElem?_getD, List.getElem?_eq_getElem bound, Option.getD_some]

theorem displayName_labelIn {m : Method} {name : String} (known : name ∈ m.labels) :
    m.displayName (labelIn m.labels name) = name := by
  have bound := List.idxOf_lt_length_iff.mpr known
  exact (displayName_of_lt bound).trans (List.getElem_idxOf bound)

theorem displayName_of_append {m later : Method} {names : List String} (added : later.labels = m.labels ++ names)
    {label : Label} (old : label.id < m.numLabels) : later.displayName label = m.displayName label := by
  unfold displayName
  rw [added, List.getD_append _ _ _ _ old]

theorem Numbered.labelIn_displayName {m : Method} (numbered : m.Numbered) {label : Label}
    (bound : label.id < m.numLabels) : labelIn m.labels (m.displayName label) = label := by
  rw [displayName_of_lt bound]
  exact congrArg Label.mk (numbered.distinct.idxOf_getElem _ bound)

theorem Numbered.labels_named {m : Method} (numbered : m.Numbered) : m.named.labels.eraseDups = m.labels := by
  have injective : ∀ a ∈ m.toBody.labels, ∀ b ∈ m.toBody.labels, m.displayName a = m.displayName b → a = b := by
    intro a first b second same
    rw [← numbered.labelIn_displayName (numbered.lt_numLabels first), same]
    exact numbered.labelIn_displayName (numbered.lt_numLabels second)
  unfold named
  rw [Body.labels_relabel, eraseDups_map injective, numbered.inOrder, List.map_map]
  apply List.ext_getElem
  · simp [numLabels]
  · intro i inside bound
    rw [List.getElem_map, List.getElem_range]
    exact displayName_of_lt bound

/-- A method whose labels are numbered in the order of first mention comes back from its names. -/
theorem Numbered.number_named {m : Method} (numbered : m.Numbered) : m.named.number = m := by
  have back : m.named.relabel (labelIn m.labels) = m.toBody :=
    Body.relabel_inverse fun label member => numbered.labelIn_displayName (numbered.lt_numLabels member)
  rw [Body.number_eq, numbered.labels_named, back]

end Method

theorem Body.numbered_number (body : Body String) : body.number.Numbered := by
  have distinct := nodup_eraseDups body.labels
  rw [Body.number_eq]
  refine ⟨distinct, ?_⟩
  change (body.relabel (labelIn body.labels.eraseDups)).labels.eraseDups = _
  have injective : ∀ a ∈ body.labels, ∀ b ∈ body.labels,
      labelIn body.labels.eraseDups a = labelIn body.labels.eraseDups b → a = b := by
    intro a first b second same
    exact (List.idxOf_inj (List.mem_eraseDups.mpr first)).mp (Label.mk.inj same)
  rw [Body.labels_relabel, eraseDups_map injective]
  apply List.ext_getElem
  · simp [Method.numLabels]
  · intro i inside bound
    rw [List.getElem_map, List.getElem_map, List.getElem_range]
    exact congrArg Label.mk (distinct.idxOf_getElem i _)

/-- Numbering forgets no name. -/
theorem Body.named_number (body : Body String) : body.number.named = body := by
  rw [Body.number_eq]
  exact Body.relabel_inverse fun name member => Method.displayName_labelIn (List.mem_eraseDups.mpr member)

end ProbePoints
