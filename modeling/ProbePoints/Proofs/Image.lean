import ProbePoints.Proofs.Numbering
import ProbePoints.Proofs.Spelling

/-!
# The methods that documents hold

`Method.WellFormed` says which methods a document can hold. Every method that is read is well-formed and is spelled by
its document, and every well-formed method is read from the document `Method.document` writes for it.
-/

namespace ProbePoints

open Document
open Json (Members)

/-! ### Well-formed elements -/

/-- Every part of a reference is there. -/
def Member.Filled (member : Member) : Prop := member.owner ≠ "" ∧ member.name ≠ "" ∧ member.descriptor ≠ ""

instance (member : Member) : Decidable member.Filled := inferInstanceAs (Decidable (_ ∧ _ ∧ _))

instance {α : Type} (low high : Int32) (targets : List α) : Decidable (TableFits low high targets) :=
  inferInstanceAs (Decidable (_ ∧ _))

section Elements

variable {α β : Type}

/-- Operands that a document can give to an instruction. Opcodes, operand words and constants are free. -/
def Instruction.WellFormed : Instruction α → Prop
  | .type _ name => name ≠ ""
  | .field _ member | .method _ member _ => member.Filled
  | .invokeDynamic name descriptor _ => name ≠ "" ∧ descriptor ≠ ""
  | .tableSwitch low high _ targets => TableFits low high targets
  | .lookupSwitch _ keys targets => keys.length = targets.length
  | .multiArray descriptor dimensions => descriptor ≠ "" ∧ 1 ≤ dimensions.toNat
  | _ => True

/-- A node that a document can hold. Frames and line marks are free. -/
def Node.WellFormed : Node α → Prop
  | .insn instruction => instruction.WellFormed
  | _ => True

instance (instruction : Instruction α) : Decidable instruction.WellFormed :=
  match instruction with
  | .type .. => inferInstanceAs (Decidable (_ ≠ _))
  | .field .. | .method .. => inferInstanceAs (Decidable (Member.Filled _))
  | .invokeDynamic .. | .multiArray .. => inferInstanceAs (Decidable (_ ∧ _))
  | .tableSwitch .. => inferInstanceAs (Decidable (TableFits _ _ _))
  | .lookupSwitch .. => inferInstanceAs (Decidable (_ = _))
  | .plain .. | .int .. | .var .. | .jump .. | .ldc .. | .iinc .. => inferInstanceAs (Decidable True)

instance (node : Node α) : Decidable node.WellFormed :=
  match node with
  | .insn instruction => inferInstanceAs (Decidable instruction.WellFormed)
  | .label .. | .frame .. | .line .. => inferInstanceAs (Decidable True)

theorem Node.wellFormed_relabel (f : α → β) (node : Node α) : (node.relabel f).WellFormed ↔ node.WellFormed := by
  cases node with
  | insn instruction =>
    cases instruction with
    | tableSwitch low high fallback targets => simp [WellFormed, Instruction.WellFormed, TableFits]
    | lookupSwitch fallback keys targets => simp [WellFormed, Instruction.WellFormed]
    | _ => rfl
  | frame shape => simp [WellFormed]
  | _ => rfl

end Elements

namespace Method

/-- A method that a document can hold. -/
structure WellFormed (m : Method) : Prop where
  name : m.name ≠ ""
  nodes : ∀ node ∈ m.nodes, node.WellFormed
  /-- The names of labels are not empty, and none looks generated. -/
  plain : ∀ name ∈ m.labels, PlainName name
  numbered : m.Numbered

theorem wellFormed_iff (m : Method) :
    m.WellFormed ↔
      m.name ≠ "" ∧ (∀ node ∈ m.nodes, node.WellFormed) ∧ (∀ name ∈ m.labels, PlainName name) ∧ m.Numbered :=
  ⟨fun ⟨name, nodes, plain, numbered⟩ => ⟨name, nodes, plain, numbered⟩,
    fun ⟨name, nodes, plain, numbered⟩ => ⟨name, nodes, plain, numbered⟩⟩

instance (m : Method) : Decidable m.WellFormed := decidable_of_iff _ m.wellFormed_iff.symm

end Method

/-- A body with named labels that a document can hold. -/
structure Body.WellFormed (body : Body String) : Prop where
  name : body.name ≠ ""
  nodes : ∀ node ∈ body.nodes, node.WellFormed
  plain : ∀ name ∈ body.labels, PlainName name

/-- The names of a numbered method are those that its body mentions. -/
theorem Method.Numbered.wellFormed_iff {m : Method} (numbered : m.Numbered) :
    m.WellFormed ↔ m.named.WellFormed := by
  have names : ∀ name, name ∈ m.labels ↔ name ∈ m.named.labels := by
    intro name
    rw [← numbered.labels_named, List.mem_eraseDups]
  have nodes : (∀ node ∈ m.named.nodes, node.WellFormed) ↔ ∀ node ∈ m.nodes, node.WellFormed := by
    simp [Method.named, Body.relabel, Node.wellFormed_relabel]
  constructor
  · intro wellFormed
    exact ⟨wellFormed.name, nodes.mpr wellFormed.nodes,
      fun name member => wellFormed.plain name ((names name).mpr member)⟩
  · intro wellFormed
    exact ⟨wellFormed.name, nodes.mp wellFormed.nodes,
      fun name member => wellFormed.plain name ((names name).mp member), numbered⟩

/-! ### What is spelled is well-formed -/

theorem exists_of_forall₂ {α β : Type} {related : α → β → Prop} {values : List α} {found : List β}
    (pairs : List.Forall₂ related values found) {b : β} (member : b ∈ found) : ∃ a ∈ values, related a b := by
  induction pairs with
  | nil => cases member
  | cons first _ ih =>
    rcases List.mem_cons.mp member with rfl | later
    · exact ⟨_, List.mem_cons_self, first⟩
    · obtain ⟨a, there, pair⟩ := ih later
      exact ⟨a, List.mem_cons_of_mem _ there, pair⟩

theorem Document.SpellsSlots.plain {members : Members} {field : String} {slots : List (Slot String)}
    (spelled : SpellsSlots members field slots) : ∀ name ∈ slots.flatMap Slot.labels, PlainName name := by
  intro name mentioned
  obtain ⟨slot, member, inside⟩ := List.mem_flatMap.mp mentioned
  obtain ⟨value, -, spelled⟩ := exists_of_forall₂ spelled member
  cases slot with
  | uninitialized site =>
    obtain ⟨members, -, -, -, plain⟩ := spelled
    rw [List.mem_singleton.mp inside]
    exact plain
  | _ => cases inside

theorem Document.SpellsNode.wellFormed {members : Members} {node : Node String} (spelled : SpellsNode members node) :
    node.WellFormed := by
  cases node with
  | insn instruction =>
    obtain ⟨-, spelled⟩ := spelled
    cases instruction with
    | type op name => exact spelled.2.2
    | field op member =>
      obtain ⟨-, owner, name, descriptor⟩ := spelled
      exact ⟨owner.2, name.2, descriptor.2⟩
    | method op member onInterface =>
      obtain ⟨-, ⟨owner, name, descriptor⟩, -⟩ := spelled
      exact ⟨owner.2, name.2, descriptor.2⟩
    | invokeDynamic name descriptor bootstrap =>
      obtain ⟨name, descriptor, -⟩ := spelled
      exact ⟨name.2, descriptor.2⟩
    | tableSwitch low high fallback targets =>
      obtain ⟨-, -, -, -, fits⟩ := spelled
      exact fits
    | lookupSwitch fallback keys targets =>
      obtain ⟨-, -, -, counted⟩ := spelled
      exact counted
    | multiArray descriptor dimensions =>
      obtain ⟨descriptor, -, positive⟩ := spelled
      exact ⟨descriptor.2, positive⟩
    | _ => trivial
  | _ => trivial

theorem Document.SpellsNode.plain {members : Members} {node : Node String} (spelled : SpellsNode members node) :
    ∀ name ∈ node.labels, PlainName name := by
  cases node with
  | insn instruction =>
    obtain ⟨-, spelled⟩ := spelled
    cases instruction with
    | jump op target =>
      intro name member
      rw [List.mem_singleton.mp member]
      exact spelled.2.2
    | tableSwitch low high fallback targets =>
      obtain ⟨-, -, default, listed, -⟩ := spelled
      exact List.forall_mem_cons.mpr ⟨default.2, listed.2⟩
    | lookupSwitch fallback keys targets =>
      obtain ⟨default, listed, -, -⟩ := spelled
      exact List.forall_mem_cons.mpr ⟨default.2, listed.2⟩
    | _ => simp [Node.labels, Instruction.targets]
  | label here =>
    intro name member
    rw [List.mem_singleton.mp member]
    exact spelled.2.2
  | frame shape =>
    obtain ⟨-, -, locals, stack⟩ := spelled
    intro name member
    rw [Node.labels, List.flatMap_append, List.mem_append] at member
    rcases member with inLocals | onStack
    · exact locals.plain name inLocals
    · exact stack.plain name onStack
  | line mark =>
    intro name member
    rw [List.mem_singleton.mp member]
    exact spelled.2.2.2

theorem Document.SpellsRange.plain {members : Members} {range : ProtectedRange String}
    (spelled : SpellsRange members range) : ∀ name ∈ range.labels, PlainName name := by
  obtain ⟨start, stop, handler, -⟩ := spelled
  simp only [ProtectedRange.labels, List.mem_cons, List.not_mem_nil, or_false, forall_eq_or_imp, forall_eq]
  exact ⟨start.2, stop.2, handler.2⟩

theorem Document.SpellsBody.wellFormed {members : Members} {body : Body String} (spelled : SpellsBody members body) :
    body.WellFormed := by
  obtain ⟨values, -, nodes⟩ := spelled.nodes
  refine ⟨spelled.name.2, ?_, ?_⟩
  · intro node member
    obtain ⟨_, -, _, -, spelled⟩ := exists_of_forall₂ nodes member
    exact spelled.wellFormed
  · intro name mentioned
    rcases List.mem_append.mp mentioned with inStream | inRanges
    · obtain ⟨node, member, inside⟩ := List.mem_flatMap.mp inStream
      obtain ⟨_, -, _, -, spelled⟩ := exists_of_forall₂ nodes member
      exact spelled.plain name inside
    · obtain ⟨range, member, inside⟩ := List.mem_flatMap.mp inRanges
      obtain ⟨_, -, _, -, spelled⟩ := exists_of_forall₂ spelled.ranges member
      exact spelled.plain name inside

/-! ### Writing a document -/

def Slot.document : Slot String → Json
  | .basic type => .str type.name
  | .object name => .obj [("object", .str name)]
  | .uninitialized site => .obj [("uninitialized", .str site)]

/-- The fields of an instruction besides its kind. -/
def Instruction.fields : Instruction String → Members
  | .plain op => [("opcode", .str op.name)]
  | .int op operand => [("opcode", .str op.name), ("operand", .int operand.toInt)]
  | .var op index => [("opcode", .str op.name), ("var", .int index.toNat)]
  | .type op name => [("opcode", .str op.name), ("type", .str name)]
  | .field op member =>
    [("opcode", .str op.name), ("owner", .str member.owner), ("name", .str member.name),
      ("descriptor", .str member.descriptor)]
  | .method op member onInterface =>
    [("opcode", .str op.name), ("owner", .str member.owner), ("name", .str member.name),
      ("descriptor", .str member.descriptor), ("interface", .bool onInterface)]
  | .invokeDynamic name descriptor bootstrap =>
    [("name", .str name), ("descriptor", .str descriptor), ("bootstrap", .str bootstrap)]
  | .jump op target => [("opcode", .str op.name), ("target", .str target)]
  | .ldc text => [("constant", .str text)]
  | .iinc index amount => [("var", .int index.toNat), ("increment", .int amount.toInt)]
  | .tableSwitch low high fallback targets =>
    [("min", .int low.toInt), ("max", .int high.toInt), ("default", .str fallback),
      ("targets", .arr (targets.map .str))]
  | .lookupSwitch fallback keys targets =>
    [("default", .str fallback), ("keys", .arr (keys.map fun key => .int key.toInt)),
      ("targets", .arr (targets.map .str))]
  | .multiArray descriptor dimensions =>
    [("descriptor", .str descriptor), ("dimensions", .int dimensions.toNat)]

def Node.document : Node String → Members
  | .insn instruction => ("kind", .str instruction.form.name) :: instruction.fields
  | .label name => [("kind", .str "label"), ("name", .str name)]
  | .frame shape =>
    [("kind", .str "frame"), ("type", .str shape.kind.name), ("locals", .arr (shape.locals.map Slot.document)),
      ("stack", .arr (shape.stack.map Slot.document))]
  | .line mark => [("kind", .str "line"), ("line", .int mark.number.toNat), ("start", .str mark.start)]

def ProtectedRange.document (range : ProtectedRange String) : Members :=
  [("start", .str range.start), ("end", .str range.stop), ("handler", .str range.handler)] ++
    (range.caught.map fun name => ("type", Json.str name)).toList

def Body.document (body : Body String) : Members :=
  [("name", .str body.name), ("descriptor", .str body.descriptor),
    ("instructions", .arr (body.nodes.map fun node => .obj node.document)),
    ("try_catch_blocks", .arr (body.ranges.map fun range => .obj range.document))]

/-- A document that holds the method. -/
def Method.document (m : Method) : Members := m.named.document

/-! ### What is written spells -/

theorem Slot.spells_document {slot : Slot String} (plain : ∀ name ∈ slot.labels, PlainName name) :
    SpellsSlot slot.document slot := by
  cases slot with
  | basic type => rfl
  | object name => exact ⟨_, rfl, rfl⟩
  | uninitialized site => exact ⟨_, rfl, rfl, rfl, plain site (List.mem_singleton.mpr rfl)⟩

theorem Instruction.spells_document {instruction : Instruction String} (wellFormed : instruction.WellFormed)
    (plain : ∀ name ∈ instruction.targets, PlainName name) :
    SpellsNode (Node.insn instruction).document (.insn instruction) := by
  refine ⟨rfl, ?_⟩
  cases instruction with
  | plain op => rfl
  | int op operand => exact ⟨rfl, rfl⟩
  | var op index => exact ⟨rfl, rfl⟩
  | type op name => exact ⟨rfl, rfl, wellFormed⟩
  | field op member =>
    obtain ⟨owner, name, descriptor⟩ := wellFormed
    exact ⟨rfl, ⟨rfl, owner⟩, ⟨rfl, name⟩, ⟨rfl, descriptor⟩⟩
  | method op member onInterface =>
    obtain ⟨owner, name, descriptor⟩ := wellFormed
    exact ⟨rfl, ⟨⟨rfl, owner⟩, ⟨rfl, name⟩, ⟨rfl, descriptor⟩⟩, rfl⟩
  | invokeDynamic name descriptor bootstrap =>
    obtain ⟨named, described⟩ := wellFormed
    exact ⟨⟨rfl, named⟩, ⟨rfl, described⟩, rfl⟩
  | jump op target => exact ⟨rfl, rfl, plain target (List.mem_singleton.mpr rfl)⟩
  | ldc text => rfl
  | iinc index amount => exact ⟨rfl, rfl⟩
  | tableSwitch low high fallback targets =>
    obtain ⟨default, listed⟩ := List.forall_mem_cons.mp plain
    exact ⟨rfl, rfl, ⟨rfl, default⟩, ⟨rfl, listed⟩, wellFormed⟩
  | lookupSwitch fallback keys targets =>
    obtain ⟨default, listed⟩ := List.forall_mem_cons.mp plain
    exact ⟨⟨rfl, default⟩, ⟨rfl, listed⟩, ⟨_, rfl, by simp [Json.integer?]⟩, wellFormed⟩
  | multiArray descriptor dimensions =>
    obtain ⟨described, positive⟩ := wellFormed
    exact ⟨⟨rfl, described⟩, rfl, positive⟩

theorem Node.spells_document {node : Node String} (wellFormed : node.WellFormed)
    (plain : ∀ name ∈ node.labels, PlainName name) : SpellsNode node.document node := by
  cases node with
  | insn instruction => exact Instruction.spells_document wellFormed plain
  | label here => exact ⟨rfl, rfl, plain here (List.mem_singleton.mpr rfl)⟩
  | frame shape =>
    have slots : ∀ slots ⊆ shape.locals ++ shape.stack, List.Forall₂ SpellsSlot (slots.map Slot.document) slots := by
      intro slots inside
      refine List.forall₂_map_left_iff.mpr (List.forall₂_same.mpr fun slot member => ?_)
      exact Slot.spells_document fun name mentioned =>
        plain name (List.mem_flatMap.mpr ⟨slot, inside member, mentioned⟩)
    have kind : shape.kind.name ≠ "" := by cases shape.kind <;> decide
    exact ⟨rfl, ⟨rfl, kind⟩, slots _ (List.subset_append_left ..), slots _ (List.subset_append_right ..)⟩
  | line mark => exact ⟨rfl, rfl, rfl, plain mark.start (List.mem_singleton.mpr rfl)⟩

theorem ProtectedRange.spells_document {range : ProtectedRange String}
    (plain : ∀ name ∈ range.labels, PlainName name) : SpellsRange range.document range := by
  obtain ⟨start, stop, handler, caught⟩ := range
  simp only [ProtectedRange.labels, List.mem_cons, List.not_mem_nil, or_false, forall_eq_or_imp, forall_eq] at plain
  obtain ⟨atStart, atStop, atHandler⟩ := plain
  cases caught <;> exact ⟨⟨rfl, atStart⟩, ⟨rfl, atStop⟩, ⟨rfl, atHandler⟩, rfl⟩

theorem Body.WellFormed.spells_document {body : Body String} (wellFormed : body.WellFormed) :
    SpellsBody body.document body := by
  refine ⟨⟨rfl, wellFormed.name⟩, rfl, ⟨_, rfl, ?_⟩, ?_⟩
  · refine List.forall₂_map_left_iff.mpr (List.forall₂_same.mpr fun node member => ⟨_, rfl, ?_⟩)
    refine Node.spells_document (wellFormed.nodes node member) fun name mentioned => wellFormed.plain name ?_
    exact List.mem_append_left _ (List.mem_flatMap.mpr ⟨node, member, mentioned⟩)
  · change List.Forall₂ _ (body.ranges.map fun range => Json.obj range.document) _
    refine List.forall₂_map_left_iff.mpr (List.forall₂_same.mpr fun range member => ⟨_, rfl, ?_⟩)
    refine ProtectedRange.spells_document fun name mentioned => wellFormed.plain name ?_
    exact List.mem_append_right _ (List.mem_flatMap.mpr ⟨range, member, mentioned⟩)

/-! ### Documents without repeated keys -/

/-- No object inside the value has two members with one key. -/
inductive Json.DistinctKeys : Json → Prop where
  | scalar {value : Json} : value.items? = none → value.members? = none → DistinctKeys value
  | arr {items : List Json} : (∀ item ∈ items, DistinctKeys item) → DistinctKeys (.arr items)
  | obj {members : Members} : (members.map Prod.fst).Nodup → (∀ member ∈ members, DistinctKeys member.2) →
      DistinctKeys (.obj members)

namespace Json

@[simp]
theorem distinctKeys_str (text : String) : (Json.str text).DistinctKeys := .scalar rfl rfl

@[simp]
theorem distinctKeys_int (n : Int) : (Json.int n).DistinctKeys := .scalar rfl rfl

@[simp]
theorem distinctKeys_bool (b : Bool) : (Json.bool b).DistinctKeys := .scalar rfl rfl

@[simp]
theorem distinctKeys_arr_iff {items : List Json} :
    (Json.arr items).DistinctKeys ↔ ∀ item ∈ items, item.DistinctKeys := by
  constructor
  · intro distinct
    cases distinct with
    | scalar notArray _ => cases notArray
    | arr each => exact each
  · exact .arr

@[simp]
theorem distinctKeys_obj_iff {members : Members} :
    (Json.obj members).DistinctKeys ↔
      (members.map Prod.fst).Nodup ∧ ∀ member ∈ members, member.2.DistinctKeys := by
  constructor
  · intro distinct
    cases distinct with
    | scalar _ notObject => cases notObject
    | obj distinct each => exact ⟨distinct, each⟩
  · rintro ⟨distinct, each⟩
    exact .obj distinct each

end Json

theorem Slot.distinctKeys_document (slot : Slot String) : slot.document.DistinctKeys := by
  cases slot <;> simp [Slot.document]

theorem Node.distinctKeys_document (node : Node String) : (Json.obj node.document).DistinctKeys := by
  cases node with
  | insn instruction => cases instruction <;> simp [Node.document, Instruction.fields]
  | frame shape => simp [Node.document, Slot.distinctKeys_document]
  | label here => simp [Node.document]
  | line mark => simp [Node.document]

theorem ProtectedRange.distinctKeys_document (range : ProtectedRange String) :
    (Json.obj range.document).DistinctKeys := by
  obtain ⟨start, stop, handler, caught⟩ := range
  cases caught <;> simp [ProtectedRange.document]

theorem Body.distinctKeys_document (body : Body String) : (Json.obj body.document).DistinctKeys := by
  have nodes : ∀ item ∈ body.nodes.map fun node => Json.obj node.document, item.DistinctKeys := by
    intro item member
    obtain ⟨node, -, rfl⟩ := List.mem_map.mp member
    exact node.distinctKeys_document
  have ranges : ∀ item ∈ body.ranges.map fun range => Json.obj range.document, item.DistinctKeys := by
    intro item member
    obtain ⟨range, -, rfl⟩ := List.mem_map.mp member
    exact range.distinctKeys_document
  refine .obj (by simp [Body.document]) ?_
  simp only [Body.document, List.mem_cons, List.not_mem_nil, or_false, forall_eq_or_imp, forall_eq]
  exact ⟨Json.distinctKeys_str _, Json.distinctKeys_str _, .arr nodes, .arr ranges⟩

/-! ### Reading -/

namespace Method

/-- A document is read as a method exactly if it spells the method with its labels named, and the method has its labels
in the order of first mention. -/
theorem ofDocument_eq_ok_iff {members : Members} {m : Method} :
    ofDocument members = .ok m ↔ SpellsBody members m.named ∧ m.Numbered := by
  unfold ofDocument
  constructor
  · intro read
    cases found : Document.body members with
    | error fault =>
      rw [found] at read
      cases read
    | ok body =>
      rw [found] at read
      obtain rfl := Except.ok.inj read
      rw [Body.named_number]
      exact ⟨body_eq_ok_iff.mp found, Body.numbered_number body⟩
  · rintro ⟨spelled, numbered⟩
    rw [body_eq_ok_iff.mpr spelled]
    exact congrArg Except.ok numbered.number_named

/-- A well-formed method is read from the document that is written for it. -/
theorem WellFormed.ofDocument_document {m : Method} (wellFormed : m.WellFormed) : ofDocument m.document = .ok m := by
  have named := wellFormed.numbered.wellFormed_iff.mp wellFormed
  exact ofDocument_eq_ok_iff.mpr ⟨named.spells_document, wellFormed.numbered⟩

/-- The methods that are read are exactly the well-formed ones, each from a document in which no key repeats. Whatever
document a method is read from spells all of it: its texts, its names of labels and its numbers as they are. -/
theorem ofDocument_image (m : Method) :
    ((∃ members, (Json.obj members).DistinctKeys ∧ ofDocument members = .ok m) ↔ m.WellFormed) ∧
      ∀ members, ofDocument members = .ok m → m.WellFormed ∧ SpellsBody members m.named := by
  have sound : ∀ members, ofDocument members = .ok m → m.WellFormed ∧ SpellsBody members m.named := by
    intro members read
    obtain ⟨spelled, numbered⟩ := ofDocument_eq_ok_iff.mp read
    exact ⟨numbered.wellFormed_iff.mpr spelled.wellFormed, spelled⟩
  refine ⟨⟨?_, ?_⟩, sound⟩
  · rintro ⟨members, -, read⟩
    exact (sound members read).1
  · intro wellFormed
    exact ⟨m.document, m.named.distinctKeys_document, wellFormed.ofDocument_document⟩

/-- A method that dispatches on its argument, with a frame and a handler. -/
def dispatch : Method where
  name := "dispatch"
  descriptor := "(I)V"
  nodes := [
    .label ⟨0⟩,
    .line { number := 70000, start := ⟨0⟩ },
    .insn (.var .iload 300),
    .insn (.tableSwitch (-1) 0 ⟨1⟩ [⟨2⟩, ⟨0⟩]),
    .label ⟨2⟩,
    .frame { kind := .full, locals := [.basic .int], stack := [.uninitialized ⟨2⟩] },
    .insn (.type .newObject "A"),
    .label ⟨1⟩,
    .insn (.plain .returnVoid)]
  ranges := [{ start := ⟨0⟩, stop := ⟨2⟩, handler := ⟨1⟩, caught := none }]
  labels := ["start", "other", "low"]

/-- A document for it, in an order of its own and with members that nobody reads. -/
def dispatchSource : Members := [
  ("access", .int 9),
  ("try_catch_blocks", .arr [.obj [("handler", .str "other"), ("start", .str "start"), ("end", .str "low")]]),
  ("instructions", .arr [
    .obj [("name", .str "start"), ("kind", .str "label")],
    .obj [("kind", .str "line"), ("start", .str "start"), ("line", .int 70000)],
    .obj [("kind", .str "var"), ("opcode", .str "ILOAD"), ("var", .int 300)],
    .obj [("kind", .str "tableswitch"), ("targets", .arr [.str "low", .str "start"]), ("default", .str "other"),
      ("min", .int (-1)), ("max", .int 0)],
    .obj [("kind", .str "label"), ("name", .str "low")],
    .obj [("kind", .str "frame"), ("type", .str "full"), ("locals", .arr [.str "int"]),
      ("stack", .arr [.obj [("uninitialized", .str "low")]])],
    .obj [("kind", .str "type"), ("opcode", .str "NEW"), ("type", .str "A")],
    .obj [("kind", .str "label"), ("name", .str "other")],
    .obj [("kind", .str "insn"), ("opcode", .str "RETURN")]]),
  ("descriptor", .str "(I)V"),
  ("name", .str "dispatch")]

theorem ofDocument_image_dispatch :
    (dispatch.WellFormed ∧ ∃ members, (Json.obj members).DistinctKeys ∧ ofDocument members = .ok dispatch) ∧
      ofDocument dispatchSource = .ok dispatch ∧ SpellsBody dispatchSource dispatch.named := by
  have wellFormed : dispatch.WellFormed := by decide
  have read : ofDocument dispatchSource = .ok dispatch := by decide +kernel
  exact ⟨⟨wellFormed, (ofDocument_image dispatch).1.mpr wellFormed⟩, read, ((ofDocument_image dispatch).2 _ read).2⟩

end Method

end ProbePoints
