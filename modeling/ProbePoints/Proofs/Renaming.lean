import Mathlib.Logic.Equiv.Basic
import ProbePoints.Proofs.Numbering
import ProbePoints.Proofs.Spelling

/-!
# Other names for labels

Label names carry no meaning of their own. A `Renaming` gives the labels of a document other names, and changes nothing
but the fields that refer to labels. The renamed document is read as the same method with renamed labels, or refused for
the same reason.
-/

namespace ProbePoints

open Document (PlainName)
open Json (Members)

/-! ### Changing documents -/

namespace Json

def mapText (f : String → String) : Json → Json
  | .str text => .str (f text)
  | value => value

def mapItems (f : Json → Json) : Json → Json
  | .arr items => .arr (items.map f)
  | value => value

def mapMembers (f : Members → Members) : Json → Json
  | .obj members => .obj (f members)
  | value => value

namespace Members

/-- An object with the values of some fields changed. -/
def mapAt (fields : List String) (f : Json → Json) (members : Members) : Members :=
  members.map fun (key, value) => (key, if key ∈ fields then f value else value)

theorem get?_mapAt (members : Members) (fields : List String) (f : Json → Json) (key : String) :
    (members.mapAt fields f).get? key = if key ∈ fields then (members.get? key).map f else members.get? key := by
  unfold get? mapAt
  induction members with
  | nil => simp
  | cons first rest ih =>
    obtain ⟨field, value⟩ := first
    rw [List.map_cons, List.lookup_cons, List.lookup_cons]
    by_cases same : key = field
    · subst same
      by_cases changed : key ∈ fields <;> simp [changed]
    · have miss : (key == field) = false := beq_false_of_ne same
      simpa [miss] using ih

end Members

end Json

/-- Other names for labels. Names that documents may use go to such names, and no two go to the same. All other texts
stay. -/
structure Renaming where
  rename : String → String
  injective : Function.Injective rename
  plain : ∀ name, PlainName name → PlainName (rename name)
  fixed : ∀ name, ¬PlainName name → rename name = name

namespace Renaming

/-- Two names change places. -/
def swap (a b : String) (first : PlainName a) (second : PlainName b) : Renaming where
  rename := Equiv.swap a b
  injective := (Equiv.swap a b).injective
  plain name plain := by
    rw [Equiv.swap_apply_def]
    split
    · exact second
    split
    · exact first
    · exact plain
  fixed name other := by
    apply Equiv.swap_apply_of_ne_of_ne
    · rintro rfl
      exact other first
    · rintro rfl
      exact other second

variable (ρ : Renaming)

-- The parts of a document, each with the fields renamed that refer to labels.

def name : Json → Json := Json.mapText ρ.rename

def slot : Json → Json := Json.mapMembers (Members.mapAt ["uninitialized"] ρ.name)

/-- A node, by the name of its kind. -/
def nodeOfKind (members : Members) : String → Members
  | "jump" => members.mapAt ["target"] ρ.name
  | "label" => members.mapAt ["name"] ρ.name
  | "line" => members.mapAt ["start"] ρ.name
  | "tableswitch" | "lookupswitch" =>
    (members.mapAt ["default"] ρ.name).mapAt ["targets"] (Json.mapItems ρ.name)
  | "frame" => members.mapAt ["locals", "stack"] (Json.mapItems ρ.slot)
  | _ => members

def node (members : Members) : Members := ρ.nodeOfKind members ((members.str? "kind").getD "")

def protectedRange (members : Members) : Members := members.mapAt ["start", "end", "handler"] ρ.name

def method (members : Members) : Members :=
  (members.mapAt ["instructions"] (Json.mapItems (Json.mapMembers ρ.node))).mapAt ["try_catch_blocks"]
    (Json.mapItems (Json.mapMembers ρ.protectedRange))

end Renaming

/-! ### Readers and fields that stay -/

namespace Document

section Kept

variable {members : Members} {fields : List String} {f : Json → Json} {field : String}

theorem str?_mapAt (other : field ∉ fields) : (members.mapAt fields f).str? field = members.str? field := by
  rw [Members.str?, Members.get?_mapAt, if_neg other, Members.str?]

theorem integer?_mapAt (other : field ∉ fields) : (members.mapAt fields f).integer? field = members.integer? field := by
  rw [Members.integer?, Members.get?_mapAt, if_neg other, Members.integer?]

theorem items?_mapAt (other : field ∉ fields) : (members.mapAt fields f).items? field = members.items? field := by
  rw [Members.items?, Members.get?_mapAt, if_neg other, Members.items?]

theorem text_mapAt (other : field ∉ fields) : text (members.mapAt fields f) field = text members field := by
  rw [text, str?_mapAt other, text]

theorem integer_mapAt (other : field ∉ fields) (low high : Int) :
    integer (members.mapAt fields f) field low high = integer members field low high := by
  rw [integer, integer?_mapAt other, integer]

theorem label_mapAt (other : field ∉ fields) : label (members.mapAt fields f) field = label members field := by
  rw [label, text_mapAt other, label]

theorem labels_mapAt (other : field ∉ fields) : labels (members.mapAt fields f) field = labels members field := by
  rw [labels, items?_mapAt other, labels]

theorem opcode_mapAt (other : "opcode" ∉ fields) : opcode (members.mapAt fields f) = opcode members := by
  rw [opcode, text_mapAt other, opcode]

end Kept

/-! ### Readers and renamed fields -/

section Except

variable {ε α β γ δ : Type}

theorem bind_of_map {x : Except ε α} {y : Except ε β} {f : α → β} {k : α → Except ε γ} {l : β → Except ε δ} {g : γ → δ}
    (first : y = f <$> x) (next : ∀ a, l (f a) = g <$> k a) : y >>= l = g <$> (x >>= k) := by
  subst first
  cases x with
  | error fault => rfl
  | ok a => exact next a

theorem mapM_of_map {f : α → Except ε γ} {l : β → Except ε δ} {change : α → β} {g : γ → δ}
    (each : ∀ a, l (change a) = g <$> f a) (items : List α) :
    (items.map change).mapM l = List.map g <$> items.mapM f := by
  induction items with
  | nil => rfl
  | cons a rest ih =>
    rw [List.map_cons, List.mapM_cons, List.mapM_cons]
    refine bind_of_map (each a) fun c => ?_
    exact bind_of_map ih fun cs => rfl

end Except

theorem both_map {α β γ δ : Type} (f : α → γ) (g : β → δ) (first : Read α) (second : Read β) :
    both (f <$> first) (g <$> second) = Prod.map f g <$> both first second := by
  cases first <;> cases second <;> rfl

variable (ρ : Renaming)

theorem plainLabel_renamed (name : String) : plainLabel (ρ.rename name) = ρ.rename <$> plainLabel name := by
  by_cases plain : PlainName name
  · have first := plainLabel_eq_ok_iff.mpr ⟨rfl, plain.2⟩
    have second := plainLabel_eq_ok_iff.mpr ⟨rfl, (ρ.plain name plain).2⟩
    rw [first, second]
    rfl
  · rw [ρ.fixed name plain]
    cases read : plainLabel name with
    | error faults => rfl
    | ok found =>
      obtain ⟨rfl, -⟩ := plainLabel_eq_ok_iff.mp read
      exact congrArg Except.ok (ρ.fixed name plain).symm

theorem isEmpty_renamed (name : String) : (ρ.rename name).isEmpty = name.isEmpty := by
  by_cases plain : PlainName name
  · have first : name.isEmpty = false := by simpa [Bool.eq_false_iff] using plain.1
    have second : (ρ.rename name).isEmpty = false := by simpa [Bool.eq_false_iff] using (ρ.plain name plain).1
    rw [first, second]
  · rw [ρ.fixed name plain]

theorem label_renamed {members : Members} {fields : List String} {field : String} (here : field ∈ fields) :
    label (members.mapAt fields ρ.name) field = ρ.rename <$> label members field := by
  have read : text (members.mapAt fields ρ.name) field = ρ.rename <$> text members field := by
    unfold text Members.str?
    rw [Members.get?_mapAt, if_pos here]
    cases members.get? field with
    | none => rfl
    | some value =>
      cases value with
      | str name =>
        change (if (ρ.rename name).isEmpty then refuse (.invalidField field) else .ok (ρ.rename name)) =
          ρ.rename <$> if name.isEmpty then refuse (.invalidField field) else .ok name
        rw [isEmpty_renamed]
        split <;> rfl
      | _ => rfl
  exact bind_of_map read fun name => plainLabel_renamed ρ name

theorem labelEntry_renamed (field : String) (entry : Json) :
    labelEntry field (ρ.name entry) = ρ.rename <$> labelEntry field entry := by
  cases entry with
  | str name =>
    change (if (ρ.rename name).isEmpty then refuse (.labelEntries field) else plainLabel (ρ.rename name)) =
      ρ.rename <$> if name.isEmpty then refuse (.labelEntries field) else plainLabel name
    rw [isEmpty_renamed, plainLabel_renamed]
    split <;> rfl
  | _ => rfl

theorem items?_mapItems {members : Members} {fields : List String} {f : Json → Json} {field : String}
    (here : field ∈ fields) :
    (members.mapAt fields (Json.mapItems f)).items? field = (members.items? field).map (List.map f) := by
  unfold Members.items?
  rw [Members.get?_mapAt, if_pos here]
  cases members.get? field with
  | none => rfl
  | some value => cases value <;> rfl

theorem labels_renamed {members : Members} {fields : List String} {field : String} (here : field ∈ fields) :
    labels (members.mapAt fields (Json.mapItems ρ.name)) field = List.map ρ.rename <$> labels members field := by
  unfold labels
  rw [items?_mapItems here]
  cases members.items? field with
  | none => rfl
  | some entries => exact mapM_of_map (labelEntry_renamed ρ field) entries

end Document

/-! ### Elements -/

section Relabel

variable {α β : Type} (f : α → β)

def Frame.relabel (shape : Frame α) : Frame β where
  kind := shape.kind
  locals := shape.locals.map (Slot.relabel f)
  stack := shape.stack.map (Slot.relabel f)

def LineMark.relabel (mark : LineMark α) : LineMark β := { number := mark.number, start := f mark.start }

def Instruction.relabel (instruction : Instruction α) : Instruction β :=
  (instruction.relabelM (m := Id) fun label => pure (f label)).run

end Relabel

namespace Document

variable (ρ : Renaming)

theorem slotObject_renamed (members : Members) :
    slotObject (members.mapAt ["uninitialized"] ρ.name) = Slot.relabel ρ.rename <$> slotObject members := by
  unfold slotObject
  rw [str?_mapAt (by decide), Members.get?_mapAt, if_pos (by decide)]
  cases members.str? "object" with
  | some name => rfl
  | none =>
    cases members.get? "uninitialized" with
    | none => rfl
    | some site => exact bind_of_map (label_renamed ρ (by decide)) fun name => rfl

theorem slot_renamed (value : Json) : slot (ρ.slot value) = Slot.relabel ρ.rename <$> slot value := by
  cases value with
  | str name =>
    simp only [Renaming.slot, Json.mapMembers, slot]
    cases BasicType.ofName? name <;> rfl
  | obj members => exact slotObject_renamed ρ members
  | _ => rfl

theorem slots_renamed {members : Members} {fields : List String} {field : String} (here : field ∈ fields) :
    slots (members.mapAt fields (Json.mapItems ρ.slot)) field =
      List.map (Slot.relabel ρ.rename) <$> slots members field := by
  unfold slots
  rw [items?_mapItems here]
  cases members.items? field with
  | none => rfl
  | some entries => exact mapM_of_map (slot_renamed ρ) entries

theorem frame_renamed (members : Members) :
    frame (members.mapAt ["locals", "stack"] (Json.mapItems ρ.slot)) = Frame.relabel ρ.rename <$> frame members := by
  unfold frame
  refine bind_of_map ((text_mapAt (by decide)).trans (id_map _).symm) fun name => ?_
  dsimp only [id]
  cases FrameKind.ofName? name with
  | none => rfl
  | some kind =>
    refine bind_of_map (slots_renamed ρ (by decide)) fun locals => ?_
    exact bind_of_map (slots_renamed ρ (by decide)) fun stack => rfl

theorem lineMark_renamed (members : Members) :
    lineMark (members.mapAt ["start"] ρ.name) = LineMark.relabel ρ.rename <$> lineMark members := by
  unfold lineMark uint32
  rw [integer_mapAt (by decide)]
  refine bind_of_map (id_map _).symm fun number => ?_
  exact bind_of_map (label_renamed ρ (by decide)) fun start => rfl

theorem tableSwitch_renamed (members : Members) :
    tableSwitch ((members.mapAt ["default"] ρ.name).mapAt ["targets"] (Json.mapItems ρ.name)) =
      Instruction.relabel ρ.rename <$> tableSwitch members := by
  unfold tableSwitch
  simp (disch := decide) only [int32, integer_mapAt]
  refine bind_of_map (id_map _).symm fun ⟨low, high⟩ => ?_
  dsimp only [id]
  split
  · rfl
  refine bind_of_map ((label_mapAt (by decide)).trans (label_renamed ρ (by decide))) fun fallback => ?_
  refine bind_of_map ((labels_renamed ρ (by decide)).trans (by rw [labels_mapAt (by decide)])) fun targets => ?_
  rw [List.length_map]
  split
  · rfl
  · simp [Instruction.relabel, Instruction.relabelM]

theorem lookupSwitch_renamed (members : Members) :
    lookupSwitch ((members.mapAt ["default"] ρ.name).mapAt ["targets"] (Json.mapItems ρ.name)) =
      Instruction.relabel ρ.rename <$> lookupSwitch members := by
  unfold lookupSwitch
  refine bind_of_map ((label_mapAt (by decide)).trans (label_renamed ρ (by decide))) fun fallback => ?_
  refine bind_of_map ((labels_renamed ρ (by decide)).trans (by rw [labels_mapAt (by decide)])) fun targets => ?_
  simp (disch := decide) only [switchKeys, items?_mapAt]
  refine bind_of_map (id_map _).symm fun keys => ?_
  dsimp only [id]
  rw [List.length_map]
  split
  · rfl
  · simp [Instruction.relabel, Instruction.relabelM]

theorem protectedRange_renamed (members : Members) :
    protectedRange (ρ.protectedRange members) = ProtectedRange.relabel ρ.rename <$> protectedRange members := by
  unfold protectedRange Renaming.protectedRange
  simp (disch := decide) only [label_renamed, str?_mapAt, both_map]
  exact bind_of_map rfl fun ⟨⟨start, stop⟩, handler⟩ => rfl

/-- An instruction that mentions no label stays as it is. -/
theorem eq_map_relabel {read : Read (Instruction String)}
    (stays : ∀ instruction, read = .ok instruction → instruction.relabel ρ.rename = instruction) :
    read = Instruction.relabel ρ.rename <$> read := by
  cases read with
  | error faults => rfl
  | ok instruction => exact congrArg Except.ok (stays instruction rfl).symm

theorem nodeOfKind_renamed (members : Members) (kind : String) :
    nodeOfKind (ρ.nodeOfKind members kind) kind = Node.relabel ρ.rename <$> nodeOfKind members kind := by
  have same {α : Type} (read : Read α) : read = id <$> read := (id_map read).symm
  -- Jumps, labels, switches, frames and line marks have fields that change. The other kinds are read as before, and
  -- what they are read as mentions no label.
  induction kind using kindCases with
  | insn => exact bind_of_map (same _) fun op => rfl
  | int => exact bind_of_map (same _) fun op => bind_of_map (same _) fun operand => rfl
  | var => exact bind_of_map (same _) fun op => bind_of_map (same _) fun index => rfl
  | type => exact bind_of_map (same _) fun op => bind_of_map (same _) fun name => rfl
  | field => exact bind_of_map (same _) fun op => bind_of_map (same _) fun member => rfl
  | method =>
    refine bind_of_map (eq_map_relabel ρ fun instruction read => ?_) fun instruction => rfl
    obtain ⟨op, member, onInterface, rfl, -⟩ := call_eq_ok_iff.mp read
    rfl
  | invokeDynamic =>
    refine bind_of_map (eq_map_relabel ρ fun instruction read => ?_) fun instruction => rfl
    obtain ⟨name, descriptor, bootstrap, rfl, -⟩ := dynamicCall_eq_ok_iff.mp read
    rfl
  | jump =>
    refine bind_of_map ((opcode_mapAt (by decide)).trans (same _)) fun op => ?_
    exact bind_of_map (label_renamed ρ (by decide)) fun target => rfl
  | label => exact bind_of_map (label_renamed ρ (by decide)) fun here => rfl
  | ldc =>
    refine bind_of_map (eq_map_relabel ρ fun instruction read => ?_) fun instruction => rfl
    obtain ⟨text, rfl, -⟩ := constant_eq_ok_iff.mp read
    rfl
  | iinc => exact bind_of_map (same _) fun index => bind_of_map (same _) fun amount => rfl
  | tableSwitch => exact bind_of_map (tableSwitch_renamed ρ members) fun instruction => rfl
  | lookupSwitch => exact bind_of_map (lookupSwitch_renamed ρ members) fun instruction => rfl
  | multiArray =>
    refine bind_of_map (eq_map_relabel ρ fun instruction read => ?_) fun instruction => rfl
    obtain ⟨descriptor, dimensions, rfl, -⟩ := multiArray_eq_ok_iff.mp read
    rfl
  | frame => exact bind_of_map (frame_renamed ρ members) fun shape =>
      congrArg Except.ok (Node.relabel_frame ρ.rename shape).symm
  | line => exact bind_of_map (lineMark_renamed ρ members) fun mark => rfl
  | unknown kind unknown =>
    rw [nodeOfKind_of_not_mem unknown, nodeOfKind_of_not_mem unknown]
    rfl

theorem text_kind_renamed (members : Members) : text (ρ.node members) "kind" = text members "kind" := by
  unfold Renaming.node
  fun_cases Renaming.nodeOfKind ρ members ((members.str? "kind").getD "") <;>
    simp (disch := decide) only [text_mapAt]

theorem node_renamed (members : Members) : node (ρ.node members) = Node.relabel ρ.rename <$> node members := by
  unfold node
  rw [text_kind_renamed]
  cases named : text members "kind" with
  | error faults => rfl
  | ok kind =>
    have read : ρ.node members = ρ.nodeOfKind members kind := by
      rw [Renaming.node, (text_eq_ok_iff.mp named).1, Option.getD_some]
    rw [read]
    exact nodeOfKind_renamed ρ members kind

/-! ### Methods -/

section Elements

variable {α : Type} {read : Members → Read α} {change : Members → Members} {f : α → α}

theorem element_renamed (each : ∀ members, read (change members) = f <$> read members) (method : String)
    (place : Place) (value : Json) :
    element method place read (Json.mapMembers change value) = f <$> element method place read value := by
  cases value with
  | obj members =>
    change (read (change members)).mapError _ = f <$> (read members).mapError _
    rw [each]
    cases read members <;> rfl
  | _ => rfl

theorem elements_renamed (each : ∀ members, read (change members) = f <$> read members) (method : String)
    (place : Nat → Place) (values : List Json) :
    elements method place read (values.map (Json.mapMembers change)) =
      List.map f <$> elements method place read values := by
  unfold elements
  rw [List.zipIdx_map]
  exact mapM_of_map (fun (value, index) => element_renamed each method (place index) value) _

end Elements

/-- The renamed document of a method is read as the method with renamed labels, or refused with the same fault. -/
theorem body_renamed (members : Members) : body (ρ.method members) = Body.relabel ρ.rename <$> body members := by
  have name : text (ρ.method members) "name" = text members "name" := by
    simp (disch := decide) only [Renaming.method, text_mapAt]
  have descriptor : (ρ.method members).str? "descriptor" = members.str? "descriptor" := by
    simp (disch := decide) only [Renaming.method, str?_mapAt]
  have instructions : (ρ.method members).items? "instructions" =
      (members.items? "instructions").map (List.map (Json.mapMembers ρ.node)) := by
    rw [Renaming.method, items?_mapAt (by decide), items?_mapItems (by decide)]
  have ranges : (ρ.method members).items? "try_catch_blocks" =
      (members.items? "try_catch_blocks").map (List.map (Json.mapMembers ρ.protectedRange)) := by
    rw [Renaming.method, items?_mapItems (by decide), items?_mapAt (by decide)]
  unfold body
  rw [name, descriptor, instructions, ranges]
  refine bind_of_map (id_map _).symm fun name => ?_
  cases members.items? "instructions" with
  | none => rfl
  | some values =>
    refine bind_of_map (elements_renamed (node_renamed ρ) name .instruction values) fun nodes => ?_
    refine bind_of_map ?_ fun ranges => rfl
    rw [← elements_renamed (protectedRange_renamed ρ) name .range]
    cases members.items? "try_catch_blocks" <;> rfl

end Document

/-! ### Numbers do not depend on names -/

section Compose

variable {α β γ : Type} (f : α → β) (g : β → γ)

theorem Slot.relabel_relabel (slot : Slot α) : (slot.relabel f).relabel g = slot.relabel (g ∘ f) := by
  cases slot <;> rfl

theorem Node.relabel_relabel (node : Node α) : (node.relabel f).relabel g = node.relabel (g ∘ f) := by
  cases node with
  | insn instruction =>
    cases instruction with
    | tableSwitch low high fallback targets => simp
    | lookupSwitch fallback keys targets => simp
    | _ => rfl
  | label here => rfl
  | frame shape =>
    have slots : Slot.relabel g ∘ Slot.relabel f = Slot.relabel (g ∘ f) := funext (Slot.relabel_relabel f g)
    simp [slots]
  | line mark => rfl

theorem Body.relabel_relabel (body : Body α) : (body.relabel f).relabel g = body.relabel (g ∘ f) := by
  have nodes : Node.relabel g ∘ Node.relabel f = Node.relabel (g ∘ f) := funext (Node.relabel_relabel f g)
  have ranges : ProtectedRange.relabel g ∘ ProtectedRange.relabel f = ProtectedRange.relabel (g ∘ f) := rfl
  simp only [Body.relabel, List.map_map, nodes, ranges]

end Compose

theorem labelIn_map {rename : String → String} (injective : Function.Injective rename) (table : List String) :
    labelIn (table.map rename) ∘ rename = labelIn table := by
  funext name
  refine congrArg Label.mk ?_
  induction table with
  | nil => rfl
  | cons first rest ih =>
    rw [List.map_cons, List.idxOf_cons, List.idxOf_cons, ih]
    have same : (rename first == rename name) = (first == name) := by
      rw [Bool.eq_iff_iff, beq_iff_eq, beq_iff_eq, injective.eq_iff]
    rw [same]

/-- Names that are told apart as before get the same numbers. -/
theorem Body.number_relabel {rename : String → String} (injective : Function.Injective rename) (body : Body String) :
    (body.relabel rename).number = { body.number with labels := body.number.labels.map rename } := by
  have names : (body.relabel rename).labels.eraseDups = body.labels.eraseDups.map rename := by
    rw [Body.labels_relabel]
    exact eraseDups_map fun a _ b _ same => injective same
  rw [Body.number_eq, Body.number_eq, names, Body.relabel_relabel, labelIn_map injective]

namespace Method

theorem ofDocument_method (ρ : Renaming) (members : Members) :
    ofDocument (ρ.method members) =
      (ofDocument members).map fun m => { m with labels := m.labels.map ρ.rename } := by
  unfold ofDocument
  rw [Document.body_renamed]
  cases Document.body members with
  | error fault => rfl
  | ok body => exact congrArg Except.ok (Body.number_relabel ρ.injective body)

/-- Label names are opaque. A document with other label names is accepted if the document itself is, and refused with
the same fault otherwise. The two methods differ in the names of their labels only. -/
theorem label_names_opaque (ρ : Renaming) (members : Members) :
    ((∃ other, ofDocument (ρ.method members) = .ok other) ↔ ∃ m, ofDocument members = .ok m) ∧
      (∀ fault, ofDocument (ρ.method members) = .error fault ↔ ofDocument members = .error fault) ∧
      ∀ m other, ofDocument members = .ok m → ofDocument (ρ.method members) = .ok other →
        other.name = m.name ∧ other.descriptor = m.descriptor ∧ other.nodes = m.nodes ∧ other.ranges = m.ranges ∧
          other.labels = m.labels.map ρ.rename := by
  rw [ofDocument_method]
  cases ofDocument members with
  | error fault => simp [Except.map]
  | ok found =>
    refine ⟨by simp [Except.map], by simp [Except.map], ?_⟩
    intro m other first second
    obtain rfl := Except.ok.inj first
    obtain rfl := Except.ok.inj second
    exact ⟨rfl, rfl, rfl, rfl, rfl⟩

/-- A method whose name and types are also names of its labels. -/
def loop : Method where
  name := "loop"
  descriptor := ""
  nodes := [
    .label ⟨0⟩,
    .insn (.type .newObject "exit"),
    .frame { kind := .full, locals := [.object "loop"], stack := [.uninitialized ⟨0⟩] },
    .insn (.jump .ifnull ⟨1⟩),
    .insn (.lookupSwitch ⟨1⟩ [7] [⟨0⟩]),
    .label ⟨1⟩,
    .line { number := 3, start := ⟨1⟩ },
    .insn (.plain .returnVoid)]
  ranges := [{ start := ⟨0⟩, stop := ⟨1⟩, handler := ⟨1⟩, caught := some "loop" }]
  labels := ["loop", "exit"]

/-- A document for it. -/
def loopSource : Members := [
  ("name", .str "loop"),
  ("instructions", .arr [
    .obj [("kind", .str "label"), ("name", .str "loop")],
    .obj [("kind", .str "type"), ("opcode", .str "NEW"), ("type", .str "exit")],
    .obj [("kind", .str "frame"), ("type", .str "full"), ("locals", .arr [.obj [("object", .str "loop")]]),
      ("stack", .arr [.obj [("uninitialized", .str "loop")]])],
    .obj [("kind", .str "jump"), ("opcode", .str "IFNULL"), ("target", .str "exit")],
    .obj [("kind", .str "lookupswitch"), ("default", .str "exit"), ("keys", .arr [.int 7]),
      ("targets", .arr [.str "loop"])],
    .obj [("kind", .str "label"), ("name", .str "exit")],
    .obj [("kind", .str "line"), ("line", .int 3), ("start", .str "exit")],
    .obj [("kind", .str "insn"), ("opcode", .str "RETURN")]]),
  ("try_catch_blocks", .arr [
    .obj [("start", .str "loop"), ("end", .str "exit"), ("handler", .str "exit"), ("type", .str "loop")]])]

theorem label_names_opaque_loop :
    ofDocument loopSource = .ok loop ∧
      ∃ plainLoop plainExit other,
        ofDocument ((Renaming.swap "loop" "exit" plainLoop plainExit).method loopSource) = .ok other ∧
          other.name = "loop" ∧ other.nodes = loop.nodes ∧ other.ranges = loop.ranges ∧
          other.labels = ["exit", "loop"] := by
  have read : ofDocument loopSource = .ok loop := by decide +kernel
  have plainLoop : PlainName "loop" := ⟨by decide, by decide⟩
  have plainExit : PlainName "exit" := ⟨by decide, by decide⟩
  have swapped : ["loop", "exit"].map (Equiv.swap "loop" "exit") = ["exit", "loop"] := by decide
  obtain ⟨accepted, -, same⟩ := label_names_opaque (.swap "loop" "exit" plainLoop plainExit) loopSource
  obtain ⟨other, readOther⟩ := accepted.mpr ⟨loop, read⟩
  obtain ⟨name, -, nodes, ranges, labels⟩ := same loop other read readOther
  exact ⟨read, plainLoop, plainExit, other, readOther, name, nodes, ranges, labels.trans swapped⟩

end Method

end ProbePoints
