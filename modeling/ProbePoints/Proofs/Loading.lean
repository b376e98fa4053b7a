import ProbePoints.Document.Class
import ProbePoints.Proofs.Numbering

/-!
# Labels numbered while reading

The readers of documents keep label names, and a method is numbered once all of it is read. A loader numbers labels
as it meets them: it looks a name up in the table of the names so far, asks no more about it if it is there, and leaves
in the table what a failing element has put into it. `Load.method_eq` shows that loading and reading agree. What carries
this is that no reserved name ever gets into the table, so that no element is treated differently for what stands
before it.
-/

namespace ProbePoints.Document

open Json (Members)

/-- Reading with the table of the label names so far. A failure does not undo what was added to the table. -/
abbrev Load (ε : Type) := ExceptT ε (StateM (List String))

namespace Load

variable {ε ι α β γ δ : Type}

/-! ### Loaders -/

/-- Reads a part that has no labels. -/
def lift (read : Except ε α) : Load ε α := ExceptT.mk (pure read)

/-- The label with a name. Only a new name is looked at. -/
def resolve (name : String) : Load (List ElementFault) Label := do
  if name ∉ (← get) then
    discard (lift (plainLabel name))
  intern name

/-- Both outcomes, or the faults of both. The second part is loaded even if the first one fails. -/
def both (first : Load (List ElementFault) α) (second : Load (List ElementFault) β) :
    Load (List ElementFault) (α × β) := ExceptT.mk do
  let a ← first.run
  let b ← second.run
  return Document.both a b

def label (members : Members) (field : String) : Load (List ElementFault) Label := do
  resolve (← lift (text members field))

def labelEntry (field : String) (entry : Json) : Load (List ElementFault) Label :=
  match entry.str? with
  | some name => if name.isEmpty then lift (refuse (.labelEntries field)) else resolve name
  | none => lift (refuse (.labelEntries field))

def labels (members : Members) (field : String) : Load (List ElementFault) (List Label) :=
  match members.items? field with
  | some entries => entries.mapM (labelEntry field)
  | none => lift (refuse (.invalidField field))

def tableSwitch (members : Members) : Load (List ElementFault) (Instruction Label) := do
  let (low, high) ← lift (Document.both (int32 members "min") (int32 members "max"))
  if high < low then
    lift (refuse (.emptyTable low high))
  let fallback ← label members "default"
  let targets ← labels members "targets"
  if (targets.length : Int) ≠ high - low + 1 then
    lift (refuse (.tableSize low high targets.length))
  return .tableSwitch (Int32.ofInt low) (Int32.ofInt high) fallback targets

def lookupSwitch (members : Members) : Load (List ElementFault) (Instruction Label) := do
  let fallback ← label members "default"
  let targets ← labels members "targets"
  let keys ← lift (switchKeys members)
  if keys.length ≠ targets.length then
    lift (refuse (.keyCount keys.length targets.length))
  return .lookupSwitch fallback keys targets

def slotObject (members : Members) : Load (List ElementFault) (Slot Label) :=
  match members.str? "object" with
  | some name => pure (.object name)
  | none =>
    match members.get? "uninitialized" with
    | some _ => return .uninitialized (← label members "uninitialized")
    | none => lift (refuse .slotField)

def slot : Json → Load (List ElementFault) (Slot Label)
  | .str name =>
    match BasicType.ofName? name with
    | some type => pure (.basic type)
    | none => lift (refuse (.unknownType name))
  | .obj members => slotObject members
  | _ => lift (refuse .slotShape)

def slots (members : Members) (field : String) : Load (List ElementFault) (List (Slot Label)) :=
  ((members.items? field).getD []).mapM slot

def frame (members : Members) : Load (List ElementFault) (Frame Label) := do
  let name ← lift (text members "type")
  match FrameKind.ofName? name with
  | none => lift (refuse (.unknownFrame name))
  | some kind =>
    let locals ← slots members "locals"
    let stack ← slots members "stack"
    return { kind, locals, stack }

def call (members : Members) : Load (List ElementFault) (Instruction Label) := do
  let op ← lift (opcode members)
  let callee ← lift (member members)
  return .method op callee ((members.bool? "interface").getD (op = .invokeinterface))

def dynamicCall (members : Members) : Load (List ElementFault) (Instruction Label) := do
  let (name, descriptor) ← lift (Document.both (text members "name") (text members "descriptor"))
  return .invokeDynamic name descriptor ((members.str? "bootstrap").getD "")

def constant (members : Members) : Load (List ElementFault) (Instruction Label) :=
  match members.get? "constant" with
  | some value => pure (.ldc (constantText value))
  | none => lift (refuse .missingConstant)

def multiArray (members : Members) : Load (List ElementFault) (Instruction Label) := do
  let descriptor ← lift (text members "descriptor")
  let dimensions ← lift (integer members "dimensions" 1 255)
  return .multiArray descriptor (UInt8.ofNat dimensions.toNat)

def lineMark (members : Members) : Load (List ElementFault) (LineMark Label) := do
  let number ← lift (uint32 members "line")
  let start ← label members "start"
  return { number, start }

def nodeOfKind (members : Members) : String → Load (List ElementFault) (Node Label)
  | "insn" => return .insn (.plain (← lift (opcode members)))
  | "int" => do
    let op ← lift (opcode members)
    return .insn (.int op (Int32.ofInt (← lift (int32 members "operand"))))
  | "var" => do
    let op ← lift (opcode members)
    return .insn (.var op (← lift (uint16 members "var")))
  | "type" => do
    let op ← lift (opcode members)
    return .insn (.type op (← lift (text members "type")))
  | "field" => do
    let op ← lift (opcode members)
    return .insn (.field op (← lift (member members)))
  | "method" => return .insn (← call members)
  | "invokedynamic" => return .insn (← dynamicCall members)
  | "jump" => do
    let op ← lift (opcode members)
    return .insn (.jump op (← label members "target"))
  | "label" => return .label (← label members "name")
  | "ldc" => return .insn (← constant members)
  | "iinc" => do
    let index ← lift (uint16 members "var")
    return .insn (.iinc index (← lift (int16 members "increment")))
  | "tableswitch" => return .insn (← tableSwitch members)
  | "lookupswitch" => return .insn (← lookupSwitch members)
  | "multianewarray" => return .insn (← multiArray members)
  | "frame" => return .frame (← frame members)
  | "line" => return .line (← lineMark members)
  | kind => lift (refuse (.unknownKind kind))

def node (members : Members) : Load (List ElementFault) (Node Label) := do
  nodeOfKind members (← lift (text members "kind"))

def protectedRange (members : Members) : Load (List ElementFault) (ProtectedRange Label) := do
  let ((start, stop), handler) ←
    both (both (label members "start") (label members "end")) (label members "handler")
  return { start, stop, handler, caught := members.str? "type" }

def element (method : String) (place : Place) (load : Members → Load (List ElementFault) α) (value : Json) :
    Load Fault α :=
  match value.members? with
  | none => lift (.error (.elementShape method place))
  | some members => ExceptT.adapt (.element method place) (load members)

def elements (method : String) (place : Nat → Place) (load : Members → Load (List ElementFault) α)
    (values : List Json) : Load Fault (List α) :=
  values.zipIdx.mapM fun (value, index) => element method (place index) load value

def body (members : Members) : Load Fault (Body Label) := do
  let name ← lift ((text members "name").mapError fun _ => .noName)
  let descriptor := (members.str? "descriptor").getD ""
  match members.items? "instructions" with
  | none => lift (.error (.noInstructions name))
  | some instructions =>
    let nodes ← elements name .instruction node instructions
    let ranges ← elements name .range protectedRange ((members.items? "try_catch_blocks").getD [])
    return { name, descriptor, nodes, ranges }

/-- Loads a method, with no label known at its start. -/
def method (members : Members) : Except Fault Method :=
  let (outcome, labels) := (body members).run.run []
  outcome.map fun body => { toBody := body, labels }

/-! ### Loading and reading -/

/-- No name in a table is reserved. -/
def Unreserved (names : List String) : Prop := ∀ name ∈ names, name.toList.head? ≠ some Label.generatedMark

/-- How loading ends, by how reading ends: with the same fault, or with the value that numbering from `start` on makes
of what was read. -/
inductive Ends (number : α → StateM (List String) β) (start later : List String) : Except ε α → Except ε β → Prop where
  | ok {a : α} {b : β} (numbered : (number a).run start = (b, later)) : Ends number start later (.ok a) (.ok b)
  | error {fault : ε} : Ends number start later (.error fault) (.error fault)

/-- The rest of a loader ends as the rest of a reader does. Loading began with the table `start` and has come to
`names`. -/
def Follows (start names : List String) (load : Load ε β) (read : Except ε α)
    (number : α → StateM (List String) β) : Prop :=
  Unreserved names → ∃ outcome later,
    load.run.run names = (outcome, later) ∧ Unreserved later ∧ Ends number start later read outcome

/-- A loader does what a reader does and a numbering after it, whatever names came before. -/
def Agrees (load : Load ε β) (read : Except ε α) (number : α → StateM (List String) β) : Prop :=
  ∀ names, Follows names names load read number

theorem run_bind_of_run {act : StateM (List String) α} {next : α → StateM (List String) β} {names later : List String}
    {a : α} (first : act.run names = (a, later)) : (act >>= next).run names = (next a).run later := by
  rw [StateT.run_bind, first]
  rfl

theorem run_bind_ok {load : Load ε α} {next : α → Load ε β} {names later : List String} {a : α}
    (first : load.run.run names = (.ok a, later)) : (load >>= next).run.run names = (next a).run.run later := by
  rw [ExceptT.run_bind, StateT.run_bind, first]
  rfl

theorem run_bind_error {load : Load ε α} {next : α → Load ε β} {names later : List String} {fault : ε}
    (first : load.run.run names = (.error fault, later)) :
    (load >>= next).run.run names = (.error fault, later) := by
  rw [ExceptT.run_bind, StateT.run_bind, first]
  rfl

theorem run_both {first : Load (List ElementFault) α} {second : Load (List ElementFault) β}
    {names middle later : List String} {a : Read α} {b : Read β} (left : first.run.run names = (a, middle))
    (right : second.run.run middle = (b, later)) :
    (both first second).run.run names = (Document.both a b, later) := by
  rw [both, ExceptT.run_mk, run_bind_of_run left, run_bind_of_run right]
  rfl

namespace Follows

variable {start names : List String} {number : γ → StateM (List String) δ}

theorem done {c : γ} {d : δ} (numbered : (number c).run start = (d, names)) :
    Follows start names (pure d : Load ε δ) (pure c) number :=
  fun unreserved => ⟨.ok d, names, rfl, unreserved, .ok numbered⟩

theorem refused (fault : ε) : Follows start names (lift (.error fault)) (.error fault) number :=
  fun unreserved => ⟨.error fault, names, rfl, unreserved, .error⟩

/-- A part without labels leaves the table alone. -/
theorem after {read : Except ε α} {next : α → Load ε δ} {rest : α → Except ε γ}
    (second : ∀ a, Follows start names (next a) (rest a) number) :
    Follows start names (lift read >>= next) (read >>= rest) number := by
  cases read with
  | ok a => exact second a
  | error fault => exact refused fault

/-- A check that does not look at labels. What comes after it stands in both branches. -/
theorem guarded {c : Prop} [Decidable c] {fault : ε} {next : Unit → Load ε δ} {rest : Unit → Except ε γ}
    (second : Follows start names (next ()) (rest ()) number) :
    Follows start names (if c then lift (.error fault) >>= next else next ())
      (if c then .error fault >>= rest else rest ()) number := by
  by_cases refuses : c
  · rw [if_pos refuses, if_pos refuses]
    exact refused fault
  · rw [if_neg refuses, if_neg refuses]
    exact second

theorem bind {load : Load ε β} {read : Except ε α} {part : α → StateM (List String) β} {next : β → Load ε δ}
    {rest : α → Except ε γ} (first : Agrees load read part)
    (second : ∀ a b later, (part a).run names = (b, later) → Follows start later (next b) (rest a) number) :
    Follows start names (load >>= next) (read >>= rest) number := by
  intro unreserved
  obtain ⟨outcome, later, run, kept, ends⟩ := first names unreserved
  cases ends with
  | error => exact ⟨_, later, run_bind_error run, kept, .error⟩
  | @ok a b numbered =>
    rw [run_bind_ok run]
    exact second a b later numbered kept

end Follows

namespace Agrees

theorem map {load : Load ε β} {read : Except ε α} {part : α → StateM (List String) β} {f : α → γ} {g : β → δ}
    {number : γ → StateM (List String) δ} (first : Agrees load read part)
    (same : ∀ a, number (f a) = part a >>= fun b => pure (g b)) :
    Agrees (load >>= fun b => pure (g b)) (read >>= fun a => pure (f a)) number := by
  intro names
  refine .bind first fun a b later numbered => .done ?_
  rw [same, run_bind_of_run numbered]
  rfl

theorem mapM {load : ι → Load ε β} {read : ι → Except ε α} {number : α → StateM (List String) β}
    (each : ∀ item, Agrees (load item) (read item) number) (items : List ι) :
    Agrees (items.mapM load) (items.mapM read) (List.mapM number) := by
  induction items with
  | nil =>
    intro names
    rw [List.mapM_nil, List.mapM_nil]
    exact .done rfl
  | cons item items ih =>
    intro names
    rw [List.mapM_cons, List.mapM_cons]
    refine .bind (each item) fun a b middle first => .bind ih fun as bs later second => .done ?_
    rw [List.mapM_cons, run_bind_of_run first, run_bind_of_run second]
    rfl

/-- A fault in the first part does not keep the second one from its labels. -/
theorem both {first : Load (List ElementFault) β} {second : Load (List ElementFault) δ} {read : Read α} {rest : Read γ}
    {part : α → StateM (List String) β} {number : γ → StateM (List String) δ}
    (left : Agrees first read part) (right : Agrees second rest number) :
    Agrees (Load.both first second) (Document.both read rest) fun (a, c) => do return (← part a, ← number c) := by
  intro names unreserved
  obtain ⟨outcome, middle, run, kept, ends⟩ := left names unreserved
  obtain ⟨outcome', last, run', kept', ends'⟩ := right middle kept
  refine ⟨Document.both outcome outcome', last, run_both run run', kept', ?_⟩
  cases ends with
  | error => cases ends' <;> exact .error
  | @ok a b numbered =>
    cases ends' with
    | error => exact .error
    | @ok c d numbered' =>
      refine .ok ?_
      rw [run_bind_of_run numbered, run_bind_of_run numbered']
      rfl

theorem adapt {load : Load ε β} {read : Except ε α} {number : α → StateM (List String) β} (f : ε → ι)
    (agrees : Agrees load read number) : Agrees (ExceptT.adapt f load) (read.mapError f) number := by
  intro names unreserved
  obtain ⟨outcome, later, run, kept, ends⟩ := agrees names unreserved
  refine ⟨outcome.mapError f, later, ?_, kept, ?_⟩
  · rw [ExceptT.run_adapt, StateT.run_map, run]
    rfl
  · cases ends with
    | error => exact .error
    | ok numbered => exact .ok numbered

end Agrees

/-! ### Labels -/

theorem run_intern {name : String} {names later : List String} {label : Label}
    (run : (intern name).run names = (label, later)) :
    (intern name : Load (List ElementFault) Label).run.run names = (.ok label, later) := by
  change (Except.ok <$> intern name).run names = _
  rw [StateT.run_map, run]
  rfl

theorem run_resolve (name : String) (names : List String) :
    (resolve name).run.run names =
      if name ∈ names then (.ok (labelIn names name), names)
      else if name.toList.head? = some Label.generatedMark then (.error [.reservedLabel name], names)
      else (.ok ⟨names.length⟩, names ++ [name]) := by
  have look : (get : Load (List ElementFault) (List String)).run.run names = (.ok names, names) := rfl
  unfold resolve
  rw [run_bind_ok look]
  by_cases known : name ∈ names
  · rw [if_pos known, if_neg (not_not.mpr known)]
    exact run_intern (run_intern_of_mem known)
  · rw [if_neg known, if_pos known]
    by_cases reserved : name.toList.head? = some Label.generatedMark
    · rw [if_pos reserved, plainLabel, if_pos reserved]
      rfl
    · rw [if_neg reserved, plainLabel, if_neg reserved]
      exact run_intern (run_intern_of_not_mem known)

/-- A name that is known is not reserved: looking at it again would not refuse it. -/
theorem agrees_resolve (name : String) : Agrees (resolve name) (plainLabel name) intern := by
  intro names unreserved
  rw [run_resolve, plainLabel]
  by_cases reserved : name.toList.head? = some Label.generatedMark
  · have unknown : name ∉ names := fun known => unreserved name known reserved
    rw [if_neg unknown, if_pos reserved, if_pos reserved]
    exact ⟨_, _, rfl, unreserved, .error⟩
  · rw [if_neg reserved, if_neg reserved]
    by_cases known : name ∈ names
    · rw [if_pos known]
      exact ⟨_, _, rfl, unreserved, .ok (run_intern_of_mem known)⟩
    · rw [if_neg known]
      refine ⟨_, _, rfl, ?_, .ok (run_intern_of_not_mem known)⟩
      intro other member
      rcases List.mem_append.mp member with earlier | new
      · exact unreserved other earlier
      · rw [List.mem_singleton.mp new]
        exact reserved

theorem agrees_label (members : Members) (field : String) :
    Agrees (label members field) (Document.label members field) intern :=
  fun names => .after fun name => agrees_resolve name names

theorem agrees_labelEntry (field : String) (entry : Json) :
    Agrees (labelEntry field entry) (Document.labelEntry field entry) intern := by
  intro names
  unfold labelEntry Document.labelEntry
  cases entry.str? with
  | none => exact .refused _
  | some name =>
    by_cases empty : name.isEmpty
    · simp only [empty]
      exact .refused _
    · simp only [empty]
      exact agrees_resolve name names

theorem agrees_labels (members : Members) (field : String) :
    Agrees (labels members field) (Document.labels members field) (List.mapM intern) := by
  unfold labels Document.labels
  cases members.items? field with
  | none => exact fun names => .refused _
  | some entries => exact .mapM (agrees_labelEntry field) entries

/-! ### Elements -/

theorem length_of_run_mapM_intern {targets names later : List String} {labels : List Label}
    (run : (targets.mapM intern).run names = (labels, later)) : labels.length = targets.length := by
  obtain rfl : ((targets.mapM intern).run names).1 = labels := by rw [run]
  clear run
  induction targets generalizing names with
  | nil => rfl
  | cons target targets ih =>
    rw [List.mapM_cons, StateT.run_bind]
    exact congrArg (· + 1) ih

theorem agrees_tableSwitch (members : Members) :
    Agrees (tableSwitch members) (Document.tableSwitch members) (Instruction.relabelM intern) := by
  intro names
  refine .after ?_
  rintro ⟨low, high⟩
  refine .guarded ?_
  refine .bind (agrees_label members "default") fun fallback label middle first => ?_
  refine .bind (agrees_labels members "targets") fun targets labels later second => ?_
  rw [length_of_run_mapM_intern second]
  exact .guarded (.done ((run_bind_of_run first).trans (run_bind_of_run second)))

theorem agrees_lookupSwitch (members : Members) :
    Agrees (lookupSwitch members) (Document.lookupSwitch members) (Instruction.relabelM intern) := by
  intro names
  refine .bind (agrees_label members "default") fun fallback label middle first => ?_
  refine .bind (agrees_labels members "targets") fun targets labels later second => ?_
  refine .after fun keys => ?_
  rw [length_of_run_mapM_intern second]
  exact .guarded (.done ((run_bind_of_run first).trans (run_bind_of_run second)))

theorem agrees_slotObject (members : Members) :
    Agrees (slotObject members) (Document.slotObject members) (Slot.relabelM intern) := by
  unfold slotObject Document.slotObject
  cases members.str? "object" with
  | some name => exact fun names => .done rfl
  | none =>
    cases members.get? "uninitialized" with
    | some _ => exact (agrees_label members "uninitialized").map fun _ => rfl
    | none => exact fun names => .refused _

theorem agrees_slot (entry : Json) : Agrees (slot entry) (Document.slot entry) (Slot.relabelM intern) := by
  unfold slot Document.slot
  cases entry with
  | str name =>
    change Agrees (match BasicType.ofName? name with | some type => _ | none => _)
      (match BasicType.ofName? name with | some type => _ | none => _) _
    cases BasicType.ofName? name with
    | none => exact fun names => .refused _
    | some type => exact fun names => .done rfl
  | obj members => exact agrees_slotObject members
  | _ => exact fun names => .refused _

theorem agrees_slots (members : Members) (field : String) :
    Agrees (slots members field) (Document.slots members field) (List.mapM (Slot.relabelM intern)) :=
  .mapM agrees_slot _

theorem agrees_frame (members : Members) :
    Agrees (frame members) (Document.frame members) (Frame.relabelM intern) := by
  intro names
  refine .after fun name => ?_
  cases FrameKind.ofName? name with
  | none => exact .refused _
  | some kind =>
    refine .bind (agrees_slots members "locals") fun locals locals' middle first => ?_
    refine .bind (agrees_slots members "stack") fun stack stack' later second => ?_
    exact .done ((run_bind_of_run first).trans (run_bind_of_run second))

theorem agrees_constant (members : Members) :
    Agrees (constant members) (Document.constant members) (Instruction.relabelM intern) := by
  unfold constant Document.constant
  cases members.get? "constant" with
  | none => exact fun names => .refused _
  | some value => exact fun names => .done rfl

theorem nodeOfKind_of_not_mem {kind : String} (unknown : kind ∉ nodeKinds) (members : Members) :
    nodeOfKind members kind = lift (refuse (.unknownKind kind)) := by
  rw [nodeOfKind]
  all_goals
    rintro rfl
    exact absurd (by decide) unknown

theorem agrees_nodeOfKind (members : Members) (kind : String) :
    Agrees (nodeOfKind members kind) (Document.nodeOfKind members kind) (Node.relabelM intern) := by
  induction kind using kindCases with
  | insn => exact fun names => .after fun op => .done rfl
  | int => exact fun names => .after fun op => .after fun operand => .done rfl
  | var => exact fun names => .after fun op => .after fun index => .done rfl
  | type => exact fun names => .after fun op => .after fun name => .done rfl
  | field => exact fun names => .after fun op => .after fun name => .done rfl
  | method =>
    have agrees : Agrees (call members) (Document.call members) (Instruction.relabelM intern) :=
      fun names => .after fun op => .after fun callee => .done rfl
    exact agrees.map fun _ => rfl
  | invokeDynamic =>
    have agrees : Agrees (dynamicCall members) (Document.dynamicCall members) (Instruction.relabelM intern) :=
      fun names => .after fun (name, descriptor) => .done rfl
    exact agrees.map fun _ => rfl
  | jump => exact fun names => .after fun op => (agrees_label members "target").map (fun _ => rfl) names
  | label => exact (agrees_label members "name").map fun _ => rfl
  | ldc => exact (agrees_constant members).map fun _ => rfl
  | iinc => exact fun names => .after fun index => .after fun amount => .done rfl
  | tableSwitch => exact (agrees_tableSwitch members).map fun _ => rfl
  | lookupSwitch => exact (agrees_lookupSwitch members).map fun _ => rfl
  | multiArray =>
    have agrees : Agrees (multiArray members) (Document.multiArray members) (Instruction.relabelM intern) :=
      fun names => .after fun descriptor => .after fun dimensions => .done rfl
    exact agrees.map fun _ => rfl
  | frame => exact (agrees_frame members).map fun _ => rfl
  | line =>
    have agrees : Agrees (lineMark members) (Document.lineMark members) (LineMark.relabelM intern) :=
      fun names => .after fun number => (agrees_label members "start").map (fun _ => rfl) names
    exact agrees.map fun _ => rfl
  | unknown kind unknown =>
    rw [nodeOfKind_of_not_mem unknown, Document.nodeOfKind_of_not_mem unknown]
    exact fun names => .refused _

theorem agrees_node (members : Members) : Agrees (node members) (Document.node members) (Node.relabelM intern) :=
  fun names => .after fun kind => agrees_nodeOfKind members kind names

theorem agrees_protectedRange (members : Members) :
    Agrees (protectedRange members) (Document.protectedRange members) (ProtectedRange.relabelM intern) := by
  have labels := ((agrees_label members "start").both (agrees_label members "end")).both
    (agrees_label members "handler")
  exact labels.map fun ((start, stop), handler) => rfl

/-! ### Methods -/

theorem agrees_element {load : Members → Load (List ElementFault) β} {read : Members → Read α}
    {number : α → StateM (List String) β} (each : ∀ members, Agrees (load members) (read members) number)
    (method : String) (place : Place) (value : Json) :
    Agrees (element method place load value) (Document.element method place read value) number := by
  unfold element Document.element
  cases value.members? with
  | none => exact fun names => .refused _
  | some members => exact (each members).adapt _

theorem agrees_elements {load : Members → Load (List ElementFault) β} {read : Members → Read α}
    {number : α → StateM (List String) β} (each : ∀ members, Agrees (load members) (read members) number)
    (method : String) (place : Nat → Place) (values : List Json) :
    Agrees (elements method place load values) (Document.elements method place read values) (List.mapM number) :=
  .mapM (fun (value, index) => agrees_element each method (place index) value) _

theorem agrees_body (members : Members) : Agrees (body members) (Document.body members) (Body.relabelM intern) := by
  intro names
  refine .after fun name => ?_
  cases members.items? "instructions" with
  | none => exact .refused _
  | some instructions =>
    refine .bind (agrees_elements agrees_node name .instruction instructions) fun nodes nodes' middle first => ?_
    refine .bind (agrees_elements agrees_protectedRange name .range _) fun ranges ranges' later second => ?_
    exact .done ((run_bind_of_run first).trans (run_bind_of_run second))

/-- Loading a method gives what reading it and numbering its labels afterwards gives. -/
theorem method_eq (members : Members) : method members = Method.ofDocument members := by
  obtain ⟨outcome, labels, run, -, ends⟩ := agrees_body members [] (by simp [Unreserved])
  unfold method Method.ofDocument
  rw [run]
  generalize Document.body members = read at ends ⊢
  cases ends with
  | error => rfl
  | ok numbered => simp only [Except.map, Body.number, numbered]

end Load

end ProbePoints.Document
