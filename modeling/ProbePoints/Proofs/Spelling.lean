import Mathlib.Data.List.Forall2
import ProbePoints.Document.Class
import ProbePoints.Proofs.Scan

/-!
# What documents spell

The format of documents without the readers: `SpellsNode`, `SpellsRange` and `SpellsBody` say which objects stand for a
node, a range and a body with named labels. Each reader accepts exactly the objects that spell a value, and then gives
this value (`node_eq_ok_iff`, `protectedRange_eq_ok_iff`, `body_eq_ok_iff`).
-/

namespace ProbePoints

/-! ### Names -/

theorem Opcode.ofName?_eq_some_iff {name : String} {op : Opcode} : ofName? name = some op ↔ name = op.name := by
  have own : ∀ op ∈ all, ofName? op.name = some op := by decide +kernel
  constructor
  · intro found
    have same := List.find?_some found
    exact (beq_iff_eq.mp same).symm
  · rintro rfl
    exact own op op.mem_all

theorem Opcode.name_ne_empty (op : Opcode) : op.name ≠ "" := by
  have named : ∀ op ∈ all, op.name ≠ "" := by decide +kernel
  exact named op op.mem_all

theorem BasicType.ofName?_eq_some_iff {name : String} {type : BasicType} :
    ofName? name = some type ↔ name = type.name := by
  constructor
  · intro found
    have same := List.find?_some found
    exact (beq_iff_eq.mp same).symm
  · rintro rfl
    cases type <;> decide

theorem FrameKind.ofName?_eq_some_iff {name : String} {kind : FrameKind} :
    ofName? name = some kind ↔ name = kind.name := by
  constructor
  · intro found
    have same := List.find?_some found
    exact (beq_iff_eq.mp same).symm
  · rintro rfl
    cases kind <;> decide

namespace Document

open Json (Members)

/-! ### Readers in sequence -/

theorem bind_eq_ok_iff {ε α β : Type} {x : Except ε α} {f : α → Except ε β} {b : β} :
    x >>= f = .ok b ↔ ∃ a, x = .ok a ∧ f a = .ok b := by
  constructor
  · exact bind_ok
  · rintro ⟨a, rfl, rest⟩
    exact rest

theorem bind_pure_eq_ok_iff {ε α β : Type} {x : Except ε α} {f : α → β} {b : β} :
    (x >>= fun a => pure (f a)) = .ok b ↔ ∃ a, x = .ok a ∧ f a = b := by
  rw [bind_eq_ok_iff]
  simp only [pure, Except.pure, Except.ok.injEq]

theorem mapM_eq_ok_iff {ε α β : Type} {f : α → Except ε β} {items : List α} {results : List β} :
    items.mapM f = .ok results ↔ List.Forall₂ (fun a b => f a = .ok b) items results := by
  induction items generalizing results with
  | nil =>
    rw [List.mapM_nil, List.forall₂_nil_left_iff]
    constructor
    · intro read
      exact (Except.ok.inj read).symm
    · rintro rfl
      rfl
  | cons a rest ih =>
    rw [List.mapM_cons, bind_eq_ok_iff, List.forall₂_cons_left_iff]
    constructor
    · rintro ⟨b, first, later⟩
      obtain ⟨bs, read, same⟩ := bind_ok later
      exact ⟨b, bs, first, ih.mp read, (Except.ok.inj same).symm⟩
    · rintro ⟨b, bs, first, read, rfl⟩
      exact ⟨b, first, bind_eq_ok_iff.mpr ⟨bs, ih.mpr read, rfl⟩⟩

theorem refuse_bind {α β : Type} (fault : ElementFault) (f : α → Read β) : refuse fault >>= f = refuse fault := rfl

theorem refuse_or_eq_ok_iff {α : Type} {c : Prop} [Decidable c] {fault : ElementFault} {read : Read α} {a : α} :
    (if c then refuse fault else read) = .ok a ↔ ¬c ∧ read = .ok a := by
  by_cases refused : c
  · simp [refused, refuse]
  · simp [refused]

theorem both_eq_ok_iff {α β : Type} {first : Read α} {second : Read β} {a : α} {b : β} :
    both first second = .ok (a, b) ↔ first = .ok a ∧ second = .ok b := by
  cases first <;> cases second <;> simp [both]

/-! ### Fields -/

/-- A label name that documents may use. -/
def PlainName (name : String) : Prop := name ≠ "" ∧ name.toList.head? ≠ some Label.generatedMark

instance (name : String) : Decidable (PlainName name) := inferInstanceAs (Decidable (_ ∧ _))

def HasText (members : Members) (field value : String) : Prop := members.str? field = some value ∧ value ≠ ""

def HasLabel (members : Members) (field name : String) : Prop := members.str? field = some name ∧ PlainName name

def HasLabels (members : Members) (field : String) (names : List String) : Prop :=
  members.items? field = some (names.map .str) ∧ ∀ name ∈ names, PlainName name

theorem text_eq_ok_iff {members : Members} {field value : String} :
    text members field = .ok value ↔ HasText members field value := by
  unfold text HasText
  cases members.str? field with
  | none => simp [refuse]
  | some found =>
    simp only [refuse_or_eq_ok_iff, String.isEmpty_iff, Except.ok.injEq, Option.some.injEq]
    constructor
    · rintro ⟨notEmpty, rfl⟩
      exact ⟨rfl, notEmpty⟩
    · rintro ⟨rfl, notEmpty⟩
      exact ⟨notEmpty, rfl⟩

theorem integer_eq_ok_iff {members : Members} {field : String} {low high value : Int} :
    integer members field low high = .ok value ↔
      members.integer? field = some value ∧ low ≤ value ∧ value ≤ high := by
  unfold integer
  cases members.integer? field with
  | none => simp [refuse]
  | some found =>
    simp only [refuse_or_eq_ok_iff, Except.ok.injEq, Option.some.injEq]
    constructor
    · rintro ⟨inside, rfl⟩
      exact ⟨rfl, by omega, by omega⟩
    · rintro ⟨rfl, above, below⟩
      exact ⟨by omega, rfl⟩

theorem int32_eq_ok_iff {members : Members} {field : String} {value : Int} :
    int32 members field = .ok value ↔ members.integer? field = some value ∧ ∃ x : Int32, x.toInt = value := by
  unfold int32
  rw [integer_eq_ok_iff, minInt32, maxInt32]
  constructor
  · rintro ⟨found, above, below⟩
    exact ⟨found, Int32.ofInt value, Int32.toInt_ofInt_of_le (by omega) (by omega)⟩
  · rintro ⟨found, x, rfl⟩
    have above := x.le_toInt
    have below := x.toInt_lt
    exact ⟨found, by omega, by omega⟩

/-- Within the bounds the narrower type holds every integer, so that nothing is cut off. -/
theorem integer_bind_eq_ok_iff {α : Type} {members : Members} {field : String} {low high : Int} {make : Int → α}
    {v : α → Int} {x : α} (kept : ∀ n, low ≤ n → n ≤ high → v (make n) = n)
    (back : ∀ x, low ≤ v x ∧ v x ≤ high ∧ make (v x) = x) :
    (integer members field low high >>= fun n => pure (make n)) = .ok x ↔ members.integer? field = some (v x) := by
  rw [bind_pure_eq_ok_iff]
  simp only [integer_eq_ok_iff]
  constructor
  · rintro ⟨n, ⟨found, above, below⟩, rfl⟩
    rw [kept n above below]
    exact found
  · intro found
    obtain ⟨above, below, same⟩ := back x
    exact ⟨v x, ⟨found, above, below⟩, same⟩

theorem uint16_eq_ok_iff {members : Members} {field : String} {x : UInt16} :
    uint16 members field = .ok x ↔ members.integer? field = some (x.toNat : Int) := by
  refine integer_bind_eq_ok_iff (v := fun x : UInt16 => (x.toNat : Int)) (fun n above below => ?_) (fun x => ?_)
  · rw [UInt16.toNat_ofNat_of_lt' (by simp [UInt16.size]; omega), Int.toNat_of_nonneg above]
  · have below := x.toNat_lt
    exact ⟨by omega, by omega, by simp⟩

theorem uint32_eq_ok_iff {members : Members} {field : String} {x : UInt32} :
    uint32 members field = .ok x ↔ members.integer? field = some (x.toNat : Int) := by
  refine integer_bind_eq_ok_iff (v := fun x : UInt32 => (x.toNat : Int)) (fun n above below => ?_) (fun x => ?_)
  · rw [UInt32.toNat_ofNat_of_lt' (by simp [UInt32.size]; omega), Int.toNat_of_nonneg above]
  · have below := x.toNat_lt
    exact ⟨by omega, by omega, by simp⟩

theorem int16_eq_ok_iff {members : Members} {field : String} {x : Int16} :
    int16 members field = .ok x ↔ members.integer? field = some x.toInt := by
  refine integer_bind_eq_ok_iff (fun n above below => ?_) (fun x => ?_)
  · exact Int16.toInt_ofInt_of_le (by omega) (by omega)
  · have above := x.le_toInt
    have below := x.toInt_lt
    exact ⟨by omega, by omega, Int16.ofInt_toInt x⟩

theorem plainLabel_eq_ok_iff {found name : String} :
    plainLabel found = .ok name ↔ found = name ∧ name.toList.head? ≠ some Label.generatedMark := by
  unfold plainLabel
  rw [refuse_or_eq_ok_iff, Except.ok.injEq]
  constructor
  · rintro ⟨plain, rfl⟩
    exact ⟨rfl, plain⟩
  · rintro ⟨rfl, plain⟩
    exact ⟨plain, rfl⟩

theorem label_eq_ok_iff {members : Members} {field name : String} :
    label members field = .ok name ↔ HasLabel members field name := by
  unfold label HasLabel PlainName
  rw [bind_eq_ok_iff]
  simp only [text_eq_ok_iff, HasText, plainLabel_eq_ok_iff]
  constructor
  · rintro ⟨found, ⟨present, notEmpty⟩, rfl, plain⟩
    exact ⟨present, notEmpty, plain⟩
  · rintro ⟨present, notEmpty, plain⟩
    exact ⟨name, ⟨present, notEmpty⟩, rfl, plain⟩

theorem labelEntry_eq_ok_iff {field name : String} {entry : Json} :
    labelEntry field entry = .ok name ↔ entry = .str name ∧ PlainName name := by
  unfold labelEntry PlainName
  cases entry with
  | str found =>
    simp only [Json.str?, refuse_or_eq_ok_iff, String.isEmpty_iff, plainLabel_eq_ok_iff, Json.str.injEq]
    constructor
    · rintro ⟨notEmpty, rfl, plain⟩
      exact ⟨rfl, notEmpty, plain⟩
    · rintro ⟨rfl, notEmpty, plain⟩
      exact ⟨notEmpty, rfl, plain⟩
  | _ => simp [Json.str?, refuse]

theorem labels_eq_ok_iff {members : Members} {field : String} {names : List String} :
    labels members field = .ok names ↔ HasLabels members field names := by
  have entries : ∀ values : List Json, values.mapM (labelEntry field) = .ok names ↔
      values = names.map .str ∧ ∀ name ∈ names, PlainName name := by
    intro values
    rw [mapM_eq_ok_iff]
    simp only [labelEntry_eq_ok_iff]
    induction values generalizing names with
    | nil => cases names <;> simp
    | cons value rest ih =>
      cases names with
      | nil => simp
      | cons name later =>
        rw [List.forall₂_cons, ih]
        simp only [List.map_cons, List.cons.injEq, List.forall_mem_cons]
        exact and_and_and_comm
  unfold labels HasLabels
  cases members.items? field with
  | none => simp [refuse]
  | some values => simp only [entries, Option.some.injEq]

theorem opcode_eq_ok_iff {members : Members} {op : Opcode} :
    opcode members = .ok op ↔ members.str? "opcode" = some op.name := by
  unfold opcode
  rw [bind_eq_ok_iff]
  simp only [text_eq_ok_iff, HasText]
  constructor
  · rintro ⟨mnemonic, ⟨present, -⟩, known⟩
    cases found : Opcode.ofName? mnemonic with
    | none => simp [found, refuse] at known
    | some other =>
      obtain rfl : other = op := by simpa [found] using known
      rw [present, Opcode.ofName?_eq_some_iff.mp found]
  · intro present
    refine ⟨op.name, ⟨present, op.name_ne_empty⟩, ?_⟩
    rw [Opcode.ofName?_eq_some_iff.mpr rfl]

/-- Opcodes come before their operands. -/
theorem opcode_bind_eq_ok_iff {α β : Type} {members : Members} {read : Read α} {make : Opcode → α → β} {found : β} :
    (opcode members >>= fun op => read >>= fun a => pure (make op a)) = .ok found ↔
      ∃ op a, members.str? "opcode" = some op.name ∧ read = .ok a ∧ make op a = found := by
  rw [bind_eq_ok_iff]
  simp only [opcode_eq_ok_iff, bind_pure_eq_ok_iff, exists_and_left]

def SpellsMember (members : Members) (found : Member) : Prop :=
  HasText members "owner" found.owner ∧ HasText members "name" found.name ∧
    HasText members "descriptor" found.descriptor

theorem member_eq_ok_iff {members : Members} {found : Member} :
    member members = .ok found ↔ SpellsMember members found := by
  unfold member SpellsMember
  rw [bind_eq_ok_iff]
  constructor
  · rintro ⟨⟨⟨owner, name⟩, descriptor⟩, read, same⟩
    obtain rfl := Except.ok.inj same
    obtain ⟨pair, last⟩ := both_eq_ok_iff.mp read
    obtain ⟨first, second⟩ := both_eq_ok_iff.mp pair
    exact ⟨text_eq_ok_iff.mp first, text_eq_ok_iff.mp second, text_eq_ok_iff.mp last⟩
  · rintro ⟨owner, name, descriptor⟩
    refine ⟨((found.owner, found.name), found.descriptor), both_eq_ok_iff.mpr ⟨?_, ?_⟩, rfl⟩
    · exact both_eq_ok_iff.mpr ⟨text_eq_ok_iff.mpr owner, text_eq_ok_iff.mpr name⟩
    · exact text_eq_ok_iff.mpr descriptor

/-! ### Switches -/

def HasKeys (members : Members) (keys : List Int32) : Prop :=
  ∃ entries, members.items? "keys" = some entries ∧ entries.map Json.integer? = keys.map fun key => some key.toInt

theorem switchKey_eq_ok_iff {entry : Json} {key : Int32} :
    switchKey entry = .ok key ↔ entry.integer? = some key.toInt := by
  unfold switchKey
  cases entry.integer? with
  | none => simp [refuse]
  | some value =>
    rw [refuse_or_eq_ok_iff, Except.ok.injEq, Option.some.injEq, minInt32, maxInt32]
    constructor
    · rintro ⟨inside, rfl⟩
      exact (Int32.toInt_ofInt_of_le (by omega) (by omega)).symm
    · rintro rfl
      have above := key.le_toInt
      have below := key.toInt_lt
      exact ⟨by omega, Int32.ofInt_toInt key⟩

theorem switchKeys_eq_ok_iff {members : Members} {keys : List Int32} :
    switchKeys members = .ok keys ↔ HasKeys members keys := by
  have entries : ∀ values : List Json, values.mapM switchKey = .ok keys ↔
      values.map Json.integer? = keys.map fun key => some key.toInt := by
    intro values
    rw [mapM_eq_ok_iff, ← List.forall₂_eq_eq_eq, List.forall₂_map_left_iff, List.forall₂_map_right_iff]
    simp only [switchKey_eq_ok_iff]
  unfold switchKeys HasKeys
  cases members.items? "keys" with
  | none => simp [refuse]
  | some values => simp [entries]

/-- The bounds of a table switch are in order, and there is one target for each key between them. -/
def TableFits {α : Type} (low high : Int32) (targets : List α) : Prop :=
  low.toInt ≤ high.toInt ∧ (targets.length : Int) = high.toInt - low.toInt + 1

theorem tableSwitch_eq_ok_iff {members : Members} {instruction : Instruction String} :
    tableSwitch members = .ok instruction ↔
      ∃ low high fallback targets, instruction = .tableSwitch low high fallback targets ∧
        members.integer? "min" = some low.toInt ∧ members.integer? "max" = some high.toInt ∧
        HasLabel members "default" fallback ∧ HasLabels members "targets" targets ∧ TableFits low high targets := by
  unfold tableSwitch TableFits
  rw [bind_eq_ok_iff]
  simp only [refuse_bind, refuse_or_eq_ok_iff, bind_eq_ok_iff, label_eq_ok_iff, labels_eq_ok_iff]
  constructor
  · rintro ⟨⟨least, greatest⟩, bounds, inOrder, fallback, default, targets, listed, counted, same⟩
    obtain ⟨first, last⟩ := both_eq_ok_iff.mp bounds
    obtain ⟨min, low, rfl⟩ := int32_eq_ok_iff.mp first
    obtain ⟨max, high, rfl⟩ := int32_eq_ok_iff.mp last
    refine ⟨low, high, fallback, targets, ?_, min, max, default, listed, by omega, by omega⟩
    rw [← Except.ok.inj same, Int32.ofInt_toInt, Int32.ofInt_toInt]
  · rintro ⟨low, high, fallback, targets, rfl, min, max, default, listed, inOrder, counted⟩
    have first := int32_eq_ok_iff.mpr ⟨min, low, rfl⟩
    have last := int32_eq_ok_iff.mpr ⟨max, high, rfl⟩
    refine ⟨(low.toInt, high.toInt), both_eq_ok_iff.mpr ⟨first, last⟩, by omega, fallback, default, targets, listed,
      by omega, ?_⟩
    rw [Int32.ofInt_toInt, Int32.ofInt_toInt]
    rfl

theorem lookupSwitch_eq_ok_iff {members : Members} {instruction : Instruction String} :
    lookupSwitch members = .ok instruction ↔
      ∃ fallback keys targets, instruction = .lookupSwitch fallback keys targets ∧
        HasLabel members "default" fallback ∧ HasLabels members "targets" targets ∧ HasKeys members keys ∧
        keys.length = targets.length := by
  unfold lookupSwitch
  simp only [refuse_bind, refuse_or_eq_ok_iff, bind_eq_ok_iff, label_eq_ok_iff, labels_eq_ok_iff,
    switchKeys_eq_ok_iff]
  constructor
  · rintro ⟨fallback, default, targets, listed, keys, keyed, counted, same⟩
    exact ⟨fallback, keys, targets, (Except.ok.inj same).symm, default, listed, keyed, not_ne_iff.mp counted⟩
  · rintro ⟨fallback, keys, targets, rfl, default, listed, keyed, counted⟩
    exact ⟨fallback, default, targets, listed, keys, keyed, not_ne_iff.mpr counted, rfl⟩

/-! ### Frames -/

def SpellsSlot (value : Json) : Slot String → Prop
  | .basic type => value = .str type.name
  | .object name => ∃ members : Members, value = .obj members ∧ members.str? "object" = some name
  | .uninitialized site =>
    ∃ members : Members, value = .obj members ∧ members.str? "object" = none ∧ HasLabel members "uninitialized" site

theorem slotObject_eq_ok_iff {members : Members} {found : Slot String} :
    slotObject members = .ok found ↔ SpellsSlot (.obj members) found := by
  unfold slotObject
  cases object : members.str? "object" with
  | some name =>
    cases found with
    | basic type => simp [SpellsSlot]
    | object other => simp [SpellsSlot, object]
    | uninitialized site => simp [SpellsSlot, object]
  | none =>
    have absent : members.get? "uninitialized" = none → ∀ site, ¬HasLabel members "uninitialized" site := by
      rintro missing site ⟨present, -⟩
      simp [Json.Members.str?, missing] at present
    cases site : members.get? "uninitialized" with
    | none => cases found <;> simp [SpellsSlot, object, refuse, absent site]
    | some value =>
      simp only [bind_eq_ok_iff, label_eq_ok_iff]
      cases found with
      | basic type => simp [SpellsSlot, pure, Except.pure]
      | object other => simp [SpellsSlot, object, pure, Except.pure]
      | uninitialized name => simp [SpellsSlot, object, pure, Except.pure]

theorem slot_eq_ok_iff {value : Json} {found : Slot String} : slot value = .ok found ↔ SpellsSlot value found := by
  cases value with
  | str name =>
    cases type : BasicType.ofName? name with
    | none =>
      have unknown : ∀ type : BasicType, name ≠ type.name := by
        rintro other rfl
        rw [BasicType.ofName?_eq_some_iff.mpr rfl] at type
        cases type
      cases found <;> simp [slot, type, refuse, SpellsSlot, unknown]
    | some known =>
      have named := BasicType.ofName?_eq_some_iff.mp type
      cases found with
      | basic other =>
        have same : known = other ↔ name = other.name := by
          rw [← BasicType.ofName?_eq_some_iff, type, Option.some.injEq]
        simp [slot, type, SpellsSlot, same]
      | object other => simp [slot, type, SpellsSlot]
      | uninitialized site => simp [slot, type, SpellsSlot]
  | obj members => exact slotObject_eq_ok_iff
  | _ => cases found <;> simp [slot, refuse, SpellsSlot]

def SpellsSlots (members : Members) (field : String) (slots : List (Slot String)) : Prop :=
  List.Forall₂ SpellsSlot ((members.items? field).getD []) slots

theorem slots_eq_ok_iff {members : Members} {field : String} {found : List (Slot String)} :
    slots members field = .ok found ↔ SpellsSlots members field found := by
  unfold slots SpellsSlots
  simp only [mapM_eq_ok_iff, slot_eq_ok_iff]

def SpellsFrame (members : Members) (shape : Frame String) : Prop :=
  HasText members "type" shape.kind.name ∧ SpellsSlots members "locals" shape.locals ∧
    SpellsSlots members "stack" shape.stack

theorem frame_eq_ok_iff {members : Members} {shape : Frame String} :
    frame members = .ok shape ↔ SpellsFrame members shape := by
  unfold frame SpellsFrame
  rw [bind_eq_ok_iff]
  simp only [text_eq_ok_iff]
  constructor
  · rintro ⟨name, named, rest⟩
    cases kind : FrameKind.ofName? name with
    | none =>
      rw [kind] at rest
      cases rest
    | some known =>
      simp only [kind, bind_eq_ok_iff, slots_eq_ok_iff] at rest
      obtain ⟨locals, spelled, stack, also, same⟩ := rest
      obtain rfl := Except.ok.inj same
      rw [FrameKind.ofName?_eq_some_iff.mp kind] at named
      exact ⟨named, spelled, also⟩
  · rintro ⟨named, locals, stack⟩
    refine ⟨shape.kind.name, named, ?_⟩
    simp only [FrameKind.ofName?_eq_some_iff.mpr rfl, bind_eq_ok_iff, slots_eq_ok_iff]
    exact ⟨shape.locals, locals, shape.stack, stack, rfl⟩

/-! ### Nodes -/

/-- The fields of an object besides its kind that spell an instruction. -/
def SpellsInstruction (members : Members) : Instruction String → Prop
  | .plain op => members.str? "opcode" = some op.name
  | .int op operand => members.str? "opcode" = some op.name ∧ members.integer? "operand" = some operand.toInt
  | .var op index => members.str? "opcode" = some op.name ∧ members.integer? "var" = some (index.toNat : Int)
  | .type op name => members.str? "opcode" = some op.name ∧ HasText members "type" name
  | .field op member => members.str? "opcode" = some op.name ∧ SpellsMember members member
  | .method op member onInterface =>
    members.str? "opcode" = some op.name ∧ SpellsMember members member ∧
      (members.bool? "interface").getD (op = .invokeinterface) = onInterface
  | .invokeDynamic name descriptor bootstrap =>
    HasText members "name" name ∧ HasText members "descriptor" descriptor ∧
      (members.str? "bootstrap").getD "" = bootstrap
  | .jump op target => members.str? "opcode" = some op.name ∧ HasLabel members "target" target
  | .ldc text => (members.get? "constant").map constantText = some text
  | .iinc index amount =>
    members.integer? "var" = some (index.toNat : Int) ∧ members.integer? "increment" = some amount.toInt
  | .tableSwitch low high fallback targets =>
    members.integer? "min" = some low.toInt ∧ members.integer? "max" = some high.toInt ∧
      HasLabel members "default" fallback ∧ HasLabels members "targets" targets ∧ TableFits low high targets
  | .lookupSwitch fallback keys targets =>
    HasLabel members "default" fallback ∧ HasLabels members "targets" targets ∧ HasKeys members keys ∧
      keys.length = targets.length
  | .multiArray descriptor dimensions =>
    HasText members "descriptor" descriptor ∧ members.integer? "dimensions" = some (dimensions.toNat : Int) ∧
      1 ≤ dimensions.toNat

/-- The object stands for a node. -/
def SpellsNode (members : Members) : Node String → Prop
  | .insn instruction => members.str? "kind" = some instruction.form.name ∧ SpellsInstruction members instruction
  | .label name => members.str? "kind" = some "label" ∧ HasLabel members "name" name
  | .frame shape => members.str? "kind" = some "frame" ∧ SpellsFrame members shape
  | .line mark =>
    members.str? "kind" = some "line" ∧ members.integer? "line" = some (mark.number.toNat : Int) ∧
      HasLabel members "start" mark.start

theorem call_eq_ok_iff {members : Members} {instruction : Instruction String} :
    call members = .ok instruction ↔
      ∃ op member onInterface, instruction = .method op member onInterface ∧
        SpellsInstruction members (.method op member onInterface) := by
  unfold call
  simp only [bind_eq_ok_iff, opcode_eq_ok_iff, member_eq_ok_iff]
  constructor
  · rintro ⟨op, named, callee, spelled, same⟩
    exact ⟨op, callee, _, (Except.ok.inj same).symm, named, spelled, rfl⟩
  · rintro ⟨op, callee, _, rfl, named, spelled, rfl⟩
    exact ⟨op, named, callee, spelled, rfl⟩

theorem dynamicCall_eq_ok_iff {members : Members} {instruction : Instruction String} :
    dynamicCall members = .ok instruction ↔
      ∃ name descriptor bootstrap, instruction = .invokeDynamic name descriptor bootstrap ∧
        SpellsInstruction members (.invokeDynamic name descriptor bootstrap) := by
  unfold dynamicCall
  rw [bind_eq_ok_iff]
  constructor
  · rintro ⟨⟨name, descriptor⟩, read, same⟩
    obtain ⟨first, second⟩ := both_eq_ok_iff.mp read
    exact ⟨name, descriptor, _, (Except.ok.inj same).symm, text_eq_ok_iff.mp first, text_eq_ok_iff.mp second, rfl⟩
  · rintro ⟨name, descriptor, _, rfl, named, described, rfl⟩
    exact ⟨(name, descriptor), both_eq_ok_iff.mpr ⟨text_eq_ok_iff.mpr named, text_eq_ok_iff.mpr described⟩, rfl⟩

theorem constant_eq_ok_iff {members : Members} {instruction : Instruction String} :
    constant members = .ok instruction ↔
      ∃ text, instruction = .ldc text ∧ SpellsInstruction members (.ldc text) := by
  unfold constant SpellsInstruction
  cases members.get? "constant" with
  | none => simp [refuse]
  | some value => simp [eq_comm]

theorem multiArray_eq_ok_iff {members : Members} {instruction : Instruction String} :
    multiArray members = .ok instruction ↔
      ∃ descriptor dimensions, instruction = .multiArray descriptor dimensions ∧
        SpellsInstruction members (.multiArray descriptor dimensions) := by
  unfold multiArray
  simp only [bind_eq_ok_iff, text_eq_ok_iff, integer_eq_ok_iff]
  constructor
  · rintro ⟨descriptor, described, value, ⟨found, above, below⟩, same⟩
    have kept : ((UInt8.ofNat value.toNat).toNat : Int) = value := by
      rw [UInt8.toNat_ofNat_of_lt' (by simp [UInt8.size]; omega)]
      omega
    refine ⟨descriptor, _, (Except.ok.inj same).symm, described, ?_, by omega⟩
    rw [kept]
    exact found
  · rintro ⟨descriptor, dimensions, rfl, described, found, positive⟩
    have below := dimensions.toNat_lt
    refine ⟨descriptor, described, dimensions.toNat, ⟨found, by omega, by omega⟩, ?_⟩
    simp [pure, Except.pure]

theorem lineMark_eq_ok_iff {members : Members} {mark : LineMark String} :
    lineMark members = .ok mark ↔
      members.integer? "line" = some (mark.number.toNat : Int) ∧ HasLabel members "start" mark.start := by
  unfold lineMark
  simp only [bind_eq_ok_iff, uint32_eq_ok_iff, label_eq_ok_iff]
  constructor
  · rintro ⟨number, found, start, labelled, same⟩
    obtain rfl := Except.ok.inj same
    exact ⟨found, labelled⟩
  · rintro ⟨found, labelled⟩
    exact ⟨mark.number, found, mark.start, labelled, rfl⟩

/-- What is read from an object is spelled by it. -/
theorem nodeOfKind_sound {members : Members} {kind : String} {found : Node String}
    (named : members.str? "kind" = some kind) (read : nodeOfKind members kind = .ok found) :
    SpellsNode members found := by
  induction kind using kindCases with
  | insn =>
    obtain ⟨op, given, rfl⟩ := bind_pure_eq_ok_iff.mp read
    exact ⟨named, opcode_eq_ok_iff.mp given⟩
  | int =>
    obtain ⟨op, operand, opcode, given, rfl⟩ := opcode_bind_eq_ok_iff.mp read
    obtain ⟨present, x, rfl⟩ := int32_eq_ok_iff.mp given
    refine ⟨named, opcode, ?_⟩
    rw [Int32.ofInt_toInt]
    exact present
  | var =>
    obtain ⟨op, operand, opcode, given, rfl⟩ := opcode_bind_eq_ok_iff.mp read
    exact ⟨named, opcode, uint16_eq_ok_iff.mp given⟩
  | type =>
    obtain ⟨op, operand, opcode, given, rfl⟩ := opcode_bind_eq_ok_iff.mp read
    exact ⟨named, opcode, text_eq_ok_iff.mp given⟩
  | field =>
    obtain ⟨op, operand, opcode, given, rfl⟩ := opcode_bind_eq_ok_iff.mp read
    exact ⟨named, opcode, member_eq_ok_iff.mp given⟩
  | method =>
    obtain ⟨_, given, rfl⟩ := bind_pure_eq_ok_iff.mp read
    obtain ⟨op, member, onInterface, rfl, spelled⟩ := call_eq_ok_iff.mp given
    exact ⟨named, spelled⟩
  | invokeDynamic =>
    obtain ⟨_, given, rfl⟩ := bind_pure_eq_ok_iff.mp read
    obtain ⟨name, descriptor, bootstrap, rfl, spelled⟩ := dynamicCall_eq_ok_iff.mp given
    exact ⟨named, spelled⟩
  | jump =>
    obtain ⟨op, operand, opcode, given, rfl⟩ := opcode_bind_eq_ok_iff.mp read
    exact ⟨named, opcode, label_eq_ok_iff.mp given⟩
  | label =>
    obtain ⟨name, given, rfl⟩ := bind_pure_eq_ok_iff.mp read
    exact ⟨named, label_eq_ok_iff.mp given⟩
  | ldc =>
    obtain ⟨_, given, rfl⟩ := bind_pure_eq_ok_iff.mp read
    obtain ⟨text, rfl, spelled⟩ := constant_eq_ok_iff.mp given
    exact ⟨named, spelled⟩
  | iinc =>
    obtain ⟨index, first, read⟩ := bind_ok read
    obtain ⟨amount, second, rfl⟩ := bind_pure_eq_ok_iff.mp read
    exact ⟨named, uint16_eq_ok_iff.mp first, int16_eq_ok_iff.mp second⟩
  | tableSwitch =>
    obtain ⟨_, given, rfl⟩ := bind_pure_eq_ok_iff.mp read
    obtain ⟨low, high, fallback, targets, rfl, spelled⟩ := tableSwitch_eq_ok_iff.mp given
    exact ⟨named, spelled⟩
  | lookupSwitch =>
    obtain ⟨_, given, rfl⟩ := bind_pure_eq_ok_iff.mp read
    obtain ⟨fallback, keys, targets, rfl, spelled⟩ := lookupSwitch_eq_ok_iff.mp given
    exact ⟨named, spelled⟩
  | multiArray =>
    obtain ⟨_, given, rfl⟩ := bind_pure_eq_ok_iff.mp read
    obtain ⟨descriptor, dimensions, rfl, spelled⟩ := multiArray_eq_ok_iff.mp given
    exact ⟨named, spelled⟩
  | frame =>
    obtain ⟨shape, given, rfl⟩ := bind_pure_eq_ok_iff.mp read
    exact ⟨named, frame_eq_ok_iff.mp given⟩
  | line =>
    obtain ⟨mark, given, rfl⟩ := bind_pure_eq_ok_iff.mp read
    exact ⟨named, lineMark_eq_ok_iff.mp given⟩
  | unknown kind unknown =>
    rw [nodeOfKind_of_not_mem unknown] at read
    cases read

/-- An object that spells an instruction is read as this instruction. -/
theorem nodeOfKind_instruction {members : Members} {instruction : Instruction String}
    (spelled : SpellsInstruction members instruction) :
    nodeOfKind members instruction.form.name = .ok (.insn instruction) := by
  cases instruction with
  | plain op => exact bind_pure_eq_ok_iff.mpr ⟨op, opcode_eq_ok_iff.mpr spelled, rfl⟩
  | int op operand =>
    obtain ⟨opcode, present⟩ := spelled
    have read := int32_eq_ok_iff.mpr ⟨present, operand, rfl⟩
    refine opcode_bind_eq_ok_iff.mpr ⟨op, operand.toInt, opcode, read, ?_⟩
    rw [Int32.ofInt_toInt]
  | var op index =>
    obtain ⟨opcode, present⟩ := spelled
    exact opcode_bind_eq_ok_iff.mpr ⟨op, index, opcode, uint16_eq_ok_iff.mpr present, rfl⟩
  | type op name =>
    obtain ⟨opcode, present⟩ := spelled
    exact opcode_bind_eq_ok_iff.mpr ⟨op, name, opcode, text_eq_ok_iff.mpr present, rfl⟩
  | field op member =>
    obtain ⟨opcode, present⟩ := spelled
    exact opcode_bind_eq_ok_iff.mpr ⟨op, member, opcode, member_eq_ok_iff.mpr present, rfl⟩
  | method op member onInterface =>
    have read := call_eq_ok_iff.mpr ⟨op, member, onInterface, rfl, spelled⟩
    exact bind_pure_eq_ok_iff.mpr ⟨_, read, rfl⟩
  | invokeDynamic name descriptor bootstrap =>
    have read := dynamicCall_eq_ok_iff.mpr ⟨name, descriptor, bootstrap, rfl, spelled⟩
    exact bind_pure_eq_ok_iff.mpr ⟨_, read, rfl⟩
  | jump op target =>
    obtain ⟨opcode, present⟩ := spelled
    exact opcode_bind_eq_ok_iff.mpr ⟨op, target, opcode, label_eq_ok_iff.mpr present, rfl⟩
  | ldc text =>
    have read := constant_eq_ok_iff.mpr ⟨text, rfl, spelled⟩
    exact bind_pure_eq_ok_iff.mpr ⟨_, read, rfl⟩
  | iinc index amount =>
    obtain ⟨first, second⟩ := spelled
    have read := int16_eq_ok_iff.mpr second
    exact bind_eq_ok_iff.mpr ⟨index, uint16_eq_ok_iff.mpr first, bind_pure_eq_ok_iff.mpr ⟨amount, read, rfl⟩⟩
  | tableSwitch low high fallback targets =>
    have read := tableSwitch_eq_ok_iff.mpr ⟨low, high, fallback, targets, rfl, spelled⟩
    exact bind_pure_eq_ok_iff.mpr ⟨_, read, rfl⟩
  | lookupSwitch fallback keys targets =>
    have read := lookupSwitch_eq_ok_iff.mpr ⟨fallback, keys, targets, rfl, spelled⟩
    exact bind_pure_eq_ok_iff.mpr ⟨_, read, rfl⟩
  | multiArray descriptor dimensions =>
    have read := multiArray_eq_ok_iff.mpr ⟨descriptor, dimensions, rfl, spelled⟩
    exact bind_pure_eq_ok_iff.mpr ⟨_, read, rfl⟩

/-- A node is read from exactly the objects that spell it. -/
theorem node_eq_ok_iff {members : Members} {found : Node String} :
    node members = .ok found ↔ SpellsNode members found := by
  unfold node
  rw [bind_eq_ok_iff]
  constructor
  · rintro ⟨kind, named, read⟩
    exact nodeOfKind_sound (text_eq_ok_iff.mp named).1 read
  · intro spelled
    cases found with
    | insn instruction =>
      have notEmpty : instruction.form.name ≠ "" := by cases instruction <;> simp [Instruction.form, Form.name]
      exact ⟨_, text_eq_ok_iff.mpr ⟨spelled.1, notEmpty⟩, nodeOfKind_instruction spelled.2⟩
    | label name =>
      have read := label_eq_ok_iff.mpr spelled.2
      exact ⟨_, text_eq_ok_iff.mpr ⟨spelled.1, by decide⟩, bind_pure_eq_ok_iff.mpr ⟨name, read, rfl⟩⟩
    | frame shape =>
      have read := frame_eq_ok_iff.mpr spelled.2
      exact ⟨_, text_eq_ok_iff.mpr ⟨spelled.1, by decide⟩, bind_pure_eq_ok_iff.mpr ⟨shape, read, rfl⟩⟩
    | line mark =>
      have read := lineMark_eq_ok_iff.mpr spelled.2
      exact ⟨_, text_eq_ok_iff.mpr ⟨spelled.1, by decide⟩, bind_pure_eq_ok_iff.mpr ⟨mark, read, rfl⟩⟩

/-! ### Bodies -/

def SpellsRange (members : Members) (range : ProtectedRange String) : Prop :=
  HasLabel members "start" range.start ∧ HasLabel members "end" range.stop ∧
    HasLabel members "handler" range.handler ∧ members.str? "type" = range.caught

theorem protectedRange_eq_ok_iff {members : Members} {range : ProtectedRange String} :
    protectedRange members = .ok range ↔ SpellsRange members range := by
  unfold protectedRange SpellsRange
  rw [bind_eq_ok_iff]
  constructor
  · rintro ⟨⟨⟨start, stop⟩, handler⟩, read, same⟩
    obtain rfl := Except.ok.inj same
    obtain ⟨pair, last⟩ := both_eq_ok_iff.mp read
    obtain ⟨first, second⟩ := both_eq_ok_iff.mp pair
    exact ⟨label_eq_ok_iff.mp first, label_eq_ok_iff.mp second, label_eq_ok_iff.mp last, rfl⟩
  · rintro ⟨start, stop, handler, caught⟩
    refine ⟨((range.start, range.stop), range.handler), both_eq_ok_iff.mpr ⟨?_, ?_⟩, ?_⟩
    · exact both_eq_ok_iff.mpr ⟨label_eq_ok_iff.mpr start, label_eq_ok_iff.mpr stop⟩
    · exact label_eq_ok_iff.mpr handler
    · rw [caught]
      rfl

/-- The value is an object that stands for an element. -/
def Spelled {α : Type} (spells : Members → α → Prop) (value : Json) (found : α) : Prop :=
  ∃ members, value = .obj members ∧ spells members found

theorem element_eq_ok_iff {α : Type} {method : String} {place : Place} {read : Members → Read α} {value : Json}
    {found : α} :
    element method place read value = .ok found ↔ Spelled (fun members a => read members = .ok a) value found := by
  unfold element Spelled
  cases value with
  | obj members =>
    simp only [Json.members?, Json.obj.injEq, exists_eq_left']
    cases read members <;> simp [Except.mapError]
  | _ => simp [Json.members?]

/-- The place of an element only matters to the faults. -/
theorem elements_eq_ok_iff {α : Type} {method : String} {place : Nat → Place} {read : Members → Read α}
    {values : List Json} {found : List α} :
    elements method place read values = .ok found ↔
      List.Forall₂ (Spelled fun members a => read members = .ok a) values found := by
  unfold elements
  rw [mapM_eq_ok_iff]
  simp only [element_eq_ok_iff]
  have dropIndex : ∀ start, List.Forall₂
      (fun (pair : Json × Nat) a => Spelled (fun members a => read members = .ok a) pair.1 a)
      (values.zipIdx start) found ↔
      List.Forall₂ (Spelled fun members a => read members = .ok a) values found := by
    intro start
    rw [← List.forall₂_map_left_iff (f := Prod.fst), List.zipIdx_map_fst]
  exact dropIndex 0

/-- The object stands for a body with named labels. -/
structure SpellsBody (members : Members) (body : Body String) : Prop where
  name : HasText members "name" body.name
  descriptor : (members.str? "descriptor").getD "" = body.descriptor
  nodes : ∃ values, members.items? "instructions" = some values ∧ List.Forall₂ (Spelled SpellsNode) values body.nodes
  ranges : List.Forall₂ (Spelled SpellsRange) ((members.items? "try_catch_blocks").getD []) body.ranges

/-- A body is read from exactly the objects that spell it. -/
theorem body_eq_ok_iff {members : Members} {found : Body String} :
    body members = .ok found ↔ SpellsBody members found := by
  have named : ∀ name, (text members "name").mapError (fun _ => Fault.noName) = .ok name ↔
      HasText members "name" name := by
    intro name
    rw [← text_eq_ok_iff]
    cases text members "name" <;> simp [Except.mapError]
  unfold body
  simp only [bind_eq_ok_iff, named]
  constructor
  · rintro ⟨name, present, read⟩
    cases listed : members.items? "instructions" with
    | none =>
      rw [listed] at read
      cases read
    | some values =>
      simp only [listed, bind_eq_ok_iff, elements_eq_ok_iff, node_eq_ok_iff, protectedRange_eq_ok_iff] at read
      obtain ⟨nodes, spelled, ranges, also, same⟩ := read
      obtain rfl := Except.ok.inj same
      exact ⟨present, rfl, ⟨values, listed, spelled⟩, also⟩
  · intro spelled
    obtain ⟨values, listed, nodes⟩ := spelled.nodes
    refine ⟨found.name, spelled.name, ?_⟩
    simp only [listed, bind_eq_ok_iff, elements_eq_ok_iff, node_eq_ok_iff, protectedRange_eq_ok_iff]
    refine ⟨found.nodes, nodes, found.ranges, spelled.ranges, ?_⟩
    rw [spelled.descriptor]
    rfl

end Document

end ProbePoints
