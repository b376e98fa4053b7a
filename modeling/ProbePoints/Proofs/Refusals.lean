import ProbePoints.Proofs.Loading
import ProbePoints.Proofs.Spelling

/-!
# The first element that is refused

A method is refused for the first of its elements that would be refused on its own, where no label is known yet, and a
class for the first of its methods that is refused.
-/

namespace ProbePoints

namespace Document

open Json (Members)

variable {ε α β : Type}

/-! ### Reading up to the first fault -/

theorem bind_eq_error_iff {x : Except ε α} {f : α → Except ε β} {fault : ε} :
    x >>= f = .error fault ↔ x = .error fault ∨ ∃ a, x = .ok a ∧ f a = .error fault := by
  cases x <;> simp [bind, Except.bind]

theorem map_eq_error_iff {x : Except ε α} {f : α → β} {fault : ε} : x.map f = .error fault ↔ x = .error fault := by
  cases x <;> simp [Except.map]

theorem mapM_eq_error_iff {f : α → Except ε β} {items : List α} {fault : ε} :
    items.mapM f = .error fault ↔
      ∃ before a after, items = before ++ a :: after ∧ f a = .error fault ∧ ∀ b ∈ before, ∃ c, f b = .ok c := by
  induction items with
  | nil => simp [pure, Except.pure]
  | cons item items ih =>
    rw [List.mapM_cons, bind_eq_error_iff]
    constructor
    · rintro (failed | ⟨c, first, failed⟩)
      · exact ⟨[], item, items, rfl, failed, by simp⟩
      · rcases bind_eq_error_iff.mp failed with failed | ⟨cs, -, passed⟩
        · obtain ⟨before, a, after, rfl, here, earlier⟩ := ih.mp failed
          exact ⟨item :: before, a, after, rfl, here, List.forall_mem_cons.mpr ⟨⟨c, first⟩, earlier⟩⟩
        · cases passed
    · rintro ⟨before, a, after, same, here, earlier⟩
      cases before with
      | nil =>
        obtain ⟨rfl, -⟩ := List.cons_eq_cons.mp same
        exact .inl here
      | cons head before =>
        obtain ⟨rfl, rest⟩ := List.cons_eq_cons.mp same
        obtain ⟨⟨c, first⟩, earlier⟩ := List.forall_mem_cons.mp earlier
        exact .inr ⟨c, first, bind_eq_error_iff.mpr (.inl (ih.mpr ⟨before, a, after, rest, here, earlier⟩))⟩

theorem exists_mapM_eq_ok_iff {f : α → Except ε β} {items : List α} :
    (∃ results, items.mapM f = .ok results) ↔ ∀ a ∈ items, ∃ b, f a = .ok b := by
  induction items with
  | nil => simp [pure, Except.pure]
  | cons item items ih =>
    rw [List.forall_mem_cons, ← ih, List.mapM_cons]
    constructor
    · rintro ⟨results, read⟩
      obtain ⟨b, first, read⟩ := bind_ok read
      obtain ⟨bs, rest, -⟩ := bind_ok read
      exact ⟨⟨b, first⟩, bs, rest⟩
    · rintro ⟨⟨b, first⟩, bs, rest⟩
      exact ⟨b :: bs, bind_eq_ok_iff.mpr ⟨b, first, bind_eq_ok_iff.mpr ⟨bs, rest, rfl⟩⟩⟩

theorem exists_eq_error_iff {x : Except ε α} : (∃ fault, x = .error fault) ↔ ¬∃ a, x = .ok a := by
  cases x <;> simp

/-! ### Elements on their own -/

namespace Load

/-- Why a value is refused where it comes first, before any label is known. -/
def refusal? (load : Members → Load (List ElementFault) β) (value : Json) : Option String :=
  match value.members? with
  | none => some "expected an object"
  | some members =>
    match ((load members).run.run []).1 with
    | .ok _ => none
    | .error faults => some ("\n".intercalate (faults.map ElementFault.message))

/-- The first value that is refused, with its index and the reason. -/
def FirstRefused (refusal? : Json → Option String) (values : List Json) (index : Nat) (reason : String) : Prop :=
  ∃ before value after, values = before ++ value :: after ∧ before.length = index ∧ refusal? value = some reason ∧
    ∀ earlier ∈ before, refusal? earlier = none

variable {load : Members → Load (List ElementFault) β} {read : Members → Read α}
  {number : α → StateM (List String) β} {method : String} {value : Json} {values : List Json}

/-- Wherever an element stands, it is refused for the reason for which it is refused on its own. -/
theorem element_cases (agrees : ∀ members, Agrees (load members) (read members) number) (method : String)
    (place : Place) (value : Json) :
    (refusal? load value = none ∧ ∃ a, Document.element method place read value = .ok a) ∨
      ∃ reason fault, refusal? load value = some reason ∧ Document.element method place read value = .error fault ∧
        fault.message = beforeNul s!"method '{method}' {place.text}: {reason}" := by
  unfold refusal? Document.element
  cases value.members? with
  | none =>
    have joined : ∀ front : String, front ++ ": expected an object" = front ++ ": " ++ "expected an object" := by
      intro front
      rw [String.append_assoc]
      rfl
    exact .inr ⟨"expected an object", .elementShape method place, rfl, rfl, congrArg beforeNul (joined _)⟩
  | some members =>
    obtain ⟨outcome, later, run, -, ends⟩ := agrees members [] (by simp [Unreserved])
    simp only [run]
    generalize read members = result at ends ⊢
    cases ends with
    | @ok a b numbered => exact .inl ⟨rfl, a, rfl⟩
    | @error faults => exact .inr ⟨_, _, rfl, rfl, rfl⟩

theorem element_eq_ok_iff (agrees : ∀ members, Agrees (load members) (read members) number) {place : Place} :
    (∃ a, Document.element method place read value = .ok a) ↔ refusal? load value = none := by
  obtain ⟨alone, read⟩ | ⟨reason, fault, alone, read, -⟩ := element_cases agrees method place value
  · exact iff_of_true read alone
  · simp [alone, read]

theorem element_eq_error_iff (agrees : ∀ members, Agrees (load members) (read members) number) {place : Place}
    {message : String} :
    (∃ fault, Document.element method place read value = .error fault ∧ fault.message = message) ↔
      ∃ reason, refusal? load value = some reason ∧
        message = beforeNul s!"method '{method}' {place.text}: {reason}" := by
  obtain ⟨alone, a, read⟩ | ⟨reason, fault, alone, read, text⟩ := element_cases agrees method place value
  · simp [alone, read]
  · simp [alone, read, text, eq_comm]

theorem elements_eq_ok_iff (agrees : ∀ members, Agrees (load members) (read members) number) {place : Nat → Place} :
    (∃ as, Document.elements method place read values = .ok as) ↔ ∀ value ∈ values, refusal? load value = none := by
  unfold Document.elements
  rw [exists_mapM_eq_ok_iff]
  simp only [element_eq_ok_iff agrees]
  rw [← List.forall_mem_map (f := Prod.fst) (P := fun value => refusal? load value = none), List.zipIdx_map_fst]

theorem elements_eq_error_iff (agrees : ∀ members, Agrees (load members) (read members) number)
    {place : Nat → Place} {message : String} :
    (∃ fault, Document.elements method place read values = .error fault ∧ fault.message = message) ↔
      ∃ index reason, FirstRefused (refusal? load) values index reason ∧
        message = beforeNul s!"method '{method}' {(place index).text}: {reason}" := by
  have accepted : ∀ (before : List Json), (∀ entry ∈ before.zipIdx, ∃ a,
      Document.element method (place entry.2) read entry.1 = .ok a) ↔
        ∀ earlier ∈ before, refusal? load earlier = none := by
    intro before
    have read : (∃ as, Document.elements method place read before = .ok as) ↔ _ := elements_eq_ok_iff agrees
    rwa [Document.elements, exists_mapM_eq_ok_iff] at read
  unfold Document.elements
  simp only [mapM_eq_error_iff]
  constructor
  · rintro ⟨fault, ⟨front, ⟨value, index⟩, back, split, failed, passed⟩, text⟩
    obtain ⟨before, rest, rfl, rfl, here⟩ := List.zipIdx_eq_append_iff.mp split
    obtain ⟨value, after, rfl, same, -⟩ := List.zipIdx_eq_cons_iff.mp here.symm
    obtain ⟨rfl, rfl⟩ := Prod.mk.inj same
    obtain ⟨reason, alone, text⟩ := (element_eq_error_iff agrees).mp ⟨fault, failed, text⟩
    rw [Nat.zero_add] at text
    exact ⟨before.length, reason, ⟨before, _, after, rfl, rfl, alone, (accepted before).mp passed⟩, text⟩
  · rintro ⟨index, reason, ⟨before, value, after, rfl, rfl, alone, earlier⟩, text⟩
    obtain ⟨fault, failed, text⟩ := (element_eq_error_iff agrees).mpr ⟨reason, alone, text⟩
    refine ⟨fault, ⟨before.zipIdx, (value, before.length), after.zipIdx (before.length + 1), ?_, failed,
      (accepted before).mpr earlier⟩, text⟩
    rw [List.zipIdx_append, List.zipIdx_cons, Nat.zero_add]

theorem exists_elements_eq_error_iff (agrees : ∀ members, Agrees (load members) (read members) number)
    {place : Nat → Place} :
    (∃ fault, Document.elements method place read values = .error fault) ↔
      ∃ value ∈ values, refusal? load value ≠ none := by
  rw [exists_eq_error_iff, elements_eq_ok_iff agrees]
  simp

end Load

/-! ### Methods and classes -/

/-- The text of a place may be written out. -/
theorem placed_text {mark joined : String} (same : "' " ++ mark = joined) (name index reason : String) :
    "method '" ++ name ++ "' " ++ (mark ++ index) ++ ": " ++ reason =
      "method '" ++ name ++ joined ++ index ++ ": " ++ reason := by
  subst same
  simp only [String.append_assoc]

/-- The elements are read in order, nodes before ranges. -/
theorem method_eq_error_iff {members : Members} {name : String} {instructions : List Json}
    (named : HasText members "name" name) (listed : members.items? "instructions" = some instructions)
    {fault : Fault} :
    Method.ofDocument members = .error fault ↔
      elements name .instruction node instructions = .error fault ∨
      (∃ nodes, elements name .instruction node instructions = .ok nodes) ∧
        elements name .range protectedRange ((members.items? "try_catch_blocks").getD []) = .error fault := by
  unfold Method.ofDocument body
  rw [map_eq_error_iff, text_eq_ok_iff.mpr named, listed]
  change (elements name .instruction node instructions >>= fun nodes => _) = _ ↔ _
  rw [bind_eq_error_iff]
  refine or_congr_right ?_
  simp only [bind_eq_error_iff, ← exists_and_right]
  refine exists_congr fun nodes => and_congr_right fun _ => ?_
  simp [pure, Except.pure]

/-- A method is refused exactly if one of its elements would be refused on its own. -/
theorem exists_method_eq_error_iff {members : Members} {name : String} {instructions : List Json}
    (named : HasText members "name" name) (listed : members.items? "instructions" = some instructions) :
    (∃ fault, Method.ofDocument members = .error fault) ↔
      (∃ value ∈ instructions, Load.refusal? Load.node value ≠ none) ∨
      ∃ value ∈ (members.items? "try_catch_blocks").getD [], Load.refusal? Load.protectedRange value ≠ none := by
  simp only [method_eq_error_iff named listed, exists_or, exists_and_left]
  rw [Load.exists_elements_eq_error_iff Load.agrees_node,
    Load.exists_elements_eq_error_iff Load.agrees_protectedRange, Load.elements_eq_ok_iff Load.agrees_node]
  constructor
  · rintro (early | ⟨-, late⟩)
    · exact .inl early
    · exact .inr late
  · intro refused
    by_cases early : ∃ value ∈ instructions, Load.refusal? Load.node value ≠ none
    · exact .inl early
    · refine .inr ⟨?_, refused.resolve_left early⟩
      simpa using early

theorem method_message_iff {members : Members} {name : String} {instructions : List Json}
    (named : HasText members "name" name) (listed : members.items? "instructions" = some instructions)
    {message : String} :
    (∃ fault, Method.ofDocument members = .error fault ∧ fault.message = message) ↔
      (∃ index reason, Load.FirstRefused (Load.refusal? Load.node) instructions index reason ∧
        message = beforeNul s!"method '{name}' instruction {index}: {reason}") ∨
      (∀ value ∈ instructions, Load.refusal? Load.node value = none) ∧
        ∃ index reason, Load.FirstRefused (Load.refusal? Load.protectedRange)
            ((members.items? "try_catch_blocks").getD []) index reason ∧
          message = beforeNul s!"method '{name}' try-catch block {index}: {reason}" := by
  simp only [method_eq_error_iff named listed, or_and_right, exists_or, and_assoc, exists_and_left]
  rw [Load.elements_eq_error_iff Load.agrees_node, Load.elements_eq_error_iff Load.agrees_protectedRange,
    Load.elements_eq_ok_iff Load.agrees_node]
  have atInstruction : ∀ (index : Nat) (reason : String),
      s!"method '{name}' {(Place.instruction index).text}: {reason}" =
        s!"method '{name}' instruction {index}: {reason}" :=
    fun index => placed_text (by decide) name (toString index)
  have atRange : ∀ (index : Nat) (reason : String),
      s!"method '{name}' {(Place.range index).text}: {reason}" =
        s!"method '{name}' try-catch block {index}: {reason}" :=
    fun index => placed_text (by decide) name (toString index)
  simp only [atInstruction, atRange]

/-- An entry of a class is refused, for what it is or for what a method in it is refused for. -/
inductive EntryRefused : Json → Fault → Prop where
  | shape {entry : Json} (other : entry.members? = none) : EntryRefused entry .methodShape
  | method {entry : Json} {members : Members} {fault : Fault} (found : entry.members? = some members)
      (refused : Method.ofDocument members = .error fault) : EntryRefused entry fault

/-- Reads an entry of a class. -/
def classEntry (entry : Json) : Except Fault Method :=
  match entry.members? with
  | none => .error .methodShape
  | some members => Method.ofDocument members

theorem entryRefused_iff {entry : Json} {fault : Fault} :
    EntryRefused entry fault ↔ classEntry entry = .error fault := by
  unfold classEntry
  constructor
  · intro refused
    cases refused with
    | shape other => rw [other]
    | method found refused =>
      rw [found]
      exact refused
  · intro refused
    cases found : entry.members? with
    | none =>
      rw [found] at refused
      obtain rfl := Except.error.inj refused
      exact .shape found
    | some members =>
      rw [found] at refused
      exact .method found refused

theorem class_eq {members : Members} {entries : List Json} (listed : members.items? "methods" = some entries) :
    ClassUnit.ofDocument members =
      (entries.mapM classEntry).map fun methods => { name := (members.str? "class").getD "", methods } := by
  unfold ClassUnit.ofDocument
  rw [listed]
  rfl

theorem class_eq_error_iff {members : Members} {fault : Fault} :
    ClassUnit.ofDocument members = .error fault ↔
      members.items? "methods" = none ∧ fault = .noMethods ∨
      ∃ before entry after, members.items? "methods" = some (before ++ entry :: after) ∧ EntryRefused entry fault ∧
        ∀ earlier ∈ before, ∀ other, ¬EntryRefused earlier other := by
  cases listed : members.items? "methods" with
  | none => simp [ClassUnit.ofDocument, listed, eq_comm]
  | some entries =>
    have accepted : ∀ entry, (∃ m, classEntry entry = .ok m) ↔ ∀ other, classEntry entry ≠ .error other := by
      intro entry
      cases classEntry entry <;> simp
    rw [class_eq listed, map_eq_error_iff, mapM_eq_error_iff]
    simp [accepted, entryRefused_iff]

theorem exists_class_eq_error_iff {members : Members} :
    (∃ fault, ClassUnit.ofDocument members = .error fault) ↔
      members.items? "methods" = none ∨
      ∃ entries, members.items? "methods" = some entries ∧ ∃ entry ∈ entries, ∃ fault, EntryRefused entry fault := by
  cases listed : members.items? "methods" with
  | none => simp [ClassUnit.ofDocument, listed]
  | some entries =>
    simp only [class_eq listed, map_eq_error_iff, entryRefused_iff, exists_eq_error_iff, exists_mapM_eq_ok_iff]
    simp

/-- Loading a method refuses it exactly if one of its elements would be refused on its own, and for the first of them.
A class is refused exactly if it has no list of methods or one of its entries is refused, and for the first of them. -/
theorem ofDocument_first_refusal :
    (∀ members, Load.method members = Method.ofDocument members) ∧
    (∀ members name instructions blocks, HasText members "name" name →
      members.items? "instructions" = some instructions → (members.items? "try_catch_blocks").getD [] = blocks →
      ((∃ fault, Method.ofDocument members = .error fault) ↔
        (∃ value ∈ instructions, Load.refusal? Load.node value ≠ none) ∨
        ∃ value ∈ blocks, Load.refusal? Load.protectedRange value ≠ none) ∧
      ∀ message, (∃ fault, Method.ofDocument members = .error fault ∧ fault.message = message) ↔
        (∃ index reason, Load.FirstRefused (Load.refusal? Load.node) instructions index reason ∧
          message = beforeNul s!"method '{name}' instruction {index}: {reason}") ∨
        (∀ value ∈ instructions, Load.refusal? Load.node value = none) ∧
          ∃ index reason, Load.FirstRefused (Load.refusal? Load.protectedRange) blocks index reason ∧
            message = beforeNul s!"method '{name}' try-catch block {index}: {reason}") ∧
    ∀ members,
      ((∃ fault, ClassUnit.ofDocument members = .error fault) ↔
        members.items? "methods" = none ∨
        ∃ entries, members.items? "methods" = some entries ∧ ∃ entry ∈ entries, ∃ fault, EntryRefused entry fault) ∧
      ∀ fault, ClassUnit.ofDocument members = .error fault ↔
        members.items? "methods" = none ∧ fault = .noMethods ∨
        ∃ before entry after, members.items? "methods" = some (before ++ entry :: after) ∧ EntryRefused entry fault ∧
          ∀ earlier ∈ before, ∀ other, ¬EntryRefused earlier other := by
  refine ⟨Load.method_eq, ?_, fun members => ⟨exists_class_eq_error_iff, fun fault => class_eq_error_iff⟩⟩
  rintro members name instructions blocks named listed rfl
  exact ⟨exists_method_eq_error_iff named listed, fun message => method_message_iff named listed⟩

/-- A method with two ranges, the second of which is refused for two reasons. -/
def halfHandled : Members :=
  [("name", .str "m"),
   ("instructions", .arr [.obj [("kind", .str "label"), ("name", .str "a")]]),
   ("try_catch_blocks", .arr
     [.obj [("start", .str "a"), ("end", .str "b"), ("handler", .str "a")],
      .obj [("start", .str "~b"), ("end", .str "c")]])]

theorem ofDocument_first_refusal_halfHandled :
    HasText halfHandled "name" "m" ∧ (halfHandled.items? "instructions").isSome = true ∧
      ∃ fault, Method.ofDocument halfHandled = .error fault ∧
        fault.message = "method 'm' try-catch block 1: label name '~b' uses the reserved prefix '~'\n" ++
          "missing or invalid field 'handler'" := by
  have named : HasText halfHandled "name" "m" := ⟨rfl, by decide⟩
  refine ⟨named, rfl, ((ofDocument_first_refusal.2.1 halfHandled "m" _ _ named rfl rfl).2 _).mpr (.inr ⟨?_, 1, _,
    ⟨[_], _, [], rfl, rfl, rfl, ?_⟩, ?_⟩)⟩
  · exact List.forall_mem_singleton.mpr rfl
  · exact List.forall_mem_singleton.mpr rfl
  · decide +kernel

end Document

end ProbePoints
