import Mathlib.Data.Int.Range
import ProbePoints.Method.Listing
import ProbePoints.Proofs.Image

/-!
# Keys of table switches

A table switch has one target for each key between its bounds. Documents are read and listings are written with exact
integers. `Word.tableSwitch` and `Word.tableArms` do the same in words of 64 bits, with arithmetic that fails where a
result is no word, and `Word.computes_tableSwitch` and `Word.tableArms_eq` show that it never fails there: bounds of 32
bits keep all results away from the ends of a word. The listing relies on what only the reader checks, that there are as
many targets as keys.
-/

namespace ProbePoints

open Document
open Json (Members)

/-! ### Arithmetic on words -/

namespace Word

/-- The word of 64 bits that holds an integer, if one does. -/
def ofInt? (n : Int) : Option Int64 := if Json.IsWord n then some (Int64.ofInt n) else none

theorem ofInt?_eq_some_iff {n : Int} {word : Int64} : ofInt? n = some word ↔ word.toInt = n := by
  unfold ofInt?
  constructor
  · intro held
    obtain ⟨⟨above, below⟩, same⟩ := Option.ite_none_right_eq_some.mp held
    rw [← Option.some.inj same]
    exact Int64.toInt_ofInt_of_le (by omega) (by omega)
  · rintro rfl
    have above := word.le_toInt
    have below := word.toInt_lt
    have isWord : Json.IsWord word.toInt := ⟨by omega, by omega⟩
    rw [if_pos isWord, Int64.ofInt_toInt]

theorem exists_ofInt?_eq {n : Int} (isWord : Json.IsWord n) : ∃ word, ofInt? n = some word ∧ word.toInt = n := by
  have held : ofInt? n = some (Int64.ofInt n) := if_pos isWord
  exact ⟨_, held, ofInt?_eq_some_iff.mp held⟩

/-- The sum of two words, if it is a word. -/
def add? (a b : Int64) : Option Int64 := ofInt? (a.toInt + b.toInt)

/-- The difference of two words, if it is a word. -/
def sub? (a b : Int64) : Option Int64 := ofInt? (a.toInt - b.toInt)

/-- The number of keys between two bounds, if each step to it stays a word. -/
def keyCount (low high : Int64) : Option Int64 := do
  let width ← sub? high low
  add? width 1

theorem exists_keyCount_eq (low high : Int32) :
    ∃ count, keyCount low.toInt64 high.toInt64 = some count ∧ count.toInt = high.toInt - low.toInt + 1 := by
  have lowAbove := low.le_toInt
  have lowBelow := low.toInt_lt
  have highAbove := high.le_toInt
  have highBelow := high.toInt_lt
  obtain ⟨width, subtracted, difference⟩ := exists_ofInt?_eq (n := high.toInt - low.toInt) ⟨by omega, by omega⟩
  obtain ⟨count, added, sum⟩ := exists_ofInt?_eq (n := width.toInt + 1) ⟨by omega, by omega⟩
  refine ⟨count, ?_, by omega⟩
  unfold keyCount sub?
  rw [Int32.toInt_toInt64, Int32.toInt_toInt64, subtracted]
  exact added

/-! ### Reading with words -/

/-- Reads a table switch. Without a value, some step of the arithmetic was no word. -/
def tableSwitch (members : Members) : OptionT Read (Instruction String) := do
  let (least, greatest) ← OptionT.lift (both (int32 members "min") (int32 members "max"))
  let low := Int64.ofInt least
  let high := Int64.ofInt greatest
  if high < low then
    OptionT.lift (refuse (.emptyTable low.toInt high.toInt))
  let fallback ← OptionT.lift (label members "default")
  let targets ← OptionT.lift (labels members "targets")
  let count ← OptionT.mk (pure (keyCount low high))
  if targets.length ≠ count.toUInt64.toNat then
    OptionT.lift (refuse (.tableSize low.toInt high.toInt targets.length))
  return .tableSwitch low.toInt32 high.toInt32 fallback targets

/-- Reading with words loses nothing: all arithmetic succeeds, and reading ends as it does with exact integers. -/
def Computes {α : Type} (words : OptionT Read α) (read : Read α) : Prop := words.run = some <$> read

namespace Computes

variable {α β : Type}

theorem done (a : α) : Computes (pure a) (pure a) := rfl

theorem after {read : Read α} {next : α → OptionT Read β} {rest : α → Read β}
    (second : ∀ a, read = .ok a → Computes (next a) (rest a)) :
    Computes (OptionT.lift read >>= next) (read >>= rest) := by
  cases read with
  | ok a => exact second a rfl
  | error faults => rfl

theorem guarded {c d : Prop} [Decidable c] [Decidable d] {fault : ElementFault} {next : Unit → OptionT Read β}
    {rest : Unit → Read β} (same : c ↔ d) (second : ¬d → Computes (next ()) (rest ())) :
    Computes (if c then OptionT.lift (refuse fault) >>= next else next ())
      (if d then refuse fault >>= rest else rest ()) := by
  by_cases refuses : d
  · rw [if_pos refuses, if_pos (same.mpr refuses)]
    rfl
  · rw [if_neg refuses, if_neg (mt same.mp refuses)]
    exact second refuses

theorem word {word? : Option Int64} {word : Int64} {next : Int64 → OptionT Read β} {rest : Read β}
    (held : word? = some word) (second : Computes (next word) rest) :
    Computes (OptionT.mk (pure word?) >>= next) rest := by
  subst held
  exact second

end Computes

theorem ofInt_toInt_int32 (x : Int32) : Int64.ofInt x.toInt = x.toInt64 := by
  rw [← Int32.toInt_toInt64, Int64.ofInt_toInt]

theorem computes_tableSwitch (members : Members) : Computes (tableSwitch members) (Document.tableSwitch members) := by
  refine .after ?_
  rintro ⟨least, greatest⟩ bounds
  obtain ⟨first, last⟩ := both_eq_ok_iff.mp bounds
  obtain ⟨-, low, rfl⟩ := int32_eq_ok_iff.mp first
  obtain ⟨-, high, rfl⟩ := int32_eq_ok_iff.mp last
  obtain ⟨count, counted, total⟩ := exists_keyCount_eq low high
  simp only [ofInt_toInt_int32, Int32.toInt_toInt64, Int32.ofInt_toInt, Int32.toInt32_toInt64]
  -- Labels are read the same way in both. Words only enter the two comparisons and the count between them.
  refine .guarded ?_ fun inOrder => ?_
  · rw [Int64.lt_iff_toInt_lt, Int32.toInt_toInt64, Int32.toInt_toInt64]
  refine .after fun fallback _ => .after fun targets _ => .word counted (.guarded ?_ fun _ => .done _)
  -- A count of keys that are there is positive, and stays the same as an unsigned word.
  have positive : 0 ≤ count := by
    rw [Int64.le_iff_toInt_le, Int64.toInt_zero]
    omega
  rw [Int64.toNat_toUInt64_of_le positive]
  change targets.length ≠ count.toInt.toNat ↔ _
  omega

/-! ### Listing with words -/

/-- The arms of a table switch, with the next key in a word. The word is counted up behind the last arm, too. -/
def tableArms (m : Method) (key : Int64) : List Label → Option (List String)
  | [] => some []
  | target :: targets => do
    let next ← add? key 1
    let later ← tableArms m next targets
    return armLine m (toString key.toInt) target :: later

end Word

theorem tableArms_cons (m : Method) (low : Int) (target : Label) (targets : List Label) :
    tableArms m low (target :: targets) = armLine m (toString low) target :: tableArms m (low + 1) targets := by
  have shifted : ∀ i : Nat, low + ((i + 1 : Nat) : Int) = low + 1 + i := by omega
  simp only [tableArms, List.mapIdx_cons, shifted, Int.natCast_zero, Int.add_zero]

/-- A word that holds the key behind the last arm holds all keys before it. -/
theorem Word.tableArms_eq (m : Method) {key : Int64} {targets : List Label}
    (fits : Json.IsWord (key.toInt + targets.length)) :
    Word.tableArms m key targets = some (ProbePoints.tableArms m key.toInt targets) := by
  induction targets generalizing key with
  | nil => rfl
  | cons target targets ih =>
    obtain ⟨above, below⟩ := fits
    rw [List.length_cons] at above below
    have keyAbove := key.le_toInt
    obtain ⟨next, added, sum⟩ := exists_ofInt?_eq (n := key.toInt + 1) ⟨by omega, by omega⟩
    have counted : add? key 1 = some next := added
    have later : Word.tableArms m next targets = some (ProbePoints.tableArms m next.toInt targets) :=
      ih ⟨by omega, by omega⟩
    rw [Word.tableArms, counted, tableArms_cons, ← sum]
    simp [later]

/-! ### The keys between two bounds -/

/-- The integers from one bound to the other, each once and in ascending order. -/
structure Consecutive (low high : Int) (keys : List Int) : Prop where
  mem_iff : ∀ key, key ∈ keys ↔ low ≤ key ∧ key ≤ high
  ascending : keys.Pairwise (· < ·)

def tableKeys (low high : Int32) : List Int := Int.range low.toInt (high.toInt + 1)

theorem consecutive_tableKeys (low high : Int32) : Consecutive low.toInt high.toInt (tableKeys low high) where
  mem_iff key := by
    rw [tableKeys, Int.mem_range_iff]
    omega
  ascending := by
    refine List.pairwise_map.mpr (List.pairwise_lt_range.imp ?_)
    omega

theorem length_tableKeys {low high : Int32} {α : Type} {targets : List α} (fits : TableFits low high targets) :
    (tableKeys low high).length = targets.length := by
  obtain ⟨inOrder, counted⟩ := fits
  simp only [tableKeys, Int.range, List.length_map, List.length_range]
  omega

/-- One line for each key with its target. -/
def armTexts (keys : List Int) (names : List String) : List String :=
  List.zipWith (fun key name => "        " ++ toString key ++ ": " ++ name) keys names

theorem tableArms_eq_armTexts (m : Method) {low high : Int32} {targets : List Label}
    (fits : TableFits low high targets) :
    tableArms m low.toInt targets = armTexts (tableKeys low high) (targets.map m.displayName) := by
  have margins : margin ++ margin = "        " := by decide
  have same := length_tableKeys fits
  apply List.ext_getElem
  · simp [tableArms, armTexts, same]
  · intro i first second
    simp [tableArms, armTexts, armLine, margins, tableKeys, Int.range]

theorem Word.tableArms_of_fits (m : Method) {low high : Int32} {targets : List Label}
    (fits : TableFits low high targets) :
    Word.tableArms m low.toInt64 targets = some (armTexts (tableKeys low high) (targets.map m.displayName)) := by
  have above := low.le_toInt
  have below := high.toInt_lt
  -- The counter ends one behind the greatest key, which is no number of 32 bits any more if the switch goes to the top.
  have isWord : Json.IsWord (low.toInt64.toInt + targets.length) := by
    obtain ⟨inOrder, counted⟩ := fits
    rw [Int32.toInt_toInt64]
    exact ⟨by omega, by omega⟩
  rw [Word.tableArms_eq m isWord, Int32.toInt_toInt64, tableArms_eq_armTexts m fits]

theorem Node.lines_tableSwitch (m : Method) {low high : Int32} {fallback : Label} {targets : List Label}
    (fits : TableFits low high targets) :
    (Node.insn (.tableSwitch low high fallback targets)).lines m =
      "    TABLESWITCH" :: armTexts (tableKeys low high) (targets.map m.displayName) ++
        ["        default: " ++ m.displayName fallback] := by
  have title : margin ++ "TABLESWITCH" = "    TABLESWITCH" := by decide
  have last : margin ++ margin ++ "default" ++ ": " = "        default: " := by decide
  simp only [lines, Instruction.lines, armLine, tableArms_eq_armTexts m fits, title, last]

theorem Method.listing_around {m : Method} {before after : List (Node Label)} {node : Node Label}
    (split : m.nodes = before ++ node :: after) :
    m.listing = String.join ((("method " ++ m.name ++ m.descriptor) :: m.ranges.map (·.line m) ++
      before.flatMap (·.lines m) ++ node.lines m ++ after.flatMap (·.lines m)).map (· ++ "\n")) := by
  simp [listing, lines, split]

/-! ### The fields of a table switch -/

namespace Document

/-- The object has the fields of a table switch, whether or not they fit together. -/
structure HasTable (switch : Members) (low high : Int32) (fallback : String) (targets : List String) : Prop where
  least : switch.integer? "min" = some low.toInt
  greatest : switch.integer? "max" = some high.toInt
  fallback : HasLabel switch "default" fallback
  targets : HasLabels switch "targets" targets

variable {switch : Members} {low high : Int32} {fallback : String} {targets : List String}

theorem HasTable.tableSwitch_eq (fields : HasTable switch low high fallback targets) :
    tableSwitch switch =
      if high.toInt < low.toInt then refuse (.emptyTable low.toInt high.toInt)
      else if (targets.length : Int) ≠ high.toInt - low.toInt + 1 then
        refuse (.tableSize low.toInt high.toInt targets.length)
      else .ok (.tableSwitch low high fallback targets) := by
  have least := int32_eq_ok_iff.mpr ⟨fields.least, low, rfl⟩
  have greatest := int32_eq_ok_iff.mpr ⟨fields.greatest, high, rfl⟩
  unfold tableSwitch
  rw [both_eq_ok_iff.mpr ⟨least, greatest⟩, label_eq_ok_iff.mpr fields.fallback, labels_eq_ok_iff.mpr fields.targets]
  simp only [refuse, bind, Except.bind, pure, Except.pure, Int32.ofInt_toInt]

theorem exists_hasTable {instruction : Instruction String} (read : tableSwitch switch = .ok instruction) :
    ∃ low high fallback targets, instruction = .tableSwitch low high fallback targets ∧
      HasTable switch low high fallback targets ∧ TableFits low high targets := by
  obtain ⟨low, high, fallback, targets, same, least, greatest, default, listed, fits⟩ :=
    tableSwitch_eq_ok_iff.mp read
  exact ⟨low, high, fallback, targets, same, ⟨least, greatest, default, listed⟩, fits⟩

/-! ### Loaded methods -/

theorem split_of_forall₂ {α β : Type} {related : α → β → Prop} {front back : List α} {a : α} {found : List β}
    (pairs : List.Forall₂ related (front ++ a :: back) found) :
    ∃ before b after, found = before ++ b :: after ∧ before.length = front.length ∧ related a b := by
  induction front generalizing found with
  | nil =>
    obtain ⟨b, after, here, -, rfl⟩ := List.forall₂_cons_left_iff.mp pairs
    exact ⟨[], b, after, rfl, rfl, here⟩
  | cons first front ih =>
    obtain ⟨c, rest, -, later, rfl⟩ := List.forall₂_cons_left_iff.mp pairs
    obtain ⟨before, b, after, rfl, same, here⟩ := ih later
    exact ⟨c :: before, b, after, rfl, congrArg (· + 1) same, here⟩

theorem tableSwitch_of_spellsNode {node : Node String} (kind : switch.str? "kind" = some "tableswitch")
    (spelled : SpellsNode switch node) :
    ∃ instruction, tableSwitch switch = .ok instruction ∧ node = .insn instruction := by
  have named : text switch "kind" = .ok "tableswitch" := text_eq_ok_iff.mpr ⟨kind, by decide⟩
  have read := node_eq_ok_iff.mpr spelled
  unfold Document.node at read
  rw [named] at read
  obtain ⟨instruction, read, same⟩ := bind_pure_eq_ok_iff.mp read
  exact ⟨instruction, read, same.symm⟩

/-- The node at the place of a table switch is the one that was read there, with its labels numbered. -/
theorem exists_tableSwitch_node {document : Members} {m : Method} {front back : List Json}
    (loaded : Method.ofDocument document = .ok m)
    (listed : document.items? "instructions" = some (front ++ .obj switch :: back))
    (kind : switch.str? "kind" = some "tableswitch") :
    ∃ low high fallback targets before after number,
      tableSwitch switch = .ok (.tableSwitch low high fallback targets) ∧ before.length = front.length ∧
      m.nodes = before ++ .insn (.tableSwitch low high (number fallback) (targets.map number)) :: after ∧
      ∀ name ∈ fallback :: targets, m.displayName (number name) = name := by
  obtain ⟨body, spelled, rfl⟩ : ∃ body, SpellsBody document body ∧ body.number = m := by
    obtain ⟨spelled, numbered⟩ := Method.ofDocument_eq_ok_iff.mp loaded
    exact ⟨m.named, spelled, numbered.number_named⟩
  obtain ⟨values, same, nodes⟩ := spelled.nodes
  obtain rfl := Option.some.inj (listed.symm.trans same)
  obtain ⟨before, node, after, split, placed, members, object, here⟩ := split_of_forall₂ nodes
  obtain rfl := Json.obj.inj object
  obtain ⟨instruction, read, rfl⟩ := tableSwitch_of_spellsNode kind here
  obtain ⟨low, high, fallback, targets, rfl, -⟩ := exists_hasTable read
  have mentioned : ∀ name ∈ fallback :: targets, name ∈ body.labels := by
    intro name member
    have here : .insn (.tableSwitch low high fallback targets) ∈ body.nodes := by simp [split]
    exact List.mem_append_left _ (List.mem_flatMap.mpr ⟨_, here, member⟩)
  rw [Body.number_eq]
  refine ⟨low, high, fallback, targets, before.map (Node.relabel (labelIn body.labels.eraseDups)),
    after.map (Node.relabel (labelIn body.labels.eraseDups)), labelIn body.labels.eraseDups, read, ?_, ?_, ?_⟩
  · rw [List.length_map, placed]
  · simp [Body.relabel, split]
  · intro name member
    exact Method.displayName_labelIn (List.mem_eraseDups.mpr (mentioned name member))

/-! ### The whole way from a document to a listing -/

/-- Bounds, count and keys of a table switch are exact for every document. Words of 64 bits suffice to read it. It is
read exactly if its bounds are in order and it has as many targets as keys. The listing of a method that holds it shows
one line for each target in turn, with each key between the bounds once and in order, and then the fallback; the word
that counts the keys is never too small. In a loaded method the lines show the names of the document. -/
theorem tableSwitch_keys_exact :
    (∀ switch : Members, (Word.tableSwitch switch).run = some <$> tableSwitch switch) ∧
    (∀ switch low high fallback targets, HasTable switch low high fallback targets →
      (low.toInt ≤ high.toInt → (targets.length : Int) = high.toInt - low.toInt + 1 →
        tableSwitch switch = .ok (.tableSwitch low high fallback targets)) ∧
      (low.toInt ≤ high.toInt → (targets.length : Int) ≠ high.toInt - low.toInt + 1 →
        tableSwitch switch = refuse (.tableSize low.toInt high.toInt targets.length)) ∧
      (high.toInt < low.toInt → tableSwitch switch = refuse (.emptyTable low.toInt high.toInt))) ∧
    (∀ switch instruction, tableSwitch switch = .ok instruction →
      ∃ low high fallback targets count,
        instruction = .tableSwitch low high fallback targets ∧ HasTable switch low high fallback targets ∧
        Word.keyCount low.toInt64 high.toInt64 = some count ∧ count.toInt = high.toInt - low.toInt + 1 ∧
        1 ≤ count.toInt ∧ count.toInt ≤ 4294967296 ∧ (targets.length : Int) = count.toInt ∧
        Consecutive low.toInt high.toInt (tableKeys low high) ∧ (tableKeys low high).length = targets.length ∧
        ∀ (m : Method) (number : String → Label) (before after : List (Node Label)),
          m.nodes = before ++ .insn (.tableSwitch low high (number fallback) (targets.map number)) :: after →
          let arms := armTexts (tableKeys low high) (targets.map fun name => m.displayName (number name))
          Word.tableArms m low.toInt64 (targets.map number) = some arms ∧
          m.listing = String.join ((("method " ++ m.name ++ m.descriptor) :: m.ranges.map (·.line m) ++
            before.flatMap (·.lines m) ++
            ("    TABLESWITCH" :: arms ++ ["        default: " ++ m.displayName (number fallback)]) ++
            after.flatMap (·.lines m)).map (· ++ "\n"))) ∧
    ∀ (document switch : Members) (m : Method) (front back : List Json), Method.ofDocument document = .ok m →
      document.items? "instructions" = some (front ++ .obj switch :: back) →
      switch.str? "kind" = some "tableswitch" →
      ∃ low high fallback targets before after number,
        tableSwitch switch = .ok (.tableSwitch low high fallback targets) ∧ before.length = front.length ∧
        m.nodes = before ++ .insn (.tableSwitch low high (number fallback) (targets.map number)) :: after ∧
        ∀ name ∈ fallback :: targets, m.displayName (number name) = name := by
  refine ⟨Word.computes_tableSwitch, ?_, ?_, fun _ _ _ _ _ => exists_tableSwitch_node⟩
  · intro switch low high fallback targets fields
    rw [fields.tableSwitch_eq]
    refine ⟨fun inOrder counted => ?_, fun inOrder other => ?_, fun empty => if_pos empty⟩
    · rw [if_neg (by omega), if_neg (not_not.mpr counted)]
    · rw [if_neg (by omega), if_pos other]
  · intro switch instruction read
    obtain ⟨low, high, fallback, targets, rfl, fields, fits⟩ := exists_hasTable read
    obtain ⟨count, counted, total⟩ := Word.exists_keyCount_eq low high
    have lowAbove := low.le_toInt
    have highBelow := high.toInt_lt
    have ⟨inOrder, complete⟩ := fits
    refine ⟨low, high, fallback, targets, count, rfl, fields, counted, total, by omega, by omega, by omega,
      consecutive_tableKeys low high, length_tableKeys fits, ?_⟩
    intro m number before after split
    have numbered : TableFits low high (targets.map number) := by
      rwa [TableFits, List.length_map]
    have shown : (targets.map number).map m.displayName = targets.map fun name => m.displayName (number name) :=
      List.map_map
    refine ⟨?_, ?_⟩
    · rw [Word.tableArms_of_fits m numbered, shown]
    · rw [Method.listing_around split, Node.lines_tableSwitch m numbered, shown]

/-- A switch over the two greatest keys of 32 bits. -/
def greatestKeys : Members := [
  ("kind", .str "tableswitch"), ("min", .int 2147483646), ("max", .int 2147483647), ("default", .str "other"),
  ("targets", .arr [.str "first", .str "last"])]

/-- A switch over all keys of 32 bits that has no targets. A word of 32 bits would count its keys as none. -/
def allKeys : Members := [
  ("kind", .str "tableswitch"), ("min", .int (-2147483648)), ("max", .int 2147483647), ("default", .str "other"),
  ("targets", .arr [])]

theorem tableSwitch_keys_exact_extremes :
    (HasTable allKeys (-2147483648) 2147483647 "other" [] ∧
      tableSwitch allKeys = refuse (.tableSize (-2147483648) 2147483647 0)) ∧
    tableSwitch greatestKeys = .ok (.tableSwitch 2147483646 2147483647 "other" ["first", "last"]) ∧
    ∃ m, Method.ofDocument [("name", .str "m"), ("instructions", .arr [.obj greatestKeys])] = .ok m ∧
      m.listing = "method m\n    TABLESWITCH\n        2147483646: first\n        2147483647: last\n" ++
        "        default: other\n" := by
  have fields : HasTable allKeys (-2147483648) 2147483647 "other" [] :=
    ⟨rfl, rfl, ⟨rfl, by decide⟩, ⟨rfl, by simp⟩⟩
  have refused := (tableSwitch_keys_exact.2.1 _ _ _ _ _ fields).2.1 (by decide) (by decide)
  have read : tableSwitch greatestKeys = .ok (.tableSwitch 2147483646 2147483647 "other" ["first", "last"]) := by
    rfl
  have loaded : Method.ofDocument [("name", .str "m"), ("instructions", .arr [.obj greatestKeys])] =
      .ok { name := "m", descriptor := "", labels := ["other", "first", "last"],
            nodes := [.insn (.tableSwitch 2147483646 2147483647 ⟨0⟩ [⟨1⟩, ⟨2⟩])] } := by
    rfl
  obtain ⟨low, high, fallback, targets, before, after, number, again, placed, split, named⟩ :=
    tableSwitch_keys_exact.2.2.2 _ greatestKeys _ [] [] loaded rfl rfl
  obtain ⟨rfl, rfl, rfl, rfl⟩ := Instruction.tableSwitch.inj (Except.ok.inj (read.symm.trans again))
  obtain rfl : before = [] := List.length_eq_zero_iff.mp placed
  obtain rfl : after = [] := (List.cons.inj split).2.symm
  obtain ⟨low, high, fallback, targets, count, same, -, -, -, -, -, -, -, -, shown⟩ :=
    tableSwitch_keys_exact.2.2.1 _ _ read
  obtain ⟨rfl, rfl, rfl, rfl⟩ := Instruction.tableSwitch.inj same
  obtain ⟨-, listed⟩ := shown _ number [] [] split
  simp only [List.forall_mem_cons] at named
  refine ⟨⟨fields, refused⟩, read, _, loaded, listed.trans ?_⟩
  simp only [List.map_cons, List.map_nil, named]
  decide +kernel

end Document

end ProbePoints
