import Mathlib.Data.List.Forall2
import ProbePoints.Json.Reader
import ProbePoints.Report.Text

/-!
# What the JSON text of a report tells

Two reports have one JSON text exactly if they agree in everything that is meant to be shown. The text of a value is
read from the left: `Separable` says that two texts can be told apart before anything that follows them is looked at,
and it passes from strings and numbers to lists of elements and to whole values. Numbers are the only texts that need
to know where they end.
-/

namespace ProbePoints

namespace Json

/-! ### Strings -/

/-- Takes the text of one character of a string off a text. -/
def unescape : List Char → Option (Char × List Char)
  | '\\' :: 't' :: rest => some ('\t', rest)
  | '\\' :: 'n' :: rest => some ('\n', rest)
  | '\\' :: 'r' :: rest => some ('\r', rest)
  | '\\' :: 'u' :: _ :: _ :: high :: low :: rest =>
    some (Char.ofNat (16 * (hexDigit? high).getD 0 + (hexDigit? low).getD 0), rest)
  | '\\' :: c :: rest => some (c, rest)
  | c :: rest => some (c, rest)
  | [] => none

theorem hexDigits_value : ∀ n < 32, 16 * (hexDigit? (Nat.digitChar (n / 16))).getD 0 +
    (hexDigit? (Nat.digitChar (n % 16))).getD 0 = n := by
  decide

theorem unescape_escape (c : Char) (rest : List Char) : unescape (escape c ++ rest) = some (c, rest) := by
  unfold escape
  split_ifs with isQuote isBackslash isTab isFeed isReturn control
  · rw [isQuote]; rfl
  · rw [isBackslash]; rfl
  · rw [isTab]; rfl
  · rw [isFeed]; rfl
  · rw [isReturn]; rfl
  · simp [unescape, hexDigits_value _ control]
  · simp [unescape, isBackslash]

/-- No character is written in a way that could be taken for the end of the string. -/
theorem escape_append_ne (c : Char) (s t : List Char) : escape c ++ s ≠ '"' :: t := by
  unfold escape
  split_ifs <;> simp [*]

theorem escapes_append_inj {a b s t : List Char}
    (same : a.flatMap escape ++ '"' :: s = b.flatMap escape ++ '"' :: t) : a = b ∧ s = t := by
  induction a generalizing b with
  | nil =>
    cases b with
    | nil => exact ⟨rfl, (List.cons.inj same).2⟩
    | cons d others =>
      rw [List.flatMap_cons, List.append_assoc] at same
      exact (escape_append_ne _ _ _ same.symm).elim
  | cons c rest ih =>
    cases b with
    | nil =>
      rw [List.flatMap_cons, List.append_assoc] at same
      exact (escape_append_ne _ _ _ same).elim
    | cons d others =>
      simp only [List.flatMap_cons, List.append_assoc] at same
      have read := congrArg unescape same
      rw [unescape_escape, unescape_escape, Option.some.injEq, Prod.mk.injEq] at read
      obtain ⟨rfl, later⟩ := read
      obtain ⟨rfl, rfl⟩ := ih later
      exact ⟨rfl, rfl⟩

theorem quote_append_inj {a b : String} {s t : List Char} (same : (quote a).toList ++ s = (quote b).toList ++ t) :
    a = b ∧ s = t := by
  simp only [quote, String.toList_ofList, List.cons_append, List.append_assoc, List.nil_append] at same
  obtain ⟨texts, rests⟩ := escapes_append_inj (List.cons.inj same).2
  exact ⟨String.toList_inj.mp texts, rests⟩

/-! ### Numbers -/

/-- The text does not start with a digit, so it cannot be taken for the rest of a number. -/
def EndsNumber (text : List Char) : Prop := ∀ c ∈ text.head?, c.isDigit = false

theorem endsNumber_nil : EndsNumber [] := by
  rintro c ⟨⟩

theorem takeWhile_isDigit {digits text : List Char} (all : ∀ c ∈ digits, c.isDigit = true) (ends : EndsNumber text) :
    (digits ++ text).takeWhile Char.isDigit = digits := by
  rw [List.takeWhile_append_of_pos all]
  cases text with
  | nil => simp
  | cons c rest => simp [ends c rfl]

theorem isDigit_of_mem_toDigits {n : Nat} {c : Char} (member : c ∈ Nat.toDigits 10 n) : c.isDigit = true :=
  Nat.isDigit_of_mem_toDigits (by decide) (by decide) member

theorem exists_toDigits_eq_cons (n : Nat) : ∃ c rest, Nat.toDigits 10 n = c :: rest ∧ c.isDigit = true := by
  obtain ⟨c, rest, found⟩ := List.exists_cons_of_ne_nil (Nat.toDigits_ne_nil (n := n) (b := 10))
  exact ⟨c, rest, found, isDigit_of_mem_toDigits (n := n) (by simp [found])⟩

theorem digits_append_inj {m n : Nat} {s t : List Char} (ends : EndsNumber s) (otherEnds : EndsNumber t)
    (same : Nat.toDigits 10 m ++ s = Nat.toDigits 10 n ++ t) : m = n ∧ s = t := by
  have read : ∀ (k : Nat) {text : List Char}, EndsNumber text →
      Nat.ofDigitChars 10 ((Nat.toDigits 10 k ++ text).takeWhile Char.isDigit) 0 = k := by
    intro k text ends
    rw [takeWhile_isDigit (fun c => isDigit_of_mem_toDigits) ends]
    exact Nat.ofDigitChars_toDigits (by decide) (by decide)
  obtain rfl : m = n := by rw [← read m ends, same, read n otherEnds]
  exact ⟨rfl, List.append_cancel_left same⟩

theorem digits_append_ne_minus (n : Nat) (s t : List Char) : Nat.toDigits 10 n ++ s ≠ '-' :: t := by
  intro same
  obtain ⟨c, rest, found, digit⟩ := exists_toDigits_eq_cons n
  rw [found] at same
  obtain rfl := (List.cons.inj same).1
  cases digit

theorem toList_ofNat (n : Nat) : (toString (Int.ofNat n)).toList = Nat.toDigits 10 n := Nat.toList_repr

theorem toList_negSucc (n : Nat) : (toString (Int.negSucc n)).toList = '-' :: Nat.toDigits 10 (n + 1) := by
  show ("-" ++ (n + 1).repr).toList = _
  rw [String.toList_append, Nat.toList_repr]
  rfl

theorem int_append_inj {m n : Int} {s t : List Char} (ends : EndsNumber s) (otherEnds : EndsNumber t)
    (same : (toString m).toList ++ s = (toString n).toList ++ t) : m = n ∧ s = t := by
  cases m with
  | ofNat a =>
    cases n with
    | ofNat b =>
      rw [toList_ofNat, toList_ofNat] at same
      obtain ⟨rfl, rests⟩ := digits_append_inj ends otherEnds same
      exact ⟨rfl, rests⟩
    | negSucc b =>
      rw [toList_ofNat, toList_negSucc] at same
      exact (digits_append_ne_minus a s _ same).elim
  | negSucc a =>
    cases n with
    | ofNat b =>
      rw [toList_negSucc, toList_ofNat] at same
      exact (digits_append_ne_minus b t _ same.symm).elim
    | negSucc b =>
      rw [toList_negSucc, toList_negSucc] at same
      obtain ⟨pred, rests⟩ := digits_append_inj ends otherEnds (List.cons.inj same).2
      obtain rfl : a = b := by omega
      exact ⟨rfl, rests⟩

/-! ### Lists of elements -/

theorem toList_newline (depth : Nat) : (newline depth).toList = '\n' :: List.replicate (2 * depth) ' ' := by
  simp [newline]

theorem intercalate_cons {β : Type} (separator first : List β) (others : List (List β)) :
    separator.intercalate (first :: others) = first ++ others.flatMap (separator ++ ·) := by
  induction others generalizing first with
  | nil => simp
  | cons second others ih => simp [ih]

/-- Two values whose texts are told apart whatever follows them, as long as it does not go on a number. -/
def Separable {α : Type} (text : α → String) (a b : α) : Prop :=
  ∀ s t, EndsNumber s → EndsNumber t → (text a).toList ++ s = (text b).toList ++ t → a = b ∧ s = t

section Elements

variable {α : Type} {text : α → String} {depth : Nat} {left right : String} {close : Char}

/-- The text of the elements behind the first. -/
def laterLines (depth : Nat) (text : α → String) (items : List α) : List Char :=
  items.flatMap fun item => ',' :: (newline depth).toList ++ (text item).toList

theorem endsNumber_laterLines (depth : Nat) (items : List α) (s : List Char) :
    EndsNumber (laterLines depth text items ++ '\n' :: s) := by
  cases items with
  | nil => rintro c ⟨⟩; rfl
  | cons item rest => rintro c ⟨⟩; rfl

-- A comma announces one more element and a line break the end, so both lists run out together.
theorem laterLines_append_inj {items others : List α} {s t : List Char}
    (each : ∀ a ∈ items, ∀ b ∈ others, Separable text a b)
    (same : laterLines depth text items ++ '\n' :: s = laterLines depth text others ++ '\n' :: t) :
    items = others ∧ s = t := by
  induction items generalizing others with
  | nil =>
    cases others with
    | nil => exact ⟨rfl, (List.cons.inj same).2⟩
    | cons b bs => cases (List.cons.inj same).1
  | cons a as ih =>
    cases others with
    | nil => cases (List.cons.inj same).1
    | cons b bs =>
      simp only [laterLines, List.flatMap_cons, List.cons_append, List.append_assoc] at same
      have texts := List.append_cancel_left (List.cons.inj same).2
      obtain ⟨rfl, later⟩ := each a (by simp) b (by simp) _ _ (endsNumber_laterLines depth as s)
        (endsNumber_laterLines depth bs t) texts
      obtain ⟨rfl, rests⟩ := ih (fun a old b new => each a (by simp [old]) b (by simp [new])) later
      exact ⟨rfl, rests⟩

theorem toList_bracketed_cons (depth : Nat) (left right : String) (first : α) (others : List α) :
    (bracketed depth left right ((first :: others).map text)).toList =
      left.toList ++ ((newline (depth + 1)).toList ++ ((text first).toList ++
        (laterLines (depth + 1) text others ++ ((newline depth).toList ++ right.toList)))) := by
  simp [bracketed, intercalate_cons, laterLines, List.flatMap_map]

theorem bracketed_nil_ne_cons (closes : right.toList = [close]) (notBreak : close ≠ '\n') (first : α)
    (others : List α) (s t : List Char) :
    (bracketed depth left right []).toList ++ s ≠
      (bracketed depth left right ((first :: others).map text)).toList ++ t := by
  intro same
  have empty : (bracketed depth left right []).toList = left.toList ++ [close] := by simp [bracketed, closes]
  simp only [empty, toList_bracketed_cons, toList_newline, List.append_assoc] at same
  exact notBreak (List.cons.inj (List.append_cancel_left same)).1

theorem bracketed_append_inj {items others : List α} {s t : List Char} (closes : right.toList = [close])
    (notBreak : close ≠ '\n') (each : ∀ a ∈ items, ∀ b ∈ others, Separable text a b)
    (same : (bracketed depth left right (items.map text)).toList ++ s =
      (bracketed depth left right (others.map text)).toList ++ t) : items = others ∧ s = t := by
  cases items with
  | nil =>
    cases others with
    | nil => exact ⟨rfl, List.append_cancel_left same⟩
    | cons b bs => exact (bracketed_nil_ne_cons closes notBreak b bs s t same).elim
  | cons a as =>
    cases others with
    | nil => exact (bracketed_nil_ne_cons closes notBreak a as t s same.symm).elim
    | cons b bs =>
      simp only [toList_bracketed_cons, toList_newline depth, closes, List.append_assoc, List.cons_append] at same
      have texts := List.append_cancel_left (List.append_cancel_left same)
      obtain ⟨rfl, later⟩ := each a (by simp) b (by simp) _ _ (endsNumber_laterLines _ _ _)
        (endsNumber_laterLines _ _ _) texts
      obtain ⟨rfl, blanks⟩ :=
        laterLines_append_inj (fun a old b new => each a (by simp [old]) b (by simp [new])) later
      exact ⟨rfl, (List.cons.inj (List.append_cancel_left blanks)).2⟩

end Elements

/-! ### Values -/

/-- All numbers inside the value are integers. -/
inductive Integral : Json → Prop where
  | null : Integral .null
  | bool (value : Bool) : Integral (.bool value)
  | int (value : Int) : Integral (.int value)
  | str (value : String) : Integral (.str value)
  | arr {items : List Json} (each : ∀ item ∈ items, Integral item) : Integral (.arr items)
  | obj {members : Members} (each : ∀ member ∈ members, Integral member.2) : Integral (.obj members)

attribute [simp] Integral.null Integral.bool Integral.int Integral.str

@[simp]
theorem integral_arr_iff {items : List Json} : (Json.arr items).Integral ↔ ∀ item ∈ items, item.Integral := by
  constructor
  · intro integral
    cases integral with
    | arr each => exact each
  · exact .arr

@[simp]
theorem integral_obj_iff {members : Members} :
    (Json.obj members).Integral ↔ ∀ member ∈ members, member.2.Integral := by
  constructor
  · intro integral
    cases integral with
    | obj each => exact each
  · exact .obj

def memberText (depth : Nat) (member : String × Json) : String := quote member.1 ++ ": " ++ indentedAt depth member.2

theorem indentedItems_eq_map (depth : Nat) (items : List Json) :
    indentedItems depth items = items.map (indentedAt depth) := by
  induction items with
  | nil => rfl
  | cons item rest ih => rw [indentedItems, ih, List.map_cons]

theorem indentedMembers_eq_map (depth : Nat) (members : Members) :
    indentedMembers depth members = members.map (memberText depth) := by
  induction members with
  | nil => rfl
  | cons member rest ih => rw [indentedMembers, ih, List.map_cons, memberText]

/-- What the first character of a text tells about the value. -/
inductive Kind where
  | null
  | bool (value : Bool)
  | number
  | string
  | array
  | object

def kind : Json → Kind
  | .null => .null
  | .bool value => .bool value
  | .int _ | .real _ => .number
  | .str _ => .string
  | .arr _ => .array
  | .obj _ => .object

/-- The kind of the values whose text starts with a character. -/
def Kind.ofHead (c : Char) : Kind :=
  if c = 'n' then .null
  else if c = 't' then .bool true
  else if c = 'f' then .bool false
  else if c = '"' then .string
  else if c = '[' then .array
  else if c = '\x7b' then .object
  else .number

theorem ofHead_of_isDigit {c : Char} (digit : c.isDigit = true) : Kind.ofHead c = .number := by
  have other : ∀ d : Char, d.isDigit = false → c ≠ d := by
    rintro d noDigit rfl
    rw [digit] at noDigit
    cases noDigit
  simp only [Kind.ofHead, other 'n' rfl, other 't' rfl, other 'f' rfl, other '"' rfl, other '[' rfl,
    other '\x7b' rfl, if_false]

theorem head?_int (n : Int) : (toString n).toList.head?.map Kind.ofHead = some .number := by
  cases n with
  | ofNat n =>
    obtain ⟨c, rest, found, digit⟩ := exists_toDigits_eq_cons n
    rw [toList_ofNat, found, List.head?_cons, Option.map_some, ofHead_of_isDigit digit]
  | negSucc n =>
    rw [toList_negSucc]
    rfl

theorem head?_bracketed (depth : Nat) {left : String} {c : Char} (opens : left.toList = [c]) (right : String)
    (elements : List String) : (bracketed depth left right elements).toList.head? = some c := by
  unfold bracketed
  split <;> simp [opens]

theorem head?_indentedAt {value : Json} (integral : value.Integral) (depth : Nat) :
    (indentedAt depth value).toList.head?.map Kind.ofHead = some value.kind := by
  cases integral with
  | null => rw [indentedAt]; rfl
  | bool value => rw [indentedAt]; cases value <;> rfl
  | int value => rw [indentedAt, head?_int]; rfl
  | str value => rw [indentedAt, quote, String.toList_ofList]; rfl
  | arr each => rw [indentedAt, head?_bracketed depth (c := '[') rfl]; rfl
  | obj each => rw [indentedAt, head?_bracketed depth (c := '\x7b') rfl]; rfl

/-- Values of different kinds are told apart by the first character of their texts. -/
theorem separable_of_kind {v w : Json} (integral : v.Integral) (otherIntegral : w.Integral) {depth : Nat}
    (alike : v.kind = w.kind → Separable (indentedAt depth) v w) : Separable (indentedAt depth) v w := by
  intro s t ends otherEnds same
  obtain ⟨c, head, found⟩ := Option.map_eq_some_iff.mp (head?_indentedAt integral depth)
  obtain ⟨d, otherHead, otherFound⟩ := Option.map_eq_some_iff.mp (head?_indentedAt otherIntegral depth)
  have heads := congrArg List.head? same
  rw [List.head?_append, List.head?_append, head, otherHead] at heads
  obtain rfl : c = d := Option.some.inj heads
  exact alike (found.symm.trans otherFound) s t ends otherEnds same

theorem memberText_separable {depth : Nat} {a b : String × Json} (values : Separable (indentedAt depth) a.2 b.2) :
    Separable (memberText depth) a b := by
  intro s t ends otherEnds same
  simp only [memberText, String.toList_append, List.append_assoc] at same
  obtain ⟨keys, behind⟩ := quote_append_inj same
  obtain ⟨found, rests⟩ := values s t ends otherEnds (List.append_cancel_left behind)
  exact ⟨Prod.ext keys found, rests⟩

theorem indentedAt_separable {v w : Json} (integral : v.Integral) (otherIntegral : w.Integral) (depth : Nat) :
    Separable (indentedAt depth) v w := by
  -- The induction is on the first value; in each case the kinds leave one case of the second.
  induction integral generalizing w depth with
  | null =>
    refine separable_of_kind .null otherIntegral fun kinds => ?_
    cases otherIntegral with
    | null => exact fun s t _ _ same => ⟨rfl, List.append_cancel_left same⟩
    | _ => cases kinds
  | bool value =>
    refine separable_of_kind (.bool value) otherIntegral fun kinds => ?_
    cases otherIntegral with
    | bool other =>
      cases kinds
      exact fun s t _ _ same => ⟨rfl, List.append_cancel_left same⟩
    | _ => cases kinds
  | int value =>
    refine separable_of_kind (.int value) otherIntegral fun kinds => ?_
    cases otherIntegral with
    | int other =>
      intro s t ends otherEnds same
      rw [indentedAt, indentedAt] at same
      obtain ⟨rfl, rests⟩ := int_append_inj ends otherEnds same
      exact ⟨rfl, rests⟩
    | _ => cases kinds
  | str value =>
    refine separable_of_kind (.str value) otherIntegral fun kinds => ?_
    cases otherIntegral with
    | str other =>
      intro s t ends otherEnds same
      rw [indentedAt, indentedAt] at same
      obtain ⟨rfl, rests⟩ := quote_append_inj same
      exact ⟨rfl, rests⟩
    | _ => cases kinds
  | arr each ih =>
    refine separable_of_kind (.arr each) otherIntegral fun kinds => ?_
    cases otherIntegral with
    | arr otherEach =>
      intro s t ends otherEnds same
      rw [indentedAt, indentedAt, indentedItems_eq_map, indentedItems_eq_map] at same
      obtain ⟨rfl, rests⟩ := bracketed_append_inj rfl (by decide)
        (fun a old b new => ih a old (otherEach b new) (depth + 1)) same
      exact ⟨rfl, rests⟩
    | _ => cases kinds
  | obj each ih =>
    refine separable_of_kind (.obj each) otherIntegral fun kinds => ?_
    cases otherIntegral with
    | obj otherEach =>
      intro s t ends otherEnds same
      rw [indentedAt, indentedAt, indentedMembers_eq_map, indentedMembers_eq_map] at same
      obtain ⟨rfl, rests⟩ := bracketed_append_inj rfl (by decide)
        (fun a old b new => memberText_separable (ih a old (otherEach b new) (depth + 1))) same
      exact ⟨rfl, rests⟩
    | _ => cases kinds

theorem indented_inj {v w : Json} (integral : v.Integral) (otherIntegral : w.Integral) :
    v.indented = w.indented ↔ v = w := by
  constructor
  · intro same
    have texts : (indentedAt 0 v).toList ++ [] = (indentedAt 0 w).toList ++ [] := congrArg (·.toList ++ []) same
    exact (indentedAt_separable integral otherIntegral 0 [] [] endsNumber_nil endsNumber_nil texts).1
  · rintro rfl
    rfl

end Json

/-! ### Labels, methods and reports -/

theorem map_eq_map_iff_forall₂ {α β : Type} {f : α → β} {R : α → α → Prop} (each : ∀ a b, f a = f b ↔ R a b)
    (as bs : List α) : as.map f = bs.map f ↔ List.Forall₂ R as bs := by
  rw [← List.forall₂_eq_eq_eq, List.forall₂_map_left_iff, List.forall₂_map_right_iff]
  simp only [each]

theorem lineJson_inj (a b : Option UInt32) : lineJson a = lineJson b ↔ a = b := by
  cases a with
  | none => cases b <;> simp [lineJson]
  | some line =>
    cases b with
    | none => simp [lineJson]
    | some other =>
      rw [lineJson, lineJson, Json.int.injEq, Int.natCast_inj, UInt32.toNat_inj, Option.some.injEq]

namespace LabelEntry

/-- Two labels that are shown the same way. Whether a label is counted is not shown. -/
@[mk_iff]
structure Alike (a b : LabelEntry) : Prop where
  name : a.name = b.name
  target : a.marks.target = b.marks.target
  multiTarget : a.marks.multiTarget = b.marks.multiTarget
  successor : a.marks.successor = b.marks.successor
  callLine : a.marks.callLine = b.marks.callLine
  probeDue : a.probeDue = b.probeDue

theorem toJson_eq_iff (a b : LabelEntry) : a.toJson = b.toJson ↔ a.Alike b := by
  simp [toJson, alike_iff, lineJson_inj]

theorem integral_toJson (entry : LabelEntry) : entry.toJson.Integral := by
  cases line : entry.marks.callLine <;> simp [toJson, lineJson, line]

theorem countP_probeDue_eq {as bs : List LabelEntry} (alike : List.Forall₂ Alike as bs) :
    as.countP (·.probeDue) = bs.countP (·.probeDue) := by
  induction alike with
  | nil => rfl
  | cons same _ ih => rw [List.countP_cons, List.countP_cons, ih, same.probeDue]

end LabelEntry

namespace MethodEntry

/-- Two methods that are shown the same way. Only a method that was analyzed shows its labels. -/
@[mk_iff]
structure Alike (a b : MethodEntry) : Prop where
  name : a.name = b.name
  descriptor : a.descriptor = b.descriptor
  verdict : a.verdict = b.verdict
  labels : a.verdict = .analyzed → List.Forall₂ LabelEntry.Alike a.labels b.labels

theorem findings_eq_iff {a b : MethodEntry} (analyzed : a.verdict = .analyzed) (otherAnalyzed : b.verdict = .analyzed) :
    a.findings = b.findings ↔ List.Forall₂ LabelEntry.Alike a.labels b.labels := by
  have labels := map_eq_map_iff_forall₂ LabelEntry.toJson_eq_iff a.labels b.labels
  simp only [findings, analyzed, otherAnalyzed, Verdict.error?]
  constructor
  · intro same
    simp only [List.cons.injEq, Prod.mk.injEq, Json.arr.injEq, labels] at same
    exact same.2.1.2
  · intro alike
    rw [probes, probes, LabelEntry.countP_probeDue_eq alike, labels.mpr alike]

theorem toJson_eq_iff (a b : MethodEntry) : a.toJson = b.toJson ↔ a.Alike b := by
  cases verdict : a.verdict <;> cases otherVerdict : b.verdict
  case analyzed.analyzed => simp [toJson, alike_iff, findings_eq_iff verdict otherVerdict, verdict, otherVerdict]
  all_goals simp [toJson, alike_iff, findings, Verdict.error?, Verdict.name, verdict, otherVerdict]

theorem integral_toJson (entry : MethodEntry) : entry.toJson.Integral := by
  cases verdict : entry.verdict <;>
    simp [toJson, findings, Verdict.error?, verdict, LabelEntry.integral_toJson]

end MethodEntry

namespace Report

/-- Two reports that are shown the same way: the same class with methods that are shown the same way in turn. -/
@[mk_iff]
structure Alike (a b : Report) : Prop where
  name : a.name = b.name
  methods : List.Forall₂ MethodEntry.Alike a.methods b.methods

theorem toJson_eq_iff (a b : Report) : a.toJson = b.toJson ↔ a.Alike b := by
  simp [toJson, alike_iff, map_eq_map_iff_forall₂ MethodEntry.toJson_eq_iff]

theorem integral_toJson (report : Report) : report.toJson.Integral := by
  simp [toJson, MethodEntry.integral_toJson]

/-- The JSON text of a report shows all of it that is to be shown, and nothing else: two reports have the same text
exactly if they are alike. -/
theorem jsonText_eq_iff_alike (a b : Report) : a.jsonText = b.jsonText ↔ a.Alike b := by
  rw [jsonText, jsonText, String.append_left_inj, Json.indented_inj a.integral_toJson b.integral_toJson,
    toJson_eq_iff]

end Report

end ProbePoints
