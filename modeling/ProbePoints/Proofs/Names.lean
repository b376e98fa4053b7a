import Mathlib.Data.List.Nodup
import ProbePoints.Proofs.Image
import ProbePoints.Settling

/-!
# Names of labels

The labels of a method that was read have distinct display names, and they keep them however often the method is
normalized. Generated names spell the number of their label behind a mark that no name in a document starts with. A run
of normalization names its labels as `freshLabel` would have named them one by one (`labels_normalize`).
-/

namespace ProbePoints

open Document
open Json (Members)

/-! ### Generated names -/

theorem Label.head?_generatedName (label : Label) :
    label.generatedName.toList.head? = some Label.generatedMark := by
  unfold Label.generatedName
  rw [String.toList_append]
  rfl

theorem Label.generatedName_inj {a b : Label} (same : a.generatedName = b.generatedName) : a = b := by
  have digits : Nat.toDigits 10 a.id = Nat.toDigits 10 b.id := by
    rw [← Nat.toList_repr, ← Nat.toList_repr]
    exact congrArg String.toList ((String.append_right_inj _).mp same)
  have read : ∀ n, Nat.ofDigitChars 10 (Nat.toDigits 10 n) 0 = n :=
    fun n => Nat.ofDigitChars_toDigits (by decide) (by decide)
  have ids : a.id = b.id := by rw [← read a.id, digits, read b.id]
  exact congrArg Label.mk ids

theorem Document.PlainName.ne_generatedName {name : String} (plain : PlainName name) (label : Label) :
    label.generatedName ≠ name := by
  rintro rfl
  exact plain.2 label.head?_generatedName

/-! ### Labels that settling adds -/

/-- New labels are numbered in stream order, also where a line mark gets stuck. -/
theorem map_snd_settle (placed : List Label) (next : Nat) (pending : Option (LineMark Label))
    (nodes : List (Node Label)) :
    (settle placed next pending nodes).moves.map Prod.snd =
      (List.range' next (settle placed next pending nodes).moves.length).map Label.mk := by
  fun_induction settle placed next pending nodes with
  | case1 placed next => rfl
  | case2 placed next mark rest ih => exact ih
  | case3 placed next node rest notLine ih => exact ih
  | case4 placed next mark => rfl
  | case5 placed next mark later rest ih => exact ih
  | case6 placed next mark shape rest stands fresh ih =>
    simp only [Settled.precede, Settled.prepend, List.map_cons, List.length_cons, List.range'_succ, ih]
    rfl
  | case7 placed next mark shape rest missing => rfl
  | case8 placed next mark node rest notLine notFrame ih => exact ih

namespace Method

/-- The later method has the labels of the first, and behind them generated ones with their own names. -/
def Grown (m later : Method) : Prop :=
  ∃ count, later.labels = m.labels ++ (List.range' m.numLabels count).map fun id => Label.generatedName ⟨id⟩

theorem Grown.refl (m : Method) : m.Grown m := ⟨0, by simp⟩

theorem Grown.trans {m middle later : Method} (first : m.Grown middle) (second : middle.Grown later) :
    m.Grown later := by
  obtain ⟨some, added⟩ := first
  obtain ⟨more, addedThen⟩ := second
  have counted : middle.numLabels = m.numLabels + some := by simp [numLabels, added]
  refine ⟨some + more, ?_⟩
  rw [addedThen, counted, added, List.append_assoc, ← List.map_append, List.range'_append_1]

/-- The method after it handed out some generated labels, one after the other. -/
def withFresh (m : Method) : Nat → Method
  | 0 => m
  | count + 1 => ((m.withFresh count).freshLabel "").2

theorem labels_withFresh (m : Method) (count : Nat) :
    (m.withFresh count).labels =
      m.labels ++ (List.range' m.numLabels count).map fun id => Label.generatedName ⟨id⟩ := by
  induction count with
  | zero => simp [withFresh]
  | succ count ih =>
    have next : (m.withFresh count).numLabels = m.numLabels + count := by simp [numLabels, ih]
    rw [withFresh, freshLabel, nextLabel, next]
    simp [ih, List.range'_concat]

/-- A run of normalization names its new labels as if each had been handed out at its move, whether it succeeds or
fails. -/
theorem labels_normalize (m : Method) : m.normalize.method.labels = (m.withFresh m.settled.moves.length).labels := by
  have labels : m.normalize.method.labels = m.labels ++ (m.settled.moves.map Prod.snd).map Label.generatedName := by
    simp only [normalize]
    split <;> rfl
  rw [labels, labels_withFresh, settled, map_snd_settle, List.map_map]
  rfl

theorem grown_normalize (m : Method) : m.Grown m.normalize.method :=
  ⟨m.settled.moves.length, m.labels_normalize.trans (m.labels_withFresh _)⟩

/-- The method after some runs of normalization. Each takes what the one before has left behind, also if that failed. -/
def afterRuns (m : Method) : Nat → Method
  | 0 => m
  | runs + 1 => (m.afterRuns runs).normalize.method

theorem grown_afterRuns (m : Method) (runs : Nat) : m.Grown (m.afterRuns runs) := by
  induction runs with
  | zero => exact .refl m
  | succ runs ih => exact ih.trans (m.afterRuns runs).grown_normalize

/-! ### Display names -/

theorem displayName_inj {m : Method} (distinct : m.labels.Nodup) {a b : Label} (first : a.id < m.numLabels)
    (second : b.id < m.numLabels) (same : m.displayName a = m.displayName b) : a = b := by
  rw [displayName_of_lt first, displayName_of_lt second] at same
  exact congrArg Label.mk ((List.Nodup.getElem_inj_iff distinct).mp same)

theorem Grown.distinct {m later : Method} (grown : m.Grown later) (distinct : m.labels.Nodup)
    (plain : ∀ name ∈ m.labels, PlainName name) : later.labels.Nodup := by
  obtain ⟨count, added⟩ := grown
  rw [added]
  refine List.nodup_append.mpr ⟨distinct, ?_, ?_⟩
  · exact (List.nodup_range' 1).map fun _ _ same => congrArg Label.id (Label.generatedName_inj same)
  · intro old loaded new generated
    obtain ⟨id, -, rfl⟩ := List.mem_map.mp generated
    exact ((plain old loaded).ne_generatedName ⟨id⟩).symm

theorem Grown.displayName_old {m later : Method} (grown : m.Grown later) {label : Label}
    (old : label.id < m.numLabels) : later.displayName label = m.displayName label := by
  obtain ⟨count, added⟩ := grown
  exact displayName_of_append added old

theorem Grown.displayName_new {m later : Method} (grown : m.Grown later) {label : Label}
    (new : m.numLabels ≤ label.id) (bound : label.id < later.numLabels) :
    later.displayName label = label.generatedName := by
  obtain ⟨count, added⟩ := grown
  have inside : label.id - m.numLabels < count := by
    simp only [numLabels, added, List.length_append, List.length_map, List.length_range'] at new bound ⊢
    omega
  unfold displayName
  rw [added, List.getD_append_right _ _ _ _ new, List.getD_eq_getElem _ _ (by simpa [numLabels] using inside)]
  simp only [List.getElem_map, List.getElem_range', Nat.one_mul]
  exact congrArg (fun id => Label.generatedName ⟨id⟩) (Nat.add_sub_of_le new)

end Method

/-! ### Classes -/

namespace ClassUnit

theorem read_of_mem {members : Members} {unit : ClassUnit} (read : ofDocument members = .ok unit) {m : Method}
    (member : m ∈ unit.methods) :
    ∃ values object, members.items? "methods" = some values ∧ .obj object ∈ values ∧
      Method.ofDocument object = .ok m := by
  unfold ofDocument at read
  cases entries : members.items? "methods" with
  | none => simp [entries] at read
  | some values =>
    simp only [entries] at read
    obtain ⟨methods, found, same⟩ := bind_pure_eq_ok_iff.mp read
    subst same
    obtain ⟨value, there, here⟩ := exists_of_forall₂ (mapM_eq_ok_iff.mp found) member
    cases value with
    | obj object => exact ⟨values, object, rfl, there, here⟩
    | _ => cases here

/-- A method of the class document gives this name to a label. -/
def NamesLabel (members : Members) (name : String) : Prop :=
  ∃ values object body, members.items? "methods" = some values ∧ .obj object ∈ values ∧ SpellsBody object body ∧
    name ∈ body.labels

/-- However often a method of a class that was read is normalized, its labels have distinct display names. The labels
from the document keep their numbers and names, and the document gives the name of a generated one to no label. -/
theorem labels_unambiguous {members : Members} {unit : ClassUnit} (read : ofDocument members = .ok unit) {m : Method}
    (member : m ∈ unit.methods) (runs : Nat) :
    let later := m.afterRuns runs
    (∀ a b : Label, a.id < later.numLabels → b.id < later.numLabels → later.displayName a = later.displayName b →
      a = b) ∧
      m.numLabels ≤ later.numLabels ∧
      (∀ label : Label, label.id < m.numLabels →
        later.displayName label = m.displayName label ∧ NamesLabel members (later.displayName label)) ∧
      ∀ label : Label, m.numLabels ≤ label.id → label.id < later.numLabels →
        (later.displayName label).toList.head? = some '~' ∧
          ∀ name, NamesLabel members name → later.displayName label ≠ name := by
  intro later
  obtain ⟨values, object, entries, there, readMethod⟩ := read_of_mem read member
  obtain ⟨spelled, numbered⟩ := Method.ofDocument_eq_ok_iff.mp readMethod
  have wellFormed : m.WellFormed := numbered.wellFormed_iff.mpr spelled.wellFormed
  have grown : m.Grown later := m.grown_afterRuns runs
  refine ⟨?_, ?_, ?_, ?_⟩
  · intro a b first second same
    exact Method.displayName_inj (grown.distinct numbered.distinct wellFormed.plain) first second same
  · obtain ⟨count, added⟩ := grown
    simp [Method.numLabels, added]
  · intro label old
    have kept := grown.displayName_old old
    refine ⟨kept, values, object, m.named, entries, there, spelled, ?_⟩
    rw [kept, Method.displayName_of_lt old, ← List.mem_eraseDups, numbered.labels_named]
    exact List.getElem_mem old
  · intro label new bound
    rw [grown.displayName_new new bound]
    refine ⟨label.head?_generatedName, ?_⟩
    rintro name ⟨values, object, body, -, -, spelled, mentioned⟩
    exact (spelled.wellFormed.plain name mentioned).ne_generatedName label

/-- Two line marks before one frame, and a third before another frame at a label that is placed nowhere. Each run moves
one of the first two and then fails. -/
def stuck : Method where
  name := "stuck"
  descriptor := ""
  labels := ["2", "nowhere~"]
  nodes :=
    [.label ⟨0⟩, .line { number := 1, start := ⟨0⟩ }, .line { number := 2, start := ⟨0⟩ },
      .frame { kind := .same, locals := [], stack := [] }, .line { number := 3, start := ⟨1⟩ },
      .frame { kind := .same, locals := [], stack := [] }]

def stuckSource : Members := [
  ("class", .str "C"),
  ("methods", .arr [.obj [
    ("name", .str "stuck"),
    ("instructions", .arr [
      .obj [("kind", .str "label"), ("name", .str "2")],
      .obj [("kind", .str "line"), ("line", .int 1), ("start", .str "2")],
      .obj [("kind", .str "line"), ("line", .int 2), ("start", .str "2")],
      .obj [("kind", .str "frame"), ("type", .str "same")],
      .obj [("kind", .str "line"), ("line", .int 3), ("start", .str "nowhere~")],
      .obj [("kind", .str "frame"), ("type", .str "same")]])]])]

theorem labels_unambiguous_stuck :
    ofDocument stuckSource = .ok { name := "C", methods := [stuck] } ∧
      stuck.normalize.result = .error (.inconsistent (.unplacedLine 3 "nowhere~") "stuck") ∧
      (stuck.afterRuns 2).numLabels = 4 ∧ (stuck.afterRuns 2).displayName ⟨0⟩ = "2" ∧ NamesLabel stuckSource "2" ∧
      ((stuck.afterRuns 2).displayName ⟨2⟩).toList.head? = some '~' ∧
      (stuck.afterRuns 2).displayName ⟨2⟩ ≠ "2" ∧
      (stuck.afterRuns 2).displayName ⟨2⟩ ≠ (stuck.afterRuns 2).displayName ⟨3⟩ := by
  have read : ofDocument stuckSource = .ok { name := "C", methods := [stuck] } := by decide +kernel
  obtain ⟨distinct, -, loaded, generated⟩ := labels_unambiguous read (List.mem_singleton.mpr rfl) 2
  obtain ⟨same, named⟩ := loaded ⟨0⟩ (by decide)
  obtain ⟨marked, apart⟩ := generated ⟨2⟩ (by decide) (by decide)
  rw [same] at named
  refine ⟨read, rfl, by decide, same, named, marked, apart "2" named, fun equal => ?_⟩
  have ids := distinct ⟨2⟩ ⟨3⟩ (by decide) (by decide) equal
  cases ids

end ClassUnit

end ProbePoints
