import ProbePoints.Proofs.Analysis

/-!
# Normalization keeps methods valid

The new labels of a settled stream differ from the placed ones and from each other, and a line mark that moves starts
at a new label. So a valid method that mentions only labels it has handed out stays one when it is normalized.
-/

namespace ProbePoints

/-- A line mark of a settled stream was there before, or it starts at a new label. -/
theorem line_of_mem_move {next : Nat} {pending : Option (LineMark Label)} {nodes : List (Node Label)}
    {mark : LineMark Label} (member : .line mark ∈ (move next pending nodes).nodes) :
    .line mark ∈ held pending ++ nodes ∨ mark.start ∈ (move next pending nodes).moves.map Prod.snd := by
  rcases mem_move_cases member with kept | spaced | ⟨label, new, here | ⟨number, here⟩⟩
  · exact .inl kept
  · cases spaced
  · cases here
  · cases here
    exact .inr new

/-- The placements of a settled stream are distinct if those of the stream are, and new labels come after them. -/
theorem nodup_placements_move {next : Nat} {nodes : List (Node Label)} (distinct : (placements nodes).Nodup)
    (small : ∀ label ∈ placements nodes, label.id < next) :
    (placements (move next none nodes).nodes).Nodup := by
  rw [List.nodup_iff_count_le_one]
  intro label
  rw [count_placements_move]
  have old := List.nodup_iff_count_le_one.mp distinct label
  have new := List.nodup_iff_count_le_one.mp (nodup_map_snd_moves next none nodes) label
  by_cases placed : label ∈ placements nodes
  · have below := small label placed
    have notNew : label ∉ (move next none nodes).moves.map Prod.snd := by
      rw [mem_new_iff]
      omega
    rw [List.count_eq_zero.mpr notNew]
    omega
  · rw [List.count_eq_zero.mpr placed]
    omega

/-! ### Labels that are mentioned -/

theorem replacement_cases (moves : List (Label × Label)) (label : Label) :
    replacement moves label = label ∨ replacement moves label ∈ moves.map Prod.snd := by
  unfold replacement
  cases found : moves.reverse.lookup label with
  | none => exact .inl rfl
  | some new =>
    obtain ⟨front, back, same, -⟩ := List.lookup_eq_some_iff.mp found
    have member : (label, new) ∈ moves := List.mem_reverse.mp (by simp [same])
    exact .inr (List.mem_map_of_mem member)

/-- Patching a node brings in new labels only. -/
theorem Node.labels_moved {moves : List (Label × Label)} {node : Node Label} {label : Label}
    (mentioned : label ∈ (node.moved moves).labels) : label ∈ node.labels ∨ label ∈ moves.map Prod.snd := by
  cases node with
  | frame shape =>
    simp only [Node.moved, Node.labels, List.flatMap_append, List.mem_append] at mentioned ⊢
    rcases mentioned with inLocals | inStack
    · exact .inl (.inl inLocals)
    · simp only [List.mem_flatMap, List.mem_map] at inStack
      obtain ⟨_, ⟨slot, present, rfl⟩, mentioned⟩ := inStack
      cases slot with
      | uninitialized site =>
        obtain rfl := List.mem_singleton.mp mentioned
        rcases replacement_cases moves site with same | new
        · rw [same]
          exact .inl (.inr (List.mem_flatMap.mpr ⟨_, present, List.mem_singleton_self site⟩))
        · exact .inr new
      | basic type => cases mentioned
      | object name => cases mentioned
  | insn instruction => exact .inl mentioned
  | label here => exact .inl mentioned
  | line mark => exact .inl mentioned

theorem labels_of_mem_move {next : Nat} {nodes : List (Node Label)} {node : Node Label} {label : Label}
    (member : node ∈ (move next none nodes).nodes) (mentioned : label ∈ node.labels) :
    (∃ other ∈ nodes, label ∈ other.labels) ∨ label ∈ (move next none nodes).moves.map Prod.snd := by
  rcases mem_move_cases member with kept | rfl | ⟨new, fresh, rfl | ⟨number, rfl⟩⟩
  · exact .inl ⟨node, kept, mentioned⟩
  · cases mentioned
  · exact .inr (List.mem_singleton.mp mentioned ▸ fresh)
  · exact .inr (List.mem_singleton.mp mentioned ▸ fresh)

/-! ### Normalized methods -/

namespace Method

/-- Normalization keeps a method valid. -/
theorem Valid.normalize {m : Method} (valid : m.Valid) (bounded : m.Bounded) : m.normalize.method.Valid := by
  let moved := move m.numLabels none m.nodes
  have placed : placements (moved.nodes.map (Node.moved moved.moves)) = placements moved.nodes :=
    placements_map_moved ..
  have stays : ∀ label, label ∈ placements m.nodes → label ∈ placements moved.nodes :=
    fun label member => (mem_placements_move ..).mpr (.inl member)
  have instructions : ∀ instruction, .insn instruction ∈ moved.nodes.map (Node.moved moved.moves) →
      .insn instruction ∈ m.nodes ∨ Node.insn instruction = spacer :=
    fun instruction member => mem_move ((mem_map_moved rfl).mp member)
  rw [normalize_eq_move valid.framed]
  refine ⟨?_, ?_, ?_, ?_, ?_⟩
  · change (placements (moved.nodes.map (Node.moved moved.moves))).Nodup
    rw [placed]
    exact nodup_placements_move valid.distinct fun label => bounded.placed_lt
  · intro range member label mentioned
    change label ∈ placements (moved.nodes.map (Node.moved moved.moves))
    rw [placed]
    exact stays label (valid.ranges range member label mentioned)
  · intro instruction member
    exact valid.fits_of_kept (instructions instruction member)
  · intro instruction member label target
    change label ∈ placements (moved.nodes.map (Node.moved moved.moves))
    rw [placed]
    rcases instructions instruction member with kept | spaced
    · exact stays label (valid.targets instruction kept label target)
    · obtain rfl : instruction = .plain .nop := by simpa [spacer] using spaced
      cases target
  · intro mark member
    change mark.start ∈ placements (moved.nodes.map (Node.moved moved.moves))
    rw [placed]
    rcases line_of_mem_move ((mem_map_moved rfl).mp member) with old | new
    · exact stays _ (valid.lines mark old)
    · exact (mem_placements_move ..).mpr (.inr ((mem_new_iff ..).mp new))

theorem numLabels_normalize {m : Method} (valid : m.Valid) :
    m.normalize.method.numLabels = m.numLabels + (move m.numLabels none m.nodes).moves.length := by
  simp [normalize_eq_move valid.framed, extend, numLabels]

/-- A method that mentions only labels it has handed out still does when it is normalized. -/
theorem Bounded.normalize {m : Method} (bounded : m.Bounded) (valid : m.Valid) : m.normalize.method.Bounded := by
  have grown := numLabels_normalize valid
  have fresh : ∀ label, label ∈ (move m.numLabels none m.nodes).moves.map Prod.snd →
      label.id < m.normalize.method.numLabels := by
    intro label new
    rw [grown]
    exact ((mem_new_iff ..).mp new).2
  constructor
  · intro node member label mentioned
    rw [normalize_eq_move valid.framed] at member
    obtain ⟨other, kept, rfl⟩ := List.mem_map.mp member
    rcases Node.labels_moved mentioned with mentioned | new
    · rcases labels_of_mem_move kept mentioned with ⟨old, there, mentioned⟩ | new
      · have below := bounded.nodes old there label mentioned
        omega
      · exact fresh label new
    · exact fresh label new
  · intro range member label mentioned
    rw [normalize_eq_move valid.framed] at member
    have below := bounded.ranges range member label mentioned
    omega

/-- Normalization of a valid method succeeds and leaves a valid method, which mentions only labels that it has handed
out. The labels that were placed are still placed once, and so is every new one. -/
theorem normalize_keeps_valid (m : Method) (accepted : m.check = .ok ()) (bounded : m.Bounded) :
    ∃ count, m.normalize.result = .ok count ∧ m.normalize.method.numLabels = m.numLabels + count ∧
      m.normalize.method.check = .ok () ∧ m.normalize.method.Bounded ∧
      (∀ label ∈ placements m.nodes, (placements m.normalize.method.nodes).count label = 1) ∧
      ∀ label : Label, m.numLabels ≤ label.id → label.id < m.normalize.method.numLabels →
        (placements m.normalize.method.nodes).count label = 1 := by
  have valid := m.check_eq_ok_iff.mp accepted
  have kept := valid.normalize bounded
  have grown := numLabels_normalize valid
  have placed : ∀ label, label ∈ placements m.normalize.method.nodes ↔
      label ∈ placements m.nodes ∨ m.numLabels ≤ label.id ∧ label.id < m.normalize.method.numLabels := by
    intro label
    rw [grown, normalize_eq_move valid.framed]
    simp only [extend, placements_map_moved, mem_placements_move]
  have once : ∀ label, label ∈ placements m.normalize.method.nodes →
      (placements m.normalize.method.nodes).count label = 1 :=
    fun label => List.count_eq_one_of_mem kept.distinct
  refine ⟨_, congrArg Outcome.result (normalize_eq_move valid.framed), grown, (check_eq_ok_iff _).mpr kept,
    bounded.normalize valid, ?_, ?_⟩
  · intro label before
    exact once label ((placed label).mpr (.inl before))
  · intro label above below
    exact once label ((placed label).mpr (.inr ⟨above, below⟩))

/-- A line mark that crosses two frames, one of which refers to its label, and a second one in a protected range. -/
def guardedSite : Method where
  name := "guardedSite"
  descriptor := "()V"
  labels := ["site", "body", "handler"]
  ranges := [{ start := ⟨1⟩, stop := ⟨2⟩, handler := ⟨2⟩, caught := none }]
  nodes :=
    [.label ⟨0⟩, .line { number := 1, start := ⟨0⟩ },
      .frame { kind := .full, locals := [.uninitialized ⟨0⟩], stack := [.uninitialized ⟨0⟩] },
      .frame { kind := .same, locals := [], stack := [] }, .insn (.type .newObject "A"),
      .label ⟨1⟩, .line { number := 2, start := ⟨1⟩ }, .frame { kind := .same, locals := [], stack := [] },
      .insn (.jump .goto ⟨0⟩), .label ⟨2⟩, .insn (.plain .athrow)]

theorem normalize_keeps_valid_guardedSite :
    guardedSite.check = .ok () ∧ guardedSite.Bounded ∧ guardedSite.normalize.result = .ok 3 ∧
      guardedSite.normalize.method.check = .ok () ∧ guardedSite.normalize.method.Bounded ∧
      (placements guardedSite.normalize.method.nodes).count ⟨1⟩ = 1 ∧
      (placements guardedSite.normalize.method.nodes).count ⟨5⟩ = 1 := by
  have bounded : guardedSite.Bounded := by decide
  obtain ⟨count, -, -, accepted, stillBounded, old, new⟩ := normalize_keeps_valid guardedSite rfl bounded
  exact ⟨rfl, bounded, rfl, accepted, stillBounded, old ⟨1⟩ (by decide), new ⟨5⟩ (by decide) (by decide)⟩

/-- What an analysis leaves behind is valid if the analysis succeeds. -/
theorem valid_analyzed {m : Method} {options : Options} {table : MarkTable} (bounded : m.Bounded)
    (analyzed : (m.analyze options).result = .ok table) : (m.analyze options).method.Valid := by
  have valid := valid_of_analyzed analyzed
  rw [analyze_of_valid valid, prepare]
  split
  · exact valid.normalize bounded
  · exact valid

end Method

end ProbePoints
