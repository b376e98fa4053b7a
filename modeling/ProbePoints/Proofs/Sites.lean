import ProbePoints.Proofs.Settling

/-!
# Creation sites after normalization

A slot of a frame refers to an object that is not initialized yet by a label before the instruction that creates it.
`siteOf?` finds that instruction. Normalization makes the slot refer to another label where the mark of its label moves,
and `Landing` says where that label stands; whether the same instruction still follows it depends on the spacers that
come in between.
-/

namespace ProbePoints

/-- The node creates an object. -/
def Node.isNew (node : Node Label) : Bool := node.opcode? = some .newObject

/-- The shape of a frame. -/
def Node.shape? : Node Label → Option (Frame Label)
  | .frame shape => some shape
  | _ => none

/-- The frames of a stream, in stream order. -/
def frames (nodes : List (Node Label)) : List (Frame Label) := nodes.filterMap Node.shape?

/-- The instructions of a stream that create objects, in stream order. -/
def creations (nodes : List (Node Label)) : List (Node Label) := nodes.filter Node.isNew

/-- The first instruction creates an object. -/
def CreatesFirst (nodes : List (Node Label)) : Prop := (opcodes nodes).head? = some .newObject

instance (nodes : List (Node Label)) : Decidable (CreatesFirst nodes) := inferInstanceAs (Decidable (_ = _))

/-- The position among the `creations` of the one that a label stands before, if it is the first instruction behind
the label. -/
def siteOf? (nodes : List (Node Label)) (label : Label) : Option Nat :=
  if CreatesFirst (nodes.dropWhile (· ≠ .label label)) then
    some ((nodes.takeWhile (· ≠ .label label)).countP Node.isNew)
  else none

/-- Where the label that stands for another after normalization is: between the two parts of the stream. A label
stays, unless the mark of a line that starts there moves. Then it is behind the first frame that the last such mark
crosses, and that mark follows it. -/
inductive Landing (nodes : List (Node Label)) (label : Label) : List (Node Label) → List (Node Label) → Prop
  | stays {before after : List (Node Label)} (unmoved : ∀ mark ∈ framedMarks nodes, mark.start ≠ label)
      (here : nodes = before ++ .label label :: after) : Landing nodes label before after
  | moves {before after : List (Node Label)} {mark : LineMark Label} {shape : Frame Label}
      (here : nodes = before ++ .line mark :: .frame shape :: after) (start : mark.start = label)
      (last : ∀ other ∈ framedMarks after, other.start ≠ label) : Landing nodes label before (.line mark :: after)

/-- The first instruction creates an object, and no line mark before it stands directly before a frame. -/
def createsUndisturbed : List (Node Label) → Bool
  | [] => false
  | .insn instruction :: _ => instruction.opcode = .newObject
  | .line _ :: rest => !startsWithFrame rest && createsUndisturbed rest
  | _ :: rest => createsUndisturbed rest

/-! ### Sites -/

theorem ne_label_of_not_placed {label : Label} {nodes : List (Node Label)} (absent : label ∉ placements nodes) :
    ∀ node ∈ nodes, decide (node ≠ .label label) = true :=
  fun _ member => decide_eq_true fun same => absent (mem_placements.mpr (same ▸ member))

theorem siteOf?_split {label : Label} {before after : List (Node Label)} (notBefore : label ∉ placements before) :
    siteOf? (before ++ .label label :: after) label =
      if CreatesFirst after then some (before.countP Node.isNew) else none := by
  have other := ne_label_of_not_placed notBefore
  have first : CreatesFirst (.label label :: after) = CreatesFirst after := rfl
  unfold siteOf?
  rw [List.dropWhile_append_of_pos other, List.takeWhile_append_of_pos other]
  simp [first]

theorem placed_of_siteOf? {nodes : List (Node Label)} {label : Label} {site : Nat}
    (found : siteOf? nodes label = some site) : label ∈ placements nodes := by
  by_contra absent
  have none : nodes.dropWhile (· ≠ .label label) = [] :=
    List.dropWhile_eq_nil_iff.mpr (ne_label_of_not_placed absent)
  rw [siteOf?, none] at found
  cases found

/-- Sites do not depend on the slots of frames. -/
theorem siteOf?_map_moved (moves : List (Label × Label)) (nodes : List (Node Label)) (label : Label) :
    siteOf? (nodes.map (Node.moved moves)) label = siteOf? nodes label := by
  have opcode : ∀ node : Node Label, (node.moved moves).opcode? = node.opcode? := by
    intro node
    cases node <;> rfl
  have place : ∀ node : Node Label, node.moved moves = .label label ↔ node = .label label := by
    intro node
    cases node <;> simp [Node.moved]
  simp only [siteOf?, CreatesFirst, opcodes, List.dropWhile_map, List.takeWhile_map, List.countP_map,
    List.filterMap_map, Function.comp_def, place, opcode, Node.isNew, ne_eq]
  rfl

/-- In a settled stream a creation still comes first if no spacer comes before it. -/
theorem createsFirst_move_iff (next : Nat) (pending : Option (LineMark Label)) (nodes : List (Node Label)) :
    CreatesFirst (move next pending nodes).nodes ↔ createsUndisturbed (held pending ++ nodes) = true := by
  have heldFirst (pending : Option (LineMark Label)) (nodes : List (Node Label)) :
      CreatesFirst (held pending ++ nodes) ↔ CreatesFirst nodes := by
    rw [CreatesFirst, opcodes_append, opcodes_held]
    rfl
  have heldUndisturbed (pending : Option (LineMark Label)) (nodes : List (Node Label))
      (boundary : startsWithFrame nodes = false) :
      createsUndisturbed (held pending ++ nodes) = createsUndisturbed nodes := by
    cases pending <;> simp [held, createsUndisturbed, boundary]
  fun_induction move next pending nodes with
  | case1 next pending => cases pending <;> simp [held, CreatesFirst, opcodes, createsUndisturbed, Node.opcode?]
  | case2 next pending later rest ih =>
    simp only [Settled.prepend, heldFirst, ih, heldUndisturbed pending (.line later :: rest) rfl]
    rfl
  | case3 next mark shape rest ih =>
    refine iff_of_false (fun creates => ?_) (by simp [held, createsUndisturbed, Node.isFrame])
    have first : some Opcode.nop = some Opcode.newObject := creates
    cases first
  | case4 next pending node rest notLine notFrame ih =>
    simp only [Settled.prepend, List.append_assoc, heldFirst, List.singleton_append]
    cases node with
    | insn instruction =>
      rw [heldUndisturbed pending _ rfl]
      simp [CreatesFirst, opcodes, createsUndisturbed, Node.opcode?]
    | label here =>
      rw [heldUndisturbed pending _ rfl]
      exact ih
    | frame shape =>
      obtain rfl := (no_pending_frame notFrame).resolve_right (by simp [Node.isFrame])
      exact ih
    | line mark => exact (notLine mark rfl).elim

/-! ### Landings -/

theorem exists_last_framed {nodes : List (Node Label)} {label : Label}
    (framed : ∃ mark ∈ framedMarks nodes, mark.start = label) :
    ∃ before mark shape after, nodes = before ++ .line mark :: .frame shape :: after ∧ mark.start = label ∧
      ∀ other ∈ framedMarks after, other.start ≠ label := by
  induction nodes with
  | nil => simp [framedMarks] at framed
  | cons node rest ih =>
    by_cases later : ∃ mark ∈ framedMarks rest, mark.start = label
    · obtain ⟨before, mark, shape, after, same, start, last⟩ := ih later
      exact ⟨node :: before, mark, shape, after, by simp [same], start, last⟩
    · obtain ⟨mark, member, start⟩ := framed
      cases node with
      | line here =>
        rw [framedMarks_line] at member
        rcases List.mem_append.mp member with member | member
        · split at member
          · rename_i ahead
            obtain rfl := List.mem_singleton.mp member
            obtain ⟨shape, after, rfl⟩ := (startsWithFrame_iff rest).mp ahead
            exact ⟨[], mark, shape, after, rfl, start, fun other member same => later ⟨other, member, same⟩⟩
          · cases member
        · exact (later ⟨mark, member, start⟩).elim
      | _ => exact (later ⟨mark, member, start⟩).elim

theorem exists_landing {nodes : List (Node Label)} {label : Label} (placed : label ∈ placements nodes) :
    ∃ before after, Landing nodes label before after := by
  by_cases framed : ∃ mark ∈ framedMarks nodes, mark.start = label
  · obtain ⟨before, mark, shape, after, same, start, last⟩ := exists_last_framed framed
    exact ⟨before, _, .moves same start last⟩
  · obtain ⟨before, after, same⟩ := List.append_of_mem (mem_placements.mp placed)
    exact ⟨before, after, .stays (fun mark member start => framed ⟨mark, member, start⟩) same⟩

theorem countP_isNew_move (next : Nat) (nodes : List (Node Label)) :
    (move next none nodes).nodes.countP Node.isNew = nodes.countP Node.isNew :=
  countP_move (fun _ => rfl) (fun _ => rfl) rfl next none nodes

/-- A label at which no mark that moves starts stands for itself, in its place. -/
theorem site_of_unmoved {next : Nat} {label : Label} {before after : List (Node Label)} (below : label.id < next)
    (notBefore : label ∉ placements before)
    (unmoved : ∀ mark ∈ framedMarks (before ++ .label label :: after), mark.start ≠ label) :
    let moved := move next none (before ++ .label label :: after)
    replacement moved.moves label ∈ placements moved.nodes ∧
      siteOf? moved.nodes (replacement moved.moves label) =
        if createsUndisturbed after then some (before.countP Node.isNew) else none := by
  intro moved
  have parted : moved.nodes = (move next none before).nodes ++
      .label label :: (move (next + (move next none before).moves.length) none after).nodes :=
    congrArg Settled.nodes (move_append rfl)
  rw [replacement_of_unmoved (ne_of_mem_moves below unmoved), parted,
    siteOf?_split (not_mem_placements_move below notBefore), countP_isNew_move]
  simp only [createsFirst_move_iff]
  exact ⟨mem_placements.mpr (by simp), rfl⟩

/-- For a label at which marks that move start, the new label of the last of them stands, in front of that mark. -/
theorem site_of_moved {next : Nat} {mark : LineMark Label} {shape : Frame Label} {before after : List (Node Label)}
    (below : mark.start.id < next) (small : ∀ other ∈ placements before, other.id < next)
    (last : ∀ other ∈ framedMarks after, other.start ≠ mark.start) :
    let moved := move next none (before ++ .line mark :: .frame shape :: after)
    replacement moved.moves mark.start ∈ placements moved.nodes ∧
      siteOf? moved.nodes (replacement moved.moves mark.start) =
        if createsUndisturbed (.line mark :: after) then some (before.countP Node.isNew) else none := by
  intro moved
  let front := move next none before
  let fresh : Label := ⟨next + front.moves.length⟩
  let back := move (next + front.moves.length + 1) (some { mark with start := fresh }) after
  have parted : moved = front.append ((back.prepend [.frame shape, spacer, .label fresh]).precede mark.start fresh) :=
    move_append rfl
  have nodes : moved.nodes = (front.nodes ++ [.frame shape, spacer]) ++ .label fresh :: back.nodes := by
    simp [parted, Settled.append, Settled.precede, Settled.prepend]
  -- The mark itself may cross further frames, but then it starts at its new label and no longer at the old one.
  have renamed : fresh ≠ mark.start := by
    intro same
    have above : next ≤ fresh.id := Nat.le_add_right ..
    rw [same] at above
    omega
  have unmoved : ∀ other ∈ framedMarks (.line { mark with start := fresh } :: after), other.start ≠ mark.start := by
    intro other member
    rw [framedMarks_line] at member
    rcases List.mem_append.mp member with again | later
    · split at again
      · rwa [List.mem_singleton.mp again]
      · cases again
    · exact last other later
  have stands : replacement moved.moves mark.start = fresh := by
    have resting : ∀ old new, (old, new) ∈ back.moves → old ≠ mark.start := ne_of_mem_moves (by omega) unmoved
    simpa [parted, Settled.append, Settled.precede, Settled.prepend] using replacement_of_last resting
  have unused : fresh ∉ placements (front.nodes ++ [.frame shape, spacer]) := by
    simpa [placements_append] using ⟨next_not_placed small, List.not_mem_nil⟩
  have follows : CreatesFirst back.nodes ↔ createsUndisturbed (.line mark :: after) = true :=
    createsFirst_move_iff _ _ after
  rw [stands, nodes, siteOf?_split unused, List.countP_append, countP_isNew_move]
  simp only [follows]
  exact ⟨mem_placements.mpr (by simp), rfl⟩

theorem Landing.site {nodes before after : List (Node Label)} {label : Label} {next : Nat}
    (landing : Landing nodes label before after) (distinct : (placements nodes).Nodup)
    (small : ∀ other ∈ placements nodes, other.id < next) (below : label.id < next) :
    replacement (move next none nodes).moves label ∈ placements (move next none nodes).nodes ∧
      siteOf? (move next none nodes).nodes (replacement (move next none nodes).moves label) =
        if createsUndisturbed after then some (before.countP Node.isNew) else none := by
  cases landing with
  | stays unmoved here =>
    subst here
    exact site_of_unmoved below (not_placed_elsewhere distinct).1 unmoved
  | moves here start last =>
    subst here start
    exact site_of_moved below (fun other placed => small other (by simp [placements_append, placed])) last

/-! ### Frames and creations of a normalized method -/

/-- A frame after some moves. -/
def Frame.moved (moves : List (Label × Label)) (shape : Frame Label) : Frame Label :=
  { shape with stack := shape.stack.map (Slot.moved moves) }

theorem frames_map_moved (moves : List (Label × Label)) (nodes : List (Node Label)) :
    frames (nodes.map (Node.moved moves)) = (frames nodes).map (Frame.moved moves) := by
  simp only [frames, List.filterMap_map, List.map_filterMap]
  congr 1
  funext node
  cases node <;> rfl

theorem frames_move (next : Nat) (nodes : List (Node Label)) : frames (move next none nodes).nodes = frames nodes :=
  filterMap_move (fun _ => rfl) (fun _ => rfl) rfl next none nodes

theorem creations_move (next : Nat) (moves : List (Label × Label)) (nodes : List (Node Label)) :
    creations ((move next none nodes).nodes.map (Node.moved moves)) = creations nodes := by
  have patched : Option.guard Node.isNew ∘ Node.moved moves = Option.guard Node.isNew := by
    funext node
    cases node <;> rfl
  simp only [creations, ← List.filterMap_eq_filter, List.filterMap_map, patched]
  exact filterMap_move (fun _ => rfl) (fun _ => rfl) rfl next none nodes

/-- Normalization of a valid method succeeds and keeps the creations. A slot of an operand stack whose label stands
before a creation gets a label that is placed, and the same creation comes first behind that label exactly if it does
behind the landing of the old label and no line mark moves in between. -/
theorem uninitialized_normalized_iff (m : Method) (valid : m.check = .ok ()) (bounded : m.Bounded) :
    ∃ count, m.normalize.result = .ok count ∧ creations m.normalize.method.nodes = creations m.nodes ∧
      ∀ (i j : Nat) (shape : Frame Label) (label : Label) (site : Nat), (frames m.nodes)[i]? = some shape →
        shape.stack[j]? = some (.uninitialized label) → siteOf? m.nodes label = some site →
        ∃ (patched : Frame Label) (renamed : Label), (frames m.normalize.method.nodes)[i]? = some patched ∧
          patched.stack[j]? = some (.uninitialized renamed) ∧
          renamed ∈ placements m.normalize.method.nodes ∧
          (siteOf? m.normalize.method.nodes renamed = some site ↔
            ∃ before after, Landing m.nodes label before after ∧ before.countP Node.isNew = site ∧
              createsUndisturbed after = true) := by
  have sound := m.check_eq_ok_iff.mp valid
  rw [Method.normalize_eq_move sound.framed]
  refine ⟨_, rfl, creations_move .., fun i j shape label site frame slot found => ?_⟩
  have placed := placed_of_siteOf? found
  have stands {before after : List (Node Label)} (landing : Landing m.nodes label before after) :=
    landing.site sound.distinct (fun _ => bounded.placed_lt) (bounded.placed_lt placed)
  refine ⟨shape.moved (move m.numLabels none m.nodes).moves, replacement (move m.numLabels none m.nodes).moves label,
    ?_, ?_, ?_, ?_⟩
  · simp only [Method.extend, frames_map_moved, frames_move, List.getElem?_map, frame, Option.map_some]
  · simp only [Frame.moved, List.getElem?_map, slot, Option.map_some, Slot.moved]
  · obtain ⟨before, after, landing⟩ := exists_landing placed
    simpa only [Method.extend, placements_map_moved] using (stands landing).1
  · simp only [Method.extend, siteOf?_map_moved]
    constructor
    · intro kept
      obtain ⟨before, after, landing⟩ := exists_landing placed
      rw [(stands landing).2] at kept
      split at kept
      · rename_i creates
        exact ⟨before, after, landing, Option.some.inj kept, creates⟩
      · cases kept
    · rintro ⟨before, after, landing, counted, creates⟩
      rw [(stands landing).2, if_pos creates, counted]

/-- The slot of a frame refers to the second creation, before which a line mark crosses the frame. -/
def Method.oneCrossing : Method where
  name := "oneCrossing"
  descriptor := "()V"
  labels := ["site"]
  nodes :=
    [.insn (.type .newObject "A"), .label ⟨0⟩, .line { number := 1, start := ⟨0⟩ },
      .frame { kind := .full, locals := [], stack := [.object "A", .uninitialized ⟨0⟩] },
      .insn (.type .newObject "B"), .insn (.plain .returnVoid)]

theorem uninitialized_normalized_oneCrossing :
    Method.oneCrossing.check = .ok () ∧ Method.oneCrossing.Bounded ∧ siteOf? Method.oneCrossing.nodes ⟨0⟩ = some 1 ∧
      ∃ (patched : Frame Label) (renamed : Label),
        (frames Method.oneCrossing.normalize.method.nodes)[0]? = some patched ∧
          patched.stack[1]? = some (.uninitialized renamed) ∧
          siteOf? Method.oneCrossing.normalize.method.nodes renamed = some 1 := by
  obtain ⟨count, -, -, slots⟩ := uninitialized_normalized_iff Method.oneCrossing rfl (by decide)
  obtain ⟨patched, renamed, frame, slot, -, kept⟩ := slots 0 1 _ ⟨0⟩ 1 rfl rfl (by decide)
  have landing : Landing Method.oneCrossing.nodes ⟨0⟩ [.insn (.type .newObject "A"), .label ⟨0⟩] _ :=
    .moves rfl rfl (by decide)
  exact ⟨rfl, by decide, by decide, patched, renamed, frame, slot, kept.mpr ⟨_, _, landing, rfl, rfl⟩⟩

/-- The slot of a frame refers to a creation before which a line mark crosses two frames. -/
def Method.twoCrossings : Method where
  name := "twoCrossings"
  descriptor := "()V"
  labels := ["site"]
  nodes :=
    [.label ⟨0⟩, .line { number := 1, start := ⟨0⟩ },
      .frame { kind := .full, locals := [], stack := [.uninitialized ⟨0⟩] },
      .frame { kind := .same, locals := [], stack := [] },
      .insn (.type .newObject "A"), .insn (.plain .returnVoid)]

/-- The slot refers to the label of the first crossing, which a spacer parts from the creation. -/
theorem site_lost_twoCrossings :
    Method.twoCrossings.check = .ok () ∧ Method.twoCrossings.Bounded ∧
      siteOf? Method.twoCrossings.nodes ⟨0⟩ = some 0 ∧ Method.twoCrossings.normalize.result = .ok 2 ∧
      (frames Method.twoCrossings.nodes).map Frame.stack = [[.uninitialized ⟨0⟩], []] ∧
      (frames Method.twoCrossings.normalize.method.nodes).map Frame.stack = [[.uninitialized ⟨1⟩], []] ∧
      siteOf? Method.twoCrossings.normalize.method.nodes ⟨1⟩ = none := by
  decide

end ProbePoints
