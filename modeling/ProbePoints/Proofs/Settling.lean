import Mathlib.Data.List.Nodup
import ProbePoints.Proofs.Arrival
import ProbePoints.Proofs.Validity
import ProbePoints.Settling

/-!
# Settled streams

`move` settles a stream in which no line mark is stuck, without the labels that are placed. `settle_append` ties it to
the settling of a stream up to a point, and `normalize_eq_move` to that of a method. The rest of the file says what it
keeps: it numbers new labels in order, keeps the placements, and leaves alone what is no line mark, label or spacer.
-/

namespace ProbePoints

/-! ### Line marks before frames -/

/-- The node is a frame. -/
def Node.isFrame : Node Label → Bool
  | .frame _ => true
  | _ => false

/-- The stream starts with a frame. -/
def startsWithFrame (nodes : List (Node Label)) : Bool := nodes.head?.any Node.isFrame

/-- The line marks that stand directly before a frame, in stream order. -/
def framedMarks : List (Node Label) → List (LineMark Label)
  | [] => []
  | .line mark :: rest => if startsWithFrame rest then mark :: framedMarks rest else framedMarks rest
  | _ :: rest => framedMarks rest

@[simp]
theorem startsWithFrame_nil : startsWithFrame [] = false := rfl

@[simp]
theorem startsWithFrame_cons (node : Node Label) (rest : List (Node Label)) :
    startsWithFrame (node :: rest) = node.isFrame := rfl

theorem startsWithFrame_iff (nodes : List (Node Label)) :
    startsWithFrame nodes = true ↔ ∃ shape, [.frame shape] <+: nodes := by
  cases nodes with
  | nil => simp
  | cons first later => cases first <;> simp [Node.isFrame, List.cons_prefix_cons]

theorem framedMarks_line (mark : LineMark Label) (nodes : List (Node Label)) :
    framedMarks (.line mark :: nodes) = (if startsWithFrame nodes then [mark] else []) ++ framedMarks nodes := by
  rw [framedMarks]
  split <;> rfl

theorem framedMarks_cons {node : Node Label} (noMark : node.mark? = none) (rest : List (Node Label)) :
    framedMarks (node :: rest) = framedMarks rest := by
  cases node <;> first | rfl | cases noMark

theorem mem_framedMarks {mark : LineMark Label} {nodes : List (Node Label)} :
    mark ∈ framedMarks nodes ↔ ∃ shape, [.line mark, .frame shape] <:+: nodes := by
  induction nodes with
  | nil => simp [framedMarks]
  | cons node rest ih =>
    simp only [List.infix_cons_iff, exists_or, ← ih, List.cons_prefix_cons]
    cases node with
    | line here =>
      have ahead := startsWithFrame_iff rest
      by_cases framed : startsWithFrame rest = true
      · simp [framedMarks, framed, ahead.mp framed]
      · have none : ∀ shape, ¬[.frame shape] <+: rest := fun shape found => framed (ahead.mpr ⟨shape, found⟩)
        simp [framedMarks, framed, none]
    | insn instruction => simp [framedMarks]
    | label here => simp [framedMarks]
    | frame shape => simp [framedMarks]

theorem framedMarks_subset {part nodes : List (Node Label)} (inside : part <:+: nodes) :
    framedMarks part ⊆ framedMarks nodes := by
  intro mark member
  obtain ⟨shape, found⟩ := mem_framedMarks.mp member
  exact mem_framedMarks.mpr ⟨shape, found.trans inside⟩

/-- A line mark stands directly before a frame. -/
def Unsettled (nodes : List (Node Label)) : Prop := ∃ mark shape, [.line mark, .frame shape] <:+: nodes

theorem unsettled_iff (nodes : List (Node Label)) : Unsettled nodes ↔ framedMarks nodes ≠ [] := by
  constructor
  · rintro ⟨mark, shape, found⟩
    exact List.ne_nil_of_mem (mem_framedMarks.mpr ⟨shape, found⟩)
  · intro some
    obtain ⟨mark, member⟩ := List.exists_mem_of_ne_nil _ some
    exact ⟨mark, mem_framedMarks.mp member⟩

instance (nodes : List (Node Label)) : Decidable (Unsettled nodes) := decidable_of_iff _ (unsettled_iff nodes).symm

/-! ### Settling without stuck marks -/

/-- The node of a line mark that waits for what follows it. -/
def held (pending : Option (LineMark Label)) : List (Node Label) := pending.toList.map .line

theorem filterMap_held {α : Type} {f : Node Label → Option α} (onLine : ∀ mark, f (.line mark) = none)
    (pending : Option (LineMark Label)) : (held pending).filterMap f = [] := by
  cases pending <;> simp [held, onLine]

theorem placements_held (pending : Option (LineMark Label)) : placements (held pending) = [] :=
  filterMap_held (fun _ => rfl) pending

theorem opcodes_held (pending : Option (LineMark Label)) : opcodes (held pending) = [] :=
  filterMap_held (fun _ => rfl) pending

theorem framedMarks_held (pending : Option (LineMark Label)) (nodes : List (Node Label)) :
    framedMarks (held pending ++ nodes) =
      (if startsWithFrame nodes then pending.toList else []) ++ framedMarks nodes := by
  cases pending with
  | none => simp [held]
  | some mark => simpa [held] using framedMarks_line mark nodes

/-- Settles a stream that follows a line mark, if one is `pending`, and moves every mark that stands before a frame. -/
def move (next : Nat) : Option (LineMark Label) → List (Node Label) → Settled
  | pending, [] => { nodes := held pending }
  | pending, .line later :: rest => (move next (some later) rest).prepend (held pending)
  | some mark, .frame shape :: rest =>
    ((move (next + 1) (some { mark with start := ⟨next⟩ }) rest).prepend
      [.frame shape, spacer, .label ⟨next⟩]).precede mark.start ⟨next⟩
  | pending, node :: rest => (move next none rest).prepend (held pending ++ [node])

theorem mark?_eq_none {node : Node Label} (notLine : ∀ mark, node = .line mark → False) : node.mark? = none := by
  cases node <;> first | rfl | exact (notLine _ rfl).elim

/-- The last case of `move`: a frame does not follow a line mark there. -/
theorem no_pending_frame {pending : Option (LineMark Label)} {node : Node Label}
    (notFrame : ∀ mark shape, pending = some mark → node = .frame shape → False) :
    pending = none ∨ node.isFrame = false := by
  cases pending with
  | none => exact .inl rfl
  | some mark =>
    cases node <;> first | exact .inr rfl | exact (notFrame _ _ rfl rfl).elim

theorem stuck_move (next : Nat) (pending : Option (LineMark Label)) (nodes : List (Node Label)) :
    (move next pending nodes).stuck = none := by
  fun_induction move next pending nodes with
  | case1 next pending => rfl
  | case2 next pending later rest ih => exact ih
  | case3 next mark shape rest ih => exact ih
  | case4 next pending node rest notLine notFrame ih => exact ih

/-! ### Parts of a stream -/

namespace Settled

/-- Two settled streams, one after the other. -/
def append (first second : Settled) : Settled :=
  { nodes := first.nodes ++ second.nodes, moves := first.moves ++ second.moves, stuck := second.stuck }

theorem prepend_append (nodes : List (Node Label)) (first second : Settled) :
    (first.prepend nodes).append second = (first.append second).prepend nodes := by
  simp [append, prepend]

theorem precede_append (old new : Label) (first second : Settled) :
    (first.precede old new).append second = (first.append second).precede old new := rfl

theorem prepend_prepend (nodes later : List (Node Label)) (settled : Settled) :
    (settled.prepend later).prepend nodes = settled.prepend (nodes ++ later) := by
  simp [prepend]

end Settled

theorem settle_held {placed : List Label} {next : Nat} {pending : Option (LineMark Label)} {nodes : List (Node Label)}
    (boundary : startsWithFrame nodes = false) :
    settle placed next pending nodes = (settle placed next none nodes).prepend (held pending) := by
  cases pending with
  | none => rfl
  | some mark =>
    cases nodes with
    | nil => rfl
    | cons node rest =>
      cases node with
      | line later => rfl
      | frame shape => cases boundary
      | insn instruction => exact (Settled.prepend_prepend [.line mark] _ _).symm
      | label here => exact (Settled.prepend_prepend [.line mark] _ _).symm

/-- The parts of a stream before and after a point settle apart, unless the second part starts with a frame. In the
first part every line mark before a frame moves if its label is placed, and its new labels are placed for the second. -/
theorem settle_append (placed : List Label) (next : Nat) {pending : Option (LineMark Label)}
    {before after : List (Node Label)}
    (start : ∀ mark ∈ framedMarks (held pending ++ before), mark.start ∈ placed)
    (boundary : startsWithFrame after = false) :
    settle placed next pending (before ++ after) =
      (move next pending before).append
        (settle (((move next pending before).moves.map Prod.snd).reverse ++ placed)
          (next + (move next pending before).moves.length) none after) := by
  rw [framedMarks_held] at start
  fun_induction move next pending before generalizing placed with
  | case1 next pending => exact settle_held boundary
  | case2 next pending later rest ih =>
    have settled := ih placed (by simpa [Node.isFrame, framedMarks_line] using start)
    cases pending with
    | none => exact settled
    | some mark => exact congrArg (Settled.prepend [.line mark]) settled
  | case3 next mark shape rest ih =>
    simp only [startsWithFrame_cons, Node.isFrame, if_true, Option.toList_some, List.singleton_append,
      List.forall_mem_cons] at start
    obtain ⟨here, later⟩ := start
    -- The mark goes on with its new label, which is placed by now. So it cannot get stuck on its way.
    have crossed := ih (⟨next⟩ :: placed) (by
      intro other member
      rcases List.mem_append.mp member with again | member
      · split at again
        · simp [List.mem_singleton.mp again]
        · cases again
      · exact List.mem_cons_of_mem _ (later other member))
    rw [List.cons_append, settle, if_pos here, Settled.precede_append, Settled.prepend_append]
    dsimp only
    rw [crossed]
    simp only [Settled.precede, Settled.prepend, List.map_cons, List.reverse_cons, List.append_assoc,
      List.singleton_append, List.length_cons, Nat.add_assoc, Nat.add_comm 1]
  | case4 next pending node rest notLine notFrame ih =>
    rw [framedMarks_cons (mark?_eq_none notLine)] at start
    have settled := ih placed (by
      intro mark member
      simp only [Option.toList_none, ite_self, List.nil_append] at member
      exact start mark (List.mem_append_right _ member))
    cases pending with
    | none =>
      rw [List.cons_append, settle, settled, ← Settled.prepend_append]
      · rfl
      · exact notLine
    | some mark =>
      rw [List.cons_append, settle, settled, ← Settled.prepend_append]
      · rfl
      · exact notLine
      · exact fun shape => notFrame mark shape rfl

theorem settle_eq_move (placed : List Label) (next : Nat) (pending : Option (LineMark Label))
    (nodes : List (Node Label))
    (start : ∀ mark ∈ framedMarks (held pending ++ nodes), mark.start ∈ placed) :
    settle placed next pending nodes = move next pending nodes := by
  have settled := settle_append placed next start startsWithFrame_nil
  rw [List.append_nil] at settled
  rw [settled, settle]
  simp [Settled.append, ← stuck_move next pending nodes]

theorem move_append {next : Nat} {pending : Option (LineMark Label)} {before after : List (Node Label)}
    (boundary : startsWithFrame after = false) :
    move next pending (before ++ after) =
      (move next pending before).append (move (next + (move next pending before).moves.length) none after) := by
  let nodes := held pending ++ (before ++ after)
  have inFirst : held pending ++ before <:+: nodes := ⟨[], after, by simp [nodes]⟩
  have inSecond : after <:+: nodes := ⟨held pending ++ before, [], by simp [nodes]⟩
  -- Which labels are placed does not matter for `move`. Take those at which the line marks start.
  have start : ∀ mark ∈ framedMarks nodes, mark.start ∈ (framedMarks nodes).map LineMark.start :=
    fun mark member => List.mem_map_of_mem member
  rw [← settle_eq_move _ next pending _ start,
    settle_append _ next (fun mark member => start mark (framedMarks_subset inFirst member)) boundary,
    settle_eq_move _ _ none after fun mark member =>
      List.mem_append_right _ (start mark (framedMarks_subset inSecond member))]

/-! ### New labels -/

/-- New labels are numbered in stream order. -/
theorem map_snd_moves (next : Nat) (pending : Option (LineMark Label)) (nodes : List (Node Label)) :
    (move next pending nodes).moves.map Prod.snd =
      (List.range' next (move next pending nodes).moves.length).map Label.mk := by
  fun_induction move next pending nodes with
  | case1 next pending => rfl
  | case2 next pending later rest ih => exact ih
  | case3 next mark shape rest ih =>
    simp only [Settled.precede, Settled.prepend, List.map_cons, List.length_cons, List.range'_succ, ih]
  | case4 next pending node rest notLine notFrame ih => exact ih

theorem nodup_map_snd_moves (next : Nat) (pending : Option (LineMark Label)) (nodes : List (Node Label)) :
    ((move next pending nodes).moves.map Prod.snd).Nodup := by
  rw [map_snd_moves]
  exact (List.nodup_range' 1).map fun _ _ same => congrArg Label.id same

theorem mem_new_iff (next : Nat) (pending : Option (LineMark Label)) (nodes : List (Node Label)) (label : Label) :
    label ∈ (move next pending nodes).moves.map Prod.snd ↔
      next ≤ label.id ∧ label.id < next + (move next pending nodes).moves.length := by
  rw [map_snd_moves, List.mem_map]
  constructor
  · rintro ⟨id, member, rfl⟩
    simpa [List.mem_range'_1] using member
  · exact fun bounds => ⟨label.id, by simpa [List.mem_range'_1] using bounds, rfl⟩

/-- The placements of a settled stream are those of the stream and the new labels. -/
theorem count_placements_move (next : Nat) (pending : Option (LineMark Label)) (nodes : List (Node Label))
    (label : Label) :
    (placements (move next pending nodes).nodes).count label =
      (placements nodes).count label + ((move next pending nodes).moves.map Prod.snd).count label := by
  fun_induction move next pending nodes with
  | case1 next pending =>
    rw [placements_held]
    rfl
  | case2 next pending later rest ih =>
    simp only [Settled.prepend, placements_append, placements_held, List.nil_append, ih]
    rfl
  | case3 next mark shape rest ih =>
    have front : placements [.frame shape, spacer, .label ⟨next⟩] = [⟨next⟩] := rfl
    simp only [Settled.precede, Settled.prepend, placements_append, front, List.singleton_append, List.map_cons,
      List.count_cons, ih]
    have same : placements (.frame shape :: rest) = placements rest := rfl
    rw [same]
    omega
  | case4 next pending node rest notLine notFrame ih =>
    have parted : placements (node :: rest) = placements [node] ++ placements rest := placements_append [node] rest
    simp only [Settled.prepend, placements_append, placements_held, List.nil_append, List.count_append, ih, parted]
    omega

theorem mem_placements_move (next : Nat) (pending : Option (LineMark Label)) (nodes : List (Node Label))
    (label : Label) :
    label ∈ placements (move next pending nodes).nodes ↔
      label ∈ placements nodes ∨ next ≤ label.id ∧ label.id < next + (move next pending nodes).moves.length := by
  rw [← mem_new_iff, ← List.count_pos_iff, ← List.count_pos_iff, ← List.count_pos_iff, count_placements_move]
  omega

theorem not_mem_placements_move {next : Nat} {label : Label} (below : label.id < next) {nodes : List (Node Label)}
    (absent : label ∉ placements nodes) : label ∉ placements (move next none nodes).nodes := by
  rw [mem_placements_move]
  rintro (placed | ⟨above, -⟩)
  · exact absent placed
  · omega

/-- The label that comes after the new ones is not placed yet. -/
theorem next_not_placed {next : Nat} {nodes : List (Node Label)} (small : ∀ other ∈ placements nodes, other.id < next) :
    ⟨next + (move next none nodes).moves.length⟩ ∉ placements (move next none nodes).nodes := by
  rw [mem_placements_move]
  rintro (placed | ⟨-, bound⟩)
  · have bound := small _ placed
    dsimp only at bound
    omega
  · dsimp only at bound
    omega

/-! ### What stays -/

/-- What is read off nodes other than line marks, labels and spacers stays the same. -/
theorem filterMap_move {α : Type} {f : Node Label → Option α} (onLine : ∀ mark, f (.line mark) = none)
    (onLabel : ∀ label, f (.label label) = none) (onSpacer : f spacer = none) (next : Nat)
    (pending : Option (LineMark Label)) (nodes : List (Node Label)) :
    (move next pending nodes).nodes.filterMap f = nodes.filterMap f := by
  have heldNone := filterMap_held onLine
  fun_induction move next pending nodes with
  | case1 next pending => simp [heldNone]
  | case2 next pending later rest ih => simp [Settled.prepend, heldNone, onLine, ih]
  | case3 next mark shape rest ih => simp [Settled.precede, Settled.prepend, List.filterMap_cons, onLabel, onSpacer, ih]
  | case4 next pending node rest notLine notFrame ih => simp [Settled.prepend, heldNone, List.filterMap_cons, ih]

theorem countP_move {p : Node Label → Bool} (onLine : ∀ mark, p (.line mark) = false)
    (onLabel : ∀ label, p (.label label) = false) (onSpacer : p spacer = false) (next : Nat)
    (pending : Option (LineMark Label)) (nodes : List (Node Label)) :
    (move next pending nodes).nodes.countP p = nodes.countP p := by
  have kept := filterMap_move (f := Option.guard p) (by simp [onLine]) (by simp [onLabel]) (by simp [onSpacer]) next
    pending nodes
  simp only [List.countP_eq_length_filter, ← List.filterMap_eq_filter, kept]

/-- A node of a settled stream was there before, or it is a spacer, or it is a label or a line mark at a new label. -/
theorem mem_move_cases {next : Nat} {pending : Option (LineMark Label)} {nodes : List (Node Label)}
    {node : Node Label} (member : node ∈ (move next pending nodes).nodes) :
    node ∈ held pending ++ nodes ∨ node = spacer ∨
      ∃ label ∈ (move next pending nodes).moves.map Prod.snd,
        node = .label label ∨ ∃ number, node = .line { number, start := label } := by
  fun_induction move next pending nodes with
  | case1 next pending => exact .inl (List.mem_append_left _ member)
  | case2 next pending later rest ih =>
    rcases List.mem_append.mp member with waiting | member
    · exact .inl (List.mem_append_left _ waiting)
    · exact (ih member).imp_left (List.mem_append_right _)
  | case3 next mark shape rest ih =>
    simp only [Settled.precede, Settled.prepend, List.cons_append, List.nil_append, List.mem_cons] at member
    rcases member with rfl | rfl | rfl | member
    · exact .inl (List.mem_append_right _ List.mem_cons_self)
    · exact .inr (.inl rfl)
    · exact .inr (.inr ⟨⟨next⟩, List.mem_cons_self, .inl rfl⟩)
    · rcases ih member with kept | rfl | ⟨label, new, there⟩
      -- The mark that waits for the rest of the stream is the one that has just moved.
      · rcases List.mem_cons.mp kept with rfl | kept
        · exact .inr (.inr ⟨⟨next⟩, List.mem_cons_self, .inr ⟨mark.number, rfl⟩⟩)
        · exact .inl (List.mem_append_right _ (List.mem_cons_of_mem _ kept))
      · exact .inr (.inl rfl)
      · exact .inr (.inr ⟨label, List.mem_cons_of_mem _ new, there⟩)
  | case4 next pending here rest notLine notFrame ih =>
    simp only [Settled.prepend, List.append_assoc, List.singleton_append] at member
    rcases List.mem_append.mp member with waiting | member
    · exact .inl (List.mem_append_left _ waiting)
    · rcases List.mem_cons.mp member with rfl | member
      · exact .inl (List.mem_append_right _ List.mem_cons_self)
      · exact (ih member).imp_left fun kept => List.mem_append_right _ (List.mem_cons_of_mem _ kept)

theorem mem_move {next : Nat} {pending : Option (LineMark Label)} {nodes : List (Node Label)}
    {instruction : Instruction Label} (member : .insn instruction ∈ (move next pending nodes).nodes) :
    .insn instruction ∈ nodes ∨ Node.insn instruction = spacer := by
  rcases mem_move_cases member with kept | spaced | ⟨label, -, here | ⟨number, here⟩⟩
  · have notHeld : .insn instruction ∉ held pending := by cases pending <;> simp [held]
    exact .inl ((List.mem_append.mp kept).resolve_left notHeld)
  · exact .inr spaced
  · cases here
  · cases here

/-! ### Moves -/

/-- A stream in which no line mark stands before a frame stays as it is, and any other has a mark that moves. -/
theorem moves_eq_nil_iff (next : Nat) (pending : Option (LineMark Label)) (nodes : List (Node Label)) :
    (move next pending nodes).moves = [] ↔ framedMarks (held pending ++ nodes) = [] := by
  rw [framedMarks_held]
  fun_induction move next pending nodes with
  | case1 next pending => simp [framedMarks]
  | case2 next pending later rest ih => simpa [Settled.prepend, Node.isFrame, framedMarks_line] using ih
  | case3 next mark shape rest ih => simp [Settled.precede, Node.isFrame]
  | case4 next pending node rest notLine notFrame ih =>
    rw [framedMarks_cons (mark?_eq_none notLine)]
    rcases no_pending_frame notFrame with rfl | unframed
    · simpa only [Settled.prepend, Option.toList_none, ite_self, List.nil_append] using ih
    · simpa [Settled.prepend, unframed] using ih

theorem move_of_unframed {next : Nat} {pending : Option (LineMark Label)} {nodes : List (Node Label)}
    (none : (move next pending nodes).moves = []) : (move next pending nodes).nodes = held pending ++ nodes := by
  fun_induction move next pending nodes with
  | case1 next pending => simp
  | case2 next pending later rest ih => simp [Settled.prepend, ih none, held]
  | case3 next mark shape rest ih => cases none
  | case4 next pending node rest notLine notFrame ih => simp [Settled.prepend, ih none, held]

/-- A mark that moves starts at a new label or at the label of a line mark before a frame. -/
theorem start_of_mem_moves {next : Nat} {pending : Option (LineMark Label)} {nodes : List (Node Label)}
    {old new : Label} (moved : (old, new) ∈ (move next pending nodes).moves) :
    next ≤ old.id ∨ ∃ mark ∈ framedMarks (held pending ++ nodes), mark.start = old := by
  rw [framedMarks_held]
  fun_induction move next pending nodes with
  | case1 next pending => cases moved
  | case2 next pending later rest ih => simpa [Node.isFrame, framedMarks_line] using ih moved
  | case3 next mark shape rest ih =>
    rcases List.mem_cons.mp moved with same | moved
    · cases same
      exact .inr ⟨mark, by simp [Node.isFrame], rfl⟩
    · rcases ih moved with fresh | ⟨other, member, same⟩
      · exact .inl (by omega)
      · rcases List.mem_append.mp member with again | member
        · split at again
          · obtain rfl := List.mem_singleton.mp again
            exact .inl (by simp [← same])
          · cases again
        · exact .inr ⟨other, by simp [framedMarks, member], same⟩
  | case4 next pending node rest notLine notFrame ih =>
    have later : next ≤ old.id ∨ ∃ mark ∈ framedMarks rest, mark.start = old := by simpa using ih moved
    rw [framedMarks_cons (mark?_eq_none notLine)]
    exact later.imp_right fun ⟨mark, member, same⟩ => ⟨mark, List.mem_append_right _ member, same⟩

theorem ne_of_mem_moves {next : Nat} {pending : Option (LineMark Label)} {nodes : List (Node Label)} {label : Label}
    (below : label.id < next) (unmoved : ∀ mark ∈ framedMarks (held pending ++ nodes), mark.start ≠ label) :
    ∀ old new, (old, new) ∈ (move next pending nodes).moves → old ≠ label := by
  rintro old new moved rfl
  rcases start_of_mem_moves moved with fresh | ⟨mark, member, start⟩
  · omega
  · exact unmoved mark member start

theorem lookup_reverse_eq_none {moves : List (Label × Label)} {label : Label}
    (unmoved : ∀ old new, (old, new) ∈ moves → old ≠ label) : moves.reverse.lookup label = none := by
  refine List.lookup_eq_none_iff.mpr fun ⟨old, new⟩ member => ?_
  simpa using (unmoved old new (List.mem_reverse.mp member)).symm

theorem replacement_of_unmoved {moves : List (Label × Label)} {label : Label}
    (unmoved : ∀ old new, (old, new) ∈ moves → old ≠ label) : replacement moves label = label := by
  rw [replacement, lookup_reverse_eq_none unmoved, Option.getD_none]

theorem replacement_of_last {earlier later : List (Label × Label)} {label new : Label}
    (last : ∀ old new, (old, new) ∈ later → old ≠ label) :
    replacement (earlier ++ (label, new) :: later) label = new := by
  simp [replacement, List.lookup_append, lookup_reverse_eq_none last]

/-! ### Normalization -/

/-- Patching the frames of a stream leaves its other nodes alone. -/
theorem mem_map_moved {moves : List (Label × Label)} {nodes : List (Node Label)} {node : Node Label}
    (notFrame : node.isFrame = false) : node ∈ nodes.map (Node.moved moves) ↔ node ∈ nodes := by
  have fixed : ∀ other : Node Label, other.moved moves = node ↔ other = node := by
    intro other
    cases other with
    | frame shape =>
      have apart : ∀ shape, Node.frame shape ≠ node := by
        rintro shape rfl
        cases notFrame
      exact iff_of_false (apart _) (apart _)
    | _ => rfl
  simp [List.mem_map, fixed]

/-- What is read off nodes without looking at the stacks of frames stays the same when they are patched. -/
theorem filterMap_map_moved {α : Type} {f : Node Label → Option α} {moves : List (Label × Label)}
    (blind : ∀ node : Node Label, f (node.moved moves) = f node) (nodes : List (Node Label)) :
    (nodes.map (Node.moved moves)).filterMap f = nodes.filterMap f := by
  rw [List.filterMap_map]
  congr 1
  funext node
  exact blind node

theorem placements_map_moved (moves : List (Label × Label)) (nodes : List (Node Label)) :
    placements (nodes.map (Node.moved moves)) = placements nodes :=
  filterMap_map_moved (fun node => by cases node <;> rfl) nodes

theorem opcodes_map_moved (moves : List (Label × Label)) (nodes : List (Node Label)) :
    opcodes (nodes.map (Node.moved moves)) = opcodes nodes :=
  filterMap_map_moved (fun node => by cases node <;> rfl) nodes

namespace Method

theorem Valid.framed {m : Method} (valid : m.Valid) :
    ∀ mark ∈ framedMarks m.nodes, mark.start ∈ placements m.nodes := by
  intro mark member
  obtain ⟨shape, found⟩ := mem_framedMarks.mp member
  exact valid.lines mark (found.subset (by simp))

theorem Bounded.placed_lt {m : Method} (bounded : m.Bounded) {label : Label} (placed : label ∈ placements m.nodes) :
    label.id < m.numLabels :=
  bounded.nodes _ (mem_placements.mp placed) label (by simp [Node.labels])

/-- Normalization of a method in which the line marks before frames start at placed labels. -/
theorem normalize_eq_move {m : Method}
    (start : ∀ mark ∈ framedMarks m.nodes, mark.start ∈ placements m.nodes) :
    m.normalize =
      let moved := move m.numLabels none m.nodes
      { method := m.extend (moved.nodes.map (Node.moved moved.moves)) (moved.moves.map Prod.snd)
        result := .ok moved.moves.length } := by
  have settled : m.settled = move m.numLabels none m.nodes := settle_eq_move _ _ none _ start
  simp only [normalize, settled, stuck_move]

end Method

end ProbePoints
