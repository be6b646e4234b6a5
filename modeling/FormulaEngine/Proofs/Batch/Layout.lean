import FormulaEngine.Batch.Layout
import FormulaEngine.Proofs.Batch.LevelOrder
import FormulaEngine.Proofs.Emission

/-!
# Laid-out code

What the layout makes of a body, said on its level order: when every check passes, and which
instruction then stands at which position.

- `Node.BatchSupported`: what the layout demands of a node on its own, and `Node.batchSupported_iff`:
  compilation demands the same of nodes that have a kernel;
- `Node.layout_eq_ok`: a body is laid out when its nodes are supported and fit, and every node has
  its instruction at its position in level order;
- `Node.layout_fault`: the layout stops only for want of storage;
- `Node.getElem?_laidOut`: the instruction at a position, with the position of its children.
-/

namespace FormulaEngine

/-- Changing the error does not change when a computation succeeds. -/
theorem mapError_eq_ok {ε ε' α : Type} {f : ε → ε'} {result : Except ε α} {value : α} :
    result.mapError f = .ok value ↔ result = .ok value := by
  cases result <;> simp [Except.mapError]

namespace Node

/-- The node has an opcode that a batch can run, and as many children as the opcode accepts and an
instruction can count. -/
structure BatchSupported (node : Node) : Prop where
  kernel : ∃ op kernel, node.symbol.opcode? = some op ∧ op.kernel? = some kernel ∧
    op.arity.accepts node.children.length = true
  children : node.children.length ≤ addressLimit

/-- A batch can run what compiles and has a kernel. -/
theorem batchSupported_iff {node : Node} :
    node.BatchSupported ↔ node.Supported ∧ node.isBatchNode = true := by
  have hbatch : node.isBatchNode = true ↔
      ∃ op kernel, node.symbol.opcode? = some op ∧ op.kernel? = some kernel := by
    unfold isBatchNode
    cases node.symbol.opcode? with
    | none => simp
    | some op => simp [Opcode.isBatchSupported, Option.isSome_iff_exists]
  rw [hbatch]
  constructor
  · rintro ⟨⟨op, kernel, hop, hkernel, haccepts⟩, hmany⟩
    exact ⟨⟨⟨op, hop, haccepts⟩, hmany⟩, op, kernel, hop, hkernel⟩
  · rintro ⟨⟨⟨op, hop, haccepts⟩, hmany⟩, other, kernel, hother, hkernel⟩
    obtain rfl := Option.some.inj (hop.symm.trans hother)
    exact ⟨⟨op, kernel, hop, hkernel, haccepts⟩, hmany⟩

/-- The new instruction of a node whose children stand from `next` on. A symbol that a batch cannot
run has no instruction; what stands here for it does not matter. -/
def batchInstruction (cache : ColumnCache) (lanes next : Nat) (node : Node) : BatchInstruction where
  opcode := node.symbol.opcode?.getD .constant
  kernel := (node.symbol.opcode?.bind Opcode.kernel?).getD .filled
  argCount := node.children.length
  childIndex := if 0 < node.children.length then next else 0
  weight := node.symbol.batchWeight
  column := node.symbol.batchColumn cache
  buffer := List.replicate lanes node.symbol.batchFill

/-- The new instructions of several nodes; the children of the first stand from `next` on and those
of the others behind them. -/
def laidOut (cache : ColumnCache) (lanes : Nat) : (next : Nat) → List Node → List BatchInstruction
  | _, [] => []
  | next, node :: rest =>
    node.batchInstruction cache lanes next :: laidOut cache lanes (next + node.children.length) rest

theorem length_laidOut (cache : ColumnCache) (lanes next : Nat) (nodes : List Node) :
    (laidOut cache lanes next nodes).length = nodes.length := by
  induction nodes generalizing next with
  | nil => rfl
  | cons node rest ih => rw [laidOut, List.length_cons, ih, List.length_cons]

/-- The children of the node at a position stand behind those of the nodes before it. -/
theorem getElem?_laidOut (cache : ColumnCache) (lanes next : Nat) (nodes : List Node) (k : Nat) :
    (laidOut cache lanes next nodes)[k]? =
      nodes[k]?.map (batchInstruction cache lanes (next + (childrenAll (nodes.take k)).length)) := by
  induction nodes generalizing next k with
  | nil => rfl
  | cons node rest ih =>
    cases k with
    | zero => rfl
    | succ k =>
      rw [laidOut, List.getElem?_cons_succ, ih, List.getElem?_cons_succ, List.take_succ_cons,
        childrenAll_cons, List.length_append, Nat.add_assoc]

end Node

/-! ## Layout of nodes -/

namespace BatchDraft

variable {cache : ColumnCache} {lanes required : Nat}

theorem accept_eq_ok {draft : BatchDraft} {node : Node} {op : Opcode} {kernel : Kernel}
    {argCount : Nat} :
    accept required draft node = .ok (op, kernel, argCount) ↔
      node.symbol.opcode? = some op ∧ op.kernel? = some kernel ∧
        node.checkChildren op = .ok argCount ∧ draft.code.size < addressLimit := by
  have hkernel : op.kernel = .ok kernel ↔ op.kernel? = some kernel := by
    unfold Opcode.kernel
    cases op.kernel? <;> simp
  unfold accept
  constructor
  · intro h
    obtain ⟨found, hop, h⟩ := bind_eq_ok.mp h
    obtain ⟨foundKernel, hfound, h⟩ := bind_eq_ok.mp h
    obtain ⟨count, hcount, h⟩ := bind_eq_ok.mp h
    by_cases hfull : addressLimit ≤ draft.code.size
    · simp [hfull, bind, Except.bind, throw, throwThe, MonadExceptOf.throw] at h
    · simp only [hfull, if_false, bind, Except.bind, pure, Except.pure, Except.ok.injEq,
        Prod.mk.injEq] at h
      obtain ⟨rfl, rfl, rfl⟩ := h
      exact ⟨Node.opcode_eq_ok.mp hop, hkernel.mp hfound, hcount, Nat.not_le.mp hfull⟩
  · rintro ⟨hop, hfound, hcount, hroom⟩
    refine bind_eq_ok.mpr ⟨op, Node.opcode_eq_ok.mpr hop, bind_eq_ok.mpr ⟨kernel,
      hkernel.mpr hfound, bind_eq_ok.mpr ⟨argCount, hcount, ?_⟩⟩⟩
    simp [Nat.not_le.mpr hroom, pure, Except.pure]

/-- The draft with the instructions of `nodes` at its end. -/
def extend (cache : ColumnCache) (lanes : Nat) (draft : BatchDraft) (nodes : List Node) :
    BatchDraft where
  code := draft.code ++ (Node.laidOut cache lanes draft.nextChild nodes).toArray
  nextChild := draft.nextChild + (Node.childrenAll nodes).length

theorem extend_nil (draft : BatchDraft) : draft.extend cache lanes [] = draft := by
  simp [extend, Node.laidOut]

theorem extend_cons (draft : BatchDraft) (node : Node) (rest : List Node) :
    draft.extend cache lanes (node :: rest) =
      (draft.extend cache lanes [node]).extend cache lanes rest := by
  simp [extend, Node.laidOut, Nat.add_assoc]

theorem append_eq_ok {draft after : BatchDraft} {node : Node} :
    append cache lanes required draft node = .ok after ↔
      node.BatchSupported ∧ draft.code.size < addressLimit ∧ lanes ≤ storageLimit ∧
        after = draft.extend cache lanes [node] := by
  have hbuffer : filledBuffer lanes node.symbol.batchFill =
      if lanes ≤ storageLimit then .ok (List.replicate lanes node.symbol.batchFill)
      else .error .outOfStorage := rfl
  unfold append
  constructor
  · intro h
    obtain ⟨⟨op, kernel, argCount⟩, haccept, h⟩ := bind_eq_ok.mp h
    obtain ⟨buffer, hfilled, h⟩ := bind_eq_ok.mp h
    obtain ⟨hop, hkernel, hcount, hroom⟩ := accept_eq_ok.mp (mapError_eq_ok.mp haccept)
    obtain ⟨hmany, haccepts, rfl⟩ := Node.checkChildren_eq_ok.mp hcount
    rw [mapError_eq_ok, hbuffer] at hfilled
    by_cases hstorage : lanes ≤ storageLimit
    · rw [if_pos hstorage] at hfilled
      cases hfilled
      refine ⟨⟨⟨op, kernel, hop, hkernel, haccepts⟩, hmany⟩, hroom, hstorage, ?_⟩
      simp only [pure, Except.pure, Except.ok.injEq] at h
      rw [← h]
      simp [extend, Node.laidOut, Node.batchInstruction, hop, hkernel]
    · rw [if_neg hstorage] at hfilled
      cases hfilled
  · rintro ⟨⟨⟨op, kernel, hop, hkernel, haccepts⟩, hmany⟩, hroom, hstorage, rfl⟩
    have hcount := Node.checkChildren_eq_ok.mpr ⟨hmany, haccepts, rfl⟩
    refine bind_eq_ok.mpr ⟨(op, kernel, node.children.length),
      mapError_eq_ok.mpr (accept_eq_ok.mpr ⟨hop, hkernel, hcount, hroom⟩), ?_⟩
    refine bind_eq_ok.mpr ⟨_, mapError_eq_ok.mpr (hbuffer.trans (if_pos hstorage)), ?_⟩
    simp [pure, Except.pure, extend, Node.laidOut, Node.batchInstruction, hop, hkernel]

theorem foldlM_append_eq_ok {nodes : List Node} {draft after : BatchDraft} :
    nodes.foldlM (append cache lanes required) draft = .ok after ↔
      (∀ node ∈ nodes, node.BatchSupported) ∧
        (nodes = [] ∨ draft.code.size + nodes.length ≤ addressLimit ∧ lanes ≤ storageLimit) ∧
          after = draft.extend cache lanes nodes := by
  induction nodes generalizing draft with
  | nil => simp [pure, Except.pure, extend_nil, eq_comm]
  | cons node rest ih =>
    have hsize : (draft.extend cache lanes [node]).code.size = draft.code.size + 1 := by
      simp [extend, Node.laidOut]
    rw [List.foldlM_cons, bind_eq_ok]
    constructor
    · rintro ⟨next, hnext, hrest⟩
      obtain ⟨hnode, hroom, hstorage, rfl⟩ := append_eq_ok.mp hnext
      obtain ⟨hsupported, hfits, rfl⟩ := ih.mp hrest
      rw [hsize] at hfits
      refine ⟨List.forall_mem_cons.mpr ⟨hnode, hsupported⟩, Or.inr ⟨?_, hstorage⟩,
        (extend_cons draft node rest).symm⟩
      rw [List.length_cons]
      rcases hfits with rfl | ⟨hfits, -⟩
      · exact hroom
      · omega
    · rintro ⟨hsupported, hfits, rfl⟩
      obtain ⟨hnode, hrest⟩ := List.forall_mem_cons.mp hsupported
      rcases hfits with hnone | ⟨hfits, hstorage⟩
      · cases hnone
      · rw [List.length_cons] at hfits
        refine ⟨_, append_eq_ok.mpr ⟨hnode, by omega, hstorage, rfl⟩,
          ih.mpr ⟨hrest, Or.inr ⟨?_, hstorage⟩, extend_cons draft node rest⟩⟩
        rw [hsize]
        omega

end BatchDraft

namespace Node

variable {cache : ColumnCache} {lanes : Nat} {body : Node}

/-- A body is laid out when its nodes are supported and fit, with the instruction of every node at
its position in level order. -/
theorem layout_eq_ok {code : Array BatchInstruction} :
    body.layout cache lanes = .ok code ↔
      (∀ node ∈ body.breadthOrder, node.BatchSupported) ∧
        body.breadthOrder.length ≤ addressLimit ∧ lanes ≤ storageLimit ∧
          code = (laidOut cache lanes 1 body.breadthOrder).toArray := by
  -- there is a root, so the limits are checked at least once
  have hne : body.breadthOrder ≠ [] := by
    rw [body.breadthOrder_levelOrder.eq]
    exact List.cons_ne_nil _ _
  unfold layout
  rw [bind_eq_ok]
  constructor
  · rintro ⟨draft, hdraft, h⟩
    obtain ⟨hsupported, hfits, rfl⟩ := BatchDraft.foldlM_append_eq_ok.mp hdraft
    obtain ⟨hsize, hstorage⟩ := hfits.resolve_left hne
    refine ⟨hsupported, by simpa using hsize, hstorage, ?_⟩
    simpa [pure, Except.pure, BatchDraft.extend, eq_comm] using h
  · rintro ⟨hsupported, hsize, hstorage, rfl⟩
    refine ⟨_, BatchDraft.foldlM_append_eq_ok.mpr
      ⟨hsupported, Or.inr ⟨by simpa using hsize, hstorage⟩, rfl⟩, ?_⟩
    simp [pure, Except.pure, BatchDraft.extend]

end Node

/-! ## Storage -/

/-- A computation that may be refused, but that stops only for a reason that is allowed. -/
def FaultsOnly {α : Type} (allowed : Fault → Prop) (result : Except Failure α) : Prop :=
  ∀ cause, result = .error (.fault cause) → allowed cause

theorem faultsOnly_bind {α β : Type} {allowed : Fault → Prop} {first : Except Failure α}
    {next : α → Except Failure β} (hfirst : FaultsOnly allowed first)
    (hnext : ∀ value, FaultsOnly allowed (next value)) : FaultsOnly allowed (first >>= next) := by
  cases first with
  | error failure =>
    intro cause h
    have hfailure : failure = .fault cause := Except.error.inj h
    exact hfirst cause (congrArg Except.error hfailure)
  | ok value => exact hnext value

/-- Storage is lacking for buffers of so many lanes. -/
def LacksStorage (lanes : Nat) (cause : Fault) : Prop :=
  cause = .outOfStorage ∧ storageLimit < lanes

theorem BatchDraft.faultsOnly_append (cache : ColumnCache) (lanes required : Nat)
    (draft : BatchDraft) (node : Node) :
    FaultsOnly (LacksStorage lanes) (append cache lanes required draft node) := by
  refine faultsOnly_bind ?_ fun accepted => faultsOnly_bind ?_ fun buffer => ?_
  · intro cause h
    cases haccept : accept required draft node with
    | error error => simp [haccept, Except.mapError] at h
    | ok accepted => simp [haccept, Except.mapError] at h
  · intro cause h
    unfold filledBuffer at h
    by_cases hstorage : lanes ≤ storageLimit
    · simp [hstorage, Except.mapError] at h
    · rw [if_neg hstorage] at h
      cases h
      exact ⟨rfl, Nat.not_le.mp hstorage⟩
  · intro cause h
    cases h

/-- The layout stops for no other reason than a buffer that is too long. -/
theorem Node.layout_fault (body : Node) (cache : ColumnCache) (lanes : Nat) :
    FaultsOnly (LacksStorage lanes) (body.layout cache lanes) := by
  have hfold : ∀ (nodes : List Node) (draft : BatchDraft), FaultsOnly (LacksStorage lanes)
      (nodes.foldlM (BatchDraft.append cache lanes body.count) draft) := by
    intro nodes
    induction nodes with
    | nil =>
      intro draft cause h
      cases h
    | cons node rest ih =>
      intro draft
      rw [List.foldlM_cons]
      exact faultsOnly_bind (BatchDraft.faultsOnly_append _ _ _ _ _) ih
  refine faultsOnly_bind (hfold _ _) fun draft => ?_
  intro cause h
  cases h

end FormulaEngine
