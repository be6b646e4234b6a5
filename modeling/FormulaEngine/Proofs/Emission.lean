import FormulaEngine.Compilation
import FormulaEngine.Proofs.PrefixOrder
import Mathlib.Algebra.Ring.Nat

/-!
# Compiled code

What compilation makes of a formula, said on the tree: when every check passes, and what the program
is then. The proofs go along the stages of compilation; each stage has one statement that says when
it succeeds and with which result.

- `Node.Supported`: what compilation demands of a node on its own;
- `Draft.emit_eq_ok`: emission appends the instructions of a subtree in prefix order;
- `Formula.definitions_eq_ok`: the functions, when each has a body and a name of its own;
- `Formula.emission_eq_ok`: the first pass, which emits all bodies, under any hooks;
- `Formula.compile_eq_ok`: a formula compiles when its bodies are there, its nodes are supported and
  fit into the program, and its calls name functions; the program then holds the bodies one after
  another.
-/

namespace FormulaEngine

/-- A computation that goes on after another one succeeds when both do. -/
theorem bind_eq_ok {ε α β : Type} {first : Except ε α} {next : α → Except ε β} {result : β} :
    (first >>= next) = .ok result ↔ ∃ value, first = .ok value ∧ next value = .ok result := by
  cases first with
  | error cause => simp [bind, Except.bind]
  | ok value => simp [bind, Except.bind]

/-! ## Single nodes -/

/-- The instruction of a node whose call is not resolved. A symbol without an opcode has no
instruction; what stands here for it does not matter. -/
def Node.instruction (node : Node) : Instruction where
  node
  opcode := node.symbol.opcode?.getD .constant
  argCount := node.children.length

/-- The instruction after all hooks, the first one first. -/
def Instruction.rewritten (hooks : List Hook) (i : Instruction) : Instruction :=
  hooks.foldl (fun i hook => hook i) i

@[simp] theorem Instruction.rewritten_nil (i : Instruction) : i.rewritten [] = i := rfl

/-- What the instruction of a node asks of the stack. -/
def Node.callSize (node : Node) : Nat :=
  if node.symbol.opcode? = some .call then node.children.length + 1 else 0

/-- The node has an opcode, and as many children as the opcode accepts and an instruction can
count. -/
structure Node.Supported (node : Node) : Prop where
  opcode : ∃ op, node.symbol.opcode? = some op ∧ op.arity.accepts node.children.length = true
  children : node.children.length ≤ addressLimit

instance (node : Node) : Decidable node.Supported :=
  match h : node.symbol.opcode? with
  | none => isFalse fun hnode => by
    obtain ⟨op, hop, -⟩ := hnode.opcode
    rw [h] at hop
    cases hop
  | some op =>
    decidable_of_iff
      (op.arity.accepts node.children.length = true ∧ node.children.length ≤ addressLimit) <| by
    constructor
    · rintro ⟨haccepts, hmany⟩
      exact ⟨⟨op, h, haccepts⟩, hmany⟩
    · rintro ⟨⟨other, hother, haccepts⟩, hmany⟩
      rw [h] at hother
      cases hother
      exact ⟨haccepts, hmany⟩

theorem Node.opcode_eq_ok {node : Node} {op : Opcode} :
    node.opcode = .ok op ↔ node.symbol.opcode? = some op := by
  unfold Node.opcode
  cases node.symbol.opcode? with
  | none => simp
  | some _ => simp

theorem Node.checkChildren_eq_ok {node : Node} {op : Opcode} {count : Nat} :
    node.checkChildren op = .ok count ↔
      node.children.length ≤ addressLimit ∧ op.arity.accepts node.children.length = true ∧
        count = node.children.length := by
  unfold Node.checkChildren
  by_cases hmany : addressLimit < node.children.length
  · simp [hmany, Nat.not_le.mpr hmany]
  · by_cases haccepts : op.arity.accepts node.children.length
    · simp [hmany, haccepts, Nat.not_lt.mp hmany, eq_comm]
    · simp [hmany, haccepts]

/-! ## Emission -/

namespace Draft

variable {hooks : List Hook} {required : Nat}

/-- The draft with the instructions of `nodes` at its end. -/
def extend (hooks : List Hook) (draft : Draft) (nodes : List Node) : Draft where
  code := draft.code ++ (nodes.map fun node => node.instruction.rewritten hooks).toArray
  entryPoints := draft.entryPoints
  callStackSize := draft.callStackSize + (nodes.map Node.callSize).sum

@[simp] theorem extend_nil (draft : Draft) : draft.extend hooks [] = draft := by
  simp [extend]

theorem extend_append (draft : Draft) (front back : List Node) :
    draft.extend hooks (front ++ back) = (draft.extend hooks front).extend hooks back := by
  simp [extend, Nat.add_assoc]

@[simp] theorem size_extend (draft : Draft) (nodes : List Node) :
    (draft.extend hooks nodes).code.size = draft.code.size + nodes.length := by
  simp [extend]

theorem append_eq_ok {draft after : Draft} {node : Node} :
    append hooks required draft node = .ok after ↔
      node.Supported ∧ draft.code.size < addressLimit ∧ after = draft.extend hooks [node] := by
  unfold append
  constructor
  · intro h
    obtain ⟨op, hop, h⟩ := bind_eq_ok.mp h
    obtain ⟨argCount, hcount, h⟩ := bind_eq_ok.mp h
    rw [Node.opcode_eq_ok] at hop
    obtain ⟨hmany, haccepts, rfl⟩ := Node.checkChildren_eq_ok.mp hcount
    by_cases hfull : addressLimit ≤ draft.code.size
    · simp [hfull, bind, Except.bind, throw, throwThe, MonadExceptOf.throw] at h
    · refine ⟨⟨⟨op, hop, haccepts⟩, hmany⟩, by omega, ?_⟩
      simp only [hfull, if_false, bind, Except.bind, pure, Except.pure, Except.ok.injEq] at h
      rw [← h]
      simp [extend, Node.instruction, Node.callSize, hop, Instruction.rewritten]
  · rintro ⟨⟨⟨op, hop, haccepts⟩, hmany⟩, hroom, rfl⟩
    refine bind_eq_ok.mpr ⟨op, Node.opcode_eq_ok.mpr hop, ?_⟩
    refine bind_eq_ok.mpr ⟨_, Node.checkChildren_eq_ok.mpr ⟨hmany, haccepts, rfl⟩, ?_⟩
    simp [Nat.not_le.mpr hroom, pure, Except.pure, extend, Node.instruction, Node.callSize, hop,
      Instruction.rewritten]

theorem foldlM_append_eq_ok {nodes : List Node} {draft after : Draft} :
    nodes.foldlM (append hooks required) draft = .ok after ↔
      (∀ node ∈ nodes, node.Supported) ∧
        (nodes = [] ∨ draft.code.size + nodes.length ≤ addressLimit) ∧
          after = draft.extend hooks nodes := by
  induction nodes generalizing draft with
  | nil => simp [pure, Except.pure, eq_comm]
  | cons node rest ih =>
    rw [List.foldlM_cons, bind_eq_ok]
    constructor
    · rintro ⟨next, hnext, hrest⟩
      obtain ⟨hnode, hroom, rfl⟩ := append_eq_ok.mp hnext
      obtain ⟨hsupported, hsize, rfl⟩ := ih.mp hrest
      refine ⟨List.forall_mem_cons.mpr ⟨hnode, hsupported⟩, Or.inr ?_, ?_⟩
      · rcases hsize with rfl | hsize
        · simpa using Nat.succ_le_of_lt hroom
        · rw [size_extend, List.length_singleton] at hsize
          rw [List.length_cons]
          omega
      · rw [← extend_append, List.singleton_append]
    · rintro ⟨hsupported, hsize, rfl⟩
      obtain ⟨hnode, hrest⟩ := List.forall_mem_cons.mp hsupported
      have hsize : draft.code.size + (rest.length + 1) ≤ addressLimit := by
        simpa using hsize
      refine ⟨_, append_eq_ok.mpr ⟨hnode, by omega, rfl⟩, ih.mpr ⟨hrest, Or.inr ?_, ?_⟩⟩
      · rw [size_extend, List.length_singleton]
        omega
      · rw [← extend_append, List.singleton_append]

/-- Emission of a subtree succeeds when its nodes are supported and fit, and appends their
instructions in prefix order. -/
theorem emit_eq_ok {draft after : Draft} {root : Node} :
    emit hooks required draft root = .ok after ↔
      (∀ node ∈ root.preorder, node.Supported) ∧
        draft.code.size + root.count ≤ addressLimit ∧
          after = draft.extend hooks root.preorder := by
  have hne : root.preorder ≠ [] := by simp [Node.preorder_eq]
  rw [emit, Node.prefixOrder_eq, foldlM_append_eq_ok, Node.length_preorder]
  simp [hne]

/-- The addresses of functions whose bodies are emitted from `start` on. -/
def addresses (start : Nat) : List (String × Node) → List (String × Nat)
  | [] => []
  | (name, body) :: rest => (name, start) :: addresses (start + body.count) rest

/-- Emission of functions succeeds when the nodes of all bodies are supported and fit, and appends
the bodies and their addresses. -/
theorem foldlM_emitFunction_eq_ok {functions : List (String × Node)} {draft after : Draft} :
    functions.foldlM (emitFunction hooks required) draft = .ok after ↔
      (∀ node ∈ Node.preorderAll (functions.map (·.2)), node.Supported) ∧
        (functions = [] ∨
          draft.code.size + Node.countAll (functions.map (·.2)) ≤ addressLimit) ∧
        after = { draft.extend hooks (Node.preorderAll (functions.map (·.2))) with
          entryPoints := draft.entryPoints ++ addresses draft.code.size functions } := by
  induction functions generalizing draft with
  | nil => simp [pure, Except.pure, addresses, extend, eq_comm]
  | cons function rest ih =>
    obtain ⟨name, body⟩ := function
    -- one body and then the others leave the same draft as all bodies at once
    have hresult : ({ (extend hooks { draft with
              entryPoints := draft.entryPoints ++ [(name, draft.code.size)] } body.preorder).extend
              hooks (Node.preorderAll (rest.map (·.2))) with
            entryPoints := (draft.entryPoints ++ [(name, draft.code.size)]) ++
              addresses (draft.code.size + body.count) rest } : Draft) =
          { draft.extend hooks (body.preorder ++ Node.preorderAll (rest.map (·.2))) with
            entryPoints := draft.entryPoints ++ addresses draft.code.size ((name, body) :: rest) } := by
      simp [extend, addresses, Nat.add_assoc]
    rw [List.foldlM_cons, bind_eq_ok, List.map_cons, Node.preorderAll_cons, Node.countAll_cons]
    constructor
    · rintro ⟨next, hnext, hrest⟩
      obtain ⟨hbody, hroom, rfl⟩ := emit_eq_ok.mp hnext
      obtain ⟨hsupported, hsize, rfl⟩ := ih.mp hrest
      simp only [size_extend, Node.length_preorder] at hsize hroom
      refine ⟨List.forall_mem_append.mpr ⟨hbody, hsupported⟩, Or.inr ?_, ?_⟩
      · show draft.code.size + (body.count + Node.countAll (rest.map (·.2))) ≤ addressLimit
        rcases hsize with rfl | hsize
        · simpa using hroom
        · omega
      · rw [← hresult]
        simp [extend, Node.length_preorder]
    · rintro ⟨hsupported, hsize, rfl⟩
      obtain ⟨hbody, hrest⟩ := List.forall_mem_append.mp hsupported
      have hsize : draft.code.size + (body.count + Node.countAll (rest.map (·.2))) ≤
          addressLimit := by simpa using hsize
      refine ⟨_, emit_eq_ok.mpr ⟨hbody, by simp; omega, rfl⟩, ih.mpr ⟨hrest, Or.inr ?_, ?_⟩⟩
      · simp only [size_extend, Node.length_preorder]
        omega
      · rw [← hresult]
        simp [extend, Node.length_preorder]

end Draft

/-! ## Functions -/

/-- Functions are accepted when each has a body and none has the name of an earlier one. -/
theorem Formula.define_eq_ok {found : List (String × Option Node)}
    {defined definitions : List (String × Node)} (hdefined : (defined.map (·.1)).Nodup) :
    Formula.define defined found = .ok definitions ↔
      ∃ added, found = added.map (fun function => (function.1, some function.2)) ∧
        definitions = defined.reverse ++ added ∧ (definitions.map (·.1)).Nodup := by
  induction found generalizing defined with
  | nil =>
    have hnodup : (defined.reverse.map (·.1)).Nodup := by
      rw [List.map_reverse]
      exact (List.reverse_perm _).nodup_iff.mpr hdefined
    simp only [Formula.define, Except.ok.injEq]
    constructor
    · rintro rfl
      exact ⟨[], rfl, (List.append_nil _).symm, hnodup⟩
    · rintro ⟨added, hadded, rfl, -⟩
      rw [List.map_eq_nil_iff.mp hadded.symm, List.append_nil]
  | cons function rest ih =>
    obtain ⟨name, body⟩ := function
    cases body with
    | none =>
      simp only [Formula.define, reduceCtorEq, false_iff]
      rintro ⟨added, hadded, -⟩
      cases added with
      | nil => simp at hadded
      | cons _ _ => simp at hadded
    | some body =>
      simp only [Formula.define]
      by_cases hknown : defined.any (·.1 == name)
      · simp only [hknown, if_true, reduceCtorEq, false_iff]
        rintro ⟨added, hadded, rfl, hnodup⟩
        -- the name stands among the earlier ones and again at the head of the added ones
        cases added with
        | nil => simp at hadded
        | cons next added =>
          obtain ⟨⟨rfl, -⟩, -⟩ : (name = next.1 ∧ body = next.2) ∧ _ := by simpa using hadded
          obtain ⟨earlier, hmem, hname⟩ := List.any_eq_true.mp hknown
          rw [List.map_append, List.map_cons] at hnodup
          refine (List.nodup_append.mp hnodup).2.2 next.1 ?_ next.1 (List.mem_cons_self ..) rfl
          rw [List.map_reverse, List.mem_reverse, ← eq_of_beq hname]
          exact List.mem_map_of_mem hmem
      · have hnodup : (((name, body) :: defined).map (·.1)).Nodup := by
          refine List.nodup_cons.mpr ⟨fun hmem => hknown ?_, hdefined⟩
          obtain ⟨earlier, hearlier, hname⟩ := List.mem_map.mp hmem
          exact List.any_eq_true.mpr ⟨earlier, hearlier, by simpa using hname⟩
        rw [if_neg hknown, ih hnodup]
        constructor
        · rintro ⟨added, rfl, rfl, hall⟩
          refine ⟨(name, body) :: added, rfl, ?_, hall⟩
          rw [List.reverse_cons, List.append_assoc, List.singleton_append]
        · rintro ⟨added, hadded, rfl, hall⟩
          cases added with
          | nil => simp at hadded
          | cons next added =>
            obtain ⟨⟨rfl, rfl⟩, rfl⟩ : (name = next.1 ∧ body = next.2) ∧ rest = _ := by
              simpa using hadded
            refine ⟨added, rfl, ?_, hall⟩
            rw [List.reverse_cons, List.append_assoc, List.singleton_append]

/-- A formula has definitions when each of its functions has a body and a name of its own. -/
theorem Formula.definitions_eq_ok {formula : Formula} {functions : List (String × Node)} :
    formula.definitions = .ok functions ↔
      formula.functions = functions.map (fun function => (function.1, some function.2)) ∧
        (functions.map (·.1)).Nodup := by
  have hnone : (([] : List (String × Node)).map (·.1)).Nodup := List.nodup_nil
  rw [Formula.definitions, Formula.define_eq_ok hnone]
  constructor
  · rintro ⟨added, hadded, rfl, hnodup⟩
    exact ⟨hadded, hnodup⟩
  · rintro ⟨hfunctions, hnodup⟩
    exact ⟨functions, hfunctions, rfl, hnodup⟩

/-! ## Calls -/

/-- The address of the function that a node calls. -/
def Node.target? (entryPoints : List (String × Nat)) (node : Node) : Option Nat :=
  match node.symbol with
  | .call function => entryPoints.lookup function
  | _ => none

/-- The instruction of a node with the address of the function that it calls. -/
def Node.linked (entryPoints : List (String × Nat)) (node : Node) : Instruction :=
  { node.instruction with target := node.target? entryPoints }

/-- If the node is a call, it names one of the functions. -/
def Node.CallDefined (entryPoints : List (String × Nat)) (node : Node) : Prop :=
  ∀ function, node.symbol = .call function → ∃ address, entryPoints.lookup function = some address

instance (entryPoints : List (String × Nat)) (node : Node) :
    Decidable (node.CallDefined entryPoints) :=
  decidable_of_iff
    ((match node.symbol with
      | .call function => (entryPoints.lookup function).isSome
      | _ => true) = true) <| by
  unfold Node.CallDefined
  cases node.symbol <;> simp [Option.isSome_iff_exists]

/-- Only a call has the opcode of calls. -/
theorem Symbol.eq_call {symbol : Symbol} (h : symbol.opcode? = some .call) :
    ∃ function, symbol = .call function := by
  cases symbol with
  | call function => exact ⟨function, rfl⟩
  | _ => simp [Symbol.opcode?] at h

/-- Only calls are resolved, and a call is resolved when it names a function. -/
theorem Node.resolve_eq_ok {entryPoints : List (String × Nat)} {node : Node} {i : Instruction}
    (hnode : node.Supported) :
    node.instruction.resolve entryPoints = .ok i ↔
      node.CallDefined entryPoints ∧ i = node.linked entryPoints := by
  obtain ⟨op, hop, -⟩ := hnode.opcode
  have hopcode : node.instruction.opcode = op := by rw [Node.instruction, hop]; rfl
  unfold Instruction.resolve
  by_cases hcall : op = .call
  · -- a call succeeds with the address that the lookup of its name finds
    obtain ⟨function, hfunction⟩ := Symbol.eq_call (hcall ▸ hop)
    have hsymbol : node.instruction.node.symbol = .call function := hfunction
    rw [hopcode, if_pos hcall, hsymbol]
    cases hlookup : entryPoints.lookup function with
    | none =>
      simp only [hlookup, reduceCtorEq, false_iff]
      rintro ⟨hdefined, -⟩
      obtain ⟨address, haddress⟩ := hdefined function hfunction
      rw [hlookup] at haddress
      cases haddress
    | some address =>
      have htarget : node.target? entryPoints = some address := by
        rw [Node.target?, hfunction, ← hlookup]
      have hdefined : node.CallDefined entryPoints := by
        intro other hother
        rw [hfunction] at hother
        cases hother
        exact ⟨address, hlookup⟩
      simp only [hlookup, hdefined, true_and, Except.ok.injEq, Node.linked, htarget, hopcode]
      exact eq_comm
  · -- any other instruction stays as it is, and its symbol has no target
    have hsymbol : ∀ function, node.symbol ≠ .call function := by
      intro function h
      rw [h] at hop
      exact hcall (Option.some.inj hop).symm
    have htarget : node.target? entryPoints = none := by
      unfold Node.target?
      split
      · exact absurd ‹_› (hsymbol _)
      · rfl
    have hdefined : node.CallDefined entryPoints := fun function h => absurd h (hsymbol function)
    rw [hopcode, if_neg hcall]
    simp only [hdefined, true_and, Except.ok.injEq, Node.linked, htarget]
    exact eq_comm

theorem Node.mapM_resolve_map_eq_ok {entryPoints : List (String × Nat)} {nodes : List Node}
    {code : List Instruction} (hnodes : ∀ node ∈ nodes, node.Supported) :
    (nodes.map Node.instruction).mapM (Instruction.resolve entryPoints) = .ok code ↔
      (∀ node ∈ nodes, node.CallDefined entryPoints) ∧
        code = nodes.map (Node.linked entryPoints) := by
  induction nodes generalizing code with
  | nil => simp [pure, Except.pure, eq_comm]
  | cons node rest ih =>
    obtain ⟨hnode, hrest⟩ := List.forall_mem_cons.mp hnodes
    rw [List.map_cons, List.mapM_cons, bind_eq_ok]
    constructor
    · rintro ⟨i, hi, h⟩
      obtain ⟨code, hcode, h⟩ := bind_eq_ok.mp h
      obtain ⟨hcall, rfl⟩ := (resolve_eq_ok hnode).mp hi
      obtain ⟨hcalls, rfl⟩ := (ih hrest).mp hcode
      exact ⟨List.forall_mem_cons.mpr ⟨hcall, hcalls⟩, (Except.ok.inj h).symm⟩
    · rintro ⟨hcalls, rfl⟩
      obtain ⟨hcall, hcalls⟩ := List.forall_mem_cons.mp hcalls
      exact ⟨_, (resolve_eq_ok hnode).mpr ⟨hcall, rfl⟩,
        bind_eq_ok.mpr ⟨_, (ih hrest).mpr ⟨hcalls, rfl⟩, rfl⟩⟩

/-- The calls of an emitted list of nodes are resolved when each of them names a function. -/
theorem Node.mapM_resolve_eq_ok {entryPoints : List (String × Nat)} {nodes : List Node}
    {code : Array Instruction} (hnodes : ∀ node ∈ nodes, node.Supported) :
    (Draft.extend [] {} nodes).code.mapM (Instruction.resolve entryPoints) = .ok code ↔
      (∀ node ∈ nodes, node.CallDefined entryPoints) ∧
        code = (nodes.map (Node.linked entryPoints)).toArray := by
  have hcode : (Draft.extend [] {} nodes).code = (nodes.map Node.instruction).toArray := by
    simp [Draft.extend]
  rw [hcode, Array.mapM_eq_mapM_toList]
  show (List.toArray <$> (nodes.map Node.instruction).mapM _) = _ ↔ _
  cases hmapped : (nodes.map Node.instruction).mapM (Instruction.resolve entryPoints) with
  | error cause =>
    simp only [Functor.map, Except.map, reduceCtorEq, false_iff]
    rintro ⟨hcalls, -⟩
    rw [(mapM_resolve_map_eq_ok hnodes).mpr ⟨hcalls, rfl⟩] at hmapped
    cases hmapped
  | ok found =>
    obtain ⟨hcalls, rfl⟩ := (mapM_resolve_map_eq_ok hnodes).mp hmapped
    simp only [Functor.map, Except.map, Except.ok.injEq]
    exact ⟨fun h => ⟨hcalls, h.symm⟩, fun h => h.2.symm⟩

/-! ## Whole formulas -/

/-- What stands between the two passes of compilation: the instructions of all bodies, before calls
have their addresses. -/
structure Emission where
  draft : Draft
  /-- The number of instructions of the main body. -/
  bodyLength : Nat

/-- The second pass: the calls get the addresses of the functions that they name. -/
def Emission.link (emitted : Emission) : Except EvalError Program := do
  let code ← emitted.draft.code.mapM (Instruction.resolve emitted.draft.entryPoints)
  return {
    code
    entryPoints := emitted.draft.entryPoints
    bodyLength := emitted.bodyLength
    callStackSize := emitted.draft.callStackSize }

namespace Formula

/-- The nodes that are compiled: those of the main body in prefix order, then those of the
functions. -/
def compiledNodes (main : Node) (functions : List (String × Node)) : List Node :=
  Node.preorderAll (main :: functions.map (·.2))

/-- What compilation without hooks demands of a formula with the given bodies. -/
structure Compilable (formula : Formula) (main : Node) (functions : List (String × Node)) :
    Prop where
  body_eq : formula.body? = some main
  functions_eq : formula.functions = functions.map (fun function => (function.1, some function.2))
  names : (functions.map (·.1)).Nodup
  supported : ∀ node ∈ compiledNodes main functions, node.Supported
  size : (compiledNodes main functions).length ≤ addressLimit
  calls : ∀ node ∈ compiledNodes main functions,
    node.CallDefined (Draft.addresses main.count functions)

/-- The program of a formula with the given bodies. -/
def programOf (main : Node) (functions : List (String × Node)) : Program where
  code := ((compiledNodes main functions).map
    (Node.linked (Draft.addresses main.count functions))).toArray
  entryPoints := Draft.addresses main.count functions
  bodyLength := main.count
  callStackSize := ((compiledNodes main functions).map Node.callSize).sum

/-- All bodies are emitted when their nodes are supported and fit. -/
theorem emitAll_eq_ok {hooks : List Hook} {required : Nat} {main : Node}
    {functions : List (String × Node)} {draft : Draft} :
    (∃ first, Draft.emit hooks required {} main = .ok first ∧
        functions.foldlM (Draft.emitFunction hooks required) first = .ok draft) ↔
      (∀ node ∈ compiledNodes main functions, node.Supported) ∧
        (compiledNodes main functions).length ≤ addressLimit ∧
          draft = { Draft.extend hooks {} (compiledNodes main functions) with
            entryPoints := Draft.addresses main.count functions } := by
  have hnodes : compiledNodes main functions =
      main.preorder ++ Node.preorderAll (functions.map (·.2)) := rfl
  rw [hnodes, List.length_append, Node.length_preorder, Node.length_preorderAll,
    Draft.extend_append]
  constructor
  · rintro ⟨first, hfirst, hdraft⟩
    obtain ⟨hmain, hroom, rfl⟩ := Draft.emit_eq_ok.mp hfirst
    obtain ⟨hbodies, hsize, rfl⟩ := Draft.foldlM_emitFunction_eq_ok.mp hdraft
    simp only [Draft.size_extend, Node.length_preorder, Array.size_empty, Nat.zero_add]
      at hroom hsize ⊢
    refine ⟨List.forall_mem_append.mpr ⟨hmain, hbodies⟩, ?_, rfl⟩
    rcases hsize with rfl | hsize
    · simpa using hroom
    · exact hsize
  · rintro ⟨hsupported, hsize, rfl⟩
    obtain ⟨hmain, hbodies⟩ := List.forall_mem_append.mp hsupported
    refine ⟨_, Draft.emit_eq_ok.mpr ⟨hmain, ?_, rfl⟩,
      Draft.foldlM_emitFunction_eq_ok.mpr ⟨hbodies, Or.inr ?_, ?_⟩⟩
    · simp only [Array.size_empty]
      omega
    · simp only [Draft.size_extend, Node.length_preorder, Array.size_empty, Nat.zero_add]
      exact hsize
    · simp only [Draft.size_extend, Node.length_preorder, Array.size_empty, Nat.zero_add]
      rfl

/-! ## The two passes -/

/-- The first pass: the instructions of all bodies, the calls among them without their addresses. -/
def emission (hooks : List Hook) (formula : Formula) : Except EvalError Emission := do
  let some body := formula.body? | throw (.malformedTree .noBody)
  let functions ← formula.definitions
  let required := body.count + Node.countAll (functions.map (·.2))
  let main ← Draft.emit hooks required {} body
  let draft ← functions.foldlM (Draft.emitFunction hooks required) main
  return { draft, bodyLength := main.code.size }

/-- Compilation is one pass after the other. -/
theorem compile_eq_bind (hooks : List Hook) (formula : Formula) :
    formula.compile hooks = formula.emission hooks >>= Emission.link := by
  unfold compile emission
  cases formula.body? with
  | none => rfl
  | some body => simp only [bind_assoc, pure_bind, Emission.link]

/-- What the first pass demands of a formula with the given bodies. -/
structure Emittable (formula : Formula) (main : Node) (functions : List (String × Node)) :
    Prop where
  body_eq : formula.body? = some main
  functions_eq : formula.functions = functions.map (fun function => (function.1, some function.2))
  names : (functions.map (·.1)).Nodup
  supported : ∀ node ∈ compiledNodes main functions, node.Supported
  size : (compiledNodes main functions).length ≤ addressLimit

theorem Compilable.emittable {formula : Formula} {main : Node} {functions : List (String × Node)}
    (h : formula.Compilable main functions) : formula.Emittable main functions where
  body_eq := h.body_eq
  functions_eq := h.functions_eq
  names := h.names
  supported := h.supported
  size := h.size

theorem Emittable.compilable {formula : Formula} {main : Node} {functions : List (String × Node)}
    (h : formula.Emittable main functions)
    (hcalls : ∀ node ∈ compiledNodes main functions,
      node.CallDefined (Draft.addresses main.count functions)) :
    formula.Compilable main functions where
  body_eq := h.body_eq
  functions_eq := h.functions_eq
  names := h.names
  supported := h.supported
  size := h.size
  calls := hcalls

/-- What the first pass makes of the given bodies. -/
def emissionOf (hooks : List Hook) (main : Node) (functions : List (String × Node)) : Emission where
  draft := { Draft.extend hooks {} (compiledNodes main functions) with
    entryPoints := Draft.addresses main.count functions }
  bodyLength := main.count

/-- The first pass succeeds by what the bodies are, whatever the hooks do. -/
theorem emission_eq_ok {hooks : List Hook} {formula : Formula} {emitted : Emission} :
    formula.emission hooks = .ok emitted ↔
      ∃ main functions, formula.Emittable main functions ∧
        emitted = emissionOf hooks main functions := by
  unfold emission
  constructor
  · intro h
    cases hbody : formula.body? with
    | none => simp [hbody, throw, throwThe, MonadExceptOf.throw] at h
    | some main =>
      rw [hbody] at h
      obtain ⟨functions, hfunctions, h⟩ := bind_eq_ok.mp h
      obtain ⟨first, hfirst, h⟩ := bind_eq_ok.mp h
      obtain ⟨draft, hdraft, h⟩ := bind_eq_ok.mp h
      obtain ⟨hfound, hnames⟩ := definitions_eq_ok.mp hfunctions
      obtain ⟨hsupported, hsize, rfl⟩ := emitAll_eq_ok.mp ⟨first, hfirst, hdraft⟩
      -- the length of the first draft is remembered as that of the main body
      obtain ⟨-, -, rfl⟩ := Draft.emit_eq_ok.mp hfirst
      refine ⟨main, functions, ⟨hbody, hfound, hnames, hsupported, hsize⟩, ?_⟩
      rw [← Except.ok.inj h]
      simp [emissionOf, Node.length_preorder]
  · rintro ⟨main, functions, hemittable, rfl⟩
    obtain ⟨first, hfirst, hdraft⟩ := emitAll_eq_ok.mpr
      ⟨hemittable.supported, hemittable.size, rfl⟩
    rw [hemittable.body_eq]
    refine bind_eq_ok.mpr ⟨functions, definitions_eq_ok.mpr
      ⟨hemittable.functions_eq, hemittable.names⟩, ?_⟩
    refine bind_eq_ok.mpr ⟨first, hfirst, bind_eq_ok.mpr ⟨_, hdraft, ?_⟩⟩
    obtain ⟨-, -, rfl⟩ := Draft.emit_eq_ok.mp hfirst
    simp [emissionOf, Node.length_preorder, pure, Except.pure]

/-- The second pass succeeds without hooks when every call names a function. -/
theorem link_emissionOf_eq_ok {main : Node} {functions : List (String × Node)} {program : Program}
    (hsupported : ∀ node ∈ compiledNodes main functions, node.Supported) :
    (emissionOf [] main functions).link = .ok program ↔
      (∀ node ∈ compiledNodes main functions,
        node.CallDefined (Draft.addresses main.count functions)) ∧
          program = programOf main functions := by
  constructor
  · intro h
    obtain ⟨code, hcode, h⟩ := bind_eq_ok.mp h
    obtain ⟨hcalls, rfl⟩ := (Node.mapM_resolve_eq_ok hsupported).mp hcode
    refine ⟨hcalls, ?_⟩
    rw [← Except.ok.inj h]
    simp [emissionOf, programOf, Draft.extend]
  · rintro ⟨hcalls, rfl⟩
    refine bind_eq_ok.mpr ⟨_, (Node.mapM_resolve_eq_ok hsupported).mpr ⟨hcalls, rfl⟩, ?_⟩
    simp [emissionOf, programOf, Draft.extend, pure, Except.pure]

/-- A formula compiles when its bodies pass every check, and gives the program of these bodies. -/
theorem compile_eq_ok {formula : Formula} {program : Program} :
    formula.compile [] = .ok program ↔
      ∃ main functions, formula.Compilable main functions ∧ program = programOf main functions := by
  rw [compile_eq_bind, bind_eq_ok]
  constructor
  · rintro ⟨emitted, hemitted, h⟩
    obtain ⟨main, functions, hemittable, rfl⟩ := emission_eq_ok.mp hemitted
    obtain ⟨hcalls, hprogram⟩ := (link_emissionOf_eq_ok hemittable.supported).mp h
    exact ⟨main, functions, hemittable.compilable hcalls, hprogram⟩
  · rintro ⟨main, functions, hcompilable, hprogram⟩
    have hsupported := hcompilable.emittable.supported
    exact ⟨_, emission_eq_ok.mpr ⟨main, functions, hcompilable.emittable, rfl⟩,
      (link_emissionOf_eq_ok hsupported).mpr ⟨hcompilable.calls, hprogram⟩⟩

end Formula

end FormulaEngine
