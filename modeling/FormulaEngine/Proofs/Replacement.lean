import FormulaEngine.Proofs.Correctness
import FormulaEngine.Proofs.Hooks
import FormulaEngine.Proofs.Lockstep
import FormulaEngine.Proofs.Rewriting

/-!
# Replaced opcodes

A hook that puts one opcode in the place of another leaves instructions whose nodes say something
else than their opcodes. If the new opcode takes nothing from a node, these nodes do not matter: the
program does what that of the formula with other symbols does.

- `Opcode.readsNode`: the opcodes that take something from their node, from a column or an address;
- `Instruction.ActsAs`, `BoundInstruction.ActsAs`: instructions that agree on all that is taken;
- `Emission.ActsAs.linked`: the second pass and binding keep this;
- `Machine.ActsAs.evaluate_eq`: machines with such code do the same;
- `Formula.recast`: the formula with another symbol in the place of an opcode;
- `Formula.compile_replacement`: a hook that replaces an opcode against the formula with the other
  symbol.
-/

namespace FormulaEngine

/-- Running the opcode takes more than the values of operands: what the symbol of the node carries,
a column, or the address of a function. -/
def Opcode.readsNode : Opcode → Bool
  | call | numericVariable | lagVariable | constant | arg | timeLag | integral | variableCondition
  | factorVariable | binaryFactorVariable => true
  | _ => false

theorem Opcode.readsNode_of_readsColumn {op : Opcode} (h : op.readsColumn = true) :
    op.readsNode = true := by
  cases op <;> first | rfl | cases h

/-! ## Instructions -/

namespace Instruction

variable {i j : Instruction}

/-- The instructions agree on everything that linking, binding and running take from them. -/
structure ActsAs (i j : Instruction) : Prop where
  opcode : i.opcode = j.opcode
  argCount : i.argCount = j.argCount
  target : i.target = j.target
  symbol : i.opcode.readsNode = true → i.node.symbol = j.node.symbol

/-- Linking takes the symbol of a call. -/
theorem ActsAs.symbol_of_call (h : i.ActsAs j) (hcall : i.opcode = .call) :
    i.node.symbol = j.node.symbol :=
  h.symbol (by rw [hcall]; rfl)

theorem ActsAs.dangling_iff (h : i.ActsAs j) (names : List String) :
    i.Dangling names ↔ j.Dangling names := by
  unfold Dangling
  rw [← h.opcode]
  refine and_congr_right fun hcall => ?_
  rw [h.symbol_of_call hcall]

theorem ActsAs.linked {entryPoints : List (String × Nat)} {i' j' : Instruction} (h : i.ActsAs j)
    (hi : i.Linked entryPoints i') (hj : j.Linked entryPoints j') : i'.ActsAs j' := by
  by_cases hcall : i.opcode = .call
  · obtain ⟨function, address, hfunction, haddress, rfl⟩ := hi.call hcall
    obtain ⟨function', address', hfunction', haddress', rfl⟩ := hj.call (h.opcode ▸ hcall)
    have hsymbol := h.symbol_of_call hcall
    rw [hfunction, hfunction', Symbol.call.injEq] at hsymbol
    rw [← hsymbol, haddress] at haddress'
    exact ⟨h.opcode, h.argCount, haddress', h.symbol⟩
  · rw [hi.other hcall, hj.other (h.opcode ▸ hcall)]
    exact h

theorem ActsAs.data_eq (h : i.ActsAs j) (data : Dataset) : i.data data = j.data data := by
  unfold Instruction.data
  rw [← h.opcode, ← h.target]
  by_cases hcolumn : i.opcode.readsColumn
  · rw [h.symbol (Opcode.readsNode_of_readsColumn hcolumn)]
  · rw [if_neg hcolumn, if_neg hcolumn]

end Instruction

namespace BoundInstruction

variable {i j : BoundInstruction}

/-- The instructions agree on everything that running takes from them. -/
structure ActsAs (i j : BoundInstruction) : Prop where
  opcode : i.opcode = j.opcode
  argCount : i.argCount = j.argCount
  data : i.data = j.data
  symbol : i.opcode.readsNode = true → i.node.symbol = j.node.symbol

theorem actsAs_bind {i j : Instruction} (h : i.ActsAs j) (data : Dataset) :
    (i.bind data).ActsAs (j.bind data) where
  opcode := h.opcode
  argCount := h.argCount
  data := h.data_eq data
  symbol := h.symbol

/-- The machine performs both instructions alike. -/
theorem ActsAs.perform_eq (h : i.ActsAs j) (m : Machine) (self : Machine.Action Float) :
    m.perform self i = m.perform self j := by
  obtain ⟨⟨symbol, children⟩, op, argCount, data⟩ := i
  obtain ⟨⟨symbol', children'⟩, op', argCount', data'⟩ := j
  obtain ⟨rfl, rfl, rfl, hsymbol⟩ := h
  by_cases hreads : op.readsNode = true
  · obtain rfl : symbol = symbol' := hsymbol hreads
    rfl
  · cases op <;> first | rfl | exact absurd rfl hreads

end BoundInstruction

/-! ## Machines -/

namespace Machine

variable {m m' : Machine}

/-- The machines have code of the same length in which the instructions at every address act
alike. -/
structure ActsAs (m m' : Machine) : Prop where
  code : List.Forall₂ BoundInstruction.ActsAs m.code.toList m'.code.toList
  rows : m.rows = m'.rows
  maxCallDepth : m.maxCallDepth = m'.maxCallDepth

theorem ActsAs.skip_eq (h : m.ActsAs m') : m.skip = m'.skip := by
  refine skip_of_argCounts ?_
  rw [← Array.toList_inj, Array.toList_map, Array.toList_map, ← List.forall₂_eq_eq_eq,
    List.forall₂_map_left_iff, List.forall₂_map_right_iff]
  exact h.code.imp fun _ _ => BoundInstruction.ActsAs.argCount

/-- The instructions at an address, if there are any. -/
theorem ActsAs.getElem? (h : m.ActsAs m') (address : Nat) :
    Option.Rel BoundInstruction.ActsAs m.code[address]? m'.code[address]? := by
  rw [← Array.getElem?_toList, ← Array.getElem?_toList]
  have hcode := h.code
  generalize m.code.toList = code at hcode ⊢
  generalize m'.code.toList = code' at hcode ⊢
  induction hcode generalizing address with
  | nil => exact .none
  | cons hfirst _ ih =>
    cases address with
    | zero => exact .some hfirst
    | succ address => exact ih address

theorem ActsAs.perform_eq (h : m.ActsAs m') (self : Action Float) (i : BoundInstruction) :
    m.perform self i = m'.perform self i := by
  have hskip := h.skip_eq
  obtain ⟨code, rows, maxCallDepth⟩ := m
  obtain ⟨code', rows', maxCallDepth'⟩ := m'
  obtain ⟨-, rfl, rfl⟩ := h
  funext s
  have hreads : ReadsAlike ⟨code, rows, maxCallDepth⟩ ⟨code', rows, maxCallDepth⟩ i i.data s :=
    ⟨rfl, fun _ => rfl, fun _ _ _ _ => rfl, fun _ => rfl⟩
  exact perform_of_reads hskip hreads fun _ => rfl

theorem fetch_eq_fault {s : State} (h : m.code[s.pc]? = none) :
    m.fetch s = some (.fault .outOfBounds s) := by
  rw [fetch, h]

theorem bind_of_fault {α β : Type} {action : Action α} {next : α → Action β} {cause : Fault}
    {s s' : State} (h : action s = some (.fault cause s')) :
    (action >>= next) s = some (.fault cause s') := by
  show Action.bind action next s = _
  rw [Action.bind, h]

/-- Both machines run alike, whatever steps they are allowed: what they fetch acts alike, and what
they run then is the same by induction. -/
theorem ActsAs.run_eq (h : m.ActsAs m') (steps : Nat) : m.run steps = m'.run steps := by
  induction steps with
  | zero => rfl
  | succ steps ih =>
    funext s
    have hget := h.getElem? s.pc
    cases hi : m.code[s.pc]? with
    | none =>
      rw [hi] at hget
      have hfault := fetch_eq_fault hi
      have hfault' := fetch_eq_fault (eq_none_of_optionRel_none hget)
      exact (bind_of_fault hfault).trans (bind_of_fault hfault').symm
    | some i =>
      rw [hi] at hget
      obtain ⟨j, hj, hacts⟩ := exists_of_optionRel_some hget
      calc m.run (steps + 1) s
        _ = m.perform (m.run steps) i (s.advance 1 1) := bind_of_done (fetch_eq hi)
        _ = m'.perform (m'.run steps) j (s.advance 1 1) := by
          rw [ih, hacts.perform_eq, h.perform_eq]
        _ = m'.run (steps + 1) s := (bind_of_done (fetch_eq hj)).symm

theorem ActsAs.evaluate_eq (h : m.ActsAs m') (s : State) : m.evaluate s = m'.evaluate s := by
  have hrun := m.run_stepBound s
  rw [h.run_eq] at hrun
  exact (evaluate_eq_of_run hrun).symm

end Machine

/-! ## Programs -/

/-- Instructions that act alike after the first pass, in the same order and with the same
functions. -/
structure Emission.ActsAs (emitted other : Emission) : Prop where
  code : List.Forall₂ Instruction.ActsAs emitted.draft.code.toList other.draft.code.toList
  entryPoints : emitted.draft.entryPoints = other.draft.entryPoints

namespace Emission.ActsAs

variable {emitted other : Emission} {program program' : Program}

theorem exists_dangling_iff (h : emitted.ActsAs other) :
    (∃ i ∈ emitted.draft.code.toList, i.Dangling emitted.names) ↔
      ∃ j ∈ other.draft.code.toList, j.Dangling other.names := by
  have hnames : emitted.names = other.names := by
    rw [Emission.names, Emission.names, h.entryPoints]
  rw [hnames]
  have hcode := h.code
  generalize emitted.draft.code.toList = code at hcode ⊢
  generalize other.draft.code.toList = code' at hcode ⊢
  induction hcode with
  | nil => rfl
  | cons hfirst _ ih =>
    rw [List.exists_mem_cons_iff, List.exists_mem_cons_iff, hfirst.dangling_iff]
    exact or_congr_right ih

/-- The second pass accepts both or none. -/
theorem links_iff (h : emitted.ActsAs other) :
    (∃ program, emitted.Links program) ↔ ∃ program, other.Links program := by
  have hisOk : ∀ e : Emission, (∃ program, e.Links program) ↔ ¬∃ cause, e.link = .error cause := by
    intro e
    simp only [← Emission.link_eq_ok]
    cases e.link <;> simp
  rw [hisOk, hisOk, link_eq_error_iff, link_eq_error_iff, h.exists_dangling_iff]

/-- The second pass makes programs of which the instructions act alike. -/
theorem linked (h : emitted.ActsAs other) (hprogram : emitted.Links program)
    (hprogram' : other.Links program') :
    List.Forall₂ Instruction.ActsAs program.code.toList program'.code.toList := by
  have hacts := h.code
  have hcode := hprogram.code
  have hcode' := hprogram'.code
  rw [← h.entryPoints] at hcode'
  generalize emitted.draft.code.toList = code at hacts hcode
  generalize other.draft.code.toList = code' at hacts hcode'
  generalize program.code.toList = linked at hcode ⊢
  generalize program'.code.toList = linked' at hcode' ⊢
  induction hacts generalizing linked linked' with
  | nil =>
    cases hcode
    cases hcode'
    exact .nil
  | cons hfirst _ ih =>
    cases hcode with
    | cons hi hrest =>
      cases hcode' with
      | cons hj hrest' => exact .cons (hfirst.linked hi hj) (ih _ hrest _ hrest')

/-- On any dataset the programs give machines that act alike. -/
theorem machine (h : emitted.ActsAs other) (hprogram : emitted.Links program)
    (hprogram' : other.Links program') (data : Dataset) (maxCallDepth : Nat) (rows : Rows)
    (state : Machine.State) :
    (Evaluation.machine ⟨program.bind data, maxCallDepth, rows, state⟩).ActsAs
      (Evaluation.machine ⟨program'.bind data, maxCallDepth, rows, state⟩) where
  code := by
    simp only [Evaluation.machine, Program.bind, Array.toList_map, List.forall₂_map_left_iff,
      List.forall₂_map_right_iff]
    exact (h.linked hprogram hprogram').imp fun _ _ hacts => BoundInstruction.actsAs_bind hacts data
  rows := rfl
  maxCallDepth := rfl

theorem outcomeAt_eq (h : emitted.ActsAs other) (hprogram : emitted.Links program)
    (hprogram' : other.Links program') (data : Dataset) (maxCallDepth : Nat) (rows : Rows)
    (state : Machine.State) (row : Nat) :
    Evaluation.outcomeAt ⟨program.bind data, maxCallDepth, rows, state⟩ row =
      Evaluation.outcomeAt ⟨program'.bind data, maxCallDepth, rows, state⟩ row := by
  refine Evaluation.outcomeAt_congr rfl fun _ => ?_
  rw [(h.machine hprogram hprogram' data maxCallDepth rows state).evaluate_eq]

end Emission.ActsAs

/-! ## Other symbols -/

/-- Another symbol in the place of all that have an opcode. -/
def Symbol.recast (source : Opcode) (replacement symbol : Symbol) : Symbol :=
  if symbol.opcode? = some source then replacement else symbol

/-- The formula with another symbol, over the same operands, at all nodes that have an opcode. -/
def Formula.recast (source : Opcode) (replacement : Symbol) (formula : Formula) : Formula :=
  ⟨formula.root.mapSymbols (Symbol.recast source replacement)⟩

section MapSymbols

variable {f : Symbol → Symbol} {main : Node} {functions : List (String × Node)}

/-- Functions with other symbols in their bodies. -/
def mapBodies (f : Symbol → Symbol) (functions : List (String × Node)) : List (String × Node) :=
  functions.map fun function => (function.1, function.2.mapSymbols f)

theorem names_mapBodies : (mapBodies f functions).map (·.1) = functions.map (·.1) := by
  rw [mapBodies, List.map_map]
  rfl

theorem bodies_mapBodies :
    (mapBodies f functions).map (·.2) = (functions.map (·.2)).map (Node.mapSymbols f) := by
  rw [mapBodies, List.map_map, List.map_map]
  rfl

/-- Other symbols leave the addresses alone. -/
theorem Draft.addresses_mapBodies (start : Nat) :
    addresses start (mapBodies f functions) = addresses start functions := by
  induction functions generalizing start with
  | nil => rfl
  | cons function rest ih =>
    show (function.1, start) :: addresses (start + (function.2.mapSymbols f).count)
      (mapBodies f rest) = _
    rw [Node.count_mapSymbols, ih, addresses]

/-- Functions are told apart when their bodies may be missing. -/
theorem map_some_injective :
    Function.Injective
      (List.map fun function : String × Node => (function.1, some function.2)) := by
  refine List.map_injective_iff.mpr ?_
  rintro ⟨name, body⟩ ⟨name', body'⟩ h
  cases h
  rfl

namespace Formula

theorem compiledNodes_mapSymbols :
    compiledNodes (main.mapSymbols f) (mapBodies f functions) =
      (compiledNodes main functions).map (Node.mapSymbols f) := by
  rw [compiledNodes, bodies_mapBodies, ← List.map_cons, Node.preorderAll_mapSymbols, compiledNodes]

variable {formula : Formula}

theorem body?_mapSymbols :
    (Formula.mk (formula.root.mapSymbols f)).body? = formula.body?.map (Node.mapSymbols f) := by
  unfold body?
  rw [Node.children_mapSymbols]
  rcases formula.root.children with _ | ⟨branch, rest⟩
  · rfl
  · show (branch.mapSymbols f).children.head? = branch.children.head?.map _
    rw [Node.children_mapSymbols, List.head?_map]

/-- Where other symbols come in, the functions stay functions and nothing else becomes one. -/
theorem functions_mapSymbols
    (hdefun : ∀ symbol name, f symbol = .defun name ↔ symbol = .defun name) :
    (Formula.mk (formula.root.mapSymbols f)).functions =
      formula.functions.map fun function =>
        (function.1, function.2.map (Node.mapSymbols f)) := by
  unfold Formula.functions
  rw [Node.children_mapSymbols, ← List.map_tail, List.filterMap_map, List.map_filterMap]
  refine List.filterMap_congr fun branch _ => ?_
  rw [Function.comp_apply, Node.symbol_mapSymbols, Node.children_mapSymbols, List.head?_map]
  by_cases hfunction : ∃ name, branch.symbol = .defun name
  · obtain ⟨name, hname⟩ := hfunction
    rw [(hdefun _ _).mpr hname, hname]
    rfl
  · split
    · next name hname => exact absurd ⟨name, (hdefun _ _).mp hname⟩ hfunction
    · split
      · next name hname => exact absurd ⟨name, hname⟩ hfunction
      · rfl

/-- The first pass accepts a formula with other symbols when it accepts the formula, if that is so
for single nodes. -/
theorem emittable_mapSymbols_iff {main' : Node} {functions' : List (String × Node)}
    (hdefun : ∀ symbol name, f symbol = .defun name ↔ symbol = .defun name)
    (hsupported : ∀ node : Node, (node.mapSymbols f).Supported ↔ node.Supported) :
    (Formula.mk (formula.root.mapSymbols f)).Emittable main' functions' ↔
      ∃ main functions, formula.Emittable main functions ∧ main' = main.mapSymbols f ∧
        functions' = mapBodies f functions := by
  have hmapped : ∀ functions : List (String × Node),
      (functions.map fun function => (function.1, some function.2)).map
          (fun function => (function.1, function.2.map (Node.mapSymbols f))) =
        (mapBodies f functions).map fun function => (function.1, some function.2) := by
    intro functions
    rw [mapBodies, List.map_map, List.map_map]
    rfl
  constructor
  · intro h
    have hbody := h.body_eq
    have hfunctions := h.functions_eq
    rw [body?_mapSymbols, Option.map_eq_some_iff] at hbody
    rw [functions_mapSymbols hdefun] at hfunctions
    obtain ⟨main, hmain, rfl⟩ := hbody
    have hbodies : ∀ function ∈ formula.functions, ∃ body, function.2 = some body := by
      intro function hfunction
      have hmem := List.mem_map_of_mem (f := fun function : String × Option Node =>
        (function.1, function.2.map (Node.mapSymbols f))) hfunction
      rw [hfunctions] at hmem
      obtain ⟨other, -, hother⟩ := List.mem_map.mp hmem
      have hsome := congrArg Prod.snd hother
      obtain ⟨body, hbody, -⟩ := Option.map_eq_some_iff.mp hsome.symm
      exact ⟨body, hbody⟩
    obtain ⟨functions, hplain⟩ := exists_eq_map_some hbodies
    rw [hplain, hmapped] at hfunctions
    obtain rfl := map_some_injective hfunctions
    have hnames := h.names
    have hnodes := h.supported
    have hsize := h.size
    rw [names_mapBodies] at hnames
    rw [compiledNodes_mapSymbols, List.forall_mem_map] at hnodes
    rw [compiledNodes_mapSymbols, List.length_map] at hsize
    exact ⟨main, functions, ⟨hmain, hplain, hnames,
      fun node hnode => (hsupported node).mp (hnodes node hnode), hsize⟩, rfl, rfl⟩
  · rintro ⟨main, functions, h, rfl, rfl⟩
    constructor
    · rw [body?_mapSymbols, h.body_eq]
      rfl
    · rw [functions_mapSymbols hdefun, h.functions_eq, hmapped]
    · rw [names_mapBodies]
      exact h.names
    · rw [compiledNodes_mapSymbols, List.forall_mem_map]
      exact fun node hnode => (hsupported node).mpr (h.supported node hnode)
    · rw [compiledNodes_mapSymbols, List.length_map]
      exact h.size

theorem Emittable.unique {main' : Node} {functions' : List (String × Node)}
    (h : formula.Emittable main functions) (h' : formula.Emittable main' functions') :
    main = main' ∧ functions = functions' := by
  have hmain := h.body_eq.symm.trans h'.body_eq
  exact ⟨Option.some.inj hmain, map_some_injective (h.functions_eq.symm.trans h'.functions_eq)⟩

end Formula

end MapSymbols

/-! ## A replaced opcode -/

section Recast

variable {source target : Opcode} {symbol : Symbol}

theorem Symbol.recast_of_eq {other : Symbol} (h : other.opcode? = some source) :
    recast source symbol other = symbol := if_pos h

theorem Symbol.recast_of_ne {other : Symbol} (h : other.opcode? ≠ some source) :
    recast source symbol other = other := if_neg h

/-- The outer structure has no opcodes. -/
theorem Symbol.recast_eq_defun (hsymbol : symbol.opcode? = some target) (other : Symbol)
    (name : String) : recast source symbol other = .defun name ↔ other = .defun name := by
  by_cases hsource : other.opcode? = some source
  · have hleft : symbol ≠ .defun name := by
      rintro rfl
      cases hsymbol
    have hright : other ≠ .defun name := by
      rintro rfl
      cases hsource
    rw [recast_of_eq hsource]
    exact iff_of_false hleft hright
  · rw [recast_of_ne hsource]

/-- An opcode of the same arity accepts the same operands. -/
theorem Node.supported_recast (hsymbol : symbol.opcode? = some target)
    (harity : source.arity = target.arity) (node : Node) :
    (node.mapSymbols (Symbol.recast source symbol)).Supported ↔ node.Supported := by
  have hlength : (node.mapSymbols (Symbol.recast source symbol)).children.length =
      node.children.length := by
    rw [children_mapSymbols, List.length_map]
  have hopcode : (∃ op, (node.mapSymbols (Symbol.recast source symbol)).symbol.opcode? = some op ∧
        op.arity.accepts node.children.length = true) ↔
      ∃ op, node.symbol.opcode? = some op ∧ op.arity.accepts node.children.length = true := by
    rw [symbol_mapSymbols]
    by_cases hsource : node.symbol.opcode? = some source
    · rw [Symbol.recast_of_eq hsource, hsymbol, hsource]
      simp [harity]
    · rw [Symbol.recast_of_ne hsource]
  constructor
  · rintro ⟨hop, hmany⟩
    rw [hlength] at hop hmany
    exact ⟨hopcode.mp hop, hmany⟩
  · rintro ⟨hop, hmany⟩
    refine ⟨?_, ?_⟩
    · rw [hlength]
      exact hopcode.mpr hop
    · rw [hlength]
      exact hmany

/-- What the hook leaves of an instruction acts as the instruction of the node with the other
symbol. -/
theorem Node.actsAs_recast (hsymbol : symbol.opcode? = some target)
    (hplain : target.readsNode = false) {node : Node} (hnode : node.Supported) :
    (node.instruction.rewritten [(⟨source, some target, none, none⟩ : Replacement).hook]).ActsAs
      (node.mapSymbols (Symbol.recast source symbol)).instruction := by
  obtain ⟨op, hop, -⟩ := hnode.opcode
  have hopcode : node.instruction.opcode = op := by rw [instruction, hop]; rfl
  have hargCount : (node.mapSymbols (Symbol.recast source symbol)).instruction.argCount =
      node.children.length := by
    rw [instruction, children_mapSymbols, List.length_map]
  by_cases hsource : op = source
  · -- the node says something else than the opcode by now, but the opcode does not look at it
    have hrewritten : node.instruction.rewritten
          [(⟨source, some target, none, none⟩ : Replacement).hook] =
        { node.instruction with opcode := target } := by
      show Replacement.hook _ _ = _
      rw [Replacement.hook, if_pos (hopcode.trans hsource)]
      rfl
    have hrecast : (node.mapSymbols (Symbol.recast source symbol)).instruction.opcode = target := by
      rw [instruction, symbol_mapSymbols, Symbol.recast_of_eq (hsource ▸ hop), hsymbol]
      rfl
    rw [hrewritten]
    exact ⟨hrecast.symm, hargCount.symm, rfl, fun hreads => absurd hreads (by simp [hplain])⟩
  · have hrewritten : node.instruction.rewritten
          [(⟨source, some target, none, none⟩ : Replacement).hook] = node.instruction := by
      show Replacement.hook _ _ = _
      rw [Replacement.hook, if_neg (by rw [hopcode]; exact hsource)]
    have hkept : (node.mapSymbols (Symbol.recast source symbol)).symbol = node.symbol := by
      rw [symbol_mapSymbols, Symbol.recast_of_ne]
      rw [hop]
      exact fun h => hsource (Option.some.inj h)
    rw [hrewritten]
    refine ⟨?_, hargCount.symm, rfl, fun _ => hkept.symm⟩
    rw [instruction, instruction, hkept]

variable {formula : Formula} {main : Node} {functions : List (String × Node)}

/-- The first pass makes instructions that act alike of both. -/
theorem Formula.Emittable.actsAs_recast (h : formula.Emittable main functions)
    (hsymbol : symbol.opcode? = some target) (hplain : target.readsNode = false) :
    (emissionOf [(⟨source, some target, none, none⟩ : Replacement).hook] main functions).ActsAs
      (emissionOf [] (main.mapSymbols (Symbol.recast source symbol))
        (mapBodies (Symbol.recast source symbol) functions)) where
  code := by
    simp only [emissionOf, Draft.extend, compiledNodes_mapSymbols, Array.toList_append,
      List.nil_append, List.forall₂_map_left_iff, List.forall₂_map_right_iff,
      Instruction.rewritten_nil]
    exact List.forall₂_same.mpr fun node hnode =>
      Node.actsAs_recast hsymbol hplain (h.supported node hnode)
  entryPoints := by
    simp only [emissionOf, Node.count_mapSymbols, Draft.addresses_mapBodies]

/-- One opcode in the place of another, by a hook, is another symbol in the formula, if both opcodes
have the same arity and the new one takes nothing from its node. Compilation accepts the one when it
accepts the other. Their programs have the same values at all rows of all datasets, and after every
row they leave the same state: program counter, stack and number of instructions run. In a rectangular
dataset there is a value at every row. -/
theorem Formula.compile_replacement (formula : Formula) (hsymbol : symbol.opcode? = some target)
    (harity : source.arity = target.arity) (hplain : target.readsNode = false) :
    let hook := (⟨source, some target, none, none⟩ : Replacement).hook
    ((∃ program, formula.compile [hook] = .ok program) ↔
        ∃ program, (formula.recast source symbol).compile [] = .ok program) ∧
      ∀ program program', formula.compile [hook] = .ok program →
        (formula.recast source symbol).compile [] = .ok program' →
          ∀ (data : Dataset) (maxCallDepth : Nat) (rows : Rows) (state : Machine.State) (row : Nat),
            Evaluation.AgreeAt row ⟨program.bind data, maxCallDepth, rows, state⟩
                ⟨program'.bind data, maxCallDepth, rows, state⟩ ∧
              (data.Rectangular → ∃ value,
                (Evaluation.evaluateRow ⟨program.bind data, maxCallDepth, rows, state⟩ row).1 =
                  .ok value) := by
  intro hook
  have hrecast : ∀ main' functions', (formula.recast source symbol).Emittable main' functions' ↔
      ∃ main functions, formula.Emittable main functions ∧
        main' = main.mapSymbols (Symbol.recast source symbol) ∧
          functions' = mapBodies (Symbol.recast source symbol) functions := fun _ _ =>
    emittable_mapSymbols_iff (Symbol.recast_eq_defun hsymbol) (Node.supported_recast hsymbol harity)
  constructor
  · constructor
    · rintro ⟨program, hcompile⟩
      obtain ⟨main, functions, h, hlinks⟩ := compile_hooks_eq_ok.mp hcompile
      obtain ⟨program', hlinks'⟩ := (h.actsAs_recast hsymbol hplain).links_iff.mp ⟨program, hlinks⟩
      exact ⟨program', compile_hooks_eq_ok.mpr
        ⟨_, _, (hrecast _ _).mpr ⟨main, functions, h, rfl, rfl⟩, hlinks'⟩⟩
    · rintro ⟨program', hcompile'⟩
      obtain ⟨_, _, h', hlinks'⟩ := compile_hooks_eq_ok.mp hcompile'
      obtain ⟨main, functions, h, rfl, rfl⟩ := (hrecast _ _).mp h'
      obtain ⟨program, hlinks⟩ := (h.actsAs_recast hsymbol hplain).links_iff.mpr ⟨program', hlinks'⟩
      exact ⟨program, compile_hooks_eq_ok.mpr ⟨main, functions, h, hlinks⟩⟩
  · intro program program' hcompile hcompile' data maxCallDepth rows state row
    obtain ⟨main, functions, h, hlinks⟩ := compile_hooks_eq_ok.mp hcompile
    obtain ⟨_, _, h', hlinks'⟩ := compile_hooks_eq_ok.mp hcompile'
    obtain ⟨main₀, functions₀, h₀, rfl, rfl⟩ := (hrecast _ _).mp h'
    obtain ⟨rfl, rfl⟩ := h.unique h₀
    have hagree := Evaluation.agreeAt_of_outcomeAt <|
      (h.actsAs_recast hsymbol hplain).outcomeAt_eq hlinks hlinks' data maxCallDepth rows state row
    refine ⟨hagree, fun hdata => ?_⟩
    -- the formula with the other symbol has a value, since it was compiled without hooks
    rw [hagree.value]
    exact ⟨_, Evaluation.evaluateRow_eq_ok.mpr (Evaluation.outcomeAt_eq hcompile' hdata _ rfl row)⟩

end Recast

/-- The function with a slope over the last rows in the place of the lag. -/
def Recall.slope : Node :=
  ⟨.ifThenElse,
    [.leaf (.argument 0),
      ⟨.derivative, [⟨.call "back", [⟨.subtraction, [.leaf (.argument 0), .leaf (.constant 1.0)]⟩]⟩]⟩,
      .leaf (.numericVariable "x" 1.0)]⟩

/-- Where the row moved back by one there is now a slope over the last rows, and the function calls
itself four times as often. The lag that the nodes carry is not looked at. -/
theorem Formula.compile_replacement_recall :
    let hook := (⟨.timeLag, some .derivative, none, none⟩ : Replacement).hook
    (Symbol.derivative.opcode? = some .derivative ∧
        Opcode.timeLag.arity = Opcode.derivative.arity ∧ Opcode.derivative.readsNode = false) ∧
      ∃ program program', Recall.formula.compile [hook] = .ok program ∧
        (Recall.formula.recast .timeLag .derivative).compile [] = .ok program' ∧
        Evaluation.AgreeAt 2 ⟨program.bind Recall.data, 3, .indices [], {}⟩
          ⟨program'.bind Recall.data, 3, .indices [], {}⟩ ∧
        ∃ value, (Evaluation.evaluateRow ⟨program.bind Recall.data, 3, .indices [], {}⟩ 2).1 =
          .ok value := by
  intro hook
  have hsymbol : Symbol.derivative.opcode? = some .derivative := rfl
  have harity : Opcode.timeLag.arity = Opcode.derivative.arity := rfl
  have hplain : Opcode.derivative.readsNode = false := rfl
  obtain ⟨haccepts, hsame⟩ := compile_replacement Recall.formula hsymbol harity hplain
  have hcompile' : (Recall.formula.recast .timeLag .derivative).compile [] =
      .ok (programOf Recall.main [("back", Recall.slope)]) :=
    compile_eq_ok.mpr ⟨_, _, ⟨rfl, rfl, by decide, by decide, by decide, by decide⟩, rfl⟩
  obtain ⟨program, hcompile⟩ := haccepts.mpr ⟨_, hcompile'⟩
  obtain ⟨hagree, hvalue⟩ := hsame program _ hcompile hcompile' Recall.data 3 (.indices []) {} 2
  exact ⟨⟨hsymbol, harity, hplain⟩, program, _, hcompile, hcompile', hagree,
    hvalue Recall.rectangular_data⟩

end FormulaEngine
