import FormulaEngine.Machine
import FormulaEngine.Proofs.Emission
import FormulaEngine.Proofs.Meaning
import FormulaEngine.Proofs.Span

/-!
# Loaded code

Compiled code bound to a dataset, as the machine sees it: which subtrees stand where, what skipping
does over them, and what a column gives at the cursor.

- `Machine.Holds`: subtrees stand in the code from an address on, ready to run;
- `Machine.skip_eq`: skipping a subtree goes to the address behind it;
- `Machine.read_eq`: a column gives its cell at the cursor, without a fault, as long as the cursor
  has not left the dataset unnoticed;
- `Machine.Carries`: the machine holds all bodies of a formula;
- `Machine.Loaded`: it does, for as many rows as the dataset has;
- `Formula.loaded_of_compile`: so it does after compiling and binding.
-/

namespace FormulaEngine

/-- The instruction of a node with the address of the function that it calls and the columns of a
dataset. -/
def Node.bound (entryPoints : List (String × Nat)) (data : Dataset) (node : Node) :
    BoundInstruction :=
  (node.linked entryPoints).bind data

theorem Node.argCount_bound {entryPoints : List (String × Nat)} {data : Dataset} (node : Node) :
    (node.bound entryPoints data).argCount = node.children.length := rfl

theorem Node.opcode_linked (entryPoints : List (String × Nat)) {node : Node} {op : Opcode}
    (h : node.symbol.opcode? = some op) : (node.linked entryPoints).opcode = op := by
  show node.symbol.opcode?.getD .constant = op
  rw [h]
  rfl

/-- A call is bound to the address of the function that it names. -/
theorem Node.data_of_call {entryPoints : List (String × Nat)} (data : Dataset) {node : Node}
    {function : String} {address : Nat} (hsymbol : node.symbol = .call function)
    (hlookup : entryPoints.lookup function = some address) :
    (node.bound entryPoints data).data = .jump address := by
  have hopcode : (node.linked entryPoints).opcode = .call := by
    refine Node.opcode_linked entryPoints ?_
    rw [hsymbol]
    rfl
  have htarget : (node.linked entryPoints).target = some address := by
    show node.target? entryPoints = some address
    rw [target?, hsymbol]
    exact hlookup
  show (node.linked entryPoints).data data = .jump address
  rw [Instruction.data, if_pos hopcode, htarget]

/-! ## Columns of a dataset -/

/-- A symbol that reads numbers is bound to the numeric column of its variable. -/
theorem Symbol.data_numeric {symbol : Symbol} {name : String} (data : Dataset)
    (h : symbol.variableName? = some name) :
    symbol.data false data =
      match data.numeric? name with
      | some column => .numeric column
      | none => .missing := by
  unfold Symbol.data Dataset.numeric?
  rw [h]
  cases hcolumn : data.column? name with
  | none => simp [hcolumn]
  | some column => cases column <;> simp [hcolumn, Column.numeric?]

/-- A symbol that reads categories is bound to the categorical column of its variable. -/
theorem Symbol.data_categorical {symbol : Symbol} {name : String} (data : Dataset)
    (h : symbol.variableName? = some name) :
    symbol.data true data =
      match data.categorical? name with
      | some column => .categorical column
      | none => .missing := by
  unfold Symbol.data Dataset.categorical?
  rw [h]
  cases hcolumn : data.column? name with
  | none => simp [hcolumn]
  | some column => cases column <;> simp [hcolumn, Column.categorical?]

namespace Machine

variable {m : Machine} {entryPoints : List (String × Nat)} {data : Dataset}

/-! ## Subtrees in the code -/

/-- From `start` on the code holds whole subtrees one after another, and every node of them is one
that compilation accepts. -/
structure Holds (m : Machine) (entryPoints : List (String × Nat)) (data : Dataset) (start : Nat)
    (nodes : List Node) : Prop where
  stored : Stored m.code start ((Node.preorderAll nodes).map (Node.bound entryPoints data))
  supported : ∀ node ∈ Node.preorderAll nodes, node.Supported
  calls : ∀ node ∈ Node.preorderAll nodes, node.CallDefined entryPoints

namespace Holds

theorem append {start : Nat} {front back : List Node} :
    m.Holds entryPoints data start (front ++ back) ↔
      m.Holds entryPoints data start front ∧
        m.Holds entryPoints data (start + Node.countAll front) back := by
  have hlen : ((Node.preorderAll front).map (Node.bound entryPoints data)).length =
      Node.countAll front := by
    rw [List.length_map, Node.length_preorderAll]
  constructor
  · rintro ⟨hstored, hsupported, hcalls⟩
    rw [Node.preorderAll_append] at hstored hsupported hcalls
    rw [List.map_append, Stored.append, hlen] at hstored
    obtain ⟨hsupportedFront, hsupportedBack⟩ := List.forall_mem_append.mp hsupported
    obtain ⟨hcallsFront, hcallsBack⟩ := List.forall_mem_append.mp hcalls
    exact ⟨⟨hstored.1, hsupportedFront, hcallsFront⟩, ⟨hstored.2, hsupportedBack, hcallsBack⟩⟩
  · rintro ⟨hfront, hback⟩
    constructor
    · rw [Node.preorderAll_append, List.map_append, Stored.append, hlen]
      exact ⟨hfront.stored, hback.stored⟩
    · rw [Node.preorderAll_append]
      exact List.forall_mem_append.mpr ⟨hfront.supported, hback.supported⟩
    · rw [Node.preorderAll_append]
      exact List.forall_mem_append.mpr ⟨hfront.calls, hback.calls⟩

theorem cons {start : Nat} {node : Node} {rest : List Node} :
    m.Holds entryPoints data start (node :: rest) ↔
      m.Holds entryPoints data start [node] ∧
        m.Holds entryPoints data (start + node.count) rest := by
  have hone : Node.countAll [node] = node.count := by simp
  rw [← List.singleton_append, append, hone]

variable {start : Nat} {node : Node}

/-- The instruction of the root comes first, and its operands follow. -/
theorem root (h : m.Holds entryPoints data start [node]) :
    m.code[start]? = some (node.bound entryPoints data) ∧ node.Supported ∧
      node.CallDefined entryPoints ∧ m.Holds entryPoints data (start + 1) node.children := by
  obtain ⟨hstored, hsupported, hcalls⟩ := h
  have hpreorder : Node.preorderAll [node] = node :: Node.preorderAll node.children := by
    rw [Node.preorderAll_cons, Node.preorderAll_nil, List.append_nil, Node.preorder_eq]
  rw [hpreorder] at hstored hsupported hcalls
  obtain ⟨hnode, hsupported⟩ := List.forall_mem_cons.mp hsupported
  obtain ⟨hcall, hcalls⟩ := List.forall_mem_cons.mp hcalls
  rw [List.map_cons] at hstored
  exact ⟨hstored.1, hnode, hcall, ⟨hstored.2, hsupported, hcalls⟩⟩

end Holds

/-! ## Skipping -/

/-- The state after a number of instructions at the program counter, of which some have been run. -/
def State.advance (s : State) (instructions executed : Nat) : State :=
  { s with pc := s.pc + instructions, executed := s.executed + executed }

@[simp] theorem State.pc_advance (s : State) (instructions executed : Nat) :
    (s.advance instructions executed).pc = s.pc + instructions := rfl

@[simp] theorem State.cursor_advance (s : State) (instructions executed : Nat) :
    (s.advance instructions executed).cursor = s.cursor := rfl

@[simp] theorem State.stack_advance (s : State) (instructions executed : Nat) :
    (s.advance instructions executed).stack = s.stack := rfl

@[simp] theorem State.lagged_advance (s : State) (instructions executed : Nat) :
    (s.advance instructions executed).lagged = s.lagged := rfl

@[simp] theorem State.callDepth_advance (s : State) (instructions executed : Nat) :
    (s.advance instructions executed).callDepth = s.callDepth := rfl

@[simp] theorem State.advance_zero (s : State) : s.advance 0 0 = s := rfl

@[simp] theorem State.advance_advance (s : State) (i₁ e₁ i₂ e₂ : Nat) :
    (s.advance i₁ e₁).advance i₂ e₂ = s.advance (i₁ + i₂) (e₁ + e₂) := by
  simp [State.advance, Nat.add_assoc]

/-- Skipping goes to where the walk over whole subtrees goes. -/
theorem skipSubtrees_eq {left pending : Nat} {s : State} {stop : Nat}
    (h : spanEnd? BoundInstruction.argCount m.code left pending s.pc = some stop) :
    m.skipSubtrees left pending s = some (.done () { s with pc := stop }) := by
  induction left generalizing pending s with
  | zero =>
    cases pending with
    | zero =>
      obtain rfl := Option.some.inj h
      rfl
    | succ pending => cases h
  | succ left ih =>
    cases pending with
    | zero =>
      obtain rfl := Option.some.inj h
      rfl
    | succ pending =>
      unfold spanEnd? at h
      unfold skipSubtrees
      cases hfetch : m.code[s.pc]? with
      | none =>
        rw [hfetch] at h
        cases h
      | some i =>
        rw [hfetch] at h
        exact ih h

/-- Skipping a subtree goes to the address behind it and runs nothing. -/
theorem skip_eq {s : State} {node : Node} (h : m.Holds entryPoints data s.pc [node]) :
    m.skip s = some (.done () (s.advance node.count 0)) := by
  have hstored : Stored m.code s.pc (node.preorder.map (Node.bound entryPoints data)) := by
    have hall := h.stored
    rwa [Node.preorderAll_cons, Node.preorderAll_nil, List.append_nil] at hall
  have hlen : (node.preorder.map (Node.bound entryPoints data)).length = node.count := by
    rw [List.length_map, Node.length_preorder]
  have hne : node.preorder.map (Node.bound entryPoints data) ≠ [] := by
    rw [Node.preorder_eq]
    exact List.cons_ne_nil _ _
  -- the walk may take as many steps as there are instructions from here on, so all of the subtree
  have hsize := hstored.le_size hne
  rw [hlen] at hsize
  have hleft : node.count ≤ m.code.size - s.pc := by omega
  exact skipSubtrees_eq (spanEnd?_stored_one Node.argCount_bound hleft hstored)

/-! ## Columns at the cursor -/

/-- The cursor stands at the row that was asked for, unless it may have been moved away. -/
def State.Anchored (row : Nat) (s : State) : Prop := s.lagged = false → s.cursor = row

/-- Columns can be read: the cursor may have been moved away, or it stands at the row that was asked
for and every column has a cell there. -/
def State.Grounded (m : Machine) (data : Dataset) (row : Nat) (s : State) : Prop :=
  s.lagged = false → s.cursor = row ∧ row < m.rows ∧ data.Rectangular

theorem State.Grounded.anchored {row : Nat} {s : State} (h : s.Grounded m data row) :
    s.Anchored row :=
  fun hlagged => (h hlagged).1

/-- A column gives its cell at the cursor. The cell is looked up without a check only where the
cursor stands at the row that was asked for. -/
theorem read_eq {α : Type} {column : Array α} {row : Nat} {s : State}
    (hsize : data.Rectangular → column.size = m.rows) (hs : s.Grounded m data row) :
    m.read column s = some (.done (m.cell? column s.cursor) s) := by
  unfold read
  by_cases hlagged : s.lagged = true
  · rw [if_pos hlagged]
  · obtain ⟨hcursor, hrow, hdata⟩ := hs (Bool.not_eq_true _ ▸ hlagged)
    have hinside : row < column.size := hsize hdata ▸ hrow
    have hcell : column[row]? = some column[row] := Array.getElem?_eq_getElem hinside
    rw [if_neg hlagged, hcursor]
    simp [cell?, hrow, hcell]

theorem cell?_numeric (hrows : m.rows = data.rows) (name : String) (row : Int) :
    (data.numeric? name).bind (m.cell? · row) = data.numberAt? name row := by
  unfold Dataset.numberAt? cell?
  rw [hrows]
  by_cases hrow : 0 ≤ row ∧ row < data.rows
  · simp only [if_pos hrow]
  · simp [if_neg hrow]

theorem cell?_categorical (hrows : m.rows = data.rows) (name : String) (row : Int) :
    (data.categorical? name).bind (m.cell? · row) = data.categoryAt? name row := by
  unfold Dataset.categoryAt? cell?
  rw [hrows]
  by_cases hrow : 0 ≤ row ∧ row < data.rows
  · simp only [if_pos hrow]
  · simp [if_neg hrow]

/-! ## Whole formulas -/

/-- The machine holds the bodies of a formula, the main body first, and calls enter every function
where its body is. -/
structure Carries (m : Machine) (formula : Formula) (data : Dataset)
    (entryPoints : List (String × Nat)) (body : Node) : Prop where
  body_eq : formula.body? = some body
  body_holds : m.Holds entryPoints data 0 [body]
  function : ∀ name address, entryPoints.lookup name = some address →
    ∃ functionBody, formula.functionBody? name = some functionBody ∧
      m.Holds entryPoints data address [functionBody]

/-- The machine holds the bodies of a formula, bound to a dataset of as many rows. -/
structure Loaded (m : Machine) (formula : Formula) (data : Dataset)
    (entryPoints : List (String × Nat)) (body : Node) : Prop
    extends m.Carries formula data entryPoints body where
  rows : m.rows = data.rows

end Machine

/-- The address of a function is where its body is emitted. -/
theorem Draft.lookup_addresses {m : Machine} {entryPoints : List (String × Nat)} {data : Dataset}
    {name : String} {address start : Nat} {functions : List (String × Node)}
    (h : (Draft.addresses start functions).lookup name = some address)
    (hholds : m.Holds entryPoints data start (functions.map (·.2))) :
    ∃ body, functions.lookup name = some body ∧ m.Holds entryPoints data address [body] := by
  induction functions generalizing start with
  | nil => cases h
  | cons function rest ih =>
    obtain ⟨other, body⟩ := function
    rw [List.map_cons, Machine.Holds.cons] at hholds
    rw [Draft.addresses, List.lookup_cons] at h
    rw [List.lookup_cons]
    by_cases hname : (name == other) = true
    · simp only [hname, Option.some.injEq] at h ⊢
      exact ⟨body, rfl, h ▸ hholds.1⟩
    · simp only [hname] at h ⊢
      exact ih h hholds.2

namespace Formula

/-- The body of a function is found by its name. -/
theorem functionBody?_of_lookup {formula : Formula} {functions : List (String × Node)}
    {name : String} {body : Node}
    (hfunctions : formula.functions = functions.map (fun function => (function.1, some function.2)))
    (h : functions.lookup name = some body) : formula.functionBody? name = some body := by
  have hlookup : (functions.map fun function => (function.1, some function.2)).lookup name =
      some (some body) := by
    clear hfunctions
    induction functions with
    | nil => cases h
    | cons function rest ih =>
      rw [List.map_cons, List.lookup_cons]
      rw [List.lookup_cons] at h
      by_cases hname : (name == function.1) = true
      · simp only [hname, Option.some.injEq] at h ⊢
        exact h
      · simp only [hname] at h ⊢
        exact ih h
  rw [functionBody?, hfunctions, hlookup]
  rfl

/-- Compiled and bound, the bodies of a formula lie in the code, the main body first. -/
theorem Compilable.holds {formula : Formula} {main : Node} {functions : List (String × Node)}
    {data : Dataset} {m : Machine} (h : formula.Compilable main functions)
    (hcode : m.code = ((programOf main functions).bind data).code) :
    m.Holds (Draft.addresses main.count functions) data 0 (main :: functions.map (·.2)) := by
  refine ⟨?_, h.supported, h.calls⟩
  have hlist : m.code.toList = [] ++ (compiledNodes main functions).map
      (Node.bound (Draft.addresses main.count functions) data) := by
    rw [hcode]
    simp [Program.bind, programOf, Node.bound, Function.comp_def]
  exact Stored.of_toList hlist

/-- Compiled and bound to any dataset, the bodies of a formula are where calls enter them. -/
theorem Compilable.carries {formula : Formula} {main : Node} {functions : List (String × Node)}
    {data : Dataset} {m : Machine} (h : formula.Compilable main functions)
    (hcode : m.code = ((programOf main functions).bind data).code) :
    m.Carries formula data (Draft.addresses main.count functions) main := by
  have hall := h.holds hcode
  rw [Machine.Holds.cons] at hall
  refine ⟨h.body_eq, hall.1, ?_⟩
  intro name address haddress
  rw [Nat.zero_add] at hall
  obtain ⟨body, hbody, hholds⟩ := Draft.lookup_addresses haddress hall.2
  exact ⟨body, functionBody?_of_lookup h.functions_eq hbody, hholds⟩

/-- A compiled formula that is bound to a dataset is loaded. -/
theorem loaded_of_compile {formula : Formula} {program : Program} {data : Dataset} {m : Machine}
    (hcompile : formula.compile [] = .ok program)
    (hcode : m.code = (program.bind data).code) (hrows : m.rows = data.rows) :
    ∃ entryPoints body, m.Loaded formula data entryPoints body := by
  obtain ⟨main, functions, hcompilable, rfl⟩ := compile_eq_ok.mp hcompile
  exact ⟨Draft.addresses main.count functions, main, hcompilable.carries hcode, hrows⟩

end Formula

end FormulaEngine
