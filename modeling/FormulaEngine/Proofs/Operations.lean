import FormulaEngine.Machine.Termination
import FormulaEngine.Proofs.Image

/-!
# Operations on loaded code

What each operation of the machine does when the subtree at the program counter is run correctly:
the value is the one that the meaning of the symbol gives, the program counter stands behind all
operands, whether they were run or skipped, and nothing else has changed but the count of
instructions.

- `Machine.Evaluates`: an action gives every loaded subtree its value and moves past it;
- `Machine.collect_eq`, `Machine.operandsWhile_eq`: operands that are all run, and operands that are
  run until one decides;
- `Machine.integrate_eq`, `Machine.differentiate_eq`: the operand at other rows;
- `Machine.call_eq`: arguments, frame and body of a call;
- `Machine.readNumber_eq`, `Machine.weighted_eq`, `Machine.weightedAt_eq`, `Machine.categorized_eq`:
  the columns.

`Evaluates` speaks of states at or behind an address and with a given number of functions running,
so that it can be the induction hypothesis on the length of runs.
-/

namespace FormulaEngine

open Arithmetic Meaning

namespace ArgumentStack

/-! ## Frames -/

/-- The innermost frame holds `arguments`; outside all functions there is no frame and there are no
arguments. -/
def Frames (arguments : List Float) (stack : ArgumentStack) : Prop :=
  (stack.cells = [] ∧ arguments = []) ∨
    ∃ outer, stack.cells = .length arguments.length :: (arguments.map .argument ++ outer)

/-- The arguments of the innermost frame, as far as there are any. -/
def innermost (stack : ArgumentStack) : List Float :=
  match stack.cells with
  | .length count :: cells => (cells.take count).filterMap fun
    | .argument value => some value
    | .length _ => none
  | _ => []

/-- The innermost frame is whole, if there is one. -/
def Framed (stack : ArgumentStack) : Prop := stack.Frames stack.innermost

instance (arguments : List Float) (stack : ArgumentStack) : Decidable (stack.Frames arguments) :=
  decidable_of_iff (stack.cells = [] ∧ arguments = [] ∨
    (.length arguments.length :: arguments.map .argument) <+: stack.cells)
    (or_congr_right (exists_congr fun outer => by rw [List.cons_append, eq_comm]))

instance : DecidablePred Framed := fun stack =>
  inferInstanceAs (Decidable (stack.Frames stack.innermost))

/-- A frame holds its own arguments. -/
theorem Frames.innermost_eq {arguments : List Float} {stack : ArgumentStack}
    (h : stack.Frames arguments) : stack.innermost = arguments := by
  unfold innermost
  rcases h with ⟨hcells, rfl⟩ | ⟨outer, hcells⟩
  · rw [hcells]
  · have hframe : (arguments.map Cell.argument ++ outer).take arguments.length =
        arguments.map Cell.argument := List.take_left' (List.length_map _)
    rw [hcells]
    simp only [hframe, List.filterMap_map]
    exact List.filterMap_some

theorem Frames.framed {arguments : List Float} {stack : ArgumentStack}
    (h : stack.Frames arguments) : stack.Framed := by
  unfold Framed
  rwa [h.innermost_eq]

/-- The stack with the arguments of a call under construction. -/
def pushAll (values : List Float) (stack : ArgumentStack) : ArgumentStack :=
  { stack with pending := values.reverse ++ stack.pending }

/-- An argument is read from its own frame; beyond the frame, and without one, it is NaN. -/
theorem argument?_eq {arguments : List Float} {stack : ArgumentStack} (h : stack.Frames arguments)
    (index : Nat) : stack.argument? index = some (arguments[index]?.getD nan) := by
  unfold argument?
  rcases h with ⟨hcells, rfl⟩ | ⟨outer, hcells⟩
  · rw [hcells]
    rfl
  · rw [hcells]
    by_cases hindex : index < arguments.length
    · have hcell : (arguments.map Cell.argument ++ outer)[index]? =
          some (.argument arguments[index]) := by
        rw [List.getElem?_append_left (by rwa [List.length_map]), List.getElem?_map,
          List.getElem?_eq_getElem hindex]
        rfl
      simp [hindex, hcell]
    · simp [hindex]

/-- The frame of a call is made of the arguments that were put aside for it. -/
theorem enter?_pushAll (values : List Float) (stack : ArgumentStack) :
    (stack.pushAll values).enter? values.length =
      some ⟨.length values.length :: (values.map .argument ++ stack.cells), stack.pending⟩ := by
  have hlen : values.length = values.reverse.length := List.length_reverse.symm
  have htake : (values.reverse ++ stack.pending).take values.length = values.reverse := by
    rw [hlen, List.take_left]
  have hdrop : (values.reverse ++ stack.pending).drop values.length = stack.pending := by
    rw [hlen, List.drop_left]
  simp [enter?, pushAll, htake, hdrop]

theorem discard_pushAll (values : List Float) (stack : ArgumentStack) :
    (stack.pushAll values).discard values.length = stack := by
  have hlen : values.length = values.reverse.length := List.length_reverse.symm
  simp only [discard, pushAll]
  rw [hlen, List.drop_left]

end ArgumentStack

namespace Machine

/-! ## Runs of actions -/

section Actions

variable {α β : Type} {s s' : State}

/-- After an action that ends with a value comes what follows it. -/
theorem bind_of_done {action : Action α} {next : α → Action β} {value : α}
    (h : action s = some (.done value s')) : (action >>= next) s = next value s' := by
  show Action.bind action next s = _
  rw [Action.bind, h]

theorem get_bind (read : State → α) (next : α → Action β) :
    (Action.get read >>= next) s = next (read s) s := rfl

theorem modify_bind (change : State → State) (next : Unit → Action β) :
    (Action.modify change >>= next) s = next () (change s) := rfl

theorem move_bind (rows : Int) (next : Unit → Action β) :
    (move rows >>= next) s = next () { s with cursor := s.cursor + rows } := rfl

theorem jump_bind (pc : Nat) (next : Unit → Action β) :
    (jump pc >>= next) s = next () { s with pc } := rfl

theorem pure_apply (value : α) : (pure value : Action α) s = some (.done value s) := rfl

end Actions

/-! ## Evaluation of operands -/

/-- A state in which the subtrees of a body can be run: at or behind the address `p`, with `d`
functions running and `arguments` for the innermost of them. -/
structure State.Ready (p d : Nat) (arguments : List Float) (s : State) : Prop where
  within : s.Within p d
  frames : s.stack.Frames arguments

theorem State.Ready.advance {p d : Nat} {arguments : List Float} {s : State}
    (h : s.Ready p d arguments) (instructions executed : Nat) :
    (s.advance instructions executed).Ready p d arguments :=
  ⟨⟨Nat.le_add_right_of_le h.within.1, h.within.2⟩, h.frames⟩

/-- Wherever `self` is started on a loaded subtree, it ends with the value of the subtree behind
it. -/
def Evaluates (m : Machine) (entryPoints : List (String × Nat)) (data : Dataset)
    (self : Action Float) (p d row : Nat) (scope : Scope) : Prop :=
  ∀ (node : Node) (s : State), s.Ready p d scope.arguments → s.Grounded m data row →
    m.Holds entryPoints data s.pc [node] →
      self s = some (.done (node.value scope s.cursor)
        (s.advance node.count (node.cost scope s.cursor)))

section Operands

variable {m : Machine} {entryPoints : List (String × Nat)} {data : Dataset} {self : Action Float}
  {p d row : Nat} {scope : Scope} {s : State}

/-- With the cursor marked as moved, a subtree can be run at any row. -/
theorem lagged_eq (hself : m.Evaluates entryPoints data self p d row scope) {node : Node}
    (hs : s.Ready p d scope.arguments) (hholds : m.Holds entryPoints data s.pc [node]) :
    lagged self s = some (.done (node.value scope s.cursor)
      (s.advance node.count (node.cost scope s.cursor))) := by
  have hmoved : State.Grounded m data row { s with lagged := true } := by
    intro h
    cases h
  have hrun := hself node { s with lagged := true } ⟨hs.within, hs.frames⟩ hmoved hholds
  rw [lagged, get_bind, modify_bind, bind_of_done hrun, modify_bind]
  rfl

/-- Operands that are all run are run one after another. -/
theorem collect_eq (hself : m.Evaluates entryPoints data self p d row scope) {nodes : List Node}
    (found : List Float) (hs : s.Ready p d scope.arguments) (hrow : s.Grounded m data row)
    (hholds : m.Holds entryPoints data s.pc nodes) :
    collect self nodes.length found s =
      some (.done (found.reverse ++ nodes.map (·.value scope s.cursor))
        (s.advance (Node.countAll nodes)
          (Symbol.costAll s.cursor (nodes.map (Node.operand scope))))) := by
  induction nodes generalizing found s with
  | nil => simp [collect, pure_apply, Symbol.costAll]
  | cons node rest ih =>
    obtain ⟨hnode, hrest⟩ := Holds.cons.mp hholds
    rw [List.length_cons, collect, bind_of_done (hself node s hs hrow hnode),
      ih _ (hs.advance _ _) hrow hrest]
    simp [Symbol.costAll, Node.operand]

/-- The truth of the last of `count` operands that is run, when they are run while `goesOn` holds of
the last value. Conjunctions and disjunctions differ in `goesOn` only. -/
def operandsWhile (m : Machine) (self : Action Float) (goesOn : Float → Bool) :
    (count : Nat) → (last : Float) → Action Float
  | 0, last => pure (truth (holds last))
  | count + 1, last => do
    if goesOn last then
      let value ← self
      operandsWhile m self goesOn count value
    else
      m.skip
      operandsWhile m self goesOn count last

theorem allTrue_eq_operandsWhile (count : Nat) (last : Float) :
    m.allTrue self count last = m.operandsWhile self holds count last := by
  induction count generalizing last with
  | zero => rfl
  | succ count ih => simp only [allTrue, operandsWhile, ih]

theorem anyTrue_eq_operandsWhile (count : Nat) (last : Float) :
    m.anyTrue self count last = m.operandsWhile self (· ≤ 0.0) count last := by
  induction count generalizing last with
  | zero => rfl
  | succ count ih => simp only [anyTrue, operandsWhile, ih, decide_eq_true_eq]

/-- Once an operand has decided, the others are skipped and the last value stays. -/
theorem operandsWhile_eq (hself : m.Evaluates entryPoints data self p d row scope)
    (goesOn : Float → Bool) {nodes : List Node} (last : Float)
    (hs : s.Ready p d scope.arguments) (hrow : s.Grounded m data row)
    (hholds : m.Holds entryPoints data s.pc nodes) :
    m.operandsWhile self goesOn nodes.length last s =
      some (.done
        (truth (holds (lastOf goesOn last (nodes.map (·.value scope s.cursor)))))
        (s.advance (Node.countAll nodes)
          (if goesOn last then
            Symbol.costWhile goesOn s.cursor (nodes.map (Node.operand scope)) else 0))) := by
  induction nodes generalizing last s with
  | nil => simp [operandsWhile, lastOf, Symbol.costWhile, pure_apply]
  | cons node rest ih =>
    obtain ⟨hnode, hrest⟩ := Holds.cons.mp hholds
    rw [List.length_cons, operandsWhile, List.map_cons, List.map_cons, lastOf]
    by_cases hgoes : goesOn last = true
    · rw [if_pos hgoes, if_pos hgoes, if_pos hgoes, bind_of_done (hself node s hs hrow hnode),
        ih _ (hs.advance _ _) hrow hrest, State.advance_advance, Node.countAll_cons]
      rfl
    · rw [if_neg hgoes, if_neg hgoes, if_neg hgoes, bind_of_done (skip_eq hnode),
        ih _ (hs.advance _ _) hrow hrest, if_neg hgoes]
      -- a value that has decided is the last one whatever comes after it
      have hlast : ∀ values : List Float, lastOf goesOn last values = last := by
        intro values
        cases values with
        | nil => rfl
        | cons next values => rw [lastOf, if_neg hgoes]
      simp [hlast]

/-! ## Lags -/

/-- The state with the cursor `offset` rows away and with more instructions run. -/
def State.shift (s : State) (offset : Int) (executed : Nat) : State :=
  { s with cursor := s.cursor + offset, executed := s.executed + executed }

theorem State.shift_shift (offset₁ offset₂ : Int) (executed₁ executed₂ : Nat) :
    (s.shift offset₁ executed₁).shift offset₂ executed₂ =
      s.shift (offset₁ + offset₂) (executed₁ + executed₂) := by
  simp [State.shift, Int.add_assoc, Nat.add_assoc]

theorem State.shift_zero_zero : s.shift 0 0 = s := by
  simp [State.shift]

theorem State.shift_zero (executed : Nat) : s.shift 0 executed = s.advance 0 executed := by
  simp [State.shift, State.advance]

theorem State.Ready.shift {arguments : List Float} (hs : s.Ready p d arguments) (offset : Int)
    (executed : Nat) : (s.shift offset executed).Ready p d arguments :=
  ⟨hs.within, hs.frames⟩

/-- The operand at the program counter is run some rows away, with the program counter brought back
afterwards. -/
theorem lagged_shift_eq (hself : m.Evaluates entryPoints data self p d row scope) {node : Node}
    (hs : s.Ready p d scope.arguments) (hholds : m.Holds entryPoints data s.pc [node])
    (offset : Int) (executed : Nat) :
    lagged self (s.shift offset executed) =
      some (.done (node.value scope (s.cursor + offset))
        ((s.shift offset (executed + node.cost scope (s.cursor + offset))).advance
          node.count 0)) := by
  refine (lagged_eq hself (hs.shift offset executed) hholds).trans ?_
  simp [State.shift, State.advance, Nat.add_assoc]

/-- After an operand the cursor is moved on and the operand is started again. -/
theorem rewind_bind (rows offset : Int) (executed count : Nat) (next : Action Float) :
    (move rows >>= fun _ => jump s.pc >>= fun _ => next)
        ((s.shift offset executed).advance count 0) =
      next (s.shift (offset + rows) executed) := by
  rw [move_bind, jump_bind]
  simp [State.shift, State.advance, Int.add_assoc]

/-- The sum over the rows behind the cursor. Every round starts the operand anew, so the program
counter stays at its start. -/
theorem accumulate_eq (hself : m.Evaluates entryPoints data self p d row scope) {node : Node}
    (step : Int) (count : Nat) (sum : Float) (hs : s.Ready p d scope.arguments)
    (hholds : m.Holds entryPoints data s.pc [node]) :
    accumulate self s.pc step count sum s =
      some (.done (((rowsBehind step count s.cursor).map (node.value scope)).foldl (· + ·) sum)
        (s.shift (step * count)
          ((rowsBehind step count s.cursor).map (node.cost scope)).sum)) := by
  induction count generalizing sum s with
  | zero => simp [accumulate, rowsBehind, pure_apply, State.shift]
  | succ count ih =>
    have hrun := lagged_shift_eq hself hs hholds step 0
    have hstep : step + step * count = step * (count + 1 : Nat) := by
      rw [Int.natCast_succ, Int.mul_add]
      omega
    rw [accumulate, move_bind]
    refine (bind_of_done hrun).trans ?_
    refine (ih _ (hs.shift step (0 + node.cost scope (s.cursor + step))) hholds).trans ?_
    rw [State.shift_shift, hstep, Nat.zero_add]
    rfl

theorem integrate_eq (hself : m.Evaluates entryPoints data self p d row scope) {node : Node}
    (lag : Int) (hs : s.Ready p d scope.arguments)
    (hholds : m.Holds entryPoints data s.pc [node]) :
    integrate self lag s =
      some (.done (((lagRows lag s.cursor).map (node.value scope)).foldl (· + ·) 0.0)
        (s.advance node.count ((lagRows lag s.cursor).map (node.cost scope)).sum)) := by
  have hback : lag.sign * lag.natAbs + -lag = 0 := by
    rw [Int.sign_mul_natAbs]
    omega
  rw [integrate, get_bind, bind_of_done (accumulate_eq hself _ _ _ hs hholds)]
  show (lagged self >>= _) (((s.shift _ _).shift (-lag) 0)) = _
  rw [State.shift_shift, hback, bind_of_done (lagged_shift_eq hself hs hholds _ _), pure_apply,
    State.shift_zero]
  simp [lagRows]

theorem differentiate_eq (hself : m.Evaluates entryPoints data self p d row scope) {node : Node}
    (hs : s.Ready p d scope.arguments) (hholds : m.Holds entryPoints data s.pc [node]) :
    differentiate self s =
      some (.done
        (recentSlope (node.value scope s.cursor) (node.value scope (s.cursor - 1))
          (node.value scope (s.cursor - 3)) (node.value scope (s.cursor - 4)))
        (s.advance node.count (node.cost scope s.cursor + node.cost scope (s.cursor - 1) +
          node.cost scope (s.cursor - 3) + node.cost scope (s.cursor - 4)))) := by
  have hrun := lagged_shift_eq hself hs hholds
  have hfirst := hrun 0 0
  rw [State.shift_zero_zero, Int.add_zero, Nat.zero_add] at hfirst
  rw [differentiate, get_bind, bind_of_done hfirst, rewind_bind, bind_of_done (hrun _ _),
    rewind_bind, bind_of_done (hrun _ _), rewind_bind, bind_of_done (hrun _ _), move_bind,
    pure_apply]
  have h1 : s.cursor + (0 + -1) = s.cursor - 1 := by omega
  have h3 : s.cursor + (0 + -1 + -2) = s.cursor - 3 := by omega
  have h4 : s.cursor + (0 + -1 + -2 + -1) = s.cursor - 4 := by omega
  have h0 : s.cursor - 4 + 4 = s.cursor := by omega
  simp only [State.shift, State.advance, h1, h3, h4, h0, Nat.add_assoc, Nat.add_zero]

/-! ## Calls -/

/-- Arguments are run like other operands and are put aside in order. What is put aside does not
touch the frame that the next argument reads. -/
theorem pushArguments_eq (hself : m.Evaluates entryPoints data self p d row scope)
    {nodes : List Node} (hs : s.Ready p d scope.arguments) (hrow : s.Grounded m data row)
    (hholds : m.Holds entryPoints data s.pc nodes) :
    pushArguments self nodes.length s =
      some (.done () { s.advance (Node.countAll nodes)
          (Symbol.costAll s.cursor (nodes.map (Node.operand scope))) with
        stack := s.stack.pushAll (nodes.map (·.value scope s.cursor)) }) := by
  induction nodes generalizing s with
  | nil => rfl
  | cons node rest ih =>
    obtain ⟨hnode, hrest⟩ := Holds.cons.mp hholds
    have hready : State.Ready p d scope.arguments
        { s.advance node.count (node.cost scope s.cursor) with
          stack := s.stack.push (node.value scope s.cursor) } :=
      ⟨(hs.advance _ (node.cost scope s.cursor)).within, hs.frames⟩
    rw [List.length_cons, pushArguments, bind_of_done (hself node s hs hrow hnode), modify_bind]
    -- the states agree up to the order in which arguments are put on the pending ones
    refine (ih hready hrow hrest).trans ?_
    simp [State.advance, ArgumentStack.pushAll, ArgumentStack.push, Symbol.costAll, Node.operand,
      Nat.add_assoc]

/-- A function runs in a frame of the arguments that were put aside and is left with the stack as it
was before them. -/
theorem enter_eq {body : Node} {target : Nat} {inner : Scope}
    (hself : m.Evaluates entryPoints data self target (d + 1) row inner) (hdepth : s.callDepth = d)
    (hrow : s.Grounded m data row) (hholds : m.Holds entryPoints data target [body]) :
    enter self inner.arguments.length target
        { s with stack := s.stack.pushAll inner.arguments } =
      some (.done (body.value inner s.cursor) (s.advance 0 (body.cost inner s.cursor))) := by
  have hready : State.Ready target (d + 1) inner.arguments { s with
      stack := ⟨.length inner.arguments.length ::
        (inner.arguments.map .argument ++ s.stack.cells), s.stack.pending⟩
      pc := target
      callDepth := s.callDepth + 1 } :=
    ⟨⟨Nat.le_refl target, congrArg (· + 1) hdepth⟩, Or.inr ⟨s.stack.cells, rfl⟩⟩
  have hentered := ArgumentStack.enter?_pushAll inner.arguments s.stack
  have hleft := ArgumentStack.leave_enter hentered
  rw [ArgumentStack.discard_pushAll] at hleft
  rw [enter, get_bind, hentered]
  -- the body leaves the stack as it found it, and the frame comes off
  refine (bind_of_done (hself body _ hready hrow hholds)).trans ?_
  rw [modify_bind, pure_apply]
  simp only [State.advance]
  rw [hleft]
  rfl

variable {formula : Formula} {body node : Node}

/-- A call gives the value of the function that it names, on the values of its operands. At the
limit of nested calls the operands are run all the same. -/
theorem call_eq (hloaded : m.Loaded formula data entryPoints body)
    (hscope : scope = formula.scope data (m.maxCallDepth - d) scope.arguments)
    (hself : m.Evaluates entryPoints data self p d row scope)
    (hbody : d < m.maxCallDepth → ∀ target arguments, m.Evaluates entryPoints data self target
      (d + 1) row (formula.scope data (m.maxCallDepth - (d + 1)) arguments))
    (hs : s.Ready p d scope.arguments) (hrow : s.Grounded m data row)
    (hholds : m.Holds entryPoints data s.pc node.children) {function : String}
    (hsymbol : node.symbol = .call function) (hdefined : node.CallDefined entryPoints) :
    m.call self (node.bound entryPoints data) s =
      some (.done
        (scope.call function (node.children.map (·.value scope s.cursor)) s.cursor)
        (s.advance (Node.countAll node.children)
          (Symbol.costAll s.cursor (node.children.map (Node.operand scope)) +
            scope.callCost function (node.children.map (·.value scope s.cursor)) s.cursor))) := by
  obtain ⟨address, haddress⟩ := hdefined function hsymbol
  obtain ⟨functionBody, hfunction, hfunctionHolds⟩ := hloaded.function function address haddress
  have hdepth : s.callDepth = d := hs.within.2
  have hlength : (node.children.map (·.value scope s.cursor)).length = node.children.length :=
    List.length_map _
  have hcall : scope.call = formula.callValue data (m.maxCallDepth - d) := by rw [hscope]; rfl
  have hcost : scope.callCost = formula.callCost data (m.maxCallDepth - d) := by rw [hscope]; rfl
  rw [call, Node.argCount_bound, bind_of_done (pushArguments_eq hself hs hrow hholds), get_bind,
    Node.data_of_call data hsymbol haddress, hcall, hcost, ← hlength]
  by_cases hroom : d < m.maxCallDepth
  · -- below the limit the body is run, with room for one nested call less
    have hlt : s.callDepth < m.maxCallDepth := by omega
    obtain ⟨room, hroomEq⟩ : ∃ room, m.maxCallDepth - d = room + 1 :=
      ⟨m.maxCallDepth - d - 1, by omega⟩
    have hinner := hbody hroom address (node.children.map (·.value scope s.cursor))
    rw [show m.maxCallDepth - (d + 1) = room by omega] at hinner
    have henter := enter_eq (s := s.advance (Node.countAll node.children)
      (Symbol.costAll s.cursor (node.children.map (Node.operand scope)))) hinner hdepth hrow
      hfunctionHolds
    show (if s.callDepth < m.maxCallDepth then enter self _ address else _) _ = _
    rw [if_pos hlt]
    refine henter.trans ?_
    rw [hroomEq, Formula.callValue_succ _ _ _ hfunction, Formula.callCost_succ _ _ _ hfunction,
      State.advance_advance]
    rfl
  · -- at the limit the arguments are thrown away and the value is NaN
    have hge : ¬ s.callDepth < m.maxCallDepth := by omega
    have hnone : m.maxCallDepth - d = 0 := by omega
    show (if s.callDepth < m.maxCallDepth then enter self _ address else _) _ = _
    rw [if_neg hge, modify_bind, pure_apply, hnone, Formula.callValue_zero, Formula.callCost_zero]
    simp only [ArgumentStack.discard_pushAll]
    rfl

/-! ## Columns -/

theorem readNumber_eq (hloaded : m.Loaded formula data entryPoints body) {i : BoundInstruction}
    {symbol : Symbol} {name : String} (hi : i.data = symbol.data false data)
    (hname : symbol.variableName? = some name) (hrow : s.Grounded m data row) :
    m.readNumber i s = some (.done (data.numberAt? name s.cursor) s) := by
  rw [readNumber, hi, Symbol.data_numeric data hname, ← cell?_numeric hloaded.rows]
  cases hcolumn : data.numeric? name with
  | none => rfl
  | some column =>
    have hsize : data.Rectangular → column.size = m.rows :=
      fun hdata => hloaded.rows ▸ hdata.size_numeric hcolumn
    exact read_eq hsize hrow

theorem weighted_eq (hloaded : m.Loaded formula data entryPoints body) {i : BoundInstruction}
    {symbol : Symbol} {name : String} (hi : i.data = symbol.data false data)
    (hname : symbol.variableName? = some name) (hrow : s.Grounded m data row)
    (weight : Float) :
    m.weighted i weight s =
      some (.done
        (match data.numberAt? name s.cursor with
          | some number => number * weight
          | none => nan) s) := by
  rw [weighted, hi, Symbol.data_numeric data hname, ← cell?_numeric hloaded.rows]
  cases hcolumn : data.numeric? name with
  | none => rfl
  | some column =>
    have hsize : data.Rectangular → column.size = m.rows :=
      fun hdata => hloaded.rows ▸ hdata.size_numeric hcolumn
    refine (bind_of_done (read_eq hsize hrow)).trans ?_
    rw [Option.bind_some]
    cases m.cell? column s.cursor <;> rfl

theorem weightedAt_eq (hloaded : m.Loaded formula data entryPoints body) {i : BoundInstruction}
    {symbol : Symbol} {name : String} (hi : i.data = symbol.data false data)
    (hname : symbol.variableName? = some name) (weight : Float) (lag : Int) :
    m.weightedAt i weight lag s =
      some (.done
        (match data.numberAt? name (s.cursor + lag) with
          | some number => number * weight
          | none => nan) s) := by
  rw [weightedAt, get_bind, hi, Symbol.data_numeric data hname, ← cell?_numeric hloaded.rows]
  cases hcolumn : data.numeric? name with
  | none => rfl
  | some column =>
    rw [Option.bind_some]
    show (match m.cell? column (s.cursor + lag) with
      | some value => pure (value * weight)
      | none => pure nan : Action Float) s = _
    cases m.cell? column (s.cursor + lag) <;> rfl

theorem categorized_eq (hloaded : m.Loaded formula data entryPoints body) {i : BoundInstruction}
    {symbol : Symbol} {name : String} (hi : i.data = symbol.data true data)
    (hname : symbol.variableName? = some name) (hrow : s.Grounded m data row)
    (number : String → Float) :
    m.categorized i number s =
      some (.done
        (match data.categoryAt? name s.cursor with
          | some category => number category
          | none => nan) s) := by
  rw [categorized, hi, Symbol.data_categorical data hname, ← cell?_categorical hloaded.rows]
  cases hcolumn : data.categorical? name with
  | none => rfl
  | some column =>
    have hsize : data.Rectangular → column.size = m.rows :=
      fun hdata => hloaded.rows ▸ hdata.size_categorical hcolumn
    refine (bind_of_done (read_eq hsize hrow)).trans ?_
    rw [Option.bind_some]
    cases m.cell? column s.cursor <;> rfl

end Operands

end Machine

end FormulaEngine
