import FormulaEngine.Node

/-!
# Formulas

A formula is a tree whose root has one branch for the main body and one for every function that the
formula defines.

- `Formula.body?`: the first child of the first branch;
- `Formula.functions`: the `defun` branches after the first one, each with its first child;
- `Formula.ofBody`, `Formula.withFunctions`: formulas of the usual shape.
-/

namespace FormulaEngine

/-- A main body together with the functions that it may call. -/
structure Formula where
  root : Node

namespace Formula

/-- The usual shape: a start branch over the body, then one branch for every function. -/
def withFunctions (body : Node) (functions : List (String × Node)) : Formula where
  root :=
    ⟨.programRoot,
      ⟨.start, [body]⟩ :: functions.map fun (name, functionBody) => ⟨.defun name, [functionBody]⟩⟩

/-- A formula that defines no functions. -/
def ofBody (body : Node) : Formula := withFunctions body []

/-- The main body. -/
def body? (formula : Formula) : Option Node := do
  let branch ← formula.root.children.head?
  branch.children.head?

/-- The functions in the order of their definition; a branch without children has no body. -/
def functions (formula : Formula) : List (String × Option Node) :=
  formula.root.children.tail.filterMap fun branch =>
    match branch.symbol with
    | .defun name => some (name, branch.children.head?)
    | _ => none

/-- The number of nodes, those of the outer structure included. -/
def size (formula : Formula) : Nat := formula.root.count

/-- Whether the formula lacks a main body. -/
def isEmpty (formula : Formula) : Bool := formula.body?.isNone

@[simp] theorem body?_withFunctions (body : Node) (functions : List (String × Node)) :
    (withFunctions body functions).body? = some body := rfl

@[simp] theorem functions_withFunctions (body : Node) (functions : List (String × Node)) :
    (withFunctions body functions).functions = functions.map fun (name, f) => (name, some f) := by
  simp only [withFunctions, Formula.functions, List.tail_cons, List.filterMap_map]
  induction functions with
  | nil => rfl
  | cons f rest ih => simpa using ih

end Formula

end FormulaEngine
