import FormulaEngine.Proofs.Balance
import FormulaEngine.Proofs.Subtrees

/-!
# Skipping and measuring

The machine skips a subtree with one loop, and the length of a subtree is measured with another. Both
count the subtrees that are still to go and know nothing of the tree. Whatever the code holds, they
come to the same end, or both run out of the code. Where a formula has been compiled they never run
out, and running the subtree ends where they do.

- `subtreesToGo`: the counter of a walk over subtrees, round by round;
- `spanEnd?_eq_some`, `spanEnd?_eq_none`: what the counter of a walk tells about its end;
- `spanLength?_eq`: measuring a subtree is a walk that starts at it with one subtree to go;
- `Program.subtreeLength?_bind`: what is measured is the same before and after data is attached;
- `Machine.SkipCounts`: the loop of a skip has this counter, which is positive before every round;
- `Machine.SkipsOver`, `Machine.SkipRunsOut`: the two ends of a skip;
- `Machine.skip_measured`: which of them it is, measuring tells.

The counter of the loops is a natural number, and so it could not show a debt. `subtreesToGo` is a
whole number and takes one away in every round, whether or not there is one.
-/

namespace FormulaEngine

section Walk

variable {α : Type} {argCount : α → Nat} {code : Array α}

/-- The number of subtrees to go after some rounds of a walk from address `i` on. In a round an
instruction brings as many as it has operands, and it is the start of one itself. -/
def subtreesToGo (argCount : α → Nat) (code : Array α) (pending i : Nat) : (rounds : Nat) → Int
  | 0 => pending
  | rounds + 1 =>
    subtreesToGo argCount code pending i rounds + (code[i + rounds]?.elim 0 argCount : Nat) - 1

/-- After its first round a walk goes on as one from the next address. -/
theorem subtreesToGo_succ {pending i : Nat} {item : α} (hitem : code[i]? = some item)
    (rounds : Nat) :
    subtreesToGo argCount code (pending + 1) i (rounds + 1) =
      subtreesToGo argCount code (pending + argCount item) (i + 1) rounds := by
  induction rounds with
  | zero =>
    have hfirst : code[i + 0]?.elim 0 argCount = argCount item := by
      rw [Nat.add_zero, hitem]
      rfl
    simp only [subtreesToGo, hfirst]
    omega
  | succ rounds ih =>
    have haddress : i + (rounds + 1) = i + 1 + rounds := by omega
    rw [subtreesToGo, ih, haddress]
    rfl

/-- A walk that ends has gone one address further with every round. There were subtrees to go before
each of them, and there are none at the end. -/
theorem spanEnd?_eq_some {left pending i stop : Nat}
    (h : spanEnd? argCount code left pending i = some stop) :
    ∃ rounds, stop = i + rounds ∧ (rounds = 0 ∨ stop ≤ code.size) ∧
      (∀ k < rounds, 0 < subtreesToGo argCount code pending i k) ∧
      subtreesToGo argCount code pending i rounds = 0 := by
  induction left generalizing pending i with
  | zero =>
    cases pending with
    | zero => exact ⟨0, (Option.some.inj h).symm, Or.inl rfl, fun k hk => absurd hk (by omega), rfl⟩
    | succ pending => cases h
  | succ left ih =>
    cases pending with
    | zero => exact ⟨0, (Option.some.inj h).symm, Or.inl rfl, fun k hk => absurd hk (by omega), rfl⟩
    | succ pending =>
      rw [spanEnd?] at h
      split at h
      · next item hitem =>
        have hinside : i < code.size := (Array.getElem?_eq_some_iff.mp hitem).1
        obtain ⟨rounds, hstop, hsize, hpositive, hend⟩ := ih h
        refine ⟨rounds + 1, by omega, by omega, fun k hk => ?_, ?_⟩
        · cases k with
          | zero => exact Int.natCast_pos.mpr (Nat.succ_pos _)
          | succ k =>
            rw [subtreesToGo_succ hitem]
            exact hpositive k (by omega)
        · rw [subtreesToGo_succ hitem, hend]
      · cases h

/-- A walk that may go to the end of the code and does not end has subtrees to go all the way. -/
theorem spanEnd?_eq_none {left pending i : Nat} (hleft : code.size - i ≤ left)
    (h : spanEnd? argCount code left pending i = none) :
    ∀ k ≤ code.size - i, 0 < subtreesToGo argCount code pending i k := by
  induction left generalizing pending i with
  | zero =>
    intro k hk
    obtain rfl : k = 0 := by omega
    cases pending with
    | zero => cases h
    | succ pending => exact Int.natCast_pos.mpr (Nat.succ_pos _)
  | succ left ih =>
    cases pending with
    | zero => cases h
    | succ pending =>
      intro k hk
      cases k with
      | zero => exact Int.natCast_pos.mpr (Nat.succ_pos _)
      | succ k =>
        have hitem : code[i]? = some code[i] := Array.getElem?_eq_getElem (by omega)
        rw [spanEnd?, hitem] at h
        rw [subtreesToGo_succ hitem]
        exact ih (by omega) h k (by omega)

/-- A walk that may go to the end of the code may as well go further. -/
theorem spanEnd?_of_le {left pending i : Nat} (hleft : code.size - i ≤ left) :
    spanEnd? argCount code left pending i =
      spanEnd? argCount code (code.size - i) pending i := by
  induction left generalizing pending i with
  | zero => rw [Nat.le_zero.mp hleft]
  | succ left ih =>
    cases pending with
    | zero => cases code.size - i <;> rfl
    | succ pending =>
      cases hrest : code.size - i with
      | zero =>
        have hitem : code[i]? = none := Array.getElem?_eq_none (by omega)
        show spanEnd? argCount code (left + 1) (pending + 1) i = none
        simp only [spanEnd?, hitem]
      | succ rest =>
        have hitem : code[i]? = some code[i] := Array.getElem?_eq_getElem (by omega)
        have hnext : code.size - (i + 1) = rest := by omega
        rw [spanEnd?, spanEnd?, hitem]
        exact hnext ▸ ih (by omega)

/-- The length of a subtree is how far a walk goes that starts at it with one subtree to go. -/
theorem spanLength?_eq (i : Nat) : spanLength? argCount code i =
    (spanEnd? argCount code (code.size - i) 1 i).map (· - i) := by
  unfold spanLength?
  cases hrest : code.size - i with
  | zero =>
    have hitem : code[i]? = none := Array.getElem?_eq_none (by omega)
    rw [hitem]
    rfl
  | succ rest =>
    have hitem : code[i]? = some code[i] := Array.getElem?_eq_getElem (by omega)
    have hnext : code.size - (i + 1) = rest := by omega
    have hwalk : spanEnd? argCount code (rest + 1) (argCount code[i]) (i + 1) =
        spanEnd? argCount code rest (argCount code[i]) (i + 1) := by
      rw [spanEnd?_of_le (by omega), hnext]
    have hfirst : spanEnd? argCount code (rest + 1) 1 i =
        spanEnd? argCount code rest (argCount code[i]) (i + 1) := by
      rw [spanEnd?, hitem]
      exact congrArg (spanEnd? argCount code rest · (i + 1)) (Nat.zero_add _)
    rw [hfirst, ← hwalk, hitem]
    exact Option.map_eq_bind.symm

/-- What a walk does depends on the numbers of operands alone. -/
theorem spanEnd?_map {β : Type} (f : β → α) (code : Array β) (left pending i : Nat) :
    spanEnd? argCount (code.map f) left pending i =
      spanEnd? (fun item => argCount (f item)) code left pending i := by
  induction left generalizing pending i with
  | zero => cases pending <;> rfl
  | succ left ih =>
    cases pending with
    | zero => rfl
    | succ pending =>
      rw [spanEnd?, spanEnd?, Array.getElem?_map]
      cases code[i]? with
      | none => rfl
      | some item => exact ih _ _

theorem spanLength?_map {β : Type} (f : β → α) (code : Array β) (i : Nat) :
    spanLength? argCount (code.map f) i = spanLength? (fun item => argCount (f item)) code i := by
  rw [spanLength?_eq, spanLength?_eq, spanEnd?_map, Array.size_map]

end Walk

/-- Attaching data changes no lengths. -/
theorem Program.subtreeLength?_bind (program : Program) (data : Dataset) (i : Nat) :
    (program.bind data).subtreeLength? i = program.subtreeLength? i :=
  spanLength?_map (Instruction.bind data) program.code i

namespace Machine

variable {m : Machine} {s : State}

/-! ## The loop of a skip -/

theorem exists_pred_of_pos {counter : Int} (h : 0 < counter) :
    ∃ pending : Nat, counter = (pending + 1 : Nat) :=
  ⟨(counter - 1).toNat, by omega⟩

/-- The loop of a skip goes through some rounds. Before each of them there is a subtree to go, so
that one can be taken away, and after each of them the loop goes on with the subtrees to go, from the
next address. -/
structure SkipCounts (m : Machine) (s : State) (rounds : Nat) : Prop where
  positive : ∀ k < rounds, 0 < subtreesToGo BoundInstruction.argCount m.code 1 s.pc k
  goesOn : ∀ k ≤ rounds, m.skip s = m.skipSubtrees (m.code.size - (s.pc + k))
    (subtreesToGo BoundInstruction.argCount m.code 1 s.pc k).toNat { s with pc := s.pc + k }

/-- The loop goes on as long as there are subtrees to go and instructions to look at. -/
theorem skipCounts {rounds : Nat} (hsize : rounds ≤ m.code.size - s.pc)
    (hpositive : ∀ k < rounds, 0 < subtreesToGo BoundInstruction.argCount m.code 1 s.pc k) :
    m.SkipCounts s rounds := by
  refine ⟨hpositive, fun k hk => ?_⟩
  induction k with
  | zero => rfl
  | succ k ih =>
    have hitem : m.code[s.pc + k]? = some m.code[s.pc + k] := Array.getElem?_eq_getElem (by omega)
    obtain ⟨rest, hrest⟩ : ∃ rest, m.code.size - (s.pc + k) = rest + 1 :=
      ⟨m.code.size - (s.pc + k) - 1, by omega⟩
    obtain ⟨pending, hpending⟩ := exists_pred_of_pos (hpositive k (by omega))
    have hnext : subtreesToGo BoundInstruction.argCount m.code 1 s.pc (k + 1) =
        (pending + m.code[s.pc + k].argCount : Nat) := by
      rw [subtreesToGo, hpending, hitem]
      show ((pending + 1 : Nat) : Int) + (m.code[s.pc + k].argCount : Nat) - 1 = _
      omega
    have hleft : m.code.size - (s.pc + (k + 1)) = rest := by omega
    rw [ih (by omega), hpending, hnext, hrest, hleft, Int.toNat_natCast, Int.toNat_natCast]
    simp only [skipSubtrees, hitem]
    rfl

/-- A skip that finds an end: it moves over whole subtrees inside the code, one in all, and changes
nothing but the program counter. -/
structure SkipsOver (m : Machine) (s : State) (length : Nat) : Prop where
  skip : m.skip s = some (.done () { s with pc := s.pc + length })
  inside : s.pc + length ≤ m.code.size
  counts : m.SkipCounts s length
  done : subtreesToGo BoundInstruction.argCount m.code 1 s.pc length = 0

/-- A skip that finds no end: it has looked at all instructions from the program counter on when it
looks for the next one behind the code. -/
structure SkipRunsOut (m : Machine) (s : State) : Prop where
  skip : m.skip s = some (.fault .outOfBounds { s with pc := max s.pc m.code.size })
  counts : m.SkipCounts s (m.code.size - s.pc)
  more : 0 < subtreesToGo BoundInstruction.argCount m.code 1 s.pc (m.code.size - s.pc)

/-- A skip finds its end where the walk does. -/
theorem skipsOver_of_spanEnd {stop : Nat}
    (h : spanEnd? BoundInstruction.argCount m.code (m.code.size - s.pc) 1 s.pc = some stop) :
    m.SkipsOver s (stop - s.pc) := by
  obtain ⟨rounds, rfl, hsize, hpositive, hend⟩ := spanEnd?_eq_some h
  -- one subtree takes at least one round, so the walk has moved and is inside the code
  have hmoved : rounds ≠ 0 := by
    rintro rfl
    cases hend
  have hinside : s.pc + rounds ≤ m.code.size := hsize.resolve_left hmoved
  rw [Nat.add_sub_cancel_left]
  exact ⟨skipSubtrees_eq h, hinside, skipCounts (by omega) hpositive, hend⟩

/-- A skip finds no end where the walk finds none. The fault comes from the last round. -/
theorem skipRunsOut_of_spanEnd
    (h : spanEnd? BoundInstruction.argCount m.code (m.code.size - s.pc) 1 s.pc = none) :
    m.SkipRunsOut s := by
  have hpositive := spanEnd?_eq_none (Nat.le_refl _) h
  have hcounts : m.SkipCounts s (m.code.size - s.pc) :=
    skipCounts (Nat.le_refl _) fun k hk => hpositive k (Nat.le_of_lt hk)
  refine ⟨?_, hcounts, hpositive _ (Nat.le_refl _)⟩
  obtain ⟨pending, hpending⟩ := exists_pred_of_pos (hpositive _ (Nat.le_refl _))
  have hend : m.code.size - (s.pc + (m.code.size - s.pc)) = 0 := by omega
  have hpc : s.pc + (m.code.size - s.pc) = max s.pc m.code.size := by omega
  rw [hcounts.goesOn _ (Nat.le_refl _), hpending, hend, hpc, Int.toNat_natCast]
  rfl

/-- Skipping a subtree and measuring it come to the same. -/
theorem skip_or (m : Machine) (s : State) :
    (∃ length, spanLength? BoundInstruction.argCount m.code s.pc = some length ∧
      m.SkipsOver s length) ∨
    (spanLength? BoundInstruction.argCount m.code s.pc = none ∧ m.SkipRunsOut s) := by
  rw [spanLength?_eq]
  cases h : spanEnd? BoundInstruction.argCount m.code (m.code.size - s.pc) 1 s.pc with
  | some stop => exact Or.inl ⟨_, rfl, skipsOver_of_spanEnd h⟩
  | none => exact Or.inr ⟨rfl, skipRunsOut_of_spanEnd h⟩

end Machine

/-! ## Compiled formulas -/

namespace Formula

variable {formula : Formula} {program : Program} {data : Dataset} {m : Machine}

/-- Every address of a compiled formula measures a subtree, and a run of the subtree that ends with a
value ends behind it. -/
theorem subtree_of_compile (hcompile : formula.compile [] = .ok program)
    (hcode : m.code = (program.bind data).code) {s : Machine.State} (hpc : s.pc < program.size) :
    ∃ length, program.subtreeLength? s.pc = some length ∧
      ∀ value s', m.evaluate s = .done value s' → s'.pc = s.pc + length := by
  obtain ⟨main, functions, hcompilable, rfl⟩ := compile_eq_ok.mp hcompile
  rw [size_programOf] at hpc
  obtain ⟨node, hnode⟩ : ∃ node, (compiledNodes main functions)[s.pc]? = some node :=
    ⟨_, List.getElem?_eq_getElem hpc⟩
  have hholds : m.Holds (Draft.addresses main.count functions) data s.pc [node] := by
    have hall := (hcompilable.holds hcode).subtree hnode
    rwa [Nat.zero_add] at hall
  refine ⟨node.count, (subtree_programOf hnode).1, fun value s' hrun => ?_⟩
  obtain ⟨pc, executed, hpasses, -, rfl⟩ := Machine.evaluate_done hrun
  have hstop := hpasses.stop_eq rfl hholds
  rwa [Node.countAll_cons, Node.countAll_nil] at hstop

end Formula

/-! ## Skipping and measuring -/

namespace Recall

/-- The compiled program, bound to the data. -/
def machine : Machine := ⟨(program.bind data).code, data.rows, 5⟩

/-- At the body of the function, which has been called from elsewhere with the argument two. -/
def called : Machine.State where
  pc := 2
  stack := ⟨[.length 1, .argument 2.0], []⟩
  cursor := 2
  callDepth := 1

end Recall

/-- On whatever code, a skip goes as far as the subtree is measured to be long, or neither of them
finds an end; and data makes no difference to what is measured. In a formula compiled without hooks
every address has a length, and a run that starts there and ends with a value ends where the skip
does. -/
theorem Machine.skip_measured :
    (∀ (m : Machine) (s : State),
      (∃ length, spanLength? BoundInstruction.argCount m.code s.pc = some length ∧
        m.SkipsOver s length) ∨
      (spanLength? BoundInstruction.argCount m.code s.pc = none ∧ m.SkipRunsOut s)) ∧
    (∀ (program : Program) (data : Dataset) (i : Nat),
      (program.bind data).subtreeLength? i = program.subtreeLength? i) ∧
    ∀ (formula : Formula) (program : Program) (data : Dataset) (m : Machine) (s : State),
      formula.compile [] = .ok program → m.code = (program.bind data).code → s.pc < program.size →
        ∃ length, program.subtreeLength? s.pc = some length ∧ m.SkipsOver s length ∧
          ∀ value s', m.evaluate s = .done value s' → s'.pc = s.pc + length := by
  refine ⟨skip_or, Program.subtreeLength?_bind, ?_⟩
  intro formula program data m s hcompile hcode hpc
  obtain ⟨length, hlength, hrun⟩ := Formula.subtree_of_compile hcompile hcode hpc
  have hbound : spanLength? BoundInstruction.argCount m.code s.pc = some length := by
    rw [hcode, ← hlength]
    exact program.subtreeLength?_bind data s.pc
  refine ⟨length, hlength, ?_, hrun⟩
  rcases skip_or m s with ⟨length', hmeasured, hskip⟩ | ⟨hnone, -⟩
  · obtain rfl := Option.some.inj (hbound.symm.trans hmeasured)
    exact hskip
  · rw [hbound] at hnone
    cases hnone

/-- The body of the function is measured to be eight instructions long. Its run goes back two rows
and calls the function twice, and ends behind the eight. -/
theorem Machine.skip_measured_recall :
    Recall.formula.compile [] = .ok Recall.program ∧ Recall.called.pc < Recall.program.size ∧
      Recall.program.subtreeLength? Recall.called.pc = some 8 ∧
      Recall.machine.SkipsOver Recall.called 8 ∧
      ∃ value s', Recall.machine.evaluate Recall.called = .done value s' ∧ s'.pc = 10 := by
  have hpc : Recall.called.pc < Recall.program.size := by decide
  have hlength : Recall.program.subtreeLength? Recall.called.pc = some 8 := by decide
  have hends : (Recall.machine.evaluate Recall.called).isDone = true := by decide +kernel
  obtain ⟨length, hmeasured, hskip, hrun⟩ := Machine.skip_measured.2.2 Recall.formula Recall.program
    Recall.data Recall.machine Recall.called Recall.compile_formula rfl hpc
  obtain rfl := Option.some.inj (hmeasured.symm.trans hlength)
  refine ⟨Recall.compile_formula, hpc, hlength, hskip, ?_⟩
  cases hresult : Recall.machine.evaluate Recall.called with
  | done value s' => exact ⟨value, s', rfl, hrun value s' hresult⟩
  | fault cause s' =>
    rw [hresult] at hends
    cases hends

end FormulaEngine
