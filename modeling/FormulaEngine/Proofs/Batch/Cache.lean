import FormulaEngine.Batch
import FormulaEngine.Proofs.Emission

/-!
# Columns in the cache

What a cache holds after any history of refreshes and clearings. A fixed dataset may be looked up
by its identity, because all fixed datasets of one identity have the same columns; a modifiable one
is loaded each time, and leaves columns behind that no identity stands for.

- `Identified`: fixed datasets of one identity have the same numeric columns;
- `ColumnCache.Reached`: the caches that datasets known so far can lead to;
- `ColumnCache.get?_refresh`: refreshed, such a cache has the columns of the dataset;
- `BatchInterpreter.evaluate_eq_of_get?`: an evaluation depends on the cache only through the columns
  that it has once it is refreshed.
-/

namespace FormulaEngine

/-! ## Loaded columns -/

/-- Entries that are made for some of the names are found by these names. -/
theorem lookup_filterMap {α : Type} (value? : String → Option α) (names : List String)
    (name : String) :
    (names.filterMap fun entry => (value? entry).map (entry, ·)).lookup name =
      if name ∈ names then value? name else none := by
  induction names with
  | nil => rfl
  | cons first rest ih =>
    by_cases hname : name = first
    · subst hname
      rw [if_pos List.mem_cons_self, List.filterMap_cons]
      cases hvalue : value? name with
      | none =>
        rw [Option.map_none, ih, hvalue, ite_self]
      | some value =>
        rw [Option.map_some]
        exact List.lookup_cons_self
    · have hmem : name ∈ first :: rest ↔ name ∈ rest := by simp [hname]
      rw [List.filterMap_cons]
      simp only [hmem]
      cases value? first with
      | none => exact ih
      | some value =>
        show List.lookup name ((first, value) :: _) = _
        rw [List.lookup_cons, beq_eq_false_iff_ne.mpr hname]
        exact ih

/-- The numeric columns of a dataset are its variables that have numbers. -/
theorem Dataset.lookup_numericColumns (data : Dataset) (name : String) :
    data.numericColumns.lookup name = data.numeric? name := by
  unfold numericColumns
  rw [lookup_filterMap]
  by_cases hname : name ∈ data.numericNames
  · rw [if_pos hname]
  · rw [if_neg hname]
    cases hvalues : data.numeric? name with
    | none => rfl
    | some values =>
      -- a numeric variable is among the names
      have hcolumn : (data.columns.lookup name).isSome := by
        cases hlookup : data.columns.lookup name with
        | none => simp [numeric?, column?, hlookup] at hvalues
        | some column => rfl
      have hmem : name ∈ data.names := by
        rw [Option.isSome_iff_ne_none, Ne, List.lookup_eq_none_iff] at hcolumn
        simpa [names] using hcolumn
      exact absurd (List.mem_filter.mpr ⟨hmem, by simp [hvalues]⟩) hname

/-- Fixed datasets of one identity have the same numeric columns. This is what an identity is for, and
a session keeps to it. -/
def Identified (known : Dataset → Prop) : Prop :=
  ∀ first second, known first → known second → first.modifiable = false →
    second.modifiable = false → first.identity = second.identity →
      ∀ name, first.numeric? name = second.numeric? name

namespace ColumnCache

variable {known : Dataset → Prop} {cache : ColumnCache} {data : Dataset}

theorem knows_iff :
    cache.knows data = true ↔ data.modifiable = false ∧ cache.identity = some data.identity := by
  simp [knows]

/-- A dataset is loaded exactly if it is modifiable or the cache does not name it. -/
theorem refresh_reloaded :
    (cache.refresh data).1 = true ↔
      data.modifiable = true ∨ cache.identity ≠ some data.identity := by
  unfold refresh
  by_cases hknows : cache.knows data
  · obtain ⟨hfixed, hidentity⟩ := knows_iff.mp hknows
    simp [hknows, hfixed, hidentity]
  · rw [if_neg hknows]
    rw [knows_iff] at hknows
    simp only [true_iff]
    by_cases hfixed : data.modifiable = false
    · exact Or.inr fun hidentity => hknows ⟨hfixed, hidentity⟩
    · exact Or.inl (by simpa using hfixed)

/-- Loads are counted. -/
theorem reloads_refresh :
    (cache.refresh data).2.reloads =
      cache.reloads + if (cache.refresh data).1 then 1 else 0 := by
  unfold refresh
  by_cases hknows : cache.knows data
  · simp [hknows]
  · simp [hknows, load]

/-- A refreshed cache names the dataset unless it is modifiable. -/
theorem identity_refresh :
    (cache.refresh data).2.identity = if data.modifiable then none else some data.identity := by
  unfold refresh
  by_cases hknows : cache.knows data
  · obtain ⟨hfixed, hidentity⟩ := knows_iff.mp hknows
    simp [hknows, hfixed, hidentity]
  · simp [hknows, load]

/-! ## Histories -/

/-- The caches that refreshes with known datasets and clearings lead to. -/
inductive Reached (known : Dataset → Prop) : ColumnCache → Prop where
  | empty : Reached known {}
  | refresh {cache : ColumnCache} {data : Dataset} :
      Reached known cache → known data → Reached known (cache.refresh data).2
  | clear {cache : ColumnCache} : Reached known cache → Reached known cache.clear

/-- More may be known than the cache has been refreshed with. -/
theorem Reached.mono {more : Dataset → Prop} (hmore : ∀ data, known data → more data)
    (hcache : cache.Reached known) : cache.Reached more := by
  induction hcache with
  | empty => exact .empty
  | refresh _ hdata ih => exact .refresh ih (hmore _ hdata)
  | clear _ ih => exact .clear ih

/-- A cache that names an identity has the columns of a known fixed dataset of that identity. -/
theorem Reached.exists_of_identity (hcache : cache.Reached known) {identity : Nat}
    (hidentity : cache.identity = some identity) :
    ∃ data, known data ∧ data.modifiable = false ∧ data.identity = identity ∧
      ∀ name, cache.get? name = data.numeric? name := by
  induction hcache with
  | empty => cases hidentity
  | @refresh cache data _ hdata ih =>
    rw [identity_refresh] at hidentity
    by_cases hfixed : data.modifiable = false
    · rw [hfixed] at hidentity
      cases hidentity
      -- a cache that was not loaded stands for the dataset that it stood for before
      by_cases hknows : cache.knows data
      · have hsame : (cache.refresh data).2 = cache := by simp [ColumnCache.refresh, hknows]
        rw [hsame]
        exact ih (knows_iff.mp hknows).2
      · have hload : (cache.refresh data).2 = cache.load data := by
          simp [ColumnCache.refresh, hknows]
        rw [hload]
        exact ⟨data, hdata, hfixed, rfl, data.lookup_numericColumns⟩
    · simp [hfixed] at hidentity
  | clear _ _ => cases hidentity

/-- Whatever came before, a refreshed cache has the columns of the dataset as it is. -/
theorem get?_refresh (hknown : Identified known) (hcache : cache.Reached known)
    (hdata : known data) (name : String) :
    (cache.refresh data).2.get? name = data.numeric? name := by
  unfold refresh
  by_cases hknows : cache.knows data
  · obtain ⟨hfixed, hidentity⟩ := knows_iff.mp hknows
    obtain ⟨loaded, hloaded, hloadedFixed, hsame, hcolumns⟩ := hcache.exists_of_identity hidentity
    rw [if_pos hknows, hcolumns]
    exact hknown loaded data hloaded hdata hloadedFixed hfixed hsame name
  · rw [if_neg hknows]
    exact data.lookup_numericColumns name

end ColumnCache

/-! ## Evaluations -/

/-- A layout depends on the cache only through its columns. -/
theorem Node.layout_congr {first second : ColumnCache}
    (h : ∀ name, first.get? name = second.get? name) (body : Node) (lanes : Nat) :
    body.layout first lanes = body.layout second lanes := by
  have hcolumn : ∀ symbol : Symbol, symbol.batchColumn first = symbol.batchColumn second := by
    intro symbol
    cases symbol with
    | numericVariable name weight => exact h name
    | _ => rfl
  have happend : BatchDraft.append first lanes body.count =
      BatchDraft.append second lanes body.count := by
    funext draft node
    unfold BatchDraft.append
    rw [hcolumn]
  unfold layout
  rw [happend]

namespace BatchInterpreter

variable {known : Dataset → Prop} {formula : Formula} {data : Dataset} {rows : Rows}

/-- Two interpreters with chunks of one size answer alike if their caches have the same columns once
they are refreshed. -/
theorem evaluate_eq_of_get? {first second : BatchInterpreter}
    (hsize : first.batchSize = second.batchSize)
    (h : ∀ name, (first.cache.refresh data).2.get? name = (second.cache.refresh data).2.get? name) :
    (first.evaluate formula data rows).1 = (second.evaluate formula data rows).1 := by
  have hlanes : first.lanes rows = second.lanes rows := by
    unfold lanes
    rw [hsize]
  unfold evaluate
  cases formula.body? with
  | none => rfl
  | some body =>
    simp only [Node.layout_congr h, hlanes, hsize]
    cases body.layout (second.cache.refresh data).2 (second.lanes rows) <;> rfl

/-- The cache after an evaluation is refreshed, or as it was if there is no body. -/
theorem cache_evaluate (batch : BatchInterpreter) (formula : Formula) (data : Dataset)
    (rows : Rows) :
    (batch.evaluate formula data rows).2.cache =
      if formula.body?.isSome then (batch.cache.refresh data).2 else batch.cache := by
  unfold evaluate
  cases formula.body? with
  | none => rfl
  | some body =>
    cases hlayout : body.layout (batch.cache.refresh data).2 (batch.lanes rows) with
    | error cause => simp [hlayout]
    | ok code => simp [hlayout]

theorem batchSize_evaluate (batch : BatchInterpreter) (formula : Formula) (data : Dataset)
    (rows : Rows) : (batch.evaluate formula data rows).2.batchSize = batch.batchSize := by
  unfold evaluate
  cases formula.body? with
  | none => rfl
  | some body =>
    cases hlayout : body.layout (batch.cache.refresh data).2 (batch.lanes rows) with
    | error cause => simp [hlayout]
    | ok code => simp [hlayout]

/-- An evaluation leaves a cache that refreshes lead to, whether it succeeds or fails. -/
theorem reached_evaluate {batch : BatchInterpreter} (hcache : batch.cache.Reached known)
    (hdata : known data) : (batch.evaluate formula data rows).2.cache.Reached known := by
  rw [cache_evaluate]
  by_cases hbody : formula.body?.isSome
  · rw [if_pos hbody]
    exact .refresh hcache hdata
  · rw [if_neg hbody]
    exact hcache

end BatchInterpreter

end FormulaEngine
