import FormulaEngine.Proofs.Session
import Mathlib.Data.List.Induction

/-!
# Where datasets come from

The columns of every dataset of a session, told from the steps that led to it. A dataset is built
once; from then on it is copied, and values in a modifiable copy are replaced. Neither changes how
many rows there are, nor which variables there are, in which order and of which kind.

- `Dataset.DecidesBuild`, `Dataset.build_decided`: which columns make a dataset, and which one is at
  fault otherwise;
- `Dataset.DecidesReplace`, `Dataset.replace_decided`: which values may replace others, and what
  they change;
- `Lineage`, `Session.follow`: the columns that a dataset was built with, and the replacements
  since, kept along with the steps;
- `Dataset.DerivedFrom`: what the lineage of a dataset says of its columns;
- `Session.datasets_tracked`: it says this of every dataset, whatever the steps are.
-/

namespace FormulaEngine

/-! ## Building -/

namespace Dataset

variable {rows : Nat} {columns front back : List (String × Column)} {entry : String × Column}
  {cause : EvalError}

/-- The number of rows that the first column has. -/
def rowsOf (columns : List (String × Column)) : Nat := (columns.head?.map (·.2.size)).getD 0

/-- Columns of one length, with names of their own. -/
structure Consistent (rows : Nat) (columns : List (String × Column)) : Prop where
  sizes : ∀ entry ∈ columns, entry.2.size = rows
  names : (columns.map (·.1)).Nodup

/-- Why a column cannot stand behind others that can stand together. -/
inductive Offends (rows : Nat) (front : List (String × Column)) :
    String × Column → EvalError → Prop where
  | length {name : String} {column : Column} :
      column.size ≠ rows →
        Offends rows front (name, column) (.columnLengthMismatch name rows column.size)
  | name {name : String} {column : Column} :
      column.size = rows → name ∈ front.map (·.1) →
        Offends rows front (name, column) (.duplicateVariable name)

/-- Columns can stand together, or there is a first one that is at fault. -/
theorem consistent_or_offends (rows : Nat) (columns : List (String × Column)) :
    Consistent rows columns ∨ ∃ front entry back cause, columns = front ++ entry :: back ∧
      Consistent rows front ∧ Offends rows front entry cause := by
  induction columns using List.reverseRecOn with
  | nil => exact Or.inl ⟨fun _ hentry => absurd hentry List.not_mem_nil, List.nodup_nil⟩
  | append_singleton front entry ih =>
    rcases ih with hfront | ⟨before, offender, back, cause, rfl, hbefore, hoffends⟩
    · obtain ⟨name, column⟩ := entry
      by_cases hsize : column.size = rows
      · by_cases hname : name ∈ front.map (·.1)
        · exact Or.inr ⟨front, _, [], _, rfl, hfront, .name hsize hname⟩
        · refine Or.inl ⟨?_, ?_⟩
          · intro found hfound
            rcases List.mem_append.mp hfound with hfound | hfound
            · exact hfront.sizes found hfound
            · cases List.mem_singleton.mp hfound
              exact hsize
          · rw [List.map_append, List.nodup_append]
            refine ⟨hfront.names, by simp, ?_⟩
            rintro other hother _ hmem rfl
            cases List.mem_singleton.mp hmem
            exact hname hother
      · exact Or.inr ⟨front, _, [], _, rfl, hfront, .length hsize⟩
    · exact Or.inr ⟨before, offender, back ++ [entry], cause, by simp, hbefore, hoffends⟩

theorem any_name_iff {name : String} :
    columns.any (·.1 == name) = true ↔ name ∈ columns.map (·.1) := by
  rw [List.any_eq_true, List.mem_map]
  simp only [beq_iff_eq]

/-- The check passes columns that can stand together. -/
theorem check_append {checked : List (String × Column)}
    (h : Consistent rows (checked ++ front)) :
    check rows checked (front ++ back) = check rows (checked ++ front) back := by
  induction front generalizing checked with
  | nil => rw [List.append_nil, List.nil_append]
  | cons entry rest ih =>
    obtain ⟨name, column⟩ := entry
    have hsize : column.size = rows := h.sizes _ (List.mem_append_right _ List.mem_cons_self)
    have hnew : name ∉ checked.map (·.1) := by
      have hnames := h.names
      rw [List.map_append, List.nodup_append] at hnames
      exact fun hname => hnames.2.2 name hname name List.mem_cons_self rfl
    have hrest : Consistent rows ((checked ++ [(name, column)]) ++ rest) := by
      rwa [List.append_assoc]
    rw [List.cons_append, check, if_neg (not_not_intro hsize), if_neg (mt any_name_iff.mp hnew),
      ih hrest, List.append_assoc]
    rfl

theorem check_offends (h : Offends rows front entry cause) :
    check rows front (entry :: back) = .error cause := by
  cases h with
  | length hsize => rw [check, if_pos hsize]
  | name hsize hname =>
    rw [check, if_neg (not_not_intro hsize), if_pos (any_name_iff.mpr hname)]

/-- What building a dataset from columns comes to. -/
structure DecidesBuild (columns : List (String × Column)) (result : Except EvalError Dataset) :
    Prop where
  accepts : (∃ data, result = .ok data) ↔ Consistent (rowsOf columns) columns
  /-- The first column that is at fault decides. -/
  refuses : ∀ cause, result = .error cause ↔
    ∃ front entry back, columns = front ++ entry :: back ∧ Consistent (rowsOf columns) front ∧
      Offends (rowsOf columns) front entry cause

theorem build_eq (identity : Nat) (columns : List (String × Column)) :
    build identity columns = (check (rowsOf columns) [] columns).map fun columns' =>
      { identity, modifiable := false, rows := rowsOf columns, columns := columns' } := by
  cases columns with
  | nil => rfl
  | cons entry rest => rfl

theorem build_consistent (identity : Nat) (h : Consistent (rowsOf columns) columns) :
    build identity columns =
      .ok { identity, modifiable := false, rows := rowsOf columns, columns } := by
  have hcheck : check (rowsOf columns) [] (columns ++ []) = .ok columns := by
    rw [check_append (by exact h)]
    rfl
  rw [List.append_nil] at hcheck
  rw [build_eq, hcheck]
  rfl

theorem build_offends (identity : Nat) (hcolumns : columns = front ++ entry :: back)
    (hfront : Consistent (rowsOf columns) front)
    (hoffends : Offends (rowsOf columns) front entry cause) :
    build identity columns = .error cause := by
  have hcheck : check (rowsOf columns) [] (front ++ entry :: back) = .error cause := by
    rw [check_append (by exact hfront)]
    exact check_offends hoffends
  rw [build_eq]
  rw [← hcolumns] at hcheck
  rw [hcheck]
  rfl

theorem build_decided (identity : Nat) (columns : List (String × Column)) :
    DecidesBuild columns (build identity columns) := by
  constructor
  · constructor
    · rintro ⟨data, hdata⟩
      rcases consistent_or_offends (rowsOf columns) columns with h | ⟨_, _, _, _, hcolumns, h⟩
      · exact h
      · cases (build_offends identity hcolumns h.1 h.2).symm.trans hdata
    · exact fun h => ⟨_, build_consistent identity h⟩
  · intro cause
    constructor
    · intro hcause
      rcases consistent_or_offends (rowsOf columns) columns with
        h | ⟨front, entry, back, found, hcolumns, h⟩
      · cases (build_consistent identity h).symm.trans hcause
      · cases (build_offends identity hcolumns h.1 h.2).symm.trans hcause
        exact ⟨front, entry, back, hcolumns, h⟩
    · rintro ⟨front, entry, back, hcolumns, hfront, hoffends⟩
      exact build_offends identity hcolumns hfront hoffends

/-! ## Replacing -/

theorem fst_ite {name : String} {column : Column} :
    (if entry.1 == name then (name, column) else entry).1 = entry.1 := by
  split
  · rename_i h
    exact (beq_iff_eq.mp h).symm
  · rfl

theorem names_setColumn (name : String) (column : Column) (columns : List (String × Column)) :
    (setColumn name column columns).map (·.1) = columns.map (·.1) := by
  rw [setColumn, List.map_map]
  exact List.map_congr_left fun entry _ => fst_ite

/-- A column put in the place of another one is found there, and no other one has changed. -/
theorem lookup_setColumn (name : String) (column : Column) (columns : List (String × Column))
    (other : String) :
    (setColumn name column columns).lookup other =
      if other = name then (columns.lookup name).map fun _ => column
      else columns.lookup other := by
  induction columns with
  | nil => simp [setColumn]
  | cons entry rest ih =>
    obtain ⟨first, old⟩ := entry
    rw [setColumn, List.map_cons, List.lookup_cons, ← setColumn, ih, fst_ite]
    by_cases hsame : other = first
    · subst hsame
      by_cases hname : other = name
      · simp [hname]
      · simp [hname]
    · have hskip : (other == first) = false := beq_eq_false_iff_ne.mpr hsame
      by_cases hname : other = name
      · subst hname
        simp [List.lookup_cons, hskip]
      · simp [List.lookup_cons, hskip, hname]

/-- What replacing the values of a variable comes to: the checks in their order, and what
changes. -/
structure DecidesReplace (data : Dataset) (name : String) (values : Array Float)
    (result : Except EvalError Dataset) : Prop where
  accepts : (∃ after, result = .ok after) ↔
    (∃ old, data.column? name = some (.numeric old)) ∧ values.size = data.rows
  refuses : ∀ cause, result = .error cause ↔
    (data.column? name = none ∧ cause = .unknownVariable name) ∨
      ((∃ old, data.column? name = some (.categorical old)) ∧ cause = .variableNotMutable name) ∨
      ((∃ old, data.column? name = some (.numeric old)) ∧ values.size ≠ data.rows ∧
        cause = .columnLengthMismatch name data.rows values.size)
  replaces : ∀ after, result = .ok after →
    after.identity = data.identity ∧ after.modifiable = data.modifiable ∧
      after.rows = data.rows ∧ after.names = data.names ∧
      ∀ other, after.column? other =
        if other = name then some (.numeric values) else data.column? other

theorem replace_decided (name : String) (values : Array Float) (data : Dataset) :
    data.DecidesReplace name values (data.replace name values) := by
  cases hcolumn : data.column? name with
  | none =>
    have hresult : data.replace name values = .error (.unknownVariable name) := by
      rw [replace, hcolumn]
    rw [hresult]
    constructor <;> simp [hcolumn, eq_comm]
  | some column =>
    cases column with
    | categorical old =>
      have hresult : data.replace name values = .error (.variableNotMutable name) := by
        rw [replace, hcolumn]
      rw [hresult]
      constructor <;> simp [hcolumn, eq_comm]
    | numeric old =>
      by_cases hsize : values.size = data.rows
      · have hresult : data.replace name values =
            .ok { data with columns := setColumn name (.numeric values) data.columns } := by
          rw [replace, hcolumn]
          exact if_neg (not_not_intro hsize)
        rw [hresult]
        constructor
        · simp [hcolumn, hsize]
        · simp [hcolumn, hsize]
        · rintro after ⟨⟩
          refine ⟨rfl, rfl, rfl, names_setColumn name _ data.columns, fun other => ?_⟩
          have hfound : data.columns.lookup name = some (.numeric old) := hcolumn
          rw [column?, lookup_setColumn, hfound]
          rfl
      · have hresult : data.replace name values =
            .error (.columnLengthMismatch name data.rows values.size) := by
          rw [replace, hcolumn]
          exact if_pos hsize
        rw [hresult]
        constructor <;> simp [hcolumn, hsize, eq_comm]

end Dataset

/-! ## Lineages -/

/-- What a dataset has come from: the columns that it was built with, and the values that have
replaced others since, in itself or before it was copied. The last replacement comes first. -/
structure Lineage where
  columns : List (String × Column)
  replaced : List (String × Array Float) := []

namespace Lineage

/-- The last values that have replaced others, or else the column as it was built. -/
def column? (lineage : Lineage) (name : String) : Option Column :=
  match lineage.replaced.lookup name with
  | some values => some (.numeric values)
  | none => lineage.columns.lookup name

/-- The names of the numeric columns in the order of their declaration. -/
def numericNames (lineage : Lineage) : List String :=
  (lineage.columns.filter (·.2.numeric?.isSome)).map (·.1)

/-- One more replacement. -/
def replace (name : String) (values : Array Float) (lineage : Lineage) : Lineage :=
  { lineage with replaced := (name, values) :: lineage.replaced }

theorem column?_replace (name : String) (values : Array Float) (lineage : Lineage)
    (other : String) :
    (lineage.replace name values).column? other =
      if other = name then some (.numeric values) else lineage.column? other := by
  unfold column? replace
  rw [List.lookup_cons]
  by_cases hother : other = name
  · simp [hother]
  · simp [hother, beq_eq_false_iff_ne.mpr hother]

end Lineage

namespace Dataset

/-- A variable with its kind: whether it is numeric. -/
def kindOf (entry : String × Column) : String × Bool := (entry.1, entry.2.numeric?.isSome)

/-- What the lineage of a dataset says of it. -/
structure DerivedFrom (data : Dataset) (lineage : Lineage) : Prop where
  rows : data.rows = rowsOf lineage.columns
  sizes : ∀ entry ∈ data.columns, entry.2.size = data.rows
  names : data.names.Nodup
  /-- The variables in the order of their declaration, each of its kind. -/
  kinds : data.columns.map kindOf = lineage.columns.map kindOf
  numericNames : data.numericNames = lineage.numericNames
  column : ∀ name, data.column? name = lineage.column? name
  /-- In a fixed dataset nothing has been replaced. -/
  fixed : data.modifiable = false → lineage.replaced = []

variable {data after : Dataset} {lineage : Lineage}

/-- A column is found by its name if no other one has it. -/
theorem column?_of_mem (hnames : data.names.Nodup) {entry : String × Column}
    (hentry : entry ∈ data.columns) : data.column? entry.1 = some entry.2 := by
  obtain ⟨front, back, hcolumns⟩ := List.append_of_mem hentry
  refine List.lookup_eq_some_iff.mpr ⟨front, back, hcolumns, fun other hother => ?_⟩
  unfold Dataset.names at hnames
  rw [hcolumns, List.map_append, List.nodup_append] at hnames
  rw [bne_iff_ne]
  exact (hnames.2.2 other.1 (List.mem_map_of_mem hother) entry.1 List.mem_cons_self).symm

/-- A column that is found stands in the dataset. -/
theorem mem_of_column? {name : String} {column : Column}
    (h : data.column? name = some column) : (name, column) ∈ data.columns := by
  obtain ⟨front, back, hcolumns, -⟩ := List.lookup_eq_some_iff.mp h
  rw [hcolumns]
  exact List.mem_append_right _ List.mem_cons_self

/-- The kinds can be looked up by the names. -/
theorem map_kindOf (hnames : data.names.Nodup) :
    data.columns.map kindOf =
      data.names.map fun name => (name, (data.numeric? name).isSome) := by
  rw [Dataset.names, List.map_map]
  refine List.map_congr_left fun entry hentry => ?_
  show kindOf entry = (entry.1, (data.numeric? entry.1).isSome)
  rw [numeric?, column?_of_mem hnames hentry]
  rfl

/-- The numeric variables are those of numeric kind. -/
theorem numericNames_of_kinds (hnames : data.names.Nodup)
    (hkinds : data.columns.map kindOf = lineage.columns.map kindOf) :
    data.numericNames = lineage.numericNames := by
  have hnumeric : lineage.numericNames =
      ((lineage.columns.map kindOf).filter (·.2)).map (·.1) := by
    rw [List.filter_map, List.map_map]
    rfl
  rw [hnumeric, ← hkinds, map_kindOf hnames, List.filter_map, List.map_map]
  exact (List.map_id _).symm

/-- A built dataset has the columns that it was built with. -/
theorem derivedFrom_build {identity : Nat} {columns : List (String × Column)}
    (h : build identity columns = .ok data) : data.DerivedFrom { columns } := by
  have hconsistent := (build_decided identity columns).accepts.mp ⟨data, h⟩
  cases (build_consistent identity hconsistent).symm.trans h
  exact ⟨rfl, hconsistent.sizes, hconsistent.names, rfl,
    numericNames_of_kinds hconsistent.names rfl, fun name => rfl, fun _ => rfl⟩

/-- A modifiable copy has the lineage of what it was copied from. -/
theorem DerivedFrom.toModifiable (h : data.DerivedFrom lineage) (identity : Nat) :
    (data.toModifiable identity).DerivedFrom lineage :=
  ⟨h.rows, h.sizes, h.names, h.kinds, h.numericNames, h.column, fun hfixed => by cases hfixed⟩

/-- Values that replace others go down in the lineage. -/
theorem DerivedFrom.replace (h : data.DerivedFrom lineage) {name : String} {values : Array Float}
    (hmodifiable : data.modifiable = true) (hafter : data.replace name values = .ok after) :
    after.DerivedFrom (lineage.replace name values) := by
  have hdecided := data.replace_decided name values
  obtain ⟨⟨old, hold⟩, hsize⟩ := hdecided.accepts.mp ⟨after, hafter⟩
  obtain ⟨-, hkind, hrows, hnames, hcolumn⟩ := hdecided.replaces after hafter
  have hnodup : after.names.Nodup := by
    rw [hnames]
    exact h.names
  have hkinds : after.columns.map kindOf = lineage.columns.map kindOf := by
    rw [← h.kinds, map_kindOf hnodup, map_kindOf h.names, hnames]
    refine List.map_congr_left fun other _ => ?_
    rw [numeric?, numeric?, hcolumn]
    by_cases hother : other = name
    · rw [if_pos hother, hother, hold]
      rfl
    · rw [if_neg hother]
  constructor
  · exact hrows.trans h.rows
  · intro entry hentry
    have hfound := column?_of_mem hnodup hentry
    rw [hcolumn] at hfound
    rw [hrows]
    split at hfound
    · rw [← Option.some.inj hfound]
      exact hsize
    · exact h.sizes entry (mem_of_column? hfound)
  · exact hnodup
  · exact hkinds
  · exact numericNames_of_kinds hnodup hkinds
  · intro other
    rw [hcolumn, Lineage.column?_replace, h.column]
  · intro hfixed
    rw [hkind, hmodifiable] at hfixed
    cases hfixed

end Dataset

/-! ## Sessions -/

namespace Session

/-- The lineages after an event: what is built starts one, a copy shares the one of its original,
and a replacement goes down in one. -/
def follow (lineages : Array Lineage) (event : Event) : Array Lineage :=
  match event.reply with
  | .error _ => lineages
  | .ok _ =>
    match event.step with
    | .build columns => lineages.push { columns }
    | .toModifiable number | .clone number =>
      match lineages[number]? with
      | some lineage => lineages.push lineage
      | none => lineages
    | .replace number name values => lineages.modify number (Lineage.replace name values)
    | _ => lineages

/-- The lineages of all datasets that the events have made. -/
def lineagesOf (events : List Event) : Array Lineage := events.foldl follow #[]

/-- Every dataset has a lineage, from which it is derived. -/
structure Tracks (lineages : Array Lineage) (datasets : Array Dataset) : Prop where
  size : lineages.size = datasets.size
  derived : ∀ (number : Nat) (data : Dataset) (lineage : Lineage),
    datasets[number]? = some data → lineages[number]? = some lineage → data.DerivedFrom lineage

variable {lineages : Array Lineage} {datasets : Array Dataset} {session : Session}

namespace Tracks

variable {data after : Dataset} {lineage : Lineage} {number : Nat}

theorem exists_lineage (h : Tracks lineages datasets) (hdata : datasets[number]? = some data) :
    ∃ lineage, lineages[number]? = some lineage ∧ data.DerivedFrom lineage := by
  obtain ⟨hlt, -⟩ := Array.getElem?_eq_some_iff.mp hdata
  rw [← h.size] at hlt
  exact ⟨lineages[number], Array.getElem?_eq_getElem hlt,
    h.derived number data _ hdata (Array.getElem?_eq_getElem hlt)⟩

theorem push (h : Tracks lineages datasets) (hdata : data.DerivedFrom lineage) :
    Tracks (lineages.push lineage) (datasets.push data) := by
  constructor
  · rw [Array.size_push, Array.size_push, h.size]
  · intro number found origin hfound horigin
    rw [Array.getElem?_push] at hfound horigin
    rw [h.size] at horigin
    split at hfound
    · rename_i hnumber
      rw [if_pos hnumber] at horigin
      cases hfound
      cases horigin
      exact hdata
    · rename_i hnumber
      rw [if_neg hnumber] at horigin
      exact h.derived number found origin hfound horigin

/-- A replacement is about one dataset alone. -/
theorem replace (h : Tracks lineages datasets) (hdata : datasets[number]? = some data)
    (hmodifiable : data.modifiable = true) {name : String} {values : Array Float}
    (hafter : data.replace name values = .ok after) :
    Tracks (lineages.modify number (Lineage.replace name values))
      (datasets.setIfInBounds number after) := by
  obtain ⟨lineage, hlineage, hderived⟩ := h.exists_lineage hdata
  constructor
  · rw [Array.size_modify, Array.size_setIfInBounds, h.size]
  · intro other found origin hfound horigin
    rw [Array.getElem?_modify] at horigin
    by_cases hother : number = other
    · subst hother
      rw [if_pos rfl, hlineage] at horigin
      rw [Array.getElem?_setIfInBounds_self_of_lt
        (Array.getElem?_eq_some_iff.mp hdata).1] at hfound
      cases hfound
      cases horigin
      exact hderived.replace hmodifiable hafter
    · rw [if_neg hother] at horigin
      rw [Array.getElem?_setIfInBounds_ne hother] at hfound
      exact h.derived other found origin hfound horigin

end Tracks

/-- Other steps do not concern the lineages. -/
theorem follow_of_not_changesData {event : Event} (h : event.step.changesData = false) :
    follow lineages event = lineages := by
  obtain ⟨before, step, reply⟩ := event
  cases reply with
  | error refusal => rfl
  | ok reply =>
    cases step with
    | build | toModifiable | clone | replace => cases h
    | _ => rfl

/-- A step with an object that may not exist. -/
theorem Tracks.withObject (h : Tracks lineages session.datasets) {step : Step} {α : Type}
    {object : Option α} {next : α → Result}
    (hnext : ∀ found, object = some found →
      Tracks (follow lineages ⟨session, step, (next found).1⟩) (next found).2.datasets) :
    Tracks (follow lineages ⟨session, step, (session.withObject object next).1⟩)
      (session.withObject object next).2.datasets := by
  cases object with
  | none => exact h
  | some found => exact hnext found rfl

/-- A step leaves every dataset with a lineage, whether it succeeds or fails. -/
theorem Tracks.perform (h : Tracks lineages session.datasets) (step : Step) :
    Tracks (follow lineages (session.event step)) (session.perform step).2.datasets := by
  by_cases hchanges : step.changesData = false
  · rw [follow_of_not_changesData hchanges, (perform_frame session step).data hchanges]
    exact h
  unfold event
  cases step with
  | build columns =>
    cases hbuild : Dataset.build session.nextIdentity columns with
    | error cause =>
      simp only [Session.perform, hbuild]
      exact h
    | ok data =>
      simp only [Session.perform, hbuild]
      exact h.push (Dataset.derivedFrom_build hbuild)
  | toModifiable number =>
    refine h.withObject fun data hdata => ?_
    obtain ⟨lineage, hlineage, hderived⟩ := h.exists_lineage hdata
    cases data.modifiable with
    | true => exact h
    | false =>
      simp only [follow, hlineage]
      exact h.push (hderived.toModifiable _)
  | clone number =>
    refine h.withObject fun data hdata => ?_
    obtain ⟨lineage, hlineage, hderived⟩ := h.exists_lineage hdata
    simp only [addDataset, follow, hlineage]
    exact h.push hderived
  | replace number name values =>
    refine h.withObject fun data hdata => ?_
    cases hmodifiable : data.modifiable with
    | false => exact h
    | true =>
      cases hafter : data.replace name values with
      | error cause => exact h
      | ok after => exact h.replace hdata hmodifiable hafter
  | _ => exact absurd rfl hchanges

/-- What is known of the datasets of a session, and of the steps that may make one more or change
one. -/
structure DatasetsTracked (session : Session) (lineages : Array Lineage) : Prop where
  tracks : Tracks lineages session.datasets
  build : ∀ columns : List (String × Column), ∃ result : Except EvalError Dataset,
    Dataset.DecidesBuild columns result ∧
      (∀ cause, result = .error cause →
        session.perform (.build columns) = (.error (.failure (.error cause)), session)) ∧
      ∀ data, result = .ok data →
        session.perform (.build columns) =
          (.ok (.dataset session.datasets.size),
            { session with
              datasets := session.datasets.push data
              nextIdentity := session.nextIdentity + 1 })
  /-- A fixed dataset has a modifiable copy, under an identity of its own. -/
  toModifiable : ∀ (number : Nat) (data : Dataset),
    session.datasets[number]? = some data → data.modifiable = false →
      ∃ copy : Dataset, copy.modifiable = true ∧ copy.rows = data.rows ∧
        copy.columns = data.columns ∧
        (∀ other ∈ session.datasets, other.identity ≠ copy.identity) ∧
        session.perform (.toModifiable number) =
          (.ok (.dataset session.datasets.size),
            { session with
              datasets := session.datasets.push copy
              nextIdentity := session.nextIdentity + 1 })
  /-- A clone is the same dataset once more. -/
  clone : ∀ (number : Nat) (data : Dataset), session.datasets[number]? = some data →
    session.perform (.clone number) =
      (.ok (.dataset session.datasets.size),
        { session with datasets := session.datasets.push data })
  /-- A replacement that fails changes nothing, and one that succeeds only the dataset it is for. -/
  replace : ∀ (number : Nat) (data : Dataset) (name : String) (values : Array Float),
    session.datasets[number]? = some data → data.modifiable = true →
      ∃ result : Except EvalError Dataset, data.DecidesReplace name values result ∧
        (∀ cause, result = .error cause →
          session.perform (.replace number name values) =
            (.error (.failure (.error cause)), session)) ∧
        ∀ after, result = .ok after →
          session.perform (.replace number name values) =
            (.ok .done,
              { session with datasets := session.datasets.setIfInBounds number after })

/-- The steps come to what the datasets decide, if the identities have been given out one by one. -/
theorem Tracks.datasetsTracked (h : Tracks lineages session.datasets)
    (hold : ∀ data ∈ session.datasets, data.identity < session.nextIdentity) :
    DatasetsTracked session lineages where
  tracks := h
  build columns := by
    refine ⟨_, Dataset.build_decided session.nextIdentity columns, ?_, ?_⟩
    · intro cause hcause
      simp only [Session.perform, hcause]
      rfl
    · intro data hdata
      simp only [Session.perform, hdata]
      rfl
  toModifiable number data hdata hfixed := by
    refine ⟨data.toModifiable session.nextIdentity, rfl, rfl, rfl, ?_, ?_⟩
    · exact fun other hother => Nat.ne_of_lt (hold other hother)
    · simp only [Session.perform, hdata, Session.withObject, hfixed]
      rfl
  clone number data hdata := by
    simp only [Session.perform, hdata, Session.withObject]
    rfl
  replace number data name values hdata hmodifiable := by
    refine ⟨_, data.replace_decided name values, ?_, ?_⟩
    · intro cause hcause
      simp only [Session.perform, hdata, Session.withObject, hmodifiable, hcause]
      rfl
    · intro after hafter
      simp only [Session.perform, hdata, Session.withObject, hmodifiable, hafter]
      rfl

/-- Whatever the steps were, the columns of every dataset are those of its lineage: as many entries
in each as there are rows, the variables in the order and of the kinds that they were built with,
and under each name the last values that have replaced others, or else the original ones. -/
theorem datasets_tracked (hooks : List Hook) (maxCallDepth batchSize : Nat) (steps : List Step) :
    DatasetsTracked ((start hooks maxCallDepth batchSize).performAll steps).2
      (lineagesOf ((start hooks maxCallDepth batchSize).history steps)) := by
  have htracks : Tracks (lineagesOf ((start hooks maxCallDepth batchSize).history steps))
      ((start hooks maxCallDepth batchSize).performAll steps).2.datasets := by
    refine history_induction
      (motive := fun past session => Tracks (lineagesOf past) session.datasets) ?_ ?_ steps
    · refine ⟨rfl, fun number data lineage hdata => ?_⟩
      cases (Array.getElem?_empty (i := number)).symm.trans hdata
    · intro past session step hpast
      rw [lineagesOf, List.foldl_append]
      exact hpast.perform step
  obtain ⟨known, hsound⟩ := Reachable.sound ⟨{ hooks, maxCallDepth }, batchSize, steps, rfl⟩
  exact htracks.datasetsTracked fun data hdata => hsound.old data (hsound.member data hdata)

/-- A copy that was made before a replacement keeps its values. -/
example : (lineagesOf ((start [] 64 4).history
    [.build [("x", .numeric #[1.0, 2.0])], .toModifiable 0, .clone 1, .replace 1 "x" #[4.0, 8.0],
      .replace 1 "y" #[4.0, 8.0]]))[2]?.bind (·.column? "x") = some (.numeric #[1.0, 2.0]) := rfl

end Session

end FormulaEngine
