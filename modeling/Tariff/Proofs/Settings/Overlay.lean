/-
# Settings over settings

Layers are laid over one another key by key. What is found at a path is what all layers together
give for it, one value laid over the other in their order, so that the keys of a table do not get in
each other's way. The value that is given last is the one that is found, unless it is a table.

* `SettingEntries.lookup_put` : one key;
* `lookup_overlay` : the keys of entries;
* `overlayLayer_eq` : a layer is laid over others as the tables that its keys stand for;
* `valueAt?_overlay` : what is found at a path;
* `overlayFiles_eq` : all files.
-/
import Tariff.Proofs.Outcome
import Tariff.Settings.Layers

namespace Tariff

/-! ## Keys -/

/-- Replacing the value of a key. -/
theorem lookup_replace (entries : SettingEntries) (key other : String) (value : SettingValue) :
    (entries.map fun entry => if entry.1 = key then (key, value) else entry).lookup other =
      if other = key then (entries.lookup key).map fun _ => value else entries.lookup other := by
  induction entries with
  | nil => simp
  | cons entry entries ih =>
    obtain ⟨name, old⟩ := entry
    rw [List.map_cons, List.lookup_cons, List.lookup_cons, List.lookup_cons, ih]
    by_cases hname : name = key
    · subst hname
      by_cases hother : other = name
      · simp [hother]
      · simp [hother, beq_false_of_ne hother]
    · by_cases hother : other = key
      · subst hother
        simp [hname, beq_false_of_ne (Ne.symm hname)]
      · simp [hname, hother]

/-- A key that is given a value has it, and the other keys keep theirs. -/
theorem SettingEntries.lookup_put (entries : SettingEntries) (key other : String)
    (value : SettingValue) :
    (entries.put key value).lookup other =
      if other = key then some value else entries.lookup other := by
  unfold put
  split
  · next hsome =>
    obtain ⟨old, hold⟩ := Option.isSome_iff_exists.mp hsome
    rw [lookup_replace, hold, Option.map_some]
  · next hnone =>
    have hmissing : entries.lookup key = none := Option.not_isSome_iff_eq_none.mp hnone
    rw [List.lookup_append]
    by_cases hother : other = key
    · rw [hother, hmissing, if_pos rfl, Option.none_or, List.lookup_cons_self]
    · have hno : (other == key) = false := beq_false_of_ne hother
      rw [if_neg hother, List.lookup_cons, hno]
      cases entries.lookup other <;> rfl

/-- The values that entries give for a key, in their order. -/
def given (entries : SettingEntries) (key : String) : List SettingValue :=
  entries.filterMap fun entry => if entry.1 = key then some entry.2 else none

/-- Values laid one over the other. -/
def laid (start : Option SettingValue) (values : List SettingValue) : Option SettingValue :=
  values.foldl (fun below value => some (value.over below)) start

/-- What entries leave at a key. -/
theorem lookup_overlay (base entries : SettingEntries) (key : String) :
    (overlay base entries).lookup key = laid (base.lookup key) (given entries key) := by
  induction entries generalizing base with
  | nil => rfl
  | cons entry entries ih =>
    obtain ⟨name, value⟩ := entry
    rw [overlay, ih, SettingEntries.lookup_put]
    by_cases hname : key = name
    · subst hname
      simp [given, laid]
    · simp [given, laid, hname, Ne.symm hname]

/-- Entries in a row are laid over others one part after the other. -/
theorem overlay_append (base first second : SettingEntries) :
    overlay base (first ++ second) = overlay (overlay base first) second := by
  induction first generalizing base with
  | nil => rfl
  | cons entry first ih =>
    obtain ⟨name, value⟩ := entry
    rw [List.cons_append, overlay, overlay, ih]

theorem given_append (first second : SettingEntries) (key : String) :
    given (first ++ second) key = given first key ++ given second key :=
  List.filterMap_append

/-! ## Tables -/

/-- Whether a value is a table. -/
def SettingValue.isTable : SettingValue → Bool
  | .table _ => true
  | _ => false

/-- A value that is laid over another one stays a table, or stays none. -/
theorem SettingValue.isTable_over (value : SettingValue) (below : Option SettingValue) :
    (value.over below).isTable = value.isTable := by
  cases value with
  | table | text | integer | float | boolean | list => rw [SettingValue.over] <;> rfl

/-- A value that is no table takes the place of what was there. -/
theorem SettingValue.over_of_not_table {value : SettingValue} (h : value.isTable = false)
    (below : Option SettingValue) : value.over below = value := by
  cases value with
  | table entries => cases h
  | text | integer | float | boolean | list => rfl

/-- The entries of a table are laid over those below it. -/
theorem innerEntries_over {value : SettingValue} (h : value.isTable = true)
    (below : Option SettingValue) :
    innerEntries (some (value.over below)) = overlay (innerEntries below) value.entries := by
  cases value with
  | table entries =>
    rw [SettingValue.over]
    rfl
  | text | integer | float | boolean | list => cases h

/-- Tables laid over a value leave all their entries, laid over those of the value. -/
theorem innerEntries_laid {values : List SettingValue} (h : ∀ value ∈ values, value.isTable = true)
    (start : Option SettingValue) :
    innerEntries (laid start values) =
      overlay (innerEntries start) (values.flatMap SettingValue.entries) := by
  induction values generalizing start with
  | nil => rfl
  | cons value values ih =>
    obtain ⟨hvalue, hvalues⟩ := List.forall_mem_cons.mp h
    rw [laid, List.foldl_cons, ← laid, ih hvalues, innerEntries_over hvalue, List.flatMap_cons,
      overlay_append]

/-- Tables over a table, or over nothing, are a table. -/
theorem isTable_of_laid {values : List SettingValue} (h : ∀ value ∈ values, value.isTable = true)
    {start : Option SettingValue} (hstart : ∀ value, start = some value → value.isTable = true) :
    ∀ value, laid start values = some value → value.isTable = true := by
  induction values generalizing start with
  | nil => exact hstart
  | cons first values ih =>
    obtain ⟨hfirst, hvalues⟩ := List.forall_mem_cons.mp h
    refine ih hvalues ?_
    rintro _ ⟨⟩
    rw [SettingValue.isTable_over]
    exact hfirst

/-! ## Paths -/

/-- What is found at the end of a path of tables. -/
def valueAt? (entries : SettingEntries) : List String → Option SettingValue
  | [] => none
  | [key] => entries.lookup key
  | key :: path => valueAt? (innerEntries (entries.lookup key)) path

/-- The values that entries give for the end of a path, in their order. -/
def givenAt (entries : SettingEntries) : List String → List SettingValue
  | [] => []
  | [key] => given entries key
  | key :: path => givenAt ((given entries key).flatMap SettingValue.entries) path

theorem valueAt?_cons_cons (entries : SettingEntries) (key next : String) (path : List String) :
    valueAt? entries (key :: next :: path) =
      valueAt? (innerEntries (entries.lookup key)) (next :: path) := rfl

theorem givenAt_cons_cons (entries : SettingEntries) (key next : String) (path : List String) :
    givenAt entries (key :: next :: path) =
      givenAt ((given entries key).flatMap SettingValue.entries) (next :: path) := rfl

/-- Whatever entries give for the keys of a path, but for the last one, are tables. -/
def TablesAlong (entries : SettingEntries) : List String → Prop
  | [] => True
  | [_] => True
  | key :: path =>
    (∀ value ∈ given entries key, value.isTable = true) ∧
      TablesAlong ((given entries key).flatMap SettingValue.entries) path

/-- **What is found at a path is what has been given for it**, one value laid over the other. -/
theorem valueAt?_overlay {path : List String} {entries : SettingEntries}
    (h : TablesAlong entries path) (base : SettingEntries) :
    valueAt? (overlay base entries) path = laid (valueAt? base path) (givenAt entries path) := by
  induction path generalizing entries base with
  | nil => rfl
  | cons key path ih =>
    cases path with
    | nil => exact lookup_overlay base entries key
    | cons next path =>
      obtain ⟨htables, hrest⟩ := h
      rw [valueAt?_cons_cons, valueAt?_cons_cons, givenAt_cons_cons, lookup_overlay,
        innerEntries_laid htables]
      exact ih hrest (innerEntries (base.lookup key))

/-- Entries in a row give for a path what each part gives. -/
theorem givenAt_append (first second : SettingEntries) (path : List String) :
    givenAt (first ++ second) path = givenAt first path ++ givenAt second path := by
  induction path generalizing first second with
  | nil => rfl
  | cons key path ih =>
    cases path with
    | nil => exact given_append first second key
    | cons next path =>
      rw [givenAt_cons_cons, givenAt_cons_cons, givenAt_cons_cons, given_append,
        List.flatMap_append]
      exact ih _ _

/-! ## Layers -/

/-- A value at the end of a path of tables with one entry each. -/
def nested (value : SettingValue) : List String → SettingValue
  | [] => value
  | key :: path => .table [(key, nested value path)]

/-- The entry that a value at the end of a path stands for. -/
def entryAt (value : SettingValue) : List String → SettingEntries
  | [] => []
  | key :: path => [(key, nested value path)]

/-- The entries that the keys of a layer stand for. -/
def spread (layer : SettingEntries) : SettingEntries :=
  layer.flatMap fun entry => entryAt entry.2 (settingPath entry.1)

/-- A value at the end of a path is laid over others as the nested tables that lead to it. -/
theorem overlayAt_eq (base : SettingEntries) (value : SettingValue) (path : List String) :
    overlayAt base value path = overlay base (entryAt value path) := by
  induction path generalizing base with
  | nil => rfl
  | cons key path ih =>
    cases path with
    | nil => rfl
    | cons next path =>
      rw [overlayAt, ih]
      · rfl
      · exact nofun

/-- A layer is laid over others as the entries that its keys stand for. -/
theorem overlayLayer_eq (base layer : SettingEntries) :
    overlayLayer base layer = overlay base (spread layer) := by
  induction layer generalizing base with
  | nil => rfl
  | cons entry layer ih =>
    obtain ⟨key, value⟩ := entry
    have hspread :
        spread ((key, value) :: layer) = entryAt value (settingPath key) ++ spread layer :=
      List.flatMap_cons
    rw [overlayLayer, List.foldl_cons, ← overlayLayer, ih, hspread, overlay_append, ← overlayAt_eq]

/-- The files are laid over one another as one list of entries, if all of them can be read. -/
theorem overlayFiles_eq (files : String → Option String) (base : SettingEntries)
    (names : List String) :
    overlayFiles files base names =
      (names.mapM (fileLayer files)).map fun layers => overlay base (layers.flatMap spread) := by
  induction names generalizing base with
  | nil => rfl
  | cons name names ih =>
    rw [overlayFiles, List.mapM_cons]
    cases fileLayer files name with
    | error fault => rfl
    | ok layer =>
      show overlayFiles files (overlayLayer base layer) names = _
      rw [ih, overlayLayer_eq]
      show _ = (names.mapM (fileLayer files) >>= fun layers => Except.ok (layer :: layers)).map _
      cases names.mapM (fileLayer files) with
      | error fault => rfl
      | ok layers =>
        have hflat : (layer :: layers).flatMap spread = spread layer ++ layers.flatMap spread :=
          List.flatMap_cons
        show Except.ok _ = Except.ok (overlay base ((layer :: layers).flatMap spread))
        rw [hflat, overlay_append]

end Tariff
