import Mathlib.Data.List.Basic
import Mathlib.Data.List.Nodup

/-!
# Config overlays

A loaded config is a tree of dictionaries with strings as keys and values that are no
dictionaries as leaves. `_deep_merge` puts the overlay of an environment over the base file.
-/

namespace BifrostSocket.ConfigOverlays

section Trees

variable {α : Type*}

inductive ConfigNode (α : Type*) where
  | value (v : α)
  | dict (entries : List (String × ConfigNode α))

abbrev Entries (α : Type*) := List (String × ConfigNode α)

/-- No dictionary has a key twice. -/
inductive WellFormed : ConfigNode α → Prop where
  | value (v : α) : WellFormed (.value v)
  | dict {entries : Entries α} (distinct : (entries.map Prod.fst).Nodup)
      (values : ∀ e ∈ entries, WellFormed e.2) : WellFormed (.dict entries)

/-- `out[k] = v`. -/
def setItem (k : String) (v : ConfigNode α) : Entries α → Entries α
  | [] => [(k, v)]
  | e :: rest => if e.1 = k then (k, v) :: rest else e :: setItem k v rest

mutual

/-- `out` is what the loop has made of the base so far. -/
def deepMergeItems (out : Entries α) : Entries α → Entries α
  | [] => out
  | (k, v) :: rest => deepMergeItems (setItem k (mergeValue (out.lookup k) v) out) rest

/-- The value that the loop sets for an item of the overlay. -/
def mergeValue (old : Option (ConfigNode α)) : ConfigNode α → ConfigNode α
  | .value v => .value v
  | .dict overlay =>
    match old with
    | some (.dict base) => .dict (deepMergeItems base overlay)
    | some (.value _) | none => .dict overlay

end

/-- What the tree has at a path of keys. -/
def nodeAt (n : ConfigNode α) : List String → Option (ConfigNode α)
  | [] => some n
  | k :: path =>
    match n with
    | .value _ => none
    | .dict entries => (entries.lookup k).bind fun n => nodeAt n path

end Trees

section Items

variable {α : Type*} {k : String} {v : ConfigNode α} {base overlay : Entries α}

theorem lookup_cons_eq (e : String × ConfigNode α) (k : String) :
    List.lookup k (e :: base) = if k = e.1 then some e.2 else base.lookup k := by
  obtain ⟨key, v⟩ := e
  rw [List.lookup_cons]
  by_cases h : k = key
  · rw [if_pos h, beq_iff_eq.mpr h]
  · rw [if_neg h, beq_eq_false_iff_ne.mpr h]

theorem lookup_setItem (k' : String) :
    (setItem k v base).lookup k' = if k' = k then some v else base.lookup k' := by
  induction base with
  | nil => rw [setItem, lookup_cons_eq]
  | cons e rest ih =>
    unfold setItem
    split
    · next he =>
      subst he
      rw [lookup_cons_eq, lookup_cons_eq]
      split <;> rfl
    · next he =>
      rw [lookup_cons_eq, lookup_cons_eq, ih]
      by_cases h : k' = e.1
      · rw [if_pos h, if_neg (h ▸ he), if_pos h]
      · rw [if_neg h, if_neg h]

theorem lookup_eq_none_of_not_mem (h : k ∉ base.map Prod.fst) : base.lookup k = none := by
  rw [List.lookup_eq_none_iff]
  intro e he
  rw [bne_iff_ne]
  rintro rfl
  exact h (List.mem_map_of_mem he)

/-- What the merge has for a key: the merge of the overlay's value into the base's. -/
theorem lookup_deepMergeItems (hoverlay : (overlay.map Prod.fst).Nodup) (k : String) :
    (deepMergeItems base overlay).lookup k =
      match overlay.lookup k with
      | none => base.lookup k
      | some v => some (mergeValue (base.lookup k) v) := by
  induction overlay generalizing base with
  | nil => rw [deepMergeItems, List.lookup_nil]
  | cons e rest ih =>
    obtain ⟨key, v⟩ := e
    rw [List.map_cons, List.nodup_cons] at hoverlay
    rw [deepMergeItems, ih hoverlay.2, lookup_cons_eq, lookup_setItem]
    by_cases h : k = key
    · subst h
      rw [lookup_eq_none_of_not_mem hoverlay.1, if_pos rfl, if_pos rfl]
    · rw [if_neg h, if_neg h]

end Items

section WellFormedness

variable {α : Type*} {k : String} {v : ConfigNode α} {base overlay : Entries α}

theorem mem_setItem {e : String × ConfigNode α} (h : e ∈ setItem k v base) :
    e = (k, v) ∨ e ∈ base := by
  induction base with
  | nil => exact .inl (List.mem_singleton.mp h)
  | cons first rest ih =>
    unfold setItem at h
    split at h
    · rcases List.mem_cons.mp h with rfl | hrest
      · exact .inl rfl
      · exact .inr (List.mem_cons_of_mem _ hrest)
    · rcases List.mem_cons.mp h with rfl | hset
      · exact .inr (List.mem_cons_self ..)
      · exact (ih hset).imp_right (List.mem_cons_of_mem _)

theorem keys_setItem : (setItem k v base).map Prod.fst =
    if k ∈ base.map Prod.fst then base.map Prod.fst else base.map Prod.fst ++ [k] := by
  induction base with
  | nil => rfl
  | cons e rest ih =>
    unfold setItem
    split
    · next he => simp [he]
    · next he =>
      rw [List.map_cons, ih]
      by_cases h : k ∈ rest.map Prod.fst
      · simp [h]
      · simp [h, Ne.symm he]

theorem WellFormed.setItem (hbase : WellFormed (.dict base)) (hv : WellFormed v) :
    WellFormed (.dict (setItem k v base)) := by
  cases hbase with
  | dict distinct values =>
    refine .dict ?_ fun e he => ?_
    · rw [keys_setItem]
      split
      · exact distinct
      · next hk =>
        rw [← List.concat_eq_append]
        exact distinct.concat hk
    · rcases mem_setItem he with rfl | hmem
      · exact hv
      · exact values e hmem

theorem mem_of_lookup (h : base.lookup k = some v) : (k, v) ∈ base := by
  obtain ⟨before, later, rfl, -⟩ := List.lookup_eq_some_iff.mp h
  exact List.mem_append_right _ (List.mem_cons_self ..)

/-- The loop keeps dictionaries well formed if each of its merges does. -/
theorem wellFormed_deepMergeItems
    (hmerge : ∀ e ∈ overlay, ∀ old : Option (ConfigNode α), (∀ n ∈ old, WellFormed n) →
      WellFormed (mergeValue old e.2))
    (hbase : WellFormed (.dict base)) : WellFormed (.dict (deepMergeItems base overlay)) := by
  induction overlay generalizing base with
  | nil => exact hbase
  | cons e rest ih =>
    obtain ⟨key, v⟩ := e
    rw [deepMergeItems]
    refine ih (fun e he => hmerge e (List.mem_cons_of_mem _ he)) (hbase.setItem ?_)
    refine hmerge (key, v) (List.mem_cons_self ..) _ fun n hn => ?_
    cases hbase with
    | dict _ values => exact values _ (mem_of_lookup hn)

theorem WellFormed.mergeValue (hv : WellFormed v) (old : Option (ConfigNode α))
    (hold : ∀ n ∈ old, WellFormed n) : WellFormed (mergeValue old v) := by
  induction hv generalizing old with
  | value v => exact .value v
  | dict distinct values ih =>
    match old with
    | none => exact .dict distinct values
    | some (.value _) => exact .dict distinct values
    | some (.dict base) => exact wellFormed_deepMergeItems ih (hold _ rfl)

theorem WellFormed.deepMergeItems (hbase : WellFormed (.dict base))
    (hoverlay : WellFormed (.dict overlay)) :
    WellFormed (.dict (deepMergeItems base overlay)) := by
  cases hoverlay with
  | dict _ values => exact wellFormed_deepMergeItems (fun e he => (values e he).mergeValue) hbase

end WellFormedness

section Paths

variable {α : Type*} {n : ConfigNode α} {k : String} {path : List String} {v w : α}
  {base overlay : Entries α}

def HasValue (n : ConfigNode α) (path : List String) (v : α) : Prop :=
  nodeAt n path = some (.value v)

/-- The tree has nothing at the path, and no value at a path on the way. -/
def LeavesAlone (n : ConfigNode α) (path : List String) : Prop :=
  nodeAt n path = none ∧ ∀ q, q <+: path → q ≠ path → ∀ v, ¬ HasValue n q v

theorem nodeAt_dict (entries : Entries α) (k : String) (path : List String) :
    nodeAt (.dict entries) (k :: path) = (entries.lookup k).bind (nodeAt · path) := rfl

theorem not_leavesAlone_nil : ¬ LeavesAlone n [] := by
  rintro ⟨h, -⟩
  cases h

theorem not_leavesAlone_value : ¬ LeavesAlone (.value w) path := by
  intro h
  cases path with
  | nil => exact not_leavesAlone_nil h
  | cons k path => exact h.2 [] (List.nil_prefix ..) nofun w rfl

theorem leavesAlone_cons_iff :
    LeavesAlone (.dict overlay) (k :: path) ↔ ∀ n ∈ overlay.lookup k, LeavesAlone n path := by
  unfold LeavesAlone HasValue
  rw [nodeAt_dict]
  cases hk : overlay.lookup k with
  | none =>
    refine ⟨fun _ => nofun, fun _ => ⟨rfl, ?_⟩⟩
    rintro q hq - v hv
    obtain rfl | ⟨t, rfl, -⟩ := List.prefix_cons_iff.mp hq
    · cases hv
    · rw [nodeAt_dict, hk] at hv
      cases hv
  | some n =>
    constructor
    · rintro ⟨hnone, hway⟩ n' hn'
      obtain rfl : n = n' := Option.some.inj hn'
      refine ⟨hnone, fun q hq hne v hv => ?_⟩
      refine hway (k :: q) ((List.prefix_cons_inj k).mpr hq) (by simpa using hne) v ?_
      rw [nodeAt_dict, hk]
      exact hv
    · intro h
      obtain ⟨hnone, hway⟩ := h n rfl
      refine ⟨hnone, ?_⟩
      rintro q hq hne v hv
      obtain rfl | ⟨t, rfl, ht⟩ := List.prefix_cons_iff.mp hq
      · cases hv
      · rw [nodeAt_dict, hk] at hv
        exact hway t ht (by simpa using hne) v hv

/-- The values of the merge, path by path. -/
theorem hasValue_deepMergeItems_iff (hoverlay : WellFormed (.dict overlay)) :
    HasValue (.dict (deepMergeItems base overlay)) path v ↔
      HasValue (.dict overlay) path v ∨
        HasValue (.dict base) path v ∧ LeavesAlone (.dict overlay) path := by
  induction path generalizing base overlay with
  | nil =>
    simp [HasValue, nodeAt]
  | cons k path ih =>
    cases hoverlay with
    | dict distinct values =>
      rw [leavesAlone_cons_iff]
      unfold HasValue at ih ⊢
      simp only [nodeAt_dict, lookup_deepMergeItems distinct]
      cases hk : overlay.lookup k with
      | none => simp
      | some n => cases n with
        | value w =>
          simp [mergeValue, not_leavesAlone_value]
        | dict entries =>
          have hentries := values _ (mem_of_lookup hk)
          match hbase : base.lookup k with
          | none => simp [mergeValue]
          | some (.value w) =>
            cases path with
            | nil => simp [mergeValue, not_leavesAlone_nil]
            | cons k path => simp [mergeValue, nodeAt]
          | some (.dict baseEntries) => simpa [mergeValue] using ih hentries

example : deepMergeItems
    [("ib", .dict [("host", .value 1), ("port", .value 4001)]), ("redis", .value 2)]
    [("ib", .dict [("port", .value 4002)]), ("redis", .dict [])] =
    [("ib", .dict [("host", .value 1), ("port", .value 4002)]), ("redis", .dict [])] := rfl

end Paths

section Configs

variable {α : Type*}

/-- A dictionary of a config file. -/
structure Config (α : Type*) where
  entries : Entries α
  wellFormed : WellFormed (.dict entries)

namespace Config

def node (c : Config α) : ConfigNode α := .dict c.entries

def deepMerge (base overlay : Config α) : Config α where
  entries := deepMergeItems base.entries overlay.entries
  wellFormed := base.wellFormed.deepMergeItems overlay.wellFormed

/-- The merge has a value exactly where the overlay has it, or where the base has it and the
overlay leaves the path alone. So a value of the base is lost only where the overlay has something
at its path, or a value instead of a section on the way. -/
theorem hasValue_deepMerge (base overlay : Config α) (path : List String) (v : α) :
    (HasValue (deepMerge base overlay).node path v ↔
      HasValue overlay.node path v ∨
        HasValue base.node path v ∧ LeavesAlone overlay.node path) ∧
    (HasValue base.node path v → ¬ HasValue (deepMerge base overlay).node path v →
      nodeAt overlay.node path ≠ none ∨
        ∃ q, q <+: path ∧ q ≠ path ∧ ∃ w, HasValue overlay.node q w) := by
  have hiff : HasValue (deepMerge base overlay).node path v ↔
      HasValue overlay.node path v ∨
        HasValue base.node path v ∧ LeavesAlone overlay.node path :=
    hasValue_deepMergeItems_iff overlay.wellFormed
  refine ⟨hiff, fun hbase hlost => ?_⟩
  by_contra hkept
  push Not at hkept
  exact hlost (hiff.mpr (.inr ⟨hbase, hkept.1, hkept.2⟩))

def empty : Config α := ⟨[], .dict List.nodup_nil nofun⟩

def setValue (c : Config α) (k : String) (v : α) : Config α where
  entries := setItem k (.value v) c.entries
  wellFormed := c.wellFormed.setItem (.value v)

/-- `load_config` of a file that `yaml.safe_load` reads `overlay` from, beside a `config.yaml`
that it reads `base` from; an empty file is read as `None`. `str` makes a value of the path. -/
def loadConfig (str : String → α) (path name : String) (overlay : Option (Config α))
    (base : Option (Option (Config α))) : Config α :=
  let overlay := overlay.getD empty
  let merged :=
    if name ∈ ["config.dev.yaml", "config.prod.yaml"] then
      match base with
      | some base => deepMerge (base.getD empty) overlay
      | none => overlay
    else overlay
  merged.setValue "_config_file" (str path)

theorem hasValue_setValue {c : Config α} {key k : String} {w v : α} {path : List String}
    (h : k ≠ key) :
    HasValue (c.setValue key w).node (k :: path) v ↔ HasValue c.node (k :: path) v := by
  unfold HasValue node setValue
  rw [nodeAt_dict, nodeAt_dict, lookup_setItem, if_neg h]

/-- Beside the entry for the file itself, the config of an environment has the values of the
merge. -/
theorem hasValue_loadConfig {str : String → α} {file name k : String} {path : List String} {v : α}
    {base overlay : Config α} (hname : name ∈ ["config.dev.yaml", "config.prod.yaml"])
    (hk : k ≠ "_config_file") :
    HasValue (loadConfig str file name (some overlay) (some (some base))).node (k :: path) v ↔
      HasValue overlay.node (k :: path) v ∨
        HasValue base.node (k :: path) v ∧ LeavesAlone overlay.node (k :: path) := by
  unfold loadConfig
  rw [hasValue_setValue hk, if_pos hname]
  exact hasValue_deepMergeItems_iff overlay.wellFormed

end Config

end Configs

end BifrostSocket.ConfigOverlays
