import Mathlib.Data.List.Perm.Basic
import TuringTable.Proofs.Document.Synonyms

/-!
# The order of entries

The last entry of a name counts, so order matters only where something is named twice. `Rearranged`
puts the entries of a value in another order, and those of their values, down to some depth. Where
each name comes once (`NamedOnce`) every part of the grammar allows for it: an instruction
(`Object.of_perm`), a row (`RowOf.of_shuffled`), the synonyms, the table. So a rearranged document
describes the same (`Describes.of_rearranged`).
-/

namespace TuringTable

open Yaml (Value)
open Grammar

namespace Yaml.Value

/-- The entries of a mapping under its tags; there are none in what is no mapping. -/
def entries (v : Value) : List (Value × Value) := v.entries?.getD []

/-- The entries in another order, with values that `R` relates to theirs under the same keys. -/
def Shuffled (R : Value → Value → Value → Prop) (es es' : List (Value × Value)) : Prop :=
  ∃ fs, List.Forall₂ (fun e f => f.1 = e.1 ∧ R e.1 e.2 f.2) es fs ∧ fs.Perm es'

/-- The value with its entries in another order, and so on for the values of these, down to the
depth. -/
def Rearranged : Nat → Value → Value → Prop
  | 0, v, v' => v' = v
  | n + 1, v, v' => v' = v ∨ ∃ es es', v.entries? = some es ∧
      Shuffled (fun _ => Rearranged n) es es' ∧ v' = v.onEntries fun _ => es'

theorem Rearranged.refl (n : Nat) (v : Value) : Rearranged n v v := by
  cases n with
  | zero => rfl
  | succ n => exact .inl rfl

theorem Shuffled.refl (n : Nat) (es : List (Value × Value)) :
    Shuffled (fun _ => Rearranged n) es es :=
  ⟨es, List.forall₂_same.2 fun e _ => ⟨rfl, .refl n e.2⟩, .refl es⟩

theorem Rearranged.mapping {n : Nat} {v v' : Value} {es : List (Value × Value)}
    (h : Rearranged (n + 1) v v') (hes : v.entries? = some es) :
    ∃ es', v'.entries? = some es' ∧ Shuffled (fun _ => Rearranged n) es es' := by
  obtain rfl | ⟨fs, es', hfs, hs, rfl⟩ := h
  · exact ⟨es, hes, .refl n es⟩
  · cases hes.symm.trans hfs
    exact ⟨es', by rw [entries?_onEntries, hes, Option.map_some], hs⟩

/-- What is no mapping has nothing to rearrange. -/
theorem Rearranged.eq_of_entries? {n : Nat} {v v' : Value} (h : Rearranged n v v')
    (hv : v.entries? = none) : v' = v := by
  cases n with
  | zero => exact h
  | succ n =>
    obtain rfl | ⟨es, -, hes, -⟩ := h
    · rfl
    · cases hv.symm.trans hes

theorem perm_of_shuffled {es es' : List (Value × Value)}
    (h : Shuffled (fun _ => Rearranged 0) es es') : es.Perm es' := by
  obtain ⟨fs, hfs, hp⟩ := h
  have hes : List.Forall₂ Eq es fs := hfs.imp fun e f hef => (Prod.ext hef.1 hef.2).symm
  rw [List.forall₂_eq_eq_eq] at hes
  rwa [hes]

/-- What the entries stand for one by one they stand for in another order. -/
theorem Shuffled.exists_perm {κ : Type} {R : Value → Value → Value → Prop}
    {P Q : Value × Value → κ → Prop} {es es' : List (Value × Value)} {ks : List κ}
    (h : Shuffled R es es') (hks : List.Forall₂ P es ks)
    (hP : ∀ e ∈ es, ∀ v k, R e.1 e.2 v → P e k → Q (e.1, v) k) :
    ∃ ks', List.Forall₂ Q es' ks' ∧ ks'.Perm ks := by
  obtain ⟨fs, hfs, hp⟩ := h
  have hfks : List.Forall₂ Q fs ks := by
    -- entry by entry first, the permutation comes after
    clear hp
    induction hfs generalizing ks with
    | nil =>
      rw [List.forall₂_nil_left_iff.1 hks]
      exact .nil
    | @cons e f es fs hef _ ih =>
      obtain ⟨k, ks, hk, hes, rfl⟩ := List.forall₂_cons_left_iff.1 hks
      have hf : f = (e.1, f.2) := Prod.ext hef.1 rfl
      refine .cons ?_ (ih hes fun d hd => hP d (List.mem_cons_of_mem _ hd))
      rw [hf]
      exact hP e List.mem_cons_self f.2 k hef.2 hk
  exact List.perm_comp_forall₂ hp.symm hfks

/-! ### Fields -/

/-- How far down the value under a key of the document may be rearranged. -/
def fieldDepth (key : Value) : Nat :=
  if key.isField "synonyms" then 2 else if key.isField "table" then 3 else 0

/-- The entries that are fields of a document. -/
def fieldsOf (es : List (Value × Value)) : List (Value × Value) :=
  es.filter fun e => Document.fieldNames.any e.1.isField

theorem isField_iff {name : String} {k : Value} : k.isField name = true ↔ k = string name := by
  cases k <;> simp [isField]

theorem lookup_eq_filter (name : String) (es : List (Value × Value)) :
    lookup name es = ((es.filter (·.1.isField name)).head?).map (·.2) := by
  induction es with
  | nil => rfl
  | cons e es ih =>
    obtain ⟨k, v⟩ := e
    rw [lookup_cons, ih]
    cases hk : k.isField name
    · rw [List.filter_cons_of_neg (by simp [hk])]
      rfl
    · rw [List.filter_cons_of_pos (by simpa using hk)]
      rfl

theorem filter_fieldsOf {name : String} (h : name ∈ Document.fieldNames)
    (es : List (Value × Value)) :
    (fieldsOf es).filter (·.1.isField name) = es.filter (·.1.isField name) := by
  rw [fieldsOf, List.filter_filter]
  refine List.filter_congr fun e _ => ?_
  rw [Bool.and_eq_left_iff_imp]
  exact fun hk => List.any_eq_true.2 ⟨name, h, hk⟩

/-- A field that comes once is found in another order, with a value that is related to its own. -/
theorem lookup_of_shuffled {R : Value → Value → Value → Prop} {es es' : List (Value × Value)}
    (h : Shuffled R (fieldsOf es) (fieldsOf es')) {name : String} (hname : name ∈ Document.fieldNames)
    (honce : es.countP (·.1.isField name) ≤ 1) :
    Option.Rel (R (string name)) (lookup name es) (lookup name es') := by
  obtain ⟨fs, hfs, hp⟩ := h
  have hrel := List.rel_filter (p := (·.1.isField name)) (q := (·.1.isField name))
    (fun e f hef => by simp [hef.1]) hfs
  have hperm := hp.filter (·.1.isField name)
  rw [filter_fieldsOf hname] at hrel hperm
  rw [lookup_eq_filter, lookup_eq_filter]
  rw [List.countP_eq_length_filter] at honce
  -- the entries with the name are none or one, and so they are in any order
  rcases hes : es.filter (·.1.isField name) with _ | ⟨e, _ | ⟨d, ds⟩⟩
  · rw [hes, List.forall₂_nil_left_iff] at hrel
    rw [hrel, List.nil_perm] at hperm
    rw [hes, hperm]
    exact .none
  · rw [hes, List.forall₂_cons_left_iff] at hrel
    obtain ⟨f, _, hef, hnil, hf⟩ := hrel
    rw [List.forall₂_nil_left_iff.1 hnil] at hf
    rw [hf, List.singleton_perm] at hperm
    have hmem : e ∈ es.filter (·.1.isField name) := by simp [hes]
    have he : e.1 = string name := isField_iff.1 (List.mem_filter.1 hmem).2
    rw [hes, ← hperm, ← he]
    exact .some hef.2
  · rw [hes] at honce
    simp at honce

end Yaml.Value

open Yaml.Value

theorem lookup_reverse_of_perm {κ ν : Type} [DecidableEq κ] {ks ks' : List (κ × ν)}
    (h : ks'.Perm ks) (hd : (ks.map (·.1)).Nodup) (k : κ) :
    ks'.reverse.lookup k = ks.reverse.lookup k := by
  have hp : ks.reverse.Perm ks'.reverse := (List.reverse_perm ks).trans
    (h.symm.trans (List.reverse_perm ks').symm)
  have hd' : (ks.reverse.map (·.1)).Nodup := ((List.reverse_perm ks).map _).nodup_iff.2 hd
  exact (SortedMap.lookup_eq_of_perm hp hd' k).symm

namespace Grammar

/-! ### Instructions -/

/-- No part of an instruction is named twice. -/
def PartsOnce (ps : Entries) : Prop := (ps.filterMap (·.1.string?)).Nodup

instance (ps : Entries) : Decidable (PartsOnce ps) := inferInstanceAs (Decidable (List.Nodup _))

section Perm
variable {ps ps' : Entries} {name : String} {v : Value}

theorem part_iff_mem (h : PartsOnce ps) : Part ps name v ↔ ∃ key, (key, v) ∈ ps ∧ Named name key := by
  constructor
  · rintro ⟨before, key, after, rfl, hk, -⟩
    exact ⟨key, by simp, hk⟩
  · rintro ⟨key, hm, hk⟩
    obtain ⟨before, after, rfl⟩ := List.append_of_mem hm
    refine ⟨before, key, after, rfl, hk, fun e he hname => ?_⟩
    -- a later entry with the name would be a second one
    have hcons : ((key, v) :: after).filterMap (·.1.string?) =
        name :: after.filterMap (·.1.string?) :=
      List.filterMap_cons_some (Document.named_iff.1 hk)
    rw [PartsOnce, List.filterMap_append, hcons] at h
    have hnot : name ∉ after.filterMap (·.1.string?) :=
      (List.nodup_cons.1 (List.nodup_append.1 h).2.1).1
    exact hnot (List.mem_filterMap.2 ⟨e, he, Document.named_iff.1 hname⟩)

variable (hp : ps.Perm ps') (honce : PartsOnce ps)
include hp

theorem NoPart.of_perm (h : NoPart ps name) : NoPart ps' name :=
  fun e he => h e (hp.mem_iff.2 he)

include honce

theorem Part.of_perm (h : Part ps name v) : Part ps' name v := by
  have honce' : PartsOnce ps' := (hp.filterMap _).nodup_iff.1 honce
  obtain ⟨key, hm, hk⟩ := (part_iff_mem honce).1 h
  exact (part_iff_mem honce').2 ⟨key, hp.mem_iff.1 hm, hk⟩

theorem Object.of_perm {i : Instruction} (h : Object ps i) : Object ps' i := by
  refine ⟨?_, ?_, fun e he => h.keys e (hp.mem_iff.2 he)⟩
  · obtain ⟨target, ht, ⟨hd, hl, hr⟩ | ⟨hd, hl, hr⟩⟩ := h.direction
    · exact ⟨target, ht, .inl ⟨hd, hl.of_perm hp honce, hr.of_perm hp⟩⟩
    · exact ⟨target, ht, .inr ⟨hd, hl.of_perm hp, hr.of_perm hp honce⟩⟩
  · generalize i.write = w, h.write = hw
    cases hw with
    | keep hw => exact .keep (hw.of_perm hp)
    | symbol hw hc => exact .symbol (hw.of_perm hp honce) hc

end Perm

theorem eq_of_rearranged {n : Nat} {v v' w : Value} (h : Rearranged n v v') (hu : Under v w)
    (hw : ∀ es, w ≠ .mapping es) : v' = v := by
  refine h.eq_of_entries? ?_
  rw [Value.entries?, under_iff.1 hu]
  split
  · exact absurd rfl (hw _)
  · rfl

theorem exists_mapping_of_rearranged {n : Nat} {v v' : Value} {es : Entries}
    (h : Rearranged (n + 1) v v') (hu : Under v (.mapping es)) :
    v.entries = es ∧ ∃ es', Under v' (.mapping es') ∧ Shuffled (fun _ => Rearranged n) es es' := by
  have hes : v.entries? = some es := Document.entries?_iff.2 hu
  obtain ⟨es', hes', hs⟩ := h.mapping hes
  exact ⟨by rw [entries, hes, Option.getD_some], es', Document.entries?_iff.1 hes', hs⟩

section Cells
variable {v v' : Value} {i : Instruction}

theorem Plain.of_rearranged (h : Rearranged 1 v v') (honce : PartsOnce v.entries)
    (hi : Plain v i) : Plain v' i := by
  cases hi with
  | left hu =>
    rw [eq_of_rearranged h hu nofun]
    exact .left hu
  | right hu =>
    rw [eq_of_rearranged h hu nofun]
    exact .right hu
  | object hu ho =>
    obtain ⟨hes, ps', hu', hs⟩ := exists_mapping_of_rearranged h hu
    rw [hes] at honce
    exact .object hu' (ho.of_perm (perm_of_shuffled hs) honce)

variable {names names' : List (String × Instruction)}
  (hnames : ∀ name, names'.reverse.lookup name = names.reverse.lookup name)
include hnames

theorem Cell.of_rearranged (h : Rearranged 1 v v') (honce : PartsOnce v.entries)
    (hi : Cell names v i) : Cell names' v' i := by
  cases hi with
  | plain hi => exact .plain (hi.of_rearranged h honce)
  | synonym hu hL hR hi =>
    rw [eq_of_rearranged h hu nofun]
    exact .synonym hu hL hR (hnames _ ▸ hi)

end Cells

/-! ### The table -/

/-- The symbols that a key names, if it names symbols. -/
def symbolsOf (key : Value) : List Char := (Document.readSymbols key).toOption.getD []

/-- No symbol of a state is named twice, and no part of its instructions. -/
structure CellsOnce (cells : Entries) : Prop where
  symbols : (cells.flatMap fun cell => symbolsOf cell.1).Nodup
  parts : ∀ cell ∈ cells, PartsOnce cell.2.entries

instance (cells : Entries) : Decidable (CellsOnce cells) :=
  decidable_of_iff ((cells.flatMap fun cell => symbolsOf cell.1).Nodup ∧
    ∀ cell ∈ cells, PartsOnce cell.2.entries) ⟨fun h => ⟨h.1, h.2⟩, fun h => ⟨h.symbols, h.parts⟩⟩

theorem symbolsOf_eq {key : Value} {cs : List Char} (h : Key key cs) : symbolsOf key = cs := by
  rw [symbolsOf, Document.readSymbols_iff.2 h]
  rfl

theorem flatMap_symbolsOf {cells : Entries} {ks : List (List Char × Instruction)}
    {P : Value × Value → Instruction → Prop}
    (h : List.Forall₂ (fun e k => Key e.1 k.1 ∧ P e k.2) cells ks) :
    (ks.flatMap fun k => k.1.map (·, k.2)).map (·.1) =
      cells.flatMap fun cell => symbolsOf cell.1 := by
  induction h with
  | nil => rfl
  | @cons e k cells ks hek _ ih =>
    have hkey : (k.1.map (·, k.2)).map (·.1) = symbolsOf e.1 := by
      rw [symbolsOf_eq hek.1, List.map_map]
      exact List.map_id _
    rw [List.flatMap_cons, List.flatMap_cons, List.map_append, ih, hkey]

theorem map_fst_eq_filterMap {ν : Type} {es : Entries} {ks : List (String × ν)}
    {P : Value × Value → ν → Prop}
    (h : List.Forall₂ (fun e k => Scalar e.1 k.1 ∧ P e k.2) es ks) :
    ks.map (·.1) = es.filterMap (·.1.text?) := by
  induction h with
  | nil => rfl
  | @cons e k es ks hek _ ih =>
    have hcons : (e :: es).filterMap (·.1.text?) = k.1 :: es.filterMap (·.1.text?) :=
      List.filterMap_cons_some (scalar_iff.1 hek.1)
    rw [List.map_cons, hcons, ih]

section Table
variable {names names' : List (String × Instruction)}
  (hnames : ∀ name, names'.reverse.lookup name = names.reverse.lookup name)
include hnames

theorem RowOf.of_shuffled {cells cells' : Entries} {row : Row}
    (h : Shuffled (fun _ => Rearranged 1) cells cells') (honce : CellsOnce cells)
    (hrow : RowOf names cells row) : RowOf names' cells' row := by
  obtain ⟨ks, hks, hget⟩ := hrow
  obtain ⟨ks', hks', hp⟩ := h.exists_perm (Q := fun e k => Key e.1 k.1 ∧ Cell names' e.2 k.2) hks
    fun cell hcell v k hv hk => ⟨hk.1, hk.2.of_rearranged hnames hv (honce.parts cell hcell)⟩
  have hd := honce.symbols
  rw [← flatMap_symbolsOf hks] at hd
  refine ⟨ks', hks', fun c => ?_⟩
  rw [hget, lookup_reverse_of_perm (hp.flatMap_right _) hd]

theorem State.of_rearranged {v v' : Value} {row : Option Row} (h : Rearranged 2 v v')
    (honce : CellsOnce v.entries) (hv : State names v row) : State names' v' row := by
  cases hv with
  | halting hu =>
    rw [eq_of_rearranged h hu nofun]
    exact .halting hu
  | row hu hrow =>
    obtain ⟨hes, cells', hu', hs⟩ := exists_mapping_of_rearranged h hu
    rw [hes] at honce
    exact .row hu' (hrow.of_shuffled hnames hs honce)

end Table

/-! ### The document -/

section Document
variable {es es' : Entries}

/-- The states as they are written, if there are any. -/
def stateEntries (es : Entries) : Entries := ((lookup "table" es).bind entries?).getD []

/-- Nothing in the document is named twice. That no field comes twice is no demand on a document,
since no mapping has a key twice. -/
structure NamedOnce (es : Entries) : Prop where
  fields : ∀ name ∈ Document.fieldNames, es.countP (·.1.isField name) ≤ 1
  synonyms : (Document.synonymNames es).Nodup
  synonymParts : ∀ e ∈ Document.synonymEntries es, PartsOnce e.2.entries
  states : ((stateEntries es).filterMap (·.1.text?)).Nodup
  cells : ∀ e ∈ stateEntries es, CellsOnce e.2.entries

/-- The fields in another order, with their values rearranged, among any other entries. -/
def FieldsRearranged (es es' : Entries) : Prop :=
  Shuffled (fun key => Rearranged (fieldDepth key)) (fieldsOf es) (fieldsOf es')

variable (h : FieldsRearranged es es') (honce : NamedOnce es)
include h honce

theorem lookup_eq_of_rearranged {name : String} (hname : name ∈ Document.fieldNames)
    (hdepth : fieldDepth (.string name) = 0) : lookup name es' = lookup name es := by
  have hrel := lookup_of_shuffled h hname (honce.fields name hname)
  rw [hdepth] at hrel
  generalize lookup name es = v?, lookup name es' = v?' at hrel
  cases hrel with
  | none => rfl
  | some hv => rw [hv]

theorem HasField.of_rearranged {name : String} {v : Value} (hname : name ∈ Document.fieldNames)
    (hf : HasField es name v) :
    ∃ v', HasField es' name v' ∧ Rearranged (fieldDepth (.string name)) v v' := by
  have hrel := lookup_of_shuffled h hname (honce.fields name hname)
  rw [lookup_eq_some_iff.2 hf] at hrel
  generalize hl : lookup name es' = v? at hrel
  cases hrel with
  | some hv => exact ⟨_, lookup_eq_some_iff.1 hl, hv⟩

theorem Omitted.of_rearranged {name : String} (hname : name ∈ Document.fieldNames)
    (ho : Omitted es name) : Omitted es' name := by
  have hrel := lookup_of_shuffled h hname (honce.fields name hname)
  rw [omitted_iff] at ho ⊢
  rcases ho with hnone | hnull
  · rw [hnone] at hrel
    generalize lookup name es' = v? at hrel
    cases hrel
    exact .inl rfl
  · rw [hnull] at hrel
    generalize lookup name es' = v? at hrel
    cases hrel with
    | some hv => exact .inr (by rw [hv.eq_of_entries? rfl])

/-- The synonyms are the same, in another order, and so none is looked up differently. -/
theorem Synonyms.of_rearranged {names : List (String × Instruction)} (hn : Synonyms es names) :
    ∃ names', Synonyms es' names' ∧
      ∀ name, names'.reverse.lookup name = names.reverse.lookup name := by
  cases hn with
  | omitted ho => exact ⟨[], .omitted (ho.of_rearranged h honce (by decide)), fun _ => rfl⟩
  | @mapping v ps _ hf hu hks =>
    obtain ⟨v', hf', hv⟩ := hf.of_rearranged h honce (by decide)
    obtain ⟨-, ps', hu', hs⟩ := exists_mapping_of_rearranged hv hu
    have hps : Document.synonymEntries es = ps :=
      Document.synonymEntries_eq (lookup_eq_some_iff.2 hf) (Document.entries?_iff.2 hu)
    have hparts := honce.synonymParts
    have hd := honce.synonyms
    rw [hps] at hparts
    rw [Document.synonymNames, hps, ← map_fst_eq_filterMap hks] at hd
    obtain ⟨names', hks', hp⟩ := hs.exists_perm (Q := fun e k => Scalar e.1 k.1 ∧ Plain e.2 k.2) hks
      fun e he v k hv hk => ⟨hk.1, hk.2.of_rearranged hv (hparts e he)⟩
    exact ⟨names', .mapping hf' hu' hks', lookup_reverse_of_perm hp hd⟩

theorem TableOf.of_rearranged {names names' : List (String × Instruction)} {table : Table}
    (hnames : ∀ name, names'.reverse.lookup name = names.reverse.lookup name)
    (ht : TableOf names es table) : TableOf names' es' table := by
  obtain ⟨v, ps, ks, hf, hu, hks, hget⟩ := ht
  obtain ⟨v', hf', hv⟩ := hf.of_rearranged h honce (by decide)
  obtain ⟨-, ps', hu', hs⟩ := exists_mapping_of_rearranged hv hu
  have hps : stateEntries es = ps := by
    rw [stateEntries, lookup_eq_some_iff.2 hf, Option.bind_some, Document.entries?_iff.2 hu,
      Option.getD_some]
  have hcells := honce.cells
  have hd := honce.states
  rw [hps] at hcells
  rw [hps, ← map_fst_eq_filterMap hks] at hd
  obtain ⟨ks', hks', hp⟩ := hs.exists_perm (Q := fun e k => Scalar e.1 k.1 ∧ State names' e.2 k.2)
    hks fun e he v k hv hk => ⟨hk.1, hk.2.of_rearranged hnames hv (hcells e he)⟩
  refine ⟨v', ps', ks', hf', hu', hks', fun q => ?_⟩
  rw [hget, lookup_reverse_of_perm hp hd]

theorem Describes.of_rearranged {document : Value} {s : Specification}
    (hes : document.entries? = some es) (hs : Describes document s) :
    Describes (document.onEntries fun _ => es') s := by
  obtain ⟨fs, names, hu, hb, hq, hi, hn, ht⟩ := hs
  cases hes.symm.trans (Document.entries?_iff.2 hu)
  obtain ⟨names', hn', hnames⟩ := hn.of_rearranged h honce
  have hes' : (document.onEntries fun _ => es').entries? = some es' := by
    rw [entries?_onEntries, hes, Option.map_some]
  rw [← Document.readBlank_iff,
    ← lookup_eq_of_rearranged h honce (by decide) (by decide)] at hb
  rw [← Document.readStartState_iff,
    ← lookup_eq_of_rearranged h honce (by decide) (by decide)] at hq
  rw [← Document.readInput_iff,
    ← lookup_eq_of_rearranged h honce (by decide) (by decide)] at hi
  exact ⟨es', names', Document.entries?_iff.1 hes', Document.readBlank_iff.1 hb,
    Document.readStartState_iff.1 hq, Document.readInput_iff.1 hi, hn',
    ht.of_rearranged h honce hnames⟩

end Document

end Grammar

/-- The warnings about states that no run comes to. -/
def Warning.isUnreachable : Warning → Bool
  | unreachableState .. => true
  | _ => false

namespace Document

theorem warns_read (document : Value) : (read document).Warns (·.isUnreachable = false) := by
  cases hes : document.entries? with
  | none =>
    rw [read, Checked.ofExcept_orFail_bind, hes]
    exact .ofExcept _
  | some es =>
    have hsynonyms : (readSynonyms (lookup "synonyms" es)).Warns (·.isUnreachable = false) := by
      refine (warns_readSynonyms _).mono fun w hw => ?_
      cases w <;> first | rfl | cases hw
    rw [read_eq hes]
    exact (Checked.Warns.ofExcept _).bind fun head => hsynonyms.bind fun synonyms =>
      (warns_readTable (fun _ => rfl) (fun _ => rfl) _).bind fun _ => .pure _

/-- What the check finds out about the whole table depends on what the document is read as alone. -/
theorem check_of_read {document : Value} {s : Specification}
    (h : ((read document).run []).1 = .ok s) :
    (check document).1 = s.analyze.map (fun _ => s) ∧
      (check document).2.filter Warning.isUnreachable = match s.analyze with
        | .error _ => []
        | .ok () => s.unreachable.map fun q => .unreachableState q s.startState := by
  obtain ⟨r, us, hus, hrun⟩ := warns_read document
  have hr : r = .ok s := by rwa [hrun] at h
  have hnil : (us ++ []).reverse.filter Warning.isUnreachable = [] := by
    refine List.filter_eq_nil_iff.2 fun w hw => ?_
    have hmem : w ∈ us := by simpa using hw
    simp [hus w hmem]
  rw [check, hrun, hr]
  dsimp only
  cases s.analyze with
  | error e => exact ⟨rfl, hnil⟩
  | ok u =>
    refine ⟨rfl, ?_⟩
    rw [List.filter_append, hnil, filter_unreachable fun _ _ => rfl, List.nil_append]

/-- Where nothing is named twice, a document means the same with its entries in another order, and
so on inside, and among other entries. The same states are found unreachable. -/
theorem order_of_entries {document : Value} {es es' : List (Value × Value)} {s : Specification}
    (hes : document.entries? = some es) (hs : ((read document).run []).1 = .ok s)
    (honce : NamedOnce es) (h : FieldsRearranged es es') :
    let document' := document.onEntries fun _ => es'
    ((read document').run []).1 = .ok s ∧ (check document').1 = (check document).1 ∧
      (check document').2.filter Warning.isUnreachable =
        (check document).2.filter Warning.isUnreachable := by
  intro document'
  have hdescribes : Describes document' s :=
    Describes.of_rearranged h honce hes ((read_gives document [] s).1 hs)
  have hs' : ((read document').run []).1 = .ok s := (read_gives document' [] s).2 hdescribes
  obtain ⟨hresult, hwarnings⟩ := check_of_read hs
  obtain ⟨hresult', hwarnings'⟩ := check_of_read hs'
  exact ⟨hs', hresult'.trans hresult.symm, hwarnings'.trans hwarnings.symm⟩

/-- All is turned around, on every level, and a remark is added. -/
theorem all_turned_around :
    let flip := [(.string "R", .string "B"), (.string "write", .string "1")]
    let synonyms (flip : List (Value × Value)) :=
      [(Value.string "flip", Value.mapping flip), (.string "back", .string "L")]
    let cells := [(Value.string "0", Value.string "flip"), (.string "1,_", .string "back")]
    let states (cells : List (Value × Value)) :=
      [(Value.string "A", Value.mapping cells), (.string "B", .null), (.string "C", .null)]
    let fields (synonyms states : List (Value × Value)) :=
      [(Value.string "blank", Value.string "_"), (.string "start state", .string "A"),
        (.string "synonyms", .mapping synonyms), (.string "table", .mapping states)]
    let document := Value.tagged "!t" (.mapping (fields (synonyms flip) (states cells)))
    let remark := (Value.tagged "!n" (.string "blank"), Value.string "a remark")
    let document' := Value.tagged "!t" (.mapping (remark ::
      (fields (synonyms flip.reverse).reverse (states cells.reverse).reverse).reverse))
    let s : Specification := ⟨'_', "A", .ofList [("A", some (.ofList [('0', ⟨some '1', .right, "B"⟩),
      ('1', .move .left), ('_', .move .left)])), ("B", none), ("C", none)], []⟩
    check document = (.ok s, [.unreachableState "C" "A"]) ∧
      ((read document').run []).1 = .ok s ∧ (check document').1 = .ok s ∧
      (check document').2.filter Warning.isUnreachable = [.unreachableState "C" "A"] := by
  intro flip synonyms cells states fields document remark document' s
  have hcheck : check document = (.ok s, [.unreachableState "C" "A"]) := by decide +kernel
  have honce : NamedOnce (fields (synonyms flip) (states cells)) := by
    constructor <;> decide
  have hsynonyms : Rearranged 2 (.mapping (synonyms flip))
      (.mapping (synonyms flip.reverse).reverse) := by
    refine .inr ⟨_, _, rfl, ⟨synonyms flip.reverse, ?_, (List.reverse_perm _).symm⟩, rfl⟩
    refine .cons ⟨rfl, .inr ⟨_, _, rfl, ⟨flip, ?_, (List.reverse_perm _).symm⟩, rfl⟩⟩ ?_
    · exact List.forall₂_same.2 fun _ _ => ⟨rfl, rfl⟩
    · exact .cons ⟨rfl, .refl _ _⟩ .nil
  have hstates : Rearranged 3 (.mapping (states cells)) (.mapping (states cells.reverse).reverse) := by
    refine .inr ⟨_, _, rfl, ⟨states cells.reverse, ?_, (List.reverse_perm _).symm⟩, rfl⟩
    refine .cons ⟨rfl, .inr ⟨_, _, rfl, ⟨cells, ?_, (List.reverse_perm _).symm⟩, rfl⟩⟩ ?_
    · exact List.forall₂_same.2 fun _ _ => ⟨rfl, .refl _ _⟩
    · exact .cons ⟨rfl, .refl _ _⟩ (.cons ⟨rfl, .refl _ _⟩ .nil)
  have hfields : FieldsRearranged (fields (synonyms flip) (states cells)) (remark ::
      (fields (synonyms flip.reverse).reverse (states cells.reverse).reverse).reverse) :=
    ⟨fields (synonyms flip.reverse).reverse (states cells.reverse).reverse,
      .cons ⟨rfl, rfl⟩ (.cons ⟨rfl, rfl⟩ (.cons ⟨rfl, hsynonyms⟩ (.cons ⟨rfl, hstates⟩ .nil))),
      (List.reverse_perm _).symm⟩
  have hread : ((read document).run []).1 = .ok s := by decide +kernel
  obtain ⟨hs', hresult, hwarnings⟩ := order_of_entries rfl hread honce hfields
  rw [hcheck] at hresult hwarnings
  exact ⟨hcheck, hs', hresult, hwarnings⟩

/-- Of two states of one name the last one counts. -/
example :
    let document (states : List (Value × Value)) := Value.mapping [(.string "blank", .string "_"),
      (.string "start state", .string "1"), (.string "table", .mapping states)]
    let states := [(Value.string "1", Value.null), (.number (.integer 1), .mapping [])]
    ((read (document states)).run []).1 ≠ ((read (document states.reverse)).run []).1 := by
  decide +kernel

end Document

end TuringTable
