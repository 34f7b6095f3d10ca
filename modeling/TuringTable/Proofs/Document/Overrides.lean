import Mathlib.Data.List.Dedup
import TuringTable.Proofs.Document.Acceptance

/-!
# Declarations that override others

Keys that are different values can stand for one state or for one symbol. A table is read entry by
entry, and what an entry declares replaces what was declared before under the same name; so do the
keys of an entry among themselves. `said` is what is said at each item in view of those before it.
A loop whose turns add their items to a map and say of each what `said` says, does so as a whole
(`Checked.run_foldlM`). That rule is used for the symbols of a key, for the keys of an entry and for
the entries of the table. In the end the last declaration counts, and whatever was replaced on the
way was announced (`last_declaration_counts`).
-/

namespace TuringTable

open Yaml (Value)

/-! ### What is said at each item -/

section said
variable {κ ι : Type}

/-- What is said at each item in view of the items before it. -/
def said (say : List κ → κ → List Warning) : List κ → List κ → List Warning
  | _, [] => []
  | earlier, k :: ks => say earlier k ++ said say (earlier ++ [k]) ks

theorem said_append (say : List κ → κ → List Warning) (earlier ks ks' : List κ) :
    said say earlier (ks ++ ks') = said say earlier ks ++ said say (earlier ++ ks) ks' := by
  induction ks generalizing earlier with
  | nil => simp [said]
  | cons k ks ih =>
    rw [List.cons_append, said, said, ih, List.append_assoc, List.append_assoc,
      List.singleton_append]

theorem filter_said (p : Warning → Bool) (say : List κ → κ → List Warning) (earlier ks : List κ) :
    (said say earlier ks).filter p =
      said (fun earlier k => (say earlier k).filter p) earlier ks := by
  induction ks generalizing earlier with
  | nil => rfl
  | cons k ks ih => rw [said, said, List.filter_append, ih]

theorem said_eq_flatMap (say : κ → List Warning) (earlier ks : List κ) :
    said (fun _ => say) earlier ks = ks.flatMap say := by
  induction ks generalizing earlier with
  | nil => rfl
  | cons k ks ih => rw [said, ih, List.flatMap_cons]

variable [DecidableEq ι]

/-- A warning at an item if one before it had the same key. -/
def again (key : κ → ι) (w : ι → Warning) (earlier : List κ) (k : κ) : List Warning :=
  if key k ∈ earlier.map key then [w (key k)] else []

theorem length_again (key : κ → ι) (w : ι → Warning) (earlier : List κ) (k : κ) :
    (again key w earlier k).length + ((earlier ++ [k]).map key).dedup.length =
      1 + (earlier.map key).dedup.length := by
  rw [again, List.map_append, List.map_singleton,
    (List.perm_append_singleton (key k) (earlier.map key)).dedup.length_eq]
  -- an item is warned of or has a new key, and never both
  split
  · rw [List.dedup_cons_of_mem ‹_›, List.length_singleton]
  · rw [List.dedup_cons_of_notMem ‹_›, List.length_nil, List.length_cons]
    omega

theorem length_said_again_add (key : κ → ι) (w : ι → Warning) (earlier ks : List κ) :
    (said (again key w) earlier ks).length + ((earlier ++ ks).map key).dedup.length =
      ks.length + (earlier.map key).dedup.length := by
  induction ks generalizing earlier with
  | nil => simp [said]
  | cons k ks ih =>
    have hhead := length_again key w earlier k
    have hrest := ih (earlier ++ [k])
    rw [List.append_assoc, List.singleton_append] at hrest
    rw [said, List.length_append, List.length_cons]
    omega

/-- There are as many warnings as there are items beyond the different keys. -/
theorem length_said_again (key : κ → ι) (w : ι → Warning) (ks : List κ) :
    (said (again key w) [] ks).length = ks.length - (ks.map key).dedup.length := by
  have h := length_said_again_add key w [] ks
  rw [List.nil_append, List.map_nil, List.dedup_nil, List.length_nil] at h
  omega

theorem exists_of_mem_said_again {key : κ → ι} {w : ι → Warning} {earlier ks : List κ}
    {x : Warning} (hx : x ∈ said (again key w) earlier ks) : ∃ k, x = w (key k) := by
  induction ks generalizing earlier with
  | nil => cases hx
  | cons k ks ih =>
    rw [said, List.mem_append, again] at hx
    rcases hx with hx | hx
    · split at hx
      · exact ⟨k, List.mem_singleton.1 hx⟩
      · cases hx
    · exact ih hx

end said

/-- Where each turn of a loop adds the items of a block to those before it, and says of each what
`said` says, the loop adds the blocks one after another and says the same of all items. -/
theorem Checked.run_foldlM {α β γ κ : Type} {R : α → γ → Prop} (block : γ → List κ)
    {say : List κ → κ → List Warning} (f : List κ → β) {turn : β → α → Checked β}
    (h : ∀ earlier e k ws, R e k → (turn (f earlier) e).run ws =
      (.ok (f (earlier ++ block k)), (said say earlier (block k)).reverse ++ ws))
    {es : List α} {ks : List γ} (hes : List.Forall₂ R es ks) (earlier : List κ)
    (ws : List Warning) :
    (es.foldlM turn (f earlier)).run ws =
      (.ok (f (earlier ++ ks.flatMap block)),
        (said say earlier (ks.flatMap block)).reverse ++ ws) := by
  induction hes generalizing earlier ws with
  | nil =>
    rw [List.flatMap_nil, List.append_nil]
    rfl
  | cons hk hes ih =>
    rw [List.foldlM_cons, run_bind, h _ _ _ _ hk]
    dsimp only
    -- the warnings are kept last one first, so those of the later blocks stand in front
    rw [ih, List.flatMap_cons, said_append, List.reverse_append, List.append_assoc,
      List.append_assoc]

/-! ### Declarations -/

/-- What an entry of a table declares: a state, and the symbols of each of its keys with the
instruction; no keys at all for a halting state. -/
structure Declaration where
  state : String
  keys : Option (List (List Char × Instruction))

namespace Declaration

/-- The symbols that are listed, each with its instruction, in the order they are listed. -/
def cells (d : Declaration) : List (Char × Instruction) :=
  (d.keys.getD []).flatMap fun k => k.1.map (·, k.2)

def symbols (d : Declaration) : List Char := d.cells.map (·.1)

/-- The entry of the state in a table. -/
def entry (d : Declaration) : Option Row := d.keys.map fun _ => .ofList d.cells

/-- A warning at each symbol that was listed before. -/
def warnings (d : Declaration) : List Warning := said (again (·.1) .repeatedSymbol) [] d.cells

theorem get?_ofList_cells {d : Declaration} {ks : List (List Char × Instruction)}
    (hd : d.keys = some ks) (c : Char) :
    (SortedMap.ofList d.cells : Row).get? c = (ks.reverse.find? (c ∈ ·.1)).map (·.2) := by
  rw [SortedMap.get?_ofList, cells, hd, Option.getD_some, List.reverse_flatMap]
  induction ks.reverse with
  | nil => rfl
  | cons k ks ih =>
    rw [List.flatMap_cons, List.lookup_append, ih, Function.comp_apply, ← List.map_reverse,
      SortedMap.lookup_map_const, List.find?_cons]
    by_cases hc : c ∈ k.1 <;> simp [hc]

theorem length_warnings (d : Declaration) :
    d.warnings.length = d.symbols.length - d.symbols.dedup.length := by
  rw [warnings, length_said_again, symbols, List.length_map]

end Declaration

/-- The table of the declarations: each is put in over an earlier one of the same state. -/
def declared (ds : List Declaration) : Table := .ofList (ds.map fun d => (d.state, d.entry))

theorem get?_declared (ds : List Declaration) (q : String) :
    (declared ds).get? q = (ds.reverse.find? (·.state = q)).map (·.entry) := by
  rw [declared, SortedMap.get?_ofList, ← List.map_reverse, SortedMap.lookup_map_pair]

/-- The warnings of a table: at each entry those of its cells, and then one if the state was
declared before. -/
def announcements (ds : List Declaration) : List Warning :=
  said (fun earlier d => d.warnings ++ again (·.state) .repeatedState earlier d) [] ds

theorem length_repeatedStates (ds : List Declaration) :
    ((announcements ds).filter (· matches .repeatedState _)).length =
      ds.length - (ds.map (·.state)).dedup.length := by
  have hcells (d : Declaration) : d.warnings.filter (· matches .repeatedState _) = [] := by
    rw [List.filter_eq_nil_iff]
    intro w hw
    obtain ⟨k, rfl⟩ := exists_of_mem_said_again hw
    exact Bool.false_ne_true
  have hstate (earlier : List Declaration) (d : Declaration) :
      (again (·.state) .repeatedState earlier d).filter (· matches .repeatedState _) =
        again (·.state) .repeatedState earlier d := by
    rw [again]
    split <;> rfl
  rw [announcements, filter_said]
  simp only [List.filter_append, hcells, hstate, List.nil_append]
  exact length_said_again _ _ ds

theorem filter_repeatedSymbols (ds : List Declaration) :
    (announcements ds).filter (· matches .repeatedSymbol _) = ds.flatMap (·.warnings) := by
  have hcells (d : Declaration) :
      d.warnings.filter (· matches .repeatedSymbol _) = d.warnings := by
    rw [List.filter_eq_self]
    intro w hw
    obtain ⟨k, rfl⟩ := exists_of_mem_said_again hw
    rfl
  have hstate (earlier : List Declaration) (d : Declaration) :
      (again (·.state) .repeatedState earlier d).filter (· matches .repeatedSymbol _) = [] := by
    rw [again]
    split <;> rfl
  rw [announcements, filter_said]
  simp only [List.filter_append, hcells, hstate, List.append_nil, said_eq_flatMap]

namespace Grammar

/-- The entry has the right form and is the declaration. -/
inductive Declares (names : List (String × Instruction)) : Value × Value → Declaration → Prop where
  | halting {key v : Value} {q : String} : Scalar key q → Under v .null →
      Declares names (key, v) ⟨q, none⟩
  | row {key v : Value} {q : String} {cells : Entries} {ks : List (List Char × Instruction)} :
      Scalar key q → Under v (.mapping cells) →
      List.Forall₂ (fun e k => Key e.1 k.1 ∧ Cell names e.2 k.2) cells ks →
      Declares names (key, v) ⟨q, some ks⟩

end Grammar

namespace Document
open Grammar

variable {names : List (String × Instruction)}

theorem run_addSymbol (i : Instruction) (earlier : List (Char × Instruction)) (c : Char)
    (ws : List Warning) :
    (addSymbol i (.ofList earlier) c).run ws =
      (.ok (.ofList (earlier ++ [(c, i)])),
        (again (·.1) .repeatedSymbol earlier (c, i)).reverse ++ ws) := by
  rw [addSymbol, again, SortedMap.ofList_concat]
  simp only [SortedMap.contains_ofList_iff]
  split <;> rfl

theorem run_addCell {e : Value × Value} {k : List Char × Instruction} (hkey : Key e.1 k.1)
    (hcell : Cell names e.2 k.2) (earlier : List (Char × Instruction)) (ws : List Warning) :
    (addCell names.reverse (.ofList earlier) e.1 e.2).run ws =
      (.ok (.ofList (earlier ++ k.1.map (·, k.2))),
        (said (again (·.1) .repeatedSymbol) earlier (k.1.map (·, k.2))).reverse ++ ws) := by
  rw [addCell, readSymbols_iff.2 hkey, readInstruction_iff.2 hcell, List.map_eq_flatMap]
  -- each symbol is a block of its own
  refine Checked.run_foldlM (R := (· = ·)) _ SortedMap.ofList ?_ (List.forall₂_eq_eq_eq ▸ rfl)
    earlier ws
  rintro earlier c _ ws rfl
  rw [run_addSymbol, said, said, List.append_nil]

theorem run_readRow {cells : Entries} {ks : List (List Char × Instruction)}
    (h : List.Forall₂ (fun e k => Key e.1 k.1 ∧ Cell names e.2 k.2) cells ks) (ws : List Warning) :
    (readRow names.reverse cells).run ws =
      (.ok (.ofList (ks.flatMap fun k => k.1.map (·, k.2))),
        (said (again (·.1) .repeatedSymbol) [] (ks.flatMap fun k => k.1.map (·, k.2))).reverse ++
          ws) :=
  Checked.run_foldlM _ SortedMap.ofList (fun earlier _ _ ws hk =>
    run_addCell hk.1 hk.2 earlier ws) h [] ws

theorem run_readEntry {e : Value × Value} {d : Declaration} (h : Declares names e d)
    (ws : List Warning) :
    (readEntry names.reverse e.2).run ws = (.ok d.entry, d.warnings.reverse ++ ws) := by
  obtain ⟨-, hv⟩ | ⟨-, hv, hcells⟩ := h
  · rw [readEntry, under_iff.1 hv]
    rfl
  · rw [readEntry, under_iff.1 hv]
    dsimp only
    rw [map_eq_pure_bind, Checked.run_bind, run_readRow hcells]
    rfl

theorem readName_of_declares {e : Value × Value} {d : Declaration} (h : Declares names e d) :
    readName e.1 = .ok d.state := by
  obtain ⟨hkey, -⟩ | ⟨hkey, -, -⟩ := h <;> exact readName_iff.2 hkey

theorem run_addState {e : Value × Value} {d : Declaration} (h : Declares names e d)
    (earlier : List Declaration) (ws : List Warning) :
    (addState names.reverse (declared earlier) e.1 e.2).run ws =
      (.ok (declared (earlier ++ [d])),
        (d.warnings ++ again (·.state) .repeatedState earlier d).reverse ++ ws) := by
  rw [addState, readName_of_declares h, Checked.ofExcept_ok, pure_bind, Checked.run_bind,
    Checked.run_locate_of_ok _ (run_readEntry h ws), declared, declared, List.map_append,
    List.map_singleton, SortedMap.ofList_concat, again, List.reverse_append, List.append_assoc]
  simp only [SortedMap.contains_ofList_iff, List.map_map, Function.comp_def]
  split <;> rfl

theorem readTable_of_mapping {synonyms : Document.Synonyms} {v : Value} {es : Entries}
    (hv : Under v (.mapping es)) : readTable synonyms (some v) =
      es.foldlM (fun table e => addState synonyms table e.1 e.2) ∅ := by
  rw [readTable.eq_def]
  split
  · contradiction
  · rename_i hnull
    cases hnull
    cases under_iff.1 hv
  · rename_i hsome
    cases hsome
    rw [entries?_iff.2 hv]
    rfl

theorem run_readTable {v : Value} {es : Entries} {ds : List Declaration}
    (hv : Under v (.mapping es)) (h : List.Forall₂ (Declares names) es ds) (ws : List Warning) :
    (readTable names.reverse (some v)).run ws =
      (.ok (declared ds), (announcements ds).reverse ++ ws) := by
  rw [readTable_of_mapping hv, announcements, ← ds.flatMap_singleton']
  refine Checked.run_foldlM ([·]) declared ?_ h [] ws
  intro earlier e d ws hd
  rw [run_addState hd, said, said, List.append_nil]

/-- A table is read only if every entry has the right form, also one that is replaced later. -/
theorem forall_declares_of_readTable {v : Value} {es : Entries} {ws : List Warning} {table : Table}
    (hv : Under v (.mapping es))
    (h : ((readTable names.reverse (some v)).run ws).1 = .ok table) :
    ∀ e ∈ es, ∃ d, Declares names e d := by
  rw [readTable_of_mapping hv, Checked.Gives.foldlM
    (fun table e => addState_gives names table e.1 e.2)] at h
  obtain ⟨ks, hks, -⟩ := h
  intro e he
  obtain ⟨⟨q, entry⟩, -, hkey, hstate⟩ := exists_mem_of_forall₂ hks he
  obtain hnull | ⟨hmapping, cells, hcells, -⟩ := hstate
  · exact ⟨_, .halting hkey hnull⟩
  · exact ⟨_, .row hkey hmapping hcells⟩

/-- The last declaration counts, and what it replaces was announced. A table is read only if every
entry has the right form, also one that is replaced later. If it is read, a state has what the last
entry for it gives, as a whole, and there are no other states; within an entry a symbol has the
instruction of the last key that names it. The warnings come in the order of the entries: for each
symbol that was listed before in the same entry, and after those of an entry for its state if it was
declared before. So there are as many as symbols are listed beyond the different ones of an entry,
and as states are declared beyond the different ones. -/
theorem last_declaration_counts (names : List (String × Instruction)) {v : Value} {es : Entries}
    (hv : Under v (.mapping es)) (ws : List Warning) :
    ((∃ table, ((readTable names.reverse (some v)).run ws).1 = .ok table) ↔
        ∀ e ∈ es, ∃ d, Declares names e d) ∧
      ∀ table ws', (readTable names.reverse (some v)).run ws = (.ok table, ws') →
        ∃ ds, List.Forall₂ (Declares names) es ds ∧
          (∀ q, table.get? q = (ds.reverse.find? (·.state = q)).map (·.entry)) ∧
          (∀ d ∈ ds, (d.keys = none → d.entry = none) ∧
            ∀ ks, d.keys = some ks → ∃ row, d.entry = some row ∧
              ∀ c, row.get? c = (ks.reverse.find? (c ∈ ·.1)).map (·.2)) ∧
          ws' = (announcements ds).reverse ++ ws ∧
          (∀ d ∈ ds, d.warnings.length = d.symbols.length - d.symbols.dedup.length) ∧
          (announcements ds).filter (· matches .repeatedSymbol _) = ds.flatMap (·.warnings) ∧
          ((announcements ds).filter (· matches .repeatedState _)).length =
            ds.length - (ds.map (·.state)).dedup.length := by
  constructor
  · constructor
    · rintro ⟨table, h⟩
      exact forall_declares_of_readTable hv h
    · intro h
      obtain ⟨ds, hds⟩ := exists_forall₂_iff.2 h
      exact ⟨_, congrArg Prod.fst (run_readTable hv hds ws)⟩
  · intro table ws' hrun
    obtain ⟨ds, hds⟩ := exists_forall₂_iff.2
      (forall_declares_of_readTable hv (congrArg Prod.fst hrun))
    obtain ⟨hok, rfl⟩ := Prod.ext_iff.1 (hrun.symm.trans (run_readTable hv hds ws))
    cases Except.ok.inj hok
    refine ⟨ds, hds, get?_declared ds, fun d _ => ⟨fun hd => ?_, fun ks hd => ?_⟩, rfl,
      fun d _ => d.length_warnings, filter_repeatedSymbols ds, length_repeatedStates ds⟩
    · rw [Declaration.entry, hd, Option.map_none]
    · exact ⟨_, by rw [Declaration.entry, hd, Option.map_some], d.get?_ofList_cells hd⟩

/-- The number 1 and the text "1" are two keys for one state. The second entry declares it halting
and replaces the cells of the first, in which 'a' is listed by two keys and 'b' by two keys, by the
last one twice. With an entry of the wrong form for the same state in front, nothing is read. -/
theorem last_declaration_counts_of_collision :
    let cells : Entries := [(.string "a", .string "L"), (.string "a,b", .string "R"),
      (.sequence [.string "b", .string "b"], .string "L")]
    let es : Entries := [(.number (.integer 1), .mapping cells), (.string "1", .null)]
    let bad : Value × Value := (.string "1", .string "x")
    let warnings : List Warning :=
      [.repeatedSymbol 'a', .repeatedSymbol 'b', .repeatedSymbol 'b', .repeatedState "1"]
    (readTable [] (some (.mapping es))).run [] = (.ok (.ofList [("1", none)]), warnings.reverse) ∧
      (∃ ds, List.Forall₂ (Declares []) es ds ∧ announcements ds = warnings ∧
        (ds.reverse.find? (·.state = "1")).map (·.entry) = some none ∧
        ds.flatMap (·.warnings) = warnings.take 3 ∧
        ds.length - (ds.map (·.state)).dedup.length = 1) ∧
      ∀ table, ((readTable [] (some (.mapping (bad :: es)))).run []).1 ≠ .ok table := by
  intro cells es bad warnings
  have hrun : (readTable [] (some (.mapping es))).run [] =
      (.ok (.ofList [("1", none)]), warnings.reverse) := rfl
  obtain ⟨-, hlast⟩ := last_declaration_counts [] (v := .mapping es) (.bare nofun) []
  obtain ⟨ds, hds, hget, -, hws, -, hsymbols, hstates⟩ := hlast _ _ hrun
  have hwarnings : announcements ds = warnings := by
    rw [List.append_nil] at hws
    exact (List.reverse_inj.1 hws).symm
  rw [hwarnings] at hsymbols hstates
  refine ⟨hrun, ⟨ds, hds, hwarnings, (hget "1").symm.trans rfl, hsymbols.symm.trans rfl,
    hstates.symm.trans rfl⟩, fun table htable => ?_⟩
  have hforms := (last_declaration_counts [] (v := .mapping (bad :: es)) (.bare nofun) []).1
  obtain ⟨d, hd⟩ : ∃ d, Declares [] (.string "1", .string "x") d :=
    hforms.1 ⟨table, htable⟩ bad List.mem_cons_self
  obtain ⟨-, hnull⟩ | ⟨-, hmapping, -⟩ := hd
  · cases hnull
  · cases hmapping

end Document

end TuringTable
