/-!
# Finite maps in key order

A `SortedMap κ ν` is the list of its entries, in strictly increasing order of the keys. So a map
has one form, `insert` replaces (`get?_insert`), of a list of entries the last one with a key counts
(`get?_ofList`), and maps with the same answers are equal (`ext_get?`).
-/

namespace TuringTable

/-- A finite map: its entries, each key once, in increasing order. -/
structure SortedMap (κ ν : Type) [LT κ] where
  entries : List (κ × ν)
  sorted : entries.Pairwise (fun a b => a.1 < b.1)
deriving DecidableEq

namespace SortedMap

section Basic

variable {κ ν : Type} [LT κ]

instance : EmptyCollection (SortedMap κ ν) := ⟨⟨[], .nil⟩⟩

/-- The keys, in increasing order. -/
def keys (m : SortedMap κ ν) : List κ := m.entries.map (·.1)

def size (m : SortedMap κ ν) : Nat := m.entries.length

@[ext] theorem ext {m n : SortedMap κ ν} (h : m.entries = n.entries) : m = n := by
  cases m; cases n; cases h; rfl

@[simp] theorem entries_empty : (∅ : SortedMap κ ν).entries = [] := rfl

theorem keys_sorted (m : SortedMap κ ν) : m.keys.Pairwise (· < ·) :=
  List.pairwise_map.2 m.sorted

/-- The map with each value replaced by what its key and the value give. -/
def map {μ : Type} (f : κ → ν → μ) (m : SortedMap κ ν) : SortedMap κ μ :=
  ⟨m.entries.map fun e => (e.1, f e.1 e.2), List.pairwise_map.2 m.sorted⟩

/-- The entries whose keys satisfy `p`. -/
def filter (p : κ → Bool) (m : SortedMap κ ν) : SortedMap κ ν :=
  ⟨m.entries.filter fun e => p e.1, m.sorted.filter _⟩

variable [DecidableEq κ]

/-- What the map sends `k` to. -/
def get? (m : SortedMap κ ν) (k : κ) : Option ν := m.entries.lookup k

def contains (m : SortedMap κ ν) (k : κ) : Bool := (m.get? k).isSome

@[simp] theorem get?_empty (k : κ) : (∅ : SortedMap κ ν).get? k = none := rfl

theorem contains_iff_mem_keys (m : SortedMap κ ν) (k : κ) : m.contains k = true ↔ k ∈ m.keys := by
  rw [contains, get?, List.lookup_isSome_iff, keys, List.mem_map]
  constructor
  · rintro ⟨e, he, hk⟩
    exact ⟨e, he, (eq_of_beq hk).symm⟩
  · rintro ⟨e, he, rfl⟩
    exact ⟨e, he, beq_self_eq_true _⟩

omit [LT κ] in
theorem lookup_cons_eq_ite (k a : κ) (b : ν) (es : List (κ × ν)) :
    ((a, b) :: es).lookup k = if k = a then some b else es.lookup k := by
  rw [List.lookup_cons]
  by_cases h : k = a
  · simp [h]
  · rw [beq_false_of_ne h, if_neg h]

omit [LT κ] in
theorem lookup_map_const (v : ν) (k : κ) (ks : List κ) :
    (ks.map (·, v)).lookup k = if k ∈ ks then some v else none := by
  induction ks with
  | nil => rfl
  | cons a ks ih =>
    rw [List.map_cons, lookup_cons_eq_ite, ih]
    by_cases hk : k = a <;> simp [hk]

omit [LT κ] in
theorem lookup_map_pair {α : Type} (key : α → κ) (f : α → ν) (k : κ) (as : List α) :
    (as.map fun a => (key a, f a)).lookup k = (as.find? (key · = k)).map f := by
  induction as with
  | nil => rfl
  | cons a as ih =>
    rw [List.map_cons, lookup_cons_eq_ite, List.find?_cons, ih]
    by_cases hk : key a = k
    · simp [hk]
    · simp [hk, Ne.symm hk]

theorem get?_map {μ : Type} (f : κ → ν → μ) (m : SortedMap κ ν) (k : κ) :
    (m.map f).get? k = (m.get? k).map (f k) := by
  show (m.entries.map fun e => (e.1, f e.1 e.2)).lookup k = (m.entries.lookup k).map (f k)
  induction m.entries with
  | nil => rfl
  | cons e es ih =>
    rw [List.map_cons, lookup_cons_eq_ite, lookup_cons_eq_ite, ih]
    by_cases hk : k = e.1
    · rw [if_pos hk, if_pos hk, hk]
      rfl
    · rw [if_neg hk, if_neg hk]

theorem get?_filter (p : κ → Bool) (m : SortedMap κ ν) (k : κ) :
    (m.filter p).get? k = if p k then m.get? k else none := by
  show (m.entries.filter fun e => p e.1).lookup k = if p k then m.entries.lookup k else none
  induction m.entries with
  | nil => simp
  | cons e es ih =>
    obtain ⟨a, b⟩ := e
    rw [lookup_cons_eq_ite]
    cases hp : p a with
    | true =>
      rw [List.filter_cons_of_pos (by simp [hp]), lookup_cons_eq_ite, ih]
      by_cases hk : k = a
      · simp [hk, hp]
      · simp [hk]
    | false =>
      rw [List.filter_cons_of_neg (by simp [hp]), ih]
      by_cases hk : k = a
      · simp [hk, hp]
      · simp [hk]

omit [LT κ] in
theorem lookup_eq_some_iff_mem_of_nodup {k : κ} {v : ν} :
    ∀ {es : List (κ × ν)}, (es.map (·.1)).Nodup → (es.lookup k = some v ↔ (k, v) ∈ es)
  | [], _ => by simp
  | (a, b) :: es, h => by
    obtain ⟨ha, hd⟩ := List.nodup_cons.1 h
    rw [lookup_cons_eq_ite, List.mem_cons]
    by_cases hk : k = a
    · subst hk
      have hn : (k, v) ∉ es := fun hm => ha (List.mem_map.2 ⟨(k, v), hm, rfl⟩)
      simp [hn, eq_comm]
    · rw [if_neg hk, lookup_eq_some_iff_mem_of_nodup hd]
      simp [hk]

omit [LT κ] in
/-- If no key comes twice, the order of the entries is no matter. -/
theorem lookup_eq_of_perm {es fs : List (κ × ν)} (h : es.Perm fs) (hd : (es.map (·.1)).Nodup)
    (k : κ) : es.lookup k = fs.lookup k := by
  have hd' : (fs.map (·.1)).Nodup := (h.map _).nodup_iff.1 hd
  refine Option.ext fun v => ?_
  rw [lookup_eq_some_iff_mem_of_nodup hd, lookup_eq_some_iff_mem_of_nodup hd', h.mem_iff]

omit [LT κ] in
/-- If no key comes twice, an entry is the only one with its key. -/
theorem filter_key_of_nodup {k : κ} {v : ν} :
    ∀ {es : List (κ × ν)}, (es.map (·.1)).Nodup → (k, v) ∈ es →
      es.filter (fun e => e.1 = k) = [(k, v)]
  | (a, b) :: es, h, hm => by
    obtain ⟨ha, hd⟩ := List.nodup_cons.1 h
    rcases List.mem_cons.1 hm with he | hm
    · obtain ⟨rfl, rfl⟩ := Prod.ext_iff.1 he
      have hnil : es.filter (fun e => e.1 = k) = [] := by
        rw [List.filter_eq_nil_iff]
        intro e he hk
        exact ha (List.mem_map.2 ⟨e, he, of_decide_eq_true hk⟩)
      rw [List.filter_cons_of_pos (by simp), hnil]
    · have hak : a ≠ k := fun hak => ha (List.mem_map.2 ⟨(k, v), hm, hak.symm⟩)
      rw [List.filter_cons_of_neg (by simp [hak]), filter_key_of_nodup hd hm]

end Basic

section Insert

variable {κ ν : Type} [LT κ] [DecidableLT κ]

/-- Puts an entry in its place among entries in increasing order, over one with the same key. -/
def insertEntry (k : κ) (v : ν) : List (κ × ν) → List (κ × ν)
  | [] => [(k, v)]
  | e :: es =>
    if k < e.1 then (k, v) :: e :: es
    else if e.1 < k then e :: insertEntry k v es
    else (k, v) :: es

theorem mem_insertEntry {k : κ} {v : ν} {e : κ × ν} :
    ∀ {es : List (κ × ν)}, e ∈ insertEntry k v es → e = (k, v) ∨ e ∈ es
  | [], h => by simpa [insertEntry] using h
  | d :: es, h => by
    rw [insertEntry] at h
    split at h
    · simpa using h
    · split at h
      · rcases List.mem_cons.1 h with rfl | h
        · simp
        · rcases mem_insertEntry h with rfl | h <;> simp [*]
      · rcases List.mem_cons.1 h with rfl | h <;> simp [*]

variable [LE κ] [Std.IsLinearOrder κ] [Std.LawfulOrderLT κ]

theorem sorted_insertEntry (k : κ) (v : ν) :
    ∀ {es : List (κ × ν)}, es.Pairwise (fun a b => a.1 < b.1) →
      (insertEntry k v es).Pairwise (fun a b => a.1 < b.1)
  | [], _ => by simp [insertEntry]
  | d :: es, h => by
    have hd := List.pairwise_cons.1 h
    rw [insertEntry]
    split
    · rename_i hk
      refine List.pairwise_cons.2 ⟨fun e he => ?_, h⟩
      rcases List.mem_cons.1 he with rfl | he
      · exact hk
      · exact Std.lt_trans hk (hd.1 e he)
    · rename_i hk
      split
      · rename_i hk'
        refine List.pairwise_cons.2 ⟨fun e he => ?_, sorted_insertEntry k v hd.2⟩
        rcases mem_insertEntry he with rfl | he
        · exact hk'
        · exact hd.1 e he
      · rename_i hk'
        refine List.pairwise_cons.2 ⟨fun e he => ?_, hd.2⟩
        have : k = d.1 := Std.le_antisymm (Std.not_lt.1 hk') (Std.not_lt.1 hk)
        exact this ▸ hd.1 e he

/-- The map with `k` sent to `v`, whatever it was sent to before. -/
def insert (m : SortedMap κ ν) (k : κ) (v : ν) : SortedMap κ ν :=
  ⟨insertEntry k v m.entries, sorted_insertEntry k v m.sorted⟩

/-- The map of a list of entries; of two with the same key the later one counts. -/
def ofList (es : List (κ × ν)) : SortedMap κ ν :=
  es.foldl (fun m e => m.insert e.1 e.2) ∅

theorem lookup_insertEntry [DecidableEq κ] (k : κ) (v : ν) (k' : κ) :
    ∀ {es : List (κ × ν)}, es.Pairwise (fun a b => a.1 < b.1) →
      (insertEntry k v es).lookup k' = if k' = k then some v else es.lookup k'
  | [], _ => by simp [insertEntry, lookup_cons_eq_ite]
  | (a, b) :: es, h => by
    have hd := List.pairwise_cons.1 h
    rw [insertEntry]
    split
    · rw [lookup_cons_eq_ite]
    · rename_i hk
      split
      · rename_i hk'
        rw [lookup_cons_eq_ite, lookup_insertEntry k v k' hd.2, lookup_cons_eq_ite]
        by_cases hka : k' = a
        · have : k' ≠ k := fun h => Std.lt_irrefl (hka.symm.trans h ▸ hk' : k < k)
          simp [hka, hka ▸ this]
        · simp [hka]
      · rename_i hk'
        have : k = a := Std.le_antisymm (Std.not_lt.1 hk') (Std.not_lt.1 hk)
        subst this
        simp only [lookup_cons_eq_ite]
        split <;> rfl

theorem get?_insert [DecidableEq κ] (m : SortedMap κ ν) (k : κ) (v : ν) (k' : κ) :
    (m.insert k v).get? k' = if k' = k then some v else m.get? k' :=
  lookup_insertEntry k v k' m.sorted

omit [DecidableLT κ] [Std.IsLinearOrder κ] in
theorem lookup_eq_none_of_forall_lt [DecidableEq κ] {k : κ} :
    ∀ {es : List (κ × ν)}, (∀ e ∈ es, k < e.1) → es.lookup k = none
  | [], _ => rfl
  | (a, b) :: es, h => by
    have hne : k ≠ a := fun hka => Std.lt_irrefl (hka ▸ h (a, b) List.mem_cons_self : a < a)
    rw [lookup_cons_eq_ite, if_neg hne]
    exact lookup_eq_none_of_forall_lt fun e he => h e (List.mem_cons_of_mem _ he)

omit [DecidableLT κ] in
theorem entries_eq_of_lookup_eq [DecidableEq κ] :
    ∀ {es fs : List (κ × ν)}, es.Pairwise (fun a b => a.1 < b.1) →
      fs.Pairwise (fun a b => a.1 < b.1) → (∀ k, es.lookup k = fs.lookup k) → es = fs
  | [], [], _, _, _ => rfl
  | [], (c, d) :: fs, _, _, h => by simpa [lookup_cons_eq_ite] using h c
  | (a, b) :: es, [], _, _, h => by simpa [lookup_cons_eq_ite] using h a
  | (a, b) :: es, (c, d) :: fs, he, hf, h => by
    have he' := List.pairwise_cons.1 he
    have hf' := List.pairwise_cons.1 hf
    have hac : a = c := by
      apply Std.le_antisymm <;> apply Std.not_lt.1 <;> intro hlt
      · have hn : List.lookup c ((a, b) :: es) = none :=
          lookup_eq_none_of_forall_lt fun e hm => by
            rcases List.mem_cons.1 hm with rfl | hm
            · exact hlt
            · exact Std.lt_trans hlt (he'.1 e hm)
        have hc := h c
        rw [hn] at hc
        simp at hc
      · have hn : List.lookup a ((c, d) :: fs) = none :=
          lookup_eq_none_of_forall_lt fun e hm => by
            rcases List.mem_cons.1 hm with rfl | hm
            · exact hlt
            · exact Std.lt_trans hlt (hf'.1 e hm)
        have ha := h a
        rw [hn] at ha
        simp at ha
    subst hac
    have hbd : b = d := by simpa [lookup_cons_eq_ite] using h a
    subst hbd
    have htail : es = fs := by
      refine entries_eq_of_lookup_eq he'.2 hf'.2 fun k => ?_
      by_cases hk : k = a
      · subst hk
        rw [lookup_eq_none_of_forall_lt he'.1, lookup_eq_none_of_forall_lt hf'.1]
      · simpa [lookup_cons_eq_ite, hk] using h k
    rw [htail]

omit [DecidableLT κ] in
/-- Maps that send every key to the same are the same. -/
theorem ext_get? [DecidableEq κ] {m n : SortedMap κ ν} (h : ∀ k, m.get? k = n.get? k) : m = n :=
  SortedMap.ext (entries_eq_of_lookup_eq m.sorted n.sorted h)

omit [DecidableLT κ] [Std.IsLinearOrder κ] in
theorem nodup_keys (m : SortedMap κ ν) : (m.entries.map (·.1)).Nodup :=
  List.Pairwise.imp (fun {a b} (hlt : a < b) (heq : a = b) => Std.lt_irrefl (heq ▸ hlt : b < b))
    m.keys_sorted

omit [DecidableLT κ] [Std.IsLinearOrder κ] in
theorem get?_eq_some_iff_mem [DecidableEq κ] (m : SortedMap κ ν) {k : κ} {v : ν} :
    m.get? k = some v ↔ (k, v) ∈ m.entries :=
  lookup_eq_some_iff_mem_of_nodup m.nodup_keys

theorem get?_foldl_insert [DecidableEq κ] (es : List (κ × ν)) (m : SortedMap κ ν) (k : κ) :
    (es.foldl (fun m e => m.insert e.1 e.2) m).get? k = (es.reverse.lookup k).or (m.get? k) := by
  induction es generalizing m with
  | nil => rfl
  | cons e es ih =>
    rw [List.foldl_cons, ih, List.reverse_cons, List.lookup_append, get?_insert,
      lookup_cons_eq_ite, Option.or_assoc]
    split <;> rfl

/-- Of the entries of a list with one key the last one counts. -/
theorem get?_ofList [DecidableEq κ] (es : List (κ × ν)) (k : κ) :
    (ofList es).get? k = es.reverse.lookup k := by
  rw [ofList, get?_foldl_insert, get?_empty, Option.or_none]

theorem ofList_concat (es : List (κ × ν)) (k : κ) (v : ν) :
    ofList (es ++ [(k, v)]) = (ofList es).insert k v := by
  rw [ofList, List.foldl_append]
  rfl

theorem contains_ofList_iff [DecidableEq κ] {es : List (κ × ν)} {k : κ} :
    (ofList es).contains k = true ↔ k ∈ es.map (·.1) := by
  rw [contains, get?_ofList, List.lookup_isSome_iff]
  simp only [List.mem_reverse, beq_iff_eq, List.mem_map, eq_comm (a := k)]

/-- Of a map's entries in any order the map can be made again. -/
theorem ofList_eq_of_perm [DecidableEq κ] {m : SortedMap κ ν} {es : List (κ × ν)}
    (h : es.Perm m.entries) : ofList es = m := by
  have hp : m.entries.Perm es.reverse := (h.symm.trans (List.reverse_perm es).symm)
  refine ext_get? fun k => ?_
  rw [get?_ofList, ← lookup_eq_of_perm hp m.nodup_keys, get?]

theorem eq_ofList_iff [DecidableEq κ] {m : SortedMap κ ν} {es : List (κ × ν)} :
    m = ofList es ↔ ∀ k, m.get? k = es.reverse.lookup k :=
  ⟨fun h k => h ▸ get?_ofList es k, fun h => ext_get? fun k => (h k).trans (get?_ofList es k).symm⟩

section MapKeys
variable {κ' ν' : Type} [LT κ'] [DecidableLT κ'] [LE κ'] [Std.IsLinearOrder κ']
  [Std.LawfulOrderLT κ']

/-- The map with other keys and other values, in the order of the new keys. -/
def mapKeys (f : κ → κ') (g : ν → ν') (m : SortedMap κ ν) : SortedMap κ' ν' :=
  ofList (m.entries.map fun e => (f e.1, g e.2))

variable [DecidableEq κ] [DecidableEq κ'] {f : κ → κ'}

omit [DecidableLT κ] [Std.IsLinearOrder κ] in
/-- If no two keys become one, the entries are those that there were. -/
theorem get?_mapKeys_eq_some_iff (hf : Function.Injective f) {g : ν → ν'} {m : SortedMap κ ν}
    {k' : κ'} {v' : ν'} :
    (m.mapKeys f g).get? k' = some v' ↔ ∃ k v, m.get? k = some v ∧ f k = k' ∧ g v = v' := by
  have hd : ((m.entries.map fun e => (f e.1, g e.2)).reverse.map (·.1)).Nodup := by
    rw [((List.reverse_perm _).map _).nodup_iff, List.map_map]
    refine List.pairwise_map.2 ((List.pairwise_map.1 m.nodup_keys).imp fun hne heq => ?_)
    exact hne (hf heq)
  rw [mapKeys, get?_ofList, lookup_eq_some_iff_mem_of_nodup hd, List.mem_reverse, List.mem_map]
  simp only [Prod.exists, Prod.mk.injEq, get?_eq_some_iff_mem]

omit [DecidableLT κ] [Std.IsLinearOrder κ] in
theorem get?_mapKeys (hf : Function.Injective f) (g : ν → ν') (m : SortedMap κ ν) (k : κ) :
    (m.mapKeys f g).get? (f k) = (m.get? k).map g := by
  refine Option.ext fun v' => ?_
  rw [get?_mapKeys_eq_some_iff hf, Option.map_eq_some_iff]
  constructor
  · rintro ⟨k', v, hv, hk, rfl⟩
    exact ⟨v, hf hk ▸ hv, rfl⟩
  · rintro ⟨v, hv, rfl⟩
    exact ⟨k, v, hv, rfl, rfl⟩

end MapKeys

end Insert

end SortedMap

end TuringTable
