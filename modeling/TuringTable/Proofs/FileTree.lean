import Mathlib.Data.List.TakeWhile
import TuringTable.FileTree

/-!
# Names and paths

A path is joined with a name of its own at its end: what the joined path leads to is found in the
directory under that name (`find_join`), and the name is the last one of the path (`fileName_join`).
The extension of a name is what comes after its last point, if anything comes before that point
(`splitExtension_eq_iff`).
-/

namespace TuringTable.FileTree

/-- A name that an entry of a directory may have. -/
structure IsName (name : String) : Prop where
  ne_empty : name ≠ ""
  ne_here : name ≠ "."
  ne_up : name ≠ ".."
  no_slash : '/' ∉ name.toList

/-! ### Paths -/

theorem names_of_isName {name : String} (h : IsName name) : names name = [name] := by
  rw [names, List.splitOn_eq_singleton h.no_slash, List.map_singleton, String.ofList_toList]

theorem names_slash (a b : String) : names (a ++ "/" ++ b) = names a ++ names b := by
  have hlist : (a ++ "/" ++ b).toList = a.toList ++ '/' :: b.toList := by
    rw [String.toList_append, String.toList_append, List.append_assoc]
    rfl
  rw [names, hlist, List.splitOn_append_cons_self, List.map_append]
  rfl

theorem exists_of_endsWith_slash {path : String} (h : path.endsWith "/" = true) :
    ∃ d, path = d ++ "/" := by
  rw [String.endsWith_eq_endsWith_toSlice, String.Slice.endsWith_string_iff, String.copy_toSlice] at h
  obtain ⟨cs, hcs⟩ := h
  refine ⟨String.ofList cs, String.toList_inj.1 ?_⟩
  rw [String.toList_append, String.toList_ofList, hcs]

/-- Between a directory and a name in it there is one slash, whether or not the directory has it at
its end. -/
theorem join_cases {directory : String} (hd : directory ≠ "") (name : String) :
    (∃ d, directory = d ++ "/" ∧ join directory name = d ++ "/" ++ name) ∨
      join directory name = directory ++ "/" ++ name := by
  by_cases hslash : directory.endsWith "/" = true
  · obtain ⟨d, rfl⟩ := exists_of_endsWith_slash hslash
    exact .inl ⟨d, rfl, if_pos (.inr hslash)⟩
  · exact .inr (if_neg (not_or.2 ⟨hd, hslash⟩))

theorem exists_join_eq {directory : String} (hd : directory ≠ "") (name : String) :
    ∃ rest, join directory name = directory ++ rest := by
  obtain ⟨d, rfl, hjoin⟩ | hjoin := join_cases hd name
  · exact ⟨name, hjoin⟩
  · exact ⟨"/" ++ name, by rw [hjoin, String.append_assoc]⟩

theorem startsWith_append {path : String} (hp : path ≠ "") (rest : String) :
    (path ++ rest).startsWith "/" = path.startsWith "/" := by
  rw [Bool.eq_iff_iff, String.startsWith_string_iff, String.startsWith_string_iff,
    String.toList_append]
  have hslash : "/".toList = ['/'] := rfl
  obtain ⟨c, cs, hcs⟩ := List.exists_cons_of_ne_nil (mt String.toList_eq_nil_iff.1 hp)
  rw [hslash, hcs, List.cons_append, List.cons_prefix_cons, List.cons_prefix_cons]
  simp only [List.nil_prefix]

/-! ### Following a path -/

/-- The walk of a path from the root of a tree. -/
def walk (t : FileTree) (path : String) : Except AccessFault Spot :=
  (names path).foldlM Spot.enter ⟨[], if path.startsWith "/" then empty else t⟩

theorem find_eq_walk {path : String} (hp : path ≠ "") (t : FileTree) :
    t.find path = (t.walk path).map (·.here) := if_neg hp

theorem enter_empty {s s' : Spot} (h : s.enter "" = .ok s') : s' = s := by
  rw [Spot.enter] at h
  split at h
  · cases h
  · cases h
    rfl

theorem enter_isName {s : Spot} {entries : List (String × FileTree)} {name : String}
    (hs : s.here = directory entries) (hn : IsName name) {t : FileTree}
    (ht : entries.lookup name = some t) : s.enter name = .ok ⟨s.here :: s.above, t⟩ := by
  rw [Spot.enter, hs]
  simp only
  rw [if_neg (not_or.2 ⟨hn.ne_empty, hn.ne_here⟩), if_neg hn.ne_up, ht]

/-- A name joined to a path that leads somewhere is one more step. -/
theorem walk_join {t : FileTree} {path : String} {s : Spot} (hp : path ≠ "")
    (hwalk : t.walk path = .ok s) {name : String} (hn : IsName name) :
    t.walk (join path name) = s.enter name := by
  obtain ⟨rest, hrest⟩ := exists_join_eq hp name
  rw [walk, hrest, startsWith_append hp, ← hrest]
  rw [walk] at hwalk
  obtain ⟨d, rfl, hjoin⟩ | hjoin := join_cases hp name
  · -- the slash at the end has led nowhere
    have hempty : names (d ++ "/") = names d ++ [""] := by
      rw [← String.append_empty (s := d ++ "/"), names_slash]
      rfl
    rw [hempty, List.foldlM_append] at hwalk
    rw [hjoin, names_slash, names_of_isName hn, List.foldlM_append]
    cases hd : (names d).foldlM Spot.enter ⟨[], if (d ++ "/").startsWith "/" then empty else t⟩ with
    | error f =>
      rw [hd] at hwalk
      cases hwalk
    | ok s' =>
      rw [hd] at hwalk
      have hstay : s'.enter "" = .ok s := by rwa [← bind_pure (s'.enter "")]
      rw [enter_empty hstay]
      exact bind_pure (s'.enter name)
  · rw [hjoin, names_slash, names_of_isName hn, List.foldlM_append, hwalk]
    exact bind_pure (s.enter name)

theorem list_eq_ok_iff {t : FileTree} {path : String} {entries : List (String × FileTree)} :
    t.list path = .ok entries ↔ t.find path = .ok (directory entries) := by
  rw [list]
  cases t.find path with
  | error f => exact iff_of_false nofun nofun
  | ok t' =>
    cases t' with
    | file content => exact iff_of_false nofun nofun
    | directory es => exact ⟨fun h => by cases h; rfl, fun h => by cases h; rfl⟩

theorem read_eq_ok_iff {t : FileTree} {path : String} {content : ByteArray} :
    t.read path = .ok content ↔ t.find path = .ok (file content) := by
  rw [read]
  cases t.find path with
  | error f => exact iff_of_false nofun nofun
  | ok t' =>
    cases t' with
    | directory es => exact iff_of_false nofun nofun
    | file c => exact ⟨fun h => by cases h; rfl, fun h => by cases h; rfl⟩

theorem ne_empty_of_list_eq_ok {t : FileTree} {path : String} {entries : List (String × FileTree)}
    (h : t.list path = .ok entries) : path ≠ "" := by
  rintro rfl
  cases h

theorem find_join {t : FileTree} {path : String} {entries : List (String × FileTree)}
    (h : t.list path = .ok entries) {name : String} (hn : IsName name) {t' : FileTree}
    (ht : entries.lookup name = some t') : t.find (join path name) = .ok t' := by
  have hp : path ≠ "" := ne_empty_of_list_eq_ok h
  have hjoin : join path name ≠ "" := by
    obtain ⟨rest, hrest⟩ := exists_join_eq hp name
    rw [hrest]
    exact fun he => hp (String.append_eq_empty_iff.1 he).1
  have hfind := list_eq_ok_iff.1 h
  rw [find_eq_walk hp] at hfind
  cases hwalk : t.walk path with
  | error f =>
    rw [hwalk] at hfind
    cases hfind
  | ok s =>
    rw [hwalk] at hfind
    have hs : s.here = directory entries := Except.ok.inj hfind
    rw [find_eq_walk hjoin, walk_join hp hwalk hn, enter_isName hs hn ht]
    rfl

theorem fileName_join {directory name : String} (hd : directory ≠ "") (hn : IsName name) :
    fileName (join directory name) = name := by
  obtain ⟨d, rfl, hjoin⟩ | hjoin := join_cases hd name
  · rw [fileName, hjoin, names_slash, names_of_isName hn, List.getLast?_concat, Option.getD_some]
  · rw [fileName, hjoin, names_slash, names_of_isName hn, List.getLast?_concat, Option.getD_some]

/-! ### Stem and extension -/

theorem toList_point (stem extension : String) :
    (stem ++ "." ++ extension).toList = stem.toList ++ '.' :: extension.toList := by
  rw [String.toList_append, String.toList_append, List.append_assoc]
  rfl

theorem bne_point_of_mem_reverse {cs : List Char} (h : '.' ∉ cs) :
    ∀ c ∈ cs.reverse, (c != '.') = true := by
  intro c hc
  rw [List.mem_reverse] at hc
  exact bne_iff_ne.2 (ne_of_mem_of_not_mem hc h)

/-- The last point of a name parts stem and extension, if it is not the first character. -/
theorem splitExtension_point (stem : String) {extension : String} (he : '.' ∉ extension.toList) :
    splitExtension (stem ++ "." ++ extension) =
      if stem = "" then (stem ++ "." ++ extension, none) else (stem, some extension) := by
  have hafter : (stem.toList ++ '.' :: extension.toList).reverse.takeWhile (· != '.') =
      extension.toList.reverse := by
    rw [List.reverse_append, List.reverse_cons, List.append_assoc,
      List.takeWhile_append_of_pos (bne_point_of_mem_reverse he), List.singleton_append,
      List.takeWhile_cons_of_neg (by simp), List.append_nil]
  have hbefore : (stem.toList ++ '.' :: extension.toList).take
      ((stem.toList ++ '.' :: extension.toList).length - extension.toList.reverse.length - 1) =
        stem.toList := by
    refine List.take_left' ?_
    rw [List.length_append, List.length_cons, List.length_reverse]
    omega
  have hshorter : extension.toList.reverse.length ≠
      (stem.toList ++ '.' :: extension.toList).length := by
    rw [List.length_append, List.length_cons, List.length_reverse]
    omega
  rw [splitExtension, toList_point]
  simp only [hafter, hbefore, beq_false_of_ne hshorter, Bool.or_false, List.isEmpty_iff,
    String.toList_eq_nil_iff, String.ofList_toList, List.reverse_reverse]

theorem splitExtension_of_no_point {name : String} (h : '.' ∉ name.toList) :
    splitExtension name = (name, none) := by
  have hafter : name.toList.reverse.takeWhile (· != '.') = name.toList.reverse :=
    List.takeWhile_eq_self_iff.2 (bne_point_of_mem_reverse h)
  rw [splitExtension]
  simp only [hafter, List.length_reverse, beq_self_eq_true, Bool.or_true, if_true]

theorem exists_last_point {name : String} (h : '.' ∈ name.toList) :
    ∃ stem extension, '.' ∉ extension.toList ∧ name = stem ++ "." ++ extension := by
  obtain ⟨after, before, hname, hafter⟩ := List.eq_append_cons_of_mem (List.mem_reverse.2 h)
  refine ⟨.ofList before.reverse, .ofList after.reverse, ?_, String.toList_inj.1 ?_⟩
  · rwa [String.toList_ofList, List.mem_reverse]
  · rw [toList_point, String.toList_ofList, String.toList_ofList, ← List.reverse_reverse name.toList,
      hname, List.reverse_append, List.reverse_cons, List.append_assoc]
    rfl

theorem splitExtension_eq_iff {name stem extension : String} :
    splitExtension name = (stem, some extension) ↔
      stem ≠ "" ∧ '.' ∉ extension.toList ∧ name = stem ++ "." ++ extension := by
  constructor
  · intro h
    by_cases hpoint : '.' ∈ name.toList
    · obtain ⟨stem', extension', he, rfl⟩ := exists_last_point hpoint
      rw [splitExtension_point stem' he] at h
      split at h
      · cases h
      · rename_i hs
        cases h
        exact ⟨hs, he, rfl⟩
    · rw [splitExtension_of_no_point hpoint] at h
      cases h
  · rintro ⟨hs, he, rfl⟩
    rw [splitExtension_point stem he, if_neg hs]

end TuringTable.FileTree
