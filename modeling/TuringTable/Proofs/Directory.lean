import Mathlib.Data.List.Sort
import Mathlib.Data.String.Basic
import TuringTable.Proofs.FileTree
import TuringTable.Proofs.Program

/-!
# The programs of a directory

Of the entries of a directory those count that are files and have one of two extensions in their
names (`ProgramFile`). They make one list by name (`Holds`), which the order of the entries does not
change (`Holds.of_perm`, `Holds.unique`). To read a directory is to read each file of this list for
itself (`ofDirectory_loads_each`).
-/

namespace TuringTable

/-- What may stand in a directory: entries with names, no two of them with the same. -/
structure FileTree.Proper (entries : List (String × FileTree)) : Prop where
  nodup : (entries.map (·.1)).Nodup
  isName : ∀ e ∈ entries, IsName e.1

theorem FileTree.Proper.of_perm {entries entries' : List (String × FileTree)} (h : Proper entries)
    (hp : entries'.Perm entries) : Proper entries' :=
  ⟨(hp.map _).nodup_iff.2 h.nodup, fun e he => h.isName e (hp.mem_iff.1 he)⟩

/-- A file whose name tells that it holds a program: a stem, a point and an extension. -/
structure ProgramFile where
  stem : String
  extension : String
  content : ByteArray
  stem_ne_empty : stem ≠ ""
  extension_eq : extension = "yaml" ∨ extension = "yml"

namespace ProgramFile

def name (f : ProgramFile) : String := f.stem ++ "." ++ f.extension

/-- The file among the entries of a directory. -/
def entry (f : ProgramFile) : String × FileTree := (f.name, .file f.content)

def path (directory : String) (f : ProgramFile) : String := FileTree.join directory f.name

/-- The list by name of all files among the entries whose names tell that they hold programs. -/
structure Holds (entries : List (String × FileTree)) (files : List ProgramFile) : Prop where
  sorted : (files.map name).Pairwise (· < ·)
  mem_iff : ∀ f, f ∈ files ↔ f.entry ∈ entries

variable {entries entries' : List (String × FileTree)} {files files' : List ProgramFile}
  {f g : ProgramFile} {directory : String} {t : FileTree} {p : Program}

theorem splitExtension_name (f : ProgramFile) :
    FileTree.splitExtension f.name = (f.stem, some f.extension) := by
  refine FileTree.splitExtension_eq_iff.2 ⟨f.stem_ne_empty, ?_, rfl⟩
  rcases f.extension_eq with h | h
  · rw [h]
    decide
  · rw [h]
    decide

theorem entry_injective : Function.Injective entry := by
  intro f g h
  obtain ⟨hname, hfile⟩ := Prod.ext_iff.1 h
  have hsplit : (f.stem, some f.extension) = (g.stem, some g.extension) := by
    rw [← splitExtension_name, ← splitExtension_name]
    exact congrArg _ hname
  cases f
  cases g
  cases hsplit
  cases hfile
  rfl

theorem isProgramFile_iff {e : String × FileTree} :
    Program.isProgramFile e = true ↔ ∃ f : ProgramFile, f.entry = e := by
  constructor
  · intro h
    obtain ⟨n, t⟩ := e
    cases t with
    | directory es => cases h
    | file content =>
      obtain ⟨extension, hext, hmem⟩ := (Option.any_eq_true _ _).1 h
      have hsplit : FileTree.splitExtension n = (FileTree.stem n, some extension) :=
        Prod.ext rfl hext
      obtain ⟨hs, -, hname⟩ := FileTree.splitExtension_eq_iff.1 hsplit
      have heq : extension = "yaml" ∨ extension = "yml" := by
        simpa [Program.extensions] using hmem
      exact ⟨⟨FileTree.stem n, extension, content, hs, heq⟩, Prod.ext hname.symm rfl⟩
  · rintro ⟨f, rfl⟩
    have hext : FileTree.extension? f.name = some f.extension :=
      congrArg Prod.snd f.splitExtension_name
    show (FileTree.extension? f.name).any Program.extensions.contains = true
    rw [hext]
    rcases f.extension_eq with h | h
    · simp [Program.extensions, h]
    · simp [Program.extensions, h]

/-! ### The list of the files -/

theorem Holds.of_perm (h : Holds entries files) (hp : entries'.Perm entries) :
    Holds entries' files :=
  ⟨h.sorted, fun f => (h.mem_iff f).trans hp.mem_iff.symm⟩

theorem Holds.unique (h : Holds entries files) (h' : Holds entries files') : files = files' := by
  have hsorted := List.pairwise_map.1 h.sorted
  have hsorted' := List.pairwise_map.1 h'.sorted
  have hne : ∀ {f g : ProgramFile}, f.name < g.name → f ≠ g := by
    rintro f _ hlt rfl
    exact Std.lt_irrefl hlt
  have hperm : files.Perm files' := by
    refine (List.perm_ext_iff_of_nodup (hsorted.imp hne) (hsorted'.imp hne)).2 fun f => ?_
    rw [h.mem_iff, h'.mem_iff]
  refine hperm.eq_of_pairwise (fun f g _ _ hfg hgf => ?_) hsorted hsorted'
  exact absurd (Std.lt_trans hfg hgf) Std.lt_irrefl

theorem lookup_name (h : FileTree.Proper entries) (hf : f.entry ∈ entries) :
    entries.lookup f.name = some (.file f.content) :=
  (SortedMap.lookup_eq_some_iff_mem_of_nodup h.nodup).2 hf

theorem eq_of_name_eq (h : FileTree.Proper entries) (hf : f.entry ∈ entries)
    (hg : g.entry ∈ entries) (hname : f.name = g.name) : f = g := by
  have hfile : some (FileTree.file f.content) = some (.file g.content) := by
    rw [← lookup_name h hf, ← lookup_name h hg, hname]
  exact entry_injective (Prod.ext hname (Option.some.inj hfile))

/-- The names that are sorted are those of the files that count. -/
theorem mem_map_filter_iff {n : String} :
    n ∈ (entries.filter Program.isProgramFile).map (·.1) ↔
      ∃ f : ProgramFile, f.entry ∈ entries ∧ f.name = n := by
  rw [List.mem_map]
  constructor
  · rintro ⟨e, he, rfl⟩
    obtain ⟨hmem, hfile⟩ := List.mem_filter.1 he
    obtain ⟨f, rfl⟩ := isProgramFile_iff.1 hfile
    exact ⟨f, hmem, rfl⟩
  · rintro ⟨f, hf, rfl⟩
    exact ⟨f.entry, List.mem_filter.2 ⟨hf, isProgramFile_iff.2 ⟨f, rfl⟩⟩, rfl⟩

theorem pairwise_mergeSort_of_nodup {names : List String} (h : names.Nodup) :
    (names.mergeSort (· ≤ ·)).Pairwise (· < ·) := by
  have hsorted : (names.mergeSort (· ≤ ·)).Pairwise (· ≤ ·) := List.pairwise_mergeSort' _ _
  have hnodup : (names.mergeSort (· ≤ ·)).Nodup := (List.mergeSort_perm names _).nodup_iff.2 h
  exact (hsorted.and hnodup).imp fun hab => lt_of_le_of_ne hab.1 hab.2

theorem exists_map_name_eq {names : List String}
    (h : ∀ n ∈ names, ∃ f : ProgramFile, f.entry ∈ entries ∧ f.name = n) :
    ∃ files : List ProgramFile, (∀ f ∈ files, f.entry ∈ entries) ∧ files.map name = names := by
  induction names with
  | nil => exact ⟨[], by simp, rfl⟩
  | cons n names ih =>
    obtain ⟨hn, hnames⟩ := List.forall_mem_cons.1 h
    obtain ⟨f, hf, rfl⟩ := hn
    obtain ⟨files, hfiles, rfl⟩ := ih hnames
    exact ⟨f :: files, List.forall_mem_cons.2 ⟨hf, hfiles⟩, rfl⟩

/-- There is such a list, and its paths are those that are read. -/
theorem exists_holds (h : FileTree.Proper entries) (directory : String) :
    ∃ files, Holds entries files ∧
      Program.programPaths directory entries = files.map (path directory) := by
  have hnodup : ((entries.filter Program.isProgramFile).map (·.1)).Nodup :=
    h.nodup.sublist (List.filter_sublist.map _)
  have hcount : ∀ n ∈ ((entries.filter Program.isProgramFile).map (·.1)).mergeSort (· ≤ ·),
      ∃ f : ProgramFile, f.entry ∈ entries ∧ f.name = n := by
    intro n hn
    rw [List.mem_mergeSort] at hn
    exact mem_map_filter_iff.1 hn
  obtain ⟨files, hfiles, hnames⟩ := exists_map_name_eq hcount
  refine ⟨files, ⟨?_, fun f => ⟨hfiles f, fun hf => ?_⟩⟩, ?_⟩
  · rw [hnames]
    exact pairwise_mergeSort_of_nodup hnodup
  · have hname : f.name ∈ files.map name := by
      rw [hnames, List.mem_mergeSort]
      exact mem_map_filter_iff.2 ⟨f, hf, rfl⟩
    obtain ⟨g, hg, hgf⟩ := List.mem_map.1 hname
    rwa [← eq_of_name_eq h (hfiles g hg) hf hgf]
  · rw [Program.programPaths, ← hnames, List.map_map]
    rfl

/-! ### Each file for itself -/

theorem read_path (hlist : t.list directory = .ok entries) (h : FileTree.Proper entries)
    (hf : f.entry ∈ entries) : t.read (f.path directory) = .ok f.content :=
  FileTree.read_eq_ok_iff.2 (FileTree.find_join hlist (h.isName _ hf) (lookup_name h hf))

theorem stem_fileName_path (hd : directory ≠ "") (hn : FileTree.IsName f.name) :
    FileTree.stem (FileTree.fileName (f.path directory)) = f.stem := by
  rw [path, FileTree.fileName_join hd hn]
  exact congrArg Prod.fst f.splitExtension_name

theorem ofFile_eq_ok_iff {path : String} {content : ByteArray} :
    (Program.ofFile path (.ok content)).1 = .ok p ↔
      p.name = FileTree.stem (FileTree.fileName path) ∧ p.source.toUTF8 = content ∧
        content.size ≤ maxProgramSize ∧ (parse p.source).1 = .ok p.spec := by
  rw [Program.ofFile, Program.ofBytes_eq_ok_iff]
  generalize FileTree.stem (FileTree.fileName path) = name
  constructor
  · rintro ⟨text, spec, hs, hle, hspec, rfl⟩
    exact ⟨rfl, hs.symm, hle, hspec⟩
  · rintro ⟨rfl, hs, hle, hspec⟩
    exact ⟨p.source, p.spec, hs.symm, hle, hspec, rfl⟩

theorem ofDirectory_eq_map (hlist : t.list directory = .ok entries) (h : FileTree.Proper entries)
    (hfiles : Holds entries files) :
    Program.ofDirectory t directory = files.map fun f =>
      (Program.ofFile (f.path directory) (.ok f.content)).map (f.path directory, ·) := by
  obtain ⟨files', hfiles', hpaths⟩ := exists_holds h directory
  obtain rfl := hfiles.unique hfiles'
  rw [Program.ofDirectory, hlist]
  simp only
  rw [hpaths, List.map_map]
  refine List.map_congr_left fun f hf => ?_
  rw [Function.comp_apply, read_path hlist h ((hfiles.mem_iff f).1 hf)]

/-- A directory is read file by file: for each file that counts, in the order of the names, there is
the program or the error that reading this file alone gives, with its warnings, and which of them it
is depends on the content of this file. In what order the entries come does not matter. -/
theorem ofDirectory_loads_each (hlist : t.list directory = .ok entries)
    (hproper : FileTree.Proper entries) :
    ∃ files, Holds entries files ∧
      Program.ofDirectory t directory = files.map (fun f =>
        (Program.ofFile (f.path directory) (t.read (f.path directory))).map
          (f.path directory, ·)) ∧
      (∀ f ∈ files, t.read (f.path directory) = .ok f.content ∧
        ∀ p, (Program.ofFile (f.path directory) (t.read (f.path directory))).1 = .ok p ↔
          p.name = f.stem ∧ p.source.toUTF8 = f.content ∧ f.content.size ≤ 65536 ∧
            (parse p.source).1 = .ok p.spec) ∧
      ∀ t' entries', t'.list directory = .ok entries' → entries'.Perm entries →
        Program.ofDirectory t' directory = Program.ofDirectory t directory := by
  obtain ⟨files, hfiles, -⟩ := exists_holds hproper directory
  have hread : ∀ f ∈ files, t.read (f.path directory) = .ok f.content := fun f hf =>
    read_path hlist hproper ((hfiles.mem_iff f).1 hf)
  refine ⟨files, hfiles, ?_, fun f hf => ⟨hread f hf, fun p => ?_⟩, fun t' entries' hlist' hp => ?_⟩
  · rw [ofDirectory_eq_map hlist hproper hfiles]
    refine List.map_congr_left fun f hf => ?_
    rw [hread f hf]
  · have hname := hproper.isName _ ((hfiles.mem_iff f).1 hf)
    rw [hread f hf, ofFile_eq_ok_iff,
      stem_fileName_path (FileTree.ne_empty_of_list_eq_ok hlist) hname]
    rfl
  · rw [ofDirectory_eq_map hlist' (hproper.of_perm hp) (hfiles.of_perm hp),
      ofDirectory_eq_map hlist hproper hfiles]

/-- A directory in no order: two files with one stem, one of them no text, a file with no stem, one
with the extension in capitals and a directory that is named like a file. -/
def untidy : List (String × FileTree) :=
  [("even.v2.yml", .file "table: [".toUTF8), (".yaml", .file "".toUTF8),
    ("old.yaml", .directory [("odd.yaml", .file "".toUTF8)]), ("ODD.YAML", .file "".toUTF8),
    ("even.v2.yaml", .file ⟨#[0xff]⟩)]

theorem proper_untidy : FileTree.Proper untidy where
  nodup := by decide
  isName e he := by
    have hname : e.1 ∈ untidy.map (·.1) := List.mem_map_of_mem he
    have hall : ∀ n ∈ untidy.map (·.1), n ≠ "" ∧ n ≠ "." ∧ n ≠ ".." ∧ '/' ∉ n.toList := by decide
    obtain ⟨h1, h2, h3, h4⟩ := hall _ hname
    exact ⟨h1, h2, h3, h4⟩

/-- Of these only two count. -/
theorem holds_untidy :
    Holds untidy [⟨"even.v2", "yaml", ⟨#[0xff]⟩, by decide, .inl rfl⟩,
      ⟨"even.v2", "yml", "table: [".toUTF8, by decide, .inr rfl⟩] where
  sorted := by decide
  mem_iff f := by
    have hcounts := fun {e} (h : f.entry = e) => isProgramFile_iff.2 ⟨f, h⟩
    rw [untidy]
    simp only [List.mem_cons, List.not_mem_nil, or_false]
    constructor
    · rintro (rfl | rfl)
      · exact .inr (.inr (.inr (.inr rfl)))
      · exact .inl rfl
    · rintro (h | h | h | h | h)
      · exact .inr (entry_injective h)
      · exact absurd (hcounts h) (by decide)
      · exact absurd (hcounts h) (by decide)
      · exact absurd (hcounts h) (by decide)
      · exact .inl (entry_injective h)

theorem ofDirectory_loads_each_of_untidy :
    let t := FileTree.directory [("machines", .directory untidy)]
    t.list "machines" = .ok untidy ∧ FileTree.Proper untidy ∧
      ∃ files : List ProgramFile, files.map name = ["even.v2.yaml", "even.v2.yml"] ∧
        Program.ofDirectory t "machines" = files.map (fun f =>
          (Program.ofFile (f.path "machines") (t.read (f.path "machines"))).map
            (f.path "machines", ·)) := by
  have hlist : (FileTree.directory [("machines", .directory untidy)]).list "machines" =
      .ok untidy := by
    have hroot : "machines".startsWith "/" = false := by simp
    rw [FileTree.list_eq_ok_iff, FileTree.find_eq_walk (by decide), FileTree.walk, hroot]
    rfl
  obtain ⟨files, hfiles, hmap, -⟩ := ofDirectory_loads_each hlist proper_untidy
  obtain rfl := hfiles.unique holds_untidy
  exact ⟨hlist, proper_untidy, _, rfl, hmap⟩

end ProgramFile

end TuringTable
