import TuringTable.CommandLine
import TuringTable.Proofs.Catalog.Copy
import TuringTable.Proofs.Catalog.Increment
import TuringTable.Proofs.Catalog.Parity
import TuringTable.Proofs.Catalog.Remainder

/-!
# Every built-in program loads

None of the texts is too large, each describes a machine, and there is nothing to warn of
(`loads_of_mem`). So the list of the programs is the list of the texts (`names_eq`), and a call that
lists them or runs one of them has nothing for the log (`warnings_eq_nil`).
-/

namespace TuringTable

namespace Catalog

/-- The machine of `busyBeaver`. -/
def beaver : Specification where
  blank := '0'
  startState := "A"
  table := .ofList [
    ("A", some (.ofList [('0', ⟨some '1', .right, some "B"⟩), ('1', ⟨none, .left, some "B"⟩)])),
    ("B", some (.ofList [('0', ⟨some '1', .left, some "A"⟩), ('1', ⟨none, .right, some "H"⟩)])),
    ("H", none)]
  input := []

theorem parse_busyBeaver : parse busyBeaver = (.ok beaver, []) := by
  rewrite [parse_eq_ofCharacters]
  unfold busyBeaver
  simp only [String.toList_append, String.reduceToList]
  decide +kernel

/-- The text becomes a program, and there is nothing to warn of. -/
def Loads (text : String) : Prop :=
  ∃ s, ∀ name, Program.ofText name text = (.ok ⟨name, text, s⟩, [])

theorem loads_of_parse {text : String} {s : Specification}
    (hsize : text.utf8ByteSize ≤ maxProgramSize) (hparse : parse text = (.ok s, [])) :
    Loads text := by
  refine ⟨s, fun name => ?_⟩
  rw [Program.ofText, if_neg (Nat.not_lt_of_le hsize), hparse]
  rfl

theorem loads_of_mem {e : String × String} (he : e ∈ texts) : Loads e.2 := by
  simp only [texts, List.mem_cons, List.not_mem_nil, or_false] at he
  rcases he with rfl | rfl | rfl | rfl | rfl
  · exact loads_of_parse (by decide +kernel) parse_binaryIncrement
  · exact loads_of_parse (by decide +kernel) parse_divisibleByThree
  · exact loads_of_parse (by decide +kernel) parse_copyOnes
  · exact loads_of_parse (by decide +kernel) parse_parity
  · exact loads_of_parse (by decide +kernel) parse_busyBeaver

theorem names_eq : names = texts.map (·.1) := by
  rw [names, programs, List.map_filterMap]
  refine List.filterMap_eq_map_iff_forall_eq_some.2 fun e he => ?_
  obtain ⟨s, hs⟩ := loads_of_mem he
  show (Program.ofText e.1 e.2).1.toOption.map (·.name) = some e.1
  rw [hs]
  rfl

theorem warnings_eq_nil : warnings = [] := by
  refine List.flatMap_eq_nil_iff.2 fun e he => ?_
  obtain ⟨s, hs⟩ := loads_of_mem he
  exact congrArg Prod.snd (hs e.1)

end Catalog

namespace CommandLine

/-- A call for the list names every built-in program in the order of the texts, and leaves nothing
for the log. -/
theorem perform_of_list {o : Options} (h : o.list = true) (s : Surroundings) :
    perform o s = ⟨0, writeLines (Catalog.texts.map (·.1)), [], ""⟩ := by
  rw [perform, if_pos h, Catalog.names_eq, Catalog.warnings_eq_nil]

end CommandLine

end TuringTable
