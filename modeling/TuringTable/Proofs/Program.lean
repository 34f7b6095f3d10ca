import TuringTable.Program

/-!
# From bytes to programs

Bytes are no text, or too many, or else what they come to is what their text describes, warnings and
all (`ofBytes_toUTF8`). So whether they are refused can be told from the bytes (`Refused`), and with
what warnings.
-/

namespace TuringTable

/-- Bytes are read as the text whose encoding they are. -/
theorem fromUTF8?_eq_some_iff {bytes : ByteArray} {text : String} :
    String.fromUTF8? bytes = some text ↔ bytes = text.toUTF8 := by
  constructor
  · intro h
    unfold String.fromUTF8? at h
    split at h
    · rw [← Option.some.inj h]
      rfl
    · cases h
  · rintro rfl
    exact dif_pos text.isValidUTF8

namespace Program
variable {name text : String} {unreadable : Error} {bytes : ByteArray} {p : Program}
  {spec : Specification}

theorem ofBytes_toUTF8 (h : text.utf8ByteSize ≤ maxProgramSize) :
    ofBytes name unreadable text.toUTF8 = (parse text).map (⟨name, text, ·⟩) := by
  rw [ofBytes, fromUTF8?_eq_some_iff.2 rfl]
  exact if_neg (Nat.not_lt_of_le h)

theorem ofBytes_of_lt (h : maxProgramSize < text.utf8ByteSize) :
    ofBytes name unreadable text.toUTF8 = .fail (.tooLarge text.utf8ByteSize) := by
  rw [ofBytes, fromUTF8?_eq_some_iff.2 rfl]
  exact if_pos h

theorem ofBytes_of_ne (h : ∀ text : String, text.toUTF8 ≠ bytes) :
    ofBytes name unreadable bytes = .fail unreadable := by
  cases ht : String.fromUTF8? bytes with
  | none => rw [ofBytes, ht]
  | some text => exact absurd (fromUTF8?_eq_some_iff.1 ht).symm (h text)

/-- There is nothing to warn of where no text is taken apart. -/
theorem warnings_ofBytes_of_lt
    (h : ∀ text : String, bytes = text.toUTF8 → maxProgramSize < text.utf8ByteSize) :
    (ofBytes name unreadable bytes).2 = [] := by
  by_cases htext : ∃ text : String, bytes = text.toUTF8
  · obtain ⟨text, rfl⟩ := htext
    rw [ofBytes_of_lt (h text rfl)]
    rfl
  · rw [ofBytes_of_ne fun text ht => htext ⟨text, ht.symm⟩]
    rfl

/-- From bytes comes a program if they are a text of the size allowed that describes a machine. -/
theorem ofBytes_eq_ok_iff :
    (ofBytes name unreadable bytes).1 = .ok p ↔ ∃ text spec, bytes = text.toUTF8 ∧
      bytes.size ≤ maxProgramSize ∧ (parse text).1 = .ok spec ∧ p = ⟨name, text, spec⟩ := by
  constructor
  · intro h
    by_cases htext : ∃ text : String, bytes = text.toUTF8
    · obtain ⟨text, rfl⟩ := htext
      rcases Nat.lt_or_ge maxProgramSize text.utf8ByteSize with hlt | hle
      · rw [ofBytes_of_lt hlt] at h
        cases h
      · rw [ofBytes_toUTF8 hle, Logged.map] at h
        cases hspec : (parse text).1 with
        | error e =>
          rw [hspec] at h
          cases h
        | ok spec =>
          rw [hspec] at h
          exact ⟨text, spec, rfl, hle, hspec, (Except.ok.inj h).symm⟩
    · rw [ofBytes_of_ne fun text ht => htext ⟨text, ht.symm⟩] at h
      cases h
  · rintro ⟨text, spec, rfl, hle, hspec, rfl⟩
    rw [ofBytes_toUTF8 hle, Logged.map, hspec]
    rfl

/-- The bytes are no text, too many, or describe no machine. -/
def Refused (bytes : ByteArray) : Prop :=
  (∀ text : String, text.toUTF8 ≠ bytes) ∨ 65536 < bytes.size ∨
    ∃ text e, text.toUTF8 = bytes ∧ (parse text).1 = .error e

theorem not_refused (htext : bytes = text.toUTF8) (hsize : bytes.size ≤ 65536)
    (hspec : (parse text).1 = .ok spec) : ¬ Refused bytes := by
  rintro (hno | hlt | ⟨text', e, htext', herror⟩)
  · exact hno text htext.symm
  · exact absurd hsize (Nat.not_le_of_lt hlt)
  · obtain rfl : text' = text := String.toByteArray_inj.1 (htext'.trans htext)
    rw [hspec] at herror
    cases herror

/-- Bytes that are not refused are a text that describes a machine. -/
theorem refused_or_parse (bytes : ByteArray) :
    Refused bytes ∨ ∃ text spec, bytes = text.toUTF8 ∧ bytes.size ≤ 65536 ∧
      (parse text).1 = .ok spec := by
  by_cases htext : ∃ text : String, bytes = text.toUTF8
  · obtain ⟨text, rfl⟩ := htext
    rcases Nat.lt_or_ge 65536 text.toUTF8.size with hlt | hle
    · exact .inl (.inr (.inl hlt))
    · cases hspec : (parse text).1 with
      | error e => exact .inl (.inr (.inr ⟨text, e, rfl, hspec⟩))
      | ok spec => exact .inr ⟨text, spec, rfl, hle, hspec⟩
  · exact .inl (.inl fun text ht => htext ⟨text, ht.symm⟩)

theorem exists_error_of_refused (h : Refused bytes) :
    ∃ e, (ofBytes name unreadable bytes).1 = .error e := by
  cases hp : (ofBytes name unreadable bytes).1 with
  | error e => exact ⟨e, rfl⟩
  | ok p =>
    obtain ⟨text, spec, htext, hsize, hspec, -⟩ := ofBytes_eq_ok_iff.1 hp
    exact absurd h (not_refused htext hsize hspec)

end Program

end TuringTable
