import TuringTable.Yaml.Event
import TuringTable.Yaml.Scalar
import TuringTable.Yaml.Value

/-!
# The value of a text

The events of a document put together. An alias reads the events of its anchor again; collections
nest at most 128 deep, and the aliases followed are at most a hundred times as many as the events.
-/

namespace TuringTable.Yaml

namespace Scalar

def coreTag (name : String) : String := "tag:yaml.org,2002:" ++ name

/-- What a plain scalar stands for by its looks. -/
def plainValue (s : String) : Except Misfit Value :=
  if s.isEmpty || isNull s then .ok .null
  else match boolean? s, (anyInteger? s.toList).map fun n => (n, rangeOf n) with
    | some b, _ => .ok (.boolean b)
    | none, some (n, .kept) => .ok (.number (.integer n))
    | none, some (n, .refused) => .error (.hugeInteger n)
    | _, _ =>
      if isPadded s.toList then .ok (.string s)
      else .ok ((float? s).elim (.string s) fun x => .number (.float x))

/-- What a scalar with a tag stands for: four tags force its type, any other makes it a string. -/
def taggedValue (tag s : String) : Except Misfit Value :=
  if tag = coreTag "bool" then
    (boolean? s).elim (.error (.notA .boolean s)) fun b => .ok (.boolean b)
  else if tag = coreTag "int" then
    match (anyInteger? s.toList).map fun n => (n, rangeOf n) with
    | some (n, .kept) => .ok (.number (.integer n))
    | some (n, .refused) => .error (.hugeInteger n)
    | _ => .error (.notA .integer s)
  else if tag = coreTag "float" then
    (float? s).elim (.error (.notA .float s)) fun x => .ok (.number (.float x))
  else if tag = coreTag "null" then
    if isNull s then .ok .null else .error (.notA .null s)
  else .ok (.string s)

def value (tag : Option String) (s : String) (plain : Bool) : Except Misfit Value :=
  match tag with
  | some t => taggedValue t s
  | none => if plain then plainValue s else .ok (.string s)

end Scalar

/-- The name of a tag that stays with its value: one that begins with `!`. -/
def localTag? (tag : Option String) : Option String :=
  tag.bind fun t =>
    match t.toList with
    | ['!'] => some t
    | ['!', '!'] => some "!"
    | '!' :: '!' :: cs => some (String.ofList cs)
    | '!' :: cs => some (String.ofList cs)
    | _ => none

/-- The part of a key that a message tells. -/
def repeatedKey : Value → RepeatedKey
  | .null => .null
  | .boolean b => .boolean b
  | .number n => .number n.text
  | .string s => .string s
  | _ => .other

namespace EventStream

/-- The index of the next event and the number of aliases followed. -/
structure Position where
  index : Nat
  jumps : Nat
deriving Repr

abbrev Reader := StateT Position (Except Fault)

/-- The next event. Where the events end, so does reading. -/
def peek (s : EventStream) : Reader Event := do
  match s.events[(← get).index]? with
  | some e => return e
  | none =>
    match s.ending with
    | .broken f => throw f
    | _ => throw .moreDocuments

def skip : Reader Unit := modify fun p => { p with index := p.index + 1 }

def maxDepth : Nat := 128

/-- Follows an alias; answers the index to come back to. -/
def jump (s : EventStream) (anchor : Nat) : Reader Nat := do
  let p ← get
  if s.events.size * 100 < p.jumps + 1 then throw .tooManyAliases
  set (Position.mk ((s.anchors.events.lookup anchor).getD p.index) (p.jumps + 1))
  return p.index

mutual

/-- Reads a node that may hold `depth` collections inside each other. A tag that was read
already is `tagged`; this holds for the keys of a tagged mapping, too. `n` bounds the depth of
the recursion. -/
def node (s : EventStream) : Nat → Nat → Path → Bool → Reader Value
  | 0, _, _, _ => throw .tooManyAliases
  | n + 1, depth, path, tagged => do
    let e ← s.peek
    let stays (tag : Option String) := if tagged then none else localTag? tag
    match e.kind with
    | .aliasOf anchor =>
      skip
      let back ← s.jump anchor
      let v ← node s n depth (.followed path) false
      modify ({ · with index := back })
      return v
    | .scalar tag text plain =>
      match stays tag with
      | some t => return .tagged t (← node s n depth path true)
      | none =>
        skip
        match Scalar.value (if tagged then none else tag) text plain with
        | .ok v => return v
        | .error w => throw (.misfit w e.mark path)
    | .sequenceStart tag =>
      match stays tag, depth with
      | some t, _ => return .tagged t (← node s n depth path true)
      | none, 0 => throw (.tooDeep e.mark)
      | none, depth + 1 =>
        skip
        items s n depth path 0 []
    | .mappingStart tag =>
      match stays tag, depth with
      | some t, _ => return .tagged t (← node s n depth path true)
      | none, 0 => throw (.tooDeep e.mark)
      | none, depth + 1 =>
        skip
        entries s n depth path tagged e.mark []
    | .collectionEnd => throw .moreDocuments

/-- Reads the items of a sequence from the one with the index `i` on. -/
def items (s : EventStream) : Nat → Nat → Path → Nat → List Value → Reader Value
  | 0, _, _, _, _ => throw .tooManyAliases
  | n + 1, depth, path, i, acc => do
    if (← s.peek).kind == .collectionEnd then
      skip
      return .sequence acc.reverse
    let v ← node s n depth (.item path i) false
    items s n depth path (i + 1) (v :: acc)

/-- Reads the entries of a mapping that begins at `start`. A key that is there already is a fault
even before its value. -/
def entries (s : EventStream) :
    Nat → Nat → Path → Bool → Mark → List (Value × Value) → Reader Value
  | 0, _, _, _, _, _ => throw .tooManyAliases
  | n + 1, depth, path, tagged, start, acc => do
    let e ← s.peek
    if e.kind == .collectionEnd then
      skip
      return .mapping acc.reverse
    let k ← node s n depth path tagged
    if let some (k', _) := acc.find? (·.1.same k) then
      throw (.misfit (.repeatedKey (repeatedKey k')) start path)
    let way := match e.kind with
      | .scalar _ text _ => path.field text
      | _ => path.unnamed
    let v ← node s n depth way false
    entries s n depth path tagged start ((k, v) :: acc)

end

/-- The value of a document. One without any node is null. -/
def value (s : EventStream) : Except Fault Value := do
  let v ← if s.events.isEmpty && s.ending == .alone then pure .null
    else do
      let (v, _) ← (node s (140 * (s.events.size + 8)) maxDepth .root false).run ⟨0, 0⟩
      pure v
  match s.ending with
  | .alone => return v
  | .followed => throw .moreDocuments
  | .broken f => throw f

end EventStream

/-- The value of a text with one document. -/
def Value.ofText (s : String) : Except Fault Value :=
  (EventStream.ofTokens (TokenStream.ofText s)).value

end TuringTable.Yaml
