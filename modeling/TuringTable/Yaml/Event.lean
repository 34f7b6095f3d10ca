import TuringTable.Yaml.Layout

/-!
# Events

A document as a walk over its nodes: scalars, aliases, and where collections begin and end.
`EventStream.ofTokens` follows the grammar with a stack of what is expected next. A fault ends the
walk; the events before it stay.
-/

namespace TuringTable.Yaml

inductive Event.Kind where
  /-- The number is that of the anchor. -/
  | aliasOf (anchor : Nat)
  | scalar (tag : Option String) (text : String) (plain : Bool)
  | sequenceStart (tag : Option String)
  | mappingStart (tag : Option String)
  | collectionEnd
deriving Repr, DecidableEq

structure Event where
  kind : Event.Kind
  mark : Mark
deriving Repr, DecidableEq

/-- What comes next. A mark is that of the beginning of the collection, for messages. -/
inductive Expectation where
  | blockNode
  /-- Dashes in the column of the mapping around them begin a sequence, too. -/
  | blockNodeOrDashes
  | flowNode
  | blockEntry (start : Mark)
  | dashEntry
  | blockKey (start : Mark)
  | blockValue (start : Mark)
  | flowFirstEntry (start : Mark)
  | flowEntry (start : Mark)
  /-- The parts of a mapping with one pair, written without braces. -/
  | pairKey
  | pairValue
  | pairEnd
  | flowFirstKey (start : Mark)
  | flowKey (start : Mark)
  | flowValue
  | flowNoValue
deriving Repr

/-- The anchors of a document. Each definition gets the number of different names before it, so
after a name is defined again two anchors may share a number; the later one then has it. -/
structure Anchors where
  names : List (String × Nat)
  /-- The index of the event that an anchor's number stands for, last definition first. -/
  events : List (Nat × Nat)
deriving Repr

namespace Anchors

def none : Anchors := ⟨[], []⟩

def define (a : Anchors) (name : String) (event : Nat) : Anchors :=
  let n := a.names.length
  ⟨(name, n) :: a.names.filter (·.1 != name), (n, event) :: a.events⟩

end Anchors

/-- The tokens left and what stopped them, and what was read of a document. -/
structure Walk where
  tokens : List Token
  fault : Option Fault
  handles : List (String × String)
  anchors : Anchors
  /-- Last event first. -/
  events : List Event
  count : Nat
deriving Repr

abbrev Walker := StateT Walk (Except Fault)

namespace Walker

def peek : Walker Token := do
  match (← get).tokens, (← get).fault with
  | t :: _, _ => return t
  | [], some f => throw f
  | [], none => return ⟨.streamEnd, .origin⟩

def skip : Walker Unit := modify fun w => { w with tokens := w.tokens.tail }

def fail {α : Type} (p : Problem) (m : Mark) (during : Option (Activity × Mark)) : Walker α :=
  throw (.form p m during)

def emit (kind : Event.Kind) (m : Mark) : Walker Unit :=
  modify fun w => { w with events := ⟨kind, m⟩ :: w.events, count := w.count + 1 }

/-- A node that is not written. -/
def emitAbsent : Walker Unit := do emit (.scalar none "" true) (← peek).mark

/-- The end of a collection, with the token that closes it. -/
def close : Walker (List Expectation) := do
  emit .collectionEnd (← peek).mark
  skip
  return []

/-- The tag spelled out. -/
def spell (start m : Mark) (handle name : String) : Walker String := do
  if handle.isEmpty then return name
  match (← get).handles.lookup handle with
  | some stem => return stem ++ name
  | none => fail .undefinedTagHandle m (some (.node, start))

def readAnchor? : Walker (Option String) := do
  match (← peek).kind with
  | .anchor name => skip; return some name
  | _ => return none

def readTag? : Walker (Option (Mark × String × String)) := do
  let t ← peek
  match t.kind with
  | .tag handle name => skip; return some (t.mark, handle, name)
  | _ => return none

def readProperties : Walker (Option String × Option String) := do
  let start := (← peek).mark
  let before ← readAnchor?
  let tag ← readTag?
  let anchor ← if before.isNone && tag.isSome then readAnchor? else pure before
  let _ ← peek
  match tag with
  | none => return (anchor, none)
  | some (m, handle, name) => return (anchor, some (← spell start m handle name))

/-- A node. Block collections begin only where `block` is, and dashes in the column of the
mapping around them only where `dashes` is. On a scalar the tag `!` alone means nothing. -/
def node (block dashes : Bool) : Walker (List Expectation) := do
  let start := (← peek).mark
  if let .aliasName name := (← peek).kind then
    match (← get).anchors.names.lookup name with
    | none => throw (.unknownAnchor start)
    | some n =>
      skip
      emit (.aliasOf n) start
      return []
  let (anchor, tag) ← readProperties
  let t ← peek
  let begin (kind : Event.Kind) : Walker Unit := do
    if let some name := anchor then
      modify fun w => { w with anchors := w.anchors.define name w.count }
    emit kind start
  match t.kind, block with
  | .scalar text plain, _ =>
    skip
    begin (.scalar (tag.filter (· != "!")) text plain)
    return []
  | .flowSequenceStart, _ =>
    skip
    begin (.sequenceStart tag)
    return [.flowFirstEntry t.mark]
  | .flowMappingStart, _ =>
    skip
    begin (.mappingStart tag)
    return [.flowFirstKey t.mark]
  | .blockSequenceStart, true =>
    skip
    begin (.sequenceStart tag)
    return [.blockEntry t.mark]
  | .blockMappingStart, true =>
    skip
    begin (.mappingStart tag)
    return [.blockKey t.mark]
  | kind, _ =>
    if dashes && kind == .dash then
      begin (.sequenceStart tag)
      return [.dashEntry]
    if anchor.isSome || tag.isSome then
      begin (.scalar tag "" true)
      return []
    fail .noNode t.mark (some (if block then .blockNode else .flowNode, start))

/-- The node that is expected, or none where one of `ends` comes. -/
def nodeUnless (ends : List Token.Kind) (expected : Expectation) (next : List Expectation) :
    Walker (List Expectation) := do
  if ends.contains (← peek).kind then
    emitAbsent
    return next
  return expected :: next

/-- The separator before an entry that is not the first one. -/
def separator (last : Token.Kind) (p : Problem) (during : Activity × Mark) : Walker Unit := do
  let t ← peek
  if t.kind == .comma then skip
  else if t.kind != last then fail p t.mark (some during)

def flowEntry (start : Mark) : Walker (List Expectation) := do
  let t ← peek
  match t.kind with
  | .flowSequenceEnd => close
  | .key =>
    skip
    emit (.mappingStart none) t.mark
    return [.pairKey, .flowEntry start]
  | _ => return [.flowNode, .flowEntry start]

def flowKey (start : Mark) : Walker (List Expectation) := do
  match (← peek).kind with
  | .flowMappingEnd => close
  | .key =>
    skip
    nodeUnless [.value, .comma, .flowMappingEnd] .flowNode [.flowValue, .flowKey start]
  | _ => return [.flowNode, .flowNoValue, .flowKey start]

/-- The value after a colon, or none. -/
def value (ends : List Token.Kind) (expected : Expectation) (next : List Expectation) :
    Walker (List Expectation) := do
  if (← peek).kind == .value then
    skip
    nodeUnless ends expected next
  else
    emitAbsent
    return next

/-- Reads what is expected as far as its first token tells, and answers what is expected then,
next thing first. -/
def step : Expectation → Walker (List Expectation)
  | .blockNode => node true false
  | .blockNodeOrDashes => node true true
  | .flowNode => node false false
  | .blockEntry start => do
    let t ← peek
    match t.kind with
    | .dash => skip; nodeUnless [.dash, .blockEnd] .blockNode [.blockEntry start]
    | .blockEnd => close
    | _ => fail .noDash t.mark (some (.blockSequence, start))
  | .dashEntry => do
    let t ← peek
    match t.kind with
    | .dash => skip; nodeUnless [.dash, .key, .value, .blockEnd] .blockNode [.dashEntry]
    | _ =>
      emit .collectionEnd t.mark
      return []
  | .blockKey start => do
    let t ← peek
    match t.kind with
    | .key => skip; nodeUnless [.key, .value, .blockEnd] .blockNodeOrDashes [.blockValue start]
    | .blockEnd => close
    | _ => fail .noKey t.mark (some (.blockMapping, start))
  | .blockValue start => value [.key, .value, .blockEnd] .blockNodeOrDashes [.blockKey start]
  | .flowFirstEntry start => flowEntry start
  | .flowEntry start => do
    separator .flowSequenceEnd .noCommaOrBracket (.flowSequence, start)
    flowEntry start
  | .pairKey => do
    if [Token.Kind.value, .comma, .flowSequenceEnd].contains (← peek).kind then
      emitAbsent
      skip
      return [.pairValue]
    return [.flowNode, .pairValue]
  | .pairValue => value [.comma, .flowSequenceEnd] .flowNode [.pairEnd]
  | .pairEnd => do
    emit .collectionEnd (← peek).mark
    return []
  | .flowFirstKey start => flowKey start
  | .flowKey start => do
    separator .flowMappingEnd .noCommaOrBrace (.flowMapping, start)
    flowKey start
  | .flowValue => value [.comma, .flowMappingEnd] .flowNode []
  | .flowNoValue => do
    emitAbsent
    return []

/-- Reads directives and answers what they make of the tag handles. `n` exceeds the number of
tokens left. -/
def readDirectives : Nat → Bool → List (String × String) → Walker (List (String × String))
  | 0, _, handles => return handles
  | n + 1, versioned, handles => do
    let t ← peek
    match t.kind with
    | .versionDirective major minor =>
      if versioned then fail .repeatedVersion t.mark none
      if !(major == 1 && (minor == 1 || minor == 2)) then fail .wrongVersion t.mark none
      skip
      readDirectives n true handles
    | .tagDirective handle stem =>
      if (handles.lookup handle).isSome then fail .repeatedTagHandle t.mark none
      skip
      readDirectives n versioned (handles ++ [(handle, stem)])
    | _ => return handles

def standardHandles : List (String × String) := [("!", "!"), ("!!", "tag:yaml.org,2002:")]

/-- Reads the beginning of a document: the directives and the line that ends them. Only the first
document of a text may do without. Answers whether there is a document, and if so whether it may
be empty. -/
def documentStart (first : Bool) : Walker (Option Bool) := do
  let t ← peek
  if t.kind == .streamEnd then return none
  let handles ← readDirectives ((← get).tokens.length + 1) false []
  modify ({ · with handles := handles ++ standardHandles })
  let d ← peek
  if d.kind == .documentStart then
    skip
    return some true
  if first && d == t then return some false
  fail .noDocumentStart d.mark none

/-- Where an empty document ends. -/
def atDocumentEnd : Walker Bool := do
  match (← peek).kind with
  | .versionDirective .. | .tagDirective .. | .documentStart | .documentEnd | .streamEnd =>
    return true
  | _ => return false

/-- Skips the lines that end a document. `n` exceeds the number of tokens left. -/
def skipDocumentEnds : Nat → Walker Unit
  | 0 => return
  | n + 1 => do
    if (← peek).kind == .documentEnd then
      skip
      skipDocumentEnds n

end Walker

/-- How a document ends: with the text, before another document, or in a fault. -/
inductive Ending where
  | alone
  | followed
  | broken (f : Fault)
deriving Repr, DecidableEq

/-- The walk over the first document of a text. -/
structure EventStream where
  events : Array Event
  anchors : Anchors
  ending : Ending
deriving Repr

namespace EventStream

/-- What comes after the root of the first document. A fault there counts as another document. -/
def endingAfter (w : Walk) : Ending :=
  match (Walker.peek).run w with
  | .error f => .broken f
  | .ok _ =>
    let another : Walker Bool := do
      Walker.skipDocumentEnds (w.tokens.length + 1)
      return (← Walker.documentStart false).isSome
    match another.run w with
    | .ok (false, _) => .alone
    | _ => .followed

/-- Reads what is expected, next thing first; `n` exceeds the number of steps. -/
def walk : Nat → List Expectation → Walk → EventStream
  | 0, _, w => ⟨w.events.reverse.toArray, w.anchors, .followed⟩
  | _ + 1, [], w => ⟨w.events.reverse.toArray, w.anchors, endingAfter w⟩
  | n + 1, e :: es, w =>
    match (Walker.step e).run w with
    | .error f => ⟨w.events.reverse.toArray, w.anchors, .broken f⟩
    | .ok (next, w') => walk n (next ++ es) w'

/-- What is expected of a text, if there is anything. -/
def opening : Walker (Option (List Expectation)) := do
  match ← Walker.documentStart true with
  | none => return none
  | some explicit =>
    if explicit && (← Walker.atDocumentEnd) then
      Walker.emitAbsent
      return some []
    return some [.blockNode]

def ofTokens (s : TokenStream) : EventStream :=
  let w : Walk := ⟨s.tokens, s.fault, [], .none, [], 0⟩
  match opening.run w with
  | .error f => ⟨#[], .none, .broken f⟩
  | .ok (none, w) => ⟨w.events.toArray, .none, .alone⟩
  | .ok (some es, w) => walk (8 * (s.tokens.length + 2)) es w

end EventStream

end TuringTable.Yaml
