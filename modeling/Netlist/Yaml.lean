import Netlist.Yaml.Lexeme

/-!
# YAML documents

A document is a tree of scalars, lists and mappings.  An alias stands for the
node that bears its anchor.  A source holds at most one document, and one
without any content is an empty plain scalar.
-/

namespace Netlist

inductive Yaml where
  | scalar (style : Yaml.Style) (tag : Option Text) (text : Text)
  | list (items : List Yaml)
  | mapping (entries : List (Yaml × Yaml))
  /-- An alias for a node around it. -/
  | cyclic

namespace Yaml

/-- The value of a key with nothing behind it. -/
def nothing : Yaml := .scalar .plain none []

/-- What is left of a document, and what the names in it stand for. -/
structure Draft where
  lexemes : List Lexeme
  /-- The nodes with an anchor, the latest first. -/
  anchors : List (Text × Yaml) := []
  /-- The starts of tags that handles stand for; of two for one handle the first counts. -/
  handles : List (Text × Text) := []

/-- A step that reads a part of a document, or refuses it. -/
abbrev Reader := StateT Draft Option

namespace Reader

/-- The lexeme that comes next. -/
def next : Reader (Option Lexeme) := do return (← get).lexemes.head?

/-- Passes over a lexeme. -/
def advance : Reader Unit :=
  modify fun draft => { draft with lexemes := draft.lexemes.drop 1 }

/-- Whether one of the lexemes comes next. -/
def meets (lexemes : List Lexeme) : Reader Bool := do
  match ← next with
  | none => return false
  | some lexeme => return lexemes.contains lexeme

/-- Passes over the lexeme if it comes next, and tells whether it did. -/
def accept (lexeme : Lexeme) : Reader Bool := do
  if ← meets [lexeme] then
    advance
    return true
  else return false

def expect (lexeme : Lexeme) : Reader Unit := do
  if ← accept lexeme then return () else failure

/-- Lets an anchor stand for a node. -/
def setAnchor (anchor : Option Text) (node : Yaml) : Reader Unit :=
  match anchor with
  | none => return ()
  | some name => modify fun draft => { draft with anchors := (name, node) :: draft.anchors }

/-- The node that an alias stands for. -/
def aliased (name : Text) : Reader Yaml := do
  ((← get).anchors.find? fun entry => entry.1 == name).map Prod.snd

/-- A tag in full. -/
def fullTag (handle suffix : Text) : Reader Text := do
  if handle.isEmpty then return suffix
  else
    let entry ← (← get).handles.find? fun entry => entry.1 == handle
    return entry.2 ++ suffix

def anchor? : Reader (Option Text) := do
  match ← next with
  | some (.anchor name) =>
      advance
      return some name
  | _ => return none

def tag? : Reader (Option Text) := do
  match ← next with
  | some (.tag handle suffix) =>
      advance
      return some (← fullTag handle suffix)
  | _ => return none

/-- The anchor and the tag of a node, in any order. -/
def properties : Reader (Option Text × Option Text) := do
  match ← anchor? with
  | some name => return (some name, ← tag?)
  | none =>
      let tag ← tag?
      return (← anchor?, tag)

end Reader

open Reader

/-- Where a node stands. -/
inductive Place where
  /-- Behind the dash of a block list, or at the top. -/
  | block
  /-- In a block mapping, where the dashes of a list need not stand further right. -/
  | entry
  /-- Between brackets or braces. -/
  | flow
deriving DecidableEq, Repr

mutual

/-- Reads a node; `bound` is greater than the number of steps this takes. -/
def readNode : (bound : Nat) → Place → Reader Yaml
  | 0, _ => failure
  | bound + 1, place => do
      if let some (.alias name) ← next then
        advance
        aliased name
      else
        let (anchor, tag) ← properties
        setAnchor anchor .cyclic
        let node ← readContent bound place tag (anchor.isSome || tag.isSome)
        setAnchor anchor node
        return node

/-- Reads a node behind its anchor and tag; with one of them it may be empty. -/
def readContent : (bound : Nat) → Place → (tag : Option Text) → (marked : Bool) → Reader Yaml
  | 0, _, _, _ => failure
  | bound + 1, place, tag, marked => do
      match ← next, place with
      | some (.scalar style text), _ =>
          advance
          return .scalar style (tag.filter fun tag => tag != ['!']) text
      | some .flowListStart, _ =>
          advance
          return .list (← flowItems bound true)
      | some .flowMappingStart, _ =>
          advance
          return .mapping (← flowEntries bound true)
      | some .blockEntry, .entry => return .list (← flushItems bound)
      | some .blockListStart, .block | some .blockListStart, .entry =>
          advance
          return .list (← blockItems bound)
      | some .blockMappingStart, .block | some .blockMappingStart, .entry =>
          advance
          return .mapping (← blockEntries bound)
      | _, _ => if marked then return .scalar .plain tag [] else failure

/-- Reads a node, unless one of the lexemes comes at once. -/
def readUnless : (bound : Nat) → Place → (ends : List Lexeme) → Reader Yaml
  | 0, _, _ => failure
  | bound + 1, place, ends => do
      if ← meets ends then return nothing else readNode bound place

/-- Reads the value of an entry, if there is one. -/
def readValue : (bound : Nat) → Place → (ends : List Lexeme) → Reader Yaml
  | 0, _, _ => failure
  | bound + 1, place, ends => do
      if ← accept .value then readUnless bound place ends else return nothing

/-- Reads the items of a block list. -/
def blockItems : (bound : Nat) → Reader (List Yaml)
  | 0 => failure
  | bound + 1 => do
      if ← accept .blockEntry then
        let item ← readUnless bound .block [.blockEntry, .blockEnd]
        return item :: (← blockItems bound)
      else
        expect .blockEnd
        return []

/-- Reads the items of a list whose dashes stand where the keys around it stand. -/
def flushItems : (bound : Nat) → Reader (List Yaml)
  | 0 => failure
  | bound + 1 => do
      if ← accept .blockEntry then
        let item ← readUnless bound .block [.blockEntry, .key, .value, .blockEnd]
        return item :: (← flushItems bound)
      else return []

/-- Reads the entries of a block mapping. -/
def blockEntries : (bound : Nat) → Reader (List (Yaml × Yaml))
  | 0 => failure
  | bound + 1 => do
      if ← accept .key then
        let key ← readUnless bound .entry [.key, .value, .blockEnd]
        let value ← readValue bound .entry [.key, .value, .blockEnd]
        return (key, value) :: (← blockEntries bound)
      else
        expect .blockEnd
        return []

/-- Reads the items between brackets; a comma stands before each but the first, and one may stand
behind the last. -/
def flowItems : (bound : Nat) → (first : Bool) → Reader (List Yaml)
  | 0, _ => failure
  | bound + 1, first => do
      if ← accept .flowListEnd then return []
      else
        if !first then expect .flowEntry
        if ← accept .flowListEnd then return []
        else
          let item ← flowItem bound
          return item :: (← flowItems bound false)

/-- Reads an item between brackets, which may be a mapping of one entry.  A mark in place of the
key of such an entry is passed over. -/
def flowItem : (bound : Nat) → Reader Yaml
  | 0 => failure
  | bound + 1 => do
      if ← accept .key then
        let marks := [Lexeme.value, .flowEntry, .flowListEnd]
        let missing ← meets marks
        let key ← readUnless bound .flow marks
        if missing then advance
        let value ← readValue bound .flow [.flowEntry, .flowListEnd]
        return .mapping [(key, value)]
      else readNode bound .flow

/-- Reads the entries between braces. -/
def flowEntries : (bound : Nat) → (first : Bool) → Reader (List (Yaml × Yaml))
  | 0, _ => failure
  | bound + 1, first => do
      if ← accept .flowMappingEnd then return []
      else
        if !first then expect .flowEntry
        if ← accept .flowMappingEnd then return []
        else
          let found ← flowPair bound
          return found :: (← flowEntries bound false)

/-- Reads an entry between braces. -/
def flowPair : (bound : Nat) → Reader (Yaml × Yaml)
  | 0 => failure
  | bound + 1 => do
      if ← accept .key then
        let key ← readUnless bound .flow [.value, .flowEntry, .flowMappingEnd]
        return (key, ← readValue bound .flow [.flowEntry, .flowMappingEnd])
      else return (← readNode bound .flow, nothing)

end

/-- The handles that need no directive. -/
def standardHandles : List (Text × Text) := [("!", "!"), ("!!", "tag:yaml.org,2002:")]

/-- The versions of the language that can be read. -/
def versions : List (Nat × Nat) := [(1, 1), (1, 2)]

/-- Reads the directives before a document: at most one version, and no handle twice. -/
def directives? (versioned : Bool) (handles : List (Text × Text)) :
    List Lexeme → Option (List (Text × Text) × List Lexeme)
  | .version major minor :: rest =>
      if versioned || !versions.contains (major, minor) then none
      else directives? true handles rest
  | .handle name lead :: rest =>
      if handles.any fun entry => entry.1 == name then none
      else directives? versioned (handles ++ [(name, lead)]) rest
  | lexemes => some (handles, lexemes)

/-- The document that starts with the lexemes, and what is behind it. -/
def content? (handles : List (Text × Text)) (lexemes : List Lexeme) :
    Option (Yaml × List Lexeme) :=
  ((readNode (4 * lexemes.length + 4) .block).run
    { lexemes, handles := handles ++ standardHandles }).map
      fun (node, draft) => (node, draft.lexemes)

/-- The document in a row of lexemes, and what is behind it.  Directives need a mark for the start
of the document behind them, and only behind such a mark the document may be empty. -/
def document? (lexemes : List Lexeme) : Option (Yaml × List Lexeme) :=
  match directives? false [] lexemes with
  | none => none
  | some (handles, .documentStart :: rest) =>
      if rest.head?.all fun lexeme => lexeme == .documentEnd then some (nothing, rest)
      else content? handles rest
  | some (handles, behind) => if behind = lexemes then content? handles behind else none

/-- The only document of a row of lexemes. -/
def ofLexemes? (lexemes : List Lexeme) : Option Yaml :=
  if lexemes.isEmpty then some nothing
  else
    (document? lexemes).bind fun (node, behind) =>
      if behind.all fun lexeme => lexeme == .documentEnd then some node else none

/-- The document of a source. -/
def read? (source : Text) : Option Yaml := (lexemes? source).bind ofLexemes?

end Yaml

end Netlist
