import Netlist.Yaml.Scalar

/-!
# Lexemes of a document

A document is a row of scalars between marks.  Blocks have no marks of their
own: a block starts where an entry stands further right than the block around
it, and ends where something stands further left.  What may turn out to be the
key of an entry is remembered until a colon follows; then the marks of the key
and of its mapping are put in front of it.  Such a key fits on a line.
-/

namespace Netlist

namespace Yaml

inductive Lexeme where
  /-- A version directive. -/
  | version (major minor : Nat)
  /-- A directive that lets a handle stand for the start of tags. -/
  | handle (name lead : Text)
  | documentStart
  | documentEnd
  | blockListStart
  | blockMappingStart
  | blockEnd
  | flowListStart
  | flowListEnd
  | flowMappingStart
  | flowMappingEnd
  | blockEntry
  | flowEntry
  | key
  | value
  | alias (name : Text)
  | anchor (name : Text)
  | tag (handle suffix : Text)
  | scalar (style : Style) (text : Text)
deriving DecidableEq, Repr

/-- Where a key may have started. -/
structure KeyStart where
  /-- How many lexemes stand before it. -/
  position : Nat
  line : Nat
  column : Nat
  /-- Nothing but a key can stand there. -/
  required : Bool
deriving DecidableEq, Repr

namespace KeyStart

/-- The greatest length of a key. -/
def reach : Nat := 1024

/-- Whether a colon at the glyph would be too late. -/
def isPast (key : KeyStart) (glyph : Glyph) : Bool :=
  key.line < glyph.line || key.column + reach < glyph.column

end KeyStart

/-- The lexemes read so far, and what is open. -/
structure Scan where
  lexemes : Array Lexeme := #[]
  /-- The columns of the open blocks, the innermost first. -/
  columns : List Nat := []
  /-- What may be a key, outside all brackets or inside the innermost ones. -/
  key : Option KeyStart := none
  /-- The same for everything around the innermost brackets. -/
  outerKeys : List (Option KeyStart) := []
  /-- Whether a key may start here. -/
  keyAllowed : Bool := true

namespace Scan

/-- Between brackets or braces. -/
def inFlow (scan : Scan) : Bool := !scan.outerKeys.isEmpty

def push (scan : Scan) (lexeme : Lexeme) : Scan :=
  { scan with lexemes := scan.lexemes.push lexeme }

/-- The least column of what belongs to the innermost block. -/
def margin (scan : Scan) : Nat :=
  match scan.columns with
  | [] => 0
  | column :: _ => column + 1

def allowKey (scan : Scan) (allowed : Bool) : Scan := { scan with keyAllowed := allowed }

/-- Gives up what may have been a key, unless it had to be one. -/
def giveUp? : Option KeyStart → Option (Option KeyStart)
  | none => some none
  | some key => if key.required then none else some none

def dropKey? (scan : Scan) : Option Scan :=
  (giveUp? scan.key).map fun key => { scan with key }

/-- Remembers that a key may start at the glyph. -/
def markKey? (scan : Scan) (glyph : Glyph) : Option Scan :=
  if scan.keyAllowed then
    scan.dropKey?.map fun scan =>
      { scan with
        key := some
          { position := scan.lexemes.size
            line := glyph.line
            column := glyph.column
            required := !scan.inFlow && scan.margin == glyph.column + 1 } }
  else some scan

/-- Gives up a key that a colon at the glyph could not follow any more. -/
def expire? (glyph : Glyph) (key : Option KeyStart) : Option (Option KeyStart) :=
  match key with
  | none => some none
  | some start => if start.isPast glyph then giveUp? key else some key

def expireKeys? (scan : Scan) (glyph : Glyph) : Option Scan := do
  let key ← expire? glyph scan.key
  let outerKeys ← scan.outerKeys.mapM (expire? glyph)
  return { scan with key, outerKeys }

/-- Ends blocks. -/
def endBlocks (scan : Scan) (columns : List Nat) : Scan :=
  let count := scan.columns.length - columns.length
  { scan with
    columns
    lexemes := scan.lexemes ++ (List.replicate count Lexeme.blockEnd).toArray }

/-- Ends the blocks that stand right of a column. -/
def endBlocksAt (scan : Scan) (column : Nat) : Scan :=
  if scan.inFlow then scan else scan.endBlocks (scan.columns.dropWhile fun block => column < block)

/-- Ends all blocks. -/
def endAllBlocks (scan : Scan) : Scan := if scan.inFlow then scan else scan.endBlocks []

/-- Starts a block at a column, unless the innermost one stands there. -/
def startBlock (scan : Scan) (column position : Nat) (lexeme : Lexeme) : Scan :=
  if scan.inFlow || column < scan.margin then scan
  else
    { scan with
      columns := column :: scan.columns
      lexemes := scan.lexemes.insertIdxIfInBounds position lexeme }

/-- Starts a block whose first entry stands at the glyph. -/
def startBlockHere? (scan : Scan) (glyph : Glyph) (lexeme : Lexeme) : Option Scan :=
  if scan.inFlow then some scan
  else if scan.keyAllowed then some (scan.startBlock glyph.column scan.lexemes.size lexeme)
  else none

/-- Reads the directive or document mark that ends everything before it. -/
def interrupt? (scan : Scan) (lexeme : Lexeme) : Option Scan :=
  scan.endAllBlocks.dropKey?.map fun scan => (scan.allowKey false).push lexeme

def openFlow? (scan : Scan) (glyph : Glyph) (lexeme : Lexeme) : Option Scan :=
  (scan.markKey? glyph).map fun scan =>
    { scan.push lexeme with
      key := none
      outerKeys := scan.key :: scan.outerKeys
      keyAllowed := true }

def closeFlow? (scan : Scan) (lexeme : Lexeme) : Option Scan :=
  scan.dropKey?.map fun scan =>
    let scan := match scan.outerKeys with
      | [] => scan
      | key :: outerKeys => { scan with key, outerKeys }
    (scan.allowKey false).push lexeme

def flowEntry? (scan : Scan) : Option Scan :=
  scan.dropKey?.map fun scan => (scan.allowKey true).push .flowEntry

def blockEntry? (scan : Scan) (glyph : Glyph) : Option Scan := do
  let scan ← scan.startBlockHere? glyph .blockListStart
  let scan ← scan.dropKey?
  return (scan.allowKey true).push .blockEntry

/-- A key that is announced by a question mark. -/
def complexKey? (scan : Scan) (glyph : Glyph) : Option Scan := do
  let scan ← scan.startBlockHere? glyph .blockMappingStart
  let scan ← scan.dropKey?
  return (scan.allowKey (!scan.inFlow)).push .key

/-- A colon: what was remembered before it is a key now. -/
def value? (scan : Scan) (glyph : Glyph) : Option Scan :=
  match scan.key with
  | some start =>
      let marked :=
        { scan with
          lexemes := scan.lexemes.insertIdxIfInBounds start.position .key
          key := none
          keyAllowed := false }
      some ((marked.startBlock start.column start.position .blockMappingStart).push .value)
  | none =>
      (scan.startBlockHere? glyph .blockMappingStart).map fun scan =>
        (scan.allowKey (!scan.inFlow)).push .value

/-- A scalar, alias, anchor or tag, with which a key may start. -/
def word? (scan : Scan) (glyph : Glyph) (lexeme : Lexeme) : Option Scan :=
  (scan.markKey? glyph).map fun scan => (scan.allowKey false).push lexeme

end Scan

/-- Passes over blanks, line breaks and comments; a line break outside brackets lets a key start.
Where a key may start outside brackets, a tab is no blank. -/
def skipToLexeme (inFlow inComment keyAllowed : Bool) : List Glyph → Bool × List Glyph
  | [] => (keyAllowed, [])
  | first :: rest =>
      if isBreak first.char then skipToLexeme inFlow false (keyAllowed || !inFlow) rest
      else if inComment then skipToLexeme inFlow true keyAllowed rest
      else if first.char == byteOrderMark && first.column == 0 then
        skipToLexeme inFlow false keyAllowed rest
      else if first.char == ' ' || (first.char == '\t' && (inFlow || !keyAllowed)) then
        skipToLexeme inFlow false keyAllowed rest
      else if first.char == '#' then skipToLexeme inFlow true keyAllowed rest
      else (keyAllowed, first :: rest)

/-- The name of an alias or anchor. -/
def anchorName? (glyphs : List Glyph) : Option (Text × List Glyph) :=
  let (name, behind) := splitWhile isNameChar glyphs
  if !name.isEmpty && (endsWord behind || startsWithAny "?:,]\x7d%@`".toList behind) then
    some (name, behind)
  else none

/-- The handle of a tag, from its first exclamation mark on. -/
def tagHandle? : List Glyph → Option (Text × List Glyph)
  | [] => none
  | first :: rest =>
      if first.char == '!' then
        let (name, behind) := splitWhile isNameChar rest
        if startsWith '!' behind then some ('!' :: name ++ ['!'], behind.drop 1)
        else some ('!' :: name, behind)
      else none

/-- Characters of tags; commas and brackets only where they cannot end a list. -/
def isTagChar (wide : Bool) (c : Char) : Bool :=
  isNameChar c || ";/?:@&=+$.!~*'()".toList.contains c || (wide && ",[]".toList.contains c)

/-- An octet that is written as a percent sign and two digits. -/
def octet? : List Glyph → Option Nat
  | mark :: high :: low :: _ =>
      if mark.char == '%' then hexNumber? [high.char, low.char] else none
  | _ => none

/-- How many octets a character has, and the bits that its first octet adds. -/
def leadOctet? (octet : Nat) : Option (Nat × Nat) :=
  if octet < 0x80 then some (1, octet)
  else if 0xC0 ≤ octet && octet < 0xE0 then some (2, octet - 0xC0)
  else if 0xE0 ≤ octet && octet < 0xF0 then some (3, octet - 0xE0)
  else if 0xF0 ≤ octet && octet < 0xF8 then some (4, octet - 0xF0)
  else none

/-- Adds the bits of `count` further octets. -/
def tailOctets? : (count value : Nat) → List Glyph → Option (Nat × List Glyph)
  | 0, value, glyphs => some (value, glyphs)
  | count + 1, value, glyphs =>
      match octet? glyphs with
      | none => none
      | some octet =>
          if 0x80 ≤ octet && octet < 0xC0 then
            tailOctets? count (64 * value + (octet - 0x80)) (glyphs.drop 3)
          else none

/-- A character that is written as octets. -/
def octets? (glyphs : List Glyph) : Option (Char × List Glyph) := do
  let octet ← octet? glyphs
  let (count, bits) ← leadOctet? octet
  let (value, behind) ← tailOctets? (count - 1) bits (glyphs.drop 3)
  return (Char.ofNat value, behind)

/-- The characters of a tag, of which there are at most `bound`. -/
def tagText? (wide : Bool) : (bound : Nat) → List Glyph → Option (Text × List Glyph)
  | 0, _ => none
  | _, [] => some ([], [])
  | bound + 1, first :: rest =>
      if first.char == '%' then do
        let (c, behind) ← octets? (first :: rest)
        let (text, behind) ← tagText? wide bound behind
        return (c :: text, behind)
      else if isTagChar wide first.char then
        (tagText? wide bound rest).map fun (text, behind) => (first.char :: text, behind)
      else some ([], first :: rest)

def nonemptyTag? (wide : Bool) (glyphs : List Glyph) : Option (Text × List Glyph) :=
  (tagText? wide (glyphs.length + 1) glyphs).filter fun (text, _) => !text.isEmpty

/-- A tag between angle brackets. -/
def verbatimTag? (glyphs : List Glyph) : Option (Lexeme × List Glyph) := do
  let (text, behind) ← nonemptyTag? true glyphs
  if startsWith '>' behind then return (.tag [] text, behind.drop 1) else none

/-- A tag with a handle, or without one. -/
def shortTag? (glyphs : List Glyph) : Option (Lexeme × List Glyph) := do
  let (handle, behind) ← tagHandle? glyphs
  if 1 < handle.length && handle.getLast? == some '!' then
    let (text, behind) ← nonemptyTag? false behind
    return (.tag handle text, behind)
  else
    let (text, behind) ← tagText? false (behind.length + 1) behind
    let suffix := handle.drop 1 ++ text
    return (if suffix.isEmpty then .tag [] ['!'] else .tag ['!'] suffix, behind)

/-- A tag, from its first exclamation mark on. -/
def tag? (inFlow : Bool) (glyphs : List Glyph) : Option (Lexeme × List Glyph) := do
  let (lexeme, behind) ←
    if startsWith '<' (glyphs.drop 1) then verbatimTag? (glyphs.drop 2) else shortTag? glyphs
  if endsWord behind || (inFlow && startsWith ',' behind) then return (lexeme, behind) else none

/-- A number of at most nine digits. -/
def versionNumber? (glyphs : List Glyph) : Option (Nat × List Glyph) :=
  let (digits, behind) := splitWhile Char.isDigit glyphs
  if digits.isEmpty || 9 < digits.length then none
  else some (digits.foldl (fun value digit => 10 * value + (digit.toNat - '0'.toNat)) 0, behind)

def versionDirective? (glyphs : List Glyph) : Option (Lexeme × List Glyph) := do
  let (major, behind) ← versionNumber? (skipSpaces glyphs)
  if startsWith '.' behind then
    let (minor, behind) ← versionNumber? (behind.drop 1)
    return (.version major minor, behind)
  else none

/-- A handle in a directive is closed by an exclamation mark. -/
def handleDirective? (glyphs : List Glyph) : Option (Lexeme × List Glyph) := do
  let (name, behind) ← tagHandle? (skipSpaces glyphs)
  if name.getLast? == some '!' && startsWithAny [' ', '\t'] behind then
    let (lead, behind) ← nonemptyTag? true (skipSpaces behind)
    if endsWord behind then return (.handle name lead, behind) else none
  else none

/-- A directive behind its percent sign. -/
def directive? (glyphs : List Glyph) : Option (Lexeme × List Glyph) := do
  let (name, behind) := splitWhile isNameChar glyphs
  let (lexeme, behind) ←
    if !endsWord behind then none
    else if name = "YAML".toList then versionDirective? behind
    else if name = "TAG".toList then handleDirective? behind
    else none
  return (lexeme, ← finishLine? behind)

/-- Characters with a meaning of their own, with which no plain scalar starts. -/
def indicators : Text := "-?:,[]\x7b\x7d#&*!|>'\"%@`".toList

/-- A dash, question mark or colon starts a plain scalar if no blank follows. -/
def startsPlain (inFlow : Bool) (first : Glyph) (rest : List Glyph) : Bool :=
  !(isSpace first.char || isBreak first.char || indicators.contains first.char) ||
    (first.char == '-' && !startsWithAny [' ', '\t'] rest) ||
    (!inFlow && (first.char == '?' || first.char == ':') && !endsWord rest)

/-- Adds a word that was read to the lexemes. -/
def addWord? (scan : Scan) (glyph : Glyph) (found : Option (Lexeme × List Glyph)) :
    Option (Scan × List Glyph) := do
  let (lexeme, behind) ← found
  return (← scan.word? glyph lexeme, behind)

/-- Adds a quoted scalar. -/
def addQuoted? (scan : Scan) (glyph : Glyph) (found : Option Reading) :
    Option (Scan × List Glyph) :=
  addWord? scan glyph (found.map fun reading => (.scalar .quoted reading.text, reading.rest))

/-- Adds a plain scalar; behind one that went over a line break a key may start. -/
def addPlain? (scan : Scan) (glyph : Glyph) (glyphs : List Glyph) :
    Option (Scan × List Glyph) := do
  let reading ← plain? scan.inFlow scan.margin false {} glyphs
  let scan ← scan.word? glyph (.scalar .plain reading.text)
  return (if reading.broken then scan.allowKey true else scan, reading.rest)

/-- Adds a block of lines, behind which a key may start. -/
def addBlock? (scan : Scan) (folds : Bool) (glyphs : List Glyph) :
    Option (Scan × List Glyph) := do
  let reading ← block? folds scan.margin glyphs
  let scan ← scan.dropKey?
  let style := if folds then Style.folded else .literal
  return ((scan.allowKey true).push (.scalar style reading.text), reading.rest)

/-- Adds the lexeme that starts with the glyph `first`. -/
def addLexeme? (scan : Scan) (first : Glyph) (rest : List Glyph) :
    Option (Scan × List Glyph) :=
  let c := first.char
  let single (result : Option Scan) := result.map fun scan => (scan, rest)
  if first.column == 0 && c == '%' then do
    let (lexeme, behind) ← directive? rest
    return (← scan.interrupt? lexeme, behind)
  else if isDocumentMark (first :: rest) then
    (scan.interrupt? (if c == '-' then .documentStart else .documentEnd)).map fun scan =>
      (scan, rest.drop 2)
  else if c == '[' then single (scan.openFlow? first .flowListStart)
  else if c == '\x7b' then single (scan.openFlow? first .flowMappingStart)
  else if c == ']' then single (scan.closeFlow? .flowListEnd)
  else if c == '\x7d' then single (scan.closeFlow? .flowMappingEnd)
  else if c == ',' then single scan.flowEntry?
  else if c == '-' && endsWord rest then single (scan.blockEntry? first)
  else if c == '?' && (scan.inFlow || endsWord rest) then single (scan.complexKey? first)
  else if c == ':' && (scan.inFlow || endsWord rest) then single (scan.value? first)
  else if c == '*' then
    addWord? scan first ((anchorName? rest).map fun (name, behind) => (.alias name, behind))
  else if c == '&' then
    addWord? scan first ((anchorName? rest).map fun (name, behind) => (.anchor name, behind))
  else if c == '!' then addWord? scan first (tag? scan.inFlow (first :: rest))
  else if c == '|' && !scan.inFlow then addBlock? scan false rest
  else if c == '>' && !scan.inFlow then addBlock? scan true rest
  else if c == '\'' then addQuoted? scan first (singleQuoted? false {} rest)
  else if c == '"' then addQuoted? scan first (doubleQuoted? false {} rest)
  else if startsPlain scan.inFlow first rest then addPlain? scan first (first :: rest)
  else none

/-- Reads lexemes up to the end, of which there are at most `bound`. -/
def lexemesFrom? : (bound : Nat) → Scan → List Glyph → Option (Array Lexeme)
  | 0, _, _ => none
  | bound + 1, scan, glyphs =>
      let (keyAllowed, behind) := skipToLexeme scan.inFlow false scan.keyAllowed glyphs
      let scan := scan.allowKey keyAllowed
      match behind with
      | [] => scan.endAllBlocks.dropKey?.map Scan.lexemes
      | first :: rest => do
          let scan ← scan.expireKeys? first
          let (scan, behind) ← addLexeme? (scan.endBlocksAt first.column) first rest
          lexemesFrom? bound scan behind

/-- The lexemes of a source. -/
def lexemes? (source : Text) : Option (List Lexeme) :=
  (glyphs? source).bind fun glyphs =>
    (lexemesFrom? (glyphs.length + 1) {} glyphs).map Array.toList

end Yaml

end Netlist
