import PoolAccounting.Yaml.Inline

/-!
YAML documents of mappings, sequences and scalars. A line is known by its indentation; the entries
of one block stand at one indentation, and what is nested in an entry stands deeper, except that a
sequence may stand at the indentation of the key it belongs to.
-/
namespace PoolAccounting.Yaml

structure Line where
  indent : Nat
  content : List Char
  deriving DecidableEq, Repr

/-- Characters that may stand in a text. -/
def isAllowed (c : Char) : Bool :=
  let n := c.toNat
  n == 0x9 || n == 0xa || n == 0xd || n == 0x85 || (0x20 ≤ n && n ≤ 0x7e) ||
    (0xa0 ≤ n && n ≤ 0xfffd) || 0x10000 ≤ n

/-- Whether a character ends a line. -/
def isLineEnd (c : Char) : Bool :=
  c == '\n' || c == '\r' || c == '\u0085' || c == '\u2028' || c == '\u2029'

/-- The lines of a text. A carriage return and a line feed after it end one line. -/
def splitLines : List Char → List (List Char)
  | [] => [[]]
  | '\r' :: '\n' :: rest => [] :: splitLines rest
  | c :: rest =>
    if isLineEnd c then [] :: splitLines rest
    else match splitLines rest with
      | [] => [[c]]
      | line :: lines => (c :: line) :: lines

def Line.ofChars (cs : List Char) : Line :=
  ⟨(cs.takeWhile (· == ' ')).length, skipSpaces cs⟩

/-- The lines that hold more than a comment. -/
def contentLines (cs : List Char) : List Line :=
  ((splitLines cs).map Line.ofChars).filter fun l => !isDone l.content

/-- What follows the marker of an item, and how far it is indented. -/
def itemRest? (l : Line) : Option Line :=
  match l.content with
  | '-' :: rest =>
    if rest.isEmpty || rest.head? == some ' ' then
      let spaces := (rest.takeWhile (· == ' ')).length
      some ⟨l.indent + 1 + spaces, rest.drop spaces⟩
    else none
  | _ => none

/-- A line that starts with the marker `---` or `...`, and what follows it. -/
def afterMarker? (marker : List Char) (l : Line) : Option (List Char) :=
  let rest := l.content.drop marker.length
  if l.indent = 0 ∧ l.content.take marker.length = marker ∧ isBreak false rest then some rest
  else none

abbrev BlockReader (α : Type) := List Line → Except ReadFault (α × List Line)

mutual

/-- The node that starts on the first line. -/
def block : Nat → BlockReader Node
  | 0, _ => .error .malformed
  | _, [] => pure (.null, [])
  | fuel + 1, l :: rest =>
    match itemRest? l with
    | some _ => do
      let (items, left) ← sequence fuel l.indent [] (l :: rest)
      pure (.sequence items, left)
    | none => do
      match ← lineKey? l.content with
      | some _ =>
        let (entries, left) ← mapping fuel l.indent [] (l :: rest)
        pure (.ofEntries entries, left)
      | none =>
        let v ← wholeLine l.content
        pure (v, rest)

/-- The items at an indentation, after those read so far. -/
def sequence : Nat → Nat → List Node → BlockReader (List Node)
  | 0, _, _, _ => .error .malformed
  | _, _, items, [] => pure (items, [])
  | fuel + 1, indent, items, l :: rest =>
    match itemRest? l with
    | none => pure (items, l :: rest)
    | some item =>
      if l.indent ≠ indent then pure (items, l :: rest)
      else do
        let (v, left) ←
          if isDone item.content then nested fuel indent rest
          else block fuel (item :: rest)
        sequence fuel indent (items ++ [v]) left

/-- The node on the lines below that are indented deeper; null if there are none. -/
def nested : Nat → Nat → BlockReader Node
  | 0, _, _ => .error .malformed
  | _, _, [] => pure (.null, [])
  | fuel + 1, indent, l :: rest =>
    if indent < l.indent then block fuel (l :: rest) else pure (.null, l :: rest)

/-- The entries at an indentation, after those read so far. -/
def mapping : Nat → Nat → List (Node × Node) → BlockReader (List (Node × Node))
  | 0, _, _, _ => .error .malformed
  | _, _, entries, [] => pure (entries, [])
  | fuel + 1, indent, entries, l :: rest =>
    if l.indent < indent then pure (entries, l :: rest)
    else if indent < l.indent then .error .malformed
    else do
      match ← lineKey? l.content with
      | none => .error .malformed
      | some (key, after) =>
        let (v, left) ← entryValue fuel indent after rest
        mapping fuel indent (entries ++ [(key, v)]) left

/-- The value of an entry: the rest of its line, or else what is nested below it. -/
def entryValue : Nat → Nat → List Char → BlockReader Node
  | 0, _, _, _ => .error .malformed
  | fuel + 1, indent, after, rest =>
    if !isDone after then do
      let v ← wholeLine (skipSpaces after)
      pure (v, rest)
    else match rest with
      | [] => pure (.null, [])
      | l :: more =>
        if l.indent = indent ∧ (itemRest? l).isSome then do
          let (items, left) ← sequence fuel indent [] (l :: more)
          pure (.sequence items, left)
        else nested fuel indent (l :: more)

end

def startMark : List Char := ['-', '-', '-']

def endMark : List Char := ['.', '.', '.']

/-- The lines of the document up to its end marker. Only comments and more end markers may follow
it, and it has to end something. -/
def untilEnd (ls : List Line) : Except ReadFault (List Line) :=
  let isInside (l : Line) : Bool := (afterMarker? endMark l).isNone
  let inside := ls.takeWhile isInside
  let rest := ls.dropWhile isInside
  let isEnd (l : Line) : Bool := (afterMarker? endMark l).any isDone
  if rest.all isEnd && (rest.isEmpty || !inside.isEmpty) then pure inside else .error .malformed

/-- The node of a document without its start marker. -/
def body (ls : List Line) : Except ReadFault Node := do
  let size := ls.foldl (fun n l => n + l.content.length + 1) 0
  let (n, left) ← block (4 * size + 4) ls
  if left.isEmpty then pure n else .error .malformed

/-- The node of a text with at most one document; an empty text is null. -/
def document (cs : List Char) : Except ReadFault Node := do
  if !cs.all isAllowed then .error .malformed
  else
    let ls ← untilEnd (contentLines cs)
    match ls with
    | [] => pure .null
    | l :: rest =>
      if rest.any fun l => (afterMarker? startMark l).isSome then .error .malformed
      else match afterMarker? startMark l with
      | none => body ls
      | some after =>
        if isDone after then body rest
        else if rest.isEmpty then wholeLine (skipSpaces after)
        else .error .malformed

/-- A text without the byte order mark that it may begin with. -/
def dropMark : List Char → List Char
  | [] => []
  | c :: rest => if c = '\ufeff' then rest else c :: rest

/-- The value that a text describes. -/
def read (text : String) : Except ReadFault Value := do
  let n ← document (dropMark text.toList)
  n.value?

end PoolAccounting.Yaml
