import PoolAccounting.Yaml.Node

/-!
Nodes of a YAML text that stand on one line: plain and quoted scalars, and collections in brackets.
Each reader gives the node and what is left of the line.
-/
namespace PoolAccounting.Yaml

abbrev Reader (α : Type) := List Char → Except ReadFault (α × List Char)

def skipSpaces (cs : List Char) : List Char := cs.dropWhile (· == ' ')

/-- Whether a line is over here, but for a comment. -/
def isDone (cs : List Char) : Bool :=
  match skipSpaces cs with
  | [] => true
  | c :: _ => c == '#'

/-- Whether a plain scalar cannot go on: after a colon, or where one would start. -/
def isBreak (inFlow : Bool) : List Char → Bool
  | [] => true
  | c :: _ => c == ' ' || c == '\t' || (inFlow && [',', '[', ']', '{', '}'].contains c)

/-- The characters of a plain scalar from here on, with the spaces that may follow it. It ends
before a colon that is followed by a break, a comment after a space, a tab, and inside brackets
also before an indicator of theirs. -/
def plainRun (inFlow afterSpace : Bool) : List Char → List Char × List Char
  | [] => ([], [])
  | c :: rest =>
    if (c == ':' && isBreak inFlow rest) || (c == '#' && afterSpace) || c == '\t' ||
        (inFlow && [',', '?', '[', ']', '{', '}'].contains c) then ([], c :: rest)
    else
      let (run, left) := plainRun inFlow (c == ' ') rest
      (c :: run, left)

def trimRight (cs : List Char) : List Char := (cs.reverse.dropWhile (· == ' ')).reverse

/-- Whether a plain scalar can start here. -/
def startsPlain (inFlow : Bool) : List Char → Bool
  | [] => false
  | c :: rest =>
    if c == '-' then !isBreak false rest
    else if c == '?' || c == ':' then !inFlow && !isBreak false rest
    else !"\t,[]\x7b\x7d#&*!|>\x27\x22%@\x60".toList.contains c

def plain (inFlow : Bool) : Reader (List Char) := fun cs =>
  if startsPlain inFlow cs then
    let (run, left) := plainRun inFlow false cs
    pure (trimRight run, left)
  else .error .malformed

/-- The rest of a text in single quotation marks; a mark inside it is written twice. -/
def singleQuoted : Reader (List Char)
  | [] => .error .malformed
  | c :: rest =>
    if c = '\x27' then
      match rest with
      | d :: more =>
        if d = '\x27' then do
          let (s, left) ← singleQuoted more
          pure ('\x27' :: s, left)
        else pure ([], rest)
      | [] => pure ([], [])
    else do
      let (s, left) ← singleQuoted rest
      pure (c :: s, left)

/-- The character of a one-letter escape. -/
def escape? : Char → Option Char
  | '0' => some '\x00'
  | 'a' => some '\x07'
  | 'b' => some '\x08'
  | 't' | '\t' => some '\t'
  | 'n' => some '\n'
  | 'v' => some '\x0b'
  | 'f' => some '\x0c'
  | 'r' => some '\r'
  | 'e' => some '\x1b'
  | ' ' => some ' '
  | '"' => some '"'
  | '\\' => some '\\'
  | '/' => some '/'
  | 'N' => some '\u0085'
  | '_' => some '\u00a0'
  | 'L' => some '\u2028'
  | 'P' => some '\u2029'
  | _ => none

/-- How many digits follow the letter of a numeric escape. -/
def escapeWidth? : Char → Option Nat
  | 'x' => some 2
  | 'u' => some 4
  | 'U' => some 8
  | _ => none

def charOfDigits? (ds : List Char) : Option Char :=
  let n := digitsValue 16 ds
  if ds.all (isDigitOf 16) && (n < 0xd800 || (0xdfff < n && n < 0x110000)) then
    some (Char.ofNat n)
  else none

/-- The rest of a text in double quotation marks, one character or escape at a time. -/
def doubleQuoted : Nat → Reader (List Char)
  | 0, _ => .error .malformed
  | _, [] => .error .malformed
  | fuel + 1, c :: rest =>
    if c = '"' then pure ([], rest)
    else if c = '\\' then
      match rest with
      | [] => .error .malformed
      | letter :: more =>
        match escape? letter, escapeWidth? letter with
        | some d, _ => do
          let (s, left) ← doubleQuoted fuel more
          pure (d :: s, left)
        | none, some width =>
          if more.length < width then .error .malformed
          else match charOfDigits? (more.take width) with
            | some d => do
              let (s, left) ← doubleQuoted fuel (more.drop width)
              pure (d :: s, left)
            | none => .error .malformed
        | none, none => .error .malformed
    else do
      let (s, left) ← doubleQuoted fuel rest
      pure (c :: s, left)

def scalar (inFlow : Bool) : Reader Node := fun cs =>
  match cs with
  | '\x27' :: rest => do
    let (s, left) ← singleQuoted rest
    pure (.scalar (.ok (.text (String.ofList s))), left)
  | '"' :: rest => do
    let (s, left) ← doubleQuoted (rest.length + 1) rest
    pure (.scalar (.ok (.text (String.ofList s))), left)
  | _ => do
    let (s, left) ← plain inFlow cs
    pure (.ofPlain s, left)

/-- The most characters that a key may have up to its colon. -/
def maxKeyWidth : Nat := 1024

/-- Refuses a key that starts at `start` and ends before the colon at `colon`, if it is too wide. -/
def checkKey (start colon : List Char) : Except ReadFault Unit :=
  if maxKeyWidth < start.length - colon.length then .error .malformed else pure ()

mutual

/-- A node inside brackets, or one that opens them. -/
def flowNode : Nat → Reader Node
  | 0, _ => .error .malformed
  | fuel + 1, cs =>
    match cs with
    | '[' :: rest => do
      let (items, left) ← flowItems fuel [] (skipSpaces rest)
      pure (.sequence items, left)
    | '{' :: rest => do
      let (entries, left) ← flowEntries fuel [] (skipSpaces rest)
      pure (.ofEntries entries, left)
    | _ => scalar true cs

/-- The value after a key inside brackets; without a colon or without a node it is null. -/
def flowValue : Nat → Reader Node
  | 0, _ => .error .malformed
  | fuel + 1, cs =>
    match cs with
    | ':' :: rest =>
      match skipSpaces rest with
      | c :: more =>
        if c == ',' || c == ']' || c == '}' then pure (.null, c :: more)
        else flowNode fuel (c :: more)
      | [] => .error .malformed
    | _ => pure (.null, cs)

/-- A key with its value inside brackets, and whether the colon between them is there. -/
def flowPair : Nat → Reader (Node × Node × Bool)
  | 0, _ => .error .malformed
  | fuel + 1, cs => do
    let (key, left) ← flowNode fuel cs
    let colon := skipSpaces left
    let isKey := colon.head? == some ':'
    if isKey then checkKey cs colon
    let (value, left) ← flowValue fuel colon
    pure ((key, value, isKey), skipSpaces left)

/-- The items up to the closing bracket, after those read so far. A pair without braces of its own
is a mapping of one entry. -/
def flowItems : Nat → List Node → Reader (List Node)
  | 0, _, _ => .error .malformed
  | _, items, ']' :: rest => pure (items, rest)
  | fuel + 1, items, cs => do
    let ((key, value, isKey), left) ← flowPair fuel cs
    let item := if isKey then .ofEntries [(key, value)] else key
    match left with
    | ',' :: rest => flowItems fuel (items ++ [item]) (skipSpaces rest)
    | ']' :: rest => pure (items ++ [item], rest)
    | _ => .error .malformed

def flowEntries : Nat → List (Node × Node) → Reader (List (Node × Node))
  | 0, _, _ => .error .malformed
  | _, entries, '}' :: rest => pure (entries, rest)
  | fuel + 1, entries, cs => do
    let ((key, value, _), left) ← flowPair fuel cs
    match left with
    | ',' :: rest => flowEntries fuel (entries ++ [(key, value)]) (skipSpaces rest)
    | '}' :: rest => pure (entries ++ [(key, value)], rest)
    | _ => .error .malformed

end

/-- A node inside or outside of brackets, on a line that is outside. -/
def inlineNode : Reader Node := fun cs =>
  match cs with
  | '[' :: _ | '{' :: _ => flowNode (3 * cs.length + 3) cs
  | _ => scalar false cs

/-- A node that takes up the rest of its line. -/
def wholeLine (cs : List Char) : Except ReadFault Node := do
  let (n, left) ← inlineNode cs
  if isDone left then pure n else .error .malformed

/-- The key at the start of a line and what follows its colon; `none` if the line has no key. -/
def lineKey? (cs : List Char) : Except ReadFault (Option (Node × List Char)) := do
  let (key, left) ← inlineNode cs
  match skipSpaces left with
  | ':' :: after =>
    if isBreak false after then do
      checkKey cs (':' :: after)
      pure (some (key, after))
    else pure none
  | _ => pure none

end PoolAccounting.Yaml
