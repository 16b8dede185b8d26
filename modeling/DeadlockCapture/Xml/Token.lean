import DeadlockCapture.Xml.Character
import DeadlockCapture.Xml.Fault

/-!
The parts of a document in reading order: the pieces of tags, stretches of text, and the comments
and instructions among them. A document that cannot be divided any further ends in a fault, so that
whoever reads the tokens in order meets the first fault first.
-/

namespace DeadlockCapture.Xml

/-- A name with the part before its colon, which may be empty. -/
structure Name where
  space : List Char
  base : List Char
deriving DecidableEq, Repr

/-- A name as it is written; an empty part before the colon does not show. -/
def Name.text (n : Name) : String :=
  String.ofList (if n.space.isEmpty then n.base else n.space ++ ':' :: n.base)

/-- A part of a document. Offsets count characters. -/
inductive Token where
  | opening (name : Name) (start : Nat)
  | assignment (name : Name) (start : Nat) (raw : List Char) (rawStart : Nat)
  /-- The end of a start tag; whether the element is empty. -/
  | opened (isEmpty : Bool) (stop : Nat)
  | closing (name : Name) (start stop : Nat)
  | text (raw : List Char) (start : Nat)
  /-- A section whose characters are taken as they are. -/
  | verbatim (raw : List Char) (start : Nat)
  | aside (start : Nat)
  | fault (f : Fault)
deriving DecidableEq, Repr

/-- The place in a document where reading goes on. -/
inductive Mode where
  | before
  /-- In a start tag that has this many open elements around it. -/
  | tag (depth : Nat)
  /-- In the content of this many open elements and one more. -/
  | content (depth : Nat)
  | after
deriving DecidableEq, Repr

/-- One step of the reading: what it finds, how many further characters it takes, what follows. -/
structure Step where
  tokens : List Token
  used : Nat
  next : Mode

/-- The name in front, and its length. Both parts start with a letter, and there is at most one
colon. -/
def name? (s : List Char) : Option (Name × Nat) :=
  let run := s.takeWhile inName
  let head := run.takeWhile (· ≠ ':')
  match run.drop head.length with
  | [] => if head.head?.any startsLocalName then some (⟨[], head⟩, run.length) else none
  | _ :: base =>
    if base.all (· ≠ ':') && base.head?.any startsLocalName && head.head?.all startsLocalName then
      some (⟨head, base⟩, run.length)
    else none

/-- The number of characters up to the first that `stops`; every one must be allowed. -/
def allowedRun (stops : List Char → Bool) (offset : Nat) : List Char → Except Fault Nat
  | [] => .ok 0
  | c :: r =>
    if !isAllowed c then .error ⟨.forbiddenCharacter c, offset⟩
    else if stops (c :: r) then .ok 0
    else (allowedRun stops (offset + 1) r).map (· + 1)

/-- Whether a run of characters stands somewhere in a text. -/
def holdsRun (run : List Char) : List Char → Bool
  | [] => run.isEmpty
  | c :: r => run.isPrefixOf (c :: r) || holdsRun run r

/-- The length of the characters up to a closing mark and of the mark. -/
def closedRun (close : String) (offset : Nat) (s : List Char) : Except Fault Nat :=
  match allowedRun (close.toList.isPrefixOf ·) offset s with
  | .error f => .error f
  | .ok n =>
    if close.toList.isPrefixOf (s.drop n) then .ok (n + close.length)
    else .error ⟨.expectedText close, offset + n⟩

def expectMark (wanted : Char) (offset : Nat) (s : List Char) : Except Fault Unit :=
  match s with
  | [] => .error ⟨.unexpectedEnd, offset⟩
  | c :: _ => if c = wanted then .ok () else .error ⟨.expectedMark wanted c, offset⟩

/-- An attribute in front: its name, its raw value, where that starts, and the whole length. -/
def readAttribute (offset : Nat) (s : List Char) : Except Fault (Token × Nat) := do
  match name? s with
  | none => .error ⟨.invalidName, offset⟩
  | some (name, n) =>
    let equals := n + spaceRun (s.drop n)
    expectMark '=' (offset + equals) (s.drop equals)
    let quoteAt := equals + 1 + spaceRun (s.drop (equals + 1))
    match s.drop quoteAt with
    | [] => .error ⟨.unexpectedEnd, offset + quoteAt⟩
    | quote :: r =>
      if quote = '"' ∨ quote = '\x27' then
        let start := offset + quoteAt + 1
        let length ← allowedRun (fun t => t.head? = some quote || t.head? = some '<') start r
        expectMark quote (start + length) (r.drop length)
        .ok (.assignment name offset (r.take length) start, quoteAt + 1 + length + 1)
      else .error ⟨.expectedQuote quote, offset + quoteAt⟩

/-- A comment, after its opening bracket; it holds no two dashes and ends with none. -/
def comment (mode : Mode) (offset : Nat) (r : List Char) : Except Fault Step := do
  let body := r.drop 3
  let length ← closedRun "-->" (offset + 4) body
  let text := body.take (length - 3)
  if holdsRun ['-', '-'] text || text.getLast? = some '-' then .error ⟨.dashesInComment, offset⟩
  else .ok ⟨[.aside offset], 3 + length, mode⟩

def instruction (mode : Mode) (offset : Nat) (r : List Char) : Except Fault Step := do
  if ['?', 'x', 'm', 'l', ' '].isPrefixOf r then .error ⟨.secondDeclaration, offset⟩
  else
    let body := r.drop 1
    if body.head?.any startsName then
      let target := (body.takeWhile inName).length
      let skipped := target + spaceRun (body.drop target)
      let length ← closedRun "?>" (offset + 2 + skipped) (body.drop skipped)
      .ok ⟨[.aside offset], 1 + skipped + length, mode⟩
    else .error ⟨.invalidName, offset + 2⟩

/-- A section of characters taken as they are, after its opening bracket. -/
def characterSection (depth offset : Nat) (r : List Char) : Except Fault Step := do
  let body := r.drop 8
  let length ← closedRun "]]>" (offset + 9) body
  .ok ⟨[.verbatim (body.take (length - 3)) offset], 8 + length, .content depth⟩

def opening (depth offset : Nat) (r : List Char) : Except Fault Step :=
  match name? r with
  | none => .error ⟨.invalidName, offset + 1⟩
  | some (name, n) => .ok ⟨[.opening name offset], n, .tag depth⟩

/-- Where reading goes on after an element that has this many open elements around it. -/
def afterElement : Nat → Mode
  | 0 => .after
  | depth + 1 => .content depth

def closing (depth offset : Nat) (r : List Char) : Except Fault Step := do
  match name? (r.drop 1) with
  | none => .error ⟨.invalidName, offset + 2⟩
  | some (name, n) =>
    let last := 1 + n + spaceRun (r.drop (1 + n))
    expectMark '>' (offset + 1 + last) (r.drop last)
    .ok ⟨[.closing name offset (offset + last + 2)], last + 1, afterElement depth⟩

/-- A stretch of text from `c` up to the next bracket. -/
def textRun (depth offset : Nat) (c : Char) (r : List Char) : Except Fault Step := do
  let length ← allowedRun (·.head? = some '<') offset (c :: r)
  let raw := (c :: r).take length
  if holdsRun [']', ']', '>'] raw then .error ⟨.sectionEndInText, offset + length⟩
  else .ok ⟨[.text raw offset], length - 1, .content depth⟩

def outsideStep (mode : Mode) (offset : Nat) (c : Char) (r : List Char) : Except Fault Step :=
  if isSpace c then .ok ⟨[], spaceRun r, mode⟩
  else if c = '<' ∧ ['!', '-', '-'].isPrefixOf r then comment mode offset r
  else if c = '<' ∧ r.head? = some '?' then instruction mode offset r
  else if mode = .before ∧ c = '<' then
    if "!DOCTYPE".toList.isPrefixOf r then .error ⟨.documentType, offset⟩ else opening 0 offset r
  else .error ⟨.unknownToken, offset⟩

def tagStep (depth offset : Nat) (c : Char) (r : List Char) : Except Fault Step := do
  let spaces := spaceRun (c :: r)
  let here := offset + spaces
  match (c :: r).drop spaces with
  | [] => .error ⟨.unexpectedEnd, here⟩
  | d :: t =>
    if d = '/' then
      expectMark '>' (here + 1) t
      .ok ⟨[.opened true (here + 2)], spaces + 1, afterElement depth⟩
    else if d = '>' then .ok ⟨[.opened false (here + 1)], spaces, .content depth⟩
    else if spaces = 0 then .error ⟨.expectedSpace d, here⟩
    else
      let (token, length) ← readAttribute here (d :: t)
      .ok ⟨[token], spaces + length - 1, .tag depth⟩

def contentStep (depth offset : Nat) (c : Char) (r : List Char) : Except Fault Step :=
  if c = '<' then
    match r with
    | [] => .error ⟨.unknownToken, offset⟩
    | d :: t =>
      if d = '!' then
        if ['-', '-'].isPrefixOf t then comment (.content depth) offset r
        else if "[CDATA[".toList.isPrefixOf t then characterSection depth offset r
        else .error ⟨.unknownToken, offset⟩
      else if d = '?' then instruction (.content depth) offset r
      else if d = '/' then closing depth offset r
      else opening (depth + 1) offset r
  else textRun depth offset c r

def step (mode : Mode) (offset : Nat) (c : Char) (r : List Char) : Except Fault Step :=
  match mode with
  | .before => outsideStep .before offset c r
  | .tag depth => tagStep depth offset c r
  | .content depth => contentStep depth offset c r
  | .after => outsideStep .after offset c r

def tokensFrom (mode : Mode) (offset : Nat) : List Char → List Token
  | [] => []
  | c :: r =>
    match step mode offset c r with
    | .error f => [.fault f]
    | .ok s => s.tokens ++ tokensFrom s.next (offset + 1 + s.used) (r.drop s.used)
termination_by s => s.length
decreasing_by simp only [List.length_drop, List.length_cons]; omega

def declarationSpace (offset : Nat) (s : List Char) : Except Fault Nat :=
  match s with
  | [] => .ok 0
  | c :: _ =>
    if isSpace c then .ok (spaceRun s)
    else if ['?', '>'].isPrefixOf s then .ok 0
    else .error ⟨.expectedSpace c, offset⟩

/-- An attribute of the declaration that may be missing, and blanks after it. -/
def declarationPart (name : String) (offset : Nat) (s : List Char) : Except Fault Nat := do
  if name.toList.isPrefixOf s then
    let (_, n) ← readAttribute offset s
    .ok n
  else .ok 0

/-- The length of the declaration in front, if there is one: a version, then an encoding and a
statement on outside markup, in this order. -/
def declarationLength (offset : Nat) (s : List Char) : Except Fault Nat := do
  if "<?xml ".toList.isPrefixOf s then
    let a := 5 + spaceRun (s.drop 5)
    if "version".toList.isPrefixOf (s.drop a) then
      let (_, version) ← readAttribute (offset + a) (s.drop a)
      let b := a + version
      let c := b + (← declarationSpace (offset + b) (s.drop b))
      let encoding ← declarationPart "encoding" (offset + c) (s.drop c)
      let d := c + encoding
      let e := d + (← if encoding = 0 then .ok 0 else declarationSpace (offset + d) (s.drop d))
      let f := e + (← declarationPart "standalone" (offset + e) (s.drop e))
      let g := f + spaceRun (s.drop f)
      if ['?', '>'].isPrefixOf (s.drop g) then .ok (g + 2)
      else .error ⟨.expectedText "?>", offset + g⟩
    else .error ⟨.expectedText "version", offset + a⟩
  else .ok 0

/-- The tokens of a document. A byte order mark may stand in front. -/
def tokens (document : List Char) : List Token :=
  let bom := if document.head? = some '\uFEFF' then 1 else 0
  let rest := document.drop bom
  match declarationLength bom rest with
  | .error f => [.fault f]
  | .ok n => tokensFrom .before (bom + n) (rest.drop n)

end DeadlockCapture.Xml
