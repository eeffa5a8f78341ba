import CollisionRules.Yaml.Library
import CollisionRules.Yaml.Token

namespace CollisionRules.Yaml

namespace Node

def missing : Node := .scalar false []

/-- Reads a node, unless one of the tokens in `ends` stands in its place. -/
def unlessAt (ends : List Token) (read : List Token → Option (Node × List Token)) :
    List Token → Option (Node × List Token)
  | [] => none
  | token :: rest =>
    if ends.contains token then some (missing, token :: rest) else read (token :: rest)

mutual

/-- Reads a node. A block may begin only where `block` says so, and entries without
    a block of their own only where `bare` does. -/
def read (block bare : Bool) : (budget : Nat) → List Token → Option (Node × List Token)
  | 0, _ => none
  | budget + 1, tokens =>
    match tokens with
    | .scalar quoted text :: rest => some (.scalar quoted text, rest)
    | .flowSequenceStart :: rest =>
      (readFlowSequence true budget rest).map fun (entries, rest) => (.sequence entries, rest)
    | .flowMappingStart :: rest =>
      (readFlowMapping true budget rest).map fun (entries, rest) => (.mapping entries, rest)
    | .blockSequenceStart :: rest =>
      if block then
        (readSequence budget rest).map fun (entries, rest) => (.sequence entries, rest)
      else none
    | .blockMappingStart :: rest =>
      if block then
        (readMapping budget rest).map fun (entries, rest) => (.mapping entries, rest)
      else none
    | .blockEntry :: rest =>
      if bare then
        (readBareSequence budget (.blockEntry :: rest)).map fun (entries, rest) =>
          (.sequence entries, rest)
      else none
    | _ => none

/-- Reads the entries of a block sequence, and its end. -/
def readSequence : (budget : Nat) → List Token → Option (List Node × List Token)
  | 0, _ => none
  | budget + 1, tokens =>
    match tokens with
    | .blockEntry :: rest => do
      let (entry, rest) ← unlessAt [.blockEntry, .blockEnd] (read true false budget) rest
      let (entries, rest) ← readSequence budget rest
      return (entry :: entries, rest)
    | .blockEnd :: rest => some ([], rest)
    | _ => none

/-- Reads the entries of a sequence that stands at the column of the mapping around
    it, and so has no end of its own. -/
def readBareSequence : (budget : Nat) → List Token → Option (List Node × List Token)
  | 0, _ => none
  | budget + 1, tokens =>
    match tokens with
    | .blockEntry :: rest => do
      let ends : List Token := [.blockEntry, .key, .value, .blockEnd]
      let (entry, rest) ← unlessAt ends (read true false budget) rest
      let (entries, rest) ← readBareSequence budget rest
      return (entry :: entries, rest)
    | _ => some ([], tokens)

/-- Reads the entries of a block mapping, and its end. -/
def readMapping : (budget : Nat) → List Token → Option (List (Node × Node) × List Token)
  | 0, _ => none
  | budget + 1, tokens =>
    match tokens with
    | .key :: rest => do
      let ends : List Token := [.key, .value, .blockEnd]
      let (key, rest) ← unlessAt ends (read true true budget) rest
      let (value, rest) ←
        match rest with
        | .value :: rest => unlessAt ends (read true true budget) rest
        | _ => some (missing, rest)
      let (entries, rest) ← readMapping budget rest
      return ((key, value) :: entries, rest)
    | .blockEnd :: rest => some ([], rest)
    | _ => none

/-- Reads the value behind a key between brackets, if there is one. -/
def readFlowValue (ends : List Token) : (budget : Nat) → List Token → Option (Node × List Token)
  | 0, _ => none
  | budget + 1, tokens =>
    match tokens with
    | .value :: rest => unlessAt ends (read false false budget) rest
    | _ => some (missing, tokens)

/-- Reads the entries of a sequence in brackets, and the closing one. A single pair
    may stand in place of an entry. A pair whose key is missing takes the token that
    stands in place of the key. -/
def readFlowSequence (first : Bool) : (budget : Nat) → List Token → Option (List Node × List Token)
  | 0, _ => none
  | budget + 1, tokens =>
    match tokens with
    | .flowSequenceEnd :: rest => some ([], rest)
    | _ => do
      let tokens ←
        match first, tokens with
        | true, _ => some tokens
        | false, .flowEntry :: rest => some rest
        | false, _ => none
      match tokens with
      | .flowSequenceEnd :: rest => some ([], rest)
      | .key :: rest => do
        let (key, rest) ←
          match rest with
          | .value :: rest | .flowEntry :: rest | .flowSequenceEnd :: rest => some (missing, rest)
          | _ => read false false budget rest
        let (value, rest) ← readFlowValue [.flowEntry, .flowSequenceEnd] budget rest
        let (entries, rest) ← readFlowSequence false budget rest
        return (.mapping [(key, value)] :: entries, rest)
      | _ => do
        let (entry, rest) ← read false false budget tokens
        let (entries, rest) ← readFlowSequence false budget rest
        return (entry :: entries, rest)

/-- Reads the entries of a mapping in braces, and the closing one. A key may stand
    without a value. -/
def readFlowMapping (first : Bool) :
    (budget : Nat) → List Token → Option (List (Node × Node) × List Token)
  | 0, _ => none
  | budget + 1, tokens =>
    match tokens with
    | .flowMappingEnd :: rest => some ([], rest)
    | _ => do
      let tokens ←
        match first, tokens with
        | true, _ => some tokens
        | false, .flowEntry :: rest => some rest
        | false, _ => none
      match tokens with
      | .flowMappingEnd :: rest => some ([], rest)
      | .key :: rest => do
        let ends : List Token := [.value, .flowEntry, .flowMappingEnd]
        let (key, rest) ← unlessAt ends (read false false budget) rest
        let (value, rest) ← readFlowValue [.flowEntry, .flowMappingEnd] budget rest
        let (entries, rest) ← readFlowMapping false budget rest
        return ((key, value) :: entries, rest)
      | _ => do
        let (key, rest) ← read false false budget tokens
        let (entries, rest) ← readFlowMapping false budget rest
        return ((key, missing) :: entries, rest)

end

/-- Takes the versions in front of a document. There may be one, of YAML 1.1
    or 1.2. -/
def afterVersion : List Token → Option (List Token)
  | .version major minor :: rest =>
    if major = 1 ∧ (minor = 1 ∨ minor = 2) then some rest else none
  | tokens => some tokens

/-- Takes the marks of the end of a document, and the end of the stream. -/
def endsStream : List Token → Bool
  | [.streamEnd] => true
  | .documentEnd :: rest => endsStream rest
  | _ => false

/-- The tree of the only document of a stream. Without a document there is no
    tree. -/
def ofTokens? (tokens : List Token) : Option (Option Node) := do
  let budget := 2 * tokens.length + 1
  let (root, rest) ←
    match tokens with
    | [.streamEnd] => some (none, tokens)
    | .version _ _ :: _ | .documentStart :: _ =>
      match ← afterVersion tokens with
      | .documentStart :: rest =>
        let (root, rest) ←
          unlessAt [.documentStart, .documentEnd, .streamEnd] (read true false budget) rest
        some (some root, rest)
      | _ => none
    | _ =>
      let (root, rest) ← read true false budget tokens
      some (some root, rest)
  if endsStream rest then some root else none

/-- The tree of the only document of a text. -/
def ofText? (text : List Char) : Option (Option Node) := do
  ofTokens? (← Token.ofText? text)

end Node

end CollisionRules.Yaml
