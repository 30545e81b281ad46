import Relief.Yaml.Node
import Relief.Yaml.Stream

/-!
From a text to the tree of its document. Flow collections stand between brackets, block collections go on
as long as their entries begin at one column.
-/
namespace Relief.Yaml

/-- How far a text has been read, and what names in it stand for. -/
structure Source where
  stream : Stream
  /-- What tags with a handle begin with. -/
  handles : List (String × String)
  /-- Anchors by name, the latest first. -/
  anchors : List (String × Nat)
  anchorCount : Nat

abbrev Parse := StateT Source (Except Cause)

def malformed {α : Type} : Parse α := throw .malformed

def standardHandles : List (String × String) :=
  [(primaryHandle, primaryHandle), (secondaryHandle, Kind.coreTag)]

/-- The next token, which is left where it is. -/
def peek : Parse Token := do
  let s ← get
  let (t, stream) ← s.stream.head
  set { s with stream := stream }
  return t

/-- Passes over the token at hand. -/
def pass : Parse Unit :=
  modify fun s => { s with stream := s.stream.tail }

/-- Passes over the token at hand if it is a given one, and tells whether it was. -/
def passIf (t : Token) : Parse Bool := do
  if (← peek) == t then
    pass
    return true
  else return false

def version : Parse Version :=
  return (← get).stream.version

/-! ### Properties -/

/-- The number of a new anchor. The name stands for it from here on. -/
def newAnchor (name : String) : Parse Nat := do
  let s ← get
  set { s with anchors := (name, s.anchorCount) :: s.anchors, anchorCount := s.anchorCount + 1 }
  return s.anchorCount

def fullTag (handle : Option String) (suffix : String) : Parse String := do
  let suffix := String.ofList (unescapeUri suffix.toList)
  match handle with
  | none => return suffix
  | some name =>
    match (← get).handles.lookup name with
    | some start => return start ++ suffix
    | none => malformed

/-- The name of an anchor and a tag, in either order. -/
def propTokens : Parse (Option String × Option (Option String × String)) := do
  match ← peek with
  | .anchor name =>
    pass
    match ← peek with
    | .tag handle suffix =>
      pass
      return (some name, some (handle, suffix))
    | _ => return (some name, none)
  | .tag handle suffix =>
    pass
    match ← peek with
    | .anchor name =>
      pass
      return (some name, some (handle, suffix))
    | _ => return (none, some (handle, suffix))
  | _ => return (none, none)

/-- The name of an anchor and a whole tag. -/
def props : Parse (Option String × Option String) := do
  let (name, tag) ← propTokens
  match tag with
  | none => return (name, none)
  | some (handle, suffix) => return (name, some (← fullTag handle suffix))

/-! ### Nodes -/

/-- Nothing where a node should be. -/
def emptyNode : Node := .scalar .null (.text "")

/-- Passes over the comma before all items but the first one. -/
def separator (first : Bool) : Parse Unit := do
  if !first then
    if !(← passIf .comma) then malformed

/-- How deep collections may stand in each other. -/
def maxDepth : Nat := 480

mutual

/-- A node. Block collections are allowed in blocks only, and the value of a mapping may be a sequence at
the mapping's own column. -/
def node : (fuel depth : Nat) → (block sameColumn : Bool) → Parse Node
  | 0, _, _, _ => malformed
  | fuel + 1, depth, block, sameColumn => do
    if maxDepth < depth then throw .tooDeep
    let t ← peek
    if let .reference name := t then
      pass
      match (← get).anchors.lookup name with
      | some a => return .reference a
      | none => malformed
    else
      let (name, tag) ← props
      let t ← peek
      let v ← version
      let anchor ← match name with
        | some name => do pure (some (← newAnchor name))
        | none => pure none
      let n ← match t with
        | .scalar plain text => do
          pass
          pure (Node.scalar (Kind.ofScalar v tag plain text.string) text)
        | .flowStart .square => do
          pass
          pure (.sequence (Kind.ofTag v tag .sequence) (← flowItems fuel (depth + 1) true))
        | .flowStart .brace => do
          pass
          pure (.mapping (Kind.ofTag v tag .mapping) (← flowEntries fuel (depth + 1) true))
        | t => do
          if block && t == .blockSequence then
            pass
            pure (.sequence (Kind.ofTag v tag .sequence) (← blockItems fuel (depth + 1)))
          else if block && t == .blockMapping then
            pass
            pure (.mapping (Kind.ofTag v tag .mapping) (← blockEntries fuel (depth + 1)))
          else if sameColumn && t == .entry then
            pure (.sequence (Kind.ofTag v tag .sequence) (← entryItems fuel (depth + 1)))
          else if name.isSome || tag.isSome then
            pure (.scalar (Kind.ofScalar v tag true "") (.text ""))
          else malformed
      return match anchor with
        | some a => .anchored a n
        | none => n

/-- A node, unless a given token shows that there is none. -/
def nodeUnless : (fuel depth : Nat) → (block sameColumn : Bool) → List Token → Parse Node
  | 0, _, _, _, _ => malformed
  | fuel + 1, depth, block, sameColumn, ends => do
    if ends.contains (← peek) then return emptyNode else node fuel depth block sameColumn

/-- The items of a block sequence. -/
def blockItems : (fuel depth : Nat) → Parse (List Node)
  | 0, _ => malformed
  | fuel + 1, depth => do
    if ← passIf .entry then
      let item ← nodeUnless fuel depth true false [.entry, .blockEnd]
      return item :: (← blockItems fuel depth)
    else if ← passIf .blockEnd then return []
    else malformed

/-- The items of a sequence at the column of the mapping that it is in. -/
def entryItems : (fuel depth : Nat) → Parse (List Node)
  | 0, _ => malformed
  | fuel + 1, depth => do
    if ← passIf .entry then
      let item ← nodeUnless fuel depth true false [.entry, .key, .value, .blockEnd]
      return item :: (← entryItems fuel depth)
    else return []

/-- The entries of a block mapping. In the later version a key may be missing. -/
def blockEntries : (fuel depth : Nat) → Parse (List (Node × Node))
  | 0, _ => malformed
  | fuel + 1, depth => do
    let t ← peek
    if t == .key || (t == .value && (← version) == .v12) then
      let key ←
        if ← passIf .key then nodeUnless fuel depth true true [.key, .value, .blockEnd]
        else pure emptyNode
      let value ←
        if ← passIf .value then nodeUnless fuel depth true true [.key, .value, .blockEnd]
        else pure emptyNode
      return (key, value) :: (← blockEntries fuel depth)
    else if ← passIf .blockEnd then return []
    else malformed

/-- The items of a flow sequence. An item with a key is a mapping with one entry. -/
def flowItems : (fuel depth : Nat) → (first : Bool) → Parse (List Node)
  | 0, _, _ => malformed
  | fuel + 1, depth, first => do
    if ← passIf (.flowEnd .square) then return []
    else
      separator first
      if ← passIf (.flowEnd .square) then return []
      else
        let item ←
          if ← passIf .key then
            let key ← nodeUnless fuel (depth + 1) false false [.value, .comma, .flowEnd .square]
            let value ←
              if ← passIf .value then
                nodeUnless fuel (depth + 1) false false [.comma, .flowEnd .square]
              else pure emptyNode
            pure (.mapping .mapping [(key, value)])
          else node fuel depth false false
        return item :: (← flowItems fuel depth false)

/-- The entries of a flow mapping. Keys and values may be missing. -/
def flowEntries : (fuel depth : Nat) → (first : Bool) → Parse (List (Node × Node))
  | 0, _, _ => malformed
  | fuel + 1, depth, first => do
    if ← passIf (.flowEnd .brace) then return []
    else
      separator first
      if ← passIf (.flowEnd .brace) then return []
      else
        let ends : List Token := [.comma, .flowEnd .brace]
        let t ← peek
        let entry ←
          if t == .key || (t == .value && (← version) == .v12) then
            let key ←
              if ← passIf .key then nodeUnless fuel depth false false (.value :: ends)
              else pure emptyNode
            let value ←
              if ← passIf .value then nodeUnless fuel depth false false ends else pure emptyNode
            pure (key, value)
          else
            pure (← node fuel depth false false, emptyNode)
        return entry :: (← flowEntries fuel depth false)

end

/-! ### Documents -/

/-- The directives before a document: one version at most, and handles that differ. -/
def directives : (limit : Nat) → (numbers : Option (Nat × Nat)) → (handles : List (String × String)) →
    Parse Unit
  | 0, _, _ => malformed
  | limit + 1, numbers, handles => do
    match ← peek with
    | .directive d =>
      pass
      match d with
      | .version major minor =>
        if numbers.isSome || major ≠ 1 then malformed
        else directives limit (some (major, minor)) handles
      | .handle name start =>
        if (handles.lookup name).isSome then malformed
        else directives limit numbers ((name, start) :: handles)
      | .other => directives limit numbers handles
    | _ =>
      match numbers with
      | some (major, minor) => if (Version.ofNumbers? major minor).isNone then throw .version
      | none => pure ()
      modify fun s => { s with handles := handles ++ standardHandles }

/-- Whether a document begins here, with directives and a mark, or the text ends. -/
def beginsWithMark : (limit : Nat) → Parse Bool
  | 0 => malformed
  | limit + 1 => do
    if ← passIf .documentEnd then beginsWithMark limit
    else if (← peek) == .textEnd then return false
    else
      directives limit none []
      if ← passIf .documentStart then return true else malformed

def isContentEnd (t : Token) : Bool :=
  match t with
  | .directive _ | .documentStart | .documentEnd | .textEnd => true
  | _ => false

/-- Whether a mark, a directive or the end of the text follows, and not the content of a document. -/
def atMark : Parse Bool := do
  match ← peek with
  | .directive _ | .documentStart | .textEnd => return true
  | _ => return false

/-- Only the end of the text may follow a document. -/
def finish (limit : Nat) : Parse Unit := do
  let marked ← passIf .documentEnd
  let _ ← peek
  if marked && (← version) == .v12 && !(← atMark) then malformed
  else if ← beginsWithMark limit then malformed
  else return ()

/-- The document of a text, none for an empty one. -/
def document (limit : Nat) : Parse (Option Node) := do
  let fuel := 4 * limit
  if ← atMark then
    if ← beginsWithMark limit then
      let n ← if isContentEnd (← peek) then pure emptyNode else node fuel 0 true false
      finish limit
      return some n
    else return none
  else
    let n ← node fuel 0 true false
    finish limit
    return some n

/-- The tree of a text, none for an empty one. -/
def parse (text : String) : Except Cause (Option Node) :=
  let cs := text.toList
  if !cs.all isAllowed then .error .malformed
  else
    let stream := Stream.ofText cs
    let source : Source :=
      { stream := stream
        handles := standardHandles
        anchors := []
        anchorCount := 0 }
    ((document stream.limit).run source).map fun (found, _) => found.map Node.resolve

end Relief.Yaml
