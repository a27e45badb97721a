/-
# Reading YAML

A text holds at most one document, which is a node.  Between brackets and in blocks the
nodes of collections follow each other as their tokens do; where nothing is written in
place of a node, it is null.  A node may be named, and its name stands for it later on.
-/
import Reshape.Yaml.Token

namespace Reshape.Yaml

/-! ## Names -/

/-- What is known of names and handles while nodes are read: which number the node of a
name has, which nodes were read to their end by their numbers, and the handles that the
document declares. -/
structure Names where
  handles : Handles := []
  numbers : List (String × Nat) := []
  nodes : List (Nat × Yaml) := []

namespace Names

/-- The names with one for a node that is still to be read, and the number of the
node. -/
def declare (ns : Names) (name : String) : Nat × Names :=
  let n := ns.numbers.length
  (n, { ns with numbers := (name, n) :: ns.numbers })

/-- The names with a node read to its end. -/
def complete (ns : Names) (number? : Option Nat) (v : Yaml) : Names :=
  match number? with
  | some n => { ns with nodes := (n, v) :: ns.nodes }
  | none => ns

/-- The node of a name.  Within the node itself it has none. -/
def node? (ns : Names) (name : String) : Option Yaml :=
  (ns.numbers.lookup name).map fun n => (ns.nodes.lookup n).getD .invalid

end Names

/-! ## Properties -/

/-- What stands in front of a node: the number of its name, and its tag. -/
structure Properties where
  number? : Option Nat := none
  tag? : Option Tag := none

/-- There is none of them. -/
def Properties.isNone (p : Properties) : Bool := p.number?.isNone && p.tag?.isNone

/-- The node of a scalar with these properties. -/
def Properties.scalar (p : Properties) (plain : Bool) (text : String) : Yaml :=
  if !plain then .string text
  else
    match p.tag? with
    | some t => t.plain text
    | none => ofPlain text

/-- The properties at the start of tokens, a name and a tag at most, the names with
these, and the tokens past them. -/
def properties? (ns : Names) (ts : List Token) : Option (Properties × Names × List Token) :=
  match ts with
  | .anchor a :: .tag t :: rest => do
    let (n, ns) := ns.declare a
    return (⟨some n, some (← t.resolved? ns.handles)⟩, ns, rest)
  | .anchor a :: rest =>
    let (n, ns) := ns.declare a
    some (⟨some n, none⟩, ns, rest)
  | .tag t :: .anchor a :: rest => do
    let t ← t.resolved? ns.handles
    let (n, ns) := ns.declare a
    return (⟨some n, some t⟩, ns, rest)
  | .tag t :: rest => do return (⟨none, some (← t.resolved? ns.handles)⟩, ns, rest)
  | _ => some ({}, ns, ts)

/-! ## Nodes -/

/-- What was read of a document: a node or several, the names known then, and the tokens
to come. -/
structure Read (α : Type) where
  node : α
  names : Names
  rest : List Token

/-- Nothing is written in place of a node before one of some tokens. -/
def before (ends : List Token) (ts : List Token) : Bool :=
  match ts with
  | t :: _ => ends.contains t
  | [] => false

mutual

/-- The node at the start of tokens; `n` bounds the work.  Collections in blocks stand
only where a `block` may, and their items may stand in the column of a key where
`shared` says so. -/
def node? : (n : Nat) → (block shared : Bool) → Names → List Token → Option (Read Yaml)
  | 0, _, _, _, _ => none
  | _ + 1, _, _, ns, .alias a :: rest => (ns.node? a).map fun v => ⟨v, ns, rest⟩
  | n + 1, block, shared, ns, ts => do
    let (p, ns, ts) ← properties? ns ts
    let r ← content? n block shared p ns ts
    return { r with names := r.names.complete p.number? r.node }

/-- The node without its properties. -/
def content? : (n : Nat) → (block shared : Bool) → Properties → Names → List Token →
    Option (Read Yaml)
  | 0, _, _, _, _, _ => none
  | n + 1, block, shared, p, ns, ts =>
    match ts, block, shared with
    | .blockEntry :: _, _, true => sharedItems? n [] ns ts
    | .scalar plain text :: rest, _, _ => some ⟨p.scalar plain text, ns, rest⟩
    | .flowSequence :: rest, _, _ => flowItems? n true [] ns rest
    | .flowMapping :: rest, _, _ => flowNodes? n true [] ns rest
    | .blockSequence :: rest, true, _ => blockItems? n [] ns rest
    | .blockMapping :: rest, true, _ => blockNodes? n [] ns rest
    | _, _, _ => if p.isNone then none else some ⟨p.scalar true "", ns, ts⟩

/-- The node, or null where nothing is written in its place. -/
def nodeOrNull? : (n : Nat) → (ends : List Token) → (block shared : Bool) → Names →
    List Token → Option (Read Yaml)
  | 0, _, _, _, _, _ => none
  | n + 1, ends, block, shared, ns, ts =>
    if before ends ts then some ⟨.null, ns, ts⟩ else node? n block shared ns ts

/-- The items of a block up to its end. -/
def blockItems? : (n : Nat) → (items : List Yaml) → Names → List Token → Option (Read Yaml)
  | 0, _, _, _ => none
  | _ + 1, items, ns, .blockEnd :: rest => some ⟨.sequence items, ns, rest⟩
  | n + 1, items, ns, .blockEntry :: rest => do
    let r ← nodeOrNull? n [.blockEntry, .blockEnd] true false ns rest
    blockItems? n (items ++ [r.node]) r.names r.rest
  | _ + 1, _, _, _ => none

/-- The items that stand in the column of their key, as long as there are any. -/
def sharedItems? : (n : Nat) → (items : List Yaml) → Names → List Token → Option (Read Yaml)
  | 0, _, _, _ => none
  | n + 1, items, ns, .blockEntry :: rest => do
    let r ← nodeOrNull? n [.blockEntry, .key, .value, .blockEnd] true false ns rest
    sharedItems? n (items ++ [r.node]) r.names r.rest
  | _ + 1, items, ns, ts => some ⟨.sequence items, ns, ts⟩

/-- The value behind a colon, or null if there is no colon. -/
def value? : (n : Nat) → (ends : List Token) → (block : Bool) → Names → List Token →
    Option (Read Yaml)
  | 0, _, _, _, _ => none
  | n + 1, ends, block, ns, .value :: rest => nodeOrNull? n ends block block ns rest
  | _ + 1, _, _, ns, ts => some ⟨.null, ns, ts⟩

/-- The mapping whose keys and values are those so far and the ones up to the end of the
block. -/
def blockNodes? : (n : Nat) → (nodes : List Yaml) → Names → List Token → Option (Read Yaml)
  | 0, _, _, _ => none
  | n + 1, nodes, ns, ts => do
    let ends := [.key, .value, .blockEnd]
    match ts with
    | .blockEnd :: rest => return ⟨← mapping? nodes, ns, rest⟩
    | .key :: rest =>
      let k ← nodeOrNull? n ends true true ns rest
      let v ← value? n ends true k.names k.rest
      blockNodes? n (nodes ++ [k.node, v.node]) v.names v.rest
    | .value :: _ =>
      let v ← value? n ends true ns ts
      blockNodes? n (nodes ++ [.null, v.node]) v.names v.rest
    | _ => none

/-- The items up to the closing bracket; all but the `first` follow a comma. -/
def flowItems? : (n : Nat) → (first : Bool) → (items : List Yaml) → Names → List Token →
    Option (Read Yaml)
  | 0, _, _, _, _ => none
  | n + 1, first, items, ns, ts =>
    match ts, first with
    | .flowSequenceEnd :: rest, _ => some ⟨.sequence items, ns, rest⟩
    | .flowEntry :: rest, false => flowItem? n items ns rest
    | _, true => flowItem? n items ns ts
    | _, false => none

/-- The item behind a comma and those after it, up to the closing bracket.  An item may be
a mapping of a single pair. -/
def flowItem? : (n : Nat) → (items : List Yaml) → Names → List Token → Option (Read Yaml)
  | 0, _, _, _ => none
  | _ + 1, items, ns, .flowSequenceEnd :: rest => some ⟨.sequence items, ns, rest⟩
  | n + 1, items, ns, .key :: rest => do
    let k ← pairKey? n ns rest
    let v ← value? n [.flowEntry, .flowSequenceEnd] false k.names k.rest
    flowItems? n false (items ++ [← mapping? [k.node, v.node]]) v.names v.rest
  | n + 1, items, ns, ts => do
    let r ← node? n false false ns ts
    flowItems? n false (items ++ [r.node]) r.names r.rest

/-- The key of a pair between brackets.  Where it is missing, the token in its place is
passed over. -/
def pairKey? : (n : Nat) → Names → List Token → Option (Read Yaml)
  | 0, _, _ => none
  | n + 1, ns, ts =>
    if before [.value, .flowEntry, .flowSequenceEnd] ts then some ⟨.null, ns, ts.tail⟩
    else node? n false false ns ts

/-- The mapping whose keys and values are those so far and the ones up to the closing
brace; all but the `first` entry follow a comma. -/
def flowNodes? : (n : Nat) → (first : Bool) → (nodes : List Yaml) → Names → List Token →
    Option (Read Yaml)
  | 0, _, _, _, _ => none
  | n + 1, first, nodes, ns, ts =>
    match ts, first with
    | .flowMappingEnd :: rest, _ => do return ⟨← mapping? nodes, ns, rest⟩
    | .flowEntry :: rest, false => flowEntry? n nodes ns rest
    | _, true => flowEntry? n nodes ns ts
    | _, false => none

/-- The entry behind a comma and those after it, up to the closing brace.  A key without
its mark has no value. -/
def flowEntry? : (n : Nat) → (nodes : List Yaml) → Names → List Token → Option (Read Yaml)
  | 0, _, _, _ => none
  | n + 1, nodes, ns, ts => do
    match ts with
    | .flowMappingEnd :: rest => return ⟨← mapping? nodes, ns, rest⟩
    | .key :: rest =>
      let k ← nodeOrNull? n [.value, .flowEntry, .flowMappingEnd] false false ns rest
      let v ← value? n [.flowEntry, .flowMappingEnd] false k.names k.rest
      flowNodes? n false (nodes ++ [k.node, v.node]) v.names v.rest
    | .value :: _ =>
      let v ← value? n [.flowEntry, .flowMappingEnd] false ns ts
      flowNodes? n false (nodes ++ [.null, v.node]) v.names v.rest
    | _ =>
      let k ← node? n false false ns ts
      flowNodes? n false (nodes ++ [k.node, .null]) k.names k.rest

end

/-! ## Documents -/

/-- The directives at the start of tokens, and the tokens past them. -/
def directives : List Token → List Directive × List Token
  | .directive d :: rest =>
    let (ds, ts) := directives rest
    (d :: ds, ts)
  | ts => ([], ts)

/-- The tokens past markers of ended documents. -/
def pastEnds (ts : List Token) : List Token := ts.dropWhile (· == .documentEnd)

/-- A token that ends the document before it. -/
def endsDocument : List Token → Bool
  | [] => true
  | .directive _ :: _ => true
  | .documentStart :: _ => true
  | .documentEnd :: _ => true
  | _ => false

/-- The node of a document, which directives may stand in front of.  Behind these it has
to be marked. -/
def document? (n : Nat) (ts : List Token) : Option (Read Yaml) := do
  let (ds, past) := directives ts
  let names : Names := { handles := ← Handles.declared? ds }
  match past with
  | .documentStart :: rest =>
    if endsDocument rest then return ⟨.null, names, rest⟩ else node? n true false names rest
  | _ => if ds.isEmpty then node? n true false names past else none

/-- The document that a text holds, none if it is empty.  A text that is malformed or
holds several documents has no answer. -/
def read? (text : List Char) : Option (Option Yaml) := do
  let ts ← tokens? text
  match pastEnds ts with
  | [] => return none
  | first =>
    let r ← document? (4 * ts.length + 4) first
    if (pastEnds r.rest).isEmpty then return some r.node else none

end Reshape.Yaml
