import Vigil.Template.Segment
import Vigil.Template.Tree

/-!
# Reading a template

From loosest to tightest an expression is built with `==`, `+`, `~`, and a sign or filters on an
operand. An operand is a literal, a name or an expression in parentheses; quoted texts that follow each
other are one literal. Statements are `if`, `elif`, `else` and `endif`.

Statements, expressions and operands may stand in each other `maxDepth` deep. The condition of a
statement does not count as an expression of its own. So the rules take two numbers: fuel, which the
number of tokens or segments bounds, and the room that is left of `maxDepth`.
-/

namespace Vigil.Template

/-- How deep statements, expressions and operands may stand in each other. -/
def maxDepth : Nat := 150

/-- The value of a name that is a word of the language. -/
def constant? : String → Option Value
  | "true" | "True" => some (.bool true)
  | "false" | "False" => some (.bool false)
  | "none" | "None" => some .none
  | _ => none

/-- The levels of an expression below comparisons, from the looser one on. -/
inductive Level where
  | sum
  | joined

/-- The mark of a level and the expression that it makes. -/
def Level.joint : Level → String × (Expr → Expr → Expr)
  | .sum => ("+", .add)
  | .joined => ("~", .join)

/-- The quoted texts at the head, joined, and what follows them. -/
def quotedTexts : List Token → String × List Token
  | .literal (.string t) :: rest =>
    let (more, rest) := quotedTexts rest
    (t ++ more, rest)
  | ts => ("", ts)

mutual

def expression? : Nat → Nat → List Token → Option (Expr × List Token)
  | 0, _, _ => none
  | _, 0, _ => none
  | fuel + 1, room + 1, ts => comparison? fuel room ts

def primary? : Nat → Nat → List Token → Option (Expr × List Token)
  | 0, _, _ => none
  | _, 0, _ => none
  | fuel + 1, room + 1, ts =>
    match ts with
    | .literal (.string _) :: _ =>
      let (t, rest) := quotedTexts ts
      some (.literal (.string t), rest)
    | .literal v :: rest => some (.literal v, rest)
    | .name text :: rest =>
      match constant? text with
      | some v => some (.literal v, rest)
      | none => some (.variable text, rest)
    | .mark "(" :: rest =>
      match expression? fuel room rest with
      | some (e, .mark ")" :: rest) => some (e, rest)
      | _ => none
    | _ => none

def signed? : Nat → Nat → List Token → Option (Expr × List Token)
  | 0, _, _ => none
  | fuel + 1, room, ts =>
    match ts with
    | .mark "-" :: rest => (signed? fuel room rest).map fun (e, rest) => (.negate e, rest)
    | _ => primary? fuel room ts

/-- The arguments of a filter, after the opening parenthesis. -/
def args? : Nat → Nat → List Token → Option (List Expr × List Token)
  | 0, _, _ => none
  | fuel + 1, room, ts =>
    match ts with
    | .mark ")" :: rest => some ([], rest)
    | _ =>
      match expression? fuel room ts with
      | some (e, .mark "," :: rest) => (args? fuel room rest).map fun (es, rest) => (e :: es, rest)
      | some (e, .mark ")" :: rest) => some ([e], rest)
      | _ => none

def filtered? : Nat → Nat → Expr → List Token → Option (Expr × List Token)
  | 0, _, _, _ => none
  | fuel + 1, room, e, ts =>
    match ts with
    | .mark "|" :: .name name :: .mark "(" :: rest =>
      match args? fuel room rest with
      | some (args, rest) => filtered? fuel room (.filter name e args) rest
      | none => none
    | .mark "|" :: .name name :: rest => filtered? fuel room (.filter name e []) rest
    | .mark "|" :: _ => none
    | _ => some (e, ts)

def level? : Nat → Nat → Level → List Token → Option (Expr × List Token)
  | 0, _, _, _ => none
  | fuel + 1, room, level, ts =>
    match operand? fuel room level ts with
    | some (e, rest) => joined? fuel room level e rest
    | none => none

/-- What stands between the marks of a level. -/
def operand? : Nat → Nat → Level → List Token → Option (Expr × List Token)
  | 0, _, _, _ => none
  | fuel + 1, room, level, ts =>
    match level with
    | .sum => level? fuel room .joined ts
    | .joined =>
      match signed? fuel room ts with
      | some (e, rest) => filtered? fuel room e rest
      | none => none

/-- The marks of a level and their right operands, after a left operand. -/
def joined? : Nat → Nat → Level → Expr → List Token → Option (Expr × List Token)
  | 0, _, _, _, _ => none
  | fuel + 1, room, level, e, ts =>
    match ts with
    | .mark mark :: rest =>
      if mark = level.joint.1 then
        match operand? fuel room level rest with
        | some (right, rest) => joined? fuel room level (level.joint.2 e right) rest
        | none => none
      else some (e, ts)
    | _ => some (e, ts)

/-- A sum, or a comparison of sums. -/
def comparison? : Nat → Nat → List Token → Option (Expr × List Token)
  | 0, _, _ => none
  | fuel + 1, room, ts =>
    match level? fuel room .sum ts with
    | some (e, rest) =>
      match compared? fuel room rest with
      | some ([], rest) => some (e, rest)
      | some (others, rest) => some (.equal e others, rest)
      | none => none
    | none => none

/-- The sums that a sum is compared with, each after its mark. -/
def compared? : Nat → Nat → List Token → Option (List Expr × List Token)
  | 0, _, _ => none
  | fuel + 1, room, ts =>
    match ts with
    | .mark "==" :: rest =>
      match level? fuel room .sum rest with
      | some (e, rest) => (compared? fuel room rest).map fun (es, rest) => (e :: es, rest)
      | none => none
    | _ => some ([], ts)

end

/-- Fuel for reading tokens: between two tokens at most nine rules follow each other. -/
def fuelFor (ts : List Token) : Nat := 10 * ts.length + 10

/-- The expression that all the tokens make. -/
def complete? : Option (Expr × List Token) → Option Expr
  | some (e, []) => some e
  | _ => none

def expr? (room : Nat) (ts : List Token) : Option Expr :=
  complete? (expression? (fuelFor ts) room ts)

def condition? (room : Nat) (ts : List Token) : Option Expr :=
  complete? (comparison? (fuelFor ts) room ts)

/-- The statements of the language. -/
inductive Statement where
  | ifThen (condition : Expr)
  | elseIf (condition : Expr)
  | otherwise
  | endIf

/-- The statement that tokens make. An `if` takes a place of its own, its other parts share that. -/
def statement? (room : Nat) : List Token → Option Statement
  | .name "if" :: rest =>
    match room with
    | 0 => none
    | room + 1 => (condition? room rest).map .ifThen
  | .name "elif" :: rest => (condition? room rest).map .elseIf
  | [.name "else"] => some .otherwise
  | [.name "endif"] => some .endIf
  | _ => none

mutual

/-- The parts up to a statement that does not open a branch, and that statement with what follows. -/
def nodes? : Nat → Nat → List Segment → Option (List Node × Option Statement × List Segment)
  | 0, _, _ => none
  | fuel + 1, room, segments =>
    match segments with
    | [] => some ([], none, [])
    | .text text :: rest => prepend (.text text) (nodes? fuel room rest)
    | .output tokens :: rest =>
      match expr? room tokens with
      | some e => prepend (.output e) (nodes? fuel room rest)
      | none => none
    | .statement tokens :: rest =>
      match statement? room tokens with
      | some (.ifThen condition) =>
        match branch? fuel (room - 1) condition rest with
        | some (node, rest) => prepend node (nodes? fuel room rest)
        | none => none
      | some other => some ([], some other, rest)
      | none => none
where
  /-- Put a part in front of what was read after it. -/
  prepend (node : Node) :
      Option (List Node × Option Statement × List Segment) →
        Option (List Node × Option Statement × List Segment)
    | some (nodes, ending, rest) => some (node :: nodes, ending, rest)
    | none => none

/-- The branch of a condition, after its `if` or `elif`, and what follows its `endif`. -/
def branch? : Nat → Nat → Expr → List Segment → Option (Node × List Segment)
  | 0, _, _, _ => none
  | fuel + 1, room, condition, segments =>
    match nodes? fuel room segments with
    | some (yes, some .endIf, rest) => some (.branch condition yes [], rest)
    | some (yes, some (.elseIf next), rest) =>
      match branch? fuel room next rest with
      | some (node, rest) => some (.branch condition yes [node], rest)
      | none => none
    | some (yes, some .otherwise, rest) =>
      match nodes? fuel room rest with
      | some (no, some .endIf, rest) => some (.branch condition yes no, rest)
      | _ => none
    | _ => none

end

/-- The parts of a template, or nothing when it is malformed. -/
def parse? (source : String) : Option (List Node) := do
  let segments ← segmentsOf? source
  match nodes? (2 * segments.length + 2) maxDepth segments with
  | some (nodes, none, []) => some nodes
  | _ => none

end Vigil.Template
