import Mathlib.Algebra.Order.Ring.Nat
import Mathlib.Data.List.Basic
import Mathlib.Logic.Relation

/-! # Syntax trees of strategy code

The classes of the `ast` module with the fields the checks read or that hold
further nodes; contexts other than an attribute's, operators other than those of a
`BinOp`, and names no check reads are left out.

* `walk`: the nodes as `ast.walk` yields them.
* `mem_walk`: it yields every node of the tree, and no other. -/

namespace AlgoTrade.Sandbox

inductive Operator
  | add | sub | mult | matMult | div | mod | pow | lShift | rShift | bitOr | bitXor | bitAnd
  | floorDiv
  deriving DecidableEq, Repr

/-- What an expression does with the attribute. -/
inductive AttributeContext
  | load | store | del
  deriving DecidableEq, Repr

/-- A string, or a constant of another type. -/
inductive ConstantValue
  | str (s : String)
  | other
  deriving DecidableEq, Repr

structure Alias where
  name : String
  asname : Option String := none
  deriving DecidableEq, Repr

/-- A node; the asynchronous and starred forms of a statement are one with the plain
form. -/
inductive Node
  | module (body : List Node)
  -- statements
  | functionDef (args : Node) (body decoratorList : List Node) (returns : Option Node)
      (typeParams : List Node)
  | classDef (bases keywords body decoratorList typeParams : List Node)
  | returnStmt (value : Option Node)
  | delete (targets : List Node)
  | assign (targets : List Node) (value : Node)
  | typeAlias (name : Node) (typeParams : List Node) (value : Node)
  | augAssign (target value : Node)
  | annAssign (target annotation : Node) (value : Option Node)
  | forStmt (target iter : Node) (body orelse : List Node)
  | whileStmt (test : Node) (body orelse : List Node)
  | ifStmt (test : Node) (body orelse : List Node)
  | withStmt (items body : List Node)
  | matchStmt (subject : Node) (cases : List Node)
  | raiseStmt (exc cause : Option Node)
  | tryStmt (body handlers orelse finalbody : List Node)
  | assertStmt (test : Node) (msg : Option Node)
  | importStmt (names : List Alias)
  | importFrom (module : Option String) (names : List Alias)
  | globalStmt
  | nonlocalStmt
  | exprStmt (value : Node)
  | passStmt
  | breakStmt
  | continueStmt
  -- expressions
  | boolOp (values : List Node)
  | namedExpr (target value : Node)
  | binOp (left : Node) (op : Operator) (right : Node)
  | unaryOp (operand : Node)
  | lambda (args body : Node)
  | ifExp (test body orelse : Node)
  | dict (keys : List (Option Node)) (values : List Node)
  | set (elts : List Node)
  | listComp (elt : Node) (generators : List Node)
  | setComp (elt : Node) (generators : List Node)
  | dictComp (key value : Node) (generators : List Node)
  | generatorExp (elt : Node) (generators : List Node)
  | await (value : Node)
  | yield (value : Option Node)
  | yieldFrom (value : Node)
  | compare (left : Node) (comparators : List Node)
  | call (func : Node) (args keywords : List Node)
  | formattedValue (value : Node) (formatSpec : Option Node)
  | joinedStr (values : List Node)
  | constant (value : ConstantValue)
  | attributeExpr (value : Node) (attr : String) (ctx : AttributeContext)
  | subscript (value slice : Node)
  | starred (value : Node)
  | name (id : String)
  | list (elts : List Node)
  | tuple (elts : List Node)
  | slice (lower upper step : Option Node)
  -- their parts
  | comprehension (target iter : Node) (ifs : List Node)
  | exceptHandler (type : Option Node) (body : List Node)
  | arguments (posonlyargs args : List Node) (vararg : Option Node) (kwonlyargs : List Node)
      (kwDefaults : List (Option Node)) (kwarg : Option Node) (defaults : List Node)
  | arg ( annotation : Option Node)
  | keyword (value : Node)
  | aliasNode (value : Alias)
  | withItem (contextExpr : Node) (optionalVars : Option Node)
  | matchCase (pattern : Node) (guard : Option Node) (body : List Node)
  -- patterns
  | matchValue (value : Node)
  | matchSingleton (value : ConstantValue)
  | matchSequence (patterns : List Node)
  | matchMapping (keys patterns : List Node)
  | matchClass (cls : Node) (patterns : List Node) (kwdAttrs : List String)
      (kwdPatterns : List Node)
  | matchStar
  | matchAs (pattern : Option Node)
  | matchOr (patterns : List Node)
  -- type parameters
  | typeVar (bound : Option Node)
  | paramSpec
  | typeVarTuple


/-- `iter_child_nodes`: the nodes in the fields, in the order of the fields. -/
def Node.children : Node → List Node
  | .module body => body
  | .functionDef args body decoratorList returns typeParams =>
    args :: body ++ decoratorList ++ returns.toList ++ typeParams
  | .classDef bases keywords body decoratorList typeParams =>
    bases ++ keywords ++ body ++ decoratorList ++ typeParams
  | .returnStmt value => value.toList
  | .delete targets => targets
  | .assign targets value => targets ++ [value]
  | .typeAlias id typeParams value => id :: typeParams ++ [value]
  | .augAssign target value => [target, value]
  | .annAssign target annotation value => [target, annotation] ++ value.toList
  | .forStmt target iter body orelse => [target, iter] ++ body ++ orelse
  | .whileStmt test body orelse => test :: body ++ orelse
  | .ifStmt test body orelse => test :: body ++ orelse
  | .withStmt items body => items ++ body
  | .matchStmt subject cases => subject :: cases
  | .raiseStmt exc cause => exc.toList ++ cause.toList
  | .tryStmt body handlers orelse finalbody => body ++ handlers ++ orelse ++ finalbody
  | .assertStmt test msg => test :: msg.toList
  | .importStmt names => names.map .aliasNode
  | .importFrom _ names => names.map .aliasNode
  | .globalStmt => []
  | .nonlocalStmt => []
  | .exprStmt value => [value]
  | .passStmt => []
  | .breakStmt => []
  | .continueStmt => []
  | .boolOp values => values
  | .namedExpr target value => [target, value]
  | .binOp left _ right => [left, right]
  | .unaryOp operand => [operand]
  | .lambda args body => [args, body]
  | .ifExp test body orelse => [test, body, orelse]
  | .dict keys values => keys.flatMap Option.toList ++ values
  | .set elts => elts
  | .listComp elt generators => elt :: generators
  | .setComp elt generators => elt :: generators
  | .dictComp key value generators => key :: value :: generators
  | .generatorExp elt generators => elt :: generators
  | .await value => [value]
  | .yield value => value.toList
  | .yieldFrom value => [value]
  | .compare left comparators => left :: comparators
  | .call func args keywords => func :: args ++ keywords
  | .formattedValue value formatSpec => value :: formatSpec.toList
  | .joinedStr values => values
  | .constant _ => []
  | .attributeExpr value _ _ => [value]
  | .subscript value index => [value, index]
  | .starred value => [value]
  | .name _ => []
  | .list elts => elts
  | .tuple elts => elts
  | .slice lower upper step => lower.toList ++ upper.toList ++ step.toList
  | .comprehension target iter ifs => target :: iter :: ifs
  | .exceptHandler type body => type.toList ++ body
  | .arguments posonlyargs args vararg kwonlyargs kwDefaults kwarg defaults =>
    posonlyargs ++ args ++ vararg.toList ++ kwonlyargs ++ kwDefaults.flatMap Option.toList ++
      kwarg.toList ++ defaults
  | .arg annotation => annotation.toList
  | .keyword value => [value]
  | .aliasNode _ => []
  | .withItem contextExpr optionalVars => contextExpr :: optionalVars.toList
  | .matchCase pattern guard body => pattern :: guard.toList ++ body
  | .matchValue value => [value]
  | .matchSingleton _ => []
  | .matchSequence patterns => patterns
  | .matchMapping keys patterns => keys ++ patterns
  | .matchClass cls patterns _ kwdPatterns => cls :: patterns ++ kwdPatterns
  | .matchStar => []
  | .matchAs pattern => pattern.toList
  | .matchOr patterns => patterns
  | .typeVar bound => bound.toList
  | .paramSpec => []
  | .typeVarTuple => []

/-- A node of the tree: the root, or a node of a child. -/
def Node.Within : Node → Node → Prop :=
  Relation.ReflTransGen fun parent child => child ∈ parent.children

/-! ## Sizes -/

theorem sum_sizeOf_lt (nodes : List Node) : (nodes.map sizeOf).sum < sizeOf nodes := by
  induction nodes with
  | nil => simp
  | cons n nodes ih =>
    rw [List.map_cons, List.sum_cons, List.cons.sizeOf_spec]
    omega

theorem sum_sizeOf_toList (node : Option Node) : (node.toList.map sizeOf).sum < sizeOf node := by
  cases node with
  | none => simp
  | some n => simp

theorem sum_sizeOf_flatMap (nodes : List (Option Node)) :
    ((nodes.flatMap Option.toList).map sizeOf).sum < sizeOf nodes := by
  induction nodes with
  | nil => simp
  | cons n nodes ih =>
    have := sum_sizeOf_toList n
    rw [List.flatMap_cons, List.map_append, List.sum_append, List.cons.sizeOf_spec]
    omega

theorem sum_sizeOf_aliases (names : List Alias) :
    ((names.map Node.aliasNode).map sizeOf).sum < sizeOf names := by
  induction names with
  | nil => simp
  | cons n names ih =>
    have : sizeOf (Node.aliasNode n) = 1 + sizeOf n := by simp
    rw [List.map_cons, List.map_cons, List.sum_cons, List.cons.sizeOf_spec]
    omega

/-- The children are smaller than their node, even together. -/
theorem Node.sum_sizeOf_children (n : Node) : (n.children.map sizeOf).sum < sizeOf n := by
  cases n with
  | importStmt names =>
    have := sum_sizeOf_aliases names
    rw [children, importStmt.sizeOf_spec]
    omega
  | importFrom module names =>
    have := sum_sizeOf_aliases names
    rw [children, importFrom.sizeOf_spec]
    omega
  | _ =>
    simp only [children, List.map_append, List.map_cons, List.sum_append, List.sum_cons,
      List.map_nil, List.sum_nil]
    grind [sum_sizeOf_lt, sum_sizeOf_toList, sum_sizeOf_flatMap]

/-! ## The walk -/

/-- The nodes of a queue, each followed later by its children. -/
def walkFrom : List Node → List Node
  | [] => []
  | n :: todo => n :: walkFrom (todo ++ n.children)
termination_by todo => (todo.map sizeOf).sum
decreasing_by
  have := n.sum_sizeOf_children
  rw [List.map_append, List.sum_append, List.map_cons, List.sum_cons]
  omega

/-- `ast.walk`. -/
def walk (tree : Node) : List Node := walkFrom [tree]

theorem Node.within_iff {tree n : Node} :
    tree.Within n ↔ n = tree ∨ ∃ child ∈ tree.children, child.Within n := by
  constructor
  · intro h
    rcases Relation.ReflTransGen.cases_head h with rfl | ⟨child, hchild, hrest⟩
    · exact .inl rfl
    · exact .inr ⟨child, hchild, hrest⟩
  · rintro (rfl | ⟨child, hchild, hrest⟩)
    · exact .refl
    · exact .head hchild hrest

theorem mem_walkFrom {todo : List Node} {n : Node} :
    n ∈ walkFrom todo ↔ ∃ tree ∈ todo, tree.Within n := by
  induction todo using walkFrom.induct with
  | case1 => simp [walkFrom]
  | case2 tree todo ih =>
    rw [walkFrom, List.mem_cons, ih]
    constructor
    · rintro (rfl | ⟨m, hm, hwithin⟩)
      · exact ⟨n, List.mem_cons_self, .refl⟩
      · rcases List.mem_append.mp hm with hm | hm
        · exact ⟨m, List.mem_cons_of_mem tree hm, hwithin⟩
        · exact ⟨tree, List.mem_cons_self, Node.within_iff.mpr (.inr ⟨m, hm, hwithin⟩)⟩
    · rintro ⟨m, hm, hwithin⟩
      rcases List.mem_cons.mp hm with rfl | hm
      · rcases Node.within_iff.mp hwithin with rfl | ⟨child, hchild, hrest⟩
        · exact .inl rfl
        · exact .inr ⟨child, List.mem_append_right todo hchild, hrest⟩
      · exact .inr ⟨m, List.mem_append_left _ hm, hwithin⟩

/-- **The walk** yields the nodes of the tree. -/
theorem mem_walk {tree n : Node} : n ∈ walk tree ↔ tree.Within n := by
  rw [walk, mem_walkFrom]
  simp

end AlgoTrade.Sandbox
