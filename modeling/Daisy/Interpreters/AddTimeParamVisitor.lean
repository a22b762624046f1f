import Mathlib.Data.List.Basic

/-!
# `AddTimeParamVisitor`

`Interpreters/AddTimeParamVisitor.cpp`: the time range of a search. Where the
context has a start or an end time (`SearchHandler::getQuery` sets them from
the request), `executeQuery` runs `AddTimeParamVisitor` over the query: a
`SELECT` whose first table of `FROM` has a `_time` column of type
`DateTime64` gets `_time < end AND _time >= start` (the bounds that are
given) in front of its `WHERE`. The visitor goes into the subquery of the
first table of `FROM`, and into the selects of a `UNION`.

## The model

The AST is an inductive type with the nodes the visitor tells apart: a
`SELECT` with the table expressions of its `FROM` (`none` where it has no
`FROM`, so that `tables()` is a null pointer) and its `WHERE`; a select
with union and its list of selects; any other query. An expression is an
identifier, a function with its arguments, or a literal. The parser of the
time bounds (`parseQuery` with `ParserExpressionWithOptionalAlias`) and the
catalog (`containTimeField`: whether a name resolves to a table with a
`DateTime64` `_time`, or what resolving it throws) are parameters. The
visitor rewrites the AST in place; here it returns the rewritten AST. The
recursion runs on fuel, one unit for each query it goes into.

## What is proved

* `visitSelectWithUnionQuery_two_selects`: of a union of two selects of a
  table with a `_time` column, the first gets the time filter twice and the
  second none: the loop over the selects visits `children[0]` each time;
* at the end, that union with a start and an end time.
-/

namespace Daisy.Interpreters.AddTimeParam

/-- An expression of the AST, as far as the visitor builds or keeps one. -/
inductive Expr where
  /-- `ASTIdentifier`. -/
  | identifier (name : String)
  /-- `ASTFunction`, as `makeASTFunction` builds it. -/
  | function (name : String) (arguments : List Expr)
  /-- `ASTLiteral`. -/
  | literal (text : String)
  deriving Repr

mutual
/-- A query of the AST. -/
inductive Query where
  /-- `ASTSelectQuery`: the table expressions of its `FROM` in order, and its
  `WHERE`. -/
  | select (tables : Option (List TableExpression)) (whereExpression : Option Expr)
  /-- `ASTSelectWithUnionQuery`: its `list_of_selects`. -/
  | selectWithUnion (selects : List Query)
  /-- Any other query. -/
  | other

/-- The table expression of an element of `FROM`. -/
inductive TableExpression where
  /-- `database_and_table_name`. -/
  | databaseAndTableName (name : String)
  /-- `subquery`, with the query of its `ASTSubquery`. -/
  | subquery (query : Query)
  /-- A table function. -/
  | tableFunction
end

/-- Why the visitor stops. -/
inductive VisitError where
  /-- An exception of the parser or of the catalog, with its message. -/
  | exception (message : String)
  /-- `tables->children` where `tables()` is a null pointer: undefined. -/
  | nullTables
  /-- `makeASTFunction("and", new_node, ...)` with no bound given: a null
  child. -/
  | nullExpression
  /-- The model ran out of fuel. -/
  | outOfFuel
  deriving Repr

/-- `f` applied `k` times, through the failures. -/
def iterateM {α ε : Type} (f : α → Except ε α) : Nat → α → Except ε α
  | 0, a => .ok a
  | k + 1, a => do iterateM f k (← f a)

/-- The time range and what the visitor consults. -/
structure TimeParam where
  /-- `getTimeParam().getStart()`. -/
  start : String
  /-- `getTimeParam().getEnd()`. -/
  finish : String

section Visitor

variable (containTimeField : String → Except String Bool) (parse : String → Except String Expr) (time : TimeParam)

/-- `insertTimeParamTime(select, table_name, context)`: the `WHERE` of the
select after it. -/
def insertTimeParamTime (tableName : String) (whereExpression : Option Expr) : Except VisitError (Option Expr) := do
  let contains ← (containTimeField tableName).mapError .exception
  if !contains then return whereExpression
  let newNode ← if time.start ≠ "" then do
      let bound ← (parse time.start).mapError .exception
      pure (some (Expr.function "greaterOrEquals" [.identifier "_time", bound]))
    else pure none
  let newNode ← if time.finish ≠ "" then do
      let bound ← (parse time.finish).mapError .exception
      let less := Expr.function "less" [.identifier "_time", bound]
      pure (some (match newNode with
        | some node => Expr.function "and" [less, node]
        | none => less))
    else pure newNode
  match newNode, whereExpression with
  | some node, some w => pure (some (.function "and" [node, w]))
  | some node, none => pure (some node)
  | none, _ => throw .nullExpression

mutual
/-- `visitSelectQuery(ast, context)`. -/
def visitSelectQuery : Nat → Query → Except VisitError Query
  | 0, _ => throw .outOfFuel
  | fuel + 1, q =>
    match q with
    | .select none _ => throw .nullTables
    | .select (some []) _ => pure q
    | .select (some (first :: rest)) whereExpression =>
      match first with
      | .databaseAndTableName name => do
        pure (.select (some (first :: rest)) (← insertTimeParamTime containTimeField parse time name whereExpression))
      | .subquery sub =>
        match sub with
        | .selectWithUnion _ => do
          pure (.select (some (.subquery (← visitSelectWithUnionQuery fuel sub) :: rest)) whereExpression)
        | .select _ _ => do
          pure (.select (some (.subquery (← visitSelectQuery fuel sub) :: rest)) whereExpression)
        | .other => pure q
      | .tableFunction => pure q
    | _ => pure q

/-- `visitSelectWithUnionQuery(ast, context)`: for each select of the list,
`visitSelectQuery` of `children[0]`. -/
def visitSelectWithUnionQuery : Nat → Query → Except VisitError Query
  | 0, _ => throw .outOfFuel
  | fuel + 1, q =>
    match q with
    | .selectWithUnion (first :: rest) => do
      let selects := ((first :: rest).filter fun child => match child with
        | .select _ _ => true
        | _ => false).length
      pure (.selectWithUnion ((← iterateM (visitSelectQuery fuel) selects first) :: rest))
    | _ => pure q
end

/-- `AddTimeVisitorMatcher::visit(ast, context)`. -/
def visit (fuel : Nat) (q : Query) : Except VisitError Query :=
  match q with
  | .select _ _ => visitSelectQuery containTimeField parse time fuel q
  | .selectWithUnion _ => visitSelectWithUnionQuery containTimeField parse time fuel q
  | .other => pure q

/-- The time filter of a select of a table with a `_time` column, without a
`WHERE` of its own, both bounds given: `_time < end AND _time >= start`. -/
def timeFilter (startBound finishBound : Expr) : Expr :=
  .function "and" [.function "less" [.identifier "_time", finishBound],
    .function "greaterOrEquals" [.identifier "_time", startBound]]

variable {containTimeField parse time}

/-- Both bounds given and parsed, a table with a `_time` column: the filter
goes in front of the `WHERE`. -/
theorem insertTimeParamTime_of_bounds {tableName : String} {startBound finishBound : Expr}
    (hcontains : containTimeField tableName = .ok true) (hstart : time.start ≠ "") (hfinish : time.finish ≠ "")
    (hparseStart : parse time.start = .ok startBound) (hparseFinish : parse time.finish = .ok finishBound)
    (whereExpression : Option Expr) :
    insertTimeParamTime containTimeField parse time tableName whereExpression =
      .ok (some (match whereExpression with
        | some w => .function "and" [timeFilter startBound finishBound, w]
        | none => timeFilter startBound finishBound)) := by
  cases whereExpression <;>
    simp [insertTimeParamTime, hcontains, hstart, hfinish, hparseStart, hparseFinish, timeFilter, Except.mapError,
      bind, Except.bind, pure, Except.pure]

/-- **The first select is filtered once per select of the union.** Of a
union of two selects of a table with a `_time` column, neither with a
`WHERE`, the first gets the time filter twice and the second keeps no
filter. -/
theorem visitSelectWithUnionQuery_two_selects {tableName : String} {startBound finishBound : Expr}
    (hcontains : containTimeField tableName = .ok true) (hstart : time.start ≠ "") (hfinish : time.finish ≠ "")
    (hparseStart : parse time.start = .ok startBound) (hparseFinish : parse time.finish = .ok finishBound) :
    visitSelectWithUnionQuery containTimeField parse time 2
        (.selectWithUnion [.select (some [.databaseAndTableName tableName]) none,
          .select (some [.databaseAndTableName tableName]) none]) =
      .ok (.selectWithUnion [.select (some [.databaseAndTableName tableName])
          (some (.function "and" [timeFilter startBound finishBound, timeFilter startBound finishBound])),
        .select (some [.databaseAndTableName tableName]) none]) := by
  have hinsert := insertTimeParamTime_of_bounds hcontains hstart hfinish hparseStart hparseFinish
  simp [visitSelectWithUnionQuery, visitSelectQuery, iterateM, hinsert, bind, Except.bind, pure, Except.pure]

end Visitor

/-- The search `SELECT * FROM t UNION ALL SELECT * FROM t` over the last
day, `t` a table with a `DateTime64` `_time`: the first select gets the
filter twice, the second none. -/
theorem union_second_select_unfiltered :
    visit (fun _ => .ok true) (fun text => .ok (.literal text)) ⟨"now() - 1d", "now()"⟩ 2
        (.selectWithUnion [.select (some [.databaseAndTableName "t"]) none,
          .select (some [.databaseAndTableName "t"]) none]) =
      .ok (.selectWithUnion [.select (some [.databaseAndTableName "t"])
          (some (.function "and" [timeFilter (.literal "now() - 1d") (.literal "now()"),
            timeFilter (.literal "now() - 1d") (.literal "now()")])),
        .select (some [.databaseAndTableName "t"]) none]) :=
  visitSelectWithUnionQuery_two_selects rfl (by decide) (by decide) rfl rfl

end Daisy.Interpreters.AddTimeParam
