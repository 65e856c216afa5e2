import ScriptMachine.Syntax.Tree
/-!
# Sample programs

Small programs built as syntax trees, each node on one source line, with what each prints when
run as a script and the error, if any, that ends it. They cover loops, recursion, containers,
closures, boolean logic, tagged regions, a failing run and multiple assignment.
-/

namespace ScriptMachine.Samples

open Syntax

/-- A named program with its expected printed output and ending error (empty for none). -/
structure Sample where
  name : String
  description : String
  program : Program
  output : String
  error : String := ""
  deriving Inhabited

structure Line where
  line : Int

namespace Line

def span (l : Line) : Span := Span.lineStart l.line
def num (l : Line) (x : Float) : Expr := .num l.span x
def str (l : Line) (s : String) : Expr := .str l.span s
def id (l : Line) (name : String) : Expr := .ident l.span name
def bin (l : Line) (x : Expr) (op : Int) (y : Expr) : Expr := .binary l.span op x y
def cmp (l : Line) (x : Expr) (op : Int) (y : Expr) : Expr := .compare l.span x [op] [y]
def call (l : Line) (f : Expr) (args : List Expr) : Expr := .call l.span f args
def eval (l : Line) (e : Expr) : Stmt := .eval l.span e
def assign (l : Line) (target value : Expr) : Stmt := .assign l.span [target] [value]
def assignN (l : Line) (targets values : List Expr) : Stmt := .assign l.span targets values
def ret (l : Line) (values : List Expr) : Stmt := .ret l.span values

end Line

def programOf (name : String) (body : List Stmt) : Program := { name := name, body := some body }

/-- `a = 1; b = 2; while a <= 10: b = b + a; a = a + 1; print(b)` -/
def sum : Sample :=
  let (l1, l2, l3, l4, l5, l6) := (Line.mk 1, Line.mk 2, Line.mk 3, Line.mk 4, Line.mk 5, Line.mk 6)
  { name := "sum", description := "while loop accumulating 1..10 onto 2", output := "57\n",
    program := programOf "sum"
      [l1.assign (l1.id "a") (l1.num 1),
       l2.assign (l2.id "b") (l2.num 2),
       .loop l3.span (l3.cmp (l3.id "a") 2 (l3.num 10)) (Stmt.blockOf
         [l4.assign (l4.id "b") (l4.bin (l4.id "b") 0 (l4.id "a")),
          l5.assign (l5.id "a") (l5.bin (l5.id "a") 0 (l5.num 1))]),
       l6.eval (l6.call (l6.id "print") [l6.id "b"])] }

/-- Recursive `fib(10)`. -/
def fib : Sample :=
  let (l1, l2, l3, l4, l5) := (Line.mk 1, Line.mk 2, Line.mk 3, Line.mk 4, Line.mk 5)
  { name := "fib", description := "recursive fibonacci", output := "55\n",
    program := programOf "fib"
      [.define l1.span "fib" ["n"] (Stmt.blockOf
         [.cond l2.span (l2.cmp (l2.id "n") 0 (l2.num 2)) (Stmt.blockOf [l3.ret [l3.id "n"]]) none,
          l4.ret [l4.bin (l4.call (l4.id "fib") [l4.bin (l4.id "n") 1 (l4.num 1)]) 0
                         (l4.call (l4.id "fib") [l4.bin (l4.id "n") 1 (l4.num 2)])]]),
       l5.eval (l5.call (l5.id "print") [l5.call (l5.id "fib") [l5.num 10]])] }

def containers : Sample :=
  let (l1, l2, l3, l4, l5) := (Line.mk 1, Line.mk 2, Line.mk 3, Line.mk 4, Line.mk 5)
  let (l6, l7, l8) := (Line.mk 6, Line.mk 7, Line.mk 8)
  { name := "containers", description := "dicts, lists, tuples and ranges",
    output := "a 1\nb [1, 2]\n\x7b\x27a\x27: 1, \x27b\x27: [1, 2]\x7d\n(1,) 2\n[0, 1, 2]\n",
    program := programOf "containers"
      [l1.assign (l1.id "d") (.dict l1.span [(l1.str "a", l1.num 1)]),
       l2.assign (.index l2.span (l2.id "d") (l2.str "b")) (.list l2.span [l2.num 1, l2.num 2]),
       l3.assign (l3.id "t") (.tuple l3.span [l3.num 1]),
       .each l4.span "k" l4.span (l4.id "d") (Stmt.blockOf
         [l5.eval (l5.call (l5.id "print") [l5.id "k", .index l5.span (l5.id "d") (l5.id "k")])]),
       l6.eval (l6.call (l6.id "print") [l6.id "d"]),
       l7.eval (l7.call (l7.id "print") [l7.id "t", l7.call (l7.id "len") [l7.id "d"]]),
       l8.eval (l8.call (l8.id "print")
         [l8.call (l8.id "list") [l8.call (l8.id "range") [l8.num 3]]])] }

def counter : Sample :=
  let (l1, l2, l3, l4, l5) := (Line.mk 1, Line.mk 2, Line.mk 3, Line.mk 4, Line.mk 5)
  let (l6, l7, l8, l9) := (Line.mk 6, Line.mk 7, Line.mk 8, Line.mk 9)
  let n0 (l : Line) : Expr := .index l.span (l.id "n") (l.num 0)
  { name := "counter", description := "closure updating a captured list", output := "2\n",
    program := programOf "counter"
      [.define l1.span "counter" [] (Stmt.blockOf
         [l2.assign (l2.id "n") (.list l2.span [l2.num 0]),
          .define l3.span "inc" [] (Stmt.blockOf
            [l4.assign (n0 l4) (l4.bin (n0 l4) 0 (l4.num 1)),
             l5.ret [n0 l5]]),
          l6.ret [l6.id "inc"]]),
       l7.assign (l7.id "c") (l7.call (l7.id "counter") []),
       l8.eval (l8.call (l8.id "c") []),
       l9.eval (l9.call (l9.id "print") [l9.call (l9.id "c") []])] }

/-- Comparison chains, `and`, `or`, `not` and arithmetic. -/
def logic : Sample :=
  let (l1, l2, l3, l4) := (Line.mk 1, Line.mk 2, Line.mk 3, Line.mk 4)
  { name := "logic", description := "comparison chains, and/or/not and arithmetic",
    output := "True False\ndefault 4 False\nTrue -5 3 1 1024\n",
    program := programOf "logic"
      [l1.assign (l1.id "x") (l1.num 5),
       l2.eval (l2.call (l2.id "print")
         [.compare l2.span (l2.num 1) [0, 0] [l2.id "x", l2.num 10],
          .compare l2.span (l2.id "x") [0, 0] [l2.num 1, l2.num 10]]),
       l3.eval (l3.call (l3.id "print")
         [.logic l3.span 1 [l3.num 0, l3.str "default"],
          .logic l3.span 0 [l3.num 3, l3.num 4],
          .unary l3.span 2 (l3.cmp (l3.id "x") 4 (l3.num 5))]),
       l4.eval (l4.call (l4.id "print")
         [l4.cmp (l4.num 2) 6 (.list l4.span [l4.num 1, l4.num 2]),
          .unary l4.span 1 (l4.id "x"),
          l4.bin (l4.num 7) 4 (l4.num 2),
          l4.bin (l4.num 7) 6 (l4.num 3),
          l4.bin (l4.num 2) 5 (l4.num 10)])] }

/-- A tagged region around a `for` loop. -/
def tagged : Sample :=
  let (l1, l2, l3, l4, l5) := (Line.mk 1, Line.mk 2, Line.mk 3, Line.mk 4, Line.mk 5)
  { name := "vtag", description := "tagged region around a for loop", output := "6\n",
    program := programOf "vtag"
      [l1.assign (l1.id "total") (l1.num 0),
       .tagged l2.span [{ name := "sum", args := [("total", l2.id "total")] }]
         [.each l3.span "i" l3.span (l3.call (l3.id "range") [l3.num 1, l3.num 4]) (Stmt.blockOf
           [l4.assign (l4.id "total") (l4.bin (l4.id "total") 0 (l4.id "i"))])],
       l5.eval (l5.call (l5.id "print") [l5.id "total"])] }

def divZero : Sample :=
  let (l1, l2, l3) := (Line.mk 1, Line.mk 2, Line.mk 3)
  { name := "divzero", description := "division by zero ends the run", output := "before\n",
    error := "RuntimeErrorDivideByZero",
    program := programOf "divzero"
      [l1.eval (l1.call (l1.id "print") [l1.str "before"]),
       l2.assign (l2.id "x") (l2.bin (l2.num 1) 3 (l2.num 0)),
       l3.eval (l3.call (l3.id "print") [l3.str "after"])] }

def swap : Sample :=
  let (l1, l2, l3, l4, l5, l6) := (Line.mk 1, Line.mk 2, Line.mk 3, Line.mk 4, Line.mk 5, Line.mk 6)
  { name := "swap", description := "packing, unpacking and multiple assignment",
    output := "2 1\n(3, 4) 3 4\n",
    program := programOf "swap"
      [l1.assignN [l1.id "a", l1.id "b"] [l1.num 1, l1.num 2],
       l2.assignN [l2.id "a", l2.id "b"] [l2.id "b", l2.id "a"],
       l3.eval (l3.call (l3.id "print") [l3.id "a", l3.id "b"]),
       l4.assignN [l4.id "p"] [l4.num 3, l4.num 4],
       l5.assignN [l5.id "x", l5.id "y"] [l5.id "p"],
       l6.eval (l6.call (l6.id "print") [l6.id "p", l6.id "x", l6.id "y"])] }

def all : List Sample := [containers, counter, divZero, fib, logic, sum, swap, tagged]

def lookup? (name : String) : Option Sample := all.find? (·.name == name)

end ScriptMachine.Samples
