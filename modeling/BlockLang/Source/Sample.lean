import BlockLang.Source.Builder

namespace BlockLang.Source.Sample

open Builder

def entry : String := "main"

/-- Factorials by recursion.
```text
fun fact(n: integer): integer = { if n <= 1 then r = 1 else r = n * fact(n - 1); r } where var r: integer
fun main(): integer = { print_int(fact(input)); fact(input) }
```
-/
def factorialProgram (input : Word) : Build Program := do
  let n ← param "n" .int
  let fact ← signature "fact" [n] .int
  moveTo 2 5
  let r ← var "r" .int
  moveTo 1 30
  let body ← block [
    ← ifElse (← compute .le (← name n.ref) (← int 1))
      (← assign (← name r.ref) (← int 1))
      (← assign (← name r.ref)
        (← compute .mul (← name n.ref)
          (← call fact [← compute .sub (← name n.ref) (← int 1)]))),
    ← name r.ref]
  let body ← whereDefs body [r]
  moveTo 4 1
  let main ← signature entry [] .int
  let mainBody ← block [
    ← callUnbound "print_int" [← call fact [← int input]],
    ← call fact [← int input]]
  finish [func fact body, func main mainBody]

/-- Three levels of nesting: the innermost function changes a variable of the outermost one.
```text
fun outer(n: integer): integer = { total = 0; middle(); total } where
    var total: integer
    fun middle(): integer = { inner(); inner(); 0 } where
        fun inner(): integer = { total = total + n; total }
fun main(): integer = { print_int(outer(step)); outer(step + 1) }
```
-/
def counterProgram (step : Word) : Build Program := do
  let n ← param "n" .int
  let outer ← signature "outer" [n] .int
  let total ← var "total" .int
  let inner ← signature "inner" [] .int
  let innerBody ← block [
    ← assign (← name total.ref) (← compute .add (← name total.ref) (← name n.ref)),
    ← name total.ref]
  let middle ← signature "middle" [] .int
  let middleBody ← block [← call inner [], ← call inner [], ← int 0]
  let middleBody ← whereDefs middleBody [func inner innerBody]
  let outerBody ← block [
    ← assign (← name total.ref) (← int 0),
    ← call middle [],
    ← name total.ref]
  let outerBody ← whereDefs outerBody [total, func middle middleBody]
  let main ← signature entry [] .int
  let mainBody ← block [
    ← callUnbound "print_int" [← call outer [← int step]],
    ← call outer [← compute .add (← int step) (← int 1)]]
  finish [func outer outerBody, func main mainBody]

/-- An array filled in a loop, passed to a function and copied.
```text
var numbers: arr[5] integer
fun sum(values: arr[5] integer): integer = { s = 0; for i = 0, 5, 1: s = s + values[i]; s } where
    var s: integer
    var i: integer
fun main(): integer = {
    for i = 0, 5, 1: numbers[i] = i * i;
    copy = numbers; copy[4] = -copy[4];
    print_int(sum(numbers)); print_int(sum(copy));
    sum(numbers)
} where
    var i: integer
    var copy: arr[5] integer
```
-/
def arraySumProgram : Build Program := do
  let array := Ty.array 5 .int
  let numbers ← var "numbers" array
  let values ← param "values" array
  let sum ← signature "sum" [values] .int
  let s ← var "s" .int
  let i ← var "i" .int
  let sumBody ← block [
    ← assign (← name s.ref) (← int 0),
    ← forLoop (← name i.ref) (← int 0) (← int 5) (← int 1)
      (← assign (← name s.ref)
        (← compute .add (← name s.ref) (← index (← name values.ref) (← name i.ref)))),
    ← name s.ref]
  let sumBody ← whereDefs sumBody [s, i]
  let main ← signature entry [] .int
  let j ← var "i" .int
  let copy ← var "copy" array
  let mainBody ← block [
    ← forLoop (← name j.ref) (← int 0) (← int 5) (← int 1)
      (← assign (← index (← name numbers.ref) (← name j.ref))
        (← compute .mul (← name j.ref) (← name j.ref))),
    ← assign (← name copy.ref) (← name numbers.ref),
    ← assign (← index (← name copy.ref) (← int 4))
      (← unary .negate (← index (← name copy.ref) (← int 4))),
    ← callUnbound "print_int" [← call sum [← name numbers.ref]],
    ← callUnbound "print_int" [← call sum [← name copy.ref]],
    ← call sum [← name numbers.ref]]
  let mainBody ← whereDefs mainBody [j, copy]
  finish [numbers, func sum sumBody, func main mainBody]

/-- String constants, a string variable and truth values.
```text
var greeting: string
fun main(): integer = {
    print_str("hello"); print_str("hello");
    greeting = "world"; print_str(greeting);
    print_log(1 < 2); print_log(!true);
    0
}
```
-/
def stringsProgram : Build Program := do
  let greeting ← var "greeting" .str
  let main ← signature entry [] .int
  let mainBody ← block [
    ← callUnbound "print_str" [← string "hello"],
    ← callUnbound "print_str" [← string "hello"],
    ← assign (← name greeting.ref) (← string "world"),
    ← callUnbound "print_str" [← name greeting.ref],
    ← callUnbound "print_log" [← compute .lt (← int 1) (← int 2)],
    ← callUnbound "print_log" [← unary .not (← log true)],
    ← int 0]
  finish [greeting, func main mainBody]

/-- Loops of both kinds.
```text
fun main(): integer = {
    while false: print_int(-1);
    for i = 0, 5, 1: print_int(i);
    i = 0;
    while i < limit: { print_int(i * 10); i = i + 1 };
    i
} where var i: integer
```
-/
def loopsProgram (limit : Word) : Build Program := do
  let main ← signature entry [] .int
  let i ← var "i" .int
  let mainBody ← block [
    ← whileLoop (← log false) (← callUnbound "print_int" [← unary .negate (← int 1)]),
    ← forLoop (← name i.ref) (← int 0) (← int 5) (← int 1)
      (← callUnbound "print_int" [← name i.ref]),
    ← assign (← name i.ref) (← int 0),
    ← whileLoop (← compute .lt (← name i.ref) (← int limit))
      (← block [
        ← callUnbound "print_int" [← compute .mul (← name i.ref) (← int 10)],
        ← assign (← name i.ref) (← compute .add (← name i.ref) (← int 1))]),
    ← name i.ref]
  let mainBody ← whereDefs mainBody [i]
  finish [func main mainBody]

/-- Random numbers from a seed.
```text
fun main(): integer = {
    seed(start);
    for i = 0, count, 1: { x = rand_int(1, 7); print_int(x) };
    x
} where var i: integer; var x: integer
```
-/
def randomProgram (start count : Word) : Build Program := do
  let main ← signature entry [] .int
  let i ← var "i" .int
  let x ← var "x" .int
  let mainBody ← block [
    ← callUnbound "seed" [← int start],
    ← forLoop (← name i.ref) (← int 0) (← int count) (← int 1)
      (← block [
        ← assign (← name x.ref) (← callUnbound "rand_int" [← int 1, ← int 7]),
        ← callUnbound "print_int" [← name x.ref]]),
    ← name x.ref]
  let mainBody ← whereDefs mainBody [i, x]
  finish [func main mainBody]

end Sample

inductive Sample where
  | factorial (input : Word)
  | counter (step : Word)
  | arraySum
  | strings
  | loops (limit : Word)
  | random (start count : Word)
deriving DecidableEq

namespace Sample

def all : List Sample := [factorial 5, counter 5, arraySum, strings, loops 3, random 42 10]

def title : Sample → String
  | factorial _ => "factorial"
  | counter _ => "counter"
  | arraySum => "array-sum"
  | strings => "strings"
  | loops _ => "loops"
  | random _ _ => "random"

def description : Sample → String
  | factorial input => "recursive factorial of " ++ toString input.toInt
  | counter _ => "nested functions updating a variable through static links"
  | arraySum => "global array filled in a loop, passed to a function and copied"
  | strings => "string constants, string variables and logical output"
  | loops _ => "while and for loops"
  | random _ _ => "seeded random numbers"

def ofTitle? (title : String) : Option Sample := all.find? (·.title = title)

def build : Sample → Build Program
  | factorial input => factorialProgram input
  | counter step => counterProgram step
  | arraySum => arraySumProgram
  | strings => stringsProgram
  | loops limit => loopsProgram limit
  | random start count => randomProgram start count

end Sample

end BlockLang.Source
