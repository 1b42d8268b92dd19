import CHomework.AsmLists.Assembly

/-!
The C program that the assembly program follows.
-/

namespace CHomework.AsmLists.C

structure Node where
  el : UInt64
  prev : UInt64

/-- The nodes on the heap, each at its address, the number of calls of `malloc` so
far, and what is printed. -/
structure State where
  heap : UInt64 → Option Node
  mallocs : Nat
  out : List Output

section

variable (malloc : Nat → UInt64)

def p (el : UInt64) (s : State) : Option (UInt64 × State) :=
  some (el % 2, s)

/-- Without a block the program aborts. -/
def addElement (rec el : UInt64) (s : State) : Option (UInt64 × State) :=
  let curNode := malloc s.mallocs
  if curNode = 0 then none
  else
    some (curNode, { s with
      heap := Function.update s.heap curNode (some { el, prev := rec })
      mallocs := s.mallocs + 1 })

def printInt (el : UInt64) (s : State) : Option State :=
  some { s with out := s.out ++ [.int el] }

def putsEmpty (s : State) : State :=
  { s with out := s.out ++ [.newline] }

/-- The recursion is on a bound for the number of calls. -/
def m (printFn : UInt64 → State → Option State) : Nat → UInt64 → State → Option State
  | 0, _, _ => none
  | calls + 1, list, s =>
      if list = 0 then some s
      else do
        let node ← s.heap list
        let s ← printFn node.el s
        let node ← s.heap list
        m printFn calls node.prev s

def f (fn : UInt64 → State → Option (UInt64 × State)) :
    Nat → UInt64 → UInt64 → State → Option (UInt64 × State)
  | 0, _, _, _ => none
  | calls + 1, list, oddList, s =>
      if list = 0 then some (oddList, s)
      else do
        let el := (← s.heap list).el
        let (r, s) ← fn el s
        let (oddList, s) ← if r ≠ 0 then addElement malloc oddList el s else some (oddList, s)
        let node ← s.heap list
        f fn calls node.prev oddList s

/-- `free`, of a block that is allocated. -/
def free (block : UInt64) (s : State) : Option State :=
  (s.heap block).map fun _ => { s with heap := Function.update s.heap block none }

def freeStack : Nat → UInt64 → State → Option State
  | 0, _, _ => none
  | calls + 1, stack, s =>
      if stack = 0 then some s
      else do
        let node ← s.heap stack
        let s ← freeStack calls node.prev s
        free stack s

def addingLoop (data : List UInt64) : Nat → UInt64 → State → Option (UInt64 × State)
  | 0, list, s => some (list, s)
  | i + 1, list, s => do
      let el ← data[i]?
      let (list, s) ← addElement malloc list el s
      addingLoop data i list s

/-- `main`, with a bound for the calls of each recursion. -/
def main (data : List UInt64) (calls : Nat) (s : State) : Option (UInt64 × State) := do
  let (list, s) ← addingLoop malloc data data.length 0 s
  let s ← m printInt calls list s
  let s := putsEmpty s
  let (oddList, s) ← f malloc p calls list 0 s
  let s ← m printInt calls oddList s
  let s := putsEmpty s
  let s ← freeStack calls list s
  let s ← freeStack calls oddList s
  some (0, s)

end

end CHomework.AsmLists.C
