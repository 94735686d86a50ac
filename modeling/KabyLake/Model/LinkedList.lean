import Mathlib.Data.List.Nodup
import Mathlib.Logic.Function.Basic
import KabyLake.Model.Error
import KabyLake.Stdio.Numeral

/-! # Doubly linked lists over an explicit heap

The functions of `list.c` rewire nodes through pointers. The heap maps the address of every
allocated node to its contents; an address is never handed out twice, so a pointer to a freed
node stays dangling for ever. `NULL` is `none`.
-/

namespace KabyLake

open Stdio

/-- `node_t *`. -/
abbrev NodePtr := Option ℕ

/-- `struct node`. -/
structure ListNode where
  value : ℕ
  previous : NodePtr
  next : NodePtr
deriving DecidableEq, Repr

/-- `struct list`. -/
structure ListT where
  front : NodePtr
  back : NodePtr
deriving DecidableEq, Repr

/-- The allocated nodes. All addresses from `top` on have never been handed out. -/
structure Heap where
  node : ℕ → Option ListNode
  top : ℕ
  unused : ∀ a, top ≤ a → node a = none

namespace Heap

/-- No node is allocated. -/
def empty : Heap := ⟨fun _ => none, 0, fun _ _ => rfl⟩

/-- `*ptr`. -/
def load (heap : Heap) : NodePtr → Exec ListNode
  | none => .error .nullPointer
  | some a => match heap.node a with
    | none => .error .danglingPointer
    | some node => .ok node

/-- Replace the contents of an allocated node. -/
def put (heap : Heap) (a : ℕ) (node : ListNode) (below : a < heap.top) : Heap where
  node := Function.update heap.node a (some node)
  top := heap.top
  unused b above := by
    rw [Function.update_of_ne (by omega)]
    exact heap.unused b above

theorem lt_top {heap : Heap} {a : ℕ} {node : ListNode} (present : heap.node a = some node) :
    a < heap.top := by
  by_contra above
  rw [heap.unused a (by omega)] at present
  contradiction

/-- `ptr->field = ...` for the fields that `change` assigns. -/
def store (heap : Heap) (ptr : NodePtr) (change : ListNode → ListNode) : Exec Heap :=
  match ptr with
  | none => .error .nullPointer
  | some a => match present : heap.node a with
    | none => .error .danglingPointer
    | some node => .ok (heap.put a (change node) (lt_top present))

/-- `malloc(sizeof(node_t))`: `NULL`, or a new node with whatever its bytes were. -/
def malloc (heap : Heap) (outcome : Option ListNode) : NodePtr × Heap :=
  match outcome with
  | none => (none, heap)
  | some garbage => (some heap.top,
      { node := Function.update heap.node heap.top (some garbage)
        top := heap.top + 1
        unused := fun b above => by
          rw [Function.update_of_ne (by omega)]
          exact heap.unused b (by omega) })

/-- `free(ptr)`; freeing `NULL` does nothing, and freeing a node twice faults. -/
def free (heap : Heap) : NodePtr → Exec Heap
  | none => .ok heap
  | some a => match heap.node a with
    | none => .error .danglingPointer
    | some _ => .ok
      { node := Function.update heap.node a none
        top := heap.top
        unused := fun b above => by
          by_cases same : b = a
          · rw [same, Function.update_self]
          · rw [Function.update_of_ne same]
            exact heap.unused b above }

end Heap

/-- `is_empty_list`: a list with only one of its two pointers set is reported as
`ERR_BAD_PARAMETER`, which is not zero either. -/
def isEmptyList (this : ListT) : ℕ :=
  if (this.back.isNone && this.front.isSome) || (this.back.isSome && this.front.isNone) then 3
  else if this.back.isNone && this.front.isNone then 1 else 0

/-- `init_list`. -/
def initList : ListT := ⟨none, none⟩

/-- `push_back`, with the value already read through its pointer. -/
def pushBack (heap : Heap) (this : ListT) (value : ℕ) (outcome : Option ListNode) :
    Exec (NodePtr × Heap × ListT) := do
  match heap.malloc outcome with
  | (none, heap) => return (none, heap, this)
  | (some newback, heap) =>
    let heap ← heap.store (some newback) fun _ => ⟨value, this.back, none⟩
    if isEmptyList this = 0 then
      let heap ← heap.store this.back fun node => { node with next := some newback }
      return (some newback, heap, { this with back := some newback })
    else
      return (some newback, heap, ⟨some newback, some newback⟩)

/-- `push_front`, with the value already read through its pointer. -/
def pushFront (heap : Heap) (this : ListT) (value : ℕ) (outcome : Option ListNode) :
    Exec (NodePtr × Heap × ListT) := do
  match heap.malloc outcome with
  | (none, heap) => return (none, heap, this)
  | (some newfront, heap) =>
    let heap ← heap.store (some newfront) fun _ => ⟨value, none, this.front⟩
    if isEmptyList this ≠ 0 then return (some newfront, heap, ⟨some newfront, some newfront⟩)
    else
      let heap ← heap.store this.front fun node => { node with previous := some newfront }
      return (some newfront, heap, { this with front := some newfront })

/-- The loop of `clear_list`: the node before `node` is freed. The loop can only go on for longer
than there are addresses if it follows a cycle. -/
def clearNodes : ℕ → Heap → NodePtr → Exec Heap
  | _, heap, none => .ok heap
  | 0, _, some _ => .error .divergence
  | fuel + 1, heap, some a => do
    let heap ← heap.store (some a) fun node => { node with value := 0 }
    let node ← heap.load (some a)
    let heap ← heap.free node.previous
    let heap ← heap.store (some a) fun node => { node with previous := none }
    let node ← heap.load (some a)
    clearNodes fuel heap node.next

/-- `clear_list`. -/
def clearList (heap : Heap) (this : ListT) : Exec (Heap × ListT) := do
  if isEmptyList this ≠ 0 then return (heap, this)
  let heap ← clearNodes heap.top heap this.front
  let heap ← heap.free this.back
  return (heap, ⟨none, none⟩)

/-- `pop_back`: the node before the back is freed, and the only node of a list is used after it has
been freed. -/
def popBack (heap : Heap) (this : ListT) : Exec (Heap × ListT) := do
  if isEmptyList this ≠ 0 then return (heap, this)
  let (heap, this) ← if this.front = this.back then do
      let heap ← heap.free this.front
      pure (heap, { this with front := none })
    else pure (heap, this)
  let back ← heap.load this.back
  let newback := back.previous
  let heap ← heap.store this.back fun node => { node with value := 0 }
  let back ← heap.load this.back
  let heap ← heap.free back.previous
  let heap ← heap.store this.back fun node => { node with previous := none }
  return (heap, { this with back := newback })

/-- `pop_front`: the only node of a list is freed twice, the front of a longer one never. -/
def popFront (heap : Heap) (this : ListT) : Exec (Heap × ListT) := do
  if isEmptyList this ≠ 0 then return (heap, this)
  let heap ← if this.front = this.back then do
      let heap ← heap.free this.back
      heap.free this.back
    else pure heap
  let front ← heap.load this.front
  let heap ← heap.store front.next fun node => { node with previous := none }
  return (heap, { this with front := front.next })

/-- `move_back`. -/
def moveBack (heap : Heap) (this : ListT) (node : NodePtr) (outcome : Option ListNode) :
    Exec (Heap × ListT) := do
  if node = none then return (heap, this)
  if isEmptyList this ≠ 0 then return (heap, this)
  else if this.front = this.back ∨ this.back = node then return (heap, this)
  else if this.front = node then
    -- a copy is appended and the front is dropped; the result of `push_back` is not looked at
    let contents ← heap.load node
    let (_, heap, this) ← pushBack heap this contents.value outcome
    popFront heap this
  else
    let contents ← heap.load node
    if contents.next ≠ none then
      let heap ← heap.store contents.previous fun other => { other with next := contents.next }
      let heap ← heap.store contents.next fun other => { other with previous := contents.previous }
      let heap ← heap.store this.back fun other => { other with next := node }
      let heap ← heap.store node fun other => { other with previous := this.back, next := none }
      return (heap, { this with back := node })
    else return (heap, this)

/-- `for_all_nodes_reverse` with a body that returns at the first node whose value passes `test`.
A traversal that outlives the number of addresses ever handed out follows a cycle. -/
def findReverse (heap : Heap) (test : ℕ → Exec Bool) : ℕ → NodePtr → Exec NodePtr
  | _, none => .ok none
  | 0, some _ => .error .divergence
  | fuel + 1, some a => do
    let node ← heap.load (some a)
    if ← test node.value then return some a
    else findReverse heap test fuel node.previous

/-- The loops of `print_list` and `print_reverse_list`, which follow `next` and put a comma behind every
node but `last`: what they print, and how often they add one to the counter. -/
def printNodes (next : ListNode → NodePtr) (last : NodePtr) (heap : Heap) : ℕ → NodePtr → Exec (Text × ℕ)
  | _, none => .ok ([], 0)
  | 0, some _ => .error .divergence
  | fuel + 1, some a => do
    let node ← heap.load (some a)
    let comma := if last ≠ some a then literal [',', ' '] else []
    let (text, counter) ← printNodes next last heap fuel (next node)
    return (numeral 10 node.value ++ comma ++ text, counter + 1)

/-- `print_list`, with what it appends to the stream; the counter starts at one. -/
def printList (heap : Heap) (this : ListT) : Exec (ℕ × Text) := do
  let (text, counter) ← printNodes ListNode.next this.back heap heap.top this.front
  return (counter + 1, ascii '(' :: text ++ [ascii ')'])

/-- `print_reverse_list`. -/
def printReverseList (heap : Heap) (this : ListT) : Exec (ℕ × Text) := do
  let (text, counter) ← printNodes ListNode.previous this.front heap heap.top this.back
  return (counter + 1, ascii '(' :: text ++ [ascii ')'])

end KabyLake
