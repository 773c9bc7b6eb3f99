import Mathlib
import WindowFilter.Lib.Steps

/- The kernel's linked lists (`Source/list.c`, `Source/include/list.h`), pointer by pointer.
   Memory holds the items `ι` and the lists `κ`; every function is its assignments, one
   after the other. The loop of `vListInsert` has a bound on its passes and no result past
   it.

   The configuration is that of `FreeRTOSConfig.h`: no integrity check values, and an end
   marker that is a `MiniListItem_t`, which has no owner. -/
namespace WindowFilter.Lists

abbrev portMAX_DELAY : UInt32 := 0xffffffff

/-- What a pointer to a `ListItem_t` can point to. -/
inductive Node (ι κ : Type) where
  | item (i : ι)
  | xListEnd (l : κ)
  deriving DecidableEq, Repr

/-- The fields of every item, of every end marker and of every list. -/
structure Memory (ι κ τ : Type) where
  xItemValue : Node ι κ → UInt32
  pxNext : Node ι κ → Node ι κ
  pxPrevious : Node ι κ → Node ι κ
  pvOwner : ι → τ
  pxContainer : ι → Option κ
  uxNumberOfItems : κ → UInt32
  pxIndex : κ → Node ι κ

variable {ι κ τ : Type} [DecidableEq ι] [DecidableEq κ] [DecidableEq τ]

/-! ## The functions -/

def vListInitialise (l : κ) (m : Memory ι κ τ) : Memory ι κ τ :=
  { m with pxIndex := Function.update m.pxIndex l (.xListEnd l),
           xItemValue := Function.update m.xItemValue (.xListEnd l) portMAX_DELAY,
           pxNext := Function.update m.pxNext (.xListEnd l) (.xListEnd l),
           pxPrevious := Function.update m.pxPrevious (.xListEnd l) (.xListEnd l),
           uxNumberOfItems := Function.update m.uxNumberOfItems l 0 }

def vListInitialiseItem (i : ι) (m : Memory ι κ τ) : Memory ι κ τ :=
  { m with pxContainer := Function.update m.pxContainer i none }

def listSET_LIST_ITEM_VALUE (i : ι) (x : UInt32) (m : Memory ι κ τ) : Memory ι κ τ :=
  { m with xItemValue := Function.update m.xItemValue (.item i) x }

def listSET_LIST_ITEM_OWNER (i : ι) (t : τ) (m : Memory ι κ τ) : Memory ι κ τ :=
  { m with pvOwner := Function.update m.pvOwner i t }

/-- `vListInsertEnd`, and `listINSERT_END`, which does the same. -/
def vListInsertEnd (l : κ) (i : ι) (m : Memory ι κ τ) : Memory ι κ τ :=
  let pxIndex := m.pxIndex l
  let m := { m with pxNext := Function.update m.pxNext (.item i) pxIndex }
  let m := { m with pxPrevious := Function.update m.pxPrevious (.item i) (m.pxPrevious pxIndex) }
  let m := { m with pxNext := Function.update m.pxNext (m.pxPrevious pxIndex) (.item i) }
  let m := { m with pxPrevious := Function.update m.pxPrevious pxIndex (.item i) }
  { m with pxContainer := Function.update m.pxContainer i (some l),
           uxNumberOfItems := Function.update m.uxNumberOfItems l (m.uxNumberOfItems l + 1) }

/-- The loop of `vListInsert`, from the node `pxIterator` on. -/
def insertionPoint (x : UInt32) (m : Memory ι κ τ) : Nat → Node ι κ → Option (Node ι κ)
  | 0, _ => none
  | n + 1, pxIterator =>
    if m.xItemValue (m.pxNext pxIterator) ≤ x then insertionPoint x m n (m.pxNext pxIterator) else some pxIterator

def vListInsert (passes : Nat) (l : κ) (i : ι) (m : Memory ι κ τ) : Option (Memory ι κ τ) :=
  let xValueOfInsertion := m.xItemValue (.item i)
  let pxIterator :=
    if xValueOfInsertion = portMAX_DELAY then some (m.pxPrevious (.xListEnd l))
    else insertionPoint xValueOfInsertion m passes (.xListEnd l)
  pxIterator.map fun pxIterator =>
    let m := { m with pxNext := Function.update m.pxNext (.item i) (m.pxNext pxIterator) }
    let m := { m with pxPrevious := Function.update m.pxPrevious (m.pxNext (.item i)) (.item i) }
    let m := { m with pxPrevious := Function.update m.pxPrevious (.item i) pxIterator }
    let m := { m with pxNext := Function.update m.pxNext pxIterator (.item i) }
    { m with pxContainer := Function.update m.pxContainer i (some l),
             uxNumberOfItems := Function.update m.uxNumberOfItems l (m.uxNumberOfItems l + 1) }

/-- `uxListRemove`, and `listREMOVE_ITEM`, which has no result: none for an item in no list. -/
def uxListRemove (i : ι) (m : Memory ι κ τ) : Option (Memory ι κ τ × UInt32) :=
  (m.pxContainer i).map fun l =>
    let m := { m with pxPrevious := Function.update m.pxPrevious (m.pxNext (.item i)) (m.pxPrevious (.item i)) }
    let m := { m with pxNext := Function.update m.pxNext (m.pxPrevious (.item i)) (m.pxNext (.item i)) }
    let m := if m.pxIndex l = .item i then
        { m with pxIndex := Function.update m.pxIndex l (m.pxPrevious (.item i)) }
      else m
    let m := { m with pxContainer := Function.update m.pxContainer i none,
                      uxNumberOfItems := Function.update m.uxNumberOfItems l (m.uxNumberOfItems l - 1) }
    (m, m.uxNumberOfItems l)

/-- The owner a pointer leads to: an end marker has none. -/
def ownerOf (m : Memory ι κ τ) : Node ι κ → Option τ
  | .item i => some (m.pvOwner i)
  | .xListEnd _ => none

def listGET_OWNER_OF_NEXT_ENTRY (l : κ) (m : Memory ι κ τ) : Option (τ × Memory ι κ τ) :=
  let m := { m with pxIndex := Function.update m.pxIndex l (m.pxNext (m.pxIndex l)) }
  let m := if m.pxIndex l = .xListEnd l then
      { m with pxIndex := Function.update m.pxIndex l (m.pxNext (.xListEnd l)) }
    else m
  (ownerOf m (m.pxIndex l)).map fun t => (t, m)

def listGET_OWNER_OF_HEAD_ENTRY (l : κ) (m : Memory ι κ τ) : Option τ := ownerOf m (m.pxNext (.xListEnd l))

def listGET_ITEM_VALUE_OF_HEAD_ENTRY (l : κ) (m : Memory ι κ τ) : UInt32 := m.xItemValue (m.pxNext (.xListEnd l))

def listLIST_IS_EMPTY (l : κ) (m : Memory ι κ τ) : Bool := m.uxNumberOfItems l = 0

def listCURRENT_LIST_LENGTH (l : κ) (m : Memory ι κ τ) : UInt32 := m.uxNumberOfItems l

def listLIST_ITEM_CONTAINER (i : ι) (m : Memory ι κ τ) : Option κ := m.pxContainer i

/-! ## Calls -/

/-- A call and what it answers. -/
inductive Call (ι κ τ : Type) where
  | initialise (l : κ)
  | initialiseItem (i : ι)
  | setValue (i : ι) (x : UInt32)
  | setOwner (i : ι) (t : τ)
  | insertEnd (l : κ) (i : ι)
  | insert (l : κ) (i : ι)
  | remove (i : ι) (left : UInt32)
  | nextOwner (l : κ) (t : τ)
  | headOwner (l : κ) (t : τ)
  | headValue (l : κ) (x : UInt32)
  | isEmpty (l : κ) (b : Bool)
  | length (l : κ) (n : UInt32)
  | container (i : ι) (l : Option κ)
  deriving DecidableEq, Repr

def step (passes : Nat) (m : Memory ι κ τ) : Call ι κ τ → Option (Memory ι κ τ)
  | .initialise l => some (vListInitialise l m)
  | .initialiseItem i => some (vListInitialiseItem i m)
  | .setValue i x => some (listSET_LIST_ITEM_VALUE i x m)
  | .setOwner i t => some (listSET_LIST_ITEM_OWNER i t m)
  | .insertEnd l i => some (vListInsertEnd l i m)
  | .insert l i => vListInsert passes l i m
  | .remove i left => (uxListRemove i m).bind fun r => if r.2 = left then some r.1 else none
  | .nextOwner l t => (listGET_OWNER_OF_NEXT_ENTRY l m).bind fun r => if r.1 = t then some r.2 else none
  | .headOwner l t => if listGET_OWNER_OF_HEAD_ENTRY l m = some t then some m else none
  | .headValue l x => if listGET_ITEM_VALUE_OF_HEAD_ENTRY l m = x then some m else none
  | .isEmpty l b => if listLIST_IS_EMPTY l m = b then some m else none
  | .length l n => if listCURRENT_LIST_LENGTH l m = n then some m else none
  | .container i l => if listLIST_ITEM_CONTAINER i m = l then some m else none

end WindowFilter.Lists
