import Starrysky.Lib.LinkRing
import Mathlib.Data.UInt

/-!
# The kernel's linked lists

The part of `<linux/list.h>` that `kqueue.h` uses, over a heap that gives the `next` and the `prev`
link of the `struct list_head` at every address. The functions write the links in the order in
which the kernel's do, so that they are right where the written nodes coincide: the sentinel of an
empty list is its own neighbour on both sides.

Each function has one lemma about the ring it edits and one about the links it leaves alone.
-/

namespace Starrysky.Kqueue

/-- An address of the kernel. -/
abbrev Addr := UInt64

/-- `struct list_head`, at every address. -/
@[ext] structure Heap where
  next : Addr → Addr
  prev : Addr → Addr

/-- What `list_del` leaves in the `next` link of the removed node. -/
def LIST_POISON1 : Addr := 0xdead000000000100

/-- What `list_del` leaves in the `prev` link of the removed node. -/
def LIST_POISON2 : Addr := 0xdead000000000122

namespace Heap

/-- `a->next = v`. -/
def setNext (h : Heap) (a v : Addr) : Heap := { h with next := Function.update h.next a v }

/-- `a->prev = v`. -/
def setPrev (h : Heap) (a v : Addr) : Heap := { h with prev := Function.update h.prev a v }

@[simp] theorem setNext_next (h : Heap) (a v : Addr) :
    (h.setNext a v).next = Function.update h.next a v := rfl
@[simp] theorem setNext_prev (h : Heap) (a v : Addr) : (h.setNext a v).prev = h.prev := rfl
@[simp] theorem setPrev_next (h : Heap) (a v : Addr) : (h.setPrev a v).next = h.next := rfl
@[simp] theorem setPrev_prev (h : Heap) (a v : Addr) :
    (h.setPrev a v).prev = Function.update h.prev a v := rfl

/-- The nodes `l` are linked, in this order, into the list of the sentinel `head`. -/
def Ring (h : Heap) (head : Addr) (l : List Addr) : Prop := LinkRing h.next h.prev head l

/-- `a` is the sentinel or a node of its list: following `next` from the sentinel comes to it. -/
def Linked (h : Heap) (head a : Addr) : Prop := ∃ k, h.next^[k] head = a

/-- The two heaps have the same links at `a`. -/
def SameAt (h h' : Heap) (a : Addr) : Prop := h'.next a = h.next a ∧ h'.prev a = h.prev a

theorem Ring.linked_iff {h : Heap} {head a : Addr} {l : List Addr} (hr : h.Ring head l) :
    h.Linked head a ↔ a ∈ head :: l := hr.reach_iff

/-- A list is the same in a heap with the same links at its sentinel and its nodes. -/
theorem Ring.congr {h h' : Heap} {head : Addr} {l : List Addr} (hr : h.Ring head l)
    (hs : ∀ a ∈ head :: l, h.SameAt h' a) : h'.Ring head l :=
  LinkRing.congr hr (fun a ha => (hs a ha).1) (fun a ha => (hs a ha).2)

end Heap

/-- `INIT_LIST_HEAD(list)`. -/
def initListHead (h : Heap) (list : Addr) : Heap := (h.setNext list list).setPrev list list

/-- `__list_add(new, prev, next)`. -/
def listAddBetween (h : Heap) (new prev next : Addr) : Heap :=
  (((h.setPrev next new).setNext new next).setPrev new prev).setNext prev new

/-- `list_add(new, head)`. -/
def listAdd (h : Heap) (new head : Addr) : Heap := listAddBetween h new head (h.next head)

/-- `list_add_tail(new, head)`. -/
def listAddTail (h : Heap) (new head : Addr) : Heap := listAddBetween h new (h.prev head) head

/-- `__list_del(prev, next)`. -/
def listDelBetween (h : Heap) (prev next : Addr) : Heap := (h.setPrev next prev).setNext prev next

/-- `list_del(entry)`. -/
def listDel (h : Heap) (entry : Addr) : Heap :=
  ((listDelBetween h (h.prev entry) (h.next entry)).setNext entry LIST_POISON1).setPrev entry
    LIST_POISON2

variable {h : Heap} {head n a : Addr} {l : List Addr}

theorem listAdd_next : (listAdd h n head).next =
    Function.update (Function.update h.next n (h.next head)) head n := rfl
theorem listAdd_prev : (listAdd h n head).prev =
    Function.update (Function.update h.prev (h.next head) n) n head := rfl
theorem listAddTail_next : (listAddTail h n head).next =
    Function.update (Function.update h.next n head) (h.prev head) n := rfl
theorem listAddTail_prev : (listAddTail h n head).prev =
    Function.update (Function.update h.prev head n) n (h.prev head) := rfl
theorem listDel_next : (listDel h n).next =
    Function.update (Function.update h.next (h.prev n) (h.next n)) n LIST_POISON1 := rfl
theorem listDel_prev : (listDel h n).prev =
    Function.update (Function.update h.prev (h.next n) (h.prev n)) n LIST_POISON2 := rfl

/-! ## The list each function leaves -/

theorem initListHead_ring (h : Heap) (head : Addr) : (initListHead h head).Ring head [] :=
  LinkRing.nil (by simp [initListHead]) (by simp [initListHead])

/-- `list_add` links the node in at the front. -/
theorem listAdd_ring (hr : h.Ring head l) (hn : n ∉ head :: l) :
    (listAdd h n head).Ring head (n :: l) := by
  have hnh : n ≠ head := fun e => hn (by simp [e])
  have hnn : h.next head ≠ n := ne_of_mem_of_not_mem (hr.next_mem (by simp)) hn
  apply LinkRing.pushFront hr hn
  all_goals simp only [listAdd_next, listAdd_prev]
  · exact Function.update_self ..
  · exact Function.update_self ..
  · rw [Function.update_of_ne hnh, Function.update_self]
  · rw [Function.update_of_ne hnn, Function.update_self]
  · intro x hx hxn
    rw [Function.update_of_ne hx, Function.update_of_ne hxn]
  · intro y hy hyn
    rw [Function.update_of_ne hyn, Function.update_of_ne hy]

/-- `list_add_tail` links the node in at the back. -/
theorem listAddTail_ring (hr : h.Ring head l) (hn : n ∉ head :: l) :
    (listAddTail h n head).Ring head (l ++ [n]) := by
  have hnh : n ≠ head := fun e => hn (by simp [e])
  have hnp : h.prev head ≠ n := ne_of_mem_of_not_mem (hr.prev_mem (by simp)) hn
  apply LinkRing.pushBack hr hn
  all_goals simp only [listAddTail_next, listAddTail_prev]
  · rw [Function.update_of_ne hnh.symm, Function.update_self]
  · rw [Function.update_of_ne hnp.symm, Function.update_self]
  · exact Function.update_self ..
  · exact Function.update_self ..
  · intro x hx hxn
    rw [Function.update_of_ne hx, Function.update_of_ne hxn]
  · intro y hy hyn
    rw [Function.update_of_ne hyn, Function.update_of_ne hy]

/-- `list_del` of the front node leaves the list of the others. -/
theorem listDel_ring_front (hr : h.Ring head (n :: l)) : (listDel h n).Ring head l := by
  have hnh : head ≠ n := fun e => hr.head_notMem (by simp [e])
  apply LinkRing.popFront hr
  all_goals simp only [listDel_next, listDel_prev, hr.prev_front]
  · rw [Function.update_of_ne hnh, Function.update_self]
  · rw [Function.update_of_ne hr.next_front_ne, Function.update_self]
  · intro x hx hxn
    rw [Function.update_of_ne hxn, Function.update_of_ne hx]
  · intro y hy hyn
    rw [Function.update_of_ne hyn, Function.update_of_ne hy]

/-- `list_del` of the back node leaves the list of the others. -/
theorem listDel_ring_back (hr : h.Ring head (l ++ [n])) : (listDel h n).Ring head l := by
  have hnh : head ≠ n := fun e => hr.head_notMem (by simp [e])
  apply LinkRing.popBack hr
  all_goals simp only [listDel_next, listDel_prev, hr.next_back]
  · rw [Function.update_of_ne hnh, Function.update_self]
  · rw [Function.update_of_ne hr.prev_back_ne, Function.update_self]
  · intro x hx hxn
    rw [Function.update_of_ne hxn, Function.update_of_ne hx]
  · intro y hy hyn
    rw [Function.update_of_ne hyn, Function.update_of_ne hy]

/-! ## The links each function leaves alone -/

/-- `list_add` writes the links of the new node, of the sentinel and of what followed it. -/
theorem listAdd_sameAt (hn : a ≠ n) (hh : a ≠ head) (hnext : a ≠ h.next head) :
    h.SameAt (listAdd h n head) a := by
  simp [Heap.SameAt, listAdd_next, listAdd_prev, hn, hh, hnext]

/-- `list_add_tail` writes the links of the new node, of the sentinel and of what preceded it. -/
theorem listAddTail_sameAt (hn : a ≠ n) (hh : a ≠ head) (hprev : a ≠ h.prev head) :
    h.SameAt (listAddTail h n head) a := by
  simp [Heap.SameAt, listAddTail_next, listAddTail_prev, hn, hh, hprev]

/-- `list_del` writes the links of the node and of its two neighbours. -/
theorem listDel_sameAt (hn : a ≠ n) (hnext : a ≠ h.next n) (hprev : a ≠ h.prev n) :
    h.SameAt (listDel h n) a := by
  simp [Heap.SameAt, listDel_next, listDel_prev, hn, hnext, hprev]

end Starrysky.Kqueue
