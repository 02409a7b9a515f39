/-!
# First-in first-out queues

A queue is two lists, so that both ends are at hand. Its meaning is `toList`, the
items in the order in which they leave.
-/

namespace WidthTrace

/-- `front` holds the oldest items in order, `back` the newer ones with the newest first. -/
structure Queue (α : Type) where
  front : List α
  back : List α

namespace Queue

variable {α : Type}

def empty : Queue α := ⟨[], []⟩

instance : Inhabited (Queue α) := ⟨empty⟩

/-- The items in the order in which they leave. -/
def toList (queue : Queue α) : List α :=
  queue.front ++ queue.back.reverse

def length (queue : Queue α) : Nat :=
  queue.front.length + queue.back.length

def push (queue : Queue α) (item : α) : Queue α :=
  ⟨queue.front, item :: queue.back⟩

/-- Adds items in their order. -/
def pushAll (queue : Queue α) (items : List α) : Queue α :=
  items.foldl push queue

/-- The oldest item and the queue without it. -/
def pop? (queue : Queue α) : Option (α × Queue α) :=
  match queue.front with
  | item :: front => some (item, ⟨front, queue.back⟩)
  | [] =>
      match queue.back.reverse with
      | item :: front => some (item, ⟨front, []⟩)
      | [] => none

@[simp] theorem toList_empty : (empty : Queue α).toList = [] := rfl

theorem length_toList (queue : Queue α) : queue.toList.length = queue.length := by
  simp [toList, length]

@[simp] theorem toList_push (queue : Queue α) (item : α) :
    (queue.push item).toList = queue.toList ++ [item] := by
  simp [push, toList]

@[simp] theorem toList_pushAll (queue : Queue α) (items : List α) :
    (queue.pushAll items).toList = queue.toList ++ items := by
  induction items generalizing queue with
  | nil => exact (List.append_nil _).symm
  | cons item rest ih =>
      have next : queue.pushAll (item :: rest) = (queue.push item).pushAll rest := rfl
      rw [next, ih, toList_push, List.append_assoc, List.singleton_append]

@[simp] theorem length_push (queue : Queue α) (item : α) :
    (queue.push item).length = queue.length + 1 := by
  simp only [push, length, List.length_cons]
  omega

theorem toList_of_pop? {queue rest : Queue α} {item : α} (popped : queue.pop? = some (item, rest)) :
    queue.toList = item :: rest.toList := by
  obtain ⟨front, back⟩ := queue
  cases front with
  | cons first front =>
      cases popped
      rfl
  | nil =>
      simp only [pop?] at popped
      cases reversed : back.reverse with
      | nil =>
          rw [reversed] at popped
          cases popped
      | cons first front =>
          rw [reversed] at popped
          cases popped
          simp [toList, reversed]

theorem length_of_pop? {queue rest : Queue α} {item : α} (popped : queue.pop? = some (item, rest)) :
    queue.length = rest.length + 1 := by
  rw [← length_toList, toList_of_pop? popped, List.length_cons, length_toList]

theorem pop?_eq_none_iff {queue : Queue α} : queue.pop? = none ↔ queue.toList = [] := by
  obtain ⟨front, back⟩ := queue
  cases front with
  | cons first front => simp [pop?, toList]
  | nil =>
      cases reversed : back.reverse with
      | nil => simp [pop?, toList, reversed]
      | cons first front => simp [pop?, toList, reversed]

theorem eq_empty_of_toList {queue : Queue α} (nothing : queue.toList = []) : queue = empty := by
  obtain ⟨front, back⟩ := queue
  obtain ⟨rfl, reversed⟩ := List.append_eq_nil_iff.mp nothing
  cases List.reverse_eq_nil_iff.mp reversed
  rfl

end Queue

end WidthTrace
