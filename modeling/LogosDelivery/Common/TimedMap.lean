import LogosDelivery.Lib.Table

/-! # The timed map

`common/rate_limit/timed_map.nim`.  An entry is a reference with two links, and the links are kept
beside the entries, by the number of the reference.  A set holds the entries by their keys, and two
entries are equal when their keys are.

A loop over the entries that goes round is `none`: there are no more rounds than entries that were
ever made, unless it comes back to one. -/

namespace LogosDelivery.Common

open Lib

structure TimedEntry (K V : Type) where
  id : ℕ
  key : K
  value : V
  addedAt : ℤ
  expiresAt : ℤ

structure TimedMap (K V : Type) where
  head : Option (TimedEntry K V)
  tail : Option (TimedEntry K V)
  entries : Table K (TimedEntry K V)
  timeout : ℤ
  next : ℕ → Option (TimedEntry K V)
  prev : ℕ → Option (TimedEntry K V)
  created : ℕ

namespace TimedMap

variable {K V : Type}

def init (timeout : ℤ) : TimedMap K V :=
  ⟨none, none, ∅, timeout, fun _ => none, fun _ => none, 0⟩

def setNext (t : TimedMap K V) (entry : TimedEntry K V) (next : Option (TimedEntry K V)) :
    TimedMap K V :=
  { t with next := Function.update t.next entry.id next }

def setPrev (t : TimedMap K V) (entry : TimedEntry K V) (prev : Option (TimedEntry K V)) :
    TimedMap K V :=
  { t with prev := Function.update t.prev entry.id prev }

variable [DecidableEq K]

/-- `a == b` -/
def sameKey : Option (TimedEntry K V) → Option (TimedEntry K V) → Bool
  | none, none => true
  | some a, some b => a.key = b.key
  | _, _ => false

def contains (t : TimedMap K V) (k : K) : Bool := decide (k ∈ t.entries)

/-- One round of the loop of `expire`. -/
def expireHead (t : TimedMap K V) (head : TimedEntry K V) : TimedMap K V :=
  let t := { t with entries := t.entries.erase head.key }
  let t := t.setPrev head none
  let t := { t with head := t.next head.id }
  if t.head.isNone then { t with tail := none } else t

def expireLoop (now : ℤ) : ℕ → TimedMap K V → Option (TimedMap K V)
  | 0, _ => none
  | fuel + 1, t =>
      match t.head with
      | none => some t
      | some head =>
          if head.expiresAt ≤ now then expireLoop now fuel (t.expireHead head) else some t

def expire (t : TimedMap K V) (now : ℤ) : Option (TimedMap K V) :=
  expireLoop now (t.created + 1) t

/-- The item is taken out of the list. -/
def unlink (t : TimedMap K V) (item : TimedEntry K V) : TimedMap K V :=
  let t := if sameKey t.head (some item) then { t with head := t.next item.id } else t
  let t := if sameKey t.tail (some item) then { t with tail := t.prev item.id } else t
  let t :=
    match t.next item.id with
    | none => t
    | some next => t.setPrev next (t.prev item.id)
  match t.prev item.id with
  | none => t
  | some prev => t.setNext prev (t.next item.id)

def del (t : TimedMap K V) (key : K) : TimedMap K V × Option (TimedEntry K V) :=
  match t.entries.lookup key with
  | none => (t, none)
  | some item => ({ t with entries := t.entries.erase item.key }.unlink item, some item)

def remove (t : TimedMap K V) (key : K) : TimedMap K V × Option V :=
  match t.del key with
  | (t, some item) => (t, some item.value)
  | (t, none) => (t, none)

/-- From `cur` back to an entry that does not expire after the node. -/
def search (t : TimedMap K V) (node : TimedEntry K V) :
    ℕ → Option (TimedEntry K V) → Option (Option (TimedEntry K V))
  | 0, _ => none
  | _ + 1, none => some none
  | fuel + 1, some cur =>
      if node.expiresAt < cur.expiresAt then search t node fuel (t.prev cur.id) else some (some cur)

/-- The new node is linked in. -/
def insertNode (t : TimedMap K V) (node : TimedEntry K V) : Option (TimedMap K V) :=
  match t.head with
  | none => some { t with tail := some node, head := some node }
  | some head =>
      match t.search node (t.created + 1) t.tail with
      | none => none
      | some none =>
          let t := t.setNext node (some head)
          let t := t.setPrev head (some node)
          some { t with head := some node }
      | some (some cur) =>
          let t := t.setPrev node (some cur)
          let t := t.setNext node (t.next cur.id)
          let t := t.setNext cur (some node)
          some (if sameKey (some cur) t.tail then { t with tail := some node } else t)

/-- A node without links. -/
def newNode (t : TimedMap K V) (k : K) (v : V) (addedAt expiresAt : ℤ) :
    TimedMap K V × TimedEntry K V :=
  ({ t with
      next := Function.update t.next t.created none
      prev := Function.update t.prev t.created none
      created := t.created + 1 }, ⟨t.created, k, v, addedAt, expiresAt⟩)

/-- `entries.incl(node)` -/
def incl (t : TimedMap K V) (node : TimedEntry K V) : TimedMap K V :=
  if node.key ∈ t.entries then t else { t with entries := t.entries.insert node.key node }

def mgetOrPut (t : TimedMap K V) (k : K) (v : V) (now : ℤ) : Option (TimedMap K V × V) :=
  match t.expire now with
  | none => none
  | some t =>
      match t.del k with
      | (t, previous) =>
          let addedAt :=
            match previous with
            | some item => item.addedAt
            | none => now
          let value :=
            match previous with
            | some item => item.value
            | none => v
          match t.newNode k value addedAt (now + t.timeout) with
          | (t, node) =>
              match t.insertNode node with
              | none => none
              | some t => some (t.incl node, node.value)

/-! ### Calls -/

inductive Op (K V : Type) where
  | mgetOrPut (k : K) (v : V) (now : ℤ)
  | remove (k : K)
  | expire (now : ℤ)

/-- The map after a call. -/
def apply (t : TimedMap K V) : Op K V → Option (TimedMap K V)
  | .mgetOrPut k v now => (t.mgetOrPut k v now).map Prod.fst
  | .remove k => some (t.remove k).1
  | .expire now => t.expire now

end TimedMap

end LogosDelivery.Common
