import Std.Data.TreeMap.Lemmas
import Kv.Bytes

namespace kv

def fmix64 (k : UInt64) : UInt64 :=
  let k := k ^^^ (k >>> 33)
  let k := k * 0xff51afd7ed558ccd
  let k := k ^^^ (k >>> 33)
  let k := k * 0xc4ceb9fe1a85ec53
  k ^^^ (k >>> 33)

def fnv1a_hash (s : Bytes) : UInt64 :=
  fmix64 (s.foldl (fun hash c => (hash ^^^ c.toUInt64) * 1099511628211) 14695981039346656037)

structure ConsistentHashRing where
  virtual_nodes_per_node_ : Nat
  ring_ : Std.TreeMap UInt64 Bytes := {}
  nodes_ : List Bytes := []

/-- The part of a `std::map` from `lower_bound(pos)` to `end()`. -/
def lower_bound (ring : Std.TreeMap UInt64 Bytes) (pos : UInt64) : List (UInt64 × Bytes) :=
  ring.toList.dropWhile fun entry => entry.1 < pos

namespace ConsistentHashRing

-- The source hashes with `fnv1a_hash` throughout; what is proved here does not
-- depend on that choice.
variable (hash : Bytes → UInt64)

def position (node_id : Bytes) (i : Nat) : UInt64 := hash (node_id ++ ascii "#" ++ to_string i)

def add_node (self : ConsistentHashRing) (node_id : Bytes) : ConsistentHashRing :=
  { self with
    ring_ := (List.range self.virtual_nodes_per_node_).foldl
      (fun ring i => ring.insert (position hash node_id i) node_id) self.ring_
    nodes_ := self.nodes_ ++ [node_id] }

def remove_node (self : ConsistentHashRing) (node_id : Bytes) : ConsistentHashRing :=
  { self with
    ring_ := (List.range self.virtual_nodes_per_node_).foldl
      (fun ring i => ring.erase (position hash node_id i)) self.ring_
    nodes_ := self.nodes_.filter (· ≠ node_id) }

def get_node (self : ConsistentHashRing) (key : Bytes) : Except Bytes Bytes :=
  match self.ring_.toList with
  | [] => .error (ascii "ConsistentHashRing::get_node: ring has no nodes")
  | first :: _ =>
    match lower_bound self.ring_ (hash key) with
    | [] => .ok first.2
    | entry :: _ => .ok entry.2

/-- The loop of `get_nodes`. An iterator is the part of the map that it has
    before it; `none` is a loop that has not ended yet. -/
def get_nodes_loop (ring : List (UInt64 × Bytes)) (count : Nat) : Nat → List (UInt64 × Bytes) → List Bytes →
    Option (List Bytes)
  | 0, _, result => if result.length < count then none else some result
  | fuel + 1, it, result =>
    if result.length < count then
      match (if it.isEmpty then ring else it) with
      | [] => none
      | (_, node_id) :: it =>
        get_nodes_loop ring count fuel it (if node_id ∈ result then result else result ++ [node_id])
    else some result

/-- Two turns decide whether the loop ever ends (`get_nodes_loop_two_turns`), so
    `none` means that it does not. -/
def get_nodes (self : ConsistentHashRing) (key : Bytes) (count : Nat) : Option (Except Bytes (List Bytes)) :=
  if self.ring_.isEmpty then some (.error (ascii "ConsistentHashRing::get_nodes: ring has no nodes"))
  else
    (get_nodes_loop self.ring_.toList (min count self.nodes_.length) (2 * self.ring_.toList.length)
      (lower_bound self.ring_ (hash key)) []).map .ok

def node_count (self : ConsistentHashRing) : Nat := self.nodes_.length

end ConsistentHashRing

end kv
