import StridedViews.View.Basic

/-!
Shared items. Views, host objects and the plain values that own views are shared: each item counts
its shares and lives as long as it has any. What an item itself holds, a view's reference to its
buffer and shares of older items, is read off the item by `holds`.
-/

namespace StridedViews

/-- One hold on something counted: on a buffer, or on an item. -/
inductive Hold where
  | buffer (id : BufferId) (sort : BufferHold)
  | share (item : ItemId)
  deriving DecidableEq, Repr

/-- The share that comes with an owner. -/
def Hold.ofOwner (owner : Option ItemId) : List Hold := (owner.map Hold.share).toList

/-- The reference through which a view sees its source. -/
def ViewSource.holds : ViewSource → List Hold
  | .managed buffer => (buffer.map fun id => Hold.buffer id .reference).toList
  | .aliased _ => []

/-- The holds of a view: its reference first, then its owner. -/
def View.holds (v : View) : List Hold :=
  (v.buffer?.map fun id => Hold.buffer id .reference).toList ++ (v.owner.map Hold.share).toList

/-- What serves as an object's bytes. -/
inductive ByteSource where
  | view (item : ItemId)
  | bytes (bs : List UInt8)
  /-- Bytes of an object that does not call itself a buffer; without them, reading fails. -/
  | hidden (bs : Option (List UInt8))
  deriving DecidableEq, Repr

/-- A host object with the interfaces it offers. -/
structure HostObject where
  typeName : String
  /-- The buffer interface. -/
  bytes : Option ByteSource
  /-- The release interface: a view to release. -/
  releasable : Option ItemId
  deriving DecidableEq, Repr

namespace HostObject

/-- An object without interfaces. -/
def plain (typeName : String) : HostObject := ⟨typeName, none, none⟩

/-- A string of bytes. -/
def ofBytes (bs : List UInt8) : HostObject := ⟨"bytes", some (.bytes bs), none⟩

/-- A view as an object. -/
def ofView (item : ItemId) : HostObject := ⟨"memoryview", some (.view item), some item⟩

/-- Whether the object calls itself a buffer. -/
def isBuffer (o : HostObject) : Bool :=
  match o.bytes with
  | none | some (.hidden _) => false
  | some (.view _) | some (.bytes _) => true

/-- The holds of an object: for its buffer interface first, then for its release interface. -/
def holds (o : HostObject) : List Hold :=
  (match o.bytes with
    | some (.view item) => [Hold.share item]
    | _ => []) ++
  (o.releasable.map Hold.share).toList

/-- The text of an object. -/
def describe (o : HostObject) : String :=
  Text.describe "ObjectRef"
    [("type_name", Text.quote o.typeName), ("buffer", Text.truth o.bytes.isSome),
     ("releasable", Text.truth o.releasable.isSome)]

end HostObject

/-- What is shared. -/
inductive Thing where
  | view (v : View)
  | object (o : HostObject)
  | text (s : String)
  | integer (i : Int)
  deriving DecidableEq, Repr

/-- The holds that a thing has while it lives. -/
def Thing.holds : Thing → List Hold
  | view v => v.holds
  | object o => o.holds
  | text _ | integer _ => []

/-- A thing with the number of its shares. -/
structure Item where
  thing : Thing
  shares : Nat
  deriving DecidableEq, Repr

namespace Item

/-- The holds of an item, none once it is gone. -/
def holds (x : Item) : List Hold := if x.shares = 0 then [] else x.thing.holds

/-- Gives up all shares of item `id`, which is `x`, among some holds. Where the last of its shares
is given up, the holds of the thing take that place. -/
def settle (id : ItemId) : Item → List Hold → Item × List Hold
  | x, [] => (x, [])
  | x, h :: rest =>
    if h = .share id then
      let freed := if x.shares = 1 then x.thing.holds else []
      let settled := settle id { x with shares := x.shares - 1 } rest
      (settled.1, freed ++ settled.2)
    else
      let settled := settle id x rest
      (settled.1, h :: settled.2)

/-- The text of an item as its owners see it. -/
def describe (x : Item) : String := Text.describe "Owner" [("strong_count", toString x.shares)]

end Item

/-- Gives up holds on a list of items, newest first: each item gives up its shares and passes the
rest on, so an item that goes away leaves its own holds to the older ones. What is left at the end
are holds on buffers, in the order in which they are given up. -/
def settleAll : List Item → List Hold → List Item × List Hold
  | [], holds => ([], holds)
  | x :: older, holds =>
    let settled := x.settle (Numbered.next older) holds
    let rest := settleAll older settled.2
    (settled.1 :: rest.1, rest.2)

/-- What leaves an item is what it held: no other hold is lost or made. -/
theorem Item.count_settle (id : ItemId) (h : Hold) (hne : h ≠ .share id) (x : Item)
    (holds : List Hold) :
    (x.settle id holds).1.holds.count h + (x.settle id holds).2.count h =
      x.holds.count h + holds.count h := by
  induction holds generalizing x with
  | nil => rfl
  | cons g rest ih =>
    unfold settle
    split
    · next hg =>
      subst hg
      have hrest := ih { x with shares := x.shares - 1 }
      simp only [List.count_append, List.count_cons_of_ne hne.symm]
      by_cases h₁ : x.shares = 1
      · simp only [h₁, if_true] at hrest ⊢
        simp [Item.holds, h₁] at hrest ⊢
        omega
      · simp only [h₁, if_false, List.count_nil, Nat.zero_add]
        rw [hrest]
        by_cases h₀ : x.shares = 0
        · simp [Item.holds, h₀]
        · have h₂ : x.shares - 1 ≠ 0 := by omega
          simp [Item.holds, h₀, h₂]
    · have hrest := ih x
      simp only [List.count_cons]
      omega

/-- Settling a list of items loses and makes no hold on a buffer: what is not held any more is left
to be given up. -/
theorem count_settleAll (b : BufferId) (sort : BufferHold) (xs : List Item) (holds : List Hold) :
    ((settleAll xs holds).1.flatMap Item.holds).count (.buffer b sort) +
        (settleAll xs holds).2.count (.buffer b sort) =
      (xs.flatMap Item.holds).count (.buffer b sort) + holds.count (.buffer b sort) := by
  induction xs generalizing holds with
  | nil => rfl
  | cons x older ih =>
    have hx := Item.count_settle (Numbered.next older) (.buffer b sort) (by simp) x holds
    have hrest := ih (x.settle (Numbered.next older) holds).2
    simp only [settleAll, List.flatMap_cons, List.count_append]
    omega

theorem length_settleAll (xs : List Item) (holds : List Hold) :
    (settleAll xs holds).1.length = xs.length := by
  induction xs generalizing holds with
  | nil => rfl
  | cons x older ih => simp [settleAll, ih]

end StridedViews
