import Mathlib.Data.Multiset.AddSub
import Mathlib.Algebra.Order.Group.Multiset
import StridedViews.Sharing.Item

/-!
Shared items and their counts. In a list of items that is sound for the holds from outside every item
counts its shares, those of newer items included. Settling holds on the list keeps it sound for the
holds that are left (`soundItems_settleAll`), and so does changing one item and the holds from
outside together (`soundItems_update`).
-/

namespace StridedViews

open Numbered (next)

variable {i : ItemId} {outside outside' : Multiset Hold}

/-- Whether a hold is one on a buffer. -/
def Hold.isOnBuffer : Hold → Bool
  | .buffer .. => true
  | .share _ => false

/-- A released view has no reference. -/
def Thing.Sound : Thing → Prop
  | .view v => v.isReleased = true → v.buffer? = none
  | .object _ | .text _ | .integer _ => True

/-- An item of number `i` is sound for some holds if it counts the shares among them; it mentions
older items only. -/
structure Item.SoundAt (x : Item) (i : ItemId) (outside : Multiset Hold) : Prop where
  counted : x.shares = outside.count (.share i)
  thing : x.thing.Sound
  elder : ∀ j, .share j ∈ x.thing.holds → j < i

/-- A list of items is sound for the holds from outside if each item is, where to an older item the
newer ones are outside as well. -/
def SoundItems : List Item → Multiset Hold → Prop
  | [], _ => True
  | x :: older, outside =>
    x.SoundAt (next older) outside ∧ SoundItems older (outside + (x.holds : Multiset Hold))

/-- The holds of all living items. -/
def holdsOf (xs : List Item) : Multiset Hold := (xs.flatMap Item.holds : List Hold)

/-- A share of one item is no share of another. -/
theorem count_share_of_ne {j : ItemId} (h : j ≠ i) :
    ({.share i} + outside).count (.share j) = outside.count (.share j) := by
  rw [Multiset.count_add, Multiset.count_singleton, if_neg (fun heq => h (by injection heq)),
    Nat.zero_add]

/-- A share of an item is no hold on a buffer. -/
theorem count_buffer_share (id : BufferId) (h : BufferHold) :
    ({.share i} + outside).count (.buffer id h) = outside.count (.buffer id h) := by
  rw [Multiset.count_add, Multiset.count_singleton, if_neg (by simp), Nat.zero_add]

theorem SoundItems.congr {xs : List Item} (hs : SoundItems xs outside)
    (hc : ∀ i, i ≤ xs.length → outside.count (.share i) = outside'.count (.share i)) :
    SoundItems xs outside' := by
  induction xs generalizing outside outside' with
  | nil => trivial
  | cons x older ih =>
    obtain ⟨⟨hcounted, hthing, helder⟩, holder⟩ := hs
    refine ⟨⟨?_, hthing, helder⟩, ih holder fun i hle => ?_⟩
    · rw [hcounted, hc (next older) le_rfl]
    · rw [Multiset.count_add, Multiset.count_add, hc i (Nat.le_succ_of_le hle)]

theorem Item.thing_settle (i : ItemId) (x : Item) (holds : List Hold) :
    (x.settle i holds).1.thing = x.thing := by
  induction holds generalizing x with
  | nil => rfl
  | cons h rest ih =>
    rw [settle]
    split <;> exact ih _

theorem Item.shares_settle (i : ItemId) (x : Item) (holds : List Hold) :
    (x.settle i holds).1.shares = x.shares - holds.count (.share i) := by
  induction holds generalizing x with
  | nil => rfl
  | cons h rest ih =>
    rw [settle]
    split
    · next hh =>
      subst hh
      rw [List.count_cons_self]
      exact (ih _).trans (by dsimp only; omega)
    · next hh =>
      rw [List.count_cons_of_ne hh]
      exact ih x

/-- Giving up the shares of an item leaves it sound for those that are left. -/
theorem Item.SoundAt.settle {x : Item} {holds : List Hold}
    (hx : x.SoundAt i ((holds : Multiset Hold) + outside)) :
    (x.settle i holds).1.SoundAt i outside := by
  refine ⟨?_, ?_, ?_⟩
  · rw [x.shares_settle, hx.counted, Multiset.count_add, Multiset.coe_count]
    omega
  · rw [x.thing_settle]
    exact hx.thing
  · rw [x.thing_settle]
    exact hx.elder

theorem next_settleAll (xs : List Item) (holds : List Hold) :
    next (settleAll xs holds).1 = next xs := by
  rw [next, length_settleAll, next]

theorem soundItems_settleAll {xs : List Item} {holds : List Hold}
    (hs : SoundItems xs ((holds : Multiset Hold) + outside)) :
    SoundItems (settleAll xs holds).1 outside := by
  induction xs generalizing holds outside with
  | nil => trivial
  | cons x older ih =>
    obtain ⟨hx, holder⟩ := hs
    rw [settleAll]
    refine ⟨by rw [next_settleAll]; exact hx.settle, ih (holder.congr fun i hle => ?_)⟩
    -- what leaves the item or its holders is what the older items have to settle
    have hne : Hold.share i ≠ .share (next older) := fun heq =>
      Nat.ne_of_lt (Nat.lt_succ_of_le hle) (by injection heq)
    have hcount := Item.count_settle (next older) (.share i) hne x holds
    simp only [Multiset.count_add, Multiset.coe_count]
    omega

theorem Item.holds_settle_subset (i : ItemId) (x : Item) (holds : List Hold) :
    (x.settle i holds).1.holds ⊆ x.holds := by
  intro h hm
  rw [Item.holds, x.thing_settle, x.shares_settle] at hm
  split at hm
  · cases hm
  · next hne =>
    rw [Item.holds, if_neg (by omega)]
    exact hm

theorem holdsOf_settleAll_subset (xs : List Item) (holds : List Hold) :
    holdsOf (settleAll xs holds).1 ⊆ holdsOf xs := by
  induction xs generalizing holds with
  | nil =>
    intro _ h
    exact h
  | cons x older ih =>
    intro h hm
    simp only [holdsOf, settleAll, List.flatMap_cons, Multiset.mem_coe, List.mem_append] at hm ⊢
    exact hm.imp (fun hm => x.holds_settle_subset _ _ hm) fun hm => ih _ hm

theorem SoundItems.soundAt {xs : List Item} {x : Item} (hs : SoundItems xs outside)
    (hget : Numbered.get? xs i = some x) : ∃ outside', x.SoundAt i outside' := by
  induction xs generalizing outside with
  | nil => cases hget
  | cons y older ih =>
    obtain ⟨hy, holder⟩ := hs
    rw [Numbered.get?] at hget
    split at hget
    · next hi =>
      subst hi
      cases hget
      exact ⟨outside, hy⟩
    · exact ih holder hget

/-- An item that something is a share of lives. -/
theorem SoundItems.shares_ne_zero {xs : List Item} {x : Item} (hs : SoundItems xs outside)
    (hget : Numbered.get? xs i = some x) (hm : .share i ∈ outside + holdsOf xs) : x.shares ≠ 0 := by
  induction xs generalizing outside with
  | nil => cases hget
  | cons y older ih =>
    obtain ⟨hy, holder⟩ := hs
    rw [holdsOf, List.flatMap_cons, ← Multiset.coe_add, ← holdsOf, ← add_assoc] at hm
    rw [Numbered.get?] at hget
    split at hget
    · next hi =>
      subst hi
      cases hget
      have hout : .share (next older) ∈ outside := by
        rcases Multiset.mem_add.mp hm with hm | hm
        · refine (Multiset.mem_add.mp hm).resolve_right ?_
          intro hm
          rw [Multiset.mem_coe, Item.holds] at hm
          split at hm
          · cases hm
          · exact Nat.lt_irrefl _ (hy.elder _ hm)
        · -- an older item mentions none that is newer
          obtain ⟨z, hz, hm⟩ := List.mem_flatMap.mp (Multiset.mem_coe.mp hm)
          obtain ⟨k, hk⟩ := Numbered.mem_iff_get?.mp hz
          obtain ⟨_, hsound⟩ := holder.soundAt hk
          rw [Item.holds] at hm
          split at hm
          · cases hm
          · have hlt : older.length + 1 < k := hsound.elder _ hm
            have hle := Numbered.le_length_of_get? hk
            omega
      rw [hy.counted]
      exact (Multiset.count_pos.mpr hout).ne'
    · exact ih holder hget hm

/-- Changing an item and the holds from outside keeps the items sound if the item counts the shares
that it gains and the older ones lose none of theirs. -/
theorem soundItems_update {xs : List Item} {x : Item} {f : Item → Item} {gained : Multiset Hold}
    (hs : SoundItems xs outside) (hget : Numbered.get? xs i = some x) (hthing : (f x).thing.Sound)
    (helder : ∀ j, .share j ∈ (f x).thing.holds → j < i)
    (hself : (f x).shares = x.shares + gained.count (.share i))
    (hnewer : ∀ j, i < j → gained.count (.share j) = 0)
    (hmoved : ∀ j, j < i →
      gained.count (.share j) + (f x).holds.count (.share j) = x.holds.count (.share j)) :
    SoundItems (Numbered.update f xs i) (gained + outside) := by
  induction xs generalizing outside with
  | nil => cases hget
  | cons y older ih =>
    obtain ⟨hy, holder⟩ := hs
    rw [Numbered.get?] at hget
    rw [Numbered.update]
    split at hget
    · next hi =>
      subst hi
      cases hget
      rw [if_pos rfl]
      refine ⟨⟨?_, hthing, helder⟩, holder.congr fun j hle => ?_⟩
      · rw [hself, hy.counted, Multiset.count_add, Nat.add_comm]
      · have hj := hmoved j (Nat.lt_succ_of_le hle)
        simp only [Multiset.count_add, Multiset.coe_count]
        omega
    · next hi =>
      rw [if_neg hi]
      have hlt : i < next older := Nat.lt_succ_of_le (Numbered.le_length_of_get? hget)
      refine ⟨⟨?_, hy.thing, ?_⟩, ?_⟩
      · rw [Numbered.next_update, hy.counted, Multiset.count_add, hnewer _ hlt, Nat.zero_add]
      · rw [Numbered.next_update]
        exact hy.elder
      · rw [add_assoc]
        exact ih holder hget

/-- What a changed item gives up leaves the holds of all items. -/
theorem holdsOf_update {xs : List Item} {x : Item} {f : Item → Item} {left : Multiset Hold}
    (hget : Numbered.get? xs i = some x)
    (hx : (x.holds : Multiset Hold) = left + ((f x).holds : Multiset Hold)) :
    holdsOf xs = left + holdsOf (Numbered.update f xs i) := by
  induction xs with
  | nil => cases hget
  | cons y older ih =>
    rw [Numbered.get?] at hget
    rw [Numbered.update]
    split at hget
    · next hi =>
      cases hget
      rw [if_pos hi, holdsOf, holdsOf, List.flatMap_cons, List.flatMap_cons, ← Multiset.coe_add,
        ← Multiset.coe_add, hx, add_assoc]
    · next hi =>
      have hrest := ih hget
      rw [holdsOf, holdsOf] at hrest
      rw [if_neg hi, holdsOf, holdsOf, List.flatMap_cons, List.flatMap_cons, ← Multiset.coe_add,
        ← Multiset.coe_add, hrest, add_left_comm]

end StridedViews
